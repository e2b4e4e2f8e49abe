import Mathlib.Data.List.Chain
import Mathlib.Logic.Function.Basic

/-!
# Circular doubly linked lists

Memory is seen through two functions, `next` and `prev`, from an element to
its neighbours.  `Linked` says that consecutive elements of a list are linked
both ways; `Circular` links its last element to its first.

The edits of a ring are local.  `Circular.insert` and `Circular.remove` change
the links around one position and ask only that the new links agree with the
old ones everywhere else.
-/

namespace Cosec.Lib.LinkedRing

open Function List

universe u

variable {Element : Type u}

/-- Consecutive elements are linked both ways. -/
def Linked (next prev : Element → Element) (path : List Element) : Prop :=
  path.IsChain fun left right => next left = right ∧ prev right = left

/-- A linked list whose last element is followed by its first. -/
def Circular (next prev : Element → Element) (members : List Element) : Prop :=
  members ≠ [] ∧ Linked next prev (members ++ members.take 1)

variable {next prev next' prev' : Element → Element}

/--
Linkage reads the successor of every element but the last and the
predecessor of every element but the first.
-/
theorem Linked.congr {path : List Element} (linked : Linked next prev path)
    (nextKept : ∀ member ∈ path.dropLast, next' member = next member)
    (prevKept : ∀ member ∈ path.tail, prev' member = prev member) : Linked next' prev' path := by
  induction path with
  | nil => exact List.IsChain.nil
  | cons head rest ih =>
    cases rest with
    | nil => exact List.IsChain.singleton head
    | cons second rest =>
      obtain ⟨⟨forward, backward⟩, tailLinked⟩ := isChain_cons_cons.mp linked
      refine isChain_cons_cons.mpr ⟨⟨?_, ?_⟩, ?_⟩
      · rw [nextKept head (by simp), forward]
      · rw [prevKept second (by simp), backward]
      · apply ih tailLinked
        · intro member inside
          exact nextKept member (by simpa using Or.inr inside)
        · intro member inside
          exact prevKept member (mem_cons_of_mem second inside)

theorem take_one_append_cons (before after : List Element) (element : Element) :
    (before ++ element :: after).take 1 = (before ++ [element]).take 1 := by
  cases before <;> simp

variable {before after : List Element} {left right : Element}

theorem circular_split_iff :
    Circular next prev (before ++ left :: right :: after) ↔
      Linked next prev (before ++ [left]) ∧ (next left = right ∧ prev right = left) ∧
        Linked next prev (right :: after ++ (before ++ [left]).take 1) := by
  have nonempty : before ++ left :: right :: after ≠ [] := by simp
  unfold Circular Linked
  rw [take_one_append_cons before (right :: after) left]
  simp only [nonempty, ne_eq, not_false_eq_true, true_and,
    append_assoc, cons_append, isChain_append_cons_cons]

theorem Circular.neighbours (ring : Circular next prev (before ++ left :: right :: after)) :
    next left = right ∧ prev right = left :=
  (circular_split_iff.mp ring).2.1

variable {first : Element}

theorem Circular.closing {middle : List Element} {last : Element}
    (ring : Circular next prev (first :: middle ++ [last])) :
    next last = first ∧ prev first = last := by
  obtain ⟨_, linked⟩ := ring
  have closed : Linked next prev ((first :: middle) ++ last :: first :: []) := by simpa using linked
  exact (isChain_append_cons_cons.mp closed).2.1

variable {members : List Element}

theorem Circular.congr
    (ring : Circular next prev members) (nextKept : ∀ member ∈ members, next' member = next member)
    (prevKept : ∀ member ∈ members, prev' member = prev member) : Circular next' prev' members := by
  refine ⟨ring.1, ring.2.congr ?_ ?_⟩
  · intro member inside
    have weaker := (dropLast_sublist _).subset inside
    rcases mem_append.mp weaker with direct | first
    · exact nextKept member direct
    · exact nextKept member (mem_of_mem_take first)
  · intro member inside
    have weaker := mem_of_mem_tail inside
    rcases mem_append.mp weaker with direct | first
    · exact prevKept member direct
    · exact prevKept member (mem_of_mem_take first)

/--
The two sides of a position keep their linkage when the new links agree with
the old ones away from that position.
-/
theorem circular_sides_kept (leftLinked : Linked next prev (before ++ [left]))
    (rightLinked : Linked next prev (right :: after ++ (before ++ [left]).take 1))
    (nextKept : ∀ member ∈ before ++ right :: after, next' member = next member)
    (prevKept : ∀ member ∈ before ++ left :: after, prev' member = prev member) :
    Linked next' prev' (before ++ [left]) ∧
      Linked next' prev' (right :: after ++ (before ++ [left]).take 1) := by
  constructor
  · apply leftLinked.congr
    · intro member inside
      rw [dropLast_concat] at inside
      exact nextKept member (mem_append_left _ inside)
    · intro member inside
      have weaker := mem_of_mem_tail inside
      exact prevKept member (by simp at weaker ⊢; tauto)
  · apply rightLinked.congr
    · intro member inside
      obtain ⟨first, firstEq⟩ : ∃ first, (before ++ [left]).take 1 = [first] := by
        cases before <;> simp
      rw [firstEq, dropLast_concat] at inside
      exact nextKept member (mem_append_right _ inside)
    · intro member inside
      rcases mem_append.mp inside with later | first
      · exact prevKept member (by simp [later])
      · have weaker := mem_of_mem_take first
        exact prevKept member (by simp at weaker ⊢; tauto)

/-- Linking a new element between two neighbours. -/
theorem Circular.insert {fresh : Element}
    (ring : Circular next prev (before ++ left :: right :: after)) (nextLeft : next' left = fresh)
    (prevFresh : prev' fresh = left) (nextFresh : next' fresh = right)
    (prevRight : prev' right = fresh)
    (nextKept : ∀ member ∈ before ++ right :: after, next' member = next member)
    (prevKept : ∀ member ∈ before ++ left :: after, prev' member = prev member) :
    Circular next' prev' (before ++ left :: fresh :: right :: after) := by
  obtain ⟨leftLinked, _, rightLinked⟩ := circular_split_iff.mp ring
  obtain ⟨leftKept, rightKept⟩ := circular_sides_kept leftLinked rightLinked nextKept prevKept
  refine circular_split_iff.mpr ⟨leftKept, ⟨nextLeft, prevFresh⟩, ?_⟩
  exact isChain_cons_cons.mpr ⟨⟨nextFresh, prevRight⟩, rightKept⟩

/-- Unlinking the element between two others. -/
theorem Circular.remove {middle : Element}
    (ring : Circular next prev (before ++ left :: middle :: right :: after))
    (nextLeft : next' left = right) (prevRight : prev' right = left)
    (nextKept : ∀ member ∈ before ++ right :: after, next' member = next member)
    (prevKept : ∀ member ∈ before ++ left :: after, prev' member = prev member) :
    Circular next' prev' (before ++ left :: right :: after) := by
  obtain ⟨leftLinked, _, fromMiddle⟩ := circular_split_iff.mp ring
  have rightLinked := (isChain_cons_cons.mp fromMiddle).2
  obtain ⟨leftKept, rightKept⟩ := circular_sides_kept leftLinked rightLinked nextKept prevKept
  exact circular_split_iff.mpr ⟨leftKept, ⟨nextLeft, prevRight⟩, rightKept⟩

/-- A ring may be read from any of its members. -/
theorem Circular.from
    {start : Element} (ring : Circular next prev (before ++ start :: after)) :
    Linked next prev (start :: (after ++ before) ++ [start]) := by
  obtain ⟨_, linked⟩ := ring
  cases before with
  | nil => simpa using linked
  | cons first before =>
    have split : Linked next prev ((first :: before) ++ start :: (after ++ [first])) := by
      simpa using linked
    obtain ⟨toStart, fromStart⟩ := isChain_split.mp split
    have joined : Linked next prev ((start :: after) ++ first :: (before ++ [start])) :=
      isChain_split.mpr ⟨fromStart, toStart⟩
    simpa using joined

/-- The first element of a closed list leads to one of its elements. -/
theorem Linked.next_mem (linked : Linked next prev (first :: members ++ [first])) :
    next first ∈ first :: members := by
  cases members with
  | nil =>
    rw [(isChain_cons_cons.mp linked).1.1]
    exact mem_cons_self
  | cons second rest =>
    rw [(isChain_cons_cons.mp linked).1.1]
    exact mem_cons_of_mem _ mem_cons_self

theorem Circular.neighbours_mem
    {element : Element} (ring : Circular next prev members) (member : element ∈ members) :
    next element ∈ members ∧ prev element ∈ members := by
  obtain ⟨before, after, rfl⟩ := append_of_mem member
  have backward : Linked prev next (element :: (after ++ before).reverse ++ [element]) := by
    simpa [Linked, and_comm] using isChain_reverse.mpr ring.from
  have forward := ring.from.next_mem
  have behind := backward.next_mem
  simp only [mem_append, mem_cons, mem_reverse] at forward behind ⊢
  tauto

/-! ## Edits by assignment

Elements are linked and unlinked by assignments to the links of their
neighbours.  A ring has no ends of its own, so the two rules below and
`Circular.rotate` cover every position. -/

/-- Where a ring begins does not matter. -/
theorem Circular.rotate {front back : List Element} (ring : Circular next prev (front ++ back)) :
    Circular next prev (back ++ front) := by
  cases back with
  | nil => simpa using ring
  | cons start back =>
    refine ⟨by simp, ?_⟩
    simpa using ring.from

theorem circular_concat_iff {front : List Element} {last : Element}
    (head : (front ++ [last]).head? = some first) :
    Circular next prev (front ++ [last]) ↔
      Linked next prev (front ++ [last]) ∧ (next last = first ∧ prev first = last) := by
  have nonempty : front ++ [last] ≠ [] := by simp
  have closing : (front ++ [last]).take 1 = [first] := by
    rw [take_one, head]
    rfl
  unfold Circular Linked
  rw [closing, append_assoc]
  simp only [nonempty, ne_eq, not_false_eq_true, true_and,
    cons_append, nil_append, isChain_append_cons_cons, isChain_singleton, and_true]

variable {rest : List Element}

theorem Circular.ends (ring : Circular next prev (first :: rest)) (others : rest ≠ []) :
    next first = rest.head others ∧ prev first = rest.getLast others := by
  obtain ⟨front, last, rfl⟩ : ∃ front last, rest = front ++ [last] :=
    ⟨_, _, (dropLast_append_getLast others).symm⟩
  have whole : (first :: front ++ [last]).head? = some first := rfl
  obtain ⟨linked, _, lastIs⟩ := (circular_concat_iff whole).mp ring
  refine ⟨?_, by simpa using lastIs⟩
  have opened : Linked next prev
      (first :: (front ++ [last]).head others :: (front ++ [last]).tail) := by
    rwa [cons_head_tail]
  exact (isChain_cons_cons.mp opened).1.1

section Assignments

variable [DecidableEq Element]

theorem Circular.link {fresh : Element} (ring : Circular next prev (first :: rest))
    (distinct : (first :: rest).Nodup) (absent : fresh ∉ first :: rest) :
    Circular (update (update next fresh first) (prev first) fresh)
      (update (update prev first fresh) fresh (prev first)) (first :: rest ++ [fresh]) := by
  obtain ⟨front, last, split⟩ : ∃ front last, first :: rest = front ++ [last] :=
    ⟨_, _, (dropLast_append_getLast (cons_ne_nil _ _)).symm⟩
  have head : (front ++ [last]).head? = some first := by rw [← split, head?_cons]
  have firstApart : first ∉ (front ++ [last]).tail := by
    rw [← split]
    exact (nodup_cons.mp distinct).1
  rw [split] at ring distinct absent ⊢
  have lastApart : last ∉ front := by
    intro inside
    exact (nodup_append.mp distinct).2.2 last inside last (by simp) rfl
  have freshApart : ∀ member ∈ front ++ [last], member ≠ fresh := by
    rintro member inside rfl
    exact absent inside
  obtain ⟨linked, _, lastIs⟩ := (circular_concat_iff head).mp ring
  rw [lastIs]
  have newHead : (front ++ [last] ++ [fresh]).head? = some first := by
    rw [head?_append_of_ne_nil _ (by simp), head]
  refine (circular_concat_iff newHead).mpr ⟨?_, ?_, ?_⟩
  · rw [append_assoc]
    refine isChain_append_cons_cons.mpr ⟨?_, ⟨?_, ?_⟩, ?_⟩
    · apply linked.congr
      · intro member inside
        rw [dropLast_concat] at inside
        rw [update_of_ne (by rintro rfl; exact lastApart inside),
          update_of_ne (freshApart member (mem_append_left _ inside))]
      · intro member inside
        rw [update_of_ne (freshApart member (mem_of_mem_tail inside)),
          update_of_ne (by rintro rfl; exact firstApart inside)]
    · exact update_self ..
    · exact update_self ..
    · exact List.IsChain.singleton fresh
  · rw [update_of_ne (Ne.symm (freshApart last (by simp))), update_self]
  · have member : first ∈ front ++ [last] := mem_of_head? head
    rw [update_of_ne (freshApart first member), update_self]

theorem Circular.unlink {gone : Element} (ring : Circular next prev (gone :: rest))
    (distinct : (gone :: rest).Nodup) (others : rest ≠ []) :
    Circular (update next (prev gone) (next gone)) (update prev (next gone) (prev gone)) rest := by
  obtain ⟨nextIs, prevIs⟩ := ring.ends others
  obtain ⟨front, last, rfl⟩ : ∃ front last, rest = front ++ [last] :=
    ⟨_, _, (dropLast_append_getLast others).symm⟩
  rw [getLast_concat] at prevIs
  have inner : (front ++ [last]).Nodup := (nodup_cons.mp distinct).2
  have whole : (gone :: front ++ [last]).head? = some gone := rfl
  have linked : Linked next prev (front ++ [last]) := ((circular_concat_iff whole).mp ring).1.tail
  have head := head?_eq_some_head others
  rw [nextIs, prevIs]
  refine (circular_concat_iff head).mpr ⟨?_, ?_, ?_⟩
  · apply linked.congr
    · intro member inside
      rw [dropLast_concat] at inside
      refine update_of_ne ?_ ..
      rintro rfl
      exact (nodup_append.mp inner).2.2 _ inside _ (mem_singleton_self _) rfl
    · intro member inside
      refine update_of_ne ?_ ..
      rintro rfl
      rw [← cons_head_tail others] at inner
      exact (nodup_cons.mp inner).1 inside
  · exact update_self ..
  · exact update_self ..

end Assignments

end Cosec.Lib.LinkedRing
