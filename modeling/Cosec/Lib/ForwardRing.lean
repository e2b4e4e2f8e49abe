import Mathlib.Data.List.Chain
import Mathlib.Data.List.Nodup

/-!
# Rings of forward links

Elements are linked by a partial function `next`.  A ring is a list of
distinct elements in which each is followed by the next one and the last by
the first.  It is written from one of its elements on, and may be rotated to
begin at any other.
-/

namespace Cosec.Lib.ForwardRing

open List

universe u

variable {Element : Type u} {next later : Element → Option Element} {first found : Element}
  {rest before after : List Element}

/-- Each element of a path leads to the one behind it. -/
def Follows (next : Element → Option Element) (path : List Element) : Prop :=
  path.IsChain fun left right => next left = some right

/-- The ring of `first` and the elements behind it. -/
structure Ring
    (next : Element → Option Element) (first : Element) (rest : List Element) : Prop where
  distinct : (first :: rest).Nodup
  linked : Follows next (first :: rest ++ [first])

/-- A path depends on the links of its elements but the last. -/
theorem Follows.congr
    {path : List Element} {last : Element} (follows : Follows next (path ++ [last]))
    (kept : ∀ element ∈ path, later element = next element) : Follows later (path ++ [last]) := by
  induction path with
  | nil => exact isChain_singleton last
  | cons head tail ih =>
    have tailFollows := ih (List.IsChain.tail follows) (fun element member =>
          kept element (mem_cons_of_mem head member))
    cases tail with
    | nil =>
      have link := isChain_pair.mp follows
      apply isChain_pair.mpr
      rw [kept head mem_cons_self]
      exact link
    | cons second tail =>
      obtain ⟨link, _⟩ := isChain_cons_cons.mp follows
      apply isChain_cons_cons.mpr
      refine ⟨?_, tailFollows⟩
      rw [kept head mem_cons_self]
      exact link

theorem Ring.insert
    {element : Element} (ring : Ring next first rest) (new : element ∉ first :: rest)
    (entering : later first = some element) (leaving : later element = next first)
    (kept : ∀ member ∈ rest, later member = next member) : Ring later first (element :: rest) := by
  have linked := ring.linked
  constructor
  · rw [mem_cons, not_or] at new
    obtain ⟨firstNew, distinct⟩ := nodup_cons.mp ring.distinct
    apply nodup_cons.mpr
    constructor
    · intro member
      rcases mem_cons.mp member with same | inside
      · exact new.1 same.symm
      · exact firstNew inside
    · exact nodup_cons.mpr ⟨new.2, distinct⟩
  · apply isChain_cons_cons.mpr
    refine ⟨entering, ?_⟩
    have behind : Follows later (rest ++ [first]) := Follows.congr (List.IsChain.tail linked) kept
    cases rest with
    | nil =>
      apply isChain_pair.mpr
      rw [leaving]
      exact (isChain_cons_cons.mp linked).1
    | cons second tail =>
      apply isChain_cons_cons.mpr
      refine ⟨?_, behind⟩
      rw [leaving]
      exact (isChain_cons_cons.mp linked).1

/-- A ring may begin at any of its elements. -/
theorem Ring.rotate (ring : Ring next first (before ++ found :: after)) :
    Ring next found (after ++ first :: before) := by
  have linked : Follows next ((first :: before) ++ found :: (after ++ [first])) := by
    simpa using ring.linked
  obtain ⟨toFound, fromFound⟩ := isChain_split.mp linked
  constructor
  · have distinct : ((first :: before) ++ (found :: after)).Nodup := ring.distinct
    exact (perm_append_comm.nodup_iff).mp distinct
  · have closed : Follows next ((found :: after) ++ first :: (before ++ [found])) :=
      isChain_split.mpr ⟨fromFound, toFound⟩
    simpa using closed

theorem Follows.next_eq
    {element : Element} {path : List Element} (follows : Follows next (element :: path))
    (nonempty : path ≠ []) : next element = path.head? := by
  cases path with
  | nil => exact absurd rfl nonempty
  | cons second tail => exact (isChain_cons_cons.mp follows).1

theorem Ring.next_eq_some
    {element : Element} (ring : Ring next first rest) (member : element ∈ first :: rest) :
    ∃ second, next element = some second := by
  have firstLinked :
      ∀ {element : Element} {behind : List Element}, Ring next element behind →
        ∃ second, next element = some second := by
    intro element behind turned
    rw [Follows.next_eq turned.linked (by simp)]
    cases behind with
    | nil => exact ⟨element, rfl⟩
    | cons second tail => exact ⟨second, rfl⟩
  rcases mem_cons.mp member with same | behind
  · subst same
    exact firstLinked ring
  · obtain ⟨before, after, split⟩ := append_of_mem behind
    subst split
    exact firstLinked ring.rotate

/-- An element that leads to itself is alone in its ring. -/
theorem Ring.rest_eq_nil (ring : Ring next first rest) (self : next first = some first) :
    rest = [] := by
  cases rest with
  | nil => rfl
  | cons second tail =>
    have link : next first = some second := Follows.next_eq ring.linked (by simp)
    have same : first = second := Option.some.inj (self.symm.trans link)
    exact absurd (same ▸ mem_cons_self) (nodup_cons.mp ring.distinct).1

end Cosec.Lib.ForwardRing
