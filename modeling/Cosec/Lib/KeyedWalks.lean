import Mathlib.Data.List.Basic
import Mathlib.Data.List.Nodup

/-!
# Walks that remember a key

A list is walked one item a call, and between two calls only the key of the
next item is remembered.  A call goes on at the first item of that key; one
special key begins the walk at the head of the list, and when it is to be
remembered the walk is over.

Such a walk meets every item exactly when the list is not empty, no key
comes twice, and no item but the first has the special key.
-/

namespace Cosec.Lib.KeyedWalks

open List

universe u v

variable {Item : Type u} {Key : Type v} [DecidableEq Key] (key : Item → Key) (null : Key)
  (items : List Item)

/-- The items from the one on at which a key makes the walk go on. -/
def resume (place : Key) : List Item :=
  if place = null then items
  else items.dropWhile fun item => key item ≠ place

omit [DecidableEq Key] in
/-- The key to be remembered in front of some items. -/
def nextKey (rest : List Item) : Key := (rest.head?.map key).getD null

/--
The items met from a key on, in at most `fuel` calls; `none` when the calls
do not suffice or one of them finds no item.
-/
def visit : Nat → Key → Option (List Item)
  | 0, _ => none
  | fuel + 1, place =>
    match resume key null items place with
    | [] => none
    | item :: rest =>
      if nextKey key null rest = null then some [item]
      else (visit fuel (nextKey key null rest)).map (item :: ·)

/-- The lists that a walk meets as a whole. -/
structure Walkable : Prop where
  nonempty : items ≠ []
  distinct : (items.map key).Nodup
  proper : ∀ item ∈ items.tail, key item ≠ null

variable {key null items} {place : Key} {fuel : Nat} {listed : List Item}

/-- More calls do not change a finished walk. -/
theorem visit_succ (finished : visit key null items fuel place = some listed) :
    visit key null items (fuel + 1) place = some listed := by
  induction fuel generalizing place listed with
  | zero => cases finished
  | succ fuel ih =>
    rw [visit] at finished ⊢
    cases here : resume key null items place with
    | nil =>
      rw [here] at finished
      cases finished
    | cons item rest =>
      rw [here] at finished
      dsimp only at finished ⊢
      split
      · rename_i last
        rw [if_pos last] at finished
        exact finished
      · rename_i more
        rw [if_neg more] at finished
        obtain ⟨later, walked, equal⟩ := Option.map_eq_some_iff.mp finished
        rw [ih walked, Option.map_some, equal]

theorem visit_mono {more : Nat} (finished : visit key null items fuel place = some listed)
    (enough : fuel ≤ more) : visit key null items more place = some listed := by
  induction enough with
  | refl => exact finished
  | step _ ih => exact visit_succ ih

variable {front rest : List Item} {item : Item}

theorem resume_of_notMem (split : items = front ++ item :: rest) (proper : key item ≠ null)
    (fresh : key item ∉ front.map key) : resume key null items (key item) = item :: rest := by
  have skipped : ∀ other ∈ front, (decide (key other ≠ key item)) = true := by
    intro other member
    refine decide_eq_true fun same => fresh ?_
    rw [← same]
    exact mem_map_of_mem member
  rw [resume, if_neg proper, split, dropWhile_append_of_pos skipped,
    dropWhile_cons_of_neg (by simp)]

omit [DecidableEq Key] in
theorem notMem_of_nodup (distinct : ((front ++ item :: rest).map key).Nodup) :
    key item ∉ front.map key := by
  rw [map_append, map_cons] at distinct
  intro member
  exact (nodup_append.mp distinct).2.2 _ member _ mem_cons_self rfl

/-- From one item on, the rest of a walkable list is met in order. -/
theorem visit_rest
    (split : items = front ++ item :: rest) (here : resume key null items place = item :: rest)
    (distinct : (items.map key).Nodup) (proper : ∀ other ∈ rest, key other ≠ null) :
    visit key null items (rest.length + 1) place = some (item :: rest) := by
  induction rest generalizing front item place with
  | nil =>
    rw [visit, here]
    exact if_pos rfl
  | cons next more ih =>
    have nextProper := proper next mem_cons_self
    have nextSplit : items = (front ++ [item]) ++ next :: more := by
      rw [split, append_assoc, singleton_append]
    have fresh : key next ∉ (front ++ [item]).map key := by
      rw [nextSplit] at distinct
      exact notMem_of_nodup distinct
    have later :=
      ih nextSplit (resume_of_notMem nextSplit nextProper fresh)
        (fun other member => proper other (mem_cons_of_mem next member))
    rw [length_cons, visit, here]
    dsimp only
    rw [if_neg (show nextKey key null (next :: more) ≠ null from
      nextProper)]
    exact congrArg (Option.map (item :: ·)) later

theorem Walkable.visit_all (walkable : Walkable key null items) :
    visit key null items items.length null = some items := by
  cases list : items with
  | nil => exact absurd list walkable.nonempty
  | cons item rest =>
    subst list
    have begun : resume key null (item :: rest) null = item :: rest := if_pos rfl
    exact visit_rest (nil_append _).symm begun walkable.distinct walkable.proper

variable (key null items) in
/-- The walks from the keys of some items on are longer than this. -/
def Outlasted (front : List Item) (length : Nat) : Prop :=
  ∀ old ∈ front, key old ≠ null →
    ∃ calls longer, visit key null items calls (key old) = some longer ∧ length < longer.length

/-- The walk from an item on is longer than the walk behind it. -/
theorem Outlasted.snoc {later : List Item}
    (outlasted : Outlasted key null items front (later.length + 1))
    (split : items = front ++ item :: rest) (here : resume key null items place = item :: rest)
    (finished : visit key null items fuel place = some (item :: later))
    (fresh : key item ∉ front.map key) :
    Outlasted key null items (front ++ [item]) later.length := by
  intro old member proper
  rcases mem_append.mp member with older | last
  · obtain ⟨calls, longer, visited, shorter⟩ := outlasted old older proper
    exact ⟨calls, longer, visited, Nat.lt_of_succ_lt shorter⟩
  · cases mem_singleton.mp last
    have samePlace : resume key null items (key item) = resume key null items place := by
      rw [here]
      exact resume_of_notMem split proper fresh
    refine ⟨fuel, item :: later, ?_, Nat.lt_succ_self _⟩
    cases fuel with
    | zero => exact finished
    | succ fuel => rwa [visit, samePlace, ← visit]

/-- A key that a finished walk goes on at is not one of longer walks. -/
theorem Outlasted.fresh {later : List Item}
    (outlasted : Outlasted key null items front later.length) (proper : place ≠ null)
    (finished : visit key null items fuel place = some later) : place ∉ front.map key := by
  intro member
  obtain ⟨old, oldMember, rfl⟩ := mem_map.mp member
  obtain ⟨calls, longer, visited, shorter⟩ := outlasted old oldMember proper
  have first := visit_mono visited (Nat.le_max_left calls fuel)
  have second := visit_mono finished (Nat.le_max_right calls fuel)
  rw [Option.some.inj (first.symm.trans second)] at shorter
  exact Nat.lt_irrefl _ shorter

/-- A walk that meets another item goes on at its key. -/
theorem visit_next {more : List Item} {next : Item}
    (here : resume key null items place = item :: next :: more)
    (finished : visit key null items (fuel + 1) place = some listed) (long : 1 < listed.length) :
    key next ≠ null ∧
      ∃ later, visit key null items fuel (key next) = some later ∧ listed = item :: later := by
  rw [visit, here] at finished
  dsimp only at finished
  by_cases nextNull : nextKey key null (next :: more) = null
  · rw [if_pos nextNull] at finished
    cases finished
    exact absurd long (Nat.lt_irrefl 1)
  · rw [if_neg nextNull] at finished
    obtain ⟨later, walked, equal⟩ := Option.map_eq_some_iff.mp finished
    exact ⟨nextNull, later, walked, equal.symm⟩

/--
A walk that goes on at some place meets as many items as there are from that
place on only if the list is walkable.  The keys of the items in front belong
to walks that are still longer, so none of them can come again.
-/
theorem walkable_of_visit (split : items = front ++ item :: rest)
    (here : resume key null items place = item :: rest)
    (finished : visit key null items fuel place = some listed)
    (long : rest.length + 1 ≤ listed.length)
    (outlasted : Outlasted key null items front listed.length)
    (distinct : ((front ++ [item]).map key).Nodup)
    (proper : ∀ other ∈ (front ++ [item]).tail, key other ≠ null) : Walkable key null items := by
  induction rest generalizing front item place fuel listed with
  | nil =>
    rw [split]
    exact ⟨by simp, distinct, proper⟩
  | cons next more ih =>
    have nextSplit : items = (front ++ [item]) ++ next :: more := by
      rw [split, append_assoc, singleton_append]
    rw [length_cons] at long
    cases fuel with
    | zero => cases finished
    | succ fuel =>
      obtain ⟨nextProper, later, walked, rfl⟩ := visit_next here finished (by omega)
      have longer := outlasted.snoc split here finished (notMem_of_nodup distinct)
      have fresh := longer.fresh nextProper walked
      refine ih nextSplit (resume_of_notMem nextSplit nextProper fresh) walked
        (Nat.le_of_succ_le_succ long) longer ?_ ?_
      · rw [map_append]
        refine distinct.append (nodup_singleton _) ?_
        rw [map_singleton, disjoint_singleton]
        exact fresh
      · intro other member
        rw [tail_append_of_ne_nil (by simp), mem_append] at member
        rcases member with older | last
        · exact proper other older
        · cases mem_singleton.mp last
          exact nextProper

theorem visit_length_iff :
    (∃ fuel listed, visit key null items fuel null = some listed ∧ listed.length = items.length) ↔
      Walkable key null items := by
  constructor
  · rintro ⟨fuel, listed, finished, whole⟩
    have begun : resume key null items null = items := if_pos rfl
    cases list : items with
    | nil =>
      subst list
      cases fuel with
      | zero => cases finished
      | succ fuel =>
        rw [visit, begun] at finished
        cases finished
    | cons item rest =>
      subst list
      refine walkable_of_visit (nil_append _).symm begun finished ?_ ?_ (nodup_singleton _) ?_
      · exact Nat.le_of_eq whole.symm
      · intro old member
        cases member
      · intro other member
        cases member
  · intro walkable
    exact ⟨items.length, items, walkable.visit_all, rfl⟩

end Cosec.Lib.KeyedWalks
