import Mathlib.Data.List.Nodup
import Mathlib.Logic.Function.Basic

/-!
# First-in first-out caches

A cache remembers a value for each of the last keys that were new to it.  A
key is new when it is not among the last `capacity` new keys, so the history
of the calls, latest first, says what the cache should hold: `insertions` are
the new keys and `latest` is the value a key was last remembered with.

The implementation is a ring of slots.  A new key goes to the slot of the
number of insertions so far, modulo the capacity; a key that is found in a
slot has its value replaced there.
-/

namespace Cosec.Lib.FifoCaches

open Function List

universe u v

variable {Key : Type u} {Value : Type v} [DecidableEq Key]

/-! ## Histories -/

/-- The keys that were new when they were remembered, the latest first. -/
def insertions (capacity : Nat) : List (Key × Value) → List Key
  | [] => []
  | call :: earlier =>
    if call.1 ∈ (insertions capacity earlier).take capacity then
      insertions capacity earlier
    else
      call.1 :: insertions capacity earlier

/-- The value that a key was last remembered with. -/
def latest (key : Key) (history : List (Key × Value)) : Option Value :=
  (history.find? fun call => decide (call.1 = key)).map Prod.snd

variable {capacity : Nat} {history : List (Key × Value)} {key : Key} {value : Value}

/-- The keys that the cache should hold. -/
def Current (capacity : Nat) (history : List (Key × Value)) (key : Key) : Prop :=
  key ∈ (insertions capacity history).take capacity

instance : Decidable (Current capacity history key) := inferInstanceAs (Decidable (_ ∈ _))

theorem insertions_cons_known (known : Current capacity history key) :
    insertions capacity ((key, value) :: history) = insertions capacity history :=
  if_pos known

theorem insertions_cons_new (unknown : ¬ Current capacity history key) :
    insertions capacity ((key, value) :: history) = key :: insertions capacity history :=
  if_neg unknown

@[simp]
theorem latest_cons_self : latest key ((key, value) :: history) = some value := by simp [latest]

theorem latest_cons_of_ne {other : Key} (different : key ≠ other) :
    latest other ((key, value) :: history) = latest other history := by
  simp [latest, different]

/-- No key is held twice. -/
theorem nodup_current (capacity : Nat) (history : List (Key × Value)) :
    ((insertions capacity history).take capacity).Nodup := by
  induction history with
  | nil => simp [insertions]
  | cons call earlier ih =>
    obtain ⟨key, value⟩ := call
    by_cases known : Current capacity earlier key
    · rwa [insertions_cons_known known]
    · rw [insertions_cons_new known]
      cases capacity with
      | zero => simp
      | succ capacity =>
        have sublist :
            ((insertions (capacity + 1) earlier).take capacity).Sublist
              ((insertions (capacity + 1) earlier).take (capacity + 1)) :=
          take_sublist_take_left (Nat.le_succ capacity)
        rw [take_succ_cons, nodup_cons]
        exact ⟨fun member => known (sublist.subset member), ih.sublist sublist⟩

theorem current_iff_getElem? :
    Current capacity history key ↔
      ∃ age < capacity, (insertions capacity history)[age]? = some key := by
  unfold Current
  rw [mem_iff_getElem?]
  constructor
  · rintro ⟨age, found⟩
    rw [getElem?_take] at found
    split at found
    · exact ⟨age, ‹_›, found⟩
    · cases found
  · rintro ⟨age, young, found⟩
    exact ⟨age, by rw [getElem?_take, if_pos young, found]⟩

/-! ## Rings of slots -/

/-- The slot of the insertion that has a given age. -/
def slotOf (capacity count age : Nat) : Nat := (count - 1 - age) % capacity

/--
Each of the last insertions is in its slot, with its latest value, and the
slots that were never written are blank.
-/
structure Represents
    (slots : Fin capacity → Key × Value) (blank : Key × Value)
    (history : List (Key × Value)) : Prop where
  held :
    ∀ (age : Nat) (key : Key) (slot : Fin capacity), age < capacity →
      (insertions capacity history)[age]? = some key →
      slot.val = slotOf capacity (insertions capacity history).length age →
        (slots slot).1 = key ∧ latest key history = some (slots slot).2
  unused :
    ∀ slot : Fin capacity, (insertions capacity history).length ≤ slot.val → slots slot = blank

variable {slots : Fin capacity → Key × Value} {blank : Key × Value}

/-- A slot that was written holds the insertion of some age. -/
theorem exists_age (slot : Fin capacity) {count : Nat} (written : slot.val < count) :
    ∃ age < capacity, age < count ∧ slot.val = slotOf capacity count age := by
  have bound := slot.isLt
  have small : (count - 1 - slot.val) % capacity < capacity := Nat.mod_lt _ (by omega)
  have below : (count - 1 - slot.val) % capacity ≤ count - 1 - slot.val := Nat.mod_le _ _
  refine ⟨(count - 1 - slot.val) % capacity, small, by omega, ?_⟩
  have parts := Nat.div_add_mod (count - 1 - slot.val) capacity
  have rest :
      count - 1 - (count - 1 - slot.val) % capacity =
        slot.val + capacity * ((count - 1 - slot.val) / capacity) := by
    omega
  rw [slotOf, rest, Nat.add_mul_mod_self_left, Nat.mod_eq_of_lt bound]

/-- Insertions of different ages are in different slots. -/
theorem slotOf_inj
    {count first second : Nat} (firstYoung : first < capacity) (secondYoung : second < capacity)
    (firstPast : first < count) (secondPast : second < count)
    (same : slotOf capacity count first = slotOf capacity count second) : first = second := by
  have toEqual (low high : Nat) (ordered : low ≤ high) (near : high < low + capacity)
      (equal : low % capacity = high % capacity) : low = high := by
    have distance : (high - low) % capacity = 0 := by
      apply Nat.sub_mod_eq_zero_of_mod_eq
      exact equal.symm
    rw [Nat.mod_eq_of_lt (by omega)] at distance
    omega
  rcases Nat.le_total first second with ordered | ordered
  · have equal := toEqual (count - 1 - second) (count - 1 - first) (by omega) (by omega) same.symm
    omega
  · have equal := toEqual (count - 1 - first) (count - 1 - second) (by omega) (by omega) same
    omega

variable (represents : Represents slots blank history)

include represents

theorem Represents.slot_current {slot : Fin capacity} (filled : (slots slot).1 ≠ blank.1) :
    ∃ age < capacity,
      (insertions capacity history)[age]? = some (slots slot).1 ∧
        slot.val = slotOf capacity (insertions capacity history).length age ∧
        latest (slots slot).1 history = some (slots slot).2 := by
  have written : slot.val < (insertions capacity history).length := by
    by_contra unwritten
    apply filled
    rw [represents.unused slot (Nat.not_lt.mp unwritten)]
  obtain ⟨age, young, past, place⟩ := exists_age slot written
  have found := getElem?_eq_getElem past
  obtain ⟨keyEq, value⟩ := represents.held age _ slot young found place
  rw [← keyEq] at found value
  exact ⟨age, young, found, place, value⟩

theorem Represents.distinct {first second : Fin capacity}
    (same : (slots first).1 = (slots second).1) (filled : (slots first).1 ≠ blank.1) :
    first = second := by
  obtain ⟨firstAge, firstYoung, firstFound, firstPlace, _⟩ := represents.slot_current filled
  obtain ⟨secondAge, secondYoung, secondFound, secondPlace, _⟩ :=
    represents.slot_current (same ▸ filled)
  rw [← same] at secondFound
  have bound := (List.getElem?_eq_some_iff.mp firstFound).1
  have sameAge : firstAge = secondAge := by
    apply (getElem?_inj (by rw [length_take]; omega) (nodup_current capacity history)).mp
    rw [getElem?_take, getElem?_take, if_pos firstYoung, if_pos secondYoung, firstFound,
      secondFound]
  apply Fin.ext
  rw [firstPlace, secondPlace, sameAge]

theorem Represents.exists_slot (current : Current capacity history key) :
    ∃ slot, (slots slot).1 = key := by
  obtain ⟨age, young, found⟩ := current_iff_getElem?.mp current
  have place : slotOf capacity (insertions capacity history).length age < capacity :=
    Nat.mod_lt _ (by omega)
  exact ⟨⟨_, place⟩, (represents.held age key ⟨_, place⟩ young found rfl).1⟩

theorem Represents.replace {slot : Fin capacity} (filled : (slots slot).1 ≠ blank.1) (value : Value)
    : Represents (update slots slot ((slots slot).1, value)) blank
      (((slots slot).1, value) :: history) := by
  obtain ⟨age, young, found, place, _⟩ := represents.slot_current filled
  have known := current_iff_getElem?.mpr ⟨age, young, found⟩
  have sameInsertions := @insertions_cons_known _ _ _ _ _ _ value known
  constructor
  · intro other key otherSlot otherYoung otherFound otherPlace
    rw [sameInsertions] at otherFound otherPlace
    by_cases here : otherSlot = slot
    · subst here
      have keyEq := (represents.held other key otherSlot otherYoung otherFound otherPlace).1
      rw [update_self, keyEq]
      exact ⟨rfl, latest_cons_self⟩
    · obtain ⟨keyEq, valueEq⟩ :=
        represents.held other key otherSlot otherYoung otherFound otherPlace
      rw [update_of_ne here]
      refine ⟨keyEq, ?_⟩
      rw [latest_cons_of_ne, valueEq]
      intro same
      apply here
      exact (represents.distinct (same.trans keyEq.symm) filled).symm
  · intro other unwritten
    rw [sameInsertions] at unwritten
    have different : other ≠ slot := by
      rintro rfl
      exact filled (congrArg Prod.fst (represents.unused other unwritten))
    rw [update_of_ne different]
    exact represents.unused other unwritten

theorem Represents.insert (unknown : ¬ Current capacity history key) {slot : Fin capacity}
    (head : slot.val = (insertions capacity history).length % capacity) (value : Value) :
    Represents (update slots slot (key, value)) blank ((key, value) :: history) := by
  have newInsertions := @insertions_cons_new _ _ _ _ _ _ value unknown
  have headPlace : slot.val = slotOf capacity ((insertions capacity history).length + 1) 0 := head
  constructor
  · intro age other otherSlot young found place
    rw [newInsertions] at found place
    cases age with
    | zero =>
      rw [getElem?_cons_zero, Option.some.injEq] at found
      subst found
      have here : otherSlot = slot := Fin.ext (place.trans headPlace.symm)
      rw [here, update_self]
      exact ⟨rfl, latest_cons_self⟩
    | succ age =>
      rw [length_cons] at place
      have past := (List.getElem?_eq_some_iff.mp found).1
      have elsewhere : otherSlot ≠ slot := by
        rintro rfl
        have sameAge :=
          slotOf_inj young (by omega) (by omega) (by omega) (place.symm.trans headPlace)
        omega
      have earlier : otherSlot.val = slotOf capacity (insertions capacity history).length age := by
        rw [place, slotOf, slotOf]
        congr 1
        omega
      obtain ⟨keyEq, valueEq⟩ := represents.held age other otherSlot (by omega) found earlier
      rw [update_of_ne elsewhere]
      refine ⟨keyEq, ?_⟩
      rw [latest_cons_of_ne, valueEq]
      rintro rfl
      exact unknown (current_iff_getElem?.mpr ⟨age, by omega, found⟩)
  · intro other unwritten
    rw [newInsertions, length_cons] at unwritten
    have different : other ≠ slot := by
      rintro rfl
      rw [Nat.mod_eq_of_lt (by omega)] at head
      omega
    rw [update_of_ne different]
    exact represents.unused other (by omega)

end Cosec.Lib.FifoCaches
