import Mathlib.Order.Basic
import Cosec.Lib.ObjectStore

/-!
# Reference counts

Holders refer to targets by number, and every target keeps a counter.  A
scheme says how many references a holder has to a number and which counter a
target keeps; `Counted` says that references lead to targets that were never
freed, and relates their number to the counter.

The rules hold for every relation that follows the two numbers up and down
together, in particular for equality and for `≤`, where counters may be too
high and a target is freed late or never.
-/

namespace Cosec.Lib.RefCounts

open Lib.ObjectStore

universe u v

/-- The references of a holder to a number, and the counter of a target. -/
structure Scheme (Holder : Type u) (Target : Type v) where
  refs : Holder → Nat → Nat
  counter : Target → Nat

variable {Holder : Type u} {Target : Type v}

/-- The references to a number from the holders that were never freed. -/
def Scheme.references (scheme : Scheme Holder Target) (holders : Store Holder) (id : Nat) : Nat :=
  holders.total fun holder => scheme.refs holder id

/-- A relation that follows references and counter up and down together. -/
structure Tracks (related : Nat → Nat → Prop) : Prop where
  zero : related 0 0
  raise : ∀ references counter, related references counter → related (references + 1) (counter + 1)
  lower : ∀ references counter, related (references + 1) (counter + 1) → related references counter
  positive : ∀ references counter, related (references + 1) counter → 0 < counter

theorem tracks_eq : Tracks (· = ·) where
  zero := rfl
  raise := fun _ _ equal => congrArg (· + 1) equal
  lower := fun _ _ equal => Nat.succ.inj equal
  positive := by
    rintro references counter rfl
    exact Nat.succ_pos references

theorem tracks_le : Tracks (· ≤ ·) where
  zero := le_refl 0
  raise := fun _ _ below => Nat.succ_le_succ below
  lower := fun _ _ below => Nat.le_of_succ_le_succ below
  positive := fun _ _ below => lt_of_lt_of_le (Nat.succ_pos _) below

/-- References lead to live targets, whose counters are related to them. -/
structure Counted
    (scheme : Scheme Holder Target) (related : Nat → Nat → Prop)
    (holders : Store Holder) (targets : Store Target) : Prop where
  sound :
    ∀ holder content, holders.Live holder → holders.read holder = some content →
      ∀ id, 0 < scheme.refs content id → targets.Live id
  balance :
    ∀ id target, targets.Live id → targets.read id = some target →
      related (scheme.references holders id) (scheme.counter target)

variable {scheme : Scheme Holder Target} {related : Nat → Nat → Prop} {holders : Store Holder}
  {targets : Store Target}

namespace Counted

/-! ## References and counters -/

variable (counted : Counted scheme related holders targets)

include counted

theorem references_eq_zero {id : Nat} (dead : ¬ targets.Live id) :
    scheme.references holders id = 0 := by
  apply Store.total_eq_zero
  intro holder content live reading
  by_contra nonzero
  exact dead (counted.sound holder content live reading id (Nat.pos_of_ne_zero nonzero))

variable {content : Holder} {holder id : Nat} {target : Target}

/-- A target that something refers to counts at least one reference. -/
theorem counter_pos (tracks : Tracks related) (live : holders.Live holder)
    (reading : holders.read holder = some content) (referred : 0 < scheme.refs content id)
    (targetReading : targets.read id = some target) : 0 < scheme.counter target := by
  have atLeast : scheme.refs content id ≤ scheme.references holders id :=
    Store.le_total (fun holder => scheme.refs holder id) live reading
  obtain ⟨fewer, more⟩ :=
    Nat.exists_eq_succ_of_ne_zero (ne_of_gt (lt_of_lt_of_le referred atLeast))
  have targetLive := counted.sound holder content live reading id referred
  have balance := counted.balance id target targetLive targetReading
  rw [more] at balance
  exact tracks.positive fewer _ balance

theorem addTarget (tracks : Tracks related) (unreferred : scheme.counter target = 0) :
    Counted scheme related holders (targets.add target) where
  sound := by
    intro holder content live reading id referred
    exact Store.live_add_iff.mpr (Or.inl (counted.sound holder content live reading id referred))
  balance := by
    intro id other live reading
    rw [Store.read_add] at reading
    split at reading
    · rename_i isNew
      cases reading
      have dead : ¬ targets.Live id := by
        rintro ⟨present, _⟩
        omega
      rw [counted.references_eq_zero dead, unreferred]
      exact tracks.zero
    · rename_i isOld
      rcases Store.live_add_iff.mp live with older | isNew
      · exact counted.balance id other older reading
      · exact absurd isNew isOld

theorem addHolder (empty : ∀ id, scheme.refs content id = 0) :
    Counted scheme related (holders.add content) targets where
  sound := by
    intro holder other live reading id referred
    rw [Store.read_add] at reading
    split at reading
    · cases reading
      rw [empty] at referred
      cases referred
    · rename_i isOld
      rcases Store.live_add_iff.mp live with older | isNew
      · exact counted.sound holder other older reading id referred
      · exact absurd isNew isOld
  balance := by
    intro id target live reading
    have balance := counted.balance id target live reading
    unfold Scheme.references at balance ⊢
    rw [Store.total_add, empty]
    exact balance

variable {edit : Target → Target}

theorem editTarget
    (kept :
      ∀ references target, related references (scheme.counter target) →
        related references (scheme.counter (edit target))) :
    Counted scheme related holders (targets.change id edit) where
  sound := by
    intro holder content live reading other referred
    exact Store.live_change_iff.mpr (counted.sound holder content live reading other referred)
  balance := by
    intro other target live reading
    rw [Store.live_change_iff] at live
    rw [Store.read_change] at reading
    split at reading
    · obtain ⟨before, beforeReading, rfl⟩ := Option.map_eq_some_iff.mp reading
      exact kept _ before (counted.balance other before live beforeReading)
    · exact counted.balance other target live reading

theorem freeTarget (tracks : Tracks related) (reading : targets.read id = some target)
    (unreferred : scheme.counter target = 0) :
    Counted scheme related holders (targets.free id) where
  sound := by
    intro holder content live contentReading other referred
    refine Store.live_free_iff.mpr
      ⟨counted.sound holder content live contentReading other referred, ?_⟩
    rintro rfl
    have positive := counted.counter_pos tracks live contentReading referred reading
    omega
  balance := by
    intro other content live contentReading
    rw [Store.read_free] at contentReading
    exact counted.balance other content (Store.live_free_iff.mp live).1 contentReading

/-- A holder without references may be freed. -/
theorem freeHolder (live : holders.Live holder) (reading : holders.read holder = some content)
    (empty : ∀ id, scheme.refs content id = 0) :
    Counted scheme related (holders.free holder) targets where
  sound := by
    intro other found otherLive otherReading id referred
    rw [Store.read_free] at otherReading
    exact counted.sound other found (Store.live_free_iff.mp otherLive).1 otherReading id referred
  balance := by
    intro id target targetLive targetReading
    have balance := counted.balance id target targetLive targetReading
    have removed := Store.total_free (fun holder => scheme.refs holder id) live reading
    rw [empty, add_zero] at removed
    unfold Scheme.references at balance ⊢
    rw [removed]
    exact balance

theorem editBoth {changed : Holder} (live : holders.Live holder)
    (reading : holders.read holder = some content)
    (leads : ∀ number, 0 < scheme.refs changed number → targets.Live number)
    (follows :
      ∀ number others target,
        related (others + scheme.refs content number) (scheme.counter target) →
          related (others + scheme.refs changed number)
            (scheme.counter (if number = id then edit target else target))) :
    Counted scheme related (holders.change holder fun _ => changed) (targets.change id edit) where
  sound := by
    intro other found otherLive otherReading number referred
    rw [Store.live_change_iff] at otherLive ⊢
    rw [Store.read_change] at otherReading
    split at otherReading
    · obtain ⟨_, _, rfl⟩ := Option.map_eq_some_iff.mp otherReading
      exact leads number referred
    · exact counted.sound other found otherLive otherReading number referred
  balance := by
    intro number target numberLive numberReading
    rw [Store.live_change_iff] at numberLive
    have moved :=
      Store.total_change (fun holder => scheme.refs holder number) (fun _ => changed) live reading
    obtain ⟨others, before⟩ : ∃ others, scheme.references holders number = _ :=
      Nat.exists_eq_add_of_le' (Store.le_total (fun holder => scheme.refs holder number) live reading)
    have after : scheme.references (holders.change holder fun _ => changed) number =
        others + scheme.refs changed number := by
      unfold Scheme.references at before ⊢
      omega
    have balance := counted.balance number
    rw [before] at balance
    rw [after]
    rw [Store.read_change] at numberReading
    split at numberReading
    · rename_i same
      obtain ⟨old, oldReading, rfl⟩ := Option.map_eq_some_iff.mp numberReading
      have moved := follows number others old (balance old numberLive oldReading)
      rwa [if_pos same] at moved
    · rename_i different
      have moved := follows number others target (balance target numberLive numberReading)
      rwa [if_neg different] at moved

section

variable (tracks : Tracks related) (live : holders.Live holder)
  (reading : holders.read holder = some content)

include tracks live reading

theorem link {grown : Holder} (targetLive : targets.Live id)
    (more :
      ∀ other, scheme.refs grown other = scheme.refs content other + if other = id then 1 else 0)
    (counts : ∀ target, scheme.counter (edit target) = scheme.counter target + 1) :
    Counted scheme related (holders.change holder fun _ => grown) (targets.change id edit) := by
  apply counted.editBoth live reading
  · intro number referred
    by_cases same : number = id
    · rw [same]
      exact targetLive
    · rw [more, if_neg same, add_zero] at referred
      exact counted.sound holder content live reading number referred
  · intro number others target balance
    rw [more]
    split
    · rw [counts]
      exact tracks.raise _ _ balance
    · exact balance

/-- One reference less, and one less on the counter. -/
theorem unlink {shrunk : Holder}
    (fewer :
      ∀ other, scheme.refs content other = scheme.refs shrunk other + if other = id then 1 else 0)
    (counts :
      ∀ target, 0 < scheme.counter target →
        scheme.counter target = scheme.counter (edit target) + 1) :
    Counted scheme related (holders.change holder fun _ => shrunk) (targets.change id edit) := by
  apply counted.editBoth live reading
  · intro number referred
    refine counted.sound holder content live reading number ?_
    rw [fewer]
    omega
  · intro number others target balance
    rw [fewer] at balance
    split at balance
    · rename_i same
      rw [counts target (tracks.positive _ _ balance)] at balance
      rw [if_pos same]
      exact tracks.lower _ _ balance
    · rename_i different
      rw [if_neg different]
      exact balance

end

end Counted

end Cosec.Lib.RefCounts
