import Mathlib.Algebra.Group.Fin.Basic
import Cosec.Lib.FifoCaches
import Cosec.Net.Frames

/-!
# The neighbour table

`net_neighbor_remember` keeps the last eight new addresses of an interface in
a ring: an address that is found has its hardware address replaced in place,
a new one takes the entry at `neighbors_head`.  What `net_neighbor_lookup_on`
finds is then given by the calls so far, as for any first-in first-out cache.
Slots are counted from where the ring starts.
-/

namespace Cosec.Net.NeighborTables

open Function Lib.FifoCaches List Net.Frames

/-- `net_neighbor_lookup_on`. -/
def netNeighborLookupOn (iface : Iface) (addr : Octets 4) : Octets 6 :=
  match findNeighbor iface addr with
  | some index => (iface.neighbors index).eth
  | none => ethInvalidMac

/-- An address and the hardware address to remember for it. -/
abbrev Call := Octets 4 × Octets 6

/-- The interface after `net_neighbor_remember`. -/
def remember (iface : Iface) (call : Call) : Iface :=
  let effect := netNeighborRemember iface call.1 call.2
  { iface with
    neighbors := effect.neighbors
    neighborsHead := effect.neighborsHead }

/-- The interface after several calls. -/
def rememberAll (iface : Iface) (calls : List Call) : Iface := calls.foldl remember iface

/-- The addresses that `net_neighbor_remember` takes. -/
def Taken (addr : Octets 4) : Prop := addr ≠ (fun _ => 0) ∧ addr ≠ fun _ => 0xff

instance (addr : Octets 4) : Decidable (Taken addr) := inferInstanceAs (Decidable (_ ∧ _))

/-- The calls with such an address, the latest first. -/
def recorded (calls : List Call) : List Call :=
  (calls.filter fun call => decide (Taken call.1)).reverse

/-! ## Searching -/

variable {index : Fin 8}

theorem findNeighbor_ip
    {iface : Iface} {addr : Octets 4} (found : findNeighbor iface addr = some index) :
    (iface.neighbors index).ip = addr :=
  of_decide_eq_true
    (@List.find?_some _ (fun index => decide ((iface.neighbors index).ip = addr)) _ _ found)

section Call

variable {iface : Iface} {call : Call}

theorem remember_ignored (ignored : ¬ Taken call.1) : remember iface call = iface := by
  have unchanged : netNeighborRemember iface call.1 call.2 = dropped iface := by
    unfold netNeighborRemember
    split
    · rfl
    · split
      · rfl
      · exact absurd ⟨‹_›, ‹_›⟩ ignored
  rw [remember, unchanged]
  rfl

end Call

/-! ## The ring -/

/-- The entries, counted from the head that the run started with. -/
def ring (start : Fin 8) (neighbors : Fin 8 → Neighbor) (slot : Fin 8) : Call :=
  ((neighbors (slot + start)).ip, (neighbors (slot + start)).eth)

/-- A zeroed entry. -/
def blank : Call := (fun _ => 0, fun _ => 0)

theorem ring_sub (start : Fin 8) (neighbors : Fin 8 → Neighbor) (index : Fin 8) :
    ring start neighbors (index - start) = ((neighbors index).ip, (neighbors index).eth) := by
  rw [ring, sub_add_cancel]

theorem ring_update
    (start : Fin 8) (neighbors : Fin 8 → Neighbor) (index : Fin 8) (entry : Neighbor) :
    ring start (update neighbors index entry) =
      update (ring start neighbors) (index - start) (entry.ip, entry.eth) := by
  funext slot
  by_cases here : slot = index - start
  · subst here
    rw [ring_sub, update_self, update_self]
  · have elsewhere : slot + start ≠ index := by
      intro same
      exact here (eq_sub_of_add_eq same)
    rw [update_of_ne here, ring, ring, update_of_ne elsewhere]

/-- The table and its head follow a history of calls. -/
structure Follows (start : Fin 8) (history : List Call) (iface : Iface) : Prop where
  entries : Represents (ring start iface.neighbors) blank history
  head : iface.neighborsHead.val = (start.val + (insertions 8 history).length) % 8

variable {start : Fin 8} {history : List Call} {iface : Iface} {addr : Octets 4}

section

variable (follows : Follows start history iface)

include follows

/-- An address that is found is current, and what is found is its latest. -/
theorem Follows.of_found (given : addr ≠ fun _ => 0)
    (found : findNeighbor iface addr = some index) :
    Current 8 history addr ∧ latest addr history = some (iface.neighbors index).eth := by
  have ip := findNeighbor_ip found
  have entry := ring_sub start iface.neighbors index
  have filled : (ring start iface.neighbors (index - start)).1 ≠ blank.1 := by
    rw [entry, ip]
    exact given
  obtain ⟨age, young, inserted, _, value⟩ := follows.entries.slot_current filled
  rw [entry, ip] at inserted value
  exact ⟨current_iff_getElem?.mpr ⟨age, young, inserted⟩, value⟩

theorem Follows.not_current (missing : findNeighbor iface addr = none) :
    ¬ Current 8 history addr := by
  intro current
  obtain ⟨slot, held⟩ := follows.entries.exists_slot current
  have absent := find?_eq_none.mp missing (slot + start) (mem_finRange _)
  exact absent (decide_eq_true held)

theorem Follows.known {call : Call} (taken : Taken call.1)
    (found : findNeighbor iface call.1 = some index) :
    Follows start (call :: history) (remember iface call) := by
  obtain ⟨current, _⟩ := follows.of_found taken.1 found
  have entry : (ring start iface.neighbors (index - start)).1 = call.1 := by
    rw [ring_sub]
    exact findNeighbor_ip found
  have replaced := follows.entries.replace (entry ▸ taken.1) call.2
  simp only [remember, netNeighborRemember, if_neg taken.1,
    if_neg taken.2, found, dropped, findNeighbor_ip found]
  constructor
  · rw [ring_update]
    rwa [entry] at replaced
  · rw [insertions_cons_known current]
    exact follows.head

theorem Follows.new {call : Call} (taken : Taken call.1)
    (missing : findNeighbor iface call.1 = none) :
    Follows start (call :: history) (remember iface call) := by
  have unknown := follows.not_current missing
  have head := follows.head
  have place : (iface.neighborsHead - start).val = (insertions 8 history).length % 8 := by
    omega
  simp only [remember, netNeighborRemember, if_neg taken.1, if_neg taken.2, missing, dropped]
  constructor
  · rw [ring_update]
    exact follows.entries.insert unknown place call.2
  · rw [insertions_cons_new unknown, length_cons]
    change (iface.neighborsHead.val + 1) % 8 = _
    omega

end

theorem follows_rememberAll
    {iface : Iface} (zeroed : ∀ index, iface.neighbors index = ⟨fun _ => 0, fun _ => 0⟩)
    (calls : List Call) :
    Follows iface.neighborsHead (recorded calls) (rememberAll iface calls) := by
  induction calls using List.reverseRecOn with
  | nil =>
    constructor
    · have empty : ring iface.neighborsHead iface.neighbors = fun _ => blank := by
        funext slot
        rw [ring, zeroed, blank]
      change Represents (ring _ iface.neighbors) blank []
      rw [empty]
      refine ⟨?_, fun _ _ => rfl⟩
      intro age key slot _ found
      cases found
    · exact (Nat.mod_eq_of_lt iface.neighborsHead.isLt).symm
  | append_singleton earlier call ih =>
    rw [rememberAll, foldl_append]
    by_cases taken : Taken call.1
    · rw [show recorded (earlier ++ [call]) = call :: recorded earlier by simp [recorded, taken]]
      cases found : findNeighbor (rememberAll iface earlier) call.1 with
      | some index => exact ih.known taken found
      | none => exact ih.new taken found
    · rw [show recorded (earlier ++ [call]) = recorded earlier by simp [recorded, taken]]
      change Follows _ _ (remember (rememberAll iface earlier) call)
      rw [remember_ignored taken]
      exact ih

/--
The neighbour table is a first-in first-out cache.  After any calls on a
zeroed table no address but 0.0.0.0 is in it twice, the head has moved by one
for each insertion, and an address is found exactly when it is among the last
eight insertions, with the hardware address last remembered for it.
-/
theorem neighbors_fifo
    (iface : Iface) (zeroed : ∀ index, iface.neighbors index = ⟨fun _ => 0, fun _ => 0⟩)
    (calls : List Call) :
    (∀ first second : Fin 8,
      ((rememberAll iface calls).neighbors first).ip =
          ((rememberAll iface calls).neighbors second).ip →
        ((rememberAll iface calls).neighbors first).ip ≠ (fun _ => 0) → first = second) ∧
      (rememberAll iface calls).neighborsHead.val =
        (iface.neighborsHead.val + (insertions 8 (recorded calls)).length) % 8 ∧
      ∀ addr : Octets 4, Taken addr →
        (Current 8 (recorded calls) addr →
          latest addr (recorded calls) =
            some (netNeighborLookupOn (rememberAll iface calls) addr)) ∧
        (¬ Current 8 (recorded calls) addr →
          netNeighborLookupOn (rememberAll iface calls) addr = ethInvalidMac) := by
  have follows := follows_rememberAll zeroed calls
  refine ⟨?_, follows.head, ?_⟩
  · intro first second same filled
    have equal :=
      @Represents.distinct _ _ _ _ _ _ _ follows.entries
        (first - iface.neighborsHead) (second - iface.neighborsHead)
        (by rw [ring_sub, ring_sub]; exact same) (by rw [ring_sub]; exact filled)
    exact sub_left_injective equal
  · intro addr taken
    unfold netNeighborLookupOn
    cases found : findNeighbor (rememberAll iface calls) addr with
    | some index =>
      obtain ⟨current, value⟩ := follows.of_found taken.1 found
      exact ⟨fun _ => value, fun stale => absurd current stale⟩
    | none =>
      have stale := follows.not_current found
      exact ⟨fun current => absurd current stale, fun _ => rfl⟩

/-- An interface with a zeroed table whose head is somewhere in the ring. -/
def zeroedIface : Iface where
  ipAddr := fun _ => 0
  mac := fun _ => 0
  neighbors := fun _ => ⟨fun _ => 0, fun _ => 0⟩
  neighborsHead := Fin.last 7
  frame := none

/-- An address for each number, and nine calls that each bring a new one. -/
def nineCalls : List Call := (List.range 9).map fun index =>
    (fun _ => UInt8.ofNat (index + 1), fun _ => UInt8.ofNat index)

/-- The ninth address takes the place of the first. -/
theorem neighbors_fifo_nine :
    netNeighborLookupOn (rememberAll zeroedIface nineCalls) (fun _ => 1) = ethInvalidMac ∧
      some (netNeighborLookupOn (rememberAll zeroedIface nineCalls) (fun _ => 2)) =
        some (fun _ => 1) := by
  have fifo := (neighbors_fifo zeroedIface (fun _ => rfl) nineCalls).2.2
  exact ⟨(fifo (fun _ => 1) (by decide)).2 (by decide),
    ((fifo (fun _ => 2) (by decide)).1 (by decide)).symm.trans (by decide)⟩

end Cosec.Net.NeighborTables
