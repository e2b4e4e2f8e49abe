import Cosec.Lib.RingCounters

/-!
# Virtio queues

A `struct virtioq` is shared with a device.  The driver puts descriptors into
the available ring, the device takes them from there in order, holds them,
and publishes them in the used ring in any order; the driver polls the used
ring.  All four counters run freely through 16 bits.

The descriptors in the care of the device are in one of three places.  This
module says what each step of either side does to them.
-/

namespace Cosec.Dev.VirtioQueues

open Lib.RingCounters List

/-! ## The queue of the driver -/

/--
A `struct virtioq` and the tables it points to.  The device reports sizes
that are powers of two, `order` being the exponent.
-/
structure Virtioq where
  order : Fin 16
  lastUsed : BitVec 16
  addr : Nat → BitVec 32
  availIdx : BitVec 16
  availRing : Nat → Nat
  usedIdx : BitVec 16
  usedRing : Nat → Nat

def Virtioq.size (queue : Virtioq) : Nat := 2 ^ queue.order.val

theorem Virtioq.size_dvd (queue : Virtioq) : queue.size ∣ 2 ^ 16 :=
  Nat.pow_dvd_pow 2 queue.order.isLt.le

theorem Virtioq.size_lt (queue : Virtioq) : queue.size < 2 ^ 16 :=
  Nat.pow_lt_pow_right Nat.one_lt_two queue.order.isLt

theorem Virtioq.size_pos (queue : Virtioq) : 0 < queue.size := Nat.two_pow_pos _

/-- The size of `struct virtio_net_hdr`, which precedes every frame. -/
def NET_HDR_SIZE : Nat := 10

/-- `virtio_vring_alloc`: the pages of the rings are cleared. -/
def virtioVringAlloc (order : Fin 16) : Virtioq where
  order := order
  lastUsed := 0
  addr := fun _ => 0
  availIdx := 0
  availRing := fun _ => 0
  usedIdx := 0
  usedRing := fun _ => 0

/-- What `virtioq_enqueue` does once it has read `avail->idx`. -/
def virtioqStore (queue : Virtioq) (idx : BitVec 16) (desc : Nat) : Virtioq :=
  { queue with
    availRing := Function.update queue.availRing (slot queue.size idx) desc
    availIdx := queue.availIdx + 1#16 }

def virtioqEnqueue (queue : Virtioq) (desc : Nat) : Virtioq :=
  virtioqStore queue queue.availIdx desc

/-- The entry of the used ring that a poll looks at. -/
def Virtioq.usedEntry (queue : Virtioq) : Nat := queue.usedRing (slot queue.size queue.lastUsed)

def Virtioq.advanceUsed (queue : Virtioq) : Virtioq :=
  { queue with lastUsed := queue.lastUsed + 1#16 }

/-- The used descriptors that are not polled. -/
def Virtioq.unpolled (queue : Virtioq) : List Nat :=
  entries queue.usedRing queue.size queue.lastUsed queue.usedIdx

theorem Virtioq.unpolled_cons {queue : Virtioq} (pending : queue.lastUsed ≠ queue.usedIdx) :
    queue.unpolled = queue.usedEntry :: queue.advanceUsed.unpolled :=
  entries_consume queue.size_dvd pending

/--
A queue together with what the device keeps for it: its own counter into the
available ring, and the descriptors it has taken and not published.
-/
structure Vring where
  queue : Virtioq
  taken : BitVec 16
  held : List Nat

inductive DeviceStep where
  | take
  | publish (desc : Nat)
deriving DecidableEq

/-- The steps that the device may take. -/
def Vring.Ready (ring : Vring) : DeviceStep → Prop
  | .take => ring.taken ≠ ring.queue.availIdx
  | .publish desc => desc ∈ ring.held

instance (ring : Vring) : (step : DeviceStep) → Decidable (ring.Ready step)
  | .take => inferInstanceAs (Decidable (ring.taken ≠ ring.queue.availIdx))
  | .publish desc => inferInstanceAs (Decidable (desc ∈ ring.held))

def Vring.device (ring : Vring) : DeviceStep → Vring
  | .take =>
    { ring with
      taken := ring.taken + 1#16
      held := ring.queue.availRing (slot ring.queue.size ring.taken) :: ring.held }
  | .publish desc =>
    { ring with
      held := ring.held.erase desc
      queue :=
        { ring.queue with
          usedRing :=
            Function.update ring.queue.usedRing (slot ring.queue.size ring.queue.usedIdx) desc
          usedIdx := ring.queue.usedIdx + 1#16 } }

/-! ## Where the descriptors are -/

def Vring.available (ring : Vring) : List Nat :=
  entries ring.queue.availRing ring.queue.size ring.taken ring.queue.availIdx

/-- The descriptors in the care of the device. -/
def Vring.entrusted (ring : Vring) : List Nat :=
  ring.available ++ (ring.held ++ ring.queue.unpolled)

variable {ring : Vring}

theorem perm_erase_append_cons
    {Value : Type} [DecidableEq Value] {value : Value} {before : List Value}
    (member : value ∈ before) (behind : List Value) :
    (before.erase value ++ value :: behind).Perm (before ++ behind) :=
  calc
    List.Perm _ (value :: before.erase value ++ behind) := perm_middle
    List.Perm _ (before ++ behind) := (perm_cons_erase member).symm.append_right behind

theorem Vring.unpolled_publish
    {desc : Nat} (holds : desc ∈ ring.held) (bounded : ring.entrusted.length ≤ ring.queue.size) :
    (ring.device (.publish desc)).queue.unpolled = ring.queue.unpolled ++ [desc] := by
  have room : ring.queue.unpolled.length < ring.queue.size := by
    have positive := length_pos_of_mem holds
    rw [Vring.entrusted, length_append, length_append] at bounded
    omega
  exact entries_produce ring.queue.size_dvd ring.queue.size_lt room

section

variable {step : DeviceStep} (ready : ring.Ready step)
  (bounded : ring.entrusted.length ≤ ring.queue.size)

include ready bounded

/-- The device moves descriptors from place to place. -/
theorem Vring.entrusted_device : (ring.device step).entrusted.Perm ring.entrusted := by
  cases step with
  | take =>
    have consumed :
        ring.available =
          ring.queue.availRing (slot ring.queue.size ring.taken) :: (ring.device .take).available :=
      entries_consume ring.queue.size_dvd ready
    rw [Vring.entrusted, Vring.entrusted, consumed]
    exact perm_middle
  | publish desc =>
    rw [Vring.entrusted, Vring.unpolled_publish ready bounded]
    apply List.Perm.append_left
    calc
      List.Perm _ (ring.held.erase desc ++ desc :: ring.queue.unpolled) :=
        (perm_append_singleton ..).append_left _
      List.Perm _ (ring.held ++ ring.queue.unpolled) := perm_erase_append_cons ready _

theorem Vring.unpolled_device_length :
    ring.queue.unpolled.length ≤ (ring.device step).queue.unpolled.length := by
  cases step with
  | take => exact le_rfl
  | publish desc =>
    rw [Vring.unpolled_publish ready bounded, length_append]
    exact Nat.le_add_right ..

end

theorem Vring.available_enqueue (desc : Nat) (bounded : ring.entrusted.length < ring.queue.size) :
    Vring.available { ring with queue := virtioqEnqueue ring.queue desc } =
      ring.available ++ [desc] := by
  have room : ring.available.length < ring.queue.size := by
    rw [Vring.entrusted, length_append] at bounded
    omega
  exact entries_produce ring.queue.size_dvd ring.queue.size_lt room

/-- A descriptor that is enqueued comes into the care of the device. -/
theorem Vring.entrusted_enqueue (desc : Nat) (bounded : ring.entrusted.length < ring.queue.size) :
    (Vring.entrusted { ring with queue := virtioqEnqueue ring.queue desc }).Perm
      (desc :: ring.entrusted) := by
  rw [Vring.entrusted, Vring.available_enqueue desc bounded, append_assoc]
  exact perm_middle

/-- A descriptor that is polled leaves the care of the device. -/
theorem Vring.entrusted_advanceUsed (pending : ring.queue.lastUsed ≠ ring.queue.usedIdx) :
    ring.entrusted.Perm
      (ring.queue.usedEntry :: Vring.entrusted { ring with queue := ring.queue.advanceUsed }) := by
  rw [Vring.entrusted, Virtioq.unpolled_cons pending, Vring.entrusted,
    ← append_assoc, ← append_assoc]
  exact perm_middle

end Cosec.Dev.VirtioQueues
