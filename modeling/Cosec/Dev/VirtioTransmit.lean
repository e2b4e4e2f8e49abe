import Mathlib.Data.List.Nodup
import Cosec.Lib.Transition
import Cosec.Dev.VirtioQueues
import Cosec.Libc.ErrorNumbers

/-!
# The transmit queue of the virtio network driver

`net_virtio_tx_enqueue` puts a frame into the first descriptor whose address
is zero.  When the device has used the descriptor, `net_virtio_poll` frees
the frame's page and clears the address.  Threads send frames, and so do
polls, which run from interrupts and answer what they receive.

The frames in flight have descriptors of their own as long as no poll runs
between a thread's search for a descriptor and the use of what it found.
-/

namespace Cosec.Dev.VirtioTransmit

open Dev.VirtioQueues Function Lib.RingCounters Lib.Transition Libc.ErrorNumbers List

/-! ## Sending and reclaiming -/

/-- `net_virtio_frame_alloc`, for the page that `pmem_alloc` returned. -/
def netVirtioFrameAlloc (page : BitVec 32) : BitVec 32 := page + BitVec.ofNat 32 NET_HDR_SIZE

/-- The header before a frame. -/
def vhdr (buf : BitVec 32) : BitVec 32 := buf - BitVec.ofNat 32 NET_HDR_SIZE

/-- The search of `net_virtio_tx_enqueue` for a free descriptor. -/
def freeDesc (addr : Nat → BitVec 32) : (rest offset : Nat) → Option Nat
  | 0, _ => none
  | rest + 1, offset =>
    if addr offset ≠ 0 then
      freeDesc addr rest (offset + 1)
    else
      some offset

/-- What `net_virtio_tx_enqueue` does with the descriptor it has found. -/
def useDesc (queue : Virtioq) (desc : Nat) (buf : BitVec 32) : Virtioq :=
  virtioqEnqueue { queue with addr := update queue.addr desc (vhdr buf) } desc

def netVirtioTxEnqueue (queue : Virtioq) (buf : BitVec 32) : Virtioq × Option Errno :=
  match freeDesc queue.addr queue.size 0 with
  | none => (queue, some .enomem)
  | some desc => (useDesc queue desc buf, none)

/--
The transmit loop of `net_virtio_poll`, with the addresses that it passes to
`net_virtio_frame_free`.
-/
def pollTxq (idxUsed : BitVec 16) : (fuel : Nat) → Virtioq → Option (Virtioq × List (BitVec 32))
  | 0, _ => none
  | fuel + 1, queue =>
    if queue.lastUsed ≠ idxUsed then
      let desc := queue.usedEntry
      let cleared := { queue with addr := update queue.addr desc 0 }
      (pollTxq idxUsed fuel cleared.advanceUsed).map fun (polled, freed) =>
        (polled, queue.addr desc :: freed)
    else
      some (queue, [])

/-- `net_virtio_poll` on the transmit queue, which takes the used entries. -/
def netVirtioPoll (queue : Virtioq) : Option (Virtioq × List (BitVec 32)) :=
  pollTxq queue.usedIdx (2 ^ 16) queue

/-! ## Runs -/

/-- Whether the thread has found a descriptor that it is about to use. -/
inductive Thread where
  | idle
  | sending (page : BitVec 32) (desc : Nat)
deriving DecidableEq

/--
The transmit queue and the thread, with the pages of the frames that were
enqueued and of those that were freed.
-/
structure Transmitter where
  ring : Vring
  sent : List (BitVec 32)
  freed : List (BitVec 32)
  thread : Thread

/-- The descriptors in use. -/
def occupied (queue : Virtioq) : List Nat :=
  (List.range queue.size).filter fun desc => queue.addr desc ≠ 0

/-- The pages of the frames in descriptors. -/
def framePages (queue : Virtioq) : List (BitVec 32) := (occupied queue).map queue.addr

def Thread.pages : Thread → List (BitVec 32)
  | .idle => []
  | .sending page _ => [page]

/-- A page that `pmem_alloc` can return: not in use, and not at zero. -/
def Transmitter.Fresh (transmitter : Transmitter) (page : BitVec 32) : Prop :=
  page ≠ 0 ∧ page ∉ framePages transmitter.ring.queue ∧ page ∉ transmitter.thread.pages

inductive Event where
  | device (step : DeviceStep)
  | poll
  | reply (page : BitVec 32)
  | search (page : BitVec 32)
  | enqueue
deriving DecidableEq

instance (transmitter : Transmitter) (page : BitVec 32) : Decidable (transmitter.Fresh page) :=
  inferInstanceAs (Decidable (_ ∧ _))

/-- The call of `net_virtio_tx_enqueue` that a poll makes. -/
def Transmitter.reply (transmitter : Transmitter) (page : BitVec 32) : Transmitter :=
  match netVirtioTxEnqueue transmitter.ring.queue (netVirtioFrameAlloc page)
  with
  | (queue, none) =>
    { transmitter with
      ring.queue := queue
      sent := page :: transmitter.sent }
  | (queue, some _) => { transmitter with ring.queue := queue }

/-- The first part of the call that a thread makes. -/
def Transmitter.search (transmitter : Transmitter) (page : BitVec 32) : Transmitter :=
  let queue := transmitter.ring.queue
  match freeDesc queue.addr queue.size 0 with
  | none => transmitter
  | some desc => { transmitter with thread := .sending page desc }

def perform (transmitter : Transmitter) : Event → Option Transmitter
  | .device step =>
    if transmitter.ring.Ready step then
      some { transmitter with ring := transmitter.ring.device step }
    else
      none
  | .poll =>
    (netVirtioPoll transmitter.ring.queue).map fun (queue, freed) =>
      { transmitter with
        ring.queue := queue
        freed := freed ++ transmitter.freed }
  | .reply page =>
    if transmitter.Fresh page then
      some (transmitter.reply page)
    else
      none
  | .search page =>
    if transmitter.thread = .idle ∧ transmitter.Fresh page then
      some (transmitter.search page)
    else
      none
  | .enqueue =>
    match transmitter.thread with
    | .idle => none
    | .sending page desc =>
      some
        { transmitter with
          ring.queue := useDesc transmitter.ring.queue desc (netVirtioFrameAlloc page)
          sent := page :: transmitter.sent
          thread := .idle }

/-- The transmit queue that `net_virtio_setup` leaves. -/
def netVirtioSetup (order : Fin 16) : Transmitter where
  ring := ⟨virtioVringAlloc order, 0, []⟩
  sent := []
  freed := []
  thread := .idle

def transmitting : System Transmitter Event where
  start transmitter := ∃ order, transmitter = netVirtioSetup order
  step transmitter event target := perform transmitter event = some target

/-- No poll runs while a thread is inside `net_virtio_tx_enqueue`. -/
def SendsAlone (transmitter : Transmitter) : Event → Prop
  | .poll => transmitter.thread = .idle
  | .reply _ => transmitter.thread = .idle
  | _ => True

/--
The frames in flight and the descriptors in use correspond: every frame that
was enqueued has been freed once or is in flight, in a descriptor of its own,
and every such descriptor is once in the care of the device.  Each enqueued
frame has had one entry of the available ring.
-/
structure InFlight (transmitter : Transmitter) : Prop where
  flight : transmitter.sent.Perm (transmitter.freed ++ framePages transmitter.ring.queue)
  distinct : (framePages transmitter.ring.queue).Nodup
  entrusted : transmitter.ring.entrusted.Perm (occupied transmitter.ring.queue)
  posted : transmitter.ring.queue.availIdx = BitVec.ofNat 16 transmitter.sent.length

/--
Besides, a further frame is refused exactly when all descriptors are in
flight, and otherwise comes into a free descriptor, which is entered once.  A
poll frees the pages of the used descriptors and makes these free.
-/
structure Orderly (transmitter : Transmitter) : Prop extends InFlight transmitter where
  refused :
    ∀ buf,
      (netVirtioTxEnqueue transmitter.ring.queue buf).2 = some .enomem ↔
        ∀ desc < transmitter.ring.queue.size, desc ∈ transmitter.ring.entrusted
  unchanged :
    ∀ buf, (netVirtioTxEnqueue transmitter.ring.queue buf).2 = some .enomem →
      (netVirtioTxEnqueue transmitter.ring.queue buf).1 = transmitter.ring.queue
  accepted :
    ∀ buf queue, netVirtioTxEnqueue transmitter.ring.queue buf = (queue, none) →
      ∃ desc < transmitter.ring.queue.size, desc ∉ transmitter.ring.entrusted ∧
        queue.addr = update transmitter.ring.queue.addr desc (vhdr buf) ∧
        Vring.available { transmitter.ring with queue := queue } =
          transmitter.ring.available ++ [desc]
  reclaimed :
    ∃ queue,
      netVirtioPoll transmitter.ring.queue =
        some (queue, transmitter.ring.queue.unpolled.map transmitter.ring.queue.addr) ∧
      queue.unpolled = [] ∧
      ∀ desc,
        queue.addr desc = if desc ∈ transmitter.ring.queue.unpolled then 0
          else transmitter.ring.queue.addr desc

/-! ## Free and occupied descriptors -/

variable {queue : Virtioq} {desc : Nat} {page : BitVec 32}

theorem freeDesc_eq_none_iff {addr : Nat → BitVec 32} {rest offset : Nat} :
    freeDesc addr rest offset = none ↔
      ∀ desc, offset ≤ desc → desc < offset + rest → addr desc ≠ 0 := by
  induction rest generalizing offset with
  | zero =>
    simp only [freeDesc, true_iff]
    omega
  | succ rest ih =>
    rw [freeDesc]
    split
    case isTrue used =>
      rw [ih]
      constructor
      · intro later desc after before
        rcases after.eq_or_lt with rfl | after
        · exact used
        · exact later desc after (by omega)
      · intro all desc after before
        exact all desc (by omega) (by omega)
    case isFalse free =>
      simp only [reduceCtorEq, false_iff]
      intro all
      exact free (all offset le_rfl (by omega))

theorem freeDesc_eq_some
    {addr : Nat → BitVec 32} {rest offset : Nat} (found : freeDesc addr rest offset = some desc) :
    desc < offset + rest ∧ addr desc = 0 := by
  induction rest generalizing offset with
  | zero => cases found
  | succ rest ih =>
    rw [freeDesc] at found
    split at found
    case isTrue used =>
      obtain ⟨below, free⟩ := ih found
      exact ⟨by omega, free⟩
    case isFalse free =>
      cases found
      exact ⟨by omega, not_not.mp free⟩

/-- What a call of `net_virtio_tx_enqueue` can do. -/
theorem netVirtioTxEnqueue_cases (queue : Virtioq) (buf : BitVec 32) :
    (netVirtioTxEnqueue queue buf = (queue, some .enomem) ∧
        ∀ desc < queue.size, queue.addr desc ≠ 0) ∨
      ∃ desc < queue.size,
        queue.addr desc = 0 ∧ netVirtioTxEnqueue queue buf = (useDesc queue desc buf, none) := by
  unfold netVirtioTxEnqueue
  cases found : freeDesc queue.addr queue.size 0 with
  | none =>
    refine Or.inl ⟨rfl, fun desc below => ?_⟩
    apply freeDesc_eq_none_iff.mp found desc (Nat.zero_le desc)
    rwa [zero_add]
  | some desc =>
    obtain ⟨below, free⟩ := freeDesc_eq_some found
    rw [zero_add] at below
    exact Or.inr ⟨desc, below, free, rfl⟩

theorem mem_occupied : desc ∈ occupied queue ↔ desc < queue.size ∧ queue.addr desc ≠ 0 := by
  simp [occupied]

theorem nodup_occupied (queue : Virtioq) : (occupied queue).Nodup := nodup_range.filter _

theorem occupied_length_le (queue : Virtioq) : (occupied queue).length ≤ queue.size :=
  (length_filter_le ..).trans length_range.le

theorem occupied_update
    (below : desc < queue.size) (free : queue.addr desc = 0) (nonzero : page ≠ 0) :
    (occupied { queue with addr := update queue.addr desc page }).Perm
      (desc :: occupied queue) := by
  have absent : desc ∉ occupied queue := fun member => (mem_occupied.mp member).2 free
  rw [perm_ext_iff_of_nodup (nodup_occupied _) (nodup_cons.mpr ⟨absent, nodup_occupied queue⟩)]
  intro other
  rw [mem_cons, mem_occupied, mem_occupied]
  show
    other < queue.size ∧ update queue.addr desc page other ≠ 0 ↔
      other = desc ∨ other < queue.size ∧ queue.addr other ≠ 0
  rcases eq_or_ne other desc with rfl | distinct
  · rw [update_self]
    exact ⟨fun _ => Or.inl rfl, fun _ => ⟨below, nonzero⟩⟩
  · rw [update_of_ne distinct, or_iff_right distinct]

theorem framePages_update
    (below : desc < queue.size) (free : queue.addr desc = 0) (nonzero : page ≠ 0) :
    (framePages { queue with addr := update queue.addr desc page }).Perm
      (page :: framePages queue) := by
  refine ((occupied_update below free nonzero).map _).trans ?_
  show
    (update queue.addr desc page desc ::
      (occupied queue).map (update queue.addr desc page)).Perm
        (page :: (occupied queue).map queue.addr)
  rw [update_self]
  apply List.Perm.cons
  apply List.Perm.of_eq
  apply map_congr_left
  intro other member
  apply update_of_ne
  rintro rfl
  exact (mem_occupied.mp member).2 free

/-! ## What a poll leaves -/

/-- The queue behind a poll. -/
def reclaim (queue : Virtioq) : Virtioq :=
  { queue with
    addr := fun desc => if desc ∈ queue.unpolled then 0 else queue.addr desc
    lastUsed := queue.usedIdx }

/-- The queue behind one iteration of a poll. -/
def reclaimOne (queue : Virtioq) : Virtioq :=
  Virtioq.advanceUsed { queue with addr := update queue.addr queue.usedEntry 0 }

theorem unpolled_reclaimOne (pending : queue.lastUsed ≠ queue.usedIdx) :
    queue.unpolled = queue.usedEntry :: (reclaimOne queue).unpolled :=
  Virtioq.unpolled_cons pending

theorem reclaim_eq_self (done : queue.lastUsed = queue.usedIdx) : reclaim queue = queue := by
  have none : queue.unpolled = [] := by rw [Virtioq.unpolled, done, entries_self]
  obtain ⟨order, lastUsed, addr, availIdx, availRing, usedIdx, usedRing⟩ := queue
  cases done
  unfold reclaim
  rw [none]
  simp

theorem reclaim_reclaimOne (pending : queue.lastUsed ≠ queue.usedIdx) :
    reclaim (reclaimOne queue) = reclaim queue := by
  unfold reclaim
  rw [unpolled_reclaimOne pending]
  show
    ({ queue with
        addr := fun desc =>
          if desc ∈ (reclaimOne queue).unpolled then 0
          else update queue.addr queue.usedEntry 0 desc
        lastUsed := queue.usedIdx } : Virtioq) = _
  congr 1
  funext desc
  rcases eq_or_ne desc queue.usedEntry with rfl | other
  · simp
  · simp [other]

/--
A poll comes to its end, having passed the page of every used descriptor to
`net_virtio_frame_free` and cleared its address.
-/
theorem pollTxq_eq
    {fuel : Nat} (distinct : queue.unpolled.Nodup) (enough : queue.unpolled.length < fuel) :
    pollTxq queue.usedIdx fuel queue = some (reclaim queue, queue.unpolled.map queue.addr) := by
  induction fuel generalizing queue with
  | zero => omega
  | succ fuel ih =>
    rw [pollTxq]
    split
    case isTrue pending =>
      have unpolled := unpolled_reclaimOne pending
      rw [unpolled, length_cons] at enough
      obtain ⟨first, later⟩ := nodup_cons.mp (unpolled ▸ distinct)
      have rest :
          pollTxq queue.usedIdx fuel (reclaimOne queue) = some (reclaim (reclaimOne queue), _) :=
        ih later (Nat.lt_of_succ_lt_succ enough)
      show (pollTxq _ fuel (reclaimOne queue)).map _ = _
      rw [rest, reclaim_reclaimOne pending, unpolled, map_cons]
      have pages :
          (reclaimOne queue).unpolled.map (reclaimOne queue).addr =
            (reclaimOne queue).unpolled.map queue.addr := by
        apply map_congr_left
        intro desc member
        apply update_of_ne
        rintro rfl
        exact first member
      rw [← pages]
      rfl
    case isFalse done =>
      have same : queue.lastUsed = queue.usedIdx := not_not.mp done
      rw [reclaim_eq_self same, Virtioq.unpolled, same, entries_self]
      rfl

theorem mem_occupied_reclaim :
    desc ∈ occupied (reclaim queue) ↔ desc ∈ occupied queue ∧ desc ∉ queue.unpolled := by
  rw [mem_occupied, mem_occupied]
  show desc < queue.size ∧ (if desc ∈ queue.unpolled then 0 else queue.addr desc) ≠ 0 ↔ _
  split
  case isTrue used => simp [used]
  case isFalse other => simp [other]

section

variable (distinct : queue.unpolled.Nodup) (used : ∀ desc ∈ queue.unpolled, desc ∈ occupied queue)

include distinct used

/-- The occupied descriptors are the used ones and those that stay so. -/
theorem occupied_perm_reclaim :
    (occupied queue).Perm (queue.unpolled ++ occupied (reclaim queue)) := by
  rw [perm_ext_iff_of_nodup (nodup_occupied queue)]
  · intro desc
    rw [mem_append, mem_occupied_reclaim]
    constructor
    · intro member
      by_cases unpolled : desc ∈ queue.unpolled
      · exact Or.inl unpolled
      · exact Or.inr ⟨member, unpolled⟩
    · rintro (unpolled | ⟨member, _⟩)
      · exact used desc unpolled
      · exact member
  · apply distinct.append (nodup_occupied _)
    intro desc unpolled member
    exact (mem_occupied_reclaim.mp member).2 unpolled

theorem framePages_perm_reclaim :
    (framePages queue).Perm (queue.unpolled.map queue.addr ++ framePages (reclaim queue)) := by
  have kept : framePages (reclaim queue) = (occupied (reclaim queue)).map queue.addr := by
    apply map_congr_left
    intro desc member
    exact if_neg (mem_occupied_reclaim.mp member).2
  rw [kept, ← map_append]
  exact (occupied_perm_reclaim distinct used).map _

end

/-! ## Step by step -/

/-- What the steps keep: a thread sends a new frame in a free descriptor. -/
structure Kept (transmitter : Transmitter) : Prop extends InFlight transmitter where
  chosen :
    ∀ page desc, transmitter.thread = .sending page desc →
      desc < transmitter.ring.queue.size ∧ transmitter.ring.queue.addr desc = 0 ∧ page ≠ 0 ∧
        page ∉ framePages transmitter.ring.queue

variable {transmitter target : Transmitter}

theorem vhdr_netVirtioFrameAlloc (page : BitVec 32) : vhdr (netVirtioFrameAlloc page) = page :=
  BitVec.add_sub_cancel ..

theorem unpolled_reclaim (queue : Virtioq) : (reclaim queue).unpolled = [] := entries_self

theorem occupied_virtioVringAlloc (order : Fin 16) : occupied (virtioVringAlloc order) = [] :=
  filter_eq_nil_iff.mpr fun _ _ => by simp [virtioVringAlloc]

theorem Kept.setup (order : Fin 16) : Kept (netVirtioSetup order) := by
  have pages : framePages (virtioVringAlloc order) = [] := by
    rw [framePages, occupied_virtioVringAlloc, map_nil]
  refine ⟨⟨?_, ?_, ?_, ?_⟩, ?_⟩
  · show List.Perm [] ([] ++ framePages (virtioVringAlloc order))
    rw [pages, append_nil]
  · show (framePages (virtioVringAlloc order)).Nodup
    rw [pages]
    exact nodup_nil
  · show
      (entries _ _ 0#16 0#16 ++ ([] ++ entries _ _ 0#16 0#16)).Perm
        (occupied (virtioVringAlloc order))
    rw [occupied_virtioVringAlloc, entries_self, entries_self]
    exact List.Perm.refl _
  · rfl
  · intro page desc none
    cases none

section Kept

variable (kept : Kept transmitter)

include kept

theorem Kept.unpolled_nodup : transmitter.ring.queue.unpolled.Nodup := by
  have distinct : transmitter.ring.entrusted.Nodup :=
    kept.entrusted.nodup_iff.mpr (nodup_occupied _)
  exact distinct.of_append_right.of_append_right

theorem Kept.unpolled_occupied (desc : Nat) (member : desc ∈ transmitter.ring.queue.unpolled) :
    desc ∈ occupied transmitter.ring.queue := by
  apply kept.entrusted.mem_iff.mp
  exact mem_append_right _ (mem_append_right _ member)

/-- There is room in the available ring for a free descriptor. -/
theorem Kept.room (below : desc < transmitter.ring.queue.size)
    (free : transmitter.ring.queue.addr desc = 0) :
    transmitter.ring.entrusted.length < transmitter.ring.queue.size := by
  have page : (1 : BitVec 32) ≠ 0 := by decide
  have grown := (occupied_update below free page).length_eq
  have most :
      (occupied { transmitter.ring.queue with
        addr := update transmitter.ring.queue.addr desc 1 }).length ≤ transmitter.ring.queue.size :=
    occupied_length_le _
  rw [kept.entrusted.length_eq]
  rw [grown] at most
  exact most

theorem Kept.useDesc (below : desc < transmitter.ring.queue.size)
    (free : transmitter.ring.queue.addr desc = 0) (nonzero : page ≠ 0)
    (fresh : page ∉ framePages transmitter.ring.queue) :
    Kept
      { transmitter with
        ring.queue := useDesc transmitter.ring.queue desc (netVirtioFrameAlloc page)
        sent := page :: transmitter.sent
        thread := .idle } := by
  have pages :
      (framePages (VirtioTransmit.useDesc transmitter.ring.queue desc
        (netVirtioFrameAlloc page))).Perm (page :: framePages transmitter.ring.queue) := by
    rw [VirtioTransmit.useDesc, vhdr_netVirtioFrameAlloc]
    exact framePages_update below free nonzero
  refine ⟨⟨?_, ?_, ?_, ?_⟩, ?_⟩
  · calc
      List.Perm _ (page :: (transmitter.freed ++ framePages transmitter.ring.queue)) :=
        kept.flight.cons page
      List.Perm _ (transmitter.freed ++ page :: framePages transmitter.ring.queue) :=
        perm_middle.symm
      List.Perm _ _ := pages.symm.append_left transmitter.freed
  · apply pages.nodup_iff.mpr
    exact nodup_cons.mpr ⟨fresh, kept.distinct⟩
  · have entered := Vring.entrusted_enqueue desc (kept.room below free)
    refine entered.trans ?_
    refine (kept.entrusted.cons desc).trans ?_
    rw [VirtioTransmit.useDesc, vhdr_netVirtioFrameAlloc]
    exact (occupied_update below free nonzero).symm
  · show transmitter.ring.queue.availIdx + 1#16 = _
    rw [kept.posted, length_cons, BitVec.ofNat_add]
  · intro page desc none
    cases none

theorem Kept.device {step : DeviceStep} (ready : transmitter.ring.Ready step) :
    Kept { transmitter with ring := transmitter.ring.device step } := by
  have moved := Vring.entrusted_device ready (kept.entrusted.length_eq ▸ occupied_length_le _)
  cases step <;>
    exact ⟨⟨kept.flight, kept.distinct, moved.trans kept.entrusted, kept.posted⟩, kept.chosen⟩

theorem Kept.netVirtioPoll_eq :
    netVirtioPoll transmitter.ring.queue =
      some (reclaim transmitter.ring.queue,
        transmitter.ring.queue.unpolled.map transmitter.ring.queue.addr) := by
  apply pollTxq_eq kept.unpolled_nodup
  rw [Virtioq.unpolled, length_entries]
  exact BitVec.isLt _

theorem Kept.reclaim (idle : transmitter.thread = .idle) :
    Kept
      { transmitter with
        ring.queue := reclaim transmitter.ring.queue
        freed :=
          transmitter.ring.queue.unpolled.map transmitter.ring.queue.addr ++
            transmitter.freed } := by
  have pages := framePages_perm_reclaim kept.unpolled_nodup kept.unpolled_occupied
  refine ⟨⟨?_, ?_, ?_, ?_⟩, ?_⟩
  · calc
      List.Perm _ (transmitter.freed ++ (_ ++ _)) := kept.flight.trans (pages.append_left _)
      List.Perm _ _ := by
        rw [← append_assoc]
        exact perm_append_comm.append_right _
  · exact (pages.nodup_iff.mp kept.distinct).of_append_right
  · have split := occupied_perm_reclaim kept.unpolled_nodup kept.unpolled_occupied
    show
      (transmitter.ring.available ++
        (transmitter.ring.held ++ (VirtioTransmit.reclaim transmitter.ring.queue).unpolled)).Perm _
    rw [unpolled_reclaim, append_nil]
    apply (perm_append_left_iff transmitter.ring.queue.unpolled).mp
    refine List.Perm.trans ?_ (kept.entrusted.trans split)
    rw [Vring.entrusted, ← append_assoc transmitter.ring.available]
    exact perm_append_comm
  · exact kept.posted
  · intro page desc sending
    cases idle.symm.trans sending

theorem Kept.reply (fresh : transmitter.Fresh page) (idle : transmitter.thread = .idle) :
    Kept (transmitter.reply page) := by
  unfold Transmitter.reply
  rcases netVirtioTxEnqueue_cases transmitter.ring.queue (netVirtioFrameAlloc page) with
    ⟨returned, _⟩ | ⟨desc, below, free, returned⟩
  · rw [returned]
    exact kept
  · rw [returned]
    have used := kept.useDesc below free fresh.1 fresh.2.1
    rw [← idle] at used
    exact used

theorem Kept.search (fresh : transmitter.Fresh page) : Kept (transmitter.search page) := by
  unfold Transmitter.search
  dsimp only
  cases found : freeDesc transmitter.ring.queue.addr transmitter.ring.queue.size 0 with
  | none => exact kept
  | some desc =>
    obtain ⟨below, free⟩ := freeDesc_eq_some found
    rw [zero_add] at below
    refine ⟨⟨kept.flight, kept.distinct, kept.entrusted, kept.posted⟩, ?_⟩
    intro sentPage sentDesc sending
    cases sending
    exact ⟨below, free, fresh.1, fresh.2.1⟩

theorem Kept.step {event : Event} (alone : SendsAlone transmitter event)
    (taken : perform transmitter event = some target) : Kept target := by
  cases event with
  | device step =>
    obtain ⟨ready, ⟨⟩⟩ := Option.ite_none_right_eq_some.mp taken
    exact kept.device ready
  | poll =>
    rw [perform, kept.netVirtioPoll_eq] at taken
    cases taken
    exact kept.reclaim alone
  | reply page =>
    obtain ⟨fresh, ⟨⟩⟩ := Option.ite_none_right_eq_some.mp taken
    exact kept.reply fresh alone
  | search page =>
    obtain ⟨⟨_, fresh⟩, ⟨⟩⟩ := Option.ite_none_right_eq_some.mp taken
    exact kept.search fresh
  | enqueue =>
    simp only [perform] at taken
    split at taken
    case h_1 => cases taken
    case h_2 page desc sending =>
      cases taken
      obtain ⟨below, free, nonzero, fresh⟩ := kept.chosen page desc sending
      exact kept.useDesc below free nonzero fresh

theorem Kept.mem_entrusted (below : desc < transmitter.ring.queue.size) :
    desc ∈ transmitter.ring.entrusted ↔ transmitter.ring.queue.addr desc ≠ 0 := by
  rw [kept.entrusted.mem_iff, mem_occupied, and_iff_right below]

theorem Kept.orderly : Orderly transmitter := by
  have calls := netVirtioTxEnqueue_cases transmitter.ring.queue
  refine ⟨kept.toInFlight, ?refused, ?unchanged, ?accepted, ?reclaimed⟩
  case refused =>
    intro buf
    rcases calls buf with ⟨returned, full⟩ | ⟨desc, below, free, returned⟩
    · rw [returned]
      refine ⟨fun _ desc below => ?_, fun _ => rfl⟩
      exact (kept.mem_entrusted below).mpr (full desc below)
    · rw [returned]
      refine ⟨fun accepted => ?_, fun all => ?_⟩
      · cases accepted
      · exact absurd free ((kept.mem_entrusted below).mp (all desc below))
  case unchanged =>
    intro buf refused
    rcases calls buf with ⟨returned, _⟩ | ⟨desc, _, _, returned⟩
    · rw [returned]
    · rw [returned] at refused
      cases refused
  case accepted =>
    intro buf queue accepted
    rcases calls buf with ⟨returned, _⟩ | ⟨desc, below, free, returned⟩
    · rw [returned] at accepted
      cases accepted
    · rw [returned] at accepted
      cases accepted
      refine ⟨desc, below, ?_, rfl, ?_⟩
      · intro member
        exact (kept.mem_entrusted below).mp member free
      · exact Vring.available_enqueue desc (kept.room below free)
  case reclaimed =>
    refine ⟨_, kept.netVirtioPoll_eq, unpolled_reclaim _, ?_⟩
    exact fun desc => rfl

end Kept

/--
In every run in which no poll interrupts a thread inside
`net_virtio_tx_enqueue`, the frames in flight and the descriptors correspond.
-/
theorem orderly_of_sendsAlone (reached : transmitting.Reached SendsAlone transmitter) :
    Orderly transmitter := by
  have kept : Kept transmitter := by
    refine System.Reached.invariant ?_ ?_ reached
    · rintro state ⟨order, rfl⟩
      exact Kept.setup order
    · exact fun _ _ _ before alone taken => before.step alone taken
  exact kept.orderly

instance (transmitter : Transmitter) : (event : Event) → Decidable (SendsAlone transmitter event)
  | .poll => inferInstanceAs (Decidable (transmitter.thread = .idle))
  | .reply _ => inferInstanceAs (Decidable (transmitter.thread = .idle))
  | .device _ => isTrue trivial
  | .search _ => isTrue trivial
  | .enqueue => isTrue trivial

/-- The steps that the condition on sending allows. -/
def performAlone (transmitter : Transmitter) (event : Event) : Option Transmitter :=
  if SendsAlone transmitter event then perform transmitter event else none

/-- A frame is sent by a thread, used by the device, and reclaimed. -/
def frameSent : List Event :=
  [.search 0x200000, .enqueue, .device .take, .device (.publish 0), .poll]

theorem setup_start : transmitting.start (netVirtioSetup 1) := ⟨1, rfl⟩

theorem orderly_after_frame :
    ∃ transmitter, performAll performAlone (netVirtioSetup 1) frameSent = some transmitter ∧
      transmitter.freed = [0x200000] ∧ Orderly transmitter := by
  obtain ⟨transmitter, performed, freed⟩ : ∃ transmitter,
      performAll performAlone (netVirtioSetup 1) frameSent = some transmitter ∧
        transmitter.freed = [0x200000] :=
    exists_of_any (by decide +kernel)
  refine ⟨transmitter, performed, freed, ?_⟩
  apply orderly_of_sendsAlone
  refine System.Reached.performAll ?_ ?_ performed
  · exact fun _ _ _ taken => Option.ite_none_right_eq_some.mp taken
  · exact System.Reached.start setup_start

/-- A reply is sent between the search of a thread and what it found. -/
def interruptedSend : List Event := [.search 0x200000, .reply 0x201000, .enqueue]

/--
The thread and the reply that interrupts it put their frames into the same
descriptor.
-/
theorem descriptor_shared_with_reply :
    ¬ ∀ transmitter, transmitting.Reached unrestricted transmitter → Orderly transmitter := by
  intro orderly
  obtain ⟨transmitter, performed, sent, pages⟩ : ∃ transmitter,
      performAll perform (netVirtioSetup 1) interruptedSend = some transmitter ∧
        transmitter.sent.length = 2 ∧
        transmitter.freed ++ framePages transmitter.ring.queue = [0x200000] :=
    exists_of_any (by decide +kernel)
  have reached : transmitting.Reached unrestricted transmitter := by
    refine System.Reached.performAll ?_ ?_ performed
    · exact fun _ _ _ taken => ⟨trivial, taken⟩
    · exact System.Reached.start setup_start
  have lengths := (orderly transmitter reached).flight.length_eq
  rw [sent, pages] at lengths
  cases lengths

end Cosec.Dev.VirtioTransmit
