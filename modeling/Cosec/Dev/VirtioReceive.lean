import Cosec.Lib.Transition
import Cosec.Dev.VirtioQueues
import Cosec.Net.ReceiveQueue

/-!
# The receive queue of the virtio network driver

`net_virtio_setup` posts all descriptors of the receive queue but one.  The
device fills their frames; `net_virtio_poll`, which runs from interrupts,
hands them to the network stack, and `net_virtio_rxbuf_cleanup` posts a
descriptor again, inside the poll, or for a UDP datagram in the thread that
`net_wait_udp4` returns it to.

A posted descriptor is always in one place as long as no poll recycles a
frame while that thread is between reading and advancing `avail->idx`.
-/

namespace Cosec.Dev.VirtioReceive

open Dev.VirtioQueues Function Lib.CircularBuffers Lib.RingCounters Lib.Transition List

/-! ## Frames and descriptors -/

def FRAME_SIZE : Nat := 2048

/-- The frame that `net_virtio_setup` gives a descriptor. -/
def frameAddr (netbuf : BitVec 32) (desc : Nat) : BitVec 32 :=
  netbuf + BitVec.ofNat 32 (FRAME_SIZE * desc)

/-- Where the Ethernet frame begins, behind the header of the device. -/
def frameBuf (addr : BitVec 32) : BitVec 32 := addr + BitVec.ofNat 32 NET_HDR_SIZE

/-- The descriptor that `net_virtio_rxbuf_cleanup` finds for a buffer. -/
def rxbufDesc (netbuf buf : BitVec 32) : Nat := (buf - netbuf).toNat / FRAME_SIZE % 2 ^ 16

/-- One descriptor in the loop of `net_virtio_setup`. -/
def postReceive (netbuf : BitVec 32) (queue : Virtioq) (desc : Nat) : Virtioq :=
  { queue with
    addr := update queue.addr desc (frameAddr netbuf desc)
    availRing := update queue.availRing desc desc }

/-- The part of `net_virtio_setup` that fills the receive queue. -/
def fillReceive (netbuf : BitVec 32) (queue : Virtioq) : Virtioq :=
  let filled := (List.range (queue.size - 1)).foldl (postReceive netbuf) queue
  { filled with availIdx := BitVec.ofNat 16 (queue.size - 1) }

/-- Whether `net_virtio_poll` runs, and what it does. -/
inductive Poll where
  | idle
  | scanning (idxUsed : BitVec 16)
  | delivering (idxUsed : BitVec 16) (buf : BitVec 32)
deriving DecidableEq

/-- Whether the thread is inside `virtioq_enqueue`, and the `idx` it read. -/
inductive Thread where
  | idle
  | recycling (buf : BitVec 32) (idx : BitVec 16)
deriving DecidableEq

/--
The driver, the device and the stack: the receive queue, the poll, the
buffers that wait in `theNetwork.rxq`, those that `net_wait_udp4` has
returned, and the thread.
-/
structure Receiver where
  ring : Vring
  netbuf : BitVec 32
  poll : Poll
  queued : List (BitVec 32)
  claimed : List (BitVec 32)
  thread : Thread

def netVirtioSetup (order : Fin 16) (netbuf : BitVec 32) : Receiver where
  ring :=
    { queue := fillReceive netbuf (virtioVringAlloc order)
      taken := 0
      held := [] }
  netbuf := netbuf
  poll := .idle
  queued := []
  claimed := []
  thread := .idle

/-- `net_virtio_rxbuf_cleanup` without an interruption. -/
def netVirtioRxbufCleanup (receiver : Receiver) (buf : BitVec 32) : Receiver :=
  { receiver with
    ring.queue := virtioqEnqueue receiver.ring.queue (rxbufDesc receiver.netbuf buf) }

/--
`net_receive_driver_frame`: a frame with a UDP datagram is queued, any other
is done with and recycled.
-/
def netReceiveDriverFrame (receiver : Receiver) (udp : Bool) (buf : BitVec 32) : Receiver :=
  if udp then
    { receiver with queued := receiver.queued ++ [buf] }
  else
    netVirtioRxbufCleanup receiver buf

/-- The queue is the one that `theNetwork.rxq` represents. -/
theorem netReceiveDriverFrame_represents
    {stack : Net.ReceiveQueue.NetworkStack (BitVec 32)}
    {receiver : Receiver}
    {buf : BitVec 32}
    (represents : Net.ReceiveQueue.Represents stack receiver.queued)
    (absent : buf ∉ receiver.queued)
    (iface : Net.Frames.Iface) :
    let reception := Net.ReceiveQueue.netReceiveDriverFrame iface stack buf
    Net.ReceiveQueue.Represents reception.stack
      (netReceiveDriverFrame receiver reception.effect.queued buf).queued := by
  unfold Net.ReceiveQueue.netReceiveDriverFrame netReceiveDriverFrame
  cases udp : (Net.Frames.netReceiveDriverFrame iface (stack.buf buf)).queued with
  | true => simpa [udp] using represents.enqueue absent
  | false => simpa [udp, netVirtioRxbufCleanup] using represents

inductive Event where
  | device (step : DeviceStep)
  | pollStart
  | deliver
  | receive (udp : Bool)
  | pollReturn
  | dequeue (buf : BitVec 32)
  | readIdx (buf : BitVec 32)
  | store
deriving DecidableEq

/--
The steps of the device, of a poll, and of the thread, which stands still
while a poll runs.  The thread recycles a buffer in two steps, between which
it can be interrupted.
-/
def perform (receiver : Receiver) : Event → Option Receiver
  | .device step =>
    if receiver.ring.Ready step then
      some { receiver with ring := receiver.ring.device step }
    else
      none
  | .pollStart =>
    match receiver.poll with
    | .idle => some { receiver with poll := .scanning receiver.ring.queue.usedIdx }
    | _ => none
  | .deliver =>
    match receiver.poll with
    | .scanning idxUsed =>
      if receiver.ring.queue.lastUsed ≠ idxUsed then
        let addr := receiver.ring.queue.addr receiver.ring.queue.usedEntry
        some { receiver with poll := .delivering idxUsed (frameBuf addr) }
      else
        none
    | _ => none
  | .receive udp =>
    match receiver.poll with
    | .delivering idxUsed buf =>
      let received := netReceiveDriverFrame receiver udp buf
      some
        { received with
          poll := .scanning idxUsed
          ring.queue := received.ring.queue.advanceUsed }
    | _ => none
  | .pollReturn =>
    if receiver.poll = .scanning receiver.ring.queue.lastUsed then
      some { receiver with poll := .idle }
    else
      none
  | .dequeue buf =>
    if receiver.poll = .idle ∧ receiver.thread = .idle ∧ buf ∈ receiver.queued then
      some
        { receiver with
          queued := receiver.queued.erase buf
          claimed := buf :: receiver.claimed }
    else
      none
  | .readIdx buf =>
    if receiver.poll = .idle ∧ receiver.thread = .idle ∧ buf ∈ receiver.claimed then
      some
        { receiver with
          claimed := receiver.claimed.erase buf
          thread := .recycling buf receiver.ring.queue.availIdx }
    else
      none
  | .store =>
    match receiver.poll, receiver.thread with
    | .idle, .recycling buf idx =>
      some
        { receiver with
          thread := .idle
          ring.queue := virtioqStore receiver.ring.queue idx (rxbufDesc receiver.netbuf buf) }
    | _, _ => none

def receiving : System Receiver Event where
  start receiver := ∃ order netbuf, 1 ≤ order.val ∧ receiver = netVirtioSetup order netbuf
  step receiver event target := perform receiver event = some target

/-- No poll recycles a frame between the two steps of the thread. -/
def RecyclesAlone (receiver : Receiver) (event : Event) : Prop :=
  event = .receive false → receiver.thread = .idle

instance (receiver : Receiver) (event : Event) : Decidable (RecyclesAlone receiver event) :=
  inferInstanceAs (Decidable (_ → _))

/-! ## One place for each descriptor -/

def Poll.delivered : Poll → List (BitVec 32)
  | .delivering _ buf => [buf]
  | _ => []

def Poll.bound : Poll → Option (BitVec 16)
  | .idle => none
  | .scanning idxUsed => some idxUsed
  | .delivering idxUsed _ => some idxUsed

def Thread.recycled : Thread → List (BitVec 32)
  | .idle => []
  | .recycling buf _ => [buf]

/-- The queue without the used entry that the poll is delivering. -/
def Receiver.polled (receiver : Receiver) : Vring := match receiver.poll with
  | .delivering _ _ => { receiver.ring with queue := receiver.ring.queue.advanceUsed }
  | _ => receiver.ring

/-- The buffers held by the stack. -/
def Receiver.stack (receiver : Receiver) : List (BitVec 32) :=
  receiver.poll.delivered ++ (receiver.thread.recycled ++ (receiver.queued ++ receiver.claimed))

/--
Each of the `size - 1` posted descriptors is, exactly once, in exactly one
of four places: available, held by the device, used but not polled, or held
by the stack.
-/
def Conserved (receiver : Receiver) : Prop :=
  (receiver.polled.available ++ (receiver.polled.held ++ receiver.polled.queue.unpolled) ++
    receiver.stack.map (rxbufDesc receiver.netbuf)).Perm (List.range (receiver.ring.queue.size - 1))

instance (receiver : Receiver) : Decidable (Conserved receiver) :=
  inferInstanceAs (Decidable (List.Perm _ _))

/-- What the steps keep, besides the descriptors. -/
structure Kept (receiver : Receiver) : Prop where
  conserved : Conserved receiver
  posted :
    ∀ desc < receiver.ring.queue.size - 1,
      receiver.ring.queue.addr desc = frameAddr receiver.netbuf desc
  scanned :
    ∀ idxUsed, receiver.poll.bound = some idxUsed →
      (idxUsed - receiver.polled.queue.lastUsed).toNat ≤ receiver.polled.queue.unpolled.length
  current : ∀ buf idx, receiver.thread = .recycling buf idx → idx = receiver.ring.queue.availIdx

variable {receiver : Receiver}

theorem foldl_postReceive (netbuf : BitVec 32) (queue : Virtioq) :
    ∀ count,
      (List.range count).foldl (postReceive netbuf) queue =
        { queue with
          addr := fun desc => if desc < count then frameAddr netbuf desc else queue.addr desc
          availRing := fun desc =>
            if desc < count then desc else queue.availRing desc } := by
  intro count
  induction count with
  | zero => rfl
  | succ count ih =>
    rw [range_succ, foldl_append, ih]
    simp only [foldl_cons, foldl_nil, postReceive]
    congr 1
    all_goals
      funext desc
      rcases eq_or_ne desc count with same | other
      · simp [same]
      · rw [update_of_ne other]
        grind

/-- The posted descriptors are available in order. -/
theorem entries_posted
    {count capacity : Nat} {cells : Nat → Nat} (filled : ∀ desc < count, cells desc = desc)
    (below : count < capacity) (small : capacity < 2 ^ 16) :
    entries cells capacity 0#16 (BitVec.ofNat 16 count) = List.range count := by
  have distance : (BitVec.ofNat 16 count - 0#16).toNat = count := by
    rw [BitVec.sub_zero, BitVec.toNat_ofNat]
    exact Nat.mod_eq_of_lt (below.trans small)
  apply ext_getElem
  · rw [length_entries, distance, length_range]
  · intro position inside inRange
    have early : position < count := by rwa [length_range] at inRange
    have inPlace : (0 + position) % capacity = position := by
      rw [Nat.zero_add]
      exact Nat.mod_eq_of_lt (early.trans below)
    rw [getElem_range]
    refine (getElem_window inside).trans ?_
    exact (congrArg cells inPlace).trans (filled position early)

theorem Kept.setup (order : Fin 16) (netbuf : BitVec 32) : Kept (netVirtioSetup order netbuf) := by
  have positive : 0 < (virtioVringAlloc order).size := Virtioq.size_pos _
  unfold netVirtioSetup
  rw [fillReceive, foldl_postReceive]
  constructor
  · apply List.Perm.of_eq
    show
      entries _ _ 0#16 (BitVec.ofNat 16 ((virtioVringAlloc order).size - 1)) ++
          ([] ++ entries _ _ 0#16 0#16) ++ [] = List.range ((virtioVringAlloc order).size - 1)
    rw [entries_self, entries_posted]
    · simp only [append_nil]
    · exact fun desc below => if_pos below
    · exact Nat.sub_lt positive Nat.one_pos
    · exact (virtioVringAlloc order).size_lt
  · intro desc below
    exact if_pos below
  · intro idxUsed none
    cases none
  · intro buf idx none
    cases none

/-! ## Step by step -/

variable {target : Receiver} {idxUsed : BitVec 16} {buf : BitVec 32}

theorem Conserved.of_perm
    (conserved : Conserved receiver) (order : target.ring.queue.order = receiver.ring.queue.order)
    (moved :
      (target.polled.entrusted ++ target.stack.map (rxbufDesc target.netbuf)).Perm
        (receiver.polled.entrusted ++ receiver.stack.map (rxbufDesc receiver.netbuf))) :
    Conserved target := by
  have size : target.ring.queue.size = receiver.ring.queue.size := by
    rw [Virtioq.size, order, Virtioq.size]
  unfold Conserved
  rw [size]
  exact moved.trans conserved

theorem polled_device (receiver : Receiver) (step : DeviceStep) :
    Receiver.polled { receiver with ring := receiver.ring.device step } =
      receiver.polled.device step := by
  obtain ⟨ring, netbuf, poll, queued, claimed, thread⟩ := receiver
  cases poll <;> cases step <;> rfl

theorem polled_ready {step : DeviceStep} (ready : receiver.ring.Ready step) :
    receiver.polled.Ready step := by
  obtain ⟨ring, netbuf, poll, queued, claimed, thread⟩ := receiver
  cases poll <;> cases step <;> exact ready

theorem polled_order (receiver : Receiver) :
    receiver.polled.queue.order = receiver.ring.queue.order := by
  obtain ⟨ring, netbuf, poll, queued, claimed, thread⟩ := receiver
  cases poll <;> rfl

section Kept

variable (kept : Kept receiver)

include kept

theorem Kept.bounded : receiver.polled.entrusted.length < receiver.polled.queue.size := by
  rw [Virtioq.size, polled_order]
  have total := kept.conserved.length_eq
  have positive := receiver.ring.queue.size_pos
  rw [length_append, length_range] at total
  rw [Vring.entrusted]
  unfold Virtioq.size at *
  omega

theorem Kept.device {step : DeviceStep} (ready : receiver.ring.Ready step) :
    Kept { receiver with ring := receiver.ring.device step } := by
  have polledReady := polled_ready ready
  have order : (receiver.ring.device step).queue.order = receiver.ring.queue.order := by
    cases step <;> rfl
  constructor
  · apply kept.conserved.of_perm order
    rw [polled_device]
    exact (Vring.entrusted_device polledReady kept.bounded.le).append_right _
  · cases step <;> exact kept.posted
  · intro idxUsed running
    rw [polled_device]
    have grown := Vring.unpolled_device_length polledReady kept.bounded.le
    have same : (receiver.polled.device step).queue.lastUsed = receiver.polled.queue.lastUsed := by
      cases step <;> rfl
    rw [same]
    exact (kept.scanned idxUsed running).trans grown
  · cases step <;> exact kept.current

/-- A poll that has not come to its bound finds a used entry. -/
theorem Kept.pending (scanning : receiver.poll = .scanning idxUsed)
    (pending : receiver.ring.queue.lastUsed ≠ idxUsed) :
    receiver.ring.queue.lastUsed ≠ receiver.ring.queue.usedIdx := by
  obtain ⟨ring, netbuf, poll, queued, claimed, thread⟩ := receiver
  cases scanning
  intro empty
  have within := kept.scanned idxUsed rfl
  apply pending
  have none : ring.queue.unpolled.length = 0 := by
    rw [Virtioq.unpolled, ← empty, entries_self, length_nil]
  have zero : idxUsed - ring.queue.lastUsed = 0#16 :=
    BitVec.eq_of_toNat_eq (Nat.le_zero.mp (none ▸ within))
  grind

theorem Kept.deliver (scanning : receiver.poll = .scanning idxUsed)
    (pending : receiver.ring.queue.lastUsed ≠ idxUsed) :
    Kept
      { receiver with
        poll :=
          .delivering idxUsed
            (frameBuf (receiver.ring.queue.addr receiver.ring.queue.usedEntry)) } := by
  have found := kept.pending scanning pending
  obtain ⟨ring, netbuf, poll, queued, claimed, thread⟩ := receiver
  cases scanning
  have left := Vring.entrusted_advanceUsed found
  have below : ring.queue.usedEntry < ring.queue.size - 1 :=
    mem_range.mp (kept.conserved.mem_iff.mp (mem_append_left _ (left.mem_iff.mpr mem_cons_self)))
  have desc :
      rxbufDesc netbuf (frameBuf (ring.queue.addr ring.queue.usedEntry)) =
        ring.queue.usedEntry := by
    have small := ring.queue.size_lt
    have posted := kept.posted _ below
    have offset :
        frameBuf (frameAddr netbuf ring.queue.usedEntry) - netbuf =
          BitVec.ofNat 32 (FRAME_SIZE * ring.queue.usedEntry + NET_HDR_SIZE) := by
      rw [frameBuf, frameAddr, BitVec.ofNat_add]
      grind
    rw [posted, rxbufDesc, offset, BitVec.toNat_ofNat]
    simp only [FRAME_SIZE, NET_HDR_SIZE]
    omega
  constructor
  · refine kept.conserved.of_perm rfl ?_
    show (_ ++ rxbufDesc netbuf _ :: _).Perm _
    rw [desc]
    exact perm_middle.trans (left.symm.append_right _)
  · exact kept.posted
  · intro bound same
    cases same
    have within : (idxUsed - ring.queue.lastUsed).toNat ≤ ring.queue.unpolled.length :=
      kept.scanned idxUsed rfl
    rw [Virtioq.unpolled_cons found, length_cons, toNat_sub_succ pending] at within
    exact Nat.le_of_succ_le_succ within
  · exact kept.current

theorem Kept.receive {udp : Bool} (alone : RecyclesAlone receiver (.receive udp))
    (delivering : receiver.poll = .delivering idxUsed buf) :
    Kept
      { netReceiveDriverFrame receiver udp buf with
        poll := .scanning idxUsed
        ring.queue := (netReceiveDriverFrame receiver udp buf).ring.queue.advanceUsed
      } := by
  have bounded := kept.bounded
  obtain ⟨ring, netbuf, poll, queued, claimed, thread⟩ := receiver
  cases delivering
  cases udp with
  | true =>
    refine ⟨?_, kept.posted, ?_, kept.current⟩
    · refine kept.conserved.of_perm rfl (((?_ : List.Perm _ _).map _).append_left _)
      show
        (thread.recycled ++ (queued ++ [buf] ++ claimed)).Perm
          (buf :: (thread.recycled ++ (queued ++ claimed)))
      rw [append_assoc, singleton_append, ← append_assoc, ← append_assoc]
      exact perm_middle
    · intro bound same
      cases same
      exact kept.scanned idxUsed rfl
  | false =>
    have idle : thread = .idle := alone rfl
    subst idle
    refine ⟨?_, kept.posted, ?_, ?_⟩
    · have entered := Vring.entrusted_enqueue (rxbufDesc netbuf buf) bounded
      exact kept.conserved.of_perm rfl ((entered.append_right _).trans perm_middle.symm)
    · intro bound same
      cases same
      exact kept.scanned idxUsed rfl
    · intro other idx none
      cases none

theorem Kept.pollStart (idle : receiver.poll = .idle) :
    Kept
      { receiver with
        poll := .scanning receiver.ring.queue.usedIdx } := by
  obtain ⟨ring, netbuf, poll, queued, claimed, thread⟩ := receiver
  cases idle
  refine ⟨kept.conserved, kept.posted, ?_, kept.current⟩
  intro bound same
  cases same
  exact length_entries.ge

theorem Kept.pollReturn (scanning : receiver.poll = .scanning idxUsed) :
    Kept { receiver with poll := .idle } := by
  obtain ⟨ring, netbuf, poll, queued, claimed, thread⟩ := receiver
  cases scanning
  refine ⟨kept.conserved, kept.posted, ?_, kept.current⟩
  intro bound none
  cases none

theorem Kept.dequeue (waiting : buf ∈ receiver.queued) :
    Kept
      { receiver with
        queued := receiver.queued.erase buf
        claimed := buf :: receiver.claimed } := by
  refine ⟨?_, kept.posted, kept.scanned, kept.current⟩
  have same := perm_erase_append_cons waiting receiver.claimed
  exact kept.conserved.of_perm rfl ((((same.append_left _).append_left _).map _).append_left _)

theorem Kept.readIdx (idle : receiver.thread = .idle) (claims : buf ∈ receiver.claimed) :
    Kept
      { receiver with
        claimed := receiver.claimed.erase buf
        thread := .recycling buf receiver.ring.queue.availIdx } := by
  obtain ⟨ring, netbuf, poll, queued, claimed, thread⟩ := receiver
  cases idle
  refine ⟨?_, kept.posted, kept.scanned, ?_⟩
  · have same := perm_middle.symm.trans ((perm_cons_erase claims).symm.append_left queued)
    exact kept.conserved.of_perm rfl (((same.append_left _).map _).append_left _)
  · intro other idx reads
    cases reads
    rfl

theorem Kept.store {idx : BitVec 16} (alone : receiver.poll = .idle)
    (recycling : receiver.thread = .recycling buf idx) :
    Kept
      { receiver with
        thread := .idle
        ring.queue := virtioqStore receiver.ring.queue idx (rxbufDesc receiver.netbuf buf) } := by
  have bounded := kept.bounded
  have current : idx = receiver.ring.queue.availIdx := kept.current buf idx recycling
  subst current
  obtain ⟨ring, netbuf, poll, queued, claimed, thread⟩ := receiver
  cases alone
  have recycles : thread = .recycling buf ring.queue.availIdx := recycling
  subst recycles
  refine ⟨?_, kept.posted, ?_, ?_⟩
  · have entered := Vring.entrusted_enqueue (rxbufDesc netbuf buf) bounded
    exact kept.conserved.of_perm rfl ((entered.append_right _).trans perm_middle.symm)
  · intro bound none
    cases none
  · intro other idx none
    cases none

theorem Kept.step {event : Event} (alone : RecyclesAlone receiver event)
    (taken : perform receiver event = some target) : Kept target := by
  cases event with
  | device step =>
    obtain ⟨ready, ⟨⟩⟩ := Option.ite_none_right_eq_some.mp taken
    exact kept.device ready
  | pollStart =>
    simp only [perform] at taken
    split at taken
    case h_1 idle =>
      cases taken
      exact kept.pollStart idle
    case h_2 => cases taken
  | deliver =>
    simp only [perform] at taken
    split at taken
    case h_1 idxUsed scanning =>
      obtain ⟨pending, ⟨⟩⟩ := Option.ite_none_right_eq_some.mp taken
      exact kept.deliver scanning pending
    case h_2 => cases taken
  | receive udp =>
    simp only [perform] at taken
    split at taken
    case h_1 idxUsed buf delivering =>
      cases taken
      exact kept.receive alone delivering
    case h_2 => cases taken
  | pollReturn =>
    obtain ⟨scanning, ⟨⟩⟩ := Option.ite_none_right_eq_some.mp taken
    exact kept.pollReturn scanning
  | dequeue buf =>
    obtain ⟨⟨_, _, waiting⟩, ⟨⟩⟩ := Option.ite_none_right_eq_some.mp taken
    exact kept.dequeue waiting
  | readIdx buf =>
    obtain ⟨⟨_, idle, claims⟩, ⟨⟩⟩ := Option.ite_none_right_eq_some.mp taken
    exact kept.readIdx idle claims
  | store =>
    simp only [perform] at taken
    split at taken
    case h_1 buf idx between recycling =>
      cases taken
      exact kept.store between recycling
    case h_2 => cases taken

end Kept

/--
In every run in which no poll recycles a frame while the thread is inside
`virtioq_enqueue`, each posted descriptor is always in exactly one place.
-/
theorem conserved_of_recyclesAlone (reached : receiving.Reached RecyclesAlone receiver) :
    Conserved receiver := by
  have kept : Kept receiver := by
    refine System.Reached.invariant ?_ ?_ reached
    · rintro state ⟨order, netbuf, _, rfl⟩
      exact Kept.setup order netbuf
    · exact fun _ _ _ before alone taken => before.step alone taken
  exact kept.conserved

/-- The buffer of the first posted descriptor, with frames from 2 MiB on. -/
def firstBuf : BitVec 32 := frameBuf (frameAddr 0x200000 0)

/-- The device uses the next descriptor, and a poll hands it on. -/
def frameArrives (desc : Nat) (udp : Bool) : List Event :=
  [.device .take, .device (.publish desc), .pollStart, .deliver, .receive udp, .pollReturn]

/-- A UDP datagram is waited for and recycled; `meanwhile` interrupts. -/
def datagramRecycled (meanwhile : List Event) : List Event :=
  frameArrives 0 true ++ [.dequeue firstBuf, .readIdx firstBuf] ++ meanwhile ++ [.store]

/-- The steps that the condition on recycling allows. -/
def performAlone (receiver : Receiver) (event : Event) : Option Receiver :=
  if RecyclesAlone receiver event then perform receiver event else none

theorem setup_start : receiving.start (netVirtioSetup 2 0x200000) := ⟨2, 0x200000, by decide, rfl⟩

theorem conserved_after_datagram :
    ∃ receiver,
      performAll performAlone (netVirtioSetup 2 0x200000)
          (datagramRecycled [] ++ frameArrives 1 false) = some receiver ∧
      receiver.ring.available = [2, 0, 1] ∧ Conserved receiver := by
  obtain ⟨receiver, performed, available⟩ : ∃ receiver,
      performAll performAlone (netVirtioSetup 2 0x200000)
          (datagramRecycled [] ++ frameArrives 1 false) = some receiver ∧
        receiver.ring.available = [2, 0, 1] :=
    exists_of_any (by decide +kernel)
  refine ⟨receiver, performed, available, ?_⟩
  apply conserved_of_recyclesAlone
  refine System.Reached.performAll ?_ ?_ performed
  · exact fun _ _ _ taken => Option.ite_none_right_eq_some.mp taken
  · exact System.Reached.start setup_start

/--
A poll that recycles a frame after the thread has read `avail->idx` posts its
descriptor in the slot which the thread then overwrites.
-/
theorem descriptor_lost_by_interrupt :
    ¬ ∀ receiver, receiving.Reached unrestricted receiver → Conserved receiver := by
  intro conserved
  obtain ⟨receiver, performed, lost⟩ : ∃ receiver,
      performAll perform (netVirtioSetup 2 0x200000) (datagramRecycled (frameArrives 1 false)) =
        some receiver ∧ ¬ Conserved receiver :=
    exists_of_any (by decide +kernel)
  apply lost
  apply conserved
  refine System.Reached.performAll ?_ ?_ performed
  · exact fun _ _ _ taken => ⟨trivial, taken⟩
  · exact System.Reached.start setup_start

end Cosec.Dev.VirtioReceive
