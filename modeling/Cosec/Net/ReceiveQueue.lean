import Mathlib.Data.List.Find
import Cosec.Lib.LinkedRing
import Cosec.Lib.Transition
import Cosec.Net.Frames

/-!
# The receive queue of the network stack

`net_receive_driver_frame` links a netbuf with a UDP datagram to the end of
`theNetwork.rxq` and gives every other netbuf back to its driver;
`net_wait_udp4` walks the queue and unlinks the first netbuf for a port.

A netbuf is its pointer: its links and its frame are functions of it.  The
loop of the walk carries fuel, and `none` means that it does not end.  The
driver fills a netbuf and passes it on only while it is not in the queue, and
interrupts do not come in the middle of a walk.
-/

namespace Cosec.Net.ReceiveQueue

open Function Lib.LinkedRing Lib.Transition List Net.Frames

variable {Netbuf : Type} [DecidableEq Netbuf]

/-! ## The queue in memory -/

/-- `theNetwork.rxq` and the fields of the netbufs. -/
structure NetworkStack (Netbuf : Type) where
  rxq : Option Netbuf
  next : Netbuf → Netbuf
  prev : Netbuf → Netbuf
  buf : Netbuf → Nat → UInt8

/-- The label `enqueue_netbuf`. -/
def enqueueNetbuf (stack : NetworkStack Netbuf) (qelem : Netbuf) : NetworkStack Netbuf :=
  match stack.rxq with
  | some rxq =>
    let prev := stack.prev rxq
    { stack with
      next := update (update stack.next qelem rxq) prev qelem
      prev := update (update stack.prev rxq qelem) qelem prev }
  | none =>
    { stack with
      rxq := some qelem
      next := update stack.next qelem qelem
      prev := update stack.prev qelem qelem }

/-- What `net_receive_driver_frame` does with its netbuf. -/
structure Reception (Netbuf : Type) where
  effect : Effect
  stack : NetworkStack Netbuf
  recycled : Nat

/-- `net_receive_driver_frame`, with the number of calls of `recycle`. -/
def netReceiveDriverFrame (iface : Iface) (stack : NetworkStack Netbuf) (qelem : Netbuf) :
    Reception Netbuf :=
  let effect := Frames.netReceiveDriverFrame iface (stack.buf qelem)
  if effect.queued then ⟨effect, enqueueNetbuf stack qelem, 0⟩
  else ⟨effect, stack, 1⟩

/-- The tests of `net_wait_udp4` on a frame. -/
def matchesPort (port : UInt16) (frame : Nat → UInt8) : Bool :=
  if ntohs frame 12 ≠ 0x0800 then false
  else if frame 23 ≠ 17 then false
  else if port ≠ 0 ∧ ntohs frame (icmpStart frame + 2) ≠ port.toNat then
    false
  else true

/-- The loop of `net_wait_udp4` from `cur` on. -/
def walk (stack : NetworkStack Netbuf) (port : UInt16) : Nat → Netbuf → Option (Option Netbuf)
  | 0, _ => none
  | fuel + 1, cur =>
    if matchesPort port (stack.buf cur) then some (some cur)
    else if some (stack.next cur) = stack.rxq then some none
    else walk stack port fuel (stack.next cur)

/-- `cur->next->prev = cur->prev; cur->prev->next = cur->next`. -/
def unlinkNetbuf (stack : NetworkStack Netbuf) (cur : Netbuf) : NetworkStack Netbuf :=
  let prev := update stack.prev (stack.next cur) (stack.prev cur)
  { stack with
    prev := prev
    next := update stack.next (prev cur) (stack.next cur) }

/-- A netbuf is removed from the queue. -/
def dequeueNetbuf (stack : NetworkStack Netbuf) (cur : Netbuf) : NetworkStack Netbuf :=
  if stack.rxq = some cur then
    if stack.next cur = cur then { stack with rxq := none }
    else
      let stack := unlinkNetbuf stack cur
      { stack with rxq := some (stack.next cur) }
  else
    unlinkNetbuf stack cur

/-- One walk of `net_wait_udp4`: `*nbuf`, and the queue it leaves. -/
def netWaitUdp4 (fuel : Nat) (stack : NetworkStack Netbuf) (port : UInt16) :
    Option (Option Netbuf × NetworkStack Netbuf) :=
  match stack.rxq with
  | none => some (none, stack)
  | some rxq =>
    match walk stack port fuel rxq with
    | none => none
    | some none => some (none, stack)
    | some (some cur) => some (some cur, dequeueNetbuf stack cur)

/-! ## Arrivals -/

/-- An IPv4 frame with a UDP datagram. -/
def isUdp (frame : Nat → UInt8) : Bool := ntohs frame 12 == 0x0800 && frame 23 == 17

/-- A netbuf that was received, and what has become of it. -/
structure Arrival (Netbuf : Type) where
  netbuf : Netbuf
  frame : Nat → UInt8
  recycled : Nat
  consumed : Bool

/-- A datagram that no walk has returned yet. -/
def Arrival.waiting (arrival : Arrival Netbuf) : Bool := isUdp arrival.frame && !arrival.consumed

/-- A datagram for a port; port `0` stands for all of them. -/
def Arrival.isFor (port : UInt16) (arrival : Arrival Netbuf) : Bool :=
  port == 0 || ntohs arrival.frame (icmpStart arrival.frame + 2) == port.toNat

/-- The datagram that waits in a netbuf is consumed. -/
def consume (netbuf : Netbuf) : List (Arrival Netbuf) → List (Arrival Netbuf)
  | [] => []
  | arrival :: rest =>
    if arrival.waiting && arrival.netbuf == netbuf then
      { arrival with consumed := true } :: rest
    else
      arrival :: consume netbuf rest

/-- The stack and everything it has received, oldest first. -/
structure Traffic (Netbuf : Type) where
  stack : NetworkStack Netbuf
  received : List (Arrival Netbuf)

/-- The datagrams received and not yet consumed, oldest first. -/
def Traffic.queue (traffic : Traffic Netbuf) : List (Arrival Netbuf) :=
  traffic.received.filter Arrival.waiting

/-- The netbufs of the datagrams received and not yet consumed. -/
def Traffic.netbufs (traffic : Traffic Netbuf) : List Netbuf := traffic.queue.map Arrival.netbuf

/-- A driver passes a netbuf on, or a thread walks the queue. -/
inductive Event (Netbuf : Type) where
  | receive (iface : Iface) (netbuf : Netbuf) (frame : Nat → UInt8)
  | wait (port : UInt16)

/-- The driver fills a netbuf and passes it on. -/
def Traffic.receive (traffic : Traffic Netbuf) (iface : Iface) (netbuf : Netbuf)
    (frame : Nat → UInt8) : Traffic Netbuf :=
  let filled :=
    { traffic.stack with
      buf := update traffic.stack.buf netbuf frame }
  let reception := netReceiveDriverFrame iface filled netbuf
  { stack := reception.stack
    received := traffic.received ++ [⟨netbuf, frame, reception.recycled, false⟩] }

/-- A walk has returned a netbuf, or none. -/
def Traffic.waited (traffic : Traffic Netbuf) (found : Option Netbuf)
    (stack : NetworkStack Netbuf) : Traffic Netbuf :=
  { stack := stack
    received := match found with
      | none => traffic.received
      | some netbuf => consume netbuf traffic.received }

/-- The interleavings of receptions and walks, from an empty queue on. -/
def receiving (Netbuf : Type) [DecidableEq Netbuf] : System (Traffic Netbuf) (Event Netbuf) where
  start traffic := traffic.stack.rxq = none ∧ traffic.received = []
  step traffic event target := match event with
    | .receive iface netbuf frame =>
      netbuf ∉ traffic.netbufs ∧ target = traffic.receive iface netbuf frame
    | .wait port =>
      ∃ fuel found stack,
        netWaitUdp4 fuel traffic.stack port = some (found, stack) ∧
          target = traffic.waited found stack

/-- `rxq` is a circular doubly linked list with these members, in order. -/
structure Represents (stack : NetworkStack Netbuf) (members : List Netbuf) : Prop where
  head : stack.rxq = members.head?
  ring : members ≠ [] → Circular stack.next stack.prev members
  distinct : members.Nodup

variable {stack : NetworkStack Netbuf} {members : List Netbuf}

omit [DecidableEq Netbuf] in
/-- The netbuf behind the last one is the first one. -/
theorem Represents.next_last
    {front : List Netbuf} {last : Netbuf} (represents : Represents stack (front ++ [last])) :
    some (stack.next last) = stack.rxq := by
  have nonempty : front ++ [last] ≠ [] := by simp
  have head := head?_eq_some_head nonempty
  rw [represents.head, head]
  congr 1
  exact ((circular_concat_iff head).mp (represents.ring nonempty)).2.1

omit [DecidableEq Netbuf] in
theorem Represents.next_of_cons {front rest : List Netbuf} {cur following : Netbuf}
    (represents : Represents stack (front ++ cur :: following :: rest)) :
    stack.next cur = following ∧ some following ≠ stack.rxq := by
  refine ⟨(represents.ring (by simp)).neighbours.1, ?_⟩
  have distinct := represents.distinct
  rw [represents.head]
  cases front with
  | nil =>
    intro same
    cases same
    simp at distinct
  | cons first front =>
    intro same
    cases same
    simp at distinct

theorem Represents.enqueue
    {qelem : Netbuf} (represents : Represents stack members) (absent : qelem ∉ members) :
    Represents (enqueueNetbuf stack qelem) (members ++ [qelem]) := by
  have distinct : (members ++ [qelem]).Nodup :=
    represents.distinct.append (nodup_singleton qelem) (disjoint_singleton.mpr absent)
  cases members with
  | nil =>
    have empty : stack.rxq = none := represents.head
    unfold enqueueNetbuf
    rw [empty]
    refine ⟨rfl, fun _ => ?_, distinct⟩
    refine (circular_concat_iff rfl).mpr ⟨?_, ?_, ?_⟩
    · exact List.IsChain.singleton qelem
    · exact update_self ..
    · exact update_self ..
  | cons first rest =>
    have occupied : stack.rxq = some first := represents.head
    unfold enqueueNetbuf
    rw [occupied]
    refine ⟨rfl, fun _ => ?_, distinct⟩
    exact (represents.ring (cons_ne_nil _ _)).link represents.distinct absent

variable {rest : List Netbuf}

theorem Represents.walk_eq (port : UInt16) :
    ∀ {front : List Netbuf} {cur : Netbuf} {fuel : Nat}, Represents stack (front ++ cur :: rest) →
      rest.length < fuel → walk stack port fuel cur = some ((cur :: rest).find? fun netbuf =>
          matchesPort port (stack.buf netbuf)) := by
  induction rest with
  | nil =>
    intro front cur fuel represents enough
    obtain ⟨fuel, rfl⟩ := Nat.exists_eq_succ_of_ne_zero (Nat.ne_zero_of_lt enough)
    rw [walk, if_pos represents.next_last, find?_cons]
    cases matchesPort port (stack.buf cur) with
    | true => rfl
    | false => rfl
  | cons following rest ih =>
    intro front cur fuel represents enough
    obtain ⟨fuel, rfl⟩ := Nat.exists_eq_succ_of_ne_zero (Nat.ne_zero_of_lt enough)
    obtain ⟨next, inside⟩ := represents.next_of_cons
    have later : Represents stack ((front ++ [cur]) ++ following :: rest) := by
      rwa [append_assoc]
    rw [walk, next, if_neg inside, ih later (Nat.lt_of_succ_lt_succ enough), find?_cons (a := cur)]
    cases matchesPort port (stack.buf cur) with
    | true => rfl
    | false => rfl

variable {cur : Netbuf}

theorem Represents.unlink {front : List Netbuf}
    (represents : Represents stack (front ++ cur :: rest)) (others : rest ++ front ≠ []) :
    Circular (unlinkNetbuf stack cur).next (unlinkNetbuf stack cur).prev (front ++ rest) ∧
      (unlinkNetbuf stack cur).next cur = stack.next cur := by
  have rotated := (represents.ring (by simp)).rotate
  have distinct : (cur :: rest ++ front).Nodup :=
    perm_append_comm.nodup_iff.mp represents.distinct
  have unlinked := rotated.unlink distinct others
  have away : ∀ member ∈ rest ++ front, cur ≠ member := by
    rintro member inside rfl
    exact (nodup_cons.mp distinct).1 inside
  obtain ⟨nextIs, prevIs⟩ := rotated.ends others
  have nextApart : cur ≠ stack.next cur := by
    rw [nextIs]
    exact away _ (head_mem others)
  have prevApart : cur ≠ stack.prev cur := by
    rw [prevIs]
    exact away _ (getLast_mem others)
  have prevKept : update stack.prev (stack.next cur) (stack.prev cur) cur = stack.prev cur :=
    update_of_ne nextApart ..
  unfold unlinkNetbuf
  simp only [prevKept]
  exact ⟨unlinked.rotate, update_of_ne prevApart ..⟩

theorem Represents.dequeue {front : List Netbuf}
    (represents : Represents stack (front ++ cur :: rest)) :
    Represents (dequeueNetbuf stack cur) (front ++ rest) := by
  have distinct : (front ++ rest).Nodup :=
    represents.distinct.sublist ((sublist_cons_self cur rest).append_left front)
  unfold dequeueNetbuf
  cases front with
  | nil =>
    have first : stack.rxq = some cur := represents.head
    rw [if_pos first]
    cases rest with
    | nil =>
      have single : Represents stack ([] ++ [cur]) := represents
      have alone : stack.next cur = cur := Option.some.inj (single.next_last.trans first)
      rw [if_pos alone]
      exact ⟨rfl, fun nonempty => absurd rfl nonempty, distinct⟩
    | cons following rest =>
      obtain ⟨next, inside⟩ := represents.next_of_cons
      have others : stack.next cur ≠ cur := by
        rw [next]
        rintro rfl
        exact inside first.symm
      obtain ⟨ring, kept⟩ := represents.unlink (by simp)
      rw [if_neg others]
      refine ⟨?_, fun _ => ring, distinct⟩
      show some ((unlinkNetbuf stack cur).next cur) = some following
      rw [kept, next]
  | cons first front =>
    have different : stack.rxq ≠ some cur := by
      rw [represents.head]
      intro same
      cases same
      have repeated := represents.distinct
      simp at repeated
    rw [if_neg different]
    exact ⟨represents.head, fun _ => (represents.unlink (by simp)).1, distinct⟩

variable (iface : Iface) (frame : Nat → UInt8)

theorem netArpReceive_queued : (netArpReceive iface frame).queued = false := by
  unfold netArpReceive netNeighborRemember netArpSend
  repeat' split
  all_goals rfl

theorem netIcmpReceive_queued : (netIcmpReceive iface frame).queued = false := by
  unfold netIcmpReceive
  dsimp only
  repeat' split
  all_goals rfl

/-- The handlers queue the frames that the walk looks for. -/
theorem queued_eq_isUdp : (Frames.netReceiveDriverFrame iface frame).queued = isUdp frame := by
  unfold Frames.netReceiveDriverFrame isUdp
  dsimp only
  split
  · rename_i arp
    simp [netArpReceive_queued, arp]
  · split
    · rename_i ipv4
      split
      · rename_i icmp
        simp [netIcmpReceive_queued, ipv4, icmp]
      · split
        · rename_i udp
          simp [ipv4, udp]
        · rename_i other
          simp [dropped, other]
    · rename_i other
      simp [dropped, other]

/-- A consumed datagram leaves the queue. -/
theorem filter_consume (netbuf : Netbuf) (received : List (Arrival Netbuf)) :
    (consume netbuf received).filter Arrival.waiting =
      (received.filter Arrival.waiting).eraseP fun arrival =>
        arrival.netbuf == netbuf := by
  induction received with
  | nil => rfl
  | cons arrival rest ih =>
    rw [consume]
    cases waits : arrival.waiting with
    | false => simp [waits, ih]
    | true =>
      by_cases here : arrival.netbuf = netbuf
      · have gone : ({ arrival with consumed := true } : Arrival Netbuf).waiting = false := by
          simp [Arrival.waiting]
        rw [if_pos (by simp [here]), filter_cons_of_neg
          (by simp [gone]), filter_cons_of_pos waits, eraseP_cons_of_pos (by simp [here])]
      · simp [waits, here, ih]

omit [DecidableEq Netbuf] in
/-- The walk takes a queued datagram for the one that its port asks for. -/
theorem matchesPort_eq_isFor
    {arrival : Arrival Netbuf} (waits : arrival.waiting = true) (port : UInt16) :
    matchesPort port arrival.frame = arrival.isFor port := by
  obtain ⟨⟨ethertype, proto⟩, _⟩ :
      (ntohs arrival.frame 12 = 0x0800 ∧ arrival.frame 23 = 17) ∧ arrival.consumed = false := by
    simpa [Arrival.waiting, isUdp] using waits
  unfold matchesPort Arrival.isFor
  rw [if_neg (not_not.mpr ethertype), if_neg (not_not.mpr proto)]
  by_cases anyPort : port = 0
  · simp [anyPort]
  · by_cases same : ntohs arrival.frame (icmpStart arrival.frame + 2) = port.toNat
    · simp [same]
    · simp [anyPort, same]

/-! ## What every step keeps -/

/-- The queue in memory is the list of the datagrams that wait. -/
structure Kept (traffic : Traffic Netbuf) : Prop where
  represents : Represents traffic.stack traffic.netbufs
  frames : ∀ arrival ∈ traffic.queue, traffic.stack.buf arrival.netbuf = arrival.frame
  handled : ∀ arrival ∈ traffic.received, arrival.recycled = if isUdp arrival.frame then 0 else 1

variable {traffic : Traffic Netbuf}

theorem enqueueNetbuf_buf (stack : NetworkStack Netbuf) (qelem : Netbuf) :
    (enqueueNetbuf stack qelem).buf = stack.buf := by
  unfold enqueueNetbuf
  split <;> rfl

theorem dequeueNetbuf_buf (stack : NetworkStack Netbuf) (cur : Netbuf) :
    (dequeueNetbuf stack cur).buf = stack.buf := by
  unfold dequeueNetbuf
  split
  · split <;> rfl
  · rfl

variable {netbuf : Netbuf}

/-- The arrival that a reception records. -/
def arrivalOf (netbuf : Netbuf) (frame : Nat → UInt8) : Arrival Netbuf where
  netbuf := netbuf
  frame := frame
  recycled := if isUdp frame then 0 else 1
  consumed := false

/-- A netbuf is received while the driver still holds it. -/
structure Accepted
    (traffic : Traffic Netbuf) (netbuf : Netbuf) (frame : Nat → UInt8)
    (later : Traffic Netbuf) : Prop where
  received : later.received = traffic.received ++ [arrivalOf netbuf frame]
  buf : later.stack.buf = update traffic.stack.buf netbuf frame
  represents :
    Represents later.stack (if isUdp frame then traffic.netbufs ++ [netbuf] else traffic.netbufs)

theorem Kept.accepted (kept : Kept traffic) (iface : Iface) (frame : Nat → UInt8)
    (absent : netbuf ∉ traffic.netbufs) :
    Accepted traffic netbuf frame (traffic.receive iface netbuf frame) := by
  have filled :
      Represents
        { traffic.stack with
          buf := update traffic.stack.buf netbuf frame }
        traffic.netbufs :=
    ⟨kept.represents.head, kept.represents.ring, kept.represents.distinct⟩
  unfold Traffic.receive netReceiveDriverFrame
  simp only [queued_eq_isUdp, update_self]
  cases udp : isUdp frame with
  | true =>
    refine ⟨by simp [arrivalOf, udp], enqueueNetbuf_buf _ netbuf, ?_⟩
    rw [udp]
    exact filled.enqueue absent
  | false =>
    refine ⟨by simp [arrivalOf, udp], rfl, ?_⟩
    rw [udp]
    exact filled

theorem Kept.receive {later : Traffic Netbuf} {frame : Nat → UInt8} (kept : Kept traffic)
    (absent : netbuf ∉ traffic.netbufs) (accepted : Accepted traffic netbuf frame later) :
    Kept later := by
  have queue : later.queue = if isUdp frame then traffic.queue ++ [arrivalOf netbuf frame]
      else traffic.queue := by
    unfold Traffic.queue
    rw [accepted.received, filter_append]
    cases udp : isUdp frame <;> simp [Arrival.waiting, arrivalOf, udp]
  have others : ∀ arrival ∈ traffic.queue, later.stack.buf arrival.netbuf = arrival.frame := by
    intro arrival waits
    have apart : arrival.netbuf ≠ netbuf := by
      rintro rfl
      exact absent (mem_map_of_mem waits)
    rw [accepted.buf, update_of_ne apart]
    exact kept.frames arrival waits
  constructor
  · have represents := accepted.represents
    unfold Traffic.netbufs
    rw [queue]
    cases udp : isUdp frame with
    | true =>
      rw [udp] at represents
      simpa [Traffic.netbufs, arrivalOf] using represents
    | false =>
      rw [udp] at represents
      simpa [Traffic.netbufs] using represents
  · intro arrival waits
    rw [queue] at waits
    split at waits
    · rcases mem_append.mp waits with earlier | newest
      · exact others arrival earlier
      · rw [mem_singleton.mp newest, accepted.buf]
        exact update_self ..
    · exact others arrival waits
  · intro arrival member
    rw [accepted.received, mem_append, mem_singleton] at member
    rcases member with earlier | rfl
    · exact kept.handled arrival earlier
    · rfl

/-! ## Walks -/

variable {port : UInt16} {fuel : Nat} {found : Option Netbuf}

/-- A walk that has ended does not depend on the fuel that is left. -/
theorem walk_mono {more : Nat} (ended : walk stack port fuel cur = some found)
    (enough : fuel ≤ more) : walk stack port more cur = some found := by
  induction fuel generalizing more cur with
  | zero => cases ended
  | succ fuel ih =>
    obtain ⟨more, rfl⟩ := Nat.exists_eq_succ_of_ne_zero (Nat.ne_zero_of_lt enough)
    rw [walk] at ended ⊢
    split
    · rename_i fits
      rwa [if_pos fits] at ended
    · rename_i differs
      rw [if_neg differs] at ended
      split
      · rename_i last
        rwa [if_pos last] at ended
      · rename_i inside
        rw [if_neg inside] at ended
        exact ih ended (Nat.le_of_succ_le_succ enough)

/-- The outcome of a walk over datagrams that wait. -/
structure Served
    (traffic : Traffic Netbuf) (port : UInt16)
    (found : Option Netbuf) (stack : NetworkStack Netbuf) : Prop where
  oldest : found = (traffic.queue.find? (Arrival.isFor port)).map Arrival.netbuf
  others : Represents stack ((traffic.queue.eraseP (Arrival.isFor port)).map Arrival.netbuf)
  buf : stack.buf = traffic.stack.buf

omit [DecidableEq Netbuf] in
/-- A datagram in the queue, those before it and those behind it. -/
theorem eraseP_of_find
    {queue : List (Arrival Netbuf)} {test : Arrival Netbuf → Bool} {arrival : Arrival Netbuf}
    (found : queue.find? test = some arrival) :
    ∃ front rest, queue = front ++ arrival :: rest ∧ queue.eraseP test = front ++ rest := by
  obtain ⟨fits, front, rest, rfl, earlier⟩ := find?_eq_some_iff_append.mp found
  refine ⟨front, rest, rfl, ?_⟩
  rw [eraseP_append_right _ (by simpa using earlier), eraseP_cons_of_pos fits]

/-- What a walk over a well-formed queue returns. -/
theorem Represents.netWaitUdp4_eq {later : NetworkStack Netbuf}
    (represents : Represents stack members)
    (returned : netWaitUdp4 fuel stack port = some (found, later)) :
    (found = members.find? fun netbuf =>
        matchesPort port (stack.buf netbuf)) ∧
      later = found.elim stack (dequeueNetbuf stack) := by
  unfold netWaitUdp4 at returned
  rw [represents.head] at returned
  cases members with
  | nil =>
    cases returned
    exact ⟨rfl, rfl⟩
  | cons first rest =>
    have whole : Represents stack ([] ++ first :: rest) := represents
    have walked := whole.walk_eq port (Nat.lt_add_left fuel (Nat.lt_succ_self _))
    simp only [head?_cons] at returned
    cases outcome : walk stack port fuel first with
    | none =>
      rw [outcome] at returned
      cases returned
    | some ended =>
      rw [walk_mono outcome (Nat.le_add_right fuel _), Option.some.injEq] at walked
      rw [outcome] at returned
      rw [← walked]
      cases ended with
      | none =>
        cases returned
        exact ⟨rfl, rfl⟩
      | some cur =>
        cases returned
        exact ⟨rfl, rfl⟩

/-- A walk over a well-formed queue ends. -/
theorem Represents.netWaitUdp4_returns (represents : Represents stack members) (port : UInt16) :
    ∃ found later, netWaitUdp4 members.length stack port = some (found, later) := by
  unfold netWaitUdp4
  rw [represents.head]
  cases members with
  | nil => exact ⟨none, stack, rfl⟩
  | cons first rest =>
    have whole : Represents stack ([] ++ first :: rest) := represents
    have walked := whole.walk_eq port (Nat.lt_succ_self rest.length)
    simp only [head?_cons, length_cons]
    rw [walked]
    cases (first :: rest).find? fun netbuf =>
        matchesPort port (stack.buf netbuf) with
    | none => exact ⟨none, stack, rfl⟩
    | some cur => exact ⟨some cur, dequeueNetbuf stack cur, rfl⟩

theorem Kept.served (kept : Kept traffic)
    (returned : netWaitUdp4 fuel traffic.stack port = some (found, stack)) :
    Served traffic port found stack := by
  obtain ⟨foundIs, rfl⟩ := kept.represents.netWaitUdp4_eq returned
  -- The first netbuf that the tests accept holds the oldest datagram.
  have oldest : (traffic.netbufs.find? fun netbuf => matchesPort port (traffic.stack.buf netbuf)) =
      (traffic.queue.find? (Arrival.isFor port)).map Arrival.netbuf := by
    unfold Traffic.netbufs
    rw [find?_map]
    congr 1
    apply find?_congr
    intro arrival member
    have waits : arrival.waiting = true := (mem_filter.mp member).2
    rw [Function.comp_apply, kept.frames arrival member, matchesPort_eq_isFor waits]
  rw [oldest] at foundIs
  subst foundIs
  cases search : traffic.queue.find? (Arrival.isFor port) with
  | none =>
    refine ⟨by rw [search], ?_, rfl⟩
    rw [eraseP_of_forall_not (find?_eq_none.mp search)]
    exact kept.represents
  | some arrival =>
    obtain ⟨front, rest, split, erased⟩ := eraseP_of_find search
    refine ⟨by rw [search], ?_, dequeueNetbuf_buf _ _⟩
    have represents := kept.represents
    unfold Traffic.netbufs at represents
    rw [split, map_append, map_cons] at represents
    rw [erased, map_append]
    exact represents.dequeue

/-- The queue after a walk, with the datagram that it took. -/
theorem Kept.queue_waited (kept : Kept traffic) (served : Served traffic port found stack) :
    (traffic.waited found stack).queue = traffic.queue.eraseP (Arrival.isFor port) := by
  rw [served.oldest]
  cases search : traffic.queue.find? (Arrival.isFor port) with
  | none =>
    rw [eraseP_of_forall_not (find?_eq_none.mp search)]
    rfl
  | some arrival =>
    obtain ⟨front, rest, split, erased⟩ := eraseP_of_find search
    have taken :
        (traffic.waited (some arrival.netbuf) stack).queue = traffic.queue.eraseP fun other =>
            other.netbuf == arrival.netbuf :=
      filter_consume arrival.netbuf traffic.received
    have distinct := kept.represents.distinct
    unfold Traffic.netbufs at distinct
    rw [split, map_append, map_cons] at distinct
    have earlier : ∀ other ∈ front, ¬ (other.netbuf == arrival.netbuf) = true := by
      intro other member same
      have equal := beq_iff_eq.mp same
      exact (nodup_append.mp distinct).2.2 other.netbuf
        (mem_map_of_mem member) arrival.netbuf (mem_cons_self ..) equal
    rw [erased]
    refine taken.trans ?_
    rw [split, eraseP_append_right _ earlier]
    simp

/-- A walk only marks the datagram that it takes. -/
theorem mem_consume {received : List (Arrival Netbuf)} {arrival : Arrival Netbuf}
    (member : arrival ∈ consume netbuf received) :
    ∃ before ∈ received, arrival.frame = before.frame ∧ arrival.recycled = before.recycled := by
  induction received with
  | nil => cases member
  | cons first rest ih =>
    rw [consume] at member
    split at member
    · rcases mem_cons.mp member with rfl | later
      · exact ⟨first, mem_cons_self .., rfl, rfl⟩
      · exact ⟨arrival, mem_cons_of_mem _ later, rfl, rfl⟩
    · rcases mem_cons.mp member with rfl | later
      · exact ⟨arrival, mem_cons_self .., rfl, rfl⟩
      · obtain ⟨before, inside, same⟩ := ih later
        exact ⟨before, mem_cons_of_mem _ inside, same⟩

theorem Kept.wait (kept : Kept traffic) (served : Served traffic port found stack) :
    Kept (traffic.waited found stack) := by
  have queue := kept.queue_waited served
  constructor
  · unfold Traffic.netbufs
    rw [queue]
    exact served.others
  · intro arrival member
    rw [queue] at member
    have before := mem_of_mem_eraseP member
    exact (congrFun served.buf _).trans (kept.frames arrival before)
  · intro arrival member
    cases found with
    | none => exact kept.handled arrival member
    | some netbuf =>
      obtain ⟨before, inside, frame, recycled⟩ := mem_consume member
      rw [recycled, frame]
      exact kept.handled before inside

omit [DecidableEq Netbuf] in
theorem kept_of_empty (empty : traffic.stack.rxq = none) (nothing : traffic.received = []) :
    Kept traffic := by
  have noQueue : traffic.queue = [] := by simp [Traffic.queue, nothing]
  have noNetbufs : traffic.netbufs = [] := by simp [Traffic.netbufs, noQueue]
  constructor
  · rw [noNetbufs]
    exact ⟨empty, fun nonempty => absurd rfl nonempty, nodup_nil⟩
  · rw [noQueue]
    intro arrival member
    cases member
  · rw [nothing]
    intro arrival member
    cases member

theorem kept_of_reached (reached : (receiving Netbuf).Reached unrestricted traffic) :
    Kept traffic := by
  refine System.Reached.invariant ?_ ?_ reached
  · rintro state ⟨empty, nothing⟩
    exact kept_of_empty empty nothing
  · intro source event target kept _ taken
    cases event with
    | receive iface netbuf frame =>
      obtain ⟨absent, rfl⟩ := taken
      exact kept.receive absent (kept.accepted iface frame absent)
    | wait port =>
      obtain ⟨fuel, found, stack, returned, rfl⟩ := taken
      exact kept.wait (kept.served returned)

/-! ## The queue in every run -/

/-- The receive queue as a queue of datagrams. -/
structure Orderly (traffic : Traffic Netbuf) : Prop where
  queue : Represents traffic.stack traffic.netbufs
  handled : ∀ arrival ∈ traffic.received, arrival.recycled = if isUdp arrival.frame then 0 else 1
  receives :
    ∀ (iface : Iface) (netbuf : Netbuf) (frame : Nat → UInt8), netbuf ∉ traffic.netbufs →
      Accepted traffic netbuf frame (traffic.receive iface netbuf frame)
  waits :
    ∀ port : UInt16,
      ∃ fuel found stack,
        netWaitUdp4 fuel traffic.stack port = some (found, stack) ∧ Served traffic port found stack

/--
After any receptions and walks, the queue in memory is a circular list of the
datagrams received and not yet consumed, oldest first.  Every netbuf was
either queued or recycled, the next one will be, and the next walk ends and
takes the oldest datagram for its port.
-/
theorem rxq_orderly (reached : (receiving Netbuf).Reached unrestricted traffic) :
    Orderly traffic := by
  have kept := kept_of_reached reached
  refine ⟨kept.represents, kept.handled, ?_, ?_⟩
  · intro iface netbuf frame absent
    exact kept.accepted iface frame absent
  · intro port
    obtain ⟨found, stack, returned⟩ := kept.represents.netWaitUdp4_returns port
    exact ⟨_, found, stack, returned, kept.served returned⟩

/-- An interface without an address, a neighbour or a frame to send. -/
def idleIface : Iface where
  ipAddr := fun _ => 0
  mac := fun _ => 0
  neighbors := fun _ => ⟨fun _ => 0, fun _ => 0⟩
  neighborsHead := Fin.last 7
  frame := none

/-- A frame with a UDP datagram for a port below 256. -/
def datagram (port : UInt8) : Nat → UInt8
  | 12 => 0x08
  | 14 => 0x45
  | 23 => 17
  | 37 => port
  | _ => 0

/-- A stack that has received nothing. -/
def silence : Traffic Nat where
  stack := ⟨none, fun _ => 0, fun _ => 0, fun _ _ => 0⟩
  received := []

/-- A datagram in a netbuf that is not in the queue is received. -/
theorem reached_receive {netbuf : Nat} {port : UInt8} {traffic : Traffic Nat}
    (reached : (receiving Nat).Reached unrestricted traffic) (absent : netbuf ∉ traffic.netbufs) :
    (receiving Nat).Reached unrestricted (traffic.receive idleIface netbuf (datagram port)) := by
  have taken :
      (receiving Nat).step traffic (.receive idleIface netbuf (datagram port))
        (traffic.receive idleIface netbuf (datagram port)) :=
    ⟨absent, rfl⟩
  exact reached.step trivial taken

/-- Datagrams for the ports 53, 67 and 53 again. -/
def threeDatagrams : Traffic Nat :=
  ((silence.receive idleIface 1 (datagram 53)).receive idleIface 2
    (datagram 67)).receive idleIface 3 (datagram 53)

theorem rxq_orderly_sample :
    ∃ traffic : Traffic Nat, traffic.netbufs = [1, 3] ∧ Orderly traffic := by
  have start : (receiving Nat).Reached unrestricted silence := .start ⟨rfl, rfl⟩
  have queued : (receiving Nat).Reached unrestricted threeDatagrams :=
    reached_receive (reached_receive (reached_receive start (by decide)) (by decide)) (by decide)
  have walked : walk threeDatagrams.stack 67 3 1 = some (some 2) := by decide
  have head : threeDatagrams.stack.rxq = some 1 := by decide
  have returned :
      netWaitUdp4 3 threeDatagrams.stack 67 =
        some (some 2, dequeueNetbuf threeDatagrams.stack 2) := by
    unfold netWaitUdp4
    rw [head]
    simp only
    rw [walked]
  have taken :
      (receiving Nat).step threeDatagrams (.wait 67)
        (threeDatagrams.waited (some 2) (dequeueNetbuf threeDatagrams.stack 2)) :=
    ⟨3, some 2, _, returned, rfl⟩
  exact ⟨_, by decide, rxq_orderly (queued.step trivial taken)⟩

end Cosec.Net.ReceiveQueue
