import Cosec.Lib.Transition
import Cosec.Net.EchoReplies
import Cosec.Net.NeighborTables

/-!
# Hosts that talk to each other

Frames that hosts with this code transmit stay on the wire and may be
delivered to any host, in any order and any number of times.

No answer is answered, so that a frame from elsewhere brings about one more
frame at each host at most.  An ARP request with a zero hardware address is
answered, and the answer teaches the address.  `net_arp_send_whohas` puts the
broadcast address there instead: among themselves such hosts never learn an
address, except for what the DHCP client and the shell enter.
-/

namespace Cosec.Net.Exchanges

open Function Lib.ByteArrays Lib.Transition List Net.Checksums Net.EchoReplies Net.Frames
open Net.NeighborTables

universe u

variable {Host : Type u} {iface other : Iface} {frame : Nat → UInt8} {addr len : Nat}

/-- `net_arp_send_whohas`. -/
def netArpSendWhohas (iface : Iface) (ip : Octets 4) : Effect :=
  netArpSend iface 1 ip ethBroadcastMac

/-- The interface after an effect. -/
def apply (iface : Iface) (effect : Effect) : Iface :=
  { iface with
    neighbors := effect.neighbors
    neighborsHead := effect.neighborsHead }

/-! ## The fields of what is sent -/

/-- The fields of a frame that `net_arp_send` has filled. -/
structure ArpSent (iface : Iface) (op : Nat) (dstMac : Octets 6) (frame : Nat → UInt8) :
    Prop where
  ethertype : ntohs frame 12 = 0x0806
  op : ntohs frame 20 = op
  srcMac : octets frame 22 6 = iface.mac
  srcIp : octets frame 28 4 = iface.ipAddr
  dstMac : octets frame 32 6 = dstMac

theorem arpFrame_sent
    {op : Nat} (frame : Nat → UInt8) (word : op < 65536) (dstIp : Octets 4) (dstMac : Octets 6) :
    ArpSent iface op dstMac (arpFrame iface frame op dstIp dstMac) := by
  constructor
  · exact storeAll_ntohs 0 rfl (by simp [Misses]) (by decide) (by decide)
  · exact storeAll_ntohs 5 rfl (by simp [Misses]) (by decide) word
  · exact storeAll_octets 6 rfl (by simp [Misses]) (by decide)
  · exact storeAll_octets 7 rfl (by simp [Misses]) (by decide)
  · exact storeAll_octets 8 rfl (by simp [Misses]) (by decide)

/-- The fields lie between the addresses of a frame and its padding. -/
theorem ArpSent.agree {op : Nat} {dstMac : Octets 6} {later : Nat → UInt8}
    (sent : ArpSent iface op dstMac frame)
    (kept : ∀ addr, 12 ≤ addr → addr < 42 → later addr = frame addr) :
    ArpSent iface op dstMac later := by
  have field (start count : Nat) (behind : 12 ≤ start) (header : start + count ≤ 42) :
      octets later start count = octets frame start count := by
    funext index
    exact kept _ (by omega) (by omega)
  have word (start : Nat) (behind : 12 ≤ start) (header : start + 2 ≤ 42) :
      ntohs later start = ntohs frame start := by
    unfold ntohs
    rw [kept start behind (by omega), kept (start + 1) (by omega) (by omega)]
  constructor
  · rw [word 12 (by decide) (by decide), sent.ethertype]
  · rw [word 20 (by decide) (by decide), sent.op]
  · rw [field 22 6 (by decide) (by decide), sent.srcMac]
  · rw [field 28 4 (by decide) (by decide), sent.srcIp]
  · rw [field 32 6 (by decide) (by decide), sent.dstMac]

theorem arpSent_of_mem {op : Nat} {dstIp : Octets 4} {dstMac : Octets 6} {sent : Outgoing}
    (word : op < 65536) (member : sent ∈ (netArpSend iface op dstIp dstMac).transmitted) :
    ArpSent iface op dstMac sent.frame := by
  unfold netArpSend at member
  cases page : iface.frame with
  | none => simp [page, dropped] at member
  | some frame =>
    simp only [page, mem_singleton] at member
    subst member
    refine (arpFrame_sent frame word dstIp dstMac).agree fun addr behind header => ?_
    exact netTransmitFrame_frame behind (by omega) (Or.inl header)

/-- A reply is remembered. -/
theorem ArpSent.remembered {dstMac : Octets 6} (reply : ArpSent other 2 dstMac frame) :
    netReceiveDriverFrame iface frame = netNeighborRemember iface other.ipAddr other.mac := by
  unfold netReceiveDriverFrame netArpReceive
  rw [if_pos reply.ethertype, if_pos reply.op, reply.srcIp, reply.srcMac]

/-! ## Answers -/

theorem netNeighborRemember_silent (iface : Iface) (ip : Octets 4) (mac : Octets 6) :
    (netNeighborRemember iface ip mac).transmitted = [] := by
  unfold netNeighborRemember
  repeat' split
  all_goals rfl

/-- No interface answers an echo reply, which is no ARP frame. -/
theorem echoReply_unanswered {reply : Nat → UInt8} {src seq : Octets 4} {data : List UInt8}
    (bound : data.length < 65536) :
    ntohs (echoReply iface reply src seq data).frame 12 ≠ 0x0806 ∧
      (netReceiveDriverFrame other
        (echoReply iface reply src seq data).frame).transmitted = [] := by
  have made := netBufIcmp4Init_headers reply iface.ipAddr src 0 0 seq
  have byte (addr : Nat) (behind : 12 ≤ addr) (header : addr < 36)
      (lengthApart : addr < 16 ∨ 18 ≤ addr) (ipApart : addr < 24 ∨ 26 ≤ addr) :=
    @echoReply_header iface addr reply src seq data bound behind (by omega) lengthApart ipApart
      (by omega)
  have low : (echoReply iface reply src seq data).frame 13 = 0 := by
    have ethertype : 256 * (netBufIcmp4Init reply iface.ipAddr src 0 0 seq 12).toNat +
        (netBufIcmp4Init reply iface.ipAddr src 0 0 seq 13).toNat = 0x0800 := made.ethertype
    have bounded := (netBufIcmp4Init reply iface.ipAddr src 0 0 seq 13).toNat_lt
    rw [byte 13 (by decide) (by decide) (by decide) (by decide)]
    split
    · apply UInt8.toNat_inj.mp
      rw [UInt8.toNat_zero]
      omega
    · rfl
  generalize echoReply iface reply src seq data = answer at *
  have notArp : ntohs answer.frame 12 ≠ 0x0806 := by
    unfold ntohs
    rw [low, UInt8.toNat_zero]
    omega
  refine ⟨notArp, ?_⟩
  unfold netReceiveDriverFrame
  dsimp only
  rw [if_neg notArp]
  split
  · split
    · rename_i isIcmp
      rw [byte 23 (by decide) (by decide) (by decide) (by decide)] at isIcmp
      have inside : 23 < (42 + data.length) % 65536 := by
        by_contra padded
        rw [if_neg padded] at isIcmp
        cases isIcmp
      have start : icmpStart answer.frame = 34 := by
        rw [icmpStart, byte 14 (by decide) (by decide) (by decide) (by decide), if_pos (by omega),
          made.version]
        rfl
      have noRequest : answer.frame 34 ≠ 8 := by
        rw [byte 34 (by decide) (by decide) (by decide) (by decide), made.type, ite_self]
        decide
      rw [netIcmpReceive, start, if_neg noRequest]
      rfl
    · split <;> rfl
  · rfl

/-- What a received frame brings about. -/
theorem received_cases (iface : Iface) (frame : Nat → UInt8) :
    (ntohs frame 12 = 0x0806 ∧ ntohs frame 20 = 2 ∧
      netReceiveDriverFrame iface frame =
        netNeighborRemember iface (octets frame 28 4) (octets frame 22 6)) ∨
    (ntohs frame 12 = 0x0806 ∧ ntohs frame 20 = 1 ∧ octets frame 32 6 = ethInvalidMac ∧
      netReceiveDriverFrame iface frame =
        netArpSend iface 2 (octets frame 28 4) (octets frame 22 6)) ∨
    ((netReceiveDriverFrame iface frame).neighbors = iface.neighbors ∧
      ∀ sent ∈ (netReceiveDriverFrame iface frame).transmitted,
        ∃ reply src seq data, data.length < 65536 ∧ sent = echoReply iface reply src seq data) := by
  unfold netReceiveDriverFrame
  dsimp only
  split
  · rename_i isArp
    unfold netArpReceive
    split
    · exact Or.inl ⟨isArp, ‹_›, rfl⟩
    · split
      · rename_i request
        exact Or.inr (Or.inl ⟨isArp, request.1, request.2.1, rfl⟩)
      · exact Or.inr (Or.inr ⟨rfl, fun _ member => absurd member not_mem_nil⟩)
  · refine Or.inr (Or.inr ?_)
    unfold netIcmpReceive
    dsimp only
    split_ifs
    · cases page : iface.frame with
      | none => exact ⟨rfl, fun _ member => absurd member not_mem_nil⟩
      | some reply =>
        refine ⟨rfl, fun sent member => ⟨reply, _, _, payload frame, ?_, mem_singleton.mp member⟩⟩
        rw [length_payload]
        exact datalen_lt frame
    all_goals exact ⟨rfl, fun _ member => absurd member not_mem_nil⟩

/-- Whatever an interface transmits on receiving a frame, no interface answers it. -/
theorem answers_unanswered (iface other : Iface) (frame : Nat → UInt8) :
    ∀ sent ∈ (netReceiveDriverFrame iface frame).transmitted,
      (netReceiveDriverFrame other sent.frame).transmitted = [] := by
  intro sent member
  rcases received_cases iface frame with ⟨_, _, effect⟩ | ⟨_, _, _, effect⟩ | ⟨_, echoes⟩
  · rw [effect, netNeighborRemember_silent] at member
    cases member
  · rw [effect] at member
    rw [(arpSent_of_mem (by decide) member).remembered]
    exact netNeighborRemember_silent _ _ _
  · obtain ⟨_, _, _, _, bound, rfl⟩ := echoes sent member
    exact (echoReply_unanswered bound).2

/-- A request for the address of `answeringIface`. -/
def plainRequest (addr : Nat) : UInt8 :=
  if addr = 12 then 8 else if addr = 13 then 6 else if addr = 21 then 1
  else if 38 ≤ addr then 10 else 0

theorem answers_unanswered_plain :
    ∃ sent ∈ (netReceiveDriverFrame answeringIface plainRequest).transmitted,
      (netReceiveDriverFrame answeringIface sent.frame).transmitted = [] :=
  ⟨_, mem_cons_self, answers_unanswered answeringIface answeringIface plainRequest _ mem_cons_self⟩

/-- What was remembered last is found. -/
theorem lookup_remember {ip : Octets 4} (taken : Taken ip) (iface : Iface) (mac : Octets 6) :
    netNeighborLookupOn (remember iface (ip, mac)) ip = mac := by
  unfold remember netNeighborRemember
  dsimp only
  rw [if_neg taken.1, if_neg taken.2]
  cases found : findNeighbor iface ip with
  | some index =>
    have same :
        (fun other => decide ((update iface.neighbors index
          { iface.neighbors index with eth := mac } other).ip = ip)) =
          fun other => decide ((iface.neighbors other).ip = ip) := by
      funext other
      by_cases here : other = index
      · rw [here, update_self]
      · rw [update_of_ne here]
    unfold netNeighborLookupOn findNeighbor at *
    dsimp only
    rw [same, found]
    dsimp only
    rw [update_self]
  | none =>
    have known :
        (update iface.neighbors iface.neighborsHead ⟨ip, mac⟩ iface.neighborsHead).ip = ip := by
      rw [update_self]
    unfold netNeighborLookupOn
    split
    · rename_i index first
      by_cases here : index = iface.neighborsHead
      · rw [here]
        show (update iface.neighbors _ ⟨ip, mac⟩ _).eth = mac
        rw [update_self]
      · have entry := findNeighbor_ip first
        have absent := find?_eq_none.mp found index (mem_finRange index)
        dsimp only at entry
        rw [update_of_ne here] at entry
        exact absurd (decide_eq_true entry) absent
    · rename_i missing
      have absent := find?_eq_none.mp missing iface.neighborsHead (mem_finRange _)
      exact absurd (decide_eq_true known) absent

/--
An ARP request with a zero hardware address is answered with one frame, from
which any interface learns the address that was asked for.
-/
theorem answer_teaches {page : Nat → UInt8} (isArp : ntohs frame 12 = 0x0806)
    (request : ntohs frame 20 = 1) (asking : octets frame 32 6 = ethInvalidMac)
    (asked : octets frame 38 4 = other.ipAddr) (free : other.frame = some page)
    (taken : Taken other.ipAddr) (iface : Iface) :
    ∃ sent,
      (netReceiveDriverFrame other frame).transmitted = [sent] ∧
        netNeighborLookupOn (apply iface (netReceiveDriverFrame iface sent.frame)) other.ipAddr =
          other.mac := by
  have answered : netReceiveDriverFrame other frame =
      netArpSend other 2 (octets frame 28 4) (octets frame 22 6) := by
    unfold netReceiveDriverFrame netArpReceive
    rw [if_pos isArp, request, if_neg (by decide), if_pos ⟨rfl, asking, asked⟩]
  obtain ⟨sent, single⟩ : ∃ sent,
      (netArpSend other 2 (octets frame 28 4) (octets frame 22 6)).transmitted = [sent] := by
    unfold netArpSend
    rw [free]
    exact ⟨_, rfl⟩
  have reply := arpSent_of_mem (by decide) (single ▸ mem_singleton_self sent)
  refine ⟨sent, by rw [answered, single], ?_⟩
  rw [reply.remembered]
  exact lookup_remember taken iface other.mac

theorem answer_teaches_answering :
    ∃ sent,
      (netReceiveDriverFrame answeringIface plainRequest).transmitted = [sent] ∧
        netNeighborLookupOn (apply answeringIface (netReceiveDriverFrame answeringIface sent.frame))
          answeringIface.ipAddr = answeringIface.mac :=
  answer_teaches rfl rfl (by decide) (by decide) rfl (by decide) answeringIface

/-! ## Networks -/

/-- Hosts with their interfaces, and every frame transmitted so far. -/
structure Network (Host : Type u) where
  hosts : Host → Iface
  wire : List (Nat → UInt8)

/-- What a host does; `allocate` says what `transmit_frame_alloc` returns next. -/
inductive Action (Host : Type u) where
  | allocate (host : Host) (page : Option (Nat → UInt8))
  | whohas (host : Host) (ip : Octets 4)
  | transmit (host : Host) (frame : Nat → UInt8) (len : Nat)
  | receive (host : Host) (frame : Nat → UInt8)

variable [DecidableEq Host]

/-- The network after a host has changed its interface and sent frames. -/
def Network.after (net : Network Host) (host : Host) (iface : Iface) (sent : List Outgoing) :
    Network Host where
  hosts := update net.hosts host iface
  wire := sent.map Outgoing.frame ++ net.wire

/-- Hosts send ARP requests and IPv4 packets and receive what is on the wire. -/
def network (hosts : Host → Iface) : System (Network Host) (Action Host) where
  start net := net = ⟨hosts, []⟩
  step net action later :=
    match action with
    | .allocate host page => later = net.after host { net.hosts host with frame := page } []
    | .whohas host ip =>
      later = net.after host (net.hosts host) (netArpSendWhohas (net.hosts host) ip).transmitted
    | .transmit host frame len =>
      ntohs frame 12 = 0x0800 ∧ 14 ≤ len ∧
        later = net.after host (net.hosts host) [netTransmitFrame (net.hosts host) frame len]
    | .receive host frame =>
      let effect := netReceiveDriverFrame (net.hosts host) frame
      frame ∈ net.wire ∧ later = net.after host (apply (net.hosts host) effect) effect.transmitted

/-- A frame that no interface learns from, and whose answers are such frames. -/
def Harmless (frame : Nat → UInt8) : Prop :=
  ntohs frame 12 ≠ 0x0806 ∨ ntohs frame 20 = 1 ∧ octets frame 32 6 ≠ ethInvalidMac

theorem Harmless.received (harmless : Harmless frame) :
    (netReceiveDriverFrame iface frame).neighbors = iface.neighbors ∧
      ∀ sent ∈ (netReceiveDriverFrame iface frame).transmitted, Harmless sent.frame := by
  rcases received_cases iface frame with ⟨isArp, reply, _⟩ | ⟨isArp, _, zero, _⟩ | ⟨same, echoes⟩
  · cases reply.symm.trans (harmless.resolve_left (not_not.mpr isArp)).1
  · exact absurd zero (harmless.resolve_left (not_not.mpr isArp)).2
  · refine ⟨same, fun sent member => Or.inl ?_⟩
    obtain ⟨_, _, _, _, bound, rfl⟩ := echoes sent member
    exact (@echoReply_unanswered iface iface _ _ _ _ bound).1

/-- The tables are those of the start, and the wire is harmless. -/
structure Unlearned (hosts : Host → Iface) (net : Network Host) : Prop where
  tables : ∀ host, (net.hosts host).neighbors = (hosts host).neighbors
  wire : ∀ frame ∈ net.wire, Harmless frame

variable {hosts : Host → Iface} {net : Network Host}

theorem Unlearned.after (unlearned : Unlearned hosts net) {host : Host} {sent : List Outgoing}
    (same : iface.neighbors = (net.hosts host).neighbors)
    (harmless : ∀ frame ∈ sent, Harmless frame.frame) :
    Unlearned hosts (net.after host iface sent) where
  tables := by
    intro other
    show (update net.hosts host iface other).neighbors = _
    by_cases here : other = host
    · subst here
      rw [update_self, same, unlearned.tables]
    · rw [update_of_ne here, unlearned.tables]
  wire := by
    intro frame member
    rcases mem_append.mp member with new | old
    · obtain ⟨sent, isSent, rfl⟩ := mem_map.mp new
      exact harmless sent isSent
    · exact unlearned.wire frame old

theorem Unlearned.step {later : Network Host} {action : Action Host}
    (unlearned : Unlearned hosts net) (taken : (network hosts).step net action later) :
    Unlearned hosts later := by
  cases action with
  | allocate host page =>
    cases taken
    exact unlearned.after rfl fun _ member => absurd member not_mem_nil
  | whohas host ip =>
    cases taken
    refine unlearned.after rfl fun sent member => ?_
    have request := arpSent_of_mem (by decide) member
    refine Or.inr ⟨request.op, ?_⟩
    rw [request.dstMac]
    exact fun same => absurd (congrFun same 0) (by decide)
  | transmit host frame len =>
    obtain ⟨isIpv4, whole, rfl⟩ := taken
    refine unlearned.after rfl (forall_mem_singleton.mpr (Or.inl ?_))
    unfold ntohs at isIpv4 ⊢
    rw [netTransmitFrame_frame (by decide) (by decide) (by omega),
      netTransmitFrame_frame (by decide) (by decide) (by omega), isIpv4]
    decide
  | receive host frame =>
    obtain ⟨member, rfl⟩ := taken
    have received := @Harmless.received (net.hosts host) _ (unlearned.wire frame member)
    exact unlearned.after received.1 received.2

/--
Whatever hosts with this code send to each other, and in whatever order it is
delivered, their neighbour tables stay as they were.
-/
theorem tables_never_change (reached : (network hosts).Reached unrestricted net) (host : Host) :
    (net.hosts host).neighbors = (hosts host).neighbors := by
  have unlearned : Unlearned hosts net := by
    refine System.Reached.invariant ?_ (fun _ _ _ before _ => before.step) reached
    rintro _ rfl
    exact ⟨fun _ => rfl, fun _ member => absurd member not_mem_nil⟩
  exact unlearned.tables host

theorem tables_never_change_asked :
    ∃ net : Network Bool,
      (network fun _ => answeringIface).Reached unrestricted net ∧ net.wire ≠ [] ∧
        (net.hosts true).neighbors = answeringIface.neighbors := by
  have taken : (network fun _ : Bool => answeringIface).step ⟨fun _ => answeringIface, []⟩
      (.whohas true answeringIface.ipAddr) _ := rfl
  have asked := System.Reached.step (.start rfl) (show unrestricted _ _ from trivial) taken
  exact ⟨_, asked, cons_ne_nil _ _, tables_never_change asked true⟩

end Cosec.Net.Exchanges
