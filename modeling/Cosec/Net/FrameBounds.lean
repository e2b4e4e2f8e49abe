import Mathlib.Data.Finset.Card
import Mathlib.Data.Finset.Range
import Cosec.Lib.Prefixes
import Cosec.Net.EchoReplies

/-!
# Frames are read past their length

What a received frame brings about should depend on its first `len` bytes
only.  The handlers do not check the length, so this holds exactly when every
byte that matters lies below it.  `WithinLength` says which these are: the
type of the frame, then the operation and addresses of an ARP packet, or the
protocol of an IP packet and the header, addresses and payload of an echo
request.
-/

namespace Cosec.Net.FrameBounds

open Function Lib.Prefixes List Net.EchoReplies Net.Frames

/-! ## The condition -/

/-- A byte below the length shows that an ARP request asks someone else. -/
def AsksOther (iface : Iface) (frame : Nat → UInt8) (len : Nat) : Prop :=
  (∃ index : Fin 6, 32 + index.val < len ∧ frame (32 + index) ≠ 0) ∨
    ∃ index : Fin 4, 38 + index.val < len ∧ frame (38 + index) ≠ iface.ipAddr index

/-- The bytes of an ARP packet that matter lie below the length. -/
def ArpWithin (iface : Iface) (frame : Nat → UInt8) (len : Nat) : Prop :=
  (len = 21 ∧ frame 20 ≠ 0) ∨
    (22 ≤ len ∧ (ntohs frame 20 = 2 → 32 ≤ len) ∧
      (ntohs frame 20 = 1 → 42 ≤ len ∨ iface.frame = none ∨ AsksOther iface frame len))

/-- The bytes of an ICMP packet that matter lie below the length. -/
def IcmpWithin (iface : Iface) (frame : Nat → UInt8) (len : Nat) : Prop :=
  iface.frame = none ∨
    (icmpStart frame < len ∧
      (frame (icmpStart frame) = 8 →
        icmpStart frame + 1 < len ∧
          (frame (icmpStart frame + 1) = 0 → 30 ≤ len ∧ icmpStart frame + 8 + datalen frame ≤ len)))

/-- The bytes of a frame that matter lie below its length. -/
def WithinLength (iface : Iface) (frame : Nat → UInt8) (len : Nat) : Prop :=
  (len = 13 ∧ frame 12 ≠ 8) ∨
    (14 ≤ len ∧ (ntohs frame 12 = 0x0806 → ArpWithin iface frame len) ∧
      (ntohs frame 12 = 0x0800 → 24 ≤ len ∧ (frame 23 = 1 → IcmpWithin iface frame len)))

/-- The effect depends on the frame, and no more than it is copied. -/
def Confined (iface : Iface) (frame : Nat → UInt8) (len : Nat) : Prop :=
  Determined (netReceiveDriverFrame iface) frame len ∧
    (netReceiveDriverFrame iface frame).copied ≤ len

variable {iface : Iface} {frame other : Nat → UInt8} {len : Nat}

section Agreeing

variable (agree : AgreeBelow len frame other)

include agree

theorem ntohs_agree {start : Nat} (below : start + 2 ≤ len) :
    ntohs other start = ntohs frame start := by
  unfold ntohs
  rw [agree start (by omega), agree (start + 1) (by omega)]

theorem octets_agree {start count : Nat} (below : start + count ≤ len) :
    octets other start count = octets frame start count := by
  funext index
  apply agree
  omega

theorem icmpStart_agree (below : 15 ≤ len) : icmpStart other = icmpStart frame := by
  unfold icmpStart
  rw [agree 14 (by omega)]

theorem datalen_agree (below : 18 ≤ len) : datalen other = datalen frame := by
  unfold datalen
  rw [agree 14 (by omega), ntohs_agree agree (by omega)]

theorem payload_agree (below : 18 ≤ len) (inside : icmpStart frame + 8 + datalen frame ≤ len) :
    payload other = payload frame := by
  unfold payload
  rw [datalen_agree agree below, icmpStart_agree agree (by omega)]
  apply map_congr_left
  intro index member
  apply agree
  have bound := mem_range.mp member
  omega

theorem netArpReceive_agree (within : ArpWithin iface frame len) :
    netArpReceive iface other = netArpReceive iface frame := by
  unfold netArpReceive
  rcases within with ⟨short, odd⟩ | ⟨enough, reply, request⟩
  · have large (memory : Nat → UInt8) (nonzero : memory 20 ≠ 0) :
        ntohs memory 20 ≠ 2 ∧ ntohs memory 20 ≠ 1 := by
      have positive : (memory 20).toNat ≠ 0 := by
        intro zero
        exact nonzero (UInt8.toNat_inj.mp zero)
      unfold ntohs
      omega
    have here := large frame odd
    have there := large other (by rw [agree 20 (by omega)]; exact odd)
    rw [if_neg here.1, if_neg there.1, if_neg (fun both => there.2 both.1),
      if_neg (fun both => here.2 both.1)]
  · rw [ntohs_agree agree (by omega)]
    by_cases isReply : ntohs frame 20 = 2
    · have bound := reply isReply
      rw [if_pos isReply, if_pos isReply, octets_agree agree (by omega),
        octets_agree agree (by omega)]
    · rw [if_neg isReply, if_neg isReply]
      by_cases isRequest : ntohs frame 20 = 1
      · rcases request isRequest with bound | noFrame | apart
        · rw [octets_agree agree (by omega), octets_agree agree (by omega),
            octets_agree agree (by omega), octets_agree agree (by omega)]
        · have quiet (ip : Octets 4) (mac : Octets 6) :
              netArpSend iface 2 ip mac = dropped iface := by
            unfold netArpSend
            rw [noFrame]
          rw [quiet, quiet, ite_self, ite_self]
        · have silent (memory : Nat → UInt8) (same : AgreeBelow len frame memory) :
              ¬ (ntohs frame 20 = 1 ∧ octets memory 32 6 = ethInvalidMac ∧
                octets memory 38 4 = iface.ipAddr) := by
            rintro ⟨_, noMac, ownIp⟩
            rcases apart with ⟨index, below, byte⟩ | ⟨index, below, byte⟩
            · rw [← same _ below] at byte
              exact byte (congrFun noMac index)
            · rw [← same _ below] at byte
              exact byte (congrFun ownIp index)
          rw [if_neg (silent other agree), if_neg (silent frame (agreeBelow_refl _ _))]
      · rw [if_neg (fun both => isRequest both.1), if_neg (fun both => isRequest both.1)]

theorem netIcmpReceive_agree (enough : 24 ≤ len) (within : IcmpWithin iface frame len) :
    netIcmpReceive iface other = netIcmpReceive iface frame := by
  unfold netIcmpReceive
  rcases within with noFrame | ⟨typeBelow, echo⟩
  · simp only [noFrame, ite_self]
  · simp only [icmpStart_agree agree (by omega), agree _ typeBelow]
    by_cases isEcho : frame (icmpStart frame) = 8
    · obtain ⟨codeBelow, reply⟩ := echo isEcho
      simp only [isEcho, if_true, agree _ codeBelow]
      by_cases plain : frame (icmpStart frame + 1) = 0
      · obtain ⟨srcBelow, inside⟩ := reply plain
        simp only [plain, if_true, datalen_agree agree (by omega),
          payload_agree agree (by omega) inside, octets_agree agree (show 26 + 4 ≤ len by omega),
          octets_agree agree (show icmpStart frame + 4 + 4 ≤ len by omega)]
      · simp only [plain, if_false]
    · simp only [isEcho, if_false]

end Agreeing

/-- No more than `datalen` bytes are copied, and only for an echo. -/
theorem netIcmpReceive_copied
    (within : IcmpWithin iface frame len) : (netIcmpReceive iface frame).copied ≤ len := by
  unfold netIcmpReceive
  simp only
  split
  · rename_i isEcho
    split
    · rename_i plain
      split
      · exact Nat.zero_le _
      · rename_i reply given
        rcases within with noFrame | ⟨_, echo⟩
        · rw [noFrame] at given
          cases given
        · have inside := ((echo isEcho).2 plain).2
          show datalen frame ≤ len
          omega
    · exact Nat.zero_le _
  · exact Nat.zero_le _

/-- A frame whose type starts with another byte than `8` is dropped. -/
theorem netReceiveDriverFrame_of_first (iface : Iface) (first : frame 12 ≠ 8) :
    netReceiveDriverFrame iface frame = dropped iface := by
  have different : (frame 12).toNat ≠ 8 := by
    intro equal
    exact first (UInt8.toNat_inj.mp equal)
  have bound := (frame (12 + 1)).toNat_lt
  unfold netReceiveDriverFrame ntohs
  rw [if_neg (by omega), if_neg (by omega)]

theorem confined_of_withinLength (within : WithinLength iface frame len) :
    Confined iface frame len := by
  rcases within with ⟨short, first⟩ | ⟨enough, arp, ipv4⟩
  · constructor
    · intro other agree
      rw [netReceiveDriverFrame_of_first iface first]
      apply netReceiveDriverFrame_of_first
      rw [agree 12 (by omega)]
      exact first
    · rw [netReceiveDriverFrame_of_first iface first]
      exact Nat.zero_le _
  · constructor
    · intro other agree
      unfold netReceiveDriverFrame
      simp only [ntohs_agree agree (show 12 + 2 ≤ len by omega)]
      by_cases isArp : ntohs frame 12 = 0x0806
      · simp only [isArp, if_true]
        exact netArpReceive_agree agree (arp isArp)
      · simp only [isArp, if_false]
        by_cases isIpv4 : ntohs frame 12 = 0x0800
        · obtain ⟨header, icmp⟩ := ipv4 isIpv4
          simp only [isIpv4, if_true, agree 23 (show 23 < len by omega)]
          by_cases isIcmp : frame 23 = 1
          · simp only [isIcmp, if_true]
            exact netIcmpReceive_agree agree header (icmp isIcmp)
          · simp only [isIcmp, if_false]
        · simp only [isIpv4, if_false]
    · unfold netReceiveDriverFrame
      simp only
      split
      · unfold netArpReceive netNeighborRemember netArpSend
        repeat' split
        all_goals exact Nat.zero_le _
      · split
        · rename_i isIpv4
          split
          · rename_i isIcmp
            exact netIcmpReceive_copied ((ipv4 isIpv4).2 isIcmp)
          · split
            · exact Nat.zero_le _
            · exact Nat.zero_le _
        · exact Nat.zero_le _

/-! ## Frames that are told apart -/

theorem exists_fresh_byte (used : List UInt8) (few : used.length < 256) : ∃ byte, byte ∉ used := by
  have fewer : (used.map UInt8.toNat).toFinset.card < (Finset.range 256).card := by
    rw [Finset.card_range]
    refine lt_of_le_of_lt (toFinset_card_le _) ?_
    rwa [length_map]
  obtain ⟨number, inRange, unused⟩ := Finset.exists_mem_notMem_of_card_lt_card fewer
  refine ⟨UInt8.ofNat number, ?_⟩
  intro member
  apply unused
  rw [mem_toFinset, mem_map]
  refine ⟨UInt8.ofNat number, member, ?_⟩
  rw [UInt8.toNat_ofNat', Nat.mod_eq_of_lt (Finset.mem_range.mp inRange)]

theorem netReceiveDriverFrame_udp (iface : Iface) (isIpv4 : ntohs frame 12 = 0x0800)
    (isUdp : frame 23 = 17) : (netReceiveDriverFrame iface frame).queued = true := by
  unfold netReceiveDriverFrame
  simp [isIpv4, isUdp]

theorem netReceiveDriverFrame_arp (iface : Iface) (isArp : ntohs frame 12 = 0x0806) :
    netReceiveDriverFrame iface frame = netArpReceive iface frame := by
  unfold netReceiveDriverFrame
  simp [isArp]

/-! ### ARP -/

/-- The entry that the next new neighbour takes. -/
def nextIp (iface : Iface) (effect : Effect) : Octets 4 := (effect.neighbors iface.neighborsHead).ip

/-- The next entry keeps its address or takes the one remembered. -/
theorem nextIp_remember (addr : Octets 4) (mac : Octets 6) :
    nextIp iface (netNeighborRemember iface addr mac) = (iface.neighbors iface.neighborsHead).ip ∨
      nextIp iface (netNeighborRemember iface addr mac) = addr := by
  unfold netNeighborRemember
  split
  · exact Or.inl rfl
  · split
    · exact Or.inl rfl
    · split
      · rename_i index found
        apply Or.inl
        by_cases here : iface.neighborsHead = index
        · subst here
          simp [nextIp]
        · simp [nextIp, update_of_ne here]
      · apply Or.inr
        simp [nextIp]

/-- A byte for an address that is not in the table. -/
theorem exists_unknown_byte (iface : Iface) (byte : UInt8) :
    ∃ fresh : UInt8,
      fresh ≠ 0 ∧ fresh ≠ 0xff ∧ fresh ≠ byte ∧ ∀ index, (iface.neighbors index).ip 3 ≠ fresh := by
  obtain ⟨fresh, unused⟩ :=
    exists_fresh_byte (0 :: 0xff :: byte :: List.ofFn fun index => (iface.neighbors index).ip 3)
      (by simp)
  simp only [mem_cons, mem_ofFn, not_or] at unused
  refine ⟨fresh, unused.1, unused.2.1, unused.2.2.1, ?_⟩
  intro index same
  exact unused.2.2.2 ⟨index, same⟩

/-- An ARP reply whose source address ends in a given byte. -/
theorem nextIp_reply
    (isReply : ntohs frame 20 = 2) {byte : UInt8} (last : frame 31 = byte) (notZero : byte ≠ 0)
    (notBroadcast : byte ≠ 0xff) (unknown : ∀ index, (iface.neighbors index).ip 3 ≠ byte) :
    nextIp iface (netArpReceive iface frame) 3 = byte := by
  have ending : octets frame 28 4 3 = byte := last
  have new : findNeighbor iface (octets frame 28 4) = none := by
    refine find?_eq_none.mpr fun index _ same => unknown index ?_
    exact (congrFun (of_decide_eq_true same) 3).trans ending
  unfold netArpReceive netNeighborRemember
  rw [if_pos isReply, if_neg (fun zero => notZero (ending ▸ congrFun zero 3)),
    if_neg (fun broadcast => notBroadcast (ending ▸ congrFun broadcast 3)), new]
  simp [nextIp, ending]

/-- The frame completed to a request for the interface's own address. -/
def askSelf (iface : Iface) (frame : Nat → UInt8) (len : Nat) : Nat → UInt8 := fun index =>
    if index < len then frame index
    else if index < 32 then frame index
    else if index < 38 then 0
    else if inside : index - 38 < 4 then iface.ipAddr ⟨index - 38, inside⟩
    else frame index

theorem askSelf_agree : AgreeBelow len frame (askSelf iface frame len) := by
  intro index below
  exact if_pos below

theorem askSelf_mac (possible : ¬ AsksOther iface frame len) :
    octets (askSelf iface frame len) 32 6 = ethInvalidMac := by
  funext index
  show askSelf iface frame len (32 + index) = 0
  unfold askSelf
  split
  · rename_i below
    by_contra nonzero
    exact possible (Or.inl ⟨index, below, nonzero⟩)
  · rw [if_neg (by omega), if_pos (by omega)]

theorem askSelf_ip (possible : ¬ AsksOther iface frame len) :
    octets (askSelf iface frame len) 38 4 = iface.ipAddr := by
  funext index
  show askSelf iface frame len (38 + index) = iface.ipAddr index
  unfold askSelf
  split
  · rename_i below
    by_contra different
    exact possible (Or.inr ⟨index, below, different⟩)
  · rw [if_neg (by omega), if_neg (by omega), dif_pos (by omega)]
    congr 1
    ext
    show 38 + index.val - 38 = index.val
    omega

/-! ### What is determined

Each lemma below completes a frame in two ways behind its length. -/

section Determined

variable (determined : Determined (netReceiveDriverFrame iface) frame len)

include determined

/-- Without its type a frame may be a datagram or nothing. -/
theorem type_below : (len = 13 ∧ frame 12 ≠ 8) ∨ 14 ≤ len := by
  by_contra short
  simp only [not_or, not_and, not_not] at short
  have start := (agreeBelow_refl len frame).fix fun below => short.1 (by omega)
  have same :=
    determined.same ((start.set (show len ≤ 13 by omega) 0).set (show len ≤ 23 by omega) 17)
      (start.set (show len ≤ 13 by omega) 255)
  have queued :
      (netReceiveDriverFrame iface
        (update (update (update frame 12 8) 13 0) 23 17)).queued = true :=
    netReceiveDriverFrame_udp iface (by simp [ntohs]) (by simp)
  rw [same] at queued
  cases queued

/-- Without its protocol a packet may be a datagram or nothing. -/
theorem proto_below (isIpv4 : ntohs frame 12 = 0x0800) : 24 ≤ len := by
  by_contra short
  have start := agreeBelow_refl len frame
  have typed (byte : UInt8) : ntohs (update frame 23 byte) 12 = 0x0800 := by
    rw [← isIpv4]
    simp [ntohs]
  have behind : len ≤ 23 := by omega
  have same := determined.same (start.set behind 17) (start.set behind 0)
  have queued := netReceiveDriverFrame_udp iface (typed 17) (update_self _ _ _)
  rw [same] at queued
  unfold netReceiveDriverFrame at queued
  simp [typed, dropped] at queued

section Arp

variable (isArp : ntohs frame 12 = 0x0806)

include isArp

/-- Without its operation an ARP packet may be a reply or nothing. -/
theorem op_below : (len = 21 ∧ frame 20 ≠ 0) ∨ 22 ≤ len := by
  by_contra short
  simp only [not_or, not_and, not_not] at short
  obtain ⟨fresh, notZero, notBroadcast, _, unknown⟩ := exists_unknown_byte iface 0
  have start := (agreeBelow_refl len frame).fix fun below => short.1 (by omega)
  have same :=
    determined.same ((start.set (show len ≤ 21 by omega) 2).set (show len ≤ 31 by omega) fresh)
      (start.set (show len ≤ 21 by omega) 0)
  rw [netReceiveDriverFrame_arp iface (by rw [← isArp]; simp [ntohs]),
    netReceiveDriverFrame_arp iface (by rw [← isArp]; simp [ntohs])] at same
  have replied :
      nextIp iface
        (netArpReceive iface (update (update (update frame 20 0) 21 2) 31 fresh)) 3 = fresh :=
    nextIp_reply (by simp [ntohs]) (by simp) notZero notBroadcast unknown
  rw [same] at replied
  exact unknown _ replied

theorem source_below (isReply : ntohs frame 20 = 2) : 32 ≤ len := by
  by_contra short
  obtain ⟨fresh, notZero, notBroadcast, different, unknown⟩ := exists_unknown_byte iface (frame 31)
  have refl := agreeBelow_refl len frame
  have same := determined.same (refl.set (show len ≤ 31 by omega) fresh) refl
  rw [netReceiveDriverFrame_arp iface (by rw [← isArp]; simp [ntohs]),
    netReceiveDriverFrame_arp iface isArp] at same
  have replied : nextIp iface (netArpReceive iface (update frame 31 fresh)) 3 = fresh := by
    apply nextIp_reply _ _ notZero notBroadcast unknown
    · rw [← isReply]
      simp [ntohs]
    · simp
  rw [same] at replied
  unfold netArpReceive at replied
  rw [if_pos isReply] at replied
  rcases nextIp_remember (octets frame 28 4) (octets frame 22 6) with
    kept | taken
  · rw [kept] at replied
    exact unknown _ replied
  · rw [taken] at replied
    exact different replied.symm

/-- A request without its whole destination may be for us or not. -/
theorem destination_below (isRequest : ntohs frame 20 = 1) (enough : 22 ≤ len)
    (hasFrame : iface.frame ≠ none) (possible : ¬ AsksOther iface frame len) : 42 ≤ len := by
  by_contra short
  have answered : AgreeBelow len frame (askSelf iface frame len) := askSelf_agree
  have typed : ntohs (askSelf iface frame len) 12 = 0x0806 := by
    rw [ntohs_agree answered (by omega), isArp]
  have asked : ntohs (askSelf iface frame len) 20 = 1 := by
    rw [ntohs_agree answered (by omega), isRequest]
  have same :=
    determined.same answered (answered.set (show len ≤ 41 by omega) (iface.ipAddr 3 + 1))
  rw [netReceiveDriverFrame_arp iface typed,
    netReceiveDriverFrame_arp iface (by rw [← typed]; simp [ntohs])] at same
  have sent : (netArpReceive iface (askSelf iface frame len)).transmitted ≠ [] := by
    unfold netArpReceive netArpSend
    rw [if_neg (by rw [asked]; decide), if_pos ⟨asked, askSelf_mac possible, askSelf_ip possible⟩]
    cases found : iface.frame with
    | none => exact absurd found hasFrame
    | some page => simp
  rw [same] at sent
  apply sent
  unfold netArpReceive
  have askedStill : ntohs (update (askSelf iface frame len) 41 (iface.ipAddr 3 + 1)) 20 = 1 := by
    rw [← asked]
    simp [ntohs]
  rw [if_neg (by rw [askedStill]; decide), if_neg]
  · rfl
  · rintro ⟨_, _, ownIp⟩
    have last := congrFun ownIp 3
    simp [octets] at last

end Arp

section Echo

variable (isIpv4 : ntohs frame 12 = 0x0800) (isIcmp : frame 23 = 1) (header : 24 ≤ len)
  {page : Nat → UInt8} (given : iface.frame = some page)

omit determined

include isIpv4 isIcmp header

theorem receive_agreeing (agree : AgreeBelow len frame other) :
    netReceiveDriverFrame iface other = netIcmpReceive iface other := by
  have ethertype := ntohs_agree agree (show 12 + 2 ≤ len by omega)
  have protocol := agree 23 (by omega)
  unfold netReceiveDriverFrame
  simp [ethertype, protocol, isIpv4, isIcmp]

include given

/-- An echo request is answered from its own fields. -/
theorem transmitted_echo (agree : AgreeBelow len frame other) (echo : other (icmpStart frame) = 8)
    (plain : other (icmpStart frame + 1) = 0) : (netReceiveDriverFrame iface other).transmitted =
      [echoReply iface page (octets other 26 4)
        (octets other (icmpStart frame + 4) 4) (payload other)] := by
  rw [receive_agreeing isIpv4 isIcmp header agree]
  unfold netIcmpReceive
  simp [icmpStart_agree agree (by omega), echo, plain, given]

include determined

/-- Without its type a packet may be an echo request or not. -/
theorem icmpType_below : icmpStart frame < len := by
  by_contra short
  have refl := agreeBelow_refl len frame
  have quiet := refl.set (show len ≤ icmpStart frame by omega) 0
  have echo :=
    (refl.set (show len ≤ icmpStart frame by omega) 8).set
      (show len ≤ icmpStart frame + 1 by omega) 0
  have sent := transmitted_echo isIpv4 isIcmp header given echo (by simp) (by simp)
  rw [determined.same echo quiet, receive_agreeing isIpv4 isIcmp header quiet] at sent
  unfold netIcmpReceive at sent
  simp [icmpStart_agree quiet (by omega), dropped] at sent

variable (isEcho : frame (icmpStart frame) = 8)

include isEcho

/-- Without its code an echo request may be answered or not. -/
theorem icmpCode_below : icmpStart frame + 1 < len := by
  by_contra short
  have typeBelow := icmpType_below determined isIpv4 isIcmp header given
  have refl := agreeBelow_refl len frame
  have echo := refl.set (show len ≤ icmpStart frame + 1 by omega) 0
  have quiet := refl.set (show len ≤ icmpStart frame + 1 by omega) 1
  have sent :=
    transmitted_echo isIpv4 isIcmp header given echo (by rw [echo _ typeBelow, isEcho]) (by simp)
  rw [determined.same echo quiet, receive_agreeing isIpv4 isIcmp header quiet] at sent
  unfold netIcmpReceive at sent
  simp [icmpStart_agree quiet (by omega), dropped] at sent

variable (plain : frame (icmpStart frame + 1) = 0)

include plain

/-- A byte that shows in the reply lies below the length. -/
theorem shown_below (index position : Nat)
    (shown :
      ∀ memory, AgreeBelow len frame memory →
        (echoReply iface page (octets memory 26 4) (octets memory (icmpStart frame + 4) 4)
          (payload memory)).frame position = memory index) : index < len := by
  by_contra behind
  have codeBelow := icmpCode_below determined isIpv4 isIcmp header given isEcho
  have refl := agreeBelow_refl len frame
  have agree := refl.set (not_lt.mp behind) (frame index + 1)
  have sent := congrArg Effect.transmitted (determined.same agree refl)
  rw [transmitted_echo isIpv4 isIcmp header given refl isEcho plain,
    transmitted_echo isIpv4 isIcmp header given agree (by rw [agree _ (by omega), isEcho])
      (by rw [agree _ codeBelow, plain])] at sent
  have frames := congrArg Outgoing.frame (List.cons.inj sent).1
  have bytes := congrFun frames position
  rw [shown _ agree, shown _ refl, update_self] at bytes
  simp at bytes

/-- The addresses, the header and the payload of an echo request. -/
theorem echo_below : 30 ≤ len ∧ icmpStart frame + 8 + datalen frame ≤ len := by
  have below := shown_below determined isIpv4 isIcmp header given isEcho plain
  have bound := datalen_lt frame
  have sameLength (memory : Nat → UInt8) (agree : AgreeBelow len frame memory) :
      (payload memory).length = datalen frame := by
    rw [length_payload, datalen_agree agree (by omega)]
  have headers (memory : Nat → UInt8) (agree : AgreeBelow len frame memory)
      (small : datalen frame ≤ 65000) :=
    @echoReply_headers iface page (octets memory 26 4) (octets memory (icmpStart frame + 4) 4)
      (payload memory) (by rw [sameLength memory agree]; omega)
  have inside : icmpStart frame + 8 + datalen frame ≤ len := by
    cases counted : datalen frame with
    | zero =>
      exact below (icmpStart frame + 4 + 3) 41 fun memory agree =>
        congrFun (headers memory agree (by omega)).rest 3
    | succ count =>
      refine below (icmpStart frame + 8 + count) (42 + count) fun memory agree => ?_
      have start := icmpStart_agree agree (by omega)
      have length := sameLength memory agree
      have inside : count < (payload memory).length := by omega
      have shown := @getElem?_payload memory count (by
        rw [← length_payload]
        exact inside)
      rw [getElem?_eq_getElem inside, Option.some.injEq, start] at shown
      rw [← shown]
      exact echoReply_payload (by omega) (by omega) inside
  refine ⟨?_, inside⟩
  by_contra short
  exact short (below 29 33 fun memory agree => congrFun (headers memory agree (by omega)).dst 3)

end Echo

theorem withinLength_of_determined : WithinLength iface frame len := by
  refine (type_below determined).imp_right fun typed => ⟨typed, fun isArp => ?_, fun isIpv4 => ?_⟩
  · refine (op_below determined isArp).imp_right fun opBelow =>
      ⟨opBelow, source_below determined isArp, fun isRequest => ?_⟩
    by_contra unsettled
    simp only [not_or] at unsettled
    exact unsettled.1
      (destination_below determined isArp isRequest opBelow unsettled.2.1 unsettled.2.2)
  · have header := proto_below determined isIpv4
    refine ⟨header, fun isIcmp => ?_⟩
    cases given : iface.frame with
    | none => exact Or.inl given
    | some page =>
      refine Or.inr ⟨icmpType_below determined isIpv4 isIcmp header given, fun isEcho => ?_⟩
      exact ⟨icmpCode_below determined isIpv4 isIcmp header given isEcho,
        echo_below determined isIpv4 isIcmp header given isEcho⟩

end Determined

/--
A received frame has an effect that depends on its bytes only exactly when
the bytes that matter lie below its length.
-/
theorem confined_iff_withinLength (iface : Iface) (frame : Nat → UInt8) (len : Nat) :
    Confined iface frame len ↔ WithinLength iface frame len := by
  constructor
  · rintro ⟨determined, _⟩
    exact withinLength_of_determined determined
  · exact confined_of_withinLength

/-- An interface with an empty neighbour table and a free frame. -/
def someIface : Iface where
  ipAddr := fun _ => 10
  mac := fun _ => 2
  neighbors := fun _ => ⟨fun _ => 0, fun _ => 0⟩
  neighborsHead := Fin.last 7
  frame := some fun _ => 0

/-- An echo request of 42 bytes that claims 1000 bytes of payload. -/
def longEcho : Nat → UInt8 :=
  storeAll (fun _ => 0) [(12, htons 0x0800), (14, [0x45]), (16, htons 1028), (23, [1]), (34, [8])]

theorem longEcho_not_confined :
    ¬ ∀ (iface : Iface) (frame : Nat → UInt8) (len : Nat), Confined iface frame len := by
  intro always
  have copied := (always someIface longEcho 42).2
  exact absurd copied (by decide)

end Cosec.Net.FrameBounds
