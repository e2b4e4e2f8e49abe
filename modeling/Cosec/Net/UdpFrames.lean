import Cosec.Net.EchoReplies

/-!
# Frames of UDP datagrams

A datagram is put together in a page that is not cleared.  Every byte of its
headers has a writer but two: the code that stored the UDP checksum is
commented out, so what the page held there before is sent.
-/

namespace Cosec.Net.UdpFrames

open Lib.ByteArrays List Net.Checksums Net.EchoReplies Net.Frames

/-- The arguments of a datagram. -/
structure Datagram where
  src : Octets 4
  srcport : Nat
  dst : Octets 4
  dstport : Nat
  payload : List UInt8

/-- The fields that `net_buf_udp4_init` and `net_buf_ipv4_init` set. -/
def initStores (udp : Datagram) : List (Nat × List UInt8) :=
  [(12, htons 0x0800), (14, [0x45]), (15, [0]), (18, [0, 0]), (20, [0, 0]), (22, [32]),
    (26, List.ofFn udp.src), (30, List.ofFn udp.dst), (23, [17]), (34, htons udp.srcport),
    (36, htons udp.dstport)]

/-- `net_buf_udp4_init`; the data follows at offset 42. -/
def netBufUdp4Init (frame : Nat → UInt8) (udp : Datagram) : Nat → UInt8 :=
  storeAll frame (initStores udp)

/-- `net_buf_udp4_checksum`. -/
def netBufUdp4Checksum (frame : Nat → UInt8) (datalen : Nat) : Nat → UInt8 :=
  copyIn
    (netBufIpv4Checksum (storeAll frame [(38, htons (datalen + 8)), (16, htons (28 + datalen))]))
    12 (htons 0x0800)

/-- The frame of a datagram in a page, before `net_transmit_frame`. -/
def udpFrame (page : Nat → UInt8) (udp : Datagram) : Nat → UInt8 :=
  netBufUdp4Checksum (storeAll (netBufUdp4Init page udp) [(42, udp.payload)]) udp.payload.length

/-- What RFC 768 takes the checksum of. -/
def checkedBytes (udp : Datagram) : List UInt8 :=
  let length := htons (udp.payload.length + 8)
  List.ofFn udp.src ++ List.ofFn udp.dst ++ [0, 17] ++ length ++ htons udp.srcport ++
    htons udp.dstport ++ length ++ [0, 0] ++ udp.payload

/-- The checksum of RFC 768, where zero is sent as all ones. -/
def rfc768Checksum (udp : Datagram) : Nat :=
  let bytes := checkedBytes udp
  let checksum := 65535 - onesComplementWordsSum (fun index => bytes.getD index 0) 0 bytes.length
  if checksum = 0 then 65535 else checksum

/--
Nothing of the page is left in the headers of a datagram, and its checksum
is right or absent.
-/
structure Clean (udp : Datagram) : Prop where
  headers :
    ∀ page other offset, 12 ≤ offset → offset < 42 →
      udpFrame page udp offset = udpFrame other udp offset
  checksum :
    ∀ page, ntohs (udpFrame page udp) 40 = 0 ∨ ntohs (udpFrame page udp) 40 = rfc768Checksum udp

variable {page other : Nat → UInt8} {udp : Datagram} {addr : Nat}

/-- A byte that a store sets, or that is the same before it. -/
theorem copyIn_congr {start : Nat} {values : List UInt8} (fits : start + values.length ≤ 4294967296)
    (address : addr < 4294967296)
    (written : page addr = other addr ∨ start ≤ addr ∧ addr < start + values.length) :
    copyIn page start values addr = copyIn other start values addr := by
  rcases lt_or_ge addr start with below | above
  · rw [copyIn_outside fits address (Or.inl below), copyIn_outside fits address (Or.inl below)]
    exact written.resolve_right (by omega)
  · rcases lt_or_ge addr (start + values.length) with inside | behind
    · obtain ⟨offset, rfl⟩ := Nat.exists_eq_add_of_le above
      rw [copyIn_inside fits (by omega), copyIn_inside fits (by omega)]
    · rw [copyIn_outside fits address (Or.inr behind), copyIn_outside fits address (Or.inr behind)]
      exact written.resolve_right (by omega)

theorem storeAll_congr {stores : List (Nat × List UInt8)}
    (fits : ∀ store ∈ stores, store.1 + store.2.length ≤ 4294967296) (address : addr < 4294967296)
    (written :
      page addr = other addr ∨ ∃ store ∈ stores, store.1 ≤ addr ∧ addr < store.1 + store.2.length) :
    storeAll page stores addr = storeAll other stores addr := by
  induction stores generalizing page other with
  | nil =>
    obtain same | ⟨_, none, _⟩ := written
    · exact same
    · exact absurd none not_mem_nil
  | cons store stores ih =>
    obtain ⟨first, rest⟩ := forall_mem_cons.mp fits
    apply ih rest
    obtain same | ⟨later, member, inside⟩ := written
    · exact Or.inl (copyIn_congr first address (Or.inl same))
    · obtain rfl | member := mem_cons.mp member
      · exact Or.inl (copyIn_congr first address (Or.inr inside))
      · exact Or.inr ⟨later, member, inside⟩

/-- All stores before the checksum of the IP header. -/
def headerStores (udp : Datagram) : List (Nat × List UInt8) :=
  initStores udp ++ [(42, udp.payload)] ++
    [(38, htons (udp.payload.length + 8)), (16, htons (28 + udp.payload.length))]

theorem udpFrame_eq (page : Nat → UInt8) (udp : Datagram) :
    udpFrame page udp =
      copyIn (netBufIpv4Checksum (storeAll page (headerStores udp))) 12 (htons 0x0800) := by
  unfold udpFrame netBufUdp4Checksum netBufUdp4Init headerStores
  simp only [storeAll, foldl_append]

/-- No store touches the UDP checksum. -/
theorem headerStores_miss (fits : 42 + udp.payload.length ≤ 4294967296) :
    ∀ store ∈ headerStores udp, Misses 40 2 store := by
  simp [headerStores, initStores, Misses, fits]

/-- The bytes of the headers that are stored, those of the checksums apart. -/
theorem headerStores_agree
    (fits : 42 + udp.payload.length ≤ 4294967296) (lower : 14 ≤ addr) (upper : addr < 40)
    (notFirst : addr ≠ 24) (notSecond : addr ≠ 25) :
    storeAll page (headerStores udp) addr = storeAll other (headerStores udp) addr := by
  have inMemory := fun store member => (headerStores_miss fits store member).1
  refine storeAll_congr inMemory (by omega) (Or.inr ?_)
  simp only [headerStores, initStores, cons_append, nil_append, mem_cons,
    not_mem_nil, or_false, exists_eq_or_imp, exists_eq_left, length_htons, length_ofFn,
    length_cons, length_nil]
  omega

theorem ipv4Checksum_agree {frame frame2 : Nat → UInt8}
    (agree : ∀ addr, 14 ≤ addr → addr < 40 → addr ≠ 24 → addr ≠ 25 → frame addr = frame2 addr)
    (lower : 14 ≤ addr) (upper : addr < 40) :
    netBufIpv4Checksum frame addr = netBufIpv4Checksum frame2 addr := by
  have cleared : ∀ addr, 14 ≤ addr → addr < 40 →
      copyIn frame 24 [0, 0] addr = copyIn frame2 24 [0, 0] addr := by
    intro addr lower upper
    refine copyIn_congr (by decide) (by omega) ?_
    by_cases field : addr ≠ 24 ∧ addr ≠ 25
    · exact Or.inl (agree addr lower upper field.1 field.2)
    · right
      rw [length_cons, length_singleton]
      omega
  have sum :
      onesComplementWordsSum (copyIn frame 24 [0, 0]) 14 20 =
        onesComplementWordsSum (copyIn frame2 24 [0, 0]) 14 20 :=
    onesComplementWordsSum_congr fun offset inside => cleared _ (by omega) (by omega)
  unfold netBufIpv4Checksum
  rw [sum]
  exact copyIn_congr (by rw [length_htons]; decide) (by omega) (Or.inl (cleared addr lower upper))

theorem udpFrame_stale
    (fits : 42 + udp.payload.length ≤ 4294967296) (lower : 40 ≤ addr) (upper : addr < 42) :
    udpFrame page udp addr = page addr := by
  have outside : addr < 12 ∨ 12 + (htons 0x0800).length ≤ addr := by
    rw [length_htons]
    omega
  rw [udpFrame_eq, copyIn_outside (by decide) (by omega) outside,
    netBufIpv4Checksum_apart (by omega) (by omega) (by omega)]
  exact storeAll_apart (headerStores_miss fits) lower upper (by omega)

/-- A page with two bytes where the UDP checksum belongs. -/
def stalePage (value : UInt8) (addr : Nat) : UInt8 := if addr = 41 then value else 0

/--
Whatever its arguments, a datagram is not clean: two bytes of its headers
are left over from the page, and its checksum with them.  All other header
bytes are stored.
-/
theorem udp_frame_never_clean (udp : Datagram) (fits : 42 + udp.payload.length ≤ 4294967296) :
    ¬Clean udp ∧
      ∀ page other offset, 12 ≤ offset → offset < 40 →
        udpFrame page udp offset = udpFrame other udp offset := by
  constructor
  · intro clean
    have same := clean.headers (stalePage 0) (stalePage 1) 41 (by decide) (by decide)
    rw [udpFrame_stale fits (by decide) (by decide),
      udpFrame_stale fits (by decide) (by decide)] at same
    exact absurd same (by decide)
  · intro page other offset lower upper
    rw [udpFrame_eq, udpFrame_eq]
    refine copyIn_congr (by decide) (by omega) ?_
    rcases lt_or_ge offset 14 with ethertype | behind
    · exact Or.inr ⟨lower, ethertype⟩
    · exact Or.inl (ipv4Checksum_agree (fun _ => headerStores_agree fits) behind upper)

/-- A datagram without payload. -/
def emptyDatagram : Datagram := ⟨fun _ => 0, 68, fun _ => 0xff, 67, []⟩

theorem udp_frame_never_clean_empty :
    42 + emptyDatagram.payload.length ≤ 4294967296 ∧ ¬Clean emptyDatagram :=
  ⟨by decide, (udp_frame_never_clean emptyDatagram (by decide)).1⟩

/-- An empty datagram is sent with the checksum one. -/
theorem stale_checksum_sent : ¬ ∀ udp, Clean udp := by
  intro clean
  have fits : 42 + emptyDatagram.payload.length ≤ 4294967296 := by decide
  have checksum := (clean emptyDatagram).checksum (stalePage 1)
  unfold ntohs at checksum
  rw [udpFrame_stale fits (by decide) (by decide), udpFrame_stale fits (by decide) (by decide)]
    at checksum
  revert checksum
  decide +kernel

end Cosec.Net.UdpFrames
