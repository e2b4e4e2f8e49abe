import Cosec.Net.Checksums

/-!
# Echo replies

The reply to an echo request is put together by stores into one frame: the
fixed fields of both headers, the payload, the two checksums with the total
length, and the hardware addresses with the padding.  A field of the reply is
what the last store to it left, so each part is described by the bytes it
writes and the bytes it leaves alone.
-/

namespace Cosec.Net.EchoReplies

open Lib.ByteArrays List Net.Checksums Net.Frames

variable {iface : Iface} {frame : Nat → UInt8} {addr len : Nat}

/-! ## Stores -/

variable {dest count : Nat}

/-- A short store does not show elsewhere. -/
theorem copyIn_apart {memory : Nat → UInt8} {values : List UInt8} (length : values.length = count)
    (outside : addr < dest ∨ dest + count ≤ addr) (fits : dest + count ≤ 4294967296)
    (address : addr < 4294967296) : copyIn memory dest values addr = memory addr := by
  apply copyIn_outside
  · rwa [length]
  · exact address
  · rwa [length]

/-- The store lies inside memory and does not touch some bytes. -/
def Misses (start count : Nat) (store : Nat × List UInt8) : Prop :=
  store.1 + store.2.length ≤ 4294967296 ∧
    (start + count ≤ store.1 ∨ store.1 + store.2.length ≤ start)

variable {stores : List (Nat × List UInt8)}

/-- Stores that miss an address leave its byte alone. -/
theorem storeAll_apart {start : Nat} (missed : ∀ store ∈ stores, Misses start count store)
    (from_start : start ≤ addr) (before_end : addr < start + count) (address : addr < 4294967296) :
    storeAll frame stores addr = frame addr := by
  induction stores generalizing frame with
  | nil => rfl
  | cons store stores ih =>
    obtain ⟨⟨fits, outside⟩, rest⟩ := forall_mem_cons.mp missed
    have later :
        storeAll frame (store :: stores) addr =
          storeAll (copyIn frame store.1 store.2) stores addr :=
      rfl
    rw [later, ih rest]
    exact copyIn_outside fits address (by omega)

theorem storeAll_field (position : Nat) {offset : Nat} {values : List UInt8}
    (found : stores[position]? = some (dest, values))
    (missed : ∀ store ∈ stores.drop (position + 1), Misses dest values.length store)
    (fits : dest + values.length ≤ 4294967296) (inside : offset < values.length) :
    storeAll frame stores (dest + offset) = values[offset] := by
  obtain ⟨bound, here⟩ := List.getElem?_eq_some_iff.mp found
  have split :
      storeAll frame stores =
        storeAll (copyIn (storeAll frame (stores.take position)) dest values)
          (stores.drop (position + 1)) := by
    conv =>
      lhs
      rw [← take_append_drop position stores, drop_eq_getElem_cons bound, here]
    simp [storeAll]
  rw [split, storeAll_apart missed (Nat.le_add_right _ _) (by omega) (by omega)]
  exact copyIn_inside fits inside

theorem storeAll_byte (position : Nat) {value : UInt8}
    (found : stores[position]? = some (dest, [value]))
    (missed : ∀ store ∈ stores.drop (position + 1), Misses dest 1 store)
    (fits : dest + 1 ≤ 4294967296) : storeAll frame stores dest = value :=
  storeAll_field position found missed fits Nat.zero_lt_one

theorem storeAll_ntohs (position : Nat) {value : Nat}
    (found : stores[position]? = some (dest, htons value))
    (missed : ∀ store ∈ stores.drop (position + 1), Misses dest 2 store)
    (fits : dest + 2 ≤ 4294967296) (word : value < 65536) :
    ntohs (storeAll frame stores) dest = value := by
  have first : storeAll frame stores (dest + 0) = _ :=
    storeAll_field position found missed fits Nat.zero_lt_two
  have second : storeAll frame stores (dest + 1) = _ :=
    storeAll_field position found missed fits Nat.one_lt_two
  rw [Nat.add_zero] at first
  unfold ntohs
  rw [first, second]
  exact htons_value word _ _

theorem storeAll_octets (position : Nat) {field : Octets count}
    (found : stores[position]? = some (dest, List.ofFn field))
    (missed : ∀ store ∈ stores.drop (position + 1), Misses dest count store)
    (fits : dest + count ≤ 4294967296) : octets (storeAll frame stores) dest count = field := by
  funext index
  have length : (List.ofFn field).length = count := length_ofFn
  have inside : index.val < (List.ofFn field).length := by
    rw [length]
    exact index.isLt
  have stored :=
    @storeAll_field frame dest stores position index (List.ofFn field)
      found (by rwa [length]) (by rwa [length]) inside
  rw [octets, stored, List.getElem_ofFn]

/-! ## The parts of a reply -/

/-- The fields that `net_buf_icmp4_init` fills. -/
structure Headers
    (frame : Nat → UInt8) (srcaddr dstaddr : Octets 4)
    (type code : UInt8) (seq : Octets 4) : Prop where
  ethertype : ntohs frame 12 = 0x0800
  version : frame 14 = 0x45
  proto : frame 23 = 1
  src : octets frame 26 4 = srcaddr
  dst : octets frame 30 4 = dstaddr
  type : frame 34 = type
  code : frame 35 = code
  rest : octets frame 38 4 = seq

theorem netBufIcmp4Init_headers
    (frame : Nat → UInt8) (srcaddr dstaddr : Octets 4) (type code : UInt8) (seq : Octets 4) :
    Headers (netBufIcmp4Init frame srcaddr dstaddr type code seq) srcaddr
      dstaddr type code seq := by
  constructor
  · exact storeAll_ntohs 0 rfl (by simp [Misses]) (by decide) (by decide)
  · exact storeAll_byte 1 rfl (by simp [Misses]) (by decide)
  · exact storeAll_byte 8 rfl (by simp [Misses]) (by decide)
  · exact storeAll_octets 6 rfl (by simp [Misses]) (by decide)
  · exact storeAll_octets 7 rfl (by simp [Misses]) (by decide)
  · exact storeAll_byte 9 rfl (by simp [Misses]) (by decide)
  · exact storeAll_byte 10 rfl (by simp [Misses]) (by decide)
  · exact storeAll_octets 11 rfl (by simp [Misses]) (by decide)

/-- The addresses of a frame lie in its first twelve bytes. -/
theorem fillAddresses_behind (behind : 12 ≤ addr) (address : addr < 4294967296) :
    fillAddresses iface frame addr = frame addr := by
  have source (memory : Nat → UInt8) (mac : Octets 6) :
      copyIn memory 6 (List.ofFn mac) addr = memory addr :=
    copyIn_apart (length_ofFn) (Or.inr behind) (by decide) address
  have destination (memory : Nat → UInt8) (mac : Octets 6) :
      copyIn memory 0 (List.ofFn mac) addr = memory addr :=
    copyIn_apart (length_ofFn) (Or.inr (by omega)) (by decide) address
  unfold fillAddresses
  simp only
  split
  · split
    · exact source frame iface.mac
    · rw [destination, source]
  · split
    · rw [source, destination, source]
    · exact source frame iface.mac

/-- The padding of a short frame lies between its end and byte 60. -/
theorem netTransmitFrame_frame
    (behind : 12 ≤ addr) (address : addr < 4294967296) (unpadded : addr < len ∨ 60 ≤ addr) :
    (netTransmitFrame iface frame len).frame addr = frame addr := by
  unfold netTransmitFrame
  split
  · show copyIn _ _ _ addr = _
    rw [copyIn_apart length_replicate (by omega) (by omega) address]
    exact fillAddresses_behind behind address
  · exact fillAddresses_behind behind address

theorem netTransmitFrame_padding (behind : len ≤ addr) (inside : addr < 60) :
    (netTransmitFrame iface frame len).frame addr = 0 := by
  obtain ⟨offset, rfl⟩ := Nat.exists_eq_add_of_le behind
  unfold netTransmitFrame
  rw [if_pos (by omega)]
  show copyIn _ _ _ _ = _
  rw [copyIn_inside (by rw [length_replicate]; omega) (by rw [length_replicate]; omega),
    getElem_replicate]

theorem netBufIcmp4Checksum_other
    (count : Nat) (address : addr < 4294967296) (lengthApart : addr < 16 ∨ 18 ≤ addr)
    (ipApart : addr < 24 ∨ 26 ≤ addr) (icmpApart : addr < 36 ∨ 38 ≤ addr) :
    netBufIcmp4Checksum frame count addr = frame addr := by
  unfold netBufIcmp4Checksum
  rw [netBufIpv4Checksum_apart address (by omega) (by omega),
    copyIn_apart (length_htons _) lengthApart (by decide) address,
    copyIn_apart (length_htons _) icmpApart (by decide) address, ← htons_zero,
    copyIn_apart (length_htons _) icmpApart (by decide) address]

theorem netBufIcmp4Checksum_ip (frame : Nat → UInt8) (count : Nat) :
    onesComplementWordsSum (netBufIcmp4Checksum frame count) 14 20 = 65535 := by
  unfold netBufIcmp4Checksum
  exact netBufIpv4Checksum_sum _

/-- The checksum of the message verifies, whatever the length. -/
theorem netBufIcmp4Checksum_icmp (fits : 42 + count ≤ 4294967296) :
    onesComplementWordsSum (netBufIcmp4Checksum frame count) 34 (8 + count) = 65535 := by
  have zero : ntohs (copyIn frame (34 + 2 * 1) [0, 0]) (34 + 2 * 1) = 0 := by
    rw [← htons_zero]
    exact ntohs_store (by decide) (by decide)
  have stored := checksum_stored zero (show 2 * 1 + 1 < 8 + count by omega) (by omega)
  rw [← stored]
  apply onesComplementWordsSum_congr
  intro offset below
  unfold netBufIcmp4Checksum
  rw [netBufIpv4Checksum_apart (by omega) (by omega) (by omega),
    copyIn_apart (length_htons _) (by omega) (by decide) (by omega)]

/--
The payload follows the headers; in a frame too long for sixteen bits, the
padding may fall on its first bytes.
-/
theorem echoReply_payload
    {reply : Nat → UInt8} {src seq : Octets 4} {data : List UInt8} {index : Nat}
    (bound : data.length < 65536) (unpadded : 42 + data.length < 65536 ∨ 18 ≤ index)
    (inside : index < data.length) :
    (echoReply iface reply src seq data).frame (42 + index) = data[index] := by
  unfold echoReply
  rw [netTransmitFrame_frame (by omega) (by omega) (by omega),
    netBufIcmp4Checksum_other _ (by omega) (by omega) (by omega) (by omega)]
  exact copyIn_inside (by omega) inside

section Reply

variable {reply : Nat → UInt8} {src seq : Octets 4} {data : List UInt8}

/-- The headers, and the padding in a frame too long for sixteen bits. -/
theorem echoReply_header (bound : data.length < 65536) (behind : 12 ≤ addr)
    (beforePayload : addr < 42) (lengthApart : addr < 16 ∨ 18 ≤ addr)
    (ipApart : addr < 24 ∨ 26 ≤ addr) (icmpApart : addr < 36 ∨ 38 ≤ addr) :
    (echoReply iface reply src seq data).frame addr =
      if addr < (42 + data.length) % 65536 then
        netBufIcmp4Init reply iface.ipAddr src 0 0 seq addr
      else 0 := by
  unfold echoReply
  dsimp only
  split
  · rw [netTransmitFrame_frame behind (by omega) (by omega),
      netBufIcmp4Checksum_other _ (by omega) lengthApart ipApart icmpApart,
      copyIn_apart rfl (by omega) (by omega) (by omega)]
  · exact netTransmitFrame_padding (by omega) (by omega)

variable (short : 42 + data.length < 65536)

include short

theorem echoReply_headers :
    Headers (echoReply iface reply src seq data).frame iface.ipAddr src 0 0 seq := by
  have made := netBufIcmp4Init_headers reply iface.ipAddr src 0 0 seq
  have field (start : Nat) (from_start : 26 ≤ start) (before_payload : start + 4 ≤ 42)
      (apart : start + 4 ≤ 36 ∨ 38 ≤ start) :
      octets (echoReply iface reply src seq data).frame start 4 =
        octets (netBufIcmp4Init reply iface.ipAddr src 0 0 seq) start 4 := by
    funext index
    exact (echoReply_header (by omega) (by omega) (by omega) (by omega) (by omega) (by omega)).trans
      (if_pos (by omega))
  have byte (position : Nat) (from_start : 12 ≤ position) (before_payload : position < 36)
      (lengthApart : position < 16 ∨ 18 ≤ position) (ipApart : position < 24 ∨ 26 ≤ position) :
      (echoReply iface reply src seq data).frame position =
        netBufIcmp4Init reply iface.ipAddr src 0 0 seq position :=
    (echoReply_header (by omega) from_start (by omega) lengthApart ipApart (by omega)).trans
      (if_pos (by omega))
  constructor
  · unfold ntohs
    rw [byte 12 (by decide) (by decide) (by decide) (by decide),
      byte (12 + 1) (by decide) (by decide) (by decide) (by decide)]
    exact made.ethertype
  · rw [byte 14 (by decide) (by decide) (by decide) (by decide)]
    exact made.version
  · rw [byte 23 (by decide) (by decide) (by decide) (by decide)]
    exact made.proto
  · rw [field 26 (by decide) (by decide) (by decide)]
    exact made.src
  · rw [field 30 (by decide) (by decide) (by decide)]
    exact made.dst
  · rw [byte 34 (by decide) (by decide) (by decide) (by decide)]
    exact made.type
  · rw [byte 35 (by decide) (by decide) (by decide) (by decide)]
    exact made.code
  · rw [field 38 (by decide) (by decide) (by decide)]
    exact made.rest

theorem echoReply_iplen :
    ntohs (echoReply iface reply src seq data).frame 16 = 28 + data.length := by
  have stored (memory : Nat → UInt8) :
      ntohs (copyIn memory 16 (htons (28 + data.length))) 16 = 28 + data.length :=
    ntohs_store (by omega) (by decide)
  unfold echoReply netBufIcmp4Checksum ntohs at *
  rw [netTransmitFrame_frame (by omega) (by omega) (by omega),
    netTransmitFrame_frame (by omega) (by omega) (by omega),
    netBufIpv4Checksum_apart (by decide) (by decide) (by decide),
    netBufIpv4Checksum_apart (by decide) (by decide) (by decide)]
  exact stored _

theorem echoReply_checksums :
    onesComplementWordsSum (echoReply iface reply src seq data).frame 14 20 = 65535 ∧
      onesComplementWordsSum (echoReply iface reply src seq data).frame 34 (8 + data.length) =
        65535 := by
  have kept (start count : Nat) (behind : 12 ≤ start) (inside : start + count ≤ 42 + data.length)
      (sum :
        onesComplementWordsSum
            (netBufIcmp4Checksum (copyIn (netBufIcmp4Init reply iface.ipAddr src 0 0 seq) 42 data)
              data.length) start count = 65535) :
      onesComplementWordsSum (echoReply iface reply src seq data).frame start count = 65535 := by
    rw [← sum]
    apply onesComplementWordsSum_congr
    intro offset below
    exact netTransmitFrame_frame (by omega) (by omega) (by omega)
  exact ⟨kept 14 20 (by decide) (by omega) (netBufIcmp4Checksum_ip _ _),
    kept 34 (8 + data.length) (by decide) (by omega) (netBufIcmp4Checksum_icmp (by omega))⟩

theorem echoReply_len : (echoReply iface reply src seq data).len = max 60 (42 + data.length) := by
  unfold echoReply netTransmitFrame
  rw [Nat.mod_eq_of_lt short]
  split
  · show 60 = _
    omega
  · show 42 + data.length = _
    omega

end Reply

/-! ## Requests -/

theorem length_payload (frame : Nat → UInt8) : (payload frame).length = datalen frame := by
  simp [payload]

theorem getElem?_payload {index : Nat} (inside : index < datalen frame) :
    (payload frame)[index]? = some (frame (icmpStart frame + 8 + index)) := by
  simp [payload, inside]

theorem datalen_lt (frame : Nat → UInt8) : datalen frame < 65536 := Nat.mod_lt _ (by decide)

/--
A well-formed echo request: the IP header has at least five words, and the
packet has room for both headers and lies inside a frame.
-/
structure EchoRequest (frame : Nat → UInt8) (len : Nat) : Prop where
  type : frame (icmpStart frame) = 8
  code : frame (icmpStart frame + 1) = 0
  header : 5 ≤ (frame 14).toNat % 16
  room : 4 * ((frame 14).toNat % 16) + 8 ≤ ntohs frame 16
  inside : 14 + ntohs frame 16 ≤ len
  limit : len ≤ 1514

/-- The length of the payload of a request. -/
def payloadLength (frame : Nat → UInt8) : Nat := ntohs frame 16 - 4 * ((frame 14).toNat % 16) - 8

/-- The length in sixteen bits is that of the payload. -/
theorem EchoRequest.datalen_eq (request : EchoRequest frame len) :
    datalen frame = payloadLength frame := by
  have room := request.room
  have word := ntohs_lt frame 16
  unfold datalen payloadLength
  omega

/--
The answer to a request: addresses and identification as they should be, the
payload of the request, and checksums that verify.
-/
structure EchoAnswer (iface : Iface) (frame : Nat → UInt8) (answer : Outgoing) : Prop where
  headers :
    Headers answer.frame iface.ipAddr (octets frame 26 4) 0 0 (octets frame (icmpStart frame + 4) 4)
  iplen : ntohs answer.frame 16 = 28 + payloadLength frame
  payload :
    ∀ index < payloadLength frame, answer.frame (42 + index) = frame (icmpStart frame + 8 + index)
  ipChecksum : onesComplementWordsSum answer.frame 14 20 = 0xffff
  icmpChecksum : onesComplementWordsSum answer.frame 34 (8 + payloadLength frame) = 0xffff
  len : answer.len = max 60 (42 + payloadLength frame)

/-- Every well-formed echo request is answered by one correct reply. -/
theorem echo_answered (iface : Iface) (reply : Nat → UInt8) (given : iface.frame = some reply)
    (frame : Nat → UInt8) (len : Nat) (request : EchoRequest frame len) :
    ∃ answer,
      (netIcmpReceive iface frame).transmitted = [answer] ∧ EchoAnswer iface frame answer := by
  have sameLength := (length_payload frame).trans request.datalen_eq
  have short : 42 + (Frames.payload frame).length < 65536 := by
    have inside := request.inside
    have limit := request.limit
    rw [sameLength, payloadLength]
    omega
  refine ⟨echoReply iface reply (octets frame 26 4)
    (octets frame (icmpStart frame + 4) 4) (Frames.payload frame), ?_, ?_⟩
  · unfold netIcmpReceive
    simp [request.type, request.code, given]
  · obtain ⟨ipSum, icmpSum⟩ :=
      @echoReply_checksums iface reply (octets frame 26 4)
        (octets frame (icmpStart frame + 4) 4) _ short
    have iplen :=
      @echoReply_iplen iface reply (octets frame 26 4)
        (octets frame (icmpStart frame + 4) 4) _ short
    have total :=
      @echoReply_len iface reply (octets frame 26 4) (octets frame (icmpStart frame + 4) 4) _ short
    rw [sameLength] at icmpSum iplen total
    constructor
    · exact echoReply_headers short
    · exact iplen
    · intro index below
      have inside : index < (Frames.payload frame).length := by rwa [sameLength]
      rw [echoReply_payload (by omega) (Or.inl short) inside]
      have shown := getElem?_payload (request.datalen_eq ▸ below)
      rw [getElem?_eq_getElem inside, Option.some.injEq] at shown
      exact shown
    · exact ipSum
    · exact icmpSum
    · exact total

/-- An interface with an empty neighbour table and a used buffer. -/
def answeringIface : Iface where
  ipAddr := fun _ => 10
  mac := fun _ => 2
  neighbors := fun _ => ⟨fun _ => 0, fun _ => 0⟩
  neighborsHead := Fin.last 7
  frame := some fun _ => 0xee

/-- An echo request from 10.0.0.7 with three bytes of payload. -/
def oddRequest (addr : Nat) : UInt8 :=
  [0, 0, 0, 0, 0, 0, 0, 0, 0, 0, 0, 0, 8, 0, 0x45, 0, 0, 31, 0, 0, 0, 0,
    64, 1, 0, 0, 10, 0, 0, 7, 10, 10, 10, 10, 8, 0, 0, 0, 1, 2, 3, 4, 97, 98, 99].getD addr 0

theorem echo_answered_odd :
    ∃ answer,
      (netIcmpReceive answeringIface oddRequest).transmitted = [answer] ∧
        EchoAnswer answeringIface oddRequest answer := by
  refine echo_answered answeringIface _ rfl oddRequest 45 ?_
  constructor <;> decide

end Cosec.Net.EchoReplies
