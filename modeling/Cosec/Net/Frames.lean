import Mathlib.Data.Fintype.Basic
import Mathlib.Data.List.FinRange
import Mathlib.Logic.Function.Basic
import Cosec.Lib.ByteArrays

/-!
# Received frames

This module embeds `net_receive_driver_frame` with the ARP and ICMP handlers
it calls, and `net_transmit_frame` for their replies.

A received frame is the memory from `nbuf->buf` on; the handlers lay their
headers over it and never look at `nbuf->len`.  The interface has the frame
that `transmit_frame_alloc` gives next, as it was left, or nothing.  An
`Effect` is what a frame brings about: the frames handed to
`transmit_frame_enqueue`, the neighbour table, whether the buffer entered the
receive queue, and how many bytes of payload were copied.
-/

namespace Cosec.Net.Frames

open Lib.ByteArrays

/-! ## Fields -/

/-- A field of a fixed number of bytes. -/
abbrev Octets (count : Nat) := Fin count → UInt8

/-- The bytes of a field in memory. -/
def octets (memory : Nat → UInt8) (start count : Nat) : Octets count :=
  fun index => memory (start + index)

/-- `ntohs` of the two bytes at an offset. -/
def ntohs (memory : Nat → UInt8) (start : Nat) : Nat :=
  256 * (memory start).toNat + (memory (start + 1)).toNat

/-- The bytes that `htons` stores. -/
def htons (value : Nat) : List UInt8 := [UInt8.ofNat (value / 256), UInt8.ofNat value]

/-- Several stores into memory, in order. -/
def storeAll (memory : Nat → UInt8) (stores : List (Nat × List UInt8)) : Nat → UInt8 :=
  stores.foldl (fun memory store => copyIn memory store.1 store.2) memory

/-- `ETH_INVALID_MAC`. -/
def ethInvalidMac : Octets 6 := fun _ => 0

/-- `ETH_BROADCAST_MAC`. -/
def ethBroadcastMac : Octets 6 := fun _ => 0xff

/-! ## Interfaces -/

/-- `struct neighbor_mapping`. -/
structure Neighbor where
  ip : Octets 4
  eth : Octets 6

/-- The parts of `struct netiface` that frames use. -/
structure Iface where
  ipAddr : Octets 4
  mac : Octets 6
  neighbors : Fin 8 → Neighbor
  neighborsHead : Fin 8
  frame : Option (Nat → UInt8)

/-- A frame and the length given to `transmit_frame_enqueue`. -/
structure Outgoing where
  frame : Nat → UInt8
  len : Nat

/-- What a received frame brings about. -/
structure Effect where
  neighbors : Fin 8 → Neighbor
  neighborsHead : Fin 8
  transmitted : List Outgoing
  queued : Bool
  copied : Nat

/-- A frame that is dropped. -/
def dropped (iface : Iface) : Effect where
  neighbors := iface.neighbors
  neighborsHead := iface.neighborsHead
  transmitted := []
  queued := false
  copied := 0

/-- The first entry of the neighbour table for an address. -/
def findNeighbor (iface : Iface) (addr : Octets 4) : Option (Fin 8) :=
  (List.finRange 8).find? fun index => decide ((iface.neighbors index).ip = addr)

/-- `net_neighbor_resolve` on an interface. -/
def netNeighborResolve (iface : Iface) (addr : Octets 4) : Octets 6 :=
  if addr = fun _ => 0xff then ethBroadcastMac
  else
    match findNeighbor iface addr with
    | some index => (iface.neighbors index).eth
    | none => ethInvalidMac

/-- `net_neighbor_remember`. -/
def netNeighborRemember (iface : Iface) (addr : Octets 4) (mac : Octets 6) : Effect :=
  if addr = fun _ => 0 then dropped iface
  else if addr = fun _ => 0xff then dropped iface
  else
    match findNeighbor iface addr with
    | some index =>
      { dropped iface with
        neighbors :=
          Function.update iface.neighbors index { iface.neighbors index with eth := mac } }
    | none =>
      { dropped iface with
        neighbors := Function.update iface.neighbors iface.neighborsHead ⟨addr, mac⟩
        neighborsHead := ⟨(iface.neighborsHead.val + 1) % 8, Nat.mod_lt _ (Nat.zero_lt_succ 7)⟩ }

/-- The hardware addresses that `net_transmit_frame` fills in. -/
def fillAddresses (iface : Iface) (frame : Nat → UInt8) : Nat → UInt8 :=
  let frame := copyIn frame 6 (List.ofFn iface.mac)
  if ntohs frame 12 = 0x0800 then
    let dstmac := netNeighborResolve iface (octets frame 30 4)
    if dstmac = ethInvalidMac then frame
    else copyIn frame 0 (List.ofFn dstmac)
  else if ntohs frame 12 = 0x0806 then
    let frame := copyIn frame 0 (List.ofFn (octets frame 32 6))
    copyIn frame 6 (List.ofFn (octets frame 22 6))
  else
    frame

/-- `net_transmit_frame`, up to the call of the driver. -/
def netTransmitFrame (iface : Iface) (frame : Nat → UInt8) (len : Nat) : Outgoing :=
  let frame := fillAddresses iface frame
  if len < 60 then
    ⟨copyIn frame len (List.replicate (60 - len) 0), 60⟩
  else
    ⟨frame, len⟩

/-- The frame that `net_arp_send` fills. -/
def arpFrame (iface : Iface) (frame : Nat → UInt8) (op : Nat)
    (dstIp : Octets 4) (dstMac : Octets 6) : Nat → UInt8 :=
  storeAll frame
    [(12, htons 0x0806), (14, htons 1), (16, htons 0x0800), (18, [6]),
      (19, [4]), (20, htons op), (22, List.ofFn iface.mac),
      (28, List.ofFn iface.ipAddr), (32, List.ofFn dstMac), (38, List.ofFn dstIp)]

/-- `net_arp_send`. -/
def netArpSend (iface : Iface) (op : Nat) (dstIp : Octets 4) (dstMac : Octets 6) : Effect :=
  match iface.frame with
  | none => dropped iface
  | some frame =>
    { dropped iface with
      transmitted := [netTransmitFrame iface (arpFrame iface frame op dstIp dstMac) 42] }

/-- `net_arp_receive`, with the header at offset 14 of the frame. -/
def netArpReceive (iface : Iface) (frame : Nat → UInt8) : Effect := if ntohs frame 20 = 2 then
    netNeighborRemember iface (octets frame 28 4) (octets frame 22 6)
  else if ntohs frame 20 = 1 ∧ octets frame 32 6 = ethInvalidMac ∧
      octets frame 38 4 = iface.ipAddr then
    netArpSend iface 2 (octets frame 28 4) (octets frame 22 6)
  else
    dropped iface

/-! ## ICMP -/

/-- `ones_complement`. -/
def onesComplement (left right : Nat) : Nat :=
  ((left + right) % 65536 + (left + right) / 65536) % 65536

/-- `ones_complement_words_sum`. -/
def onesComplementWordsSum (memory : Nat → UInt8) (start len : Nat) : Nat :=
  let sum :=
    (List.range (len / 2)).foldl
      (fun sum index => onesComplement sum (ntohs memory (start + 2 * index))) 0
  if len % 2 = 0 then sum
  else
    onesComplement sum (256 * (memory (start + (len - 1))).toNat)

/-- `net_buf_icmp4_init`; the data follows at offset 42. -/
def netBufIcmp4Init (frame : Nat → UInt8) (srcaddr dstaddr : Octets 4)
    (type code : UInt8) (seq : Octets 4) : Nat → UInt8 :=
  storeAll frame
    [(12, htons 0x0800), (14, [0x45]), (15, [0]), (18, [0, 0]),
      (20, [0, 0]), (22, [32]), (26, List.ofFn srcaddr),
      (30, List.ofFn dstaddr), (23, [1]), (34, [type]), (35, [code]),
      (38, List.ofFn seq), (36, [0, 0])]

/-- `net_buf_ipv4_checksum`. -/
def netBufIpv4Checksum (frame : Nat → UInt8) : Nat → UInt8 :=
  let frame := copyIn frame 24 [0, 0]
  copyIn frame 24 (htons (65535 - onesComplementWordsSum frame 14 20))

/-- `net_buf_icmp4_checksum`. -/
def netBufIcmp4Checksum (frame : Nat → UInt8) (datalen : Nat) : Nat → UInt8 :=
  let frame := copyIn frame 36 [0, 0]
  let frame := copyIn frame 36 (htons (65535 - onesComplementWordsSum frame 34 (8 + datalen)))
  netBufIpv4Checksum (copyIn frame 16 (htons (28 + datalen)))

/-- The echo reply to a request with the given fields. -/
def echoReply (iface : Iface) (reply : Nat → UInt8) (src : Octets 4)
    (seq : Octets 4) (payload : List UInt8) : Outgoing :=
  let reply := netBufIcmp4Init reply iface.ipAddr src 0 0 seq
  let reply := copyIn reply 42 payload
  let reply := netBufIcmp4Checksum reply payload.length
  netTransmitFrame iface reply ((42 + payload.length) % 65536)

/-- The offset of the ICMP header: `4 * ip->nwords` behind the IP header. -/
def icmpStart (frame : Nat → UInt8) : Nat := 14 + 4 * ((frame 14).toNat % 16)

/-- `datalen`, in sixteen bits. -/
def datalen (frame : Nat → UInt8) : Nat :=
  (ntohs frame 16 + 65536 - (4 * ((frame 14).toNat % 16) + 8)) % 65536

/-- The bytes that are copied into the reply. -/
def payload (frame : Nat → UInt8) : List UInt8 := (List.range (datalen frame)).map fun index =>
    frame (icmpStart frame + 8 + index)

/-- `net_icmp_receive`. -/
def netIcmpReceive (iface : Iface) (frame : Nat → UInt8) : Effect :=
  let icmp := icmpStart frame
  if frame icmp = 8 then
    if frame (icmp + 1) = 0 then
      match iface.frame with
      | none => dropped iface
      | some reply =>
        { dropped iface with
          transmitted :=
            [echoReply iface reply (octets frame 26 4) (octets frame (icmp + 4) 4) (payload frame)]
          copied := datalen frame }
    else
      dropped iface
  else
    dropped iface

/-- `net_receive_driver_frame`. -/
def netReceiveDriverFrame (iface : Iface) (frame : Nat → UInt8) : Effect :=
  let ethtype := ntohs frame 12
  if ethtype = 0x0806 then netArpReceive iface frame
  else if ethtype = 0x0800 then
    if frame 23 = 1 then netIcmpReceive iface frame
    else if frame 23 = 17 then { dropped iface with queued := true }
    else dropped iface
  else
    dropped iface

end Cosec.Net.Frames
