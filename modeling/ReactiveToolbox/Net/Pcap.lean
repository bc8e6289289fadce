import Mathlib.Algebra.Group.Nat.Defs
import Mathlib.Data.List.Basic
import ReactiveToolbox.Io.Buffer

/-!
# Captured packets

`PcapPacket` reads the headers of a captured frame where they lie in a frame without
options, whatever has been captured of it, and takes the length that the frame had
on the wire for the end of its payload.  Its assertions are compiled out in the
default build.
-/

namespace ReactiveToolbox.Net

open ReactiveToolbox.Io

/-- `sizeof(struct ether_header)`. -/
def etherHeaderSize : Nat := 14

/-- `sizeof(struct ip)`. -/
def ipHeaderSize : Nat := 20

/-- `sizeof(struct tcphdr)`. -/
def tcpHeaderSize : Nat := 20

/-- `sizeof(struct udphdr)`. -/
def udpHeaderSize : Nat := 8

/-- `IPPROTO_TCP`. -/
def ipprotoTcp : Nat := 6

/-- `IPPROTO_UDP`. -/
def ipprotoUdp : Nat := 17

/-- `IPPROTO_PIM`. -/
def ipprotoPim : Nat := 103

/-- `ETHERTYPE_IP`. -/
def ethertypeIp : Nat := 0x0800

/-- `ETHERTYPE_IPV6`. -/
def ethertypeIpv6 : Nat := 0x86dd

/-- `AF_INET`, `AF_INET6` and `AF_UNSPEC`. -/
inductive AddressFamily where
  | inet
  | inet6
  | unspec
  deriving DecidableEq

/-- `SOCK_STREAM`, `SOCK_DGRAM`, or zero. -/
inductive SockType where
  | stream
  | dgram
  | unset
  deriving DecidableEq

/-- `IpProtocol`. -/
structure IpProtocol where
  family : AddressFamily
  protocol : Nat
  sockType : SockType
  deriving DecidableEq

/-- `IpEndpoint`: the bytes of the address, of which `AF_UNSPEC` has none, and the port. -/
structure IpEndpoint where
  address : List Byte
  port : Nat
  deriving DecidableEq

/--
`PcapPacket`: the `caplen` bytes that were captured of a frame, and the length that
the frame had on the wire.
-/
structure PcapPacket where
  packet : List Byte
  wireLen : UInt32
  captured : packet.length ≤ wireLen.toNat

namespace PcapPacket

/-- A byte of the frame; none where it lies beyond the captured bytes. -/
def byteAt (self : PcapPacket) (offset : Nat) : Option Nat :=
  self.packet[offset]?.map UInt8.toNat

/-- `ntohs` of two bytes of the frame. -/
def shortAt (self : PcapPacket) (offset : Nat) : Option Nat := do
  let high ← self.byteAt offset
  let low ← self.byteAt (offset + 1)
  some (high * 256 + low)

/-- So many bytes of the frame. -/
def bytesAt (self : PcapPacket) (offset count : Nat) : Option (List Byte) :=
  if offset + count ≤ self.packet.length then some ((self.packet.drop offset).take count)
  else none

/-- Where `ip_hdr` points to. -/
def ipHdr : Nat :=
  etherHeaderSize

/-- Where `tcp_hdr` and `udp_hdr` point to. -/
def transportHdr : Nat :=
  etherHeaderSize + ipHeaderSize

/-- `ip_hdr()->ip_p`. -/
def ipP (self : PcapPacket) : Option Nat :=
  self.byteAt (ipHdr + 9)

/-- The family that the Ethernet type tells. -/
def protocolFamily (self : PcapPacket) : Option AddressFamily := do
  let etherType ← self.shortAt 12
  some (if etherType = ethertypeIp then .inet
    else if etherType = ethertypeIpv6 then .inet6
    else .unspec)

/-- `data`, as an offset into the frame; none stands for `nullptr`. -/
def data (self : PcapPacket) : Option (Option Nat) := do
  let protocol ← self.ipP
  some (if protocol = ipprotoTcp then some (etherHeaderSize + ipHeaderSize + tcpHeaderSize)
    else if protocol = ipprotoUdp ∨ protocol = ipprotoPim then
      some (etherHeaderSize + ipHeaderSize + udpHeaderSize)
    else none)

/-- `size`: `pkthdr->len` is widened to `size_t` before the headers are taken off. -/
def size (self : PcapPacket) : Option UInt64 := do
  let family ← self.protocolFamily
  match family with
  | .inet =>
      let protocol ← self.ipP
      some (if protocol = ipprotoTcp then
          self.wireLen.toUInt64 - (etherHeaderSize + ipHeaderSize + tcpHeaderSize).toUInt64
        else if protocol = ipprotoUdp then
          self.wireLen.toUInt64 - (etherHeaderSize + ipHeaderSize + udpHeaderSize).toUInt64
        else 0)
  | .inet6 | .unspec => some 0

/-- `src_port` and `dst_port`, which differ in where the port lies in its header. -/
def portAt (self : PcapPacket) (offset : Nat) : Option Nat := do
  let protocol ← self.ipP
  if protocol = ipprotoTcp ∨ protocol = ipprotoUdp then self.shortAt (transportHdr + offset)
  else some 0

/-- `src_port`. -/
def srcPort (self : PcapPacket) : Option Nat :=
  self.portAt 0

/-- `dst_port`. -/
def dstPort (self : PcapPacket) : Option Nat :=
  self.portAt 2

/--
`src` and `dst`, which differ in which address of the IPv4 header they begin to read
at, also where there is no IPv4 header.
-/
def endpointAt (self : PcapPacket) (offset : Nat) (port : Option Nat) : Option IpEndpoint := do
  let family ← self.protocolFamily
  match family with
  | .inet =>
      let address ← self.bytesAt (ipHdr + offset) 4
      let port ← port
      some ⟨address, port⟩
  | .inet6 =>
      let address ← self.bytesAt (ipHdr + offset) 16
      let port ← port
      some ⟨address, port⟩
  | .unspec => some ⟨[], 0⟩

/-- `src`. -/
def src (self : PcapPacket) : Option IpEndpoint :=
  self.endpointAt 12 self.srcPort

/-- `dst`. -/
def dst (self : PcapPacket) : Option IpEndpoint :=
  self.endpointAt 16 self.dstPort

/-- `protocol`. -/
def protocol (self : PcapPacket) : Option IpProtocol := do
  let ipProto ← self.ipP
  let family ← self.protocolFamily
  some ⟨family, ipProto,
    if ipProto = ipprotoTcp then .stream else if ipProto = ipprotoUdp then .dgram else .unset⟩

/-- `src_host`, as the four bytes that `inet_ntop` prints. -/
def srcHost (self : PcapPacket) : Option (List Byte) :=
  self.bytesAt (ipHdr + 12) 4

/-- `dst_host`, as the four bytes that `inet_ntop` prints. -/
def dstHost (self : PcapPacket) : Option (List Byte) :=
  self.bytesAt (ipHdr + 16) 4

/-! ## Staying within what was captured -/

/-- Every accessor stays within the captured bytes, and so does the payload it reports. -/
structure InBounds (frame : PcapPacket) : Prop where
  protocolFamily : frame.protocolFamily.isSome
  data : frame.data.isSome
  size : frame.size.isSome
  srcPort : frame.srcPort.isSome
  dstPort : frame.dstPort.isSome
  src : frame.src.isSome
  dst : frame.dst.isSome
  protocol : frame.protocol.isSome
  srcHost : frame.srcHost.isSome
  dstHost : frame.dstHost.isSome
  notWrapped : ∀ size, frame.size = some size → size.toNat ≤ frame.wireLen.toNat
  payload : ∀ offset size, frame.data = some (some offset) → frame.size = some size →
    offset + size.toNat ≤ frame.packet.length
  noPayload : frame.data = some none → frame.size = some 0

/-- The type of the frame, of bytes that are captured. -/
def etherType (self : PcapPacket) : Nat :=
  (self.shortAt 12).getD 0

/-- The protocol of the IP packet, of a byte that is captured. -/
def ipProtocol (self : PcapPacket) : Nat :=
  self.ipP.getD 0

/--
The headers that the accessors read are captured, and of an IPv4 packet whose
payload is reported the whole frame is.
-/
structure Covers (frame : PcapPacket) : Prop where
  addresses : 34 ≤ frame.packet.length
  addresses6 : frame.etherType = ethertypeIpv6 → 46 ≤ frame.packet.length
  tcp : frame.ipProtocol = ipprotoTcp → 54 ≤ frame.packet.length
  udp : frame.ipProtocol = ipprotoUdp → 42 ≤ frame.packet.length
  pim : frame.ipProtocol = ipprotoPim → 42 ≤ frame.packet.length
  whole : frame.etherType = ethertypeIp →
    frame.ipProtocol = ipprotoTcp ∨ frame.ipProtocol = ipprotoUdp →
      frame.wireLen.toNat = frame.packet.length


theorem byteAt_isSome_iff (self : PcapPacket) (offset : Nat) :
    (self.byteAt offset).isSome ↔ offset < self.packet.length := by
  simp [byteAt]

theorem shortAt_isSome_iff (self : PcapPacket) (offset : Nat) :
    (self.shortAt offset).isSome ↔ offset + 1 < self.packet.length := by
  constructor
  · intro read
    by_contra beyond
    have low : self.byteAt (offset + 1) = none := by
      rw [← Option.not_isSome_iff_eq_none, byteAt_isSome_iff]
      exact beyond
    cases high : self.byteAt offset <;> simp [shortAt, high, low] at read
  · intro within
    obtain ⟨high, readHigh⟩ := Option.isSome_iff_exists.mp
      ((self.byteAt_isSome_iff offset).mpr (by omega))
    obtain ⟨low, readLow⟩ := Option.isSome_iff_exists.mp
      ((self.byteAt_isSome_iff (offset + 1)).mpr within)
    simp [shortAt, readHigh, readLow]

theorem bytesAt_isSome_iff (self : PcapPacket) (offset count : Nat) :
    (self.bytesAt offset count).isSome ↔ offset + count ≤ self.packet.length := by
  simp [bytesAt]

/-- The protocol is read wherever the first twenty-four bytes are captured. -/
theorem ipP_eq (self : PcapPacket) (captured : 24 ≤ self.packet.length) :
    self.ipP = some self.ipProtocol := by
  obtain ⟨protocol, read⟩ := Option.isSome_iff_exists.mp
    ((self.byteAt_isSome_iff (ipHdr + 9)).mpr (by simp only [ipHdr, etherHeaderSize]; omega))
  have read : self.ipP = some protocol := read
  simp [ipProtocol, read]

/-- The family is decided by the type of the frame wherever that is captured. -/
theorem protocolFamily_eq (self : PcapPacket) (captured : 14 ≤ self.packet.length) :
    self.protocolFamily = some (if self.etherType = ethertypeIp then .inet
      else if self.etherType = ethertypeIpv6 then .inet6 else .unspec) := by
  obtain ⟨etherType, read⟩ := Option.isSome_iff_exists.mp
    ((self.shortAt_isSome_iff 12).mpr (by omega))
  simp [protocolFamily, PcapPacket.etherType, read]

/-- How many header bytes lie before the payload of a protocol. -/
def headersSize (protocol : Nat) : Nat :=
  if protocol = ipprotoTcp then etherHeaderSize + ipHeaderSize + tcpHeaderSize
  else etherHeaderSize + ipHeaderSize + udpHeaderSize

theorem size_eq_of_reported (self : PcapPacket) (captured : 24 ≤ self.packet.length)
    (ip : self.etherType = ethertypeIp)
    (reported : self.ipProtocol = ipprotoTcp ∨ self.ipProtocol = ipprotoUdp) :
    self.size = some (self.wireLen.toUInt64 - (headersSize self.ipProtocol).toUInt64) := by
  have family := self.protocolFamily_eq (by omega)
  rw [if_pos ip] at family
  rcases reported with tcp | udp
  · simp [size, family, self.ipP_eq captured, headersSize, tcp]
  · simp [size, family, self.ipP_eq captured, headersSize, udp, ipprotoTcp, ipprotoUdp]

theorem size_eq_zero (self : PcapPacket) (captured : 24 ≤ self.packet.length)
    (other : ¬ (self.etherType = ethertypeIp ∧
      (self.ipProtocol = ipprotoTcp ∨ self.ipProtocol = ipprotoUdp))) :
    self.size = some 0 := by
  have family := self.protocolFamily_eq (by omega)
  by_cases ip : self.etherType = ethertypeIp
  · have notTcp : self.ipProtocol ≠ ipprotoTcp := fun tcp => other ⟨ip, .inl tcp⟩
    have notUdp : self.ipProtocol ≠ ipprotoUdp := fun udp => other ⟨ip, .inr udp⟩
    rw [if_pos ip] at family
    simp [size, family, self.ipP_eq captured, notTcp, notUdp]
  · rw [if_neg ip] at family
    by_cases ip6 : self.etherType = ethertypeIpv6 <;> simp [size, family, ip6]

theorem data_eq (self : PcapPacket) (captured : 24 ≤ self.packet.length) :
    self.data = some (if self.ipProtocol = ipprotoTcp ∨ self.ipProtocol = ipprotoUdp ∨
        self.ipProtocol = ipprotoPim then some (headersSize self.ipProtocol) else none) := by
  by_cases tcp : self.ipProtocol = ipprotoTcp
  · simp [data, self.ipP_eq captured, headersSize, tcp]
  · simp [data, self.ipP_eq captured, headersSize, tcp]

/-- A difference taken in `size_t` is the difference of the numbers or has wrapped. -/
theorem size_toNat (wireLen : UInt32) (protocol : Nat) :
    (wireLen.toUInt64 - (headersSize protocol).toUInt64).toNat =
      if headersSize protocol ≤ wireLen.toNat then wireLen.toNat - headersSize protocol
      else 2 ^ 64 + wireLen.toNat - headersSize protocol := by
  have headers : headersSize protocol = 54 ∨ headersSize protocol = 42 := by
    unfold headersSize
    split
    · exact .inl rfl
    · exact .inr rfl
  have wire := wireLen.toNat_lt
  rw [UInt64.toNat_sub]
  rcases headers with tcp | udp
  · rw [tcp]
    simp
    split <;> omega
  · rw [udp]
    simp
    split <;> omega

theorem portAt_isSome_iff (self : PcapPacket) (captured : 24 ≤ self.packet.length)
    (offset : Nat) :
    (self.portAt offset).isSome ↔
      (self.ipProtocol = ipprotoTcp ∨ self.ipProtocol = ipprotoUdp →
        transportHdr + offset + 1 < self.packet.length) := by
  by_cases reported : self.ipProtocol = ipprotoTcp ∨ self.ipProtocol = ipprotoUdp
  · simp [portAt, self.ipP_eq captured, reported, shortAt_isSome_iff]
  · simp [portAt, self.ipP_eq captured, reported]

theorem endpointAt_isSome (self : PcapPacket) (captured : 24 ≤ self.packet.length)
    (offset : Nat) (port : Option Nat) (portRead : port.isSome)
    (address : self.etherType = ethertypeIp → ipHdr + offset + 4 ≤ self.packet.length)
    (address6 : self.etherType = ethertypeIpv6 → ipHdr + offset + 16 ≤ self.packet.length) :
    (self.endpointAt offset port).isSome := by
  obtain ⟨port, rfl⟩ := Option.isSome_iff_exists.mp portRead
  have family := self.protocolFamily_eq (by omega)
  by_cases ip : self.etherType = ethertypeIp
  · obtain ⟨bytes, read⟩ := Option.isSome_iff_exists.mp
      ((self.bytesAt_isSome_iff _ _).mpr (address ip))
    rw [if_pos ip] at family
    simp [endpointAt, family, read]
  · rw [if_neg ip] at family
    by_cases ip6 : self.etherType = ethertypeIpv6
    · obtain ⟨bytes, read⟩ := Option.isSome_iff_exists.mp
        ((self.bytesAt_isSome_iff _ _).mpr (address6 ip6))
      rw [if_pos ip6] at family
      simp [endpointAt, family, read]
    · rw [if_neg ip6] at family
      simp [endpointAt, family]

/-- The address of an IPv6 frame is read sixteen bytes from where the IPv4 one begins. -/
theorem endpointAt_bounds6 (self : PcapPacket) (captured : 24 ≤ self.packet.length)
    (offset : Nat) (port : Option Nat) (ip6 : self.etherType = ethertypeIpv6)
    (read : (self.endpointAt offset port).isSome) :
    ipHdr + offset + 16 ≤ self.packet.length := by
  have family := self.protocolFamily_eq (by omega)
  have notIp : self.etherType ≠ ethertypeIp := by
    rw [ip6]
    decide
  rw [if_neg notIp, if_pos ip6] at family
  rw [← bytesAt_isSome_iff]
  by_contra beyond
  rw [Option.not_isSome_iff_eq_none] at beyond
  simp [endpointAt, family, beyond] at read

/-- What is captured covers what the accessors read. -/
theorem Covers.inBounds {self : PcapPacket} (covers : self.Covers) : self.InBounds := by
  obtain ⟨addresses, addresses6, tcp, udp, pim, whole⟩ := covers
  have captured : 24 ≤ self.packet.length := by omega
  have ports : self.ipProtocol = ipprotoTcp ∨ self.ipProtocol = ipprotoUdp →
      42 ≤ self.packet.length := by
    rintro (isTcp | isUdp)
    · have := tcp isTcp
      omega
    · exact udp isUdp
  have srcPort : self.srcPort.isSome := by
    refine (self.portAt_isSome_iff captured 0).mpr fun reported => ?_
    have := ports reported
    simp only [transportHdr, etherHeaderSize, ipHeaderSize]
    omega
  have dstPort : self.dstPort.isSome := by
    refine (self.portAt_isSome_iff captured 2).mpr fun reported => ?_
    have := ports reported
    simp only [transportHdr, etherHeaderSize, ipHeaderSize]
    omega
  have wireCaptured := self.captured
  -- the payload of a reported protocol begins within what is captured
  have headers : self.ipProtocol = ipprotoTcp ∨ self.ipProtocol = ipprotoUdp ∨
      self.ipProtocol = ipprotoPim → headersSize self.ipProtocol ≤ self.packet.length := by
    rintro (isTcp | isUdp | isPim)
    · rw [isTcp]
      exact tcp isTcp
    · rw [isUdp]
      exact udp isUdp
    · rw [isPim]
      exact pim isPim
  refine ⟨?_, ?_, ?_, srcPort, dstPort, ?_, ?_, ?_, ?_, ?_, ?_, ?_, ?_⟩
  · simp [self.protocolFamily_eq (by omega)]
  · simp [self.data_eq captured]
  · by_cases reported : self.etherType = ethertypeIp ∧
        (self.ipProtocol = ipprotoTcp ∨ self.ipProtocol = ipprotoUdp)
    · simp [self.size_eq_of_reported captured reported.1 reported.2]
    · simp [self.size_eq_zero captured reported]
  · refine self.endpointAt_isSome captured 12 _ srcPort (fun _ => ?_) fun ip6 => ?_
    · simp only [ipHdr, etherHeaderSize]
      omega
    · have := addresses6 ip6
      simp only [ipHdr, etherHeaderSize]
      omega
  · refine self.endpointAt_isSome captured 16 _ dstPort (fun _ => ?_) fun ip6 => ?_
    · simp only [ipHdr, etherHeaderSize]
      omega
    · have := addresses6 ip6
      simp only [ipHdr, etherHeaderSize]
      omega
  · simp [protocol, self.ipP_eq captured, self.protocolFamily_eq (by omega)]
  · refine (self.bytesAt_isSome_iff _ _).mpr ?_
    simp only [ipHdr, etherHeaderSize]
    omega
  · refine (self.bytesAt_isSome_iff _ _).mpr ?_
    simp only [ipHdr, etherHeaderSize]
    omega
  · intro size isSize
    by_cases reported : self.etherType = ethertypeIp ∧
        (self.ipProtocol = ipprotoTcp ∨ self.ipProtocol = ipprotoUdp)
    · rw [self.size_eq_of_reported captured reported.1 reported.2] at isSize
      obtain rfl := Option.some.inj isSize
      have fits := headers (reported.2.imp_right .inl)
      rw [size_toNat, if_pos (by omega)]
      omega
    · rw [self.size_eq_zero captured reported] at isSize
      obtain rfl := Option.some.inj isSize
      exact Nat.zero_le _
  · intro offset size isData isSize
    rw [self.data_eq captured] at isData
    split at isData
    · rename_i known
      simp only [Option.some.injEq] at isData
      subst isData
      have fits := headers known
      by_cases reported : self.etherType = ethertypeIp ∧
          (self.ipProtocol = ipprotoTcp ∨ self.ipProtocol = ipprotoUdp)
      · rw [self.size_eq_of_reported captured reported.1 reported.2] at isSize
        obtain rfl := Option.some.inj isSize
        have wire := whole reported.1 reported.2
        rw [size_toNat, if_pos (by omega)]
        omega
      · rw [self.size_eq_zero captured reported] at isSize
        obtain rfl := Option.some.inj isSize
        exact fits
    · simp at isData
  · intro noData
    rw [self.data_eq captured] at noData
    refine self.size_eq_zero captured fun reported => ?_
    rw [if_pos (reported.2.imp_right .inl)] at noData
    simp at noData

/-- The accessors read all that has to be captured. -/
theorem InBounds.covers {self : PcapPacket} (inBounds : self.InBounds) : self.Covers := by
  have addresses : 34 ≤ self.packet.length := by
    have read := (self.bytesAt_isSome_iff _ _).mp inBounds.dstHost
    simp only [ipHdr, etherHeaderSize] at read
    omega
  have captured : 24 ≤ self.packet.length := by omega
  have wireCaptured := self.captured
  have payload : self.ipProtocol = ipprotoTcp ∨ self.ipProtocol = ipprotoUdp ∨
      self.ipProtocol = ipprotoPim →
      ∃ size, self.size = some size ∧
        headersSize self.ipProtocol + size.toNat ≤ self.packet.length := by
    intro known
    obtain ⟨size, isSize⟩ := Option.isSome_iff_exists.mp inBounds.size
    refine ⟨size, isSize, inBounds.payload _ size ?_ isSize⟩
    rw [self.data_eq captured, if_pos known]
  refine ⟨addresses, ?_, ?_, ?_, ?_, ?_⟩
  · intro ip6
    have read := self.endpointAt_bounds6 captured 16 _ ip6 inBounds.dst
    simp only [ipHdr, etherHeaderSize] at read
    omega
  · intro tcp
    obtain ⟨size, _, fits⟩ := payload (.inl tcp)
    rw [tcp] at fits
    change 54 + size.toNat ≤ _ at fits
    omega
  · intro udp
    obtain ⟨size, _, fits⟩ := payload (.inr (.inl udp))
    rw [udp] at fits
    change 42 + size.toNat ≤ _ at fits
    omega
  · intro pim
    obtain ⟨size, _, fits⟩ := payload (.inr (.inr pim))
    rw [pim] at fits
    change 42 + size.toNat ≤ _ at fits
    omega
  · intro ip reported
    obtain ⟨size, isSize, fits⟩ := payload (reported.imp_right .inl)
    rw [self.size_eq_of_reported captured ip reported] at isSize
    obtain rfl := Option.some.inj isSize
    rw [size_toNat] at fits
    split at fits <;> omega

/--
Whatever is read of a captured frame, and the payload that is reported, lies within
the captured bytes, exactly for the frames whose headers are captured as they are
read and which are captured whole where a payload is reported.
-/
theorem inBounds_iff_covers (self : PcapPacket) : self.InBounds ↔ self.Covers :=
  ⟨InBounds.covers, Covers.inBounds⟩

/-- A TCP segment of 1514 bytes on the wire, of which the headers have been captured. -/
def truncatedSegment : PcapPacket where
  packet := List.replicate 12 0 ++ [0x08, 0x00] ++ List.replicate 9 0 ++ [6] ++
    List.replicate 30 0
  wireLen := 1514
  captured := by decide

/-- The payload of a truncated frame is reported to go on beyond what was captured. -/
theorem truncatedSegment_beyond :
    truncatedSegment.data = some (some 54) ∧ truncatedSegment.size = some 1460 ∧
      truncatedSegment.packet.length = 54 ∧ ¬ truncatedSegment.InBounds := by
  have isData : truncatedSegment.data = some (some 54) := by decide
  have isSize : truncatedSegment.size = some 1460 := by decide
  refine ⟨isData, isSize, by decide, fun inBounds => ?_⟩
  have fits := inBounds.payload 54 1460 isData isSize
  exact absurd fits (by decide)

end PcapPacket

end ReactiveToolbox.Net
