import ReactiveToolbox.Net.Pcap

/-!
# The payload of an IPv4 frame

What the headers of a frame say about its payload, by their own lengths and by the
total length of the IP packet, and for which frames `PcapPacket` reports the same.
-/

namespace ReactiveToolbox.Net.PcapPacket

open ReactiveToolbox.Io

/-- A byte of the frame that is known to be captured. -/
def octet (frame : PcapPacket) (offset : Nat) : Nat :=
  (frame.byteAt offset).getD 0

/-- Two bytes of the frame that are known to be captured, in network order. -/
def short (frame : PcapPacket) (offset : Nat) : Nat :=
  (frame.shortAt offset).getD 0

/-- The version of the IP header. -/
def ipVersion (frame : PcapPacket) : Nat :=
  frame.octet ipHdr / 16

/-- The length of the IP header, in words of four bytes. -/
def ipHeaderLength (frame : PcapPacket) : Nat :=
  frame.octet ipHdr % 16

/-- The length of the IP packet, its header included. -/
def totalLength (frame : PcapPacket) : Nat :=
  frame.short (ipHdr + 2)

/-- The more-fragments flag and the fragment offset, without the other two flags. -/
def fragmentField (frame : PcapPacket) : Nat :=
  frame.short (ipHdr + 6) % 2 ^ 14

/-- Where the transport header begins by the length of the IP header. -/
def transportOffset (frame : PcapPacket) : Nat :=
  ipHdr + 4 * frame.ipHeaderLength

/-- The length of the TCP header, in words of four bytes. -/
def dataOffset (frame : PcapPacket) : Nat :=
  frame.octet (frame.transportOffset + 12) / 16

/-- The length in the UDP header. -/
def udpLength (frame : PcapPacket) : Nat :=
  frame.short (frame.transportOffset + 4)

/-- The length of the transport header in bytes. -/
def transportHeaderLength (frame : PcapPacket) : Nat :=
  if frame.ipProtocol = ipprotoTcp then 4 * frame.dataOffset else udpHeaderSize

/-- Where the payload begins by the lengths in the headers. -/
def payloadOffset (frame : PcapPacket) : Nat :=
  frame.transportOffset + frame.transportHeaderLength

/-- How long the payload is by the lengths in the headers. -/
def payloadLength (frame : PcapPacket) : Nat :=
  frame.totalLength - (4 * frame.ipHeaderLength + frame.transportHeaderLength)

/--
A frame captured whole that carries an unfragmented IPv4 packet with TCP or UDP;
what lies behind the IP packet is padding.
-/
structure WellFormed (frame : PcapPacket) : Prop where
  whole : frame.wireLen.toNat = frame.packet.length
  ip : frame.etherType = ethertypeIp
  version : frame.ipVersion = 4
  headerLength : 5 ≤ frame.ipHeaderLength
  unfragmented : frame.fragmentField = 0
  transport : frame.ipProtocol = ipprotoTcp ∨ frame.ipProtocol = ipprotoUdp
  tcp : frame.ipProtocol = ipprotoTcp → 5 ≤ frame.dataOffset
  udp : frame.ipProtocol = ipprotoUdp →
    frame.udpLength = frame.totalLength - 4 * frame.ipHeaderLength
  headers : 4 * frame.ipHeaderLength + frame.transportHeaderLength ≤ frame.totalLength
  captured : etherHeaderSize + frame.totalLength ≤ frame.packet.length

/-- The payload and the ports that are reported are those that the headers say. -/
structure ReportsPayload (frame : PcapPacket) : Prop where
  data : frame.data = some (some frame.payloadOffset)
  size : frame.size.map UInt64.toNat = some frame.payloadLength
  srcPort : frame.srcPort = some (frame.short frame.transportOffset)
  dstPort : frame.dstPort = some (frame.short (frame.transportOffset + 2))

/-- The headers carry no options, and the frame ends with the IP packet. -/
structure FixedLayout (frame : PcapPacket) : Prop where
  headerLength : frame.ipHeaderLength = 5
  tcp : frame.ipProtocol = ipprotoTcp → frame.dataOffset = 5
  noPadding : frame.packet.length = etherHeaderSize + frame.totalLength

/-- A well-formed frame holds the headers that it is read for. -/
theorem WellFormed.headersSize_le {frame : PcapPacket} (formed : frame.WellFormed) :
    headersSize frame.ipProtocol ≤ frame.packet.length := by
  obtain ⟨_, _, _, headerLength, _, transport, tcp, _, headers, captured⟩ := formed
  rcases transport with isTcp | isUdp
  · have := tcp isTcp
    simp only [transportHeaderLength, headersSize, isTcp, if_true, etherHeaderSize,
      ipHeaderSize, tcpHeaderSize] at headers captured ⊢
    omega
  · have notTcp : ¬ frame.ipProtocol = ipprotoTcp := by
      rw [isUdp]
      decide
    simp only [transportHeaderLength, headersSize, notTcp, if_false, etherHeaderSize,
      ipHeaderSize, udpHeaderSize] at headers captured ⊢
    omega

/-- The payload that is reported starts behind headers of fixed sizes. -/
theorem WellFormed.data_eq {frame : PcapPacket} (formed : frame.WellFormed)
    (long : 24 ≤ frame.packet.length) :
    frame.data = some (some (headersSize frame.ipProtocol)) := by
  rw [PcapPacket.data_eq frame long, if_pos (formed.transport.imp_right .inl)]

/-- The payload that is reported ends with the frame. -/
theorem WellFormed.size_eq {frame : PcapPacket} (formed : frame.WellFormed)
    (long : 24 ≤ frame.packet.length) :
    frame.size.map UInt64.toNat =
      some (frame.packet.length - headersSize frame.ipProtocol) := by
  have fits := formed.headersSize_le
  rw [frame.size_eq_of_reported long formed.ip formed.transport, Option.map_some,
    size_toNat, formed.whole, if_pos fits]

/-- A port is read where a header of fixed size would end. -/
theorem WellFormed.portAt_eq {frame : PcapPacket} (formed : frame.WellFormed)
    (long : 38 ≤ frame.packet.length) (offset : Nat) (inPorts : offset ≤ 2) :
    frame.portAt offset = some (frame.short (transportHdr + offset)) := by
  obtain ⟨port, read⟩ := Option.isSome_iff_exists.mp
    ((frame.shortAt_isSome_iff (transportHdr + offset)).mpr (by
      simp only [transportHdr, etherHeaderSize, ipHeaderSize]
      omega))
  simp [portAt, frame.ipP_eq (by omega), formed.transport, short, read]

/--
Of a well-formed frame the payload and the ports are reported as the headers say
exactly where no header has options and nothing follows the IP packet.
-/
theorem reportsPayload_iff_fixedLayout (frame : PcapPacket) (formed : frame.WellFormed) :
    frame.ReportsPayload ↔ frame.FixedLayout := by
  have fits := formed.headersSize_le
  have long : 42 ≤ frame.packet.length := by
    refine Nat.le_trans ?_ fits
    unfold headersSize
    split <;> decide
  have isData := formed.data_eq (by omega)
  have isSize := formed.size_eq (by omega)
  have words := formed.headerLength
  have headers := formed.headers
  have captured := formed.captured
  constructor
  · rintro ⟨data, size, _, _⟩
    rw [isData] at data
    rw [isSize] at size
    simp only [Option.some.injEq] at data size
    simp only [etherHeaderSize] at captured
    rcases formed.transport with tcp | udp
    · have moreWords := formed.tcp tcp
      simp only [headersSize, payloadOffset, payloadLength, transportOffset,
        transportHeaderLength, tcp, if_true, ipHdr, etherHeaderSize, ipHeaderSize,
        tcpHeaderSize] at data size headers
      refine ⟨by omega, fun _ => by omega, ?_⟩
      simp only [etherHeaderSize]
      omega
    · have notTcp : ¬ frame.ipProtocol = ipprotoTcp := by
        rw [udp]
        decide
      simp only [headersSize, payloadOffset, payloadLength, transportOffset,
        transportHeaderLength, notTcp, if_false, ipHdr, etherHeaderSize, ipHeaderSize,
        udpHeaderSize] at data size headers
      refine ⟨by omega, fun tcp => absurd tcp notTcp, ?_⟩
      simp only [etherHeaderSize]
      omega
  · rintro ⟨fiveWords, tcpWords, noPadding⟩
    have offset : frame.transportOffset = transportHdr := by
      simp [transportOffset, fiveWords, transportHdr, ipHdr, ipHeaderSize]
    have headersEq : headersSize frame.ipProtocol =
        transportHdr + frame.transportHeaderLength := by
      by_cases tcp : frame.ipProtocol = ipprotoTcp
      · simp [headersSize, transportHeaderLength, tcp, tcpWords tcp, transportHdr,
          tcpHeaderSize]
      · simp [headersSize, transportHeaderLength, tcp, transportHdr]
    refine ⟨?_, ?_, ?_, ?_⟩
    · rw [isData, payloadOffset, offset, headersEq]
    · rw [isSize, headersEq, noPadding, payloadLength, fiveWords]
      congr 1
      simp only [transportHdr, etherHeaderSize, ipHeaderSize]
      omega
    · rw [offset]
      exact formed.portAt_eq (by omega) 0 (by decide)
    · rw [offset]
      exact formed.portAt_eq (by omega) 2 (by decide)

/-- An Ethernet header, an IP header and a TCP header of so many words, and bytes behind them. -/
def tcpFrame (total words : Byte) (rest : List Byte) (short : rest.length < 4096) :
    PcapPacket where
  packet := List.replicate 12 0 ++ [0x08, 0x00] ++
    [0x45, 0, 0, total, 0, 0, 0x40, 0, 64, 6, 0, 0, 10, 0, 0, 1, 10, 0, 0, 2] ++
    [0x1f, 0x90, 0xc0, 0x01, 0, 0, 0, 1, 0, 0, 0, 1, words, 0x18, 0, 0, 0, 0, 0, 0] ++ rest
  wireLen := (54 + rest.length).toUInt32
  captured := by
    have wire : (54 + rest.length).toUInt32.toNat = 54 + rest.length :=
      Nat.mod_eq_of_lt (by omega)
    rw [wire]
    simp only [List.length_append, List.length_replicate, List.length_cons, List.length_nil]
    omega

/-- A segment of three bytes without options: the payload is reported as it is. -/
theorem reportsPayload_three_bytes :
    (tcpFrame 43 0x50 [1, 2, 3] (by decide)).ReportsPayload := by
  refine (reportsPayload_iff_fixedLayout _ ?_).mpr ?_
  · constructor <;> decide
  · constructor <;> decide

/-- A segment of three bytes behind a TCP header with one word of options. -/
theorem tcpFrame_options_reported :
    let frame := tcpFrame 47 0x60 [1, 1, 1, 1, 1, 2, 3] (by decide)
    frame.WellFormed ∧ frame.payloadOffset = 58 ∧ frame.payloadLength = 3 ∧
      frame.data = some (some 54) ∧ frame.size = some 7 ∧ ¬ frame.ReportsPayload := by
  have isData : (tcpFrame 47 0x60 [1, 1, 1, 1, 1, 2, 3] (by decide)).data =
      some (some 54) := by decide
  have offset : (tcpFrame 47 0x60 [1, 1, 1, 1, 1, 2, 3] (by decide)).payloadOffset = 58 := by
    decide
  refine ⟨by constructor <;> decide, offset, by decide, isData, by decide, fun reports => ?_⟩
  have said := reports.data
  rw [isData, offset] at said
  exact absurd said (by decide)

end ReactiveToolbox.Net.PcapPacket
