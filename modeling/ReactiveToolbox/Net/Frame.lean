import Mathlib.Data.BitVec
import ReactiveToolbox.Io.Buffer
import ReactiveToolbox.Lib.PrefixCode

/-!
# Length-prefixed frames

A frame is a message behind its length in four bytes, little-endian.  `parse_frame`
calls its function for each complete frame at the front of a buffer.  Whatever the
stream is cut into, appending each part to a `Buffer` and consuming what
`parse_frame` returns hands over the messages in order.
-/

namespace ReactiveToolbox.Net

open ReactiveToolbox.Io
open ReactiveToolbox.Lib

/-- `buf[index] & 0xff`, where the `char` is widened to an `int` with its sign. -/
def charAnd (byte : Byte) : BitVec 32 :=
  byte.toBitVec.signExtend 32 &&& 0xff

/-- `get_length(const char*)` of a buffer of at least four bytes. -/
def getLength : List Byte → BitVec 32
  | first :: second :: third :: fourth :: _ =>
      (charAnd fourth <<< 24) ||| (charAnd third <<< 16) ||| (charAnd second <<< 8) |||
        charAnd first
  | _ => 0

/-- `0xff & value`, narrowed to a `char`. -/
def toChar (value : BitVec 32) : Byte :=
  UInt8.ofBitVec ((0xff &&& value).setWidth 8)

/-- `put_length(char*, std::uint32_t)`. -/
def putLength (len : BitVec 32) : List Byte :=
  [toChar len, toChar (len >>> 8), toChar (len >>> 16), toChar (len >>> 24)]

/-- `parse_frame`: the messages that the function is called with, and the consumed bytes. -/
def parseFrame (buf : List Byte) : List (List Byte) × Nat :=
  if buf.length < 4 then ([], 0)
  else
    let total := 4 + (getLength buf).toNat
    if buf.length < total then ([], 0)
    else
      let rest := parseFrame (buf.drop (min total buf.length))
      ((buf.drop 4).take (total - 4) :: rest.1, total + rest.2)
termination_by buf.length
decreasing_by
  rw [List.length_drop]
  omega

/-- A buffer that bytes are received into, with the messages handed over so far. -/
structure FrameReader where
  buffer : Buffer
  messages : List (List Byte)

namespace FrameReader

/-- Nothing has been received. -/
def start : FrameReader where
  buffer := Buffer.create
  messages := []

/-- A chunk is appended and what `parse_frame` returns is consumed. -/
def receive (reader : FrameReader) (chunk : List Byte) : FrameReader :=
  let buffer := reader.buffer.append chunk
  let parsed := parseFrame buffer.readable
  { buffer := buffer.consume parsed.2
    messages := reader.messages ++ parsed.1 }

/-- What some chunks leave, one after another. -/
def receiveAll (chunks : List (List Byte)) : FrameReader :=
  chunks.foldl receive start

end FrameReader

/-! ## Lengths -/

theorem getLsbD_byteMask (index : Nat) :
    (0xff : BitVec 32).getLsbD index = decide (index < 8) := by
  by_cases within : index < 32
  · have all : ∀ index : Fin 32, (0xff : BitVec 32).getLsbD index = decide (index.val < 8) := by
      decide
    exact all ⟨index, within⟩
  · rw [BitVec.getLsbD_of_ge _ _ (Nat.le_of_not_lt within), eq_comm, decide_eq_false_iff_not]
    omega

/-- The sign with which a `char` is widened is masked away. -/
theorem charAnd_toChar (value : BitVec 32) : charAnd (toChar value) = value &&& 0xff := by
  refine BitVec.eq_of_getLsbD_eq fun index within => ?_
  simp only [charAnd, toChar, UInt8.toBitVec_ofBitVec, BitVec.getLsbD_and,
    BitVec.getLsbD_signExtend, BitVec.getLsbD_setWidth, getLsbD_byteMask]
  by_cases low : index < 8
  · simp [low, within]
  · simp [low]

/-- The bits of a value that one byte carries. -/
theorem getLsbD_byte (value : BitVec 32) (shift : Nat) {index : Nat} (within : index < 32) :
    (((value >>> shift) &&& 0xff) <<< shift).getLsbD index =
      (decide (shift ≤ index ∧ index < shift + 8) && value.getLsbD index) := by
  rw [BitVec.getLsbD_shiftLeft, BitVec.getLsbD_and, BitVec.getLsbD_ushiftRight,
    getLsbD_byteMask]
  rcases Nat.lt_or_ge index shift with below | above
  · simp [below, Nat.not_le.mpr below]
  · have same : shift + (index - shift) = index := Nat.add_sub_cancel' above
    have byte : index - shift < 8 ↔ index < shift + 8 := by omega
    simp [within, above, Nat.not_lt.mpr above, same, byte, Bool.and_comm]

/-- Every length is read back, also with its top bit set. -/
theorem getLength_putLength (len : BitVec 32) (rest : List Byte) :
    getLength (putLength len ++ rest) = len := by
  have first : len &&& (0xff : BitVec 32) = ((len >>> 0) &&& 0xff) <<< 0 := by
    rw [BitVec.ushiftRight_zero, BitVec.shiftLeft_zero]
  simp only [putLength, List.cons_append, List.nil_append, getLength, charAnd_toChar]
  rw [first]
  refine BitVec.eq_of_getLsbD_eq fun index within => ?_
  simp only [BitVec.getLsbD_or, getLsbD_byte len _ within]
  cases len.getLsbD index with
  | false => simp
  | true =>
      simp only [Bool.and_true, Bool.or_eq_true, decide_eq_true_eq]
      omega

/-! ## Frames as a code -/

/-- The frame of a message. -/
def encodeFrame (message : List Byte) : List Byte :=
  putLength (BitVec.ofNat 32 message.length) ++ message

/-- The frame at the front of the input, and the rest. -/
def decodeFrame (buf : List Byte) : Option (List Byte × List Byte) :=
  if buf.length < 4 then none
  else if buf.length < 4 + (getLength buf).toNat then none
  else some ((buf.drop 4).take (getLength buf).toNat, buf.drop (4 + (getLength buf).toNat))

variable {message part rest buf : List Byte}

theorem length_encodeFrame (message : List Byte) :
    (encodeFrame message).length = 4 + message.length := by
  rw [encodeFrame, List.length_append]
  rfl

theorem getLength_encodeFrame (short : message.length < 2 ^ 32) (rest : List Byte) :
    (getLength (encodeFrame message ++ rest)).toNat = message.length := by
  rw [encodeFrame, List.append_assoc, getLength_putLength, BitVec.toNat_ofNat,
    Nat.mod_eq_of_lt short]

theorem decodeFrame_encodeFrame (short : message.length < 2 ^ 32) (rest : List Byte) :
    decodeFrame (encodeFrame message ++ rest) = some (message, rest) := by
  have length : (encodeFrame message ++ rest).length = 4 + message.length + rest.length := by
    rw [List.length_append, length_encodeFrame]
  have behind : (encodeFrame message ++ rest).drop 4 = message ++ rest := by
    rw [encodeFrame, List.append_assoc]
    rfl
  rw [decodeFrame, getLength_encodeFrame short, if_neg (by omega), if_neg (by omega),
    ← List.drop_drop, behind, List.take_left, List.drop_left]

/-- A frame is not recognised before it is complete. -/
theorem decodeFrame_cut (short : message.length < 2 ^ 32) (begins : part <+: encodeFrame message)
    (incomplete : part.length < (encodeFrame message).length) : decodeFrame part = none := by
  rw [length_encodeFrame] at incomplete
  by_cases header : part.length < 4
  · rw [decodeFrame, if_pos header]
  · have announced : (getLength part).toNat = message.length := by
      rcases begins with ⟨missing, whole⟩
      have same : getLength part = getLength (part ++ missing) := by
        rcases part with _ | ⟨first, _ | ⟨second, _ | ⟨third, _ | ⟨fourth, tail⟩⟩⟩⟩
        all_goals first
          | rfl
          | exact absurd header (by simp)
      rw [same, whole, ← List.append_nil (encodeFrame message), getLength_encodeFrame short]
    rw [decodeFrame, if_neg header, announced, if_pos incomplete]

theorem decodeFrame_shorter (decoded : decodeFrame buf = some (message, rest)) :
    rest.length < buf.length := by
  unfold decodeFrame at decoded
  split at decoded
  · cases decoded
  split at decoded
  · cases decoded
  · cases decoded
    rw [List.length_drop]
    omega

/-- Frames of messages whose length fits four bytes. -/
def frameCode : PrefixCode (List Byte) Byte where
  encode := encodeFrame
  decode := decodeFrame
  valid := fun message => message.length < 2 ^ 32
  decode_encode := fun _ rest short => decodeFrame_encodeFrame short rest
  decode_cut := fun _ _ short begins incomplete => decodeFrame_cut short begins incomplete
  shorter := fun _ _ _ decoded => decodeFrame_shorter decoded

/-- `parse_frame` decodes as far as it can and consumes what it decoded. -/
theorem parseFrame_eq (buf : List Byte) :
    (parseFrame buf).1 = (frameCode.decodeAll buf).1 ∧ (parseFrame buf).2 ≤ buf.length ∧
      buf.drop (parseFrame buf).2 = (frameCode.decodeAll buf).2 := by
  fun_induction parseFrame buf with
  | case1 buf header =>
      have undecoded : frameCode.decode buf = none := if_pos header
      rw [PrefixCode.decodeAll_none undecoded]
      exact ⟨rfl, Nat.zero_le _, rfl⟩
  | case2 buf header total short =>
      have undecoded : frameCode.decode buf = none :=
        (if_neg header).trans (if_pos short)
      rw [PrefixCode.decodeAll_none undecoded]
      exact ⟨rfl, Nat.zero_le _, rfl⟩
  | case3 buf header total whole rest ih =>
      have decoded : frameCode.decode buf =
          some ((buf.drop 4).take (getLength buf).toNat, buf.drop total) :=
        (if_neg header).trans (if_neg whole)
      have advanced : min total buf.length = total := Nat.min_eq_left (by omega)
      have size : total - 4 = (getLength buf).toNat := Nat.add_sub_cancel_left 4 _
      have same : rest = parseFrame (buf.drop total) := by
        simp only [rest, advanced]
      rw [advanced] at ih
      rcases ih with ⟨messages, consumed, left⟩
      rw [List.length_drop] at consumed
      rw [PrefixCode.decodeAll_some decoded, size, same]
      refine ⟨congrArg _ messages, ?_, ?_⟩
      · simp only
        omega
      · rw [← left, List.drop_drop]

/-! ## Streams that are cut into chunks -/

namespace FrameReader

variable {messages : List (List Byte)} {received chunk : List Byte} {reader : FrameReader}

/-- The reader has handed over the complete frames and holds what is left. -/
structure InStep (messages : List (List Byte)) (received : List Byte) (reader : FrameReader) :
    Prop where
  valid : reader.buffer.Valid
  received : frameCode.Received messages received reader.messages reader.buffer.readable

theorem InStep.receive (inStep : InStep messages received reader)
    (short : ∀ message ∈ messages, message.length < 2 ^ 32)
    (cut : received ++ chunk <+: frameCode.encodeAll messages) :
    InStep messages (received ++ chunk) (reader.receive chunk) := by
  have appended := Buffer.append_valid inStep.valid chunk
  rcases parseFrame_eq (reader.buffer.append chunk).readable with ⟨parsed, consumed, left⟩
  rw [Buffer.length_readable appended.1] at consumed
  have rest := Buffer.consume_valid appended.1 consumed
  refine ⟨rest.1, ?_⟩
  have more := inStep.received.more short cut
  rw [← appended.2, ← parsed, ← left, ← rest.2] at more
  exact more

theorem receiveAll_inStep {chunks : List (List Byte)}
    (short : ∀ message ∈ messages, message.length < 2 ^ 32)
    (cut : chunks.flatten <+: frameCode.encodeAll messages) :
    InStep messages chunks.flatten (receiveAll chunks) := by
  induction chunks using List.reverseRecOn with
  | nil => exact ⟨Buffer.create_valid, .start short⟩
  | append_singleton early chunk ih =>
      rw [List.flatten_append, List.flatten_singleton] at cut ⊢
      rw [receiveAll, List.foldl_append]
      exact (ih ((List.prefix_append _ _).trans cut)).receive short cut

/--
However the encodings of messages are cut into chunks, all of them are handed over in
order, and after each chunk the buffer holds the part of the next frame that has
arrived.
-/
theorem receiveAll_messages {chunks : List (List Byte)}
    (short : ∀ message ∈ messages, message.length < 2 ^ 32)
    (cut : chunks.flatten = (messages.map encodeFrame).flatten) :
    (receiveAll chunks).messages = messages ∧
      ∀ early, early <+: chunks → frameCode.Received messages early.flatten
        (receiveAll early).messages (receiveAll early).buffer.readable := by
  have all : chunks.flatten = frameCode.encodeAll messages := cut
  refine ⟨?_, ?_⟩
  · have begins : chunks.flatten <+: frameCode.encodeAll messages := by
      rw [all]
    have whole := (receiveAll_inStep short begins).received
    rw [all] at whole
    exact (whole.complete short).1
  · rintro early ⟨later, rfl⟩
    refine (receiveAll_inStep short ?_).received
    rw [← all, List.flatten_append]
    exact List.prefix_append _ _

/-- The frames of "Foo" and of an empty message, cut inside each header. -/
theorem receiveAll_messages_foo :
    (receiveAll [[3, 0], [0, 0, 70, 111], [111, 0, 0, 0], [0]]).messages =
        [[70, 111, 111], []] ∧
      ∀ early, early <+: [[3, 0], [0, 0, 70, 111], [111, 0, 0, 0], [0]] →
        frameCode.Received [[70, 111, 111], []] early.flatten (receiveAll early).messages
          (receiveAll early).buffer.readable :=
  receiveAll_messages (by decide) (by decide)

end FrameReader

end ReactiveToolbox.Net
