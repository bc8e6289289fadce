import ReactiveToolbox.Lib.Machine
import ReactiveToolbox.Net.Frame

/-!
# Frames where `std::size_t` is narrow

`parse_frame` adds the size of the header to the length that the peer has sent, as a
`std::size_t`.  With 64 bits the sum is exact.  With 32 bits the last four lengths wrap
around to a total of less than the header, which every buffer seems to hold: the
function is then called with a range that ends behind the input, and after a total of
zero the loop is where it was.
-/

namespace ReactiveToolbox.Net

open ReactiveToolbox.Io
open ReactiveToolbox.Lib

/-- The widths of `std::size_t` on the supported processors. -/
inductive SizeWidth where
  | bits32
  | bits64
deriving DecidableEq, Repr

/-- The number of values of a `std::size_t`. -/
def SizeWidth.modulus : SizeWidth → Nat
  | .bits32 => 4294967296
  | .bits64 => 18446744073709551616

/-- `ConstBuffer` of a part of the input: where it begins there, and its size. -/
structure ConstBuffer where
  data : Nat
  size : Nat
deriving DecidableEq, Repr

/-- `advance`. -/
def ConstBuffer.advance (buf : ConstBuffer) (n : Nat) : ConstBuffer :=
  let offset := min n buf.size
  { data := buf.data + offset
    size := buf.size - offset }

/-- The bytes that a range selects from the input. -/
def ConstBuffer.bytes (input : List Byte) (buf : ConstBuffer) : List Byte :=
  (input.drop buf.data).take buf.size

/-- The variables of the loop in `parse_frame`, with the calls of its function so far. -/
structure FrameLoop where
  buf : ConstBuffer
  consumed : Nat
  calls : List ConstBuffer
deriving DecidableEq, Repr

namespace FrameLoop

/-- The loop before its first round. -/
def start (input : List Byte) : FrameLoop where
  buf := { data := 0, size := input.length }
  consumed := 0
  calls := []

/-- `total`: the size of the header and the length, added as `std::size_t`. -/
def total (width : SizeWidth) (input : List Byte) (loop : FrameLoop) : Nat :=
  (4 + (getLength (input.drop loop.buf.data)).toNat) % width.modulus

/-- What the function is called with, whose size is a `std::size_t` again. -/
def message (width : SizeWidth) (input : List Byte) (loop : FrameLoop) : ConstBuffer where
  data := loop.buf.data + 4
  size := (loop.total width input + width.modulus - 4) % width.modulus

/-- One turn of the loop in `parse_frame`, which has no next one after a `break`. -/
def turn (width : SizeWidth) (input : List Byte) (loop : FrameLoop) : Option FrameLoop :=
  if loop.buf.size < 4 then none
  else if loop.buf.size < loop.total width input then none
  else
    some
      { buf := loop.buf.advance (loop.total width input)
        consumed := (loop.consumed + loop.total width input) % width.modulus
        calls := loop.calls ++ [loop.message width input] }

end FrameLoop

/-! ## What the loop should do -/

/-- The places in the input at which a frame begins or the last complete frame ends. -/
inductive FrameBoundary (input : List Byte) : Nat → Prop where
  | first : FrameBoundary input 0
  | next {place : Nat} :
      FrameBoundary input place →
      place + 4 ≤ input.length →
      place + 4 + (getLength (input.drop place)).toNat ≤ input.length →
      FrameBoundary input (place + 4 + (getLength (input.drop place)).toNat)

/-- Ranges inside the input, one behind the other. -/
structure Separate (input : List Byte) (calls : List ConstBuffer) : Prop where
  inside : ∀ call ∈ calls, call.data + call.size ≤ input.length
  apart : calls.Pairwise fun earlier later => earlier.data + earlier.size ≤ later.data

/--
`parse_frame` ends, has called its function with separate ranges of the input, and
returns a count within the input that ends at the boundary of a frame.
-/
def ParsesSafely (width : SizeWidth) (input : List Byte) : Prop :=
  ∃ final, Ends (FrameLoop.turn width input) (.start input) final ∧
    Separate input final.calls ∧ final.consumed ≤ input.length ∧
    FrameBoundary input final.consumed

/-- No frame of the input announces a length that the header does not fit on top of. -/
def LengthsFit (width : SizeWidth) (input : List Byte) : Prop :=
  ∀ place, FrameBoundary input place → place + 4 ≤ input.length →
    4 + (getLength (input.drop place)).toNat < width.modulus

variable {width : SizeWidth} {input : List Byte} {loop next final : FrameLoop} {place : Nat}

/-- A frame that has arrived is shorter than what a `std::size_t` can count. -/
theorem FrameBoundary.le_length (boundary : FrameBoundary input place) :
    place ≤ input.length := by
  cases boundary with
  | first => exact Nat.zero_le _
  | next _ _ whole => exact whole

/-- With 64 bits every length fits. -/
theorem lengthsFit_bits64 (input : List Byte) : LengthsFit .bits64 input := by
  intro place _ _
  have length := (getLength (input.drop place)).isLt
  simp only [SizeWidth.modulus]
  omega

/-! ## One turn -/

namespace FrameLoop

/-- The loop is at the boundary of a frame and has called for those before. -/
structure AtBoundary (input : List Byte) (loop : FrameLoop) : Prop where
  place : loop.buf.data = loop.consumed
  rest : loop.buf.data + loop.buf.size = input.length
  boundary : FrameBoundary input loop.consumed
  separate : Separate input loop.calls
  behind : ∀ call ∈ loop.calls, call.data + call.size ≤ loop.consumed

theorem start_atBoundary (input : List Byte) : AtBoundary input (start input) where
  place := rfl
  rest := Nat.zero_add _
  boundary := .first
  separate :=
    { inside := by simp [start]
      apart := .nil }
  behind := by simp [start]

/-- The two checks that a turn has passed. -/
theorem turn_checks (turned : loop.turn width input = some next) :
    4 ≤ loop.buf.size ∧ loop.total width input ≤ loop.buf.size := by
  unfold turn at turned
  split at turned
  · cases turned
  split at turned
  · cases turned
  · omega

/-- What a turn does after the checks. -/
theorem turn_some (turned : loop.turn width input = some next) :
    next.buf = loop.buf.advance (loop.total width input) ∧
      next.consumed = (loop.consumed + loop.total width input) % width.modulus ∧
      next.calls = loop.calls ++ [loop.message width input] := by
  have checked := turn_checks turned
  rw [turn, if_neg (by omega), if_neg (by omega)] at turned
  cases turned
  exact ⟨rfl, rfl, rfl⟩

theorem turn_of_checks (header : 4 ≤ loop.buf.size)
    (whole : loop.total width input ≤ loop.buf.size) :
    ∃ next, loop.turn width input = some next := by
  rw [turn, if_neg (by omega), if_neg (by omega)]
  exact ⟨_, rfl⟩

/-- The total is exact where the length fits. -/
theorem total_of_fit
    (fits : 4 + (getLength (input.drop loop.buf.data)).toNat < width.modulus) :
    loop.total width input = 4 + (getLength (input.drop loop.buf.data)).toNat :=
  Nat.mod_eq_of_lt fits

/-- Then also the size of the message is exact. -/
theorem message_of_fit
    (fits : 4 + (getLength (input.drop loop.buf.data)).toNat < width.modulus) :
    loop.message width input =
      { data := loop.buf.data + 4
        size := (getLength (input.drop loop.buf.data)).toNat } := by
  have size : 4 + (getLength (input.drop loop.buf.data)).toNat + width.modulus - 4 =
      (getLength (input.drop loop.buf.data)).toNat + width.modulus := by
    omega
  rw [message, total_of_fit fits, size, Nat.add_mod_right, Nat.mod_eq_of_lt (by omega)]

/-- A turn of a length that fits goes to the next boundary. -/
theorem AtBoundary.turn (here : AtBoundary input loop) (sized : input.length < width.modulus)
    (fits : 4 + (getLength (input.drop loop.buf.data)).toNat < width.modulus)
    (turned : loop.turn width input = some next) :
    AtBoundary input next ∧
      next.consumed = loop.consumed + 4 + (getLength (input.drop loop.consumed)).toNat := by
  obtain ⟨header, whole⟩ := turn_checks turned
  obtain ⟨buf, consumed, calls⟩ := turn_some turned
  have room := here.rest
  rw [message_of_fit fits] at calls
  rw [total_of_fit fits] at buf consumed whole
  rw [here.place] at buf consumed calls whole room
  have sum : next.consumed =
      loop.consumed + 4 + (getLength (input.drop loop.consumed)).toNat := by
    rw [consumed, Nat.mod_eq_of_lt (by omega), Nat.add_assoc]
  have advanced : min (4 + (getLength (input.drop loop.consumed)).toNat) loop.buf.size =
      4 + (getLength (input.drop loop.consumed)).toNat := Nat.min_eq_left whole
  refine ⟨⟨?_, ?_, ?_, ⟨?_, ?_⟩, ?_⟩, sum⟩
  · rw [buf, ConstBuffer.advance, sum, advanced, here.place, Nat.add_assoc]
  · rw [buf, ConstBuffer.advance, advanced, here.place]
    simp only
    omega
  · rw [sum]
    exact .next here.boundary (by omega) (by omega)
  · intro call called
    rw [calls] at called
    rcases List.mem_append.mp called with earlier | last
    · exact here.separate.inside call earlier
    · rw [List.mem_singleton.mp last]
      simp only
      omega
  · rw [calls, List.pairwise_append]
    refine ⟨here.separate.apart, List.pairwise_singleton _ _, fun earlier called last new => ?_⟩
    have before := here.behind earlier called
    rw [List.mem_singleton.mp new]
    simp only
    omega
  · intro call called
    rw [calls] at called
    rw [sum]
    rcases List.mem_append.mp called with earlier | last
    · have before := here.behind call earlier
      omega
    · rw [List.mem_singleton.mp last]

/-! ## Lengths that fit -/

theorem AtBoundary.moves (here : AtBoundary input loop) (sized : input.length < width.modulus)
    (fit : LengthsFit width input) (turned : loop.turn width input = some next) :
    AtBoundary input next ∧ next.buf.size < loop.buf.size := by
  have checked := turn_checks turned
  have room := here.rest
  have fits := fit loop.consumed here.boundary (by rw [← here.place]; omega)
  rw [← here.place] at fits
  obtain ⟨there, consumed⟩ := here.turn sized fits turned
  have left := there.rest
  have from_place := here.place
  have to_place := there.place
  exact ⟨there, by omega⟩

end FrameLoop

theorem parsesSafely_of_fit (sized : input.length < width.modulus)
    (fit : LengthsFit width input) : ParsesSafely width input := by
  have preserved : ∀ loop next, FrameLoop.AtBoundary input loop →
      FrameLoop.turn width input loop = some next → FrameLoop.AtBoundary input next :=
    fun _ _ here turned => (here.moves sized fit turned).1
  obtain ⟨final, ends⟩ := ends_of_wellFounded (FrameLoop.turn width input) Nat.lt_wfRel.wf
    (fun loop => loop.buf.size) (FrameLoop.AtBoundary input) preserved
    (fun _ _ here turned => (here.moves sized fit turned).2) (.start input)
    (FrameLoop.start_atBoundary input)
  have last := ends.invariant preserved (FrameLoop.start_atBoundary input)
  exact ⟨final, ends, last.separate, last.boundary.le_length, last.boundary⟩

/-! ## A length that does not fit -/

namespace FrameLoop

/-- Every boundary is reached, since a frame that has arrived fits. -/
theorem reaches_boundary (sized : input.length < width.modulus)
    (boundary : FrameBoundary input place) :
    ∃ loop, Relation.ReflTransGen (Moves (turn width input)) (start input) loop ∧
      AtBoundary input loop ∧ loop.consumed = place := by
  induction boundary with
  | first => exact ⟨start input, .refl, start_atBoundary input, rfl⟩
  | next _ header whole reached =>
      obtain ⟨loop, moved, here, rfl⟩ := reached
      have room := here.rest
      rw [here.place] at room
      have fits : 4 + (getLength (input.drop loop.buf.data)).toNat < width.modulus := by
        rw [here.place]
        omega
      have enough : loop.total width input ≤ loop.buf.size := by
        rw [total_of_fit fits, here.place]
        omega
      obtain ⟨next, turned⟩ := turn_of_checks (by omega) enough
      obtain ⟨there, consumed⟩ := here.turn sized fits turned
      exact ⟨next, moved.tail turned, there, consumed⟩

/-- What was called stays called. -/
theorem calls_mono (turned : loop.turn width input = some next) {call : ConstBuffer}
    (called : call ∈ loop.calls) : call ∈ next.calls := by
  rw [(turn_some turned).2.2]
  exact List.mem_append_left _ called

/-- With 32 bits, a length on top of which the header does not fit is called with. -/
theorem AtBoundary.calls_outside (here : AtBoundary input loop)
    (sized : input.length < SizeWidth.bits32.modulus) (header : loop.consumed + 4 ≤ input.length)
    (wraps : SizeWidth.bits32.modulus ≤ 4 + (getLength (input.drop loop.consumed)).toNat) :
    ∃ next, loop.turn .bits32 input = some next ∧
      ∃ call ∈ next.calls, input.length < call.data + call.size := by
  have length := (getLength (input.drop loop.consumed)).isLt
  have room := here.rest
  have place := here.place
  have total : loop.total .bits32 input =
      4 + (getLength (input.drop loop.consumed)).toNat - SizeWidth.bits32.modulus := by
    rw [FrameLoop.total, place, Nat.mod_eq_sub_mod wraps, Nat.mod_eq_of_lt]
    simp only [SizeWidth.modulus]
    omega
  simp only [SizeWidth.modulus] at sized wraps total
  obtain ⟨next, turned⟩ : ∃ next, loop.turn .bits32 input = some next :=
    turn_of_checks (by omega) (by omega)
  refine ⟨next, turned, loop.message .bits32 input, ?_, ?_⟩
  · rw [(turn_some turned).2.2]
    exact List.mem_append_right _ (List.mem_singleton_self _)
  · simp only [message, SizeWidth.modulus]
    omega

end FrameLoop

theorem not_parsesSafely_of_wrap (sized : input.length < SizeWidth.bits32.modulus)
    (boundary : FrameBoundary input place) (header : place + 4 ≤ input.length)
    (wraps : SizeWidth.bits32.modulus ≤ 4 + (getLength (input.drop place)).toNat) :
    ¬ ParsesSafely .bits32 input := by
  rintro ⟨final, ends, separate, -⟩
  obtain ⟨loop, moved, here, rfl⟩ := FrameLoop.reaches_boundary sized boundary
  obtain ⟨next, turned, call, called, outside⟩ := here.calls_outside sized header wraps
  have later := (ends.of_moves moved).of_moves (.single turned)
  have kept : call ∈ final.calls :=
    later.invariant (fun _ _ found turned => FrameLoop.calls_mono turned found) called
  have inside := separate.inside call kept
  omega

/-- A length that makes the total zero leaves the loop where it is, for ever. -/
theorem not_ends_of_zero (sized : input.length < SizeWidth.bits32.modulus)
    (boundary : FrameBoundary input place) (header : place + 4 ≤ input.length)
    (zero : (getLength (input.drop place)).toNat = 4294967292) :
    ¬ Ends (FrameLoop.turn .bits32 input) (.start input) final := by
  intro ends
  obtain ⟨loop, moved, here, rfl⟩ := FrameLoop.reaches_boundary sized boundary
  have room := here.rest
  have place := here.place
  refine not_ends_of_recurs (fun state => state.buf = loop.buf) ?_ rfl (ends.of_moves moved)
  intro state same
  have total : state.total .bits32 input = 0 := by
    rw [FrameLoop.total, same, place, zero]
    rfl
  obtain ⟨next, turned⟩ : ∃ next, state.turn .bits32 input = some next :=
    FrameLoop.turn_of_checks (by rw [same]; omega) (by omega)
  refine ⟨next, .single turned, ?_⟩
  rw [(FrameLoop.turn_some turned).1, total, same]
  simp [ConstBuffer.advance]

/-! ## The messages -/

/-- What `parseFrame` finds in the input, with the calls that the loop has made. -/
def FrameLoop.Finds (input : List Byte) (loop : FrameLoop) : Prop :=
  parseFrame input =
    (loop.calls.map (ConstBuffer.bytes input) ++ (parseFrame (input.drop loop.consumed)).1,
      loop.consumed + (parseFrame (input.drop loop.consumed)).2)

theorem FrameLoop.Finds.turn (found : loop.Finds input) (here : AtBoundary input loop)
    (sized : input.length < width.modulus)
    (fits : 4 + (getLength (input.drop loop.buf.data)).toNat < width.modulus)
    (turned : loop.turn width input = some next) : next.Finds input := by
  obtain ⟨header, whole⟩ := turn_checks turned
  have consumed := (here.turn sized fits turned).2
  have calls := (turn_some turned).2.2
  have room := here.rest
  rw [message_of_fit fits, here.place] at calls
  rw [total_of_fit fits, here.place] at whole
  rw [here.place] at room
  have left : (input.drop loop.consumed).length = loop.buf.size := by
    rw [List.length_drop]
    omega
  have advanced : min (4 + (getLength (input.drop loop.consumed)).toNat)
      (input.drop loop.consumed).length = 4 + (getLength (input.drop loop.consumed)).toNat := by
    rw [left]
    exact Nat.min_eq_left whole
  have step : parseFrame (input.drop loop.consumed) =
      (ConstBuffer.bytes input { data := loop.consumed + 4
                                 size := (getLength (input.drop loop.consumed)).toNat } ::
          (parseFrame (input.drop next.consumed)).1,
        4 + (getLength (input.drop loop.consumed)).toNat +
          (parseFrame (input.drop next.consumed)).2) := by
    rw [parseFrame, if_neg (by omega)]
    simp only
    rw [if_neg (by omega), advanced, List.drop_drop, Nat.add_sub_cancel_left, List.drop_drop,
      consumed, Nat.add_assoc loop.consumed, ConstBuffer.bytes]
  rw [Finds, found, step, calls, consumed]
  simp only [List.map_append, List.map_cons, List.map_nil, List.append_assoc, List.cons_append,
    List.nil_append, Nat.add_assoc]

/-- Where the lengths fit, the loop computes `parseFrame`. -/
theorem parseFrame_of_ends (sized : input.length < width.modulus) (fit : LengthsFit width input)
    (ends : Ends (FrameLoop.turn width input) (.start input) final) :
    parseFrame input = (final.calls.map (ConstBuffer.bytes input), final.consumed) := by
  have preserved : ∀ loop next, FrameLoop.AtBoundary input loop ∧ loop.Finds input →
      loop.turn width input = some next → FrameLoop.AtBoundary input next ∧ next.Finds input := by
    rintro loop next ⟨here, found⟩ turned
    have checked := FrameLoop.turn_checks turned
    have room := here.rest
    have fits := fit loop.consumed here.boundary (by rw [← here.place]; omega)
    rw [← here.place] at fits
    exact ⟨(here.turn sized fits turned).1, found.turn here sized fits turned⟩
  have initially : FrameLoop.AtBoundary input (.start input) ∧
      FrameLoop.Finds input (.start input) := by
    refine ⟨FrameLoop.start_atBoundary input, ?_⟩
    rw [FrameLoop.Finds]
    simp [FrameLoop.start]
  obtain ⟨here, found⟩ := ends.invariant preserved initially
  have room := here.rest
  have left : (input.drop final.consumed).length = final.buf.size := by
    rw [List.length_drop, ← here.place]
    omega
  have stopped := ends.stopped
  have nothing : parseFrame (input.drop final.consumed) = ([], 0) := by
    rw [FrameLoop.turn] at stopped
    split at stopped
    · rename_i header
      rw [parseFrame, if_pos (by omega)]
    split at stopped
    · rename_i header short
      have fits := fit final.consumed here.boundary (by rw [← here.place]; omega)
      rw [FrameLoop.total, here.place, Nat.mod_eq_of_lt fits] at short
      rw [parseFrame, if_neg (by omega)]
      simp only
      rw [if_pos (by omega)]
    · cases stopped
  rw [found, nothing]
  simp

/-! ## Every input -/

/--
`parse_frame` of any input that a `std::size_t` can measure is safe exactly where the
header fits on top of every length announced at the boundary of a frame.
-/
theorem parseFrame_safe_iff (width : SizeWidth) (input : List Byte)
    (sized : input.length < width.modulus) :
    ParsesSafely width input ↔
      width = .bits64 ∨
        ∀ place, FrameBoundary input place → place + 4 ≤ input.length →
          (getLength (input.drop place)).toNat < 4294967292 := by
  cases width with
  | bits64 =>
      exact ⟨fun _ => .inl rfl, fun _ => parsesSafely_of_fit sized (lengthsFit_bits64 input)⟩
  | bits32 =>
      constructor
      · intro safe
        refine .inr fun place boundary header => ?_
        by_contra long
        refine not_parsesSafely_of_wrap sized boundary header ?_ safe
        simp only [SizeWidth.modulus]
        omega
      · rintro (wide | short)
        · cases wide
        · refine parsesSafely_of_fit sized fun place boundary header => ?_
          have fits := short place boundary header
          simp only [SizeWidth.modulus]
          omega

/-- Two frames, where the length of the second one does not fit on a narrow processor. -/
theorem parseFrame_safe_iff_two :
    ParsesSafely .bits32 [1, 0, 0, 0, 70, 255, 255, 255, 255] ↔
      SizeWidth.bits32 = .bits64 ∨
        ∀ place, FrameBoundary [1, 0, 0, 0, 70, 255, 255, 255, 255] place → place + 4 ≤ 9 →
          (getLength ([1, 0, 0, 0, 70, 255, 255, 255, 255].drop place)).toNat < 4294967292 :=
  parseFrame_safe_iff .bits32 [1, 0, 0, 0, 70, 255, 255, 255, 255] (by decide)

/-- A header alone, with the length that makes the total zero. -/
theorem not_parsesSafely_header : ¬ ParsesSafely .bits32 [252, 255, 255, 255] :=
  fun ⟨_, ends, _⟩ => not_ends_of_zero (by decide) .first (by decide) (by decide) ends

end ReactiveToolbox.Net
