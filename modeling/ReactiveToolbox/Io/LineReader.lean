import Mathlib.Data.List.Induction
import ReactiveToolbox.Io.Buffer
import ReactiveToolbox.Util.Tokeniser

/-!
# Lines that arrive in chunks

What is received is appended to a `Buffer`, and what `parse_line` returns is consumed.
However a stream is cut, its lines are handed over as they become whole, and the
buffer holds the beginning of the next one.
-/

namespace ReactiveToolbox.Io

open ReactiveToolbox.Util

/-- A buffer that bytes are received into, with the lines handed over so far. -/
structure LineReader where
  buffer : Buffer
  lines : List (List Byte)

namespace LineReader

/-- Nothing has been received. -/
def start : LineReader where
  buffer := Buffer.create
  lines := []

/-- A chunk is appended and what `parse_line` returns is consumed. -/
def receive (reader : LineReader) (chunk : List Byte) : LineReader :=
  let buffer := reader.buffer.append chunk
  let parsed := parseLine buffer.readable
  { buffer := buffer.consume parsed.2
    lines := reader.lines ++ parsed.1 }

/-- What some chunks leave, one after another. -/
def receiveAll (chunks : List (List Byte)) : LineReader :=
  chunks.foldl receive start

variable {received chunk : List Byte} {reader : LineReader}

/-- The reader has handed over the whole lines and holds what is left. -/
structure InStep (received : List Byte) (reader : LineReader) : Prop where
  valid : reader.buffer.Valid
  lines : Lines received reader.lines reader.buffer.readable

theorem start_inStep : InStep [] start where
  valid := Buffer.create_valid
  lines :=
    { stream := rfl
      terminated := fun _ member => absurd member List.not_mem_nil
      unterminated := List.not_mem_nil }

theorem InStep.receive (inStep : InStep received reader) (chunk : List Byte) :
    InStep (received ++ chunk) (reader.receive chunk) := by
  have appended := Buffer.append_valid inStep.valid chunk
  obtain ⟨consumed, lines⟩ := parseLine_lines (reader.buffer.append chunk).readable
  rw [Buffer.length_readable appended.1] at consumed
  have rest := Buffer.consume_valid appended.1 consumed
  refine ⟨rest.1, inStep.lines.append ?_⟩
  rw [← appended.2]
  exact rest.2 ▸ lines

theorem receiveAll_inStep (chunks : List (List Byte)) :
    InStep chunks.flatten (receiveAll chunks) := by
  induction chunks using List.reverseRecOn with
  | nil => exact start_inStep
  | append_singleton early chunk ih =>
      rw [List.flatten_append, List.flatten_singleton, receiveAll, List.foldl_append]
      exact ih.receive chunk

/--
Popping a tokeniser until it is empty ends with tokens that are free of delimiters and
that are, with the delimiters between them, the buffer.  However a stream is cut into
chunks, its lines are handed over in order, and what follows the last newline is left
in the buffer.
-/
theorem tokens_and_lines :
    (∀ buf delims : List UInt8,
      (∀ popped ∈ (Tokeniser.reset buf delims).popAll,
        (∀ char ∈ popped.token, char ∉ delims) ∧ ∀ char ∈ popped.delim, char ∈ delims) ∧
      (∀ popped ∈ (Tokeniser.reset buf delims).popAll.dropLast, popped.delim.isSome) ∧
      ((Tokeniser.reset buf delims).popAll.map Tokeniser.Popped.bytes).flatten = buf) ∧
    ∀ chunks : List (List Byte),
      chunks.flatten.splitOn newline =
        (receiveAll chunks).lines ++ [(receiveAll chunks).buffer.readable] := by
  refine ⟨fun buf delims => ?_, fun chunks => ?_⟩
  · exact (Tokeniser.reset buf delims).popAll_spec
  · exact (receiveAll_inStep chunks).lines.splitOn

/-- Two lines, cut around the first newline, and the beginning of a third. -/
example : (receiveAll [[102], [111, 10], [], [10, 98]]).lines = [[102, 111], []] := by
  decide +kernel

end LineReader

end ReactiveToolbox.Io
