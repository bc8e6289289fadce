import Mathlib.Data.List.Infix

/-!
# Messages that are recognised one after another

A code word is recognised at the front of the input as soon as it is whole, and not
before.  A stream of code words can therefore be cut anywhere: decoding what has
arrived as far as possible gives the messages that are whole, and leaves the part of
the next one that has arrived.
-/

namespace ReactiveToolbox.Lib

universe u v

/-- A code for the valid messages, with a decoder of the front of its input. -/
structure PrefixCode (Message : Type u) (Item : Type v) where
  encode : Message → List Item
  decode : List Item → Option (Message × List Item)
  valid : Message → Prop
  decode_encode : ∀ message rest, valid message →
    decode (encode message ++ rest) = some (message, rest)
  decode_cut : ∀ message part, valid message → part <+: encode message →
    part.length < (encode message).length → decode part = none
  shorter : ∀ input message rest, decode input = some (message, rest) →
    rest.length < input.length

namespace PrefixCode

variable {Message : Type u} {Item : Type v} (code : PrefixCode Message Item)

/-- The code words of some messages, one after another. -/
def encodeAll (messages : List Message) : List Item :=
  (messages.map code.encode).flatten

/-- Decode as long as there is a whole code word, with what is left. -/
def decodeAll (input : List Item) : List Message × List Item :=
  match decoded : code.decode input with
  | some (message, rest) =>
      have := code.shorter input message rest decoded
      (message :: (decodeAll rest).1, (decodeAll rest).2)
  | none => ([], input)
termination_by input.length

/-- What is left is the beginning of the next code word, if there is a next one. -/
def Incomplete (left : List Item) : List Message → Prop
  | [] => left = []
  | next :: _ => left <+: code.encode next ∧ left.length < (code.encode next).length

/-- The messages that were handed over, and what is left of the items received. -/
def Received (messages : List Message) (received : List Item) (handed : List Message)
    (left : List Item) : Prop :=
  ∃ later, messages = handed ++ later ∧ received = code.encodeAll handed ++ left ∧
    code.Incomplete left later

variable {code} {messages handed : List Message} {received left chunk : List Item}

theorem encodeAll_append (first second : List Message) :
    code.encodeAll (first ++ second) = code.encodeAll first ++ code.encodeAll second := by
  simp [encodeAll]

theorem decodeAll_some {input rest : List Item} {message : Message}
    (decoded : code.decode input = some (message, rest)) :
    code.decodeAll input = (message :: (code.decodeAll rest).1, (code.decodeAll rest).2) := by
  rw [decodeAll]
  split
  · rename_i found
    rw [decoded] at found
    cases found
    rfl
  · rename_i found
    rw [decoded] at found
    cases found

theorem decode_nil : code.decode [] = none := by
  cases decoded : code.decode [] with
  | none => rfl
  | some result =>
      have none := code.shorter [] result.1 result.2 decoded
      exact absurd none (Nat.not_lt_zero _)

theorem decodeAll_none (undecoded : code.decode left = none) :
    code.decodeAll left = ([], left) := by
  rw [decodeAll]
  split
  · rename_i decoded
    rw [undecoded] at decoded
    cases decoded
  · rfl

/-- The input is a stream of code words that is cut somewhere. -/
theorem decodeAll_received (valid : ∀ message ∈ messages, code.valid message)
    (cut : received <+: code.encodeAll messages) :
    code.Received messages received (code.decodeAll received).1 (code.decodeAll received).2 := by
  induction messages generalizing received with
  | nil =>
      obtain rfl := List.prefix_nil.mp cut
      rw [decodeAll_none decode_nil]
      exact ⟨[], rfl, rfl, rfl⟩
  | cons message rest ih =>
      have here := valid message List.mem_cons_self
      have split : code.encodeAll (message :: rest) =
          code.encode message ++ code.encodeAll rest := rfl
      rw [split] at cut
      rcases Nat.lt_or_ge received.length (code.encode message).length with short | whole
      · have part : received <+: code.encode message :=
          List.prefix_of_prefix_length_le cut (List.prefix_append _ _) (Nat.le_of_lt short)
        rw [decodeAll_none (code.decode_cut message received here part short)]
        exact ⟨message :: rest, rfl, rfl, part, short⟩
      · rcases List.prefix_of_prefix_length_le (List.prefix_append _ _) cut whole with
          ⟨tail, rfl⟩
        rw [List.prefix_append_right_inj] at cut
        rcases ih (fun later member => valid later (List.mem_cons_of_mem _ member)) cut with
          ⟨later, same, items, incomplete⟩
        rw [decodeAll_some (code.decode_encode message tail here)]
        refine ⟨later, ?_, ?_, incomplete⟩
        · exact congrArg (List.cons message) same
        · have first : code.encodeAll (message :: (code.decodeAll tail).1) =
              code.encode message ++ code.encodeAll (code.decodeAll tail).1 := rfl
          rw [first, List.append_assoc, ← items]

theorem encode_length_pos {message : Message} (valid : code.valid message) :
    0 < (code.encode message).length := by
  have decoded := code.decode_encode message [] valid
  rw [List.append_nil] at decoded
  exact code.shorter _ _ _ decoded

/-- Before anything has arrived. -/
theorem Received.start (valid : ∀ message ∈ messages, code.valid message) :
    code.Received messages [] [] [] := by
  refine ⟨messages, rfl, rfl, ?_⟩
  cases messages with
  | nil => rfl
  | cons next rest =>
      exact ⟨List.nil_prefix, encode_length_pos (valid next List.mem_cons_self)⟩

/-- More of the stream arrives behind what was left. -/
theorem Received.more (before : code.Received messages received handed left)
    (valid : ∀ message ∈ messages, code.valid message)
    (cut : received ++ chunk <+: code.encodeAll messages) :
    code.Received messages (received ++ chunk) (handed ++ (code.decodeAll (left ++ chunk)).1)
      (code.decodeAll (left ++ chunk)).2 := by
  rcases before with ⟨later, rfl, rfl, -⟩
  rw [encodeAll_append, List.append_assoc, List.prefix_append_right_inj] at cut
  rcases decodeAll_received (fun message member => valid message (List.mem_append_right _ member))
    cut with ⟨rest, same, items, incomplete⟩
  refine ⟨rest, ?_, ?_, incomplete⟩
  · rw [List.append_assoc, ← same]
  · rw [List.append_assoc, encodeAll_append, List.append_assoc, ← items]

/-- When the whole stream has arrived, all messages have been handed over. -/
theorem Received.complete (all : code.Received messages (code.encodeAll messages) handed left)
    (valid : ∀ message ∈ messages, code.valid message) : handed = messages ∧ left = [] := by
  rcases all with ⟨later, rfl, items, incomplete⟩
  rw [encodeAll_append, List.append_cancel_left_eq] at items
  cases later with
  | nil => exact ⟨(List.append_nil _).symm, incomplete⟩
  | cons next rest =>
      have split : code.encodeAll (next :: rest) = code.encode next ++ code.encodeAll rest := rfl
      have short := incomplete.2
      rw [← items, split, List.length_append] at short
      exact absurd short (by omega)

end PrefixCode

end ReactiveToolbox.Lib
