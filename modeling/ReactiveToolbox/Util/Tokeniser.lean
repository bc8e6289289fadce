import Mathlib.Data.List.Basic

/-!
# Tokens

A `Tokeniser` walks over a buffer with two positions: where the next token begins and
the delimiter behind it, or the end of the buffer.  The tokens with the delimiters
that are consumed between them are the buffer.  `parse_line` takes the lines that a
newline terminates and returns how much of the buffer they fill.
-/

namespace ReactiveToolbox.Util

/-- `std::find_first_of` from a position on: the first of the delimiters, or the end. -/
def findFirstOf (buf delims : List UInt8) (first : Nat) : Nat :=
  first + (buf.drop first).findIdx fun char => decide (char ∈ delims)

/-- `Tokeniser`, whose second position is always that of the delimiter behind the first. -/
structure Tokeniser where
  buf : List UInt8
  delims : List UInt8
  i : Nat
  j : Nat
  within : i ≤ buf.length
  found : j = findFirstOf buf delims i

theorem findFirstOf_le_length {buf delims : List UInt8} {first : Nat}
    (within : first ≤ buf.length) : findFirstOf buf delims first ≤ buf.length := by
  have least : (buf.drop first).findIdx (fun char => decide (char ∈ delims)) ≤
      (buf.drop first).length := List.findIdx_le_length
  rw [List.length_drop] at least
  rw [findFirstOf]
  omega

theorem findFirstOf_end (buf delims : List UInt8) :
    findFirstOf buf delims buf.length = buf.length := by
  rw [findFirstOf, List.drop_length]
  rfl

namespace Tokeniser

/-- `reset`. -/
def reset (buf delims : List UInt8) : Tokeniser where
  buf := buf
  delims := delims
  i := 0
  j := findFirstOf buf delims 0
  within := Nat.zero_le _
  found := rfl

variable (toks : Tokeniser)

/-- `consumed`. -/
def consumed : Nat := toks.i

/-- `empty`. -/
def empty : Bool := decide (toks.i = toks.buf.length)

/-- `has_delim`. -/
def hasDelim : Bool := decide (toks.j ≠ toks.buf.length)

/-- `top`: `buf_.substr(i_ - buf_.cbegin(), j_ - i_)`. -/
def top : List UInt8 := (toks.buf.drop toks.i).take (toks.j - toks.i)

/-- The delimiter that `pop` steps over. -/
def delim : Option UInt8 := toks.buf[toks.j]?

theorem j_le_length : toks.j ≤ toks.buf.length :=
  toks.found ▸ findFirstOf_le_length toks.within

theorem i_le_j : toks.i ≤ toks.j :=
  toks.found ▸ Nat.le_add_right _ _

theorem j_lt_length {toks : Tokeniser} (more : toks.hasDelim = true) :
    toks.j < toks.buf.length :=
  Nat.lt_of_le_of_ne toks.j_le_length (of_decide_eq_true more)

/-- `pop`. -/
def pop : Tokeniser :=
  if more : toks.hasDelim = true then
    { toks with
      i := toks.j + 1
      j := findFirstOf toks.buf toks.delims (toks.j + 1)
      within := j_lt_length more
      found := rfl }
  else
    { toks with
      i := toks.j
      j := toks.j
      within := toks.j_le_length
      found := by
        have atEnd : toks.j = toks.buf.length :=
          not_not.mp fun different => more (decide_eq_true different)
        rw [atEnd, findFirstOf_end] }

/-- A token, and the delimiter that is consumed with it. -/
structure Popped where
  token : List UInt8
  delim : Option UInt8
  deriving DecidableEq

/-- `next`. -/
def next : Popped × Tokeniser :=
  ({ token := toks.top, delim := toks.delim }, toks.pop)

/-! ## Until the tokeniser is empty -/

variable {toks}

theorem pop_of_delim (more : toks.hasDelim = true) :
    toks.pop.buf = toks.buf ∧ toks.pop.delims = toks.delims ∧ toks.pop.i = toks.j + 1 := by
  rw [pop, dif_pos more]
  exact ⟨rfl, rfl, rfl⟩

theorem pop_of_end (last : toks.hasDelim = false) :
    toks.pop.buf = toks.buf ∧ toks.pop.delims = toks.delims ∧ toks.pop.i = toks.buf.length := by
  have none : ¬toks.hasDelim = true := by rw [last]; exact Bool.false_ne_true
  have atEnd : toks.j = toks.buf.length :=
    not_not.mp (of_decide_eq_false last)
  rw [pop, dif_neg none]
  exact ⟨rfl, rfl, atEnd⟩

theorem pop_shorter (nonempty : toks.empty = false) :
    toks.pop.buf.length - toks.pop.i < toks.buf.length - toks.i := by
  have within := toks.within
  have before : toks.i ≠ toks.buf.length := of_decide_eq_false nonempty
  have ordered := toks.i_le_j
  cases more : toks.hasDelim with
  | true =>
      obtain ⟨buf, -, moved⟩ := pop_of_delim more
      rw [buf, moved]
      omega
  | false =>
      obtain ⟨buf, -, moved⟩ := pop_of_end more
      rw [buf, moved]
      omega

/-- What is popped until `empty()`. -/
def popAll (toks : Tokeniser) : List Popped :=
  if toks.empty = false then toks.next.1 :: popAll toks.pop else []
termination_by toks.buf.length - toks.i
decreasing_by exact pop_shorter ‹_›

/-- The bytes of what was popped. -/
def Popped.bytes (popped : Popped) : List UInt8 := popped.token ++ popped.delim.toList

/-- A token is free of delimiters. -/
theorem not_mem_top {char : UInt8} (member : char ∈ toks.top) : char ∉ toks.delims := by
  obtain ⟨index, within, rfl⟩ := List.getElem_of_mem member
  have length : toks.j - toks.i =
      (toks.buf.drop toks.i).findIdx fun char => decide (char ∈ toks.delims) := by
    rw [toks.found, findFirstOf, Nat.add_sub_cancel_left]
  simp only [top, List.length_take, length] at within
  have before : index <
      (toks.buf.drop toks.i).findIdx fun char => decide (char ∈ toks.delims) := by omega
  simp only [top, List.getElem_take]
  exact of_decide_eq_false (List.not_of_lt_findIdx before)

/-- What is popped where there is a delimiter. -/
theorem delim_of_hasDelim (more : toks.hasDelim = true) :
    ∃ char ∈ toks.delims, toks.delim = some char ∧
      toks.buf.drop toks.i = toks.top ++ char :: toks.buf.drop (toks.j + 1) := by
  have inside := j_lt_length more
  have ordered := toks.i_le_j
  have index : toks.j - toks.i =
      (toks.buf.drop toks.i).findIdx fun char => decide (char ∈ toks.delims) := by
    rw [toks.found, findFirstOf, Nat.add_sub_cancel_left]
  have split : toks.buf.drop toks.i = toks.top ++ toks.buf.drop toks.j := by
    rw [top, ← Nat.add_sub_of_le ordered, ← List.drop_drop, Nat.add_sub_cancel_left,
      List.take_append_drop]
  refine ⟨toks.buf[toks.j], ?_, List.getElem?_eq_getElem inside, ?_⟩
  · have shorter : (toks.buf.drop toks.i).findIdx (fun char => decide (char ∈ toks.delims)) <
        (toks.buf.drop toks.i).length := by
      rw [← index, List.length_drop]
      omega
    have delimiter := of_decide_eq_true (List.findIdx_getElem (w := shorter))
    have place : toks.i + (toks.buf.drop toks.i).findIdx
        (fun char => decide (char ∈ toks.delims)) = toks.j := toks.found.symm
    simpa only [List.getElem_drop, place] using delimiter
  · rw [split, List.drop_eq_getElem_cons inside]

/-- What is popped at the end. -/
theorem delim_of_end (last : toks.hasDelim = false) :
    toks.delim = none ∧ toks.buf.drop toks.i = toks.top := by
  have atEnd : toks.j = toks.buf.length := not_not.mp (of_decide_eq_false last)
  refine ⟨?_, ?_⟩
  · rw [delim, atEnd, List.getElem?_eq_none (Nat.le_refl _)]
  · rw [top, atEnd, ← List.length_drop, List.take_length]

theorem top_of_empty (empty : toks.empty = true) : toks.buf.drop toks.i = [] := by
  have atEnd : toks.i = toks.buf.length := of_decide_eq_true empty
  exact List.drop_eq_nil_iff.mpr (Nat.le_of_eq atEnd.symm)

theorem popAll_of_empty (empty : toks.empty = true) : toks.popAll = [] := by
  rw [popAll, if_neg (Bool.not_eq_false _ ▸ empty)]

/--
The tokens that are popped until the tokeniser is empty are free of delimiters, each
but the last is popped with one, and their bytes are what was left of the buffer.
-/
theorem popAll_spec (toks : Tokeniser) :
    (∀ popped ∈ toks.popAll, (∀ char ∈ popped.token, char ∉ toks.delims) ∧
      ∀ char ∈ popped.delim, char ∈ toks.delims) ∧
    (∀ popped ∈ toks.popAll.dropLast, popped.delim.isSome) ∧
    (toks.popAll.map Popped.bytes).flatten = toks.buf.drop toks.i := by
  fun_induction popAll toks with
  | case1 toks nonempty ih =>
      obtain ⟨free, separated, rest⟩ := ih
      cases more : toks.hasDelim with
      | true =>
          obtain ⟨buf, delims, moved⟩ := pop_of_delim more
          obtain ⟨char, delimiter, popped, split⟩ := delim_of_hasDelim more
          rw [buf, moved] at rest
          rw [delims] at free
          refine ⟨?_, ?_, ?_⟩
          · rw [List.forall_mem_cons]
            refine ⟨⟨fun _ => not_mem_top, fun found same => ?_⟩, free⟩
            rw [next, popped] at same
            cases same
            exact delimiter
          · cases later : toks.pop.popAll with
            | nil => exact fun _ member => absurd member List.not_mem_nil
            | cons first others =>
                rw [List.dropLast_cons_cons, ← later, List.forall_mem_cons]
                refine ⟨?_, separated⟩
                rw [next, popped]
                rfl
          · rw [List.map_cons, List.flatten_cons, rest, split, Popped.bytes, next, popped,
              List.append_assoc]
            rfl
      | false =>
          obtain ⟨buf, -, moved⟩ := pop_of_end more
          obtain ⟨none, last⟩ := delim_of_end more
          have emptied : toks.pop.empty = true := by
            rw [empty, moved, buf, decide_eq_true rfl]
          rw [popAll_of_empty emptied]
          refine ⟨?_, fun _ member => absurd member List.not_mem_nil, ?_⟩
          · rw [List.forall_mem_singleton]
            refine ⟨fun _ => not_mem_top, fun found same => ?_⟩
            rw [next, none] at same
            cases same
          · rw [List.map_singleton, List.flatten_singleton, last, Popped.bytes, next, none,
              Option.toList_none, List.append_nil]
  | case2 toks nonempty =>
      have empty : toks.empty = true := (Bool.not_eq_false _).mp nonempty
      rw [top_of_empty empty]
      exact ⟨fun _ member => absurd member List.not_mem_nil,
        fun _ member => absurd member List.not_mem_nil, rfl⟩

end Tokeniser

/-! ## Lines -/

/-- `'\n'`. -/
def newline : UInt8 := 10

/-- The loop of `parse_line`: the lines that the function is called with, and `consumed()`. -/
def parseLines (lines : Tokeniser) : List (List UInt8) × Nat :=
  if lines.hasDelim = true then
    let rest := parseLines lines.pop
    (lines.top :: rest.1, rest.2)
  else ([], lines.consumed)
termination_by lines.buf.length - lines.i
decreasing_by
  obtain ⟨buf, -, moved⟩ := Tokeniser.pop_of_delim ‹_›
  have inside := Tokeniser.j_lt_length ‹_›
  have ordered := lines.i_le_j
  rw [buf, moved]
  omega

/-- `parse_line`. -/
def parseLine (buf : List UInt8) : List (List UInt8) × Nat :=
  parseLines (.reset buf [newline])

/-- A stream that consists of terminated lines, and of what follows the last newline. -/
structure Lines (stream : List UInt8) (lines : List (List UInt8)) (left : List UInt8) :
    Prop where
  stream : stream = (lines.map (· ++ [newline])).flatten ++ left
  terminated : ∀ line ∈ lines, newline ∉ line
  unterminated : newline ∉ left

namespace Lines

variable {stream left left' chunk : List UInt8} {lines more : List (List UInt8)}

/-- The lines are those at which the newlines split the stream. -/
theorem splitOn (parts : Lines stream lines left) :
    stream.splitOn newline = lines ++ [left] := by
  obtain ⟨rfl, terminated, unterminated⟩ := parts
  induction lines with
  | nil => exact List.splitOn_eq_singleton unterminated
  | cons line rest ih =>
      obtain ⟨here, others⟩ := List.forall_mem_cons.mp terminated
      rw [List.map_cons, List.flatten_cons, List.append_assoc, List.append_assoc,
        List.singleton_append, List.splitOn_append_cons_self_of_not_mem here, ih others,
        List.cons_append]

/-- A chunk only continues what follows the last newline. -/
theorem append (parts : Lines stream lines left) (others : Lines (left ++ chunk) more left') :
    Lines (stream ++ chunk) (lines ++ more) left' where
  stream := by
    rw [parts.stream, List.append_assoc, others.stream, List.map_append, List.flatten_append,
      List.append_assoc]
  terminated := by
    intro line member
    rcases List.mem_append.mp member with earlier | later
    · exact parts.terminated line earlier
    · exact others.terminated line later
  unterminated := others.unterminated

end Lines

theorem parseLines_spec (lines : Tokeniser) (newlines : lines.delims = [newline]) :
    (parseLines lines).2 ≤ lines.buf.length ∧ lines.i ≤ (parseLines lines).2 ∧
      Lines (lines.buf.drop lines.i) (parseLines lines).1
        (lines.buf.drop (parseLines lines).2) := by
  fun_induction parseLines lines with
  | case1 lines more rest ih =>
      obtain ⟨buf, delims, moved⟩ := Tokeniser.pop_of_delim more
      obtain ⟨char, delimiter, -, split⟩ := Tokeniser.delim_of_hasDelim more
      obtain ⟨within, forwards, parts⟩ := ih (delims.trans newlines)
      have ordered := lines.i_le_j
      rw [newlines, List.mem_singleton] at delimiter
      rw [buf] at within parts
      rw [moved] at forwards parts
      refine ⟨within, Nat.le_trans ordered (Nat.le_of_succ_le forwards), ?_⟩
      refine
        { stream := ?_
          terminated := ?_
          unterminated := parts.unterminated }
      · rw [split, delimiter, parts.stream, List.map_cons, List.flatten_cons,
          List.append_assoc, List.append_assoc]
        rfl
      · rw [List.forall_mem_cons]
        refine ⟨fun member => Tokeniser.not_mem_top member ?_, parts.terminated⟩
        rw [newlines]
        exact List.mem_singleton_self _
  | case2 lines none =>
      have last : lines.hasDelim = false := Bool.not_eq_true _ |>.mp none
      obtain ⟨-, top⟩ := Tokeniser.delim_of_end last
      refine ⟨lines.within, Nat.le_refl _, ?_⟩
      refine
        { stream := rfl
          terminated := fun _ member => absurd member List.not_mem_nil
          unterminated := ?_ }
      rw [Tokeniser.consumed, top]
      intro member
      refine Tokeniser.not_mem_top member ?_
      rw [newlines]
      exact List.mem_singleton_self _

/-- What `parse_line` calls its function with and leaves are the lines of the buffer. -/
theorem parseLine_lines (buf : List UInt8) :
    (parseLine buf).2 ≤ buf.length ∧
      Lines buf (parseLine buf).1 (buf.drop (parseLine buf).2) := by
  obtain ⟨within, -, parts⟩ := parseLines_spec (.reset buf [newline]) rfl
  exact ⟨within, parts⟩

end ReactiveToolbox.Util
