import ReactiveToolbox.Util.InternedStrings

/-!
# Padded fields

`pstrcpy` writes a text into a field of fixed width and fills up what is left with a pad
character, which `pstrlen` looks for.  Both have a path of their own for a NUL as the
pad, and `pstrcpy` has one for a text that ends with a NUL and one for a view.
-/

namespace ReactiveToolbox.Util

/-! ## The functions -/

/-- `dst[i] = ch`, within the memory behind `dst`. -/
def store (dst : Bytes) (i : Nat) (ch : UInt8) : Option Bytes :=
  if i < dst.length then some (dst.set i ch) else none

/-- `std::memcpy` to `dst + offset`. -/
def memcpy (dst : Bytes) (offset : Nat) (src : Bytes) (count : Nat) : Option Bytes :=
  if count ≤ src.length ∧ offset + count ≤ dst.length then
    some (dst.take offset ++ (src.take count ++ dst.drop (offset + count)))
  else none

/-- `std::memset` from `dst + offset` on. -/
def memset (dst : Bytes) (offset : Nat) (ch : UInt8) (count : Nat) : Option Bytes :=
  memcpy dst offset (List.replicate count ch) count

/--
`strnlen`, which reads up to the first NUL and at most `n` characters, and so has no
result where the memory behind `src` ends earlier.
-/
def strnlen (src : Bytes) (n : Nat) : Option Nat :=
  if n ≤ src.length ∨ 0 ∈ src then some (min n (strlen src)) else none

/-- `stpncpy(dst, src, n) - dst`, with what is written: the text and NULs behind it. -/
def stpncpy (dst src : Bytes) (n : Nat) : Option (Bytes × Nat) :=
  (strnlen src n).bind fun len =>
    (memcpy dst 0 (src.take len ++ List.replicate (n - len) 0) n).map fun dst => (dst, len)

/-- The loop of `pstrlen`, from `i` on. -/
def pstrlenLoop (padC : UInt8) (src : Bytes) : Nat → Nat → Option Nat
  | 0, i => some i
  | rounds + 1, i =>
      src[i]?.bind fun ch => if ch ≠ padC then pstrlenLoop padC src rounds (i + 1) else some i

/-- `pstrlen`. -/
def pstrlen (padC : UInt8) (src : Bytes) (n : Nat) : Option Nat :=
  if padC = 0 then strnlen src n else pstrlenLoop padC src n 0

/-- The first loop of `pstrcpy`, from `i` on. -/
def copyLoop (src : Bytes) : Nat → Nat → Bytes → Option (Bytes × Nat)
  | 0, i, dst => some (dst, i)
  | rounds + 1, i, dst =>
      src[i]?.bind fun ch =>
        if ch ≠ 0 then (store dst i ch).bind (copyLoop src rounds (i + 1)) else some (dst, i)

/-- The second one, from `j` on. -/
def padLoop (padC : UInt8) : Nat → Nat → Bytes → Option Bytes
  | 0, _, dst => some dst
  | rounds + 1, j, dst => (store dst j padC).bind (padLoop padC rounds (j + 1))

/-- `pstrcpy` of a `const char*`. -/
def pstrcpy (padC : UInt8) (dst src : Bytes) (n : Nat) : Option (Bytes × Nat) :=
  if padC = 0 then stpncpy dst src n
  else
    (copyLoop src n 0 dst).bind fun (dst, i) =>
      (padLoop padC (n - i) i dst).map fun dst => (dst, i)

/-- `pstrcpy` of a `std::string_view`. -/
def pstrcpyView (padC : UInt8) (dst src : Bytes) (n : Nat) : Option (Bytes × Nat) :=
  let len := min n src.length
  (if len > 0 then memcpy dst 0 src len else some dst).bind fun dst =>
    (if len < n then memset dst len padC (n - len) else some dst).map fun dst => (dst, len)

/-! ## Fields -/

section Fields

variable {Symbol : Type*}

/-- A text of at most `width` symbols, cut off or filled up. -/
def field (pad : Symbol) (width : Nat) (text : List Symbol) : List Symbol :=
  text.take width ++ List.replicate (width - text.length) pad

theorem length_field (pad : Symbol) (width : Nat) (text : List Symbol) :
    (field pad width text).length = width := by
  rw [field, List.length_append, List.length_take, List.length_replicate]
  omega

/-- What stands in front of the first pad is the text, as far as it fits. -/
theorem takeWhile_field [DecidableEq Symbol] {pad : Symbol} {text : List Symbol}
    (free : pad ∉ text) (width : Nat) :
    (field pad width text).takeWhile (· ≠ pad) = text.take width := by
  have symbols : ∀ symbol ∈ text.take width, decide (symbol ≠ pad) = true := by
    intro symbol member
    refine decide_eq_true fun same => free ?_
    rw [← same]
    exact List.mem_of_mem_take member
  rw [field, List.takeWhile_append_of_pos symbols]
  cases width - text.length with
  | zero => rw [List.replicate_zero, List.takeWhile_nil, List.append_nil]
  | succ more =>
      rw [List.replicate_succ, List.takeWhile_cons_of_neg (by simp), List.append_nil]

end Fields

/-! ## Writing -/

theorem memcpy_within {dst src : Bytes} {offset count : Nat} (read : count ≤ src.length)
    (room : offset + count ≤ dst.length) :
    memcpy dst offset src count =
      some (dst.take offset ++ (src.take count ++ dst.drop (offset + count))) :=
  if_pos ⟨read, room⟩

theorem store_append (done rest : Bytes) (old ch : UInt8) :
    store (done ++ old :: rest) done.length ch = some (done ++ ch :: rest) := by
  have within : done.length < (done ++ old :: rest).length := by
    rw [List.length_append, List.length_cons]
    omega
  rw [store, if_pos within, List.set_append_right _ _ (Nat.le_refl _), Nat.sub_self,
    List.set_cons_zero]

/-- The loop copies what is left of the text, as far as it fits. -/
theorem copyLoop_text {text : Bytes} (free : 0 ∉ text) (beyond done rest : Bytes) {rounds : Nat}
    (room : rounds ≤ rest.length) :
    copyLoop (done ++ (text ++ 0 :: beyond)) rounds done.length (done ++ rest) =
      some (done ++ (text.take rounds ++ rest.drop (min rounds text.length)),
        done.length + min rounds text.length) := by
  induction rounds generalizing text done rest with
  | zero =>
      rw [copyLoop, List.take_zero, Nat.zero_min, List.drop_zero, List.nil_append, Nat.add_zero]
  | succ rounds continued =>
      have here : (done ++ (text ++ 0 :: beyond))[done.length]? = (text ++ 0 :: beyond)[0]? := by
        rw [List.getElem?_append_right (Nat.le_refl _), Nat.sub_self]
      rw [copyLoop, here]
      cases text with
      | nil => rfl
      | cons ch text =>
          have more : 0 < rest.length := Nat.lt_of_lt_of_le (Nat.succ_pos _) room
          obtain ⟨old, rest, rfl⟩ := List.exists_cons_of_length_pos more
          have other : ch ≠ 0 := fun same => free (same ▸ List.mem_cons_self)
          have later := continued (fun member => free (List.mem_cons_of_mem ch member))
            (done ++ [ch]) rest (Nat.le_of_succ_le_succ room)
          rw [List.append_assoc, List.append_assoc, List.length_append,
            List.length_singleton] at later
          rw [List.cons_append, List.getElem?_cons_zero, Option.bind_some, if_pos other,
            store_append, Option.bind_some]
          refine later.trans ?_
          rw [List.append_assoc, List.take_succ_cons, List.length_cons, Nat.succ_min_succ,
            List.drop_succ_cons, Nat.add_right_comm, Nat.add_assoc]
          rfl

/-- The other loop fills up as many characters. -/
theorem padLoop_append (padC : UInt8) (done rest : Bytes) {rounds : Nat}
    (room : rounds ≤ rest.length) :
    padLoop padC rounds done.length (done ++ rest) =
      some (done ++ (List.replicate rounds padC ++ rest.drop rounds)) := by
  induction rounds generalizing done rest with
  | zero => rw [padLoop, List.replicate_zero, List.drop_zero, List.nil_append]
  | succ rounds continued =>
      have more : 0 < rest.length := Nat.lt_of_lt_of_le (Nat.succ_pos _) room
      obtain ⟨old, rest, rfl⟩ := List.exists_cons_of_length_pos more
      have later := continued (done ++ [padC]) rest (Nat.le_of_succ_le_succ room)
      rw [List.append_assoc, List.length_append, List.length_singleton] at later
      rw [padLoop, store_append, Option.bind_some]
      refine later.trans ?_
      rw [List.append_assoc, List.replicate_succ, List.drop_succ_cons]
      rfl

/-- What `pstrcpy` is to write and to return. -/
def copied (padC : UInt8) (dst text : Bytes) (n : Nat) : Bytes × Nat :=
  (field padC n text ++ dst.drop n, min n text.length)

theorem strlen_text {text : Bytes} (free : 0 ∉ text) (beyond : Bytes) :
    strlen (text ++ 0 :: beyond) = text.length := by
  have whole : cString text = text := InternedStrings.cString_eq_self_iff.mpr free
  rw [cString, List.takeWhile_eq_self_iff] at whole
  rw [strlen, cString, List.takeWhile_append_of_pos whole,
    List.takeWhile_cons_of_neg (by simp), List.append_nil]

theorem strnlen_text {text : Bytes} (free : 0 ∉ text) (beyond : Bytes) (n : Nat) :
    strnlen (text ++ 0 :: beyond) n = some (min n text.length) := by
  have ends : n ≤ (text ++ 0 :: beyond).length ∨ 0 ∈ text ++ 0 :: beyond :=
    .inr (List.mem_append_right _ List.mem_cons_self)
  rw [strnlen, if_pos ends, strlen_text free]

variable {dst text : Bytes} {n : Nat}

theorem stpncpy_text (free : 0 ∉ text) (beyond : Bytes) (room : n ≤ dst.length) :
    stpncpy dst (text ++ 0 :: beyond) n = some (copied 0 dst text n) := by
  have front : (text ++ 0 :: beyond).take (min n text.length) = text.take n := by
    rw [List.take_append_of_le_length (Nat.min_le_right _ _), ← List.take_eq_take_min]
  have filled : n - min n text.length = n - text.length := by omega
  have written : text.take n ++ List.replicate (n - text.length) 0 = field 0 n text := rfl
  have length := length_field (0 : UInt8) n text
  rw [stpncpy, strnlen_text free, Option.bind_some, front, filled, written,
    memcpy_within length.ge (by rwa [Nat.zero_add]), Option.map_some, List.take_zero,
    List.nil_append, Nat.zero_add, List.take_of_length_le length.le]
  rfl

theorem pstrcpy_text (padC : UInt8) (free : 0 ∉ text) (beyond : Bytes) (room : n ≤ dst.length) :
    pstrcpy padC dst (text ++ 0 :: beyond) n = some (copied padC dst text n) := by
  unfold pstrcpy
  split
  · rename_i nul
    rw [nul]
    exact stpncpy_text free beyond room
  · have first := copyLoop_text free beyond [] dst room
    have left : n - min n text.length ≤ (dst.drop (min n text.length)).length := by
      rw [List.length_drop]
      omega
    have second := padLoop_append padC (text.take n) (dst.drop (min n text.length)) left
    have filled : n - min n text.length = n - text.length := by omega
    have behind : min n text.length + (n - text.length) = n ∨ n ≤ text.length := by omega
    rw [List.length_take] at second
    rw [List.nil_append, List.nil_append, List.length_nil, Nat.zero_add] at first
    rw [first, Option.bind_some]
    dsimp only
    rw [List.nil_append, second, Option.map_some, copied, field, List.drop_drop, filled,
      List.append_assoc]
    rcases behind with fits | full
    · rw [fits]
    · rw [Nat.min_eq_left full, Nat.sub_eq_zero_of_le full, Nat.add_zero]

/-- A view is copied without regard to the characters in it. -/
theorem pstrcpyView_text (padC : UInt8) (room : n ≤ dst.length) :
    pstrcpyView padC dst text n = some (copied padC dst text n) := by
  have front : (if min n text.length > 0 then memcpy dst 0 text (min n text.length) else some dst) =
      some (text.take n ++ dst.drop (min n text.length)) := by
    split
    · rw [memcpy_within (Nat.min_le_right _ _) (by omega), List.take_zero, List.nil_append,
        Nat.zero_add, ← List.take_eq_take_min]
    · rename_i none_copied
      have zero : min n text.length = 0 := by omega
      rw [zero, List.drop_zero, List.take_eq_take_min, zero, List.take_zero, List.nil_append]
  unfold pstrcpyView
  dsimp only
  rw [front, Option.bind_some]
  split
  · rename_i short
    have fits : min n text.length = text.length := by omega
    have whole : text.take n = text := List.take_of_length_le (by omega)
    have source : n - text.length ≤ (List.replicate (n - text.length) padC).length :=
      List.length_replicate.ge
    have length : (text ++ dst.drop text.length).length = dst.length := by
      rw [List.length_append, List.length_drop]
      omega
    have end_eq : text.length + (n - text.length) = n := by omega
    rw [fits, whole, memset, memcpy_within source (by omega), Option.map_some, copied, field,
      List.take_left, List.take_of_length_le List.length_replicate.le, end_eq, fits, whole,
      List.append_assoc, List.drop_append, List.drop_of_length_le (by omega : text.length ≤ n),
      List.nil_append, List.drop_drop, end_eq]
  · rename_i full
    have whole : min n text.length = n := by omega
    rw [Option.map_some, copied, field, whole, Nat.sub_eq_zero_of_le (by omega),
      List.replicate_zero, List.append_nil]

/-! ## Reading -/

/-- The loop looks for the first pad among the characters that are left. -/
theorem pstrlenLoop_append (padC : UInt8) (done : Bytes) {rest : Bytes} {rounds : Nat}
    (within : rounds ≤ rest.length) :
    pstrlenLoop padC (done ++ rest) rounds done.length =
      some (done.length + ((rest.take rounds).takeWhile (· ≠ padC)).length) := by
  induction rounds generalizing done rest with
  | zero => rw [pstrlenLoop, List.take_zero, List.takeWhile_nil, List.length_nil, Nat.add_zero]
  | succ rounds continued =>
      have more : 0 < rest.length := Nat.lt_of_lt_of_le (Nat.succ_pos _) within
      obtain ⟨ch, rest, rfl⟩ := List.exists_cons_of_length_pos more
      have later := continued (done ++ [ch]) (Nat.le_of_succ_le_succ within)
      rw [List.append_assoc, List.length_append, List.length_singleton] at later
      rw [pstrlenLoop, List.getElem?_append_right (Nat.le_refl _), Nat.sub_self,
        List.getElem?_cons_zero, Option.bind_some, List.take_succ_cons]
      split
      · rename_i other
        rw [List.takeWhile_cons_of_pos (by simpa using other), List.length_cons]
        exact later.trans (congrArg some (Nat.add_right_comm _ _ _))
      · rename_i pad
        rw [List.takeWhile_cons_of_neg (by simpa using pad), List.length_nil, Nat.add_zero]

/-- Either path looks for the first pad among the first `n` characters. -/
theorem pstrlen_eq (padC : UInt8) {src : Bytes} {n : Nat} (within : n ≤ src.length) :
    pstrlen padC src n = some ((src.take n).takeWhile (· ≠ padC)).length := by
  unfold pstrlen
  split
  · rename_i nul
    rw [nul, strnlen, if_pos (.inl within), ← List.take_takeWhile, List.length_take]
    rfl
  · have looked := pstrlenLoop_append padC [] within
    rw [List.nil_append, List.length_nil, Nat.zero_add] at looked
    exact looked

/--
Both overloads write the same field, and nothing behind it, and return how much of the
text is in it, which `pstrlen` finds again where the text is free of pads.
-/
theorem pstrcpy_pstrlen (padC : UInt8) (n : Nat) {dst text : Bytes} (room : n ≤ dst.length)
    (free : 0 ∉ text) (beyond : Bytes) :
    ∃ written, written.length = n ∧
      pstrcpy padC dst (text ++ 0 :: beyond) n =
        some (written ++ dst.drop n, min n text.length) ∧
      pstrcpyView padC dst text n = some (written ++ dst.drop n, min n text.length) ∧
      (padC ∉ text → pstrlen padC (written ++ dst.drop n) n = some (min n text.length) ∧
        written.take (min n text.length) = text.take n) := by
  have length := length_field padC n text
  refine ⟨field padC n text, length, pstrcpy_text padC free beyond room, pstrcpyView_text padC room,
    fun unpadded => ⟨?_, ?_⟩⟩
  · have within : n ≤ (field padC n text ++ dst.drop n).length := by
      rw [List.length_append, length]
      exact Nat.le_add_right _ _
    rw [pstrlen_eq padC within, List.take_left' length, takeWhile_field unpadded, List.length_take]
  · rw [field, List.take_left' List.length_take]

/-- A blank as the pad, behind a text of one character. -/
theorem pstrcpy_pstrlen_blank :
    ∃ written : Bytes, written.length = 3 ∧
      pstrcpy 32 [1, 2, 3, 4] ([97] ++ 0 :: []) 3 =
        some (written ++ [1, 2, 3, 4].drop 3, min 3 [97].length) ∧
      pstrcpyView 32 [1, 2, 3, 4] [97] 3 =
        some (written ++ [1, 2, 3, 4].drop 3, min 3 [97].length) ∧
      (32 ∉ ([97] : Bytes) →
        pstrlen 32 (written ++ [1, 2, 3, 4].drop 3) 3 = some (min 3 [97].length) ∧
          written.take (min 3 [97].length) = [97].take 3) :=
  pstrcpy_pstrlen 32 3 (by decide) (by decide) []

end ReactiveToolbox.Util
