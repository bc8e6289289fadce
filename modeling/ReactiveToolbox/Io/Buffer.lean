import Mathlib.Data.List.Basic

/-!
# The read and write buffer

`Buffer` is a vector of bytes with a read and a write position.  Readable are
the bytes between the positions; `prepare` grows the vector behind the write
position and `consume` may move the readable bytes to the front.
-/

namespace ReactiveToolbox.Io

/-- A byte of a buffer. -/
abbrev Byte := UInt8

/-- `Buffer`. -/
structure Buffer where
  rpos : Nat
  wpos : Nat
  buf : List Byte
  deriving DecidableEq

namespace Buffer

/-- `Buffer()`. -/
def create : Buffer where
  rpos := 0
  wpos := 0
  buf := []

/-- `Buffer::size`. -/
def size (buffer : Buffer) : Nat := buffer.wpos - buffer.rpos

/-- `Buffer::empty`. -/
def empty (buffer : Buffer) : Bool := buffer.size == 0

/-- `Buffer::buffer`: the bytes available to a reader. -/
def readable (buffer : Buffer) : List Byte :=
  (buffer.buf.drop buffer.rpos).take buffer.size

/-- `Buffer::available`. -/
def available (buffer : Buffer) : Nat := buffer.buf.length - buffer.wpos

/-- `Buffer::commit`. -/
def commit (buffer : Buffer) (count : Nat) : Buffer :=
  { buffer with wpos := buffer.wpos + count }

/-- The room in front of the data that `consume` gives up. -/
def shrinkThreshold : Nat := 1024

/-- `Buffer::consume`. -/
def consume (buffer : Buffer) (count : Nat) : Buffer :=
  if count = 0 then buffer
  else
    let consumed := { buffer with rpos := buffer.rpos + count }
    if shrinkThreshold ≤ consumed.rpos ∧ consumed.buf.length / 2 ≤ consumed.rpos then {
      rpos := 0
      wpos := consumed.size
      -- The unread portion is moved to the front and nothing else is touched.
      buf := consumed.readable ++ consumed.buf.drop consumed.size }
    else consumed

/-- `Buffer::clear`. -/
def clear (_ : Buffer) : Buffer where
  rpos := 0
  wpos := 0
  buf := []

/-- `Buffer::prepare`, with the size of the region it returns, which starts at `wpos`. -/
def prepare (buffer : Buffer) (size : Nat) : Buffer × Nat :=
  if buffer.available < size then
    ({ buffer with
      buf := buffer.buf ++ List.replicate (size - buffer.available) 0 }, size)
  else (buffer, buffer.available)

/-- Store bytes in a prepared region, at an offset from the write position. -/
def store (buffer : Buffer) (offset : Nat) (bytes : List Byte) : Buffer :=
  { buffer with
    buf := buffer.buf.take (buffer.wpos + offset) ++ bytes ++
      buffer.buf.drop (buffer.wpos + offset + bytes.length) }

/-- Prepare, fill and commit: how bytes are appended. -/
def append (buffer : Buffer) (bytes : List Byte) : Buffer :=
  ((buffer.prepare bytes.length).1.store 0 bytes).commit bytes.length

/-- The positions are in order and within the storage. -/
structure Valid (buffer : Buffer) : Prop where
  ordered : buffer.rpos ≤ buffer.wpos
  stored : buffer.wpos ≤ buffer.buf.length

theorem create_valid : create.Valid := ⟨Nat.le_refl 0, Nat.le_refl 0⟩

theorem length_readable {buffer : Buffer} (valid : buffer.Valid) :
    buffer.readable.length = buffer.size := by
  have ordered := valid.ordered
  have stored := valid.stored
  rw [readable, List.length_take, List.length_drop, size]
  omega

/-- The bytes from the read pointer on are readable as far as there are any. -/
theorem take_drop_rpos {buffer : Buffer} {count : Nat} (within : count ≤ buffer.size) :
    (buffer.buf.drop buffer.rpos).take count = buffer.readable.take count := by
  rw [readable, List.take_take, Nat.min_eq_left within]

theorem empty_iff {buffer : Buffer} (valid : buffer.Valid) :
    buffer.empty = true ↔ buffer.readable = [] := by
  rw [← List.length_eq_zero_iff, length_readable valid, empty, beq_iff_eq]

theorem prepare_valid {buffer : Buffer} (valid : buffer.Valid) (size : Nat) :
    (buffer.prepare size).1.Valid := by
  unfold prepare
  split
  · refine ⟨valid.ordered, Nat.le_trans valid.stored ?_⟩
    rw [List.length_append]
    exact Nat.le_add_right _ _
  · exact valid

theorem readable_prepare {buffer : Buffer} (valid : buffer.Valid) (size : Nat) :
    (buffer.prepare size).1.readable = buffer.readable := by
  have ordered := valid.ordered
  have stored := valid.stored
  unfold prepare
  split
  · simp only [readable, Buffer.size]
    rw [List.drop_append_of_le_length (by omega),
      List.take_append_of_le_length (by rw [List.length_drop]; omega)]
  · rfl

/-- The region returned by `prepare` lies within the storage. -/
theorem prepare_room (buffer : Buffer) (valid : buffer.Valid) (size : Nat) :
    size ≤ (buffer.prepare size).2 ∧
      (buffer.prepare size).1.wpos + (buffer.prepare size).2 =
        (buffer.prepare size).1.buf.length := by
  have stored := valid.stored
  unfold prepare
  split
  · rename_i short
    simp only [available] at short ⊢
    simp
    omega
  · rename_i enough
    simp only [available] at enough ⊢
    omega

/-- Storing past the write position and committing appends to the readable bytes. -/
theorem commit_store {buffer : Buffer} (valid : buffer.Valid) {bytes : List Byte}
    (room : buffer.wpos + bytes.length ≤ buffer.buf.length) :
    ((buffer.store 0 bytes).commit bytes.length).Valid ∧
      ((buffer.store 0 bytes).commit bytes.length).readable = buffer.readable ++ bytes := by
  rcases buffer with ⟨rpos, wpos, buf⟩
  rcases valid with ⟨ordered, stored⟩
  simp only [store, commit, readable, size, Nat.add_zero] at *
  refine ⟨⟨Nat.le_add_right_of_le ordered, ?_⟩, ?_⟩
  · simp
    omega
  · have front : (buf.take wpos).length = wpos := by simp [stored]
    rw [List.append_assoc, List.drop_append_of_le_length (by omega),
      ← List.append_assoc, List.take_append_of_le_length (by simp; omega),
      List.drop_take, List.take_of_length_le (by simp; omega)]

theorem append_valid {buffer : Buffer} (valid : buffer.Valid) (bytes : List Byte) :
    (buffer.append bytes).Valid ∧ (buffer.append bytes).readable = buffer.readable ++ bytes := by
  have room := prepare_room buffer valid bytes.length
  have fits : (buffer.prepare bytes.length).1.wpos + bytes.length ≤
      (buffer.prepare bytes.length).1.buf.length := by
    rw [← room.2]
    exact Nat.add_le_add_left room.1 _
  have stored := commit_store (prepare_valid valid bytes.length) fits
  rw [readable_prepare valid] at stored
  exact stored

/-- Consuming removes from the front, whether or not the bytes are moved. -/
theorem consume_valid {buffer : Buffer} (valid : buffer.Valid) {count : Nat}
    (within : count ≤ buffer.size) :
    (buffer.consume count).Valid ∧
      (buffer.consume count).readable = buffer.readable.drop count := by
  rcases buffer with ⟨rpos, wpos, buf⟩
  rcases valid with ⟨ordered, stored⟩
  simp only [size] at within ordered stored
  unfold consume
  split
  · rename_i zero
    subst zero
    exact ⟨⟨ordered, stored⟩, (List.drop_zero).symm⟩
  · have moved : ({ rpos := rpos + count, wpos := wpos, buf := buf } : Buffer).readable =
        (({ rpos := rpos, wpos := wpos, buf := buf } : Buffer).readable).drop count := by
      simp only [readable, size, List.drop_take, List.drop_drop]
      rw [Nat.sub_sub]
    have valid : ({ rpos := rpos + count, wpos := wpos, buf := buf } : Buffer).Valid :=
      ⟨by simp; omega, stored⟩
    have length := length_readable valid
    simp only
    split
    · refine ⟨⟨Nat.zero_le _, ?_⟩, ?_⟩
      · rw [List.length_append, length]
        exact Nat.le_add_right _ _
      · rw [← moved]
        simp only [readable, size] at length ⊢
        rw [List.drop_zero, Nat.sub_zero, List.take_append_of_le_length (by omega),
          List.take_of_length_le (by omega)]
    · exact ⟨valid, moved⟩

end Buffer

end ReactiveToolbox.Io
