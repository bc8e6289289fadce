import Mathlib.Data.Nat.Init
import ReactiveToolbox.Io.Buffer
import ReactiveToolbox.Lib.Transition

/-!
# The buffer as a queue

A user of a `Buffer` prepares regions, writes into them, commits what was written
and consumes it.  The readable bytes are the committed ones less those consumed,
wherever they are in the storage; a region is lost when the storage is cleared or
its bytes are moved to the front.
-/

namespace ReactiveToolbox.Io

open ReactiveToolbox.Lib

/-- What a user does. -/
inductive BufferAction where
  | prepare (size : Nat)
  | write (offset : Nat) (bytes : List Byte)
  | commit (count : Nat)
  | consume (count : Nat)
  | clear
  deriving DecidableEq

/--
A buffer with what its user holds of it: where the region begins that was returned
last and how much of it is left, and whether it has stayed in its place since; and
the bytes that have been committed and how many of them are consumed.
-/
structure BufferSession where
  buffer : Buffer
  start : Nat
  room : Nat
  live : Bool
  committed : List Byte
  consumed : Nat
  deriving DecidableEq

namespace Buffer

/-- Whether `consume` moves the bytes to the front. -/
def Compacts (buffer : Buffer) (count : Nat) : Prop :=
  count ≠ 0 ∧ shrinkThreshold ≤ buffer.rpos + count ∧ buffer.buf.length / 2 ≤ buffer.rpos + count

instance (buffer : Buffer) (count : Nat) : Decidable (buffer.Compacts count) :=
  inferInstanceAs (Decidable (_ ∧ _))

/-- Bytes are written somewhere in the storage. -/
def overwrite (buffer : Buffer) (position : Nat) (bytes : List Byte) : Buffer :=
  { buffer with
    buf := buffer.buf.take position ++ bytes ++ buffer.buf.drop (position + bytes.length) }

theorem overwrite_wpos (buffer : Buffer) (offset : Nat) (bytes : List Byte) :
    buffer.overwrite (buffer.wpos + offset) bytes = buffer.store offset bytes :=
  rfl

theorem consume_of_not_compacts {buffer : Buffer} {count : Nat}
    (stays : ¬ buffer.Compacts count) :
    (buffer.consume count).wpos = buffer.wpos ∧ (buffer.consume count).buf = buffer.buf := by
  unfold Compacts at stays
  unfold consume
  by_cases zero : count = 0
  · rw [if_pos zero]
    exact ⟨rfl, rfl⟩
  · rw [if_neg zero, if_neg fun moves => stays ⟨zero, moves⟩]
    exact ⟨rfl, rfl⟩

/-- Writing behind the write position does not touch the readable bytes. -/
theorem store_valid {buffer : Buffer} (valid : buffer.Valid) {offset : Nat} {bytes : List Byte}
    (within : buffer.wpos + offset + bytes.length ≤ buffer.buf.length) :
    (buffer.store offset bytes).Valid ∧
      (buffer.store offset bytes).buf.length = buffer.buf.length ∧
      (buffer.store offset bytes).readable = buffer.readable := by
  have ordered := valid.ordered
  have stored := valid.stored
  have length : (buffer.store offset bytes).buf.length = buffer.buf.length := by
    simp only [store, List.length_append, List.length_take, List.length_drop]
    omega
  refine ⟨⟨ordered, ?_⟩, length, ?_⟩
  · rw [length]
    exact stored
  · have front : (buffer.buf.take (buffer.wpos + offset)).length = buffer.wpos + offset := by
      rw [List.length_take]
      omega
    simp only [readable, store, size]
    rw [List.append_assoc, List.drop_append_of_le_length (by omega),
      List.take_append_of_le_length (by rw [List.length_drop]; omega), List.drop_take,
      List.take_take, Nat.min_eq_left (by omega)]

/-- Committing appends what is behind the write position. -/
theorem commit_valid {buffer : Buffer} (valid : buffer.Valid) {count : Nat}
    (within : buffer.wpos + count ≤ buffer.buf.length) :
    (buffer.commit count).Valid ∧
      (buffer.commit count).readable =
        buffer.readable ++ (buffer.buf.drop buffer.wpos).take count := by
  have ordered := valid.ordered
  refine ⟨⟨Nat.le_add_right_of_le ordered, within⟩, ?_⟩
  have longer : buffer.wpos + count - buffer.rpos = buffer.wpos - buffer.rpos + count := by
    omega
  have behind : buffer.rpos + (buffer.wpos - buffer.rpos) = buffer.wpos := by
    omega
  simp only [readable, commit, size]
  rw [longer, List.take_add, List.drop_drop, behind]

end Buffer

namespace BufferSession

/-- A new buffer. -/
def initial : BufferSession where
  buffer := .create
  start := 0
  room := 0
  live := false
  committed := []
  consumed := 0

/-- What the actions do, undefined where they would write outside the storage. -/
def step (session : BufferSession) : BufferAction → Option BufferSession
  | .prepare size =>
      let prepared := session.buffer.prepare size
      some
        { session with
          buffer := prepared.1
          start := prepared.1.wpos
          room := prepared.2
          live := true }
  | .write offset bytes =>
      if session.start + offset + bytes.length ≤ session.buffer.buf.length then
        some { session with buffer := session.buffer.overwrite (session.start + offset) bytes }
      else none
  | .commit count =>
      some
        { session with
          buffer := session.buffer.commit count
          start := session.start + count
          room := session.room - count
          committed :=
            session.committed ++ (session.buffer.buf.drop session.start).take count }
  | .consume count =>
      some
        { session with
          buffer := session.buffer.consume count
          live := session.live && !decide (session.buffer.Compacts count)
          consumed := session.consumed + count }
  | .clear =>
      some
        { session with
          buffer := session.buffer.clear
          live := false
          consumed := session.committed.length }

/-- Nothing is written or committed but what was prepared, or consumed but what is readable. -/
def Within (session : BufferSession) : BufferAction → Prop
  | .prepare _ => True
  | .write offset bytes => offset + bytes.length ≤ session.room
  | .commit count => count ≤ session.room
  | .consume count => count ≤ session.buffer.size
  | .clear => True

/-- And the region has stayed in its place. -/
def Allowed (session : BufferSession) (action : BufferAction) : Prop :=
  session.Within action ∧
    match action with
    | .write _ _ => session.live = true
    | .commit _ => session.live = true
    | _ => True

instance (session : BufferSession) (action : BufferAction) :
    Decidable (session.Within action) := by
  cases action <;> simp only [Within] <;> infer_instance

instance (session : BufferSession) (action : BufferAction) :
    Decidable (session.Allowed action) := by
  unfold Allowed
  cases action <;> infer_instance

/-- The readable bytes are the committed ones less those consumed. -/
structure Fifo (session : BufferSession) : Prop where
  valid : session.buffer.Valid
  consumed_le : session.consumed ≤ session.committed.length
  readable : session.buffer.readable = session.committed.drop session.consumed
  region : session.live = true →
    session.start = session.buffer.wpos ∧
      session.start + session.room ≤ session.buffer.buf.length

theorem initial_fifo : initial.Fifo := by
  constructor
  · exact Buffer.create_valid
  · exact Nat.le_refl 0
  · rfl
  · intro live
    cases live

variable {before after : BufferSession}

theorem size_eq (fifo : before.Fifo) :
    before.buffer.size = before.committed.length - before.consumed := by
  rw [← Buffer.length_readable fifo.valid, fifo.readable, List.length_drop]

theorem step_fifo (fifo : before.Fifo) {action : BufferAction} (allowed : before.Allowed action)
    (taken : before.step action = some after) : after.Fifo := by
  obtain ⟨within, live⟩ := allowed
  cases action with
  | prepare size =>
      cases taken
      have room := Buffer.prepare_room before.buffer fifo.valid size
      constructor
      · exact Buffer.prepare_valid fifo.valid size
      · exact fifo.consumed_le
      · exact (Buffer.readable_prepare fifo.valid size).trans fifo.readable
      · intro _
        exact ⟨rfl, Nat.le_of_eq room.2⟩
  | write offset bytes =>
      obtain ⟨start, room⟩ := fifo.region live
      have within : offset + bytes.length ≤ before.room := within
      rw [step, if_pos (by omega)] at taken
      cases taken
      obtain ⟨valid, length, readable⟩ := Buffer.store_valid fifo.valid
        (by omega : before.buffer.wpos + offset + bytes.length ≤ before.buffer.buf.length)
      rw [← Buffer.overwrite_wpos, ← start] at valid length readable
      constructor
      · exact valid
      · exact fifo.consumed_le
      · exact readable.trans fifo.readable
      · intro _
        refine ⟨start, ?_⟩
        simp only [length]
        exact room
  | commit count =>
      obtain ⟨start, room⟩ := fifo.region live
      have within : count ≤ before.room := within
      cases taken
      obtain ⟨valid, readable⟩ := Buffer.commit_valid fifo.valid
        (by omega : before.buffer.wpos + count ≤ before.buffer.buf.length)
      constructor
      · exact valid
      · have consumed := fifo.consumed_le
        simp only [List.length_append]
        omega
      · simp only
        rw [readable, fifo.readable, start, List.drop_append_of_le_length fifo.consumed_le]
      · intro _
        refine ⟨congrArg (· + count) start, ?_⟩
        simp only [Buffer.commit]
        omega
  | consume count =>
      have within : count ≤ before.buffer.size := within
      have size := size_eq fifo
      have consumed := fifo.consumed_le
      cases taken
      obtain ⟨valid, readable⟩ := Buffer.consume_valid fifo.valid within
      constructor
      · exact valid
      · simp only
        omega
      · simp only
        rw [readable, fifo.readable, List.drop_drop]
      · intro still_live
        simp only [Bool.and_eq_true, Bool.not_eq_true', decide_eq_false_iff_not] at still_live
        obtain ⟨wpos, buf⟩ := Buffer.consume_of_not_compacts still_live.2
        simp only [wpos, buf]
        exact fifo.region still_live.1
  | clear =>
      cases taken
      constructor
      · exact Buffer.create_valid
      · exact Nat.le_refl _
      · simp only [List.drop_length]
        rfl
      · intro live
        cases live

/--
At any time the positions are in order, the readable bytes are the committed ones less
those consumed, and a region that is prepared is as large as asked for and apart from
the readable bytes, wherever these are.
-/
theorem reachable_fifo {session : BufferSession}
    (reached : Reachable step Allowed initial session) :
    session.buffer.rpos ≤ session.buffer.wpos ∧
      session.buffer.wpos ≤ session.buffer.buf.length ∧
      session.consumed ≤ session.committed.length ∧
      session.buffer.readable = session.committed.drop session.consumed ∧
      ∀ size, ∃ prepared room, session.buffer.prepare size = (prepared, room) ∧
        size ≤ room ∧ prepared.wpos + room ≤ prepared.buf.length ∧
        prepared.readable = session.buffer.readable ∧
        ∀ offset bytes, offset + bytes.length ≤ room →
          (prepared.store offset bytes).readable = session.buffer.readable := by
  have fifo : session.Fifo := reached.invariant initial_fifo
    fun before action after fifo allowed taken => step_fifo fifo allowed taken
  refine ⟨fifo.valid.ordered, fifo.valid.stored, fifo.consumed_le, fifo.readable, ?_⟩
  intro size
  have room := Buffer.prepare_room session.buffer fifo.valid size
  have readable := Buffer.readable_prepare fifo.valid size
  have valid := Buffer.prepare_valid fifo.valid size
  cases prepared_eq : session.buffer.prepare size with
  | mk prepared available =>
      rw [prepared_eq] at room readable valid
      refine ⟨prepared, available, rfl, room.1, Nat.le_of_eq room.2, readable, ?_⟩
      intro offset bytes within
      have end_eq := room.2
      have stored := Buffer.store_valid valid
        (by simp only at end_eq; omega :
          prepared.wpos + offset + bytes.length ≤ prepared.buf.length)
      exact stored.2.2.trans readable

/-- A region in use while bytes before it are consumed and the storage grows. -/
theorem reachable_fifo_interleaved :
    ∃ session : BufferSession, session.buffer.readable = [2, 3, 4] ∧
      session.buffer.readable = session.committed.drop session.consumed := by
  have computed :
      (execute step Allowed initial
        [.prepare 4, .write 0 [1, 2, 3], .commit 2, .consume 1, .commit 1, .prepare 8,
          .write 0 [4], .commit 1]).map (fun session => session.buffer.readable) =
        some [2, 3, 4] := by
    decide
  obtain ⟨session, reached, readable⟩ := Reachable.of_execute computed
  exact ⟨session, readable, (reachable_fifo reached).2.2.2.1⟩

/-- A region that is written and committed after the bytes have been moved. -/
theorem stale_region_commits_other_bytes :
    ∃ session, Reachable step Within initial session ∧
      session.committed.drop session.consumed = List.replicate 16 2 ∧
      session.buffer.readable = List.replicate 16 1 := by
  have computed :
      (execute step Within initial
        [.prepare 1024, .write 0 (List.replicate 1024 1), .commit 1024, .prepare 16,
          .consume 1024, .write 0 (List.replicate 16 2), .commit 16]).map
        (fun session =>
          (session.committed.drop session.consumed, session.buffer.readable)) =
        some (List.replicate 16 2, List.replicate 16 1) := by
    decide +kernel
  obtain ⟨session, reached, observed⟩ := Reachable.of_execute computed
  exact ⟨session, reached, congrArg Prod.fst observed, congrArg Prod.snd observed⟩

end BufferSession

end ReactiveToolbox.Io
