import ReactiveToolbox.Ipc.MagicRingStream

/-!
# Reading and writing bytes

The overloads of `read` and `write` that take a buffer are built on those that take a
callback.  `write` returns the size of what it has stored.  `read` returns whether its
callback was called, as a number: one, however many bytes were copied.
-/

namespace ReactiveToolbox.Ipc.MagicRingBuffer

open ReactiveToolbox.Lib

variable (ring : MagicRingBuffer)

/-- `size()`, unless an access faults. -/
def size (memory : Memory) : Option (BitVec 64) :=
  (memory.loadWord ring.views rposOffset).bind fun rpos =>
    (memory.loadWord ring.views wposOffset).map fun wpos => wpos - rpos

/-- A `bool`, where a `std::size_t` is returned. -/
def toSize (result : Bool) : BitVec 64 :=
  if result then 1 else 0

/--
`read(void* buf, std::size_t size)`: the memory of the ring, the bytes that are copied
to the buffer, and what is returned.
-/
def readInto (memory : Memory) (size : BitVec 64) :
    Option (Memory × List UInt8 × BitVec 64) :=
  (ring.read memory (.upTo size)).map fun result =>
    match result.2 with
    | some window => (result.1, window.take ((Reader.upTo size).consume window), toSize true)
    | none => (result.1, [], toSize false)

/-- `write(const void* buf, std::size_t size)`, and what is returned. -/
def writeFrom (memory : Memory) (payload : Payload) : Option (Memory × BitVec 64) :=
  (ring.write memory payload).map fun result =>
    (result.1, if result.2 then BitVec.ofNat 64 payload.bytes.length else 0)

/-- A memory with the given positions. -/
structure AtPositions (memory : Memory) (rpos wpos : BitVec 64) : Prop where
  rpos : memory.loadWord ring.views rposOffset = some rpos
  wpos : memory.loadWord ring.views wposOffset = some wpos

/--
A read of up to `n` bytes copies as many as there are from the read position on,
advances the read position by their number, returns it and changes nothing else.
-/
def ReadsBytes (memory : Memory) (n : BitVec 64) : Prop :=
  ∃ rpos wpos count copied after,
    ring.AtPositions memory rpos wpos ∧ count = min n.toNat (wpos - rpos).toNat ∧
      memory.loadBytes ring.views (ring.address rpos) count = some copied ∧
      ring.readInto memory n = some (after, copied, BitVec.ofNat 64 count) ∧
      ring.AtPositions after (rpos + BitVec.ofNat 64 count) wpos ∧ after.file = memory.file

/--
A write of bytes that fit stores them from the write position on, advances the write
position by their number and returns it; one that does not fit changes nothing and
returns zero.
-/
def WritesBytes (memory : Memory) (payload : Payload) : Prop :=
  ∃ rpos wpos, ring.AtPositions memory rpos wpos ∧
    if payload.bytes.length ≤ ring.capacity.toNat - (wpos - rpos).toNat then
      ∃ stored after,
        memory.storeBytes ring.views (ring.address wpos) payload.bytes = some stored ∧
          ring.writeFrom memory payload =
            some (after, BitVec.ofNat 64 payload.bytes.length) ∧
          ring.AtPositions after rpos (wpos + BitVec.ofNat 64 payload.bytes.length) ∧
          after.file = stored.file
    else ring.writeFrom memory payload = some (memory, 0)

variable {ring} {memory : Memory} {exponent period first count : Nat} {session : Session}

/-! ## Every reachable state -/

/-- The positions are at most a ring apart, whatever the mirror shows behind its end. -/
theorem reachable_positions (shape : Shape ring exponent period) (turn : 2 ^ exponent ≤ period)
    {file : Pages}
    (reached : Reachable ring.step unguarded (.start { anonymous := zeros, file }) session) :
    ∃ first count, Positions session.memory first count ∧ count ≤ 2 ^ exponent := by
  have preserved : ∀ before call after,
      (∃ first count, Positions before.memory first count ∧ count ≤ 2 ^ exponent) →
        unguarded before call → ring.step before call = some after →
          ∃ first count, Positions after.memory first count ∧ count ≤ 2 ^ exponent := by
    rintro before call after ⟨first, count, positions, bounded⟩ - taken
    cases call with
    | write payload =>
        by_cases room : count + payload.bytes.length ≤ 2 ^ exponent
        · obtain ⟨next, written, -, -, positions, -⟩ :=
            step_write shape turn positions payload room
          obtain rfl := Option.some.inj (written.symm.trans taken)
          exact ⟨first, _, positions, room⟩
        · rw [step, write_eq shape turn positions bounded, if_neg room] at taken
          cases taken
          exact ⟨first, count, positions, bounded⟩
    | read reader =>
        by_cases short : count = 0 ∨ count < reader.size.toNat
        · rw [step, read_eq shape turn positions bounded reader rfl, if_pos short] at taken
          cases taken
          exact ⟨first, count, positions, bounded⟩
        · obtain ⟨next, shown, -, -, positions, -⟩ :=
            step_read shape turn positions bounded reader rfl (by omega) (by omega)
          obtain rfl := Option.some.inj (shown.symm.trans taken)
          exact ⟨_, _, positions, (Nat.sub_le _ _).trans bounded⟩
  exact Reachable.invariant ⟨0, 0, positions_zeros file, Nat.zero_le _⟩ preserved reached

theorem Positions.atPositions (positions : Positions memory first count)
    (shape : Shape ring exponent period) :
    ring.AtPositions memory (BitVec.ofNat 64 first) (BitVec.ofNat 64 (first + count)) where
  rpos := by rw [shape.mirrors.loadWord (by decide), positions.rpos]
  wpos := by rw [shape.mirrors.loadWord (by decide), positions.wpos]

theorem AtPositions.unique {rpos wpos rpos' wpos' : BitVec 64}
    (here : ring.AtPositions memory rpos wpos) (there : ring.AtPositions memory rpos' wpos') :
    rpos = rpos' ∧ wpos = wpos' :=
  ⟨Option.some.inj (here.rpos.symm.trans there.rpos),
    Option.some.inj (here.wpos.symm.trans there.wpos)⟩

theorem size_eq (shape : Shape ring exponent period)
    (positions : Positions memory first count) :
    ring.size memory = some (BitVec.ofNat 64 count) := by
  have here := positions.atPositions shape
  rw [size, here.rpos, here.wpos, Option.bind_some, Option.map_some, ofNat_add_sub]

/-! ## Writing -/

theorem writesBytes (shape : Shape ring exponent period) (turn : 2 ^ exponent ≤ period)
    (positions : Positions memory first count) (bounded : count ≤ 2 ^ exponent)
    (payload : Payload) : ring.WritesBytes memory payload := by
  have small := shape.lt
  have here := positions.atPositions shape
  have held : (BitVec.ofNat 64 (first + count) - BitVec.ofNat 64 first).toNat = count := by
    rw [ofNat_add_sub, BitVec.toNat_ofNat, Nat.mod_eq_of_lt (by omega)]
  have write := write_eq shape turn positions bounded payload
  refine ⟨_, _, here, ?_⟩
  rw [held, shape.capacity]
  by_cases room : payload.bytes.length ≤ 2 ^ exponent - count
  · have start := Nat.mod_lt (first + count) (Nat.two_pow_pos exponent)
    rw [if_pos (by omega)] at write
    rw [if_pos room]
    have stored : memory.storeBytes ring.views
        (ring.address (BitVec.ofNat 64 (first + count))) payload.bytes =
        some { memory with file :=
          (written memory exponent period (first + count) payload.bytes).file } := by
      rw [shape.address_ofNat, shape.mirrors.storeBytes (by omega)]
      rfl
    refine ⟨_, written memory exponent period (first + count) payload.bytes, stored, ?_, ?_, rfl⟩
    · rw [writeFrom, write]
      rfl
    · have moved : Positions (written memory exponent period (first + count) payload.bytes) first
          (count + payload.bytes.length) := positions.written payload.bytes
      have after := moved.atPositions shape
      rw [← Nat.add_assoc, BitVec.ofNat_add _ payload.bytes.length] at after
      exact after
  · rw [if_neg (by omega)] at write
    rw [if_neg room, writeFrom, write]
    rfl

/-! ## Reading -/

/-- What a read of up to `n` bytes does; it returns one where there is any byte. -/
theorem readInto_eq (shape : Shape ring exponent period) (turn : 2 ^ exponent ≤ period)
    (positions : Positions memory first count) (bounded : count ≤ 2 ^ exponent)
    (n : BitVec 64) :
    ring.readInto memory n = some (
      if count = 0 then (memory, [], 0)
      else (consumed memory (first + min n.toNat count),
        (loadAll (· % period) memory.file.bytes (first % 2 ^ exponent) count).take
          (min n.toNat count), 1)) := by
  have never : ¬count < (Reader.upTo n).size.toNat := Nat.not_lt_zero count
  have read := read_eq shape turn positions bounded (.upTo n) rfl
  rw [Reader.consume_upTo, length_loadAll] at read
  by_cases none : count = 0
  · rw [if_pos (.inl none)] at read
    rw [readInto, read, if_pos none]
    rfl
  · rw [if_neg (not_or.mpr ⟨none, never⟩)] at read
    rw [readInto, read, if_neg none]
    simp only [Option.map_some, Reader.consume_upTo, length_loadAll]
    rfl

/-- A read is right if and only if there is no byte, or it copies one. -/
theorem readsBytes_iff (shape : Shape ring exponent period) (turn : 2 ^ exponent ≤ period)
    (positions : Positions memory first count) (bounded : count ≤ 2 ^ exponent)
    (n : BitVec 64) : ring.ReadsBytes memory n ↔ count = 0 ∨ min n.toNat count = 1 := by
  have small := shape.lt
  have here := positions.atPositions shape
  have held : (BitVec.ofNat 64 (first + count) - BitVec.ofNat 64 first).toNat = count := by
    rw [ofNat_add_sub, BitVec.toNat_ofNat, Nat.mod_eq_of_lt (by omega)]
  have read := readInto_eq shape turn positions bounded n
  constructor
  · rintro ⟨rpos, wpos, copies, copied, after, there, copies_eq, -, returned, -⟩
    obtain ⟨rfl, rfl⟩ := here.unique there
    rw [held] at copies_eq
    refine Classical.or_iff_not_imp_left.mpr fun some_left => ?_
    rw [read, if_neg some_left] at returned
    have one : (1 : BitVec 64) = BitVec.ofNat 64 copies :=
      congrArg (fun result => result.2.2) (Option.some.inj returned)
    have toNat := congrArg BitVec.toNat one
    rw [BitVec.toNat_ofNat, Nat.mod_eq_of_lt (by omega)] at toNat
    rw [← copies_eq]
    exact toNat.symm
  · intro cases_on
    have start := Nat.mod_lt first (Nat.two_pow_pos exponent)
    have window : memory.loadBytes ring.views (ring.address (BitVec.ofNat 64 first))
        (min n.toNat count) =
        some (loadAll (· % period) memory.file.bytes (first % 2 ^ exponent)
          (min n.toNat count)) := by
      rw [shape.address_ofNat, shape.mirrors.loadBytes (by omega)]
    rcases cases_on with rfl | one
    · refine ⟨_, _, min n.toNat 0, _, memory, here, by rw [held], window, ?_, ?_, rfl⟩
      · rw [read, if_pos rfl, Nat.min_zero]
        rfl
      · have same : BitVec.ofNat 64 (first + 0) = BitVec.ofNat 64 first + BitVec.ofNat 64 0 :=
          BitVec.ofNat_add ..
        rw [Nat.min_zero, ← same]
        exact here
    · have some_left : count ≠ 0 := by
        rintro rfl
        rw [Nat.min_zero] at one
        cases one
      have moved := (positions.consumed (Nat.min_le_right n.toNat count)).atPositions shape
      refine ⟨_, _, min n.toNat count, _, consumed memory (first + min n.toNat count), here,
        by rw [held], window, ?_, ?_, rfl⟩
      · have returned : BitVec.ofNat 64 (min n.toNat count) = 1 := by
          rw [one]
          rfl
        rw [read, if_neg some_left, take_loadAll, returned,
          Nat.min_eq_left (Nat.min_le_right n.toNat count)]
      · rw [← BitVec.ofNat_add]
        have same : first + min n.toNat count + (count - min n.toNat count) = first + count := by
          omega
        rwa [same] at moved

/-! ## Every capacity that the constructor accepts -/

/--
In every state that is reached, a read of up to `n` bytes is right if and only if the
ring is empty or exactly one byte is copied, and every write is right.
-/
theorem reachable_readsBytes_iff {kernel : Kernel} {capacity : BitVec 64}
    (created : create kernel capacity = some (ring, memory))
    (reached : Reachable ring.step unguarded (.start memory) session) (n : BitVec 64) :
    ∃ held, ring.size session.memory = some held ∧
      (ring.ReadsBytes session.memory n ↔ held = 0 ∨ min n.toNat held.toNat = 1) ∧
      ∀ payload, ring.WritesBytes session.memory payload := by
  obtain ⟨-, rfl, exponent, shape, -⟩ := create_shape created
  have turn : 2 ^ exponent ≤ 2 ^ max 12 exponent :=
    Nat.pow_le_pow_right Nat.two_pos (Nat.le_max_right _ _)
  obtain ⟨first, count, positions, bounded⟩ := reachable_positions shape turn reached
  have small := shape.lt
  have value : (BitVec.ofNat 64 count).toNat = count := by
    rw [BitVec.toNat_ofNat, Nat.mod_eq_of_lt (by omega)]
  have zero : BitVec.ofNat 64 count = 0 ↔ count = 0 := by
    rw [← BitVec.toNat_inj, value]
    rfl
  refine ⟨_, size_eq shape positions, ?_, writesBytes shape turn positions bounded⟩
  rw [value, zero]
  exact readsBytes_iff shape turn positions bounded n

/-- The bytes 1 and 2. -/
def twoPayload : Payload where
  bytes := [1, 2]
  fits := by decide

/-- Two bytes are written to a ring of one page. -/
theorem two_written :
    ∃ ring memory session exponent, create anyKernel pageSize = some (ring, memory) ∧
      ring.step (.start memory) (.write twoPayload) = some session ∧
      Shape ring exponent (2 ^ max 12 exponent) ∧ 2 ≤ 2 ^ exponent ∧
      Positions session.memory 0 2 := by
  have accepted : (create anyKernel pageSize).isSome := by decide
  rcases Option.isSome_iff_exists.mp accepted with ⟨⟨ring, memory⟩, created⟩
  obtain ⟨-, rfl, exponent, shape, low⟩ := create_shape created
  have turn : 2 ^ exponent ≤ 2 ^ max 12 exponent :=
    Nat.pow_le_pow_right Nat.two_pos (Nat.le_max_right _ _)
  have room : 2 ≤ 2 ^ exponent :=
    (show 2 ≤ 2 ^ 11 by decide).trans (Nat.pow_le_pow_right Nat.two_pos low)
  have begun : Positions (Session.start { anonymous := zeros, file := zeros }).memory 0 0 :=
    positions_zeros zeros
  obtain ⟨session, taken, -, -, positions, -⟩ := step_write shape turn begun twoPayload room
  exact ⟨ring, _, session, exponent, created, taken, shape, room, positions⟩

theorem reachable_readsBytes_page :
    ∃ ring memory session, create anyKernel pageSize = some (ring, memory) ∧
      ring.step (.start memory) (.write twoPayload) = some session ∧
      ring.size session.memory = some 2 ∧
      ∃ held, ring.size session.memory = some held ∧
        (ring.ReadsBytes session.memory 7 ↔ held = 0 ∨ min 7 held.toNat = 1) ∧
        ∀ payload, ring.WritesBytes session.memory payload := by
  obtain ⟨ring, memory, session, exponent, created, taken, shape, -, positions⟩ := two_written
  exact ⟨ring, memory, session, created, taken, size_eq shape positions,
    reachable_readsBytes_iff created (Reachable.refl.extend trivial taken) 7⟩

/-- Two bytes are written, and a read of two bytes returns one. -/
theorem not_readsBytes_two :
    ∃ ring memory session, create anyKernel pageSize = some (ring, memory) ∧
      Reachable ring.step unguarded (.start memory) session ∧
      ¬ring.ReadsBytes session.memory 2 := by
  obtain ⟨ring, memory, session, exponent, created, taken, shape, room, positions⟩ := two_written
  refine ⟨ring, memory, session, created, Reachable.refl.extend trivial taken, ?_⟩
  have turn : 2 ^ exponent ≤ 2 ^ max 12 exponent :=
    Nat.pow_le_pow_right Nat.two_pos (Nat.le_max_right _ _)
  rw [readsBytes_iff shape turn positions room 2]
  decide

end ReactiveToolbox.Ipc.MagicRingBuffer
