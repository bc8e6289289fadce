import ReactiveToolbox.Ipc.MagicRingStream

/-!
# Two ring buffers over one file

`MagicRingBuffer(FileHandle&)` takes the file to hold a header and the ring.  Only the
ring is mapped from the file, from its start on: the header with the two positions lies
in the private pages in front of it, so each object has positions of its own.
-/

namespace ReactiveToolbox.Ipc.MagicRingBuffer

open ReactiveToolbox.Lib

/-- The private pages of two objects, the pages of their file, and what went through. -/
structure SharedSession where
  writerPages : Pages
  readerPages : Pages
  file : Pages
  accepted : List UInt8
  delivered : List UInt8

namespace SharedSession

/-- What the object that writes has mapped. -/
def writerMemory (session : SharedSession) : Memory :=
  { anonymous := session.writerPages, file := session.file }

/-- What the object that reads has mapped. -/
def readerMemory (session : SharedSession) : Memory :=
  { anonymous := session.readerPages, file := session.file }

/-- Both objects have just been opened; fresh private pages are zero. -/
def start (file : Pages) : SharedSession where
  writerPages := zeros
  readerPages := zeros
  file := file
  accepted := []
  delivered := []

variable (writer reader : MagicRingBuffer)

/-- A call: one object is only written to and the other only read from. -/
def step (session : SharedSession) : Call → Option SharedSession
  | .write payload =>
      (writer.write session.writerMemory payload).map fun result =>
        { session with
          writerPages := result.1.anonymous
          file := result.1.file
          accepted := if result.2 then session.accepted ++ payload.bytes else session.accepted }
  | .read callback =>
      (reader.read session.readerMemory callback).map fun result =>
        { session with
          readerPages := result.1.anonymous
          file := result.1.file
          delivered :=
            match result.2 with
            | some window => session.delivered ++ window.take (callback.consume window)
            | none => session.delivered }

/-- Both objects see the same positions, and the reader gets what the writer put in. -/
structure Agrees (session : SharedSession) : Prop where
  rpos : session.writerMemory.loadWord writer.views rposOffset =
    session.readerMemory.loadWord reader.views rposOffset
  wpos : session.writerMemory.loadWord writer.views wposOffset =
    session.readerMemory.loadWord reader.views wposOffset
  inOrder : session.delivered <+: session.accepted
  shows : ∀ callback, ∃ memory, reader.read session.readerMemory callback = some (memory,
    let held := session.accepted.drop session.delivered.length
    if held = [] ∨ held.length < callback.size.toNat then none else some held)

end SharedSession

/-- A call that puts no byte into an empty ring of the given capacity. -/
def Call.Silent (capacity : Nat) : Call → Prop
  | .write payload => payload.bytes = [] ∨ capacity < payload.bytes.length
  | .read _ => True

namespace SharedSession

variable {writer reader : MagicRingBuffer} {session session' : SharedSession}
    {exponent period : Nat}
    {file : Pages} {call : Call}

/-- The writer has put in what was accepted, and the reader has not seen any of it. -/
structure Apart (exponent : Nat) (session : SharedSession) : Prop where
  written : Positions session.writerMemory 0 session.accepted.length
  read : Positions session.readerMemory 0 0
  bounded : session.accepted.length ≤ 2 ^ exponent
  delivered : session.delivered = []

theorem start_apart (exponent : Nat) (file : Pages) : Apart exponent (start file) where
  written := positions_zeros file
  read := positions_zeros file
  bounded := Nat.zero_le _
  delivered := rfl

/-- No call faults. -/
theorem Apart.defined (writes : Shape writer exponent period)
    (reads : Shape reader exponent period) (turn : 2 ^ exponent ≤ period)
    (apart : Apart exponent session) (call : Call) :
    ∃ session', step writer reader session call = some session' := by
  cases call with
  | write payload =>
      rw [SharedSession.step, write_eq writes turn apart.written apart.bounded, Option.map_some]
      exact ⟨_, rfl⟩
  | read callback =>
      rw [SharedSession.step, read_eq reads turn apart.read (Nat.zero_le _) callback rfl,
        Option.map_some]
      exact ⟨_, rfl⟩

/-- A call keeps the objects apart, and puts bytes in unless it is silent. -/
theorem Apart.step (writes : Shape writer exponent period) (reads : Shape reader exponent period)
    (turn : 2 ^ exponent ≤ period) (apart : Apart exponent session)
    (taken : step writer reader session call = some session') :
    Apart exponent session' ∧ (session'.accepted = [] ↔
      session.accepted = [] ∧ call.Silent (2 ^ exponent)) := by
  cases call with
  | write payload =>
      rw [SharedSession.step, write_eq writes turn apart.written apart.bounded,
        Option.map_some, Option.some.injEq] at taken
      subst taken
      by_cases room : session.accepted.length + payload.bytes.length ≤ 2 ^ exponent
      · have silent : payload.bytes = [] ∨ 2 ^ exponent < payload.bytes.length ↔
            payload.bytes = [] := by
          refine or_iff_left fun large => ?_
          omega
        simp only [if_pos room, if_true, List.append_eq_nil_iff, Call.Silent, silent, and_true]
        refine ⟨?_, ?_, ?_, apart.delivered⟩
        · rw [List.length_append]
          exact apart.written.written payload.bytes
        · exact ⟨apart.read.rpos, apart.read.wpos⟩
        · rwa [List.length_append]
      · have silent : session.accepted = [] →
            payload.bytes = [] ∨ 2 ^ exponent < payload.bytes.length := by
          intro none
          rw [none, List.length_nil] at room
          exact Or.inr (by omega)
        simp only [if_neg room, Bool.false_eq_true, if_false, Call.Silent]
        exact ⟨apart, ⟨fun none => ⟨none, silent none⟩, And.left⟩⟩
  | read callback =>
      rw [SharedSession.step, read_eq reads turn apart.read (Nat.zero_le _) callback rfl,
        if_pos (Or.inl rfl), Option.map_some, Option.some.injEq] at taken
      subst taken
      exact ⟨apart, (and_iff_left trivial).symm⟩

theorem Apart.run (writes : Shape writer exponent period) (reads : Shape reader exponent period)
    (turn : 2 ^ exponent ≤ period) {calls : List Call}
    (run : Run (SharedSession.step writer reader) unguarded (start file) calls session) :
    Apart exponent session ∧
      (session.accepted = [] ↔ ∀ call ∈ calls, call.Silent (2 ^ exponent)) := by
  induction run with
  | start => exact ⟨start_apart exponent file, by simp [SharedSession.start]⟩
  | step _ _ taken ih =>
      rcases Apart.step writes reads turn ih.1 taken with ⟨apart, same⟩
      refine ⟨apart, ?_⟩
      rw [same, ih.2, List.forall_mem_append, List.forall_mem_singleton]

/-- The objects agree only while nothing has been accepted. -/
theorem Apart.agrees_iff (writes : Shape writer exponent period)
    (reads : Shape reader exponent period) (turn : 2 ^ exponent ≤ period)
    (apart : Apart exponent session) :
    session.Agrees writer reader ↔ session.accepted = [] := by
  have header : rposOffset < sizeofImpl.toNat ∧ wposOffset < sizeofImpl.toNat := by decide
  have bounded := apart.bounded
  have small := writes.lt
  constructor
  · intro agrees
    have wpos := agrees.wpos
    rw [writes.mirrors.loadWord header.2, reads.mirrors.loadWord header.2, apart.written.wpos,
      apart.read.wpos, Option.some.injEq, ← BitVec.toNat_inj, BitVec.toNat_ofNat,
      Nat.mod_eq_of_lt (by omega)] at wpos
    exact List.length_eq_zero_iff.mp (by simpa using wpos)
  · intro none
    refine ⟨?_, ?_, ?_, fun callback => ?_⟩
    · rw [writes.mirrors.loadWord header.1, reads.mirrors.loadWord header.1, apart.written.rpos,
        apart.read.rpos]
    · rw [writes.mirrors.loadWord header.2, reads.mirrors.loadWord header.2, apart.written.wpos,
        apart.read.wpos, none]
      rfl
    · rw [apart.delivered]
      exact List.nil_prefix
    · rw [read_eq reads turn apart.read (Nat.zero_le _) callback rfl, none, List.drop_nil,
        if_pos (Or.inl rfl)]
      exact ⟨session.readerMemory, by simp⟩

end SharedSession

/-! ## Two objects on the same file -/

theorem ofFile_shape {kernel : Kernel} {fileSize : BitVec 64} {ring : MagicRingBuffer}
    (opened : ofFile kernel fileSize = some ring) :
    ring.capacity = capacityOf fileSize ∧ ∃ exponent, Shape ring exponent (2 ^ max 12 exponent) := by
  rcases Option.bind_eq_some_iff.mp opened with ⟨mask, masked, opened⟩
  rcases Option.map_eq_some_iff.mp opened with ⟨views, allocated, rfl⟩
  rcases shape_of_allocated masked allocated with ⟨exponent, shape, -⟩
  exact ⟨rfl, exponent, shape⟩

namespace SharedSession

/--
After any calls, the two objects agree if and only if every write was empty or
larger than the ring.
-/
theorem agrees_iff_silent {kernel : Kernel} {fileSize : BitVec 64}
    {writer reader : MagicRingBuffer} {file : Pages} {calls : List Call} {session : SharedSession}
    (openedWriter : ofFile kernel fileSize = some writer)
    (openedReader : ofFile kernel fileSize = some reader)
    (run : Run (step writer reader) unguarded (start file) calls session) :
    session.Agrees writer reader ↔ ∀ call ∈ calls, call.Silent (capacityOf fileSize).toNat := by
  obtain rfl := Option.some.inj (openedWriter.symm.trans openedReader)
  rcases ofFile_shape openedWriter with ⟨capacity, exponent, shape⟩
  have turn : 2 ^ exponent ≤ 2 ^ max 12 exponent :=
    Nat.pow_le_pow_right Nat.two_pos (Nat.le_max_right _ _)
  rcases Apart.run shape shape turn run with ⟨apart, silent⟩
  rw [apart.agrees_iff shape shape turn, silent, ← shape.capacity, capacity]

/-- The size of a file for a ring of one page. -/
def twoPages : BitVec 64 := 8192

/-- A reader finds nothing in a ring that nobody has written to. -/
theorem agrees_iff_silent_unwritten :
    ∃ ring session, ofFile anyKernel twoPages = some ring ∧
      Run (step ring ring) unguarded (start zeros) [.read (.upTo 1)] session ∧
        session.Agrees ring ring := by
  have accepted : (ofFile anyKernel twoPages).isSome := by decide
  rcases Option.isSome_iff_exists.mp accepted with ⟨ring, opened⟩
  rcases ofFile_shape opened with ⟨-, exponent, shape⟩
  have turn : 2 ^ exponent ≤ 2 ^ max 12 exponent :=
    Nat.pow_le_pow_right Nat.two_pos (Nat.le_max_right _ _)
  have taken : step ring ring (start zeros) (.read (.upTo 1)) = some (start zeros) := by
    rw [step, read_eq shape turn (start_apart exponent zeros).read (Nat.zero_le _) _ rfl,
      if_pos (Or.inl rfl)]
    rfl
  have run : Run (step ring ring) unguarded (start zeros) [.read (.upTo 1)] (start zeros) :=
    .step .start trivial taken
  exact ⟨ring, _, opened, run, (agrees_iff_silent opened opened run).mpr (by simp [Call.Silent])⟩

/-- One byte is written, and the object that reads does not see it. -/
theorem one_byte_not_seen :
    ∃ ring session, ofFile anyKernel twoPages = some ring ∧
      Reachable (step ring ring) unguarded (start zeros) session ∧
        ¬ session.Agrees ring ring := by
  have accepted : (ofFile anyKernel twoPages).isSome := by decide
  rcases Option.isSome_iff_exists.mp accepted with ⟨ring, opened⟩
  rcases ofFile_shape opened with ⟨capacity, exponent, shape⟩
  have turn : 2 ^ exponent ≤ 2 ^ max 12 exponent :=
    Nat.pow_le_pow_right Nat.two_pos (Nat.le_max_right _ _)
  have begun := start_apart exponent zeros
  rcases begun.defined shape shape turn (.write onePayload) with ⟨session, taken⟩
  rcases Apart.step shape shape turn begun taken with ⟨apart, silent⟩
  refine ⟨ring, session, opened, Reachable.refl.extend trivial taken, ?_⟩
  rw [apart.agrees_iff shape shape turn, silent, ← shape.capacity, capacity]
  rintro ⟨-, none | large⟩
  · cases none
  · exact absurd large (by decide)

end SharedSession

end ReactiveToolbox.Ipc.MagicRingBuffer
