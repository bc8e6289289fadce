import ReactiveToolbox.Lib.Machine
import Mathlib.Algebra.BigOperators.Group.List.Basic
import Mathlib.Data.PNat.Basic

/-!
# Reading until a buffer is full

`read(sock, buffer, ec)` reads from a socket as long as there is room in the buffer.  The
loop has an `ec` of its own, which hides the argument, and goes on after a read of no
bytes.
-/

namespace ReactiveToolbox.Io

open ReactiveToolbox.Lib

/-- What one `::read` returns, with `errno` where it fails. -/
inductive ReadResult where
  | bytes (count : Nat)
  | endOfStream
  | error (errno : ℕ+)
  deriving DecidableEq

/-- The results are over when the other side has closed the stream or something fails. -/
inductive Ending where
  | endOfStream
  | error (errno : ℕ+)
  deriving DecidableEq

/-- A socket by the sizes of what arrives on it and by how that ends. -/
structure Sock where
  counts : List ℕ+
  ending : Ending

/-- The bytes that arrive. -/
def Sock.arriving (sock : Sock) : Nat :=
  (sock.counts.map PNat.val).sum

theorem Sock.arriving_cons {sock : Sock} {count : ℕ+} {counts : List ℕ+}
    (counts_eq : sock.counts = count :: counts) :
    sock.arriving = count + (Sock.mk counts sock.ending).arriving := by
  rw [arriving, counts_eq, List.map_cons, List.sum_cons]
  rfl

theorem Sock.arriving_nil {sock : Sock} (counts_eq : sock.counts = []) : sock.arriving = 0 := by
  rw [arriving, counts_eq]
  rfl

/-- `::read` into `len` bytes, which are more than none. -/
def Sock.sysRead (sock : Sock) (len : Nat) : Sock × ReadResult :=
  match sock.counts, sock.ending with
  | count :: counts, ending => ({ counts, ending }, .bytes (min count len))
  | [], .endOfStream => (sock, .endOfStream)
  | [], .error errno => (sock, .error errno)

/-- What `os::read` returns. -/
def ReadResult.size : ReadResult → Int
  | .bytes count => count
  | .endOfStream => 0
  | .error _ => -1

/-- `os::read` writes to `ec` only if it fails. -/
def ReadResult.assign (ec : Nat) : ReadResult → Nat
  | .error errno => errno
  | _ => ec

/-- A range of memory that is written to. -/
structure MutableBuffer where
  data : Nat
  size : Nat
  deriving DecidableEq

/-- `buffer += n`, which does not go beyond the end. -/
def MutableBuffer.advance (buffer : MutableBuffer) (n : Nat) : MutableBuffer :=
  let offset := if n < buffer.size then n else buffer.size
  { data := buffer.data + offset, size := buffer.size - offset }

/-- A call of `read`, with the results of its reads so far. -/
structure SocketRead where
  sock : Sock
  buffer : MutableBuffer
  ec : Nat
  totalBytesRead : Nat
  broken : Bool
  results : List ReadResult

namespace SocketRead

/-- A call of `read`, with the caller's error code. -/
def start (sock : Sock) (buffer : MutableBuffer) (ec : Nat) : SocketRead where
  sock
  buffer
  ec
  totalBytesRead := 0
  broken := false
  results := []

/-- One round of the loop, or none if it is over. -/
def step (self : SocketRead) : Option SocketRead :=
  if self.broken = true ∨ self.buffer.size = 0 then none
  else
    let (sock, result) := self.sock.sysRead self.buffer.size
    let results := self.results ++ [result]
    -- this is the `ec` of the loop
    let ec := result.assign 0
    if ec ≠ 0 then some { self with sock, results, broken := true }
    else
      some { self with
        sock
        results
        totalBytesRead := self.totalBytesRead + result.size.toNat
        buffer := self.buffer.advance result.size.toNat }

/-! ## What the caller is told -/

/-- The bytes that reads have returned. -/
def bytesRead (results : List ReadResult) : Nat :=
  (results.map fun result => result.size.toNat).sum

/-- A call that has ended has told its caller how much was read, or why it was not. -/
structure Told (buffer : MutableBuffer) (final : SocketRead) : Prop where
  total : final.totalBytesRead = bytesRead final.results
  data : final.buffer.data = buffer.data + final.totalBytesRead
  size : final.buffer.size + final.totalBytesRead = buffer.size
  error : ∀ errno, final.results.getLast? = some (.error errno) → final.ec = errno

/-- The call ends, and its caller is told what has happened. -/
def Completes (sock : Sock) (buffer : MutableBuffer) (ec : Nat) : Prop :=
  ∃ final, Ends step (start sock buffer ec) final ∧ Told buffer final

/-! ## The rounds -/

theorem MutableBuffer.advance_of_le {buffer : MutableBuffer} {n : Nat} (within : n ≤ buffer.size) :
    buffer.advance n = ⟨buffer.data + n, buffer.size - n⟩ := by
  have offset : (if n < buffer.size then n else buffer.size) = n := by
    split
    · rfl
    · omega
  rw [MutableBuffer.advance, offset]

theorem bytesRead_append (results : List ReadResult) (result : ReadResult) :
    bytesRead (results ++ [result]) = bytesRead results + result.size.toNat := by
  rw [bytesRead, List.map_append, List.sum_append, List.map_singleton, List.sum_singleton]
  rfl

/--
A round takes what arrives, as far as there is room for it.  If nothing arrives it
leaves the loop because of an error or changes nothing.
-/
inductive Round (self : SocketRead) : SocketRead → Prop where
  | arrived (count : ℕ+) (counts : List ℕ+) : self.sock.counts = count :: counts →
      Round self { self with
        sock := ⟨counts, self.sock.ending⟩
        results := self.results ++ [.bytes (min (count : Nat) self.buffer.size)]
        totalBytesRead := self.totalBytesRead + min (count : Nat) self.buffer.size
        buffer := self.buffer.advance (min (count : Nat) self.buffer.size) }
  | closed : self.sock.counts = [] → self.sock.ending = .endOfStream →
      Round self { self with
        results := self.results ++ [.endOfStream]
        buffer := self.buffer.advance 0 }
  | failed (errno : ℕ+) : self.sock.counts = [] → self.sock.ending = .error errno →
      Round self { self with results := self.results ++ [.error errno], broken := true }

section Rounds

variable {self next : SocketRead}

theorem step_cases (moved : self.step = some next) :
    self.broken = false ∧ 0 < self.buffer.size ∧ Round self next := by
  unfold step at moved
  split at moved
  · cases moved
  · rename_i goes
    have left := not_or.mp goes
    refine ⟨Bool.eq_false_of_not_eq_true left.1, Nat.pos_of_ne_zero left.2, ?_⟩
    cases counts_eq : self.sock.counts with
    | cons count counts =>
        rw [Sock.sysRead, counts_eq] at moved
        dsimp only [ReadResult.assign] at moved
        rw [if_neg (not_not.mpr rfl)] at moved
        cases moved
        exact .arrived count counts counts_eq
    | nil =>
        cases ending_eq : self.sock.ending with
        | endOfStream =>
            rw [Sock.sysRead, counts_eq, ending_eq] at moved
            dsimp only [ReadResult.assign] at moved
            rw [if_neg (not_not.mpr rfl)] at moved
            cases moved
            exact .closed counts_eq ending_eq
        | error errno =>
            rw [Sock.sysRead, counts_eq, ending_eq] at moved
            dsimp only [ReadResult.assign] at moved
            rw [if_pos errno.ne_zero] at moved
            cases moved
            exact .failed errno counts_eq ending_eq

/-- What every round keeps of a call. -/
structure InStep (sock : Sock) (buffer : MutableBuffer) (ec : Nat) (now : SocketRead) :
    Prop where
  total : now.totalBytesRead = bytesRead now.results
  data : now.buffer.data = buffer.data + now.totalBytesRead
  size : now.buffer.size + now.totalBytesRead = buffer.size
  ec_eq : now.ec = ec
  ending : now.sock.ending = sock.ending
  atMost : now.totalBytesRead ≤ sock.arriving
  uncut : 0 < now.buffer.size → now.totalBytesRead + now.sock.arriving = sock.arriving
  error : ∀ errno, now.results.getLast? = some (.error errno) → now.broken = true
  broke : now.broken = true → sock.arriving < buffer.size ∧
    ∃ errno, now.results.getLast? = some (.error errno) ∧ sock.ending = .error errno

variable {sock : Sock} {buffer : MutableBuffer} {ec : Nat}

theorem inStep_start (sock : Sock) (buffer : MutableBuffer) (ec : Nat) :
    InStep sock buffer ec (start sock buffer ec) where
  total := rfl
  data := rfl
  size := rfl
  ec_eq := rfl
  ending := rfl
  atMost := Nat.zero_le _
  uncut _ := Nat.zero_add _
  error _ last := nomatch last
  broke broken := nomatch broken

theorem InStep.step (keeps : InStep sock buffer ec self) (moved : self.step = some next) :
    InStep sock buffer ec next := by
  obtain ⟨goesOn, room, round⟩ := step_cases moved
  have unbroken : ¬self.broken = true := Bool.not_eq_true _ ▸ goesOn
  have uncut := keeps.uncut room
  have data := keeps.data
  have size := keeps.size
  cases round with
  | arrived count counts counts_eq =>
      have taken : min (count : Nat) self.buffer.size ≤ self.buffer.size := Nat.min_le_right _ _
      have arriving := Sock.arriving_cons counts_eq
      rw [MutableBuffer.advance_of_le taken]
      exact {
        total := by
          rw [bytesRead_append, ← keeps.total]
          rfl
        data := by
          dsimp only
          omega
        size := by
          dsimp only
          omega
        ec_eq := keeps.ec_eq
        ending := keeps.ending
        atMost := by
          dsimp only
          omega
        uncut := fun more => by
          dsimp only at more ⊢
          omega
        error := fun errno last => by
          rw [List.getLast?_concat] at last
          cases last
        broke := fun broken => absurd broken unbroken }
  | closed counts_eq ending_eq =>
      rw [MutableBuffer.advance_of_le (Nat.zero_le _)]
      exact {
        total := by
          rw [bytesRead_append, ← keeps.total]
          rfl
        data
        size
        ec_eq := keeps.ec_eq
        ending := keeps.ending
        atMost := keeps.atMost
        uncut := fun _ => uncut
        error := fun errno last => by
          rw [List.getLast?_concat] at last
          cases last
        broke := fun broken => absurd broken unbroken }
  | failed errno counts_eq ending_eq =>
      have spent := Sock.arriving_nil counts_eq
      exact {
        total := by
          rw [bytesRead_append, ← keeps.total]
          rfl
        data
        size
        ec_eq := keeps.ec_eq
        ending := keeps.ending
        atMost := keeps.atMost
        uncut := keeps.uncut
        error := fun _ _ => rfl
        broke := fun _ =>
          ⟨by omega, errno, List.getLast?_concat, keeps.ending ▸ ending_eq⟩ }

/-- A call ends if the buffer gets full or something fails. -/
theorem ends_of (sock : Sock) (buffer : MutableBuffer) (ec : Nat)
    (either : buffer.size ≤ sock.arriving ∨ ∃ errno, sock.ending = .error errno) :
    ∃ final, Ends step (start sock buffer ec) final := by
  refine ends_of_wellFounded step Nat.lt_wfRel.wf
    (fun self => self.sock.counts.length + if self.broken then 0 else 1)
    (fun self => self.buffer.size ≤ self.sock.arriving ∨
      ∃ errno, self.sock.ending = .error errno) ?_ ?_ _ either
  · intro self next holds moved
    obtain ⟨-, room, round⟩ := step_cases moved
    cases round with
    | arrived count counts counts_eq =>
        refine holds.imp (fun fills => ?_) id
        have arriving := Sock.arriving_cons counts_eq
        rw [MutableBuffer.advance_of_le (Nat.min_le_right _ _)]
        dsimp only
        omega
    | closed counts_eq ending_eq =>
        exact holds.imp (fun fills => Nat.le_trans (Nat.sub_le _ _) fills) id
    | failed => exact holds
  · intro self next holds moved
    obtain ⟨goesOn, room, round⟩ := step_cases moved
    cases round with
    | arrived count counts counts_eq =>
        rw [counts_eq]
        exact Nat.add_lt_add_right (Nat.lt_succ_self _) _
    | closed counts_eq ending_eq =>
        have spent := Sock.arriving_nil counts_eq
        rcases holds with fills | ⟨errno, failed⟩
        · omega
        · cases ending_eq.symm.trans failed
    | failed errno counts_eq ending_eq =>
        rw [counts_eq, goesOn]
        exact Nat.zero_lt_one

end Rounds

/--
The call ends and tells what has happened if and only if the buffer gets full, or
something fails for which `ec` stands already.
-/
theorem completes_iff (sock : Sock) (buffer : MutableBuffer) (ec : Nat) :
    Completes sock buffer ec ↔
      buffer.size ≤ sock.arriving ∨
        ∃ errno, sock.ending = .error errno ∧ ec = errno := by
  have inStep : ∀ final, Ends step (start sock buffer ec) final →
      InStep sock buffer ec final := fun final ends =>
    ends.invariant (fun _ _ keeps moved => keeps.step moved) (inStep_start sock buffer ec)
  constructor
  · rintro ⟨final, ends, told⟩
    have keeps := inStep final ends
    have spent := ends.stopped
    unfold step at spent
    split at spent
    · rename_i ended
      rcases ended with broken | full
      · obtain ⟨-, errno, last, failed⟩ := keeps.broke broken
        exact .inr ⟨errno, failed, keeps.ec_eq ▸ told.error errno last⟩
      · have size := keeps.size
        have atMost := keeps.atMost
        exact .inl (by omega)
    · dsimp only at spent
      split at spent <;> cases spent
  · intro either
    obtain ⟨final, ends⟩ := ends_of sock buffer ec
      (either.imp_right fun ⟨errno, failed, _⟩ => ⟨errno, failed⟩)
    have keeps := inStep final ends
    refine ⟨final, ends, keeps.total, keeps.data, keeps.size, fun errno last => ?_⟩
    obtain ⟨short, other, same, failed⟩ := keeps.broke (keeps.error errno last)
    rw [last] at same
    cases same
    rw [keeps.ec_eq]
    rcases either with fills | ⟨entered, entered_eq, equal⟩
    · omega
    · rw [failed] at entered_eq
      cases entered_eq
      exact equal

/-- A connection that the other side has closed, and one that is reset after two bytes. -/
def closed : Sock where
  counts := []
  ending := .endOfStream

/-- A socket that is reset behind two bytes. -/
def reset : Sock where
  counts := [2]
  ending := .error 104

/-- The loop never leaves a closed connection, and says nothing of one that is reset. -/
theorem not_completes_closed :
    (¬∃ final, Ends step (start closed ⟨4096, 8⟩ 0) final) ∧
      ¬Completes closed ⟨4096, 8⟩ 0 ∧ ¬Completes reset ⟨4096, 8⟩ 0 := by
  have never : ∀ final, ¬Ends step (start closed ⟨4096, 8⟩ 0) final := by
    intro final
    refine not_ends_of_recurs (fun self => self.sock = closed ∧ self.broken = false ∧
      self.buffer = ⟨4096, 8⟩) ?_ ⟨rfl, rfl, rfl⟩
    rintro ⟨_, _, ec, totalBytesRead, _, results⟩ ⟨rfl, rfl, rfl⟩
    refine ⟨⟨closed, ⟨4096, 8⟩, ec, totalBytesRead, false,
      results ++ [ReadResult.endOfStream]⟩, .single ?_, rfl, rfl, rfl⟩
    rfl
  have silent : Ends step (start reset ⟨4096, 8⟩ 0)
      ⟨⟨[], .error 104⟩, ⟨4098, 6⟩, 0, 2, true, [.bytes 2, .error 104]⟩ :=
    .of_runFor (show runFor step 3 (start reset ⟨4096, 8⟩ 0) = some _ from rfl)
  refine ⟨fun ⟨final, ends⟩ => never final ends, fun ⟨final, ends, _⟩ => never final ends, ?_⟩
  rintro ⟨final, ends, told⟩
  rw [← silent.unique ends] at told
  cases told.error 104 rfl

end SocketRead

end ReactiveToolbox.Io
