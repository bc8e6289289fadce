import ReactiveToolbox.Lib.LockedFile
import ReactiveToolbox.Lib.Transition
import ReactiveToolbox.Util.Ston

/-!
# Pid files

`flopen`, `pidfile_open` and the functions on what it returns, each of them one system call
after another, so that those of any number of processes may take turns.  Every system call
may fail, a process may end at any time, and it may fork.
-/

namespace ReactiveToolbox.Sys

open ReactiveToolbox.Lib
open ReactiveToolbox.Util

/-- A character of a pid file. -/
abbrev Byte := UInt8

/-- Why `pidfile_open` returns no pid file. -/
inductive PidFileErrno where
  /-- `EEXIST`, with `*pidptr`. -/
  | exist (pid : Int)
  | again
  | inval
  | noEnt
  | other
  deriving DecidableEq

/-! ## The text of a pid file -/

/-- `isspace`. -/
def isspace (c : Byte) : Bool :=
  c == ' '.toUInt8 || (9 ≤ c && c ≤ 13)

/-- `strtol`, to base ten, of a text that is too short to overflow: the value, and the text
from `endptr` on. -/
def strtol (text : List Byte) : Int × List Byte :=
  let trimmed := text.dropWhile isspace
  let unsigned :=
    if trimmed.head? = some '-'.toUInt8 ∨ trimmed.head? = some '+'.toUInt8 then trimmed.tail
    else trimmed
  let digits := digitRun unsigned
  if digits = [] then (0, text)
  else
    (if trimmed.head? = some '-'.toUInt8 then -digitsValue digits else digitsValue digits,
      unsigned.drop digits.length)

/-- `pidfile_read`, of the text that it reads into its buffer. -/
def pidfileRead (text : List Byte) : PidFileErrno :=
  if text = [] then .again
  else
    let (value, rest) := strtol text
    if rest = [] then .exist (value.bmod (2 ^ 32)) else .inval

/-- `snprintf(pidstr, sizeof(pidstr), "%u", getpid())`. -/
def pidText (pid : Nat) : List Byte :=
  decimal pid

/-- `sizeof(buf) - 1`. -/
def readSize : Nat := 15

theorem length_decimal_le {number digits : Nat} (small : number < 10 ^ (digits + 1)) :
    (decimal number).length ≤ digits + 1 := by
  induction digits generalizing number with
  | zero =>
      have digit : number < 10 := small
      rw [decimal, if_pos digit]
      exact Nat.le_refl _
  | succ digits continued =>
      rw [decimal]
      split
      · exact Nat.succ_le_succ (Nat.zero_le _)
      · rw [List.length_append]
        have fewer : number / 10 < 10 ^ (digits + 1) := by
          rw [Nat.div_lt_iff_lt_mul (by decide), ← pow_succ]
          exact small
        exact Nat.succ_le_succ (continued fewer)

theorem decimal_head (number : Nat) : ∃ c rest, decimal number = c :: rest ∧ isdigit c = true := by
  cases written : decimal number with
  | nil =>
      rw [decimal] at written
      split at written
      · cases written
      · exact absurd written (List.append_ne_nil_of_right_ne_nil _ (List.cons_ne_nil _ _))
  | cons c rest =>
      refine ⟨c, rest, rfl, (decimal_spec number).1 c ?_⟩
      rw [written]
      exact List.mem_cons_self

/-- A digit is no white space and no sign. -/
theorem plain_of_isdigit {c : Byte} (digit : isdigit c = true) :
    isspace c = false ∧ c ≠ '-'.toUInt8 ∧ c ≠ '+'.toUInt8 := by
  simp only [isdigit, Bool.and_eq_true, decide_eq_true_eq, UInt8.le_iff_toNat_le] at digit
  have zero : '0'.toUInt8.toNat = 48 := rfl
  have values : ' '.toUInt8.toNat = 32 ∧ '-'.toUInt8.toNat = 45 ∧ '+'.toUInt8.toNat = 43 :=
    ⟨rfl, rfl, rfl⟩
  have apart : ∀ {other : Byte}, other.toNat < 48 → c ≠ other := by
    rintro other less rfl
    omega
  refine ⟨?_, apart (by omega), apart (by omega)⟩
  rw [isspace, Bool.or_eq_false_iff, Bool.and_eq_false_iff]
  refine ⟨beq_eq_false_iff_ne.mpr (apart (by omega)), .inr (decide_eq_false fun few => ?_)⟩
  have few : c.toNat ≤ 13 := UInt8.le_iff_toNat_le.mp few
  omega

/-- `strtol` of nothing but digits. -/
theorem strtol_digits {digits : List Byte} (some_digits : digits ≠ [])
    (all : ∀ c ∈ digits, isdigit c = true) :
    strtol digits = ((digitsValue digits : Int), []) := by
  obtain ⟨c, rest, rfl⟩ := List.exists_cons_of_ne_nil some_digits
  obtain ⟨noSpace, noMinus, noPlus⟩ := plain_of_isdigit (all c List.mem_cons_self)
  have trimmed : (c :: rest).dropWhile isspace = c :: rest := by
    rw [List.dropWhile_cons_of_neg]
    rw [noSpace]
    exact Bool.false_ne_true
  have signs : ¬((c :: rest).head? = some '-'.toUInt8 ∨
      (c :: rest).head? = some '+'.toUInt8) := by
    rw [List.head?_cons]
    rintro (minus | plus)
    · exact noMinus (Option.some.inj minus)
    · exact noPlus (Option.some.inj plus)
  have run : digitRun (c :: rest) = c :: rest := List.takeWhile_eq_self_iff.mpr all
  unfold strtol
  dsimp only
  rw [trimmed, if_neg signs, run, if_neg some_digits, if_neg (not_or.mp signs).1,
    List.drop_length]

theorem digitsValue_take_le (digits : List Byte) (amount : Nat) :
    digitsValue (digits.take amount) ≤ digitsValue digits := by
  induction digits using List.reverseRecOn with
  | nil => rw [List.take_nil]
  | append_singleton digits c continued =>
      rcases Nat.lt_or_ge digits.length amount with all | few
      · rw [List.take_of_length_le]
        rw [List.length_append, List.length_singleton]
        exact all
      · rw [List.take_append_of_le_length few, digitsValue_append_singleton]
        omega

/-- What `pidfile_write` has written of a number is read back by `pidfile_read`. -/
theorem pidfileRead_take {pid amount : Nat} (small : pid < 2 ^ 31) (some_digits : 0 < amount) :
    pidfileRead (((pidText pid).take amount).take readSize) =
      .exist (digitsValue ((pidText pid).take amount)) := by
  have short : ((pidText pid).take amount).length ≤ 10 :=
    (List.length_take_le' _ _).trans (length_decimal_le (by omega))
  have whole : ((pidText pid).take amount).take readSize = (pidText pid).take amount :=
    List.take_of_length_le (short.trans (by decide))
  have some_text : (pidText pid).take amount ≠ [] := by
    obtain ⟨c, rest, written, -⟩ := decimal_head pid
    obtain ⟨amount, rfl⟩ := Nat.exists_eq_succ_of_ne_zero some_digits.ne'
    rw [pidText, written]
    exact List.cons_ne_nil _ _
  have value := digitsValue_take_le (pidText pid) amount
  rw [pidText, (decimal_spec pid).2] at value
  have fits : (digitsValue ((pidText pid).take amount) : Int).bmod (2 ^ 32) =
      digitsValue ((pidText pid).take amount) := by
    apply Int.bmod_eq_of_le_mul_two
    · omega
    · rw [pidText]
      omega
  rw [whole, pidfileRead, if_neg some_text, strtol_digits some_text]
  · dsimp only
    rw [if_pos rfl, fits]
  · exact fun c found => (decimal_spec pid).1 c (List.mem_of_mem_take found)

theorem digitsValue_pidText (pid : Nat) : digitsValue (pidText pid) = pid :=
  (decimal_spec pid).2

/-! ## Processes -/

/-- `pidfh`; the device does not change. -/
structure PidFh where
  fd : Nat
  ino : Nat
  deriving DecidableEq

/-- What becomes of a pid file that is removed. -/
inductive Removed where
  /-- `pidfile_remove` frees it. -/
  | freed
  /-- `pidfile_write` keeps it, without its descriptor. -/
  | kept
  /-- `pidfile_open` has not returned it. -/
  | refused
  deriving DecidableEq

/-- What a process does next. -/
inductive Phase where
  | idle
  /-- `open` of `flopen`. -/
  | opening
  /-- `flock`. -/
  | opened (fd : Nat)
  /-- `close`, after the lock of another. -/
  | refused (fd : Nat)
  /-- `stat`. -/
  | locked (fd : Nat)
  /-- `fstat`, after an inode has been found by `stat`. -/
  | found (fd ino : Nat)
  /-- `close`, and once more from the start. -/
  | stale (fd : Nat)
  /-- `ftruncate`. -/
  | confirmed (fd : Nat)
  /-- `fstat` of `pidfile_open`. -/
  | emptied (fd : Nat)
  /-- `close`, after an error. -/
  | failing (fd : Nat)
  /-- `open` of `pidfile_read`, with the times that it has been tried again. -/
  | asking (count : Nat)
  /-- `read`. -/
  | reading (fd count : Nat)
  /-- `close`, and then what has been read. -/
  | read (fd count : Nat) (text : List Byte)
  /-- `pidfile_open` has returned null. -/
  | returned (errno : PidFileErrno)
  | holding (pfh : PidFh)
  /-- `ftruncate` of `pidfile_write`. -/
  | writing (pfh : PidFh)
  /-- `pwrite`. -/
  | rewriting (pfh : PidFh)
  /-- `unlink`. -/
  | removing (fd : Nat) (removed : Removed)
  /-- `close` behind it. -/
  | unlinked (fd : Nat) (removed : Removed)
  /-- `close` of `pidfile_close`. -/
  | closing (fd : Nat)
  /-- A pid file without its descriptor. -/
  | void
  /-- A pid file behind a fork, of the process that is to leave it to the other one. -/
  | inherited (pfh : PidFh)
  deriving DecidableEq

namespace Phase

/-- The descriptor that a process has open. -/
def fd? : Phase → Option Nat
  | .opened fd | .refused fd | .locked fd | .found fd _ | .stale fd | .confirmed fd
  | .emptied fd | .failing fd | .reading fd _ | .read fd _ _ | .removing fd _ | .unlinked fd _
  | .closing fd => some fd
  | .holding pfh | .writing pfh | .rewriting pfh | .inherited pfh => some pfh.fd
  | _ => none

/-- A process is to leave its pid file to another. -/
def leaves : Phase → Bool
  | .inherited _ => true
  | _ => false

end Phase

/-- The file system and the processes. -/
structure PidFiles where
  file : LockedFile Byte
  phase : Nat → Phase

/-- What a process does next. -/
inductive Action where
  /-- `pidfile_open` is called. -/
  | start (pid : Nat)
  /-- The next system call succeeds; a file that it creates gets the inode. -/
  | call (pid spare : Nat)
  /-- The next system call fails. -/
  | fail (pid : Nat)
  /-- `pwrite` writes less than it is given. -/
  | short (pid amount : Nat)
  /-- `pidfile_write`, up to its first system call, which verifies the descriptor. -/
  | write (pid : Nat)
  /-- `pidfile_remove`. -/
  | remove (pid : Nat)
  /-- `pidfile_close`. -/
  | close (pid : Nat)
  /-- A process forks.  Both have the pid file, and `keeps` says whether it is the child that is
  to leave it to its parent, or the other way round. -/
  | fork (pid child : Nat) (keeps : Bool)
  | exit (pid : Nat)
  deriving DecidableEq

namespace PidFiles

/-- All processes are idle. -/
def ofText (text : Option (List Byte)) : PidFiles where
  file := .ofText text
  phase _ := .idle

/-- A process has got to a phase. -/
def goto (system : PidFiles) (pid : Nat) (phase : Phase) : PidFiles :=
  { system with phase := Function.update system.phase pid phase }

/-- A system call has changed the file. -/
def withFile (system : PidFiles) (file : LockedFile Byte) : PidFiles :=
  { system with file := file }

/-- `pidfile_verify`. -/
def verify (system : PidFiles) (pfh : PidFh) : Bool :=
  system.file.inodeOf pfh.fd = some pfh.ino

/-- A process closes its descriptor, and goes on. -/
def closeThen (system : PidFiles) (pid fd : Nat) (phase : Phase) : PidFiles :=
  (system.withFile (system.file.close fd pid)).goto pid phase

/-- Sets the text of the inode of a descriptor, and goes on. -/
def textThen (system : PidFiles) (pid fd : Nat) (text : List Byte → List Byte) (phase : Phase) :
    Option PidFiles :=
  (system.file.inodeOf fd).map fun inode =>
    (system.withFile (system.file.setText inode (text (system.file.text inode)))).goto pid phase

/-- `pwrite` of as much of a number, at the start of the file. -/
def pwritten (pid amount : Nat) (text : List Byte) : List Byte :=
  (pidText pid).take amount ++ text.drop amount

/-- Where `close` behind `unlink` leads to. -/
def afterRemoval : Removed → Phase
  | .freed => .idle
  | .kept => .void
  | .refused => .returned .other

/-- What `pidfile_open` does with the answer of `pidfile_read`: it tries three times more. -/
def answered (count : Nat) (errno : PidFileErrno) : Phase :=
  if errno = .again ∧ count < 3 then .asking (count + 1) else .returned errno

/-- `pidfile_open` is called by a process whose number is a `pid_t`. -/
def start (system : PidFiles) (pid : Nat) : Option PidFiles :=
  match system.phase pid with
  | .idle | .returned _ | .void =>
      if pid < 2 ^ 31 then some (system.goto pid .opening) else none
  | _ => none

/-- A system call of a process that succeeds. -/
def call (system : PidFiles) (pid spare : Nat) : Option PidFiles :=
  match system.phase pid with
  | .opening =>
      (system.file.create pid spare).map fun file =>
        (system.withFile file).goto pid (.opened system.file.descriptions.length)
  | .opened fd =>
      (system.file.inodeOf fd).map fun inode =>
        if system.file.Lockable inode then
          (system.withFile (system.file.lock fd)).goto pid (.locked fd)
        else system.goto pid (.refused fd)
  | .refused fd => some (system.closeThen pid fd (.asking 0))
  | .locked fd =>
      match system.file.named with
      | none => some (system.goto pid (.stale fd))
      | some inode => some (system.goto pid (.found fd inode))
  | .found fd inode =>
      if system.file.inodeOf fd = some inode then some (system.goto pid (.confirmed fd))
      else some (system.goto pid (.stale fd))
  | .stale fd => some (system.closeThen pid fd .opening)
  | .confirmed fd => system.textThen pid fd (fun _ => []) (.emptied fd)
  | .emptied fd =>
      (system.file.inodeOf fd).map fun inode => system.goto pid (.holding ⟨fd, inode⟩)
  | .failing fd => some (system.closeThen pid fd (.returned .other))
  | .asking count =>
      match system.file.named with
      | none => some (system.goto pid (.returned .noEnt))
      | some inode =>
          some ((system.withFile (system.file.describe pid inode)).goto pid
            (.reading system.file.descriptions.length count))
  | .reading fd count =>
      (system.file.inodeOf fd).map fun inode =>
        system.goto pid (.read fd count ((system.file.text inode).take readSize))
  | .read fd count text => some (system.closeThen pid fd (answered count (pidfileRead text)))
  | .writing pfh => system.textThen pid pfh.fd (fun _ => []) (.rewriting pfh)
  | .rewriting pfh =>
      system.textThen pid pfh.fd (pwritten pid (pidText pid).length) (.holding pfh)
  | .removing fd removed =>
      some ((system.withFile system.file.unlink).goto pid (.unlinked fd removed))
  | .unlinked fd removed => some (system.closeThen pid fd (afterRemoval removed))
  | .closing fd => some (system.closeThen pid fd .idle)
  | .idle | .returned _ | .holding _ | .void | .inherited _ => none

/-- A system call of a process that fails. -/
def fail (system : PidFiles) (pid : Nat) : Option PidFiles :=
  match system.phase pid with
  | .opening => some (system.goto pid (.returned .other))
  | .opened fd => some (system.goto pid (.failing fd))
  | .locked fd => some (system.goto pid (.stale fd))
  | .found fd _ => some (system.goto pid (.failing fd))
  | .confirmed fd => some (system.goto pid (.failing fd))
  | .emptied fd => some (system.goto pid (.removing fd .refused))
  | .asking _ => some (system.goto pid (.returned .other))
  | .reading fd _ => some (system.goto pid (.failing fd))
  | .writing pfh => some (system.goto pid (.removing pfh.fd .kept))
  | .rewriting pfh => some (system.goto pid (.removing pfh.fd .kept))
  | .removing fd removed => some (system.goto pid (.unlinked fd removed))
  | _ => none

/-- A `pwrite` that is cut short, and is an error to `pidfile_write`. -/
def short (system : PidFiles) (pid amount : Nat) : Option PidFiles :=
  match system.phase pid with
  | .rewriting pfh =>
      if amount < (pidText pid).length then
        system.textThen pid pfh.fd (pwritten pid amount) (.removing pfh.fd .kept)
      else none
  | _ => none

/-- What a call of a function on a pid file does up to its first system call. -/
def begin (system : PidFiles) (pid : Nat) (phase : PidFh → Phase) : Option PidFiles :=
  match system.phase pid with
  | .holding pfh | .inherited pfh =>
      some (if system.verify pfh then system.goto pid (phase pfh) else system)
  | .void => some system
  | _ => none

/-- A new process, which has the pid file as well. -/
def fork (system : PidFiles) (pid child : Nat) (keeps : Bool) : Option PidFiles :=
  match system.phase pid, system.phase child with
  | .holding pfh, .idle =>
      if pid ≠ child ∧ child < 2 ^ 31 then
        let shared := system.withFile (system.file.share pfh.fd child)
        if keeps then some ((shared.goto child (.inherited pfh)))
        else some ((shared.goto pid (.inherited pfh)).goto child (.holding pfh))
      else none
  | .inherited pfh, .idle =>
      if pid ≠ child ∧ child < 2 ^ 31 then
        some ((system.withFile (system.file.share pfh.fd child)).goto child (.inherited pfh))
      else none
  | _, _ => none

/-- The end of a process, as `_exit` makes it, closes its descriptor. -/
def exit (system : PidFiles) (pid : Nat) : PidFiles :=
  match (system.phase pid).fd? with
  | some fd => system.closeThen pid fd .idle
  | none => system.goto pid .idle

/-- One step of one process. -/
def step (system : PidFiles) : Action → Option PidFiles
  | .start pid => system.start pid
  | .call pid spare => system.call pid spare
  | .fail pid => system.fail pid
  | .short pid amount => system.short pid amount
  | .write pid => system.begin pid .writing
  | .remove pid => system.begin pid fun pfh => .removing pfh.fd .freed
  | .close pid => system.begin pid fun pfh => .closing pfh.fd
  | .fork pid child keeps => system.fork pid child keeps
  | .exit pid => some (system.exit pid)

/-- Of the processes behind a fork one goes on with the pid file.  The others may close it or
end, as `daemon` makes the parent do, but neither write nor remove it. -/
def OneKeeps (system : PidFiles) : Action → Prop
  | .write pid | .remove pid => (system.phase pid).leaves = false
  | _ => True

instance (system : PidFiles) (action : Action) : Decidable (system.OneKeeps action) :=
  match action with
  | .write pid | .remove pid =>
      inferInstanceAs (Decidable ((system.phase pid).leaves = false))
  | .start _ | .call _ _ | .fail _ | .short _ _ | .close _ | .fork _ _ _ | .exit _ =>
      isTrue trivial

end PidFiles

end ReactiveToolbox.Sys
