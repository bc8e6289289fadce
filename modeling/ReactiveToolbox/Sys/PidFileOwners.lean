import ReactiveToolbox.Sys.PidFile

/-!
# Who has the pid file

A process that `flopen` has given a descriptor, and that has not removed the pid file, has
the lock on the inode that the path names.  So there is one such process at most, and nobody
else changes what the path names or what is in the file, as long as only one of the processes
behind a fork goes on with it.
-/

namespace ReactiveToolbox.Sys

open ReactiveToolbox.Lib

/-! ## Phases -/

namespace Phase

/-- The descriptor of a process that has the lock on its inode, and no other process with
it. -/
def lockFd? : Phase → Option Nat
  | .locked fd | .found fd _ | .confirmed fd | .emptied fd | .removing fd _ => some fd
  | .holding pfh | .writing pfh | .rewriting pfh => some pfh.fd
  | _ => none

/-- The descriptor of a process that has the pid file. -/
def ownFd? : Phase → Option Nat
  | .confirmed fd | .emptied fd | .removing fd _ => some fd
  | .holding pfh | .writing pfh | .rewriting pfh => some pfh.fd
  | _ => none

/-- A process relies on the path naming the inode of its descriptor. -/
def Relies (file : LockedFile Byte) (phase : Phase) (inode : Nat) : Prop :=
  match phase with
  | .found fd ino => ino = inode ∧ file.inodeOf fd = some inode
  | phase => ∃ fd, phase.ownFd? = some fd ∧ file.inodeOf fd = some inode

theorem lockFd_of_ownFd {phase : Phase} {fd : Nat} (owns : phase.ownFd? = some fd) :
    phase.lockFd? = some fd := by
  cases phase <;> first | exact owns | cases owns

theorem fd_of_lockFd {phase : Phase} {fd : Nat} (locks : phase.lockFd? = some fd) :
    phase.fd? = some fd := by
  cases phase <;> first | exact locks | cases locks

theorem relies_of_ownFd {file : LockedFile Byte} {phase : Phase} {fd inode : Nat}
    (owns : phase.ownFd? = some fd) (same : file.inodeOf fd = some inode) :
    phase.Relies file inode := by
  cases phase
  case found => cases owns
  all_goals exact ⟨fd, owns, same⟩

theorem Relies.lockFd {file : LockedFile Byte} {phase : Phase} {inode : Nat}
    (relies : phase.Relies file inode) :
    ∃ fd, phase.lockFd? = some fd ∧ file.inodeOf fd = some inode := by
  cases phase
  case found fd ino => exact ⟨fd, rfl, relies.2⟩
  all_goals
    obtain ⟨fd, owns, same⟩ := relies
    exact ⟨fd, lockFd_of_ownFd owns, same⟩

/-- What a process relies on is decided by the inode of its descriptor. -/
theorem Relies.of_inodeOf {file other : LockedFile Byte} {phase : Phase} {inode : Nat}
    (relies : phase.Relies file inode)
    (same : ∀ fd, phase.fd? = some fd → file.inodeOf fd = other.inodeOf fd) :
    phase.Relies other inode := by
  cases phase
  case found fd ino => exact ⟨relies.1, (same fd rfl).symm.trans relies.2⟩
  all_goals
    obtain ⟨fd, owns, inode⟩ := relies
    exact ⟨fd, owns, (same fd (fd_of_lockFd (lockFd_of_ownFd owns))).symm.trans inode⟩

end Phase

/-! ## The invariant -/

namespace PidFiles

/-- What holds of the file system and the processes at any time. -/
structure Inv (system : PidFiles) : Prop where
  exclusive : system.file.Exclusive
  /-- What a process has open is open for it. -/
  has : ∀ {pid fd}, (system.phase pid).fd? = some fd → ∃ inode, system.file.Has pid fd inode
  locks : ∀ {pid fd}, (system.phase pid).lockFd? = some fd →
    ∃ inode, system.file.Locks pid fd inode
  apart : ∀ {pid other fd}, (system.phase pid).lockFd? = some fd →
    (system.phase other).lockFd? = some fd → pid = other
  named : ∀ {pid inode}, (system.phase pid).Relies system.file inode →
    system.file.named = some inode
  /-- What is open is open for a process. -/
  uses : ∀ {fd user}, system.file.Uses fd user → (system.phase user).fd? = some fd
  occupied : system.file.Occupied

variable {system : PidFiles} {pid other fd inode : Nat} {phase : Phase}

/-- Two processes that rely on the path are one. -/
theorem Inv.relies_unique (inv : system.Inv) {otherInode : Nat}
    (relies : (system.phase pid).Relies system.file inode)
    (others : (system.phase other).Relies system.file otherInode) : pid = other := by
  obtain rfl : inode = otherInode :=
    Option.some.inj ((inv.named relies).symm.trans (inv.named others))
  obtain ⟨fd, locked, same⟩ := relies.lockFd
  obtain ⟨otherFd, otherLocked, otherSame⟩ := others.lockFd
  obtain ⟨first, locks⟩ := inv.locks locked
  obtain ⟨second, otherLocks⟩ := inv.locks otherLocked
  obtain rfl := Option.some.inj (locks.has.inodeOf.symm.trans same)
  obtain rfl := Option.some.inj (otherLocks.has.inodeOf.symm.trans otherSame)
  obtain rfl := inv.exclusive.eq_of_locks locks otherLocks
  exact inv.apart locked otherLocked

@[simp]
theorem goto_phase_self (system : PidFiles) (pid : Nat) (phase : Phase) :
    (system.goto pid phase).phase pid = phase :=
  Function.update_self _ _ _

theorem goto_phase_ne (system : PidFiles) (apart : other ≠ pid) (phase : Phase) :
    (system.goto pid phase).phase other = system.phase other :=
  Function.update_of_ne apart _ _

theorem goto_self {before : Phase} (at_ : system.phase pid = before) :
    system.goto pid before = system := by
  subst at_
  unfold goto
  rw [Function.update_eq_self]

/-- What a step of one process owes to the others. -/
structure Spares (pid : Nat) (system : PidFiles) (file : LockedFile Byte) : Prop where
  has : ∀ {other fd inode}, other ≠ pid → system.file.Has other fd inode →
    file.Has other fd inode
  locks : ∀ {other fd inode}, other ≠ pid → system.file.Locks other fd inode →
    file.Locks other fd inode
  named : ∀ {other inode}, other ≠ pid → (system.phase other).Relies system.file inode →
    file.named = some inode
  uses : ∀ {fd other}, other ≠ pid → file.Uses fd other → system.file.Uses fd other

/-- A step of one process that spares the others. -/
theorem Inv.moved (inv : system.Inv) {file : LockedFile Byte} (spares : Spares pid system file)
    (exclusive : file.Exclusive) (occupied : file.Occupied)
    (has : ∀ {fd}, phase.fd? = some fd → ∃ inode, file.Has pid fd inode)
    (locks : ∀ {fd}, phase.lockFd? = some fd → (∃ inode, file.Locks pid fd inode) ∧
      ∀ {other}, other ≠ pid → (system.phase other).lockFd? ≠ some fd)
    (named : ∀ {inode}, phase.Relies file inode → file.named = some inode)
    (uses : ∀ {fd}, file.Uses fd pid → phase.fd? = some fd) :
    ((system.withFile file).goto pid phase).Inv where
  exclusive := exclusive
  has := by
    intro other fd open_
    by_cases same : other = pid
    · subst same
      rw [goto_phase_self] at open_
      exact has open_
    · rw [goto_phase_ne _ same] at open_
      obtain ⟨inode, before⟩ := inv.has open_
      exact ⟨inode, spares.has same before⟩
  locks := by
    intro other fd locked
    by_cases same : other = pid
    · subst same
      rw [goto_phase_self] at locked
      exact (locks locked).1
    · rw [goto_phase_ne _ same] at locked
      obtain ⟨inode, before⟩ := inv.locks locked
      exact ⟨inode, spares.locks same before⟩
  apart := by
    intro first second fd firstLocked secondLocked
    by_cases firstSame : first = pid
    · by_cases secondSame : second = pid
      · exact firstSame.trans secondSame.symm
      · subst firstSame
        rw [goto_phase_self] at firstLocked
        rw [goto_phase_ne _ secondSame] at secondLocked
        exact absurd secondLocked ((locks firstLocked).2 secondSame)
    · rw [goto_phase_ne _ firstSame] at firstLocked
      by_cases secondSame : second = pid
      · subst secondSame
        rw [goto_phase_self] at secondLocked
        exact absurd firstLocked ((locks secondLocked).2 firstSame)
      · rw [goto_phase_ne _ secondSame] at secondLocked
        exact inv.apart firstLocked secondLocked
  named := by
    intro other inode relies
    by_cases same : other = pid
    · subst same
      rw [goto_phase_self] at relies
      exact named relies
    · rw [goto_phase_ne _ same] at relies
      refine spares.named same (relies.of_inodeOf fun fd open_ => ?_)
      obtain ⟨inode, before⟩ := inv.has open_
      exact (spares.has same before).inodeOf.trans before.inodeOf.symm
  uses := by
    intro fd user open_
    by_cases same : user = pid
    · subst same
      rw [goto_phase_self]
      exact uses open_
    · rw [goto_phase_ne _ same]
      exact inv.uses (spares.uses same open_)
  occupied := occupied

/-! ## Steps that spare the others -/

namespace Inv

theorem spares (inv : system.Inv) (pid : Nat) : Spares pid system system.file where
  has _ before := before
  locks _ before := before
  named _ relies := inv.named relies
  uses _ open_ := open_

theorem spares_setText (inv : system.Inv) (pid inode : Nat) (text : List Byte) :
    Spares pid system (system.file.setText inode text) where
  has _ before := before
  locks _ before := before
  named _ relies := inv.named relies
  uses _ open_ := open_

theorem spares_describe (inv : system.Inv) (pid inode : Nat) :
    Spares pid system (system.file.describe pid inode) where
  has _ before := before.describe pid inode
  locks _ before := before.describe pid inode
  named _ relies := inv.named relies
  uses apart open_ := open_.of_describe.resolve_right fun new => apart new.2

theorem spares_lock (inv : system.Inv) (pid fd : Nat) :
    Spares pid system (system.file.lock fd) where
  has _ before := before.lock fd
  locks _ before := before.lock fd
  named _ relies := inv.named relies
  uses _ open_ := open_.of_lock

theorem spares_close (inv : system.Inv) (pid fd : Nat) :
    Spares pid system (system.file.close fd pid) where
  has apart before := before.close apart
  locks apart before := before.close apart
  named _ relies := inv.named relies
  uses _ open_ := open_.of_close

/-- Whoever has the pid file may remove it. -/
theorem spares_unlink (inv : system.Inv) (relies : (system.phase pid).Relies system.file inode) :
    Spares pid system system.file.unlink where
  has _ before := before
  locks _ before := before
  named apart others := absurd (inv.relies_unique others relies) apart
  uses _ open_ := open_

/-! ## Steps that keep the invariant -/

/-- A process goes on with the descriptor that it has. -/
theorem goto (inv : system.Inv) (same : phase.fd? = (system.phase pid).fd?)
    (locks : ∀ {fd}, phase.lockFd? = some fd → (system.phase pid).lockFd? = some fd)
    (named : ∀ {inode}, phase.Relies system.file inode → system.file.named = some inode) :
    (system.goto pid phase).Inv := by
  apply inv.moved (inv.spares pid) inv.exclusive inv.occupied
  · intro fd open_
    exact inv.has (same.symm.trans open_)
  · intro fd locked
    exact ⟨inv.locks (locks locked), fun apart others => apart (inv.apart others (locks locked))⟩
  · exact named
  · intro fd open_
    exact same.trans (inv.uses open_)

/-- A process that keeps what it relies on may change a text. -/
theorem setText (inv : system.Inv) (same : phase.fd? = (system.phase pid).fd?)
    (locks : ∀ {fd}, phase.lockFd? = some fd → (system.phase pid).lockFd? = some fd)
    (named : ∀ {inode}, phase.Relies system.file inode → system.file.named = some inode)
    (inode : Nat) (text : List Byte) :
    ((system.withFile (system.file.setText inode text)).goto pid phase).Inv := by
  apply inv.moved (inv.spares_setText pid inode text) inv.exclusive inv.occupied
  · intro fd open_
    exact inv.has (same.symm.trans open_)
  · intro fd locked
    exact ⟨inv.locks (locks locked), fun apart others => apart (inv.apart others (locks locked))⟩
  · exact named
  · intro fd open_
    exact same.trans (inv.uses open_)

theorem lockFd_none (shut : phase.fd? = none) : phase.lockFd? = none := by
  cases locked : phase.lockFd? with
  | none => rfl
  | some fd => cases shut.symm.trans (Phase.fd_of_lockFd locked)

theorem closeThen (inv : system.Inv) (had : (system.phase pid).fd? = some fd)
    (shut : phase.fd? = none) : (system.closeThen pid fd phase).Inv := by
  have unlocked := lockFd_none shut
  apply inv.moved (inv.spares_close pid fd) (inv.exclusive.close fd pid)
    (inv.occupied.close fd pid)
  · intro other open_
    cases shut.symm.trans open_
  · intro other locked
    cases unlocked.symm.trans locked
  · intro inode relies
    obtain ⟨other, locked, -⟩ := relies.lockFd
    cases unlocked.symm.trans locked
  · intro other open_
    obtain rfl := Option.some.inj (had.symm.trans (inv.uses open_.of_close))
    exact absurd open_ (system.file.not_uses_close fd pid)

/-- A process without a descriptor gets a new one. -/
theorem describe (inv : system.Inv) (shut : (system.phase pid).fd? = none)
    (new : phase.fd? = some system.file.descriptions.length) (unlocked : phase.lockFd? = none)
    (inode : Nat) :
    ((system.withFile (system.file.describe pid inode)).goto pid phase).Inv := by
  apply inv.moved (inv.spares_describe pid inode) (inv.exclusive.describe pid inode)
    (inv.occupied.describe pid inode)
  · intro fd open_
    obtain rfl := Option.some.inj (new.symm.trans open_)
    exact ⟨inode, system.file.has_describe pid inode⟩
  · intro fd locked
    cases unlocked.symm.trans locked
  · intro inode relies
    obtain ⟨fd, locked, -⟩ := relies.lockFd
    cases unlocked.symm.trans locked
  · intro fd open_
    rcases open_.of_describe with before | ⟨rfl, -⟩
    · cases shut.symm.trans (inv.uses before)
    · exact new

/-- Nobody relies on a path that names nothing. -/
theorem names (inv : system.Inv) (unnamed : system.file.named = none) (spare : Nat)
    (text : Nat → List Byte) :
    (system.withFile { system.file with named := some spare, text := text }).Inv where
  exclusive := inv.exclusive
  has := inv.has
  locks := inv.locks
  apart := inv.apart
  named relies := by cases unnamed.symm.trans (inv.named relies)
  uses := inv.uses
  occupied := inv.occupied

theorem create (inv : system.Inv) (shut : (system.phase pid).fd? = none) {spare : Nat}
    {file : LockedFile Byte} (created : system.file.create pid spare = some file) :
    ((system.withFile file).goto pid (.opened system.file.descriptions.length)).Inv := by
  unfold LockedFile.create at created
  split at created
  · obtain rfl := Option.some.inj created
    exact inv.describe shut rfl rfl _
  · rename_i unnamed
    split at created
    · cases created
    · obtain rfl := Option.some.inj created
      exact (inv.names unnamed spare _).describe shut rfl rfl spare

/-- A lock that nobody else has. -/
theorem lock (inv : system.Inv) (phase : system.phase pid = .opened fd)
    (same : system.file.inodeOf fd = some inode) (lockable : system.file.Lockable inode) :
    ((system.withFile (system.file.lock fd)).goto pid (.locked fd)).Inv := by
  have open_ : (system.phase pid).fd? = some fd := by
    rw [phase]
    rfl
  obtain ⟨found, has⟩ := inv.has open_
  obtain rfl := Option.some.inj (has.inodeOf.symm.trans same)
  apply inv.moved (inv.spares_lock pid fd) (inv.exclusive.lock has lockable)
    (inv.occupied.lock has)
  · intro other is_open
    obtain rfl := Option.some.inj is_open
    exact ⟨found, has.lock fd⟩
  · intro other locked
    obtain rfl := Option.some.inj locked
    refine ⟨⟨found, LockedFile.locks_lock has⟩, fun _ others => ?_⟩
    -- the lock of another would be one on the same inode
    obtain ⟨_, description, lookup, rfl, -, isLocked⟩ := inv.locks others
    obtain ⟨another, sameLookup, rfl, -⟩ := has
    obtain rfl := Option.some.inj (lookup.symm.trans sameLookup)
    have free := lockable description (List.mem_of_getElem? lookup) rfl
    cases free.symm.trans isLocked
  · rintro inode ⟨other, owns, -⟩
    cases owns
  · intro other is_open
    have before := inv.uses is_open.of_lock
    exact open_.symm.trans before

/-- A process that goes on with what it relies on, and without its lock or with it. -/
theorem keeps (inv : system.Inv) {before : Phase} (at_ : system.phase pid = before)
    (same : phase.fd? = before.fd?)
    (locks : ∀ {fd}, phase.lockFd? = some fd → before.lockFd? = some fd)
    (relies : ∀ {inode}, phase.Relies system.file inode → before.Relies system.file inode) :
    (system.goto pid phase).Inv := by
  subst at_
  exact inv.goto same locks fun relied => inv.named (relies relied)

theorem textThen (inv : system.Inv) {before : Phase} (at_ : system.phase pid = before)
    {text : List Byte → List Byte} {next : PidFiles}
    (taken : system.textThen pid fd text phase = some next) (same : phase.fd? = before.fd?)
    (locks : ∀ {fd}, phase.lockFd? = some fd → before.lockFd? = some fd)
    (relies : ∀ {inode}, phase.Relies system.file inode → before.Relies system.file inode) :
    next.Inv := by
  subst at_
  obtain ⟨inode, -, rfl⟩ := Option.map_eq_some_iff.mp taken
  exact inv.setText same locks (fun relied => inv.named (relies relied)) inode _

theorem closes (inv : system.Inv) {before : Phase} (at_ : system.phase pid = before)
    (had : before.fd? = some fd) (shut : phase.fd? = none) :
    (system.closeThen pid fd phase).Inv := by
  subst at_
  exact inv.closeThen had shut

/-- A process that goes on without a lock. -/
theorem unlocks (inv : system.Inv) {before : Phase} (at_ : system.phase pid = before)
    (same : phase.fd? = before.fd?) (unlocked : phase.lockFd? = none) :
    (system.goto pid phase).Inv := by
  apply inv.keeps at_ same
  · intro fd locked
    cases unlocked.symm.trans locked
  · intro inode relies
    obtain ⟨fd, locked, -⟩ := relies.lockFd
    cases unlocked.symm.trans locked

/-- The inode that the path names is one to compare with. -/
theorem finds (inv : system.Inv) (at_ : system.phase pid = .locked fd)
    (named : system.file.named = some inode) : (system.goto pid (.found fd inode)).Inv := by
  apply inv.goto
  · rw [at_]
    rfl
  · intro fd locked
    rw [at_]
    exact locked
  · rintro inode ⟨rfl, -⟩
    exact named

/-- Where the inodes are the same, the pid file is the one at the path. -/
theorem confirms (inv : system.Inv) (at_ : system.phase pid = .found fd inode)
    (same : system.file.inodeOf fd = some inode) : (system.goto pid (.confirmed fd)).Inv := by
  apply inv.keeps at_
  · rfl
  · exact id
  · rintro inode ⟨_, owns, still⟩
    obtain rfl := Option.some.inj owns
    exact ⟨Option.some.inj (same.symm.trans still), still⟩

/-- Nobody else relies on the path of the pid file that is removed. -/
theorem unlinks (inv : system.Inv) {removed : Removed}
    (at_ : system.phase pid = .removing fd removed) :
    ((system.withFile system.file.unlink).goto pid (.unlinked fd removed)).Inv := by
  have locked : (system.phase pid).lockFd? = some fd := by
    rw [at_]
    rfl
  have open_ := Phase.fd_of_lockFd locked
  obtain ⟨inode, locks⟩ := inv.locks locked
  have relies : (system.phase pid).Relies system.file inode := by
    rw [at_]
    exact ⟨fd, rfl, locks.has.inodeOf⟩
  apply inv.moved (inv.spares_unlink relies) inv.exclusive inv.occupied
  · intro other is_open
    exact inv.has (open_.trans is_open)
  · intro other locked
    cases locked
  · rintro inode ⟨other, owns, -⟩
    cases owns
  · intro other is_open
    exact open_.symm.trans (inv.uses is_open)

/-! ### System calls -/

/-- Every system call that succeeds keeps the invariant. -/
theorem call (inv : system.Inv) {spare : Nat} {next : PidFiles}
    (taken : system.call pid spare = some next) : next.Inv := by
  unfold PidFiles.call at taken
  cases at_ : system.phase pid <;> rw [at_] at taken <;> dsimp only at taken
  case opening =>
    obtain ⟨file, created, rfl⟩ := Option.map_eq_some_iff.mp taken
    exact inv.create (by rw [at_]; rfl) created
  case opened fd =>
    obtain ⟨inode, same, taken⟩ := Option.map_eq_some_iff.mp taken
    split at taken <;> subst taken
    · rename_i lockable
      exact inv.lock at_ same lockable
    · exact inv.unlocks at_ rfl rfl
  case refused fd =>
    obtain rfl := Option.some.inj taken
    exact inv.closes at_ rfl rfl
  case locked fd =>
    cases named : system.file.named with
    | none =>
        rw [named] at taken
        obtain rfl := Option.some.inj taken
        exact inv.unlocks at_ rfl rfl
    | some found =>
        rw [named] at taken
        obtain rfl := Option.some.inj taken
        exact inv.finds at_ named
  case found fd ino =>
    split at taken <;> obtain rfl := Option.some.inj taken
    · rename_i same
      exact inv.confirms at_ same
    · exact inv.unlocks at_ rfl rfl
  case stale fd =>
    obtain rfl := Option.some.inj taken
    exact inv.closes at_ rfl rfl
  case confirmed fd => exact inv.textThen at_ taken rfl id id
  case emptied fd =>
    obtain ⟨inode, -, rfl⟩ := Option.map_eq_some_iff.mp taken
    exact inv.keeps at_ rfl id id
  case failing fd =>
    obtain rfl := Option.some.inj taken
    exact inv.closes at_ rfl rfl
  case asking count =>
    cases named : system.file.named with
    | none =>
        rw [named] at taken
        obtain rfl := Option.some.inj taken
        exact inv.unlocks at_ rfl rfl
    | some found =>
        rw [named] at taken
        obtain rfl := Option.some.inj taken
        exact inv.describe (by rw [at_]; rfl) rfl rfl found
  case reading fd count =>
    obtain ⟨inode, -, rfl⟩ := Option.map_eq_some_iff.mp taken
    exact inv.unlocks at_ rfl rfl
  case read fd count text =>
    obtain rfl := Option.some.inj taken
    apply inv.closes at_ rfl
    unfold answered
    split <;> rfl
  case writing pfh => exact inv.textThen at_ taken rfl id id
  case rewriting pfh => exact inv.textThen at_ taken rfl id id
  case removing fd removed =>
    obtain rfl := Option.some.inj taken
    exact inv.unlinks at_
  case unlinked fd removed =>
    obtain rfl := Option.some.inj taken
    apply inv.closes at_ rfl
    cases removed <;> rfl
  case closing fd =>
    obtain rfl := Option.some.inj taken
    exact inv.closes at_ rfl rfl
  all_goals cases taken

theorem start (inv : system.Inv) {next : PidFiles} (taken : system.start pid = some next) :
    next.Inv := by
  unfold PidFiles.start at taken
  cases at_ : system.phase pid <;> rw [at_] at taken <;> dsimp only at taken
  case idle | returned | void =>
    split at taken
    · obtain rfl := Option.some.inj taken
      exact inv.unlocks at_ rfl rfl
    · cases taken
  all_goals cases taken

theorem fail (inv : system.Inv) {next : PidFiles} (taken : system.fail pid = some next) :
    next.Inv := by
  unfold PidFiles.fail at taken
  cases at_ : system.phase pid <;> rw [at_] at taken <;> dsimp only at taken
  case emptied fd =>
    obtain rfl := Option.some.inj taken
    exact inv.keeps at_ rfl id id
  case writing pfh | rewriting pfh =>
    obtain rfl := Option.some.inj taken
    exact inv.keeps at_ rfl id id
  case opening | opened | locked | found | confirmed | asking | reading | removing =>
    obtain rfl := Option.some.inj taken
    exact inv.unlocks at_ rfl rfl
  all_goals cases taken

theorem short (inv : system.Inv) {amount : Nat} {next : PidFiles}
    (taken : system.short pid amount = some next) : next.Inv := by
  unfold PidFiles.short at taken
  split at taken
  · rename_i pfh at_
    split at taken
    · exact inv.textThen at_ taken rfl id id
    · cases taken
  · cases taken

/-! ### Calls of functions -/

/-- A process that goes on with the pid file calls a function on it. -/
theorem begin (inv : system.Inv) {leads : PidFh → Phase}
    (keeps : (system.phase pid).leaves = false) (same : ∀ pfh, (leads pfh).fd? = some pfh.fd)
    (locks : ∀ {pfh fd}, (leads pfh).lockFd? = some fd → pfh.fd = fd)
    (relies : ∀ {pfh inode}, (leads pfh).Relies system.file inode →
      (Phase.holding pfh).Relies system.file inode)
    {next : PidFiles} (taken : system.begin pid leads = some next) : next.Inv := by
  unfold PidFiles.begin at taken
  cases at_ : system.phase pid <;> rw [at_] at taken <;> dsimp only at taken
  case holding pfh =>
    split at taken <;> obtain rfl := Option.some.inj taken
    · exact inv.keeps at_ (same pfh) (fun locked => congrArg some (locks locked)) relies
    · exact inv
  case inherited pfh =>
    rw [at_] at keeps
    cases keeps
  case void =>
    obtain rfl := Option.some.inj taken
    exact inv
  all_goals cases taken

/-- Every process may close what it has. -/
theorem beginClose (inv : system.Inv) {next : PidFiles}
    (taken : (system.begin pid fun pfh => .closing pfh.fd) = some next) : next.Inv := by
  unfold PidFiles.begin at taken
  cases at_ : system.phase pid <;> rw [at_] at taken <;> dsimp only at taken
  case holding pfh | inherited pfh =>
    split at taken <;> obtain rfl := Option.some.inj taken
    · exact inv.unlocks at_ rfl rfl
    · exact inv
  case void =>
    obtain rfl := Option.some.inj taken
    exact inv
  all_goals cases taken

theorem exit (inv : system.Inv) (pid : Nat) : (system.exit pid).Inv := by
  unfold PidFiles.exit
  cases had : (system.phase pid).fd? with
  | none => exact inv.unlocks rfl had.symm rfl
  | some fd => exact inv.closeThen had rfl

/-- A child that shares a pid file. -/
theorem share (inv : system.Inv) {child : Nat} {pfh : PidFh}
    (has : system.file.Has pid pfh.fd inode) (idle : system.phase child = .idle) :
    ((system.withFile (system.file.share pfh.fd child)).goto child (.inherited pfh)).Inv := by
  have spares : Spares child system (system.file.share pfh.fd child) := {
    has := fun _ before => before.share pfh.fd child
    locks := fun _ before => before.share pfh.fd child
    named := fun _ relies => inv.named relies
    uses := fun apart open_ => open_.of_share.resolve_right fun new => apart new.2 }
  apply inv.moved spares (inv.exclusive.share pfh.fd child) (inv.occupied.share pfh.fd child)
  · intro fd open_
    obtain rfl := Option.some.inj open_
    exact ⟨inode, LockedFile.has_share has child⟩
  · intro fd locked
    cases locked
  · rintro inode ⟨fd, owns, -⟩
    cases owns
  · intro fd open_
    rcases open_.of_share with before | ⟨rfl, -⟩
    · have none := inv.uses before
      rw [idle] at none
      cases none
    · rfl

/-- Who shares a pid file takes it over from the one that has it. -/
theorem handOver (inv : system.Inv) {child : Nat} {pfh : PidFh}
    (at_ : system.phase pid = .holding pfh) (shares : system.phase child = .inherited pfh) :
    ((system.goto pid (.inherited pfh)).goto child (.holding pfh)).Inv := by
  have apart : child ≠ pid := by
    rintro rfl
    cases at_.symm.trans shares
  have locked : (system.phase pid).lockFd? = some pfh.fd := by
    rw [at_]
    rfl
  have open_ : (system.phase child).fd? = some pfh.fd := by
    rw [shares]
    rfl
  obtain ⟨inode, locks⟩ := inv.locks locked
  obtain ⟨_, has⟩ := inv.has open_
  have childLocks := locks.of_has has
  have relies : (system.phase pid).Relies system.file inode := by
    rw [at_]
    exact ⟨pfh.fd, rfl, locks.has.inodeOf⟩
  have given : (system.goto pid (.inherited pfh)).Inv := inv.unlocks at_ rfl rfl
  apply given.moved (given.spares child) given.exclusive given.occupied
  · intro fd opens
    obtain rfl := Option.some.inj opens
    exact ⟨inode, childLocks.has⟩
  · intro fd takes
    obtain rfl := Option.some.inj takes
    refine ⟨⟨inode, childLocks⟩, fun {other} _ others => ?_⟩
    by_cases same : other = pid
    · subst same
      rw [goto_phase_self] at others
      cases others
    · rw [goto_phase_ne _ same] at others
      exact same (inv.apart others locked)
  · rintro found ⟨fd, owns, same⟩
    obtain rfl := Option.some.inj owns
    obtain rfl := Option.some.inj (childLocks.has.inodeOf.symm.trans same)
    exact inv.named relies
  · intro fd opens
    have before := given.uses opens
    rw [goto_phase_ne _ apart, shares] at before
    exact before

end Inv

theorem goto_twice (system : PidFiles) (pid : Nat) (first second : Phase) :
    (system.goto pid first).goto pid second = system.goto pid second := by
  unfold goto
  rw [Function.update_idem]

theorem goto_comm (system : PidFiles) (apart : pid ≠ other) (first second : Phase) :
    (system.goto pid first).goto other second = (system.goto other second).goto pid first := by
  unfold goto
  rw [Function.update_comm apart]

theorem Inv.fork (inv : system.Inv) {child : Nat} {keeps : Bool} {next : PidFiles}
    (taken : system.fork pid child keeps = some next) : next.Inv := by
  unfold PidFiles.fork at taken
  split at taken
  · rename_i pfh at_ idle
    split at taken
    · rename_i apart
      have open_ : (system.phase pid).fd? = some pfh.fd := by
        rw [at_]
        rfl
      obtain ⟨inode, has⟩ := inv.has open_
      have shared := inv.share has idle
      split at taken <;> obtain rfl := Option.some.inj taken
      · exact shared
      · have taken := shared.handOver ((goto_phase_ne _ apart.1 _).trans at_)
          (goto_phase_self _ _ _)
        rw [goto_comm _ apart.1.symm, goto_twice] at taken
        exact taken
    · cases taken
  · rename_i pfh at_ idle
    split at taken
    · obtain rfl := Option.some.inj taken
      have open_ : (system.phase pid).fd? = some pfh.fd := by
        rw [at_]
        rfl
      obtain ⟨inode, has⟩ := inv.has open_
      exact inv.share has idle
    · cases taken
  · cases taken

/-- Every step of every process keeps the invariant, but for those that write or remove a pid
file which they are to leave. -/
theorem Inv.step (inv : system.Inv) {action : Action} {next : PidFiles}
    (allowed : system.OneKeeps action) (taken : system.step action = some next) : next.Inv := by
  cases action with
  | start pid => exact inv.start taken
  | call pid spare => exact inv.call taken
  | fail pid => exact inv.fail taken
  | short pid amount => exact inv.short taken
  | write pid =>
      apply inv.begin allowed _ _ _ taken
      · exact fun _ => rfl
      · exact Option.some.inj
      · exact id
  | remove pid =>
      apply inv.begin allowed _ _ _ taken
      · exact fun _ => rfl
      · exact Option.some.inj
      · exact id
  | close pid => exact inv.beginClose taken
  | fork pid child keeps => exact inv.fork taken
  | exit pid =>
      obtain rfl := Option.some.inj taken
      exact inv.exit pid

theorem inv_ofText (text : Option (List Byte)) : (ofText text).Inv where
  exclusive := LockedFile.exclusive_ofText text
  has open_ := by cases open_
  locks locked := by cases locked
  apart locked := by cases locked
  named := by
    rintro pid inode ⟨fd, owns, -⟩
    cases owns
  uses := by
    rintro fd user ⟨description, found, -⟩
    cases found
  occupied := LockedFile.occupied_ofText text

theorem inv_of_reachable {text : Option (List Byte)}
    (reached : Reachable step OneKeeps (ofText text) system) : system.Inv :=
  reached.invariant (inv_ofText text) fun _ _ _ inv allowed taken => inv.step allowed taken

/-! ## One owner -/

/-- A process has the pid file: from where `flopen` has compared the inodes until it removes
the file. -/
def Owner (system : PidFiles) (pid inode : Nat) : Prop :=
  ∃ fd, (system.phase pid).ownFd? = some fd ∧ system.file.inodeOf fd = some inode

theorem Owner.relies (owner : system.Owner pid inode) :
    (system.phase pid).Relies system.file inode := by
  obtain ⟨fd, owns, same⟩ := owner
  exact Phase.relies_of_ownFd owns same

/--
At most one process has the pid file, whichever processes open, write, close and remove it, fork
and end, and in whatever order their system calls are made; and the file that it has is the one
at the path.  Of the processes behind a fork only one goes on with it.
-/
theorem one_owner {text : Option (List Byte)}
    (reached : Reachable step OneKeeps (ofText text) system) {otherInode : Nat}
    (owner : system.Owner pid inode) :
    system.file.named = some inode ∧ (system.Owner other otherInode → other = pid) := by
  have inv := inv_of_reachable reached
  exact ⟨inv.named owner.relies, fun another => inv.relies_unique another.relies owner.relies⟩

/-- What some actions come to where there is no file at first. -/
def played (actions : List Action) : Option PidFiles :=
  execute step OneKeeps (ofText none) actions

theorem reached_played {actions : List Action} (taken : (played actions).isSome) :
    Reachable step OneKeeps (ofText none) ((played actions).get taken) :=
  ⟨actions, Run.of_execute (Option.some_get taken).symm⟩

/-- Process 7 has got the pid file. -/
def openedBySeven : List Action :=
  .start 7 :: List.replicate 6 (.call 7 3)

theorem one_owner_seven :
    ∃ system : PidFiles,
      system.Owner 7 3 ∧ system.file.named = some 3 ∧ (system.Owner 8 3 → 8 = 7) := by
  have taken : (played openedBySeven).isSome := by decide +kernel
  have owner : ((played openedBySeven).get taken).Owner 7 3 :=
    ⟨0, by decide +kernel +revert, by decide +kernel +revert⟩
  exact ⟨_, owner, one_owner (reached_played taken) owner⟩

/-- Process 8, which is forked by process 7, removes the pid file, and process 9 opens another. -/
def removedByEight : List Action :=
  openedBySeven ++ [.fork 7 8 true, .remove 8, .call 8 0, .call 8 0, .start 9] ++
    List.replicate 6 (.call 9 4)

/-- Where both processes behind a fork go on with the pid file, two processes may have one, and
the path names the other's. -/
theorem two_owners_behind_fork :
    ∃ system : PidFiles, Reachable step unguarded (ofText none) system ∧
      system.Owner 7 3 ∧ system.Owner 9 4 ∧ system.file.named = some 4 := by
  obtain ⟨taken, seven, sevenInode, nine, nineInode, named⟩ :
      ∃ taken : (execute step unguarded (ofText none) removedByEight).isSome,
        let system := (execute step unguarded (ofText none) removedByEight).get taken
        (system.phase 7).ownFd? = some 0 ∧ system.file.inodeOf 0 = some 3 ∧
          (system.phase 9).ownFd? = some 1 ∧ system.file.inodeOf 1 = some 4 ∧
          system.file.named = some 4 := by
    decide +kernel
  exact ⟨_, ⟨_, Run.of_execute (Option.some_get taken).symm⟩, ⟨0, seven, sevenInode⟩,
    ⟨1, nine, nineInode⟩, named⟩

end PidFiles

end ReactiveToolbox.Sys
