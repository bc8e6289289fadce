import ReactiveToolbox.Sys.PidFileOwners

/-!
# What is in the pid file

What a step does to the file system is said once.  So nobody but the process that has the pid
file changes it, and what another process reads of it is nothing, or the number of a process
that has written it.
-/

namespace ReactiveToolbox.Sys

open ReactiveToolbox.Lib
open ReactiveToolbox.Util

/-- The process that makes a step. -/
def Action.pid : Action → Nat
  | .start pid | .call pid _ | .fail pid | .short pid _ | .write pid | .remove pid
  | .close pid | .fork pid _ _ | .exit pid => pid

/-- A `pwrite` writes so much of the number of its process. -/
def Action.Writes (amount : Nat) : Action → Prop
  | .call pid _ => amount = (pidText pid).length
  | .short pid less => less = amount ∧ amount < (pidText pid).length
  | _ => False

namespace PidFiles

/-- What a step of a process does to the file system. -/
inductive FileStep (system : PidFiles) (action : Action) : LockedFile Byte → Prop where
  | same : FileStep system action system.file
  | changed (fd : Nat) {by_ : Description → Description}
      (keeps : ∀ description, (by_ description).inode = description.inode) :
      FileStep system action (system.file.change fd by_)
  | described (inode : Nat) : FileStep system action (system.file.describe action.pid inode)
  | created (spare : Nat) (unnamed : system.file.named = none) :
      FileStep system action
        (LockedFile.describe
          { system.file with
            named := some spare
            text := Function.update system.file.text spare [] }
          action.pid spare)
  | cleared {inode : Nat} (owner : system.Owner action.pid inode) :
      FileStep system action (system.file.setText inode [])
  | written {amount inode : Nat} {pfh : PidFh} (writes : action.Writes amount)
      (at_ : system.phase action.pid = .rewriting pfh)
      (same : system.file.inodeOf pfh.fd = some inode) :
      FileStep system action
        (system.file.setText inode (pwritten action.pid amount (system.file.text inode)))
  | unlinked {inode : Nat} (owner : system.Owner action.pid inode) :
      FileStep system action system.file.unlink

theorem FileStep.closed (system : PidFiles) (action : Action) (fd user : Nat) :
    FileStep system action (system.file.close fd user) :=
  .changed fd fun _ => rfl

/-- What a process has read, and what it returns, comes from a text of the file. -/
structure Reads (system : PidFiles) (pid : Nat) (phase : Phase) : Prop where
  read : ∀ {fd count text}, phase = .read fd count text →
    ∃ inode, text = (system.file.text inode).take readSize
  returned : ∀ {errno}, phase = .returned errno → errno = .noEnt ∨ errno = .other ∨
    ∃ fd count text, system.phase pid = .read fd count text ∧ errno = pidfileRead text

/-- What a step of one process does, but for a fork: it changes the file system, and the
process goes on. -/
structure Goes (system : PidFiles) (action : Action) (file : LockedFile Byte) (phase : Phase) :
    Prop where
  effect : FileStep system action file
  reads : Reads system action.pid phase
  /-- A text that is about to be written is empty. -/
  rewrites : ∀ {pfh}, phase = .rewriting pfh → ∀ {inode},
    file.inodeOf pfh.fd = some inode → file.text inode = []
  /-- Only `pidfile_open` makes a process of one that has done nothing. -/
  starts : system.phase action.pid = .idle → phase = .idle ∨ action.pid < 2 ^ 31

/-- The phases that have nothing to do with a text. -/
def plain : Phase → Bool
  | .read _ _ _ | .returned _ | .rewriting _ => false
  | _ => true

theorem Goes.of_plain {system : PidFiles} {action : Action} {file : LockedFile Byte}
    {phase before : Phase} (at_ : system.phase action.pid = before) (busy : before ≠ .idle)
    (effect : FileStep system action file) (isPlain : plain phase) :
    Goes system action file phase where
  effect := effect
  reads := {
    read := by
      rintro fd count text rfl
      cases isPlain
    returned := by
      rintro errno rfl
      cases isPlain }
  rewrites := by
    rintro pfh rfl
    cases isPlain
  starts idle := absurd (at_.symm.trans idle) busy

/-- A step that ends `pidfile_open` with an error. -/
theorem Goes.of_error {system : PidFiles} {action : Action} {file : LockedFile Byte}
    {before : Phase} (at_ : system.phase action.pid = before) (busy : before ≠ .idle)
    (effect : FileStep system action file) {errno : PidFileErrno}
    (known : errno = .noEnt ∨ errno = .other) : Goes system action file (.returned errno) where
  effect := effect
  reads := {
    read := fun goes => Phase.noConfusion goes
    returned := by
      rintro _ ⟨⟩
      exact known.imp_right .inl }
  rewrites goes := Phase.noConfusion goes
  starts idle := absurd (at_.symm.trans idle) busy

variable {system next : PidFiles} {action : Action} {pid other inode fd : Nat}

theorem owner_of_phase {before : Phase} (at_ : system.phase pid = before)
    (owns : before.ownFd? = some fd) (same : system.file.inodeOf fd = some inode) :
    system.Owner pid inode := by
  subst at_
  exact ⟨fd, owns, same⟩

theorem Inv.exists_owner (inv : system.Inv) {before : Phase} (at_ : system.phase pid = before)
    (owns : before.ownFd? = some fd) : ∃ inode, system.Owner pid inode := by
  subst at_
  obtain ⟨inode, has⟩ := inv.has (Phase.fd_of_lockFd (Phase.lockFd_of_ownFd owns))
  exact ⟨inode, fd, owns, has.inodeOf⟩

/-! ## What a system call does that succeeds -/

theorem create_effect {spare : Nat} {file : LockedFile Byte}
    (created : system.file.create pid spare = some file) :
    FileStep system (.call pid spare) file := by
  unfold LockedFile.create at created
  split at created
  · obtain rfl := Option.some.inj created
    exact .described _
  · rename_i unnamed
    split at created
    · cases created
    · obtain rfl := Option.some.inj created
      exact .created spare unnamed

theorem reading_goes {spare count : Nat} (at_ : system.phase pid = .reading fd count) :
    Goes system (.call pid spare) system.file
      (.read fd count ((system.file.text inode).take readSize)) where
  effect := .same
  reads := {
    read := fun goes => ⟨inode, (Phase.read.inj goes).2.2.symm⟩
    returned := fun goes => Phase.noConfusion goes }
  rewrites goes := Phase.noConfusion goes
  starts idle := by cases at_.symm.trans idle

theorem read_goes {spare count : Nat} {text : List Byte}
    (at_ : system.phase pid = .read fd count text) :
    Goes system (.call pid spare) (system.file.close fd pid)
      (answered count (pidfileRead text)) where
  effect := .changed fd fun _ => rfl
  reads := {
    read := by
      intro fd count text goes
      unfold answered at goes
      split at goes <;> cases goes
    returned := by
      intro errno goes
      unfold answered at goes
      split at goes <;> cases goes
      exact .inr (.inr ⟨fd, count, text, at_, rfl⟩) }
  rewrites := by
    intro pfh goes
    unfold answered at goes
    split at goes <;> cases goes
  starts idle := by cases at_.symm.trans idle

theorem writing_goes {spare : Nat} {pfh : PidFh} (at_ : system.phase pid = .writing pfh)
    (same : system.file.inodeOf pfh.fd = some inode) :
    Goes system (.call pid spare) (system.file.setText inode []) (.rewriting pfh) where
  effect := .cleared (owner_of_phase at_ rfl same)
  reads := {
    read := fun goes => Phase.noConfusion goes
    returned := fun goes => Phase.noConfusion goes }
  rewrites := by
    intro other goes found here
    obtain rfl := Phase.rewriting.inj goes
    obtain rfl := Option.some.inj (same.symm.trans here)
    exact Function.update_self _ _ _
  starts idle := by cases at_.symm.trans idle

theorem Inv.call_goes (inv : system.Inv) {spare : Nat}
    (taken : system.call pid spare = some next) :
    ∃ file phase, next = (system.withFile file).goto pid phase ∧
      Goes system (.call pid spare) file phase := by
  unfold PidFiles.call at taken
  cases at_ : system.phase pid <;> rw [at_] at taken <;> dsimp only at taken
  case opening =>
    obtain ⟨file, created, rfl⟩ := Option.map_eq_some_iff.mp taken
    exact ⟨file, _, rfl, .of_plain at_ Phase.noConfusion (create_effect created) rfl⟩
  case opened fd =>
    obtain ⟨inode, same, taken⟩ := Option.map_eq_some_iff.mp taken
    split at taken <;> subst taken
    · exact ⟨_, _, rfl, .of_plain at_ Phase.noConfusion (.changed fd fun _ => rfl) rfl⟩
    · exact ⟨_, _, rfl, .of_plain at_ Phase.noConfusion .same rfl⟩
  case refused fd | stale fd | closing fd =>
    obtain rfl := Option.some.inj taken
    exact ⟨_, _, rfl, .of_plain at_ Phase.noConfusion (.changed fd fun _ => rfl) rfl⟩
  case locked fd =>
    cases named : system.file.named <;> rw [named] at taken <;> obtain rfl := Option.some.inj taken
    all_goals exact ⟨_, _, rfl, .of_plain at_ Phase.noConfusion .same rfl⟩
  case found fd ino =>
    split at taken <;> obtain rfl := Option.some.inj taken
    all_goals exact ⟨_, _, rfl, .of_plain at_ Phase.noConfusion .same rfl⟩
  case confirmed fd =>
    obtain ⟨inode, same, rfl⟩ := Option.map_eq_some_iff.mp taken
    have owner := owner_of_phase at_ rfl same
    exact ⟨_, _, rfl, .of_plain at_ Phase.noConfusion (.cleared owner) rfl⟩
  case emptied fd =>
    obtain ⟨inode, same, rfl⟩ := Option.map_eq_some_iff.mp taken
    exact ⟨_, _, rfl, .of_plain at_ Phase.noConfusion .same rfl⟩
  case failing fd =>
    obtain rfl := Option.some.inj taken
    exact ⟨_, _, rfl, .of_error at_ Phase.noConfusion (.closed _ _ fd pid) (.inr rfl)⟩
  case asking count =>
    cases named : system.file.named <;> rw [named] at taken <;> obtain rfl := Option.some.inj taken
    · exact ⟨_, _, rfl, .of_error at_ Phase.noConfusion .same (.inl rfl)⟩
    · exact ⟨_, _, rfl, .of_plain at_ Phase.noConfusion (.described _) rfl⟩
  case reading fd count =>
    obtain ⟨inode, same, rfl⟩ := Option.map_eq_some_iff.mp taken
    exact ⟨_, _, rfl, reading_goes at_⟩
  case read fd count text =>
    obtain rfl := Option.some.inj taken
    exact ⟨_, _, rfl, read_goes at_⟩
  case writing pfh =>
    obtain ⟨inode, same, rfl⟩ := Option.map_eq_some_iff.mp taken
    exact ⟨_, _, rfl, writing_goes at_ same⟩
  case rewriting pfh =>
    obtain ⟨inode, same, rfl⟩ := Option.map_eq_some_iff.mp taken
    exact ⟨_, _, rfl, .of_plain at_ Phase.noConfusion (.written rfl at_ same) rfl⟩
  case removing fd removed =>
    obtain rfl := Option.some.inj taken
    obtain ⟨inode, owner⟩ := inv.exists_owner at_ rfl
    exact ⟨_, _, rfl, .of_plain at_ Phase.noConfusion (.unlinked owner) rfl⟩
  case unlinked fd removed =>
    obtain rfl := Option.some.inj taken
    have closed : FileStep system (.call pid spare) (system.file.close fd pid) :=
      .closed _ _ fd pid
    cases removed with
    | freed | kept => exact ⟨_, _, rfl, .of_plain at_ Phase.noConfusion closed rfl⟩
    | refused => exact ⟨_, _, rfl, .of_error at_ Phase.noConfusion closed (.inr rfl)⟩
  all_goals cases taken

/-! ## What the other steps do -/

theorem fail_goes (taken : system.fail pid = some next) :
    ∃ phase, next = system.goto pid phase ∧ Goes system (.fail pid) system.file phase := by
  unfold PidFiles.fail at taken
  cases at_ : system.phase pid <;> rw [at_] at taken <;> dsimp only at taken
  case opening | asking =>
    obtain rfl := Option.some.inj taken
    exact ⟨_, rfl, .of_error at_ Phase.noConfusion .same (.inr rfl)⟩
  case opened | locked | found | confirmed | emptied | reading | writing | rewriting | removing =>
    obtain rfl := Option.some.inj taken
    exact ⟨_, rfl, .of_plain at_ Phase.noConfusion .same rfl⟩
  all_goals cases taken

theorem start_goes (taken : system.start pid = some next) :
    ∃ phase, next = system.goto pid phase ∧ Goes system (.start pid) system.file phase := by
  unfold PidFiles.start at taken
  cases at_ : system.phase pid <;> rw [at_] at taken <;> dsimp only at taken
  case idle | returned | void =>
    split at taken
    · rename_i small
      obtain rfl := Option.some.inj taken
      exact ⟨_, rfl, {
        effect := .same
        reads := {
          read := fun goes => Phase.noConfusion goes
          returned := fun goes => Phase.noConfusion goes }
        rewrites := fun goes => Phase.noConfusion goes
        starts := fun _ => .inr small }⟩
    · cases taken
  all_goals cases taken

theorem short_goes {amount : Nat} (taken : system.short pid amount = some next) :
    ∃ file phase, next = (system.withFile file).goto pid phase ∧
      Goes system (.short pid amount) file phase := by
  unfold PidFiles.short at taken
  split at taken
  · rename_i pfh at_
    split at taken
    · rename_i less
      obtain ⟨inode, same, rfl⟩ := Option.map_eq_some_iff.mp taken
      have written : FileStep system (.short pid amount) _ := .written ⟨rfl, less⟩ at_ same
      exact ⟨_, _, rfl, .of_plain at_ Phase.noConfusion written rfl⟩
    · cases taken
  · cases taken

/-- A process that ends does nothing any more. -/
theorem goes_idle {file : LockedFile Byte} (effect : FileStep system action file) :
    Goes system action file .idle where
  effect := effect
  reads := {
    read := fun goes => Phase.noConfusion goes
    returned := fun goes => Phase.noConfusion goes }
  rewrites goes := Phase.noConfusion goes
  starts _ := .inl rfl

/-- What every step does: to the file system, to the process, and to the others, of which one
may be new. -/
structure Stepped (system : PidFiles) (action : Action) (next : PidFiles) : Prop where
  goes : Goes system action next.file (next.phase action.pid)
  others : ∀ {other}, other ≠ action.pid → next.phase other = system.phase other ∨
    system.phase other = .idle ∧ plain (next.phase other) ∧ other < 2 ^ 31

theorem Goes.stepped {file : LockedFile Byte} {phase : Phase}
    (goes : Goes system action file phase) :
    Stepped system action ((system.withFile file).goto action.pid phase) where
  goes := by
    rw [goto_phase_self]
    exact goes
  others apart := .inl (goto_phase_ne _ apart _)

/-- The functions on a pid file verify it first. -/
theorem begin_stepped {leads : PidFh → Phase} (isPlain : ∀ pfh, plain (leads pfh))
    (taken : system.begin action.pid leads = some next) : Stepped system action next := by
  have stays : ∀ {before : Phase}, system.phase action.pid = before → before ≠ .idle →
      plain before → Stepped system action system := by
    intro before at_ busy isPlain
    have goes : Goes system action system.file before := .of_plain at_ busy .same isPlain
    have stepped := goes.stepped
    have same : system.withFile system.file = system := rfl
    rwa [same, goto_self at_] at stepped
  unfold PidFiles.begin at taken
  cases at_ : system.phase action.pid <;> rw [at_] at taken <;> dsimp only at taken
  case holding pfh | inherited pfh =>
    split at taken <;> obtain rfl := Option.some.inj taken
    · have goes : Goes system action system.file (leads pfh) :=
        .of_plain at_ Phase.noConfusion .same (isPlain pfh)
      exact goes.stepped
    · exact stays at_ Phase.noConfusion rfl
  case void =>
    obtain rfl := Option.some.inj taken
    exact stays at_ Phase.noConfusion rfl
  all_goals cases taken

/-- A fork makes a new process. -/
theorem Goes.stepped_child {file : LockedFile Byte} {phase : Phase}
    (goes : Goes system action file phase) {child : Nat} (apart : action.pid ≠ child)
    (idle : system.phase child = .idle) (small : child < 2 ^ 31) {ofChild : Phase}
    (isPlain : plain ofChild) :
    Stepped system action
      (((system.withFile file).goto action.pid phase).goto child ofChild) where
  goes := by
    rw [goto_phase_ne _ apart, goto_phase_self]
    exact goes
  others {other} other_apart := by
    by_cases new : other = child
    · subst new
      rw [goto_phase_self]
      exact .inr ⟨idle, isPlain, small⟩
    · rw [goto_phase_ne _ new]
      exact .inl (goto_phase_ne _ other_apart _)

theorem fork_stepped {child : Nat} {keeps : Bool}
    (taken : system.fork pid child keeps = some next) :
    Stepped system (.fork pid child keeps) next := by
  have shared : ∀ fd,
      FileStep system (.fork pid child keeps) (system.file.share fd child) :=
    fun fd => .changed fd fun _ => rfl
  -- The process that forks goes on as before, and the child is to leave the pid file.
  have inherits : ∀ {before : Phase} (pfh : PidFh), system.phase pid = before → before ≠ .idle →
      plain before → pid ≠ child → system.phase child = .idle → child < 2 ^ 31 →
      Stepped system (.fork pid child keeps)
        ((system.withFile (system.file.share pfh.fd child)).goto child (.inherited pfh)) := by
    intro before pfh at_ busy isPlain apart idle small
    have goes : Goes system (.fork pid child keeps) (system.file.share pfh.fd child) before :=
      .of_plain at_ busy (shared _) isPlain
    have same : (system.withFile (system.file.share pfh.fd child)).phase pid = before := at_
    rw [← goto_self same]
    exact goes.stepped_child apart idle small rfl
  unfold PidFiles.fork at taken
  split at taken
  · rename_i pfh at_ idle
    split at taken
    · rename_i fits
      split at taken <;> obtain rfl := Option.some.inj taken
      · exact inherits pfh at_ Phase.noConfusion rfl fits.1 idle fits.2
      · have goes : Goes system (.fork pid child keeps) (system.file.share pfh.fd child)
            (.inherited pfh) := .of_plain at_ Phase.noConfusion (shared _) rfl
        exact goes.stepped_child fits.1 idle fits.2 rfl
    · cases taken
  · rename_i pfh at_ idle
    split at taken
    · rename_i fits
      obtain rfl := Option.some.inj taken
      exact inherits pfh at_ Phase.noConfusion rfl fits.1 idle fits.2
    · cases taken
  · cases taken

theorem Inv.stepped (inv : system.Inv) (taken : system.step action = some next) :
    Stepped system action next := by
  cases action with
  | start pid =>
      obtain ⟨phase, rfl, goes⟩ := start_goes taken
      exact goes.stepped
  | call pid spare =>
      obtain ⟨file, phase, rfl, goes⟩ := inv.call_goes taken
      exact goes.stepped
  | fail pid =>
      obtain ⟨phase, rfl, goes⟩ := fail_goes taken
      exact goes.stepped
  | short pid amount =>
      obtain ⟨file, phase, rfl, goes⟩ := short_goes taken
      exact goes.stepped
  | write pid => exact begin_stepped (fun _ => rfl) taken
  | remove pid => exact begin_stepped (fun _ => rfl) taken
  | close pid => exact begin_stepped (fun _ => rfl) taken
  | fork pid child keeps => exact fork_stepped taken
  | exit pid =>
      obtain rfl := Option.some.inj taken
      unfold PidFiles.exit
      cases (system.phase pid).fd? with
      | none => exact (goes_idle .same).stepped
      | some fd => exact (goes_idle (.closed _ _ fd pid)).stepped

/-! ## Nobody else -/

/-- A description stays one of its inode. -/
theorem FileStep.inodeOf {file : LockedFile Byte} (effect : FileStep system action file)
    (same : system.file.inodeOf fd = some inode) : file.inodeOf fd = some inode := by
  cases effect with
  | same | cleared | written | unlinked => exact same
  | changed other keeps => exact LockedFile.inodeOf_change same other keeps
  | described | created => exact LockedFile.inodeOf_describe same _ _

theorem owner_busy (owner : system.Owner pid inode) : system.phase pid ≠ .idle := by
  obtain ⟨fd, owns, -⟩ := owner
  intro idle
  rw [idle] at owns
  cases owns

/-- The text of a process that has the pid file is left alone by the others. -/
theorem Inv.text_unchanged (inv : system.Inv) (owner : system.Owner pid inode)
    (apart : pid ≠ action.pid) {file : LockedFile Byte} (effect : FileStep system action file) :
    file.text inode = system.file.text inode := by
  cases effect with
  | same | changed | described | unlinked => rfl
  | created spare unnamed => cases unnamed.symm.trans (inv.named owner.relies)
  | cleared another => exact absurd (inv.relies_unique owner.relies another.relies) apart
  | written writes at_ same =>
      have another := owner_of_phase at_ rfl same
      exact absurd (inv.relies_unique owner.relies another.relies) apart

theorem Inv.owned_unchanged (inv : system.Inv) (owner : system.Owner pid inode)
    (apart : pid ≠ action.pid) (allowed : system.OneKeeps action)
    (taken : system.step action = some next) :
    next.Owner pid inode ∧ next.file.named = some inode ∧
      next.file.text inode = system.file.text inode := by
  have stepped := inv.stepped taken
  have still : next.Owner pid inode := by
    obtain ⟨fd, owns, same⟩ := owner
    refine ⟨fd, ?_, stepped.goes.effect.inodeOf same⟩
    rcases stepped.others apart with phase | ⟨idle, -⟩
    · rw [phase]
      exact owns
    · exact absurd idle (owner_busy ⟨fd, owns, same⟩)
  exact ⟨still, (inv.step allowed taken).named still.relies,
    inv.text_unchanged owner apart stepped.goes.effect⟩

/--
While a process has the pid file, no step of another process takes it away, changes what the
path names, or changes what is in the file; but a process behind a fork that is to leave the pid
file neither writes nor removes it.
-/
theorem others_leave {text : Option (List Byte)}
    (reached : Reachable step OneKeeps (ofText text) system) (owner : system.Owner pid inode)
    (apart : pid ≠ action.pid) (allowed : system.OneKeeps action)
    (taken : system.step action = some next) :
    next.Owner pid inode ∧ next.file.named = some inode ∧
      next.file.text inode = system.file.text inode :=
  (inv_of_reachable reached).owned_unchanged owner apart allowed taken

theorem others_leave_seven :
    ∃ next : PidFiles, next.Owner 7 3 ∧ next.file.named = some 3 ∧ next.file.text 3 = [] := by
  obtain ⟨taken, empty, stepped⟩ : ∃ taken : (played openedBySeven).isSome,
      ((played openedBySeven).get taken).file.text 3 = [] ∧
        (((played openedBySeven).get taken).step (.start 8)).isSome := by decide +kernel
  have owner : ((played openedBySeven).get taken).Owner 7 3 :=
    ⟨0, by decide +kernel +revert, by decide +kernel +revert⟩
  obtain ⟨still, named, same⟩ :=
    others_leave (reached_played taken) owner (show 7 ≠ Action.pid (.start 8) by decide) trivial
      (Option.some_get stepped).symm
  exact ⟨_, still, named, same.trans empty⟩

/-! ## What is read -/

/-- A process that had the pid file has made a `pwrite` of so much of its number. -/
def Wrote (text : Option (List Byte)) (actions : List Action) (writer amount : Nat) : Prop :=
  ∃ (earlier later : List Action) (action : Action) (before : PidFiles) (pfh : PidFh),
    actions = earlier ++ action :: later ∧ action.pid = writer ∧ action.Writes amount ∧
      Run step OneKeeps (ofText text) earlier before ∧ before.phase writer = .rewriting pfh

/-- The texts that a pid file may have: none, the one at the start, or as much of the number of a
process as it has written. -/
def Known (text : Option (List Byte)) (actions : List Action) (found : List Byte) : Prop :=
  found = [] ∨ found = text.getD [] ∨
    ∃ writer amount, writer < 2 ^ 31 ∧ found = (pidText writer).take amount ∧
      Wrote text actions writer amount

theorem Wrote.snoc {text : Option (List Byte)} {actions : List Action} {writer amount : Nat}
    (wrote : Wrote text actions writer amount) (action : Action) :
    Wrote text (actions ++ [action]) writer amount := by
  obtain ⟨earlier, later, written, before, pfh, rfl, same, writes, run, at_⟩ := wrote
  exact ⟨earlier, later ++ [action], written, before, pfh, by simp, same, writes, run, at_⟩

theorem Wrote.amount_le {text : Option (List Byte)} {actions : List Action} {writer amount : Nat}
    (wrote : Wrote text actions writer amount) : amount ≤ (pidText writer).length := by
  obtain ⟨earlier, later, action, before, pfh, rfl, rfl, writes, run, at_⟩ := wrote
  cases action with
  | call pid spare => exact Nat.le_of_eq writes
  | short pid less => exact writes.2.le
  | start | fail | write | remove | close | fork | exit => exact writes.elim

theorem Known.snoc {text : Option (List Byte)} {actions : List Action} {found : List Byte}
    (known : Known text actions found) (action : Action) :
    Known text (actions ++ [action]) found := by
  rcases known with empty | start | ⟨writer, amount, small, same, wrote⟩
  · exact .inl empty
  · exact .inr (.inl start)
  · exact .inr (.inr ⟨writer, amount, small, same, wrote.snoc action⟩)

/-- What is known of the texts after a run. -/
structure TextsKnown (text : Option (List Byte)) (actions : List Action) (system : PidFiles) :
    Prop where
  texts : ∀ inode, Known text actions (system.file.text inode)
  rewrites : ∀ {pid pfh}, system.phase pid = .rewriting pfh → ∀ {inode},
    system.file.inodeOf pfh.fd = some inode → system.file.text inode = []
  small : ∀ {pid}, system.phase pid ≠ .idle → pid < 2 ^ 31
  read : ∀ {pid fd count found}, system.phase pid = .read fd count found →
    ∃ whole, Known text actions whole ∧ found = whole.take readSize
  returned : ∀ {pid errno}, system.phase pid = .returned errno → errno = .noEnt ∨
    errno = .other ∨ ∃ whole, Known text actions whole ∧ errno = pidfileRead (whole.take readSize)

theorem Known.step {text : Option (List Byte)} {actions : List Action}
    (known : TextsKnown text actions system)
    (run : Run PidFiles.step OneKeeps (ofText text) actions system) {file : LockedFile Byte}
    (effect : FileStep system action file) (inode : Nat) :
    Known text (actions ++ [action]) (file.text inode) := by
  have before := (known.texts inode).snoc action
  -- a text that is set becomes known, and the others are
  have set : ∀ {changed : Nat} {found : List Byte}, Known text (actions ++ [action]) found →
      Known text (actions ++ [action]) (Function.update system.file.text changed found inode) := by
    intro changed found isKnown
    by_cases same : inode = changed
    · subst same
      rw [Function.update_self]
      exact isKnown
    · rw [Function.update_of_ne same]
      exact before
  cases effect with
  | same | changed | described | unlinked => exact before
  | created | cleared => exact set (.inl rfl)
  | @written amount written pfh writes at_ same =>
      have busy : system.phase action.pid ≠ .idle := by
        rw [at_]
        exact Phase.noConfusion
      have empty := known.rewrites at_ same
      apply set
      rw [empty, pwritten, List.drop_nil, List.append_nil]
      refine .inr (.inr ⟨action.pid, amount, known.small busy, rfl, ?_⟩)
      exact ⟨actions, [], action, system, pfh, rfl, rfl, writes, run, at_⟩

theorem textsKnown {text : Option (List Byte)} {actions : List Action}
    (run : Run step OneKeeps (ofText text) actions system) : TextsKnown text actions system := by
  induction run with
  | start =>
      exact {
        texts := fun inode => .inr (.inl rfl)
        rewrites := fun at_ => Phase.noConfusion at_
        small := fun busy => absurd rfl busy
        read := fun at_ => Phase.noConfusion at_
        returned := fun at_ => Phase.noConfusion at_ }
  | @step actions before action after initial allowed taken known =>
      have inv := inv_of_reachable ⟨actions, initial⟩
      have stepped := inv.stepped taken
      have goes := stepped.goes
      constructor
      · exact Known.step known initial goes.effect
      · intro pid pfh at_ inode same
        by_cases here : pid = action.pid
        · subst here
          exact goes.rewrites at_ same
        · rcases stepped.others here with phase | ⟨-, isPlain, -⟩
          · rw [phase] at at_
            obtain ⟨owned, owner⟩ := inv.exists_owner at_ rfl
            obtain ⟨fd, owns, sameBefore⟩ := owner
            rw [at_] at owns
            obtain rfl := Option.some.inj owns
            obtain rfl := Option.some.inj ((goes.effect.inodeOf sameBefore).symm.trans same)
            rw [inv.text_unchanged (owner_of_phase at_ rfl sameBefore) here goes.effect]
            exact known.rewrites at_ sameBefore
          · rw [at_] at isPlain
            cases isPlain
      · intro pid busy
        by_cases here : pid = action.pid
        · subst here
          by_cases idle : before.phase action.pid = .idle
          · exact (goes.starts idle).resolve_left busy
          · exact known.small idle
        · rcases stepped.others here with phase | ⟨-, -, small⟩
          · rw [phase] at busy
            exact known.small busy
          · exact small
      · intro pid fd count found at_
        by_cases here : pid = action.pid
        · subst here
          obtain ⟨inode, rfl⟩ := goes.reads.read at_
          exact ⟨_, (known.texts inode).snoc action, rfl⟩
        · rcases stepped.others here with phase | ⟨-, isPlain, -⟩
          · rw [phase] at at_
            obtain ⟨whole, isKnown, rfl⟩ := known.read at_
            exact ⟨whole, isKnown.snoc action, rfl⟩
          · rw [at_] at isPlain
            cases isPlain
      · intro pid errno at_
        by_cases here : pid = action.pid
        · subst here
          rcases goes.reads.returned at_ with missing | other | ⟨fd, count, found, read, rfl⟩
          · exact .inl missing
          · exact .inr (.inl other)
          · obtain ⟨whole, isKnown, rfl⟩ := known.read read
            exact .inr (.inr ⟨whole, isKnown.snoc action, rfl⟩)
        · rcases stepped.others here with phase | ⟨-, isPlain, -⟩
          · rw [phase] at at_
            rcases known.returned at_ with missing | other | ⟨whole, isKnown, rfl⟩
            · exact .inl missing
            · exact .inr (.inl other)
            · exact .inr (.inr ⟨whole, isKnown.snoc action, rfl⟩)
          · rw [at_] at isPlain
            cases isPlain

/--
What `pidfile_open` says where it returns no pid file: that there is no file, or nothing in it,
or what was in it at the start; else that a daemon is running whose number is the one of a
process that has had the pid file and has written it, or the beginning of it where `pwrite` was
cut short.
-/
theorem returned_errno {text : Option (List Byte)} {actions : List Action} {errno : PidFileErrno}
    (run : Run step OneKeeps (ofText text) actions system)
    (returned : system.phase pid = .returned errno) :
    errno = .noEnt ∨ errno = .other ∨ errno = .again ∨
      errno = pidfileRead ((text.getD []).take readSize) ∨
      (∃ writer : Nat, errno = .exist writer ∧
        Wrote text actions writer (pidText writer).length) ∨
      ∃ writer amount, amount < (pidText writer).length ∧ Wrote text actions writer amount ∧
        errno = .exist (digitsValue ((pidText writer).take amount)) := by
  rcases (textsKnown run).returned returned with missing | other | ⟨whole, known, rfl⟩
  · exact .inl missing
  · exact .inr (.inl other)
  · rcases known with rfl | rfl | ⟨writer, amount, small, rfl, wrote⟩
    · exact .inr (.inr (.inl rfl))
    · exact .inr (.inr (.inr (.inl rfl)))
    · rcases Nat.eq_zero_or_pos amount with rfl | some_digits
      · exact .inr (.inr (.inl rfl))
      rw [pidfileRead_take small some_digits]
      rcases wrote.amount_le.eq_or_lt with rfl | less
      · rw [List.take_length, digitsValue_pidText]
        exact .inr (.inr (.inr (.inr (.inl ⟨writer, rfl, wrote⟩))))
      · exact .inr (.inr (.inr (.inr (.inr ⟨writer, amount, less, wrote, rfl⟩))))

/-- Process 8 has been told that process 7 has the pid file. -/
def toldToEight : List Action :=
  openedBySeven ++ [.write 7, .call 7 3, .call 7 3, .start 8] ++ List.replicate 6 (.call 8 3)

theorem returned_errno_eight :
    PidFileErrno.exist 7 = .noEnt ∨ PidFileErrno.exist 7 = .other ∨
      PidFileErrno.exist 7 = .again ∨ PidFileErrno.exist 7 = pidfileRead (List.take readSize []) ∨
      (∃ writer : Nat, PidFileErrno.exist 7 = .exist writer ∧
        Wrote none toldToEight writer (pidText writer).length) ∨
      ∃ writer amount, amount < (pidText writer).length ∧
        Wrote none toldToEight writer amount ∧
        PidFileErrno.exist 7 = .exist (digitsValue ((pidText writer).take amount)) := by
  have taken : (played toldToEight).isSome := by decide +kernel
  have told : ((played toldToEight).get taken).phase 8 = .returned (.exist 7) := by
    decide +kernel +revert
  exact returned_errno (Run.of_execute (Option.some_get taken).symm) told

end PidFiles

end ReactiveToolbox.Sys
