import ReactiveToolbox.Sys.PidFileTexts

/-!
# A pid file that is opened

What becomes of an open that no other process interferes with: it gets the pid file, whatever
has been left in it, unless another process has it locked.
-/

namespace ReactiveToolbox.Sys

open ReactiveToolbox.Lib

namespace PidFiles

variable {system : PidFiles} {pid spare fd inode : Nat} {file : LockedFile Byte} {phase : Phase}

/-- A process is somewhere, with the file system as it is then. -/
def put (system : PidFiles) (pid : Nat) (file : LockedFile Byte) (phase : Phase) : PidFiles :=
  (system.withFile file).goto pid phase

theorem put_goto (next : Phase) : (system.put pid file phase).goto pid next =
    system.put pid file next :=
  goto_twice _ _ _ _

theorem put_withFile (next : LockedFile Byte) :
    (system.put pid file phase).withFile next = system.put pid next phase :=
  rfl

theorem put_phase : (system.put pid file phase).phase pid = phase :=
  goto_phase_self _ _ _

theorem put_file : (system.put pid file phase).file = file :=
  rfl

theorem call_opening {next : LockedFile Byte} (created : file.create pid spare = some next) :
    (system.put pid file .opening).call pid spare =
      some (system.put pid next (.opened file.descriptions.length)) := by
  rw [call, put_phase]
  dsimp only
  rw [put_file, created, Option.map_some, put_withFile, put_goto]

theorem call_opened (same : file.inodeOf fd = some inode) :
    (system.put pid file (.opened fd)).call pid spare =
      some
        (if file.Lockable inode then system.put pid (file.lock fd) (.locked fd)
        else system.put pid file (.refused fd)) := by
  rw [call, put_phase]
  dsimp only
  rw [put_file, same, Option.map_some, put_withFile, put_goto, put_goto]

theorem call_refused :
    (system.put pid file (.refused fd)).call pid spare =
      some (system.put pid (file.close fd pid) (.asking 0)) := by
  rw [call, put_phase]
  dsimp only [closeThen]
  rw [put_file, put_withFile, put_goto]

theorem call_locked (named : file.named = some inode) :
    (system.put pid file (.locked fd)).call pid spare =
      some (system.put pid file (.found fd inode)) := by
  rw [call, put_phase]
  dsimp only
  rw [put_file, named]
  dsimp only
  rw [put_goto]

theorem call_found (same : file.inodeOf fd = some inode) :
    (system.put pid file (.found fd inode)).call pid spare =
      some (system.put pid file (.confirmed fd)) := by
  rw [call, put_phase]
  dsimp only
  rw [put_file, if_pos same, put_goto]

theorem call_confirmed (same : file.inodeOf fd = some inode) :
    (system.put pid file (.confirmed fd)).call pid spare =
      some (system.put pid (file.setText inode []) (.emptied fd)) := by
  rw [call, put_phase]
  dsimp only [textThen]
  rw [put_file, same, Option.map_some, put_withFile, put_goto]

theorem call_emptied (same : file.inodeOf fd = some inode) :
    (system.put pid file (.emptied fd)).call pid spare =
      some (system.put pid file (.holding ⟨fd, inode⟩)) := by
  rw [call, put_phase]
  dsimp only
  rw [put_file, same, Option.map_some, put_goto]

theorem call_asking {count : Nat} (named : file.named = some inode) :
    (system.put pid file (.asking count)).call pid spare =
      some
        (system.put pid (file.describe pid inode) (.reading file.descriptions.length count)) := by
  rw [call, put_phase]
  dsimp only
  rw [put_file, named]
  dsimp only
  rw [put_withFile, put_goto]

theorem call_reading {count : Nat} (same : file.inodeOf fd = some inode) :
    (system.put pid file (.reading fd count)).call pid spare =
      some (system.put pid file (.read fd count ((file.text inode).take readSize))) := by
  rw [call, put_phase]
  dsimp only
  rw [put_file, same, Option.map_some, put_goto]

theorem call_read {count : Nat} {text : List Byte} :
    (system.put pid file (.read fd count text)).call pid spare =
      some (system.put pid (file.close fd pid) (answered count (pidfileRead text))) := by
  rw [call, put_phase]
  dsimp only [closeThen]
  rw [put_file, put_withFile, put_goto]

/-! ## Runs of one process -/

/-- `pidfile_open` of a process that the others leave alone. -/
def alone (pid spare calls : Nat) : List Action :=
  .start pid :: List.replicate calls (.call pid spare)

/-- A process that has no pid file that it could close. -/
def Free (phase : Phase) : Prop :=
  phase = .idle ∨ phase = .void ∨ ∃ errno, phase = .returned errno

theorem start_free (free : Free (system.phase pid)) (small : pid < 2 ^ 31) :
    system.step (.start pid) = some (system.put pid system.file .opening) := by
  show system.start pid = _
  rw [start]
  rcases free with at_ | at_ | ⟨errno, at_⟩
  · rw [at_]
    dsimp only
    rw [if_pos small]
    rfl
  · rw [at_]
    dsimp only
    rw [if_pos small]
    rfl
  · rw [at_]
    dsimp only
    rw [if_pos small]
    rfl

theorem execute_calls {next : PidFiles} (taken : system.call pid spare = some next)
    (calls : Nat) :
    execute step unguarded system (List.replicate (calls + 1) (.call pid spare)) =
      execute step unguarded next (List.replicate calls (.call pid spare)) := by
  rw [List.replicate_succ]
  exact execute_cons taken _

/-- A file that is opened has the name, and a new description.  If there was none, nobody has
it open. -/
theorem create_opens (file : LockedFile Byte) (pid : Nat)
    (fresh : file.named = none → ¬file.InUse spare) :
    ∃ inode opened, file.create pid spare = some opened ∧ opened.named = some inode ∧
      opened.inodeOf file.descriptions.length = some inode ∧
      (file.named = some inode ∧ opened = file.describe pid inode ∨
        ¬file.InUse inode ∧ opened.descriptions = (file.describe pid inode).descriptions) := by
  unfold LockedFile.create
  cases named : file.named with
  | some inode =>
      exact ⟨inode, _, rfl, named, (file.has_describe pid inode).inodeOf, .inl ⟨rfl, rfl⟩⟩
  | none =>
      dsimp only
      rw [if_neg (fresh named)]
      exact ⟨spare, _, rfl, rfl, (LockedFile.has_describe _ pid spare).inodeOf,
        .inr ⟨fresh named, rfl⟩⟩

theorem open_free (free : Free (system.phase pid)) (small : pid < 2 ^ 31)
    {opened : LockedFile Byte} (created : system.file.create pid spare = some opened)
    (named : opened.named = some inode)
    (same : opened.inodeOf system.file.descriptions.length = some inode)
    (lockable : opened.Lockable inode) :
    execute step unguarded system (alone pid spare 6) =
      some (system.put pid
        ((opened.lock system.file.descriptions.length).setText inode [])
        (.holding ⟨system.file.descriptions.length, inode⟩)) := by
  have sameLocked :
      (opened.lock system.file.descriptions.length).inodeOf system.file.descriptions.length =
        some inode :=
    LockedFile.inodeOf_change same _ fun _ => rfl
  have sameEmptied :
      ((opened.lock system.file.descriptions.length).setText inode []).inodeOf
        system.file.descriptions.length = some inode :=
    sameLocked
  have namedLocked : (opened.lock system.file.descriptions.length).named = some inode := named
  have first : (system.put pid opened (.opened system.file.descriptions.length)).call pid spare =
      _ :=
    call_opened same
  rw [if_pos lockable] at first
  rw [alone, execute_cons (start_free free small), execute_calls (call_opening created),
    execute_calls first, execute_calls (call_locked namedLocked),
    execute_calls (call_found sameLocked), execute_calls (call_confirmed sameLocked),
    execute_calls (call_emptied sameEmptied)]
  rfl

/-- The file system behind a `pidfile_read`. -/
def asked (file : LockedFile Byte) (pid inode : Nat) : LockedFile Byte :=
  (file.describe pid inode).close file.descriptions.length pid

/-- Once more `pidfile_read` opens the file, reads it and closes it. -/
theorem asks_once (system : PidFiles) (pid spare : Nat) (named : file.named = some inode)
    (count calls : Nat) :
    execute step unguarded (system.put pid file (.asking count))
        (List.replicate (calls + 3) (.call pid spare)) =
      execute step unguarded
        (system.put pid (asked file pid inode)
          (answered count (pidfileRead ((file.text inode).take readSize))))
        (List.replicate calls (.call pid spare)) := by
  have same := (file.has_describe pid inode).inodeOf
  rw [execute_calls (call_asking named), execute_calls (call_reading same),
    execute_calls call_read]
  rfl

/-- What is in the file is asked for up to four times, as long as it is empty. -/
theorem asks (system : PidFiles) (pid spare : Nat) (named : file.named = some inode)
    {count tries : Nat} (left : count + tries = 3) :
    ∃ calls after, calls ≤ 3 * (tries + 1) ∧
      execute step unguarded (system.put pid file (.asking count))
          (List.replicate calls (.call pid spare)) =
        some (system.put pid after
          (.returned (pidfileRead ((file.text inode).take readSize)))) := by
  induction tries generalizing count file with
  | zero =>
      refine ⟨3, asked file pid inode, Nat.le_refl _, ?_⟩
      rw [asks_once system pid spare named count 0, answered, if_neg]
      · rfl
      · rintro ⟨-, more⟩
        exact absurd left (Nat.ne_of_lt more)
  | succ tries continued =>
      by_cases again : pidfileRead ((file.text inode).take readSize) = .again
      · have closed : (asked file pid inode).named = some inode := named
        obtain ⟨calls, after, few, ran⟩ := continued closed (show count + 1 + tries = 3 by omega)
        refine ⟨calls + 3, after, by omega, ?_⟩
        rw [asks_once system pid spare named count calls, answered, if_pos ⟨again, by omega⟩]
        exact ran
      · refine ⟨3, asked file pid inode, by omega, ?_⟩
        rw [asks_once system pid spare named count 0, answered, if_neg fun both => again both.1]
        rfl

theorem open_locked (free : Free (system.phase pid)) (small : pid < 2 ^ 31)
    (named : system.file.named = some inode) (locked : ¬system.file.Lockable inode) :
    ∃ calls file, calls ≤ 15 ∧ execute step unguarded system (alone pid spare calls) =
      some (system.put pid file
        (.returned (pidfileRead ((system.file.text inode).take readSize)))) := by
  have created : system.file.create pid spare = some (system.file.describe pid inode) := by
    rw [LockedFile.create, named]
  have same := (system.file.has_describe pid inode).inodeOf
  have first : (system.put pid (system.file.describe pid inode)
      (.opened system.file.descriptions.length)).call pid spare = _ :=
    call_opened same
  rw [if_neg fun lockable => locked ((LockedFile.lockable_describe pid inode).mp lockable)] at first
  let closed := (system.file.describe pid inode).close system.file.descriptions.length pid
  have closedNamed : closed.named = some inode := named
  obtain ⟨calls, after, few, ran⟩ := asks system pid spare closedNamed (Nat.zero_add 3)
  refine ⟨calls + 3, after, Nat.add_le_add_right few 3, ?_⟩
  rw [alone, execute_cons (start_free free small), execute_calls (call_opening created),
    execute_calls first, execute_calls call_refused]
  exact ran

/--
An open that the others leave alone gets the pid file, empty, whatever has been left in it;
unless a process that has it open has it locked, and then it says what is in the file.  So does
the open of a process that has been refused before.
-/
theorem open_alone {text : Option (List Byte)}
    (reached : Reachable step OneKeeps (ofText text) system) (free : Free (system.phase pid))
    (small : pid < 2 ^ 31) (fresh : system.file.named = none → ¬system.file.InUse spare) :
    ∃ calls next, calls ≤ 15 ∧
      execute step unguarded system (alone pid spare calls) = some next ∧
      ((∃ fd inode, next.phase pid = .holding ⟨fd, inode⟩ ∧ next.file.named = some inode ∧
          next.file.text inode = []) ∨
        ∃ inode other fd, system.file.named = some inode ∧
          (system.phase other).fd? = some fd ∧ system.file.Locks other fd inode ∧
          next.phase pid =
            .returned (pidfileRead ((system.file.text inode).take readSize))) := by
  have inv := inv_of_reachable reached
  obtain ⟨inode, opened, created, named, same, before⟩ := create_opens system.file pid fresh
  have sameLockable : opened.Lockable inode ↔ system.file.Lockable inode := by
    rcases before with ⟨-, rfl⟩ | ⟨-, descriptions⟩
    · exact LockedFile.lockable_describe pid inode
    · rw [LockedFile.Lockable, descriptions]
      exact LockedFile.lockable_describe pid inode
  by_cases lockable : system.file.Lockable inode
  · refine ⟨6, _, by decide, open_free free small created named same (sameLockable.mpr lockable),
      .inl ?_⟩
    exact ⟨_, inode, put_phase, named, Function.update_self _ _ _⟩
  · obtain ⟨fd, other, locks⟩ := inv.occupied.exists_of_not_lockable lockable
    have uses := locks.has.uses
    rcases before with ⟨hadName, -⟩ | ⟨unused, -⟩
    · obtain ⟨calls, file, few, ran⟩ := open_locked free small hadName lockable
      exact ⟨calls, _, few, ran, .inr ⟨inode, other, fd, hadName, inv.uses uses, locks, put_phase⟩⟩
    · exact absurd (LockedFile.inUse_of_uses uses locks.has.inodeOf) unused

/-- A number that has been left in the file is in nobody's way. -/
theorem open_alone_left :
    ∃ calls next, calls ≤ 15 ∧
      execute step unguarded (ofText (some (pidText 6))) (alone 7 3 calls) = some next ∧
      ((∃ fd inode, next.phase 7 = .holding ⟨fd, inode⟩ ∧ next.file.named = some inode ∧
          next.file.text inode = []) ∨
        ∃ inode other fd, (ofText (some (pidText 6))).file.named = some inode ∧
          ((ofText (some (pidText 6))).phase other).fd? = some fd ∧
          (ofText (some (pidText 6))).file.Locks other fd inode ∧
          next.phase 7 = .returned
            (pidfileRead (((ofText (some (pidText 6))).file.text inode).take readSize))) :=
  open_alone Reachable.refl (.inl rfl) (by decide) (by decide)

end PidFiles

end ReactiveToolbox.Sys
