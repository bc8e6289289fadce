import ReactiveToolbox.Io.Epoll
import ReactiveToolbox.Lib.Transition

/-!
# Handles and poller stay in step

Handles subscribe, change and end their subscriptions in any order, with their
batches open or closed, and descriptors are reused.  Each row of the poller
belongs to the handle that made it; a closed batch leaves the row as its handle
wants it.
-/

namespace ReactiveToolbox.Io

open ReactiveToolbox.Lib

universe u v

/-! ## One row of the poller -/

section Rows

variable {Slot : Type u} {epoll epoll' : Epoll Slot} {handle handle' : PollHandle Slot}
    {accepted : Bool} {fd : Nat}

/-- The kernel holds of a descriptor what its row says. -/
def KernelAgrees (epoll : Epoll Slot) (fd : Nat) : Prop :=
  epoll.kernel.registered fd =
    if (epoll.data fd).empty then none
    else some {
      events := toEpollEvents (epoll.data fd).events
      sid := (epoll.data fd).sid
      number := epoll.kernel.added fd }

/-- The row of a descriptor is what its handle wants. -/
structure Settled (handle : PollHandle Slot) (row : PollFD Slot) : Prop where
  wanted : row.empty = false → row.events = handle.events ∧ row.slot = handle.slot
  present : handle.slot.isSome → handle.events ≠ 0 → row.empty = false

/-- The poller has nothing to do for a handle. -/
def CommitIdle (epoll : Epoll Slot) (handle : PollHandle Slot) : Prop :=
  ∃ accepted, epoll.ctl handle = some (epoll, handle, accepted)

/-- What `ctl` does to the handle and to the row of its descriptor. -/
inductive CtlEffect (epoll : Epoll Slot) (handle : PollHandle Slot) (fd : Nat) :
    Epoll Slot → PollHandle Slot → Prop where
  | idle
      (reason : ((epoll.data fd).empty ∧ (handle.slot.isNone ∨ handle.events = 0)) ∨
        ((epoll.data fd).empty = false ∧ handle.slot.isSome ∧
          (epoll.data fd).sid ≠ handle.sid)) :
      CtlEffect epoll handle fd epoll handle
  | removed {kernel : Kernel}
      (unwanted : handle.slot.isNone)
      (present : (epoll.data fd).empty = false)
      (deleted : epoll.kernel.del fd = some kernel) :
      CtlEffect epoll handle fd ((epoll.setKernel kernel).setData fd .cleared) handle
  | added {kernel : Kernel}
      (absent : (epoll.data fd).empty)
      (wanted : handle.slot.isSome)
      (events : handle.events ≠ 0)
      (registered : epoll.kernel.add fd handle.nextSid.sid handle.events = some kernel) :
      CtlEffect epoll handle fd
        ((epoll.setData fd handle.nextSid.toPollFD).setKernel kernel) handle.nextSid
  | modified {kernel : Kernel}
      (present : (epoll.data fd).empty = false)
      (wanted : handle.slot.isSome)
      (same : (epoll.data fd).sid = handle.sid)
      (updated :
        (if handle.events = (epoll.data fd).events then some epoll.kernel
          else epoll.kernel.mod fd handle.sid handle.events) = some kernel) :
      CtlEffect epoll handle fd
        ((epoll.setKernel kernel).setData fd
          { epoll.data fd with events := handle.events, slot := handle.slot })
        handle

/-- `ctl` on a handle with a descriptor has one of these effects. -/
theorem ctl_effect
    (attached : handle.fd = some fd)
    (taken : epoll.ctl handle = some (epoll', handle', accepted)) :
    CtlEffect epoll handle fd epoll' handle' := by
  unfold Epoll.ctl at taken
  rw [attached] at taken
  cases slot : handle.slot with
  | none =>
      rw [slot] at taken
      simp only at taken
      split at taken
      · rename_i absent
        cases taken
        exact .idle (Or.inl ⟨absent, Or.inl (by rw [slot]; rfl)⟩)
      · rename_i present
        rcases Option.map_eq_some_iff.mp taken with ⟨kernel, deleted, result⟩
        cases result
        exact .removed (by rw [slot]; rfl) (by simpa using present) deleted
  | some wanted =>
      rw [slot] at taken
      simp only at taken
      split at taken
      · rename_i absent
        split at taken
        · rename_i nothing
          cases taken
          exact .idle (Or.inl ⟨absent, Or.inr nothing⟩)
        · rename_i events
          rcases Option.map_eq_some_iff.mp taken with ⟨kernel, registered, result⟩
          cases result
          exact .added absent (by rw [slot]; rfl) events registered
      · rename_i present
        split at taken
        · rename_i stale
          cases taken
          exact .idle (Or.inr ⟨by simpa using present, by rw [slot]; rfl, stale⟩)
        · rename_i same
          rcases Option.map_eq_some_iff.mp taken with ⟨kernel, updated, result⟩
          cases result
          rw [← slot]
          exact .modified (by simpa using present) (by rw [slot]; rfl)
            (by simpa using same) updated

/-- `ctl` on a handle without a descriptor changes nothing. -/
theorem ctl_detached
    (detached : handle.fd = none)
    (taken : epoll.ctl handle = some (epoll', handle', accepted)) :
    epoll' = epoll ∧ handle' = handle := by
  unfold Epoll.ctl at taken
  rw [detached] at taken
  cases slot : handle.slot with
  | none =>
      rw [slot] at taken
      cases taken
      exact ⟨rfl, rfl⟩
  | some wanted =>
      rw [slot] at taken
      cases taken

/-- `ctl` touches the row and the registration of its own descriptor only. -/
theorem CtlEffect.frame
    (effect : CtlEffect epoll handle fd epoll' handle') {other : Nat} (apart : other ≠ fd) :
    epoll'.data other = epoll.data other ∧
      epoll'.kernel.registered other = epoll.kernel.registered other ∧
      epoll'.kernel.added other = epoll.kernel.added other := by
  cases effect with
  | idle => exact ⟨rfl, rfl, rfl⟩
  | removed unwanted present deleted =>
      rcases Option.map_eq_some_iff.mp deleted with ⟨registration, -, rfl⟩
      exact ⟨Function.update_of_ne apart _ _, Function.update_of_ne apart _ _, rfl⟩
  | added absent wanted events registered =>
      unfold Kernel.add at registered
      split at registered
      · cases registered
      · cases registered
        exact ⟨Function.update_of_ne apart _ _, Function.update_of_ne apart _ _,
          Function.update_of_ne apart _ _⟩
  | modified present wanted same updated =>
      refine ⟨Function.update_of_ne apart _ _, ?_⟩
      split at updated
      · cases updated
        exact ⟨rfl, rfl⟩
      · rcases Option.map_eq_some_iff.mp updated with ⟨registration, -, rfl⟩
        exact ⟨Function.update_of_ne apart _ _, rfl⟩

theorem CtlEffect.own
    (effect : CtlEffect epoll handle fd epoll' handle') :
    epoll'.timerFd = epoll.timerFd ∧ epoll'.notifyFd = epoll.notifyFd := by
  cases effect <;> exact ⟨rfl, rfl⟩

/-- `ctl` may renumber the handle and changes nothing else of it. -/
theorem CtlEffect.handle_eq
    (effect : CtlEffect epoll handle fd epoll' handle') :
    handle' = { handle with sid := handle'.sid } := by
  cases effect <;> rfl

/-- `ctl` keeps row and kernel in agreement. -/
theorem CtlEffect.kernel
    (effect : CtlEffect epoll handle fd epoll' handle')
    (agrees : KernelAgrees epoll fd) : KernelAgrees epoll' fd := by
  cases effect with
  | idle => exact agrees
  | removed unwanted present deleted =>
      rcases Option.map_eq_some_iff.mp deleted with ⟨registration, -, rfl⟩
      simp [KernelAgrees, Epoll.setData, Epoll.setKernel, PollFD.cleared, PollFD.empty]
  | added absent wanted events registered =>
      unfold Kernel.add at registered
      split at registered
      · cases registered
      · cases registered
        simp only [KernelAgrees, Epoll.setData, Epoll.setKernel, Function.update_self,
          PollFD.empty]
        simp [PollHandle.nextSid, Option.isNone_eq_false_iff.mpr wanted]
  | modified present wanted same updated =>
      have registered := agrees
      simp only [KernelAgrees, present, Bool.false_eq_true, if_false] at registered
      simp only [KernelAgrees, Epoll.setData, Epoll.setKernel, Function.update_self,
        PollFD.empty, Option.isNone_eq_false_iff.mpr wanted, Bool.false_eq_true, if_false]
      split at updated
      · rename_i unchanged
        cases updated
        rw [registered, unchanged]
      · rw [Kernel.mod, registered] at updated
        cases updated
        simp [same]

/--
A row is made with the next number of its handle, in a new registration; until
then it keeps its number or goes.
-/
def RowStep (epoll : Epoll Slot) (handle : PollHandle Slot) (fd : Nat)
    (epoll' : Epoll Slot) : Prop :=
  (epoll'.kernel.added fd = epoll.kernel.added fd ∧
    ((epoll'.data fd).empty = false →
      (epoll.data fd).empty = false ∧ (epoll'.data fd).sid = (epoll.data fd).sid)) ∨
  (epoll'.kernel.added fd = epoll.kernel.added fd + 1 ∧
    (epoll'.data fd).sid = handle.sid + 1)

theorem RowStep.refl (epoll : Epoll Slot) (handle : PollHandle Slot) (fd : Nat) :
    RowStep epoll handle fd epoll :=
  Or.inl ⟨rfl, fun present => ⟨present, rfl⟩⟩

theorem CtlEffect.row
    (effect : CtlEffect epoll handle fd epoll' handle') :
    RowStep epoll handle fd epoll' := by
  cases effect with
  | idle => exact RowStep.refl epoll handle fd
  | removed unwanted present deleted =>
      rcases Option.map_eq_some_iff.mp deleted with ⟨registration, -, rfl⟩
      refine Or.inl ⟨rfl, fun left => ?_⟩
      simp [Epoll.setData, PollFD.cleared, PollFD.empty] at left
  | added absent wanted events registered =>
      unfold Kernel.add at registered
      split at registered
      · cases registered
      · cases registered
        exact Or.inr (by simp [Epoll.setData, Epoll.setKernel, PollHandle.nextSid])
  | modified present wanted same updated =>
      refine Or.inl ⟨?_, fun _ => ⟨present, by simp [Epoll.setData]⟩⟩
      split at updated
      · cases updated
        rfl
      · rcases Option.map_eq_some_iff.mp updated with ⟨registration, -, rfl⟩
        rfl

/-- A row that agrees in its number before `ctl` agrees after it. -/
theorem CtlEffect.sid
    (effect : CtlEffect epoll handle fd epoll' handle')
    (numbered : (epoll.data fd).empty = false → (epoll.data fd).sid = handle.sid)
    (present : (epoll'.data fd).empty = false) :
    (epoll'.data fd).sid = handle'.sid := by
  cases effect with
  | idle => exact numbered present
  | removed =>
      simp [Epoll.setData, PollFD.cleared, PollFD.empty] at present
  | added => simp [Epoll.setData, Epoll.setKernel]
  | modified _ _ same => simpa [Epoll.setData] using same

/-- After `ctl` the row is what the handle wants, if it was the handle's. -/
theorem CtlEffect.settled
    (effect : CtlEffect epoll handle fd epoll' handle')
    (numbered : (epoll.data fd).empty = false → (epoll.data fd).sid = handle.sid) :
    Settled handle' (epoll'.data fd) := by
  cases effect with
  | idle reason =>
      rcases reason with ⟨absent, nothing⟩ | ⟨present, -, stale⟩
      · refine ⟨fun present => ?_, fun wanted events => ?_⟩
        · rw [absent] at present
          cases present
        · rcases nothing with unwanted | none
          · rw [Option.isNone_iff_eq_none] at unwanted
            rw [unwanted] at wanted
            cases wanted
          · exact absurd none events
      · exact absurd (numbered present) stale
  | removed unwanted =>
      refine ⟨fun present => ?_, fun wanted => ?_⟩
      · simp [Epoll.setData, PollFD.cleared, PollFD.empty] at present
      · rw [Option.isNone_iff_eq_none] at unwanted
        rw [unwanted] at wanted
        cases wanted
  | added absent wanted =>
      refine ⟨fun _ => ?_, fun _ _ => ?_⟩
      · simp [Epoll.setData, Epoll.setKernel]
      · simpa [Epoll.setData, Epoll.setKernel, PollFD.empty, PollHandle.nextSid] using wanted
  | modified present wanted =>
      refine ⟨fun _ => ?_, fun _ _ => ?_⟩
      · simp [Epoll.setData]
      · simpa [Epoll.setData, PollFD.empty] using wanted

/-- Where the poller has nothing to do, the row is what the handle wants. -/
theorem CommitIdle.settled
    (idle : CommitIdle epoll handle) (attached : handle.fd = some fd)
    (numbered : (epoll.data fd).empty = false → (epoll.data fd).sid = handle.sid) :
    Settled handle (epoll.data fd) := by
  rcases idle with ⟨accepted, taken⟩
  exact (ctl_effect attached taken).settled numbered

/-! ## One operation of a handle -/

/-- An operation other than `reset` and `batching` leaves the poller alone or ends in `ctl`. -/
inductive OpEffect (epoll : Epoll Slot) (handle : PollHandle Slot) :
    Epoll Slot → PollHandle Slot → Prop where
  | deferred (events : PollEvents) (slot : Option Slot)
      (reason : handle.batchCtl = true ∨ events = handle.events ∧ slot = handle.slot ∨
        handle.slot = none ∧ slot = none) :
      OpEffect epoll handle epoll { handle with events := events, slot := slot }
  | committed (events : PollEvents) (slot : Option Slot)
      {after : Epoll Slot} {renumbered : PollHandle Slot} {answer : Bool}
      (taken :
        epoll.ctl { handle with events := events, slot := slot } =
          some (after, renumbered, answer)) :
      OpEffect epoll handle after { renumbered with pendingCtl := false }

theorem commit_effect {force : Bool} {events : PollEvents} {slot : Option Slot}
    (taken : PollHandle.commit { handle with events := events, slot := slot } epoll force =
      some (epoll', handle')) :
    OpEffect epoll handle epoll' handle' := by
  unfold PollHandle.commit at taken
  split at taken
  · rcases Option.map_eq_some_iff.mp taken with ⟨⟨after, renumbered, accepted⟩, moved, result⟩
    cases result
    exact .committed events slot moved
  · rename_i skipped
    cases taken
    refine .deferred events slot (Or.inl ?_)
    simp only [Bool.or_eq_true, Bool.not_eq_true', not_or, Bool.not_eq_false] at skipped
    exact skipped.1.2

theorem apply_effect [DecidableEq Slot] {op : HandleOp Slot}
    (notReset : op ≠ .reset) (notBatching : ∀ enable, op ≠ .batching enable)
    (taken : handle.apply epoll op = some (epoll', handle')) :
    OpEffect epoll handle epoll' handle' := by
  have unchanged : some (epoll, handle) = some (epoll', handle') →
      OpEffect epoll handle epoll' handle' := by
    intro same
    cases same
    exact .deferred handle.events handle.slot (Or.inr (Or.inl ⟨rfl, rfl⟩))
  cases op with
  | add events =>
      simp only [PollHandle.apply, PollHandle.add] at taken
      split at taken
      · split at taken
        · exact commit_effect taken
        · rename_i noSlot
          cases taken
          rw [Option.isSome_iff_ne_none, not_not] at noSlot
          exact .deferred _ handle.slot (Or.inr (Or.inr ⟨noSlot, noSlot⟩))
      · exact unchanged taken
  | addSlot events slot =>
      simp only [PollHandle.apply, PollHandle.addSlot] at taken
      split at taken
      · exact commit_effect taken
      · exact unchanged taken
  | del events =>
      simp only [PollHandle.apply, PollHandle.del] at taken
      split at taken
      · exact commit_effect taken
      · exact unchanged taken
  | delSlot events slot =>
      simp only [PollHandle.apply, PollHandle.delSlot] at taken
      split at taken
      · exact commit_effect taken
      · exact unchanged taken
  | mod slot =>
      simp only [PollHandle.apply, PollHandle.mod] at taken
      split at taken
      · exact commit_effect taken
      · exact unchanged taken
  | reset => exact absurd rfl notReset
  | batching enable => exact absurd rfl (notBatching enable)
  | commit force => exact commit_effect taken

/-! ## What every operation keeps -/

/-- The effect of a handle's operation on the rows, on its descriptor and its number. -/
structure HandleStep (epoll : Epoll Slot) (handle : PollHandle Slot)
    (epoll' : Epoll Slot) (handle' : PollHandle Slot) : Prop where
  own : epoll'.timerFd = epoll.timerFd ∧ epoll'.notifyFd = epoll.notifyFd
  frame : ∀ other, handle.fd ≠ some other →
    epoll'.data other = epoll.data other ∧
      epoll'.kernel.registered other = epoll.kernel.registered other ∧
      epoll'.kernel.added other = epoll.kernel.added other
  kernel : ∀ fd, KernelAgrees epoll fd → KernelAgrees epoll' fd
  row : ∀ fd, handle.fd = some fd → RowStep epoll handle fd epoll'
  detached : handle.fd = none → handle'.fd = none
  numbered : ∀ fd, handle.fd = some fd →
    ((epoll.data fd).empty = false → (epoll.data fd).sid = handle.sid) →
      (handle'.fd = some fd ∧
        ((epoll'.data fd).empty = false → (epoll'.data fd).sid = handle'.sid)) ∨
      (handle'.fd = none ∧ (epoll'.data fd).empty)

theorem KernelAgrees.of_same
    (agrees : KernelAgrees epoll fd)
    (same : epoll'.data fd = epoll.data fd ∧
      epoll'.kernel.registered fd = epoll.kernel.registered fd ∧
      epoll'.kernel.added fd = epoll.kernel.added fd) :
    KernelAgrees epoll' fd := by
  unfold KernelAgrees
  rw [same.1, same.2.1, same.2.2]
  exact agrees

/-- An operation that changes neither rows nor descriptor nor number. -/
theorem HandleStep.of_same
    (sameFd : handle'.fd = handle.fd) (sameSid : handle'.sid = handle.sid) :
    HandleStep epoll handle epoll handle' :=
  ⟨⟨rfl, rfl⟩, fun _ _ => ⟨rfl, rfl, rfl⟩, fun _ agrees => agrees,
    fun fd _ => RowStep.refl epoll handle fd, fun detached => sameFd.trans detached,
    fun _ attached numbered => Or.inl ⟨sameFd.trans attached, sameSid ▸ numbered⟩⟩

/-- What a handle became matters only in its descriptor and number. -/
theorem HandleStep.congr {start left : PollHandle Slot}
    (step : HandleStep epoll handle epoll' handle')
    (startFd : start.fd = handle.fd) (startSid : start.sid = handle.sid)
    (leftFd : left.fd = handle'.fd) (leftSid : left.sid = handle'.sid) :
    HandleStep epoll start epoll' left := by
  rcases step with ⟨own, frame, kernel, row, detached, numbered⟩
  refine ⟨own, ?_, kernel, ?_, ?_, ?_⟩
  · rwa [startFd]
  · rw [startFd]
    intro fd attached
    have moved := row fd attached
    rwa [RowStep, ← startSid] at moved
  · rwa [startFd, leftFd]
  · rwa [startFd, startSid, leftFd, leftSid]

/-- A handle whose `ctl` has been called. -/
theorem HandleStep.of_ctl {wanted renumbered : PollHandle Slot}
    (sameFd : wanted.fd = handle.fd) (sameSid : wanted.sid = handle.sid)
    (taken : epoll.ctl wanted = some (epoll', renumbered, accepted)) :
    HandleStep epoll handle epoll' renumbered := by
  cases attached : handle.fd with
  | none =>
      rcases ctl_detached (sameFd.trans attached) taken with ⟨rfl, rfl⟩
      refine ⟨⟨rfl, rfl⟩, fun _ _ => ⟨rfl, rfl, rfl⟩, fun _ agrees => agrees,
        fun fd _ => RowStep.refl _ _ fd, fun _ => sameFd.trans attached,
        fun fd impossible => ?_⟩
      rw [attached] at impossible
      cases impossible
  | some fd =>
      have effect := ctl_effect (sameFd.trans attached) taken
      refine ⟨effect.own, fun other apart => effect.frame ?_, fun other agrees => ?_,
        fun same attached' => ?_, fun detached => ?_,
        fun same attached' numbered => Or.inl ⟨?_, fun present => ?_⟩⟩
      · rintro rfl
        exact apart attached
      · by_cases equal : other = fd
        · subst equal
          exact effect.kernel agrees
        · exact agrees.of_same (effect.frame equal)
      · obtain rfl := Option.some.inj (attached.symm.trans attached')
        have row := effect.row
        rw [RowStep, sameSid] at row
        exact row
      · rw [attached] at detached
        cases detached
      · rw [effect.handle_eq]
        exact sameFd.trans attached'
      · obtain rfl := Option.some.inj (attached.symm.trans attached')
        rw [← sameSid] at numbered
        exact effect.sid numbered present

theorem OpEffect.handleStep
    (effect : OpEffect epoll handle epoll' handle') :
    HandleStep epoll handle epoll' handle' := by
  cases effect with
  | deferred events slot reason => exact .of_same rfl rfl
  | committed events slot taken =>
      exact (HandleStep.of_ctl rfl rfl taken).congr rfl rfl rfl rfl

/-- After an operation the row is what the handle wants, unless a batch is open. -/
theorem OpEffect.settled
    (effect : OpEffect epoll handle epoll' handle')
    (attached : handle.fd = some fd)
    (numbered : (epoll.data fd).empty = false → (epoll.data fd).sid = handle.sid)
    (before : handle.batchCtl = false → Settled handle (epoll.data fd))
    (closed : handle'.batchCtl = false) :
    Settled handle' (epoll'.data fd) := by
  cases effect with
  | deferred events slot reason =>
      have settled := before closed
      rcases reason with batch | ⟨rfl, rfl⟩ | ⟨noSlot, rfl⟩
      · exact absurd (batch.symm.trans closed) (by decide)
      · exact settled
      · refine ⟨fun present => ?_, fun wanted => ?_⟩
        · have row := (settled.wanted present).2
          rw [noSlot] at row
          rw [PollFD.empty, row] at present
          cases present
        · cases wanted
  | committed events slot taken =>
      have effect := ctl_effect (by exact attached) taken
      rcases effect.settled numbered with ⟨wanted, present⟩
      exact ⟨wanted, present⟩

/-- A forced commit leaves the row as the handle wants it. -/
theorem forced_settled
    (attached : handle.fd = some fd)
    (numbered : (epoll.data fd).empty = false → (epoll.data fd).sid = handle.sid)
    (taken : handle.commit epoll true = some (epoll', handle')) :
    Settled handle' (epoll'.data fd) := by
  simp only [PollHandle.commit, Bool.true_or, if_true] at taken
  rcases Option.map_eq_some_iff.mp taken with ⟨⟨after, renumbered, accepted⟩, called, result⟩
  cases result
  rcases (ctl_effect attached called).settled numbered with ⟨wanted, present⟩
  exact ⟨wanted, present⟩

theorem reset_fd (taken : handle.reset epoll = some (epoll', handle')) :
    handle'.fd = none := by
  rcases Option.map_eq_some_iff.mp taken with ⟨_, -, result⟩
  cases result
  rfl

/-- A reset that reaches the poller, or finds no row there, leaves none. -/
theorem reset_handleStep
    (reaches : ∀ fd, handle.fd = some fd → (epoll.data fd).empty ∨
      (handle.batchCtl = false ∧ (handle.slot.isSome ∨ handle.events ≠ PollEvents.none)))
    (taken : handle.reset epoll = some (epoll', handle')) :
    HandleStep epoll handle epoll' handle' := by
  rcases Option.map_eq_some_iff.mp taken with ⟨⟨after, left⟩, moved, result⟩
  cases result
  have untouched (rows : ∀ fd, handle.fd = some fd → (epoll.data fd).empty) :
      HandleStep epoll handle epoll { left with toPollFD := .cleared } :=
    ⟨⟨rfl, rfl⟩, fun _ _ => ⟨rfl, rfl, rfl⟩, fun _ agrees => agrees,
      fun fd _ => RowStep.refl epoll handle fd, fun _ => rfl,
      fun fd attached _ => Or.inr ⟨rfl, rows fd attached⟩⟩
  split at moved
  · unfold PollHandle.commit at moved
    split at moved
    · rcases Option.map_eq_some_iff.mp moved with
        ⟨⟨middle, renumbered, accepted⟩, called, result⟩
      cases result
      have step := HandleStep.of_ctl rfl rfl called
      refine ⟨step.own, step.frame, step.kernel, step.row, fun _ => rfl,
        fun fd attached numbered => Or.inr ⟨rfl, ?_⟩⟩
      cases present : (middle.data fd).empty with
      | true => rfl
      | false =>
          -- The row would have to be that of a handle that no longer has a slot.
          have effect := ctl_effect (by exact attached) called
          have row := ((effect.settled numbered).wanted present).2
          rw [effect.handle_eq] at row
          rw [PollFD.empty, row] at present
          cases present
    · rename_i skipped
      cases moved
      refine untouched fun fd attached => ?_
      rcases reaches fd attached with absent | ⟨closed, -⟩
      · exact absent
      · rw [closed] at skipped
        simp at skipped
  · rename_i nothing
    cases moved
    refine untouched fun fd attached => ?_
    rcases reaches fd attached with absent | ⟨-, wanted⟩
    · exact absent
    · exact absurd wanted nothing

end Rows

/-! ## Handles on one poller -/

section Worlds

variable {Handle : Type u} {Slot : Type v}

/-- A poller, the handles on it and the handle that each descriptor has. -/
structure World (Handle : Type u) (Slot : Type v) where
  epoll : Epoll Slot
  handles : Handle → PollHandle Slot
  owner : Nat → Option Handle

/--
What the users of a poller do: give a handle a descriptor, operate it, close
its socket, or end the batching section of `on_io_event`.
-/
inductive WorldAction (Handle : Type u) (Slot : Type v) where
  | open (handle : Handle) (fd : Nat)
  | op (handle : Handle) (op : HandleOp Slot)
  | close (handle : Handle)
  | endBatch (handle : Handle) (batching : Bool)

namespace World

/-- A poller without subscriptions. -/
def initial (timerFd notifyFd : Nat) : World Handle Slot where
  epoll := .create timerFd notifyFd
  handles := fun _ => .unopened
  owner := fun _ => none

variable [DecidableEq Handle]

/-- Store what an operation made of a handle; a descriptor it gave up is free. -/
def put (world : World Handle Slot) (handle : Handle) (polled : Polled Slot) :
    World Handle Slot where
  epoll := polled.1
  handles := Function.update world.handles handle polled.2
  owner := fun fd =>
    if world.owner fd = some handle ∧ polled.2.fd ≠ some fd then none else world.owner fd

/-- `poll_ = reactor->handle(fd)`: the flags of the handle stay as they are. -/
def openHandle (world : World Handle Slot) (handle : Handle) (fd : Nat) : World Handle Slot where
  epoll := world.epoll
  handles := Function.update world.handles handle
    { world.handles handle with toPollFD := (PollHandle.create fd).toPollFD }
  owner := Function.update world.owner fd (some handle)

/-- `Base::close` of the socket a handle had. -/
def closeFd (world : World Handle Slot) : Option Nat → World Handle Slot
  | none => world
  | some fd => {
      world with epoll := world.epoll.setKernel (world.epoll.kernel.close fd) }

variable [DecidableEq Slot]

/-- One step; the system gives out descriptors that nobody has. -/
def step (world : World Handle Slot) : WorldAction Handle Slot → Option (World Handle Slot)
  | .open handle fd =>
      if (world.handles handle).fd = none ∧ world.owner fd = none ∧
          fd ≠ world.epoll.timerFd ∧ fd ≠ world.epoll.notifyFd then
        some (world.openHandle handle fd)
      else none
  | .op handle op => ((world.handles handle).apply world.epoll op).map (world.put handle)
  | .close handle =>
      ((world.handles handle).reset world.epoll).map fun polled =>
        (world.put handle polled).closeFd (world.handles handle).fd
  | .endBatch handle batching =>
      (((world.handles handle).batching batching).commit world.epoll true).map
        (world.put handle)

/--
A reset or close reaches the poller, its handle's batch being closed and
something being wanted, or the poller has no row for it.
-/
def ResetOk (world : World Handle Slot) : WorldAction Handle Slot → Prop
  | .op handle .reset | .close handle =>
      ∀ fd, (world.handles handle).fd = some fd → (world.epoll.data fd).empty ∨
        ((world.handles handle).batchCtl = false ∧
          ((world.handles handle).slot.isSome ∨
            (world.handles handle).events ≠ PollEvents.none))
  | _ => True

/--
Resets reach the poller, and a batch is closed without a commit only where the
commit would do nothing.
-/
def Committed (world : World Handle Slot) (action : WorldAction Handle Slot) : Prop :=
  world.ResetOk action ∧
    ∀ handle, action = .op handle (.batching false) →
      (world.handles handle).batchCtl = true →
        CommitIdle world.epoll (world.handles handle)

/-! ## The invariant -/

/-- Every row belongs to the handle of its descriptor and agrees with the kernel. -/
structure RowsOwned (world : World Handle Slot) : Prop where
  owner : ∀ fd handle,
    world.owner fd = some handle ↔ (world.handles handle).fd = some fd
  ours : ∀ fd, world.owner fd ≠ none →
    fd ≠ world.epoll.timerFd ∧ fd ≠ world.epoll.notifyFd
  numbered : ∀ handle fd, (world.handles handle).fd = some fd →
    (world.epoll.data fd).empty = false →
      (world.epoll.data fd).sid = (world.handles handle).sid
  unowned : ∀ fd, world.owner fd = none → (world.epoll.data fd).empty
  kernel : ∀ fd, fd ≠ world.epoll.timerFd → fd ≠ world.epoll.notifyFd →
    KernelAgrees world.epoll fd

/-- A handle whose batch is closed has the row it wants. -/
def Settles (world : World Handle Slot) : Prop :=
  ∀ handle fd, (world.handles handle).fd = some fd →
    (world.handles handle).batchCtl = false →
      Settled (world.handles handle) (world.epoll.data fd)

section Preserved

variable {world world' : World Handle Slot} {handle : Handle} {polled : Polled Slot}

omit [DecidableEq Handle] [DecidableEq Slot]

theorem RowsOwned.fd_ne
    (inv : RowsOwned world) {other : Handle} (apart : other ≠ handle) {fd : Nat}
    (attached : (world.handles other).fd = some fd) :
    (world.handles handle).fd ≠ some fd := by
  intro same
  rw [← inv.owner] at attached same
  exact apart (Option.some.inj (attached.symm.trans same))

/-- An operation never gives a handle a descriptor. -/
theorem RowsOwned.attached_of
    (inv : RowsOwned world)
    (step : HandleStep world.epoll (world.handles handle) polled.1 polled.2)
    {fd : Nat} (kept : polled.2.fd = some fd) : (world.handles handle).fd = some fd := by
  cases attached : (world.handles handle).fd with
  | none =>
      rw [step.detached attached] at kept
      cases kept
  | some own =>
      rcases step.numbered own attached (inv.numbered handle own attached) with
        ⟨same, -⟩ | ⟨gone, -⟩
      · exact same.symm.trans kept
      · rw [gone] at kept
        cases kept

theorem RowsOwned.put [DecidableEq Handle]
    (inv : RowsOwned world)
    (step : HandleStep world.epoll (world.handles handle) polled.1 polled.2) :
    RowsOwned (world.put handle polled) where
  owner := by
    intro fd other
    simp only [World.put]
    by_cases same : other = handle
    · subst same
      rw [Function.update_self]
      by_cases kept : polled.2.fd = some fd
      · simp [kept, (inv.owner fd other).2 (inv.attached_of step kept)]
      · simp only [kept, iff_false]
        split
        · simp
        · rename_i notGiven
          exact fun mine => notGiven ⟨mine, kept⟩
    · rw [Function.update_of_ne same, ← inv.owner]
      split
      · rename_i mine
        rw [mine.1]
        simp [Ne.symm same]
      · exact Iff.rfl
  ours := by
    intro fd owned
    simp only [World.put, step.own.1, step.own.2] at owned ⊢
    split at owned
    · exact absurd rfl owned
    · exact inv.ours fd owned
  numbered := by
    intro other fd
    simp only [World.put]
    by_cases same : other = handle
    · subst same
      rw [Function.update_self]
      intro kept present
      have attached := inv.attached_of step kept
      rcases step.numbered fd attached (inv.numbered other fd attached) with
        ⟨-, numbered⟩ | ⟨gone, -⟩
      · exact numbered present
      · exact absurd (gone.symm.trans kept) (by simp)
    · rw [Function.update_of_ne same]
      intro attached
      rw [(step.frame fd (inv.fd_ne same attached)).1]
      exact inv.numbered other fd attached
  unowned := by
    intro fd free
    simp only [World.put] at free ⊢
    split at free
    · rename_i given
      have attached := (inv.owner fd handle).1 given.1
      rcases step.numbered fd attached (inv.numbered handle fd attached) with
        ⟨kept, -⟩ | ⟨-, absent⟩
      · exact absurd kept given.2
      · exact absent
    · have apart : (world.handles handle).fd ≠ some fd := by
        intro attached
        rw [(inv.owner fd handle).2 attached] at free
        cases free
      rw [(step.frame fd apart).1]
      exact inv.unowned fd free
  kernel := by
    intro fd notTimer notNotify
    simp only [World.put, step.own.1, step.own.2] at notTimer notNotify ⊢
    exact step.kernel fd (inv.kernel fd notTimer notNotify)

theorem Settles.put [DecidableEq Handle]
    (settles : Settles world) (inv : RowsOwned world)
    (step : HandleStep world.epoll (world.handles handle) polled.1 polled.2)
    (settled : ∀ fd, polled.2.fd = some fd → polled.2.batchCtl = false →
      Settled polled.2 (polled.1.data fd)) :
    Settles (world.put handle polled) := by
  intro other fd
  simp only [World.put]
  by_cases same : other = handle
  · subst same
    rw [Function.update_self]
    exact settled fd
  · rw [Function.update_of_ne same]
    intro attached closed
    rw [(step.frame fd (inv.fd_ne same attached)).1]
    exact settles other fd attached closed

/-- Closing the descriptor of a handle that has gone changes no row. -/
theorem RowsOwned.closeFd
    (inv : RowsOwned world) {fd? : Option Nat}
    (free : ∀ fd, fd? = some fd → world.owner fd = none) :
    RowsOwned (world.closeFd fd?) := by
  cases fd? with
  | none => exact inv
  | some fd =>
      refine ⟨inv.owner, inv.ours, inv.numbered, inv.unowned,
        fun other notTimer notNotify => ?_⟩
      have agrees := inv.kernel other notTimer notNotify
      by_cases same : other = fd
      · subst same
        have absent := inv.unowned other (free other rfl)
        simp [KernelAgrees, World.closeFd, Epoll.setKernel, Kernel.close, absent]
      · exact agrees.of_same ⟨rfl, Function.update_of_ne same _ _, rfl⟩

end Preserved

/-! ## Every run -/

variable {world world' : World Handle Slot} {action : WorldAction Handle Slot}

/-- A step either opens a handle or is a handle's operation, perhaps with a close. -/
theorem step_effect
    (ok : world.ResetOk action) (taken : world.step action = some world') :
    (∃ handle fd, (world.handles handle).fd = none ∧ world.owner fd = none ∧
      (fd ≠ world.epoll.timerFd ∧ fd ≠ world.epoll.notifyFd) ∧
      world' = world.openHandle handle fd) ∨
    (∃ handle polled fd?,
      HandleStep world.epoll (world.handles handle) polled.1 polled.2 ∧
      (∀ fd, fd? = some fd → (world.handles handle).fd = some fd ∧ polled.2.fd = none) ∧
      world' = (world.put handle polled).closeFd fd?) := by
  cases action with
  | «open» handle fd =>
      simp only [step] at taken
      split at taken
      · rename_i free
        cases taken
        exact Or.inl ⟨handle, fd, free.1, free.2.1, free.2.2, rfl⟩
      · cases taken
  | op handle op =>
      rcases Option.map_eq_some_iff.mp taken with ⟨⟨epoll, left⟩, moved, rfl⟩
      refine Or.inr ⟨handle, (epoll, left), none, ?_, by simp, rfl⟩
      by_cases isReset : op = .reset
      · subst isReset
        exact reset_handleStep ok moved
      · by_cases isBatching : ∃ enable, op = .batching enable
        · rcases isBatching with ⟨enable, rfl⟩
          cases moved
          exact .of_same rfl rfl
        · exact (apply_effect isReset (fun enable same => isBatching ⟨enable, same⟩)
            moved).handleStep
  | close handle =>
      rcases Option.map_eq_some_iff.mp taken with ⟨⟨epoll, left⟩, moved, rfl⟩
      exact Or.inr ⟨handle, (epoll, left), (world.handles handle).fd,
        reset_handleStep ok moved, fun fd attached => ⟨attached, reset_fd moved⟩, rfl⟩
  | endBatch handle batching =>
      rcases Option.map_eq_some_iff.mp taken with ⟨⟨epoll, left⟩, moved, rfl⟩
      have effect : OpEffect world.epoll ((world.handles handle).batching batching) epoll left :=
        commit_effect moved
      exact Or.inr ⟨handle, (epoll, left), none,
        effect.handleStep.congr rfl rfl rfl rfl, by simp, rfl⟩

omit [DecidableEq Handle] [DecidableEq Slot] in
theorem initial_rowsOwned (timerFd notifyFd : Nat) :
    RowsOwned (initial timerFd notifyFd : World Handle Slot) where
  owner := by simp [initial, PollHandle.unopened, PollFD.cleared]
  ours := by simp [initial]
  numbered := by simp [initial, PollHandle.unopened, PollFD.cleared]
  unowned := fun _ _ => rfl
  kernel := by
    intro fd notTimer notNotify
    simp only [initial, Epoll.create] at notTimer notNotify
    simp [KernelAgrees, initial, Epoll.create, notTimer, notNotify, PollFD.cleared,
      PollFD.empty]

omit [DecidableEq Slot] in
theorem RowsOwned.openHandle
    (inv : RowsOwned world) {handle : Handle} {fd : Nat}
    (detached : (world.handles handle).fd = none) (free : world.owner fd = none)
    (ours : fd ≠ world.epoll.timerFd ∧ fd ≠ world.epoll.notifyFd) :
    RowsOwned (world.openHandle handle fd) where
  owner := by
    intro other holder
    simp only [World.openHandle]
    by_cases same : holder = handle
    · subst same
      rw [Function.update_self]
      by_cases equal : other = fd
      · simp [equal, PollHandle.create]
      · have gone : world.owner other ≠ some holder := by
          rw [Ne, inv.owner, detached]
          simp
        simp [Function.update_of_ne equal, gone, PollHandle.create, Ne.symm equal]
    · rw [Function.update_of_ne same]
      by_cases equal : other = fd
      · subst equal
        rw [Function.update_self, ← inv.owner, free]
        simp [Ne.symm same]
      · rw [Function.update_of_ne equal, inv.owner]
  ours := by
    intro other owned
    simp only [World.openHandle] at owned ⊢
    by_cases equal : other = fd
    · exact equal ▸ ours
    · rw [Function.update_of_ne equal] at owned
      exact inv.ours other owned
  numbered := by
    intro holder other
    simp only [World.openHandle]
    by_cases same : holder = handle
    · subst same
      rw [Function.update_self]
      intro attached present
      obtain rfl := Option.some.inj attached
      rw [inv.unowned fd free] at present
      cases present
    · rw [Function.update_of_ne same]
      exact inv.numbered holder other
  unowned := by
    intro other notOwned
    simp only [World.openHandle] at notOwned ⊢
    by_cases equal : other = fd
    · rw [equal, Function.update_self] at notOwned
      cases notOwned
    · rw [Function.update_of_ne equal] at notOwned
      exact inv.unowned other notOwned
  kernel := inv.kernel

/-- Every step whose resets reach the poller keeps the rows owned. -/
theorem RowsOwned.step
    (inv : RowsOwned world) (ok : world.ResetOk action)
    (taken : world.step action = some world') : RowsOwned world' := by
  rcases step_effect ok taken with
    ⟨handle, fd, detached, free, ours, rfl⟩ | ⟨handle, polled, fd?, step, closing, rfl⟩
  · exact inv.openHandle detached free ours
  · refine (inv.put step).closeFd fun fd closed => ?_
    rcases closing fd closed with ⟨attached, gone⟩
    simp [World.put, (inv.owner fd handle).2 attached, gone]

/-- Every step that commits what it defers keeps the handles settled. -/
theorem Settles.step
    (settles : Settles world) (inv : RowsOwned world) (ok : world.Committed action)
    (taken : world.step action = some world') : Settles world' := by
  cases action with
  | «open» handle fd =>
      simp only [World.step] at taken
      split at taken
      · rename_i free
        cases taken
        intro other fd'
        simp only [World.openHandle]
        by_cases same : other = handle
        · subst same
          rw [Function.update_self]
          intro attached closed
          obtain rfl := Option.some.inj attached
          refine ⟨fun present => ?_, fun wanted => ?_⟩
          · rw [inv.unowned fd free.2.1] at present
            cases present
          · cases wanted
        · rw [Function.update_of_ne same]
          exact settles other fd'
      · cases taken
  | op handle op =>
      rcases Option.map_eq_some_iff.mp taken with ⟨⟨epoll, left⟩, moved, rfl⟩
      by_cases isReset : op = .reset
      · subst isReset
        refine settles.put inv (reset_handleStep ok.1 moved) fun fd attached => ?_
        rw [reset_fd moved] at attached
        cases attached
      · by_cases isBatching : ∃ enable, op = .batching enable
        · rcases isBatching with ⟨enable, rfl⟩
          cases moved
          refine settles.put inv (.of_same rfl rfl) fun fd attached closed => ?_
          simp only [PollHandle.batching] at closed
          subst closed
          have numbered := inv.numbered handle fd attached
          by_cases wasOpen : (world.handles handle).batchCtl = true
          · rcases (ok.2 handle rfl wasOpen).settled attached numbered with ⟨wanted, present⟩
            exact ⟨wanted, present⟩
          · rcases settles handle fd attached (by simpa using wasOpen) with ⟨wanted, present⟩
            exact ⟨wanted, present⟩
        · have effect :=
            apply_effect isReset (fun enable same => isBatching ⟨enable, same⟩) moved
          have step : HandleStep world.epoll (world.handles handle) (epoll, left).1
              (epoll, left).2 := effect.handleStep
          refine settles.put inv step fun fd kept closed => ?_
          have attached := inv.attached_of step kept
          exact effect.settled attached (inv.numbered handle fd attached)
            (settles handle fd attached) closed
  | close handle =>
      rcases Option.map_eq_some_iff.mp taken with ⟨⟨epoll, left⟩, moved, rfl⟩
      have settled : Settles (world.put handle (epoll, left)) := by
        refine settles.put inv (reset_handleStep ok.1 moved) fun fd attached => ?_
        rw [reset_fd moved] at attached
        cases attached
      cases attached : (world.handles handle).fd <;> exact settled
  | endBatch handle batching =>
      rcases Option.map_eq_some_iff.mp taken with ⟨⟨epoll, left⟩, moved, rfl⟩
      have effect : OpEffect world.epoll ((world.handles handle).batching batching) epoll left :=
        commit_effect moved
      have step : HandleStep world.epoll (world.handles handle) (epoll, left).1
          (epoll, left).2 :=
        effect.handleStep.congr rfl rfl rfl rfl
      refine settles.put inv step fun fd kept _ => ?_
      have attached := inv.attached_of step kept
      have numbered : (world.epoll.data fd).empty = false →
          (world.epoll.data fd).sid = ((world.handles handle).batching batching).sid :=
        inv.numbered handle fd attached
      exact forced_settled (by exact attached) numbered moved

/-- A new handle of a descriptor without a row subscribes. -/
theorem fresh_subscribes {epoll : Epoll Slot} {fd : Nat} {events : PollEvents}
    (absent : (epoll.data fd).empty) (unregistered : epoll.kernel.registered fd = none)
    (wanted : events ≠ 0) (slot : Slot) :
    ∃ polled, (PollHandle.create fd).addSlot epoll events (some slot) = some polled ∧
      polled.1.data fd = polled.2.toPollFD ∧
      polled.2.events = events ∧ polled.2.slot = some slot := by
  have none_plus : PollEvents.none.plus events = events := BitVec.zero_or
  have nonzero : events ≠ 0#32 := wanted
  simp [PollHandle.addSlot, PollHandle.create, PollHandle.commit, Epoll.ctl, absent,
    none_plus, nonzero, PollHandle.nextSid, Kernel.add, unregistered, Epoll.setData,
    Epoll.setKernel]

/--
A live handle with its batch closed, a slot and events has a row with the same;
a descriptor without a live handle has no subscription and can be subscribed.
-/
def InStep (world : World Handle Slot) : Prop :=
  (∀ handle fd slot, (world.handles handle).fd = some fd →
    (world.handles handle).batchCtl = false →
      (world.handles handle).slot = some slot → (world.handles handle).events ≠ 0 →
        (world.epoll.data fd).events = (world.handles handle).events ∧
          (world.epoll.data fd).slot = some slot ∧
          (world.epoll.data fd).sid = (world.handles handle).sid) ∧
  (∀ fd, (∀ handle, (world.handles handle).fd ≠ some fd) →
    fd ≠ world.epoll.timerFd → fd ≠ world.epoll.notifyFd →
      (world.epoll.data fd).empty ∧ world.epoll.kernel.registered fd = none ∧
        ∀ events slot, events ≠ 0 →
          ∃ polled, (PollHandle.create fd).addSlot world.epoll events (some slot) = some polled ∧
            polled.1.data fd = polled.2.toPollFD ∧
            polled.2.events = events ∧ polled.2.slot = some slot)

/-- The invariant of committing runs. -/
structure Synced (world : World Handle Slot) : Prop where
  rows : RowsOwned world
  settles : Settles world

theorem committed_synced {timerFd notifyFd : Nat}
    (reached : Reachable step Committed (initial timerFd notifyFd) world) :
    Synced world := by
  have initially : Synced (initial timerFd notifyFd : World Handle Slot) := by
    refine ⟨initial_rowsOwned timerFd notifyFd, fun handle fd attached => ?_⟩
    cases attached
  refine reached.invariant initially ?_
  intro before action after synced allowed taken
  exact ⟨synced.rows.step allowed.1 taken, synced.settles.step synced.rows allowed taken⟩

/-- Where every deferred update is committed, handles and poller are in step. -/
theorem committed_in_step {timerFd notifyFd : Nat}
    (reached : Reachable step Committed (initial timerFd notifyFd) world) :
    InStep world := by
  rcases committed_synced reached with ⟨rows, settles⟩
  refine ⟨fun handle fd slot attached closed hasSlot hasEvents => ?_,
    fun fd free notTimer notNotify => ?_⟩
  · have settled := settles handle fd attached closed
    have present := settled.present (by rw [hasSlot]; rfl) hasEvents
    rcases settled.wanted present with ⟨sameEvents, sameSlot⟩
    exact ⟨sameEvents, sameSlot.trans hasSlot, rows.numbered handle fd attached present⟩
  · have unowned : world.owner fd = none := by
      cases owned : world.owner fd with
      | none => rfl
      | some handle => exact absurd ((rows.owner fd handle).1 owned) (free handle)
    have absent := rows.unowned fd unowned
    have unregistered := rows.kernel fd notTimer notNotify
    rw [KernelAgrees, if_pos absent] at unregistered
    exact ⟨absent, unregistered, fun events slot wanted =>
      fresh_subscribes absent unregistered wanted slot⟩

/-- A socket subscribes and is closed outside any batch, and its number is reused. -/
theorem committed_in_step_reused :
    ∃ world : World Bool Nat,
      (world.epoll.data 5).slot = some 2 ∧ (world.epoll.data 5).sid = 1 ∧ InStep world := by
  have opened : Reachable step Committed (initial 3 4 : World Bool Nat) _ :=
    Reachable.refl.extend
      (show Committed _ (.open false 5) from ⟨trivial, by simp⟩) rfl
  have subscribed := opened.extend
    (show Committed _ (.op false (.addSlot PollEvents.read (some 1))) from
      ⟨trivial, by simp⟩) rfl
  have closed := subscribed.extend
    (show Committed _ (.close false) from
      ⟨fun _ _ => Or.inr ⟨rfl, Or.inl rfl⟩, by simp⟩) rfl
  have reopened := closed.extend
    (show Committed _ (.open true 5) from ⟨trivial, by simp⟩) rfl
  have resubscribed := reopened.extend
    (show Committed _ (.op true (.addSlot PollEvents.read (some 2))) from
      ⟨trivial, by simp⟩) rfl
  exact ⟨_, rfl, rfl, committed_in_step resubscribed⟩

/-- A socket closed in its own batch leaves its row behind. -/
def closedInBatch : List (WorldAction Bool Nat) :=
  [.open false 5, .op false (.addSlot PollEvents.read (some 1)), .op false (.batching true),
    .close false, .endBatch false false, .open true 5,
    .op true (.addSlot PollEvents.read (some 2))]

theorem closed_in_batch_not_in_step :
    ¬ ∀ world, Reachable step unguarded (initial 3 4 : World Bool Nat) world →
      (∀ handle, (world.handles handle).batchCtl = false) → InStep world := by
  intro always
  have reached : Reachable step unguarded (initial 3 4 : World Bool Nat)
      ((execute step unguarded (initial 3 4) closedInBatch).getD (initial 3 4)) :=
    ⟨closedInBatch, Run.of_execute rfl⟩
  have row := ((always _ reached (by decide)).1 true 5 2 rfl rfl rfl (by decide)).2.1
  exact absurd row (by decide)

end World

end Worlds

end ReactiveToolbox.Io
