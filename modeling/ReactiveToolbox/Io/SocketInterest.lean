import ReactiveToolbox.Io.BasicSocket
import ReactiveToolbox.Io.EpollSync

/-!
# The interest of a socket

From its first opening on, and while no completion slot throws and it is not closed, the
events of a socket's handle are those of the operations that are pending, and whenever
`on_io_event` does not run, the kernel has them.  After an exception the batch of the handle
stays open, and a socket that is opened again is never watched.
-/

namespace ReactiveToolbox.Io

open ReactiveToolbox.Lib

universe u v

/-! ## Interest in events -/

/-- A set of events holds those of an operation. -/
def Wants (events : PollEvents) (direction : Direction) : Prop :=
  events &&& direction.events ≠ 0

/-- The bit of a direction in the interest of a poller. -/
def Direction.bit : Direction → Nat
  | .read => 0
  | .write => 2

theorem Direction.events_eq (direction : Direction) :
    direction.events = BitVec.twoPow 32 direction.bit := by
  cases direction <;> decide

theorem wants_iff {events : PollEvents} {direction : Direction} :
    Wants events direction ↔ events.getLsbD direction.bit = true := by
  rw [Wants, direction.events_eq, BitVec.and_twoPow]
  split
  · rename_i set
    refine ⟨fun _ => set, fun _ => ?_⟩
    rw [← direction.events_eq]
    cases direction <;> decide
  · rename_i unset
    exact ⟨fun wanted => absurd rfl wanted, fun set => absurd set unset⟩

theorem add_idle_iff {events : PollEvents} {direction : Direction} :
    events &&& direction.events ≠ direction.events ↔ ¬Wants events direction := by
  rw [Wants, direction.events_eq, BitVec.and_twoPow]
  have some' : BitVec.twoPow 32 direction.bit ≠ 0 := by
    rw [← direction.events_eq]
    cases direction <;> decide
  split
  · exact ⟨fun wrong => absurd rfl wrong, fun wrong => absurd some' wrong⟩
  · exact ⟨fun _ wrong => absurd rfl wrong, fun _ => some'.symm⟩

/-- `add` adds the bit of its direction. -/
theorem wants_plus {events : PollEvents} {direction other : Direction} :
    Wants (events.plus direction.events) other ↔ other = direction ∨ Wants events other := by
  rw [wants_iff, wants_iff, PollEvents.plus, direction.events_eq, BitVec.getLsbD_or,
    BitVec.getLsbD_twoPow]
  cases direction <;> cases other <;> simp [Direction.bit]

/-- `del` takes the bit of its direction. -/
theorem wants_minus {events : PollEvents} {direction other : Direction} :
    Wants (events.minus direction.events) other ↔ other ≠ direction ∧ Wants events other := by
  rw [wants_iff, wants_iff, PollEvents.minus, direction.events_eq, BitVec.getLsbD_and,
    BitVec.getLsbD_not, BitVec.getLsbD_twoPow]
  cases direction <;> cases other <;> simp [Direction.bit]

/-! ## A handle with its row -/

section Handles

variable {epoll epoll' epoll'' : Epoll Unit} {handle handle' handle'' : PollHandle Unit} {fd : Nat}
    {wanted later : Direction → Prop} {direction : Direction}

/-- A handle that has a descriptor and a slot is in step with its row. -/
structure InStep (epoll : Epoll Unit) (handle : PollHandle Unit) (fd : Nat) : Prop where
  attached : handle.fd = some fd
  slotted : handle.slot = some ()
  pending : handle.pendingCtl = false
  numbered : (epoll.data fd).empty = false → (epoll.data fd).sid = handle.sid
  kernel : KernelAgrees epoll fd

/-- An operation of a handle that leaves it with some interest. -/
structure Follows (fd : Nat) (epoll : Epoll Unit) (handle : PollHandle Unit) (epoll' : Epoll Unit)
    (handle' : PollHandle Unit) (wanted : Direction → Prop) : Prop where
  inStep : InStep epoll' handle' fd
  batch : handle'.batchCtl = handle.batchCtl
  wants : ∀ direction, Wants handle'.events direction ↔ wanted direction
  settled : handle.batchCtl = false → Settled handle (epoll.data fd) →
    Settled handle' (epoll'.data fd)

theorem InStep.batching (inStep : InStep epoll handle fd) (enable : Bool) :
    InStep epoll (handle.batching enable) fd :=
  ⟨inStep.attached, inStep.slotted, inStep.pending, inStep.numbered, inStep.kernel⟩

/-- A commit registers what the handle wants. -/
theorem InStep.commits (inStep : InStep epoll handle fd) {events : PollEvents} {force : Bool}
    (now : force = true ∨ handle.batchCtl = false)
    (taken : PollHandle.commit { handle with events := events } epoll force =
      some (epoll', handle')) :
    InStep epoll' handle' fd ∧ Settled handle' (epoll'.data fd) ∧ handle'.events = events ∧
      handle'.batchCtl = handle.batchCtl := by
  have goes : (force || !handle.batchCtl || handle.pendingCtl) = true := by
    rcases now with forced | closed
    · rw [forced]
      rfl
    · rw [closed, Bool.not_false, Bool.or_true]
      rfl
  rw [PollHandle.commit, if_pos goes] at taken
  obtain ⟨⟨after, renumbered, accepted⟩, moved, result⟩ := Option.map_eq_some_iff.mp taken
  cases result
  have attached : ({ handle with events := events } : PollHandle Unit).fd = some fd :=
    inStep.attached
  have effect := ctl_effect attached moved
  have same := effect.handle_eq
  have numbered := effect.sid inStep.numbered
  have settled := effect.settled inStep.numbered
  refine ⟨⟨?_, ?_, rfl, numbered, effect.kernel inStep.kernel⟩,
    ⟨settled.wanted, settled.present⟩, ?_, ?_⟩
  · rw [same]
    exact inStep.attached
  · rw [same]
    exact inStep.slotted
  · rw [same]
  · rw [same]

/-- Within a batch a commit waits. -/
theorem commit_batched {epoll epoll' : Epoll Unit} {handle handle' : PollHandle Unit}
    (batch : handle.batchCtl = true) (pending : handle.pendingCtl = false)
    (taken : handle.commit epoll false = some (epoll', handle')) :
    epoll' = epoll ∧ handle' = handle := by
  have skips : ¬(false || !handle.batchCtl || handle.pendingCtl) = true := by
    rw [batch, pending]
    exact Bool.false_ne_true
  rw [PollHandle.commit, if_neg skips] at taken
  cases taken
  exact ⟨rfl, rfl⟩

theorem InStep.commit_with (inStep : InStep epoll handle fd) {events : PollEvents}
    (wants : ∀ direction, Wants events direction ↔ wanted direction)
    (taken : PollHandle.commit { handle with events := events } epoll false =
      some (epoll', handle')) :
    Follows fd epoll handle epoll' handle' wanted := by
  cases batch : handle.batchCtl with
  | false =>
      obtain ⟨after, settled, same, batchSame⟩ := inStep.commits (.inr batch) taken
      exact ⟨after, batchSame, fun direction => by rw [same]; exact wants direction,
        fun _ _ => settled⟩
  | true =>
      obtain ⟨rfl, rfl⟩ := commit_batched (by exact batch) (by exact inStep.pending) taken
      exact ⟨⟨inStep.attached, inStep.slotted, inStep.pending, inStep.numbered, inStep.kernel⟩,
        rfl, wants, fun closed => by rw [batch] at closed; cases closed⟩

theorem InStep.stays (inStep : InStep epoll handle fd)
    (wants : ∀ direction, Wants handle.events direction ↔ wanted direction) :
    Follows fd epoll handle epoll handle wanted :=
  ⟨inStep, rfl, wants, fun _ settled => settled⟩

/-- `add` leaves the handle in step with the kernel. -/
theorem InStep.add (inStep : InStep epoll handle fd)
    (taken : handle.add epoll direction.events = some (epoll', handle')) :
    Follows fd epoll handle epoll' handle' fun other =>
      other = direction ∨ Wants handle.events other := by
  rw [PollHandle.add] at taken
  split at taken
  · have slotted : handle.slot.isSome = true := by
      rw [inStep.slotted]
      rfl
    dsimp only at taken
    rw [if_pos slotted] at taken
    exact inStep.commit_with (fun _ => wants_plus) taken
  · rename_i already
    cases taken
    have wanted := not_not.mp fun none => already (add_idle_iff.mpr none)
    apply inStep.stays
    intro other
    refine ⟨.inr, ?_⟩
    rintro (rfl | wants)
    · exact wanted
    · exact wants

/-- `del` leaves the handle in step with the kernel. -/
theorem InStep.del (inStep : InStep epoll handle fd)
    (taken : handle.del epoll direction.events = some (epoll', handle')) :
    Follows fd epoll handle epoll' handle' fun other =>
      other ≠ direction ∧ Wants handle.events other := by
  rw [PollHandle.del] at taken
  split at taken
  · exact inStep.commit_with (fun _ => wants_minus) taken
  · rename_i none
    cases taken
    apply inStep.stays
    intro other
    refine ⟨fun wants => ⟨?_, wants⟩, And.right⟩
    rintro rfl
    exact none wants

theorem Follows.trans (first : Follows fd epoll handle epoll' handle' wanted)
    (second : Follows fd epoll' handle' epoll'' handle'' later) :
    Follows fd epoll handle epoll'' handle'' later where
  inStep := second.inStep
  batch := second.batch.trans first.batch
  wants := second.wants
  settled closed settled := second.settled (first.batch.trans closed) (first.settled closed settled)

end Handles

/-! ## Interest and pending operations -/

namespace BasicSocket

variable {Slot : Type u} {Data : Type v} {socket next : BasicSocket Slot Data} {fd : Nat}

/-- What holds of a socket whose completion slots have all returned. -/
structure Inv (socket : BasicSocket Slot Data) (fd : Nat) : Prop where
  inStep : InStep socket.epoll socket.poll fd
  batch : socket.poll.batchCtl = socket.frame.isSome
  old : ∀ frame, socket.frame = some frame → frame.oldBatching = false
  wants : ∀ direction, Wants socket.poll.events direction ↔
    (socket.ops direction).slot.isSome ∨ handled socket.frame = some direction
  settled : socket.frame = none → Settled socket.poll (socket.epoll.data fd)

/-- Flags do not matter to what is pending. -/
theorem Inv.setFlags (inv : socket.Inv fd) (direction : Direction) (flags : Int) :
    (socket.setOp direction { socket.ops direction with flags }).Inv fd where
  inStep := inv.inStep
  batch := inv.batch
  old := inv.old
  wants other := by
    by_cases same : other = direction
    · subst same
      rw [setOp_self]
      exact inv.wants other
    · rw [setOp_ne socket same]
      exact inv.wants other
  settled := inv.settled

/-- A new operation is watched. -/
theorem Inv.started (inv : socket.Inv fd) {direction : Direction} {slot : Slot} {buf : Data}
    {flags : Int} {added polled : Polled Unit}
    (adds : socket.poll.add socket.epoll direction.events = some added)
    (commits : polled = added ∨ added.2.commit added.1 false = some polled) :
    Inv { (socket.setOp direction ⟨some slot, some buf, flags⟩).setPolled polled with
      accepted := socket.accepted ++ [⟨direction, slot, some buf, flags⟩] } fd := by
  have first := inv.inStep.add adds
  have follows : Follows fd socket.epoll socket.poll polled.1 polled.2 fun other =>
      other = direction ∨ Wants socket.poll.events other := by
    rcases commits with rfl | commits
    · exact first
    · exact first.trans (first.inStep.commit_with first.wants commits)
  refine ⟨follows.inStep, follows.batch.trans inv.batch, inv.old, fun other => ?_,
    fun outside => follows.settled ?_ (inv.settled outside)⟩
  · refine (follows.wants other).trans ?_
    change _ ↔ ((Function.update socket.ops direction _ other).slot.isSome = true ∨
      handled socket.frame = some other)
    by_cases same : other = direction
    · subst same
      rw [Function.update_self]
      exact ⟨fun _ => .inl rfl, fun _ => .inl rfl⟩
    · rw [Function.update_of_ne same, ← inv.wants other]
      exact ⟨fun either => either.resolve_left same, .inr⟩
  · rw [inv.batch]
    change socket.frame = none at outside
    rw [outside]
    rfl

/-- `on_io_event` begins a batch. -/
theorem Inv.entered (inv : socket.Inv fd) {events : PollEvents} (outside : socket.frame = none) :
    Inv { socket with
      poll := socket.poll.batching true
      frame := some ⟨events, socket.poll.batchCtl, 0, false, .serving .read⟩ } fd where
  inStep := inv.inStep.batching true
  batch := rfl
  old := by
    rintro frame same
    cases same
    rw [inv.batch, outside]
    rfl
  wants direction := by
    have wants := inv.wants direction
    rw [outside] at wants
    exact wants
  settled := by
    intro wrong
    cases wrong

/-- The frame moves on while no slot runs, and the poller stays. -/
theorem Inv.setFrame (inv : socket.Inv fd) {frame after : IoFrame}
    (at_ : socket.frame = some frame) (same : after.oldBatching = frame.oldBatching)
    (before : handled (some frame) = none) (idle : handled (some after) = none) :
    (socket.setFrame (some after)).Inv fd where
  inStep := inv.inStep
  batch := by
    have batch := inv.batch
    rw [at_] at batch
    exact batch
  old := by
    intro moved is_
    cases is_
    exact same.trans (inv.old frame at_)
  wants := by
    intro direction
    have wants := inv.wants direction
    rw [at_, before] at wants
    refine wants.trans ?_
    change _ ↔ _ ∨ handled (some after) = some direction
    rw [idle]
    rfl
  settled := by
    intro wrong
    cases wrong

/-- While `on_io_event` runs, the batch is open: nothing is committed. -/
theorem Inv.setPolled (inv : socket.Inv fd) {frame : IoFrame} (at_ : socket.frame = some frame)
    {epoll : Epoll Unit} {poll : PollHandle Unit}
    (follows : Follows fd socket.epoll socket.poll epoll poll fun direction =>
      Wants socket.poll.events direction) :
    (socket.setPolled (epoll, poll)).Inv fd where
  inStep := follows.inStep
  batch := follows.batch.trans inv.batch
  old := inv.old
  wants direction := (follows.wants direction).trans (inv.wants direction)
  settled outside := by
    change socket.frame = none at outside
    rw [at_] at outside
    cases outside

/-- The operation was waited for already. -/
theorem Inv.blocked (inv : socket.Inv fd) {frame after : IoFrame} {direction : Direction}
    {slot : Slot} {polled : Polled Unit} (at_ : socket.frame = some frame)
    (before : handled (some frame) = none) (pending : (socket.ops direction).slot = some slot)
    (adds : socket.poll.add socket.epoll direction.events = some polled)
    (old : after.oldBatching = frame.oldBatching) (idle : handled (some after) = none) :
    ((socket.setPolled polled).setFrame (some after)).Inv fd := by
  have wanted : Wants socket.poll.events direction := by
    rw [inv.wants direction, pending]
    exact .inl rfl
  have follows := inv.inStep.add adds
  have same : Follows fd socket.epoll socket.poll polled.1 polled.2 fun other =>
      Wants socket.poll.events other := by
    refine ⟨follows.inStep, follows.batch, fun other => (follows.wants other).trans ?_,
      follows.settled⟩
    refine ⟨?_, .inr⟩
    rintro (rfl | wants)
    · exact wanted
    · exact wants
  exact (inv.setPolled at_ same).setFrame at_ old before idle

/-- The operation of the slot that is called is done. -/
theorem Inv.invoked (inv : socket.Inv fd) {frame after : IoFrame} {direction : Direction}
    {slot : Slot} {completed : List (Completion Slot Data)} (at_ : socket.frame = some frame)
    (before : handled (some frame) = none) (pending : (socket.ops direction).slot = some slot)
    (old : after.oldBatching = frame.oldBatching) (runs : handled (some after) = some direction) :
    Inv { (socket.setOp direction ((socket.ops direction).reset direction)).setFrame
      (some after) with completed := completed } fd where
  inStep := inv.inStep
  batch := by
    have batch := inv.batch
    rw [at_] at batch
    exact batch
  old := by
    intro moved is_
    cases is_
    exact old.trans (inv.old frame at_)
  wants other := by
    have wants := inv.wants other
    rw [at_, before] at wants
    change _ ↔ (Function.update socket.ops direction _ other).slot.isSome = true ∨
      handled (some after) = some other
    rw [runs]
    by_cases same : other = direction
    · subst same
      refine ⟨fun _ => .inr rfl, fun _ => wants.mpr (.inl ?_)⟩
      rw [pending]
      rfl
    · rw [Function.update_of_ne same]
      refine wants.trans (or_congr_right ⟨fun wrong => ?_, fun wrong => ?_⟩)
      · cases wrong
      · exact absurd (Option.some.inj wrong).symm same
  settled := by
    intro wrong
    cases wrong

/-- Behind a slot the interest is that of the operations again. -/
theorem Inv.returned (inv : socket.Inv fd) {frame after : IoFrame} {direction : Direction}
    {polled : Polled Unit} (at_ : socket.frame = some frame)
    (ran : handled (some frame) = some direction)
    (dels : (if (socket.ops direction).slot.isNone then
        socket.poll.del socket.epoll direction.events
      else some (socket.epoll, socket.poll)) = some polled)
    (old : after.oldBatching = frame.oldBatching) (idle : handled (some after) = none) :
    ((socket.setPolled polled).setFrame (some after)).Inv fd := by
  have follows : Follows fd socket.epoll socket.poll polled.1 polled.2 fun other =>
      (socket.ops other).slot.isSome = true := by
    split at dels
    · rename_i done
      have follows := inv.inStep.del dels
      refine ⟨follows.inStep, follows.batch, fun other => (follows.wants other).trans ?_,
        follows.settled⟩
      rw [inv.wants other, at_, ran]
      by_cases same : other = direction
      · subst same
        refine ⟨fun wrong => absurd rfl wrong.1, fun pending => ?_⟩
        rw [Option.isNone_iff_eq_none.mp done] at pending
        cases pending
      · refine ⟨fun both => both.2.resolve_right fun wrong => ?_,
          fun pending => ⟨same, .inl pending⟩⟩
        exact same (Option.some.inj wrong).symm
    · rename_i pending
      cases dels
      refine inv.inStep.stays fun other => ?_
      rw [inv.wants other, at_, ran]
      refine ⟨fun either => either.elim id fun same => ?_, .inl⟩
      cases Option.some.inj same
      exact Option.isSome_iff_ne_none.mpr fun none => pending (Option.isNone_iff_eq_none.mpr none)
  have batch := follows.batch.trans inv.batch
  rw [at_] at batch
  refine ⟨follows.inStep, batch, ?_, fun other => ?_, ?_⟩
  · intro moved is_
    cases is_
    exact old.trans (inv.old frame at_)
  · refine (follows.wants other).trans ⟨.inl, fun either => either.resolve_right ?_⟩
    change handled (some after) ≠ _
    rw [idle]
    intro wrong
    cases wrong
  · intro wrong
    cases wrong

/-- `on_io_event` ends its batch. -/
theorem Inv.left (inv : socket.Inv fd) {frame : IoFrame} {polled : Polled Unit}
    (at_ : socket.frame = some frame) (before : handled (some frame) = none)
    (commits : (socket.poll.batching frame.oldBatching).commit socket.epoll true = some polled) :
    ((socket.setPolled polled).setFrame none).Inv fd := by
  have closed : frame.oldBatching = false := inv.old _ at_
  have ⟨after, settled, same, batch⟩ :=
    (inv.inStep.batching frame.oldBatching).commits (.inl rfl) commits
  refine ⟨after, batch.trans closed, ?_, fun direction => ?_, fun _ => settled⟩
  · intro frame wrong
    cases wrong
  · have wants := inv.wants direction
    rw [at_, before] at wants
    change Wants polled.2.events direction ↔ _
    rw [same]
    exact wants

/-- No completion slot throws, and the socket is not closed. -/
def StaysOpen (_ : BasicSocket Slot Data) : SocketAction Slot Data → Prop
  | .thrown | .close | .reopen _ => False
  | _ => True

instance (socket : BasicSocket Slot Data) (action : SocketAction Slot Data) :
    Decidable (socket.StaysOpen action) :=
  match action with
  | .thrown | .close | .reopen _ => instDecidableFalse
  | .async .. | .event _ | .complete _ | .pass | .returned | .finish => instDecidableTrue

/-- Every step keeps the interest to the operations. -/
theorem Inv.step (inv : socket.Inv fd) {action : SocketAction Slot Data}
    (allowed : socket.StaysOpen action) (taken : socket.step action = some next) : next.Inv fd := by
  cases stepped taken with
  | refused pending => exact inv.setFlags _ _
  | started idle adds commits => exact inv.started adds commits
  | entered outside => exact inv.entered outside
  | moved at_ before old idle => exact inv.setFrame at_ old before idle
  | blocked at_ before pending adds old idle =>
      exact inv.blocked at_ before pending adds old idle
  | invoked at_ before pending old runs => exact inv.invoked at_ before pending old runs
  | returned at_ ran dels old idle => exact inv.returned at_ ran dels old idle
  | thrown at_ => exact allowed.elim
  | left at_ before commits => exact inv.left at_ before commits
  | reset leaves resets => rcases leaves with rfl | ⟨fd, rfl⟩ <;> exact allowed.elim

end BasicSocket

/-! ## What the kernel watches -/

namespace BasicSocket

variable {Slot : Type u} {Data : Type v} {socket next : BasicSocket Slot Data} {fd : Nat}

end BasicSocket

/-! ## Slots that throw -/

/-- What becomes of the batch, and of the value that `on_io_event` restores. -/
inductive BatchMove : Bool → Option Bool → Bool → Option Bool → Prop where
  | within {batch : Bool} {old : Option Bool} : BatchMove batch old batch old
  | enter {batch : Bool} : BatchMove batch none true (some batch)
  | throw {batch old : Bool} : BatchMove batch (some old) batch none
  | leave {batch old : Bool} : BatchMove batch (some old) old none

section Batches

variable {batch after : Bool} {old later : Option Bool}

theorem BatchMove.opens (moved : BatchMove batch old after later)
    (opens : old.isSome → batch = true) (inside : later.isSome) : after = true := by
  cases moved with
  | within => exact opens inside
  | enter => rfl
  | throw => cases inside
  | leave => cases inside

/-- A batch that is open when `on_io_event` begins stays open for good. -/
theorem BatchMove.stuck (moved : BatchMove batch old after later) (stays : batch = true)
    (restored : ∀ value, old = some value → value = true) :
    after = true ∧ ∀ value, later = some value → value = true := by
  cases moved with
  | within => exact ⟨stays, restored⟩
  | enter =>
      refine ⟨rfl, fun value same => ?_⟩
      rw [← Option.some.inj same]
      exact stays
  | throw =>
      refine ⟨stays, fun value wrong => ?_⟩
      cases wrong
  | leave =>
      refine ⟨restored _ rfl, fun value wrong => ?_⟩
      cases wrong

end Batches

/-- An operation of a handle leaves its batch as it is, and defers no commit. -/
structure KeepsBatch (handle handle' : PollHandle Unit) : Prop where
  batch : handle'.batchCtl = handle.batchCtl
  pending : handle.pendingCtl = false → handle'.pendingCtl = false

section Handles

variable {epoll epoll' : Epoll Unit} {handle handle' handle'' : PollHandle Unit}
    {events : PollEvents} {accepted : Bool}

theorem KeepsBatch.refl (handle : PollHandle Unit) : KeepsBatch handle handle := ⟨rfl, id⟩

theorem KeepsBatch.trans (first : KeepsBatch handle handle') (second : KeepsBatch handle' handle'') :
    KeepsBatch handle handle'' :=
  ⟨second.batch.trans first.batch, fun none => second.pending (first.pending none)⟩

theorem ctl_batch (taken : epoll.ctl handle = some (epoll', handle', accepted)) :
    handle'.batchCtl = handle.batchCtl := by
  unfold Epoll.ctl at taken
  split at taken
  · cases taken
    rfl
  · split at taken
    · cases taken
      rfl
    · obtain ⟨_, _, result⟩ := Option.map_eq_some_iff.mp taken
      cases result
      rfl
  · cases taken
  · dsimp only at taken
    split_ifs at taken
    · cases taken
      rfl
    · obtain ⟨_, _, result⟩ := Option.map_eq_some_iff.mp taken
      cases result
      rfl
    · cases taken
      rfl
    · obtain ⟨_, _, result⟩ := Option.map_eq_some_iff.mp taken
      cases result
      rfl
    · obtain ⟨_, _, result⟩ := Option.map_eq_some_iff.mp taken
      cases result
      rfl

/-- A commit neither begins nor ends a batch. -/
theorem commit_keepsBatch {force : Bool}
    (taken : handle.commit epoll force = some (epoll', handle')) : KeepsBatch handle handle' := by
  rw [PollHandle.commit] at taken
  split at taken
  · obtain ⟨⟨_, renumbered, accepted⟩, moved, result⟩ := Option.map_eq_some_iff.mp taken
    cases result
    have batch := ctl_batch moved
    exact ⟨batch, fun _ => rfl⟩
  · cases taken
    exact .refl handle

theorem add_keepsBatch (taken : handle.add epoll events = some (epoll', handle')) :
    KeepsBatch handle handle' := by
  rw [PollHandle.add] at taken
  split at taken
  · dsimp only at taken
    split at taken
    · have committed := commit_keepsBatch taken
      exact ⟨committed.batch, committed.pending⟩
    · cases taken
      exact ⟨rfl, id⟩
  · cases taken
    exact .refl handle

theorem del_keepsBatch (taken : handle.del epoll events = some (epoll', handle')) :
    KeepsBatch handle handle' := by
  rw [PollHandle.del] at taken
  split at taken
  · have committed := commit_keepsBatch taken
    exact ⟨committed.batch, committed.pending⟩
  · cases taken
    exact .refl handle

theorem reset_keepsBatch (taken : handle.reset epoll = some (epoll', handle')) :
    KeepsBatch handle handle' := by
  rw [PollHandle.reset] at taken
  obtain ⟨⟨_, after⟩, reset, result⟩ := Option.map_eq_some_iff.mp taken
  cases result
  split at reset
  · have committed := commit_keepsBatch reset
    exact ⟨committed.batch, committed.pending⟩
  · cases reset
    exact ⟨rfl, id⟩

/-- While the batch is open, an operation that is started does not reach the kernel. -/
theorem add_batched (batch : handle.batchCtl = true) (pending : handle.pendingCtl = false)
    (taken : handle.add epoll events = some (epoll', handle')) : epoll' = epoll := by
  rw [PollHandle.add] at taken
  split at taken
  · dsimp only at taken
    split at taken
    · exact (commit_batched (by exact batch) (by exact pending) taken).1
    · cases taken
      rfl
  · cases taken
    rfl

end Handles

namespace BasicSocket

variable {Slot : Type u} {Data : Type v} {socket next : BasicSocket Slot Data} {fd : Nat}

/-- What `on_io_event` restores when it ends. -/
def restores (socket : BasicSocket Slot Data) : Option Bool :=
  socket.frame.map IoFrame.oldBatching

/-- What a step does to the batch of the handle. -/
structure BatchStep (socket next : BasicSocket Slot Data) : Prop where
  pending : socket.poll.pendingCtl = false → next.poll.pendingCtl = false
  moved : BatchMove socket.poll.batchCtl socket.restores next.poll.batchCtl next.restores

theorem BatchStep.within (kept : KeepsBatch socket.poll next.poll)
    (restores : next.restores = socket.restores) : BatchStep socket next := by
  refine ⟨kept.pending, ?_⟩
  rw [kept.batch, restores]
  exact .within

theorem restores_of {frame : IoFrame} (at_ : socket.frame = some frame) :
    socket.restores = some frame.oldBatching := by
  rw [restores, at_]
  rfl

theorem restores_moved {frame after : IoFrame} (at_ : socket.frame = some frame)
    (old : after.oldBatching = frame.oldBatching) :
    some after.oldBatching = socket.restores := by
  rw [restores_of at_, old]

theorem batchStep {action : SocketAction Slot Data} (taken : socket.step action = some next) :
    BatchStep socket next := by
  cases stepped taken with
  | refused pending => exact .within (.refl _) rfl
  | started idle adds commits =>
      have first := add_keepsBatch adds
      rcases commits with rfl | commits
      · exact .within first rfl
      · exact .within (first.trans (commit_keepsBatch commits)) rfl
  | entered outside =>
      refine ⟨id, ?_⟩
      rw [restores, outside]
      exact .enter
  | moved at_ before old idle => exact .within (.refl _) (restores_moved at_ old)
  | blocked at_ before pending adds old idle =>
      exact .within (add_keepsBatch adds) (restores_moved at_ old)
  | invoked at_ before pending old runs => exact .within (.refl _) (restores_moved at_ old)
  | returned at_ ran dels old idle =>
      split at dels
      · exact .within (del_keepsBatch dels) (restores_moved at_ old)
      · cases dels
        exact .within (.refl _) (restores_moved at_ old)
  | thrown at_ =>
      refine ⟨id, ?_⟩
      rw [restores_of at_]
      exact .throw
  | @left frame polled at_ before commits =>
      have kept := commit_keepsBatch commits
      refine ⟨kept.pending, ?_⟩
      change BatchMove socket.poll.batchCtl socket.restores polled.2.batchCtl none
      rw [restores_of at_, kept.batch]
      exact .leave
  | reset leaves resets =>
      have kept := reset_keepsBatch resets
      exact .within ⟨kept.batch, kept.pending⟩ rfl

/-- While `on_io_event` runs, the batch is open. -/
structure Batched (socket : BasicSocket Slot Data) : Prop where
  pending : socket.poll.pendingCtl = false
  opens : socket.restores.isSome → socket.poll.batchCtl = true

/-- The batch is open, and `on_io_event` does not close it. -/
structure Stuck (socket : BasicSocket Slot Data) : Prop where
  pending : socket.poll.pendingCtl = false
  batch : socket.poll.batchCtl = true
  restored : ∀ value, socket.restores = some value → value = true

/-- Every step keeps what is known of the batch. -/
theorem Batched.step (batched : socket.Batched) {action : SocketAction Slot Data}
    (taken : socket.step action = some next) : next.Batched := by
  obtain ⟨pending, moved⟩ := batchStep taken
  exact ⟨pending batched.pending, moved.opens batched.opens⟩

/-- A batch that stays open does so in every step. -/
theorem Stuck.step (stuck : socket.Stuck) {action : SocketAction Slot Data}
    (taken : socket.step action = some next) : next.Stuck := by
  obtain ⟨pending, moved⟩ := batchStep taken
  have ⟨batch, restored⟩ := moved.stuck stuck.batch stuck.restored
  exact ⟨pending stuck.pending, batch, restored⟩

/-- An exception that leaves `on_io_event` leaves its batch open. -/
theorem Batched.thrown (batched : socket.Batched) (threw : socket.thrown = some next) :
    next.Stuck := by
  rw [BasicSocket.thrown] at threw
  split at threw
  · rename_i at_
    cases threw
    refine ⟨batched.pending, ?_, fun value wrong => ?_⟩
    · apply batched.opens
      rw [restores, at_]
      rfl
    · cases wrong
  · cases threw

/-- What is requested does not reach the kernel. -/
theorem Stuck.async (stuck : socket.Stuck) {direction : Direction} {slot : Slot} {buf : Data}
    {flags : Int} (started : socket.async direction slot buf flags = some next) :
    next.epoll = socket.epoll := by
  cases stepped_async started with
  | refused pending => rfl
  | moved at_ before old idle => rfl
  | @started _ _ _ _ added polled idle adds commits =>
      have same := add_batched stuck.batch stuck.pending adds
      have kept := add_keepsBatch adds
      rcases commits with rfl | commits
      · exact same
      · have batch := kept.batch.trans stuck.batch
        exact (commit_batched batch (kept.pending stuck.pending) commits).1.trans same
  | reset leaves resets => rcases leaves with wrong | ⟨fd, wrong⟩ <;> cases wrong

/--
If a completion slot has thrown once, the batch of the handle stays open for ever, even if the
socket is closed and opened again: an operation that is started afterwards does not reach the
kernel, whatever it waits for, before some other event of the socket ends with its commit.
-/
theorem batch_stays_open {epoll : Epoll Unit}
    (reached : Reachable step unguarded (opened epoll fd) socket)
    {after later : BasicSocket Slot Data} (threw : socket.thrown = some after)
    (continued : Reachable step unguarded after later) :
    later.poll.batchCtl = true ∧
      ∀ direction slot buf flags next, later.async direction slot buf flags = some next →
        next.epoll = later.epoll := by
  have batched : socket.Batched := by
    let holds (socket : BasicSocket Slot Data) : Prop := socket.Batched
    have initially : holds (opened epoll fd) := ⟨rfl, fun wrong => by cases wrong⟩
    exact reached.invariant initially fun before action after batched _ taken =>
      Batched.step batched taken
  have stuck : later.Stuck := by
    let holds (socket : BasicSocket Slot Data) : Prop := socket.Stuck
    have initially : holds after := batched.thrown threw
    exact continued.invariant initially fun before action after stuck _ taken =>
      Stuck.step stuck taken
  exact ⟨stuck.batch, fun _ _ _ _ _ started => stuck.async started⟩

/-- The slot of a read throws, and the next read is started from outside. -/
theorem batch_stays_open_read :
    ∃ later next : BasicSocket Nat Nat, later.poll.batchCtl = true ∧
      later.async .read 6 7 0 = some next ∧ (next.ops .read).slot = some 6 ∧
        next.epoll = later.epoll := by
  obtain ⟨taken, thrown, started, pending⟩ :
      ∃ (taken : (execute step unguarded sample handling).isSome)
        (thrown : (Option.get _ taken).thrown.isSome)
        (started : ((Option.get _ thrown).async .read 6 7 0).isSome),
          ((Option.get _ started).ops .read).slot = some 6 := by
    decide
  have reached : Reachable step unguarded sample (Option.get _ taken) :=
    ⟨_, Run.of_execute (Option.some_get taken).symm⟩
  have stays := batch_stays_open reached (Option.some_get thrown).symm ⟨[], .start⟩
  exact ⟨Option.get _ thrown, Option.get _ started, stays.1, (Option.some_get started).symm,
    pending, stays.2 _ _ _ _ _ (Option.some_get started).symm⟩

/-! ## Sockets that are opened again -/

/-- Nobody closes the socket. -/
def NoClose (_ : BasicSocket Slot Data) : SocketAction Slot Data → Prop
  | .close | .reopen _ => False
  | _ => True

section Slotless

variable {epoll epoll' : Epoll Unit} {handle handle' : PollHandle Unit} {events : PollEvents}

/-- The handle has the descriptor, which has no row, and no slot. -/
structure Slotless (epoll : Epoll Unit) (handle : PollHandle Unit) (fd : Nat) : Prop where
  attached : handle.fd = some fd
  slot : handle.slot = none
  absent : (epoll.data fd).empty = true

theorem Slotless.commit (slotless : Slotless epoll handle fd) {force : Bool}
    (taken : PollHandle.commit { handle with events := events } epoll force =
      some (epoll', handle')) : epoll' = epoll ∧ Slotless epoll' handle' fd := by
  have same : epoll.ctl { handle with events := events } =
      some (epoll, { handle with events := events }, false) := by
    rw [Epoll.ctl]
    dsimp only
    rw [slotless.slot, slotless.attached]
    exact if_pos slotless.absent
  rw [PollHandle.commit] at taken
  split at taken
  · rw [same] at taken
    cases taken
    exact ⟨rfl, slotless.attached, slotless.slot, slotless.absent⟩
  · cases taken
    exact ⟨rfl, slotless.attached, slotless.slot, slotless.absent⟩

/-- Without a slot nothing is registered. -/
theorem Slotless.add (slotless : Slotless epoll handle fd)
    (taken : handle.add epoll events = some (epoll', handle')) :
    epoll' = epoll ∧ Slotless epoll' handle' fd := by
  rw [PollHandle.add] at taken
  split at taken
  · dsimp only at taken
    split at taken
    · exact slotless.commit taken
    · cases taken
      exact ⟨rfl, slotless.attached, slotless.slot, slotless.absent⟩
  · cases taken
    exact ⟨rfl, slotless⟩

theorem Slotless.del (slotless : Slotless epoll handle fd)
    (taken : handle.del epoll events = some (epoll', handle')) :
    epoll' = epoll ∧ Slotless epoll' handle' fd := by
  rw [PollHandle.del] at taken
  split at taken
  · exact slotless.commit taken
  · cases taken
    exact ⟨rfl, slotless⟩

end Slotless

/-- A step of a socket whose handle has no slot leaves the poller as it is. -/
theorem Slotless.step (slotless : Slotless socket.epoll socket.poll fd)
    {action : SocketAction Slot Data} (stays : socket.NoClose action)
    (taken : socket.step action = some next) :
    next.epoll = socket.epoll ∧ Slotless next.epoll next.poll fd := by
  cases stepped taken with
  | refused pending => exact ⟨rfl, slotless⟩
  | started idle adds commits =>
      obtain ⟨same, first⟩ := slotless.add adds
      rcases commits with rfl | commits
      · exact ⟨same, first⟩
      · obtain ⟨again, second⟩ := first.commit commits
        exact ⟨again.trans same, second⟩
  | entered outside => exact ⟨rfl, slotless.attached, slotless.slot, slotless.absent⟩
  | moved at_ before old idle => exact ⟨rfl, slotless⟩
  | blocked at_ before pending adds old idle => exact slotless.add adds
  | invoked at_ before pending old runs => exact ⟨rfl, slotless⟩
  | returned at_ ran dels old idle =>
      split at dels
      · exact slotless.del dels
      · cases dels
        exact ⟨rfl, slotless⟩
  | thrown at_ => exact ⟨rfl, slotless⟩
  | @left frame polled at_ before commits =>
      have batched : Slotless socket.epoll (socket.poll.batching frame.oldBatching) fd :=
        ⟨slotless.attached, slotless.slot, slotless.absent⟩
      exact batched.commit commits
  | reset leaves resets => rcases leaves with rfl | ⟨fd, rfl⟩ <;> exact stays.elim

/--
A socket that is opened again is never watched: whatever is started and served then, the poller
stays as it is, since the handle has no slot.
-/
theorem reopened_unwatched (absent : (next.epoll.data fd).empty = true)
    (opens : socket.reopen fd = some next) {later : BasicSocket Slot Data}
    (continued : Reachable step NoClose next later) : later.epoll = next.epoll := by
  let holds (later : BasicSocket Slot Data) : Prop :=
    later.epoll = next.epoll ∧ Slotless later.epoll later.poll fd
  have initially : holds next := by
    rw [reopen] at opens
    split at opens
    · obtain ⟨polled, -, rfl⟩ := Option.map_eq_some_iff.mp opens
      exact ⟨rfl, rfl, rfl, absent⟩
    · cases opens
  have reached : holds later := by
    apply continued.invariant initially
    rintro before action after ⟨same, slotless⟩ stays taken
    obtain ⟨kept, still⟩ := Slotless.step slotless stays taken
    exact ⟨kept.trans same, still⟩
  exact reached.1

end BasicSocket

end ReactiveToolbox.Io
