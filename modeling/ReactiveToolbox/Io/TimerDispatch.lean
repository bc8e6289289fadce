import ReactiveToolbox.Io.TimerProgress

/-!
# What a dispatch fires

The timers that have expired when a dispatch begins are fired in the order of
their expiry, each once where no callback has cancelled it before, and no other
timer is.  All of it is told from the log of the dispatch: which timers it fired,
which were cancelled meanwhile, and what it returned.
-/

namespace ReactiveToolbox.Io

open ReactiveToolbox.Lib

universe u v

namespace TimerAction

variable {Queue : Type u} {Slot : Type v}

/-- The end of a callback. -/
def isLeave : TimerAction Queue Slot → Bool
  | .leave => true
  | _ => false

instance (action : TimerAction Queue Slot) : Decidable action.takesArg :=
  match action with
  | .move _ _ | .reset _ => inferInstanceAs (Decidable (_ = _))
  | .declare | .insert _ _ _ _ _ | .copy _ _ | .cancel _ | .setInterval _ _ | .dispatch _ _
  | .leave | .unwind => instDecidableFalse

instance (action : TimerAction Queue Slot) : Decidable action.Keeps :=
  inferInstanceAs (Decidable (_ ∧ _))

instance [DecidableEq Queue] (queue : Queue) (now : Int) (action : TimerAction Queue Slot) :
    Decidable (action.AllowedIn queue now) :=
  match action with
  | .insert _ _ _ _ _ => inferInstanceAs (Decidable (_ → _))
  | .setInterval _ _ | .dispatch _ _ => instDecidableFalse
  | .declare | .copy _ _ | .move _ _ | .reset _ | .cancel _ | .leave | .unwind =>
      instDecidableTrue

end TimerAction

namespace Machine

variable {Queue : Type u} {Slot : Type v} [DecidableEq Queue]
    {machine machine' before started after : Machine Queue Slot}
    {memory : Ptr → Impl Queue Slot} {queue : Queue} {now : Int}

/-! ## Running callbacks -/

/-- Every running dispatch is in a callback. -/
def Calling (machine : Machine Queue Slot) : Prop :=
  ∀ frame ∈ machine.frames, frame.timer ≠ none

theorem Calling.advance (calling : machine.Calling) (frame : Frame Queue) :
    (machine.advance frame).Calling := by
  unfold Machine.advance
  simp only
  split
  · exact calling
  · split
    · intro running member
      rcases List.mem_cons.mp member with rfl | old
      · simp
      · exact calling running old
    · exact calling

theorem Calling.assign (calling : machine.Calling) {target : Ref} (apart : target ≠ .arg)
    {value : Option Ptr} (taken : machine.assign target value = some machine') :
    machine'.Calling := by
  rcases Option.map_eq_some_iff.mp taken with ⟨old, -, rfl⟩
  cases target with
  | var index => exact calling
  | arg => exact absurd rfl apart

theorem Calling.step {action : TimerAction Queue Slot} (calling : machine.Calling)
    (keeps : action.Keeps) (taken : machine.step action = some machine') : machine'.Calling := by
  rcases keeps with ⟨plain, keeps⟩
  cases action with
  | declare =>
      cases taken
      exact calling
  | insert target home expiry interval slot =>
      have inserted : (machine.setStore
          (machine.store.insert home expiry interval slot).2).Calling := calling
      exact inserted.assign plain taken
  | copy target source =>
      rcases Option.bind_eq_some_iff.mp taken with ⟨value, -, taken⟩
      refine Calling.assign ?_ plain taken
      cases value with
      | none => exact calling
      | some impl => exact calling
  | move target source =>
      rcases Option.bind_eq_some_iff.mp taken with ⟨value, -, taken⟩
      refine Calling.assign ?_ plain taken
      cases source with
      | var index => exact calling
      | arg => exact absurd rfl keeps
  | reset target => exact Calling.assign calling keeps taken
  | cancel target =>
      rcases Option.map_eq_some_iff.mp taken with ⟨impl, -, rfl⟩
      exact calling
  | setInterval target interval =>
      rcases Option.map_eq_some_iff.mp taken with ⟨impl, -, rfl⟩
      exact calling
  | dispatch queue now =>
      cases taken
      exact calling.advance _
  | leave =>
      simp only [Machine.step] at taken
      split at taken
      · cases taken
      · rename_i frame rest frames
        cases taken
        refine Calling.advance (fun running member => calling running ?_) _
        exact frames ▸ List.mem_cons_of_mem _ member
  | unwind => exact absurd plain id

/-! ## Every reachable state -/

variable [Fintype Queue]

/-- The invariant of users whose callbacks leave the handle alone that they are passed. -/
structure Settled (machine : Machine Queue Slot) : Prop where
  counted : machine.Counted
  tidy : Tidy (machine.store, machine.frames)
  calling : machine.Calling

theorem initial_settled (memory : Ptr → Impl Queue Slot) : (initial memory).Settled where
  counted := initial_counted memory
  tidy := by
    have empty : ∀ queue impl, ¬ InQueue ((initial memory).store, (initial memory).frames)
        queue impl := by
      rintro queue impl (present | ⟨frame, member, -, -⟩)
      · cases present
      · cases member
    refine ⟨(initial_placed memory).arranged, ⟨fun queue impl queued => ?_,
      fun queue first second queued => ?_⟩, fun impl alive => ?_⟩
    · exact absurd queued (empty queue impl)
    · exact absurd queued (empty queue first)
    · have within : impl < 0 * slabSize := alive.1
      rw [Nat.zero_mul] at within
      exact absurd within (Nat.not_lt_zero impl)
  calling := fun frame member => absurd member List.not_mem_nil

theorem Settled.step {action : TimerAction Queue Slot} (settled : machine.Settled)
    (keeps : action.Keeps) (taken : machine.step action = some machine') : machine'.Settled where
  counted := settled.counted.step taken
  tidy := settled.tidy.effects (step_effects settled.counted keeps.1 taken) keeps.2
  calling := settled.calling.step keeps taken

theorem reachable_settled
    (reached : Reachable step (fun _ action => action.Keeps) (initial memory) machine) :
    machine.Settled :=
  reached.invariant (initial_settled memory) fun _ _ _ settled keeps taken =>
    settled.step keeps taken

/-! ## One dispatch -/

/-- What a callback of `dispatch(now)` may do. -/
def InCallback (queue : Queue) (now : Int) (machine : Machine Queue Slot)
    (action : TimerAction Queue Slot) : Prop :=
  machine.frames ≠ [] ∧ action.Keeps ∧ action.AllowedIn queue now

instance (queue : Queue) (now : Int) (machine : Machine Queue Slot)
    (action : TimerAction Queue Slot) : Decidable (machine.InCallback queue now action) :=
  inferInstanceAs (Decidable (_ ∧ _))

/-- The state of a dispatch that began at `before`. -/
def InProgress (before : Machine Queue Slot) (queue : Queue) (now : Int) (leaves : Nat)
    (machine : Machine Queue Slot) : Prop :=
  ∃ log fired, Progress before.store queue now leaves log fired (machine.store, machine.frames)

/-- The loop goes on to the next callback or to its end. -/
theorem InProgress.advance {leaves : Nat} {frame : Frame Queue} {log : List (TimerEvent Queue)}
    {fired : List Ptr} (counted : machine.Counted)
    (tidy : Tidy (machine.store, frame :: machine.frames)) (idle : frame.timer = none)
    (progress : Progress before.store queue now leaves log fired
      (machine.store, frame :: machine.frames)) :
    InProgress before queue now leaves (machine.advance frame) := by
  have effects : Effects .declare none (machine.store, frame :: machine.frames)
      ((machine.advance frame).store, (machine.advance frame).frames) :=
    advance_effects counted idle
  exact progress.effects tidy effects id trivial (by simp)

theorem Settled.dispatch (settled : before.Settled) (idle : before.frames = []) :
    InProgress before queue now 0
      (before.advance { queue, now, work := 0, timer := none }) := by
  have tidy : Tidy (before.store, { queue, now, work := 0, timer := none } :: before.frames) :=
    settled.tidy.effect (.enters queue now rfl : Effect (.dispatch queue now) none _ _) id
  have heap : ∀ impl, InQueue (before.store, before.frames) queue impl →
      impl ∈ (before.store.queues queue).heap := by
    rw [idle]
    rintro impl (present | ⟨frame, member, -, -⟩)
    · exact present
    · cases member
  have progress : Progress before.store queue now 0 [] []
      (before.store, { queue, now, work := 0, timer := none } :: before.frames) := by
    rw [idle]
    exact {
      logged := (List.append_nil _).symm
      firings := rfl
      dispatches := rfl
      due := fun impl member => absurd member List.not_mem_nil
      once := List.nodup_nil
      sorted := List.Pairwise.nil
      uncancelled := fun impl member => absurd member List.not_mem_nil
      stage := .between rfl
      waiting := by
        intro impl waits expired
        refine ⟨⟨?_, settled.tidy.arranged.owner queue impl waits.1, waits.2, expired⟩,
          List.not_mem_nil, rfl, List.not_mem_nil,
          fun early member => absurd member List.not_mem_nil⟩
        exact Store.Counted.alive settled.counted (Store.refs_pos_of_mem waits.1)
      covered := by
        rintro impl ⟨alive, rfl, waiting, -⟩
        exact Or.inr (Or.inr
          ⟨⟨heap impl (settled.tidy.tracked impl alive waiting), waiting⟩, rfl⟩)
      periodic := fun impl member => absurd member List.not_mem_nil
      oneShot := fun impl member => absurd member List.not_mem_nil
      finished := by
        intro returned
        cases returned }
  exact InProgress.advance settled.counted tidy rfl progress

/-- The callback of a timer ends, and the loop goes on. -/
theorem Settled.leave {leaves : Nat} {frame : Frame Queue} {rest : List (Frame Queue)}
    (settled : machine.Settled) (frames : machine.frames = frame :: rest)
    (progress : InProgress before queue now leaves machine) :
    InProgress before queue now (leaves + 1) (machine.leave frame rest) := by
  rcases progress with ⟨log, fired, progress⟩
  have tidy := settled.tidy
  rw [frames] at progress tidy
  have ended := tidy.effect (expireEnd_effect settled.counted frames) id
  have left : ∃ log, Progress before.store queue now (leaves + 1) log fired
      ((machine.store.expireEnd frame.queue frame.now frame.timer).releaseTimer frame.timer,
        frame.next :: rest) := by
    cases held : frame.timer with
    | none => exact absurd held (settled.calling frame (frames ▸ List.mem_cons_self))
    | some impl =>
        have collecting : ∀ {store : Store Queue Slot},
            Progress before.store queue now (leaves + 1) log fired (store, frame.next :: rest) →
            store.Collects ((machine.store.expireEnd frame.queue frame.now (some impl)).release
              impl) →
            ∃ log, Progress before.store queue now (leaves + 1) log fired
              ((machine.store.expireEnd frame.queue frame.now (some impl)).release impl,
                frame.next :: rest) := by
          intro store progress collected
          rcases quiet_collects queue now (frame.next :: rest) collected with ⟨more, quiet⟩
          exact ⟨_, progress.quiet quiet⟩
        rcases expireEnd_cases settled.counted frames held with
          ⟨waiting, periodic, collected⟩ | ⟨waiting, oneShot, collected⟩ | ⟨ended, collected⟩
        · exact collecting (progress.reschedule held waiting periodic) collected
        · exact collecting (progress.expire tidy held waiting oneShot) collected
        · exact collecting (progress.end tidy held ended) collected
  rcases left with ⟨log, progress⟩
  exact InProgress.advance (settled.counted.left frames) ended rfl progress

/-- What callbacks do keeps a dispatch in progress, and counts them. -/
theorem InProgress.step {leaves : Nat} {action : TimerAction Queue Slot}
    (settled : machine.Settled) (progress : InProgress before queue now leaves machine)
    (allowed : machine.InCallback queue now action)
    (taken : machine.step action = some machine') :
    InProgress before queue now (leaves + if action.isLeave then 1 else 0) machine' := by
  rcases allowed with ⟨-, keeps, allowed⟩
  have effects : action ≠ .leave → InProgress before queue now leaves machine' := by
    intro staying
    rcases progress with ⟨log, fired, progress⟩
    exact progress.effects settled.tidy (step_effects settled.counted keeps.1 taken) keeps.2
      allowed staying
  cases action with
  | leave =>
      simp only [Machine.step] at taken
      split at taken
      · cases taken
      · rename_i frame rest frames
        cases taken
        exact settled.leave frames progress
  | _ => exact effects (by simp)

/-- A run of callbacks keeps the dispatch in progress. -/
theorem run_inProgress (settled : before.Settled) (idle : before.frames = [])
    (entered : before.step (.dispatch queue now) = some started)
    {actions : List (TimerAction Queue Slot)}
    (run : Run step (InCallback queue now) started actions after) :
    after.Settled ∧ InProgress before queue now (actions.countP TimerAction.isLeave) after := by
  induction run with
  | start =>
      have keeps : (TimerAction.dispatch queue now : TimerAction Queue Slot).Keeps :=
        ⟨trivial, id⟩
      refine ⟨settled.step keeps entered, ?_⟩
      cases entered
      exact settled.dispatch idle
  | step _ allowed taken ih =>
      rcases ih with ⟨settled, progress⟩
      refine ⟨settled.step allowed.2.1 taken, ?_⟩
      rw [List.countP_append, List.countP_singleton]
      exact progress.step settled allowed taken

/-! ## What was fired -/

/-- The timers that a dispatch has fired, in order, as its log tells them. -/
structure FiresDue (before after : Machine Queue Slot) (queue : Queue) (now : Int)
    (log : List (TimerEvent Queue)) (fired : List Ptr) : Prop where
  logged : after.store.log = before.store.log ++ log
  firings : log.filter TimerEvent.isFired = fired.map (before.store.firing queue)
  due : ∀ impl ∈ fired, before.store.Due queue now impl
  once : fired.Nodup
  sorted : fired.Pairwise fun first second =>
    before.store.expiry first ≤ before.store.expiry second
  uncancelled : ∀ impl ∈ fired, ∀ early, early ++ [before.store.firing queue impl] <+: log →
    before.store.cancellation queue impl ∉ early

/-- What a dispatch has done when it returns. -/
structure Completes (before after : Machine Queue Slot) (queue : Queue) (now : Int)
    (log : List (TimerEvent Queue)) (fired : List Ptr) : Prop where
  returned : log.filter TimerEvent.isDispatched = [.dispatched queue fired.length]
  complete : ∀ impl, before.store.Due queue now impl →
    before.store.cancellation queue impl ∉ log → impl ∈ fired
  periodic : ∀ impl ∈ fired, 0 < (before.store.impls impl).interval →
    before.store.cancellation queue impl ∉ log →
      after.store.Waits queue impl ∧
        (after.store.impls impl).id = (before.store.impls impl).id ∧
        after.store.expiry impl =
          max (before.store.expiry impl + (before.store.impls impl).interval) (now + 1)
  oneShot : ∀ impl ∈ fired, ¬ 0 < (before.store.impls impl).interval →
    ∀ later, Reachable step (fun _ action => action.Keeps) after later →
      ∃ more, later.store.log = after.store.log ++ more ∧ ∀ expiry interval,
        .fired queue (before.store.impls impl).id expiry interval ∉ more

/-- A number that was gone has not been fired since. -/
structure StaysGone (queue : Queue) (number : Int) (after later : Machine Queue Slot) : Prop where
  settled : later.Settled
  gone : Gone (later.store, later.frames) queue number
  unfired : ∃ more, later.store.log = after.store.log ++ more ∧
    ∀ expiry interval, .fired queue number expiry interval ∉ more

theorem StaysGone.step {number : Int} {action : TimerAction Queue Slot}
    (stays : StaysGone queue number after machine) (keeps : action.Keeps)
    (taken : machine.step action = some machine') : StaysGone queue number after machine' := by
  rcases stays with ⟨settled, gone, more, logged, unfired⟩
  rcases gone.effects (step_effects settled.counted keeps.1 taken) with
    ⟨gone', more', logged', unfired'⟩
  refine ⟨settled.step keeps taken, gone', more ++ more', ?_, fun expiry interval => ?_⟩
  · rw [← List.append_assoc, ← logged]
    exact logged'
  · exact List.not_mem_append (unfired expiry interval) (unfired' expiry interval)

/-- A number that is gone is not fired, whatever users do. -/
theorem reachable_staysGone {number : Int} (settled : after.Settled)
    (gone : Gone (after.store, after.frames) queue number) {later : Machine Queue Slot}
    (reached : Reachable step (fun _ action => action.Keeps) after later) :
    StaysGone queue number after later := by
  have initially : StaysGone queue number after after :=
    ⟨settled, gone, [], (List.append_nil _).symm, by simp⟩
  exact reached.invariant initially fun _ _ _ stays keeps taken => stays.step keeps taken

/--
Whatever its callbacks do, a dispatch fires the timers that had expired when it
began, each once unless a callback has cancelled it before, in the order of their
expiry.  It ends after as many callbacks, and returns their number.
-/
theorem dispatch_fires_due
    (reached : Reachable step (fun _ action => action.Keeps) (initial memory) before)
    (idle : before.frames = [])
    (entered : before.step (.dispatch queue now) = some started)
    {actions : List (TimerAction Queue Slot)}
    (run : Run step (InCallback queue now) started actions after) :
    ∃ log fired, FiresDue before after queue now log fired ∧
      actions.countP TimerAction.isLeave + (if after.frames.isEmpty then 0 else 1) =
        fired.length ∧
      fired.length ≤ (before.store.queues queue).heap.length ∧
      (after.frames ≠ [] → (after.step .leave).isSome) ∧
      (after.frames = [] → Completes before after queue now log fired) := by
  have settled := reachable_settled reached
  rcases run_inProgress settled idle entered run with ⟨settled', log, fired, progress⟩
  refine ⟨log, fired, ⟨progress.logged, progress.firings, progress.due, progress.once,
    progress.sorted, progress.uncancelled⟩, ?_, ?_, fun busy => ?_, fun returned => ?_⟩
  · have stage := progress.stage
    have calling := settled'.calling
    rw [Calling] at calling
    generalize frames : after.frames = running at stage calling
    cases stage with
    | between => exact absurd rfl (calling _ List.mem_cons_self)
    | calling last count =>
        rw [last, List.length_append, count]
        rfl
    | returned count => exact count
  · refine (progress.once.subperm fun impl member => ?_).length_le
    rcases progress.due impl member with ⟨alive, rfl, waiting, -⟩
    rcases settled.tidy.tracked impl alive waiting with present | ⟨frame, member, -, -⟩
    · exact present
    · rw [idle] at member
      cases member
  · simp only [Machine.step]
    split
    · contradiction
    · rfl
  · have past : ∀ impl, ∀ frame ∈ after.frames, frame.timer ≠ some impl := by
      rw [returned]
      exact fun impl frame member => absurd member List.not_mem_nil
    refine ⟨?_, fun impl due uncancelled => ?_, fun impl member positive uncancelled => ?_,
      fun impl member single later reached => ?_⟩
    · rw [progress.dispatches, returned]
      rfl
    · rcases progress.covered impl due with done | cancelled | ⟨waits, same⟩
      · exact done
      · exact absurd cancelled uncancelled
      · -- A timer that still waits would expire later than it does.
        have later := progress.finished returned impl waits
        rw [(Store.firing_eq_iff.mp same).2.1] at later
        exact absurd due.expired (not_le_of_gt later)
    · rcases (progress.periodic impl member (past impl) positive).resolve_left uncancelled with
        ⟨waits, again⟩
      obtain ⟨-, number, expiry, -⟩ := TimerEvent.fired.inj again
      exact ⟨waits, number, expiry⟩
    · have gone := progress.oneShot impl member (past impl) single
      exact (reachable_staysGone settled' gone reached).unfired

/-- A one-shot timer, a periodic one, and a third that both would come before. -/
def threeTimers : List (TimerAction Bool Nat) :=
  [.declare, .declare, .declare, .insert (.var 0) false 1 0 7, .insert (.var 1) false 2 5 8,
    .insert (.var 2) false 3 0 9]

/-- The first callback cancels the third timer. -/
def cancelThird : List (TimerAction Bool Nat) :=
  [.cancel (.var 2), .leave, .leave]

theorem dispatch_fires_due_cancelled :
    ∃ before after : Machine Bool Nat, ∃ log fired,
      FiresDue before after false 4 log fired ∧ fired.length = 2 ∧
        Completes before after false 4 log fired := by
  have computed :
      ((execute step (fun _ action => action.Keeps) (initial blankMemory) threeTimers).bind
        fun before => (before.step (.dispatch false 4)).bind fun started =>
          (execute step (InCallback false 4) started cancelThird).map fun after =>
            (before.frames, after.frames)) = some ([], []) := by
    decide +kernel
  rcases Option.bind_eq_some_iff.mp computed with ⟨before, reached, computed⟩
  rcases Option.bind_eq_some_iff.mp computed with ⟨started, entered, computed⟩
  rcases Option.map_eq_some_iff.mp computed with ⟨after, run, ends⟩
  rcases Prod.mk.inj ends with ⟨idle, returned⟩
  rcases dispatch_fires_due ⟨_, Run.of_execute reached⟩ idle entered (Run.of_execute run) with
    ⟨log, fired, fires, count, -, -, completes⟩
  rw [returned] at count
  exact ⟨before, after, log, fired, fires, count.symm, completes returned⟩

end Machine

end ReactiveToolbox.Io
