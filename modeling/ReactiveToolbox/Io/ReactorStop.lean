import ReactiveToolbox.Io.Reactor

/-!
# Stopping a reactor from other threads

A runner starts a thread that runs its reactor.  Its destructor calls `stop` and
`wakeup`, and joins the thread.  The steps of the threads are their accesses to
what they share: the reactor's state, its stop flag, and the event file
descriptor that ends a wait.
-/

namespace ReactiveToolbox.Io

open ReactiveToolbox.Lib

universe v

/-- `io::State`. -/
inductive LifeState where
  | unknown
  | pendingOpen
  | opened
  | pendingClosed
  | closed
  | failed
  | crashed
deriving DecidableEq

/-- Where the thread of a runner is, by what it does next. -/
inductive RunPhase where
  /-- `init_`. -/
  | starting
  | settingPendingOpen
  | settingOpen
  /-- The condition of the loop, after some cycles without work. -/
  | testing (cycles : Nat)
  | polling (cycles : Nat)
  | waiting (cycles : Nat) (wait : Wait)
  /-- Serving what is ready, the event file descriptor among it or not. -/
  | dispatching (cycles : Nat) (notified : Bool)
  | settingPendingClosed
  | settingClosed
  | ended
deriving DecidableEq

/-- Where a call of `stop` or of `wakeup` is, by what it does next. -/
inductive CallPhase where
  | idle
  /-- The second comparison of `stop`. -/
  | comparing
  | settingClosed
  | settingStop
  /-- `wakeup` writes to the event file descriptor. -/
  | notifying
deriving DecidableEq

/-- A runner with the callers of its reactor: its destructor, handlers, other threads. -/
structure Runner where
  state : LifeState
  stop : Bool
  notify : Nat
  thread : RunPhase
  callers : Nat → CallPhase

/-- What the thread of the reactor does next. -/
inductive ThreadAction (Slot : Type v) where
  | init (accepted : Bool)
  | store
  | test
  /-- `poll`, with the timers and the hooks that there are. -/
  | poll (reactor : Reactor Slot) (now : Int)
  /-- A wait returns, for something else than `wakeup` or not. -/
  | ready (outside notified : Bool)
  | read
  | dispatched (work : Nat)
  | raise

/-- What a caller of `stop` or `wakeup` does. -/
inductive CallAction where
  | stop
  | wakeup
  | next

/-- One step of the thread or of a caller. -/
inductive RunnerAction (Slot : Type v) where
  | thread (action : ThreadAction Slot)
  | caller (caller : Nat) (action : CallAction)

namespace Runner

variable {Slot : Type v}

/-- The reactor is closed, and nobody calls it. -/
def initial : Runner where
  state := .closed
  stop := false
  notify := 0
  thread := .starting
  callers _ := .idle

/-- `Reactor::state`, and what the thread does after it. -/
def set (runner : Runner) (state : LifeState) (thread : RunPhase) : Runner :=
  { runner with state, thread }

/-- What the thread does after a step that the callers do not see. -/
def goto (runner : Runner) (thread : RunPhase) : Runner :=
  { runner with thread }

/-- A caller has got to a phase. -/
def callGoto (runner : Runner) (caller : Nat) (phase : CallPhase) : Runner :=
  { runner with callers := Function.update runner.callers caller phase }

/-- The time that a cycle may wait for: it is busy for the first hundred without work. -/
def timeout (cycles : Nat) : Int :=
  if cycles < 100 then 0 else noTimeout

/-- A wait returns for the event file descriptor, for what is outside, or at its end. -/
def Returns (runner : Runner) (wait : Wait) (outside notified : Bool) : Prop :=
  (notified = true → 0 < runner.notify) ∧ (0 < runner.notify → notified = true ∨ outside = true) ∧
    (wait = .forever → notified = true ∨ outside = true)

instance (runner : Runner) (wait : Wait) (outside notified : Bool) :
    Decidable (runner.Returns wait outside notified) :=
  inferInstanceAs (Decidable (_ ∧ _ ∧ _))

/-- `BasicRunner::operator()` with `MultiReactor::run` and `poll`. -/
def advance (runner : Runner) : ThreadAction Slot → Option Runner
  | .init accepted =>
      match runner.thread with
      | .starting => some (runner.goto (if accepted then .settingPendingOpen else .ended))
      | _ => none
  | .store =>
      match runner.thread with
      | .settingPendingOpen => some (runner.set .pendingOpen .settingOpen)
      | .settingOpen => some (runner.set .opened (.testing 0))
      | .settingPendingClosed => some (runner.set .pendingClosed .settingClosed)
      | .settingClosed => some (runner.set .closed .ended)
      | _ => none
  | .test =>
      match runner.thread with
      | .testing cycles =>
          some (runner.goto (if runner.stop then .settingPendingClosed else .polling cycles))
      | _ => none
  | .poll reactor now =>
      match runner.thread with
      | .polling cycles =>
          some (runner.goto (.waiting ((cycles + 1) % 2 ^ 64)
            (Reactor.wait (reactor.waitUntil now (timeout cycles)) 0)))
      | _ => none
  | .ready outside notified =>
      match runner.thread with
      | .waiting cycles wait =>
          if runner.Returns wait outside notified then
            some (runner.goto (.dispatching cycles notified))
          else none
      | _ => none
  | .read =>
      match runner.thread with
      | .dispatching cycles true =>
          some { runner with notify := 0, thread := .dispatching cycles false }
      | _ => none
  | .dispatched work =>
      match runner.thread with
      | .dispatching cycles false =>
          some (runner.goto (.testing (if 0 < work then 0 else cycles)))
      | _ => none
  | .raise =>
      -- `init_`, a wait, a handler or a hook throws; `run_thread` catches it.
      match runner.thread with
      | .starting | .waiting .. | .dispatching .. => some (runner.goto .ended)
      | _ => none

/-- `Reactor::stop` and `MultiReactor::wakeup`, one access to the reactor a step. -/
def invoke (runner : Runner) (caller : Nat) (action : CallAction) : Option Runner :=
  match action, runner.callers caller with
  | .stop, .idle =>
      some (runner.callGoto caller (if runner.state = .pendingClosed then .idle else .comparing))
  | .wakeup, .idle =>
      some (runner.callGoto caller (if runner.state = .opened then .notifying else .idle))
  | .next, .comparing =>
      some (runner.callGoto caller (if runner.state = .closed then .idle else .settingClosed))
  | .next, .settingClosed =>
      some ({ runner with state := .closed }.callGoto caller .settingStop)
  | .next, .settingStop =>
      some ({ runner with stop := true }.callGoto caller .idle)
  | .next, .notifying =>
      -- A counter at its greatest value makes the write fail, which `wakeup` ignores.
      some ({ runner with
        notify := if runner.notify < 2 ^ 64 - 2 then runner.notify + 1 else runner.notify
        }.callGoto caller .idle)
  | _, _ => none

/-- One step of the thread or of a caller. -/
def step (runner : Runner) : RunnerAction Slot → Option Runner
  | .thread action => runner.advance action
  | .caller caller action => runner.invoke caller action

/-! ## What a call does -/

/-- What a step of a call does to a runner. -/
inductive Invoked (runner : Runner) (caller : Nat) : CallAction → Runner → Prop where
  | begun (idle : runner.callers caller = .idle) :
      Invoked runner caller .stop (runner.callGoto caller .comparing)
  | refused (idle : runner.callers caller = .idle) (leaving : runner.state = .pendingClosed) :
      Invoked runner caller .stop (runner.callGoto caller .idle)
  | woken (idle : runner.callers caller = .idle) (opened : runner.state = .opened) :
      Invoked runner caller .wakeup (runner.callGoto caller .notifying)
  | ignored (idle : runner.callers caller = .idle) (shut : runner.state ≠ .opened) :
      Invoked runner caller .wakeup (runner.callGoto caller .idle)
  | compared (at_ : runner.callers caller = .comparing) (running : runner.state ≠ .closed) :
      Invoked runner caller .next (runner.callGoto caller .settingClosed)
  | returned (at_ : runner.callers caller = .comparing) (ended : runner.state = .closed) :
      Invoked runner caller .next (runner.callGoto caller .idle)
  | closed (at_ : runner.callers caller = .settingClosed) :
      Invoked runner caller .next ({ runner with state := .closed }.callGoto caller .settingStop)
  | stopped (at_ : runner.callers caller = .settingStop) :
      Invoked runner caller .next ({ runner with stop := true }.callGoto caller .idle)
  | notified (count : Nat) (at_ : runner.callers caller = .notifying) (some_count : 0 < count) :
      Invoked runner caller .next ({ runner with notify := count }.callGoto caller .idle)

variable {runner next : Runner} {caller other : Nat} {call : CallAction}

theorem callGoto_self (runner : Runner) (caller : Nat) (phase : CallPhase) :
    (runner.callGoto caller phase).callers caller = phase :=
  Function.update_self _ _ _

theorem callGoto_ne (runner : Runner) (apart : other ≠ caller) (phase : CallPhase) :
    (runner.callGoto caller phase).callers other = runner.callers other :=
  Function.update_of_ne apart _ _

/-- What holds of every caller holds of one more phase. -/
theorem callGoto_all (caller : Nat) {motive : CallPhase → Prop} {phase : CallPhase}
    (all : ∀ other, motive (runner.callers other)) (here : motive phase) (other : Nat) :
    motive ((runner.callGoto caller phase).callers other) := by
  by_cases same : other = caller
  · subst same
    rw [callGoto_self]
    exact here
  · rw [callGoto_ne runner same]
    exact all other

theorem count_pos (count : Nat) : 0 < if count < 2 ^ 64 - 2 then count + 1 else count := by
  split
  · exact Nat.succ_pos count
  · rename_i full
    exact Nat.lt_of_lt_of_le (by decide) (Nat.le_of_not_lt full)

theorem invoked (taken : runner.invoke caller call = some next) :
    runner.Invoked caller call next := by
  revert taken
  fun_cases invoke
  all_goals
    intro taken
    cases taken
  · rename_i idle
    by_cases leaving : runner.state = .pendingClosed
    · rw [if_pos leaving]
      exact .refused idle leaving
    · rw [if_neg leaving]
      exact .begun idle
  · rename_i idle
    by_cases opened : runner.state = .opened
    · rw [if_pos opened]
      exact .woken idle opened
    · rw [if_neg opened]
      exact .ignored idle opened
  · rename_i at_
    by_cases ended : runner.state = .closed
    · rw [if_pos ended]
      exact .returned at_ ended
    · rw [if_neg ended]
      exact .compared at_ ended
  · exact .closed ‹_›
  · exact .stopped ‹_›
  · exact .notified _ ‹_› (count_pos runner.notify)

theorem Invoked.thread (invoked : runner.Invoked caller call next) :
    next.thread = runner.thread := by
  cases invoked <;> rfl

theorem Invoked.others (invoked : runner.Invoked caller call next) (apart : other ≠ caller) :
    next.callers other = runner.callers other := by
  cases invoked <;> exact callGoto_ne _ apart _

/-- A call closes the state, or leaves it. -/
theorem Invoked.state (invoked : runner.Invoked caller call next) :
    next.state = runner.state ∨ next.state = .closed := by
  cases invoked with
  | closed => exact .inr rfl
  | _ => exact .inl rfl

/-- No call opens the state. -/
theorem Invoked.shut (invoked : runner.Invoked caller call next) (shut : runner.state ≠ .opened) :
    next.state ≠ .opened := by
  rcases invoked.state with same | closed
  · rw [same]
    exact shut
  · rw [closed]
    exact LifeState.noConfusion

/-- Nothing takes a stop back. -/
theorem Invoked.stop (invoked : runner.Invoked caller call next) (stopped : runner.stop = true) :
    next.stop = true := by
  cases invoked with
  | stopped => rfl
  | _ => exact stopped

/-! ## Stops before the reactor runs -/

/-- The thread has not yet changed the state. -/
def Early (runner : Runner) : Prop :=
  runner.thread = .starting ∨ runner.thread = .settingPendingOpen

/-- What holds of every runner that is reached. -/
structure Inv (runner : Runner) : Prop where
  closed : runner.Early → runner.state = .closed
  running : runner.Early → runner.stop = false
  calls : runner.Early → ∀ caller,
    runner.callers caller = .idle ∨ runner.callers caller = .comparing
  few : ∃ count, ∀ caller, count ≤ caller → runner.callers caller = .idle

theorem inv_initial : initial.Inv where
  closed _ := rfl
  running _ := rfl
  calls _ _ := .inl rfl
  few := ⟨0, fun _ _ => rfl⟩

theorem Inv.invoked (inv : runner.Inv) (called : runner.Invoked caller call next) : next.Inv := by
  have early : next.Early → runner.Early := by
    intro before
    rw [Early, called.thread] at before
    exact before
  have few : ∃ count, ∀ other, count ≤ other → next.callers other = .idle := by
    obtain ⟨count, idle⟩ := inv.few
    refine ⟨max count (caller + 1), fun other beyond => ?_⟩
    rw [called.others (by omega)]
    exact idle other ((Nat.le_max_left _ _).trans beyond)
  have late {phase : CallPhase} (at_ : runner.callers caller = phase) (other : phase ≠ .idle)
      (another : phase ≠ .comparing) : ¬runner.Early := by
    intro before
    rcases inv.calls before caller with idle | comparing
    · exact other (at_.symm.trans idle)
    · exact another (at_.symm.trans comparing)
  have quiet {phase : CallPhase} (either : phase = .idle ∨ phase = .comparing)
      (before : runner.Early) := callGoto_all caller
    (motive := fun at_ => at_ = .idle ∨ at_ = .comparing) (inv.calls before) either
  cases called with
  | begun | refused | ignored | returned =>
      refine ⟨fun before => inv.closed (early before), fun before => inv.running (early before),
        fun before => quiet ?_ (early before), few⟩
      first
        | exact .inl rfl
        | exact .inr rfl
  | woken idle opened =>
      have unlike : ¬runner.Early := fun before => by cases opened.symm.trans (inv.closed before)
      exact ⟨fun before => absurd (early before) unlike, fun before => absurd (early before) unlike,
        fun before => absurd (early before) unlike, few⟩
  | compared at_ running =>
      have unlike : ¬runner.Early := fun before => running (inv.closed before)
      exact ⟨fun before => absurd (early before) unlike, fun before => absurd (early before) unlike,
        fun before => absurd (early before) unlike, few⟩
  | closed at_ | stopped at_ | notified _ at_ =>
      have unlike := late at_ CallPhase.noConfusion CallPhase.noConfusion
      exact ⟨fun before => absurd (early before) unlike, fun before => absurd (early before) unlike,
        fun before => absurd (early before) unlike, few⟩

/-! ## What the thread does -/

/-- What a step of the thread does to a runner. -/
inductive Advanced (runner : Runner) : ThreadAction Slot → Runner → Prop where
  | accepted (at_ : runner.thread = .starting) :
      Advanced runner (.init true) (runner.goto .settingPendingOpen)
  | declined (at_ : runner.thread = .starting) :
      Advanced runner (.init false) (runner.goto .ended)
  | pendingOpen (at_ : runner.thread = .settingPendingOpen) :
      Advanced runner .store (runner.set .pendingOpen .settingOpen)
  | opened (at_ : runner.thread = .settingOpen) :
      Advanced runner .store (runner.set .opened (.testing 0))
  | pendingClosed (at_ : runner.thread = .settingPendingClosed) :
      Advanced runner .store (runner.set .pendingClosed .settingClosed)
  | closed (at_ : runner.thread = .settingClosed) :
      Advanced runner .store (runner.set .closed .ended)
  | stopping (cycles : Nat) (at_ : runner.thread = .testing cycles)
      (stopped : runner.stop = true) :
      Advanced runner .test (runner.goto .settingPendingClosed)
  | going (cycles : Nat) (at_ : runner.thread = .testing cycles) (running : runner.stop = false) :
      Advanced runner .test (runner.goto (.polling cycles))
  | polled (reactor : Reactor Slot) (now : Int) (cycles counted : Nat) (wait : Wait)
      (at_ : runner.thread = .polling cycles) :
      Advanced runner (.poll reactor now) (runner.goto (.waiting counted wait))
  | returned (outside notified : Bool) (cycles : Nat) (wait : Wait)
      (at_ : runner.thread = .waiting cycles wait)
      (returns : runner.Returns wait outside notified) :
      Advanced runner (.ready outside notified) (runner.goto (.dispatching cycles notified))
  | read (cycles : Nat) (at_ : runner.thread = .dispatching cycles true) :
      Advanced runner .read { runner with notify := 0, thread := .dispatching cycles false }
  | dispatched (work cycles counted : Nat) (at_ : runner.thread = .dispatching cycles false) :
      Advanced runner (.dispatched work) (runner.goto (.testing counted))
  | raised (going : runner.thread ≠ .ended) : Advanced runner .raise (runner.goto .ended)

variable {action : ThreadAction Slot}

theorem advanced (taken : runner.advance action = some next) : runner.Advanced action next := by
  revert taken
  fun_cases advance
  all_goals
    intro taken
    cases taken
  · rename_i accepted at_
    cases accepted with
    | true => exact .accepted at_
    | false => exact .declined at_
  · exact .pendingOpen ‹_›
  · exact .opened ‹_›
  · exact .pendingClosed ‹_›
  · exact .closed ‹_›
  · rename_i cycles at_
    by_cases stopped : runner.stop = true
    · rw [if_pos stopped]
      exact .stopping cycles at_ stopped
    · rw [if_neg stopped]
      exact .going cycles at_ (Bool.eq_false_of_not_eq_true stopped)
  · exact .polled _ _ _ _ _ ‹_›
  · exact .returned _ _ _ _ ‹_› ‹_›
  · exact .read _ ‹_›
  · exact .dispatched _ _ _ ‹_›
  all_goals
    rename_i at_
    apply Advanced.raised
    rw [at_]
    intro wrong
    cases wrong

theorem Advanced.callers (taken : runner.Advanced action next) :
    next.callers = runner.callers := by
  cases taken <;> rfl

theorem Advanced.stop (taken : runner.Advanced action next) : next.stop = runner.stop := by
  cases taken <;> rfl

/-- The thread is early before its first store only. -/
theorem Advanced.early (taken : runner.Advanced action next) (early : next.Early) :
    runner.Early ∧ next.state = runner.state := by
  cases taken with
  | accepted at_ => exact ⟨.inl at_, rfl⟩
  | _ => rcases early with at_ | at_ <;> cases at_

theorem Inv.advanced (inv : runner.Inv) (taken : runner.Advanced action next) : next.Inv where
  closed early := by
    obtain ⟨before, same⟩ := taken.early early
    rw [same]
    exact inv.closed before
  running early := by
    rw [taken.stop]
    exact inv.running (taken.early early).1
  calls early := by
    rw [taken.callers]
    exact inv.calls (taken.early early).1
  few := by
    rw [taken.callers]
    exact inv.few

theorem inv_of_reachable (reached : Reachable (@step Slot) unguarded initial runner) :
    runner.Inv := by
  apply reached.invariant inv_initial
  intro before action after inv _ taken
  cases action with
  | thread action => exact inv.advanced (advanced taken)
  | caller caller action => exact inv.invoked (invoked taken)

/-- Nobody calls `stop` any more. -/
def NoStop (_ : Runner) : RunnerAction Slot → Prop
  | .caller _ .stop => False
  | _ => True

/-- Nobody is going to stop the thread, which is not about to leave its loop. -/
structure Unstopped (runner : Runner) : Prop where
  running : runner.stop = false
  calls : ∀ caller, runner.callers caller = .idle ∨ runner.callers caller = .notifying
  stays : runner.thread ≠ .settingPendingClosed
  remains : runner.thread ≠ .settingClosed

theorem Unstopped.advanced (unstopped : runner.Unstopped)
    (taken : runner.Advanced action next) : next.Unstopped := by
  refine ⟨taken.stop.trans unstopped.running, ?_, ?_, ?_⟩
  · rw [taken.callers]
    exact unstopped.calls
  · cases taken with
    | stopping cycles at_ stopped => cases stopped.symm.trans unstopped.running
    | _ => exact RunPhase.noConfusion
  · cases taken with
    | pendingClosed at_ => exact absurd at_ unstopped.stays
    | _ => exact RunPhase.noConfusion

theorem Unstopped.invoked (unstopped : runner.Unstopped) (silent : call ≠ .stop)
    (called : runner.Invoked caller call next) : next.Unstopped := by
  have calls {phase : CallPhase} (either : phase = .idle ∨ phase = .notifying) :=
    callGoto_all caller (motive := fun at_ => at_ = .idle ∨ at_ = .notifying)
      unstopped.calls either
  have elsewhere {phase : CallPhase} (at_ : runner.callers caller = phase) :
      phase = .idle ∨ phase = .notifying := by
    rw [← at_]
    exact unstopped.calls caller
  cases called with
  | begun | refused => exact absurd rfl silent
  | woken =>
      exact ⟨unstopped.running, calls (.inr rfl), unstopped.stays, unstopped.remains⟩
  | ignored | notified =>
      exact ⟨unstopped.running, calls (.inl rfl), unstopped.stays, unstopped.remains⟩
  | compared at_ | returned at_ | closed at_ | stopped at_ =>
      rcases elsewhere at_ with wrong | wrong <;> cases wrong

/-- `init_` refuses, or something throws. -/
def RunnerAction.fails : RunnerAction Slot → Bool
  | .thread (.init false) => true
  | .thread .raise => true
  | _ => false

/-- A thread that nobody stops comes to its end by a failure only. -/
theorem Unstopped.ends_failing (unstopped : runner.Unstopped)
    (taken : runner.Advanced action next) (ended : next.thread = .ended) :
    RunnerAction.fails (.thread action) = true := by
  cases taken with
  | declined at_ => rfl
  | raised going => rfl
  | closed at_ => exact absurd at_ unstopped.remains
  | stopping cycles at_ stopped => cases stopped.symm.trans unstopped.running
  | read cycles at_ => cases ended
  | _ => cases ended

/--
Calls of `stop` that have returned before the thread has changed the state are lost: unless
`stop` is called again, the thread never leaves its loop, whatever else wakes it, and it comes
to its end only where it fails.
-/
theorem stop_lost (reached : Reachable (@step Slot) unguarded initial runner)
    (early : runner.Early) (returned : ∀ caller, runner.callers caller = .idle)
    {actions : List (RunnerAction Slot)} (later : Run (@step Slot) NoStop runner actions next) :
    next.stop = false ∧ next.thread ≠ .settingPendingClosed ∧ next.thread ≠ .settingClosed ∧
      (next.thread = .ended → actions.any RunnerAction.fails = true) := by
  have unstopped : runner.Unstopped := by
    refine ⟨(inv_of_reachable reached).running early, fun caller => .inl (returned caller), ?_, ?_⟩
    · rcases early with at_ | at_ <;> rw [at_] <;> intro wrong <;> cases wrong
    · rcases early with at_ | at_ <;> rw [at_] <;> intro wrong <;> cases wrong
  suffices last : next.Unstopped ∧
      (next.thread = .ended → actions.any RunnerAction.fails = true) from
    ⟨last.1.running, last.1.stays, last.1.remains, last.2⟩
  induction later with
  | start =>
      refine ⟨unstopped, fun ended => ?_⟩
      rcases early with at_ | at_ <;> cases at_.symm.trans ended
  | @step actions before action after _ allowed taken ih =>
      obtain ⟨holds, failed⟩ := ih
      rw [List.any_append, Bool.or_eq_true]
      cases action with
      | thread action =>
          have advanced := advanced taken
          refine ⟨holds.advanced advanced, fun ended => .inr ?_⟩
          rw [List.any_cons, List.any_nil, Bool.or_false]
          exact holds.ends_failing advanced ended
      | caller caller call =>
          have called := invoked taken
          refine ⟨holds.invoked ?_ called, fun ended => .inl (failed (called.thread ▸ ended))⟩
          rintro rfl
          exact allowed

/-- A `stop` that has been lost, as a runner is destroyed before its thread runs. -/
def stoppedEarly : Runner :=
  (initial.callGoto 0 .comparing).callGoto 0 .idle

/-- The thread then runs, and is woken. -/
def runsOn : List (RunnerAction Nat) :=
  [.thread (.init true), .thread .store, .thread .store, .thread .test]

instance (runner : Runner) (action : RunnerAction Slot) : Decidable (NoStop runner action) :=
  match action with
  | .caller _ .stop => instDecidableFalse
  | .caller _ .wakeup | .caller _ .next | .thread _ => instDecidableTrue

theorem stop_lost_early :
    ∃ next : Runner, next.thread = .polling 0 ∧ next.stop = false ∧
      next.thread ≠ .settingPendingClosed ∧ next.thread ≠ .settingClosed ∧
      (next.thread = .ended → runsOn.any RunnerAction.fails = true) := by
  have called : Reachable (@step Nat) unguarded initial (initial.callGoto 0 .comparing) :=
    .extend .refl trivial (show step initial (.caller 0 .stop) = _ from rfl)
  have reached : Reachable (@step Nat) unguarded initial stoppedEarly :=
    called.extend trivial (show step _ (.caller 0 .next) = _ from rfl)
  have returned : ∀ caller, stoppedEarly.callers caller = .idle := by
    intro caller
    by_cases same : caller = 0
    · rw [same]
      rfl
    · rw [stoppedEarly, callGoto_ne _ same, callGoto_ne _ same]
      rfl
  obtain ⟨taken, polls⟩ : ∃ taken : (execute step NoStop stoppedEarly runsOn).isSome,
      ((execute step NoStop stoppedEarly runsOn).get taken).thread = .polling 0 := by decide
  have later := Run.of_execute (Option.some_get taken).symm
  exact ⟨_, polls, stop_lost reached (.inl rfl) returned later⟩

/-! ## After the stop -/

end Runner

/-- How many steps a thread that is stopped has left. -/
def RunPhase.left : RunPhase → Nat
  | .polling _ => 7
  | .starting | .waiting .. => 6
  | .settingPendingOpen | .dispatching _ true => 5
  | .settingOpen | .dispatching _ false => 4
  | .testing _ => 3
  | .settingPendingClosed => 2
  | .settingClosed => 1
  | .ended => 0

/-- How many polls a thread that is stopped has left. -/
def RunPhase.polls : RunPhase → Nat
  | .polling _ => 1
  | _ => 0

theorem RunPhase.left_le (phase : RunPhase) : phase.left ≤ 7 := by
  unfold left
  split <;> decide

theorem RunPhase.polls_le (phase : RunPhase) : phase.polls ≤ 1 := by
  unfold polls
  split <;> decide

/-- The step is a wait of the thread. -/
def ThreadAction.isPoll {Slot : Type v} : ThreadAction Slot → Bool
  | .poll .. => true
  | _ => false

/-- The step is one of the thread. -/
def RunnerAction.ofThread {Slot : Type v} : RunnerAction Slot → Bool
  | .thread _ => true
  | .caller .. => false

/-- The step is a wait of the thread. -/
def RunnerAction.isPoll {Slot : Type v} : RunnerAction Slot → Bool
  | .thread action => action.isPoll
  | .caller .. => false

namespace Runner

variable {Slot : Type v} {runner next : Runner} {caller other cycles : Nat}
  {action : ThreadAction Slot}

/-- Where the stop flag is set, each step of the thread brings it nearer to its end. -/
theorem Advanced.left_lt (taken : runner.Advanced action next) (stopped : runner.stop = true) :
    next.thread.left < runner.thread.left := by
  cases taken with
  | going cycles at_ running => cases running.symm.trans stopped
  | raised going =>
      refine Nat.pos_of_ne_zero fun none => going ?_
      cases at_ : runner.thread with
      | ended => rfl
      | dispatching cycles notified => cases notified <;> rw [at_] at none <;> cases none
      | _ => rw [at_] at none; cases none
  | returned outside notified cycles wait at_ returns =>
      rw [at_]
      cases notified <;> exact Nat.lt_of_sub_eq_succ rfl
  | accepted at_ | declined at_ | pendingOpen at_ | opened at_ | pendingClosed at_ | closed at_
  | stopping _ at_ | polled _ _ _ _ _ at_ | read _ at_ | dispatched _ _ _ at_ =>
      rw [at_]
      exact Nat.lt_of_sub_eq_succ rfl

/-- Where the stop flag is set, no other poll comes within reach. -/
theorem Advanced.polls_le (taken : runner.Advanced action next) (stopped : runner.stop = true) :
    action.isPoll.toNat + next.thread.polls ≤ runner.thread.polls := by
  cases taken with
  | going cycles at_ running => cases running.symm.trans stopped
  | polled reactor now cycles counted wait at_ =>
      rw [at_]
      exact Nat.le_refl 1
  | _ => exact Nat.zero_le _

/--
Once the stop flag is set, the thread takes at most seven more steps, and begins to poll at
most once more, in every run and whatever is called in it.
-/
theorem stop_heeded (stopped : runner.stop = true) {actions : List (RunnerAction Slot)}
    (run : Run step unguarded runner actions next) :
    actions.countP RunnerAction.ofThread ≤ 7 ∧ actions.countP RunnerAction.isPoll ≤ 1 := by
  suffices counted : next.stop = true ∧
      actions.countP RunnerAction.ofThread + next.thread.left ≤ runner.thread.left ∧
      actions.countP RunnerAction.isPoll + next.thread.polls ≤ runner.thread.polls by
    obtain ⟨-, steps, polls⟩ := counted
    exact ⟨(Nat.le_of_add_right_le steps).trans runner.thread.left_le,
      (Nat.le_of_add_right_le polls).trans runner.thread.polls_le⟩
  induction run with
  | start => exact ⟨stopped, (Nat.zero_add _).le, (Nat.zero_add _).le⟩
  | @step actions before action after initial allowed taken ih =>
      obtain ⟨still, steps, polls⟩ := ih
      rw [List.countP_append, List.countP_append]
      cases action with
      | thread action =>
          have advanced := advanced taken
          have nearer := advanced.left_lt still
          have fewer := advanced.polls_le still
          refine ⟨advanced.stop.trans still, ?_, ?_⟩
          · change _ + 1 + _ ≤ _
            omega
          · have one : List.countP RunnerAction.isPoll [RunnerAction.thread action] =
                action.isPoll.toNat := by
              rw [List.countP_singleton]
              cases isPoll : action.isPoll <;> simp [RunnerAction.isPoll, isPoll]
            omega
      | caller caller call =>
          have invoked := invoked taken
          rw [invoked.thread]
          exact ⟨invoked.stop still, steps, polls⟩

/-- A thread that waits, after a hundred cycles without work. -/
def asleep : Runner :=
  { initial with state := .opened, thread := .waiting 101 .forever }

/-- Something else than `wakeup` ends a wait. -/
def wokenOutside : List (RunnerAction Nat) :=
  [.thread (.ready true false), .thread (.dispatched 1), .thread .test, .thread .store,
    .thread .store]

theorem stop_heeded_woken :
    wokenOutside.countP RunnerAction.ofThread ≤ 7 ∧
      wokenOutside.countP RunnerAction.isPoll ≤ 1 := by
  have taken : (execute step unguarded { asleep with stop := true } wokenOutside).isSome := by
    decide
  exact stop_heeded rfl (Run.of_execute (Option.some_get taken).symm)

/-! ## Reactors that cannot be woken -/

/-- Nothing happens outside: a wait returns for `wakeup` or at its end, and nothing throws. -/
def Quiet (_ : Runner) : RunnerAction Slot → Prop
  | .thread (.ready true _) => False
  | .thread .raise => False
  | _ => True

instance (runner : Runner) (action : RunnerAction Slot) : Decidable (Quiet runner action) :=
  match action with
  | .thread (.ready true _) | .thread .raise => instDecidableFalse
  | .thread (.init _) | .thread .store | .thread .test | .thread (.poll ..)
  | .thread (.ready false _) | .thread .read | .thread (.dispatched _)
  | .caller .. => instDecidableTrue

/-- The thread waits without an end, nothing has been written for it, and nothing will be. -/
structure Stranded (runner : Runner) : Prop where
  waits : ∃ cycles, runner.thread = .waiting cycles .forever
  silent : runner.notify = 0
  nobody : ∀ caller, runner.callers caller ≠ .notifying
  shut : runner.state ≠ .opened

theorem Stranded.invoked (stranded : runner.Stranded) (called : runner.Invoked caller call next) :
    next.Stranded := by
  have waits := stranded.waits
  rw [← called.thread] at waits
  have shut := called.shut stranded.shut
  have nobody {phase : CallPhase} (other : phase ≠ .notifying) :=
    callGoto_all caller (motive := fun at_ => at_ ≠ .notifying) stranded.nobody other
  cases called with
  | woken idle opened => exact absurd opened stranded.shut
  | notified count at_ => exact absurd at_ (stranded.nobody caller)
  | _ => exact ⟨waits, stranded.silent, nobody CallPhase.noConfusion, shut⟩

/-- Nothing that the threads do lets the wait return. -/
theorem not_advanced_of_waits {cycles : Nat} (waits : runner.thread = .waiting cycles .forever)
    (silent : runner.notify = 0) (quiet : Quiet runner (.thread action))
    (taken : runner.Advanced action next) : False := by
  cases taken with
  | returned outside notified counted wait at_ returns =>
      obtain ⟨written, -, ends⟩ := returns
      cases waits.symm.trans at_
      cases outside with
      | true => exact quiet
      | false =>
          rcases ends rfl with rfl | wrong
          · exact absurd (written rfl) (by rw [silent]; exact Nat.lt_irrefl 0)
          · cases wrong
  | raised => exact quiet
  | accepted at_ | declined at_ | pendingOpen at_ | opened at_ | pendingClosed at_ | closed at_
  | stopping _ at_ | going _ at_ | polled _ _ _ _ _ at_ | read _ at_ | dispatched _ _ _ at_ =>
      cases waits.symm.trans at_

/-- A stranded reactor stays where it is, whoever calls `stop` and `wakeup`. -/
theorem Stranded.stays (stranded : runner.Stranded)
    (later : Reachable (@step Slot) Quiet runner next) :
    next.Stranded ∧ next.thread = runner.thread := by
  let still (after : Runner) : Prop := after.Stranded ∧ after.thread = runner.thread
  have initially : still runner := ⟨stranded, rfl⟩
  apply later.invariant initially
  rintro before action after ⟨holds, same⟩ quiet taken
  cases action with
  | thread action =>
      obtain ⟨cycles, waits⟩ := holds.waits
      exact (not_advanced_of_waits waits holds.silent quiet (advanced taken)).elim
  | caller caller call =>
      have called := Runner.invoked taken
      exact ⟨holds.invoked called, called.thread.trans same⟩

/-- Nothing happens outside, and nobody calls `wakeup`. -/
def Unaided (runner : Runner) : RunnerAction Slot → Prop
  | .caller _ .wakeup => False
  | action => Quiet runner action

instance (runner : Runner) (action : RunnerAction Slot) : Decidable (Unaided runner action) :=
  match action with
  | .caller _ .wakeup => instDecidableFalse
  | .caller _ .stop | .caller _ .next => instDecidableTrue
  | .thread action => inferInstanceAs (Decidable (Quiet runner (.thread action)))

/-- Without `wakeup`, nothing is written. -/
theorem Invoked.unwritten (called : runner.Invoked caller call next) (unaided : call ≠ .wakeup)
    (silent : runner.notify = 0) (nobody : ∀ other, runner.callers other ≠ .notifying) :
    next.notify = 0 ∧ ∀ other, next.callers other ≠ .notifying := by
  have still {phase : CallPhase} (other : phase ≠ .notifying) :=
    callGoto_all caller (motive := fun at_ => at_ ≠ .notifying) nobody other
  cases called with
  | woken | ignored => exact absurd rfl unaided
  | notified count at_ => exact absurd at_ (nobody caller)
  | _ => exact ⟨silent, still CallPhase.noConfusion⟩

/-- A caller that has gone through `stop`, or has only its flag to set, has closed the state. -/
theorem Invoked.shut_after (called : runner.Invoked caller call next) (unaided : call ≠ .wakeup)
    (nobody : runner.callers caller ≠ .notifying)
    (before : call ≠ .stop → runner.callers caller = .settingStop → runner.state ≠ .opened)
    (after : next.callers caller = .idle ∨ next.callers caller = .settingStop) :
    next.state ≠ .opened := by
  cases called with
  | begun | compared =>
      rw [callGoto_self] at after
      rcases after with wrong | wrong <;> cases wrong
  | refused idle leaving =>
      intro opened
      have before : runner.state = .opened := opened
      cases leaving.symm.trans before
  | woken | ignored => exact absurd rfl unaided
  | returned at_ ended =>
      intro opened
      have before : runner.state = .opened := opened
      cases ended.symm.trans before
  | closed => exact LifeState.noConfusion
  | stopped at_ => exact before CallAction.noConfusion at_
  | notified count at_ => exact absurd at_ nobody

/--
A call of `stop` that is made and returns while the thread waits without an end, with nothing
written for it, strands the reactor: nothing that is called afterwards ends the wait.
-/
theorem stop_strands {cycles : Nat} (waits : runner.thread = .waiting cycles .forever)
    (silent : runner.notify = 0) (nobody : ∀ other, runner.callers other ≠ .notifying)
    {actions : List (RunnerAction Slot)} (run : Run step Unaided runner actions next)
    (called : .caller caller .stop ∈ actions) (returned : next.callers caller = .idle)
    {later : Runner} (after : Reachable (@step Slot) Quiet next later) :
    later.thread = .waiting cycles .forever := by
  suffices still : next.thread = .waiting cycles .forever ∧ next.notify = 0 ∧
      (∀ other, next.callers other ≠ .notifying) ∧
      (.caller caller .stop ∈ actions →
        next.callers caller = .idle ∨ next.callers caller = .settingStop →
          next.state ≠ .opened) by
    obtain ⟨waits, silent, nobody, shut⟩ := still
    have stranded : next.Stranded := ⟨⟨cycles, waits⟩, silent, nobody, shut called (.inl returned)⟩
    exact (stranded.stays after).2.trans waits
  clear called returned after
  induction run with
  | start => exact ⟨waits, silent, nobody, fun none => by cases none⟩
  | @step actions before action after initial allowed taken ih =>
      obtain ⟨waits, silent, nobody, shut⟩ := ih
      cases action with
      | thread action =>
          exact (not_advanced_of_waits waits silent allowed (advanced taken)).elim
      | caller other call =>
          have called := invoked taken
          have unaided : call ≠ .wakeup := by
            rintro rfl
            exact allowed
          obtain ⟨unwritten, none⟩ := called.unwritten unaided silent nobody
          refine ⟨called.thread.trans waits, unwritten, none, fun member at_ => ?_⟩
          by_cases same : other = caller
          · subst same
            refine called.shut_after unaided (nobody other) (fun later setting => ?_) at_
            refine shut ?_ (.inr setting)
            rcases List.mem_append.mp member with old | new
            · exact old
            · cases List.mem_singleton.mp new
              exact absurd rfl later
          · rw [called.others (Ne.symm same)] at at_
            refine called.shut (shut ?_ at_)
            rcases List.mem_append.mp member with old | new
            · exact old
            · cases List.mem_singleton.mp new
              exact absurd rfl same

/-- The calls of a destructor, up to its `wakeup`. -/
def stopCalls : List (RunnerAction Nat) :=
  [.caller 0 .stop, .caller 0 .next, .caller 0 .next, .caller 0 .next]

/-- A runner is destroyed while its thread waits. -/
theorem stop_strands_asleep :
    ∃ later : Runner, later.stop = true ∧ later.thread = .waiting 101 .forever := by
  obtain ⟨taken, returned, woken, stopped⟩ :
      ∃ taken : (execute step Unaided asleep stopCalls).isSome,
        ((execute step Unaided asleep stopCalls).get taken).callers 0 = .idle ∧
        ∃ woken : (@step Nat ((execute step Unaided asleep stopCalls).get taken)
            (.caller 0 .wakeup)).isSome,
          ((step ((execute step Unaided asleep stopCalls).get taken)
            (.caller 0 .wakeup)).get woken).stop = true := by decide
  have run := Run.of_execute (Option.some_get taken).symm
  have after := Reachable.extend .refl (by trivial : Quiet _ _) (Option.some_get woken).symm
  exact ⟨_, stopped, stop_strands rfl rfl (fun _ => CallPhase.noConfusion) run
    List.mem_cons_self returned after⟩

/-! ## Reactors that end -/

/-- Nothing happens outside, and what is polled are these timers and hooks at this time. -/
def QuietAt (reactor : Reactor Slot) (now : Int) (runner : Runner) : RunnerAction Slot → Prop
  | .thread (.poll polled time) => polled = reactor ∧ time = now
  | action => Quiet runner action

/-- The thread waits without an end, or is behind its last test and about to. -/
def Waits (reactor : Reactor Slot) (now : Int) (runner : Runner) : Prop :=
  ∃ cycles, runner.thread = .waiting cycles .forever ∨
    (runner.thread = .polling cycles ∧
      Reactor.wait (reactor.waitUntil now (timeout cycles)) 0 = .forever)

/-- The thread waits, or is about to, with nothing written for it, and nothing will be. -/
structure Doomed (reactor : Reactor Slot) (now : Int) (runner : Runner) : Prop where
  waits : runner.Waits reactor now
  silent : runner.notify = 0
  nobody : ∀ caller, runner.callers caller ≠ .notifying
  shut : runner.state ≠ .opened

variable {reactor : Reactor Slot} {now : Int}

theorem Doomed.invoked (doomed : runner.Doomed reactor now)
    (called : runner.Invoked caller call next) : next.Doomed reactor now := by
  have waits := doomed.waits
  rw [Waits, ← called.thread] at waits
  have shut := called.shut doomed.shut
  have nobody {phase : CallPhase} (other : phase ≠ .notifying) :=
    callGoto_all caller (motive := fun at_ => at_ ≠ .notifying) doomed.nobody other
  cases called with
  | woken idle opened => exact absurd opened doomed.shut
  | notified count at_ => exact absurd at_ (doomed.nobody caller)
  | _ => exact ⟨waits, doomed.silent, nobody CallPhase.noConfusion, shut⟩

/-- A thread that is about to wait does so, and one that waits goes on doing it. -/
theorem Doomed.advanced (doomed : runner.Doomed reactor now)
    (quiet : QuietAt reactor now runner (.thread action))
    (taken : runner.advance action = some next) : next.Doomed reactor now := by
  obtain ⟨cycles, waiting | ⟨polling, forever⟩⟩ := doomed.waits
  · have still : Quiet runner (.thread action) := by
      cases action with
      | poll => trivial
      | _ => exact quiet
    exact (not_advanced_of_waits waiting doomed.silent still (Runner.advanced taken)).elim
  · cases action with
    | poll polled time =>
        obtain ⟨rfl, rfl⟩ := quiet
        rw [advance, polling] at taken
        cases taken
        exact ⟨⟨_, .inl (congrArg _ forever)⟩, doomed.silent, doomed.nobody, doomed.shut⟩
    | raise => exact quiet.elim
    | _ =>
        rw [advance, polling] at taken
        cases taken

/-- The thread waits without an end, or is about to, and nothing has been written for it. -/
def Blocked (reactor : Reactor Slot) (now : Int) (runner : Runner) : Prop :=
  runner.Waits reactor now ∧ runner.notify = 0

theorem not_blocked (other : ∀ cycles, runner.thread ≠ .waiting cycles .forever)
    (another : ∀ cycles, runner.thread ≠ .polling cycles) : ¬runner.Blocked reactor now := by
  rintro ⟨⟨cycles, at_ | ⟨at_, -⟩⟩, -⟩
  · exact other cycles at_
  · exact another cycles at_

/-- A thread that is stopped and not blocked can go on without help, and is not blocked then. -/
theorem goes_on (stopped : runner.stop = true) (free : ¬runner.Blocked reactor now)
    (going : runner.thread ≠ .ended) :
    ∃ (action : ThreadAction Slot) (next : Runner), QuietAt reactor now runner (.thread action) ∧
      runner.advance action = some next ∧ ¬next.Blocked reactor now := by
  cases at_ : runner.thread with
  | starting =>
      refine ⟨.init true, runner.goto .settingPendingOpen, trivial, ?_, not_blocked ?_ ?_⟩
      · rw [advance, at_]
        rfl
      · exact fun _ => RunPhase.noConfusion
      · exact fun _ => RunPhase.noConfusion
  | settingPendingOpen =>
      refine ⟨.store, runner.set .pendingOpen .settingOpen, trivial, ?_, not_blocked ?_ ?_⟩
      · rw [advance, at_]
      · exact fun _ => RunPhase.noConfusion
      · exact fun _ => RunPhase.noConfusion
  | settingOpen =>
      refine ⟨.store, runner.set .opened (.testing 0), trivial, ?_, not_blocked ?_ ?_⟩
      · rw [advance, at_]
      · exact fun _ => RunPhase.noConfusion
      · exact fun _ => RunPhase.noConfusion
  | testing cycles =>
      refine ⟨.test, runner.goto .settingPendingClosed, trivial, ?_, not_blocked ?_ ?_⟩
      · rw [advance, at_]
        dsimp only
        rw [if_pos stopped]
      · exact fun _ => RunPhase.noConfusion
      · exact fun _ => RunPhase.noConfusion
  | polling cycles =>
      refine ⟨.poll reactor now, runner.goto (.waiting ((cycles + 1) % 2 ^ 64)
        (Reactor.wait (reactor.waitUntil now (timeout cycles)) 0)), ⟨rfl, rfl⟩, ?_, ?_⟩
      · rw [advance, at_]
      · rintro ⟨⟨counted, waiting | ⟨polling, -⟩⟩, silent⟩
        · injection waiting with _ forever
          exact free ⟨⟨cycles, .inr ⟨at_, forever⟩⟩, silent⟩
        · cases polling
  | waiting cycles wait =>
      have returns : runner.Returns wait false (decide (0 < runner.notify)) := by
        refine ⟨of_decide_eq_true, fun written => .inl (decide_eq_true written),
          fun ends => .inl ?_⟩
        refine decide_eq_true (Nat.pos_of_ne_zero fun silent => free ⟨⟨cycles, .inl ?_⟩, silent⟩)
        rw [at_, ends]
      refine ⟨.ready false (decide (0 < runner.notify)),
        runner.goto (.dispatching cycles (decide (0 < runner.notify))), trivial, ?_,
        not_blocked ?_ ?_⟩
      · rw [advance, at_]
        exact if_pos returns
      · exact fun _ => RunPhase.noConfusion
      · exact fun _ => RunPhase.noConfusion
  | dispatching cycles notified =>
      cases notified with
      | true =>
          refine ⟨.read, { runner with notify := 0, thread := .dispatching cycles false }, trivial,
            ?_, not_blocked ?_ ?_⟩
          · rw [advance, at_]
          · exact fun _ => RunPhase.noConfusion
          · exact fun _ => RunPhase.noConfusion
      | false =>
          refine ⟨.dispatched 0, runner.goto (.testing cycles), trivial, ?_, not_blocked ?_ ?_⟩
          · rw [advance, at_]
            rfl
          · exact fun _ => RunPhase.noConfusion
          · exact fun _ => RunPhase.noConfusion
  | settingPendingClosed =>
      refine ⟨.store, runner.set .pendingClosed .settingClosed, trivial, ?_, not_blocked ?_ ?_⟩
      · rw [advance, at_]
      · exact fun _ => RunPhase.noConfusion
      · exact fun _ => RunPhase.noConfusion
  | settingClosed =>
      refine ⟨.store, runner.set .closed .ended, trivial, ?_, not_blocked ?_ ?_⟩
      · rw [advance, at_]
      · exact fun _ => RunPhase.noConfusion
      · exact fun _ => RunPhase.noConfusion
  | ended => exact absurd at_ going

/-- The thread can come to its end with nothing from outside, whatever its poll finds. -/
def Ends (reactor : Reactor Slot) (now : Int) (runner : Runner) : Prop :=
  ∃ next, Reachable (@step Slot) (QuietAt reactor now) runner next ∧ next.thread = .ended

theorem Ends.of_step (action : RunnerAction Slot) (quiet : QuietAt reactor now runner action)
    (taken : runner.step action = some next) (ends : next.Ends reactor now) :
    runner.Ends reactor now := by
  obtain ⟨last, ⟨actions, run⟩, ended⟩ := ends
  have first : Run (@step Slot) (QuietAt reactor now) runner ([] ++ [action]) next :=
    .step .start quiet taken
  exact ⟨last, ⟨_, first.append run⟩, ended⟩

/-- By induction on the steps that are left. -/
theorem ends_of_free (stopped : runner.stop = true) (free : ¬runner.Blocked reactor now) :
    runner.Ends reactor now := by
  induction left : runner.thread.left using Nat.strong_induction_on generalizing runner with
  | _ count ih =>
      by_cases ended : runner.thread = .ended
      · exact ⟨runner, .refl, ended⟩
      · obtain ⟨action, next, quiet, taken, still⟩ := goes_on stopped free ended
        have step := advanced taken
        refine .of_step (.thread action) quiet taken
          (ih _ ?_ (step.stop.trans stopped) still rfl)
        rw [← left]
        exact step.left_lt stopped

/-- The write of a `wakeup` ends the wait. -/
theorem ends_of_notifying (stopped : runner.stop = true)
    (notifying : runner.callers caller = .notifying) : runner.Ends reactor now := by
  have taken : runner.invoke caller .next = some ({ runner with
      notify := if runner.notify < 2 ^ 64 - 2 then runner.notify + 1 else runner.notify
      }.callGoto caller .idle) := by
    unfold invoke
    rw [notifying]
  refine .of_step (.caller caller .next) trivial taken (ends_of_free stopped ?_)
  rintro ⟨-, silent⟩
  exact absurd silent (count_pos runner.notify).ne'

/--
Where the stop flag is set, the thread can still come to its end without help from outside
exactly where it is not doomed: in an unbounded wait, or behind its last test of the flag and
about to wait so for want of timers and hooks, with nothing written for it, no caller about to
write, and a state that makes every later `wakeup` do nothing.
-/
theorem stopped_ends_iff (reached : Reachable (@step Slot) unguarded initial runner)
    (stopped : runner.stop = true) (reactor : Reactor Slot) (now : Int) :
    runner.Ends reactor now ↔ ¬runner.Doomed reactor now := by
  constructor
  · rintro ⟨last, later, ended⟩ doomed
    have still : last.Doomed reactor now := by
      apply later.invariant doomed
      intro before action after holds quiet taken
      cases action with
      | thread action => exact holds.advanced quiet taken
      | caller caller call => exact holds.invoked (invoked taken)
    obtain ⟨cycles, waiting | ⟨polling, -⟩⟩ := still.waits
    · cases waiting.symm.trans ended
    · cases polling.symm.trans ended
  · intro wakeable
    by_cases blocked : runner.Blocked reactor now
    · by_cases notifying : ∃ caller, runner.callers caller = .notifying
      · obtain ⟨caller, at_⟩ := notifying
        exact ends_of_notifying stopped at_
      · have opened : runner.state = .opened := by
          by_contra shut
          exact wakeable ⟨blocked.1, blocked.2, fun caller at_ => notifying ⟨caller, at_⟩, shut⟩
        obtain ⟨count, few⟩ := (inv_of_reachable reached).few
        have idle := few count le_rfl
        have taken : runner.invoke count .wakeup = some (runner.callGoto count .notifying) := by
          unfold invoke
          rw [idle]
          exact congrArg (fun phase => some (runner.callGoto count phase)) (if_pos opened)
        refine .of_step (.caller count .wakeup) trivial taken ?_
        exact ends_of_notifying stopped (callGoto_self runner count .notifying)
    · exact ends_of_free stopped blocked

/-- A runner that is stopped as soon as its thread has opened the reactor. -/
def stoppedOpen : List (RunnerAction Nat) :=
  [.thread (.init true), .thread .store, .thread .store] ++ stopCalls

theorem stopped_ends_iff_open :
    ∃ runner : Runner, runner.thread = .testing 0 ∧ ∀ (reactor : Reactor Nat) now,
      runner.Ends reactor now ↔ ¬runner.Doomed reactor now := by
  obtain ⟨taken, stopped, testing⟩ :
      ∃ taken : (execute step unguarded initial stoppedOpen).isSome,
        ((execute step unguarded initial stoppedOpen).get taken).stop = true ∧
          ((execute step unguarded initial stoppedOpen).get taken).thread = .testing 0 := by
    decide
  have run := Run.of_execute (Option.some_get taken).symm
  exact ⟨_, testing, fun reactor now => stopped_ends_iff ⟨stoppedOpen, run⟩ stopped reactor now⟩

end Runner

end ReactiveToolbox.Io
