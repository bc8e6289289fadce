import Mathlib.Algebra.BigOperators.Group.List.Basic
import Mathlib.Algebra.GroupWithZero.Nat
import Mathlib.Data.List.Nodup
import Mathlib.Data.List.Range
import Mathlib.Tactic.SplitIfs
import ReactiveToolbox.Lib.Transition

/-!
# The resolver

Tasks are queued by any thread and moved in batches, under the lock, to the threads
that run them, which is done without the lock.  A state is what the critical sections
and the executions so far have made of the resolver, with where every task is.
-/

namespace ReactiveToolbox.Net

open ReactiveToolbox.Lib

/-- A task that calls `parse_endpoint` with its arguments, told from others by a number. -/
structure ResolveTask where
  id : Nat
  uri : String
  type : Int
  deriving DecidableEq

/-- `Resolver`, as far as its lock protects it. -/
structure Resolver where
  queue_ : List ResolveTask
  stop_ : Bool
  deriving DecidableEq

/-- What a call of `run` finds when it has the lock and no longer waits. -/
inductive RunTurn where
  | timeout
  | stopped
  | batch (tasks : List ResolveTask)
  deriving DecidableEq

namespace Resolver

/-- `BatchSize`: how many tasks `run` takes at once. -/
def batchSize : Nat := 16

/-- An empty queue. -/
def create : Resolver where
  queue_ := []
  stop_ := false

/-- The critical section of `run` at the end of its wait. -/
def run (resolver : Resolver) : Resolver × RunTurn :=
  if !(!resolver.queue_.isEmpty || resolver.stop_) then (resolver, .timeout)
  else if resolver.stop_ then ({ resolver with queue_ := [] }, .stopped)
  else
    let n := min resolver.queue_.length batchSize
    ({ resolver with queue_ := resolver.queue_.drop n }, .batch (resolver.queue_.take n))

/-- `stop`. -/
def stop (resolver : Resolver) : Resolver :=
  { resolver with stop_ := true }

/-- `clear`. -/
def clear (resolver : Resolver) : Resolver :=
  { resolver with queue_ := [] }

/-- `resolve`, or what it throws. -/
def resolve (resolver : Resolver) (task : ResolveTask) : Except String Resolver :=
  if resolver.stop_ then .error "resolver stopped"
  else .ok { resolver with queue_ := resolver.queue_ ++ [task] }

/-- What the critical section of `run` can do. -/
theorem run_cases (resolver : Resolver) :
    (resolver.queue_ = [] ∧ resolver.stop_ = false ∧ resolver.run = (resolver, .timeout)) ∨
    (resolver.stop_ = true ∧ resolver.run = ({ resolver with queue_ := [] }, .stopped)) ∨
    ∃ tasks rest, resolver.stop_ = false ∧ resolver.queue_ = tasks ++ rest ∧ tasks ≠ [] ∧
      tasks.length ≤ batchSize ∧
      resolver.run = ({ resolver with queue_ := rest }, .batch tasks) := by
  obtain ⟨queue, stop⟩ := resolver
  cases stop with
  | true => exact .inr (.inl ⟨rfl, by cases queue <;> rfl⟩)
  | false =>
      cases queue with
      | nil => exact .inl ⟨rfl, rfl, rfl⟩
      | cons task rest =>
          refine .inr (.inr ⟨(task :: rest).take (min (task :: rest).length batchSize),
            (task :: rest).drop (min (task :: rest).length batchSize), rfl,
            (List.take_append_drop _ _).symm, ?_, ?_, rfl⟩)
          · simp [batchSize]
          · rw [List.length_take]
            omega

end Resolver

/-! ## Threads -/

/-- A call of `run` that has taken a batch, with the tasks that it has not executed yet. -/
structure RunCall where
  tasks : List ResolveTask
  n : Nat
  deriving DecidableEq

/-- How the last call ended, or what it has gone on to. -/
inductive ResolverReturn where
  | none
  | future (task : ResolveTask)
  | logicError (what : String)
  | returned (result : Int)
  | executing (tasks : List ResolveTask)
  deriving DecidableEq

/-- The critical sections, and what the calls of `run` do after theirs. -/
inductive ResolverAction where
  | resolve (uri : String) (type : Int)
  | run
  | execute (call : Nat)
  | finish (call : Nat)
  | clear
  | stop
  deriving DecidableEq

/--
The resolver with the calls of `run` that have taken batches, and with the tasks that
have been accepted, moved into batches, executed and cancelled, each in this order.
-/
structure ResolverState where
  resolver : Resolver
  calls : List RunCall
  accepted : List ResolveTask
  moved : List ResolveTask
  executed : List ResolveTask
  cancelled : List ResolveTask
  last : ResolverReturn
  deriving DecidableEq

namespace ResolverState

/-- Nobody has called. -/
def initial : ResolverState where
  resolver := .create
  calls := []
  accepted := []
  moved := []
  executed := []
  cancelled := []
  last := .none

/-- What an action does, if it can be taken. -/
def step (state : ResolverState) : ResolverAction → Option ResolverState
  | .resolve uri type =>
      let task := ⟨state.accepted.length, uri, type⟩
      match state.resolver.resolve task with
      | .error what => some { state with last := .logicError what }
      | .ok resolver =>
          some
            { state with
              resolver := resolver
              accepted := state.accepted ++ [task]
              last := .future task }
  | .run =>
      match state.resolver.run with
      | (resolver, .timeout) => some { state with resolver := resolver, last := .returned 0 }
      | (resolver, .stopped) =>
          some
            { state with
              resolver := resolver
              cancelled := state.cancelled ++ state.resolver.queue_
              last := .returned (-1) }
      | (resolver, .batch tasks) =>
          some
            { state with
              resolver := resolver
              calls := state.calls ++ [⟨tasks, tasks.length⟩]
              moved := state.moved ++ tasks
              last := .executing tasks }
  | .execute call =>
      match state.calls[call]? with
      | some ⟨task :: tasks, n⟩ =>
          some
            { state with
              calls := state.calls.set call ⟨tasks, n⟩
              executed := state.executed ++ [task]
              last := .executing tasks }
      | _ => none
  | .finish call =>
      match state.calls[call]? with
      | some ⟨[], n⟩ => some { state with last := .returned n }
      | _ => none
  | .clear =>
      some
        { state with
          resolver := state.resolver.clear
          cancelled := state.cancelled ++ state.resolver.queue_
          last := .none }
  | .stop => some { state with resolver := state.resolver.stop, last := .none }

/-- In how many places a task is: the queue, the batches, the executed and the cancelled. -/
def places (state : ResolverState) (task : ResolveTask) : Nat :=
  state.resolver.queue_.count task + (state.calls.map fun call => call.tasks.count task).sum +
    state.executed.count task + state.cancelled.count task

/-- Every accepted task is somewhere once, and the queue goes on where the batches end. -/
structure Owned (state : ResolverState) : Prop where
  ids : state.accepted.map ResolveTask.id = List.range state.accepted.length
  places : ∀ task, state.places task = state.accepted.count task
  order : (state.moved ++ state.resolver.queue_).Sublist state.accepted

theorem initial_owned : initial.Owned := by
  constructor
  · rfl
  · intro task
    rfl
  · exact .slnil

variable {before after : ResolverState}

/-- The steps that there are, each with what it finds and what it leaves. -/
inductive Taken (before : ResolverState) : ResolverAction → ResolverState → Prop where
  | refused (uri : String) (type : Int) (stopped : before.resolver.stop_ = true) :
      Taken before (.resolve uri type)
        { before with last := .logicError "resolver stopped" }
  | accepted (uri : String) (type : Int) (task : ResolveTask)
      (running : before.resolver.stop_ = false) (fresh : task.id = before.accepted.length) :
      Taken before (.resolve uri type)
        { before with
          resolver.queue_ := before.resolver.queue_ ++ [task]
          accepted := before.accepted ++ [task]
          last := .future task }
  | timeout (running : before.resolver.stop_ = false) :
      Taken before .run { before with last := .returned 0 }
  | stopped (stopped : before.resolver.stop_ = true) :
      Taken before .run
        { before with
          resolver.queue_ := []
          cancelled := before.cancelled ++ before.resolver.queue_
          last := .returned (-1) }
  | batch (tasks rest : List ResolveTask) (running : before.resolver.stop_ = false)
      (queue : before.resolver.queue_ = tasks ++ rest) :
      Taken before .run
        { before with
          resolver.queue_ := rest
          calls := before.calls ++ [RunCall.mk tasks tasks.length]
          moved := before.moved ++ tasks
          last := .executing tasks }
  | executed (call n : Nat) (task : ResolveTask) (tasks : List ResolveTask)
      (found : before.calls[call]? = some ⟨task :: tasks, n⟩) :
      Taken before (.execute call)
        { before with
          calls := before.calls.set call (RunCall.mk tasks n)
          executed := before.executed ++ [task]
          last := .executing tasks }
  | finished (call n : Nat) :
      Taken before (.finish call) { before with last := .returned n }
  | cleared :
      Taken before .clear
        { before with
          resolver.queue_ := []
          cancelled := before.cancelled ++ before.resolver.queue_
          last := .none }
  | stop :
      Taken before .stop { before with resolver.stop_ := true, last := .none }

theorem step_taken {action : ResolverAction} (taken : before.step action = some after) :
    before.Taken action after := by
  cases action with
  | resolve uri type =>
      rw [step, Resolver.resolve] at taken
      by_cases stopped : before.resolver.stop_ = true
      · simp only [if_pos stopped] at taken
        cases taken
        exact .refused uri type stopped
      · simp only [if_neg stopped] at taken
        cases taken
        exact .accepted uri type ⟨before.accepted.length, uri, type⟩
          (by simpa using stopped) rfl
  | run =>
      rw [step] at taken
      rcases before.resolver.run_cases with
        ⟨-, running, turn⟩ | ⟨stopped, turn⟩ | ⟨tasks, rest, running, queue, -, -, turn⟩
      · simp only [turn] at taken
        cases taken
        exact .timeout running
      · simp only [turn] at taken
        cases taken
        exact .stopped stopped
      · simp only [turn] at taken
        cases taken
        exact .batch tasks rest running queue
  | execute call =>
      rw [step] at taken
      split at taken
      · rename_i task tasks n found
        cases taken
        exact .executed call n task tasks found
      · cases taken
  | finish call =>
      rw [step] at taken
      split at taken
      · cases taken
        exact .finished call _
      · cases taken
  | clear =>
      cases taken
      exact .cleared
  | stop =>
      cases taken
      exact .stop

theorem Owned.nodup {state : ResolverState} (owned : state.Owned) : state.accepted.Nodup := by
  have ids : (state.accepted.map ResolveTask.id).Nodup := by
    rw [owned.ids]
    exact List.nodup_range
  exact ids.of_map

/-- A task that is executed has left its batch. -/
theorem sum_count_set {calls : List RunCall} {call n : Nat} {task : ResolveTask}
    {tasks : List ResolveTask} (found : calls[call]? = some ⟨task :: tasks, n⟩)
    (other : ResolveTask) :
    ((calls.set call ⟨tasks, n⟩).map fun call => call.tasks.count other).sum +
        [task].count other =
      (calls.map fun call => call.tasks.count other).sum := by
  induction calls generalizing call with
  | nil => cases found
  | cons first rest continued =>
      cases call with
      | zero =>
          obtain rfl := Option.some.inj found
          have head : (task :: tasks).count other = [task].count other + tasks.count other := by
            rw [← List.count_append]
            rfl
          simp only [List.set_cons_zero, List.map_cons, List.sum_cons, head]
          omega
      | succ call =>
          rw [List.getElem?_cons_succ] at found
          have later := continued found
          simp only [List.set_cons_succ, List.map_cons, List.sum_cons]
          omega

/-- What is queued is accepted with it. -/
theorem accept_owned (owned : before.Owned) {task : ResolveTask}
    (fresh : task.id = before.accepted.length) (last : ResolverReturn) :
    { before with
      resolver.queue_ := before.resolver.queue_ ++ [task]
      accepted := before.accepted ++ [task]
      last := last }.Owned := by
  constructor
  · simp only [List.map_append, List.map_cons, List.map_nil, List.length_append,
      List.length_singleton, List.range_succ, owned.ids, fresh]
  · intro other
    have places := owned.places other
    simp only [ResolverState.places, List.count_append] at places ⊢
    omega
  · simp only
    rw [← List.append_assoc]
    exact owned.order.append (.refl [task])

/-- What is queued is cancelled when the queue is cleared. -/
theorem cancel_owned (owned : before.Owned) (last : ResolverReturn) :
    { before with
      resolver.queue_ := []
      cancelled := before.cancelled ++ before.resolver.queue_
      last := last }.Owned := by
  constructor
  · exact owned.ids
  · intro other
    have places := owned.places other
    simp only [ResolverState.places, List.count_append, List.count_nil] at places ⊢
    omega
  · simp only [List.append_nil]
    exact (List.sublist_append_left _ _).trans owned.order

/-- The front of the queue becomes a batch. -/
theorem move_owned (owned : before.Owned) {tasks rest : List ResolveTask}
    (queue : before.resolver.queue_ = tasks ++ rest) (last : ResolverReturn) :
    { before with
      resolver.queue_ := rest
      calls := before.calls ++ [RunCall.mk tasks tasks.length]
      moved := before.moved ++ tasks
      last := last }.Owned := by
  constructor
  · exact owned.ids
  · intro other
    have places := owned.places other
    simp only [ResolverState.places, queue, List.count_append, List.map_append, List.sum_append,
      List.map_cons, List.map_nil, List.sum_cons, List.sum_nil] at places ⊢
    omega
  · have order := owned.order
    rw [queue, ← List.append_assoc] at order
    exact order

/-- A task goes from its batch to the executed ones. -/
theorem execute_owned (owned : before.Owned) {call n : Nat} {task : ResolveTask}
    {tasks : List ResolveTask} (found : before.calls[call]? = some ⟨task :: tasks, n⟩)
    (last : ResolverReturn) :
    { before with
      calls := before.calls.set call (RunCall.mk tasks n)
      executed := before.executed ++ [task]
      last := last }.Owned := by
  constructor
  · exact owned.ids
  · intro other
    have places := owned.places other
    have left := sum_count_set found other
    simp only [ResolverState.places, List.count_append] at places ⊢
    omega
  · exact owned.order

theorem step_owned (owned : before.Owned) {action : ResolverAction}
    (taken : before.step action = some after) : after.Owned := by
  cases step_taken taken with
  | accepted uri type task _ fresh => exact accept_owned owned fresh _
  | stopped _ => exact cancel_owned owned _
  | batch tasks rest _ queue => exact move_owned owned queue _
  | executed call n task tasks found => exact execute_owned owned found _
  | cleared => exact cancel_owned owned _
  | refused => exact ⟨owned.ids, owned.places, owned.order⟩
  | timeout => exact ⟨owned.ids, owned.places, owned.order⟩
  | finished => exact ⟨owned.ids, owned.places, owned.order⟩
  | stop => exact ⟨owned.ids, owned.places, owned.order⟩

/-! ## Stopping -/

/-- Nothing starts the resolver again. -/
theorem step_stop {action : ResolverAction} (taken : before.step action = some after)
    (stopped : before.resolver.stop_ = true ∨ action = .stop) :
    after.resolver.stop_ = true := by
  cases step_taken taken with
  | stop => rfl
  | _ => exact stopped.resolve_right (by simp)

/-- What is cancelled stays so. -/
theorem step_cancelled {action : ResolverAction} (taken : before.step action = some after) :
    before.cancelled <+: after.cancelled := by
  cases step_taken taken with
  | stopped => exact List.prefix_append _ _
  | cleared => exact List.prefix_append _ _
  | _ => exact List.prefix_rfl

variable {actions : List ResolverAction} {state : ResolverState}

theorem run_stop (run : Run step unguarded initial actions state) (stop : .stop ∈ actions) :
    state.resolver.stop_ = true := by
  induction run with
  | start => cases stop
  | step _ _ taken continued =>
      apply step_stop taken
      rcases List.mem_append.mp stop with earlier | now
      · exact .inl (continued earlier)
      · exact .inr (List.mem_singleton.mp now).symm

theorem run_cancelled {more : List ResolverAction} {later : ResolverState}
    (run : Run step unguarded state more later) : state.cancelled <+: later.cancelled := by
  induction run with
  | start => exact List.prefix_rfl
  | step _ _ taken continued => exact continued.trans (step_cancelled taken)

/-! ## Every run -/

theorem places_eq (owned : state.Owned) (task : ResolveTask) :
    state.places task = if task ∈ state.accepted then 1 else 0 := by
  rw [owned.places]
  by_cases member : task ∈ state.accepted
  · rw [if_pos member]
    exact List.count_eq_one_of_mem owned.nodup member
  · rw [if_neg member]
    exact List.count_eq_zero_of_not_mem member

theorem places_le (owned : state.Owned) (task : ResolveTask) : state.places task ≤ 1 := by
  rw [places_eq owned]
  split_ifs <;> omega

theorem executed_nodup (owned : state.Owned) : state.executed.Nodup := by
  apply List.nodup_iff_count_le_one.mpr
  intro task
  have once := places_le owned task
  unfold ResolverState.places at once
  omega

theorem not_executed_of_cancelled (owned : state.Owned) {task : ResolveTask}
    (cancelled : task ∈ state.cancelled) : task ∉ state.executed := by
  intro executed
  have once := places_le owned task
  have cancelled_count := List.count_pos_iff.mpr cancelled
  have executed_count := List.count_pos_iff.mpr executed
  unfold ResolverState.places at once
  omega

/--
In every interleaving an accepted task is in one place, it is executed at most once and
not after it is cancelled, batches are taken in the order of acceptance, and a resolver
that is stopped accepts nothing and gives no batches.
-/
theorem run_tasks (run : Run step unguarded initial actions state) :
    (∀ task, state.places task = if task ∈ state.accepted then 1 else 0) ∧
      state.executed.Nodup ∧
      (∀ task ∈ state.cancelled, ∀ more later, Run step unguarded state more later →
        task ∉ later.executed) ∧
      state.moved.Sublist state.accepted ∧
      (.stop ∈ actions →
        (∀ uri type, state.step (.resolve uri type) =
          some { state with last := .logicError "resolver stopped" }) ∧
        state.step .run =
          some
            { state with
              resolver.queue_ := []
              cancelled := state.cancelled ++ state.resolver.queue_
              last := .returned (-1) }) := by
  have owned_of : ∀ {actions state}, Run step unguarded initial actions state → state.Owned :=
    fun run => run.invariant initial_owned fun _ _ _ owned _ taken => step_owned owned taken
  have owned := owned_of run
  refine ⟨places_eq owned, executed_nodup owned, ?_, ?_, ?_⟩
  · intro task cancelled more later continued
    have later_cancelled := (run_cancelled continued).subset cancelled
    exact not_executed_of_cancelled (owned_of (run.append continued)) later_cancelled
  · exact (List.sublist_append_left _ _).trans owned.order
  · intro stop
    have stopped := run_stop run stop
    constructor
    · intro uri type
      rw [step, Resolver.resolve, stopped]
      rfl
    · rcases state.resolver.run_cases with ⟨-, running, -⟩ | ⟨-, turn⟩ | ⟨_, _, running, -⟩
      · rw [stopped] at running
        cases running
      · rw [step, turn]
      · rw [stopped] at running
        cases running

/-- A batch that is executed while the resolver is stopped, and a task that it cancels. -/
theorem run_tasks_stopped :
    ∃ state : ResolverState, state.executed.map ResolveTask.id = [0, 1] ∧
      state.cancelled.map ResolveTask.id = [2] ∧ state.last = .returned (-1) ∧
      state.moved.Sublist state.accepted := by
  have computed :
      (execute step unguarded initial
        [.resolve "tcp4://a:1" 1, .resolve "tcp4://b:1" 1, .run, .execute 0,
          .resolve "tcp4://c:1" 1, .stop, .execute 0, .run]).map
        (fun state => (state.executed.map ResolveTask.id, state.cancelled.map ResolveTask.id,
          state.last)) =
        some ([0, 1], [2], .returned (-1)) := by
    decide
  obtain ⟨state, ⟨actions, run⟩, observed⟩ := Reachable.of_execute computed
  exact ⟨state, congrArg Prod.fst observed, congrArg (fun seen => seen.2.1) observed,
    congrArg (fun seen => seen.2.2) observed, (run_tasks run).2.2.2.1⟩

end ResolverState

end ReactiveToolbox.Net
