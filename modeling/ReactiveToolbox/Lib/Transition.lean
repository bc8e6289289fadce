import Mathlib.Data.List.Basic

/-!
# Runs of a partial transition function

A component is presented by a function `step : State → Action → Option State`
that is undefined where the component itself is.  A `Run` records the actions
taken from a start state, each allowed by a guard, so that a property of every
reachable state is proved once from its preservation by a single step.
-/

namespace ReactiveToolbox.Lib

universe u v

variable {State : Type u} {Action : Type v}

/-- The states reached from `start` by guarded steps, with the actions taken. -/
inductive Run
    (step : State → Action → Option State)
    (guard : State → Action → Prop)
    (start : State) : List Action → State → Prop where
  | start : Run step guard start [] start
  | step
      (initial : Run step guard start actions before)
      (allowed : guard before action)
      (taken : step before action = some after) :
      Run step guard start (actions ++ [action]) after

/-- A state is reachable when some run ends in it. -/
def Reachable
    (step : State → Action → Option State)
    (guard : State → Action → Prop)
    (start state : State) : Prop :=
  ∃ actions, Run step guard start actions state

/-- The guard that allows every action. -/
def unguarded (_ : State) (_ : Action) : Prop := True

variable
    {step : State → Action → Option State}
    {guard : State → Action → Prop}
    {start : State}

namespace Run

/-- What holds at the start and survives every allowed step holds of a run. -/
theorem invariant
    {property : State → Prop}
    (initially : property start)
    (preserved : ∀ before action after,
      property before → guard before action →
        step before action = some after → property after)
    {actions : List Action} {state : State}
    (run : Run step guard start actions state) :
    property state := by
  induction run with
  | start => exact initially
  | step _ allowed taken ih =>
      exact preserved _ _ _ ih allowed taken

/-- Runs compose. -/
theorem append
    {first second : List Action} {middle state : State}
    (before : Run step guard start first middle)
    (after : Run step guard middle second state) :
    Run step guard start (first ++ second) state := by
  induction after with
  | start => simpa using before
  | step _ allowed taken ih =>
      rw [← List.append_assoc]
      exact .step ih allowed taken

end Run

namespace Reachable

theorem refl : Reachable step guard start start :=
  ⟨[], .start⟩

theorem extend
    {before after : State} {action : Action}
    (reached : Reachable step guard start before)
    (allowed : guard before action)
    (taken : step before action = some after) :
    Reachable step guard start after := by
  obtain ⟨actions, run⟩ := reached
  exact ⟨actions ++ [action], .step run allowed taken⟩

/-- The invariant rule for reachable states. -/
theorem invariant
    {property : State → Prop}
    (initially : property start)
    (preserved : ∀ before action after,
      property before → guard before action →
        step before action = some after → property after)
    {state : State}
    (reached : Reachable step guard start state) :
    property state := by
  obtain ⟨_, run⟩ := reached
  exact run.invariant initially preserved

end Reachable

/-! ## Runs that are computed -/

/-- Take the given actions one after another, where each is allowed and defined. -/
def execute
    (step : State → Action → Option State)
    (guard : State → Action → Prop)
    [∀ state action, Decidable (guard state action)]
    (state : State) : List Action → Option State
  | [] => some state
  | action :: rest =>
      if guard state action then
        (step state action).bind fun next => execute step guard next rest
      else none

instance (state : State) (action : Action) : Decidable (unguarded state action) :=
  instDecidableTrue

theorem execute_cons {action : Action} {state next : State}
    (taken : step state action = some next) (rest : List Action) :
    execute step unguarded state (action :: rest) = execute step unguarded next rest := by
  have allowed : unguarded state action := trivial
  rw [execute, if_pos allowed, taken]
  rfl

theorem Run.of_execute
    [∀ state action, Decidable (guard state action)]
    {actions : List Action} {state : State}
    (taken : execute step guard start actions = some state) :
    Run step guard start actions state := by
  induction actions generalizing start with
  | nil =>
      obtain rfl := Option.some.inj taken
      exact .start
  | cons action rest ih =>
      rw [execute] at taken
      split at taken
      · rename_i allowed
        obtain ⟨next, moved, remaining⟩ := Option.bind_eq_some_iff.mp taken
        exact Run.append (.step .start allowed moved) (ih remaining)
      · cases taken

/--
Two components run in lockstep if related states allow and define the same actions,
and lead to related states again.
-/
theorem execute_lockstep
    {Other : Type*} {otherStep : Other → Action → Option Other} {otherGuard : Other → Action → Prop}
    [∀ state action, Decidable (guard state action)]
    [∀ state action, Decidable (otherGuard state action)]
    {related : State → Other → Prop}
    (allowed : ∀ state other action, related state other →
      (guard state action ↔ otherGuard other action))
    (taken : ∀ state other action, related state other →
      Option.Rel related (step state action) (otherStep other action))
    {state : State} {other : Other} (initially : related state other) (actions : List Action) :
    Option.Rel related (execute step guard state actions)
      (execute otherStep otherGuard other actions) := by
  induction actions generalizing state other with
  | nil => exact .some initially
  | cons action rest ih =>
      rw [execute, execute]
      by_cases both : guard state action
      · rw [if_pos both, if_pos ((allowed _ _ _ initially).mp both)]
        have moved := taken state other action initially
        generalize step state action = after at moved
        generalize otherStep other action = otherAfter at moved
        cases moved with
        | some next => exact ih next
        | none => exact .none
      · rw [if_neg both, if_neg (fun one => both ((allowed _ _ _ initially).mpr one))]
        exact .none

/-- A computed run reaches a state with what was computed of it. -/
theorem Reachable.of_execute
    [∀ state action, Decidable (guard state action)]
    {Result : Type*} {observe : State → Result} {result : Result} {actions : List Action}
    (computed : (execute step guard start actions).map observe = some result) :
    ∃ state, Reachable step guard start state ∧ observe state = result := by
  rcases Option.map_eq_some_iff.mp computed with ⟨state, taken, observed⟩
  exact ⟨state, ⟨actions, Run.of_execute taken⟩, observed⟩

end ReactiveToolbox.Lib
