import Mathlib.Logic.Relation

/-!
# Deterministic machines

A machine is a partial function from a state to the next one and has ended where it is
undefined.  Where every step makes a state smaller it ends, and where every state of
some kind leads to another of that kind it never does.
-/

namespace ReactiveToolbox.Lib

universe u v

variable {State : Type u} (step : State → Option State)

/-- One step of a machine. -/
def Moves (before after : State) : Prop :=
  step before = some after

/-- A machine ends in a state that has no next one. -/
inductive Ends : State → State → Prop where
  | here {state : State} : step state = none → Ends state state
  | move {before after final : State} :
      step before = some after → Ends after final → Ends before final

variable {step} {before after final : State}

namespace Ends

theorem stopped (ends : Ends step before final) : step final = none := by
  induction ends with
  | here stopped => exact stopped
  | move _ _ stopped => exact stopped

/-- The end of a machine is determined by where it starts. -/
theorem unique {other : State} (ends : Ends step before final) (others : Ends step before other) :
    final = other := by
  induction ends with
  | here stopped =>
      cases others with
      | here => rfl
      | move moved =>
          rw [stopped] at moved
          cases moved
  | move moved _ continued =>
      cases others with
      | here stopped =>
          rw [stopped] at moved
          cases moved
      | move otherMoved later =>
          rw [moved] at otherMoved
          cases otherMoved
          exact continued later

/-- What is reached on the way to the end ends there. -/
theorem of_moves (ends : Ends step before final)
    (moved : Relation.ReflTransGen (Moves step) before after) : Ends step after final := by
  induction moved using Relation.ReflTransGen.head_induction_on with
  | refl => exact ends
  | head first _ continued =>
      cases ends with
      | here stopped =>
          rw [Moves, stopped] at first
          cases first
      | move moved later =>
          rw [Moves, moved] at first
          cases first
          exact continued later

/-- What every step preserves holds at the end. -/
theorem invariant {property : State → Prop} (ends : Ends step before final)
    (preserved : ∀ state next, property state → step state = some next → property next)
    (initially : property before) : property final := by
  induction ends with
  | here => exact initially
  | move moved _ continued => exact continued (preserved _ _ initially moved)

/-- The states on the way to the end are finitely many. -/
theorem bounded (ends : Ends step before final) (measure : State → Nat) :
    ∃ bound, ∀ state, Relation.ReflTransGen (Moves step) before state →
      measure state ≤ bound := by
  induction ends with
  | @here state stopped =>
      refine ⟨measure state, fun reached moved => ?_⟩
      rcases Relation.ReflTransGen.cases_head moved with rfl | ⟨next, first, -⟩
      · exact Nat.le_refl _
      · rw [Moves, stopped] at first
        cases first
  | @move before after final moved _ continued =>
      obtain ⟨bound, bounded⟩ := continued
      refine ⟨max (measure before) bound, fun reached movedOn => ?_⟩
      rcases Relation.ReflTransGen.cases_head movedOn with rfl | ⟨next, first, later⟩
      · exact Nat.le_max_left _ _
      · rw [Moves, moved] at first
        cases first
        exact Nat.le_trans (bounded reached later) (Nat.le_max_right _ _)

end Ends

/-- Where a machine ends within so many steps. -/
def runFor (step : State → Option State) : Nat → State → Option State
  | 0, _ => none
  | steps + 1, state =>
      match step state with
      | none => some state
      | some next => runFor step steps next

theorem Ends.of_runFor {steps : Nat} (ran : runFor step steps before = some final) :
    Ends step before final := by
  induction steps generalizing before with
  | zero => cases ran
  | succ steps continued =>
      rw [runFor] at ran
      split at ran
      · rename_i stopped
        cases ran
        exact .here stopped
      · rename_i moved
        exact .move moved (continued ran)

/-- A machine that ends does so within some number of steps, and any greater one. -/
theorem Ends.runFor_eq (ends : Ends step before final) :
    ∃ steps, ∀ more, steps ≤ more → runFor step more before = some final := by
  induction ends with
  | here stopped =>
      refine ⟨1, fun more enough => ?_⟩
      obtain ⟨rest, rfl⟩ := Nat.exists_eq_succ_of_ne_zero (Nat.ne_of_gt enough)
      rw [runFor, stopped]
  | move moved _ continued =>
      obtain ⟨steps, ran⟩ := continued
      refine ⟨steps + 1, fun more enough => ?_⟩
      obtain ⟨rest, rfl⟩ := Nat.exists_eq_succ_of_ne_zero (Nat.ne_of_gt (Nat.zero_lt_of_lt enough))
      rw [runFor, moved]
      exact ran rest (Nat.le_of_succ_le_succ enough)

/-- A machine ends where every step makes a state smaller. -/
theorem ends_of_wellFounded (step : State → Option State) {Measure : Type v}
    {smaller : Measure → Measure → Prop} (wellFounded : WellFounded smaller)
    (measure : State → Measure) (property : State → Prop)
    (preserved : ∀ state next, property state → step state = some next → property next)
    (decreases : ∀ state next, property state → step state = some next →
      smaller (measure next) (measure state))
    (state : State) (initially : property state) : ∃ final, Ends step state final := by
  induction size : measure state using wellFounded.induction generalizing state with
  | _ _ shorter =>
      cases moved : step state with
      | none => exact ⟨state, .here moved⟩
      | some next =>
          obtain ⟨final, ends⟩ := shorter _ (size ▸ decreases state next initially moved) next
            (preserved state next initially moved) rfl
          exact ⟨final, .move moved ends⟩

/-- A machine does not end where every state of some kind leads to another one. -/
theorem not_ends_of_recurs (property : State → Prop)
    (recurs : ∀ state, property state →
      ∃ next, Relation.TransGen (Moves step) state next ∧ property next)
    {state : State} (initially : property state) : ¬ Ends step state final := by
  -- every state on the way still has a state of the kind before it
  have leads : ∀ current, Ends step current final →
      ∀ kind, Relation.ReflTransGen (Moves step) current kind → ¬ property kind := by
    intro current ends
    induction ends with
    | here stopped =>
        intro kind moved holds
        rcases Relation.ReflTransGen.cases_head moved with rfl | ⟨next, first, -⟩
        · obtain ⟨next, further, -⟩ := recurs _ holds
          obtain ⟨after, first, -⟩ := Relation.TransGen.head'_iff.mp further
          rw [Moves, stopped] at first
          cases first
        · rw [Moves, stopped] at first
          cases first
    | move moved _ continued =>
        intro kind movedOn holds
        rcases Relation.ReflTransGen.cases_head movedOn with rfl | ⟨next, first, later⟩
        · obtain ⟨next, further, holdsNext⟩ := recurs _ holds
          obtain ⟨after, first, later⟩ := Relation.TransGen.head'_iff.mp further
          rw [Moves, moved] at first
          cases first
          exact continued next later holdsNext
        · rw [Moves, moved] at first
          cases first
          exact continued kind later holds
  exact fun ends => leads state ends state .refl initially

end ReactiveToolbox.Lib
