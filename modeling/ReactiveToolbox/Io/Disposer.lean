import Mathlib.Algebra.Group.Nat.Defs
import Mathlib.Data.Nat.Init
import ReactiveToolbox.Lib.Transition

/-!
# Disposal under locks

A `BasicDisposer` may be disposed of while callbacks of its owner hold locks on
it; `dispose_now` is then called when the last of them is released.  One counter
of sixteen bits is the number of locks, and one more once `dispose_now` has been
called, so that it cannot be called again.

`dispose_now` is the last thing that `dispose` and the release of a lock do, so
that what it calls in turn simply follows it.
-/

namespace ReactiveToolbox.Io

open ReactiveToolbox.Lib

/-- `BasicDisposer`. -/
structure BasicDisposer where
  locks_ : BitVec 16
  dispose_ : Bool
  deriving DecidableEq

namespace BasicDisposer

/-- A new disposer. -/
def create : BasicDisposer where
  locks_ := 0
  dispose_ := false

/-- `dispose`, and whether it calls `dispose_now`. -/
def dispose (disposer : BasicDisposer) : BasicDisposer × Bool :=
  if disposer.locks_ = 0 then
    -- A lock that is never released keeps it from being disposed of once more.
    ({ disposer with locks_ := 1 }, true)
  else ({ disposer with dispose_ := true }, false)

/-- `is_locked`. -/
def isLocked (disposer : BasicDisposer) : Bool :=
  (0 : BitVec 16).slt disposer.locks_

/-- `lock_this`. -/
def lockThis (disposer : BasicDisposer) : BasicDisposer :=
  { disposer with locks_ := disposer.locks_ + 1 }

/-- The release of a lock that `lock_this` has returned, and whether it calls `dispose_now`. -/
def unlock (disposer : BasicDisposer) : BasicDisposer × Bool :=
  let released := { disposer with locks_ := disposer.locks_ - 1 }
  if released.locks_ = 0 ∧ released.dispose_ then ({ released with locks_ := 1 }, true)
  else (released, false)

end BasicDisposer

/-! ## Calls from outside and from callbacks -/

/-- What the users of a disposer do. -/
inductive DisposerAction where
  | lockThis
  | unlock
  | dispose
  deriving DecidableEq

/--
A disposer with the locks that are held, whether `dispose` has been called, and for
each call of `dispose_now` how many locks were held then.
-/
structure Disposal where
  disposer : BasicDisposer
  held : Nat
  asked : Bool
  calls : List Nat
  deriving DecidableEq

namespace Disposal

/-- Nobody holds it, and nobody has asked for its disposal. -/
def initial : Disposal where
  disposer := .create
  held := 0
  asked := false
  calls := []

/-- The calls of `dispose_now`, with one more if it has just been made. -/
def called (state : Disposal) (held : Nat) (calls : Bool) : List Nat :=
  if calls then state.calls ++ [held] else state.calls

/-- One call; a lock is released only while it is held. -/
def step (state : Disposal) : DisposerAction → Option Disposal
  | .lockThis => some
      { state with
        disposer := state.disposer.lockThis
        held := state.held + 1 }
  | .unlock =>
      match state.held with
      | 0 => none
      | held + 1 =>
          let unlocked := state.disposer.unlock
          some
            { state with
              disposer := unlocked.1
              held := held
              calls := state.called held unlocked.2 }
  | .dispose =>
      let disposed := state.disposer.dispose
      some
        { state with
          disposer := disposed.1
          asked := true
          calls := state.called state.held disposed.2 }

/-- `dispose_now` is called once, under no lock, and as soon as that can be. -/
structure DisposesOnce (state : Disposal) : Prop where
  atMostOnce : state.calls.length ≤ 1
  unheld : ∀ held ∈ state.calls, held = 0
  unasked : state.asked = false → state.calls = []
  released : state.asked = true → state.held = 0 → state.calls.length = 1

/-- So many locks, and one more for each call of `dispose_now`, wrap the counter around. -/
def WrapsAt (count : Nat) : Prop :=
  count ≠ 0 ∧ 2 ^ 16 ∣ count

instance (count : Nat) : Decidable (WrapsAt count) :=
  inferInstanceAs (Decidable (_ ∧ _))

/-- The counter comes to zero by going around, where this makes a difference. -/
def Wraps (state : Disposal) : DisposerAction → Prop
  | .lockThis => False
  | .unlock => state.disposer.dispose_ = true ∧ WrapsAt (state.held - 1 + state.calls.length)
  | .dispose => WrapsAt (state.held + state.calls.length)

instance (state : Disposal) (action : DisposerAction) : Decidable (state.Wraps action) :=
  match action with
  | .lockThis => inferInstanceAs (Decidable False)
  | .unlock => inferInstanceAs (Decidable (_ ∧ _))
  | .dispose => inferInstanceAs (Decidable (WrapsAt _))

/-! ## The counter -/

/-- What holds as long as the counter has not gone around. -/
structure Counted (state : Disposal) : Prop where
  locks : state.disposer.locks_ = BitVec.ofNat 16 (state.held + state.calls.length)
  flagged : state.disposer.dispose_ = true → state.asked = true
  pending : state.asked = true → state.calls = [] → state.disposer.dispose_ = true
  once : state.DisposesOnce

theorem initial_counted : initial.Counted := by
  refine ⟨rfl, ?_, ?_, ?_⟩
  · rintro ⟨⟩
  · rintro ⟨⟩
  · exact ⟨Nat.zero_le 1, by simp [initial], fun _ => rfl, fun asked => nomatch asked⟩

/-- The counter is zero where there is nothing to count, or where it has gone around. -/
theorem ofNat_eq_zero_iff (count : Nat) :
    BitVec.ofNat 16 count = 0 ↔ count = 0 ∨ WrapsAt count := by
  rw [BitVec.ofNat_eq_ofNat, ← BitVec.toNat_inj, BitVec.toNat_ofNat, BitVec.toNat_ofNat,
    Nat.zero_mod, ← Nat.dvd_iff_mod_eq_zero]
  constructor
  · intro divides
    by_cases zero : count = 0
    · exact Or.inl zero
    · exact Or.inr ⟨zero, divides⟩
  · rintro (rfl | ⟨-, divides⟩)
    · exact Nat.dvd_zero _
    · exact divides

section

variable {state next : Disposal}

theorem Counted.lockThis (counted : state.Counted) (stepped : state.step .lockThis = some next) :
    next.Counted := by
  cases stepped
  refine ⟨?_, counted.flagged, counted.pending, ?_⟩
  · simp only [BasicDisposer.lockThis, counted.locks]
    rw [Nat.add_right_comm, BitVec.ofNat_add _ 1]
    rfl
  · have once := counted.once
    refine ⟨once.atMostOnce, once.unheld, once.unasked, ?_⟩
    intro _ zero
    cases zero

/-- The first call of `dispose_now` may be made where no lock is held. -/
theorem disposesOnce_of_called {held : Nat} {asked : Bool} {disposer : BasicDisposer}
    (unheld : held = 0) (none : state.calls = []) (isAsked : asked = true) :
    DisposesOnce ⟨disposer, held, asked, state.called held true⟩ := by
  have calls : state.called held true = [0] := by
    rw [called, if_pos rfl, none, unheld]
    rfl
  rw [calls]
  refine ⟨Nat.le_refl 1, ?_, ?_, fun _ _ => rfl⟩
  · intro held member
    exact List.mem_singleton.mp member
  · intro unasked
    rw [isAsked] at unasked
    cases unasked

/-- A call of `dispose_now` under a lock, or after another one, is one too many. -/
theorem not_disposesOnce_of_called {held : Nat} {asked : Bool} {disposer : BasicDisposer}
    (some : held + state.calls.length ≠ 0) :
    ¬DisposesOnce ⟨disposer, held, asked, state.called held true⟩ := by
  intro once
  have atMostOnce := once.atMostOnce
  have unheld := once.unheld held
  simp only [called, if_true, List.length_append, List.length_singleton, List.mem_append,
    List.mem_singleton, or_true, true_implies] at atMostOnce unheld
  omega

theorem Counted.dispose (counted : state.Counted) (stepped : state.step .dispose = some next) :
    (¬state.Wraps .dispose → next.Counted) ∧ (state.Wraps .dispose → ¬next.DisposesOnce) := by
  have zero_iff := ofNat_eq_zero_iff (state.held + state.calls.length)
  rw [← counted.locks] at zero_iff
  simp only [Disposal.step, BasicDisposer.dispose] at stepped
  by_cases zero : state.disposer.locks_ = 0
  · rw [if_pos zero] at stepped
    cases stepped
    constructor
    · intro notWraps
      have nothing := (zero_iff.mp zero).resolve_right notWraps
      have unheld : state.held = 0 := Nat.eq_zero_of_add_eq_zero_right nothing
      have none : state.calls = [] :=
        List.length_eq_zero_iff.mp (Nat.eq_zero_of_add_eq_zero_left nothing)
      refine ⟨?_, fun _ => rfl, ?_, ?_⟩
      · simp only [called, if_true, none, unheld, List.nil_append, List.length_singleton]
        rfl
      · intro _ nil
        simp [called] at nil
      · exact disposesOnce_of_called unheld none rfl
    · intro wraps
      exact not_disposesOnce_of_called wraps.1
  · rw [if_neg zero] at stepped
    cases stepped
    have notWraps : ¬state.Wraps .dispose := fun wraps => zero (zero_iff.mpr (Or.inr wraps))
    have once := counted.once
    refine ⟨fun _ => ⟨counted.locks, fun _ => rfl, fun _ _ => rfl, ?_⟩,
      fun wraps => absurd wraps notWraps⟩
    refine ⟨once.atMostOnce, once.unheld, ?_, ?_⟩
    · rintro ⟨⟩
    · intro _ unheld
      have made : state.calls.length ≠ 0 := by
        intro none
        refine zero (zero_iff.mpr (Or.inl ?_))
        rw [none, Nat.add_zero]
        exact unheld
      have atMostOnce := once.atMostOnce
      exact Nat.le_antisymm atMostOnce (Nat.one_le_iff_ne_zero.mpr made)

theorem Counted.unlock (counted : state.Counted) (stepped : state.step .unlock = some next) :
    (¬state.Wraps .unlock → next.Counted) ∧ (state.Wraps .unlock → ¬next.DisposesOnce) := by
  rcases state with ⟨⟨locks, flag⟩, held, asked, calls⟩
  cases held with
  | zero => cases stepped
  | succ held =>
      have locks_eq : locks - 1 = BitVec.ofNat 16 (held + calls.length) := by
        have before : locks = BitVec.ofNat 16 (held + calls.length) + 1 := by
          have count_eq := counted.locks
          simp only at count_eq
          rw [count_eq, Nat.add_right_comm, BitVec.ofNat_add _ 1]
          rfl
        rw [before, BitVec.add_sub_cancel]
      have zero_iff := ofNat_eq_zero_iff (held + calls.length)
      rw [← locks_eq] at zero_iff
      have once := counted.once
      have flagged := counted.flagged
      have pending := counted.pending
      simp only [Disposal.step, BasicDisposer.unlock] at stepped
      by_cases fires : locks - 1 = 0 ∧ flag = true
      · rw [if_pos fires] at stepped
        cases stepped
        constructor
        · intro notWraps
          have nothing := (zero_iff.mp fires.1).resolve_right fun wraps => notWraps ⟨fires.2, wraps⟩
          have unheld : held = 0 := Nat.eq_zero_of_add_eq_zero_right nothing
          have none : calls = [] :=
            List.length_eq_zero_iff.mp (Nat.eq_zero_of_add_eq_zero_left nothing)
          refine ⟨?_, flagged, ?_, ?_⟩
          · simp only [called, if_true, none, unheld, List.nil_append, List.length_singleton]
            rfl
          · intro _ nil
            simp [called] at nil
          · exact disposesOnce_of_called unheld none (flagged fires.2)
        · intro wraps
          exact not_disposesOnce_of_called wraps.2.1
      · rw [if_neg fires] at stepped
        cases stepped
        refine ⟨fun _ => ⟨locks_eq, flagged, pending, ?_⟩, ?_⟩
        · refine ⟨once.atMostOnce, once.unheld, once.unasked, ?_⟩
          intro isAsked unheld
          have made : calls.length ≠ 0 := by
            intro none
            have empty : calls = [] := List.length_eq_zero_iff.mp none
            refine fires ⟨zero_iff.mpr (Or.inl ?_), pending isAsked empty⟩
            rw [none, Nat.add_zero]
            exact unheld
          exact Nat.le_antisymm once.atMostOnce (Nat.one_le_iff_ne_zero.mpr made)
        · rintro ⟨flag_eq, wraps⟩
          exact absurd ⟨zero_iff.mpr (Or.inr wraps), flag_eq⟩ fires

/-- One call keeps the count, or it wraps the counter around and breaks the promise. -/
theorem Counted.step (counted : state.Counted) {action : DisposerAction}
    (stepped : state.step action = some next) :
    (¬state.Wraps action → next.Counted) ∧ (state.Wraps action → ¬next.DisposesOnce) := by
  cases action with
  | lockThis => exact ⟨fun _ => counted.lockThis stepped, fun wraps => wraps.elim⟩
  | unlock => exact counted.unlock stepped
  | dispose => exact counted.dispose stepped

theorem reachable_counted (reached : Reachable step (fun state action => ¬state.Wraps action)
    initial state) : state.Counted := by
  refine reached.invariant initial_counted ?_
  intro before action after counted notWraps stepped
  exact (counted.step stepped).1 notWraps

end

/--
As long as no call wraps the counter around, `dispose_now` is called once, under no
lock, and as soon as that can be; the first call that does breaks this.
-/
theorem reachable_disposesOnce {state : Disposal}
    (reached : Reachable step (fun state action => ¬state.Wraps action) initial state) :
    state.DisposesOnce ∧ ∀ action next, state.step action = some next →
      (next.DisposesOnce ↔ ¬state.Wraps action) := by
  have counted := reachable_counted reached
  refine ⟨counted.once, ?_⟩
  intro action next stepped
  rcases counted.step stepped with ⟨kept, broken⟩
  constructor
  · intro once wraps
    exact broken wraps once
  · intro notWraps
    exact (kept notWraps).once

/-- Two locks are held when `dispose` is called, and `dispose_now` locks and disposes again. -/
theorem reachable_disposesOnce_nested :
    ∃ state : Disposal, state.calls = [0] ∧ state.DisposesOnce ∧ ∀ action next,
      state.step action = some next → (next.DisposesOnce ↔ ¬state.Wraps action) := by
  have computed : (execute step (fun state action => ¬state.Wraps action) initial
      [.lockThis, .lockThis, .dispose, .unlock, .unlock, .lockThis, .dispose, .unlock]).map
        Disposal.calls = some [0] := by
    decide
  rcases Reachable.of_execute computed with ⟨state, reached, calls⟩
  exact ⟨state, calls, reachable_disposesOnce reached⟩

/-! ## Too many locks -/

/-- Locks alone, as many as one likes. -/
theorem run_locks (count : Nat) :
    Run step unguarded initial (List.replicate count .lockThis)
      ⟨⟨BitVec.ofNat 16 count, false⟩, count, false, []⟩ := by
  induction count with
  | zero => exact .start
  | succ count earlier =>
      rw [List.replicate_succ']
      refine .step earlier trivial ?_
      simp only [step, BasicDisposer.lockThis]
      rw [BitVec.ofNat_add _ 1]
      rfl

/-- With 2 ^ 16 locks held the counter is zero, and `dispose` calls `dispose_now` under them. -/
theorem dispose_under_many_locks :
    ∃ state : Disposal, Reachable step unguarded initial state ∧ state.held = 65536 ∧
      state.calls = [65536] ∧ ¬state.DisposesOnce := by
  have reached : Reachable step unguarded initial
      ⟨⟨BitVec.ofNat 16 65536, false⟩, 65536, false, []⟩ := ⟨_, run_locks 65536⟩
  have stepped : step ⟨⟨BitVec.ofNat 16 65536, false⟩, 65536, false, []⟩ .dispose =
      some ⟨⟨1, false⟩, 65536, true, [65536]⟩ := rfl
  refine ⟨_, reached.extend trivial stepped, rfl, rfl, ?_⟩
  intro once
  exact absurd (once.unheld 65536 List.mem_cons_self) (by decide)

end Disposal

end ReactiveToolbox.Io
