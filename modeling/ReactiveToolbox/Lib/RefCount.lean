import Mathlib.Algebra.Group.Pi.Basic
import Mathlib.Algebra.Ring.Nat
import Mathlib.Data.List.Nodup

/-!
# Reference counts and a free list

Cells are numbered; `refs` says how many references there are to each of them,
`count` what the cell itself says, and `free` which cells may be taken.  Cells
from `bound` on do not exist yet.  `allocs` and `returns` count how often each
cell was handed out and came back.
-/

namespace ReactiveToolbox.Lib

/-- Counts, free list and references agree. -/
structure RefCounted (count : Nat → Int) (free : List Nat) (bound : Nat)
    (allocs returns refs : Nat → Nat) : Prop where
  counted : ∀ cell, 0 < allocs cell → count cell = refs cell
  free_iff : ∀ cell, cell ∈ free ↔ cell < bound ∧ refs cell = 0
  beyond : ∀ cell, bound ≤ cell → refs cell = 0
  nodup : free.Nodup
  balanced : ∀ cell, allocs cell = returns cell + if 0 < refs cell then 1 else 0

namespace RefCounted

variable {count : Nat → Int} {free rest : List Nat} {bound cell : Nat}
    {allocs returns refs : Nat → Nat}

/-- Nothing has been made. -/
theorem empty (count : Nat → Int) :
    RefCounted count [] 0 (fun _ => 0) (fun _ => 0) (fun _ => 0) where
  counted := fun _ live => absurd live (Nat.lt_irrefl 0)
  free_iff := by simp
  beyond := fun _ _ => rfl
  nodup := List.nodup_nil
  balanced := by simp

theorem allocs_pos (inv : RefCounted count free bound allocs returns refs)
    (live : 0 < refs cell) : 0 < allocs cell := by
  rw [inv.balanced, if_pos live]
  omega

theorem lt_bound (inv : RefCounted count free bound allocs returns refs)
    (live : 0 < refs cell) : cell < bound := by
  by_contra outside
  exact absurd (inv.beyond cell (Nat.le_of_not_lt outside)) (Nat.ne_of_gt live)

/-- One reference more to a cell that is in use makes no other cell used. -/
theorem add_single_eq_zero_iff (live : 0 < refs cell) (other : Nat) :
    (refs + Pi.single cell 1 : Nat → Nat) other = 0 ↔ refs other = 0 := by
  by_cases same : other = cell
  · subst same
    simp [Nat.ne_of_gt live]
  · simp [Pi.single_eq_of_ne same]

/-- A reference is copied. -/
theorem acquire (inv : RefCounted count free bound allocs returns refs)
    (live : 0 < refs cell) :
    RefCounted (Function.update count cell (count cell + 1)) free bound allocs returns
      (refs + Pi.single cell 1) where
  counted := by
    intro other used
    by_cases same : other = cell
    · subst same
      simp [inv.counted other used]
    · rw [Function.update_of_ne same, inv.counted other used]
      simp [Pi.single_eq_of_ne same]
  free_iff := by
    intro other
    rw [inv.free_iff, add_single_eq_zero_iff live]
  beyond := by
    intro other outside
    have apart : other ≠ cell := fun same =>
      absurd (inv.lt_bound live) (Nat.not_lt.mpr (same ▸ outside))
    simp [Pi.single_eq_of_ne apart, inv.beyond other outside]
  nodup := inv.nodup
  balanced := by
    intro other
    simp only [inv.balanced, Nat.pos_iff_ne_zero, ne_eq, add_single_eq_zero_iff live]

/-- A reference is dropped and others are left. -/
theorem drop
    (inv : RefCounted count free bound allocs returns (refs + Pi.single cell 1))
    (live : 0 < refs cell) :
    RefCounted (Function.update count cell (count cell - 1)) free bound allocs returns
      refs where
  counted := by
    intro other used
    by_cases same : other = cell
    · subst same
      simp [inv.counted other used]
    · rw [Function.update_of_ne same, inv.counted other used]
      simp [Pi.single_eq_of_ne same]
  free_iff := by
    intro other
    rw [inv.free_iff, add_single_eq_zero_iff live]
  beyond := by
    intro other outside
    have before := inv.beyond other outside
    exact (Nat.add_eq_zero_iff.mp before).1
  nodup := inv.nodup
  balanced := by
    intro other
    simp only [inv.balanced, Nat.pos_iff_ne_zero, ne_eq, add_single_eq_zero_iff live]

/-- The last reference is dropped and the cell returned. -/
theorem recycle {count' : Nat → Int}
    (inv : RefCounted count free bound allocs returns (refs + Pi.single cell 1))
    (last : refs cell = 0) (zero : count' cell = 0)
    (same : ∀ other, other ≠ cell → count' other = count other) :
    RefCounted count' (cell :: free) bound allocs (returns + Pi.single cell 1) refs where
  counted := by
    intro other used
    by_cases equal : other = cell
    · subst equal
      simp [zero, last]
    · rw [same other equal, inv.counted other used]
      simp [Pi.single_eq_of_ne equal]
  free_iff := by
    intro other
    rw [List.mem_cons, inv.free_iff]
    by_cases equal : other = cell
    · subst equal
      have within : other < bound := inv.lt_bound (by simp)
      simp [last, within]
    · simp [equal]
  beyond := by
    intro other outside
    have before := inv.beyond other outside
    exact (Nat.add_eq_zero_iff.mp before).1
  nodup := by
    refine List.nodup_cons.mpr ⟨fun present => ?_, inv.nodup⟩
    have unreferenced := ((inv.free_iff cell).mp present).2
    simp at unreferenced
  balanced := by
    intro other
    rw [inv.balanced]
    by_cases equal : other = cell
    · subst equal
      simp [last]
    · simp [Pi.single_eq_of_ne equal]

/-- The first free cell is handed out. -/
theorem take {count' : Nat → Int}
    (inv : RefCounted count (cell :: rest) bound allocs returns refs)
    (one : count' cell = 1) (same : ∀ other, other ≠ cell → count' other = count other) :
    RefCounted count' rest bound (allocs + Pi.single cell 1) returns
      (refs + Pi.single cell 1) := by
  have unreferenced := ((inv.free_iff cell).mp List.mem_cons_self)
  have notIn : cell ∉ rest := (List.nodup_cons.mp inv.nodup).1
  refine ⟨fun other used => ?_, fun other => ?_, fun other outside => ?_,
    (List.nodup_cons.mp inv.nodup).2, fun other => ?_⟩
  · by_cases equal : other = cell
    · subst equal
      simp [one, unreferenced.2]
    · simp only [Pi.add_apply, Pi.single_eq_of_ne equal, Nat.add_zero] at used ⊢
      rw [same other equal]
      exact inv.counted other used
  · by_cases equal : other = cell
    · subst equal
      simp [notIn]
    · have before := inv.free_iff other
      simpa [equal, Pi.single_eq_of_ne equal] using before
  · have apart : other ≠ cell := fun equal =>
      absurd unreferenced.1 (Nat.not_lt.mpr (equal ▸ outside))
    simp [Pi.single_eq_of_ne apart, inv.beyond other outside]
  · by_cases equal : other = cell
    · subst equal
      have before := inv.balanced other
      simp [unreferenced.2] at before ⊢
      exact before
    · simp [Pi.single_eq_of_ne equal, inv.balanced other]

/-- With no cell free, new ones are made and the first of them handed out. -/
theorem grow {count' : Nat → Int} {size : Nat}
    (inv : RefCounted count [] bound allocs returns refs)
    (positive : 0 < size)
    (one : count' bound = 1) (same : ∀ other, other ≠ bound → count' other = count other)
    (nodup : rest.Nodup)
    (made : ∀ other, other ∈ rest ↔ bound < other ∧ other < bound + size) :
    RefCounted count' rest (bound + size) (allocs + Pi.single bound 1) returns
      (refs + Pi.single bound 1) := by
  have unreferenced := inv.beyond bound (Nat.le_refl _)
  refine ⟨fun other used => ?_, fun other => ?_, fun other outside => ?_, nodup,
    fun other => ?_⟩
  · by_cases equal : other = bound
    · subst equal
      simp [one, unreferenced]
    · simp only [Pi.add_apply, Pi.single_eq_of_ne equal, Nat.add_zero] at used ⊢
      rw [same other equal]
      exact inv.counted other used
  · rw [made]
    by_cases equal : other = bound
    · subst equal
      simp
    · have before := inv.free_iff other
      have past := inv.beyond other
      simp only [List.not_mem_nil, false_iff, Pi.add_apply, Pi.single_eq_of_ne equal,
        Nat.add_zero] at before ⊢
      omega
  · have apart : other ≠ bound := by omega
    simp [Pi.single_eq_of_ne apart, inv.beyond other (by omega)]
  · by_cases equal : other = bound
    · subst equal
      have before := inv.balanced other
      simp [unreferenced] at before ⊢
      exact before
    · simp [Pi.single_eq_of_ne equal, inv.balanced other]

end RefCounted

end ReactiveToolbox.Lib
