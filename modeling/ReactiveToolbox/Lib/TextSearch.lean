import Mathlib.Data.List.Basic

/-!
# Searching in a text

The first and the last position at which a pattern occurs in a text, and where
they are when the first symbol of the pattern occurs only once.
-/

namespace ReactiveToolbox.Lib

universe u

variable {α : Type u}

/-- So many symbols from a position on. -/
def substr (text : List α) (position count : Nat) : List α :=
  (text.drop position).take count

/-- What stands between two texts. -/
theorem substr_append (front middle back : List α) :
    substr (front ++ middle ++ back) front.length middle.length = middle := by
  rw [substr, List.append_assoc, List.drop_left, List.take_left]

variable [DecidableEq α]

/-- The first position of a pattern in a text. -/
def find (pattern : List α) : List α → Option Nat
  | [] => if pattern = [] then some 0 else none
  | symbol :: rest =>
      if pattern.isPrefixOf (symbol :: rest) then some 0
      else (find pattern rest).map (· + 1)

/-- The first position of a pattern in a text that is not before a given one. -/
def findFrom (pattern text : List α) (position : Nat) : Option Nat :=
  (find pattern (text.drop position)).map (· + position)

/-- The last position of a pattern in a text. -/
def rfind (pattern : List α) : List α → Option Nat
  | [] => if pattern = [] then some 0 else none
  | symbol :: rest =>
      match rfind pattern rest with
      | some position => some (position + 1)
      | none => if pattern.isPrefixOf (symbol :: rest) then some 0 else none

variable {first symbol : α} {tail front back text : List α}

theorem find_cons (pattern : List α) (symbol : α) (rest : List α) :
    find pattern (symbol :: rest) =
      if pattern.isPrefixOf (symbol :: rest) then some 0
      else (find pattern rest).map (· + 1) := rfl

theorem find_nil_cons (first : α) (tail : List α) : find (first :: tail) [] = none := rfl

theorem rfind_cons (pattern : List α) (symbol : α) (rest : List α) :
    rfind pattern (symbol :: rest) =
      match rfind pattern rest with
      | some position => some (position + 1)
      | none => if pattern.isPrefixOf (symbol :: rest) then some 0 else none := rfl

theorem isPrefixOf_cons_ne (different : first ≠ symbol) :
    (first :: tail).isPrefixOf (symbol :: text) = false := by
  simp [List.isPrefixOf, different]

/-- A search passes over a text without the first symbol. -/
theorem find_append_of_not_mem (absent : first ∉ front) :
    find (first :: tail) (front ++ back) =
      (find (first :: tail) back).map (· + front.length) := by
  induction front with
  | nil => simp
  | cons symbol rest continued =>
      rw [List.mem_cons, not_or] at absent
      rw [List.cons_append, find_cons, isPrefixOf_cons_ne absent.1, continued absent.2]
      simp only [Bool.false_eq_true, if_false, Option.map_map, List.length_cons]
      rfl

theorem find_of_not_mem (absent : first ∉ text) : find (first :: tail) text = none := by
  have ended : find (first :: tail) (text ++ []) = none :=
    find_append_of_not_mem absent
  rw [List.append_nil] at ended
  exact ended

/-- Where the first symbol of a pattern occurs only once, the pattern is there or nowhere. -/
theorem find_once (absent : first ∉ back) :
    find (first :: tail) (first :: back) = if tail.isPrefixOf back then some 0 else none := by
  rw [find_cons, find_of_not_mem absent]
  simp [List.isPrefixOf]

/-- The first occurrence of a symbol. -/
theorem find_symbol (absent : first ∉ front) :
    find [first] (front ++ first :: back) = some front.length := by
  rw [find_append_of_not_mem absent, find_cons]
  simp [List.isPrefixOf]

/-- A text is cut around the first place where a symbol is found. -/
theorem exists_of_find_symbol {position : Nat} (found : find [first] text = some position) :
    first ∉ text.take position ∧
      text = text.take position ++ first :: text.drop (position + 1) := by
  induction text generalizing position with
  | nil => simp [find_nil_cons] at found
  | cons symbol rest continued =>
      by_cases same : first = symbol
      · subst same
        simp only [find_cons, List.isPrefixOf, beq_self_eq_true, Bool.and_self, if_true,
          Option.some.injEq] at found
        subst found
        simp
      · rw [find_cons, isPrefixOf_cons_ne same] at found
        simp only [Bool.false_eq_true, if_false, Option.map_eq_some_iff] at found
        obtain ⟨before, foundLater, rfl⟩ := found
        obtain ⟨absent, cut⟩ := continued foundLater
        rw [List.take_succ_cons, List.drop_succ_cons]
        exact ⟨by simp [same, absent], by rw [List.cons_append, ← cut]⟩

/-- A symbol that is found nowhere does not occur. -/
theorem not_mem_of_find_symbol (nowhere : find [first] text = none) : first ∉ text := by
  induction text with
  | nil => simp
  | cons symbol rest continued =>
      by_cases same : first = symbol
      · subst same
        simp [find_cons, List.isPrefixOf] at nowhere
      · rw [find_cons, isPrefixOf_cons_ne same] at nowhere
        simp only [Bool.false_eq_true, if_false, Option.map_eq_none_iff] at nowhere
        rw [List.mem_cons, not_or]
        exact ⟨same, continued nowhere⟩

/-- From the place where a pattern is found on, a text begins with the pattern. -/
theorem drop_of_find {pattern : List α} {position : Nat}
    (found : find pattern text = some position) :
    text.drop position = pattern ++ text.drop (position + pattern.length) := by
  induction text generalizing position with
  | nil =>
      cases pattern with
      | nil => simp
      | cons first tail => cases found
  | cons symbol rest continued =>
      rw [find_cons] at found
      split at found
      · rename_i here
        obtain rfl := Option.some.inj found
        obtain ⟨tail, tail_eq⟩ := List.isPrefixOf_iff_prefix.mp here
        rw [Nat.zero_add, List.drop_zero, ← tail_eq, List.drop_left]
      · obtain ⟨before, foundLater, rfl⟩ := Option.map_eq_some_iff.mp found
        rw [List.drop_succ_cons, continued foundLater, Nat.add_right_comm, List.drop_succ_cons]

theorem rfind_of_not_mem (absent : first ∉ text) : rfind (first :: tail) text = none := by
  induction text with
  | nil => rfl
  | cons symbol rest continued =>
      rw [List.mem_cons, not_or] at absent
      rw [rfind_cons, continued absent.2, isPrefixOf_cons_ne absent.1]
      rfl

/-- The last occurrence of a symbol. -/
theorem rfind_symbol (absent : first ∉ back) :
    rfind [first] (front ++ first :: back) = some front.length := by
  induction front with
  | nil =>
      rw [List.nil_append, rfind_cons, rfind_of_not_mem absent]
      simp [List.isPrefixOf]
  | cons symbol rest continued =>
      rw [List.cons_append, rfind_cons, continued]
      rfl

/-- What stands in front of a text does not matter where the pattern is found in it. -/
theorem rfind_append {pattern : List α} {position : Nat}
    (found : rfind pattern back = some position) :
    rfind pattern (front ++ back) = some (front.length + position) := by
  induction front with
  | nil => rw [List.nil_append, found, List.length_nil, Nat.zero_add]
  | cons symbol rest continued =>
      rw [List.cons_append, rfind_cons, continued, List.length_cons, Nat.add_right_comm]

theorem not_mem_of_rfind_symbol (nowhere : rfind [first] text = none) : first ∉ text := by
  intro member
  obtain ⟨front, back, rfl⟩ := List.append_of_mem member
  cases later : rfind [first] (first :: back) with
  | some position =>
      rw [rfind_append later] at nowhere
      cases nowhere
  | none =>
      rw [rfind_cons] at later
      split at later
      · cases later
      · simp [List.isPrefixOf] at later

/-- A text is cut around the last place where a symbol is found. -/
theorem exists_of_rfind_symbol {position : Nat} (found : rfind [first] text = some position) :
    text = text.take position ++ first :: text.drop (position + 1) := by
  induction text generalizing position with
  | nil => cases found
  | cons symbol rest continued =>
      rw [rfind_cons] at found
      cases later : rfind [first] rest with
      | some place =>
          rw [later] at found
          obtain rfl := Option.some.inj found
          rw [List.take_succ_cons, List.drop_succ_cons, List.cons_append, ← continued later]
      | none =>
          rw [later] at found
          dsimp only at found
          split at found
          · rename_i here
            obtain rfl := Option.some.inj found
            have same : first = symbol := by simpa [List.isPrefixOf] using here
            rw [same]
            rfl
          · cases found

end ReactiveToolbox.Lib
