import Mathlib.Data.Multiset.DershowitzManna
import ReactiveToolbox.Util.VarSub

/-!
# Substitutions that end

Every character of a text that is substituted stems from the values of some names, one
inside another.  A substitution ends exactly where no character stems from more than
so many names: names that were substituted at one position are remembered, but only
until the position advances.
-/

namespace ReactiveToolbox.Util.VarSub

open ReactiveToolbox.Lib

/-! ## Where characters come from -/

/-- A character with the names whose values it stems from, the innermost first. -/
abbrev Stemmed := List (Char × List Text)

/-- What a step does to the text: so many characters at a position become a value of a name. -/
structure Edit where
  position : Nat
  count : Nat
  name : Text
  value : Text

/-- The edit that `examine` makes. -/
def Scan.examineEdit (fn : Text → Text) (self : Scan) (ch : Char) : Option Edit :=
  match self.callers with
  | [] => none
  | caller :: _ =>
      if ch = '}' then
        let i := caller.j
        let n := self.frame.j - i
        let name := substr self.s (i + 2) (n - 2)
        some ⟨i, n + 1, name, if name ∈ caller.inner then [] else fn name⟩
      else none

/-- The edit that a step makes. -/
def Scan.edit (fn : Text → Text) (self : Scan) : Option Edit :=
  match self.s[self.frame.j]? with
  | none => none
  | some ch =>
      match self.frame.state with
      | .backslash => some ⟨self.frame.j - 1, 1, [], []⟩
      | .dollar => if ch = '{' then none else self.examineEdit fn ch
      | .plain => self.examineEdit fn ch

/-- The value stems from its name, inside of what the `$` of the reference stems from. -/
def Edit.apply (edit : Edit) (stemmed : Stemmed) : Stemmed :=
  let outer := (stemmed[edit.position]?.map Prod.snd).getD []
  replace stemmed edit.position edit.count (edit.value.map fun ch => (ch, edit.name :: outer))

/-- A scan with where its characters come from. -/
structure Traced where
  scan : Scan
  stemmed : Stemmed

/-- A step, with what becomes of the characters. -/
def Traced.step (fn : Text → Text) (self : Traced) : Option Traced :=
  (self.scan.step fn).map fun next =>
    ⟨next, match self.scan.edit fn with
      | none => self.stemmed
      | some edit => edit.apply self.stemmed⟩

/-- At the beginning no character stems from a value. -/
def Traced.start (s : Text) : Traced :=
  ⟨.start s, s.map fun ch => (ch, [])⟩

/-- What is reached on the way from a text. -/
def Traced.Reached (fn : Text → Text) (s : Text) (traced : Traced) : Prop :=
  Relation.ReflTransGen (Moves (Traced.step fn)) (.start s) traced

/-- No character stems from the values of more than so many names, one inside another. -/
def NestsWithin (fn : Text → Text) (s : Text) (bound : Nat) : Prop :=
  ∀ traced, Traced.Reached fn s traced → ∀ entry ∈ traced.stemmed, entry.2.length ≤ bound

/-! ## The text is the characters -/

theorem map_replace {α β : Type} (f : α → β) (list : List α) (position count : Nat)
    (value : List α) :
    (replace list position count value).map f = replace (list.map f) position count
      (value.map f) := by
  simp [replace, List.map_take, List.map_drop]

theorem Edit.apply_map (edit : Edit) (stemmed : Stemmed) :
    (edit.apply stemmed).map Prod.fst =
      replace (stemmed.map Prod.fst) edit.position edit.count edit.value := by
  simp [Edit.apply, map_replace, Function.comp_def]

section

variable {fn : Text → Text}

theorem examine_text (scan : Scan) (ch : Char) :
    (scan.examine fn ch).s = match scan.examineEdit fn ch with
      | none => scan.s
      | some edit => replace scan.s edit.position edit.count edit.value := by
  obtain ⟨s, frame, callers⟩ := scan
  cases callers with
  | nil =>
      simp only [Scan.examine, Scan.examineEdit]
      split
      · rfl
      · split
        · rfl
        · split <;> rfl
  | cons caller callers =>
      by_cases close : ch = '}'
      · subst close
        simp only [Scan.examine, Scan.examineEdit, Scan.ascend]
        simp only [Char.reduceEq, if_false, if_true]
        split <;> rfl
      · simp only [Scan.examine, Scan.examineEdit, close, if_false]
        split
        · rfl
        · split <;> rfl

/-- The text after a step is the text before it, edited. -/
theorem step_text {scan next : Scan} (stepped : scan.step fn = some next) :
    next.s = match scan.edit fn with
      | none => scan.s
      | some edit => replace scan.s edit.position edit.count edit.value := by
  cases found : scan.s[scan.frame.j]? with
  | none =>
      rw [Scan.step, found] at stepped
      cases stepped
  | some ch =>
      rw [Scan.step, found] at stepped
      rw [Scan.edit, found]
      cases state : scan.frame.state with
      | backslash =>
          rw [state] at stepped
          cases stepped
          rfl
      | plain =>
          rw [state] at stepped
          cases stepped
          exact examine_text scan ch
      | dollar =>
          rw [state] at stepped
          cases stepped
          by_cases isOpen : ch = '{'
          · simp [isOpen, Scan.descend]
          · simp only [isOpen, if_false]
            exact examine_text scan ch

end

/-! ## The calls that wait -/

/-- Every caller waits at a `$`, one before the other and all of them before a limit. -/
def Waiting (s : Text) : Nat → List Frame → Prop
  | _, [] => True
  | limit, caller :: callers =>
      caller.j < limit ∧ s[caller.j]? = some '$' ∧ caller.state = .plain ∧
        Waiting s caller.j callers

/-- The callers wait before the cursor, and a `$` that is not yet opened is before it. -/
structure Waited (scan : Scan) : Prop where
  callers : ∃ limit, Waiting scan.s limit scan.callers ∧
    match scan.frame.state with
    | .plain => limit ≤ scan.frame.j
    | .dollar => limit + 1 ≤ scan.frame.j
    | .backslash => limit + 1 ≤ scan.frame.j
  dollar : scan.frame.state = .dollar →
    ∃ before, scan.frame.j = before + 1 ∧ scan.s[before]? = some '$'

theorem Waiting.mono {s : Text} {limit further : Nat} {callers : List Frame}
    (waiting : Waiting s limit callers) (below : limit ≤ further) :
    Waiting s further callers := by
  cases callers with
  | nil => trivial
  | cons caller callers =>
      obtain ⟨before, rest⟩ := waiting
      exact ⟨Nat.lt_of_lt_of_le before below, rest⟩

/-- What changes from the limit on is not what the callers wait at. -/
theorem Waiting.congr {s t : Text} {limit : Nat} {callers : List Frame}
    (waiting : Waiting s limit callers) (same : ∀ index < limit, t[index]? = s[index]?) :
    Waiting t limit callers := by
  induction callers generalizing limit with
  | nil => trivial
  | cons caller callers kept =>
      obtain ⟨before, dollar, plain, outer⟩ := waiting
      refine ⟨before, by rw [same _ before, dollar], plain, kept outer fun index below => ?_⟩
      exact same index (Nat.lt_trans below before)

theorem getElem?_replace_of_lt {α : Type} {list : List α} {position index : Nat} (count : Nat)
    (value : List α) (within : position ≤ list.length) (before : index < position) :
    (replace list position count value)[index]? = list[index]? := by
  have taken : index < (list.take position).length := by
    rw [List.length_take]
    omega
  rw [replace, List.append_assoc, List.getElem?_append_left taken,
    List.getElem?_take_of_lt before]

theorem Waited.start (s : Text) : Waited (.start s) :=
  ⟨⟨0, trivial, Nat.le_refl 0⟩, fun dollar => by cases dollar⟩

section

variable {fn : Text → Text}

/-- A character that is examined leaves the callers waiting. -/
theorem Waited.examine {s : Text} {frame : Frame} {callers : List Frame} {limit : Nat}
    {ch : Char} (waiting : Waiting s limit callers) (below : limit ≤ frame.j)
    (found : s[frame.j]? = some ch) :
    Waited (Scan.examine fn ⟨s, frame, callers⟩ ch) := by
  have passed : Waited ⟨s, frame.advance .plain, callers⟩ := by
    refine ⟨⟨limit, waiting, ?_⟩, fun dollar => by cases dollar⟩
    simp only [Frame.advance]
    omega
  unfold Scan.examine
  split
  · rename_i dollar
    subst dollar
    refine ⟨⟨limit, waiting, ?_⟩, fun _ => ⟨frame.j, rfl, found⟩⟩
    simp only [Scan.advance, Frame.advance]
    omega
  · split
    · refine ⟨⟨limit, waiting, ?_⟩, fun dollar => by cases dollar⟩
      simp only [Scan.advance, Frame.advance]
      omega
    · split
      · cases callers with
        | nil => exact passed
        | cons caller callers =>
            obtain ⟨before, dollar, plain, outer⟩ := waiting
            have within : frame.j < s.length := (List.getElem?_eq_some_iff.mp found).1
            have kept : ∀ value, Waiting (replace s caller.j (frame.j - caller.j + 1) value)
                caller.j callers := fun value =>
              outer.congr fun index below =>
                getElem?_replace_of_lt _ _ (by omega) below
            simp only [Scan.ascend]
            split
            · refine ⟨⟨caller.j, kept _, ?_⟩, fun dollar => ?_⟩
              · simp only [plain]
                exact Nat.le_refl _
              · rw [plain] at dollar
                cases dollar
            · refine ⟨⟨caller.j, kept _, ?_⟩, fun dollar => ?_⟩
              · simp only [plain]
                exact Nat.le_refl _
              · simp only [plain] at dollar
                cases dollar
      · exact passed

/-- A step leaves the callers waiting. -/
theorem Waited.step {scan next : Scan} (waited : Waited scan)
    (stepped : scan.step fn = some next) : Waited next := by
  obtain ⟨s, frame, callers⟩ := scan
  obtain ⟨⟨limit, waiting, below⟩, dollar⟩ := waited
  unfold Scan.step at stepped
  split at stepped
  · cases stepped
  · rename_i ch found
    have within : frame.j < s.length := (List.getElem?_eq_some_iff.mp found).1
    cases state : frame.state with
    | plain =>
        rw [state] at stepped
        cases stepped
        simp only [state] at below
        exact .examine waiting below found
    | backslash =>
        rw [state] at stepped
        cases stepped
        simp only [state] at below
        refine ⟨⟨limit, waiting.congr fun index before => ?_, ?_⟩, fun dollar => by cases dollar⟩
        · exact getElem?_replace_of_lt _ _ (by simp only; omega) (by simp only; omega)
        · simp only [Scan.unescape, Frame.advance]
          omega
    | dollar =>
        rw [state] at stepped
        cases stepped
        simp only [state] at below
        obtain ⟨before, cursor, atDollar⟩ := dollar state
        simp only at cursor atDollar
        split
        · refine ⟨⟨frame.j, ?_, ?_⟩, fun dollar => by cases dollar⟩
          · have back : frame.j - 1 = before := by omega
            have outer : Waiting s (frame.j - 1) callers := waiting.mono (by omega)
            have atDollar : s[frame.j - 1]? = some '$' := by rw [back, atDollar]
            simp only [Scan.descend]
            split
            · exact ⟨by simp only; omega, atDollar, rfl, outer⟩
            · exact ⟨by simp only; omega, atDollar, rfl, outer⟩
          · simp only [Scan.descend, Frame.begin]
            omega
        · exact .examine waiting (by omega) found

/-- What a step does: the cursor moves on, or an escape or a reference is replaced. -/
inductive Shape (fn : Text → Text) (scan next : Scan) : Prop where
  | passes : scan.edit fn = none → next.s = scan.s → scan.frame.j < scan.s.length →
      next.frame.j = scan.frame.j + 1 → Shape fn scan next
  | removes {edit : Edit} : scan.edit fn = some edit → edit.value = [] → edit.count = 1 →
      edit.position < scan.s.length → Shape fn scan next
  | replaces {edit : Edit} : scan.edit fn = some edit → scan.s[edit.position]? = some '$' →
      0 < edit.count → edit.position + edit.count ≤ scan.s.length → Shape fn scan next

theorem Shape.examine {s : Text} {frame : Frame} {callers : List Frame} {limit : Nat}
    {ch : Char} (waiting : Waiting s limit callers) (below : limit ≤ frame.j)
    (found : s[frame.j]? = some ch)
    (edited : Scan.edit fn ⟨s, frame, callers⟩ = Scan.examineEdit fn ⟨s, frame, callers⟩ ch) :
    Shape fn ⟨s, frame, callers⟩ (Scan.examine fn ⟨s, frame, callers⟩ ch) := by
  have within : frame.j < s.length := (List.getElem?_eq_some_iff.mp found).1
  by_cases close : ch = '}'
  · subst close
    cases callers with
    | nil => exact .passes edited rfl within rfl
    | cons caller callers =>
        obtain ⟨before, dollar, -, -⟩ := waiting
        refine .replaces edited dollar (Nat.succ_pos _) ?_
        simp only
        omega
  · have noEdit : Scan.examineEdit fn ⟨s, frame, callers⟩ ch = none := by
      cases callers with
      | nil => rfl
      | cons caller callers => simp [Scan.examineEdit, close]
    refine .passes (edited.trans noEdit) ?_ within ?_
    · have text := @examine_text fn ⟨s, frame, callers⟩ ch
      rw [noEdit] at text
      exact text
    · simp only [Scan.examine, close, if_false]
      split
      · rfl
      · split <;> rfl

theorem Waited.shape {scan next : Scan} (waited : Waited scan)
    (stepped : scan.step fn = some next) : Shape fn scan next := by
  obtain ⟨s, frame, callers⟩ := scan
  obtain ⟨⟨limit, waiting, below⟩, -⟩ := waited
  unfold Scan.step at stepped
  split at stepped
  · cases stepped
  · rename_i ch found
    have within : frame.j < s.length := (List.getElem?_eq_some_iff.mp found).1
    have edited := show Scan.edit fn ⟨s, frame, callers⟩ = _ from rfl
    cases state : frame.state with
    | plain =>
        rw [state] at stepped
        cases stepped
        simp only [state] at below
        exact .examine waiting below found (by simp [Scan.edit, found, state])
    | backslash =>
        rw [state] at stepped
        cases stepped
        have edited : Scan.edit fn ⟨s, frame, callers⟩ = some ⟨frame.j - 1, 1, [], []⟩ := by
          simp [Scan.edit, found, state]
        refine .removes edited rfl rfl ?_
        simp only
        omega
    | dollar =>
        rw [state] at stepped
        cases stepped
        simp only [state] at below
        by_cases isOpen : ch = '{'
        · refine .passes (by simp [Scan.edit, found, state, isOpen]) ?_ within ?_
          · simp [isOpen, Scan.descend]
          · simp [isOpen, Scan.descend, Frame.begin]
        · rw [if_neg isOpen]
          exact .examine waiting (by omega) found (by simp [Scan.edit, found, state, isOpen])

end

/-! ## The end of a substitution -/

/-- How many more names the characters that may open a reference may stem from. -/
def room (bound : Nat) (stemmed : Stemmed) : Multiset Nat :=
  ((stemmed.filter fun entry => entry.1 = '$').map fun entry => bound - entry.2.length : List Nat)

@[simp]
theorem room_append (bound : Nat) (first second : Stemmed) :
    room bound (first ++ second) = room bound first + room bound second := by
  simp only [room, List.filter_append, List.map_append, ← Multiset.coe_add]

theorem mem_room {bound : Nat} {stemmed : Stemmed} {free : Nat} :
    free ∈ room bound stemmed ↔
      ∃ stems, ('$', stems) ∈ stemmed ∧ bound - stems.length = free := by
  simp [room]

theorem room_replace (bound : Nat) (stemmed value : Stemmed) (position count : Nat) :
    room bound (replace stemmed position count value) =
      (room bound (stemmed.take position) + room bound (stemmed.drop (position + count))) +
        room bound value := by
  rw [replace, room_append, room_append, add_right_comm]

theorem room_split (bound : Nat) (stemmed : Stemmed) (position count : Nat) :
    room bound stemmed =
      (room bound (stemmed.take position) + room bound (stemmed.drop (position + count))) +
        room bound ((stemmed.drop position).take count) := by
  have parts : stemmed = stemmed.take position ++
      ((stemmed.drop position).take count ++ stemmed.drop (position + count)) := by
    rw [← List.drop_drop, List.take_append_drop, List.take_append_drop]
  have added := congrArg (room bound) parts
  rw [room_append, room_append] at added
  rw [added, add_assoc, add_comm (room bound (stemmed.drop (position + count)))]

/-- The order on what is left to do: references, then characters, then the way of the cursor. -/
abbrev Less : Multiset Nat × Nat × Nat → Multiset Nat × Nat × Nat → Prop :=
  Prod.Lex Multiset.IsDershowitzMannaLT (Prod.Lex (· < ·) (· < ·))

theorem less_wellFounded : WellFounded Less :=
  WellFounded.prod_lex Multiset.wellFounded_isDershowitzMannaLT
    (WellFounded.prod_lex Nat.lt_wfRel.wf Nat.lt_wfRel.wf)

/-- What is left to do. -/
def Traced.left (bound : Nat) (traced : Traced) : Multiset Nat × Nat × Nat :=
  (room bound traced.stemmed, traced.scan.s.length,
    traced.scan.s.length - traced.scan.frame.j)

/-- The callers wait, and the text is the characters. -/
structure Traced.Sound (traced : Traced) : Prop where
  waited : Waited traced.scan
  text : traced.stemmed.map Prod.fst = traced.scan.s

variable {fn : Text → Text}

theorem Traced.Sound.start (s : Text) : (Traced.start s).Sound :=
  ⟨.start s, by simp [Traced.start, Scan.start, Function.comp_def]⟩

theorem Traced.Sound.step {traced next : Traced} (sound : traced.Sound)
    (stepped : traced.step fn = some next) : next.Sound := by
  obtain ⟨scan, moved, rfl⟩ := Option.map_eq_some_iff.mp stepped
  refine ⟨sound.waited.step moved, ?_⟩
  have text := step_text moved
  rw [text]
  simp only
  split
  · exact sound.text
  · rw [Edit.apply_map, sound.text]

/-- An edit of a `$` leaves less to do, as what it brings stems from one name more. -/
theorem Edit.apply_less {edit : Edit} {stemmed : Stemmed} {bound : Nat} {stems : List Text}
    (found : stemmed[edit.position]? = some ('$', stems)) (positive : 0 < edit.count)
    (bounded : ∀ entry ∈ edit.apply stemmed, entry.2.length ≤ bound) :
    (room bound (edit.apply stemmed)).IsDershowitzMannaLT (room bound stemmed) := by
  have opening : bound - stems.length ∈
      room bound ((stemmed.drop edit.position).take edit.count) := by
    refine mem_room.mpr ⟨stems, ?_, rfl⟩
    obtain ⟨count, isCount⟩ := Nat.exists_eq_succ_of_ne_zero (Nat.pos_iff_ne_zero.mp positive)
    obtain ⟨within, isEntry⟩ := List.getElem?_eq_some_iff.mp found
    rw [isCount, List.drop_eq_getElem_cons within, isEntry, List.take_succ_cons]
    exact List.mem_cons_self
  refine ⟨_, _, _, ?_, room_replace bound stemmed _ _ _, room_split bound stemmed _ _, ?_⟩
  · intro empty
    rw [empty] at opening
    exact absurd opening (Multiset.notMem_zero _)
  · intro free member
    refine ⟨_, opening, ?_⟩
    obtain ⟨others, brought, rfl⟩ := mem_room.mp member
    obtain ⟨ch, -, isEntry⟩ := List.mem_map.mp brought
    have stemsOthers : others = edit.name :: stems := by
      have second := congrArg Prod.snd isEntry
      simpa [found] using second.symm
    have inText : ('$', others) ∈ edit.apply stemmed := by
      simp only [Edit.apply, replace, List.mem_append]
      exact .inl (.inr brought)
    have limit := bounded _ inText
    rw [stemsOthers, List.length_cons] at limit ⊢
    omega

/-- A step leaves less to do, where what it leaves stays within the bound. -/
theorem Traced.step_less {traced next : Traced} {bound : Nat} (sound : traced.Sound)
    (stepped : traced.step fn = some next)
    (bounded : ∀ entry ∈ next.stemmed, entry.2.length ≤ bound) :
    Less (next.left bound) (traced.left bound) := by
  obtain ⟨scan, moved, rfl⟩ := Option.map_eq_some_iff.mp stepped
  have text := step_text moved
  simp only at bounded
  cases sound.waited.shape moved with
  | passes noEdit same within further =>
      simp only [Traced.left, noEdit, same, further]
      refine .right _ (.right _ ?_)
      omega
  | @removes edit edited noValue one within =>
      simp only [edited, noValue, one] at text
      have applied : edit.apply traced.stemmed = replace traced.stemmed edit.position 1 [] := by
        simp [Edit.apply, noValue, one]
      have shorter : scan.s.length < traced.scan.s.length := by
        rw [text, replace]
        simp only [List.append_nil, List.length_append, List.length_take, List.length_drop]
        omega
      have after := room_replace bound traced.stemmed [] edit.position 1
      have before := room_split bound traced.stemmed edit.position 1
      simp only [Traced.left, edited, applied, after]
      by_cases none : room bound ((traced.stemmed.drop edit.position).take 1) = 0
      · rw [none] at before
        rw [before]
        exact .right _ (.left _ _ shorter)
      · refine .left _ _ ⟨_, _, _, none, rfl, before, fun free member => ?_⟩
        simp [room] at member
  | @replaces edit edited dollar positive within =>
      rw [edited] at bounded
      simp only [Traced.left, edited]
      refine .left _ _ ?_
      have found : (traced.stemmed[edit.position]?).map Prod.fst = some '$' := by
        rw [← List.getElem?_map, sound.text, dollar]
      obtain ⟨⟨ch, stems⟩, isEntry, rfl⟩ := Option.map_eq_some_iff.mp found
      exact Edit.apply_less isEntry positive bounded

/-- Where a scan ends, it also ends with where its characters come from. -/
theorem ends_traced {scan final : Scan} (ends : Ends (Scan.step fn) scan final)
    (stemmed : Stemmed) : ∃ last, Ends (Traced.step fn) ⟨scan, stemmed⟩ last := by
  induction ends generalizing stemmed with
  | here stopped =>
      refine ⟨_, .here ?_⟩
      simp [Traced.step, stopped]
  | @move before after final moved _ continued =>
      obtain ⟨last, ends⟩ := continued (match before.edit fn with
        | none => stemmed
        | some edit => edit.apply stemmed)
      refine ⟨last, .move ?_ ends⟩
      simp only [Traced.step, moved, Option.map_some]

theorem ends_scan {traced last : Traced} (ends : Ends (Traced.step fn) traced last) :
    Ends (Scan.step fn) traced.scan last.scan := by
  induction ends with
  | here stopped => exact .here (by simpa [Traced.step] using stopped)
  | move moved _ continued =>
      obtain ⟨scan, stepped, rfl⟩ := Option.map_eq_some_iff.mp moved
      exact .move stepped continued

/-- The most names that a character stems from. -/
def Stemmed.depth (stemmed : Stemmed) : Nat :=
  (stemmed.map fun entry => entry.2.length).foldr max 0

theorem Stemmed.le_depth {stemmed : Stemmed} {entry : Char × List Text}
    (member : entry ∈ stemmed) : entry.2.length ≤ stemmed.depth := by
  induction stemmed with
  | nil => cases member
  | cons first rest bounded =>
      rw [Stemmed.depth, List.map_cons, List.foldr_cons]
      rcases List.mem_cons.mp member with rfl | later
      · exact Nat.le_max_left _ _
      · exact Nat.le_trans (bounded later) (Nat.le_max_right _ _)

/-- A substitution ends where there is such a bound, as each step leaves less to do. -/
theorem substitutes_of_nestsWithin {s : Text} {bound : Nat} (bounded : NestsWithin fn s bound) :
    ∃ result, Substitutes fn s result := by
  obtain ⟨last, ends⟩ := ends_of_wellFounded (Traced.step fn) less_wellFounded
    (Traced.left bound) (fun traced => Traced.Reached fn s traced ∧ traced.Sound)
    (fun traced next holds stepped => ⟨holds.1.tail stepped, holds.2.step stepped⟩)
    (fun traced next holds stepped =>
      Traced.step_less holds.2 stepped (bounded next (holds.1.tail stepped)))
    (Traced.start s) ⟨.refl, .start s⟩
  exact ⟨_, last.scan, ends_scan ends, rfl⟩

/--
A substitution ends exactly where there is a bound on how many names a character of
any text on the way stems from, one inside another.
-/
theorem substitutes_iff_nestsWithin (fn : Text → Text) (s : Text) :
    (∃ result, Substitutes fn s result) ↔ ∃ bound, NestsWithin fn s bound := by
  constructor
  · rintro ⟨result, final, ends, -⟩
    obtain ⟨last, traced⟩ := ends_traced ends (s.map fun ch => (ch, []))
    obtain ⟨bound, bounded⟩ := traced.bounded fun traced => traced.stemmed.depth
    exact ⟨bound, fun reached moved entry member =>
      Nat.le_trans (Stemmed.le_depth member) (bounded reached moved)⟩
  · rintro ⟨bound, bounded⟩
    exact substitutes_of_nestsWithin bounded

/-- A value that is brought is nothing or the value of the name. -/
theorem edit_value {scan : Scan} {edit : Edit} (edited : scan.edit fn = some edit) :
    edit.value = [] ∨ edit.value = fn edit.name := by
  have ofExamine : ∀ ch, scan.examineEdit fn ch = some edit →
      edit.value = [] ∨ edit.value = fn edit.name := by
    intro ch examined
    unfold Scan.examineEdit at examined
    split at examined
    · cases examined
    · split at examined
      · cases examined
        simp only
        split
        · exact .inl rfl
        · exact .inr rfl
      · cases examined
  unfold Scan.edit at edited
  split at edited
  · cases edited
  · split at edited
    · cases edited
      exact .inl rfl
    · split at edited
      · cases edited
      · exact ofExamine _ edited
    · exact ofExamine _ edited

/-- The names that a character stems from, where only these names bring a `$`. -/
structure Stems (names : List Text) (entry : Char × List Text) : Prop where
  outer : entry.2.tail ⊆ names
  distinct : entry.2.tail.Nodup
  dollar : entry.1 = '$' → entry.2 ⊆ names

theorem Stems.step {names : List Text} (bring : ∀ name, '$' ∈ fn name → name ∈ names)
    {traced next : Traced} (sound : traced.Sound)
    (acyclic : ∀ stems, ('$', stems) ∈ traced.stemmed → stems.Nodup)
    (stems : ∀ entry ∈ traced.stemmed, Stems names entry)
    (stepped : traced.step fn = some next) : ∀ entry ∈ next.stemmed, Stems names entry := by
  obtain ⟨scan, moved, rfl⟩ := Option.map_eq_some_iff.mp stepped
  intro entry member
  cases sound.waited.shape moved with
  | passes noEdit =>
      simp only [noEdit] at member
      exact stems entry member
  | @removes edit edited noValue one =>
      simp only [edited, Edit.apply, noValue, List.map_nil, replace, List.append_nil] at member
      rcases List.mem_append.mp member with before | behind
      · exact stems entry (List.mem_of_mem_take before)
      · exact stems entry (List.mem_of_mem_drop behind)
  | @replaces edit edited dollar =>
      have found : (traced.stemmed[edit.position]?).map Prod.fst = some '$' := by
        rw [← List.getElem?_map, sound.text, dollar]
      obtain ⟨⟨_, outer⟩, isEntry, rfl⟩ := Option.map_eq_some_iff.mp found
      have inText := List.mem_of_getElem? isEntry
      have opening := stems _ inText
      simp only [edited, Edit.apply, replace, List.mem_append, isEntry, Option.map_some,
        Option.getD_some] at member
      rcases member with (before | brought) | behind
      · exact stems entry (List.mem_of_mem_take before)
      · obtain ⟨ch, inValue, rfl⟩ := List.mem_map.mp brought
        refine ⟨opening.dollar rfl, acyclic outer inText, ?_⟩
        rintro rfl
        have inFn : '$' ∈ fn edit.name := by
          rcases edit_value edited with none | value
          · rw [none] at inValue
            cases inValue
          · rw [← value]
            exact inValue
        exact List.cons_subset.mpr ⟨bring _ inFn, opening.dollar rfl⟩
      · exact stems entry (List.mem_of_mem_drop behind)

/--
A substitution ends where finitely many names have a `$` in their value, and none of
them is substituted inside of its own value.
-/
theorem substitutes_of_acyclic (fn : Text → Text) (s : Text) (names : List Text)
    (bring : ∀ name, '$' ∈ fn name → name ∈ names)
    (acyclic : ∀ traced, Traced.Reached fn s traced →
      ∀ stems, ('$', stems) ∈ traced.stemmed → stems.Nodup) :
    ∃ result, Substitutes fn s result := by
  have within : NestsWithin fn s (names.length + 1) := by
    intro traced reached
    have kept : traced.Sound ∧ ∀ entry ∈ traced.stemmed, Stems names entry := by
      induction reached with
      | refl =>
          refine ⟨.start s, fun entry member => ?_⟩
          obtain ⟨ch, -, rfl⟩ := List.mem_map.mp member
          exact ⟨List.nil_subset _, List.nodup_nil, fun _ => List.nil_subset _⟩
      | tail reached stepped kept =>
          exact ⟨kept.1.step stepped,
            Stems.step bring kept.1 (acyclic _ reached) kept.2 stepped⟩
    intro entry member
    have stems := kept.2 entry member
    have bound := (stems.distinct.subperm stems.outer).length_le
    rw [List.length_tail] at bound
    omega
  exact substitutes_of_nestsWithin within

/-! ## A substitution that does not end -/

/-- A reference whose value is itself with a character before it. -/
def selfReference : Text :=
  ['$', '{', 'A', '}']

/-- The value of every name. -/
def grow (_ : Text) : Text :=
  'x' :: selfReference

/-- So many characters that have been passed over, and then the reference. -/
def grown (passed last : Nat) (inner : List Text) : Scan :=
  ⟨List.replicate passed 'x' ++ selfReference, ⟨passed, last, inner, .plain⟩, []⟩

/-- The position has advanced by a character when the reference is substituted again. -/
theorem grown_moves {passed last : Nat} (inner : List Text) (advanced : last ≤ passed) :
    Relation.TransGen (Moves (Scan.step grow)) (grown passed last inner)
      (grown (passed + 1) (passed + 1) [['A']]) := by
  let text := List.replicate passed 'x' ++ selfReference
  let caller : Frame := ⟨passed, passed + 1, [], .plain⟩
  have dollar : Scan.step grow (grown passed last inner) =
      some ⟨text, ⟨passed + 1, last, inner, .dollar⟩, []⟩ := by
    simp [Scan.step, grown, selfReference, Scan.examine, Scan.advance, Frame.advance, text]
  have descend : Scan.step grow ⟨text, ⟨passed + 1, last, inner, .dollar⟩, []⟩ =
      some ⟨text, ⟨passed + 2, 0, [], .plain⟩, [caller]⟩ := by
    simp [Scan.step, selfReference, Scan.descend, Frame.begin, text, caller,
      Nat.lt_succ_of_le advanced]
  have name : Scan.step grow ⟨text, ⟨passed + 2, 0, [], .plain⟩, [caller]⟩ =
      some ⟨text, ⟨passed + 3, 0, [], .plain⟩, [caller]⟩ := by
    simp [Scan.step, selfReference, Scan.examine, Scan.advance, Frame.advance, text]
  have ascend : Scan.step grow ⟨text, ⟨passed + 3, 0, [], .plain⟩, [caller]⟩ =
      some ⟨List.replicate passed 'x' ++ 'x' :: selfReference,
        ⟨passed, passed + 1, [['A']], .plain⟩, []⟩ := by
    have width : passed + 3 - passed = 3 := by omega
    have isName : substr text (passed + 2) 1 = ['A'] := by
      have cut := substr_append (List.replicate passed 'x' ++ ['$', '{']) ['A'] ['}']
      simpa [text, selfReference] using cut
    have replaced : replace text passed 4 (grow ['A']) =
        List.replicate passed 'x' ++ 'x' :: selfReference := by
      have between := replace_between (List.replicate passed 'x') selfReference [] (grow ['A'])
      simpa [text, selfReference, grow] using between
    have found : text[passed + 3]? = some '}' := by
      simp [text, selfReference]
    rw [step_plain grow ⟨text, ⟨passed + 3, 0, [], .plain⟩, [caller]⟩ found rfl]
    simp [Scan.examine, Scan.ascend, caller, width, isName, replaced]
  have pass : Scan.step grow ⟨List.replicate passed 'x' ++ 'x' :: selfReference,
        ⟨passed, passed + 1, [['A']], .plain⟩, []⟩ =
      some (grown (passed + 1) (passed + 1) [['A']]) := by
    have regroup : List.replicate passed 'x' ++ 'x' :: selfReference =
        List.replicate (passed + 1) 'x' ++ selfReference := by
      rw [List.replicate_succ', List.append_assoc, List.singleton_append]
    simp [Scan.step, selfReference, Scan.examine, Scan.advance, Frame.advance, grown]
    exact regroup
  exact .head dollar (.head descend (.head name (.head ascend (.single pass))))

/-- A value that refers to its name behind another character is substituted for ever. -/
theorem selfReference_endless : ¬ ∃ result, Substitutes grow selfReference result := by
  rintro ⟨result, final, ends, -⟩
  refine not_ends_of_recurs (fun scan =>
    ∃ passed last inner, scan = grown passed last inner ∧ last ≤ passed) ?_
    ⟨0, 0, [], rfl, Nat.le_refl 0⟩ ends
  rintro scan ⟨passed, last, inner, rfl, advanced⟩
  exact ⟨_, grown_moves inner advanced, _, _, _, rfl, Nat.le_refl _⟩

end ReactiveToolbox.Util.VarSub
