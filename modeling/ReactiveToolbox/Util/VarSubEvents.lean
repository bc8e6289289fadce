import ReactiveToolbox.Util.VarSubTemplate

/-!
# Escapes removed and references replaced

How many backslashes a scan removes and how many references it replaces is decided by
the text alone where no value holds a special character.  A value that is longer than
nothing and keeps the weight of its name makes this number visible in the result, and
a template that is not read steadily has fewer of them than pieces.
-/

namespace ReactiveToolbox.Util.VarSub

open ReactiveToolbox.Lib

/-! ## Counting in a text -/

/-- What a character that is examined does to the count of what is left. -/
def examined (ch : Char) (depth : Nat) (rest : ScanState → Nat → Nat) : Nat :=
  if ch = '$' then rest .dollar depth
  else if ch = '\\' then rest .backslash depth
  else if ch = '}' then
    match depth with
    | 0 => rest .plain 0
    | depth + 1 => 1 + rest .plain depth
  else rest .plain depth

/--
How many backslashes are removed and references replaced in a text that is scanned
from this state at this depth of calls.
-/
def events : ScanState → Nat → Text → Nat
  | _, _, [] => 0
  | .backslash, _, [_] => 1
  | .backslash, depth, _ :: _ :: rest => 1 + events .plain depth rest
  | .dollar, depth, ch :: rest =>
      if ch = '{' then events .plain (depth + 1) rest
      else examined ch depth fun state depth => events state depth rest
  | .plain, depth, ch :: rest => examined ch depth fun state depth => events state depth rest

/-- How many characters are escaped, with how many of those that are counted else. -/
def marks (counted : Char → Bool) : Text → Nat
  | [] => 0
  | [ch] => if counted ch then 1 else 0
  | ch :: next :: rest =>
      if ch = '\\' then 1 + marks counted rest
      else (if counted ch then 1 else 0) + marks counted (next :: rest)

/-- What is escaped. -/
def escapes : Text → Nat :=
  marks fun _ => false

/-- What is escaped, and what closes a reference or would close one. -/
def closers : Text → Nat :=
  marks fun ch => ch = '}'

/-- Where a reference would be opened. -/
def opens : Text → Nat
  | [] => 0
  | ch :: rest => (if ch = '$' ∧ rest.head? = some '{' then 1 else 0) + opens rest

/-- The characters before the cursor that the state stands for. -/
def ScanState.mark : ScanState → Text
  | .plain => []
  | .dollar => ['$']
  | .backslash => ['\\']

theorem events_nil (state : ScanState) (depth : Nat) : events state depth [] = 0 := by
  cases state <;> rfl

theorem events_plain (depth : Nat) (ch : Char) (rest : Text) :
    events .plain depth (ch :: rest) =
      examined ch depth fun state depth => events state depth rest := by
  cases rest with
  | nil => rfl
  | cons next rest => rfl

theorem events_dollar_cons (depth : Nat) (ch : Char) (rest : Text) :
    events .dollar depth (ch :: rest) =
      if ch = '{' then events .plain (depth + 1) rest
      else examined ch depth fun state depth => events state depth rest := by
  cases rest with
  | nil => rfl
  | cons next rest => rfl

theorem events_backslash (depth : Nat) (ch : Char) (rest : Text) :
    events .backslash depth (ch :: rest) = 1 + events .plain depth rest.tail := by
  cases rest with
  | nil => rfl
  | cons next rest => rfl

theorem events_escape (depth : Nat) (ch : Char) (rest : Text) :
    events .plain depth ('\\' :: ch :: rest) = 1 + events .plain depth rest.tail := by
  rw [← events_backslash depth ch, events_plain]
  simp [examined]

theorem events_dollar_open (depth : Nat) (rest : Text) :
    events .dollar depth ('{' :: rest) = events .plain (depth + 1) rest := by
  rw [events_dollar_cons, if_pos rfl]

theorem events_open (depth : Nat) (rest : Text) :
    events .plain depth ('$' :: '{' :: rest) = events .plain (depth + 1) rest := by
  rw [← events_dollar_open, events_plain]
  simp [examined]

theorem events_close (depth : Nat) (rest : Text) :
    events .plain (depth + 1) ('}' :: rest) = 1 + events .plain depth rest := by
  rw [events_plain]
  simp [examined]

theorem events_close_zero (rest : Text) :
    events .plain 0 ('}' :: rest) = events .plain 0 rest := by
  rw [events_plain]
  simp [examined]

theorem events_other {ch : Char} (notDollar : ch ≠ '$') (notBackslash : ch ≠ '\\')
    (notClose : ch ≠ '}') (depth : Nat) (rest : Text) :
    events .plain depth (ch :: rest) = events .plain depth rest := by
  rw [events_plain]
  simp [examined, notDollar, notBackslash, notClose]

theorem events_ordinary {ch : Char} (ordinary : Ordinary ch) (depth : Nat) (rest : Text) :
    events .plain depth (ch :: rest) = events .plain depth rest :=
  events_other ordinary.2.1 ordinary.1 ordinary.2.2.2 depth rest

theorem events_dollar {ch : Char} (notOpen : ch ≠ '{') (depth : Nat) (rest : Text) :
    events .dollar depth (ch :: rest) = events .plain depth (ch :: rest) := by
  rw [events_dollar_cons, if_neg notOpen, events_plain]

theorem marks_cons_of_ne (counted : Char → Bool) {ch : Char} (notBackslash : ch ≠ '\\')
    (rest : Text) :
    marks counted (ch :: rest) = (if counted ch then 1 else 0) + marks counted rest := by
  cases rest with
  | nil => rfl
  | cons next rest => exact if_neg notBackslash

theorem marks_escape (counted : Char → Bool) (ch : Char) (rest : Text) :
    marks counted ('\\' :: ch :: rest) = 1 + marks counted rest :=
  if_pos rfl

/-- A character more in front marks no fewer. -/
theorem marks_le_cons (counted : Char → Bool) (ch : Char) (rest : Text) :
    marks counted rest ≤ marks counted (ch :: rest) := by
  induction size : rest.length using Nat.strongRecOn generalizing ch rest with
  | ind size shorter =>
      by_cases backslash : ch = '\\'
      · subst backslash
        -- an escape takes at most one that would be counted, or one that would escape
        match rest, size with
        | [], _ => exact Nat.zero_le _
        | [next], _ =>
            have single : marks counted [next] = if counted next then 1 else 0 := rfl
            rw [single, marks_escape]
            split
            · exact Nat.le_add_right 1 _
            · exact Nat.zero_le _
        | next :: first :: others, size =>
            rw [marks_escape]
            by_cases again : next = '\\'
            · subst again
              have tail := shorter others.length
                (by simp only [← size, List.length_cons]; omega) first others rfl
              rw [marks_escape]
              omega
            · rw [marks_cons_of_ne counted again]
              split <;> omega
      · rw [marks_cons_of_ne counted backslash]
        omega

theorem opens_le_cons (ch : Char) (rest : Text) : opens rest ≤ opens (ch :: rest) :=
  Nat.le_add_left _ _

theorem marks_tail_le (counted : Char → Bool) (text : Text) :
    marks counted text.tail ≤ marks counted text := by
  cases text with
  | nil => exact Nat.le_refl _
  | cons ch rest => exact marks_le_cons counted ch rest

theorem opens_tail_le (text : Text) : opens text.tail ≤ opens text := by
  cases text with
  | nil => exact Nat.le_refl _
  | cons ch rest => exact opens_le_cons ch rest

/--
There are no more events than there are escapes and closing braces, and no more than
there are escapes, opening braces and calls that can be closed.
-/
def EventsWithin (state : ScanState) (depth : Nat) (text : Text) : Prop :=
  events state depth text ≤ closers (state.mark ++ text) ∧
    events state depth text ≤
      escapes (state.mark ++ text) + opens (state.mark ++ text) + depth

theorem eventsWithin_close (depth : Nat) {rest : Text}
    (within : ∀ depth, EventsWithin .plain depth rest) :
    EventsWithin .plain depth ('}' :: rest) := by
  have isCloser : closers ('}' :: rest) = 1 + closers rest :=
    marks_cons_of_ne _ (by decide) rest
  have sameEscapes : escapes ('}' :: rest) = 0 + escapes rest :=
    marks_cons_of_ne _ (by decide) rest
  have moreOpens := opens_le_cons '}' rest
  simp only [EventsWithin, ScanState.mark, List.nil_append] at within ⊢
  cases depth with
  | zero =>
      obtain ⟨byClosers, byOpens⟩ := within 0
      have same := events_close_zero rest
      omega
  | succ depth =>
      obtain ⟨byClosers, byOpens⟩ := within depth
      rw [events_close]
      omega

/-- What is examined is bounded without what came before it. -/
theorem eventsWithin_plain (depth : Nat) (ch : Char) {rest : Text}
    (within : ∀ state depth, EventsWithin state depth rest) :
    EventsWithin .plain depth (ch :: rest) := by
  by_cases dollar : ch = '$'
  · subst dollar
    have bound := within .dollar depth
    simpa [EventsWithin, events_plain, examined, ScanState.mark] using bound
  by_cases backslash : ch = '\\'
  · subst backslash
    have bound := within .backslash depth
    simpa [EventsWithin, events_plain, examined, ScanState.mark] using bound
  by_cases close : ch = '}'
  · subst close
    exact eventsWithin_close depth (within .plain)
  · obtain ⟨byClosers, byOpens⟩ := within .plain depth
    have moreClosers : closers rest ≤ closers (ch :: rest) := marks_le_cons _ ch rest
    have moreEscapes : escapes rest ≤ escapes (ch :: rest) := marks_le_cons _ ch rest
    have moreOpens := opens_le_cons ch rest
    simp only [EventsWithin, ScanState.mark, List.nil_append] at byClosers byOpens ⊢
    rw [events_other dollar backslash close]
    omega

/-- An escape erases itself, and the scan skips a character behind it. -/
theorem eventsWithin_backslash (depth : Nat) (ch : Char) {rest : Text}
    (within : EventsWithin .plain depth rest.tail) :
    EventsWithin .backslash depth (ch :: rest) := by
  obtain ⟨byClosers, byOpens⟩ := within
  have moreClosers : closers rest.tail ≤ closers rest := marks_tail_le _ rest
  have moreEscapes : escapes rest.tail ≤ escapes rest := marks_tail_le _ rest
  have moreOpens := opens_tail_le rest
  have atOpens := opens_le_cons ch rest
  have fromOpens := opens_le_cons '\\' (ch :: rest)
  have isCloser : closers ('\\' :: ch :: rest) = 1 + closers rest :=
    marks_escape _ ch rest
  have isEscape : escapes ('\\' :: ch :: rest) = 1 + escapes rest :=
    marks_escape _ ch rest
  simp only [EventsWithin, ScanState.mark, List.nil_append, List.singleton_append]
    at byClosers byOpens ⊢
  rw [events_backslash]
  omega

theorem eventsWithin_dollar (depth : Nat) (ch : Char) {rest : Text}
    (plain : EventsWithin .plain depth (ch :: rest))
    (within : EventsWithin .plain (depth + 1) rest) :
    EventsWithin .dollar depth (ch :: rest) := by
  have moreClosers : closers (ch :: rest) ≤ closers ('$' :: ch :: rest) :=
    marks_le_cons _ _ _
  have moreEscapes : escapes (ch :: rest) ≤ escapes ('$' :: ch :: rest) :=
    marks_le_cons _ _ _
  have moreOpens := opens_le_cons '$' (ch :: rest)
  simp only [EventsWithin, ScanState.mark, List.nil_append, List.singleton_append]
    at plain within ⊢
  by_cases isOpen : ch = '{'
  · subst isOpen
    obtain ⟨byClosers, byOpens⟩ := within
    have opened := events_dollar_open depth rest
    have atClosers : closers rest ≤ closers ('{' :: rest) := marks_le_cons _ _ _
    have atEscapes : escapes rest ≤ escapes ('{' :: rest) := marks_le_cons _ _ _
    have atOpens : opens ('$' :: '{' :: rest) = 1 + opens rest := by
      simp [opens]
    rw [opened]
    omega
  · rw [events_dollar isOpen]
    omega

theorem events_le (state : ScanState) (depth : Nat) (text : Text) :
    EventsWithin state depth text := by
  induction size : text.length using Nat.strongRecOn generalizing state depth text with
  | ind size shorter =>
      match text, size with
      | [], _ => simp [EventsWithin, events_nil]
      | ch :: rest, size =>
          have within : ∀ state depth, EventsWithin state depth rest := fun state depth =>
            shorter rest.length (by simp [← size]) state depth rest rfl
          have plain := eventsWithin_plain depth ch within
          cases state with
          | plain => exact plain
          | backslash =>
              refine eventsWithin_backslash depth ch (shorter rest.tail.length ?_ .plain depth
                rest.tail rfl)
              rw [← size, List.length_cons, List.length_tail]
              omega
          | dollar => exact eventsWithin_dollar depth ch plain (within .plain (depth + 1))

theorem opens_cons_of_head (ch : Char) {rest : Text} (head : rest.head? ≠ some '{') :
    opens (ch :: rest) = opens rest := by
  simp [opens, head]

/-! ## Counting in a template -/

namespace Template

/-- The escapes and references of a template. -/
def pieces : Template → Nat
  | nil => 0
  | plain _ _ rest => rest.pieces
  | escape _ rest => 1 + rest.pieces
  | reference name rest => 1 + name.pieces + rest.pieces

theorem closers_text (template : Template) (right : Text) :
    closers (template.text ++ right) = template.pieces + closers right := by
  induction template generalizing right with
  | nil => simp [text, pieces]
  | plain ch ordinary rest counted =>
      have passed : closers (ch :: (rest.text ++ right)) =
          (if ch = '}' then 1 else 0) + closers (rest.text ++ right) := by
        simpa [closers] using marks_cons_of_ne (fun ch => ch = '}') ordinary.1
          (rest.text ++ right)
      rw [text, List.cons_append, passed, if_neg ordinary.2.2.2, counted, pieces]
      omega
  | escape ch rest counted =>
      have escaped : closers ('\\' :: ch :: (rest.text ++ right)) =
          1 + closers (rest.text ++ right) := marks_escape _ _ _
      rw [text, List.cons_append, List.cons_append, escaped, counted, pieces]
      omega
  | reference name rest countedName counted =>
      have dollar : ∀ later, closers ('$' :: '{' :: later) = closers later := by
        intro later
        have first : closers ('$' :: '{' :: later) = 0 + closers ('{' :: later) :=
          marks_cons_of_ne _ (by decide) _
        have second : closers ('{' :: later) = 0 + closers later :=
          marks_cons_of_ne _ (by decide) _
        omega
      have close : closers ('}' :: (rest.text ++ right)) = 1 + closers (rest.text ++ right) :=
        marks_cons_of_ne _ (by decide) _
      have regroup : (reference name rest).text ++ right =
          '$' :: '{' :: (name.text ++ '}' :: (rest.text ++ right)) := by simp [text]
      rw [regroup, dollar, countedName, close, counted, pieces]
      omega

theorem text_head (template : Template) {right : Text} (notOpen : right.head? ≠ some '{') :
    (template.text ++ right).head? ≠ some '{' := by
  cases template with
  | nil => exact notOpen
  | plain ch ordinary rest => simpa [text] using ordinary.2.2.1
  | escape ch rest => simp [text]
  | reference name rest => simp [text]

theorem escapes_opens_text (template : Template) {right : Text}
    (notOpen : right.head? ≠ some '{') :
    escapes (template.text ++ right) + opens (template.text ++ right) =
      template.pieces + escapes right + opens right := by
  induction template generalizing right with
  | nil => simp [text, pieces]
  | plain ch ordinary rest counted =>
      have same : escapes (ch :: (rest.text ++ right)) = 0 + escapes (rest.text ++ right) :=
        marks_cons_of_ne _ ordinary.1 _
      have sameOpens : opens (ch :: (rest.text ++ right)) = opens (rest.text ++ right) := by
        simp [opens, ordinary.2.1]
      have counted := counted notOpen
      rw [text, List.cons_append, same, sameOpens, pieces]
      omega
  | escape ch rest counted =>
      have escaped : escapes ('\\' :: ch :: (rest.text ++ right)) =
          1 + escapes (rest.text ++ right) := marks_escape _ _ _
      have head := rest.text_head notOpen
      have sameOpens : opens ('\\' :: ch :: (rest.text ++ right)) =
          opens (rest.text ++ right) := by
        have first : opens ('\\' :: ch :: (rest.text ++ right)) =
            opens (ch :: (rest.text ++ right)) := by simp [opens]
        rw [first, opens_cons_of_head ch head]
      have counted := counted notOpen
      rw [text, List.cons_append, List.cons_append, escaped, sameOpens, pieces]
      omega
  | reference name rest countedName counted =>
      have dollar : ∀ later, escapes ('$' :: '{' :: later) = escapes later := by
        intro later
        have first : escapes ('$' :: '{' :: later) = 0 + escapes ('{' :: later) :=
          marks_cons_of_ne _ (by decide) _
        have second : escapes ('{' :: later) = 0 + escapes later :=
          marks_cons_of_ne _ (by decide) _
        omega
      have opened : ∀ later, opens ('$' :: '{' :: later) = 1 + opens later := by
        intro later
        simp [opens]
      have close : escapes ('}' :: (rest.text ++ right)) = 0 + escapes (rest.text ++ right) :=
        marks_cons_of_ne _ (by decide) _
      have closeOpens : opens ('}' :: (rest.text ++ right)) = opens (rest.text ++ right) := by
        simp [opens]
      have regroup : (reference name rest).text ++ right =
          '$' :: '{' :: (name.text ++ '}' :: (rest.text ++ right)) := by simp [text]
      have inName := @countedName ('}' :: (rest.text ++ right)) (by simp)
      have counted := counted notOpen
      rw [regroup, dollar, opened, pieces]
      omega

/-- The part of a text that is looked at. -/
def lookedAt (skipping : Bool) (text : Text) : Text :=
  if skipping then text.tail else text

/-- A template that is read steadily has an event for each of its pieces. -/
theorem Steady.events_eq {top skipping : Bool} {template : Template}
    (steady : template.Steady top skipping) {right : Text} (topEnds : top = true → right = [])
    (depth : Nat) :
    events .plain depth (lookedAt skipping (template.text ++ right)) =
      template.pieces + events .plain depth right := by
  induction top, skipping, template using Template.Steady.induct
    generalizing right depth with
  | case1 top => simp [lookedAt, text, pieces]
  | case2 top ch ordinary rest counted =>
      have counted := counted steady topEnds depth
      simpa [lookedAt, text, pieces, events_ordinary ordinary] using counted
  | case3 top ch rest counted =>
      have counted := counted steady topEnds depth
      simp only [lookedAt, text, pieces, List.cons_append, Bool.false_eq_true, if_false,
        if_true, events_escape] at counted ⊢
      omega
  | case4 top name rest countedName counted =>
      have inName := @countedName steady.1 ('}' :: (rest.text ++ right))
        (fun isTop => by cases isTop) (depth + 1)
      have counted := counted steady.2 topEnds depth
      have regroup : (reference name rest).text ++ right =
          '$' :: '{' :: (name.text ++ '}' :: (rest.text ++ right)) := by simp [text]
      simp only [lookedAt, Bool.false_eq_true, if_false] at inName counted ⊢
      rw [regroup, events_open, inName, events_close, counted, pieces]
      omega
  | case5 top =>
      obtain rfl := topEnds steady
      simp [lookedAt, text, pieces]
  | case6 top ch ordinary rest counted =>
      have counted := counted steady topEnds depth
      simpa [lookedAt, text, pieces] using counted
  | case7 top ch next ordinary rest counted =>
      obtain ⟨rfl, steadyRest⟩ := steady
      have counted := counted steadyRest topEnds depth
      simp only [lookedAt, text, pieces, List.cons_append, if_true, List.tail_cons,
        events_escape] at counted ⊢
      omega
  | case8 top ch rest noPlain =>
      cases rest with
      | plain next ordinary rest => exact absurd rfl (noPlain next ordinary rest)
      | nil | escape | reference => exact absurd steady (by simp [Steady])
  | case9 top name rest => exact absurd steady (by simp [Steady])

/-- A template has no more events than pieces, but for what comes behind it. -/
theorem events_text_le (template : Template) {right : Text} (notOpen : right.head? ≠ some '{')
    (depth : Nat) :
    events .plain depth (template.text ++ right) ≤
      template.pieces + escapes right + opens right + depth := by
  have bound := (events_le .plain depth (template.text ++ right)).2
  rw [ScanState.mark, List.nil_append, template.escapes_opens_text notOpen] at bound
  exact bound

/-- An event is missing by one of the two bounds. -/
def Fewer (template : Template) (right : Text) (depth count : Nat) : Prop :=
  count < template.pieces + closers right ∨
    count < template.pieces + escapes right + opens right + depth

/-- What is behind a template: nothing at the top level, else the end of the name. -/
def Behind (top : Bool) (right : Text) : Prop :=
  if top then right = [] else ∃ rest, right = '}' :: rest

theorem Behind.notOpen {top : Bool} {right : Text} (behind : Behind top right) :
    right.head? ≠ some '{' := by
  cases top with
  | true =>
      obtain rfl : right = [] := behind
      simp
  | false =>
      obtain ⟨rest, rfl⟩ : ∃ rest, right = '}' :: rest := behind
      simp

/-- A character other than a backslash that was to be escaped and is looked at instead. -/
theorem fewer_of_skipped {ch : Char} (notBackslash : ch ≠ '\\') (rest : Template) {right : Text}
    (notOpen : right.head? ≠ some '{') (depth : Nat) :
    Fewer (escape ch rest) right depth (events .plain depth (ch :: (rest.text ++ right))) := by
  have bound := (events_le .plain depth (ch :: (rest.text ++ right))).2
  have same : escapes (ch :: (rest.text ++ right)) = 0 + escapes (rest.text ++ right) :=
    marks_cons_of_ne _ notBackslash _
  have sameOpens := opens_cons_of_head ch (rest.text_head notOpen)
  have counted := rest.escapes_opens_text notOpen
  simp only [ScanState.mark, List.nil_append] at bound
  refine .inr ?_
  rw [pieces]
  omega

/-- Behind an opening brace that is not looked at there is an event less. -/
theorem events_reference_le (name rest : Template) {right : Text}
    (notOpen : right.head? ≠ some '{') (depth : Nat) :
    events .plain depth (name.text ++ '}' :: (rest.text ++ right)) ≤
      name.pieces + rest.pieces + escapes right + opens right + depth := by
  have bound := @name.events_text_le ('}' :: (rest.text ++ right)) (by simp) depth
  have sameEscapes : escapes ('}' :: (rest.text ++ right)) =
      0 + escapes (rest.text ++ right) := marks_cons_of_ne _ (by decide) _
  have sameOpens : opens ('}' :: (rest.text ++ right)) = opens (rest.text ++ right) := by
    simp [opens]
  have counted := rest.escapes_opens_text notOpen
  omega

/--
An escaped backslash that is not read as one escapes the character behind it, and the
character behind that is not looked at.
-/
theorem fewer_of_second_backslash (rest : Template)
    (noPlain : ∀ ch ordinary more, rest = plain ch ordinary more → False) {top : Bool}
    {right : Text} (behind : Behind top right) (depth : Nat) :
    Fewer (escape '\\' rest) right depth
      (events .plain depth (lookedAt true ((escape '\\' rest).text ++ right))) := by
  have looked : lookedAt true ((escape '\\' rest).text ++ right) =
      '\\' :: (rest.text ++ right) := by simp [lookedAt, text]
  rw [looked]
  cases rest with
  | nil =>
      cases top with
      | true =>
          obtain rfl : right = [] := behind
          have none : events .plain depth ('\\' :: (nil.text ++ [])) = 0 := by
            simp [events_nil, events_plain, examined, text]
          refine .inl ?_
          rw [none, pieces, pieces]
          omega
      | false =>
          obtain ⟨more, rfl⟩ : ∃ more, right = '}' :: more := behind
          have bound := (events_le .plain depth more.tail).1
          have tail : closers more.tail ≤ closers more := marks_tail_le _ more
          have close : closers ('}' :: more) = 1 + closers more :=
            marks_cons_of_ne _ (by decide) _
          simp only [ScanState.mark, List.nil_append] at bound
          refine .inl ?_
          simp only [text, List.nil_append, events_escape, pieces]
          omega
  | plain ch ordinary more => exact absurd rfl (noPlain ch ordinary more)
  | escape ch more =>
      have bound := more.events_text_le behind.notOpen depth
      refine .inr ?_
      simp only [text, List.cons_append, events_escape, List.tail_cons, pieces]
      omega
  | reference name more =>
      have bound := events_reference_le name more behind.notOpen depth
      have regroup : (reference name more).text ++ right =
          '$' :: '{' :: (name.text ++ '}' :: (more.text ++ right)) := by simp [text]
      refine .inr ?_
      rw [regroup, events_escape, List.tail_cons]
      simp only [pieces]
      omega

/-- A template that is not read steadily has fewer events than pieces. -/
theorem fewer_of_not_steady {top skipping : Bool} {template : Template}
    (unsteady : ¬ template.Steady top skipping) {right : Text} (behind : Behind top right)
    (depth : Nat) :
    Fewer template right depth
      (events .plain depth (lookedAt skipping (template.text ++ right))) := by
  induction top, skipping, template using Template.Steady.induct
    generalizing right depth with
  | case1 top => exact absurd trivial unsteady
  | case2 top ch ordinary rest fewer =>
      have fewer := fewer unsteady behind depth
      simpa [lookedAt, text, Fewer, pieces, events_ordinary ordinary] using fewer
  | case3 top ch rest fewer =>
      have fewer := fewer unsteady behind depth
      simp only [lookedAt, text, Fewer, pieces, List.cons_append, Bool.false_eq_true, if_false,
        if_true, events_escape] at fewer ⊢
      omega
  | case4 top name rest fewerName fewer =>
      have regroup : (reference name rest).text ++ right =
          '$' :: '{' :: (name.text ++ '}' :: (rest.text ++ right)) := by simp [text]
      have close : closers ('}' :: (rest.text ++ right)) = 1 + closers (rest.text ++ right) :=
        marks_cons_of_ne _ (by decide) _
      have sameEscapes : escapes ('}' :: (rest.text ++ right)) =
          0 + escapes (rest.text ++ right) := marks_cons_of_ne _ (by decide) _
      have sameOpens : opens ('}' :: (rest.text ++ right)) = opens (rest.text ++ right) := by
        simp [opens]
      have counted := rest.escapes_opens_text behind.notOpen
      have countedClosers := rest.closers_text right
      simp only [lookedAt, Bool.false_eq_true, if_false] at fewerName fewer ⊢
      rw [regroup, events_open]
      by_cases steadyName : name.Steady false false
      · have unsteadyRest : ¬ rest.Steady top false := fun steady => unsteady ⟨steadyName, steady⟩
        have exact := @steadyName.events_eq _ _ _ ('}' :: (rest.text ++ right))
          (fun isTop => by cases isTop) (depth + 1)
        have fewer := fewer unsteadyRest behind depth
        simp only [lookedAt, Bool.false_eq_true, if_false] at exact
        rw [exact, events_close]
        simp only [Fewer, pieces] at fewer ⊢
        omega
      · have fewer := @fewerName steadyName ('}' :: (rest.text ++ right)) ⟨_, rfl⟩ (depth + 1)
        simp only [Fewer, pieces] at fewer ⊢
        omega
  | case5 top =>
      cases top with
      | true => exact absurd rfl unsteady
      | false =>
          obtain ⟨rest, rfl⟩ : ∃ rest, right = '}' :: rest := behind
          have bound := (events_le .plain depth rest).1
          have close : closers ('}' :: rest) = 1 + closers rest :=
            marks_cons_of_ne _ (by decide) _
          simp only [ScanState.mark, List.nil_append] at bound
          refine .inl ?_
          simp only [lookedAt, text, List.nil_append, if_true, List.tail_cons, pieces]
          omega
  | case6 top ch ordinary rest fewer =>
      have fewer := fewer unsteady behind depth
      simpa [lookedAt, text, Fewer, pieces] using fewer
  | case7 top ch next ordinary rest fewer =>
      by_cases backslash : ch = '\\'
      · subst backslash
        have fewer := fewer (fun steady => unsteady ⟨rfl, steady⟩) behind depth
        simp only [lookedAt, text, Fewer, pieces, List.cons_append, if_true, List.tail_cons,
          events_escape] at fewer ⊢
        omega
      · exact fewer_of_skipped backslash _ behind.notOpen depth
  | case8 top ch rest noPlain =>
      by_cases backslash : ch = '\\'
      · subst backslash
        exact rest.fewer_of_second_backslash noPlain behind depth
      · exact fewer_of_skipped backslash _ behind.notOpen depth
  | case9 top name rest =>
      have bound := events_reference_le name rest behind.notOpen depth
      have regroup : lookedAt true ((reference name rest).text ++ right) =
          '{' :: (name.text ++ '}' :: (rest.text ++ right)) := by simp [lookedAt, text]
      rw [regroup, events_other (by decide) (by decide) (by decide)]
      refine .inr ?_
      rw [pieces]
      omega

end Template

/-! ## Counting in a result -/

/-- How much a text weighs, so that a reference weighs one more than its name in braces. -/
def weight : Text → Nat
  | [] => 0
  | ch :: rest =>
      (if ch = '$' then 2 else if ch = '\\' ∨ ch = 'x' then 1 else 0) + weight rest

@[simp]
theorem weight_append (left right : Text) :
    weight (left ++ right) = weight left + weight right := by
  induction left with
  | nil => simp [weight]
  | cons ch rest added =>
      rw [List.cons_append, weight, weight, added]
      omega

/-- A value that weighs one more than its name. -/
def fill (name : Text) : Text :=
  List.replicate (weight name + 1) 'x'

@[simp]
theorem weight_fill (name : Text) : weight (fill name) = weight name + 1 := by
  have replicated : ∀ count, weight (List.replicate count 'x') = count := by
    intro count
    induction count with
    | zero => rfl
    | succ count counted =>
        rw [List.replicate_succ, weight, counted]
        simp
        omega
  exact replicated _

theorem fill_literal : Literal fill := by
  intro name ch member
  obtain ⟨-, rfl⟩ := List.mem_replicate.mp member
  exact ⟨by decide, by decide, by decide, by decide⟩

theorem events_fill (name rest : Text) (depth : Nat) :
    events .plain depth (fill name ++ rest) = events .plain depth rest := by
  have replicated : ∀ count, events .plain depth (List.replicate count 'x' ++ rest) =
      events .plain depth rest := by
    intro count
    induction count with
    | zero => rfl
    | succ count counted =>
        rw [List.replicate_succ, List.cons_append,
          events_other (by decide) (by decide) (by decide), counted]
  exact replicated _

/-- A template loses a unit of weight with each of its pieces. -/
theorem Template.weight_eval (template : Template) :
    weight (template.eval fill) + template.pieces = weight template.text := by
  induction template with
  | nil => rfl
  | plain ch ordinary rest counted =>
      simp only [eval, text, pieces, weight]
      omega
  | escape ch rest counted =>
      have backslash : weight ('\\' :: ch :: rest.text) = 1 + weight (ch :: rest.text) := by
        simp [weight]
      rw [text, backslash]
      simp only [eval, pieces, weight]
      omega
  | reference name rest countedName counted =>
      have braces : weight (reference name rest).text =
          2 + weight name.text + weight rest.text := by
        simp [text, weight]
        omega
      rw [braces]
      simp only [eval, pieces, weight_append, weight_fill]
      omega

/--
The calls that have not returned: each waits at the `$` of its reference, having
forgotten what it substituted before, and what comes before the cursor is the text of
the references that are open.
-/
inductive Layout : Text → List Frame → Prop where
  | top (left : Text) : Layout left []
  | nested {left segment : Text} {callers : List Frame} :
      Layout left callers →
        Layout (left ++ '$' :: '{' :: segment)
          (⟨left.length, left.length + 1, [], .plain⟩ :: callers)

/-- A character more before the cursor is one more of the innermost reference. -/
theorem Layout.snoc {left : Text} {callers : List Frame} (layout : Layout left callers)
    (more : Text) : Layout (left ++ more) callers := by
  cases layout with
  | top => exact .top _
  | nested outer =>
      rw [List.append_assoc]
      exact .nested outer

/-- Where a scan is, and that what it substituted last lies behind or right before it. -/
structure Placed (scan : Scan) (left right : Text) : Prop where
  text : scan.s = left ++ scan.frame.state.mark ++ right
  cursor : scan.frame.j = left.length + scan.frame.state.mark.length
  layout : Layout left scan.callers
  near : scan.frame.last ≤ left.length + 1
  names : scan.frame.inner = [] ∨ scan.frame.last ≤ left.length ∨
    (scan.frame.state = .plain ∧ right.head? = some 'x')

/-- A scan has still to do what it has not done of what it began with. -/
structure Balanced (origin : Text) (scan : Scan) : Prop where
  balance : weight scan.s + events .plain 0 origin =
    weight origin + events scan.frame.state scan.callers.length (scan.s.drop scan.frame.j)
  placed : scan.s.length ≤ scan.frame.j ∨ ∃ left right, Placed scan left right

theorem Placed.drop_cursor {scan : Scan} {left right : Text} (placed : Placed scan left right) :
    scan.s.drop scan.frame.j = right := by
  rw [placed.text, placed.cursor, ← List.length_append, List.drop_left]

/-- A reference that is closed is replaced by the value of its name. -/
theorem Balanced.ascend_eq {outer segment rest : Text} {frame : Frame} {callers : List Frame}
    (cursor : frame.j = outer.length + (segment.length + 2)) :
    Scan.examine fill ⟨outer ++ '$' :: '{' :: segment ++ '}' :: rest, frame,
        ⟨outer.length, outer.length + 1, [], .plain⟩ :: callers⟩ '}' =
      ⟨outer ++ fill segment ++ rest,
        ⟨outer.length, outer.length + 1, [segment], .plain⟩, callers⟩ := by
  have isName : substr (outer ++ '$' :: '{' :: segment ++ '}' :: rest) (outer.length + 2)
      segment.length = segment := by
    have cut := substr_append (outer ++ ['$', '{']) segment ('}' :: rest)
    simpa using cut
  have replaced : replace (outer ++ '$' :: '{' :: segment ++ '}' :: rest) outer.length
      (segment.length + 2 + 1) (fill segment) = outer ++ fill segment ++ rest := by
    have between := replace_between outer ('$' :: '{' :: (segment ++ ['}'])) rest (fill segment)
    simpa using between
  have width : frame.j - outer.length = segment.length + 2 := by omega
  simp only [List.append_assoc, List.cons_append] at isName replaced ⊢
  simp [Scan.examine, Scan.ascend, width, isName, replaced]

/-- A character that is examined is counted as it is examined. -/
theorem Balanced.examine {origin left rest : Text} {ch : Char} {frame : Frame}
    {callers : List Frame} (layout : Layout left callers) (cursor : frame.j = left.length)
    (near : frame.last ≤ left.length + 1)
    (names : frame.inner = [] ∨ frame.last ≤ left.length ∨ ch = 'x')
    (balance : weight (left ++ ch :: rest) + events .plain 0 origin =
      weight origin + events .plain callers.length (ch :: rest)) :
    Balanced origin (Scan.examine fill ⟨left ++ ch :: rest, frame, callers⟩ ch) := by
  have drop : (left ++ ch :: rest).drop (left.length + 1) = rest := by
    have regroup : left ++ ch :: rest = (left ++ [ch]) ++ rest := by simp
    rw [regroup, List.drop_left' (by simp)]
  -- the cursor moves past a character that becomes part of what is before it
  have passed : events .plain callers.length (ch :: rest) = events .plain callers.length rest →
      Balanced origin ⟨left ++ ch :: rest, frame.advance .plain, callers⟩ := by
    intro same
    refine ⟨?_, .inr ⟨left ++ [ch], rest, ?_⟩⟩
    · simpa [Frame.advance, cursor, drop, same] using balance
    · refine ⟨by simp [Frame.advance, ScanState.mark], by simp [Frame.advance, cursor,
        ScanState.mark], layout.snoc [ch], ?_, ?_⟩
      · simp only [Frame.advance, List.length_append, List.length_singleton]
        omega
      · simp only [Frame.advance, List.length_append, List.length_singleton]
        exact .inr (.inl near)
  by_cases dollar : ch = '$'
  · subst dollar
    have marked : Scan.examine fill ⟨left ++ '$' :: rest, frame, callers⟩ '$' =
        ⟨left ++ '$' :: rest, frame.advance .dollar, callers⟩ := by
      simp [Scan.examine, Scan.advance]
    rw [marked]
    refine ⟨?_, .inr ⟨left, rest, ?_⟩⟩
    · simpa [Frame.advance, cursor, drop, events_plain, examined] using balance
    · exact ⟨by simp [Frame.advance, ScanState.mark], by simp [Frame.advance, cursor,
        ScanState.mark], layout, near, names.imp_right fun named => .inl
          (named.resolve_right (by decide))⟩
  by_cases backslash : ch = '\\'
  · subst backslash
    have marked : Scan.examine fill ⟨left ++ '\\' :: rest, frame, callers⟩ '\\' =
        ⟨left ++ '\\' :: rest, frame.advance .backslash, callers⟩ := by
      simp [Scan.examine, Scan.advance]
    rw [marked]
    refine ⟨?_, .inr ⟨left, rest, ?_⟩⟩
    · simpa [Frame.advance, cursor, drop, events_plain, examined] using balance
    · exact ⟨by simp [Frame.advance, ScanState.mark], by simp [Frame.advance, cursor,
        ScanState.mark], layout, near, names.imp_right fun named => .inl
          (named.resolve_right (by decide))⟩
  by_cases close : ch = '}'
  · subst close
    cases layout with
    | top =>
        have unmatched : Scan.examine fill ⟨left ++ '}' :: rest, frame, []⟩ '}' =
            ⟨left ++ '}' :: rest, frame.advance .plain, []⟩ := by
          simp [Scan.examine, Scan.advance]
        rw [unmatched]
        exact passed (by simp [events_plain, examined])
    | @nested outer segment callers layout =>
        rw [Balanced.ascend_eq (by simpa using cursor)]
        refine ⟨?_, .inr ⟨outer, fill segment ++ rest, ?_⟩⟩
        · have drop : (outer ++ fill segment ++ rest).drop outer.length =
              fill segment ++ rest := by
            rw [List.append_assoc, List.drop_left]
          have braces : weight (outer ++ '$' :: '{' :: segment ++ '}' :: rest) =
              weight outer + 2 + weight segment + weight rest := by
            simp [weight]
            omega
          rw [braces, List.length_cons, events_close] at balance
          simp only [drop, events_fill, weight_append, weight_fill]
          omega
        · exact ⟨by simp [ScanState.mark], by simp [ScanState.mark], layout, Nat.le_refl _,
            .inr (.inr ⟨rfl, by simp [fill, List.replicate_succ]⟩)⟩
  · have other : Scan.examine fill ⟨left ++ ch :: rest, frame, callers⟩ ch =
        ⟨left ++ ch :: rest, frame.advance .plain, callers⟩ := by
      simp [Scan.examine, Scan.advance, dollar, backslash, close]
    rw [other]
    exact passed (events_other dollar backslash close _ _)

/-- An escape is removed, and the character behind it is not looked at. -/
theorem Balanced.unescape {origin left rest : Text} {ch : Char} {last : Nat}
    {inner : List Text} {callers : List Frame} (layout : Layout left callers)
    (near : last ≤ left.length + 1)
    (names : inner = [] ∨ last ≤ left.length ∨
      (ScanState.backslash = .plain ∧ (ch :: rest).head? = some 'x'))
    (balance : weight (left ++ ScanState.backslash.mark ++ ch :: rest) +
        events .plain 0 origin =
      weight origin + events .backslash callers.length (ch :: rest)) :
    Balanced origin (Scan.unescape ⟨left ++ ScanState.backslash.mark ++ ch :: rest,
      ⟨left.length + ScanState.backslash.mark.length, last, inner, .backslash⟩, callers⟩) := by
  have removed : replace (left ++ ['\\'] ++ ch :: rest) left.length 1 [] =
      left ++ ch :: rest := by
    have between := replace_between left ['\\'] (ch :: rest) []
    simpa using between
  have unescaped : Scan.unescape ⟨left ++ ScanState.backslash.mark ++ ch :: rest,
      ⟨left.length + ScanState.backslash.mark.length, last, inner, .backslash⟩, callers⟩ =
      ⟨left ++ ch :: rest, ⟨left.length + 2, last, inner, .plain⟩, callers⟩ := by
    simp only [Scan.unescape, ScanState.mark, List.length_singleton, Nat.add_sub_cancel,
      removed, Frame.advance]
  have weighed : weight (left ++ ScanState.backslash.mark ++ ch :: rest) =
      weight (left ++ ch :: rest) + 1 := by
    simp [ScanState.mark, weight]
    omega
  have drop : (left ++ ch :: rest).drop (left.length + 2) = rest.tail := by
    rw [List.drop_append]
    simp
  rw [unescaped]
  rw [weighed, events_backslash] at balance
  refine ⟨?_, ?_⟩
  · simp only [drop]
    omega
  · cases rest with
    | nil => exact .inl (by simp)
    | cons next rest =>
        refine .inr ⟨left ++ [ch, next], rest, ⟨by simp [ScanState.mark], by simp
          [ScanState.mark], layout.snoc [ch, next], ?_, ?_⟩⟩
        · simp only [List.length_append]
          omega
        · refine names.imp_right fun named => .inl ?_
          have passed := named.resolve_right fun head => by cases head.1
          simp only [List.length_append]
          omega

/-- An opened reference is counted at a depth more. -/
theorem Balanced.descend {origin left rest : Text} {last : Nat} {inner : List Text}
    {callers : List Frame} (layout : Layout left callers) (near : last ≤ left.length + 1)
    (names : inner = [] ∨ last ≤ left.length)
    (balance : weight (left ++ ScanState.dollar.mark ++ '{' :: rest) + events .plain 0 origin =
      weight origin + events .dollar callers.length ('{' :: rest)) :
    Balanced origin (Scan.descend ⟨left ++ ScanState.dollar.mark ++ '{' :: rest,
      ⟨left.length + ScanState.dollar.mark.length, last, inner, .dollar⟩, callers⟩) := by
  have forgotten : Scan.descend ⟨left ++ ScanState.dollar.mark ++ '{' :: rest,
      ⟨left.length + ScanState.dollar.mark.length, last, inner, .dollar⟩, callers⟩ =
      ⟨left ++ '$' :: '{' :: rest, .begin (left.length + 2),
        ⟨left.length, left.length + 1, [], .plain⟩ :: callers⟩ := by
    simp only [Scan.descend, ScanState.mark, List.length_singleton, Nat.add_sub_cancel,
      List.append_assoc, List.singleton_append]
    split
    · rfl
    · rename_i notPassed
      have isLast : last = left.length + 1 := by omega
      have none : inner = [] := names.resolve_right (by omega)
      rw [isLast, none]
  have drop : (left ++ '$' :: '{' :: rest).drop (left.length + 2) = rest := by
    rw [List.drop_append]
    simp
  rw [forgotten]
  rw [events_dollar_open] at balance
  refine ⟨?_, .inr ⟨left ++ '$' :: '{' :: [], rest, ?_⟩⟩
  · simpa [Frame.begin, drop, ScanState.mark] using balance
  · exact ⟨by simp [Frame.begin, ScanState.mark], by simp [Frame.begin, ScanState.mark],
      .nested layout, Nat.zero_le _, .inl rfl⟩

/-- What a step removes or replaces is taken off what is still to do. -/
theorem Balanced.step {origin : Text} {scan next : Scan} (balanced : Balanced origin scan)
    (stepped : scan.step fill = some next) : Balanced origin next := by
  obtain ⟨balance, beyond | ⟨left, right, placed⟩⟩ := balanced
  · simp [Scan.step, beyond] at stepped
  rw [placed.drop_cursor] at balance
  obtain ⟨s, ⟨j, last, inner, state⟩, callers⟩ := scan
  obtain ⟨text, cursor, layout, near, names⟩ := placed
  simp only at text cursor layout near names balance
  subst text cursor
  cases right with
  | nil =>
      simp [Scan.step] at stepped
  | cons ch rest =>
      have found : (left ++ state.mark ++ ch :: rest)[left.length + state.mark.length]? =
          some ch := by
        rw [← List.length_append]
        exact getElem?_cursor _ _ _
      cases state with
      | plain =>
          rw [step_plain fill _ found rfl] at stepped
          cases stepped
          simp only [ScanState.mark, List.append_nil] at balance ⊢
          refine .examine layout rfl near (names.imp_right fun named => ?_) balance
          exact named.imp_right fun head => by simpa using head.2
      | backslash =>
          rw [step_backslash fill _ found rfl] at stepped
          cases stepped
          exact .unescape layout near names balance
      | dollar =>
          rw [step_dollar fill _ found rfl] at stepped
          cases stepped
          have named : inner = [] ∨ last ≤ left.length :=
            names.imp_right fun named => named.resolve_right fun head => by cases head.1
          split
          · rename_i isOpen
            subst isOpen
            exact .descend layout near named balance
          · rename_i notOpen
            rw [events_dollar notOpen] at balance
            refine .examine (layout.snoc ['$']) (by simp [ScanState.mark]) ?_ ?_ balance
            · simp only [List.length_append]
              omega
            · simp only [List.length_append]
              exact named.imp_right fun passed => .inl (by omega)

theorem Balanced.start (text : Text) : Balanced text (.start text) := by
  refine ⟨rfl, .inr ⟨[], text, ?_⟩⟩
  exact ⟨rfl, rfl, .top [], Nat.zero_le _, .inl rfl⟩

/-- A result weighs what the text weighs, but for the events. -/
theorem weight_of_substitutes {text result : Text} (substitutes : Substitutes fill text result) :
    weight result + events .plain 0 text = weight text := by
  obtain ⟨final, ends, rfl⟩ := substitutes
  have balanced : Balanced text final :=
    ends.invariant (fun _ _ balanced stepped => balanced.step stepped) (.start text)
  have beyond : final.s.length ≤ final.frame.j := by
    by_contra within
    obtain ⟨ch, found⟩ : ∃ ch, final.s[final.frame.j]? = some ch :=
      ⟨_, List.getElem?_eq_getElem (by omega)⟩
    have stopped := ends.stopped
    cases state : final.frame.state with
    | plain => simp [step_plain fill _ found state] at stopped
    | dollar => simp [step_dollar fill _ found state] at stopped
    | backslash => simp [step_backslash fill _ found state] at stopped
  have done : events final.frame.state final.callers.length
      (final.s.drop final.frame.j) = 0 := by
    rw [List.drop_eq_nil_of_le beyond]
    cases final.frame.state <;> rfl
  have balance := balanced.balance
  omega

/--
The substitution of a template is its evaluation, by whichever function whose results
hold no special characters, exactly where the scan reads every piece of it as what it
is.
-/
theorem Template.evaluates_iff_steady (template : Template) :
    template.Evaluates ↔ template.Steady true false := by
  constructor
  · intro evaluates
    by_contra unsteady
    have weighed := weight_of_substitutes (evaluates fill fill_literal)
    have evaluated := template.weight_eval
    have fewer := fewer_of_not_steady unsteady (show Behind true [] from rfl) 0
    have noClosers : closers [] = 0 := rfl
    have noEscapes : escapes [] = 0 := rfl
    have noOpens : opens [] = 0 := rfl
    simp only [Fewer, lookedAt, Bool.false_eq_true, if_false, List.append_nil] at fewer
    omega
  · intro steady fn literal
    have leaves : Leaves fn ⟨[] ++ template.text ++ [], .begin 0, []⟩ (template.eval fn) := by
      refine steady.reads literal (fun _ => ⟨rfl, rfl⟩) rfl rfl (.begin 0) ?_
      intro after place _ _
      have ended := Leaves.of_end fn ⟨template.eval fn, after, []⟩ (by simp [place])
      simpa using ended
    simpa [Substitutes, Leaves, Scan.start] using leaves

/-- An escaped character before a reference. -/
def escapedReference : Template :=
  .escape 'a' (.reference (.plain 'b' (by decide) .nil) .nil)

/-- The reference behind an escaped character is not substituted. -/
theorem escapedReference_unsubstituted :
    escapedReference.text = ['\\', 'a', '$', '{', 'b', '}'] ∧
      escapedReference.eval (fun _ => ['1']) = ['a', '1'] ∧
      Substitutes (fun _ => ['1']) escapedReference.text ['a', '$', '{', 'b', '}'] ∧
      ¬ escapedReference.Evaluates := by
  have substitutes : Substitutes (fun _ => ['1']) escapedReference.text
      ['a', '$', '{', 'b', '}'] := by
    refine ⟨_, Ends.of_runFor (show runFor _ 7 _ = _ from rfl), ?_⟩
    decide
  refine ⟨rfl, rfl, substitutes, fun evaluates => ?_⟩
  have literal : Literal fun _ => ['1'] := by
    intro name ch member
    obtain rfl := List.mem_singleton.mp member
    exact ⟨by decide, by decide, by decide, by decide⟩
  obtain ⟨final, ends, result⟩ := evaluates _ literal
  obtain ⟨other, otherEnds, otherResult⟩ := substitutes
  rw [ends.unique otherEnds, otherResult] at result
  exact absurd result (by decide)

end ReactiveToolbox.Util.VarSub
