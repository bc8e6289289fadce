import ReactiveToolbox.Util.VarSub

/-!
# Templates

Templates are built from ordinary characters, escapes and references whose names are
templates again.  Their substitution by a function whose results hold no special
characters is compared with their evaluation from the inside out.
-/

namespace ReactiveToolbox.Util.VarSub

open ReactiveToolbox.Lib

/-- A template, piece by piece. -/
inductive Template where
  | nil
  | plain (ch : Char) (ordinary : Ordinary ch) (rest : Template)
  | escape (ch : Char) (rest : Template)
  | reference (name rest : Template)

namespace Template

/-- The text of a template. -/
def text : Template → Text
  | nil => []
  | plain ch _ rest => ch :: rest.text
  | escape ch rest => '\\' :: ch :: rest.text
  | reference name rest => '$' :: '{' :: (name.text ++ '}' :: rest.text)

/-- The evaluation of a template from the inside out. -/
def eval (fn : Text → Text) : Template → Text
  | nil => []
  | plain ch _ rest => ch :: rest.eval fn
  | escape ch rest => ch :: rest.eval fn
  | reference name rest => fn (name.eval fn) ++ rest.eval fn

/--
Whether the scan reads every piece of a template as what it is: `top` says that the
template is not the name of a reference, and `skipping` that the scan does not look
at the next character, as after an escape.  A backslash that is not looked at stays,
and another one behind it is removed in its place.
-/
def Steady (top : Bool) : Bool → Template → Prop
  | false, nil => True
  | false, plain _ _ rest => rest.Steady top false
  | false, escape _ rest => rest.Steady top true
  | false, reference name rest => name.Steady false false ∧ rest.Steady top false
  | true, nil => top = true
  | true, plain _ _ rest => rest.Steady top false
  | true, escape ch (plain _ _ rest) => ch = '\\' ∧ rest.Steady top true
  | true, escape _ _ => False
  | true, reference _ _ => False

end Template

/-- No result of the function holds a special character. -/
def Literal (fn : Text → Text) : Prop :=
  ∀ name, ∀ ch ∈ fn name, Ordinary ch

/-- A template whose substitution is its evaluation, by whichever function. -/
def Template.Evaluates (template : Template) : Prop :=
  ∀ fn, Literal fn → Substitutes fn template.text (template.eval fn)

/-! ## From the scan of a template to its evaluation -/

/-- A machine from here on leaves this text. -/
def Leaves (fn : Text → Text) (scan : Scan) (result : Text) : Prop :=
  ∃ final, Ends (Scan.step fn) scan final ∧ final.s = result

section

variable {fn : Text → Text} {result : Text}

theorem Leaves.of_step {scan next : Scan} (stepped : scan.step fn = some next)
    (leaves : Leaves fn next result) : Leaves fn scan result := by
  obtain ⟨final, ends, same⟩ := leaves
  exact ⟨final, .move stepped ends, same⟩

theorem Leaves.of_end (fn : Text → Text) (scan : Scan) (beyond : scan.s.length ≤ scan.frame.j) :
    Leaves fn scan scan.s := by
  refine ⟨scan, .here ?_, rfl⟩
  simp [Scan.step, beyond]

/--
What the names that were substituted at the last position have become: nothing, or
the cursor has passed that position.
-/
structure Settled (fn : Text → Text) (frame : Frame) : Prop where
  near : frame.last ≤ frame.j + 1
  names : ∀ name ∈ frame.inner, fn name = [] ∨ frame.last ≤ frame.j

theorem Settled.begin (j : Nat) : Settled fn (.begin j) :=
  ⟨Nat.zero_le _, fun _ member => by cases member⟩

/-- The cursor only moves on. -/
theorem Settled.mono {frame : Frame} (settled : Settled fn frame) {j : Nat}
    (further : frame.j ≤ j) (state : ScanState) :
    Settled fn { frame with j := j, state := state } := by
  refine ⟨?_, fun name member => (settled.names name member).imp_right fun passed => ?_⟩
  · have := settled.near
    simp only
    omega
  · exact Nat.le_trans passed further

/-- A value of ordinary characters is passed over. -/
theorem Leaves.ordinary {left value right : Text} {frame : Frame} {callers : List Frame}
    (ordinary : ∀ ch ∈ value, Ordinary ch) (cursor : frame.j = left.length)
    (plain : frame.state = .plain)
    (leaves : Leaves fn ⟨left ++ value ++ right,
      { frame with j := left.length + value.length, state := .plain }, callers⟩ result) :
    Leaves fn ⟨left ++ value ++ right, frame, callers⟩ result := by
  induction value generalizing left frame with
  | nil =>
      obtain ⟨j, last, inner, state⟩ := frame
      simp only at cursor plain
      subst cursor plain
      simpa using leaves
  | cons ch value passed =>
      obtain ⟨first, others⟩ := List.forall_mem_cons.mp ordinary
      have found : (left ++ ch :: value ++ right)[frame.j]? = some ch := by
        rw [cursor]
        simp
      refine .of_step (step_plain fn ⟨_, frame, callers⟩ found plain) ?_
      rw [examine_ordinary fn _ first]
      have split : left ++ ch :: value ++ right = (left ++ [ch]) ++ value ++ right := by simp
      simp only [Scan.advance, split]
      refine passed others (by simp [Frame.advance, cursor]) rfl ?_
      rw [← split]
      simpa [Frame.advance, Nat.add_assoc, Nat.add_comm 1] using leaves

/-- An escape leaves its character, and the next character is not looked at. -/
theorem Leaves.escaped {left right : Text} {ch : Char} {frame : Frame} {callers : List Frame}
    (cursor : frame.j = left.length) (plain : frame.state = .plain)
    (leaves : Leaves fn ⟨left ++ ch :: right,
      { frame with j := left.length + 2, state := .plain }, callers⟩ result) :
    Leaves fn ⟨left ++ '\\' :: ch :: right, frame, callers⟩ result := by
  have found : (left ++ '\\' :: ch :: right)[frame.j]? = some '\\' := by
    rw [cursor]
    simp
  refine .of_step (step_plain fn ⟨_, frame, callers⟩ found plain) ?_
  have backslash : Scan.examine fn ⟨left ++ '\\' :: ch :: right, frame, callers⟩ '\\' =
      ⟨left ++ '\\' :: ch :: right, frame.advance .backslash, callers⟩ := by
    simp [Scan.examine, Scan.advance]
  rw [backslash]
  have foundNext : (left ++ '\\' :: ch :: right)[(frame.advance .backslash).j]? = some ch := by
    simp [Frame.advance, cursor]
  refine .of_step (step_backslash fn ⟨_, _, callers⟩ foundNext rfl) ?_
  have removed : replace (left ++ '\\' :: ch :: right) left.length 1 [] = left ++ ch :: right := by
    have between := replace_between left ['\\'] (ch :: right) []
    simpa using between
  simpa [Scan.unescape, Frame.advance, cursor, removed] using leaves

/-- A caller that waits for a reference: what it has substituted here has become nothing. -/
structure Pending (fn : Text → Text) (caller : Frame) : Prop where
  near : caller.last ≤ caller.j + 1
  names : ∀ name ∈ caller.inner, fn name = []

/-- An opened reference is scanned by a call of its own. -/
theorem Leaves.opened {left right : Text} {frame : Frame} {callers : List Frame}
    (cursor : frame.j = left.length) (plain : frame.state = .plain) (settled : Settled fn frame)
    (leaves : ∀ caller, caller.j = left.length → caller.state = .plain → Pending fn caller →
      Leaves fn ⟨left ++ '$' :: '{' :: right, .begin (left.length + 2), caller :: callers⟩
        result) :
    Leaves fn ⟨left ++ '$' :: '{' :: right, frame, callers⟩ result := by
  have found : (left ++ '$' :: '{' :: right)[frame.j]? = some '$' := by
    rw [cursor]
    simp
  refine .of_step (step_plain fn ⟨_, frame, callers⟩ found plain) ?_
  have dollar : Scan.examine fn ⟨left ++ '$' :: '{' :: right, frame, callers⟩ '$' =
      ⟨left ++ '$' :: '{' :: right, frame.advance .dollar, callers⟩ := by
    simp [Scan.examine, Scan.advance]
  rw [dollar]
  have foundNext : (left ++ '$' :: '{' :: right)[(frame.advance .dollar).j]? = some '{' := by
    simp [Frame.advance, cursor]
  refine .of_step (step_dollar fn ⟨_, _, callers⟩ foundNext rfl) ?_
  rw [if_pos rfl]
  have next : (frame.advance .dollar).j = left.length + 1 := by
    simp [Frame.advance, cursor]
  simp only [Scan.descend, next, Nat.add_sub_cancel]
  refine leaves _ ?_ ?_ ?_
  · split <;> rfl
  · split <;> rfl
  · split
    · exact ⟨Nat.le_refl _, fun name member => by cases member⟩
    · rename_i notPassed
      have last : (frame.advance .dollar).last = frame.last := rfl
      have near := settled.near
      refine ⟨?_, fun name member => (settled.names name member).resolve_right ?_⟩
      · simp only [last]
        omega
      · rw [last] at notPassed
        omega

/-- A closed reference is replaced, and scanned again from where it began. -/
theorem Leaves.closed {left name right : Text} {frame caller : Frame} {callers : List Frame}
    (cursor : frame.j = left.length + 2 + name.length) (plain : frame.state = .plain)
    (place : caller.j = left.length) (pending : Pending fn caller)
    (leaves : ∀ inner, (∀ other ∈ inner, fn other = [] ∨ other = name) →
      Leaves fn ⟨left ++ fn name ++ right, { caller with inner := inner }, callers⟩ result) :
    Leaves fn ⟨left ++ '$' :: '{' :: (name ++ '}' :: right), frame, caller :: callers⟩
      result := by
  have found : (left ++ '$' :: '{' :: (name ++ '}' :: right))[frame.j]? = some '}' := by
    have regroup : left ++ '$' :: '{' :: (name ++ '}' :: right) =
        (left ++ ['$', '{'] ++ name) ++ '}' :: right := by simp
    have length : frame.j = (left ++ ['$', '{'] ++ name).length := by
      simp [cursor]
      omega
    rw [regroup, length]
    exact getElem?_cursor _ _ _
  refine .of_step (step_plain fn ⟨_, frame, caller :: callers⟩ found plain) ?_
  have examined : Scan.examine fn
      ⟨left ++ '$' :: '{' :: (name ++ '}' :: right), frame, caller :: callers⟩ '}' =
      Scan.ascend fn ⟨left ++ '$' :: '{' :: (name ++ '}' :: right), frame, caller :: callers⟩
        caller callers := by
    simp [Scan.examine]
  rw [examined]
  have width : frame.j - caller.j = name.length + 2 := by omega
  have isName : substr (left ++ '$' :: '{' :: (name ++ '}' :: right)) (caller.j + 2)
      (name.length + 2 - 2) = name := by
    have cut := substr_append (left ++ ['$', '{']) name ('}' :: right)
    simpa [place] using cut
  have replaced : ∀ value, replace (left ++ '$' :: '{' :: (name ++ '}' :: right)) caller.j
      (name.length + 2 + 1) value = left ++ value ++ right := by
    intro value
    have between := replace_between left ('$' :: '{' :: (name ++ ['}'])) right value
    simpa [place] using between
  simp only [Scan.ascend, width, isName, replaced]
  split
  · rename_i substituted
    have nothing := pending.names name substituted
    have leaves := leaves caller.inner fun other member => .inl (pending.names other member)
    rwa [nothing] at leaves
  · refine leaves _ fun other member => ?_
    rcases List.mem_cons.mp member with rfl | before
    · exact .inr rfl
    · exact .inl (pending.names other before)

/-- What has been substituted is settled where the value has been passed over. -/
theorem Pending.passed {caller : Frame} (pending : Pending fn caller) {left name : Text}
    (place : caller.j = left.length) {inner : List Text}
    (names : ∀ other ∈ inner, fn other = [] ∨ other = name) :
    Settled fn { caller with
      inner := inner, j := left.length + (fn name).length, state := .plain } := by
  have near := pending.near
  refine ⟨?_, fun other member => ?_⟩
  · simp only
    omega
  · by_cases nothing : fn other = []
    · exact .inl nothing
    · obtain rfl := (names other member).resolve_left nothing
      have positive := List.length_pos_iff.mpr nothing
      refine .inr ?_
      simp only
      omega

/-! ## The pieces of a template -/

/--
Read from the cursor on, a template leaves its evaluation, behind which the scan goes on; what
is not the name of a reference is read to the end of the text.
-/
def Template.Reads (fn : Text → Text) (top skipping : Bool) (template : Template) : Prop :=
  ∀ {left right result : Text} {frame : Frame} {callers : List Frame},
    (top = true → right = [] ∧ result = left ++ template.eval fn) →
    (frame.j = left.length + if skipping then 1 else 0) → frame.state = .plain →
    Settled fn frame →
    (∀ after : Frame, after.j = (left ++ template.eval fn).length → after.state = .plain →
      Settled fn after → Leaves fn ⟨left ++ template.eval fn ++ right, after, callers⟩ result) →
    Leaves fn ⟨left ++ template.text ++ right, frame, callers⟩ result

namespace Template.Reads

variable {top skipping : Bool} {template name rest : Template} {left right piece : Text}
  {frame : Frame} {callers : List Frame}

/-- The rest of a template is read behind what its first piece has left. -/
theorem behind (reads : rest.Reads fn top skipping)
    (evals : template.eval fn = piece ++ rest.eval fn)
    (topEnds : top = true → right = [] ∧ result = left ++ template.eval fn)
    (cursor : frame.j = (left ++ piece).length + if skipping then 1 else 0)
    (plain : frame.state = .plain) (settled : Settled fn frame)
    (continued : ∀ after : Frame, after.j = (left ++ template.eval fn).length →
      after.state = .plain → Settled fn after →
        Leaves fn ⟨left ++ template.eval fn ++ right, after, callers⟩ result) :
    Leaves fn ⟨left ++ piece ++ rest.text ++ right, frame, callers⟩ result := by
  rw [evals, ← List.append_assoc] at topEnds continued
  exact reads topEnds cursor plain settled continued

theorem nil (top : Bool) : Template.nil.Reads fn top false := by
  intro left right result frame callers _ cursor plain settled continued
  have done := continued frame (by simpa [eval] using cursor) plain settled
  simpa [text, eval] using done

/-- At the end of the text there is nothing that is not looked at. -/
theorem nil_skipping : Template.nil.Reads fn true true := by
  intro left right result frame callers topEnds cursor _ _ _
  obtain ⟨rfl, rfl⟩ := topEnds rfl
  simpa [text, eval] using Leaves.of_end fn ⟨left, frame, callers⟩ (by simp [cursor])

theorem plain {ch : Char} (ordinary : Ordinary ch) (reads : rest.Reads fn top false) :
    (Template.plain ch ordinary rest).Reads fn top false := by
  intro left right result frame callers topEnds cursor plain settled continued
  have found : (left ++ ch :: rest.text ++ right)[frame.j]? = some ch := by
    rw [cursor]
    simp
  refine .of_step (step_plain fn ⟨_, frame, callers⟩ found plain) ?_
  rw [examine_ordinary fn _ ordinary]
  have regroup : left ++ ch :: rest.text ++ right = left ++ [ch] ++ rest.text ++ right := by simp
  simp only [text, Scan.advance, Frame.advance, regroup]
  exact reads.behind rfl topEnds (by simp [cursor]) rfl (settled.mono (by simp) _) continued

theorem plain_skipping {ch : Char} (ordinary : Ordinary ch) (reads : rest.Reads fn top false) :
    (Template.plain ch ordinary rest).Reads fn top true := by
  intro left right result frame callers topEnds cursor plain settled continued
  have regroup : left ++ ch :: rest.text ++ right = left ++ [ch] ++ rest.text ++ right := by simp
  simp only [text, regroup]
  exact reads.behind rfl topEnds (by simpa using cursor) plain settled continued

theorem escape (ch : Char) (reads : rest.Reads fn top true) :
    (Template.escape ch rest).Reads fn top false := by
  intro left right result frame callers topEnds cursor plain settled continued
  have regroup : left ++ '\\' :: ch :: rest.text ++ right =
      left ++ '\\' :: ch :: (rest.text ++ right) := by simp
  simp only [text, regroup]
  refine .escaped (by simpa using cursor) plain ?_
  have regroup : left ++ ch :: (rest.text ++ right) = left ++ [ch] ++ rest.text ++ right := by simp
  rw [regroup]
  exact reads.behind rfl topEnds (by simp) rfl (settled.mono (by simp [cursor]) _) continued

/-- A backslash that is not looked at, and another one that is removed in its place. -/
theorem escape_skipping {next : Char} (ordinary : Ordinary next) (reads : rest.Reads fn top true) :
    (Template.escape '\\' (.plain next ordinary rest)).Reads fn top true := by
  intro left right result frame callers topEnds cursor plain settled continued
  have regroup : left ++ '\\' :: '\\' :: next :: rest.text ++ right =
      left ++ ['\\'] ++ '\\' :: next :: (rest.text ++ right) := by simp
  simp only [text, regroup]
  refine .escaped (by simpa using cursor) plain ?_
  have regroup : left ++ ['\\'] ++ next :: (rest.text ++ right) =
      left ++ ['\\', next] ++ rest.text ++ right := by simp
  rw [regroup]
  exact reads.behind rfl topEnds (by simp) rfl (settled.mono (by simp [cursor]) _) continued

/-- The name is read by a call of its own, and its value is passed over by the caller. -/
theorem reference (literal : Literal fn) (readsName : name.Reads fn false false)
    (reads : rest.Reads fn top false) : (Template.reference name rest).Reads fn top false := by
  intro left right result frame callers topEnds cursor plain settled continued
  have regroup : left ++ '$' :: '{' :: (name.text ++ '}' :: rest.text) ++ right =
      left ++ '$' :: '{' :: (name.text ++ '}' :: (rest.text ++ right)) := by simp
  simp only [text, regroup]
  refine .opened (by simpa using cursor) plain settled fun caller place state pending => ?_
  have regroup : left ++ '$' :: '{' :: (name.text ++ '}' :: (rest.text ++ right)) =
      left ++ ['$', '{'] ++ name.text ++ ('}' :: (rest.text ++ right)) := by simp
  rw [regroup]
  refine readsName (fun isTop => by cases isTop) (by simp [Frame.begin]) rfl (.begin _)
    fun after afterName afterState _ => ?_
  have regroup : left ++ ['$', '{'] ++ name.eval fn ++ '}' :: (rest.text ++ right) =
      left ++ '$' :: '{' :: (name.eval fn ++ '}' :: (rest.text ++ right)) := by simp
  rw [regroup]
  have closing : after.j = left.length + 2 + (name.eval fn).length := by
    simp at afterName
    omega
  refine .closed closing afterState place pending fun inner names => ?_
  refine .ordinary (literal (name.eval fn)) place state ?_
  have regroup : left ++ fn (name.eval fn) ++ (rest.text ++ right) =
      left ++ fn (name.eval fn) ++ rest.text ++ right := by simp
  rw [regroup]
  exact reads.behind rfl topEnds (by simp) rfl (pending.passed place names) continued

end Template.Reads

/-- A template that is read steadily leaves its evaluation behind the cursor. -/
theorem Template.Steady.reads (literal : Literal fn) {top skipping : Bool}
    {template : Template} (steady : template.Steady top skipping) :
    template.Reads fn top skipping := by
  induction top, skipping, template using Template.Steady.induct with
  | case1 top => exact Reads.nil top
  | case2 top ch ordinary rest reads => exact Reads.plain ordinary (reads steady)
  | case3 top ch rest reads => exact Reads.escape ch (reads steady)
  | case4 top name rest readsName reads =>
      exact Reads.reference literal (readsName steady.1) (reads steady.2)
  | case5 top =>
      cases steady
      exact Reads.nil_skipping
  | case6 top ch ordinary rest reads => exact Reads.plain_skipping ordinary (reads steady)
  | case7 top ch next ordinary rest reads =>
      obtain ⟨rfl, steadyRest⟩ := steady
      exact Reads.escape_skipping ordinary (reads steadyRest)
  | case8 top ch rest noPlain =>
      cases rest with
      | plain next ordinary rest => exact absurd rfl (noPlain next ordinary rest)
      | nil | escape | reference => exact absurd steady (by simp [Steady])
  | case9 top name rest => exact absurd steady (by simp [Steady])

end

end ReactiveToolbox.Util.VarSub
