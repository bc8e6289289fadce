import ReactiveToolbox.Util.VarSubTermination

/-!
# Values that refer to names of lower rank

Whether a substitution ends can be seen from the values alone where every `$` in them opens a
reference by a plain name of lower rank.  Such a reference is substituted as it stands, whatever
text its value has been brought into, and so no name is substituted inside of its own value.
-/

namespace ReactiveToolbox.Util.VarSub

open ReactiveToolbox.Lib

/-- A reference by a name. -/
def reference (name : Text) : Text :=
  '$' :: '{' :: (name ++ ['}'])

/-- A reference begins at a position, by a name of characters that have no meaning. -/
structure RefersAt (s : Text) (position : Nat) (name : Text) : Prop where
  plain : ∀ ch ∈ name, Ordinary ch
  here : reference name <+: s.drop position

/-- Every `$` of a value opens a reference by a plain name of lower rank. -/
def RefersBelow (rank : Text → Nat) (fn : Text → Text) : Prop :=
  ∀ name position, (fn name)[position]? = some '$' →
    ∃ inner, RefersAt (fn name) position inner ∧ rank inner < rank name

section

variable {s value : Text} {position count : Nat} {name : Text}

/-! ## A reference by a plain name -/

theorem RefersAt.split (refers : RefersAt s position name) :
    ∃ rest, ∀ offset, s[position + offset]? = (reference name ++ rest)[offset]? := by
  obtain ⟨rest, same⟩ := refers.here
  refine ⟨rest, fun offset => ?_⟩
  rw [same, List.getElem?_drop]

theorem RefersAt.closing (refers : RefersAt s position name) :
    s[position + (name.length + 2)]? = some '}' := by
  obtain ⟨rest, same⟩ := refers.split
  rw [same, reference, List.cons_append, List.cons_append, List.getElem?_cons_succ,
    List.getElem?_cons_succ, List.append_assoc, List.getElem?_append_right (Nat.le_refl _),
    Nat.sub_self]
  rfl

/-- Up to its closing brace it has neither a `$` nor a backslash nor another closing brace. -/
theorem RefersAt.within (refers : RefersAt s position name) {index : Nat} {ch : Char}
    (behind : position < index) (before : index ≤ position + (name.length + 2))
    (found : s[index]? = some ch) :
    ch ≠ '$' ∧ ch ≠ '\\' ∧ (ch = '}' → index = position + (name.length + 2)) := by
  obtain ⟨rest, same⟩ := refers.split
  obtain ⟨offset, rfl⟩ := Nat.exists_eq_add_of_lt behind
  rw [Nat.add_assoc, same, reference, List.cons_append, List.getElem?_cons_succ] at found
  cases offset with
  | zero =>
      cases found
      exact ⟨by decide, by decide, fun close => absurd close (by decide)⟩
  | succ offset =>
      rw [List.cons_append, List.getElem?_cons_succ, List.append_assoc] at found
      rcases Nat.lt_or_ge offset name.length with inName | end_
      · rw [List.getElem?_append_left inName] at found
        obtain ⟨notBackslash, notDollar, -, notClose⟩ :=
          refers.plain ch (List.mem_of_getElem? found)
        exact ⟨notDollar, notBackslash, fun close => absurd close notClose⟩
      · have last : offset = name.length := by omega
        rw [last, List.getElem?_append_right (Nat.le_refl _), Nat.sub_self] at found
        cases found
        exact ⟨by decide, by decide, fun _ => by omega⟩

theorem RefersAt.substr_eq (refers : RefersAt s position name) :
    substr s (position + 2) name.length = name := by
  obtain ⟨rest, same⟩ := refers.here
  rw [substr, ← List.drop_drop, ← same, reference]
  simp only [List.cons_append, List.append_assoc, List.drop_succ_cons, List.drop_zero]
  exact List.take_left

/-! ## Edits around it -/

theorem RefersAt.replace_before (refers : RefersAt s position name) {edited : Nat}
    (before : position + (name.length + 3) ≤ edited) :
    RefersAt (replace s edited count value) position name := by
  refine ⟨refers.plain, ?_⟩
  have whole : reference name <+: (s.take edited).drop position := by
    rw [List.drop_take, List.prefix_take_iff]
    refine ⟨refers.here, ?_⟩
    simp only [reference, List.length_cons, List.length_append, List.length_nil]
    omega
  have within : position ≤ (s.take edited).length := by
    have some_text := whole.length_le
    rw [List.length_drop] at some_text
    simp only [reference, List.length_cons] at some_text
    omega
  rw [replace, List.append_assoc, List.drop_append_of_le_length within]
  exact whole.trans (List.prefix_append _ _)

theorem RefersAt.replace_value (refers : RefersAt value position name) {edited : Nat}
    (within : edited ≤ s.length) :
    RefersAt (replace s edited count value) (edited + position) name := by
  refine ⟨refers.plain, ?_⟩
  have front : (s.take edited).length = edited := List.length_take_of_le within
  have inValue : position ≤ value.length := by
    have some_text := refers.here.length_le
    rw [List.length_drop] at some_text
    simp only [reference, List.length_cons] at some_text
    omega
  rw [replace, List.append_assoc, ← List.drop_drop, List.drop_left' front,
    List.drop_append_of_le_length inValue]
  exact refers.here.trans (List.prefix_append _ _)

theorem RefersAt.replace_behind {edited : Nat}
    (refers : RefersAt s (edited + count + position) name) (within : edited ≤ s.length) :
    RefersAt (replace s edited count value) (edited + value.length + position) name := by
  refine ⟨refers.plain, ?_⟩
  have front : (s.take edited ++ value).length = edited + value.length := by
    rw [List.length_append, List.length_take_of_le within]
  rw [replace, ← List.drop_drop, List.drop_left' front, List.drop_drop]
  exact refers.here

end

/-- What is found in an edited list was before the edit, has been brought, or was behind it. -/
theorem getElem?_replace_cases {α : Type} {list value : List α} {position count index : Nat}
    {element : α} (within : position ≤ list.length)
    (found : (replace list position count value)[index]? = some element) :
    (index < position ∧ list[index]? = some element) ∨
      (∃ offset, index = position + offset ∧ value[offset]? = some element) ∨
      ∃ offset, index = position + value.length + offset ∧
        list[position + count + offset]? = some element := by
  have front : (list.take position).length = position := List.length_take_of_le within
  rcases Nat.lt_or_ge index position with before | from_
  · rw [getElem?_replace_of_lt count value within before] at found
    exact .inl ⟨before, found⟩
  · obtain ⟨offset, rfl⟩ := Nat.exists_eq_add_of_le from_
    rw [replace, List.append_assoc,
      List.getElem?_append_right (by rw [front]; exact Nat.le_add_right _ _), front,
      Nat.add_sub_cancel_left] at found
    rcases Nat.lt_or_ge offset value.length with inValue | behind
    · rw [List.getElem?_append_left inValue] at found
      exact .inr (.inl ⟨offset, rfl, found⟩)
    · obtain ⟨further, rfl⟩ := Nat.exists_eq_add_of_le behind
      rw [List.getElem?_append_right (Nat.le_add_right _ _), Nat.add_sub_cancel_left,
        List.getElem?_drop] at found
      exact .inr (.inr ⟨further, (Nat.add_assoc _ _ _).symm, found⟩)

/-! ## What a step does -/

/-- A step passes over a character, opens a reference, removes a backslash or closes the
reference that the call is for. -/
inductive Stepped (fn : Text → Text) (scan : Scan) : Scan → Prop where
  | passes {ch : Char} {state : ScanState} : scan.edit fn = none →
      scan.s[scan.frame.j]? = some ch → (ch = '}' → scan.callers = []) →
      (state = .backslash → ch = '\\') → Stepped fn scan (scan.advance state)
  | opens : scan.edit fn = none → scan.frame.state = .dollar → Stepped fn scan scan.descend
  | escapes : scan.edit fn = some ⟨scan.frame.j - 1, 1, [], []⟩ →
      scan.frame.state = .backslash → Stepped fn scan scan.unescape
  | closes {caller : Frame} {callers : List Frame} {edit : Edit} : scan.edit fn = some edit →
      scan.callers = caller :: callers → scan.s[scan.frame.j]? = some '}' →
      edit.position = caller.j → edit.count = scan.frame.j - caller.j + 1 →
      edit.name = substr scan.s (caller.j + 2) (scan.frame.j - caller.j - 2) →
      Stepped fn scan (scan.ascend fn caller callers)

section

variable {fn : Text → Text}

theorem examineEdit_of_ne {scan : Scan} {ch : Char} (notClose : ch ≠ '}') :
    scan.examineEdit fn ch = none := by
  unfold Scan.examineEdit
  split
  · rfl
  · rw [if_neg notClose]

theorem Stepped.examine {scan : Scan} {ch : Char} (found : scan.s[scan.frame.j]? = some ch)
    (edited : scan.edit fn = scan.examineEdit fn ch) :
    Stepped fn scan (scan.examine fn ch) := by
  by_cases close : ch = '}'
  · subst close
    cases waiting : scan.callers with
    | nil =>
        have noEdit : scan.edit fn = none := by
          rw [edited, Scan.examineEdit, waiting]
        have passed : scan.examine fn '}' = scan.advance .plain := by
          simp [Scan.examine, waiting]
        rw [passed]
        exact .passes noEdit found (fun _ => waiting) ScanState.noConfusion
    | cons caller callers =>
        have closed : scan.examine fn '}' = scan.ascend fn caller callers := by
          simp [Scan.examine, waiting]
        have edits := edited
        rw [Scan.examineEdit, waiting] at edits
        rw [closed]
        exact .closes edits waiting found rfl rfl rfl
  · have noEdit := edited.trans (examineEdit_of_ne close)
    unfold Scan.examine
    split
    · exact .passes noEdit found (fun same => absurd same close) ScanState.noConfusion
    · split
      · rename_i backslash
        exact .passes noEdit found (fun same => absurd same close) fun _ => backslash
      · exact .passes noEdit found (fun same => absurd same close) ScanState.noConfusion

theorem stepped_of_step {scan next : Scan} (moved : scan.step fn = some next) :
    Stepped fn scan next := by
  unfold Scan.step at moved
  split at moved
  · cases moved
  · rename_i ch found
    cases state : scan.frame.state with
    | backslash =>
        rw [state] at moved
        cases moved
        exact .escapes (by simp [Scan.edit, found, state]) state
    | plain =>
        rw [state] at moved
        cases moved
        exact .examine found (by simp [Scan.edit, found, state])
    | dollar =>
        rw [state] at moved
        cases moved
        split
        · rename_i isOpen
          exact .opens (by simp [Scan.edit, found, state, isOpen]) state
        · rename_i notOpen
          exact .examine found (by simp [Scan.edit, found, state, notOpen])

/-! ## References that have been brought -/

/-- A character at a position stems from a value. -/
def Brought (stemmed : Stemmed) (position : Nat) : Prop :=
  ∃ ch name outer, stemmed[position]? = some (ch, name :: outer)

/-- Of the references that are open only the innermost one may have been brought, and then its
closing brace has not been passed. -/
def OpensBrought (traced : Traced) : List Frame → Prop
  | [] => True
  | caller :: callers =>
      (∀ name, Brought traced.stemmed caller.j → RefersAt traced.scan.s caller.j name →
        traced.scan.frame.j ≤ caller.j + (name.length + 2)) ∧
      ∀ outer ∈ callers, ¬Brought traced.stemmed outer.j

/-- What a scan keeps where values refer to names of lower rank. -/
structure Ranked (rank : Text → Nat) (traced : Traced) : Prop where
  /-- A `$` that has been brought opens the reference that it opens in its value. -/
  refers : ∀ {position name outer}, traced.stemmed[position]? = some ('$', name :: outer) →
    ∃ inner, RefersAt traced.scan.s position inner ∧ rank inner < rank name
  /-- Names of lower rank are substituted inside of names of higher rank. -/
  rising : ∀ entry ∈ traced.stemmed,
    entry.2.Pairwise fun inner outer => rank inner < rank outer
  opened : OpensBrought traced traced.scan.callers
  backslash : traced.scan.frame.state = .backslash →
    ∃ before, traced.scan.frame.j = before + 1 ∧ traced.scan.s[before]? = some '\\'

/-- The callers wait before the cursor. -/
theorem Waited.below {scan : Scan} (waited : Waited scan) :
    ∃ limit, Waiting scan.s limit scan.callers ∧ limit ≤ scan.frame.j := by
  obtain ⟨limit, waiting, below⟩ := waited.callers
  refine ⟨limit, waiting, ?_⟩
  split at below
  · exact below
  · exact (Nat.le_succ _).trans below
  · exact (Nat.le_succ _).trans below

theorem Waiting.lt {s : Text} {limit : Nat} {callers : List Frame}
    (waiting : Waiting s limit callers) {caller : Frame} (waits : caller ∈ callers) :
    caller.j < limit ∧ s[caller.j]? = some '$' ∧ caller.state = .plain := by
  induction callers generalizing limit with
  | nil => cases waits
  | cons first rest continued =>
      obtain ⟨before, dollar, plain, outer⟩ := waiting
      rcases List.mem_cons.mp waits with rfl | later
      · exact ⟨before, dollar, plain⟩
      · exact ⟨(continued outer later).1.trans before, (continued outer later).2⟩

section

variable {rank : Text → Nat} {traced : Traced}

theorem Traced.Sound.length (sound : traced.Sound) :
    traced.stemmed.length = traced.scan.s.length := by
  rw [← sound.text, List.length_map]

/-- A `$` that has been brought is one of its own entry. -/
theorem Traced.Sound.refers (sound : traced.Sound) (ranked : Ranked rank traced)
    {position : Nat} (dollar : traced.scan.s[position]? = some '$')
    (brought : Brought traced.stemmed position) :
    ∃ inner name outer, traced.stemmed[position]? = some ('$', name :: outer) ∧
      RefersAt traced.scan.s position inner ∧ rank inner < rank name := by
  obtain ⟨ch, name, outer, isEntry⟩ := brought
  have isDollar : ch = '$' := by
    rw [← sound.text, List.getElem?_map, isEntry] at dollar
    exact Option.some.inj dollar
  subst isDollar
  obtain ⟨inner, refers, less⟩ := ranked.refers isEntry
  exact ⟨inner, name, outer, isEntry, refers, less⟩

/-- Where the scan has come behind a `$` or a backslash no open reference has been brought. -/
theorem Ranked.none_brought (ranked : Ranked rank traced) (sound : traced.Sound)
    {limit before : Nat} (waiting : Waiting traced.scan.s limit traced.scan.callers)
    (behind : limit ≤ before) (cursor : traced.scan.frame.j = before + 1) {ch : Char}
    (found : traced.scan.s[before]? = some ch) (special : ch = '$' ∨ ch = '\\')
    {caller : Frame} (waits : caller ∈ traced.scan.callers) :
    ¬Brought traced.stemmed caller.j := by
  obtain ⟨less, dollar, -⟩ := waiting.lt waits
  have opened := ranked.opened
  intro brought
  cases callers : traced.scan.callers with
  | nil =>
      rw [callers] at waits
      cases waits
  | cons first rest =>
      rw [callers] at opened waits
      rcases List.mem_cons.mp waits with rfl | later
      · obtain ⟨inner, -, -, -, refers, -⟩ := sound.refers ranked dollar brought
        have passed := opened.1 inner brought refers
        obtain ⟨notDollar, notBackslash, -⟩ :=
          refers.within (less.trans_le behind) (by omega) found
        exact special.elim notDollar notBackslash
      · exact opened.2 _ later brought

theorem Ranked.passes (ranked : Ranked rank traced) {ch : Char} {state : ScanState}
    (found : traced.scan.s[traced.scan.frame.j]? = some ch)
    (close : ch = '}' → traced.scan.callers = []) (backslash : state = .backslash → ch = '\\') :
    Ranked rank ⟨traced.scan.advance state, traced.stemmed⟩ := by
  refine ⟨ranked.refers, ranked.rising, ?_, fun isBackslash => ?_⟩
  · have opened := ranked.opened
    change OpensBrought _ traced.scan.callers
    cases callers : traced.scan.callers with
    | nil => trivial
    | cons caller rest =>
        rw [callers] at opened
        refine ⟨fun name brought refers => ?_, opened.2⟩
        have notYet := opened.1 name brought refers
        have notClosing : traced.scan.frame.j ≠ caller.j + (name.length + 2) := by
          intro last
          have closing : traced.scan.s[caller.j + (name.length + 2)]? = some '}' := refers.closing
          rw [← last, found] at closing
          rw [close (Option.some.inj closing)] at callers
          cases callers
        exact Nat.lt_of_le_of_ne notYet notClosing
  · rw [backslash isBackslash] at found
    exact ⟨_, rfl, found⟩

theorem descend_callers (scan : Scan) :
    ∃ caller, scan.descend.callers = caller :: scan.callers ∧ caller.j = scan.frame.j - 1 := by
  refine ⟨_, rfl, ?_⟩
  split <;> rfl

theorem Ranked.opens (ranked : Ranked rank traced) (sound : traced.Sound)
    (state : traced.scan.frame.state = .dollar) :
    Ranked rank ⟨traced.scan.descend, traced.stemmed⟩ := by
  obtain ⟨limit, waiting, below⟩ := sound.waited.callers
  simp only [state] at below
  obtain ⟨before, cursor, dollar⟩ := sound.waited.dollar state
  obtain ⟨caller, callers, here⟩ := descend_callers traced.scan
  refine ⟨ranked.refers, ranked.rising, ?_, ScanState.noConfusion⟩
  rw [callers]
  refine ⟨fun name _ _ => ?_, fun outer waits => ?_⟩
  · have next : traced.scan.descend.frame.j = traced.scan.frame.j + 1 := rfl
    simp only [next]
    omega
  · exact ranked.none_brought sound waiting (by omega) cursor dollar (.inl rfl) waits

/-- What the callers wait at is before an edit, and is what it was. -/
theorem not_brought_replace {stemmed value : Stemmed} {edited count position : Nat}
    (within : edited ≤ stemmed.length) (before : position < edited)
    (notBrought : ¬Brought stemmed position) :
    ¬Brought (replace stemmed edited count value) position := by
  rintro ⟨ch, name, outer, isEntry⟩
  rw [getElem?_replace_of_lt count value within before] at isEntry
  exact notBrought ⟨ch, name, outer, isEntry⟩

/-- A reference that has been brought is before an edit at a `$` or a backslash, or behind it. -/
theorem RefersAt.before_edit {s : Text} {position edited : Nat} {name : Text}
    (refers : RefersAt s position name) (before : position < edited) {ch : Char}
    (found : s[edited]? = some ch) (special : ch = '$' ∨ ch = '\\') :
    position + (name.length + 3) ≤ edited := by
  by_contra within
  obtain ⟨notDollar, notBackslash, -⟩ := refers.within before (by omega) found
  exact special.elim notDollar notBackslash

/-- The references that have been brought before an edit at a `$` or a backslash. -/
theorem Ranked.refers_edit (ranked : Ranked rank traced) (sound : traced.Sound) {edit : Edit}
    {ch : Char} (found : traced.scan.s[edit.position]? = some ch)
    (special : ch = '$' ∨ ch = '\\')
    (value : ∀ offset, edit.value[offset]? = some '$' →
      ∃ inner, RefersAt edit.value offset inner ∧ rank inner < rank edit.name)
    {position : Nat} {name : Text} {outer : List Text}
    (isEntry : (edit.apply traced.stemmed)[position]? = some ('$', name :: outer)) :
    ∃ inner, RefersAt (replace traced.scan.s edit.position edit.count edit.value) position
      inner ∧ rank inner < rank name := by
  have within : edit.position ≤ traced.scan.s.length :=
    (List.getElem?_eq_some_iff.mp found).1.le
  rw [Edit.apply] at isEntry
  rcases getElem?_replace_cases (within.trans_eq sound.length.symm) isEntry with
    ⟨before, old⟩ | ⟨offset, rfl, brought⟩ | ⟨offset, rfl, old⟩
  · obtain ⟨inner, refers, less⟩ := ranked.refers old
    exact ⟨inner, refers.replace_before (refers.before_edit before found special), less⟩
  · rw [List.getElem?_map] at brought
    obtain ⟨other, isChar, same⟩ := Option.map_eq_some_iff.mp brought
    cases same
    obtain ⟨inner, refers, less⟩ := value offset isChar
    exact ⟨inner, refers.replace_value within, less⟩
  · obtain ⟨inner, refers, less⟩ := ranked.refers old
    rw [List.length_map]
    exact ⟨inner, refers.replace_behind within, less⟩

theorem Ranked.rising_edit (ranked : Ranked rank traced) {edit : Edit}
    (rises : edit.value ≠ [] → (edit.name ::
      (traced.stemmed[edit.position]?.map Prod.snd).getD []).Pairwise
        fun inner outer => rank inner < rank outer) :
    ∀ entry ∈ edit.apply traced.stemmed,
      entry.2.Pairwise fun inner outer => rank inner < rank outer := by
  intro entry member
  rw [Edit.apply, replace, List.mem_append, List.mem_append] at member
  rcases member with (before | brought) | behind
  · exact ranked.rising entry (List.mem_of_mem_take before)
  · obtain ⟨ch, inValue, rfl⟩ := List.mem_map.mp brought
    exact rises (List.ne_nil_of_mem inValue)
  · exact ranked.rising entry (List.mem_of_mem_drop behind)

theorem Ranked.escapes (ranked : Ranked rank traced) (sound : traced.Sound)
    (state : traced.scan.frame.state = .backslash) :
    Ranked rank ⟨traced.scan.unescape,
      Edit.apply ⟨traced.scan.frame.j - 1, 1, [], []⟩ traced.stemmed⟩ := by
  obtain ⟨limit, waiting, below⟩ := sound.waited.callers
  simp only [state] at below
  obtain ⟨before, cursor, found⟩ := ranked.backslash state
  have edited : traced.scan.frame.j - 1 = before := by omega
  have within : before ≤ traced.stemmed.length := by
    rw [sound.length]
    exact (List.getElem?_eq_some_iff.mp found).1.le
  rw [Scan.unescape, edited]
  refine ⟨?_, ?_, ?_, ScanState.noConfusion⟩
  · intro position name outer isEntry
    refine ranked.refers_edit sound ?_ (.inr rfl) (fun offset none => ?_) isEntry
    · exact found
    · cases none
  · exact ranked.rising_edit fun some_value => absurd rfl some_value
  · change OpensBrought _ traced.scan.callers
    have notBrought : ∀ caller ∈ traced.scan.callers,
        ¬Brought (Edit.apply ⟨before, 1, [], []⟩ traced.stemmed) caller.j := by
      intro caller waits
      have less : caller.j < before := (waiting.lt waits).1.trans_le (by omega)
      exact not_brought_replace within less
        (ranked.none_brought sound waiting (by omega) cursor found (.inr rfl) waits)
    cases callers : traced.scan.callers with
    | nil => trivial
    | cons caller rest =>
        rw [callers] at notBrought
        exact ⟨fun _ brought => absurd brought (notBrought caller List.mem_cons_self),
          fun outer waits => notBrought outer (List.mem_cons_of_mem _ waits)⟩

theorem ascend_eq (fn : Text → Text) (scan : Scan) (caller : Frame) (callers : List Frame) :
    (scan.ascend fn caller callers).callers = callers ∧
      (scan.ascend fn caller callers).frame.j = caller.j ∧
      (scan.ascend fn caller callers).frame.state = caller.state := by
  unfold Scan.ascend
  dsimp only
  split
  · exact ⟨rfl, rfl, rfl⟩
  · exact ⟨rfl, rfl, rfl⟩

variable {fn : Text → Text}

/-- The name of the reference that is closed is of lower rank than those it is inside of. -/
theorem Ranked.closes_below (ranked : Ranked rank traced) {caller : Frame}
    {callers : List Frame} (open_ : traced.scan.callers = caller :: callers)
    (close : traced.scan.s[traced.scan.frame.j]? = some '}')
    (behind : caller.j < traced.scan.frame.j)
    {stems : List Text} (isEntry : traced.stemmed[caller.j]? = some ('$', stems))
    {outer : Text} (member : outer ∈ stems) :
    rank (substr traced.scan.s (caller.j + 2) (traced.scan.frame.j - caller.j - 2)) <
      rank outer := by
  cases stems with
  | nil => cases member
  | cons name rest =>
      obtain ⟨inner, refers, less⟩ := ranked.refers isEntry
      have opened := ranked.opened
      rw [open_] at opened
      have notPassed := opened.1 inner ⟨_, _, _, isEntry⟩ refers
      have last := (refers.within behind notPassed close).2.2 rfl
      have width : traced.scan.frame.j - caller.j - 2 = inner.length := by omega
      rw [width, refers.substr_eq]
      rcases List.mem_cons.mp member with rfl | further
      · exact less
      · have rises := ranked.rising _ (List.mem_of_getElem? isEntry)
        exact less.trans ((List.pairwise_cons.mp rises).1 outer further)

theorem Ranked.closes (below : RefersBelow rank fn) (ranked : Ranked rank traced)
    (sound : traced.Sound) {caller : Frame} {callers : List Frame} {edit : Edit}
    (edited : traced.scan.edit fn = some edit)
    (open_ : traced.scan.callers = caller :: callers)
    (close : traced.scan.s[traced.scan.frame.j]? = some '}')
    (position : edit.position = caller.j)
    (name : edit.name =
      substr traced.scan.s (caller.j + 2) (traced.scan.frame.j - caller.j - 2))
    (moved : traced.scan.step fn = some (traced.scan.ascend fn caller callers)) :
    Ranked rank ⟨traced.scan.ascend fn caller callers, edit.apply traced.stemmed⟩ := by
  obtain ⟨limit, waiting, cursor⟩ := sound.waited.below
  rw [open_] at waiting
  obtain ⟨before, dollar, plain, outside⟩ := waiting
  have found : traced.scan.s[edit.position]? = some '$' := by rw [position, dollar]
  have opened := ranked.opened
  rw [open_] at opened
  have text := step_text moved
  rw [edited] at text
  obtain ⟨sameCallers, -, sameState⟩ := ascend_eq fn traced.scan caller callers
  refine ⟨?_, ranked.rising_edit fun _ => ?_, ?_, fun backslash => ?_⟩
  · intro index outer rest isEntry
    rw [text]
    refine ranked.refers_edit sound found (.inl rfl) (fun offset isDollar => ?_) isEntry
    rcases edit_value edited with none | value
    · rw [none] at isDollar
      cases isDollar
    · rw [value] at isDollar ⊢
      exact below _ _ isDollar
  · rw [position, name]
    cases isEntry : traced.stemmed[caller.j]? with
    | none => exact List.pairwise_singleton _ _
    | some entry =>
        obtain ⟨ch, stems⟩ := entry
        have isDollar : ch = '$' := by
          rw [← sound.text, List.getElem?_map, isEntry] at dollar
          exact Option.some.inj dollar
        subst isDollar
        refine List.pairwise_cons.mpr ⟨fun outer member => ?_,
          ranked.rising _ (List.mem_of_getElem? isEntry)⟩
        exact ranked.closes_below open_ close (before.trans_le cursor) isEntry member
  · change OpensBrought _ (traced.scan.ascend fn caller callers).callers
    rw [sameCallers]
    have notBrought : ∀ outer ∈ callers, ¬Brought (edit.apply traced.stemmed) outer.j := by
      intro outer waits
      have less : outer.j < edit.position := position.symm ▸ (outside.lt waits).1
      refine not_brought_replace ?_ less (opened.2 outer waits)
      rw [sound.length]
      exact (List.getElem?_eq_some_iff.mp found).1.le
    cases callers with
    | nil => trivial
    | cons first rest =>
        exact ⟨fun _ brought => absurd brought (notBrought first List.mem_cons_self),
          fun outer waits => notBrought outer (List.mem_cons_of_mem _ waits)⟩
  · change (traced.scan.ascend fn caller callers).frame.state = .backslash at backslash
    rw [sameState, plain] at backslash
    cases backslash

theorem Ranked.step (below : RefersBelow rank fn) (ranked : Ranked rank traced)
    (sound : traced.Sound) {next : Traced} (stepped : traced.step fn = some next) :
    Ranked rank next := by
  obtain ⟨scan, moved, rfl⟩ := Option.map_eq_some_iff.mp stepped
  cases stepped_of_step moved with
  | passes noEdit found close backslash =>
      rw [noEdit]
      exact ranked.passes found close backslash
  | opens noEdit dollar =>
      rw [noEdit]
      exact ranked.opens sound dollar
  | escapes edited backslash =>
      rw [edited]
      exact ranked.escapes sound backslash
  | closes edited open_ close position _ name =>
      rw [edited]
      exact ranked.closes below sound edited open_ close position name moved

theorem Ranked.start (rank : Text → Nat) (s : Text) : Ranked rank (.start s) := by
  have bare : ∀ entry ∈ (Traced.start s).stemmed, entry.2 = [] := by
    intro entry member
    obtain ⟨ch, -, rfl⟩ := List.mem_map.mp member
    rfl
  refine ⟨fun isEntry => ?_, fun entry member => ?_, trivial, ScanState.noConfusion⟩
  · cases bare _ (List.mem_of_getElem? isEntry)
  · rw [bare entry member]
    exact .nil

/--
A substitution ends, whatever the text is, where finitely many names have a `$` in their value
and every `$` of a value opens a reference by a plain name of lower rank.
-/
theorem substitutes_of_refersBelow (below : RefersBelow rank fn) {names : List Text}
    (bring : ∀ name, '$' ∈ fn name → name ∈ names) (s : Text) :
    ∃ result, Substitutes fn s result := by
  refine substitutes_of_acyclic fn s names bring fun traced reached stems member => ?_
  have kept : traced.Sound ∧ Ranked rank traced := by
    clear member
    induction reached with
    | refl => exact ⟨.start s, .start rank s⟩
    | tail _ stepped kept => exact ⟨kept.1.step stepped, kept.2.step below kept.1 stepped⟩
  exact (kept.2.rising _ member).imp fun {_ _} less same => less.ne (congrArg rank same)

end

end

end ReactiveToolbox.Util.VarSub
