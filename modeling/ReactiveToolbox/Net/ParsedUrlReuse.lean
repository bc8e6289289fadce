import Mathlib.Data.List.TakeWhile
import ReactiveToolbox.Net.ParsedUrl

/-!
# Parsing twice

A `ParsedUrl` can parse one text after another.  Its parameters are never cleared, and the
other parts stay what they were where `parse` throws.
-/

namespace ReactiveToolbox.Net

open ReactiveToolbox.Lib

namespace ParsedUrl

open UrlParts

/-! ## What is left of an object -/

/-- The loop over the parameters, with those that are there when it is left. -/
def readParams (s sep : Text) : Nat → Nat → List (Text × Text) →
    List (Text × Text) × Except UrlFailure Unit
  | 0, p, params => (params, if p < s.length then .error .endless else .ok ())
  | rounds + 1, p, params =>
      if p < s.length then
        match findFrom ['='] s p with
        | none => (params, .error (.logicError "ParsedUrl: = expected"))
        | some e =>
            let key := substr s (p + 1) (e - p - 1)
            let p := (findFrom sep s e).getD s.length
            let val := substr s (e + 1) (p - e - 1)
            readParams s sep rounds p (emplace params key val)
      else (params, .ok ())

/-- `parse` with the object as it is left, whether it returns or throws. -/
def parseInto (parsed : ParsedUrl) (s : Text) (separators : UrlSeparators) :
    ParsedUrl × Except UrlFailure Unit :=
  let p := (find separators.params s).getD s.length
  let url := if separators.params = [] then s else s.take p
  let (params, outcome) :=
    if separators.params = [] then (parsed.params_, .ok ())
    else readParams s separators.params s.length p parsed.params_
  match outcome with
  | .error failure => ({ parsed with data_ := s, url_ := url, params_ := params }, .error failure)
  | .ok () =>
      let (proto, u) := cutProto separators.proto url
      let (query, u) := cutQuery separators.query u
      let (service, host) := cutService separators.service u
      ({ data_ := s
         url_ := url
         proto_ := proto
         host_ := host
         service_ := service
         query_ := query
         params_ := params }, .ok ())

theorem parseParams_eq (s sep : Text) (rounds p : Nat) (params : List (Text × Text)) :
    parseParams s sep rounds p params =
      (readParams s sep rounds p params).2.map fun _ => (readParams s sep rounds p params).1 := by
  induction rounds generalizing p params with
  | zero =>
      rw [parseParams, readParams]
      split <;> rfl
  | succ rounds continued =>
      rw [parseParams, readParams]
      split
      · cases findFrom ['='] s p with
        | none => rfl
        | some e => exact continued _ _
      · rfl

/-- An object that `parse` returns is the one that is left. -/
theorem parse_eq (parsed : ParsedUrl) (s : Text) (separators : UrlSeparators) :
    parsed.parse s separators =
      (parsed.parseInto s separators).2.map fun _ => (parsed.parseInto s separators).1 := by
  rw [parse, cutParams, parseInto]
  by_cases whole : separators.params = []
  · rw [if_pos whole, if_pos whole, if_pos whole]
    rfl
  · rw [if_neg whole, if_neg whole, if_neg whole]
    dsimp only
    rw [parseParams_eq]
    cases (readParams s separators.params s.length
      ((find separators.params s).getD s.length) parsed.params_).2 <;> rfl

/-! ## What is written in a text -/

/-- What comes before the parameters. -/
def urlText (s : Text) : Text :=
  s.takeWhile (· ≠ '|')

/--
The parameters that follow one another in so many rounds, up to one that has no `=`, and
whether there is none such.
-/
def written : Nat → Text → List (Text × Text) × Bool
  | _, [] => ([], true)
  | 0, _ :: _ => ([], false)
  | rounds + 1, _ :: text =>
      if '=' ∈ text then
        let behind := (text.dropWhile (· ≠ '=')).drop 1
        let (rest, whole) := written rounds (behind.dropWhile (· ≠ '|'))
        ((text.takeWhile (· ≠ '='), behind.takeWhile (· ≠ '|')) :: rest, whole)
      else ([], false)

/-- The parameters that a text writes. -/
def writtenParams (s : Text) : List (Text × Text) :=
  (written s.length (s.dropWhile (· ≠ '|'))).1

/-- Every parameter has its `=`. -/
def WellFormed (s : Text) : Prop :=
  (written s.length (s.dropWhile (· ≠ '|'))).2 = true

instance (s : Text) : Decidable (WellFormed s) :=
  inferInstanceAs (Decidable (_ = true))

/-- The first value of a key, if any. -/
def valueOf (entries : List (Text × Text)) (key : Text) : Text :=
  ((entries.find? fun entry => entry.1 = key).map Prod.snd).getD []

/-- Entries of which the first one of a key counts. -/
def emplaceAll (params entries : List (Text × Text)) : List (Text × Text) :=
  entries.foldl (fun params entry => emplace params entry.1 entry.2) params

/-! ## The loop reads what is written -/

/-- A text up to a symbol, and from there on. -/
theorem split_at (symbol : Char) (text : Text) :
    ∃ front back, text.takeWhile (· ≠ symbol) = front ∧ text.dropWhile (· ≠ symbol) = back ∧
      text = front ++ back ∧ symbol ∉ front ∧ ∀ first ∈ back.head?, first = symbol := by
  refine ⟨_, _, rfl, rfl, List.takeWhile_append_dropWhile.symm, fun member => ?_,
    fun first head => ?_⟩
  · have apart := List.mem_takeWhile_imp member
    simp at apart
  · have stopped := List.head?_dropWhile_not (· ≠ symbol) text
    rw [Option.mem_def.mp head] at stopped
    simpa using stopped

theorem split_append {symbol : Char} {front back : Text} (absent : symbol ∉ front)
    (begins : ∀ first ∈ back.head?, first = symbol) :
    (front ++ back).takeWhile (· ≠ symbol) = front ∧
      (front ++ back).dropWhile (· ≠ symbol) = back := by
  have apart : ∀ other ∈ front, decide (other ≠ symbol) = true := fun other member =>
    decide_eq_true fun same => absent (same ▸ member)
  rw [List.takeWhile_append_of_pos apart, List.dropWhile_append_of_pos apart]
  cases back with
  | nil => exact ⟨List.append_nil front, rfl⟩
  | cons first back =>
      obtain rfl := begins first rfl
      rw [List.takeWhile_cons_of_neg (by simp), List.append_nil,
        List.dropWhile_cons_of_neg (by simp)]
      exact ⟨rfl, rfl⟩

theorem readParams_entry {key val later : Text} (no_equals : '=' ∉ key) (no_bar : '|' ∉ val)
    (begins : ∀ first ∈ later.head?, first = '|') (before : Text) (rounds : Nat)
    (params : List (Text × Text)) :
    readParams (before ++ (entryText (key, val) ++ later)) ['|'] (rounds + 1) before.length params =
      readParams (before ++ entryText (key, val) ++ later) ['|'] rounds
        (before ++ entryText (key, val)).length (emplace params key val) := by
  obtain ⟨e, equals, bar, key_text, val_text⟩ := entry_found no_equals no_bar begins before rfl
  rw [readParams, if_pos (entry_within before (key, val) later), equals]
  dsimp only
  rw [bar, key_text, val_text, List.append_assoc]

theorem written_entry {key val later : Text} (no_equals : '=' ∉ key) (no_bar : '|' ∉ val)
    (begins : ∀ first ∈ later.head?, first = '|') (rounds : Nat) :
    written (rounds + 1) (entryText (key, val) ++ later) =
      ((key, val) :: (written rounds later).1, (written rounds later).2) := by
  have shape : entryText (key, val) ++ later = '|' :: (key ++ '=' :: (val ++ later)) := by
    simp [entryText]
  have equals : '=' ∈ key ++ '=' :: (val ++ later) :=
    List.mem_append_right _ List.mem_cons_self
  have equal_begins : ∀ first ∈ ('=' :: (val ++ later)).head?, first = '=' :=
    fun first head => (Option.some.inj head).symm
  obtain ⟨key_eq, behind_eq⟩ := split_append no_equals equal_begins
  obtain ⟨val_eq, later_eq⟩ := split_append no_bar begins
  rw [shape, written, if_pos equals, key_eq, behind_eq]
  dsimp only
  rw [List.drop_one, List.tail_cons, val_eq, later_eq]

/-- The loop reads what is written, and throws where that ends without an `=`. -/
theorem readParams_written {rounds : Nat} (before : Text) {rest : Text}
    (params : List (Text × Text)) (begins : ∀ first ∈ rest.head?, first = '|')
    (enough : rest.length ≤ rounds) :
    readParams (before ++ rest) ['|'] rounds before.length params =
      (emplaceAll params (written rounds rest).1,
        if (written rounds rest).2 then .ok ()
        else .error (.logicError "ParsedUrl: = expected")) := by
  induction rounds generalizing before rest params with
  | zero =>
      rw [List.eq_nil_of_length_eq_zero (Nat.le_zero.mp enough), List.append_nil, readParams,
        if_neg (Nat.lt_irrefl _)]
      rfl
  | succ rounds continued =>
      cases rest with
      | nil =>
          rw [List.append_nil, readParams, if_neg (Nat.lt_irrefl _)]
          rfl
      | cons first text =>
          obtain rfl := begins first rfl
          by_cases equals : '=' ∈ text
          · obtain ⟨key, tail, -, -, rfl, no_equals, tail_begins⟩ := split_at '=' text
            have found : tail ≠ [] := by
              rintro rfl
              rw [List.append_nil] at equals
              exact no_equals equals
            obtain ⟨equal, behind, rfl⟩ := List.exists_cons_of_ne_nil found
            obtain rfl := tail_begins equal rfl
            obtain ⟨val, later, -, -, rfl, no_bar, later_begins⟩ := split_at '|' behind
            have shape : '|' :: (key ++ '=' :: (val ++ later)) = entryText (key, val) ++ later := by
              simp [entryText]
            have shorter : later.length ≤ rounds := by
              simp at enough
              omega
            rw [shape, readParams_entry no_equals no_bar later_begins,
              continued _ _ later_begins shorter, written_entry no_equals no_bar later_begins]
            rfl
          · have absent : '=' ∉ '|' :: text := by
              simpa using equals
            have within : before.length < (before ++ '|' :: text).length := by
              rw [List.length_append, List.length_cons]
              omega
            rw [readParams, if_pos within, findFrom_append, find_of_not_mem absent, written,
              if_neg equals]
            rfl

/-! ## The first value of a key counts -/

theorem isSome_find? (params : List (Text × Text)) (key : Text) :
    (params.find? fun entry => entry.1 = key).isSome = true ↔ key ∈ params.map Prod.fst := by
  rw [List.find?_isSome, List.mem_map]
  simp only [decide_eq_true_eq]

theorem find?_emplace (params : List (Text × Text)) (key val other : Text) :
    (emplace params key val).find? (fun entry => entry.1 = other) =
      (params.find? fun entry => entry.1 = other).or
        ([(key, val)].find? fun entry => entry.1 = other) := by
  unfold emplace
  split
  · rename_i there
    by_cases same : key = other
    · subst same
      rw [Option.or_of_isSome ((isSome_find? params key).mpr there)]
    · rw [List.find?_cons_of_neg (by simpa using same), List.find?_nil, Option.or_none]
  · rw [List.find?_append]

theorem find?_emplaceAll (params entries : List (Text × Text)) (key : Text) :
    (emplaceAll params entries).find? (fun entry => entry.1 = key) =
      (params.find? fun entry => entry.1 = key).or
        (entries.find? fun entry => entry.1 = key) := by
  induction entries generalizing params with
  | nil =>
      rw [List.find?_nil, Option.or_none]
      rfl
  | cons entry rest continued =>
      rw [emplaceAll, List.foldl_cons]
      refine (continued _).trans ?_
      rw [find?_emplace, Option.or_assoc, ← List.find?_append]
      rfl

theorem valueOf_emplaceAll_nil (entries : List (Text × Text)) (key : Text) :
    valueOf (emplaceAll [] entries) key = valueOf entries key := by
  rw [valueOf, find?_emplaceAll, List.find?_nil, Option.none_or, valueOf]

theorem param_eq (parsed : ParsedUrl) (key : Text) :
    parsed.param key [] = valueOf parsed.params_ key := by
  rw [param, valueOf]
  cases parsed.params_.find? fun entry => entry.1 = key <;> rfl

/-- A value that is there already hides a later one. -/
theorem valueOf_emplaceAll (before entries : List (Text × Text)) (key : Text) :
    valueOf (emplaceAll (emplaceAll [] before) entries) key =
      if key ∈ before.map Prod.fst then valueOf before key else valueOf entries key := by
  rw [valueOf, find?_emplaceAll, find?_emplaceAll, List.find?_nil, Option.none_or]
  split
  · rename_i there
    rw [Option.or_of_isSome ((isSome_find? before key).mpr there), valueOf]
  · rename_i absent
    have missing : (before.find? fun entry => entry.1 = key) = none :=
      Option.not_isSome_iff_eq_none.mp (mt (isSome_find? before key).mp absent)
    rw [missing, Option.none_or, valueOf]

theorem hidden_iff (before entries : List (Text × Text)) :
    (∀ key, valueOf (emplaceAll (emplaceAll [] before) entries) key = valueOf entries key) ↔
      ∀ entry ∈ before, valueOf before entry.1 = valueOf entries entry.1 := by
  constructor
  · intro same entry member
    have here := valueOf_emplaceAll before entries entry.1
    rw [if_pos (List.mem_map_of_mem member)] at here
    exact here.symm.trans (same entry.1)
  · intro same key
    rw [valueOf_emplaceAll]
    split
    · rename_i there
      obtain ⟨entry, member, rfl⟩ := List.mem_map.mp there
      exact same entry member
    · rfl

/-! ## What a text leaves -/

theorem readParams_text (s : Text) (params : List (Text × Text)) :
    (find ['|'] s).getD s.length = (urlText s).length ∧
      s.take (urlText s).length = urlText s ∧
      readParams s ['|'] s.length (urlText s).length params =
        (emplaceAll params (writtenParams s),
          if WellFormed s then .ok () else .error (.logicError "ParsedUrl: = expected")) := by
  obtain ⟨front, back, front_eq, back_eq, s_eq, no_bar, begins⟩ := split_at '|' s
  have url : urlText s = front := front_eq
  have enough : back.length ≤ s.length := by
    rw [s_eq, List.length_append]
    exact Nat.le_add_left _ _
  have position := find_getD no_bar begins
  have read := readParams_written front params begins enough
  rw [← s_eq] at position read
  refine ⟨url ▸ position, ?_, ?_⟩
  · rw [url, s_eq, List.take_left]
  · rw [← back_eq] at read
    rw [url]
    exact read

theorem parseInto_of_wellFormed {s : Text} (whole : WellFormed s) (parsed : ParsedUrl) :
    parsed.parseInto s .default =
      let (proto, u) := cutProto [':', '/', '/'] (urlText s)
      let (query, u) := cutQuery ['?'] u
      let (service, host) := cutService [':'] u
      ({ data_ := s
         url_ := urlText s
         proto_ := proto
         host_ := host
         service_ := service
         query_ := query
         params_ := emplaceAll parsed.params_ (writtenParams s) }, .ok ()) := by
  obtain ⟨position, cut, read⟩ := readParams_text s parsed.params_
  have some_sep : UrlSeparators.default.params ≠ [] := by decide
  have sep : UrlSeparators.default.params = ['|'] := rfl
  rw [if_pos whole] at read
  rw [parseInto, if_neg some_sep, if_neg some_sep, sep]
  dsimp only
  rw [position, cut, read]
  rfl

theorem parseInto_of_not_wellFormed {s : Text} (broken : ¬WellFormed s) (parsed : ParsedUrl) :
    parsed.parseInto s .default =
      ({ parsed with
          data_ := s
          url_ := urlText s
          params_ := emplaceAll parsed.params_ (writtenParams s) },
        .error (.logicError "ParsedUrl: = expected")) := by
  obtain ⟨position, cut, read⟩ := readParams_text s parsed.params_
  have some_sep : UrlSeparators.default.params ≠ [] := by decide
  have sep : UrlSeparators.default.params = ['|'] := rfl
  rw [if_neg broken] at read
  rw [parseInto, if_neg some_sep, if_neg some_sep, sep]
  dsimp only
  rw [position, cut, read]

theorem params_parseInto (parsed : ParsedUrl) (s : Text) :
    (parsed.parseInto s .default).1.params_ = emplaceAll parsed.params_ (writtenParams s) := by
  by_cases whole : WellFormed s
  · rw [parseInto_of_wellFormed whole]
  · rw [parseInto_of_not_wellFormed whole]

theorem url_parseInto (parsed : ParsedUrl) (s : Text) :
    (parsed.parseInto s .default).1.url_ = urlText s := by
  by_cases whole : WellFormed s
  · rw [parseInto_of_wellFormed whole]
  · rw [parseInto_of_not_wellFormed whole]

/-! ## The parts of a URL that is next to nothing -/

theorem cutProto_append (sep u : Text) : (cutProto sep u).1 ++ (cutProto sep u).2 = u := by
  unfold cutProto
  split
  · rfl
  · split
    · rfl
    · exact List.take_append_drop _ u

theorem cutQuery_append (sep u : Text) : (cutQuery sep u).2 ++ (cutQuery sep u).1 = u := by
  unfold cutQuery
  split
  · exact List.append_nil u
  · split
    · exact List.append_nil u
    · exact List.take_append_drop _ u

theorem cutService_append (u : Text) :
    (cutService [':'] u).1 = [] ∧ (cutService [':'] u).2 = u ∨
      (cutService [':'] u).2 ++ ':' :: (cutService [':'] u).1 = u := by
  unfold cutService
  split
  · exact .inl ⟨rfl, rfl⟩
  · split
    · exact .inl ⟨rfl, rfl⟩
    · rename_i p found
      exact .inr (exists_of_rfind_symbol found).symm

/-- All parts but the URL itself are empty. -/
def Blank (parsed : ParsedUrl) : Prop :=
  parsed.proto_ = [] ∧ parsed.host_ = [] ∧ parsed.service_ = [] ∧ parsed.query_ = []

theorem blank_iff {s : Text} (whole : WellFormed s) (parsed : ParsedUrl) :
    (parsed.parseInto s .default).1.Blank ↔ urlText s = [] ∨ urlText s = [':'] := by
  rw [parseInto_of_wellFormed whole]
  generalize urlText s = u
  constructor
  · rintro ⟨proto, host, service, query⟩
    dsimp only at proto host service query
    have first := cutProto_append [':', '/', '/'] u
    have second := cutQuery_append ['?'] (cutProto [':', '/', '/'] u).2
    have third := cutService_append (cutQuery ['?'] (cutProto [':', '/', '/'] u).2).2
    rw [proto, List.nil_append] at first
    rw [query, List.append_nil] at second
    rw [host, service, second, first] at third
    exact third.imp (fun ⟨_, empty⟩ => empty.symm) Eq.symm
  · rintro (rfl | rfl)
    · exact ⟨rfl, rfl, rfl, rfl⟩
    · exact ⟨rfl, rfl, rfl, rfl⟩

/-! ## There is a difference -/

/-- What can be asked of an object is the same for another. -/
structure Same (reused fresh : ParsedUrl) : Prop where
  url : reused.url_ = fresh.url_
  proto : reused.proto_ = fresh.proto_
  host : reused.host_ = fresh.host_
  service : reused.service_ = fresh.service_
  query : reused.query_ = fresh.query_
  param : ∀ key, reused.param key [] = fresh.param key []

theorem same_iff (parsed : ParsedUrl) (s : Text) :
    Same (parsed.parseInto s .default).1 (create.parseInto s .default).1 ↔
      (∀ key, valueOf (emplaceAll parsed.params_ (writtenParams s)) key =
        valueOf (writtenParams s) key) ∧ (WellFormed s ∨ parsed.Blank) := by
  have params : (∀ key, (parsed.parseInto s .default).1.param key [] =
      (create.parseInto s .default).1.param key []) ↔
        ∀ key, valueOf (emplaceAll parsed.params_ (writtenParams s)) key =
          valueOf (writtenParams s) key := by
    refine forall_congr' fun key => ?_
    rw [param_eq, param_eq, params_parseInto, params_parseInto]
    exact Eq.congr_right (valueOf_emplaceAll_nil _ _)
  have url := (url_parseInto parsed s).trans (url_parseInto create s).symm
  rw [← params]
  by_cases whole : WellFormed s
  · refine ⟨fun same => ⟨same.param, .inl whole⟩, fun ⟨param, _⟩ => ⟨url, ?_, ?_, ?_, ?_, param⟩⟩ <;>
      rw [parseInto_of_wellFormed whole, parseInto_of_wellFormed whole]
  · constructor
    · intro same
      refine ⟨same.param, .inr ?_⟩
      have proto := same.proto
      have host := same.host
      have service := same.service
      have query := same.query
      rw [parseInto_of_not_wellFormed whole, parseInto_of_not_wellFormed whole]
        at proto host service query
      exact ⟨proto, host, service, query⟩
    · rintro ⟨param, broken | ⟨proto, host, service, query⟩⟩
      · exact absurd broken whole
      · refine ⟨url, ?_, ?_, ?_, ?_, param⟩ <;>
          rw [parseInto_of_not_wellFormed whole, parseInto_of_not_wellFormed whole]
        · exact proto
        · exact host
        · exact service
        · exact query

/--
After a first text, a second one is parsed as in a fresh object if and only if it has
the parameters of the first, or these are empty, and if it throws then the first has
thrown too or left nothing else.
-/
theorem same_reused_iff (s1 s2 : Text) :
    Same ((create.parseInto s1 .default).1.parseInto s2 .default).1
        (create.parseInto s2 .default).1 ↔
      (∀ entry ∈ writtenParams s1,
        valueOf (writtenParams s1) entry.1 = valueOf (writtenParams s2) entry.1) ∧
      (WellFormed s2 ∨ ¬WellFormed s1 ∨ urlText s1 = [] ∨ urlText s1 = [':']) := by
  have left : (create.parseInto s1 .default).1.Blank ↔
      ¬WellFormed s1 ∨ urlText s1 = [] ∨ urlText s1 = [':'] := by
    by_cases whole : WellFormed s1
    · rw [blank_iff whole]
      exact ⟨.inr, fun either => either.resolve_left (not_not.mpr whole)⟩
    · rw [parseInto_of_not_wellFormed whole]
      exact ⟨fun _ => .inl whole, fun _ => ⟨rfl, rfl, rfl, rfl⟩⟩
  rw [same_iff, params_parseInto, left]
  exact and_congr_left' (hidden_iff _ _)

/-- A parameter of the first text is one of an object that has parsed another since. -/
theorem not_same_reused_key :
    ((create.parseInto "a|k=v".toList .default).1.parseInto "b".toList .default).1.param ['k'] [] =
        ['v'] ∧
      (create.parseInto "b".toList .default).1.param ['k'] [] = [] ∧
      ¬Same ((create.parseInto "a|k=v".toList .default).1.parseInto "b".toList .default).1
        (create.parseInto "b".toList .default).1 := by
  refine ⟨by decide, by decide, fun same => ?_⟩
  have key := same.param ['k']
  revert key
  decide

end ParsedUrl

end ReactiveToolbox.Net
