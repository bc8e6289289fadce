import ReactiveToolbox.Lib.TextSearch

/-!
# Parsed URLs

`ParsedUrl::parse` cuts the parameters off a text, and then the protocol, the query
and the service off what is left.  The separator of the protocol is not cut off with
it, so it stays at the front of the host, or is taken for that of a service.
-/

namespace ReactiveToolbox.Net

open ReactiveToolbox.Lib

/-- The characters of a URL. -/
abbrev Text := List Char

/-- What the parts are separated by; an empty separator stands for none. -/
structure UrlSeparators where
  proto : Text
  query : Text
  service : Text
  params : Text
  deriving DecidableEq

namespace UrlSeparators

/-- The defaults of the arguments of `parse`. -/
def default : UrlSeparators where
  proto := [':', '/', '/']
  query := ['?']
  service := [':']
  params := ['|']

end UrlSeparators

/-- Why `parse` does not return. -/
inductive UrlFailure where
  | logicError (what : String)
  /-- The loop over the parameters stays where it is. -/
  | endless
  deriving DecidableEq

/-- `ParsedUrl`. -/
structure ParsedUrl where
  data_ : Text
  url_ : Text
  proto_ : Text
  host_ : Text
  service_ : Text
  query_ : Text
  params_ : List (Text × Text)
  deriving DecidableEq

namespace ParsedUrl

/-- The default constructor. -/
def create : ParsedUrl where
  data_ := []
  url_ := []
  proto_ := []
  host_ := []
  service_ := []
  query_ := []
  params_ := []

/-- `emplace` keeps the value of a key that is there. -/
def emplace (params : List (Text × Text)) (key val : Text) : List (Text × Text) :=
  if key ∈ params.map Prod.fst then params else params ++ [(key, val)]

/-- `param`, with the default for a key that is missing. -/
def param (parsed : ParsedUrl) (key dflt : Text) : Text :=
  match parsed.params_.find? fun entry => entry.1 = key with
  | some entry => entry.2
  | none => dflt

/-- The loop over the parameters, from the position of a separator on. -/
def parseParams (s sep : Text) : Nat → Nat → List (Text × Text) →
    Except UrlFailure (List (Text × Text))
  | 0, p, params => if p < s.length then .error .endless else .ok params
  | rounds + 1, p, params =>
      if p < s.length then
        match findFrom ['='] s p with
        | none => .error (.logicError "ParsedUrl: = expected")
        | some e =>
            let key := substr s (p + 1) (e - p - 1)
            let p := (findFrom sep s e).getD s.length
            let val := substr s (e + 1) (p - e - 1)
            parseParams s sep rounds p (emplace params key val)
      else .ok params

/-- What comes before the parameters, and these with those there are already. -/
def cutParams (sep s : Text) (params : List (Text × Text)) :
    Except UrlFailure (Text × List (Text × Text)) :=
  if sep = [] then .ok (s, params)
  else
    let p := (find sep s).getD s.length
    (parseParams s sep s.length p params).map fun params => (s.take p, params)

/-- The protocol of what is left of the text, and what is left then. -/
def cutProto (sep u : Text) : Text × Text :=
  if sep = [] then ([], u)
  else
    match find sep u with
    | none => ([], u)
    | some p => (u.take p, u.drop p)

/-- The query of what is left of the text, and what is left then. -/
def cutQuery (sep u : Text) : Text × Text :=
  if sep = [] then ([], u)
  else
    match find sep u with
    | none => ([], u)
    | some p => (u.drop p, u.take p)

/-- The service of what is left of the text, and the host. -/
def cutService (sep u : Text) : Text × Text :=
  if sep = [] then ([], u)
  else
    match rfind sep u with
    | none => ([], u)
    | some p => (u.drop (p + 1), u.take p)

/-- `parse`. -/
def parse (parsed : ParsedUrl) (s : Text) (separators : UrlSeparators) :
    Except UrlFailure ParsedUrl :=
  (cutParams separators.params s parsed.params_).map fun (url, params) =>
    let (proto, u) := cutProto separators.proto url
    let (query, u) := cutQuery separators.query u
    let (service, host) := cutService separators.service u
    { data_ := s
      url_ := url
      proto_ := proto
      host_ := host
      service_ := service
      query_ := query
      params_ := params }

end ParsedUrl

/-! ## The parts of a URL -/

/-- A part has symbols, none of which a separator has. -/
def UrlPart (text : Text) : Prop :=
  text ≠ [] ∧ ':' ∉ text ∧ '?' ∉ text ∧ '|' ∉ text ∧ '=' ∉ text

/-- The parts of a URL, some of which may be absent. -/
structure UrlParts where
  proto : Option Text
  host : Text
  service : Option Text
  params : List (Text × Text)
  proto_part : ∀ text ∈ proto, UrlPart text
  host_part : UrlPart host
  service_part : ∀ text ∈ service, UrlPart text
  params_part : ∀ entry ∈ params, UrlPart entry.1 ∧ UrlPart entry.2
  params_distinct : (params.map Prod.fst).Nodup

namespace UrlParts

/-- What the host and the service are written as. -/
def address (parts : UrlParts) : Text :=
  match parts.service with
  | none => parts.host
  | some service => parts.host ++ ':' :: service

/-- What is written before the parameters. -/
def url (parts : UrlParts) : Text :=
  match parts.proto with
  | none => parts.address
  | some proto => proto ++ [':', '/', '/'] ++ parts.address

/-- What a parameter is written as. -/
def entryText (entry : Text × Text) : Text :=
  '|' :: entry.1 ++ '=' :: entry.2

/-- The parameters as they are written. -/
def paramsText (params : List (Text × Text)) : Text :=
  params.flatMap entryText

/-- The text that the parts are written as. -/
def text (parts : UrlParts) : Text :=
  parts.url ++ paramsText parts.params

/-- A parsed URL has the parts that were written. -/
def Matches (parts : UrlParts) (parsed : ParsedUrl) : Prop :=
  parsed.proto_ = parts.proto.getD [] ∧ parsed.host_ = parts.host ∧
    parsed.service_ = parts.service.getD [] ∧
    ∀ entry ∈ parts.params, ∀ dflt, parsed.param entry.1 dflt = entry.2

end UrlParts

/-! ## Parameters -/

namespace ParsedUrl

open UrlParts

variable {params : List (Text × Text)}

theorem emplace_of_not_mem {key : Text} (absent : key ∉ params.map Prod.fst) (val : Text) :
    emplace params key val = params ++ [(key, val)] := by
  rw [emplace, if_neg absent]

theorem param_of_mem {parsed : ParsedUrl} (distinct : (parsed.params_.map Prod.fst).Nodup)
    {entry : Text × Text} (member : entry ∈ parsed.params_) (dflt : Text) :
    parsed.param entry.1 dflt = entry.2 := by
  have found : parsed.params_.find? (fun other => other.1 = entry.1) = some entry := by
    generalize parsed.params_ = params at distinct member
    induction params with
    | nil => cases member
    | cons other rest continued =>
        rw [List.map_cons, List.nodup_cons] at distinct
        rcases List.mem_cons.mp member with rfl | later
        · simp
        · have different : other.1 ≠ entry.1 := by
            intro same
            rw [same] at distinct
            exact distinct.1 (List.mem_map_of_mem later)
          rw [List.find?_cons_of_neg (by simpa using different)]
          exact continued distinct.2 later
  rw [param, found]

theorem length_le_paramsText (params : List (Text × Text)) :
    params.length ≤ (paramsText params).length := by
  induction params with
  | nil => exact Nat.zero_le _
  | cons entry rest continued =>
      have longer : (paramsText (entry :: rest)).length =
          entry.1.length + entry.2.length + 2 + (paramsText rest).length := by
        simp [paramsText, entryText]
        omega
      rw [longer, List.length_cons]
      omega

/-- A symbol is found where the text behind it begins, or at the end. -/
theorem find_getD {symbol : Char} {front back : Text} (absent : symbol ∉ front)
    (begins : ∀ first ∈ back.head?, first = symbol) :
    (find [symbol] (front ++ back)).getD (front ++ back).length = front.length := by
  cases back with
  | nil => rw [List.append_nil, find_of_not_mem absent, Option.getD_none]
  | cons first back => rw [begins first rfl, find_symbol absent, Option.getD_some]

theorem paramsText_begins (params : List (Text × Text)) :
    ∀ first ∈ (paramsText params).head?, first = '|' := by
  cases params with
  | nil => exact fun first head => nomatch head
  | cons entry rest => exact fun first head => (Option.some.inj head).symm

theorem findFrom_append (pattern before text : Text) :
    findFrom pattern (before ++ text) before.length =
      (find pattern text).map (· + before.length) := by
  rw [findFrom, List.drop_left]

/-- A search from a position on that ends with the text. -/
theorem findFrom_getD (pattern before text : Text) :
    (findFrom pattern (before ++ text) before.length).getD (before ++ text).length =
      before.length + (find pattern text).getD text.length := by
  rw [findFrom_append, List.length_append]
  cases find pattern text with
  | none => rfl
  | some position => exact Nat.add_comm position before.length

/-- What the loop finds of one parameter, up to the separator of the next or the end. -/
theorem entry_found {key val later : Text} (no_equals : '=' ∉ key) (no_bar : '|' ∉ val)
    (begins : ∀ first ∈ later.head?, first = '|') (before : Text) {s : Text}
    (s_eq : s = before ++ (entryText (key, val) ++ later)) :
    ∃ e, findFrom ['='] s before.length = some e ∧
      (findFrom ['|'] s e).getD s.length = (before ++ entryText (key, val)).length ∧
      substr s (before.length + 1) (e - before.length - 1) = key ∧
      substr s (e + 1) ((before ++ entryText (key, val)).length - e - 1) = val := by
  subst s_eq
  have key_absent : '=' ∉ '|' :: key := by
    simpa using no_equals
  have val_absent : '|' ∉ '=' :: val := by
    simpa using no_bar
  have shape : before ++ (entryText (key, val) ++ later) =
      before ++ '|' :: key ++ ('=' :: val ++ later) := by
    simp [entryText]
  have key_shape : before ++ (entryText (key, val) ++ later) =
      before ++ ['|'] ++ key ++ ('=' :: val ++ later) := by
    simp [entryText]
  have val_shape : before ++ (entryText (key, val) ++ later) =
      before ++ '|' :: key ++ ['='] ++ val ++ later := by
    simp [entryText]
  refine ⟨(before ++ '|' :: key).length, ?_, ?_, ?_, ?_⟩
  · have entry_shape : entryText (key, val) ++ later = '|' :: key ++ '=' :: (val ++ later) := by
      simp [entryText]
    rw [findFrom_append, entry_shape, find_symbol key_absent, Option.map_some,
      List.length_append, Nat.add_comm]
  · rw [shape, findFrom_getD, find_getD val_absent begins]
    simp [entryText]
    omega
  · have start : before.length + 1 = (before ++ ['|']).length := by
      simp
    have count : (before ++ '|' :: key).length - before.length - 1 = key.length := by
      simp
    rw [key_shape, start, count, substr_append]
  · have start : (before ++ '|' :: key).length + 1 = (before ++ '|' :: key ++ ['=']).length := by
      simp
      omega
    have count : (before ++ entryText (key, val)).length - (before ++ '|' :: key).length - 1 =
        val.length := by
      simp [entryText]
      omega
    rw [val_shape, start, count, substr_append]

theorem entry_within (before : Text) (entry : Text × Text) (later : Text) :
    before.length < (before ++ (entryText entry ++ later)).length := by
  rw [entryText, List.length_append, List.length_append, List.length_append, List.length_cons]
  omega

/-- One parameter is read. -/
theorem parseParams_entry {entry : Text × Text} (key_part : UrlPart entry.1)
    (val_part : UrlPart entry.2) (before : Text) (rest read : List (Text × Text))
    (rounds : Nat) :
    parseParams (before ++ (entryText entry ++ paramsText rest)) ['|'] (rounds + 1)
        before.length read =
      parseParams (before ++ (entryText entry ++ paramsText rest)) ['|'] rounds
        (before ++ entryText entry).length (emplace read entry.1 entry.2) := by
  obtain ⟨e, equals, bar, key_text, val_text⟩ := entry_found key_part.2.2.2.2
    val_part.2.2.2.1 (paramsText_begins rest) before rfl
  rw [parseParams, if_pos (entry_within before entry _), equals]
  dsimp only
  rw [bar, key_text, val_text]

/-- The parameters that follow a position are read in order. -/
theorem parseParams_text {rounds : Nat} (before : Text) (read : List (Text × Text))
    (parts : ∀ entry ∈ params, UrlPart entry.1 ∧ UrlPart entry.2)
    (distinct : ((read ++ params).map Prod.fst).Nodup) (enough : params.length ≤ rounds) :
    parseParams (before ++ paramsText params) ['|'] rounds before.length read =
      .ok (read ++ params) := by
  induction params generalizing before read rounds with
  | nil =>
      have ended : ¬ before.length < (before ++ paramsText []).length := by
        simp [paramsText]
      rw [List.append_nil]
      cases rounds with
      | zero => rw [parseParams, if_neg ended]
      | succ rounds => rw [parseParams, if_neg ended]
  | cons entry rest continued =>
      obtain ⟨key_part, val_part⟩ := parts entry List.mem_cons_self
      have absent : entry.1 ∉ read.map Prod.fst := by
        intro member
        rw [List.map_append, List.nodup_append] at distinct
        exact distinct.2.2 _ member _ (List.mem_map_of_mem List.mem_cons_self) rfl
      cases rounds with
      | zero => cases enough
      | succ rounds =>
          have step := parseParams_entry key_part val_part before rest read rounds
          have done := continued (before ++ entryText entry) (read ++ [entry])
            (fun other member => parts other (List.mem_cons_of_mem _ member))
            (by rw [List.append_assoc]; exact distinct) (Nat.le_of_succ_le_succ enough)
          rw [List.append_assoc, List.append_assoc] at done
          rw [emplace_of_not_mem absent] at step
          exact step.trans done

end ParsedUrl

/-! ## The parts that are found -/

namespace UrlParts

open ParsedUrl

variable (parts : UrlParts)

theorem not_mem_url {symbol : Char} (apart : symbol ≠ ':') (slash : symbol ≠ '/')
    (absent : ∀ {text : Text}, UrlPart text → symbol ∉ text) : symbol ∉ parts.url := by
  have address : symbol ∉ parts.address := by
    unfold UrlParts.address
    cases service : parts.service with
    | none => exact absent parts.host_part
    | some text =>
        have text_part := absent (parts.service_part text service)
        have host_part := absent parts.host_part
        simp [apart, text_part, host_part]
  unfold url
  cases proto : parts.proto with
  | none => exact address
  | some text =>
      have text_part := absent (parts.proto_part text proto)
      simp [apart, slash, text_part, address]

theorem cutParams_text :
    cutParams ['|'] parts.text [] = .ok (parts.url, parts.params) := by
  have no_bar : '|' ∉ parts.url :=
    parts.not_mem_url (by decide) (by decide) fun part => part.2.2.2.1
  have enough : parts.params.length ≤ parts.text.length := by
    have params := length_le_paramsText parts.params
    rw [text, List.length_append]
    omega
  have read := parseParams_text parts.url [] parts.params_part parts.params_distinct enough
  have position : (find ['|'] parts.text).getD parts.text.length = parts.url.length :=
    find_getD no_bar (paramsText_begins parts.params)
  have cut : parts.text.take parts.url.length = parts.url := List.take_left
  rw [cutParams, if_neg (by decide)]
  simp only [position, cut]
  change (parseParams parts.text ['|'] parts.text.length parts.url.length []).map _ = _
  rw [text] at read ⊢
  rw [read]
  rfl

/-- The parameters are read and cut off, whatever the other parts are. -/
theorem parse_text :
    create.parse parts.text .default =
      let (proto, u) := cutProto [':', '/', '/'] parts.url
      let (query, u) := cutQuery ['?'] u
      let (service, host) := cutService [':'] u
      .ok
        { data_ := parts.text
          url_ := parts.url
          proto_ := proto
          host_ := host
          service_ := service
          query_ := query
          params_ := parts.params } := by
  have cut : cutParams UrlSeparators.default.params parts.text create.params_ =
      .ok (parts.url, parts.params) := parts.cutParams_text
  rw [parse, cut]
  rfl

theorem cutQuery_of_not_mem {u : Text} (absent : '?' ∉ u) : cutQuery ['?'] u = ([], u) := by
  rw [cutQuery, if_neg (by decide), find_of_not_mem absent]

theorem cutService_of_not_mem {u : Text} (absent : ':' ∉ u) : cutService [':'] u = ([], u) := by
  rw [cutService, if_neg (by decide), rfind_of_not_mem absent]

theorem cutService_last (front : Text) {back : Text} (absent : ':' ∉ back) :
    cutService [':'] (front ++ ':' :: back) = (back, front) := by
  rw [cutService, if_neg (by decide), rfind_symbol absent]
  simp only
  rw [List.take_left]
  congr 1
  simp

theorem cutProto_of_not_mem {u : Text} (absent : ':' ∉ u) :
    cutProto [':', '/', '/'] u = ([], u) := by
  rw [cutProto, if_neg (by decide), find_of_not_mem absent]

/-- The separator of the protocol stays in front of what is left. -/
theorem cutProto_first {front : Text} (absent : ':' ∉ front) (back : Text) :
    cutProto [':', '/', '/'] (front ++ [':', '/', '/'] ++ back) =
      (front, [':', '/', '/'] ++ back) := by
  have found : find [':', '/', '/'] (front ++ ([':', '/', '/'] ++ back)) = some front.length := by
    rw [find_append_of_not_mem absent]
    simp [find]
  rw [cutProto, if_neg (by decide), List.append_assoc, found]
  simp only
  rw [List.take_left, List.drop_left]

/-- A service that begins like the rest of the separator makes a protocol of the host. -/
theorem cutProto_service {front back : Text} (front_absent : ':' ∉ front)
    (back_absent : ':' ∉ back) :
    cutProto [':', '/', '/'] (front ++ ':' :: back) =
      if ['/', '/'].isPrefixOf back then (front, ':' :: back) else ([], front ++ ':' :: back) := by
  rw [cutProto, if_neg (by decide), find_append_of_not_mem front_absent, find_once back_absent]
  by_cases slashes : ['/', '/'].isPrefixOf back = true
  · rw [if_pos slashes, if_pos slashes]
    simp
  · rw [if_neg slashes, if_neg slashes]
    rfl

/-- What is left of a URL with a protocol has its host nowhere. -/
theorem host_with_proto :
    (cutService [':'] ([':', '/', '/'] ++ parts.address)).2 ≠ parts.host := by
  unfold address
  cases service : parts.service with
  | none =>
      have cut : cutService [':'] ([] ++ ':' :: ('/' :: '/' :: parts.host)) =
          ('/' :: '/' :: parts.host, []) :=
        cutService_last [] (by simpa using parts.host_part.2.1)
      simp only [List.cons_append, List.nil_append] at cut ⊢
      rw [cut]
      exact parts.host_part.1.symm
  | some text =>
      have cut := cutService_last ([':', '/', '/'] ++ parts.host)
        (parts.service_part text service).2.1
      simp only [List.cons_append, List.nil_append] at cut ⊢
      rw [cut]
      intro same
      have lengths := congrArg List.length same
      simp at lengths
      omega

/-- The protocol is absent, and the service does not begin with two slashes. -/
def WithoutProto (parts : UrlParts) : Prop :=
  parts.proto = none ∧ ∀ service ∈ parts.service, ¬ ['/', '/'].isPrefixOf service = true

theorem parse_matches (without : parts.WithoutProto) :
    ∃ parsed, create.parse parts.text .default = .ok parsed ∧ parts.Matches parsed := by
  obtain ⟨no_proto, no_slashes⟩ := without
  have url : parts.url = parts.address := by
    rw [UrlParts.url, no_proto]
  have no_query : '?' ∉ parts.url :=
    parts.not_mem_url (by decide) (by decide) fun part => part.2.2.1
  have proto : cutProto [':', '/', '/'] parts.url = ([], parts.url) := by
    rw [url]
    unfold address
    cases service : parts.service with
    | none => exact cutProto_of_not_mem parts.host_part.2.1
    | some text =>
        simp only
        rw [cutProto_service parts.host_part.2.1 (parts.service_part text service).2.1,
          if_neg (no_slashes text service)]
  have service : cutService [':'] parts.url = (parts.service.getD [], parts.host) := by
    rw [url]
    unfold address
    cases service : parts.service with
    | none => exact cutService_of_not_mem parts.host_part.2.1
    | some text => exact cutService_last parts.host (parts.service_part text service).2.1
  rw [parts.parse_text]
  simp only [proto, cutQuery_of_not_mem no_query, service]
  refine ⟨_, rfl, ?_, rfl, rfl, ?_⟩
  · rw [no_proto]
    rfl
  · intro entry member dflt
    exact param_of_mem parts.params_distinct member dflt

/-- The parts are found exactly if the protocol is absent and not made up by the service. -/
theorem parse_matches_iff :
    (∃ parsed, create.parse parts.text .default = .ok parsed ∧ parts.Matches parsed) ↔
      parts.WithoutProto := by
  have no_query : '?' ∉ parts.url :=
    parts.not_mem_url (by decide) (by decide) fun part => part.2.2.1
  constructor
  · rintro ⟨parsed, parsed_eq, proto_eq, host_eq, service_eq, -⟩
    rw [parts.parse_text] at parsed_eq
    cases proto : parts.proto with
    | some text =>
        have url : parts.url = text ++ [':', '/', '/'] ++ parts.address := by
          rw [UrlParts.url, proto]
        have cut := cutProto_first (parts.proto_part text proto).2.1 parts.address
        rw [← url] at cut
        have left_no_query : '?' ∉ [':', '/', '/'] ++ parts.address := by
          rw [url, List.append_assoc, List.mem_append, not_or] at no_query
          exact no_query.2
        simp only [cut, cutQuery_of_not_mem left_no_query] at parsed_eq
        injection parsed_eq with parsed_eq
        rw [← parsed_eq] at host_eq
        exact absurd host_eq parts.host_with_proto
    | none =>
        refine ⟨proto, ?_⟩
        intro text service slashes
        have url : parts.url = parts.host ++ ':' :: text := by
          rw [UrlParts.url, proto, address, service]
        have cut := cutProto_service parts.host_part.2.1 (parts.service_part text service).2.1
        rw [if_pos slashes, ← url] at cut
        simp only [cut] at parsed_eq
        injection parsed_eq with parsed_eq
        rw [← parsed_eq, proto] at proto_eq
        exact absurd proto_eq parts.host_part.1
  · exact parts.parse_matches

/-- The rest of the separator is taken for a part of the host. -/
theorem parse_tcp4 :
    ∃ parts : UrlParts, parts.text = "tcp4://192.168.1.3:443".toList ∧
      (create.parse parts.text .default).map ParsedUrl.host_ = .ok "://192.168.1.3".toList ∧
      parts.host = "192.168.1.3".toList := by
  let parts : UrlParts :=
    { proto := some "tcp4".toList
      host := "192.168.1.3".toList
      service := some "443".toList
      params := []
      proto_part := by
        intro text same
        cases same
        exact ⟨by decide, by decide, by decide, by decide, by decide⟩
      host_part := ⟨by decide, by decide, by decide, by decide, by decide⟩
      service_part := by
        intro text same
        cases same
        exact ⟨by decide, by decide, by decide, by decide, by decide⟩
      params_part := by
        intro entry member
        cases member
      params_distinct := .nil }
  exact ⟨parts, by decide, by decide, rfl⟩

end UrlParts

end ReactiveToolbox.Net
