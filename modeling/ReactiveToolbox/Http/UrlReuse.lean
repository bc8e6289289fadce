import Mathlib.Data.List.Induction
import ReactiveToolbox.Http.Url
import ReactiveToolbox.Http.UrlFields

/-!
# Reusing a request

The request of a connection is cleared between messages, but the result of its
last parse is not.  A component that the present URL does not have is cut out of
the present text at the offset where the last URL to have it had it.  This is
past the text, and the accessor throws; or within it, and the accessor answers
with bytes of another component; or at its very end, and nothing is seen of it.
-/

namespace ReactiveToolbox.Http

open ReactiveToolbox.Io
open HttpParserUrl

/-! ## Components of single URLs -/

/-- The result of parsing a URL afresh. -/
def parsedUrl (url : List Byte) : HttpParserUrl :=
  (httpParserParseUrl url false httpParserUrlInit).2

/-- `http_parser_parse_url` accepts a URL. -/
def ValidUrl (url : List Byte) : Prop :=
  (httpParserParseUrl url false httpParserUrlInit).1 = 0

theorem ValidUrl.nonempty {url : List Byte} (valid : ValidUrl url) : url ≠ [] := by
  rintro rfl
  cases valid

theorem ValidUrl.parse_eq {url : List Byte} (valid : ValidUrl url) (stale : HttpParserUrl) :
    httpParserParseUrl url false stale = (0, stale.overlay (parsedUrl url)) := by
  rw [httpParserParseUrl_overlay stale valid.nonempty]
  exact Prod.ext valid rfl

theorem validUrl_of_parse {url : List Byte} {stale : HttpParserUrl}
    (succeeded : (httpParserParseUrl url false stale).1 = 0) : ValidUrl url := by
  have nonempty : url ≠ [] := by
    rintro rfl
    cases succeeded
  rw [httpParserParseUrl_overlay stale nonempty] at succeeded
  exact succeeded

theorem ValidUrl.fieldIn_set {url : List Byte} (valid : ValidUrl url) {field : UrlField}
    (marked : (parsedUrl url).fieldSet field = true) :
    fieldIn url field = some ((parsedUrl url).fieldData field) :=
  if_pos ⟨valid, marked⟩

theorem ValidUrl.fieldIn_unset {url : List Byte} {field : UrlField}
    (unmarked : (parsedUrl url).fieldSet field = false) : fieldIn url field = none := by
  refine if_neg ?_
  rintro ⟨-, marked⟩
  exact Bool.false_ne_true (unmarked.symm.trans marked)

theorem fieldIn_bounds {url : List Byte} (short : url.length < 2 ^ 16) {field : UrlField}
    {data : FieldData} (present : fieldIn url field = some data) :
    0 < data.len ∧ data.off + data.len ≤ url.length := by
  simp only [fieldIn, Option.ite_none_right_eq_some, Option.some.injEq] at present
  rcases present with ⟨⟨valid, marked⟩, rfl⟩
  exact httpParserParseUrl_within short (Prod.ext valid rfl) field marked

theorem lastFieldIn_append (urls : List (List Byte)) (url : List Byte) (field : UrlField) :
    lastFieldIn (urls ++ [url]) field = (fieldIn url field).or (lastFieldIn urls field) := by
  simp only [lastFieldIn, List.reverse_append, List.reverse_singleton, List.singleton_append,
    List.findSome?_cons]
  cases fieldIn url field <;> rfl

theorem lastFieldIn_bounds {urls : List (List Byte)}
    (short : ∀ url ∈ urls, url.length < 2 ^ 16) {field : UrlField} {data : FieldData}
    (present : lastFieldIn urls field = some data) : 0 < data.len := by
  rcases List.exists_of_findSome?_eq_some present with ⟨url, member, found⟩
  exact (fieldIn_bounds (short url (List.mem_reverse.mp member)) found).1

/-! ## Deliveries -/

namespace HttpRequest

theorem foldl_append_url (request : HttpRequest) (parts : List Part) :
    (parts.foldl append request).url = request.url ++ urlOf parts := by
  induction parts generalizing request with
  | nil => exact (List.append_nil _).symm
  | cons part rest continued =>
      rw [List.foldl_cons, continued]
      cases part <;> simp [append, appendUrl, appendHeaderField, appendHeaderValue, setMethod,
        appendBody, urlOf]

theorem foldl_append_parsed (request : HttpRequest) (parts : List Part) :
    (parts.foldl append request).parser = request.parser := by
  induction parts generalizing request with
  | nil => rfl
  | cons part rest continued =>
      rw [List.foldl_cons, continued]
      cases part <;> rfl

/-- What a delivered message leaves: its URL, parsed over the result of the one before. -/
structure Delivered (request : HttpRequest) (parts : List Part) (next : HttpRequest) : Prop where
  valid : ValidUrl (urlOf parts)
  url : next.url = urlOf parts
  parser : next.parser = request.parser.overlay (parsedUrl (urlOf parts))

theorem deliver_delivered {request next : HttpRequest} {parts : List Part}
    (delivered : request.deliver parts = .ok next) : request.Delivered parts next := by
  have url : (parts.foldl append request.clear).url = urlOf parts :=
    foldl_append_url request.clear parts
  have parser : (parts.foldl append request.clear).parser = request.parser :=
    foldl_append_parsed request.clear parts
  simp only [deliver, flush, parse] at delivered
  rw [url, parser] at delivered
  split at delivered
  · cases delivered
  · rename_i succeeded
    have valid := validUrl_of_parse (not_ne_iff.mp succeeded)
    cases delivered
    refine ⟨valid, rfl, ?_⟩
    rw [valid.parse_eq]

theorem deliver_valid (request : HttpRequest) {parts : List Part}
    (valid : ValidUrl (urlOf parts)) : ∃ next, request.deliver parts = .ok next := by
  simp only [deliver, flush, parse]
  rw [foldl_append_url, foldl_append_parsed]
  have url : request.clear.url ++ urlOf parts = urlOf parts := rfl
  rw [url, valid.parse_eq]
  exact ⟨_, rfl⟩

theorem deliverAll_concat {earlier : List (List Part)} {parts : List Part}
    {request : HttpRequest} (delivered : create.deliverAll (earlier ++ [parts]) = .ok request) :
    ∃ before, create.deliverAll earlier = .ok before ∧ before.deliver parts = .ok request := by
  rw [deliverAll, List.foldlM_append] at delivered
  rcases ran : earlier.foldlM deliver create with failure | before
  · rw [ran] at delivered
    cases delivered
  · rw [ran] at delivered
    refine ⟨before, ran, ?_⟩
    rw [← delivered]
    exact (bind_pure (before.deliver parts)).symm

/-- The components that the URLs of the messages so far have left behind. -/
theorem deliverAll_fieldData {messages : List (List Part)} {request : HttpRequest}
    (delivered : create.deliverAll messages = .ok request) (field : UrlField) :
    request.parser.fieldData field = (lastFieldIn (messages.map urlOf) field).getD ⟨0, 0⟩ := by
  induction messages using List.reverseRecOn generalizing request with
  | nil =>
      cases delivered
      rfl
  | append_singleton earlier parts continued =>
      rcases deliverAll_concat delivered with ⟨before, ran, last⟩
      have step := deliver_delivered last
      rw [step.parser, List.map_append, List.map_singleton, lastFieldIn_append]
      cases marked : (parsedUrl (urlOf parts)).fieldSet field with
      | true =>
          rw [overlay_fieldData_set _ marked, step.valid.fieldIn_set marked]
          rfl
      | false =>
          rw [overlay_fieldData_unset _ marked, ValidUrl.fieldIn_unset marked]
          exact continued ran

/-! ## Answers -/

/-- Each accessor answers as that of a fresh request with the same message, and none throws. -/
def AnswersAsFresh (request : HttpRequest) (parts : List Part) : Prop :=
  ∃ fresh, create.deliver parts = .ok fresh ∧ request.components = fresh.components ∧
    none ∉ request.components

theorem components_eq_iff {left right : HttpRequest} :
    left.components = right.components ↔
      ∀ field, left.component field = right.component field := by
  simp only [components, schema, host, port, path, query, fragment, userInfo, List.cons.injEq,
    and_true]
  refine ⟨?_, fun same => ⟨same _, same _, same _, same _, same _, same _, same _⟩⟩
  rintro ⟨schema, host, port, path, query, fragment, userinfo⟩ field
  cases field <;> assumption

theorem none_notMem_components {request : HttpRequest} :
    none ∉ request.components ↔ ∀ field, request.component field ≠ none := by
  simp only [components, schema, host, port, path, query, fragment, userInfo, List.mem_cons,
    List.not_mem_nil, or_false, not_or]
  refine ⟨?_, fun answers =>
    ⟨(answers _).symm, (answers _).symm, (answers _).symm, (answers _).symm, (answers _).symm,
      (answers _).symm, (answers _).symm⟩⟩
  rintro ⟨schema, host, port, path, query, fragment, userinfo⟩ field
  cases field <;> exact Ne.symm ‹_›

theorem substr_zero (text : List Byte) : substr text 0 0 = some [] := by
  simp [substr]

/-- What is left of a component shows nothing only where it begins at the end of the text. -/
theorem substr_eq_nil_iff {text : List Byte} {off len : Nat} (positive : 0 < len) :
    substr text off len = some [] ↔ off = text.length := by
  unfold substr
  split
  · rename_i inside
    rw [Option.some.injEq, List.take_eq_nil_iff, List.drop_eq_nil_iff]
    omega
  · rename_i outside
    refine ⟨nofun, ?_⟩
    rintro rfl
    exact absurd le_rfl outside

/-- One accessor answers as that of a fresh request exactly where nothing was left behind. -/
theorem component_eq_fresh_iff {earlier : List (List Byte)} {stale : HttpParserUrl}
    {url : List Byte} {used fresh : HttpRequest} {field : UrlField}
    (shortEarlier : ∀ url ∈ earlier, url.length < 2 ^ 16) (short : url.length < 2 ^ 16)
    (left : stale.fieldData field = (lastFieldIn earlier field).getD ⟨0, 0⟩)
    (valid : ValidUrl url) (usedUrl : used.url = url) (freshUrl : fresh.url = url)
    (usedParser : used.parser = stale.overlay (parsedUrl url))
    (freshParser : fresh.parser = httpParserUrlInit.overlay (parsedUrl url)) :
    (used.component field = fresh.component field ∧ used.component field ≠ none) ↔
      (fieldIn url field = none →
        ∀ data, lastFieldIn earlier field = some data → data.off = url.length) := by
  simp only [component, usedUrl, freshUrl, usedParser, freshParser]
  cases marked : (parsedUrl url).fieldSet field with
  | true =>
      have present := valid.fieldIn_set marked
      have bounds := fieldIn_bounds short present
      have inside : ((parsedUrl url).fieldData field).off ≤ url.length := by omega
      rw [overlay_fieldData_set _ marked, overlay_fieldData_set _ marked, present]
      refine ⟨fun _ => nofun, fun _ => ⟨rfl, ?_⟩⟩
      rw [substr, if_pos inside]
      exact Option.some_ne_none _
  | false =>
      have absent : fieldIn url field = none := ValidUrl.fieldIn_unset marked
      rw [overlay_fieldData_unset _ marked, overlay_fieldData_unset _ marked, left]
      have nothing : substr url (httpParserUrlInit.fieldData field).off
          (httpParserUrlInit.fieldData field).len = some [] := substr_zero url
      rw [nothing]
      cases last : lastFieldIn earlier field with
      | none =>
          refine ⟨fun _ _ _ => nofun, fun _ => ?_⟩
          rw [Option.getD_none, substr_zero]
          exact ⟨rfl, Option.some_ne_none _⟩
      | some data =>
          have positive := lastFieldIn_bounds shortEarlier last
          rw [Option.getD_some]
          constructor
          · rintro ⟨same, -⟩ _ other ⟨⟩
            exact (substr_eq_nil_iff positive).mp same
          · intro condition
            rw [(substr_eq_nil_iff positive).mpr (condition absent data rfl)]
            exact ⟨rfl, Option.some_ne_none _⟩

/--
After the last message of any run the accessors answer as those of a fresh
request exactly when no component of the earlier URLs is left behind.
-/
theorem answersAsFresh_iff (earlier : List (List Part)) (parts : List Part)
    (request : HttpRequest)
    (delivered : create.deliverAll (earlier ++ [parts]) = .ok request)
    (short : ∀ message ∈ earlier ++ [parts], (urlOf message).length < 2 ^ 16) :
    request.AnswersAsFresh parts ↔ NothingLeftBehind (earlier.map urlOf) (urlOf parts) := by
  rcases deliverAll_concat delivered with ⟨before, ran, last⟩
  have step := deliver_delivered last
  rcases deliver_valid create step.valid with ⟨fresh, freshly⟩
  have freshStep := deliver_delivered freshly
  have shortEarlier : ∀ url ∈ earlier.map urlOf, url.length < 2 ^ 16 := by
    intro url member
    rcases List.mem_map.mp member with ⟨message, earlierMessage, rfl⟩
    exact short message (List.mem_append_left _ earlierMessage)
  have shortLast : (urlOf parts).length < 2 ^ 16 :=
    short parts (List.mem_append_right _ (List.mem_singleton_self parts))
  have each := fun field => component_eq_fresh_iff shortEarlier shortLast
    (deliverAll_fieldData ran field) step.valid step.url freshStep.url step.parser
    freshStep.parser
  calc request.AnswersAsFresh parts
      ↔ request.components = fresh.components ∧ none ∉ request.components := by
        refine ⟨?_, fun answers => ⟨fresh, freshly, answers⟩⟩
        rintro ⟨other, otherwise, answers⟩
        cases freshly.symm.trans otherwise
        exact answers
    _ ↔ ∀ field, request.component field = fresh.component field ∧
          request.component field ≠ none := by
        rw [components_eq_iff, none_notMem_components, ← forall_and]
    _ ↔ NothingLeftBehind (earlier.map urlOf) (urlOf parts) := forall_congr' each

/-- The query of the first URL begins at the very length of the second one. -/
theorem answersAsFresh_iff_endOfText :
    ∃ request,
      create.deliverAll ([[.url (ascii "/a?b")]] ++ [[.url (ascii "/a"), .url (ascii "b")]]) =
        .ok request ∧
      request.AnswersAsFresh [.url (ascii "/a"), .url (ascii "b")] := by
  rcases delivered : create.deliverAll
    ([[.url (ascii "/a?b")]] ++ [[.url (ascii "/a"), .url (ascii "b")]]) with failure | request
  · have succeeds : (create.deliverAll ([[.url (ascii "/a?b")]] ++
        [[.url (ascii "/a"), .url (ascii "b")]])).toOption.isSome = true := by decide +kernel
    rw [delivered] at succeeds
    cases succeeds
  · refine ⟨request, delivered, (answersAsFresh_iff _ _ request delivered (by decide)).mpr ?_⟩
    have each : ∀ field, fieldIn (ascii "/ab") field = none →
        (lastFieldIn [ascii "/a?b"] field).all (fun data => data.off = 3) = true := by
      intro field
      cases field <;> decide +kernel
    intro field absent data last
    have ends := each field absent
    have found : lastFieldIn [ascii "/a?b"] field = some data := last
    rw [found] at ends
    exact of_decide_eq_true ends

/-- The query of the first URL is looked for past the end of the second one. -/
theorem query_throws_after_longer_url :
    ∃ request, create.deliverAll [[.url (ascii "/a?b")], [.url (ascii "/")]] = .ok request ∧
      request.query = none ∧ ¬request.AnswersAsFresh [.url (ascii "/")] := by
  have throws : (create.deliverAll
      [[.url (ascii "/a?b")], [.url (ascii "/")]]).toOption.map query = some none := by
    decide +kernel
  rcases delivered : create.deliverAll [[.url (ascii "/a?b")], [.url (ascii "/")]] with
    failure | request
  · rw [delivered] at throws
    cases throws
  · rw [delivered] at throws
    have query_none : request.query = none := Option.some.inj throws
    refine ⟨request, rfl, query_none, ?_⟩
    rintro ⟨fresh, -, -, answers⟩
    refine none_notMem_components.mp answers .query ?_
    exact query_none

end HttpRequest

end ReactiveToolbox.Http
