import ReactiveToolbox.Http.ParserEvents

/-!
# The frames of messages

The callbacks of a run go from phase to phase.  What a phase of a body, or of a chunk,
lets through until it ends is exactly as long as the callback in front of it has announced.
-/

namespace ReactiveToolbox.Http

open ReactiveToolbox.Io

universe u

variable {σ : Type u}

namespace HttpParser

/-- `http_parser_pause`, which asserts that there is no error. -/
def pause (parser : HttpParser) (paused : Bool) : Option HttpParser :=
  if parser.httpErrno = .ok ∨ parser.httpErrno = .paused then
    some { parser with httpErrno := if paused then .paused else .ok }
  else none

/-- The parsers of a run: data are executed one after another, no data at the end of the
stream, and the parser is paused or is not any more. -/
inductive Reached (settings : ParserSettings σ) (type : ParserType) (initial : σ) :
    HttpParser → σ → Prop where
  | init : Reached settings type initial (.init type) initial
  | execute {parser next : HttpParser} {user left : σ} {data : List Byte} {consumed : Nat}
      (reached : Reached settings type initial parser user)
      (ran : parser.execute settings data user = .returned consumed next left) :
      Reached settings type initial next left
  | pause {parser next : HttpParser} {user : σ} {paused : Bool}
      (reached : Reached settings type initial parser user)
      (ran : parser.pause paused = some next) : Reached settings type initial next user

variable {settings : ParserSettings σ} {type : ParserType} {initial : σ} {parser : HttpParser}
  {user : σ}

/-- Along a run the parser is where a phase of its message is. -/
theorem Reached.sound {At : MessagePhase → σ → Prop} (watched : settings.Watched At)
    (idle : At .idle initial) (reached : Reached settings type initial parser user) :
    parser.Sound At user := by
  induction reached with
  | init => exact init_sound type idle
  | execute reached ran sound =>
      obtain ⟨consumed, next, left, ended, -, behind⟩ := execute_sound watched sound _
      obtain ⟨-, rfl, rfl⟩ := Outcome.returned.inj (ended.symm.trans ran)
      exact behind
  | pause reached ran sound =>
      rw [HttpParser.pause] at ran
      split at ran
      · rename_i either
        obtain rfl := Option.some.inj ran
        obtain ⟨phase, told, locates⟩ := sound
        exact ⟨phase, told, fun _ => locates either⟩
      · cases ran

end HttpParser

/-- What has been consumed and is left of an execution that ended without an error. -/
def Outcome.result : Outcome σ → Option (Nat × HttpParser × σ)
  | .returned consumed parser user =>
      if parser.httpErrno = .ok then some (consumed, parser, user) else none
  | _ => none

/-- Callbacks that only put the texts together. -/
def ParserSettings.collecting (maxHeaderSize : Nat) : ParserSettings (List Byte) where
  maxHeaderSize := maxHeaderSize
  notify _ _ texts := (.success, texts)
  headersComplete _ texts := (.success, texts)
  data _ text texts := (.success, texts ++ text)

namespace HttpParser

variable {settings : ParserSettings σ} {type : ParserType} {initial : σ} {parser : HttpParser}
  {user : σ}

theorem returned_of_result {outcome : Outcome σ} {consumed : Nat}
    (ended : outcome.result = some (consumed, parser, user)) :
    outcome = .returned consumed parser user := by
  cases outcome with
  | returned amount next left =>
      rw [Outcome.result] at ended
      split at ended
      · obtain ⟨rfl, rfl, rfl⟩ := Prod.mk.inj (Option.some.inj ended)
        rfl
      · cases ended
  | running _ | aborted => cases ended

/-- The callbacks of every run may be written down. -/
theorem Reached.recorded (reached : Reached settings type initial parser user) :
    ∃ events, Reached settings.recorded type (initial, []) parser (user, events) := by
  induction reached with
  | init => exact ⟨[], .init⟩
  | @execute parser next user left data consumed reached ran recorded =>
      obtain ⟨events, recorded⟩ := recorded
      have same := execute_map settings.recorded_maps parser data (user, events)
      rw [ran] at same
      cases told : parser.execute settings.recorded data (user, events) with
      | running execution =>
          rw [told] at same
          cases same
      | returned amount other state =>
          rw [told] at same
          cases same
          exact ⟨state.2, .execute recorded told⟩
      | aborted =>
          rw [told] at same
          cases same
  | pause reached ran recorded =>
      obtain ⟨events, recorded⟩ := recorded
      exact ⟨events, .pause recorded ran⟩

/-- The end of the data consumes nothing, and reports one character where it is an error. -/
theorem executeEof_consumed (settings : ParserSettings σ) (parser : HttpParser) (user : σ)
    {consumed : Nat} {next : HttpParser} {left : σ}
    (ended : parser.executeEof settings user = .returned consumed next left) :
    consumed = 0 ∨ (consumed = 1 ∧ next.httpErrno = .invalidEofState) := by
  unfold executeEof at ended
  split at ended
  · dsimp only [Execution.answered] at ended
    split at ended <;> cases ended <;> exact .inl rfl
  · cases ended
    exact .inl rfl
  · cases ended
    exact .inl rfl
  · cases ended
    exact .inl rfl
  · cases ended
    exact .inl rfl
  · cases ended
    exact .inr ⟨rfl, rfl⟩

/--
No assertion of the parser fails, and it consumes no more than it is given.  Where the data may
not end, it reports that it has consumed one character of none.
-/
theorem Reached.execute_returns (reached : Reached settings type initial parser user)
    (data : List Byte) :
    ∃ consumed next left, parser.execute settings data user = .returned consumed next left ∧
      (consumed ≤ data.length ∨
        data = [] ∧ consumed = 1 ∧ next.httpErrno = .invalidEofState) := by
  have watched : settings.Watched fun _ _ => True := by
    constructor <;> intros <;> trivial
  obtain ⟨consumed, next, left, ended, few, -⟩ :=
    execute_sound watched (reached.sound watched trivial) data
  refine ⟨consumed, next, left, ended, ?_⟩
  by_cases some_data : data ≠ []
  · exact .inl (few some_data)
  · obtain rfl := not_not.mp some_data
    rw [HttpParser.execute] at ended
    split at ended
    · cases ended
      exact .inl (Nat.le_refl 0)
    · rcases executeEof_consumed settings parser user ended with rfl | error
      · exact .inl (Nat.le_refl 0)
      · exact .inr ⟨rfl, error⟩

/-- What a parser of requests and its callbacks come to over one text without errors. -/
def once (text : List Byte) : Option (Nat × HttpParser × List Byte × List ParserEvent) :=
  ((init .request).execute (ParserSettings.collecting 100).recorded text ([], [])).result

theorem reached_once {text : List Byte} (ended : (once text).isSome) :
    Reached (ParserSettings.collecting 100).recorded .request ([], [])
      ((once text).get ended).2.1 ((once text).get ended).2.2 :=
  .execute .init (returned_of_result (Option.some_get ended).symm)

theorem execute_returns_get :
    ∃ consumed next left,
      ((once (ascii "GET /")).get (by decide +kernel)).2.1.execute
          (ParserSettings.collecting 100).recorded (ascii "a\n\n")
          ((once (ascii "GET /")).get (by decide +kernel)).2.2 =
        .returned consumed next left ∧
      (consumed ≤ (ascii "a\n\n").length ∨
        ascii "a\n\n" = [] ∧ consumed = 1 ∧ next.httpErrno = .invalidEofState) :=
  (reached_once _).execute_returns _

end HttpParser

/-! ## Phases of callbacks -/

namespace MessagePhase

/-- The phase after a callback that the phase expects. -/
def event (phase : MessagePhase) : ParserEvent → Option MessagePhase
  | .notify notice fields => phase.notify notice fields
  | .headersComplete fields => phase.headersComplete fields
  | .data piece text => phase.data piece text.length

/-- The phase after callbacks that are expected one after another. -/
def run : MessagePhase → List ParserEvent → Option MessagePhase
  | phase, [] => some phase
  | phase, event :: rest => (phase.event event).bind fun next => next.run rest

theorem run_append (phase : MessagePhase) (first second : List ParserEvent) :
    phase.run (first ++ second) = (phase.run first).bind fun next => next.run second := by
  induction first generalizing phase with
  | nil => rfl
  | cons event first continued =>
      rw [List.cons_append, run, run]
      cases phase.event event with
      | none => rfl
      | some next => exact continued next

theorem run_snoc {phase next last : MessagePhase} {events : List ParserEvent}
    {event : ParserEvent} (ran : phase.run events = some next)
    (step : next.event event = some last) : phase.run (events ++ [event]) = some last := by
  rw [run_append, ran, Option.bind_some, run, step]
  rfl

end MessagePhase

/-- Callbacks that are written down are watched. -/
theorem ParserSettings.recorded_watched (settings : ParserSettings σ) :
    settings.recorded.Watched fun phase user => MessagePhase.run .idle user.2 = some phase where
  notify told step := MessagePhase.run_snoc told step
  headersComplete told step := MessagePhase.run_snoc told step
  data told step := MessagePhase.run_snoc told step

namespace HttpParser

variable {settings : ParserSettings σ} {type : ParserType} {initial user : σ}
  {parser : HttpParser} {events : List ParserEvent}

/-- The callbacks of every run follow the phases, and end in the one of the parser. -/
theorem Reached.events_follow
    (reached : Reached settings.recorded type (initial, []) parser (user, events)) :
    ∃ phase, MessagePhase.run .idle events = some phase ∧
      (parser.httpErrno = .ok ∨ parser.httpErrno = .paused →
        Located parser.state parser.nread parser.fields 0 phase) :=
  reached.sound settings.recorded_watched rfl

theorem events_follow_get :
    ∃ phase,
      MessagePhase.run .idle ((once (ascii "GET /a\n")).get (by decide +kernel)).2.2.2 =
        some phase ∧
      (((once (ascii "GET /a\n")).get (by decide +kernel)).2.1.httpErrno = .ok ∨
          ((once (ascii "GET /a\n")).get (by decide +kernel)).2.1.httpErrno = .paused →
        Located ((once (ascii "GET /a\n")).get (by decide +kernel)).2.1.state
          ((once (ascii "GET /a\n")).get (by decide +kernel)).2.1.nread
          ((once (ascii "GET /a\n")).get (by decide +kernel)).2.1.fields 0 phase) :=
  (reached_once _).events_follow

end HttpParser

/-! ## Lengths -/

namespace ParserEvent

/-- The characters of bodies that are called back for. -/
def bodyText : List ParserEvent → List Byte
  | [] => []
  | .data .body text :: rest => text ++ bodyText rest
  | _ :: rest => bodyText rest

end ParserEvent

namespace MessagePhase

theorem event_length {left : Nat} {event : ParserEvent} {next : MessagePhase}
    (step : (length left).event event = some next) :
    (∃ text, event = .data .body text ∧ text.length ≤ left ∧
        next = .length (left - text.length)) ∨
      ∃ fields, event = .notify .messageComplete fields := by
  cases event with
  | notify notice fields =>
      right
      cases left <;> cases notice <;> first | exact ⟨fields, rfl⟩ | cases step
  | headersComplete fields => cases step
  | data piece text =>
      left
      cases piece <;> first | cases step | skip
      rw [event, data] at step
      split at step
      · rename_i fits
        exact ⟨text, rfl, fits, (Option.some.inj step).symm⟩
      · cases step

theorem event_chunk {left : Nat} {event : ParserEvent} {next : MessagePhase}
    (step : (chunk left).event event = some next) :
    (∃ text, event = .data .body text ∧ text.length ≤ left ∧
        next = .chunk (left - text.length)) ∨
      ∃ fields, event = .notify .chunkComplete fields := by
  cases event with
  | notify notice fields =>
      right
      cases left <;> cases notice <;> first | exact ⟨fields, rfl⟩ | cases step
  | headersComplete fields => cases step
  | data piece text =>
      left
      cases piece <;> first | cases step | skip
      rw [event, data] at step
      split at step
      · rename_i fits
        exact ⟨text, rfl, fits, (Option.some.inj step).symm⟩
      · cases step

/-- The phases behind the last chunk. -/
def trailing : MessagePhase → Bool
  | .head trailing | .field trailing | .value trailing => trailing
  | _ => false

/-- A trailer has no body. -/
theorem event_trailing {phase next : MessagePhase} {event : ParserEvent}
    (behind : phase.trailing = true) (step : phase.event event = some next) :
    ((∀ rest, ParserEvent.bodyText (event :: rest) = ParserEvent.bodyText rest) ∧
        next.trailing = true) ∨
      ∃ fields, event = .notify .chunkComplete fields := by
  cases event with
  | notify notice fields =>
      right
      cases phase <;> cases behind <;> cases notice <;> first | exact ⟨fields, rfl⟩ | cases step
  | headersComplete fields => cases phase <;> cases behind <;> cases step
  | data piece text =>
      left
      cases phase <;> cases behind <;> cases piece <;> cases step <;> exact ⟨fun _ => rfl, rfl⟩

theorem run_trailing {phase last : MessagePhase} {events : List ParserEvent}
    (incomplete : ∀ fields, .notify .chunkComplete fields ∉ events)
    (behind : phase.trailing = true) (ran : phase.run events = some last) :
    ParserEvent.bodyText events = [] := by
  induction events generalizing phase with
  | nil => rfl
  | cons event events continued =>
      rw [run] at ran
      obtain ⟨next, step, ran⟩ := Option.bind_eq_some_iff.mp ran
      rcases event_trailing behind step with ⟨silent, still⟩ | ⟨fields, rfl⟩
      · rw [silent]
        exact continued (fun fields found => incomplete fields (List.mem_cons_of_mem _ found))
          still ran
      · exact absurd List.mem_cons_self (incomplete fields)

theorem event_ended {event : ParserEvent} {next : MessagePhase}
    (step : ended.event event = some next) : ∃ fields, event = .notify .messageComplete fields := by
  cases event with
  | notify notice fields => cases notice <;> first | exact ⟨fields, rfl⟩ | cases step
  | headersComplete fields => cases step
  | data piece text => cases piece <;> cases step

/-- A body of a known length lets nothing through but its characters until it is complete. -/
theorem run_length {left : Nat} {events : List ParserEvent} {last : MessagePhase}
    (incomplete : ∀ fields, .notify .messageComplete fields ∉ events)
    (ran : (length left).run events = some last) :
    ∃ rest, last = .length rest ∧ rest + (ParserEvent.bodyText events).length = left := by
  induction events generalizing left with
  | nil =>
      obtain rfl := Option.some.inj ran
      exact ⟨left, rfl, rfl⟩
  | cons event events continued =>
      rw [run] at ran
      obtain ⟨next, step, ran⟩ := Option.bind_eq_some_iff.mp ran
      rcases event_length step with ⟨text, rfl, fits, rfl⟩ | ⟨fields, rfl⟩
      · obtain ⟨rest, same, total⟩ :=
          continued (fun fields found => incomplete fields (List.mem_cons_of_mem _ found)) ran
        refine ⟨rest, same, ?_⟩
        rw [ParserEvent.bodyText, List.length_append]
        omega
      · exact absurd List.mem_cons_self (incomplete fields)

/-- So does a chunk. -/
theorem run_chunk {left : Nat} {events : List ParserEvent} {last : MessagePhase}
    (incomplete : ∀ fields, .notify .chunkComplete fields ∉ events)
    (ran : (chunk left).run events = some last) :
    ∃ rest, last = .chunk rest ∧ rest + (ParserEvent.bodyText events).length = left := by
  induction events generalizing left with
  | nil =>
      obtain rfl := Option.some.inj ran
      exact ⟨left, rfl, rfl⟩
  | cons event events continued =>
      rw [run] at ran
      obtain ⟨next, step, ran⟩ := Option.bind_eq_some_iff.mp ran
      rcases event_chunk step with ⟨text, rfl, fits, rfl⟩ | ⟨fields, rfl⟩
      · obtain ⟨rest, same, total⟩ :=
          continued (fun fields found => incomplete fields (List.mem_cons_of_mem _ found)) ran
        refine ⟨rest, same, ?_⟩
        rw [ParserEvent.bodyText, List.length_append]
        omega
      · exact absurd List.mem_cons_self (incomplete fields)

/-- How long a body is, where that is known. -/
def announced : MessagePhase → Option Nat
  | .length left => some left
  | .ended => some 0
  | _ => none

end MessagePhase

namespace HttpParser

variable {settings : ParserSettings σ} {type : ParserType} {initial user : σ}
  {parser : HttpParser} {events before middle after : List ParserEvent}
  {fields completed : ParserFields}

/-- The phases around a part of the callbacks of a run. -/
theorem Reached.phases_around
    (reached : Reached settings.recorded type (initial, []) parser (user, events))
    {first last : ParserEvent} (around : events = before ++ first :: (middle ++ last :: after)) :
    ∃ phase opened closed next : MessagePhase, phase.event first = some opened ∧
      opened.run middle = some closed ∧ closed.event last = some next := by
  obtain ⟨final, ran, -⟩ := reached.sound settings.recorded_watched rfl
  rw [around, MessagePhase.run_append] at ran
  obtain ⟨phase, -, ran⟩ := Option.bind_eq_some_iff.mp ran
  rw [MessagePhase.run] at ran
  obtain ⟨opened, begins, ran⟩ := Option.bind_eq_some_iff.mp ran
  rw [MessagePhase.run_append] at ran
  obtain ⟨closed, goes, ran⟩ := Option.bind_eq_some_iff.mp ran
  rw [MessagePhase.run] at ran
  obtain ⟨next, ends, -⟩ := Option.bind_eq_some_iff.mp ran
  exact ⟨phase, opened, closed, next, begins, goes, ends⟩

/--
Of every message that a run completes, exactly as many characters of a body are called back
for as its headers announce.
-/
theorem Reached.body_length
    (reached : Reached settings.recorded type (initial, []) parser (user, events))
    (around : events =
      before ++ .headersComplete fields ::
        (middle ++ .notify .messageComplete completed :: after))
    (incomplete : ∀ fields, .notify .messageComplete fields ∉ middle) {length : Nat}
    (announced : (MessagePhase.afterHead fields).announced = some length) :
    (ParserEvent.bodyText middle).length = length := by
  obtain ⟨phase, opened, closed, next, begins, goes, ends⟩ := reached.phases_around around
  obtain rfl : opened = .afterHead fields := by
    rw [MessagePhase.event] at begins
    unfold MessagePhase.headersComplete at begins
    split at begins
    · exact (Option.some.inj begins).symm
    · exact (Option.some.inj begins).symm
    · cases begins
  cases phases : MessagePhase.afterHead fields with
  | length left =>
      rw [phases] at announced goes
      obtain rfl := Option.some.inj announced
      obtain ⟨rest, rfl, total⟩ := MessagePhase.run_length incomplete goes
      cases rest with
      | zero => exact (Nat.zero_add _).symm.trans total
      | succ rest => cases ends
  | ended =>
      rw [phases] at announced goes
      obtain rfl := Option.some.inj announced
      cases middle with
      | nil => rfl
      | cons event middle =>
          rw [MessagePhase.run] at goes
          obtain ⟨next, step, -⟩ := Option.bind_eq_some_iff.mp goes
          obtain ⟨fields, rfl⟩ := MessagePhase.event_ended step
          exact absurd List.mem_cons_self (incomplete fields)
  | idle | head _ | field _ | value _ | untilEof | chunks | chunk _ =>
      rw [phases] at announced
      cases announced

/-- The fields of a request behind its headers. -/
def framedFields (headerState : HeaderState) (index : Nat) (contentLength : UInt64) :
    ParserFields :=
  { (init .request).fields with
    flags :=
      { ParserFlags.none with
        chunked := headerState == .transferEncodingChunked
        contentLength := headerState == .contentLengthNum }
    headerState := headerState
    index := index
    contentLength := contentLength
    httpMinor := 9
    method := .post }

/-- A request with a body of one character. -/
def posted : List Byte :=
  ascii "POST /\nContent-Length: 1\n\nx"

theorem body_length_posted : (ParserEvent.bodyText [.data .body (ascii "x")]).length = 1 := by
  have ended : (once posted).isSome := by decide +kernel
  have around : ((once posted).get ended).2.2.2 =
      ((once posted).get ended).2.2.2.take 4 ++
        .headersComplete (framedFields .contentLengthNum 0 1) ::
          ([.data .body (ascii "x")] ++
            .notify .messageComplete (framedFields .contentLengthNum 0 0) :: []) := by
    decide +kernel +revert
  exact (reached_once ended).body_length around (by simp) rfl

/-- Of every chunk that a run completes, the last one among them, exactly as many characters
are called back for as are announced in front of it. -/
theorem Reached.chunk_length
    (reached : Reached settings.recorded type (initial, []) parser (user, events))
    (around : events =
      before ++ .notify .chunkHeader fields ::
        (middle ++ .notify .chunkComplete completed :: after))
    (incomplete : ∀ fields, .notify .chunkComplete fields ∉ middle) :
    (ParserEvent.bodyText middle).length = fields.contentLength.toNat := by
  obtain ⟨phase, opened, closed, next, begins, goes, ends⟩ := reached.phases_around around
  by_cases last : fields.contentLength = 0
  · have opens : opened = .head true := by
      cases phase <;> simp [MessagePhase.event, MessagePhase.notify, last] at begins
      exact begins.symm
    rw [MessagePhase.run_trailing incomplete (opens ▸ rfl) goes, last]
    rfl
  · obtain rfl : opened = .chunk fields.contentLength.toNat := by
      cases phase <;> simp [MessagePhase.event, MessagePhase.notify, last] at begins
      exact begins.symm
    obtain ⟨rest, rfl, total⟩ := MessagePhase.run_chunk incomplete goes
    cases rest with
    | zero => exact (Nat.zero_add _).symm.trans total
    | succ rest => cases ends

/-- A request with the same body in chunks. -/
def chunked : List Byte :=
  ascii "POST /\nTransfer-Encoding: chunked\n\n1\r\nx\r\n0\r\n\n"

theorem chunk_length_chunked : (ParserEvent.bodyText [.data .body (ascii "x")]).length = 1 := by
  have ended : (once chunked).isSome := by decide +kernel
  have around : ((once chunked).get ended).2.2.2 =
      ((once chunked).get ended).2.2.2.take 5 ++
        .notify .chunkHeader (framedFields .transferEncodingChunked 6 1) ::
          ([.data .body (ascii "x")] ++
            .notify .chunkComplete (framedFields .transferEncodingChunked 6 0) ::
              ((once chunked).get ended).2.2.2.drop 8) := by
    decide +kernel +revert
  exact (reached_once ended).chunk_length around (by simp)

end HttpParser

end ReactiveToolbox.Http
