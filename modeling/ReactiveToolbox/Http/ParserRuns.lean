import ReactiveToolbox.Http.ParserPhaseHeaders
import ReactiveToolbox.Http.ParserSplit

/-!
# Runs of the HTTP parser

Whatever the parser is given and whatever its callbacks answer, also where they pause it: its
assertions hold, it stays within the data, and the callbacks follow one another as the phases
of a message say.
-/

namespace ReactiveToolbox.Http

open ReactiveToolbox.Io

universe u

variable {σ : Type u}

/-- The fields after the answer of `on_headers_complete`. -/
def ParserFields.answered (fields : ParserFields) (code : Int) : ParserFields :=
  let fields := if code = 2 then { fields with upgrade := true } else fields
  if code = 1 ∨ code = 2 then fields.withFlags { fields.flags with skipbody := true }
  else fields

theorem ParserFields.answered_trailing (fields : ParserFields) (code : Int) :
    (fields.answered code).flags.trailing = fields.flags.trailing := by
  simp only [answered]
  split_ifs <;> rfl

/-- A relation between phases and the callbacks' own states, which every callback that a phase
expects keeps. -/
structure ParserSettings.Watched (settings : ParserSettings σ) (At : MessagePhase → σ → Prop) :
    Prop where
  notify : ∀ {phase next : MessagePhase} {notice : Notice} {fields : ParserFields} {user : σ},
    At phase user → phase.notify notice fields = some next →
      At next (settings.notify notice fields user).2
  headersComplete : ∀ {phase next : MessagePhase} {fields : ParserFields} {user : σ},
    At phase user →
      phase.headersComplete (fields.answered (settings.headersComplete fields user).1.code) =
        some next →
      At next (settings.headersComplete fields user).2
  data : ∀ {phase next : MessagePhase} {piece : Piece} {text : List Byte} {user : σ},
    At phase user → phase.data piece text.length = some next →
      At next (settings.data piece text user).2

theorem Piece.errno_error (piece : Piece) : piece.errno ≠ .ok ∧ piece.errno ≠ .paused := by
  cases piece <;> exact ⟨HttpErrno.noConfusion, HttpErrno.noConfusion⟩

theorem Notice.errno_error (notice : Notice) :
    notice.errno ≠ .ok ∧ notice.errno ≠ .paused := by
  cases notice <;> exact ⟨HttpErrno.noConfusion, HttpErrno.noConfusion⟩

/-! ## Texts at the end of the data -/

/-- A text that has begun is one that the phase expects, and the state stays where it is. -/
theorem Located.flush {state : ParserState} {nread : Nat} {fields : ParserFields}
    {piece : Piece} {amount : Nat} {phase : MessagePhase}
    (located : Located state nread fields amount phase) (marked : Marked true state (some piece)) :
    ∃ next, phase.data piece amount = some next ∧
      ∀ nread, Located state nread fields 0 next := by
  rcases marked with resumes | ⟨-, body, same⟩
  · cases state
    case url state =>
      cases state
      case dead | reqSpacesBeforeUrl => cases resumes
      all_goals
        obtain rfl := Option.some.inj resumes
        obtain ⟨rfl, plain⟩ := located
        exact ⟨.head false, rfl, fun _ => ⟨rfl, plain⟩⟩
    case resStatus =>
      obtain rfl := Option.some.inj resumes
      obtain ⟨rfl, plain⟩ := located
      exact ⟨.head false, rfl, fun _ => ⟨rfl, plain⟩⟩
    case headerField =>
      obtain rfl := Option.some.inj resumes
      refine ⟨.field fields.flags.trailing, ?_, fun _ => ⟨.inr (.inl rfl), located.2⟩⟩
      rcases located.1 with rfl | rfl | rfl
      · exact MessagePhase.data_head _ _
      · rfl
      · rfl
    case headerValue =>
      obtain rfl := Option.some.inj resumes
      refine ⟨.value fields.flags.trailing, ?_, fun _ => ⟨.inr rfl, located.2⟩⟩
      rcases located.1 with rfl | rfl
      · rfl
      · rfl
    all_goals cases resumes
  · obtain rfl := Option.some.inj same
    cases state
    case bodyIdentity =>
      obtain ⟨rfl, valid⟩ := located
      refine ⟨.length fields.contentLength.toNat, ?_, fun _ => ⟨rfl, valid⟩⟩
      rw [MessagePhase.data_length (Nat.le_add_left _ _), Nat.add_sub_cancel]
    case bodyIdentityEof =>
      obtain rfl : phase = .untilEof := located
      exact ⟨.untilEof, rfl, fun _ => rfl⟩
    case chunkData =>
      obtain ⟨rfl, valid⟩ := located
      refine ⟨.chunk fields.contentLength.toNat, ?_, fun _ => ⟨rfl, valid⟩⟩
      rw [MessagePhase.data_chunk (Nat.le_add_left _ _), Nat.add_sub_cancel]
    case chunkDataAlmostDone =>
      obtain ⟨rfl, valid⟩ := located
      refine ⟨.chunk 0, ?_, fun _ => ⟨rfl, valid⟩⟩
      rw [MessagePhase.data_chunk (Nat.le_refl _), Nat.sub_self]
    all_goals cases body

/-! ## Handlings -/

namespace Execution

variable {settings : ParserSettings σ} {At : MessagePhase → σ → Prop} {data : List Byte}

/-- An execution in a phase, within its data, with the text that has begun. -/
structure Tracks (At : MessagePhase → σ → Prop) (data : List Byte) (execution : Execution σ)
    (phase : MessagePhase) (held : Held) : Prop where
  user : At phase execution.user
  within : execution.p ≤ data.length
  started : held.passed ≤ execution.p
  mark : execution.mark = markAt (execution.p - held.passed) held.mark

end Execution

open Execution in
/-- What an execution has come to: it goes on, where its state is located, or it has returned,
and then the parser is located unless there is an error. -/
def Outcome.Sound (At : MessagePhase → σ → Prop) (data : List Byte) : Outcome σ → Prop
  | .running execution =>
      ∃ phase held, execution.Tracks At data phase held ∧
        Marked true execution.state held.mark ∧
        Located execution.state execution.nread execution.fields held.passed phase
  | .returned consumed parser user =>
      consumed ≤ data.length ∧ ∃ phase, At phase user ∧
        (parser.httpErrno = .ok ∨ parser.httpErrno = .paused →
          Located parser.state parser.nread parser.fields 0 phase)
  | .aborted => False

namespace Execution

variable {settings : ParserSettings σ} {At : MessagePhase → σ → Prop} {data : List Byte}
  {execution : Execution σ} {phase next : MessagePhase} {held : Held}

namespace Tracks

/-- The marks, the position and the callbacks' state are all that is tracked. -/
theorem of_eq (tracks : execution.Tracks At data phase held) {other : Execution σ}
    (p : other.p = execution.p) (mark : other.mark = execution.mark)
    (user : other.user = execution.user) : other.Tracks At data phase held where
  user := user ▸ tracks.user
  within := p ▸ tracks.within
  started := p ▸ tracks.started
  mark := by rw [mark, p, tracks.mark]

theorem setUser (tracks : execution.Tracks At data phase held) {user : σ} (told : At next user) :
    Tracks At data { execution with user := user } next held :=
  { tracks with user := told }

theorem pass (tracks : execution.Tracks At data phase held) {amount : Nat}
    (few : amount ≤ data.length - execution.p) :
    Tracks At data { execution with p := execution.p + amount } phase (held.pass amount) where
  user := tracks.user
  within := by
    have within := tracks.within
    show execution.p + amount ≤ _
    omega
  started := by
    have started := tracks.started
    cases held with
    | none => exact Nat.zero_le _
    | some text => exact Nat.add_le_add_right started amount
  mark := by
    have mark := tracks.mark
    cases held with
    | none => exact mark.trans (markAt_none_eq _ _)
    | some text =>
        rw [mark]
        congr 1
        exact (Nat.add_sub_add_right _ _ _).symm

theorem opened (tracks : execution.Tracks At data phase none) (piece : Piece) :
    (execution.setMark piece (some execution.p)).Tracks At data phase (some (piece, 0)) where
  user := tracks.user
  within := tracks.within
  started := Nat.zero_le _
  mark := by
    rw [setMark, tracks.mark]
    exact update_markAt_none _ _ _

theorem closed {piece : Piece} {amount : Nat}
    (tracks : execution.Tracks At data phase (some (piece, amount))) :
    (execution.setMark piece none).Tracks At data phase none where
  user := tracks.user
  within := tracks.within
  started := Nat.zero_le _
  mark := by
    rw [setMark, tracks.mark]
    exact update_markAt_some _ _

/-- The text that has begun, with some of the characters behind the position. -/
theorem marked_length {piece : Piece} {amount : Nat}
    (tracks : execution.Tracks At data phase (some (piece, amount))) {more : Nat}
    (few : more ≤ data.length - execution.p) :
    (execution.marked data (execution.p - amount) more).length = amount + more := by
  have within := tracks.within
  have started : amount ≤ execution.p := tracks.started
  rw [marked, List.length_take, List.length_drop]
  omega

end Tracks

theorem failed_sound (tracks : execution.Tracks At data phase held) {errno : HttpErrno}
    (ok : errno ≠ .ok) (paused : errno ≠ .paused) (state : ParserState)
    (fields : ParserFields) : (execution.failed errno state fields).Sound At data :=
  ⟨tracks.within, phase, tracks.user, fun either => absurd either (not_or.mpr ⟨ok, paused⟩)⟩

/-- A callback that has answered. -/
theorem answered_sound (tracks : execution.Tracks At data phase held) (reply : Reply)
    {error : HttpErrno} (ok : error ≠ .ok) (paused : error ≠ .paused) {passed : Nat}
    (few : passed ≤ data.length - execution.p) {state : ParserState} {fields : ParserFields}
    (pauses : Located state execution.stored fields 0 phase) {go : Execution σ → Outcome σ}
    (continued : (go { execution with state := state, fields := fields }).Sound At data) :
    (execution.answered reply error passed state fields go).Sound At data := by
  have within := tracks.within
  rw [answered]
  split
  · refine ⟨by omega, phase, tracks.user, ?_⟩
    dsimp only
    intro either
    rw [Reply.errno] at either
    split at either
    · exact absurd either (not_or.mpr ⟨ok, paused⟩)
    · rename_i succeeded
      rw [if_neg succeeded]
      exact pauses
  · exact continued

theorem callData_sound (watched : settings.Watched At) {piece : Piece} {amount : Nat}
    (tracks : execution.Tracks At data phase (some (piece, amount))) {more passed : Nat}
    (more_left : more ≤ data.length - execution.p)
    (passed_left : passed ≤ data.length - execution.p) {state : ParserState}
    {fields : ParserFields} (step : phase.data piece (amount + more) = some next)
    (pauses : Located state execution.stored fields 0 next) {go : Execution σ → Outcome σ}
    (continued : ∀ user, At next user →
      (go ({ execution with
        state := state
        fields := fields
        user := user }.setMark piece none)).Sound At data) :
    (execution.callData settings data piece more passed state fields go).Sound At data := by
  have marked : execution.mark piece = some (execution.p - amount) := by
    rw [tracks.mark]
    exact markAt_self _ _
  have told : At next (settings.data piece (execution.marked data (execution.p - amount) more)
      execution.user).2 := by
    apply watched.data tracks.user
    rw [tracks.marked_length more_left]
    exact step
  rw [callData, marked]
  exact answered_sound (tracks.setUser told) _ piece.errno_error.1 piece.errno_error.2
    passed_left pauses (continued _ told)

theorem overflow_sound (tracks : execution.Tracks At data phase held) (nread : Nat)
    (state : ParserState) (fields : ParserFields) :
    ({ execution with nread := nread }.failed .headerOverflow state fields).Sound At data := by
  have counted : Tracks At data { execution with nread := nread } phase held :=
    tracks.of_eq rfl rfl rfl
  exact failed_sound counted HttpErrno.noConfusion HttpErrno.noConfusion state fields

/-- A handling that keeps to the marks and to the phases. -/
theorem perform_sound (watched : settings.Watched At) {ahead : Bool} (handling : Handling)
    (disciplined : handling.Disciplined ahead held.mark)
    (conforms : handling.Conforms (data.length - execution.p) execution.nread execution.stored
      phase held)
    (tracks : execution.Tracks At data phase held) :
    (execution.perform settings data handling).Sound At data := by
  induction handling generalizing execution phase held with
  | next state fields =>
      obtain ⟨some_left, located⟩ := conforms
      have marked : Marked true state (held.pass 1).mark := by
        have suits : Marked true state held.mark :=
          disciplined.imp_right fun body => ⟨rfl, body.2⟩
        cases held with
        | none => exact suits
        | some text => exact suits
      exact ⟨phase, held.pass 1, (tracks.pass some_left).of_eq rfl rfl rfl, marked, located⟩
  | fail errno state fields => exact failed_sound tracks conforms.1 conforms.2 state fields
  | exit state fields =>
      have within := tracks.within
      obtain ⟨some_left, located⟩ := conforms
      exact ⟨by omega, phase, tracks.user, fun _ => located⟩
  | assert holds after continued =>
      obtain ⟨rfl, conforms⟩ := conforms
      exact continued disciplined conforms tracks
  | count amount state fields after continued =>
      rw [perform]
      split
      · exact overflow_sound tracks _ _ _
      · exact continued disciplined (conforms _) (tracks.of_eq rfl rfl rfl)
  | resetNread after continued =>
      exact continued disciplined conforms (tracks.of_eq rfl rfl rfl)
  | mark piece after continued =>
      obtain ⟨suits, disciplined⟩ := disciplined
      cases held with
      | none =>
          rw [perform, if_pos (by rw [tracks.mark]; rfl)]
          refine continued ?_ conforms (tracks.opened piece)
          exact disciplined
      | some text =>
          have same : text.1 = piece :=
            Option.some.inj (suits.resolve_left (Option.some_ne_none _))
          have marked : execution.mark piece ≠ none := by
            rw [tracks.mark, ← same]
            exact fun none => Option.some_ne_none _ ((markAt_self _ _).symm.trans none)
          rw [perform, if_neg marked]
          rw [← same] at disciplined
          refine continued ?_ conforms tracks
          exact disciplined
  | advance amount after continued =>
      obtain ⟨few, conforms⟩ := conforms
      apply continued _ _ (tracks.pass few)
      · cases held with
        | none => exact disciplined.2
        | some text => exact disciplined.2
      · rw [Nat.sub_sub] at conforms
        exact conforms
  | data piece more passed state fields after continued =>
      obtain ⟨-, disciplined⟩ := disciplined
      by_cases marked : held.mark = some piece
      · obtain ⟨amount, rfl⟩ := Held.eq_some marked
        rw [Handling.Conforms, if_pos marked] at conforms
        rw [if_pos marked] at disciplined
        obtain ⟨next, step, more_left, passed_left, pauses, conforms⟩ := conforms
        apply callData_sound watched tracks more_left passed_left step pauses
        intro user told
        refine continued ?_ conforms ((tracks.setUser told).closed.of_eq rfl rfl rfl)
        exact disciplined
      · rw [Handling.Conforms, if_neg marked] at conforms
        rw [if_neg marked] at disciplined
        have unmarked : execution.mark piece = none := by
          rw [tracks.mark, markAt_ne marked]
        rw [perform, callData_unmarked unmarked]
        exact continued disciplined conforms (tracks.of_eq rfl rfl rfl)
  | notify notice passed state fields after continued =>
      obtain ⟨unmarked, disciplined⟩ := disciplined
      obtain ⟨next, step, passed_left, pauses, conforms⟩ := conforms
      have told := watched.notify tracks.user step
      rw [← unmarked] at disciplined
      exact answered_sound (tracks.setUser told) _ notice.errno_error.1 notice.errno_error.2
        passed_left pauses
        (continued disciplined conforms ((tracks.setUser told).of_eq rfl rfl rfl))
  | headersComplete state fields after continued =>
      obtain ⟨unmarked, disciplined⟩ := disciplined
      obtain ⟨next, step, located, conforms⟩ := conforms
        (fields.answered (settings.headersComplete fields execution.user).1.code)
        (fields.answered_trailing _)
      have told := watched.headersComplete tracks.user step
      have behind := tracks.setUser told
      rw [← unmarked] at disciplined
      rw [perform]
      dsimp only [headersAnswered]
      split
      · exact failed_sound behind HttpErrno.noConfusion HttpErrno.noConfusion _ _
      · split
        · exact ⟨tracks.within, next, told, fun _ => located⟩
        · exact continued _ (disciplined _) conforms (behind.of_eq rfl rfl rfl)

/-! ## Rounds and loops -/

theorem round_sound (watched : settings.Watched At) (tracks : execution.Tracks At data phase held)
    (marked : Marked true execution.state held.mark)
    (located : Located execution.state execution.nread execution.fields held.passed phase) :
    (execution.round settings data).Sound At data := by
  rw [round]
  cases dropped : data.drop execution.p with
  | nil => exact ⟨phase, held, tracks, marked, located⟩
  | cons ch rest =>
      have left : data.length - execution.p = rest.length + 1 := by
        rw [← List.length_drop, dropped, List.length_cons]
      dsimp only
      cases parsing : execution.state.parsingHeader with
      | false =>
          rw [if_neg Bool.false_ne_true]
          apply perform_sound watched _ (disciplined_handle _ _ _ _ _ _ marked) _ tracks
          rw [left]
          exact conforms_handle _ _ _ _ _ marked located (by rw [parsing]; rfl)
      | true =>
          rw [if_pos rfl]
          split
          · exact overflow_sound tracks _ _ _
          · apply perform_sound watched _ (disciplined_handle _ _ _ _ _ _ marked)
            · dsimp only
              rw [left]
              exact conforms_handle _ _ _ _ _ marked located (by rw [parsing]; rfl)
            · exact tracks.of_eq rfl rfl rfl

end Execution

open Execution in
theorem Outcome.Sound.andThen {At : MessagePhase → σ → Prop} {data : List Byte}
    {outcome : Outcome σ} (sound : outcome.Sound At data)
    {go : Execution σ → Outcome σ}
    (continued : ∀ execution phase held, Tracks At data execution phase held →
      Marked true execution.state held.mark →
      Located execution.state execution.nread execution.fields held.passed phase →
      (go execution).Sound At data) :
    (outcome.andThen go).Sound At data := by
  cases outcome with
  | running execution =>
      obtain ⟨phase, held, tracks, marked, located⟩ := sound
      exact continued execution phase held tracks marked located
  | returned consumed parser user => exact sound
  | aborted => exact sound

namespace Execution

variable {settings : ParserSettings σ} {At : MessagePhase → σ → Prop} {data : List Byte}
  {execution : Execution σ} {phase next : MessagePhase} {held : Held}

theorem loop_sound (watched : settings.Watched At) (fuel : Nat)
    (tracks : execution.Tracks At data phase held)
    (marked : Marked true execution.state held.mark)
    (located : Located execution.state execution.nread execution.fields held.passed phase) :
    (execution.loop settings data fuel).Sound At data := by
  induction fuel generalizing execution phase held with
  | zero => exact ⟨phase, held, tracks, marked, located⟩
  | succ fuel continued =>
      rw [loop]
      split
      · exact ⟨phase, held, tracks, marked, located⟩
      · apply (round_sound watched tracks marked located).andThen
        intro execution phase held tracks marked located
        exact continued tracks marked located

/-- A loop that goes on has come to the end of the data. -/
theorem loop_ends (watched : settings.Watched At) {fuel : Nat}
    (tracks : execution.Tracks At data phase held)
    (marked : Marked true execution.state held.mark)
    (located : Located execution.state execution.nread execution.fields held.passed phase)
    (enough : data.length - execution.p ≤ fuel) {after : Execution σ}
    (ran : execution.loop settings data fuel = .running after) : after.p = data.length := by
  have within := tracks.within
  induction fuel generalizing execution phase held with
  | zero =>
      obtain rfl := Outcome.running.inj ran
      omega
  | succ fuel continued =>
      rw [loop] at ran
      split at ran
      · rename_i ended
        obtain rfl := Outcome.running.inj ran
        exact ended
      · rename_i some_left
        have sound := round_sound watched tracks marked located
        cases round : execution.round settings data with
        | running next =>
            rw [round] at ran sound
            obtain ⟨phase, held, nextTracks, nextMarked, nextLocated⟩ := sound
            have further := round_progress round (within.lt_of_ne some_left)
            exact continued nextTracks nextMarked nextLocated (by omega) ran nextTracks.within
        | returned consumed parser user =>
            rw [round] at ran
            cases ran
        | aborted =>
            rw [round] at ran
            cases ran

end Execution

/-! ## The end of the data -/

namespace Execution

variable {settings : ParserSettings σ} {At : MessagePhase → σ → Prop} {data : List Byte}
  {execution : Execution σ} {phase next : MessagePhase} {held : Held}

theorem leftover_sound (tracks : execution.Tracks At data phase none)
    (p : execution.p = data.length) {state : ParserState} {fields : ParserFields}
    (located : Located state execution.nread fields 0 phase) (remaining : List Piece) :
    (execution.leftover settings data state fields remaining).Sound At data := by
  induction remaining generalizing execution with
  | nil => exact ⟨Nat.le_refl _, phase, tracks.user, fun _ => located⟩
  | cons piece remaining continued =>
      rw [leftover, callData_unmarked (by rw [tracks.mark]; rfl)]
      exact continued (tracks.of_eq rfl rfl rfl) p located

/-- At the end there is a callback for the text that has begun. -/
theorem leftover_held (watched : settings.Watched At) {piece : Piece} {amount : Nat}
    (tracks : execution.Tracks At data phase (some (piece, amount)))
    (p : execution.p = data.length) {state : ParserState} {fields : ParserFields}
    (step : phase.data piece amount = some next)
    (located : ∀ nread, Located state nread fields 0 next) (remaining : List Piece)
    (listed : piece ∈ remaining) :
    (execution.leftover settings data state fields remaining).Sound At data := by
  induction remaining generalizing execution with
  | nil => exact absurd listed List.not_mem_nil
  | cons other remaining continued =>
      rw [leftover]
      by_cases same : piece = other
      · subst same
        apply callData_sound watched tracks (Nat.zero_le _) (Nat.zero_le _) step (located _)
        intro user told
        apply leftover_sound
        · exact (tracks.setUser told).closed.of_eq rfl rfl rfl
        · exact p
        · exact located _
      · have unmarked : execution.mark other = none := by
          rw [tracks.mark]
          exact markAt_ne fun equal => same (Option.some.inj equal)
        rw [callData_unmarked unmarked]
        exact continued (tracks.of_eq rfl rfl rfl) p ((List.mem_cons.mp listed).resolve_left same)

theorem leftover_returns (execution : Execution σ) (state : ParserState)
    (fields : ParserFields) (remaining : List Piece) (after : Execution σ) :
    execution.leftover settings data state fields remaining ≠ .running after := by
  induction remaining generalizing execution with
  | nil =>
      intro goes
      cases goes
  | cons piece remaining continued =>
      rw [leftover, callData]
      split
      · exact continued _
      · dsimp only [answered]
        split
        · intro goes
          cases goes
        · exact continued _

theorem finish_returns (execution after : Execution σ) :
    execution.finish settings data ≠ .running after := by
  rw [finish]
  split
  · exact leftover_returns _ _ _ _ _
  · intro goes
    cases goes

theorem finish_sound (watched : settings.Watched At)
    (tracks : execution.Tracks At data phase held) (p : execution.p = data.length)
    (marked : Marked true execution.state held.mark)
    (located : Located execution.state execution.nread execution.fields held.passed phase) :
    (execution.finish settings data).Sound At data := by
  rw [finish, tracks.mark, if_pos (markAt_count _ _)]
  cases held with
  | none => exact leftover_sound tracks p located _
  | some text =>
      obtain ⟨piece, amount⟩ := text
      obtain ⟨next, step, behind⟩ := located.flush marked
      apply leftover_held watched tracks p step behind
      cases piece <;> simp [pieces]

end Execution

namespace HttpParser

open Execution

variable {settings : ParserSettings σ} {At : MessagePhase → σ → Prop} {data : List Byte}
  {parser next : HttpParser} {user left : σ} {consumed : Nat}

/-- A parser is where a phase of its message is, or it has an error. -/
def Sound (At : MessagePhase → σ → Prop) (parser : HttpParser) (user : σ) : Prop :=
  ∃ phase, At phase user ∧
    (parser.httpErrno = .ok ∨ parser.httpErrno = .paused →
      Located parser.state parser.nread parser.fields 0 phase)

theorem init_sound (type : ParserType) (idle : At .idle user) : (init type).Sound At user := by
  refine ⟨.idle, idle, fun _ => ?_⟩
  cases type <;> rfl

theorem start_tracks (data : List Byte) (parser : HttpParser) {phase : MessagePhase}
    (told : At phase user) :
    (start parser user).Tracks At data phase
      ((resumed parser.state).map fun piece => (piece, 0)) where
  user := told
  within := Nat.zero_le _
  started := by
    cases resumed parser.state <;> exact Nat.le_refl 0
  mark := by
    show markAt 0 (resumed parser.state) = _
    cases resumed parser.state <;> rfl

/-- The end of the data is one at the end of a message, or an error. -/
theorem executeEof_sound (watched : settings.Watched At) (sound : parser.Sound At user)
    (ok : parser.httpErrno = .ok) :
    ∃ consumed next left, parser.executeEof settings user = .returned consumed next left ∧
      next.Sound At left := by
  obtain ⟨phase, told, locates⟩ := sound
  have located := locates (.inl ok)
  rw [executeEof]
  split
  · rename_i state
    rw [state] at located
    obtain rfl : phase = .untilEof := located
    have heard : At .untilEof (settings.notify .messageComplete parser.fields user).2 :=
      watched.notify told rfl
    dsimp only [answered]
    split
    · exact ⟨_, _, _, rfl, .untilEof, heard, fun _ => rfl⟩
    · exact ⟨_, _, _, rfl, .untilEof, heard, fun _ => by rw [state]; rfl⟩
  · exact ⟨_, _, _, rfl, phase, told, locates⟩
  · exact ⟨_, _, _, rfl, phase, told, locates⟩
  · exact ⟨_, _, _, rfl, phase, told, locates⟩
  · exact ⟨_, _, _, rfl, phase, told, locates⟩
  · refine ⟨_, _, _, rfl, phase, told, fun either => ?_⟩
    rcases either with wrong | wrong
    · cases wrong
    · cases wrong

/-- Whatever the parser is given, it returns, within the data, and where a phase is. -/
theorem execute_sound (watched : settings.Watched At) (sound : parser.Sound At user)
    (data : List Byte) :
    ∃ consumed next left, parser.execute settings data user = .returned consumed next left ∧
      (data ≠ [] → consumed ≤ data.length) ∧ next.Sound At left := by
  rw [execute]
  split
  · exact ⟨0, parser, user, rfl, fun _ => Nat.zero_le _, sound⟩
  · rename_i ok
    have ok : parser.httpErrno = .ok := not_not.mp ok
    split
    · rename_i empty
      obtain ⟨consumed, next, left, ended, sound⟩ := executeEof_sound watched sound ok
      exact ⟨consumed, next, left, ended,
        fun some_data => absurd (List.length_eq_zero_iff.mp empty) some_data, sound⟩
    · obtain ⟨phase, told, locates⟩ := sound
      have tracks := start_tracks data parser told
      have marked : Marked true (start parser user).state
          (Held.mark ((resumed parser.state).map fun piece => (piece, 0))) := by
        left
        show _ = resumed parser.state
        cases resumed parser.state <;> rfl
      have located : Located (start parser user).state (start parser user).nread
          (start parser user).fields
          (Held.passed ((resumed parser.state).map fun piece => (piece, 0))) phase := by
        have none_passed :
            Held.passed ((resumed parser.state).map fun piece => (piece, 0)) = 0 := by
          cases resumed parser.state <;> rfl
        rw [none_passed]
        exact locates (.inl ok)
      have looped := loop_sound watched data.length tracks marked located
      cases ran : (start parser user).loop settings data data.length with
      | running after =>
          rw [ran] at looped
          have ended := loop_ends watched tracks marked located (Nat.sub_le _ _) ran
          obtain ⟨phase, held, tracks, marked, located⟩ := looped
          have finished := finish_sound watched tracks ended marked located
          show ∃ consumed next left, after.finish settings data = _ ∧ _
          cases result : after.finish settings data with
          | running _ => exact absurd result (finish_returns _ _)
          | returned consumed next left =>
              rw [result] at finished
              exact ⟨consumed, next, left, rfl, fun _ => finished.1, finished.2⟩
          | aborted =>
              rw [result] at finished
              exact finished.elim
      | returned consumed next left =>
          rw [ran] at looped
          exact ⟨consumed, next, left, rfl, fun _ => looped.1, looped.2⟩
      | aborted =>
          rw [ran] at looped
          exact looped.elim

end HttpParser

end ReactiveToolbox.Http
