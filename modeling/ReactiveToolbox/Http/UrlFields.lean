import ReactiveToolbox.Http.UrlParser

/-!
# What a parse of a URL writes

A parse into a used `http_parser_url` differs from a parse into a fresh one only
in the components that the URL does not have: they keep the offset and the
length that were there.  The components that a valid URL has are not empty and
lie within the URL.
-/

namespace ReactiveToolbox.Http

open ReactiveToolbox.Io

namespace HttpParserUrl

/-! ## What a used result keeps -/

/-- A result whose missing components are filled in from an older one. -/
def overlay (stale url : HttpParserUrl) : HttpParserUrl :=
  { url with
    fieldData := fun field =>
      if url.fieldSet field = true then url.fieldData field else stale.fieldData field }

@[simp]
theorem overlay_fieldSet (stale url : HttpParserUrl) :
    (stale.overlay url).fieldSet = url.fieldSet :=
  rfl

@[simp]
theorem overlay_port (stale url : HttpParserUrl) :
    (stale.overlay url).port = url.port :=
  rfl

theorem overlay_fieldData_set (stale : HttpParserUrl) {url : HttpParserUrl} {field : UrlField}
    (marked : url.fieldSet field = true) :
    (stale.overlay url).fieldData field = url.fieldData field :=
  if_pos marked

theorem overlay_fieldData_unset (stale : HttpParserUrl) {url : HttpParserUrl} {field : UrlField}
    (unmarked : url.fieldSet field = false) :
    (stale.overlay url).fieldData field = stale.fieldData field := by
  refine if_neg ?_
  rw [unmarked]
  exact Bool.false_ne_true

theorem overlay_setOff (stale : HttpParserUrl) {url : HttpParserUrl} {field : UrlField}
    (marked : url.fieldSet field = true) (index : Nat) :
    (stale.overlay url).setOff field index = stale.overlay (url.setOff field index) := by
  ext other : 2
  · rfl
  · rfl
  · by_cases same : other = field
    · subst same
      simp [setOff, overlay, marked]
    · simp [setOff, overlay, same]

theorem overlay_setLen (stale : HttpParserUrl) {url : HttpParserUrl} {field : UrlField}
    (marked : url.fieldSet field = true) (len : Nat) :
    (stale.overlay url).setLen field len = stale.overlay (url.setLen field len) := by
  ext other : 2
  · rfl
  · rfl
  · by_cases same : other = field
    · subst same
      simp [setLen, overlay, marked]
    · simp [setLen, overlay, same]

theorem overlay_extend (stale : HttpParserUrl) {url : HttpParserUrl} {field : UrlField}
    (marked : url.fieldSet field = true) :
    (stale.overlay url).extend field = stale.overlay (url.extend field) := by
  unfold extend
  rw [overlay_fieldData_set stale marked, overlay_setLen stale marked]

/-- A component that begins anew owes nothing to what was there. -/
theorem overlay_start (stale url : HttpParserUrl) (field : UrlField) (index len : Nat) :
    (stale.overlay url).start field index len = stale.overlay (url.start field index len) := by
  ext other : 2
  · rfl
  · rfl
  · by_cases same : other = field
    · subst same
      simp [start, mark, setOff, setLen, overlay]
    · simp [start, mark, setOff, setLen, overlay, same]

@[simp]
theorem setOff_fieldSet (url : HttpParserUrl) (field : UrlField) (index : Nat) :
    (url.setOff field index).fieldSet = url.fieldSet :=
  rfl

@[simp]
theorem setLen_fieldSet (url : HttpParserUrl) (field : UrlField) (len : Nat) :
    (url.setLen field len).fieldSet = url.fieldSet :=
  rfl

@[simp]
theorem extend_fieldSet (url : HttpParserUrl) (field : UrlField) :
    (url.extend field).fieldSet = url.fieldSet :=
  rfl

@[simp]
theorem start_fieldSet (url : HttpParserUrl) (field : UrlField) (index len : Nat) :
    (url.start field index len).fieldSet = Function.update url.fieldSet field true :=
  rfl

theorem extend_fieldData_of_ne {url : HttpParserUrl} {field other : UrlField}
    (different : other ≠ field) : (url.extend field).fieldData other = url.fieldData other :=
  Function.update_of_ne different ..

theorem extend_fieldData {url : HttpParserUrl} {field : UrlField}
    (short : (url.fieldData field).len + 1 < 2 ^ 16) :
    (url.extend field).fieldData field =
      ⟨(url.fieldData field).off, (url.fieldData field).len + 1⟩ := by
  simp only [extend, setLen, Function.update_self, Nat.mod_eq_of_lt short]

theorem setOff_fieldData {url : HttpParserUrl} {field : UrlField} {index : Nat}
    (short : index < 2 ^ 16) :
    (url.setOff field index).fieldData field = ⟨index, (url.fieldData field).len⟩ := by
  simp only [setOff, Function.update_self, Nat.mod_eq_of_lt short]

theorem setOff_fieldData_of_ne {url : HttpParserUrl} {field other : UrlField} {index : Nat}
    (different : other ≠ field) : (url.setOff field index).fieldData other = url.fieldData other :=
  Function.update_of_ne different ..

theorem start_fieldData {url : HttpParserUrl} {field : UrlField} {index : Nat}
    (short : index < 2 ^ 16) (len : Nat) :
    (url.start field index len).fieldData field = ⟨index, len % 2 ^ 16⟩ := by
  simp only [start, mark, setLen, setOff, Function.update_self, Nat.mod_eq_of_lt short]

theorem start_fieldData_of_ne {url : HttpParserUrl} {field other : UrlField} {index len : Nat}
    (different : other ≠ field) :
    (url.start field index len).fieldData other = url.fieldData other := by
  simp only [start, mark, setLen, setOff, Function.update_of_ne different]

theorem start_marks (url : HttpParserUrl) (field : UrlField) (index len : Nat) :
    (url.start field index len).fieldSet field = true :=
  Function.update_self ..

end HttpParserUrl

open HttpParserUrl

/-- The main loop writes no component that it has not marked. -/
theorem scanUrl_overlay (stale : HttpParserUrl) (state : UrlState)
    (oldField : Option UrlField) (foundAt : Bool) (index : Nat) (bytes : List Byte)
    (url : HttpParserUrl)
    (marked : ∀ field, oldField = some field → url.fieldSet field = true) :
    scanUrl state oldField foundAt index bytes (stale.overlay url) =
      Prod.map id stale.overlay (scanUrl state oldField foundAt index bytes url) := by
  induction bytes generalizing state oldField foundAt index url with
  | nil => rfl
  | cons ch rest continued =>
      simp only [scanUrl]
      cases stepped : (parseUrlChar state ch).step with
      | fail => rfl
      | skip => exact continued _ _ _ _ url marked
      | field field =>
          simp only
          split
          · rename_i same
            rw [overlay_extend stale (marked field same)]
            exact continued _ _ _ _ _ marked
          · rw [overlay_start]
            refine continued _ _ _ _ _ ?_
            rintro other ⟨⟩
            simp

/-- What the states of the host have marked. -/
structure HostMarked (state : HostState) (url : HttpParserUrl) : Prop where
  host : url.fieldSet .host = true
  port : state = .hostPort → url.fieldSet .port = true
  userinfo : state = .userinfo → url.fieldSet .userinfo = true

/-- A byte of the host's name, the first of its kind or not. -/
theorem overlay_nameByte (stale : HttpParserUrl) {url : HttpParserUrl} (continues : Prop)
    [Decidable continues] (index : Nat) (marked : url.fieldSet .host = true) :
    (if continues then stale.overlay url
        else (stale.overlay url).setOff .host index).extend .host =
      stale.overlay ((if continues then url else url.setOff .host index).extend .host) := by
  by_cases same : continues
  · rw [if_pos same, if_pos same, overlay_extend stale marked]
  · rw [if_neg same, if_neg same, overlay_setOff stale marked]
    exact overlay_extend stale marked

/-- A byte of the port or the user information, which may begin with it. -/
theorem overlay_sideByte (stale : HttpParserUrl) {url : HttpParserUrl} {field : UrlField}
    (continues : Prop) [Decidable continues] (index : Nat)
    (marked : continues → url.fieldSet field = true) :
    (if continues then stale.overlay url
        else (stale.overlay url).start field index 0).extend field =
      stale.overlay ((if continues then url else url.start field index 0).extend field) := by
  by_cases same : continues
  · rw [if_pos same, if_pos same, overlay_extend stale (marked same)]
  · rw [if_neg same, if_neg same, overlay_start]
    exact overlay_extend stale (start_marks ..)

theorem markHost_overlay (stale : HttpParserUrl) (state next : HostState) (index : Nat)
    {url : HttpParserUrl} (marked : HostMarked state url) :
    markHost state next index (stale.overlay url) =
      stale.overlay (markHost state next index url) := by
  cases next with
  | host => exact overlay_nameByte stale _ index marked.host
  | hostV6 => exact overlay_nameByte stale _ index marked.host
  | hostV6ZoneStart => exact overlay_extend stale marked.host
  | hostV6Zone => exact overlay_extend stale marked.host
  | hostPort => exact overlay_sideByte stale _ index marked.port
  | userinfo => exact overlay_sideByte stale _ index marked.userinfo
  | dead | userinfoStart | hostStart | hostV6Start | hostV6End | hostPortStart => rfl

theorem markHost_fieldSet_mono {state next : HostState} {index : Nat} {url : HttpParserUrl}
    {field : UrlField} (marked : url.fieldSet field = true) :
    (markHost state next index url).fieldSet field = true := by
  unfold markHost
  cases next <;> simp only <;> try split
  all_goals simp_all [Function.update_apply]

theorem HostMarked.markHost {state next : HostState} {index : Nat} {url : HttpParserUrl}
    (marked : HostMarked state url) : HostMarked next (markHost state next index url) where
  host := markHost_fieldSet_mono marked.host
  port := by
    rintro rfl
    by_cases same : state = .hostPort
    · exact markHost_fieldSet_mono (marked.port same)
    · simp [Http.markHost, same]
  userinfo := by
    rintro rfl
    by_cases same : state = .userinfo
    · exact markHost_fieldSet_mono (marked.userinfo same)
    · simp [Http.markHost, same]

/-- The scan of a host does not depend on what was there before. -/
theorem scanHost_overlay (stale : HttpParserUrl) (state : HostState) (index : Nat)
    (bytes : List Byte) (url : HttpParserUrl) (marked : HostMarked state url) :
    scanHost state index bytes (stale.overlay url) =
      Prod.map id stale.overlay (scanHost state index bytes url) := by
  induction bytes generalizing state index url with
  | nil => rfl
  | cons ch rest continued =>
      simp only [scanHost]
      split
      · rfl
      · rw [markHost_overlay stale state _ index marked]
        exact continued _ _ _ marked.markHost

/-- `http_parse_host` does not depend on what was there before. -/
theorem httpParseHost_overlay (stale : HttpParserUrl) (buf : List Byte) (foundAt : Bool)
    {url : HttpParserUrl} (marked : url.fieldSet .host = true) :
    httpParseHost buf (stale.overlay url) foundAt =
      Prod.map id stale.overlay (httpParseHost buf url foundAt) := by
  have entered : HostMarked (if foundAt then .userinfoStart else .hostStart)
      (url.setLen .host 0) := by
    refine ⟨marked, ?_, ?_⟩ <;> cases foundAt <;> nofun
  simp only [httpParseHost]
  rw [overlay_fieldData_set stale marked, overlay_setLen stale marked,
    scanHost_overlay stale _ _ _ _ entered]
  rcases scanHost _ _ _ (url.setLen .host 0) with ⟨_ | last, scanned⟩ <;> rfl

theorem parsePort_overlay (stale : HttpParserUrl) (buf : List Byte) (url : HttpParserUrl) :
    parsePort buf (stale.overlay url) = Prod.map id stale.overlay (parsePort buf url) := by
  unfold parsePort
  by_cases marked : url.fieldSet .port = true
  · have overlaid : (stale.overlay url).fieldSet .port = true := marked
    rw [if_pos overlaid, if_pos marked, overlay_fieldData_set stale marked]
    simp only
    cases portValue 0 _ <;> rfl
  · have overlaid : ¬(stale.overlay url).fieldSet .port = true := marked
    rw [if_neg overlaid, if_neg marked]
    rfl

/-- Neither does the split into host and port. -/
theorem splitHost_overlay (stale : HttpParserUrl) (buf : List Byte) (foundAt : Bool)
    (url : HttpParserUrl) :
    splitHost buf foundAt (stale.overlay url) =
      Prod.map id stale.overlay (splitHost buf foundAt url) := by
  unfold splitHost
  by_cases marked : url.fieldSet .host = true
  · have overlaid : (stale.overlay url).fieldSet .host = true := marked
    rw [if_pos overlaid, if_pos marked, httpParseHost_overlay stale buf foundAt marked]
  · have overlaid : ¬(stale.overlay url).fieldSet .host = true := marked
    rw [if_neg overlaid, if_neg marked]
    rfl

/-- Neither does the end of the parser. -/
theorem finishUrl_overlay (stale : HttpParserUrl) (buf : List Byte) (isConnect foundAt : Bool)
    (url : HttpParserUrl) :
    finishUrl buf isConnect foundAt (stale.overlay url) =
      Prod.map id stale.overlay (finishUrl buf isConnect foundAt url) := by
  unfold finishUrl
  rw [splitHost_overlay]
  rcases splitHost buf foundAt url with ⟨rc, split⟩
  have sameFields : (stale.overlay split).onlyHostPort = split.onlyHostPort := rfl
  simp only [Prod.map_apply, id, sameFields, parsePort_overlay, apply_ite (Prod.map _ _)]
  rfl

/-- `http_parser_parse_url` reads nothing of the result that it is given. -/
theorem httpParserParseUrl_overlay (stale : HttpParserUrl) {buf : List Byte}
    (nonempty : buf ≠ []) (isConnect : Bool) :
    httpParserParseUrl buf isConnect stale =
      Prod.map id stale.overlay (httpParserParseUrl buf isConnect httpParserUrlInit) := by
  have cleared : { stale with port := 0, fieldSet := fun _ => false } =
      stale.overlay { httpParserUrlInit with port := 0, fieldSet := fun _ => false } := by
    ext <;> simp [overlay]
  have unmarked : ∀ field, none = some field →
      HttpParserUrl.fieldSet { httpParserUrlInit with port := 0, fieldSet := fun _ => false }
        field = true := nofun
  have positive : ¬buf.length = 0 := mt List.length_eq_zero_iff.mp nonempty
  unfold httpParserParseUrl
  rw [if_neg positive, if_neg positive, cleared]
  simp only
  rw [scanUrl_overlay stale _ _ _ _ _ _ unmarked]
  rcases scanUrl _ none false 0 buf _ with ⟨_ | foundAt, scanned⟩
  · rfl
  · exact finishUrl_overlay stale buf isConnect foundAt scanned

/-! ## Where the components lie -/

/-- The components are not empty and end at or before `bound`. -/
def Within (bound : Nat) (url : HttpParserUrl) : Prop :=
  ∀ field, url.fieldSet field = true →
    0 < (url.fieldData field).len ∧ (url.fieldData field).off + (url.fieldData field).len ≤ bound

theorem Within.mono {smaller larger : Nat} {url : HttpParserUrl} (within : Within smaller url)
    (enlarged : smaller ≤ larger) : Within larger url := by
  intro field marked
  rcases within field marked with ⟨positive, ends⟩
  exact ⟨positive, ends.trans enlarged⟩

theorem Within.start {index : Nat} {url : HttpParserUrl} (within : Within index url)
    (short : index < 2 ^ 16) (field : UrlField) : Within (index + 1) (url.start field index 1) := by
  intro other marked
  by_cases same : other = field
  · subst same
    rw [start_fieldData short, Nat.mod_eq_of_lt (by decide : 1 < 2 ^ 16)]
    exact ⟨Nat.one_pos, le_rfl⟩
  · rw [start_fieldSet, Function.update_of_ne same] at marked
    rw [start_fieldData_of_ne same]
    exact within.mono (Nat.le_succ index) other marked

theorem Within.extend {index : Nat} {url : HttpParserUrl} (within : Within index url)
    (short : index + 1 < 2 ^ 16) {field : UrlField} (marked : url.fieldSet field = true) :
    Within (index + 1) (url.extend field) := by
  intro other markedOther
  by_cases same : other = field
  · subst same
    rcases within other marked with ⟨positive, ends⟩
    rw [extend_fieldData (by omega)]
    exact ⟨Nat.succ_pos _, Nat.succ_le_succ ends⟩
  · rw [extend_fieldData_of_ne same]
    exact within.mono (Nat.le_succ index) other markedOther

/-- What the scan marks lies within the URL. -/
theorem scanUrl_within (state : UrlState) (oldField : Option UrlField) (foundAt : Bool)
    (index : Nat) (bytes : List Byte) (url : HttpParserUrl)
    (short : index + bytes.length < 2 ^ 16)
    (marked : ∀ field, oldField = some field → url.fieldSet field = true)
    (within : Within index url) :
    Within (index + bytes.length) (scanUrl state oldField foundAt index bytes url).2 := by
  induction bytes generalizing state oldField foundAt index url with
  | nil => exact within
  | cons ch rest continued =>
      have longer : index + (ch :: rest).length = index + 1 + rest.length := by
        rw [List.length_cons]
        omega
      rw [longer] at short ⊢
      simp only [scanUrl]
      cases stepped : (parseUrlChar state ch).step with
      | fail => exact within.mono (by omega)
      | skip => exact continued _ _ _ _ url short marked (within.mono (Nat.le_succ index))
      | field field =>
          simp only
          split
          · rename_i same
            exact continued _ _ _ _ _ short marked (within.extend (by omega) (marked field same))
          · refine continued _ _ _ _ _ short ?_ (within.start (by omega) field)
            rintro other ⟨⟩
            exact start_marks ..

/-- The steps of `http_parse_host_char` that do not fail. -/
inductive HostState.Follows : HostState → HostState → Prop where
  | userinfoStart : Follows .userinfoStart .userinfo
  | userinfo : Follows .userinfo .userinfo
  | at_userinfoStart : Follows .userinfoStart .hostStart
  | at_userinfo : Follows .userinfo .hostStart
  | bracket : Follows .hostStart .hostV6Start
  | hostStart : Follows .hostStart .host
  | host : Follows .host .host
  | host_colon : Follows .host .hostPortStart
  | hostV6End_colon : Follows .hostV6End .hostPortStart
  | hostV6Start : Follows .hostV6Start .hostV6
  | hostV6 : Follows .hostV6 .hostV6
  | hostV6_bracket : Follows .hostV6 .hostV6End
  | percent : Follows .hostV6 .hostV6ZoneStart
  | hostV6ZoneStart : Follows .hostV6ZoneStart .hostV6Zone
  | hostV6Zone : Follows .hostV6Zone .hostV6Zone
  | hostV6Zone_bracket : Follows .hostV6Zone .hostV6End
  | hostPortStart : Follows .hostPortStart .hostPort
  | hostPort : Follows .hostPort .hostPort

/-- The states of a host follow one another. -/
theorem httpParseHostChar_follows {state : HostState} {ch : Byte}
    (alive : httpParseHostChar state ch ≠ .dead) : state.Follows (httpParseHostChar state ch) := by
  revert alive
  cases state <;>
    simp only [httpParseHostChar, parseHostEndChar, parseV6Char, parseZoneChar] <;>
    repeat' split
  all_goals first
    | (intro alive; exact absurd rfl alive)
    | (intro _; constructor)
    | simp_all

/-- The states before the first byte of the host's name. -/
def HostState.Early (state : HostState) : Prop :=
  state = .userinfoStart ∨ state = .userinfo ∨ state = .hostStart ∨ state = .hostV6Start

instance : DecidablePred HostState.Early := fun state =>
  inferInstanceAs
    (Decidable
      (state = .userinfoStart ∨ state = .userinfo ∨ state = .hostStart ∨ state = .hostV6Start))

/-- The components while the host is gone over, in a URL of `total` bytes. -/
structure HostWithin (total : Nat) (state : HostState) (index : Nat) (url : HttpParserUrl) :
    Prop where
  others : ∀ field, field ≠ .host → url.fieldSet field = true →
    0 < (url.fieldData field).len ∧ (url.fieldData field).off + (url.fieldData field).len ≤ total
  host : (url.fieldData .host).off + (url.fieldData .host).len ≤ index
  early : state.Early → (url.fieldData .host).len = 0
  late : ¬state.Early → 0 < (url.fieldData .host).len
  port : state = .hostPort → url.fieldSet .port = true ∧
    (url.fieldData .port).off + (url.fieldData .port).len ≤ index
  userinfo : state = .userinfo → url.fieldSet .userinfo = true ∧
    (url.fieldData .userinfo).off + (url.fieldData .userinfo).len ≤ index

section

variable {total index : Nat} {state next : HostState} {url : HttpParserUrl}

theorem HostWithin.idle (within : HostWithin total state index url)
    (same : next.Early ↔ state.Early) (notPort : next ≠ .hostPort)
    (notUserinfo : next ≠ .userinfo) : HostWithin total next (index + 1) url where
  others := within.others
  host := within.host.trans (Nat.le_succ index)
  early reached := within.early (same.mp reached)
  late passed := within.late (mt same.mpr passed)
  port reached := absurd reached notPort
  userinfo reached := absurd reached notUserinfo

/-- The name of a host begins. -/
theorem HostWithin.nameStarts (within : HostWithin total state index url)
    (short : index < 2 ^ 16) (before : state.Early) (named : ¬next.Early)
    (notPort : next ≠ .hostPort) :
    HostWithin total next (index + 1) ((url.setOff .host index).extend .host) := by
  have none : (url.fieldData .host).len = 0 := within.early before
  have data : ((url.setOff .host index).extend .host).fieldData .host = ⟨index, 1⟩ := by
    have moved := @setOff_fieldData url .host index short
    rw [none] at moved
    rw [extend_fieldData (by simp [moved]), moved]
  refine ⟨?_, ?_, ?_, ?_, ?_, ?_⟩
  · intro field notHost marked
    rw [extend_fieldData_of_ne notHost, setOff_fieldData_of_ne notHost]
    exact within.others field notHost marked
  · rw [data]
  · exact fun reached => absurd reached named
  · rw [data]
    exact fun _ => Nat.one_pos
  · exact fun reached => absurd reached notPort
  · rintro rfl
    exact absurd (Or.inr (Or.inl rfl)) named

/-- The name of a host goes on. -/
theorem HostWithin.nameContinues (within : HostWithin total state index url)
    (short : index + 1 < 2 ^ 16) (named : ¬next.Early)
    (notPort : next ≠ .hostPort) : HostWithin total next (index + 1) (url.extend .host) := by
  have ends := within.host
  have data := @extend_fieldData url .host (by omega)
  refine ⟨?_, ?_, ?_, ?_, ?_, ?_⟩
  · intro field notHost marked
    rw [extend_fieldData_of_ne notHost]
    exact within.others field notHost marked
  · rw [data]
    dsimp only
    omega
  · exact fun reached => absurd reached named
  · rw [data]
    exact fun _ => Nat.succ_pos _
  · exact fun reached => absurd reached notPort
  · rintro rfl
    exact absurd (Or.inr (Or.inl rfl)) named

/-- The port or the user information grows by a byte, or begins with one. -/
theorem HostWithin.side (within : HostWithin total state index url) (room : index < total)
    {field : UrlField} (notHost : field ≠ .host) {grown : HttpParserUrl}
    (marked : grown.fieldSet field = true) (positive : 0 < (grown.fieldData field).len)
    (ends : (grown.fieldData field).off + (grown.fieldData field).len ≤ index + 1)
    (keptSet : ∀ other, other ≠ field → grown.fieldSet other = url.fieldSet other)
    (kept : ∀ other, other ≠ field → grown.fieldData other = url.fieldData other)
    (same : next.Early ↔ state.Early) (forPort : next = .hostPort → field = .port)
    (forUserinfo : next = .userinfo → field = .userinfo) :
    HostWithin total next (index + 1) grown := by
  refine ⟨?_, ?_, ?_, ?_, ?_, ?_⟩
  · intro other otherNotHost otherMarked
    by_cases isField : other = field
    · subst isField
      exact ⟨positive, ends.trans room⟩
    · rw [kept other isField]
      rw [keptSet other isField] at otherMarked
      exact within.others other otherNotHost otherMarked
  · rw [kept .host notHost.symm]
    exact within.host.trans (Nat.le_succ index)
  · rw [kept .host notHost.symm]
    exact fun reached => within.early (same.mp reached)
  · rw [kept .host notHost.symm]
    exact fun passed => within.late (mt same.mpr passed)
  · intro reached
    rw [← forPort reached]
    exact ⟨marked, ends⟩
  · intro reached
    rw [← forUserinfo reached]
    exact ⟨marked, ends⟩

theorem HostWithin.sideStarts (within : HostWithin total state index url) (room : index < total)
    (short : index < 2 ^ 16) {field : UrlField} (notHost : field ≠ .host)
    (same : next.Early ↔ state.Early) (forPort : next = .hostPort → field = .port)
    (forUserinfo : next = .userinfo → field = .userinfo) :
    HostWithin total next (index + 1) ((url.start field index 0).extend field) := by
  have began := @start_fieldData url field index short 0
  have data : ((url.start field index 0).extend field).fieldData field = ⟨index, 1⟩ := by
    rw [Nat.zero_mod] at began
    rw [extend_fieldData (by rw [began]; exact Nat.one_lt_two_pow (by decide)), began]
  refine within.side room notHost (start_marks ..) ?_ ?_ ?_ ?_ same forPort forUserinfo
  · rw [data]
    exact Nat.one_pos
  · rw [data]
  · intro other different
    exact Function.update_of_ne different ..
  · intro other different
    rw [extend_fieldData_of_ne different, start_fieldData_of_ne different]

theorem HostWithin.sideContinues (within : HostWithin total state index url)
    (room : index < total) (short : index + 1 < 2 ^ 16) {field : UrlField}
    (notHost : field ≠ .host) (marked : url.fieldSet field = true)
    (ends : (url.fieldData field).off + (url.fieldData field).len ≤ index)
    (same : next.Early ↔ state.Early) (forPort : next = .hostPort → field = .port)
    (forUserinfo : next = .userinfo → field = .userinfo) :
    HostWithin total next (index + 1) (url.extend field) := by
  have data := @extend_fieldData url field (by omega)
  refine within.side room notHost marked ?_ ?_ (fun _ _ => rfl) ?_ same forPort forUserinfo
  · rw [data]
    exact Nat.succ_pos _
  · rw [data]
    dsimp only
    omega
  · intro other different
    exact extend_fieldData_of_ne different

/-- A character of a host marks what lies within it. -/
theorem HostWithin.markHost (within : HostWithin total state index url) (room : index < total)
    (short : total < 2 ^ 16) (follows : state.Follows next) :
    HostWithin total next (index + 1) (markHost state next index url) := by
  have index_short : index < 2 ^ 16 := by omega
  have next_short : index + 1 < 2 ^ 16 := by omega
  cases follows with
  | userinfoStart =>
      exact within.sideStarts room index_short nofun (by decide) nofun (fun _ => rfl)
  | userinfo =>
      rcases within.userinfo rfl with ⟨marked, ends⟩
      exact within.sideContinues room next_short nofun marked ends Iff.rfl nofun (fun _ => rfl)
  | at_userinfoStart | at_userinfo | bracket => exact within.idle (by decide) nofun nofun
  | hostStart | hostV6Start => exact within.nameStarts index_short (by decide) (by decide) nofun
  | host | hostV6 | percent | hostV6ZoneStart | hostV6Zone =>
      exact within.nameContinues next_short (by decide) nofun
  | host_colon | hostV6End_colon | hostV6_bracket | hostV6Zone_bracket =>
      exact within.idle (by decide) nofun nofun
  | hostPortStart =>
      exact within.sideStarts room index_short nofun (by decide) (fun _ => rfl) nofun
  | hostPort =>
      rcases within.port rfl with ⟨marked, ends⟩
      exact within.sideContinues room next_short nofun marked ends Iff.rfl (fun _ => rfl) nofun

theorem scanHost_within {bytes : List Byte} {last : HostState} {scanned : HttpParserUrl}
    (within : HostWithin total state index url) (room : index + bytes.length ≤ total)
    (short : total < 2 ^ 16) (ran : scanHost state index bytes url = (some last, scanned)) :
    HostWithin total last (index + bytes.length) scanned := by
  induction bytes generalizing state index url with
  | nil =>
      cases ran
      exact within
  | cons ch rest continued =>
      simp only [scanHost] at ran
      split at ran
      · cases ran
      · rename_i alive
        have longer : index + (ch :: rest).length = index + 1 + rest.length := by
          rw [List.length_cons]
          omega
        rw [longer] at room ⊢
        exact continued
          (within.markHost (by omega) short (httpParseHostChar_follows alive)) room ran

end

theorem httpParseHost_within {total : Nat} {buf : List Byte} {foundAt : Bool}
    {url parsed : HttpParserUrl} (within : Within total url)
    (short : total < 2 ^ 16) (marked : url.fieldSet .host = true)
    (succeeded : httpParseHost buf url foundAt = (0, parsed)) : Within total parsed := by
  rcases within .host marked with ⟨-, ends⟩
  set off := (url.fieldData .host).off with off_eq
  have cleared : (url.setLen .host 0).fieldData .host = ⟨off, 0⟩ := by
    simp only [setLen, Function.update_self, off_eq, Nat.zero_mod]
  have entered : HostWithin total (if foundAt then .userinfoStart else .hostStart) off
      (url.setLen .host 0) := by
    refine ⟨?_, ?_, ?_, ?_, ?_, ?_⟩
    · intro field notHost markedField
      have kept : (url.setLen .host 0).fieldData field = url.fieldData field :=
        Function.update_of_ne notHost ..
      rw [kept]
      exact within field markedField
    · rw [cleared]
      exact (Nat.add_zero off).le
    · rw [cleared]
      exact fun _ => rfl
    · intro passed
      refine absurd ?_ passed
      cases foundAt <;> decide
    · cases foundAt <;> nofun
    · cases foundAt <;> nofun
  have room : off + ((buf.take (off + (url.fieldData .host).len)).drop off).length ≤ total := by
    rw [List.length_drop, List.length_take]
    omega
  simp only [httpParseHost] at succeeded
  rcases ran : scanHost _ off _ (url.setLen .host 0) with ⟨_ | last, scanned⟩
  · rw [ran] at succeeded
    cases succeeded
  · rw [ran] at succeeded
    simp only [Prod.mk.injEq, ite_eq_right_iff, Nat.one_ne_zero, imp_false,
      Bool.not_eq_true] at succeeded
    rcases succeeded with ⟨expected, rfl⟩
    have after := scanHost_within entered room short ran
    intro field markedField
    by_cases isHost : field = .host
    · subst isHost
      refine ⟨after.late ?_, after.host.trans room⟩
      rintro (rfl | rfl | rfl | rfl) <;> cases expected
    · exact after.others field isHost markedField

theorem parsePort_within {total : Nat} {buf : List Byte} {url parsed : HttpParserUrl}
    (within : Within total url) (succeeded : parsePort buf url = (0, parsed)) :
    Within total parsed := by
  unfold parsePort at succeeded
  split at succeeded
  · simp only at succeeded
    split at succeeded <;> cases succeeded
    exact within
  · cases succeeded
    exact within

theorem splitHost_within {total : Nat} {buf : List Byte} {foundAt : Bool}
    {url parsed : HttpParserUrl} (within : Within total url) (short : total < 2 ^ 16)
    (succeeded : splitHost buf foundAt url = (0, parsed)) :
    Within total parsed := by
  unfold splitHost at succeeded
  split at succeeded
  · rename_i marked
    exact httpParseHost_within within short marked succeeded
  · cases succeeded
    exact within

/-- The components of a valid URL are not empty and lie within it. -/
theorem httpParserParseUrl_within {buf : List Byte} {isConnect : Bool} {url parsed : HttpParserUrl}
    (short : buf.length < 2 ^ 16) (succeeded : httpParserParseUrl buf isConnect url = (0, parsed)) :
    Within buf.length parsed := by
  simp only [httpParserParseUrl] at succeeded
  split at succeeded
  · cases succeeded
  · have scanned := scanUrl_within
      (if isConnect then .reqServerStart else .reqSpacesBeforeUrl) none false 0 buf
      { url with port := 0, fieldSet := fun _ => false } (by omega) nofun nofun
    rw [Nat.zero_add] at scanned
    split at succeeded
    · cases succeeded
    · rename_i ran
      rw [ran] at scanned
      unfold finishUrl at succeeded
      split at succeeded
      · cases succeeded
      · simp only at succeeded
        split at succeeded
        · cases succeeded
        · rename_i ok
          have split_eq := Prod.ext (y := (0, _)) (not_ne_iff.mp ok) rfl
          have within := splitHost_within scanned short split_eq
          split at succeeded
          · cases succeeded
          · exact parsePort_within within succeeded

end ReactiveToolbox.Http
