import Mathlib.Data.List.Basic
import ReactiveToolbox.Net.ParsedUrlReuse
import ReactiveToolbox.Net.Pcap

/-!
# Endpoints

`parse_endpoint` chooses a family and a protocol by the scheme of a URI and has its host and
service looked up.  A scheme that does not fit is told by a negative family, with which
the choice began when the default family was -1.
-/

namespace ReactiveToolbox.Net

open ReactiveToolbox.Lib
open ParsedUrl UrlParts

/-! ## The choice -/

/-- `AF_UNSPEC`. -/
def afUnspec : Int := 0

/-- `AF_INET`. -/
def afInet : Int := 2

/-- `AF_INET6`. -/
def afInet6 : Int := 10

/-- `SOCK_STREAM`. -/
def sockStream : Int := 1

/-- `SOCK_DGRAM`. -/
def sockDgram : Int := 2

def ip4 : Text := "ip4".toList

def ip6 : Text := "ip6".toList

def tcp4 : Text := "tcp4".toList

def tcp6 : Text := "tcp6".toList

def udp4 : Text := "udp4".toList

def udp6 : Text := "udp6".toList

def unixScheme : Text := "unix".toList

/-- What is looked up, by `getaddrinfo` or by `get_unix_addrinfo`. -/
inductive AddrLookup where
  | getaddrinfo (node service : Option Text) (family type protocol : Int)
  | unix (path : Text) (type : Int)
  deriving DecidableEq

/-- Why `parse_endpoint` throws before it looks anything up. -/
inductive EndpointFailure where
  | invalidArgument (what : Text)
  | url (failure : UrlFailure)
  deriving DecidableEq

/-- A text, or a null pointer for an empty one. -/
def nonEmpty (text : Text) : Option Text :=
  if text = [] then none else some text

/-- The end of `parse_endpoint`, with the family and the protocol that are chosen. -/
def lookUp (uri : Text) (type : Int) (parsed : ParsedUrl) (family protocol : Int) :
    Except EndpointFailure AddrLookup :=
  if family < 0 then .error (.invalidArgument ("invalid uri: ".toList ++ uri))
  else
    .ok (.getaddrinfo (nonEmpty parsed.host_) (nonEmpty parsed.service_) family type protocol)

/-- The branches of `parse_endpoint`. -/
def choose (uri : Text) (type defaultFamily : Int) (parsed : ParsedUrl) :
    Except EndpointFailure AddrLookup :=
  let scheme := parsed.proto_
  if scheme = ip4 then lookUp uri type parsed afInet 0
  else if scheme = ip6 then lookUp uri type parsed afInet6 0
  else if scheme = tcp4 then
    if type = sockStream then lookUp uri type parsed afInet ipprotoTcp
    else lookUp uri type parsed defaultFamily 0
  else if scheme = tcp6 then
    if type = sockStream then lookUp uri type parsed afInet6 ipprotoTcp
    else lookUp uri type parsed defaultFamily 0
  else if scheme = udp4 then
    if type = sockDgram then lookUp uri type parsed afInet ipprotoUdp
    else lookUp uri type parsed defaultFamily 0
  else if scheme = udp6 then
    if type = sockDgram then lookUp uri type parsed afInet6 ipprotoUdp
    else lookUp uri type parsed defaultFamily 0
  else if scheme = unixScheme then .ok (.unix parsed.host_ type)
  else if scheme = [] then
    if defaultFamily = afInet ∨ defaultFamily = afInet6 then
      if type = sockStream then lookUp uri type parsed defaultFamily ipprotoTcp
      else if type = sockDgram then lookUp uri type parsed defaultFamily ipprotoUdp
      else lookUp uri type parsed defaultFamily 0
    else lookUp uri type parsed defaultFamily 0
  else lookUp uri type parsed defaultFamily 0

/-- `parse_endpoint`, up to what it looks up. -/
def parseEndpoint (uri : Text) (type defaultFamily : Int) : Except EndpointFailure AddrLookup :=
  match create.parse uri .default with
  | .error failure => .error (.url failure)
  | .ok parsed => choose uri type defaultFamily parsed

/-! ## What a URI says -/

/-- A scheme that is unknown, or that of a transport which the type is not for. -/
def BadScheme (scheme : Text) (type : Int) : Prop :=
  scheme ∉ [[], ip4, ip6, tcp4, tcp6, udp4, udp6, unixScheme] ∨
    scheme ∈ [tcp4, tcp6] ∧ type ≠ sockStream ∨ scheme ∈ [udp4, udp6] ∧ type ≠ sockDgram

instance (scheme : Text) (type : Int) : Decidable (BadScheme scheme type) :=
  inferInstanceAs (Decidable (_ ∨ _))

/-- The family that a scheme denotes. -/
def familyOf (scheme : Text) (defaultFamily : Int) : Int :=
  if scheme = ip4 ∨ scheme = tcp4 ∨ scheme = udp4 then afInet
  else if scheme = ip6 ∨ scheme = tcp6 ∨ scheme = udp6 then afInet6
  else defaultFamily

/-- The protocol of a type. -/
def protocolFor (type : Int) : Int :=
  if type = sockStream then ipprotoTcp else if type = sockDgram then ipprotoUdp else 0

/-- The protocol that a scheme denotes, or none. -/
def protocolOf (scheme : Text) (type defaultFamily : Int) : Int :=
  if scheme = tcp4 ∨ scheme = tcp6 ∨ scheme = udp4 ∨ scheme = udp6 then protocolFor type
  else if scheme = [] ∧ (defaultFamily = afInet ∨ defaultFamily = afInet6) then protocolFor type
  else 0

/-- The scheme of a URL, if it has one, and what follows the separator. -/
def splitScheme (url : Text) : Text × Text :=
  match find [':', '/', '/'] url with
  | none => ([], url)
  | some p => (url.take p, url.drop (p + 3))

/-- The scheme of a URI, empty if it has none. -/
def schemeOf (uri : Text) : Text :=
  (splitScheme (urlText uri)).1

/-- What stands between the scheme and a query. -/
def addressOf (uri : Text) : Text :=
  (cutQuery ['?'] (splitScheme (urlText uri)).2).2

/-- What stands in front of the last colon. -/
def hostOf (uri : Text) : Text :=
  (cutService [':'] (addressOf uri)).2

/-- What stands behind the last colon. -/
def serviceOf (uri : Text) : Text :=
  (cutService [':'] (addressOf uri)).1

/-- What is to be looked up for a URI. -/
def lookupOf (uri : Text) (type defaultFamily : Int) : AddrLookup :=
  if schemeOf uri = unixScheme then .unix (hostOf uri) type
  else
    .getaddrinfo (nonEmpty (hostOf uri)) (nonEmpty (serviceOf uri))
      (familyOf (schemeOf uri) defaultFamily) type
      (protocolOf (schemeOf uri) type defaultFamily)

/-- A URI is refused exactly if its scheme is bad, and else looked up as it says. -/
structure Meets (uri : Text) (type defaultFamily : Int) : Prop where
  throws : (∃ what, parseEndpoint uri type defaultFamily = .error (.invalidArgument what)) ↔
    BadScheme (schemeOf uri) type
  looksUp : ¬BadScheme (schemeOf uri) type →
    parseEndpoint uri type defaultFamily = .ok (lookupOf uri type defaultFamily)

/-! ## The branches -/

section Branches

variable {uri : Text} {type defaultFamily : Int} {parsed : ParsedUrl}

theorem choose_of_bad (bad : BadScheme parsed.proto_ type) :
    choose uri type defaultFamily parsed = lookUp uri type parsed defaultFamily 0 := by
  unfold choose
  dsimp only
  generalize parsed.proto_ = scheme at bad
  rcases bad with unknown | ⟨tcp, other⟩ | ⟨udp, other⟩
  · simp only [List.mem_cons, List.not_mem_nil, or_false, not_or] at unknown
    obtain ⟨h0, h1, h2, h3, h4, h5, h6, h7⟩ := unknown
    simp only [h0, h1, h2, h3, h4, h5, h6, h7, if_false]
  · simp only [List.mem_cons, List.not_mem_nil, or_false] at tcp
    rcases tcp with rfl | rfl
    · exact if_neg other
    · exact if_neg other
  · simp only [List.mem_cons, List.not_mem_nil, or_false] at udp
    rcases udp with rfl | rfl
    · exact if_neg other
    · exact if_neg other

theorem choose_of_unix (unix : parsed.proto_ = unixScheme) :
    choose uri type defaultFamily parsed = .ok (.unix parsed.host_ type) := by
  unfold choose
  dsimp only
  rw [unix]
  rfl

theorem choose_of_good (good : ¬BadScheme parsed.proto_ type)
    (inet : parsed.proto_ ≠ unixScheme) :
    choose uri type defaultFamily parsed =
      lookUp uri type parsed (familyOf parsed.proto_ defaultFamily)
        (protocolOf parsed.proto_ type defaultFamily) := by
  unfold choose
  dsimp only
  generalize parsed.proto_ = scheme at good inet
  rw [BadScheme, not_or, not_or, not_not] at good
  obtain ⟨known, tcp, udp⟩ := good
  simp only [List.mem_cons, List.not_mem_nil, or_false] at known
  rcases known with rfl | rfl | rfl | rfl | rfl | rfl | rfl | rfl
  · by_cases given : defaultFamily = afInet ∨ defaultFamily = afInet6
    · have protocol : protocolOf [] type defaultFamily = protocolFor type :=
        (if_neg (by decide)).trans (if_pos ⟨rfl, given⟩)
      rw [protocol, protocolFor]
      refine (if_pos given).trans ?_
      split
      · rfl
      · split <;> rfl
    · have protocol : protocolOf [] type defaultFamily = 0 :=
        (if_neg (by decide)).trans (if_neg fun both => given both.2)
      rw [protocol]
      exact if_neg given
  · rfl
  · rfl
  · have stream : type = sockStream :=
      not_not.mp fun other => tcp ⟨List.mem_cons_self, other⟩
    rw [stream]
    rfl
  · have stream : type = sockStream :=
      not_not.mp fun other => tcp ⟨List.mem_cons_of_mem _ List.mem_cons_self, other⟩
    rw [stream]
    rfl
  · have dgram : type = sockDgram :=
      not_not.mp fun other => udp ⟨List.mem_cons_self, other⟩
    rw [dgram]
    rfl
  · have dgram : type = sockDgram :=
      not_not.mp fun other => udp ⟨List.mem_cons_of_mem _ List.mem_cons_self, other⟩
    rw [dgram]
    rfl
  · exact absurd rfl inet

end Branches

/-! ## The parts that are passed on -/

section Parts

variable {uri : Text}

theorem parse_of_not_wellFormed (broken : ¬WellFormed uri) :
    create.parse uri .default =
      .error (.logicError "ParsedUrl: = expected") := by
  rw [parse_eq, parseInto_of_not_wellFormed broken]
  rfl

/-- The separator is left in front of what follows the scheme. -/
theorem cutProto_eq (url : Text) :
    cutProto [':', '/', '/'] url =
      ((splitScheme url).1,
        if (find [':', '/', '/'] url).isSome then [':', '/', '/'] ++ (splitScheme url).2
        else (splitScheme url).2) := by
  rw [cutProto, if_neg (by decide), splitScheme]
  cases found : find [':', '/', '/'] url with
  | none => rfl
  | some p =>
      dsimp only [Option.isSome_some, if_true]
      rw [if_pos rfl, drop_of_find found]
      rfl

theorem cutQuery_separator (u : Text) :
    cutQuery ['?'] ([':', '/', '/'] ++ u) =
      ((cutQuery ['?'] u).1, [':', '/', '/'] ++ (cutQuery ['?'] u).2) := by
  have absent : '?' ∉ [':', '/', '/'] := by decide
  rw [cutQuery, if_neg (by decide), find_append_of_not_mem absent, cutQuery, if_neg (by decide)]
  cases find ['?'] u with
  | none => rfl
  | some p => rfl

/-- The separator in front of an address makes another host of it. -/
theorem host_separator_iff (address : Text) :
    (cutService [':'] ([':', '/', '/'] ++ address)).2 = (cutService [':'] address).2 ↔
      address = [] := by
  cases found : rfind [':'] address with
  | none =>
      have absent : ':' ∉ address := not_mem_of_rfind_symbol found
      have cut : cutService [':'] ([':', '/', '/'] ++ address) = (['/', '/'] ++ address, []) :=
        cutService_last [] (by simpa using absent)
      rw [cut, cutService_of_not_mem absent]
      exact eq_comm
  | some p =>
      have cut : (cutService [':'] ([':', '/', '/'] ++ address)).2 =
          [':', '/', '/'] ++ address.take p := by
        rw [cutService, if_neg (by decide), rfind_append found]
        exact List.take_length_add_append p
      have plain : (cutService [':'] address).2 = address.take p := by
        rw [cutService, if_neg (by decide), found]
      rw [cut, plain]
      constructor
      · intro same
        have lengths := congrArg List.length same
        rw [List.length_append] at lengths
        exact absurd lengths (by simp)
      · rintro rfl
        cases found

/-- An object that has parsed a URI, with the separator left in front of the address. -/
structure Parsed (uri : Text) (parsed : ParsedUrl) : Prop where
  parse : create.parse uri .default = .ok parsed
  proto : parsed.proto_ = schemeOf uri
  address : (parsed.service_, parsed.host_) = cutService [':']
    (if (find [':', '/', '/'] (urlText uri)).isSome then [':', '/', '/'] ++ addressOf uri
      else addressOf uri)

theorem parse_of_wellFormed (whole : WellFormed uri) : ∃ parsed, Parsed uri parsed := by
  have parse := parse_eq create uri .default
  rw [parseInto_of_wellFormed whole] at parse
  refine ⟨_, parse, ?_, ?_⟩
  · dsimp only
    rw [cutProto_eq]
    rfl
  · dsimp only
    rw [cutProto_eq, addressOf]
    dsimp only
    split
    · rw [cutQuery_separator]
    · rfl

theorem schemeOf_of_none (absent : find [':', '/', '/'] (urlText uri) = none) :
    schemeOf uri = [] := by
  rw [schemeOf, splitScheme, absent]

end Parts

/-! ## When a URI is looked up as it says -/

section Meeting

variable {uri : Text} {type defaultFamily : Int} {parsed : ParsedUrl}

theorem nonEmpty_inj {text other : Text} : nonEmpty text = nonEmpty other ↔ text = other := by
  cases text <;> cases other <;> simp [nonEmpty]

/-- The host and the service that are passed on are right if no separator is left. -/
theorem Parsed.passed_iff (has : Parsed uri parsed) :
    parsed.host_ = hostOf uri ∧ parsed.service_ = serviceOf uri ↔
      find [':', '/', '/'] (urlText uri) = none := by
  have host := congrArg Prod.snd has.address
  have service := congrArg Prod.fst has.address
  dsimp only at host service
  rw [hostOf, serviceOf, host, service]
  cases find [':', '/', '/'] (urlText uri) with
  | none => exact ⟨fun _ => rfl, fun _ => ⟨rfl, rfl⟩⟩
  | some p =>
      rw [Option.isSome_some, if_pos rfl, host_separator_iff]
      refine ⟨fun ⟨empty, same⟩ => ?_, fun absent => nomatch absent⟩
      rw [empty] at same
      exact absurd same (by decide)

theorem meets_iff_of_bad (bad : BadScheme (schemeOf uri) type) :
    Meets uri type defaultFamily ↔
      ∃ what, parseEndpoint uri type defaultFamily = .error (.invalidArgument what) :=
  ⟨fun meets => meets.throws.mpr bad,
    fun thrown => ⟨⟨fun _ => bad, fun _ => thrown⟩, fun good => absurd bad good⟩⟩

theorem meets_iff_of_good (good : ¬BadScheme (schemeOf uri) type) :
    Meets uri type defaultFamily ↔
      parseEndpoint uri type defaultFamily = .ok (lookupOf uri type defaultFamily) := by
  refine ⟨fun meets => meets.looksUp good,
    fun found => ⟨⟨fun ⟨what, thrown⟩ => ?_, fun bad => absurd bad good⟩, fun _ => found⟩⟩
  rw [found] at thrown
  cases thrown

theorem not_meets_of_not_wellFormed (broken : ¬WellFormed uri) :
    ¬Meets uri type defaultFamily := by
  have failed : parseEndpoint uri type defaultFamily =
      .error (.url (.logicError "ParsedUrl: = expected")) := by
    rw [parseEndpoint, parse_of_not_wellFormed broken]
  intro meets
  by_cases bad : BadScheme (schemeOf uri) type
  · obtain ⟨what, thrown⟩ := (meets_iff_of_bad bad).mp meets
    rw [failed] at thrown
    cases thrown
  · have found := (meets_iff_of_good bad).mp meets
    rw [failed] at found
    cases found

theorem not_bad_nil (type : Int) : ¬BadScheme [] type := by
  rintro (unknown | ⟨tcp, -⟩ | ⟨udp, -⟩)
  · exact unknown List.mem_cons_self
  · exact absurd tcp (by decide)
  · exact absurd udp (by decide)

theorem not_bad_unix (type : Int) : ¬BadScheme unixScheme type := by
  rintro (unknown | ⟨tcp, -⟩ | ⟨udp, -⟩)
  · exact unknown (by decide)
  · exact absurd tcp (by decide)
  · exact absurd udp (by decide)

/-- What is looked up is what the URI says, if anything is looked up. -/
theorem lookUp_eq_iff {family protocol : Int} :
    lookUp uri type parsed family protocol =
        .ok (.getaddrinfo (nonEmpty (hostOf uri)) (nonEmpty (serviceOf uri)) family type protocol) ↔
      0 ≤ family ∧ parsed.host_ = hostOf uri ∧ parsed.service_ = serviceOf uri := by
  unfold lookUp
  split
  · rename_i negative
    exact ⟨(nomatch ·), fun ⟨positive, _⟩ => absurd negative (Int.not_lt.mpr positive)⟩
  · rename_i positive
    constructor
    · intro same
      injection same with same
      injection same with host service
      exact ⟨Int.not_lt.mp positive, nonEmpty_inj.mp host, nonEmpty_inj.mp service⟩
    · rintro ⟨-, host, service⟩
      rw [host, service]

theorem Parsed.parseEndpoint_eq (has : Parsed uri parsed) :
    parseEndpoint uri type defaultFamily = choose uri type defaultFamily parsed := by
  rw [parseEndpoint, has.parse]

theorem Parsed.meets_iff_of_bad (has : Parsed uri parsed) (bad : BadScheme (schemeOf uri) type) :
    Meets uri type defaultFamily ↔ defaultFamily < 0 := by
  rw [Net.meets_iff_of_bad bad, has.parseEndpoint_eq, choose_of_bad (has.proto ▸ bad), lookUp]
  constructor
  · rintro ⟨what, thrown⟩
    split at thrown
    · assumption
    · cases thrown
  · exact fun negative => ⟨_, if_pos negative⟩

theorem Parsed.meets_iff_of_unix (has : Parsed uri parsed) (unix : schemeOf uri = unixScheme) :
    Meets uri type defaultFamily ↔ addressOf uri = [] := by
  have good : ¬BadScheme (schemeOf uri) type := unix ▸ not_bad_unix type
  have named : (find [':', '/', '/'] (urlText uri)).isSome = true := by
    cases found : find [':', '/', '/'] (urlText uri) with
    | none =>
        rw [schemeOf_of_none found] at unix
        cases unix
    | some p => rfl
  have host : parsed.host_ = _ := congrArg Prod.snd has.address
  rw [if_pos named] at host
  rw [meets_iff_of_good good, has.parseEndpoint_eq, choose_of_unix (has.proto.trans unix),
    lookupOf, if_pos unix, ← host_separator_iff, ← host, hostOf]
  constructor
  · intro same
    injection same with same
    injection same
  · intro same
    rw [same]

theorem Parsed.meets_iff_of_good (has : Parsed uri parsed) (good : ¬BadScheme (schemeOf uri) type)
    (other : schemeOf uri ≠ unixScheme) :
    Meets uri type defaultFamily ↔
      find [':', '/', '/'] (urlText uri) = none ∧ 0 ≤ defaultFamily := by
  rw [Net.meets_iff_of_good good, has.parseEndpoint_eq, choose_of_good (has.proto ▸ good)
    (has.proto ▸ other), lookupOf, if_neg other, has.proto, lookUp_eq_iff, has.passed_iff,
    and_comm]
  refine and_congr_right fun absent => ?_
  rw [schemeOf_of_none absent]
  rfl

/--
A URI is looked up as it says if there is no scheme and the default family is one, and it
is refused if the scheme is bad and the default family is none.  A path for `unix` is wrong unless empty.
-/
theorem meets_iff (uri : Text) (type defaultFamily : Int) :
    Meets uri type defaultFamily ↔
      WellFormed uri ∧
        (find [':', '/', '/'] (urlText uri) = none ∧ 0 ≤ defaultFamily ∨
          BadScheme (schemeOf uri) type ∧ defaultFamily < 0 ∨
          schemeOf uri = unixScheme ∧ addressOf uri = []) := by
  by_cases whole : WellFormed uri
  · obtain ⟨parsed, has⟩ := parse_of_wellFormed whole
    rw [and_iff_right whole]
    by_cases bad : BadScheme (schemeOf uri) type
    · have named : find [':', '/', '/'] (urlText uri) ≠ none := fun absent =>
        not_bad_nil type (schemeOf_of_none absent ▸ bad)
      have inet : schemeOf uri ≠ unixScheme := fun unix => not_bad_unix type (unix ▸ bad)
      simp only [has.meets_iff_of_bad bad, named, bad, inet, false_and, true_and, false_or,
        or_false]
    · by_cases unix : schemeOf uri = unixScheme
      · have named : find [':', '/', '/'] (urlText uri) ≠ none := fun absent => by
          rw [schemeOf_of_none absent] at unix
          cases unix
        simp only [has.meets_iff_of_unix unix, named, not_bad_unix, unix, false_and, true_and,
          false_or]
      · simp only [has.meets_iff_of_good bad unix, bad, unix, false_and, or_false]
  · exact ⟨fun meets => absurd meets (not_meets_of_not_wellFormed whole),
      fun both => absurd both.1 whole⟩

/-- With the default of the header an unknown scheme is looked up, and the host is wrong. -/
theorem not_meets_unknown :
    parseEndpoint "foo://a:80".toList sockStream afUnspec =
        .ok (.getaddrinfo (some "://a".toList) (some "80".toList) afUnspec sockStream 0) ∧
      BadScheme (schemeOf "foo://a:80".toList) sockStream ∧
      ¬Meets "foo://a:80".toList sockStream afUnspec := by
  have looked : parseEndpoint "foo://a:80".toList sockStream afUnspec =
      .ok (.getaddrinfo (some "://a".toList) (some "80".toList) afUnspec sockStream 0) := by
    decide
  have bad : BadScheme (schemeOf "foo://a:80".toList) sockStream := by decide
  refine ⟨looked, bad, fun meets => ?_⟩
  obtain ⟨what, thrown⟩ := meets.throws.mpr bad
  rw [looked] at thrown
  cases thrown

end Meeting

end ReactiveToolbox.Net
