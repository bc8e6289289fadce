import Mathlib.Data.List.Find
import Mathlib.Data.List.GetD
import Mathlib.Data.List.Infix
import Mathlib.Data.List.TakeWhile
import ReactiveToolbox.Util.Json

/-!
# Interned strings

`InternedStrings` keeps one copy of every string in a buffer of its own, and a map whose
keys are views of these buffers.  The key of a new buffer is made of its address alone,
so that it ends at the first NUL of the string, as does the view that is returned.
-/

namespace ReactiveToolbox.Util

/-! ## The strings -/

/-- The characters of a buffer, with those behind a NUL. -/
abbrev Bytes := List UInt8

/-- The characters of a buffer in front of its first NUL. -/
def cString (buffer : Bytes) : Bytes :=
  buffer.takeWhile (· ≠ 0)

/-- `strlen`. -/
def strlen (buffer : Bytes) : Nat :=
  (cString buffer).length

/-- A `string_view` into the buffer of this address. -/
structure StringView where
  data : Nat
  size : Nat
  deriving DecidableEq

/--
The buffers by their addresses, which are given out in this order and are not reused,
and the keys of `values_`.
-/
structure InternedStrings where
  buffers : List Bytes
  values : List StringView

namespace InternedStrings

/-- No string is held. -/
def empty : InternedStrings :=
  { buffers := [], values := [] }

/-- The characters that a view refers to. -/
def bytes (self : InternedStrings) (view : StringView) : Bytes :=
  (self.buffers.getD view.data []).take view.size

/-- `values_.find`. -/
def find (self : InternedStrings) (str : Bytes) : Option StringView :=
  self.values.find? fun key => decide (self.bytes key = str)

/-- `values_.emplace`, which keeps the key that is there. -/
def emplace (self : InternedStrings) (key : StringView) : InternedStrings × StringView :=
  match self.find (self.bytes key) with
  | some found => (self, found)
  | none => ({ self with values := self.values ++ [key] }, key)

/-- A new buffer, and its address. -/
def allocate (self : InternedStrings) (buffer : Bytes) : InternedStrings × Nat :=
  ({ self with buffers := self.buffers ++ [buffer] }, self.buffers.length)

/-- `intern`. -/
def intern (self : InternedStrings) (str : Bytes) : InternedStrings × StringView :=
  match self.find str with
  | some found => (self, found)
  | none =>
      let data := str ++ [0]
      let (allocated, address) := self.allocate data
      allocated.emplace { data := address, size := strlen data }

/-! ## Runs -/

/-- A call of `intern`. -/
structure Call where
  before : InternedStrings
  str : Bytes
  after : InternedStrings
  result : StringView

/-- A call with what it has found and left. -/
def call (self : InternedStrings) (str : Bytes) : Call :=
  { before := self
    str := str
    after := (self.intern str).1
    result := (self.intern str).2 }

/-- The calls of `intern` on some strings, one after another. -/
def calls (self : InternedStrings) : List Bytes → List Call
  | [] => []
  | str :: rest => self.call str :: (self.call str).after.calls rest

/--
Every call returns its string, two calls return the same pointer just where their
strings are the same, and a later call on the same string allocates nothing.
-/
structure Interns (calls : List Call) : Prop where
  content : ∀ call ∈ calls, call.after.bytes call.result = call.str
  pointer : ∀ call ∈ calls, ∀ other ∈ calls,
    call.result.data = other.result.data ↔ call.str = other.str
  once : calls.Pairwise fun earlier later =>
    earlier.str = later.str → later.after.buffers = later.before.buffers

/-! ## What a call does -/

/-- The keys are views of different buffers with different characters, none of them NUL. -/
structure Sound (strings : InternedStrings) : Prop where
  allocated : ∀ key ∈ strings.values, key.data < strings.buffers.length
  terminated : ∀ key ∈ strings.values, cString (strings.bytes key) = strings.bytes key
  apart : ∀ key ∈ strings.values, ∀ other ∈ strings.values, key.data = other.data → key = other
  distinct : ∀ key ∈ strings.values, ∀ other ∈ strings.values,
    strings.bytes key = strings.bytes other → key = other

/-- Buffers and keys are only ever added. -/
structure Extends (later earlier : InternedStrings) : Prop where
  buffers : earlier.buffers <+: later.buffers
  values : ∀ key ∈ earlier.values, key ∈ later.values

variable {self later : InternedStrings} {str : Bytes} {key : StringView}

theorem cString_terminated (str : Bytes) : cString (str ++ [0]) = cString str := by
  unfold cString
  induction str with
  | nil => rfl
  | cons byte str continued => simp only [List.cons_append, List.takeWhile_cons, continued]

/-- A text is its own C string exactly if it is free of NULs. -/
theorem cString_eq_self_iff : cString str = str ↔ 0 ∉ str := by
  rw [cString, List.takeWhile_eq_self_iff]
  constructor
  · intro characters nul
    exact absurd rfl (of_decide_eq_true (characters 0 nul))
  · intro free byte member
    exact decide_eq_true fun nul => free (nul ▸ member)

theorem cString_cString : cString (cString str) = cString str := by
  rw [cString_eq_self_iff, cString]
  intro nul
  simpa using List.mem_takeWhile_imp nul

theorem cString_eq_take (str : Bytes) : (str ++ [0]).take (strlen (str ++ [0])) = cString str := by
  rw [← cString_terminated str]
  exact (List.prefix_iff_eq_take.mp (List.takeWhile_prefix _)).symm

theorem Extends.refl (self : InternedStrings) : self.Extends self :=
  ⟨List.prefix_refl _, fun _ member => member⟩

theorem Extends.trans {latest : InternedStrings} (more : latest.Extends later)
    (first : later.Extends self) : latest.Extends self :=
  ⟨first.buffers.trans more.buffers, fun key member => more.values key (first.values key member)⟩

/-- What a key refers to does not change. -/
theorem Sound.bytes_eq (sound : self.Sound) (extended : later.Extends self)
    (member : key ∈ self.values) : later.bytes key = self.bytes key := by
  obtain ⟨more, appended⟩ := extended.buffers
  rw [bytes, bytes, ← appended, List.getD_append _ _ _ _ (sound.allocated key member)]

/-- What is found has the characters that were looked for. -/
theorem find_some (found : self.find str = some key) :
    key ∈ self.values ∧ self.bytes key = str :=
  ⟨List.mem_of_find?_eq_some found, by simpa using List.find?_some found⟩

theorem find_none (missing : self.find str = none) (member : key ∈ self.values) :
    self.bytes key ≠ str :=
  of_decide_eq_false (Bool.not_eq_true _ ▸ List.find?_eq_none.mp missing key member)

theorem find_isSome (member : key ∈ self.values) : (self.find (self.bytes key)).isSome := by
  rw [Option.isSome_iff_ne_none]
  exact fun missing => find_none missing member rfl

theorem extends_allocate (self : InternedStrings) (buffer : Bytes) :
    (self.allocate buffer).1.Extends self :=
  ⟨List.prefix_append _ _, fun _ member => member⟩

theorem length_allocate (self : InternedStrings) (buffer : Bytes) :
    (self.allocate buffer).2 < (self.allocate buffer).1.buffers.length := by
  rw [allocate, List.length_append]
  exact Nat.lt_succ_self _

/-- The address of a new buffer is that of no key. -/
theorem Sound.fresh (sound : self.Sound) (buffer : Bytes) :
    ∀ other ∈ (self.allocate buffer).1.values, other.data ≠ (self.allocate buffer).2 :=
  fun other member => Nat.ne_of_lt (sound.allocated other member)

/-- A new buffer leaves the views as they are. -/
theorem Sound.allocate (sound : self.Sound) (buffer : Bytes) :
    (self.allocate buffer).1.Sound where
  allocated key member := by
    rw [InternedStrings.allocate, List.length_append]
    exact Nat.lt_add_right _ (sound.allocated key member)
  terminated key member := by
    rw [sound.bytes_eq (extends_allocate self buffer) member]
    exact sound.terminated key member
  apart := sound.apart
  distinct key member other otherMember same := by
    rw [sound.bytes_eq (extends_allocate self buffer) member,
      sound.bytes_eq (extends_allocate self buffer) otherMember] at same
    exact sound.distinct key member other otherMember same

theorem bytes_allocate (self : InternedStrings) (str : Bytes) :
    (self.allocate (str ++ [0])).1.bytes
      { data := self.buffers.length, size := strlen (str ++ [0]) } = cString str := by
  rw [bytes, allocate, List.getD_append_right _ _ _ _ (le_refl _), Nat.sub_self]
  exact cString_eq_take str

/-- Keys that are told apart by something remain so with another one. -/
theorem apart_concat {Mark : Type*} {mark : StringView → Mark} {keys : List StringView}
    (apart : ∀ one ∈ keys, ∀ other ∈ keys, mark one = mark other → one = other)
    (fresh : ∀ other ∈ keys, mark other ≠ mark key) :
    ∀ one ∈ keys ++ [key], ∀ other ∈ keys ++ [key], mark one = mark other → one = other := by
  intro one member other otherMember same
  rcases List.mem_append.mp member with old | new <;>
    rcases List.mem_append.mp otherMember with otherOld | otherNew
  · exact apart one old other otherOld same
  · rw [List.mem_singleton.mp otherNew] at same
    exact absurd same (fresh one old)
  · rw [List.mem_singleton.mp new] at same
    exact absurd same.symm (fresh other otherOld)
  · rw [List.mem_singleton.mp new, List.mem_singleton.mp otherNew]

/-- What the call on a string comes to: a key for the string up to its first NUL. -/
structure Interned (before : InternedStrings) (str : Bytes) (after : InternedStrings)
    (result : StringView) : Prop where
  sound : after.Sound
  more : after.Extends before
  member : result ∈ after.values
  bytes : after.bytes result = cString str

/-- A new key is a view of its own buffer. -/
theorem Sound.emplace (sound : self.Sound) (key : StringView)
    (allocated : key.data < self.buffers.length)
    (fresh : ∀ other ∈ self.values, other.data ≠ key.data) (holds : self.bytes key = cString str) :
    self.Interned str (self.emplace key).1 (self.emplace key).2 := by
  unfold InternedStrings.emplace
  split
  · rename_i found present
    obtain ⟨member, same⟩ := find_some present
    exact ⟨sound, .refl self, member, same.trans holds⟩
  · rename_i missing
    have different : ∀ other ∈ self.values, self.bytes other ≠ self.bytes key :=
      fun other member => find_none missing member
    refine ⟨⟨?_, ?_, ?_, ?_⟩, ⟨List.prefix_refl _, fun _ => List.mem_append_left _⟩,
      List.mem_append_right _ (List.mem_singleton_self key), holds⟩
    · intro other member
      rcases List.mem_append.mp member with old | new
      · exact sound.allocated other old
      · rw [List.mem_singleton.mp new]
        exact allocated
    · intro other member
      rcases List.mem_append.mp member with old | new
      · exact sound.terminated other old
      · rw [List.mem_singleton.mp new]
        change cString (self.bytes key) = self.bytes key
        rw [holds, cString_cString]
    · exact apart_concat sound.apart fresh
    · exact apart_concat sound.distinct different

/-- `intern` gives a view of the characters up to the first NUL. -/
theorem Sound.intern (sound : self.Sound) (str : Bytes) :
    self.Interned str (self.intern str).1 (self.intern str).2 := by
  unfold InternedStrings.intern
  split
  · rename_i found present
    obtain ⟨member, same⟩ := find_some present
    refine ⟨sound, .refl self, member, ?_⟩
    rw [← same, sound.terminated found member]
  · have added := (sound.allocate (str ++ [0])).emplace _ (length_allocate self _)
      (sound.fresh _) (bytes_allocate self str)
    exact ⟨added.sound, added.more.trans (extends_allocate self _), added.member, added.bytes⟩

/-- A string that is a key is not allocated again. -/
theorem intern_of_mem (member : key ∈ self.values) (same : self.bytes key = str) :
    (self.intern str).1 = self := by
  obtain ⟨found, present⟩ := Option.isSome_iff_exists.mp (find_isSome member)
  rw [same] at present
  rw [intern, present]

/-! ## What a run does -/

/-- The strings once they have all been interned. -/
def final (self : InternedStrings) : List Bytes → InternedStrings
  | [] => self
  | str :: rest => (self.call str).after.final rest

theorem Sound.final (sound : self.Sound) (strs : List Bytes) :
    (self.final strs).Sound ∧ (self.final strs).Extends self := by
  induction strs generalizing self with
  | nil => exact ⟨sound, .refl self⟩
  | cons str rest continued =>
      have interned := sound.intern str
      obtain ⟨lasting, more⟩ := continued interned.sound
      exact ⟨lasting, more.trans interned.more⟩

/-- Every call of a run ends as it should, and what it has returned stays. -/
theorem Sound.calls (sound : self.Sound) {strs : List Bytes} {call : Call}
    (made : call ∈ self.calls strs) :
    call.str ∈ strs ∧ call.before.Extends self ∧
      call.before.Interned call.str call.after call.result ∧
      (self.final strs).Extends call.after ∧ call.after = (call.before.intern call.str).1 := by
  induction strs generalizing self with
  | nil => cases made
  | cons str rest continued =>
      have interned := sound.intern str
      rcases List.mem_cons.mp made with rfl | later
      · exact ⟨List.mem_cons_self, .refl self, interned, (interned.sound.final rest).2, rfl⟩
      · obtain ⟨member, more, ends, lasting, called⟩ := continued interned.sound later
        exact ⟨List.mem_cons_of_mem _ member, more.trans interned.more, ends, lasting, called⟩

theorem mem_calls (self : InternedStrings) {strs : List Bytes} (member : str ∈ strs) :
    ∃ call ∈ self.calls strs, call.str = str := by
  induction strs generalizing self with
  | nil => cases member
  | cons first rest continued =>
      rcases List.mem_cons.mp member with rfl | later
      · exact ⟨self.call str, List.mem_cons_self, rfl⟩
      · obtain ⟨call, made, same⟩ := continued (self.call first).after later
        exact ⟨call, List.mem_cons_of_mem _ made, same⟩

/-- Pointers are the same just where the strings are up to their first NULs. -/
theorem Sound.pointer_iff (sound : self.Sound) {strs : List Bytes} {call other : Call}
    (made : call ∈ self.calls strs) (otherMade : other ∈ self.calls strs) :
    call.result.data = other.result.data ↔ cString call.str = cString other.str := by
  obtain ⟨-, -, ends, lasting, -⟩ := sound.calls made
  obtain ⟨-, -, otherEnds, otherLasting, -⟩ := sound.calls otherMade
  have last := (sound.final strs).1
  have member := lasting.values _ ends.member
  have otherMember := otherLasting.values _ otherEnds.member
  have holds := (ends.sound.bytes_eq lasting ends.member).trans ends.bytes
  have otherHolds := (otherEnds.sound.bytes_eq otherLasting otherEnds.member).trans
    otherEnds.bytes
  constructor
  · intro same
    rw [← holds, ← otherHolds, last.apart _ member _ otherMember same]
  · intro same
    rw [← holds, ← otherHolds] at same
    rw [last.distinct _ member _ otherMember same]

/-- A text without NULs is copied once. -/
theorem Sound.once (sound : self.Sound) {strs : List Bytes} (free : ∀ str ∈ strs, 0 ∉ str) :
    (self.calls strs).Pairwise fun earlier later =>
      earlier.str = later.str → later.after.buffers = later.before.buffers := by
  induction strs generalizing self with
  | nil => exact .nil
  | cons str rest continued =>
      have interned := sound.intern str
      refine List.pairwise_cons.mpr ⟨fun later made same => ?_,
        continued interned.sound fun other member => free other (List.mem_cons_of_mem _ member)⟩
      obtain ⟨-, more, -, -, called⟩ := interned.sound.calls made
      have holds := (interned.sound.bytes_eq more interned.member).trans interned.bytes
      rw [cString_eq_self_iff.mpr (free str List.mem_cons_self)] at holds
      rw [called, intern_of_mem (more.values _ interned.member) (holds.trans same)]

theorem sound_empty : empty.Sound where
  allocated _ member := nomatch member
  terminated _ member := nomatch member
  apart _ member := nomatch member
  distinct _ member := nomatch member

/--
For every sequence of strings, the calls return each string itself, the same pointer for
the same strings only, and allocate none twice, if and only if no string contains a NUL.
-/
theorem interns_calls_iff (strs : List Bytes) :
    Interns (empty.calls strs) ↔ ∀ str ∈ strs, 0 ∉ str := by
  constructor
  · rintro ⟨content, -, -⟩ str member
    obtain ⟨call, made, rfl⟩ := mem_calls empty member
    obtain ⟨-, -, ends, -, -⟩ := sound_empty.calls made
    rw [← cString_eq_self_iff, ← ends.bytes]
    exact content call made
  · intro free
    have whole : ∀ call ∈ empty.calls strs, cString call.str = call.str := by
      intro call made
      exact cString_eq_self_iff.mpr (free _ (sound_empty.calls made).1)
    refine ⟨fun call made => ?_, fun call made other otherMade => ?_, sound_empty.once free⟩
    · exact (sound_empty.calls made).2.2.1.bytes.trans (whole call made)
    · rw [sound_empty.pointer_iff made otherMade, whole call made, whole other otherMade]

/-- `a`, a NUL and `b`, twice. -/
def nulInside : List Bytes :=
  [[97, 0, 98], [97, 0, 98]]

/-- The first call returns `a`, and the second one allocates another buffer. -/
theorem not_interns_nulInside :
    ¬Interns (empty.calls nulInside) ∧
      (empty.calls nulInside).map (fun call => call.after.bytes call.result) = [[97], [97]] ∧
      (empty.calls nulInside).map (fun call => call.after.buffers.length) = [1, 2] := by
  refine ⟨fun interns => ?_, by decide, by decide⟩
  have content := interns.content (empty.call [97, 0, 98]) List.mem_cons_self
  exact absurd content (by decide)

/-! ## The strings of a document -/

/-- The characters of some bytes. -/
def charactersOf (bytes : Bytes) : Json.Text :=
  bytes.map fun byte => Char.ofNat byte.toNat

theorem ofNat_toNat (byte : UInt8) : (Char.ofNat byte.toNat).toNat = byte.toNat := by
  have small : byte.toNat < 256 := byte.toNat_lt
  have valid : byte.toNat.isValidChar := .inl (Nat.lt_trans small (by decide))
  rw [Char.ofNat, dif_pos valid]
  rfl

/-- Different bytes are different characters. -/
theorem charactersOf_injective : Function.Injective charactersOf := by
  refine List.map_injective_iff.mpr fun byte other same => ?_
  have equal := congrArg Char.toNat same
  rw [ofNat_toNat, ofNat_toNat] at equal
  exact UInt8.toNat_inj.mp equal

theorem cString_charactersOf (bytes : Bytes) :
    Json.cString (charactersOf bytes) = charactersOf (cString bytes) := by
  unfold Json.cString charactersOf cString
  rw [List.takeWhile_map]
  congr 2
  funext byte
  have nul : Char.ofNat byte.toNat = '\x00' ↔ byte = 0 := by
    constructor
    · intro same
      have zero : byte.toNat = 0 := by rw [← ofNat_toNat byte, same]; rfl
      exact UInt8.toNat_inj.mp zero
    · rintro rfl
      rfl
  simp only [Function.comp_apply, ne_eq, nul]

/-- The buffer of a key without the NUL behind it. -/
def contents (self : InternedStrings) (key : StringView) : Bytes :=
  (self.buffers.getD key.data []).dropLast

/-- The texts are those of the keys' buffers. -/
structure Represents (interned : InternedStrings) (strings : List Json.Text) : Prop where
  sound : interned.Sound
  keys : ∀ key ∈ interned.values, interned.bytes key = cString (interned.contents key)
  texts : strings = interned.values.map fun key => charactersOf (interned.contents key)

variable {strings : List Json.Text}

/-- What the documents look for are the keys. -/
theorem Represents.find (represents : self.Represents strings) (str : Bytes) :
    strings.find? (fun buffer => decide (Json.cString buffer = charactersOf str)) =
      (self.find str).map fun key => charactersOf (self.contents key) := by
  rw [represents.texts, List.find?_map, InternedStrings.find]
  congr 1
  refine List.find?_congr fun key member => ?_
  rw [Function.comp_apply, cString_charactersOf, ← represents.keys key member]
  exact decide_eq_decide.mpr charactersOf_injective.eq_iff

theorem Represents.allocate (represents : self.Represents strings) (buffer : Bytes) :
    (self.allocate buffer).1.Represents strings := by
  have same : ∀ key ∈ self.values,
      (self.allocate buffer).1.contents key = self.contents key := by
    intro key member
    rw [contents, contents, InternedStrings.allocate,
      List.getD_append _ _ _ _ (represents.sound.allocated key member)]
  refine ⟨represents.sound.allocate buffer, fun key member => ?_, ?_⟩
  · rw [same key member, represents.sound.bytes_eq (extends_allocate self buffer) member]
    exact represents.keys key member
  · rw [represents.texts]
    exact List.map_congr_left fun key member => congrArg charactersOf (same key member).symm

/-- A key that is new stands for a text more. -/
theorem Represents.emplace (represents : self.Represents strings) {str : Bytes}
    (key : StringView) (allocated : key.data < self.buffers.length)
    (fresh : ∀ other ∈ self.values, other.data ≠ key.data)
    (holds : self.bytes key = cString str) (whole : self.contents key = str)
    (missing : self.find (cString str) = none) :
    self.emplace key = ({ self with values := self.values ++ [key] }, key) ∧
      (self.emplace key).1.Represents (strings ++ [charactersOf str]) := by
  have added := represents.sound.emplace key allocated fresh holds
  have emplaced : self.emplace key = ({ self with values := self.values ++ [key] }, key) := by
    rw [InternedStrings.emplace, holds, missing]
  rw [emplaced] at added ⊢
  refine ⟨rfl, added.sound, fun other member => ?_, ?_⟩
  · rcases List.mem_append.mp member with old | new
    · exact represents.keys other old
    · rw [List.mem_singleton.mp new]
      exact holds.trans (congrArg cString whole.symm)
  · rw [List.map_append, represents.texts, ← whole]
    rfl

/-- A call answers with the buffer that the documents are told of. -/
theorem Represents.intern (represents : self.Represents strings) (str : Bytes) :
    (self.intern str).1.Represents (Json.intern strings (charactersOf str)).1 ∧
      charactersOf ((self.intern str).1.contents (self.intern str).2) =
        (Json.intern strings (charactersOf str)).2 := by
  have allocated := represents.allocate (str ++ [0])
  have holds := bytes_allocate self str
  unfold InternedStrings.intern Json.intern
  rw [represents.find]
  cases self.find str with
  | some found => exact ⟨represents, rfl⟩
  | none =>
      dsimp only [Option.map_none]
      rw [cString_charactersOf, allocated.find]
      cases present : (self.allocate (str ++ [0])).1.find (cString str) with
      | some found =>
          have emplaced : (self.allocate (str ++ [0])).1.emplace
              ⟨self.buffers.length, strlen (str ++ [0])⟩ =
                ((self.allocate (str ++ [0])).1, found) := by
            rw [InternedStrings.emplace, holds, present]
          exact emplaced ▸ ⟨allocated, rfl⟩
      | none =>
          have whole : (self.allocate (str ++ [0])).1.contents
              ⟨self.buffers.length, strlen (str ++ [0])⟩ = str := by
            rw [contents, InternedStrings.allocate,
              List.getD_append_right _ _ _ _ (le_refl _), Nat.sub_self]
            exact List.dropLast_concat
          obtain ⟨emplaced, after⟩ := allocated.emplace _ (length_allocate self _)
            (represents.sound.fresh _) holds whole present
          refine ⟨after, ?_⟩
          exact (congrArg (fun called : InternedStrings × StringView =>
            charactersOf (called.1.contents called.2)) emplaced).trans (congrArg charactersOf whole)

theorem represents_empty : empty.Represents [] :=
  ⟨sound_empty, fun _ member => (nomatch member), rfl⟩

/-- Through any number of calls the documents are told of the buffers that are kept. -/
theorem Represents.final (represents : self.Represents strings) (strs : List Bytes) :
    (self.final strs).Represents
      (strs.foldl (fun strings str => (Json.intern strings (charactersOf str)).1) strings) := by
  induction strs generalizing self strings with
  | nil => exact represents
  | cons str rest continued => exact continued (represents.intern str).1

/-- The buffers of a new object represent those that documents intern from none. -/
theorem represents_final (strs : List Bytes) :
    (empty.final strs).Represents
      (strs.foldl (fun strings str => (Json.intern strings (charactersOf str)).1) []) :=
  represents_empty.final strs

end InternedStrings

end ReactiveToolbox.Util
