import ReactiveToolbox.Lib.LinkedChain
import ReactiveToolbox.Util.JsonMemory

/-!
# Elements linked into a list

Every operation that adds to a list does one thing: a new slot is linked in behind an
element of the list, or made its first.  What the other elements show of it is the
same for all of them.
-/

namespace ReactiveToolbox.Util.Json

open ReactiveToolbox.Lib

/-- What the element at `other` becomes when `added` is linked in behind `prev`. -/
def MutableElement.relink (this : Address) (prev : Pointer) (added other : Address)
    (self : MutableElement) : MutableElement :=
  { self with
    next := if prev = some other then some added else self.next
    value := if other = this ∧ prev = none then .child (some added) else self.value
    size := if other = this then self.size + 1 else self.size }

section

variable {this last added other : Address} {self : MutableElement}

/-- Linking in as the first concerns the element of the list only. -/
theorem relink_first : self.relink this none added other =
    if other = this then { self with value := .child (some added), size := self.size + 1 }
    else self := by
  split
  · rename_i here
    simp only [MutableElement.relink, here, and_self, if_true, reduceCtorEq, if_false]
  · rename_i away
    simp only [MutableElement.relink, away, false_and, if_false, reduceCtorEq]

/-- Linking in behind an element concerns this element, and the count of the list. -/
theorem relink_behind : self.relink this (some last) added other =
    { self with
      next := if other = last then some added else self.next
      size := if other = this then self.size + 1 else self.size } := by
  simp only [MutableElement.relink, Option.some.injEq, reduceCtorEq, and_false, if_false,
    eq_comm (a := last)]

end

/-- What `insert_after` keeps of a value in an element of a document. -/
structure CopyOf (document : Nat) (value element : MutableElement) : Prop where
  elementType : element.elementType = value.elementType
  size : element.size = value.size
  key : element.key = value.key
  owned : element.document = some document
  value_eq : value.elementType ≠ .string → element.value = value.value
  string_eq : value.elementType = .string →
    ∃ text buffer, value.characters = some text ∧ element.value = .str buffer ∧
      cString buffer = cString text

/-- What an assignment keeps of a value: the union as it is, or an interned copy of its text. -/
def MutableElement.Stores (self : MutableElement) (kept : Value) : Prop :=
  kept = self.value ∨ self.elementType = .string ∧ ∃ text buffer,
    self.characters = some text ∧ kept = .str buffer ∧ cString buffer = cString text

namespace Memory

variable
    {memory middle sized after : Memory} {this added val : Address} {prev : Pointer}
    {document room fuel : Nat} {self value element : MutableElement}

/-- A new slot of a document has been linked in behind `prev`, or as the first. -/
structure Spliced (memory after : Memory) (document : Nat) (this : Address) (prev : Pointer)
    (element : MutableElement) (added : Address) : Prop where
  inside : ∃ generation index, added = .slot document generation index
  fresh : memory.get added = none
  new : after.get added = some element
  owned : element.document = some document
  first : prev = none → element.next = none
  behind : ∀ last, prev = some last →
    ∃ before, memory.get last = some before ∧ element.next = before.next
  others : ∀ other, other ≠ added →
    after.get other = (memory.get other).map (MutableElement.relink this prev added other)

theorem cloneElement_spec (cloned : memory.cloneElement (some document) val = some (after, added))
    (fits : memory.Fits document (room + 1)) (live : memory.get val = some value) :
    ∃ element, CopyOf document value element ∧ Allocated memory after document element added ∧
      after.Fits document room := by
  simp only [cloneElement, Option.bind_eq_bind, Option.bind_eq_some_iff, Prod.exists] at cloned
  obtain ⟨allocated, slot, alloc_eq, value', value_eq, copied, copied_eq, rest⟩ := cloned
  obtain ⟨allocated', slot', alloc_eq', alloc, fits'⟩ := allocElement_spec _ fits
  obtain ⟨rfl, rfl⟩ := Prod.mk.inj (Option.some.inj (alloc_eq'.symm.trans alloc_eq))
  have val_ne : val ≠ slot' := by
    rintro rfl
    rw [alloc.fresh] at live
    cases live
  rw [alloc.get_eq, if_neg val_ne, live] at value_eq
  obtain rfl := Option.some.inj value_eq
  have copied_get : ∀ other, copied.get other =
      if other = slot' then some { value with document := some document }
      else memory.get other := by
    intro other
    rw [get_update copied_eq, alloc.get_eq]
    split <;> rfl
  have fits_copied := fits'.update copied_eq
  by_cases string : value.elementType = .string
  · rw [if_pos string] at rest
    simp only [Option.bind_eq_some_iff, Prod.exists, Option.pure_def, Option.some.injEq,
      Prod.mk.injEq] at rest
    obtain ⟨text, text_eq, kept, buffer, kept_eq, after', after_eq, rfl, rfl⟩ := rest
    have interned := allocString_interned kept_eq
    refine ⟨{ value with document := some document, value := .str buffer }, ?_, ?_, ?_⟩
    · exact
        { elementType := rfl
          size := rfl
          key := rfl
          owned := rfl
          value_eq := fun other => absurd string other
          string_eq := fun _ => ⟨text, buffer, text_eq, rfl, interned.buffer_eq⟩ }
    · refine ⟨alloc.inside, alloc.fresh, fun other => ?_⟩
      rw [get_update after_eq, interned.get_eq, copied_get]
      split <;> rfl
    · exact (interned.fits _ _ fits_copied).update after_eq
  · rw [if_neg string] at rest
    simp only [Option.pure_def, Option.some.injEq, Prod.mk.injEq] at rest
    obtain ⟨rfl, rfl⟩ := rest
    refine ⟨{ value with document := some document }, ?_, ?_, fits_copied⟩
    · exact
        { elementType := rfl
          size := rfl
          key := rfl
          owned := rfl
          value_eq := fun _ => rfl
          string_eq := fun other => absurd other string }
    · exact ⟨alloc.inside, alloc.fresh, copied_get⟩

/-- `insert_after` of a value that is there, in a document with room. -/
theorem insertAfter_spliced
    (inserted : memory.insertAfter this prev val = some (after, added))
    (this_eq : memory.get this = some self) (owned : self.document = some document)
    (fits : memory.Fits document (room + 1)) (live : memory.get val = some value)
    (placed : ∀ last, prev = some last → ∃ before, memory.get last = some before) :
    ∃ element, CopyOf document value element ∧
      Spliced memory after document this prev element added ∧ after.Fits document room := by
  simp only [insertAfter, this_eq, owned, Option.isSome_some, if_true, Option.bind_eq_bind,
    Option.bind_some, Option.bind_eq_some_iff, Prod.exists] at inserted
  obtain ⟨cloned, slot, cloned_eq, linked⟩ := inserted
  obtain ⟨element, copy, alloc, fits'⟩ := cloneElement_spec cloned_eq fits live
  have this_ne : this ≠ slot := by
    rintro rfl
    rw [alloc.fresh] at this_eq
    cases this_eq
  cases prev with
  | none =>
      simp only [Option.bind_eq_some_iff, Option.pure_def, Option.some.injEq,
        Prod.mk.injEq] at linked
      obtain ⟨first, first_eq, second, second_eq, third, third_eq, rfl, rfl⟩ := linked
      refine ⟨{ element with next := none }, ⟨copy.elementType, copy.size, copy.key,
        copy.owned, copy.value_eq, copy.string_eq⟩, ?_,
        ((fits'.update first_eq).update second_eq).update third_eq⟩
      have get_eq : ∀ other, third.get other = _ := fun other => by
        rw [get_update third_eq, get_update second_eq, get_update first_eq, alloc.get_eq]
      exact
        { inside := alloc.inside
          fresh := alloc.fresh
          new := by
            rw [get_eq]
            simp only [this_ne.symm, if_true, if_false, Option.map_some]
          owned := copy.owned
          first := fun _ => rfl
          behind := fun _ absent => by cases absent
          others := fun other other_ne => by
            rw [get_eq]
            simp only [other_ne, if_false]
            cases memory.get other with
            | none => simp only [Option.map_none, ite_self]
            | some kept =>
                by_cases here : other = this
                · simp only [here, if_true, Option.map_some, relink_first]
                · simp only [here, if_false, Option.map_some, relink_first] }
  | some last =>
      simp only [Option.bind_eq_some_iff, Option.pure_def, Option.some.injEq,
        Prod.mk.injEq] at linked
      obtain ⟨before, before_eq, first, first_eq, second, second_eq, third, third_eq, rfl, rfl⟩ :=
        linked
      obtain ⟨before', placed⟩ := placed last rfl
      have last_ne : last ≠ slot := by
        rintro rfl
        rw [alloc.fresh] at placed
        cases placed
      rw [alloc.get_eq, if_neg last_ne, placed] at before_eq
      obtain rfl := Option.some.inj before_eq
      refine ⟨{ element with next := before'.next }, ⟨copy.elementType, copy.size, copy.key,
        copy.owned, copy.value_eq, copy.string_eq⟩, ?_,
        ((fits'.update first_eq).update second_eq).update third_eq⟩
      have get_eq : ∀ other, third.get other = _ := fun other => by
        rw [get_update third_eq, get_update second_eq, get_update first_eq, alloc.get_eq]
      exact
        { inside := alloc.inside
          fresh := alloc.fresh
          new := by
            rw [get_eq]
            simp only [this_ne.symm, last_ne.symm, if_true, if_false, Option.map_some]
          owned := copy.owned
          first := fun absent => by cases absent
          behind := fun _ same => ⟨before', Option.some.inj same ▸ placed, rfl⟩
          others := fun other other_ne => by
            rw [get_eq]
            simp only [other_ne, if_false]
            cases memory.get other with
            | none => simp only [Option.map_none, ite_self]
            | some kept =>
                simp only [Option.map_some, relink_behind]
                split <;> split <;> rfl }

/-- The last steps of both `at`: a new element, counted and linked in at the end. -/
theorem linkBehind_spliced (alloc : Allocated memory middle document element added)
    (fits : middle.Fits document room)
    (counted : middle.update this (fun element => { element with size := element.size + 1 }) =
      some sized)
    (linked : sized.linkBehind this prev added = some after)
    (this_eq : memory.get this = some self) (owned : element.document = some document)
    (ends : element.next = none)
    (last_next : ∀ last, prev = some last →
      ∃ before, memory.get last = some before ∧ before.next = none) :
    Spliced memory after document this prev element added ∧ after.Fits document room := by
  have this_ne : this ≠ added := by
    rintro rfl
    rw [alloc.fresh] at this_eq
    cases this_eq
  cases prev with
  | none =>
      have get_eq : ∀ other, after.get other = _ := fun other => by
        rw [get_update linked, get_update counted, alloc.get_eq]
      refine ⟨?_, (fits.update counted).update linked⟩
      exact
        { inside := alloc.inside
          fresh := alloc.fresh
          new := by
            rw [get_eq]
            simp only [this_ne.symm, if_true, if_false]
          owned := owned
          first := fun _ => ends
          behind := fun _ absent => by cases absent
          others := fun other other_ne => by
            rw [get_eq]
            simp only [other_ne, if_false]
            cases memory.get other with
            | none => simp only [Option.map_none, ite_self]
            | some kept =>
                by_cases here : other = this
                · simp only [here, if_true, Option.map_some, relink_first]
                · simp only [here, if_false, Option.map_some, relink_first] }
  | some last =>
      obtain ⟨before, before_eq, before_next⟩ := last_next last rfl
      have last_ne : last ≠ added := by
        rintro rfl
        rw [alloc.fresh] at before_eq
        cases before_eq
      have get_eq : ∀ other, after.get other = _ := fun other => by
        rw [get_update linked, get_update counted, alloc.get_eq]
      refine ⟨?_, (fits.update counted).update linked⟩
      exact
        { inside := alloc.inside
          fresh := alloc.fresh
          new := by
            rw [get_eq]
            simp only [this_ne.symm, last_ne.symm, if_true, if_false]
          owned := owned
          first := fun absent => by cases absent
          behind := fun _ same =>
            ⟨before, Option.some.inj same ▸ before_eq, ends.trans before_next.symm⟩
          others := fun other other_ne => by
            rw [get_eq]
            simp only [other_ne, if_false]
            cases memory.get other with
            | none => simp only [Option.map_none, ite_self]
            | some kept =>
                simp only [Option.map_some, relink_behind]
                split <;> split <;> rfl }

theorem document_of_alloc {owner : Option Nat} {elementType : ElementType}
    (allocated : memory.allocElement owner elementType = some (after, added)) :
    ∃ document, owner = some document := by
  simp only [allocElement, Option.bind_eq_bind, Option.bind_eq_some_iff] at allocated
  obtain ⟨document, owned, -⟩ := allocated
  exact ⟨document, owned⟩

theorem document_of_append (appended : memory.append this prev = some (after, added)) :
    ∃ self document, memory.get this = some self ∧ self.document = some document := by
  simp only [append, Option.bind_eq_bind, Option.bind_eq_some_iff, Prod.exists] at appended
  obtain ⟨self, this_eq, allocated, slot, alloc_eq, -⟩ := appended
  obtain ⟨document, owned⟩ := document_of_alloc alloc_eq
  exact ⟨self, document, this_eq, owned⟩

theorem append_spliced (appended : memory.append this prev = some (after, added))
    (this_eq : memory.get this = some self) (owned : self.document = some document)
    (fits : memory.Fits document (room + 1))
    (last_next : ∀ last, prev = some last →
      ∃ before, memory.get last = some before ∧ before.next = none) :
    Spliced memory after document this prev { document := some document } added ∧
      after.Fits document room := by
  simp only [append, this_eq, owned, Option.bind_eq_bind, Option.bind_some,
    Option.bind_eq_some_iff, Prod.exists, Option.pure_def, Option.some.injEq,
    Prod.mk.injEq] at appended
  obtain ⟨allocated, slot, alloc_eq, counted, counted_eq, linked, linked_eq, rfl, rfl⟩ := appended
  obtain ⟨_, _, alloc_eq', alloc, fits'⟩ := allocElement_spec _ fits
  obtain ⟨rfl, rfl⟩ := Prod.mk.inj (Option.some.inj (alloc_eq'.symm.trans alloc_eq))
  exact linkBehind_spliced alloc fits' counted_eq linked_eq this_eq rfl rfl last_next

/-! ## Searches -/

/-- A search without success ends at an element with a null link, if there is any. -/
theorem seekKey_tail {key : Text} {head start tail : Pointer}
    (sought : memory.seekKey key fuel head start = some (.inr tail)) :
    (head = none ∧ tail = start) ∨
      ∃ last before, tail = some last ∧ Reaches memory.next head last ∧
        memory.get last = some before ∧ before.next = none := by
  induction fuel generalizing head start with
  | zero =>
      cases head with
      | none =>
          simp only [seekKey, Option.some.injEq, Sum.inr.injEq] at sought
          exact Or.inl ⟨rfl, sought.symm⟩
      | some => cases sought
  | succ fuel ih =>
      cases head with
      | none =>
          simp only [seekKey, Option.some.injEq, Sum.inr.injEq] at sought
          exact Or.inl ⟨rfl, sought.symm⟩
      | some address =>
          simp only [seekKey, Option.bind_eq_bind, Option.bind_eq_some_iff] at sought
          obtain ⟨element, element_eq, name, -, sought⟩ := sought
          split at sought
          · cases sought
          · rcases ih sought with ⟨ends, rfl⟩ | ⟨last, before, rfl, reached, before_eq, ends⟩
            · exact Or.inr ⟨address, element, rfl, .first, element_eq, ends⟩
            · refine Or.inr ⟨last, before, rfl, .later ?_ reached, before_eq, ends⟩
              rw [next, element_eq, Option.map_some]

theorem seekKey_found {key : Text} {head start : Pointer} {found : Address}
    (sought : memory.seekKey key fuel head start = some (.inl found)) :
    Reaches memory.next head found ∧
      ∃ element, memory.get found = some element ∧ element.key = some key := by
  induction fuel generalizing head start with
  | zero => cases head <;> cases sought
  | succ fuel ih =>
      cases head with
      | none => cases sought
      | some address =>
          simp only [seekKey, Option.bind_eq_bind, Option.bind_eq_some_iff] at sought
          obtain ⟨element, element_eq, name, name_eq, sought⟩ := sought
          split at sought
          · rename_i same
            obtain rfl := Sum.inl.inj (Option.some.inj sought)
            exact ⟨.first, element, element_eq, same ▸ name_eq⟩
          · obtain ⟨reached, named⟩ := ih sought
            refine ⟨.later ?_ reached, named⟩
            rw [next, element_eq, Option.map_some]

theorem seekIndex_tail {index count count' : Nat} {head start tail : Pointer}
    (sought : memory.seekIndex index fuel count head start = some (.inr (count', tail))) :
    (head = none ∧ tail = start) ∨
      ∃ last before, tail = some last ∧ Reaches memory.next head last ∧
        memory.get last = some before ∧ before.next = none := by
  induction fuel generalizing head start count with
  | zero =>
      cases head with
      | none =>
          simp only [seekIndex, Option.some.injEq, Sum.inr.injEq, Prod.mk.injEq] at sought
          exact Or.inl ⟨rfl, sought.2.symm⟩
      | some => cases sought
  | succ fuel ih =>
      cases head with
      | none =>
          simp only [seekIndex, Option.some.injEq, Sum.inr.injEq, Prod.mk.injEq] at sought
          exact Or.inl ⟨rfl, sought.2.symm⟩
      | some address =>
          simp only [seekIndex, Option.bind_eq_bind, Option.bind_eq_some_iff] at sought
          obtain ⟨element, element_eq, sought⟩ := sought
          split at sought
          · cases sought
          · rcases ih sought with ⟨ends, rfl⟩ | ⟨last, before, rfl, reached, before_eq, ends⟩
            · exact Or.inr ⟨address, element, rfl, .first, element_eq, ends⟩
            · refine Or.inr ⟨last, before, rfl, .later ?_ reached, before_eq, ends⟩
              rw [next, element_eq, Option.map_some]

theorem seekIndex_found {index count : Nat} {head start : Pointer} {found : Address}
    (sought : memory.seekIndex index fuel count head start = some (.inl found)) :
    Reaches memory.next head found := by
  induction fuel generalizing head start count with
  | zero => cases head <;> cases sought
  | succ fuel ih =>
      cases head with
      | none => cases sought
      | some address =>
          simp only [seekIndex, Option.bind_eq_bind, Option.bind_eq_some_iff] at sought
          obtain ⟨element, element_eq, sought⟩ := sought
          split at sought
          · obtain rfl := Sum.inl.inj (Option.some.inj sought)
            exact .first
          · refine .later ?_ (ih sought)
            rw [next, element_eq, Option.map_some]

/-! ## The two `at` -/

/-- What `at(key)` does that does not throw: it finds the element, or adds one. -/
theorem atKey_ok {key : Text} {found : Address}
    (at_eq : memory.atKey fuel this key = some (.ok (after, found)))
    (this_eq : memory.get this = some self) :
    (self.elementType = .object ∨ self.elementType = .nullValue) ∧
      ∃ typed head,
        memory.update this (fun element => { element with elementType := .object }) =
          some typed ∧
        self.child = some head ∧
        ((memory.seekKey key fuel head none = some (.inl found) ∧ after = typed) ∨
          ∃ tail document, memory.seekKey key fuel head none = some (.inr tail) ∧
            self.document = some document ∧
            ∀ room, memory.Fits document (room + 1) →
              Spliced typed after document this tail
                { key := some (cString key), document := some document } found ∧
              after.Fits document room) := by
  simp only [atKey, this_eq, Option.bind_eq_bind, Option.bind_some] at at_eq
  split at at_eq
  · cases at_eq
  · rename_i right
    refine ⟨by grind, ?_⟩
    simp only [Option.bind_eq_some_iff] at at_eq
    obtain ⟨typed, typed_eq, head, head_eq, outcome, sought, at_eq⟩ := at_eq
    refine ⟨typed, head, typed_eq, head_eq, ?_⟩
    cases outcome with
    | inl address =>
        simp only [Option.pure_def, Option.some.injEq, Except.ok.injEq, Prod.mk.injEq] at at_eq
        exact Or.inl ⟨at_eq.2 ▸ sought, at_eq.1.symm⟩
    | inr tail =>
        simp only [Option.bind_eq_some_iff, Prod.exists, Option.pure_def,
          Option.some.injEq, Except.ok.injEq, Prod.mk.injEq] at at_eq
        obtain ⟨allocated, slot, alloc_eq, kept, name, kept_eq, named, named_eq, counted,
          counted_eq, linked, linked_eq, rfl, rfl⟩ := at_eq
        obtain ⟨document, owned⟩ := document_of_alloc alloc_eq
        refine Or.inr ⟨tail, document, sought, owned, fun room fits => ?_⟩
        rw [owned] at alloc_eq
        obtain ⟨_, slot', alloc_eq', alloc, fits'⟩ := allocElement_spec _ (fits.update typed_eq)
        obtain ⟨rfl, rfl⟩ := Prod.mk.inj (Option.some.inj (alloc_eq'.symm.trans alloc_eq))
        have interned := allocString_interned kept_eq
        have this_typed : typed.get this = some { self with elementType := .object } := by
          rw [get_update typed_eq, if_pos rfl, this_eq, Option.map_some]
        have keyed : Allocated typed named document
            { key := some (cString key), document := some document } slot' := by
          refine ⟨alloc.inside, alloc.fresh, fun other => ?_⟩
          rw [get_update named_eq, interned.get_eq, alloc.get_eq, ← interned.buffer_eq]
          split <;> rfl
        refine linkBehind_spliced keyed ((interned.fits _ _ fits').update named_eq) counted_eq
          linked_eq this_typed rfl rfl fun last last_eq => ?_
        rcases seekKey_tail sought with ⟨-, rfl⟩ | ⟨last', before, rfl, -, before_eq, ends⟩
        · cases last_eq
        · obtain rfl := Option.some.inj last_eq
          rw [get_update typed_eq, before_eq]
          split
          · exact ⟨_, rfl, ends⟩
          · exact ⟨_, rfl, ends⟩

/-- Only an element that is neither of the type nor null makes `at` throw. -/
theorem atKey_error {key : Text} {error : JsonError}
    (at_eq : memory.atKey fuel this key = some (.error error))
    (this_eq : memory.get this = some self) :
    self.elementType ≠ .object ∧ self.elementType ≠ .nullValue := by
  simp only [atKey, this_eq, Option.bind_eq_bind, Option.bind_some] at at_eq
  split at at_eq
  · rename_i wrong
    exact wrong
  · simp only [Option.bind_eq_some_iff] at at_eq
    obtain ⟨typed, -, head, -, outcome, -, at_eq⟩ := at_eq
    cases outcome with
    | inl => cases at_eq
    | inr =>
        simp only [Option.bind_eq_some_iff, Prod.exists] at at_eq
        obtain ⟨_, _, -, _, _, -, _, -, _, -, _, -, at_eq⟩ := at_eq
        cases at_eq

theorem atIndex_error {index : Nat} {error : JsonError}
    (at_eq : memory.atIndex fuel this index = some (.error error))
    (this_eq : memory.get this = some self) :
    self.elementType ≠ .array ∧ self.elementType ≠ .nullValue := by
  simp only [atIndex, this_eq, Option.bind_eq_bind, Option.bind_some] at at_eq
  split at at_eq
  · rename_i wrong
    exact wrong
  · simp only [Option.bind_eq_some_iff] at at_eq
    obtain ⟨typed, -, head, -, outcome, -, at_eq⟩ := at_eq
    cases outcome with
    | inl => cases at_eq
    | inr =>
        simp only [Option.bind_eq_some_iff, Prod.exists] at at_eq
        obtain ⟨_, _, -, _, -, at_eq⟩ := at_eq
        cases at_eq

theorem atIndex_ok {index : Nat} {found : Address}
    (at_eq : memory.atIndex fuel this index = some (.ok (after, found)))
    (this_eq : memory.get this = some self) :
    (self.elementType = .array ∨ self.elementType = .nullValue) ∧
      ∃ typed head,
        memory.update this (fun element => { element with elementType := .array }) =
          some typed ∧
        self.child = some head ∧
        ((memory.seekIndex index fuel 0 head none = some (.inl found) ∧ after = typed) ∨
          ∃ count tail, memory.seekIndex index fuel 0 head none = some (.inr (count, tail)) ∧
            typed.appendAll this (index + 1 - count) tail = some (after, some found)) := by
  simp only [atIndex, this_eq, Option.bind_eq_bind, Option.bind_some] at at_eq
  split at at_eq
  · cases at_eq
  · rename_i right
    refine ⟨by grind, ?_⟩
    simp only [Option.bind_eq_some_iff] at at_eq
    obtain ⟨typed, typed_eq, head, head_eq, outcome, sought, at_eq⟩ := at_eq
    refine ⟨typed, head, typed_eq, head_eq, ?_⟩
    cases outcome with
    | inl address =>
        simp only [Option.pure_def, Option.some.injEq, Except.ok.injEq, Prod.mk.injEq] at at_eq
        exact Or.inl ⟨at_eq.2 ▸ sought, at_eq.1.symm⟩
    | inr ends =>
        obtain ⟨count, tail⟩ := ends
        simp only [Option.bind_eq_some_iff, Prod.exists, Option.pure_def,
          Option.some.injEq, Except.ok.injEq, Prod.mk.injEq] at at_eq
        obtain ⟨grown, last, grown_eq, added, rfl, rfl, rfl⟩ := at_eq
        exact Or.inr ⟨count, tail, sought, grown_eq⟩

/-! ## Assignment -/

/-- What an assignment makes of `this`, before the elements of a list are copied. -/
theorem assign_cases (assigned : memory.assign fuel this val = some after)
    (value_eq : memory.get val = some value) :
    (value.isContainer ∧ ∃ emptied source head,
      Changed memory emptied this (fun element =>
        { element with elementType := value.elementType, value := .child none, size := 0 }) ∧
      (∀ document room, memory.Fits document room → emptied.Fits document room) ∧
      emptied.get val = some source ∧ source.child = some head ∧
      emptied.insertAll this fuel none head = some after) ∨
    (¬value.isContainer ∧ ∃ kept, value.Stores kept ∧
      Changed memory after this (fun element =>
        { element with elementType := value.elementType, size := value.size, value := kept }) ∧
      ∀ document room, memory.Fits document room → after.Fits document room) := by
  simp only [Memory.assign, value_eq, Option.bind_eq_bind, Option.bind_some,
    Option.bind_eq_some_iff] at assigned
  obtain ⟨self, this_eq, typed, typed_eq, assigned⟩ := assigned
  by_cases container : value.isContainer = true
  · have no_string : value.elementType ≠ .string := by
      intro string
      simp [MutableElement.isContainer, string] at container
    simp only [no_string, and_false, if_false, container, if_true,
      Option.bind_eq_some_iff] at assigned
    obtain ⟨emptied, emptied_eq, source, source_eq, head, head_eq, it, it_eq, inserted⟩ := assigned
    have changed := (get_update typed_eq).trans (get_update emptied_eq)
    have emptied_this : emptied.get this =
        some { self with elementType := value.elementType, value := .child none, size := 0 } := by
      rw [changed, if_pos rfl, this_eq]
      rfl
    simp only [back, emptied_this, Option.bind_eq_bind, Option.bind_some, MutableElement.child,
      lastFrom, Option.some.injEq] at it_eq
    subst it_eq
    exact Or.inl ⟨container, emptied, source, head, changed,
      fun _ _ fits => (fits.update typed_eq).update emptied_eq, source_eq, head_eq, inserted⟩
  · refine Or.inr ⟨container, ?_⟩
    by_cases interns : self.document.isSome = true ∧ value.document.isNone = true ∧
        value.elementType = .string
    · simp only [if_pos interns, if_neg container, Option.bind_eq_some_iff, Prod.exists,
        Option.pure_def, Option.some.injEq] at assigned
      obtain ⟨text, text_eq, kept, buffer, kept_eq, after', after_eq, rfl⟩ := assigned
      have interned := allocString_interned kept_eq
      refine ⟨.str buffer, Or.inr ⟨interns.2.2, text, buffer, text_eq, rfl,
        interned.buffer_eq⟩, fun other => ?_, fun _ _ fits =>
          (interned.fits _ _ (fits.update typed_eq)).update after_eq⟩
      rw [get_update after_eq, interned.get_eq, get_update typed_eq]
      split
      · rw [Option.map_map]
        rfl
      · rfl
    · simp only [if_neg interns, if_neg container, Option.pure_def, Option.some.injEq] at assigned
      subst assigned
      exact ⟨value.value, Or.inl rfl, get_update typed_eq, fun _ _ fits => fits.update typed_eq⟩

end Memory

end ReactiveToolbox.Util.Json
