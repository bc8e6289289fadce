import ReactiveToolbox.Util.Json
import Mathlib.Data.List.TakeWhile
import Mathlib.Tactic.Common

/-!
# Memory of JSON documents

What the assignments and allocations of the documents do to the elements at all
addresses.  An allocation that fits leaves every address of before where it is.
-/

namespace ReactiveToolbox.Util.Json

/-- The document that an address belongs to. -/
def Address.document : Address → Option Nat
  | .root document => some document
  | .slot document _ _ => some document
  | .temporary _ => none

namespace Memory

variable {memory after : Memory} {address added : Address} {document room : Nat}

/-- The element that a document keeps at an address. -/
def held (self : Memory) : Address → Option MutableElement
  | .temporary _ => none
  | address => self.get address

/-- The `next_` of any element, a temporary among them. -/
def next (self : Memory) (address : Address) : Option Pointer :=
  (self.get address).map (·.next)

theorem get_of_held {element : MutableElement} (held : memory.held address = some element) :
    memory.get address = some element := by
  cases address with
  | temporary => cases held
  | root => exact held
  | slot => exact held

theorem held_of_get {element : MutableElement} (got : memory.get address = some element)
    (kept : address.document = some document) : memory.held address = some element := by
  cases address with
  | temporary => cases kept
  | root => exact got
  | slot => exact got

/-- The elements of the documents do not depend on the temporaries. -/
@[simp]
theorem held_temporaries (temporaries : List MutableElement) :
    { memory with temporaries := temporaries }.held address = memory.held address := by
  cases address <;> rfl

/-! ## Assignments -/

/-- What is stored is found where it has been stored. -/
theorem get_put {element old : MutableElement} (live : memory.get address = some old)
    (other : Address) :
    (memory.put address element).get other =
      if other = address then some element else memory.get other := by
  cases address with
  | temporary index =>
      obtain ⟨within, -⟩ := List.getElem?_eq_some_iff.mp live
      cases other with
      | temporary index' =>
          simp only [put, get, List.getElem?_set, Address.temporary.injEq]
          by_cases same : index = index'
          · simp [same, same ▸ within]
          · simp [same, Ne.symm same]
      | root => simp [put, get]
      | slot => simp [put, get]
  | root document =>
      cases other with
      | temporary => simp [put, get]
      | root document' =>
          simp only [put, get, List.getElem?_modify, Address.root.injEq]
          simp only [get, Option.map_eq_some_iff] at live
          obtain ⟨owner, owner_eq, -⟩ := live
          by_cases same : document = document'
          · subst same
            simp [owner_eq]
          · simp [same, Ne.symm same]
      | slot document' generation index =>
          simp only [put, get, List.getElem?_modify, reduceCtorEq, if_false]
          by_cases same : document = document'
          · subst same
            cases memory.documents[document]? <;> simp
          · simp [same]
  | slot document generation index =>
      cases other with
      | temporary => simp [put, get]
      | root document' =>
          simp only [put, get, List.getElem?_modify, reduceCtorEq, if_false]
          by_cases same : document = document'
          · subst same
            cases memory.documents[document]? <;> simp
          · simp [same]
      | slot document' generation' index' =>
          simp only [get, Option.bind_eq_bind, Option.bind_eq_some_iff] at live
          obtain ⟨owner, owner_eq, live⟩ := live
          split at live
          · rename_i current
            obtain ⟨within, -⟩ := List.getElem?_eq_some_iff.mp live
            simp only [put, get, List.getElem?_modify, Address.slot.injEq]
            by_cases same : document = document'
            · subst same
              subst current
              simp only [owner_eq, Option.map_eq_map, Option.map_some, if_true,
                Option.bind_eq_bind, Option.bind_some, List.getElem?_set, true_and]
              grind
            · simp [same, Ne.symm same]
          · cases live

/-- Only the element at the address has changed, and only so. -/
abbrev Changed (memory after : Memory) (address : Address)
    (change : MutableElement → MutableElement) : Prop :=
  ∀ other, after.get other =
    if other = address then (memory.get other).map change else memory.get other

section

variable {change : MutableElement → MutableElement}

/-- An update changes one element. -/
theorem get_update (updated : memory.update address change = some after) :
    Changed memory after address change := by
  intro other
  obtain ⟨element, live, rfl⟩ := Option.map_eq_some_iff.mp updated
  rw [get_put live]
  split
  · rename_i same
    rw [same, live, Option.map_some]
  · rfl

theorem Changed.held (changed : Changed memory after address change) (other : Address) :
    after.held other =
      if other = address then (memory.held other).map change else memory.held other := by
  cases other with
  | temporary => simp only [Memory.held, Option.map_none, ite_self]
  | root document => exact changed (.root document)
  | slot document generation index => exact changed (.slot document generation index)

theorem Changed.trans {middle : Memory} {change' : MutableElement → MutableElement}
    (changed : Changed memory middle address change)
    (changed' : Changed middle after address change') :
    Changed memory after address (change' ∘ change) := by
  intro other
  rw [changed', changed]
  split
  · rw [Option.map_map]
  · rfl

theorem update_of_live {element : MutableElement} (live : memory.get address = some element)
    (change : MutableElement → MutableElement) :
    ∃ after, memory.update address change = some after :=
  ⟨_, by rw [update, live, Option.map_some]⟩

end

/-! ## Changes of one document -/

section

variable {owner changed : MutableDocument}

theorem get_root (owned : memory.documents[document]? = some owner) :
    memory.get (.root document) = some owner.root := by
  rw [get, owned, Option.map_some]

theorem get_slot (owned : memory.documents[document]? = some owner) (generation index : Nat) :
    memory.get (.slot document generation index) =
      if owner.generation = generation then owner.elements[index]? else none := by
  rw [get, owned]
  rfl

theorem documents_set (changed : MutableDocument)
    (owned : memory.documents[document]? = some owner) :
    (memory.documents.set document changed)[document]? = some changed := by
  obtain ⟨within, -⟩ := List.getElem?_eq_some_iff.mp owned
  rw [List.getElem?_set, if_pos rfl, if_pos within]

/-- A change of one document does not reach the others. -/
theorem get_set_of_ne (elsewhere : address.document ≠ some document) :
    { memory with documents := memory.documents.set document changed }.get address =
      memory.get address := by
  cases address with
  | temporary => rfl
  | root document' =>
      have other : document ≠ document' := fun same => elsewhere (by rw [same]; rfl)
      simp only [get, List.getElem?_set, if_neg other]
  | slot document' =>
      have other : document ≠ document' := fun same => elsewhere (by rw [same]; rfl)
      simp only [get, List.getElem?_set, if_neg other]

end

/-! ## Allocations -/

/--
The document has room for so many more elements: its vector need not move, or holds
nothing yet.
-/
def Fits (self : Memory) (document room : Nat) : Prop :=
  ∃ owner, self.documents[document]? = some owner ∧
    owner.elements.length + room ≤ max owner.capacity 1

/-- The document of `this` has room for so many more elements. -/
def Room (self : Memory) (this : Address) (room : Nat) : Prop :=
  ∀ document, this.document = some document → self.Fits document room

theorem Fits.mono {less : Nat} (fits : memory.Fits document room) (le : less ≤ room) :
    memory.Fits document less := by
  obtain ⟨owner, owner_eq, bounded⟩ := fits
  exact ⟨owner, owner_eq, by omega⟩

theorem Fits.update {change : MutableElement → MutableElement}
    (fits : memory.Fits document room)
    (updated : memory.update address change = some after) :
    after.Fits document room := by
  obtain ⟨owner, owner_eq, bounded⟩ := fits
  obtain ⟨element, -, rfl⟩ := Option.map_eq_some_iff.mp updated
  cases address with
  | temporary => exact ⟨owner, owner_eq, bounded⟩
  | root document' =>
      by_cases same : document' = document
      · refine ⟨{ owner with root := change element }, ?_, bounded⟩
        simp [put, same, owner_eq]
      · refine ⟨owner, ?_, bounded⟩
        simp [put, same, owner_eq]
  | slot document' generation index =>
      by_cases same : document' = document
      · refine ⟨{ owner with elements := owner.elements.set index (change element) }, ?_, ?_⟩
        · simp [put, same, owner_eq]
        · simpa using bounded
      · refine ⟨owner, ?_, bounded⟩
        simp [put, same, owner_eq]

section

variable {owner : MutableDocument} {elementType : ElementType}

theorem emplaceBack_root :
    (owner.emplaceBack document elementType).root = owner.root := by
  unfold MutableDocument.emplaceBack
  split <;> rfl

theorem emplaceBack_room (fits : owner.elements.length + (room + 1) ≤ max owner.capacity 1) :
    (owner.emplaceBack document elementType).elements.length + room ≤
      max (owner.emplaceBack document elementType).capacity 1 := by
  unfold MutableDocument.emplaceBack
  split <;>
  · simp only [List.length_append, List.length_map, List.length_cons, List.length_nil]
    omega

/-- Where there is room an element is added behind the others. -/
theorem emplaceBack_elements (fits : owner.elements.length + 1 ≤ max owner.capacity 1) :
    (owner.emplaceBack document elementType).elements =
      owner.elements ++ [{ elementType := elementType, document := some document }] := by
  unfold MutableDocument.emplaceBack
  split
  · rfl
  · rename_i full
    have empty : owner.elements = [] := List.eq_nil_of_length_eq_zero (by omega)
    simp only [empty, List.map_nil]

/-- A vector that moves although there is room holds nothing. -/
theorem emplaceBack_generation (document : Nat) (elementType : ElementType)
    (fits : owner.elements.length + 1 ≤ max owner.capacity 1) :
    (owner.emplaceBack document elementType).generation = owner.generation ∨
      owner.elements = [] := by
  unfold MutableDocument.emplaceBack
  split
  · exact Or.inl rfl
  · exact Or.inr (List.eq_nil_of_length_eq_zero (by omega))

theorem emplaceBack_getElem (fits : owner.elements.length + 1 ≤ max owner.capacity 1)
    (generation index : Nat) :
    (if (owner.emplaceBack document elementType).generation = generation then
        (owner.emplaceBack document elementType).elements[index]? else none) =
      if generation = (owner.emplaceBack document elementType).generation ∧
          index = owner.elements.length then
        some { elementType := elementType, document := some document }
      else if owner.generation = generation then owner.elements[index]? else none := by
  rw [emplaceBack_elements fits]
  rcases emplaceBack_generation document elementType fits with stays | empty
  · rw [stays]
    grind
  · rw [empty]
    grind

end

/-- What an allocation does that leaves the vector in place. -/
structure Allocated (memory after : Memory) (document : Nat) (element : MutableElement)
    (added : Address) : Prop where
  inside : ∃ generation index, added = .slot document generation index
  fresh : memory.get added = none
  get_eq : ∀ other, after.get other =
    if other = added then some element else memory.get other

/-- Where there is room an element is allocated, and all others stay. -/
theorem allocElement_spec (elementType : ElementType)
    (fits : memory.Fits document (room + 1)) :
    ∃ after added, memory.allocElement (some document) elementType = some (after, added) ∧
      Allocated memory after document
        { elementType := elementType, document := some document } added ∧
      after.Fits document room := by
  obtain ⟨owner, owner_eq, bounded⟩ := fits
  have owner_after := documents_set (owner.emplaceBack document elementType) owner_eq
  refine ⟨{ memory with
      documents := memory.documents.set document (owner.emplaceBack document elementType) },
    .slot document (owner.emplaceBack document elementType).generation owner.elements.length,
    ?_, ⟨⟨_, _, rfl⟩, ?_, fun other => ?_⟩, _, owner_after, ?_⟩
  · simp only [allocElement, owner_eq, Option.bind_eq_bind, Option.bind_some]
    rfl
  · rw [get_slot owner_eq]
    split <;> simp
  · by_cases inside : other.document = some document
    · cases other with
      | temporary => cases inside
      | root document' =>
          obtain rfl := Option.some.inj inside
          rw [get_root owner_after, get_root owner_eq, emplaceBack_root]
          rfl
      | slot document' generation index =>
          obtain rfl := Option.some.inj inside
          rw [get_slot owner_after, get_slot owner_eq, emplaceBack_getElem (by omega)]
          simp only [Address.slot.injEq, true_and]
    · have other_ne : other ≠
          .slot document (owner.emplaceBack document elementType).generation
            owner.elements.length := by
        rintro rfl
        exact inside rfl
      rw [get_set_of_ne inside, if_neg other_ne]
  · exact emplaceBack_room bounded

theorem cString_intern (strings : List Text) (str : Text) :
    cString (intern strings str).2 = cString str := by
  unfold intern
  split
  · rename_i buffer found
    have same : cString buffer = str := by simpa using List.find?_some found
    -- A text that some buffer has before its first NUL contains none itself.
    rw [same, ← same]
    exact List.takeWhile_idem.symm
  · split
    · rename_i buffer found
      simpa using List.find?_some found
    · rfl

/-- What interning a string does: nothing that an element shows. -/
structure Interned (memory after : Memory) (str buffer : Text) : Prop where
  get_eq : ∀ other, after.get other = memory.get other
  fits : ∀ document room, memory.Fits document room → after.Fits document room
  buffer_eq : cString buffer = cString str

theorem allocString_interned {index : Option Nat} {str buffer : Text}
    (allocated : memory.allocString index str = some (after, buffer)) :
    Interned memory after str buffer := by
  simp only [allocString, Option.bind_eq_bind, Option.bind_eq_some_iff, Option.pure_def,
    Option.some.injEq, Prod.mk.injEq] at allocated
  obtain ⟨document, rfl, owner, owner_eq, rfl, rfl⟩ := allocated
  have owner_after :=
    documents_set { owner with strings := (intern owner.strings str).1 } owner_eq
  refine ⟨fun other => ?_, fun document' room fits => ?_, cString_intern _ _⟩
  · by_cases inside : other.document = some document
    · cases other with
      | temporary => cases inside
      | root document' =>
          obtain rfl := Option.some.inj inside
          rw [get_root owner_after, get_root owner_eq]
      | slot document' generation index =>
          obtain rfl := Option.some.inj inside
          rw [get_slot owner_after, get_slot owner_eq]
    · exact get_set_of_ne inside
  · obtain ⟨owner', owner'_eq, bounded⟩ := fits
    by_cases same : document = document'
    · subst same
      obtain rfl := Option.some.inj (owner_eq.symm.trans owner'_eq)
      exact ⟨_, owner_after, bounded⟩
    · refine ⟨owner', ?_, bounded⟩
      rw [List.getElem?_set, if_neg same]
      exact owner'_eq

/-- A string is interned. -/
theorem allocString_of_fits (str : Text) (fits : memory.Fits document room) :
    ∃ after buffer, memory.allocString (some document) str = some (after, buffer) := by
  obtain ⟨owner, owner_eq, -⟩ := fits
  exact ⟨_, _, by simp only [allocString, owner_eq, Option.bind_eq_bind, Option.bind_some]; rfl⟩

/-- What `MutableDocument::clear` leaves: the document itself, and the other documents. -/
structure Cleared (memory after : Memory) (document : Nat) (owner : MutableDocument) : Prop where
  owner_eq : memory.documents[document]? = some owner
  owner_after : after.documents[document]? = some owner.clear
  root : after.held (.root document) = some owner.clear.root
  slot : ∀ generation index, after.held (.slot document generation index) = none
  others : ∀ address, address.document ≠ some document →
    after.held address = memory.held address

/-- A document that is cleared has no elements. -/
theorem clear_cleared (cleared : memory.clear document = some after) :
    ∃ owner, Cleared memory after document owner := by
  simp only [clear, Option.bind_eq_bind, Option.bind_eq_some_iff, Option.pure_def,
    Option.some.injEq] at cleared
  obtain ⟨owner, owner_eq, after_eq⟩ := cleared
  have owner_after : after.documents[document]? = some owner.clear := by
    rw [← after_eq]
    exact documents_set owner.clear owner_eq
  refine ⟨owner, owner_eq, owner_after, get_root owner_after, fun generation index => ?_,
    fun address elsewhere => ?_⟩
  · rw [held, get_slot owner_after]
    · split
      · exact List.getElem?_nil
      · rfl
    · exact fun _ => Address.noConfusion
  · subst after_eq
    cases address with
    | temporary => rfl
    | root => exact get_set_of_ne elsewhere
    | slot => exact get_set_of_ne elsewhere

end Memory

end ReactiveToolbox.Util.Json
