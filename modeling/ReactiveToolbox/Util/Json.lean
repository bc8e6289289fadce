import Mathlib.Algebra.Group.Nat.Defs
import Mathlib.Data.List.Basic

/-!
# Mutable JSON documents

A `MutableDocument` keeps its elements in one vector, and an element refers to its
first child and to the next element of its list by address.  An address of a slot
carries the generation of the vector: when the vector moves its elements, or is
cleared, the addresses of before no longer hold an element.

An operation is undefined (`none`) where it follows a pointer to no element, reads the
other member of a union or loops for longer than `fuel` allows.
-/

namespace ReactiveToolbox.Util.Json

/-- The characters of a string or of a key. -/
abbrev Text := List Char

/-- `simdjson::dom::element_type`. -/
inductive ElementType where
  | array
  | object
  | int64
  | uint64
  | double
  | string
  | bool
  | nullValue
  deriving DecidableEq

/--
Where an element lives: a document is an element itself, a slot belongs to its vector,
and a temporary to the statement that is being executed.
-/
inductive Address where
  | root (document : Nat)
  | slot (document generation index : Nat)
  | temporary (index : Nat)
  deriving DecidableEq

/-- A `MutableElement*`. -/
abbrev Pointer := Option Address

/-- The union `value_`.  A string pointer comes with the characters it points at. -/
inductive Value where
  | bits (value : UInt64)
  | str (buffer : Text)
  | child (first : Pointer)
  deriving DecidableEq

/-- Whether all bits of the union are zero. -/
def Value.isZero : Value → Bool
  | .bits value => value = 0
  | .str _ => false
  | .child first => first.isNone

/-- `MutableElement`. -/
structure MutableElement where
  elementType : ElementType := .nullValue
  value : Value := .child none
  next : Pointer := none
  key : Option Text := none
  size : Nat := 0
  document : Option Nat := none
  deriving DecidableEq

namespace MutableElement

/-- `value_.child_`. -/
def child (self : MutableElement) : Option Pointer :=
  match self.value with
  | .child first => some first
  | value => if value.isZero then some none else none

/-- `value_.int_`, and the other numbers of the union. -/
def number (self : MutableElement) : Option UInt64 :=
  match self.value with
  | .bits value => some value
  | value => if value.isZero then some 0 else none

/-- The `string_view` of `value_.str_` and `size_`. -/
def characters (self : MutableElement) : Option Text :=
  match self.value with
  | .str buffer => if self.size ≤ buffer.length then some (buffer.take self.size) else none
  | value => if value.isZero ∧ self.size = 0 then some [] else none

/-- `is_array() || is_object()`. -/
def isContainer (self : MutableElement) : Bool :=
  self.elementType = .array ∨ self.elementType = .object

/-- `size()`. -/
def getSize (self : MutableElement) : Nat :=
  match self.elementType with
  | .array | .object | .string => self.size
  | _ => 0

/-- `size_--` on a `size_t`. -/
def predSize (self : MutableElement) : Nat :=
  if self.size = 0 then 2 ^ 64 - 1 else self.size - 1

/-- `operator=(const MutableElement&)`, which leaves `document_` alone. -/
def copyFrom (self rhs : MutableElement) : MutableElement :=
  { rhs with document := self.document }

end MutableElement

/-! ## Interned strings -/

/-- The characters up to the first NUL, which is what a `const char*` stands for. -/
def cString (text : Text) : Text :=
  text.takeWhile (· ≠ '\x00')

/--
`InternedStrings::intern`.  The buffer holds the whole text, but the set is told of it
as a `char*`, so that what counts as present are the characters up to the first NUL.
-/
def intern (strings : List Text) (str : Text) : List Text × Text :=
  match strings.find? fun buffer => cString buffer = str with
  | some buffer => (strings, buffer)
  | none =>
      match strings.find? fun buffer => cString buffer = cString str with
      | some buffer => (strings, buffer)
      | none => (strings ++ [str], str)

/-! ## Documents -/

/-- `MutableDocument`, with its elements and its strings. -/
structure MutableDocument where
  root : MutableElement
  elements : List MutableElement := []
  capacity : Nat
  generation : Nat := 0
  strings : List Text := []
  deriving DecidableEq

namespace MutableDocument

/-- `MutableDocument(element_type, elements_capacity)`. -/
def make (document : Nat) (elementType : ElementType) (elementsCapacity : Nat) :
    MutableDocument where
  root := { elementType := elementType, document := some document }
  capacity := elementsCapacity

/--
`elements_.emplace_back(this, type)`.  A full vector moves to twice the room by the copy
constructor of the elements, which does not copy `document_`.
-/
def emplaceBack (self : MutableDocument) (document : Nat) (elementType : ElementType) :
    MutableDocument :=
  let element : MutableElement := { elementType := elementType, document := some document }
  if self.elements.length < self.capacity then
    { self with elements := self.elements ++ [element] }
  else
    { self with
      elements := self.elements.map (MutableElement.copyFrom {}) ++ [element]
      capacity := max 1 (2 * self.elements.length)
      generation := self.generation + 1 }

/-- `MutableDocument::clear`. -/
def clear (self : MutableDocument) : MutableDocument :=
  { self with
    root := { self.root with size := 0, value := .child none }
    elements := []
    generation := self.generation + 1
    strings := [] }

end MutableDocument

/-- What is thrown. -/
structure JsonError where
  what : String
  deriving DecidableEq

/-- `JsonError(what, key)`. -/
def JsonError.ofKey (what : String) (key : Text) : JsonError where
  what := "'" ++ String.ofList key ++ "':" ++ what

/-- The documents that exist, and the temporaries of the statement being executed. -/
structure Memory where
  documents : List MutableDocument := []
  temporaries : List MutableElement := []
  deriving DecidableEq

namespace Memory

/-- The element at an address. -/
def get (self : Memory) : Address → Option MutableElement
  | .root document => self.documents[document]?.map (·.root)
  | .slot document generation index => do
      let owner ← self.documents[document]?
      if owner.generation = generation then owner.elements[index]? else none
  | .temporary index => self.temporaries[index]?

/-- An element is stored at an address. -/
def put (self : Memory) (address : Address) (element : MutableElement) : Memory :=
  match address with
  | .root document =>
      { self with
        documents := self.documents.modify document fun owner =>
          { owner with root := element } }
  | .slot document _ index =>
      { self with
        documents := self.documents.modify document fun owner =>
          { owner with elements := owner.elements.set index element } }
  | .temporary index => { self with temporaries := self.temporaries.set index element }

/-- Assignments to fields of the element at an address. -/
def update (self : Memory) (address : Address) (change : MutableElement → MutableElement) :
    Option Memory :=
  (self.get address).map fun element => self.put address (change element)

/-- `document_->alloc_element(type)`, which a null document makes undefined. -/
def allocElement (self : Memory) (document : Option Nat) (elementType : ElementType) :
    Option (Memory × Address) := do
  let index ← document
  let owner ← self.documents[index]?
  let grown := owner.emplaceBack index elementType
  return ({ self with documents := self.documents.set index grown },
    .slot index grown.generation owner.elements.length)

/-- `document_->alloc_string(str)`. -/
def allocString (self : Memory) (document : Option Nat) (str : Text) :
    Option (Memory × Text) := do
  let index ← document
  let owner ← self.documents[index]?
  let (strings, buffer) := intern owner.strings str
  return ({ self with documents := self.documents.set index { owner with strings := strings } },
    buffer)

/-! ## Operations of an element -/

/--
The search of `at(key)`: the element with the key, or else the last one.  A null `key_`
is no `string_view`.  The search reads nothing that `at` has assigned before it.
-/
def seekKey (self : Memory) (key : Text) : Nat → Pointer → Pointer → Option (Address ⊕ Pointer)
  | _, none, tail => some (.inr tail)
  | 0, some _, _ => none
  | fuel + 1, some address, _ => do
      let element ← self.get address
      let name ← element.key
      if name = key then
        return .inl address
      self.seekKey key fuel element.next (some address)

/-- The end of both `at`: the new element goes behind the last one, or becomes the first. -/
def linkBehind (self : Memory) (this : Address) (tail : Pointer) (added : Address) :
    Option Memory :=
  match tail with
  | some last => self.update last fun element => { element with next := some added }
  | none => self.update this fun element => { element with value := .child (some added) }

/-- `at(std::string_view key)`. -/
def atKey (self : Memory) (fuel : Nat) (this : Address) (key : Text) :
    Option (Except JsonError (Memory × Address)) := do
  let element ← self.get this
  if element.elementType ≠ .object ∧ element.elementType ≠ .nullValue then
    return .error (.ofKey "object type expected" key)
  let memory ← self.update this fun element => { element with elementType := .object }
  let head ← element.child
  match ← self.seekKey key fuel head none with
  | .inl found => return .ok (memory, found)
  | .inr tail =>
      let (memory, added) ← memory.allocElement element.document .nullValue
      let (memory, name) ← memory.allocString element.document key
      let memory ← memory.update added fun element =>
        { element with key := some (cString name) }
      let memory ← memory.update this fun element => { element with size := element.size + 1 }
      let memory ← memory.linkBehind this tail added
      return .ok (memory, added)

/-- The search of `at(index)`: the element there, or else how many there are and the last. -/
def seekIndex (self : Memory) (index : Nat) :
    Nat → Nat → Pointer → Pointer → Option (Address ⊕ (Nat × Pointer))
  | _, count, none, tail => some (.inr (count, tail))
  | 0, _, some _, _ => none
  | fuel + 1, count, some address, _ => do
      let element ← self.get address
      if count = index then
        return .inl address
      self.seekIndex index fuel (count + 1) element.next (some address)

/-- One round of the loop that appends elements in `at(index)`. -/
def append (self : Memory) (this : Address) (tail : Pointer) : Option (Memory × Address) := do
  let element ← self.get this
  let (memory, added) ← self.allocElement element.document .nullValue
  let memory ← memory.update this fun element => { element with size := element.size + 1 }
  let memory ← memory.linkBehind this tail added
  return (memory, added)

/-- The rounds of that loop, with `e` and `tail`, which are the same after a round. -/
def appendAll (self : Memory) (this : Address) :
    Nat → Pointer → Option (Memory × Pointer)
  | 0, tail => some (self, tail)
  | rounds + 1, tail => do
      let (memory, added) ← self.append this tail
      memory.appendAll this rounds (some added)

/-- `at(std::size_t index)`. -/
def atIndex (self : Memory) (fuel : Nat) (this : Address) (index : Nat) :
    Option (Except JsonError (Memory × Address)) := do
  let element ← self.get this
  if element.elementType ≠ .array ∧ element.elementType ≠ .nullValue then
    return .error ⟨"array type expected"⟩
  let memory ← self.update this fun element => { element with elementType := .array }
  let head ← element.child
  match ← self.seekIndex index fuel 0 head none with
  | .inl found => return .ok (memory, found)
  | .inr (count, tail) =>
      let (memory, last) ← memory.appendAll this (index + 1 - count) tail
      let added ← last
      return .ok (memory, added)

/-- The loop of `back()`, which for an empty list gives a reference to nothing. -/
def lastFrom (self : Memory) : Nat → Pointer → Option Pointer
  | _, none => some none
  | 0, some _ => none
  | fuel + 1, some tail => do
      let element ← self.get tail
      match element.next with
      | none => return some tail
      | some next => self.lastFrom fuel (some next)

/-- `back`, which goes to the last element of the list. -/
def back (self : Memory) (fuel : Nat) (this : Address) : Option Pointer := do
  let element ← self.get this
  let head ← element.child
  self.lastFrom fuel head

/-- The element that `insert_after` makes of a value: a copy that owns its string. -/
def cloneElement (self : Memory) (document : Option Nat) (val : Address) :
    Option (Memory × Address) := do
  let (memory, added) ← self.allocElement document .nullValue
  let value ← memory.get val
  let memory ← memory.update added fun element => element.copyFrom value
  if value.elementType = .string then
    let text ← value.characters
    let (memory, buffer) ← memory.allocString document text
    let memory ← memory.update added fun element => { element with value := .str buffer }
    return (memory, added)
  return (memory, added)

/-- `insert_after(it, val)`, which links the value itself where there is no document. -/
def insertAfter (self : Memory) (this : Address) (it : Pointer) (val : Address) :
    Option (Memory × Address) := do
  let element ← self.get this
  let (memory, added) ←
    if element.document.isSome then self.cloneElement element.document val else some (self, val)
  let memory ← match it with
    | none => do
        let memory ← memory.update this fun element =>
          { element with value := .child (some added) }
        memory.update added fun element => { element with next := none }
    | some prev => do
        let before ← memory.get prev
        let memory ← memory.update added fun element => { element with next := before.next }
        memory.update prev fun element => { element with next := some added }
  let memory ← memory.update this fun element => { element with size := element.size + 1 }
  return (memory, added)

/-- `push_back(e)`. -/
def pushBack (self : Memory) (fuel : Nat) (this val : Address) : Option (Memory × Address) := do
  let element ← self.get this
  let memory ←
    if element.elementType = .array then some self
    else self.update this fun element =>
      { element with elementType := .array, value := .child none }
  let it ← memory.back fuel this
  memory.insertAfter this it val

/-- `clear()` of an element. -/
def clearElement (self : Memory) (this : Address) : Option Memory :=
  self.update this fun element => { element with size := 0, value := .child none }

/-- The loop of `erase`: the element behind `address` is unlinked if it is the one sought. -/
def unlink (self : Memory) (this it : Address) : Nat → Pointer → Option (Memory × Pointer)
  | _, none => some (self, none)
  | 0, some _ => none
  | fuel + 1, some address => do
      let element ← self.get address
      if element.next = some it then
        let erased ← self.get it
        let memory ← self.update address fun element => { element with next := erased.next }
        let memory ← memory.update this fun element => { element with size := element.predSize }
        return (memory, erased.next)
      self.unlink this it fuel element.next

/-- `erase(it)`. -/
def erase (self : Memory) (fuel : Nat) (this : Address) (it : Pointer) :
    Option (Memory × Pointer) := do
  let element ← self.get this
  match it with
  | none => return (self, none)
  | some it =>
      let head ← element.child
      if head = some it then
        let erased ← self.get it
        let memory ← self.update this fun element =>
          { element with value := .child erased.next, size := element.predSize }
        return (memory, erased.next)
      self.unlink this it fuel head

/-- The loop of `operator=`, which inserts the elements of another list. -/
def insertAll (self : Memory) (this : Address) : Nat → Pointer → Pointer → Option Memory
  | _, _, none => some self
  | 0, _, some _ => none
  | fuel + 1, it, some address => do
      let (memory, added) ← self.insertAfter this it address
      let element ← memory.get address
      memory.insertAll this fuel (some added) element.next

/-- `operator=(MutableElement&& rhs)`. -/
def assign (self : Memory) (fuel : Nat) (this rhs : Address) : Option Memory := do
  let value ← self.get rhs
  let element ← self.get this
  let memory ← self.update this fun element =>
    { element with elementType := value.elementType, size := value.size, value := value.value }
  let memory ←
    if element.document.isSome ∧ value.document.isNone ∧ value.elementType = .string then do
      let text ← value.characters
      let (memory, copy) ← memory.allocString element.document text
      memory.update this fun element => { element with value := .str copy }
    else some memory
  if value.isContainer then
    let memory ← memory.update this fun element =>
      { element with value := .child none, size := 0 }
    let source ← memory.get rhs
    let head ← source.child
    let it ← memory.back fuel this
    memory.insertAll this fuel it head
  else
    return memory

end Memory

/-! ## Statements -/

/-- A call of one of the operations above. -/
inductive Call where
  | atKey (this : Address) (key : Text)
  | atIndex (this : Address) (index : Nat)
  | pushBack (this val : Address)
  | insertAfter (this : Address) (it : Pointer) (val : Address)
  | erase (this : Address) (it : Pointer)
  | clear (this : Address)
  | assign (this rhs : Address)
  deriving DecidableEq

namespace Memory

/-- What a call leaves behind.  Where `at` throws it has changed nothing. -/
def call (self : Memory) (fuel : Nat) : Call → Option Memory
  | .atKey this key => do
      match ← self.atKey fuel this key with
      | .ok (memory, _) => return memory
      | .error _ => return self
  | .atIndex this index => do
      match ← self.atIndex fuel this index with
      | .ok (memory, _) => return memory
      | .error _ => return self
  | .pushBack this val => (self.pushBack fuel this val).map Prod.fst
  | .insertAfter this it val => (self.insertAfter this it val).map Prod.fst
  | .erase this it => (self.erase fuel this it).map Prod.fst
  | .clear this => self.clearElement this
  | .assign this rhs => self.assign fuel this rhs

/-- A call in a statement with temporaries, which do not outlive it. -/
def statement (self : Memory) (fuel : Nat) (temporaries : List MutableElement) (call : Call) :
    Option Memory := do
  let memory ← { self with temporaries := temporaries }.call fuel call
  return { memory with temporaries := [] }

/-- `MutableDocument::clear`. -/
def clear (self : Memory) (document : Nat) : Option Memory := do
  let owner ← self.documents[document]?
  return { self with documents := self.documents.set document owner.clear }

end Memory

/-- A statement with a call, or the `clear` of a whole document. -/
inductive Edit where
  | statement (temporaries : List MutableElement) (call : Call)
  | clear (document : Nat)
  deriving DecidableEq

/-- An edit whose loops take at most so many rounds. -/
def Memory.edit (self : Memory) : Nat × Edit → Option Memory
  | (fuel, .statement temporaries call) => self.statement fuel temporaries call
  | (_, .clear document) => self.clear document

end ReactiveToolbox.Util.Json
