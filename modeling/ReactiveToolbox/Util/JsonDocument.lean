import ReactiveToolbox.Util.Json

/-!
# Parsing and copying documents

`MutableElement::copy` builds a document from what another one says of itself: the result
of the parser, which is given as a tree, or the elements of another document, which are
read without being changed.
-/

namespace ReactiveToolbox.Util.Json

mutual

/-- What an element says of itself by `type()`, the `get_` functions and iteration. -/
inductive Tree where
  | bool (value : Bool)
  | int64 (bits : UInt64)
  | uint64 (bits : UInt64)
  | double (bits : UInt64)
  | null
  | string (text : Text)
  | array (items : Items)
  | object (members : Members)

/-- The values of an array. -/
inductive Items where
  | nil
  | cons (item : Tree) (rest : Items)

/-- The keys and values of an object. -/
inductive Members where
  | nil
  | cons (key : Text) (value : Tree) (rest : Members)

end

/-- `MutableElement(bool val)`. -/
def MutableElement.ofBool (value : Bool) : MutableElement :=
  { elementType := .bool, value := .bits (if value then 1 else 0) }

/-- `MutableElement(double val)` of a bool: the `get_bool` of an element gives a double. -/
def MutableElement.ofBoolAsDouble (value : Bool) : MutableElement :=
  { elementType := .double, value := .bits (if value then 0x3FF0000000000000 else 0) }

/-- `MutableElement(std::string_view val)`. -/
def MutableElement.ofString (text : Text) : MutableElement :=
  { elementType := .string, value := .str text, size := text.length }

namespace Memory

/-! ## Reading an element -/

mutual

/-- What `copy` reads of an element. -/
def read (self : Memory) : Nat → Address → Option Tree
  | 0, _ => none
  | fuel + 1, address => do
      let element ← self.get address
      match element.elementType with
      | .bool => return .bool ((← element.number).toUInt8 ≠ 0)
      | .int64 => return .int64 (← element.number)
      | .uint64 => return .uint64 (← element.number)
      | .double => return .double (← element.number)
      | .nullValue => return .null
      | .string => return .string (← element.characters)
      | .array => return .array (← self.readItems fuel (← element.child))
      | .object => return .object (← self.readMembers fuel (← element.child))

/-- The values that are linked from a pointer on. -/
def readItems (self : Memory) : Nat → Pointer → Option Items
  | _, none => some .nil
  | 0, some _ => none
  | fuel + 1, some address => do
      let element ← self.get address
      return .cons (← self.read fuel address) (← self.readItems fuel element.next)

/-- A null `key_` is no `string_view`. -/
def readMembers (self : Memory) : Nat → Pointer → Option Members
  | _, none => some .nil
  | 0, some _ => none
  | fuel + 1, some address => do
      let element ← self.get address
      return .cons (← element.key) (← self.read fuel address)
        (← self.readMembers fuel element.next)

end

/-! ## `copy` -/

/-- `result = MutableElement(val)`. -/
def assignValue (self : Memory) (fuel : Nat) (result : Address) (val : MutableElement) :
    Option (Memory × Option JsonError) := do
  let memory ← { self with temporaries := [val] }.assign fuel result (.temporary 0)
  return ({ memory with temporaries := [] }, none)

mutual

/--
`MutableElement::copy(ve, result)`, with the error that it throws, if any.  `ofBool` is the
constructor that takes what `ve.get_bool()` gives.
-/
def copy (fuel : Nat) (ofBool : Bool → MutableElement) :
    Tree → Memory → Address → Option (Memory × Option JsonError)
  | .bool value, memory, result => memory.assignValue fuel result (ofBool value)
  | .int64 bits, memory, result =>
      memory.assignValue fuel result { elementType := .int64, value := .bits bits }
  | .uint64 bits, memory, result =>
      memory.assignValue fuel result { elementType := .uint64, value := .bits bits }
  | .double bits, memory, result =>
      memory.assignValue fuel result { elementType := .double, value := .bits bits }
  | .null, memory, result => memory.assignValue fuel result {}
  | .string text, memory, result => memory.assignValue fuel result (.ofString text)
  | .object members, memory, result => copyMembers fuel ofBool members memory result
  | .array items, memory, result => copyItems fuel ofBool items 0 memory result

/-- The loop of `copy` over the members of an object. -/
def copyMembers (fuel : Nat) (ofBool : Bool → MutableElement) :
    Members → Memory → Address → Option (Memory × Option JsonError)
  | .nil, memory, _ => some (memory, none)
  | .cons key value rest, memory, result => do
      match ← memory.atKey fuel result key with
      | .error error => return (memory, some error)
      | .ok (memory, element) =>
          let (memory, thrown) ← copy fuel ofBool value memory element
          if thrown.isSome then
            return (memory, thrown)
          copyMembers fuel ofBool rest memory result

/-- The loop of `copy` over the values of an array. -/
def copyItems (fuel : Nat) (ofBool : Bool → MutableElement) :
    Items → Nat → Memory → Address → Option (Memory × Option JsonError)
  | .nil, _, memory, _ => some (memory, none)
  | .cons item rest, index, memory, result => do
      match ← memory.atIndex fuel result index with
      | .error error => return (memory, some error)
      | .ok (memory, element) =>
          let (memory, thrown) ← copy fuel ofBool item memory element
          if thrown.isSome then
            return (memory, thrown)
          copyItems fuel ofBool rest (index + 1) memory result

end

/-! ## Documents -/

/-- `MutableDocument(element_type, elements_capacity)`. -/
def construct (self : Memory) (elementType : ElementType) (elementsCapacity : Nat) : Memory :=
  { self with
    documents := self.documents ++
      [MutableDocument.make self.documents.length elementType elementsCapacity] }

/-- `parse` of a text that the parser takes for `json`. -/
def parse (self : Memory) (fuel document : Nat) (json : Tree) :
    Option (Memory × Option JsonError) :=
  copy fuel MutableElement.ofBool json self (.root document)

/--
What the copying constructors do with what they read: they call the default constructor of
the base, so that the new document has no `document_`.
-/
def constructFrom (self : Memory) (fuel : Nat) (json : Tree) :
    Option (Memory × Option JsonError) := do
  let (memory, thrown) ← copy fuel MutableElement.ofBoolAsDouble json
    { self with documents := self.documents ++ [{ root := {}, capacity := 0 }] }
    (.root self.documents.length)
  if thrown.isSome then
    return (self, thrown)
  return (memory, none)

/-- `MutableDocument(const MutableElement& rhs)`. -/
def copyConstruct (self : Memory) (fuel : Nat) (rhs : Address) :
    Option (Memory × Option JsonError) := do
  let json ← self.read fuel rhs
  self.constructFrom fuel json

/-- `operator=(const MutableElement& rhs)` of a document, which clears it before it copies. -/
def copyAssign (self : Memory) (fuel document : Nat) (rhs : Address) :
    Option (Memory × Option JsonError) := do
  let memory ← self.clear document
  let json ← memory.read fuel rhs
  copy fuel MutableElement.ofBoolAsDouble json memory (.root document)

mutual

/--
What `copy` reads of a document.  Its `to_object` returns by value, so that the members of
an object are those of a document that is copied from it first.
-/
def readDocument (self : Memory) : Nat → Nat → Option (Except JsonError Tree)
  | 0, _ => none
  | fuel + 1, rhs => do
      let owner ← self.documents[rhs]?
      if owner.root.elementType = .object then
        match ← self.copyConstructDocument fuel rhs with
        | (_, some error) => return .error error
        | (memory, none) => return .ok (← memory.read fuel (.root self.documents.length))
      else
        return .ok (← self.read fuel (.root rhs))

/-- `MutableDocument(const MutableDocument& rhs)`. -/
def copyConstructDocument (self : Memory) : Nat → Nat → Option (Memory × Option JsonError)
  | 0, _ => none
  | fuel + 1, rhs => do
      match ← self.readDocument fuel rhs with
      | .error error => return (self, some error)
      | .ok json => self.constructFrom fuel json

end

/-- `operator=(const MutableDocument& rhs)`. -/
def copyAssignDocument (self : Memory) (fuel document rhs : Nat) :
    Option (Memory × Option JsonError) := do
  let memory ← self.clear document
  match ← memory.readDocument fuel rhs with
  | .error error => return (memory, some error)
  | .ok json => copy fuel MutableElement.ofBoolAsDouble json memory (.root document)

/-! ## Copies of an object -/

variable {memory : Memory} {owner : MutableDocument} {rhs : Nat}

/-- To read an object takes a copy of it, and to copy it is to read it again. -/
theorem readDocument_object (owner_eq : memory.documents[rhs]? = some owner)
    (object : owner.root.elementType = .object) :
    ∀ fuel, memory.readDocument fuel rhs = none ∧ memory.copyConstructDocument fuel rhs = none
  | 0 => ⟨rfl, rfl⟩
  | fuel + 1 => by
      obtain ⟨read_none, copy_none⟩ := readDocument_object owner_eq object fuel
      constructor
      · simp only [readDocument, owner_eq, object, if_true, copy_none, Option.bind_eq_bind,
          Option.bind_some, Option.bind_none]
      · simp only [copyConstructDocument, read_none, Option.bind_eq_bind, Option.bind_none]

theorem readDocument_of_ne (owner_eq : memory.documents[rhs]? = some owner)
    (other : owner.root.elementType ≠ .object) (fuel : Nat) :
    memory.readDocument (fuel + 1) rhs = (memory.read fuel (.root rhs)).map .ok := by
  simp only [readDocument, owner_eq, if_neg other, Option.bind_eq_bind, Option.bind_some]
  cases memory.read fuel (.root rhs) <;> rfl

end Memory

/-- An operation on documents. -/
inductive Operation where
  | edit (edit : Edit)
  | construct (elementType : ElementType) (elementsCapacity : Nat)
  | parse (document : Nat) (json : Tree)
  | copyConstruct (rhs : Address)
  | copyAssign (document : Nat) (rhs : Address)
  | copyConstructDocument (rhs : Nat)
  | copyAssignDocument (document rhs : Nat)

/-- What an operation leaves behind, whether or not it has thrown. -/
def Memory.perform (self : Memory) : Nat × Operation → Option Memory
  | (fuel, .edit edit) => self.edit (fuel, edit)
  | (_, .construct elementType elementsCapacity) =>
      some (self.construct elementType elementsCapacity)
  | (fuel, .parse document json) => (self.parse fuel document json).map Prod.fst
  | (fuel, .copyConstruct rhs) => (self.copyConstruct fuel rhs).map Prod.fst
  | (fuel, .copyAssign document rhs) => (self.copyAssign fuel document rhs).map Prod.fst
  | (fuel, .copyConstructDocument rhs) => (self.copyConstructDocument fuel rhs).map Prod.fst
  | (fuel, .copyAssignDocument document rhs) =>
      (self.copyAssignDocument fuel document rhs).map Prod.fst

end ReactiveToolbox.Util.Json
