import ReactiveToolbox.Util.JsonDocument
import ReactiveToolbox.Util.JsonMemory

/-!
# Trees that elements show

An element shows a tree if its accessors and the lists below it say what the tree says.
Which addresses the elements below it have is confined to a region, so that it keeps
showing the tree while the memory changes elsewhere.
-/

namespace ReactiveToolbox.Util.Json

/-! ## Trees -/

/-- Whether the value is a container without elements. -/
def Tree.isEmpty : Tree → Bool
  | .array .nil => true
  | .object .nil => true
  | _ => false

/-- How many values there are. -/
def Items.length : Items → Nat
  | .nil => 0
  | .cons _ rest => rest.length + 1

/-- How many members there are. -/
def Members.length : Members → Nat
  | .nil => 0
  | .cons _ _ rest => rest.length + 1

/-- The keys in order. -/
def Members.keys : Members → List Text
  | .nil => []
  | .cons key _ rest => key :: rest.keys

mutual

/-- How many elements a copy takes besides the one that is assigned. -/
def Tree.nodes : Tree → Nat
  | .array items => items.nodes
  | .object members => members.nodes
  | _ => 0

/-- How many elements the values take. -/
def Items.nodes : Items → Nat
  | .nil => 0
  | .cons item rest => item.nodes + rest.nodes + 1

/-- How many elements the members take. -/
def Members.nodes : Members → Nat
  | .nil => 0
  | .cons _ value rest => value.nodes + rest.nodes + 1

end

mutual

/--
What `copy` can reproduce: the keys of an object differ, no text contains a NUL, which ends
a text that is interned, no element of a list is an empty container, which no `at` would
make a container, and there is no bool where `bools` does not hold.
-/
def Tree.Faithful (bools : Prop) : Tree → Prop
  | .bool _ => bools
  | .string text => '\x00' ∉ text
  | .array items => items.Faithful bools
  | .object members => members.Faithful bools
  | _ => True

/-- Every value of an array can be reproduced. -/
def Items.Faithful (bools : Prop) : Items → Prop
  | .nil => True
  | .cons item rest => item.isEmpty = false ∧ item.Faithful bools ∧ rest.Faithful bools

/-- Every key and value of an object can be reproduced. -/
def Members.Faithful (bools : Prop) : Members → Prop
  | .nil => True
  | .cons key value rest =>
      '\x00' ∉ key ∧ key ∉ rest.keys ∧ value.isEmpty = false ∧ value.Faithful bools ∧
        rest.Faithful bools

end

namespace Memory

variable {memory after : Memory} {region region' : Address → Prop} {element other : MutableElement}

mutual

/-- The element shows the tree, with the elements of its lists in the region. -/
def Shows (memory : Memory) (region : Address → Prop) : Tree → MutableElement → Prop
  | .bool value, element => element.elementType = .bool ∧
      ∃ bits, element.number = some bits ∧ decide (bits.toUInt8 ≠ 0) = value
  | .int64 bits, element => element.elementType = .int64 ∧ element.number = some bits
  | .uint64 bits, element => element.elementType = .uint64 ∧ element.number = some bits
  | .double bits, element => element.elementType = .double ∧ element.number = some bits
  | .null, element => element.elementType = .nullValue
  | .string text, element => element.elementType = .string ∧ element.characters = some text
  | .array items, element => element.elementType = .array ∧ element.size = items.length ∧
      ∃ head, element.child = some head ∧ ShowsItems memory region items head
  | .object members, element => element.elementType = .object ∧ element.size = members.length ∧
      ∃ head, element.child = some head ∧ ShowsMembers memory region members head

/-- The list at a pointer holds the values. -/
def ShowsItems (memory : Memory) (region : Address → Prop) : Items → Pointer → Prop
  | .nil, head => head = none
  | .cons item rest, head => ∃ address element, head = some address ∧ region address ∧
      memory.held address = some element ∧ Shows memory region item element ∧
      ShowsItems memory region rest element.next

/-- The list at a pointer holds the members. -/
def ShowsMembers (memory : Memory) (region : Address → Prop) : Members → Pointer → Prop
  | .nil, head => head = none
  | .cons key value rest, head => ∃ address element, head = some address ∧ region address ∧
      memory.held address = some element ∧ element.key = some key ∧
      Shows memory region value element ∧ ShowsMembers memory region rest element.next

end

/-- The element at the address shows the tree, by elements of its own document. -/
def Denotes (memory : Memory) (document : Nat) (tree : Tree) (address : Address) : Prop :=
  address.document = some document ∧ ∃ element, memory.held address = some element ∧
    memory.Shows (fun address => address.document = some document) tree element

/-! ## Framing -/

mutual

/-- What an element shows depends on the elements of the region only. -/
theorem Shows.frame
    (same : ∀ address element, region address → memory.held address = some element →
      after.held address = some element)
    (wider : ∀ address, region address → region' address) :
    ∀ {tree : Tree} {element : MutableElement},
      memory.Shows region tree element → after.Shows region' tree element
  | .bool _, _, shows => by simpa only [Shows] using shows
  | .int64 _, _, shows => by simpa only [Shows] using shows
  | .uint64 _, _, shows => by simpa only [Shows] using shows
  | .double _, _, shows => by simpa only [Shows] using shows
  | .null, _, shows => by simpa only [Shows] using shows
  | .string _, _, shows => by simpa only [Shows] using shows
  | .array items, _, shows => by
      simp only [Shows] at shows ⊢
      obtain ⟨elementType, size, head, child, list⟩ := shows
      exact ⟨elementType, size, head, child, ShowsItems.frame same wider list⟩
  | .object members, _, shows => by
      simp only [Shows] at shows ⊢
      obtain ⟨elementType, size, head, child, list⟩ := shows
      exact ⟨elementType, size, head, child, ShowsMembers.frame same wider list⟩

theorem ShowsItems.frame
    (same : ∀ address element, region address → memory.held address = some element →
      after.held address = some element)
    (wider : ∀ address, region address → region' address) :
    ∀ {items : Items} {head : Pointer},
      memory.ShowsItems region items head → after.ShowsItems region' items head
  | .nil, _, list => by simpa only [ShowsItems] using list
  | .cons item rest, _, list => by
      simp only [ShowsItems] at list ⊢
      obtain ⟨address, element, head, inside, held, shows, list⟩ := list
      exact ⟨address, element, head, wider address inside, same address element inside held,
        Shows.frame same wider shows, ShowsItems.frame same wider list⟩

theorem ShowsMembers.frame
    (same : ∀ address element, region address → memory.held address = some element →
      after.held address = some element)
    (wider : ∀ address, region address → region' address) :
    ∀ {members : Members} {head : Pointer},
      memory.ShowsMembers region members head → after.ShowsMembers region' members head
  | .nil, _, list => by simpa only [ShowsMembers] using list
  | .cons key value rest, _, list => by
      simp only [ShowsMembers] at list ⊢
      obtain ⟨address, element, head, inside, held, named, shows, list⟩ := list
      exact ⟨address, element, head, wider address inside, same address element inside held,
        named, Shows.frame same wider shows, ShowsMembers.frame same wider list⟩

end

/-- The links and the key of an element have no part in what it shows. -/
theorem Shows.congr {tree : Tree} (shows : memory.Shows region tree element)
    (type_eq : other.elementType = element.elementType) (value_eq : other.value = element.value)
    (size_eq : other.size = element.size) : memory.Shows region tree other := by
  have number_eq : other.number = element.number := by
    simp only [MutableElement.number, value_eq]
  have characters_eq : other.characters = element.characters := by
    simp only [MutableElement.characters, value_eq, size_eq]
  have child_eq : other.child = element.child := by
    simp only [MutableElement.child, value_eq]
  cases tree <;>
  · simp only [Shows] at shows ⊢
    simpa only [type_eq, size_eq, number_eq, characters_eq, child_eq] using shows

/-! ## Reading -/

mutual

/-- What is read of an element is the tree that it shows. -/
theorem Shows.read_eq : ∀ {tree : Tree} {fuel : Nat} {address : Address} {element : MutableElement}
    {other : Tree}, memory.Shows region tree element → memory.get address = some element →
      memory.read fuel address = some other → other = tree
  | tree, 0, _, _, _, _, _, read => by cases read
  | .bool value, fuel + 1, _, _, _, shows, got, read => by
      simp only [Shows] at shows
      obtain ⟨elementType, bits, number, value_eq⟩ := shows
      simp only [Memory.read, got, elementType, number, Option.bind_eq_bind, Option.bind_some,
        Option.pure_def, Option.some.injEq] at read
      rw [← read, ← value_eq]
  | .int64 bits, fuel + 1, _, _, _, shows, got, read => by
      simp only [Shows] at shows
      simp only [Memory.read, got, shows, Option.bind_eq_bind, Option.bind_some,
        Option.pure_def, Option.some.injEq] at read
      exact read.symm
  | .uint64 bits, fuel + 1, _, _, _, shows, got, read => by
      simp only [Shows] at shows
      simp only [Memory.read, got, shows, Option.bind_eq_bind, Option.bind_some,
        Option.pure_def, Option.some.injEq] at read
      exact read.symm
  | .double bits, fuel + 1, _, _, _, shows, got, read => by
      simp only [Shows] at shows
      simp only [Memory.read, got, shows, Option.bind_eq_bind, Option.bind_some,
        Option.pure_def, Option.some.injEq] at read
      exact read.symm
  | .null, fuel + 1, _, _, _, shows, got, read => by
      simp only [Shows] at shows
      simp only [Memory.read, got, shows, Option.bind_eq_bind, Option.bind_some,
        Option.pure_def, Option.some.injEq] at read
      exact read.symm
  | .string text, fuel + 1, _, _, _, shows, got, read => by
      simp only [Shows] at shows
      simp only [Memory.read, got, shows, Option.bind_eq_bind, Option.bind_some,
        Option.pure_def, Option.some.injEq] at read
      exact read.symm
  | .array items, fuel + 1, _, _, _, shows, got, read => by
      simp only [Shows] at shows
      obtain ⟨elementType, -, head, child, list⟩ := shows
      simp only [Memory.read, got, elementType, child, Option.bind_eq_bind, Option.bind_some,
        Option.bind_eq_some_iff, Option.pure_def, Option.some.injEq] at read
      obtain ⟨others, others_eq, rfl⟩ := read
      rw [ShowsItems.read_eq list others_eq]
  | .object members, fuel + 1, _, _, _, shows, got, read => by
      simp only [Shows] at shows
      obtain ⟨elementType, -, head, child, list⟩ := shows
      simp only [Memory.read, got, elementType, child, Option.bind_eq_bind, Option.bind_some,
        Option.bind_eq_some_iff, Option.pure_def, Option.some.injEq] at read
      obtain ⟨others, others_eq, rfl⟩ := read
      rw [ShowsMembers.read_eq list others_eq]

theorem ShowsItems.read_eq : ∀ {items : Items} {fuel : Nat} {head : Pointer} {others : Items},
    memory.ShowsItems region items head → memory.readItems fuel head = some others →
      others = items
  | .nil, fuel, _, _, list, read => by
      simp only [ShowsItems] at list
      subst list
      cases fuel <;> exact (Option.some.inj read).symm
  | .cons item rest, fuel, _, _, list, read => by
      simp only [ShowsItems] at list
      obtain ⟨address, element, rfl, -, held, shows, list⟩ := list
      cases fuel with
      | zero => cases read
      | succ fuel =>
          simp only [readItems, get_of_held held, Option.bind_eq_bind, Option.bind_some,
            Option.bind_eq_some_iff, Option.pure_def, Option.some.injEq] at read
          obtain ⟨item', item_eq, rest', rest_eq, rfl⟩ := read
          rw [Shows.read_eq shows (get_of_held held) item_eq, ShowsItems.read_eq list rest_eq]

theorem ShowsMembers.read_eq : ∀ {members : Members} {fuel : Nat} {head : Pointer}
    {others : Members}, memory.ShowsMembers region members head →
      memory.readMembers fuel head = some others → others = members
  | .nil, fuel, _, _, list, read => by
      simp only [ShowsMembers] at list
      subst list
      cases fuel <;> exact (Option.some.inj read).symm
  | .cons key value rest, fuel, _, _, list, read => by
      simp only [ShowsMembers] at list
      obtain ⟨address, element, rfl, -, held, named, shows, list⟩ := list
      cases fuel with
      | zero => cases read
      | succ fuel =>
          simp only [readMembers, get_of_held held, named, Option.bind_eq_bind, Option.bind_some,
            Option.bind_eq_some_iff, Option.pure_def, Option.some.injEq] at read
          obtain ⟨value', value_eq, rest', rest_eq, rfl⟩ := read
          rw [Shows.read_eq shows (get_of_held held) value_eq, ShowsMembers.read_eq list rest_eq]

end

mutual

/-- Enough fuel reads the tree that an element shows. -/
theorem Shows.reads : ∀ {tree : Tree} {element : MutableElement},
    memory.Shows region tree element →
      ∃ least, ∀ fuel address, least ≤ fuel → memory.get address = some element →
        memory.read fuel address = some tree
  | .bool value, _, shows => by
      simp only [Shows] at shows
      obtain ⟨elementType, bits, number, rfl⟩ := shows
      refine ⟨1, fun fuel address enough got => ?_⟩
      obtain ⟨fuel, rfl⟩ := Nat.exists_eq_add_of_le' enough
      simp only [Memory.read, got, elementType, number, Option.bind_eq_bind, Option.bind_some,
        Option.pure_def]
  | .int64 bits, _, shows => by
      simp only [Shows] at shows
      refine ⟨1, fun fuel address enough got => ?_⟩
      obtain ⟨fuel, rfl⟩ := Nat.exists_eq_add_of_le' enough
      simp only [Memory.read, got, shows, Option.bind_eq_bind, Option.bind_some, Option.pure_def]
  | .uint64 bits, _, shows => by
      simp only [Shows] at shows
      refine ⟨1, fun fuel address enough got => ?_⟩
      obtain ⟨fuel, rfl⟩ := Nat.exists_eq_add_of_le' enough
      simp only [Memory.read, got, shows, Option.bind_eq_bind, Option.bind_some, Option.pure_def]
  | .double bits, _, shows => by
      simp only [Shows] at shows
      refine ⟨1, fun fuel address enough got => ?_⟩
      obtain ⟨fuel, rfl⟩ := Nat.exists_eq_add_of_le' enough
      simp only [Memory.read, got, shows, Option.bind_eq_bind, Option.bind_some, Option.pure_def]
  | .null, _, shows => by
      simp only [Shows] at shows
      refine ⟨1, fun fuel address enough got => ?_⟩
      obtain ⟨fuel, rfl⟩ := Nat.exists_eq_add_of_le' enough
      simp only [Memory.read, got, shows, Option.bind_eq_bind, Option.bind_some, Option.pure_def]
  | .string text, _, shows => by
      simp only [Shows] at shows
      refine ⟨1, fun fuel address enough got => ?_⟩
      obtain ⟨fuel, rfl⟩ := Nat.exists_eq_add_of_le' enough
      simp only [Memory.read, got, shows, Option.bind_eq_bind, Option.bind_some, Option.pure_def]
  | .array items, _, shows => by
      simp only [Shows] at shows
      obtain ⟨elementType, -, head, child, list⟩ := shows
      obtain ⟨least, reads⟩ := ShowsItems.reads list
      refine ⟨least + 1, fun fuel address enough got => ?_⟩
      obtain ⟨fuel, rfl⟩ := Nat.exists_eq_add_of_le' (Nat.le_trans (Nat.le_add_left 1 _) enough)
      simp only [Memory.read, got, elementType, child, reads fuel (by omega),
        Option.bind_eq_bind, Option.bind_some, Option.pure_def]
  | .object members, _, shows => by
      simp only [Shows] at shows
      obtain ⟨elementType, -, head, child, list⟩ := shows
      obtain ⟨least, reads⟩ := ShowsMembers.reads list
      refine ⟨least + 1, fun fuel address enough got => ?_⟩
      obtain ⟨fuel, rfl⟩ := Nat.exists_eq_add_of_le' (Nat.le_trans (Nat.le_add_left 1 _) enough)
      simp only [Memory.read, got, elementType, child, reads fuel (by omega),
        Option.bind_eq_bind, Option.bind_some, Option.pure_def]

theorem ShowsItems.reads : ∀ {items : Items} {head : Pointer},
    memory.ShowsItems region items head →
      ∃ least, ∀ fuel, least ≤ fuel → memory.readItems fuel head = some items
  | .nil, _, list => by
      simp only [ShowsItems] at list
      subst list
      exact ⟨0, fun fuel _ => by cases fuel <;> rfl⟩
  | .cons item rest, _, list => by
      simp only [ShowsItems] at list
      obtain ⟨address, element, rfl, -, held, shows, list⟩ := list
      obtain ⟨least, reads⟩ := Shows.reads shows
      obtain ⟨least', reads'⟩ := ShowsItems.reads list
      refine ⟨least + least' + 1, fun fuel enough => ?_⟩
      obtain ⟨fuel, rfl⟩ := Nat.exists_eq_add_of_le' (Nat.le_trans (Nat.le_add_left 1 _) enough)
      simp only [readItems, get_of_held held, reads fuel address (by omega) (get_of_held held),
        reads' fuel (by omega), Option.bind_eq_bind, Option.bind_some, Option.pure_def]

theorem ShowsMembers.reads : ∀ {members : Members} {head : Pointer},
    memory.ShowsMembers region members head →
      ∃ least, ∀ fuel, least ≤ fuel → memory.readMembers fuel head = some members
  | .nil, _, list => by
      simp only [ShowsMembers] at list
      subst list
      exact ⟨0, fun fuel _ => by cases fuel <;> rfl⟩
  | .cons key value rest, _, list => by
      simp only [ShowsMembers] at list
      obtain ⟨address, element, rfl, -, held, named, shows, list⟩ := list
      obtain ⟨least, reads⟩ := Shows.reads shows
      obtain ⟨least', reads'⟩ := ShowsMembers.reads list
      refine ⟨least + least' + 1, fun fuel enough => ?_⟩
      obtain ⟨fuel, rfl⟩ := Nat.exists_eq_add_of_le' (Nat.le_trans (Nat.le_add_left 1 _) enough)
      simp only [readMembers, get_of_held held, named,
        reads fuel address (by omega) (get_of_held held), reads' fuel (by omega),
        Option.bind_eq_bind, Option.bind_some, Option.pure_def]

end

end Memory

end ReactiveToolbox.Util.Json
