import Mathlib.Data.List.Basic

/-!
# Parts of a buffer

A slice is a part of a buffer that encloses it.  An access beyond the slice finds what
the buffer holds there, and is undefined beyond the buffer.  What is confined to the
text of a slice is defined and the same whatever buffer encloses the text.
-/

namespace ReactiveToolbox.Lib

universe u v

/-- So many items of a buffer, from a position on. -/
structure Slice (Item : Type u) where
  buffer : List Item
  first : Nat
  size : Nat
  within : first + size ≤ buffer.length

namespace Slice

variable {Item : Type u} {Result : Type v}

/-- The items of a slice. -/
def text (slice : Slice Item) : List Item :=
  (slice.buffer.drop slice.first).take slice.size

/-- An access, which may lie beyond the slice. -/
def read (slice : Slice Item) (index : Nat) : Option Item :=
  slice.buffer[slice.first + index]?

/-- At most so many items of a slice, from a position within it on. -/
def substr (slice : Slice Item) (position count : Nat) : Slice Item where
  buffer := slice.buffer
  first := slice.first + min position slice.size
  size := min count (slice.size - position)
  within := by
    have within := slice.within
    omega

/-- A text that nothing else encloses. -/
def alone (text : List Item) : Slice Item where
  buffer := text
  first := 0
  size := text.length
  within := Nat.le_of_eq (Nat.zero_add _)

variable {slice : Slice Item}

@[simp]
theorem length_text (slice : Slice Item) : slice.text.length = slice.size := by
  have within := slice.within
  rw [text, List.length_take, List.length_drop]
  omega

/-- An access within the slice finds its item. -/
theorem read_of_lt {index : Nat} (within : index < slice.size) :
    slice.read index = slice.text[index]? := by
  rw [read, text, List.getElem?_take_of_lt within, List.getElem?_drop]

/-- An access within the slice is defined. -/
theorem exists_read {index : Nat} (within : index < slice.size) :
    ∃ item, slice.read index = some item ∧ slice.text.drop index =
      item :: slice.text.drop (index + 1) := by
  have inside : index < slice.text.length := by rwa [length_text]
  refine ⟨slice.text[index], ?_, List.drop_eq_getElem_cons inside⟩
  rw [read_of_lt within, List.getElem?_eq_getElem inside]

theorem text_substr {position : Nat} (inside : position ≤ slice.size) (count : Nat) :
    (slice.substr position count).text = (slice.text.drop position).take count := by
  have least : min position slice.size = position := Nat.min_eq_left inside
  simp only [text, substr, least, List.drop_take, List.drop_drop, List.take_take]

/-- The items of a slice from a position on. -/
theorem text_substr_size {position : Nat} (inside : position ≤ slice.size) :
    (slice.substr position slice.size).text = slice.text.drop position := by
  have rest : (slice.text.drop position).length ≤ slice.size := by
    rw [List.length_drop, length_text]
    exact Nat.sub_le _ _
  rw [text_substr inside, List.take_of_length_le rest]

@[simp]
theorem text_alone (text : List Item) : (alone text).text = text := by
  rw [Slice.text, alone, List.drop_zero, List.take_length]

/-- What is defined for a text, and the same for all slices with this text. -/
def Confined (reading : Slice Item → Option Result) (text : List Item) : Prop :=
  ∃ result, ∀ slice : Slice Item, slice.text = text → reading slice = some result

/-- Whatever encloses the text, it is defined, and any two buffers give the same. -/
theorem confined_iff {reading : Slice Item → Option Result} {text : List Item} :
    Confined reading text ↔
      (∀ slice : Slice Item, slice.text = text → (reading slice).isSome) ∧
        ∀ first second : Slice Item, first.text = text → second.text = text →
          reading first = reading second := by
  constructor
  · rintro ⟨result, same⟩
    refine ⟨fun slice is_text => ?_, fun first second firstText secondText => ?_⟩
    · rw [same slice is_text]
      rfl
    · rw [same first firstText, same second secondText]
  · rintro ⟨defined, same⟩
    obtain ⟨result, found⟩ := Option.isSome_iff_exists.mp (defined (alone text) (text_alone text))
    refine ⟨result, fun slice is_text => ?_⟩
    rw [same slice (alone text) is_text (text_alone text), found]

theorem not_confined_of_alone {reading : Slice Item → Option Result} {text : List Item}
    (undefined : reading (alone text) = none) : ¬Confined reading text := by
  rintro ⟨result, same⟩
  rw [same (alone text) (text_alone text)] at undefined
  cases undefined

end Slice

end ReactiveToolbox.Lib
