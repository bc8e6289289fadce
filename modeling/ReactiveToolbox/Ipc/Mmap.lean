import Mathlib.Data.BitVec
import Mathlib.Tactic.NormNum
import ReactiveToolbox.Lib.CircularStore

/-!
# Mirrored mappings

`MmapAllocator<char>` maps a file twice, one view behind the other, so that a
record that straddles the end of the first view is contiguous.  A region is the
list of its views, the latest first: a `MAP_FIXED` mapping takes the place of what
was there.  Views of the file share bytes by their offset in it, anonymous private
views share nothing.
-/

namespace ReactiveToolbox.Ipc

open ReactiveToolbox.Lib

/-- `sys::PageSize`. -/
def pageSize : BitVec 64 := 4096

/-- `round_up_page_size`, which adds half a page before it clears the low bits. -/
def roundUpPageSize (n : BitVec 64) : BitVec 64 :=
  (n + (pageSize >>> 1)) &&& ~~~(pageSize - 1)

/-- What is behind a view: private pages, or the pages of the file. -/
inductive Backing where
  | anonymous
  | file
  deriving DecidableEq

/-- A view that was mapped, from the start of its backing. -/
structure View where
  start : Nat
  length : Nat
  backing : Backing
  deriving DecidableEq

/-- The place behind an address of a region, unless an access there faults. -/
def resolve (views : List View) (address : Nat) : Option (Backing × Nat) :=
  (views.find? fun view =>
      decide (view.start ≤ address ∧ address < view.start + view.length)).map
    fun view => (view.backing, address - view.start)

/--
For which lengths `posix_fallocate` and `mmap` succeed.  A mapping of no length is
invalid, and none exceeds the address space.
-/
structure Kernel where
  reserves : Nat → Bool
  grants : Nat → Bool
  zero : grants 0 = false
  bounded : ∀ length, grants length = true → length < 2 ^ 47

/-- `MmapAllocator`, with the flags `Magic` and `Shared`. -/
structure MmapAllocator where
  magic : Bool
  shared : Bool
  hlen : BitVec 64

/-- The constructor, with the header rounded up to whole pages. -/
def MmapAllocator.create (magic shared : Bool) (headerSize : BitVec 64) : MmapAllocator where
  magic := magic
  shared := shared
  hlen := if 0 < headerSize then roundUpPageSize headerSize else 0

/--
`MmapAllocator::allocate(fd, n)`: the region of the pointer that is returned.  With
an empty `fd` a temporary file is made.

No region stands for an exception.  Where the plain `mmap` fails, `MAP_FAILED` is
not the `nullptr` that is tested for, and a pointer to nothing is returned.
-/
def MmapAllocator.allocate (allocator : MmapAllocator) (kernel : Kernel) (empty : Bool)
    (n : BitVec 64) : Option (List View) :=
  let plen := roundUpPageSize n
  let tlen := if allocator.magic then ((plen - allocator.hlen) <<< 1) + allocator.hlen else plen
  if empty ∧ (allocator.magic ∨ allocator.shared) ∧ ¬ kernel.reserves tlen.toNat then none
  else if allocator.magic then
    -- The first `mmap` reserves the addresses; a failure shows in the second.
    if kernel.grants tlen.toNat ∧ kernel.grants (plen - allocator.hlen).toNat then
      some [
        { start := plen.toNat, length := (plen - allocator.hlen).toNat, backing := .file },
        { start := allocator.hlen.toNat, length := (plen - allocator.hlen).toNat,
          backing := .file },
        { start := 0, length := tlen.toNat, backing := .anonymous }]
    else none
  else if allocator.shared then
    -- `MAP_ANON` without `MAP_PRIVATE` or `MAP_SHARED`.
    some []
  else if kernel.grants n.toNat then
    some [{ start := 0, length := n.toNat, backing := .anonymous }]
  else some []

/-! ## Memory -/

/-- The bytes behind a backing, and the 64-bit words that lie in it, by offset. -/
structure Pages where
  bytes : Nat → UInt8
  words : Nat → BitVec 64

/-- The private pages of a process and the pages of the file. -/
structure Memory where
  anonymous : Pages
  file : Pages

namespace Memory

/-- The pages of a backing. -/
def pages (memory : Memory) : Backing → Pages
  | .anonymous => memory.anonymous
  | .file => memory.file

/-- The pages of a backing are set. -/
def setPages (memory : Memory) (pages : Pages) : Backing → Memory
  | .anonymous => { memory with anonymous := pages }
  | .file => { memory with file := pages }

/-- A word at an address, if a view has it. -/
def loadWord (memory : Memory) (views : List View) (address : Nat) : Option (BitVec 64) :=
  (resolve views address).map fun place => (memory.pages place.1).words place.2

/-- Stores a word at an address. -/
def storeWord (memory : Memory) (views : List View) (address : Nat) (word : BitVec 64) :
    Option Memory :=
  (resolve views address).map fun place =>
    memory.setPages { memory.pages place.1 with
      words := Function.update (memory.pages place.1).words place.2 word } place.1

/-- So many bytes from an address on. -/
def loadBytes (memory : Memory) (views : List View) : Nat → Nat → Option (List UInt8)
  | _, 0 => some []
  | address, count + 1 =>
      (resolve views address).bind fun place =>
        (memory.loadBytes views (address + 1) count).map fun rest =>
          (memory.pages place.1).bytes place.2 :: rest

/-- Stores bytes from an address on. -/
def storeBytes (memory : Memory) (views : List View) : Nat → List UInt8 → Option Memory
  | _, [] => some memory
  | address, byte :: rest =>
      (resolve views address).bind fun place =>
        (memory.setPages { memory.pages place.1 with
          bytes := Function.update (memory.pages place.1).bytes place.2 byte } place.1).storeBytes
            views (address + 1) rest

end Memory

/-! ## What a mirrored mapping resolves to -/

theorem getLsbD_pageMask {index : Nat} (within : index < 64) :
    (~~~(pageSize - 1)).getLsbD index = decide (12 ≤ index) := by
  have all : ∀ index : Fin 64,
      (~~~(pageSize - 1)).getLsbD index = decide (12 ≤ index.val) := by
    decide
  exact all ⟨index, within⟩

theorem and_pageMask (n : BitVec 64) : n &&& ~~~(pageSize - 1) = (n >>> 12) <<< 12 := by
  refine BitVec.eq_of_getLsbD_eq fun index within => ?_
  rw [BitVec.getLsbD_and, getLsbD_pageMask within, BitVec.getLsbD_shiftLeft,
    BitVec.getLsbD_ushiftRight]
  by_cases low : index < 12
  · simp [low]
  · simp [low, within, Nat.le_of_not_lt low]

/-- `round_up_page_size`, of any length. -/
theorem toNat_roundUpPageSize_mod (n : BitVec 64) :
    (roundUpPageSize n).toNat = (n.toNat + 2048) % 2 ^ 64 / 4096 * 4096 := by
  have half : (n + (pageSize >>> 1)).toNat = (n.toNat + 2048) % 2 ^ 64 := by
    rw [BitVec.toNat_add]
    rfl
  rw [roundUpPageSize, and_pageMask, BitVec.toNat_shiftLeft, BitVec.toNat_ushiftRight, half,
    Nat.shiftRight_eq_div_pow, Nat.shiftLeft_eq]
  omega

/-- The length is rounded to the nearest page. -/
theorem toNat_roundUpPageSize {n : BitVec 64} (small : n.toNat + 2048 < 2 ^ 64) :
    (roundUpPageSize n).toNat = (n.toNat + 2048) / 4096 * 4096 := by
  rw [toNat_roundUpPageSize_mod, Nat.mod_eq_of_lt small]

/-- The header is private, and behind it are two views of one period of the file. -/
structure Mirrors (views : List View) (header period : Nat) : Prop where
  private_header : ∀ address, address < header →
    resolve views address = some (.anonymous, address)
  ring : ∀ offset, offset < 2 * period →
    resolve views (header + offset) = some (.file, offset % period)

/-- A mirrored mapping is periodic in its rounded length. -/
theorem MmapAllocator.allocate_mirrors {allocator : MmapAllocator} {kernel : Kernel}
    {empty : Bool} {n : BitVec 64} {views : List View} (magic : allocator.magic)
    (small : allocator.hlen.toNat < 2 ^ 47)
    (allocated : allocator.allocate kernel empty n = some views) :
    0 < (roundUpPageSize n - allocator.hlen).toNat ∧
      (roundUpPageSize n - allocator.hlen).toNat < 2 ^ 47 ∧
      Mirrors views allocator.hlen.toNat (roundUpPageSize n - allocator.hlen).toNat := by
  simp only [allocate, magic, if_true] at allocated
  split at allocated
  · cases allocated
  split at allocated
  · rename_i granted
    cases allocated
    generalize length : roundUpPageSize n - allocator.hlen = period at granted
    have rounded : roundUpPageSize n = period + allocator.hlen := by
      rw [← length, BitVec.sub_add_cancel]
    have nonzero : 0 < period.toNat := by
      by_contra zero
      have grants := granted.2
      rw [Nat.eq_zero_of_not_pos zero, kernel.zero] at grants
      cases grants
    have bounded := kernel.bounded _ granted.2
    have plen : (period + allocator.hlen).toNat = period.toNat + allocator.hlen.toNat :=
      BitVec.toNat_add_of_lt (by omega)
    have twice : (period <<< 1).toNat = 2 * period.toNat := by
      rw [BitVec.toNat_shiftLeft, Nat.shiftLeft_eq, Nat.mod_eq_of_lt (by omega)]
      omega
    have tlen : (period <<< 1 + allocator.hlen).toNat =
        2 * period.toNat + allocator.hlen.toNat := by
      rw [BitVec.toNat_add_of_lt (by omega), twice]
    refine ⟨nonzero, bounded, fun address within => ?_, fun offset within => ?_⟩
    · rw [rounded, resolve, plen, tlen, List.find?_cons_of_neg (by simp; omega),
        List.find?_cons_of_neg (by simp; omega), List.find?_cons_of_pos (by simp; omega)]
      rfl
    · rw [rounded, resolve, plen]
      by_cases second : period.toNat ≤ offset
      · rw [List.find?_cons_of_pos (by simp; omega), Option.map_some,
          Nat.mod_eq_sub_mod second, Nat.mod_eq_of_lt (by omega)]
        simp only [Option.some.injEq, Prod.mk.injEq, true_and]
        omega
      · rw [List.find?_cons_of_neg (by simp; omega), List.find?_cons_of_pos (by simp; omega),
          Option.map_some, Nat.mod_eq_of_lt (by omega)]
        simp
  · cases allocated

namespace Mirrors

variable {views : List View} {header period : Nat} {memory : Memory}

theorem loadWord (mirrors : Mirrors views header period) {address : Nat}
    (within : address < header) :
    memory.loadWord views address = some (memory.anonymous.words address) := by
  rw [Memory.loadWord, mirrors.private_header address within]
  rfl

theorem storeWord (mirrors : Mirrors views header period) {address : Nat}
    (within : address < header) (word : BitVec 64) :
    memory.storeWord views address word =
      some { memory with anonymous := { memory.anonymous with
        words := Function.update memory.anonymous.words address word } } := by
  rw [Memory.storeWord, mirrors.private_header address within]
  rfl

theorem loadBytes (mirrors : Mirrors views header period) {offset count : Nat}
    (within : offset + count ≤ 2 * period) :
    memory.loadBytes views (header + offset) count =
      some (loadAll (· % period) memory.file.bytes offset count) := by
  induction count generalizing offset with
  | zero => rfl
  | succ count ih =>
      rw [Memory.loadBytes, mirrors.ring offset (by omega), Option.bind_some, Nat.add_assoc,
        ih (by omega)]
      rfl

theorem storeBytes (mirrors : Mirrors views header period) {offset : Nat} {bytes : List UInt8}
    (within : offset + bytes.length ≤ 2 * period) :
    memory.storeBytes views (header + offset) bytes =
      some { memory with file := { memory.file with
        bytes := storeAll (· % period) memory.file.bytes offset bytes } } := by
  induction bytes generalizing offset memory with
  | nil => rfl
  | cons byte rest ih =>
      rw [List.length_cons] at within
      rw [Memory.storeBytes, mirrors.ring offset (by omega), Option.bind_some, Nat.add_assoc,
        ih (by omega)]
      rfl

end Mirrors

end ReactiveToolbox.Ipc
