import Mathlib.Data.BitVec
import Mathlib.Order.Interval.Finset.Nat
import ReactiveToolbox.Ipc.Mmap

/-!
# Pages that are mapped and unmapped

The kernel maps and unmaps whole pages, and rounds lengths up for that.
`MmapAllocator::allocate` hands it the length itself, unless the flag `Magic` is set,
and `deallocate` a length that `round_up_page_size` has rounded to the nearest page.
-/

namespace ReactiveToolbox.Ipc

/-- `MAP_FAILED`. -/
def mapFailed : BitVec 64 := -1

/-- The flags of `::mmap`. -/
inductive MapFlag where
  | mapAnon
  | mapPrivate
  | mapShared
  | mapFixed
  deriving DecidableEq

/-- The numbers of the pages on which so many bytes from an address lie. -/
def pagesFrom (address length : Nat) : Finset Nat :=
  Finset.Ico (address / 4096) (address / 4096 + (length + 4095) / 4096)

/--
What the kernel grants: a temporary file, space in it, where a mapping goes, and
mappings in a fixed place.  A mapping has a length, and starts with a page.
-/
structure PageKernel where
  mkstemp : Bool
  posixFallocate : BitVec 64 → Bool
  place : Bool → BitVec 64 → Option (BitVec 64)
  fixes : Bool → BitVec 64 → BitVec 64 → Bool
  placed : ∀ writable length address, place writable length = some address →
    0 < length.toNat ∧ 4096 ∣ address.toNat ∧ address.toNat + length.toNat ≤ 2 ^ 47
  fixed : ∀ writable address length, fixes writable address length = true →
    0 < length.toNat ∧ 4096 ∣ address.toNat ∧ address.toNat + length.toNat ≤ 2 ^ 47

/-- The result of `::mmap`, with the pages that it has mapped. -/
structure Mapping where
  ptr : BitVec 64
  pages : Finset Nat

/-- `::mmap`; without `MAP_PRIVATE` and `MAP_SHARED` it is invalid. -/
def PageKernel.mmap (kernel : PageKernel) (address length : BitVec 64) (writable : Bool)
    (flags : List MapFlag) : Mapping :=
  if MapFlag.mapPrivate ∉ flags ∧ MapFlag.mapShared ∉ flags then { ptr := mapFailed, pages := ∅ }
  else if MapFlag.mapFixed ∈ flags then
    if kernel.fixes writable address length then
      { ptr := address, pages := pagesFrom address.toNat length.toNat }
    else { ptr := mapFailed, pages := ∅ }
  else
    match kernel.place writable length with
    | some address => { ptr := address, pages := pagesFrom address.toNat length.toNat }
    | none => { ptr := mapFailed, pages := ∅ }

/-- `::munmap`, with the pages that it unmaps, unless it fails. -/
def munmap (address length : BitVec 64) : Option (Finset Nat) :=
  if length = 0 ∨ ¬4096 ∣ address.toNat ∨ 2 ^ 47 < address.toNat + length.toNat then none
  else some (pagesFrom address.toNat length.toNat)

/-- `MmapAllocator<value_type>`, with all its flags. -/
structure PageAllocator extends MmapAllocator where
  readonly : Bool
  sizeofValue : BitVec 64
  header_pages : 4096 ∣ hlen.toNat

namespace PageAllocator

/-- `sizeof(value_type) * n`. -/
def len (self : PageAllocator) (n : BitVec 64) : BitVec 64 :=
  self.sizeofValue * n

/-- The length of the header and the data in whole pages. -/
def plen (self : PageAllocator) (n : BitVec 64) : BitVec 64 :=
  roundUpPageSize (self.len n)

/-- The length of the address range, with the data twice where it is mirrored. -/
def tlen (self : PageAllocator) (n : BitVec 64) : BitVec 64 :=
  if self.magic then ((self.plen n - self.hlen) <<< 1) + self.hlen else self.plen n

/-- The branch of `allocate` without the flag `Magic`. -/
def allocatePlain (self : PageAllocator) (kernel : PageKernel) (n : BitVec 64) :
    Option (BitVec 64 × Finset Nat) :=
  let flags := if self.shared then [MapFlag.mapAnon] else [MapFlag.mapAnon, MapFlag.mapPrivate]
  let mapped := kernel.mmap 0 (self.len n) (!self.readonly) flags
  -- `MAP_FAILED` is not the `nullptr` that is tested for.
  if mapped.ptr = 0 then none else some (mapped.ptr, mapped.pages)

/-- The branch with it. -/
def allocateMagic (self : PageAllocator) (kernel : PageKernel) (n : BitVec 64) :
    Option (BitVec 64 × Finset Nat) :=
  let plen := self.plen n
  let hlen := self.hlen
  let writable := !self.readonly
  let mapped := kernel.mmap 0 (self.tlen n) writable [.mapAnon, .mapPrivate]
  let ptr := mapped.ptr
  if ptr = 0 then none
  else
    let first := kernel.mmap (ptr + hlen) (plen - hlen) writable [.mapFixed, .mapShared]
    if ptr + hlen ≠ first.ptr then none
    else
      let second := kernel.mmap (ptr + plen) (plen - hlen) writable [.mapFixed, .mapShared]
      if ptr + plen ≠ second.ptr then none
      else some (ptr, mapped.pages ∪ first.pages ∪ second.pages)

/-- `MmapAllocator::allocate`, with all pages that it has mapped, unless it throws. -/
def allocate (self : PageAllocator) (kernel : PageKernel) (empty : Bool) (n : BitVec 64) :
    Option (BitVec 64 × Finset Nat) :=
  if empty ∧ (self.magic ∨ self.shared) ∧
      ¬(kernel.mkstemp ∧ kernel.posixFallocate (self.tlen n)) then
    none
  else if !self.magic then self.allocatePlain kernel n
  else self.allocateMagic kernel n

/-- `MmapAllocator::deallocate`, with the pages that it unmaps, unless it terminates. -/
def deallocate (self : PageAllocator) (p n : BitVec 64) : Option (Finset Nat) :=
  let plen := roundUpPageSize (n * self.sizeofValue)
  let mlen := if self.magic then ((plen - self.hlen) <<< 1) + self.hlen else plen
  munmap p mlen

/--
Where `allocate` returns a pointer, there is memory for all values, and `deallocate`
unmaps what was mapped.
-/
def Balanced (self : PageAllocator) (kernel : PageKernel) (empty : Bool) (n : BitVec 64) : Prop :=
  ∀ p pages, self.allocate kernel empty n = some (p, pages) →
    (∀ offset, offset < self.sizeofValue.toNat * n.toNat → (p.toNat + offset) / 4096 ∈ pages) ∧
      self.deallocate p n = some pages

/-! ## Where that is so -/

/-- The exceptions before anything is mapped. -/
def Refused (self : PageAllocator) (kernel : PageKernel) (empty : Bool) (n : BitVec 64) : Prop :=
  empty ∧ (self.magic ∨ self.shared) ∧
    ¬(kernel.mkstemp ∧ kernel.posixFallocate (self.tlen n))

/-- A mirrored region is granted, with both of its views. -/
structure GrantsMirror (allocator : PageAllocator) (kernel : PageKernel) (n ptr : BitVec 64) :
    Prop where
  placed : kernel.place (!allocator.readonly) (allocator.tlen n) = some ptr
  nonnull : ptr ≠ 0
  first : kernel.fixes (!allocator.readonly) (ptr + allocator.hlen)
    (allocator.plen n - allocator.hlen) = true
  second : kernel.fixes (!allocator.readonly) (ptr + allocator.plen n)
    (allocator.plen n - allocator.hlen) = true

/-- The size of the values is a number of `std::size_t`. -/
def Countable (self : PageAllocator) (n : BitVec 64) : Prop :=
  self.sizeofValue.toNat * n.toNat < 2 ^ 64

/-- The nearest page is the next one, unless the length ends with a page. -/
def RoundsUp (length : BitVec 64) : Prop :=
  length.toNat % 4096 = 0 ∨ 2048 ≤ length.toNat % 4096

/-- What it takes without the flag `Magic`, and with it. -/
def Balances (self : PageAllocator) (kernel : PageKernel) (n : BitVec 64) : Prop :=
  if self.magic then
    ¬(self.hlen = 0 ∧ self.plen n = 0) ∧
      ∀ ptr, self.GrantsMirror kernel n ptr → self.Countable n ∧ self.hlen.toNat < 2 ^ 47
  else
    ¬self.shared ∧ ∃ ptr, kernel.place (!self.readonly) (self.len n) = some ptr ∧
      (ptr = 0 ∨ self.Countable n ∧ RoundsUp (self.len n))

variable {self : PageAllocator} {kernel : PageKernel} {empty : Bool} {n ptr length : BitVec 64}

end PageAllocator

/-! ## Pages -/

section Pages

variable {address length total : Nat}

/-- From the start of a page on, memory reaches as far as its pages. -/
theorem mem_pagesFrom (aligned : 4096 ∣ address) (enough : total ≤ length) {offset : Nat}
    (within : offset < total) : (address + offset) / 4096 ∈ pagesFrom address length := by
  rw [pagesFrom, Finset.mem_Ico]
  omega

theorem lt_of_forall_mem_pagesFrom (aligned : 4096 ∣ address) (few : length ≤ 2 ^ 47)
    (all : ∀ offset, offset < total → (address + offset) / 4096 ∈ pagesFrom address length) :
    total < 2 ^ 64 := by
  by_contra many
  have last := all (2 ^ 64 - 1) (by omega)
  rw [pagesFrom, Finset.mem_Ico] at last
  omega

theorem pagesFrom_subset {inner rest : Nat} (aligned : 4096 ∣ inner)
    (within : inner + rest ≤ length) :
    pagesFrom (address + inner) rest ⊆ pagesFrom address length := by
  intro page member
  rw [pagesFrom, Finset.mem_Ico] at member ⊢
  omega

/-- From one page on, as many pages are the same pages. -/
theorem pagesFrom_inj {other : Nat} :
    pagesFrom address length = pagesFrom address other ↔
      (length + 4095) / 4096 = (other + 4095) / 4096 := by
  constructor
  · intro same
    have counts := congrArg Finset.card same
    rw [pagesFrom, pagesFrom, Nat.card_Ico, Nat.card_Ico] at counts
    omega
  · intro same
    rw [pagesFrom, pagesFrom, same]

end Pages

/-! ## Lengths -/

theorem mapFailed_add (offset : BitVec 64) (aligned : 4096 ∣ offset.toNat) :
    ¬4096 ∣ (mapFailed + offset).toNat := by
  have last : mapFailed.toNat = 2 ^ 64 - 1 := rfl
  rw [BitVec.toNat_add, last]
  omega

theorem munmap_mapFailed (length : BitVec 64) : munmap mapFailed length = none :=
  if_pos (.inr (.inl (by decide)))

theorem munmap_of_pages {address length : BitVec 64} (positive : 0 < length.toNat)
    (aligned : 4096 ∣ address.toNat) (few : address.toNat + length.toNat ≤ 2 ^ 47) :
    munmap address length = some (pagesFrom address.toNat length.toNat) := by
  have nonzero : length ≠ 0 := by
    rintro rfl
    exact absurd positive (by decide)
  exact if_neg (not_or.mpr ⟨nonzero, not_or.mpr ⟨not_not.mpr aligned, Nat.not_lt.mpr few⟩⟩)

/-- The rounded length unmaps the pages of a length exactly if it rounds up. -/
theorem munmap_roundUpPageSize_iff {address length : BitVec 64} (positive : 0 < length.toNat)
    (aligned : 4096 ∣ address.toNat) (few : address.toNat + length.toNat ≤ 2 ^ 47) :
    munmap address (roundUpPageSize length) =
        some (pagesFrom address.toNat length.toNat) ↔ PageAllocator.RoundsUp length := by
  have rounded := toNat_roundUpPageSize (n := length) (by omega)
  unfold PageAllocator.RoundsUp
  constructor
  · intro unmapped
    have nonzero : 0 < (roundUpPageSize length).toNat := by
      by_contra zero
      have none : roundUpPageSize length = 0 := BitVec.eq_of_toNat_eq (by
        rw [Nat.eq_zero_of_not_pos zero]; rfl)
      rw [none, munmap, if_pos (.inl rfl)] at unmapped
      cases unmapped
    rw [munmap_of_pages nonzero aligned (by omega), Option.some.injEq, pagesFrom_inj] at unmapped
    omega
  · intro up
    rw [munmap_of_pages (by omega) aligned (by omega), Option.some.injEq, pagesFrom_inj]
    omega

/-! ## Mappings -/

namespace PageKernel

variable {kernel : PageKernel} {address length ptr : BitVec 64} {writable : Bool}

theorem mmap_anon : kernel.mmap address length writable [.mapAnon] =
    { ptr := mapFailed, pages := ∅ } :=
  if_pos (by decide)

theorem mmap_placed (placed : kernel.place writable length = some ptr) :
    kernel.mmap address length writable [.mapAnon, .mapPrivate] =
      { ptr, pages := pagesFrom ptr.toNat length.toNat } := by
  rw [mmap, if_neg (by decide), if_neg (by decide), placed]

theorem mmap_not_placed (refused : kernel.place writable length = none) :
    kernel.mmap address length writable [.mapAnon, .mapPrivate] =
      { ptr := mapFailed, pages := ∅ } := by
  rw [mmap, if_neg (by decide), if_neg (by decide), refused]

theorem mmap_fixed (fixed : kernel.fixes writable address length = true) :
    kernel.mmap address length writable [.mapFixed, .mapShared] =
      { ptr := address, pages := pagesFrom address.toNat length.toNat } := by
  rw [mmap, if_neg (by decide), if_pos (by decide), if_pos fixed]

theorem mmap_not_fixed (refused : ¬kernel.fixes writable address length = true) :
    kernel.mmap address length writable [.mapFixed, .mapShared] =
      { ptr := mapFailed, pages := ∅ } := by
  rw [mmap, if_neg (by decide), if_pos (by decide), if_neg refused]

/-- Nothing is mapped in a place that does not start with a page. -/
theorem not_fixes (misaligned : ¬4096 ∣ address.toNat) :
    ¬kernel.fixes writable address length = true :=
  fun fixed => misaligned (kernel.fixed _ _ _ fixed).2.1

end PageKernel

namespace PageAllocator

open PageKernel

variable {self : PageAllocator} {kernel : PageKernel} {empty : Bool} {n ptr : BitVec 64}

theorem deallocate_eq (self : PageAllocator) (p n : BitVec 64) :
    self.deallocate p n = munmap p (self.tlen n) := by
  rw [deallocate, BitVec.mul_comm]
  rfl

theorem toNat_len (countable : self.Countable n) :
    (self.len n).toNat = self.sizeofValue.toNat * n.toNat := by
  rw [len, BitVec.toNat_mul, Nat.mod_eq_of_lt countable]

theorem allocate_of_refused (refused : self.Refused kernel empty n) :
    self.allocate kernel empty n = none :=
  if_pos refused

theorem allocate_plain (asked : ¬self.Refused kernel empty n) (plain : self.magic = false) :
    self.allocate kernel empty n = self.allocatePlain kernel n := by
  unfold Refused at asked
  rw [allocate, if_neg asked, plain]
  rfl

theorem allocate_magic (asked : ¬self.Refused kernel empty n) (magic : self.magic = true) :
    self.allocate kernel empty n = self.allocateMagic kernel n := by
  unfold Refused at asked
  rw [allocate, if_neg asked, magic]
  rfl

/-! ## Without mirrors -/

/-- `MAP_ANON` alone is invalid. -/
theorem allocatePlain_shared (shared : self.shared = true) :
    self.allocatePlain kernel n = some (mapFailed, ∅) := by
  unfold allocatePlain
  dsimp only
  rw [if_pos shared, mmap_anon]
  exact if_neg (by decide)

theorem allocatePlain_not_placed (alone : ¬self.shared = true)
    (refused : kernel.place (!self.readonly) (self.len n) = none) :
    self.allocatePlain kernel n = some (mapFailed, ∅) := by
  unfold allocatePlain
  dsimp only
  rw [if_neg alone, mmap_not_placed refused]
  exact if_neg (by decide)

theorem allocatePlain_placed (alone : ¬self.shared = true)
    (placed : kernel.place (!self.readonly) (self.len n) = some ptr) :
    self.allocatePlain kernel n =
      if ptr = 0 then none else some (ptr, pagesFrom ptr.toNat (self.len n).toNat) := by
  unfold allocatePlain
  dsimp only
  rw [if_neg alone, mmap_placed placed]

/-- A pointer to nothing is no pointer that can be released. -/
theorem not_balanced_of_mapFailed {pages : Finset Nat}
    (allocated : self.allocate kernel empty n = some (mapFailed, pages)) :
    ¬self.Balanced kernel empty n := by
  intro balanced
  have released := (balanced _ _ allocated).2
  rw [deallocate_eq, munmap_mapFailed] at released
  cases released

/-- What is mapped is released if its length rounds up. -/
theorem balanced_placed_iff (plain : self.magic = false)
    (placed : kernel.place (!self.readonly) (self.len n) = some ptr)
    (allocated : self.allocate kernel empty n =
      some (ptr, pagesFrom ptr.toNat (self.len n).toNat)) :
    self.Balanced kernel empty n ↔ self.Countable n ∧ RoundsUp (self.len n) := by
  obtain ⟨positive, aligned, few⟩ := kernel.placed _ _ _ placed
  have released : self.deallocate ptr n = munmap ptr (roundUpPageSize (self.len n)) := by
    rw [deallocate_eq, tlen, plain, if_neg (by decide), plen]
  constructor
  · intro balanced
    obtain ⟨memory, unmapped⟩ := balanced _ _ allocated
    rw [released] at unmapped
    exact ⟨lt_of_forall_mem_pagesFrom aligned (by omega) memory,
      (munmap_roundUpPageSize_iff positive aligned few).mp unmapped⟩
  · rintro ⟨countable, up⟩ p pages given
    obtain ⟨rfl, rfl⟩ := Prod.mk.inj (Option.some.inj (allocated.symm.trans given))
    rw [released]
    exact ⟨fun offset within => mem_pagesFrom aligned (toNat_len countable).ge within,
      (munmap_roundUpPageSize_iff positive aligned few).mpr up⟩

theorem balanced_plain_iff (asked : ¬self.Refused kernel empty n) (plain : self.magic = false) :
    self.Balanced kernel empty n ↔
      ¬self.shared ∧ ∃ ptr, kernel.place (!self.readonly) (self.len n) = some ptr ∧
        (ptr = 0 ∨ self.Countable n ∧ RoundsUp (self.len n)) := by
  have allocated := allocate_plain asked plain
  by_cases shared : self.shared = true
  · rw [allocatePlain_shared shared] at allocated
    exact iff_of_false (not_balanced_of_mapFailed allocated) fun both => both.1 shared
  · cases placed : kernel.place (!self.readonly) (self.len n) with
    | none =>
        rw [allocatePlain_not_placed shared placed] at allocated
        refine iff_of_false (not_balanced_of_mapFailed allocated) ?_
        rintro ⟨-, ptr, given, -⟩
        cases given
    | some ptr =>
        rw [allocatePlain_placed shared placed] at allocated
        by_cases null : ptr = 0
        · rw [if_pos null] at allocated
          refine iff_of_true ?_ ⟨shared, ptr, rfl, .inl null⟩
          intro p pages given
          rw [allocated] at given
          cases given
        · rw [if_neg null] at allocated
          rw [balanced_placed_iff plain placed allocated]
          constructor
          · exact fun both => ⟨shared, ptr, rfl, .inr both⟩
          · rintro ⟨-, other, same, zero | both⟩
            · obtain rfl := Option.some.inj same
              exact absurd zero null
            · exact both

/-! ## With mirrors -/

theorem plen_pages (self : PageAllocator) (n : BitVec 64) : 4096 ∣ (self.plen n).toNat := by
  rw [plen, toNat_roundUpPageSize_mod]
  exact Nat.dvd_mul_left _ _

/-- The start of a page is not `MAP_FAILED`, nor is what lies so many pages behind it. -/
theorem add_ne_mapFailed {ptr offset : BitVec 64} (aligned : 4096 ∣ ptr.toNat)
    (pages : 4096 ∣ offset.toNat) : ptr + offset ≠ mapFailed := by
  intro same
  have numbers := congrArg BitVec.toNat same
  have last : mapFailed.toNat = 2 ^ 64 - 1 := rfl
  rw [BitVec.toNat_add, last] at numbers
  omega

theorem allocateMagic_granted (grants : self.GrantsMirror kernel n ptr) :
    self.allocateMagic kernel n =
      some (ptr, pagesFrom ptr.toNat (self.tlen n).toNat ∪
        pagesFrom (ptr + self.hlen).toNat (self.plen n - self.hlen).toNat ∪
          pagesFrom (ptr + self.plen n).toNat (self.plen n - self.hlen).toNat) := by
  unfold allocateMagic
  dsimp only
  rw [mmap_placed grants.placed, if_neg grants.nonnull, mmap_fixed grants.first,
    if_neg (not_not.mpr rfl), mmap_fixed grants.second, if_neg (not_not.mpr rfl)]

/-- With nothing to map, `MAP_FAILED` is where each view was asked for. -/
theorem allocateMagic_empty (magic : self.magic = true) (header : self.hlen = 0)
    (empty : self.plen n = 0) : self.allocateMagic kernel n = some (mapFailed, ∅) := by
  have total : self.tlen n = 0 := by
    rw [tlen, magic, if_pos rfl, header, empty]
    rfl
  have refused : kernel.place (!self.readonly) (self.tlen n) = none := by
    rw [Option.eq_none_iff_forall_not_mem]
    intro ptr placed
    have positive := (kernel.placed _ _ _ placed).1
    rw [total] at positive
    exact absurd positive (by decide)
  have last : mapFailed + 0 = mapFailed := rfl
  have zero : (0 : BitVec 64) - 0 = 0 := rfl
  have nowhere : ¬kernel.fixes (!self.readonly) mapFailed 0 = true := not_fixes (by decide)
  unfold allocateMagic
  dsimp only
  rw [mmap_not_placed refused, if_neg (by decide), header, empty, last, zero,
    mmap_not_fixed nowhere, if_neg (not_not.mpr rfl), if_neg (not_not.mpr rfl),
    Finset.empty_union, Finset.empty_union]

/-- Otherwise a mapping that is not granted shows in the address of a view. -/
theorem allocateMagic_not_granted (extent : ¬(self.hlen = 0 ∧ self.plen n = 0))
    (refused : ∀ ptr, ¬self.GrantsMirror kernel n ptr) : self.allocateMagic kernel n = none := by
  have header := self.header_pages
  have body := self.plen_pages n
  unfold allocateMagic
  dsimp only
  cases placed : kernel.place (!self.readonly) (self.tlen n) with
  | none =>
      have first := mapFailed_add self.hlen header
      have second := mapFailed_add (self.plen n) body
      rw [mmap_not_placed placed, if_neg (by decide), mmap_not_fixed (not_fixes first),
        mmap_not_fixed (not_fixes second)]
      by_cases none : self.hlen = 0
      · have moved : mapFailed + self.plen n ≠ mapFailed := by
          intro same
          exact extent ⟨none, by simpa using same⟩
        rw [if_pos moved, ite_self]
      · have moved : mapFailed + self.hlen ≠ mapFailed := by
          intro same
          exact none (by simpa using same)
        rw [if_pos moved]
  | some ptr =>
      have aligned := (kernel.placed _ _ _ placed).2.1
      rw [mmap_placed placed]
      by_cases null : ptr = 0
      · rw [if_pos null]
      · rw [if_neg null]
        by_cases first : kernel.fixes (!self.readonly) (ptr + self.hlen)
            (self.plen n - self.hlen) = true
        · have second : ¬kernel.fixes (!self.readonly) (ptr + self.plen n)
              (self.plen n - self.hlen) = true :=
            fun second => refused ptr ⟨placed, null, first, second⟩
          rw [mmap_fixed first, if_neg (not_not.mpr rfl), mmap_not_fixed second,
            if_pos (add_ne_mapFailed aligned body)]
        · rw [mmap_not_fixed first, if_pos (add_ne_mapFailed aligned header)]

/-- Lengths and addresses of a region whose header is within the address space. -/
theorem GrantsMirror.numbers (magic : self.magic = true) (grants : self.GrantsMirror kernel n ptr)
    (small : self.hlen.toNat < 2 ^ 47) :
    0 < (self.plen n - self.hlen).toNat ∧
      (self.plen n).toNat = self.hlen.toNat + (self.plen n - self.hlen).toNat ∧
        (self.tlen n).toNat = self.hlen.toNat + 2 * (self.plen n - self.hlen).toNat ∧
          (ptr + self.hlen).toNat = ptr.toNat + self.hlen.toNat ∧
            (ptr + self.plen n).toNat = ptr.toNat + (self.plen n).toNat := by
  obtain ⟨-, -, few⟩ := kernel.placed _ _ _ grants.placed
  obtain ⟨positive, -, room⟩ := kernel.fixed _ _ _ grants.first
  generalize length : self.plen n - self.hlen = period at positive room
  have rounded : self.plen n = self.hlen + period := by
    rw [← length, BitVec.add_comm, BitVec.sub_add_cancel]
  have plen : (self.hlen + period).toNat = self.hlen.toNat + period.toNat :=
    BitVec.toNat_add_of_lt (by omega)
  have twice : (period <<< 1).toNat = 2 * period.toNat := by
    rw [BitVec.toNat_shiftLeft, Nat.shiftLeft_eq, Nat.mod_eq_of_lt (by omega)]
    omega
  have total : (self.tlen n).toNat = self.hlen.toNat + 2 * period.toNat := by
    rw [tlen, magic, if_pos rfl, length, BitVec.toNat_add_of_lt (by omega), twice, Nat.add_comm]
  rw [rounded]
  refine ⟨positive, plen, total, ?_, ?_⟩
  · exact BitVec.toNat_add_of_lt (by omega)
  · exact BitVec.toNat_add_of_lt (by omega)

/-- Its views lie within it. -/
theorem GrantsMirror.pages (magic : self.magic = true) (grants : self.GrantsMirror kernel n ptr)
    (small : self.hlen.toNat < 2 ^ 47) :
    pagesFrom ptr.toNat (self.tlen n).toNat ∪
        pagesFrom (ptr + self.hlen).toNat (self.plen n - self.hlen).toNat ∪
          pagesFrom (ptr + self.plen n).toNat (self.plen n - self.hlen).toNat =
      pagesFrom ptr.toNat (self.tlen n).toNat := by
  obtain ⟨-, plen, total, first, second⟩ := grants.numbers magic small
  rw [first, second, Finset.union_eq_left.mpr, Finset.union_eq_left.mpr]
  · exact pagesFrom_subset self.header_pages (by omega)
  · rw [Finset.union_eq_left.mpr]
    · exact pagesFrom_subset (self.plen_pages n) (by omega)
    · exact pagesFrom_subset self.header_pages (by omega)

/-- A header that is larger moves the first view to where nothing is released. -/
theorem GrantsMirror.outside (grants : self.GrantsMirror kernel n ptr)
    (large : 2 ^ 47 ≤ self.hlen.toNat) :
    (ptr + self.hlen).toNat / 4096 ∉ pagesFrom ptr.toNat (self.tlen n).toNat := by
  obtain ⟨-, aligned, few⟩ := kernel.placed _ _ _ grants.placed
  obtain ⟨-, below, room⟩ := kernel.fixed _ _ _ grants.first
  have small := self.hlen.isLt
  rw [BitVec.toNat_add] at below room ⊢
  rw [pagesFrom, Finset.mem_Ico]
  omega

/-- The values fit in front of the end of the second view. -/
theorem GrantsMirror.enough (magic : self.magic = true) (grants : self.GrantsMirror kernel n ptr)
    (countable : self.Countable n) (small : self.hlen.toNat < 2 ^ 47) :
    self.sizeofValue.toNat * n.toNat ≤ (self.tlen n).toNat := by
  obtain ⟨positive, plen, total, -, -⟩ := grants.numbers magic small
  have values := toNat_len countable
  have fits := (self.len n).isLt
  have rounded := toNat_roundUpPageSize_mod (self.len n)
  have header := self.header_pages
  have same : roundUpPageSize (self.len n) = self.plen n := rfl
  rw [same] at rounded
  omega

theorem balanced_granted_iff (magic : self.magic = true) (grants : self.GrantsMirror kernel n ptr)
    (allocated : self.allocate kernel empty n = self.allocateMagic kernel n) :
    self.Balanced kernel empty n ↔ self.Countable n ∧ self.hlen.toNat < 2 ^ 47 := by
  obtain ⟨positive, aligned, few⟩ := kernel.placed _ _ _ grants.placed
  have released : self.deallocate ptr n = some (pagesFrom ptr.toNat (self.tlen n).toNat) := by
    rw [deallocate_eq, munmap_of_pages positive aligned few]
  rw [allocateMagic_granted grants] at allocated
  constructor
  · intro balanced
    obtain ⟨memory, unmapped⟩ := balanced _ _ allocated
    have small : self.hlen.toNat < 2 ^ 47 := by
      by_contra large
      refine grants.outside (Nat.le_of_not_lt large) ?_
      rw [released, Option.some.injEq] at unmapped
      obtain ⟨positive, pages, -⟩ := kernel.fixed _ _ _ grants.first
      have first := mem_pagesFrom pages (Nat.le_refl _) positive
      rw [unmapped]
      exact Finset.mem_union_left _ (Finset.mem_union_right _ first)
    rw [grants.pages magic small] at memory
    exact ⟨lt_of_forall_mem_pagesFrom aligned (by omega) memory, small⟩
  · rintro ⟨countable, small⟩ p pages given
    rw [grants.pages magic small] at allocated
    obtain ⟨rfl, rfl⟩ := Prod.mk.inj (Option.some.inj (allocated.symm.trans given))
    exact ⟨fun offset within =>
      mem_pagesFrom aligned (grants.enough magic countable small) within, released⟩

theorem balanced_magic_iff (asked : ¬self.Refused kernel empty n) (magic : self.magic = true) :
    self.Balanced kernel empty n ↔
      ¬(self.hlen = 0 ∧ self.plen n = 0) ∧
        ∀ ptr, self.GrantsMirror kernel n ptr → self.Countable n ∧ self.hlen.toNat < 2 ^ 47 := by
  have allocated := allocate_magic asked magic
  by_cases extent : self.hlen = 0 ∧ self.plen n = 0
  · rw [allocateMagic_empty magic extent.1 extent.2] at allocated
    exact iff_of_false (not_balanced_of_mapFailed allocated) fun both => both.1 extent
  · by_cases granted : ∃ ptr, self.GrantsMirror kernel n ptr
    · obtain ⟨ptr, grants⟩ := granted
      rw [balanced_granted_iff magic grants allocated]
      constructor
      · exact fun both => ⟨extent, fun _ _ => both⟩
      · exact fun both => both.2 ptr grants
    · have refused := not_exists.mp granted
      rw [allocateMagic_not_granted extent refused] at allocated
      refine iff_of_true ?_ ⟨extent, fun ptr grants => absurd grants (refused ptr)⟩
      intro p pages given
      rw [allocated] at given
      cases given

/--
For every value type, header, combination of flags and kernel, and every number of
values: what `allocate` returns is enough memory and is released by `deallocate`
exactly if `allocate` throws before it maps anything, or what it takes is given.
-/
theorem balanced_iff (self : PageAllocator) (kernel : PageKernel) (empty : Bool)
    (n : BitVec 64) :
    self.Balanced kernel empty n ↔ self.Refused kernel empty n ∨ self.Balances kernel n := by
  by_cases refused : self.Refused kernel empty n
  · refine iff_of_true ?_ (.inl refused)
    intro p pages given
    rw [allocate_of_refused refused] at given
    cases given
  · rw [or_iff_right refused, Balances]
    split
    · rename_i magic
      exact balanced_magic_iff refused magic
    · rename_i plain
      exact balanced_plain_iff refused (Bool.eq_false_of_not_eq_true plain)

/-- Characters, without flags, and a kernel with memory behind the first 16 pages. -/
def characters : PageAllocator where
  toMmapAllocator := .create false false 0
  readonly := false
  sizeofValue := 1
  header_pages := by decide

/-- A kernel that has room. -/
def roomyKernel : PageKernel where
  mkstemp := true
  posixFallocate length := 0 < length
  place _ length := if 0 < length ∧ length.toNat ≤ 2 ^ 40 then some 65536 else none
  fixes _ address length :=
    decide (0 < length.toNat ∧ 4096 ∣ address.toNat ∧ address.toNat + length.toNat ≤ 2 ^ 47)
  placed := by
    intro writable length address placed
    split at placed
    · rename_i granted
      obtain rfl := Option.some.inj placed
      exact ⟨granted.1, by decide, Nat.le_trans (Nat.add_le_add_left granted.2 _) (by decide)⟩
    · cases placed
  fixed := by
    intro writable address length fixed
    exact of_decide_eq_true fixed

/-- Of 4097 characters one page is released of two, and the release of one terminates. -/
theorem not_balanced_characters :
    characters.allocate roomyKernel true 4097 = some (65536, {16, 17}) ∧
      characters.deallocate 65536 4097 = some {16} ∧
        characters.allocate roomyKernel true 1 = some (65536, {16}) ∧
          characters.deallocate 65536 1 = none ∧
            ¬characters.Balanced roomyKernel true 4097 ∧
              ¬characters.Balanced roomyKernel true 1 := by
  have two : characters.allocate roomyKernel true 4097 = some (65536, {16, 17}) := by
    decide +kernel
  have partly : characters.deallocate 65536 4097 = some {16} := by decide +kernel
  have one : characters.allocate roomyKernel true 1 = some (65536, {16}) := by decide +kernel
  have never : characters.deallocate 65536 1 = none := by decide +kernel
  refine ⟨two, partly, one, never, fun balanced => ?_, fun balanced => ?_⟩
  · have released := (balanced _ _ two).2
    rw [partly] at released
    exact absurd released (by decide)
  · have released := (balanced _ _ one).2
    rw [never] at released
    cases released

/-! ## Views -/

theorem exists_of_resolve {views : List View} {address : Nat}
    (found : (resolve views address).isSome) :
    ∃ view ∈ views, view.start ≤ address ∧ address < view.start + view.length := by
  rw [resolve, Option.isSome_map, List.find?_isSome] at found
  obtain ⟨view, member, inside⟩ := found
  exact ⟨view, member, of_decide_eq_true inside⟩

/-- Without mirrors there is at most a view of so many bytes. -/
theorem view_within_plain {allocator : MmapAllocator} {granting : Kernel} {views : List View}
    (plain : allocator.magic = false)
    (viewed : allocator.allocate granting empty n = some views) {view : View}
    (member : view ∈ views) : view.start + view.length ≤ n.toNat := by
  unfold MmapAllocator.allocate at viewed
  simp only [plain, Bool.false_eq_true, if_false] at viewed
  by_cases refused : empty = true ∧ (False ∨ allocator.shared = true) ∧
      ¬granting.reserves (roundUpPageSize n).toNat = true
  · rw [if_pos refused] at viewed
    cases viewed
  · rw [if_neg refused] at viewed
    split at viewed
    · obtain rfl := Option.some.inj viewed
      cases member
    · split at viewed
      · obtain rfl := Option.some.inj viewed
        obtain rfl := List.mem_singleton.mp member
        exact Nat.le_of_eq (Nat.zero_add _)
      · obtain rfl := Option.some.inj viewed
        cases member

/-- With mirrors the views lie within the region. -/
theorem GrantsMirror.view_within {granting : Kernel} {views : List View}
    (single : self.sizeofValue = 1) (magic : self.magic = true)
    (grants : self.GrantsMirror kernel n ptr) (small : self.hlen.toNat < 2 ^ 47)
    (viewed : self.toMmapAllocator.allocate granting empty n = some views) {view : View}
    (member : view ∈ views) : view.start + view.length ≤ (self.tlen n).toNat := by
  obtain ⟨-, plen, total, -, -⟩ := grants.numbers magic small
  have rounded : roundUpPageSize n = self.plen n := by
    have same : self.len n = n := by
      rw [len, single]
      exact BitVec.one_mul n
    rw [PageAllocator.plen, same]
  have whole : (self.plen n - self.hlen) <<< 1 + self.hlen = self.tlen n := by
    rw [tlen, if_pos magic]
  unfold MmapAllocator.allocate at viewed
  simp only [magic, if_true, rounded, whole] at viewed
  split at viewed
  · cases viewed
  · split at viewed
    · obtain rfl := Option.some.inj viewed
      simp only [List.mem_cons, List.not_mem_nil, or_false] at member
      rcases member with rfl | rfl | rfl
      · simp only
        omega
      · simp only
        omega
      · exact Nat.le_of_eq (Nat.zero_add _)
    · cases viewed

/-- Wherever a view of characters resolves an address, a page has been mapped. -/
theorem mem_of_resolve {granting : Kernel} {views : List View} {p : BitVec 64}
    {pages : Finset Nat} (single : self.sizeofValue = 1) (small : self.hlen.toNat < 2 ^ 47)
    (viewed : self.toMmapAllocator.allocate granting empty n = some views)
    (mapped : self.allocate kernel empty n = some (p, pages)) (pointer : p ≠ mapFailed)
    {address : Nat} (found : (resolve views address).isSome) :
    (p.toNat + address) / 4096 ∈ pages := by
  obtain ⟨view, member, -, inside⟩ := exists_of_resolve found
  have asked : ¬self.Refused kernel empty n := by
    intro refused
    rw [allocate_of_refused refused] at mapped
    cases mapped
  cases magic : self.magic with
  | false =>
      have within := view_within_plain magic viewed member
      have countable : self.Countable n := by
        have few := n.isLt
        rw [Countable, single]
        exact (Nat.one_mul _).trans_lt few
      have length := toNat_len countable
      rw [single] at length
      rw [allocate_plain asked magic] at mapped
      by_cases shared : self.shared = true
      · rw [allocatePlain_shared shared] at mapped
        exact absurd (Prod.mk.inj (Option.some.inj mapped)).1.symm pointer
      · cases placed : kernel.place (!self.readonly) (self.len n) with
        | none =>
            rw [allocatePlain_not_placed shared placed] at mapped
            exact absurd (Prod.mk.inj (Option.some.inj mapped)).1.symm pointer
        | some ptr =>
            obtain ⟨-, aligned, -⟩ := kernel.placed _ _ _ placed
            rw [allocatePlain_placed shared placed] at mapped
            split at mapped
            · cases mapped
            · obtain ⟨rfl, rfl⟩ := Prod.mk.inj (Option.some.inj mapped)
              have bytes : n.toNat ≤ (self.len n).toNat := by
                rw [length]
                exact Nat.le_of_eq (Nat.one_mul _).symm
              exact mem_pagesFrom aligned bytes (Nat.lt_of_lt_of_le inside within)
  | true =>
      rw [allocate_magic asked magic] at mapped
      by_cases granted : ∃ ptr, self.GrantsMirror kernel n ptr
      · obtain ⟨ptr, grants⟩ := granted
        obtain ⟨-, aligned, -⟩ := kernel.placed _ _ _ grants.placed
        rw [allocateMagic_granted grants, grants.pages magic small] at mapped
        obtain ⟨rfl, rfl⟩ := Prod.mk.inj (Option.some.inj mapped)
        have within := grants.view_within single magic small viewed member
        exact mem_pagesFrom aligned within inside
      · by_cases extent : self.hlen = 0 ∧ self.plen n = 0
        · rw [allocateMagic_empty magic extent.1 extent.2] at mapped
          exact absurd (Prod.mk.inj (Option.some.inj mapped)).1.symm pointer
        · rw [allocateMagic_not_granted extent (not_exists.mp granted)] at mapped
          cases mapped

end PageAllocator

end ReactiveToolbox.Ipc
