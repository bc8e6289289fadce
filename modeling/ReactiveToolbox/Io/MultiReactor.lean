import Mathlib.Algebra.Group.Nat.Defs
import Mathlib.Data.Fin.Basic
import Mathlib.Data.List.FinRange

/-!
# Several pollers

`BasicMultiReactor` numbers the sockets of its pollers: the index of the poller stands
above the twelve bits that the poller itself gives out, and the high bit marks the number
as one of these.  `poller` looks for an index of which that bit is still a part.
-/

namespace ReactiveToolbox.Io

universe u

/-- `std::tuple` of pollers by their indices; `std::tuple_size` is a `size_t`. -/
structure BasicMultiReactor where
  implsSize : Nat
  implsSize_pos : 0 < implsSize
  implsSize_lt : implsSize < 2 ^ 64

namespace BasicMultiReactor

/-- `CustomFDBits`. -/
def customFDBits : Nat :=
  12

/-- `CustomFDMask`. -/
def customFDMask : BitVec 32 :=
  (1 <<< 12) - 1

/-- `HighBitFDMask`. -/
def highBitFDMask : BitVec 32 :=
  1 <<< 31

/-- A pointer to one of the pollers. -/
abbrev Poller (self : BasicMultiReactor) : Type :=
  Fin self.implsSize

/-- The variables of `poller` while it goes through the pollers. -/
structure Search (Impl : Type u) where
  poller : Option Impl
  rix : BitVec 64

/-- The callback of `poller` for one of the pollers. -/
def Search.visit {Impl : Type u} (search : Search Impl) (impl : Impl) : Search Impl :=
  { poller := if search.rix = 0 then some impl else search.poller
    rix := search.rix - 1 }

/-- `poller(fd)`, which looks for the index in the number of the descriptor. -/
def poller (self : BasicMultiReactor) (fd : BitVec 32) : Option self.Poller :=
  let ix := (fd &&& ~~~customFDMask).setWidth 64
  let rix := ix >>> customFDBits
  let rix := if fd &&& highBitFDMask = 0 then BitVec.ofNat 64 self.implsSize - 1 else rix
  ((List.finRange self.implsSize).foldl Search.visit ⟨none, rix⟩).poller

/-- `socket<T>()`, where `T` is the poller at `index`, whose own `socket()` is `number`. -/
def socket (self : BasicMultiReactor) (index : self.Poller) (number : BitVec 32) : BitVec 32 :=
  (((BitVec.ofNat 64 index.val <<< customFDBits) ||| highBitFDMask.signExtend 64) +
    number.signExtend 64).setWidth 32

/-! ## The search -/

/-- The search finds the poller at an index, if there are so many. -/
theorem foldl_visit {Impl : Type u} (impls : List Impl) (fits : impls.length ≤ 2 ^ 64)
    (search : Search Impl) :
    (impls.foldl Search.visit search).poller = impls[search.rix.toNat]?.or search.poller := by
  induction impls generalizing search with
  | nil => rfl
  | cons impl impls continued =>
      rw [List.length_cons] at fits
      rw [List.foldl_cons, continued (Nat.le_of_succ_le fits)]
      by_cases here : search.rix = 0
      · have wrapped : (search.visit impl).rix.toNat = 2 ^ 64 - 1 := by
          rw [Search.visit, here]
          rfl
        have behind : impls[(search.visit impl).rix.toNat]? = none := by
          rw [wrapped]
          exact List.getElem?_eq_none (by omega)
        rw [behind, Option.none_or, Search.visit, if_pos here, here]
        rfl
      · have positive : 0 < search.rix.toNat := by
          refine Nat.pos_of_ne_zero fun zero => here ?_
          exact BitVec.eq_of_toNat_eq zero
        have before : (search.visit impl).rix.toNat + 1 = search.rix.toNat := by
          have below := search.rix.isLt
          rw [Search.visit]
          dsimp only
          rw [BitVec.toNat_sub_of_le]
          · exact Nat.sub_add_cancel positive
          · exact positive
        rw [← before, List.getElem?_cons_succ, Search.visit, if_neg here]

/-! ## Numbers of sockets -/

/-- The index that `poller` takes out of a number. -/
theorem toNat_rix (fd : BitVec 32) :
    ((fd &&& ~~~customFDMask).setWidth 64 >>> customFDBits).toNat = fd.toNat / 2 ^ 12 := by
  have masked : (fd &&& ~~~customFDMask) >>> customFDBits = fd >>> customFDBits := by
    refine BitVec.eq_of_getLsbD_eq fun place within => ?_
    have ones : customFDMask = BitVec.ofNat 32 (2 ^ 12 - 1) := by decide
    have above : customFDMask.getLsbD (customFDBits + place) = false := by
      rw [ones, BitVec.getLsbD_ofNat, Nat.testBit_two_pow_sub_one, Bool.and_eq_false_iff]
      exact .inr (decide_eq_false (Nat.not_lt.mpr (Nat.le_add_right _ _)))
    simp only [BitVec.getLsbD_ushiftRight, BitVec.getLsbD_and, BitVec.getLsbD_not, above,
      Bool.not_false, Bool.and_true, Bool.and_eq_left_iff_imp]
    intro set
    exact decide_eq_true (BitVec.lt_of_getLsbD set)
  rw [← BitVec.setWidth_ushiftRight (by decide), masked, BitVec.toNat_setWidth,
    BitVec.toNat_ushiftRight, Nat.shiftRight_eq_div_pow, customFDBits]
  have small := fd.isLt
  omega

/-- A bit that is the highest. -/
theorem lor_two_pow {bits number : Nat} (small : number < 2 ^ (bits + 1)) :
    number ||| 2 ^ bits = 2 ^ bits + number % 2 ^ bits := by
  have positive : 0 < 2 ^ bits := Nat.two_pow_pos bits
  have low : (number ||| 2 ^ bits) % 2 ^ bits = number % 2 ^ bits := by
    rw [Nat.or_mod_two_pow, Nat.mod_self, Nat.or_zero]
  have high : (number ||| 2 ^ bits) / 2 ^ bits = 1 := by
    have above : number / 2 ^ bits < 2 := by
      rw [Nat.div_lt_iff_lt_mul positive]
      omega
    rw [Nat.or_div_two_pow, Nat.div_self positive]
    rcases Nat.lt_succ_iff_lt_or_eq.mp above with zero | one
    · rw [Nat.lt_one_iff.mp zero]
      rfl
    · rw [one]
      rfl
  have whole := Nat.div_add_mod (number ||| 2 ^ bits) (2 ^ bits)
  rw [high, low, Nat.mul_one] at whole
  exact whole.symm

theorem land_two_pow (number bits : Nat) :
    number &&& 2 ^ bits = 2 ^ bits * (number / 2 ^ bits % 2) := by
  have low : (number &&& 2 ^ bits) % 2 ^ bits = 0 := by
    rw [Nat.and_mod_two_pow, Nat.mod_self, Nat.and_zero]
  have high : (number &&& 2 ^ bits) / 2 ^ bits = number / 2 ^ bits % 2 := by
    rw [Nat.and_div_two_pow, Nat.div_self (Nat.two_pow_pos bits), Nat.and_one_is_mod]
  have whole := Nat.div_add_mod (number &&& 2 ^ bits) (2 ^ bits)
  rw [high, low, Nat.add_zero] at whole
  exact whole.symm

theorem setWidth_signExtend (value : BitVec 32) : (value.signExtend 64).setWidth 32 = value := by
  refine BitVec.eq_of_getLsbD_eq fun place within => ?_
  simp [BitVec.getLsbD_signExtend, within]
  omega

/-- The index without what does not fit stands above the twelve bits, and the high bit above it. -/
theorem toNat_socket (self : BasicMultiReactor) (index : self.Poller) {number : Nat}
    (within : number < 2 ^ 12) :
    (self.socket index (BitVec.ofNat 32 number)).toNat =
      2 ^ 31 + index.val % 2 ^ 19 * 2 ^ 12 + number := by
  have narrow : self.socket index (BitVec.ofNat 32 number) =
      ((BitVec.ofNat 64 index.val <<< customFDBits).setWidth 32 ||| highBitFDMask) +
        BitVec.ofNat 32 number := by
    rw [socket, BitVec.setWidth_add _ _ (by decide), BitVec.setWidth_or, setWidth_signExtend,
      setWidth_signExtend]
  have high : highBitFDMask.toNat = 2 ^ 31 := rfl
  have shifted : ((BitVec.ofNat 64 index.val <<< customFDBits).setWidth 32).toNat =
      index.val * 2 ^ 12 % 2 ^ 32 := by
    rw [BitVec.toNat_setWidth, BitVec.toNat_shiftLeft, BitVec.toNat_ofNat, Nat.shiftLeft_eq,
      customFDBits]
    omega
  have marked : index.val * 2 ^ 12 % 2 ^ 32 ||| 2 ^ 31 =
      2 ^ 31 + index.val * 2 ^ 12 % 2 ^ 32 % 2 ^ 31 :=
    lor_two_pow (Nat.mod_lt _ (Nat.two_pow_pos 32))
  rw [narrow, BitVec.toNat_add, BitVec.toNat_or, shifted, high, marked, BitVec.toNat_ofNat]
  omega

/-- A number without the high bit is not negative. -/
theorem and_highBit_eq_zero_iff (fd : BitVec 32) :
    fd &&& highBitFDMask = 0 ↔ fd.toNat < 2 ^ 31 := by
  have high : highBitFDMask.toNat = 2 ^ 31 := rfl
  have zero : (0 : BitVec 32).toNat = 0 := rfl
  have small := fd.isLt
  rw [← BitVec.toNat_inj, BitVec.toNat_and, high, land_two_pow, zero]
  omega

/-- The index that `poller` takes out of a number with the high bit. -/
theorem poller_marked (self : BasicMultiReactor) {fd : BitVec 32}
    (marked : fd &&& highBitFDMask ≠ 0) :
    self.poller fd = (List.finRange self.implsSize)[fd.toNat / 2 ^ 12]? := by
  have fits : (List.finRange self.implsSize).length ≤ 2 ^ 64 := by
    rw [List.length_finRange]
    exact Nat.le_of_lt self.implsSize_lt
  unfold poller
  dsimp only
  rw [if_neg marked, foldl_visit _ fits, Option.or_none, toNat_rix]

/-- What is left in a socket that has been moved from, `-1`, is a number of no poller. -/
theorem poller_moved (self : BasicMultiReactor) (few : self.implsSize < 2 ^ 20) :
    self.poller (-1) = none := by
  have place : (-1 : BitVec 32).toNat / 2 ^ 12 = 2 ^ 20 - 1 := by decide
  rw [poller_marked self (by decide), place]
  apply List.getElem?_eq_none
  rw [List.length_finRange]
  omega

/-- What `poller` finds is a poller far behind the one whose socket it is, if there is one. -/
theorem poller_socket (self : BasicMultiReactor) (index : self.Poller) {number : Nat}
    (within : number < 2 ^ 12) :
    self.poller (self.socket index (BitVec.ofNat 32 number)) =
      (List.finRange self.implsSize)[2 ^ 19 + index.val % 2 ^ 19]? := by
  have value := toNat_socket self index within
  have marked : self.socket index (BitVec.ofNat 32 number) &&& highBitFDMask ≠ 0 := by
    rw [ne_eq, and_highBit_eq_zero_iff, value]
    omega
  rw [poller_marked self marked, value]
  congr 1
  omega

/-- A number of the operating system is one of the last poller. -/
theorem poller_system (self : BasicMultiReactor) {fd : BitVec 32} (system : fd.toNat < 2 ^ 31) :
    ∃ poller, self.poller fd = some poller ∧ poller.val + 1 = self.implsSize := by
  have positive := self.implsSize_pos
  have fits : (List.finRange self.implsSize).length ≤ 2 ^ 64 := by
    rw [List.length_finRange]
    exact Nat.le_of_lt self.implsSize_lt
  have last : (BitVec.ofNat 64 self.implsSize - 1).toNat = self.implsSize - 1 := by
    have size : (BitVec.ofNat 64 self.implsSize).toNat = self.implsSize := by
      rw [BitVec.toNat_ofNat, Nat.mod_eq_of_lt self.implsSize_lt]
    rw [BitVec.toNat_sub_of_le, size]
    · rfl
    · rw [BitVec.le_def, size]
      exact positive
  refine ⟨⟨self.implsSize - 1, Nat.sub_lt positive Nat.one_pos⟩, ?_, Nat.sub_add_cancel positive⟩
  unfold poller
  dsimp only
  rw [if_pos ((and_highBit_eq_zero_iff fd).mpr system), foldl_visit _ fits, Option.or_none, last,
    List.getElem?_eq_getElem (by rw [List.length_finRange]; omega), List.getElem_finRange]
  rfl

/-! ## There and back -/

/--
A socket leads back to its poller, no other has its number, and a number of the operating
system leads to the last poller.
-/
structure RoundTrips (reactor : BasicMultiReactor) (index : reactor.Poller) (number : Nat) :
    Prop where
  own : reactor.poller (reactor.socket index (BitVec.ofNat 32 number)) = some index
  apart : ∀ other otherNumber, otherNumber < 2 ^ 12 →
    reactor.socket other (BitVec.ofNat 32 otherNumber) =
      reactor.socket index (BitVec.ofNat 32 number) → other = index ∧ otherNumber = number
  system : ∀ fd : BitVec 32, 0 ≤ fd.toInt → ∃ poller, reactor.poller fd = some poller ∧
    poller.val + 1 = reactor.implsSize

/-- The poller is found again at `2 ^ 19`, where the bits of an index end, or behind it. -/
theorem own_iff (self : BasicMultiReactor) (index : self.Poller) {number : Nat}
    (within : number < 2 ^ 12) :
    self.poller (self.socket index (BitVec.ofNat 32 number)) = some index ↔
      2 ^ 19 ≤ index.val ∧ index.val < 2 ^ 20 := by
  rw [poller_socket self index within]
  constructor
  · intro found
    obtain ⟨bound, same⟩ := List.getElem?_eq_some_iff.mp found
    rw [List.getElem_finRange] at same
    have value : 2 ^ 19 + index.val % 2 ^ 19 = index.val := congrArg Fin.val same
    omega
  · rintro ⟨above, below⟩
    have value : 2 ^ 19 + index.val % 2 ^ 19 = index.val := by omega
    rw [value, List.getElem?_eq_getElem (by rw [List.length_finRange]; exact index.isLt),
      List.getElem_finRange]
    rfl

/-- Two sockets have the same number if their indices differ in bits that do not fit. -/
theorem socket_eq_iff (self : BasicMultiReactor) (index other : self.Poller)
    {number otherNumber : Nat} (within : number < 2 ^ 12) (otherWithin : otherNumber < 2 ^ 12) :
    self.socket other (BitVec.ofNat 32 otherNumber) =
        self.socket index (BitVec.ofNat 32 number) ↔
      other.val % 2 ^ 19 = index.val % 2 ^ 19 ∧ otherNumber = number := by
  rw [← BitVec.toNat_inj, toNat_socket self index within, toNat_socket self other otherWithin]
  constructor
  · intro same
    omega
  · rintro ⟨index_eq, number_eq⟩
    rw [index_eq, number_eq]

/--
No socket of any poller makes the round trip.  The poller is not found again, unless its
index has a bit that does not fit, and then another one has the same number; a number of
the operating system is always one of the last poller.
-/
theorem roundTrips_never (self : BasicMultiReactor) (index : self.Poller) (number : Nat)
    (within : number < 2 ^ 12) :
    ¬self.RoundTrips index number ∧
      (self.poller (self.socket index (BitVec.ofNat 32 number)) = some index ↔
        2 ^ 19 ≤ index.val ∧ index.val < 2 ^ 20) ∧
      (∀ other otherNumber, otherNumber < 2 ^ 12 →
        (self.socket other (BitVec.ofNat 32 otherNumber) =
            self.socket index (BitVec.ofNat 32 number) ↔
          other.val % 2 ^ 19 = index.val % 2 ^ 19 ∧ otherNumber = number)) ∧
      ∀ fd : BitVec 32, 0 ≤ fd.toInt → ∃ poller, self.poller fd = some poller ∧
        poller.val + 1 = self.implsSize := by
  refine ⟨fun trips => ?_, own_iff self index within,
    fun other otherNumber => socket_eq_iff self index other within, fun fd system => ?_⟩
  · obtain ⟨above, below⟩ := (own_iff self index within).mp trips.own
    let other : self.Poller := ⟨index.val % 2 ^ 19, by omega⟩
    have same : self.socket other (BitVec.ofNat 32 number) =
        self.socket index (BitVec.ofNat 32 number) :=
      (socket_eq_iff self index other within within).mpr ⟨Nat.mod_mod _ _, rfl⟩
    have equal : index.val % 2 ^ 19 = index.val :=
      congrArg Fin.val (trips.apart other number within same).1
    omega
  · refine poller_system self ?_
    have small := fd.isLt
    rw [BitVec.toInt_eq_toNat_cond] at system
    split at system <;> omega

/-- A reactor of two pollers. -/
def two : BasicMultiReactor where
  implsSize := 2
  implsSize_pos := by decide
  implsSize_lt := by decide

theorem roundTrips_never_two : ¬two.RoundTrips ⟨1, by decide⟩ 0 :=
  (roundTrips_never two ⟨1, by decide⟩ 0 (by decide)).1

/-- For the first socket of its first poller, `poller` returns null. -/
theorem not_roundTrips_two :
    ¬two.RoundTrips ⟨0, by decide⟩ 0 ∧ two.socket ⟨0, by decide⟩ 0 = 0x80000000 ∧
      two.poller 0x80000000 = none := by
  have missing : two.poller 0x80000000 = none := by decide
  refine ⟨fun trips => ?_, by decide, missing⟩
  cases missing.symm.trans trips.own

end BasicMultiReactor

end ReactiveToolbox.Io
