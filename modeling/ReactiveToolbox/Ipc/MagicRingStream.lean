import ReactiveToolbox.Ipc.MagicRingBuffer
import ReactiveToolbox.Lib.Transition

/-!
# The ring buffer as a stream of bytes

Where the mirror repeats with the period of the index mask, the ring is a bounded
queue of bytes, however often positions wrap around the ring or around 64 bits.
The constructor accepts one capacity below a page, and its mirror repeats only
after a whole page.
-/

namespace ReactiveToolbox.Ipc.MagicRingBuffer

open ReactiveToolbox.Lib
open ReactiveToolbox.Util

variable {ring : MagicRingBuffer} {memory : Memory} {exponent first : Nat} {held : List UInt8}

/-! ## Positions -/

/-- The ring's own constants, and how often its mapping repeats. -/
structure Shape (ring : MagicRingBuffer) (exponent period : Nat) : Prop where
  narrow : exponent < 47
  capacity : ring.capacity.toNat = 2 ^ exponent
  mask : ring.mask = ring.capacity - 1
  mirrors : Mirrors ring.views sizeofImpl.toNat period

theorem Shape.lt {period : Nat} (shape : Shape ring exponent period) : 2 ^ exponent < 2 ^ 47 :=
  Nat.pow_lt_pow_right (by omega) shape.narrow

theorem Shape.address_ofNat {period : Nat} (shape : Shape ring exponent period)
    (position : Nat) :
    ring.address (BitVec.ofNat 64 position) =
      sizeofImpl.toNat + position % 2 ^ exponent := by
  have narrow := shape.narrow
  have mask : ring.mask = BitVec.ofNat 64 (2 ^ exponent) - 1 := by
    rw [shape.mask, ← shape.capacity, BitVec.ofNat_toNat, BitVec.setWidth_eq]
  rw [address, mask, toNat_and_mask (by omega)]

theorem ofNat_add_sub (position count : Nat) :
    BitVec.ofNat 64 (position + count) - BitVec.ofNat 64 position = BitVec.ofNat 64 count := by
  rw [BitVec.ofNat_add, BitVec.add_comm, BitVec.add_sub_cancel]

/-! ## One call -/

/-- The positions say that some bytes are held, and where they begin. -/
structure Positions (memory : Memory) (first held : Nat) : Prop where
  rpos : memory.anonymous.words rposOffset = BitVec.ofNat 64 first
  wpos : memory.anonymous.words wposOffset = BitVec.ofNat 64 (first + held)

/-- The memory after a write at a position. -/
def written (memory : Memory) (exponent period position : Nat) (bytes : List UInt8) : Memory where
  anonymous := { memory.anonymous with
    words := Function.update memory.anonymous.words wposOffset
      (BitVec.ofNat 64 (position + bytes.length)) }
  file := { memory.file with
    bytes := storeAll (· % period) memory.file.bytes (position % 2 ^ exponent) bytes }

/-- The memory after a read up to a position. -/
def consumed (memory : Memory) (position : Nat) : Memory :=
  { memory with anonymous := { memory.anonymous with
    words := Function.update memory.anonymous.words rposOffset (BitVec.ofNat 64 position) } }

variable {count period : Nat}

theorem Positions.written (positions : Positions memory first count) (bytes : List UInt8) :
    Positions (written memory exponent period (first + count) bytes) first
      (count + bytes.length) := by
  have apart : rposOffset ≠ wposOffset := by decide
  refine ⟨?_, ?_⟩
  · simp only [MagicRingBuffer.written, Function.update_of_ne apart, positions.rpos]
  · simp only [MagicRingBuffer.written, Function.update_self, Nat.add_assoc]

theorem Positions.consumed (positions : Positions memory first count) {taken : Nat}
    (within : taken ≤ count) :
    Positions (consumed memory (first + taken)) (first + taken) (count - taken) := by
  have apart : wposOffset ≠ rposOffset := by decide
  refine ⟨?_, ?_⟩
  · simp only [MagicRingBuffer.consumed, Function.update_self]
  · have same : first + taken + (count - taken) = first + count := by omega
    simp only [MagicRingBuffer.consumed, Function.update_of_ne apart, positions.wpos, same]

/-- A write is accepted exactly when it fits behind what is held. -/
theorem write_eq (shape : Shape ring exponent period) (turn : 2 ^ exponent ≤ period)
    (positions : Positions memory first count) (bounded : count ≤ 2 ^ exponent)
    (payload : Payload) :
    ring.write memory payload = some (
      if count + payload.bytes.length ≤ 2 ^ exponent then
        (written memory exponent period (first + count) payload.bytes, true)
      else (memory, false)) := by
  have small := shape.lt
  have capacity := shape.capacity
  have fits := payload.fits
  have header : rposOffset < sizeofImpl.toNat ∧ wposOffset < sizeofImpl.toNat := by decide
  have room : (ring.capacity - (BitVec.ofNat 64 (first + count) - BitVec.ofNat 64 first) <
      BitVec.ofNat 64 payload.bytes.length) ↔
        ¬ count + payload.bytes.length ≤ 2 ^ exponent := by
    rw [ofNat_add_sub, BitVec.lt_def, BitVec.toNat_sub_of_le, capacity]
    · simp only [BitVec.toNat_ofNat, Nat.mod_eq_of_lt fits]
      rw [Nat.mod_eq_of_lt (by omega)]
      omega
    · rw [BitVec.le_def, capacity, BitVec.toNat_ofNat, Nat.mod_eq_of_lt (by omega)]
      exact bounded
  simp only [write, shape.mirrors.loadWord header.1, shape.mirrors.loadWord header.2,
    Option.bind_some, positions.rpos, positions.wpos, room]
  by_cases enough : count + payload.bytes.length ≤ 2 ^ exponent
  · have start := Nat.mod_lt (first + count) (Nat.two_pow_pos exponent)
    rw [if_neg (not_not.mpr enough), if_pos enough, shape.address_ofNat,
      shape.mirrors.storeBytes (by omega), Option.bind_some,
      shape.mirrors.storeWord header.2, ← BitVec.ofNat_add]
    rfl
  · rw [if_pos enough, if_neg enough]

/-- A read shows what is in the ring, and consumes what its callback says. -/
theorem read_eq (shape : Shape ring exponent period) (turn : 2 ^ exponent ≤ period)
    (positions : Positions memory first count) (bounded : count ≤ 2 ^ exponent)
    (reader : Reader) {window : List UInt8}
    (shown : loadAll (· % period) memory.file.bytes (first % 2 ^ exponent) count = window) :
    ring.read memory reader = some (
      if count = 0 ∨ count < reader.size.toNat then (memory, none)
      else (consumed memory (first + reader.consume window), some window)) := by
  have small := shape.lt
  have header : rposOffset < sizeofImpl.toNat ∧ wposOffset < sizeofImpl.toNat := by decide
  have ready : (BitVec.ofNat 64 count).toNat = count := by
    rw [BitVec.toNat_ofNat, Nat.mod_eq_of_lt (by omega)]
  have short : (BitVec.ofNat 64 count = 0 ∨ BitVec.ofNat 64 count < reader.size) ↔
      count = 0 ∨ count < reader.size.toNat := by
    rw [BitVec.lt_def, ready, ← BitVec.toNat_inj, ready]
    rfl
  simp only [read, shape.mirrors.loadWord header.1, shape.mirrors.loadWord header.2,
    Option.bind_some, positions.rpos, positions.wpos, ofNat_add_sub, short]
  split
  · rfl
  · have start := Nat.mod_lt first (Nat.two_pow_pos exponent)
    rw [shape.address_ofNat, ready, shape.mirrors.loadBytes (by omega), shown, Option.bind_some,
      shape.mirrors.storeWord header.1, ← BitVec.ofNat_add]
    rfl

/-! ## Every sequence of calls -/

variable {session session' : Session} {payload : Payload} {reader : Reader}

theorem step_write (shape : Shape ring exponent period) (turn : 2 ^ exponent ≤ period)
    (positions : Positions session.memory first count) (payload : Payload)
    (room : count + payload.bytes.length ≤ 2 ^ exponent) :
    ∃ session', ring.step session (.write payload) = some session' ∧
      session'.accepted = session.accepted ++ payload.bytes ∧
      session'.delivered = session.delivered ∧
      Positions session'.memory first (count + payload.bytes.length) ∧
      session'.memory.file.bytes = storeAll (· % period) session.memory.file.bytes
        ((first + count) % 2 ^ exponent) payload.bytes := by
  rw [step, write_eq shape turn positions (Nat.le_of_add_right_le room), if_pos room,
    Option.map_some]
  exact ⟨_, rfl, rfl, rfl, positions.written payload.bytes, rfl⟩

theorem step_read (shape : Shape ring exponent period) (turn : 2 ^ exponent ≤ period)
    (positions : Positions session.memory first count) (bounded : count ≤ 2 ^ exponent)
    (reader : Reader) {window : List UInt8}
    (shown : loadAll (· % period) session.memory.file.bytes (first % 2 ^ exponent) count = window)
    (ready : 0 < count) (enough : reader.size.toNat ≤ count) :
    ∃ session', ring.step session (.read reader) = some session' ∧
      session'.accepted = session.accepted ∧
      session'.delivered = session.delivered ++ window.take (reader.consume window) ∧
      Positions session'.memory (first + reader.consume window)
        (count - reader.consume window) ∧
      session'.memory.file.bytes = session.memory.file.bytes := by
  have length : window.length = count := by
    rw [← shown, length_loadAll]
  have within : reader.consume window ≤ count :=
    length ▸ reader.within window (length ▸ enough)
  rw [step, read_eq shape turn positions bounded reader shown, if_neg (by omega),
    Option.map_some]
  exact ⟨_, rfl, rfl, rfl, positions.consumed within, rfl⟩

/-- The ring holds what has been accepted and not yet delivered. -/
structure InStep (exponent : Nat) (session : Session) (held : List UInt8) : Prop where
  stream : session.accepted = session.delivered ++ held
  positions : Positions session.memory session.delivered.length held.length
  stored : Stores (· % 2 ^ exponent) session.memory.file.bytes session.delivered.length held
  bounded : held.length ≤ 2 ^ exponent

namespace InStep

theorem window (inStep : InStep exponent session held) :
    loadAll (· % 2 ^ exponent) session.memory.file.bytes
      (session.delivered.length % 2 ^ exponent) held.length = held := by
  rw [loadAll_mod]
  exact inStep.stored

theorem write (shape : Shape ring exponent (2 ^ exponent))
    (inStep : InStep exponent session held)
    (taken : ring.step session (.write payload) = some session') :
    ∃ held', InStep exponent session' held' := by
  by_cases room : held.length + payload.bytes.length ≤ 2 ^ exponent
  · rcases step_write shape (le_refl _) inStep.positions payload room with
      ⟨after, written, accepted, delivered, positions, bytes⟩
    obtain rfl := Option.some.inj (written.symm.trans taken)
    refine ⟨held ++ payload.bytes, ?_, ?_, ?_, ?_⟩
    · rw [accepted, delivered, inStep.stream, List.append_assoc]
    · rw [delivered, List.length_append]
      exact positions
    · rw [delivered, bytes, storeAll_mod]
      exact inStep.stored.append_mod room
    · rwa [List.length_append]
  · rw [step, write_eq shape (le_refl _) inStep.positions inStep.bounded, if_neg room] at taken
    cases taken
    exact ⟨held, inStep.stream, inStep.positions, inStep.stored, inStep.bounded⟩

theorem read (shape : Shape ring exponent (2 ^ exponent))
    (inStep : InStep exponent session held)
    (taken : ring.step session (.read reader) = some session') :
    ∃ held', InStep exponent session' held' := by
  by_cases short : held.length = 0 ∨ held.length < reader.size.toNat
  · rw [step, read_eq shape (le_refl _) inStep.positions inStep.bounded reader inStep.window,
      if_pos short] at taken
    cases taken
    exact ⟨held, inStep.stream, inStep.positions, inStep.stored, inStep.bounded⟩
  · rcases step_read shape (le_refl _) inStep.positions inStep.bounded reader inStep.window
      (by omega) (by omega) with ⟨after, shown, accepted, delivered, positions, bytes⟩
    obtain rfl := Option.some.inj (shown.symm.trans taken)
    have within : reader.consume held ≤ held.length := reader.within held (by omega)
    have length : after.delivered.length = session.delivered.length + reader.consume held := by
      rw [delivered, List.length_append, List.length_take, Nat.min_eq_left within]
    refine ⟨held.drop (reader.consume held), ?_, ?_, ?_, ?_⟩
    · rw [accepted, delivered, List.append_assoc, List.take_append_drop, inStep.stream]
    · rwa [length, List.length_drop]
    · rw [length, bytes]
      exact inStep.stored.drop within
    · rw [List.length_drop]
      exact (Nat.sub_le _ _).trans inStep.bounded

theorem step (shape : Shape ring exponent (2 ^ exponent))
    (inStep : InStep exponent session held) {call : Call}
    (taken : ring.step session call = some session') :
    ∃ held', InStep exponent session' held' := by
  cases call with
  | write payload => exact inStep.write shape taken
  | read reader => exact inStep.read shape taken

theorem lossless (shape : Shape ring exponent (2 ^ exponent))
    (inStep : InStep exponent session held) : session.Lossless ring := by
  have left : session.accepted.drop session.delivered.length = held := by
    rw [inStep.stream, List.drop_left]
  have total : session.accepted.length = session.delivered.length + held.length := by
    rw [inStep.stream, List.length_append]
  refine ⟨⟨held, inStep.stream.symm⟩, fun payload => ?_, fun reader => ?_⟩
  · have fits : held.length + payload.bytes.length ≤ 2 ^ exponent ↔
        session.accepted.length + payload.bytes.length ≤
          ring.capacity.toNat + session.delivered.length := by
      rw [total, shape.capacity]
      omega
    rw [write_eq shape (le_refl _) inStep.positions inStep.bounded]
    by_cases room : held.length + payload.bytes.length ≤ 2 ^ exponent
    · rw [if_pos room, decide_eq_true (fits.mp room)]
      exact ⟨_, rfl⟩
    · rw [if_neg room, decide_eq_false (mt fits.mpr room)]
      exact ⟨_, rfl⟩
  · rw [read_eq shape (le_refl _) inStep.positions inStep.bounded reader inStep.window, left]
    simp only [← List.length_eq_zero_iff]
    split
    · exact ⟨_, rfl⟩
    · exact ⟨_, rfl⟩

end InStep

/-! ## The capacities that the constructors accept -/

/-- The rounded length of a ring of a power of two. -/
theorem toNat_period {capacity : BitVec 64} {exponent : Nat}
    (value : capacity.toNat = 2 ^ exponent) :
    (roundUpPageSize (sizeofImpl + capacity) - sizeofImpl).toNat =
      (2 ^ exponent + 2048) / 4096 * 4096 := by
  have bound : 2 ^ exponent < 2 ^ 64 := value ▸ capacity.isLt
  have narrow : exponent < 64 := (Nat.pow_lt_pow_iff_right (by decide)).mp bound
  have half : 2 ^ exponent ≤ 2 ^ 63 := Nat.pow_le_pow_right (by decide) (by omega)
  have size : sizeofImpl.toNat = 4096 := rfl
  have sum : (sizeofImpl + capacity).toNat = 4096 + 2 ^ exponent := by
    rw [BitVec.toNat_add_of_lt (by omega), size, value]
  have rounded : (roundUpPageSize (sizeofImpl + capacity)).toNat =
      ((sizeofImpl + capacity).toNat + 2048) / 4096 * 4096 :=
    toNat_roundUpPageSize (by omega)
  rw [BitVec.toNat_sub_of_le, rounded, sum, size]
  · omega
  · rw [BitVec.le_def, rounded, sum, size]
    omega

/-- A capacity from a page on makes the mirror repeat with the ring; the one below does not. -/
theorem shape_of_allocated {kernel : Kernel} {shared empty : Bool} {capacity mask : BitVec 64}
    {views : List View} (masked : maskOf capacity = some mask)
    (allocated : (MmapAllocator.create true shared sizeofImpl).allocate kernel empty
      (sizeofImpl + capacity) = some views) :
    ∃ exponent, Shape { capacity, mask, views } exponent (2 ^ max 12 exponent) ∧
      11 ≤ exponent := by
  rw [maskOf] at masked
  split at masked
  · rename_i power
    cases masked
    rcases (isPow2_iff _).mp power with ⟨exponent, value⟩
    have header : (MmapAllocator.create true shared sizeofImpl).hlen = sizeofImpl := rfl
    have small : (MmapAllocator.create true shared sizeofImpl).hlen.toNat < 2 ^ 47 := by
      rw [header]
      decide
    rcases MmapAllocator.allocate_mirrors rfl small allocated with ⟨positive, bounded, mirrors⟩
    rw [header, toNat_period value] at positive bounded mirrors
    have low : 11 ≤ exponent := by
      by_contra high
      have few : 2 ^ exponent ≤ 2 ^ 10 := Nat.pow_le_pow_right (by decide) (by omega)
      omega
    have period : (2 ^ exponent + 2048) / 4096 * 4096 = 2 ^ max 12 exponent := by
      rcases Nat.eq_or_lt_of_le low with rfl | more
      · rfl
      · rw [Nat.max_eq_right more, show exponent = 12 + (exponent - 12) by omega, Nat.pow_add]
        omega
    rw [period] at bounded mirrors
    refine ⟨exponent, ⟨?_, value, rfl, mirrors⟩, low⟩
    exact (Nat.le_max_right _ _).trans_lt
      ((Nat.pow_lt_pow_iff_right (by decide)).mp bounded)
  · cases masked

theorem create_shape {kernel : Kernel} {capacity : BitVec 64}
    (created : create kernel capacity = some (ring, memory)) :
    ring.capacity = capacity ∧ memory = { anonymous := zeros, file := zeros } ∧
      ∃ exponent, Shape ring exponent (2 ^ max 12 exponent) ∧ 11 ≤ exponent := by
  rcases Option.bind_eq_some_iff.mp created with ⟨mask, masked, created⟩
  rcases Option.map_eq_some_iff.mp created with ⟨views, allocated, made⟩
  obtain ⟨rfl, rfl⟩ := by simpa only [Prod.mk.injEq] using made
  exact ⟨rfl, rfl, shape_of_allocated masked allocated⟩

theorem positions_zeros (file : Pages) : Positions { anonymous := zeros, file } 0 0 :=
  ⟨rfl, rfl⟩

theorem inStep_start (exponent : Nat) (file : Pages) :
    InStep exponent (.start { anonymous := zeros, file }) [] where
  stream := rfl
  positions := positions_zeros file
  stored := .nil
  bounded := Nat.zero_le _

theorem reachable_inStep (shape : Shape ring exponent (2 ^ exponent)) {file : Pages}
    (reached : Reachable ring.step unguarded (.start { anonymous := zeros, file }) session) :
    ∃ held, InStep exponent session held := by
  have preserved : ∀ before call after, (∃ held, InStep exponent before held) →
      unguarded before call → ring.step before call = some after →
        ∃ held, InStep exponent after held := by
    rintro before call after ⟨held, inStep⟩ - taken
    exact inStep.step shape taken
  exact Reachable.invariant ⟨[], inStep_start exponent file⟩ preserved reached

/-! ### A mirror that is longer than the ring -/

def zeroPayload : Payload where
  bytes := List.replicate 2048 0
  fits := by rw [List.length_replicate]; decide

def onePayload : Payload where
  bytes := [1]
  fits := by decide

/--
The ring is filled, one byte is consumed and another written in its place: the
mirror does not show it behind the end of the ring.
-/
theorem long_mirror_loses (shape : Shape ring 11 4096) :
    ∃ session, Reachable ring.step unguarded (.start { anonymous := zeros, file := zeros })
      session ∧ ¬ session.delivered <+: session.accepted := by
  have turn : 2 ^ 11 ≤ 4096 := by decide
  have length : zeroPayload.bytes.length = 2048 := List.length_replicate
  have begun : Positions (Session.start { anonymous := zeros, file := zeros }).memory 0 0 :=
    positions_zeros zeros
  rcases step_write shape turn begun zeroPayload (by rw [length]; decide) with
    ⟨filled, first, accepted₁, delivered₁, positions₁, bytes₁⟩
  rw [length] at positions₁
  rcases step_read shape turn positions₁ (le_refl _) (.upTo 1) rfl (by decide) (Nat.zero_le _)
    with ⟨less, second, accepted₂, delivered₂, positions₂, bytes₂⟩
  generalize shown : loadAll (· % 4096) filled.memory.file.bytes (0 % 2 ^ 11) (0 + 2048) = window
    at positions₂ delivered₂
  have shownLength : window.length = 2048 := by rw [← shown, length_loadAll]
  have one : (Reader.upTo 1).consume window = 1 := by
    rw [Reader.consume_upTo, shownLength]
    rfl
  rw [one] at positions₂ delivered₂
  rcases step_write shape turn positions₂ onePayload (by decide) with
    ⟨again, third, accepted₃, delivered₃, positions₃, bytes₃⟩
  rcases step_read shape turn positions₃ (le_refl _) (.upTo 2048) rfl (by decide)
    (Nat.zero_le _) with ⟨last, fourth, accepted₄, delivered₄, -, -⟩
  refine ⟨last, (((Reachable.refl.extend trivial first).extend trivial second).extend trivial
    third).extend trivial fourth, fun inOrder => ?_⟩
  -- Byte 2048 of the stream is shown from behind the end of the ring, where nothing was written.
  have untouched : again.memory.file.bytes 2048 = 0 := by
    rw [bytes₃, storeAll_of_ne (by decide), bytes₂, bytes₁, storeAll_of_ne]
    · rfl
    · intro index within
      rw [length] at within
      omega
  have delivered : last.delivered[2048]? = some 0 := by
    have head : (less.delivered).length = 1 := by
      rw [delivered₂, delivered₁, List.length_append, List.length_take, shownLength]
      rfl
    rw [delivered₄, delivered₃, Reader.consume_upTo, length_loadAll,
      List.getElem?_append_right (by rw [head]; decide), head,
      List.getElem?_take_of_lt (by decide), getElem?_loadAll (by decide)]
    exact congrArg some untouched
  have accepted : last.accepted[2048]? = some 1 := by
    have filling : less.accepted.length = 2048 := by
      rw [accepted₂, accepted₁, List.length_append, length]
      rfl
    rw [accepted₄, accepted₃, List.getElem?_append_right (le_of_eq filling), filling]
    rfl
  rcases inOrder with ⟨rest, whole⟩
  obtain ⟨within, -⟩ := List.getElem?_eq_some_iff.mp delivered
  rw [← whole, List.getElem?_append_left within, delivered] at accepted
  cases accepted

/-! ## The capacities for which nothing is lost -/

/--
Of the capacities that the constructor accepts, those of at least a page give a
ring that loses nothing, and no others do.
-/
theorem create_lossless_iff {kernel : Kernel} {capacity : BitVec 64}
    (created : create kernel capacity = some (ring, memory)) :
    (∀ session, Reachable ring.step unguarded (.start memory) session →
      session.Lossless ring) ↔ pageSize ≤ capacity := by
  rcases create_shape created with ⟨rfl, rfl, exponent, shape, low⟩
  have page : pageSize ≤ ring.capacity ↔ 12 ≤ exponent := by
    have size : pageSize.toNat = 2 ^ 12 := rfl
    rw [BitVec.le_def, shape.capacity, size]
    exact Nat.pow_le_pow_iff_right Nat.one_lt_two
  rw [page]
  constructor
  · intro lossless
    by_contra small
    obtain rfl : exponent = 11 := by omega
    rcases long_mirror_loses shape with ⟨session, reached, lost⟩
    exact lost (lossless session reached).inOrder
  · intro large session reached
    rw [Nat.max_eq_right large] at shape
    rcases reachable_inStep shape reached with ⟨held, inStep⟩
    exact inStep.lossless shape

/-- A kernel that maps whatever fits the address space. -/
def anyKernel : Kernel where
  reserves := fun _ => true
  grants := fun length => decide (0 < length ∧ length < 2 ^ 47)
  zero := by decide
  bounded := fun length granted => (of_decide_eq_true granted).2

theorem create_lossless_page :
    ∃ ring memory, create anyKernel pageSize = some (ring, memory) ∧
      ∀ session, Reachable ring.step unguarded (.start memory) session →
        session.Lossless ring := by
  have accepted : (create anyKernel pageSize).isSome := by decide
  rcases Option.isSome_iff_exists.mp accepted with ⟨⟨ring, memory⟩, created⟩
  exact ⟨ring, memory, created, (create_lossless_iff created).mpr (BitVec.le_refl _)⟩

/-- Half a page is accepted, and a session over it loses a byte. -/
theorem create_half_page_loses :
    ∃ ring memory, create anyKernel 2048 = some (ring, memory) ∧
      ∃ session, Reachable ring.step unguarded (.start memory) session ∧
        ¬ session.delivered <+: session.accepted := by
  have accepted : (create anyKernel 2048).isSome := by decide
  rcases Option.isSome_iff_exists.mp accepted with ⟨⟨ring, memory⟩, created⟩
  rcases create_shape created with ⟨capacity, rfl, exponent, shape, -⟩
  have eleven : exponent = 11 := by
    have power := shape.capacity
    rw [capacity] at power
    exact (Nat.pow_right_injective (le_refl 2) power).symm
  subst eleven
  exact ⟨ring, _, created, long_mirror_loses shape⟩

end ReactiveToolbox.Ipc.MagicRingBuffer
