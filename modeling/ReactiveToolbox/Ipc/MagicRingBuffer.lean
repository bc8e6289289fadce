import ReactiveToolbox.Ipc.Mmap
import ReactiveToolbox.Util.Math

/-!
# The ring buffer over a mirrored mapping

`MagicRingBuffer` keeps a read and a write position in the header of its region and
the bytes behind it.  A record that straddles the end of the ring is read and
written linearly, through the second view of the file.  Positions are 64-bit words,
as they are stored; the callback of a read may consume any number of the bytes that
it is shown.
-/

namespace ReactiveToolbox.Ipc

open ReactiveToolbox.Lib
open ReactiveToolbox.Util

/-- `MagicRingBuffer`, with the region that `impl_` points to. -/
structure MagicRingBuffer where
  capacity : BitVec 64
  mask : BitVec 64
  views : List View

/-- What a callback of `write` stores. -/
structure Payload where
  bytes : List UInt8
  fits : bytes.length < 2 ^ 64

/-- A callback of `read`: how many of the bytes it consumes, given at least `size`. -/
structure Reader where
  size : BitVec 64
  consume : List UInt8 → Nat
  within : ∀ window, size.toNat ≤ window.length → consume window ≤ window.length

/-- The callback of `read(void* buf, std::size_t size)`, which copies what it can. -/
def Reader.upTo (size : BitVec 64) : Reader where
  size := 0
  consume := fun window => min size.toNat window.length
  within := fun _ _ => Nat.min_le_right _ _

@[simp]
theorem Reader.consume_upTo (size : BitVec 64) (window : List UInt8) :
    (Reader.upTo size).consume window = min size.toNat window.length := rfl

namespace MagicRingBuffer

/-- `offsetof(Impl, rpos)`. -/
def rposOffset : Nat := 0

/-- `offsetof(Impl, wpos)`, one cache line further. -/
def wposOffset : Nat := 64

/-- `sizeof(Impl)`, which is also `offsetof(Impl, buf)`. -/
def sizeofImpl : BitVec 64 := 4096

/-- `mask(capacity)`, which throws unless the capacity is a power of two. -/
def maskOf (capacity : BitVec 64) : Option (BitVec 64) :=
  if isPow2 capacity.toNat then some (capacity - 1) else none

/-- Pages of zeros. -/
def zeros : Pages where
  bytes := fun _ => 0
  words := fun _ => 0

/-- `MagicRingBuffer(std::size_t capacity)`: the ring and its memory, cleared. -/
def create (kernel : Kernel) (capacity : BitVec 64) : Option (MagicRingBuffer × Memory) :=
  (maskOf capacity).bind fun mask =>
    ((MmapAllocator.create true false sizeofImpl).allocate kernel true
      (sizeofImpl + capacity)).map fun views =>
        ({ capacity, mask, views }, { anonymous := zeros, file := zeros })

/-- `capacity(size)`: what a file of a size holds beside a header. -/
def capacityOf (size : BitVec 64) : BitVec 64 := size - sizeofImpl

/-- `MagicRingBuffer(FileHandle& fh)`, for a file of the given size. -/
def ofFile (kernel : Kernel) (fileSize : BitVec 64) : Option MagicRingBuffer :=
  let capacity := capacityOf fileSize
  (maskOf capacity).bind fun mask =>
    ((MmapAllocator.create true true sizeofImpl).allocate kernel false
      (sizeofImpl + capacity)).map fun views => { capacity, mask, views }

variable (ring : MagicRingBuffer)

/-- The address of the byte at a position: `impl_->buf + (pos & mask_)`. -/
def address (pos : BitVec 64) : Nat :=
  sizeofImpl.toNat + (pos &&& ring.mask).toNat

/--
`MagicRingBuffer::read(size, fn)`: the bytes that `fn` is shown, if it is called.
No result stands for an access that faults.
-/
def read (memory : Memory) (reader : Reader) : Option (Memory × Option (List UInt8)) :=
  (memory.loadWord ring.views rposOffset).bind fun rpos =>
    (memory.loadWord ring.views wposOffset).bind fun wpos =>
      let ready := wpos - rpos
      if ready = 0 ∨ ready < reader.size then some (memory, none)
      else
        (memory.loadBytes ring.views (ring.address rpos) ready.toNat).bind fun window =>
          (memory.storeWord ring.views rposOffset
            (rpos + BitVec.ofNat 64 (reader.consume window))).map fun memory =>
              (memory, some window)

/-- `MagicRingBuffer::write(size, fn)`, and whether the write is accepted. -/
def write (memory : Memory) (payload : Payload) : Option (Memory × Bool) :=
  let size := BitVec.ofNat 64 payload.bytes.length
  (memory.loadWord ring.views wposOffset).bind fun wpos =>
    (memory.loadWord ring.views rposOffset).bind fun rpos =>
      if ring.capacity - (wpos - rpos) < size then some (memory, false)
      else
        (memory.storeBytes ring.views (ring.address wpos) payload.bytes).bind fun memory =>
          (memory.storeWord ring.views wposOffset (wpos + size)).map fun memory =>
            (memory, true)

/-! ## A producer and a consumer -/

/-- A call of the producer or of the consumer. -/
inductive Call where
  | write (payload : Payload)
  | read (reader : Reader)

/-- The memory, the bytes of the accepted writes and those that were consumed. -/
structure Session where
  memory : Memory
  accepted : List UInt8
  delivered : List UInt8

/-- Nothing has been written or read. -/
def Session.start (memory : Memory) : Session where
  memory := memory
  accepted := []
  delivered := []

/-- One call, unless it faults. -/
def step (session : Session) : Call → Option Session
  | .write payload =>
      (ring.write session.memory payload).map fun result =>
        { session with
          memory := result.1
          accepted := if result.2 then session.accepted ++ payload.bytes else session.accepted }
  | .read reader =>
      (ring.read session.memory reader).map fun result =>
        { session with
          memory := result.1
          delivered :=
            match result.2 with
            | some window => session.delivered ++ window.take (reader.consume window)
            | none => session.delivered }

/--
The consumer has got the first of the accepted bytes, and the next calls are
answered as a queue of the ring's capacity answers them: a write is accepted if and
only if it fits, and a read shows what has not been consumed.
-/
structure Session.Lossless (session : Session) : Prop where
  inOrder : session.delivered <+: session.accepted
  fits : ∀ payload, ∃ memory, ring.write session.memory payload = some (memory,
    decide (session.accepted.length + payload.bytes.length ≤
      ring.capacity.toNat + session.delivered.length))
  shows : ∀ reader, ∃ memory, ring.read session.memory reader = some (memory,
    let held := session.accepted.drop session.delivered.length
    if held = [] ∨ held.length < reader.size.toNat then none else some held)

end MagicRingBuffer

end ReactiveToolbox.Ipc
