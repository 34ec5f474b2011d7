import Awe.Mem

namespace Awe

/-- `struct awe_ringbuffer`; `_in` and `_out` run freely and wrap at `2^64`. -/
structure RingBuffer where
  buffer : Option Storage
  capacity : BitVec 64
  in_ : BitVec 64
  out : BitVec 64

namespace RingBuffer

def isPowerOf2 (x : BitVec 64) : Bool := x ≠ 0 ∧ x &&& (x - 1) = 0

def min_ (a b : BitVec 64) : BitVec 64 := if a < b then a else b

/-- `none` is the abort of the assertion on the capacity. -/
def create (capacity : BitVec 64) (junk : Int → UInt8) : Option RingBuffer :=
  if isPowerOf2 capacity then
    some { buffer := malloc capacity.toNat junk, capacity := capacity, in_ := 0, out := 0 }
  else none

def moveReadPosition (ring : RingBuffer) (size : BitVec 64) : Status × RingBuffer :=
  (AWE_OK, { ring with out := ring.out + size })

/-- The returned size, the bytes copied to the caller and the ring after the call;
`none` where a copy leaves the storage. -/
def get (ring : RingBuffer) (size : BitVec 64) :
    Option (BitVec 64 × List UInt8 × RingBuffer) := do
  let size := min_ size (ring.in_ - ring.out)
  let pos := ring.out &&& (ring.capacity - 1)
  let len := min_ size (ring.capacity - pos)
  let first ← Storage.copyFrom ring.buffer pos.toNat len.toNat
  let rest ← Storage.copyFrom ring.buffer 0 (size - len).toNat
  some (size, first ++ rest, { ring with out := ring.out + size })

/-- The caller's memory behind the arguments of a put: `size` of its bytes are readable. -/
structure Source where
  bytes : List UInt8
  size : BitVec 64
  fits : size.toNat ≤ bytes.length

def Source.ofBytes (bytes : List UInt8) : Source where
  bytes := bytes
  size := BitVec.ofNat 64 bytes.length
  fits := by
    rw [BitVec.toNat_ofNat]
    exact Nat.mod_le _ _

/-- The returned size and the ring after the call; `none` where a copy leaves the storage. -/
def put (ring : RingBuffer) (source : Source) : Option (BitVec 64 × RingBuffer) := do
  let size := min_ source.size (ring.capacity - ring.in_ + ring.out)
  let pos := ring.in_ &&& (ring.capacity - 1)
  let len := min_ size (ring.capacity - pos)
  let buffer ← Storage.copyTo ring.buffer pos.toNat (source.bytes.take len.toNat)
  let buffer ← Storage.copyTo buffer 0 ((source.bytes.drop len.toNat).take (size - len).toNat)
  some (size, { ring with buffer := buffer, in_ := ring.in_ + size })

def size (ring : RingBuffer) : BitVec 64 := ring.in_ - ring.out

inductive Op where
  | put (source : Source)
  | get (size : BitVec 64)
  | moveReadPosition (size : BitVec 64)

inductive Answer where
  | put (size : Nat)
  | get (size : Nat) (bytes : List UInt8)
  | moved (status : Status)
  deriving DecidableEq

def step (ring : RingBuffer) : Op → Option (Answer × RingBuffer)
  | .put source => (ring.put source).map (fun r => (.put r.1.toNat, r.2))
  | .get size => (ring.get size).map (fun r => (.get r.1.toNat r.2.1, r.2.2))
  | .moveReadPosition size =>
    some (.moved (ring.moveReadPosition size).1, (ring.moveReadPosition size).2)

end RingBuffer

end Awe
