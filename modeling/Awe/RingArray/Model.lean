import Awe.Mem

namespace Awe

structure RingArray where
  array : Option Storage
  blockSize : Int
  capacity : Int
  rindex : Int
  windex : Int
  nmemb : Int

namespace RingArray

/-- `none` is the abort of the assertion on the two arguments. The product is an
`int32_t` that C converts to `size_t` for the allocator. -/
def create (blockSize capacity : Int) : Option RingArray :=
  if blockSize ≤ 0 ∨ capacity ≤ 0 then none
  else some {
    array := mallocz (sizeT (int32 (blockSize * capacity)))
    blockSize := blockSize
    capacity := capacity
    rindex := 0
    windex := 0
    nmemb := 0 }

/-- A block pointer is its byte offset into `_array`. -/
def get (ring : RingArray) (index : Int) : Int := int32 (index * ring.blockSize)

/-- The index stored in `*wresult` and the returned pointer. -/
def writeReady (ring : RingArray) : Int × Option Int :=
  if ring.nmemb ≥ ring.capacity then (-2, none)
  else (ring.windex, some (int32 (ring.windex * ring.blockSize)))

def writeFinish (ring : RingArray) (wresult : Int) : RingArray :=
  if wresult < 0 then ring
  else { ring with
    windex := (int32 (ring.windex + 1)).tmod ring.capacity
    nmemb := int32 (ring.nmemb + 1) }

/-- The index stored in `*rresult` and the returned pointer. -/
def readReady (ring : RingArray) : Int × Option Int :=
  if ring.nmemb ≤ 0 then (-2, none)
  else (ring.rindex, some (int32 (ring.rindex * ring.blockSize)))

/-- The guard is `rresult <= 0` where `writeFinish` tests `wresult < 0`. -/
def readFinish (ring : RingArray) (rresult : Int) : RingArray :=
  if rresult ≤ 0 then ring
  else { ring with
    rindex := (int32 (ring.rindex + 1)).tmod ring.capacity
    nmemb := int32 (ring.nmemb - 1) }

def size (ring : RingArray) : Int := ring.nmemb

/-- The bytes of a block, as the owner of its pointer sees them. -/
def block (ring : RingArray) (off : Int) : Option (List UInt8) :=
  ring.array.map (fun m => m.read off ring.blockSize.toNat)

def fill (ring : RingArray) (off : Int) (data : List UInt8) : Option RingArray :=
  ring.array.map (fun m => { ring with array := some (m.write off data) })

end RingArray

namespace RingArray.Delivery

/-- Where the one producer stands between `writeReady` and `writeFinish`. -/
inductive Producer where
  | idle
  | ready (wresult : Int) (off : Int)
  | filled (wresult : Int) (data : List UInt8)

/-- Where the one consumer stands between `readReady` and `readFinish`. -/
inductive Consumer where
  | idle
  | ready (rresult : Int) (off : Int)
  | done (rresult : Int) (data : List UInt8)

/-- The ring with its two users; `written` and `delivered` are the blocks they
have finished so far. -/
structure State where
  ring : RingArray
  producer : Producer
  consumer : Consumer
  written : List (List UInt8)
  delivered : List (List UInt8)

inductive Act where
  | writeReady
  | fill (data : List UInt8)
  | writeFinish
  | readReady
  | read
  | readFinish

def step (s : State) : Act → Option State
  | .writeReady =>
    match s.producer with
    | .idle =>
      match s.ring.writeReady with
      | (w, some off) => some (if 0 ≤ w then { s with producer := .ready w off } else s)
      | (_, none) => some s
    | _ => none
  | .fill data =>
    match s.producer with
    | .ready w off =>
      if data.length = s.ring.blockSize.toNat then
        (s.ring.fill off data).map (fun r => { s with ring := r, producer := .filled w data })
      else none
    | _ => none
  | .writeFinish =>
    match s.producer with
    | .filled w data => some { s with
        ring := s.ring.writeFinish w
        producer := .idle
        written := s.written ++ [data] }
    | _ => none
  | .readReady =>
    match s.consumer with
    | .idle =>
      match s.ring.readReady with
      | (r, some off) => some (if 0 ≤ r then { s with consumer := .ready r off } else s)
      | (_, none) => some s
    | _ => none
  | .read =>
    match s.consumer with
    | .ready r off => (s.ring.block off).map (fun data => { s with consumer := .done r data })
    | _ => none
  | .readFinish =>
    match s.consumer with
    | .done r data => some { s with
        ring := s.ring.readFinish r
        consumer := .idle
        delivered := s.delivered ++ [data] }
    | _ => none

def start (ring : RingArray) : State := ⟨ring, .idle, .idle, [], []⟩

/-- First in, first out: what was read is a prefix of what was written, and the
reported size is the difference. -/
def Fifo (s : State) : Prop :=
  s.delivered <+: s.written ∧
    s.ring.size = (s.written.length : Int) - s.delivered.length

/-- The step is not the finish of a block read at index 0. -/
def NotIndexZero (s : State) (a : Act) : Prop :=
  match a, s.consumer with
  | .readFinish, .done r _ => r ≠ 0
  | _, _ => True

end RingArray.Delivery

end Awe
