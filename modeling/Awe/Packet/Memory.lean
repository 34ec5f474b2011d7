import Awe.LinkedList.Owners
import Awe.Packet

namespace Awe

/-- `struct awe_packet` -/
structure PacketObj where
  refs : BitVec 32
  rangeOffset : Int
  rangeLength : Int
  dts : BitVec 32
  capacity : Int
  data : Ptr
  ownsData : Bool

/-- The packets and the blocks behind their `_data`, and those of either kind that have
been freed so far, by the number of their creation. -/
structure Packets where
  heap : Heap PacketObj
  blocks : Heap Storage
  freed : List Nat
  dataFreed : List Nat

namespace Packets

def empty : Packets := ⟨Heap.empty, Heap.empty, [], []⟩

def objects (s : Packets) : Objects := ⟨s.heap.map PacketObj.refs, s.freed⟩

def modify (s : Packets) (packet : Ptr) (f : PacketObj → PacketObj) : Packets :=
  { s with heap := s.heap.modify packet f }

/-- `awe_packet_create`, at the addresses the allocator gives; `none` is the abort of the
assertion. Where the data is refused `_data` is `NULL`. -/
def create (s : Packets) (packet data : Ptr) (capacity : Int) : Option Packets := do
  let p ← Packet.create capacity
  match p.data with
  | none =>
    (s.heap.alloc packet ⟨1, p.rangeOffset, p.rangeLength, 0, p.capacity, NULL, true⟩).map
      (fun heap => { s with heap := heap })
  | some storage => do
    let heap ← s.heap.alloc packet ⟨1, p.rangeOffset, p.rangeLength, 0, p.capacity, data, true⟩
    (s.blocks.alloc data storage).map (fun blocks => { s with heap := heap, blocks := blocks })

/-- `awe_packet_addref`, or the reference that a list takes. -/
def refInc (s : Packets) (packet : Ptr) : Option Packets :=
  (s.heap.get? packet).map (fun _ => s.modify packet (fun r => { r with refs := r.refs + 1 }))

def refDec (s : Packets) (packet : Ptr) : Option (BitVec 32 × Packets) :=
  (s.heap.get? packet).map (fun r =>
    (r.refs, s.modify packet (fun r => { r with refs := r.refs - 1 })))

def freeData (s : Packets) (data : Ptr) : Option Packets :=
  if data = NULL then some s
  else (s.blocks.handle? data).map (fun p =>
    { s with blocks := s.blocks.free data, dataFreed := s.dataFreed ++ [p.birth] })

def destroy (s : Packets) (packet : Ptr) : Option Packets := do
  let r ← s.heap.get? packet
  let s ← if r.ownsData then s.freeData r.data else some s
  (s.heap.handle? packet).map (fun p =>
    { s with heap := s.heap.free packet, freed := s.freed ++ [p.birth] })

def autorelease (s : Packets) (packet : Ptr) : Option Packets :=
  if packet = NULL then some s
  else do
    let (refs, s) ← s.refDec packet
    if refs = 1 then s.destroy packet else some s

def view (s : Packets) (r : PacketObj) : Packet where
  rangeOffset := r.rangeOffset
  rangeLength := r.rangeLength
  capacity := r.capacity
  data := s.blocks.get? r.data

/-- `awe_packet_setrange`, `awe_packet_setrange2` and `awe_packet_setrange3` -/
def setrange (s : Packets) (packet : Ptr) (op : Packet.Op) : Option Packets := do
  let r ← s.heap.get? packet
  let p ← (s.view r).step op
  some (s.modify packet (fun r =>
    { r with rangeOffset := p.rangeOffset, rangeLength := p.rangeLength }))

def setdts (s : Packets) (packet : Ptr) (dts : BitVec 32) : Option Packets :=
  (s.heap.get? packet).map (fun _ => s.modify packet (fun r => { r with dts := dts }))

def unfreeData (s : Packets) (packet : Ptr) (b : Bool) : Option Packets :=
  (s.heap.get? packet).map (fun _ => s.modify packet (fun r => { r with ownsData := !b }))

/-- `memcpy` of `n` bytes from `awe_packet_data` and `off` on; `none` where one of them is
not in the block. -/
def load (s : Packets) (packet : Ptr) (off n : Nat) : Option (List UInt8) := do
  let r ← s.heap.get? packet
  let m ← s.blocks.get? r.data
  if 0 ≤ r.rangeOffset + off then m.load (r.rangeOffset + off).toNat n else none

/-- `memcpy` of `bytes` to `awe_packet_data` and `off` on. -/
def store (s : Packets) (packet : Ptr) (off : Nat) (bytes : List UInt8) : Option Packets := do
  let r ← s.heap.get? packet
  let m ← s.blocks.get? r.data
  if 0 ≤ r.rangeOffset + off then
    (m.store (r.rangeOffset + off).toNat bytes).map (fun m =>
      { s with blocks := s.blocks.modify r.data (fun _ => m) })
  else none

/-- `memcpy` out of a block that a program has taken over. -/
def loadBlock (s : Packets) (data : Ptr) (off n : Nat) : Option (List UInt8) :=
  (s.blocks.get? data).bind (fun m => m.load off n)

end Packets

namespace PacketQueues
open LinkedList

/-- What a program does with its packets: the calls that share them, on handles and on
lists, and those on one packet or on data that it has taken over. -/
inductive Call where
  | create (packet data : Ptr) (capacity : BitVec 32)
  | share (call : LinkedList.Call)
  | setrange (packet : Ptr) (op : Packet.Op)
  | setdts (packet : Ptr) (dts : BitVec 32)
  | unfreeData (packet : Ptr) (b : Bool)
  | fields (packet : Ptr)
  | load (packet : Ptr) (off n : Nat)
  | store (packet : Ptr) (off : Nat) (bytes : List UInt8)
  | loadBlock (data : Ptr) (off n : Nat)
  | freeBlock (data : Ptr)

/-- What comes back. `fields` is `awe_packet_base`, `awe_packet_offset`, `awe_packet_size`,
`awe_packet_capacity` and `awe_packet_getdts`. -/
inductive Reply where
  | done
  | shared (answer : Answer)
  | fields (base : Ptr) (offset size capacity : Int) (dts : BitVec 32)
  | bytes (bytes : List UInt8)
  deriving DecidableEq

/-- Every list of packets releases them by `awe_packet_autorelease_proc`. -/
def packetOps : ObjectOps ReleaseProc Packets :=
  ⟨Packets.refInc, fun _ s packet => s.autorelease packet⟩

def share (fuel : Nat) (s : LinkedList ReleaseProc × Packets) :
    LinkedList.Call → Option (Answer × LinkedList ReleaseProc × Packets)
  | .create _ => none
  | .addref obj => (s.2.refInc obj).map (fun packets => (.object obj, s.1, packets))
  | .autorelease _ obj => (s.2.autorelease obj).map (fun packets => (.done, s.1, packets))
  | .list op => LinkedList.step fuel packetOps s op

def step (fuel : Nat) (s : LinkedList ReleaseProc × Packets) :
    Call → Option (Reply × LinkedList ReleaseProc × Packets)
  | .create packet data capacity =>
    (s.2.create packet data capacity.toInt).map (fun packets =>
      (.shared (.object packet), s.1, packets))
  | .share call => (share fuel s call).map (fun r => (.shared r.1, r.2))
  | .setrange packet op => (s.2.setrange packet op).map (fun packets => (.done, s.1, packets))
  | .setdts packet dts => (s.2.setdts packet dts).map (fun packets => (.done, s.1, packets))
  | .unfreeData packet b => (s.2.unfreeData packet b).map (fun packets => (.done, s.1, packets))
  | .fields packet => (s.2.heap.get? packet).map (fun r =>
      (.fields r.data r.rangeOffset r.rangeLength r.capacity r.dts, s))
  | .load packet off n => (s.2.load packet off n).map (fun bytes => (.bytes bytes, s))
  | .store packet off bytes => (s.2.store packet off bytes).map (fun packets =>
      (.done, s.1, packets))
  | .loadBlock data off n => (s.2.loadBlock data off n).map (fun bytes => (.bytes bytes, s))
  | .freeBlock data => (s.2.freeData data).map (fun packets => (.done, s.1, packets))

end PacketQueues

end Awe
