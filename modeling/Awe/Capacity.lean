import Awe.Lib.Machine
import Awe.Packet
import Awe.RingBuffer.Model

namespace Awe
open Machine

structure Buffer where
  data : Option Storage
  capacity : Int

namespace Buffer

def zero : Buffer := ⟨none, 0⟩

/-- What was behind `_data` is freed. -/
def expand (_ : Buffer) (capacity : Int) : Buffer := ⟨mallocz (sizeT capacity), capacity⟩

def init (capacity : Int) : Buffer := zero.expand capacity

def base2 (buffer : Buffer) (expandIfNecessary : Int) : Option Storage × Buffer :=
  let buffer := if expandIfNecessary > buffer.capacity then buffer.expand expandIfNecessary
    else buffer
  (buffer.data, buffer)

inductive Op where
  | init (capacity : BitVec 32)
  | deinit
  | base2 (expandIfNecessary : BitVec 32)

def step (buffer : Buffer) : Op → Option Buffer
  | .init capacity => some (init capacity.toInt)
  | .deinit => some zero
  | .base2 expandIfNecessary => some (buffer.base2 expandIfNecessary.toInt).2

/-- The capacity on record is no more than what is behind the data pointer. -/
def Recorded (buffer : Buffer) : Prop := buffer.capacity ≤ bytesBehind buffer.data

/-- What the buffer is to hold is granted, or it need not be expanded for it. -/
def Granted (buffer : Buffer) : Op → Prop
  | .init capacity => capacity.toInt ≤ INT_MAX - 32
  | .deinit => True
  | .base2 expandIfNecessary =>
    expandIfNecessary.toInt > buffer.capacity → expandIfNecessary.toInt ≤ INT_MAX - 32

instance (buffer : Buffer) : ∀ op, Decidable (buffer.Granted op)
  | .init _ => inferInstanceAs (Decidable (_ ≤ _))
  | .deinit => isTrue trivial
  | .base2 _ => inferInstanceAs (Decidable (_ → _))

/-- A capacity that is not positive gets no storage and needs none. -/
theorem recorded_expand_iff (buffer : Buffer) (capacity : BitVec 32) :
    (buffer.expand capacity.toInt).Recorded ↔ capacity.toInt ≤ INT_MAX - 32 := by
  have hrange := (toInt_range capacity).2
  unfold Recorded expand
  dsimp only
  by_cases hpos : 0 < capacity.toInt
  · rw [Packet.bytesBehind_create hpos hrange]
    split <;> omega
  · unfold INT_MAX
    omega

theorem recorded_step_iff {buffer t : Buffer} {op : Op} (h : buffer.Recorded)
    (ht : buffer.step op = some t) : t.Recorded ↔ buffer.Granted op := by
  cases op with
  | init capacity =>
    cases ht
    exact recorded_expand_iff zero capacity
  | deinit =>
    cases ht
    exact iff_of_true (Int.le_refl 0) trivial
  | base2 expandIfNecessary =>
    cases ht
    simp only [base2, Granted]
    split
    · rename_i hlarger
      rw [recorded_expand_iff]
      exact (imp_iff_right hlarger).symm
    · rename_i hfits
      exact iff_of_true h (fun hlarger => absurd hlarger hfits)

end Buffer

namespace RingBuffer

def Recorded (ring : RingBuffer) : Prop := ring.capacity.toNat ≤ bytesBehind ring.buffer

/-- No call changes the capacity or the size of the storage. -/
theorem recorded_step {ring t : RingBuffer} {op : Op} {answer : Answer}
    (ht : ring.step op = some (answer, t)) : t.Recorded ↔ ring.Recorded := by
  cases op with
  | put source =>
    obtain ⟨⟨n, u⟩, hput, he⟩ := Option.map_eq_some_iff.mp ht
    cases he
    simp only [put, Option.bind_eq_bind, Option.bind_eq_some_iff] at hput
    obtain ⟨p, hfirst, q, hrest, hr⟩ := hput
    cases hr
    have hsize : q.map Storage.size = ring.buffer.map Storage.size :=
      (Storage.copyTo_size hrest).trans (Storage.copyTo_size hfirst)
    simp only [Recorded, bytesBehind, hsize]
  | get size =>
    obtain ⟨⟨n, bytes, u⟩, hget, he⟩ := Option.map_eq_some_iff.mp ht
    cases he
    simp only [get, Option.bind_eq_bind, Option.bind_eq_some_iff] at hget
    obtain ⟨_, _, _, _, hr⟩ := hget
    cases hr
    exact Iff.rfl
  | moveReadPosition size =>
    cases ht
    exact Iff.rfl

theorem recorded_create_iff {capacity : BitVec 64} {junk : Int → UInt8} {ring : RingBuffer}
    (h : create capacity junk = some ring) :
    ring.Recorded ↔ (capacity.toNat : Int) ≤ INT_MAX - 32 := by
  unfold create at h
  split at h
  · rename_i hpower
    cases h
    have hne : capacity ≠ 0 := by
      intro hzero
      simp [isPowerOf2, hzero] at hpower
    have hpos : 0 < capacity.toNat := by
      bv_omega
    unfold Recorded
    dsimp only
    rw [bytesBehind_malloc]
    unfold maxAllocSize INT_MAX
    split <;> omega
  · cases h

end RingBuffer

namespace Packet

def Recorded (packet : Packet) : Prop := packet.capacity ≤ bytesBehind packet.data

theorem recorded_step {packet t : Packet} {op : Op} (ht : packet.step op = some t) :
    t.Recorded ↔ packet.Recorded := by
  obtain ⟨_, _, rfl, _⟩ := step_cases ht
  exact Iff.rfl

theorem recorded_create_iff {capacity : BitVec 32} {packet : Packet}
    (h : create capacity.toInt = some packet) :
    packet.Recorded ↔ capacity.toInt ≤ INT_MAX - 32 := by
  obtain ⟨hpos, rfl⟩ := create_eq h
  unfold Recorded
  dsimp only
  rw [bytesBehind_create hpos (toInt_range capacity).2]
  split <;> omega

end Packet

def RingBuffer.stepOn (ring : RingBuffer) (op : RingBuffer.Op) : Option RingBuffer :=
  (ring.step op).map Prod.snd

/-- None of the containers records more than it has, in any state, exactly if nothing above
`INT_MAX - 32` is asked for: of a ring buffer or a packet when it is created, of a buffer
whenever it is expanded. -/
theorem capacity_recorded_iff (size : BitVec 64) (capacity : BitVec 32) :
    (∀ (junk : Int → UInt8) (ring : RingBuffer) (ops : List RingBuffer.Op),
      RingBuffer.create size junk = some ring →
      (Always RingBuffer.stepOn RingBuffer.Recorded ring ops ↔
        (size.toNat : Int) ≤ INT_MAX - 32)) ∧
    (∀ (packet : Packet) (ops : List Packet.Op), Packet.create capacity.toInt = some packet →
      (Always Packet.step Packet.Recorded packet ops ↔ capacity.toInt ≤ INT_MAX - 32)) ∧
    ∀ ops : List Buffer.Op,
      Always Buffer.step Buffer.Recorded (Buffer.init capacity.toInt) ops ↔
        capacity.toInt ≤ INT_MAX - 32 ∧
          Throughout Buffer.step Buffer.Granted (Buffer.init capacity.toInt) ops := by
  refine ⟨?_, ?_, ?_⟩
  · intro junk ring ops h
    have hsame : ∀ (s : RingBuffer) op t, s.stepOn op = some t → (t.Recorded ↔ s.Recorded) := by
      intro s op t ht
      obtain ⟨⟨answer, u⟩, hu, rfl⟩ := Option.map_eq_some_iff.mp ht
      exact RingBuffer.recorded_step hu
    exact (always_iff_head hsame ring ops).trans (RingBuffer.recorded_create_iff h)
  · intro packet ops h
    exact (always_iff_head (fun _ _ _ ht => Packet.recorded_step ht) packet ops).trans
      (Packet.recorded_create_iff h)
  · intro ops
    have hinit := Buffer.recorded_expand_iff Buffer.zero capacity
    have hexact : ∀ s op t, True → Buffer.Recorded s → Buffer.step s op = some t →
        (Buffer.Recorded t ↔ Buffer.Granted s op) :=
      fun _ _ _ _ hs ht => Buffer.recorded_step_iff hs ht
    have hkeep : ∀ s op t, True → Buffer.Recorded s → Buffer.Granted s op →
        Buffer.step s op = some t → True := fun _ _ _ _ _ _ _ => trivial
    constructor
    · intro hall
      have hstart : (Buffer.init capacity.toInt).Recorded := hall.head
      exact ⟨hinit.mp hstart, (always_iff_throughout hkeep hexact trivial hstart ops).mp hall⟩
    · intro hboth
      have hstart : (Buffer.init capacity.toInt).Recorded := hinit.mpr hboth.1
      exact (always_iff_throughout hkeep hexact trivial hstart ops).mpr hboth.2

/-- A ring buffer and a packet of a moderate size, and a buffer that grows twice. -/
theorem granted_capacity_recorded :
    (∃ ring, RingBuffer.create 64 (fun _ => 0) = some ring ∧
      Always RingBuffer.stepOn RingBuffer.Recorded ring [.moveReadPosition 100, .get 1]) ∧
    (∃ packet, Packet.create (100 : BitVec 32).toInt = some packet ∧
      Always Packet.step Packet.Recorded packet [.setrange (-1) 100, .setrange2 1 4]) ∧
    Always Buffer.step Buffer.Recorded (Buffer.init (100 : BitVec 32).toInt)
      [.base2 64, .base2 101, .deinit, .base2 (-1), .init 2048] := by
  obtain ⟨hring, hpacket, hbuffer⟩ := capacity_recorded_iff 64 100
  refine ⟨⟨_, rfl, (hring _ _ _ rfl).mpr (by decide)⟩, ⟨_, rfl, (hpacket _ _ rfl).mpr (by decide)⟩,
    (hbuffer _).mpr (by decide)⟩

/-- Two gigabytes are refused; the capacity is on record all the same. -/
theorem refused_capacity_recorded :
    (∃ ring, RingBuffer.create 0x80000000 (fun _ => 0) = some ring ∧ ¬ ring.Recorded) ∧
    (∃ packet, Packet.create (0x7fffffff : BitVec 32).toInt = some packet ∧ ¬ packet.Recorded) ∧
    ¬ (Buffer.init (0x7fffffff : BitVec 32).toInt).Recorded := by
  refine ⟨⟨_, rfl, ?_⟩, ⟨_, rfl, ?_⟩, ?_⟩
  · rw [@RingBuffer.recorded_create_iff 0x80000000 _ _ rfl]
    decide
  · rw [@Packet.recorded_create_iff 0x7fffffff _ rfl]
    decide
  · rw [Buffer.init, Buffer.recorded_expand_iff]
    decide

end Awe
