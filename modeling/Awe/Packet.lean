import Awe.Lib.Machine
import Awe.Mem

namespace Awe
open Machine

/-- `struct awe_packet` without its references, its time stamp and who owns its data. -/
structure Packet where
  rangeOffset : Int
  rangeLength : Int
  capacity : Int
  data : Option Storage

namespace Packet

/-- `none` is the abort of the assertion on the capacity. -/
def create (capacity : Int) : Option Packet :=
  if capacity ≤ 0 then none
  else some {
    rangeOffset := 0
    rangeLength := capacity
    capacity := capacity
    data := mallocz (sizeT capacity) }

/-- `AWE_CHECK_LE`; `none` is the abort. -/
def checkLe (v1 v2 : Int) : Option Unit := if v1 ≤ v2 then some () else none

def setrange (packet : Packet) (offset size : Int) : Option Packet := do
  checkLe (int32 (offset + size)) packet.capacity
  some { packet with rangeOffset := offset, rangeLength := size }

/-- The fields are set before the check. -/
def setrange2 (packet : Packet) (offset size : Int) : Option Packet := do
  let packet := { packet with
    rangeOffset := int32 (packet.rangeOffset + offset)
    rangeLength := size }
  checkLe (int32 (packet.rangeOffset + size)) packet.capacity
  some packet

def setrange3 (packet : Packet) (offset size : Int) : Option Packet := do
  let packet := { packet with
    rangeOffset := offset
    rangeLength := int32 (packet.rangeLength + size) }
  checkLe (int32 (packet.rangeOffset + packet.rangeLength)) packet.capacity
  some packet

inductive Op where
  | setrange (offset size : BitVec 32)
  | setrange2 (offset size : BitVec 32)
  | setrange3 (offset size : BitVec 32)

def step (packet : Packet) : Op → Option Packet
  | .setrange offset size => packet.setrange offset.toInt size.toInt
  | .setrange2 offset size => packet.setrange2 offset.toInt size.toInt
  | .setrange3 offset size => packet.setrange3 offset.toInt size.toInt

/-- The window from `awe_packet_data` on, of `awe_packet_size` bytes, is one of the packet
and of its storage. -/
structure Inside (packet : Packet) : Prop where
  offset : 0 ≤ packet.rangeOffset
  length : 0 ≤ packet.rangeLength
  bound : packet.rangeOffset + packet.rangeLength ≤ packet.capacity
  stored : packet.rangeOffset + packet.rangeLength ≤ bytesBehind packet.data

/-- An offset and a length that a setter may be asked for: neither negative, and the end
of the window is an `int`. -/
def Window (offset length : Int) : Prop := 0 ≤ offset ∧ 0 ≤ length ∧ offset + length ≤ INT_MAX

/-- The window the setter is asked for: where the source adds to a field, from there. -/
def AsksWindow (packet : Packet) : Op → Prop
  | .setrange offset size => Window offset.toInt size.toInt
  | .setrange2 offset size => Window (packet.rangeOffset + offset.toInt) size.toInt
  | .setrange3 offset size => Window offset.toInt (packet.rangeLength + size.toInt)

instance (offset length : Int) : Decidable (Window offset length) :=
  inferInstanceAs (Decidable (_ ∧ _ ∧ _))

instance (packet : Packet) : ∀ op, Decidable (packet.AsksWindow op)
  | .setrange .. | .setrange2 .. | .setrange3 .. => inferInstanceAs (Decidable (Window ..))

/-- The storage is as large as the capacity. -/
structure Backed (packet : Packet) : Prop where
  fits : packet.capacity ≤ INT_MAX
  stored : packet.capacity = bytesBehind packet.data

theorem checkLe_eq_some {v1 v2 : Int} {u : Unit} : checkLe v1 v2 = some u ↔ v1 ≤ v2 := by
  simp [checkLe]

section Setters

variable {packet t : Packet} {offset length : Int}

/-- What all setters come to: the check passes for the window they set. -/
theorem inside_iff (h : packet.Backed) (hcheck : int32 (offset + length) ≤ packet.capacity) :
    Inside { packet with rangeOffset := offset, rangeLength := length } ↔ Window offset length := by
  constructor
  · intro hin
    obtain ⟨hoffset, hlength, hbound, _⟩ := hin
    have hfits := h.fits
    exact ⟨hoffset, hlength, Int.le_trans hbound hfits⟩
  · intro hw
    obtain ⟨hoffset, hlength, hend⟩ := hw
    rw [int32_of_range (by omega) hend] at hcheck
    exact ⟨hoffset, hlength, hcheck, h.stored ▸ hcheck⟩

theorem step_cases {op : Op} (ht : packet.step op = some t) :
    ∃ offset length, t = { packet with rangeOffset := offset, rangeLength := length } ∧
      int32 (offset + length) ≤ packet.capacity ∧
      match op with
      | .setrange o n => offset = o.toInt ∧ length = n.toInt
      | .setrange2 o n => offset = int32 (packet.rangeOffset + o.toInt) ∧ length = n.toInt
      | .setrange3 o n => offset = o.toInt ∧ length = int32 (packet.rangeLength + n.toInt) := by
  cases op with
  | setrange o n | setrange2 o n | setrange3 o n =>
    simp only [step, setrange, setrange2, setrange3, Option.bind_eq_bind,
      Option.bind_eq_some_iff, Option.some.injEq] at ht
    obtain ⟨_, hcheck, rfl⟩ := ht
    exact ⟨_, _, rfl, checkLe_eq_some.mp hcheck, rfl, rfl⟩

/-- A setter that passes its check leaves the window inside exactly if it was asked for
one. -/
theorem inside_step_iff {op : Op} (h : packet.Backed) (hin : packet.Inside)
    (ht : packet.step op = some t) : t.Inside ↔ packet.AsksWindow op := by
  obtain ⟨offset, length, rfl, hcheck, hop⟩ := step_cases ht
  rw [inside_iff h hcheck]
  obtain ⟨hoffset, hlength, hbound, _⟩ := hin
  have hfits := h.fits
  cases op with
  | setrange o n =>
    obtain ⟨rfl, rfl⟩ := hop
    exact Iff.rfl
  | setrange2 o n =>
    obtain ⟨rfl, rfl⟩ := hop
    have hsum := int32_add_of_nonneg (x := packet.rangeOffset) ⟨hoffset, by omega⟩ (toInt_range o)
    simp only [AsksWindow, Window, hsum]
    constructor
    · intro hw
      obtain ⟨⟨h0, hu⟩, hn, hend⟩ := hw
      rw [int32_of_range (by omega) hu] at hend
      exact ⟨h0, hn, hend⟩
    · intro hw
      obtain ⟨h0, hn, hend⟩ := hw
      rw [int32_of_range (by omega) (by omega)]
      exact ⟨⟨h0, by omega⟩, hn, hend⟩
  | setrange3 o n =>
    obtain ⟨rfl, rfl⟩ := hop
    have hsum := int32_add_of_nonneg (x := packet.rangeLength) ⟨hlength, by omega⟩ (toInt_range n)
    simp only [AsksWindow, Window, hsum]
    constructor
    · intro hw
      obtain ⟨h0, ⟨hn, hu⟩, hend⟩ := hw
      rw [int32_of_range (by omega) hu] at hend
      exact ⟨h0, hn, hend⟩
    · intro hw
      obtain ⟨h0, hn, hend⟩ := hw
      rw [int32_of_range (by omega) (by omega)]
      exact ⟨h0, ⟨hn, by omega⟩, hend⟩

theorem Backed.step {op : Op} (h : packet.Backed) (ht : packet.step op = some t) : t.Backed := by
  obtain ⟨_, _, rfl, _⟩ := step_cases ht
  exact ⟨h.fits, h.stored⟩

end Setters

theorem create_eq {capacity : Int} {packet : Packet} (h : create capacity = some packet) :
    0 < capacity ∧ packet = ⟨0, capacity, capacity, mallocz (sizeT capacity)⟩ := by
  unfold create at h
  split at h
  · cases h
  · cases h
    exact ⟨by omega, rfl⟩

theorem bytesBehind_create {capacity : Int} (h0 : 0 < capacity) (hu : capacity ≤ INT_MAX) :
    (bytesBehind (mallocz (sizeT capacity)) : Int) =
      if capacity ≤ INT_MAX - 32 then capacity else 0 := by
  have hsize : (sizeT capacity : Int) = capacity := by
    unfold sizeT INT_MAX at *
    omega
  rw [mallocz, bytesBehind_malloc]
  unfold maxAllocSize INT_MAX at *
  split <;> split <;> omega

/-- The window of a new packet stays inside it exactly if its storage was granted and
every setter is asked for a window. -/
theorem window_inside_iff {capacity : BitVec 32} {packet : Packet}
    (h : create capacity.toInt = some packet) (ops : List Op) :
    Always step Inside packet ops ↔
      capacity.toInt ≤ INT_MAX - 32 ∧ Throughout step AsksWindow packet ops := by
  obtain ⟨hpos, rfl⟩ := create_eq h
  have hrange := (toInt_range capacity).2
  have hbehind := bytesBehind_create hpos hrange
  by_cases hfits : capacity.toInt ≤ INT_MAX - 32
  · rw [if_pos hfits] at hbehind
    have hbacked : Backed ⟨0, capacity.toInt, capacity.toInt, mallocz (sizeT capacity.toInt)⟩ :=
      ⟨hrange, hbehind.symm⟩
    have hinside : Inside ⟨0, capacity.toInt, capacity.toInt, mallocz (sizeT capacity.toInt)⟩ :=
      ⟨Int.le_refl 0, Int.le_of_lt hpos, by simp, by simp [hbehind]⟩
    have hkeep : ∀ s op t, Backed s → Inside s → AsksWindow s op → step s op = some t → Backed t :=
      fun _ _ _ hs _ _ ht => hs.step ht
    rw [and_iff_right hfits]
    exact always_iff_throughout hkeep (fun _ _ _ hs hin ht => inside_step_iff hs hin ht) hbacked
      hinside ops
  · rw [if_neg hfits] at hbehind
    constructor
    · intro hall
      have hstored := hall.head.stored
      simp only [hbehind] at hstored
      omega
    · exact fun hboth => absurd hboth.1 hfits

/-- A header is taken off, the rest is cut short, and the header comes back. -/
theorem header_taken_off : ∃ packet, create (100 : BitVec 32).toInt = some packet ∧
    Always step Inside packet [.setrange2 12 88, .setrange3 12 (-8), .setrange 0 92] := by
  refine ⟨_, rfl, ?_⟩
  apply (@window_inside_iff 100 _ rfl _).mpr
  decide

/-- A negative offset, and a length whose end wraps, pass the check. -/
theorem window_outside : ∃ packet, create (100 : BitVec 32).toInt = some packet ∧
    ¬ Always step Inside packet [.setrange (-1) 100] ∧
    ¬ Always step Inside packet [.setrange2 1 2147483647] := by
  refine ⟨_, rfl, fun h => ?_, fun h => ?_⟩
  · have hoffset := (h.2 _ rfl).head.offset
    exact absurd hoffset (by decide)
  · have hbound := (h.2 _ rfl).head.bound
    exact absurd hbound (by decide)

end Packet

end Awe
