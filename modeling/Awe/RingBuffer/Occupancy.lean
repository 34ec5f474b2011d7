import Awe.Lib.Machine
import Awe.RingBuffer.Queue

namespace Awe.RingBuffer.Occupancy
open Machine

/-- The ring with the bytes that were put and that neither a get nor a move of the read
position has consumed. -/
structure State where
  ring : RingBuffer
  unread : List UInt8

def step (s : State) : Op → Option State
  | .put source =>
    (s.ring.put source).map (fun r => ⟨r.2, s.unread ++ source.bytes.take r.1.toNat⟩)
  | .get size => (s.ring.get size).map (fun r => ⟨r.2.2, s.unread.drop r.1.toNat⟩)
  | .moveReadPosition size =>
    some ⟨(s.ring.moveReadPosition size).2, s.unread.drop size.toNat⟩

def start (ring : RingBuffer) : State := ⟨ring, []⟩

/-- The ring counts no more than it can hold; a get delivers nothing but unread bytes, a
put accepts no more than there is room for, and both copy inside the storage. -/
structure Bounded (s : State) : Prop where
  occupancy : s.ring.size.toNat ≤ s.ring.capacity.toNat
  get : ∀ size, ∃ n t, s.ring.get size = some (n, s.unread.take n.toNat, t) ∧
    n.toNat ≤ s.unread.length
  put : ∀ source, ∃ n t, s.ring.put source = some (n, t) ∧
    n.toNat ≤ s.ring.capacity.toNat - s.ring.size.toNat

/-- The read position is moved past nothing but stored bytes. -/
def WithinStored (s : State) : Op → Prop
  | .moveReadPosition size => size.toNat ≤ s.ring.size.toNat
  | _ => True

instance (s : State) : ∀ op, Decidable (WithinStored s op)
  | .moveReadPosition _ => inferInstanceAs (Decidable (_ ≤ _))
  | .put _ | .get _ => isTrue trivial

theorem bounded_of_holds {s : State} (h : s.ring.Holds s.unread) : Bounded s := by
  have hlength := h.length
  refine ⟨hlength ▸ h.bound, fun size => ?_, fun source => ?_⟩
  · obtain ⟨n, hn, hget⟩ := h.get size
    exact ⟨n, _, hget, by omega⟩
  · obtain ⟨n, t, hn, hput, _⟩ := h.put source
    exact ⟨n, t, hput, by omega⟩

theorem holds_step {s t : State} {op : Op} (h : s.ring.Holds s.unread) (hop : WithinStored s op)
    (ht : step s op = some t) : t.ring.Holds t.unread := by
  cases op with
  | put source =>
    obtain ⟨n, ring, _, hput, _, hholds⟩ := h.put source
    simp only [step, hput, Option.map_some, Option.some.injEq] at ht
    subst ht
    exact hholds
  | get size =>
    obtain ⟨n, hn, hget⟩ := h.get size
    simp only [step, hget, Option.map_some, Option.some.injEq] at ht
    subst ht
    exact h.advance (by omega)
  | moveReadPosition size =>
    cases ht
    have hle : size.toNat ≤ s.ring.size.toNat := hop
    rw [h.length] at hle
    exact h.advance hle

theorem get_size {ring t : RingBuffer} {size n : BitVec 64} {bytes : List UInt8}
    (h : ring.get size = some (n, bytes, t)) : n = min_ size ring.size := by
  unfold RingBuffer.get at h
  simp only [Option.bind_eq_bind, Option.bind_eq_some_iff] at h
  obtain ⟨_, _, _, _, he⟩ := h
  cases he
  rfl

/-- Past the stored bytes the counters stand the wrong way round: the ring counts bytes
where nothing is unread. -/
theorem not_bounded_of_past {s t : State} {size : BitVec 64} (h : s.ring.Holds s.unread)
    (hpast : s.ring.size.toNat < size.toNat)
    (ht : step s (.moveReadPosition size) = some t) : ¬ Bounded t := by
  cases ht
  intro hbounded
  obtain ⟨n, _, hget, hn⟩ := hbounded.get (BitVec.allOnes 64)
  have hempty : (s.unread.drop size.toNat).length = 0 := by
    rw [List.length_drop, ← h.length]
    omega
  have hzero : n.toNat = 0 := Nat.le_zero.mp (hempty ▸ hn)
  have hcount := congrArg BitVec.toNat (get_size hget)
  rw [min_toNat, BitVec.toNat_allOnes, hzero] at hcount
  have hsize : (s.ring.in_ - (s.ring.out + size)).toNat = 0 := by
    have hmin : 0 = min (2 ^ 64 - 1) (s.ring.in_ - (s.ring.out + size)).toNat := hcount
    omega
  unfold RingBuffer.size at hpast
  bv_omega

/-- Without storage the put of a single byte goes through `NULL`. -/
theorem not_bounded_of_null {capacity : BitVec 64} {junk : Int → UInt8} {ring : RingBuffer}
    (hc : create capacity junk = some ring) (h : ring.buffer = none) : ¬ Bounded (start ring) := by
  unfold create at hc
  obtain ⟨hpower, hc⟩ := Option.ite_none_right_eq_some.mp hc
  cases hc
  have hpos : 0 < capacity.toNat := Nat.pos_of_isPowerOfTwo (isPowerOf2_toNat hpower)
  intro hbounded
  obtain ⟨n, t, hput, _⟩ := hbounded.put (.ofBytes [0])
  simp only [start, RingBuffer.put, Option.bind_eq_bind, Option.bind_eq_some_iff] at hput
  obtain ⟨p, hfirst, _⟩ := hput
  rw [show malloc capacity.toNat junk = none from h] at hfirst
  have hnil := Storage.copyTo_null hfirst
  simp [Source.ofBytes, min_toNat] at hnil
  omega

/-- The capacity that `create` was given is granted, or there is no storage. -/
theorem buffer_create {capacity : BitVec 64} {junk : Int → UInt8} {ring : RingBuffer}
    (hc : create capacity junk = some ring) :
    ring.buffer = none ↔ maxAllocSize - 32 < capacity.toNat := by
  unfold create at hc
  split at hc
  · rename_i hpower
    cases hc
    have hpos := Nat.pos_of_isPowerOfTwo (isPowerOf2_toNat hpower)
    simp only [malloc]
    split
    · rename_i hrefused
      simp only [true_iff]
      omega
    · rename_i hgranted
      simp only [reduceCtorEq, false_iff]
      omega
  · cases hc

/-- The ring stays within its capacity and its contents exactly if its storage was
granted and nobody moves the read position past what is stored. -/
theorem occupancy_bounded_iff {capacity : BitVec 64} {junk : Int → UInt8} {ring : RingBuffer}
    (hc : create capacity junk = some ring) (ops : List Op) :
    Always step Bounded (start ring) ops ↔
      capacity.toNat ≤ maxAllocSize - 32 ∧ Throughout step WithinStored (start ring) ops := by
  by_cases hnull : ring.buffer = none
  · have hlarge := (buffer_create hc).mp hnull
    constructor
    · intro h
      exact absurd h.head (not_bounded_of_null hc hnull)
    · intro h
      omega
  · have hfits : capacity.toNat ≤ maxAllocSize - 32 :=
      Nat.le_of_not_lt (fun hlarge => hnull ((buffer_create hc).mpr hlarge))
    have hstart : (start ring).ring.Holds (start ring).unread := holds_create hc hnull
    have hexact : ∀ s op t, s.ring.Holds s.unread → Bounded s → step s op = some t →
        (Bounded t ↔ WithinStored s op) := by
      intro s op t hs _ ht
      constructor
      · intro hbounded
        cases op with
        | moveReadPosition size =>
          by_contra hpast
          exact not_bounded_of_past hs (Nat.lt_of_not_le hpast) ht hbounded
        | _ => trivial
      · exact fun hop => bounded_of_holds (holds_step hs hop ht)
    have hiff := always_iff_throughout (fun s op t hs _ hop ht => holds_step hs hop ht) hexact
      hstart (bounded_of_holds hstart) ops
    rw [hiff]
    exact (and_iff_right hfits).symm

/-- Two of three bytes are skipped, and the last one is read. -/
theorem skipped_bounded : ∃ ring, create 4 (fun _ => 0) = some ring ∧
    Always step Bounded (start ring)
      [.put (.ofBytes [1, 2, 3]), .moveReadPosition 2, .get 9, .moveReadPosition 0] := by
  refine ⟨_, rfl, ?_⟩
  apply (@occupancy_bounded_iff 4 (fun _ => 0) _ rfl _).mpr
  decide

/-- The read position of an empty ring is moved by one. -/
theorem move_past_end : ∃ ring, create 4 (fun _ => 0) = some ring ∧
    ¬ Always step Bounded (start ring) [.moveReadPosition 1] := by
  refine ⟨_, rfl, fun h => ?_⟩
  have hsize := (h.2 _ rfl).head.occupancy
  exact absurd hsize (by decide)

end Awe.RingBuffer.Occupancy
