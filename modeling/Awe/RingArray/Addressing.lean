import Awe.RingArray.Delivery

namespace Awe.RingArray

/-- Every block lies inside the storage, and no two of them share a byte. -/
structure Addressed (ring : RingArray) : Prop where
  stored : ring.array.isSome
  inside : ∀ m, ring.array = some m → ∀ i, 0 ≤ i → i < ring.capacity →
    0 ≤ ring.get i ∧ ring.get i + ring.blockSize ≤ m.size
  apart : ∀ i j, 0 ≤ i → i < ring.capacity → 0 ≤ j → j < ring.capacity → i ≠ j →
    ring.get i + ring.blockSize ≤ ring.get j ∨ ring.get j + ring.blockSize ≤ ring.get i

/-- The pointers handed out are those of `get`. -/
theorem writeReady_get {ring : RingArray} {w off : Int} (h : ring.writeReady = (w, some off)) :
    off = ring.get w := by
  unfold writeReady at h
  split at h
  · cases h
  · cases h
    rfl

theorem readReady_get {ring : RingArray} {r off : Int} (h : ring.readReady = (r, some off)) :
    off = ring.get r := by
  unfold readReady at h
  split at h
  · cases h
  · cases h
    rfl

/-- What `create` makes of its arguments. -/
theorem create_eq {blockSize capacity : Int} {ring : RingArray}
    (h : create blockSize capacity = some ring) :
    0 < blockSize ∧ 0 < capacity ∧ ring.blockSize = blockSize ∧ ring.capacity = capacity ∧
      ring.array = mallocz (sizeT (int32 (blockSize * capacity))) := by
  unfold create at h
  split at h
  · cases h
  · cases h
    exact ⟨by omega, by omega, rfl, rfl, rfl⟩

/-- A size that is granted is the one asked for, and fits. -/
theorem mallocz_some {size : Nat} {m : Storage} (h : mallocz size = some m) :
    0 < size ∧ size ≤ maxAllocSize - 32 ∧ m = ⟨size, fun _ => 0⟩ := by
  unfold mallocz malloc at h
  split at h
  · cases h
  · cases h
    exact ⟨by omega, by omega, rfl⟩

/-- A granted product of sizes is the product as C computes it. -/
theorem sizeT_int32 {x : Int} (hu : sizeT (int32 x) ≤ maxAllocSize - 32) :
    (sizeT (int32 x) : Int) = int32 x := by
  unfold sizeT int32 maxAllocSize at *
  omega

theorem Sized.addressed {ring : RingArray} (h : Sized ring) {m : Storage}
    (hm : ring.array = some m) (hsize : (m.size : Int) = ring.blockSize * ring.capacity) :
    ring.Addressed := by
  have hb := h.block
  refine ⟨h.stored, ?_, ?_⟩
  · intro n hn i h0 hi
    rw [hm] at hn
    cases hn
    have hnext : (i + 1) * ring.blockSize ≤ ring.capacity * ring.blockSize :=
      Int.mul_le_mul_of_nonneg_right (by omega) (by omega)
    rw [Int.add_mul, Int.one_mul, Int.mul_comm ring.capacity] at hnext
    rw [get, h.offset h0 hi]
    exact ⟨Int.mul_nonneg h0 (by omega), by omega⟩
  · intro i j h0 hi h0' hj hij
    rw [get, get, h.offset h0 hi, h.offset h0' hj]
    exact (cell_apart hb hij).symm

/-- In storage smaller than the product there is a block that begins in it, at an
address that is computed exactly, and does not end in it. -/
theorem not_inside_of_short {ring : RingArray} {m : Storage} (hm : ring.array = some m)
    (hb : 0 < ring.blockSize) (hfits : (m.size : Int) ≤ INT_MAX)
    (hshort : (m.size : Int) < ring.blockSize * ring.capacity) : ¬ ring.Addressed := by
  intro h
  let i := (m.size : Int) / ring.blockSize
  have h0 : 0 ≤ i := Int.ediv_nonneg (by omega) (by omega)
  have hbegins : ring.blockSize * i ≤ m.size := Int.mul_ediv_self_le (by omega)
  have hends : (m.size : Int) < ring.blockSize * i + ring.blockSize :=
    Int.lt_mul_ediv_self_add hb
  have hi : i < ring.capacity := by
    have hlt : ring.blockSize * i < ring.blockSize * ring.capacity := by omega
    exact Int.lt_of_mul_lt_mul_left hlt (by omega)
  have hlow : 0 ≤ ring.blockSize * i := Int.mul_nonneg (by omega) h0
  have hget : ring.get i = ring.blockSize * i := by
    rw [get, Int.mul_comm, int32_of_range (by omega) (by omega)]
  have hinside := (h.inside m hm i h0 hi).2
  omega

/-- A new ring has storage, with every block at a place of its own in it, exactly if
the allocator grants the product of its sizes; and its users are given these places. -/
theorem addressed_iff {blockSize capacity : Int} {ring : RingArray}
    (h : create blockSize capacity = some ring) :
    (ring.Addressed ↔ blockSize * capacity ≤ INT_MAX - 32) ∧
      ∀ (used : RingArray) (i off : Int),
        used.writeReady = (i, some off) ∨ used.readReady = (i, some off) → off = used.get i := by
  obtain ⟨hb, hc, hblock, hcap, harray⟩ := create_eq h
  refine ⟨⟨fun haddr => ?_, fun hfits => ?_⟩, fun used i off hready => ?_⟩
  · by_contra hlarge
    obtain ⟨m, hm⟩ := Option.isSome_iff_exists.mp haddr.stored
    obtain ⟨_, hgranted, hsize⟩ := mallocz_some (harray ▸ hm)
    have hexact := sizeT_int32 hgranted
    have hm_size : (m.size : Int) = int32 (blockSize * capacity) := by
      rw [hsize]
      exact hexact
    have hfits : int32 (blockSize * capacity) ≤ INT_MAX - 32 := by
      unfold maxAllocSize at hgranted
      unfold INT_MAX
      omega
    refine not_inside_of_short hm (hblock ▸ hb) (by omega) ?_ haddr
    rw [hblock, hcap]
    omega
  · obtain ⟨hs, _⟩ := Delivery.create_sized h hfits
    obtain ⟨m, hm⟩ := Option.isSome_iff_exists.mp hs.stored
    obtain ⟨_, hgranted, hsize⟩ := mallocz_some (harray ▸ hm)
    have hpos : 0 < blockSize * capacity := Int.mul_pos hb hc
    apply hs.addressed hm
    rw [hsize, hblock, hcap]
    change (sizeT (int32 (blockSize * capacity)) : Int) = _
    rw [sizeT_int32 hgranted, int32_of_range (by omega) (by omega)]
  · rcases hready with hready | hready
    · exact writeReady_get hready
    · exact readReady_get hready

/-- Sixteen blocks of a kilobyte. -/
theorem kilobytes_addressed : ∃ ring, create 1024 16 = some ring ∧ ring.Addressed :=
  ⟨_, rfl, (@addressed_iff 1024 16 _ rfl).1.mpr (by decide)⟩

/-- The product of these sizes wraps to one block; the second lies outside the storage. -/
theorem wrapped_block_outside : ∃ ring m, create 65536 65537 = some ring ∧
    ring.array = some m ∧ m.size = 65536 ∧ ring.get 1 = 65536 ∧ ¬ ring.Addressed := by
  refine ⟨_, _, rfl, rfl, rfl, rfl, fun h => ?_⟩
  have hinside := (h.inside _ rfl 1 (by decide) (by decide)).2
  exact absurd hinside (by decide)

end Awe.RingArray
