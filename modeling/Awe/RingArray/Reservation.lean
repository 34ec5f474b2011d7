import Awe.RingArray.Addressing

namespace Awe.RingArray.Reservation
open Machine

/-- The ring with what each of its users has reserved and not yet finished, and the
blocks written and not yet read, all by index. -/
structure State where
  ring : RingArray
  producer : Option Int
  consumer : Option Int
  unread : List Int

inductive Act where
  | writeReady
  | writeFinish (wresult : Int)
  | readReady
  | readFinish (rresult : Int)

def reserved (result : Int) : Option Int := if 0 ≤ result then some result else none

/-- A reservation is finished at most once, and before the next ready call; a negative
result may be passed on at any time. -/
def step (s : State) : Act → Option State
  | .writeReady => some { s with producer := reserved s.ring.writeReady.1 }
  | .writeFinish w =>
    if w < 0 then some { s with ring := s.ring.writeFinish w }
    else if s.producer = some w then some
      { ring := s.ring.writeFinish w
        producer := none
        consumer := s.consumer
        unread := s.unread ++ [w] }
    else none
  | .readReady => some { s with consumer := reserved s.ring.readReady.1 }
  | .readFinish r =>
    if r < 0 then some { s with ring := s.ring.readFinish r }
    else if s.consumer = some r then some
      { ring := s.ring.readFinish r
        producer := s.producer
        consumer := none
        unread := s.unread.erase r }
    else none

def start (ring : RingArray) : State := ⟨ring, none, none, []⟩

/-- The index of the `i`-th block that the ring counts as stored. -/
def index (ring : RingArray) (i : Int) : Int := (ring.rindex + i) % ring.capacity

def BytesApart (ring : RingArray) (i j : Int) : Prop :=
  ring.get i + ring.blockSize ≤ ring.get j ∨ ring.get j + ring.blockSize ≤ ring.get i

/-- The indices are in order, and the block the producer may write is no block that the
consumer is reading, that the ring has stored or that has not been read. -/
structure Separate (s : State) : Prop where
  nmemb : 0 ≤ s.ring.nmemb ∧ s.ring.nmemb ≤ s.ring.capacity
  rindex : 0 ≤ s.ring.rindex ∧ s.ring.rindex < s.ring.capacity
  windex : 0 ≤ s.ring.windex ∧ s.ring.windex < s.ring.capacity
  between : s.ring.windex = index s.ring s.ring.nmemb
  own : ∀ w, s.producer = some w → w = s.ring.windex
  reading : ∀ w r, s.producer = some w → s.consumer = some r → w ≠ r
  stored : ∀ w i, s.producer = some w → 0 ≤ i → i < s.ring.nmemb → w ≠ index s.ring i
  unread : ∀ w, s.producer = some w → w ∉ s.unread
  bytes : s.ring.blockSize * s.ring.capacity ≤ INT_MAX - 32 → ∀ w k, s.producer = some w →
    s.consumer = some k ∨ k ∈ s.unread → BytesApart s.ring w k

/-- The reservations and the unread blocks lie where the indices say. -/
structure Kept (s : State) : Prop where
  fits : s.ring.capacity ≤ INT_MAX
  sized : s.ring.blockSize * s.ring.capacity ≤ INT_MAX - 32 → Sized s.ring
  nmemb : 0 ≤ s.ring.nmemb ∧ s.ring.nmemb ≤ s.ring.capacity
  rindex : 0 ≤ s.ring.rindex ∧ s.ring.rindex < s.ring.capacity
  between : s.ring.windex = index s.ring s.ring.nmemb
  producer : ∀ w, s.producer = some w → w = s.ring.windex ∧ s.ring.nmemb < s.ring.capacity
  consumer : ∀ r, s.consumer = some r → r = s.ring.rindex ∧ 0 < s.ring.nmemb
  unread : ∀ k ∈ s.unread, ∃ i, 0 ≤ i ∧ i < s.ring.nmemb ∧ k = index s.ring i
  once : s.unread.Nodup

theorem reserved_eq_some {result w : Int} : reserved result = some w ↔ 0 ≤ w ∧ result = w := by
  unfold reserved
  split
  · rw [Option.some.injEq]
    constructor
    · intro he
      exact ⟨by omega, he⟩
    · exact And.right
  · constructor
    · intro he
      cases he
    · intro he
      omega

section Kept

variable {s t : State}

theorem Kept.windex (h : Kept s) : 0 ≤ s.ring.windex ∧ s.ring.windex < s.ring.capacity := by
  have hr := h.rindex
  rw [h.between, index]
  exact ⟨Int.emod_nonneg _ (by omega), Int.emod_lt_of_pos _ (by omega)⟩

/-- The write index is behind every stored block of a ring that is not full. -/
theorem Kept.windex_ne (h : Kept s) (hroom : s.ring.nmemb < s.ring.capacity) {i : Int}
    (h0 : 0 ≤ i) (hi : i < s.ring.nmemb) : s.ring.windex ≠ index s.ring i := by
  have hr := h.rindex
  rw [h.between, index, index, wrap_eq (by omega) (by omega), wrap_eq (by omega) (by omega)]
  split <;> split <;> omega

theorem Kept.rindex_eq (h : Kept s) : s.ring.rindex = index s.ring 0 := by
  rw [index, Int.add_zero, Int.emod_eq_of_lt h.rindex.1 h.rindex.2]

theorem Kept.index_range (h : Kept s) (i : Int) :
    0 ≤ index s.ring i ∧ index s.ring i < s.ring.capacity := by
  have hr := h.rindex
  exact ⟨Int.emod_nonneg _ (by omega), Int.emod_lt_of_pos _ (by omega)⟩

theorem Kept.bytesApart (h : Kept s) (hfits : s.ring.blockSize * s.ring.capacity ≤ INT_MAX - 32)
    {i j : Int} (hi : 0 ≤ i ∧ i < s.ring.capacity) (hj : 0 ≤ j ∧ j < s.ring.capacity)
    (hne : i ≠ j) : BytesApart s.ring i j := by
  have hs := h.sized hfits
  rw [BytesApart, get, get, hs.offset hi.1 hi.2, hs.offset hj.1 hj.2]
  exact (cell_apart hs.block hne).symm

theorem Kept.separate (h : Kept s) : Separate s := by
  have hreading : ∀ w r, s.producer = some w → s.consumer = some r → w ≠ r := by
    intro w r hw hr
    obtain ⟨rfl, hroom⟩ := h.producer w hw
    obtain ⟨rfl, hsome⟩ := h.consumer r hr
    rw [h.rindex_eq]
    exact h.windex_ne hroom (Int.le_refl 0) hsome
  have hstored : ∀ w i, s.producer = some w → 0 ≤ i → i < s.ring.nmemb → w ≠ index s.ring i := by
    intro w i hw h0 hi
    obtain ⟨rfl, hroom⟩ := h.producer w hw
    exact h.windex_ne hroom h0 hi
  have hunread : ∀ w, s.producer = some w → w ∉ s.unread := by
    intro w hw hmem
    obtain ⟨i, h0, hi, he⟩ := h.unread w hmem
    exact hstored w i hw h0 hi he
  refine ⟨h.nmemb, h.rindex, h.windex, h.between, fun w hw => (h.producer w hw).1, hreading,
    hstored, hunread, fun hfits w k hw hk => ?_⟩
  have hwrange : 0 ≤ w ∧ w < s.ring.capacity := (h.producer w hw).1 ▸ h.windex
  rcases hk with hk | hk
  · have hkrange : 0 ≤ k ∧ k < s.ring.capacity := (h.consumer k hk).1 ▸ h.rindex
    exact h.bytesApart hfits hwrange hkrange (hreading w k hw hk)
  · obtain ⟨i, _, _, rfl⟩ := h.unread k hk
    apply h.bytesApart hfits hwrange (h.index_range i)
    intro he
    exact hunread w hw (he ▸ hk)

theorem Kept.writeReady (h : Kept s) :
    Kept { s with producer := reserved s.ring.writeReady.1 } := by
  refine { h with producer := fun w hw => ?_ }
  obtain ⟨h0, hw⟩ := reserved_eq_some.mp hw
  unfold RingArray.writeReady at hw
  split at hw
  · dsimp only at hw
    omega
  · exact ⟨hw.symm, by dsimp only; omega⟩

theorem Kept.readReady (h : Kept s) : Kept { s with consumer := reserved s.ring.readReady.1 } := by
  refine { h with consumer := fun r hr => ?_ }
  obtain ⟨h0, hr⟩ := reserved_eq_some.mp hr
  unfold RingArray.readReady at hr
  split at hr
  · dsimp only at hr
    omega
  · exact ⟨hr.symm, by dsimp only; omega⟩

/-- The reserved block becomes the last of the stored ones. -/
theorem Kept.writeFinish (h : Kept s) {w : Int} (hw : s.producer = some w) :
    Kept ⟨s.ring.writeFinish w, none, s.consumer, s.unread ++ [w]⟩ := by
  obtain ⟨rfl, hroom⟩ := h.producer w hw
  have hunread := h.separate.unread _ hw
  have hwindex := h.windex
  have hnmemb := h.nmemb
  have hfits := h.fits
  have hinc : int32 (s.ring.nmemb + 1) = s.ring.nmemb + 1 :=
    int32_of_range (by omega) (by omega)
  have hnext : (int32 (s.ring.windex + 1)).tmod s.ring.capacity =
      (s.ring.windex + 1) % s.ring.capacity := by
    rw [int32_of_range (by omega) (by omega)]
    exact Int.tmod_eq_emod_of_nonneg (by omega)
  have hring : s.ring.writeFinish s.ring.windex = { s.ring with
      windex := (s.ring.windex + 1) % s.ring.capacity
      nmemb := s.ring.nmemb + 1 } := by
    rw [RingArray.writeFinish, if_neg (by omega), hnext, hinc]
  rw [hring]
  refine ⟨hfits, fun hsize => ?_, ⟨?_, ?_⟩, h.rindex, ?_, fun w hw => (by cases hw),
    fun r hr => ?_, ?_, ?_⟩
  · exact { h.sized hsize with }
  · dsimp only
    omega
  · dsimp only
    omega
  · dsimp only [index]
    rw [h.between, index, Int.emod_add_emod, Int.add_assoc]
  · exact ⟨(h.consumer r hr).1, by dsimp only; omega⟩
  · intro k hk
    rcases List.mem_append.mp hk with hk | hk
    · obtain ⟨i, h0, hi, he⟩ := h.unread k hk
      exact ⟨i, h0, by dsimp only; omega, he⟩
    · rw [List.mem_singleton.mp hk]
      exact ⟨s.ring.nmemb, hnmemb.1, by dsimp only; omega, h.between⟩
  · refine List.nodup_append.mpr ⟨h.once, by simp, ?_⟩
    intro x hx y hy he
    rw [List.mem_singleton.mp hy] at he
    exact hunread (he ▸ hx)

/-- The block that was read is stored no longer, unless it is the one at index 0, which
the ring keeps. -/
theorem Kept.readFinish (h : Kept s) {r : Int} (hr : s.consumer = some r) :
    Kept ⟨s.ring.readFinish r, s.producer, none, s.unread.erase r⟩ := by
  obtain ⟨rfl, hsome⟩ := h.consumer r hr
  have hrindex := h.rindex
  have hnmemb := h.nmemb
  have hfits := h.fits
  have hunread : ∀ k ∈ s.unread.erase s.ring.rindex, k ∈ s.unread ∧ k ≠ s.ring.rindex := by
    intro k hk
    exact (h.once.mem_erase_iff.mp hk).symm
  by_cases hzero : s.ring.rindex ≤ 0
  · rw [RingArray.readFinish, if_pos hzero]
    exact { h with
      consumer := fun r hr => by cases hr
      unread := fun k hk => h.unread k (hunread k hk).1
      once := h.once.erase _ }
  · have hdec : int32 (s.ring.nmemb - 1) = s.ring.nmemb - 1 :=
      int32_of_range (by omega) (by omega)
    have hnext : (int32 (s.ring.rindex + 1)).tmod s.ring.capacity =
        (s.ring.rindex + 1) % s.ring.capacity := by
      rw [int32_of_range (by omega) (by omega)]
      exact Int.tmod_eq_emod_of_nonneg (by omega)
    rw [RingArray.readFinish, if_neg hzero, hdec, hnext]
    refine ⟨hfits, fun hsize => ?_, ⟨?_, ?_⟩, ⟨Int.emod_nonneg _ (by omega),
      Int.emod_lt_of_pos _ (by omega)⟩, ?_, fun w hw => ?_, fun r hr => (by cases hr),
      fun k hk => ?_, h.once.erase _⟩
    · exact { h.sized hsize with }
    · dsimp only
      omega
    · dsimp only
      omega
    · dsimp only [index]
      rw [h.between, index, Int.emod_add_emod]
      congr 1
      omega
    · exact ⟨(h.producer w hw).1, by dsimp only; omega⟩
    · obtain ⟨hk, hne⟩ := hunread k hk
      obtain ⟨i, h0, hi, he⟩ := h.unread k hk
      have hi0 : i ≠ 0 := by
        intro hzero
        rw [hzero, ← h.rindex_eq] at he
        exact hne he
      refine ⟨i - 1, by omega, by dsimp only; omega, ?_⟩
      dsimp only [index]
      rw [he, index, Int.emod_add_emod]
      congr 1
      omega

theorem Kept.step {a : Act} (h : Kept s) (ht : step s a = some t) : Kept t := by
  cases a with
  | writeReady =>
    cases ht
    exact h.writeReady
  | readReady =>
    cases ht
    exact h.readReady
  | writeFinish w =>
    simp only [Reservation.step] at ht
    split at ht
    · rename_i hneg
      cases ht
      rwa [RingArray.writeFinish, if_pos hneg]
    · split at ht
      · rename_i hw
        cases ht
        exact h.writeFinish hw
      · cases ht
  | readFinish r =>
    simp only [Reservation.step] at ht
    split at ht
    · rename_i hneg
      cases ht
      rwa [RingArray.readFinish, if_pos (by omega)]
    · split at ht
      · rename_i hr
        cases ht
        exact h.readFinish hr
      · cases ht

end Kept

theorem kept_start {blockSize capacity : Int} {ring : RingArray}
    (h : create blockSize capacity = some ring) (hcap : capacity ≤ INT_MAX) :
    Kept (start ring) := by
  have hsized : ring.blockSize * ring.capacity ≤ INT_MAX - 32 → Sized ring := by
    intro hfits
    obtain ⟨_, _, hb, hc, _⟩ := create_eq h
    rw [hb, hc] at hfits
    exact (Delivery.create_sized h hfits).1
  unfold create at h
  split at h
  · cases h
  · cases h
    refine ⟨hcap, hsized, ⟨Int.le_refl 0, ?_⟩, ⟨Int.le_refl 0, ?_⟩, ?_, nofun, nofun, nofun,
      List.nodup_nil⟩
    · change 0 ≤ capacity
      omega
    · change 0 < capacity
      omega
    · exact (Int.zero_emod capacity).symm

/-- Whatever the four calls are interleaved to, the block reserved for writing is never
one that is being read or is still to be read. -/
theorem reservations_separate {blockSize capacity : Int} {ring : RingArray}
    (h : create blockSize capacity = some ring) (hcap : capacity ≤ INT_MAX) (as : List Act) :
    Always step Separate (start ring) as := by
  have hkeep : ∀ s a m, Kept s → Separate s → True → step s a = some m → Kept m ∧ Separate m :=
    fun s a m hs _ _ hm => ⟨hs.step hm, (hs.step hm).separate⟩
  have hstart := kept_start h hcap
  exact always_of_throughout hkeep hstart hstart.separate
    (throughout_of_mem (fun _ _ _ => trivial) (start ring))

/-- A ring of two filled up, with the reads of its first block interleaved. -/
theorem filled_separate : ∃ ring, create 4 2 = some ring ∧ Always step Separate (start ring)
    [.writeReady, .writeFinish 0, .readReady, .writeReady, .readFinish 0, .writeFinish 1,
      .writeReady, .writeFinish (-2), .readReady] :=
  ⟨_, rfl, @reservations_separate 4 2 _ rfl (by decide) _⟩

end Awe.RingArray.Reservation
