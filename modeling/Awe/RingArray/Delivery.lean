import Awe.Lib.Machine
import Awe.RingArray.Model

namespace Awe.RingArray

/-- Block `k` of the storage, whoever holds a pointer to it. -/
def cell (ring : RingArray) (k : Int) : Option (List UInt8) :=
  ring.block (k * ring.blockSize)

/-- Sizes for which `create` obtained storage without wrapping a product. -/
structure Sized (ring : RingArray) : Prop where
  block : 0 < ring.blockSize
  capacity : 0 < ring.capacity
  fits : ring.blockSize * ring.capacity ≤ INT_MAX - 32
  stored : ring.array.isSome

theorem Sized.capacity_le {ring : RingArray} (h : Sized ring) : ring.capacity ≤ INT_MAX - 32 := by
  have hb := h.block
  have : 1 * ring.capacity ≤ ring.blockSize * ring.capacity :=
    Int.mul_le_mul_of_nonneg_right (by omega) (by have := h.capacity; omega)
  have := h.fits
  omega

/-- The `int32_t` product of an index in range is exact. -/
theorem Sized.offset {ring : RingArray} (h : Sized ring) {k : Int} (h0 : 0 ≤ k)
    (hk : k < ring.capacity) : int32 (k * ring.blockSize) = k * ring.blockSize := by
  have hb := h.block
  have hlow : 0 ≤ k * ring.blockSize := Int.mul_nonneg h0 (by omega)
  have hhigh : k * ring.blockSize ≤ ring.capacity * ring.blockSize :=
    Int.mul_le_mul_of_nonneg_right (by omega) (by omega)
  have hfit := h.fits
  rw [Int.mul_comm] at hfit
  exact int32_of_range (by omega) (by omega)

/-- Advancing an index by one and wrapping it as C does. -/
theorem Sized.advance {ring : RingArray} (h : Sized ring) {k : Int} (h0 : 0 ≤ k)
    (hk : k < ring.capacity) :
    (int32 (k + 1)).tmod ring.capacity = (k + 1) % ring.capacity := by
  have := h.capacity_le
  rw [int32_of_range (by omega) (by unfold INT_MAX at *; omega)]
  exact Int.tmod_eq_emod_of_nonneg (by omega)

theorem wrap_eq {c x : Int} (h0 : 0 ≤ x) (hx : x < 2 * c) :
    x % c = if x < c then x else x - c := by
  split
  · exact Int.emod_eq_of_lt h0 (by assumption)
  · rw [← Int.sub_emod_right]
    exact Int.emod_eq_of_lt (by omega) (by omega)

/-- Two different cells never share a byte. -/
theorem cell_apart {b i j : Int} (hb : 0 < b) (h : i ≠ j) :
    j * b + b ≤ i * b ∨ i * b + b ≤ j * b := by
  rcases Int.lt_or_gt_of_ne h with hlt | hgt
  · right
    have := Int.mul_le_mul_of_nonneg_right (show i + 1 ≤ j by omega) (show 0 ≤ b by omega)
    rw [Int.add_mul, Int.one_mul] at this
    omega
  · left
    have := Int.mul_le_mul_of_nonneg_right (show j + 1 ≤ i by omega) (show 0 ≤ b by omega)
    rw [Int.add_mul, Int.one_mul] at this
    omega

theorem fill_shape {ring ring' : RingArray} {off : Int} {data : List UInt8}
    (h : ring.fill off data = some ring') :
    ∃ m, ring.array = some m ∧ ring' = { ring with array := some (m.write off data) } := by
  obtain ⟨m, hm, he⟩ := Option.map_eq_some_iff.mp h
  exact ⟨m, hm, he.symm⟩

theorem fill_cell_same {ring ring' : RingArray} {k : Int} {data : List UInt8}
    (h : ring.fill (k * ring.blockSize) data = some ring')
    (hd : data.length = ring.blockSize.toNat) : ring'.cell k = some data := by
  obtain ⟨m, _, rfl⟩ := fill_shape h
  simp only [cell, block, Option.map_some, ← hd, Storage.read_write_same]

theorem fill_cell_other {ring ring' : RingArray} {j k : Int} {data : List UInt8}
    (h : ring.fill (k * ring.blockSize) data = some ring') (hb : 0 < ring.blockSize)
    (hd : data.length = ring.blockSize.toNat) (hjk : j ≠ k) : ring'.cell j = ring.cell j := by
  obtain ⟨m, hm, rfl⟩ := fill_shape h
  have hapart := cell_apart hb hjk
  simp only [cell, block, hm, Option.map_some]
  rw [Storage.read_write_apart m (by omega)]

end Awe.RingArray

namespace Awe.RingArray.Delivery
open Machine

/-- The ring seen as a queue: cell `rindex + i` (mod capacity) holds the `i`-th
block written and not yet read, and both reservations point where they should. -/
structure Good (s : State) : Prop where
  sized : Sized s.ring
  rindex : 0 ≤ s.ring.rindex ∧ s.ring.rindex < s.ring.capacity
  nmemb : 0 ≤ s.ring.nmemb ∧ s.ring.nmemb ≤ s.ring.capacity
  windex : s.ring.windex = (s.ring.rindex + s.ring.nmemb) % s.ring.capacity
  count : s.ring.nmemb = (s.written.length : Int) - s.delivered.length
  ordered : s.delivered <+: s.written
  stored : ∀ i : Nat, (i : Int) < s.ring.nmemb →
    s.ring.cell ((s.ring.rindex + i) % s.ring.capacity) = s.written[s.delivered.length + i]?
  producer : match s.producer with
    | .idle => True
    | .ready w off => w = s.ring.windex ∧ off = w * s.ring.blockSize ∧
        s.ring.nmemb < s.ring.capacity
    | .filled w data => w = s.ring.windex ∧ s.ring.cell w = some data ∧
        s.ring.nmemb < s.ring.capacity
  consumer : match s.consumer with
    | .idle => True
    | .ready r off => r = s.ring.rindex ∧ off = r * s.ring.blockSize ∧ 0 < s.ring.nmemb
    | .done r data => r = s.ring.rindex ∧ s.written[s.delivered.length]? = some data ∧
        0 < s.ring.nmemb

theorem Good.fifo {s : State} (h : Good s) : Fifo s := ⟨h.ordered, h.count⟩

theorem Good.windex_range {s : State} (h : Good s) :
    0 ≤ s.ring.windex ∧ s.ring.windex < s.ring.capacity := by
  have hc := h.sized.capacity
  rw [h.windex]
  exact ⟨Int.emod_nonneg _ (by omega), Int.emod_lt_of_pos _ hc⟩

/-- A cell holding an unread block is never the one the producer is writing. -/
theorem Good.live_ne_windex {s : State} (h : Good s) {i : Nat}
    (hi : (i : Int) < s.ring.nmemb) (hn : s.ring.nmemb < s.ring.capacity) :
    (s.ring.rindex + i) % s.ring.capacity ≠ s.ring.windex := by
  have hr := h.rindex
  rw [h.windex, wrap_eq (by omega) (by omega), wrap_eq (by omega) (by omega)]
  split <;> split <;> omega

theorem Good.writeReady {s t : State} (h : Good s) (ht : step s .writeReady = some t) :
    Good t := by
  simp only [step, RingArray.writeReady] at ht
  split at ht
  · split at ht
    · rename_i w off hw
      split at hw
      · cases hw
      · obtain ⟨rfl, rfl⟩ : s.ring.windex = w ∧ int32 (s.ring.windex * s.ring.blockSize) = off := by
          simpa using hw
        have hrange := h.windex_range
        simp only [hrange.1, ↓reduceIte, Option.some.injEq] at ht
        subst t
        have hoff := h.sized.offset hrange.1 hrange.2
        exact { h with producer := ⟨rfl, hoff, by dsimp only; omega⟩ }
    · cases ht
      exact h
  · cases ht

theorem Good.fill {s t : State} {data : List UInt8} (h : Good s)
    (ht : step s (.fill data) = some t) : Good t := by
  simp only [step] at ht
  split at ht
  · rename_i w off hp
    have hpr := h.producer
    simp only [hp] at hpr
    obtain ⟨hw, rfl, hn⟩ := hpr
    obtain ⟨hd, ht⟩ := Option.ite_none_right_eq_some.mp ht
    obtain ⟨ring', hf, rfl⟩ := Option.map_eq_some_iff.mp ht
    have hb := h.sized.block
    have hsame := fill_cell_same hf hd
    have hother : ∀ i : Nat, (i : Int) < s.ring.nmemb →
        ring'.cell ((s.ring.rindex + i) % s.ring.capacity) =
          s.ring.cell ((s.ring.rindex + i) % s.ring.capacity) := by
      intro i hi
      exact fill_cell_other hf hb hd (hw ▸ h.live_ne_windex hi hn)
    obtain ⟨m, _, rfl⟩ := fill_shape hf
    exact { h with
      sized := ⟨h.sized.block, h.sized.capacity, h.sized.fits, rfl⟩
      stored := fun i hi => (hother i hi).trans (h.stored i hi)
      producer := ⟨hw, hsame, hn⟩ }
  · cases ht

theorem Good.writeFinish {s t : State} (h : Good s) (ht : step s .writeFinish = some t) :
    Good t := by
  simp only [step] at ht
  split at ht
  · rename_i w data hp
    have hpr := h.producer
    simp only [hp] at hpr
    obtain ⟨hw, hcell, hn⟩ := hpr
    subst w
    have hrange := h.windex_range
    have hcap := h.sized.capacity_le
    have hr := h.rindex
    have hnm := h.nmemb
    have hcount := h.count
    have hnn : int32 (s.ring.nmemb + 1) = s.ring.nmemb + 1 :=
      int32_of_range (by omega) (by unfold INT_MAX at *; omega)
    have hneg : ¬ s.ring.windex < 0 := by omega
    simp only [RingArray.writeFinish, hneg, ↓reduceIte, hnn,
      h.sized.advance hrange.1 hrange.2, Option.some.injEq] at ht
    subst t
    refine { h with
      sized := ⟨h.sized.block, h.sized.capacity, h.sized.fits, h.sized.stored⟩
      nmemb := ⟨by dsimp only; omega, by dsimp only; omega⟩
      windex := ?_
      count := ?_
      ordered := h.ordered.trans (List.prefix_append _ _)
      stored := ?_
      producer := trivial
      consumer := ?_ }
    · dsimp only
      rw [h.windex, Int.emod_add_emod, Int.add_assoc]
    · simp only [List.length_append, List.length_singleton]
      push_cast
      omega
    · intro i hi
      dsimp only at hi
      change s.ring.cell _ = (s.written ++ [data])[s.delivered.length + i]?
      by_cases hlast : (i : Int) < s.ring.nmemb
      · rw [List.getElem?_append_left (by omega)]
        exact h.stored i hlast
      · -- the block just finished is the newest one in the queue
        have hi : (i : Int) = s.ring.nmemb := by omega
        have hlen : s.delivered.length + i = s.written.length := by omega
        rw [hlen, List.getElem?_concat_length, ← hcell, hi, ← h.windex]
    · have hc := h.consumer
      cases hcons : s.consumer with
      | idle => trivial
      | ready r off =>
        simp only [hcons] at hc
        exact ⟨hc.1, hc.2.1, by dsimp only; omega⟩
      | done r d =>
        simp only [hcons] at hc
        refine ⟨hc.1, ?_, by dsimp only; omega⟩
        change (s.written ++ [data])[s.delivered.length]? = some d
        rw [List.getElem?_append_left (by omega)]
        exact hc.2.1
  · cases ht

theorem Good.readReady {s t : State} (h : Good s) (ht : step s .readReady = some t) :
    Good t := by
  simp only [step, RingArray.readReady] at ht
  split at ht
  · split at ht
    · rename_i r off hr
      split at hr
      · cases hr
      · obtain ⟨rfl, rfl⟩ : s.ring.rindex = r ∧ int32 (s.ring.rindex * s.ring.blockSize) = off := by
          simpa using hr
        have hrange := h.rindex
        simp only [hrange.1, ↓reduceIte, Option.some.injEq] at ht
        subst t
        exact { h with consumer := ⟨rfl, h.sized.offset hrange.1 hrange.2, by dsimp only; omega⟩ }
    · cases ht
      exact h
  · cases ht

theorem Good.read {s t : State} (h : Good s) (ht : step s .read = some t) : Good t := by
  simp only [step] at ht
  split at ht
  · rename_i r off hc
    have hco := h.consumer
    simp only [hc] at hco
    obtain ⟨hr, rfl, hn⟩ := hco
    obtain ⟨data, hdata, rfl⟩ := Option.map_eq_some_iff.mp ht
    have hhead := h.stored 0 (by omega)
    have hmod : (s.ring.rindex + ((0 : Nat) : Int)) % s.ring.capacity = r := by
      have := h.rindex
      rw [Int.emod_eq_of_lt (by omega) (by omega)]
      omega
    rw [hmod, Nat.add_zero] at hhead
    exact { h with consumer := ⟨hr, hhead.symm.trans hdata, hn⟩ }
  · cases ht

/-- Finishing a read away from index 0 is the queue's pop. -/
theorem Good.readFinish {s t : State} (h : Good s) (hz : NotIndexZero s .readFinish)
    (ht : step s .readFinish = some t) : Good t := by
  simp only [step] at ht
  split at ht
  · rename_i r data hc
    have hco := h.consumer
    simp only [NotIndexZero, hc] at hz hco
    obtain ⟨hr, hdata, hn⟩ := hco
    subst r
    have hrange := h.rindex
    have hnm := h.nmemb
    have hcap := h.sized.capacity_le
    have hcount := h.count
    have hnn : int32 (s.ring.nmemb - 1) = s.ring.nmemb - 1 :=
      int32_of_range (by omega) (by unfold INT_MAX at *; omega)
    have hneg : ¬ s.ring.rindex ≤ 0 := by omega
    simp only [RingArray.readFinish, hneg, ↓reduceIte, hnn,
      h.sized.advance hrange.1 hrange.2, Option.some.injEq] at ht
    subst t
    refine { h with
      sized := ⟨h.sized.block, h.sized.capacity, h.sized.fits, h.sized.stored⟩
      rindex := ⟨Int.emod_nonneg _ (by omega), Int.emod_lt_of_pos _ (by omega)⟩
      nmemb := ⟨by dsimp only; omega, by dsimp only; omega⟩
      windex := ?_
      count := ?_
      ordered := ?_
      stored := ?_
      producer := ?_
      consumer := trivial }
    · dsimp only
      rw [h.windex, Int.emod_add_emod]
      congr 1
      omega
    · simp only [List.length_append, List.length_singleton]
      push_cast
      omega
    · obtain ⟨rest, hrest⟩ := h.ordered
      rw [← hrest, List.getElem?_append_right (Nat.le_refl _), Nat.sub_self] at hdata
      cases rest with
      | nil => simp at hdata
      | cons d ds =>
        obtain rfl : d = data := by simpa using hdata
        exact ⟨ds, by simp [← hrest]⟩
    · intro i hi
      dsimp only at hi ⊢
      have hpop := h.stored (i + 1) (by omega)
      rw [Int.emod_add_emod, List.length_append, List.length_singleton,
        Nat.add_right_comm, Nat.add_assoc]
      rw [← hpop]
      change s.ring.cell _ = _
      congr 2
      omega
    · have hp := h.producer
      cases hprod : s.producer with
      | idle => trivial
      | ready w off =>
        simp only [hprod] at hp
        exact ⟨hp.1, hp.2.1, by dsimp only; omega⟩
      | filled w d =>
        simp only [hprod] at hp
        exact ⟨hp.1, hp.2.1, by dsimp only; omega⟩
  · cases ht

theorem Good.step {s t : State} {a : Act} (h : Good s) (hz : NotIndexZero s a)
    (ht : step s a = some t) : Good t := by
  cases a with
  | writeReady => exact h.writeReady ht
  | fill data => exact h.fill ht
  | writeFinish => exact h.writeFinish ht
  | readReady => exact h.readReady ht
  | read => exact h.read ht
  | readFinish => exact h.readFinish hz ht

/-- A finish at index 0 leaves the ring alone, so the reported size is one too
large from then on and the same block is handed out again. -/
theorem Good.not_fifo_of_index_zero {s t : State} {a : Act} (h : Good s)
    (hz : ¬ NotIndexZero s a) (ht : Delivery.step s a = some t) : ¬ Fifo t := by
  cases a with
  | readFinish =>
    simp only [Delivery.step] at ht
    split at ht
    · rename_i r data hc
      have hr : r = 0 := by simpa only [NotIndexZero, hc, not_not] using hz
      subst r
      cases ht
      intro hf
      have hsize := hf.2
      have hcount := h.count
      simp only [RingArray.readFinish, RingArray.size, Int.le_refl, ↓reduceIte,
        List.length_append, List.length_singleton] at hsize
      push_cast at hsize
      omega
    · cases ht
  | _ => exact absurd (by simp [NotIndexZero]) hz

theorem good_start {ring : RingArray} (hs : Sized ring) (hn : ring.nmemb = 0)
    (hr : 0 ≤ ring.rindex ∧ ring.rindex < ring.capacity) (hw : ring.windex = ring.rindex) :
    Good (start ring) where
  sized := hs
  rindex := hr
  nmemb := by
    have := hs.capacity
    change 0 ≤ ring.nmemb ∧ ring.nmemb ≤ ring.capacity
    omega
  windex := by
    change ring.windex = (ring.rindex + ring.nmemb) % ring.capacity
    rw [hn, hw, Int.add_zero, Int.emod_eq_of_lt hr.1 hr.2]
  count := by simpa [start] using hn
  ordered := List.prefix_rfl
  stored := by
    intro i hi
    change (i : Int) < ring.nmemb at hi
    omega
  producer := trivial
  consumer := trivial

/-- From an empty ring at any position: delivery is first in, first out exactly
as long as no read is finished at index 0. -/
theorem fifo_iff_of_empty {ring : RingArray} (hs : Sized ring) (hn : ring.nmemb = 0)
    (hr : 0 ≤ ring.rindex ∧ ring.rindex < ring.capacity) (hw : ring.windex = ring.rindex)
    (as : List Act) :
    Always step Fifo (start ring) as ↔ Throughout step NotIndexZero (start ring) as := by
  have hg := good_start hs hn hr hw
  refine always_iff_throughout (fun s a t (h : Good s) _ hz ht => h.step hz ht) ?_ hg hg.fifo as
  intro s a t h _ ht
  constructor
  · intro hf
    by_contra hz
    exact h.not_fifo_of_index_zero hz ht hf
  · intro hz
    exact (h.step hz ht).fifo

theorem create_sized {blockSize capacity : Int} {ring : RingArray}
    (h : create blockSize capacity = some ring) (fits : blockSize * capacity ≤ INT_MAX - 32) :
    Sized ring ∧ ring.nmemb = 0 ∧ ring.rindex = 0 ∧ ring.windex = 0 := by
  unfold create at h
  obtain ⟨hpos, h⟩ := Option.ite_none_left_eq_some.mp h
  have hb : 0 < blockSize := by omega
  have hc : 0 < capacity := by omega
  have hprod : 0 < blockSize * capacity := Int.mul_pos hb hc
  have hsize : (sizeT (int32 (blockSize * capacity)) : Int) = blockSize * capacity := by
    unfold INT_MAX at fits
    rw [int32_of_range (by omega) (by unfold INT_MAX; omega)]
    unfold sizeT
    omega
  have hstored : (mallocz (sizeT (int32 (blockSize * capacity)))).isSome := by
    rw [mallocz_of_fits (by omega) (by unfold maxAllocSize INT_MAX at *; omega)]
    rfl
  cases h
  exact ⟨⟨hb, hc, fits, hstored⟩, rfl, rfl, rfl⟩

/-- A refused finish leaves the read index where it is: in a new ring that is index 0,
and every block ever read is the first. -/
structure AtZero (s : State) : Prop where
  rindex : s.ring.rindex = 0
  consumer : match s.consumer with
    | .idle => True
    | .ready r _ => r = 0
    | .done r _ => r = 0

theorem AtZero.step {s t : State} {a : Act} (h : AtZero s) (ht : step s a = some t) :
    AtZero t := by
  have hr := h.rindex
  have hc := h.consumer
  cases a with
  | writeReady =>
    simp only [Delivery.step] at ht
    repeat' first | split at ht | cases ht
    all_goals exact ⟨hr, hc⟩
  | fill data =>
    simp only [Delivery.step] at ht
    split at ht
    · split at ht
      · obtain ⟨ring', hf, rfl⟩ := Option.map_eq_some_iff.mp ht
        obtain ⟨m, _, rfl⟩ := fill_shape hf
        exact ⟨hr, hc⟩
      · cases ht
    · cases ht
  | writeFinish =>
    simp only [Delivery.step] at ht
    split at ht
    · cases ht
      unfold RingArray.writeFinish
      split <;> exact ⟨hr, hc⟩
    · cases ht
  | readReady =>
    simp only [Delivery.step, RingArray.readReady] at ht
    split at ht
    · split at ht
      · rename_i r off hready
        split at hready
        · cases hready
        · obtain ⟨rfl, rfl⟩ : s.ring.rindex = r ∧
              int32 (s.ring.rindex * s.ring.blockSize) = off := by simpa using hready
          split at ht <;> cases ht
          · exact ⟨hr, hr⟩
          · exact ⟨hr, hc⟩
      · cases ht
        exact ⟨hr, hc⟩
    · cases ht
  | read =>
    simp only [Delivery.step] at ht
    split at ht
    · rename_i r off hready
      rw [hready] at hc
      obtain ⟨data, _, rfl⟩ := Option.map_eq_some_iff.mp ht
      exact ⟨hr, hc⟩
    · cases ht
  | readFinish =>
    simp only [Delivery.step] at ht
    split at ht
    · rename_i r data hdone
      rw [hdone] at hc
      cases ht
      exact ⟨by simpa [RingArray.readFinish, hc] using hr, trivial⟩
    · cases ht

theorem AtZero.notIndexZero_iff {s t : State} {a : Act} (h : AtZero s)
    (ht : Delivery.step s a = some t) : NotIndexZero s a ↔ a ≠ .readFinish := by
  cases a with
  | readFinish =>
    simp only [Delivery.step] at ht
    split at ht
    · rename_i r data hdone
      have hc := h.consumer
      simp only [hdone] at hc
      simp [NotIndexZero, hdone, hc]
    · cases ht
  | _ => simp [NotIndexZero]

/-- Delivery from a new ring is first in, first out exactly as long as no read is
finished at index 0; and since the ring starts there, as long as none is finished. -/
theorem fifo_iff_no_finish_at_zero {blockSize capacity : Int} {ring : RingArray}
    (h : create blockSize capacity = some ring) (fits : blockSize * capacity ≤ INT_MAX - 32)
    (as : List Act) :
    (Always step Fifo (start ring) as ↔ Throughout step NotIndexZero (start ring) as) ∧
      (Throughout step NotIndexZero (start ring) as ↔
        Throughout step (fun _ a => a ≠ .readFinish) (start ring) as) := by
  obtain ⟨hs, hn, hr, hw⟩ := create_sized h fits
  have := hs.capacity
  exact ⟨fifo_iff_of_empty hs hn (by omega) (hw.trans hr.symm) as,
    throughout_congr (fun _ _ _ h ht => AtZero.step h ht) (fun _ _ _ h ht => h.notIndexZero_iff ht)
      ⟨hr, trivial⟩ as⟩

/-- One block written to a ring of two and read without the finish. -/
theorem fifo_before_first_finish :
    Always step Fifo (start ((create 4 2).get rfl))
      [.writeReady, .fill [1, 2, 3, 4], .writeFinish, .readReady, .read] :=
  (fifo_iff_no_finish_at_zero (Option.some_get rfl).symm (by decide) _).1.mpr
    fun _ _ => ⟨trivial, fun _ _ => ⟨trivial, fun _ _ => ⟨trivial, fun _ _ => ⟨trivial,
      fun _ _ => ⟨trivial, trivial⟩⟩⟩⟩⟩

/-- The first block of any ring is read at index 0: after that finish the ring
still counts the block. -/
theorem first_finish_breaks_fifo :
    ¬ ∀ (blockSize capacity : Int) (ring : RingArray), create blockSize capacity = some ring →
      blockSize * capacity ≤ INT_MAX - 32 →
      ∀ (as : List Act) (s : State), run step (start ring) as = some s → Fifo s := by
  intro h
  have hf := h 1 1 _ rfl (by decide)
    [.writeReady, .fill [7], .writeFinish, .readReady, .read, .readFinish] _ rfl
  exact absurd hf.2 (by decide)

end Awe.RingArray.Delivery
