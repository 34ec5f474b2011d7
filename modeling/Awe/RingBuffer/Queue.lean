import Awe.RingBuffer.Model
import Awe.Lib.Circular
import Awe.Lib.Transducer

namespace Awe.RingBuffer
open Circular Transducer

/-- A queue that holds up to `capacity` bytes, oldest first. A read position moved
past the queue is not allowed for. -/
def queueStep (capacity : Nat) (queue : List UInt8) : Op → Option (Answer × List UInt8)
  | .put source =>
    let n := min source.size.toNat (capacity - queue.length)
    some (.put n, queue ++ source.bytes.take n)
  | .get size =>
    let n := min size.toNat queue.length
    some (.get n (queue.take n), queue.drop n)
  | .moveReadPosition size =>
    if size.toNat ≤ queue.length then some (.moved AWE_OK, queue.drop size.toNat) else none

theorem isPowerOf2_toNat {x : BitVec 64} (h : isPowerOf2 x) : x.toNat.isPowerOfTwo := by
  obtain ⟨hne, hand⟩ : x ≠ 0 ∧ x &&& (x - 1) = 0 := by simpa [isPowerOf2] using h
  have hpos : x.toNat ≠ 0 := fun h0 => hne (BitVec.eq_of_toNat_eq h0)
  have hone : (x - 1).toNat = x.toNat - 1 := by bv_omega
  have hzero : x.toNat &&& (x.toNat - 1) = 0 := by
    rw [← hone, ← BitVec.toNat_and, hand]
    rfl
  exact Nat.ne_zero_and_sub_one_eq_zero_iff_isPowerOfTwo.mp ⟨hpos, hzero⟩

/-- The ring holds `queue`, oldest byte at `_out`. -/
structure Holds (ring : RingBuffer) (queue : List UInt8) : Prop where
  power : ring.capacity.toNat.isPowerOfTwo
  length : ring.size.toNat = queue.length
  bound : queue.length ≤ ring.capacity.toNat
  stored : ∃ m, ring.buffer = some m ∧ m.size = ring.capacity.toNat ∧
    window (fun j : Nat => m.bytes j) ring.capacity.toNat ring.out.toNat queue.length = queue

/-- A power of two below `2^64` divides it. -/
theorem capacity_dvd {c : BitVec 64} (h : c.toNat.isPowerOfTwo) : c.toNat ∣ 2 ^ 64 := by
  obtain ⟨k, hk⟩ := h
  rw [hk]
  apply Nat.pow_dvd_pow
  have hlt : 2 ^ k < 2 ^ 64 := hk ▸ c.isLt
  exact Nat.le_of_lt ((Nat.pow_lt_pow_iff_right (by decide)).mp hlt)

/-- Masking a counter takes it modulo the capacity. -/
theorem mask_toNat {c : BitVec 64} (h : c.toNat.isPowerOfTwo) (x : BitVec 64) :
    (x &&& (c - 1)).toNat = x.toNat % c.toNat := by
  obtain ⟨k, hk⟩ := h
  have hpos : 0 < c.toNat := hk ▸ Nat.two_pow_pos k
  have hone : (c - 1).toNat = c.toNat - 1 := by bv_omega
  rw [BitVec.toNat_and, hone, hk, Nat.and_two_pow_sub_one_eq_mod]

/-- Counters that wrap at `2^64` lie in the array as if they did not. -/
theorem add_toNat_mod {c : BitVec 64} (h : c.toNat.isPowerOfTwo) (x y : BitVec 64) :
    (x + y).toNat ≡ x.toNat + y.toNat [MOD c.toNat] := by
  rw [BitVec.toNat_add]
  exact Nat.mod_mod_of_dvd _ (capacity_dvd h)

theorem min_toNat (a b : BitVec 64) : (min_ a b).toNat = min a.toNat b.toNat := by
  unfold min_
  split <;> bv_omega

/-- The two runs of a copy of `n` bytes at counter `x`: up to the end of the storage
and from its beginning, both inside it. -/
structure Runs (c x n pos len : BitVec 64) : Prop where
  pos_eq : pos.toNat = x.toNat % c.toNat
  len_eq : len.toNat = untilEnd c.toNat x.toNat n.toNat
  rest_eq : (n - len).toNat = n.toNat - untilEnd c.toNat x.toNat n.toNat
  first_inside : pos.toNat + len.toNat ≤ c.toNat
  rest_inside : 0 + (n - len).toNat ≤ c.toNat

theorem runs_of_copy {c x n : BitVec 64} (h : c.toNat.isPowerOfTwo) (hn : n.toNat ≤ c.toNat) :
    Runs c x n (x &&& (c - 1)) (min_ n (c - (x &&& (c - 1)))) := by
  have hpos := mask_toNat h x
  have hlt : x.toNat % c.toNat < c.toNat := Nat.mod_lt _ (Nat.pos_of_isPowerOfTwo h)
  have hroom : (c - (x &&& (c - 1))).toNat = c.toNat - x.toNat % c.toNat := by bv_omega
  have hlen : (min_ n (c - (x &&& (c - 1)))).toNat = untilEnd c.toNat x.toNat n.toNat := by
    rw [min_toNat, hroom]
    rfl
  have hcut : untilEnd c.toNat x.toNat n.toNat ≤ n.toNat := untilEnd_le ..
  have hend : untilEnd c.toNat x.toNat n.toNat ≤ c.toNat - x.toNat % c.toNat :=
    Nat.min_le_right ..
  refine ⟨hpos, hlen, ?_, ?_, ?_⟩ <;> bv_omega

theorem read_eq_flat (m : Storage) (off n : Nat) :
    m.read off n = flat (fun j : Nat => m.bytes j) off n := by
  simp [Storage.read, flat]

theorem holds_create {capacity : BitVec 64} {junk : Int → UInt8} {ring : RingBuffer}
    (hc : create capacity junk = some ring) (ha : ring.buffer ≠ none) : ring.Holds [] := by
  unfold create at hc
  split at hc
  · rename_i hp
    cases hc
    refine ⟨isPowerOf2_toNat hp, by simp [RingBuffer.size], Nat.zero_le _, ?_⟩
    simp only [malloc] at ha ⊢
    split at ha
    · exact absurd rfl ha
    · rename_i hfits
      exact ⟨_, if_neg hfits, rfl, rfl⟩
  · cases hc

/-- Within the queue, moving the read position drops that many bytes. -/
theorem Holds.advance {ring : RingBuffer} {queue : List UInt8} (h : ring.Holds queue)
    {n : BitVec 64} (hn : n.toNat ≤ queue.length) :
    ({ ring with out := ring.out + n } : RingBuffer).Holds (queue.drop n.toNat) := by
  obtain ⟨hpower, hlength, hbound, m, hm, hsize, hqueue⟩ := h
  have hsub : (ring.in_ - (ring.out + n)).toNat = queue.length - n.toNat := by
    unfold RingBuffer.size at hlength
    bv_omega
  refine ⟨hpower, ?_, ?_, m, hm, hsize, ?_⟩
  · simpa [RingBuffer.size] using hsub
  · simp only [List.length_drop]
    omega
  · simp only [List.length_drop]
    rw [window_congr_start (add_toNat_mod hpower ring.out n), ← window_drop _ _ hn, hqueue]

theorem Holds.get {ring : RingBuffer} {queue : List UInt8} (h : ring.Holds queue)
    (size : BitVec 64) : ∃ n : BitVec 64, n.toNat = min size.toNat queue.length ∧
      ring.get size = some (n, queue.take n.toNat, { ring with out := ring.out + n }) := by
  obtain ⟨hpower, hlength, hbound, m, hm, hsize, hqueue⟩ := h
  have hn : (min_ size ring.size).toNat = min size.toNat queue.length := by
    rw [min_toNat, hlength]
  refine ⟨_, hn, ?_⟩
  have hle : (min_ size ring.size).toNat ≤ queue.length := by omega
  have hr := runs_of_copy (x := ring.out) hpower (Nat.le_trans hle hbound)
  have hbytes : window (fun j : Nat => m.bytes j) _ ring.out.toNat _ = _ ++ _ :=
    window_split (Nat.le_trans hle hbound)
  simp only [RingBuffer.get, hm, Option.bind_eq_bind]
  rw [show ring.in_ - ring.out = ring.size from rfl,
    Storage.copyFrom_of_le (hsize ▸ hr.first_inside),
    Storage.copyFrom_of_le (hsize ▸ hr.rest_inside)]
  simp only [Option.bind_some, read_eq_flat, hr.pos_eq, hr.len_eq, hr.rest_eq]
  rw [← hbytes, ← window_take _ _ hle, hqueue]

/-- The room computed with wrapping counters is what the queue leaves. -/
theorem Holds.room {ring : RingBuffer} {queue : List UInt8} (h : ring.Holds queue) :
    (ring.capacity - ring.in_ + ring.out).toNat = ring.capacity.toNat - queue.length := by
  have hlength := h.length
  have hbound := h.bound
  unfold RingBuffer.size at hlength
  bv_omega

theorem Holds.in_position {ring : RingBuffer} {queue : List UInt8} (h : ring.Holds queue) :
    ring.in_.toNat ≡ ring.out.toNat + queue.length [MOD ring.capacity.toNat] := by
  have hin : ring.in_ = ring.out + ring.size := by
    unfold RingBuffer.size
    bv_omega
  rw [← h.length]
  conv_lhs => rw [hin]
  exact add_toNat_mod h.power _ _

theorem untilEnd_congr {c s t n : Nat} (h : s ≡ t [MOD c]) : untilEnd c s n = untilEnd c t n := by
  unfold untilEnd
  rw [h]

/-- Writing `data` behind the queue in the two runs of a copy extends the queue by it. -/
theorem window_write {m : Storage} {c start k len : Nat} {data : List UInt8}
    (hroom : k + data.length ≤ c) (hlen : len = untilEnd c (start + k) data.length) :
    window (fun j : Nat => (((m.write ((start + k) % c : Nat) (data.take len)).write 0
        (data.drop len)).bytes j)) c start (k + data.length) =
      window (fun j : Nat => m.bytes j) c start k ++ data := by
  have hle : len ≤ data.length := hlen ▸ untilEnd_le ..
  have hcut : data.length - len ≤ (start + k) % c := by
    unfold untilEnd at hlen
    omega
  apply window_extend hroom
  · rw [← hlen, ← read_eq_flat, Storage.read_write_apart]
    · have hsame := Storage.read_write_same m ((start + k) % c : Nat) (data.take len)
      rwa [List.length_take, Nat.min_eq_left hle] at hsame
    · right
      simp only [List.length_drop]
      omega
  · have hsame := Storage.read_write_same (m.write ((start + k) % c : Nat) (data.take len)) 0
      (data.drop len)
    rw [← hlen, ← read_eq_flat]
    rwa [List.length_drop] at hsame
  · intro j hj hj'
    rw [← hlen] at hj hj'
    rw [Storage.write_bytes_outside, Storage.write_bytes_outside]
    · simp only [List.length_take, Nat.min_eq_left hle]
      omega
    · simp only [List.length_drop]
      omega

theorem Holds.put {ring : RingBuffer} {queue : List UInt8} (h : ring.Holds queue)
    (source : Source) : ∃ n t,
      n.toNat = min source.size.toNat (ring.capacity.toNat - queue.length) ∧
      ring.put source = some (n, t) ∧ t.capacity = ring.capacity ∧
      t.Holds (queue ++ source.bytes.take n.toNat) := by
  have hspace := h.room
  have hin := h.in_position
  obtain ⟨hpower, hlength, hbound, m, hm, hsize, hqueue⟩ := h
  have hn : (min_ source.size (ring.capacity - ring.in_ + ring.out)).toNat =
      min source.size.toNat (ring.capacity.toNat - queue.length) := by
    rw [min_toNat, hspace]
  refine ⟨min_ source.size (ring.capacity - ring.in_ + ring.out), ?_⟩
  simp only [RingBuffer.put, hm, Option.bind_eq_bind]
  generalize min_ source.size (ring.capacity - ring.in_ + ring.out) = n at hn
  have hfits := source.fits
  have hr := runs_of_copy (x := ring.in_) hpower (n := n) (by omega)
  generalize ring.in_ &&& (ring.capacity - 1) = pos at hr
  generalize min_ n (ring.capacity - pos) = len at hr
  obtain ⟨hpos, hlen, hrest, hfirst, hrest_in⟩ := hr
  have hlen_n : len.toNat ≤ n.toNat := hlen ▸ untilEnd_le ..
  have hrest_n : (n - len).toNat = n.toNat - len.toNat := hlen ▸ hrest
  have hdata : (source.bytes.take n.toNat).length = n.toNat := by
    rw [List.length_take]
    omega
  have hd1 : source.bytes.take len.toNat = (source.bytes.take n.toNat).take len.toNat := by
    rw [List.take_take, Nat.min_eq_left hlen_n]
  have hd2 : (source.bytes.drop len.toNat).take (n - len).toNat =
      (source.bytes.take n.toNat).drop len.toNat := by
    rw [hrest_n, List.drop_take]
  rw [hd1, hd2]
  generalize source.bytes.take n.toNat = data at hdata
  have hcut : len.toNat = untilEnd ring.capacity.toNat (ring.out.toNat + queue.length)
      data.length := by
    rw [hlen, hdata, untilEnd_congr hin]
  rw [Storage.copyTo_of_le (by rw [List.length_take, hdata]; omega), Option.bind_some,
    Storage.copyTo_of_le (by rw [List.length_drop, hdata]; simp only [Storage.write]; omega),
    Option.bind_some]
  refine ⟨_, hn, rfl, rfl, hpower, ?_, ?_, _, rfl, hsize, ?_⟩
  · simp only [RingBuffer.size, List.length_append] at hlength ⊢
    bv_omega
  · simp only [List.length_append]
    omega
  · rw [List.length_append, hpos, show ring.in_.toNat % ring.capacity.toNat =
      (ring.out.toNat + queue.length) % ring.capacity.toNat from hin]
    have hwrite := window_write (m := m) (by omega) hcut
    rwa [hqueue] at hwrite

/-- Every call of the code does what the queue allows, and answers the same. -/
theorem implements_queue (capacity : Nat) :
    Implements step (queueStep capacity)
      (fun ring queue => ring.Holds queue ∧ ring.capacity.toNat = capacity) := by
  rintro ring queue op answer queue' ⟨h, rfl⟩ hspec
  cases op with
  | put source =>
    cases hspec
    obtain ⟨n, t, hn, hput, hcap, hholds⟩ := h.put source
    rw [← hn]
    exact ⟨t, by simp [step, hput], hholds, by rw [hcap]⟩
  | get size =>
    cases hspec
    obtain ⟨n, hn, hget⟩ := h.get size
    rw [← hn]
    exact ⟨_, by simp [step, hget], h.advance (by omega), rfl⟩
  | moveReadPosition size =>
    simp only [queueStep] at hspec
    split at hspec
    · rename_i hle
      cases hspec
      exact ⟨_, rfl, h.advance hle, rfl⟩
    · cases hspec

/-- A ring buffer is a queue of bounded length: whatever sequence of calls the queue
allows, the code makes every copy inside its storage, answers as the queue does and
ends up holding it. -/
theorem refines_queue {capacity : BitVec 64} {junk : Int → UInt8} {ring : RingBuffer}
    (hc : create capacity junk = some ring) (ha : ring.buffer ≠ none) {ops : List Op}
    {answers : List Answer} {queue : List UInt8}
    (hops : exec (queueStep capacity.toNat) [] ops = some (answers, queue)) :
    ∃ t, exec step ring ops = some (answers, t) ∧ t.Holds queue ∧
      t.size.toNat = queue.length ∧ queue.length ≤ capacity.toNat ∧
      ∀ n : BitVec 64, n.toNat ≤ queue.length →
        t.get n = some (n, queue.take n.toNat, (t.moveReadPosition n).2) := by
  have hcap : ring.capacity = capacity := by
    unfold create at hc
    split at hc <;> cases hc
    rfl
  obtain ⟨t, ht, hholds, htcap⟩ :=
    (implements_queue capacity.toNat).exec ⟨holds_create hc ha, by rw [hcap]⟩ hops
  refine ⟨t, ht, hholds, hholds.length, htcap ▸ hholds.bound, fun n hn => ?_⟩
  obtain ⟨k, hk, hget⟩ := hholds.get n
  obtain rfl : k = n := BitVec.eq_of_toNat_eq (by omega)
  exact hget

/-- Four bytes of storage; the second put and the last get are split at its end. -/
def wrapAround : List Op :=
  [.put (.ofBytes [1, 2, 3]), .get 2, .put (.ofBytes [4, 5, 6, 7]), .moveReadPosition 1, .get 9]

theorem wrap_around_in_order : ∃ ring t,
    create 4 (fun _ => 0) = some ring ∧ ring.buffer ≠ none ∧
      exec step ring wrapAround =
        some ([.put 3, .get 2 [1, 2], .put 3, .moved AWE_OK, .get 3 [4, 5, 6]], t) ∧
      t.Holds [] := by
  have hcreate : create 4 (fun _ => 0) =
      some ⟨some ⟨4, fun _ => 0⟩, 4, 0, 0⟩ := rfl
  obtain ⟨t, ht, hholds, _⟩ := @refines_queue 4 _ _ hcreate (by simp) wrapAround _ _ rfl
  exact ⟨_, t, hcreate, by simp, ht, hholds⟩

end Awe.RingBuffer
