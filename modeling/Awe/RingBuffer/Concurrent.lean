import Awe.Lib.Machine
import Awe.RingBuffer.Queue

namespace Awe.RingBuffer.Concurrent
open Circular Machine

/-- Where a put is; `_min_` evaluates its second argument twice. `found` is the room that
was seen first. -/
inductive Producer where
  | idle
  | again (source : Source) (found : Nat)
  | copy (source : Source) (found : Nat) (n : BitVec 64) (i : Nat)

/-- Where a get is, with the bytes it has copied. -/
inductive Consumer where
  | idle
  | again (size : BitVec 64) (found : Nat)
  | copy (size : BitVec 64) (found : Nat) (n : BitVec 64) (copied : List UInt8)

/-- What a call was asked for, what it found at its first load and what it moved. -/
structure Return where
  asked : Nat
  found : Nat
  moved : Nat
  deriving DecidableEq

/-- The ring and the two threads, with the bytes that finished calls have accepted and
delivered. -/
structure Shared where
  ring : RingBuffer
  producer : Producer
  consumer : Consumer
  accepted : List UInt8
  delivered : List UInt8
  returns : List Return

def start (ring : RingBuffer) : Shared := ⟨ring, .idle, .idle, [], [], []⟩

/-- Where the `i`-th of `n` bytes lies that are copied from counter `x` on, in the first or
in the second `memcpy`. -/
def offset (capacity x n : BitVec 64) (i : Nat) : Nat :=
  let pos := x &&& (capacity - 1)
  let len := min_ n (capacity - pos)
  if i < len.toNat then pos.toNat + i else i - len.toNat

def room (ring : RingBuffer) : BitVec 64 := ring.capacity - ring.in_ + ring.out

/-- Each load of the other thread's counter, each byte copied and each store of a counter is
a step of its own. -/
inductive Act where
  | putLoad (source : Source)
  | putReload
  | putCopy
  | putStore
  | getLoad (size : BitVec 64)
  | getReload
  | getCopy
  | getStore

def putLoad (s : Shared) (source : Source) : Option Shared :=
  match s.producer with
  | .idle =>
    if source.size < room s.ring then
      some { s with producer := .copy source (room s.ring).toNat source.size 0 }
    else some { s with producer := .again source (room s.ring).toNat }
  | _ => none

def putReload (s : Shared) : Option Shared :=
  match s.producer with
  | .again source found => some { s with producer := .copy source found (room s.ring) 0 }
  | _ => none

/-- `none` is a copy that leaves the storage or the caller's memory. -/
def putCopy (s : Shared) : Option Shared :=
  match s.producer with
  | .copy source found n i =>
    if i < n.toNat then do
      let byte ← source.bytes[i]?
      let buffer ← s.ring.buffer
      let buffer ← buffer.store (offset s.ring.capacity s.ring.in_ n i) [byte]
      some { s with
        ring := { s.ring with buffer := some buffer }
        producer := .copy source found n (i + 1) }
    else none
  | _ => none

def putStore (s : Shared) : Option Shared :=
  match s.producer with
  | .copy source found n i =>
    if i = n.toNat then
      some { s with
        ring := { s.ring with in_ := s.ring.in_ + n }
        producer := .idle
        accepted := s.accepted ++ source.bytes.take n.toNat
        returns := s.returns ++ [⟨source.size.toNat, found, n.toNat⟩] }
    else none
  | _ => none

def getLoad (s : Shared) (size : BitVec 64) : Option Shared :=
  match s.consumer with
  | .idle =>
    if size < s.ring.size then
      some { s with consumer := .copy size s.ring.size.toNat size [] }
    else some { s with consumer := .again size s.ring.size.toNat }
  | _ => none

def getReload (s : Shared) : Option Shared :=
  match s.consumer with
  | .again size found => some { s with consumer := .copy size found s.ring.size [] }
  | _ => none

def getCopy (s : Shared) : Option Shared :=
  match s.consumer with
  | .copy size found n copied =>
    if copied.length < n.toNat then do
      let buffer ← s.ring.buffer
      let bytes ← buffer.load (offset s.ring.capacity s.ring.out n copied.length) 1
      some { s with consumer := .copy size found n (copied ++ bytes) }
    else none
  | _ => none

def getStore (s : Shared) : Option Shared :=
  match s.consumer with
  | .copy size found n copied =>
    if copied.length = n.toNat then
      some { s with
        ring := { s.ring with out := s.ring.out + n }
        consumer := .idle
        delivered := s.delivered ++ copied
        returns := s.returns ++ [⟨size.toNat, found, n.toNat⟩] }
    else none
  | _ => none

def step (s : Shared) : Act → Option Shared
  | .putLoad source => putLoad s source
  | .putReload => putReload s
  | .putCopy => putCopy s
  | .putStore => putStore s
  | .getLoad size => getLoad s size
  | .getReload => getReload s
  | .getCopy => getCopy s
  | .getStore => getStore s

theorem offset_eq {c x n : BitVec 64} (h : c.toNat.isPowerOfTwo) (hn : n.toNat ≤ c.toNat)
    {i : Nat} (hi : i < n.toNat) : offset c x n i = (x.toNat + i) % c.toNat := by
  have hr := runs_of_copy (x := x) h hn
  unfold offset
  dsimp only
  rw [hr.pos_eq, hr.len_eq]
  split
  · rename_i hbefore
    exact (cell_before_end hbefore).symm
  · rename_i hafter
    have hcell : (x.toNat + untilEnd c.toNat x.toNat n.toNat +
        (i - untilEnd c.toNat x.toNat n.toNat)) % c.toNat =
        i - untilEnd c.toNat x.toNat n.toNat := cell_after_end hn (by omega)
    rw [Nat.add_assoc, Nat.add_sub_cancel' (Nat.le_of_not_lt hafter)] at hcell
    exact hcell.symm

theorem write_byte (m : Storage) (off : Nat) (b : UInt8) (j : Nat) :
    (m.write off [b]).bytes j = if j = off then b else m.bytes j := by
  split
  · rename_i he
    subst he
    simp [Storage.write]
  · rename_i hne
    rw [Storage.write_bytes_outside]
    rw [List.length_singleton]
    omega

/-- What is known of a put that is under way, with `queue` in the ring: its bytes fit, and
those that are copied lie behind the queue. -/
def Putting (ring : RingBuffer) (queue : List UInt8) : Producer → Prop
  | .idle => True
  | .again source found => found ≤ source.size.toNat ∧ found + queue.length ≤ ring.capacity.toNat
  | .copy source found n i =>
    (min source.size.toNat found ≤ n.toNat ∧ n.toNat + queue.length ≤ ring.capacity.toNat) ∧
    (i ≤ n.toNat ∧ i ≤ source.bytes.length) ∧
    ∃ m, ring.buffer = some m ∧
      window (fun j : Nat => m.bytes j) ring.capacity.toNat ring.in_.toNat i = source.bytes.take i

/-- What is known of a get: the bytes it takes are there, and are those it has copied. -/
def Getting (queue : List UInt8) : Consumer → Prop
  | .idle => True
  | .again size found => found ≤ size.toNat ∧ found ≤ queue.length
  | .copy size found n copied =>
    (min size.toNat found ≤ n.toNat ∧ n.toNat ≤ queue.length) ∧
    copied.length ≤ n.toNat ∧ copied = queue.take copied.length

structure Ordered (s : Shared) (queue : List UInt8) : Prop where
  holds : s.ring.Holds queue
  order : s.accepted = s.delivered ++ queue
  putting : Putting s.ring queue s.producer
  getting : Getting queue s.consumer
  returns : ∀ r ∈ s.returns, min r.asked r.found ≤ r.moved ∧ r.moved ≤ s.ring.capacity.toNat

section

variable {s t : Shared} {queue : List UInt8}

theorem room_eq (h : s.ring.Holds queue) :
    (room s.ring).toNat + queue.length = s.ring.capacity.toNat := by
  have hroom := h.room
  have hbound := h.bound
  unfold room
  omega

theorem Ordered.putLoad (h : Ordered s queue) {source : Source}
    (ht : putLoad s source = some t) : Ordered t queue := by
  have hroom := room_eq h.holds
  unfold Concurrent.putLoad at ht
  split at ht
  · split at ht
    · rename_i hless
      cases ht
      obtain ⟨m, hm, _⟩ := h.holds.stored
      have hless : source.size.toNat < (room s.ring).toNat := hless
      have hfits : source.size.toNat + queue.length ≤ s.ring.capacity.toNat := by omega
      exact ⟨h.holds, h.order, ⟨⟨Nat.min_le_left _ _, hfits⟩, ⟨Nat.zero_le _, Nat.zero_le _⟩,
        m, hm, rfl⟩, h.getting, h.returns⟩
    · rename_i hless
      cases ht
      have hless : (room s.ring).toNat ≤ source.size.toNat := Nat.le_of_not_lt hless
      exact ⟨h.holds, h.order, ⟨hless, Nat.le_of_eq hroom⟩, h.getting, h.returns⟩
  · cases ht

theorem Ordered.putReload (h : Ordered s queue) (ht : putReload s = some t) :
    Ordered t queue := by
  have hroom := room_eq h.holds
  unfold Concurrent.putReload at ht
  split at ht
  · rename_i source found hat
    cases ht
    have hput := h.putting
    rw [hat] at hput
    obtain ⟨_, hfound⟩ := hput
    obtain ⟨m, hm, _⟩ := h.holds.stored
    have hleast : min source.size.toNat found ≤ (room s.ring).toNat := by omega
    exact ⟨h.holds, h.order, ⟨⟨hleast, Nat.le_of_eq hroom⟩, ⟨Nat.zero_le _, Nat.zero_le _⟩,
      m, hm, rfl⟩, h.getting, h.returns⟩
  · cases ht

/-- The byte that is copied lands behind the queue and behind those copied before. -/
theorem Ordered.putCopy (h : Ordered s queue) (ht : putCopy s = some t) : Ordered t queue := by
  unfold Concurrent.putCopy at ht
  split at ht
  · rename_i source found n i hat
    obtain ⟨hi, ht⟩ := Option.ite_none_right_eq_some.mp ht
    obtain ⟨byte, hbyte, ht⟩ := Option.bind_eq_some_iff.mp ht
    obtain ⟨m, hm, ht⟩ := Option.bind_eq_some_iff.mp ht
    obtain ⟨m', hstore, ht⟩ := Option.bind_eq_some_iff.mp ht
    cases ht
    have hput := h.putting
    rw [hat] at hput
    obtain ⟨hn, ⟨_, hread⟩, m₀, hm₀, hcopied⟩ := hput
    obtain rfl : m₀ = m := Option.some.inj (hm₀.symm.trans hm)
    obtain ⟨hpower, hlength, hbound, m₁, hm₁, hsize, hqueue⟩ := h.holds
    obtain rfl : m₁ = m₀ := Option.some.inj (hm₁.symm.trans hm)
    have hstart : s.ring.in_.toNat ≡ s.ring.out.toNat + queue.length
        [MOD s.ring.capacity.toNat] := h.holds.in_position
    have hcell : offset s.ring.capacity s.ring.in_ n i =
        (s.ring.in_.toNat + i) % s.ring.capacity.toNat := offset_eq hpower (by omega) hi
    unfold Storage.store at hstore
    obtain ⟨_, hstore⟩ := Option.ite_none_right_eq_some.mp hstore
    cases hstore
    have hother : ∀ j, j ≠ (s.ring.in_.toNat + i) % s.ring.capacity.toNat →
        (m₁.write (offset s.ring.capacity s.ring.in_ n i) [byte]).bytes j = m₁.bytes j := by
      intro j hj
      rw [hcell, write_byte, if_neg hj]
    have hbehind : (s.ring.in_.toNat + i) % s.ring.capacity.toNat =
        (s.ring.out.toNat + (queue.length + i)) % s.ring.capacity.toNat := by
      rw [← Nat.add_assoc]
      exact hstart.add_right i
    refine ⟨⟨hpower, hlength, hbound, _, rfl, hsize, ?_⟩, h.order,
      ⟨hn, ⟨hi, (List.getElem?_eq_some_iff.mp hbyte).1⟩, _, rfl, ?_⟩, h.getting, h.returns⟩
    · rw [hbehind] at hother
      exact (window_of_set (Nat.le_add_right _ i) (by omega) hother).trans hqueue
    · have hbefore := window_of_set (n := i) (Nat.le_refl i) (by omega) hother
      rw [window_succ, hbefore, hcopied, List.take_add_one, hbyte, hcell, write_byte, if_pos rfl]
      rfl
  · cases ht

theorem Getting.extend {consumer : Consumer} (h : Getting queue consumer) (data : List UInt8) :
    Getting (queue ++ data) consumer := by
  have hless : queue.length ≤ (queue ++ data).length := by
    rw [List.length_append]
    exact Nat.le_add_right _ _
  cases consumer with
  | idle => trivial
  | again size found => exact ⟨h.1, Nat.le_trans h.2 hless⟩
  | copy size found n copied =>
    obtain ⟨⟨hleast, hn⟩, hcopied, htaken⟩ := h
    refine ⟨⟨hleast, Nat.le_trans hn hless⟩, hcopied, ?_⟩
    rw [List.take_append_of_le_length (Nat.le_trans hcopied hn)]
    exact htaken

/-- A store of `_in` puts the copied bytes into the queue. -/
theorem Ordered.putStore (h : Ordered s queue) (ht : putStore s = some t) :
    ∃ queue', Ordered t queue' := by
  unfold Concurrent.putStore at ht
  split at ht
  · rename_i source found n i hat
    obtain ⟨hdone, ht⟩ := Option.ite_none_right_eq_some.mp ht
    cases ht
    have hput := h.putting
    rw [hat] at hput
    obtain ⟨⟨hleast, hn⟩, ⟨_, hread⟩, m₀, hm₀, hcopied⟩ := hput
    obtain ⟨hpower, hlength, hbound, m, hm, hsize, hqueue⟩ := h.holds
    obtain rfl : m₀ = m := Option.some.inj (hm₀.symm.trans hm)
    have htaken : (source.bytes.take n.toNat).length = n.toNat := by
      rw [List.length_take]
      omega
    have hstart : s.ring.in_.toNat ≡ s.ring.out.toNat + queue.length
        [MOD s.ring.capacity.toNat] := h.holds.in_position
    refine ⟨queue ++ source.bytes.take n.toNat, ⟨hpower, ?_, ?_, m₀, hm₀, hsize, ?_⟩, ?_, trivial,
      h.getting.extend _, ?_⟩
    · have hcap := s.ring.capacity.isLt
      rw [List.length_append, htaken]
      unfold RingBuffer.size at hlength ⊢
      bv_omega
    · rw [List.length_append, htaken, Nat.add_comm]
      exact hn
    · rw [List.length_append, htaken, window_add, hqueue, ← window_congr_start hstart, ← hdone,
        hcopied]
    · rw [h.order, List.append_assoc]
    · intro r hr
      rcases List.mem_append.mp hr with hr | hr
      · exact h.returns r hr
      · cases List.mem_singleton.mp hr
        exact ⟨hleast, Nat.le_trans (Nat.le_add_right _ _) hn⟩
  · cases ht

theorem Ordered.getLoad (h : Ordered s queue) {size : BitVec 64} (ht : getLoad s size = some t) :
    Ordered t queue := by
  have hlength := h.holds.length
  unfold Concurrent.getLoad at ht
  split at ht
  · split at ht
    · rename_i hless
      cases ht
      have hless : size.toNat < s.ring.size.toNat := hless
      exact ⟨h.holds, h.order, h.putting, ⟨⟨Nat.min_le_left _ _, by omega⟩, Nat.zero_le _, rfl⟩,
        h.returns⟩
    · rename_i hless
      cases ht
      have hless : s.ring.size.toNat ≤ size.toNat := Nat.le_of_not_lt hless
      exact ⟨h.holds, h.order, h.putting, ⟨hless, Nat.le_of_eq hlength⟩, h.returns⟩
  · cases ht

theorem Ordered.getReload (h : Ordered s queue) (ht : getReload s = some t) :
    Ordered t queue := by
  have hlength := h.holds.length
  unfold Concurrent.getReload at ht
  split at ht
  · rename_i size found hat
    cases ht
    have hget := h.getting
    rw [hat] at hget
    obtain ⟨_, hfound⟩ := hget
    have hleast : min size.toNat found ≤ s.ring.size.toNat := by omega
    exact ⟨h.holds, h.order, h.putting, ⟨⟨hleast, Nat.le_of_eq hlength⟩, Nat.zero_le _, rfl⟩,
      h.returns⟩
  · cases ht

/-- The byte that is copied is the next of the queue. -/
theorem Ordered.getCopy (h : Ordered s queue) (ht : getCopy s = some t) : Ordered t queue := by
  unfold Concurrent.getCopy at ht
  split at ht
  · rename_i size found n copied hat
    obtain ⟨hless, ht⟩ := Option.ite_none_right_eq_some.mp ht
    obtain ⟨m, hm, ht⟩ := Option.bind_eq_some_iff.mp ht
    obtain ⟨bytes, hload, ht⟩ := Option.bind_eq_some_iff.mp ht
    cases ht
    have hget := h.getting
    rw [hat] at hget
    obtain ⟨hn, hcopied, htaken⟩ := hget
    obtain ⟨hpower, hlength, hbound, m₀, hm₀, hsize, hqueue⟩ := h.holds
    obtain rfl : m₀ = m := Option.some.inj (hm₀.symm.trans hm)
    unfold Storage.load at hload
    obtain ⟨_, hload⟩ := Option.ite_none_right_eq_some.mp hload
    have hnext : bytes = [m₀.bytes ((s.ring.out.toNat + copied.length) %
        s.ring.capacity.toNat : Nat)] := by
      rw [← offset_eq hpower (Nat.le_trans hn.2 hbound) hless, ← Option.some.inj hload]
      simp [Storage.read]
    have hlength : (copied ++ bytes).length = copied.length + 1 := by
      rw [List.length_append, hnext, List.length_singleton]
    refine ⟨h.holds, h.order, h.putting, ⟨hn, ?_, ?_⟩, h.returns⟩
    · rw [hlength]
      exact hless
    · have hprefix : copied = window (fun j : Nat => m₀.bytes j) s.ring.capacity.toNat
          s.ring.out.toNat copied.length := by
        rw [← window_take _ _ (Nat.le_trans hcopied hn.2), hqueue]
        exact htaken
      rw [hlength, ← hqueue, window_take _ _ (Nat.le_trans hless hn.2), window_succ, ← hprefix,
        hnext]
  · cases ht

theorem Putting.shorten {ring : RingBuffer} {producer : Producer}
    (h : Putting ring queue producer) (n : BitVec 64) :
    Putting { ring with out := ring.out + n } (queue.drop n.toNat) producer := by
  have hless : (queue.drop n.toNat).length ≤ queue.length := by
    rw [List.length_drop]
    exact Nat.sub_le _ _
  cases producer with
  | idle => trivial
  | again source found => exact ⟨h.1, Nat.le_trans (Nat.add_le_add_left hless _) h.2⟩
  | copy source found n i =>
    obtain ⟨⟨hleast, hn⟩, hrest⟩ := h
    exact ⟨⟨hleast, Nat.le_trans (Nat.add_le_add_left hless _) hn⟩, hrest⟩

/-- A store of `_out` makes the room of the bytes that are copied. -/
theorem Ordered.getStore (h : Ordered s queue) (ht : getStore s = some t) :
    ∃ queue', Ordered t queue' := by
  unfold Concurrent.getStore at ht
  split at ht
  · rename_i size found n copied hat
    obtain ⟨hdone, ht⟩ := Option.ite_none_right_eq_some.mp ht
    cases ht
    have hget := h.getting
    rw [hat] at hget
    obtain ⟨⟨hleast, hn⟩, _, htaken⟩ := hget
    rw [hdone] at htaken
    refine ⟨queue.drop n.toNat, h.holds.advance hn, ?_, ?_, trivial, ?_⟩
    · rw [h.order, htaken, List.append_assoc, List.take_append_drop]
    · exact h.putting.shorten n
    · intro r hr
      rcases List.mem_append.mp hr with hr | hr
      · exact h.returns r hr
      · cases List.mem_singleton.mp hr
        exact ⟨hleast, Nat.le_trans hn h.holds.bound⟩
  · cases ht

theorem ordered_step (h : ∃ queue, Ordered s queue) {a : Act} (ht : step s a = some t) :
    ∃ queue, Ordered t queue := by
  obtain ⟨queue, h⟩ := h
  cases a with
  | putLoad source => exact ⟨queue, h.putLoad ht⟩
  | putReload => exact ⟨queue, h.putReload ht⟩
  | putCopy => exact ⟨queue, h.putCopy ht⟩
  | putStore => exact h.putStore ht
  | getLoad size => exact ⟨queue, h.getLoad ht⟩
  | getReload => exact ⟨queue, h.getReload ht⟩
  | getCopy => exact ⟨queue, h.getCopy ht⟩
  | getStore => exact h.getStore ht

theorem ordered_start {capacity : BitVec 64} {junk : Int → UInt8} {ring : RingBuffer}
    (hc : create capacity junk = some ring) (ha : ring.buffer ≠ none) :
    Ordered (start ring) [] where
  holds := holds_create hc ha
  order := rfl
  putting := trivial
  getting := trivial
  returns r hr := by cases hr

end

/-- The bytes are delivered in the order they are accepted, none lost and none twice, those
in between lie in the ring, and a call moves no less than it found at its first load. -/
structure InOrder (s : Shared) : Prop where
  order : ∃ queue, s.ring.Holds queue ∧ s.accepted = s.delivered ++ queue
  returns : ∀ r ∈ s.returns, min r.asked r.found ≤ r.moved ∧ r.moved ≤ s.ring.capacity.toNat

/-- Two threads need no lock: however the steps of a put and of a get come between each
other, the ring is a queue. -/
theorem in_order_between_threads {capacity : BitVec 64} {junk : Int → UInt8} {ring : RingBuffer}
    {s : Shared} {as : List Act} (hc : create capacity junk = some ring)
    (ha : ring.buffer ≠ none) (hrun : run step (start ring) as = some s) : InOrder s := by
  obtain ⟨queue, h⟩ := @invariant _ _ _ (fun s => ∃ queue, Ordered s queue)
    (fun _ _ _ h ht => ordered_step h ht) _ _ _ ⟨[], ordered_start hc ha⟩ hrun
  exact ⟨⟨queue, h.holds, h.order⟩, h.returns⟩

/-- A put of five bytes into four cells while a get of two makes room, and a get that
goes on behind the end of the storage. -/
def acrossTheEnd : List Act :=
  [.putLoad (.ofBytes [1, 2, 3]), .putCopy, .putCopy, .putCopy, .putStore, .getLoad 2,
    .putLoad (.ofBytes [4, 5, 6, 7, 8]), .getCopy, .getCopy, .getStore, .putReload, .putCopy,
    .getLoad 9, .putCopy, .getReload, .putCopy, .putStore, .getCopy, .getStore, .getLoad 3,
    .getReload, .getCopy, .getCopy, .getCopy, .getStore]

def fourCells : RingBuffer := ⟨some ⟨4, fun _ => 0⟩, 4, 0, 0⟩

theorem across_the_end_in_order : ∃ s, run step (start fourCells) acrossTheEnd = some s ∧
    s.delivered = [1, 2, 3, 4, 5, 6] ∧ InOrder s := by
  have hcreate : create 4 (fun _ => 0) = some fourCells := rfl
  obtain ⟨s, hrun⟩ : ∃ s, run step (start fourCells) acrossTheEnd = some s := ⟨_, rfl⟩
  refine ⟨s, hrun, ?_, in_order_between_threads hcreate nofun hrun⟩
  cases hrun
  rfl

structure Within (s : Shared) : Prop where
  put : ∀ source found n i, s.producer = .copy source found n i → n.toNat ≤ source.size.toNat
  get : ∀ size found n copied, s.consumer = .copy size found n copied → n.toNat ≤ size.toNat
  returns : ∀ r ∈ s.returns, r.moved ≤ r.asked

/-- The calls can go on as well: each byte is copied from the caller's memory into the
storage, or from there. -/
structure Safe (s : Shared) : Prop extends Within s where
  putGoesOn : s.producer = .idle ∨ ∃ a ∈ [Act.putReload, .putCopy, .putStore], (step s a).isSome
  getGoesOn : s.consumer = .idle ∨ ∃ a ∈ [Act.getReload, .getCopy, .getStore], (step s a).isSome

def Producer.asks : Producer → Option (BitVec 64)
  | .again source _ => some source.size
  | _ => none

def Consumer.asks : Consumer → Option (BitVec 64)
  | .again size _ => some size
  | _ => none

/-- The second load finds no more than was asked for. -/
def Modest (s : Shared) : Act → Prop
  | .putReload => ∀ size ∈ s.producer.asks, (room s.ring).toNat ≤ size.toNat
  | .getReload => ∀ size ∈ s.consumer.asks, s.ring.size.toNat ≤ size.toNat
  | _ => True

instance (s : Shared) : ∀ a, Decidable (Modest s a)
  | .putReload => inferInstanceAs (Decidable (∀ size ∈ s.producer.asks, _))
  | .getReload => inferInstanceAs (Decidable (∀ size ∈ s.consumer.asks, _))
  | .putLoad _ | .putCopy | .putStore | .getLoad _ | .getCopy | .getStore => isTrue trivial

section

variable {s t : Shared} {queue : List UInt8}

theorem offset_inside (h : s.ring.Holds queue) {x n : BitVec 64}
    (hn : n.toNat ≤ s.ring.capacity.toNat) {i : Nat} (hi : i < n.toNat) {m : Storage}
    (hm : s.ring.buffer = some m) : offset s.ring.capacity x n i + 1 ≤ m.size := by
  obtain ⟨hpower, _, _, m₀, hm₀, hsize, _⟩ := h
  obtain rfl : m₀ = m := Option.some.inj (hm₀.symm.trans hm)
  rw [hsize, offset_eq hpower hn hi]
  exact Nat.mod_lt _ (Nat.pos_of_isPowerOfTwo hpower)

theorem Ordered.put_goes_on (h : Ordered s queue) (hw : Within s) :
    s.producer = .idle ∨ ∃ a ∈ [Act.putReload, .putCopy, .putStore], (step s a).isSome := by
  have hput := h.putting
  cases hat : s.producer with
  | idle => exact Or.inl rfl
  | again source found =>
    exact Or.inr ⟨.putReload, by simp, by simp [step, Concurrent.putReload, hat]⟩
  | copy source found n i =>
    rw [hat] at hput
    obtain ⟨⟨_, hn⟩, ⟨hle, _⟩, m, hm, _⟩ := hput
    have hasked := hw.put source found n i hat
    have hfits := source.fits
    rcases Nat.lt_or_eq_of_le hle with hi | hi
    · have hread : i < source.bytes.length := by omega
      have hinside := offset_inside h.holds (x := s.ring.in_) (by omega) hi hm
      have hstore : m.store (offset s.ring.capacity s.ring.in_ n i) [source.bytes[i]] = some _ :=
        Storage.store_of_le hinside
      refine Or.inr ⟨.putCopy, by simp, ?_⟩
      simp [step, Concurrent.putCopy, hat, hi, hm, hread, hstore]
    · exact Or.inr ⟨.putStore, by simp, by simp [step, Concurrent.putStore, hat, hi]⟩

theorem Ordered.get_goes_on (h : Ordered s queue) :
    s.consumer = .idle ∨ ∃ a ∈ [Act.getReload, .getCopy, .getStore], (step s a).isSome := by
  have hget := h.getting
  cases hat : s.consumer with
  | idle => exact Or.inl rfl
  | again size found =>
    exact Or.inr ⟨.getReload, by simp, by simp [step, Concurrent.getReload, hat]⟩
  | copy size found n copied =>
    rw [hat] at hget
    obtain ⟨⟨_, hn⟩, hle, _⟩ := hget
    obtain ⟨m, hm, _⟩ := h.holds.stored
    rcases Nat.lt_or_eq_of_le hle with hless | hdone
    · have hinside := offset_inside h.holds (x := s.ring.out) (Nat.le_trans hn h.holds.bound)
        hless hm
      have hload := Storage.load_of_le hinside
      refine Or.inr ⟨.getCopy, by simp, ?_⟩
      simp [step, Concurrent.getCopy, hat, hless, hm, hload]
    · exact Or.inr ⟨.getStore, by simp, by simp [step, Concurrent.getStore, hat, hdone]⟩

theorem within_return {returns : List Return} {asked found moved : Nat}
    (h : ∀ r ∈ returns, r.moved ≤ r.asked) (hmoved : moved ≤ asked) :
    ∀ r ∈ returns ++ [⟨asked, found, moved⟩], r.moved ≤ r.asked := by
  intro r hr
  rcases List.mem_append.mp hr with hr | hr
  · exact h r hr
  · cases List.mem_singleton.mp hr
    exact hmoved

theorem Within.step_iff (h : Within s) {a : Act} (ht : step s a = some t) :
    Within t ↔ Modest s a := by
  cases a with
  | putLoad source =>
    refine iff_of_true ?_ trivial
    simp only [step, putLoad] at ht
    split at ht
    · split at ht <;> cases ht
      · refine ⟨fun _ _ _ _ he => ?_, h.get, h.returns⟩
        cases he
        exact Nat.le_refl _
      · exact ⟨fun _ _ _ _ he => (by cases he), h.get, h.returns⟩
    · cases ht
  | putReload =>
    simp only [step, putReload] at ht
    split at ht
    · rename_i source found hat
      cases ht
      have hasks : s.producer.asks = some source.size := by rw [hat, Producer.asks]
      constructor
      · intro hw size hsize
        cases hasks.symm.trans hsize
        exact hw.put _ _ _ _ rfl
      · intro hmodest
        refine ⟨fun _ _ _ _ he => ?_, h.get, h.returns⟩
        cases he
        exact hmodest _ hasks
    · cases ht
  | putCopy =>
    refine iff_of_true ?_ trivial
    simp only [step, putCopy] at ht
    split at ht
    · rename_i source found n i hat
      obtain ⟨_, ht⟩ := Option.ite_none_right_eq_some.mp ht
      obtain ⟨_, _, ht⟩ := Option.bind_eq_some_iff.mp ht
      obtain ⟨_, _, ht⟩ := Option.bind_eq_some_iff.mp ht
      obtain ⟨_, _, ht⟩ := Option.bind_eq_some_iff.mp ht
      cases ht
      refine ⟨fun _ _ _ _ he => ?_, h.get, h.returns⟩
      cases he
      exact h.put _ _ _ _ hat
    · cases ht
  | putStore =>
    refine iff_of_true ?_ trivial
    simp only [step, putStore] at ht
    split at ht
    · rename_i source found n i hat
      obtain ⟨_, ht⟩ := Option.ite_none_right_eq_some.mp ht
      cases ht
      exact ⟨fun _ _ _ _ he => (by cases he), h.get, within_return h.returns (h.put _ _ _ _ hat)⟩
    · cases ht
  | getLoad size =>
    refine iff_of_true ?_ trivial
    simp only [step, getLoad] at ht
    split at ht
    · split at ht <;> cases ht
      · refine ⟨h.put, fun _ _ _ _ he => ?_, h.returns⟩
        cases he
        exact Nat.le_refl _
      · exact ⟨h.put, fun _ _ _ _ he => (by cases he), h.returns⟩
    · cases ht
  | getReload =>
    simp only [step, getReload] at ht
    split at ht
    · rename_i size found hat
      cases ht
      have hasks : s.consumer.asks = some size := by rw [hat, Consumer.asks]
      constructor
      · intro hw size hsize
        cases hasks.symm.trans hsize
        exact hw.get _ _ _ _ rfl
      · intro hmodest
        refine ⟨h.put, fun _ _ _ _ he => ?_, h.returns⟩
        cases he
        exact hmodest _ hasks
    · cases ht
  | getCopy =>
    refine iff_of_true ?_ trivial
    simp only [step, getCopy] at ht
    split at ht
    · rename_i size found n copied hat
      obtain ⟨_, ht⟩ := Option.ite_none_right_eq_some.mp ht
      obtain ⟨_, _, ht⟩ := Option.bind_eq_some_iff.mp ht
      obtain ⟨_, _, ht⟩ := Option.bind_eq_some_iff.mp ht
      cases ht
      refine ⟨h.put, fun _ _ _ _ he => ?_, h.returns⟩
      cases he
      exact h.get _ _ _ _ hat
    · cases ht
  | getStore =>
    refine iff_of_true ?_ trivial
    simp only [step, getStore] at ht
    split at ht
    · rename_i size found n copied hat
      obtain ⟨_, ht⟩ := Option.ite_none_right_eq_some.mp ht
      cases ht
      exact ⟨h.put, fun _ _ _ _ he => (by cases he), within_return h.returns (h.get _ _ _ _ hat)⟩
    · cases ht

end

/-- A call never moves more than it was asked for, and reads and writes nothing outside of
the storage and its caller's memory, exactly if the second load of the other thread's
counter never finds more than was asked for. -/
theorem safe_iff_modest {capacity : BitVec 64} {junk : Int → UInt8} {ring : RingBuffer}
    (hc : create capacity junk = some ring) (ha : ring.buffer ≠ none) (as : List Act) :
    Always step Safe (start ring) as ↔ Throughout step Modest (start ring) as := by
  have hsafe : ∀ s, (∃ queue, Ordered s queue) → (Within s ↔ Safe s) := fun s h => by
    obtain ⟨queue, h⟩ := h
    exact ⟨fun hw => ⟨hw, h.put_goes_on hw, h.get_goes_on⟩, Safe.toWithin⟩
  have hordered : ∃ queue, Ordered (start ring) queue := ⟨[], ordered_start hc ha⟩
  have hwithin : Within (start ring) :=
    ⟨fun _ _ _ _ he => (by cases he), fun _ _ _ _ he => (by cases he), fun _ hr => (by cases hr)⟩
  refine @always_iff_throughout _ _ _ (fun s => ∃ queue, Ordered s queue) _ _
    (fun _ _ _ h _ _ ht => ordered_step h ht) ?_ _ hordered ((hsafe _ hordered).mp hwithin) as
  intro s a t h hs ht
  rw [← hsafe t (ordered_step h ht)]
  exact hs.toWithin.step_iff ht

/-- A get of one byte finds none, and then three when it looks again. -/
def threeForOne : List Act :=
  [.getLoad 1, .putLoad (.ofBytes [1, 2, 3]), .putCopy, .putCopy, .putCopy, .putStore]

theorem three_for_one_unsafe :
    ¬ Always step Safe (start fourCells) (threeForOne ++ [.getReload]) := by
  have hcreate : create 4 (fun _ => 0) = some fourCells := rfl
  obtain ⟨s, hrun⟩ : ∃ s, run step (start fourCells) threeForOne = some s := ⟨_, rfl⟩
  intro h
  have hmodest := (safe_iff_modest hcreate nofun _).mp h
  cases hrun
  exact absurd (hmodest.at_step rfl rfl 1 rfl) (by decide)

end Awe.RingBuffer.Concurrent
