import Awe.RingArray.Delivery

namespace Awe.RingArray.Delivery
open Machine

/-- The same state to a consumer that has been given other blocks. -/
def given (s : State) (delivered : List (List UInt8)) : State := { s with delivered := delivered }

/-- What a new ring comes to: it counts every block ever written, takes no more than fit,
keeps each in the cell it was written to, and each block read is the first one again. -/
structure Stuck (s : State) : Prop where
  size : s.ring.size = s.written.length
  full : (s.written.length : Int) ≤ s.ring.capacity
  kept : ∀ i < s.written.length, s.ring.cell i = s.written[i]?
  first : ∀ data ∈ s.delivered, s.written[0]? = some data

structure Holding (s : State) : Prop extends AtZero s where
  good : Good (given s [])
  first : ∀ data ∈ s.delivered, s.written[0]? = some data

/-- Only the finish of a read looks at what has been delivered. -/
theorem step_given {a : Act} (ha : a ≠ .readFinish) (s : State)
    (delivered : List (List UInt8)) :
    step (given s delivered) a = (step s a).map (fun t => given t delivered) := by
  obtain ⟨ring, producer, consumer, written, old⟩ := s
  unfold given
  cases a with
  | writeReady =>
    cases producer with
    | idle =>
      simp only [step]
      rcases ring.writeReady with ⟨w, _ | off⟩
      · rfl
      · dsimp only
        split <;> rfl
    | ready | filled => rfl
  | readReady =>
    cases consumer with
    | idle =>
      simp only [step]
      rcases ring.readReady with ⟨r, _ | off⟩
      · rfl
      · dsimp only
        split <;> rfl
    | ready | done => rfl
  | fill data =>
    cases producer with
    | ready w off =>
      simp only [step]
      by_cases hlen : data.length = ring.blockSize.toNat
      · rw [if_pos hlen, if_pos hlen, Option.map_map]
        rfl
      · rw [if_neg hlen, if_neg hlen]
        rfl
    | idle | filled => rfl
  | writeFinish => cases producer <;> rfl
  | read =>
    cases consumer with
    | ready r off =>
      simp only [step]
      rw [Option.map_map]
      rfl
    | idle | done => rfl
  | readFinish => exact absurd rfl ha

theorem written_grows {s t : State} {a : Act} (ht : step s a = some t) :
    s.written <+: t.written := by
  cases a with
  | fill data =>
    simp only [step] at ht
    split at ht
    · split at ht
      · obtain ⟨ring, _, rfl⟩ := Option.map_eq_some_iff.mp ht
        exact List.prefix_rfl
      · cases ht
    · cases ht
  | read =>
    simp only [step] at ht
    split at ht
    · obtain ⟨data, _, rfl⟩ := Option.map_eq_some_iff.mp ht
      exact List.prefix_rfl
    · cases ht
  | writeFinish | readFinish =>
    simp only [step] at ht
    split at ht <;> cases ht
    first | exact List.prefix_rfl | exact List.prefix_append _ _
  | writeReady | readReady =>
    simp only [step] at ht
    repeat' first | split at ht | cases ht
    all_goals exact List.prefix_rfl

/-- No step before the finish of a read looks back further than the first block. -/
theorem Holding.other {s t : State} {a : Act} (h : Holding s) (ha : a ≠ .readFinish)
    (ht : step s a = some t) : Holding t := by
  have hgood : step (given s []) a = some (given t []) := by
    rw [step_given ha, ht]
    rfl
  have hsame : step s a = (step s a).map (fun t => given t s.delivered) :=
    step_given ha s s.delivered
  rw [ht, Option.map_some, Option.some.injEq] at hsame
  have hdelivered : t.delivered = s.delivered := by
    rw [hsame]
    rfl
  have hnot : NotIndexZero (given s []) a := by
    cases a <;> trivial
  refine ⟨h.toAtZero.step ht, h.good.step hnot hgood, ?_⟩
  rw [hdelivered]
  intro data hdata
  obtain ⟨rest, hrest⟩ := written_grows ht
  rw [← hrest, List.getElem?_append_left]
  · exact h.first data hdata
  · exact (List.getElem?_eq_some_iff.mp (h.first data hdata)).1

theorem Holding.readFinish {s t : State} (h : Holding s) (ht : step s .readFinish = some t) :
    Holding t := by
  have hzero := h.toAtZero.step ht
  have hc := h.good.consumer
  have hr := h.consumer
  simp only [step, given] at ht hc
  split at ht
  · rename_i r data hdone
    cases ht
    rw [hdone] at hr hc
    obtain ⟨-, hfirst, hpos⟩ := hc
    have hring : s.ring.readFinish r = s.ring := by rw [RingArray.readFinish, if_pos (by omega)]
    refine ⟨hzero, ?_, ?_⟩
    · simp only [given, hring]
      exact { h.good with consumer := trivial }
    · intro d hd
      rcases List.mem_append.mp hd with hd | hd
      · exact h.first d hd
      · cases List.mem_singleton.mp hd
        exact hfirst
  · cases ht

theorem Holding.step {s t : State} {a : Act} (h : Holding s) (ht : step s a = some t) :
    Holding t := by
  by_cases ha : a = .readFinish
  · subst a
    exact h.readFinish ht
  · exact h.other ha ht

theorem Holding.stuck {s : State} (h : Holding s) : Stuck s := by
  have hcount : s.ring.nmemb = s.written.length := by
    simpa [given] using h.good.count
  refine ⟨hcount, hcount ▸ h.good.nmemb.2, fun i hi => ?_, h.first⟩
  have hstored := h.good.stored i (by simp only [given]; omega)
  have hroom := h.good.nmemb.2
  simp only [given, h.rindex, Int.zero_add, List.length_nil, Nat.zero_add] at hstored hroom
  rwa [Int.emod_eq_of_lt (by omega) (by omega)] at hstored

/-- Whatever its two users do, a new ring takes `capacity` blocks and never another, and
gives the first of them to every read. -/
theorem new_ring_sticks {blockSize capacity : Int} {ring : RingArray}
    (hc : create blockSize capacity = some ring) (fits : blockSize * capacity ≤ INT_MAX - 32)
    (as : List Act) (s : State) (hr : run step (start ring) as = some s) : Stuck s := by
  obtain ⟨hs, hn, hrindex, hwindex⟩ := create_sized hc fits
  have hinside : 0 ≤ ring.rindex ∧ ring.rindex < ring.capacity := by
    rw [hrindex]
    exact ⟨Int.le_refl 0, hs.capacity⟩
  have hstart : Holding (start ring) :=
    ⟨⟨hrindex, trivial⟩, good_start hs hn hinside (hwindex.trans hrindex.symm), by simp [start]⟩
  exact (Machine.invariant (fun _ _ _ h ht => Holding.step h ht) hstart hr).stuck

def firstTwice : List Act :=
  [.writeReady, .fill [7], .writeFinish, .readReady, .read, .writeReady, .readFinish, .fill [8],
    .writeFinish, .readReady, .read, .readFinish, .writeReady]

theorem second_never_read : ∃ ring s, create 1 2 = some ring ∧
    run step (start ring) firstTwice = some s ∧ Stuck s ∧ s.written = [[7], [8]] ∧
    s.delivered = [[7], [7]] :=
  have hfits : (1 : Int) * 2 ≤ INT_MAX - 32 := by decide
  ⟨_, _, rfl, rfl, new_ring_sticks rfl hfits firstTwice _ rfl, rfl, rfl⟩

end Awe.RingArray.Delivery
