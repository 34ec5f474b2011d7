import Awe.Lib.Cycle
import Awe.LinkedList.Model

namespace Awe.LinkedList

variable {π ω : Type}

theorem next_eq_none {m : LinkedList π} {p : Ptr} : m.next p = none ↔ m.prev p = none := by
  simp [next, prev]

theorem links_of_next {m : LinkedList π} {p : Ptr} (h : m.next p ≠ none) :
    ∃ l, m.links p = some l := by
  simpa [next, Option.ne_none_iff_exists'] using h

theorem setNext_spec {m : LinkedList π} (p v : Ptr) (h : m.next p ≠ none) :
    ∃ m', m.setNext p v = some m' ∧ m'.next = Function.update m.next p (some v) ∧
      m'.prev = m.prev ∧ m'.object = m.object ∧ m'.lists = m.lists := by
  obtain ⟨l, hl⟩ := links_of_next h
  refine ⟨_, Option.map_eq_some_iff.mpr ⟨l, hl, rfl⟩, ?_, ?_, rfl, rfl⟩
  · funext q
    by_cases hq : q = p
    · subst hq
      simp [next]
    · simp [next, hq]
  · funext q
    by_cases hq : q = p
    · subst hq
      simp [prev, hl]
    · simp [prev, hq]

theorem setPrev_spec {m : LinkedList π} (p v : Ptr) (h : m.next p ≠ none) :
    ∃ m', m.setPrev p v = some m' ∧ m'.prev = Function.update m.prev p (some v) ∧
      m'.next = m.next ∧ m'.object = m.object ∧ m'.lists = m.lists := by
  obtain ⟨l, hl⟩ := links_of_next h
  refine ⟨_, Option.map_eq_some_iff.mpr ⟨l, hl, rfl⟩, ?_, ?_, rfl, rfl⟩
  · funext q
    by_cases hq : q = p
    · subst hq
      simp [prev]
    · simp [prev, hq]
  · funext q
    by_cases hq : q = p
    · subst hq
      simp [next, hl]
    · simp [next, hq]

theorem update_ne_none {f : Ptr → Option Ptr} {p q v : Ptr} (h : f q ≠ none) :
    Function.update f p (some v) q ≠ none := by
  by_cases hq : q = p
  · simp [hq]
  · rwa [Function.update_of_ne hq]

theorem listAddTail_spec {m : LinkedList π} {node head p : Ptr} (hp : m.prev head = some p)
    (hnode : m.next node ≠ none) (hpn : m.next p ≠ none) :
    ∃ m', m.listAddTail node head = some m' ∧
      m'.next = Function.update (Function.update m.next node (some head)) p (some node) ∧
      m'.prev = Function.update (Function.update m.prev head (some node)) node (some p) ∧
      m'.object = m.object ∧ m'.lists = m.lists := by
  have hhead : m.next head ≠ none := by simp [next_eq_none, hp]
  obtain ⟨m1, h1, hv1, hn1, ho1, hl1⟩ := setPrev_spec head node hhead
  obtain ⟨m2, h2, hn2, hv2, ho2, hl2⟩ := setNext_spec node head (by rwa [hn1])
  obtain ⟨m3, h3, hv3, hn3, ho3, hl3⟩ := setPrev_spec (m := m2) node p (by simp [hn2])
  obtain ⟨m4, h4, hn4, hv4, ho4, hl4⟩ := setNext_spec p node
    (by rw [hn3, hn2, hn1]; exact update_ne_none hpn)
  refine ⟨m4, ?_, ?_, ?_, by rw [ho4, ho3, ho2, ho1], by rw [hl4, hl3, hl2, hl1]⟩
  · simp only [listAddTail, listAdd, hp, h1, h2, h3, h4, Option.bind_eq_bind, Option.bind_some]
  · rw [hn4, hn3, hn2, hn1]
  · rw [hv4, hv3, hv2, hv1]

theorem listDel_spec {m : LinkedList π} {entry p s : Ptr} (hp : m.prev entry = some p)
    (hs : m.next entry = some s) (hpn : m.next p ≠ none) (hsn : m.next s ≠ none) :
    ∃ m', m.listDel entry = some m' ∧
      m'.next = Function.update (Function.update m.next p (some s)) entry (some NULL) ∧
      m'.prev = Function.update (Function.update m.prev s (some p)) entry (some NULL) ∧
      m'.object = m.object ∧ m'.lists = m.lists := by
  obtain ⟨m1, h1, hv1, hn1, ho1, hl1⟩ := setPrev_spec s p hsn
  obtain ⟨m2, h2, hn2, hv2, ho2, hl2⟩ := setNext_spec p s (by rwa [hn1])
  have hentry : m2.next entry ≠ none := by
    rw [hn2, hn1]
    exact update_ne_none (by simp [hs])
  obtain ⟨m3, h3, hn3, hv3, ho3, hl3⟩ := setNext_spec entry NULL hentry
  obtain ⟨m4, h4, hv4, hn4, ho4, hl4⟩ := setPrev_spec (m := m3) entry NULL (by simp [hn3])
  refine ⟨m4, ?_, ?_, ?_, by rw [ho4, ho3, ho2, ho1], by rw [hl4, hl3, hl2, hl1]⟩
  · simp only [listDel, hp, hs, h1, h2, h3, h4, Option.bind_eq_bind, Option.bind_some]
  · rw [hn4, hn3, hn2, hn1]
  · rw [hv4, hv3, hv2, hv1]

section Loops
open Cycle

variable {σ ρ : Type} {links : σ → Ptr → Option Ptr} {body : σ → Ptr → Option (σ ⊕ ρ)}
  {back : Ptr → Option Ptr} {head : Ptr} {s : σ}

/-- A safe loop that skips `front` and returns at `x`. -/
theorem forEachSafe_return {front rear : List Ptr} {x : Ptr} {r : ρ} {fuel : Nat}
    (hseg : Seg (links s) back head (front ++ x :: rear) head) (hhead : head ∉ front ++ [x])
    (hskip : ∀ y ∈ front, body s y = some (.inl s)) (hbody : body s x = some (.inr r))
    (hfuel : front.length < fuel) : forEachSafe fuel links head s body = some (.inr r) := by
  have hloop : ∀ (front : List Ptr) (a : Ptr) (fuel : Nat),
      Seg (links s) back a (front ++ x :: rear) head → head ∉ front ++ [x] →
      (∀ y ∈ front, body s y = some (.inl s)) → front.length < fuel →
      ∃ pos n, links s a = some pos ∧ links s pos = some n ∧
        forEachSafeLoop links body head fuel s pos n = some (.inr r) := by
    intro front
    induction front with
    | nil =>
      intro a fuel hseg hhead _ hfuel
      obtain ⟨fuel, rfl⟩ := Nat.exists_eq_succ_of_ne_zero (Nat.ne_of_gt hfuel)
      obtain ⟨n, hn, _⟩ := Seg.next_start hseg.2.2
      have hne : x ≠ head := by
        intro heq
        subst heq
        simp at hhead
      exact ⟨x, n, hseg.1, hn, by simp [forEachSafeLoop, hne, hbody]⟩
    | cons y front ih =>
      intro a fuel hseg hhead hskip hfuel
      obtain ⟨fuel, rfl⟩ := Nat.exists_eq_succ_of_ne_zero (Nat.ne_of_gt (Nat.zero_lt_of_lt hfuel))
      simp only [List.cons_append, List.mem_cons, not_or] at hhead
      obtain ⟨pos, n, hpos, hn, hrest⟩ := ih y fuel hseg.2.2 hhead.2
        (fun z hz => hskip z (List.mem_cons_of_mem _ hz)) (by simpa using hfuel)
      refine ⟨y, pos, hseg.1, hpos, ?_⟩
      simp [forEachSafeLoop, Ne.symm hhead.1, hskip y (by simp), hn, hrest]
  obtain ⟨pos, n, hpos, hn, hrun⟩ := hloop front head fuel hseg hhead hskip hfuel
  simp [forEachSafe, hpos, hn, hrun]

/-- A safe loop that skips every place. -/
theorem forEachSafe_skip {xs : List Ptr} {fuel : Nat}
    (hseg : Seg (links s) back head xs head) (hhead : head ∉ xs)
    (hskip : ∀ y ∈ xs, body s y = some (.inl s)) (hfuel : xs.length < fuel) :
    forEachSafe fuel links head s body = some (.inl s) := by
  have hloop : ∀ (xs : List Ptr) (a : Ptr) (fuel : Nat), Seg (links s) back a xs head →
      head ∉ xs → (∀ y ∈ xs, body s y = some (.inl s)) → xs.length < fuel →
      ∃ pos n, links s a = some pos ∧ links s pos = some n ∧
        forEachSafeLoop links body head fuel s pos n = some (.inl s) := by
    intro xs
    induction xs with
    | nil =>
      intro a fuel ha _ _ hfuel
      obtain ⟨fuel, rfl⟩ := Nat.exists_eq_succ_of_ne_zero (Nat.ne_of_gt hfuel)
      obtain ⟨n, hn, _⟩ := hseg.next_start
      exact ⟨head, n, ha.1, hn, by simp [forEachSafeLoop]⟩
    | cons y xs ih =>
      intro a fuel ha hhead hskip hfuel
      obtain ⟨fuel, rfl⟩ := Nat.exists_eq_succ_of_ne_zero (Nat.ne_of_gt (Nat.zero_lt_of_lt hfuel))
      simp only [List.mem_cons, not_or] at hhead
      obtain ⟨pos, n, hpos, hn, hrest⟩ := ih y fuel ha.2.2 hhead.2
        (fun z hz => hskip z (List.mem_cons_of_mem _ hz)) (by simpa using hfuel)
      refine ⟨y, pos, ha.1, hpos, ?_⟩
      simp [forEachSafeLoop, Ne.symm hhead.1, hskip y (by simp), hn, hrest]
  obtain ⟨pos, n, hpos, hn, hrun⟩ := hloop xs head fuel hseg hhead hskip hfuel
  simp [forEachSafe, hpos, hn, hrun]

/-- A loop that passes `front`, counting along, and returns at `x`. -/
theorem forEach_return (state : Nat → σ) {next : Ptr → Option Ptr} {front rear : List Ptr}
    {x : Ptr} {r : ρ} {fuel : Nat} (hseg : Seg next back head (front ++ x :: rear) head)
    (hhead : head ∉ front ++ [x])
    (hskip : ∀ k y, front[k]? = some y → body (state k) y = some (.inl (state (k + 1))))
    (hbody : body (state front.length) x = some (.inr r)) (hfuel : front.length < fuel) :
    forEach fuel (fun _ => next) head (state 0) body = some (.inr r) := by
  have hloop : ∀ (front : List Ptr) (a : Ptr) (k fuel : Nat),
      Seg next back a (front ++ x :: rear) head → head ∉ front ++ [x] →
      (∀ i y, front[i]? = some y → body (state (k + i)) y = some (.inl (state (k + i + 1)))) →
      body (state (k + front.length)) x = some (.inr r) → front.length < fuel →
      ∃ pos, next a = some pos ∧
        forEachLoop (fun _ => next) body head fuel (state k) pos = some (.inr r) := by
    intro front
    induction front with
    | nil =>
      intro a k fuel hseg hhead _ hbody hfuel
      obtain ⟨fuel, rfl⟩ := Nat.exists_eq_succ_of_ne_zero (Nat.ne_of_gt hfuel)
      have hne : x ≠ head := by
        intro heq
        subst heq
        simp at hhead
      exact ⟨x, hseg.1, by simp [forEachLoop, hne, show body (state k) x = _ from hbody]⟩
    | cons y front ih =>
      intro a k fuel hseg hhead hskip hbody hfuel
      obtain ⟨fuel, rfl⟩ := Nat.exists_eq_succ_of_ne_zero (Nat.ne_of_gt (Nat.zero_lt_of_lt hfuel))
      simp only [List.cons_append, List.mem_cons, not_or] at hhead
      rw [List.length_cons, show k + (front.length + 1) = k + 1 + front.length by omega] at hbody
      have hlater : ∀ i z, front[i]? = some z →
          body (state (k + 1 + i)) z = some (.inl (state (k + 1 + i + 1))) := by
        intro i z hz
        have := hskip (i + 1) z hz
        rwa [show k + (i + 1) = k + 1 + i by omega] at this
      obtain ⟨pos, hpos, hrest⟩ := ih y (k + 1) fuel hseg.2.2 hhead.2 hlater hbody
        (by simpa using hfuel)
      have hy : body (state k) y = some (.inl (state (k + 1))) := hskip 0 y rfl
      exact ⟨y, hseg.1, by simp [forEachLoop, Ne.symm hhead.1, hy, hpos, hrest]⟩
  obtain ⟨pos, hpos, hrun⟩ := hloop front head 0 fuel hseg hhead
    (by simpa using hskip) (by simpa using hbody) hfuel
  simp [forEach, hpos, hrun]

/-- A loop that passes every place, counting along. -/
theorem forEach_skip (state : Nat → σ) {next : Ptr → Option Ptr} {xs : List Ptr} {fuel : Nat}
    (hseg : Seg next back head xs head) (hhead : head ∉ xs)
    (hskip : ∀ k y, xs[k]? = some y → body (state k) y = some (.inl (state (k + 1))))
    (hfuel : xs.length < fuel) :
    forEach fuel (fun _ => next) head (state 0) body = some (.inl (state xs.length)) := by
  have hloop : ∀ (xs : List Ptr) (a : Ptr) (k fuel : Nat), Seg next back a xs head → head ∉ xs →
      (∀ i y, xs[i]? = some y → body (state (k + i)) y = some (.inl (state (k + i + 1)))) →
      xs.length < fuel →
      ∃ pos, next a = some pos ∧ forEachLoop (fun _ => next) body head fuel (state k) pos =
        some (.inl (state (k + xs.length))) := by
    intro xs
    induction xs with
    | nil =>
      intro a k fuel hseg _ _ hfuel
      obtain ⟨fuel, rfl⟩ := Nat.exists_eq_succ_of_ne_zero (Nat.ne_of_gt hfuel)
      exact ⟨head, hseg.1, by simp [forEachLoop]⟩
    | cons y xs ih =>
      intro a k fuel hseg hhead hskip hfuel
      obtain ⟨fuel, rfl⟩ := Nat.exists_eq_succ_of_ne_zero (Nat.ne_of_gt (Nat.zero_lt_of_lt hfuel))
      simp only [List.mem_cons, not_or] at hhead
      have hlater : ∀ i z, xs[i]? = some z →
          body (state (k + 1 + i)) z = some (.inl (state (k + 1 + i + 1))) := by
        intro i z hz
        have := hskip (i + 1) z hz
        rwa [show k + (i + 1) = k + 1 + i by omega] at this
      obtain ⟨pos, hpos, hrest⟩ := ih y (k + 1) fuel hseg.2.2 hhead.2 hlater
        (by simpa using hfuel)
      have hy : body (state k) y = some (.inl (state (k + 1))) := hskip 0 y rfl
      rw [List.length_cons, show k + (xs.length + 1) = k + 1 + xs.length by omega]
      exact ⟨y, hseg.1, by simp [forEachLoop, Ne.symm hhead.1, hy, hpos, hrest]⟩
  obtain ⟨pos, hpos, hrun⟩ := hloop xs head 0 fuel hseg hhead (by simpa using hskip) hfuel
  simp [forEach, hpos, hrun]

end Loops

end Awe.LinkedList
