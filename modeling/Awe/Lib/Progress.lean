import Awe.Lib.Machine
import Mathlib.Algebra.Order.Group.Nat
import Mathlib.Algebra.Ring.Nat

namespace Machine

variable {σ α : Type*} {step : σ → α → Option σ}

/-- How steps that meet `p` get a machine to its `goal`, by an invariant and a rank: `work`
lowers the rank, and what others do in between raises it by their `delay` at most. -/
structure Progress (step : σ → α → Option σ) (inv : σ → Prop) (p : σ → α → Prop)
    (goal : σ → Prop) (rank : σ → Nat) (work : α → Bool) (delay : α → Nat) : Prop where
  keep : ∀ s a m, inv s → p s a → step s a = some m → inv m
  stay : ∀ s a m, inv s → goal s → p s a → step s a = some m → goal m
  near : ∀ s a m, inv s → ¬ goal s → p s a → step s a = some m →
    goal m ∨ rank m + (work a).toNat ≤ rank s + delay a
  pos : ∀ s, inv s → ¬ goal s → 0 < rank s

variable {inv : σ → Prop} {p : σ → α → Prop} {goal : σ → Prop} {rank : σ → Nat}
  {work : α → Bool} {delay : α → Nat}

theorem countP_cons_toNat (q : α → Bool) (a : α) (as : List α) :
    (a :: as).countP q = as.countP q + (q a).toNat := by
  rw [List.countP_cons]
  cases q a <;> rfl

theorem Progress.stays (h : Progress step inv p goal rank work delay) {s t : σ} {as : List α}
    (hs : inv s) (hgoal : goal s) (hp : Throughout step p s as) (hr : run step s as = some t) :
    goal t := by
  have hkeep : ∀ s a m, inv s ∧ goal s → p s a → step s a = some m → inv m ∧ goal m :=
    fun s a m hs ha hm => ⟨h.keep s a m hs.1 ha hm, h.stay s a m hs.1 hs.2 ha hm⟩
  exact (invariant_of_steps hkeep ⟨hs, hgoal⟩ hp hr).2

/-- Work that makes up for the rank and all delays reaches the goal, whatever comes in
between. -/
theorem Progress.reaches (h : Progress step inv p goal rank work delay) {s t : σ} {as : List α}
    (hs : inv s) (hp : Throughout step p s as) (hr : run step s as = some t)
    (hwork : rank s + (as.map delay).sum ≤ as.countP work) : goal t := by
  induction as generalizing s with
  | nil =>
    cases hr
    by_contra hnot
    have hpos := h.pos _ hs hnot
    exact Nat.not_lt.mpr hwork hpos
  | cons a as ih =>
    by_cases hgoal : goal s
    · exact h.stays hs hgoal hp hr
    · obtain ⟨m, hm, hrest⟩ := run_cons.mp hr
      obtain ⟨ha, hpm⟩ := hp m hm
      have hinv := h.keep s a m hs ha hm
      rcases h.near s a m hs hgoal ha hm with hgoal | hnear
      · exact h.stays hinv hgoal hpm hrest
      · apply ih hinv hpm hrest
        have hcount : (a :: as).countP work = as.countP work + (work a).toNat :=
          countP_cons_toNat ..
        rw [List.map_cons, List.sum_cons, hcount] at hwork
        omega

/-- Steps that lower a rank are no more than it allows them, and what the others add to it. -/
theorem work_le (h : ∀ s a m, inv s → p s a → step s a = some m →
    inv m ∧ rank m + (work a).toNat ≤ rank s + delay a) {s t : σ} {as : List α} (hs : inv s)
    (hp : Throughout step p s as) (hr : run step s as = some t) :
    as.countP work + rank t ≤ rank s + (as.map delay).sum := by
  induction as generalizing s with
  | nil =>
    cases hr
    simp
  | cons a as ih =>
    obtain ⟨m, hm, hrest⟩ := run_cons.mp hr
    obtain ⟨ha, hpm⟩ := hp m hm
    obtain ⟨hinv, hrank⟩ := h s a m hs ha hm
    have hlater := ih hinv hpm hrest
    have hcount : (a :: as).countP work = as.countP work + (work a).toNat := countP_cons_toNat ..
    rw [List.map_cons, List.sum_cons, hcount]
    omega

theorem sum_toNat (q : α → Bool) (as : List α) :
    (as.map (fun a => (q a).toNat)).sum = as.countP q := by
  induction as with
  | nil => rfl
  | cons a as ih =>
    rw [List.map_cons, List.sum_cons, ih, countP_cons_toNat]
    exact Nat.add_comm _ _

end Machine
