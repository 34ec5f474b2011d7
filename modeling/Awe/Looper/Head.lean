import Awe.Looper.Execution

namespace Awe.Looper
open Machine

/-- Between the emptiness test of the first section and the second section that
relies on it. -/
def InGap (s : Looper) : Prop := s.worker = .unlocked ∧ s.started ∨ s.worker = .lock2

instance (s : Looper) : Decidable s.InGap := by unfold InGap; infer_instance

/-- Nobody clears the list between the worker's test and its use. -/
def GapUncleared (s : Looper) (a : Act) : Prop := a = .clear → ¬ s.InGap

theorem Fed.clear {s : Looper} (h : s.Fed) (hgap : ¬ s.InGap) : s.clear.Fed where
  owned := h.owned
  starting := h.starting
  unlocked hw hst := absurd (Or.inl ⟨hw, hst⟩) hgap
  lock2 hw := absurd (Or.inr hw) hgap
  safe := h.safe

theorem Fed.uncleared_step {s t : Looper} {a : Act} (h : s.Fed) (ha : s.GapUncleared a)
    (ht : s.step a = some t) : t.Fed := by
  by_cases hc : a = .clear
  · subst hc
    have ht := step_act ht
    cases ht
    exact h.clear (ha rfl)
  · exact h.step hc ht

/-- Whatever clock the second section reads, the head it takes was posted and has
not been destroyed. -/
def HeadIsTask (s : Looper) : Prop :=
  ∀ now t, s.step (.section2 now) = some t →
    ∃ task rest, s.taskList = task :: rest ∧ task.ticket ∉ s.destroyed ∧
      ∃ p, s.posted[task.ticket]? = some p ∧ task.SameWork p

theorem section2_lock {s t : Looper} {now : ClockMs} (ht : s.step (.section2 now) = some t) :
    s.worker = .lock2 := by
  cases step_effect ht with
  | same ignored => cases ignored
  | crashes here | takes here | waits here => exact here

theorem Fed.head {s : Looper} (h : s.Fed) (hacc : s.ledger.Accounted) : s.HeadIsTask := by
  intro now t ht
  have hne := h.lock2 (section2_lock ht)
  obtain ⟨task, rest, hlist⟩ := List.exists_cons_of_ne_nil hne
  have hmem : task ∈ s.taskList := by simp [hlist]
  have horigin := hacc.origin task (by simp [show task ∈ s.ledger.pending from hmem])
  refine ⟨task, rest, hlist, fun hdestroyed => ?_, horigin⟩
  have hone := hacc.count_one (hacc.ticket_lt (t := task)
    (by simp [show task ∈ s.ledger.pending from hmem]))
  have hpending : 0 < (s.ledger.pending.map TimerTask.ticket).count task.ticket :=
    List.count_pos_iff.mpr (List.mem_map.mpr ⟨task, hmem, rfl⟩)
  have hgone : 0 < s.ledger.destroyed.count task.ticket := List.count_pos_iff.mpr hdestroyed
  omega

/-- The second section on an empty list takes the list head itself. -/
theorem not_headIsTask {s : Looper} (hs : s.starting = .none) (hw : s.worker = .lock2)
    (hnil : s.taskList = []) : ¬ s.HeadIsTask := by
  intro h
  have hstep : s.step (.section2 (timeMs 0)) = some { s with worker := .crashed } := by
    simp [step, hs, act, section2, hw, hnil]
  obtain ⟨task, rest, hlist, _⟩ := h _ _ hstep
  rw [hnil] at hlist
  cases hlist

/-- Cleared in the gap, the list is empty by the time the worker takes its head, if
nobody posts before. -/
theorem gap_clear_exposed {s t : Looper} (h : s.Fed) (hgap : s.InGap)
    (ht : s.step .clear = some t) :
    ∃ bs, (∀ b ∈ bs, b ≠ .clear) ∧ ¬ Always step HeadIsTask t bs := by
  have hs : s.starting = .none := by
    by_contra hne
    rcases h.starting hne with hw | hw | hw | hw <;> simp [InGap, hw] at hgap
  have ht := step_act ht
  cases ht
  rcases hgap with ⟨hw, hst⟩ | hw
  · refine ⟨[.testStarted], by simp, fun hall => ?_⟩
    have hstep : s.clear.step .testStarted = some { s.clear with worker := .lock2 } := by
      simp [step, Act.locks, act, testStarted, Looper.clear, hw, hst]
    exact not_headIsTask (s := { s.clear with worker := .lock2 }) hs rfl rfl (hall.2 _ hstep)
  · exact ⟨[], by simp, not_headIsTask hs hw rfl⟩

/-- The worker takes the head only of a non-empty list, wherever a run goes from any
point of it without another clear, exactly when the run clears no list in the gap. -/
theorem head_taken_iff (as : List Act) :
    Throughout step GapUncleared create as ↔
      ∀ cs, cs <+: as → ∀ bs, (∀ b ∈ bs, b ≠ .clear) →
        Always step HeadIsTask create (cs ++ bs) := by
  have hkeep : ∀ (s : Looper) a m, s.Fed ∧ s.ledger.Accounted → s.GapUncleared a →
      s.step a = some m → m.Fed ∧ m.ledger.Accounted :=
    fun s a m h ha hm => ⟨h.1.uncleared_step ha hm, accounted_step h.1.owned h.2 hm⟩
  have hneeded : ∀ (s : Looper) a m, s.Fed ∧ s.ledger.Accounted → s.step a = some m →
      ¬ s.GapUncleared a → ∃ bs, (∀ b ∈ bs, b ≠ .clear) ∧ ¬ Always step HeadIsTask m bs := by
    intro s a m h hm hp
    obtain ⟨rfl, hgap⟩ : a = .clear ∧ s.InGap := by simpa [GapUncleared] using hp
    exact gap_clear_exposed h.1 hgap hm
  exact throughout_iff_continuations hkeep (fun s h => h.1.head h.2)
    (fun s a ha hc => absurd hc ha) hneeded ⟨fed_create, Ledger.accounted_empty⟩ as

/-- A clear between the worker's emptiness test and its second section. -/
def clearInGap : List Act :=
  [.start, .startStore, .startStore, .testExit,
    .post ⟨timeMs 0, DelayMs.ofInt32 10000, 100, 1, 0, 0⟩ none,
    .section1, .clear, .testStarted, .section2 (timeMs 0)]

theorem clear_in_gap_crashes : ∃ s, run step create clearInGap = some s ∧ s.worker = .crashed :=
  ⟨_, rfl, rfl⟩

end Awe.Looper
