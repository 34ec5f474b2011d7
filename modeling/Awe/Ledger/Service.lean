import Awe.Ledger
import Awe.Lib.Progress

namespace Awe.Ledger

def Op.Spares (task : TimerTask) : Op → Prop
  | .clear => False
  | .cancel id => id ≠ task.id
  | _ => True

def Op.isPost : Op → Bool
  | .post _ => true
  | _ => false

def Op.isPop : Op → Bool
  | .pop => true
  | _ => false

def Done (task : TimerTask) (l : Ledger) : Prop := task ∈ l.invoked ∧ task.ticket ∈ l.destroyed

inductive Underway (task : TimerTask) (l : Ledger) : Prop where
  | pending (listed : task ∈ l.pending)
  | fetched (hand : l.hand = .fetched task)
  | running (hand : l.hand = .running task) (called : task ∈ l.invoked)
  | done (done : Done task l)

/-- How many times a task may be taken off the list before `task` is done: those before it,
itself, and the next one. -/
def turns (task : TimerTask) (l : Ledger) : Nat :=
  if task ∈ l.hand.tasks then 1 else l.pending.idxOf task + 2

section Service

variable {l m : Ledger} {task : TimerTask} {op : Op}

theorem turns_of_not_in_hand (h : task ∉ l.hand.tasks) :
    turns task l = l.pending.idxOf task + 2 := if_neg h

theorem turns_of_in_hand (h : task ∈ l.hand.tasks) : turns task l = 1 := if_pos h

theorem turns_pos (task : TimerTask) (l : Ledger) : 0 < turns task l := by
  unfold turns
  split
  · exact Nat.one_pos
  · exact Nat.succ_pos _

/-- No task is in the list and in the worker's hand at once. -/
theorem Accounted.not_in_hand (h : l.Accounted) (hlisted : task ∈ l.pending) :
    task ∉ l.hand.tasks := by
  intro hhand
  have hdistinct := h.distinct
  rw [Ledger.allocated, List.map_append] at hdistinct
  exact List.disjoint_of_nodup_append hdistinct (List.mem_map_of_mem hlisted)
    (List.mem_map_of_mem hhand)

theorem Done.step (h : Done task l) (hm : l.step op = some m) : Done task m := by
  obtain ⟨hinvoked, hdestroyed⟩ := h
  cases op with
  | post new =>
    simp only [Ledger.step] at hm
    obtain ⟨_, hm⟩ := Option.ite_none_right_eq_some.mp hm
    cases hm
    exact ⟨hinvoked, hdestroyed⟩
  | cancel id =>
    cases hm
    exact ⟨hinvoked, hdestroyed⟩
  | pop =>
    simp only [Ledger.step] at hm
    split at hm
    · cases hm
      exact ⟨hinvoked, hdestroyed⟩
    · cases hm
  | invoke =>
    simp only [Ledger.step] at hm
    split at hm
    · obtain ⟨_, hm⟩ := Option.ite_none_right_eq_some.mp hm
      cases hm
      exact ⟨List.mem_append_left _ hinvoked, hdestroyed⟩
    · cases hm
  | destroy =>
    simp only [Ledger.step] at hm
    split at hm <;> cases hm <;> exact ⟨hinvoked, List.mem_append_left _ hdestroyed⟩
  | clear =>
    cases hm
    exact ⟨hinvoked, List.mem_append_left _ hdestroyed⟩

theorem turns_congr (hhand : m.hand.tasks = l.hand.tasks) (hpending : m.pending = l.pending) :
    turns task m = turns task l := by
  unfold turns
  rw [hhand, hpending]

theorem Underway.listed (h : Underway task l) (hnot : ¬ Done task l)
    (hother : task ∉ l.hand.tasks) : task ∈ l.pending := by
  cases h with
  | pending listed => exact listed
  | fetched hand | running hand => simp [hand, Hand.tasks] at hother
  | done done => exact absurd done hnot

/-- A task in hand stays underway as long as the hand and the calls made are left alone. -/
theorem Underway.of_in_hand (h : Underway task l) (hl : l.Accounted) (hnot : ¬ Done task l)
    (hin : task ∈ l.hand.tasks) (hhand : m.hand = l.hand) (hcalls : m.invoked = l.invoked) :
    Underway task m := by
  cases h with
  | pending listed => exact absurd hin (hl.not_in_hand listed)
  | fetched hand => exact .fetched (hhand.trans hand)
  | running hand called => exact .running (hhand.trans hand) (hcalls ▸ called)
  | done done => exact absurd done hnot

/-- Where an operation leaves a task that is underway: done, or with `gain` turns fewer and
`loss` turns more to wait for. -/
def Nearer (task : TimerTask) (l m : Ledger) (gain loss : Nat) : Prop :=
  Underway task m ∧ (Done task m ∨ turns task m + gain ≤ turns task l + loss)

theorem Underway.post {new : TimerTask} (h : Underway task l) (hl : l.Accounted)
    (hnot : ¬ Done task l) (hm : l.step (.post new) = some m) : Nearer task l m 0 1 := by
  simp only [Ledger.step] at hm
  obtain ⟨_, hm⟩ := Option.ite_none_right_eq_some.mp hm
  cases hm
  by_cases hhand : task ∈ l.hand.tasks
  · refine ⟨h.of_in_hand hl hnot hhand rfl rfl, Or.inr ?_⟩
    have hthen : turns task { l with
        pending := l.pending.insert new
        posted := l.posted ++ [new] } = 1 := turns_of_in_hand hhand
    rw [hthen, turns_of_in_hand hhand]
    exact Nat.le_add_right _ _
  · refine ⟨.pending (StableQueue.mem_insert.mpr (Or.inr (h.listed hnot hhand))), Or.inr ?_⟩
    have hplace : (l.pending.insert new).idxOf task ≤ l.pending.idxOf task + 1 :=
      StableQueue.idxOf_insert_le _ _ _
    have hthen : turns task { l with
        pending := l.pending.insert new
        posted := l.posted ++ [new] } = (l.pending.insert new).idxOf task + 2 :=
      turns_of_not_in_hand hhand
    rw [hthen, turns_of_not_in_hand hhand]
    omega

theorem Underway.cancel {id : Ptr} (h : Underway task l) (hl : l.Accounted)
    (hnot : ¬ Done task l) (hvalid : task.state = .valid) (hid : id ≠ task.id)
    (hm : l.step (.cancel id) = some m) : Nearer task l m 0 0 := by
  cases hm
  by_cases hhand : task ∈ l.hand.tasks
  · refine ⟨h.of_in_hand hl hnot hhand rfl rfl, Or.inr ?_⟩
    have hthen : turns task { l with pending := (l.pending.cancel id).2 } = 1 :=
      turns_of_in_hand hhand
    rw [hthen, turns_of_in_hand hhand]
  · have hlisted := h.listed hnot hhand
    have hdistinct : (l.pending.map TimerTask.id).Nodup :=
      hl.distinct.sublist ((List.sublist_append_left _ _).map _)
    have hmem : task ∈ (l.pending.cancel id).2 :=
      (TimerTaskList.mem_cancel_iff hdistinct hlisted).mpr (fun hc => hid hc.1.symm)
    refine ⟨.pending hmem, Or.inr ?_⟩
    have hthen : turns task { l with pending := (l.pending.cancel id).2 } =
        (l.pending.cancel id).2.idxOf task + 2 := turns_of_not_in_hand hhand
    rw [hthen, turns_of_not_in_hand hhand, TimerTaskList.idxOf_cancel hvalid hid.symm]

theorem Underway.pop (h : Underway task l) (hnot : ¬ Done task l) (hm : l.step .pop = some m) :
    Nearer task l m 1 0 := by
  simp only [Ledger.step] at hm
  split at hm
  · rename_i head rest hhand hpending
    cases hm
    have hother : task ∉ l.hand.tasks := by
      rw [hhand]
      exact List.not_mem_nil
    have hmem := h.listed hnot hother
    unfold Nearer
    rw [turns_of_not_in_hand hother, hpending]
    rw [hpending] at hmem
    by_cases he : head = task
    · subst he
      refine ⟨.fetched rfl, Or.inr ?_⟩
      rw [turns_of_in_hand List.mem_cons_self, List.idxOf_cons_self]
    · have hrest : task ∈ rest := (List.mem_cons.mp hmem).resolve_left (Ne.symm he)
      refine ⟨.pending hrest, Or.inr ?_⟩
      rw [turns_of_not_in_hand (by simpa [Hand.tasks] using Ne.symm he), List.idxOf_cons_ne _ he]
  · cases hm

theorem Underway.invoke (h : Underway task l) (hnot : ¬ Done task l)
    (hm : l.step .invoke = some m) : Nearer task l m 0 0 := by
  simp only [Ledger.step] at hm
  split at hm
  · rename_i taken hhand
    obtain ⟨_, hm⟩ := Option.ite_none_right_eq_some.mp hm
    cases hm
    refine ⟨?_, Or.inr (Nat.le_of_eq (turns_congr (by rw [hhand]; rfl) rfl))⟩
    by_cases he : taken = task
    · subst he
      exact .running rfl (by simp)
    · exact .pending (h.listed hnot (by simpa [hhand, Hand.tasks] using Ne.symm he))
  · cases hm

/-- A worker does not give back a valid task that it has only fetched. -/
theorem Underway.destroy (h : Underway task l) (hl : l.Accounted) (hnot : ¬ Done task l)
    (hran : l.hand ≠ .fetched task) (hm : l.step .destroy = some m) : Nearer task l m 0 0 := by
  have hback : ∀ taken, l.hand.tasks = [taken] →
      m = { l with hand := .empty, destroyed := l.destroyed ++ [taken.ticket] } →
      Nearer task l m 0 0 := by
    rintro taken htaken rfl
    by_cases he : taken = task
    · subst he
      have hcalled : taken ∈ l.invoked := by
        have hin : taken ∈ l.hand.tasks := htaken ▸ List.mem_cons_self
        cases h with
        | pending listed => exact absurd hin (hl.not_in_hand listed)
        | fetched hand => exact absurd hand hran
        | running hand called => exact called
        | done done => exact done.1
      have hdone : Done taken { l with
          hand := .empty
          destroyed := l.destroyed ++ [taken.ticket] } := ⟨hcalled, by simp⟩
      exact ⟨.done hdone, Or.inl hdone⟩
    · have hother : task ∉ l.hand.tasks := by simpa [htaken] using Ne.symm he
      refine ⟨.pending (h.listed hnot hother), Or.inr ?_⟩
      rw [turns_of_not_in_hand hother, turns_of_not_in_hand List.not_mem_nil]
  simp only [Ledger.step] at hm
  split at hm
  · cases hm
  · rename_i taken hhand
    exact hback taken (by rw [hhand]; rfl) (Option.some.inj hm).symm
  · rename_i taken hhand
    exact hback taken (by rw [hhand]; rfl) (Option.some.inj hm).symm

/-- Only a post can set a task back, by one turn at most, and each task taken off the list
brings it one nearer. -/
theorem Underway.step (h : Underway task l) (hl : l.Accounted) (hvalid : task.state = .valid)
    (hnot : ¬ Done task l) (hspares : op.Spares task)
    (hran : op = .destroy → l.hand ≠ .fetched task) (hm : l.step op = some m) :
    Nearer task l m op.isPop.toNat op.isPost.toNat := by
  cases op with
  | post new => exact h.post hl hnot hm
  | cancel id => exact h.cancel hl hnot hvalid hspares hm
  | pop => exact h.pop hnot hm
  | invoke => exact h.invoke hnot hm
  | destroy => exact h.destroy hl hnot (hran rfl) hm
  | clear => exact absurd hspares id

end Service

end Awe.Ledger
