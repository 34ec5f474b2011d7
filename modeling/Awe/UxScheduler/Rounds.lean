import Awe.Ledger.Service
import Awe.UxScheduler.WakeUp

namespace Awe.UxScheduler
open Machine

def Act.endsRound (task : TimerTask) : Act → Bool
  | .endRound now => task.procMs.ms ≤ now.ms
  | _ => false

/-- An action that leaves `task` its turn: the lists are not dropped, `task` is not
cancelled, and no round finds the first task so long overdue that the `int32_t` of
`timeToDelay` has turned positive. -/
structure Spares (task : TimerTask) (s : UxScheduler) (a : Act) : Prop where
  keeps : a ≠ .clear
  spares : a ≠ .cancel task.id
  narrow : ∀ now u rest, a = .endRound now → s.taskList = u :: rest →
    now.ms ≤ u.procMs.ms + 2147483648

section Rounds

variable {s t : UxScheduler} {task : TimerTask}

theorem due_of_late {u : TimerTask} {now : ClockMs} (hdue : u.procMs.ms ≤ now.ms)
    (hnarrow : now.ms ≤ u.procMs.ms + 2147483648) : timeToDelay u now ≤ 0 := by
  unfold timeToDelay
  rw [ProcMs.remaining_eq, int32_of_range (by omega) (by unfold INT_MAX; omega)]
  omega

/-- A round that ends when a listed task is due takes one off the list, if not that one then
one before it. -/
theorem endRound_pops {now : ClockMs} (h : s.ledger.Accounted) (hlisted : task ∈ s.taskList)
    (hdue : task.procMs.ms ≤ now.ms) (hspares : Spares task s (.endRound now))
    (ht : s.endRound now = some t) : s.ledger.step .pop = some t.ledger := by
  have hord : s.taskList.Pairwise TimerTaskList.Before := h.ordered
  unfold endRound at ht
  split at ht
  · rename_i htasks
    rw [htasks] at hlisted
    cases hlisted
  · rename_i head rest hw htasks
    have hnarrow := hspares.narrow now head rest rfl htasks
    rw [htasks] at hord hlisted
    have hhead : head.procMs.ms ≤ now.ms := by
      rcases List.mem_cons.mp hlisted with rfl | hrest
      · exact hdue
      · have hfirst : head.procMs.ms ≤ task.procMs.ms :=
          (StableQueue.head_before hord task hrest).key_le
        exact Int.le_trans hfirst hdue
    rw [if_pos (due_of_late hhead hnarrow)] at ht
    cases ht
    simp [ledger, Ledger.step, hw, htasks, Worker.hand]
  · cases ht

theorem Books.isPost {a : Act} {op : Ledger.Op} (h : s.Books a op) : op.isPost = a.isPost := by
  cases h <;> rfl

theorem Books.spares {a : Act} {op : Ledger.Op} (h : s.Books a op) (ha : Spares task s a) :
    op.Spares task := by
  cases h with
  | clear => exact absurd rfl ha.keeps
  | cancel on id => exact fun he => ha.spares (he ▸ rfl)
  | _ => trivial

/-- A task that is fit to run is not thrown away. -/
theorem Books.ran {a : Act} {op : Ledger.Op} (h : s.Books a op)
    (hfit : task.proc ≠ NULL ∧ task.state = .valid) (hop : op = .destroy) :
    s.ledger.hand ≠ .fetched task := by
  intro hhand
  cases h with
  | skip taken hw unfit =>
    simp only [ledger, hw, Worker.hand, Hand.fetched.injEq] at hhand
    exact unfit (hhand ▸ hfit)
  | done taken hw => simp [ledger, hw, Worker.hand] at hhand
  | _ => cases hop

structure Owing (task : TimerTask) (s : UxScheduler) : Prop where
  alone : s.OneWorker
  books : s.ledger.Accounted
  underway : Ledger.Underway task s.ledger

theorem Owing.nearer {a : Act} (h : Owing task s) (hfit : task.proc ≠ NULL ∧ task.state = .valid)
    (hnot : ¬ Ledger.Done task s.ledger) (ha : Spares task s a) (ht : s.step a = some t) :
    Ledger.Nearer task s.ledger t.ledger (a.endsRound task).toNat a.isPost.toNat := by
  cases hround : a.endsRound task with
  | true =>
    cases a with
    | endRound now =>
      have hdue : task.procMs.ms ≤ now.ms := by simpa [Act.endsRound] using hround
      have ht := step_act ht
      have hfree : task ∉ s.ledger.hand.tasks := by
        cases hw : s.worker with
        | fetched | running => simp [act, endRound, hw] at ht
        | _ => simp [ledger, hw, Worker.hand, Hand.tasks]
      have hlisted : task ∈ s.taskList := h.underway.listed hnot hfree
      exact h.underway.pop hnot (endRound_pops h.books hlisted hdue ha ht)
    | _ => cases hround
  | false =>
    rcases step_books h.alone ht with hsame | ⟨op, hbooks, hop⟩
    · rw [hsame]
      exact ⟨h.underway, Or.inr (Nat.le_add_right _ _)⟩
    · have hnear := h.underway.step h.books hfit.2 hnot (hbooks.spares ha) (hbooks.ran hfit) hop
      rw [hbooks.isPost] at hnear
      exact ⟨hnear.1, hnear.2.imp id (fun hle => Nat.le_trans (Nat.le_add_right _ _) hle)⟩

theorem Owing.done {a : Act} (h : Owing task s) (hdone : Ledger.Done task s.ledger)
    (ht : s.step a = some t) : Ledger.Done task t.ledger := by
  rcases step_ledger h.alone ht with hsame | ⟨op, hop⟩
  · exact hsame ▸ hdone
  · exact hdone.step hop

theorem Owing.step {a : Act} (h : Owing task s) (hfit : task.proc ≠ NULL ∧ task.state = .valid)
    (ha : Spares task s a) (ht : s.step a = some t) : Owing task t := by
  have hbooks : t.ledger.Accounted := by
    rcases step_ledger h.alone ht with hsame | ⟨op, hop⟩
    · exact hsame ▸ h.books
    · exact h.books.step hop
  refine ⟨h.alone.step ht, hbooks, ?_⟩
  by_cases hdone : Ledger.Done task s.ledger
  · exact .done (h.done hdone ht)
  · exact (h.nearer hfit hdone ha ht).1

/-- Towards the end of a task, by the rounds that end when it is due. -/
theorem progress (hfit : task.proc ≠ NULL ∧ task.state = .valid) :
    Progress step (Owing task) (Spares task) (fun s => Ledger.Done task s.ledger)
      (fun s => Ledger.turns task s.ledger) (Act.endsRound task) (fun a => a.isPost.toNat) where
  keep _ _ _ h ha hm := h.step hfit ha hm
  stay _ _ _ h hdone _ hm := h.done hdone hm
  near _ _ _ h hnot ha hm := (h.nearer hfit hnot ha hm).2
  pos s _ _ := Ledger.turns_pos task s.ledger

/-- A task that is posted and not cancelled is called and destroyed before the end of one
round more than there are tasks up to it and posts meanwhile, rounds that end too early not
counted. -/
theorem served_in_turn {as bs : List Act} (hr : run step create as = some s)
    (hlisted : task ∈ s.taskList) (hfit : task.proc ≠ NULL ∧ task.state = .valid)
    (hrun : run step s bs = some t) (hb : Throughout step (Spares task) s bs)
    (hrounds : s.taskList.idxOf task + bs.countP Act.isPost + 2 ≤
      bs.countP (Act.endsRound task)) :
    task ∈ t.invoked ∧ task.ticket ∈ t.destroyed := by
  have howing : Owing task s := ⟨oneWorker hr, accounted hr, .pending hlisted⟩
  apply (progress hfit).reaches howing hb hrun
  rw [sum_toNat, Ledger.turns_of_not_in_hand ((accounted hr).not_in_hand hlisted)]
  change s.taskList.idxOf task + 2 + _ ≤ _
  omega

end Rounds

/-- The second of two tasks, and a descriptor to keep the worker from idling. -/
def later : Post := ⟨timeMs 0, DelayMs.ofInt32 20, 200, 2, 7, 8⟩

def posts : List Act :=
  [.start (DelayMs.ofInt32 1000), .startStore, .startStore,
    .add (.thread 0) 50 3 AWE_READ 9 0 none,
    .post ⟨timeMs 0, DelayMs.ofInt32 20, 100, 1, 0, 0⟩ none, .post later none]

def roundAt (now : ClockMs) : List Act :=
  [.testExit, .guard, .testStarted, .prepare now, .select 0 [] [], .endRound now]

def fourRounds : List Act :=
  roundAt (timeMs 10000) ++ roundAt (timeMs 20000) ++ [.testTask, .procReturn] ++
    roundAt (timeMs 20000) ++ [.testTask, .procReturn] ++ roundAt (timeMs 20000)

theorem later_served : ∃ s t, run step create posts = some s ∧ run step s fourRounds = some t ∧
    t.invoked.map TimerTask.ticket = [0, 1] ∧ 1 ∈ t.destroyed := by
  obtain ⟨s, hs⟩ : ∃ s, run step create posts = some s := ⟨_, rfl⟩
  obtain ⟨t, ht⟩ : ∃ t, run step s fourRounds = some t := by
    cases hs
    exact ⟨_, rfl⟩
  have hlater : later.task 1 ∈ s.taskList := by
    cases hs
    decide
  have hspares : Throughout step (Spares (later.task 1)) s fourRounds := by
    cases hs
    repeat' first | exact trivial | refine Throughout.cons rfl ⟨nofun, nofun, ?_⟩ ?_
    all_goals
      intro now u rest ha htasks
      cases ha <;> cases htasks <;> decide
  have hrounds : s.taskList.idxOf (later.task 1) + fourRounds.countP Act.isPost + 2 ≤
      fourRounds.countP (Act.endsRound (later.task 1)) := by
    cases hs
    decide
  have hserved := served_in_turn hs hlater ⟨by decide, rfl⟩ ht hspares hrounds
  refine ⟨s, t, hs, ht, ?_, hserved.2⟩
  cases hs
  cases ht
  rfl

end Awe.UxScheduler
