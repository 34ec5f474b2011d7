import Awe.Ledger.Memory
import Awe.Lib.Driver
import Awe.UxScheduler.Refinement

namespace Awe.UxScheduler
open Machine
open TaskMem (Access Found)

/-- What an action does with the task list in memory, in the order it does it. -/
def taskAccesses (s : UxScheduler) : Act → List Access
  | .post p _ =>
    if s.started then [.op (.insert p.id p.now p.delay p.proc p.userdata p.arg)] else []
  | .cancel id => if s.started then [.op (.cancel id)] else []
  | .clear => [.op .clear]
  | .prepare _ =>
    match s.taskList with
    | [] => [.empty]
    | task :: _ => [.empty, .op .first, .load task.id]
  | .endRound now =>
    match s.taskList with
    | [] => [.empty]
    | task :: _ =>
      if timeToDelay task now ≤ 0 then
        [.empty, .op .first, .load task.id, .op (.del task.id)]
      else [.empty, .op .first, .load task.id]
  | .testTask =>
    match s.worker with
    | .fetched t =>
      if t.proc ≠ NULL ∧ t.state = .valid then [.load t.id] else [.load t.id, .op (.destroy t.id)]
    | _ => []
  | .procReturn =>
    match s.worker with
    | .running t => [.op (.destroy t.id)]
    | _ => []
  | _ => []

def taskAnswers (s : UxScheduler) : Act → List Found
  | .post p _ => if s.started then [.answer (.task p.id)] else []
  | .cancel id => if s.started then [.answer (.status (s.taskList.cancel id).1)] else []
  | .clear => [.answer .done]
  | .prepare _ =>
    match s.taskList with
    | [] => [.bool true]
    | task :: _ => [.bool false, .answer (.task task.id), .record task.record]
  | .endRound now =>
    match s.taskList with
    | [] => [.bool true]
    | task :: _ =>
      if timeToDelay task now ≤ 0 then
        [.bool false, .answer (.task task.id), .record task.record, .answer .done]
      else [.bool false, .answer (.task task.id), .record task.record]
  | .testTask =>
    match s.worker with
    | .fetched t =>
      if t.proc ≠ NULL ∧ t.state = .valid then [.record t.record]
      else [.record t.record, .answer .done]
    | _ => []
  | .procReturn =>
    match s.worker with
    | .running _ => [.answer .done]
    | _ => []
  | _ => []

/-- No new task comes to lie where the task list is, no new event where the event list is. -/
def Act.Apart (tasks events : Ptr) : Act → Prop
  | .post p _ => p.id ≠ tasks
  | .add _ addr .. => addr ≠ events
  | _ => True

instance (tasks events : Ptr) (a : Act) : Decidable (a.Apart tasks events) := by
  cases a <;> unfold Act.Apart <;> infer_instance

structure TasksIn (list : Ptr) (m : TaskMem) (s : UxScheduler) : Prop where
  one : s.OneWorker
  kept : ∃ p, m.Keeps list s.ledger p

theorem tasksIn_create (list : Ptr) : TasksIn list (DList.init list) create :=
  ⟨oneWorker_create, _, TaskMem.keeps_init list⟩

/-- An action finds the tasks it should and leaves them in memory. -/
def TasksFound (list : Ptr) (m : TaskMem) (s : UxScheduler) (a : Act) (t : UxScheduler) : Prop :=
  ∃ m', Transducer.exec (TaskMem.access list) m (s.taskAccesses a) = some (s.taskAnswers a, m') ∧
    TasksIn list m' t

def Act.sparesTasks : Act → Bool
  | .post .. | .cancel _ | .clear | .prepare _ | .endRound _ | .testTask | .procReturn => false
  | _ => true

section TasksIn

variable {list : Ptr} {m : TaskMem} {s t : UxScheduler} {a : Act}

theorem TasksIn.spared (h : TasksIn list m s) (ha : a.sparesTasks = true)
    (ht : s.step a = some t) : TasksFound list m s a t := by
  have hnone : s.taskAccesses a = [] ∧ s.taskAnswers a = [] := by
    cases a <;> first | exact ⟨rfl, rfl⟩ | cases ha
  have hledger : t.ledger = s.ledger := by
    rcases step_books h.one ht with he | ⟨op, hbooks, _⟩
    · exact he
    · cases hbooks <;> cases ha
  refine ⟨m, by rw [hnone.1, hnone.2]; rfl, h.one.step ht, ?_⟩
  rw [hledger]
  exact h.kept

theorem TasksIn.post {p : Post} {pick : Option Waiter} (h : TasksIn list m s)
    (ha : p.id ≠ list) (ht : s.step (.post p pick) = some t) :
    TasksFound list m s (.post p pick) t := by
  have hone := h.one.step ht
  obtain ⟨q, hq⟩ := h.kept
  rcases post_cases (step_act ht) with ⟨hst, rfl⟩ | ⟨cond, hst, hnull, hnew, _, rfl⟩
  · exact ⟨m, by simp [taskAccesses, taskAnswers, hst, Transducer.exec], hone, q, hq⟩
  · obtain ⟨m', q', hm, hq'⟩ := hq.post hnull ha hnew
    exact ⟨m', by simp [taskAccesses, taskAnswers, hst, Transducer.exec, hm], hone, q', hq'⟩

theorem TasksIn.cancel {id : Ptr} (h : TasksIn list m s) (ht : s.step (.cancel id) = some t) :
    TasksFound list m s (.cancel id) t := by
  have hone := h.one.step ht
  obtain ⟨q, hq⟩ := h.kept
  cases step_act ht
  by_cases hst : s.started = true
  · obtain ⟨m', q', hm, hq'⟩ := hq.cancel id
    have he : (s.cancel id).2 = { s with taskList := (s.taskList.cancel id).2 } := by
      simp [UxScheduler.cancel, hst]
    have hanswer : (s.taskList.cancel id).1 = (s.ledger.pending.cancel id).1 := rfl
    rw [he] at hone ⊢
    refine ⟨m', ?_, hone, q', hq'⟩
    simp [taskAccesses, taskAnswers, hst, Transducer.exec, hm, hanswer]
  · have he : (s.cancel id).2 = s := by simp [UxScheduler.cancel, hst]
    rw [he]
    exact ⟨m, by simp [taskAccesses, taskAnswers, hst, Transducer.exec], h⟩

theorem TasksIn.clear (h : TasksIn list m s) (ht : s.step .clear = some t) :
    TasksFound list m s .clear t := by
  have hone := h.one.step ht
  obtain ⟨q, hq⟩ := h.kept
  cases step_act ht
  obtain ⟨m', q', hm, hq'⟩ := hq.clear (s.destroyed ++ s.taskList.map TimerTask.ticket)
  exact ⟨m', by simp [taskAccesses, taskAnswers, Transducer.exec, hm], hone, q', hq'⟩

/-- The worker looks at the first task under the mutex, and only if there is one. -/
theorem TasksIn.look (h : TasksIn list m s) {task : TimerTask} {rest : TimerTaskList}
    (hlist : s.taskList = task :: rest) :
    Transducer.exec (TaskMem.access list) m [.empty, .op .first, .load task.id] =
      some ([.bool false, .answer (.task task.id), .record task.record], m) := by
  obtain ⟨q, hq⟩ := h.kept
  have hpending : s.ledger.pending = task :: rest := hlist
  have hempty := hq.empty
  have hfirst := hq.first
  have hload : TaskMem.access list m (.load task.id) = some (.record task.record, m) :=
    hq.load (by simp [Ledger.allocated, hpending])
  rw [hpending] at hempty
  rw [hpending, List.map_cons, List.headD_cons] at hfirst
  simp [Transducer.exec, hempty, hfirst, hload]

theorem TasksIn.look_empty (h : TasksIn list m s) (hlist : s.taskList = []) :
    Transducer.exec (TaskMem.access list) m [.empty] = some ([.bool true], m) := by
  obtain ⟨q, hq⟩ := h.kept
  have hempty := hq.empty
  rw [show s.ledger.pending = [] from hlist] at hempty
  simp [Transducer.exec, hempty]

theorem TasksIn.prepare {now : ClockMs} (h : TasksIn list m s)
    (ht : s.step (.prepare now) = some t) : TasksFound list m s (.prepare now) t := by
  have hledger : t.ledger = s.ledger := by
    rcases step_books h.one ht with he | ⟨op, hbooks, _⟩
    · exact he
    · cases hbooks
  refine ⟨m, ?_, h.one.step ht, by rw [hledger]; exact h.kept⟩
  cases hlist : s.taskList with
  | nil => simpa [taskAccesses, taskAnswers, hlist] using h.look_empty hlist
  | cons task rest => simpa [taskAccesses, taskAnswers, hlist] using h.look hlist

theorem TasksIn.endRound {now : ClockMs} (h : TasksIn list m s)
    (ht : s.step (.endRound now) = some t) : TasksFound list m s (.endRound now) t := by
  have hone := h.one.step ht
  obtain ⟨q, hq⟩ := h.kept
  have ht := step_act ht
  simp only [act, UxScheduler.endRound] at ht
  split at ht
  · rename_i hw hlist
    cases ht
    refine ⟨m, ?_, hone, q, hq.congr rfl (by simp [ledger, hw, Worker.hand]) rfl⟩
    simpa [taskAccesses, taskAnswers, hlist] using h.look_empty hlist
  · rename_i task rest hw hlist
    have hlook := h.look hlist
    have hhand : s.ledger.hand = .empty := by simp [ledger, hw, Worker.hand]
    split at ht
    · rename_i hdue
      cases ht
      obtain ⟨m', q', hm, hq'⟩ := hq.pop hhand hlist
      refine ⟨m', ?_, hone, q', hq'⟩
      have hdel : Transducer.exec (TaskMem.access list) m [.op (.del task.id)] =
          some ([.answer .done], m') := by simp [Transducer.exec, hm]
      have hall : Transducer.exec (TaskMem.access list) m
          ([.empty, .op .first, .load task.id] ++ [.op (.del task.id)]) =
          some ([.bool false, .answer (.task task.id), .record task.record] ++ [.answer .done],
            m') := by
        rw [Transducer.exec_append, hlook, Option.bind_some, hdel]
        rfl
      simpa [taskAccesses, taskAnswers, hlist, hdue] using hall
    · rename_i hdue
      cases ht
      refine ⟨m, ?_, hone, q, hq.congr rfl (by simp [ledger, hw, Worker.hand]) rfl⟩
      simpa [taskAccesses, taskAnswers, hlist, hdue] using hlook
  · cases ht

theorem TasksIn.testTask (h : TasksIn list m s) (ht : s.step .testTask = some t) :
    TasksFound list m s .testTask t := by
  have hone := h.one.step ht
  obtain ⟨q, hq⟩ := h.kept
  have ht := step_act ht
  simp only [act, UxScheduler.testTask] at ht
  split at ht
  · rename_i task hw
    have hhand : s.ledger.hand.tasks = [task] := by simp [ledger, hw, Worker.hand, Hand.tasks]
    have hload : TaskMem.access list m (.load task.id) = some (.record task.record, m) :=
      hq.load (by simp [Ledger.allocated, hhand])
    split at ht
    · rename_i hfit
      cases ht
      refine ⟨m, ?_, hone, q, hq.congr rfl ?_ rfl⟩
      · simp [taskAccesses, taskAnswers, hw, hfit, Transducer.exec, hload]
      · simp [ledger, hw, Worker.hand, Hand.tasks]
    · rename_i hunfit
      cases ht
      obtain ⟨m', q', hm, hq'⟩ := hq.destroy hhand (s.destroyed ++ [task.ticket])
      refine ⟨m', ?_, hone, q', hq'⟩
      simp only [taskAccesses, taskAnswers, hw, if_neg hunfit]
      simp [Transducer.exec, hload, hm]
  · cases ht

theorem TasksIn.procReturn (h : TasksIn list m s) (ht : s.step .procReturn = some t) :
    TasksFound list m s .procReturn t := by
  have hone := h.one.step ht
  obtain ⟨q, hq⟩ := h.kept
  have ht := step_act ht
  simp only [act, UxScheduler.procReturn] at ht
  split at ht
  · rename_i task hw
    have hhand : s.ledger.hand.tasks = [task] := by simp [ledger, hw, Worker.hand, Hand.tasks]
    obtain ⟨_, ht⟩ := Option.ite_none_right_eq_some.mp ht
    cases ht
    obtain ⟨m', q', hm, hq'⟩ := hq.destroy hhand (s.destroyed ++ [task.ticket])
    refine ⟨m', ?_, hone, q', hq'⟩
    simp [taskAccesses, taskAnswers, hw, Transducer.exec, hm]
  · cases ht

theorem TasksIn.step {events : Ptr} (h : TasksIn list m s) (ha : a.Apart list events)
    (ht : s.step a = some t) : TasksFound list m s a t := by
  cases a with
  | post p pick => exact h.post ha ht
  | cancel id => exact h.cancel ht
  | clear => exact h.clear ht
  | prepare now => exact h.prepare ht
  | endRound now => exact h.endRound ht
  | testTask => exact h.testTask ht
  | procReturn => exact h.procReturn ht
  | start | startStore | stop | stopCheck | rm | rmReturn | add | disable | enable | timeout
  | testExit | guard | testStarted | select | dispatch | handle | handlerReturn | finish
  | leave => exact h.spared rfl ht

end TasksIn

/-- No run reads a task that is not there: the worker looks at the first one under the mutex
and has the one it runs to itself. -/
theorem drives_tasks (tasks events : Ptr) :
    Drives step (fun _ a => a.Apart tasks events) (fun _ => False) (TaskMem.access tasks)
      taskAccesses taskAnswers (TasksIn tasks) where
  whole _ _ _ hbroken := hbroken
  answered _ _ _ _ h ha ht _ := h.step ha ht
  fault _ _ _ _ _ _ _ hbroken := hbroken.elim
  stuck _ _ _ hbroken _ := hbroken

end Awe.UxScheduler
