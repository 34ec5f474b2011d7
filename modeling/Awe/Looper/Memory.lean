import Awe.Ledger.Memory
import Awe.Lib.Driver
import Awe.Looper.Refinement

namespace Awe.Looper
open Machine
open TaskMem (Access Found)

/-- What an action does with the task list in memory, in the order it does it. -/
def accesses (list : Ptr) (s : Looper) : Act → List Access
  | .post p _ =>
    if s.started then [.op (.insert p.id p.now p.delay p.proc p.userdata p.arg)] else []
  | .cancel id => if s.started then [.op (.cancel id)] else []
  | .clear => [.op .clear]
  | .section1 => if s.started then [.empty] else []
  | .section2 now =>
    match s.taskList with
    | [] => [.op .first, .load list]
    | task :: _ =>
      if task.procMs.remaining now ≤ 0 then [.op .first, .load task.id, .op (.del task.id)]
      else [.op .first, .load task.id]
  | .testState =>
    match s.worker with
    | .fetched t => if t.state = .valid then [.load t.id] else [.load t.id, .op (.destroy t.id)]
    | _ => []
  | .procReturn =>
    match s.worker with
    | .running t => [.op (.destroy t.id)]
    | _ => []
  | _ => []

def answers (s : Looper) : Act → List Found
  | .post p _ => if s.started then [.answer (.task p.id)] else []
  | .cancel id => if s.started then [.answer (.status (s.taskList.cancel id).1)] else []
  | .clear => [.answer .done]
  | .section1 => if s.started then [.bool (decide (s.taskList = []))] else []
  | .section2 now =>
    match s.taskList with
    | [] => []
    | task :: _ =>
      if task.procMs.remaining now ≤ 0 then
        [.answer (.task task.id), .record task.record, .answer .done]
      else [.answer (.task task.id), .record task.record]
  | .testState =>
    match s.worker with
    | .fetched t =>
      if t.state = .valid then [.record t.record] else [.record t.record, .answer .done]
    | _ => []
  | .procReturn =>
    match s.worker with
    | .running _ => [.answer .done]
    | _ => []
  | _ => []

def Act.Apart (list : Ptr) : Act → Prop
  | .post p _ => p.id ≠ list
  | _ => True

instance (list : Ptr) (a : Act) : Decidable (a.Apart list) := by
  cases a <;> unfold Act.Apart <;> infer_instance

/-- The tasks of a looper that goes on are what its memory holds. -/
structure InMemory (list : Ptr) (m : TaskMem) (s : Looper) : Prop where
  one : s.OneWorker
  safe : s.worker ≠ .crashed
  kept : ∃ p, m.Keeps list s.ledger p

theorem inMemory_create (list : Ptr) : InMemory list (DList.init list) create :=
  ⟨oneWorker_create, by simp [create], _, TaskMem.keeps_init list⟩

def Act.idle : Act → Bool
  | .post .. | .cancel _ | .clear | .section1 | .section2 _ | .testState | .procReturn => false
  | _ => true

theorem accesses_idle (list : Ptr) (s : Looper) {a : Act} (ha : a.idle = true) :
    accesses list s a = [] ∧ answers s a = [] := by
  cases a <;> first | exact ⟨rfl, rfl⟩ | cases ha

theorem idle_step {s t : Looper} {a : Act} (h : s.OneWorker) (ha : a.idle = true)
    (ht : s.step a = some t) :
    t.ledger = s.ledger ∧ (t.worker = .crashed → s.worker = .crashed) := by
  cases step_effect ht with
  | post | cancel | clear | sleeps | passes | crashes | takes | waits | calls | skips | ends =>
    cases ha
  | start _ free => exact ⟨by simp [ledger, h.no_worker free, Worker.hand], by simp⟩
  | testExit hw | testStarted hw =>
    exact ⟨by simp only [ledger, hw]; split <;> rfl, by simp only; split <;> simp⟩
  | wakes hw | finish hw => exact ⟨by simp [ledger, hw, Worker.hand], by simp⟩
  | _ => exact ⟨rfl, id⟩

/-- An action finds what it should and leaves the tasks in memory. -/
def Answered (list : Ptr) (m : TaskMem) (s : Looper) (a : Act) (t : Looper) : Prop :=
  ∃ m', Transducer.exec (TaskMem.access list) m (accesses list s a) = some (answers s a, m') ∧
    InMemory list m' t

section InMemory

variable {list : Ptr} {m : TaskMem} {s t : Looper} {a : Act}

theorem InMemory.idle (h : InMemory list m s) (ha : a.idle = true) (ht : s.step a = some t) :
    Answered list m s a t := by
  obtain ⟨haccesses, hanswers⟩ := accesses_idle list s ha
  obtain ⟨hledger, hsafe⟩ := idle_step h.one ha ht
  refine ⟨m, by rw [haccesses, hanswers]; rfl, h.one.step ht, fun hw => h.safe (hsafe hw), ?_⟩
  rw [hledger]
  exact h.kept

theorem InMemory.post {p : Post} {pick : Option Waiter} (h : InMemory list m s)
    (ha : p.id ≠ list) (ht : s.step (.post p pick) = some t) :
    Answered list m s (.post p pick) t := by
  have hone := h.one.step ht
  obtain ⟨q, hq⟩ := h.kept
  cases step_effect ht with
  | same ignored =>
    cases ignored with
    | post off => exact ⟨m, by simp [accesses, answers, off, Transducer.exec], h⟩
  | post on nonNull fresh =>
    obtain ⟨m', q', hm, hq'⟩ := hq.post nonNull ha fresh
    exact ⟨m', by simp [accesses, answers, on, Transducer.exec, hm], hone, h.safe, q', hq'⟩

theorem InMemory.cancel {id : Ptr} (h : InMemory list m s) (ht : s.step (.cancel id) = some t) :
    Answered list m s (.cancel id) t := by
  have hone := h.one.step ht
  obtain ⟨q, hq⟩ := h.kept
  cases step_effect ht with
  | same ignored =>
    cases ignored with
    | cancel off => exact ⟨m, by simp [accesses, answers, off, Transducer.exec], h⟩
  | cancel on =>
    obtain ⟨m', q', hm, hq'⟩ := hq.cancel id
    have hanswer : (s.taskList.cancel id).1 = (s.ledger.pending.cancel id).1 := rfl
    refine ⟨m', ?_, hone, h.safe, q', hq'⟩
    simp [accesses, answers, on, Transducer.exec, hm, hanswer]

theorem InMemory.clear (h : InMemory list m s) (ht : s.step .clear = some t) :
    Answered list m s .clear t := by
  have hone := h.one.step ht
  obtain ⟨q, hq⟩ := h.kept
  cases step_act ht
  obtain ⟨m', q', hm, hq'⟩ := hq.clear (s.destroyed ++ s.taskList.map TimerTask.ticket)
  exact ⟨m', by simp [accesses, answers, Transducer.exec, hm], hone, h.safe, q', hq'⟩

theorem InMemory.section1 (h : InMemory list m s) (ht : s.step .section1 = some t) :
    Answered list m s .section1 t := by
  have hone := h.one.step ht
  obtain ⟨q, hq⟩ := h.kept
  have hstate : t.worker ≠ .crashed ∧ t.ledger = s.ledger := by
    cases step_effect ht with
    | same ignored => cases ignored
    | sleeps here | passes here =>
      exact ⟨by simp, by rcases here with hw | ⟨hw, _⟩ <;> simp [ledger, hw, Worker.hand]⟩
  have hempty : TaskMem.access list m .empty = some (.bool (decide (s.taskList = [])), m) :=
    hq.empty
  refine ⟨m, ?_, hone, hstate.1, q, hstate.2 ▸ hq⟩
  by_cases hst : s.started = true <;> simp [accesses, answers, hst, Transducer.exec, hempty]

/-- The second section reads the clock's task and takes it if it is due. -/
theorem InMemory.section2 {now : ClockMs} (h : InMemory list m s)
    (ht : s.step (.section2 now) = some t) (hsafe : t.worker ≠ .crashed) :
    Answered list m s (.section2 now) t := by
  have hone := h.one.step ht
  obtain ⟨q, hq⟩ := h.kept
  have hhead : ∀ {task rest}, s.taskList = task :: rest →
      TaskMem.access list m (.op .first) = some (.answer (.task task.id), m) ∧
        TaskMem.access list m (.load task.id) = some (.record task.record, m) := by
    intro task rest htasks
    have hpending : s.ledger.pending = task :: rest := htasks
    refine ⟨?_, hq.load (by simp [Ledger.allocated, hpending])⟩
    rw [hq.first, hpending, List.map_cons, List.headD_cons]
  cases step_effect ht with
  | same ignored => cases ignored
  | crashes => exact absurd rfl hsafe
  | @takes _ task _ hw tasks due =>
    obtain ⟨hfirst, hload⟩ := hhead tasks
    obtain ⟨m', q', hm, hq'⟩ := hq.pop (by simp [ledger, hw, Worker.hand]) tasks
    have hdue : task.procMs.remaining now ≤ 0 := by
      rw [ProcMs.remaining_eq]
      omega
    refine ⟨m', ?_, hone, hsafe, q', hq'⟩
    simp [accesses, answers, tasks, hdue, Transducer.exec, hfirst, hload, hm]
  | @waits _ task _ hw tasks later =>
    obtain ⟨hfirst, hload⟩ := hhead tasks
    have hlater : ¬ task.procMs.remaining now ≤ 0 := by
      rw [ProcMs.remaining_eq]
      omega
    refine ⟨m, ?_, hone, hsafe, q, hq.congr rfl (by simp [ledger, hw, Worker.hand]) rfl⟩
    simp [accesses, answers, tasks, hlater, Transducer.exec, hfirst, hload]

/-- On an empty list it takes the list for a task. -/
theorem InMemory.section2_fault {now : ClockMs} (h : InMemory list m s)
    (ht : s.step (.section2 now) = some t) (hcrash : t.worker = .crashed) :
    Transducer.exec (TaskMem.access list) m (accesses list s (.section2 now)) = none := by
  obtain ⟨q, hq⟩ := h.kept
  cases step_effect ht with
  | same ignored => cases ignored
  | crashes _ bare =>
    have hfirst := hq.first
    simp [accesses, bare, Transducer.exec, hfirst, hq.load_list]
  | takes | waits => cases hcrash

theorem InMemory.testState (h : InMemory list m s) (ht : s.step .testState = some t) :
    Answered list m s .testState t := by
  have hone := h.one.step ht
  obtain ⟨q, hq⟩ := h.kept
  have hload : ∀ {task}, s.worker = .fetched task →
      TaskMem.access list m (.load task.id) = some (.record task.record, m) :=
    fun hw => hq.load (by simp [Ledger.allocated, ledger, hw, Worker.hand, Hand.tasks])
  cases step_effect ht with
  | same ignored => cases ignored
  | calls hw valid =>
    refine ⟨m, ?_, hone, by simp, q, hq.congr rfl ?_ rfl⟩
    · simp [accesses, answers, hw, valid, Transducer.exec, hload hw]
    · simp [ledger, hw, Worker.hand, Hand.tasks]
  | @skips task hw unfit =>
    have hhand : s.ledger.hand.tasks = [task] := by simp [ledger, hw, Worker.hand, Hand.tasks]
    obtain ⟨m', q', hm, hq'⟩ := hq.destroy hhand (s.destroyed ++ [task.ticket])
    refine ⟨m', ?_, hone, by simp, q', hq'⟩
    simp [accesses, answers, hw, unfit, Transducer.exec, hload hw, hm]

theorem InMemory.procReturn (h : InMemory list m s) (ht : s.step .procReturn = some t) :
    Answered list m s .procReturn t := by
  have hone := h.one.step ht
  obtain ⟨q, hq⟩ := h.kept
  cases step_effect ht with
  | same ignored => cases ignored
  | @ends task hw =>
    have hhand : s.ledger.hand.tasks = [task] := by simp [ledger, hw, Worker.hand, Hand.tasks]
    obtain ⟨m', q', hm, hq'⟩ := hq.destroy hhand (s.destroyed ++ [task.ticket])
    refine ⟨m', ?_, hone, by simp, q', hq'⟩
    simp [accesses, answers, hw, Transducer.exec, hm]

theorem InMemory.other (h : InMemory list m s) (ha : a.Apart list)
    (hother : ∀ now, a ≠ .section2 now) (ht : s.step a = some t) : Answered list m s a t := by
  cases a with
  | post p pick => exact h.post ha ht
  | cancel id => exact h.cancel ht
  | clear => exact h.clear ht
  | section1 => exact h.section1 ht
  | section2 now => exact absurd rfl (hother now)
  | testState => exact h.testState ht
  | procReturn => exact h.procReturn ht
  | start | startStore | stopSignal | stopRequest | stopCheck | timeout | testExit | testStarted
  | wake | finish | leave => exact h.idle rfl ht

theorem InMemory.step (h : InMemory list m s) (ha : a.Apart list) (ht : s.step a = some t)
    (hsafe : t.worker ≠ .crashed) : Answered list m s a t := by
  by_cases hsection : ∃ now, a = .section2 now
  · obtain ⟨now, rfl⟩ := hsection
    exact h.section2 ht hsafe
  · exact h.other ha (not_exists.mp hsection) ht

theorem InMemory.fault (h : InMemory list m s) (ha : a.Apart list) (ht : s.step a = some t)
    (hcrash : t.worker = .crashed) :
    Transducer.exec (TaskMem.access list) m (accesses list s a) = none := by
  by_cases hsection : ∃ now, a = .section2 now
  · obtain ⟨now, rfl⟩ := hsection
    exact h.section2_fault ht hcrash
  · obtain ⟨_, _, hin⟩ := h.other ha (not_exists.mp hsection) ht
    exact absurd hcrash hin.safe

/-- No step gets a worker out of what it has crashed in. -/
theorem crashed_stuck (hone : s.OneWorker) (hw : s.worker = .crashed) (ht : s.step a = some t) :
    t.worker = .crashed := by
  cases step_effect ht with
  | start _ free =>
    rw [hone.no_worker free] at hw
    cases hw
  | sleeps here | passes here => simp [hw] at here
  | crashes => rfl
  | testExit here | testStarted here | takes here | waits here | wakes here | calls here
  | skips here | ends here | finish here =>
    rw [hw] at here
    cases here
  | _ => exact hw

end InMemory

/-- Only from a crash does a looper touch memory that is not its own. -/
theorem drives (list : Ptr) :
    Drives step (fun _ a => a.Apart list) (fun s => s.OneWorker ∧ s.worker = .crashed)
      (TaskMem.access list) (accesses list) answers (InMemory list) where
  whole _ _ h hbroken := h.safe hbroken.2
  answered _ _ _ _ h ha ht hsafe := h.step ha ht (fun hw => hsafe ⟨h.one.step ht, hw⟩)
  fault _ _ _ _ h ha ht hbroken := h.fault ha ht hbroken.2
  stuck _ _ _ h ht := ⟨h.1.step ht, crashed_stuck h.1 h.2 ht⟩

/-- The pointers of `timer_task.c` do in memory what the list of tasks says: in every run the
worker and its callers find the tasks that are pending, due, cancelled or at hand, free each
block once and read none that is not theirs. A run that crashes is one that asks memory for
what is not there. -/
theorem tasks_in_memory {list : Ptr} {as : List Act} {s : Looper}
    (hr : run step create as = some s) (hapart : ∀ a ∈ as, a.Apart list) :
    (s.worker ≠ .crashed → ∃ m p,
      Transducer.exec (TaskMem.access list) (DList.init list)
          (trace step (accesses list) create as) = some (trace step answers create as, m) ∧
        m.Keeps list s.ledger p) ∧
    (s.worker = .crashed →
      Transducer.exec (TaskMem.access list) (DList.init list)
        (trace step (accesses list) create as) = none) := by
  have hone : s.OneWorker := invariant (fun _ _ _ h ht => h.step ht) oneWorker_create hr
  have hp : Throughout step (fun _ a => Act.Apart list a) create as :=
    throughout_of_mem (fun _ a ha => hapart a ha) create
  constructor
  · intro hsafe
    obtain ⟨m, hm, hin⟩ := (drives list).run (inMemory_create list) hp hr (fun h => hsafe h.2)
    obtain ⟨p, hp⟩ := hin.kept
    exact ⟨m, p, hm, hp⟩
  · intro hcrash
    exact (drives list).run_fault (inMemory_create list) hp hr ⟨hone, hcrash⟩

/-- The first of two tasks is run and freed, the second is cancelled where it lies. -/
def oneServed : List Act :=
  [.start, .startStore, .startStore,
    .post ⟨timeMs 0, DelayMs.ofInt32 0, 100, 7, 0, 1⟩ none,
    .post ⟨timeMs 0, DelayMs.ofInt32 1000, 101, 7, 0, 2⟩ none,
    .testExit, .section1, .testStarted, .section2 (timeMs 0), .testState, .cancel 101, .procReturn]

/-- The list is cleared between the worker's test and its use. -/
def thenCleared : List Act :=
  oneServed ++ [.testExit, .section1, .clear, .testStarted, .section2 (timeMs 0)]

theorem one_served_in_memory :
    (∃ s m p, run step create oneServed = some s ∧
      Transducer.exec (TaskMem.access 50) (DList.init 50)
          (trace step (accesses 50) create oneServed) =
        some ([.answer (.task 100), .answer (.task 101), .bool false, .answer (.task 100),
          .record ⟨procTime (timeMs 0) (DelayMs.ofInt32 0), 7, 0, 1, .valid⟩, .answer .done,
          .record ⟨procTime (timeMs 0) (DelayMs.ofInt32 0), 7, 0, 1, .valid⟩,
          .answer (.status AWE_OK), .answer .done], m) ∧
        m.Keeps 50 s.ledger p) ∧
    Transducer.exec (TaskMem.access 50) (DList.init 50)
      (trace step (accesses 50) create thenCleared) = none := by
  constructor
  · obtain ⟨m, p, hm, hp⟩ := (@tasks_in_memory 50 oneServed _ rfl (by decide)).1 (by simp)
    exact ⟨_, m, p, rfl, hm, hp⟩
  · exact (@tasks_in_memory 50 thenCleared _ rfl (by decide)).2 rfl

end Awe.Looper
