import Mathlib.Order.Bounds.Defs
import Awe.Looper.Execution

namespace Awe.Looper
open Machine

/-- The worker is blocked in one of its two waits and no wake-up is on its way. -/
def Asleep (s : Looper) : Prop := .worker ∈ s.cond.waiters

/-- The waiter picked by the signal an action makes, if it makes one. -/
def signalOf (s : Looper) : Act → Option (Option Waiter)
  | .post _ pick => if s.started then some pick else none
  | .stopSignal thread pick => if s.stops thread = .none ∧ s.started then some pick else none
  | _ => none

/-- The worker has a thread of its own, and sleeps nowhere but in its two waits. -/
structure Settled (s : Looper) : Prop where
  owned : s.OneWorker
  bed : s.Asleep → s.worker = .idle ∨ ∃ now delay, s.worker = .timedWait now delay

theorem settled_create : create.Settled where
  owned := oneWorker_create
  bed h := absurd h (by simp [Asleep, create, CondVar.new])

/-- How a step can leave the worker asleep. -/
inductive Slept (s : Looper) : Act → Looper → Prop where
  | idle (started : s.started) (tasks : s.taskList = []) :
      Slept s .section1 { s with cond := s.cond.wait .worker, worker := .idle }
  | timed {now : ClockMs} {task : TimerTask} {rest : TimerTaskList} (lock : s.worker = .lock2)
      (tasks : s.taskList = task :: rest) (later : now.ms < task.procMs.ms) :
      Slept s (.section2 now)
        { s with
          cond := s.cond.wait .worker
          worker := .timedWait now (task.procMs.remaining now) }
  | missed {a : Act} {t : Looper} (asleep : s.Asleep) (pick : Option Waiter)
      (signal : s.signalOf a = some pick) (cond : s.cond.signal pick = some t.cond)
      (other : pick ≠ some .worker) (worker : t.worker = s.worker) : Slept s a t
  | undisturbed {a : Act} {t : Looper} (asleep : s.Asleep) (worker : t.worker = s.worker)
      (started : t.started = false → s.started = false)
      (tasks : a ≠ .clear → t.taskList.map TimerTaskList.deadline =
        s.taskList.map TimerTaskList.deadline) : Slept s a t

theorem Slept.signalled {s t : Looper} {a : Act} {pick : Option Waiter}
    (hw : t.worker = s.worker) (hcond : s.cond.signal pick = some t.cond) (hsleep : t.Asleep)
    (hsignal : s.signalOf a = some pick) : Slept s a t := by
  obtain ⟨hasleep, hother⟩ := (CondVar.mem_signal hcond).mp hsleep
  exact .missed hasleep pick hsignal hcond hother hw

theorem Ignored.signalOf {s : Looper} {a : Act} (h : s.Ignored a) : s.signalOf a = none := by
  cases h with
  | post off | stopSignal _ off => simp [Looper.signalOf, off]
  | _ => rfl

/-- A place the worker is never asleep in. -/
theorem Settled.awake {s : Looper} (h : s.Settled) {w : Worker} (hw : s.worker = w)
    (hidle : w ≠ .idle) (htimed : ∀ now delay, w ≠ .timedWait now delay) : ¬ s.Asleep := by
  intro hsleep
  rcases h.bed hsleep with he | ⟨now, delay, he⟩
  · exact hidle (hw.symm.trans he)
  · exact htimed now delay (hw.symm.trans he)

theorem slept_of_step {s t : Looper} {a : Act} (h : s.Settled) (ht : s.step a = some t)
    (hsleep : t.Asleep) : Slept s a t := by
  cases step_effect ht with
  | sleeps _ on bare => exact .idle on bare
  | waits here tasks later => exact .timed here tasks later
  | post on _ _ signal => exact .signalled rfl signal hsleep (if_pos on)
  | stopSignal free on signal => exact .signalled rfl signal hsleep (if_pos ⟨free, on⟩)
  | cancel =>
    exact .undisturbed hsleep rfl id
      (fun _ => TimerTaskList.cancel_map TimerTaskList.deadline (fun _ => rfl) s.taskList _)
  | clear => exact .undisturbed hsleep rfl id (by simp)
  | launch => exact .undisturbed hsleep rfl (by simp) (fun _ => rfl)
  | same | reset | stopRequest | stopReturns | leave =>
    exact .undisturbed hsleep rfl id (fun _ => rfl)
  | stopWaits => exact .undisturbed (by simpa [Asleep] using hsleep) rfl id (fun _ => rfl)
  | timeout => exact .undisturbed (CondVar.mem_timeout.mp hsleep).2 rfl id (fun _ => rfl)
  | start _ free => exact absurd hsleep (h.awake (h.owned.no_worker free) (by simp) (by simp))
  | passes here =>
    rcases here with hw | ⟨_, awake⟩
    · exact absurd hsleep (h.awake hw (by simp) (by simp))
    · exact absurd hsleep awake
  | wakes _ awake => exact absurd hsleep awake
  | finish => exact absurd hsleep (by simp [Asleep, CondVar.broadcast, CondVar.new])
  | testExit hw | testStarted hw | crashes hw | takes hw | calls hw | skips hw | ends hw =>
    exact absurd hsleep (h.awake hw (by simp) (by simp))

theorem Settled.step {s t : Looper} {a : Act} (h : s.Settled) (ht : s.step a = some t) :
    t.Settled where
  owned := h.owned.step ht
  bed hsleep := by
    cases slept_of_step h ht hsleep with
    | idle => exact Or.inl rfl
    | timed => exact Or.inr ⟨_, _, rfl⟩
    | missed asleep _ _ _ _ worker => exact worker ▸ h.bed asleep
    | undisturbed asleep worker => exact worker ▸ h.bed asleep

/-- In the timed wait, whose delay counted from its clock reading ends at the least
`_proc_ms` of the list. -/
def AwaitsHead (s : Looper) : Prop :=
  ∃ now delay, s.worker = .timedWait now delay ∧
    IsLeast {ms | ms ∈ s.taskList.map TimerTaskList.deadline} (now.ms + delay)

/-- Asleep with reason: in the untimed wait on an empty list, or in the timed wait until
the earliest `_proc_ms` of the list. -/
def Watchful (s : Looper) : Prop :=
  s.Asleep → (s.worker = .idle ∧ s.taskList = []) ∨ s.AwaitsHead

/-- Nobody is inside a stop, so nobody but the worker can sleep. -/
structure Unstopped (s : Looper) : Prop where
  calm : ∀ thread, s.stops thread = .none
  alone : ∀ w ∈ s.cond.waiters, w = .worker

theorem unstopped_create : create.Unstopped where
  calm _ := rfl
  alone := by simp [create, CondVar.new]

structure Undisturbed (s : Looper) : Prop where
  settled : s.Settled
  books : s.ledger.Accounted
  unstopped : s.Unstopped
  watchful : s.Watchful

theorem undisturbed_create : create.Undisturbed where
  settled := settled_create
  books := Ledger.accounted_empty
  unstopped := unstopped_create
  watchful h := absurd h (by simp [Asleep, create, CondVar.new])

def Act.Gentle (a : Act) : Prop := a ≠ .clear ∧ ∀ thread pick, a ≠ .stopSignal thread pick

/-- The head of an ordered list has its earliest deadline. -/
theorem least_head {task : TimerTask} {rest : TimerTaskList}
    (hord : (task :: rest).Pairwise TimerTaskList.Before) :
    IsLeast {ms | ms ∈ (task :: rest).map TimerTaskList.deadline} task.procMs.ms := by
  refine ⟨List.mem_cons_self, ?_⟩
  rintro ms hms
  obtain ⟨u, hu, rfl⟩ := List.mem_map.mp hms
  rcases List.mem_cons.mp hu with rfl | hu
  · exact Int.le_refl _
  · exact (StableQueue.head_before hord u hu).key_le

theorem Undisturbed.watchful_step {s t : Looper} {a : Act} (h : s.Undisturbed) (ha : a.Gentle)
    (ht : s.step a = some t) : t.Watchful := by
  intro hsleep
  cases slept_of_step h.settled ht hsleep with
  | idle started tasks => exact Or.inl ⟨rfl, tasks⟩
  | @timed now task rest lock tasks later =>
    have hord : s.taskList.Pairwise TimerTaskList.Before := h.books.ordered
    refine Or.inr ⟨now, _, rfl, ?_⟩
    rw [tasks] at hord
    have hsum : now.ms + task.procMs.remaining now = task.procMs.ms := by
      rw [ProcMs.remaining_eq]
      omega
    rw [hsum]
    exact tasks ▸ least_head hord
  | missed asleep pick signal cond other worker =>
    obtain ⟨w, hw, hpick⟩ := CondVar.signal_picks cond asleep
    exact absurd (h.unstopped.alone w hw ▸ hpick) other
  | undisturbed asleep worker started tasks =>
    have hmap := tasks ha.1
    rcases h.watchful asleep with ⟨hw, hnil⟩ | ⟨now, delay, hw, hleast⟩
    · left
      refine ⟨worker.trans hw, ?_⟩
      rw [hnil] at hmap
      exact List.map_eq_nil_iff.mp hmap
    · exact Or.inr ⟨now, delay, worker.trans hw, hmap ▸ hleast⟩

theorem Unstopped.step {s t : Looper} {a : Act} (h : s.Unstopped)
    (ha : ∀ thread pick, a ≠ .stopSignal thread pick) (ht : s.step a = some t) : t.Unstopped := by
  cases step_effect ht with
  | stopSignal => exact absurd rfl (ha _ _)
  | stopRequest called =>
    rw [h.calm] at called
    cases called
  | stopWaits called | stopReturns called => simp [h.calm] at called
  | post _ _ _ signal => exact ⟨h.calm, fun w hw => h.alone w ((CondVar.mem_signal signal).mp hw).1⟩
  | timeout => exact ⟨h.calm, fun w hw => h.alone w (CondVar.mem_timeout.mp hw).2⟩
  | sleeps | waits =>
    exact ⟨h.calm, fun w hw => (CondVar.mem_wait.mp hw).elim id (h.alone w)⟩
  | finish => exact ⟨h.calm, by simp [CondVar.broadcast, CondVar.new]⟩
  | _ => exact ⟨h.calm, h.alone⟩

theorem Undisturbed.step {s t : Looper} {a : Act} (h : s.Undisturbed) (ha : a.Gentle)
    (ht : s.step a = some t) : t.Undisturbed where
  settled := h.settled.step ht
  books := accounted_step h.settled.owned h.books ht
  unstopped := h.unstopped.step ha.2 ht
  watchful := h.watchful_step ha ht

/-- A looper nobody stops or clears never sleeps through a post: whenever the worker
is asleep, it has nothing to do before the wake-up it waits for. -/
theorem never_slept_through {as : List Act} {s : Looper} (hr : run step create as = some s)
    (ha : ∀ a ∈ as, a.Gentle) : s.Watchful := by
  have hp : Throughout step (fun _ a => a.Gentle) create as :=
    throughout_of_mem (fun _ => ha) create
  exact (invariant_of_steps (fun _ _ _ h ha ht => Undisturbed.step h ha ht) undisturbed_create
    hp hr).watchful

/-- Asleep until 5000 ms; a post due at 3000 ms wakes the worker, which then sleeps until then. -/
def earlierPost : List Act :=
  [.start, .startStore, .startStore, .testExit,
    .post ⟨timeMs 0, DelayMs.ofInt32 5000, 100, 1, 0, 0⟩ none,
    .section1, .testStarted, .section2 (timeMs 0),
    .post ⟨timeMs 1000000, DelayMs.ofInt32 2000, 200, 2, 7, 8⟩ (some .worker),
    .wake, .testExit, .section1, .testStarted, .section2 (timeMs 1000000)]

theorem earlier_post_noticed : ∃ s, run step create earlierPost = some s ∧
    s.worker = .timedWait (timeMs 1000000) 2000 ∧
    s.cond.waiters = [.worker] ∧ s.Watchful := by
  have hdelay : (procTime (timeMs 1000000) (DelayMs.ofInt32 2000)).remaining (timeMs 1000000) =
      2000 := by decide
  refine ⟨_, rfl, congrArg (Worker.timedWait _) hdelay, rfl, ?_⟩
  exact @never_slept_through earlierPost _ rfl (by simp [earlierPost, Act.Gentle])

end Awe.Looper
