import Awe.Looper.Model

namespace Awe.Looper
open Machine

/-- An action that the looper returns from with nothing done. -/
inductive Ignored (s : Looper) : Act → Prop where
  | post {p : Post} {pick : Option Waiter} (off : s.started = false) : Ignored s (.post p pick)
  | cancel {id : Ptr} (off : s.started = false) : Ignored s (.cancel id)
  | start (on : s.started = true) : Ignored s .start
  | stopSignal {thread : Nat} {pick : Option Waiter} (free : s.stops thread = .none)
      (off : s.started = false) : Ignored s (.stopSignal thread pick)

/-- What each action does, and where it can be made. -/
inductive Effect (s : Looper) : Act → Looper → Prop where
  | same {a : Act} (ignored : s.Ignored a) : Effect s a s
  | post {p : Post} {pick : Option Waiter} {cond : CondVar Waiter} (on : s.started)
      (nonNull : p.id ≠ NULL) (fresh : p.id ∉ s.ledger.allocated.map TimerTask.id)
      (signal : s.cond.signal pick = some cond) :
      Effect s (.post p pick) { s with
        taskList := s.taskList.insert (p.task s.posted.length)
        cond := cond
        posted := s.posted ++ [p.task s.posted.length] }
  | cancel {id : Ptr} (on : s.started = true) :
      Effect s (.cancel id) { s with taskList := (s.taskList.cancel id).2 }
  | clear : Effect s .clear s.clear
  | start (off : s.started = false) (free : s.thread.tid = false) :
      Effect s .start { s with
        thread := { s.thread with tid := true }
        starting := .created
        worker := .loop }
  | reset (created : s.starting = .created) :
      Effect s .startStore { s with
        thread := { s.thread with exitPending := false }
        starting := .reset }
  | launch (reset : s.starting = .reset) :
      Effect s .startStore { s with
        thread := { s.thread with running := true }
        starting := .none
        started := true }
  | stopSignal {thread : Nat} {pick : Option Waiter} {cond : CondVar Waiter}
      (free : s.stops thread = .none) (on : s.started) (signal : s.cond.signal pick = some cond) :
      Effect s (.stopSignal thread pick) { s with
        started := false
        cond := cond
        stops := Function.update s.stops thread .request }
  | stopRequest {thread : Nat} (called : s.stops thread = .request) :
      Effect s (.stopRequest thread) { s with
        thread := s.thread.requestExit
        stops := Function.update s.stops thread .check }
  | stopWaits {thread : Nat} (called : s.stops thread = .check ∨ s.stops thread = .waiting)
      (running : s.thread.running) :
      Effect s (.stopCheck thread) { s with
        cond := s.cond.wait (.stop thread)
        stops := Function.update s.stops thread .waiting }
  | stopReturns {thread : Nat} (called : s.stops thread = .check ∨ s.stops thread = .waiting)
      (ended : s.thread.running = false) :
      Effect s (.stopCheck thread) { s with stops := Function.update s.stops thread .none }
  | timeout {w : Waiter} (timed : w = .worker → ∃ now delay, s.worker = .timedWait now delay) :
      Effect s (.timeout w) { s with cond := s.cond.timeout w }
  | testExit (here : s.worker = .loop) :
      Effect s .testExit { s with worker := if s.thread.exitPending then .exit else .lock1 }
  | sleeps (here : s.worker = .lock1 ∨ s.worker = .idle ∧ .worker ∉ s.cond.waiters)
      (on : s.started) (bare : s.taskList = []) :
      Effect s .section1 { s with cond := s.cond.wait .worker, worker := .idle }
  | passes (here : s.worker = .lock1 ∨ s.worker = .idle ∧ .worker ∉ s.cond.waiters)
      (awaited : s.started → s.taskList ≠ []) : Effect s .section1 { s with worker := .unlocked }
  | testStarted (here : s.worker = .unlocked) :
      Effect s .testStarted { s with worker := if s.started then .lock2 else .exit }
  | crashes {now : ClockMs} (here : s.worker = .lock2) (bare : s.taskList = []) :
      Effect s (.section2 now) { s with worker := .crashed }
  | takes {now : ClockMs} {task : TimerTask} {rest : TimerTaskList} (here : s.worker = .lock2)
      (tasks : s.taskList = task :: rest) (due : task.procMs.ms ≤ now.ms) :
      Effect s (.section2 now) { s with taskList := rest, worker := .fetched task }
  | waits {now : ClockMs} {task : TimerTask} {rest : TimerTaskList} (here : s.worker = .lock2)
      (tasks : s.taskList = task :: rest) (later : now.ms < task.procMs.ms) :
      Effect s (.section2 now) { s with
        cond := s.cond.wait .worker
        worker := .timedWait now (task.procMs.remaining now) }
  | wakes {now : ClockMs} {delay : Int} (here : s.worker = .timedWait now delay)
      (awake : .worker ∉ s.cond.waiters) : Effect s .wake { s with worker := .loop }
  | calls {task : TimerTask} (hand : s.worker = .fetched task) (valid : task.state = .valid)
      (proc : task.proc ≠ NULL) :
      Effect s .testState { s with worker := .running task, invoked := s.invoked ++ [task] }
  | skips {task : TimerTask} (hand : s.worker = .fetched task) (unfit : task.state ≠ .valid) :
      Effect s .testState { s with worker := .loop, destroyed := s.destroyed ++ [task.ticket] }
  | ends {task : TimerTask} (hand : s.worker = .running task) :
      Effect s .procReturn { s with worker := .loop, destroyed := s.destroyed ++ [task.ticket] }
  | finish (exit : s.worker = .exit) :
      Effect s .finish { s with
        cond := s.cond.broadcast
        thread := { s.thread with leaving := s.thread.leaving ++ [.clearTid] }
        worker := .none }
  | leave {n : Nat} {u : Thread} (stores : s.thread.leave n = some u) :
      Effect s (.leave n) { s with thread := u }

theorem step_act {s t : Looper} {a : Act} (h : s.step a = some t) : s.act a = some t := by
  unfold step at h
  obtain ⟨_, h⟩ := Option.ite_none_left_eq_some.mp h
  exact h

/-- A critical section is entered only when no start is under way. -/
theorem starting_of_locks {s t : Looper} {a : Act} (ha : a.locks) (h : s.step a = some t) :
    s.starting = .none := by
  unfold step at h
  obtain ⟨hfree, _⟩ := Option.ite_none_left_eq_some.mp h
  by_contra hne
  exact hfree ⟨hne, ha⟩

section Effect

variable {s t : Looper} {a : Act}

theorem post_effect {p : Post} {pick : Option Waiter} (ht : s.act (.post p pick) = some t) :
    s.Effect (.post p pick) t := by
  obtain ⟨⟨_, u⟩, hu, rfl⟩ := Option.map_eq_some_iff.mp ht
  simp only [post] at hu
  split at hu
  · rename_i hoff
    cases hu
    exact .same (.post (by simpa using hoff))
  · rename_i hon
    obtain ⟨hfresh, hu⟩ := Option.ite_none_left_eq_some.mp hu
    obtain ⟨c, hc, hcond⟩ := Option.map_eq_some_iff.mp hu
    cases hcond
    exact .post (by simpa using hon) (fun hn => hfresh (Or.inl hn))
      (fun hm => hfresh (Or.inr hm)) hc

theorem cancel_effect (s : Looper) (id : Ptr) : s.Effect (.cancel id) (s.cancel id).2 := by
  unfold Looper.cancel
  split
  · rename_i hoff
    exact .same (.cancel (by simpa using hoff))
  · rename_i hon
    exact .cancel (by simpa using hon)

theorem stopSignal_effect {thread : Nat} {pick : Option Waiter}
    (ht : s.stopSignal thread pick = some t) : s.Effect (.stopSignal thread pick) t := by
  unfold Looper.stopSignal at ht
  split at ht
  · rename_i hfree
    split at ht
    · rename_i hoff
      cases ht
      exact .same (.stopSignal hfree (by simpa using hoff))
    · rename_i hon
      obtain ⟨c, hc, rfl⟩ := Option.map_eq_some_iff.mp ht
      exact .stopSignal hfree (by simpa using hon) hc
  · cases ht

theorem stopCheck_effect {thread : Nat} (ht : s.stopCheck thread = some t) :
    s.Effect (.stopCheck thread) t := by
  have htest : (s.stops thread = .check ∨ s.stops thread = .waiting) ∧
      t = if s.thread.running then
        { s with
          cond := s.cond.wait (.stop thread)
          stops := Function.update s.stops thread .waiting }
      else { s with stops := Function.update s.stops thread .none } := by
    cases hcall : s.stops thread with
    | check =>
      simp only [stopCheck, hcall] at ht
      exact ⟨Or.inl rfl, (Option.some.inj ht).symm⟩
    | waiting =>
      simp only [stopCheck, hcall] at ht
      obtain ⟨_, ht⟩ := Option.ite_none_left_eq_some.mp ht
      exact ⟨Or.inr rfl, (Option.some.inj ht).symm⟩
    | none | request =>
      simp only [stopCheck, hcall] at ht
      cases ht
  obtain ⟨hcalled, rfl⟩ := htest
  split
  · exact .stopWaits hcalled (by assumption)
  · rename_i hended
    exact .stopReturns hcalled (by simpa using hended)

theorem timeout_effect {w : Waiter} (ht : s.timeout w = some t) : s.Effect (.timeout w) t := by
  unfold Looper.timeout at ht
  split at ht
  · split at ht <;> cases ht
    rename_i hw
    exact .timeout (fun _ => ⟨_, _, hw⟩)
  · cases ht
    exact .timeout nofun

theorem section1_effect (ht : s.section1 = some t) : s.Effect .section1 t := by
  have htest : (s.worker = .lock1 ∨ s.worker = .idle ∧ .worker ∉ s.cond.waiters) ∧
      t = if s.started ∧ s.taskList = [] then
        { s with cond := s.cond.wait .worker, worker := .idle }
      else { s with worker := .unlocked } := by
    cases hw : s.worker with
    | lock1 =>
      simp only [section1, hw] at ht
      exact ⟨Or.inl rfl, (Option.some.inj ht).symm⟩
    | idle =>
      simp only [section1, hw] at ht
      obtain ⟨hawake, ht⟩ := Option.ite_none_left_eq_some.mp ht
      exact ⟨Or.inr ⟨rfl, hawake⟩, (Option.some.inj ht).symm⟩
    | _ =>
      simp only [section1, hw] at ht
      cases ht
  obtain ⟨hhere, rfl⟩ := htest
  split
  · rename_i hbare
    exact .sleeps hhere hbare.1 hbare.2
  · rename_i hawaited
    exact .passes hhere (fun hon hnil => hawaited ⟨hon, hnil⟩)

theorem section2_effect {now : ClockMs} (ht : s.section2 now = some t) :
    s.Effect (.section2 now) t := by
  unfold Looper.section2 at ht
  split at ht
  · rename_i hw
    split at ht
    · rename_i hnil
      cases ht
      exact .crashes hw hnil
    · rename_i task rest htasks
      rw [ProcMs.remaining_eq] at ht
      split at ht <;> cases ht
      · exact .takes hw htasks (by omega)
      · rw [← ProcMs.remaining_eq]
        exact .waits hw htasks (by omega)
  · cases ht

theorem testState_effect (ht : s.testState = some t) : s.Effect .testState t := by
  unfold Looper.testState at ht
  split at ht
  · rename_i hw
    split at ht
    · rename_i hvalid
      obtain ⟨hproc, ht⟩ := Option.ite_none_left_eq_some.mp ht
      cases ht
      exact .calls hw hvalid hproc
    · rename_i hunfit
      cases ht
      exact .skips hw hunfit
  · cases ht

theorem act_effect (ht : s.act a = some t) : s.Effect a t := by
  cases a with
  | post p pick => exact post_effect ht
  | cancel id =>
    cases ht
    exact cancel_effect s id
  | clear =>
    cases ht
    exact .clear
  | start =>
    simp only [act, Looper.start] at ht
    split at ht
    · cases ht
      exact .same (.start (by assumption))
    · rename_i hoff
      obtain ⟨hfree, ht⟩ := Option.ite_none_left_eq_some.mp ht
      cases ht
      exact .start (by simpa using hoff) (by simpa using hfree)
  | startStore =>
    simp only [act, startStore] at ht
    split at ht <;> cases ht
    · exact .reset (by assumption)
    · exact .launch (by assumption)
  | stopSignal thread pick => exact stopSignal_effect ht
  | stopRequest thread =>
    simp only [act, stopRequest] at ht
    split at ht <;> cases ht
    exact .stopRequest (by assumption)
  | stopCheck thread => exact stopCheck_effect ht
  | timeout w => exact timeout_effect ht
  | testExit =>
    simp only [act, testExit] at ht
    split at ht <;> cases ht
    exact .testExit (by assumption)
  | section1 => exact section1_effect ht
  | testStarted =>
    simp only [act, testStarted] at ht
    split at ht <;> cases ht
    exact .testStarted (by assumption)
  | section2 now => exact section2_effect ht
  | wake =>
    simp only [act, wake] at ht
    split at ht
    · rename_i hw
      obtain ⟨hawake, ht⟩ := Option.ite_none_left_eq_some.mp ht
      cases ht
      exact .wakes hw hawake
    · cases ht
  | testState => exact testState_effect ht
  | procReturn =>
    simp only [act, procReturn] at ht
    split at ht <;> cases ht
    exact .ends (by assumption)
  | finish =>
    simp only [act, finish] at ht
    split at ht <;> cases ht
    exact .finish (by assumption)
  | leave n =>
    obtain ⟨u, hu, rfl⟩ := Option.map_eq_some_iff.mp ht
    exact .leave hu

theorem step_effect (ht : s.step a = some t) : s.Effect a t := act_effect (step_act ht)

end Effect

/-- There is at most one worker, and `_tid` is set as long as it runs. -/
def OneWorker (s : Looper) : Prop := s.thread.Owned (decide (s.worker ≠ .none))

theorem OneWorker.of_same {s t : Looper} (h : s.OneWorker)
    (ht : t.thread.leaving = s.thread.leaving) (hi : t.thread.tid = s.thread.tid)
    (hw : t.worker ≠ .none ↔ s.worker ≠ .none) : t.OneWorker := by
  obtain ⟨honce, htid, hlatest⟩ := h
  unfold OneWorker
  rw [decide_eq_decide.mpr hw]
  exact ⟨ht ▸ honce, hi ▸ ht ▸ htid, ht ▸ hlatest⟩

theorem OneWorker.no_worker {s : Looper} (h : s.OneWorker) (htid : s.thread.tid = false) :
    s.worker = .none := by
  by_contra hne
  rw [Thread.Owned.tid h (Or.inl (decide_eq_true hne))] at htid
  cases htid

/-- A step of the worker other than its last leaves it in its loop. -/
theorem OneWorker.step {s t : Looper} {a : Act} (h : s.OneWorker) (ht : s.step a = some t) :
    t.OneWorker := by
  cases step_effect ht with
  | start _ free =>
    have h' : s.thread.Owned false := by simpa [OneWorker, h.no_worker free] using h
    exact h'.start free
  | finish exit =>
    have h' : s.thread.Owned true := by simpa [OneWorker, exit] using h
    exact h'.return
  | leave stores => exact Thread.Owned.leave h stores
  | testExit here | testStarted here =>
    exact h.of_same rfl rfl (by simp only [here]; split <;> simp)
  | sleeps here | passes here =>
    exact h.of_same rfl rfl (by rcases here with hw | ⟨hw, _⟩ <;> simp [hw])
  | crashes hw | takes hw | waits hw | wakes hw | calls hw | skips hw | ends hw =>
    exact h.of_same rfl rfl (by simp [hw])
  | _ => exact h.of_same rfl rfl Iff.rfl

theorem oneWorker_create : create.OneWorker := Thread.owned_create

/-- The operation of the ledger that an action comes to, if it comes to one. -/
inductive Books (s : Looper) : Act → Ledger.Op → Prop where
  | post (p : Post) (pick : Option Waiter) : Books s (.post p pick) (.post (p.task s.posted.length))
  | cancel (id : Ptr) : Books s (.cancel id) (.cancel id)
  | clear : Books s .clear .clear
  | pop (now : ClockMs) : Books s (.section2 now) .pop
  | invoke : Books s .testState .invoke
  | skip (task : TimerTask) (taken : s.worker = .fetched task) (unfit : task.state ≠ .valid) :
      Books s .testState .destroy
  | done (task : TimerTask) (ran : s.worker = .running task) : Books s .procReturn .destroy

/-- What a step does to the ledger is what its one operation does, or nothing. -/
theorem step_books {s t : Looper} {a : Act} (h : s.OneWorker) (ht : s.step a = some t) :
    t.ledger = s.ledger ∨ ∃ op, s.Books a op ∧ s.ledger.step op = some t.ledger := by
  cases step_effect ht with
  | @post p pick _ on nonNull fresh =>
    refine Or.inr ⟨.post (p.task s.posted.length), .post p pick, ?_⟩
    simp only [Ledger.step]
    rw [if_pos ⟨rfl, rfl, nonNull, fresh⟩]
    rfl
  | @cancel id => exact Or.inr ⟨.cancel id, .cancel id, rfl⟩
  | clear => exact Or.inr ⟨.clear, .clear, rfl⟩
  | @takes now _ _ hw tasks =>
    exact Or.inr ⟨.pop, .pop now, by simp [ledger, Ledger.step, hw, tasks, Worker.hand]⟩
  | calls hw valid =>
    exact Or.inr ⟨.invoke, .invoke, by simp [ledger, Ledger.step, hw, valid, Worker.hand]⟩
  | @skips task hw unfit =>
    exact Or.inr ⟨.destroy, .skip task hw unfit, by simp [ledger, Ledger.step, hw, Worker.hand]⟩
  | @ends task hw =>
    exact Or.inr ⟨.destroy, .done task hw, by simp [ledger, Ledger.step, hw, Worker.hand]⟩
  | start _ free => exact Or.inl (by simp [ledger, h.no_worker free, Worker.hand])
  | testExit hw | testStarted hw =>
    exact Or.inl (by simp only [ledger, hw]; split <;> rfl)
  | sleeps here | passes here =>
    exact Or.inl (by rcases here with hw | ⟨hw, _⟩ <;> simp [ledger, hw, Worker.hand])
  | crashes hw | waits hw | wakes hw | finish hw => exact Or.inl (by simp [ledger, hw, Worker.hand])
  | _ => exact Or.inl rfl

theorem step_ledger {s t : Looper} {a : Act} (h : s.OneWorker) (ht : s.step a = some t) :
    t.ledger = s.ledger ∨ ∃ op, s.ledger.step op = some t.ledger := by
  rcases step_books h ht with he | ⟨op, _, hop⟩
  · exact Or.inl he
  · exact Or.inr ⟨op, hop⟩

theorem accounted_step {s t : Looper} {a : Act} (h : s.OneWorker) (hacc : s.ledger.Accounted)
    (ht : s.step a = some t) : t.ledger.Accounted := by
  rcases step_ledger h ht with he | ⟨op, hop⟩
  · exact he ▸ hacc
  · exact hacc.step hop

theorem refines : Refines step OneWorker ledger Ledger.step where
  keep _ _ _ h ht := h.step ht
  sim _ _ _ h ht := step_ledger h ht

/-- The books of a looper balance wherever a run leads. -/
theorem accounted {as : List Act} {s : Looper} (hr : run step create as = some s) :
    s.ledger.Accounted :=
  refines.invariant (q := Ledger.Accounted) (fun _ _ _ h hm => h.step hm) oneWorker_create
    Ledger.accounted_empty hr

end Awe.Looper
