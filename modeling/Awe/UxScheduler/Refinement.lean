import Awe.UxScheduler.Model

namespace Awe.UxScheduler
open Machine

theorem step_act {s t : UxScheduler} {a : Act} (h : s.step a = some t) : s.act a = some t := by
  unfold step at h
  obtain ⟨_, h⟩ := Option.ite_none_left_eq_some.mp h
  exact h

/-- What a post can do: nothing, or insert a task at a fresh address and signal. -/
theorem post_cases {s t : UxScheduler} {p : Post} {pick : Option Waiter}
    (ht : s.act (.post p pick) = some t) :
    (s.started = false ∧ t = s) ∨ ∃ cond, s.started ∧ p.id ≠ NULL ∧
      p.id ∉ s.ledger.allocated.map TimerTask.id ∧ s.cond.signal pick = some cond ∧
      t = { s with
        taskList := s.taskList.insert (p.task s.posted.length)
        cond := cond
        posted := s.posted ++ [p.task s.posted.length] } := by
  obtain ⟨⟨_, u⟩, hu, rfl⟩ := Option.map_eq_some_iff.mp ht
  simp only [post] at hu
  split at hu
  · rename_i hstarted
    cases hu
    exact Or.inl ⟨by simpa using hstarted, rfl⟩
  · rename_i hstarted
    obtain ⟨hfresh, hu⟩ := Option.ite_none_left_eq_some.mp hu
    obtain ⟨cond, hcond, he⟩ := Option.map_eq_some_iff.mp hu
    cases he
    exact Or.inr ⟨cond, by simpa using hstarted, fun hn => hfresh (Or.inl hn),
      fun hm => hfresh (Or.inr hm), hcond, rfl⟩

theorem cancel_cases (s : UxScheduler) (id : Ptr) :
    (s.cancel id).2 = s ∨ (s.cancel id).2 = { s with taskList := (s.taskList.cancel id).2 } := by
  unfold cancel
  split
  · exact Or.inl rfl
  · exact Or.inr rfl

/-- What the first section of a stop can do: nothing, or clear `_started` and signal. -/
theorem stop_cases {s t : UxScheduler} {c : Caller} {pick : Option Waiter}
    (ht : s.stop c pick = some t) :
    (s.started = false ∧ t = s) ∨ ∃ cond, s.started ∧ s.cond.signal pick = some cond ∧
      t = { s with
        started := false
        thread := s.thread.requestExit
        cond := cond
        calls := Function.update s.calls c .stopCheck } := by
  unfold stop at ht
  obtain ⟨_, ht⟩ := Option.ite_none_left_eq_some.mp ht
  split at ht
  · rename_i hstarted
    cases ht
    exact Or.inl ⟨by simpa using hstarted, rfl⟩
  · rename_i hstarted
    obtain ⟨cond, hcond, rfl⟩ := Option.map_eq_some_iff.mp ht
    exact Or.inr ⟨cond, by simpa using hstarted, hcond, rfl⟩

/-- Everything `awe_uxscheduler_rm` does up to its unlock or its wait. -/
theorem rm_cases {s t : UxScheduler} {c : Caller} {ufd : Int} (ht : s.rm c ufd = some t) :
    s.calls c = .none ∧ (c = .worker → s.worker.inCallback = true) ∧
      ((find s.uxeventList ufd = none ∧ t = s) ∨ ∃ uxe, find s.uxeventList ufd = some uxe ∧
        ((s.started ∧ c ≠ .worker ∧ t = { s with
            uxeventList := s.uxeventList.erase uxe
            haveRmopt := true
            cond := s.cond.wait (.call c)
            calls := Function.update s.calls c .rmWait }) ∨
          (¬ (s.started ∧ c ≠ .worker) ∧
            t = { s with uxeventList := s.uxeventList.erase uxe }))) := by
  unfold rm at ht
  obtain ⟨hmay, ht⟩ := Option.ite_none_left_eq_some.mp ht
  simp only [mayCall, Bool.not_eq_eq_eq_not, Bool.not_true,
    decide_eq_false_iff_not, not_not] at hmay
  refine ⟨hmay.1, hmay.2, ?_⟩
  split at ht
  · cases ht
    exact Or.inl ⟨by assumption, rfl⟩
  · rename_i uxe huxe
    refine Or.inr ⟨uxe, huxe, ?_⟩
    dsimp only at ht
    split at ht
    · rename_i hwait
      cases ht
      exact Or.inl ⟨hwait.1, hwait.2, rfl⟩
    · rename_i hwait
      cases ht
      exact Or.inr ⟨hwait, rfl⟩

theorem addEvent_ne_nil (list : List UxEvent) (addr : Ptr) (ufd : Int) (conditionSet : BitVec 32)
    (proc userdata : Ptr) : addEvent list addr ufd conditionSet proc userdata ≠ [] := by
  unfold addEvent
  split
  · simp
  · rename_i uxe hfind
    have hmem : uxe ∈ list := List.mem_of_find?_eq_some hfind
    intro hnil
    have hlen := congrArg List.length hnil
    rw [List.length_replace, List.length_nil, List.length_eq_zero_iff] at hlen
    rw [hlen] at hmem
    cases hmem

/-- Everything an add does: nothing, what `awe_uxscheduler_rm` does, or leave an event for
the descriptor and signal. -/
theorem add_cases {s t : UxScheduler} {c : Caller} {addr : Ptr} {ufd : Int}
    {conditionSet : BitVec 32} {proc userdata : Ptr} {pick : Option Waiter}
    (ht : s.act (.add c addr ufd conditionSet proc userdata pick) = some t) :
    (ufd = 0 ∧ t = s) ∨ (ufd ≠ 0 ∧ conditionSet = 0 ∧ s.rm c ufd = some t) ∨
    ∃ cond, ufd ≠ 0 ∧ conditionSet ≠ 0 ∧ addr ∉ s.uxeventList.map UxEvent.addr ∧
      s.cond.signal pick = some cond ∧ t = { s with
        uxeventList := addEvent s.uxeventList addr ufd conditionSet proc userdata
        cond := cond } := by
  obtain ⟨⟨_, u⟩, hu, rfl⟩ := Option.map_eq_some_iff.mp ht
  simp only [add] at hu
  obtain ⟨_, hu⟩ := Option.ite_none_left_eq_some.mp hu
  split at hu
  · rename_i hufd
    cases hu
    exact Or.inl ⟨hufd, rfl⟩
  · rename_i hufd
    split at hu
    · rename_i hset
      obtain ⟨v, hv, he⟩ := Option.map_eq_some_iff.mp hu
      cases he
      exact Or.inr (Or.inl ⟨hufd, hset, hv⟩)
    · rename_i hset
      obtain ⟨hfree, hu⟩ := Option.ite_none_left_eq_some.mp hu
      push Not at hfree
      obtain ⟨cond, hcond, he⟩ := Option.map_eq_some_iff.mp hu
      cases he
      exact Or.inr (Or.inr ⟨cond, hufd, hset, hfree.2, hcond, rfl⟩)

/-- `awe_uxscheduler_disable` and `awe_uxscheduler_enable` change the event list only. -/
theorem setConditions_eq (s : UxScheduler) (ufd : Int) (f : BitVec 32 → BitVec 32) :
    s.setConditions ufd f = { s with uxeventList := (s.setConditions ufd f).uxeventList } := by
  unfold setConditions
  split <;> rfl

theorem setConditions_eq_nil (s : UxScheduler) (ufd : Int) (f : BitVec 32 → BitVec 32) :
    (s.setConditions ufd f).uxeventList = [] ↔ s.uxeventList = [] := by
  unfold setConditions
  split
  · exact Iff.rfl
  · rw [← List.length_eq_zero_iff, List.length_replace, List.length_eq_zero_iff]

/-- The removal that an action makes, with its caller. -/
def Act.removal : Act → Option (Caller × Int)
  | .rm c ufd => some (c, ufd)
  | .add c _ ufd conditionSet _ _ _ => if ufd ≠ 0 ∧ conditionSet = 0 then some (c, ufd) else none
  | _ => none

def Act.ofWorker : Act → Bool
  | .testExit | .guard | .testStarted | .prepare _ | .select .. | .dispatch | .handle
  | .handlerReturn | .endRound _ | .testTask | .procReturn | .finish => true
  | _ => false

theorem Act.ofWorker_of_removal {a : Act} {k : Caller × Int} (h : a.removal = some k) :
    a.ofWorker = false := by
  cases a with
  | rm | add => rfl
  | _ => cases h

/-- At work, with neither an event nor a task in hand. -/
def Worker.emptyHanded : Worker → Bool
  | .loop | .guard | .idle | .test | .prepare | .select .. | .dispatch _ | .endRound | .exit => true
  | _ => false

theorem Worker.hand_of_emptyHanded {w : Worker} (h : w.emptyHanded) : w.hand = .empty := by
  cases w <;> first | rfl | cases h

/-- The calls that find nothing to do. -/
inductive Ignored (s : UxScheduler) : Act → Prop where
  | start {delayMs : DelayMs} (on : s.started = true) : Ignored s (.start delayMs)
  | stop {c : Caller} {pick : Option Waiter} (off : s.started = false) : Ignored s (.stop c pick)
  | post {p : Post} {pick : Option Waiter} (off : s.started = false) : Ignored s (.post p pick)
  | cancel {id : Ptr} (off : s.started = false) : Ignored s (.cancel id)
  | add {c : Caller} {addr : Ptr} {conditionSet : BitVec 32} {proc userdata : Ptr}
      {pick : Option Waiter} : Ignored s (.add c addr 0 conditionSet proc userdata pick)
  | rm {a : Act} {c : Caller} {ufd : Int} (removal : a.removal = some (c, ufd))
      (absent : find s.uxeventList ufd = none) : Ignored s a

theorem Ignored.ofWorker {s : UxScheduler} {a : Act} (h : s.Ignored a) : a.ofWorker = false := by
  cases h with
  | rm removal => exact Act.ofWorker_of_removal removal
  | _ => rfl

/-- What a step can do. `moves` is a step of the worker that takes up no event and no task. -/
inductive Effect (s : UxScheduler) : Act → UxScheduler → Prop where
  | same {a : Act} (ignored : s.Ignored a) : Effect s a s
  | start {delayMs : DelayMs} (off : s.started = false) (free : s.thread.tid = false) :
      Effect s (.start delayMs) { s with
        started := true
        delayMs := if delayMs.ms ≤ 60000 then delayMs.ms else 1000
        thread := { s.thread with tid := true }
        starting := .created
        worker := .loop }
  | reset (created : s.starting = .created) :
      Effect s .startStore { s with
        thread := { s.thread with exitPending := false }
        starting := .reset }
  | launch (reset : s.starting = .reset) :
      Effect s .startStore { s with
        thread := { s.thread with running := true }
        starting := .none }
  | stop {c : Caller} {pick : Option Waiter} {cond : CondVar Waiter} (may : s.mayCall c)
      (on : s.started = true) (signal : s.cond.signal pick = some cond) :
      Effect s (.stop c pick) { s with
        started := false
        thread := s.thread.requestExit
        cond := cond
        calls := Function.update s.calls c .stopCheck }
  | stopWaits {c : Caller} (waits : s.calls c = .stopCheck ∨ s.calls c = .stopWait)
      (running : s.thread.running) :
      Effect s (.stopCheck c) { s with
        cond := s.cond.wait (.call c)
        calls := Function.update s.calls c .stopWait }
  | stopReturns {c : Caller} (waits : s.calls c = .stopCheck ∨ s.calls c = .stopWait)
      (ended : s.thread.running = false) :
      Effect s (.stopCheck c) { s with calls := Function.update s.calls c .none }
  | rmWaits {a : Act} {c : Caller} {ufd : Int} {uxe : UxEvent} (removal : a.removal = some (c, ufd))
      (free : s.calls c = .none) (waits : s.started ∧ c ≠ .worker)
      (found : find s.uxeventList ufd = some uxe) :
      Effect s a { s with
        uxeventList := s.uxeventList.erase uxe
        haveRmopt := true
        cond := s.cond.wait (.call c)
        calls := Function.update s.calls c .rmWait }
  | rm {a : Act} {c : Caller} {ufd : Int} {uxe : UxEvent} (removal : a.removal = some (c, ufd))
      (inside : c = .worker → s.worker.inCallback = true) (waitless : ¬ (s.started ∧ c ≠ .worker))
      (found : find s.uxeventList ufd = some uxe) :
      Effect s a { s with uxeventList := s.uxeventList.erase uxe }
  | rmReturn {c : Caller} (waits : s.calls c = .rmWait) (awake : .call c ∉ s.cond.waiters) :
      Effect s (.rmReturn c) { s with calls := Function.update s.calls c .none }
  | add {c : Caller} {addr : Ptr} {ufd : Int} {conditionSet : BitVec 32} {proc userdata : Ptr}
      {pick : Option Waiter} {cond : CondVar Waiter} (named : ufd ≠ 0 ∧ conditionSet ≠ 0)
      (fresh : addr ∉ s.uxeventList.map UxEvent.addr) (signal : s.cond.signal pick = some cond) :
      Effect s (.add c addr ufd conditionSet proc userdata pick) { s with
        uxeventList := addEvent s.uxeventList addr ufd conditionSet proc userdata
        cond := cond }
  | disable {ufd : Int} {events : BitVec 32} :
      Effect s (.disable ufd events) { s with uxeventList := (s.disable ufd events).uxeventList }
  | enable {ufd : Int} {events : BitVec 32} :
      Effect s (.enable ufd events) { s with uxeventList := (s.enable ufd events).uxeventList }
  | post {p : Post} {pick : Option Waiter} {cond : CondVar Waiter} (on : s.started)
      (nonNull : p.id ≠ NULL) (fresh : p.id ∉ s.ledger.allocated.map TimerTask.id)
      (signal : s.cond.signal pick = some cond) :
      Effect s (.post p pick) { s with
        taskList := s.taskList.insert (p.task s.posted.length)
        cond := cond
        posted := s.posted ++ [p.task s.posted.length] }
  | cancel {id : Ptr} (on : s.started = true) :
      Effect s (.cancel id) { s with taskList := (s.taskList.cancel id).2 }
  | clear : Effect s .clear s.clear
  | timeout {c : Caller} : Effect s (.timeout c) { s with cond := s.cond.timeout (.call c) }
  | sleeps (here : s.worker = .guard ∨ s.worker = .idle) (on : s.started = true)
      (bare : s.uxeventList = []) :
      Effect s .guard { s with cond := s.cond.wait .idle, worker := .idle }
  | moves {a : Act} {w : Worker} (work : a.ofWorker) (here : s.worker.emptyHanded)
      (there : w.emptyHanded) (awake : w ≠ .idle) : Effect s a { s with worker := w }
  | finds {ready : Ready} {todo : List Ready} {uxe : UxEvent}
      (round : s.worker = .dispatch (ready :: todo))
      (found : find s.uxeventList ready.ufd = some uxe) :
      Effect s .dispatch { s with worker := .found uxe.addr ready todo }
  | crash {addr : Ptr} {ready : Ready} {todo : List Ready}
      (hand : s.worker = .found addr ready todo)
      (gone : s.uxeventList.find? (fun e => e.addr = addr) = none) :
      Effect s .handle { s with worker := .crashed }
  | handles {addr : Ptr} {ready : Ready} {todo : List Ready} {uxe : UxEvent}
      (hand : s.worker = .found addr ready todo)
      (live : s.uxeventList.find? (fun e => e.addr = addr) = some uxe) (proc : uxe.proc ≠ NULL) :
      Effect s .handle { s with worker := .handling ready todo }
  | returns {ready : Ready} {todo : List Ready} (hand : s.worker = .handling ready todo)
      (free : s.calls .worker = .none) :
      Effect s .handlerReturn { s with worker := .dispatch todo }
  | endsRound {now : ClockMs} (round : s.worker = .endRound) :
      Effect s (.endRound now) { s with haveRmopt := false, cond := s.afterRmopt, worker := .loop }
  | takes {now : ClockMs} {task : TimerTask} {rest : TimerTaskList} (round : s.worker = .endRound)
      (tasks : s.taskList = task :: rest) :
      Effect s (.endRound now) { s with
        taskList := rest
        haveRmopt := false
        cond := s.afterRmopt
        worker := .fetched task }
  | calls {task : TimerTask} (hand : s.worker = .fetched task)
      (fit : task.proc ≠ NULL ∧ task.state = .valid) :
      Effect s .testTask { s with worker := .running task, invoked := s.invoked ++ [task] }
  | skips {task : TimerTask} (hand : s.worker = .fetched task)
      (unfit : ¬ (task.proc ≠ NULL ∧ task.state = .valid)) :
      Effect s .testTask { s with worker := .loop, destroyed := s.destroyed ++ [task.ticket] }
  | ends {task : TimerTask} (hand : s.worker = .running task) (free : s.calls .worker = .none) :
      Effect s .procReturn { s with worker := .loop, destroyed := s.destroyed ++ [task.ticket] }
  | finish (exit : s.worker = .exit) :
      Effect s .finish { s with
        cond := s.cond.broadcast
        thread := { s.thread with leaving := s.thread.leaving ++ [.clearTid] }
        worker := .none }
  | leave {n : Nat} {u : Thread} (stores : s.thread.leave n = some u) :
      Effect s (.leave n) { s with thread := u }

section Effect

variable {s t : UxScheduler} {a : Act}

theorem rm_effect {c : Caller} {ufd : Int} (hremoval : a.removal = some (c, ufd))
    (ht : s.rm c ufd = some t) : s.Effect a t := by
  obtain ⟨hfree, hinside, ⟨hnone, rfl⟩ | ⟨uxe, huxe, ⟨hon, hc, rfl⟩ | ⟨hwaitless, rfl⟩⟩⟩ :=
    rm_cases ht
  · exact .same (.rm hremoval hnone)
  · exact .rmWaits hremoval hfree ⟨hon, hc⟩ huxe
  · exact .rm hremoval hinside hwaitless huxe

theorem stop_effect {c : Caller} {pick : Option Waiter} (ht : s.stop c pick = some t) :
    s.Effect (.stop c pick) t := by
  have hmay : s.mayCall c = true := by
    by_contra hno
    simp [UxScheduler.stop, hno] at ht
  rcases stop_cases ht with ⟨hoff, rfl⟩ | ⟨cond, hon, hcond, rfl⟩
  · exact .same (.stop hoff)
  · exact .stop hmay hon hcond

/-- The test of `_running` is made by a caller that has come to it or has been woken. -/
theorem stopCheck_cases {c : Caller} (ht : s.stopCheck c = some t) :
    (s.calls c = .stopCheck ∨ s.calls c = .stopWait) ∧ t = if s.thread.running then
      { s with
        cond := s.cond.wait (.call c)
        calls := Function.update s.calls c .stopWait }
    else { s with calls := Function.update s.calls c .none } := by
  cases hc : s.calls c with
  | stopCheck =>
    simp only [UxScheduler.stopCheck, hc] at ht
    exact ⟨Or.inl rfl, (Option.some.inj ht).symm⟩
  | stopWait =>
    simp only [UxScheduler.stopCheck, hc] at ht
    obtain ⟨_, ht⟩ := Option.ite_none_left_eq_some.mp ht
    exact ⟨Or.inr rfl, (Option.some.inj ht).symm⟩
  | none | rmWait =>
    simp only [UxScheduler.stopCheck, hc] at ht
    cases ht

theorem stopCheck_effect {c : Caller} (ht : s.stopCheck c = some t) :
    s.Effect (.stopCheck c) t := by
  obtain ⟨hwaits, rfl⟩ := stopCheck_cases ht
  split
  · exact .stopWaits hwaits (by assumption)
  · rename_i hover
    exact .stopReturns hwaits (by simpa using hover)

theorem guard_effect (ht : s.guard = some t) : s.Effect .guard t := by
  have htest : (s.worker = .guard ∨ s.worker = .idle) ∧
      t = if s.started ∧ s.uxeventList = [] then
        { s with cond := s.cond.wait .idle, worker := .idle }
      else { s with worker := .test } := by
    cases hw : s.worker with
    | guard =>
      simp only [UxScheduler.guard, hw] at ht
      exact ⟨Or.inl rfl, (Option.some.inj ht).symm⟩
    | idle =>
      simp only [UxScheduler.guard, hw] at ht
      obtain ⟨_, ht⟩ := Option.ite_none_left_eq_some.mp ht
      exact ⟨Or.inr rfl, (Option.some.inj ht).symm⟩
    | _ =>
      simp only [UxScheduler.guard, hw] at ht
      cases ht
  obtain ⟨here, rfl⟩ := htest
  split
  · rename_i hbare
    exact .sleeps here hbare.1 hbare.2
  · exact .moves rfl (by rcases here with hw | hw <;> rw [hw] <;> rfl) rfl nofun

theorem dispatch_effect (ht : s.dispatch = some t) : s.Effect .dispatch t := by
  unfold UxScheduler.dispatch at ht
  split at ht
  · rename_i hw
    cases ht
    exact .moves rfl (by rw [hw]; rfl) rfl nofun
  · rename_i hw
    split at ht <;> cases ht
    · exact .moves rfl (by rw [hw]; rfl) rfl nofun
    · exact .finds hw (by assumption)
  · cases ht

theorem handle_effect (ht : s.handle = some t) : s.Effect .handle t := by
  unfold UxScheduler.handle at ht
  split at ht
  · rename_i hw
    split at ht
    · cases ht
      exact .crash hw (by assumption)
    · obtain ⟨hproc, ht⟩ := Option.ite_none_left_eq_some.mp ht
      cases ht
      exact .handles hw (by assumption) hproc
  · cases ht

theorem endRound_effect {now : ClockMs} (ht : s.endRound now = some t) :
    s.Effect (.endRound now) t := by
  unfold endRound at ht
  split at ht
  · rename_i hw _
    cases ht
    exact .endsRound hw
  · rename_i hw hlist
    split at ht <;> cases ht
    · exact .takes hw hlist
    · exact .endsRound hw
  · cases ht

theorem act_effect (ht : s.act a = some t) : s.Effect a t := by
  cases a with
  | start delayMs =>
    simp only [act, UxScheduler.start] at ht
    split at ht
    · cases ht
      exact .same (.start (by assumption))
    · rename_i hoff
      obtain ⟨htid, ht⟩ := Option.ite_none_left_eq_some.mp ht
      cases ht
      exact .start (by simpa using hoff) (by simpa using htid)
  | startStore =>
    simp only [act, startStore] at ht
    split at ht
    · rename_i hcreated
      cases ht
      exact .reset hcreated
    · rename_i hreset
      cases ht
      exact .launch hreset
    · cases ht
  | stop c pick => exact stop_effect ht
  | stopCheck c => exact stopCheck_effect ht
  | rm c ufd => exact rm_effect rfl ht
  | rmReturn c =>
    simp only [act, UxScheduler.rmReturn] at ht
    split at ht
    · rename_i hwait
      obtain ⟨hawake, ht⟩ := Option.ite_none_left_eq_some.mp ht
      cases ht
      exact .rmReturn hwait hawake
    · cases ht
  | add c addr ufd conditionSet proc userdata pick =>
    rcases add_cases ht with ⟨rfl, rfl⟩ | ⟨hufd, hset, hrm⟩ | ⟨cond, hufd, hset, hfresh, hcond, rfl⟩
    · exact .same .add
    · exact rm_effect (if_pos ⟨hufd, hset⟩) hrm
    · exact .add ⟨hufd, hset⟩ hfresh hcond
  | disable ufd events =>
    cases ht
    rw [disable, setConditions_eq]
    exact .disable
  | enable ufd events =>
    cases ht
    rw [enable, setConditions_eq]
    exact .enable
  | post p pick =>
    rcases post_cases ht with ⟨hoff, rfl⟩ | ⟨cond, hon, hnull, hid, hcond, rfl⟩
    · exact .same (.post hoff)
    · exact .post hon hnull hid hcond
  | cancel id =>
    cases ht
    unfold UxScheduler.cancel
    split
    · rename_i hoff
      exact .same (.cancel (by simpa using hoff))
    · rename_i hon
      exact .cancel (by simpa using hon)
  | clear =>
    cases ht
    exact .clear
  | timeout c =>
    cases ht
    exact .timeout
  | guard => exact guard_effect ht
  | dispatch => exact dispatch_effect ht
  | handle => exact handle_effect ht
  | handlerReturn =>
    simp only [act, handlerReturn] at ht
    split at ht
    · rename_i hw
      obtain ⟨hfree, ht⟩ := Option.ite_none_right_eq_some.mp ht
      cases ht
      exact .returns hw hfree
    · cases ht
  | endRound now => exact endRound_effect ht
  | testTask =>
    simp only [act, testTask] at ht
    split at ht
    · rename_i task hw
      split at ht <;> cases ht
      · exact .calls hw (by assumption)
      · exact .skips hw (by assumption)
    · cases ht
  | procReturn =>
    simp only [act, procReturn] at ht
    split at ht
    · rename_i task hw
      obtain ⟨hfree, ht⟩ := Option.ite_none_right_eq_some.mp ht
      cases ht
      exact .ends hw hfree
    · cases ht
  | finish =>
    simp only [act, UxScheduler.finish] at ht
    split at ht
    · rename_i hw
      cases ht
      exact .finish hw
    · cases ht
  | leave n =>
    obtain ⟨u, hu, rfl⟩ := Option.map_eq_some_iff.mp ht
    exact .leave hu
  | testExit | testStarted | prepare | select =>
    simp only [act, testExit, testStarted, prepare, select] at ht
    repeat' first | split at ht | cases ht
    all_goals
      refine .moves rfl ?_ ?_ ?_ <;> simp [*, Worker.emptyHanded]

theorem step_effect (ht : s.step a = some t) : s.Effect a t := act_effect (step_act ht)

end Effect

/-- There is at most one worker, and `_tid` is set as long as it runs. -/
def OneWorker (s : UxScheduler) : Prop := s.thread.Owned (decide (s.worker ≠ .none))

theorem OneWorker.of_same {s t : UxScheduler} (h : s.OneWorker)
    (ht : t.thread.leaving = s.thread.leaving) (hi : t.thread.tid = s.thread.tid)
    (hw : t.worker ≠ .none ↔ s.worker ≠ .none) : t.OneWorker := by
  obtain ⟨honce, htid, hlatest⟩ := h
  unfold OneWorker
  rw [decide_eq_decide.mpr hw]
  exact ⟨ht ▸ honce, hi ▸ ht ▸ htid, ht ▸ hlatest⟩

theorem OneWorker.tid {s : UxScheduler} (h : s.OneWorker) (hw : s.worker ≠ .none) :
    s.thread.tid = true :=
  Thread.Owned.tid h (Or.inl (decide_eq_true hw))

theorem OneWorker.no_worker {s : UxScheduler} (h : s.OneWorker) (htid : s.thread.tid = false) :
    s.worker = .none := by
  by_contra hne
  rw [h.tid hne] at htid
  cases htid

/-- What a start can do: nothing, or create a worker where there is none. -/
theorem start_cases {s t : UxScheduler} {delayMs : DelayMs} (h : s.OneWorker)
    (ht : s.start delayMs = some t) :
    t = s ∨ (s.worker = .none ∧ s.thread.tid = false ∧ ∃ d, t = { s with
      started := true
      delayMs := d
      thread := { s.thread with tid := true }
      starting := .created
      worker := .loop }) := by
  have heffect : s.Effect (.start delayMs) t := act_effect ht
  cases heffect with
  | same => exact Or.inl rfl
  | start _ free => exact Or.inr ⟨h.no_worker free, free, _, rfl⟩
  | rmWaits removal | rm removal => cases removal
  | moves work => cases work

theorem Worker.ne_none_of_emptyHanded {w : Worker} (h : w.emptyHanded) : w ≠ .none := by
  rintro rfl
  cases h

theorem OneWorker.step {s t : UxScheduler} {a : Act} (h : s.OneWorker) (ht : s.step a = some t) :
    t.OneWorker := by
  cases step_effect ht with
  | start off free =>
    have h' : s.thread.Owned false := by simpa [OneWorker, h.no_worker free] using h
    exact h'.start free
  | finish exit =>
    have h' : s.thread.Owned true := by simpa [OneWorker, exit] using h
    exact h'.return
  | leave stores => exact Thread.Owned.leave h stores
  | sleeps here =>
    exact h.of_same rfl rfl (iff_of_true nofun (by rcases here with hw | hw <;> simp [hw]))
  | moves _ here there =>
    exact h.of_same rfl rfl
      (iff_of_true (Worker.ne_none_of_emptyHanded there) (Worker.ne_none_of_emptyHanded here))
  | finds hw | crash hw | handles hw | returns hw | endsRound hw | takes hw | calls hw | skips hw
  | ends hw => exact h.of_same rfl rfl (by simp [hw])
  | _ => exact h.of_same rfl rfl Iff.rfl

theorem oneWorker_create : create.OneWorker := Thread.owned_create

/-- The operation of the ledger that an action comes to, if it comes to one. -/
inductive Books (s : UxScheduler) : Act → Ledger.Op → Prop where
  | post (p : Post) (pick : Option Waiter) : Books s (.post p pick) (.post (p.task s.posted.length))
  | cancel (on : s.started = true) (id : Ptr) : Books s (.cancel id) (.cancel id)
  | clear : Books s .clear .clear
  | pop (now : ClockMs) : Books s (.endRound now) .pop
  | invoke : Books s .testTask .invoke
  | skip (task : TimerTask) (taken : s.worker = .fetched task)
      (unfit : ¬ (task.proc ≠ NULL ∧ task.state = .valid)) : Books s .testTask .destroy
  | done (task : TimerTask) (ran : s.worker = .running task) : Books s .procReturn .destroy

/-- What a step does to the ledger is what its one operation does, or nothing. -/
theorem step_books {s t : UxScheduler} {a : Act} (h : s.OneWorker) (ht : s.step a = some t) :
    t.ledger = s.ledger ∨ ∃ op, s.Books a op ∧ s.ledger.step op = some t.ledger := by
  cases step_effect ht with
  | start off free => exact Or.inl (by simp [ledger, h.no_worker free, Worker.hand])
  | @post p pick _ on nonNull fresh =>
    refine Or.inr ⟨.post (p.task s.posted.length), .post p pick, ?_⟩
    simp only [Ledger.step]
    rw [if_pos ⟨rfl, rfl, nonNull, fresh⟩]
    rfl
  | @cancel id on => exact Or.inr ⟨.cancel id, .cancel on id, rfl⟩
  | clear => exact Or.inr ⟨.clear, .clear, rfl⟩
  | moves _ here there =>
    exact Or.inl (by
      simp [ledger, Worker.hand_of_emptyHanded here, Worker.hand_of_emptyHanded there])
  | sleeps here =>
    exact Or.inl (by rcases here with hw | hw <;> simp [ledger, hw, Worker.hand])
  | @takes now _ _ hw tasks =>
    exact Or.inr ⟨.pop, .pop now, by simp [ledger, Ledger.step, hw, tasks, Worker.hand]⟩
  | calls hw fit =>
    exact Or.inr ⟨.invoke, .invoke, by simp [ledger, Ledger.step, hw, fit.2, Worker.hand]⟩
  | skips hw unfit =>
    exact Or.inr ⟨.destroy, .skip _ hw unfit, by simp [ledger, Ledger.step, hw, Worker.hand]⟩
  | ends hw => exact Or.inr ⟨.destroy, .done _ hw, by simp [ledger, Ledger.step, hw, Worker.hand]⟩
  | finds hw | crash hw | handles hw | returns hw | endsRound hw | finish hw =>
    exact Or.inl (by simp [ledger, hw, Worker.hand])
  | _ => exact Or.inl rfl

theorem step_ledger {s t : UxScheduler} {a : Act} (h : s.OneWorker) (ht : s.step a = some t) :
    t.ledger = s.ledger ∨ ∃ op, s.ledger.step op = some t.ledger := by
  rcases step_books h ht with he | ⟨op, _, hop⟩
  · exact Or.inl he
  · exact Or.inr ⟨op, hop⟩

theorem refines : Refines step OneWorker ledger Ledger.step where
  keep _ _ _ h ht := h.step ht
  sim _ _ _ h ht := step_ledger h ht

theorem oneWorker {as : List Act} {s : UxScheduler} (hr : run step create as = some s) :
    s.OneWorker :=
  Machine.invariant (fun _ _ _ h ht => OneWorker.step h ht) oneWorker_create hr

/-- The books of a scheduler balance wherever a run leads. -/
theorem accounted {as : List Act} {s : UxScheduler} (hr : run step create as = some s) :
    s.ledger.Accounted :=
  refines.invariant (q := Ledger.Accounted) (fun _ _ _ h hm => h.step hm) oneWorker_create
    Ledger.accounted_empty hr

end Awe.UxScheduler
