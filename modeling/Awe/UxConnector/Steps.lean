import Awe.UxConnector.Callbacks
import Awe.UxConnector.StaleCancel
import Awe.UxScheduler.Events

namespace Awe

namespace UxScheduler
open UxConnector (connecthandlingProc connecttimeoutProc)

/-- A connector's handler is registered for a descriptor. -/
def Watched (s : UxScheduler) (self : Ptr) (ufd : Int) : Prop :=
  ∃ e ∈ s.uxeventList, e.proc = connecthandlingProc ∧ e.userdata = self ∧ e.ufd = ufd

/-- A connector's timeout is still to run. -/
def Live (s : UxScheduler) (t : TimerTask) : Prop :=
  t.state = .valid ∧ t.proc = connecttimeoutProc ∧ (t ∈ s.taskList ∨ s.worker = .fetched t)

structure Fewer (s t : UxScheduler) : Prop where
  watched : ∀ self ufd, t.Watched self ufd → s.Watched self ufd
  live : ∀ u, t.Live u → s.Live u
  started : t.started = true → s.started = true

structure Apart (s t : UxScheduler) : Prop extends Fewer s t where
  keeps : ∀ u, s.Live u → t.Live u

variable {s t : UxScheduler}

theorem apart_of_same (hevents : t.uxeventList = s.uxeventList) (htasks : t.taskList = s.taskList)
    (hfetched : ∀ u, t.worker = .fetched u ↔ s.worker = .fetched u)
    (hstarted : t.started = true → s.started = true) : s.Apart t where
  watched self ufd h := by
    unfold Watched at h ⊢
    rwa [hevents] at h
  live u h := by
    unfold Live at h ⊢
    rwa [htasks, hfetched] at h
  keeps u h := by
    unfold Live at h ⊢
    rwa [htasks, hfetched]
  started := hstarted

theorem apart_of_live (hwatched : ∀ self ufd, t.Watched self ufd → s.Watched self ufd)
    (hlive : ∀ u, t.Live u ↔ s.Live u) (hstarted : t.started = true → s.started = true) :
    s.Apart t := ⟨⟨hwatched, fun u => (hlive u).mp, hstarted⟩, fun u => (hlive u).mpr⟩

theorem mem_of_mem_replace {list : List UxEvent} {a b e : UxEvent} (h : e ∈ list.replace a b) :
    e ∈ list ∨ e = b := by
  induction list with
  | nil => cases h
  | cons x list ih =>
    rw [List.replace_cons] at h
    split at h
    · rcases List.mem_cons.mp h with rfl | h
      · exact Or.inr rfl
      · exact Or.inl (List.mem_cons_of_mem _ h)
    · rcases List.mem_cons.mp h with rfl | h
      · exact Or.inl List.mem_cons_self
      · exact (ih h).imp_left (List.mem_cons_of_mem _)

/-- An add registers one handler for one descriptor. -/
theorem mem_addEvent {list : List UxEvent} {addr : Ptr} {ufd : Int} {conditionSet : BitVec 32}
    {proc userdata : Ptr} {e : UxEvent}
    (h : e ∈ addEvent list addr ufd conditionSet proc userdata) :
    e ∈ list ∨ (e.proc = proc ∧ e.userdata = userdata ∧ e.ufd = ufd) := by
  unfold addEvent at h
  split at h
  · rcases List.mem_append.mp h with h | h
    · exact Or.inl h
    · rw [List.mem_singleton] at h
      subst h
      exact Or.inr ⟨rfl, rfl, rfl⟩
  · rename_i uxe hfind
    rcases mem_of_mem_replace h with h | rfl
    · exact Or.inl h
    · exact Or.inr ⟨rfl, rfl, by simpa using List.find?_some hfind⟩

theorem watched_setConditions {ufd ufd' : Int} {f : BitVec 32 → BitVec 32} {self : Ptr}
    (h : (s.setConditions ufd f).Watched self ufd') : s.Watched self ufd' := by
  unfold setConditions at h
  split at h
  · exact h
  · rename_i uxe hfind
    obtain ⟨e, he, hproc, hself, hufd⟩ := h
    rcases mem_of_mem_replace he with he | rfl
    · exact ⟨e, he, hproc, hself, hufd⟩
    · exact ⟨uxe, List.mem_of_find?_eq_some hfind, hproc, hself, hufd⟩

theorem Worker.ne_fetched {w : Worker} (h : w.emptyHanded) {task : TimerTask} :
    w ≠ .fetched task := by
  rintro rfl
  cases h

theorem foreign_removal {a : Act} (ha : a.foreign = true) : a.removal = none := by
  cases a with
  | rm => cases ha
  | add c addr ufd conditionSet proc userdata pick =>
    simp only [Act.foreign, ne_eq, decide_eq_true_eq] at ha
    simp only [Act.removal]
    exact if_neg (fun hset => ha.1 hset.2)
  | _ => rfl

theorem foreign_apart {a : Act} (ha : a.foreign = true) (hne : a ≠ .testTask)
    (ht : s.step a = some t) : s.Apart t := by
  have hremoval := foreign_removal ha
  cases step_effect ht with
  | start | reset | launch | clear | cancel => cases ha
  | calls | skips => exact absurd rfl hne
  | rmWaits removal | rm removal =>
    rw [hremoval] at removal
    cases removal
  | add =>
    simp only [Act.foreign, ne_eq, decide_eq_true_eq] at ha
    refine apart_of_live (fun self ufd' h => ?_) (fun _ => Iff.rfl) id
    obtain ⟨e, he, hproc, hself, hufd⟩ := h
    rcases mem_addEvent he with he | ⟨hp, _⟩
    · exact ⟨e, he, hproc, hself, hufd⟩
    · exact absurd (hp.symm.trans hproc) ha.2
  | post =>
    simp only [Act.foreign, ne_eq, decide_eq_true_eq] at ha
    refine apart_of_live (fun _ _ h => h) (fun u => ?_) id
    simp only [Live, TimerTaskList.insert, StableQueue.mem_insert]
    constructor
    · intro hlive
      rcases hlive with ⟨hvalid, hproc, (rfl | hu) | hw⟩
      · exact absurd hproc ha
      · exact ⟨hvalid, hproc, Or.inl hu⟩
      · exact ⟨hvalid, hproc, Or.inr hw⟩
    · intro hlive
      rcases hlive with ⟨hvalid, hproc, hu | hw⟩
      · exact ⟨hvalid, hproc, Or.inl (Or.inr hu)⟩
      · exact ⟨hvalid, hproc, Or.inr hw⟩
  | disable | enable =>
    exact apart_of_live (fun _ _ h => watched_setConditions h) (fun _ => Iff.rfl) id
  | stop => exact apart_of_same rfl rfl (fun _ => Iff.rfl) nofun
  | takes round tasks =>
    refine apart_of_live (fun _ _ h => h) (fun u => ?_) id
    simp only [Live, tasks, round, List.mem_cons, Worker.fetched.injEq, reduceCtorEq, or_false]
    tauto
  | moves _ here there =>
    exact apart_of_same rfl rfl (fun u => iff_of_false (Worker.ne_fetched there)
      (Worker.ne_fetched here)) id
  | sleeps here =>
    exact apart_of_same rfl rfl (by rcases here with hw | hw <;> simp [hw]) id
  | finds hw | crash hw | handles hw | returns hw | endsRound hw | ends hw | finish hw =>
    exact apart_of_same rfl rfl (by simp [hw]) id
  | _ => exact apart_of_same rfl rfl (fun _ => Iff.rfl) id

theorem Worker.outside_of_emptyHanded {w : Worker} (h : w.emptyHanded) : w.inCallback = false := by
  cases w <;> first | rfl | cases h

/-- Otherwise the worker stays where it is, or goes from one place outside of the callbacks
to another. -/
theorem foreign_worker {a : Act} (ha : a.foreign = true) (hreturns : a.returns = false)
    (hhandle : a ≠ .handle) (htest : a ≠ .testTask) (ht : s.step a = some t) :
    t.worker = s.worker ∨ (s.worker.inCallback = false ∧ t.worker.inCallback = false) := by
  cases step_effect ht with
  | start => cases ha
  | handles | crash => exact absurd rfl hhandle
  | calls | skips => exact absurd rfl htest
  | returns | ends => cases hreturns
  | moves _ here there =>
    exact Or.inr ⟨Worker.outside_of_emptyHanded here, Worker.outside_of_emptyHanded there⟩
  | sleeps here => exact Or.inr ⟨by rcases here with hw | hw <;> rw [hw] <;> rfl, rfl⟩
  | finds hw | endsRound hw | takes hw | finish hw => exact Or.inr ⟨by rw [hw]; rfl, rfl⟩
  | _ => exact Or.inl rfl

/-- A task that the worker has fetched is started by its test alone. -/
theorem eq_testTask_of_running {a : Act} {task : TimerTask} (ha : a.foreign = true)
    (ht : s.step a = some t) (hw : s.worker = .fetched task) (hrun : t.worker = .running task) :
    a = .testTask := by
  have hact := step_act ht
  have hreturns : a.returns = false := by
    cases a with
    | handlerReturn | procReturn => simp [act, handlerReturn, procReturn, hw] at hact
    | _ => rfl
  have hhandle : a ≠ .handle := by
    intro heq
    subst heq
    simp [act, UxScheduler.handle, hw] at hact
  by_contra hne
  rcases foreign_worker ha hreturns hhandle hne ht with he | ⟨_, hout⟩
  · rw [hrun, hw] at he
    cases he
  · simp [hrun, Worker.inCallback] at hout

theorem Live.allocated {u : TimerTask} (h : s.Live u) : u ∈ s.ledger.allocated := by
  rcases h.2.2 with hu | hw
  · exact List.mem_append_left _ hu
  · exact List.mem_append_right _ (by simp [ledger, hw, Worker.hand, Hand.tasks])

/-- A task is not on the list and in the worker's hand at once. -/
theorem not_held (hacc : s.ledger.Accounted) {u v : TimerTask} (hu : u ∈ s.taskList)
    (hv : v ∈ s.worker.hand.tasks) : u.id ≠ v.id := by
  have hd := hacc.distinct
  simp only [Ledger.allocated, List.map_append] at hd
  exact fun he => (List.nodup_append'.mp hd).2.2 (List.mem_map_of_mem hu)
    (he ▸ List.mem_map_of_mem hv)

theorem Live.eq_of_id (hacc : s.ledger.Accounted) {u v : TimerTask} (hu : s.Live u)
    (hv : s.Live v) (h : u.id = v.id) : u = v :=
  List.inj_on_of_nodup_map hacc.distinct hu.allocated hv.allocated h

/-- A cancel ends the timeout it finds on the list, and no other. -/
theorem live_cancel (hacc : s.ledger.Accounted) (id : Ptr) (u : TimerTask) :
    (s.cancel id).2.Live u ↔
      s.Live u ∧ ¬ (s.started = true ∧ u ∈ s.taskList ∧ u.id = id) := by
  have hn : (s.taskList.map TimerTask.id).Nodup := by
    have hd := hacc.distinct
    simp only [Ledger.allocated, List.map_append] at hd
    exact (List.nodup_append'.mp hd).1
  cases hst : s.started with
  | false => simp [UxClients.cancel_not_started hst]
  | true =>
    rw [UxClients.cancel_started hst]
    simp only [Live, true_and]
    constructor
    · intro hlive
      rcases hlive with ⟨hvalid, hproc, hu | hw⟩
      · have hin : u ∈ s.taskList := by
          rcases TimerTaskList.mem_cancel hu with hu | ⟨v, _, _, rfl⟩
          · exact hu
          · cases hvalid
        have hnot := (TimerTaskList.mem_cancel_iff hn hin).mp hu
        exact ⟨⟨hvalid, hproc, Or.inl hin⟩, fun h => hnot ⟨h.2, hvalid⟩⟩
      · refine ⟨⟨hvalid, hproc, Or.inr hw⟩, fun h => ?_⟩
        exact not_held hacc h.1 (by simp [hw, Worker.hand, Hand.tasks]) rfl
    · intro hlive
      rcases hlive with ⟨⟨hvalid, hproc, hu | hw⟩, hnot⟩
      · exact ⟨hvalid, hproc, Or.inl
          ((TimerTaskList.mem_cancel_iff hn hu).mpr (fun h => hnot ⟨hu, h.1⟩))⟩
      · exact ⟨hvalid, hproc, Or.inr hw⟩

theorem fewer_cancel (hacc : s.ledger.Accounted) (id : Ptr) : s.Fewer (s.cancel id).2 where
  watched self ufd h := by
    rcases cancel_cases s id with he | he <;> rw [he] at h <;> exact h
  live u h := ((live_cancel hacc id u).mp h).1
  started h := by
    rcases cancel_cases s id with he | he <;> rw [he] at h <;> exact h

theorem rm_apart {c : Caller} {ufd : Int} (ht : s.rm c ufd = some t) : s.Apart t := by
  have hless : ∀ {uxe : UxEvent} {self : Ptr} {ufd' : Int},
      t.uxeventList = s.uxeventList.erase uxe → t.Watched self ufd' → s.Watched self ufd' := by
    intro uxe self ufd' hlist hwatched
    obtain ⟨e, he, h⟩ := hwatched
    exact ⟨e, List.mem_of_mem_erase (hlist ▸ he), h⟩
  obtain ⟨_, _, ⟨_, rfl⟩ | ⟨uxe, _, ⟨_, _, rfl⟩ | ⟨_, rfl⟩⟩⟩ := rm_cases ht
  · exact apart_of_same rfl rfl (fun _ => Iff.rfl) id
  · exact apart_of_live (fun _ _ h => hless rfl h) (fun _ => Iff.rfl) id
  · exact apart_of_live (fun _ _ h => hless rfl h) (fun _ => Iff.rfl) id

/-- After its rm no handler is registered for a descriptor. -/
theorem rm_unwatched (h : s.Listed) {c : Caller} {ufd : Int} (ht : s.rm c ufd = some t)
    (self : Ptr) : ¬ t.Watched self ufd := by
  have hgone : ∀ {uxe : UxEvent}, find s.uxeventList ufd = some uxe →
      t.uxeventList = s.uxeventList.erase uxe → ¬ t.Watched self ufd := by
    intro uxe hfind hlist hwatched
    obtain ⟨e, he, _, _, hufd⟩ := hwatched
    have hk : (e.addr, e.ufd) ∈ UxRegistry.keys (s.uxeventList.erase uxe) :=
      List.mem_map_of_mem (hlist ▸ he)
    exact ((UxRegistry.mem_keys_erase hfind h.ufds _).mp hk).2 hufd
  obtain ⟨_, _, ⟨hnone, rfl⟩ | ⟨uxe, hfind, ⟨_, _, rfl⟩ | ⟨_, rfl⟩⟩⟩ := rm_cases ht
  · intro hwatched
    obtain ⟨e, he, _, _, hufd⟩ := hwatched
    exact UxRegistry.not_mem_keys_of_find hnone _ (List.mem_map_of_mem he) hufd
  · exact hgone hfind rfl
  · exact hgone hfind rfl

/-- What the worker does with the task in its hand. -/
theorem testTask_cases (ht : s.testTask = some t) :
    ∃ task, s.worker = .fetched task ∧
      ((task.state = .valid ∧ t.worker = .running task ∧ t.taskList = s.taskList ∧
        t.uxeventList = s.uxeventList ∧ t.started = s.started) ∨
      (t.worker = .loop ∧ s.Apart t)) := by
  unfold testTask at ht
  split at ht
  · rename_i task hw
    refine ⟨task, hw, ?_⟩
    split at ht
    · rename_i hvalid
      cases ht
      exact Or.inl ⟨hvalid.2, rfl, rfl, rfl, rfl⟩
    · rename_i hinvalid
      cases ht
      refine Or.inr ⟨rfl, apart_of_live (fun _ _ h => h) (fun u => ?_) id⟩
      simp only [Live, hw, reduceCtorEq, or_false, Worker.fetched.injEq]
      constructor
      · exact fun h => ⟨h.1, h.2.1, Or.inl h.2.2⟩
      · intro hlive
        rcases hlive with ⟨hvalid, hproc, hu | rfl⟩
        · exact ⟨hvalid, hproc, hu⟩
        · exact absurd ⟨by rw [hproc]; decide, hvalid⟩ hinvalid
  · cases ht

/-- The task that is started is to run no more, the others are. -/
theorem live_testTask (hacc : s.ledger.Accounted) {task : TimerTask}
    (hw : s.worker = .fetched task) (hrun : t.worker = .running task)
    (htasks : t.taskList = s.taskList) (u : TimerTask) : t.Live u ↔ s.Live u ∧ u ≠ task := by
  simp only [Live, hw, hrun, htasks, reduceCtorEq, or_false, Worker.fetched.injEq]
  constructor
  · intro hlive
    obtain ⟨hvalid, hproc, hu⟩ := hlive
    refine ⟨⟨hvalid, hproc, Or.inl hu⟩, ?_⟩
    intro heq
    subst heq
    exact not_held hacc hu (by simp [hw, Worker.hand, Hand.tasks]) rfl
  · intro hlive
    rcases hlive with ⟨⟨hvalid, hproc, hu | rfl⟩, hne⟩
    · exact ⟨hvalid, hproc, hu⟩
    · exact absurd rfl hne

/-- The add of an open registers one handler. -/
theorem addHandler_effect {c : Caller} {addr : Ptr} {ufd : Int} {self : Ptr} {pick : Option Waiter}
    (ht : s.act (.add c addr ufd AWE_WRITE connecthandlingProc self pick) = some t) :
    (∀ other ufd', t.Watched other ufd' →
      s.Watched other ufd' ∨ (other = self ∧ ufd' = ufd)) ∧
    t.taskList = s.taskList ∧ t.worker = s.worker ∧ t.started = s.started := by
  rcases add_cases ht with ⟨_, rfl⟩ | ⟨_, hset, _⟩ | ⟨cond, _, _, _, _, rfl⟩
  · exact ⟨fun _ _ h => Or.inl h, rfl, rfl, rfl⟩
  · exact absurd hset (by decide)
  · refine ⟨fun other ufd' h => ?_, rfl, rfl, rfl⟩
    obtain ⟨e, he, hproc, hother, hufd⟩ := h
    rcases mem_addEvent he with he | ⟨_, hself, hufd'⟩
    · exact Or.inl ⟨e, he, hproc, hother, hufd⟩
    · exact Or.inr ⟨hother.symm.trans hself, hufd.symm.trans hufd'⟩

/-- The post of an open adds one timeout, unless the scheduler is stopped. -/
theorem timeoutPost_effect {self : Ptr} {now : ClockMs} {timeout : DelayMs} {id : Ptr}
    {pick : Option Waiter}
    (ht : s.act (.post (UxConnector.timeoutPost self now timeout id) pick) = some t) :
    (s.started = false ∧ t = s) ∨ (s.started = true ∧ t.started = true ∧ t.worker = s.worker ∧
      (∀ other ufd, t.Watched other ufd → s.Watched other ufd) ∧
      ∃ task : TimerTask, task.userdata = self ∧ task.id = id ∧
        ∀ u, t.Live u ↔ u = task ∨ s.Live u) := by
  rcases post_cases ht with ⟨hst, rfl⟩ | ⟨cond, hst, _, _, _, rfl⟩
  · exact Or.inl ⟨hst, rfl⟩
  · refine Or.inr ⟨hst, hst, rfl, fun _ _ h => h,
      (UxConnector.timeoutPost self now timeout id).task s.posted.length, rfl, rfl, fun u => ?_⟩
    simp only [Live, TimerTaskList.insert, StableQueue.mem_insert]
    constructor
    · intro hlive
      rcases hlive with ⟨hvalid, hproc, (rfl | hu) | hw⟩
      · exact Or.inl rfl
      · exact Or.inr ⟨hvalid, hproc, Or.inl hu⟩
      · exact Or.inr ⟨hvalid, hproc, Or.inr hw⟩
    · intro hlive
      rcases hlive with rfl | ⟨hvalid, hproc, hu | hw⟩
      · exact ⟨rfl, rfl, Or.inl (Or.inl rfl)⟩
      · exact ⟨hvalid, hproc, Or.inl (Or.inr hu)⟩
      · exact ⟨hvalid, hproc, Or.inr hw⟩

end UxScheduler

namespace UxCallbacks
open UxConnector (connecthandlingProc timeoutPost After)
open UxScheduler (Caller Waiter)

inductive Does (s : UxCallbacks) : Act → UxCallbacks → Prop where
  | create {self connhandler userdata : Ptr} (gone : (s.connectors self).phase = .gone) :
      Does s (.create self connhandler userdata)
        (s.setConnector self ⟨none, NULL, connhandler, userdata, .ready⟩)
  | opens {self : Ptr} {ufd : Int} (ready : (s.connectors self).phase = .ready)
      (uxconn : (s.connectors self).uxconn = none) :
      Does s (.openConn self ufd true) ((s.note (.opened self s.log.length)).setConnector self
        { s.connectors self with uxconn := some ufd, phase := .setTimeout })
  | failsToOpen {self : Ptr} {ufd : Int} (ready : (s.connectors self).phase = .ready)
      (uxconn : (s.connectors self).uxconn = none) :
      Does s (.openConn self ufd false) (s.setConnector self
        { s.connectors self with uxconn := some ufd, phase := .openFailed })
  | open2 {self : Ptr} {ufd : Int} (ready : (s.connectors self).phase = .ready)
      (uxconn : (s.connectors self).uxconn = none) :
      Does s (.open2 self ufd) (s.setConnector self { s.connectors self with uxconn := some ufd })
  | post {self : Ptr} {now : ClockMs} {timeout : DelayMs} {id : Ptr} {pick : Option Waiter}
      {t : UxScheduler} (phase : (s.connectors self).phase = .setTimeout)
      (sched : s.sched.step (.post (timeoutPost self now timeout id) pick) = some t) :
      Does s (.post self now timeout id pick) ({ s with sched := t }.setConnector self
        { s.connectors self with phase := .storeId (if s.sched.started then id else NULL) })
  | storeId {self id : Ptr} (phase : (s.connectors self).phase = .storeId id) :
      Does s (.storeId self) (s.setConnector self
        { s.connectors self with timeouttaskId := id, phase := .addHandler })
  | addHandler {self : Ptr} {c : Caller} {addr : Ptr} {pick : Option Waiter} {ufd : Int}
      {t : UxScheduler} (phase : (s.connectors self).phase = .addHandler)
      (uxconn : (s.connectors self).uxconn = some ufd)
      (sched : s.sched.step (.add c addr ufd AWE_WRITE connecthandlingProc self pick) = some t) :
      Does s (.addHandler self c addr pick) ({ s with sched := t }.setConnector self
        { s.connectors self with phase := .ready })
  | detached {self : Ptr} {c : Caller} {after : After} (may : s.mayClose c = true)
      (phase : (s.connectors self).phase = .ready ∨
        (s.connectors self).phase = .openFailed ∧ after = .close)
      (uxconn : (s.connectors self).uxconn = none) :
      Does s (.rmEventHandler self c after) (s.setConnector self
        ((s.connectors self).finish after))
  | removes {self : Ptr} {c : Caller} {after : After} {ufd : Int} {t : UxScheduler}
      (may : s.mayClose c = true)
      (phase : (s.connectors self).phase = .ready ∨
        (s.connectors self).phase = .openFailed ∧ after = .close)
      (uxconn : (s.connectors self).uxconn = some ufd)
      (sched : s.sched.step (.rm c ufd) = some t) :
      Does s (.rmEventHandler self c after) (({ s with sched := t }.setConnector self
        { s.connectors self with phase := .removing c after }).setClosing c (some self))
  | cancels {self : Ptr} {c : Caller} {after : After} {t : UxScheduler}
      (phase : (s.connectors self).phase = .removing c after)
      (returned : s.sched.calls c = .none) (may : c = .worker → s.frame.user = true)
      (sched : s.sched.step (.cancel (s.connectors self).timeouttaskId) = some t) :
      Does s (.cancelTimeout self) (({ s with sched := t }.setConnector self
        ((s.connectors self).finish after)).setClosing c none)
  | handlingCancel {self : Ptr} {ufd : Int} {rs : Status} {t : UxScheduler}
      (frame : s.frame = .connecthandling self ufd .cancel)
      (ok : (s.sched.cancel (s.connectors self).timeouttaskId).1 = AWE_OK)
      (sched : s.sched.step (.cancel (s.connectors self).timeouttaskId) = some t) :
      Does s (.callback rs) { s with sched := t, frame := .connecthandling self ufd .rm }
  | aborts {self : Ptr} {ufd : Int} {rs : Status} {t : UxScheduler}
      (frame : s.frame = .connecthandling self ufd .cancel)
      (failed : (s.sched.cancel (s.connectors self).timeouttaskId).1 ≠ AWE_OK)
      (sched : s.sched.step (.cancel (s.connectors self).timeouttaskId) = some t) :
      Does s (.callback rs) { s with sched := t, aborted := true }
  | handlingRm {self : Ptr} {ufd : Int} {rs : Status} {t : UxScheduler}
      (frame : s.frame = .connecthandling self ufd .rm)
      (sched : s.sched.step (.rm .worker ufd) = some t) :
      Does s (.callback rs) { s with sched := t, frame := .connecthandling self ufd .call }
  | handlingCall {self : Ptr} {ufd : Int} {rs : Status}
      (frame : s.frame = .connecthandling self ufd .call) :
      Does s (.callback rs)
        { s.complete self (if rs = AWE_OK then AWE_OK else AWE_CONN_TIMEDOUT) ufd with
          frame := .connecthandling self ufd .called }
  | timeoutDetached {self : Ptr} {rs : Status} (frame : s.frame = .connecttimeout self .rm)
      (uxconn : (s.connectors self).uxconn = none) :
      Does s (.callback rs) { s with frame := .connecttimeout self .call }
  | timeoutRm {self : Ptr} {rs : Status} {ufd : Int} {t : UxScheduler}
      (frame : s.frame = .connecttimeout self .rm)
      (uxconn : (s.connectors self).uxconn = some ufd)
      (sched : s.sched.step (.rm .worker ufd) = some t) :
      Does s (.callback rs) { s with sched := t, frame := .connecttimeout self .cancel }
  | timeoutCancel {self : Ptr} {rs : Status} {t : UxScheduler}
      (frame : s.frame = .connecttimeout self .cancel)
      (sched : s.sched.step (.cancel (s.connectors self).timeouttaskId) = some t) :
      Does s (.callback rs) { s with sched := t, frame := .connecttimeout self .call }
  | timeoutCall {self : Ptr} {rs : Status} (frame : s.frame = .connecttimeout self .call) :
      Does s (.callback rs) { s.complete self AWE_CONN_TIMEDOUT 0 with
        frame := .connecttimeout self .called }
  | sched {a : UxScheduler.Act} {t : UxScheduler} (foreign : a.foreign = true)
      (returns : a.returns = true → s.frame.user = true ∧ s.closing = none)
      (sched : s.sched.step a = some t) :
      Does s (.sched a) { s with sched := t, frame := s.frameAfter t a }

theorem callback_does {s m : UxCallbacks} {rs : Status} (hm : s.callback rs = some m) :
    s.Does (.callback rs) m := by
  unfold callback at hm
  split at hm
  · rename_i self ufd line hframe
    cases line with
    | cancel =>
      obtain ⟨t, ht, rfl⟩ := Option.map_eq_some_iff.mp hm
      split
      · rename_i hok
        exact .handlingCancel hframe hok ht
      · rename_i hfail
        exact .aborts hframe hfail ht
    | rm =>
      obtain ⟨t, ht, rfl⟩ := Option.map_eq_some_iff.mp hm
      exact .handlingRm hframe ht
    | call =>
      cases hm
      exact .handlingCall hframe
    | called => cases hm
  · rename_i self line hframe
    cases line with
    | cancel =>
      obtain ⟨t, ht, rfl⟩ := Option.map_eq_some_iff.mp hm
      exact .timeoutCancel hframe ht
    | rm =>
      simp only [connecttimeout] at hm
      split at hm
      · rename_i huxconn
        cases hm
        exact .timeoutDetached hframe huxconn
      · rename_i ufd huxconn
        obtain ⟨t, ht, rfl⟩ := Option.map_eq_some_iff.mp hm
        exact .timeoutRm hframe huxconn ht
    | call =>
      cases hm
      exact .timeoutCall hframe
    | called => cases hm
  · cases hm

theorem step_does {s m : UxCallbacks} {a : Act} (hm : s.step a = some m) :
    s.aborted = false ∧ s.Does a m := by
  unfold step at hm
  split at hm
  · cases hm
  rename_i halive
  refine ⟨by simpa using halive, ?_⟩
  cases a with
  | create self connhandler userdata =>
    simp only [act, UxCallbacks.create] at hm
    obtain ⟨hgone, hm⟩ := Option.ite_none_right_eq_some.mp hm
    cases hm
    exact .create hgone
  | openConn self ufd ok =>
    simp only [act, openConn] at hm
    obtain ⟨hready, hm⟩ := Option.ite_none_right_eq_some.mp hm
    cases ok with
    | true =>
      cases hm
      exact .opens hready.1 hready.2
    | false =>
      cases hm
      exact .failsToOpen hready.1 hready.2
  | open2 self ufd =>
    simp only [act, UxCallbacks.open2] at hm
    obtain ⟨hready, hm⟩ := Option.ite_none_right_eq_some.mp hm
    cases hm
    exact .open2 hready.1 hready.2
  | post self now timeout id pick =>
    simp only [act, UxCallbacks.post] at hm
    obtain ⟨hphase, hm⟩ := Option.ite_none_right_eq_some.mp hm
    obtain ⟨t, ht, rfl⟩ := Option.map_eq_some_iff.mp hm
    exact .post hphase ht
  | storeId self =>
    simp only [act, UxCallbacks.storeId] at hm
    split at hm
    · rename_i id hphase
      cases hm
      exact .storeId hphase
    · cases hm
  | addHandler self c addr pick =>
    simp only [act, UxCallbacks.addHandler] at hm
    split at hm
    · rename_i ufd hphase huxconn
      obtain ⟨t, ht, rfl⟩ := Option.map_eq_some_iff.mp hm
      exact .addHandler hphase huxconn ht
    · cases hm
  | rmEventHandler self c after =>
    simp only [act, rmEventHandler] at hm
    obtain ⟨hmay, hm⟩ := Option.ite_none_right_eq_some.mp hm
    split at hm
    · rename_i huxconn
      cases hm
      exact .detached hmay.1 hmay.2 huxconn
    · rename_i ufd huxconn
      obtain ⟨t, ht, rfl⟩ := Option.map_eq_some_iff.mp hm
      exact .removes hmay.1 hmay.2 huxconn ht
  | cancelTimeout self =>
    simp only [act, cancelTimeout] at hm
    split at hm
    · rename_i c after hphase
      obtain ⟨hmay, hm⟩ := Option.ite_none_right_eq_some.mp hm
      obtain ⟨t, ht, rfl⟩ := Option.map_eq_some_iff.mp hm
      exact .cancels hphase hmay.1 hmay.2 ht
    · cases hm
  | callback rs => exact callback_does hm
  | sched a =>
    simp only [act, schedStep] at hm
    obtain ⟨hforeign, hm⟩ := Option.ite_none_right_eq_some.mp hm
    obtain ⟨t, ht, rfl⟩ := Option.map_eq_some_iff.mp hm
    exact .sched hforeign.1 hforeign.2 ht

/-- A step changes the scheduler by what it asks of it, and not at all if it asks nothing. -/
theorem Does.requested {s m : UxCallbacks} {a : Act} (h : s.Does a m) :
    (s.request a = none ∧ m.sched = s.sched) ∨
      ∃ b, s.request a = some b ∧ s.sched.step b = some m.sched := by
  cases h with
  | create | opens | failsToOpen | open2 | storeId => exact Or.inl ⟨rfl, rfl⟩
  | detached _ _ huxconn => exact Or.inl ⟨by simp [UxCallbacks.request, huxconn], rfl⟩
  | handlingCall hframe | timeoutCall hframe =>
    exact Or.inl ⟨by simp [UxCallbacks.request, hframe], rfl⟩
  | timeoutDetached hframe huxconn =>
    exact Or.inl ⟨by simp [UxCallbacks.request, hframe, huxconn], rfl⟩
  | post _ ht => exact Or.inr ⟨_, rfl, ht⟩
  | addHandler _ huxconn ht => exact Or.inr ⟨_, by simp [UxCallbacks.request, huxconn], ht⟩
  | removes _ _ huxconn ht =>
    rw [setClosing_sched]
    exact Or.inr ⟨_, by simp [UxCallbacks.request, huxconn], ht⟩
  | cancels _ _ _ ht =>
    rw [setClosing_sched]
    exact Or.inr ⟨_, rfl, ht⟩
  | handlingCancel hframe _ ht | aborts hframe _ ht | handlingRm hframe ht
  | timeoutCancel hframe ht => exact Or.inr ⟨_, by simp [UxCallbacks.request, hframe], ht⟩
  | timeoutRm hframe huxconn ht =>
    exact Or.inr ⟨_, by simp [UxCallbacks.request, hframe, huxconn], ht⟩
  | sched _ _ ht => exact Or.inr ⟨_, rfl, ht⟩

theorem Does.request {s m : UxCallbacks} {a : Act} (h : s.Does a m) :
    m.sched = s.sched ∨ ∃ b, s.request a = some b ∧ s.sched.step b = some m.sched :=
  h.requested.imp_left And.right

end UxCallbacks

end Awe
