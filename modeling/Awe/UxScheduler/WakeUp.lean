import Awe.UxScheduler.Refinement

namespace Awe.UxScheduler
open Machine

/-- The worker is blocked in the wait of its idle loop and no wake-up is on its way. -/
def Asleep (s : UxScheduler) : Prop := s.worker = .idle ∧ .idle ∈ s.cond.waiters

/-- Asleep with descriptors to watch or a stop to obey. -/
def Stranded (s : UxScheduler) : Prop :=
  s.Asleep ∧ (s.uxeventList ≠ [] ∨ s.started = false)

def TaskStranded (s : UxScheduler) : Prop := s.Asleep ∧ s.started ∧ s.taskList ≠ []

/-- The waiter picked by the signal an action makes, if it makes one. -/
def signalOf (s : UxScheduler) : Act → Option (Option Waiter)
  | .add _ _ ufd conditionSet _ _ pick =>
    if ufd ≠ 0 ∧ conditionSet ≠ 0 then some pick else none
  | .stop _ pick | .post _ pick => if s.started then some pick else none
  | _ => none

def Act.isPost : Act → Bool
  | .post .. => true
  | _ => false

/-- A signal of `awe_uxscheduler_add` or `awe_uxscheduler_stop` made while the worker
sleeps wakes the worker. -/
def WakesWorker (s : UxScheduler) (a : Act) : Prop :=
  s.Asleep → a.isPost = false → ∀ pick, s.signalOf a = some pick → pick = some .idle

/-- Nobody but the worker sleeps on `_cond` when `awe_uxscheduler_add` or
`awe_uxscheduler_stop` signals it. -/
def SleepsAlone (s : UxScheduler) (a : Act) : Prop :=
  s.Asleep → a.isPost = false → s.signalOf a ≠ none → ∀ w ∈ s.cond.waiters, w = .idle

/-- The worker does not go to sleep on a pending task, and a post made while it
sleeps wakes it. -/
def ServesTasks (s : UxScheduler) (a : Act) : Prop :=
  (a = .guard → s.started → s.uxeventList = [] → s.taskList = []) ∧
    (s.Asleep → a.isPost → ∀ pick, s.signalOf a = some pick → pick = some .idle)

/-- The worker does not go to sleep on a pending task, and nobody else sleeps on
`_cond` when a post signals it. -/
def ServesAlone (s : UxScheduler) (a : Act) : Prop :=
  (a = .guard → s.started → s.uxeventList = [] → s.taskList = []) ∧
    (s.Asleep → a.isPost → s.signalOf a ≠ none → ∀ w ∈ s.cond.waiters, w = .idle)

def Act.repick (pick : Option Waiter) : Act → Act
  | .add c addr ufd conditionSet proc userdata _ => .add c addr ufd conditionSet proc userdata pick
  | .stop c _ => .stop c pick
  | .post p _ => .post p pick
  | a => a

inductive Slept (s : UxScheduler) : Act → UxScheduler → Prop where
  | fell {t : UxScheduler} (started : s.started) (events : s.uxeventList = [])
      (eq : t = { s with cond := s.cond.wait .idle, worker := .idle }) : Slept s .guard t
  | missed {a : Act} {t : UxScheduler} (asleep : s.Asleep) (pick : Option Waiter)
      (signal : s.signalOf a = some pick) (other : pick ≠ some .idle) : Slept s a t
  | undisturbed {a : Act} {t : UxScheduler} (asleep : s.Asleep) (signal : s.signalOf a = none)
      (started : t.started = s.started) (events : t.uxeventList ≠ [] → s.uxeventList ≠ [])
      (tasks : t.taskList ≠ [] → s.taskList ≠ []) (guard : a ≠ .guard) : Slept s a t

theorem signalOf_of_removal {s : UxScheduler} {a : Act} {k : Caller × Int}
    (h : a.removal = some k) : s.signalOf a = none := by
  cases a with
  | rm => rfl
  | add c addr ufd conditionSet proc userdata pick =>
    have hremoves := (Option.ite_none_right_eq_some.mp h).1
    exact if_neg (fun hset => hset.2 hremoves.2)
  | _ => cases h

theorem signalOf_of_ofWorker {s : UxScheduler} {a : Act} (h : a.ofWorker) :
    s.signalOf a = none := by
  cases a <;> first | rfl | cases h

theorem Ignored.signalOf {s : UxScheduler} {a : Act} (h : s.Ignored a) : s.signalOf a = none := by
  cases h with
  | rm removal => exact signalOf_of_removal removal
  | stop off | post off => simp [UxScheduler.signalOf, off]
  | add => simp [UxScheduler.signalOf]
  | _ => rfl

theorem Act.ne_guard {a : Act} (h : a.ofWorker = false) : a ≠ .guard := by
  rintro rfl
  cases h

theorem erase_ne_nil {list : List UxEvent} {uxe : UxEvent} (h : list.erase uxe ≠ []) :
    list ≠ [] := by
  rintro rfl
  exact h rfl

theorem Slept.signalled {s t : UxScheduler} {a : Act} {pick : Option Waiter}
    {cond : CondVar Waiter} (hw : t.worker = s.worker) (hc : t.cond = cond)
    (hcond : s.cond.signal pick = some cond) (hsleep : t.Asleep)
    (hsignal : s.signalOf a = some pick) : Slept s a t := by
  have hmem := (CondVar.mem_signal hcond).mp (hc ▸ hsleep.2)
  exact .missed ⟨hw ▸ hsleep.1, hmem.1⟩ pick hsignal hmem.2

theorem slept_of_step {s t : UxScheduler} {a : Act} (ht : s.step a = some t)
    (hsleep : t.Asleep) : Slept s a t := by
  cases step_effect ht with
  | sleeps _ on bare => exact .fell on bare rfl
  | add named _ signal => exact .signalled rfl rfl signal hsleep (if_pos named)
  | stop _ on signal => exact .signalled rfl rfl signal hsleep (if_pos on)
  | post on _ _ signal => exact .signalled rfl rfl signal hsleep (if_pos on)
  | same ignored =>
    exact .undisturbed hsleep ignored.signalOf rfl id id (Act.ne_guard ignored.ofWorker)
  | rmWaits removal =>
    have hasleep : s.Asleep := ⟨hsleep.1, by simpa using hsleep.2⟩
    exact .undisturbed hasleep (signalOf_of_removal removal) rfl erase_ne_nil id
      (Act.ne_guard (Act.ofWorker_of_removal removal))
  | rm removal =>
    exact .undisturbed hsleep (signalOf_of_removal removal) rfl erase_ne_nil id
      (Act.ne_guard (Act.ofWorker_of_removal removal))
  | stopWaits => exact .undisturbed ⟨hsleep.1, by simpa using hsleep.2⟩ rfl rfl id id nofun
  | timeout =>
    have hasleep : s.Asleep := ⟨hsleep.1, (CondVar.mem_timeout.mp hsleep.2).2⟩
    exact .undisturbed hasleep rfl rfl id id nofun
  | disable | enable =>
    exact .undisturbed hsleep rfl rfl (mt (setConditions_eq_nil _ _ _).mpr) id nofun
  | cancel =>
    refine .undisturbed hsleep rfl rfl id (fun hne hnil => hne ?_) nofun
    simp [hnil, TimerTaskList.cancel, TimerTaskList.cancelScan]
  | clear =>
    exact .undisturbed hsleep rfl rfl (fun hne => absurd rfl hne) (fun hne => absurd rfl hne) nofun
  | reset | launch | stopReturns | rmReturn | leave =>
    exact .undisturbed hsleep rfl rfl id id nofun
  | moves _ _ _ awake => exact absurd hsleep.1 awake
  | start | finds | crash | handles | returns | endsRound | takes | calls | skips | ends | finish =>
    exact absurd hsleep.1 nofun

structure Signalled (s : UxScheduler) (a : Act) (pick : Option Waiter) (t : UxScheduler) :
    Prop where
  cond : s.cond.signal pick = some t.cond
  worker : t.worker = s.worker
  events : a.isPost = false → t.uxeventList ≠ [] ∨ t.started = false
  tasks : a.isPost = false → t.taskList = s.taskList ∧ (t.started → s.started)
  post : a.isPost = true → s.started ∧ t.started = s.started ∧ t.uxeventList = s.uxeventList ∧
    t.taskList ≠ []

theorem signalled {s t : UxScheduler} {a : Act} {pick : Option Waiter} (ht : s.step a = some t)
    (hp : s.signalOf a = some pick) : s.Signalled a pick t := by
  cases step_effect ht with
  | add named _ signal =>
    rw [signalOf, if_pos named] at hp
    cases hp
    have hne := addEvent_ne_nil s.uxeventList
    exact ⟨signal, rfl, fun _ => Or.inl (hne _ _ _ _ _), fun _ => ⟨rfl, id⟩, by simp [Act.isPost]⟩
  | stop _ on signal =>
    rw [signalOf, if_pos on] at hp
    cases hp
    exact ⟨signal, rfl, fun _ => Or.inr rfl, fun _ => ⟨rfl, by simp⟩, by simp [Act.isPost]⟩
  | post on _ _ signal =>
    rw [signalOf, if_pos on] at hp
    cases hp
    refine ⟨signal, rfl, by simp [Act.isPost], by simp [Act.isPost], fun _ => ?_⟩
    exact ⟨on, rfl, rfl, StableQueue.insert_ne_nil _ _⟩
  | same ignored => simp [ignored.signalOf] at hp
  | rmWaits removal | rm removal => simp [signalOf_of_removal removal] at hp
  | moves work => simp [signalOf_of_ofWorker work] at hp
  | _ => cases hp

theorem Signalled.asleep {s t : UxScheduler} {a : Act} {pick : Option Waiter}
    (h : s.Signalled a pick t) (hs : s.Asleep) (hp : pick ≠ some .idle) : t.Asleep :=
  ⟨h.worker ▸ hs.1, (CondVar.mem_signal h.cond).mpr ⟨hs.2, hp⟩⟩

theorem guard_sleeps {s t : UxScheduler} (ht : s.step .guard = some t) (hst : s.started)
    (hnil : s.uxeventList = []) : t = { s with cond := s.cond.wait .idle, worker := .idle } := by
  have ht := step_act ht
  simp only [act, UxScheduler.guard] at ht
  rw [if_pos ⟨hst, hnil⟩] at ht
  split at ht
  · cases ht
    rfl
  · split at ht
    · cases ht
    · cases ht
      rfl
  · cases ht

/-- Out of a state that is in order, a step strands the worker exactly when its
signal goes to someone else. -/
theorem stranded_iff {s t : UxScheduler} {a : Act} (hs : ¬ s.Stranded)
    (ht : s.step a = some t) : ¬ t.Stranded ↔ s.WakesWorker a := by
  constructor
  · intro hgood hsleep hpost pick hpick
    by_contra hother
    have hsig := signalled ht hpick
    exact hgood ⟨hsig.asleep hsleep hother, hsig.events hpost⟩
  · rintro hwakes ⟨hsleep, hwork⟩
    cases slept_of_step ht hsleep with
    | fell started events eq =>
      subst eq
      rcases hwork with hne | hoff
      · exact hne events
      · simp [started] at hoff
    | missed asleep pick signal other =>
      cases hpost : a.isPost with
      | false => exact other (hwakes asleep hpost pick signal)
      | true =>
        obtain ⟨_, hst, hev, _⟩ := (signalled ht signal).post hpost
        exact hs ⟨asleep, by rwa [← hst, ← hev]⟩
    | undisturbed asleep signal started events tasks guard =>
      exact hs ⟨asleep, hwork.imp events (fun hoff => started ▸ hoff)⟩

/-- Out of a state that is in order, a step leaves a task behind a sleeping worker
exactly when the worker's guard overlooks it or its post wakes someone else. -/
theorem taskStranded_iff {s t : UxScheduler} {a : Act} (hs : ¬ s.TaskStranded)
    (ht : s.step a = some t) : ¬ t.TaskStranded ↔ s.ServesTasks a := by
  constructor
  · intro hgood
    constructor
    · rintro rfl hst hnil
      by_contra hne
      have he := guard_sleeps ht hst hnil
      subst he
      exact hgood ⟨⟨rfl, by simp⟩, hst, hne⟩
    · intro hsleep hpost pick hpick
      by_contra hother
      have hsig := signalled ht hpick
      obtain ⟨hst, hst', _, hne⟩ := hsig.post hpost
      exact hgood ⟨hsig.asleep hsleep hother, hst' ▸ hst, hne⟩
  · rintro ⟨hguard, hserved⟩ ⟨hsleep, hon, hne⟩
    cases slept_of_step ht hsleep with
    | fell started events eq =>
      subst eq
      exact hne (hguard rfl started events)
    | missed asleep pick signal other =>
      cases hpost : a.isPost with
      | false =>
        obtain ⟨htasks, hst⟩ := (signalled ht signal).tasks hpost
        exact hs ⟨asleep, hst hon, htasks ▸ hne⟩
      | true => exact other (hserved asleep hpost pick signal)
    | undisturbed asleep signal started events tasks guard =>
      exact hs ⟨asleep, started ▸ hon, tasks hne⟩

/-- A worker that sleeps alone is the one a signal picks. -/
theorem wakes_of_alone {s t : UxScheduler} {a : Act} {pick : Option Waiter}
    (ht : s.step a = some t) (hsleep : s.Asleep) (hpick : s.signalOf a = some pick)
    (halone : s.signalOf a ≠ none → ∀ w ∈ s.cond.waiters, w = .idle) : pick = some .idle := by
  obtain ⟨w, hw, rfl⟩ := CondVar.signal_picks (signalled ht hpick).cond hsleep.2
  rw [halone (by simp [hpick]) w hw]

theorem SleepsAlone.wakes {s t : UxScheduler} {a : Act} (h : s.SleepsAlone a)
    (ht : s.step a = some t) : s.WakesWorker a :=
  fun hsleep hpost _ hpick => wakes_of_alone ht hsleep hpick (h hsleep hpost)

theorem ServesAlone.serves {s t : UxScheduler} {a : Act} (h : s.ServesAlone a)
    (ht : s.step a = some t) : s.ServesTasks a :=
  ⟨h.1, fun hsleep hpost _ hpick => wakes_of_alone ht hsleep hpick (h.2 hsleep hpost)⟩

@[simp] theorem isPost_repick (pick : Option Waiter) (a : Act) :
    (a.repick pick).isPost = a.isPost := by
  cases a <;> rfl

@[simp] theorem repick_repick (pick pick' : Option Waiter) (a : Act) :
    (a.repick pick).repick pick' = a.repick pick' := by
  cases a <;> rfl

/-- A signal may go to anyone who waits. -/
theorem repick_step {s t : UxScheduler} {a : Act} {w : Waiter} (ht : s.step a = some t)
    (hsignal : s.signalOf a ≠ none) (hw : w ∈ s.cond.waiters) :
    ∃ u, s.step (a.repick (some w)) = some u ∧ s.Signalled (a.repick (some w)) (some w) u := by
  have hpick : s.signalOf (a.repick (some w)) = some (some w) := by
    cases a <;> simp_all [signalOf, Act.repick]
  have henabled : ∃ u, s.step (a.repick (some w)) = some u := by
    have hfree := ht
    unfold step at hfree ⊢
    obtain ⟨hunlocked, hfree⟩ := Option.ite_none_left_eq_some.mp hfree
    rw [if_neg (by cases a <;> exact hunlocked)]
    cases a with
    | add c addr ufd conditionSet proc userdata pick =>
      simp only [signalOf, ne_eq, ite_eq_right_iff, reduceCtorEq, imp_false, not_not] at hsignal
      obtain ⟨⟨_, v⟩, hv, _⟩ := Option.map_eq_some_iff.mp hfree
      simp only [add, hsignal.1, hsignal.2, if_false] at hv
      simp only [Act.repick, act, add, hsignal.1, hsignal.2, if_false]
      obtain ⟨hmay, hv⟩ := Option.ite_none_left_eq_some.mp hv
      obtain ⟨haddr, hv⟩ := Option.ite_none_left_eq_some.mp hv
      rw [if_neg hmay, if_neg haddr]
      simp [CondVar.signal, hw]
    | stop c pick =>
      simp only [signalOf, ne_eq, ite_eq_right_iff, reduceCtorEq, imp_false, not_not] at hsignal
      simp only [act, stop] at hfree
      simp only [Act.repick, act, stop]
      obtain ⟨_, hfree⟩ := Option.ite_none_left_eq_some.mp hfree
      simp [*, CondVar.signal]
    | post p pick =>
      simp only [signalOf, ne_eq, ite_eq_right_iff, reduceCtorEq, imp_false, not_not] at hsignal
      rcases post_cases hfree with ⟨hoff, _⟩ | ⟨cond, _, hnull, hid, _, _⟩
      · simp [hoff] at hsignal
      · simp [Act.repick, act, post, hsignal, hnull, hid, CondVar.signal, hw]
    | _ => exact absurd rfl hsignal
  obtain ⟨u, hu⟩ := henabled
  exact ⟨u, hu, signalled hu hpick⟩

/-- Whenever somebody else sleeps beside the worker, the signal may go to them, and
the worker is stranded. -/
theorem stranded_of_company {s t : UxScheduler} {a : Act} (ht : s.step a = some t)
    (hcompany : ¬ s.SleepsAlone a) :
    ∃ b u, b.repick none = a.repick none ∧ s.step b = some u ∧ u.Stranded := by
  unfold SleepsAlone at hcompany
  push Not at hcompany
  obtain ⟨hsleep, hpost, hsignal, w, hw, hother⟩ := hcompany
  obtain ⟨u, hu, hsig⟩ := repick_step ht hsignal hw
  have hasleep := hsig.asleep hsleep (by simpa using hother)
  exact ⟨_, u, by simp, hu, hasleep, hsig.events (by simpa using hpost)⟩

/-- So may the signal of a post, and the task is stranded. -/
theorem taskStranded_of_company {s t : UxScheduler} {a : Act} (hs : ¬ s.TaskStranded)
    (ht : s.step a = some t) (hcompany : ¬ s.ServesAlone a) :
    ∃ b u, b.repick none = a.repick none ∧ s.step b = some u ∧ u.TaskStranded := by
  by_cases hguard : a = .guard → s.started → s.uxeventList = [] → s.taskList = []
  · have hpost : ¬ (s.Asleep → a.isPost → s.signalOf a ≠ none →
        ∀ w ∈ s.cond.waiters, w = .idle) := fun hpost => hcompany ⟨hguard, hpost⟩
    push Not at hpost
    obtain ⟨hsleep, hpost, hsignal, w, hw, hother⟩ := hpost
    obtain ⟨u, hu, hsig⟩ := repick_step ht hsignal hw
    have hasleep := hsig.asleep hsleep (by simpa using hother)
    obtain ⟨hst, hst', _, hne⟩ := hsig.post (by simpa using hpost)
    exact ⟨_, u, by simp, hu, hasleep, hst' ▸ hst, hne⟩
  · refine ⟨a, t, rfl, ht, ?_⟩
    by_contra hgood
    exact hguard ((taskStranded_iff hs ht).mp hgood).1

/-- No run strands the worker exactly as long as the signals of `awe_uxscheduler_add`
and `awe_uxscheduler_stop` reach it in its sleep; and no choice of the waiters that
signals wake strands it exactly as long as it sleeps alone when they are made. -/
theorem no_lost_wakeup_iff (as : List Act) :
    (Always step (fun s => ¬ s.Stranded) create as ↔ Throughout step WakesWorker create as) ∧
      ((∀ bs, bs.map (Act.repick none) = as.map (Act.repick none) →
          Always step (fun s => ¬ s.Stranded) create bs) ↔
        ∀ bs, bs.map (Act.repick none) = as.map (Act.repick none) →
          Throughout step SleepsAlone create bs) := by
  have hcreate : ¬ create.Stranded := by simp [Stranded, Asleep, create]
  constructor
  · exact always_iff_throughout (fun _ _ _ _ _ _ _ => trivial)
      (fun _ _ _ _ hs ht => stranded_iff hs ht) trivial hcreate as
  · refine always_iff_of_choices (q := (¬ Stranded ·)) (fun _ _ _ _ _ => trivial) ?_ ?_
      trivial hcreate as
    · intro s a m _ hs halone ht
      exact (stranded_iff hs ht).mpr (halone.wakes ht)
    · intro s a m _ _ ht hcompany
      obtain ⟨b, u, hb, hu, hbad⟩ := stranded_of_company ht hcompany
      exact ⟨b, u, hb, hu, fun hgood => hgood hbad⟩

def anyDelay : DelayMs := DelayMs.ofInt32 1000

/-- A removal waits for the end of a round, the worker goes idle instead of
finishing one, and the signal of the next add wakes the remover. -/
def lostSignal : List Act :=
  [.start anyDelay, .startStore, .startStore, .add (.thread 0) 100 5 AWE_READ 1 0 none,
    .testExit, .rm (.thread 1) 5, .guard,
    .add (.thread 2) 200 6 AWE_READ 1 0 (some (.call (.thread 1)))]

theorem lost_signal_strands : ∃ s, run step create lostSignal = some s ∧ s.Stranded :=
  ⟨_, rfl, ⟨rfl, by decide⟩, Or.inl (by decide)⟩

/-- No run leaves a task behind a sleeping worker exactly as long as the worker never
goes to sleep on one and each post wakes it; and no choice of the waiters that signals
wake does exactly as long as the worker never goes to sleep on one and sleeps alone at
each post. -/
theorem no_stranded_task_iff (as : List Act) :
    (Always step (fun s => ¬ s.TaskStranded) create as ↔
        Throughout step ServesTasks create as) ∧
      ((∀ bs, bs.map (Act.repick none) = as.map (Act.repick none) →
          Always step (fun s => ¬ s.TaskStranded) create bs) ↔
        ∀ bs, bs.map (Act.repick none) = as.map (Act.repick none) →
          Throughout step ServesAlone create bs) := by
  have hcreate : ¬ create.TaskStranded := by simp [TaskStranded, Asleep, create]
  constructor
  · exact always_iff_throughout (fun _ _ _ _ _ _ _ => trivial)
      (fun _ _ _ _ hs ht => taskStranded_iff hs ht) trivial hcreate as
  · refine always_iff_of_choices (q := (¬ TaskStranded ·)) (fun _ _ _ _ _ => trivial) ?_ ?_
      trivial hcreate as
    · intro s a m _ hs halone ht
      exact (taskStranded_iff hs ht).mpr (halone.serves ht)
    · intro s a m _ hs ht hcompany
      obtain ⟨b, u, hb, hu, hbad⟩ := taskStranded_of_company hs ht hcompany
      exact ⟨b, u, hb, hu, fun hgood => hgood hbad⟩

/-- The post wakes the idle worker, which finds no descriptor and goes back to sleep. -/
def strandedTask : List Act :=
  [.start anyDelay, .startStore, .startStore, .testExit, .guard,
    .post ⟨timeMs 0, anyDelay, 100, 1, 0, 0⟩ (some .idle), .guard]

theorem guard_strands_task : ∃ s, run step create strandedTask = some s ∧ s.TaskStranded :=
  ⟨_, rfl, ⟨rfl, by decide⟩, rfl, by decide⟩

end Awe.UxScheduler
