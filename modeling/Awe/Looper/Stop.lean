import Awe.Looper.Sleep

namespace Awe.Looper
open Machine

/-- Asleep with a stop to obey and no wake-up on its way. -/
def Deaf (s : Looper) : Prop := s.started = false ∧ s.Asleep

def Act.isStop : Act → Bool
  | .stopSignal .. => true
  | _ => false

/-- The signal of a stop made while the worker sleeps wakes the worker. -/
def SignalReaches (s : Looper) (a : Act) : Prop :=
  a.isStop → s.Asleep → ∀ pick, s.signalOf a = some pick → pick = some .worker

/-- A second section entered after the stop finds its task due. -/
def HeadDue (s : Looper) (a : Act) : Prop :=
  ∀ now, a = .section2 now → s.started = false →
    ∀ task ∈ s.taskList.head?, task.procMs.ms ≤ now.ms

theorem not_deaf_create : ¬ create.Deaf := by simp [Deaf, Asleep, create, CondVar.new]

theorem stop_signals {s t : Looper} {a : Act} {pick : Option Waiter} (ha : a.isStop)
    (hsignal : s.signalOf a = some pick) (ht : s.step a = some t) :
    t.started = false ∧ s.cond.signal pick = some t.cond := by
  cases step_effect ht with
  | same ignored => simp [ignored.signalOf] at hsignal
  | stopSignal free on signal =>
    rw [signalOf, if_pos ⟨free, on⟩] at hsignal
    cases hsignal
    exact ⟨rfl, signal⟩
  | _ => cases ha

/-- A post signals only a looper that goes on being started. -/
theorem isStop_of_signal {s t : Looper} {a : Act} {pick : Option Waiter} (ht : s.step a = some t)
    (hsignal : s.signalOf a = some pick) (hstopped : t.started = false) : a.isStop := by
  cases step_effect ht with
  | same ignored => simp [ignored.signalOf] at hsignal
  | stopSignal => rfl
  | post on =>
    have hoff : s.started = false := hstopped
    rw [hoff] at on
    cases on
  | _ => cases hsignal

/-- A signal that picks another waiter leaves the worker asleep. -/
theorem deaf_of_signal {s t : Looper} {a : Act} (ha : a.isStop) (hasleep : s.Asleep)
    {pick : Option Waiter} (hsignal : s.signalOf a = some pick) (hother : pick ≠ some .worker)
    (ht : s.step a = some t) : t.Deaf := by
  obtain ⟨hstopped, hcond⟩ := stop_signals ha hsignal ht
  exact ⟨hstopped, (CondVar.mem_signal hcond).mpr ⟨hasleep, hother⟩⟩

/-- A second section that finds its task not due goes to sleep, stopped or not. -/
theorem deaf_of_section2 {s t : Looper} {now : ClockMs} {task : TimerTask}
    (hst : s.started = false) (htask : task ∈ s.taskList.head?) (hlater : now.ms < task.procMs.ms)
    (ht : s.step (.section2 now) = some t) : t.Deaf := by
  cases step_effect ht with
  | same ignored => cases ignored
  | crashes _ bare =>
    rw [bare] at htask
    cases htask
  | takes _ tasks due =>
    rw [tasks] at htask
    cases htask
    omega
  | waits => exact ⟨hst, by simp [Asleep]⟩

/-- The two ways into deafness, and no other. -/
theorem deaf_step {s t : Looper} {a : Act} (h : s.Settled) (hs : ¬ s.Deaf)
    (ht : s.step a = some t) : ¬ t.Deaf ↔ s.SignalReaches a ∧ s.HeadDue a := by
  constructor
  · intro hnot
    constructor
    · intro ha hasleep pick hsignal
      by_contra hother
      exact hnot (deaf_of_signal ha hasleep hsignal hother ht)
    · rintro now rfl hst task htask
      by_contra hlater
      exact hnot (deaf_of_section2 hst htask (by omega) ht)
  · rintro ⟨hreach, hdue⟩ ⟨hst, hsleep⟩
    cases slept_of_step h ht hsleep with
    | idle started tasks => simp [started] at hst
    | @timed now task rest lock tasks later =>
      have := hdue now rfl hst task (by simp [tasks])
      omega
    | missed asleep pick signal cond other worker =>
      exact other (hreach (isStop_of_signal ht signal hst) asleep pick signal)
    | undisturbed asleep worker started tasks => exact hs ⟨started hst, asleep⟩

/-- As long as nobody else can be asleep, the one stop of a run reaches the worker. -/
theorem signal_reaches_of_one_stop {s : Looper} {as : List Act} (h : s.Unstopped)
    (hone : as.countP Act.isStop ≤ 1) : Throughout step SignalReaches s as := by
  induction as generalizing s with
  | nil => trivial
  | cons a as ih =>
    intro m hm
    by_cases ha : a.isStop
    · have hzero : as.countP Act.isStop = 0 := by
        rw [List.countP_cons_of_pos ha] at hone
        omega
      refine ⟨fun _ hasleep pick hsignal => ?_, ?_⟩
      · obtain ⟨w, hw, hpick⟩ := CondVar.signal_picks (stop_signals ha hsignal hm).2 hasleep
        exact h.alone w hw ▸ hpick
      · exact throughout_of_mem
          (fun _ b hb hstop => absurd hstop (List.countP_eq_zero.mp hzero b hb)) m
    · refine ⟨fun hstop => absurd hstop ha, ih (h.step ?_ hm) ?_⟩
      · rintro thread pick rfl
        exact ha rfl
      · rwa [List.countP_cons_of_neg ha] at hone

/-- A stop of the looper is not lost exactly when its signal, if the worker sleeps,
picks the worker, and no second section entered after it finds a task not due yet.
With a single stop only the latter can go wrong. -/
theorem stop_not_lost_iff (as : List Act) :
    (Always step (fun s => ¬ s.Deaf) create as ↔
      Throughout step (fun s a => s.SignalReaches a ∧ s.HeadDue a) create as) ∧
    (as.countP Act.isStop ≤ 1 →
      (Always step (fun s => ¬ s.Deaf) create as ↔ Throughout step HeadDue create as)) := by
  have hiff : Always step (fun s => ¬ s.Deaf) create as ↔
      Throughout step (fun s a => s.SignalReaches a ∧ s.HeadDue a) create as :=
    always_iff_throughout (fun _ _ _ h _ _ ht => Settled.step h ht)
      (fun _ _ _ h hq ht => deaf_step h hq ht) settled_create not_deaf_create as
  refine ⟨hiff, fun hone => ⟨fun h => ?_, fun h => ?_⟩⟩
  · exact (hiff.mp h).mono (fun _ _ _ hp _ => hp.2)
  · exact hiff.mpr ((signal_reaches_of_one_stop unstopped_create hone).and h)

/-- A task due in ten seconds; the stop falls between the test of `_started` outside
the mutex and the second section. -/
def stopInGap : List Act :=
  [.start, .startStore, .startStore, .testExit,
    .post ⟨timeMs 0, DelayMs.ofInt32 10000, 100, 1, 0, 0⟩ none,
    .section1, .testStarted, .stopSignal 0 none, .section2 (timeMs 0)]

theorem stop_in_gap_sleeps : ∃ s, run step create stopInGap = some s ∧
    stopInGap.countP Act.isStop = 1 ∧
    s.worker = .timedWait (timeMs 0) 10000 ∧ s.Deaf := by
  have hdelay : (procTime (timeMs 0) (DelayMs.ofInt32 10000)).remaining (timeMs 0) = 10000 := by
    decide
  exact ⟨_, rfl, rfl, congrArg (Worker.timedWait _) hdelay, rfl, List.mem_singleton_self _⟩

def stopWithDueTask : List Act := stopInGap.dropLast ++ [.section2 (timeMs 10000000)]

theorem stop_with_due_task_obeyed :
    stopWithDueTask.countP Act.isStop ≤ 1 ∧
      Always step (fun s => ¬ s.Deaf) create stopWithDueTask := by
  refine ⟨by decide, ((stop_not_lost_iff _).2 (by decide)).mpr ?_⟩
  refine throughout_append.mpr ⟨throughout_of_mem ?_ create, ?_⟩
  · rintro s a ha now rfl
    simp [stopInGap] at ha
  · intro s hs m _
    cases hs
    refine ⟨?_, trivial⟩
    rintro now hnow - task htask
    cases hnow
    cases htask
    decide

end Awe.Looper
