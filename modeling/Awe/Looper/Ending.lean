import Awe.Looper.Head
import Awe.Looper.Progress
import Awe.Looper.Stop

namespace Awe.Looper
open Machine

/-- Stopped, and nobody starts it again. `_running` is left to a thread to clear. -/
structure Stopping (s : Looper) : Prop where
  fed : s.Fed
  stopped : s.started = false
  starting : s.starting = .none
  owed : s.thread.running → s.worker ≠ .none ∨ s.thread.leaving ≠ []

/-- The steps of the worker and of what its thread does after it. -/
def Act.isLeaving : Act → Bool
  | .finish | .leave _ => true
  | a => a.isWork

/-- How many steps are left to the worker of a stopped looper at most, the three stores
of its thread among them. -/
def Worker.untilGone : Worker → Nat
  | .none | .crashed => 0
  | .exit => 4
  | .unlocked => 5
  | .lock1 | .idle => 6
  | .loop => 7
  | .timedWait .. | .running _ => 8
  | .fetched _ => 9
  | .lock2 => 10

def untilGone (s : Looper) : Nat :=
  s.worker.untilGone + Thread.storesLeft s.thread.leaving

def Worker.callsLeft : Worker → Nat
  | .lock2 | .fetched _ => 1
  | _ => 0

structure Ends (s : Looper) (a : Act) (t : Looper) : Prop where
  stopping : t.Stopping
  nearer : t.untilGone + a.isLeaving.toNat ≤ s.untilGone
  calls : t.invoked.length + t.worker.callsLeft ≤ s.invoked.length + s.worker.callsLeft

theorem Stopping.aside {s t : Looper} {a : Act} (h : s.Stopping) (hfed : t.Fed)
    (ha : a.isLeaving = false) (hworker : t.worker = s.worker) (hstopped : t.started = false)
    (hstarting : t.starting = .none) (hleaving : t.thread.leaving = s.thread.leaving)
    (hrunning : t.thread.running = s.thread.running) (hinvoked : t.invoked = s.invoked) :
    s.Ends a t := by
  refine ⟨⟨hfed, hstopped, hstarting, ?_⟩, ?_, ?_⟩
  · rw [hrunning, hworker, hleaving]
    exact h.owed
  · rw [ha, untilGone, hworker, hleaving]
    exact Nat.le_refl _
  · rw [hinvoked, hworker]

/-- A step of the worker to another place of its loop, with the calls it makes. -/
theorem Ends.of_move {s t : Looper} {a : Act} (hfed : t.Fed)
    (hworker : t.worker.untilGone < s.worker.untilGone) (hwork : a.isLeaving = true)
    (hne : t.worker ≠ .none) (hstopped : t.started = false) (hstarting : t.starting = .none)
    (hthread : t.thread = s.thread)
    (hcalls : t.invoked.length + t.worker.callsLeft ≤ s.invoked.length + s.worker.callsLeft) :
    s.Ends a t := by
  refine ⟨⟨hfed, hstopped, hstarting, fun _ => Or.inl hne⟩, ?_, hcalls⟩
  rw [hwork, untilGone, untilGone, hthread]
  simp only [Bool.toNat_true]
  omega

theorem Stopping.ends {s t : Looper} {a : Act} (h : s.Stopping) (hstart : a ≠ .start)
    (hgap : s.GapUncleared a) (ht : s.step a = some t) : s.Ends a t := by
  have hfed := h.fed.uncleared_step hgap ht
  have hstopped := h.stopped
  have hstarting := h.starting
  have hoff : s.started ≠ true := by simp [hstopped]
  cases step_effect ht with
  | same ignored =>
    exact h.aside hfed (by cases ignored <;> rfl) rfl hstopped hstarting rfl rfl rfl
  | start => exact absurd rfl hstart
  | post on | cancel on | stopSignal _ on | sleeps _ on => exact absurd on hoff
  | reset hs | launch hs =>
    rw [hstarting] at hs
    cases hs
  | clear | stopRequest | stopWaits | stopReturns | timeout =>
    exact h.aside hfed rfl rfl hstopped hstarting rfl rfl rfl
  | finish hw =>
    refine ⟨⟨hfed, hstopped, hstarting, fun _ => Or.inr (by simp)⟩, ?_, ?_⟩
    · simp [untilGone, hw, Worker.untilGone, Act.isLeaving, Thread.storesLeft, Thread.untilLast]
      omega
    · simp [hw, Worker.callsLeft]
  | @leave n u stores =>
    obtain ⟨hsum, hrunning⟩ := Thread.leave_nearer stores
    refine ⟨⟨hfed, hstopped, hstarting, fun hrun => Or.inr (hrunning hrun)⟩, ?_, Nat.le_refl _⟩
    change s.worker.untilGone + Thread.storesLeft u.leaving + 1 ≤ s.untilGone
    rw [untilGone]
    omega
  | passes here =>
    rcases here with hw | ⟨hw, _⟩ <;>
      exact .of_move hfed (by simp [hw, Worker.untilGone]) rfl (by simp) hstopped hstarting rfl
        (by simp [hw, Worker.callsLeft])
  | testExit hw =>
    by_cases hexit : s.thread.exitPending = true
    · rw [if_pos hexit] at hfed ⊢
      exact .of_move hfed (by simp [hw, Worker.untilGone]) rfl (by simp) hstopped hstarting rfl
        (by simp [hw, Worker.callsLeft])
    · rw [if_neg hexit] at hfed ⊢
      exact .of_move hfed (by simp [hw, Worker.untilGone]) rfl (by simp) hstopped hstarting rfl
        (by simp [hw, Worker.callsLeft])
  | testStarted hw =>
    rw [if_neg hoff] at hfed ⊢
    exact .of_move hfed (by simp [hw, Worker.untilGone]) rfl (by simp) hstopped hstarting rfl
      (by simp [hw, Worker.callsLeft])
  | crashes hw | takes hw | waits hw | wakes hw | calls hw | skips hw | ends hw =>
    exact .of_move hfed (by simp [hw, Worker.untilGone]) rfl (by simp) hstopped hstarting rfl
      (by simp [hw, Worker.callsLeft])

/-- Asleep where only a signal could wake the worker, which nobody gives any more. -/
def Lost (s : Looper) : Prop := s.started = false ∧ s.worker = .idle ∧ s.Asleep

theorem Settled.found {s t : Looper} {a : Act} (h : s.Settled) (hs : ¬ s.Lost)
    (ha : s.SignalReaches a) (ht : s.step a = some t) : ¬ t.Lost := by
  rintro ⟨hstopped, hidle, hasleep⟩
  cases slept_of_step h ht hasleep with
  | idle started tasks =>
    have hstarted : s.started = false := hstopped
    rw [started] at hstarted
    cases hstarted
  | timed => cases hidle
  | missed asleep pick signal cond other worker =>
    exact other (ha (isStop_of_signal ht signal hstopped) asleep pick signal)
  | undisturbed asleep worker started tasks =>
    exact hs ⟨started hstopped, worker ▸ hidle, asleep⟩

def Gone (s : Looper) : Prop := s.worker = .none ∧ s.thread.leaving = []

/-- The worker and its thread can go on to their end, or are there already, or the worker
waits for the clock or is about to call no procedure. -/
def LeavesOn (s : Looper) : Prop :=
  (∃ a, a.isLeaving ∧ (s.step a).isSome) ∨ s.Gone ∨
    (∃ now delay, s.worker = .timedWait now delay) ∨
    ∃ task, s.worker = .fetched task ∧ task.proc = NULL

theorem Stopping.leaves_on {s : Looper} (h : s.Stopping) (hfound : ¬ s.Lost) : s.LeavesOn := by
  have hstep : ∀ a, s.step a = s.act a := by simp [step, h.starting]
  cases hw : s.worker with
  | none =>
    cases hleaving : s.thread.leaving with
    | nil => exact Or.inr (Or.inl ⟨hw, hleaving⟩)
    | cons store rest =>
      refine Or.inl ⟨.leave 0, rfl, ?_⟩
      cases store <;> simp [hstep, act, leave, Thread.leave, hleaving]
  | crashed => exact absurd hw h.fed.safe
  | timedWait now delay => exact Or.inr (Or.inr (Or.inl ⟨now, delay, hw⟩))
  | exit => exact Or.inl ⟨.finish, rfl, by simp [hstep, act, Looper.finish, hw]⟩
  | loop => exact Or.inl ⟨.testExit, rfl, by simp [hstep, act, testExit, hw]⟩
  | unlocked => exact Or.inl ⟨.testStarted, rfl, by simp [hstep, act, testStarted, hw]⟩
  | running task => exact Or.inl ⟨.procReturn, rfl, by simp [hstep, act, procReturn, hw]⟩
  | lock1 =>
    refine Or.inl ⟨.section1, rfl, ?_⟩
    simp [hstep, act, Looper.section1, hw, h.stopped]
  | idle =>
    have hawake : .worker ∉ s.cond.waiters := fun hasleep => hfound ⟨h.stopped, hw, hasleep⟩
    refine Or.inl ⟨.section1, rfl, ?_⟩
    simp [hstep, act, Looper.section1, hw, h.stopped, hawake]
  | lock2 =>
    refine Or.inl ⟨.section2 (timeMs 0), rfl, ?_⟩
    simp only [hstep, act, section2, hw]
    split
    · rfl
    · split <;> rfl
  | fetched task =>
    by_cases hproc : task.proc = NULL
    · exact Or.inr (Or.inr (Or.inr ⟨task, hw, hproc⟩))
    · refine Or.inl ⟨.testState, rfl, ?_⟩
      simp only [hstep, act, testState, hw, hproc, if_false]
      split <;> rfl

/-- What nobody does while a stop waits: start the looper again, or clear its list in the
gap of the worker. -/
def Quiet (s : Looper) (a : Act) : Prop := a ≠ .start ∧ s.GapUncleared a

/-- Nobody is running any more, so whoever waits for that leaves `awe_looper_stop` at its
next look. -/
theorem Stopping.returns {s : Looper} (h : s.Stopping) (hgone : s.Gone) {thread : Nat}
    (hcall : s.stops thread = .check ∨ s.stops thread = .waiting) :
    ∃ t, run Looper.step s [.timeout (.stop thread), .stopCheck thread] = some t ∧
      t.stops thread = .none := by
  have hrunning : s.thread.running = false := by
    cases hrun : s.thread.running with
    | false => rfl
    | true => exact absurd hgone (fun hg => (h.owed hrun).elim (· hg.1) (· hg.2))
  have hstep : ∀ a, s.step a = s.act a := by simp [step, h.starting]
  let m : Looper := { s with cond := s.cond.timeout (.stop thread) }
  have hm : s.step (.timeout (.stop thread)) = some m := hstep _
  have hcheck : m.step (.stopCheck thread) =
      some { m with stops := Function.update m.stops thread .none } := by
    have hawake : .stop thread ∉ m.cond.waiters := fun hmem => (CondVar.mem_timeout.mp hmem).1 rfl
    have hstops : m.stops thread = .check ∨ m.stops thread = .waiting := hcall
    have hrun : m.thread.running = false := hrunning
    have hstarting : m.starting = .none := h.starting
    rcases hstops with hs | hs <;> simp [step, hstarting, act, stopCheck, hs, hrun, hawake]
  exact ⟨_, run_cons.mpr ⟨m, hm, run_cons.mpr ⟨_, hcheck, rfl⟩⟩, Function.update_self ..⟩

/-- The steps of the worker and its thread are no more than are left to them. -/
theorem Stopping.work_le {s t : Looper} {bs : List Act} (h : s.Stopping)
    (hb : Throughout Looper.step Quiet s bs) (hrun : run Looper.step s bs = some t) :
    bs.countP Act.isLeaving + t.untilGone ≤ s.untilGone := by
  have hnearer : ∀ (s : Looper) (a : Act) (m : Looper), s.Stopping → s.Quiet a →
      s.step a = some m → m.Stopping ∧ m.untilGone + a.isLeaving.toNat ≤ s.untilGone + 0 := by
    intro s a m h ha hm
    have hends := h.ends ha.1 ha.2 hm
    exact ⟨hends.stopping, hends.nearer⟩
  have hwork := Machine.work_le hnearer h hb hrun
  simpa using hwork

theorem untilGone_le (s : Looper) : s.untilGone ≤ 10 + 3 * s.thread.leaving.length := by
  have hworker : s.worker.untilGone ≤ 10 := by cases s.worker <;> simp [Worker.untilGone]
  exact Nat.add_le_add hworker (Thread.storesLeft_le _)

/-- What a stop finds after its first section, with `n` tasks called until now at most. -/
structure StopWaits (n : Nat) (s : Looper) : Prop where
  settled : s.Settled
  stopping : s.Stopping
  found : ¬ s.Lost
  calls : s.invoked.length + s.worker.callsLeft ≤ n

theorem StopWaits.step {n : Nat} {s t : Looper} {a : Act} (h : StopWaits n s) (ha : s.Quiet a)
    (ht : s.step a = some t) : StopWaits n t := by
  have hends := h.stopping.ends ha.1 ha.2 ht
  have hsilent : s.SignalReaches a := by
    intro hstop _ pick hsignal
    cases a with
    | stopSignal thread p => simp [signalOf, h.stopping.stopped] at hsignal
    | _ => cases hstop
  exact ⟨h.settled.step ht, hends.stopping, h.settled.found h.found hsilent ht,
    Nat.le_trans hends.calls h.calls⟩

/-- After its first section, and as long as nobody starts the looper again, a stop has to
wait for one more call of a task at most, and for the ten steps left to the worker and
its thread, which can take them whenever the worker does not wait for the clock. When they
are gone every stop that waits returns. -/
theorem stop_returns {as bs : List Act} {s t : Looper} (hr : run Looper.step create as = some s)
    (ha : Throughout Looper.step (fun s a => s.SignalReaches a ∧ s.GapUncleared a) create as)
    (hstopped : s.started = false) (hstarting : s.starting = .none)
    (howed : s.thread.running → s.worker ≠ .none ∨ s.thread.leaving ≠ [])
    (hrun : run Looper.step s bs = some t) (hb : Throughout Looper.step Quiet s bs) :
    t.LeavesOn ∧ t.invoked.length ≤ s.invoked.length + 1 ∧
      bs.countP Act.isLeaving ≤ 10 + 3 * s.thread.leaving.length ∧
      (t.Gone → ∀ thread, t.stops thread = .check ∨ t.stops thread = .waiting →
        ∃ u, run Looper.step t [.timeout (.stop thread), .stopCheck thread] = some u ∧
          u.stops thread = .none) := by
  have hinv : s.Settled ∧ s.Fed ∧ ¬ s.Lost :=
    @invariant_of_steps _ _ _ (fun s : Looper => s.Settled ∧ s.Fed ∧ ¬ s.Lost) _
      (fun _ _ _ h ha hm => ⟨h.1.step hm, h.2.1.uncleared_step ha.2 hm, h.1.found h.2.2 ha.1 hm⟩)
      _ _ _ ⟨settled_create, fed_create, fun h => by cases h.2.1⟩ ha hr
  obtain ⟨hsettled, hfed, hfound⟩ := hinv
  have hstopping : s.Stopping := ⟨hfed, hstopped, hstarting, howed⟩
  have hcallsLeft : s.worker.callsLeft ≤ 1 := by cases s.worker <;> simp [Worker.callsLeft]
  have hwaits : StopWaits (s.invoked.length + 1) s :=
    ⟨hsettled, hstopping, hfound, Nat.add_le_add_left hcallsLeft _⟩
  have hend := invariant_of_steps (fun _ _ _ h ha hm => h.step ha hm) hwaits hb hrun
  refine ⟨hend.stopping.leaves_on hend.found, Nat.le_of_add_right_le hend.calls, ?_,
    fun hgone thread hcall => hend.stopping.returns hgone hcall⟩
  calc bs.countP Act.isLeaving
      ≤ bs.countP Act.isLeaving + t.untilGone := Nat.le_add_right _ _
    _ ≤ s.untilGone := hstopping.work_le hb hrun
    _ ≤ 10 + 3 * s.thread.leaving.length := untilGone_le s

/-- A stop between the first section and the second one, which takes a task that is due. -/
def stopAtWork : List Act :=
  [.start, .startStore, .startStore, .testExit,
    .post ⟨timeMs 0, DelayMs.ofInt32 0, 100, 1, 0, 0⟩ none,
    .post ⟨timeMs 0, DelayMs.ofInt32 0, 200, 2, 7, 8⟩ none,
    .section1, .testStarted, .stopSignal 0 none]

def leaveWork : List Act :=
  [.section2 (timeMs 0), .stopRequest 0, .testState, .stopCheck 0, .procReturn, .testExit,
    .finish, .leave 0, .leave 0, .leave 0]

theorem stop_at_work_returns : ∃ s t, run Looper.step create stopAtWork = some s ∧
    run Looper.step s leaveWork = some t ∧ t.invoked.length = 1 ∧
    ∃ u, run Looper.step t [.timeout (.stop 0), .stopCheck 0] = some u ∧ u.stops 0 = .none := by
  have hone : Throughout Looper.step SignalReaches create stopAtWork :=
    signal_reaches_of_one_stop unstopped_create (by decide)
  have hgap : Throughout Looper.step GapUncleared create stopAtWork :=
    throughout_of_mem (by simp [stopAtWork, GapUncleared]) create
  obtain ⟨s, hs⟩ : ∃ s, run Looper.step create stopAtWork = some s := ⟨_, rfl⟩
  obtain ⟨t, ht⟩ : ∃ t, run Looper.step s leaveWork = some t := by
    cases hs
    exact ⟨_, rfl⟩
  have hquiet : Throughout Looper.step Quiet s leaveWork :=
    throughout_of_mem (by simp [leaveWork, Quiet, GapUncleared]) s
  have hreturns := @stop_returns stopAtWork leaveWork s t hs (hone.and hgap)
  cases hs
  obtain ⟨_, _, _, hgone⟩ := hreturns rfl rfl (by decide) ht hquiet
  refine ⟨_, t, rfl, ht, ?_, hgone ?_ 0 ?_⟩
  · cases ht
    rfl
  · cases ht
    exact ⟨rfl, rfl⟩
  · cases ht
    exact Or.inr rfl

end Awe.Looper
