import Mathlib.Algebra.BigOperators.Ring.List
import Awe.Lib.Progress
import Awe.UxScheduler.Events
import Awe.UxScheduler.WakeUp

namespace Awe.UxScheduler
open Machine

/-- The steps of the worker and of what its thread does after it. -/
def Act.isLeaving : Act → Bool
  | .leave _ => true
  | a => a.ofWorker

theorem Act.isLeaving_cases {a : Act} (h : a.isLeaving) : a.ofWorker ∨ ∃ n, a = .leave n := by
  cases a with
  | leave n => exact Or.inr ⟨n, rfl⟩
  | _ => exact Or.inl h

theorem Act.ofWorker_of_isLeaving {a : Act} (h : a.isLeaving = false) : a.ofWorker = false := by
  cases a with
  | leave n => rfl
  | _ => exact h

def Act.isAdd : Act → Bool
  | .add .. => true
  | _ => false

/-- A call on the scheduler, which leaves the worker and its thread alone. -/
structure Aside (s : UxScheduler) (a : Act) (t : UxScheduler) : Prop where
  worker : t.worker = s.worker
  starting : t.starting = s.starting
  running : t.thread.running = s.thread.running
  leaving : t.thread.leaving = s.thread.leaving
  invoked : t.invoked = s.invoked
  stopped : s.started = false → t.started = false
  events : t.uxeventList.length ≤ s.uxeventList.length + a.isAdd.toNat

section Aside

variable {s t : UxScheduler} {a : Act}

theorem length_addEvent_le (list : List UxEvent) (addr : Ptr) (ufd : Int)
    (conditionSet : BitVec 32) (proc userdata : Ptr) :
    (addEvent list addr ufd conditionSet proc userdata).length ≤ list.length + 1 := by
  unfold addEvent
  split
  · rw [List.length_append]
    exact Nat.le_refl _
  · rw [List.length_replace]
    exact Nat.le_add_right _ _

theorem length_setConditions (s : UxScheduler) (ufd : Int) (f : BitVec 32 → BitVec 32) :
    (s.setConditions ufd f).uxeventList.length = s.uxeventList.length := by
  unfold setConditions
  split
  · rfl
  · exact List.length_replace

theorem step_aside (hcall : a.isLeaving = false) (hstart : ∀ delayMs, a ≠ .start delayMs)
    (hstore : a ≠ .startStore) (ht : s.step a = some t) : s.Aside a t := by
  cases step_effect ht with
  | start => exact absurd rfl (hstart _)
  | reset | launch => exact absurd rfl hstore
  | moves work =>
    rw [Act.ofWorker_of_isLeaving hcall] at work
    cases work
  | sleeps | finds | crash | handles | returns | endsRound | takes | calls | skips | ends | finish
  | leave => cases hcall
  | stop => exact ⟨rfl, rfl, rfl, rfl, rfl, fun _ => rfl, Nat.le_add_right _ _⟩
  | rmWaits | rm =>
    exact ⟨rfl, rfl, rfl, rfl, rfl, id, Nat.le_add_right_of_le List.erase_sublist.length_le⟩
  | add => exact ⟨rfl, rfl, rfl, rfl, rfl, id, length_addEvent_le _ _ _ _ _ _⟩
  | disable | enable =>
    exact ⟨rfl, rfl, rfl, rfl, rfl, id, Nat.le_of_eq (length_setConditions _ _ _)⟩
  | clear => exact ⟨rfl, rfl, rfl, rfl, rfl, id, Nat.zero_le _⟩
  | _ => exact ⟨rfl, rfl, rfl, rfl, rfl, id, Nat.le_add_right _ _⟩

end Aside

/-- As long as `_running` is set there is a thread left to clear it, and a start that is
under way is not stopped. -/
structure Owed (s : UxScheduler) : Prop where
  running : s.thread.running → s.worker ≠ .none ∨ s.thread.leaving ≠ []
  starting : s.starting ≠ .none → s.worker ≠ .none ∧ s.started = true

theorem owed_create : create.Owed := ⟨fun h => (by cases h), fun h => absurd rfl h⟩

theorem starting_of_locks {s t : UxScheduler} {a : Act} (ht : s.step a = some t)
    (ha : a.locks = true) : s.starting = .none := by
  by_contra hne
  simp [UxScheduler.step, hne, ha] at ht

/-- The worker cannot leave before `awe_uxscheduler_start` lets go of the mutex, so that
store of `_running` is never the last one. -/
theorem Owed.step {s t : UxScheduler} {a : Act} (h : s.Owed) (ht : s.step a = some t) : t.Owed := by
  cases step_effect ht with
  | start => exact ⟨fun _ => Or.inl nofun, fun _ => ⟨nofun, rfl⟩⟩
  | reset created =>
    have hbegun := h.starting (by simp [created])
    exact ⟨fun _ => Or.inl hbegun.1, fun _ => hbegun⟩
  | launch reset =>
    have hbegun := h.starting (by simp [reset])
    exact ⟨fun _ => Or.inl hbegun.1, fun _ => hbegun⟩
  | stop =>
    have hnone := starting_of_locks ht rfl
    exact ⟨h.running, fun hne => absurd hnone hne⟩
  | finish =>
    have hnone := starting_of_locks ht rfl
    exact ⟨fun _ => Or.inr (by simp), fun hne => absurd hnone hne⟩
  | leave stores => exact ⟨fun hrun => Or.inr ((Thread.leave_nearer stores).2 hrun), h.starting⟩
  | moves _ _ there =>
    have hworker := Worker.ne_none_of_emptyHanded there
    exact ⟨fun _ => Or.inl hworker, fun hne => ⟨hworker, (h.starting hne).2⟩⟩
  | sleeps | finds | crash | handles | returns | endsRound | takes | calls | skips | ends =>
    exact ⟨fun _ => Or.inl nofun, fun hne => ⟨nofun, (h.starting hne).2⟩⟩
  | _ => exact ⟨h.running, h.starting⟩

structure Stopping (s : UxScheduler) : Prop where
  alone : s.OneWorker
  owed : s.Owed
  found : ¬ s.Stranded
  stopped : s.started = false
  starting : s.starting = .none

/-- How many steps are left to the worker of a stopped scheduler at most, the three stores
of its thread among them; `events` descriptors are in the list. -/
def Worker.untilGone (events : Nat) : Worker → Nat
  | .none => 0
  | .crashed => 1
  | .exit => 4
  | .test => 5
  | .guard | .idle => 6
  | .loop => 7
  | .running _ => 8
  | .fetched _ => 9
  | .endRound => 10
  | .dispatch todo => 11 + 3 * todo.length
  | .handling _ todo => 12 + 3 * todo.length
  | .found _ _ todo => 13 + 3 * todo.length
  | .select _ rset wset _ => 12 + 3 * (rset.length + wset.length)
  | .prepare => 13 + 6 * events

def untilGone (s : UxScheduler) : Nat :=
  s.worker.untilGone s.uxeventList.length + Thread.storesLeft s.thread.leaving

/-- A task the worker may still call: its round is not over yet. -/
def Worker.callsLeft : Worker → Nat
  | .prepare | .select .. | .dispatch _ | .found .. | .handling .. | .endRound | .fetched _ => 1
  | _ => 0

/-- What nobody does while a stop waits: start the scheduler again. `ux_select` names each
descriptor of a set once. -/
structure Quiet (a : Act) : Prop where
  stays : ∀ delayMs, a ≠ .start delayMs
  once : ∀ selectResult rset wset, a = .select selectResult rset wset → rset.Nodup ∧ wset.Nodup

structure Ends (s : UxScheduler) (a : Act) (t : UxScheduler) : Prop where
  stopped : t.started = false
  starting : t.starting = .none
  nearer : t.untilGone + a.isLeaving.toNat ≤ s.untilGone + 6 * a.isAdd.toNat
  calls : t.invoked.length + t.worker.callsLeft ≤ s.invoked.length + s.worker.callsLeft

section Ending

variable {s t : UxScheduler} {a : Act}

theorem untilGone_mono (w : Worker) {m n : Nat} (h : m ≤ n) : w.untilGone m ≤ w.untilGone n := by
  cases w <;> simp only [Worker.untilGone] <;> omega

theorem untilGone_events (w : Worker) {m n : Nat} (h : m ≤ n + 1) :
    w.untilGone m ≤ w.untilGone n + 6 := by
  cases w <;> simp only [Worker.untilGone] <;> omega

theorem length_readyIn_le (set : List Int) (mask : BitVec 32) :
    (readyIn set mask).length ≤ set.length := by
  unfold readyIn
  rw [List.length_map]
  exact List.length_filter_le _ _

theorem length_ufdSet_le (list : List UxEvent) (events : BitVec 32) :
    (ufdSet list events).length ≤ list.length := by
  unfold ufdSet
  rw [List.length_map]
  exact List.length_filter_le _ _

/-- A step of the worker to another place of its loop. -/
theorem Ends.of_move {w : Worker} (hwork : a.isLeaving = true)
    (hnearer : w.untilGone s.uxeventList.length < s.worker.untilGone s.uxeventList.length)
    (hworker : t.worker = w) (hstopped : t.started = false) (hstarting : t.starting = .none)
    (hevents : t.uxeventList = s.uxeventList) (hleaving : t.thread.leaving = s.thread.leaving)
    (hcalls : t.invoked.length + w.callsLeft ≤ s.invoked.length + s.worker.callsLeft) :
    s.Ends a t := by
  subst hworker
  refine ⟨hstopped, hstarting, ?_, hcalls⟩
  rw [hwork, untilGone, untilGone, hevents, hleaving]
  simp only [Bool.toNat_true]
  omega

/-- What `ux_select` leaves is no more than it was given. -/
theorem select_ends {selectResult : Int} {rset wset : List Int} (h : s.Stopping)
    (honce : rset.Nodup ∧ wset.Nodup) (ht : s.select selectResult rset wset = some t) :
    s.Ends (.select selectResult rset wset) t := by
  have hstopped := h.stopped
  have hstarting := h.starting
  unfold select at ht
  split at ht
  · rename_i n rs ws ptv hw
    split at ht
    · cases ht
      refine .of_move rfl ?_ rfl hstopped hstarting rfl rfl ?_ <;>
        simp only [hw, Worker.untilGone, Worker.callsLeft]
      · omega
      · exact Nat.le_refl _
    · split at ht
      · cases ht
      · rename_i hkept
        push Not at hkept
        have hr : rset.length ≤ rs.length := (List.subperm_of_subset honce.1 hkept.1.1).length_le
        have hws : wset.length ≤ ws.length := (List.subperm_of_subset honce.2 hkept.1.2).length_le
        have hreadyR := length_readyIn_le rset AWE_READ
        have hreadyW := length_readyIn_le wset AWE_WRITE
        split at ht <;> cases ht
        · refine .of_move rfl ?_ rfl hstopped hstarting rfl rfl ?_ <;>
            simp only [hw, Worker.untilGone, Worker.callsLeft, List.length_append]
          · omega
          · exact Nat.le_refl _
        · refine .of_move rfl ?_ rfl hstopped hstarting rfl rfl ?_ <;>
            simp only [hw, Worker.untilGone, Worker.callsLeft]
          · omega
          · exact Nat.le_refl _
  · cases ht

/-- Only an add in the worker's way to its select can put it off. -/
theorem Aside.ends (haside : s.Aside a t) (h : s.Stopping) (ha : a.isLeaving = false) :
    s.Ends a t := by
  refine ⟨haside.stopped h.stopped, haside.starting.trans h.starting, ?_, ?_⟩
  · have hevents := haside.events
    rw [ha, untilGone, untilGone, haside.worker, haside.leaving]
    cases hadd : a.isAdd with
    | false =>
      rw [hadd, Bool.toNat_false, Nat.add_zero] at hevents
      have hless := untilGone_mono s.worker hevents
      simp only [Bool.toNat_false]
      omega
    | true =>
      rw [hadd] at hevents
      have hless := untilGone_events s.worker hevents
      simp only [Bool.toNat_false, Bool.toNat_true]
      omega
  · rw [haside.invoked, haside.worker]

theorem Stopping.ends (h : s.Stopping) (hquiet : Quiet a) (hstep : s.step a = some t) :
    s.Ends a t := by
  have hstopped := h.stopped
  have hstarting := h.starting
  have ht := step_act hstep
  cases a with
  | start delayMs => exact absurd rfl (hquiet.stays delayMs)
  | startStore => simp [act, startStore, hstarting] at ht
  | select selectResult rset wset => exact select_ends h (hquiet.once _ _ _ rfl) ht
  | finish =>
    simp only [act, UxScheduler.finish] at ht
    split at ht
    · rename_i hw
      cases ht
      refine ⟨hstopped, hstarting, ?_, ?_⟩
      · simp [untilGone, hw, Worker.untilGone, Act.isLeaving, Act.ofWorker, Thread.storesLeft,
          Thread.untilLast]
        omega
      · simp [hw, Worker.callsLeft]
    · cases ht
  | leave n =>
    obtain ⟨u, hu, rfl⟩ := Option.map_eq_some_iff.mp ht
    obtain ⟨hsum, _⟩ := Thread.leave_nearer hu
    refine ⟨hstopped, hstarting, ?_, Nat.le_refl _⟩
    change s.worker.untilGone s.uxeventList.length + Thread.storesLeft u.leaving + 1 ≤ s.untilGone
    rw [untilGone]
    omega
  | prepare now =>
    simp only [act, prepare] at ht
    split at ht
    · rename_i hw
      cases ht
      have hr := length_ufdSet_le s.uxeventList AWE_READ
      have hwr := length_ufdSet_le s.uxeventList AWE_WRITE
      refine .of_move rfl ?_ rfl hstopped hstarting rfl rfl ?_ <;>
        simp only [hw, Worker.untilGone, Worker.callsLeft]
      · omega
      · exact Nat.le_refl _
    · cases ht
  | testExit | guard | testStarted | dispatch | handle | handlerReturn | endRound | testTask
  | procReturn =>
    simp only [act, testExit, UxScheduler.guard, testStarted, dispatch, UxScheduler.handle,
      handlerReturn, endRound, testTask, procReturn, hstopped, Bool.false_eq_true, false_and,
      if_false] at ht
    repeat' first | split at ht | cases ht
    all_goals
      refine .of_move rfl ?_ rfl rfl hstarting rfl rfl ?_ <;>
        simp [*, Worker.untilGone, Worker.callsLeft] <;> omega
  | stop | stopCheck | rm | rmReturn | add | disable | enable | post | cancel | clear | timeout =>
    exact (step_aside (by rfl) (by simp) (by simp) hstep).ends h (by rfl)

/-- The worker was not asleep when the scheduler was stopped, and does not fall asleep
again. -/
theorem Stopping.step (h : s.Stopping) (hquiet : Quiet a) (ht : s.step a = some t) :
    t.Stopping := by
  have hends := h.ends hquiet ht
  have hawake : ¬ s.Asleep := fun hasleep => h.found ⟨hasleep, Or.inr h.stopped⟩
  have hfound : ¬ t.Stranded := by
    apply (stranded_iff h.found ht).mpr
    intro hasleep
    exact absurd hasleep hawake
  exact ⟨h.alone.step ht, h.owed.step ht, hfound, hends.stopped, hends.starting⟩

def Gone (s : UxScheduler) : Prop := s.worker = .none ∧ s.thread.leaving = []

/-- What can keep the worker of a stopped scheduler from going on: it has read a freed event
or is about to call through one without a procedure, a callback waits for the worker itself,
or `ux_select` waits without limit. -/
inductive HeldUp (s : UxScheduler) : Prop where
  | crashed (worker : s.worker = .crashed)
  | null {addr : Ptr} {ready : Ready} {todo : List Ready} {uxe : UxEvent}
      (worker : s.worker = .found addr ready todo) (listed : uxe ∈ s.uxeventList)
      (proc : uxe.proc = NULL)
  | itself (inside : s.worker.inCallback) (waits : s.calls .worker ≠ .none)
  | unlimited {ufdSize : Nat} {rset wset : List Int}
      (worker : s.worker = .select ufdSize rset wset none)

/-- The worker and its thread can go on to their end, or are there already. -/
def LeavesOn (s : UxScheduler) : Prop :=
  (∃ a, a.isLeaving ∧ (s.step a).isSome) ∨ s.Gone ∨ s.HeldUp

theorem Stopping.leaves_on (h : s.Stopping) : s.LeavesOn := by
  have hstep : ∀ a, s.step a = s.act a := by simp [UxScheduler.step, h.starting]
  cases hw : s.worker with
  | none =>
    cases hleaving : s.thread.leaving with
    | nil => exact Or.inr (Or.inl ⟨hw, hleaving⟩)
    | cons store rest =>
      refine Or.inl ⟨.leave 0, rfl, ?_⟩
      cases store <;> simp [hstep, act, leave, Thread.leave, hleaving]
  | crashed => exact Or.inr (Or.inr (.crashed hw))
  | exit => exact Or.inl ⟨.finish, rfl, by simp [hstep, act, UxScheduler.finish, hw]⟩
  | loop => exact Or.inl ⟨.testExit, rfl, by simp [hstep, act, testExit, hw]⟩
  | test => exact Or.inl ⟨.testStarted, rfl, by simp [hstep, act, testStarted, hw]⟩
  | guard =>
    exact Or.inl ⟨.guard, rfl, by simp [hstep, act, UxScheduler.guard, hw, h.stopped]⟩
  | idle =>
    have hawake : .idle ∉ s.cond.waiters :=
      fun hasleep => h.found ⟨⟨hw, hasleep⟩, Or.inr h.stopped⟩
    refine Or.inl ⟨.guard, rfl, ?_⟩
    simp [hstep, act, UxScheduler.guard, hw, h.stopped, hawake]
  | prepare => exact Or.inl ⟨.prepare (timeMs 0), rfl, by simp [hstep, act, prepare, hw]⟩
  | select ufdSize rset wset ptv =>
    cases ptv with
    | none => exact Or.inr (Or.inr (.unlimited hw))
    | some limit =>
      refine Or.inl ⟨.select 0 [] [], rfl, ?_⟩
      simp only [hstep, act, select, hw]
      split <;> simp
  | dispatch todo =>
    refine Or.inl ⟨.dispatch, rfl, ?_⟩
    cases todo with
    | nil => simp [hstep, act, dispatch, hw]
    | cons ready todo =>
      simp only [hstep, act, dispatch, hw]
      split <;> rfl
  | found addr ready todo =>
    cases hfind : s.uxeventList.find? (fun e => e.addr = addr) with
    | none =>
      refine Or.inl ⟨.handle, rfl, ?_⟩
      simp [hstep, act, UxScheduler.handle, hw, hfind]
    | some uxe =>
      by_cases hproc : uxe.proc = NULL
      · exact Or.inr (Or.inr (.null hw (List.mem_of_find?_eq_some hfind) hproc))
      · refine Or.inl ⟨.handle, rfl, ?_⟩
        simp [hstep, act, UxScheduler.handle, hw, hfind, hproc]
  | handling ready todo =>
    by_cases hcalls : s.calls .worker = .none
    · exact Or.inl ⟨.handlerReturn, rfl, by simp [hstep, act, handlerReturn, hw, hcalls]⟩
    · exact Or.inr (Or.inr (.itself (by rw [hw]; rfl) hcalls))
  | running task =>
    by_cases hcalls : s.calls .worker = .none
    · exact Or.inl ⟨.procReturn, rfl, by simp [hstep, act, procReturn, hw, hcalls]⟩
    · exact Or.inr (Or.inr (.itself (by rw [hw]; rfl) hcalls))
  | endRound =>
    refine Or.inl ⟨.endRound (timeMs 0), rfl, ?_⟩
    simp only [hstep, act, endRound, hw]
    cases s.taskList with
    | nil => rfl
    | cons task rest =>
      dsimp only
      split <;> rfl
  | fetched task =>
    refine Or.inl ⟨.testTask, rfl, ?_⟩
    simp only [hstep, act, testTask, hw]
    split <;> rfl

/-- Nobody is running any more, so whoever waits for that leaves `awe_uxscheduler_stop` at
its next look. -/
theorem Stopping.returns (h : s.Stopping) (hgone : s.Gone) {c : Caller}
    (hcall : s.calls c = .stopCheck ∨ s.calls c = .stopWait) :
    ∃ u, run UxScheduler.step s [.timeout c, .stopCheck c] = some u ∧ u.calls c = .none := by
  have hrunning : s.thread.running = false := by
    cases hrun : s.thread.running with
    | false => rfl
    | true => exact absurd hgone (fun hg => (h.owed.running hrun).elim (· hg.1) (· hg.2))
  let m := s.timeout c
  have hm : s.step (.timeout c) = some m := by simp [UxScheduler.step, Act.locks, act, m]
  have hcheck : m.step (.stopCheck c) =
      some { m with calls := Function.update m.calls c .none } := by
    have hawake : .call c ∉ m.cond.waiters := fun hmem => (CondVar.mem_timeout.mp hmem).1 rfl
    have hcalls : m.calls c = .stopCheck ∨ m.calls c = .stopWait := hcall
    have hrun : m.thread.running = false := hrunning
    have hstarting : m.starting = .none := h.starting
    rcases hcalls with hs | hs <;>
      simp [UxScheduler.step, hstarting, act, stopCheck, hs, hrun, hawake]
  exact ⟨_, run_cons.mpr ⟨m, hm, run_cons.mpr ⟨_, hcheck, rfl⟩⟩, Function.update_self ..⟩

theorem stopping_of_run {as : List Act} (hr : run UxScheduler.step create as = some s)
    (ha : Throughout UxScheduler.step WakesWorker create as) (hstopped : s.started = false) :
    s.Stopping := by
  have hinv : s.OneWorker ∧ s.Owed ∧ ¬ s.Stranded :=
    @invariant_of_steps _ _ _ (fun s : UxScheduler => s.OneWorker ∧ s.Owed ∧ ¬ s.Stranded) _
      (fun _ _ _ h hwakes hm => ⟨h.1.step hm, h.2.1.step hm,
        (stranded_iff h.2.2 hm).mpr hwakes⟩)
      _ _ _ ⟨oneWorker_create, owed_create, fun h => by cases h.1.1⟩ ha hr
  have hstarting : s.starting = .none := by
    by_contra hne
    have hon := (hinv.2.1.starting hne).2
    rw [hstopped] at hon
    cases hon
  exact ⟨hinv.1, hinv.2.1, hinv.2.2, hstopped, hstarting⟩

/-- After its first section, and as long as nobody starts the scheduler again, a stop waits
for one more task at most and for the steps left to the worker and its thread, six more for
each descriptor added on the way. They can take them unless the worker is held up, and when
they are gone every stop that waits returns. -/
theorem stop_gets_through {as bs : List Act} (hr : run UxScheduler.step create as = some s)
    (ha : Throughout UxScheduler.step WakesWorker create as) (hstopped : s.started = false)
    (hrun : run UxScheduler.step s bs = some t) (hb : ∀ b ∈ bs, Quiet b) :
    t.LeavesOn ∧ t.invoked.length ≤ s.invoked.length + 1 ∧
      bs.countP Act.isLeaving + t.untilGone ≤ s.untilGone + 6 * bs.countP Act.isAdd ∧
      (t.Gone → ∀ c, t.calls c = .stopCheck ∨ t.calls c = .stopWait →
        ∃ u, run UxScheduler.step t [.timeout c, .stopCheck c] = some u ∧ u.calls c = .none) := by
  have hstopping := stopping_of_run hr ha hstopped
  have hquiet : Throughout UxScheduler.step (fun _ a => Quiet a) s bs :=
    throughout_of_mem (fun _ => hb) s
  have hone : s.worker.callsLeft ≤ 1 := by cases s.worker <;> simp [Worker.callsLeft]
  have hcalls : s.invoked.length + s.worker.callsLeft ≤ s.invoked.length + 1 :=
    Nat.add_le_add_left hone _
  have hend : t.Stopping ∧ t.invoked.length + t.worker.callsLeft ≤ s.invoked.length + 1 :=
    @invariant_of_steps _ _ _ (fun u : UxScheduler => u.Stopping ∧
        u.invoked.length + u.worker.callsLeft ≤ s.invoked.length + 1) _
      (fun _ _ _ h hquiet hm => ⟨h.1.step hquiet hm, Nat.le_trans (h.1.ends hquiet hm).calls h.2⟩)
      _ _ _ ⟨hstopping, hcalls⟩ hquiet hrun
  refine ⟨hend.1.leaves_on, Nat.le_of_add_right_le hend.2, ?_, fun hgone c hcall =>
    hend.1.returns hgone hcall⟩
  rw [← sum_toNat Act.isAdd, ← List.sum_map_mul_left]
  exact work_le (fun _ _ _ h hquiet hm => ⟨h.step hquiet hm, (h.ends hquiet hm).nearer⟩)
    hstopping hquiet hrun

end Ending

def stopInRound : List Act :=
  [.start anyDelay, .startStore, .startStore, .add (.thread 0) 100 5 AWE_READ 1 0 none,
    .post ⟨timeMs 0, DelayMs.ofInt32 0, 200, 2, 7, 8⟩ none, .testExit, .guard, .testStarted,
    .stop (.thread 1) none]

def leaveRound : List Act :=
  [.prepare (timeMs 0), .stopCheck (.thread 1), .select 1 [5] [], .dispatch, .handle,
    .handlerReturn, .dispatch, .endRound (timeMs 0), .testTask, .procReturn, .testExit, .finish,
    .leave 0, .leave 0, .leave 0]

theorem stop_in_round_returns : ∃ s t, run step create stopInRound = some s ∧
    run step s leaveRound = some t ∧ t.invoked.length = 1 ∧
    ∃ u, run step t [.timeout (.thread 1), .stopCheck (.thread 1)] = some u ∧
      u.calls (.thread 1) = .none := by
  obtain ⟨s, hs⟩ : ∃ s, run step create stopInRound = some s := ⟨_, rfl⟩
  obtain ⟨t, ht⟩ : ∃ t, run step s leaveRound = some t := by
    cases hs
    exact ⟨_, rfl⟩
  have hwakes : Throughout step WakesWorker create stopInRound := by
    repeat' first | exact trivial | refine Throughout.cons rfl ?_ ?_
    all_goals
      rintro ⟨hidle, _⟩
      cases hidle
  have hquiet : ∀ b ∈ leaveRound, Quiet b := by
    intro b hb
    refine ⟨?_, ?_⟩
    · rintro delayMs rfl
      simp [leaveRound] at hb
    · rintro selectResult rset wset rfl
      simp only [leaveRound, List.mem_cons, Act.select.injEq, reduceCtorEq, List.not_mem_nil,
        false_or, or_false] at hb
      obtain ⟨_, rfl, rfl⟩ := hb
      exact ⟨List.nodup_singleton _, List.nodup_nil⟩
  have hthrough := @stop_gets_through s t stopInRound leaveRound hs hwakes
  cases hs
  obtain ⟨_, _, _, hgone⟩ := hthrough rfl ht hquiet
  refine ⟨_, t, rfl, ht, ?_, hgone ?_ (.thread 1) ?_⟩
  · cases ht
    rfl
  · cases ht
    exact ⟨rfl, rfl⟩
  · cases ht
    exact Or.inr rfl

end Awe.UxScheduler
