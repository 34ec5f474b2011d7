import Awe.UxScheduler.Ending

namespace Awe.UxScheduler
open Machine

/-- What a step does to the places that callers stand in. -/
inductive Places (s : UxScheduler) : Act → UxScheduler → Prop where
  | same {a : Act} {t : UxScheduler} (calls : t.calls = s.calls) : Places s a t
  | stop {c : Caller} {pick : Option Waiter} {t : UxScheduler} (may : s.mayCall c)
      (calls : t.calls = Function.update s.calls c .stopCheck) : Places s (.stop c pick) t
  | stopCheck {c : Caller} {t : UxScheduler}
      (waits : s.calls c = .stopCheck ∨ s.calls c = .stopWait)
      (calls : t.calls =
        Function.update s.calls c (if s.thread.running then .stopWait else .none)) :
      Places s (.stopCheck c) t
  | rm {a : Act} {c : Caller} {t : UxScheduler} (free : s.calls c = .none)
      (calls : t.calls = Function.update s.calls c .rmWait) : Places s a t
  | rmReturn {c : Caller} {t : UxScheduler} (waits : s.calls c = .rmWait)
      (calls : t.calls = Function.update s.calls c .none) : Places s (.rmReturn c) t

section SelfStop

variable {s t : UxScheduler} {a : Act}

theorem step_places (ht : s.step a = some t) : s.Places a t := by
  cases step_effect ht with
  | stop may => exact .stop may rfl
  | stopWaits waits running => exact .stopCheck waits (by rw [if_pos running])
  | stopReturns waits ended => exact .stopCheck waits (by simp [ended])
  | rmWaits _ free => exact .rm free rfl
  | rmReturn waits => exact .rmReturn waits rfl
  | _ => exact .same rfl

/-- `c` stands in the second section of `awe_uxscheduler_stop`. -/
def WaitsForWorker (s : UxScheduler) (c : Caller) : Prop :=
  s.calls c = .stopCheck ∨ s.calls c = .stopWait

theorem update_waits {c d : Caller} {call : Call} (hcall : call = .stopCheck ∨ call = .stopWait)
    (hc : s.WaitsForWorker c) : Function.update s.calls d call c = .stopCheck ∨
      Function.update s.calls d call c = .stopWait := by
  by_cases he : c = d
  · subst he
    rw [Function.update_self]
    exact hcall
  · rw [Function.update_of_ne he]
    exact hc

/-- As long as `_running` is set no stop returns. -/
theorem Places.waits_on {c : Caller} (h : s.Places a t) (hrunning : s.thread.running)
    (hc : s.WaitsForWorker c) : t.WaitsForWorker c := by
  have hother : ∀ {d : Caller}, ¬ s.WaitsForWorker d → d ≠ c := by
    rintro d hd rfl
    exact hd hc
  unfold WaitsForWorker
  cases h with
  | same calls => exact calls ▸ hc
  | stop may calls => exact calls ▸ update_waits (Or.inl rfl) hc
  | stopCheck waits calls =>
    rw [calls, if_pos hrunning]
    exact update_waits (Or.inr rfl) hc
  | rm free calls =>
    rw [calls, Function.update_of_ne (hother (by simp [WaitsForWorker, free])).symm]
    exact hc
  | rmReturn waits calls =>
    rw [calls, Function.update_of_ne (hother (by simp [WaitsForWorker, waits])).symm]
    exact hc

/-- The worker is inside a callback that has stopped the scheduler. -/
structure SelfStopped (s : UxScheduler) : Prop where
  inside : s.worker.inCallback
  stopped : s.started = false
  starting : s.starting = .none

theorem SelfStopped.stuck (h : s.SelfStopped) (hwaits : s.WaitsForWorker .worker)
    (ha : a.ofWorker) : s.step a = none := by
  have hcalls : s.calls .worker ≠ .none := by rcases hwaits with hw | hw <;> simp [hw]
  have hinside := h.inside
  have hact : s.act a = none := by
    cases hw : s.worker with
    | handling | running =>
      cases a <;> first
        | exact absurd ha Bool.false_ne_true
        | simp [act, testExit, UxScheduler.guard, testStarted, prepare, select, dispatch,
            UxScheduler.handle, handlerReturn, endRound, testTask, procReturn, finish, hw, hcalls]
    | _ =>
      rw [hw] at hinside
      cases hinside
  unfold UxScheduler.step
  split
  · rfl
  · exact hact

/-- All that goes on then are calls of others and the last stores of older threads. -/
theorem SelfStopped.aside (h : s.SelfStopped) (hwaits : s.WaitsForWorker .worker)
    (hone : s.OneWorker) (ht : s.step a = some t) : s.Aside a t ∨ ∃ n, a = .leave n := by
  have hworker : s.worker ≠ .none := by
    intro hnone
    have hinside := h.inside
    rw [hnone] at hinside
    cases hinside
  cases hleaving : a.isLeaving with
  | true =>
    rcases Act.isLeaving_cases hleaving with hwork | hleave
    · rw [h.stuck hwaits hwork] at ht
      cases ht
    · exact Or.inr hleave
  | false =>
    have hstart : ∀ delayMs, a ≠ .start delayMs := by
      rintro delayMs rfl
      simp [UxScheduler.step, act, UxScheduler.start, h.stopped, hone.tid hworker] at ht
    have hstore : a ≠ .startStore := by
      rintro rfl
      simp [UxScheduler.step, act, startStore, h.starting] at ht
    exact Or.inl (step_aside hleaving hstart hstore ht)

theorem Aside.self_stopped (haside : s.Aside a t) (h : s.SelfStopped) : t.SelfStopped := by
  refine ⟨?_, haside.stopped h.stopped, haside.starting.trans h.starting⟩
  rw [haside.worker]
  exact h.inside

/-- The worker waits for itself only in a callback of its own. -/
theorem self_stopped_step (h : s.WaitsForWorker .worker → s.SelfStopped) (hone : s.OneWorker)
    (ht : s.step a = some t) (hwaits : t.WaitsForWorker .worker) : t.SelfStopped := by
  by_cases hbefore : s.WaitsForWorker .worker
  · rcases (h hbefore).aside hbefore hone ht with haside | ⟨n, rfl⟩
    · exact haside.self_stopped (h hbefore)
    · obtain ⟨u, _, rfl⟩ := Option.map_eq_some_iff.mp (step_act ht)
      obtain ⟨hinside, hstopped, hstarting⟩ := h hbefore
      exact ⟨hinside, hstopped, hstarting⟩
  · unfold WaitsForWorker at hbefore hwaits
    have hsame : ∀ {d : Caller} {call : Call}, t.calls = Function.update s.calls d call →
        call ≠ .stopCheck → call ≠ .stopWait → False := by
      intro d call hcalls hcheck hwait
      rw [hcalls] at hwaits
      by_cases hd : .worker = d
      · subst hd
        rw [Function.update_self] at hwaits
        exact hwaits.elim hcheck hwait
      · rw [Function.update_of_ne hd] at hwaits
        exact hbefore hwaits
    cases step_places ht with
    | same calls => exact absurd (calls ▸ hwaits) hbefore
    | @stop c pick _ may calls =>
      have hc : c = .worker := by
        by_contra hne
        rw [calls, Function.update_of_ne (Ne.symm hne)] at hwaits
        exact hbefore hwaits
      subst hc
      have hstarting : s.starting = .none := by
        by_contra hne
        simp [UxScheduler.step, hne, Act.locks] at ht
      have hinside : s.worker.inCallback = true := by
        simp only [mayCall, decide_eq_true_eq] at may
        exact may.2 trivial
      rcases stop_cases (step_act ht) with ⟨_, rfl⟩ | ⟨cond, _, _, rfl⟩
      · exact absurd hwaits hbefore
      · exact ⟨hinside, rfl, hstarting⟩
    | @stopCheck c _ waits calls =>
      have hd : .worker ≠ c := by
        rintro rfl
        exact hbefore waits
      rw [calls, Function.update_of_ne hd] at hwaits
      exact absurd hwaits hbefore
    | rm free calls => exact (hsame calls (by simp) (by simp)).elim
    | rmReturn waits calls => exact (hsame calls (by simp) (by simp)).elim

/-- Where a run from `s` stands as long as the callback of `s` waits for the worker. -/
structure Hanging (s u : UxScheduler) : Prop where
  alone : u.OneWorker
  itself : u.SelfStopped
  caller : u.WaitsForWorker .worker
  running : u.thread.running
  last : u.thread.leaving = []
  worker : u.worker = s.worker
  invoked : u.invoked = s.invoked
  waits : ∀ c, s.WaitsForWorker c → u.WaitsForWorker c

theorem Hanging.step {u m : UxScheduler} (h : Hanging s u) (hm : u.step a = some m) :
    Hanging s m := by
  rcases h.itself.aside h.caller h.alone hm with haside | ⟨n, rfl⟩
  · have hplaces := step_places hm
    exact {
      alone := h.alone.step hm
      itself := haside.self_stopped h.itself
      caller := hplaces.waits_on h.running h.caller
      running := haside.running.trans h.running
      last := haside.leaving.trans h.last
      worker := haside.worker.trans h.worker
      invoked := haside.invoked.trans h.invoked
      waits := fun c hc => hplaces.waits_on h.running (h.waits c hc) }
  · have hnobody : u.step (.leave n) = none := by
      simp [UxScheduler.step, Act.locks, act, leave, Thread.leave, h.last]
    rw [hnobody] at hm
    cases hm

/-- A stop made from a callback never returns, nor does any other while it waits: the worker
stays inside the callback, which waits for the worker to be gone. -/
theorem stop_from_callback_hangs {as bs : List Act}
    (hr : run UxScheduler.step create as = some s) (hcall : s.WaitsForWorker .worker)
    (hrunning : s.thread.running) (hlast : s.thread.leaving = [])
    (hrun : run UxScheduler.step s bs = some t) :
    t.worker = s.worker ∧ t.invoked = s.invoked ∧ t.started = false ∧
      ∀ c, s.WaitsForWorker c → t.WaitsForWorker c := by
  have hfree : ¬ create.WaitsForWorker .worker := by simp [WaitsForWorker, create]
  have hinv : s.OneWorker ∧ (s.WaitsForWorker .worker → s.SelfStopped) :=
    @Machine.invariant _ _ _ (fun s : UxScheduler => s.OneWorker ∧
        (s.WaitsForWorker .worker → s.SelfStopped))
      (fun _ _ _ h hm => ⟨h.1.step hm, self_stopped_step h.2 h.1 hm⟩) _ _ _
      ⟨oneWorker_create, fun hcall => absurd hcall hfree⟩ hr
  have hbegin : Hanging s s :=
    ⟨hinv.1, hinv.2 hcall, hcall, hrunning, hlast, rfl, rfl, fun _ hc => hc⟩
  have hend : Hanging s t := Machine.invariant (fun _ _ _ h hm => h.step hm) hbegin hrun
  exact ⟨hend.worker, hend.invoked, hend.itself.stopped, hend.waits⟩

end SelfStop

/-- The handler of a descriptor stops the scheduler, while another thread does so too. -/
def stopInHandler : List Act :=
  [.start anyDelay, .startStore, .startStore, .add (.thread 0) 100 5 AWE_READ 1 0 none,
    .testExit, .guard, .testStarted, .prepare (timeMs 0), .select 1 [5] [], .dispatch, .handle,
    .stop .worker none, .stopCheck .worker]

def waitOn : List Act :=
  [.timeout .worker, .post ⟨timeMs 0, anyDelay, 200, 2, 7, 8⟩ none, .stopCheck .worker,
    .rm (.thread 0) 5, .timeout .worker, .stopCheck .worker]

theorem stop_in_handler_hangs : ∃ s t, run step create stopInHandler = some s ∧
    run step s waitOn = some t ∧ t.worker.inCallback ∧ t.WaitsForWorker .worker := by
  obtain ⟨s, hs⟩ : ∃ s, run step create stopInHandler = some s := ⟨_, rfl⟩
  obtain ⟨t, ht⟩ : ∃ t, run step s waitOn = some t := by
    cases hs
    exact ⟨_, rfl⟩
  have hcall : s.WaitsForWorker .worker := by
    cases hs
    exact Or.inr rfl
  have hhangs := @stop_from_callback_hangs s t stopInHandler waitOn hs hcall
  cases hs
  obtain ⟨hworker, _, _, hwaits⟩ := hhangs rfl rfl ht
  refine ⟨_, t, rfl, ht, ?_, hwaits _ hcall⟩
  rw [hworker]
  rfl

end Awe.UxScheduler
