import Awe.UxConnector.Wiring
import Awe.UxScheduler.RmBarrier

namespace Awe

namespace UxScheduler

/-- `c` waits in `awe_uxscheduler_rm`, and no wake-up has reached it. -/
def Waiting (s : UxScheduler) (c : Caller) : Prop :=
  s.calls c = .rmWait ∧ .call c ∈ s.cond.waiters

section Waiting

variable {s t : UxScheduler} {c : Caller}

theorem Waiting.other {d : Caller} (h : s.Waiting c) {call : Call} (hd : s.calls d ≠ .rmWait)
    (hcalls : t.calls = Function.update s.calls d call)
    (hwaiters : Waiter.call c ∈ t.cond.waiters) : t.Waiting c := by
  have hne : c ≠ d := by
    intro heq
    subst heq
    exact hd h.1
  refine ⟨?_, hwaiters⟩
  rw [hcalls, Function.update_of_ne hne]
  exact h.1

theorem Waiting.signalled {pick : Option Waiter} {cond : CondVar Waiter} (h : s.Waiting c)
    (hcond : s.cond.signal pick = some cond) (hpick : pick ≠ some (.call c)) :
    .call c ∈ cond.waiters := (CondVar.mem_signal hcond).mpr ⟨h.2, hpick⟩

/-- Only its deadline, a signal that picks it or the end of a round ends the wait. -/
theorem Waiting.step (h : s.Waiting c) {a : Act} (ht : s.step a = some t)
    (hinside : s.worker.inCallback = true) (hwakes : s.wakes a ≠ some (.call c)) :
    t.Waiting c := by
  cases step_effect ht with
  | stop may on signal =>
    have hfree : s.calls _ = .none := (of_decide_eq_true may).1
    have hwaits := h.signalled signal (by simpa [wakes, signalOf, on] using hwakes)
    exact h.other (by simp [hfree]) rfl hwaits
  | stopWaits waits | stopReturns waits =>
    exact h.other (by rcases waits with hc | hc <;> simp [hc]) rfl (by simp [h.2])
  | rmWaits _ free => exact h.other (by simp [free]) rfl (by simp [h.2])
  | @rmReturn d _ awake =>
    have hne : c ≠ d := by
      rintro rfl
      exact awake h.2
    exact ⟨(Function.update_of_ne hne ..).trans h.1, h.2⟩
  | add named _ signal =>
    refine ⟨h.1, h.signalled signal ?_⟩
    simp only [wakes, signalOf] at hwakes
    rwa [if_pos named] at hwakes
  | post on _ _ signal =>
    exact ⟨h.1, h.signalled signal (by simpa [wakes, signalOf, on] using hwakes)⟩
  | timeout =>
    refine ⟨h.1, CondVar.mem_timeout.mpr ⟨?_, h.2⟩⟩
    rintro he
    exact hwakes (by simp [wakes, he])
  -- inside of a callback the worker can only return from it
  | moves _ here =>
    cases hw : s.worker <;> simp [hw, Worker.inCallback, Worker.emptyHanded] at hinside here
  | sleeps here => rcases here with hw | hw <;> simp [hw, Worker.inCallback] at hinside
  | finds hw | crash hw | handles hw | endsRound hw | takes hw | calls hw | skips hw | finish hw =>
    simp [hw, Worker.inCallback] at hinside
  | _ => exact h

/-- The event that the worker calls through is still there. -/
theorem Listed.intact (h : s.Listed) {a : Act} (ht : s.step a = some t)
    (hw : s.worker ≠ .crashed) : t.worker ≠ .crashed := by
  cases step_effect ht with
  | crash hand gone =>
    obtain ⟨e, he, hk⟩ := List.mem_map.mp (h.found _ _ _ hand)
    exact absurd (congrArg Prod.fst hk) (by simpa using List.find?_eq_none.mp gone e he)
  | moves _ _ there =>
    rintro rfl
    cases there
  | start | sleeps | finds | handles | returns | endsRound | takes | calls | skips | ends
  | finish => exact nofun
  | _ => exact hw

/-- Nothing but a stop clears `_started`. -/
theorem started_step {a : Act} (ht : s.step a = some t) (ha : a.stops = false)
    (hst : s.started = true) : t.started = true := by
  cases hworker : a.ofWorker with
  | true =>
    rw [worker_started hworker ht]
    exact hst
  | false =>
    by_cases hstart : ∃ delayMs, a = .start delayMs
    · obtain ⟨delayMs, rfl⟩ := hstart
      have ht := step_act ht
      simp only [act, UxScheduler.start, hst, if_true, Option.some.injEq] at ht
      exact ht ▸ hst
    · rw [(call_worker hworker (fun delayMs he => hstart ⟨delayMs, he⟩) ht).2 ha]
      exact hst

end Waiting

end UxScheduler

namespace UxCallbacks
open Machine
open UxConnector (After)
open UxScheduler (Caller Waiter)

/-- What the worker does beside threads that open, close and destroy connectors: its handlers
close none, and nobody stops the scheduler. -/
def Act.owners : Act → Bool
  | .rmEventHandler _ c _ => c ≠ .worker
  | .sched a => !a.stops
  | _ => true

def ownerStep (s : UxCallbacks) (a : Act) : Option UxCallbacks :=
  if a.owners then s.step a else none

/-- Inside of `uxconnector_connecthandling`. -/
def Handling (s : UxCallbacks) (self : Ptr) : Prop :=
  ∃ ufd line, s.frame = .connecthandling self ufd line

/-- No callback goes on, or starts, with a connector that is destroyed, and the worker makes
no call through an event that is gone. -/
structure Quiet (s : UxCallbacks) : Prop where
  destroyed : ∀ self, (s.connectors self).phase = .gone → s.frame.connector ≠ some self
  intact : s.sched.worker ≠ .crashed

/-- A removal comes while the worker is not about to call through the event. If the worker is
inside of the connector's `uxconnector_connecthandling` as it is taken out or destroyed, the
removal waits, and nothing but the end of the round wakes it. When the connector's timeout is
then cancelled, the worker has it neither in hand nor running. -/
structure Unhurried (s : UxCallbacks) (a : Act) : Prop where
  removal : ∀ b c ufd, s.request a = some b → b.removal = some (c, ufd) → c ≠ .worker →
    ¬ s.sched.Finds ufd
  waits : ∀ self c after ufd, a = .rmEventHandler self c after → after ≠ .close →
    (s.connectors self).uxconn = some ufd → s.Handling self →
      UxScheduler.find s.sched.uxeventList ufd ≠ none
  woken : ∀ b c, s.request a = some b → s.sched.wakes b = some (.call c) →
    .call c ∈ s.sched.cond.waiters → ∀ self after,
      (s.connectors self).phase = .removing c after → after ≠ .close → ¬ s.Handling self
  timeout : ∀ self c after, a = .cancelTimeout self →
    (s.connectors self).phase = .removing c after → after ≠ .close →
      (∀ t, s.sched.worker = .fetched t → s.sched.Live t → t.userdata ≠ self) ∧
        ∀ line, s.frame ≠ .connecttimeout self line

/-- A connector that the worker is inside of has its connection, and a call that is to take
this away waits. -/
structure Guarded (s : UxCallbacks) : Prop where
  wired : s.Wired
  started : s.sched.started = true
  intact : s.sched.worker ≠ .crashed
  handling : ∀ self ufd line, s.frame = .connecthandling self ufd line →
    (s.connectors self).uxconn = some ufd ∧ ((s.connectors self).phase = .ready ∨
      ∃ c after, (s.connectors self).phase = .removing c after ∧
        (after ≠ .close → s.sched.Waiting c))
  timeout : ∀ self line, s.frame = .connecttimeout self line → (s.connectors self).uxconn ≠ none
  gone : ∀ self, (s.connectors self).phase = .gone → (s.connectors self).uxconn = none

section Guarded

variable {s m : UxCallbacks} {a : Act}

theorem Guarded.quiet (h : s.Guarded) : s.Quiet where
  destroyed self hgone hself := by
    have hnone := h.gone self hgone
    cases hframe : s.frame with
    | none | other => simp [hframe, Frame.connector] at hself
    | connecthandling other ufd line =>
      obtain rfl : other = self := by simpa [hframe, Frame.connector] using hself
      rw [(h.handling other ufd line hframe).1] at hnone
      cases hnone
    | connecttimeout other line =>
      obtain rfl : other = self := by simpa [hframe, Frame.connector] using hself
      exact h.timeout other line hframe hnone
  intact := h.intact

theorem Unhurried.careful (h : s.Unhurried a) : s.Careful a :=
  ⟨h.removal, fun self c after ha hp hne => (h.timeout self c after ha hp hne).1⟩

/-- What a step leaves of the waits for a callback to end. -/
theorem Guarded.waiting (h : s.Guarded) (hun : s.Unhurried a) (hm : s.Does a m) {self : Ptr}
    {c : Caller} {after : After} (hhandling : s.Handling self)
    (hphase : (s.connectors self).phase = .removing c after) (hafter : after ≠ .close)
    (hw : s.sched.Waiting c) : m.sched.Waiting c := by
  rcases hm.request with he | ⟨b, hb, ht⟩
  · rwa [he]
  · have hinside : s.sched.worker.inCallback = true := by
      obtain ⟨ufd, line, hframe⟩ := hhandling
      exact h.wired.fits.of_inCallback.mpr (by simp [hframe])
    apply hw.step ht hinside
    intro hwakes
    exact hun.woken b c hb hwakes hw.2 self after hphase hafter hhandling

/-- What every step of the owners and of the worker keeps. -/
theorem Guarded.sched (h : s.Guarded) (hun : s.Unhurried a) (hm : s.step a = some m)
    (ha : a.owners = true) :
    m.Wired ∧ m.sched.started = true ∧ m.sched.worker ≠ .crashed := by
  refine ⟨h.wired.step hun.careful hm, ?_⟩
  rcases (step_does hm).2.request with he | ⟨b, hb, ht⟩
  · rw [he]
    exact ⟨h.started, h.intact⟩
  · have hstops : b.stops = false := by
      cases a with
      | sched a =>
        cases hb
        simpa [Act.owners] using ha
      | create | openConn | open2 | storeId => cases hb
      | post | cancelTimeout =>
        cases hb
        rfl
      | addHandler | rmEventHandler =>
        obtain ⟨ufd, _, rfl⟩ := Option.map_eq_some_iff.mp hb
        rfl
      | callback rs =>
        simp only [request] at hb
        split at hb
        · cases hb
          rfl
        · cases hb
          rfl
        · cases hb
          rfl
        · obtain ⟨ufd, _, rfl⟩ := Option.map_eq_some_iff.mp hb
          rfl
        · cases hb
    exact ⟨UxScheduler.started_step ht hstops h.started, h.wired.sound.listed.intact ht h.intact⟩

/-- A step on one connector, outside of its callbacks or with its removal waiting. -/
theorem Guarded.of_update (h : s.Guarded) {self : Ptr} {conn : Connector}
    (hsched : m.Wired ∧ m.sched.started = true ∧ m.sched.worker ≠ .crashed)
    (hwait : ∀ other c after, s.Handling other → (s.connectors other).phase = .removing c after →
      after ≠ .close → s.sched.Waiting c → m.sched.Waiting c)
    (hframe : m.frame = s.frame) (hconn : m.connectors = Function.update s.connectors self conn)
    (hhandling : ∀ ufd line, s.frame = .connecthandling self ufd line → conn.uxconn = some ufd ∧
      (conn.phase = .ready ∨ ∃ c after, conn.phase = .removing c after ∧
        (after ≠ .close → m.sched.Waiting c)))
    (htimeout : ∀ line, s.frame = .connecttimeout self line → conn.uxconn ≠ none)
    (hgone : conn.phase = .gone → conn.uxconn = none) : m.Guarded := by
  refine ⟨hsched.1, hsched.2.1, hsched.2.2, ?_, ?_, ?_⟩
  · intro other ufd line hf
    rw [hframe] at hf
    rw [hconn]
    by_cases he : other = self
    · subst he
      rw [Function.update_self]
      exact hhandling ufd line hf
    · rw [Function.update_of_ne he]
      obtain ⟨huxconn, hphase⟩ := h.handling other ufd line hf
      refine ⟨huxconn, hphase.imp_right ?_⟩
      intro hwaits
      obtain ⟨c, after, hremoving, hw⟩ := hwaits
      exact ⟨c, after, hremoving,
        fun hne => hwait other c after ⟨ufd, line, hf⟩ hremoving hne (hw hne)⟩
  · intro other line hf
    rw [hframe] at hf
    rw [hconn]
    by_cases he : other = self
    · subst he
      rw [Function.update_self]
      exact htimeout line hf
    · rw [Function.update_of_ne he]
      exact h.timeout other line hf
  · intro other hphase
    rw [hconn] at hphase ⊢
    by_cases he : other = self
    · subst he
      rw [Function.update_self] at hphase ⊢
      exact hgone hphase
    · rw [Function.update_of_ne he] at hphase ⊢
      exact h.gone other hphase

/-- A step of the worker, into a callback or on in one. -/
theorem Guarded.of_frame (h : s.Guarded)
    (hsched : m.Wired ∧ m.sched.started = true ∧ m.sched.worker ≠ .crashed)
    (hwait : ∀ other c after, s.Handling other → (s.connectors other).phase = .removing c after →
      after ≠ .close → s.sched.Waiting c → m.sched.Waiting c)
    (hconn : m.connectors = s.connectors)
    (hhandling : ∀ self ufd line, m.frame = .connecthandling self ufd line →
      (∃ line', s.frame = .connecthandling self ufd line') ∨ s.sched.Watched self ufd)
    (htimeout : ∀ self line, m.frame = .connecttimeout self line →
      (∃ line', s.frame = .connecttimeout self line') ∨
        ∃ t, s.sched.Live t ∧ t.userdata = self) : m.Guarded := by
  refine ⟨hsched.1, hsched.2.1, hsched.2.2, ?_, ?_, ?_⟩
  · intro self ufd line hf
    rw [hconn]
    rcases hhandling self ufd line hf with ⟨line', hf'⟩ | hw
    · obtain ⟨huxconn, hphase⟩ := h.handling self ufd line' hf'
      refine ⟨huxconn, hphase.imp_right ?_⟩
      intro hwaits
      obtain ⟨c, after, hremoving, hw⟩ := hwaits
      exact ⟨c, after, hremoving,
        fun hne => hwait self c after ⟨ufd, line', hf'⟩ hremoving hne (hw hne)⟩
    · obtain ⟨huxconn, hphase⟩ := h.wired.watched self ufd hw
      exact ⟨huxconn, Or.inl hphase⟩
  · intro self line hf
    rw [hconn]
    rcases htimeout self line hf with ⟨line', hf'⟩ | ⟨t, ht, hself⟩
    · exact h.timeout self line' hf'
    · exact (h.wired.times h.started ht hself).1
  · rw [hconn]
    exact h.gone

/-- A connector that is not ready, or has no connection, is in no callback. -/
theorem Guarded.not_handling (h : s.Guarded) {self : Ptr} {ufd : Int} {line : Line}
    (hphase : (s.connectors self).phase ≠ .ready ∧
      ∀ c after, (s.connectors self).phase ≠ .removing c after) :
    s.frame ≠ .connecthandling self ufd line := by
  intro hf
  rcases (h.handling self ufd line hf).2 with hready | ⟨c, after, hremoving, _⟩
  · exact hphase.1 hready
  · exact hphase.2 c after hremoving

theorem Guarded.not_inside (h : s.Guarded) {self : Ptr}
    (hnone : (s.connectors self).uxconn = none) :
    (∀ ufd line, s.frame ≠ .connecthandling self ufd line) ∧
      ∀ line, s.frame ≠ .connecttimeout self line := by
  refine ⟨fun ufd line hf => ?_, fun line hf => h.timeout self line hf hnone⟩
  rw [(h.handling self ufd line hf).1] at hnone
  cases hnone

/-- A step on a connector that has no connection. -/
theorem Guarded.of_detached (h : s.Guarded) {self : Ptr} {conn : Connector}
    (hnone : (s.connectors self).uxconn = none)
    (hsched : m.Wired ∧ m.sched.started = true ∧ m.sched.worker ≠ .crashed)
    (hm : m.sched = s.sched) (hframe : m.frame = s.frame)
    (hconn : m.connectors = Function.update s.connectors self conn)
    (hgone : conn.phase = .gone → conn.uxconn = none) : m.Guarded := by
  obtain ⟨hhandling, htimeout⟩ := h.not_inside hnone
  exact h.of_update hsched (fun _ _ _ _ _ _ hw => hm ▸ hw) hframe hconn
    (fun ufd line hf => absurd hf (hhandling ufd line)) (fun line hf => absurd hf (htimeout line))
    hgone

theorem Guarded.step (h : s.Guarded) (hun : s.Unhurried a) (hm : ownerStep s a = some m) :
    m.Guarded := by
  unfold ownerStep at hm
  split at hm
  case isFalse => cases hm
  rename_i howners
  have hsched := h.sched hun hm howners
  have hdoes := (step_does hm).2
  have hwait : ∀ other c after, s.Handling other →
      (s.connectors other).phase = .removing c after → after ≠ .close → s.sched.Waiting c →
        m.sched.Waiting c :=
    fun _ _ _ hh hp hne hw => h.waiting hun hdoes hh hp hne hw
  cases hdoes with
  | @create self connhandler userdata hgone =>
    exact h.of_detached (h.gone self hgone) hsched rfl rfl rfl (by simp)
  | opens _ hnone => exact h.of_detached hnone hsched rfl rfl rfl (by simp)
  | failsToOpen _ hnone => exact h.of_detached hnone hsched rfl rfl rfl (by simp)
  | open2 hready hnone => exact h.of_detached hnone hsched rfl rfl rfl (by simp [hready])
  | @detached self c after _ _ hnone =>
    apply h.of_detached hnone hsched rfl rfl rfl
    intro _
    cases after <;> simp [Connector.finish, hnone]
  | post hphase _ | storeId hphase | addHandler hphase _ _ =>
    refine h.of_update hsched hwait rfl rfl (fun ufd line hf => ?_)
      (fun line hf => h.timeout _ line hf) (by simp)
    exact absurd hf (h.not_handling (by simp [hphase]))
  | @removes self c after ufd t _ hphase huxconn ht =>
    refine h.of_update hsched hwait (setClosing_frame ..) (setClosing_connectors ..)
      (fun ufd' line hf => ?_) (fun line hf => h.timeout self line hf) (by simp)
    obtain ⟨hsame, _⟩ := h.handling self ufd' line hf
    refine ⟨hsame, Or.inr ⟨c, after, rfl, fun hne => ?_⟩⟩
    have hfind := hun.waits self c after ufd rfl hne huxconn ⟨ufd', line, hf⟩
    have hc : c ≠ .worker := by simpa [Act.owners] using howners
    rw [setClosing_sched]
    obtain ⟨_, _, ⟨hnone, _⟩ | ⟨uxe, _, ⟨_, _, rfl⟩ | ⟨hnow, _⟩⟩⟩ :=
      UxScheduler.rm_cases (UxScheduler.step_act ht)
    · exact absurd hnone hfind
    · exact ⟨Function.update_self .., by simp [setConnector]⟩
    · exact absurd ⟨h.started, hc⟩ hnow
  | @cancels self c after t hphase hreturned _ ht =>
    refine h.of_update hsched hwait (setClosing_frame ..) (setClosing_connectors ..)
      (fun ufd line hf => ?_) (fun line hf => ?_) (fun hgone => ?_)
    · obtain ⟨hsame, hbusy⟩ := h.handling self ufd line hf
      by_cases hclose : after = .close
      · subst hclose
        exact ⟨hsame, Or.inl rfl⟩
      · -- the removal has returned, so the worker is not inside of the handler any more
        rcases hbusy with hready | ⟨c', after', hremoving, hw⟩
        · rw [hphase] at hready
          cases hready
        · rw [hphase] at hremoving
          cases hremoving
          have hnot := (hw hclose).1
          rw [hreturned] at hnot
          cases hnot
    · by_cases hclose : after = .close
      · subst hclose
        exact h.timeout self line hf
      · exact absurd hf ((hun.timeout self c after rfl hphase hclose).2 line)
    · cases after <;> simp [Connector.finish] at hgone ⊢
  | handlingCancel hframe _ _ | handlingRm hframe _ =>
    refine h.of_frame hsched hwait rfl (fun self ufd line hf => ?_) (fun self line hf => ?_)
    · cases hf
      exact Or.inl ⟨_, hframe⟩
    · cases hf
  | handlingCall hframe =>
    refine h.of_frame hsched hwait rfl (fun self ufd line hf => ?_) (fun self line hf => ?_)
    · cases hf
      exact Or.inl ⟨_, hframe⟩
    · cases hf
  | aborts hframe _ _ =>
    exact h.of_frame hsched hwait rfl (fun self ufd line hf => Or.inl ⟨line, hf⟩)
      (fun self line hf => Or.inl ⟨line, hf⟩)
  | timeoutDetached hframe _ | timeoutRm hframe _ _ | timeoutCancel hframe _ | timeoutCall hframe =>
    refine h.of_frame hsched hwait rfl (fun self ufd line hf => ?_) (fun self line hf => ?_)
    · cases hf
    · cases hf
      exact Or.inl ⟨_, hframe⟩
  | @sched b t hforeign hreturns ht =>
    have hgoes := h.wired.goes hforeign (fun hr => (hreturns hr).1) ht
    refine h.of_frame hsched hwait rfl (fun self ufd line hf => ?_) (fun self line hf => ?_)
    · have hf : s.frameAfter t b = .connecthandling self ufd line := hf
      rw [hf] at hgoes
      generalize hnew : Frame.connecthandling self ufd line = f at hgoes
      cases hgoes with
      | stays => exact Or.inl ⟨line, hnew.symm⟩
      | handling _ _ _ hw =>
        cases hnew
        exact Or.inr hw
      | leaves | other | timeout => cases hnew
    · have hf : s.frameAfter t b = .connecttimeout self line := hf
      rw [hf] at hgoes
      generalize hnew : Frame.connecttimeout self line = f at hgoes
      cases hgoes with
      | stays => exact Or.inl ⟨line, hnew.symm⟩
      | timeout _ _ _ _ hlive =>
        cases hnew
        exact Or.inr ⟨_, hlive, rfl⟩
      | leaves | other | handling => cases hnew

theorem guarded_running (delayMs : DelayMs) : (running (UxScheduler.running delayMs)).Guarded where
  wired := wired_running delayMs
  started := rfl
  intact := nofun
  handling _ _ _ hf := nomatch hf
  timeout _ _ hf := nomatch hf
  gone _ _ := rfl

/-- Between two rounds no removal is too early. -/
theorem unhurried_of_loop (hframe : s.frame = .none) (hloop : s.sched.worker = .loop) :
    s.Unhurried a := by
  have hnot : ∀ self, ¬ s.Handling self := by
    intro self hinside
    obtain ⟨ufd, line, hf⟩ := hinside
    rw [hframe] at hf
    cases hf
  refine ⟨?_, fun self _ _ _ _ _ _ hh => absurd hh (hnot self),
    fun _ _ _ _ _ self _ _ _ => hnot self,
    fun self _ _ _ _ _ => ⟨fun t hw => ?_, fun line => by simp [hframe]⟩⟩
  · intro b c ufd _ _ _ hfound
    obtain ⟨addr, ready, todo, hw, _⟩ := hfound
    rw [hloop] at hw
    cases hw
  · rw [hloop] at hw
    cases hw

theorem unhurried_sched {b : UxScheduler.Act} (hremoval : b.removal = none)
    (hwakes : s.sched.wakes b = none) : s.Unhurried (.sched b) where
  removal _ c ufd hb hremoves := by
    cases hb
    rw [hremoval] at hremoves
    cases hremoves
  waits _ _ _ _ ha := nomatch ha
  woken _ c hb hwoken := by
    cases hb
    rw [hwakes] at hwoken
    cases hwoken
  timeout _ _ _ ha := nomatch ha

/-- In its callbacks the worker removes for itself and wakes nobody. -/
theorem unhurried_callback (rs : Status) : s.Unhurried (.callback rs) := by
  have hrequest : ∀ b, s.request (.callback rs) = some b →
      (∀ c ufd, b.removal = some (c, ufd) → c = .worker) ∧ s.sched.wakes b = none := by
    intro b hb
    simp only [request] at hb
    split at hb
    · cases hb
      exact ⟨fun c ufd h => absurd h (by simp [UxScheduler.Act.removal]), rfl⟩
    · cases hb
      exact ⟨fun c ufd h => absurd h (by simp [UxScheduler.Act.removal]), rfl⟩
    · cases hb
      exact ⟨fun c ufd h => by cases h; rfl, rfl⟩
    · obtain ⟨ufd, _, rfl⟩ := Option.map_eq_some_iff.mp hb
      exact ⟨fun c ufd h => by cases h; rfl, rfl⟩
    · cases hb
  refine ⟨fun b c ufd hb hremoves hc => ?_, fun c self' after ufd ha => ?_,
    fun b c hb hwoken => ?_, fun c _ _ ha => ?_⟩
  · exact absurd ((hrequest b hb).1 c ufd hremoves) hc
  · cases ha
  · rw [(hrequest b hb).2] at hwoken
    cases hwoken
  · cases ha

/-- A removal that finds its event while the worker is inside of a callback waits. -/
theorem unhurried_of_find {self : Ptr} {c : Caller} {after : After} {ufd : Int}
    (hconn : (s.connectors self).uxconn = some ufd)
    (hfind : UxScheduler.find s.sched.uxeventList ufd ≠ none)
    (hinside : s.sched.worker.inCallback = true) : s.Unhurried (.rmEventHandler self c after) where
  removal _ _ _ _ _ _ := by
    rintro ⟨addr, ready, todo, hw, _⟩
    simp [hw, UxScheduler.Worker.inCallback] at hinside
  waits _ _ _ ufd' ha _ hufd _ := by
    cases ha
    rw [hconn] at hufd
    cases hufd
    exact hfind
  woken _ c' hb hwoken := by
    simp only [request, hconn, Option.map_some, Option.some.injEq] at hb
    subst hb
    cases hwoken
  timeout _ _ _ ha := nomatch ha

end Guarded

/-- Once `awe_uxconnector_destroy` has returned no callback starts or goes on with the
connector, in a run whose removals come, wait and cancel in time. -/
theorem quiet_after_destroy (delayMs : DelayMs) (as : List Act)
    (h : Throughout ownerStep Unhurried (running (UxScheduler.running delayMs)) as) :
    Always ownerStep Quiet (running (UxScheduler.running delayMs)) as :=
  always_of_throughout
    (fun _ _ _ hs _ hp hm => ⟨hs.step hp hm, (hs.step hp hm).quiet⟩)
    (guarded_running delayMs) (guarded_running delayMs).quiet h

def opened : List Act :=
  [.create 10 7 8, .openConn 10 5 true, .post 10 (timeMs 0) (DelayMs.ofInt32 1000) 100 none,
    .storeId 10, .addHandler 10 (.thread 0) 500 none]

/-- A thread destroys it while the worker is inside of `uxconnector_connecthandling`; the
end of that round wakes the removal. -/
def destroyedInside : List Act :=
  opened ++ [.sched .testExit, .sched .guard, .sched .testStarted, .sched (.prepare (timeMs 0)),
    .sched (.select 1 [] [5]), .sched .dispatch, .sched .handle,
    .rmEventHandler 10 (.thread 0) .destroy, .callback AWE_OK, .callback AWE_OK, .callback AWE_OK,
    .sched .handlerReturn, .sched .dispatch, .sched (.endRound (timeMs 1000)),
    .sched (.rmReturn (.thread 0)), .cancelTimeout 10]

theorem destroyed_in_time :
    Always ownerStep Quiet (running (UxScheduler.running (DelayMs.ofInt32 1000)))
      destroyedInside ∧
    ∃ s, run ownerStep (running (UxScheduler.running (DelayMs.ofInt32 1000))) destroyedInside =
      some s ∧ (s.connectors 10).phase = .gone ∧
        s.log = [.opened 10 0, .completed 10 ⟨7, 8, AWE_OK, 5⟩] := by
  refine ⟨?_, _, rfl, rfl, rfl⟩
  apply quiet_after_destroy _ _
  repeat' first
    | exact trivial
    | refine .cons rfl (unhurried_of_loop rfl rfl) ?_
    | refine .cons rfl (unhurried_sched rfl rfl) ?_
    | refine .cons rfl (unhurried_callback _) ?_
    | refine .cons rfl (unhurried_of_find rfl (by decide) rfl) ?_

/-- The round that ends with the timeout due takes it off the list before it wakes the
removal, whose cancel then does not find it. -/
theorem timeout_after_destroy : ∃ s, run ownerStep
    (running (UxScheduler.running (DelayMs.ofInt32 1000)))
    (opened ++ [.sched .testExit, .sched .guard, .sched .testStarted, .sched (.prepare (timeMs 0)),
      .rmEventHandler 10 (.thread 0) .destroy, .sched (.select 0 [] []),
      .sched (.endRound (timeMs 2000000)), .sched (.rmReturn (.thread 0)), .cancelTimeout 10,
      .sched .testTask]) = some s ∧
    (s.connectors 10).phase = .gone ∧ s.frame = .connecttimeout 10 .rm ∧ ¬ s.Quiet :=
  ⟨_, rfl, rfl, rfl, fun h => h.destroyed 10 rfl rfl⟩

end UxCallbacks

end Awe
