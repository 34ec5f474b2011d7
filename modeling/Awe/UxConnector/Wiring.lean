import Awe.UxConnector.Steps

namespace Awe

namespace UxScheduler

variable {s t : UxScheduler}

/-- The scheduler's books balance and its events are in order. -/
structure Sound (s : UxScheduler) : Prop where
  owned : s.OneWorker
  accounted : s.ledger.Accounted
  listed : s.Listed

theorem Sound.step (h : s.Sound) {a : Act} (ht : s.step a = some t) (ha : a ≠ .clear)
    (hapart : ∀ c ufd, a.removal = some (c, ufd) → c ≠ .worker → ¬ s.Finds ufd) : t.Sound := by
  obtain ⟨howned, haccounted, _⟩ := UxClients.sched_keeps h.owned h.accounted ht
  exact ⟨howned, haccounted, h.listed.step ht ha hapart⟩

end UxScheduler

namespace UxCallbacks
open UxConnector (connecthandlingProc connecttimeoutProc timeoutPost After)
open UxScheduler (Caller Waiter Worker)

/-- `id` is that of a timeout which the connector has set up and not given up. -/
def Connector.Times (conn : Connector) (id : Ptr) : Prop :=
  conn.uxconn ≠ none ∧ (conn.phase = .storeId id ∨ conn.timeouttaskId = id ∧
    (conn.phase = .addHandler ∨ conn.phase = .ready ∨ ∃ c after, conn.phase = .removing c after))

/-- The worker is inside of the procedure that the frame says. -/
def Frame.Fits (w : Worker) : Frame → Prop
  | .none => w.inCallback = false
  | .other => w.inCallback = true
  | .connecthandling _ ufd _ => ∃ ready todo, w = .handling ready todo ∧ ready.ufd = ufd
  | .connecttimeout self _ =>
    ∃ t, w = .running t ∧ t.proc = connecttimeoutProc ∧ t.userdata = self

/-- The handlers and timeouts at the scheduler are those that the connectors know of. After
a stop the timeouts need not be. -/
structure Wired (s : UxCallbacks) : Prop where
  sound : s.sched.Sound
  fits : s.frame.Fits s.sched.worker
  watched : ∀ self ufd, s.sched.Watched self ufd →
    (s.connectors self).uxconn = some ufd ∧ (s.connectors self).phase = .ready
  timed : s.sched.started = true → ∀ t, s.sched.Live t → (s.connectors t.userdata).Times t.id
  opening : ∀ self, (s.connectors self).phase = .setTimeout → (s.connectors self).uxconn ≠ none

/-- Removals by other threads come while the worker is not about to call through the event,
and a takeout or a destroy gives up the timeout while the worker does not have it in hand. -/
structure Careful (s : UxCallbacks) (a : Act) : Prop where
  removal : ∀ b c ufd, s.request a = some b → b.removal = some (c, ufd) → c ≠ .worker →
    ¬ s.sched.Finds ufd
  timeout : ∀ self c after, a = .cancelTimeout self →
    (s.connectors self).phase = .removing c after → after ≠ .close → ∀ t,
      s.sched.worker = .fetched t → s.sched.Live t → t.userdata ≠ self

section Wired

variable {s m : UxCallbacks}

theorem Frame.Fits.of_inCallback {f : Frame} {w : Worker} (h : f.Fits w) :
    w.inCallback = true ↔ f ≠ .none := by
  cases f with
  | none => simpa [Fits] using h
  | other => simpa [Fits] using h
  | connecthandling self ufd line =>
    obtain ⟨ready, todo, rfl, _⟩ := h
    simp [Worker.inCallback]
  | connecttimeout self line =>
    obtain ⟨t, rfl, _⟩ := h
    simp [Worker.inCallback]

/-- Inside of a callback the timeouts still to run are on the list. -/
theorem live_mem {t : TimerTask} (h : s.Wired) (hframe : s.frame ≠ .none) (ht : s.sched.Live t) :
    t ∈ s.sched.taskList := by
  rcases ht.2.2 with ht | hw
  · exact ht
  · have hin := h.fits.of_inCallback.mpr hframe
    simp [hw, Worker.inCallback] at hin

/-- A step that leaves the connectors alone, and adds no handler and no timeout of theirs. -/
theorem Wired.of_fewer (h : s.Wired) (hsound : m.sched.Sound) (hfits : m.frame.Fits m.sched.worker)
    (hconn : m.connectors = s.connectors) (hfewer : s.sched.Fewer m.sched) : m.Wired where
  sound := hsound
  fits := hfits
  watched self ufd hw := by
    rw [hconn]
    exact h.watched self ufd (hfewer.watched self ufd hw)
  timed hst t ht := by
    rw [hconn]
    exact h.timed (hfewer.started hst) t (hfewer.live t ht)
  opening := by
    rw [hconn]
    exact h.opening

/-- A step on one connector. -/
theorem Wired.of_update (h : s.Wired) {self : Ptr} {conn : Connector} (hsound : m.sched.Sound)
    (hfits : m.frame.Fits m.sched.worker)
    (hconn : m.connectors = Function.update s.connectors self conn)
    (hwatched : ∀ other ufd, m.sched.Watched other ufd → other ≠ self →
      s.sched.Watched other ufd)
    (hlive : ∀ t, m.sched.Live t → t.userdata ≠ self → s.sched.Live t)
    (hstarted : m.sched.started = true → s.sched.started = true)
    (hself : ∀ ufd, m.sched.Watched self ufd → conn.uxconn = some ufd ∧ conn.phase = .ready)
    (htimes : m.sched.started = true → ∀ t, m.sched.Live t → t.userdata = self → conn.Times t.id)
    (hopening : conn.phase = .setTimeout → conn.uxconn ≠ none) : m.Wired where
  sound := hsound
  fits := hfits
  watched other ufd hw := by
    rw [hconn]
    by_cases he : other = self
    · subst he
      rw [Function.update_self]
      exact hself ufd hw
    · rw [Function.update_of_ne he]
      exact h.watched other ufd (hwatched other ufd hw he)
  timed hst t ht := by
    rw [hconn]
    by_cases he : t.userdata = self
    · rw [he, Function.update_self]
      exact htimes hst t ht he
    · rw [Function.update_of_ne he]
      exact h.timed (hstarted hst) t (hlive t ht he)
  opening other hphase := by
    rw [hconn] at hphase ⊢
    by_cases he : other = self
    · subst he
      rw [Function.update_self] at hphase ⊢
      exact hopening hphase
    · rw [Function.update_of_ne he] at hphase ⊢
      exact h.opening other hphase

/-- A connector that no handler and no timeout is for may become any other. -/
theorem Wired.setConnector (h : s.Wired) {self : Ptr} {conn : Connector}
    (hself : ∀ ufd, s.sched.Watched self ufd → conn.uxconn = some ufd ∧ conn.phase = .ready)
    (htimes : s.sched.started = true → ∀ t, s.sched.Live t → t.userdata = self →
      conn.Times t.id)
    (hopening : conn.phase = .setTimeout → conn.uxconn ≠ none) :
    (s.setConnector self conn).Wired :=
  h.of_update h.sound h.fits rfl (fun _ _ hw _ => hw) (fun _ ht _ => ht) id hself htimes hopening

theorem wired_setClosing {c : Caller} {closing : Option Ptr} :
    (s.setClosing c closing).Wired ↔ s.Wired := by
  unfold UxCallbacks.setClosing
  split
  · exact ⟨fun h => ⟨h.sound, h.fits, h.watched, h.timed, h.opening⟩,
      fun h => ⟨h.sound, h.fits, h.watched, h.timed, h.opening⟩⟩
  · exact Iff.rfl

theorem Wired.not_watched (h : s.Wired) {self : Ptr}
    (hconn : (s.connectors self).uxconn = none ∨ (s.connectors self).phase ≠ .ready) (ufd : Int) :
    ¬ s.sched.Watched self ufd := by
  intro hw
  obtain ⟨huxconn, hphase⟩ := h.watched self ufd hw
  rcases hconn with hnone | hne
  · rw [hnone] at huxconn
    cases huxconn
  · exact hne hphase

theorem Wired.times (h : s.Wired) (hst : s.sched.started = true) {t : TimerTask} {self : Ptr}
    (ht : s.sched.Live t) (hself : t.userdata = self) : (s.connectors self).Times t.id :=
  hself ▸ h.timed hst t ht

/-- A connector without connection has no handler and no timeout that could miss it. -/
theorem Wired.setDetached (h : s.Wired) {self : Ptr} {conn : Connector}
    (hnone : (s.connectors self).uxconn = none)
    (hopening : conn.phase = .setTimeout → conn.uxconn ≠ none) :
    (s.setConnector self conn).Wired := by
  refine h.setConnector (fun ufd hw => ?_) (fun hst t ht he => ?_) hopening
  · exact absurd hw (h.not_watched (Or.inl hnone) ufd)
  · exact absurd hnone (h.times hst ht he).1

theorem Wired.outside (h : s.Wired) (hw : s.sched.worker.inCallback = false) : s.frame = .none := by
  by_contra hne
  rw [h.fits.of_inCallback.mpr hne] at hw
  cases hw

/-- Where the worker goes with respect to the callbacks, and what that leaves of the
handlers and timeouts. -/
inductive Goes (s : UxCallbacks) (t : UxScheduler) : Frame → Prop where
  | stays (inside : s.frame ≠ .none → t.worker = s.sched.worker)
      (outside : s.frame = .none → t.worker.inCallback = false) (apart : s.sched.Apart t) :
      Goes s t s.frame
  | leaves (user : s.frame = .none ∨ s.frame.user = true) (left : t.worker.inCallback = false)
      (apart : s.sched.Apart t) : Goes s t .none
  | other (outside : s.frame = .none) (inside : t.worker.inCallback = true)
      (apart : s.sched.Apart t) : Goes s t .other
  | handling {self : Ptr} {ready : UxScheduler.Ready} {todo : List UxScheduler.Ready}
      (outside : s.frame = .none) (inside : t.worker = .handling ready todo)
      (apart : s.sched.Apart t) (watched : s.sched.Watched self ready.ufd) :
      Goes s t (.connecthandling self ready.ufd .cancel)
  | timeout {task : TimerTask} (outside : s.frame = .none)
      (fetched : s.sched.worker = .fetched task) (inside : t.worker = .running task)
      (fewer : s.sched.Fewer t) (live : s.sched.Live task)
      (rest : ∀ u, s.sched.Live u → u ≠ task → t.Live u) (gone : ¬ t.Live task) :
      Goes s t (.connecttimeout task.userdata .rm)

theorem Goes.fewer {t : UxScheduler} {f : Frame} (h : s.Goes t f) : s.sched.Fewer t := by
  cases h with
  | timeout _ _ _ hfewer => exact hfewer
  | stays _ _ hapart | leaves _ _ hapart | other _ _ hapart | handling _ _ hapart =>
    exact hapart.toFewer

theorem Goes.fits {t : UxScheduler} {f : Frame} (hgoes : s.Goes t f) (h : s.Wired) :
    f.Fits t.worker := by
  cases hgoes with
  | stays hinside houtside =>
    by_cases hnone : s.frame = .none
    · rw [hnone]
      exact houtside hnone
    · rw [hinside hnone]
      exact h.fits
  | leaves _ hleft => exact hleft
  | other _ hinside => exact hinside
  | handling _ hinside => exact ⟨_, _, hinside, rfl⟩
  | timeout _ _ hinside _ hlive => exact ⟨_, hinside, hlive.2.1, rfl⟩

theorem Wired.goes_testTask (h : s.Wired) {t : UxScheduler} (ht : s.sched.testTask = some t) :
    s.Goes t (s.frameAfter t .testTask) := by
  simp only [frameAfter]
  obtain ⟨task, hw, ⟨hvalid, hrun, htasks, hevents, hst⟩ | ⟨hloop, hapart⟩⟩ :=
    UxScheduler.testTask_cases ht
  · have hnone : s.frame = .none := h.outside (by simp [hw, Worker.inCallback])
    have hlive := UxScheduler.live_testTask h.sound.accounted hw hrun htasks
    have hfewer : s.sched.Fewer t := by
      refine ⟨fun self ufd hwatched => ?_, fun u hu => ((hlive u).mp hu).1, fun hs => hst ▸ hs⟩
      unfold UxScheduler.Watched at hwatched ⊢
      rwa [hevents] at hwatched
    simp only [hrun]
    split
    · rename_i hproc
      exact .timeout hnone hw hrun hfewer ⟨hvalid, hproc, Or.inr hw⟩
        (fun u hu hne => (hlive u).mpr ⟨hu, hne⟩) (fun hu => ((hlive task).mp hu).2 rfl)
    · rename_i hproc
      refine .other hnone (by simp [hrun, Worker.inCallback])
        ⟨hfewer, fun u hu => (hlive u).mpr ⟨hu, ?_⟩⟩
      intro heq
      subst heq
      exact hproc hu.2.1
  · have hnone : s.frame = .none := h.outside (by simp [hw, Worker.inCallback])
    simp only [hloop]
    exact .leaves (Or.inl hnone) (by simp [hloop, Worker.inCallback]) hapart

/-- The call goes to a connector through the event that it registered. -/
theorem Wired.goes_handle (h : s.Wired) {t : UxScheduler} (hapart : s.sched.Apart t)
    (ht : s.sched.handle = some t) : s.Goes t (s.frameAfter t .handle) := by
  unfold UxScheduler.handle at ht
  split at ht
  · rename_i addr ready todo hw
    have hnone : s.frame = .none := h.outside (by simp [hw, Worker.inCallback])
    split at ht
    · rename_i hlost
      cases ht
      simp only [frameAfter, hw, hlost]
      exact .leaves (Or.inl hnone) rfl hapart
    · rename_i uxe hfind
      split at ht
      · cases ht
      · cases ht
        simp only [frameAfter, hw, hfind]
        split
        · rename_i hproc
          have hmem := List.mem_of_find?_eq_some hfind
          have haddr : uxe.addr = addr := by simpa using List.find?_some hfind
          have hk : (uxe.addr, uxe.ufd) ∈ UxRegistry.keys s.sched.uxeventList :=
            List.mem_map_of_mem hmem
          have hsame := List.inj_on_of_nodup_map h.sound.listed.addrs hk
            (h.sound.listed.found addr ready todo hw) haddr
          exact .handling hnone rfl hapart ⟨uxe, hmem, hproc, rfl, congrArg Prod.snd hsame⟩
        · exact .other hnone rfl hapart
  · cases ht

theorem Wired.goes (h : s.Wired) {a : UxScheduler.Act} {t : UxScheduler} (ha : a.foreign = true)
    (hreturns : a.returns = true → s.frame.user = true) (ht : s.sched.step a = some t) :
    s.Goes t (s.frameAfter t a) := by
  by_cases htest : a = .testTask
  · subst htest
    exact h.goes_testTask (UxScheduler.step_act ht)
  have hapart := UxScheduler.foreign_apart ha htest ht
  by_cases hhandle : a = .handle
  · subst hhandle
    exact h.goes_handle hapart (UxScheduler.step_act ht)
  by_cases hret : a.returns = true
  · have hleft : t.worker.inCallback = false := by
      have hact := UxScheduler.step_act ht
      cases a with
      | handlerReturn | procReturn =>
        simp only [UxScheduler.act, UxScheduler.handlerReturn, UxScheduler.procReturn] at hact
        repeat' first | split at hact | cases hact
        all_goals rfl
      | _ => cases hret
    have hframe : s.frameAfter t a = .none := by
      cases a with
      | handlerReturn | procReturn => rfl
      | _ => cases hret
    rw [hframe]
    exact .leaves (Or.inr (hreturns hret)) hleft hapart
  · have hworker := UxScheduler.foreign_worker ha (by simpa using hret) hhandle htest ht
    have hframe : s.frameAfter t a = s.frame := by
      cases a with
      | handle => exact absurd rfl hhandle
      | testTask => exact absurd rfl htest
      | handlerReturn | procReturn => exact absurd rfl hret
      | _ => rfl
    rw [hframe]
    refine .stays (fun hne => hworker.resolve_right (fun hout => ?_)) (fun hnone => ?_) hapart
    · exact hne (h.outside hout.1)
    · rcases hworker with he | ⟨_, hout⟩
      · rw [he]
        have hfits := h.fits
        rwa [hnone] at hfits
      · exact hout

theorem Wired.sound_step (h : s.Wired) {a : Act} (hcareful : s.Careful a) {b : UxScheduler.Act}
    {t : UxScheduler} (hb : s.request a = some b) (ht : s.sched.step b = some t)
    (hclear : b ≠ .clear) : t.Sound :=
  h.sound.step ht hclear (fun c ufd hr hc => hcareful.removal b c ufd hb hr hc)

/-- The timeouts that a connector has yet to run once its rm and its cancel are made. -/
theorem Wired.given_up (h : s.Wired) {self : Ptr} {c : Caller} {after : After}
    (hphase : (s.connectors self).phase = .removing c after)
    (hcareful : s.Careful (.cancelTimeout self)) (hst : s.sched.started = true) {t : TimerTask}
    (ht : (s.sched.cancel (s.connectors self).timeouttaskId).2.Live t)
    (hself : t.userdata = self) : ((s.connectors self).finish after).Times t.id := by
  obtain ⟨hlive, hnot⟩ := (UxScheduler.live_cancel h.sound.accounted _ t).mp ht
  obtain ⟨huxconn, htimes⟩ := h.times hst hlive hself
  have hid : (s.connectors self).timeouttaskId = t.id := by
    rcases htimes with hp | ⟨hid, _⟩
    · rw [hphase] at hp
      cases hp
    · exact hid
  have hfetched : s.sched.worker = .fetched t :=
    hlive.2.2.resolve_left (fun hmem => hnot ⟨hst, hmem, hid.symm⟩)
  cases after with
  | close => exact ⟨huxconn, Or.inr ⟨hid, Or.inr (Or.inl rfl)⟩⟩
  | takeout | destroy =>
    exact absurd hself (hcareful.timeout self c _ rfl hphase (by simp) t hfetched hlive)

/-- A cancel or an rm of a connector's callback. -/
theorem Wired.callback_step (h : s.Wired) {a : Act} (hcareful : s.Careful a)
    {b : UxScheduler.Act} {t : UxScheduler} (hb : s.request a = some b)
    (hkind : (∃ id, b = .cancel id) ∨ ∃ ufd, b = .rm .worker ufd) (ht : s.sched.step b = some t)
    (hf : m.frame.Fits s.sched.worker) (hm : m.sched = t) (hconn : m.connectors = s.connectors) :
    m.Wired := by
  subst hm
  have hact := UxScheduler.step_act ht
  rcases hkind with ⟨id, rfl⟩ | ⟨ufd, rfl⟩
  · have hsound := h.sound_step hcareful hb ht (by simp)
    obtain he : (s.sched.cancel id).2 = m.sched := by simpa [UxScheduler.act] using hact
    have hfewer := UxScheduler.fewer_cancel h.sound.accounted id
    have hworker := UxScheduler.cancel_worker s.sched id
    rw [he] at hfewer hworker
    exact h.of_fewer hsound (hworker ▸ hf) hconn hfewer
  · have hsound := h.sound_step hcareful hb ht (by simp)
    have hworker := (UxScheduler.rm_worker hact).1
    exact h.of_fewer hsound (hworker ▸ hf) hconn (UxScheduler.rm_apart hact).toFewer

theorem Wired.sched_step (h : s.Wired) {a : UxScheduler.Act} {t : UxScheduler}
    (hcareful : s.Careful (.sched a)) (ha : a.foreign = true)
    (hreturns : a.returns = true → s.frame.user = true) (ht : s.sched.step a = some t) :
    ({ s with sched := t, frame := s.frameAfter t a } : UxCallbacks).Wired := by
  have hsound : t.Sound := h.sound_step hcareful rfl ht (by rintro rfl; cases ha)
  have hgoes := h.goes ha hreturns ht
  exact h.of_fewer hsound (hgoes.fits h) rfl hgoes.fewer

theorem Wired.step (h : s.Wired) {a : Act} (hcareful : s.Careful a) (hm : s.step a = some m) :
    m.Wired := by
  cases (step_does hm).2 with
  | create hgone =>
    refine h.setConnector (fun ufd hw => ?_) (fun hst t ht he => ?_) (by simp)
    · exact absurd hw (h.not_watched (Or.inr (by simp [hgone])) ufd)
    · have htimes := h.times hst ht he
      simp [Connector.Times, hgone] at htimes
  | opens hready hnone =>
    refine h.of_update h.sound h.fits rfl (fun _ _ hw _ => hw) (fun _ ht _ => ht) id
      (fun ufd hw => ?_) (fun hst t ht he => ?_) (by simp)
    · exact absurd hw (h.not_watched (Or.inl hnone) ufd)
    · exact absurd hnone (h.times hst ht he).1
  | failsToOpen hready hnone =>
    exact h.setDetached hnone (by simp)
  | open2 hready hnone =>
    exact h.setDetached hnone (by simp)
  | @post self now timeout id pick t hphase ht =>
    have hsound : t.Sound := h.sound_step hcareful rfl ht (by simp)
    rcases UxScheduler.timeoutPost_effect (UxScheduler.step_act ht) with
      ⟨hst, rfl⟩ | ⟨hst, _, hworker, hwatched, task, hself, hid, hlive⟩
    · refine h.setConnector (fun ufd hw => ?_) (fun hs => ?_) (by simp)
      · exact absurd hw (h.not_watched (Or.inr (by simp [hphase])) ufd)
      · rw [hst] at hs
        cases hs
    · refine h.of_update hsound (hworker ▸ h.fits) rfl (fun other ufd hw _ => hwatched other ufd hw)
        (fun u hu hne => ?_) (fun _ => hst) (fun ufd hw => ?_) (fun _ u hu he => ?_) (by simp)
      · exact ((hlive u).mp hu).resolve_left (by rintro rfl; exact hne hself)
      · exact absurd (hwatched self ufd hw) (h.not_watched (Or.inr (by simp [hphase])) ufd)
      · rcases (hlive u).mp hu with rfl | hu
        · exact ⟨h.opening self hphase, Or.inl (by simp [hst, hid])⟩
        · have htimes := h.times hst hu he
          simp [Connector.Times, hphase] at htimes
  | @storeId self id hphase =>
    refine h.setConnector (fun ufd hw => ?_) (fun hst t ht he => ?_) (by simp)
    · exact absurd hw (h.not_watched (Or.inr (by simp [hphase])) ufd)
    · obtain ⟨hne, htimes⟩ := h.times hst ht he
      refine ⟨hne, Or.inr ⟨?_, Or.inl rfl⟩⟩
      simpa [hphase] using htimes
  | @addHandler self c addr pick ufd t hphase huxconn ht =>
    have hsound : t.Sound := h.sound_step hcareful (by simp [request, huxconn]) ht (by simp)
    obtain ⟨hwatched, htasks, hworker, hst⟩ :=
      UxScheduler.addHandler_effect (UxScheduler.step_act ht)
    have hlive : ∀ u, t.Live u → s.sched.Live u := by
      intro u hu
      unfold UxScheduler.Live at hu ⊢
      rwa [htasks, hworker] at hu
    refine h.of_update hsound (hworker ▸ h.fits) rfl (fun other ufd' hw hne => ?_)
      (fun u hu _ => hlive u hu) (fun hs => hst ▸ hs) (fun ufd' hw => ?_) (fun hs u hu he => ?_)
      (by simp)
    · exact (hwatched other ufd' hw).resolve_right (fun hboth => hne hboth.1)
    · rcases hwatched self ufd' hw with hw | ⟨_, rfl⟩
      · exact absurd hw (h.not_watched (Or.inr (by simp [hphase])) ufd')
      · exact ⟨huxconn, rfl⟩
    · obtain ⟨hne, htimes⟩ := h.times (hst ▸ hs) (hlive u hu) he
      refine ⟨hne, Or.inr ⟨?_, Or.inr (Or.inl rfl)⟩⟩
      simpa [hphase] using htimes
  | @detached self c after _ hphase hnone =>
    exact h.setDetached hnone (by cases after <;> simp [Connector.finish])
  | @removes self c after ufd t _ hphase huxconn ht =>
    have hsound : t.Sound := h.sound_step hcareful (by simp [request, huxconn]) ht (by simp)
    have hrm := UxScheduler.step_act ht
    have hapart := UxScheduler.rm_apart hrm
    obtain ⟨hworker, _⟩ := UxScheduler.rm_worker hrm
    have hm : ({ s with sched := t }.setConnector self { s.connectors self with
        phase := .removing c after } : UxCallbacks).Wired := by
      refine h.of_update hsound (hworker ▸ h.fits) rfl
        (fun other ufd' hw _ => hapart.watched other ufd' hw) (fun u hu _ => hapart.live u hu)
        hapart.started (fun ufd' hw => ?_) (fun hs u hu he => ?_) (by simp)
      · obtain ⟨hsome, _⟩ := h.watched self ufd' (hapart.watched self ufd' hw)
        rw [huxconn] at hsome
        cases hsome
        exact absurd hw (UxScheduler.rm_unwatched h.sound.listed hrm self)
      · obtain ⟨hne, htimes⟩ := h.times (hapart.started hs) (hapart.live u hu) he
        refine ⟨hne, Or.inr ⟨?_, Or.inr (Or.inr ⟨c, after, rfl⟩)⟩⟩
        rcases hphase with hphase | ⟨hphase, _⟩
        · simpa [hphase] using htimes
        · simp [hphase] at htimes
    exact wired_setClosing.mpr hm
  | @cancels self c after t hphase _ _ ht =>
    have hsound : t.Sound := h.sound_step hcareful rfl ht (by simp)
    obtain rfl : (s.sched.cancel (s.connectors self).timeouttaskId).2 = t := by
      simpa [UxScheduler.act] using UxScheduler.step_act ht
    have hfewer := UxScheduler.fewer_cancel h.sound.accounted (s.connectors self).timeouttaskId
    have hworker := UxScheduler.cancel_worker s.sched (s.connectors self).timeouttaskId
    have hm : ({ s with
        sched := (s.sched.cancel (s.connectors self).timeouttaskId).2 }.setConnector self
          ((s.connectors self).finish after) : UxCallbacks).Wired := by
      refine h.of_update hsound (hworker ▸ h.fits) rfl
        (fun other ufd' hw _ => hfewer.watched other ufd' hw) (fun u hu _ => hfewer.live u hu)
        hfewer.started (fun ufd' hw => ?_) (fun hs u hu he => ?_)
        (by cases after <;> simp [Connector.finish])
      · exact absurd (hfewer.watched self ufd' hw) (h.not_watched (Or.inr (by simp [hphase])) ufd')
      · exact h.given_up hphase hcareful (hfewer.started hs) hu he
    exact wired_setClosing.mpr hm
  | handlingCancel hframe _ ht =>
    have hf := h.fits
    rw [hframe] at hf
    exact h.callback_step hcareful (by simp [request, hframe]) (Or.inl ⟨_, rfl⟩) ht hf rfl rfl
  | aborts hframe _ ht =>
    exact h.callback_step hcareful (by simp [request, hframe]) (Or.inl ⟨_, rfl⟩) ht h.fits
      rfl rfl
  | handlingRm hframe ht =>
    have hf := h.fits
    rw [hframe] at hf
    exact h.callback_step hcareful (by simp [request, hframe]) (Or.inr ⟨_, rfl⟩) ht hf rfl rfl
  | timeoutRm hframe huxconn ht =>
    have hf := h.fits
    rw [hframe] at hf
    exact h.callback_step hcareful (by simp [request, hframe, huxconn]) (Or.inr ⟨_, rfl⟩) ht hf
      rfl rfl
  | timeoutCancel hframe ht =>
    have hf := h.fits
    rw [hframe] at hf
    exact h.callback_step hcareful (by simp [request, hframe]) (Or.inl ⟨_, rfl⟩) ht hf rfl rfl
  | handlingCall hframe | timeoutCall hframe | timeoutDetached hframe =>
    have hf := h.fits
    rw [hframe] at hf
    exact h.of_fewer h.sound hf rfl ⟨fun _ _ hw => hw, fun _ hl => hl, id⟩
  | sched hforeign hreturns ht =>
    exact h.sched_step hcareful hforeign (fun hr => (hreturns hr).1) ht

theorem wired_running (delayMs : DelayMs) : (running (UxScheduler.running delayMs)).Wired where
  sound := {
    owned := UxScheduler.oneWorker (UxScheduler.run_running delayMs)
    accounted := UxScheduler.accounted (UxScheduler.run_running delayMs)
    listed := by
      constructor <;> simp [running, UxScheduler.running, UxScheduler.create, UxRegistry.keys] }
  fits := rfl
  watched self ufd hw := by
    obtain ⟨e, he, _⟩ := hw
    cases he
  timed hst t ht := by
    rcases ht.2.2 with ht | ht <;> cases ht
  opening self hphase := by cases hphase

end Wired

end UxCallbacks

end Awe
