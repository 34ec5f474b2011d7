import Awe.UxConnector.Wiring

namespace Awe.UxCallbacks
open Machine
open UxConnector (connecthandlingProc connecttimeoutProc After)
open UxScheduler (Caller Waiter Worker)

/-- What goes on around the opens: only the handlers close connectors. -/
def Act.opens : Act → Bool
  | .rmEventHandler _ c _ => c = .worker
  | _ => true

def openStep (s : UxCallbacks) (a : Act) : Option UxCallbacks :=
  if a.opens then s.step a else none

/-- The assertion of `uxconnector_connecthandling` holds, and no open is completed twice. -/
structure OnceOnly (s : UxCallbacks) : Prop where
  alive : s.aborted = false
  once : Attempts.OnceEach s.log

/-- A connector's timeout is started only when its open has returned,
`uxconnector_connecthandling` cancels before the stop, and what a close cancels is no other
connector's timeout. -/
structure Timely (s : UxCallbacks) (a : Act) : Prop where
  timeout : a = .sched .testTask → ∀ t, s.sched.worker = .fetched t → s.sched.Live t →
    (s.connectors t.userdata).phase = .ready
  handling : ∀ rs self ufd, a = .callback rs → s.frame = .connecthandling self ufd .cancel →
    s.sched.started = true
  own : ∀ self, a = .cancelTimeout self → s.sched.started = true → ∀ t, s.sched.Live t →
    t.id = (s.connectors self).timeouttaskId → t.userdata = self

def Attempted (s : UxCallbacks) (self : Ptr) : Prop := ∃ o, Attempts.Open s.log self o

def Loaded (s : UxCallbacks) (self id : Ptr) : Prop :=
  ∃ t, s.sched.Live t ∧ t.userdata = self ∧ t.id = id

def Frame.active : Frame → Option Ptr
  | .connecthandling _ _ .called | .connecttimeout _ .called => .none
  | .connecthandling self _ _ | .connecttimeout self _ => some self
  | _ => .none

/-- The connector whose callback has ended its timeout, and not yet its handler. -/
def Frame.disarmed : Frame → Option Ptr
  | .connecthandling self _ .rm | .connecttimeout self .rm => some self
  | _ => .none

/-- The connector whose callback has ended its timeout and its handler. -/
def Frame.detached : Frame → Option Ptr
  | .connecthandling self _ .call | .connecttimeout self .cancel | .connecttimeout self .call =>
    some self
  | _ => .none

/-- Every timeout still to run is of an open that is not completed, and once a callback has
begun its completion there is none. -/
structure Sole (s : UxCallbacks) : Prop where
  live : ∀ t, s.sched.Live t → s.Attempted t.userdata
  single : ∀ t u, s.sched.Live t → s.sched.Live u → t.userdata = u.userdata → t = u
  committed : ∀ self, s.frame.disarmed = some self ∨ s.frame.detached = some self →
    s.Attempted self ∧ ∀ t, s.sched.Live t → t.userdata ≠ self

/-- As long as the handler of a connector is registered its timeout is still to run. -/
structure Armed (s : UxCallbacks) (p : Ptr) : Prop where
  watched : ∀ ufd, s.sched.Watched p ufd → s.Attempted p ∧
    (s.Loaded p (s.connectors p).timeouttaskId ∨ s.frame.disarmed = some p)
  active : s.frame.active = some p →
    (s.connectors p).phase = .ready ∧ (s.connectors p).uxconn ≠ none
  handling : ∀ ufd line, s.frame = .connecthandling p ufd line → line ≠ .called →
    (s.connectors p).uxconn = some ufd
  cancel : ∀ ufd, s.frame = .connecthandling p ufd .cancel →
    s.Attempted p ∧ s.Loaded p (s.connectors p).timeouttaskId
  timeout : ∀ line, s.frame = .connecttimeout p line → line ≠ .called → ∀ t,
    s.sched.worker = .running t → t.id = (s.connectors p).timeouttaskId
  detached : s.frame.detached = some p → ∀ ufd, ¬ s.sched.Watched p ufd
  setTimeout : (s.connectors p).phase = .setTimeout → s.Attempted p
  storeId : ∀ id, (s.connectors p).phase = .storeId id → s.Attempted p ∧ s.Loaded p id
  addHandler : (s.connectors p).phase = .addHandler →
    s.Attempted p ∧ s.Loaded p (s.connectors p).timeouttaskId

/-- What holds as long as callbacks come in time. After a stop only the timeouts matter. -/
structure Kept (s : UxCallbacks) : Prop where
  wired : s.Wired
  safe : s.OnceOnly
  callers : ∀ self c after, (s.connectors self).phase = .removing c after → c = .worker
  sole : s.Sole
  armed : s.sched.started = true → ∀ self, s.Armed self

section Kept

variable {s m : UxCallbacks} {a : Act} {self other : Ptr}

@[simp] theorem active_user {f : Frame} (h : f.user = true) : f.active = none := by
  cases f with
  | none | other => rfl
  | connecthandling self ufd line | connecttimeout self line =>
    cases line <;> first | rfl | cases h

theorem active_of_committed {f : Frame} (h : f.disarmed = some self ∨ f.detached = some self) :
    f.active = some self := by
  cases f with
  | none | other => rcases h with h | h <;> cases h
  | connecthandling p ufd line | connecttimeout p line =>
    cases line <;> rcases h with h | h <;> cases h <;> rfl

/-- No timeout is new, no attempt is completed and no callback begins its completion. -/
theorem Sole.of_live (h : s.Sole) (hlive : ∀ t, m.sched.Live t → s.sched.Live t)
    (hlog : ∀ self, s.Attempted self → m.Attempted self)
    (hframe : ∀ self, m.frame.disarmed = some self ∨ m.frame.detached = some self →
      s.frame.disarmed = some self ∨ s.frame.detached = some self) : m.Sole where
  live t ht := hlog t.userdata (h.live t (hlive t ht))
  single t u ht hu := h.single t u (hlive t ht) (hlive u hu)
  committed self hself := by
    obtain ⟨hatt, hnone⟩ := h.committed self (hframe self hself)
    exact ⟨hlog self hatt, fun t ht => hnone t (hlive t ht)⟩

/-- The connector is in no callback, and its handler, if it is registered, waits for the
timeout. -/
theorem armed_of_inactive (hactive : m.frame.active ≠ some self)
    (hwatched : ∀ ufd, m.sched.Watched self ufd →
      m.Attempted self ∧ m.Loaded self (m.connectors self).timeouttaskId)
    (hset : (m.connectors self).phase = .setTimeout → m.Attempted self)
    (hstore : ∀ id, (m.connectors self).phase = .storeId id → m.Attempted self ∧ m.Loaded self id)
    (hadd : (m.connectors self).phase = .addHandler →
      m.Attempted self ∧ m.Loaded self (m.connectors self).timeouttaskId) : m.Armed self where
  watched ufd hw := ⟨(hwatched ufd hw).1, Or.inl (hwatched ufd hw).2⟩
  active h := absurd h hactive
  handling ufd line hf hne := by
    refine absurd ?_ hactive
    cases line <;> first | exact absurd rfl hne | simp [hf, Frame.active]
  cancel ufd hf := absurd (by simp [hf, Frame.active]) hactive
  timeout line hf hne := by
    refine absurd ?_ hactive
    cases line <;> first | exact absurd rfl hne | simp [hf, Frame.active]
  detached h := absurd (active_of_committed (Or.inr h)) hactive
  setTimeout := hset
  storeId := hstore
  addHandler := hadd

/-- A step that is none of the connector's. -/
theorem Armed.of_same (h : s.Armed self) (hconn : m.connectors self = s.connectors self)
    (hframe : (m.frame = s.frame ∧ (s.frame.active = some self →
        m.sched.worker = s.sched.worker)) ∨
      (s.frame.active ≠ some self ∧ m.frame.active ≠ some self))
    (hwatched : ∀ ufd, m.sched.Watched self ufd → s.sched.Watched self ufd)
    (hloaded : ∀ id, s.Loaded self id → m.Loaded self id)
    (hatt : s.Attempted self → m.Attempted self) : m.Armed self := by
  have hset : (m.connectors self).phase = .setTimeout → m.Attempted self := by
    rw [hconn]
    exact fun hp => hatt (h.setTimeout hp)
  have hstore : ∀ id, (m.connectors self).phase = .storeId id →
      m.Attempted self ∧ m.Loaded self id := by
    rw [hconn]
    exact fun id hp => ⟨hatt (h.storeId id hp).1, hloaded id (h.storeId id hp).2⟩
  have hadd : (m.connectors self).phase = .addHandler →
      m.Attempted self ∧ m.Loaded self (m.connectors self).timeouttaskId := by
    rw [hconn]
    exact fun hp => ⟨hatt (h.addHandler hp).1, hloaded _ (h.addHandler hp).2⟩
  rcases hframe with ⟨hframe, hworker⟩ | ⟨hbefore, hafter⟩
  · refine ⟨?_, ?_, ?_, ?_, ?_, ?_, hset, hstore, hadd⟩ <;> rw [hframe]
    · intro ufd hw
      obtain ⟨ha, hl⟩ := h.watched ufd (hwatched ufd hw)
      rw [hconn]
      exact ⟨hatt ha, hl.imp_left (hloaded _)⟩
    · rw [hconn]
      exact h.active
    · rw [hconn]
      exact h.handling
    · intro ufd hf
      rw [hconn]
      exact ⟨hatt (h.cancel ufd hf).1, hloaded _ (h.cancel ufd hf).2⟩
    · intro line hf hne t hw
      have hactive : s.frame.active = some self := by
        cases line <;> first | exact absurd rfl hne | simp [hf, Frame.active]
      rw [hconn]
      exact h.timeout line hf hne t (hworker hactive ▸ hw)
    · exact fun hd ufd hw => h.detached hd ufd (hwatched ufd hw)
  · refine armed_of_inactive hafter (fun ufd hw => ?_) hset hstore hadd
    obtain ⟨ha, hl⟩ := h.watched ufd (hwatched ufd hw)
    rw [hconn]
    exact ⟨hatt ha, hloaded _ (hl.resolve_right
      (fun hd => hbefore (active_of_committed (Or.inl hd))))⟩

theorem not_active_of_phase (h : s.Armed self) (hphase : (s.connectors self).phase ≠ .ready) :
    s.frame.active ≠ some self := fun hactive => hphase (h.active hactive).1

/-- A step on one connector only. -/
theorem Kept.of_step (h : s.Kept) (self : Ptr) (hwired : m.Wired) (hsafe : m.OnceOnly)
    (hsole : m.Sole) (hstarted : m.sched.started = true → s.sched.started = true)
    (hconn : ∀ other, other ≠ self → m.connectors other = s.connectors other)
    (hcallers : ∀ c after, (m.connectors self).phase = .removing c after → c = .worker)
    (hself : m.sched.started = true → m.Armed self)
    (hother : m.sched.started = true → ∀ other, other ≠ self → s.Armed other → m.Armed other) :
    m.Kept where
  wired := hwired
  safe := hsafe
  callers other c after hp := by
    by_cases he : other = self
    · subst he
      exact hcallers c after hp
    · rw [hconn other he] at hp
      exact h.callers other c after hp
  sole := hsole
  armed hst other := by
    by_cases he : other = self
    · subst he
      exact hself hst
    · exact hother hst other he (h.armed (hstarted hst) other)

/-- A connector whose handler is not registered, and that is in no callback, changes. -/
theorem Kept.setConnector (h : s.Kept) {conn : Connector}
    (hwired : (s.setConnector self conn).Wired)
    (hwatched : ∀ ufd, ¬ s.sched.Watched self ufd)
    (hactive : s.sched.started = true → s.frame.active ≠ some self)
    (hcallers : ∀ c after, conn.phase = .removing c after → c = .worker)
    (hset : conn.phase ≠ .setTimeout)
    (hstore : ∀ id, conn.phase = .storeId id → s.sched.started = true →
      s.Attempted self ∧ s.Loaded self id)
    (hadd : conn.phase = .addHandler → s.sched.started = true →
      s.Attempted self ∧ s.Loaded self conn.timeouttaskId) : (s.setConnector self conn).Kept := by
  have hself : ((s.setConnector self conn).connectors self) = conn := Function.update_self ..
  have hconn : ∀ other, other ≠ self →
      (s.setConnector self conn).connectors other = s.connectors other :=
    fun other hne => Function.update_of_ne hne ..
  refine h.of_step self hwired ⟨h.safe.alive, h.safe.once⟩
    (h.sole.of_live (fun _ hl => hl) (fun _ ha => ha) (fun _ hf => hf)) id hconn ?_
    (fun hst => ?_) (fun hst other hne harmed => ?_)
  · rw [hself]
    exact hcallers
  · refine armed_of_inactive (hactive hst) (fun ufd hw => absurd hw (hwatched ufd)) ?_ ?_ ?_
    · rw [hself]
      exact fun hp => absurd hp hset
    · rw [hself]
      exact fun id hp => hstore id hp hst
    · rw [hself]
      exact fun hp => hadd hp hst
  · exact harmed.of_same (hconn other hne) (Or.inl ⟨rfl, fun _ => rfl⟩) (fun _ hw => hw)
      (fun _ hl => hl) id

theorem Kept.opens (h : s.Kept) {ufd : Int} (hwired : m.Wired)
    (hnone : (s.connectors self).uxconn = none)
    (hm : m = (s.note (.opened self s.log.length)).setConnector self
      { s.connectors self with uxconn := some ufd, phase := .setTimeout }) : m.Kept := by
  have hatt : ∀ other, s.Attempted other → m.Attempted other := by
    intro other hopen
    obtain ⟨o, ho⟩ := hopen
    subst hm
    by_cases he : self = other
    · subst he
      exact ⟨_, Attempts.open_opened⟩
    · exact ⟨o, (Attempts.open_append_other (by simpa [Attempts.Event.key] using he)).mpr ho⟩
  have hnew : m.Attempted self := hm ▸ ⟨_, Attempts.open_opened⟩
  have hsafe : m.OnceOnly := by
    subst hm
    exact ⟨h.safe.alive, h.safe.once.append (fun _ _ he => by cases he)⟩
  have hsole : m.Sole := by
    subst hm
    exact h.sole.of_live (fun _ hl => hl) hatt (fun _ hf => hf)
  subst hm
  refine h.of_step self hwired hsafe hsole id (fun other hne => Function.update_of_ne hne ..) ?_
    (fun hst => ?_) (fun hst other hne harmed => ?_)
  · simp [UxCallbacks.setConnector]
  · refine armed_of_inactive ?_ (fun ufd hw => ?_) (fun _ => hnew) ?_ ?_
    · exact fun hactive => ((h.armed hst self).active hactive).2 hnone
    · exact absurd hw (h.wired.not_watched (Or.inl hnone) ufd)
    · simp [UxCallbacks.setConnector]
    · simp [UxCallbacks.setConnector]
  · exact harmed.of_same (Function.update_of_ne hne ..) (Or.inl ⟨rfl, fun _ => rfl⟩)
      (fun _ hw => hw) (fun _ hl => hl) (hatt other)

/-- The timeout posted is the only one of the connector. -/
theorem Kept.post (h : s.Kept) {now : ClockMs} {timeout : DelayMs} {id : Ptr}
    {pick : Option Waiter} {t : UxScheduler}
    (hwired : ({ s with sched := t }.setConnector self { s.connectors self with
      phase := .storeId (if s.sched.started then id else NULL) } : UxCallbacks).Wired)
    (hphase : (s.connectors self).phase = .setTimeout)
    (ht : s.sched.act (.post (UxConnector.timeoutPost self now timeout id) pick) = some t) :
    ({ s with sched := t }.setConnector self { s.connectors self with
      phase := .storeId (if s.sched.started then id else NULL) } : UxCallbacks).Kept := by
  have hwatched : ∀ ufd, ¬ s.sched.Watched self ufd :=
    h.wired.not_watched (Or.inr (by simp [hphase]))
  rcases UxScheduler.timeoutPost_effect ht with
    ⟨hst, rfl⟩ | ⟨hst, _, hworker, hsub, task, htask, hid, hlive⟩
  · refine h.setConnector hwired hwatched ?_ (by simp) (by simp) ?_ (by simp)
    · exact fun hs => not_active_of_phase (h.armed hs self) (by simp [hphase])
    · intro id _ hs
      rw [hst] at hs
      cases hs
  · have harmed := h.armed hst self
    have hactive : s.frame.active ≠ some self := not_active_of_phase harmed (by simp [hphase])
    have hfirst : ∀ u, s.sched.Live u → u.userdata ≠ self := by
      intro u hu he
      have htimes := h.wired.times hst hu he
      simp [Connector.Times, hphase] at htimes
    refine h.of_step self hwired ⟨h.safe.alive, h.safe.once⟩ ⟨?_, ?_, ?_⟩ (fun _ => hst)
      (fun other hne => Function.update_of_ne hne ..) (by simp [UxCallbacks.setConnector])
      (fun _ => ?_) (fun _ other hne ho => ?_)
    · intro u hu
      rcases (hlive u).mp hu with rfl | hu
      · rw [htask]
        exact harmed.setTimeout hphase
      · exact h.sole.live u hu
    · intro u v hu hv he
      rcases (hlive u).mp hu with rfl | hu <;> rcases (hlive v).mp hv with rfl | hv
      · rfl
      · exact absurd (he.symm.trans htask) (hfirst v hv)
      · exact absurd (he.trans htask) (hfirst u hu)
      · exact h.sole.single u v hu hv he
    · intro other hother
      obtain ⟨hatt, hnone⟩ := h.sole.committed other hother
      refine ⟨hatt, fun u hu => ?_⟩
      rcases (hlive u).mp hu with rfl | hu
      · rw [htask]
        intro heq
        subst heq
        exact hactive (active_of_committed hother)
      · exact hnone u hu
    · refine armed_of_inactive hactive (fun ufd hw => absurd (hsub self ufd hw) (hwatched ufd))
        (by simp [UxCallbacks.setConnector]) ?_ (by simp [UxCallbacks.setConnector])
      intro id' hid'
      have hsame : id = id' := by simpa [UxCallbacks.setConnector, hst] using hid'
      exact ⟨harmed.setTimeout hphase, task, (hlive task).mpr (Or.inl rfl), htask,
        hid.trans hsame⟩
    · refine ho.of_same (Function.update_of_ne hne ..) (Or.inl ⟨rfl, fun _ => hworker⟩)
        (fun ufd hw => hsub other ufd hw) ?_ (fun ha => ha)
      intro id' htimed
      obtain ⟨u, hu, hself, huid⟩ := htimed
      exact ⟨u, (hlive u).mpr (Or.inr hu), hself, huid⟩

/-- With the handler the open has both its completions, and the timeout is still to run. -/
theorem Kept.addHandler (h : s.Kept) {c : Caller} {addr : Ptr} {pick : Option Waiter} {ufd : Int}
    {t : UxScheduler}
    (hwired : ({ s with sched := t }.setConnector self { s.connectors self with
      phase := .ready } : UxCallbacks).Wired)
    (hphase : (s.connectors self).phase = .addHandler)
    (ht : s.sched.act (.add c addr ufd AWE_WRITE connecthandlingProc self pick) = some t) :
    ({ s with sched := t }.setConnector self { s.connectors self with
      phase := .ready } : UxCallbacks).Kept := by
  obtain ⟨hwatched, htasks, hworker, hst⟩ := UxScheduler.addHandler_effect ht
  have hlive : ∀ u, t.Live u ↔ s.sched.Live u := by
    intro u
    unfold UxScheduler.Live
    rw [htasks, hworker]
  refine h.of_step self hwired ⟨h.safe.alive, h.safe.once⟩
    (h.sole.of_live (fun u hu => (hlive u).mp hu) (fun _ ha => ha) (fun _ hf => hf))
    (fun hs => hst ▸ hs) (fun other hne => Function.update_of_ne hne ..)
    (by simp [UxCallbacks.setConnector]) (fun hs => ?_) (fun hs other hne ho => ?_)
  · have harmed := h.armed (hst ▸ hs) self
    have hactive : s.frame.active ≠ some self := not_active_of_phase harmed (by simp [hphase])
    obtain ⟨hatt, u, hu, hself, hid⟩ := harmed.addHandler hphase
    refine armed_of_inactive hactive (fun ufd' _ => ?_)
      (by simp [UxCallbacks.setConnector]) (by simp [UxCallbacks.setConnector])
      (by simp [UxCallbacks.setConnector])
    exact ⟨hatt, u, (hlive u).mpr hu, hself, by simpa [UxCallbacks.setConnector] using hid⟩
  · refine ho.of_same (Function.update_of_ne hne ..) (Or.inl ⟨rfl, fun _ => hworker⟩)
      (fun ufd' hw => ?_) ?_ (fun ha => ha)
    · exact (hwatched other ufd' hw).resolve_right (fun hboth => hne hboth.1)
    · intro id htimed
      obtain ⟨u, hu, hself, hid⟩ := htimed
      exact ⟨u, (hlive u).mpr hu, hself, hid⟩

/-- A handler begins to close a connector. -/
theorem Kept.removes (h : s.Kept) {after : After} {ufd : Int} {t : UxScheduler}
    (hwired : ({ s with sched := t }.setConnector self { s.connectors self with
      phase := .removing .worker after } : UxCallbacks).Wired)
    (huser : s.frame.user = true) (ht : s.sched.rm .worker ufd = some t) :
    ({ s with sched := t }.setConnector self { s.connectors self with
      phase := .removing .worker after } : UxCallbacks).Kept := by
  have hapart := UxScheduler.rm_apart ht
  have hactive : ∀ other, s.frame.active ≠ some other := by simp [active_user huser]
  refine h.of_step self hwired ⟨h.safe.alive, h.safe.once⟩
    (h.sole.of_live hapart.live (fun _ ha => ha) (fun _ hf => hf)) hapart.started
    (fun other hne => Function.update_of_ne hne ..) ?_ (fun _ => ?_) (fun _ other hne ho => ?_)
  · intro c after' hp
    have hp : Phase.removing .worker after = .removing c after' := by
      simpa [UxCallbacks.setConnector] using hp
    cases hp
    rfl
  · refine armed_of_inactive (hactive self) (fun ufd' hw => ?_) (by simp [UxCallbacks.setConnector])
      (by simp [UxCallbacks.setConnector]) (by simp [UxCallbacks.setConnector])
    exact absurd hw (hwired.not_watched (Or.inr (by simp [UxCallbacks.setConnector])) ufd')
  · refine ho.of_same (Function.update_of_ne hne ..) (Or.inr ⟨hactive other, hactive other⟩)
      (fun ufd' hw => hapart.watched other ufd' hw) ?_ (fun ha => ha)
    intro id htimed
    obtain ⟨u, hu, hself, hid⟩ := htimed
    exact ⟨u, hapart.keeps u hu, hself, hid⟩

/-- A handler ends the timeout of the connector it closes, and no other. -/
theorem Kept.cancels (h : s.Kept) {c : Caller} {after : After}
    (hwired : ({ s with sched := (s.sched.cancel (s.connectors self).timeouttaskId).2 }.setConnector
      self ((s.connectors self).finish after) : UxCallbacks).Wired)
    (hphase : (s.connectors self).phase = .removing c after) (huser : s.frame.user = true)
    (hown : s.sched.started = true → ∀ t, s.sched.Live t →
      t.id = (s.connectors self).timeouttaskId → t.userdata = self) :
    ({ s with sched := (s.sched.cancel (s.connectors self).timeouttaskId).2 }.setConnector
      self ((s.connectors self).finish after) : UxCallbacks).Kept := by
  have hacc := h.wired.sound.accounted
  have hfewer := UxScheduler.fewer_cancel hacc (s.connectors self).timeouttaskId
  have hactive : ∀ other, s.frame.active ≠ some other := by simp [active_user huser]
  have hnot : ∀ ufd, ¬ s.sched.Watched self ufd :=
    h.wired.not_watched (Or.inr (by simp [hphase]))
  refine h.of_step self hwired ⟨h.safe.alive, h.safe.once⟩
    (h.sole.of_live hfewer.live (fun _ ha => ha) (fun _ hf => hf)) hfewer.started
    (fun other hne => Function.update_of_ne hne ..) ?_ (fun _ => ?_) (fun hs other hne ho => ?_)
  · cases after <;> simp [UxCallbacks.setConnector, Connector.finish]
  · refine armed_of_inactive (hactive self) (fun ufd hw => ?_) ?_ ?_ ?_
    · exact absurd (hfewer.watched self ufd hw) (hnot ufd)
    all_goals cases after <;> simp [UxCallbacks.setConnector, Connector.finish]
  · refine ho.of_same (Function.update_of_ne hne ..) (Or.inr ⟨hactive other, hactive other⟩)
      (fun ufd hw => hfewer.watched other ufd hw) ?_ (fun ha => ha)
    intro id htimed
    obtain ⟨u, hu, hother, hid⟩ := htimed
    refine ⟨u, (UxScheduler.live_cancel hacc _ u).mpr ⟨hu, fun hhit => ?_⟩, hother, hid⟩
    exact hne (hother.symm.trans (hown hhit.1 u hu hhit.2.2))

theorem other_active {f : Frame} (hf : f.active = some self) (hne : other ≠ self) :
    f.active ≠ some other := by
  rw [hf]
  intro hline
  cases hline
  exact hne rfl

/-- `uxconnector_connecthandling` finds the timeout on the list and ends it. -/
theorem Kept.handlingCancel (h : s.Kept) {ufd : Int}
    (hwired : ({ s with
      sched := (s.sched.cancel (s.connectors self).timeouttaskId).2
      frame := .connecthandling self ufd .rm } : UxCallbacks).Wired)
    (hframe : s.frame = .connecthandling self ufd .cancel) (hst : s.sched.started = true) :
    ({ s with
      sched := (s.sched.cancel (s.connectors self).timeouttaskId).2
      frame := .connecthandling self ufd .rm } : UxCallbacks).Kept := by
  have hacc := h.wired.sound.accounted
  have hlive := UxScheduler.live_cancel hacc (s.connectors self).timeouttaskId
  have hfewer := UxScheduler.fewer_cancel hacc (s.connectors self).timeouttaskId
  have harmed := h.armed hst self
  have hbusy : s.frame.active = some self := by simp [hframe, Frame.active]
  obtain ⟨hatt, t, ht, hself, hid⟩ := harmed.cancel ufd hframe
  have hmem := live_mem h.wired (by simp [hframe]) ht
  refine h.of_step self hwired ⟨h.safe.alive, h.safe.once⟩ ⟨?_, ?_, ?_⟩ hfewer.started
    (fun _ _ => rfl) (h.callers self) (fun _ => ?_) (fun _ other hne ho => ?_)
  · exact fun u hu => h.sole.live u (hfewer.live u hu)
  · exact fun u v hu hv => h.sole.single u v (hfewer.live u hu) (hfewer.live v hv)
  · intro other hother
    have hactive := active_of_committed hother
    simp only [Frame.active, Option.some.injEq] at hactive
    subst hactive
    refine ⟨hatt, fun u hu he => ?_⟩
    obtain ⟨hu, hmiss⟩ := (hlive u).mp hu
    obtain rfl := h.sole.single u t hu ht (he.trans hself.symm)
    exact hmiss ⟨hst, hmem, hid⟩
  · refine ⟨fun ufd' _ => ⟨hatt, Or.inr rfl⟩, fun _ => harmed.active hbusy, ?_, ?_, ?_, ?_,
      harmed.setTimeout, ?_, ?_⟩
    · intro ufd' line hline _
      cases hline
      exact harmed.handling ufd .cancel hframe (by simp)
    · exact fun _ hf => nomatch hf
    · exact fun _ hf => nomatch hf
    · exact fun hd => nomatch hd
    · intro id hp
      rw [(harmed.active hbusy).1] at hp
      cases hp
    · intro hp
      rw [(harmed.active hbusy).1] at hp
      cases hp
  · refine ho.of_same rfl (Or.inr ⟨other_active hbusy hne, other_active rfl hne⟩)
      (fun ufd' hw => hfewer.watched other ufd' hw) ?_ (fun ha => ha)
    intro id htimed
    obtain ⟨u, hu, hother, huid⟩ := htimed
    refine ⟨u, (hlive u).mpr ⟨hu, fun hhit => ?_⟩, hother, huid⟩
    obtain rfl := UxScheduler.Live.eq_of_id hacc hu ht (hhit.2.2.trans hid.symm)
    exact hne (hother.symm.trans hself)

/-- A callback goes on, its handler and its timeout ended. -/
theorem Kept.detaches (h : s.Kept) {f : Frame} {t : UxScheduler}
    (hwired : ({ s with sched := t, frame := f } : UxCallbacks).Wired)
    (hcommitted : s.frame.disarmed = some self ∨ s.frame.detached = some self)
    (hf : f.detached = some self) (hfewer : s.sched.Fewer t)
    (hwatched : t.started = true → ∀ ufd, ¬ t.Watched self ufd)
    (hloaded : t.started = true → ∀ other, other ≠ self → ∀ id, s.Loaded other id →
      ({ s with sched := t, frame := f } : UxCallbacks).Loaded other id)
    (hhandling : ∀ ufd line, f = .connecthandling self ufd line →
      ∃ line', line' ≠ .called ∧ s.frame = .connecthandling self ufd line')
    (htimeout : ∀ line, f = .connecttimeout self line →
      ∃ line', line' ≠ .called ∧ s.frame = .connecttimeout self line' ∧
        t.worker = s.sched.worker) :
    ({ s with sched := t, frame := f } : UxCallbacks).Kept := by
  have hbusy := active_of_committed hcommitted
  have hactive := active_of_committed (Or.inr hf)
  refine h.of_step self hwired ⟨h.safe.alive, h.safe.once⟩
    (h.sole.of_live hfewer.live (fun _ ha => ha) ?_) hfewer.started (fun _ _ => rfl)
    (h.callers self) (fun hs => ?_) (fun hs other hne ho => ?_)
  · intro other hother
    have hsame := active_of_committed hother
    dsimp only at hsame
    rw [hactive] at hsame
    cases hsame
    exact hcommitted
  · have harmed := h.armed (hfewer.started hs) self
    obtain ⟨hready, huxconn⟩ := harmed.active hbusy
    refine ⟨fun ufd hw => absurd hw (hwatched hs ufd), fun _ => ⟨hready, huxconn⟩, ?_, ?_, ?_,
      fun _ => hwatched hs, harmed.setTimeout, ?_, ?_⟩
    · intro ufd line hline _
      obtain ⟨line', hne, hframe⟩ := hhandling ufd line hline
      exact harmed.handling ufd line' hframe hne
    · intro ufd hcancel
      dsimp only at hcancel
      rw [hcancel] at hf
      cases hf
    · intro line hline _ u hu
      obtain ⟨line', hne, hframe, hworker⟩ := htimeout line hline
      exact harmed.timeout line' hframe hne u (hworker ▸ hu)
    · intro id hp
      rw [hready] at hp
      cases hp
    · intro hp
      rw [hready] at hp
      cases hp
  · exact ho.of_same rfl (Or.inr ⟨other_active hbusy hne, other_active hactive hne⟩)
      (fun ufd hw => hfewer.watched other ufd hw) (hloaded hs other hne) (fun ha => ha)

/-- The call of the connected handler completes the open. -/
theorem Kept.completes (h : s.Kept) {f : Frame} {result ufd : Int}
    (hwired : ({ s.complete self result ufd with frame := f } : UxCallbacks).Wired)
    (hdetached : s.frame.detached = some self) (hf : f.active = none) :
    ({ s.complete self result ufd with frame := f } : UxCallbacks).Kept := by
  have hbusy := active_of_committed (Or.inr hdetached)
  obtain ⟨⟨o, ho⟩, hnone⟩ := h.sole.committed self (Or.inr hdetached)
  have hatt : ∀ other, other ≠ self → s.Attempted other →
      ({ s.complete self result ufd with frame := f } : UxCallbacks).Attempted other := by
    intro other hne hopen
    obtain ⟨o', ho'⟩ := hopen
    exact ⟨o', (Attempts.open_append_other (by simpa [Attempts.Event.key] using hne.symm)).mpr ho'⟩
  have hinactive : ∀ other, f.active ≠ some other := by simp [hf]
  have hsafe : ({ s.complete self result ufd with frame := f } : UxCallbacks).OnceOnly := by
    refine ⟨h.safe.alive, h.safe.once.append (fun k a he => ?_)⟩
    cases he
    exact ⟨o, ho⟩
  refine h.of_step self hwired hsafe ⟨?_, h.sole.single, ?_⟩ id (fun _ _ => rfl) (h.callers self)
    (fun hs => ?_) (fun _ other hne harmed => ?_)
  · exact fun t ht => hatt _ (hnone t ht) (h.sole.live t ht)
  · exact fun other hother => absurd (active_of_committed hother) (hinactive other)
  · have harmed := h.armed hs self
    have hready := (harmed.active hbusy).1
    refine armed_of_inactive (hinactive self)
      (fun ufd' hw => absurd hw (harmed.detached hdetached ufd')) ?_ ?_ ?_
    · exact fun hp => absurd (hready.symm.trans hp) (by simp)
    · exact fun id hp => absurd (hready.symm.trans hp) (by simp)
    · exact fun hp => absurd (hready.symm.trans hp) (by simp)
  · exact harmed.of_same rfl (Or.inr ⟨other_active hbusy hne, hinactive other⟩)
      (fun _ hw => hw) (fun _ hl => hl) (hatt other hne)

/-- The worker goes on, and enters no callback of a connector's. -/
theorem Kept.goes_on (h : s.Kept) {f : Frame} {t : UxScheduler}
    (hwired : ({ s with sched := t, frame := f } : UxCallbacks).Wired) (hapart : s.sched.Apart t)
    (hframe : (f = s.frame ∧ (s.frame ≠ .none → t.worker = s.sched.worker)) ∨
      (s.frame.active = none ∧ f.active = none)) :
    ({ s with sched := t, frame := f } : UxCallbacks).Kept where
  wired := hwired
  safe := ⟨h.safe.alive, h.safe.once⟩
  callers := h.callers
  sole := by
    refine h.sole.of_live hapart.live (fun _ ha => ha) (fun self hself => ?_)
    rcases hframe with ⟨rfl, _⟩ | ⟨_, hnone⟩
    · exact hself
    · have hactive := active_of_committed hself
      dsimp only at hactive
      rw [hnone] at hactive
      cases hactive
  armed hst self := by
    refine (h.armed (hapart.started hst) self).of_same rfl ?_
      (fun ufd hw => hapart.watched self ufd hw) ?_ (fun ha => ha)
    · rcases hframe with ⟨rfl, hworker⟩ | ⟨hbefore, hafter⟩
      · refine Or.inl ⟨rfl, fun hactive => hworker ?_⟩
        intro hnone
        rw [hnone] at hactive
        cases hactive
      · exact Or.inr ⟨by simp [hbefore], by simp [hafter]⟩
    · intro id htimed
      obtain ⟨u, hu, hself, hid⟩ := htimed
      exact ⟨u, hapart.keeps u hu, hself, hid⟩

/-- The worker calls `uxconnector_connecthandling`, whose timeout is then still to run. -/
theorem Kept.handled (h : s.Kept) {ufd : Int} {t : UxScheduler}
    (hwired : ({ s with sched := t, frame := .connecthandling self ufd .cancel } :
      UxCallbacks).Wired)
    (hnone : s.frame = .none) (hapart : s.sched.Apart t) (hwatched : s.sched.Watched self ufd) :
    ({ s with sched := t, frame := .connecthandling self ufd .cancel } : UxCallbacks).Kept := by
  obtain ⟨huxconn, hready⟩ := h.wired.watched self ufd hwatched
  have hloaded : ∀ other id, s.Loaded other id →
      ({ s with sched := t, frame := .connecthandling self ufd .cancel } :
        UxCallbacks).Loaded other id := by
    intro other id htimed
    obtain ⟨u, hu, hself, hid⟩ := htimed
    exact ⟨u, hapart.keeps u hu, hself, hid⟩
  have hbefore : ∀ other, s.frame.active ≠ some other := by simp [hnone, Frame.active]
  refine h.of_step self hwired ⟨h.safe.alive, h.safe.once⟩
    (h.sole.of_live hapart.live (fun _ ha => ha) ?_) hapart.started (fun _ _ => rfl)
    (h.callers self) (fun hs => ?_) (fun _ other hne ho => ?_)
  · rintro other (hd | hd) <;> cases hd
  · have harmed := h.armed (hapart.started hs) self
    have hwait : ∀ ufd', s.sched.Watched self ufd' →
        s.Attempted self ∧ s.Loaded self (s.connectors self).timeouttaskId := by
      intro ufd' hw
      obtain ⟨hatt, hl⟩ := harmed.watched ufd' hw
      exact ⟨hatt, hl.resolve_right (by simp [hnone, Frame.disarmed])⟩
    refine ⟨fun ufd' hw => ?_, fun _ => ⟨hready, by simp [huxconn]⟩, ?_, ?_, ?_, ?_,
      harmed.setTimeout, ?_, ?_⟩
    · obtain ⟨hatt, hl⟩ := hwait ufd' (hapart.watched self ufd' hw)
      exact ⟨hatt, Or.inl (hloaded _ _ hl)⟩
    · intro ufd' line hline _
      cases hline
      exact huxconn
    · intro _ _
      obtain ⟨hatt, hl⟩ := hwait ufd hwatched
      exact ⟨hatt, hloaded _ _ hl⟩
    · exact fun _ hf => nomatch hf
    · exact fun hd => nomatch hd
    · exact fun id hp => absurd (hready.symm.trans hp) (by simp)
    · exact fun hp => absurd (hready.symm.trans hp) (by simp)
  · exact ho.of_same rfl (Or.inr ⟨hbefore other, other_active rfl hne⟩)
      (fun ufd' hw => hapart.watched other ufd' hw) (hloaded other) (fun ha => ha)

/-- The worker calls `uxconnector_connecttimeout` with an open that has returned. -/
theorem Kept.timedOut (h : s.Kept) {task : TimerTask} {t : UxScheduler}
    (hwired : ({ s with sched := t, frame := .connecttimeout task.userdata .rm } :
      UxCallbacks).Wired)
    (hnone : s.frame = .none) (hworker : t.worker = .running task) (hfewer : s.sched.Fewer t)
    (hlive : s.sched.Live task) (hrest : ∀ u, s.sched.Live u → u ≠ task → t.Live u)
    (hgone : ¬ t.Live task) (hready : (s.connectors task.userdata).phase = .ready) :
    ({ s with sched := t, frame := .connecttimeout task.userdata .rm } : UxCallbacks).Kept := by
  have hbefore : ∀ other, s.frame.active ≠ some other := by simp [hnone, Frame.active]
  refine h.of_step task.userdata hwired ⟨h.safe.alive, h.safe.once⟩ ⟨?_, ?_, ?_⟩ hfewer.started
    (fun _ _ => rfl) (h.callers task.userdata) (fun hs => ?_) (fun _ other hne ho => ?_)
  · exact fun u hu => h.sole.live u (hfewer.live u hu)
  · exact fun u v hu hv => h.sole.single u v (hfewer.live u hu) (hfewer.live v hv)
  · intro other hother
    have hactive := active_of_committed hother
    simp only [Frame.active, Option.some.injEq] at hactive
    subst hactive
    refine ⟨h.sole.live task hlive, fun u hu he => ?_⟩
    obtain rfl := h.sole.single u task (hfewer.live u hu) hlive he
    exact hgone hu
  · have hst := hfewer.started hs
    have harmed := h.armed hst task.userdata
    obtain ⟨huxconn, htimes⟩ := h.wired.timed hst task hlive
    refine ⟨fun ufd' hw => ?_, fun _ => ⟨hready, huxconn⟩, ?_, ?_, ?_, ?_, harmed.setTimeout,
      ?_, ?_⟩
    · exact ⟨h.sole.live task hlive, Or.inr rfl⟩
    · exact fun _ _ hf => nomatch hf
    · exact fun _ hf => nomatch hf
    · intro line _ _ u hu
      obtain rfl : task = u := by simpa [hworker] using hu
      have hid : (s.connectors task.userdata).timeouttaskId = task.id := by
        simpa [hready] using htimes
      exact hid.symm
    · exact fun hd => nomatch hd
    · exact fun id hp => absurd (hready.symm.trans hp) (by simp)
    · exact fun hp => absurd (hready.symm.trans hp) (by simp)
  · refine ho.of_same rfl (Or.inr ⟨hbefore other, other_active rfl hne⟩)
      (fun ufd' hw => hfewer.watched other ufd' hw) ?_ (fun ha => ha)
    intro id htimed
    obtain ⟨u, hu, hother, hid⟩ := htimed
    refine ⟨u, hrest u hu ?_, hother, hid⟩
    intro heq
    subst heq
    exact hne hother.symm

theorem Kept.sched (h : s.Kept) {b : UxScheduler.Act} {t : UxScheduler}
    (hwired : ({ s with sched := t, frame := s.frameAfter t b } : UxCallbacks).Wired)
    (htimely : s.Timely (.sched b)) (hb : b.foreign = true)
    (hreturns : b.returns = true → s.frame.user = true) (ht : s.sched.step b = some t) :
    ({ s with sched := t, frame := s.frameAfter t b } : UxCallbacks).Kept := by
  have hgoes := h.wired.goes hb hreturns ht
  generalize s.frameAfter t b = f at hwired hgoes ⊢
  cases hgoes with
  | stays hinside _ hapart => exact h.goes_on hwired hapart (Or.inl ⟨rfl, hinside⟩)
  | leaves huser _ hapart =>
    refine h.goes_on hwired hapart (Or.inr ⟨?_, rfl⟩)
    rcases huser with hnone | huser
    · rw [hnone]
      rfl
    · exact active_user huser
  | other hnone _ hapart => exact h.goes_on hwired hapart (Or.inr ⟨by rw [hnone]; rfl, rfl⟩)
  | handling hnone _ hapart hwatched => exact h.handled hwired hnone hapart hwatched
  | timeout hnone hw hrun hfewer hlive hrest hgone =>
    obtain rfl := UxScheduler.eq_testTask_of_running hb ht hw hrun
    exact h.timedOut hwired hnone hrun hfewer hlive hrest hgone
      (htimely.timeout rfl _ hw hlive)

/-- The timeout that `uxconnector_connecthandling` cancels is on the list. -/
theorem Kept.cancel_ok (h : s.Kept) {ufd : Int}
    (hframe : s.frame = .connecthandling self ufd .cancel)
    (hst : s.sched.started = true) :
    (s.sched.cancel (s.connectors self).timeouttaskId).1 = AWE_OK := by
  obtain ⟨_, t, ht, _, hid⟩ := (h.armed hst self).cancel ufd hframe
  have hmem := live_mem h.wired (by simp [hframe]) ht
  rw [UxClients.cancel_started hst]
  exact TimerTaskList.cancel_ok_iff.mpr ⟨t, hmem, hid⟩

theorem Kept.setClosing (h : s.Kept) (c : Caller) (closing : Option Ptr) :
    (s.setClosing c closing).Kept := by
  unfold UxCallbacks.setClosing
  split
  · exact ⟨⟨h.wired.sound, h.wired.fits, h.wired.watched, h.wired.timed, h.wired.opening⟩,
      ⟨h.safe.alive, h.safe.once⟩, h.callers,
      ⟨h.sole.live, h.sole.single, h.sole.committed⟩, fun hst self =>
        (h.armed hst self).of_same rfl (Or.inl ⟨rfl, fun _ => rfl⟩) (fun _ hw => hw)
          (fun _ hl => hl) (fun ha => ha)⟩
  · exact h

/-- Handlers close connectors, and not with a timeout in the worker's hand. -/
theorem Kept.careful (h : s.Kept) (ha : a.opens = true) (hm : s.Does a m) : s.Careful a := by
  constructor
  · intro b c ufd hb hr hc
    exfalso
    cases hm with
    | removes =>
      obtain ⟨ufd', _, rfl⟩ := Option.map_eq_some_iff.mp hb
      cases hr
      exact hc (by simpa [Act.opens] using ha)
    | detached _ _ hnone => simp [request, hnone] at hb
    | sched hforeign =>
      cases hb
      rw [UxScheduler.foreign_removal hforeign] at hr
      cases hr
    | addHandler =>
      obtain ⟨ufd', _, rfl⟩ := Option.map_eq_some_iff.mp hb
      simp [UxScheduler.Act.removal, AWE_WRITE] at hr
    | handlingRm hframe =>
      simp only [request, hframe, Option.some.injEq] at hb
      subst hb
      cases hr
      exact hc rfl
    | timeoutRm hframe =>
      simp only [request, hframe] at hb
      obtain ⟨ufd', _, rfl⟩ := Option.map_eq_some_iff.mp hb
      cases hr
      exact hc rfl
    | handlingCancel hframe | aborts hframe | timeoutCancel hframe | handlingCall hframe
    | timeoutCall hframe =>
      simp only [request, hframe, Option.some.injEq, reduceCtorEq] at hb
      try subst hb; cases hr
    | timeoutDetached hframe hnone => simp [request, hframe, hnone] at hb
    | create | opens | failsToOpen | open2 | storeId => cases hb
    | post | cancels =>
      cases hb
      cases hr
  · intro self c after heq hphase _ t hw _ _
    subst heq
    cases hm with
    | cancels hp _ hmay =>
      rw [hphase] at hp
      cases hp
      have huser := hmay (h.callers self c after hphase)
      have hnone := h.wired.outside (by simp [hw, Worker.inCallback])
      simp [hnone, Frame.user] at huser

theorem Kept.step (h : s.Kept) (htimely : s.Timely a) (hm : openStep s a = some m) : m.Kept := by
  unfold openStep at hm
  split at hm
  case isFalse => cases hm
  rename_i hopens
  have hdoes := (step_does hm).2
  have hwired := h.wired.step (h.careful hopens hdoes) hm
  cases hdoes with
  | @create self connhandler userdata hgone =>
    refine h.setConnector hwired (h.wired.not_watched (Or.inr (by simp [hgone]))) ?_ (by simp)
      (by simp) (by simp) (by simp)
    exact fun hs => not_active_of_phase (h.armed hs self) (by simp [hgone])
  | opens _ hnone => exact h.opens hwired hnone rfl
  | @failsToOpen self ufd _ hnone =>
    refine h.setConnector hwired (h.wired.not_watched (Or.inl hnone)) ?_ (by simp) (by simp)
      (by simp) (by simp)
    exact fun hs hactive => ((h.armed hs self).active hactive).2 hnone
  | @open2 self ufd hready hnone =>
    refine h.setConnector hwired (h.wired.not_watched (Or.inl hnone)) ?_ (by simp [hready])
      (by simp [hready]) (by simp [hready]) (by simp [hready])
    exact fun hs hactive => ((h.armed hs self).active hactive).2 hnone
  | @detached self c after _ _ hnone =>
    refine h.setConnector hwired (h.wired.not_watched (Or.inl hnone)) ?_ ?_ ?_ ?_ ?_
    · exact fun hs hactive => ((h.armed hs self).active hactive).2 hnone
    all_goals cases after <;> simp [Connector.finish]
  | @storeId self id hphase =>
    refine h.setConnector hwired (h.wired.not_watched (Or.inr (by simp [hphase]))) ?_ (by simp)
      (by simp) (by simp) (fun _ hs => (h.armed hs self).storeId id hphase)
    exact fun hs => not_active_of_phase (h.armed hs self) (by simp [hphase])
  | post hphase ht => exact h.post hwired hphase (UxScheduler.step_act ht)
  | addHandler hphase _ ht => exact h.addHandler hwired hphase (UxScheduler.step_act ht)
  | @removes self c after ufd t hmay _ _ ht =>
    obtain rfl : c = .worker := by simpa [Act.opens] using hopens
    have huser : s.frame.user = true := by
      simp only [mayClose, forall_const, Bool.decide_and, Bool.and_eq_true] at hmay
      simpa using hmay.1
    exact (h.removes (wired_setClosing.mp hwired) huser (UxScheduler.step_act ht)).setClosing _ _
  | @cancels self c after t hphase _ hmay ht =>
    obtain rfl : (s.sched.cancel (s.connectors self).timeouttaskId).2 = t := by
      simpa [UxScheduler.act] using UxScheduler.step_act ht
    exact (h.cancels (wired_setClosing.mp hwired) hphase (hmay (h.callers self c after hphase))
      (htimely.own self rfl)).setClosing _ _
  | @handlingCancel self ufd rs t hframe _ ht =>
    obtain rfl : (s.sched.cancel (s.connectors self).timeouttaskId).2 = t := by
      simpa [UxScheduler.act] using UxScheduler.step_act ht
    exact h.handlingCancel hwired hframe (htimely.handling rs self ufd rfl hframe)
  | @aborts self ufd rs t hframe hfailed ht =>
    exact absurd (h.cancel_ok hframe (htimely.handling rs self ufd rfl hframe)) hfailed
  | @handlingRm self ufd rs t hframe ht =>
    have hrm := UxScheduler.step_act ht
    have hapart := UxScheduler.rm_apart hrm
    refine h.detaches hwired (Or.inl (by rw [hframe]; rfl)) rfl hapart.toFewer
      (fun hs ufd' hw => ?_) (fun _ other _ id hl => ?_) ?_ (fun _ hf => by cases hf)
    · have hsame := (h.wired.watched self ufd' (hapart.watched self ufd' hw)).1
      rw [(h.armed (hapart.started hs) self).handling ufd .rm hframe (by simp)] at hsame
      cases hsame
      exact UxScheduler.rm_unwatched h.wired.sound.listed hrm self hw
    · obtain ⟨u, hu, hother, hid⟩ := hl
      exact ⟨u, hapart.keeps u hu, hother, hid⟩
    · intro ufd' line hline
      cases hline
      exact ⟨.rm, by simp, hframe⟩
  | @timeoutRm self rs ufd t hframe huxconn ht =>
    have hrm := UxScheduler.step_act ht
    have hapart := UxScheduler.rm_apart hrm
    refine h.detaches hwired (Or.inl (by rw [hframe]; rfl)) rfl hapart.toFewer
      (fun _ ufd' hw => ?_) (fun _ other _ id hl => ?_) (fun _ _ hf => by cases hf) ?_
    · have hsame := (h.wired.watched self ufd' (hapart.watched self ufd' hw)).1
      rw [huxconn] at hsame
      cases hsame
      exact UxScheduler.rm_unwatched h.wired.sound.listed hrm self hw
    · obtain ⟨u, hu, hother, hid⟩ := hl
      exact ⟨u, hapart.keeps u hu, hother, hid⟩
    · exact fun line _ => ⟨.rm, by simp, hframe, (UxScheduler.rm_worker hrm).1⟩
  | @timeoutDetached self rs hframe huxconn =>
    have hbusy : s.frame.active = some self := by rw [hframe]; rfl
    refine h.detaches hwired (Or.inl (by rw [hframe]; rfl)) rfl
      ⟨fun _ _ hw => hw, fun _ hl => hl, id⟩ (fun hs ufd' hw => ?_) (fun _ other _ id hl => hl)
      (fun _ _ hf => by cases hf) (fun line _ => ⟨.rm, by simp, hframe, rfl⟩)
    exact ((h.armed hs self).active hbusy).2 huxconn
  | @timeoutCancel self rs t hframe ht =>
    obtain rfl : (s.sched.cancel (s.connectors self).timeouttaskId).2 = t := by
      simpa [UxScheduler.act] using UxScheduler.step_act ht
    have hacc := h.wired.sound.accounted
    have hfewer := UxScheduler.fewer_cancel hacc (s.connectors self).timeouttaskId
    refine h.detaches hwired (Or.inr (by rw [hframe]; rfl)) rfl hfewer
      (fun hs ufd' hw => ?_) (fun hs other _ id hl => ?_) (fun _ _ hf => by cases hf)
      (fun line _ => ⟨.cancel, by simp, hframe, UxScheduler.cancel_worker ..⟩)
    · exact (h.armed (hfewer.started hs) self).detached (by rw [hframe]; rfl) ufd'
        (hfewer.watched self ufd' hw)
    · -- the id is that of the task that is running, so no other lies there
      obtain ⟨u, hu, hother, hid⟩ := hl
      have hfits := h.wired.fits
      rw [hframe] at hfits
      obtain ⟨task, hrun, _, _⟩ := hfits
      have htask := (h.armed (hfewer.started hs) self).timeout .cancel hframe (by simp) task hrun
      refine ⟨u, (UxScheduler.live_cancel hacc _ u).mpr ⟨hu, fun hhit => ?_⟩, hother, hid⟩
      exact UxScheduler.not_held hacc hhit.2.1 (by simp [hrun, Worker.hand, Hand.tasks])
        (hhit.2.2.trans htask.symm)
  | @handlingCall self ufd rs hframe =>
    exact h.completes hwired (by rw [hframe]; rfl) rfl
  | @timeoutCall self rs hframe =>
    exact h.completes hwired (by rw [hframe]; rfl) rfl
  | sched hforeign hreturns ht =>
    exact h.sched hwired htimely hforeign (fun hr => (hreturns hr).1) ht

theorem kept_running (delayMs : DelayMs) : (running (UxScheduler.running delayMs)).Kept where
  wired := wired_running delayMs
  safe := ⟨rfl, Attempts.onceEach_nil⟩
  callers _ _ _ hp := nomatch hp
  sole := by
    refine ⟨?_, ?_, ?_⟩
    · rintro t ⟨_, _, ht | ht⟩ <;> cases ht
    · rintro t u ⟨_, _, ht | ht⟩ <;> cases ht
    · rintro self (hd | hd) <;> cases hd
  armed _ self := by
    refine armed_of_inactive (by simp [running, Frame.active]) ?_ (fun hp => nomatch hp)
      (fun _ hp => nomatch hp) (fun hp => nomatch hp)
    intro ufd hwatched
    obtain ⟨e, he, _⟩ := hwatched
    cases he

end Kept

/-- In a run whose callbacks come in time every open is completed once at most, and the
cancel of `uxconnector_connecthandling` always succeeds. -/
theorem opens_complete_once (delayMs : DelayMs) (as : List Act)
    (h : Throughout openStep Timely (running (UxScheduler.running delayMs)) as) :
    Always openStep OnceOnly (running (UxScheduler.running delayMs)) as :=
  always_of_throughout (fun _ _ _ hs _ hp hm => ⟨hs.step hp hm, (hs.step hp hm).safe⟩)
    (kept_running delayMs) (kept_running delayMs).safe h

/-- A connector is opened with a timeout of a second, and its descriptor is writable in the
first round. -/
def connects : List Act :=
  [.create 10 7 8, .openConn 10 5 true, .post 10 (timeMs 0) (DelayMs.ofInt32 1000) 100 none,
    .storeId 10, .addHandler 10 (.thread 0) 500 none, .sched .testExit, .sched .guard,
    .sched .testStarted, .sched (.prepare (timeMs 0)), .sched (.select 1 [] [5]),
    .sched .dispatch, .sched .handle, .callback 0, .callback 0, .callback 0]

theorem connects_once : Always openStep OnceOnly
    (running (UxScheduler.running (DelayMs.ofInt32 1000))) connects := by
  apply opens_complete_once _ _
  repeat' first
    | exact .cons rfl ⟨nofun, fun _ _ _ _ _ => rfl, nofun⟩ trivial
    | refine .cons rfl ⟨nofun, fun _ _ _ _ _ => rfl, nofun⟩ ?_

/-- The timeout of an open is due before the open has added its handler, and the add comes
after the completion. -/
def timesOutEarly : List Act :=
  [.sched (.add (.thread 1) 400 9 AWE_READ 7 0 none), .create 10 7 8, .openConn 10 5 true,
    .post 10 (timeMs 0) (DelayMs.ofInt32 1000) 100 none, .sched .testExit, .sched .guard,
    .sched .testStarted, .sched (.prepare (timeMs 2000000)), .sched (.select 0 [] []),
    .sched (.endRound (timeMs 2000000)), .sched .testTask, .callback 0, .callback 0, .callback 0,
    .sched .procReturn, .storeId 10, .addHandler 10 (.thread 0) 500 none]

/-- The descriptor is writable in the next round. -/
theorem early_timeout_aborts : ∃ s, run openStep
    (running (UxScheduler.running (DelayMs.ofInt32 1000)))
    (timesOutEarly ++ [.sched .testExit, .sched .guard, .sched .testStarted,
      .sched (.prepare (timeMs 2000000)), .sched (.select 1 [] [5]), .sched .dispatch,
      .sched .handle, .callback 0]) = some s ∧ s.aborted = true ∧ ¬ s.OnceOnly :=
  ⟨_, rfl, rfl, fun h => absurd h.alive (by decide)⟩

end Awe.UxCallbacks
