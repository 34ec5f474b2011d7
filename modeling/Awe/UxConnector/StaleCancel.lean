import Awe.UxConnector.Model
import Awe.UxScheduler.Refinement

namespace Awe.UxClients
open Machine UxConnector

/-- The scheduler's books balance, and every connector's `_timeouttask_id` is the id
that its own post, and no other connector's, returned. -/
structure Wired (s : UxClients) : Prop where
  owned : s.sched.OneWorker
  accounted : s.sched.ledger.Accounted
  issued : ∀ self k, (s.connectors self).ticket = some k →
    ∃ p, s.sched.posted[k]? = some p ∧ p.id = (s.connectors self).timeouttaskId
  unissued : ∀ self, (s.connectors self).ticket = none → (s.connectors self).timeouttaskId = NULL
  apart : ∀ self other k, (s.connectors self).ticket = some k →
    (s.connectors other).ticket = some k → self = other

theorem wired_create : create.Wired where
  owned := UxScheduler.oneWorker_create
  accounted := Ledger.accounted_empty
  issued := by simp [create, UxConnector.create]
  unissued := by simp [create, UxConnector.create]
  apart := by simp [create, UxConnector.create]

def SameIds (s t : UxClients) : Prop :=
  ∀ self, (t.connectors self).ticket = (s.connectors self).ticket ∧
    (t.connectors self).timeouttaskId = (s.connectors self).timeouttaskId

theorem sameIds_setConnector {s : UxClients} {sched : UxScheduler} {self : Ptr}
    {conn : UxConnector} (ht : conn.ticket = (s.connectors self).ticket)
    (hi : conn.timeouttaskId = (s.connectors self).timeouttaskId) :
    s.SameIds ({ s with sched := sched }.setConnector self conn) := by
  intro other
  by_cases he : other = self
  · subst he
    simp [setConnector, ht, hi]
  · simp [setConnector, he]

@[simp] theorem finish_ticket (conn : UxConnector) (after : After) :
    (conn.finish after).ticket = conn.ticket := by
  cases after <;> rfl

@[simp] theorem finish_timeouttaskId (conn : UxConnector) (after : After) :
    (conn.finish after).timeouttaskId = conn.timeouttaskId := by
  cases after <;> rfl

theorem sched_keeps {s t : UxScheduler} {a : UxScheduler.Act} (h : s.OneWorker)
    (hacc : s.ledger.Accounted) (ht : s.step a = some t) :
    t.OneWorker ∧ t.ledger.Accounted ∧ s.posted <+: t.posted := by
  refine ⟨h.step ht, ?_⟩
  rcases UxScheduler.step_ledger h ht with he | ⟨op, hop⟩
  · have hp : t.posted = s.posted := congrArg Ledger.posted he
    exact ⟨he ▸ hacc, hp ▸ List.prefix_rfl⟩
  · exact ⟨hacc.step hop, Ledger.step_posted hop⟩

theorem Wired.mono {s t : UxClients} (h : s.Wired) (howned : t.sched.OneWorker)
    (hacc : t.sched.ledger.Accounted) (hposted : s.sched.posted <+: t.sched.posted)
    (hids : s.SameIds t) : t.Wired where
  owned := howned
  accounted := hacc
  issued self k hk := by
    obtain ⟨p, hp, hid⟩ := h.issued self k ((hids self).1 ▸ hk)
    obtain ⟨rest, hrest⟩ := hposted
    have hlt := (List.getElem?_eq_some_iff.mp hp).1
    refine ⟨p, ?_, hid.trans (hids self).2.symm⟩
    rw [← hrest, List.getElem?_append_left hlt]
    exact hp
  unissued self hk := (hids self).2.trans (h.unissued self ((hids self).1 ▸ hk))
  apart self other k hs ho := h.apart self other k ((hids self).1 ▸ hs) ((hids other).1 ▸ ho)

theorem Wired.sched {s : UxClients} {a : UxScheduler.Act} {u : UxScheduler} (h : s.Wired)
    (hu : s.sched.step a = some u) {t : UxClients} (ht : t.sched = u) (hids : s.SameIds t) :
    t.Wired := by
  obtain ⟨howned, hacc, hposted⟩ := sched_keeps h.owned h.accounted hu
  subst ht
  exact h.mono howned hacc hposted hids

theorem Wired.setConnector {s : UxClients} (h : s.Wired) {self : Ptr} {conn : UxConnector}
    (ht : conn.ticket = (s.connectors self).ticket)
    (hi : conn.timeouttaskId = (s.connectors self).timeouttaskId) :
    (s.setConnector self conn).Wired :=
  h.mono h.owned h.accounted List.prefix_rfl (sameIds_setConnector ht hi)

/-- The post of a timeout gives the connector an id and a ticket nobody has. -/
theorem Wired.setTimeout {s t : UxClients} {self : Ptr} {now : ClockMs} {timeout : DelayMs}
    {id : Ptr} {pick : Option UxScheduler.Waiter} (h : s.Wired)
    (ht : s.setTimeout self now timeout id pick = some t) : t.Wired := by
  unfold UxClients.setTimeout at ht
  dsimp only at ht
  obtain ⟨_, ht⟩ := Option.ite_none_right_eq_some.mp ht
  obtain ⟨u, hu, rfl⟩ := Option.map_eq_some_iff.mp ht
  obtain ⟨howned, hacc, hposted⟩ := sched_keeps h.owned h.accounted hu
  have hold : ({ s with sched := u } : UxClients).Wired :=
    h.mono howned hacc hposted (fun _ => ⟨rfl, rfl⟩)
  rcases UxScheduler.post_cases (UxScheduler.step_act hu) with
    ⟨hst, rfl⟩ | ⟨cond, hst, _, _, _, rfl⟩
  · refine ⟨hold.owned, hold.accounted, ?_, ?_, ?_⟩ <;> intro other <;>
      by_cases he : other = self
    · simp [UxClients.setConnector, he, hst]
    · simpa [UxClients.setConnector, he] using hold.issued other
    · simp [UxClients.setConnector, he, hst]
    · simpa [UxClients.setConnector, he] using hold.unissued other
    · simp [UxClients.setConnector, he, hst]
    · intro b k hk hb
      by_cases heb : b = self
      · simp [UxClients.setConnector, heb, hst] at hb
      · exact hold.apart other b k (by simpa [UxClients.setConnector, he] using hk)
          (by simpa [UxClients.setConnector, heb] using hb)
  · have hlt : ∀ other k, (s.connectors other).ticket = some k → k < s.sched.posted.length := by
      intro other k hk
      obtain ⟨p, hp, _⟩ := h.issued other k hk
      exact (List.getElem?_eq_some_iff.mp hp).1
    refine ⟨hold.owned, hold.accounted, ?_, ?_, ?_⟩ <;> intro other <;>
      by_cases he : other = self
    · simp [UxClients.setConnector, he, hst, Post.task]
    · simpa [UxClients.setConnector, he] using hold.issued other
    · simp [UxClients.setConnector, he, hst]
    · simpa [UxClients.setConnector, he] using hold.unissued other
    · intro b k hk hb
      by_cases heb : b = self
      · exact he.trans heb.symm
      · simp only [UxClients.setConnector, he, hst, Function.update_self, if_true,
          Option.some.injEq] at hk
        have := hlt b k (by simpa [UxClients.setConnector, heb] using hb)
        omega
    · intro b k hk hb
      have hk : (s.connectors other).ticket = some k := by
        simpa [UxClients.setConnector, he] using hk
      by_cases heb : b = self
      · simp only [UxClients.setConnector, heb, hst, Function.update_self, if_true,
          Option.some.injEq] at hb
        have := hlt other k hk
        omega
      · exact hold.apart other b k hk (by simpa [UxClients.setConnector, heb] using hb)

theorem Wired.step {s t : UxClients} {a : Act} (h : s.Wired) (ht : s.step a = some t) :
    t.Wired := by
  cases a with
  | setTimeout self now timeout id pick => exact h.setTimeout ht
  | openConn self ufd ok | open2 self ufd =>
    simp only [UxClients.step, openConn, open2] at ht
    obtain ⟨_, ht⟩ := Option.ite_none_right_eq_some.mp ht
    cases ht
    exact h.setConnector rfl rfl
  | addHandler self c addr pick =>
    simp only [UxClients.step, addHandler] at ht
    split at ht
    · obtain ⟨u, hu, rfl⟩ := Option.map_eq_some_iff.mp ht
      exact h.sched hu rfl (sameIds_setConnector rfl rfl)
    · cases ht
  | rmEventHandler self c after =>
    simp only [UxClients.step, rmEventHandler] at ht
    obtain ⟨_, ht⟩ := Option.ite_none_right_eq_some.mp ht
    split at ht
    · cases ht
      exact h.setConnector (by simp) (by simp)
    · obtain ⟨u, hu, rfl⟩ := Option.map_eq_some_iff.mp ht
      exact h.sched hu rfl (sameIds_setConnector rfl rfl)
  | cancelTimeout self =>
    simp only [UxClients.step, cancelTimeout] at ht
    split at ht
    · split at ht
      · obtain ⟨u, hu, rfl⟩ := Option.map_eq_some_iff.mp ht
        exact h.sched hu rfl (sameIds_setConnector (by simp) (by simp))
      · cases ht
    · cases ht
  | connecthandling self =>
    simp only [UxClients.step, connecthandling] at ht
    obtain ⟨_, ht⟩ := Option.ite_none_right_eq_some.mp ht
    obtain ⟨u, hu, rfl⟩ := Option.map_eq_some_iff.mp ht
    exact h.sched hu rfl (fun _ => ⟨rfl, rfl⟩)
  | cancel k =>
    simp only [UxClients.step] at ht
    obtain ⟨_, ht⟩ := Option.ite_none_right_eq_some.mp ht
    obtain ⟨u, hu, rfl⟩ := Option.map_eq_some_iff.mp ht
    exact h.sched hu rfl (fun _ => ⟨rfl, rfl⟩)
  | sched a =>
    simp only [UxClients.step, schedStep] at ht
    split at ht
    · cases ht
    · obtain ⟨u, hu, rfl⟩ := Option.map_eq_some_iff.mp ht
      exact h.sched hu rfl (fun _ => ⟨rfl, rfl⟩)

theorem cancel_not_started {s : UxScheduler} (h : s.started = false) (id : Ptr) :
    s.cancel id = (-1, s) := by
  simp [UxScheduler.cancel, h]

theorem cancel_started {s : UxScheduler} (h : s.started = true) (id : Ptr) :
    s.cancel id = ((s.taskList.cancel id).1, { s with taskList := (s.taskList.cancel id).2 }) := by
  simp [UxScheduler.cancel, h]

/-- A cancel fails and changes nothing exactly when no pending task lies at the id. -/
theorem cancel_harmless_iff (s : UxScheduler) (id : Ptr) :
    ((s.cancel id).1 ≠ AWE_OK ∧ (s.cancel id).2 = s) ↔
      (s.started → ∀ t ∈ s.taskList, t.id ≠ id) := by
  cases hst : s.started with
  | false => simp [cancel_not_started hst, AWE_OK]
  | true =>
    rw [cancel_started hst]
    constructor
    · rintro ⟨hfail, _⟩ _
      exact (TimerTaskList.cancel_fail hfail).2
    · intro hnone
      have hfail : (s.taskList.cancel id).1 ≠ AWE_OK := by
        intro hok
        obtain ⟨t, ht, hid⟩ := TimerTaskList.cancel_ok_iff.mp hok
        exact hnone rfl t ht hid
      refine ⟨hfail, ?_⟩
      rw [(TimerTaskList.cancel_fail hfail).1]

/-- A pending task comes through a cancel unless it lies at the id and is valid. -/
theorem survives_iff {s : UxScheduler} (hacc : s.ledger.Accounted) {id : Ptr} {t : TimerTask}
    (ht : t ∈ s.taskList) : t ∈ (s.cancel id).2.taskList ↔
      ¬ (s.started = true ∧ t.id = id ∧ t.state = .valid) := by
  have hn : (s.taskList.map TimerTask.id).Nodup := by
    have hd := hacc.distinct
    simp only [Ledger.allocated, List.map_append] at hd
    exact (List.nodup_append'.mp hd).1
  cases hst : s.started with
  | false => simp [cancel_not_started hst, ht]
  | true =>
    rw [cancel_started hst]
    simpa using TimerTaskList.mem_cancel_iff hn ht

def Executed (s : UxClients) (k : Nat) : Prop :=
  k ∈ s.sched.invoked.map TimerTask.ticket ∧ k ∈ s.sched.destroyed

/-- What every cancel should be: with the id of a task that is gone it fails and
changes nothing, and made for a connector it leaves the timeouts of the others alone. -/
structure Harmless (s : UxClients) (a : Act) : Prop where
  stale : ∀ k, s.holder a = some k → s.Executed k →
    (s.sched.cancel (s.cancelId a)).1 ≠ AWE_OK ∧ (s.sched.cancel (s.cancelId a)).2 = s.sched
  others : ∀ self, a = .cancelTimeout self → ∀ other t, other ≠ self →
    (s.connectors other).ticket = some t.ticket → t ∈ s.sched.taskList →
    t ∈ (s.sched.cancel (s.cancelId a)).2.taskList

/-- No pending task lies at the address of the task that a stale cancel was meant for. -/
structure NoReuse (s : UxClients) (a : Act) : Prop where
  stale : ∀ k, s.holder a = some k → s.Executed k → s.sched.started →
    ∀ t ∈ s.sched.taskList, t.id ≠ s.cancelId a
  others : ∀ self k, a = .cancelTimeout self → (s.connectors self).ticket = some k →
    k ∈ s.sched.destroyed → s.sched.started → ∀ other t, other ≠ self →
    (s.connectors other).ticket = some t.ticket → t ∈ s.sched.taskList → t.state = .valid →
    t.id ≠ (s.connectors self).timeouttaskId

/-- Another connector's pending timeout at a connector's own stored address means
that the connector's task is gone. -/
theorem Wired.destroyed_of_shared {s : UxClients} (h : s.Wired) {self other : Ptr}
    {t : TimerTask} (hne : other ≠ self) (hticket : (s.connectors other).ticket = some t.ticket)
    (ht : t ∈ s.sched.taskList) (hid : t.id = (s.connectors self).timeouttaskId) :
    ∃ k, (s.connectors self).ticket = some k ∧ k ∈ s.sched.destroyed := by
  have hpending : t ∈ s.sched.ledger.pending := ht
  obtain ⟨q, hq, hsame⟩ := h.accounted.origin t (by simp [hpending])
  cases hself : (s.connectors self).ticket with
  | none =>
    have hnull : t.id ≠ NULL := hsame.1 ▸ h.accounted.nonNull q (List.mem_of_getElem? hq)
    exact absurd (hid.trans (h.unissued self hself)) hnull
  | some k =>
    refine ⟨k, rfl, ?_⟩
    obtain ⟨p, hp, hpid⟩ := h.issued self k hself
    have hlt : k < s.sched.ledger.posted.length := (List.getElem?_eq_some_iff.mp hp).1
    -- a task of ticket `k` that is still allocated would share its address with `t`
    have hgone : ∀ u ∈ s.sched.ledger.allocated, u.ticket ≠ k := by
      intro u hu huk
      have huo : u ∈ s.sched.ledger.pending ++ s.sched.ledger.hand.tasks ++
          s.sched.ledger.invoked := List.mem_append_left _ hu
      obtain ⟨v, hv, hsamev⟩ := h.accounted.origin u huo
      rw [huk] at hv
      have hvp : v = p := Option.some.inj (hv.symm.trans hp)
      have hshare : u.id = t.id := by rw [hsamev.1, hvp, hpid, hid]
      have hut : u = t := List.inj_on_of_nodup_map h.accounted.distinct hu
        (List.mem_append_left _ hpending) hshare
      exact hne (h.apart other self k (by rw [hticket, ← hut, huk]) hself)
    have hone := h.accounted.count_one hlt
    have hnotin : ∀ l : List TimerTask, (∀ u ∈ l, u ∈ s.sched.ledger.allocated) →
        (l.map TimerTask.ticket).count k = 0 := by
      intro l hl
      apply List.count_eq_zero.mpr
      intro hm
      obtain ⟨u, hu, huk⟩ := List.mem_map.mp hm
      exact hgone u (hl u hu) huk
    rw [hnotin _ (fun u hu => List.mem_append_left _ hu),
      hnotin _ (fun u hu => List.mem_append_right _ hu)] at hone
    exact List.count_pos_iff.mp (show 0 < s.sched.destroyed.count k by
      simp only [UxScheduler.ledger] at hone
      omega)

theorem harmless_iff {s : UxClients} (h : s.Wired) (a : Act) : s.Harmless a ↔ s.NoReuse a := by
  constructor
  · rintro ⟨hstale, hothers⟩
    refine ⟨fun k hk hex => (cancel_harmless_iff _ _).mp (hstale k hk hex), ?_⟩
    rintro self k rfl hk hgone hst other t hne hticket ht hvalid hid
    exact (survives_iff h.accounted ht).mp (hothers self rfl other t hne hticket ht)
      ⟨hst, hid, hvalid⟩
  · rintro ⟨hstale, hothers⟩
    refine ⟨fun k hk hex => (cancel_harmless_iff _ _).mpr (hstale k hk hex), ?_⟩
    rintro self rfl other t hne hticket ht
    apply (survives_iff h.accounted ht).mpr
    rintro ⟨hst, hid, hvalid⟩
    obtain ⟨k, hk, hgone⟩ := h.destroyed_of_shared hne hticket ht hid
    exact hothers self k rfl hk hgone hst other t hne hticket ht hvalid hid

/-- In every run the cancels are harmless exactly as long as no stale cancel meets a
pending task at the address it stands for. -/
theorem cancels_harmless_iff (as : List Act) :
    Throughout step Harmless create as ↔ Throughout step NoReuse create as :=
  throughout_congr (fun _ _ _ h ht => Wired.step h ht) (fun _ a _ h _ => harmless_iff h a)
    wired_create as

/-- The timeout of connector 10 fires and is destroyed, and that of connector 20 comes
to lie at the same address. -/
def reusedAddress : List Act :=
  [.sched (.start (DelayMs.ofInt32 0)), .sched .startStore, .sched .startStore,
    .openConn 10 5 true,
    .setTimeout 10 (timeMs 0) (DelayMs.ofInt32 1000) 100 none,
    .addHandler 10 (.thread 0) 500 none,
    .sched .testExit, .sched .guard, .sched .testStarted,
    .sched (.prepare (timeMs 2000000)), .sched (.select 0 [] []),
    .sched (.endRound (timeMs 2000000)), .sched .testTask,
    .rmEventHandler 10 .worker .close, .cancelTimeout 10, .sched .procReturn,
    .openConn 20 6 true,
    .setTimeout 20 (timeMs 3000000) (DelayMs.ofInt32 1000) 100 none,
    .addHandler 20 (.thread 0) 600 none, .rmEventHandler 10 (.thread 0) .destroy]

/-- Destroying connector 10 then cancels the timeout of connector 20. -/
theorem destroy_cancels_other :
    ¬ Throughout step Harmless create (reusedAddress ++ [.cancelTimeout 10]) := by
  intro h
  have hbad := h.at_step (t := (run step create reusedAddress).get (by decide)) rfl rfl
  exact (hbad.stale 0 rfl ⟨by decide, by decide⟩).1 rfl

end Awe.UxClients
