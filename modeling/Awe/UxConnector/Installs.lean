import Awe.OpenPending
import Awe.UxConnector.Steps

namespace Awe
open Machine

/-- The connectors at work on a uxscheduler; by descriptor, the connector through which
the entry in the scheduler's list was installed, if it was a connector; and the connectors
whose event handler a close, takeout or destroy has removed since they installed one. -/
structure UxInstalls where
  calls : UxCallbacks
  owner : Int → Option Ptr
  removed : Ptr → Bool

namespace UxInstalls
open UxScheduler (Caller Waiter listStep registrations Keyed)
open EventMem (Op)

def start (sched : UxScheduler) : UxInstalls :=
  ⟨UxCallbacks.running sched, fun _ => none, fun _ => false⟩

inductive Act where
  | calls (a : UxCallbacks.Act)
  | setEventHandler (self : Ptr) (c : Caller) (addr : Ptr) (ufd : Int) (proc userdata : Ptr)
    (pick : Option Waiter)
  /-- The connection that these connectors hold is closed or opened again. -/
  | reconnect (holders : List Ptr) (ufd : Int)
  /-- Another user's call on the list, or the destruction of the scheduler. -/
  | other (a : UxScheduler.Act)

/-- The descriptors after `awe_connection_close` or `awe_connection_open` of a connection
that the connectors hold. -/
def reconnect (s : UxCallbacks) (holders : List Ptr) (ufd : Int) : UxCallbacks :=
  { s with connectors := fun self =>
      let conn := s.connectors self
      if self ∈ holders then { conn with uxconn := conn.uxconn.map (fun _ => ufd) } else conn }

def setEventHandler (s : UxCallbacks) (self : Ptr) (c : Caller) (addr : Ptr) (ufd : Int)
    (proc userdata : Ptr) (pick : Option Waiter) : Option UxCallbacks :=
  if (s.connectors self).phase = .ready then
    (s.sched.step (.add c addr ufd AWE_READ proc userdata pick)).map (fun sched =>
      { s with sched := sched })
  else none

def onList : UxScheduler.Act → Bool
  | .clear => true
  | a => a.op.isSome

def act (s : UxCallbacks) : Act → Option UxCallbacks
  | .calls a => s.step a
  | .setEventHandler self c addr ufd proc userdata pick =>
    setEventHandler s self c addr ufd proc userdata pick
  | .reconnect holders ufd => some (reconnect s holders ufd)
  | .other a =>
    if onList a then (s.sched.step a).map (fun sched => { s with sched := sched }) else none

def request (s : UxCallbacks) : Act → Option UxScheduler.Act
  | .calls a => s.request a
  | .setEventHandler _ c addr ufd proc userdata pick =>
    some (.add c addr ufd AWE_READ proc userdata pick)
  | .reconnect _ _ => none
  | .other a => some a

def installer : Act → Option Ptr
  | .calls (.addHandler self _ _ _) | .setEventHandler self _ _ _ _ _ _ => some self
  | _ => none

/-- The connector whose event handler an action removes: the first half of its close,
takeout or destroy, also of the close by its own timeout. -/
def remover (s : UxCallbacks) : Act → Option Ptr
  | .calls (.rmEventHandler self _ _) => some self
  | .calls (.callback _) =>
    match s.frame with
    | .connecttimeout self .rm => some self
    | _ => none
  | _ => none

/-- Who has installed the entries after a call by `who` on the list. -/
def ownOp (owner : Int → Option Ptr) (who : Option Ptr) : Op → Int → Option Ptr
  | .add _ ufd conditionSet _ _ =>
    if ufd = 0 then owner
    else Function.update owner ufd (if conditionSet = 0 then none else who)
  | .rm ufd => Function.update owner ufd none
  | .disable _ _ | .enable _ _ => owner

def own (owner : Int → Option Ptr) (who : Option Ptr) : UxScheduler.Act → Int → Option Ptr
  | .clear => fun _ => none
  | a => a.op.elim owner (ownOp owner who)

def step (s : UxInstalls) (a : Act) : Option UxInstalls :=
  (act s.calls a).map (fun calls =>
    { calls := calls
      owner := (request s.calls a).elim s.owner (own s.owner (installer a))
      removed := fun self =>
        if remover s.calls a = some self then true
        else if installer a = some self then false
        else s.removed self })

/-- Once the handler of a connector has been removed, and until it installs another, the
list has no entry that was installed through it. -/
def Deregistered (s : UxInstalls) : Prop :=
  ∀ self, s.removed self = true →
    ∀ e ∈ s.calls.sched.uxeventList, s.owner e.ufd ≠ some self

/-- A removal finds every entry installed through its connector under the descriptor of
the connection that is in its slot. -/
def FindsOwn (s : UxInstalls) (a : Act) : Prop :=
  ∀ self ∈ remover s.calls a,
    ∀ e ∈ s.calls.sched.uxeventList, s.owner e.ufd = some self →
      (s.calls.connectors self).uxconn = some e.ufd

/-- Each entry is in the list once, and who has installed one is known of entries only. -/
structure Listed (s : UxInstalls) : Prop where
  keyed : Keyed s.calls.sched.uxeventList
  owned : ∀ ufd self, s.owner ufd = some self →
    registrations s.calls.sched.uxeventList ufd ≠ none

instance (s : UxInstalls) (a : Act) : Decidable (FindsOwn s a) :=
  inferInstanceAs (Decidable (∀ self ∈ _, ∀ e ∈ _, _ → _))

section Steps

variable {s t : UxInstalls} {a : Act}

/-- A call changes the scheduler by what it asks of it, and by nothing if it asks nothing. -/
theorem request_step {s m : UxCallbacks} {a : Act} (hm : act s a = some m) :
    (request s a = none ∧ m.sched = s.sched) ∨
      ∃ b, request s a = some b ∧ s.sched.step b = some m.sched := by
  cases a with
  | calls a =>
    have hdoes := (UxCallbacks.step_does hm).2
    exact hdoes.requested
  | setEventHandler self c addr ufd proc userdata pick =>
    simp only [act, setEventHandler] at hm
    obtain ⟨_, hm⟩ := Option.ite_none_right_eq_some.mp hm
    obtain ⟨sched, hsched, rfl⟩ := Option.map_eq_some_iff.mp hm
    exact Or.inr ⟨_, rfl, hsched⟩
  | reconnect holders ufd =>
    cases hm
    exact Or.inl ⟨rfl, rfl⟩
  | other a =>
    simp only [act] at hm
    obtain ⟨_, hm⟩ := Option.ite_none_right_eq_some.mp hm
    obtain ⟨sched, hsched, rfl⟩ := Option.map_eq_some_iff.mp hm
    exact Or.inr ⟨_, rfl, hsched⟩

/-- An entry that was not there, or not the connector's, is installed by the call. -/
theorem own_cases {owner : Int → Option Ptr} {who : Option Ptr} {b : UxScheduler.Act} {ufd : Int}
    {self : Ptr} (h : own owner who b ufd = some self) :
    owner ufd = some self ∨ who = some self := by
  have hop : ∀ op, ownOp owner who op ufd = some self →
      owner ufd = some self ∨ who = some self := by
    intro op h
    cases op with
    | add a ufd' conditionSet proc userdata =>
      simp only [ownOp] at h
      split at h
      · exact Or.inl h
      · by_cases hufd : ufd = ufd'
        · rw [hufd, Function.update_self] at h
          obtain ⟨_, h⟩ := Option.ite_none_left_eq_some.mp h
          exact Or.inr h
        · rw [Function.update_of_ne hufd] at h
          exact Or.inl h
    | rm ufd' =>
      by_cases hufd : ufd = ufd'
      · rw [ownOp, hufd, Function.update_self] at h
        cases h
      · rw [ownOp, Function.update_of_ne hufd] at h
        exact Or.inl h
    | disable | enable => exact Or.inl h
  unfold own at h
  split at h
  · cases h
  · cases hb : b.op with
    | none =>
      rw [hb] at h
      exact Or.inl h
    | some op =>
      rw [hb] at h
      exact hop op h

theorem own_eq {owner : Int → Option Ptr} {who : Option Ptr} {b : UxScheduler.Act}
    (hclear : b ≠ .clear) : own owner who b = b.op.elim owner (ownOp owner who) := by
  unfold own
  split
  · exact absurd rfl hclear
  · rfl

theorem setConditions_ne_none {r : Registrations} {ufd ufd' : Int} {f : BitVec 32 → BitVec 32}
    (h : r ufd ≠ none) : r.setConditions ufd' f ufd ≠ none := by
  unfold Registrations.setConditions
  by_cases hufd : ufd = ufd'
  · subst hufd
    simpa using h
  · rwa [Function.update_of_ne hufd]

/-- Only what is in the map is installed by someone. -/
theorem ownOp_listed {owner : Int → Option Ptr} {who : Option Ptr} {r : Registrations} {op : Op}
    (h : ∀ ufd self, owner ufd = some self → r ufd ≠ none) {ufd : Int} {self : Ptr}
    (hself : ownOp owner who op ufd = some self) : r.step op ufd ≠ none := by
  cases op with
  | add a ufd' conditionSet proc userdata =>
    simp only [ownOp] at hself
    simp only [Registrations.step]
    split at hself
    · rename_i hzero
      rw [if_pos hzero]
      exact h ufd self hself
    · rename_i hufd'
      rw [if_neg hufd']
      by_cases hufd : ufd = ufd'
      · rw [hufd, Function.update_self] at hself ⊢
        obtain ⟨hset, hself⟩ := Option.ite_none_left_eq_some.mp hself
        rw [if_neg hset]
        exact Option.some_ne_none _
      · rw [Function.update_of_ne hufd] at hself ⊢
        exact h ufd self hself
  | rm ufd' =>
    simp only [ownOp] at hself
    simp only [Registrations.step]
    by_cases hufd : ufd = ufd'
    · rw [hufd, Function.update_self] at hself
      cases hself
    · rw [Function.update_of_ne hufd] at hself ⊢
      exact h ufd self hself
  | disable ufd' events | enable ufd' events =>
    simp only [Registrations.step]
    exact setConditions_ne_none (h ufd self hself)

theorem own_listed {owner : Int → Option Ptr} {who : Option Ptr} {b : UxScheduler.Act}
    {s t : UxScheduler} (hkeyed : Keyed s.uxeventList)
    (howned : ∀ ufd self, owner ufd = some self → registrations s.uxeventList ufd ≠ none)
    (ht : s.step b = some t) {ufd : Int} {self : Ptr} (h : own owner who b ufd = some self) :
    registrations t.uxeventList ufd ≠ none := by
  by_cases hclear : b = .clear
  · subst hclear
    cases h
  · rw [own_eq hclear] at h
    rw [UxScheduler.step_list ht hclear]
    cases hb : b.op with
    | none =>
      rw [hb] at h
      exact howned ufd self h
    | some op =>
      rw [hb, Option.elim_some] at h
      rw [Option.elim_some, (hkeyed.step op).2]
      exact ownOp_listed howned h

theorem Listed.step (h : Listed s) (ht : step s a = some t) : Listed t := by
  obtain ⟨calls, hcalls, rfl⟩ := Option.map_eq_some_iff.mp ht
  rcases request_step hcalls with ⟨hnone, hsched⟩ | ⟨b, hb, hsched⟩
  · refine ⟨by rw [hsched]; exact h.keyed, fun ufd self hself => ?_⟩
    dsimp only at hself ⊢
    rw [hnone] at hself
    rw [hsched]
    exact h.owned ufd self hself
  · refine ⟨UxScheduler.Keyed.of_step h.keyed hsched, fun ufd self hself => ?_⟩
    dsimp only at hself
    rw [hb] at hself
    exact own_listed h.keyed h.owned hsched hself

/-- What is installed by someone is in the list. -/
theorem Listed.entry (h : Listed s) {ufd : Int} {self : Ptr} (hself : s.owner ufd = some self) :
    ∃ e ∈ s.calls.sched.uxeventList, e.ufd = ufd := by
  have hreg := h.owned ufd self hself
  cases hfind : UxScheduler.find s.calls.sched.uxeventList ufd with
  | none => simp [registrations, hfind] at hreg
  | some e => exact ⟨e, List.mem_of_find?_eq_some hfind, by simpa using List.find?_some hfind⟩

theorem Listed.deregistered_iff (h : Listed s) :
    Deregistered s ↔ ∀ self, s.removed self = true → ∀ ufd, s.owner ufd ≠ some self := by
  constructor
  · intro hs self hremoved ufd howner
    obtain ⟨e, he, rfl⟩ := h.entry howner
    exact hs self hremoved e he howner
  · exact fun hs self hremoved e _ => hs self hremoved e.ufd

/-- The removal asks for the descriptor in the slot, and nothing if there is none. -/
theorem remover_request {s : UxCallbacks} {self : Ptr} (h : remover s a = some self) :
    installer a = none ∧ (request s a = none ∧ (s.connectors self).uxconn = none ∨
      ∃ c ufd, request s a = some (.rm c ufd) ∧ (s.connectors self).uxconn = some ufd) := by
  have hslot : ∀ c : Caller, (s.connectors self).uxconn.map (UxScheduler.Act.rm c ·) = none ∧
      (s.connectors self).uxconn = none ∨
        ∃ c' ufd, (s.connectors self).uxconn.map (UxScheduler.Act.rm c ·) = some (.rm c' ufd) ∧
          (s.connectors self).uxconn = some ufd := by
    intro c
    cases huxconn : (s.connectors self).uxconn with
    | none => exact Or.inl ⟨rfl, rfl⟩
    | some ufd => exact Or.inr ⟨c, ufd, rfl, rfl⟩
  unfold remover at h
  split at h
  · cases h
    exact ⟨rfl, hslot _⟩
  · split at h
    · rename_i hframe
      cases h
      refine ⟨rfl, ?_⟩
      simp only [request, UxCallbacks.request, hframe]
      exact hslot .worker
    · cases h
  · cases h

theorem deregistered_step_iff (h : Listed s) (hs : Deregistered s) (ht : step s a = some t) :
    Deregistered t ↔ FindsOwn s a := by
  rw [(h.step ht).deregistered_iff]
  rw [h.deregistered_iff] at hs
  obtain ⟨calls, hcalls, rfl⟩ := Option.map_eq_some_iff.mp ht
  cases hrem : remover s.calls a with
  | none =>
    refine iff_of_true (fun self hremoved ufd howner => ?_) (fun self hself => ?_)
    · dsimp only at hremoved howner
      rw [if_neg (by simp)] at hremoved
      split at hremoved
      · cases hremoved
      · rename_i hinstaller
        cases hreq : request s.calls a with
        | none =>
          rw [hreq] at howner
          exact hs self hremoved ufd howner
        | some b =>
          rw [hreq] at howner
          rcases own_cases howner with howner | hself
          · exact hs self hremoved ufd howner
          · exact hinstaller hself
    · rw [hrem] at hself
      cases hself
  | some self =>
    obtain ⟨hinstaller, hreq⟩ := remover_request hrem
    -- what the removal leaves of the connector's entries is not under the descriptor in its slot
    have hleft : ∀ ufd x, ((request s.calls a).elim s.owner (own s.owner (installer a))) ufd =
        some x ↔ s.owner ufd = some x ∧ (s.calls.connectors self).uxconn ≠ some ufd := by
      intro ufd x
      rcases hreq with ⟨hreq, huxconn⟩ | ⟨c, ufd', hreq, huxconn⟩
      · simp [hreq, huxconn]
      · rw [hreq, huxconn]
        by_cases hufd : ufd = ufd'
        · simp [own, ownOp, UxScheduler.Act.op, hufd]
        · simp [own, ownOp, UxScheduler.Act.op, hufd, Ne.symm hufd]
    constructor
    · intro hgone x hx e he howner
      rw [hrem] at hx
      cases hx
      by_contra hslot
      exact hgone self (by simp) e.ufd ((hleft e.ufd self).mpr ⟨howner, hslot⟩)
    · intro hfinds x hremoved ufd howner
      obtain ⟨howner, hslot⟩ := (hleft ufd x).mp howner
      by_cases hx : self = x
      · subst hx
        obtain ⟨e, he, rfl⟩ := h.entry howner
        exact hslot (hfinds self hrem e he howner)
      · have hold : s.removed x = true := by simpa [hrem, hx, hinstaller] using hremoved
        exact hs x hold ufd howner

end Steps

/-- Deregistration is complete in every run exactly if each removal finds all that was
installed through its connector under the descriptor it looks for. -/
theorem deregistration_complete_iff {before : List UxScheduler.Act} {sched : UxScheduler}
    (h : run UxScheduler.step UxScheduler.create before = some sched) (as : List Act) :
    Always step Deregistered (start sched) as ↔ Throughout step FindsOwn (start sched) as := by
  have hlisted : Listed (start sched) := ⟨UxScheduler.keyed_of_run h, nofun⟩
  have hkeep : ∀ s a t, Listed s → Deregistered s → FindsOwn s a → step s a = some t → Listed t :=
    fun _ _ _ hs _ _ ht => hs.step ht
  have hexact : ∀ s a t, Listed s → Deregistered s → step s a = some t →
      (Deregistered t ↔ FindsOwn s a) := fun _ _ _ hs hq ht => deregistered_step_iff hs hq ht
  exact always_iff_throughout hkeep hexact hlisted nofun as

/-- Connector 10 is opened on descriptor 5, gets an event handler and is taken out. -/
theorem takeout_complete : Always step Deregistered (start UxScheduler.create)
    [.calls (.create 10 7 70), .calls (.openConn 10 5 true),
      .calls (.post 10 (timeMs 0) (DelayMs.ofInt32 1000) 100 none), .calls (.storeId 10),
      .calls (.addHandler 10 (.thread 0) 500 none), .setEventHandler 10 (.thread 0) 501 5 8 70 none,
      .calls (.rmEventHandler 10 (.thread 0) .takeout), .calls (.cancelTimeout 10)] := by
  apply (@deregistration_complete_iff [] _ rfl _).mpr
  decide

/-- The connection of connector 10 is closed under it: the close looks for descriptor -1 and
returns, and the event handler for descriptor 5 stays. -/
theorem closed_under_connector : ∃ t, run step (start (UxScheduler.running (DelayMs.ofInt32 0)))
    [.calls (.create 10 7 70), .calls (.open2 10 5),
      .setEventHandler 10 (.thread 0) 500 5 8 70 none, .reconnect [10] (-1),
      .calls (.rmEventHandler 10 (.thread 0) .close), .calls (.cancelTimeout 10)] = some t ∧
    (t.calls.connectors 10).phase = .ready ∧ ¬ Deregistered t := by
  refine ⟨_, rfl, rfl, fun h => ?_⟩
  exact h 10 rfl ⟨500, 5, AWE_READ, 8, 70⟩ (by decide) rfl

end UxInstalls

end Awe
