import Awe.Connector.Model
import Awe.Ledger.Cancel
import Awe.Scheduler.Stop
import Awe.UxConnector.Model
import Awe.UxScheduler.Registrations

namespace Awe
open Machine

namespace ConnectorLoop
open Connector

/-- The write watch of the connector `c` is registered and active. -/
def WriteWatched (s : ConnectorLoop) (c : Ptr) (fd : Int) : Prop :=
  ∃ k refs w, s.connectors c = some k ∧ k.conntoken ∈ s.sched.evioList ∧
    s.sched.heap.get? k.conntoken =
      some ⟨refs, .io ⟨fd, AWE_WRITE, .user connecthandlingProc, c⟩⟩ ∧
    s.sched.heap.handle? k.conntoken = some w ∧ w ∈ s.sched.ioActive

/-- The timeout task of the connector `c` is registered and active. -/
def TimeoutSet (s : ConnectorLoop) (c : Ptr) : Prop :=
  ∃ k refs ms w, s.connectors c = some k ∧ k.timeouttoken ∈ s.sched.evtimerList ∧
    s.sched.heap.get? k.timeouttoken =
      some ⟨refs, .timer ⟨.nonperiodic, ms, connecttimeoutProc, c, 0⟩⟩ ∧
    s.sched.heap.handle? k.timeouttoken = some w ∧ w ∈ s.sched.timerActive

theorem alloc_some {ρ : Type} {s t : ConnectorLoop} {a : Ptr} {r : Option (ρ × Scheduler)}
    {x : ρ} (ht : s.alloc a r = some (x, t)) :
    ∃ sched, r = some (x, sched) ∧ t.sched = sched ∧ t.connectors = s.connectors := by
  unfold alloc at ht
  split at ht
  · cases ht
  · obtain ⟨⟨y, sched⟩, hr, he⟩ := Option.map_eq_some_iff.mp ht
    cases he
    exact ⟨sched, hr, rfl, rfl⟩

/-- A successful open has both tokens from the scheduler, or NULL for both. -/
theorem openConn_ok {s t : ConnectorLoop} {c conn : Ptr} {rs : Int} {timeout : BitVec 32}
    {fd : Int} {timer io : Ptr}
    (ht : s.openConn c conn rs timeout fd timer io = some (AWE_OK, t)) :
    ∃ k ms timeouttoken conntoken u v, s.sched.timertask timer
        ⟨.nonperiodic, ms, connecttimeoutProc, c, 0⟩ = some (timeouttoken, u) ∧
      u.watch io ⟨fd, AWE_WRITE, .user connecthandlingProc, c⟩ = some (conntoken, v) ∧
      t.sched = v ∧ t.connectors c = some k ∧ k.conntoken = conntoken ∧
      k.timeouttoken = timeouttoken := by
  unfold openConn at ht
  split at ht
  · cases ht
  · rename_i k _
    split at ht
    · cases ht
    · split at ht
      · simp only [Option.bind_eq_bind] at ht
        obtain ⟨⟨timeouttoken, s₁⟩, htimer, ht⟩ := Option.bind_eq_some_iff.mp ht
        obtain ⟨⟨conntoken, s₂⟩, hio, ht⟩ := Option.bind_eq_some_iff.mp ht
        cases ht
        obtain ⟨u, hu, hsched, _⟩ := alloc_some htimer
        obtain ⟨v, hv, hsched', _⟩ := alloc_some hio
        rw [hsched] at hv
        exact ⟨_, _, _, _, u, v, hu, hv, hsched', Function.update_self .., rfl, rfl⟩
      · cases ht

/-- Both registrations are made exactly if the scheduler is started; they are refused
together, and the open goes on regardless. -/
theorem openConn_registers_iff {s t : ConnectorLoop} {c conn : Ptr} {rs : Int}
    {timeout : BitVec 32} {fd : Int} {timer io : Ptr} (hk : s.sched.Kept)
    (ht : s.openConn c conn rs timeout fd timer io = some (AWE_OK, t)) :
    (t.WriteWatched c fd ↔ s.sched.started = true) ∧
      (t.TimeoutSet c ↔ s.sched.started = true) := by
  obtain ⟨k, ms, timeouttoken, conntoken, u, v, hu, hv, hsched, hk', hio, htimer⟩ :=
    openConn_ok ht
  rcases Scheduler.timertask_cases hu with ⟨hoff, _, rfl⟩ | ⟨hon, rfl, _, heap, halloc, rfl⟩
  · rcases Scheduler.watch_cases hv with ⟨_, _, rfl⟩ | ⟨hon, _⟩
    · obtain ⟨hevio, hevtimer⟩ := hk.stopped hoff
      constructor
      · refine iff_of_false ?_ (by simp [hoff])
        rintro ⟨_, _, _, _, hin, _⟩
        rw [hsched, hevio] at hin
        cases hin
      · refine iff_of_false ?_ (by simp [hoff])
        rintro ⟨_, _, _, _, _, hin, _⟩
        rw [hsched, hevtimer] at hin
        cases hin
    · simp [hoff] at hon
  · rcases Scheduler.watch_cases hv with ⟨hoff, _⟩ | ⟨_, rfl, _, heap', halloc', rfl⟩
    · simp [hon] at hoff
    · have hget := Heap.get?_alloc halloc timeouttoken
      rw [if_pos rfl] at hget
      have hne : timeouttoken ≠ conntoken := by
        intro he
        have hfree := Heap.alloc_free_before halloc'
        rw [← he] at hfree
        cases hfree.symm.trans hget
      refine ⟨iff_of_true ⟨k, 1, ⟨conntoken, heap.next⟩, hk', ?_⟩ hon,
        iff_of_true ⟨k, 1, ms, ⟨timeouttoken, s.sched.heap.next⟩, hk', ?_⟩ hon⟩
      · rw [hio, hsched]
        dsimp only
        rw [Heap.get?_alloc halloc', Heap.handle?_alloc halloc', if_pos rfl, if_pos rfl]
        exact ⟨by simp, rfl, rfl, by simp⟩
      · rw [htimer, hsched]
        dsimp only
        rw [Heap.get?_alloc halloc', Heap.handle?_alloc halloc', if_neg hne, if_neg hne, hget,
          Heap.handle?_alloc halloc, if_pos rfl]
        exact ⟨by simp, rfl, rfl, by simp⟩

end ConnectorLoop

namespace UxScheduler
open UxConnector (connecthandlingProc timeoutPost)

/-- The task of the `k`-th post is cancelled by its id, or the scheduler is destroyed
around it. -/
def Withdraws (s : UxScheduler) (k : Nat) : Act → Prop
  | .cancel id => s.started = true ∧
    ∃ t ∈ s.taskList, t.ticket = k ∧ t.id = id ∧ t.state = .valid
  | .clear => ∃ t ∈ s.taskList, t.ticket = k ∧ t.state = .valid
  | _ => False

/-- The books of the scheduler, once the `k`-th post is in them. -/
structure Serves (k : Nat) (s : UxScheduler) : Prop where
  owned : s.OneWorker
  accounted : s.ledger.Accounted
  recorded : s.ledger.Recorded
  posted : ∃ p, s.posted[k]? = some p ∧ p.proc ≠ NULL

section Serves

variable {k : Nat} {s t : UxScheduler} {a : Act}

theorem Serves.lt (h : s.Serves k) : k < s.ledger.posted.length := by
  obtain ⟨p, hp, _⟩ := h.posted
  exact (List.getElem?_eq_some_iff.mp hp).1

theorem Serves.step (h : s.Serves k) (ht : s.step a = some t) : t.Serves k := by
  rcases step_ledger h.owned ht with he | ⟨op, hop⟩
  · refine ⟨h.owned.step ht, he ▸ h.accounted, he ▸ h.recorded, ?_⟩
    have hposted : t.posted = s.posted := congrArg Ledger.posted he
    rw [hposted]
    exact h.posted
  · refine ⟨h.owned.step ht, h.accounted.step hop, h.recorded.step hop, ?_⟩
    obtain ⟨p, hp, hproc⟩ := h.posted
    obtain ⟨rest, hrest⟩ := Ledger.step_posted hop
    have hposted : s.posted ++ rest = t.posted := hrest
    refine ⟨p, ?_, hproc⟩
    rw [← hposted, List.getElem?_append_left (List.getElem?_eq_some_iff.mp hp).1]
    exact hp

/-- The worker runs the procedure of a task that is still valid. -/
theorem Serves.not_drops (h : s.Serves k) (hkeep : ¬ s.Withdraws k a) {op : Ledger.Op}
    (hop : s.Books a op) : ¬ Ledger.Drops k s.ledger op := by
  intro hdrop
  cases hop with
  | post | pop | invoke => exact hdrop
  | cancel on id => exact hkeep ⟨on, hdrop⟩
  | clear => exact hkeep hdrop
  | skip task taken unfit =>
    obtain ⟨u, hu, huk, hvalid⟩ := hdrop
    have hhand : s.ledger.hand = .fetched task := by simp [ledger, taken, Worker.hand]
    cases hhand.symm.trans hu
    obtain ⟨p, hp, hproc⟩ := h.posted
    obtain ⟨q, hq, hsame⟩ := h.accounted.origin task (by simp [hhand, Hand.tasks])
    rw [huk] at hq
    cases hq.symm.trans hp
    exact unfit ⟨hsame.2.2.2.1 ▸ hproc, hvalid⟩
  | done task ran =>
    obtain ⟨u, hu, _⟩ := hdrop
    have hhand : s.ledger.hand = .running task := by simp [ledger, ran, Worker.hand]
    cases hhand.symm.trans hu

theorem Serves.cancelled (h : s.Serves k) (hdrop : s.Withdraws k a) (ht : s.step a = some t) :
    Ledger.Cancelled k t.ledger := by
  cases a with
  | cancel id =>
    obtain ⟨hon, htask⟩ := hdrop
    cases step_act ht
    have hcancel : s.ledger.step (.cancel id) = some (s.cancel id).2.ledger := by
      simp [Ledger.step, UxScheduler.cancel, hon, ledger]
    have hdrops : Ledger.Drops k s.ledger (.cancel id) := htask
    exact h.accounted.cancelled_of_drops hdrops hcancel
  | clear =>
    cases step_act ht
    have hdrops : Ledger.Drops k s.ledger .clear := hdrop
    exact h.accounted.cancelled_of_drops hdrops rfl
  | _ => cases hdrop

/-- A task stays due exactly as long as nobody withdraws it. -/
theorem Serves.due_iff (h : s.Serves k) {as : List Act} (hdue : Ledger.Due k s.ledger)
    (hr : run UxScheduler.step s as = some t) :
    Ledger.Due k t.ledger ↔ Throughout UxScheduler.step (fun s a => ¬ s.Withdraws k a) s as := by
  induction as generalizing s with
  | nil =>
    cases hr
    exact iff_of_true hdue trivial
  | cons a as ih =>
    obtain ⟨m, hm, hr⟩ := run_cons.mp hr
    have hms := h.step hm
    by_cases hw : s.Withdraws k a
    · refine iff_of_false (fun hd => ?_) (fun hth => (hth m hm).1 hw)
      -- a withdrawn task stays withdrawn, whatever the rest of the run does
      have keep : ∀ (x : UxScheduler) (b : Act) (y : UxScheduler),
          x.Serves k ∧ Ledger.Cancelled k x.ledger → x.step b = some y →
          y.Serves k ∧ Ledger.Cancelled k y.ledger := by
        intro x b y hx hy
        refine ⟨hx.1.step hy, ?_⟩
        rcases step_ledger hx.1.owned hy with he | ⟨op, hop⟩
        · exact he ▸ hx.2
        · exact hx.2.step hop
      obtain ⟨hts, hcancelled⟩ := Machine.invariant keep ⟨hms, h.cancelled hw hm⟩ hr
      exact (Ledger.due_iff_not_cancelled hts.lt hts.recorded).mp hd hcancelled
    · have hmdue : Ledger.Due k m.ledger := by
        rcases step_books h.owned hm with he | ⟨op, hop, hstep⟩
        · exact he ▸ hdue
        · exact hdue.step h.accounted (h.not_drops hw hop) hstep
      rw [ih hms hmdue hr]
      constructor
      · intro hth n hn
        cases hm.symm.trans hn
        exact ⟨hw, hth⟩
      · exact fun hth => (hth m hm).2

end Serves

theorem recorded_of_run {as : List Act} {s : UxScheduler} (hr : run step create as = some s) :
    s.ledger.Recorded :=
  refines.invariant (q := Ledger.Recorded) (fun _ _ _ h hm => h.step hm) oneWorker_create
    (by simp [Ledger.Recorded, ledger, create, Worker.hand]) hr

theorem Keyed.of_step {s t : UxScheduler} {a : Act} (h : Keyed s.uxeventList)
    (ht : s.step a = some t) : Keyed t.uxeventList := by
  by_cases hclear : a = .clear
  · subst hclear
    cases step_act ht
    exact ⟨List.nodup_nil, by simp [clear]⟩
  · rw [step_list ht hclear]
    cases a.op with
    | none => exact h
    | some op => exact (h.step op).1

theorem keyed_of_run {as : List Act} {s : UxScheduler} (hr : run step create as = some s) :
    Keyed s.uxeventList := by
  have hkeep : ∀ (s : UxScheduler) a t, Keyed s.uxeventList → step s a = some t →
      Keyed t.uxeventList := fun _ _ _ h ht => Keyed.of_step h ht
  exact Machine.invariant hkeep ⟨by simp [create], by simp [create]⟩ hr

end UxScheduler

/-- An `awe_uxconnector_open` or `awe_uxconnector_openaddr` of the connector at `self`:
`rs` is what the open of its connection returns, `ufd` the descriptor, `taskId` what
`_timeouttask_id` was before, and `others` what everyone else does at the scheduler
between the two calls the open makes there. -/
structure UxOpen where
  self : Ptr
  rs : Status
  ufd : Int
  timeout : DelayMs
  taskId : Ptr
  c : UxScheduler.Caller
  now : ClockMs
  id : Ptr
  addr : Ptr
  picks : Option UxScheduler.Waiter × Option UxScheduler.Waiter
  others : List UxScheduler.Act

namespace UxOpen
open UxScheduler (Act Withdraws registrations)
open UxConnector (connecthandlingProc timeoutPost)

/-- The two calls and the result: those of `uxconnector_setTimeout`, or those of
`awe_uxconnector_close`. What the calls return is not looked at. -/
def calls (o : UxOpen) : Act × Act × Status :=
  if o.rs = 0 then
    (.post (timeoutPost o.self o.now o.timeout o.id) o.picks.1,
      .add o.c o.addr o.ufd AWE_WRITE connecthandlingProc o.self o.picks.2, AWE_OK)
  else (.rm o.c o.ufd, .cancel o.taskId, -1)

def exec (o : UxOpen) (s : UxScheduler) : Option (Status × UxScheduler) := do
  let s₁ ← s.step o.calls.1
  let s₂ ← run UxScheduler.step s₁ o.others
  let t ← s₂.step o.calls.2.1
  some (o.calls.2.2, t)

/-- The descriptor is in the list, for writing, with the connector's handler. -/
def HandlerAdded (o : UxOpen) (t : UxScheduler) : Prop :=
  registrations t.uxeventList o.ufd = some ⟨AWE_WRITE, connecthandlingProc, o.self⟩

/-- The timeout task that the open has posted is pending, or the worker has got to it. -/
def TimeoutDue (s t : UxScheduler) : Prop :=
  s.started = true ∧ Ledger.Due s.posted.length t.ledger

/-- Nobody withdraws the timeout task while the open is going on. -/
def LeftAlone (o : UxOpen) (s : UxScheduler) : Prop :=
  ∀ s₁, s.step o.calls.1 = some s₁ →
    Throughout UxScheduler.step (fun u a => ¬ u.Withdraws s.posted.length a) s₁ o.others

theorem exec_ok {o : UxOpen} {s t : UxScheduler} (ht : o.exec s = some (AWE_OK, t)) :
    ∃ s₁ s₂, o.calls.1 = .post (timeoutPost o.self o.now o.timeout o.id) o.picks.1 ∧
      s.step o.calls.1 = some s₁ ∧ run UxScheduler.step s₁ o.others = some s₂ ∧
      s₂.step (.add o.c o.addr o.ufd AWE_WRITE connecthandlingProc o.self o.picks.2) = some t := by
  simp only [exec, Option.bind_eq_bind] at ht
  obtain ⟨s₁, h₁, ht⟩ := Option.bind_eq_some_iff.mp ht
  obtain ⟨s₂, h₂, ht⟩ := Option.bind_eq_some_iff.mp ht
  obtain ⟨u, hu, ht⟩ := Option.bind_eq_some_iff.mp ht
  simp only [Option.some.injEq, Prod.mk.injEq] at ht
  obtain ⟨hstatus, rfl⟩ := ht
  have hcalls : o.calls = (.post (timeoutPost o.self o.now o.timeout o.id) o.picks.1,
      .add o.c o.addr o.ufd AWE_WRITE connecthandlingProc o.self o.picks.2, AWE_OK) := by
    unfold calls at hstatus ⊢
    split at hstatus
    · rename_i hrs
      rw [if_pos hrs]
    · cases hstatus
  rw [hcalls] at hu
  exact ⟨s₁, s₂, by rw [hcalls], h₁, h₂, hu⟩

/-- The add registers every descriptor but 0, in a stopped scheduler too. -/
theorem handlerAdded_iff {o : UxOpen} {s t : UxScheduler} (hs : UxScheduler.Keyed s.uxeventList)
    (ht : s.step (.add o.c o.addr o.ufd AWE_WRITE connecthandlingProc o.self o.picks.2) = some t) :
    o.HandlerAdded t ↔ o.ufd ≠ 0 := by
  have hlist := UxScheduler.step_list ht (by simp)
  have hmap := (hs.step (.add o.addr o.ufd AWE_WRITE connecthandlingProc o.self)).2
  simp only [Act.op, Option.elim_some] at hlist
  unfold HandlerAdded
  rw [hlist, hmap]
  by_cases hufd : o.ufd = 0
  · have hnone : registrations s.uxeventList o.ufd = none :=
      UxScheduler.registrations_none (fun e he => hufd ▸ hs.nonzero e he)
    simp [Registrations.step, hufd ▸ hnone, hufd]
  · simp [Registrations.step, hufd, AWE_WRITE]

/-- The post registers the timeout in a started scheduler only. -/
theorem timeoutDue_iff {before : List Act} {o : UxOpen} {s t : UxScheduler}
    (hs : run UxScheduler.step UxScheduler.create before = some s)
    (ht : o.exec s = some (AWE_OK, t)) :
    TimeoutDue s t ↔ s.started = true ∧ o.LeftAlone s := by
  obtain ⟨s₁, s₂, hpost, h₁, h₂, hadd⟩ := exec_ok ht
  apply and_congr_right
  intro hon
  have h₁' := h₁
  rw [hpost] at h₁'
  rcases UxScheduler.post_cases (UxScheduler.step_act h₁') with ⟨hoff, _⟩ | ⟨cond, _, _, _, _, he⟩
  · simp [hon] at hoff
  · have hacc := UxScheduler.accounted hs
    have hposted : run UxScheduler.step UxScheduler.create (before ++ [o.calls.1]) = some s₁ :=
      run_append.mpr ⟨s, hs, run_cons.mpr ⟨s₁, h₁, rfl⟩⟩
    have hserves : s₁.Serves s.posted.length := by
      refine ⟨(UxScheduler.oneWorker hs).step h₁, UxScheduler.accounted hposted,
        UxScheduler.recorded_of_run hposted, ?_⟩
      · rw [he]
        refine ⟨(timeoutPost o.self o.now o.timeout o.id).task s.posted.length, by simp, ?_⟩
        simp [Post.task, timeoutPost, UxConnector.connecttimeoutProc, NULL]
    have hdue : Ledger.Due s.posted.length s₁.ledger := by
      rw [he]
      exact Or.inl ⟨_, StableQueue.mem_insert.mpr (Or.inl rfl), rfl, rfl⟩
    have hserves₂ : s₂.Serves s.posted.length :=
      Machine.invariant (fun _ _ _ h hstep => h.step hstep) hserves h₂
    have hsame : t.ledger = s₂.ledger := by
      rcases UxScheduler.step_books hserves₂.owned hadd with hsame | ⟨op, hop, _⟩
      · exact hsame
      · cases hop
    rw [hsame, hserves.due_iff hdue h₂]
    unfold LeftAlone
    rw [h₁]
    simp

end UxOpen

/-- An open that reports success has both its registrations exactly if, on the one side,
the scheduler is started, and on the other, it is started when the timeout is posted, the
descriptor is not 0 and nobody withdraws the task while the open is going on. Where it
has neither, nothing will ever report its outcome. -/
theorem open_leaves_completion_iff (capacity : Nat) (calls : List Scheduler.Act)
    (before : List UxScheduler.Act) :
    (∀ (s t : ConnectorLoop) (c conn : Ptr) (rs : Int) (timeout : BitVec 32) (fd : Int)
      (timer io : Ptr), run Scheduler.step (Scheduler.create capacity) calls = some s.sched →
      s.openConn c conn rs timeout fd timer io = some (AWE_OK, t) →
      (t.WriteWatched c fd ∧ t.TimeoutSet c ↔ s.sched.started = true) ∧
        (¬ t.WriteWatched c fd ∧ ¬ t.TimeoutSet c ↔ s.sched.started = false)) ∧
    ∀ (s t : UxScheduler) (o : UxOpen), run UxScheduler.step UxScheduler.create before = some s →
      o.exec s = some (AWE_OK, t) →
      (o.HandlerAdded t ∧ UxOpen.TimeoutDue s t ↔
        s.started = true ∧ o.ufd ≠ 0 ∧ o.LeftAlone s) ∧
      (¬ o.HandlerAdded t ∧ ¬ UxOpen.TimeoutDue s t ↔
        o.ufd = 0 ∧ ¬ (s.started = true ∧ o.LeftAlone s)) := by
  constructor
  · intro s t c conn rs timeout fd timer io hs ht
    obtain ⟨hwatch, htimeout⟩ := ConnectorLoop.openConn_registers_iff (Scheduler.kept_of_run hs) ht
    rw [hwatch, htimeout]
    simp
  · intro s t o hs ht
    obtain ⟨s₁, s₂, _, h₁, h₂, hadd⟩ := UxOpen.exec_ok ht
    have hadded : run UxScheduler.step UxScheduler.create (before ++ o.calls.1 :: o.others) =
        some s₂ := run_append.mpr ⟨s, hs, run_cons.mpr ⟨s₁, h₁, h₂⟩⟩
    have hkeyed := UxScheduler.keyed_of_run hadded
    rw [UxOpen.handlerAdded_iff hkeyed hadd, UxOpen.timeoutDue_iff hs ht, not_not]
    exact ⟨and_left_comm, Iff.rfl⟩

/-- An open of connector 10 for a second, on descriptor `ufd`, that nobody else disturbs. -/
def undisturbed (ufd : Int) : UxOpen where
  self := 10
  rs := 0
  ufd := ufd
  timeout := DelayMs.ofInt32 1000
  taskId := NULL
  c := .thread 0
  now := timeMs 0
  id := 100
  addr := 500
  picks := (none, none)
  others := []

/-- A connector on a loop, whose scheduler is in the state `calls` lead to. -/
def oneConnector (calls : List Scheduler.Act) : Option ConnectorLoop :=
  (run Scheduler.step (Scheduler.create 1) calls).bind (fun sched =>
    ({ ConnectorLoop.create 1 with sched := sched } : ConnectorLoop).new 10 7 0)

theorem open_started_pending :
    (∃ s t, oneConnector [.call (.start false true 100 3)] = some s ∧
      s.openConn 10 50 0 5000 4 200 300 = some (AWE_OK, t) ∧ t.WriteWatched 10 4 ∧
      t.TimeoutSet 10) ∧
    ∃ s t, run UxScheduler.step UxScheduler.create
        [.start (DelayMs.ofInt32 0), .startStore, .startStore] = some s ∧
      (undisturbed 5).exec s = some (AWE_OK, t) ∧ (undisturbed 5).HandlerAdded t ∧
      UxOpen.TimeoutDue s t := by
  constructor
  · refine ⟨_, _, rfl, rfl, ?_⟩
    exact ((open_leaves_completion_iff 1 [.call (.start false true 100 3)] []).1
      ((oneConnector [.call (.start false true 100 3)]).get rfl) _ 10 50 0 5000 4 200 300
      rfl rfl).1.mpr rfl
  · refine ⟨_, _, rfl, rfl, ?_⟩
    refine ((open_leaves_completion_iff 1 [] [.start (DelayMs.ofInt32 0), .startStore,
      .startStore]).2 _ _ (undisturbed 5) rfl rfl).1.mpr ⟨rfl, by decide, ?_⟩
    exact fun _ _ => trivial

/-- Before the start and after a stop the open of a tcp connector is left with neither,
and that of a ux connector without a timeout, or on descriptor 0 with neither as well. -/
theorem open_refused_reports_ok :
    (∃ s t, oneConnector [] = some s ∧ s.openConn 10 50 0 5000 4 200 300 = some (AWE_OK, t) ∧
      ¬ t.WriteWatched 10 4 ∧ ¬ t.TimeoutSet 10) ∧
    (∃ s t, oneConnector [.call (.start false true 100 3), .call .stop] = some s ∧
      s.openConn 10 50 0 5000 4 200 300 = some (AWE_OK, t) ∧
      ¬ t.WriteWatched 10 4 ∧ ¬ t.TimeoutSet 10) ∧
    (∃ t, (undisturbed 5).exec UxScheduler.create = some (AWE_OK, t) ∧
      ¬ UxOpen.TimeoutDue UxScheduler.create t) ∧
    ∃ t, (undisturbed 0).exec UxScheduler.create = some (AWE_OK, t) ∧
      ¬ (undisturbed 0).HandlerAdded t ∧ ¬ UxOpen.TimeoutDue UxScheduler.create t := by
  have hempty : ∀ t : ConnectorLoop, t.sched.evioList = [] → t.sched.evtimerList = [] →
      ¬ t.WriteWatched 10 4 ∧ ¬ t.TimeoutSet 10 := by
    intro t hevio hevtimer
    constructor
    · rintro ⟨_, _, _, _, hin, _⟩
      simp [hevio] at hin
    · rintro ⟨_, _, _, _, _, hin, _⟩
      simp [hevtimer] at hin
  refine ⟨⟨_, _, rfl, rfl, hempty _ rfl rfl⟩, ⟨_, _, rfl, rfl, hempty _ rfl rfl⟩,
    ⟨_, rfl, ?_⟩, ⟨_, rfl, ?_, ?_⟩⟩
  · exact fun h => absurd h.1 (by decide)
  · intro h
    cases (show none = some _ from h)
  · exact fun h => absurd h.1 (by decide)

end Awe
