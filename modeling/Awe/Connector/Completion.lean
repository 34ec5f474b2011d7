import Awe.Connector.Model
import Awe.Scheduler.Steps

namespace Awe.ConnectorLoop
open Attempts Connector
open Heap (Handle)
open Scheduler (Record)

def ofWatch (r : Record) : Option Ptr :=
  match r.body with
  | .io ⟨_, _, .user connecthandlingProc, c⟩ => some c
  | _ => none

def ofTimeout (r : Record) : Option Ptr :=
  match r.body with
  | .timer ⟨_, _, connecttimeoutProc, c, _⟩ => some c
  | _ => none

theorem isIo_of_ofWatch {r : Record} {c : Ptr} (h : ofWatch r = some c) : r.isIo = true := by
  unfold ofWatch at h
  split at h
  · rename_i hb
    simp [hb]
  · cases h

theorem not_isIo_of_ofTimeout {r : Record} {c : Ptr} (h : ofTimeout r = some c) :
    r.isIo = false := by
  unfold ofTimeout at h
  split at h
  · rename_i hb
    simp [hb]
  · cases h

/-- The scheduler's records and the loop's watchers are in order: no watcher outlives its
record, no event its watcher, and the record of a task that runs is gone for good. -/
structure Registry (s : ConnectorLoop) : Prop where
  kept : s.sched.Kept
  used : ∀ a r, s.sched.heap.get? a = some r → a ∈ s.used
  null : NULL ∈ s.used ∧ s.sched.heap.get? NULL = none
  io : ∀ w ∈ s.sched.ioActive, s.sched.heap.Live w
  timer : ∀ w ∈ s.sched.timerActive, s.sched.heap.Live w
  pendingIo : ∀ w ∈ s.pendingIo, w ∈ s.sched.ioActive
  pendingTimer : ∀ w ∈ s.pendingTimer, s.sched.heap.Live w ∧ w.addr ∈ s.sched.evtimerList
  fired : ∀ w, s.sched.callback = .timer w → w.addr ∈ s.used ∧ s.sched.heap.get? w.addr = none

/-- What is known of the connectors' attempts: the records of an open one lie at its
tokens, which its connector has, and no others do. -/
structure Books (s : ConnectorLoop) : Prop where
  opened : ∀ c o, Open s.log c o → o.conntoken ∈ s.used ∧ o.timeouttoken ∈ s.used ∧
    ∃ k, s.connectors c = some k ∧ k.conn ≠ NULL ∧
      (∀ r, s.sched.heap.get? o.conntoken = some r →
        k.conntoken = o.conntoken ∧ ofWatch r = some c) ∧
      (∀ r, s.sched.heap.get? o.timeouttoken = some r →
        k.timeouttoken = o.timeouttoken ∧ ofTimeout r = some c)
  watch : ∀ a r c, s.sched.heap.get? a = some r → ofWatch r = some c →
    ∃ o, Open s.log c o ∧ o.conntoken = a
  timeout : ∀ a r c, s.sched.heap.get? a = some r → ofTimeout r = some c →
    ∃ o, Open s.log c o ∧ o.timeouttoken = a
  once : OnceEach s.log
  gone : ∀ c o, Completed s.log c o →
    (o.conntoken ∈ s.used ∧ s.sched.heap.get? o.conntoken = none) ∧
    o.timeouttoken ∈ s.used ∧ s.sched.heap.get? o.timeouttoken = none

theorem registry_create (capacity : Nat) : (create capacity).Registry where
  kept := Scheduler.kept_create capacity
  used := by simp [create, Scheduler.create]
  null := by simp [create, Scheduler.create]
  io := by simp [create, Scheduler.create]
  timer := by simp [create, Scheduler.create]
  pendingIo := by simp [create]
  pendingTimer := by simp [create]
  fired := by simp [create, Scheduler.create]

theorem books_create (capacity : Nat) : (create capacity).Books where
  opened := by simp [create, Open]
  watch := by simp [create, Scheduler.create]
  timeout := by simp [create, Scheduler.create]
  once := onceEach_nil
  gone _ _ h := absurd h completed_nil

section Release

variable {s : ConnectorLoop}

theorem get?_socktokenDestroy (h : s.sched.Kept) (token x : Ptr) :
    (s.socktokenDestroy token).sched.heap.get? x =
      if x = token ∧ token ∈ s.sched.evioList then none else s.sched.heap.get? x := by
  unfold socktokenDestroy Scheduler.socktokenDestroy
  by_cases hl : token ∈ s.sched.evioList
  · obtain ⟨w, hw⟩ := h.io_record hl
    simp only [hl, if_true, and_true, Scheduler.autorelease_eq_free hw rfl, Heap.get?_free]
  · simp [hl]

theorem get?_tasktokenDestroy (h : s.sched.Kept) (token x : Ptr) :
    (s.tasktokenDestroy token).sched.heap.get? x =
      if x = token ∧ token ∈ s.sched.evtimerList then none else s.sched.heap.get? x := by
  unfold tasktokenDestroy Scheduler.tasktokenDestroy
  by_cases hl : token ∈ s.sched.evtimerList
  · obtain ⟨w, hw⟩ := h.timer_record hl
    simp only [hl, if_true, and_true, Scheduler.autorelease_eq_free hw rfl, Heap.get?_free]
  · simp [hl]

theorem addr_ne_of_handle? {h : Heap Record} {token : Ptr} {w : Handle} (hl : h.Live w)
    (hw : h.handle? token ≠ some w) : w.addr ≠ token := by
  intro heq
  subst heq
  exact hw hl

/-- A live timer does not lie where an io record lies, nor the other way round. -/
theorem Registry.addr_ne (h : s.Registry) {a b : Ptr} (ha : a ∈ s.sched.evioList)
    (hb : b ∈ s.sched.evtimerList) : a ≠ b := by
  intro heq
  subst heq
  obtain ⟨v, hv⟩ := h.kept.io_record ha
  obtain ⟨w, hw⟩ := h.kept.timer_record hb
  rw [hv] at hw
  cases hw

theorem Registry.timer_listed (h : s.Registry) {w : Handle} (hw : w ∈ s.sched.timerActive) :
    w.addr ∈ s.sched.evtimerList := h.kept.timer.live w hw (h.timer w hw)

theorem Registry.io_listed (h : s.Registry) {w : Handle} (hw : w ∈ s.sched.ioActive) :
    w.addr ∈ s.sched.evioList := h.kept.io.live w hw (h.io w hw)

/-- A record is freed, with its watcher stopped and the pending event of that discarded. -/
theorem Registry.freed (h : s.Registry) {t : ConnectorLoop} {token : Ptr} (hkept : t.sched.Kept)
    (hheap : t.sched.heap = s.sched.heap.free token) (hused : t.used = s.used)
    (hcallback : t.sched.callback = s.sched.callback)
    (hio : ∀ w ∈ t.sched.ioActive, w ∈ s.sched.ioActive ∧ w.addr ≠ token)
    (htimer : ∀ w ∈ t.sched.timerActive, w ∈ s.sched.timerActive ∧ w.addr ≠ token)
    (hpendingIo : ∀ w ∈ t.pendingIo, w ∈ t.sched.ioActive)
    (hpendingTimer : ∀ w ∈ t.pendingTimer,
      w ∈ s.pendingTimer ∧ w.addr ≠ token ∧ w.addr ∈ t.sched.evtimerList) : t.Registry := by
  have hget (x : Ptr) : t.sched.heap.get? x = if x = token then none else s.sched.heap.get? x := by
    rw [hheap, Heap.get?_free]
  refine ⟨hkept, ?_, ?_, ?_, ?_, hpendingIo, ?_, ?_⟩
  · intro a r hr
    rw [hget] at hr
    obtain ⟨_, hr⟩ := Option.ite_none_left_eq_some.mp hr
    exact hused ▸ h.used a r hr
  · refine ⟨hused ▸ h.null.1, ?_⟩
    rw [hget, h.null.2, ite_self]
  · intro w hw
    rw [hheap]
    exact Heap.live_free.mpr ⟨(hio w hw).2, h.io w (hio w hw).1⟩
  · intro w hw
    rw [hheap]
    exact Heap.live_free.mpr ⟨(htimer w hw).2, h.timer w (htimer w hw).1⟩
  · intro w hw
    obtain ⟨hpending, hne, hlisted⟩ := hpendingTimer w hw
    rw [hheap]
    exact ⟨Heap.live_free.mpr ⟨hne, (h.pendingTimer w hpending).1⟩, hlisted⟩
  · intro w hw
    obtain ⟨hknown, hnone⟩ := h.fired w (hcallback ▸ hw)
    refine ⟨hused ▸ hknown, ?_⟩
    rw [hget, hnone, ite_self]

theorem Registry.socktokenDestroy (h : s.Registry) (token : Ptr) :
    (s.socktokenDestroy token).Registry := by
  have hkept : (s.socktokenDestroy token).sched.Kept := h.kept.socktokenDestroy token
  by_cases hl : token ∈ s.sched.evioList
  · obtain ⟨v, hv⟩ := h.kept.io_record hl
    have hne (w : Handle) (hw : w.addr ∈ s.sched.evtimerList) : w.addr ≠ token :=
      (h.addr_ne hl hw).symm
    simp only [ConnectorLoop.socktokenDestroy, Scheduler.socktokenDestroy, hl, if_true] at hkept ⊢
    refine h.freed hkept (Scheduler.autorelease_eq_free hv rfl) rfl rfl ?_ ?_ ?_ ?_
    · intro w hw
      obtain ⟨hw, hstop⟩ := Scheduler.mem_ioStop.mp hw
      exact ⟨hw, addr_ne_of_handle? (h.io w hw) hstop⟩
    · exact fun w hw => ⟨hw, hne w (h.timer_listed hw)⟩
    · intro w hw
      rw [List.mem_filter, decide_eq_true_eq] at hw
      exact Scheduler.mem_ioStop.mpr ⟨h.pendingIo w hw.1, hw.2⟩
    · intro w hw
      have hlisted := (h.pendingTimer w hw).2
      exact ⟨hw, hne w hlisted, hlisted⟩
  · have he : s.socktokenDestroy token = s := by
      simp [ConnectorLoop.socktokenDestroy, Scheduler.socktokenDestroy, hl]
    rw [he]
    exact h

theorem Registry.tasktokenDestroy (h : s.Registry) (token : Ptr) :
    (s.tasktokenDestroy token).Registry := by
  have hkept : (s.tasktokenDestroy token).sched.Kept := h.kept.tasktokenDestroy token
  by_cases hl : token ∈ s.sched.evtimerList
  · obtain ⟨v, hv⟩ := h.kept.timer_record hl
    simp only [ConnectorLoop.tasktokenDestroy, Scheduler.tasktokenDestroy, hl, if_true] at hkept ⊢
    refine h.freed hkept (Scheduler.autorelease_eq_free hv rfl) rfl rfl ?_ ?_ ?_ ?_
    · exact fun w hw => ⟨hw, h.addr_ne (h.io_listed hw) hl⟩
    · intro w hw
      obtain ⟨hw, hstop⟩ := Scheduler.mem_timerStop.mp hw
      exact ⟨hw, addr_ne_of_handle? (h.timer w hw) hstop⟩
    · exact h.pendingIo
    · intro w hw
      rw [List.mem_filter, decide_eq_true_eq] at hw
      obtain ⟨hlive, hlisted⟩ := h.pendingTimer w hw.1
      have hne := addr_ne_of_handle? hlive hw.2
      exact ⟨hw.1, hne, h.kept.timer.nodup.mem_erase_iff.mpr ⟨hne, hlisted⟩⟩
  · have he : s.tasktokenDestroy token = s := by
      simp [ConnectorLoop.tasktokenDestroy, Scheduler.tasktokenDestroy, hl]
    rw [he]
    exact h

theorem Registry.of_sched_eq {t : ConnectorLoop} (h : s.Registry) (hsched : t.sched = s.sched)
    (hio : t.pendingIo = s.pendingIo) (htimer : t.pendingTimer = s.pendingTimer)
    (hused : t.used = s.used) : t.Registry := by
  obtain ⟨kept, used, null, io, timer, pendingIo, pendingTimer, fired⟩ := h
  constructor <;> rw [hsched] <;> first | rw [hio] | rw [htimer] | rw [hused] | skip
  all_goals assumption

/-- What `rmEventHandler` leaves behind: some records are gone, those at the tokens of
the connector among them. -/
structure Released (s t : ConnectorLoop) (k : Connector) : Prop where
  used : t.used = s.used
  log : t.log = s.log
  fewer : ∀ a r, t.sched.heap.get? a = some r → s.sched.heap.get? a = some r
  watch : ∀ r, t.sched.heap.get? k.conntoken = some r → r.isIo = false
  timeout : ∀ r, t.sched.heap.get? k.timeouttoken = some r → r.isIo = true

theorem Registry.rmEventHandler (h : s.Registry) (c : Ptr) (k : Connector) :
    (s.rmEventHandler c k).Registry ∧ Released s (s.rmEventHandler c k) k := by
  have hone := h.socktokenDestroy k.conntoken
  have hio := get?_socktokenDestroy h.kept k.conntoken
  have htimer := get?_tasktokenDestroy hone.kept k.timeouttoken
  have hfewer : ∀ a r, (s.rmEventHandler c k).sched.heap.get? a = some r →
      (s.socktokenDestroy k.conntoken).sched.heap.get? a = some r := by
    intro a r hr
    rw [show (s.rmEventHandler c k).sched.heap.get? a = _ from htimer a] at hr
    obtain ⟨_, hr⟩ := Option.ite_none_left_eq_some.mp hr
    exact hr
  refine ⟨(hone.tasktokenDestroy k.timeouttoken).of_sched_eq rfl rfl rfl rfl, rfl, rfl, ?_, ?_, ?_⟩
  · intro a r hr
    have hr := hfewer a r hr
    rw [hio] at hr
    obtain ⟨_, hr⟩ := Option.ite_none_left_eq_some.mp hr
    exact hr
  · intro r hr
    have hr := hfewer _ r hr
    rw [hio] at hr
    obtain ⟨hl, hr⟩ := Option.ite_none_left_eq_some.mp hr
    cases hk : r.isIo with
    | false => rfl
    | true =>
      exact absurd ⟨rfl, (h.kept.io.listed _).mpr (by rw [hr, Option.map_some, hk])⟩ hl
  · intro r hr
    have hrest := hfewer _ r hr
    rw [show (s.rmEventHandler c k).sched.heap.get? k.timeouttoken = _ from htimer _] at hr
    obtain ⟨hl, hr⟩ := Option.ite_none_left_eq_some.mp hr
    cases hk : r.isIo with
    | true => rfl
    | false =>
      exact absurd ⟨rfl, (hone.kept.timer.listed _).mpr (by rw [hrest, Option.map_some, hk])⟩ hl

end Release

/-- What a new watch or task leaves behind: a record at an address of its own, or, on a
stopped scheduler, nothing. -/
structure Grown (s t : ConnectorLoop) (token : Ptr) (r : Record) : Prop where
  used : ∀ a ∈ s.used, a ∈ t.used
  known : token ∈ t.used
  connectors : t.connectors = s.connectors
  log : t.log = s.log
  heap : (∀ x, t.sched.heap.get? x = s.sched.heap.get? x) ∨
    token ∉ s.used ∧ ∀ x, t.sched.heap.get? x = if x = token then some r else s.sched.heap.get? x
  lies : ∀ q, t.sched.heap.get? token = some q → q = r

theorem Grown.get?_of_used {s t : ConnectorLoop} {token : Ptr} {r : Record} (h : Grown s t token r)
    {a : Ptr} (ha : a ∈ s.used) : t.sched.heap.get? a = s.sched.heap.get? a := by
  rcases h.heap with hsame | ⟨hfresh, hnew⟩
  · exact hsame a
  · rw [hnew, if_neg]
    intro heq
    subst heq
    exact hfresh ha

/-- A record found later is the new one or was there. -/
theorem Grown.get?_cases {s t : ConnectorLoop} {token : Ptr} {r q : Record} (h : Grown s t token r)
    {a : Ptr} (hq : t.sched.heap.get? a = some q) :
    (a = token ∧ q = r) ∨ s.sched.heap.get? a = some q := by
  rcases h.heap with hsame | ⟨_, hnew⟩
  · exact Or.inr (hsame a ▸ hq)
  · rw [hnew] at hq
    split at hq
    · cases hq
      exact Or.inl ⟨by assumption, rfl⟩
    · exact Or.inr hq

section Alloc

variable {s t : ConnectorLoop} {a token : Ptr}

theorem alloc_cases {ρ : Type} {r : Option (ρ × Scheduler)} {x : ρ}
    (ht : s.alloc a r = some (x, t)) : a ∉ s.used ∧ ∃ sched, r = some (x, sched) ∧
      t = { s with sched := sched, used := a :: s.used } := by
  unfold alloc at ht
  obtain ⟨ha, ht⟩ := Option.ite_none_left_eq_some.mp ht
  obtain ⟨⟨y, sched⟩, hr, he⟩ := Option.map_eq_some_iff.mp ht
  cases he
  exact ⟨ha, sched, hr, rfl⟩

/-- The address is spent even if the stopped scheduler takes no record there. -/
theorem Registry.spend (h : s.Registry) (a : Ptr) :
    ({ s with used := a :: s.used } : ConnectorLoop).Registry :=
  { h with
    used := fun b r hr => List.mem_cons_of_mem _ (h.used b r hr)
    null := ⟨List.mem_cons_of_mem _ h.null.1, h.null.2⟩
    fired := fun w hw => ⟨List.mem_cons_of_mem _ (h.fired w hw).1, (h.fired w hw).2⟩ }

/-- A record comes to lie at a fresh address, with an active watcher of its kind. -/
theorem Registry.add (h : s.Registry) {sched : Scheduler} {r : Record} (ha : a ∉ s.used)
    (hkept : sched.Kept) (hk : s.sched.heap.alloc a r = some sched.heap)
    (hio : ∀ w ∈ sched.ioActive, w = ⟨a, s.sched.heap.next⟩ ∨ w ∈ s.sched.ioActive)
    (htimer : ∀ w ∈ sched.timerActive, w = ⟨a, s.sched.heap.next⟩ ∨ w ∈ s.sched.timerActive)
    (hio' : ∀ w ∈ s.sched.ioActive, w ∈ sched.ioActive)
    (hlist : ∀ x ∈ s.sched.evtimerList, x ∈ sched.evtimerList)
    (hcb : sched.callback = s.sched.callback) :
    ({ s with sched := sched, used := a :: s.used } : ConnectorLoop).Registry := by
  have hget := Heap.get?_alloc hk
  have hlive : ∀ w, s.sched.heap.Live w → sched.heap.Live w :=
    fun w hw => (Heap.live_alloc hk).mpr (Or.inr hw)
  have hnew : sched.heap.Live ⟨a, s.sched.heap.next⟩ := (Heap.live_alloc hk).mpr (Or.inl rfl)
  refine ⟨hkept, ?_, ?_, ?_, ?_, fun w hw => hio' w (h.pendingIo w hw), ?_, ?_⟩
  · intro b q hq
    rw [hget] at hq
    split at hq
    · rename_i hb
      exact hb ▸ List.mem_cons_self
    · exact List.mem_cons_of_mem _ (h.used b q hq)
  · refine ⟨List.mem_cons_of_mem _ h.null.1, ?_⟩
    rw [hget, if_neg, h.null.2]
    intro heq
    subst heq
    exact ha h.null.1
  · intro w hw
    rcases hio w hw with rfl | hw
    · exact hnew
    · exact hlive w (h.io w hw)
  · intro w hw
    rcases htimer w hw with rfl | hw
    · exact hnew
    · exact hlive w (h.timer w hw)
  · intro w hw
    exact ⟨hlive w (h.pendingTimer w hw).1, hlist _ (h.pendingTimer w hw).2⟩
  · intro w hw
    obtain ⟨hused, hnone⟩ := h.fired w (hcb ▸ hw)
    refine ⟨List.mem_cons_of_mem _ hused, ?_⟩
    rw [hget, if_neg, hnone]
    intro heq
    subst heq
    exact ha hused

theorem Registry.grown_nothing (h : s.Registry) {r : Record} (ht : t.sched = s.sched)
    (hused : ∀ b ∈ s.used, b ∈ t.used) (hknown : token ∈ t.used)
    (hfree : token = NULL ∨ token ∉ s.used)
    (hlog : t.log = s.log) (hconn : t.connectors = s.connectors) : Grown s t token r := by
  refine ⟨hused, hknown, hconn, hlog, Or.inl fun _ => by rw [ht], fun q hq => ?_⟩
  rw [ht] at hq
  rcases hfree with rfl | hfree
  · rw [h.null.2] at hq
    cases hq
  · exact absurd (h.used token q hq) hfree

theorem grown_alloc {heap : Heap Record} {r : Record} (hk : s.sched.heap.alloc token r = some heap)
    (hused : t.used = token :: s.used) (hfree : token ∉ s.used) (ht : t.sched.heap = heap)
    (hlog : t.log = s.log) (hconn : t.connectors = s.connectors) : Grown s t token r := by
  have hget : ∀ x, t.sched.heap.get? x = if x = token then some r else s.sched.heap.get? x :=
    fun x => ht ▸ Heap.get?_alloc hk x
  refine ⟨fun b hb => hused ▸ List.mem_cons_of_mem _ hb, hused ▸ List.mem_cons_self, hconn, hlog,
    Or.inr ⟨hfree, hget⟩, fun q hq => ?_⟩
  rw [hget, if_pos rfl] at hq
  exact (Option.some.inj hq).symm

theorem Registry.watch (h : s.Registry) {w : Scheduler.EvIo}
    (ht : s.watch a w = some (token, t)) : t.Registry ∧ Grown s t token ⟨1, .io w⟩ := by
  obtain ⟨ha, sched, hw, rfl⟩ := alloc_cases ht
  have hkept := h.kept.watch hw
  have hused : ∀ b ∈ s.used, b ∈ a :: s.used := fun b hb => List.mem_cons_of_mem _ hb
  rcases Scheduler.watch_cases hw with ⟨_, rfl, rfl⟩ | ⟨_, rfl, _, heap, hk, rfl⟩
  · exact ⟨h.spend a, h.grown_nothing rfl hused (hused _ h.null.1) (Or.inl rfl) rfl rfl⟩
  · exact ⟨h.add ha hkept hk (fun _ hv => List.mem_cons.mp hv) (fun _ hv => Or.inr hv)
      (fun _ hv => List.mem_cons_of_mem _ hv) (fun _ hx => hx) rfl,
      grown_alloc hk rfl ha rfl rfl rfl⟩

theorem Registry.delayedtask (h : s.Registry) {ms : Int} {proc userdata : Ptr} {arg : Int}
    (ht : s.delayedtask a ms proc userdata arg = some (token, t)) :
    t.Registry ∧ Grown s t token ⟨1, .timer ⟨.nonperiodic, ms, proc, userdata, arg⟩⟩ := by
  obtain ⟨ha, sched, hw, rfl⟩ := alloc_cases ht
  have hkept := h.kept.timertask hw
  have hused : ∀ b ∈ s.used, b ∈ a :: s.used := fun b hb => List.mem_cons_of_mem _ hb
  rcases Scheduler.timertask_cases hw with ⟨_, rfl, rfl⟩ | ⟨_, rfl, _, heap, hk, rfl⟩
  · exact ⟨h.spend a, h.grown_nothing rfl hused (hused _ h.null.1) (Or.inl rfl) rfl rfl⟩
  · exact ⟨h.add ha hkept hk (fun _ hv => Or.inr hv) (fun _ hv => List.mem_cons.mp hv)
      (fun _ hv => hv) (fun _ hx => List.mem_append_left _ hx) rfl,
      grown_alloc hk rfl ha rfl rfl rfl⟩

theorem Registry.start (h : s.Registry) {fd : Int} {status : Status}
    (ht : s.start a fd = some (status, t)) :
    t.Registry ∧ Grown s t a ⟨1, .io ⟨fd, AWE_READ, .triggerEvent, NULL⟩⟩ := by
  obtain ⟨ha, sched, hw, rfl⟩ := alloc_cases ht
  have hkept := h.kept.start hw
  have hused : ∀ b ∈ s.used, b ∈ a :: s.used := fun b hb => List.mem_cons_of_mem _ hb
  rcases Scheduler.start_cases hw with ⟨_, rfl⟩ | ⟨_, heap, hk, ⟨_, rfl⟩ | ⟨hfail, _⟩⟩
  · exact ⟨h.spend a, h.grown_nothing rfl hused List.mem_cons_self (Or.inr ha) rfl rfl⟩
  · exact ⟨h.add ha hkept hk (fun _ hv => List.mem_cons.mp hv) (fun _ hv => Or.inr hv)
      (fun _ hv => List.mem_cons_of_mem _ hv) (fun _ hx => hx) rfl,
      grown_alloc hk rfl ha rfl rfl rfl⟩
  · cases hfail

end Alloc

section Books

variable {s t : ConnectorLoop} {c : Ptr} {k : Connector}

theorem get?_none_of_fewer {h h' : Heap Record} {a : Ptr}
    (hfewer : ∀ r, h'.get? a = some r → h.get? a = some r) (ha : h.get? a = none) :
    h'.get? a = none := by
  by_contra hne
  obtain ⟨r, hr⟩ := Option.ne_none_iff_exists'.mp hne
  rw [hfewer r hr] at ha
  cases ha

/-- Records that are gone are no concern of the books. -/
theorem Books.of_fewer (h : s.Books)
    (hfewer : ∀ a r, t.sched.heap.get? a = some r → s.sched.heap.get? a = some r)
    (hused : t.used = s.used) (hlog : t.log = s.log) (hconn : t.connectors = s.connectors) :
    t.Books := by
  have hnone : ∀ a, s.sched.heap.get? a = none → t.sched.heap.get? a = none :=
    fun a => get?_none_of_fewer (hfewer a)
  constructor
  · intro c o ho
    rw [hlog] at ho
    rw [hused, hconn]
    obtain ⟨hio, htask, k, hk, hnull, hw, ht⟩ := h.opened c o ho
    exact ⟨hio, htask, k, hk, hnull, fun r hr => hw r (hfewer _ _ hr),
      fun r hr => ht r (hfewer _ _ hr)⟩
  · intro a r c hr hc
    rw [hlog]
    exact h.watch a r c (hfewer a r hr) hc
  · intro a r c hr hc
    rw [hlog]
    exact h.timeout a r c (hfewer a r hr) hc
  · rw [hlog]
    exact h.once
  · intro c o ho
    rw [hlog] at ho
    rw [hused]
    obtain ⟨⟨hio, hio'⟩, htask, htask'⟩ := h.gone c o ho
    exact ⟨⟨hio, hnone _ hio'⟩, htask, hnone _ htask'⟩

/-- A record that is none of a connect's is no concern of the books. -/
theorem Books.grown (h : s.Books) {token : Ptr} {r : Record} (hg : Grown s t token r)
    (hwatch : ofWatch r = none) (htimeout : ofTimeout r = none) : t.Books := by
  constructor
  · intro c o ho
    rw [hg.log] at ho
    obtain ⟨hio, htask, k, hk, hnull, hw, ht⟩ := h.opened c o ho
    rw [hg.get?_of_used hio, hg.get?_of_used htask, hg.connectors]
    exact ⟨hg.used _ hio, hg.used _ htask, k, hk, hnull, hw, ht⟩
  · intro a q c hq hc
    rw [hg.log]
    rcases hg.get?_cases hq with ⟨_, rfl⟩ | hq
    · rw [hwatch] at hc
      cases hc
    · exact h.watch a q c hq hc
  · intro a q c hq hc
    rw [hg.log]
    rcases hg.get?_cases hq with ⟨_, rfl⟩ | hq
    · rw [htimeout] at hc
      cases hc
    · exact h.timeout a q c hq hc
  · rw [hg.log]
    exact h.once
  · intro c o ho
    rw [hg.log] at ho
    obtain ⟨⟨hio, hio'⟩, htask, htask'⟩ := h.gone c o ho
    rw [hg.get?_of_used hio, hg.get?_of_used htask]
    exact ⟨⟨hg.used _ hio, hio'⟩, hg.used _ htask, htask'⟩

/-- An attempt of a connector without a connection is not open. -/
theorem Books.not_open (h : s.Books) (hc : ∀ k, s.connectors c = some k → k.conn = NULL)
    (o : Attempt) : ¬ Open s.log c o := by
  intro ho
  obtain ⟨_, _, k, hk, hnull, _⟩ := h.opened c o ho
  exact hnull (hc k hk)

/-- The connector changes, but not what its open attempt, if there is one, needs of it. -/
theorem Books.setConnector (h : s.Books) (hs : s.Registry) {x : Option Connector}
    (hx : ∀ k, s.connectors c = some k → k.conn ≠ NULL → ∃ k', x = some k' ∧ k'.conn ≠ NULL ∧
      k'.timeouttoken = k.timeouttoken ∧ (k.conntoken ≠ NULL → k'.conntoken = k.conntoken)) :
    (s.setConnector c x).Books := by
  refine { h with opened := fun c' o ho => ?_ }
  obtain ⟨hio, htask, k, hk, hnull, hw, ht⟩ := h.opened c' o ho
  refine ⟨hio, htask, ?_⟩
  by_cases hc : c' = c
  · subst hc
    obtain ⟨k', rfl, hnull', htoken, hconn⟩ := hx k hk hnull
    refine ⟨k', Function.update_self .., hnull', fun r hr => ?_, fun r hr => ?_⟩
    · obtain ⟨hkt, hof⟩ := hw r hr
      refine ⟨(hconn ?_).trans hkt, hof⟩
      intro hzero
      change s.sched.heap.get? o.conntoken = some r at hr
      rw [← hkt, hzero, hs.null.2] at hr
      cases hr
    · obtain ⟨hkt, hof⟩ := ht r hr
      exact ⟨htoken.trans hkt, hof⟩
  · exact ⟨k, (Function.update_of_ne hc ..).trans hk, hnull, hw, ht⟩

/-- The attempt that is open, if any, comes to its end as the connector gives its tokens
up: no record of its connects is left. -/
theorem Books.retire (h : s.Books) (hk : s.connectors c = some k) {m : ConnectorLoop}
    {k' : Connector} (hr : Released s m k') (hconn : k'.conntoken = k.conntoken)
    (htimeout : k'.timeouttoken = k.timeouttoken) {e : Event Ptr Attempt Connected}
    (hkey : e.key = c) (hopen : ∀ a, e = .completed c a → ∃ o, Open s.log c o)
    (hnew : ∀ o, e ≠ .opened c o) (hheap : t.sched.heap = m.sched.heap) (hused : t.used = s.used)
    (hlog : t.log = s.log ++ [e]) (hother : ∀ c', c' ≠ c → t.connectors c' = s.connectors c') :
    t.Books := by
  have hfewer : ∀ a r, t.sched.heap.get? a = some r → s.sched.heap.get? a = some r :=
    fun a r hr' => hr.fewer a r (hheap ▸ hr')
  have hnone : ∀ a, s.sched.heap.get? a = none → t.sched.heap.get? a = none :=
    fun a => get?_none_of_fewer (hfewer a)
  have hwatch : ∀ a r, t.sched.heap.get? a = some r → ofWatch r ≠ some c := by
    intro a r hr' hc
    obtain ⟨o, ho, rfl⟩ := h.watch a r c (hfewer a r hr') hc
    obtain ⟨_, _, k₀, hk₀, _, hw, _⟩ := h.opened c o ho
    cases hk.symm.trans hk₀
    have htoken := (hw r (hfewer _ r hr')).1
    have hkind := hr.watch r (by rw [hconn, htoken, ← hheap]; exact hr')
    rw [isIo_of_ofWatch hc] at hkind
    cases hkind
  have htask : ∀ a r, t.sched.heap.get? a = some r → ofTimeout r ≠ some c := by
    intro a r hr' hc
    obtain ⟨o, ho, rfl⟩ := h.timeout a r c (hfewer a r hr') hc
    obtain ⟨_, _, k₀, hk₀, _, _, ht⟩ := h.opened c o ho
    cases hk.symm.trans hk₀
    have htoken := (ht r (hfewer _ r hr')).1
    have hkind := hr.timeout r (by rw [htimeout, htoken, ← hheap]; exact hr')
    rw [not_isIo_of_ofTimeout hc] at hkind
    cases hkind
  have hold : ∀ c' o, Open t.log c' o → c' ≠ c ∧ Open s.log c' o := by
    intro c' o ho
    rw [hlog] at ho
    by_cases hc : c' = c
    · subst hc
      simp only [Open, latest_append, hkey, if_true] at ho
      exact absurd (Option.some.inj ho) (hnew o)
    · exact ⟨hc, (open_append_other (by rw [hkey]; exact Ne.symm hc)).mp ho⟩
  have hkeep : ∀ c' o, c' ≠ c → Open s.log c' o → Open t.log c' o := by
    intro c' o hc ho
    rw [hlog]
    exact (open_append_other (by rw [hkey]; exact Ne.symm hc)).mpr ho
  constructor
  · intro c' o ho
    obtain ⟨hc, ho⟩ := hold c' o ho
    obtain ⟨hio, hto, k₀, hk₀, hnull, hw, ht⟩ := h.opened c' o ho
    rw [hused, hother c' hc]
    exact ⟨hio, hto, k₀, hk₀, hnull, fun r hr' => hw r (hfewer _ _ hr'),
      fun r hr' => ht r (hfewer _ _ hr')⟩
  · intro a r c' hr' hc'
    have hc : c' ≠ c := by
      intro heq
      subst heq
      exact hwatch a r hr' hc'
    obtain ⟨o, ho, ha⟩ := h.watch a r c' (hfewer a r hr') hc'
    exact ⟨o, hkeep c' o hc ho, ha⟩
  · intro a r c' hr' hc'
    have hc : c' ≠ c := by
      intro heq
      subst heq
      exact htask a r hr' hc'
    obtain ⟨o, ho, ha⟩ := h.timeout a r c' (hfewer a r hr') hc'
    exact ⟨o, hkeep c' o hc ho, ha⟩
  · rw [hlog]
    apply h.once.append
    intro c' a he
    subst he
    cases hkey
    exact hopen a rfl
  · intro c' o ho
    rw [hlog] at ho
    rw [hused]
    rcases completed_append.mp ho with hdone | ⟨a, rfl, hlast⟩
    · obtain ⟨⟨hio, hio'⟩, hto, hto'⟩ := h.gone c' o hdone
      exact ⟨⟨hio, hnone _ hio'⟩, hto, hnone _ hto'⟩
    · cases hkey
      obtain ⟨hio, hto, k₀, hk₀, _, hw, ht⟩ := h.opened c' o hlast
      refine ⟨⟨hio, ?_⟩, hto, ?_⟩
      · by_contra hne
        obtain ⟨r, hr'⟩ := Option.ne_none_iff_exists'.mp hne
        exact hwatch _ r hr' (hw r (hfewer _ r hr')).2
      · by_contra hne
        obtain ⟨r, hr'⟩ := Option.ne_none_iff_exists'.mp hne
        exact htask _ r hr' (ht r (hfewer _ r hr')).2

end Books

structure Sound (s : ConnectorLoop) : Prop where
  registry : s.Registry
  books : s.Books

theorem sound_create (capacity : Nat) : (create capacity).Sound :=
  ⟨registry_create capacity, books_create capacity⟩

section Steps

variable {s t : ConnectorLoop} {c : Ptr} {k k' : Connector} {e : Event Ptr Attempt Connected}

theorem rmEventHandler_other {c' : Ptr} (hc : c' ≠ c) :
    (s.rmEventHandler c k).connectors c' = s.connectors c' := Function.update_of_ne hc ..

/-- A connector gives its tokens up, and with them the attempt that is open. -/
theorem Sound.giveUp (h : s.Sound) (hk : s.connectors c = some k)
    (hconn : k'.conntoken = k.conntoken) (htimeout : k'.timeouttoken = k.timeouttoken)
    (hkey : e.key = c) (hopen : ∀ a, e = .completed c a → ∃ o, Open s.log c o)
    (hnew : ∀ o, e ≠ .opened c o) : ((s.rmEventHandler c k').note e).Sound := by
  obtain ⟨hreg, hrel⟩ := h.registry.rmEventHandler c k'
  exact ⟨hreg.of_sched_eq rfl rfl rfl rfl, h.books.retire hk hrel hconn htimeout hkey hopen hnew
    rfl rfl rfl (fun _ hc => rmEventHandler_other hc)⟩

theorem Sound.withdraw (h : s.Sound) (hk : s.connectors c = some k)
    (hconn : k'.conntoken = k.conntoken) (htimeout : k'.timeouttoken = k.timeouttoken) :
    ((s.rmEventHandler c k').note (.withdrawn c)).Sound :=
  h.giveUp hk hconn htimeout rfl (fun _ he => nomatch he) (fun _ he => nomatch he)

theorem Sound.destroy (h : s.Sound) (ht : s.destroy c = some t) : t.Sound := by
  obtain ⟨k, hk, rfl⟩ := Option.map_eq_some_iff.mp ht
  obtain ⟨hreg, hrel⟩ := h.registry.rmEventHandler c k
  refine ⟨hreg.of_sched_eq rfl rfl rfl rfl, h.books.retire hk hrel rfl rfl (e := .withdrawn c) rfl
    (fun _ he => nomatch he) (fun _ he => nomatch he) rfl rfl rfl (fun c' hc => ?_)⟩
  exact (Function.update_of_ne hc ..).trans (rmEventHandler_other hc)

theorem Sound.new (h : s.Sound) {proc userdata : Ptr} (ht : s.new c proc userdata = some t) :
    t.Sound := by
  unfold ConnectorLoop.new at ht
  split at ht
  · cases ht
  · rename_i hnone
    cases ht
    exact ⟨h.registry.of_sched_eq rfl rfl rfl rfl,
      h.books.setConnector h.registry (fun k hk => by simp [hnone] at hk)⟩

theorem Sound.open2 (h : s.Sound) {conn : Ptr} {status : Status}
    (ht : s.open2 c conn = some (status, t)) : t.Sound := by
  unfold ConnectorLoop.open2 at ht
  split at ht
  · cases ht
  · rename_i k hk
    obtain ⟨hnull, ht⟩ := Option.ite_none_left_eq_some.mp ht
    cases ht
    refine ⟨h.registry.of_sched_eq rfl rfl rfl rfl, h.books.setConnector h.registry ?_⟩
    intro k₀ hk₀ hconn
    cases hk.symm.trans hk₀
    exact absurd hconn hnull

theorem Sound.start (h : s.Sound) {a : Ptr} {fd : Int} {status : Status}
    (ht : s.start a fd = some (status, t)) : t.Sound := by
  obtain ⟨hreg, hg⟩ := h.registry.start ht
  exact ⟨hreg, h.books.grown hg rfl rfl⟩

theorem Sound.setEventHandler (h : s.Sound) {fd : Int} {proc userdata io : Ptr}
    (ht : s.setEventHandler c fd proc userdata io = some t) : t.Sound := by
  unfold ConnectorLoop.setEventHandler at ht
  split at ht
  · cases ht
  · rename_i k hk
    obtain ⟨hproc, ht⟩ := Option.ite_none_left_eq_some.mp ht
    split at ht
    · rename_i htoken
      obtain ⟨⟨token, m⟩, hm, rfl⟩ := Option.map_eq_some_iff.mp ht
      obtain ⟨hreg, hg⟩ := h.registry.watch hm
      have hwatch : ofWatch ⟨1, .io ⟨fd, AWE_READ, .user proc, userdata⟩⟩ = none := by
        unfold ofWatch
        split
        · rename_i heq
          cases heq
          exact absurd rfl hproc
        · rfl
      refine ⟨hreg.of_sched_eq rfl rfl rfl rfl,
        (h.books.grown hg hwatch rfl).setConnector hreg ?_⟩
      intro k₀ hk₀ hconn
      rw [hg.connectors] at hk₀
      cases hk.symm.trans hk₀
      exact ⟨_, rfl, hconn, rfl, fun hne => absurd htoken hne⟩
    · cases ht
      exact h

/-- A connect is under way: its records lie at the tokens of its connector. -/
theorem Books.connect (h : s.Books) (hk : s.connectors c = some k) (hnull : k.conn = NULL)
    {m n : ConnectorLoop} {io task : Ptr} {r q : Record}
    (hr : ofTimeout r = some c) (hq : ofWatch q = some c) (hrm : Grown s m task r)
    (hmn : Grown m n io q) {conn : Ptr} (hconn : conn ≠ NULL) :
    ((n.setConnector c
      (some { k with conn := conn, conntoken := io, timeouttoken := task })).note
        (.opened c ⟨io, task⟩)).Books := by
  have hclosed : ∀ o, ¬ Open s.log c o := h.not_open (fun k₀ hk₀ => by
    cases hk.symm.trans hk₀
    exact hnull)
  have hlog : n.log = s.log := hmn.log.trans hrm.log
  have hold : ∀ a, a ∈ s.used → n.sched.heap.get? a = s.sched.heap.get? a :=
    fun a ha => (hmn.get?_of_used (hrm.used a ha)).trans (hrm.get?_of_used ha)
  have hused : ∀ a, a ∈ s.used → a ∈ n.used := fun a ha => hmn.used a (hrm.used a ha)
  have hnotIo : ofWatch r = none := by
    unfold ofWatch
    split
    · rename_i hb
      simp [ofTimeout, hb] at hr
    · rfl
  have hnotTimer : ofTimeout q = none := by
    unfold ofTimeout
    split
    · rename_i hb
      simp [ofWatch, hb] at hq
    · rfl
  constructor
  · intro c' o ho
    by_cases hc : c' = c
    · subst hc
      have ho : o = ⟨io, task⟩ := by
        simpa [note, setConnector, Open, Event.key, eq_comm] using ho
      subst ho
      refine ⟨hmn.known, hmn.used _ hrm.known, _, Function.update_self .., hconn, ?_, ?_⟩
      · intro x hx
        exact ⟨rfl, hmn.lies x hx ▸ hq⟩
      · intro x hx
        have hx : m.sched.heap.get? task = some x := (hmn.get?_of_used hrm.known).symm.trans hx
        exact ⟨rfl, hrm.lies x hx ▸ hr⟩
    · have ho : Open s.log c' o := by
        rw [← hlog]
        exact (open_append_other (fun he => hc he.symm)).mp ho
      obtain ⟨hio, htask, k₀, hk₀, hnull₀, hw, ht⟩ := h.opened c' o ho
      refine ⟨hused _ hio, hused _ htask, k₀, ?_, hnull₀, fun x hx => hw x ?_, fun x hx => ht x ?_⟩
      · exact (Function.update_of_ne hc ..).trans
          ((congrFun (hmn.connectors.trans hrm.connectors) c').trans hk₀)
      · exact (hold _ hio).symm.trans hx
      · exact (hold _ htask).symm.trans hx
  · intro a x c' hx hc'
    rcases hmn.get?_cases hx with ⟨rfl, rfl⟩ | hx
    · cases hq.symm.trans hc'
      exact ⟨⟨a, task⟩, open_opened, rfl⟩
    · rcases hrm.get?_cases hx with ⟨_, rfl⟩ | hx
      · rw [hnotIo] at hc'
        cases hc'
      · obtain ⟨o, ho, ha⟩ := h.watch a x c' hx hc'
        refine ⟨o, (open_append_other ?_).mpr (by rw [← hlog] at ho; exact ho), ha⟩
        intro heq
        subst heq
        exact hclosed o ho
  · intro a x c' hx hc'
    rcases hmn.get?_cases hx with ⟨_, rfl⟩ | hx
    · rw [hnotTimer] at hc'
      cases hc'
    · rcases hrm.get?_cases hx with ⟨rfl, rfl⟩ | hx
      · cases hr.symm.trans hc'
        exact ⟨⟨io, a⟩, open_opened, rfl⟩
      · obtain ⟨o, ho, ha⟩ := h.timeout a x c' hx hc'
        refine ⟨o, (open_append_other ?_).mpr (by rw [← hlog] at ho; exact ho), ha⟩
        intro heq
        subst heq
        exact hclosed o ho
  · refine OnceEach.append ?_ (fun _ _ he => by cases he)
    change OnceEach n.log
    rw [hlog]
    exact h.once
  · intro c' o ho
    rcases completed_append.mp ho with hdone | ⟨_, he, _⟩
    · change Completed n.log c' o at hdone
      rw [hlog] at hdone
      obtain ⟨⟨hio, hio'⟩, htask, htask'⟩ := h.gone c' o hdone
      exact ⟨⟨hused _ hio, (hold _ hio).trans hio'⟩, hused _ htask, (hold _ htask).trans htask'⟩
    · cases he

theorem Sound.openConn (h : s.Sound) {conn : Ptr} {rs : Int} {timeout : BitVec 32} {fd : Int}
    {timer io : Ptr} {status : Status}
    (ht : s.openConn c conn rs timeout fd timer io = some (status, t)) : t.Sound := by
  unfold ConnectorLoop.openConn at ht
  split at ht
  · cases ht
  · rename_i k hk
    obtain ⟨hguard, ht⟩ := Option.ite_none_left_eq_some.mp ht
    push Not at hguard
    split at ht
    · obtain ⟨⟨task, m⟩, hm, ht⟩ := Option.bind_eq_some_iff.mp ht
      obtain ⟨⟨token, n⟩, hn, ht⟩ := Option.bind_eq_some_iff.mp ht
      cases ht
      obtain ⟨hregm, hgm⟩ := h.registry.delayedtask hm
      obtain ⟨hregn, hgn⟩ := hregm.watch hn
      exact ⟨hregn.of_sched_eq rfl rfl rfl rfl,
        h.books.connect hk hguard.1 rfl rfl hgm hgn hguard.2⟩
    · cases ht
      exact h.withdraw hk rfl rfl

theorem Sound.ready (h : s.Sound) {w : Handle} (ht : s.ready w = some t) : t.Sound := by
  unfold ConnectorLoop.ready at ht
  obtain ⟨hw, ht⟩ := Option.ite_none_right_eq_some.mp ht
  cases ht
  refine ⟨{ h.registry with pendingIo := fun v hv => ?_ }, { h.books with }⟩
  rcases List.mem_cons.mp hv with rfl | hv
  · exact hw.2
  · exact h.registry.pendingIo v (List.mem_of_mem_erase hv)

theorem Sound.expire (h : s.Sound) {w : Handle} (ht : s.expire w = some t) : t.Sound := by
  unfold ConnectorLoop.expire at ht
  obtain ⟨hw, ht⟩ := Option.ite_none_right_eq_some.mp ht
  cases ht
  have hstop : ∀ v ∈ s.sched.timerStop w.addr, v ∈ s.sched.timerActive :=
    fun v hv => (Scheduler.mem_timerStop.mp hv).1
  refine ⟨{ h.registry with
    kept := { h.registry.kept with timer := h.registry.kept.timer.stop hstop }
    timer := fun v hv => h.registry.timer v (hstop v hv)
    pendingTimer := fun v hv => ?_ }, { h.books with }⟩
  rcases List.mem_cons.mp hv with rfl | hv
  · exact ⟨hw.2.2, h.registry.timer_listed hw.2.1⟩
  · exact h.registry.pendingTimer v hv

/-- An event leaves the pending ones. -/
theorem Sound.of_pending (h : s.Sound) {io timer : List Handle}
    (hio : ∀ w ∈ io, w ∈ s.sched.ioActive) (htimer : ∀ w ∈ timer, w ∈ s.pendingTimer) :
    ({ s with pendingIo := io, pendingTimer := timer } : ConnectorLoop).Sound :=
  ⟨{ h.registry with
    pendingIo := hio
    pendingTimer := fun w hw => h.registry.pendingTimer w (htimer w hw) }, { h.books with }⟩

theorem Sound.callback (h : s.Sound) {cb : Scheduler.Callback}
    (hcb : ∀ w, cb = .timer w → w.birth < s.sched.heap.next ∧ w.addr ∈ s.used ∧
      s.sched.heap.get? w.addr = none) :
    ({ s with sched := { s.sched with callback := cb } } : ConnectorLoop).Sound :=
  ⟨{ h.registry with
    kept := { h.registry.kept with fired := fun w hw => (hcb w hw).1 }
    fired := fun w hw => (hcb w hw).2 }, { h.books with }⟩

theorem Sound.connecthandling (h : s.Sound) {fd result : Int}
    (ht : s.connecthandling c fd result = some t) (hopen : ∃ o, Open s.log c o) : t.Sound := by
  obtain ⟨k, hk, rfl⟩ := Option.map_eq_some_iff.mp ht
  have hgive : ((s.rmEventHandler c k).note
      (.completed c ⟨k.onconnectedProc, k.userdata, result, fd⟩)).Sound :=
    h.giveUp hk rfl rfl rfl (fun _ _ => hopen) (fun _ he => nomatch he)
  exact hgive.callback (fun _ he => nomatch he)

theorem next_rmEventHandler (hs : s.Registry) :
    (s.rmEventHandler c k).sched.heap.next = s.sched.heap.next := by
  have hio : (s.socktokenDestroy k.conntoken).sched.heap.next = s.sched.heap.next := by
    unfold ConnectorLoop.socktokenDestroy Scheduler.socktokenDestroy
    split
    · rename_i hl
      obtain ⟨w, hw⟩ := hs.kept.io_record hl
      rw [Scheduler.autorelease_eq_free hw rfl]
      rfl
    · rfl
  rw [← hio]
  change ((s.socktokenDestroy k.conntoken).sched.tasktokenDestroy k.timeouttoken).heap.next = _
  unfold Scheduler.tasktokenDestroy
  split
  · rename_i hl
    obtain ⟨w, hw⟩ := (hs.socktokenDestroy k.conntoken).kept.timer_record hl
    rw [Scheduler.autorelease_eq_free hw rfl]
    rfl
  · rfl

/-- The task frees its own record before it calls the handler. -/
theorem Sound.connecttimeout (h : s.Sound) {w : Handle} {r : Record}
    (ht : s.connecttimeout c w = some t) (hlive : s.sched.heap.Live w)
    (hr : s.sched.heap.get? w.addr = some r) (hc : ofTimeout r = some c) : t.Sound := by
  obtain ⟨o, ho, hw⟩ := h.books.timeout w.addr r c hr hc
  obtain ⟨k, hk, rfl⟩ := Option.map_eq_some_iff.mp ht
  have hgive : ((s.rmEventHandler c k).note
      (.completed c ⟨k.onconnectedProc, k.userdata, AWE_CONN_TIMEDOUT, 0⟩)).Sound :=
    h.giveUp hk rfl rfl rfl (fun _ _ => ⟨o, ho⟩) (fun _ he => nomatch he)
  apply hgive.callback
  intro v he
  cases he
  obtain ⟨_, hrel⟩ := h.registry.rmEventHandler c k
  refine ⟨?_, h.registry.used _ r hr, ?_⟩
  · change w.birth < (s.rmEventHandler c k).sched.heap.next
    rw [next_rmEventHandler h.registry]
    exact hlive.birth_lt
  · change (s.rmEventHandler c k).sched.heap.get? w.addr = none
    by_contra hne
    obtain ⟨q, hq⟩ := Option.ne_none_iff_exists'.mp hne
    cases hr.symm.trans (hrel.fewer _ q hq)
    obtain ⟨_, _, k₀, hk₀, _, _, htoken⟩ := h.books.opened c o ho
    cases hk.symm.trans hk₀
    have hio := hrel.timeout r (by rw [(htoken r (by rw [hw]; exact hr)).1, hw]; exact hq)
    rw [not_isIo_of_ofTimeout hc] at hio
    cases hio

theorem Sound.dispatchTimer (h : s.Sound) {w : Handle} (ht : s.dispatchTimer w = some t) :
    t.Sound := by
  unfold ConnectorLoop.dispatchTimer at ht
  obtain ⟨hw, ht⟩ := Option.ite_none_right_eq_some.mp ht
  have hrest : ({ s with pendingTimer := s.pendingTimer.erase w } : ConnectorLoop).Sound :=
    h.of_pending h.registry.pendingIo (fun _ hv => List.mem_of_mem_erase hv)
  dsimp only at ht
  split at ht
  · rename_i hr
    exact hrest.connecttimeout ht hw.2.2 hr rfl
  · cases ht

/-- Whatever else is ready, the scheduler's own watch at most goes. -/
theorem Sound.ioReady (h : s.Sound) {w : Handle} {recv : Scheduler.Recv} {sched : Scheduler}
    (ht : s.sched.ioReady w recv = some sched) {io : List Handle}
    (hio : ∀ v ∈ io, v ∈ sched.ioActive) :
    ({ s with sched := sched, pendingIo := io } : ConnectorLoop).Sound := by
  have hkept := h.registry.kept.ioReady ht
  rcases Scheduler.ioReady_effect ht with rfl | ⟨_, _, callback, hcb, rfl⟩
  · have hreg := h.registry.socktokenDestroy s.sched.triggertoken
    have hget := get?_socktokenDestroy h.registry.kept s.sched.triggertoken
    refine ⟨{ hreg with kept := hkept, pendingIo := hio }, ?_⟩
    refine h.books.of_fewer (fun a r hr => ?_) rfl rfl rfl
    have hr := (hget a).symm.trans hr
    obtain ⟨_, hr⟩ := Option.ite_none_left_eq_some.mp hr
    exact hr
  · refine ⟨{ h.registry with kept := hkept, pendingIo := hio, fired := fun v hv => ?_ },
      { h.books with }⟩
    rcases hcb with rfl | rfl
    · exact h.registry.fired v hv
    · cases hv

theorem Sound.dispatchIo (h : s.Sound) {w : Handle} {recv : Scheduler.Recv} {result : Int}
    (ht : s.dispatchIo w recv result = some t) : t.Sound := by
  unfold ConnectorLoop.dispatchIo at ht
  obtain ⟨_, ht⟩ := Option.ite_none_right_eq_some.mp ht
  have hrest : ({ s with pendingIo := s.pendingIo.erase w } : ConnectorLoop).Sound :=
    h.of_pending (fun v hv => h.registry.pendingIo v (List.mem_of_mem_erase hv))
      (fun _ hv => hv)
  dsimp only at ht
  split at ht
  · rename_i hr
    obtain ⟨o, ho, _⟩ := h.books.watch w.addr _ _ hr rfl
    exact hrest.connecthandling ht ⟨o, ho⟩
  · obtain ⟨sched, hsched, rfl⟩ := Option.map_eq_some_iff.mp ht
    exact hrest.ioReady hsched (fun v hv => by simpa using (List.mem_filter.mp hv).2)

/-- The trampoline finds nothing to delete: the record is gone, and no other lies there. -/
theorem Sound.ret (h : s.Sound) {stale : Scheduler.EvtimerType} (ht : s.ret stale = some t) :
    t.Sound := by
  unfold ConnectorLoop.ret at ht
  split at ht
  · cases ht
  · cases ht
    exact h.callback (fun _ he => nomatch he)
  · rename_i w hcb
    have hnone := (h.registry.fired w hcb).2
    have hdel : s.sched.evtimerDel w.addr = s.sched := by
      unfold Scheduler.evtimerDel
      rw [if_neg]
      intro hl
      obtain ⟨v, hv⟩ := h.registry.kept.timer_record hl
      rw [hnone] at hv
      cases hv
    simp only [hdel, ite_self] at ht
    cases ht
    exact h.callback (fun _ he => nomatch he)

theorem Sound.step (h : s.Sound) {a : Act} (ht : s.step a = some t) : t.Sound := by
  cases a with
  | start a fd =>
    obtain ⟨⟨status, m⟩, hm, rfl⟩ := Option.map_eq_some_iff.mp ht
    exact h.start hm
  | new c proc userdata => exact h.new ht
  | openConn c conn rs timeout fd timer io =>
    obtain ⟨⟨status, m⟩, hm, rfl⟩ := Option.map_eq_some_iff.mp ht
    exact h.openConn hm
  | open2 c conn =>
    obtain ⟨⟨status, m⟩, hm, rfl⟩ := Option.map_eq_some_iff.mp ht
    exact h.open2 hm
  | close c =>
    obtain ⟨k, hk, rfl⟩ := Option.map_eq_some_iff.mp ht
    exact h.withdraw hk rfl rfl
  | takeout c =>
    obtain ⟨⟨conn, m⟩, hm, rfl⟩ := Option.map_eq_some_iff.mp ht
    obtain ⟨k, hk, he⟩ := Option.map_eq_some_iff.mp hm
    cases he
    exact h.withdraw hk rfl rfl
  | destroy c => exact h.destroy ht
  | setEventHandler c fd proc userdata io => exact h.setEventHandler ht
  | ready w => exact h.ready ht
  | expire w => exact h.expire ht
  | dispatchIo w recv result => exact h.dispatchIo ht
  | dispatchTimer w => exact h.dispatchTimer ht
  | ret stale => exact h.ret ht

end Steps

/-- Neither the watch nor the timeout task of an attempt is registered any more. -/
structure Unregistered (s : ConnectorLoop) (o : Attempt) : Prop where
  evio : o.conntoken ∉ s.sched.evioList
  evtimer : o.timeouttoken ∉ s.sched.evtimerList
  io : ∀ w ∈ s.sched.ioActive ++ s.pendingIo, w.addr ≠ o.conntoken
  timer : ∀ w ∈ s.sched.timerActive ++ s.pendingTimer, w.addr ≠ o.timeouttoken

/-- What connectors promise: the handler is called once at most for each open, not after
the connector has been closed, taken out of or destroyed, and not with a watch or task of
that open left behind. No event waits for a record or a connector that is gone. -/
structure CompletesOnce (s : ConnectorLoop) : Prop where
  once : OnceEach s.log
  released : ∀ c o, Completed s.log c o → s.Unregistered o
  alive : ∀ w ∈ s.pendingIo ++ s.pendingTimer, s.sched.heap.Live w ∧
    ∀ r c, s.sched.heap.get? w.addr = some r → ofWatch r = some c ∨ ofTimeout r = some c →
      (s.connectors c).isSome

theorem Sound.completesOnce {s : ConnectorLoop} (h : s.Sound) : s.CompletesOnce := by
  have hio : ∀ w ∈ s.sched.ioActive ++ s.pendingIo, w ∈ s.sched.ioActive := by
    intro w hw
    rcases List.mem_append.mp hw with hw | hw
    · exact hw
    · exact h.registry.pendingIo w hw
  have htimer : ∀ w ∈ s.sched.timerActive ++ s.pendingTimer, w.addr ∈ s.sched.evtimerList := by
    intro w hw
    rcases List.mem_append.mp hw with hw | hw
    · exact h.registry.timer_listed hw
    · exact (h.registry.pendingTimer w hw).2
  refine ⟨h.books.once, fun c o ho => ?_, fun w hw => ⟨?_, fun r c hr hc => ?_⟩⟩
  · obtain ⟨⟨_, hwatch⟩, _, htask⟩ := h.books.gone c o ho
    have hevio : o.conntoken ∉ s.sched.evioList := by
      intro hl
      obtain ⟨v, hv⟩ := h.registry.kept.io_record hl
      simp [hwatch] at hv
    have hevtimer : o.timeouttoken ∉ s.sched.evtimerList := by
      intro hl
      obtain ⟨v, hv⟩ := h.registry.kept.timer_record hl
      simp [htask] at hv
    exact ⟨hevio, hevtimer, fun w hw he => hevio (he ▸ h.registry.io_listed (hio w hw)),
      fun w hw he => hevtimer (he ▸ htimer w hw)⟩
  · rcases List.mem_append.mp hw with hw | hw
    · exact h.registry.io w (h.registry.pendingIo w hw)
    · exact (h.registry.pendingTimer w hw).1
  · have hopen : ∃ o, Open s.log c o := by
      rcases hc with hc | hc
      · obtain ⟨o, ho, _⟩ := h.books.watch _ r c hr hc
        exact ⟨o, ho⟩
      · obtain ⟨o, ho, _⟩ := h.books.timeout _ r c hr hc
        exact ⟨o, ho⟩
    obtain ⟨o, ho⟩ := hopen
    obtain ⟨_, _, k, hk, _⟩ := h.books.opened c o ho
    rw [hk]
    rfl

/-- In every run of calls and loop events, connectors complete at most once. -/
theorem completes_once {capacity : Nat} {as : List Act} {s : ConnectorLoop}
    (hr : Machine.run step (create capacity) as = some s) : s.CompletesOnce :=
  (Machine.invariant (fun _ _ _ h ht => Sound.step h ht) (sound_create capacity) hr).completesOnce

/-- Both events of a connect are pending; the handler takes the connection out and opens
again, and then destroys the connector from inside its timeout. -/
def bothPending : List Act :=
  [.start 50 3, .new 7 900 901, .openConn 7 60 0 5000 4 200 100, .ready ⟨100, 2⟩,
    .expire ⟨200, 1⟩, .dispatchIo ⟨100, 2⟩ .data 0, .takeout 7,
    .openConn 7 61 0 0 5 201 101, .ret .periodic, .ready ⟨101, 4⟩, .expire ⟨201, 3⟩,
    .dispatchTimer ⟨201, 3⟩, .destroy 7, .ret .nonperiodic]

theorem both_pending_completes_once : ∃ s, Machine.run step (create 1) bothPending = some s ∧
    s.log = [.opened 7 ⟨100, 200⟩, .completed 7 ⟨900, 901, 0, 4⟩, .withdrawn 7,
      .opened 7 ⟨101, 201⟩, .completed 7 ⟨900, 901, 110, 0⟩, .withdrawn 7] ∧ s.CompletesOnce :=
  ⟨_, rfl, rfl, @completes_once 1 bothPending _ rfl⟩

end Awe.ConnectorLoop
