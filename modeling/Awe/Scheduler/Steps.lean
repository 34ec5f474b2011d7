import Awe.Scheduler.Registry

namespace Awe.Scheduler
open Heap (Handle)

section Operations

variable {s t : Scheduler} {a : Ptr}

theorem mem_timerStop {w : Handle} : w ∈ s.timerStop a ↔ w ∈ s.timerActive ∧
    s.heap.handle? a ≠ some w := by
  simp [timerStop]

theorem mem_ioStop {w : Handle} : w ∈ s.ioStop a ↔ w ∈ s.ioActive ∧
    s.heap.handle? a ≠ some w := by
  simp [ioStop]

theorem Kept.tasktokenDestroy (h : s.Kept) (a : Ptr) : (s.tasktokenDestroy a).Kept := by
  unfold Scheduler.tasktokenDestroy
  split
  · rename_i ha
    exact h.dropTimer ha (fun w hw => (mem_timerStop.mp hw).1)
  · exact h

theorem Kept.evtimerDel (h : s.Kept) (a : Ptr) : (s.evtimerDel a).Kept := by
  unfold Scheduler.evtimerDel
  split
  · rename_i ha
    exact h.dropTimer ha (fun _ hw => hw)
  · exact h

theorem Kept.socktokenDestroy (h : s.Kept) (a : Ptr) : (s.socktokenDestroy a).Kept := by
  unfold Scheduler.socktokenDestroy
  split
  · rename_i ha
    exact h.dropIo ha (fun w hw => (mem_ioStop.mp hw).1)
  · exact h

theorem Kept.disableTrigger (h : s.Kept) : s.disableTrigger.Kept := by
  exact { h.socktokenDestroy s.triggertoken with }

/-- What a stop does once the books are in order: everything is freed, and the loop
keeps its watchers. -/
theorem stop_cases (h : s.Kept) :
    (s.started = false ∧ s.stop = s) ∨ (s.started = true ∧ ∃ heap : Heap Record,
      (∀ a, heap.get? a = none) ∧ heap.next = s.heap.next ∧
      s.stop = { s with
        started := false, sockpair := [], evioList := [], evtimerList := [], evtimeoutList := []
        triggertoken := NULL, heap := heap }) := by
  unfold stop
  split
  · rename_i hst
    exact Or.inl ⟨by simpa using hst, rfl⟩
  · rename_i hst
    refine Or.inr ⟨by simpa using hst, _, ?_, ?_, rfl⟩
    · intro a
      have hrefs : ∀ b r, (clearList s.heap s.evioList).get? b = some r → r.refs = 1 := by
        intro b r hb
        rw [clearList_get? h.refs] at hb
        obtain ⟨_, hb⟩ := Option.ite_none_left_eq_some.mp hb
        exact h.refs b r hb
      simp only [disableTrigger, Scheduler.socktokenDestroy, List.not_mem_nil, if_false]
      rw [h.timeout]
      change (clearList (clearList s.heap s.evioList) s.evtimerList).get? a = none
      rw [clearList_get? hrefs, clearList_get? h.refs]
      cases hr : s.heap.get? a with
      | none => simp
      | some r =>
        cases hk : r.isIo with
        | true => simp [(h.io.listed a).mpr (by rw [hr, Option.map_some, hk])]
        | false => simp [(h.timer.listed a).mpr (by rw [hr, Option.map_some, hk])]
    · simp only [disableTrigger, Scheduler.socktokenDestroy, List.not_mem_nil, if_false,
        clearList_next]

theorem Kept.stop (h : s.Kept) : s.stop.Kept := by
  rcases stop_cases h with ⟨_, he⟩ | ⟨_, heap, hnone, hnext, he⟩ <;> rw [he]
  · exact h
  · exact {
      refs := by simp [hnone]
      io := h.io.clear hnone hnext
      timer := h.timer.clear hnone hnext
      timeout := rfl
      stopped := fun _ => ⟨rfl, rfl⟩
      fired := fun w hw => hnext ▸ h.fired w hw }

/-- What a watch can do: nothing, or allocate a record, activate and list it. -/
theorem watch_cases {w : EvIo} {token : Ptr} (ht : s.watch a w = some (token, t)) :
    (s.started = false ∧ token = NULL ∧ t = s) ∨
    (s.started = true ∧ token = a ∧ a ≠ NULL ∧ ∃ heap, s.heap.alloc a ⟨1, .io w⟩ = some heap ∧
      t = { s with
        heap := heap
        ioActive := ⟨a, s.heap.next⟩ :: s.ioActive
        evioList := s.evioList ++ [a] }) := by
  unfold watch at ht
  split at ht
  · rename_i hst
    cases ht
    exact Or.inl ⟨by simpa using hst, rfl, rfl⟩
  · rename_i hst
    obtain ⟨hnull, ht⟩ := Option.ite_none_left_eq_some.mp ht
    obtain ⟨heap, hheap, he⟩ := Option.map_eq_some_iff.mp ht
    cases he
    refine Or.inr ⟨by simpa using hst, rfl, hnull, heap, hheap, ?_⟩
    rw [autorelease_addRef hheap rfl]

theorem Kept.watch {w : EvIo} {token : Ptr} (h : s.Kept) (ht : s.watch a w = some (token, t)) :
    t.Kept := by
  rcases watch_cases ht with ⟨_, _, rfl⟩ | ⟨hst, _, _, heap, hk, rfl⟩
  · exact h
  · exact h.addIo hst hk

theorem timertask_cases {w : EvTimer} {token : Ptr} (ht : s.timertask a w = some (token, t)) :
    (s.started = false ∧ token = NULL ∧ t = s) ∨
    (s.started = true ∧ token = a ∧ a ≠ NULL ∧
      ∃ heap, s.heap.alloc a ⟨1, .timer w⟩ = some heap ∧
      t = { s with
        heap := heap
        timerActive := ⟨a, s.heap.next⟩ :: s.timerActive
        evtimerList := s.evtimerList ++ [a] }) := by
  unfold timertask at ht
  split at ht
  · rename_i hst
    cases ht
    exact Or.inl ⟨by simpa using hst, rfl, rfl⟩
  · rename_i hst
    obtain ⟨hnull, ht⟩ := Option.ite_none_left_eq_some.mp ht
    obtain ⟨heap, hheap, he⟩ := Option.map_eq_some_iff.mp ht
    cases he
    refine Or.inr ⟨by simpa using hst, rfl, hnull, heap, hheap, ?_⟩
    rw [autorelease_addRef hheap rfl]

theorem Kept.timertask {w : EvTimer} {token : Ptr} (h : s.Kept)
    (ht : s.timertask a w = some (token, t)) : t.Kept := by
  rcases timertask_cases ht with ⟨_, _, rfl⟩ | ⟨hst, _, _, heap, hk, rfl⟩
  · exact h
  · exact h.addTimer hst hk

/-- What enable and disable can do to a live token: rewrite its record, and stop or
restart its watcher. -/
theorem setEvents_cases {token : Ptr} {f : BitVec 32 → BitVec 32} {restart : Bool}
    (ht : s.setEvents token f restart = some t) :
    ∃ refs w p active, s.heap.get? token = some ⟨refs, .io w⟩ ∧
      s.heap.handle? token = some p ∧ (active = p :: s.ioStop token ∨ active = s.ioStop token) ∧
      t = { s with heap := s.heap.modify token (setIo f), ioActive := active } := by
  unfold setEvents at ht
  split at ht
  · rename_i refs w p hr hp
    cases ht
    refine ⟨refs, w, p, _, hr, hp, ?_, rfl⟩
    split
    · exact Or.inl rfl
    · exact Or.inr rfl
  · cases ht

theorem Kept.setEvents (h : s.Kept) {token : Ptr} {f : BitVec 32 → BitVec 32} {restart : Bool}
    (ht : s.setEvents token f restart = some t) : t.Kept := by
  obtain ⟨refs, w, p, active, hr, hp, hactive, rfl⟩ := setEvents_cases ht
  refine h.modify ?_ ?_ (fun _ hv => Or.inl hv) token
  · rintro ⟨refs, body⟩
    cases body <;> exact ⟨rfl, rfl⟩
  · intro v hv
    have hcase : v = p ∨ v ∈ s.ioStop token := by
      rcases hactive with rfl | rfl
      · exact List.mem_cons.mp hv
      · exact Or.inr hv
    rcases hcase with rfl | hv
    · refine Or.inr ⟨Heap.live_of_handle? hp, ?_⟩
      rw [Heap.handle?_addr hp]
      exact (h.io.listed token).mpr (by rw [hr]; rfl)
    · exact Or.inl (mem_ioStop.mp hv).1

/-- What a re-arming can do: nothing, or restart the watcher of a listed record. -/
theorem taskAgain_cases (h : s.Kept) (token : Ptr) (ms arg : Int) :
    ((s.taskAgain token ms arg).1 ≠ AWE_OK ∧ (s.taskAgain token ms arg).2 = s) ∨
    ((s.taskAgain token ms arg).1 = AWE_OK ∧ token ∈ s.evtimerList ∧
      ∃ p, s.heap.handle? token = some p ∧ (s.taskAgain token ms arg).2 = { s with
        heap := s.heap.modify token (setTimer ms arg)
        timerActive := p :: s.timerStop token }) := by
  unfold Scheduler.taskAgain
  split
  · exact Or.inl ⟨by simp [AWE_OK], rfl⟩
  · split
    · rename_i ha
      obtain ⟨p, hp⟩ := h.handle_timer ha
      exact Or.inr ⟨rfl, ha, p, hp, by simp [hp]⟩
    · exact Or.inl ⟨by simp [AWE_OK], rfl⟩

theorem Kept.taskAgain (h : s.Kept) (token : Ptr) (ms arg : Int) :
    (s.taskAgain token ms arg).2.Kept := by
  rcases taskAgain_cases h token ms arg with ⟨_, he⟩ | ⟨_, ha, p, hp, he⟩ <;> rw [he]
  · exact h
  · refine h.modify ?_ (fun _ hv => Or.inl hv) ?_ token
    · rintro ⟨refs, body⟩
      cases body <;> exact ⟨rfl, rfl⟩
    · intro v hv
      rcases List.mem_cons.mp hv with rfl | hv
      · exact Or.inr ⟨Heap.live_of_handle? hp, by rwa [Heap.handle?_addr hp]⟩
      · exact Or.inl (mem_timerStop.mp hv).1

theorem Kept.trigger (h : s.Kept) (u : Trigger) : (s.trigger u).2.Kept := by
  unfold Scheduler.trigger
  split
  · exact h
  · exact { h with }

/-- A start under way: the trigger descriptor is watched by the record now at `a`. -/
def opened (s : Scheduler) (a : Ptr) (heap : Heap Record) : Scheduler :=
  { s with
    started := true, sockpair := [], accepted := [], executed := []
    heap := heap
    ioActive := ⟨a, s.heap.next⟩ :: s.ioActive
    evioList := s.evioList ++ [a]
    triggertoken := a }

/-- What a start can do: nothing, or watch the trigger descriptor, and after a failure
stop again. -/
theorem start_cases {thread threadOk : Bool} {a : Ptr} {fd : Int} {status : Status}
    (ht : s.start thread threadOk a fd = some (status, t)) :
    (s.started = true ∧ t = s) ∨ (s.started = false ∧ ∃ heap,
      s.heap.alloc a ⟨1, .io ⟨fd, AWE_READ, .triggerEvent, NULL⟩⟩ = some heap ∧
      ((thread && !threadOk) = false ∧ t = s.opened a heap ∨
        (thread && !threadOk) = true ∧ t = (s.opened a heap).stop)) := by
  unfold start at ht
  split at ht
  · rename_i hst
    cases ht
    exact Or.inl ⟨hst, rfl⟩
  · rename_i hst
    obtain ⟨⟨token, u⟩, hu, he⟩ := Option.map_eq_some_iff.mp ht
    rcases watch_cases hu with ⟨hoff, _⟩ | ⟨_, rfl, _, heap, hk, rfl⟩
    · cases hoff
    · refine Or.inr ⟨by simpa using hst, heap, hk, ?_⟩
      dsimp only at he ⊢
      split at he
      · rename_i hfail
        cases he
        exact Or.inr ⟨hfail, rfl⟩
      · rename_i hok
        cases he
        exact Or.inl ⟨by simpa using hok, rfl⟩

theorem Kept.opened (h : s.Kept) {a : Ptr} {w : EvIo} {heap : Heap Record}
    (hk : s.heap.alloc a ⟨1, .io w⟩ = some heap) : (s.opened a heap).Kept := by
  have hopen : ({ s with started := true } : Scheduler).Kept := { h with stopped := by simp }
  exact { hopen.addIo rfl hk with }

theorem Kept.start (h : s.Kept) {thread threadOk : Bool} {a : Ptr} {fd : Int} {status : Status}
    (ht : s.start thread threadOk a fd = some (status, t)) : t.Kept := by
  rcases start_cases ht with ⟨_, rfl⟩ | ⟨hst, heap, hk, hu⟩
  · exact h
  · have hwatched := h.opened hk
    rcases hu with ⟨_, rfl⟩ | ⟨_, rfl⟩
    · exact hwatched
    · exact hwatched.stop

/-- What a ready descriptor can do to the records: nothing, or drop the trigger watch. -/
def Dispatched (s t : Scheduler) : Prop :=
  t = s.disableTrigger ∨ ∃ sockpair executed callback,
    (callback = s.callback ∨ callback = .other) ∧
    t = { s with sockpair := sockpair, executed := executed, callback := callback }

theorem triggerEvent_effect {recv : Recv} (ht : s.triggerEvent recv = some t) :
    s.Dispatched t := by
  cases recv with
  | data =>
    simp only [triggerEvent] at ht
    repeat' first | split at ht | cases ht
    · exact Or.inr ⟨_, _, _, Or.inl rfl, rfl⟩
    · exact Or.inr ⟨_, _, _, Or.inr rfl, rfl⟩
  | again =>
    cases ht
    exact Or.inr ⟨_, _, _, Or.inl rfl, rfl⟩
  | error =>
    cases ht
    exact Or.inl rfl

theorem ioReady_effect {w : Handle} {recv : Recv} (ht : s.ioReady w recv = some t) :
    s.Dispatched t := by
  unfold Scheduler.ioReady at ht
  split at ht
  · split at ht
    · exact triggerEvent_effect ht
    · split at ht <;> cases ht
      exact Or.inr ⟨_, _, _, Or.inr rfl, rfl⟩
    · cases ht
  · cases ht

theorem Kept.dispatched (h : s.Kept) (ht : s.Dispatched t) : t.Kept := by
  rcases ht with rfl | ⟨_, _, callback, hcb, rfl⟩
  · exact h.disableTrigger
  · refine { h with fired := fun v hv => ?_ }
    rcases hcb with rfl | rfl
    · exact h.fired v hv
    · cases hv

theorem Kept.ioReady (h : s.Kept) {w : Handle} {recv : Recv} (ht : s.ioReady w recv = some t) :
    t.Kept :=
  h.dispatched (ioReady_effect ht)

/-- What a firing does: it stops the watcher and enters the trampoline. -/
theorem fire_cases {w : Handle} (ht : s.fire w = some t) :
    s.callback = .none ∧ w ∈ s.timerActive ∧ s.heap.Live w ∧
      t = { s with timerActive := s.timerStop w.addr, callback := .timer w } := by
  unfold fire at ht
  obtain ⟨hw, ht⟩ := Option.ite_none_right_eq_some.mp ht
  split at ht
  · split at ht
    · cases ht
    · cases ht
      exact ⟨hw.1, hw.2.1, hw.2.2, rfl⟩
  · cases ht

theorem Kept.fire (h : s.Kept) {w : Handle} (ht : s.fire w = some t) : t.Kept := by
  obtain ⟨_, hw, _, rfl⟩ := fire_cases ht
  refine { h with timer := h.timer.stop (fun v hv => (mem_timerStop.mp hv).1), fired := ?_ }
  rintro v hv
  cases hv
  exact h.timer.old w hw

/-- What the end of a callback can do: nothing more, or delete the one-shot record at
the address that fired. -/
theorem ret_cases (ht : s.ret = some t) :
    (t = { s with callback := .none } ∧ ∀ w, s.callback = .timer w →
      ∃ refs u, s.heap.get? w.addr = some ⟨refs, .timer u⟩ ∧ u.type = .periodic) ∨
    ∃ w refs u, s.callback = .timer w ∧ s.heap.get? w.addr = some ⟨refs, .timer u⟩ ∧
      u.type = .nonperiodic ∧ t = { s.evtimerDel w.addr with callback := .none } := by
  unfold ret at ht
  split at ht
  · cases ht
  · rename_i hcb
    cases ht
    exact Or.inl ⟨rfl, by simp [hcb]⟩
  · rename_i w hcb
    split at ht
    · rename_i refs u hr
      split at ht
      · rename_i htype
        cases ht
        exact Or.inr ⟨w, refs, u, hcb, hr, htype, rfl⟩
      · rename_i htype
        cases ht
        refine Or.inl ⟨rfl, fun v hv => ?_⟩
        rw [hcb] at hv
        cases hv
        refine ⟨refs, u, hr, ?_⟩
        cases hu : u.type with
        | nonperiodic => exact absurd hu htype
        | periodic => rfl
    · cases ht

theorem Kept.ret (h : s.Kept) (ht : s.ret = some t) : t.Kept := by
  rcases ret_cases ht with ⟨rfl, _⟩ | ⟨w, _, _, _, _, _, rfl⟩
  · exact { h with fired := by simp }
  · exact { h.evtimerDel w.addr with fired := by simp }

theorem Kept.call (h : s.Kept) {c : Call} (ht : s.call c = some t) : t.Kept := by
  cases c with
  | start thread threadOk a fd =>
    obtain ⟨⟨status, u⟩, hu, rfl⟩ := Option.map_eq_some_iff.mp ht
    exact h.start hu
  | stop =>
    cases ht
    exact h.stop
  | watch a fd events proc userdata =>
    obtain ⟨⟨token, u⟩, hu, rfl⟩ := Option.map_eq_some_iff.mp ht
    exact h.watch hu
  | enable token events =>
    simp only [Scheduler.call, enable] at ht
    split at ht
    · cases ht
      exact h
    · exact h.setEvents ht
  | disable token events =>
    simp only [Scheduler.call, disable] at ht
    split at ht
    · cases ht
      exact h
    · exact h.setEvents ht
  | socktokenDestroy token =>
    cases ht
    exact h.socktokenDestroy token
  | delayedtask a ms proc userdata arg | periodictask a ms proc userdata arg =>
    obtain ⟨⟨token, u⟩, hu, rfl⟩ := Option.map_eq_some_iff.mp ht
    exact h.timertask hu
  | taskAgain token ms arg =>
    cases ht
    exact h.taskAgain token ms arg
  | tasktokenDestroy token =>
    cases ht
    exact h.tasktokenDestroy token
  | trigger u =>
    cases ht
    exact h.trigger u

theorem Kept.step (h : s.Kept) {a : Act} (ht : s.step a = some t) : t.Kept := by
  cases a with
  | call c => exact h.call ht
  | ioReady w recv => exact h.ioReady ht
  | fire w => exact h.fire ht
  | ret => exact h.ret ht

end Operations

theorem kept_of_run {s : Scheduler} {capacity : Nat} {as : List Act}
    (hr : Machine.run Scheduler.step (create capacity) as = some s) : s.Kept :=
  Machine.invariant (fun _ _ _ h ht => Kept.step h ht) (kept_create capacity) hr

/-- The calls that end the life of the timer record behind `token` while it is listed. -/
def Kills (token : Ptr) (c : Call) : Prop := c = .stop ∨ c = .tasktokenDestroy token

/-- What a public call can do once the books are in order. -/
inductive Effect (s : Scheduler) : Call → Scheduler → Prop where
  | nothing {c : Call} (off : c = .stop → s.started = false)
      (unlisted : ∀ a, c = .tasktokenDestroy a → a ∉ s.evtimerList) : Effect s c s
  | opened {thread threadOk : Bool} {a : Ptr} {fd : Int} {heap : Heap Record}
      (off : s.started = false)
      (alloc : s.heap.alloc a ⟨1, .io ⟨fd, AWE_READ, .triggerEvent, NULL⟩⟩ = some heap) :
      Effect s (.start thread threadOk a fd) (s.opened a heap)
  | failed {thread threadOk : Bool} {a : Ptr} {fd : Int} {heap : Heap Record}
      (off : s.started = false)
      (alloc : s.heap.alloc a ⟨1, .io ⟨fd, AWE_READ, .triggerEvent, NULL⟩⟩ = some heap) :
      Effect s (.start thread threadOk a fd) (s.opened a heap).stop
  | stopped (on : s.started = true) : Effect s .stop s.stop
  | watched {a : Ptr} {fd : Int} {events : BitVec 32} {proc userdata : Ptr} {heap : Heap Record}
      (alloc : s.heap.alloc a ⟨1, .io ⟨fd, events, .user proc, userdata⟩⟩ = some heap) :
      Effect s (.watch a fd events proc userdata) { s with
        heap := heap
        ioActive := ⟨a, s.heap.next⟩ :: s.ioActive
        evioList := s.evioList ++ [a] }
  | rewritten {c : Call} {token : Ptr} {f : BitVec 32 → BitVec 32} {active : List Handle}
      (spares : ∀ a, ¬ Kills a c) :
      Effect s c { s with heap := s.heap.modify token (setIo f), ioActive := active }
  | ioDestroyed {token : Ptr} {w : EvIo} (record : s.heap.get? token = some ⟨1, .io w⟩) :
      Effect s (.socktokenDestroy token) { s with
        evioList := s.evioList.erase token
        ioActive := s.ioStop token
        heap := s.heap.free token }
  | timed {c : Call} {a : Ptr} {w : EvTimer} {heap : Heap Record} (spares : ∀ a, ¬ Kills a c)
      (alloc : s.heap.alloc a ⟨1, .timer w⟩ = some heap) :
      Effect s c { s with
        heap := heap
        timerActive := ⟨a, s.heap.next⟩ :: s.timerActive
        evtimerList := s.evtimerList ++ [a] }
  | rearmed {token : Ptr} {ms arg : Int} {p : Handle} (listed : token ∈ s.evtimerList)
      (handle : s.heap.handle? token = some p) :
      Effect s (.taskAgain token ms arg) { s with
        heap := s.heap.modify token (setTimer ms arg)
        timerActive := p :: s.timerStop token }
  | timerDestroyed {token : Ptr} {w : EvTimer}
      (record : s.heap.get? token = some ⟨1, .timer w⟩) :
      Effect s (.tasktokenDestroy token) { s with
        evtimerList := s.evtimerList.erase token
        timerActive := s.timerStop token
        heap := s.heap.free token }
  | triggered {u : Trigger} : Effect s (.trigger u) (s.trigger u).2

theorem call_effect {s t : Scheduler} {c : Call} (h : s.Kept) (ht : s.call c = some t) :
    s.Effect c t := by
  cases c with
  | start thread threadOk a fd =>
    obtain ⟨⟨status, u⟩, hu, rfl⟩ := Option.map_eq_some_iff.mp ht
    rcases start_cases hu with ⟨_, rfl⟩ | ⟨hoff, heap, hk, ⟨_, rfl⟩ | ⟨_, rfl⟩⟩
    · exact .nothing (by simp) (by simp)
    · exact .opened hoff hk
    · exact .failed hoff hk
  | stop =>
    cases ht
    cases hst : s.started with
    | true => exact .stopped hst
    | false =>
      have he : s.stop = s := by simp [stop, hst]
      rw [he]
      exact .nothing (fun _ => hst) (by simp)
  | watch a fd events proc userdata =>
    obtain ⟨⟨token, u⟩, hu, rfl⟩ := Option.map_eq_some_iff.mp ht
    rcases watch_cases hu with ⟨_, _, rfl⟩ | ⟨_, _, _, heap, hk, rfl⟩
    · exact .nothing (by simp) (by simp)
    · exact .watched hk
  | enable token events | disable token events =>
    simp only [call, enable, disable] at ht
    split at ht
    · cases ht
      exact .nothing (by simp) (by simp)
    · obtain ⟨_, _, _, _, _, _, _, rfl⟩ := setEvents_cases ht
      exact .rewritten (by simp [Kills])
  | socktokenDestroy token =>
    cases ht
    unfold socktokenDestroy
    split
    · rename_i ha
      obtain ⟨w, hw⟩ := h.io_record ha
      rw [autorelease_eq_free hw rfl]
      exact .ioDestroyed hw
    · exact .nothing (by simp) (by simp)
  | delayedtask a ms proc userdata arg | periodictask a ms proc userdata arg =>
    obtain ⟨⟨token, u⟩, hu, rfl⟩ := Option.map_eq_some_iff.mp ht
    rcases timertask_cases hu with ⟨_, _, rfl⟩ | ⟨_, _, _, heap, hk, rfl⟩
    · exact .nothing (by simp) (by simp)
    · exact .timed (by simp [Kills]) hk
  | taskAgain token ms arg =>
    cases ht
    rcases taskAgain_cases h token ms arg with ⟨_, he⟩ | ⟨_, ha, p, hp, he⟩ <;> rw [he]
    · exact .nothing (by simp) (by simp)
    · exact .rearmed ha hp
  | tasktokenDestroy token =>
    cases ht
    unfold tasktokenDestroy
    split
    · rename_i ha
      obtain ⟨w, hw⟩ := h.timer_record ha
      rw [autorelease_eq_free hw rfl]
      exact .timerDestroyed hw
    · rename_i ha
      exact .nothing (by simp) (by rintro _ ⟨⟩; exact ha)
  | trigger u =>
    cases ht
    exact .triggered

def Act.inSession : Act → Bool
  | .call .stop | .call (.start ..) => false
  | _ => true

def session (s : Scheduler) (a : Act) : Option Scheduler :=
  if a.inSession then s.step a else none

theorem session_step {s t : Scheduler} {a : Act} (ht : s.session a = some t) :
    s.step a = some t := by
  unfold session at ht
  obtain ⟨_, ht⟩ := Option.ite_none_right_eq_some.mp ht
  exact ht

theorem inSession_of_session {s t : Scheduler} {a : Act} (ht : s.session a = some t) :
    a.inSession = true := by
  by_contra hout
  simp [session, hout] at ht

theorem Kept.session {s t : Scheduler} {a : Act} (h : s.Kept) (ht : s.session a = some t) :
    t.Kept := h.step (session_step ht)

end Awe.Scheduler
