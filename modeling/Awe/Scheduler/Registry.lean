import Mathlib.Data.List.Nodup
import Awe.Lib.Machine
import Awe.Scheduler.Model

namespace Awe.Scheduler
open Heap (Handle)

section Release

variable {heap k : Heap Record} {a : Ptr}

theorem autorelease_eq_free {r : Record} (hr : heap.get? a = some r) (hrefs : r.refs = 1) :
    autorelease heap a = heap.free a := by
  simp [autorelease, hr, hrefs]

/-- The reference of the list outlives the one of the creator. -/
theorem autorelease_addRef {r : Record} (hk : heap.alloc a r = some k) (hrefs : r.refs = 1) :
    autorelease (addRef k a) a = k := by
  have hget : k.get? a = some r := by simp [Heap.get?_alloc hk]
  have htwo : (addRef k a).get? a = some { r with refs := r.refs + 1 } := by
    simp [addRef, Heap.get?_modify, hget]
  unfold autorelease
  rw [htwo]
  dsimp only
  rw [if_neg (by omega), addRef, Heap.modify_modify]
  apply Heap.modify_eq_self
  intro v _
  simp

/-- Clearing a list frees every record in it. -/
theorem clearList_get? (hrefs : ∀ a r, heap.get? a = some r → r.refs = 1) (list : List Ptr)
    (b : Ptr) : (clearList heap list).get? b = if b ∈ list then none else heap.get? b := by
  induction list generalizing heap with
  | nil => simp [clearList]
  | cons a rest ih =>
    have hstep : ∀ b, (autorelease heap a).get? b = if b = a then none else heap.get? b := by
      intro b
      cases hr : heap.get? a with
      | none =>
        have he : autorelease heap a = heap := by simp [autorelease, hr]
        rw [he]
        split
        · subst b
          exact hr
        · rfl
      | some r => rw [autorelease_eq_free hr (hrefs a r hr), Heap.get?_free]
    have hrefs' : ∀ b r, (autorelease heap a).get? b = some r → r.refs = 1 := by
      intro b r hb
      rw [hstep] at hb
      split at hb
      · cases hb
      · exact hrefs b r hb
    have hfold : clearList heap (a :: rest) = clearList (autorelease heap a) rest := rfl
    rw [hfold, ih hrefs', hstep]
    by_cases he : b = a <;> simp [he]

theorem clearList_next (heap : Heap Record) (list : List Ptr) :
    (clearList heap list).next = heap.next := by
  induction list generalizing heap with
  | nil => rfl
  | cons a rest ih =>
    have hstep : (autorelease heap a).next = heap.next := by
      unfold autorelease
      split
      · rfl
      · split <;> rfl
    exact (ih _).trans hstep

end Release

@[simp] def Record.isIo (r : Record) : Bool :=
  match r.body with
  | .io _ => true
  | .timer _ => false

/-- One list of the scheduler and the watchers of its kind: the list holds exactly the
records of the kind, and an active watcher is of one of them, allocated still or not. -/
structure Registered (isIo : Bool) (heap : Heap Record) (list : List Ptr)
    (active : List Handle) : Prop where
  listed : ∀ a, a ∈ list ↔ (heap.get? a).map Record.isIo = some isIo
  nodup : list.Nodup
  old : ∀ w ∈ active, w.birth < heap.next
  live : ∀ w ∈ active, heap.Live w → w.addr ∈ list

section Registered

variable {isIo : Bool} {heap k : Heap Record} {list : List Ptr} {active active' : List Handle}
  {a : Ptr} {r : Record}

/-- Nothing is listed at an address the allocator gives. -/
theorem Registered.unlisted (h : Registered isIo heap list active)
    (hk : heap.alloc a r = some k) : a ∉ list := by
  intro ha
  have := (h.listed a).mp ha
  rw [Heap.alloc_free_before hk] at this
  cases this

/-- A new record comes onto the list of its kind with an active watcher. -/
theorem Registered.add (h : Registered isIo heap list active) (hk : heap.alloc a r = some k)
    (hr : r.isIo = isIo) : Registered isIo k (list ++ [a]) (⟨a, heap.next⟩ :: active) := by
  constructor
  · intro b
    rw [List.mem_append, List.mem_singleton, h.listed b, Heap.get?_alloc hk]
    by_cases hba : b = a <;> simp [hba, ← hr]
  · exact List.nodup_append'.mpr ⟨h.nodup, List.nodup_singleton _,
      List.disjoint_singleton.mpr (h.unlisted hk)⟩
  · intro w hw
    rw [Heap.next_alloc hk]
    rcases List.mem_cons.mp hw with rfl | hw
    · exact Nat.lt_succ_self _
    · exact Nat.lt_succ_of_lt (h.old w hw)
  · intro w hw hl
    rcases List.mem_cons.mp hw with rfl | hw
    · simp
    · rcases (Heap.live_alloc hk).mp hl with rfl | hl
      · simp
      · exact List.mem_append_left _ (h.live w hw hl)

/-- A new record of the other kind is no concern of the list. -/
theorem Registered.addOther (h : Registered isIo heap list active)
    (hk : heap.alloc a r = some k) (hr : r.isIo ≠ isIo) : Registered isIo k list active := by
  refine ⟨?_, h.nodup, ?_, ?_⟩
  · intro b
    rw [h.listed b, Heap.get?_alloc hk]
    by_cases hba : b = a
    · subst b
      rw [Heap.alloc_free_before hk, if_pos rfl]
      simpa using hr
    · rw [if_neg hba]
  · intro w hw
    rw [Heap.next_alloc hk]
    exact Nat.lt_succ_of_lt (h.old w hw)
  · intro w hw hl
    rcases (Heap.live_alloc hk).mp hl with rfl | hl
    · exact absurd (h.old _ hw) (Nat.lt_irrefl _)
    · exact h.live w hw hl

/-- A record leaves its list and the heap, whatever becomes of its watcher. -/
theorem Registered.drop (h : Registered isIo heap list active)
    (hactive : ∀ w ∈ active', w ∈ active) (a : Ptr) :
    Registered isIo (heap.free a) (list.erase a) active' := by
  refine ⟨?_, h.nodup.erase a, fun w hw => h.old w (hactive w hw), ?_⟩
  · intro b
    rw [h.nodup.mem_erase_iff, h.listed b, Heap.get?_free]
    by_cases hba : b = a <;> simp [hba]
  · intro w hw hl
    obtain ⟨hne, hl⟩ := Heap.live_free.mp hl
    exact h.nodup.mem_erase_iff.mpr ⟨hne, h.live w (hactive w hw) hl⟩

theorem Registered.dropOther (h : Registered isIo heap list active)
    (hr : heap.get? a = some r) (hkind : r.isIo ≠ isIo) :
    Registered isIo (heap.free a) list active := by
  refine ⟨?_, h.nodup, h.old, fun w hw hl => h.live w hw (Heap.live_free.mp hl).2⟩
  intro b
  rw [h.listed b, Heap.get?_free]
  by_cases hba : b = a
  · subst b
    rw [hr, if_pos rfl]
    simpa using hkind
  · rw [if_neg hba]

/-- Writing to a record without changing its kind, and moving live watchers of listed
records in and out of the loop. -/
theorem Registered.modify (h : Registered isIo heap list active) {f : Record → Record}
    (hf : ∀ r, (f r).isIo = r.isIo)
    (hactive : ∀ w ∈ active', w ∈ active ∨ (heap.Live w ∧ w.addr ∈ list)) (a : Ptr) :
    Registered isIo (heap.modify a f) list active' := by
  refine ⟨?_, h.nodup, ?_, ?_⟩
  · intro b
    rw [h.listed b, Heap.get?_modify]
    split
    · rw [Option.map_map, show Record.isIo ∘ f = Record.isIo from funext hf]
    · rfl
  · intro w hw
    rcases hactive w hw with hw | ⟨hl, _⟩
    · exact h.old w hw
    · exact hl.birth_lt
  · intro w hw hl
    rcases hactive w hw with hw | ⟨_, ha⟩
    · exact h.live w hw (Heap.live_modify.mp hl)
    · exact ha

/-- A watcher is stopped, the record stays. -/
theorem Registered.stop (h : Registered isIo heap list active)
    (hactive : ∀ w ∈ active', w ∈ active) : Registered isIo heap list active' :=
  { h with
    old := fun w hw => h.old w (hactive w hw)
    live := fun w hw => h.live w (hactive w hw) }

/-- Everything is freed, and the loop keeps its watchers. -/
theorem Registered.clear (h : Registered isIo heap list active) (hnone : ∀ a, k.get? a = none)
    (hnext : k.next = heap.next) : Registered isIo k [] active := by
  refine ⟨by simp [hnone], List.nodup_nil, fun w hw => hnext ▸ h.old w hw, fun w _ hl => ?_⟩
  exact absurd hl (Heap.not_live_of_get? (hnone w.addr))

end Registered

/-- The books are in order: each record is allocated exactly as long as the list of its
kind holds it, by one reference. -/
structure Kept (s : Scheduler) : Prop where
  refs : ∀ a r, s.heap.get? a = some r → r.refs = 1
  io : Registered true s.heap s.evioList s.ioActive
  timer : Registered false s.heap s.evtimerList s.timerActive
  timeout : s.evtimeoutList = []
  stopped : s.started = false → s.evioList = [] ∧ s.evtimerList = []
  fired : ∀ w, s.callback = .timer w → w.birth < s.heap.next

theorem kept_create (capacity : Nat) : (create capacity).Kept where
  refs := by simp [create]
  io := by constructor <;> simp [create]
  timer := by constructor <;> simp [create]
  timeout := rfl
  stopped := fun _ => ⟨rfl, rfl⟩
  fired := by simp [create]

section Kept

variable {s : Scheduler} {a : Ptr}

/-- A listed record is allocated, by one reference. -/
theorem Kept.timer_record (h : s.Kept) (ha : a ∈ s.evtimerList) :
    ∃ w, s.heap.get? a = some ⟨1, .timer w⟩ := by
  obtain ⟨⟨refs, body⟩, hr, hkind⟩ := Option.map_eq_some_iff.mp ((h.timer.listed a).mp ha)
  have hone : refs = 1 := h.refs a _ hr
  cases body with
  | io w => cases hkind
  | timer w => exact ⟨w, hone ▸ hr⟩

theorem Kept.io_record (h : s.Kept) (ha : a ∈ s.evioList) :
    ∃ w, s.heap.get? a = some ⟨1, .io w⟩ := by
  obtain ⟨⟨refs, body⟩, hr, hkind⟩ := Option.map_eq_some_iff.mp ((h.io.listed a).mp ha)
  have hone : refs = 1 := h.refs a _ hr
  cases body with
  | io w => exact ⟨w, hone ▸ hr⟩
  | timer w => cases hkind

theorem Kept.handle_timer (h : s.Kept) (ha : a ∈ s.evtimerList) :
    ∃ p, s.heap.handle? a = some p := by
  obtain ⟨w, hr⟩ := h.timer_record ha
  cases hp : s.heap.handle? a with
  | none => simp [Heap.handle?_none.mp hp] at hr
  | some p => exact ⟨p, rfl⟩

/-- A live active timer is one of a listed timer record. -/
theorem Kept.live_timer (h : s.Kept) {w : Handle} (hw : w ∈ s.timerActive)
    (hl : s.heap.Live w) : ∃ t, s.heap.get? w.addr = some ⟨1, .timer t⟩ :=
  h.timer_record (h.timer.live w hw hl)

/-- A record that is freed leaves the others their one reference. -/
theorem Kept.refs_free (h : s.Kept) (a : Ptr) :
    ∀ b r, (s.heap.free a).get? b = some r → r.refs = 1 := by
  intro b r hb
  rw [Heap.get?_free] at hb
  split at hb
  · cases hb
  · exact h.refs b r hb

theorem Kept.refs_alloc (h : s.Kept) {body : Body} {k : Heap Record}
    (hk : s.heap.alloc a ⟨1, body⟩ = some k) : ∀ b r, k.get? b = some r → r.refs = 1 := by
  intro b r hb
  rw [Heap.get?_alloc hk] at hb
  split at hb
  · cases hb
    rfl
  · exact h.refs b r hb

theorem Kept.refs_modify (h : s.Kept) {f : Record → Record} (hf : ∀ r, (f r).refs = r.refs)
    (a : Ptr) : ∀ b r, (s.heap.modify a f).get? b = some r → r.refs = 1 := by
  intro b r hb
  rw [Heap.get?_modify] at hb
  split at hb
  · obtain ⟨q, hq, rfl⟩ := Option.map_eq_some_iff.mp hb
    rw [hf]
    exact h.refs b q hq
  · exact h.refs b r hb

/-- A timer record leaves its list, whatever becomes of its watcher. -/
theorem Kept.dropTimer (h : s.Kept) (ha : a ∈ s.evtimerList) {active : List Handle}
    (hactive : ∀ w ∈ active, w ∈ s.timerActive) :
    ({ s with
      evtimerList := s.evtimerList.erase a
      timerActive := active
      heap := autorelease s.heap a } : Scheduler).Kept := by
  obtain ⟨w, hw⟩ := h.timer_record ha
  rw [autorelease_eq_free hw rfl]
  refine { h with refs := h.refs_free a, io := ?_, timer := h.timer.drop hactive a, stopped := ?_ }
  · exact h.io.dropOther hw (by simp)
  · intro hst
    exact ⟨(h.stopped hst).1, by simp [(h.stopped hst).2]⟩

theorem Kept.dropIo (h : s.Kept) (ha : a ∈ s.evioList) {active : List Handle}
    (hactive : ∀ w ∈ active, w ∈ s.ioActive) :
    ({ s with
      evioList := s.evioList.erase a
      ioActive := active
      heap := autorelease s.heap a } : Scheduler).Kept := by
  obtain ⟨w, hw⟩ := h.io_record ha
  rw [autorelease_eq_free hw rfl]
  refine { h with refs := h.refs_free a, io := h.io.drop hactive a, timer := ?_, stopped := ?_ }
  · exact h.timer.dropOther hw (by simp)
  · intro hst
    exact ⟨by simp [(h.stopped hst).1], (h.stopped hst).2⟩

/-- A new io record comes onto its list with an active watcher. -/
theorem Kept.addIo {w : EvIo} {heap : Heap Record} (h : s.Kept) (hst : s.started = true)
    (hk : s.heap.alloc a ⟨1, .io w⟩ = some heap) :
    ({ s with
      heap := heap
      ioActive := ⟨a, s.heap.next⟩ :: s.ioActive
      evioList := s.evioList ++ [a] } : Scheduler).Kept where
  refs := h.refs_alloc hk
  io := h.io.add hk rfl
  timer := h.timer.addOther hk (by simp)
  timeout := h.timeout
  stopped := by simp [hst]
  fired v hv := by
    rw [Heap.next_alloc hk]
    exact Nat.lt_succ_of_lt (h.fired v hv)

theorem Kept.addTimer {w : EvTimer} {heap : Heap Record} (h : s.Kept) (hst : s.started = true)
    (hk : s.heap.alloc a ⟨1, .timer w⟩ = some heap) :
    ({ s with
      heap := heap
      timerActive := ⟨a, s.heap.next⟩ :: s.timerActive
      evtimerList := s.evtimerList ++ [a] } : Scheduler).Kept where
  refs := h.refs_alloc hk
  io := h.io.addOther hk (by simp)
  timer := h.timer.add hk rfl
  timeout := h.timeout
  stopped := by simp [hst]
  fired v hv := by
    rw [Heap.next_alloc hk]
    exact Nat.lt_succ_of_lt (h.fired v hv)

/-- Writing to a record without changing its kind or its references keeps the books. -/
theorem Kept.modify (h : s.Kept) {f : Record → Record} {io timer : List Handle}
    (hf : ∀ r, (f r).refs = r.refs ∧ (f r).isIo = r.isIo)
    (hio : ∀ w ∈ io, w ∈ s.ioActive ∨ (s.heap.Live w ∧ w.addr ∈ s.evioList))
    (htimer : ∀ w ∈ timer, w ∈ s.timerActive ∨ (s.heap.Live w ∧ w.addr ∈ s.evtimerList))
    (a : Ptr) :
    ({ s with heap := s.heap.modify a f, ioActive := io, timerActive := timer } :
      Scheduler).Kept :=
  { h with
    refs := h.refs_modify (fun r => (hf r).1) a
    io := h.io.modify (fun r => (hf r).2) hio a
    timer := h.timer.modify (fun r => (hf r).2) htimer a }

end Kept

end Awe.Scheduler
