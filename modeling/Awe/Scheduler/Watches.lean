import Awe.Scheduler.Stop
import Awe.Scheduler.Trampoline
import Awe.Scheduler.TriggerOrder

namespace Awe
open Machine
open Heap (Handle)

/-- The io watchers active in the loop, each with the events it was started for. -/
abbrev IoLoop := List (Handle × BitVec 32)

namespace IoLoop

/-- `ev_io_start`, which does nothing to an active watcher. -/
def start (loop : IoLoop) (w : Handle) (events : BitVec 32) : IoLoop :=
  if w ∈ loop.map Prod.fst then loop else (w, events) :: loop

/-- `ev_io_stop`. -/
def stop (loop : IoLoop) (w : Handle) : IoLoop := loop.filter (fun p => p.1 ≠ w)

variable {loop : IoLoop} {w : Handle}

theorem start_eq (hw : w ∉ loop.map Prod.fst) (events : BitVec 32) :
    loop.start w events = (w, events) :: loop := if_neg hw

theorem mem_stop {p : Handle × BitVec 32} : p ∈ loop.stop w ↔ p ∈ loop ∧ p.1 ≠ w := by
  simp [stop]

theorem map_stop : (loop.stop w).map Prod.fst = (loop.map Prod.fst).filter (fun v => v ≠ w) := by
  simp [stop, List.filter_map, Function.comp_def]

theorem not_mem_stop : w ∉ (loop.stop w).map Prod.fst := by
  simp [map_stop]

end IoLoop

namespace Scheduler

def ioAt (s : Scheduler) (a : Ptr) : Option EvIo :=
  match s.heap.get? a with
  | some ⟨_, .io w⟩ => some w
  | _ => none

section IoAt

variable {s t : Scheduler} {a b : Ptr}

theorem ioAt_eq_some {w : EvIo} :
    s.ioAt a = some w ↔ ∃ refs, s.heap.get? a = some ⟨refs, .io w⟩ := by
  unfold ioAt
  split
  · rename_i refs v hr
    simp [hr]
  · rename_i hr
    simp only [reduceCtorEq, false_iff, not_exists]
    exact fun refs => hr refs w

theorem ioAt_congr (h : t.heap.get? a = s.heap.get? a) : t.ioAt a = s.ioAt a := by
  unfold ioAt
  rw [h]

theorem ioAt_timer {refs : Int} {w : EvTimer} (h : s.heap.get? a = some ⟨refs, .timer w⟩) :
    s.ioAt a = none := by
  simp [ioAt, h]

theorem ioAt_none (h : s.heap.get? a = none) : s.ioAt a = none := by
  simp [ioAt, h]

theorem ioAt_io {refs : Int} {w : EvIo} (h : s.heap.get? a = some ⟨refs, .io w⟩) :
    s.ioAt a = some w := by
  simp [ioAt, h]

theorem Kept.listed_iff (h : s.Kept) : a ∈ s.evioList ↔ ∃ w, s.ioAt a = some w := by
  constructor
  · intro ha
    obtain ⟨w, hw⟩ := h.io_record ha
    exact ⟨w, ioAt_io hw⟩
  · rintro ⟨w, hw⟩
    obtain ⟨refs, hr⟩ := ioAt_eq_some.mp hw
    exact (h.io.listed a).mpr (by simp [hr])

theorem Kept.io_handle (h : s.Kept) (ha : a ∈ s.evioList) :
    ∃ p, s.heap.handle? a = some p := by
  obtain ⟨w, hr⟩ := h.io_record ha
  cases hp : s.heap.handle? a with
  | none => simp [Heap.handle?_none.mp hp] at hr
  | some p => exact ⟨p, rfl⟩

end IoAt

section Writes

variable {s t : Scheduler} {a : Ptr}

theorem ioAt_alloc {w : EvIo} (hk : s.heap.alloc a ⟨1, .io w⟩ = some t.heap) (b : Ptr) :
    t.ioAt b = if b = a then some w else s.ioAt b := by
  split
  · rename_i hb
    exact ioAt_io (by rw [Heap.get?_alloc hk, if_pos hb])
  · rename_i hb
    exact ioAt_congr (by rw [Heap.get?_alloc hk, if_neg hb])

theorem ioAt_free (ht : t.heap = s.heap.free a) (b : Ptr) :
    t.ioAt b = if b = a then none else s.ioAt b := by
  split
  · rename_i hb
    exact ioAt_none (by rw [ht, Heap.get?_free, if_pos hb])
  · rename_i hb
    exact ioAt_congr (by rw [ht, Heap.get?_free, if_neg hb])

theorem ioAt_setIo {f : BitVec 32 → BitVec 32} (ht : t.heap = s.heap.modify a (setIo f))
    {w : EvIo} (hw : s.ioAt a = some w) (b : Ptr) :
    t.ioAt b = if b = a then some { w with events := f w.events } else s.ioAt b := by
  obtain ⟨refs, hr⟩ := ioAt_eq_some.mp hw
  split
  · rename_i hb
    subst b
    exact ioAt_io (by rw [ht, Heap.get?_modify, if_pos rfl, hr]; rfl)
  · rename_i hb
    exact ioAt_congr (by rw [ht, Heap.get?_modify, if_neg hb])

theorem start_ok {thread threadOk : Bool} {fd : Int} (hoff : s.started = false)
    (ht : s.start thread threadOk a fd = some (AWE_OK, t)) :
    ∃ heap, s.heap.alloc a ⟨1, .io ⟨fd, AWE_READ, .triggerEvent, NULL⟩⟩ = some heap ∧
      t = s.opened a heap := by
  unfold start at ht
  rw [if_neg (by simp [hoff])] at ht
  obtain ⟨⟨token, u⟩, hu, he⟩ := Option.map_eq_some_iff.mp ht
  rcases watch_cases hu with ⟨hst, _⟩ | ⟨_, rfl, _, heap, hk, rfl⟩
  · cases hst
  · dsimp only at he
    split at he
    · cases he
    · cases he
      exact ⟨heap, hk, rfl⟩

/-- What enable and disable make of the record and the watcher of a live token. -/
theorem setEvents_spec {token : Ptr} {f : BitVec 32 → BitVec 32} {restart : Bool}
    (ht : s.setEvents token f restart = some t) :
    ∃ w p, s.ioAt token = some w ∧ s.heap.handle? token = some p ∧
      t = { s with
        heap := s.heap.modify token (setIo f)
        ioActive := if restart ∨ (f w.events).toInt > 0 then p :: s.ioStop token
          else s.ioStop token } := by
  unfold setEvents at ht
  split at ht
  · rename_i refs w p hr hp
    cases ht
    exact ⟨w, p, ioAt_io hr, hp, rfl⟩
  · cases ht

end Writes

/-- A step that leaves the io records, their list and their watchers alone. -/
structure IoFrame (s t : Scheduler) : Prop where
  started : t.started = s.started
  list : t.evioList = s.evioList
  active : t.ioActive = s.ioActive
  same : ∀ a, t.ioAt a = s.ioAt a
  live : ∀ p w, s.ioAt p.addr = some w → (t.heap.Live p ↔ s.heap.Live p)
  ages : s.Ages t

section IoFrame

variable {s t : Scheduler} {a : Ptr}

theorem IoFrame.of_heap (hst : t.started = s.started) (hlist : t.evioList = s.evioList)
    (hactive : t.ioActive = s.ioActive) (hheap : t.heap = s.heap) : s.IoFrame t where
  started := hst
  list := hlist
  active := hactive
  same a := ioAt_congr (by rw [hheap])
  live p w _ := by rw [hheap]
  ages := by
    unfold Ages
    rw [hheap]
    exact Ages.refl s

/-- Writes to the heap that spare every address but one, which no io record lies at. -/
theorem IoFrame.of_other (hst : t.started = s.started) (hlist : t.evioList = s.evioList)
    (hactive : t.ioActive = s.ioActive) (hages : s.Ages t) (hs : s.ioAt a = none)
    (ht : t.ioAt a = none) (hget : ∀ b, b ≠ a → t.heap.get? b = s.heap.get? b)
    (hlive : ∀ p, p.addr ≠ a → (t.heap.Live p ↔ s.heap.Live p)) : s.IoFrame t where
  started := hst
  list := hlist
  active := hactive
  same b := by
    by_cases hb : b = a
    · rw [hb, hs, ht]
    · exact ioAt_congr (hget b hb)
  live p w hw := by
    apply hlive p
    intro hp
    rw [hp, hs] at hw
    cases hw
  ages := hages

theorem IoFrame.alloc_timer {w : EvTimer} (hst : t.started = s.started)
    (hlist : t.evioList = s.evioList) (hactive : t.ioActive = s.ioActive)
    (hk : s.heap.alloc a ⟨1, .timer w⟩ = some t.heap) : s.IoFrame t := by
  apply IoFrame.of_other hst hlist hactive (.of_alloc hk) (a := a)
  · exact ioAt_none (Heap.alloc_free_before hk)
  · exact ioAt_timer (by rw [Heap.get?_alloc hk, if_pos rfl])
  · intro b hb
    rw [Heap.get?_alloc hk, if_neg hb]
  · intro p hp
    rw [Heap.live_alloc hk]
    constructor
    · rintro (rfl | hl)
      · exact absurd rfl hp
      · exact hl
    · exact Or.inr

theorem IoFrame.free_timer {w : EvTimer} (hst : t.started = s.started)
    (hlist : t.evioList = s.evioList) (hactive : t.ioActive = s.ioActive)
    (hr : s.heap.get? a = some ⟨1, .timer w⟩) (hheap : t.heap = s.heap.free a) :
    s.IoFrame t := by
  apply IoFrame.of_other hst hlist hactive (.of_free hheap) (a := a)
  · exact ioAt_timer hr
  · exact ioAt_none (by rw [hheap, Heap.get?_free, if_pos rfl])
  · intro b hb
    rw [hheap, Heap.get?_free, if_neg hb]
  · intro p hp
    rw [hheap, Heap.live_free]
    exact and_iff_right hp

theorem IoFrame.modify_timer {w v : EvTimer} {f : Record → Record} (hst : t.started = s.started)
    (hlist : t.evioList = s.evioList) (hactive : t.ioActive = s.ioActive)
    (hr : s.heap.get? a = some ⟨1, .timer w⟩) (hf : f ⟨1, .timer w⟩ = ⟨1, .timer v⟩)
    (hheap : t.heap = s.heap.modify a f) : s.IoFrame t := by
  apply IoFrame.of_other hst hlist hactive (.of_modify hheap) (a := a)
  · exact ioAt_timer hr
  · exact ioAt_timer (by rw [hheap, Heap.get?_modify, if_pos rfl, hr, Option.map_some, hf])
  · intro b hb
    rw [hheap, Heap.get?_modify, if_neg hb]
  · intro p _
    rw [hheap, Heap.live_modify]

end IoFrame

def Call.onIo : Call → Bool
  | .watch .. | .enable .. | .disable .. | .socktokenDestroy _ => true
  | _ => false

theorem call_ioFrame {s t : Scheduler} {c : Call} (hk : s.Kept)
    (hsession : Act.inSession (.call c) = true) (hc : c.onIo = false)
    (ht : s.call c = some t) : s.IoFrame t := by
  cases c with
  | start | stop => cases hsession
  | watch | enable | disable | socktokenDestroy => cases hc
  | delayedtask a ms proc userdata arg | periodictask a ms proc userdata arg =>
    obtain ⟨⟨token, u⟩, hu, rfl⟩ := Option.map_eq_some_iff.mp ht
    rcases timertask_cases hu with ⟨_, _, rfl⟩ | ⟨_, _, _, heap, halloc, rfl⟩
    · exact .of_heap rfl rfl rfl rfl
    · exact .alloc_timer rfl rfl rfl halloc
  | taskAgain token ms arg =>
    cases ht
    rcases taskAgain_cases hk token ms arg with ⟨_, he⟩ | ⟨_, ha, _, _, he⟩ <;> rw [he]
    · exact .of_heap rfl rfl rfl rfl
    · obtain ⟨w, hr⟩ := hk.timer_record ha
      exact .modify_timer rfl rfl rfl hr rfl rfl
  | tasktokenDestroy token =>
    cases ht
    unfold tasktokenDestroy
    split
    · rename_i ha
      obtain ⟨w, hr⟩ := hk.timer_record ha
      exact .free_timer rfl rfl rfl hr (autorelease_eq_free hr rfl)
    · exact .of_heap rfl rfl rfl rfl
  | trigger u =>
    cases ht
    unfold trigger
    split <;> exact .of_heap rfl rfl rfl rfl

theorem ret_ioFrame {s t : Scheduler} (hk : s.Kept) (ht : s.ret = some t) : s.IoFrame t := by
  rcases ret_cases ht with ⟨rfl, _⟩ | ⟨w, _, _, _, _, _, rfl⟩
  · exact .of_heap rfl rfl rfl rfl
  · unfold evtimerDel
    split
    · rename_i ha
      obtain ⟨v, hr⟩ := hk.timer_record ha
      exact .free_timer rfl rfl rfl hr (autorelease_eq_free hr rfl)
    · exact .of_heap rfl rfl rfl rfl

/-- The loop drops the trigger watch when its descriptor fails, and nothing else. -/
theorem ioReady_ioFrame {s t : Scheduler} {w : Handle} {recv : Recv}
    (ht : s.ioReady w recv = some t) :
    (recv = .error ∧ s.readsTrigger w.addr = true ∧ t = s.disableTrigger) ∨
      (¬ (recv = .error ∧ s.readsTrigger w.addr = true) ∧ s.IoFrame t) := by
  rcases ioReady_cases ht with ⟨hread, hevent⟩ | ⟨hread, _⟩
  · cases recv with
    | error =>
      cases hevent
      exact Or.inl ⟨rfl, hread, rfl⟩
    | again =>
      cases hevent
      exact Or.inr ⟨by simp, .of_heap rfl rfl rfl rfl⟩
    | data =>
      refine Or.inr ⟨by simp, ?_⟩
      simp only [triggerEvent] at hevent
      repeat' first | split at hevent | cases hevent
      · exact .of_heap rfl rfl rfl rfl
      · exact .of_heap rfl rfl rfl rfl
  · refine Or.inr ⟨by simp [hread], ?_⟩
    unfold ioReady at ht
    split at ht
    · split at ht
      · rename_i hr
        simp [readsTrigger, hr] at hread
      · split at ht <;> cases ht
        exact .of_heap rfl rfl rfl rfl
      · cases ht
    · cases ht

end Scheduler

/-- The scheduler with what its loop watches for, the events each live token asks for,
and the io records freed so far. -/
structure Watching where
  sched : Scheduler
  loop : IoLoop
  asked : Ptr → Option (BitVec 32)
  freed : List Handle

namespace Watching
open Scheduler

/-- Where the start of the scheduler finds `rest` in its loop. -/
def begin (s₀ s : Scheduler) (rest : IoLoop) (a : Ptr) : Watching where
  sched := s
  loop := rest.start ⟨a, s₀.heap.next⟩ AWE_READ
  asked := Function.update (fun _ => none) a (some AWE_READ)
  freed := []

def watched (x : Watching) (t : Scheduler) (a : Ptr) (events : BitVec 32) : Watching where
  sched := t
  loop := x.loop.start ⟨a, x.sched.heap.next⟩ events
  asked := Function.update x.asked a (some events)
  freed := x.freed

/-- The watcher is stopped, gets its new events, and is started for them. -/
def changed (x : Watching) (t : Scheduler) (token : Ptr) (f : BitVec 32 → BitVec 32)
    (restart : Bool) : Watching :=
  match x.sched.ioAt token, x.sched.heap.handle? token with
  | some w, some p =>
    { sched := t
      loop := if restart ∨ (f w.events).toInt > 0 then (x.loop.stop p).start p (f w.events)
        else x.loop.stop p
      asked := Function.update x.asked token ((x.asked token).map f)
      freed := x.freed }
  | _, _ => { x with sched := t }

def destroyed (x : Watching) (t : Scheduler) (token : Ptr) : Watching :=
  match x.sched.heap.handle? token with
  | some p =>
    if token ∈ x.sched.evioList then
      { sched := t
        loop := x.loop.stop p
        asked := Function.update x.asked token none
        freed := x.freed ++ if t.heap.Live p then [] else [p] }
    else { x with sched := t }
  | none => { x with sched := t }

/-- What the loop and the tokens come to when the scheduler goes to `t`. -/
def effect (x : Watching) (t : Scheduler) : Act → Watching
  | .call (.watch a _ events _ _) =>
    if !x.sched.started then { x with sched := t } else x.watched t a events
  | .call (.enable token events) =>
    if !x.sched.started ∨ token = NULL then { x with sched := t }
    else x.changed t token (· ||| events) true
  | .call (.disable token events) =>
    if token = NULL then { x with sched := t } else x.changed t token (· &&& ~~~events) false
  | .call (.socktokenDestroy token) => x.destroyed t token
  | .ioReady w recv =>
    if recv = .error ∧ x.sched.readsTrigger w.addr = true then
      x.destroyed t x.sched.triggertoken
    else { x with sched := t }
  | _ => { x with sched := t }

def READ_WRITE : BitVec 32 := AWE_READ ||| AWE_WRITE

/-- The masks that a call passes are made of `AWE_READ` and `AWE_WRITE`. -/
def masked : Act → Bool
  | .call (.watch _ _ events _ _) => Within events READ_WRITE
  | .call (.enable _ events) => Within events READ_WRITE
  | .call (.disable _ events) => Within events READ_WRITE
  | _ => true

def step (x : Watching) (a : Act) : Option Watching :=
  if masked a then (x.sched.session a).map (fun t => x.effect t a) else none

theorem step_spec {x y : Watching} {a : Act} (hy : x.step a = some y) :
    masked a = true ∧ ∃ t, x.sched.session a = some t ∧ y = x.effect t a := by
  unfold step at hy
  split at hy
  · rename_i hmask
    obtain ⟨t, ht, rfl⟩ := Option.map_eq_some_iff.mp hy
    exact ⟨hmask, t, ht, rfl⟩
  · cases hy

/-- What is registered, in the loop and in the list of the scheduler. -/
structure Booked (rest : IoLoop) (x : Watching) : Prop where
  kept : x.sched.Kept
  on : x.sched.started = true
  active : x.loop.map Prod.fst = x.sched.ioActive
  left : ∀ p ∈ rest, p.1.birth < x.sched.heap.next ∧ ¬ x.sched.heap.Live p.1
  owned : ∀ p ∈ x.loop, p ∈ rest ∨ x.sched.heap.Live p.1 ∧
    ∃ w, x.sched.ioAt p.1.addr = some w ∧ w.events = p.2
  asked : ∀ a w, x.sched.ioAt a = some w →
    x.asked a = some w.events ∧ Within w.events READ_WRITE
  started : ∀ p w, x.sched.heap.Live p → x.sched.ioAt p.addr = some w → w.events ≠ 0 →
    (p, w.events) ∈ x.loop
  once : x.freed.Nodup
  gone : ∀ p ∈ x.freed, p.birth < x.sched.heap.next ∧ ¬ x.sched.heap.Live p ∧
    p ∉ x.loop.map Prod.fst

section Booked

variable {rest : IoLoop} {x : Watching} {t : Scheduler}

theorem Booked.frame (h : x.Booked rest) (hk : t.Kept) (hf : x.sched.IoFrame t) :
    ({ x with sched := t } : Watching).Booked rest where
  kept := hk
  on := hf.started.trans h.on
  active := h.active.trans hf.active.symm
  left p hp := by
    obtain ⟨hold, hdead⟩ := h.left p hp
    exact ⟨Nat.lt_of_lt_of_le hold hf.ages.1, fun hl => hdead (hf.ages.2 _ hold hl)⟩
  owned p hp := by
    rcases h.owned p hp with hrest | ⟨hl, w, hw, he⟩
    · exact Or.inl hrest
    · exact Or.inr ⟨(hf.live p.1 w hw).mpr hl, w, (hf.same _).trans hw, he⟩
  asked a w hw := h.asked a w ((hf.same a).symm.trans hw)
  started p w hl hw := by
    have hw' := (hf.same p.addr).symm.trans hw
    exact h.started p w ((hf.live p w hw').mp hl) hw'
  once := h.once
  gone p hp := by
    obtain ⟨hold, hdead, hout⟩ := h.gone p hp
    exact ⟨Nat.lt_of_lt_of_le hold hf.ages.1, fun hl => hdead (hf.ages.2 p hold hl), hout⟩

/-- A new record is watched for what it asks for. -/
theorem Booked.watched (h : x.Booked rest) {a : Ptr} {w : EvIo}
    (hmask : Within w.events READ_WRITE) (hk : t.Kept) (hst : t.started = true)
    (halloc : x.sched.heap.alloc a ⟨1, .io w⟩ = some t.heap)
    (hactive : t.ioActive = ⟨a, x.sched.heap.next⟩ :: x.sched.ioActive) :
    (x.watched t a w.events).Booked rest := by
  have hages : x.sched.Ages t := .of_alloc halloc
  have hfresh : (⟨a, x.sched.heap.next⟩ : Handle) ∉ x.loop.map Prod.fst := by
    rw [h.active]
    exact fun hin => Nat.lt_irrefl _ (h.kept.io.old _ hin)
  have hnew : t.heap.Live ⟨a, x.sched.heap.next⟩ := (Heap.live_alloc halloc).mpr (Or.inl rfl)
  have hother : ∀ p, x.sched.heap.Live p → p.addr ≠ a := by
    intro p hl he
    have hnone := Heap.handle?_none.mpr (Heap.alloc_free_before halloc)
    rw [Heap.Live, he, hnone] at hl
    cases hl
  have hloop : (x.watched t a w.events).loop = (⟨a, x.sched.heap.next⟩, w.events) :: x.loop :=
    IoLoop.start_eq hfresh w.events
  constructor
  · exact hk
  · exact hst
  · rw [hloop, List.map_cons, h.active]
    exact hactive.symm
  · intro p hp
    obtain ⟨hold, hdead⟩ := h.left p hp
    exact ⟨Nat.lt_of_lt_of_le hold hages.1, fun hl => hdead (hages.2 _ hold hl)⟩
  · intro p hp
    rw [hloop] at hp
    rcases List.mem_cons.mp hp with he | hp
    · subst p
      exact Or.inr ⟨hnew, w, by simp [Watching.watched, ioAt_alloc halloc], rfl⟩
    · rcases h.owned p hp with hrest | ⟨hl, v, hv, he⟩
      · exact Or.inl hrest
      · refine Or.inr ⟨(Heap.live_alloc halloc).mpr (Or.inr hl), v, ?_, he⟩
        exact (ioAt_alloc halloc _).trans (by rw [if_neg (hother _ hl), hv])
  · intro b v hv
    have hcase := (ioAt_alloc halloc b).symm.trans hv
    by_cases hb : b = a
    · rw [if_pos hb] at hcase
      cases hcase
      subst b
      exact ⟨Function.update_self .., hmask⟩
    · rw [if_neg hb] at hcase
      obtain ⟨hasked, hwithin⟩ := h.asked b v hcase
      exact ⟨(Function.update_of_ne hb ..).trans hasked, hwithin⟩
  · intro p v hl hv hne
    have hcase := (ioAt_alloc halloc p.addr).symm.trans hv
    rw [hloop]
    rcases (Heap.live_alloc halloc).mp hl with he | hl
    · subst p
      rw [if_pos rfl] at hcase
      cases hcase
      exact List.mem_cons_self
    · rw [if_neg (hother p hl)] at hcase
      exact List.mem_cons_of_mem _ (h.started p v hl hcase hne)
  · exact h.once
  · intro p hp
    obtain ⟨hold, hdead, hout⟩ := h.gone p hp
    refine ⟨Nat.lt_of_lt_of_le hold hages.1, fun hl => hdead (hages.2 p hold hl), ?_⟩
    rw [hloop, List.map_cons, List.mem_cons]
    rintro (he | hin)
    · rw [he] at hold
      exact Nat.lt_irrefl _ hold
    · exact hout hin

/-- A set of reading and writing is positive as soon as it is not empty. -/
theorem toInt_pos {m : BitVec 32} (hm : Within m READ_WRITE) (hne : m ≠ 0) : 0 < m.toInt := by
  have htop : m.msb = false := by
    rw [BitVec.msb_eq_getLsbD_last]
    by_contra hbit
    have hset := within_iff.mp hm 31 (by simpa using hbit)
    revert hset
    decide
  rw [BitVec.toInt_eq_toNat_of_msb htop]
  have hnat : m.toNat ≠ 0 := fun h => hne (BitVec.eq_of_toNat_eq h)
  omega

section Changed

variable {token : Ptr} {f : BitVec 32 → BitVec 32} {restart : Bool} {w : EvIo} {p q : Handle}
  {events : BitVec 32}

theorem changed_eq (hw : x.sched.ioAt token = some w) (hp : x.sched.heap.handle? token = some p) :
    x.changed t token f restart =
      { sched := t
        loop := if restart ∨ (f w.events).toInt > 0 then (p, f w.events) :: x.loop.stop p
          else x.loop.stop p
        asked := Function.update x.asked token ((x.asked token).map f)
        freed := x.freed } := by
  unfold Watching.changed
  rw [hw, hp]
  dsimp only
  rw [IoLoop.start_eq IoLoop.not_mem_stop]

/-- Only the watcher of the token is another one. -/
theorem mem_changed (hw : x.sched.ioAt token = some w) (hp : x.sched.heap.handle? token = some p)
    (hq : (q, events) ∈ (x.changed t token f restart).loop) :
    (q = p ∧ events = f w.events) ∨ (q, events) ∈ x.loop ∧ q ≠ p := by
  rw [changed_eq hw hp] at hq
  dsimp only at hq
  split at hq
  · rcases List.mem_cons.mp hq with he | hq
    · exact Or.inl (Prod.mk.inj he)
    · exact Or.inr (IoLoop.mem_stop.mp hq)
  · exact Or.inr (IoLoop.mem_stop.mp hq)

theorem mem_changed_of_ne (hw : x.sched.ioAt token = some w)
    (hp : x.sched.heap.handle? token = some p) (hq : (q, events) ∈ x.loop) (hne : q ≠ p) :
    (q, events) ∈ (x.changed t token f restart).loop := by
  rw [changed_eq hw hp]
  dsimp only
  split
  · exact List.mem_cons_of_mem _ (IoLoop.mem_stop.mpr ⟨hq, hne⟩)
  · exact IoLoop.mem_stop.mpr ⟨hq, hne⟩

end Changed

/-- The watcher that is stopped is the one of the token's record. -/
theorem Booked.stop_active (h : x.Booked rest) {token : Ptr} {p : Handle}
    (hp : x.sched.heap.handle? token = some p) :
    (x.loop.stop p).map Prod.fst = x.sched.ioStop token := by
  rw [IoLoop.map_stop, h.active, ioStop, hp]
  exact List.filter_congr (fun v _ => by simp [eq_comm])

/-- A live record gets new events, and its watcher is started for them. -/
theorem Booked.changed (h : x.Booked rest) {token : Ptr} {f : BitVec 32 → BitVec 32}
    {restart : Bool} (hf : ∀ m, Within m READ_WRITE → Within (f m) READ_WRITE)
    (ht : x.sched.setEvents token f restart = some t) :
    (x.changed t token f restart).Booked rest := by
  have hk : t.Kept := h.kept.setEvents ht
  obtain ⟨w, p, hw, hp, ht⟩ := setEvents_spec ht
  have hlive : x.sched.heap.Live p := Heap.live_of_handle? hp
  have haddr : p.addr = token := Heap.handle?_addr hp
  obtain ⟨hasked, hmask⟩ := h.asked token w hw
  have hio : ∀ b, t.ioAt b =
      if b = token then some { w with events := f w.events } else x.sched.ioAt b :=
    ioAt_setIo (by rw [ht]) hw
  have hsame : ∀ q, t.heap.Live q ↔ x.sched.heap.Live q := by
    rw [ht]
    exact fun q => Heap.live_modify
  have hnext : t.heap.next = x.sched.heap.next := by
    rw [ht]
    rfl
  have hother : ∀ q, x.sched.heap.Live q → q ≠ p → q.addr ≠ token :=
    fun q hl hne he => hne (hl.eq_of_addr hlive (he.trans haddr.symm))
  have hchanged := @changed_eq x t token f restart w p hw hp
  have hsched : (x.changed t token f restart).sched = t := by rw [hchanged]
  constructor
  · rwa [hsched]
  · rw [hsched, ht]
    exact h.on
  · rw [hchanged, ht]
    dsimp only
    split
    · rw [List.map_cons, h.stop_active hp]
    · exact h.stop_active hp
  · intro q hq
    rw [hsched, hnext, hsame]
    exact h.left q hq
  · intro q hq
    rw [hsched, hsame, hio]
    rcases mem_changed hw hp hq with ⟨he, hevents⟩ | ⟨hq, hne⟩
    · rw [he, hevents]
      exact Or.inr ⟨hlive, { w with events := f w.events }, by rw [if_pos haddr], rfl⟩
    · rcases h.owned q hq with hrest | ⟨hl, v, hv, he⟩
      · exact Or.inl hrest
      · exact Or.inr ⟨hl, v, by rw [if_neg (hother _ hl hne), hv], he⟩
  · intro b v hv
    rw [hsched, hio] at hv
    rw [hchanged]
    by_cases hb : b = token
    · rw [if_pos hb] at hv
      cases hv
      subst b
      rw [hasked]
      exact ⟨Function.update_self .., hf _ hmask⟩
    · rw [if_neg hb] at hv
      obtain ⟨hbasked, hbmask⟩ := h.asked b v hv
      exact ⟨(Function.update_of_ne hb ..).trans hbasked, hbmask⟩
  · intro q v hl hv hne
    rw [hsched, hsame] at hl
    rw [hsched, hio] at hv
    by_cases hq : q = p
    · subst q
      rw [if_pos haddr] at hv
      cases hv
      have hpos : (f w.events).toInt > 0 := toInt_pos (hf _ hmask) hne
      rw [hchanged]
      dsimp only
      rw [if_pos (Or.inr hpos)]
      exact List.mem_cons_self
    · rw [if_neg (hother q hl hq)] at hv
      exact mem_changed_of_ne hw hp (h.started q v hl hv hne) hq
  · rw [hchanged]
    exact h.once
  · intro q hq
    rw [hchanged] at hq
    obtain ⟨hold, hdead, hout⟩ := h.gone q hq
    rw [hsched, hnext, hsame]
    refine ⟨hold, hdead, fun hin' => ?_⟩
    obtain ⟨r, hr, rfl⟩ := List.mem_map.mp hin'
    rcases mem_changed hw hp hr with ⟨he, _⟩ | ⟨hr, _⟩
    · rw [he] at hdead
      exact hdead hlive
    · exact hout (List.mem_map_of_mem hr)

/-- A record is freed with its watcher stopped. -/
theorem Booked.destroyed (h : x.Booked rest) {token : Ptr} (htoken : token ∈ x.sched.evioList)
    (hk : t.Kept) (hst : t.started = true) (hheap : t.heap = x.sched.heap.free token)
    (hactive : t.ioActive = x.sched.ioStop token) : (x.destroyed t token).Booked rest := by
  obtain ⟨p, hp⟩ := h.kept.io_handle htoken
  have hlive : x.sched.heap.Live p := Heap.live_of_handle? hp
  have haddr : p.addr = token := Heap.handle?_addr hp
  have hio : ∀ b, t.ioAt b = if b = token then none else x.sched.ioAt b := ioAt_free hheap
  have hsame : ∀ q, t.heap.Live q ↔ q.addr ≠ token ∧ x.sched.heap.Live q := by
    intro q
    rw [hheap, Heap.live_free]
  have hnext : t.heap.next = x.sched.heap.next := by
    rw [hheap]
    rfl
  have hdestroyed : x.destroyed t token =
      { sched := t
        loop := x.loop.stop p
        asked := Function.update x.asked token none
        freed := x.freed ++ [p] } := by
    unfold Watching.destroyed
    rw [hp]
    dsimp only
    rw [if_pos htoken, if_neg (fun hl => ((hsame p).mp hl).1 haddr)]
  rw [hdestroyed]
  constructor
  · exact hk
  · exact hst
  · exact (h.stop_active hp).trans hactive.symm
  · intro q hq
    obtain ⟨hold, hdead⟩ := h.left q hq
    exact ⟨hnext ▸ hold, fun hl => hdead ((hsame _).mp hl).2⟩
  · intro q hq
    obtain ⟨hq, hne⟩ := IoLoop.mem_stop.mp hq
    rcases h.owned q hq with hrest | ⟨hl, v, hv, he⟩
    · exact Or.inl hrest
    · have hother : q.1.addr ≠ token :=
        fun he => hne (hl.eq_of_addr hlive (he.trans haddr.symm))
      exact Or.inr ⟨(hsame _).mpr ⟨hother, hl⟩, v, (hio _).trans (by rw [if_neg hother, hv]), he⟩
  · intro b v hv
    rw [hio] at hv
    by_cases hb : b = token
    · rw [if_pos hb] at hv
      cases hv
    · rw [if_neg hb] at hv
      obtain ⟨hbasked, hbmask⟩ := h.asked b v hv
      exact ⟨(Function.update_of_ne hb ..).trans hbasked, hbmask⟩
  · intro q v hl hv hne
    obtain ⟨hother, hl⟩ := (hsame q).mp hl
    rw [hio, if_neg hother] at hv
    refine IoLoop.mem_stop.mpr ⟨h.started q v hl hv hne, fun he => hother ?_⟩
    exact (congrArg Handle.addr he).trans haddr
  · refine List.nodup_append'.mpr ⟨h.once, List.nodup_singleton p, ?_⟩
    exact List.disjoint_singleton.mpr (fun hin => (h.gone p hin).2.1 hlive)
  · intro q hq
    rw [List.mem_append, List.mem_singleton] at hq
    rcases hq with hq | hq
    · obtain ⟨hold, hdead, hout⟩ := h.gone q hq
      refine ⟨hnext ▸ hold, fun hl => hdead ((hsame q).mp hl).2, fun hin => hout ?_⟩
      rw [IoLoop.map_stop] at hin
      exact (List.mem_filter.mp hin).1
    · subst q
      refine ⟨hnext ▸ hlive.birth_lt, fun hl => ((hsame p).mp hl).1 haddr, ?_⟩
      exact IoLoop.not_mem_stop

/-- The destruction of a token, listed or not; a NULL or stale one is passed over. -/
theorem Booked.socktokenDestroy (h : x.Booked rest) {token : Ptr}
    (ht : t.heap = (x.sched.socktokenDestroy token).heap)
    (hst : t.started = (x.sched.socktokenDestroy token).started)
    (hlist : t.evioList = (x.sched.socktokenDestroy token).evioList)
    (hactive : t.ioActive = (x.sched.socktokenDestroy token).ioActive) (hk : t.Kept) :
    (x.destroyed t token).Booked rest := by
  unfold Scheduler.socktokenDestroy at ht hst hlist hactive
  split at ht
  · rename_i htoken
    rw [if_pos htoken] at hst hlist hactive
    obtain ⟨w, hw⟩ := h.kept.io_record htoken
    rw [autorelease_eq_free hw rfl] at ht
    exact h.destroyed htoken hk (hst.trans h.on) ht hactive
  · rename_i htoken
    rw [if_neg htoken] at hst hlist hactive
    have hsame : x.destroyed t token = { x with sched := t } := by
      unfold Watching.destroyed
      split
      · rw [if_neg htoken]
      · rfl
    rw [hsame]
    exact h.frame hk (.of_heap hst hlist hactive ht)

theorem Booked.call (h : x.Booked rest) {c : Call} (hsession : Act.inSession (.call c) = true)
    (hmask : masked (.call c) = true) (ht : x.sched.call c = some t) :
    (x.effect t (.call c)).Booked rest := by
  have hk : t.Kept := h.kept.call ht
  by_cases hc : c.onIo = false
  · have heffect : x.effect t (.call c) = { x with sched := t } := by
      cases c <;> first | rfl | cases hc
    rw [heffect]
    exact h.frame hk (call_ioFrame h.kept hsession hc ht)
  · cases c with
    | watch a fd events proc userdata =>
      obtain ⟨⟨token, u⟩, hu, rfl⟩ := Option.map_eq_some_iff.mp ht
      rcases watch_cases hu with ⟨hoff, _⟩ | ⟨hon, _, _, heap, halloc, rfl⟩
      · simp [h.on] at hoff
      · have hwithin : Within events READ_WRITE := of_decide_eq_true hmask
        change (if !x.sched.started then _ else _ : Watching).Booked rest
        rw [if_neg (by simp [hon])]
        exact h.watched (w := ⟨fd, events, .user proc, userdata⟩) hwithin hk hon halloc rfl
    | enable token events =>
      have hwithin : Within events READ_WRITE := of_decide_eq_true hmask
      simp only [Scheduler.call, enable] at ht
      simp only [effect]
      split at ht
      · rename_i hnull
        cases ht
        rw [if_pos hnull]
        exact h.frame hk (.of_heap rfl rfl rfl rfl)
      · rename_i hnull
        rw [if_neg hnull]
        exact h.changed (fun m hm => hm.or hwithin) ht
    | disable token events =>
      simp only [Scheduler.call, disable] at ht
      simp only [effect]
      split at ht
      · rename_i hnull
        cases ht
        rw [if_pos hnull]
        exact h.frame hk (.of_heap rfl rfl rfl rfl)
      · rename_i hnull
        rw [if_neg hnull]
        exact h.changed (fun m hm => hm.and _) ht
    | socktokenDestroy token =>
      cases ht
      exact h.socktokenDestroy rfl rfl rfl rfl hk
    | _ => exact absurd rfl hc

theorem Booked.step (h : x.Booked rest) {y : Watching} {a : Act} (hy : x.step a = some y) :
    y.Booked rest := by
  obtain ⟨hmask, t, ht, rfl⟩ := step_spec hy
  have hk : t.Kept := h.kept.session ht
  have hstep := session_step ht
  cases a with
  | call c => exact h.call (inSession_of_session ht) hmask hstep
  | fire w =>
    obtain ⟨_, _, _, rfl⟩ := fire_cases hstep
    exact h.frame hk (.of_heap rfl rfl rfl rfl)
  | ret => exact h.frame hk (ret_ioFrame h.kept hstep)
  | ioReady w recv =>
    simp only [effect]
    rcases ioReady_ioFrame hstep with ⟨hrecv, hread, rfl⟩ | ⟨hother, hf⟩
    · rw [if_pos ⟨hrecv, hread⟩]
      exact h.socktokenDestroy rfl rfl rfl rfl hk
    · rw [if_neg hother]
      exact h.frame hk hf

/-- A start on a loop that an earlier session has left watchers in. -/
theorem booked_begin {s₀ s : Scheduler} {thread threadOk : Bool} {a : Ptr} {fd : Int}
    (hk : s₀.Kept) (hoff : s₀.started = false) (hrest : rest.map Prod.fst = s₀.ioActive)
    (hs : s₀.start thread threadOk a fd = some (AWE_OK, s)) : (begin s₀ s rest a).Booked rest := by
  have hnone := hk.freed_of_stopped hoff
  have hon : ({ s₀ with started := true } : Scheduler).Kept := { hk with stopped := by simp }
  have hempty : (⟨{ s₀ with started := true }, rest, fun _ => none, []⟩ : Watching).Booked
      rest := by
    constructor
    · exact hon
    · rfl
    · exact hrest
    · intro p hp
      refine ⟨hk.io.old p.1 ?_, Heap.not_live_of_get? (hnone p.1.addr)⟩
      rw [← hrest]
      exact List.mem_map_of_mem hp
    · exact fun p hp => Or.inl hp
    · intro b w hw
      have hgone : ({ s₀ with started := true } : Scheduler).ioAt b = none := ioAt_none (hnone b)
      cases hgone.symm.trans hw
    · intro p w _ hw
      have hgone : ({ s₀ with started := true } : Scheduler).ioAt p.addr = none :=
        ioAt_none (hnone p.addr)
      cases hgone.symm.trans hw
    · exact List.nodup_nil
    · simp
  obtain ⟨heap, halloc, rfl⟩ := start_ok hoff hs
  have hwithin : Within AWE_READ READ_WRITE := by decide
  exact hempty.watched (w := ⟨fd, AWE_READ, .triggerEvent, NULL⟩) hwithin (hk.opened halloc)
    rfl halloc rfl

end Booked

/-- What the io watches come to, whatever the loop still held from before the start. -/
structure Accounted (rest : IoLoop) (x : Watching) : Prop where
  active : x.loop.map Prod.fst = x.sched.ioActive
  distinct : x.sched.evioList.Nodup
  listed : ∀ a ∈ x.sched.evioList, ∃ w, x.sched.heap.get? a = some ⟨1, .io w⟩
  embedded : ∀ p ∈ x.loop, p ∈ rest ∨ x.sched.heap.Live p.1 ∧ p.1.addr ∈ x.sched.evioList
  masks : ∀ a ∈ x.sched.evioList, ∃ p m, x.sched.heap.handle? a = some p ∧ x.asked a = some m ∧
    (m ≠ 0 → ∀ events, (p, events) ∈ x.loop ↔ events = m)
  once : x.freed.Nodup
  gone : ∀ p ∈ x.freed, ¬ x.sched.heap.Live p ∧ p ∉ x.loop.map Prod.fst

theorem Booked.accounted {rest : IoLoop} {x : Watching} (h : x.Booked rest) :
    x.Accounted rest where
  active := h.active
  distinct := h.kept.io.nodup
  listed a ha := h.kept.io_record ha
  embedded p hp := by
    rcases h.owned p hp with hrest | ⟨hl, w, hw, _⟩
    · exact Or.inl hrest
    · exact Or.inr ⟨hl, h.kept.listed_iff.mpr ⟨w, hw⟩⟩
  masks a ha := by
    obtain ⟨w, hw⟩ := h.kept.listed_iff.mp ha
    obtain ⟨p, hp⟩ := h.kept.io_handle ha
    have hlive : x.sched.heap.Live p := Heap.live_of_handle? hp
    have haddr : p.addr = a := Heap.handle?_addr hp
    refine ⟨p, w.events, hp, (h.asked a w hw).1, fun hne events => ⟨fun hin => ?_, fun he => ?_⟩⟩
    · rcases h.owned _ hin with hrest | ⟨_, v, hv, he⟩
      · exact absurd hlive (h.left _ hrest).2
      · rw [haddr, hw] at hv
        cases hv
        exact he.symm
    · rw [he]
      exact h.started p w hlive (haddr ▸ hw) hne
  once := h.once
  gone p hp := (h.gone p hp).2

theorem freed_destroyed {x : Watching} (t : Scheduler) (token : Ptr) {p : Handle}
    (hp : p ∈ x.freed) : p ∈ (x.destroyed t token).freed := by
  unfold destroyed
  split
  · split
    · exact List.mem_append_left _ hp
    · exact hp
  · exact hp

/-- What has been freed stays on the record. -/
theorem freed_step {x y : Watching} {a : Act} {p : Handle} (hp : p ∈ x.freed)
    (hy : x.step a = some y) : p ∈ y.freed := by
  obtain ⟨_, t, _, rfl⟩ := step_spec hy
  have hchanged : ∀ token f restart, (x.changed t token f restart).freed = x.freed := by
    intro token f restart
    unfold changed
    split <;> rfl
  unfold effect
  split
  · split <;> exact hp
  · split
    · exact hp
    · rwa [hchanged]
  · split
    · exact hp
    · rwa [hchanged]
  · exact freed_destroyed t _ hp
  · split
    · exact freed_destroyed t _ hp
    · exact hp
  · exact hp

/-- The destruction of a listed token frees its record and takes it off the list. -/
theorem Booked.freed {rest : IoLoop} {x y : Watching} (h : x.Booked rest) {token : Ptr}
    {p : Handle} (htoken : token ∈ x.sched.evioList) (hp : x.sched.heap.handle? token = some p)
    (hy : x.step (.call (.socktokenDestroy token)) = some y) :
    token ∉ y.sched.evioList ∧ p ∈ y.freed := by
  obtain ⟨w, hw⟩ := h.kept.io_record htoken
  obtain ⟨_, t, ht, rfl⟩ := step_spec hy
  cases session_step ht
  have hdead : ¬ (x.sched.socktokenDestroy token).heap.Live p := by
    simp only [Scheduler.socktokenDestroy, if_pos htoken, autorelease_eq_free hw rfl]
    exact fun hl => (Heap.live_free.mp hl).1 (Heap.handle?_addr hp)
  simp only [effect, Watching.destroyed, hp, if_pos htoken, if_neg hdead]
  refine ⟨?_, by simp⟩
  simp only [Scheduler.socktokenDestroy, if_pos htoken]
  exact fun hin => (h.kept.io.nodup.mem_erase_iff.mp hin).1 rfl

/-- Between a start and a stop the list, the reference counts and the watchers of the
loop agree after whatever is watched, enabled, disabled and destroyed, in callbacks and
outside them, and the record of a destroyed token is freed once and gone for good. -/
theorem watches_accounted (capacity : Nat) (before : List Act) (s₀ s : Scheduler)
    (thread threadOk : Bool) (a : Ptr) (fd : Int) (rest : IoLoop)
    (hbefore : run Scheduler.step (create capacity) before = some s₀)
    (hoff : s₀.started = false) (hrest : rest.map Prod.fst = s₀.ioActive)
    (hs : s₀.start thread threadOk a fd = some (AWE_OK, s)) (as : List Act) (x : Watching)
    (hr : run step (begin s₀ s rest a) as = some x) :
    x.Accounted rest ∧ ∀ token p y bs z, token ∈ x.sched.evioList →
      x.sched.heap.handle? token = some p →
      x.step (.call (.socktokenDestroy token)) = some y → run step y bs = some z →
      token ∉ y.sched.evioList ∧ z.freed.count p = 1 ∧ ¬ z.sched.heap.Live p ∧
        p ∉ z.loop.map Prod.fst := by
  have hbegin := booked_begin (kept_of_run hbefore) hoff hrest hs
  have hx : x.Booked rest := Machine.invariant (fun _ _ _ h hy => h.step hy) hbegin hr
  refine ⟨hx.accounted, ?_⟩
  intro token p y bs z htoken hp hy hz
  have hybooked : y.Booked rest := hx.step hy
  obtain ⟨hout, hfreed⟩ := hx.freed htoken hp hy
  have hzbooked : z.Booked rest := Machine.invariant (fun _ _ _ h hy => h.step hy) hybooked hz
  have hmem : p ∈ z.freed := Machine.invariant (fun _ _ _ h hy => freed_step h hy) hfreed hz
  have hgone := hzbooked.accounted.gone p hmem
  exact ⟨hout, List.count_eq_one_of_mem hzbooked.once hmem, hgone⟩

/-- A descriptor is watched for reading and then for writing too, and its handler
destroys its own watch and another. -/
def handlerDestroys : List Act :=
  [.call (.watch 200 4 AWE_READ 7 0), .call (.watch 300 5 AWE_WRITE 8 0),
    .call (.enable 200 AWE_WRITE), .ioReady ⟨200, 1⟩ .again,
    .call (.socktokenDestroy 200), .call (.socktokenDestroy 300), .ret]

theorem handlerDestroys_accounted : ∃ s x,
    (create 1).start false true 100 3 = some (AWE_OK, s) ∧
    run step (begin (create 1) s [] 100) handlerDestroys = some x ∧ x.Accounted [] :=
  ⟨_, _, rfl, rfl, (watches_accounted 1 [] (create 1) _ false true 100 3 [] rfl rfl rfl rfl
    handlerDestroys _ rfl).1⟩

end Watching

end Awe
