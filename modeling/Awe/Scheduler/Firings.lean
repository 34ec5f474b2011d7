import Awe.Scheduler.Trampoline

namespace Awe
open Machine
open Heap (Handle)

namespace Scheduler

/-- The type of the timer record `w`, as long as it is allocated. -/
def typeOf (s : Scheduler) (w : Handle) : Option EvtimerType :=
  if s.heap.Live w then
    match s.heap.get? w.addr with
    | some ⟨_, .timer t⟩ => some t.type
    | _ => none
  else none

end Scheduler

/-- A call of a task procedure by the timer trampoline. -/
structure Firing where
  timer : Handle
  type : Scheduler.EvtimerType
  deriving DecidableEq

/-- A scheduler, the task procedures its loop has called, and the timers that were armed
again when they were not active. -/
structure Firings where
  sched : Scheduler
  fired : List Firing
  rearmed : List Handle

namespace Firings
open Scheduler (typeOf EvtimerType)

/-- A step of the scheduler, or one that reads a freed record: the loop comes to a watch or
a timer of one, where freed memory passes for the task `junk`, or a procedure returns to
`scheduler_evtimer_cb`, which finds `type` there. -/
inductive Act where
  | own (a : Scheduler.Act)
  | strayIo (w : Handle) (recv : Scheduler.Recv)
  | stray (w : Handle) (junk : Option Firing)
  | lost (type : EvtimerType)

def begin (capacity : Nat) : Firings := ⟨Scheduler.create capacity, [], []⟩

def fires (s : Scheduler) : Scheduler.Act → List Firing
  | .fire w => ((s.typeOf w).map (Firing.mk w)).toList
  | _ => []

def rearms (s : Scheduler) : Scheduler.Act → List Handle
  | .call (.taskAgain token ms arg) =>
    if (s.taskAgain token ms arg).1 = AWE_OK then
      (s.heap.handle? token).toList.filter (fun w => w ∉ s.timerActive)
    else []
  | _ => []

/-- The task that `scheduler_evtimer_cb` reads at an address: a later one that lies there,
or what freed memory looks like. -/
def found (s : Scheduler) (a : Ptr) (junk : Option Firing) : Option Firing :=
  (s.heap.handle? a).bind (fun v => (s.typeOf v).map (Firing.mk v)) <|> junk

/-- `scheduler_evio_cb` of a freed record calls what is found there: the handler of a later
watch, or some other. -/
def strayIo (s : Scheduler) (w : Handle) (recv : Scheduler.Recv) : Option Scheduler :=
  if s.callback = .none ∧ w ∈ s.ioActive ∧ ¬ s.heap.Live w then
    match s.heap.get? w.addr with
    | some ⟨_, .io ⟨_, _, .triggerEvent, _⟩⟩ => s.triggerEvent recv
    | _ => some { s with callback := .other }
  else none

/-- The loop stops the timer `w` of a freed record and calls `scheduler_evtimer_cb`. -/
def stray (s : Scheduler) (w : Handle) : Option Scheduler :=
  if s.callback = .none ∧ w ∈ s.timerActive ∧ ¬ s.heap.Live w then
    some { s with timerActive := s.timerActive.erase w, callback := .timer w }
  else none

/-- The procedure returns where `Scheduler.ret` finds no timer. -/
def lost (s : Scheduler) (type : EvtimerType) : Option Scheduler :=
  match s.callback with
  | .timer w =>
    match s.heap.get? w.addr with
    | some ⟨_, .timer _⟩ => none
    | _ =>
      if type = .nonperiodic then some { s.evtimerDel w.addr with callback := .none }
      else some { s with callback := .none }
  | _ => none

def step (x : Firings) : Act → Option Firings
  | .own a => (x.sched.step a).map (fun t =>
    ⟨t, x.fired ++ fires x.sched a, x.rearmed ++ rearms x.sched a⟩)
  | .strayIo w recv => (strayIo x.sched w recv).map (fun t => ⟨t, x.fired, x.rearmed⟩)
  | .stray w junk => (stray x.sched w).map (fun t =>
    ⟨t, x.fired ++ (found x.sched w.addr junk).toList, x.rearmed⟩)
  | .lost type => (lost x.sched type).map (fun t => ⟨t, x.fired, x.rearmed⟩)

/-- One where the loop holds the timer `w`. -/
def armed (s : Scheduler) (w : Handle) : Nat := if w ∈ s.timerActive then 1 else 0

def count (x : Firings) (w : Handle) : Nat := (x.fired.map Firing.timer).count w

/-- Each arming of a timer is used for one firing: the timers still there have fired as
often as they were armed, less one if they are armed now. A one-shot task has fired
once at most, there or not. -/
structure Conserved (x : Firings) : Prop where
  armed : ∀ w type, x.sched.typeOf w = some type →
    x.count w + armed x.sched w = 1 + x.rearmed.count w
  once : ∀ w, x.fired.count ⟨w, .nonperiodic⟩ ≤ 1

/-- The books of the firings. A one-shot task that has fired is on its way out. -/
structure Booked (x : Firings) : Prop extends Conserved x where
  kept : x.sched.Kept
  oldFired : ∀ f ∈ x.fired, f.timer.birth < x.sched.heap.next
  oldRearmed : ∀ w ∈ x.rearmed, w.birth < x.sched.heap.next
  types : ∀ f ∈ x.fired, ∀ type, x.sched.typeOf f.timer = some type → type = f.type
  past : ∀ w, ⟨w, .nonperiodic⟩ ∈ x.fired →
    x.sched.callback = .timer w ∨ x.sched.typeOf w = none

/-- What a step from `s` to `t` may enter: a timer that is there afterwards is an old one
whose arming is accounted for, or was made and armed by the step. -/
structure Posting (s t : Scheduler) (fired : List Firing) (again : List Handle) : Prop where
  kept : t.Kept
  next : s.heap.next ≤ t.heap.next
  origin : ∀ w type, t.typeOf w = some type →
    (s.typeOf w = some type ∧
      (fired.map Firing.timer).count w + armed t w = armed s w + again.count w) ∨
    (s.heap.next ≤ w.birth ∧ armed t w = 1)
  hit : ∀ f ∈ fired, s.callback = .none ∧ t.callback = .timer f.timer ∧
    s.typeOf f.timer = some f.type
  single : fired.length ≤ 1
  old : ∀ w ∈ again, w.birth < s.heap.next
  back : ∀ w, s.callback = .timer w →
    t.callback = .timer w ∨ t.typeOf w ≠ some .nonperiodic

theorem typeOf_eq_some {s : Scheduler} {w : Handle} {type : EvtimerType} :
    s.typeOf w = some type ↔ s.heap.Live w ∧
      ∃ refs u, s.heap.get? w.addr = some ⟨refs, .timer u⟩ ∧ u.type = type := by
  unfold typeOf
  split
  · rename_i hlive
    split
    · rename_i refs u hr
      simp [hlive, hr]
    · rename_i hother
      refine iff_of_false (by simp) ?_
      rintro ⟨_, refs, u, hr, _⟩
      exact hother refs u hr
  · rename_i hdead
    simp [hdead]

theorem birth_of_typeOf {s : Scheduler} {w : Handle} {type : EvtimerType}
    (htype : s.typeOf w = some type) : w.birth < s.heap.next :=
  (typeOf_eq_some.mp htype).1.birth_lt

theorem booked_begin (capacity : Nat) : (begin capacity).Booked where
  armed w type htype := by
    obtain ⟨hlive, _⟩ := typeOf_eq_some.mp htype
    exact absurd hlive (Heap.not_live_of_get? rfl)
  once _ := Nat.zero_le _
  kept := Scheduler.kept_create capacity
  oldFired _ hf := by cases hf
  oldRearmed _ hw := by cases hw
  types _ hf := by cases hf
  past _ hw := by cases hw

section Posting

variable {x : Firings} {s t : Scheduler} {fired : List Firing} {again : List Handle}

theorem Posting.typeOf_old (h : Posting s t fired again) {w : Handle} {type : EvtimerType}
    (hold : w.birth < s.heap.next) (htype : t.typeOf w = some type) : s.typeOf w = some type := by
  rcases h.origin w type htype with ⟨hs, _⟩ | ⟨hnew, _⟩
  · exact hs
  · exact absurd hold (Nat.not_lt.mpr hnew)

/-- The books stay in order when a step enters what it may. -/
theorem Booked.post (h : x.Booked) (hp : Posting x.sched t fired again) :
    Booked ⟨t, x.fired ++ fired, x.rearmed ++ again⟩ where
  kept := hp.kept
  armed w type htype := by
    simp only [count, List.map_append, List.count_append]
    rcases hp.origin w type htype with ⟨hs, hsum⟩ | ⟨hnew, harmed⟩
    · have hbefore := h.armed w type hs
      simp only [count] at hbefore
      omega
    · have hfired : w ∉ x.fired.map Firing.timer := by
        rintro hw
        obtain ⟨f, hf, rfl⟩ := List.mem_map.mp hw
        exact absurd (h.oldFired f hf) (Nat.not_lt.mpr hnew)
      have hrearmed : w ∉ x.rearmed :=
        fun hw => absurd (h.oldRearmed w hw) (Nat.not_lt.mpr hnew)
      have hagain : w ∉ again := fun hw => absurd (hp.old w hw) (Nat.not_lt.mpr hnew)
      have hnow : w ∉ fired.map Firing.timer := by
        rintro hw
        obtain ⟨f, hf, rfl⟩ := List.mem_map.mp hw
        exact absurd (birth_of_typeOf (hp.hit f hf).2.2) (Nat.not_lt.mpr hnew)
      rw [List.count_eq_zero.mpr hfired, List.count_eq_zero.mpr hnow,
        List.count_eq_zero.mpr hrearmed, List.count_eq_zero.mpr hagain, harmed]
  once w := by
    rw [List.count_append]
    by_cases hw : (⟨w, .nonperiodic⟩ : Firing) ∈ fired
    · obtain ⟨hnone, _, htype⟩ := hp.hit _ hw
      have hfirst : (⟨w, .nonperiodic⟩ : Firing) ∉ x.fired := by
        intro hbefore
        rcases h.past w hbefore with hcb | hgone
        · rw [hnone] at hcb
          cases hcb
        · rw [hgone] at htype
          cases htype
      rw [List.count_eq_zero.mpr hfirst, Nat.zero_add]
      exact Nat.le_trans List.count_le_length hp.single
    · rw [List.count_eq_zero.mpr hw, Nat.add_zero]
      exact h.once w
  oldFired f hf := by
    rcases List.mem_append.mp hf with hf | hf
    · exact Nat.lt_of_lt_of_le (h.oldFired f hf) hp.next
    · exact Nat.lt_of_lt_of_le (birth_of_typeOf (hp.hit f hf).2.2) hp.next
  oldRearmed w hw := by
    rcases List.mem_append.mp hw with hw | hw
    · exact Nat.lt_of_lt_of_le (h.oldRearmed w hw) hp.next
    · exact Nat.lt_of_lt_of_le (hp.old w hw) hp.next
  types f hf type htype := by
    rcases List.mem_append.mp hf with hf | hf
    · exact h.types f hf type (hp.typeOf_old (h.oldFired f hf) htype)
    · have hs := (hp.hit f hf).2.2
      rw [hp.typeOf_old (birth_of_typeOf hs) htype] at hs
      cases hs
      rfl
  past w hw := by
    rcases List.mem_append.mp hw with hw | hw
    · have hold := h.oldFired _ hw
      have htypes : ∀ type, t.typeOf w = some type → type = .nonperiodic :=
        fun type htype => h.types _ hw type (hp.typeOf_old hold htype)
      rcases h.past w hw with hcb | hgone
      · rcases hp.back w hcb with hcb | hother
        · exact Or.inl hcb
        · refine Or.inr (Option.eq_none_iff_forall_ne_some.mpr (fun type htype => ?_))
          rw [htypes type htype] at htype
          exact hother htype
      · refine Or.inr (Option.eq_none_iff_forall_ne_some.mpr (fun type htype => ?_))
        rw [hp.typeOf_old hold htype] at hgone
        cases hgone
    · exact Or.inl (hp.hit _ hw).2.1

/-- Nothing is entered for a step that leaves the timers as they are, or takes them away. -/
theorem Posting.of_leaves (hk : t.Kept) (hnext : s.heap.next ≤ t.heap.next)
    (hleaves : ∀ w type, t.typeOf w = some type →
      s.typeOf w = some type ∧ (w ∈ t.timerActive ↔ w ∈ s.timerActive))
    (hback : ∀ w, s.callback = .timer w → t.callback = .timer w ∨
      t.typeOf w ≠ some .nonperiodic) : Posting s t [] [] where
  kept := hk
  next := hnext
  origin w type htype := by
    obtain ⟨hs, hactive⟩ := hleaves w type htype
    refine Or.inl ⟨hs, ?_⟩
    simp [armed, hactive]
  hit _ hf := by cases hf
  single := Nat.zero_le _
  old _ hw := by cases hw
  back := hback

/-- Another heap with the same timer record at the address of `w`. -/
theorem typeOf_of_heap {w : Handle} {type : EvtimerType} (htype : t.typeOf w = some type)
    (hlive : t.heap.Live w → s.heap.Live w)
    (hrecord : ∀ refs u, t.heap.get? w.addr = some ⟨refs, .timer u⟩ →
      ∃ refs v, s.heap.get? w.addr = some ⟨refs, .timer v⟩ ∧ v.type = u.type) :
    s.typeOf w = some type := by
  obtain ⟨hl, refs, u, hr, rfl⟩ := typeOf_eq_some.mp htype
  obtain ⟨refs, v, hv, he⟩ := hrecord refs u hr
  exact typeOf_eq_some.mpr ⟨hlive hl, refs, v, hv, he⟩

/-- A record of another handle is allocated. -/
theorem typeOf_of_alloc {a : Ptr} {r : Scheduler.Record} {w : Handle} {type : EvtimerType}
    (hk : s.heap.alloc a r = some t.heap) (htype : t.typeOf w = some type)
    (hother : w ≠ ⟨a, s.heap.next⟩) : s.typeOf w = some type := by
  have hlive : s.heap.Live w := by
    rcases (Heap.live_alloc hk).mp (typeOf_eq_some.mp htype).1 with rfl | hl
    · exact absurd rfl hother
    · exact hl
  have haddr : w.addr ≠ a := by
    rintro rfl
    exact Heap.not_live_of_get? (Heap.alloc_free_before hk) hlive
  apply typeOf_of_heap htype (fun _ => hlive)
  intro refs u hr
  rw [Heap.get?_alloc hk, if_neg haddr] at hr
  exact ⟨refs, u, hr, rfl⟩

theorem typeOf_of_allocIo {a : Ptr} {refs : Int} {v : Scheduler.EvIo} {w : Handle}
    {type : EvtimerType} (hk : s.heap.alloc a ⟨refs, .io v⟩ = some t.heap)
    (htype : t.typeOf w = some type) : s.typeOf w = some type := by
  apply typeOf_of_alloc hk htype
  rintro rfl
  obtain ⟨_, _, _, hr, _⟩ := typeOf_eq_some.mp htype
  rw [Heap.get?_alloc hk, if_pos rfl] at hr
  cases hr

theorem typeOf_of_free {a : Ptr} {w : Handle} {type : EvtimerType}
    (ht : t.heap = s.heap.free a) (htype : t.typeOf w = some type) :
    w.addr ≠ a ∧ s.typeOf w = some type := by
  have hl := (typeOf_eq_some.mp htype).1
  rw [ht] at hl
  obtain ⟨haddr, hl⟩ := Heap.live_free.mp hl
  refine ⟨haddr, typeOf_of_heap htype (fun _ => hl) (fun refs u hr => ?_)⟩
  rw [ht, Heap.get?_free, if_neg haddr] at hr
  exact ⟨refs, u, hr, rfl⟩

/-- Writing to a record without changing what it is. -/
theorem typeOf_of_modify {a : Ptr} {f : Scheduler.Record → Scheduler.Record} {w : Handle}
    {type : EvtimerType} (ht : t.heap = s.heap.modify a f)
    (hf : ∀ r refs u, f r = ⟨refs, .timer u⟩ → ∃ refs v, r = ⟨refs, .timer v⟩ ∧ v.type = u.type)
    (htype : t.typeOf w = some type) : s.typeOf w = some type := by
  apply typeOf_of_heap htype
  · rw [ht]
    exact Heap.live_modify.mp
  · intro refs u hr
    rw [ht, Heap.get?_modify] at hr
    split at hr
    · obtain ⟨r, hs, hr⟩ := Option.map_eq_some_iff.mp hr
      obtain ⟨refs, v, rfl, he⟩ := hf r refs u hr
      exact ⟨refs, v, hs, he⟩
    · exact ⟨refs, u, hr, rfl⟩

theorem not_typeOf_of_stopped (hk : s.Kept) (hst : s.started = true) (w : Handle)
    (type : EvtimerType) : s.stop.typeOf w ≠ some type :=
  fun htype => Scheduler.not_live_stop hk hst w (typeOf_eq_some.mp htype).1

end Posting

section Steps

variable {x y : Firings} {s t : Scheduler}

theorem rearms_eq_nil {c : Scheduler.Call} (hc : ∀ token ms arg, c ≠ .taskAgain token ms arg) :
    rearms s (.call c) = [] := by
  unfold rearms
  split
  · rename_i token ms arg he
    cases he
    exact absurd rfl (hc token ms arg)
  · rfl

theorem mem_timerStop_of_ne {a : Ptr} {w : Handle} (hw : w.addr ≠ a) :
    w ∈ s.timerStop a ↔ w ∈ s.timerActive := by
  rw [Scheduler.mem_timerStop]
  exact and_iff_left (fun he => hw (Heap.handle?_addr he))

theorem posting_call {c : Scheduler.Call} (hk : s.Kept) (ht : s.call c = some t)
    (hc : ∀ token ms arg, c ≠ .taskAgain token ms arg) : Posting s t [] [] := by
  have hback : ∀ w, s.callback = .timer w → t.callback = .timer w ∨
      t.typeOf w ≠ some .nonperiodic :=
    fun w hw => Or.inl ((Scheduler.call_callback hk ht).trans hw)
  have hkt := hk.call ht
  have hnext := (Scheduler.call_ages hk ht).1
  cases Scheduler.call_effect hk ht with
  | nothing => exact .of_leaves hkt hnext (fun _ _ htype => ⟨htype, Iff.rfl⟩) hback
  | opened _ alloc | watched alloc =>
    exact .of_leaves hkt hnext (fun _ _ htype => ⟨typeOf_of_allocIo alloc htype, Iff.rfl⟩) hback
  | failed off alloc =>
    exact .of_leaves hkt hnext (fun w type htype =>
      absurd htype (not_typeOf_of_stopped (hk.opened alloc) rfl w type)) hback
  | stopped on =>
    exact .of_leaves hkt hnext (fun w type htype =>
      absurd htype (not_typeOf_of_stopped hk on w type)) hback
  | rewritten =>
    refine .of_leaves hkt hnext (fun w type htype => ⟨?_, Iff.rfl⟩) hback
    refine typeOf_of_modify rfl ?_ htype
    rintro ⟨refs, body⟩ refs' u hr
    cases body with
    | io => cases hr
    | timer v =>
      cases hr
      exact ⟨_, _, rfl, rfl⟩
  | ioDestroyed =>
    refine .of_leaves hkt hnext (fun w type htype => ⟨?_, Iff.rfl⟩) hback
    exact (typeOf_of_free rfl htype).2
  | timerDestroyed =>
    apply Posting.of_leaves hkt hnext _ hback
    intro w type htype
    obtain ⟨haddr, hs⟩ := typeOf_of_free rfl htype
    exact ⟨hs, mem_timerStop_of_ne haddr⟩
  | rearmed => exact absurd rfl (hc _ _ _)
  | triggered =>
    apply Posting.of_leaves hkt hnext _ hback
    unfold Scheduler.trigger
    split <;> exact fun _ _ htype => ⟨htype, Iff.rfl⟩
  | @timed _ a v heap _ alloc =>
    refine ⟨hkt, hnext, ?_, by simp, Nat.zero_le _, by simp, hback⟩
    intro w type htype
    by_cases hw : w = ⟨a, s.heap.next⟩
    · subst w
      exact Or.inr ⟨Nat.le_refl _, by simp [armed]⟩
    · exact Or.inl ⟨typeOf_of_alloc alloc htype hw, by simp [armed, hw]⟩

theorem posting_taskAgain (hk : s.Kept) (token : Ptr) (ms arg : Int) :
    Posting s (s.taskAgain token ms arg).2 [] (rearms s (.call (.taskAgain token ms arg))) := by
  have hkt := hk.taskAgain token ms arg
  simp only [rearms]
  rcases Scheduler.taskAgain_cases hk token ms arg with ⟨hno, he⟩ | ⟨hyes, _, p, hp, he⟩
  · rw [he, if_neg hno]
    exact .of_leaves hk (Nat.le_refl _) (fun _ _ htype => ⟨htype, Iff.rfl⟩)
      (fun _ hw => Or.inl hw)
  · rw [he] at hkt ⊢
    rw [if_pos hyes, hp]
    refine ⟨hkt, Nat.le_refl _, ?_, by simp, Nat.zero_le _, ?_, fun _ hw => Or.inl hw⟩
    · intro w type htype
      refine Or.inl ⟨typeOf_of_modify rfl ?_ htype, ?_⟩
      · rintro ⟨refs, body⟩ refs' u hr
        cases body with
        | io => cases hr
        | timer v =>
          cases hr
          exact ⟨_, _, rfl, rfl⟩
      · by_cases hw : w = p
        · subst w
          by_cases hactive : p ∈ s.timerActive <;> simp [armed, hactive]
        · have hother : s.heap.handle? token ≠ some w := by
            rw [hp]
            simpa using fun he => hw he.symm
          by_cases hactive : p ∈ s.timerActive <;>
            simp [armed, hactive, hw, Ne.symm hw, Scheduler.mem_timerStop, hother]
    · intro w hw
      obtain ⟨hw, _⟩ := List.mem_filter.mp hw
      cases Option.mem_toList.mp hw
      exact (Heap.live_of_handle? hp).birth_lt

theorem posting_dispatched (hk : s.Kept) (hidle : s.callback = .none) (ht : s.Dispatched t) :
    Posting s t [] [] := by
  have hback : ∀ w, s.callback = .timer w → t.callback = .timer w ∨
      t.typeOf w ≠ some .nonperiodic := by
    simp [hidle]
  have hkt := hk.dispatched ht
  rcases ht with rfl | ⟨_, _, _, _, rfl⟩
  · have hdrop : Posting s (s.socktokenDestroy s.triggertoken) [] [] :=
      posting_call (c := .socktokenDestroy s.triggertoken) hk rfl (by simp)
    exact { hdrop with kept := hkt, back := hback }
  · exact .of_leaves hkt (Nat.le_refl _) (fun _ _ htype => ⟨htype, Iff.rfl⟩) hback

theorem posting_ioReady {w : Handle} {recv : Scheduler.Recv} (hk : s.Kept)
    (ht : s.ioReady w recv = some t) : Posting s t [] [] := by
  apply posting_dispatched hk _ (Scheduler.ioReady_effect ht)
  unfold Scheduler.ioReady at ht
  exact (Option.ite_none_right_eq_some.mp ht).1.1

theorem posting_strayIo {w : Handle} {recv : Scheduler.Recv} (hk : s.Kept)
    (ht : strayIo s w recv = some t) : Posting s t [] [] := by
  unfold strayIo at ht
  obtain ⟨⟨hidle, _⟩, ht⟩ := Option.ite_none_right_eq_some.mp ht
  apply posting_dispatched hk hidle
  split at ht
  · exact Scheduler.triggerEvent_effect ht
  · cases ht
    exact Or.inr ⟨_, _, _, Or.inr rfl, rfl⟩

theorem posting_fire {w : Handle} (hk : s.Kept) (ht : s.fire w = some t) :
    Posting s t (fires s (.fire w)) [] := by
  have hkt := hk.fire ht
  obtain ⟨hidle, hactive, hl, rfl⟩ := Scheduler.fire_cases ht
  obtain ⟨u, hu⟩ := hk.live_timer hactive hl
  have htype : s.typeOf w = some u.type := typeOf_eq_some.mpr ⟨hl, _, u, hu, rfl⟩
  have hhandle : s.heap.handle? w.addr = some w := hl
  simp only [fires, htype, Option.map_some, Option.toList_some]
  refine ⟨hkt, Nat.le_refl _, ?_, by simp [hidle, htype], Nat.le_refl _, by simp, by simp [hidle]⟩
  intro v type hv
  refine Or.inl ⟨hv, ?_⟩
  by_cases hvw : v = w
  · subst v
    simp [armed, hactive, Scheduler.mem_timerStop, hhandle]
  · simp [armed, Scheduler.mem_timerStop, hhandle, Ne.symm hvw]

theorem posting_ret (hk : s.Kept) (ht : s.ret = some t) : Posting s t [] [] := by
  have hkt := hk.ret ht
  rcases Scheduler.ret_cases ht with ⟨rfl, hperiodic⟩ | ⟨w, refs, u, hcb, hr, _, rfl⟩
  · refine .of_leaves hkt (Nat.le_refl _) (fun _ _ htype => ⟨htype, Iff.rfl⟩) ?_
    intro w hw
    refine Or.inr (fun htype => ?_)
    obtain ⟨refs, u, hr, hper⟩ := hperiodic w hw
    obtain ⟨_, _, v, hv, hnon⟩ := typeOf_eq_some.mp htype
    rw [show ({ s with callback := .none } : Scheduler).heap = s.heap from rfl, hr] at hv
    cases hv
    rw [hper] at hnon
    cases hnon
  · have hlisted : w.addr ∈ s.evtimerList := (hk.timer.listed w.addr).mpr (by rw [hr]; rfl)
    have hdel : ({ s.evtimerDel w.addr with callback := .none } : Scheduler).heap =
        s.heap.free w.addr := by
      simp only [Scheduler.evtimerDel, if_pos hlisted]
      exact Scheduler.autorelease_eq_free hr (hk.refs _ _ hr)
    have hstill : (s.evtimerDel w.addr).timerActive = s.timerActive := by
      simp only [Scheduler.evtimerDel, if_pos hlisted]
    refine .of_leaves hkt (by rw [hdel]; exact Nat.le_refl _) ?_ ?_
    · intro v type htype
      exact ⟨(typeOf_of_free hdel htype).2, by rw [hstill]⟩
    · intro v hv
      rw [hcb] at hv
      cases hv
      refine Or.inr (fun htype => ?_)
      exact absurd rfl (typeOf_of_free hdel htype).1

/-- No timer is listed where the record was freed, so nothing more is deleted. -/
theorem posting_lost {type : EvtimerType} (hk : s.Kept) (ht : lost s type = some t) :
    Posting s t [] [] := by
  unfold lost at ht
  split at ht
  · rename_i w hcb
    split at ht
    · cases ht
    · rename_i hgone
      have hunlisted : w.addr ∉ s.evtimerList := by
        intro hin
        obtain ⟨u, hu⟩ := hk.timer_record hin
        exact hgone _ _ hu
      have hdel : s.evtimerDel w.addr = s := if_neg hunlisted
      have htu : t = { s with callback := .none } := by
        rw [hdel] at ht
        split at ht <;> exact (Option.some.inj ht).symm
      have hkt : t.Kept := by
        rw [htu]
        exact { hk with fired := by simp }
      rw [htu] at hkt ⊢
      refine .of_leaves hkt (Nat.le_refl _) (fun _ _ htype => ⟨htype, Iff.rfl⟩) ?_
      intro v hv
      rw [hcb] at hv
      cases hv
      refine Or.inr (fun htype => ?_)
      obtain ⟨_, refs, u, hu, _⟩ := typeOf_eq_some.mp htype
      exact hgone refs u hu
  · cases ht

theorem posting_step {a : Scheduler.Act} (hk : s.Kept) (ht : s.step a = some t) :
    Posting s t (fires s a) (rearms s a) := by
  cases a with
  | call c =>
    by_cases hc : ∃ token ms arg, c = .taskAgain token ms arg
    · obtain ⟨token, ms, arg, rfl⟩ := hc
      cases ht
      exact posting_taskAgain hk token ms arg
    · have hother : ∀ token ms arg, c ≠ .taskAgain token ms arg :=
        fun token ms arg he => hc ⟨token, ms, arg, he⟩
      rw [rearms_eq_nil hother]
      exact posting_call hk ht hother
  | ioReady w recv => exact posting_ioReady hk ht
  | fire w => exact posting_fire hk ht
  | ret => exact posting_ret hk ht

theorem Booked.step {a : Act} (h : x.Booked) (ha : ∀ w junk, a ≠ .stray w junk)
    (hy : x.step a = some y) : y.Booked := by
  cases a with
  | own a =>
    obtain ⟨t, ht, rfl⟩ := Option.map_eq_some_iff.mp hy
    exact h.post (posting_step h.kept ht)
  | strayIo w recv =>
    obtain ⟨t, ht, rfl⟩ := Option.map_eq_some_iff.mp hy
    simpa using h.post (posting_strayIo h.kept ht)
  | stray w junk => exact absurd rfl (ha w junk)
  | lost type =>
    obtain ⟨t, ht, rfl⟩ := Option.map_eq_some_iff.mp hy
    simpa using h.post (posting_lost h.kept ht)

end Steps

/-- In every run in which the loop comes to no timer of a freed record, whatever the
procedures call and however often the scheduler is stopped and started, a timer fires once
for each time it was armed, and a one-shot task is called once at most. -/
theorem fired_as_armed (capacity : Nat) (as : List Act) (x : Firings)
    (hr : run step (begin capacity) as = some x) (hl : ∀ w junk, .stray w junk ∉ as) :
    x.Conserved := by
  have hp : Throughout step (fun _ a => ∀ w junk, a ≠ .stray w junk) (begin capacity) as := by
    apply throughout_of_mem
    rintro _ a ha w junk rfl
    exact hl w junk ha
  exact (invariant_of_steps (fun _ _ _ h ha hy => Booked.step h ha hy) (booked_begin capacity)
    hp hr).toConserved

/-- A one-shot task and a periodic one arm themselves again from their procedures. -/
def rearming : List Scheduler.Act :=
  [.call (.start false true 50 3), .call (.delayedtask 200 10 7 9 0),
    .call (.periodictask 300 10 8 9 0), .fire ⟨200, 1⟩, .call (.taskAgain 200 5 0), .ret,
    .fire ⟨300, 2⟩, .call (.taskAgain 300 10 0), .ret, .fire ⟨300, 2⟩]

/-- The one-shot record is gone all the same; the periodic one has fired twice. -/
theorem periodic_fired_twice : ∃ x, run step (begin 1) (rearming.map .own) = some x ∧
    x.Conserved ∧ x.sched.typeOf ⟨200, 1⟩ = none ∧ x.sched.typeOf ⟨300, 2⟩ = some .periodic ∧
    x.count ⟨300, 2⟩ = 2 :=
  ⟨_, rfl, fired_as_armed 1 (rearming.map .own) _ rfl (by simp), rfl, rfl, rfl⟩

/-- The timer that the one-shot task armed again expires, and its procedure may be called
once more through the freed record. -/
example : ∃ x, run step (begin 1)
    (rearming.map .own ++ [.own .ret, .stray ⟨200, 1⟩ (some ⟨⟨200, 1⟩, .nonperiodic⟩)]) =
      some x ∧ ¬ x.Conserved :=
  ⟨_, rfl, fun h => absurd (h.once ⟨200, 1⟩) (by decide)⟩

end Firings

end Awe
