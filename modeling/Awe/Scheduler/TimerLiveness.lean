import Awe.Scheduler.Steps

namespace Awe.Scheduler
open Machine
open Heap (Handle)

/-- Every timer of the loop belongs to an allocated record of `_evtimer_list`. -/
def TimersKept (s : Scheduler) : Prop :=
  ∀ w ∈ s.timerActive, s.heap.Live w ∧ w.addr ∈ s.evtimerList

/-- When a task procedure returns, a one-shot record at the address that fired is not
armed. -/
def NotRearmed (s : Scheduler) (a : Act) : Prop :=
  a = .ret → ∀ w refs u, s.callback = .timer w → s.heap.get? w.addr = some ⟨refs, .timer u⟩ →
    u.type = .nonperiodic → ∀ p ∈ s.timerActive, s.heap.handle? w.addr ≠ some p

theorem TimersKept.of_subset {s t : Scheduler} (h : s.TimersKept)
    (hactive : ∀ w ∈ t.timerActive, w ∈ s.timerActive)
    (hlive : ∀ w ∈ s.timerActive, s.heap.Live w → t.heap.Live w)
    (hlist : ∀ a ∈ s.evtimerList, a ∈ t.evtimerList) : t.TimersKept := by
  intro w hw
  obtain ⟨hl, ha⟩ := h w (hactive w hw)
  exact ⟨hlive w (hactive w hw) hl, hlist _ ha⟩

section Calls

variable {s t : Scheduler} {a : Ptr}

/-- No call of a session parts an active timer from its record. -/
theorem TimersKept.call {c : Call} (hk : s.Kept) (h : s.TimersKept)
    (hsession : Act.inSession (.call c) = true) (ht : s.call c = some t) : t.TimersKept := by
  cases call_effect hk ht with
  | opened | failed | stopped => cases hsession
  | nothing => exact h
  | triggered =>
    unfold trigger
    split <;> exact h
  | watched alloc =>
    exact h.of_subset (fun _ hv => hv) (fun _ _ hl => (Heap.live_alloc alloc).mpr (Or.inr hl))
      (fun _ hb => hb)
  | rewritten =>
    exact h.of_subset (fun _ hv => hv) (fun _ _ hl => Heap.live_modify.mpr hl) (fun _ hb => hb)
  | ioDestroyed record =>
    refine h.of_subset (fun _ hv => hv) (fun v hv hl => ?_) (fun _ hb => hb)
    refine Heap.live_free.mpr ⟨fun he => ?_, hl⟩
    obtain ⟨u, hu⟩ := hk.live_timer hv hl
    rw [he, record] at hu
    cases hu
  | timed _ alloc =>
    intro v hv
    rcases List.mem_cons.mp hv with rfl | hv
    · exact ⟨(Heap.live_alloc alloc).mpr (Or.inl rfl), by simp⟩
    · obtain ⟨hl, hlist⟩ := h v hv
      exact ⟨(Heap.live_alloc alloc).mpr (Or.inr hl), List.mem_append_left _ hlist⟩
  | rearmed listed handle =>
    intro v hv
    rcases List.mem_cons.mp hv with rfl | hv
    · exact ⟨Heap.live_modify.mpr (Heap.live_of_handle? handle), by rwa [Heap.handle?_addr handle]⟩
    · obtain ⟨hl, hlist⟩ := h v (mem_timerStop.mp hv).1
      exact ⟨Heap.live_modify.mpr hl, hlist⟩
  | @timerDestroyed token _ record =>
    intro v hv
    obtain ⟨hv, hne⟩ := mem_timerStop.mp hv
    obtain ⟨hl, hlist⟩ := h v hv
    have haddr : v.addr ≠ token := fun he => hne (he ▸ hl)
    exact ⟨Heap.live_free.mpr ⟨haddr, hl⟩, hk.timer.nodup.mem_erase_iff.mpr ⟨haddr, hlist⟩⟩

/-- Deleting a record keeps the others, and itself counts only if it was armed. -/
theorem TimersKept.evtimerDel_iff (hk : s.Kept) (h : s.TimersKept) {u : EvTimer} {refs : Int}
    (hr : s.heap.get? a = some ⟨refs, .timer u⟩) :
    (s.evtimerDel a).TimersKept ↔ ∀ p ∈ s.timerActive, s.heap.handle? a ≠ some p := by
  have ha : a ∈ s.evtimerList := (hk.timer.listed a).mpr (by rw [hr]; rfl)
  have hone : refs = 1 := hk.refs a _ hr
  unfold Scheduler.evtimerDel
  rw [if_pos ha, autorelease_eq_free hr hone]
  constructor
  · intro hgood p hp he
    exact (Heap.live_free.mp (hgood p hp).1).1 (Heap.handle?_addr he)
  · intro hfree v hv
    obtain ⟨hl, hlist⟩ := h v hv
    have haddr : v.addr ≠ a := fun he => hfree v hv (he ▸ hl)
    exact ⟨Heap.live_free.mpr ⟨haddr, hl⟩, hk.timer.nodup.mem_erase_iff.mpr ⟨haddr, hlist⟩⟩

end Calls

/-- Out of a state in order, one step of a session leaves a timer without its record
exactly when a one-shot record is deleted that its own procedure has armed. -/
theorem timersKept_iff {s t : Scheduler} {a : Act} (hk : s.Kept) (h : s.TimersKept)
    (ht : s.session a = some t) : t.TimersKept ↔ s.NotRearmed a := by
  have hstep := session_step ht
  cases a with
  | ret =>
    rcases ret_cases hstep with ⟨rfl, hperiodic⟩ | ⟨w, refs, u, hcb, hr, htype, rfl⟩
    · apply iff_of_true h
      intro _ w refs u hcb hr htype
      obtain ⟨_, v, hv, hper⟩ := hperiodic w hcb
      rw [hr] at hv
      cases hv
      rw [htype] at hper
      cases hper
    · have hdel : ({ s.evtimerDel w.addr with callback := .none } : Scheduler).TimersKept ↔
          (s.evtimerDel w.addr).TimersKept := Iff.rfl
      rw [hdel, h.evtimerDel_iff hk hr]
      constructor
      · intro hfree _ v _ _ hcb' _ _
        rw [hcb] at hcb'
        cases hcb'
        exact hfree
      · intro hnot
        exact hnot rfl w refs u hcb hr htype
  | fire w =>
    obtain ⟨_, _, _, rfl⟩ := fire_cases hstep
    refine iff_of_true ?_ (by simp [NotRearmed])
    exact h.of_subset (fun v hv => (mem_timerStop.mp hv).1) (fun _ _ hl => hl) (fun _ hb => hb)
  | ioReady w recv =>
    refine iff_of_true ?_ (by simp [NotRearmed])
    rcases ioReady_effect hstep with rfl | ⟨_, _, _, _, rfl⟩
    · have hdrop : (s.socktokenDestroy s.triggertoken).TimersKept :=
        h.call (c := .socktokenDestroy s.triggertoken) hk rfl rfl
      exact hdrop
    · exact h
  | call c =>
    refine iff_of_true ?_ (by simp [NotRearmed])
    exact h.call hk (inSession_of_session ht) hstep

/-- An armed timer stays armed until it fires or its token is destroyed. -/
theorem armed_step {s t : Scheduler} {a : Act} {p : Handle} (hk : s.Kept) (h : s.TimersKept)
    (hp : p ∈ s.timerActive) (hfire : a ≠ .fire p) (hdestroy : a ≠ .call (.tasktokenDestroy p.addr))
    (ht : s.session a = some t) : p ∈ t.timerActive := by
  have hstep := session_step ht
  have hhere : s.heap.handle? p.addr = some p := (h p hp).1
  have hstays : ∀ b, b ≠ p.addr → p ∈ s.timerStop b := by
    intro b hb
    exact mem_timerStop.mpr ⟨hp, fun he => hb (Heap.handle?_addr he).symm⟩
  cases a with
  | ret =>
    rcases ret_cases hstep with ⟨rfl, _⟩ | ⟨w, _, _, _, _, _, rfl⟩
    · exact hp
    · simp only [evtimerDel]
      split <;> exact hp
  | fire w =>
    obtain ⟨_, hw, hl, rfl⟩ := fire_cases hstep
    refine hstays w.addr (fun he => hfire ?_)
    rw [hl.eq_of_addr (h p hp).1 he]
  | ioReady w recv =>
    rcases ioReady_effect hstep with rfl | ⟨_, _, _, _, rfl⟩
    · simp only [disableTrigger, socktokenDestroy]
      split <;> exact hp
    · exact hp
  | call c =>
    have hsession := inSession_of_session ht
    cases call_effect hk hstep with
    | opened | failed | stopped => cases hsession
    | nothing | watched | rewritten | ioDestroyed => exact hp
    | triggered =>
      unfold trigger
      split <;> exact hp
    | timed => exact List.mem_cons_of_mem _ hp
    | @rearmed token _ _ q _ handle =>
      by_cases hb : token = p.addr
      · rw [hb, hhere] at handle
        cases handle
        exact List.mem_cons_self
      · exact List.mem_cons_of_mem _ (hstays token hb)
    | timerDestroyed => exact hstays _ (fun he => hdestroy (by rw [he]))

/-- A session starts without timer records, so every timer still in the loop dangles. -/
theorem started_timersKept_iff {s₀ s : Scheduler} {thread threadOk : Bool} {a : Ptr} {fd : Int}
    (hk : s₀.Kept) (hoff : s₀.started = false)
    (hs : s₀.step (.call (.start thread threadOk a fd)) = some s) :
    s.TimersKept ↔ s.timerActive = [] := by
  have hnil : s.evtimerList = [] := by
    obtain ⟨⟨status, u⟩, hu, rfl⟩ := Option.map_eq_some_iff.mp hs
    rcases start_cases hu with ⟨hon, _⟩ | ⟨_, heap, hheap, ⟨_, rfl⟩ | ⟨_, rfl⟩⟩
    · simp [hoff] at hon
    · exact (hk.stopped hoff).2
    · rcases stop_cases (hk.opened hheap) with ⟨hoff, _⟩ | ⟨_, _, _, _, he⟩
      · cases hoff
      · rw [he]
  constructor
  · intro h
    apply List.eq_nil_iff_forall_not_mem.mpr
    intro w hw
    have hlist := (h w hw).2
    rw [hnil] at hlist
    cases hlist
  · intro h w hw
    rw [h] at hw
    cases hw

/-- A task re-armed with `AWE_OK`: wherever the session goes on to, short of firing it or
destroying its token, its record is there. -/
def RearmedLives (s : Scheduler) : Prop :=
  ∀ token ms arg p post t, (s.taskAgain token ms arg).1 = AWE_OK →
    s.heap.handle? token = some p →
    Throughout session NotRearmed (s.taskAgain token ms arg).2 post →
    (∀ a ∈ post, a ≠ .fire p ∧ a ≠ .call (.tasktokenDestroy token)) →
    run session (s.taskAgain token ms arg).2 post = some t →
    t.heap.Live p ∧ token ∈ t.evtimerList ∧ p ∈ t.timerActive

theorem rearmedLives {s : Scheduler} (hk : s.Kept) (h : s.TimersKept) : s.RearmedLives := by
  intro token ms arg p post t hok hp hnot hpost hr
  rcases taskAgain_cases hk token ms arg with ⟨hfail, _⟩ | ⟨_, ha, q, hq, he⟩
  · exact absurd hok hfail
  rw [hp] at hq
  cases hq
  have haddr : p.addr = token := Heap.handle?_addr hp
  have hmem : p ∈ (s.taskAgain token ms arg).2.timerActive := by
    rw [he]
    exact List.mem_cons_self
  have hsteps : Throughout session
      (fun u a => u.NotRearmed a ∧ a ≠ .fire p ∧ a ≠ .call (.tasktokenDestroy token))
      (s.taskAgain token ms arg).2 post :=
    hnot.and (throughout_of_mem (fun _ => hpost) _)
  have keep : ∀ (u : Scheduler) (a : Act) (v : Scheduler),
      u.Kept ∧ u.TimersKept ∧ p ∈ u.timerActive →
      u.NotRearmed a ∧ a ≠ .fire p ∧ a ≠ .call (.tasktokenDestroy token) → u.session a = some v →
      v.Kept ∧ v.TimersKept ∧ p ∈ v.timerActive := by
    rintro u a v ⟨huk, hu, hup⟩ ⟨hnot, hfire, hdestroy⟩ hv
    exact ⟨huk.session hv, (timersKept_iff huk hu hv).mpr hnot,
      armed_step huk hu hup hfire (haddr ▸ hdestroy) hv⟩
  have hend := invariant_of_steps keep
    ⟨hk.taskAgain token ms arg, h.call (c := .taskAgain token ms arg) hk rfl rfl, hmem⟩ hsteps hr
  obtain ⟨_, hkept, hp⟩ := hend
  exact ⟨(hkept p hp).1, haddr ▸ (hkept p hp).2, hp⟩

/-- In a session every timer keeps its record exactly as long as the loop holds no timer
of an earlier session and no one-shot task is armed when its own procedure returns; and
then a re-armed task lives on. -/
theorem timers_kept_iff (capacity : Nat) (before : List Act) (s₀ s : Scheduler)
    (thread threadOk : Bool) (a : Ptr) (fd : Int)
    (hbefore : run step (create capacity) before = some s₀) (hoff : s₀.started = false)
    (hs : s₀.step (.call (.start thread threadOk a fd)) = some s) (as : List Act) :
    (Always session TimersKept s as ↔
        s.timerActive = [] ∧ Throughout session NotRearmed s as) ∧
      (s.timerActive = [] → Throughout session NotRearmed s as →
        Always session RearmedLives s as) := by
  have hk₀ : s₀.Kept := kept_of_run hbefore
  have hk : s.Kept := hk₀.step hs
  have hstart : s.TimersKept ↔ s.timerActive = [] := started_timersKept_iff hk₀ hoff hs
  have hiff : s.TimersKept →
      (Always session TimersKept s as ↔ Throughout session NotRearmed s as) :=
    fun h => always_iff_throughout (fun _ _ _ hk _ _ ht => Kept.session hk ht)
      (fun _ _ _ hk h ht => timersKept_iff hk h ht) hk h as
  constructor
  · constructor
    · intro hall
      have h := hall.head
      exact ⟨hstart.mp h, (hiff h).mp hall⟩
    · rintro ⟨hnone, hnot⟩
      exact (hiff (hstart.mpr hnone)).mpr hnot
  · intro hnone hnot
    exact ((hiff (hstart.mpr hnone)).mpr hnot).imp_of_invariant
      (fun _ _ _ hk ht => Kept.session hk ht) (fun _ hk h => rearmedLives hk h) hk

def oneShot : List Act :=
  [.call (.delayedtask 200 0 7 0 10), .fire ⟨200, 1⟩, .ret]

theorem one_shot_kept : ∃ s, (create 1).step (.call (.start false true 100 3)) = some s ∧
    (Always session TimersKept s oneShot ↔
      s.timerActive = [] ∧ Throughout session NotRearmed s oneShot) :=
  ⟨_, rfl, (timers_kept_iff 1 [] (create 1) _ false true 100 3 rfl rfl rfl oneShot).1⟩

def selfRearming : List Act :=
  [.call (.delayedtask 200 0 7 0 10), .fire ⟨200, 1⟩, .call (.taskAgain 200 1000 0), .ret]

/-- The trampoline frees the record of the timer that was just armed again. -/
theorem self_rearming_dangles : ∃ s t,
    (create 1).step (.call (.start false true 100 3)) = some s ∧
    run session s selfRearming = some t ∧ ⟨200, 1⟩ ∈ t.timerActive ∧ ¬ t.heap.Live ⟨200, 1⟩ ∧
    200 ∉ t.evtimerList :=
  ⟨_, _, rfl, rfl, by decide, by decide, by decide⟩

end Awe.Scheduler
