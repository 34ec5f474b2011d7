import Awe.Scheduler.Steps

namespace Awe.Scheduler
open Machine
open Heap (Handle)

/-- When the procedure of the timer `w` returns, what the trampoline then reads and
deletes is the record that fired. -/
structure TrampolineSafe (s : Scheduler) (w : Handle) : Prop where
  alive : s.heap.Live w
  only : ∀ t, s.ret = some t → ∀ p, s.heap.Live p → p.addr ∈ s.evtimerList →
    p.addr ∉ t.evtimerList → p = w

/-- A record that is still allocated is the only one the trampoline can delete. -/
theorem trampolineSafe_of_live {s : Scheduler} {w : Handle} (hk : s.Kept)
    (hcb : s.callback = .timer w) (hl : s.heap.Live w) : s.TrampolineSafe w := by
  refine ⟨hl, ?_⟩
  intro t ht p hp hin hout
  rcases ret_cases ht with ⟨rfl, _⟩ | ⟨v, _, _, hv, _, _, rfl⟩
  · exact absurd hin hout
  · rw [hcb] at hv
    cases hv
    simp only [evtimerDel] at hout
    split at hout
    · have haddr : p.addr = w.addr := by
        by_contra hne
        exact hout (hk.timer.nodup.mem_erase_iff.mpr ⟨hne, hin⟩)
      exact hp.eq_of_addr hl haddr
    · exact absurd hin hout

/-- A call allocates, frees and rewrites records, and the blocks it frees are gone for
good. -/
def Ages (s t : Scheduler) : Prop :=
  s.heap.next ≤ t.heap.next ∧ ∀ w, w.birth < s.heap.next → t.heap.Live w → s.heap.Live w

theorem Ages.refl (s : Scheduler) : s.Ages s := ⟨Nat.le_refl _, fun _ _ hl => hl⟩

theorem Ages.of_alloc {s t : Scheduler} {a : Ptr} {r : Record}
    (hk : s.heap.alloc a r = some t.heap) : s.Ages t := by
  refine ⟨by rw [Heap.next_alloc hk]; omega, fun w hold hl => ?_⟩
  by_contra hdead
  exact Heap.not_live_alloc hk hold hdead hl

theorem Ages.of_free {s t : Scheduler} {a : Ptr} (ht : t.heap = s.heap.free a) : s.Ages t := by
  unfold Ages
  rw [ht]
  exact ⟨Nat.le_refl _, fun _ _ hl => (Heap.live_free.mp hl).2⟩

theorem Ages.of_modify {s t : Scheduler} {a : Ptr} {f : Record → Record}
    (ht : t.heap = s.heap.modify a f) : s.Ages t := by
  unfold Ages
  rw [ht]
  exact ⟨Nat.le_refl _, fun _ _ hl => Heap.live_modify.mp hl⟩

theorem Ages.stop {s : Scheduler} (hk : s.Kept) : s.Ages s.stop := by
  rcases stop_cases hk with ⟨_, he⟩ | ⟨_, heap, hnone, hnext, he⟩ <;> rw [he]
  · exact .refl s
  · refine ⟨Nat.le_of_eq hnext.symm, fun w _ hl => ?_⟩
    exact absurd hl (Heap.not_live_of_get? (hnone w.addr))

theorem Ages.trans {s t u : Scheduler} (h : s.Ages t) (h' : t.Ages u) : s.Ages u :=
  ⟨Nat.le_trans h.1 h'.1, fun w hold hl => h.2 w hold (h'.2 w (Nat.lt_of_lt_of_le hold h.1) hl)⟩

theorem call_ages {s t : Scheduler} {c : Call} (hk : s.Kept) (ht : s.call c = some t) :
    s.Ages t := by
  cases call_effect hk ht with
  | nothing => exact .refl s
  | opened _ alloc => exact .of_alloc alloc
  | failed _ alloc => exact Ages.trans (.of_alloc alloc) (.stop (hk.opened alloc))
  | stopped => exact .stop hk
  | watched alloc => exact .of_alloc alloc
  | timed _ alloc => exact .of_alloc alloc
  | rewritten | rearmed => exact .of_modify rfl
  | ioDestroyed | timerDestroyed => exact .of_free rfl
  | triggered =>
    unfold trigger
    split <;> exact .refl _

/-- A stop of a started scheduler frees every record. -/
theorem not_live_stop {s : Scheduler} (hk : s.Kept) (hst : s.started = true) (w : Handle) :
    ¬ s.stop.heap.Live w := by
  rcases stop_cases hk with ⟨hoff, _⟩ | ⟨_, heap, hnone, _, he⟩
  · simp [hst] at hoff
  · rw [he]
    exact Heap.not_live_of_get? (hnone w.addr)

/-- A listed record of a started scheduler survives exactly the calls that are neither a
stop nor the destruction of its own token. -/
theorem call_survives_iff {s t : Scheduler} {c : Call} {w : Handle} (hk : s.Kept)
    (hst : s.started = true) (hl : s.heap.Live w) (hw : w.addr ∈ s.evtimerList)
    (ht : s.call c = some t) :
    (Kills w.addr c → ¬ t.heap.Live w) ∧
      (¬ Kills w.addr c → t.started = true ∧ t.heap.Live w ∧ w.addr ∈ t.evtimerList) := by
  obtain ⟨u, hu⟩ := hk.timer_record hw
  cases call_effect hk ht with
  | nothing off unlisted =>
    refine ⟨?_, fun _ => ⟨hst, hl, hw⟩⟩
    rintro (rfl | rfl)
    · simp [hst] at off
    · exact absurd hw (unlisted _ rfl)
  | opened off | failed off => simp [hst] at off
  | stopped => exact ⟨fun _ => not_live_stop hk hst w, fun h => absurd (Or.inl rfl) h⟩
  | watched alloc =>
    exact ⟨by simp [Kills], fun _ => ⟨hst, (Heap.live_alloc alloc).mpr (Or.inr hl), hw⟩⟩
  | rewritten spares =>
    exact ⟨fun h => absurd h (spares _), fun _ => ⟨hst, Heap.live_modify.mpr hl, hw⟩⟩
  | ioDestroyed record =>
    refine ⟨by simp [Kills], fun _ => ⟨hst, Heap.live_free.mpr ⟨fun he => ?_, hl⟩, hw⟩⟩
    rw [he, record] at hu
    cases hu
  | timed spares alloc =>
    exact ⟨fun h => absurd h (spares _), fun _ =>
      ⟨hst, (Heap.live_alloc alloc).mpr (Or.inr hl), List.mem_append_left _ hw⟩⟩
  | rearmed => exact ⟨by simp [Kills], fun _ => ⟨hst, Heap.live_modify.mpr hl, hw⟩⟩
  | @timerDestroyed token v record =>
    by_cases hb : w.addr = token
    · exact ⟨fun _ h => (Heap.live_free.mp h).1 hb, fun h => absurd (Or.inr (by rw [hb])) h⟩
    · refine ⟨fun h => absurd h (by simpa [Kills] using fun he => hb he.symm), fun _ => ?_⟩
      exact ⟨hst, Heap.live_free.mpr ⟨hb, hl⟩, hk.timer.nodup.mem_erase_iff.mpr ⟨hb, hw⟩⟩
  | triggered =>
    refine ⟨by simp [Kills], fun _ => ?_⟩
    unfold trigger
    split <;> exact ⟨hst, hl, hw⟩

/-- Along a whole procedure, by the first call of it that matters. -/
theorem calls_survive_iff {s t : Scheduler} {cs : List Call} {w : Handle} (hk : s.Kept)
    (hst : s.started = true) (hl : s.heap.Live w) (hw : w.addr ∈ s.evtimerList)
    (hr : run call s cs = some t) : t.heap.Live w ↔ ∀ c ∈ cs, ¬ Kills w.addr c := by
  have hdead : ∀ (cs : List Call) (s : Scheduler), s.Kept → w.birth < s.heap.next →
      ¬ s.heap.Live w → run call s cs = some t → ¬ t.heap.Live w := by
    intro cs s hk hold hdead hr
    have keep : ∀ (u : Scheduler) (c : Call) (v : Scheduler),
        u.Kept ∧ w.birth < u.heap.next ∧ ¬ u.heap.Live w → u.call c = some v →
        v.Kept ∧ w.birth < v.heap.next ∧ ¬ v.heap.Live w := by
      rintro u c v ⟨huk, huold, hudead⟩ hv
      obtain ⟨hnext, hback⟩ := call_ages huk hv
      exact ⟨huk.call hv, Nat.lt_of_lt_of_le huold hnext, fun hl => hudead (hback w huold hl)⟩
    exact (Machine.invariant keep ⟨hk, hold, hdead⟩ hr).2.2
  induction cs generalizing s with
  | nil =>
    cases hr
    exact iff_of_true hl (by simp)
  | cons c cs ih =>
    obtain ⟨u, hu, hr⟩ := run_cons.mp hr
    obtain ⟨hkill, hlive⟩ := call_survives_iff hk hst hl hw hu
    by_cases hc : Kills w.addr c
    · refine iff_of_false ?_ (fun h => h c (by simp) hc)
      have hold := Nat.lt_of_lt_of_le hl.birth_lt (call_ages hk hu).1
      exact hdead cs u (hk.call hu) hold (hkill hc) hr
    · obtain ⟨hst', hl', hw'⟩ := hlive hc
      exact (ih (hk.call hu) hst' hl' hw' hr).trans (by simp [hc])

theorem stop_callback (s : Scheduler) : s.stop.callback = s.callback := by
  unfold stop
  split <;> rfl

/-- No public call leaves the trampoline. -/
theorem call_callback {s t : Scheduler} {c : Call} (hk : s.Kept) (ht : s.call c = some t) :
    t.callback = s.callback := by
  cases call_effect hk ht with
  | failed => exact stop_callback _
  | stopped => exact stop_callback s
  | triggered =>
    unfold trigger
    split <;> rfl
  | _ => rfl

/-- Whatever a task procedure calls, the trampoline comes back to the record that fired
exactly if the procedure has neither stopped the scheduler nor destroyed its own token. -/
theorem trampoline_safe_iff (capacity : Nat) (as : List Act) (s t u : Scheduler) (w : Handle)
    (cs : List Call) (hs : run step (create capacity) as = some s)
    (ht : s.step (.fire w) = some t) (hu : run call t cs = some u) :
    u.TrampolineSafe w ↔ .stop ∉ cs ∧ .tasktokenDestroy w.addr ∉ cs := by
  have hk : s.Kept := kept_of_run hs
  have hkt := hk.step ht
  obtain ⟨_, hw, hl, rfl⟩ := fire_cases ht
  have hlisted := hk.timer.live w hw hl
  have hst : s.started = true := by
    by_contra hoff
    rw [(hk.stopped (by simpa using hoff)).2] at hlisted
    cases hlisted
  have keep : ∀ (v : Scheduler) (c : Call) (x : Scheduler), v.Kept ∧ v.callback = .timer w →
      v.call c = some x → x.Kept ∧ x.callback = .timer w :=
    fun v c x hv hx => ⟨hv.1.call hx, (call_callback hv.1 hx).trans hv.2⟩
  obtain ⟨hku, hcb⟩ := Machine.invariant keep ⟨hkt, rfl⟩ hu
  have hlive := calls_survive_iff hkt hst hl hlisted hu
  have hmem : (∀ c ∈ cs, ¬ Kills w.addr c) ↔ .stop ∉ cs ∧ .tasktokenDestroy w.addr ∉ cs := by
    constructor
    · exact fun h => ⟨fun hc => h _ hc (Or.inl rfl), fun hc => h _ hc (Or.inr rfl)⟩
    · rintro ⟨h, h'⟩ c hc (rfl | rfl)
      · exact h hc
      · exact h' hc
  rw [← hmem, ← hlive]
  exact ⟨fun h => h.alive, fun h => trampolineSafe_of_live hku hcb h⟩

/-- A connector's descriptor watched at address 100, with the timeout of its connect. -/
def connecting : List Act :=
  [.call (.start false true 50 3), .call (.delayedtask 200 5000 7 9 0),
    .call (.watch 100 4 AWE_WRITE 8 9)]

/-- `awe_connector_close`, as `connector_connecttimeout` calls it. -/
def connectorClose (conntoken timeouttoken : Ptr) : List Call :=
  [.socktokenDestroy conntoken, .tasktokenDestroy timeouttoken]

/-- The procedure that only asks for another task comes back safely. -/
theorem safe_after_delayedtask : ∃ s t u, run step (create 1) connecting = some s ∧
    s.step (.fire ⟨200, 1⟩) = some t ∧ run call t [.delayedtask 300 0 7 9 0] = some u ∧
    u.TrampolineSafe ⟨200, 1⟩ :=
  ⟨_, _, _, rfl, rfl, rfl,
    (trampoline_safe_iff 1 connecting _ _ _ ⟨200, 1⟩ [.delayedtask 300 0 7 9 0] rfl rfl rfl).mpr
      (by simp)⟩

/-- The connector's own timeout frees the record under the trampoline. If the handler
then asks for a new task and gets the old address, the trampoline deletes that task. -/
theorem connecttimeout_frees_record : ∃ s t u v x,
    run step (create 1) connecting = some s ∧ s.step (.fire ⟨200, 1⟩) = some t ∧
    run call t (connectorClose 100 200) = some u ∧ ¬ u.TrampolineSafe ⟨200, 1⟩ ∧
    u.call (.delayedtask 200 0 7 9 0) = some v ∧ v.heap.Live ⟨200, 3⟩ ∧ 200 ∈ v.evtimerList ∧
    v.step .ret = some x ∧ 200 ∉ x.evtimerList ∧ ¬ x.heap.Live ⟨200, 3⟩ :=
  ⟨_, _, _, _, _, rfl, rfl, rfl, fun h => absurd h.alive (by decide), rfl, by decide, by decide,
    rfl, by decide, by decide⟩

end Awe.Scheduler
