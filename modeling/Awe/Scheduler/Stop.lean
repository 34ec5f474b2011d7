import Awe.Scheduler.Steps

namespace Awe.Scheduler
open Machine
open Heap (Handle)

/-- No watcher of the loop lies in a record that has been freed. -/
def Clean (s : Scheduler) : Prop :=
  ∀ w, w ∈ s.ioActive ∨ w ∈ s.timerActive → s.heap.Live w

/-- The actions that end with a return of `awe_scheduler_stop`: the call itself, and a
start whose thread cannot be started. -/
def stopReturns (s : Scheduler) : Act → Bool
  | .call .stop => true
  | .call (.start thread threadOk _ _) => !s.started && thread && !threadOk
  | _ => false

def CleanAfterStop (s : Scheduler) (a : Act) : Prop :=
  s.stopReturns a → ∀ t, s.step a = some t → t.Clean

/-- A stop is called on a loop that watches nothing, not even the trigger descriptor,
and no start fails. -/
def NothingActive (s : Scheduler) (a : Act) : Prop :=
  s.stopReturns a → a = .call .stop ∧ s.ioActive = [] ∧ s.timerActive = []

/-- Where nothing is allocated, only a loop without watchers is clean. -/
theorem clean_iff_of_freed {s : Scheduler} (h : ∀ a, s.heap.get? a = none) :
    s.Clean ↔ s.ioActive = [] ∧ s.timerActive = [] := by
  have hdead : ∀ w, ¬ s.heap.Live w := fun w => Heap.not_live_of_get? (h w.addr)
  constructor
  · intro hc
    constructor <;> refine List.eq_nil_iff_forall_not_mem.mpr (fun w hw => ?_)
    · exact hdead w (hc w (Or.inl hw))
    · exact hdead w (hc w (Or.inr hw))
  · rintro ⟨hio, htimer⟩ w hw
    simp [hio, htimer] at hw

theorem Kept.freed_of_stopped {s : Scheduler} (h : s.Kept) (hst : s.started = false) (a : Ptr) :
    s.heap.get? a = none := by
  obtain ⟨hio, htimer⟩ := h.stopped hst
  cases hr : s.heap.get? a with
  | none => rfl
  | some r =>
    cases hk : r.isIo with
    | true =>
      have := (h.io.listed a).mpr (by rw [hr, Option.map_some, hk])
      rw [hio] at this
      cases this
    | false =>
      have := (h.timer.listed a).mpr (by rw [hr, Option.map_some, hk])
      rw [htimer] at this
      cases this

/-- A stop frees every record and leaves every watcher to the loop. -/
theorem Kept.clean_stop_iff {s : Scheduler} (h : s.Kept) :
    s.stop.Clean ↔ s.ioActive = [] ∧ s.timerActive = [] := by
  rcases stop_cases h with ⟨hst, he⟩ | ⟨_, heap, hnone, _, he⟩ <;> rw [he]
  · exact clean_iff_of_freed (h.freed_of_stopped hst)
  · exact clean_iff_of_freed hnone

/-- A start that fails has activated the trigger watch before it stops. -/
theorem Kept.not_clean_of_failed_start {s t : Scheduler} (h : s.Kept) {a : Ptr} {fd : Int}
    {status : Status} (hst : s.started = false)
    (ht : s.start true false a fd = some (status, t)) : ¬ t.Clean := by
  rcases start_cases ht with ⟨hon, _⟩ | ⟨_, heap, hk, ⟨hok, _⟩ | ⟨_, rfl⟩⟩
  · simp [hst] at hon
  · cases hok
  · rw [(h.opened hk).clean_stop_iff]
    rintro ⟨hio, _⟩
    cases hio

theorem Kept.cleanAfterStop_iff {s t : Scheduler} {a : Act} (h : s.Kept)
    (ht : s.step a = some t) : s.CleanAfterStop a ↔ s.NothingActive a := by
  have honly : (∀ u, s.step a = some u → u.Clean) ↔ t.Clean := by simp [ht]
  unfold CleanAfterStop NothingActive
  rw [honly]
  apply imp_congr_right
  intro hret
  cases a with
  | call c =>
    cases c with
    | stop =>
      cases ht
      simpa using h.clean_stop_iff
    | start thread threadOk a fd =>
      simp only [stopReturns, Bool.and_eq_true, Bool.not_eq_true'] at hret
      obtain ⟨⟨hst, rfl⟩, rfl⟩ := hret
      obtain ⟨⟨status, u⟩, hu, rfl⟩ := Option.map_eq_some_iff.mp ht
      exact iff_of_false (h.not_clean_of_failed_start hst hu) (by simp)
    | _ => cases hret
  | _ => cases hret

/-- In every run the loop is clean after each stop exactly as long as every stop is
called on a loop that watches nothing and no start fails. -/
theorem clean_after_stop_iff (capacity : Nat) (as : List Act) :
    Throughout step CleanAfterStop (create capacity) as ↔
      Throughout step NothingActive (create capacity) as :=
  throughout_congr (fun _ _ _ h ht => Kept.step h ht) (fun _ _ _ h ht => h.cleanAfterStop_iff ht)
    (kept_create capacity) as

/-- A start and a stop, and nothing in between. -/
def startStop : List Act := [.call (.start false true 100 3), .call .stop]

/-- They leave the watch of the trigger descriptor in the loop, its record freed. -/
theorem stop_leaves_trigger_watch :
    ¬ Throughout step CleanAfterStop (create 1) startStop ∧
      ∃ s, run step (create 1) startStop = some s ∧ ⟨100, 0⟩ ∈ s.ioActive ∧
        ¬ s.heap.Live ⟨100, 0⟩ := by
  refine ⟨fun h => ?_, _, rfl, by decide, by decide⟩
  have hclean := (h _ rfl).2 _ rfl |>.1 rfl _ rfl
  exact absurd (hclean ⟨100, 0⟩ (Or.inl (by decide))) (by decide)

end Awe.Scheduler
