import Awe.Ledger.Cancel
import Awe.Looper.Refinement
import Awe.UxScheduler.Refinement

namespace Awe
open Machine

namespace Looper

theorem marked_is_destroyed {s : Looper} {task : TimerTask} (hw : s.ledger.hand = .fetched task)
    (hmark : task.state = .invalid) : ∃ t, s.step .testState = some t ∧
      t.ledger = { s.ledger with
        hand := .empty
        destroyed := s.ledger.destroyed ++ [task.ticket] } := by
  have hworker : s.worker = .fetched task := by
    cases hc : s.worker <;> simp_all [ledger, Worker.hand]
  refine ⟨{ s with worker := .loop, destroyed := s.destroyed ++ [task.ticket] }, ?_, rfl⟩
  simp [step, Act.locks, act, testState, hworker, hmark]

theorem cancel_marks {s t : Looper} {id : Ptr} (ht : s.step (.cancel id) = some t)
    (hok : (s.cancel id).1 = AWE_OK) : (s.taskList.cancel id).1 = AWE_OK ∧
      t.ledger = { s.ledger with pending := (s.taskList.cancel id).2 } := by
  cases step_act ht
  unfold cancel at hok ⊢
  split at hok
  · simp [AWE_OK] at hok
  · rename_i hstarted
    rw [if_neg hstarted]
    exact ⟨hok, rfl⟩

theorem clear_empties {s t : Looper} (ht : s.step .clear = some t) :
    t.ledger.pending = [] ∧ t.ledger.hand.tasks = s.ledger.hand.tasks ∧
      t.ledger.posted = s.ledger.posted := by
  cases step_act ht
  exact ⟨rfl, rfl, rfl⟩

end Looper

namespace UxScheduler

theorem marked_is_destroyed {s : UxScheduler} {task : TimerTask}
    (hw : s.ledger.hand = .fetched task) (hmark : task.state = .invalid) :
    ∃ t, s.step .testTask = some t ∧ t.ledger = { s.ledger with
      hand := .empty
      destroyed := s.ledger.destroyed ++ [task.ticket] } := by
  have hworker : s.worker = .fetched task := by
    cases hc : s.worker <;> simp_all [ledger, Worker.hand]
  refine ⟨{ s with worker := .loop, destroyed := s.destroyed ++ [task.ticket] }, ?_, rfl⟩
  simp [step, Act.locks, act, testTask, hworker, hmark]

theorem cancel_marks {s t : UxScheduler} {id : Ptr} (ht : s.step (.cancel id) = some t)
    (hok : (s.cancel id).1 = AWE_OK) : (s.taskList.cancel id).1 = AWE_OK ∧
      t.ledger = { s.ledger with pending := (s.taskList.cancel id).2 } := by
  cases step_act ht
  unfold cancel at hok ⊢
  split at hok
  · simp [AWE_OK] at hok
  · rename_i hstarted
    rw [if_neg hstarted]
    exact ⟨hok, rfl⟩

theorem clear_empties {s t : UxScheduler} (ht : s.step .clear = some t) :
    t.ledger.pending = [] ∧ t.ledger.hand.tasks = s.ledger.hand.tasks ∧
      t.ledger.posted = s.ledger.posted := by
  cases step_act ht
  exact ⟨rfl, rfl, rfl⟩

end UxScheduler

/-- A cancel that returned `AWE_OK` is final, for the looper and the uxscheduler alike,
where no two posts ever returned the same id. -/
theorem successful_cancel_is_final :
    (∀ as s id s', run Looper.step Looper.create as = some s →
      (s.posted.map TimerTask.id).Nodup → Looper.step s (.cancel id) = some s' →
      (s.cancel id).1 = AWE_OK →
      ∃ k, Ledger.CancelFinal Looper.step Looper.ledger .testState .clear s s' id k) ∧
    (∀ as s id s', run UxScheduler.step UxScheduler.create as = some s →
      (s.posted.map TimerTask.id).Nodup → UxScheduler.step s (.cancel id) = some s' →
      (s.cancel id).1 = AWE_OK →
      ∃ k, Ledger.CancelFinal UxScheduler.step UxScheduler.ledger .testTask .clear s s' id k) := by
  constructor
  · intro as s id s' hr hids hs hok
    obtain ⟨hfound, hmark⟩ := Looper.cancel_marks hs hok
    exact Ledger.cancelFinal_of_refines Looper.refines
      (fun _ _ _ hw hm => Looper.marked_is_destroyed hw hm)
      (fun _ _ ht => Looper.clear_empties ht)
      (Machine.invariant (fun _ _ _ h ht => Looper.OneWorker.step h ht) Looper.oneWorker_create hr)
      (Looper.accounted hr) hs hfound hmark hids
  · intro as s id s' hr hids hs hok
    obtain ⟨hfound, hmark⟩ := UxScheduler.cancel_marks hs hok
    exact Ledger.cancelFinal_of_refines UxScheduler.refines
      (fun _ _ _ hw hm => UxScheduler.marked_is_destroyed hw hm)
      (fun _ _ ht => UxScheduler.clear_empties ht)
      (UxScheduler.oneWorker hr) (UxScheduler.accounted hr) hs hfound hmark hids

/-- A post that returns address 100, due ten milliseconds after time 0. -/
def laterPost : Post := ⟨timeMs 0, DelayMs.ofInt32 10, 100, 1, 0, 0⟩

def looperPost : List Looper.Act := [.start, .startStore, .startStore, .post laterPost none]

def uxPost : List UxScheduler.Act :=
  [.start laterPost.delay, .startStore, .startStore, .post laterPost none]

theorem cancel_of_later_post :
    (∃ s s', run Looper.step Looper.create looperPost = some s ∧
      Looper.step s (.cancel 100) = some s' ∧
      ∃ k, Ledger.CancelFinal Looper.step Looper.ledger .testState .clear s s' 100 k) ∧
    (∃ s s', run UxScheduler.step UxScheduler.create uxPost = some s ∧
      UxScheduler.step s (.cancel 100) = some s' ∧
      ∃ k, Ledger.CancelFinal UxScheduler.step UxScheduler.ledger .testTask .clear s s' 100 k) :=
  ⟨⟨_, _, rfl, rfl, successful_cancel_is_final.1 looperPost _ 100 _ rfl (by decide) rfl rfl⟩,
    ⟨_, _, rfl, rfl, successful_cancel_is_final.2 uxPost _ 100 _ rfl (by decide) rfl rfl⟩⟩

end Awe
