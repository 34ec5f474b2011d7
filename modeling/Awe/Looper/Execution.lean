import Awe.Looper.Refinement

namespace Awe.Looper
open Machine

/-- What the two critical sections of a worker iteration rely on between them, as
long as nobody clears the list: only the worker takes tasks off it, and no
restart can come between. -/
structure Fed (s : Looper) : Prop where
  owned : s.OneWorker
  starting : s.starting ≠ .none → s.worker = .loop ∨ s.worker = .lock1 ∨ s.worker = .exit ∨
    s.worker = .none
  unlocked : s.worker = .unlocked → s.started → s.taskList ≠ []
  lock2 : s.worker = .lock2 → s.taskList ≠ []
  safe : s.worker ≠ .crashed

theorem fed_create : create.Fed where
  owned := oneWorker_create
  starting := by simp [create]
  unlocked := by simp [create]
  lock2 := by simp [create]
  safe := by simp [create]

/-- Steps that leave the worker where it is, start nothing and keep a non-empty
list non-empty. -/
theorem Fed.of_same {s t : Looper} (h : s.Fed) (howned : t.OneWorker)
    (hw : t.worker = s.worker) (hs : t.starting ≠ .none → s.starting ≠ .none)
    (hstart : t.started → s.started) (hlist : s.taskList ≠ [] → t.taskList ≠ []) : t.Fed where
  owned := howned
  starting hne := hw ▸ h.starting (hs hne)
  unlocked hu hst := hlist (h.unlocked (hw ▸ hu) (hstart hst))
  lock2 hl := hlist (h.lock2 (hw ▸ hl))
  safe := hw ▸ h.safe

theorem cancel_ne_nil {list : TimerTaskList} (h : list ≠ []) (id : Ptr) :
    (list.cancel id).2 ≠ [] := by
  intro he
  have hm := TimerTaskList.cancel_map TimerTask.ticket (fun _ => rfl) list id
  rw [he] at hm
  exact h (List.map_eq_nil_iff.mp hm.symm)

/-- What a start under way leaves open of the worker's place. -/
theorem Fed.starting_idle {s : Looper} (h : s.Fed) (hw : s.worker = .unlocked ∨ s.worker = .lock2) :
    s.starting = .none := by
  by_contra hne
  rcases h.starting hne with hs | hs | hs | hs <;> simp [hs] at hw

theorem Fed.step {s t : Looper} {a : Act} (h : s.Fed) (hc : a ≠ .clear)
    (ht : s.step a = some t) : t.Fed := by
  have howned := h.owned.step ht
  cases step_effect ht with
  | clear => exact absurd rfl hc
  | same => exact h
  | start => exact ⟨howned, by simp, by simp, by simp, by simp⟩
  | reset created => exact h.of_same howned rfl (fun _ => by simp [created]) id id
  | launch reset =>
    refine ⟨howned, by simp, fun hw => ?_, fun hw => ?_, h.safe⟩
    · rw [h.starting_idle (Or.inl hw)] at reset
      cases reset
    · rw [h.starting_idle (Or.inr hw)] at reset
      cases reset
  | post => exact h.of_same howned rfl id id (fun _ => StableQueue.insert_ne_nil _ _)
  | cancel => exact h.of_same howned rfl id id (fun hne => cancel_ne_nil hne _)
  | stopSignal => exact h.of_same howned rfl id (by simp) id
  | stopRequest | stopWaits | stopReturns | timeout | leave => exact h.of_same howned rfl id id id
  | sleeps =>
    have hs := starting_of_locks rfl ht
    exact ⟨howned, by simp [hs], by simp, by simp, by simp⟩
  | passes _ awaited =>
    have hs := starting_of_locks rfl ht
    exact ⟨howned, by simp [hs], fun _ => awaited, by simp, by simp⟩
  | testExit here =>
    refine ⟨howned, fun _ => ?_, ?_, ?_, ?_⟩ <;> split <;> simp
  | testStarted here =>
    have hs := h.starting_idle (Or.inl here)
    refine ⟨howned, fun hne => absurd hs hne, ?_, ?_, ?_⟩
    · split <;> simp
    · split
      · rename_i hon
        exact fun _ => h.unlocked here hon
      · simp
    · split <;> simp
  | crashes here bare => exact absurd bare (h.lock2 here)
  | takes here | waits here =>
    have hs := h.starting_idle (Or.inr here)
    exact ⟨howned, by simp [hs], by simp, by simp, by simp⟩
  | wakes | skips | ends | finish => exact ⟨howned, by simp, by simp, by simp, by simp⟩
  | calls hand =>
    refine ⟨howned, fun hne => ?_, by simp, by simp, by simp⟩
    have hplace := h.starting hne
    simp [hand] at hplace

/-- The guarantee to the posters, at a state a run has led to. -/
structure ExecutionGuarantee (s : Looper) : Prop where
  one_place : ∀ k, k < s.posted.length →
    (s.taskList.map TimerTask.ticket).count k +
      (s.worker.hand.tasks.map TimerTask.ticket).count k + s.destroyed.count k = 1
  recorded : ∀ p pick id t, s.post p pick = some (id, t) → id ≠ NULL →
    id = p.id ∧ t.posted = s.posted ++ [p.task s.posted.length]
  at_most_once : (s.invoked.map TimerTask.ticket).Nodup
  as_posted : ∀ t ∈ s.invoked, ∃ p, s.posted[t.ticket]? = some p ∧ t.SameWork p
  popped_due : ∀ a t task, s.step a = some t → s.worker.hand = .empty →
    t.worker.hand = .fetched task →
    ∃ now : ClockMs, a = .section2 now ∧ task.procMs.ms ≤ now.ms
  popped_first : ∀ a t task, s.step a = some t → s.worker.hand = .empty →
    t.worker.hand = .fetched task →
    s.taskList = task :: t.taskList ∧ ∀ u ∈ t.taskList, TimerTaskList.Before task u

theorem hand_fetched {w : Worker} {task : TimerTask} :
    w.hand = .fetched task ↔ w = .fetched task := by
  cases w <;> simp [Worker.hand]

/-- Only the second critical section takes a task into an empty hand: the head of the list,
at a reading not before its time. -/
theorem fetch_is_head {s t : Looper} {a : Act} {task : TimerTask} (ht : s.step a = some t)
    (hs : s.worker.hand = .empty) (hw : t.worker = .fetched task) :
    ∃ now : ClockMs, a = .section2 now ∧ s.taskList = task :: t.taskList ∧
      task.procMs.ms ≤ now.ms := by
  cases step_effect ht with
  | @takes now _ _ _ tasks due =>
    cases hw
    exact ⟨now, rfl, tasks, due⟩
  | start | sleeps | passes | crashes | waits | wakes | calls | skips | ends | finish => cases hw
  | testExit | testStarted =>
    simp only at hw
    split at hw <;> cases hw
  | _ =>
    have hsame : s.worker = .fetched task := hw
    rw [hsame] at hs
    cases hs

/-- Every looper keeps the guarantee, and as long as nobody clears its list the
worker never takes a task from an empty one. -/
theorem execution_guarantee {as : List Act} {s : Looper} (hr : run step create as = some s) :
    s.ExecutionGuarantee ∧ (.clear ∉ as → s.worker ≠ .crashed) := by
  have hacc := accounted hr
  refine ⟨⟨fun k hk => hacc.count_one hk, ?_, hacc.once, ?_, ?_, ?_⟩, ?_⟩
  · intro p pick id t hp hid
    simp only [post] at hp
    split at hp
    · cases hp
      exact absurd rfl hid
    · split at hp
      · cases hp
      · obtain ⟨c, _, hc⟩ := Option.map_eq_some_iff.mp hp
        cases hc
        exact ⟨rfl, rfl⟩
  · exact fun t ht => hacc.origin t (by simp [show t ∈ s.ledger.invoked from ht])
  · intro a t task ht hs hw
    obtain ⟨now, ha, _, hdue⟩ := fetch_is_head ht hs (hand_fetched.mp hw)
    exact ⟨now, ha, hdue⟩
  · intro a t task ht hs hw
    obtain ⟨_, _, hlist, _⟩ := fetch_is_head ht hs (hand_fetched.mp hw)
    have hord : s.taskList.Pairwise TimerTaskList.Before := hacc.ordered
    exact ⟨hlist, StableQueue.head_before (hlist ▸ hord)⟩
  · intro hc
    have hp : Throughout step (fun _ a => a ≠ .clear) create as :=
      throughout_of_mem (fun _ _ ha => ne_of_mem_of_not_mem ha hc) create
    exact (invariant_of_steps (fun _ _ _ h ha hv => Fed.step h ha hv) fed_create hp hr).safe

/-- A task due later and posted first, and one due at once: the second runs first. -/
def twoTasks : List Act :=
  [.start, .startStore, .startStore, .testExit,
    .post ⟨timeMs 0, DelayMs.ofInt32 10, 100, 1, 0, 0⟩ none,
    .post ⟨timeMs 1000, DelayMs.ofInt32 0, 200, 2, 7, 8⟩ none,
    .section1, .testStarted, .section2 (timeMs 5000), .testState]

theorem two_tasks_guaranteed : ∃ s, run step create twoTasks = some s ∧
    s.invoked.map TimerTask.ticket = [1] ∧ s.ExecutionGuarantee ∧ s.worker ≠ .crashed := by
  refine ⟨_, rfl, rfl, ?_⟩
  have h := @execution_guarantee twoTasks _ rfl
  exact ⟨h.1, h.2 (by simp [twoTasks])⟩

end Awe.Looper
