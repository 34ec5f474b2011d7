import Awe.Scheduler.Steps

namespace Awe.Scheduler
open Machine
open Heap (Handle)

/-- What was executed and what is still queued is what was accepted, in call order. -/
def InOrder (s : Scheduler) : Prop := s.executed ++ s.sockpair = s.accepted

instance (s : Scheduler) : Decidable s.InOrder := inferInstanceAs (Decidable (_ = _))

def readsTrigger (s : Scheduler) (a : Ptr) : Bool :=
  match s.heap.get? a with
  | some ⟨_, .io ⟨_, _, .triggerEvent, _⟩⟩ => true
  | _ => false

/-- An accepted trigger finds room in the socket pair, and the one that is read has a
procedure. -/
structure FindsRoom (s : Scheduler) (a : Act) : Prop where
  room : ∀ t, a = .call (.trigger t) → s.started → s.sockpair.length < s.capacity
  procs : ∀ w, a = .ioReady w .data → s.readsTrigger w.addr → ∀ t ∈ s.sockpair.head?, t.proc ≠ NULL

/-- A step that touches neither the queue nor the two records of triggers. -/
def Untouched (s t : Scheduler) : Prop :=
  t.executed = s.executed ∧ t.sockpair = s.sockpair ∧ t.accepted = s.accepted

theorem Untouched.inOrder_iff {s t : Scheduler} (h : s.Untouched t) : t.InOrder ↔ s.InOrder := by
  unfold InOrder
  rw [h.1, h.2.1, h.2.2]

theorem call_untouched {s t : Scheduler} {c : Call} (hk : s.Kept)
    (hsession : Act.inSession (.call c) = true) (htrigger : ∀ u, c ≠ .trigger u)
    (ht : s.call c = some t) : s.Untouched t := by
  cases call_effect hk ht with
  | opened | failed | stopped => cases hsession
  | @triggered u => exact absurd rfl (htrigger u)
  | _ => exact ⟨rfl, rfl, rfl⟩

/-- What a readable descriptor comes to: a read of the trigger queue, or a call of a
user's handler that leaves it alone. -/
theorem ioReady_cases {s t : Scheduler} {w : Handle} {recv : Recv}
    (ht : s.ioReady w recv = some t) :
    (s.readsTrigger w.addr = true ∧ s.triggerEvent recv = some t) ∨
      (s.readsTrigger w.addr = false ∧ s.Untouched t) := by
  unfold ioReady at ht
  split at ht
  · split at ht
    · rename_i hr
      exact Or.inl ⟨by simp [readsTrigger, hr], ht⟩
    · rename_i hr
      split at ht <;> cases ht
      exact Or.inr ⟨by simp [readsTrigger, hr], rfl, rfl, rfl⟩
    · cases ht
  · cases ht

/-- An accepted trigger keeps the order exactly when there is room for its datagram. -/
theorem trigger_inOrder_iff {s : Scheduler} (h : s.InOrder) (u : Trigger) :
    (s.trigger u).2.InOrder ↔ (s.started → s.sockpair.length < s.capacity) := by
  unfold InOrder at h
  unfold trigger
  split
  · rename_i hst
    exact iff_of_true h (by simp_all)
  · rename_i hst
    simp only [InOrder]
    split
    · rename_i hroom
      exact iff_of_true (by rw [← h, List.append_assoc]) (fun _ => hroom)
    · rename_i hfull
      refine iff_of_false (fun he => ?_) (fun hroom => hfull (hroom (by simpa using hst)))
      have hahead := h.symm.trans he
      simp at hahead

/-- A read keeps the order exactly when it calls the procedure it has read. -/
theorem read_inOrder_iff {s t : Scheduler} (h : s.InOrder) {recv : Recv}
    (ht : s.triggerEvent recv = some t) :
    t.InOrder ↔ (recv = .data → ∀ u ∈ s.sockpair.head?, u.proc ≠ NULL) := by
  unfold InOrder at h
  cases recv with
  | again =>
    cases ht
    exact iff_of_true h (by simp)
  | error =>
    cases ht
    refine iff_of_true ?_ (by simp)
    simp only [InOrder, disableTrigger, socktokenDestroy]
    split <;> exact h
  | data =>
    simp only [triggerEvent] at ht
    split at ht
    · cases ht
    · rename_i u rest hqueue
      rw [hqueue] at h ⊢
      split at ht
      · rename_i hnull
        cases ht
        refine iff_of_false (fun he => ?_) (by simp [hnull])
        have hlen := congrArg List.length (h.trans he.symm)
        simp at hlen
      · rename_i hproc
        cases ht
        exact iff_of_true (by simp [InOrder, ← h]) (by simp [hproc])

theorem inOrder_iff {s t : Scheduler} {a : Act} (hk : s.Kept) (h : s.InOrder)
    (ht : s.session a = some t) : t.InOrder ↔ s.FindsRoom a := by
  have hstep := session_step ht
  have hquiet : s.Untouched t → (∀ u, a ≠ .call (.trigger u)) →
      (∀ w, a = .ioReady w .data → s.readsTrigger w.addr = false) →
      (t.InOrder ↔ s.FindsRoom a) := by
    intro hu htrigger hread
    refine iff_of_true (hu.inOrder_iff.mpr h) ⟨fun u he => absurd he (htrigger u), ?_⟩
    intro w he hr
    rw [hread w he] at hr
    cases hr
  cases a with
  | ret =>
    refine hquiet ?_ (by simp) (by simp)
    rcases ret_cases hstep with ⟨rfl, _⟩ | ⟨w, _, _, _, _, _, rfl⟩
    · exact ⟨rfl, rfl, rfl⟩
    · simp only [Untouched, evtimerDel]
      split <;> exact ⟨rfl, rfl, rfl⟩
  | fire w =>
    obtain ⟨_, _, _, rfl⟩ := fire_cases hstep
    exact hquiet ⟨rfl, rfl, rfl⟩ (by simp) (by simp)
  | ioReady w recv =>
    rcases ioReady_cases hstep with ⟨hread, hevent⟩ | ⟨hread, hu⟩
    · rw [read_inOrder_iff h hevent]
      constructor
      · intro hproc
        refine ⟨by simp, ?_⟩
        rintro v he _
        cases he
        exact hproc rfl
      · rintro ⟨_, hprocs⟩ rfl
        exact hprocs w rfl hread
    · apply hquiet hu (by simp)
      intro v he
      cases he
      exact hread
  | call c =>
    by_cases htrigger : ∃ u, c = .trigger u
    · obtain ⟨u, rfl⟩ := htrigger
      cases hstep
      rw [trigger_inOrder_iff h]
      constructor
      · intro hroom
        refine ⟨?_, by simp⟩
        rintro v he
        cases he
        exact hroom
      · exact fun hf => hf.room u rfl
    · refine hquiet (call_untouched hk (inSession_of_session ht) (fun u he => htrigger ⟨u, he⟩)
        hstep) ?_ (by simp)
      intro u he
      cases he
      exact htrigger ⟨u, rfl⟩

theorem inOrder_start {s₀ s : Scheduler} {thread threadOk : Bool} {a : Ptr} {fd : Int}
    (hk : s₀.Kept) (hoff : s₀.started = false)
    (hs : s₀.step (.call (.start thread threadOk a fd)) = some s) : s.InOrder := by
  obtain ⟨⟨status, u⟩, hu, rfl⟩ := Option.map_eq_some_iff.mp hs
  rcases start_cases hu with ⟨hon, _⟩ | ⟨_, heap, hheap, ⟨_, rfl⟩ | ⟨_, rfl⟩⟩
  · simp [hoff] at hon
  · rfl
  · rcases stop_cases (hk.opened hheap) with ⟨_, he⟩ | ⟨_, _, _, _, he⟩ <;> rw [he] <;> rfl

/-- In a session no trigger is lost, doubled or overtaken exactly as long as each one
accepted finds room in the socket pair and each one read has a procedure. -/
theorem no_lost_trigger_iff (capacity : Nat) (before : List Act) (s₀ s : Scheduler)
    (thread threadOk : Bool) (a : Ptr) (fd : Int)
    (hbefore : run step (create capacity) before = some s₀) (hoff : s₀.started = false)
    (hs : s₀.step (.call (.start thread threadOk a fd)) = some s) (as : List Act) :
    Always session InOrder s as ↔ Throughout session FindsRoom s as := by
  have hk₀ : s₀.Kept := kept_of_run hbefore
  exact always_iff_throughout (fun _ _ _ hk _ _ ht => Kept.session hk ht)
    (fun _ _ _ hk h ht => inOrder_iff hk h ht) (hk₀.step hs) (inOrder_start hk₀ hoff hs) as

/-- Two triggers, the second after the loop has read the first. -/
def unhurried : List Act :=
  [.call (.trigger ⟨7, 1, 0⟩), .ioReady ⟨100, 0⟩ .data, .ret, .call (.trigger ⟨7, 2, 0⟩)]

theorem unhurried_in_order : ∃ s, (create 1).step (.call (.start false true 100 3)) = some s ∧
    (Always session InOrder s unhurried ↔ Throughout session FindsRoom s unhurried) :=
  ⟨_, rfl, no_lost_trigger_iff 1 [] (create 1) _ false true 100 3 rfl rfl rfl unhurried⟩

def burst : List Act := [.call (.trigger ⟨7, 1, 0⟩), .call (.trigger ⟨7, 2, 0⟩)]

/-- Both calls return `AWE_OK`, and only the first will ever be executed. -/
theorem burst_loses_trigger : ∃ s t,
    (create 1).step (.call (.start false true 100 3)) = some s ∧ run session s burst = some t ∧
    t.accepted = [⟨7, 1, 0⟩, ⟨7, 2, 0⟩] ∧ t.executed ++ t.sockpair = [⟨7, 1, 0⟩] ∧ ¬ t.InOrder :=
  ⟨_, _, rfl, rfl, rfl, rfl, by decide⟩

end Awe.Scheduler
