import Awe.Scheduler.Trampoline

namespace Awe
open Machine
open Heap (Handle)

namespace Scheduler

/-- The block is gone, and one that now lies where it lay was born later. -/
def Outlived (s : Scheduler) (p : Handle) : Prop :=
  p.birth < s.heap.next ∧ ∀ q, s.heap.Live q → q.addr = p.addr → p.birth < q.birth

theorem Ages.outlived {s t : Scheduler} {p : Handle} (h : s.Ages t) (hp : s.Outlived p) :
    t.Outlived p := by
  refine ⟨Nat.lt_of_lt_of_le hp.1 h.1, fun q hq haddr => ?_⟩
  by_cases hold : q.birth < s.heap.next
  · exact hp.2 q (h.2 q hold hq) haddr
  · exact Nat.lt_of_lt_of_le hp.1 (Nat.le_of_not_lt hold)

theorem step_ages {s t : Scheduler} {a : Act} (hk : s.Kept) (ht : s.step a = some t) :
    s.Ages t := by
  cases a with
  | call c => exact call_ages hk ht
  | fire w =>
    obtain ⟨_, _, _, rfl⟩ := fire_cases ht
    exact .refl s
  | ioReady w recv =>
    rcases ioReady_effect ht with rfl | ⟨_, _, _, _, rfl⟩
    · have hdrop : s.call (.socktokenDestroy s.triggertoken) =
          some (s.socktokenDestroy s.triggertoken) := rfl
      have hages : s.Ages (s.socktokenDestroy s.triggertoken) := call_ages hk hdrop
      exact hages
    · exact .refl s
  | ret =>
    rcases ret_cases ht with ⟨rfl, _⟩ | ⟨w, refs, u, _, hr, _, rfl⟩
    · exact .refl s
    · unfold evtimerDel
      split
      · exact .of_free (autorelease_eq_free hr (hk.refs _ _ hr))
      · exact .refl s

end Scheduler

/-- A scheduler; the one-shot tasks that have fired and that it has then freed itself; and,
if the last call was made with the token of one of these, what it answered and the
scheduler before it. -/
structure TaskTokens where
  sched : Scheduler
  spent : List Handle
  stale : Option (Option Status × Scheduler)

namespace TaskTokens
open Scheduler (Outlived)

def begin (capacity : Nat) : TaskTokens := ⟨Scheduler.create capacity, [], none⟩

/-- Anything at the scheduler, or a call with the token that a spent task had. -/
inductive Act where
  | sched (a : Scheduler.Act)
  | taskAgain (p : Handle) (ms arg : Int)
  | tasktokenDestroy (p : Handle)

def spends (s t : Scheduler) : Scheduler.Act → List Handle
  | .ret =>
    match s.callback with
    | .timer w => if s.heap.Live w ∧ ¬ t.heap.Live w then [w] else []
    | _ => []
  | _ => []

def step (x : TaskTokens) : Act → Option TaskTokens
  | .sched a => (x.sched.step a).map (fun t => ⟨t, spends x.sched t a ++ x.spent, none⟩)
  | .taskAgain p ms arg =>
    if p ∈ x.spent then
      let (status, t) := x.sched.taskAgain p.addr ms arg
      some ⟨t, x.spent, some (some status, x.sched)⟩
    else none
  | .tasktokenDestroy p =>
    if p ∈ x.spent then
      some ⟨x.sched.tasktokenDestroy p.addr, x.spent, some (none, x.sched)⟩
    else none

/-- A call with the token of a spent task has failed, if it answers, and done nothing. -/
def Rejected (x : TaskTokens) : Prop :=
  ∀ answer before, x.stale = some (answer, before) →
    (∀ status ∈ answer, status = -1) ∧ x.sched = before

/-- No task that was created later is registered at the address of `p`. -/
def NotReused (x : TaskTokens) (p : Handle) : Prop :=
  ∀ q ∈ x.sched.heap.handle? p.addr, p.birth < q.birth → p.addr ∉ x.sched.evtimerList

def Distinguishes (x : TaskTokens) : Act → Prop
  | .sched _ => True
  | .taskAgain p _ _ | .tasktokenDestroy p => x.NotReused p

instance (x : TaskTokens) (p : Handle) : Decidable (x.NotReused p) :=
  inferInstanceAs (Decidable (∀ q ∈ _, _ → _))

instance (x : TaskTokens) : ∀ a, Decidable (x.Distinguishes a)
  | .sched _ => isTrue trivial
  | .taskAgain p _ _ | .tasktokenDestroy p => inferInstanceAs (Decidable (x.NotReused p))

structure Spent (x : TaskTokens) : Prop where
  kept : x.sched.Kept
  outlived : ∀ p ∈ x.spent, x.sched.Outlived p

section Steps

variable {x y : TaskTokens}

theorem outlived_of_spends {s t : Scheduler} {a : Scheduler.Act} {p : Handle} (h : s.Ages t)
    (hp : p ∈ spends s t a) : t.Outlived p := by
  unfold spends at hp
  split at hp
  · split at hp
    · split at hp
      · rename_i w _ hw
        cases List.mem_singleton.mp hp
        refine ⟨Nat.lt_of_lt_of_le hw.1.birth_lt h.1, fun q hq haddr => ?_⟩
        by_contra hold
        have hborn : q.birth < s.heap.next := by
          have := hw.1.birth_lt
          omega
        exact hw.2 ((h.2 q hborn hq).eq_of_addr hw.1 haddr ▸ hq)
      · cases hp
    · cases hp
  · cases hp

theorem Spent.step (h : Spent x) {a : Act} (hy : x.step a = some y) : Spent y := by
  cases a with
  | sched a =>
    obtain ⟨t, ht, rfl⟩ := Option.map_eq_some_iff.mp hy
    have hages := Scheduler.step_ages h.kept ht
    refine ⟨h.kept.step ht, fun p hp => ?_⟩
    rcases List.mem_append.mp hp with hp | hp
    · exact outlived_of_spends hages hp
    · exact hages.outlived (h.outlived p hp)
  | taskAgain p ms arg =>
    simp only [TaskTokens.step] at hy
    obtain ⟨_, hy⟩ := Option.ite_none_right_eq_some.mp hy
    cases hy
    have hcall : x.sched.call (.taskAgain p.addr ms arg) =
        some (x.sched.taskAgain p.addr ms arg).2 := rfl
    have hages := Scheduler.call_ages h.kept hcall
    exact ⟨h.kept.call hcall, fun q hq => hages.outlived (h.outlived q hq)⟩
  | tasktokenDestroy p =>
    simp only [TaskTokens.step] at hy
    obtain ⟨_, hy⟩ := Option.ite_none_right_eq_some.mp hy
    cases hy
    have hcall : x.sched.call (.tasktokenDestroy p.addr) =
        some (x.sched.tasktokenDestroy p.addr) := rfl
    have hages := Scheduler.call_ages h.kept hcall
    exact ⟨h.kept.call hcall, fun q hq => hages.outlived (h.outlived q hq)⟩

/-- Whatever is registered at the address of a spent task was created later. -/
theorem Spent.notReused_iff (h : Spent x) {p : Handle} (hp : p ∈ x.spent) :
    x.NotReused p ↔ p.addr ∉ x.sched.evtimerList := by
  constructor
  · intro hfree hin
    obtain ⟨q, hq⟩ := h.kept.handle_timer hin
    have hlater := (h.outlived p hp).2 q (Heap.live_of_handle? hq) (Heap.handle?_addr hq)
    exact hfree q hq hlater hin
  · exact fun hout _ _ _ => hout

/-- A call with a stale token comes to nothing exactly if its search finds nothing. -/
theorem Spent.rejected_iff (h : Spent x) {a : Act} (hy : x.step a = some y) :
    Rejected y ↔ x.Distinguishes a := by
  cases a with
  | sched a =>
    obtain ⟨t, _, rfl⟩ := Option.map_eq_some_iff.mp hy
    exact iff_of_true nofun trivial
  | taskAgain p ms arg =>
    simp only [TaskTokens.step] at hy
    obtain ⟨hp, hy⟩ := Option.ite_none_right_eq_some.mp hy
    cases hy
    refine Iff.trans ?_ (h.notReused_iff hp).symm
    constructor
    · intro hrejected hin
      have hstarted : x.sched.started = true := by
        by_contra hoff
        rw [(h.kept.stopped (by simpa using hoff)).2] at hin
        cases hin
      have hstatus := (hrejected _ _ rfl).1 _ rfl
      rw [Scheduler.taskAgain, if_neg (by simp [hstarted]), if_pos hin] at hstatus
      cases hstatus
    · rintro hout answer before hstale
      cases hstale
      have hsame : x.sched.taskAgain p.addr ms arg = (-1, x.sched) := by
        unfold Scheduler.taskAgain
        rw [if_neg hout, ite_self]
      rw [hsame]
      exact ⟨by simp, rfl⟩
  | tasktokenDestroy p =>
    simp only [TaskTokens.step] at hy
    obtain ⟨hp, hy⟩ := Option.ite_none_right_eq_some.mp hy
    cases hy
    refine Iff.trans ?_ (h.notReused_iff hp).symm
    constructor
    · intro hrejected hin
      have hsame : x.sched.tasktokenDestroy p.addr = x.sched := (hrejected _ _ rfl).2
      have hlist := congrArg Scheduler.evtimerList hsame
      rw [Scheduler.tasktokenDestroy, if_pos hin] at hlist
      exact (h.kept.timer.nodup.mem_erase_iff.mp (hlist ▸ hin)).1 rfl
    · rintro hout answer before hstale
      cases hstale
      exact ⟨by simp, if_neg hout⟩

end Steps

/-- The token of a task that has fired and been freed is rejected in every run exactly if
it is used while no later task is registered at the same address. -/
theorem spent_tokens_rejected_iff (capacity : Nat) (as : List Act) :
    Always step Rejected (begin capacity) as ↔
      Throughout step Distinguishes (begin capacity) as := by
  have hspent : Spent (begin capacity) := ⟨Scheduler.kept_create capacity, nofun⟩
  have hkeep : ∀ x a y, Spent x → Rejected x → Distinguishes x a → step x a = some y → Spent y :=
    fun _ _ _ h _ _ hy => h.step hy
  have hexact : ∀ x a y, Spent x → Rejected x → step x a = some y →
      (Rejected y ↔ Distinguishes x a) := fun _ _ _ h _ hy => h.rejected_iff hy
  exact always_iff_throughout hkeep hexact hspent nofun as

def spending : List Act :=
  [.sched (.call (.start false true 50 3)), .sched (.call (.delayedtask 200 5000 7 9 0)),
    .sched (.fire ⟨200, 1⟩), .sched .ret]

/-- The old token is used while its address is free, and while a watch has it. -/
theorem free_address_rejected : Always step Rejected (begin 1)
    (spending ++ [.taskAgain ⟨200, 1⟩ 10 1, .sched (.call (.delayedtask 300 5000 7 9 0)),
      .tasktokenDestroy ⟨200, 1⟩, .sched (.call (.watch 200 4 AWE_READ 8 9)),
      .taskAgain ⟨200, 1⟩ 10 1, .sched (.call .stop), .tasktokenDestroy ⟨200, 1⟩]) := by
  apply (spent_tokens_rejected_iff 1 _).mpr
  decide

/-- The next task gets the address: the old token arms it again, and destroys it. -/
theorem reused_address_strays : ∃ x y z,
    run step (begin 1) (spending ++ [.sched (.call (.delayedtask 200 5000 7 9 0))]) = some x ∧
    x.spent = [⟨200, 1⟩] ∧ x.sched.heap.Live ⟨200, 2⟩ ∧
    x.step (.taskAgain ⟨200, 1⟩ 10 1) = some y ∧ ¬ Rejected y ∧
    x.step (.tasktokenDestroy ⟨200, 1⟩) = some z ∧ ¬ Rejected z ∧ ¬ z.sched.heap.Live ⟨200, 2⟩ := by
  refine ⟨_, _, _, rfl, rfl, by decide, rfl, fun h => ?_, rfl, fun h => ?_, by decide⟩
  · exact absurd ((h _ _ rfl).1 _ rfl) (by decide)
  · have hlist := congrArg Scheduler.evtimerList (h _ _ rfl).2
    exact absurd hlist (by decide)

end TaskTokens

end Awe
