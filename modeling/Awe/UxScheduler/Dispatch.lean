import Awe.UxScheduler.Registrations

namespace Awe.UxScheduler
open Machine
open EventMem (Op)

/-- What the round may still call handlers for. -/
def pending (s : UxScheduler) : List Ready :=
  match s.worker with
  | .select _ rset wset _ => readyIn rset AWE_READ ++ readyIn wset AWE_WRITE
  | .dispatch todo => todo
  | .found _ ready todo => ready :: todo
  | .handling _ todo => todo
  | _ => []

/-- Between the sets of a round and the last of its handlers. -/
def Worker.inRound : Worker → Bool
  | .select .. | .dispatch _ | .found .. | .handling .. => true
  | _ => false

/-- A call on the registrations that no handler of the round makes. -/
def Act.ofOthers (s : UxScheduler) : Act → Bool
  | .add c .. | .rm c _ => c ≠ .worker
  | .disable .. | .enable .. => !s.worker.inCallback
  | .clear => true
  | _ => false

/-- The scheduler, where nobody but the handlers touches the registrations in a round. -/
def roundStep (s : UxScheduler) (a : Act) : Option UxScheduler :=
  if s.worker.inRound ∧ a.ofOthers s then none else s.step a

/-- The call the worker is about to make goes to what is registered for the descriptor. -/
def CallsRegistered (s : UxScheduler) : Prop :=
  ∀ addr ready todo, s.worker = .found addr ready todo →
    ∃ uxe, s.uxeventList.find? (fun e => e.addr = addr) = some uxe ∧
      find s.uxeventList ready.ufd = some uxe

/-- And it is for something the descriptor is registered for. -/
def Respects (s : UxScheduler) : Prop :=
  ∀ addr ready todo, s.worker = .found addr ready todo →
    ∃ uxe, s.uxeventList.find? (fun e => e.addr = addr) = some uxe ∧
      find s.uxeventList ready.ufd = some uxe ∧ Within ready.mask uxe.conditionSet

/-- A call that takes nothing away from `r`'s descriptor that `r` waits for, short of the
registration itself. -/
def LeavesInterest (list : List UxEvent) (r : Ready) : Op → Prop
  | .add _ ufd conditionSet _ _ => r.ufd = ufd → conditionSet ≠ 0 → Within r.mask conditionSet
  | .disable ufd events => r.ufd = ufd → find list ufd ≠ none → r.mask &&& events = 0
  | _ => True

/-- No call takes away what a ready descriptor is still to be called for. -/
def KeepsInterest (s : UxScheduler) (a : Act) : Prop :=
  ∀ op, a.op = some op → ∀ r ∈ s.pending, LeavesInterest s.uxeventList r op

/-- What the ready descriptors wait for they are registered for, if they still are. -/
def Interested (s : UxScheduler) : Prop :=
  ∀ r ∈ s.pending, ∀ g, registrations s.uxeventList r.ufd = some g → Within r.mask g.conditionSet

section Interest

variable {s t : UxScheduler}

theorem mem_readyIn {set : List Int} {mask : BitVec 32} {r : Ready} :
    r ∈ readyIn set mask ↔ r.ufd ∈ set ∧ r.ufd ≠ 0 ∧ r.mask = mask := by
  unfold readyIn
  rw [List.mem_map]
  constructor
  · intro hr
    obtain ⟨ufd, hufd, rfl⟩ := hr
    have hufd := List.mem_filter.mp hufd
    exact ⟨hufd.1, by simpa using hufd.2, rfl⟩
  · intro hr
    obtain ⟨hmem, hne, rfl⟩ := hr
    exact ⟨r.ufd, List.mem_filter.mpr ⟨hmem, by simpa using hne⟩, rfl⟩

/-- The set built for a bit holds descriptors registered for it. -/
theorem within_ufdSet {list : List UxEvent} (h : Keyed list) {i : Nat} {ufd : Int}
    (hufd : ufd ∈ ufdSet list (BitVec.twoPow 32 i)) {g : Registration}
    (hg : registrations list ufd = some g) : Within (BitVec.twoPow 32 i) g.conditionSet := by
  obtain ⟨e, he, rfl⟩ := List.mem_map.mp hufd
  obtain ⟨hmem, hbit⟩ := List.mem_filter.mp he
  obtain ⟨uxe, hfind, rfl⟩ := Option.map_eq_some_iff.mp hg
  obtain ⟨huxe, front, rear, hlist, _, _⟩ := find_split hfind
  have hsame : uxe = e := List.inj_on_of_nodup_map h.ufds (by simp [hlist]) hmem huxe
  subst hsame
  have hbit : uxe.conditionSet &&& BitVec.twoPow 32 i ≠ 0 := by simpa using hbit
  exact within_of_bit i hbit

/-- Calls that leave the interest of `r` leave it registered for its mask. -/
theorem LeavesInterest.within {list : List UxEvent} {r : Ready} {op : Op}
    (h : LeavesInterest list r op)
    (hr : ∀ g, registrations list r.ufd = some g → Within r.mask g.conditionSet)
    {g : Registration} (hg : (registrations list).step op r.ufd = some g) :
    Within r.mask g.conditionSet := by
  cases op with
  | add a ufd conditionSet proc userdata =>
    simp only [Registrations.step] at hg
    by_cases hzero : ufd = 0
    · rw [if_pos hzero] at hg
      exact hr g hg
    · rw [if_neg hzero] at hg
      by_cases hu : r.ufd = ufd
      · rw [hu, Function.update_self] at hg
        by_cases hset : conditionSet = 0
        · rw [if_pos hset] at hg
          cases hg
        · rw [if_neg hset] at hg
          cases hg
          exact h hu hset
      · rw [Function.update_of_ne hu] at hg
        exact hr g hg
  | rm ufd =>
    simp only [Registrations.step] at hg
    by_cases hu : r.ufd = ufd
    · rw [hu, Function.update_self] at hg
      cases hg
    · rw [Function.update_of_ne hu] at hg
      exact hr g hg
  | disable ufd events =>
    simp only [Registrations.step, Registrations.setConditions] at hg
    by_cases hu : r.ufd = ufd
    · rw [hu, Function.update_self] at hg
      obtain ⟨g, hold, rfl⟩ := Option.map_eq_some_iff.mp hg
      refine (hr g (hu ▸ hold)).disable (h hu ?_)
      intro hnone
      simp [registrations, hnone] at hold
    · rw [Function.update_of_ne hu] at hg
      exact hr g hg
  | enable ufd events =>
    simp only [Registrations.step, Registrations.setConditions] at hg
    by_cases hu : r.ufd = ufd
    · rw [hu, Function.update_self] at hg
      obtain ⟨g, hold, rfl⟩ := Option.map_eq_some_iff.mp hg
      exact (hr g (hu ▸ hold)).enable events
    · rw [Function.update_of_ne hu] at hg
      exact hr g hg

theorem prepare_pending {now : ClockMs} (ht : s.prepare now = some t) :
    t.pending = readyIn (ufdSet s.uxeventList AWE_READ) AWE_READ ++
      readyIn (ufdSet s.uxeventList AWE_WRITE) AWE_WRITE := by
  simp only [prepare] at ht
  split at ht
  · cases ht
    rfl
  · cases ht

/-- What `ux_select` leaves in the sets was there before. -/
theorem select_pending {selectResult : Int} {rset wset : List Int}
    (ht : s.select selectResult rset wset = some t) : ∀ r ∈ t.pending, r ∈ s.pending := by
  simp only [select] at ht
  split at ht
  · rename_i ufdSize rs ws ptv hw
    have hpending : s.pending = readyIn rs AWE_READ ++ readyIn ws AWE_WRITE := by
      simp [pending, hw]
    split at ht
    · cases ht
      simp [pending]
    · split at ht
      · cases ht
      · rename_i hsub
        push Not at hsub
        split at ht
        · cases ht
          intro r hr
          rw [hpending]
          simp only [pending, List.mem_append, mem_readyIn] at hr ⊢
          rcases hr with ⟨hmem, hr⟩ | ⟨hmem, hr⟩
          · exact Or.inl ⟨hsub.1.1 hmem, hr⟩
          · exact Or.inr ⟨hsub.1.2 hmem, hr⟩
        · cases ht
          simp [pending]
  · cases ht

theorem dispatch_pending (ht : s.dispatch = some t) : ∀ r ∈ t.pending, r ∈ s.pending := by
  simp only [dispatch] at ht
  split at ht
  · cases ht
    simp [pending]
  · rename_i ready todo hw
    have hpending : s.pending = ready :: todo := by simp [pending, hw]
    rw [hpending]
    split at ht
    · cases ht
      exact fun r hr => List.mem_cons_of_mem _ hr
    · cases ht
      exact fun r hr => hr
  · cases ht

theorem handle_pending (ht : s.handle = some t) : ∀ r ∈ t.pending, r ∈ s.pending := by
  simp only [UxScheduler.handle] at ht
  split at ht
  · rename_i addr ready todo hw
    have hpending : s.pending = ready :: todo := by simp [pending, hw]
    rw [hpending]
    split at ht
    · cases ht
      simp [pending]
    · split at ht
      · cases ht
      · cases ht
        exact fun r hr => List.mem_cons_of_mem _ hr
  · cases ht

theorem handlerReturn_pending (ht : s.handlerReturn = some t) :
    ∀ r ∈ t.pending, r ∈ s.pending := by
  simp only [handlerReturn] at ht
  split at ht
  · rename_i ready todo hw
    have hpending : s.pending = todo := by simp [pending, hw]
    rw [hpending]
    obtain ⟨_, ht⟩ := Option.ite_none_right_eq_some.mp ht
    cases ht
    exact fun r hr => hr
  · cases ht

/-- The worker's steps write to no event, and what they have still to call for they had
before, unless they begin a round. -/
theorem worker_pending {a : Act} (hworker : a.ofWorker = true) (ht : s.step a = some t) :
    t.uxeventList = s.uxeventList ∧ ((∀ r ∈ t.pending, r ∈ s.pending) ∨
      t.pending = readyIn (ufdSet s.uxeventList AWE_READ) AWE_READ ++
        readyIn (ufdSet s.uxeventList AWE_WRITE) AWE_WRITE) := by
  have hact := step_act ht
  have hlist : t.uxeventList = s.uxeventList := by
    have hclear : a ≠ .clear := fun he => by cases he; cases hworker
    rw [step_list ht hclear]
    cases a <;> first | rfl | cases hworker
  refine ⟨hlist, ?_⟩
  cases a with
  | prepare now => exact Or.inr (prepare_pending hact)
  | select selectResult rset wset => exact Or.inl (select_pending hact)
  | dispatch => exact Or.inl (dispatch_pending hact)
  | handle => exact Or.inl (handle_pending hact)
  | handlerReturn => exact Or.inl (handlerReturn_pending hact)
  | testExit | guard | testStarted | endRound | testTask | procReturn | finish =>
    left
    simp only [act, testExit, UxScheduler.guard, testStarted, endRound, testTask, procReturn,
      finish] at hact
    repeat' first | split at hact | cases hact
    all_goals simp [pending]
  | _ => cases hworker

/-- The sets of a new round hold what is registered. -/
theorem interested_prepare (h : Keyed s.uxeventList) (hlist : t.uxeventList = s.uxeventList)
    (hpending : t.pending = readyIn (ufdSet s.uxeventList AWE_READ) AWE_READ ++
      readyIn (ufdSet s.uxeventList AWE_WRITE) AWE_WRITE) : t.Interested := by
  intro r hr g hg
  rw [hpending, List.mem_append, mem_readyIn, mem_readyIn] at hr
  rw [hlist] at hg
  rcases hr with ⟨hmem, _, hmask⟩ | ⟨hmem, _, hmask⟩
  · rw [hmask, AWE_READ_eq]
    exact within_ufdSet h (AWE_READ_eq ▸ hmem) hg
  · rw [hmask, AWE_WRITE_eq]
    exact within_ufdSet h (AWE_WRITE_eq ▸ hmem) hg

/-- The events have distinct places and distinct descriptors, and the one the worker has
found is still there. -/
structure Orderly (s : UxScheduler) : Prop where
  listed : s.Listed
  keyed : Keyed s.uxeventList

theorem orderly_create : create.Orderly := ⟨⟨by simp [create, UxRegistry.keys],
  by simp [create, UxRegistry.keys], by simp [create]⟩, ⟨by simp [create], by simp [create]⟩⟩

theorem roundStep_some {a : Act} (ht : s.roundStep a = some t) :
    s.step a = some t ∧ ¬ (s.worker.inRound ∧ a.ofOthers s) := by
  unfold roundStep at ht
  obtain ⟨_, ht⟩ := Option.ite_none_left_eq_some.mp ht
  exact ⟨ht, by assumption⟩

theorem Orderly.step (h : s.Orderly) {a : Act} (ht : s.roundStep a = some t) : t.Orderly := by
  obtain ⟨ht, hquiet⟩ := roundStep_some ht
  by_cases hclear : a = .clear
  · subst hclear
    cases step_act ht
    have hidle : ¬ s.worker.inRound := fun hin => hquiet ⟨hin, rfl⟩
    refine ⟨⟨by simp [clear, UxRegistry.keys], by simp [clear, UxRegistry.keys], ?_⟩,
      ⟨by simp [clear], by simp [clear]⟩⟩
    intro addr ready todo hw
    have hw : s.worker = .found addr ready todo := hw
    simp [hw, Worker.inRound] at hidle
  · constructor
    · refine h.listed.step ht hclear (fun c ufd hremoval hc hfinds => hquiet ?_)
      obtain ⟨addr, ready, todo, hw, _⟩ := hfinds
      refine ⟨by rw [hw]; rfl, ?_⟩
      cases a with
      | rm d u =>
        cases hremoval
        simpa [Act.ofOthers] using hc
      | add d x u conditionSet proc userdata pick =>
        simp only [Act.removal] at hremoval
        obtain ⟨_, hremoval⟩ := Option.ite_none_right_eq_some.mp hremoval
        cases hremoval
        simpa [Act.ofOthers] using hc
      | _ => cases hremoval
    · rw [step_list ht hclear]
      cases a.op with
      | none => exact h.keyed
      | some op => exact (h.keyed.step op).1

/-- A step that keeps the interest of what is pending. -/
theorem Interested.step (h : s.Interested) (hs : s.Orderly) {a : Act}
    (hkeep : s.KeepsInterest a) (ht : s.roundStep a = some t) : t.Interested := by
  obtain ⟨ht, _⟩ := roundStep_some ht
  cases hworker : a.ofWorker with
  | true =>
    obtain ⟨hlist, hsub | hpending⟩ := worker_pending hworker ht
    · intro r hr g hg
      exact h r (hsub r hr) g (hlist ▸ hg)
    · exact interested_prepare hs.keyed hlist hpending
  | false =>
    by_cases hstart : ∃ delayMs, a = .start delayMs
    · obtain ⟨delayMs, rfl⟩ := hstart
      have hact := step_act ht
      simp only [act, start] at hact
      repeat' first | split at hact | cases hact
      all_goals first
        | exact h
        | exact fun r hr => absurd hr (by simp [pending])
    · push Not at hstart
      obtain ⟨hw, _⟩ := call_worker hworker hstart ht
      have hpending : t.pending = s.pending := by
        unfold pending
        rw [hw]
      intro r hr g hg
      rw [hpending] at hr
      by_cases hclear : a = .clear
      · subst hclear
        cases step_act ht
        cases hg
      · rw [step_list ht hclear] at hg
        cases hop : a.op with
        | none =>
          rw [hop] at hg
          exact h r hr g hg
        | some op =>
          rw [hop, Option.elim_some, (hs.keyed.step op).2] at hg
          exact (hkeep op hop r hr).within (h r hr) hg

theorem Orderly.callsRegistered (h : s.Orderly) : s.CallsRegistered := by
  intro addr ready todo hw
  obtain ⟨uxe, huxe, hkey⟩ := List.mem_map.mp (h.listed.found addr ready todo hw)
  obtain ⟨rfl, hufd⟩ := Prod.mk.inj hkey
  rw [← hufd]
  have haddrs : (s.uxeventList.map UxEvent.addr).Nodup := by
    have := h.listed.addrs
    rwa [UxRegistry.keys, List.map_map] at this
  refine ⟨uxe, ?_, ?_⟩
  · cases hfind : s.uxeventList.find? (fun e => e.addr = uxe.addr) with
    | none => simpa using List.find?_eq_none.mp hfind uxe huxe
    | some e =>
      have he : e.addr = uxe.addr := by simpa using List.find?_some hfind
      rw [List.inj_on_of_nodup_map haddrs (List.mem_of_find?_eq_some hfind) huxe he]
  · cases hfind : find s.uxeventList uxe.ufd with
    | none => exact absurd rfl (find_none hfind uxe huxe)
    | some e =>
      have he : e.ufd = uxe.ufd := by simpa using List.find?_some hfind
      rw [List.inj_on_of_nodup_map h.keyed.ufds (List.mem_of_find?_eq_some hfind) huxe he]

theorem Interested.respects (h : s.Interested) (hs : s.Orderly) : s.Respects := by
  intro addr ready todo hw
  obtain ⟨uxe, haddr, hfind⟩ := hs.callsRegistered addr ready todo hw
  refine ⟨uxe, haddr, hfind, ?_⟩
  apply h ready (by simp [pending, hw]) uxe.registration
  simp [registrations, hfind]

end Interest

/-- Where only the handlers of a round touch the registrations, each call of the round
goes to what is registered for its descriptor; and as long as no handler takes away what a
ready descriptor is still to be called for, it is for something it is registered for. -/
theorem dispatch_respects_interest (as : List Act) :
    Always roundStep CallsRegistered create as ∧
      (Throughout roundStep KeepsInterest create as → Always roundStep Respects create as) := by
  have hinterested : create.Interested := by simp [Interested, pending, create]
  constructor
  · have hall : Throughout roundStep (fun _ _ => True) create as :=
      throughout_of_mem (fun _ _ _ => trivial) create
    have hkeep : ∀ s a m, Orderly s → CallsRegistered s → True → roundStep s a = some m →
        Orderly m ∧ CallsRegistered m :=
      fun s a m hs _ _ hm => ⟨hs.step hm, (hs.step hm).callsRegistered⟩
    exact always_of_throughout hkeep orderly_create orderly_create.callsRegistered hall
  · have hkeep : ∀ s a m, s.Orderly ∧ s.Interested → Respects s → KeepsInterest s a →
        roundStep s a = some m → (m.Orderly ∧ m.Interested) ∧ Respects m := by
      intro s a m hs _ hkeep hm
      have hm' := hs.1.step hm
      have hi' := hs.2.step hs.1 hkeep hm
      exact ⟨⟨hm', hi'⟩, hi'.respects hm'⟩
    exact always_of_throughout hkeep ⟨orderly_create, hinterested⟩
      (hinterested.respects orderly_create)

/-- A descriptor ready for reading and writing whose read handler makes `call`. -/
def roundOf (call : Act) : List Act :=
  [.start (DelayMs.ofInt32 1000), .startStore, .startStore, .add (.thread 0) 100 5 3 7 1 none,
    .testExit, .guard, .testStarted, .prepare (timeMs 0), .select 1 [5] [5], .dispatch, .handle,
    call, .handlerReturn, .dispatch]

theorem enable_respected : Always roundStep Respects create (roundOf (.enable 5 AWE_WRITE)) := by
  apply (dispatch_respects_interest _).2
  have hcall : ∀ (s : UxScheduler) (a : Act), a.op = none ∨ s.pending = [] → s.KeepsInterest a := by
    intro s a h op hop r hr
    rcases h with hnone | hpending
    · rw [hnone] at hop
      cases hop
    · rw [hpending] at hr
      cases hr
  have henable : ∀ s : UxScheduler, s.KeepsInterest (.enable 5 AWE_WRITE) := by
    intro s op hop r _
    cases hop
    trivial
  repeat' first
    | exact .cons rfl (hcall _ _ (Or.inl rfl)) trivial
    | refine .cons rfl (hcall _ _ (Or.inl rfl)) ?_
    | refine .cons rfl (hcall _ _ (Or.inr rfl)) ?_
    | refine .cons rfl (henable _) ?_

/-- The write handler is called all the same. -/
theorem disabled_write_called : ∃ s,
    run roundStep create (roundOf (.disable 5 AWE_WRITE)) = some s ∧ ¬ s.Respects := by
  refine ⟨_, rfl, fun h => ?_⟩
  obtain ⟨uxe, _, hfind, hwithin⟩ := h 100 ⟨5, AWE_WRITE⟩ [] rfl
  cases hfind
  exact absurd hwithin (by decide)

end Awe.UxScheduler
