import Awe.UxScheduler.Events
import Awe.UxScheduler.WakeUp

namespace Awe

/-- A scheduler whose registrations are numbered as they are made. `birth` is the
registration that the record at an address is of, `lookup` that of the record the worker
has found last. `rms` are the calls of `awe_uxscheduler_rm` that wait: the descriptor, and
the number of registrations made before the call. The registrations of a descriptor below
`barred` are those that a removal which has returned is to have ended. -/
structure UxRegistry where
  sched : UxScheduler
  next : Nat
  birth : Ptr → Nat
  lookup : Nat
  rms : UxScheduler.Caller → Int × Nat
  barred : Int → Nat
  dangling : Bool

namespace UxScheduler

/-- The waiter that an action wakes alone, by its signal or its deadline. -/
def wakes (s : UxScheduler) : Act → Option Waiter
  | .timeout c => some (.call c)
  | a => (s.signalOf a).join

end UxScheduler

namespace UxRegistry
open Machine UxScheduler

def running (delayMs : DelayMs) : UxRegistry where
  sched := UxScheduler.running delayMs
  next := 0
  birth := fun _ => 0
  lookup := 0
  rms := fun _ => (0, 0)
  barred := fun _ => 0
  dangling := false

/-- A thread other than the worker has called `awe_uxscheduler_rm`: it waits, or the call
has returned. -/
def remove (s : UxRegistry) (c : Caller) (ufd : Int) (t : UxScheduler) : UxRegistry :=
  if c = .worker then { s with sched := t }
  else if t.calls c = .rmWait then
    { s with sched := t, rms := Function.update s.rms c (ufd, s.next) }
  else { s with sched := t, barred := Function.update s.barred ufd s.next }

/-- The record at `addr` is of the registration the worker has found. -/
def Fresh (s : UxRegistry) (addr : Ptr) : Prop :=
  addr ∈ s.sched.uxeventList.map UxEvent.addr ∧ s.birth addr = s.lookup

instance (s : UxRegistry) (addr : Ptr) : Decidable (s.Fresh addr) :=
  inferInstanceAs (Decidable (_ ∧ _))

/-- What an action that leads the scheduler to `t` means for the registrations. -/
def after (s : UxRegistry) (t : UxScheduler) : Act → UxRegistry
  | .rm c ufd => s.remove c ufd t
  | .add c addr ufd conditionSet _ _ _ =>
    if ufd = 0 then { s with sched := t }
    else if conditionSet = 0 then s.remove c ufd t
    else if find s.sched.uxeventList ufd = none then
      { s with sched := t, birth := Function.update s.birth addr s.next, next := s.next + 1 }
    else { s with sched := t }
  | .rmReturn c =>
    let (ufd, n) := s.rms c
    { s with sched := t, barred := Function.update s.barred ufd (max (s.barred ufd) n) }
  | .dispatch =>
    match t.worker with
    | .found addr _ _ => { s with sched := t, lookup := s.birth addr }
    | _ => { s with sched := t }
  | .handle =>
    match s.sched.worker with
    | .found addr _ _ => { s with sched := t, dangling := s.dangling || !decide (s.Fresh addr) }
    | _ => { s with sched := t }
  | _ => { s with sched := t }

def step (s : UxRegistry) (a : Act) : Option UxRegistry :=
  if a.serves then (s.sched.step a).map (fun t => s.after t a) else none

def Handles (s : UxRegistry) (ufd : Int) : Prop :=
  ∃ ready todo, s.sched.worker = .handling ready todo ∧ ready.ufd = ufd

/-- Between the look-up of the record of `ufd` and the call. -/
def LooksAt (s : UxRegistry) (ufd : Int) : Prop :=
  ∃ addr ready todo, s.sched.worker = .found addr ready todo ∧ ready.ufd = ufd

/-- Removals are barriers: no invocation goes on, or starts, for a registration whose
removal has returned, and none is through a record that is gone. -/
structure Barrier (s : UxRegistry) : Prop where
  past : ∀ ufd, s.Handles ufd → s.barred ufd ≤ s.lookup
  alive : s.dangling = false

/-- A removal comes while the worker is not about to call through the record, and waits
for the worker if it is inside an invocation. -/
def RemovesApart (s : UxRegistry) (a : Act) : Prop :=
  ∀ c ufd, a.removal = some (c, ufd) → c ≠ .worker →
    ¬ s.LooksAt ufd ∧
      (s.Handles ufd → s.sched.started ∧ find s.sched.uxeventList ufd ≠ none)

/-- Inside an invocation that the waiting removal of `c` is to see the end of. -/
def Overtaken (s : UxRegistry) (c : Caller) : Prop :=
  s.sched.calls c = .rmWait ∧ s.Handles (s.rms c).1 ∧ s.lookup < (s.rms c).2

/-- No removal is woken, by its deadline or by another call's signal, before the
invocation it waits for has ended. -/
def WakesInTime (s : UxRegistry) (a : Act) : Prop :=
  ∀ c, s.sched.wakes a = some (.call c) → .call c ∈ s.sched.cond.waiters → ¬ s.Overtaken c

structure Kept (s : UxRegistry) : Prop where
  settled : s.sched.starting = .none
  addrs : ((keys s.sched.uxeventList).map Prod.fst).Nodup
  ufds : ((keys s.sched.uxeventList).map Prod.snd).Nodup
  born : ∀ k ∈ keys s.sched.uxeventList, s.birth k.1 < s.next ∧ s.barred k.2 ≤ s.birth k.1 ∧
    ∀ c, s.sched.calls c = .rmWait → (s.rms c).1 = k.2 → (s.rms c).2 ≤ s.birth k.1
  past : (∀ ufd, s.barred ufd ≤ s.next) ∧ ∀ c, s.sched.calls c = .rmWait → (s.rms c).2 ≤ s.next
  found : ∀ addr ready todo, s.sched.worker = .found addr ready todo →
    (addr, ready.ufd) ∈ keys s.sched.uxeventList ∧ s.birth addr = s.lookup
  handled : ∀ ufd, s.Handles ufd → s.lookup < s.next ∧ s.barred ufd ≤ s.lookup ∧
    ∀ c, s.sched.calls c = .rmWait → (s.rms c).1 = ufd → .call c ∈ s.sched.cond.waiters ∨
      (s.rms c).2 ≤ s.lookup
  alive : s.dangling = false

theorem kept_running (delayMs : DelayMs) : (running delayMs).Kept := by
  constructor <;> simp [running, UxScheduler.running, create, keys, Handles]

theorem Kept.listed {s : UxRegistry} (h : s.Kept) : s.sched.Listed :=
  ⟨h.addrs, h.ufds, fun addr ready todo hw => (h.found addr ready todo hw).1⟩

theorem Kept.barrier {s : UxRegistry} (h : s.Kept) : s.Barrier :=
  ⟨fun ufd hu => (h.handled ufd hu).2.1, h.alive⟩

section Steps

variable {s : UxRegistry} {t : UxScheduler}

/-- The worker moves on, not into an invocation nor to the call of one. -/
theorem Kept.of_worker (h : s.Kept) (hlist : t.uxeventList = s.sched.uxeventList)
    (hcalls : t.calls = s.sched.calls) (hstart : t.starting = s.sched.starting)
    (hfound : ∀ addr ready todo, t.worker ≠ .found addr ready todo)
    (hhandling : ∀ ready todo, t.worker ≠ .handling ready todo) :
    Kept { s with sched := t } where
  settled := hstart.trans h.settled
  addrs := by rw [hlist]; exact h.addrs
  ufds := by rw [hlist]; exact h.ufds
  born := by rw [hlist, hcalls]; exact h.born
  past := by rw [hcalls]; exact h.past
  found addr ready todo hw := absurd hw (hfound addr ready todo)
  handled ufd hu := by
    obtain ⟨ready, todo, hw, _⟩ := hu
    exact absurd hw (hhandling ready todo)
  alive := h.alive

/-- A call that leaves the events where they are wakes nobody too early. -/
theorem Kept.of_caller (h : s.Kept) (hkeys : keys t.uxeventList = keys s.sched.uxeventList)
    (hworker : t.worker = s.sched.worker) (hstart : t.starting = s.sched.starting)
    (hcalls : ∀ c, t.calls c = .rmWait → s.sched.calls c = .rmWait)
    (hwake : ∀ c, t.calls c = .rmWait → .call c ∈ s.sched.cond.waiters →
      .call c ∈ t.cond.waiters ∨ ¬ s.Overtaken c) : Kept { s with sched := t } where
  settled := hstart.trans h.settled
  addrs := by rw [hkeys]; exact h.addrs
  ufds := by rw [hkeys]; exact h.ufds
  born k hk := by
    rw [hkeys] at hk
    obtain ⟨hlt, hbar, hrms⟩ := h.born k hk
    exact ⟨hlt, hbar, fun c hc => hrms c (hcalls c hc)⟩
  past := ⟨h.past.1, fun c hc => h.past.2 c (hcalls c hc)⟩
  found addr ready todo hw := by
    rw [hkeys]
    exact h.found addr ready todo (hworker ▸ hw)
  handled ufd hu := by
    have hu' : s.Handles ufd := by
      obtain ⟨ready, todo, hw, he⟩ := hu
      exact ⟨ready, todo, hworker ▸ hw, he⟩
    obtain ⟨hlt, hbar, hrms⟩ := h.handled ufd hu'
    refine ⟨hlt, hbar, fun c hc he => ?_⟩
    rcases hrms c (hcalls c hc) he with hw | hle
    · rcases hwake c hc hw with hw | hnot
      · exact Or.inl hw
      · by_cases hn : s.lookup < (s.rms c).2
        · exact absurd ⟨hcalls c hc, he ▸ hu', hn⟩ hnot
        · exact Or.inr (Nat.le_of_not_lt hn)
    · exact Or.inr hle
  alive := h.alive

/-- A removal returns: nothing older than it is registered or goes on. -/
theorem Kept.bar (h : s.Kept) {ufd : Int} {n : Nat} (hn : n ≤ s.next)
    (hkeys : ∀ k ∈ keys s.sched.uxeventList, k.2 = ufd → n ≤ s.birth k.1)
    (hhandles : s.Handles ufd → n ≤ s.lookup) :
    Kept { s with barred := Function.update s.barred ufd n } := by
  refine { h with born := ?_, past := ⟨?_, h.past.2⟩, handled := ?_ }
  · intro k hk
    obtain ⟨hlt, hbar, hrms⟩ := h.born k hk
    refine ⟨hlt, ?_, hrms⟩
    dsimp only
    by_cases hu : k.2 = ufd
    · rw [hu, Function.update_self]
      exact hkeys k hk hu
    · rw [Function.update_of_ne hu]
      exact hbar
  · intro u
    dsimp only
    by_cases hu : u = ufd
    · subst hu
      rwa [Function.update_self]
    · rw [Function.update_of_ne hu]
      exact h.past.1 u
  · intro u hu
    have hu : s.Handles u := hu
    obtain ⟨hlt, hbar, hrms⟩ := h.handled u hu
    refine ⟨hlt, ?_, hrms⟩
    dsimp only
    by_cases hufd : u = ufd
    · subst hufd
      rw [Function.update_self]
      exact hhandles hu
    · rw [Function.update_of_ne hufd]
      exact hbar

/-- A removal made apart from the worker's invocation for its descriptor. -/
theorem Kept.remove (h : s.Kept) {c : Caller} {ufd : Int} (ht : s.sched.rm c ufd = some t)
    (hapart : c ≠ .worker → ¬ s.LooksAt ufd ∧
      (s.Handles ufd → s.sched.started ∧ find s.sched.uxeventList ufd ≠ none)) :
    (s.remove c ufd t).Kept := by
  obtain ⟨hcall, _, heffect⟩ := rm_cases ht
  have hnot : s.sched.calls c ≠ .rmWait := by simp [hcall]
  have hlisted : t.Listed := h.listed.rm ht (fun hc => (hapart hc).1)
  unfold UxRegistry.remove
  rcases heffect with ⟨hnone, rfl⟩ | ⟨uxe, hsome, ⟨hst, hc, rfl⟩ | ⟨hwait, rfl⟩⟩
  · split
    · exact h
    · rename_i hc
      have hkeys := not_mem_keys_of_find hnone
      exact h.bar (Nat.le_refl _) (fun k hk he => absurd he (hkeys k hk))
        (fun hu => absurd hnone ((hapart hc).2 hu).2)
  · rw [if_neg hc, if_pos (Function.update_self ..)]
    have hmem := mem_keys_erase hsome h.ufds
    refine ⟨h.settled, hlisted.addrs, hlisted.ufds, ?_, ?_, ?_, ?_, h.alive⟩
    · intro k hk
      obtain ⟨hk, hne⟩ := (hmem k).mp hk
      obtain ⟨hlt, hbar, hrms⟩ := h.born k hk
      refine ⟨hlt, hbar, fun c' hc' he => ?_⟩
      dsimp only at hc' he ⊢
      by_cases hcc : c' = c
      · subst hcc
        rw [Function.update_self] at he
        exact absurd he.symm hne
      · rw [Function.update_of_ne hcc] at he ⊢
        exact hrms c' (by simpa [hcc] using hc') he
    · refine ⟨h.past.1, fun c' hc' => ?_⟩
      dsimp only at hc' ⊢
      by_cases hcc : c' = c
      · subst hcc
        rw [Function.update_self]
      · rw [Function.update_of_ne hcc]
        exact h.past.2 c' (by simpa [hcc] using hc')
    · exact fun addr ready todo hw =>
        ⟨hlisted.found addr ready todo hw, (h.found addr ready todo hw).2⟩
    · intro u hu
      have hu : s.Handles u := hu
      obtain ⟨hlt, hbar, hrms⟩ := h.handled u hu
      refine ⟨hlt, hbar, fun c' hc' he => ?_⟩
      dsimp only at hc' he ⊢
      by_cases hcc : c' = c
      · subst hcc
        exact Or.inl (by simp)
      · rw [Function.update_of_ne hcc] at he ⊢
        exact (hrms c' (by simpa [hcc] using hc') he).imp_left (fun hw => by simp [hw])
  · have hmem := mem_keys_erase hsome h.ufds
    have hkept : Kept { s with sched := { s.sched with
        uxeventList := s.sched.uxeventList.erase uxe } } := by
      refine ⟨h.settled, hlisted.addrs, hlisted.ufds, ?_, h.past, ?_, h.handled, h.alive⟩
      · exact fun k hk => h.born k ((hmem k).mp hk).1
      · exact fun addr ready todo hw =>
          ⟨hlisted.found addr ready todo hw, (h.found addr ready todo hw).2⟩
    split
    · exact hkept
    · rename_i hc
      exact hkept.bar (Nat.le_refl _) (fun k hk he => absurd he ((hmem k).mp hk).2)
        (fun hu => absurd ⟨((hapart hc).2 hu).1, hc⟩ hwait)

/-- A signal reaches at most one of the waiting removals, and none too early. -/
theorem signal_in_time {a : Act} {pick : Option Waiter} {cond : CondVar Waiter}
    (hwakes : s.WakesInTime a) (hpick : s.sched.wakes a = pick)
    (hcond : s.sched.cond.signal pick = some cond) (c : Caller)
    (hc : .call c ∈ s.sched.cond.waiters) : .call c ∈ cond.waiters ∨ ¬ s.Overtaken c := by
  by_cases hw : pick = some (.call c)
  · exact Or.inr (hwakes c (hpick.trans hw) hc)
  · exact Or.inl ((CondVar.mem_signal hcond).mpr ⟨hc, hw⟩)

theorem Kept.add (h : s.Kept) {c : Caller} {addr : Ptr} {ufd : Int} {conditionSet : BitVec 32}
    {proc userdata : Ptr} {pick : Option Waiter}
    (ht : s.sched.act (.add c addr ufd conditionSet proc userdata pick) = some t)
    (hapart : s.RemovesApart (.add c addr ufd conditionSet proc userdata pick))
    (hwakes : s.WakesInTime (.add c addr ufd conditionSet proc userdata pick)) :
    (s.after t (.add c addr ufd conditionSet proc userdata pick)).Kept := by
  simp only [after]
  rcases add_cases ht with ⟨hufd, rfl⟩ | ⟨hufd, hset, hrm⟩ | ⟨cond, hufd, hset, haddr, hcond, rfl⟩
  · rw [if_pos hufd]
    exact h
  · rw [if_neg hufd, if_pos hset]
    exact h.remove hrm (fun hc => hapart c ufd (if_pos ⟨hufd, hset⟩) hc)
  · rw [if_neg hufd, if_neg hset]
    have hpick : s.sched.wakes (.add c addr ufd conditionSet proc userdata pick) = pick := by
      simp only [wakes, signalOf]
      rw [if_pos ⟨hufd, hset⟩]
      rfl
    have hin := signal_in_time hwakes hpick hcond
    cases hfind : find s.sched.uxeventList ufd with
    | some uxe =>
      have hkeys : keys (addEvent s.sched.uxeventList addr ufd conditionSet proc userdata) =
          keys s.sched.uxeventList := by
        simp only [addEvent, hfind]
        exact keys_replace rfl
      rw [if_neg (by simp)]
      exact h.of_caller hkeys rfl rfl (fun _ hc => hc) (fun c' _ hc => hin c' hc)
    | none =>
      rw [if_pos rfl]
      -- the registration is new, so is its address among the live ones
      have hkeys : keys (addEvent s.sched.uxeventList addr ufd conditionSet proc userdata) =
          keys s.sched.uxeventList ++ [(addr, ufd)] := by
        simp only [addEvent, hfind, keys, List.map_append]
        rfl
      have hne : ∀ k ∈ keys s.sched.uxeventList, k.1 ≠ addr := by
        intro k hk heq
        subst heq
        obtain ⟨e, he, rfl⟩ := List.mem_map.mp hk
        exact haddr (List.mem_map_of_mem he)
      have hlisted : UxScheduler.Listed { s.sched with
          uxeventList := addEvent s.sched.uxeventList addr ufd conditionSet proc userdata
          cond := cond } := h.listed.addEvent haddr rfl rfl
      refine ⟨h.settled, hlisted.addrs, hlisted.ufds, ?_, ?_, ?_, ?_, h.alive⟩
      · intro k hk
        change k ∈ keys _ at hk
        rw [hkeys] at hk
        dsimp only
        rcases List.mem_append.mp hk with hk | hk
        · obtain ⟨hlt, hbar, hrms⟩ := h.born k hk
          rw [Function.update_of_ne (hne k hk)]
          exact ⟨Nat.lt_succ_of_lt hlt, hbar, hrms⟩
        · rw [List.mem_singleton.mp hk, Function.update_self]
          exact ⟨Nat.lt_succ_self _, h.past.1 ufd, fun c hc _ => h.past.2 c hc⟩
      · exact ⟨fun u => Nat.le_succ_of_le (h.past.1 u),
          fun c hc => Nat.le_succ_of_le (h.past.2 c hc)⟩
      · intro a ready todo hw
        obtain ⟨hk, hb⟩ := h.found a ready todo hw
        refine ⟨hlisted.found a ready todo hw, ?_⟩
        dsimp only
        rw [Function.update_of_ne (hne _ hk)]
        exact hb
      · intro u hu
        have hu : s.Handles u := hu
        obtain ⟨hlt, hbar, hrms⟩ := h.handled u hu
        refine ⟨Nat.lt_succ_of_lt hlt, hbar, fun c hc he => ?_⟩
        rcases hrms c hc he with hw | hle
        · rcases hin c hw with hw | hnot
          · exact Or.inl hw
          · by_cases hn : s.lookup < (s.rms c).2
            · exact absurd ⟨hc, by rw [he]; exact hu, hn⟩ hnot
            · exact Or.inr (Nat.le_of_not_lt hn)
        · exact Or.inr hle

theorem Kept.setConditions (h : s.Kept) (ufd : Int) (f : BitVec 32 → BitVec 32) :
    Kept { s with sched := s.sched.setConditions ufd f } := by
  unfold UxScheduler.setConditions
  split
  · exact h
  · exact h.of_caller (keys_replace rfl) rfl rfl (fun _ hc => hc) (fun _ _ hc => Or.inl hc)

theorem Kept.dispatch (h : s.Kept) (ht : s.sched.dispatch = some t) :
    (s.after t .dispatch).Kept := by
  unfold UxScheduler.dispatch at ht
  split at ht
  · cases ht
    exact h.of_worker rfl rfl rfl (fun _ _ _ => nofun) (fun _ _ => nofun)
  · rename_i ready todo _
    split at ht
    · cases ht
      exact h.of_worker rfl rfl rfl (fun _ _ _ => nofun) (fun _ _ => nofun)
    · rename_i uxe hfind
      cases ht
      refine { h with found := ?_, handled := ?_ }
      · intro addr r rest hw
        cases hw
        exact ⟨mem_keys_of_find hfind, rfl⟩
      · intro u hinside
        obtain ⟨r, rest, hw, _⟩ := hinside
        cases hw
  · cases ht

/-- The call is through the record that was found. -/
theorem Kept.handle (h : s.Kept) (ht : s.sched.handle = some t) : (s.after t .handle).Kept := by
  unfold UxScheduler.handle at ht
  split at ht
  · rename_i addr ready todo hw
    obtain ⟨hk, hb⟩ := h.found addr ready todo hw
    have hmem : addr ∈ s.sched.uxeventList.map UxEvent.addr := by
      obtain ⟨e, he, heq⟩ := List.mem_map.mp hk
      exact List.mem_map.mpr ⟨e, he, congrArg Prod.fst heq⟩
    split at ht
    · rename_i hnone
      obtain ⟨e, he, rfl⟩ := List.mem_map.mp hmem
      simpa using List.find?_eq_none.mp hnone e he
    · split at ht
      · cases ht
      · cases ht
        have hafter : s.after { s.sched with worker := .handling ready todo } .handle =
            { s with sched := { s.sched with worker := .handling ready todo } } := by
          have hfresh : s.Fresh addr := ⟨hmem, hb⟩
          simp [after, hw, hfresh]
        rw [hafter]
        obtain ⟨hlt, hbar, hrms⟩ := h.born _ hk
        refine { h with found := (fun _ _ _ hf => nomatch hf), handled := ?_ }
        intro u hinside
        obtain ⟨r, rest, hr, rfl⟩ := hinside
        cases hr
        dsimp only
        rw [← hb]
        exact ⟨hlt, hbar, fun c hc he => Or.inr (hrms c hc he)⟩
  · cases ht

/-- A call that does not wait for the worker leaves those that do. -/
theorem waiting_before {calls : Caller → Call} {c : Caller} {call : Call}
    (hcalls : calls = Function.update s.sched.calls c call) (hcall : call ≠ .rmWait) (c' : Caller)
    (hc : calls c' = .rmWait) : s.sched.calls c' = .rmWait := by
  rw [hcalls] at hc
  by_cases he : c' = c
  · subst he
    exact absurd (by simpa using hc) hcall
  · simpa [he] using hc

theorem Kept.rmReturn (h : s.Kept) {c : Caller} (ht : s.sched.rmReturn c = some t) :
    (s.after t (.rmReturn c)).Kept := by
  unfold UxScheduler.rmReturn at ht
  split at ht
  · rename_i hc
    obtain ⟨hw, ht⟩ := Option.ite_none_left_eq_some.mp ht
    cases ht
    have hkept : Kept { s with sched := { s.sched with
        calls := Function.update s.sched.calls c Call.none } } :=
      h.of_caller rfl rfl rfl (waiting_before rfl (by simp)) (fun _ _ hc => Or.inl hc)
    refine hkept.bar (Nat.max_le.mpr ⟨h.past.1 _, h.past.2 c hc⟩) (fun k hk he => ?_)
      (fun hu => ?_)
    · obtain ⟨_, hbar, hrms⟩ := h.born k hk
      exact Nat.max_le.mpr ⟨he ▸ hbar, hrms c hc he.symm⟩
    · obtain ⟨_, hbar, hrms⟩ := h.handled _ hu
      exact Nat.max_le.mpr ⟨hbar, (hrms c hc rfl).resolve_left hw⟩
  · cases ht

theorem Kept.step (h : s.Kept) {a : Act} {m : UxRegistry} (hapart : s.RemovesApart a)
    (hwakes : s.WakesInTime a) (hm : s.step a = some m) : m.Kept := by
  unfold UxRegistry.step at hm
  split at hm
  case isFalse => cases hm
  rename_i hserves
  obtain ⟨t, ht, rfl⟩ := Option.map_eq_some_iff.mp hm
  have ht := step_act ht
  cases a with
  | start | startStore | clear => cases hserves
  | rm c ufd => exact h.remove ht (fun hc => hapart c ufd rfl hc)
  | add c addr ufd conditionSet proc userdata pick => exact h.add ht hapart hwakes
  | dispatch => exact h.dispatch ht
  | handle => exact h.handle ht
  | rmReturn c => exact h.rmReturn ht
  | disable ufd events | enable ufd events =>
    cases ht
    exact h.setConditions ufd _
  | post p pick =>
    rcases post_cases ht with ⟨_, rfl⟩ | ⟨cond, hst, _, _, hcond, rfl⟩
    · exact h
    · have hpick : s.sched.wakes (.post p pick) = pick := by simp [wakes, signalOf, hst]
      exact h.of_caller rfl rfl rfl (fun _ hc => hc)
        (fun c _ hc => signal_in_time hwakes hpick hcond c hc)
  | stop c pick =>
    rcases stop_cases ht with ⟨_, rfl⟩ | ⟨cond, hst, hcond, rfl⟩
    · exact h
    · have hpick : s.sched.wakes (.stop c pick) = pick := by simp [wakes, signalOf, hst]
      exact h.of_caller rfl rfl rfl (waiting_before rfl (by simp))
        (fun c' _ hc => signal_in_time hwakes hpick hcond c' hc)
  | stopCheck c =>
    obtain ⟨_, rfl⟩ := stopCheck_cases ht
    split
    · exact h.of_caller rfl rfl rfl (waiting_before rfl (by simp))
        (fun _ _ hc => Or.inl (by simp [hc]))
    · exact h.of_caller rfl rfl rfl (waiting_before rfl (by simp))
        (fun _ _ hc => Or.inl hc)
  | cancel id =>
    cases ht
    rcases cancel_cases s.sched id with he | he <;>
      exact h.of_caller (by rw [he]) (by rw [he]) (by rw [he]) (by rw [he]; exact fun _ hc => hc)
        (by rw [he]; exact fun _ _ hc => Or.inl hc)
  | timeout c =>
    cases ht
    refine h.of_caller rfl rfl rfl (fun _ hc => hc) (fun c' _ hc => ?_)
    by_cases he : c' = c
    · subst he
      exact Or.inr (hwakes c' rfl hc)
    · exact Or.inl (CondVar.mem_timeout.mpr ⟨by simpa using he, hc⟩)
  | leave n =>
    obtain ⟨u, _, rfl⟩ := Option.map_eq_some_iff.mp ht
    exact h.of_caller rfl rfl rfl (fun _ hc => hc) (fun _ _ hc => Or.inl hc)
  | testExit | guard | testStarted | prepare | select | handlerReturn | endRound | testTask
  | procReturn | finish =>
    simp only [act, testExit, UxScheduler.guard, testStarted, prepare, select, handlerReturn,
      endRound, testTask, procReturn, finish] at ht
    repeat' first | split at ht | cases ht
    all_goals
      refine h.of_worker rfl rfl rfl (fun addr ready todo hw => ?_) (fun ready todo hw => ?_)
    all_goals cases hw

end Steps

theorem step_serves {s m : UxRegistry} {a : Act} (hm : s.step a = some m) :
    ∃ t, s.sched.step a = some t ∧ m = s.after t a := by
  unfold UxRegistry.step at hm
  obtain ⟨_, hm⟩ := Option.ite_none_right_eq_some.mp hm
  obtain ⟨t, ht, rfl⟩ := Option.map_eq_some_iff.mp hm
  exact ⟨t, ht, rfl⟩

theorem removal_step {s m : UxRegistry} {a : Act} {c : Caller} {ufd : Int}
    (hm : s.step a = some m) (ha : a.removal = some (c, ufd)) :
    ∃ t, s.sched.rm c ufd = some t ∧ m = s.remove c ufd t := by
  obtain ⟨t, ht, rfl⟩ := step_serves hm
  have ht := step_act ht
  cases a with
  | rm c' ufd' =>
    cases ha
    exact ⟨t, ht, rfl⟩
  | add c' addr ufd' conditionSet proc userdata pick =>
    simp only [Act.removal] at ha
    obtain ⟨hset, ha⟩ := Option.ite_none_right_eq_some.mp ha
    cases ha
    rcases add_cases ht with ⟨hzero, _⟩ | ⟨_, _, hrm⟩ | ⟨_, _, hne, _⟩
    · exact absurd hzero hset.1
    · refine ⟨t, hrm, ?_⟩
      simp only [after]
      rw [if_neg hset.1, if_pos hset.2]
    · exact absurd hset.2 hne
  | _ => cases ha

/-- A waiting removal that is woken has yet to return. -/
structure Woken (s m : UxRegistry) (c : Caller) : Prop where
  worker : m.sched.worker = s.sched.worker
  calls : m.sched.calls c = s.sched.calls c
  awake : .call c ∉ m.sched.cond.waiters
  settled : m.sched.starting = s.sched.starting
  rms : m.rms c = s.rms c
  lookup : m.lookup = s.lookup

theorem woken {s m : UxRegistry} {a : Act} {c : Caller} (hm : s.step a = some m)
    (ha : s.sched.wakes a = some (.call c)) (hc : s.sched.calls c = .rmWait) : s.Woken m c := by
  obtain ⟨t, ht, rfl⟩ := step_serves hm
  have ht := step_act ht
  have hgone : ∀ {cond : CondVar Waiter}, s.sched.cond.signal (some (.call c)) = some cond →
      .call c ∉ cond.waiters := fun hcond hw => ((CondVar.mem_signal hcond).mp hw).2 rfl
  cases a with
  | timeout c' =>
    cases ht
    cases ha
    exact ⟨rfl, rfl, fun hw => (CondVar.mem_timeout.mp hw).1 rfl, rfl, rfl, rfl⟩
  | add c' addr ufd conditionSet proc userdata pick =>
    simp only [wakes, signalOf] at ha
    split at ha
    · rename_i hset
      obtain rfl : pick = some (.call c) := ha
      rcases add_cases ht with ⟨hzero, _⟩ | ⟨_, hzero, _⟩ | ⟨cond, _, _, _, hcond, rfl⟩
      · exact absurd hzero hset.1
      · exact absurd hzero hset.2
      · simp only [after]
        rw [if_neg hset.1, if_neg hset.2]
        split <;> exact ⟨rfl, rfl, hgone hcond, rfl, rfl, rfl⟩
    · cases ha
  | post p pick =>
    simp only [wakes, signalOf] at ha
    split at ha
    · rename_i hst
      obtain rfl : pick = some (.call c) := ha
      rcases post_cases ht with ⟨hoff, _⟩ | ⟨cond, _, _, _, hcond, rfl⟩
      · simp [hst] at hoff
      · exact ⟨rfl, rfl, hgone hcond, rfl, rfl, rfl⟩
    · cases ha
  | stop c' pick =>
    simp only [wakes, signalOf] at ha
    split at ha
    · rename_i hst
      obtain rfl : pick = some (.call c) := ha
      have hmay : s.sched.calls c' = .none := by
        simp only [act, UxScheduler.stop] at ht
        obtain ⟨hmay, ht⟩ := Option.ite_none_left_eq_some.mp ht
        simp only [mayCall, Bool.not_eq_eq_eq_not, Bool.not_true, decide_eq_false_iff_not,
          not_not] at hmay
        exact hmay.1
      rcases stop_cases ht with ⟨hoff, _⟩ | ⟨cond, _, hcond, rfl⟩
      · simp [hst] at hoff
      · have hne : c ≠ c' := by
          intro heq
          subst heq
          simp [hmay] at hc
        exact ⟨rfl, Function.update_of_ne hne .., hgone hcond, rfl, rfl, rfl⟩
    · cases ha
  | _ => cases ha

/-- The removal takes the record from under the worker that is about to call. -/
theorem dangles {s m : UxRegistry} {a : Act} {c : Caller} {ufd : Int} (h : s.Kept)
    (hm : s.step a = some m) (ha : a.removal = some (c, ufd)) (hlook : s.LooksAt ufd) :
    ¬ Always step Barrier m [.handle] := by
  obtain ⟨addr, ready, todo, hw, rfl⟩ := hlook
  obtain ⟨t, ht, rfl⟩ := removal_step hm ha
  obtain ⟨hk, _⟩ := h.found addr ready todo hw
  obtain ⟨_, _, heffect⟩ := rm_cases ht
  have hlist : ∃ uxe, find s.sched.uxeventList ready.ufd = some uxe ∧
      t.uxeventList = s.sched.uxeventList.erase uxe ∧ t.worker = s.sched.worker ∧
      t.starting = s.sched.starting := by
    rcases heffect with ⟨hnone, _⟩ | ⟨uxe, hsome, ⟨_, _, rfl⟩ | ⟨_, rfl⟩⟩
    · exact absurd rfl (not_mem_keys_of_find hnone _ hk)
    · exact ⟨uxe, hsome, rfl, rfl, rfl⟩
    · exact ⟨uxe, hsome, rfl, rfl, rfl⟩
  obtain ⟨uxe, hsome, hlist, hworker, hstart⟩ := hlist
  have hgone : addr ∉ t.uxeventList.map UxEvent.addr := by
    intro hmem
    obtain ⟨e, he, rfl⟩ := List.mem_map.mp hmem
    have he' : (e.addr, e.ufd) ∈ keys (s.sched.uxeventList.erase uxe) :=
      List.mem_map_of_mem (hlist ▸ he)
    obtain ⟨hin, hne⟩ := (mem_keys_erase hsome h.ufds _).mp he'
    have hsame := List.inj_on_of_nodup_map h.addrs hin hk rfl
    exact hne (congrArg Prod.snd hsame)
  have hfind : t.uxeventList.find? (fun e => e.addr = addr) = none := by
    refine List.find?_eq_none.mpr (fun e he heq => hgone ?_)
    exact List.mem_map.mpr ⟨e, he, by simpa using heq⟩
  have hsched : (s.remove c ready.ufd t).sched = t := by
    unfold UxRegistry.remove
    split
    · rfl
    · split <;> rfl
  have hw' : t.worker = .found addr ready todo := hworker.trans hw
  have hstep : t.step .handle = some { t with worker := .crashed } := by
    simp [UxScheduler.step, hstart, h.settled, act, UxScheduler.handle, hw', hfind]
  intro halways
  have hnext : step (s.remove c ready.ufd t) .handle =
      some ((s.remove c ready.ufd t).after { t with worker := .crashed } .handle) := by
    simp only [UxRegistry.step, Act.serves, if_true, hsched, hstep, Option.map_some]
  have hbad := (halways.2 _ hnext).alive
  have hstale : ¬ (s.remove c ready.ufd t).Fresh addr := by
    intro hkey
    obtain ⟨hmem, _⟩ := hkey
    rw [hsched] at hmem
    exact hgone hmem
  simp [after, hsched, hw', hstale] at hbad

/-- The removal returns at once, and the invocation goes on. -/
theorem returns_at_once {s m : UxRegistry} {a : Act} {c : Caller} {ufd : Int} (h : s.Kept)
    (hm : s.step a = some m) (ha : a.removal = some (c, ufd)) (hc : c ≠ .worker)
    (hhandles : s.Handles ufd)
    (hwait : ¬ (s.sched.started ∧ find s.sched.uxeventList ufd ≠ none)) : ¬ m.Barrier := by
  obtain ⟨t, ht, rfl⟩ := removal_step hm ha
  obtain ⟨hlt, _, _⟩ := h.handled ufd hhandles
  obtain ⟨hcall, _, heffect⟩ := rm_cases ht
  have hstays : t.worker = s.sched.worker ∧ t.calls c ≠ .rmWait := by
    rcases heffect with ⟨_, rfl⟩ | ⟨uxe, hsome, ⟨hst, _, _⟩ | ⟨_, rfl⟩⟩
    · exact ⟨rfl, by simp [hcall]⟩
    · exact absurd ⟨hst, by simp [hsome]⟩ hwait
    · exact ⟨rfl, by simp [hcall]⟩
  intro hbarrier
  have hremove : s.remove c ufd t =
      { s with sched := t, barred := Function.update s.barred ufd s.next } := by
    unfold UxRegistry.remove
    rw [if_neg hc, if_neg hstays.2]
  rw [hremove] at hbarrier
  obtain ⟨ready, todo, hw, he⟩ := hhandles
  have hpast := hbarrier.past ufd ⟨ready, todo, hstays.1.trans hw, he⟩
  simp only [Function.update_self] at hpast
  omega

/-- The removal woken too early returns, and the invocation goes on. -/
theorem returns_early {s m : UxRegistry} {a : Act} {c : Caller} (h : s.Kept)
    (hm : s.step a = some m) (ha : s.sched.wakes a = some (.call c)) (hover : s.Overtaken c) :
    ¬ Always step Barrier m [.rmReturn c] := by
  obtain ⟨hc, ⟨ready, todo, hw, he⟩, hlt⟩ := hover
  have hwoken := woken hm ha hc
  have hret : m.sched.step (.rmReturn c) =
      some { m.sched with calls := Function.update m.sched.calls c .none } := by
    simp [UxScheduler.step, hwoken.settled, h.settled, act, UxScheduler.rmReturn, hwoken.calls, hc,
      hwoken.awake]
  intro halways
  have hnext : step m (.rmReturn c) = some (m.after
      { m.sched with calls := Function.update m.sched.calls c .none } (.rmReturn c)) := by
    simp only [UxRegistry.step, Act.serves, if_true, hret, Option.map_some]
  have hpast := (halways.2 _ hnext).past (s.rms c).1
    ⟨ready, todo, hwoken.worker.trans hw, he⟩
  simp only [after, hwoken.rms, hwoken.lookup, Function.update_self] at hpast
  omega

/-- What is left of a call that is under way: the worker's call through the record it has
found, and the return of a removal. -/
def Ends (a : Act) : Prop := a = .handle ∨ ∃ c, a = .rmReturn c

/-- `awe_uxscheduler_rm` is a barrier in every state of a run, however the calls under way
in it end, exactly if each removal comes while the worker is not about to call through the
record, waits if the worker is inside an invocation for the descriptor, and is not woken by
its deadline or another call's signal before that invocation has ended. -/
theorem rm_barrier_iff (delayMs : DelayMs) (as : List Act) :
    Throughout step (fun s a => s.RemovesApart a ∧ s.WakesInTime a) (running delayMs) as ↔
      ∀ cs, cs <+: as → ∀ bs, (∀ b ∈ bs, Ends b) →
        Always step Barrier (running delayMs) (cs ++ bs) := by
  refine throughout_iff_continuations (fun s a m h hp hm => h.step hp.1 hp.2 hm)
    (fun s h => h.barrier) ?_ ?_ (kept_running delayMs) as
  · intro s a ha
    rcases ha with rfl | ⟨c, rfl⟩
    · exact ⟨(fun _ _ ha => nomatch ha), (fun _ ha => nomatch ha)⟩
    · exact ⟨(fun _ _ ha => nomatch ha), (fun _ ha => nomatch ha)⟩
  · intro s a m h hm hp
    by_cases hapart : s.RemovesApart a
    · have hwakes : ¬ s.WakesInTime a := fun hw => hp ⟨hapart, hw⟩
      unfold WakesInTime at hwakes
      push Not at hwakes
      obtain ⟨c, ha, _, hover⟩ := hwakes
      exact ⟨[.rmReturn c], by simp [Ends], returns_early h hm ha hover⟩
    · unfold RemovesApart at hapart
      push Not at hapart
      obtain ⟨c, ufd, ha, hc, hbad⟩ := hapart
      by_cases hlook : s.LooksAt ufd
      · exact ⟨[.handle], by simp [Ends], dangles h hm ha hlook⟩
      · obtain ⟨hhandles, hwait⟩ := hbad hlook
        refine ⟨[], by simp, fun halways => ?_⟩
        refine returns_at_once h hm ha hc hhandles (fun hw => ?_) halways.head
        exact hw.2 (hwait hw.1)

/-- The worker is inside a handler as the descriptor is removed, and the signal of a post
wakes the caller of the removal. -/
def overtaken : List Act :=
  [.add (.thread 0) 100 5 AWE_READ 7 0 none, .testExit, .guard, .testStarted,
    .prepare (timeMs 0), .select 1 [5] [], .dispatch, .handle, .rm (.thread 1) 5,
    .post ⟨timeMs 0, anyDelay, 200, 1, 0, 0⟩ (some (.call (.thread 1))), .rmReturn (.thread 1)]

theorem post_lets_rm_return : ∃ s, run step (running anyDelay) overtaken = some s ∧
    s.sched.calls (.thread 1) = .none ∧ s.sched.worker = .handling ⟨5, AWE_READ⟩ [] ∧
    ¬ s.Barrier :=
  ⟨_, rfl, rfl, rfl, fun h => absurd (h.past 5 ⟨_, _, rfl, rfl⟩) (by decide)⟩

end UxRegistry

end Awe
