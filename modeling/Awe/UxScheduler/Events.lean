import Awe.UxScheduler.Refinement

namespace Awe

namespace UxScheduler

/-- What the scheduler does between its start and its destruction. -/
def Act.serves : Act → Bool
  | .start _ | .startStore | .clear => false
  | _ => true

def Act.stops : Act → Bool
  | .stop .. => true
  | _ => false

def running (delayMs : DelayMs) : UxScheduler :=
  { create with
    started := true
    delayMs := if delayMs.ms ≤ 60000 then delayMs.ms else 1000
    thread := ⟨true, false, true, []⟩
    worker := .loop }

theorem run_running (delayMs : DelayMs) :
    Machine.run step create [.start delayMs, .startStore, .startStore] = some (running delayMs) :=
  rfl

/-- Between the look-up of the event of `ufd` and the call through it. -/
def Finds (s : UxScheduler) (ufd : Int) : Prop :=
  ∃ addr ready todo, s.worker = .found addr ready todo ∧ ready.ufd = ufd

end UxScheduler

namespace UxRegistry
open UxScheduler

def keys (list : List UxEvent) : List (Ptr × Int) := list.map (fun e => (e.addr, e.ufd))

section Keys

variable {list : List UxEvent} {ufd : Int} {uxe : UxEvent}

theorem mem_keys_of_find (h : find list ufd = some uxe) : (uxe.addr, ufd) ∈ keys list := by
  have hufd : uxe.ufd = ufd := by simpa using List.find?_some h
  exact List.mem_map.mpr ⟨uxe, List.mem_of_find?_eq_some h, by rw [hufd]⟩

theorem not_mem_keys_of_find (h : find list ufd = none) : ∀ k ∈ keys list, k.2 ≠ ufd := by
  intro k hk
  obtain ⟨e, he, rfl⟩ := List.mem_map.mp hk
  simpa using List.find?_eq_none.mp h e he

theorem keys_replace {e : UxEvent} (h : (e.addr, e.ufd) = (uxe.addr, uxe.ufd)) :
    keys (list.replace uxe e) = keys list := by
  induction list with
  | nil => rfl
  | cons a list ih =>
    rw [List.replace_cons]
    split
    · rename_i ha
      rw [beq_iff_eq] at ha
      subst ha
      simp only [keys, List.map_cons, h]
    · exact congrArg (List.cons (a.addr, a.ufd)) ih

/-- The record found for a descriptor is the only one of it. -/
theorem mem_keys_erase (h : find list ufd = some uxe) (hnodup : ((keys list).map Prod.snd).Nodup)
    (k : Ptr × Int) : k ∈ keys (list.erase uxe) ↔ k ∈ keys list ∧ k.2 ≠ ufd := by
  have hmem : uxe ∈ list := List.mem_of_find?_eq_some h
  have hufd : uxe.ufd = ufd := by simpa using List.find?_some h
  have hperm : (keys list).Perm ((uxe.addr, ufd) :: keys (list.erase uxe)) := by
    have := (List.perm_cons_erase hmem).map (fun e => (e.addr, e.ufd))
    rwa [List.map_cons, hufd] at this
  have hnodup := (hperm.map Prod.snd).nodup_iff.mp hnodup
  rw [List.map_cons, List.nodup_cons] at hnodup
  rw [hperm.mem_iff, List.mem_cons]
  constructor
  · intro hk
    exact ⟨Or.inr hk, fun he => hnodup.1 (List.mem_map.mpr ⟨k, hk, he⟩)⟩
  · intro hk
    rcases hk with ⟨rfl | hk, hne⟩
    · exact absurd rfl hne
    · exact hk

end Keys

end UxRegistry

namespace UxScheduler
open UxRegistry

theorem cancel_worker (s : UxScheduler) (id : Ptr) : (s.cancel id).2.worker = s.worker := by
  rcases cancel_cases s id with he | he <;> rw [he]

theorem rm_worker {s t : UxScheduler} {c : Caller} {ufd : Int} (ht : s.rm c ufd = some t) :
    t.worker = s.worker ∧ t.started = s.started := by
  obtain ⟨_, _, ⟨_, rfl⟩ | ⟨uxe, _, ⟨_, _, rfl⟩ | ⟨_, rfl⟩⟩⟩ := rm_cases ht <;> exact ⟨rfl, rfl⟩

/-- Once it runs, no call moves the worker, and none but a stop clears `_started`. -/
theorem call_worker {s t : UxScheduler} {a : Act} (hcall : a.ofWorker = false)
    (hstart : ∀ delayMs, a ≠ .start delayMs) (ht : s.step a = some t) :
    t.worker = s.worker ∧ (a.stops = false → t.started = s.started) := by
  cases step_effect ht with
  | start => exact absurd rfl (hstart _)
  | stop => exact ⟨rfl, fun hstops => by cases hstops⟩
  | moves work =>
    rw [hcall] at work
    cases work
  | sleeps | finds | crash | handles | returns | endsRound | takes | calls | skips | ends
  | finish => cases hcall
  | _ => exact ⟨rfl, fun _ => rfl⟩

/-- The worker only reads `_started`. -/
theorem worker_started {s t : UxScheduler} {a : Act} (hworker : a.ofWorker = true)
    (ht : s.step a = some t) : t.started = s.started := by
  cases step_effect ht with
  | start | stop => cases hworker
  | _ => rfl

/-- Every descriptor has one event, every event a place of its own, and the one that the
worker has found is still there. -/
structure Listed (s : UxScheduler) : Prop where
  addrs : ((keys s.uxeventList).map Prod.fst).Nodup
  ufds : ((keys s.uxeventList).map Prod.snd).Nodup
  found : ∀ addr ready todo, s.worker = .found addr ready todo →
    (addr, ready.ufd) ∈ keys s.uxeventList

section Listed

variable {s t : UxScheduler}

theorem Listed.of_keys (h : s.Listed) (hkeys : keys t.uxeventList = keys s.uxeventList)
    (hfound : ∀ addr ready todo, t.worker = .found addr ready todo → t.worker = s.worker) :
    t.Listed where
  addrs := by rw [hkeys]; exact h.addrs
  ufds := by rw [hkeys]; exact h.ufds
  found addr ready todo hw := by
    rw [hkeys]
    exact h.found addr ready todo ((hfound addr ready todo hw) ▸ hw)

theorem Listed.erase (h : s.Listed) {ufd : Int} {uxe : UxEvent}
    (hfind : find s.uxeventList ufd = some uxe) (hlist : t.uxeventList = s.uxeventList.erase uxe)
    (hworker : t.worker = s.worker) (hapart : ¬ s.Finds ufd) : t.Listed where
  addrs := by
    rw [hlist]
    exact h.addrs.sublist ((List.erase_sublist.map _).map _)
  ufds := by
    rw [hlist]
    exact h.ufds.sublist ((List.erase_sublist.map _).map _)
  found addr ready todo hw := by
    have hw := hworker ▸ hw
    rw [hlist]
    exact (mem_keys_erase hfind h.ufds _).mpr
      ⟨h.found addr ready todo hw, fun he => hapart ⟨addr, ready, todo, hw, he⟩⟩

theorem Listed.rm (h : s.Listed) {c : Caller} {ufd : Int} (ht : s.rm c ufd = some t)
    (hapart : c ≠ .worker → ¬ s.Finds ufd) : t.Listed := by
  obtain ⟨_, hcallback, heffect⟩ := rm_cases ht
  have hnot : ¬ s.Finds ufd := by
    by_cases hc : c = .worker
    · intro hfinds
      obtain ⟨addr, ready, todo, hw, _⟩ := hfinds
      have hin := hcallback hc
      simp [hw, Worker.inCallback] at hin
    · exact hapart hc
  rcases heffect with ⟨_, rfl⟩ | ⟨uxe, hfind, ⟨_, _, rfl⟩ | ⟨_, rfl⟩⟩
  · exact h
  · exact h.erase hfind rfl rfl hnot
  · exact h.erase hfind rfl rfl hnot

/-- A new event comes to lie where no other lies. -/
theorem Listed.append (h : s.Listed) {uxe : UxEvent}
    (hlist : t.uxeventList = s.uxeventList ++ [uxe])
    (hworker : t.worker = s.worker) (haddr : uxe.addr ∉ s.uxeventList.map UxEvent.addr)
    (hufd : find s.uxeventList uxe.ufd = none) : t.Listed := by
  have hkeys : keys t.uxeventList = keys s.uxeventList ++ [(uxe.addr, uxe.ufd)] := by
    rw [hlist, keys, List.map_append]
    rfl
  have hufds := not_mem_keys_of_find hufd
  constructor
  · rw [hkeys, List.map_append]
    refine List.nodup_append.mpr ⟨h.addrs, List.nodup_singleton _, ?_⟩
    intro a ha b hb heq
    subst heq
    obtain ⟨k, hk, rfl⟩ := List.mem_map.mp ha
    obtain ⟨e, he, rfl⟩ := List.mem_map.mp hk
    exact haddr (List.mem_map.mpr ⟨e, he, by simpa using hb⟩)
  · rw [hkeys, List.map_append]
    refine List.nodup_append.mpr ⟨h.ufds, List.nodup_singleton _, ?_⟩
    intro a ha b hb heq
    subst heq
    obtain ⟨k, hk, rfl⟩ := List.mem_map.mp ha
    exact hufds k hk (by simpa using hb)
  · intro addr ready todo hw
    rw [hkeys]
    exact List.mem_append_left _ (h.found addr ready todo (hworker ▸ hw))

theorem Listed.addEvent (h : s.Listed) {addr : Ptr} {ufd : Int} {conditionSet : BitVec 32}
    {proc userdata : Ptr} (haddr : addr ∉ s.uxeventList.map UxEvent.addr)
    (hlist : t.uxeventList = addEvent s.uxeventList addr ufd conditionSet proc userdata)
    (hworker : t.worker = s.worker) : t.Listed := by
  unfold UxScheduler.addEvent at hlist
  split at hlist
  · rename_i hnone
    exact h.append hlist hworker haddr hnone
  · refine h.of_keys ?_ (fun _ _ _ _ => hworker)
    rw [hlist]
    exact keys_replace rfl

theorem Listed.setConditions (h : s.Listed) (ufd : Int) (f : BitVec 32 → BitVec 32) :
    (s.setConditions ufd f).Listed := by
  unfold UxScheduler.setConditions
  split
  · exact h
  · exact h.of_keys (keys_replace rfl) (fun _ _ _ _ => rfl)

/-- Removals by other threads come while the worker is not about to call through the event. -/
theorem Listed.step (h : s.Listed) {a : Act} (ht : s.step a = some t) (ha : a ≠ .clear)
    (hapart : ∀ c ufd, a.removal = some (c, ufd) → c ≠ .worker → ¬ s.Finds ufd) : t.Listed := by
  cases step_effect ht with
  | clear => exact absurd rfl ha
  | rmWaits removal _ waits found =>
    exact h.erase found rfl rfl (hapart _ _ removal waits.2)
  | @rm a c ufd uxe removal inside _ found =>
    refine h.erase found rfl rfl ?_
    by_cases hc : c = .worker
    · rintro ⟨addr, ready, todo, hw, _⟩
      have hin := inside hc
      simp [hw, Worker.inCallback] at hin
    · exact hapart c ufd removal hc
  | add _ fresh => exact h.addEvent fresh rfl rfl
  | disable =>
    rw [disable, ← setConditions_eq]
    exact h.setConditions _ _
  | enable =>
    rw [enable, ← setConditions_eq]
    exact h.setConditions _ _
  | finds round found =>
    refine { h with found := ?_ }
    intro addr ready todo hw
    cases hw
    exact mem_keys_of_find found
  | moves _ _ there =>
    refine h.of_keys rfl (fun addr ready todo hw => ?_)
    cases hw
    cases there
  | start | sleeps | crash | handles | returns | endsRound | takes | calls | skips | ends
  | finish =>
    refine h.of_keys rfl (fun addr ready todo hw => ?_)
    cases hw
  | _ => exact h.of_keys rfl (fun _ _ _ _ => rfl)

end Listed

end UxScheduler

end Awe
