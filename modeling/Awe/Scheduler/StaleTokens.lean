import Awe.Scheduler.Watches

namespace Awe
open Machine
open Heap (Handle)

namespace Scheduler

def Call.onToken : Call → Bool
  | .enable .. | .disable .. | .socktokenDestroy _ => true
  | _ => false

/-- The record a call reads and writes through its token: enable and disable go straight
to it, destroy has to find it in the list first. -/
def accesses (s : Scheduler) : Call → Option Ptr
  | .enable token _ => if !s.started ∨ token = NULL then none else some token
  | .disable token _ => if token = NULL then none else some token
  | .socktokenDestroy token => if token ∈ s.evioList then some token else none
  | _ => none

def strays (s : Scheduler) : Act → Bool
  | .call c => (s.accesses c).any (fun token => token ∉ s.evioList)
  | _ => false

/-- A call that goes to no record changes none, and leaves the loop as it is. -/
theorem call_eq_self {s : Scheduler} {c : Call} (hc : c.onToken = true)
    (h : s.accesses c = none) : s.call c = some s := by
  cases c with
  | enable token events =>
    simp only [accesses] at h
    split at h
    · rename_i hnull
      simp only [call, enable, if_pos hnull]
    · cases h
  | disable token events =>
    simp only [accesses] at h
    split at h
    · rename_i hnull
      simp only [call, disable, if_pos hnull]
    · cases h
  | socktokenDestroy token =>
    simp only [accesses] at h
    split at h
    · cases h
    · rename_i hout
      simp only [call, Scheduler.socktokenDestroy, if_neg hout]
  | _ => cases hc

end Scheduler

/-- The scheduler with the tokens in force: returned by a watch, and neither destroyed
nor overtaken by a stop since. A call that strays ends the run. -/
structure Tokens where
  sched : Scheduler
  inForce : List Ptr
  strayed : Bool

namespace Tokens
open Scheduler

def begin (capacity : Nat) : Tokens := ⟨Scheduler.create capacity, [], false⟩

/-- The tokens in force after `a`, as its caller can tell. -/
def after (x : Tokens) : Act → List Ptr
  | .call (.start thread threadOk a _) =>
    if x.sched.started then x.inForce else if thread && !threadOk then [] else [a]
  | .call .stop => []
  | .call (.watch a ..) => if x.sched.started then a :: x.inForce else x.inForce
  | .call (.socktokenDestroy token) => x.inForce.filter (fun a => a ≠ token)
  | .ioReady w recv =>
    if recv = .error ∧ x.sched.readsTrigger w.addr = true then
      x.inForce.filter (fun a => a ≠ x.sched.triggertoken)
    else x.inForce
  | _ => x.inForce

def step (x : Tokens) (a : Act) : Option Tokens :=
  if x.strayed then none
  else if x.sched.strays a then some { x with strayed := true }
  else (x.sched.step a).map (fun t => ⟨t, x.after a, false⟩)

/-- No call has gone to a record that was not in the list. -/
def Harmless (x : Tokens) : Prop := x.strayed = false

/-- A token that is enabled, in a started scheduler, or disabled is one in force. -/
def Current (x : Tokens) : Act → Prop
  | .call (.enable token _) => x.sched.started = true → token ≠ NULL → token ∈ x.inForce
  | .call (.disable token _) => token ≠ NULL → token ∈ x.inForce
  | _ => True

structure Told (x : Tokens) : Prop where
  kept : x.sched.Kept
  listed : ∀ a, a ∈ x.inForce ↔ a ∈ x.sched.evioList

theorem told_begin (capacity : Nat) : (begin capacity).Told :=
  ⟨kept_create capacity, fun _ => Iff.rfl⟩

section Told

variable {x y : Tokens}

theorem Told.current_iff (h : x.Told) (a : Act) : x.Current a ↔ x.sched.strays a = false := by
  cases a with
  | call c =>
    cases c with
    | enable token events =>
      simp only [Current, strays, accesses, h.listed]
      cases x.sched.started <;> by_cases hnull : token = NULL <;> simp [hnull]
    | disable token events =>
      simp only [Current, strays, accesses, h.listed]
      by_cases hnull : token = NULL <;> simp [hnull]
    | socktokenDestroy token =>
      simp only [Current, strays, accesses]
      by_cases hlist : token ∈ x.sched.evioList <;> simp [hlist]
    | _ => simp [Current, strays, accesses]
  | _ => simp [Current, strays]

theorem socktokenDestroy_list (h : x.Told) (token a : Ptr) :
    a ∈ (x.sched.socktokenDestroy token).evioList ↔ a ∈ x.inForce.filter (fun b => b ≠ token) := by
  rw [List.mem_filter, h.listed]
  unfold Scheduler.socktokenDestroy
  split
  · simp [h.kept.io.nodup.mem_erase_iff, and_comm]
  · rename_i hout
    simp only [decide_eq_true_eq, iff_self_and]
    exact fun ha he => hout (he ▸ ha)

theorem stop_list {s : Scheduler} (hk : s.Kept) : s.stop.evioList = [] := by
  rcases stop_cases hk with ⟨hoff, he⟩ | ⟨_, _, _, _, he⟩ <;> rw [he]
  exact (hk.stopped hoff).1

theorem setEvents_list {s t : Scheduler} {token : Ptr} {f : BitVec 32 → BitVec 32}
    {restart : Bool} (ht : s.setEvents token f restart = some t) : t.evioList = s.evioList := by
  obtain ⟨_, _, _, _, rfl⟩ := setEvents_spec ht
  rfl

theorem Told.listed_start (h : x.Told) {thread threadOk : Bool} {a : Ptr} {fd : Int}
    {t : Scheduler} (ht : x.sched.call (.start thread threadOk a fd) = some t) (b : Ptr) :
    b ∈ x.after (.call (.start thread threadOk a fd)) ↔ b ∈ t.evioList := by
  obtain ⟨⟨status, u⟩, hu, rfl⟩ := Option.map_eq_some_iff.mp ht
  simp only [after]
  rcases start_cases hu with ⟨hon, rfl⟩ | ⟨hoff, heap, halloc, ⟨hok, rfl⟩ | ⟨hfail, rfl⟩⟩
  · rw [if_pos hon]
    exact h.listed b
  · rw [if_neg (by simp [hoff]), if_neg (by simp [hok])]
    simp [opened, (h.kept.stopped hoff).1]
  · rw [if_neg (by simp [hoff]), if_pos hfail]
    simp [stop_list (h.kept.opened halloc)]

theorem Told.listed_call (h : x.Told) {c : Call} {t : Scheduler} (ht : x.sched.call c = some t)
    (b : Ptr) : b ∈ x.after (.call c) ↔ b ∈ t.evioList := by
  cases c with
  | start thread threadOk a fd => exact h.listed_start ht b
  | stop =>
    cases ht
    simp [after, stop_list h.kept]
  | watch a fd events proc userdata =>
    obtain ⟨⟨token, u⟩, hu, rfl⟩ := Option.map_eq_some_iff.mp ht
    simp only [after]
    rcases watch_cases hu with ⟨hoff, _, rfl⟩ | ⟨hon, _, _, heap, halloc, rfl⟩
    · rw [if_neg (by simp [hoff])]
      exact h.listed b
    · rw [if_pos hon, List.mem_cons, List.mem_append, List.mem_singleton, h.listed b, or_comm]
  | enable token events | disable token events =>
    simp only [call, enable, disable] at ht
    split at ht
    · cases ht
      exact h.listed b
    · rw [setEvents_list ht]
      exact h.listed b
  | socktokenDestroy token =>
    cases ht
    exact (socktokenDestroy_list h token b).symm
  | _ =>
    rw [(call_ioFrame h.kept rfl rfl ht).list]
    exact h.listed b

/-- What a caller can tell from its calls agrees with the list after every step. -/
theorem Told.listed_step (h : x.Told) {a : Act} {t : Scheduler} (ht : x.sched.step a = some t)
    (b : Ptr) : b ∈ x.after a ↔ b ∈ t.evioList := by
  cases a with
  | call c => exact h.listed_call ht b
  | fire w =>
    obtain ⟨_, _, _, rfl⟩ := fire_cases ht
    exact h.listed b
  | ret =>
    rw [(ret_ioFrame h.kept ht).list]
    exact h.listed b
  | ioReady w recv =>
    simp only [after]
    rcases ioReady_ioFrame ht with ⟨hrecv, hread, rfl⟩ | ⟨hother, hf⟩
    · rw [if_pos ⟨hrecv, hread⟩]
      exact (socktokenDestroy_list h x.sched.triggertoken b).symm
    · rw [if_neg hother, hf.list]
      exact h.listed b

theorem Told.step (h : x.Told) {a : Act} (hy : x.step a = some y) : y.Told := by
  unfold Tokens.step at hy
  obtain ⟨_, hy⟩ := Option.ite_none_left_eq_some.mp hy
  split at hy
  · cases hy
    exact ⟨h.kept, h.listed⟩
  · obtain ⟨t, ht, rfl⟩ := Option.map_eq_some_iff.mp hy
    exact ⟨h.kept.step ht, h.listed_step ht⟩

theorem Told.harmless_iff (h : x.Told) {a : Act} (hy : x.step a = some y) :
    y.Harmless ↔ x.Current a := by
  rw [h.current_iff]
  unfold Tokens.step at hy
  obtain ⟨_, hy⟩ := Option.ite_none_left_eq_some.mp hy
  split at hy
  · rename_i hstray
    cases hy
    simp [Harmless, hstray]
  · rename_i hstray
    obtain ⟨t, _, rfl⟩ := Option.map_eq_some_iff.mp hy
    simp [Harmless, hstray]

end Told

/-- Every call that is given a token keeps to the listed records exactly as long as
enable and disable are given tokens in force; a call that goes to no record is without
effect. -/
theorem stale_tokens_iff (capacity : Nat) (as : List Act) :
    (Always step Harmless (begin capacity) as ↔ Throughout step Current (begin capacity) as) ∧
      ∀ (s : Scheduler) (c : Call), c.onToken = true → s.accesses c = none →
        s.call c = some s := by
  refine ⟨?_, fun s c hc h => call_eq_self hc h⟩
  have hkeep : ∀ s a m, Told s → Harmless s → Current s a → step s a = some m → Told m :=
    fun _ _ _ h _ _ hy => h.step hy
  exact always_iff_throughout hkeep
    (fun _ _ _ h _ hy => h.harmless_iff hy) (told_begin capacity) rfl as

/-- A descriptor is watched, the scheduler stops, and the owner of the watch disables it. -/
def disabledAfterStop : List Act :=
  [.call (.start false true 100 3), .call (.watch 200 4 AWE_READ 7 0), .call .stop,
    .call (.disable 200 AWE_READ)]

/-- A token that was copied before it was destroyed is enabled. -/
def enabledAfterDestroy : List Act :=
  [.call (.start false true 100 3), .call (.watch 200 4 AWE_READ 7 0),
    .call (.socktokenDestroy 200), .call (.enable 200 AWE_WRITE)]

theorem stale_token_strays : ¬ Always step Harmless (begin 1) disabledAfterStop ∧
    ¬ Always step Harmless (begin 1) enabledAfterDestroy := by
  constructor
  · intro h
    cases ((((h.2 _ rfl).2 _ rfl).2 _ rfl).2 _ rfl)
  · intro h
    cases ((((h.2 _ rfl).2 _ rfl).2 _ rfl).2 _ rfl)

end Tokens

end Awe
