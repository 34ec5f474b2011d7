import Awe.UxScheduler.Registrations
import Awe.UxScheduler.TaskMemory

namespace Awe

namespace EventMem
open UxScheduler (ufdSet listStep registrations)

/-- `uxevent_list_size` -/
def size (m : EventMem) (lhead : Ptr) : Option Nat := do
  let r ← LinkedList.forEach m.rounds (fun _ => m.next) lhead 0 (fun count _ =>
    some (.inl (count + 1)))
  r.elim some (fun n : Empty => nomatch n)

/-- The loop that puts the descriptors into the sets of a round. -/
def ufdSets (m : EventMem) (lhead : Ptr) : Option (List Int × List Int) := do
  let r ← LinkedList.forEach m.rounds (fun _ => m.next) lhead ([], []) (fun sets pos => do
    let uxe ← m.records pos
    let rset := if uxe.conditionSet &&& AWE_READ ≠ 0 then sets.1 ++ [uxe.ufd] else sets.1
    let wset := if uxe.conditionSet &&& AWE_WRITE ≠ 0 then sets.2 ++ [uxe.ufd] else sets.2
    some (.inl (rset, wset)))
  r.elim some (fun n : Empty => nomatch n)

/-- `awe_uxscheduler_clear` -/
def clear (m : EventMem) (lhead : Ptr) : Option EventMem := do
  match ← LinkedList.forEachSafe m.rounds DList.next lhead m DList.delFree with
  | .inl m => some m
  | .inr _ => none

/-- What a scheduler does with its events: the calls that write to the list, the loops of its
worker and its destruction, and the reads of an event's fields. -/
inductive Access where
  | op (op : Op)
  | empty
  | size
  | ufdSets
  | find (ufd : Int)
  | clear
  | load (uxe : Ptr)

inductive Found where
  | done
  | bool (b : Bool)
  | size (n : Nat)
  | sets (rset wset : List Int)
  | event (uxe : Ptr)
  | record (r : EventRecord)
  deriving DecidableEq

/-- `none` where it touches what is no event, or what has been freed. -/
def access (lhead : Ptr) (m : EventMem) : Access → Option (Found × EventMem)
  | .op op => (step lhead m op).map (fun m => (.done, m))
  | .empty => (m.heads.listEmpty lhead).map (fun b => (.bool b, m))
  | .size => (m.size lhead).map (fun n => (.size n, m))
  | .ufdSets => (m.ufdSets lhead).map (fun sets => (.sets sets.1 sets.2, m))
  | .find ufd => (m.find lhead ufd).map (fun uxe => (.event uxe, m))
  | .clear => (m.clear lhead).map (fun m => (.done, m))
  | .load uxe => (m.records uxe).map (fun r => (.record r, m))

section Lists

variable {m : EventMem} {lhead a : Ptr} {list : List UxEvent}

theorem Lists.record (h : m.Lists lhead list) {e : UxEvent} (he : e ∈ list) :
    m.records e.addr = some e.entry.2 :=
  h.holds.records e.entry (List.mem_map_of_mem he)

theorem Lists.empty (h : m.Lists lhead list) :
    access lhead m .empty = some (.bool (decide (list = [])), m) := by
  have hnext := h.holds.next_head
  have hhead := h.holds.head_notMem
  rw [entry_addr] at hnext hhead
  have hempty : (list.map UxEvent.addr).headD lhead = lhead ↔ list = [] := by
    cases list with
    | nil => simp
    | cons e rest => simpa using fun he => hhead (by simp [he])
  simp only [DList.next] at hnext
  simp only [access, LinkedList.listEmpty, hnext, Option.map_some, decide_eq_decide.mpr hempty]

theorem Lists.size (h : m.Lists lhead list) : m.size lhead = some list.length := by
  have hloop : LinkedList.forEach m.rounds (fun _ => m.next) lhead 0 (fun count _ =>
      (some (.inl (count + 1)) : Option (Nat ⊕ Empty))) =
      some (.inl ((list.map UxEvent.entry).map Prod.fst).length) := by
    refine LinkedList.forEach_skip (fun k => k) h.holds.ring.1 h.holds.head_notMem
      (fun _ _ _ => rfl) ?_
    rw [List.length_map]
    exact h.holds.length_lt
  simp [EventMem.size, hloop]

theorem ufdSet_concat (front : List UxEvent) (e : UxEvent) (events : BitVec 32) :
    ufdSet (front ++ [e]) events =
      if e.conditionSet &&& events ≠ 0 then ufdSet front events ++ [e.ufd]
      else ufdSet front events := by
  unfold ufdSet
  rw [List.filter_append, List.map_append]
  by_cases he : e.conditionSet &&& events ≠ 0
  · rw [if_pos he, List.filter_cons_of_pos (by simpa using he)]
    rfl
  · rw [if_neg he, List.filter_cons_of_neg (by simpa using he)]
    exact List.append_nil _

/-- The loop carries the sets of the events it has passed. -/
theorem Lists.ufdSets (h : m.Lists lhead list) :
    m.ufdSets lhead = some (ufdSet list AWE_READ, ufdSet list AWE_WRITE) := by
  have hhead := h.holds.head_notMem
  have hseg := h.holds.ring.1
  rw [entry_addr] at hhead hseg
  have hloop : LinkedList.forEach m.rounds (fun _ => m.next) lhead
      (([], []) : List Int × List Int) (fun sets pos => do
        let uxe ← m.records pos
        let rset := if uxe.conditionSet &&& AWE_READ ≠ 0 then sets.1 ++ [uxe.ufd] else sets.1
        let wset := if uxe.conditionSet &&& AWE_WRITE ≠ 0 then sets.2 ++ [uxe.ufd] else sets.2
        (some (.inl (rset, wset)) : Option (List Int × List Int ⊕ Empty))) =
      some (.inl (ufdSet (list.take (list.map UxEvent.addr).length) AWE_READ,
        ufdSet (list.take (list.map UxEvent.addr).length) AWE_WRITE)) := by
    refine LinkedList.forEach_skip (fun k => (ufdSet (list.take k) AWE_READ,
      ufdSet (list.take k) AWE_WRITE)) hseg hhead ?_ ?_
    · intro k y hy
      rw [List.getElem?_map] at hy
      obtain ⟨e, he, rfl⟩ := Option.map_eq_some_iff.mp hy
      have htake : list.take (k + 1) = list.take k ++ [e] := by
        rw [List.take_add_one, he]
        rfl
      rw [htake, ufdSet_concat, ufdSet_concat, h.record (List.mem_of_getElem? he)]
      rfl
    · rw [List.length_map]
      have hlength := h.holds.length_lt
      rwa [List.length_map] at hlength
  rw [List.length_map, List.take_length] at hloop
  simp only [Option.bind_eq_bind] at hloop
  simp only [EventMem.ufdSets, hloop, Option.bind_eq_bind, Option.bind_some]
  rfl

theorem Lists.clear (h : m.Lists lhead list) :
    ∃ m', m.clear lhead = some m' ∧ m'.Lists lhead [] := by
  obtain ⟨pos, n, m', hpos, hn, hloop, hm', hrec⟩ := h.holds.clearLoop h.holds.length_lt
  refine ⟨m', ?_, hm', ?_⟩
  · simp [EventMem.clear, LinkedList.forEachSafe, hpos, hn, hloop]
  · intro b
    rw [hrec, entry_addr]
    split
    · simp
    · rename_i hout
      exact iff_of_false (fun hs => hout ((h.listed b).mp hs)) (by simp)

/-- An event is there to be read as long as it is listed. -/
theorem Lists.load (h : m.Lists lhead list) (a : Ptr) :
    m.records a = (list.find? (fun e => e.addr = a)).map (fun e => e.entry.2) := by
  cases hfind : list.find? (fun e => e.addr = a) with
  | none =>
    have hout : a ∉ list.map UxEvent.addr := by
      intro hm
      obtain ⟨e, he, rfl⟩ := List.mem_map.mp hm
      simpa using List.find?_eq_none.mp hfind e he
    exact Option.not_isSome_iff_eq_none.mp (fun hs => hout ((h.listed a).mp hs))
  | some e =>
    have haddr : e.addr = a := by simpa using List.find?_some hfind
    rw [← haddr]
    exact h.record (List.mem_of_find?_eq_some hfind)

end Lists

end EventMem

namespace UxScheduler
open Machine
open EventMem (Access Found)

/-- What an action does with the event list in memory, in the order it does it. -/
def eventAccesses (s : UxScheduler) : Act → List Access
  | .clear => [.clear]
  | .guard => if s.started then [.empty] else []
  | .prepare _ => [.size, .ufdSets]
  | .dispatch =>
    match s.worker with
    | .dispatch (ready :: _) => [.find ready.ufd]
    | _ => []
  | .handle =>
    match s.worker with
    | .found addr _ _ => [.load addr]
    | _ => []
  | a => (a.op.map Access.op).toList

def eventAnswers (s : UxScheduler) : Act → List Found
  | .clear => [.done]
  | .guard => if s.started then [.bool (decide (s.uxeventList = []))] else []
  | .prepare _ =>
    [.size s.uxeventList.length,
      .sets (ufdSet s.uxeventList AWE_READ) (ufdSet s.uxeventList AWE_WRITE)]
  | .dispatch =>
    match s.worker with
    | .dispatch (ready :: _) => [.event ((find s.uxeventList ready.ufd).elim NULL UxEvent.addr)]
    | _ => []
  | .handle =>
    match s.worker with
    | .found addr _ _ =>
      ((s.uxeventList.find? (fun e => e.addr = addr)).map (fun e => .record e.entry.2)).toList
    | _ => []
  | a => (a.op.map (fun _ => .done)).toList

/-- The events of a scheduler that goes on are what its memory holds. -/
structure EventsIn (lhead : Ptr) (m : EventMem) (s : UxScheduler) : Prop where
  one : s.OneWorker
  safe : s.worker ≠ .crashed
  lists : m.Lists lhead s.uxeventList

theorem eventsIn_create (lhead : Ptr) : EventsIn lhead (DList.init lhead) create :=
  ⟨oneWorker_create, by simp [create], EventMem.lists_init lhead⟩

/-- An action finds the events it should and leaves them in memory. -/
def EventsFound (lhead : Ptr) (m : EventMem) (s : UxScheduler) (a : Act) (t : UxScheduler) :
    Prop :=
  ∃ m', Transducer.exec (EventMem.access lhead) m (s.eventAccesses a) =
    some (s.eventAnswers a, m') ∧ EventsIn lhead m' t

/-- Everything but the loops of the worker and the destruction: a call that writes to the
list, or nothing. -/
def Act.calls : Act → Bool
  | .clear | .guard | .prepare _ | .dispatch | .handle => false
  | _ => true

/-- Only the call of an event can crash the worker. -/
theorem crashes {s t : UxScheduler} {a : Act} (ht : s.step a = some t)
    (hcrash : t.worker = .crashed) : s.worker = .crashed ∨ a = .handle := by
  cases step_effect ht with
  | crash => exact Or.inr rfl
  | moves _ _ there =>
    cases hcrash
    cases there
  | start | sleeps | finds | handles | returns | endsRound | takes | calls | skips | ends
  | finish => cases hcrash
  | _ => exact Or.inl hcrash

section EventsIn

variable {lhead : Ptr} {m : EventMem} {s t : UxScheduler} {a : Act}

theorem EventsIn.alive (h : EventsIn lhead m s) (ht : s.step a = some t) (ha : a ≠ .handle) :
    t.worker ≠ .crashed := by
  intro hcrash
  rcases crashes ht hcrash with hw | rfl
  · exact h.safe hw
  · exact ha rfl

/-- The address of a new event is one that the allocator can give. -/
theorem EventsIn.usable {tasks : Ptr} (h : EventsIn lhead m s) (ha : a.Apart tasks lhead)
    (ht : s.step a = some t) {op : EventMem.Op} (hop : a.op = some op) :
    ¬ m.Unusable lhead (registrations s.uxeventList) op := by
  cases a with
  | add c addr ufd conditionSet proc userdata pick =>
    cases hop
    intro hused
    obtain ⟨hufd, hset, _, haddr⟩ := hused
    rcases add_cases (step_act ht) with ⟨hzero, _⟩ | ⟨_, hnone, _⟩ | ⟨cond, _, _, hnew, _⟩
    · exact hufd hzero
    · exact hset hnone
    · rcases haddr with rfl | rfl | hsome
      · have ht := step_act ht
        simp only [act, UxScheduler.add, if_neg hufd, if_neg hset] at ht
        simp at ht
      · exact ha rfl
      · exact hnew ((h.lists.listed addr).mp hsome)
  | rm | disable | enable =>
    cases hop
    exact id
  | _ => cases hop

theorem EventsIn.call {tasks : Ptr} (h : EventsIn lhead m s) (ha : a.Apart tasks lhead)
    (hcalls : a.calls = true) (ht : s.step a = some t) : EventsFound lhead m s a t := by
  have hhandle : a ≠ .handle := by
    rintro rfl
    cases hcalls
  have hclear : a ≠ .clear := by
    rintro rfl
    cases hcalls
  have hlist := step_list ht hclear
  have hdone : s.eventAccesses a = (a.op.map Access.op).toList ∧
      s.eventAnswers a = (a.op.map (fun _ => Found.done)).toList := by
    cases a <;> first | exact ⟨rfl, rfl⟩ | cases hcalls
  have hone := h.one.step ht
  have hsafe := h.alive ht hhandle
  cases hop : a.op with
  | none =>
    rw [hop, Option.elim_none] at hlist
    refine ⟨m, by rw [hdone.1, hdone.2, hop]; rfl, hone, hsafe, ?_⟩
    rw [hlist]
    exact h.lists
  | some op =>
    rw [hop, Option.elim_some] at hlist
    rcases h.lists.step op with ⟨m', hm, hlists⟩ | ⟨_, hused⟩
    · refine ⟨m', ?_, hone, hsafe, by rwa [hlist]⟩
      rw [hdone.1, hdone.2, hop]
      simp [Transducer.exec, EventMem.access, hm]
    · exact absurd hused (h.usable ha ht hop)

theorem EventsIn.clear (h : EventsIn lhead m s) (ht : s.step .clear = some t) :
    EventsFound lhead m s .clear t := by
  have hone := h.one.step ht
  cases step_act ht
  obtain ⟨m', hm, hk⟩ := h.lists.clear
  refine ⟨m', ?_, hone, h.safe, hk⟩
  simp [eventAccesses, eventAnswers, Transducer.exec, EventMem.access, hm]

theorem EventsIn.guard (h : EventsIn lhead m s) (ht : s.step .guard = some t) :
    EventsFound lhead m s .guard t := by
  have hstate : t.worker ≠ .crashed ∧ t.uxeventList = s.uxeventList := by
    have ht := step_act ht
    simp only [act, UxScheduler.guard] at ht
    repeat' first | split at ht | cases ht
    all_goals exact ⟨by simp, rfl⟩
  refine ⟨m, ?_, h.one.step ht, hstate.1, hstate.2 ▸ h.lists⟩
  by_cases hst : s.started = true <;>
    simp [eventAccesses, eventAnswers, hst, Transducer.exec, h.lists.empty]

/-- A round sees the descriptors of the events there are. -/
theorem EventsIn.prepare {now : ClockMs} (h : EventsIn lhead m s)
    (ht : s.step (.prepare now) = some t) : EventsFound lhead m s (.prepare now) t := by
  have hstate : t.worker ≠ .crashed ∧ t.uxeventList = s.uxeventList := by
    have ht := step_act ht
    simp only [act, UxScheduler.prepare] at ht
    split at ht <;> cases ht
    exact ⟨by simp, rfl⟩
  refine ⟨m, ?_, h.one.step ht, hstate.1, hstate.2 ▸ h.lists⟩
  simp [eventAccesses, eventAnswers, Transducer.exec, EventMem.access, h.lists.size,
    h.lists.ufdSets]

theorem EventsIn.dispatch (h : EventsIn lhead m s) (ht : s.step .dispatch = some t) :
    EventsFound lhead m s .dispatch t := by
  have hone := h.one.step ht
  have ht := step_act ht
  simp only [act, UxScheduler.dispatch] at ht
  split at ht
  · rename_i hw
    cases ht
    refine ⟨m, ?_, hone, by simp, h.lists⟩
    simp [eventAccesses, eventAnswers, hw, Transducer.exec]
  · rename_i ready todo hw
    have hfound : Transducer.exec (EventMem.access lhead) m (s.eventAccesses .dispatch) =
        some (s.eventAnswers .dispatch, m) := by
      simp [eventAccesses, eventAnswers, hw, Transducer.exec, EventMem.access, h.lists.find]
    split at ht
    · cases ht
      exact ⟨m, hfound, hone, by simp, h.lists⟩
    · cases ht
      exact ⟨m, hfound, hone, by simp, h.lists⟩
  · cases ht

theorem EventsIn.handle (h : EventsIn lhead m s) (ht : s.step .handle = some t)
    (hsafe : t.worker ≠ .crashed) : EventsFound lhead m s .handle t := by
  have hone := h.one.step ht
  have ht := step_act ht
  simp only [act, UxScheduler.handle] at ht
  split at ht
  · rename_i addr ready todo hw
    split at ht
    · cases ht
      exact absurd rfl hsafe
    · rename_i uxe hfind
      obtain ⟨_, ht⟩ := Option.ite_none_left_eq_some.mp ht
      cases ht
      refine ⟨m, ?_, hone, hsafe, h.lists⟩
      simp [eventAccesses, eventAnswers, hw, hfind, Transducer.exec, EventMem.access, h.lists.load]
  · cases ht

/-- The event found was freed before the worker came to call it. -/
theorem EventsIn.handle_fault (h : EventsIn lhead m s) (ht : s.step .handle = some t)
    (hcrash : t.worker = .crashed) :
    Transducer.exec (EventMem.access lhead) m (s.eventAccesses .handle) = none := by
  have ht := step_act ht
  simp only [act, UxScheduler.handle] at ht
  split at ht
  · rename_i addr ready todo hw
    split at ht
    · rename_i hfind
      simp [eventAccesses, hw, Transducer.exec, EventMem.access, h.lists.load, hfind]
    · obtain ⟨_, ht⟩ := Option.ite_none_left_eq_some.mp ht
      cases ht
      cases hcrash
  · cases ht

theorem EventsIn.other {tasks : Ptr} (h : EventsIn lhead m s) (ha : a.Apart tasks lhead)
    (hhandle : a ≠ .handle) (ht : s.step a = some t) : EventsFound lhead m s a t := by
  cases a with
  | clear => exact h.clear ht
  | guard => exact h.guard ht
  | prepare now => exact h.prepare ht
  | dispatch => exact h.dispatch ht
  | handle => exact absurd rfl hhandle
  | _ => exact h.call ha rfl ht

/-- No step gets a worker out of what it has crashed in. -/
theorem crashed_stuck (hone : s.OneWorker) (hw : s.worker = .crashed) (ht : s.step a = some t) :
    t.worker = .crashed := by
  cases step_effect ht with
  | start _ free =>
    have hnone := hone.no_worker free
    rw [hw] at hnone
    cases hnone
  | moves _ here =>
    rw [hw] at here
    cases here
  | sleeps here => simp [hw] at here
  | finds hat | crash hat | handles hat | returns hat | endsRound hat | takes hat | calls hat
  | skips hat | ends hat | finish hat => exact absurd (hw.symm.trans hat) nofun
  | _ => exact hw

end EventsIn

/-- Only the call of an event can find it gone. -/
theorem drives_events (tasks events : Ptr) :
    Drives step (fun _ a => a.Apart tasks events) (fun s => s.OneWorker ∧ s.worker = .crashed)
      (EventMem.access events) eventAccesses eventAnswers (EventsIn events) where
  whole _ _ h hbroken := h.safe hbroken.2
  answered m s a t h ha ht hsafe := by
    have hlive : t.worker ≠ .crashed := fun hw => hsafe ⟨h.one.step ht, hw⟩
    by_cases hhandle : a = .handle
    · subst hhandle
      exact h.handle ht hlive
    · exact h.other ha hhandle ht
  fault m s a t h ha ht hbroken := by
    by_cases hhandle : a = .handle
    · subst hhandle
      exact h.handle_fault ht hbroken.2
    · obtain ⟨_, _, hin⟩ := h.other ha hhandle ht
      exact absurd hbroken.2 hin.safe
  stuck _ _ _ h ht := ⟨h.1.step ht, crashed_stuck h.1 h.2 ht⟩

/-- In every run the pointers of both lists do in memory what the lists of tasks and events
say, and the tasks are never read or freed but where they are. The events are not either, in
a run that goes on; a run crashes exactly where the worker calls an event that somebody has
freed since it was found. -/
theorem lists_in_memory {tasks events : Ptr} {as : List Act} {s : UxScheduler}
    (hr : run step create as = some s) (hapart : ∀ a ∈ as, a.Apart tasks events) :
    (∃ m p, Transducer.exec (TaskMem.access tasks) (DList.init tasks)
          (trace step taskAccesses create as) = some (trace step taskAnswers create as, m) ∧
        m.Keeps tasks s.ledger p) ∧
    (s.worker ≠ .crashed → ∃ m, Transducer.exec (EventMem.access events) (DList.init events)
          (trace step eventAccesses create as) = some (trace step eventAnswers create as, m) ∧
        m.Lists events s.uxeventList) ∧
    (s.worker = .crashed → Transducer.exec (EventMem.access events) (DList.init events)
        (trace step eventAccesses create as) = none) := by
  have hp : Throughout step (fun _ a => Act.Apart tasks events a) create as :=
    throughout_of_mem (fun _ a ha => hapart a ha) create
  refine ⟨?_, fun hsafe => ?_, fun hcrash => ?_⟩
  · obtain ⟨m, hm, hin⟩ := (drives_tasks tasks events).run (tasksIn_create tasks) hp hr id
    obtain ⟨p, hk⟩ := hin.kept
    exact ⟨m, p, hm, hk⟩
  · obtain ⟨m, hm, hin⟩ := (drives_events tasks events).run (eventsIn_create events) hp hr
      (fun h => hsafe h.2)
    exact ⟨m, hm, hin.lists⟩
  · exact (drives_events tasks events).run_fault (eventsIn_create events) hp hr
      ⟨oneWorker hr, hcrash⟩

def oneCall : List Act :=
  [.start (DelayMs.ofInt32 1000), .startStore, .startStore,
    .add (.thread 1) 200 7 AWE_READ 9 0 none,
    .post ⟨timeMs 0, DelayMs.ofInt32 0, 100, 8, 0, 1⟩ none,
    .testExit, .guard, .testStarted, .prepare (timeMs 0), .select 1 [7] [], .dispatch, .handle,
    .handlerReturn, .dispatch, .endRound (timeMs 0), .testTask, .procReturn]

/-- In the next round the event is removed between the search that finds it and its call. -/
def thenFreed : List Act :=
  oneCall ++ [.testExit, .guard, .testStarted, .prepare (timeMs 0), .select 1 [7] [], .dispatch,
    .rm (.thread 1) 7, .handle]

theorem one_call_in_memory :
    (∃ s m, run step create oneCall = some s ∧
      Transducer.exec (EventMem.access 50) (DList.init 50)
          (trace step eventAccesses create oneCall) =
        some ([.done, .bool false, .size 1, .sets [7] [], .event 200, .record ⟨7, AWE_READ, 9, 0⟩],
          m) ∧ m.Lists 50 s.uxeventList) ∧
    ∃ s m p, run step create thenFreed = some s ∧ s.worker = .crashed ∧
      Transducer.exec (TaskMem.access 60) (DList.init 60)
          (trace step taskAccesses create thenFreed) =
        some (trace step taskAnswers create thenFreed, m) ∧ m.Keeps 60 s.ledger p ∧
      Transducer.exec (EventMem.access 50) (DList.init 50)
        (trace step eventAccesses create thenFreed) = none := by
  constructor
  · obtain ⟨m, hm, hk⟩ := (@lists_in_memory 60 50 oneCall _ rfl (by decide)).2.1 (by simp)
    exact ⟨_, m, rfl, hm, hk⟩
  · obtain ⟨⟨m, p, hm, hk⟩, _, hfault⟩ := @lists_in_memory 60 50 thenFreed _ rfl (by decide)
    exact ⟨_, m, p, rfl, rfl, hm, hk, hfault rfl⟩

end UxScheduler

end Awe
