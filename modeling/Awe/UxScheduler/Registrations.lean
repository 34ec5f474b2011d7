import Awe.DList
import Awe.UxScheduler.Events

namespace Awe

/-- `struct uxevent` less its `_head`. -/
structure EventRecord where
  ufd : Int
  conditionSet : BitVec 32
  proc : Ptr
  userdata : Ptr
  deriving DecidableEq

/-- The `_uxevent_list` of a scheduler and the events in memory. -/
abbrev EventMem := DList EventRecord

namespace EventMem

def find (m : EventMem) (lhead : Ptr) (ufd : Int) : Option Ptr := do
  let r ← LinkedList.forEach m.rounds (fun _ => m.next) lhead () (fun _ pos => do
    let entry ← m.records pos
    some (if entry.ufd = ufd then .inr pos else .inl ()))
  some (r.elim (fun _ => NULL) id)

def rm (m : EventMem) (lhead : Ptr) (ufd : Int) : Option EventMem := do
  let uxe ← m.find lhead ufd
  if uxe = NULL then some m
  else
    let m ← m.del uxe
    m.free uxe

/-- What `awe_uxscheduler_add` does; `a` is where a new event comes to lie. -/
def add (m : EventMem) (lhead a : Ptr) (ufd : Int) (conditionSet : BitVec 32)
    (proc userdata : Ptr) : Option (Status × EventMem) :=
  if ufd = 0 then some (-1, m)
  else if conditionSet = 0 then (m.rm lhead ufd).map (fun m => (AWE_OK, m))
  else do
    let uxe ← m.find lhead ufd
    if uxe = NULL then
      let m ← m.create a ⟨ufd, conditionSet, proc, userdata⟩
      let m ← m.addTail a lhead
      some (AWE_OK, m)
    else
      let m ← m.modify uxe (fun e =>
        { e with conditionSet := conditionSet, proc := proc, userdata := userdata })
      some (AWE_OK, m)

def setConditions (m : EventMem) (lhead : Ptr) (ufd : Int) (f : BitVec 32 → BitVec 32) :
    Option EventMem := do
  let uxe ← m.find lhead ufd
  if uxe = NULL then some m
  else m.modify uxe (fun e => { e with conditionSet := f e.conditionSet })

def disable (m : EventMem) (lhead : Ptr) (ufd : Int) (events : BitVec 32) : Option EventMem :=
  m.setConditions lhead ufd (· &&& ~~~events)

def enable (m : EventMem) (lhead : Ptr) (ufd : Int) (events : BitVec 32) : Option EventMem :=
  m.setConditions lhead ufd (· ||| events)

/-- The calls that write to the list, each in one critical section. -/
inductive Op where
  | add (a : Ptr) (ufd : Int) (conditionSet : BitVec 32) (proc userdata : Ptr)
  | rm (ufd : Int)
  | disable (ufd : Int) (events : BitVec 32)
  | enable (ufd : Int) (events : BitVec 32)

def step (lhead : Ptr) (m : EventMem) : Op → Option EventMem
  | .add a ufd conditionSet proc userdata =>
    (m.add lhead a ufd conditionSet proc userdata).map Prod.snd
  | .rm ufd => m.rm lhead ufd
  | .disable ufd events => m.disable lhead ufd events
  | .enable ufd events => m.enable lhead ufd events

end EventMem

structure Registration where
  conditionSet : BitVec 32
  proc : Ptr
  userdata : Ptr
  deriving DecidableEq

/-- What the list is for: a map from descriptors. -/
abbrev Registrations := Int → Option Registration

namespace Registrations

def empty : Registrations := fun _ => none

def setConditions (r : Registrations) (ufd : Int) (f : BitVec 32 → BitVec 32) : Registrations :=
  Function.update r ufd ((r ufd).map (fun e => { e with conditionSet := f e.conditionSet }))

def step (r : Registrations) : EventMem.Op → Registrations
  | .add _ ufd conditionSet proc userdata =>
    if ufd = 0 then r
    else Function.update r ufd
      (if conditionSet = 0 then none else some ⟨conditionSet, proc, userdata⟩)
  | .rm ufd => Function.update r ufd none
  | .disable ufd events => r.setConditions ufd (· &&& ~~~events)
  | .enable ufd events => r.setConditions ufd (· ||| events)

end Registrations

def UxEvent.entry (e : UxEvent) : Ptr × EventRecord :=
  (e.addr, ⟨e.ufd, e.conditionSet, e.proc, e.userdata⟩)

def UxEvent.registration (e : UxEvent) : Registration := ⟨e.conditionSet, e.proc, e.userdata⟩

namespace UxScheduler
open EventMem (Op)

def rmEvent (list : List UxEvent) (ufd : Int) : List UxEvent :=
  (find list ufd).elim list list.erase

def changeEvent (list : List UxEvent) (ufd : Int) (f : BitVec 32 → BitVec 32) : List UxEvent :=
  (find list ufd).elim list
    (fun uxe => list.replace uxe { uxe with conditionSet := f uxe.conditionSet })

def listStep (list : List UxEvent) : Op → List UxEvent
  | .add a ufd conditionSet proc userdata =>
    if ufd = 0 then list
    else if conditionSet = 0 then rmEvent list ufd
    else addEvent list a ufd conditionSet proc userdata
  | .rm ufd => rmEvent list ufd
  | .disable ufd events => changeEvent list ufd (· &&& ~~~events)
  | .enable ufd events => changeEvent list ufd (· ||| events)

def registrations (list : List UxEvent) : Registrations :=
  fun ufd => (find list ufd).map UxEvent.registration

/-- The call that an action of the scheduler makes on the list. -/
def Act.op : Act → Option Op
  | .add _ addr ufd conditionSet proc userdata _ => some (.add addr ufd conditionSet proc userdata)
  | .rm _ ufd => some (.rm ufd)
  | .disable ufd events => some (.disable ufd events)
  | .enable ufd events => some (.enable ufd events)
  | _ => none

theorem setConditions_list (s : UxScheduler) (ufd : Int) (f : BitVec 32 → BitVec 32) :
    (s.setConditions ufd f).uxeventList = changeEvent s.uxeventList ufd f := by
  unfold setConditions changeEvent
  cases find s.uxeventList ufd <;> rfl

theorem op_of_removal {list : List UxEvent} {a : Act} {c : Caller} {ufd : Int}
    (h : a.removal = some (c, ufd)) : a.op.elim list (listStep list) = rmEvent list ufd := by
  cases a with
  | rm =>
    cases h
    rfl
  | add c' addr ufd' conditionSet proc userdata pick =>
    obtain ⟨hremoves, h⟩ := Option.ite_none_right_eq_some.mp h
    cases h
    exact (if_neg hremoves.1).trans (if_pos hremoves.2)
  | _ => cases h

theorem op_of_ofWorker {a : Act} (h : a.ofWorker) : a.op = none := by
  cases a <;> first | rfl | cases h

/-- The scheduler's list goes through these calls and, at its destruction, is emptied. -/
theorem step_list {s t : UxScheduler} {a : Act} (ht : s.step a = some t) (hclear : a ≠ .clear) :
    t.uxeventList = a.op.elim s.uxeventList (listStep s.uxeventList) := by
  cases step_effect ht with
  | clear => exact absurd rfl hclear
  | same ignored =>
    cases ignored with
    | rm removal absent => simp [op_of_removal removal, rmEvent, absent]
    | _ => rfl
  | rmWaits removal _ _ found | rm removal _ _ found =>
    simp [op_of_removal removal, rmEvent, found]
  | add named => exact ((if_neg named.1).trans (if_neg named.2)).symm
  | disable | enable => exact setConditions_list s _ _
  | moves work => rw [op_of_ofWorker work, Option.elim_none]
  | _ => rfl

section Lists

variable {list : List UxEvent} {ufd : Int} {uxe : UxEvent}

theorem find_none (h : find list ufd = none) : ∀ e ∈ list, e.ufd ≠ ufd := by
  intro e he
  simpa using List.find?_eq_none.mp h e he

/-- The event found, between those before it and those after. -/
theorem find_split (h : find list ufd = some uxe) :
    uxe.ufd = ufd ∧ ∃ front rear, list = front ++ uxe :: rear ∧
      list.erase uxe = front ++ rear ∧ ∀ e, list.replace uxe e = front ++ e :: rear := by
  obtain ⟨hufd, front, rear, rfl, hfront⟩ := List.find?_eq_some_iff_append.mp h
  have hufd : uxe.ufd = ufd := by simpa using hufd
  have hnot : uxe ∉ front := by
    intro hm
    have := hfront uxe hm
    simp [hufd] at this
  refine ⟨hufd, front, rear, rfl, ?_, fun e => ?_⟩
  · rw [List.erase_append_right _ hnot, List.erase_cons_head]
  · rw [List.replace_append_right hnot, List.replace_cons_self]

theorem registrations_nil : registrations [] = Registrations.empty := rfl

theorem registrations_append (front rear : List UxEvent) (ufd : Int) :
    registrations (front ++ rear) ufd = (registrations front ufd).or (registrations rear ufd) := by
  unfold registrations find
  rw [List.find?_append, Option.map_or]

theorem registrations_cons (e : UxEvent) (list : List UxEvent) :
    registrations (e :: list) =
      Function.update (registrations list) e.ufd (some e.registration) := by
  funext ufd
  unfold registrations find
  by_cases hu : ufd = e.ufd
  · simp [hu]
  · simp [hu, Ne.symm hu]

theorem registrations_none (h : ∀ e ∈ list, e.ufd ≠ ufd) : registrations list ufd = none := by
  have hfind : find list ufd = none := List.find?_eq_none.mpr (fun e he => by simpa using h e he)
  rw [registrations, hfind]
  rfl

structure Keyed (list : List UxEvent) : Prop where
  ufds : (list.map UxEvent.ufd).Nodup
  nonzero : ∀ e ∈ list, e.ufd ≠ 0

/-- The middle of a list read as a map. -/
theorem Keyed.registrations_middle {front rear : List UxEvent}
    (h : Keyed (front ++ uxe :: rear)) :
    registrations (front ++ rear) = Function.update (registrations (front ++ uxe :: rear)) uxe.ufd
      none ∧
    ∀ e, e.ufd = uxe.ufd → registrations (front ++ e :: rear) =
      Function.update (registrations (front ++ uxe :: rear)) uxe.ufd (some e.registration) := by
  have hnodup := h.ufds
  rw [List.map_append, List.map_cons] at hnodup
  have hother := (List.nodup_cons.mp (List.perm_middle.nodup_iff.mp hnodup)).1
  rw [← List.map_append] at hother
  have hfront : registrations front uxe.ufd = none := registrations_none (fun e he heq =>
    hother (List.mem_map.mpr ⟨e, List.mem_append_left _ he, heq⟩))
  have hrear : registrations rear uxe.ufd = none := registrations_none (fun e he heq =>
    hother (List.mem_map.mpr ⟨e, List.mem_append_right _ he, heq⟩))
  constructor
  · funext ufd
    by_cases hu : ufd = uxe.ufd
    · simp [hu, registrations_append, hfront, hrear]
    · simp [hu, registrations_append, registrations_cons]
  · intro e he
    funext ufd
    by_cases hu : ufd = uxe.ufd
    · simp [hu, registrations_append, registrations_cons, hfront, he]
    · simp [hu, registrations_append, registrations_cons, he]

theorem Keyed.erase (h : Keyed list) (ufd : Int) :
    Keyed (rmEvent list ufd) ∧
      registrations (rmEvent list ufd) = Function.update (registrations list) ufd none := by
  unfold rmEvent
  cases hfind : find list ufd with
  | none =>
    refine ⟨h, ?_⟩
    rw [Option.elim_none, Function.update_eq_self_iff.mpr]
    exact (registrations_none (find_none hfind)).symm
  | some uxe =>
    obtain ⟨hufd, front, rear, rfl, herase, _⟩ := find_split hfind
    rw [Option.elim_some, herase]
    have hsub : (front ++ rear).Sublist (front ++ uxe :: rear) :=
      (List.sublist_cons_self uxe rear).append_left front
    refine ⟨⟨h.ufds.sublist (hsub.map _), fun e he => h.nonzero e (hsub.subset he)⟩, ?_⟩
    rw [h.registrations_middle.1, hufd]

/-- An event rewritten in place, for the descriptor it had. -/
theorem Keyed.replace (h : Keyed list) (hfind : find list ufd = some uxe) {e : UxEvent}
    (he : e.ufd = uxe.ufd) :
    Keyed (list.replace uxe e) ∧ registrations (list.replace uxe e) =
      Function.update (registrations list) ufd (some e.registration) := by
  obtain ⟨hufd, front, rear, rfl, _, hreplace⟩ := find_split hfind
  rw [hreplace, h.registrations_middle.2 e he, hufd]
  refine ⟨⟨?_, ?_⟩, rfl⟩
  · have := h.ufds
    rw [List.map_append, List.map_cons] at this ⊢
    rwa [he]
  · intro f hf
    rcases List.mem_append.mp hf with hf | hf
    · exact h.nonzero f (List.mem_append_left _ hf)
    · rcases List.mem_cons.mp hf with rfl | hf
      · rw [he]
        exact h.nonzero uxe (by simp)
      · exact h.nonzero f (by simp [hf])

theorem Keyed.change (h : Keyed list) (ufd : Int) (f : BitVec 32 → BitVec 32) :
    Keyed (changeEvent list ufd f) ∧
      registrations (changeEvent list ufd f) = (registrations list).setConditions ufd f := by
  unfold changeEvent Registrations.setConditions
  cases hfind : find list ufd with
  | none =>
    refine ⟨h, ?_⟩
    rw [Option.elim_none, registrations_none (find_none hfind), Option.map_none,
      Function.update_eq_self_iff.mpr]
    exact (registrations_none (find_none hfind)).symm
  | some uxe =>
    have hreg : registrations list ufd = some uxe.registration := by simp [registrations, hfind]
    rw [Option.elim_some, hreg]
    exact h.replace hfind rfl

theorem Keyed.add (h : Keyed list) (addr : Ptr) {ufd : Int} (hufd : ufd ≠ 0)
    (conditionSet : BitVec 32) (proc userdata : Ptr) :
    Keyed (addEvent list addr ufd conditionSet proc userdata) ∧
      registrations (addEvent list addr ufd conditionSet proc userdata) =
        Function.update (registrations list) ufd (some ⟨conditionSet, proc, userdata⟩) := by
  unfold addEvent
  split
  · rename_i hfind
    have habsent := find_none hfind
    refine ⟨⟨?_, ?_⟩, ?_⟩
    · rw [List.map_append, List.map_singleton]
      refine List.nodup_append.mpr ⟨h.ufds, List.nodup_singleton _, ?_⟩
      intro a ha b hb heq
      obtain ⟨e, he, rfl⟩ := List.mem_map.mp ha
      exact habsent e he (heq.trans (List.mem_singleton.mp hb))
    · intro e he
      rcases List.mem_append.mp he with he | he
      · exact h.nonzero e he
      · rw [List.mem_singleton.mp he]
        exact hufd
    · funext u
      by_cases hu : u = ufd
      · simp [hu, registrations_append, registrations_cons, registrations_none habsent,
          UxEvent.registration]
      · simp [hu, registrations_append, registrations_cons, registrations_nil, Registrations.empty]
  · rename_i uxe hfind
    exact h.replace hfind rfl

/-- What the calls do to the list they do to the map. -/
theorem Keyed.step (h : Keyed list) (op : Op) :
    Keyed (listStep list op) ∧ registrations (listStep list op) = (registrations list).step op := by
  cases op with
  | add a ufd conditionSet proc userdata =>
    by_cases hufd : ufd = 0
    · simp only [listStep, Registrations.step, if_pos hufd]
      exact ⟨h, trivial⟩
    · simp only [listStep, Registrations.step, if_neg hufd]
      by_cases hset : conditionSet = 0
      · rw [if_pos hset, if_pos hset]
        exact h.erase ufd
      · rw [if_neg hset, if_neg hset]
        exact h.add a hufd conditionSet proc userdata
  | rm ufd => exact h.erase ufd
  | disable ufd events => exact h.change ufd (· &&& ~~~events)
  | enable ufd events => exact h.change ufd (· ||| events)

end Lists

end UxScheduler

namespace EventMem
open UxScheduler (rmEvent changeEvent addEvent listStep registrations Keyed find_split)

/-- The list in memory is `list`, and there is no event beside it. -/
structure Lists (m : EventMem) (lhead : Ptr) (list : List UxEvent) : Prop where
  holds : m.Holds lhead (list.map UxEvent.entry)
  listed : ∀ a, (m.records a).isSome ↔ a ∈ list.map UxEvent.addr

theorem lists_init (lhead : Ptr) : Lists (DList.init lhead) lhead [] where
  holds := DList.holds_init lhead
  listed := by simp [DList.init]

section Lists

variable {m : EventMem} {lhead a : Ptr} {list : List UxEvent} {ufd : Int} {uxe : UxEvent}

theorem entry_addr (list : List UxEvent) :
    (list.map UxEvent.entry).map Prod.fst = list.map UxEvent.addr := by
  rw [List.map_map]
  rfl

theorem Lists.find (h : m.Lists lhead list) (ufd : Int) :
    m.find lhead ufd = some ((UxScheduler.find list ufd).elim NULL UxEvent.addr) := by
  have hloop : LinkedList.forEach m.rounds (fun _ => m.next) lhead () (fun _ pos => do
        let entry ← m.records pos
        some (if entry.ufd = ufd then .inr pos else .inl ())) =
      some (((list.map UxEvent.entry).find? (fun e => e.2.ufd = ufd)).elim (.inl ())
        (fun e => .inr e.1)) := by
    apply h.holds.find_next
    intro e he
    rw [h.holds.records e he]
    simp
  simp only [Option.bind_eq_bind] at hloop
  simp only [EventMem.find, Option.bind_eq_bind, hloop, Option.bind_some, List.find?_map]
  have hfind : list.find? ((fun e => decide (e.2.ufd = ufd)) ∘ UxEvent.entry) =
      UxScheduler.find list ufd := rfl
  rw [hfind]
  cases UxScheduler.find list ufd <;> rfl

theorem Lists.addr_ne_null (h : m.Lists lhead list) (hfind : UxScheduler.find list ufd = some uxe) :
    uxe.addr ≠ NULL :=
  h.holds.ne_null (List.mem_map_of_mem (f := UxEvent.entry) (List.mem_of_find?_eq_some hfind))

/-- The event found, where it lies in memory. -/
theorem Lists.split (h : m.Lists lhead list) (hfind : UxScheduler.find list ufd = some uxe) :
    ∃ front rear, list = front ++ uxe :: rear ∧ list.erase uxe = front ++ rear ∧
      (∀ e, list.replace uxe e = front ++ e :: rear) ∧
      uxe.addr ∉ (front ++ rear).map UxEvent.addr ∧
      m.Holds lhead (front.map UxEvent.entry ++ uxe.entry :: rear.map UxEvent.entry) := by
  obtain ⟨_, front, rear, rfl, herase, hreplace⟩ := find_split hfind
  have hholds := h.holds
  have hnodup := hholds.nodup
  rw [entry_addr, List.map_append, List.map_cons] at hnodup
  have hgone := (List.nodup_cons.mp (List.perm_middle.nodup_iff.mp hnodup)).1
  rw [List.map_append, List.map_cons] at hholds
  exact ⟨front, rear, rfl, herase, hreplace, by rwa [List.map_append], hholds⟩

theorem Lists.rm (h : m.Lists lhead list) (ufd : Int) :
    ∃ m', m.rm lhead ufd = some m' ∧ m'.Lists lhead (rmEvent list ufd) := by
  have hcall := h.find ufd
  unfold rmEvent
  cases hfind : UxScheduler.find list ufd with
  | none =>
    rw [hfind] at hcall
    exact ⟨m, by simp [EventMem.rm, hcall], h⟩
  | some uxe =>
    rw [hfind] at hcall
    have hnull := h.addr_ne_null hfind
    obtain ⟨front, rear, rfl, herase, _, hgone, hholds⟩ := h.split hfind
    obtain ⟨m1, m2, hdel, hfree, hm2, hr, _, _⟩ := hholds.delFree
    rw [show uxe.entry.1 = uxe.addr from rfl] at hdel hfree hr
    refine ⟨m2, ?_, ?_, ?_⟩
    · simp [EventMem.rm, hcall, hnull, hdel, hfree]
    · rw [Option.elim_some, herase, List.map_append]
      exact hm2
    · intro b
      rw [Option.elim_some, herase, hr]
      by_cases hb : b = uxe.addr
      · exact iff_of_false (by simp [hb]) (hb ▸ hgone)
      · rw [Function.update_of_ne hb, h.listed b]
        simp [hb]

/-- An event rewritten in place. -/
theorem Lists.modify (h : m.Lists lhead list) (hfind : UxScheduler.find list ufd = some uxe)
    (f : EventRecord → EventRecord) {e : UxEvent} (he : e.entry = (uxe.addr, f uxe.entry.2)) :
    ∃ m' : EventMem, m.modify uxe.addr f = some m' ∧ m'.Lists lhead (list.replace uxe e) := by
  obtain ⟨front, rear, rfl, _, hreplace, _, hholds⟩ := h.split hfind
  obtain ⟨m', hmod, hm', hr, _, _⟩ := hholds.modify f
  have haddr : e.addr = uxe.addr := congrArg Prod.fst he
  refine ⟨m', hmod, ?_, ?_⟩
  · rw [hreplace, List.map_append, List.map_cons, he]
    exact hm'
  · intro b
    rw [hreplace, hr]
    by_cases hb : b = uxe.addr
    · simp [hb, haddr]
    · rw [Function.update_of_ne hb, h.listed b]
      simp [haddr]

theorem Lists.change (h : m.Lists lhead list) (ufd : Int) (f : BitVec 32 → BitVec 32) :
    ∃ m', m.setConditions lhead ufd f = some m' ∧ m'.Lists lhead (changeEvent list ufd f) := by
  have hcall := h.find ufd
  unfold changeEvent
  cases hfind : UxScheduler.find list ufd with
  | none =>
    rw [hfind] at hcall
    exact ⟨m, by simp [setConditions, hcall], h⟩
  | some uxe =>
    rw [hfind] at hcall
    have hnull := h.addr_ne_null hfind
    obtain ⟨m', hmod, hm'⟩ := h.modify hfind
      (fun e => { e with conditionSet := f e.conditionSet })
      (e := { uxe with conditionSet := f uxe.conditionSet }) rfl
    exact ⟨m', by simp [setConditions, hcall, hnull, hmod], hm'⟩

/-- The allocator is asked for a new event and names an address that is in use. -/
def Unusable (m : EventMem) (lhead : Ptr) (r : Registrations) : Op → Prop
  | .add a ufd conditionSet _ _ => ufd ≠ 0 ∧ conditionSet ≠ 0 ∧ r ufd = none ∧
    (a = NULL ∨ a = lhead ∨ (m.records a).isSome)
  | _ => False

theorem Lists.add_new (h : m.Lists lhead list) (hufd : ufd ≠ 0) {conditionSet : BitVec 32}
    (hset : conditionSet ≠ 0) (hfind : UxScheduler.find list ufd = none) (proc userdata : Ptr) :
    (∃ m', m.add lhead a ufd conditionSet proc userdata = some (AWE_OK, m') ∧
      m'.Lists lhead (addEvent list a ufd conditionSet proc userdata)) ∨
    m.add lhead a ufd conditionSet proc userdata = none ∧
      (a = NULL ∨ a = lhead ∨ (m.records a).isSome) := by
  have hcall := h.find ufd
  rw [hfind, Option.elim_none] at hcall
  cases hcreate : DList.create m a ⟨ufd, conditionSet, proc, userdata⟩ with
  | none =>
    right
    exact ⟨by simp only [EventMem.add, if_neg hufd, if_neg hset, hcall, hcreate,
      Option.bind_eq_bind, Option.bind_some, if_true, Option.bind_none],
      h.holds.create_none_iff.mp hcreate⟩
  | some m1 =>
    left
    obtain ⟨hm1, hr1, hnew, _, _⟩ := h.holds.create hcreate
    have hrec : m1.records a = some ⟨ufd, conditionSet, proc, userdata⟩ := by simp [hr1]
    rw [← List.append_nil (list.map UxEvent.entry)] at hm1 hnew
    obtain ⟨m2, hadd, hm2, hr2, _, _⟩ := hm1.addTail hnew hrec rfl
    have hadd : m1.addTail a lhead = some m2 := hadd
    have hlist : addEvent list a ufd conditionSet proc userdata =
        list ++ [⟨a, ufd, conditionSet, proc, userdata⟩] := by
      simp [addEvent, hfind]
    refine ⟨m2, ?_, ?_, ?_⟩
    · simp only [EventMem.add, if_neg hufd, if_neg hset, hcall, hcreate, hadd,
        Option.bind_eq_bind, Option.bind_some, if_true]
    · rw [hlist, List.map_append]
      exact hm2
    · intro b
      rw [hlist, hr2, hr1]
      by_cases hb : b = a
      · simp [hb]
      · rw [Function.update_of_ne hb, h.listed b]
        simp [hb]

/-- Each call does to memory what it does to the list, if it gets the memory it needs. -/
theorem Lists.step (h : m.Lists lhead list) (op : Op) :
    (∃ m', step lhead m op = some m' ∧ m'.Lists lhead (listStep list op)) ∨
      step lhead m op = none ∧ m.Unusable lhead (registrations list) op := by
  cases op with
  | add a ufd conditionSet proc userdata =>
    by_cases hufd : ufd = 0
    · left
      exact ⟨m, by simp [EventMem.step, EventMem.add, hufd], by rwa [listStep, if_pos hufd]⟩
    · by_cases hset : conditionSet = 0
      · left
        obtain ⟨m', hrm, hm'⟩ := h.rm ufd
        refine ⟨m', ?_, by rwa [listStep, if_neg hufd, if_pos hset]⟩
        simp only [EventMem.step, EventMem.add, if_neg hufd, if_pos hset, hrm, Option.map_some]
      · simp only [listStep, if_neg hufd, if_neg hset]
        cases hfind : UxScheduler.find list ufd with
        | none =>
          rcases h.add_new (a := a) hufd hset hfind proc userdata with
            ⟨m', hadd, hm'⟩ | ⟨hadd, hused⟩
          · exact Or.inl ⟨m', by simp [EventMem.step, hadd], hm'⟩
          · refine Or.inr ⟨by simp [EventMem.step, hadd], hufd, hset, ?_, hused⟩
            simp [registrations, hfind]
        | some uxe =>
          left
          have hcall := h.find ufd
          rw [hfind, Option.elim_some] at hcall
          have hnull := h.addr_ne_null hfind
          obtain ⟨m', hmod, hm'⟩ := h.modify hfind (fun e =>
            { e with conditionSet := conditionSet, proc := proc, userdata := userdata })
            (e := { uxe with conditionSet := conditionSet, proc := proc, userdata := userdata }) rfl
          refine ⟨m', ?_, by simpa [addEvent, hfind] using hm'⟩
          simp only [EventMem.step, EventMem.add, if_neg hufd, if_neg hset, hcall, hmod,
            if_neg hnull, Option.bind_eq_bind, Option.bind_some, Option.map_some]
  | rm ufd => exact Or.inl (h.rm ufd)
  | disable ufd events => exact Or.inl (h.change ufd (· &&& ~~~events))
  | enable ufd events => exact Or.inl (h.change ufd (· ||| events))

end Lists

/-- The list is the map `r`: one event for each descriptor that has an entry, none beside
them, and each event that was ever made freed once, but for those. -/
structure Registered (m : EventMem) (lhead : Ptr) (r : Registrations) (list : List UxEvent) :
    Prop where
  lists : m.Lists lhead list
  keyed : Keyed list
  reads : registrations list = r
  freed : ∀ a, m.mallocs.count a = m.frees.count a + if a ∈ list.map UxEvent.addr then 1 else 0

theorem Lists.registered {m : EventMem} {lhead : Ptr} {list : List UxEvent}
    (h : m.Lists lhead list) (hkeyed : Keyed list) :
    m.Registered lhead (registrations list) list := by
  refine ⟨h, hkeyed, rfl, fun a => ?_⟩
  have hcount := h.holds.balanced a
  by_cases ha : a ∈ list.map UxEvent.addr
  · rw [if_pos ((h.listed a).mpr ha)] at hcount
    rwa [if_pos ha]
  · rw [if_neg (fun hs => ha ((h.listed a).mp hs))] at hcount
    rwa [if_neg ha]

/-- A new event where another block lies is the allocator's error. -/
theorem Registered.unusable {m : EventMem} {lhead : Ptr} {r : Registrations} {list : List UxEvent}
    (h : m.Registered lhead r list) {op : Op} (hused : m.Unusable lhead r op) :
    step lhead m op = none := by
  cases op with
  | add a ufd conditionSet proc userdata =>
    obtain ⟨hufd, hset, habsent, haddr⟩ := hused
    have hfind : UxScheduler.find list ufd = none := by
      rw [← h.reads] at habsent
      simpa [registrations] using habsent
    have hcall := h.lists.find ufd
    rw [hfind, Option.elim_none] at hcall
    have hcreate : DList.create m a ⟨ufd, conditionSet, proc, userdata⟩ = none :=
      h.lists.holds.create_none_iff.mpr haddr
    simp only [EventMem.step, EventMem.add, if_neg hufd, if_neg hset, hcall, hcreate,
      Option.bind_eq_bind, Option.bind_some, if_true, Option.bind_none, Option.map_none]
  | rm | disable | enable => exact hused.elim

theorem Lists.run {m m' : EventMem} {lhead : Ptr} {list : List UxEvent} {ops : List Op}
    (h : m.Lists lhead list) (hkeyed : Keyed list)
    (hr : Machine.run (EventMem.step lhead) m ops = some m') :
    ∃ list', m'.Registered lhead (ops.foldl Registrations.step (registrations list)) list' := by
  induction ops generalizing m list with
  | nil =>
    cases hr
    exact ⟨list, h.registered hkeyed⟩
  | cons op ops ih =>
    obtain ⟨m1, hstep, hrest⟩ := Machine.run_cons.mp hr
    obtain ⟨hkeyed', hreads⟩ := hkeyed.step op
    rcases h.step op with ⟨m2, hm2, hlists⟩ | ⟨hnone, _⟩
    · rw [hstep] at hm2
      cases hm2
      rw [List.foldl_cons, ← hreads]
      exact ih hlists hkeyed' hrest
    · rw [hnone] at hstep
      cases hstep

/-- Any calls in any order leave in memory the map they make of the empty one, and none
of them fails but for want of memory. -/
theorem list_is_map (lhead : Ptr) (ops : List Op) (m : EventMem)
    (hr : Machine.run (step lhead) (DList.init lhead) ops = some m) :
    (∃ list, m.Registered lhead (ops.foldl Registrations.step Registrations.empty) list) ∧
      ∀ op, step lhead m op = none ↔
        m.Unusable lhead (ops.foldl Registrations.step Registrations.empty) op := by
  have hempty : Keyed [] := ⟨List.nodup_nil, by simp⟩
  obtain ⟨list, hreg⟩ := (lists_init lhead).run hempty hr
  refine ⟨⟨list, hreg⟩, fun op => ⟨fun hnone => ?_, fun hused => ?_⟩⟩
  · rcases hreg.lists.step op with ⟨m', hm', _⟩ | ⟨_, hused⟩
    · rw [hnone] at hm'
      cases hm'
    · exact hreg.reads ▸ hused
  · exact hreg.unusable hused

/-- A descriptor disabled and enabled again, one replaced and one deleted by an empty set,
the address of its event used again, and the descriptor 0. -/
def toggled : List Op :=
  [.add 100 5 3 7 1, .add 101 6 1 7 2, .disable 5 3, .add 101 6 2 8 3, .enable 5 1,
    .add 102 0 1 7 0, .add 0 6 0 0 0, .rm 9, .add 101 9 1 8 4]

theorem toggled_is_map : ∃ m list, Machine.run (step 50) (DList.init 50) toggled = some m ∧
    m.Registered 50 (toggled.foldl Registrations.step Registrations.empty) list := by
  obtain ⟨m, hm⟩ : ∃ m, Machine.run (step 50) (DList.init 50) toggled = some m := ⟨_, rfl⟩
  obtain ⟨⟨list, hlist⟩, _⟩ := list_is_map 50 toggled m hm
  exact ⟨m, list, hm, hlist⟩

end EventMem

end Awe
