import Mathlib.Logic.Function.Basic
import Awe.CTypes

namespace Awe

structure ListHead where
  next : Ptr
  prev : Ptr
  deriving DecidableEq

structure LinkedList.Header (π : Type) where
  releaseProc : π
  size : BitVec 32

/-- The memory behind lists and their nodes; `none` where nothing is allocated. A
`list_head` lies at the address of the `awe_linkedlist` or `awe_linked_obj` it is the
first field of, so `list_entry` is the identity. -/
structure LinkedList (π : Type) where
  links : Ptr → Option ListHead
  object : Ptr → Option Ptr
  lists : Ptr → Option (LinkedList.Header π)

/-- The objects behind `awe_object` pointers: counting one more reference, and what a
release procedure does. `none` is an access to memory that is not allocated. -/
structure ObjectOps (π ω : Type) where
  refInc : ω → Ptr → Option ω
  release : π → ω → Ptr → Option ω

namespace LinkedList

variable {π ω : Type}

def empty : LinkedList π := ⟨fun _ => none, fun _ => none, fun _ => none⟩

def next (m : LinkedList π) (p : Ptr) : Option Ptr := (m.links p).map ListHead.next

def prev (m : LinkedList π) (p : Ptr) : Option Ptr := (m.links p).map ListHead.prev

def setNext (m : LinkedList π) (p v : Ptr) : Option (LinkedList π) :=
  (m.links p).map (fun l =>
    { m with links := Function.update m.links p (some { l with next := v }) })

def setPrev (m : LinkedList π) (p v : Ptr) : Option (LinkedList π) :=
  (m.links p).map (fun l =>
    { m with links := Function.update m.links p (some { l with prev := v }) })

def setSize (m : LinkedList π) (list : Ptr) (f : BitVec 32 → BitVec 32) : Option (LinkedList π) :=
  (m.lists list).map (fun h =>
    { m with lists := Function.update m.lists list (some { h with size := f h.size }) })

/-- `__list_add` -/
def listAdd (m : LinkedList π) (node prev next : Ptr) : Option (LinkedList π) := do
  let m ← m.setPrev next node
  let m ← m.setNext node next
  let m ← m.setPrev node prev
  m.setNext prev node

def listAddTail (m : LinkedList π) (node head : Ptr) : Option (LinkedList π) := do
  let prev ← m.prev head
  m.listAdd node prev head

/-- `list_del`, with the `__list_del` it begins with. -/
def listDel (m : LinkedList π) (entry : Ptr) : Option (LinkedList π) := do
  let prev ← m.prev entry
  let next ← m.next entry
  let m ← m.setPrev next prev
  let m ← m.setNext prev next
  let m ← m.setNext entry NULL
  m.setPrev entry NULL

def listEmpty (m : LinkedList π) (head : Ptr) : Option Bool :=
  (m.next head).map (fun next => next = head)

/-- The loop of `list_for_each`: the body goes on with a new state or returns. -/
def forEachLoop {σ ρ : Type} (next : σ → Ptr → Option Ptr) (body : σ → Ptr → Option (σ ⊕ ρ))
    (head : Ptr) : Nat → σ → Ptr → Option (σ ⊕ ρ)
  | 0, _, _ => none
  | fuel + 1, s, pos =>
    if pos = head then some (.inl s)
    else do
      match ← body s pos with
      | .inl s => forEachLoop next body head fuel s (← next s pos)
      | .inr r => some (.inr r)

/-- The loop of `list_for_each_safe`: the successor is read before the body runs. -/
def forEachSafeLoop {σ ρ : Type} (next : σ → Ptr → Option Ptr) (body : σ → Ptr → Option (σ ⊕ ρ))
    (head : Ptr) : Nat → σ → Ptr → Ptr → Option (σ ⊕ ρ)
  | 0, _, _, _ => none
  | fuel + 1, s, pos, n =>
    if pos = head then some (.inl s)
    else do
      match ← body s pos with
      | .inl s => forEachSafeLoop next body head fuel s n (← next s n)
      | .inr r => some (.inr r)

/-- `list_for_each`, in `fuel` rounds at most. -/
def forEach {σ ρ : Type} (fuel : Nat) (next : σ → Ptr → Option Ptr) (head : Ptr) (s : σ)
    (body : σ → Ptr → Option (σ ⊕ ρ)) : Option (σ ⊕ ρ) := do
  forEachLoop next body head fuel s (← next s head)

/-- `list_for_each_safe`, in `fuel` rounds at most. -/
def forEachSafe {σ ρ : Type} (fuel : Nat) (next : σ → Ptr → Option Ptr) (head : Ptr) (s : σ)
    (body : σ → Ptr → Option (σ ⊕ ρ)) : Option (σ ⊕ ρ) := do
  let pos ← next s head
  forEachSafeLoop next body head fuel s pos (← next s pos)

def linkedObjCreate (m : LinkedList π) (node obj : Ptr) : LinkedList π :=
  { m with
    links := Function.update m.links node (some ⟨NULL, NULL⟩)
    object := Function.update m.object node (some obj) }

def linkedObjFree (m : LinkedList π) (node : Ptr) : LinkedList π :=
  { m with
    links := Function.update m.links node none
    object := Function.update m.object node none }

def addToList (m : LinkedList π) (list node : Ptr) : Option (LinkedList π) := do
  let m ← m.listAddTail node list
  m.setSize list (· + 1)

def rmFromList (m : LinkedList π) (list node : Ptr) : Option (Ptr × LinkedList π) := do
  let m ← m.listDel node
  let m ← m.setSize list (· - 1)
  let o ← m.object node
  some (o, m.linkedObjFree node)

/-- `linkedlist_delfromlist`; what the release procedure stores to the node's
`_object` is gone with the node. -/
def delFromList (ops : ObjectOps π ω) (s : LinkedList π × ω) (list node : Ptr) :
    Option (LinkedList π × ω) := do
  let m ← s.1.listDel node
  let m ← m.setSize list (· - 1)
  let header ← m.lists list
  let o ← m.object node
  let objs ← ops.release header.releaseProc s.2 o
  some (m.linkedObjFree node, objs)

/-- `awe_linkedlist_init`, on memory that may hold anything. -/
def init (m : LinkedList π) (list : Ptr) (proc : π) : Status × LinkedList π :=
  (AWE_OK, { m with
    links := Function.update m.links list (some ⟨list, list⟩)
    lists := Function.update m.lists list (some ⟨proc, 0⟩) })

def add (ops : ObjectOps π ω) (s : LinkedList π × ω) (list obj node : Ptr) :
    Option (Status × LinkedList π × ω) := do
  let m := s.1.linkedObjCreate node obj
  let objs ← ops.refInc s.2 obj
  let m ← m.addToList list node
  some (AWE_OK, m, objs)

def removeFirst (m : LinkedList π) (list : Ptr) : Option (Ptr × LinkedList π) := do
  if ← m.listEmpty list then some (NULL, m)
  else
    let obj ← m.next list
    m.rmFromList list obj

def remove (fuel : Nat) (m : LinkedList π) (list : Ptr) (equals : Ptr → Bool) :
    Option (Ptr × LinkedList π) := do
  let r ← forEachSafe fuel next list m (fun m pos => do
    let o ← m.object pos
    if equals o then (m.rmFromList list pos).map .inr else some (.inl m))
  match r with
  | .inl m => some (NULL, m)
  | .inr r => some r

/-- `awe_linkedlist_del3`, and `awe_linkedlist_del` with equality of addresses. -/
def delWhere (fuel : Nat) (ops : ObjectOps π ω) (s : LinkedList π × ω) (list : Ptr)
    (equals : Ptr → Bool) : Option (Status × LinkedList π × ω) := do
  let r ← forEachSafe fuel (fun s => next s.1) list s (fun s pos => do
    let o ← s.1.object pos
    if equals o then (delFromList ops s list pos).map .inr else some (.inl s))
  match r with
  | .inl s => some (-1, s)
  | .inr s => some (AWE_OK, s)

def del (fuel : Nat) (ops : ObjectOps π ω) (s : LinkedList π × ω) (list obj : Ptr) :
    Option (Status × LinkedList π × ω) :=
  delWhere fuel ops s list (fun o => o = obj)

def del2 (ops : ObjectOps π ω) (s : LinkedList π × ω) (list pos : Ptr) :
    Option (Status × LinkedList π × ω) :=
  (delFromList ops s list pos).map (fun s => (AWE_OK, s))

def del3 (fuel : Nat) (ops : ObjectOps π ω) (s : LinkedList π × ω) (list : Ptr)
    (equals : Ptr → Bool) : Option (Status × LinkedList π × ω) :=
  delWhere fuel ops s list equals

def contains (fuel : Nat) (m : LinkedList π) (list obj : Ptr) : Option Bool := do
  let r ← forEach fuel (fun _ => m.next) list () (fun _ pos => do
    let o ← m.object pos
    if o = obj then some (.inr true) else some (.inl ()))
  match r with
  | .inl _ => some false
  | .inr b => some b

def clear (fuel : Nat) (ops : ObjectOps π ω) (s : LinkedList π × ω) (list : Ptr) :
    Option (LinkedList π × ω) := do
  let r ← forEachSafe fuel (fun s => next s.1) list s (fun s pos =>
    (delFromList ops s list pos).map Sum.inl)
  match r with
  | .inl s =>
    let m ← s.1.setSize list (fun _ => 0)
    some (m, s.2)
  | .inr s => some s

def size (m : LinkedList π) (list : Ptr) : Option (BitVec 32) := (m.lists list).map Header.size

def getFirst (m : LinkedList π) (list : Ptr) : Option Ptr := do
  if ← m.listEmpty list then some NULL
  else
    let obj ← m.next list
    m.object obj

def getLast (m : LinkedList π) (list : Ptr) : Option Ptr := do
  if ← m.listEmpty list then some NULL
  else
    let obj ← m.prev list
    m.object obj

def get (fuel : Nat) (m : LinkedList π) (list : Ptr) (equals : Ptr → Bool) : Option Ptr := do
  let r ← forEachSafe fuel (fun _ => m.next) list () (fun _ pos => do
    let o ← m.object pos
    if equals o then some (.inr o) else some (.inl ()))
  match r with
  | .inl _ => some NULL
  | .inr o => some o

def getByIndex (fuel : Nat) (m : LinkedList π) (list : Ptr) (index : BitVec 32) : Option Ptr := do
  let r ← forEach fuel (fun _ => m.next) list 0#32 (fun i pos =>
    if i = index then (m.object pos).map .inr else some (.inl (i + 1#32)))
  match r with
  | .inl _ => some NULL
  | .inr o => some o

/-- A loop over `awe_linkedlist_for`, whose body goes on with a new state or breaks. -/
def linkedlistFor (fuel : Nat) (s : LinkedList π × ω) (list : Ptr)
    (body : LinkedList π × ω → Ptr → Option ((LinkedList π × ω) ⊕ (LinkedList π × ω))) :
    Option (LinkedList π × ω) := do
  let r ← forEachSafe fuel (fun s => next s.1) list s body
  match r with
  | .inl s => some s
  | .inr s => some s

def linkedlistEntry (m : LinkedList π) (pos : Ptr) : Option Ptr := m.object pos

/-- The body of the loop in `awe_linkedlist_forEach`. -/
def callBack (callback : LinkedList π × ω → Ptr → Ptr → Option (Bool × LinkedList π × ω))
    (s : LinkedList π × ω) (pos : Ptr) : Option ((LinkedList π × ω) ⊕ (LinkedList π × ω)) := do
  let obj ← s.1.object pos
  let (more, s) ← callback s pos obj
  if more then some (.inl s) else some (.inr s)

/-- `awe_linkedlist_forEach`, with a callback that may change the memory and the objects. -/
def linkedlistForEach (fuel : Nat) (s : LinkedList π × ω) (list : Ptr)
    (callback : LinkedList π × ω → Ptr → Ptr → Option (Bool × LinkedList π × ω)) :
    Option (LinkedList π × ω) := do
  let r ← forEachSafe fuel (fun s => next s.1) list s (callBack callback)
  match r with
  | .inl s => some s
  | .inr s => some s

/-- Each call with its arguments; `node` is the address the allocator gives for a new
node, and an equality predicate is what it says of each object at the time of the call. -/
inductive Op (π : Type) where
  | init (list : Ptr) (proc : π)
  | add (list obj node : Ptr)
  | removeFirst (list : Ptr)
  | remove (list : Ptr) (equals : Ptr → Bool)
  | del (list obj : Ptr)
  | del2 (list pos : Ptr)
  | del3 (list : Ptr) (equals : Ptr → Bool)
  | clear (list : Ptr)
  | contains (list obj : Ptr)
  | get (list : Ptr) (equals : Ptr → Bool)
  | getFirst (list : Ptr)
  | getLast (list : Ptr)
  | getByIndex (list : Ptr) (index : BitVec 32)
  | size (list : Ptr)

inductive Answer where
  | done
  | status (status : Status)
  | object (object : Ptr)
  | bool (b : Bool)
  | size (size : Int)
  deriving DecidableEq

def step (fuel : Nat) (ops : ObjectOps π ω) (s : LinkedList π × ω) :
    Op π → Option (Answer × LinkedList π × ω)
  | .init list proc =>
    let r := s.1.init list proc
    some (.status r.1, r.2, s.2)
  | .add list obj node => (add ops s list obj node).map (fun r => (.status r.1, r.2))
  | .removeFirst list => (s.1.removeFirst list).map (fun r => (.object r.1, r.2, s.2))
  | .remove list equals =>
    (s.1.remove fuel list equals).map (fun r => (.object r.1, r.2, s.2))
  | .del list obj => (del fuel ops s list obj).map (fun r => (.status r.1, r.2))
  | .del2 list pos => (del2 ops s list pos).map (fun r => (.status r.1, r.2))
  | .del3 list equals => (del3 fuel ops s list equals).map (fun r => (.status r.1, r.2))
  | .clear list => (clear fuel ops s list).map (fun s => (.done, s))
  | .contains list obj => (s.1.contains fuel list obj).map (fun b => (.bool b, s))
  | .get list equals => (s.1.get fuel list equals).map (fun o => (.object o, s))
  | .getFirst list => (s.1.getFirst list).map (fun o => (.object o, s))
  | .getLast list => (s.1.getLast list).map (fun o => (.object o, s))
  | .getByIndex list index => (s.1.getByIndex fuel list index).map (fun o => (.object o, s))
  | .size list => (s.1.size list).map (fun n => (.size n.toInt, s))

end LinkedList

end Awe
