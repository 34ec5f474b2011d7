import Awe.LinkedList.Links

namespace Awe.LinkedList

variable {π : Type}

/-- `INIT_LIST_HEAD` -/
def initListHead (m : LinkedList π) (p : Ptr) : Option (LinkedList π) := do
  let m ← m.setNext p p
  m.setPrev p p

/-- `list_add` -/
def listAddFirst (m : LinkedList π) (node head : Ptr) : Option (LinkedList π) := do
  let next ← m.next head
  m.listAdd node head next

/-- `__list_del` with the links of an entry, as each of its callers reads them. -/
def listUnlink (m : LinkedList π) (entry : Ptr) : Option (LinkedList π) := do
  let prev ← m.prev entry
  let next ← m.next entry
  let m ← m.setPrev next prev
  m.setNext prev next

def listDelInit (m : LinkedList π) (entry : Ptr) : Option (LinkedList π) := do
  let m ← m.listUnlink entry
  m.initListHead entry

def listMove (m : LinkedList π) (list head : Ptr) : Option (LinkedList π) := do
  let m ← m.listUnlink list
  m.listAddFirst list head

def listMoveTail (m : LinkedList π) (list head : Ptr) : Option (LinkedList π) := do
  let m ← m.listUnlink list
  m.listAddTail list head

/-- `__list_splice` -/
def listJoin (m : LinkedList π) (list head : Ptr) : Option (LinkedList π) := do
  let first ← m.next list
  let last ← m.prev list
  let place ← m.next head
  let m ← m.setPrev first head
  let m ← m.setNext head first
  let m ← m.setNext last place
  m.setPrev place last

def listSplice (m : LinkedList π) (list head : Ptr) : Option (LinkedList π) := do
  if ← m.listEmpty list then some m else m.listJoin list head

def listSpliceInit (m : LinkedList π) (list head : Ptr) : Option (LinkedList π) := do
  if ← m.listEmpty list then some m
  else
    let m ← m.listJoin list head
    m.initListHead list

/-- What the body of `list_for_each` over `head` is given, one entry after another. -/
def visit (fuel : Nat) (m : LinkedList π) (head : Ptr) : Option (List Ptr ⊕ List Ptr) :=
  forEach fuel (fun _ => m.next) head [] (fun seen pos => some (.inl (seen ++ [pos])))

def visitPrev (fuel : Nat) (m : LinkedList π) (head : Ptr) : Option (List Ptr ⊕ List Ptr) :=
  forEach fuel (fun _ => m.prev) head [] (fun seen pos => some (.inl (seen ++ [pos])))

theorem linked_of_update {m m' : LinkedList π} {p v : Ptr}
    (hn : m'.next = Function.update m.next p (some v)) {q : Ptr} (hq : m.next q ≠ none) :
    m'.next q ≠ none := by
  rw [hn]
  exact update_ne_none hq

theorem initListHead_spec {m : LinkedList π} {p : Ptr} (hp : m.next p ≠ none) :
    ∃ m', m.initListHead p = some m' ∧ m'.next = Function.update m.next p (some p) ∧
      m'.prev = Function.update m.prev p (some p) := by
  obtain ⟨m1, h1, hn1, hv1, -, -⟩ := setNext_spec p p hp
  obtain ⟨m2, h2, hv2, hn2, -, -⟩ := setPrev_spec p p (linked_of_update hn1 hp)
  refine ⟨m2, ?_, by rw [hn2, hn1], by rw [hv2, hv1]⟩
  simp only [initListHead, h1, h2, Option.bind_eq_bind, Option.bind_some]

/-- Behind `head` is before what follows it. -/
theorem listAddFirst_eq {m : LinkedList π} {node head s : Ptr} (hs : m.next head = some s)
    (hback : m.prev s = some head) : m.listAddFirst node head = m.listAddTail node s := by
  simp only [listAddFirst, listAddTail, hs, hback, Option.bind_eq_bind, Option.bind_some]

theorem listUnlink_spec {m : LinkedList π} {entry p s : Ptr} (hp : m.prev entry = some p)
    (hs : m.next entry = some s) (hpn : m.next p ≠ none) (hsn : m.next s ≠ none) :
    ∃ m', m.listUnlink entry = some m' ∧ m'.next = Function.update m.next p (some s) ∧
      m'.prev = Function.update m.prev s (some p) := by
  obtain ⟨m1, h1, hv1, hn1, -, -⟩ := setPrev_spec s p hsn
  obtain ⟨m2, h2, hn2, hv2, -, -⟩ := setNext_spec p s (by rwa [hn1])
  refine ⟨m2, ?_, by rw [hn2, hn1], by rw [hv2, hv1]⟩
  simp only [listUnlink, hp, hs, h1, h2, Option.bind_eq_bind, Option.bind_some]

/-- `list_del` is the unlinking and two stores of NULL. -/
theorem listDel_eq (m : LinkedList π) (entry : Ptr) : m.listDel entry = (do
    let m ← m.listUnlink entry
    let m ← m.setNext entry NULL
    m.setPrev entry NULL) := by
  simp only [listDel, listUnlink, Option.bind_eq_bind, Option.bind_assoc]

theorem listJoin_spec {m : LinkedList π} {list head first last place : Ptr}
    (hfirst : m.next list = some first) (hlast : m.prev list = some last)
    (hplace : m.next head = some place) (hfn : m.next first ≠ none) (hln : m.next last ≠ none)
    (hpn : m.next place ≠ none) :
    ∃ m', m.listJoin list head = some m' ∧
      m'.next = Function.update (Function.update m.next head (some first)) last (some place) ∧
      m'.prev = Function.update (Function.update m.prev first (some head)) place (some last) := by
  have hhn : m.next head ≠ none := by simp [hplace]
  obtain ⟨m1, h1, hv1, hn1, -, -⟩ := setPrev_spec first head hfn
  obtain ⟨m2, h2, hn2, hv2, -, -⟩ := setNext_spec head first (by rwa [hn1])
  rw [hn1] at hn2
  obtain ⟨m3, h3, hn3, hv3, -, -⟩ := setNext_spec last place (linked_of_update hn2 hln)
  obtain ⟨m4, h4, hv4, hn4, -, -⟩ :=
    setPrev_spec place last (linked_of_update hn3 (linked_of_update hn2 hpn))
  refine ⟨m4, ?_, by rw [hn4, hn3, hn2], by rw [hv4, hv3, hv2, hv1]⟩
  simp only [listJoin, hfirst, hlast, hplace, h1, h2, h3, h4, Option.bind_eq_bind,
    Option.bind_some]

end Awe.LinkedList
