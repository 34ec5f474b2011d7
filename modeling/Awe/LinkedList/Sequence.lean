import Awe.LinkedList.Links

namespace Awe.LinkedList
open Cycle

variable {π ω : Type}

structure Entry where
  node : Ptr
  object : Ptr
  deriving DecidableEq

/-- What the lists are for: each initialised one is a sequence of object references. -/
structure Sequences (π : Type) where
  heads : List Ptr
  proc : Ptr → Option π
  entries : Ptr → List Entry

namespace Sequences

def empty : Sequences π := ⟨[], fun _ => none, fun _ => []⟩

def nodes (s : Sequences π) (list : Ptr) : List Ptr := (s.entries list).map Entry.node

def objects (s : Sequences π) (list : Ptr) : List Ptr := (s.entries list).map Entry.object

def NotNode (s : Sequences π) (p : Ptr) : Prop := ∀ l ∈ s.heads, p ∉ s.nodes l

instance (s : Sequences π) (p : Ptr) : Decidable (s.NotNode p) :=
  inferInstanceAs (Decidable (∀ l ∈ s.heads, p ∉ s.nodes l))

def set (s : Sequences π) (list : Ptr) (es : List Entry) : Sequences π :=
  { s with entries := Function.update s.entries list es }

def init (s : Sequences π) (list : Ptr) (proc : π) : Sequences π where
  heads := s.heads.insert list
  proc := Function.update s.proc list (some proc)
  entries := Function.update s.entries list []

@[simp] theorem set_heads (s : Sequences π) (list : Ptr) (es : List Entry) :
    (s.set list es).heads = s.heads := rfl

@[simp] theorem set_proc (s : Sequences π) (list : Ptr) (es : List Entry) :
    (s.set list es).proc = s.proc := rfl

@[simp] theorem set_entries_same (s : Sequences π) (list : Ptr) (es : List Entry) :
    (s.set list es).entries list = es := Function.update_self ..

@[simp] theorem set_entries_other (s : Sequences π) {list l : Ptr} (h : l ≠ list)
    (es : List Entry) : (s.set list es).entries l = s.entries l := Function.update_of_ne h ..

@[simp] theorem set_nodes_same (s : Sequences π) (list : Ptr) (es : List Entry) :
    (s.set list es).nodes list = es.map Entry.node := by simp [nodes]

@[simp] theorem set_nodes_other (s : Sequences π) {list l : Ptr} (h : l ≠ list)
    (es : List Entry) : (s.set list es).nodes l = s.nodes l := by simp [nodes, h]

@[simp] theorem set_self (s : Sequences π) (list : Ptr) : s.set list (s.entries list) = s := by
  simp [set]

@[simp] theorem set_set (s : Sequences π) (list : Ptr) (es es' : List Entry) :
    (s.set list es).set list es' = s.set list es' := by
  simp [set]

/-- `removeFirst` and `remove` hand the reference of the first match to the caller. -/
def takeFirst (s : Sequences π × ω) (list : Ptr) (p : Entry → Bool) :
    Answer × Sequences π × ω :=
  match (s.1.entries list).find? p with
  | none => (.object NULL, s)
  | some e => (.object e.object, s.1.set list ((s.1.entries list).eraseP p), s.2)

/-- The `del` family gives the reference of the first match up. -/
def delFirst (ops : ObjectOps π ω) (s : Sequences π × ω) (list : Ptr) (p : Entry → Bool) :
    Option (Answer × Sequences π × ω) :=
  match (s.1.entries list).find? p with
  | none => some (.status (-1), s)
  | some e => do
    let proc ← s.1.proc list
    let objs ← ops.release proc s.2 e.object
    some (.status AWE_OK, s.1.set list ((s.1.entries list).eraseP p), objs)

def releaseAll (ops : ObjectOps π ω) (proc : π) : List Entry → ω → Option ω
  | [], objs => some objs
  | e :: es, objs => do
    let objs ← ops.release proc objs e.object
    releaseAll ops proc es objs

def objectOf (e : Option Entry) : Answer := .object ((e.map Entry.object).getD NULL)

/-- The operations on sequences. Not allowed for: calls on memory that is no list, a new
node where one lies already, `del2` with a node of another list, more than `limit` nodes. -/
def step (ops : ObjectOps π ω) (limit : Nat) (s : Sequences π × ω) :
    Op π → Option (Answer × Sequences π × ω)
  | .init list proc =>
    if s.1.NotNode list then some (.status AWE_OK, s.1.init list proc, s.2) else none
  | .add list obj node =>
    if list ∈ s.1.heads ∧ node ≠ NULL ∧ node ∉ s.1.heads ∧ s.1.NotNode node ∧
        (s.1.entries list).length < limit then
      (ops.refInc s.2 obj).map (fun objs =>
        (.status AWE_OK, s.1.set list (s.1.entries list ++ [⟨node, obj⟩]), objs))
    else none
  | .removeFirst list => if list ∈ s.1.heads then some (takeFirst s list (fun _ => true)) else none
  | .remove list equals =>
    if list ∈ s.1.heads then some (takeFirst s list (fun e => equals e.object)) else none
  | .del list obj =>
    if list ∈ s.1.heads then delFirst ops s list (fun e => e.object = obj) else none
  | .del2 list pos =>
    if list ∈ s.1.heads ∧ pos ∈ s.1.nodes list then delFirst ops s list (fun e => e.node = pos)
    else none
  | .del3 list equals =>
    if list ∈ s.1.heads then delFirst ops s list (fun e => equals e.object) else none
  | .clear list =>
    if list ∈ s.1.heads then do
      let proc ← s.1.proc list
      let objs ← releaseAll ops proc (s.1.entries list) s.2
      some (.done, s.1.set list [], objs)
    else none
  | .contains list obj =>
    if list ∈ s.1.heads then some (.bool (obj ∈ s.1.objects list), s) else none
  | .get list equals =>
    if list ∈ s.1.heads then
      some (objectOf ((s.1.entries list).find? (fun e => equals e.object)), s)
    else none
  | .getFirst list =>
    if list ∈ s.1.heads then some (objectOf (s.1.entries list).head?, s) else none
  | .getLast list =>
    if list ∈ s.1.heads then some (objectOf (s.1.entries list).getLast?, s) else none
  | .getByIndex list index =>
    if list ∈ s.1.heads then
      some (objectOf (if 0 ≤ index.toInt then (s.1.entries list)[index.toInt.toNat]? else none), s)
    else none
  | .size list =>
    if list ∈ s.1.heads then some (.size (s.1.entries list).length, s) else none

def Within (limit : Nat) (s : Sequences π) : Prop :=
  ∀ l ∈ s.heads, (s.entries l).length ≤ limit

theorem Within.set {limit : Nat} {s : Sequences π} (h : s.Within limit) {list : Ptr}
    {es : List Entry} (hes : es.length ≤ limit) : (s.set list es).Within limit := by
  intro l hl
  by_cases hne : l = list
  · subst hne
    rwa [set_entries_same]
  · rw [set_entries_other _ hne]
    exact h l hl

theorem Within.takeFirst {limit : Nat} {s t : Sequences π × ω} {a : Answer}
    (h : s.1.Within limit) {list : Ptr} (hl : list ∈ s.1.heads) {p : Entry → Bool}
    (ht : Sequences.takeFirst s list p = (a, t)) : t.1.Within limit := by
  unfold Sequences.takeFirst at ht
  split at ht
  · cases ht
    exact h
  · cases ht
    exact h.set (Nat.le_trans List.length_eraseP_le (h list hl))

theorem Within.delFirst {ops : ObjectOps π ω} {limit : Nat} {s t : Sequences π × ω} {a : Answer}
    (h : s.1.Within limit) {list : Ptr} (hl : list ∈ s.1.heads) {p : Entry → Bool}
    (ht : Sequences.delFirst ops s list p = some (a, t)) : t.1.Within limit := by
  unfold Sequences.delFirst at ht
  split at ht
  · cases ht
    exact h
  · obtain ⟨_, _, ht⟩ := Option.bind_eq_some_iff.mp ht
    obtain ⟨_, _, ht⟩ := Option.bind_eq_some_iff.mp ht
    cases ht
    exact h.set (Nat.le_trans List.length_eraseP_le (h list hl))

theorem Within.step {ops : ObjectOps π ω} {limit : Nat} {s t : Sequences π × ω} {op : Op π}
    {a : Answer} (h : s.1.Within limit) (ht : step ops limit s op = some (a, t)) :
    t.1.Within limit := by
  cases op with
  | init list proc =>
    simp only [Sequences.step] at ht
    split at ht <;> cases ht
    intro l hl
    by_cases hne : l = list
    · subst hne
      simp [init]
    · simpa [init, hne] using h l ((List.mem_insert_iff.mp hl).resolve_left hne)
  | add list obj node =>
    simp only [Sequences.step] at ht
    obtain ⟨hok, ht⟩ := Option.ite_none_right_eq_some.mp ht
    obtain ⟨objs, _, ht⟩ := Option.map_eq_some_iff.mp ht
    cases ht
    exact h.set (by simpa using Nat.succ_le_of_lt hok.2.2.2.2)
  | clear list =>
    simp only [Sequences.step] at ht
    obtain ⟨_, ht⟩ := Option.ite_none_right_eq_some.mp ht
    obtain ⟨_, _, ht⟩ := Option.bind_eq_some_iff.mp ht
    obtain ⟨_, _, ht⟩ := Option.bind_eq_some_iff.mp ht
    cases ht
    exact h.set (Nat.zero_le _)
  | removeFirst list | remove list equals =>
    simp only [Sequences.step] at ht
    obtain ⟨_, ht⟩ := Option.ite_none_right_eq_some.mp ht
    exact h.takeFirst (by assumption) (Option.some.inj ht)
  | del list obj | del3 list equals =>
    simp only [Sequences.step] at ht
    obtain ⟨_, ht⟩ := Option.ite_none_right_eq_some.mp ht
    exact h.delFirst (by assumption) ht
  | del2 list pos =>
    simp only [Sequences.step] at ht
    obtain ⟨hok, ht⟩ := Option.ite_none_right_eq_some.mp ht
    exact h.delFirst hok.1 ht
  | contains | get | getFirst | getLast | getByIndex | size =>
    simp only [Sequences.step] at ht
    split at ht <;> cases ht
    exact h

section Follows

variable {ω' : Type} {ops : ObjectOps π ω} {ops' : ObjectOps π ω'} {rel : ω' → ω → Prop}
  {s t : Sequences π} {objs u : ω} {objs' : ω'}

/-- Other objects, which `rel` relates, count and release as those of `ops` do. -/
structure Follows (ops' : ObjectOps π ω') (ops : ObjectOps π ω) (rel : ω' → ω → Prop) :
    Prop where
  refInc : ∀ {objs' objs u obj}, rel objs' objs → ops.refInc objs obj = some u →
    ∃ u', ops'.refInc objs' obj = some u' ∧ rel u' u
  release : ∀ {proc objs' objs u obj}, rel objs' objs → ops.release proc objs obj = some u →
    ∃ u', ops'.release proc objs' obj = some u' ∧ rel u' u

theorem Follows.releaseAll (h : Follows ops' ops rel) {proc : π} {es : List Entry}
    (hrel : rel objs' objs) (hu : Sequences.releaseAll ops proc es objs = some u) :
    ∃ u', Sequences.releaseAll ops' proc es objs' = some u' ∧ rel u' u := by
  induction es generalizing objs objs' with
  | nil =>
    cases hu
    exact ⟨objs', rfl, hrel⟩
  | cons e es ih =>
    obtain ⟨m, hm, hu⟩ := Option.bind_eq_some_iff.mp hu
    obtain ⟨m', hm', hrel⟩ := h.release hrel hm
    obtain ⟨u', hu', hrel⟩ := ih hrel hu
    exact ⟨u', Option.bind_eq_some_iff.mpr ⟨m', hm', hu'⟩, hrel⟩

theorem Follows.delFirst (h : Follows ops' ops rel) {list : Ptr} {p : Entry → Bool} {a : Answer}
    (hrel : rel objs' objs) (ht : Sequences.delFirst ops (s, objs) list p = some (a, t, u)) :
    ∃ u', Sequences.delFirst ops' (s, objs') list p = some (a, t, u') ∧ rel u' u := by
  unfold Sequences.delFirst at ht ⊢
  cases hfind : (s.entries list).find? p with
  | none =>
    rw [hfind] at ht
    cases ht
    exact ⟨objs', rfl, hrel⟩
  | some e =>
    rw [hfind] at ht
    obtain ⟨proc, hproc, ht⟩ := Option.bind_eq_some_iff.mp ht
    obtain ⟨m, hm, ht⟩ := Option.bind_eq_some_iff.mp ht
    cases ht
    obtain ⟨m', hm', hrel⟩ := h.release hrel hm
    exact ⟨m', Option.bind_eq_some_iff.mpr ⟨proc, hproc, Option.bind_eq_some_iff.mpr
      ⟨m', hm', rfl⟩⟩, hrel⟩

theorem takeFirst_eq (s : Sequences π) (objs : ω) (list : Ptr) (p : Entry → Bool) :
    Sequences.takeFirst (s, objs) list p =
      ((Sequences.takeFirst (s, ()) list p).1, (Sequences.takeFirst (s, ()) list p).2.1, objs) := by
  unfold Sequences.takeFirst
  cases (s.entries list).find? p <;> rfl

/-- What an operation does to the sequences, and its answer, come from the sequences. -/
theorem Follows.step (h : Follows ops' ops rel) {limit : Nat} {op : Op π} {a : Answer}
    (hrel : rel objs' objs) (ht : Sequences.step ops limit (s, objs) op = some (a, t, u)) :
    ∃ u', Sequences.step ops' limit (s, objs') op = some (a, t, u') ∧ rel u' u := by
  cases op with
  | init list proc =>
    simp only [Sequences.step] at ht ⊢
    obtain ⟨hok, ht⟩ := Option.ite_none_right_eq_some.mp ht
    cases ht
    exact ⟨objs', if_pos hok, hrel⟩
  | add list obj node =>
    simp only [Sequences.step] at ht ⊢
    obtain ⟨hok, ht⟩ := Option.ite_none_right_eq_some.mp ht
    obtain ⟨m, hm, ht⟩ := Option.map_eq_some_iff.mp ht
    cases ht
    obtain ⟨m', hm', hrel⟩ := h.refInc hrel hm
    exact ⟨m', by rw [if_pos hok, hm', Option.map_some], hrel⟩
  | clear list =>
    simp only [Sequences.step] at ht ⊢
    obtain ⟨hok, ht⟩ := Option.ite_none_right_eq_some.mp ht
    obtain ⟨proc, hproc, ht⟩ := Option.bind_eq_some_iff.mp ht
    obtain ⟨m, hm, ht⟩ := Option.bind_eq_some_iff.mp ht
    cases ht
    obtain ⟨m', hm', hrel⟩ := h.releaseAll hrel hm
    refine ⟨m', ?_, hrel⟩
    rw [if_pos hok]
    exact Option.bind_eq_some_iff.mpr ⟨proc, hproc, Option.bind_eq_some_iff.mpr ⟨m', hm', rfl⟩⟩
  | del list obj | del3 list equals =>
    simp only [Sequences.step] at ht ⊢
    obtain ⟨hok, ht⟩ := Option.ite_none_right_eq_some.mp ht
    rw [if_pos hok]
    exact h.delFirst hrel ht
  | del2 list pos =>
    simp only [Sequences.step] at ht ⊢
    obtain ⟨hok, ht⟩ := Option.ite_none_right_eq_some.mp ht
    rw [if_pos hok]
    exact h.delFirst hrel ht
  | removeFirst list | remove list equals =>
    simp only [Sequences.step] at ht ⊢
    obtain ⟨hok, ht⟩ := Option.ite_none_right_eq_some.mp ht
    rw [takeFirst_eq] at ht
    cases ht
    exact ⟨objs', by rw [if_pos hok, takeFirst_eq], hrel⟩
  | contains | get | getFirst | getLast | getByIndex | size =>
    simp only [Sequences.step] at ht ⊢
    obtain ⟨hok, ht⟩ := Option.ite_none_right_eq_some.mp ht
    cases ht
    exact ⟨objs', if_pos hok, hrel⟩

end Follows

end Sequences

/-- The pointers hold the sequences: each list is one ring through its head, and no
place is used twice. -/
structure Represents (m : LinkedList π) (s : Sequences π) : Prop where
  ring : ∀ l ∈ s.heads, Ring m.next m.prev l (s.nodes l)
  apart : ∀ l ∈ s.heads, ∀ x ∈ s.nodes l, x ∉ s.heads ∧ ∀ l' ∈ s.heads, x ∈ s.nodes l' → l' = l
  object : ∀ l ∈ s.heads, ∀ e ∈ s.entries l, m.object e.node = some e.object
  header : ∀ l ∈ s.heads, ∃ p, s.proc l = some p ∧
    m.lists l = some ⟨p, BitVec.ofNat 32 (s.entries l).length⟩

theorem represents_empty : Represents (empty : LinkedList π) Sequences.empty := by
  constructor <;> simp [Sequences.empty]

/-- One list changed, with nodes of its own or new ones, and nothing else touched. -/
theorem Represents.set {m m' : LinkedList π} {s : Sequences π} {list : Ptr} {es : List Entry}
    {p : π} (h : Represents m s) (hring : Ring m'.next m'.prev list (es.map Entry.node))
    (hobject : ∀ e ∈ es, m'.object e.node = some e.object) (hproc : s.proc list = some p)
    (hlists : m'.lists =
      Function.update m.lists list (some ⟨p, BitVec.ofNat 32 es.length⟩))
    (hl : list ∈ s.heads)
    (hnew : ∀ x ∈ es.map Entry.node, x ∈ s.nodes list ∨ x ∉ s.heads ∧ s.NotNode x)
    (hframe : ∀ x, x ∉ list :: s.nodes list → x ∉ es.map Entry.node →
      m'.next x = m.next x ∧ m'.prev x = m.prev x ∧ m'.object x = m.object x) :
    Represents m' (s.set list es) := by
  -- the places of another list are out of reach
  have hother : ∀ l ∈ s.heads, l ≠ list → ∀ x ∈ l :: s.nodes l,
      x ∉ list :: s.nodes list ∧ x ∉ es.map Entry.node := by
    intro l hlmem hne x hx
    have hfar : x ∉ list :: s.nodes list := by
      intro hm
      rcases List.mem_cons.mp hx with rfl | hx <;> rcases List.mem_cons.mp hm with rfl | hm
      · exact hne rfl
      · exact (h.apart list hl x hm).1 hlmem
      · exact (h.apart l hlmem x hx).1 hl
      · exact hne ((h.apart l hlmem x hx).2 list hl hm).symm
    refine ⟨hfar, fun hm => ?_⟩
    rcases hnew x hm with hm | ⟨hnh, hnn⟩
    · exact hfar (List.mem_cons_of_mem _ hm)
    · rcases List.mem_cons.mp hx with rfl | hx
      · exact hnh hlmem
      · exact hnn l hlmem hx
  constructor
  · intro l hlmem
    by_cases hne : l = list
    · subst hne
      simpa using hring
    · have hold := h.ring l hlmem
      rw [Sequences.set_nodes_other _ hne]
      refine ⟨hold.1.frame (fun x hx => ?_) (fun x hx => ?_), hold.2⟩
      · exact (hframe x (hother l hlmem hne x hx).1 (hother l hlmem hne x hx).2).1
      · exact (hframe x (hother l hlmem hne x hx).1 (hother l hlmem hne x hx).2).2.1
  · intro l hlmem x hx
    by_cases hne : l = list
    · subst hne
      rw [Sequences.set_nodes_same] at hx
      refine ⟨?_, fun l' hl' hx' => ?_⟩
      · rcases hnew x hx with hold | hfree
        · exact (h.apart l hl x hold).1
        · exact hfree.1
      · by_contra hne'
        rw [Sequences.set_nodes_other _ hne'] at hx'
        exact (hother l' hl' hne' x (List.mem_cons_of_mem _ hx')).2 hx
    · rw [Sequences.set_nodes_other _ hne] at hx
      refine ⟨(h.apart l hlmem x hx).1, fun l' hl' hx' => ?_⟩
      by_cases hlist : l' = list
      · subst hlist
        rw [Sequences.set_nodes_same] at hx'
        exact absurd hx' (hother l hlmem hne x (List.mem_cons_of_mem _ hx)).2
      · rw [Sequences.set_nodes_other _ hlist] at hx'
        exact (h.apart l hlmem x hx).2 l' hl' hx'
  · intro l hlmem e he
    by_cases hne : l = list
    · subst hne
      exact hobject e (by simpa using he)
    · rw [Sequences.set_entries_other _ hne] at he
      have hx : e.node ∈ l :: s.nodes l := List.mem_cons_of_mem _ (List.mem_map_of_mem he)
      rw [(hframe _ (hother l hlmem hne _ hx).1 (hother l hlmem hne _ hx).2).2.2]
      exact h.object l hlmem e he
  · intro l hlmem
    by_cases hne : l = list
    · subst hne
      exact ⟨p, hproc, by simp [hlists]⟩
    · obtain ⟨q, hq, hheader⟩ := h.header l hlmem
      exact ⟨q, hq, by rw [hlists, Function.update_of_ne hne, hheader,
        Sequences.set_entries_other _ hne]⟩

theorem setSize_spec {m : LinkedList π} {list : Ptr} {p : π} {n : BitVec 32}
    (h : m.lists list = some ⟨p, n⟩) (f : BitVec 32 → BitVec 32) :
    ∃ m', m.setSize list f = some m' ∧
      m'.lists = Function.update m.lists list (some ⟨p, f n⟩) ∧
      m'.next = m.next ∧ m'.prev = m.prev ∧ m'.object = m.object :=
  ⟨_, Option.map_eq_some_iff.mpr ⟨_, h, rfl⟩, rfl, rfl, rfl, rfl⟩

theorem next_linkedObjCreate (m : LinkedList π) (node obj : Ptr) :
    (m.linkedObjCreate node obj).next = Function.update m.next node (some NULL) := by
  funext q
  by_cases hq : q = node
  · subst hq
    simp [next, linkedObjCreate]
  · simp [next, linkedObjCreate, hq]

theorem prev_linkedObjCreate (m : LinkedList π) (node obj : Ptr) :
    (m.linkedObjCreate node obj).prev = Function.update m.prev node (some NULL) := by
  funext q
  by_cases hq : q = node
  · subst hq
    simp [prev, linkedObjCreate]
  · simp [prev, linkedObjCreate, hq]

theorem next_linkedObjFree (m : LinkedList π) (node : Ptr) :
    (m.linkedObjFree node).next = Function.update m.next node none := by
  funext q
  by_cases hq : q = node
  · subst hq
    simp [next, linkedObjFree]
  · simp [next, linkedObjFree, hq]

theorem prev_linkedObjFree (m : LinkedList π) (node : Ptr) :
    (m.linkedObjFree node).prev = Function.update m.prev node none := by
  funext q
  by_cases hq : q = node
  · subst hq
    simp [prev, linkedObjFree]
  · simp [prev, linkedObjFree, hq]

/-- A new node goes behind the last one. -/
theorem Represents.add {m : LinkedList π} {s : Sequences π} {list node : Ptr} (obj : Ptr)
    (h : Represents m s) (hl : list ∈ s.heads) (hhead : node ∉ s.heads) (hnode : s.NotNode node) :
    ∃ m', (m.linkedObjCreate node obj).addToList list node = some m' ∧
      Represents m' (s.set list (s.entries list ++ [⟨node, obj⟩])) := by
  obtain ⟨proc, hproc, hheader⟩ := h.header list hl
  have hring := h.ring list hl
  obtain ⟨p, hp, hpmem, hpn⟩ := hring.1.prev_end
  have hnew : node ∉ list :: s.nodes list := by
    intro hm
    rcases List.mem_cons.mp hm with rfl | hm
    · exact hhead hl
    · exact hnode list hl hm
  have hne : ∀ x ∈ list :: s.nodes list, x ≠ node := fun x hx he => hnew (he ▸ hx)
  have hlist := hne list (by simp)
  have hpne := hne p hpmem
  have hp' : (m.linkedObjCreate node obj).prev list = some p := by
    simp [prev_linkedObjCreate, hlist, hp]
  have hnode' : (m.linkedObjCreate node obj).next node ≠ none := by simp [next_linkedObjCreate]
  have hpn' : (m.linkedObjCreate node obj).next p ≠ none := by
    simp [next_linkedObjCreate, hpne, hpn]
  obtain ⟨m1, h1, hn1, hv1, ho1, hl1⟩ := listAddTail_spec hp' hnode' hpn'
  rw [next_linkedObjCreate] at hn1
  rw [prev_linkedObjCreate] at hv1
  obtain ⟨m2, h2, hl2, hn2, hv2, ho2⟩ := setSize_spec (m := m1) (hl1 ▸ hheader) (· + 1)
  rw [← hn2] at hn1
  rw [← hv2] at hv1
  refine ⟨m2, by simp only [addToList, h1, h2, Option.bind_eq_bind, Option.bind_some], ?_⟩
  refine h.set ?_ ?_ hproc ?_ hl ?_ ?_
  · rw [List.map_append]
    refine hring.insert_last hnew hp (fun y hy hyp => ?_) (fun y hy => ?_) ?_ ?_ ?_ ?_
    · simp [hn1, hyp, hne y hy]
    · have hyl : y ≠ list := by
        intro heq
        subst heq
        exact (List.nodup_cons.mp hring.2).1 hy
      simp [hv1, hyl, hne y (List.mem_cons_of_mem _ hy)]
    · simp [hn1]
    · simp [hn1, Ne.symm hpne]
    · simp [hv1, hlist]
    · simp [hv1]
  · intro e he
    rw [ho2, ho1]
    rcases List.mem_append.mp he with he | he
    · have hen : e.node ≠ node := hne _ (List.mem_cons_of_mem _ (List.mem_map_of_mem he))
      simp [linkedObjCreate, hen, h.object list hl e he]
    · rw [List.mem_singleton.mp he]
      simp [linkedObjCreate]
  · rw [hl2, hl1, List.length_append, List.length_singleton, BitVec.ofNat_add]
    rfl
  · intro x hx
    rw [List.map_append] at hx
    rcases List.mem_append.mp hx with hx | hx
    · exact Or.inl hx
    · rw [List.map_singleton, List.mem_singleton] at hx
      exact Or.inr (hx ▸ ⟨hhead, hnode⟩)
  · intro x hx hx'
    have hxn : x ≠ node := by
      intro heq
      subst heq
      simp at hx'
    have hxp : x ≠ p := fun he => hx (he ▸ hpmem)
    have hxl : x ≠ list := fun he => hx (he ▸ List.mem_cons_self)
    rw [ho2, ho1]
    simp [hn1, hv1, hxn, hxp, hxl, linkedObjCreate]

/-- A node unlinked and freed, with the size counted down in between. -/
theorem Represents.unlink {m : LinkedList π} {s : Sequences π} {list : Ptr} {e : Entry}
    {front rear : List Entry} (h : Represents m s) (hl : list ∈ s.heads)
    (hsplit : s.entries list = front ++ e :: rear) :
    ∃ m1 m2 p n, m.listDel e.node = some m1 ∧ m1.setSize list (· - 1) = some m2 ∧
      m2.object e.node = some e.object ∧ s.proc list = some p ∧ m2.lists list = some ⟨p, n⟩ ∧
      Represents (m2.linkedObjFree e.node) (s.set list (front ++ rear)) := by
  obtain ⟨proc, hproc, hheader⟩ := h.header list hl
  have hring := h.ring list hl
  have hnodes : s.nodes list = front.map Entry.node ++ e.node :: rear.map Entry.node := by
    simp [Sequences.nodes, hsplit]
  rw [hnodes] at hring
  obtain ⟨hfront, hrear⟩ := seg_append.mp hring.1
  obtain ⟨p, hp, hpmem, hpn⟩ := hfront.prev_end
  obtain ⟨q, hq, hqmem, hqv⟩ := hrear.next_start
  obtain ⟨m1, h1, hn1, hv1, ho1, hl1⟩ := listDel_spec hp hq (by simp [hpn])
    (by simp [next_eq_none, hqv])
  obtain ⟨m2, h2, hl2, hn2, hv2, ho2⟩ := setSize_spec (m := m1) (hl1 ▸ hheader) (· - 1)
  refine ⟨m1, m2, proc, _, h1, h2, ?_, hproc, by rw [hl2, Function.update_self], ?_⟩
  · rw [ho2, ho1]
    exact h.object list hl e (by simp [hsplit])
  have hperm : (list :: (front.map Entry.node ++ e.node :: rear.map Entry.node)).Perm
      (e.node :: list :: (front.map Entry.node ++ rear.map Entry.node)) :=
    (List.perm_middle.cons list).trans (List.Perm.swap ..)
  have hgone := (List.nodup_cons.mp (hperm.nodup_iff.mp hring.2)).1
  have hne : ∀ y ∈ list :: (front.map Entry.node ++ rear.map Entry.node), y ≠ e.node :=
    fun y hy he => hgone (he ▸ hy)
  have hpne : p ≠ e.node := hne p (by simp only [List.mem_cons, List.mem_append] at hpmem ⊢; tauto)
  have hqne : q ≠ e.node := hne q (by simp only [List.mem_cons, List.mem_append] at hqmem ⊢; tauto)
  have hnext : (m2.linkedObjFree e.node).next = Function.update (Function.update (Function.update
      m.next p (some q)) e.node (some NULL)) e.node none := by
    rw [next_linkedObjFree, hn2, hn1]
  have hprev : (m2.linkedObjFree e.node).prev = Function.update (Function.update (Function.update
      m.prev q (some p)) e.node (some NULL)) e.node none := by
    rw [prev_linkedObjFree, hv2, hv1]
  refine h.set ?_ ?_ hproc ?_ hl ?_ ?_
  · rw [List.map_append]
    refine hring.remove hp hq (fun y hy hyp => ?_) (fun y hy hyq => ?_) ?_ ?_
    · simp [hnext, hyp, hne y hy]
    · simp [hprev, hyq, hne y hy]
    · simp [hnext, hpne]
    · simp [hprev, hqne]
  · intro f hf
    have hfn : f.node ≠ e.node := hne _ (List.mem_cons_of_mem _ (by
      rw [← List.map_append]
      exact List.mem_map_of_mem hf))
    have hold : f ∈ s.entries list := by
      rw [hsplit]
      simp only [List.mem_append, List.mem_cons] at hf ⊢
      tauto
    simp [linkedObjFree, hfn, ho2, ho1, h.object list hl f hold]
  · have hlen : (s.entries list).length = (front ++ rear).length + 1 := by
      simp [hsplit]
      omega
    have hdown : ∀ n : BitVec 32, n + 1#32 - 1 = n := fun n => BitVec.add_sub_cancel n 1#32
    rw [show (m2.linkedObjFree e.node).lists = m2.lists from rfl, hl2, hl1, hlen,
      BitVec.ofNat_add, hdown]
  · intro x hx
    apply Or.inl
    rw [hnodes]
    simp only [List.map_append, List.mem_append, List.mem_cons] at hx ⊢
    tauto
  · intro x hx _
    rw [hnodes] at hx
    simp only [List.mem_cons, List.mem_append, not_or] at hx hpmem hqmem
    have hxe : x ≠ e.node := hx.2.2.1
    have hxp : x ≠ p := by
      intro heq
      subst heq
      tauto
    have hxq : x ≠ q := by
      intro heq
      subst heq
      tauto
    refine ⟨by simp [hnext, hxe, hxp], by simp [hprev, hxe, hxq], ?_⟩
    simp [linkedObjFree, hxe, ho2, ho1]

end Awe.LinkedList
