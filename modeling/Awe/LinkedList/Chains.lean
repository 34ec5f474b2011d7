import Awe.Lib.Transducer
import Awe.LinkedList.Heads

namespace Awe.LinkedList
open Cycle Transducer

structure Chain where
  head : Ptr
  entries : List Ptr
  deriving DecidableEq

/-- The chains there are, over the places that `list_head`s are at. A place on none of
them may hold any pointers. -/
structure Chains where
  places : List Ptr
  chains : List Chain

/-- The functions and loops of `dlist.h` over any number of lists. -/
inductive ChainOp where
  | init (p : Ptr)
  | add (node pos : Ptr)
  | addTail (node pos : Ptr)
  | del (entry : Ptr)
  | delInit (entry : Ptr)
  | move (list pos : Ptr)
  | moveTail (list pos : Ptr)
  | splice (list pos : Ptr)
  | spliceInit (list pos : Ptr)
  | empty (head : Ptr)
  | forEach (head : Ptr)
  | forEachPrev (head : Ptr)

inductive ChainAnswer where
  | done
  | empty (b : Bool)
  | seen (entries : List Ptr)
  deriving DecidableEq

namespace Chain

def places (c : Chain) : List Ptr := c.head :: c.entries

def after (c : Chain) (pos : Ptr) (block : List Ptr) : Chain where
  head := c.head
  entries :=
    if pos = c.head then block ++ c.entries
    else c.entries.flatMap (fun x => if x = pos then x :: block else [x])

def before (c : Chain) (pos node : Ptr) : Chain where
  head := c.head
  entries :=
    if pos = c.head then c.entries ++ [node]
    else c.entries.flatMap (fun x => if x = pos then [node, x] else [x])

end Chain

namespace Chains

def take (s : Chains) (p : Ptr) : Option (Chain × Chains) :=
  (s.chains.find? (fun c => p ∈ c.places)).map (fun c =>
    (c, { s with chains := s.chains.erase c }))

def cons (c : Chain) (s : Chains) : Chains := { s with chains := c :: s.chains }

/-- The chains once `node` is on none of them. It may be the head of an empty one. -/
def spare (s : Chains) (node : Ptr) : Option Chains :=
  match s.take node with
  | none => if node ∈ s.places then some s else none
  | some (c, rest) => if c = ⟨node, []⟩ then some rest else none

/-- The chains without `entry`, an entry or the head of an empty one. -/
def unlink (s : Chains) (entry : Ptr) : Option Chains := do
  let (c, rest) ← s.take entry
  if c = ⟨entry, []⟩ then some rest
  else if entry = c.head then none
  else some (rest.cons ⟨c.head, c.entries.erase entry⟩)

def add (s : Chains) (node pos : Ptr) : Option Chains := do
  let s ← s.spare node
  let (c, rest) ← s.take pos
  some (rest.cons (c.after pos [node]))

def addTail (s : Chains) (node pos : Ptr) : Option Chains := do
  let s ← s.spare node
  let (c, rest) ← s.take pos
  some (rest.cons (c.before pos node))

/-- The entries of `list` behind `pos`, a place of another chain; the head is left as it
is, and is no head any more unless it was one of nothing. -/
def splice (s : Chains) (list pos : Ptr) : Option Chains := do
  let (c, rest) ← s.take list
  if c.head ≠ list then none
  else if c.entries = [] then some s
  else
    let (d, rest) ← rest.take pos
    some (rest.cons (d.after pos c.entries))

def entries (s : Chains) (head : Ptr) : Option (List Ptr) :=
  (s.chains.find? (fun c => c.head = head)).map Chain.entries

/-- The operations on chains; `none` where the caller has no right to them: a node that is
an entry already, a place of no list, a head where an entry is asked for. -/
def step (s : Chains) : ChainOp → Option (ChainAnswer × Chains)
  | .init p => (s.spare p).map (fun t => (.done, t.cons ⟨p, []⟩))
  | .add node pos => (s.add node pos).map (fun t => (.done, t))
  | .addTail node pos => (s.addTail node pos).map (fun t => (.done, t))
  | .del entry => (s.unlink entry).map (fun t => (.done, t))
  | .delInit entry => (s.unlink entry).map (fun t => (.done, t.cons ⟨entry, []⟩))
  | .move list pos => do
    let t ← s.unlink list
    (t.add list pos).map (fun t => (.done, t))
  | .moveTail list pos => do
    let t ← s.unlink list
    (t.addTail list pos).map (fun t => (.done, t))
  | .splice list pos => (s.splice list pos).map (fun t => (.done, t))
  | .spliceInit list pos => do
    let t ← s.splice list pos
    let u ← t.spare list
    some (.done, u.cons ⟨list, []⟩)
  | .empty head => (s.take head).map (fun r => (.empty (r.1.entries = []), s))
  | .forEach head => (s.entries head).map (fun es => (.seen es, s))
  | .forEachPrev head => (s.entries head).map (fun es => (.seen es.reverse, s))

end Chains

/-- The same calls on the pointers, with `fuel` rounds for a loop. -/
def chainStep (fuel : Nat) (m : LinkedList Unit) : ChainOp → Option (ChainAnswer × LinkedList Unit)
  | .init p => (m.initListHead p).map (fun m => (.done, m))
  | .add node pos => (m.listAddFirst node pos).map (fun m => (.done, m))
  | .addTail node pos => (m.listAddTail node pos).map (fun m => (.done, m))
  | .del entry => (m.listDel entry).map (fun m => (.done, m))
  | .delInit entry => (m.listDelInit entry).map (fun m => (.done, m))
  | .move list pos => (m.listMove list pos).map (fun m => (.done, m))
  | .moveTail list pos => (m.listMoveTail list pos).map (fun m => (.done, m))
  | .splice list pos => (m.listSplice list pos).map (fun m => (.done, m))
  | .spliceInit list pos => (m.listSpliceInit list pos).map (fun m => (.done, m))
  | .empty head => (m.listEmpty head).map (fun b => (.empty b, m))
  | .forEach head => (m.visit fuel head).bind (fun r => r.getLeft?.map (fun es => (.seen es, m)))
  | .forEachPrev head =>
    (m.visitPrev fuel head).bind (fun r => r.getLeft?.map (fun es => (.seen es, m)))

/-- The pointers of `m` are the chains of `s`, no place is on two of them, and every place
is allocated. -/
structure Chained (m : LinkedList Unit) (s : Chains) : Prop where
  ring : ∀ c ∈ s.chains, Ring m.next m.prev c.head c.entries
  apart : (s.chains.flatMap Chain.places).Nodup
  placed : ∀ c ∈ s.chains, ∀ p ∈ c.places, p ∈ s.places
  allocated : ∀ p ∈ s.places, m.next p ≠ none

section Chained

variable {m m' : LinkedList Unit} {s t : Chains} {c d : Chain} {p q pos node : Ptr}
  {ys : List Ptr}

theorem Chained.perm (h : Chained m s) (hp : s.chains.Perm t.chains) (ht : t.places = s.places) :
    Chained m t where
  ring c hc := h.ring c (hp.mem_iff.mpr hc)
  apart := (hp.flatMap_right Chain.places).nodup_iff.mp h.apart
  placed c hc := ht ▸ h.placed c (hp.mem_iff.mpr hc)
  allocated := ht ▸ h.allocated

theorem take_some {rest : Chains} (ht : s.take p = some (c, rest)) :
    p ∈ c.places ∧ s.chains.Perm (rest.cons c).chains ∧ rest.places = s.places := by
  obtain ⟨_, hfind, he⟩ := Option.map_eq_some_iff.mp ht
  cases he
  have hin := List.find?_some hfind
  exact ⟨by simpa using hin, List.perm_cons_erase (List.mem_of_find?_eq_some hfind), rfl⟩

theorem take_none : s.take p = none ↔ ∀ c ∈ s.chains, p ∉ c.places := by
  simp [Chains.take]

/-- What is known of one chain and the others, when the one is in hand. -/
structure Taken (m : LinkedList Unit) (c : Chain) (rest : Chains) : Prop where
  ring : Ring m.next m.prev c.head c.entries
  others : Chained m rest
  apart : ∀ d ∈ rest.chains, ∀ q ∈ d.places, q ∉ c.places
  placed : ∀ q ∈ c.places, q ∈ rest.places

theorem taken_iff {rest : Chains} : Chained m (rest.cons c) ↔ Taken m c rest := by
  constructor
  · intro h
    have hnodup : (c.places ++ rest.chains.flatMap Chain.places).Nodup := h.apart
    obtain ⟨_, hrest, hapart⟩ := List.nodup_append.mp hnodup
    refine ⟨h.ring c List.mem_cons_self, ⟨?_, hrest, ?_, h.allocated⟩, ?_, ?_⟩
    · exact fun d hd => h.ring d (List.mem_cons_of_mem _ hd)
    · exact fun d hd => h.placed d (List.mem_cons_of_mem _ hd)
    · exact fun d hd q hq hc => hapart q hc q (List.mem_flatMap.mpr ⟨d, hd, hq⟩) rfl
    · exact h.placed c List.mem_cons_self
  · intro h
    refine ⟨?_, ?_, ?_, h.others.allocated⟩
    · intro d hd
      rcases List.mem_cons.mp hd with rfl | hd
      · exact h.ring
      · exact h.others.ring d hd
    · refine List.nodup_append.mpr ⟨h.ring.2, h.others.apart, ?_⟩
      rintro q hq _ hq' rfl
      obtain ⟨d, hd, hqd⟩ := List.mem_flatMap.mp hq'
      exact h.apart d hd q hqd hq
    · intro d hd
      rcases List.mem_cons.mp hd with rfl | hd
      · exact h.placed
      · exact h.others.placed d hd

theorem Chained.take {rest : Chains} (h : Chained m s) (ht : s.take p = some (c, rest)) :
    Taken m c rest ∧ p ∈ c.places ∧ rest.places = s.places := by
  obtain ⟨hp, hperm, hplaces⟩ := take_some ht
  exact ⟨taken_iff.mp (h.perm hperm (by exact hplaces)), hp, hplaces⟩

/-- Chains are read off the links of their own places. -/
theorem Chained.frame (h : Chained m s) (hn : ∀ c ∈ s.chains, ∀ q ∈ c.places, m'.next q = m.next q)
    (hv : ∀ c ∈ s.chains, ∀ q ∈ c.places, m'.prev q = m.prev q)
    (hallocated : ∀ q, m.next q ≠ none → m'.next q ≠ none) : Chained m' s where
  ring c hc := ⟨(h.ring c hc).1.frame (hn c hc) (hv c hc), (h.ring c hc).2⟩
  apart := h.apart
  placed := h.placed
  allocated q hq := hallocated q (h.allocated q hq)

/-- `node` is a place on no chain, whose links are nobody's business. -/
def Spare (s : Chains) (node : Ptr) : Prop := node ∈ s.places ∧ ∀ c ∈ s.chains, node ∉ c.places

theorem Spare.ne (h : Spare s node) (hc : c ∈ s.chains) (hq : q ∈ c.places) : q ≠ node :=
  fun he => h.2 c hc (he ▸ hq)

/-- Links written to a spare place only. -/
theorem Chained.frame_spare (h : Chained m s) (hspare : Spare s node) {v w : Ptr}
    (hn : m'.next = Function.update m.next node (some v))
    (hv : m'.prev = Function.update m.prev node (some w)) : Chained m' s := by
  refine h.frame (fun c hc q hq => ?_) (fun c hc q hq => ?_) (fun q hq => linked_of_update hn hq)
  · rw [hn, Function.update_of_ne (hspare.ne hc hq)]
  · rw [hv, Function.update_of_ne (hspare.ne hc hq)]

theorem Taken.spare {rest : Chains} (h : Taken m c rest) (hq : q ∈ c.places) : Spare rest q :=
  ⟨h.placed q hq, fun d hd hqd => h.apart d hd q hqd hq⟩

theorem Chained.spare (h : Chained m s) (ht : s.spare node = some t) :
    Chained m t ∧ Spare t node := by
  unfold Chains.spare at ht
  split at ht
  · rename_i hnone
    obtain ⟨hplace, ht⟩ := Option.ite_none_right_eq_some.mp ht
    cases ht
    exact ⟨h, hplace, take_none.mp hnone⟩
  · rename_i c rest htake
    obtain ⟨hempty, ht⟩ := Option.ite_none_right_eq_some.mp ht
    cases ht
    obtain ⟨htaken, hmem, _⟩ := h.take htake
    exact ⟨htaken.others, htaken.spare hmem⟩

theorem Chained.init (h : Chained m t) (hspare : Spare t p) :
    ∃ m', m.initListHead p = some m' ∧ Chained m' (t.cons ⟨p, []⟩) := by
  obtain ⟨m', hinit, hn, hv⟩ := initListHead_spec (h.allocated p hspare.1)
  refine ⟨m', hinit, taken_iff.mpr ⟨⟨⟨?_, ?_⟩, List.nodup_singleton p⟩, ?_, ?_, ?_⟩⟩
  · rw [hn, Function.update_self]
  · rw [hv, Function.update_self]
  · exact h.frame_spare hspare hn hv
  · intro d hd q hq hp
    exact hspare.ne hd hq (List.mem_singleton.mp hp)
  · intro q hq
    rw [List.mem_singleton.mp hq]
    exact hspare.1

end Chained

section Places

variable {next prev next' prev' : Ptr → Option Ptr} {c : Chain} {pos node : Ptr} {ys : List Ptr}

/-- A chain as it is seen from one of its places. -/
theorem ring_from (h : Ring next prev c.head c.entries) (hpos : pos ∈ c.places) :
    (pos = c.head ∧ Ring next prev pos c.entries) ∨
      ∃ front rear, pos ≠ c.head ∧ c.entries = front ++ pos :: rear ∧ pos ∉ front ∧ pos ∉ rear ∧
        Ring next prev pos (rear ++ c.head :: front) := by
  rcases List.mem_cons.mp hpos with rfl | hpos
  · exact Or.inl ⟨rfl, h⟩
  · obtain ⟨front, rear, hsplit⟩ := List.append_of_mem hpos
    rw [hsplit] at h
    have hnodup := h.2
    simp only [List.nodup_cons, List.mem_append, List.mem_cons, List.nodup_append] at hnodup
    refine Or.inr ⟨front, rear, ?_, hsplit, ?_, ?_, h.rotate⟩
    · rintro rfl
      exact hnodup.1 (Or.inr (Or.inl rfl))
    · exact fun hm => hnodup.2.2.2 pos hm pos (Or.inl rfl) rfl
    · exact hnodup.2.2.1.1

theorem flatMap_self {xs : List Ptr} {f : Ptr → List Ptr} (hpos : pos ∉ xs) :
    xs.flatMap (fun x => if x = pos then f x else [x]) = xs := by
  induction xs with
  | nil => rfl
  | cons x xs ih =>
    obtain ⟨hx, hxs⟩ := List.ne_and_not_mem_of_not_mem_cons hpos
    rw [List.flatMap_cons, ih hxs, if_neg (Ne.symm hx)]
    rfl

theorem mem_after {q : Ptr} (hpos : pos ∈ c.places) :
    q ∈ (c.after pos ys).places ↔ q ∈ ys ∨ q ∈ c.places := by
  simp only [Chain.places, Chain.after, List.mem_cons] at hpos ⊢
  split
  · rw [List.mem_append]
    tauto
  · rename_i hne
    have hentry : pos ∈ c.entries := hpos.resolve_left hne
    have hmem : q ∈ c.entries.flatMap (fun x => if x = pos then x :: ys else [x]) ↔
        q ∈ ys ∨ q ∈ c.entries := by
      rw [List.mem_flatMap]
      constructor
      · rintro ⟨x, hx, hq⟩
        split at hq
        · rcases List.mem_cons.mp hq with rfl | hq
          · exact Or.inr hx
          · exact Or.inl hq
        · exact Or.inr (List.mem_singleton.mp hq ▸ hx)
      · rintro (hq | hq)
        · exact ⟨pos, hentry, by simp [hq]⟩
        · exact ⟨q, hq, by split <;> simp⟩
    rw [hmem]
    tauto

theorem mem_before {q : Ptr} (hpos : pos ∈ c.places) :
    q ∈ (c.before pos node).places ↔ q = node ∨ q ∈ c.places := by
  simp only [Chain.places, Chain.before, List.mem_cons] at hpos ⊢
  split
  · rw [List.mem_append, List.mem_singleton]
    tauto
  · rename_i hne
    have hentry : pos ∈ c.entries := hpos.resolve_left hne
    have hmem : q ∈ c.entries.flatMap (fun x => if x = pos then [node, x] else [x]) ↔
        q = node ∨ q ∈ c.entries := by
      rw [List.mem_flatMap]
      constructor
      · rintro ⟨x, hx, hq⟩
        split at hq
        · rcases List.mem_cons.mp hq with rfl | hq
          · exact Or.inl rfl
          · exact Or.inr (List.mem_singleton.mp hq ▸ hx)
        · exact Or.inr (List.mem_singleton.mp hq ▸ hx)
      · rintro (rfl | hq)
        · exact ⟨pos, hentry, by simp⟩
        · exact ⟨q, hq, by split <;> simp⟩
    rw [hmem]
    tauto

/-- What the ring is seen from `pos`, and how a ring with more behind or before `pos` is the
chain with it. -/
theorem ring_around (h : Ring next prev c.head c.entries) (hpos : pos ∈ c.places) :
    ∃ zs, Ring next prev pos zs ∧ (pos :: zs).Perm c.places ∧
      (∀ next' prev' ys, Ring next' prev' pos (ys ++ zs) →
        Ring next' prev' (c.after pos ys).head (c.after pos ys).entries) ∧
      ∀ next' prev' node, Ring next' prev' pos (zs ++ [node]) →
        Ring next' prev' (c.before pos node).head (c.before pos node).entries := by
  rcases ring_from h hpos with ⟨rfl, hring⟩ | ⟨front, rear, hne, hsplit, hfront, hrear, hring⟩
  · refine ⟨c.entries, hring, List.Perm.refl _, fun next' prev' ys hring' => ?_,
      fun next' prev' node hring' => ?_⟩
    · simpa only [Chain.after, if_true] using hring'
    · simpa only [Chain.before, if_true] using hring'
  · refine ⟨rear ++ c.head :: front, hring, ?_, fun next' prev' ys hring' => ?_,
      fun next' prev' node hring' => ?_⟩
    · have hround : (pos :: rear ++ c.head :: front).Perm (c.head :: front ++ pos :: rear) :=
        List.perm_append_comm
      rw [Chain.places, hsplit]
      exact hround
    · have hentries : (c.after pos ys).entries = front ++ pos :: (ys ++ rear) := by
        simp only [Chain.after, if_neg hne, hsplit, List.flatMap_append, List.flatMap_cons,
          flatMap_self hfront, flatMap_self hrear, if_true, List.cons_append]
      rw [← List.append_assoc] at hring'
      rw [hentries]
      exact hring'.rotate
    · have hentries : (c.before pos node).entries = (front ++ [node]) ++ pos :: rear := by
        simp only [Chain.before, if_neg hne, hsplit, List.flatMap_append, List.flatMap_cons,
          flatMap_self hfront, flatMap_self hrear, if_true, List.cons_append, List.nil_append,
          List.append_assoc]
      rw [List.append_assoc, List.cons_append] at hring'
      rw [hentries]
      exact hring'.rotate

end Places

section Operations

variable {m m' : LinkedList Unit} {s t rest : Chains} {c d : Chain} {p q pos node list : Ptr}
  {ys : List Ptr}

/-- One chain of those in hand is replaced, by stores to its own places and spare ones. -/
theorem Taken.replace (h : Taken m c rest) (hring : Ring m'.next m'.prev d.head d.entries)
    (hplaces : ∀ q ∈ d.places, q ∈ c.places ∨ Spare rest q)
    (hn : ∀ q, q ∉ c.places → q ∉ d.places → m'.next q = m.next q)
    (hv : ∀ q, q ∉ c.places → q ∉ d.places → m'.prev q = m.prev q)
    (hallocated : ∀ q, m.next q ≠ none → m'.next q ≠ none) : Chained m' (rest.cons d) := by
  have hout : ∀ e ∈ rest.chains, ∀ q ∈ e.places, q ∉ d.places := by
    intro e he q hq hd
    rcases hplaces q hd with hc | hspare
    · exact h.apart e he q hq hc
    · exact hspare.2 e he hq
  refine taken_iff.mpr ⟨hring, ?_, hout, ?_⟩
  · exact h.others.frame (fun e he q hq => hn q (h.apart e he q hq) (hout e he q hq))
      (fun e he q hq => hv q (h.apart e he q hq) (hout e he q hq)) hallocated
  · intro q hq
    rcases hplaces q hq with hc | hspare
    · exact h.placed q hc
    · exact hspare.1

/-- A block of spare places linked in between `pos` and what follows it. -/
theorem Taken.after (h : Taken m c rest) (hpos : pos ∈ c.places) {follower : Ptr}
    (hnext : m.next pos = some follower) (hblock : Seg m'.next m'.prev pos ys follower)
    (hys : ys.Nodup) (hout : ∀ y ∈ ys, y ∉ c.places) (hspare : ∀ y ∈ ys, Spare rest y)
    (hn : ∀ q, q ∉ pos :: ys → m'.next q = m.next q)
    (hv : ∀ q, q ∉ follower :: ys → m'.prev q = m.prev q)
    (hallocated : ∀ q, m.next q ≠ none → m'.next q ≠ none) :
    Chained m' (rest.cons (c.after pos ys)) := by
  obtain ⟨zs, hring, hperm, hafter, -⟩ := ring_around h.ring hpos
  have hzs : ∀ z, z ∈ pos :: zs → z ∉ ys := fun z hz hy => hout z hy (hperm.mem_iff.mp hz)
  have hfollower : follower = zs.headD pos := by
    have heq := hring.1.next_eq
    rw [hnext, Option.some.injEq] at heq
    rw [heq]
    cases zs <;> rfl
  obtain ⟨hposzs, hnodup⟩ := List.nodup_cons.mp hring.2
  have hpushed : Ring m'.next m'.prev pos (ys ++ zs) := by
    refine hring.push (hfollower ▸ hblock) (fun x hx => hn x ?_) (fun x hx hne => hv x ?_) ?_
    · rintro (_ | ⟨_, hy⟩)
      · exact hposzs hx
      · exact hzs x (List.mem_cons_of_mem _ hx) hy
    · rintro (_ | ⟨_, hy⟩)
      · exact hne hfollower
      · exact hzs x hx hy
    · refine List.nodup_cons.mpr ⟨?_, List.nodup_append.mpr ⟨hys, hnodup, ?_⟩⟩
      · intro hm
        rcases List.mem_append.mp hm with hy | hz
        · exact hzs pos List.mem_cons_self hy
        · exact hposzs hz
      · rintro y hy _ hz rfl
        exact hzs y (List.mem_cons_of_mem _ hz) hy
  have hin : follower ∈ c.places := by
    apply hperm.mem_iff.mp
    rw [hfollower]
    cases zs <;> simp
  refine h.replace (hafter _ _ ys hpushed) (fun q hq => ?_) (fun q hc hd => hn q ?_)
    (fun q hc hd => hv q ?_) hallocated
  · rcases (mem_after hpos).mp hq with hy | hc
    · exact Or.inr (hspare q hy)
    · exact Or.inl hc
  · rintro (_ | ⟨_, hy⟩)
    · exact hc hpos
    · exact hd ((mem_after hpos).mpr (Or.inl hy))
  · rintro (_ | ⟨_, hy⟩)
    · exact hc hin
    · exact hd ((mem_after hpos).mpr (Or.inl hy))

/-- A spare place linked in before `pos`. -/
theorem Taken.before (h : Taken m c rest) (hpos : pos ∈ c.places) (hspare : Spare rest node)
    (hnode : node ∉ c.places) : ∃ m', m.listAddTail node pos = some m' ∧
      Chained m' (rest.cons (c.before pos node)) := by
  obtain ⟨zs, hring, hperm, -, hbefore⟩ := ring_around h.ring hpos
  have hnew : node ∉ pos :: zs := fun hm => hnode (hperm.mem_iff.mp hm)
  have hlinked : ∀ q ∈ pos :: zs, m.next q ≠ none :=
    fun q hq => h.others.allocated q (h.placed q (hperm.mem_iff.mp hq))
  obtain ⟨p, hp, hpmem, _⟩ := hring.1.prev_end
  obtain ⟨m', hadd, hn, hv, -, -⟩ := listAddTail_spec hp (h.others.allocated node hspare.1)
    (hlinked p hpmem)
  have hne : ∀ q ∈ pos :: zs, q ≠ node := fun q hq he => hnew (he ▸ hq)
  have hgrown : Ring m'.next m'.prev pos (zs ++ [node]) := by
    refine hring.insert_last hnew hp (fun y hy hyp => ?_) (fun y hy => ?_) ?_ ?_ ?_ ?_
    · rw [hn, Function.update_of_ne hyp, Function.update_of_ne (hne y hy)]
    · have hypos : y ≠ pos := by
        rintro rfl
        exact (List.nodup_cons.mp hring.2).1 hy
      rw [hv, Function.update_of_ne (hne y (List.mem_cons_of_mem _ hy)),
        Function.update_of_ne hypos]
    · rw [hn, Function.update_self]
    · rw [hn, Function.update_of_ne (Ne.symm (hne p hpmem)), Function.update_self]
    · rw [hv, Function.update_of_ne (hne pos List.mem_cons_self), Function.update_self]
    · rw [hv, Function.update_self]
  refine ⟨m', hadd, h.replace (hbefore _ _ node hgrown) (fun q hq => ?_) (fun q hc hd => ?_)
    (fun q hc hd => ?_) (fun q hq => ?_)⟩
  · rcases (mem_before hpos).mp hq with rfl | hc
    · exact Or.inr hspare
    · exact Or.inl hc
  · have hqp : q ≠ p := fun he => hc (hperm.mem_iff.mp (he ▸ hpmem))
    have hqn : q ≠ node := fun he => hd ((mem_before hpos).mpr (Or.inl he))
    rw [hn, Function.update_of_ne hqp, Function.update_of_ne hqn]
  · have hqp : q ≠ pos := fun he => hc (he ▸ hpos)
    have hqn : q ≠ node := fun he => hd ((mem_before hpos).mpr (Or.inl he))
    rw [hv, Function.update_of_ne hqn, Function.update_of_ne hqp]
  · rw [hn]
    exact update_ne_none (update_ne_none hq)

/-- A spare node, and the chain of the place it goes to. -/
theorem Chained.pick (h : Chained m s) (hspare : s.spare node = some t)
    (htake : t.take pos = some (c, rest)) :
    Taken m c rest ∧ pos ∈ c.places ∧ node ∉ c.places ∧ Spare rest node := by
  obtain ⟨hchained, hplace, hout⟩ := h.spare hspare
  obtain ⟨htaken, hpos, hplaces⟩ := hchained.take htake
  obtain ⟨-, hperm, -⟩ := take_some htake
  refine ⟨htaken, hpos, hout c (hperm.mem_iff.mpr List.mem_cons_self), hplaces ▸ hplace, ?_⟩
  exact fun d hd => hout d (hperm.mem_iff.mpr (List.mem_cons_of_mem _ hd))

theorem Chained.addTail (h : Chained m s) (ht : s.addTail node pos = some t) :
    ∃ m', m.listAddTail node pos = some m' ∧ Chained m' t := by
  simp only [Chains.addTail, Option.bind_eq_bind, Option.bind_eq_some_iff] at ht
  obtain ⟨u, hu, ⟨c, rest⟩, htake, he⟩ := ht
  cases he
  obtain ⟨htaken, hpos, hnode, hspare⟩ := h.pick hu htake
  exact htaken.before hpos hspare hnode

theorem Chained.add (h : Chained m s) (ht : s.add node pos = some t) :
    ∃ m', m.listAddFirst node pos = some m' ∧ Chained m' t := by
  simp only [Chains.add, Option.bind_eq_bind, Option.bind_eq_some_iff] at ht
  obtain ⟨u, hu, ⟨c, rest⟩, htake, he⟩ := ht
  cases he
  obtain ⟨htaken, hpos, hnode, hspare⟩ := h.pick hu htake
  obtain ⟨zs, hring, hround, -⟩ := ring_around htaken.ring hpos
  obtain ⟨follower, hfollower, hmem, hback⟩ := hring.1.next_start
  have hin : follower ∈ c.places := by
    apply hround.mem_iff.mp
    rcases List.mem_cons.mp hmem with rfl | hmem <;> simp [*]
  have hnf : follower ≠ node := fun he => hnode (he ▸ hin)
  have hnp : pos ≠ node := fun he => hnode (he ▸ hpos)
  obtain ⟨m', hadd, hn, hv, -, -⟩ := listAddTail_spec hback
    (htaken.others.allocated node hspare.1) (by simp [hfollower])
  refine ⟨m', (listAddFirst_eq hfollower hback).trans hadd, ?_⟩
  have hblock : Seg m'.next m'.prev pos [node] follower := by
    refine ⟨?_, ?_, ?_, ?_⟩
    · rw [hn, Function.update_self]
    · rw [hv, Function.update_self]
    · rw [hn, Function.update_of_ne (Ne.symm hnp), Function.update_self]
    · rw [hv, Function.update_of_ne hnf, Function.update_self]
  refine htaken.after hpos hfollower hblock (List.nodup_singleton _) (by simpa using hnode)
    (by simpa using hspare) (fun q hq => ?_) (fun q hq => ?_) (fun q hq => ?_)
  · simp only [List.mem_cons, List.not_mem_nil, or_false, not_or] at hq
    rw [hn, Function.update_of_ne hq.1, Function.update_of_ne hq.2]
  · simp only [List.mem_cons, List.not_mem_nil, or_false, not_or] at hq
    rw [hv, Function.update_of_ne hq.2, Function.update_of_ne hq.1]
  · rw [hn]
    exact update_ne_none (update_ne_none hq)

/-- After `__list_del`, the entry is on no chain. -/
theorem Chained.unlink (h : Chained m s) (ht : s.unlink node = some t) :
    ∃ m', m.listUnlink node = some m' ∧ Chained m' t ∧ Spare t node := by
  simp only [Chains.unlink, Option.bind_eq_bind, Option.bind_eq_some_iff] at ht
  obtain ⟨⟨c, rest⟩, htake, ht⟩ := ht
  obtain ⟨htaken, hmem, hplaces⟩ := h.take htake
  have hlinked : ∀ q ∈ c.places, m.next q ≠ none :=
    fun q hq => htaken.others.allocated q (htaken.placed q hq)
  split at ht
  · rename_i hempty
    cases ht
    subst hempty
    obtain ⟨⟨hnext, hprev⟩, _⟩ := htaken.ring
    obtain ⟨m', hunlink, hn, hv⟩ := listUnlink_spec hprev hnext (hlinked _ hmem) (hlinked _ hmem)
    have hspare := htaken.spare hmem
    exact ⟨m', hunlink, htaken.others.frame_spare hspare hn hv, hspare⟩
  · obtain ⟨hhead, ht⟩ := Option.ite_none_left_eq_some.mp ht
    cases ht
    have hentry : node ∈ c.entries := (List.mem_cons.mp hmem).resolve_left hhead
    obtain ⟨front, rear, hsplit⟩ := List.append_of_mem hentry
    have hring := htaken.ring
    rw [hsplit] at hring
    obtain ⟨hbefore, hbehind⟩ := seg_append.mp hring.1
    obtain ⟨p, hp, hpmem, -⟩ := hbefore.prev_end
    obtain ⟨q, hq, hqmem, -⟩ := hbehind.next_start
    have hpin : p ∈ c.places := by
      rw [Chain.places, hsplit]
      rcases List.mem_cons.mp hpmem with rfl | hpmem <;> simp [*]
    have hqin : q ∈ c.places := by
      rw [Chain.places, hsplit]
      rcases List.mem_cons.mp hqmem with rfl | hqmem <;> simp [*]
    obtain ⟨m', hunlink, hn, hv⟩ := listUnlink_spec hp hq (hlinked p hpin) (hlinked q hqin)
    have hgone : node ∉ c.head :: (front ++ rear) := by
      have hnodup := hring.2
      rw [List.nodup_cons, List.nodup_middle, List.nodup_cons] at hnodup
      rintro (_ | ⟨_, hm⟩)
      · exact hhead rfl
      · exact hnodup.2.1 hm
    have herase : c.entries.erase node = front ++ rear := by
      have hfront : node ∉ front := fun hm => hgone (by simp [hm])
      rw [hsplit, List.erase_append_right _ hfront, List.erase_cons_head]
    have hless : Ring m'.next m'.prev c.head (front ++ rear) := by
      refine hring.remove hp hq (fun y _ hyp => ?_) (fun y _ hyq => ?_) ?_ ?_
      · rw [hn, Function.update_of_ne hyp]
      · rw [hv, Function.update_of_ne hyq]
      · rw [hn, Function.update_self]
      · rw [hv, Function.update_self]
    have hsub : ∀ y ∈ c.head :: (front ++ rear), y ∈ c.places := by
      intro y hy
      rw [Chain.places, hsplit]
      simp only [List.mem_cons, List.mem_append] at hy ⊢
      tauto
    rw [herase]
    refine ⟨m', hunlink, ?_, ?_, ?_⟩
    · refine htaken.replace hless (fun y hy => Or.inl (hsub y hy)) (fun y hc _ => ?_)
        (fun y hc _ => ?_) (fun y hy => linked_of_update hn hy)
      · have hyp : y ≠ p := fun he => hc (he ▸ hpin)
        rw [hn, Function.update_of_ne hyp]
      · have hyq : y ≠ q := fun he => hc (he ▸ hqin)
        rw [hv, Function.update_of_ne hyq]
    · exact htaken.placed node hmem
    · intro d hd
      rcases List.mem_cons.mp hd with rfl | hd
      · exact hgone
      · exact fun hm => htaken.apart d hd node hm hmem

theorem Chained.del (h : Chained m s) (ht : s.unlink node = some t) :
    ∃ m', m.listDel node = some m' ∧ Chained m' t := by
  obtain ⟨m1, hunlink, hchained, hspare⟩ := h.unlink ht
  have hnode := hchained.allocated node hspare.1
  obtain ⟨m2, h2, hn2, hv2, -, -⟩ := setNext_spec node NULL hnode
  obtain ⟨m3, h3, hv3, hn3, -, -⟩ := setPrev_spec node NULL (linked_of_update hn2 hnode)
  refine ⟨m3, ?_, hchained.frame_spare hspare (by rw [hn3, hn2]) (by rw [hv3, hv2])⟩
  simp only [listDel_eq, hunlink, h2, h3, Option.bind_eq_bind, Option.bind_some]

theorem Chained.empty (h : Chained m s) (ht : s.take p = some (c, rest)) :
    m.listEmpty p = some (decide (c.entries = [])) := by
  obtain ⟨htaken, hp, -⟩ := h.take ht
  obtain ⟨zs, hring, hperm, -⟩ := ring_around htaken.ring hp
  have hlength := hperm.length_eq
  rw [Chain.places, List.length_cons, List.length_cons, Nat.add_right_cancel_iff] at hlength
  rw [listEmpty, hring.1.next_eq, Option.map_some, Option.some.injEq]
  cases zs with
  | nil => simp [List.length_eq_zero_iff.mp hlength.symm]
  | cons z zs =>
    have hne : z ≠ p := by
      rintro rfl
      exact (List.nodup_cons.mp hring.2).1 List.mem_cons_self
    have hsome : c.entries ≠ [] := by
      rintro hnil
      rw [hnil] at hlength
      cases hlength
    simp [hne, hsome]

/-- A splice of nothing does nothing, and that of a list leaves its head on no chain. -/
theorem Chained.splice (h : Chained m s) (ht : s.splice list pos = some t) :
    (m.listEmpty list = some true ∧ t = s ∧
      ∀ v, s.spare list = some v → Chained m (v.cons ⟨list, []⟩)) ∨
      (m.listEmpty list = some false ∧
        ∃ m', m.listJoin list pos = some m' ∧ Chained m' t ∧ Spare t list) := by
  simp only [Chains.splice, Option.bind_eq_bind, Option.bind_eq_some_iff] at ht
  obtain ⟨⟨c, rest⟩, htake, ht⟩ := ht
  obtain ⟨hhead, ht⟩ := Option.ite_none_left_eq_some.mp ht
  have hempty := h.empty htake
  split at ht
  · rename_i hnil
    refine Or.inl ⟨by rw [hempty, decide_eq_true hnil], (Option.some.inj ht).symm, ?_⟩
    have hc : c = ⟨list, []⟩ := by
      obtain ⟨head, entries⟩ := c
      obtain rfl : head = list := by simpa using hhead
      rw [show entries = [] from hnil]
    intro v hv
    rw [Chains.spare, htake] at hv
    dsimp only at hv
    rw [if_pos hc, Option.some.injEq] at hv
    rw [← hv, ← hc]
    exact taken_iff.mpr (h.take htake).1
  · rename_i hsome
    refine Or.inr ⟨by rw [hempty, decide_eq_false hsome], ?_⟩
    obtain ⟨⟨d, rest'⟩, htake', he⟩ := Option.bind_eq_some_iff.mp ht
    cases he
    obtain ⟨hc, hlist, hplaces⟩ := h.take htake
    obtain ⟨hd, hpos, hplaces'⟩ := hc.others.take htake'
    obtain ⟨-, hperm, -⟩ := take_some htake'
    have hdrest : d ∈ rest.chains := hperm.mem_iff.mpr List.mem_cons_self
    have hspare : ∀ q ∈ c.places, Spare rest' q := by
      intro q hq
      have hq' := hc.spare hq
      exact ⟨hplaces' ▸ hq'.1, fun e he =>
        hq'.2 e (hperm.mem_iff.mpr (List.mem_cons_of_mem _ he))⟩
    have hapart : ∀ q ∈ c.places, q ∉ d.places := fun q hq hqd => hc.apart d hdrest q hqd hq
    obtain ⟨head, entries⟩ := c
    obtain rfl : head = list := by simpa using hhead
    cases entries with
    | nil => exact absurd rfl hsome
    | cons first ys =>
      obtain ⟨last, hlast, hlastmem, -⟩ := hc.ring.1.2.2.prev_end
      obtain ⟨zs, hring, hround, -⟩ := ring_around hd.ring hpos
      obtain ⟨place, hplace, hplacemem, -⟩ := hring.1.next_start
      have hplacein : place ∈ d.places := by
        apply hround.mem_iff.mp
        rcases List.mem_cons.mp hplacemem with rfl | hm <;> simp [*]
      have hin : ∀ q ∈ first :: ys, q ∈ Chain.places ⟨head, first :: ys⟩ :=
        fun q hq => List.mem_cons_of_mem _ hq
      have hlinked : ∀ q ∈ first :: ys, m.next q ≠ none :=
        fun q hq => hc.others.allocated q (hc.placed q (hin q hq))
      have hne : ∀ x ∈ first :: ys, ∀ y ∈ d.places, x ≠ y :=
        fun x hx y hy he => hapart x (hin x hx) (he ▸ hy)
      obtain ⟨m', hjoin, hn, hv⟩ := listJoin_spec hc.ring.1.1 hlast hplace
        (hlinked first List.mem_cons_self) (hlinked last hlastmem)
        (hd.others.allocated place (hd.placed place hplacein))
      obtain ⟨hheadout, hnodup⟩ := List.nodup_cons.mp hc.ring.2
      have hblock : Seg m'.next m'.prev pos (first :: ys) place := by
        refine hc.ring.carry hlast (fun x hx hxl => ?_) (fun x hx => ?_) ?_ ?_ ?_ ?_
        · rw [hn, Function.update_of_ne hxl, Function.update_of_ne (hne x hx pos hpos)]
        · have hxf : x ≠ first := fun he => (List.nodup_cons.mp hnodup).1 (he ▸ hx)
          rw [hv, Function.update_of_ne (hne x (List.mem_cons_of_mem _ hx) place hplacein),
            Function.update_of_ne hxf]
        · rw [hn, Function.update_of_ne (Ne.symm (hne last hlastmem pos hpos)),
            Function.update_self]
        · rw [hv, Function.update_of_ne (hne first List.mem_cons_self place hplacein),
            Function.update_self]
        · rw [hn, Function.update_self]
        · rw [hv, Function.update_self]
      refine ⟨m', hjoin, ?_, ?_, ?_⟩
      · refine hd.after hpos hplace hblock hnodup (fun y hy => hapart y (hin y hy))
          (fun y hy => hspare y (hin y hy)) (fun q hq => ?_) (fun q hq => ?_) (fun q hq => ?_)
        · have hql : q ≠ last := fun he => hq (List.mem_cons_of_mem _ (he ▸ hlastmem))
          have hqp : q ≠ pos := fun he => hq (he ▸ List.mem_cons_self)
          rw [hn, Function.update_of_ne hql, Function.update_of_ne hqp]
        · have hqp : q ≠ place := fun he => hq (he ▸ List.mem_cons_self)
          have hqf : q ≠ first := fun he => hq (he ▸ List.mem_cons_of_mem _ List.mem_cons_self)
          rw [hv, Function.update_of_ne hqp, Function.update_of_ne hqf]
        · rw [hn]
          exact update_ne_none (update_ne_none hq)
      · exact (hspare head List.mem_cons_self).1
      · intro e he hm
        rcases List.mem_cons.mp he with rfl | he
        · rcases (mem_after hpos).mp hm with hm | hm
          · exact hheadout hm
          · exact hapart head List.mem_cons_self hm
        · exact (hspare head List.mem_cons_self).2 e he hm

theorem Chained.entries {es : List Ptr} (h : Chained m s) (hes : s.entries p = some es) :
    Ring m.next m.prev p es ∧ es.length ≤ s.places.length := by
  obtain ⟨c, hc, rfl⟩ := Option.map_eq_some_iff.mp hes
  have hmem := List.mem_of_find?_eq_some hc
  have hhead := List.find?_some hc
  have hring := h.ring c hmem
  obtain rfl : c.head = p := by simpa using hhead
  refine ⟨hring, (List.nodup_cons.mp hring.2).2.length_le_of_subset (fun q hq => ?_)⟩
  exact h.placed c hmem q (List.mem_cons_of_mem _ hq)

/-- A loop that looks at each entry of a ring sees them in order. -/
theorem visit_ring {next back : Ptr → Option Ptr} {es : List Ptr} {fuel : Nat}
    (h : Seg next back p es p) (hp : p ∉ es) (hfuel : es.length < fuel) :
    forEach fuel (fun _ => next) p [] (fun seen pos => some (.inl (seen ++ [pos]))) =
      some (.inl es : List Ptr ⊕ List Ptr) := by
  have hloop : forEach fuel (fun _ => next) p (es.take 0)
      (fun seen pos => some (.inl (seen ++ [pos]))) =
        some (.inl (es.take es.length) : List Ptr ⊕ List Ptr) := by
    refine forEach_skip (fun k => es.take k) h hp (fun k y hy => ?_) hfuel
    rw [List.take_add_one, hy]
    rfl
  rw [List.take_length] at hloop
  exact hloop

end Operations

section Places

variable {s t rest : Chains} {c : Chain} {p q : Ptr}

theorem spare_places (ht : s.spare p = some t) : t.places = s.places := by
  unfold Chains.spare at ht
  split at ht
  · obtain ⟨_, ht⟩ := Option.ite_none_right_eq_some.mp ht
    exact congrArg Chains.places (Option.some.inj ht).symm
  · rename_i c rest htake
    obtain ⟨_, ht⟩ := Option.ite_none_right_eq_some.mp ht
    rw [← Option.some.inj ht]
    exact (take_some htake).2.2

theorem unlink_places (ht : s.unlink p = some t) : t.places = s.places := by
  simp only [Chains.unlink, Option.bind_eq_bind, Option.bind_eq_some_iff] at ht
  obtain ⟨⟨c, rest⟩, htake, ht⟩ := ht
  have hplaces := (take_some htake).2.2
  split at ht
  · exact (Option.some.inj ht) ▸ hplaces
  · obtain ⟨_, ht⟩ := Option.ite_none_left_eq_some.mp ht
    rw [← Option.some.inj ht]
    exact hplaces

theorem add_places (ht : s.add p q = some t ∨ s.addTail p q = some t) : t.places = s.places := by
  simp only [Chains.add, Chains.addTail, Option.bind_eq_bind, Option.bind_eq_some_iff] at ht
  rcases ht with ⟨u, hu, ⟨c, rest⟩, htake, he⟩ | ⟨u, hu, ⟨c, rest⟩, htake, he⟩ <;>
  · cases he
    exact (take_some htake).2.2.trans (spare_places hu)

theorem splice_places (ht : s.splice p q = some t) : t.places = s.places := by
  simp only [Chains.splice, Option.bind_eq_bind, Option.bind_eq_some_iff] at ht
  obtain ⟨⟨c, rest⟩, htake, ht⟩ := ht
  obtain ⟨_, ht⟩ := Option.ite_none_left_eq_some.mp ht
  split at ht
  · exact congrArg Chains.places (Option.some.inj ht).symm
  · obtain ⟨⟨d, rest'⟩, htake', he⟩ := Option.bind_eq_some_iff.mp ht
    cases he
    exact (take_some htake').2.2.trans (take_some htake).2.2

/-- The places stay where they are. -/
theorem step_places {op : ChainOp} {answer : ChainAnswer} (ht : s.step op = some (answer, t)) :
    t.places = s.places := by
  cases op with
  | init =>
    obtain ⟨u, hu, he⟩ := Option.map_eq_some_iff.mp ht
    cases he
    have hplaces : u.places = s.places := spare_places hu
    exact hplaces
  | add | addTail =>
    obtain ⟨u, hu, he⟩ := Option.map_eq_some_iff.mp ht
    cases he
    first | exact add_places (Or.inl hu) | exact add_places (Or.inr hu)
  | del =>
    obtain ⟨u, hu, he⟩ := Option.map_eq_some_iff.mp ht
    cases he
    exact unlink_places hu
  | delInit =>
    obtain ⟨u, hu, he⟩ := Option.map_eq_some_iff.mp ht
    cases he
    have hplaces : u.places = s.places := unlink_places hu
    exact hplaces
  | move | moveTail =>
    obtain ⟨u, hu, ht⟩ := Option.bind_eq_some_iff.mp ht
    obtain ⟨v, hv, he⟩ := Option.map_eq_some_iff.mp ht
    cases he
    refine Eq.trans ?_ (unlink_places hu)
    first | exact add_places (Or.inl hv) | exact add_places (Or.inr hv)
  | splice =>
    obtain ⟨u, hu, he⟩ := Option.map_eq_some_iff.mp ht
    cases he
    exact splice_places hu
  | spliceInit =>
    obtain ⟨u, hu, ht⟩ := Option.bind_eq_some_iff.mp ht
    obtain ⟨v, hv, he⟩ := Option.bind_eq_some_iff.mp ht
    cases he
    exact (spare_places hv).trans (splice_places hu)
  | empty | forEach | forEachPrev =>
    obtain ⟨_, _, he⟩ := Option.map_eq_some_iff.mp ht
    cases he
    rfl

end Places

/-- Every function and loop of `dlist.h` does to the pointers what it does to the chains,
with the same answer. -/
theorem implements_chains {fuel : Nat} : Implements (chainStep fuel) Chains.step
    (fun m s => Chained m s ∧ s.places.length < fuel) := by
  rintro m s op answer t ⟨h, hfuel⟩ hspec
  have hfuel' : t.places.length < fuel := by rwa [step_places hspec]
  suffices hstep : ∃ m', chainStep fuel m op = some (answer, m') ∧ Chained m' t by
    obtain ⟨m', hm, hm'⟩ := hstep
    exact ⟨m', hm, hm', hfuel'⟩
  cases op with
  | init p =>
    obtain ⟨u, hu, he⟩ := Option.map_eq_some_iff.mp hspec
    cases he
    obtain ⟨hchained, hspare⟩ := h.spare hu
    obtain ⟨m', hm, hm'⟩ := hchained.init hspare
    exact ⟨m', by rw [chainStep, hm]; rfl, hm'⟩
  | add node pos =>
    obtain ⟨u, hu, he⟩ := Option.map_eq_some_iff.mp hspec
    cases he
    obtain ⟨m', hm, hm'⟩ := h.add hu
    exact ⟨m', by rw [chainStep, hm]; rfl, hm'⟩
  | addTail node pos =>
    obtain ⟨u, hu, he⟩ := Option.map_eq_some_iff.mp hspec
    cases he
    obtain ⟨m', hm, hm'⟩ := h.addTail hu
    exact ⟨m', by rw [chainStep, hm]; rfl, hm'⟩
  | del entry =>
    obtain ⟨u, hu, he⟩ := Option.map_eq_some_iff.mp hspec
    cases he
    obtain ⟨m', hm, hm'⟩ := h.del hu
    exact ⟨m', by rw [chainStep, hm]; rfl, hm'⟩
  | delInit entry =>
    obtain ⟨u, hu, he⟩ := Option.map_eq_some_iff.mp hspec
    cases he
    obtain ⟨m1, h1, hchained, hspare⟩ := h.unlink hu
    obtain ⟨m', hm, hm'⟩ := hchained.init hspare
    exact ⟨m', by simp [chainStep, listDelInit, h1, hm], hm'⟩
  | move list pos =>
    obtain ⟨u, hu, hspec⟩ := Option.bind_eq_some_iff.mp hspec
    obtain ⟨v, hv, he⟩ := Option.map_eq_some_iff.mp hspec
    cases he
    obtain ⟨m1, h1, hchained, -⟩ := h.unlink hu
    obtain ⟨m', hm, hm'⟩ := hchained.add hv
    exact ⟨m', by simp [chainStep, listMove, h1, hm], hm'⟩
  | moveTail list pos =>
    obtain ⟨u, hu, hspec⟩ := Option.bind_eq_some_iff.mp hspec
    obtain ⟨v, hv, he⟩ := Option.map_eq_some_iff.mp hspec
    cases he
    obtain ⟨m1, h1, hchained, -⟩ := h.unlink hu
    obtain ⟨m', hm, hm'⟩ := hchained.addTail hv
    exact ⟨m', by simp [chainStep, listMoveTail, h1, hm], hm'⟩
  | splice list pos =>
    obtain ⟨u, hu, he⟩ := Option.map_eq_some_iff.mp hspec
    cases he
    rcases h.splice hu with ⟨hempty, rfl, -⟩ | ⟨hempty, m', hm, hm', -⟩
    · exact ⟨m, by simp [chainStep, listSplice, hempty], h⟩
    · exact ⟨m', by simp [chainStep, listSplice, hempty, hm], hm'⟩
  | spliceInit list pos =>
    obtain ⟨u, hu, hspec⟩ := Option.bind_eq_some_iff.mp hspec
    obtain ⟨v, hv, he⟩ := Option.bind_eq_some_iff.mp hspec
    cases he
    rcases h.splice hu with ⟨hempty, rfl, hkept⟩ | ⟨hempty, m1, h1, hchained, -⟩
    · exact ⟨m, by simp [chainStep, listSpliceInit, hempty], hkept v hv⟩
    · obtain ⟨hchained', hspare⟩ := hchained.spare hv
      obtain ⟨m', hm, hm'⟩ := hchained'.init hspare
      exact ⟨m', by simp [chainStep, listSpliceInit, hempty, h1, hm], hm'⟩
  | empty head =>
    obtain ⟨⟨c, rest⟩, htake, he⟩ := Option.map_eq_some_iff.mp hspec
    cases he
    exact ⟨m, by simp [chainStep, h.empty htake], h⟩
  | forEach head =>
    obtain ⟨es, hes, he⟩ := Option.map_eq_some_iff.mp hspec
    cases he
    obtain ⟨hring, hlength⟩ := h.entries hes
    have hvisit := visit_ring hring.1 (List.nodup_cons.mp hring.2).1
      (Nat.lt_of_le_of_lt hlength hfuel)
    exact ⟨m, by simp [chainStep, visit, hvisit], h⟩
  | forEachPrev head =>
    obtain ⟨es, hes, he⟩ := Option.map_eq_some_iff.mp hspec
    cases he
    obtain ⟨hring, hlength⟩ := h.entries hes
    have hvisit := visit_ring hring.1.reverse (by simpa using (List.nodup_cons.mp hring.2).1)
      (Nat.lt_of_le_of_lt (by simpa using hlength) hfuel)
    exact ⟨m, by simp [chainStep, visitPrev, hvisit], h⟩

/-- From memory that holds anything, whatever is done to any number of lists is done to
their sequences. -/
theorem chains_refined {places : List Ptr} {m : LinkedList Unit} {ops : List ChainOp}
    {answers : List ChainAnswer} {s : Chains} (hm : ∀ p ∈ places, m.next p ≠ none) {fuel : Nat}
    (hfuel : places.length < fuel) (hs : exec Chains.step ⟨places, []⟩ ops = some (answers, s)) :
    ∃ m', exec (chainStep fuel) m ops = some (answers, m') ∧ Chained m' s := by
  have hstart : Chained m ⟨places, []⟩ :=
    ⟨fun _ hc => (by cases hc), List.nodup_nil, fun _ hc => (by cases hc), hm⟩
  obtain ⟨m', hrun, hchained, -⟩ := implements_chains.exec ⟨hstart, hfuel⟩ hs
  exact ⟨m', hrun, hchained⟩

/-- Two lists that are joined, while entries move between them and out of them. -/
def joining : List ChainOp :=
  [.init 1, .init 2, .add 11 1, .add 12 1, .addTail 13 12, .addTail 21 2, .move 13 2, .forEach 1,
    .forEachPrev 2, .splice 2 12, .forEach 1, .delInit 21, .empty 21, .init 2, .moveTail 13 2,
    .spliceInit 1 2, .empty 1, .forEach 2, .del 12, .addTail 12 1, .forEachPrev 1]

def blank : LinkedList Unit := { LinkedList.empty with links := fun _ => some ⟨NULL, NULL⟩ }

theorem joined_in_order : ∃ answers m s, exec (chainStep 7) blank joining = some (answers, m) ∧
    Chained m s ∧ s.entries 1 = some [12] ∧ s.entries 2 = some [11, 13] := by
  obtain ⟨answers, s, hs, h1, h2⟩ : ∃ answers s,
      exec Chains.step ⟨[1, 2, 11, 12, 13, 21], []⟩ joining = some (answers, s) ∧
        s.entries 1 = some [12] ∧ s.entries 2 = some [11, 13] := ⟨_, _, rfl, rfl, rfl⟩
  have hblank : ∀ p ∈ [1, 2, 11, 12, 13, 21], blank.next p ≠ none := by simp [blank, next]
  have hfuel : [1, 2, 11, 12, 13, 21].length < 7 := by decide
  obtain ⟨m, hm, hchained⟩ := chains_refined hblank hfuel hs
  exact ⟨answers, m, s, hm, hchained, h1, h2⟩

end Awe.LinkedList
