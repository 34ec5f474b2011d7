import Mathlib.Algebra.Order.Ring.Int
import Awe.Lib.Transducer
import Awe.LinkedList.Sequence

namespace Awe.LinkedList
open Cycle Transducer

variable {π ω : Type} {m : LinkedList π} {s : Sequences π} {list : Ptr}

theorem Represents.rmFromList {e : Entry} {front rear : List Entry} (h : Represents m s)
    (hl : list ∈ s.heads) (hsplit : s.entries list = front ++ e :: rear) :
    ∃ m', m.rmFromList list e.node = some (e.object, m') ∧
      Represents m' (s.set list (front ++ rear)) := by
  obtain ⟨m1, m2, p, n, h1, h2, hobj, _, _, hrep⟩ := h.unlink hl hsplit
  refine ⟨_, ?_, hrep⟩
  simp only [LinkedList.rmFromList, h1, h2, hobj, Option.bind_eq_bind, Option.bind_some]

theorem Represents.delFromList {ops : ObjectOps π ω} {objs objs' : ω} {proc : π} {e : Entry}
    {front rear : List Entry} (h : Represents m s) (hl : list ∈ s.heads)
    (hsplit : s.entries list = front ++ e :: rear) (hproc : s.proc list = some proc)
    (hrelease : ops.release proc objs e.object = some objs') :
    ∃ m', LinkedList.delFromList ops (m, objs) list e.node = some (m', objs') ∧
      Represents m' (s.set list (front ++ rear)) := by
  obtain ⟨m1, m2, p, n, h1, h2, hobj, hp, hlists, hrep⟩ := h.unlink hl hsplit
  obtain rfl : p = proc := Option.some.inj (hp.symm.trans hproc)
  refine ⟨_, ?_, hrep⟩
  simp only [LinkedList.delFromList, h1, h2, hobj, hlists, hrelease, Option.bind_eq_bind,
    Option.bind_some]

/-- The first match of a predicate, and what the sequence is without it. -/
theorem split_of_find {es : List Entry} {p : Entry → Bool} {e : Entry}
    (h : es.find? p = some e) : ∃ front rear, es = front ++ e :: rear ∧
      (∀ f ∈ front, p f = false) ∧ p e ∧ es.eraseP p = front ++ rear := by
  obtain ⟨hp, front, rear, hsplit, hfront⟩ := List.find?_eq_some_iff_append.mp h
  have hfront' : ∀ f ∈ front, p f = false := fun f hf => by simpa using hfront f hf
  refine ⟨front, rear, hsplit, hfront', hp, ?_⟩
  rw [hsplit, List.eraseP_append_right _ (fun f hf => by simp [hfront' f hf]),
    List.eraseP_cons_of_pos hp]

section Search

variable {σ ρ : Type} {links : σ → Ptr → Option Ptr} {body : σ → Ptr → Option (σ ⊕ ρ)} {st : σ}
  {fuel : Nat}

/-- A safe loop over a list whose body skips the entries that do not match `p`. -/
theorem Represents.search_none {p : Entry → Bool} (h : Represents m s) (hl : list ∈ s.heads)
    (hfuel : (s.entries list).length < fuel) (hfind : (s.entries list).find? p = none)
    (hlinks : links st = m.next)
    (hskip : ∀ e ∈ s.entries list, p e = false → body st e.node = some (.inl st)) :
    forEachSafe fuel links list st body = some (.inl st) := by
  have hring := h.ring list hl
  have hall := List.find?_eq_none.mp hfind
  refine forEachSafe_skip (hlinks ▸ hring.1) (List.nodup_cons.mp hring.2).1 ?_ ?_
  · intro y hy
    obtain ⟨e, he, rfl⟩ := List.mem_map.mp hy
    exact hskip e he (by simpa using hall e he)
  · simpa [Sequences.nodes] using hfuel

/-- The same loop returns at the first entry that does. -/
theorem Represents.search_some {p : Entry → Bool} {e : Entry} {r : ρ} (h : Represents m s)
    (hl : list ∈ s.heads) (hfuel : (s.entries list).length < fuel)
    (hfind : (s.entries list).find? p = some e) (hlinks : links st = m.next)
    (hskip : ∀ e ∈ s.entries list, p e = false → body st e.node = some (.inl st))
    (hbody : body st e.node = some (.inr r)) :
    forEachSafe fuel links list st body = some (.inr r) := by
  obtain ⟨front, rear, hsplit, hfront, _, _⟩ := split_of_find hfind
  have hring := h.ring list hl
  have hnodes : s.nodes list = front.map Entry.node ++ e.node :: rear.map Entry.node := by
    simp [Sequences.nodes, hsplit]
  rw [hnodes] at hring
  have hnot := (List.nodup_cons.mp hring.2).1
  refine forEachSafe_return (hlinks ▸ hring.1) ?_ ?_ hbody ?_
  · intro hm
    simp only [List.mem_append, List.mem_cons] at hm hnot
    tauto
  · intro y hy
    obtain ⟨f, hf, rfl⟩ := List.mem_map.mp hy
    exact hskip f (by simp [hsplit, hf]) (hfront f hf)
  · rw [hsplit, List.length_append] at hfuel
    simpa using Nat.lt_of_le_of_lt (Nat.le_add_right _ _) hfuel

end Search

section Operations

variable {fuel : Nat} {ops : ObjectOps π ω} {objs : ω}

theorem Represents.remove (h : Represents m s) (objs : ω) (hl : list ∈ s.heads)
    (hfuel : (s.entries list).length < fuel) (equals : Ptr → Bool) :
    ∃ o m' s', m.remove fuel list equals = some (o, m') ∧ Represents m' s' ∧
      Sequences.takeFirst (s, objs) list (fun e => equals e.object) = (.object o, s', objs) := by
  unfold LinkedList.remove Sequences.takeFirst
  cases hfind : (s.entries list).find? (fun e => equals e.object) with
  | none =>
    rw [h.search_none hl hfuel hfind ?_ ?_]
    · exact ⟨NULL, m, s, rfl, h, rfl⟩
    · rfl
    · exact fun e he hp => by simp [h.object list hl e he, hp]
  | some e =>
    obtain ⟨front, rear, hsplit, _, hp, herase⟩ := split_of_find hfind
    obtain ⟨m', hrm, hrep⟩ := h.rmFromList hl hsplit
    have he : e ∈ s.entries list := by simp [hsplit]
    rw [h.search_some (r := (e.object, m')) hl hfuel hfind ?_ ?_ ?_]
    · exact ⟨e.object, m', _, rfl, hrep, by rw [herase]⟩
    · rfl
    · exact fun e he hp => by simp [h.object list hl e he, hp]
    · simp [h.object list hl e he, hp, hrm]

theorem Represents.delWhere {answer : Answer} {s' : Sequences π} {objs' : ω}
    (h : Represents m s) (hl : list ∈ s.heads) (hfuel : (s.entries list).length < fuel)
    (equals : Ptr → Bool)
    (hspec : Sequences.delFirst ops (s, objs) list (fun e => equals e.object) =
      some (answer, s', objs')) :
    ∃ status m', LinkedList.delWhere fuel ops (m, objs) list equals = some (status, m', objs') ∧
      answer = .status status ∧ Represents m' s' := by
  unfold LinkedList.delWhere
  unfold Sequences.delFirst at hspec
  cases hfind : (s.entries list).find? (fun e => equals e.object) with
  | none =>
    rw [hfind] at hspec
    cases hspec
    rw [h.search_none hl hfuel hfind ?_ ?_]
    · exact ⟨-1, m, rfl, rfl, h⟩
    · rfl
    · exact fun e he hp => by simp [h.object list hl e he, hp]
  | some e =>
    rw [hfind] at hspec
    obtain ⟨proc, hproc, hspec⟩ := Option.bind_eq_some_iff.mp hspec
    obtain ⟨objs1, hrelease, hspec⟩ := Option.bind_eq_some_iff.mp hspec
    cases hspec
    obtain ⟨front, rear, hsplit, _, hp, herase⟩ := split_of_find hfind
    obtain ⟨m', hdel, hrep⟩ := h.delFromList hl hsplit hproc hrelease
    have he : e ∈ s.entries list := by simp [hsplit]
    rw [h.search_some (r := (m', objs')) hl hfuel hfind ?_ ?_ ?_]
    · exact ⟨AWE_OK, m', rfl, rfl, by rw [herase]; exact hrep⟩
    · rfl
    · exact fun e he hp => by simp [h.object list hl e he, hp]
    · simp [h.object list hl e he, hp, hdel]

theorem Represents.del2 {answer : Answer} {s' : Sequences π} {objs' : ω} {pos : Ptr}
    (h : Represents m s) (hl : list ∈ s.heads) (hpos : pos ∈ s.nodes list)
    (hspec : Sequences.delFirst ops (s, objs) list (fun e => e.node = pos) =
      some (answer, s', objs')) :
    ∃ status m', LinkedList.del2 ops (m, objs) list pos = some (status, m', objs') ∧
      answer = .status status ∧ Represents m' s' := by
  unfold Sequences.delFirst at hspec
  cases hfind : (s.entries list).find? (fun e => e.node = pos) with
  | none =>
    obtain ⟨e, he, rfl⟩ := List.mem_map.mp hpos
    exact absurd (List.find?_eq_none.mp hfind e he) (by simp)
  | some e =>
    rw [hfind] at hspec
    obtain ⟨proc, hproc, hspec⟩ := Option.bind_eq_some_iff.mp hspec
    obtain ⟨objs1, hrelease, hspec⟩ := Option.bind_eq_some_iff.mp hspec
    cases hspec
    obtain ⟨front, rear, hsplit, _, hp, herase⟩ := split_of_find hfind
    obtain rfl : e.node = pos := by simpa using hp
    obtain ⟨m', hdel, hrep⟩ := h.delFromList hl hsplit hproc hrelease
    exact ⟨AWE_OK, m', by simp [LinkedList.del2, hdel], rfl, by rw [herase]; exact hrep⟩

theorem Represents.next_head (h : Represents m s) (hl : list ∈ s.heads) :
    m.next list = some ((s.nodes list).head?.getD list) :=
  (h.ring list hl).1.next_eq

/-- Where `next` of a node leads to. -/
theorem Represents.next_of_split (h : Represents m s) (hl : list ∈ s.heads) {e : Entry}
    {front rear : List Entry} (hsplit : s.entries list = front ++ e :: rear) :
    m.next e.node = some ((rear.map Entry.node).head?.getD list) := by
  have hring := h.ring list hl
  rw [Sequences.nodes, hsplit, List.map_append, List.map_cons] at hring
  exact (seg_append.mp hring.1).2.next_eq

theorem Represents.prev_head (h : Represents m s) (hl : list ∈ s.heads) :
    m.prev list = some ((s.nodes list).getLast?.getD list) := by
  have hseg := (h.ring list hl).1
  rcases List.eq_nil_or_concat (s.nodes list) with hnodes | ⟨init, x, hnodes⟩
  · rw [hnodes] at hseg ⊢
    exact hseg.2
  · rw [hnodes, List.concat_eq_append] at hseg ⊢
    simpa using (seg_append.mp hseg).2.2

theorem Represents.listEmpty (h : Represents m s) (hl : list ∈ s.heads) :
    m.listEmpty list = some (decide (s.entries list = [])) := by
  have hnot := (List.nodup_cons.mp (h.ring list hl).2).1
  unfold LinkedList.listEmpty
  rw [h.next_head hl, Option.map_some, Option.some.injEq, decide_eq_decide]
  simp only [Sequences.nodes] at hnot ⊢
  cases hes : s.entries list with
  | nil => simp
  | cons e es =>
    rw [hes] at hnot
    simp only [List.map_cons, List.mem_cons, not_or] at hnot
    simp [Ne.symm hnot.1]

theorem Represents.removeFirst (h : Represents m s) (objs : ω) (hl : list ∈ s.heads) :
    ∃ o m' s', m.removeFirst list = some (o, m') ∧ Represents m' s' ∧
      Sequences.takeFirst (s, objs) list (fun _ => true) = (.object o, s', objs) := by
  unfold LinkedList.removeFirst Sequences.takeFirst
  simp only [h.listEmpty hl, h.next_head hl, Option.bind_eq_bind, Option.bind_some,
    decide_eq_true_eq, Sequences.nodes]
  cases hes : s.entries list with
  | nil => exact ⟨NULL, m, s, rfl, h, rfl⟩
  | cons e rest =>
    have hsplit : s.entries list = [] ++ e :: rest := hes
    obtain ⟨m', hrm, hrep⟩ := h.rmFromList hl hsplit
    exact ⟨e.object, m', s.set list rest, by simpa using hrm, hrep, by simp⟩

theorem Represents.getFirst (h : Represents m s) (hl : list ∈ s.heads) :
    (m.getFirst list).map Answer.object = some (Sequences.objectOf (s.entries list).head?) := by
  unfold LinkedList.getFirst
  simp only [h.listEmpty hl, h.next_head hl, Option.bind_eq_bind, Option.bind_some,
    decide_eq_true_eq, Sequences.nodes]
  cases hes : s.entries list with
  | nil => rfl
  | cons e rest => simp [Sequences.objectOf, h.object list hl e (by simp [hes])]

theorem Represents.getLast (h : Represents m s) (hl : list ∈ s.heads) :
    (m.getLast list).map Answer.object = some (Sequences.objectOf (s.entries list).getLast?) := by
  unfold LinkedList.getLast
  simp only [h.listEmpty hl, h.prev_head hl, Option.bind_eq_bind, Option.bind_some,
    decide_eq_true_eq, Sequences.nodes]
  rcases List.eq_nil_or_concat (s.entries list) with hes | ⟨init, e, hes⟩
  · rw [hes]
    rfl
  · rw [List.concat_eq_append] at hes
    simp [Sequences.objectOf, hes, h.object list hl e (by simp [hes])]

theorem Represents.get (h : Represents m s) (hl : list ∈ s.heads)
    (hfuel : (s.entries list).length < fuel) (equals : Ptr → Bool) :
    (m.get fuel list equals).map Answer.object =
      some (Sequences.objectOf ((s.entries list).find? (fun e => equals e.object))) := by
  unfold LinkedList.get
  cases hfind : (s.entries list).find? (fun e => equals e.object) with
  | none =>
    rw [h.search_none hl hfuel hfind ?_ ?_]
    · rfl
    · rfl
    · exact fun e he hp => by simp [h.object list hl e he, hp]
  | some e =>
    obtain ⟨front, rear, hsplit, _, hp, _⟩ := split_of_find hfind
    have he : e ∈ s.entries list := by simp [hsplit]
    rw [h.search_some (r := e.object) hl hfuel hfind ?_ ?_ ?_]
    · rfl
    · rfl
    · exact fun e he hp => by simp [h.object list hl e he, hp]
    · simp [h.object list hl e he, hp]

theorem Represents.size (h : Represents m s) (hl : list ∈ s.heads) :
    m.size list = some (BitVec.ofNat 32 (s.entries list).length) := by
  obtain ⟨p, _, hheader⟩ := h.header list hl
  simp [LinkedList.size, hheader]

theorem Represents.contains (h : Represents m s) (hl : list ∈ s.heads)
    (hfuel : (s.entries list).length < fuel) (obj : Ptr) :
    m.contains fuel list obj = some (decide (obj ∈ s.objects list)) := by
  have hring := h.ring list hl
  have hnot := (List.nodup_cons.mp hring.2).1
  have hobject : ∀ y ∈ s.nodes list, ∃ e ∈ s.entries list, m.object y = some e.object ∧
      y = e.node := by
    intro y hy
    obtain ⟨e, he, rfl⟩ := List.mem_map.mp hy
    exact ⟨e, he, h.object list hl e he, rfl⟩
  unfold LinkedList.contains
  cases hfind : (s.entries list).find? (fun e => e.object = obj) with
  | none =>
    have hall := List.find?_eq_none.mp hfind
    have habsent : obj ∉ s.objects list := by
      intro hm
      obtain ⟨e, he, rfl⟩ := List.mem_map.mp hm
      exact hall e he (by simp)
    rw [forEach_skip (fun _ => ()) hring.1 hnot ?_ (by simpa [Sequences.nodes] using hfuel)]
    · simp [habsent]
    · intro k y hy
      obtain ⟨e, he, hobj, _⟩ := hobject y (List.mem_of_getElem? hy)
      have hne : e.object ≠ obj := by simpa using hall e he
      simp [hobj, hne]
  | some e =>
    obtain ⟨front, rear, hsplit, hfront, hp, _⟩ := split_of_find hfind
    obtain rfl : e.object = obj := by simpa using hp
    have hnodes : s.nodes list = front.map Entry.node ++ e.node :: rear.map Entry.node := by
      simp [Sequences.nodes, hsplit]
    have hpresent : e.object ∈ s.objects list :=
      List.mem_map_of_mem (by simp [hsplit])
    rw [hnodes] at hring hnot
    rw [forEach_return (fun _ => ()) (r := true) hring.1 ?_ ?_ ?_ ?_]
    · simp [hpresent]
    · intro hm
      simp only [List.mem_append, List.mem_cons] at hm hnot
      tauto
    · intro k y hy
      obtain ⟨f, hf, rfl⟩ := List.mem_map.mp (List.mem_of_getElem? hy)
      have hne : f.object ≠ e.object := by simpa using hfront f hf
      simp [h.object list hl f (by simp [hsplit, hf]), hne]
    · simp [h.object list hl e (by simp [hsplit])]
    · rw [hsplit, List.length_append] at hfuel
      simpa using Nat.lt_of_le_of_lt (Nat.le_add_right _ _) hfuel

/-- The counter of `getByIndex` has not wrapped before it passes the last node. -/
theorem Represents.getByIndex (h : Represents m s) (hl : list ∈ s.heads)
    (hfuel : (s.entries list).length < fuel) (hsize : (s.entries list).length ≤ 2147483647)
    (index : BitVec 32) : (m.getByIndex fuel list index).map Answer.object =
      some (Sequences.objectOf
        (if 0 ≤ index.toInt then (s.entries list)[index.toInt.toNat]? else none)) := by
  have hring := h.ring list hl
  have hnot := (List.nodup_cons.mp hring.2).1
  have hlen : (s.nodes list).length = (s.entries list).length := by simp [Sequences.nodes]
  have hcount : ∀ k, k < (s.entries list).length →
      (BitVec.ofNat 32 k = index ↔ index.toInt = k) := by
    intro k hk
    rw [← BitVec.toNat_inj, BitVec.toNat_ofNat, BitVec.toInt_eq_toNat_cond]
    have := index.isLt
    split <;> omega
  unfold LinkedList.getByIndex
  by_cases hin : 0 ≤ index.toInt ∧ index.toInt < (s.entries list).length
  · have hlt : index.toInt.toNat < (s.entries list).length := by omega
    have hsplit := (List.take_append_drop index.toInt.toNat (s.entries list)).symm
    rw [List.drop_eq_getElem_cons hlt] at hsplit
    have hnodes := congrArg (List.map Entry.node) hsplit
    rw [List.map_append, List.map_cons] at hnodes
    change s.nodes list = _ at hnodes
    rw [hnodes] at hring hnot
    rw [if_pos hin.1, List.getElem?_eq_getElem hlt]
    rw [forEach_return (fun k => BitVec.ofNat 32 k) hring.1 ?_ ?_ ?_ ?_]
    · rfl
    · intro hm
      simp only [List.mem_append, List.mem_cons] at hm hnot
      tauto
    · intro k y hy
      have hk : k < index.toInt.toNat := by
        have := (List.getElem?_eq_some_iff.mp hy).1
        simp at this
        omega
      have hne : BitVec.ofNat 32 k ≠ index := fun he => by
        have := (hcount k (by omega)).mp he
        omega
      simp [hne, BitVec.ofNat_add]
    · have he := h.object list hl _ (List.getElem_mem hlt)
      have heq : BitVec.ofNat 32 index.toInt.toNat = index := (hcount _ hlt).mpr (by omega)
      simp [he, Nat.min_eq_left (Nat.le_of_lt hlt), heq]
    · simp
      omega
  · rw [forEach_skip (fun k => BitVec.ofNat 32 k) hring.1 hnot ?_ (by omega)]
    · have hnone : (if 0 ≤ index.toInt then (s.entries list)[index.toInt.toNat]? else none) =
          none := by
        split
        · exact List.getElem?_eq_none (by omega)
        · rfl
      rw [hnone]
      rfl
    · intro k y hy
      have hk := (List.getElem?_eq_some_iff.mp hy).1
      have hne : BitVec.ofNat 32 k ≠ index := fun he => by
        have := (hcount k (by omega)).mp he
        omega
      simp [hne, BitVec.ofNat_add]

/-- The loop of `clear`: the successor saved before a node is freed is the first node
of what is left. -/
theorem Represents.clearLoop {proc : π} {es : List Entry} (h : Represents m s)
    (hl : list ∈ s.heads) (hproc : s.proc list = some proc) (hes : s.entries list = es)
    {objs' : ω} (hrelease : Sequences.releaseAll ops proc es objs = some objs')
    (hfuel : es.length < fuel) :
    ∃ pos n m', m.next list = some pos ∧ m.next pos = some n ∧
      forEachSafeLoop (fun s => next s.1)
        (fun s pos => (LinkedList.delFromList ops s list pos).map Sum.inl)
        list fuel (m, objs) pos n =
        some (.inl (m', objs') : (LinkedList π × ω) ⊕ (LinkedList π × ω)) ∧
      Represents m' (s.set list []) := by
  induction es generalizing m s objs fuel with
  | nil =>
    obtain ⟨fuel, rfl⟩ := Nat.exists_eq_succ_of_ne_zero (Nat.ne_of_gt hfuel)
    cases hrelease
    have hnext : m.next list = some list := by
      simpa [Sequences.nodes, hes] using h.next_head hl
    refine ⟨list, list, m, hnext, hnext, by simp [forEachSafeLoop], ?_⟩
    rw [← hes, Sequences.set_self]
    exact h
  | cons e rest ih =>
    obtain ⟨fuel, rfl⟩ := Nat.exists_eq_succ_of_ne_zero (Nat.ne_of_gt (Nat.zero_lt_of_lt hfuel))
    obtain ⟨objs1, hfirst, hrest⟩ := Option.bind_eq_some_iff.mp hrelease
    have hsplit : s.entries list = [] ++ e :: rest := hes
    obtain ⟨m1, hdel, hrep⟩ := h.delFromList hl hsplit hproc hfirst
    rw [List.nil_append] at hrep
    obtain ⟨pos, n, m', hpos, hn, hloop, hend⟩ := ih hrep hl hproc (by simp) hrest
      (by simpa using hfuel)
    have hnodes : s.nodes list = e.node :: rest.map Entry.node := by
      simp [Sequences.nodes, hes]
    have hring := h.ring list hl
    rw [hnodes] at hring
    have hne : e.node ≠ list := fun he => (List.nodup_cons.mp hring.2).1 (by simp [he])
    have hsaved : m.next e.node = some pos := by
      have hfirst := hrep.next_head hl
      rw [Sequences.set_nodes_same, hpos] at hfirst
      rw [hfirst, h.next_of_split hl hsplit]
    refine ⟨e.node, pos, m', hring.1.1, hsaved, ?_, by simpa using hend⟩
    simp [forEachSafeLoop, hne, hdel, hn, hloop]

/-- After the loop `_size` is 0 already. -/
theorem Represents.clear {proc : π} (h : Represents m s) (hl : list ∈ s.heads)
    (hproc : s.proc list = some proc) (hfuel : (s.entries list).length < fuel) {objs' : ω}
    (hrelease : Sequences.releaseAll ops proc (s.entries list) objs = some objs') :
    ∃ m', LinkedList.clear fuel ops (m, objs) list = some (m', objs') ∧
      Represents m' (s.set list []) := by
  obtain ⟨pos, n, m1, hpos, hn, hloop, hrep⟩ := h.clearLoop hl hproc rfl hrelease hfuel
  obtain ⟨p, hp, hheader⟩ := hrep.header list hl
  obtain rfl : p = proc := Option.some.inj (hp.symm.trans hproc)
  obtain ⟨m2, h2, hl2, hn2, hv2, ho2⟩ := setSize_spec hheader (fun _ => 0)
  have hrun : forEachSafe fuel (fun s => next s.1) list (m, objs)
      (fun s pos => (LinkedList.delFromList ops s list pos).map Sum.inl) =
      some (.inl (m1, objs') : (LinkedList π × ω) ⊕ (LinkedList π × ω)) := by
    simp [forEachSafe, hpos, hn, hloop]
  refine ⟨m2, ?_, ?_⟩
  · simp only [LinkedList.clear, hrun, h2, Option.bind_eq_bind, Option.bind_some]
  · have hring := hrep.ring list hl
    rw [Sequences.set_nodes_same] at hring
    rw [← hn2, ← hv2] at hring
    have hsame := hrep.set hring (by simp) hp hl2 hl (by simp)
      (fun x _ _ => ⟨by rw [hn2], by rw [hv2], by rw [ho2]⟩)
    simpa using hsame

theorem Represents.init (h : Represents m s) (hfree : s.NotNode list) (proc : π) :
    Represents (m.init list proc).2 (s.init list proc) := by
  have hnext : (m.init list proc).2.next = Function.update m.next list (some list) := by
    funext q
    by_cases hq : q = list
    · subst hq
      simp [LinkedList.init, next]
    · simp [LinkedList.init, next, hq]
  have hprev : (m.init list proc).2.prev = Function.update m.prev list (some list) := by
    funext q
    by_cases hq : q = list
    · subst hq
      simp [LinkedList.init, prev]
    · simp [LinkedList.init, prev, hq]
  have hentries : ∀ l, l ≠ list → (s.init list proc).entries l = s.entries l :=
    fun l hne => Function.update_of_ne hne ..
  have hnodes : ∀ l, l ≠ list → (s.init list proc).nodes l = s.nodes l := by
    intro l hne
    rw [Sequences.nodes, hentries l hne]
    rfl
  have hempty : (s.init list proc).entries list = [] := Function.update_self ..
  have hheads : ∀ l ∈ (s.init list proc).heads, l ≠ list → l ∈ s.heads := by
    intro l hl hne
    exact (List.mem_insert_iff.mp hl).resolve_left hne
  constructor
  · intro l hl
    by_cases hne : l = list
    · subst hne
      rw [Sequences.nodes, hempty, hnext, hprev]
      exact ⟨⟨Function.update_self .., Function.update_self ..⟩, by simp⟩
    · have hold := h.ring l (hheads l hl hne)
      have hfar : ∀ x ∈ l :: s.nodes l, x ≠ list := by
        intro x hx heq
        subst heq
        rcases List.mem_cons.mp hx with rfl | hx
        · exact hne rfl
        · exact hfree l (hheads l hl hne) hx
      rw [hnodes l hne, hnext, hprev]
      exact ⟨hold.1.frame (fun x hx => Function.update_of_ne (hfar x hx) ..)
        (fun x hx => Function.update_of_ne (hfar x hx) ..), hold.2⟩
  · intro l hl x hx
    by_cases hne : l = list
    · subst hne
      simp [Sequences.nodes, hempty] at hx
    · rw [hnodes l hne] at hx
      have hlmem := hheads l hl hne
      refine ⟨fun hm => ?_, fun l' hl' hx' => ?_⟩
      · rcases List.mem_insert_iff.mp hm with rfl | hm
        · exact hfree l hlmem hx
        · exact (h.apart l hlmem x hx).1 hm
      · by_cases hne' : l' = list
        · subst hne'
          simp [Sequences.nodes, hempty] at hx'
        · rw [hnodes l' hne'] at hx'
          exact (h.apart l hlmem x hx).2 l' (hheads l' hl' hne') hx'
  · intro l hl e he
    by_cases hne : l = list
    · subst hne
      simp [hempty] at he
    · rw [hentries l hne] at he
      exact h.object l (hheads l hl hne) e he
  · intro l hl
    by_cases hne : l = list
    · subst hne
      exact ⟨proc, Function.update_self .., by simp [LinkedList.init, hempty]⟩
    · obtain ⟨p, hp, hheader⟩ := h.header l (hheads l hl hne)
      refine ⟨p, by simp [Sequences.init, hne, hp], ?_⟩
      simp [LinkedList.init, hne, hheader, hentries l hne]

end Operations

/-- Every call does to the pointers what it does to the sequences, with the same answer
and the same calls on the objects. -/
theorem implements_sequences (ops : ObjectOps π ω) {limit fuel : Nat} (hlimit : limit ≤ 2147483647)
    (hfuel : limit < fuel) :
    Implements (step fuel ops) (Sequences.step ops limit)
      (fun s x => Represents s.1 x.1 ∧ s.2 = x.2 ∧ x.1.Within limit) := by
  intro code spec op answer spec' hrel hspec
  obtain ⟨m, objs⟩ := code
  obtain ⟨s, _⟩ := spec
  obtain ⟨s', objs'⟩ := spec'
  obtain ⟨h, rfl, hwithin⟩ := hrel
  have hwithin' := hwithin.step hspec
  have hfits : ∀ l ∈ s.heads, (s.entries l).length < fuel :=
    fun l hl => Nat.lt_of_le_of_lt (hwithin l hl) hfuel
  suffices hstep : ∃ m', step fuel ops (m, objs) op = some (answer, m', objs') ∧
      Represents m' s' by
    obtain ⟨m', hm', hrep⟩ := hstep
    exact ⟨(m', objs'), hm', hrep, rfl, hwithin'⟩
  cases op with
  | init list proc =>
    simp only [Sequences.step] at hspec
    obtain ⟨hfree, hspec⟩ := Option.ite_none_right_eq_some.mp hspec
    cases hspec
    exact ⟨_, rfl, h.init hfree proc⟩
  | add list obj node =>
    simp only [Sequences.step] at hspec
    obtain ⟨hok, hspec⟩ := Option.ite_none_right_eq_some.mp hspec
    obtain ⟨hl, _, hhead, hnode, _⟩ := hok
    obtain ⟨objs1, hinc, hspec⟩ := Option.map_eq_some_iff.mp hspec
    cases hspec
    obtain ⟨m', hadd, hrep⟩ := h.add obj hl hhead hnode
    exact ⟨m', by simp [step, add, hinc, hadd], hrep⟩
  | removeFirst list =>
    simp only [Sequences.step] at hspec
    obtain ⟨hl, hspec⟩ := Option.ite_none_right_eq_some.mp hspec
    obtain ⟨o, m', s1, hcode, hrep, htake⟩ := h.removeFirst objs hl
    rw [htake] at hspec
    cases hspec
    exact ⟨m', by simp [step, hcode], hrep⟩
  | remove list equals =>
    simp only [Sequences.step] at hspec
    obtain ⟨hl, hspec⟩ := Option.ite_none_right_eq_some.mp hspec
    obtain ⟨o, m', s1, hcode, hrep, htake⟩ :=
      h.remove objs hl (hfits list hl) equals
    rw [htake] at hspec
    cases hspec
    exact ⟨m', by simp [step, hcode], hrep⟩
  | del list obj =>
    simp only [Sequences.step] at hspec
    obtain ⟨hl, hspec⟩ := Option.ite_none_right_eq_some.mp hspec
    obtain ⟨status, m', hcode, rfl, hrep⟩ :=
      h.delWhere hl (hfits list hl) (fun o => o = obj) hspec
    exact ⟨m', by simp [step, del, hcode], hrep⟩
  | del2 list pos =>
    simp only [Sequences.step] at hspec
    obtain ⟨hok, hspec⟩ := Option.ite_none_right_eq_some.mp hspec
    obtain ⟨status, m', hcode, rfl, hrep⟩ := h.del2 hok.1 hok.2 hspec
    exact ⟨m', by simp [step, hcode], hrep⟩
  | del3 list equals =>
    simp only [Sequences.step] at hspec
    obtain ⟨hl, hspec⟩ := Option.ite_none_right_eq_some.mp hspec
    obtain ⟨status, m', hcode, rfl, hrep⟩ := h.delWhere hl (hfits list hl) equals hspec
    exact ⟨m', by simp [step, del3, hcode], hrep⟩
  | clear list =>
    simp only [Sequences.step] at hspec
    obtain ⟨hl, hspec⟩ := Option.ite_none_right_eq_some.mp hspec
    obtain ⟨proc, hproc, hspec⟩ := Option.bind_eq_some_iff.mp hspec
    obtain ⟨objs1, hrelease, hspec⟩ := Option.bind_eq_some_iff.mp hspec
    cases hspec
    obtain ⟨m', hcode, hrep⟩ := h.clear hl hproc (hfits list hl) hrelease
    exact ⟨m', by simp [step, hcode], hrep⟩
  | contains list obj =>
    simp only [Sequences.step] at hspec
    obtain ⟨hl, hspec⟩ := Option.ite_none_right_eq_some.mp hspec
    cases hspec
    exact ⟨m, by simp [step, h.contains hl (hfits list hl)], h⟩
  | get list equals =>
    simp only [Sequences.step] at hspec
    obtain ⟨hl, hspec⟩ := Option.ite_none_right_eq_some.mp hspec
    cases hspec
    obtain ⟨o, ho, hanswer⟩ :=
      Option.map_eq_some_iff.mp (h.get hl (hfits list hl) equals)
    exact ⟨m, by simp [step, ho, hanswer], h⟩
  | getFirst list =>
    simp only [Sequences.step] at hspec
    obtain ⟨hl, hspec⟩ := Option.ite_none_right_eq_some.mp hspec
    cases hspec
    obtain ⟨o, ho, hanswer⟩ := Option.map_eq_some_iff.mp (h.getFirst hl)
    exact ⟨m, by simp [step, ho, hanswer], h⟩
  | getLast list =>
    simp only [Sequences.step] at hspec
    obtain ⟨hl, hspec⟩ := Option.ite_none_right_eq_some.mp hspec
    cases hspec
    obtain ⟨o, ho, hanswer⟩ := Option.map_eq_some_iff.mp (h.getLast hl)
    exact ⟨m, by simp [step, ho, hanswer], h⟩
  | getByIndex list index =>
    simp only [Sequences.step] at hspec
    obtain ⟨hl, hspec⟩ := Option.ite_none_right_eq_some.mp hspec
    cases hspec
    obtain ⟨o, ho, hanswer⟩ := Option.map_eq_some_iff.mp
      (h.getByIndex hl (hfits list hl) (Nat.le_trans (hwithin list hl) hlimit) index)
    exact ⟨m, by simp [step, ho, hanswer], h⟩
  | size list =>
    simp only [Sequences.step] at hspec
    obtain ⟨hl, hspec⟩ := Option.ite_none_right_eq_some.mp hspec
    cases hspec
    have hlen : (s.entries list).length ≤ 2147483647 := Nat.le_trans (hwithin list hl) hlimit
    exact ⟨m, by simp [step, h.size hl, toInt_ofNat hlen], h⟩

/-- What holds of the memory behind the lists, once they hold `s`. -/
structure Sound (m : LinkedList π) (s : Sequences π) : Prop where
  represents : Represents m s
  inverse : ∀ l ∈ s.heads, ∀ x ∈ l :: s.nodes l, ∃ y ∈ l :: s.nodes l,
    m.next x = some y ∧ m.prev y = some x
  size : ∀ l ∈ s.heads, (m.size l).map BitVec.toInt = some (s.objects l).length

/-- Lists that never hold more than `INT_MAX` nodes are sequences of object references:
whatever calls the sequences allow, the code makes them without touching memory that is
not allocated, ends every loop, and answers and changes what they do. -/
theorem lists_refine_sequences (ops : ObjectOps π ω) {fuel : Nat} (hfuel : INT_MAX.toNat < fuel)
    {objs objs' : ω} {calls : List (Op π)} {answers : List Answer} {s : Sequences π}
    (hcalls : exec (Sequences.step ops INT_MAX.toNat) (Sequences.empty, objs) calls =
      some (answers, s, objs')) :
    ∃ m, exec (step fuel ops) (empty, objs) calls = some (answers, m, objs') ∧ Sound m s := by
  have hmax : INT_MAX.toNat ≤ 2147483647 := by decide
  obtain ⟨⟨m, _⟩, hrun, hrep, rfl, hwithin⟩ := (implements_sequences ops hmax hfuel).exec
    (s := (empty, objs)) ⟨represents_empty, rfl, by simp [Sequences.Within, Sequences.empty]⟩ hcalls
  refine ⟨m, hrun, hrep, fun l hl => (hrep.ring l hl).1.inverse, fun l hl => ?_⟩
  have hlen : (s.entries l).length ≤ 2147483647 := Nat.le_trans (hwithin l hl) hmax
  simp [hrep.size hl, toInt_ofNat hlen, Sequences.objects]

def plainObjects : ObjectOps Unit Unit := ⟨fun _ _ => some (), fun _ _ _ => some ()⟩

def sharedObject : List (Op Unit) :=
  [.init 1 (), .init 2 (), .add 1 70 10, .add 1 80 11, .add 1 70 12, .add 2 70 13,
    .remove 1 (fun o => o = 70), .getByIndex 1 1#32, .del 1 80, .del2 1 12, .getFirst 1, .size 2]

theorem shared_object_refined : ∃ m s,
    exec (step (2 ^ 31) plainObjects) (empty, ()) sharedObject =
      some ([.status 0, .status 0, .status 0, .status 0, .status 0, .status 0, .object 70,
        .object 70, .status 0, .status 0, .object 0, .size 1], m, ()) ∧
      s.objects 1 = [] ∧ s.objects 2 = [70] ∧ Sound m s := by
  obtain ⟨m, hm, hsound⟩ :=
    @lists_refine_sequences Unit Unit plainObjects (2 ^ 31) (by decide) () () sharedObject _ _ rfl
  exact ⟨m, _, hm, rfl, rfl, hsound⟩

/-- `n` more nodes in the first list, all of one object, from address `k` on. -/
def adds (k n : Nat) : List (Op Unit) := (List.range' k n).map (fun node => .add 1 7 node)

theorem exec_adds {m : LinkedList Unit} {s : Sequences Unit} {fuel k : Nat} (n : Nat)
    (h : Represents m s) (hheads : s.heads = [1]) (hk : 1 < k) (hnodes : ∀ x ∈ s.nodes 1, x < k) :
    ∃ answers m' s', exec (step fuel plainObjects) (m, ()) (adds k n) =
        some (answers, m', ()) ∧ Represents m' s' ∧ s'.heads = [1] ∧
      (s'.entries 1).length = (s.entries 1).length + n := by
  induction n generalizing m s k with
  | zero => exact ⟨[], m, s, rfl, h, hheads, rfl⟩
  | succ n ih =>
    have hl : 1 ∈ s.heads := by simp [hheads]
    have hnode : s.NotNode k := by
      intro l hmem hx
      obtain rfl : l = 1 := by simpa [hheads] using hmem
      exact Nat.lt_irrefl k (hnodes k hx)
    have hhead : k ∉ s.heads := by
      rw [hheads, List.mem_singleton]
      exact Nat.ne_of_gt hk
    obtain ⟨m1, hadd, hrep⟩ := h.add 7 hl hhead hnode
    obtain ⟨answers, m2, s2, hrun, hrep2, hheads2, hlen⟩ :=
      ih hrep hheads (Nat.lt_succ_of_lt hk) (fun x hx => by
        simp only [Sequences.set_nodes_same, List.map_append, List.mem_append] at hx
        rcases hx with hx | hx
        · exact Nat.lt_succ_of_lt (hnodes x hx)
        · rw [List.mem_singleton.mp hx]
          exact Nat.lt_succ_self k)
    refine ⟨.status AWE_OK :: answers, m2, s2, ?_, hrep2, hheads2, ?_⟩
    · exact exec_cons.mpr ⟨_, (m1, ()), answers, by simp [step, add, plainObjects, hadd], hrun, rfl⟩
    · rw [hlen, Sequences.set_entries_same, List.length_append, List.length_singleton]
      omega

/-- A list of `2 ^ 31` nodes. -/
theorem exec_long_list : ∃ answers m s,
    exec (step 0 plainObjects) (empty, ()) (.init 1 () :: adds 2 (2 ^ 31)) =
      some (answers, m, ()) ∧ Represents m s ∧ 1 ∈ s.heads ∧ (s.entries 1).length = 2 ^ 31 := by
  have hinit : Represents (empty.init 1 ()).2 (Sequences.empty.init 1 ()) :=
    represents_empty.init (by simp [Sequences.NotNode, Sequences.empty]) ()
  obtain ⟨answers, m, s, hrun, hrep, hheads, hlen⟩ :=
    exec_adds (2 ^ 31) hinit rfl (Nat.lt_succ_self 1)
      (by simp [Sequences.nodes, Sequences.init])
  refine ⟨.status AWE_OK :: answers, m, s, ?_, hrep, by simp [hheads], ?_⟩
  · exact exec_cons.mpr ⟨_, _, answers, rfl, hrun, rfl⟩
  · rw [hlen]
    simp [Sequences.init]

/-- With `2 ^ 31` nodes `_size` has wrapped. -/
theorem size_wraps : ∃ answers m s,
    exec (step 0 plainObjects) (empty, ()) (.init 1 () :: adds 2 (2 ^ 31)) =
      some (answers, m, ()) ∧ Represents m s ∧ 1 ∈ s.heads ∧ (s.objects 1).length = 2 ^ 31 ∧
      (m.size 1).map BitVec.toInt = some (-2 ^ 31) := by
  obtain ⟨answers, m, s, hrun, hrep, hl, hlen⟩ := exec_long_list
  refine ⟨answers, m, s, hrun, hrep, hl, by simpa [Sequences.objects] using hlen, ?_⟩
  rw [hrep.size hl, hlen]
  rfl

end Awe.LinkedList
