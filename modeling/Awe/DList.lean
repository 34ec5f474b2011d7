import Mathlib.Data.List.Count
import Awe.LinkedList.Links

namespace Awe

/-- The memory behind one list of `dlist.h`: its `list_head`s, as those of a linked list
that has nothing else, the records that carry them, and the addresses handed out and
given back. A record is known by the address of its `list_head`. -/
structure DList (ρ : Type) where
  heads : LinkedList Unit
  records : Ptr → Option ρ
  mallocs : List Ptr
  frees : List Ptr

namespace DList

variable {ρ : Type}

def next (m : DList ρ) (p : Ptr) : Option Ptr := m.heads.next p

def prev (m : DList ρ) (p : Ptr) : Option Ptr := m.heads.prev p

/-- `INIT_LIST_HEAD`, before anything is allocated. -/
def init (head : Ptr) : DList ρ where
  heads := { LinkedList.empty with
    links := Function.update (fun _ => none) head (some ⟨head, head⟩) }
  records := fun _ => none
  mallocs := []
  frees := []

/-- `awe_mallocz` of a record and the stores that fill it; `none` where the address is
one the allocator cannot give. -/
def create (m : DList ρ) (a : Ptr) (r : ρ) : Option (DList ρ) :=
  if a = NULL ∨ (m.heads.links a).isSome then none
  else some
    { heads := { m.heads with links := Function.update m.heads.links a (some ⟨NULL, NULL⟩) }
      records := Function.update m.records a (some r)
      mallocs := m.mallocs ++ [a]
      frees := m.frees }

/-- `awe_free` of a record; `none` where there is none. -/
def free (m : DList ρ) (a : Ptr) : Option (DList ρ) :=
  (m.records a).map (fun _ =>
    { heads := { m.heads with links := Function.update m.heads.links a none }
      records := Function.update m.records a none
      mallocs := m.mallocs
      frees := m.frees ++ [a] })

def addTail (m : DList ρ) (node pos : Ptr) : Option (DList ρ) :=
  (m.heads.listAddTail node pos).map (fun heads => { m with heads := heads })

def del (m : DList ρ) (entry : Ptr) : Option (DList ρ) :=
  (m.heads.listDel entry).map (fun heads => { m with heads := heads })

def modify (m : DList ρ) (a : Ptr) (f : ρ → ρ) : Option (DList ρ) :=
  (m.records a).map (fun r => { m with records := Function.update m.records a (some (f r)) })

/-- A list has no more nodes than blocks were ever handed out, which bounds its loops. -/
def rounds (m : DList ρ) : Nat := m.mallocs.length + 1

open Cycle

/-- One well-formed list of records at `head`. Whatever else is allocated is on no list,
and each block has been handed out once more than it was given back as long as it is. -/
structure Holds (m : DList ρ) (head : Ptr) (items : List (Ptr × ρ)) : Prop where
  ring : Ring m.next m.prev head (items.map Prod.fst)
  records : ∀ e ∈ items, m.records e.1 = some e.2
  blocks : ∀ a, (m.heads.links a).isSome ↔ a = head ∨ (m.records a).isSome
  head : m.records head = none
  null : m.records NULL = none
  balanced : ∀ a, m.mallocs.count a = m.frees.count a + if (m.records a).isSome then 1 else 0

section Holds

variable {m m' : DList ρ} {head a : Ptr} {items front rear : List (Ptr × ρ)} {r : ρ}

theorem next_eq_none_iff {p : Ptr} : m.next p = none ↔ m.heads.links p = none := by
  simp [next, LinkedList.next]

theorem holds_init (head : Ptr) : (init head : DList ρ).Holds head [] := by
  constructor
  · refine ⟨⟨?_, ?_⟩, List.nodup_singleton _⟩ <;>
      simp [init, next, prev, LinkedList.next, LinkedList.prev]
  · simp
  · intro a
    by_cases ha : a = head <;> simp [init, ha]
  · rfl
  · rfl
  · simp [init]

theorem Holds.nodup (h : m.Holds head items) : (items.map Prod.fst).Nodup :=
  (List.nodup_cons.mp h.ring.2).2

theorem Holds.head_notMem (h : m.Holds head items) : head ∉ items.map Prod.fst :=
  (List.nodup_cons.mp h.ring.2).1

theorem Holds.links (h : m.Holds head items) {p : Ptr} (hp : p ∈ head :: items.map Prod.fst) :
    m.next p ≠ none := by
  have hsome : (m.heads.links p).isSome := by
    apply (h.blocks p).mpr
    rcases List.mem_cons.mp hp with rfl | hp
    · exact Or.inl rfl
    · obtain ⟨e, he, rfl⟩ := List.mem_map.mp hp
      exact Or.inr (by simp [h.records e he])
  intro hnone
  rw [next_eq_none_iff.mp hnone] at hsome
  cases hsome

/-- The list fits the bound of its loops. -/
theorem Holds.length_lt (h : m.Holds head items) : items.length < m.rounds := by
  have hsub : items.map Prod.fst ⊆ m.mallocs := by
    intro a ha
    obtain ⟨e, he, rfl⟩ := List.mem_map.mp ha
    have hcount := h.balanced e.1
    rw [h.records e he] at hcount
    exact List.count_pos_iff.mp (by simp only [Option.isSome_some, if_true] at hcount; omega)
  have := List.Nodup.length_le_of_subset h.nodup hsub
  rw [List.length_map] at this
  exact Nat.lt_succ_of_le this

theorem Holds.create_none_iff (h : m.Holds head items) :
    m.create a r = none ↔ a = NULL ∨ a = head ∨ (m.records a).isSome := by
  unfold create
  rw [← h.blocks a]
  split <;> simp [*]

/-- A new record, on no list yet. -/
theorem Holds.create (h : m.Holds head items) (hc : m.create a r = some m') :
    m'.Holds head items ∧ m'.records = Function.update m.records a (some r) ∧
      a ∉ head :: items.map Prod.fst ∧ m'.mallocs = m.mallocs ++ [a] ∧ m'.frees = m.frees := by
  unfold DList.create at hc
  split at hc
  · cases hc
  · rename_i hfree
    cases hc
    have hlinks : m.heads.links a = none := by
      simpa using fun hs => hfree (Or.inr hs)
    have hnew : a ∉ head :: items.map Prod.fst :=
      fun hm => h.links hm (next_eq_none_iff.mpr hlinks)
    have hahead : head ≠ a := fun he => hnew (he ▸ List.mem_cons_self)
    have hnone : m.records a = none := by
      cases hr : m.records a with
      | none => rfl
      | some _ =>
        have := (h.blocks a).mpr (Or.inr (by simp [hr]))
        simp [hlinks] at this
    have hnull : NULL ≠ a := fun he => hfree (Or.inl he.symm)
    refine ⟨⟨⟨h.ring.1.frame ?_ ?_, h.ring.2⟩, ?_, ?_, ?_, ?_, ?_⟩, rfl, hnew, rfl, rfl⟩
    · intro x hx
      have hxa : x ≠ a := fun he => hnew (he ▸ hx)
      simp [next, LinkedList.next, hxa]
    · intro x hx
      have hxa : x ≠ a := fun he => hnew (he ▸ hx)
      simp [prev, LinkedList.prev, hxa]
    · intro e he
      have hea : e.1 ≠ a := fun heq =>
        hnew (List.mem_cons_of_mem _ (heq ▸ List.mem_map_of_mem he))
      simp [hea, h.records e he]
    · intro b
      by_cases hb : b = a
      · simp [hb]
      · simp [hb, h.blocks b]
    · simp [hahead, h.head]
    · simp [hnull, h.null]
    · intro b
      have hcount := h.balanced b
      by_cases hb : b = a
      · subst hb
        simp only [hnone, Option.isSome_none] at hcount
        simp [hcount]
      · simp [hb, Ne.symm hb, hcount]

/-- A record outside the list is given back. -/
theorem Holds.free (h : m.Holds head items) (ha : a ∉ items.map Prod.fst)
    (hr : m.records a = some r) :
    ∃ m', m.free a = some m' ∧ m'.Holds head items ∧
      m'.records = Function.update m.records a none ∧ m'.mallocs = m.mallocs ∧
        m'.frees = m.frees ++ [a] := by
  have hahead : head ≠ a := by
    intro he
    subst he
    rw [h.head] at hr
    cases hr
  have hnew : a ∉ head :: items.map Prod.fst := by simpa [Ne.symm hahead] using ha
  refine ⟨_, Option.map_eq_some_iff.mpr ⟨r, hr, rfl⟩, ?_, rfl, rfl, rfl⟩
  have hnull : NULL ≠ a := by
    intro he
    rw [← he, h.null] at hr
    cases hr
  refine ⟨⟨h.ring.1.frame ?_ ?_, h.ring.2⟩, ?_, ?_, ?_, ?_, ?_⟩
  · intro x hx
    have hxa : x ≠ a := fun he => hnew (he ▸ hx)
    simp [next, LinkedList.next, hxa]
  · intro x hx
    have hxa : x ≠ a := fun he => hnew (he ▸ hx)
    simp [prev, LinkedList.prev, hxa]
  · intro e he
    have hea : e.1 ≠ a := fun heq => ha (heq ▸ List.mem_map_of_mem he)
    simp [hea, h.records e he]
  · intro b
    by_cases hb : b = a
    · simp [hb, Ne.symm hahead]
    · simp [hb, h.blocks b]
  · simp [hahead, h.head]
  · simp [hnull, h.null]
  · intro b
    have hcount := h.balanced b
    by_cases hb : b = a
    · subst hb
      simp only [hr, Option.isSome_some, if_true] at hcount
      simp [hcount]
    · simp [hb, Ne.symm hb, hcount]

/-- A record outside the list goes in before `pos`. -/
theorem Holds.addTail (h : m.Holds head (front ++ rear))
    (ha : a ∉ head :: (front ++ rear).map Prod.fst) (hr : m.records a = some r) {pos : Ptr}
    (hpos : pos = (rear.map Prod.fst).headD head) :
    ∃ m', m.addTail a pos = some m' ∧ m'.Holds head (front ++ (a, r) :: rear) ∧
      m'.records = m.records ∧ m'.mallocs = m.mallocs ∧ m'.frees = m.frees := by
  have hring := h.ring
  rw [List.map_append] at hring ha
  have hposmem : pos ∈ head :: (front.map Prod.fst ++ rear.map Prod.fst) := by
    subst hpos
    cases rear <;> simp
  obtain ⟨p, hp, hpmem, -⟩ : ∃ p, m.prev pos = some p ∧
      p ∈ head :: (front.map Prod.fst ++ rear.map Prod.fst) ∧ m.next p = some pos := by
    cases rear with
    | nil =>
      obtain ⟨p, hp, hm, hn⟩ := hring.1.prev_end
      exact ⟨p, hpos ▸ hp, hm, hpos ▸ hn⟩
    | cons e rear =>
      obtain ⟨p, hp, hm, hn⟩ := (seg_append.mp hring.1).1.prev_end
      refine ⟨p, hpos ▸ hp, ?_, hpos ▸ hn⟩
      simp only [List.mem_cons, List.mem_append] at hm ⊢
      tauto
  have hne : ∀ x ∈ head :: (front.map Prod.fst ++ rear.map Prod.fst), x ≠ a :=
    fun x hx he => ha (he ▸ hx)
  have hnode : m.heads.next a ≠ none := by
    have hblock := (h.blocks a).mpr (Or.inr (by simp [hr]))
    intro hnone
    simp [next_eq_none_iff.mp hnone] at hblock
  have hlink : m.heads.next p ≠ none := h.links (by rwa [List.map_append])
  obtain ⟨heads, hadd, hn, hv, ho, hl⟩ := LinkedList.listAddTail_spec hp hnode hlink
  refine ⟨{ m with heads := heads }, by rw [DList.addTail, hadd]; rfl, ?_, rfl, rfl, rfl⟩
  refine ⟨?_, ?_, ?_, h.head, h.null, h.balanced⟩
  · rw [List.map_append, List.map_cons]
    refine hring.insert hpos ha hp (fun y hy hyp => ?_) (fun y hy hyp => ?_) ?_ ?_ ?_ ?_
    · have := congrFun hn y
      simpa [next, hyp, hne y hy] using this
    · have := congrFun hv y
      simpa [prev, hyp, hne y hy] using this
    · simpa [next] using congrFun hn p
    · simpa [next, Ne.symm (hne p hpmem)] using congrFun hn a
    · simpa [prev, hne pos hposmem] using congrFun hv pos
    · simpa [prev] using congrFun hv a
  · intro e he
    rcases List.mem_append.mp he with he | he
    · exact h.records e (List.mem_append_left _ he)
    · rcases List.mem_cons.mp he with rfl | he
      · exact hr
      · exact h.records e (List.mem_append_right _ he)
  · intro b
    rw [← h.blocks b]
    have hsame : heads.next b = none ↔ m.heads.next b = none := by
      rw [hn]
      by_cases hbp : b = p
      · subst hbp
        simpa using hlink
      · by_cases hba : b = a
        · subst hba
          simpa [hbp] using hnode
        · simp [hbp, hba]
    simp only [LinkedList.next, Option.map_eq_none_iff] at hsame
    simp only [← Option.ne_none_iff_isSome, ne_eq, hsame]

/-- A record leaves the list and stays allocated. -/
theorem Holds.del {e : Ptr × ρ} (h : m.Holds head (front ++ e :: rear)) :
    ∃ m', m.del e.1 = some m' ∧ m'.Holds head (front ++ rear) ∧ m'.records = m.records ∧
      m'.mallocs = m.mallocs ∧ m'.frees = m.frees := by
  have hring := h.ring
  rw [List.map_append, List.map_cons] at hring
  obtain ⟨hfront, hrear⟩ := seg_append.mp hring.1
  obtain ⟨p, hp, hpmem, hpn⟩ := hfront.prev_end
  obtain ⟨q, hq, hqmem, hqv⟩ := hrear.next_start
  have hlinks : ∀ x ∈ head :: (front.map Prod.fst ++ e.1 :: rear.map Prod.fst), m.next x ≠ none :=
    fun x hx => h.links (by simpa using hx)
  have hpmem' : p ∈ head :: (front.map Prod.fst ++ e.1 :: rear.map Prod.fst) := by
    simp only [List.mem_cons, List.mem_append] at hpmem ⊢
    tauto
  have hqmem' : q ∈ head :: (front.map Prod.fst ++ e.1 :: rear.map Prod.fst) := by
    simp only [List.mem_cons, List.mem_append] at hqmem ⊢
    tauto
  obtain ⟨heads, hdel, hn, hv, ho, hl⟩ := LinkedList.listDel_spec (m := m.heads) hp hq
    (hlinks p hpmem') (hlinks q hqmem')
  have hperm : (head :: (front.map Prod.fst ++ e.1 :: rear.map Prod.fst)).Perm
      (e.1 :: head :: (front.map Prod.fst ++ rear.map Prod.fst)) :=
    (List.perm_middle.cons head).trans (List.Perm.swap ..)
  have hgone := (List.nodup_cons.mp (hperm.nodup_iff.mp hring.2)).1
  have hne : ∀ y ∈ head :: (front.map Prod.fst ++ rear.map Prod.fst), y ≠ e.1 :=
    fun y hy he => hgone (he ▸ hy)
  have hpne : p ≠ e.1 := hne p (by simp only [List.mem_cons, List.mem_append] at hpmem ⊢; tauto)
  have hqne : q ≠ e.1 := hne q (by simp only [List.mem_cons, List.mem_append] at hqmem ⊢; tauto)
  refine ⟨{ m with heads := heads }, by rw [DList.del, hdel]; rfl, ?_, rfl, rfl, rfl⟩
  refine ⟨?_, ?_, ?_, h.head, h.null, h.balanced⟩
  · rw [List.map_append]
    refine hring.remove hp hq (fun y hy hyp => ?_) (fun y hy hyq => ?_) ?_ ?_
    · have := congrFun hn y
      simpa [next, hyp, hne y hy] using this
    · have := congrFun hv y
      simpa [prev, hyq, hne y hy] using this
    · simpa [next, hpne] using congrFun hn p
    · simpa [prev, hqne] using congrFun hv q
  · intro f hf
    apply h.records f
    simp only [List.mem_append, List.mem_cons] at hf ⊢
    tauto
  · intro b
    rw [← h.blocks b]
    have hsame : heads.next b = none ↔ m.heads.next b = none := by
      rw [hn]
      by_cases hbe : b = e.1
      · subst hbe
        simpa [next] using hlinks e.1 (by simp)
      · by_cases hbp : b = p
        · subst hbp
          simpa [hbe, next] using hlinks b hpmem'
        · simp [hbe, hbp]
    simp only [LinkedList.next, Option.map_eq_none_iff] at hsame
    simp only [← Option.ne_none_iff_isSome, ne_eq, hsame]

/-- A listed record is written to. -/
theorem Holds.modify (h : m.Holds head (front ++ (a, r) :: rear)) (f : ρ → ρ) :
    ∃ m', m.modify a f = some m' ∧ m'.Holds head (front ++ (a, f r) :: rear) ∧
      m'.records = Function.update m.records a (some (f r)) ∧ m'.mallocs = m.mallocs ∧
        m'.frees = m.frees := by
  have hr : m.records a = some r := h.records (a, r) (by simp)
  have hahead : head ≠ a := by
    intro he
    subst he
    rw [h.head] at hr
    cases hr
  have hnull : NULL ≠ a := by
    intro he
    rw [← he, h.null] at hr
    cases hr
  refine ⟨_, Option.map_eq_some_iff.mpr ⟨r, hr, rfl⟩, ⟨?_, ?_, ?_, ?_, ?_, ?_⟩, rfl, rfl, rfl⟩
  · have hring := h.ring
    rw [List.map_append, List.map_cons] at hring ⊢
    exact hring
  · have hnodup := h.nodup
    rw [List.map_append, List.map_cons] at hnodup
    have hother := (List.nodup_cons.mp (List.perm_middle.nodup_iff.mp hnodup)).1
    rw [← List.map_append] at hother
    intro e he
    have hcases : e = (a, f r) ∨ e ∈ front ++ rear := by
      simp only [List.mem_append, List.mem_cons] at he ⊢
      tauto
    rcases hcases with heq | hold
    · simp [heq]
    · have hea : e.1 ≠ a := by
        have hm : e.1 ∈ (front ++ rear).map Prod.fst := List.mem_map_of_mem hold
        intro heq
        exact hother (heq ▸ hm)
      have hmem : e ∈ front ++ (a, r) :: rear := by
        simp only [List.mem_append, List.mem_cons] at hold ⊢
        tauto
      simp [hea, h.records e hmem]
  · intro b
    by_cases hb : b = a
    · subst hb
      simpa [hr] using h.blocks b
    · simp [hb, h.blocks b]
  · simp [hahead, h.head]
  · simp [hnull, h.null]
  · intro b
    by_cases hb : b = a
    · subst hb
      simpa [hr] using h.balanced b
    · simpa [hb] using h.balanced b

theorem Holds.next_head (h : m.Holds head items) :
    m.next head = some ((items.map Prod.fst).headD head) := by
  rw [List.headD_eq_head?_getD]
  exact h.ring.1.next_eq

theorem Holds.next_mem {e : Ptr × ρ} (h : m.Holds head (front ++ e :: rear)) :
    m.next e.1 = some ((rear.map Prod.fst).headD head) := by
  have hseg := h.ring.1
  rw [List.map_append, List.map_cons] at hseg
  rw [List.headD_eq_head?_getD]
  exact (seg_append.mp hseg).2.next_eq

/-- A loop that stops at the first record `p` holds of. -/
theorem forEach_find {next back : Ptr → Option Ptr} {β : Type} {p : Ptr × ρ → Bool}
    {out : Ptr × ρ → β} {body : Unit → Ptr → Option (Unit ⊕ β)} {fuel : Nat}
    (hseg : Seg next back head (items.map Prod.fst) head) (hhead : head ∉ items.map Prod.fst)
    (hbody : ∀ e ∈ items, body () e.1 = some (if p e then .inr (out e) else .inl ()))
    (hfuel : items.length < fuel) :
    LinkedList.forEach fuel (fun _ => next) head () body =
      some ((items.find? p).elim (.inl ()) (fun e => .inr (out e))) := by
  cases hfind : items.find? p with
  | none =>
    refine LinkedList.forEach_skip (fun _ => ()) hseg hhead ?_ (by rwa [List.length_map])
    intro k y hy
    obtain ⟨e, he, rfl⟩ := List.mem_map.mp (List.mem_of_getElem? hy)
    rw [hbody e he, if_neg (List.find?_eq_none.mp hfind e he)]
  | some e =>
    obtain ⟨hp, front, rear, rfl, hfront⟩ := List.find?_eq_some_iff_append.mp hfind
    rw [List.map_append, List.map_cons] at hseg hhead
    refine LinkedList.forEach_return (fun _ => ()) hseg ?_ ?_ ?_ ?_
    · intro hm
      apply hhead
      simp only [List.mem_append, List.mem_cons, List.not_mem_nil, or_false] at hm ⊢
      tauto
    · intro k y hy
      obtain ⟨f, hf, rfl⟩ := List.mem_map.mp (List.mem_of_getElem? hy)
      rw [hbody f (List.mem_append_left _ hf), if_neg (by simpa using hfront f hf)]
    · rw [hbody e (by simp), if_pos hp]
    · rw [List.length_append, List.length_cons] at hfuel
      rw [List.length_map]
      omega

theorem Holds.find_next {β : Type} {p : Ptr × ρ → Bool} {out : Ptr × ρ → β}
    {body : Unit → Ptr → Option (Unit ⊕ β)} (h : m.Holds head items)
    (hbody : ∀ e ∈ items, body () e.1 = some (if p e then .inr (out e) else .inl ())) :
    LinkedList.forEach m.rounds (fun _ => m.next) head () body =
      some ((items.find? p).elim (.inl ()) (fun e => .inr (out e))) :=
  forEach_find h.ring.1 h.head_notMem hbody h.length_lt

theorem Holds.find_prev {β : Type} {p : Ptr × ρ → Bool} {out : Ptr × ρ → β}
    {body : Unit → Ptr → Option (Unit ⊕ β)} (h : m.Holds head items)
    (hbody : ∀ e ∈ items, body () e.1 = some (if p e then .inr (out e) else .inl ())) :
    LinkedList.forEach m.rounds (fun _ => m.prev) head () body =
      some ((items.reverse.find? p).elim (.inl ()) (fun e => .inr (out e))) := by
  have hback := h.ring.1.reverse
  rw [← List.map_reverse] at hback
  refine forEach_find hback ?_ (fun e he => hbody e (List.mem_reverse.mp he)) ?_
  · rw [List.map_reverse, List.mem_reverse]
    exact h.head_notMem
  · rw [List.length_reverse]
    exact h.length_lt

/-- A record unlinked and given back, as the body of a safe loop. -/
def delFree (m : DList ρ) (pos : Ptr) : Option (DList ρ ⊕ Unit) := do
  let m ← m.del pos
  (m.free pos).map .inl

theorem Holds.delFree {e : Ptr × ρ} (h : m.Holds head (front ++ e :: rear)) :
    ∃ m1 m', m.del e.1 = some m1 ∧ m1.free e.1 = some m' ∧ m'.Holds head (front ++ rear) ∧
      m'.records = Function.update m.records e.1 none ∧ m'.mallocs = m.mallocs ∧
        m'.frees = m.frees ++ [e.1] := by
  have hnodup := h.nodup
  rw [List.map_append, List.map_cons] at hnodup
  have hgone := (List.nodup_cons.mp (List.perm_middle.nodup_iff.mp hnodup)).1
  obtain ⟨m1, hdel, hm1, hr1, hma1, hf1⟩ := h.del
  have hrec : m1.records e.1 = some e.2 := by
    rw [hr1]
    exact h.records e (by simp)
  obtain ⟨m2, hfree, hm2, hr2, hma2, hf2⟩ := hm1.free (by rwa [List.map_append]) hrec
  exact ⟨m1, m2, hdel, hfree, hm2, by rw [hr2, hr1], by rw [hma2, hma1], by rw [hf2, hf1]⟩

/-- The loop that empties the list: the successor saved before a record is freed is the
first one of what is left. -/
theorem Holds.clearLoop (h : m.Holds head items) {fuel : Nat} (hfuel : items.length < fuel) :
    ∃ pos n m', m.next head = some pos ∧ m.next pos = some n ∧
      LinkedList.forEachSafeLoop next DList.delFree head fuel m pos n = some (.inl m') ∧
      m'.Holds head [] ∧ (∀ a, m'.records a =
        if a ∈ items.map Prod.fst then none else m.records a) := by
  induction items generalizing m fuel with
  | nil =>
    obtain ⟨fuel, rfl⟩ := Nat.exists_eq_succ_of_ne_zero (Nat.ne_of_gt hfuel)
    exact ⟨head, head, m, h.next_head, h.next_head, by simp [LinkedList.forEachSafeLoop], h,
      by simp⟩
  | cons e items ih =>
    obtain ⟨fuel, rfl⟩ := Nat.exists_eq_succ_of_ne_zero (Nat.ne_of_gt (Nat.zero_lt_of_lt hfuel))
    have hne : e.1 ≠ head := by
      intro he
      exact h.head_notMem (by simp [he])
    obtain ⟨m1, m2, hdel, hfree, hm2, hr2, _, _⟩ :=
      (show m.Holds head ([] ++ e :: items) from h).delFree
    rw [List.nil_append] at hm2
    obtain ⟨pos, n, m', hpos, hn, hloop, hm', hrec⟩ := ih hm2 (Nat.lt_of_succ_lt_succ hfuel)
    have hsaved : m.next e.1 = some pos := by
      rw [(show m.Holds head ([] ++ e :: items) from h).next_mem, ← hm2.next_head, hpos]
    refine ⟨e.1, pos, m', h.next_head, hsaved, ?_, hm', ?_⟩
    · simp [LinkedList.forEachSafeLoop, hne, DList.delFree, hdel, hfree, hn, hloop]
    · intro a
      rw [hrec, hr2]
      by_cases ha : a = e.1
      · simp [ha]
      · rw [Function.update_of_ne ha, List.map_cons]
        simp only [List.mem_cons, ha, false_or]

/-- No node lies at NULL. -/
theorem Holds.ne_null (h : m.Holds head items) {e : Ptr × ρ} (he : e ∈ items) : e.1 ≠ NULL := by
  intro hnull
  have hr := h.records e he
  rw [hnull, h.null] at hr
  cases hr

end Holds

end DList

end Awe
