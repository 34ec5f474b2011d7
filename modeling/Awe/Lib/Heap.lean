import Mathlib.Logic.Function.Basic

/-- A block of an allocator: `birth` tells it from any other block that lay, or will
lie, at the same address. -/
structure Heap.Cell (α : Type*) where
  birth : Nat
  val : α

/-- An allocator that may hand a freed address out again, with the number of blocks
it has ever handed out. -/
structure Heap (α : Type*) where
  cells : Nat → Option (Heap.Cell α)
  next : Nat
  old : ∀ a c, cells a = some c → c.birth < next

/-- A block, whether still allocated or not. -/
structure Heap.Handle where
  addr : Nat
  birth : Nat
  deriving DecidableEq

namespace Heap

variable {α : Type*}

def empty : Heap α := ⟨fun _ => none, 0, by simp⟩

def handle? (h : Heap α) (a : Nat) : Option Handle := (h.cells a).map (fun c => ⟨a, c.birth⟩)

def get? (h : Heap α) (a : Nat) : Option α := (h.cells a).map Cell.val

def Live (h : Heap α) (p : Handle) : Prop := h.handle? p.addr = some p

instance (h : Heap α) (p : Handle) : Decidable (h.Live p) := inferInstanceAs (Decidable (_ = _))

def alloc (h : Heap α) (a : Nat) (v : α) : Option (Heap α) :=
  match h.cells a with
  | some _ => none
  | none => some
    { cells := Function.update h.cells a (some ⟨h.next, v⟩)
      next := h.next + 1
      old := by
        intro b c hb
        by_cases he : b = a
        · subst he
          rw [Function.update_self] at hb
          cases hb
          exact Nat.lt_succ_self _
        · rw [Function.update_of_ne he] at hb
          exact Nat.lt_succ_of_lt (h.old b c hb) }

def free (h : Heap α) (a : Nat) : Heap α where
  cells := Function.update h.cells a none
  next := h.next
  old := by
    intro b c hb
    by_cases he : b = a
    · subst he
      rw [Function.update_self] at hb
      cases hb
    · rw [Function.update_of_ne he] at hb
      exact h.old b c hb

def modify (h : Heap α) (a : Nat) (f : α → α) : Heap α where
  cells := Function.update h.cells a ((h.cells a).map (fun c => { c with val := f c.val }))
  next := h.next
  old := by
    intro b c hb
    by_cases he : b = a
    · subst he
      rw [Function.update_self] at hb
      obtain ⟨d, hd, rfl⟩ := Option.map_eq_some_iff.mp hb
      exact h.old b d hd
    · rw [Function.update_of_ne he] at hb
      exact h.old b c hb

theorem handle?_addr {h : Heap α} {a : Nat} {p : Handle} (hp : h.handle? a = some p) :
    p.addr = a := by
  obtain ⟨c, _, rfl⟩ := Option.map_eq_some_iff.mp hp
  rfl

theorem live_of_handle? {h : Heap α} {a : Nat} {p : Handle} (hp : h.handle? a = some p) :
    h.Live p := by
  rw [Live, handle?_addr hp]
  exact hp

theorem handle?_none {h : Heap α} {a : Nat} : h.handle? a = none ↔ h.get? a = none := by
  simp [handle?, get?]

theorem not_live_of_get? {h : Heap α} {p : Handle} (hp : h.get? p.addr = none) : ¬ h.Live p := by
  rw [Live, handle?_none.mpr hp]
  exact nofun

theorem Live.exists_get? {h : Heap α} {p : Handle} (hp : h.Live p) :
    ∃ v, h.get? p.addr = some v := by
  obtain ⟨c, hc, _⟩ := Option.map_eq_some_iff.mp hp
  exact ⟨c.val, by rw [get?, hc]; rfl⟩

theorem Live.birth_lt {h : Heap α} {p : Handle} (hp : h.Live p) : p.birth < h.next := by
  obtain ⟨c, hc, he⟩ := Option.map_eq_some_iff.mp hp
  have := h.old _ _ hc
  rw [← he]
  exact this

/-- Two live blocks at one address are one block. -/
theorem Live.eq_of_addr {h : Heap α} {p q : Handle} (hp : h.Live p) (hq : h.Live q)
    (ha : p.addr = q.addr) : p = q := by
  unfold Live at hp hq
  rw [ha, hq] at hp
  exact (Option.some.inj hp).symm

@[simp] theorem get?_empty (a : Nat) : (empty : Heap α).get? a = none := rfl

theorem get?_free (h : Heap α) (a b : Nat) :
    (h.free a).get? b = if b = a then none else h.get? b := by
  by_cases he : b = a <;> simp [get?, free, he]

theorem handle?_free (h : Heap α) (a b : Nat) :
    (h.free a).handle? b = if b = a then none else h.handle? b := by
  by_cases he : b = a <;> simp [handle?, free, he]

theorem get?_modify (h : Heap α) (a b : Nat) (f : α → α) :
    (h.modify a f).get? b = if b = a then (h.get? b).map f else h.get? b := by
  by_cases he : b = a <;> simp [get?, modify, he, Function.comp_def]

theorem get?_modify_of_get? {h : Heap α} {a : Nat} {v : α} (ha : h.get? a = some v)
    (f : α → α) (b : Nat) : (h.modify a f).get? b = if b = a then some (f v) else h.get? b := by
  rw [get?_modify]
  split
  · rename_i he
    rw [he, ha]
    rfl
  · rfl

@[simp] theorem isSome_get?_modify (h : Heap α) (a b : Nat) (f : α → α) :
    ((h.modify a f).get? b).isSome = (h.get? b).isSome := by
  rw [get?_modify]
  split <;> simp

@[simp] theorem handle?_modify (h : Heap α) (a b : Nat) (f : α → α) :
    (h.modify a f).handle? b = h.handle? b := by
  by_cases he : b = a <;> simp [handle?, modify, he, Function.comp_def]

@[simp] theorem live_modify {h : Heap α} {a : Nat} {f : α → α} {p : Handle} :
    (h.modify a f).Live p ↔ h.Live p := by
  simp [Live]

/-- Freeing an address ends the block that lay there and no other. -/
theorem live_free {h : Heap α} {a : Nat} {p : Handle} :
    (h.free a).Live p ↔ p.addr ≠ a ∧ h.Live p := by
  unfold Live
  rw [handle?_free]
  split <;> simp [*]

theorem modify_modify (h : Heap α) (a : Nat) (f g : α → α) :
    (h.modify a f).modify a g = h.modify a (fun v => g (f v)) := by
  unfold modify
  congr 1
  simp [Function.comp_def]

@[simp] theorem free_modify (h : Heap α) (a : Nat) (f : α → α) :
    (h.modify a f).free a = h.free a := by
  simp [free, modify]

/-- A write that leaves the block as it is leaves the heap as it is. -/
theorem modify_eq_self {h : Heap α} {a : Nat} {f : α → α}
    (hf : ∀ v, h.get? a = some v → f v = v) : h.modify a f = h := by
  unfold modify
  congr 1
  apply Function.update_eq_self_iff.mpr
  cases hc : h.cells a with
  | none => rfl
  | some c => rw [Option.map_some, hf c.val (by simp [get?, hc])]

section Alloc

variable {h k : Heap α} {a : Nat} {v : α}

theorem alloc_free_before (hk : h.alloc a v = some k) : h.get? a = none := by
  unfold alloc at hk
  split at hk
  · cases hk
  · simp [get?, *]

theorem get?_alloc (hk : h.alloc a v = some k) (b : Nat) :
    k.get? b = if b = a then some v else h.get? b := by
  unfold alloc at hk
  split at hk
  · cases hk
  · cases hk
    by_cases he : b = a <;> simp [get?, he]

theorem handle?_alloc (hk : h.alloc a v = some k) (b : Nat) :
    k.handle? b = if b = a then some ⟨a, h.next⟩ else h.handle? b := by
  unfold alloc at hk
  split at hk
  · cases hk
  · cases hk
    by_cases he : b = a <;> simp [handle?, he]

theorem next_alloc (hk : h.alloc a v = some k) : k.next = h.next + 1 := by
  unfold alloc at hk
  split at hk
  · cases hk
  · cases hk
    rfl

/-- An allocation gives life to a block that has never lived before. -/
theorem live_alloc (hk : h.alloc a v = some k) {p : Handle} :
    k.Live p ↔ p = ⟨a, h.next⟩ ∨ h.Live p := by
  have hnone : h.handle? a = none := handle?_none.mpr (alloc_free_before hk)
  unfold Live
  rw [handle?_alloc hk]
  by_cases he : p.addr = a
  · rw [if_pos he, he, hnone]
    simp [eq_comm]
  · rw [if_neg he]
    constructor
    · exact Or.inr
    · rintro (rfl | hp)
      · exact absurd rfl he
      · exact hp

end Alloc

/-- A block that is gone stays gone, whatever comes to lie at its address. -/
theorem not_live_alloc {h k : Heap α} {a : Nat} {v : α} {p : Handle}
    (hk : h.alloc a v = some k) (hold : p.birth < h.next) (hp : ¬ h.Live p) : ¬ k.Live p := by
  intro hlive
  rcases (live_alloc hk).mp hlive with rfl | hlive
  · exact Nat.lt_irrefl _ hold
  · exact hp hlive

/-- What is allocated is allocated with its first write. -/
theorem alloc_modify {h k : Heap α} {a : Nat} {v : α} (hk : h.alloc a v = some k) (f : α → α) :
    h.alloc a (f v) = some (k.modify a f) := by
  unfold alloc at hk ⊢
  split at hk
  · cases hk
  · cases hk
    simp [modify]

theorem exists_alloc {h : Heap α} {a : Nat} (ha : h.get? a = none) (v : α) :
    ∃ k, h.alloc a v = some k := by
  cases hcell : h.cells a with
  | none => exact ⟨_, by simp [alloc, hcell]; rfl⟩
  | some c => simp [get?, hcell] at ha

theorem exists_live {h : Heap α} {a : Nat} {v : α} (ha : h.get? a = some v) :
    ∃ k, h.Live ⟨a, k⟩ := by
  obtain ⟨c, hcell, _⟩ := Option.map_eq_some_iff.mp ha
  exact ⟨c.birth, by simp [Live, handle?, hcell]⟩

def Distinct (h : Heap α) : Prop := ∀ a b k, h.Live ⟨a, k⟩ → h.Live ⟨b, k⟩ → a = b

/-- `log` lists, once each, the blocks that are gone and those at the addresses `out`. -/
structure Logged (h : Heap α) (out : List Nat) (log : List Nat) : Prop where
  once : log.Nodup
  listed : ∀ k, k ∈ log ↔ k < h.next ∧ ∀ a, h.Live ⟨a, k⟩ → a ∈ out

section Logged

variable {h k : Heap α} {a b : Nat} {v : α} {out log : List Nat}

theorem distinct_empty : (empty : Heap α).Distinct :=
  fun _ _ _ ha => absurd ha (not_live_of_get? rfl)

theorem logged_empty : (empty : Heap α).Logged [] [] :=
  ⟨List.nodup_nil, by simp [empty]⟩

theorem Distinct.alloc (hd : h.Distinct) (hk : h.alloc a v = some k) : k.Distinct := by
  intro x y n hx hy
  rw [live_alloc hk] at hx hy
  rcases hx with hx | hx <;> rcases hy with hy | hy
  · cases hx
    cases hy
    rfl
  · cases hx
    exact absurd hy.birth_lt (Nat.lt_irrefl _)
  · cases hy
    exact absurd hx.birth_lt (Nat.lt_irrefl _)
  · exact hd x y n hx hy

theorem Distinct.modify (hd : h.Distinct) (f : α → α) : (h.modify a f).Distinct := by
  intro x y n hx hy
  exact hd x y n (live_modify.mp hx) (live_modify.mp hy)

theorem Distinct.free (hd : h.Distinct) : (h.free a).Distinct := by
  intro x y n hx hy
  exact hd x y n (live_free.mp hx).2 (live_free.mp hy).2

theorem logged_nil_iff : h.Logged [] log ↔
    log.Nodup ∧ ∀ k, k ∈ log ↔ k < h.next ∧ ∀ a, ¬ h.Live ⟨a, k⟩ := by
  constructor
  · intro hl
    exact ⟨hl.once, by simpa using hl.listed⟩
  · intro hl
    exact ⟨hl.1, by simpa using hl.2⟩

theorem Logged.alloc (hl : h.Logged out log) (hk : h.alloc a v = some k) (ha : a ∉ out) :
    k.Logged out log := by
  refine ⟨hl.once, fun n => ?_⟩
  simp only [hl.listed n, next_alloc hk, live_alloc hk]
  constructor
  · intro hn
    obtain ⟨hlt, hout⟩ := hn
    refine ⟨Nat.lt_succ_of_lt hlt, fun x hx => ?_⟩
    rcases hx with hx | hx
    · cases hx
      exact absurd hlt (Nat.lt_irrefl _)
    · exact hout x hx
  · intro hn
    obtain ⟨hlt, hout⟩ := hn
    have hne : n ≠ h.next := by
      intro heq
      subst heq
      exact ha (hout a (Or.inl rfl))
    exact ⟨by omega, fun x hx => hout x (Or.inr hx)⟩

theorem Logged.modify (hl : h.Logged out log) (f : α → α) : (h.modify a f).Logged out log := by
  refine ⟨hl.once, fun n => ?_⟩
  simp only [live_modify]
  exact hl.listed n

/-- A live block enters the log before it is gone. -/
theorem Logged.sign (hl : h.Logged out log) (hd : h.Distinct) (hlive : h.Live ⟨a, b⟩)
    (ha : a ∉ out) : h.Logged (a :: out) (log ++ [b]) := by
  have hb : b ∉ log := fun hmem => ha (((hl.listed b).mp hmem).2 a hlive)
  refine ⟨List.nodup_append.mpr ⟨hl.once, by simp, ?_⟩, fun n => ?_⟩
  · intro x hx y hy heq
    subst heq
    rw [List.mem_singleton.mp hy] at hx
    exact hb hx
  · rw [List.mem_append, hl.listed n, List.mem_singleton]
    constructor
    · intro hn
      rcases hn with hn | hn
      · exact ⟨hn.1, fun x hx => List.mem_cons_of_mem a (hn.2 x hx)⟩
      · subst hn
        refine ⟨hlive.birth_lt, fun x hx => ?_⟩
        rw [hd x a n hx hlive]
        exact List.mem_cons_self
    · intro hn
      obtain ⟨hlt, hout⟩ := hn
      by_cases hn : n = b
      · exact Or.inr hn
      · refine Or.inl ⟨hlt, fun x hx => ?_⟩
        rcases List.mem_cons.mp (hout x hx) with hxa | hxo
        · subst hxa
          exact absurd (congrArg Handle.birth (hx.eq_of_addr hlive rfl)) hn
        · exact hxo

theorem Logged.free (hl : h.Logged (a :: out) log) : (h.free a).Logged out log := by
  refine ⟨hl.once, fun n => ?_⟩
  rw [hl.listed n]
  simp only [live_free, List.mem_cons]
  constructor
  · intro hn
    exact ⟨hn.1, fun x hx => (hn.2 x hx.2).resolve_left hx.1⟩
  · intro hn
    obtain ⟨hlt, hout⟩ := hn
    refine ⟨hlt, fun x hx => ?_⟩
    by_cases hxa : x = a
    · exact Or.inl hxa
    · exact Or.inr (hout x ⟨hxa, hx⟩)

end Logged

section Map

variable {β : Type*}

def map (g : α → β) (h : Heap α) : Heap β where
  cells a := (h.cells a).map (fun c => ⟨c.birth, g c.val⟩)
  next := h.next
  old := by
    intro a c ha
    obtain ⟨d, hd, rfl⟩ := Option.map_eq_some_iff.mp ha
    exact h.old a d hd

variable {g : α → β} {h : Heap α} {a b : Nat}

@[simp] theorem get?_map (g : α → β) (h : Heap α) (a : Nat) :
    (h.map g).get? a = (h.get? a).map g := by
  simp [get?, map, Function.comp_def]

@[simp] theorem handle?_map (g : α → β) (h : Heap α) (a : Nat) :
    (h.map g).handle? a = h.handle? a := by
  simp [handle?, map, Function.comp_def]

@[simp] theorem live_map {p : Handle} : (h.map g).Live p ↔ h.Live p := by
  simp [Live]

theorem map_free (g : α → β) (h : Heap α) (a : Nat) : (h.free a).map g = (h.map g).free a := by
  unfold free map
  congr 1
  funext b
  by_cases hb : b = a <;> simp [hb]

/-- A write to the part that is kept, and to anything besides. -/
theorem map_modify {f : α → α} {k : β → β} (hf : ∀ v, g (f v) = k (g v)) (h : Heap α)
    (a : Nat) : (h.modify a f).map g = (h.map g).modify a k := by
  unfold modify map
  congr 1
  funext b
  by_cases hb : b = a <;> simp [hb, hf, Function.comp_def]

theorem map_alloc {k : Heap α} {v : α} (hk : h.alloc a v = some k) :
    (h.map g).alloc a (g v) = some (k.map g) := by
  unfold alloc at hk ⊢
  split at hk
  · cases hk
  · rename_i hnone
    cases hk
    have hnone' : (h.map g).cells a = none := by simp [map, hnone]
    rw [hnone']
    simp only [Option.some.injEq]
    unfold map
    congr 1
    funext b
    by_cases hb : b = a <;> simp [hb]

end Map

end Heap
