import Mathlib.Order.Lattice

namespace StableQueue

variable {α κ : Type*} [LinearOrder κ] (key : α → κ)

/-- The scan for an insertion point, from the tail: `back` is still to be visited
(last element first) and every key in `passed` is larger than the new one. -/
def scan (new : α) : List α → List α → List α
  | [], passed => new :: passed
  | x :: back, passed =>
    if key x ≤ key new then (x :: back).reverse ++ new :: passed
    else scan new back (x :: passed)

def insert (list : List α) (new : α) : List α := scan key new list.reverse []

/-- Service order: by key, and among equal keys by arrival. -/
def Before (arrival : α → Nat) (x y : α) : Prop :=
  key x < key y ∨ key x = key y ∧ arrival x < arrival y

variable {key}

theorem Before.key_le {arrival : α → Nat} {x y : α} (h : Before key arrival x y) :
    key x ≤ key y := by
  rcases h with h | h
  · exact le_of_lt h
  · exact le_of_eq h.1

variable (key) in
theorem scan_split (new : α) (back passed : List α) :
    ∃ front rear, back.reverse = front ++ rear ∧
      scan key new back passed = front ++ new :: (rear ++ passed) ∧
      (∀ y ∈ rear, key new < key y) ∧ (∀ x ∈ front.getLast?, key x ≤ key new) := by
  induction back generalizing passed with
  | nil => exact ⟨[], [], rfl, rfl, by simp, by simp⟩
  | cons x back ih =>
    unfold scan
    split
    · rename_i hle
      exact ⟨(x :: back).reverse, [], by simp, by simp, by simp, by simpa using hle⟩
    · rename_i hlt
      obtain ⟨front, rear, hsplit, hscan, hrear, hfront⟩ := ih (x :: passed)
      refine ⟨front, rear ++ [x], by simp [hsplit], by simp [hscan], ?_, hfront⟩
      intro y hy
      rcases List.mem_append.mp hy with hy | hy
      · exact hrear y hy
      · rw [List.mem_singleton.mp hy]
        exact lt_of_not_ge hlt

variable (key) in
theorem insert_split (list : List α) (new : α) :
    ∃ front rear, list = front ++ rear ∧ insert key list new = front ++ new :: rear ∧
      (∀ y ∈ rear, key new < key y) ∧ (∀ x ∈ front.getLast?, key x ≤ key new) := by
  obtain ⟨front, rear, hsplit, hscan, hrear, hfront⟩ := scan_split key new list.reverse []
  exact ⟨front, rear, by simpa using hsplit, by simpa [insert] using hscan, hrear, hfront⟩

theorem insert_perm (list : List α) (new : α) : (insert key list new).Perm (new :: list) := by
  obtain ⟨front, rear, rfl, hins, _, _⟩ := insert_split key list new
  rw [hins]
  exact List.perm_middle

theorem mem_insert {list : List α} {new x : α} :
    x ∈ insert key list new ↔ x = new ∨ x ∈ list :=
  (insert_perm list new).mem_iff.trans List.mem_cons

theorem insert_ne_nil (list : List α) (new : α) : insert key list new ≠ [] := by
  intro h
  have hm : new ∈ insert key list new := mem_insert.mpr (Or.inl rfl)
  rw [h] at hm
  cases hm

/-- An insertion sets nobody back by more than one place. -/
theorem idxOf_insert_le [BEq α] [LawfulBEq α] (list : List α) (new x : α) :
    (insert key list new).idxOf x ≤ list.idxOf x + 1 := by
  obtain ⟨front, rear, rfl, hinsert, _, _⟩ := insert_split key list new
  rw [hinsert, List.idxOf_append, List.idxOf_append]
  split
  · exact Nat.le_succ _
  · rw [List.idxOf_cons]
    cases new == x <;> simp <;> omega

/-- Insertion behind every equal key keeps the service order: the latest arrival
goes after its equals. -/
theorem insert_ordered {arrival : α → Nat} {list : List α} {new : α}
    (ho : list.Pairwise (Before key arrival)) (hn : ∀ x ∈ list, arrival x < arrival new) :
    (insert key list new).Pairwise (Before key arrival) := by
  obtain ⟨front, rear, rfl, hins, hrear, hlast⟩ := insert_split key list new
  obtain ⟨hof, hor, hcross⟩ := List.pairwise_append.mp ho
  have hfront : ∀ x ∈ front, key x ≤ key new := by
    intro x hx
    obtain ⟨init, l, rfl⟩ : ∃ init l, front = init ++ [l] :=
      ⟨front.dropLast, front.getLast (List.ne_nil_of_mem hx),
        (List.dropLast_concat_getLast (List.ne_nil_of_mem hx)).symm⟩
    have hl : key l ≤ key new := hlast l (by simp)
    rcases List.mem_append.mp hx with hx | hx
    · have := (List.pairwise_append.mp hof).2.2 x hx l (by simp)
      exact le_trans this.key_le hl
    · rw [List.mem_singleton.mp hx]
      exact hl
  rw [hins]
  refine List.pairwise_append.mpr ⟨hof, List.pairwise_cons.mpr ⟨?_, hor⟩, ?_⟩
  · intro y hy
    exact Or.inl (hrear y hy)
  · intro x hx y hy
    rcases List.mem_cons.mp hy with rfl | hy
    · rcases lt_or_eq_of_le (hfront x hx) with hlt | heq
      · exact Or.inl hlt
      · exact Or.inr ⟨heq, hn x (List.mem_append_left _ hx)⟩
    · exact hcross x hx y hy

/-- The head of a queue in service order comes before everything else in it. -/
theorem head_before {arrival : α → Nat} {x : α} {rest : List α}
    (ho : (x :: rest).Pairwise (Before key arrival)) :
    ∀ y ∈ rest, Before key arrival x y :=
  (List.pairwise_cons.mp ho).1

end StableQueue
