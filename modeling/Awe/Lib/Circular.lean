import Mathlib.Data.List.Basic
import Mathlib.Data.Nat.ModEq
import Mathlib.Tactic.Push

namespace Circular

variable {α : Type*}

/-- The `n` cells from `off` on. -/
def flat (cells : Nat → α) (off n : Nat) : List α :=
  (List.range n).map (fun i => cells (off + i))

/-- The `n` cells from position `start` on. Positions count on without end; their
cells repeat after `capacity` of them. -/
def window (cells : Nat → α) (capacity start n : Nat) : List α :=
  (List.range n).map (fun i => cells ((start + i) % capacity))

variable (cells : Nat → α) (capacity : Nat)

@[simp] theorem window_length (start n : Nat) : (window cells capacity start n).length = n := by
  simp [window]

theorem window_add (start m n : Nat) :
    window cells capacity start (m + n) =
      window cells capacity start m ++ window cells capacity (start + m) n := by
  simp [window, List.range_add, Nat.add_assoc, Function.comp_def]

theorem window_take {start m n : Nat} (h : m ≤ n) :
    (window cells capacity start n).take m = window cells capacity start m := by
  obtain ⟨k, rfl⟩ := Nat.exists_eq_add_of_le h
  rw [window_add]
  exact List.take_left' (window_length ..)

theorem window_drop {start m n : Nat} (h : m ≤ n) :
    (window cells capacity start n).drop m = window cells capacity (start + m) (n - m) := by
  obtain ⟨k, rfl⟩ := Nat.exists_eq_add_of_le h
  rw [window_add, Nat.add_sub_cancel_left]
  exact List.drop_left' (window_length ..)

variable {cells capacity}

/-- Positions that lie the same way in the array have the same window. -/
theorem window_congr_start {s t : Nat} (h : s ≡ t [MOD capacity]) (n : Nat) :
    window cells capacity s n = window cells capacity t n := by
  unfold window
  congr 1
  funext i
  exact congrArg cells (h.add_right i)

theorem window_congr_cells {cells' : Nat → α} {start n : Nat}
    (h : ∀ i < n, cells' ((start + i) % capacity) = cells ((start + i) % capacity)) :
    window cells' capacity start n = window cells capacity start n :=
  List.map_congr_left (fun i hi => h i (List.mem_range.mp hi))

/-- How many of `n` cells from `start` on lie before the end of the array. -/
def untilEnd (capacity start n : Nat) : Nat := min n (capacity - start % capacity)

variable (capacity) in
theorem untilEnd_le (start n : Nat) : untilEnd capacity start n ≤ n := Nat.min_le_left _ _

theorem cell_before_end {start n i : Nat} (hi : i < untilEnd capacity start n) :
    (start + i) % capacity = start % capacity + i := by
  unfold untilEnd at hi
  rw [Nat.add_mod, Nat.mod_eq_of_lt (a := i), Nat.mod_eq_of_lt] <;> omega

theorem cell_after_end {start n i : Nat} (hn : n ≤ capacity)
    (hi : i < n - untilEnd capacity start n) :
    (start + untilEnd capacity start n + i) % capacity = i := by
  have hend : untilEnd capacity start n = capacity - start % capacity := by
    unfold untilEnd at *
    omega
  have hlt : start % capacity < capacity := Nat.mod_lt _ (by omega)
  have hmul : start + (capacity - start % capacity) = capacity * (start / capacity + 1) := by
    have := Nat.mod_add_div start capacity
    rw [Nat.mul_add, Nat.mul_one]
    omega
  rw [hend, hmul, Nat.mul_add_mod, Nat.mod_eq_of_lt]
  omega

/-- A window no longer than the array is one run up to its end and one from its beginning. -/
theorem window_split {start n : Nat} (hn : n ≤ capacity) :
    window cells capacity start n =
      flat cells (start % capacity) (untilEnd capacity start n) ++
        flat cells 0 (n - untilEnd capacity start n) := by
  conv_lhs => rw [← Nat.add_sub_cancel' (untilEnd_le capacity start n), window_add]
  congr 1
  · exact List.map_congr_left
      (fun i hi => congrArg cells (cell_before_end (List.mem_range.mp hi)))
  · refine List.map_congr_left (fun i hi => congrArg cells ?_)
    rw [cell_after_end hn (List.mem_range.mp hi), Nat.zero_add]

/-- Two windows side by side that together fit the array share no cell. -/
theorem window_apart {start m n i j : Nat} (h : m + n ≤ capacity) (hi : i < m) (hj : j < n) :
    (start + i) % capacity ≠ (start + m + j) % capacity := by
  intro he
  have hmod : start + i ≡ start + m + j [MOD capacity] := he
  rw [Nat.add_assoc] at hmod
  have hmod := Nat.ModEq.add_left_cancel' start hmod
  have := Nat.ModEq.eq_of_lt_of_lt hmod (by omega) (by omega)
  omega

/-- A window is not touched by a change of one cell behind it. -/
theorem window_of_set {cells' : Nat → α} {start n k : Nat} (hn : n ≤ k) (hk : k < capacity)
    (hother : ∀ j, j ≠ (start + k) % capacity → cells' j = cells j) :
    window cells' capacity start n = window cells capacity start n := by
  refine window_congr_cells (fun i hi => hother _ ?_)
  have hapart : (start + i) % capacity ≠ (start + n + (k - n)) % capacity :=
    window_apart (m := n) (n := k - n + 1) (by omega) hi (by omega)
  rwa [Nat.add_assoc, Nat.add_sub_cancel' hn] at hapart

/-- One more cell of a window. -/
theorem window_succ (cells : Nat → α) (capacity start n : Nat) :
    window cells capacity start (n + 1) =
      window cells capacity start n ++ [cells ((start + n) % capacity)] := by
  rw [window_add]
  rfl

/-- Behind a window there is room for `data`, written as one run up to the end of
the array and one from its beginning: it extends the window and touches nothing in it. -/
theorem window_extend {cells' : Nat → α} {start m : Nat} {data : List α}
    (hroom : m + data.length ≤ capacity)
    (hfirst : flat cells' ((start + m) % capacity) (untilEnd capacity (start + m) data.length) =
      data.take (untilEnd capacity (start + m) data.length))
    (hrest : flat cells' 0 (data.length - untilEnd capacity (start + m) data.length) =
      data.drop (untilEnd capacity (start + m) data.length))
    (hother : ∀ j,
      (j < (start + m) % capacity ∨
        (start + m) % capacity + untilEnd capacity (start + m) data.length ≤ j) →
      data.length - untilEnd capacity (start + m) data.length ≤ j → cells' j = cells j) :
    window cells' capacity start (m + data.length) =
      window cells capacity start m ++ data := by
  have hle := untilEnd_le capacity (start + m) data.length
  rw [window_add]
  congr 1
  · refine window_congr_cells (fun i hi => hother _ ?_ ?_)
    · by_contra hin
      push Not at hin
      obtain ⟨x, hx⟩ := Nat.exists_eq_add_of_le hin.1
      have hlt : x < untilEnd capacity (start + m) data.length := by omega
      have hcell := cell_before_end hlt
      exact window_apart hroom hi (by omega) (hx.trans hcell.symm)
    · by_contra hin
      have hcell := cell_after_end (by omega) (Nat.lt_of_not_le hin)
      rw [Nat.add_assoc] at hcell
      exact window_apart hroom hi (by omega) hcell.symm
  · rw [window_split (by omega), hfirst, hrest, List.take_append_drop]

end Circular
