import Mathlib.Algebra.Ring.Nat
import Mathlib.Data.List.Basic

namespace Hex

def write (width n : Nat) : List Char := List.leftpad width '0' (Nat.toDigits 16 n)

def digit? (c : Char) : Option Nat :=
  if '0' ≤ c ∧ c ≤ '9' then some (c.toNat - '0'.toNat)
  else if 'a' ≤ c ∧ c ≤ 'f' then some (10 + c.toNat - 'a'.toNat)
  else none

def readFrom (n : Nat) (text : List Char) : Option Nat :=
  text.foldlM (fun n c => (digit? c).map (16 * n + ·)) n

def read (text : List Char) : Option Nat := if text = [] then none else readFrom 0 text

theorem digit?_digitChar {d : Nat} (h : d < 16) : digit? d.digitChar = some d := by
  revert d
  decide

theorem readFrom_append (n : Nat) (front rear : List Char) :
    readFrom n (front ++ rear) = (readFrom n front).bind (readFrom · rear) := List.foldlM_append

theorem readFrom_digit (n : Nat) {d : Nat} (h : d < 16) :
    readFrom n [d.digitChar] = some (16 * n + d) := by
  simp [readFrom, digit?_digitChar h]

theorem readFrom_zeros (k : Nat) (text : List Char) :
    readFrom 0 (List.replicate k '0' ++ text) = readFrom 0 text := by
  induction k with
  | zero => rfl
  | succ k ih => exact ih

theorem readFrom_toDigits (n : Nat) : readFrom 0 (Nat.toDigits 16 n) = some n := by
  induction n using Nat.strongRecOn with
  | ind n ih =>
    by_cases h : n < 16
    · rw [Nat.toDigits_of_lt_base h, readFrom_digit 0 h, Nat.mul_zero, Nat.zero_add]
    · have hle : 16 ≤ n := by omega
      have hd : n % 16 < 16 := Nat.mod_lt _ (by decide)
      rw [Nat.toDigits_of_base_le (by decide) hle, readFrom_append, ih (n / 16) (by omega),
        Option.bind_some, readFrom_digit _ hd, Nat.div_add_mod]

theorem write_ne_nil (width n : Nat) : write width n ≠ [] := by
  simp [write, List.leftpad, Nat.toDigits_ne_nil]

theorem read_write (width n : Nat) : read (write width n) = some n := by
  rw [read, if_neg (write_ne_nil width n), write, List.leftpad, readFrom_zeros,
    readFrom_toDigits]

theorem length_write {width n : Nat} (hpos : 0 < width) (h : n < 16 ^ width) :
    (write width n).length = width := by
  have hle := (Nat.length_toDigits_le_iff (by decide) hpos).mpr h
  rw [write, List.length_leftpad, Nat.max_eq_left hle]

/-- What can be read has nothing but digits in it. -/
theorem digit_of_readFrom {text : List Char} {n m : Nat} (h : readFrom n text = some m) {c : Char}
    (hc : c ∈ text) : (digit? c).isSome := by
  induction text generalizing n with
  | nil => cases hc
  | cons d text ih =>
    obtain ⟨k, hk, hrest⟩ := Option.bind_eq_some_iff.mp h
    rcases List.mem_cons.mp hc with rfl | hc
    · cases hd : digit? c with
      | none => simp [hd] at hk
      | some _ => rfl
    · exact ih hrest hc

theorem digit_of_write {width n : Nat} {c : Char} (hc : c ∈ write width n) : (digit? c).isSome := by
  have hread := read_write width n
  rw [read, if_neg (write_ne_nil width n)] at hread
  exact digit_of_readFrom hread hc

end Hex
