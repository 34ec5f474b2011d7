import Mathlib.Logic.Basic

namespace Awe

/-- An address; objects, procedures and user data are only compared and passed on. -/
abbrev Ptr := Nat

def NULL : Ptr := 0

/-- `awe_status_t`. -/
abbrev Status := Int

def AWE_OK : Status := 0

def AWE_CONN_TIMEDOUT : Int := 110

/-- The value C stores for `x` in an `int32_t`. -/
def int32 (x : Int) : Int := (x + 2147483648) % 4294967296 - 2147483648

def int64 (x : Int) : Int :=
  (x + 9223372036854775808) % 18446744073709551616 - 9223372036854775808

/-- The conversion of an integer to a 64-bit `size_t`. -/
def sizeT (x : Int) : Nat := (x % 18446744073709551616).toNat

def INT_MAX : Int := 2147483647

def AWE_READ : BitVec 32 := 0x01

def AWE_WRITE : BitVec 32 := 0x02

theorem int32_of_range {x : Int} (hl : -2147483648 ≤ x) (hu : x ≤ INT_MAX) : int32 x = x := by
  unfold int32 INT_MAX at *
  omega

theorem int64_of_range {x : Int} (hl : -9223372036854775808 ≤ x)
    (hu : x ≤ 9223372036854775807) : int64 x = x := by
  unfold int64
  omega

/-- A count of references that fits an `int` is 1 as the code reads it if it is 1. -/
theorem refs_one {n : Nat} (h : n ≤ INT_MAX.toNat) : BitVec.ofNat 32 n = 1 ↔ n = 1 := by
  simp only [INT_MAX] at h
  rw [← BitVec.toNat_inj, BitVec.toNat_ofNat]
  constructor
  · intro he
    have he : n % 4294967296 = 1 := he
    omega
  · intro he
    rw [he]
    rfl

theorem toInt_ofNat {n : Nat} (h : n ≤ 2147483647) : (BitVec.ofNat 32 n).toInt = n := by
  rw [BitVec.toInt_eq_toNat_cond, BitVec.toNat_ofNat]
  split <;> omega

theorem toInt_range (x : BitVec 32) : -2147483648 ≤ x.toInt ∧ x.toInt ≤ INT_MAX := by
  have hlow := BitVec.le_toInt x
  have hhigh := BitVec.toInt_lt (x := x)
  unfold INT_MAX
  omega

/-- Where one of two `int`s is not negative, C computes a sum that is not negative only if
it is exact. -/
theorem int32_add_of_nonneg {x y : Int} (hx : 0 ≤ x ∧ x ≤ INT_MAX)
    (hy : -2147483648 ≤ y ∧ y ≤ INT_MAX) : 0 ≤ int32 (x + y) ↔ 0 ≤ x + y ∧ x + y ≤ INT_MAX := by
  unfold int32 INT_MAX at *
  omega

theorem AWE_READ_eq : AWE_READ = BitVec.twoPow 32 0 := rfl

theorem AWE_WRITE_eq : AWE_WRITE = BitVec.twoPow 32 1 := rfl

def Within (mask set : BitVec 32) : Prop := set &&& mask = mask

instance (mask set : BitVec 32) : Decidable (Within mask set) := inferInstanceAs (Decidable (_ = _))

theorem within_iff {mask set : BitVec 32} :
    Within mask set ↔ ∀ i, mask.getLsbD i = true → set.getLsbD i = true := by
  constructor
  · intro h i hi
    have hbit := congrArg (fun b => b.getLsbD i) h
    simpa [hi] using hbit
  · intro h
    apply BitVec.eq_of_getLsbD_eq
    intro i _
    have hi := h i
    rw [BitVec.getLsbD_and]
    cases hm : mask.getLsbD i <;> simp_all

theorem Within.enable {mask set : BitVec 32} (h : Within mask set) (events : BitVec 32) :
    Within mask (set ||| events) := by
  rw [within_iff] at h ⊢
  intro i hi
  simp [h i hi]

theorem Within.disable {mask set events : BitVec 32} (h : Within mask set)
    (hkeep : mask &&& events = 0) : Within mask (set &&& ~~~events) := by
  rw [within_iff] at h ⊢
  intro i hi
  have hlt : i < 32 := BitVec.lt_of_getLsbD hi
  have hbit : (mask &&& events).getLsbD i = false := by simp [hkeep]
  simp only [BitVec.getLsbD_and, hi, Bool.true_and] at hbit
  rw [BitVec.getLsbD_and, BitVec.getLsbD_not, h i hi, hbit]
  simp [hlt]

theorem Within.or {mask events set : BitVec 32} (h : Within mask set) (h' : Within events set) :
    Within (mask ||| events) set := by
  rw [within_iff] at h h' ⊢
  intro i hi
  rw [BitVec.getLsbD_or, Bool.or_eq_true] at hi
  rcases hi with hi | hi
  · exact h i hi
  · exact h' i hi

theorem Within.and {mask set : BitVec 32} (h : Within mask set) (events : BitVec 32) :
    Within (mask &&& events) set := by
  rw [within_iff] at h ⊢
  intro i hi
  rw [BitVec.getLsbD_and, Bool.and_eq_true] at hi
  exact h i hi.1

/-- A mask of one bit is within a set that shares anything with it. -/
theorem within_of_bit {set : BitVec 32} (i : Nat) (h : set &&& BitVec.twoPow 32 i ≠ 0) :
    Within (BitVec.twoPow 32 i) set := by
  unfold Within
  rw [BitVec.and_twoPow] at h ⊢
  split at h
  · rename_i hi
    rw [if_pos hi]
  · exact absurd rfl h

end Awe
