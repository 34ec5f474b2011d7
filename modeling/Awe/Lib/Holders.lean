import Mathlib.Data.List.Basic
import Mathlib.Logic.Function.Basic

namespace Holders

variable {ι β : Type*} [DecidableEq β] {l : List ι} {f g : ι → Option β} {a : ι} {o : β}

/-- How many of the holders in `l` hold `o`, where `f` says what each of them holds. -/
def count (l : List ι) (f : ι → Option β) (o : β) : Nat := l.countP (fun i => f i = some o)

theorem count_congr (h : ∀ i ∈ l, f i = some o ↔ g i = some o) : count l f o = count l g o :=
  List.countP_congr (fun i hi => by simpa using h i hi)

theorem count_pos : 0 < count l f o ↔ ∃ i ∈ l, f i = some o := by
  simp [count, List.countP_pos_iff]

variable [DecidableEq ι]

/-- One holder changes what it holds: it counts for what it holds now, and no more for
what it held. -/
theorem count_update (hl : l.Nodup) (ha : a ∈ l) (v : Option β) (o : β) :
    count l (Function.update f a v) o + (if f a = some o then 1 else 0) =
      count l f o + if v = some o then 1 else 0 := by
  obtain ⟨front, rear, rfl⟩ := List.append_of_mem ha
  obtain ⟨_, hrear, hapart⟩ := List.nodup_append.mp hl
  have hother : ∀ i ∈ front ++ rear, Function.update f a v i = f i := by
    intro i hi
    rw [Function.update_of_ne]
    intro heq
    subst heq
    rcases List.mem_append.mp hi with hi | hi
    · exact hapart i hi i (by simp) rfl
    · exact (List.nodup_cons.mp hrear).1 hi
  have hfront : count front (Function.update f a v) o = count front f o :=
    count_congr (fun i hi => by rw [hother i (by simp [hi])])
  have hrest : count rear (Function.update f a v) o = count rear f o :=
    count_congr (fun i hi => by rw [hother i (by simp [hi])])
  unfold count at hfront hrest ⊢
  simp only [List.countP_append, List.countP_cons, hfront, hrest, Function.update_self,
    decide_eq_true_eq]
  omega

theorem count_insert (ha : a ∉ l → f a = none) (o : β) :
    count (l.insert a) f o = count l f o := by
  by_cases hmem : a ∈ l
  · rw [List.insert_of_mem hmem]
  · rw [List.insert_of_not_mem hmem]
    simp [count, ha hmem]

end Holders
