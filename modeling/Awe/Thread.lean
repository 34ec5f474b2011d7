import Mathlib.Algebra.BigOperators.Group.List.Basic
import Mathlib.Algebra.Ring.Nat
import Mathlib.Data.List.Basic

namespace Awe

/-- The next store a thread has to make in `dummy_worker` after its process
function has returned. -/
inductive Leaving where
  | clearTid
  | setExit
  | clearRunning
  deriving DecidableEq

/-- How far `awe_thread_start` has got with the thread it creates. -/
inductive Starting where
  | none
  | created
  | reset
  deriving DecidableEq

/-- The flags of `struct awe_thread`, with the threads still storing to them:
as soon as `_tid` is 0 a new thread can be started beside them. -/
structure Thread where
  tid : Bool
  exitPending : Bool
  running : Bool
  leaving : List Leaving
  deriving DecidableEq

namespace Thread

/-- `awe_thread_create`: no thread yet, and `_exit_pending` already set. -/
def create : Thread := ⟨false, true, false, []⟩

def requestExit (t : Thread) : Thread := { t with exitPending := true }

def leave (t : Thread) (n : Nat) : Option Thread :=
  match t.leaving[n]? with
  | some .clearTid => some { t with tid := false, leaving := t.leaving.set n .setExit }
  | some .setExit => some { t with exitPending := true, leaving := t.leaving.set n .clearRunning }
  | some .clearRunning => some { t with running := false, leaving := t.leaving.eraseIdx n }
  | none => none

/-- Only the latest thread can still have `_tid` to clear, and a live worker is
always the latest. -/
structure Owned (t : Thread) (live : Bool) : Prop where
  once : t.leaving.count .clearTid ≤ 1
  tid : (live = true ∨ .clearTid ∈ t.leaving) → t.tid = true
  latest : live = true → .clearTid ∉ t.leaving

theorem owned_create : create.Owned false := ⟨by decide, by decide, by decide⟩

theorem Owned.start {t : Thread} (h : t.Owned false) (ht : t.tid = false) :
    ({ t with tid := true } : Thread).Owned true := by
  have hnot : .clearTid ∉ t.leaving := by
    intro hm
    rw [h.tid (Or.inr hm)] at ht
    cases ht
  exact ⟨h.once, fun _ => rfl, fun _ => hnot⟩

/-- The worker's process function returns. -/
theorem Owned.return {t : Thread} (h : t.Owned true) :
    ({ t with leaving := t.leaving ++ [.clearTid] } : Thread).Owned false := by
  have hzero : t.leaving.count .clearTid = 0 := List.count_eq_zero.mpr (h.latest rfl)
  refine ⟨?_, fun _ => h.tid (Or.inl rfl), by simp⟩
  simp [hzero]

theorem Owned.leave {t u : Thread} {live : Bool} {n : Nat} (h : t.Owned live)
    (hu : t.leave n = some u) : u.Owned live := by
  unfold Thread.leave at hu
  have hget : ∀ v, t.leaving[n]? = some v → ∃ hn : n < t.leaving.length, t.leaving[n] = v :=
    fun v hv => List.getElem?_eq_some_iff.mp hv
  split at hu
  · rename_i hc
    obtain ⟨hn, hv⟩ := hget _ hc
    have hmem : .clearTid ∈ t.leaving := hv ▸ List.getElem_mem hn
    have hgone : .clearTid ∉ t.leaving.set n .setExit := by
      intro hm
      have hone := h.once
      have hset : (t.leaving.set n .setExit).count .clearTid + 1 = t.leaving.count .clearTid := by
        rw [List.count_set hn, hv]
        have := List.count_pos_iff.mpr hmem
        simp
        omega
      have := List.count_pos_iff.mpr hm
      omega
    have hlive : live ≠ true := fun hl => h.latest hl hmem
    cases hu
    refine ⟨?_, ?_, fun _ => hgone⟩
    · rw [List.count_eq_zero.mpr hgone]
      omega
    · rintro (hl | hm)
      · exact absurd hl hlive
      · exact absurd hm hgone
  · rename_i hc
    obtain ⟨hn, hv⟩ := hget _ hc
    have hsub : ∀ x, x ∈ t.leaving.set n .clearRunning → x = .clearRunning ∨ x ∈ t.leaving :=
      fun x hx => (List.mem_or_eq_of_mem_set hx).symm
    cases hu
    refine ⟨?_, ?_, ?_⟩
    · rw [List.count_set hn, hv]
      simpa using h.once
    · rintro (hl | hm)
      · exact h.tid (Or.inl hl)
      · rcases hsub _ hm with he | hm
        · cases he
        · exact h.tid (Or.inr hm)
    · intro hl hm
      rcases hsub _ hm with he | hm
      · cases he
      · exact h.latest hl hm
  · cases hu
    refine ⟨?_, ?_, ?_⟩
    · exact Nat.le_trans ((List.eraseIdx_sublist _ _).count_le _) h.once
    · rintro (hl | hm)
      · exact h.tid (Or.inl hl)
      · exact h.tid (Or.inr ((List.eraseIdx_sublist _ _).subset hm))
    · intro hl hm
      exact h.latest hl ((List.eraseIdx_sublist _ _).subset hm)
  · cases hu

def untilLast : Leaving → Nat
  | .clearTid => 3
  | .setExit => 2
  | .clearRunning => 1

def storesLeft (leaving : List Leaving) : Nat := (leaving.map untilLast).sum

theorem storesLeft_split {l : List Leaving} {n : Nat} {x : Leaving} (hx : l[n]? = some x) :
    storesLeft l = untilLast x + storesLeft (l.eraseIdx n) := by
  obtain ⟨hn, rfl⟩ := List.getElem?_eq_some_iff.mp hx
  have hperm := (List.getElem_cons_eraseIdx_perm hn).map untilLast
  exact hperm.sum_eq.symm

theorem storesLeft_set {l : List Leaving} {n : Nat} {x : Leaving} (hx : l[n]? = some x)
    (y : Leaving) : storesLeft (l.set n y) = untilLast y + storesLeft (l.eraseIdx n) := by
  obtain ⟨hn, _⟩ := List.getElem?_eq_some_iff.mp hx
  have hy : (l.set n y)[n]? = some y := by simp [hn]
  rw [storesLeft_split hy, List.eraseIdx_set_eq]

theorem storesLeft_le (l : List Leaving) : storesLeft l ≤ 3 * l.length := by
  induction l with
  | nil => exact Nat.le_refl _
  | cons store rest ih =>
    rw [storesLeft] at ih
    rw [storesLeft, List.map_cons, List.sum_cons, List.length_cons]
    have hstore : untilLast store ≤ 3 := by cases store <;> simp [untilLast]
    omega

/-- Each store of a leaving thread brings it nearer to its end, and the last one is that of
`_running`. -/
theorem leave_nearer {t u : Thread} {n : Nat} (hu : t.leave n = some u) :
    storesLeft u.leaving + 1 = storesLeft t.leaving ∧ (u.running → u.leaving ≠ []) := by
  have hkept : ∀ {x : Leaving} (y : Leaving), t.leaving[n]? = some x → t.leaving.set n y ≠ [] := by
    intro x y hx hnil
    rw [(List.set_eq_nil_iff n y).mp hnil] at hx
    cases hx
  unfold Thread.leave at hu
  split at hu
  · rename_i hget
    cases hu
    refine ⟨?_, fun _ => hkept .setExit hget⟩
    rw [storesLeft_set hget, storesLeft_split hget, untilLast, untilLast]
    omega
  · rename_i hget
    cases hu
    refine ⟨?_, fun _ => hkept .clearRunning hget⟩
    rw [storesLeft_set hget, storesLeft_split hget, untilLast, untilLast]
    omega
  · rename_i hget
    cases hu
    refine ⟨?_, fun hrunning => by cases hrunning⟩
    rw [storesLeft_split hget, untilLast]
    exact Nat.add_comm _ _
  · cases hu

end Thread

end Awe
