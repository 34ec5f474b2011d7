import Mathlib.Data.List.Nodup

/-- A condition variable: the threads blocked on it that no wake-up has reached. -/
structure CondVar (ω : Type*) where
  waiters : List ω
  nodup : waiters.Nodup

namespace CondVar

variable {ω : Type*}

def new : CondVar ω := ⟨[], List.nodup_nil⟩

def broadcast (_ : CondVar ω) : CondVar ω := new

variable [DecidableEq ω]

/-- `w` goes to sleep. A thread already asleep stays where it is. -/
def wait (c : CondVar ω) (w : ω) : CondVar ω := ⟨c.waiters.insert w, c.nodup.insert⟩

/-- Wakes exactly one waiter, chosen by the scheduler, or nobody if nobody waits. -/
def signal (c : CondVar ω) : Option ω → Option (CondVar ω)
  | none => if c.waiters = [] then some c else none
  | some w => if w ∈ c.waiters then some ⟨c.waiters.erase w, c.nodup.erase w⟩ else none

def timeout (c : CondVar ω) (w : ω) : CondVar ω := ⟨c.waiters.erase w, c.nodup.erase w⟩

@[simp] theorem mem_wait {c : CondVar ω} {v w : ω} :
    v ∈ (c.wait w).waiters ↔ v = w ∨ v ∈ c.waiters := by
  simp [wait]

@[simp] theorem mem_timeout {c : CondVar ω} {v w : ω} :
    v ∈ (c.timeout w).waiters ↔ v ≠ w ∧ v ∈ c.waiters :=
  c.nodup.mem_erase_iff

/-- Who still sleeps after a signal: everyone but the waiter it picked. -/
theorem mem_signal {c d : CondVar ω} {pick : Option ω} (h : c.signal pick = some d) {v : ω} :
    v ∈ d.waiters ↔ v ∈ c.waiters ∧ pick ≠ some v := by
  cases pick with
  | none =>
    simp only [signal] at h
    split at h
    · cases h
      simp
    · cases h
  | some w =>
    simp only [signal] at h
    split at h
    · cases h
      simp only [c.nodup.mem_erase_iff, ne_eq, Option.some.injEq]
      tauto
    · cases h

theorem signal_picks {c d : CondVar ω} {pick : Option ω} (h : c.signal pick = some d) {v : ω}
    (hv : v ∈ c.waiters) : ∃ w ∈ c.waiters, pick = some w := by
  cases pick with
  | none =>
    simp only [signal] at h
    split at h
    · rename_i he
      rw [he] at hv
      cases hv
    · cases h
  | some w =>
    simp only [signal] at h
    split at h
    · exact ⟨w, by assumption, rfl⟩
    · cases h

end CondVar
