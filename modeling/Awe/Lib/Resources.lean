import Awe.Lib.Machine

/-- What happens to resources one after the other: the system hands one out, or it is
given back. -/
inductive Resources.Event (ρ : Type*) where
  | acquired (r : ρ)
  | released (r : ρ)
  deriving DecidableEq

namespace Resources
open Machine

variable {ρ : Type*} [DecidableEq ρ]

/-- What is held after the event; only what is held can be given back. A log in which
all goes well is one that can be run. -/
def step (held : List ρ) : Event ρ → Option (List ρ)
  | .acquired r => some (r :: held)
  | .released r => if r ∈ held then some (held.erase r) else none

@[simp] theorem step_acquired (held : List ρ) (r : ρ) :
    step held (.acquired r) = some (r :: held) := rfl

@[simp] theorem step_released_cons (held : List ρ) (r : ρ) :
    step (r :: held) (.released r) = some held := by
  simp [step]

/-- An event moves a resource between the log and what is held. -/
theorem count_step {held m : List ρ} {e : Event ρ} (h : step held e = some m) (r : ρ) :
    held.count r + [e].count (.acquired r) = m.count r + [e].count (.released r) := by
  cases e with
  | acquired x =>
    cases h
    by_cases hx : x = r <;> simp [hx]
  | released x =>
    obtain ⟨hin, hm⟩ := Option.ite_none_right_eq_some.mp h
    cases hm
    by_cases hx : x = r
    · subst hx
      have hpos := List.count_pos_iff.mpr hin
      rw [List.count_erase_self]
      simp
      omega
    · rw [List.count_erase_of_ne (Ne.symm hx)]
      simp [hx]

/-- Each resource has been acquired as often as it has been released, but for those held. -/
theorem count_of_run {held rest : List ρ} {log : List (Event ρ)}
    (h : run step held log = some rest) (r : ρ) :
    held.count r + log.count (.acquired r) = rest.count r + log.count (.released r) := by
  induction log generalizing held with
  | nil =>
    cases h
    rfl
  | cons e log ih =>
    obtain ⟨m, hm, hr⟩ := run_cons.mp h
    have hstep := count_step hm r
    have hrest := ih hr
    rw [← List.singleton_append, List.count_append, List.count_append]
    omega

/-- Where nothing is held in the end, everything was released exactly as often as it was
acquired. -/
theorem released_of_run {log : List (Event ρ)} (h : run step [] log = some []) (r : ρ) :
    log.count (.acquired r) = log.count (.released r) := by
  simpa using count_of_run h r

/-- What follows on a log is run from what it holds. -/
theorem run_append_of {held : List ρ} {log : List (Event ρ)} (h : run step [] log = some held)
    (next : List (Event ρ)) : run step [] (log ++ next) = run step held next := by
  ext rest
  rw [run_append]
  constructor
  · rintro ⟨m, hm, hr⟩
    cases h.symm.trans hm
    exact hr
  · exact fun hr => ⟨held, h, hr⟩

end Resources
