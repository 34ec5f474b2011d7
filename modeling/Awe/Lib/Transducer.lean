import Mathlib.Logic.Basic

namespace Transducer

variable {σ τ α ο : Type*}

/-- The answers to a sequence of actions and the state it leads to, if each is
accepted in its turn. -/
def exec (step : σ → α → Option (ο × σ)) : σ → List α → Option (List ο × σ)
  | s, [] => some ([], s)
  | s, a :: as =>
    (step s a).bind (fun r => (exec step r.2 as).map (fun rest => (r.1 :: rest.1, rest.2)))

variable {step : σ → α → Option (ο × σ)} {spec : τ → α → Option (ο × τ)}

theorem exec_cons {s t : σ} {a : α} {as : List α} {os : List ο} :
    exec step s (a :: as) = some (os, t) ↔
      ∃ o m rest, step s a = some (o, m) ∧ exec step m as = some (rest, t) ∧ os = o :: rest := by
  simp only [exec, Option.bind_eq_some_iff, Option.map_eq_some_iff, Prod.exists, Prod.mk.injEq]
  constructor
  · intro hrun
    obtain ⟨o, m, hm, rest, u, hrest, rfl, rfl⟩ := hrun
    exact ⟨o, m, rest, hm, hrest, rfl⟩
  · intro hrun
    obtain ⟨o, m, rest, hm, hrest, rfl⟩ := hrun
    exact ⟨o, m, hm, rest, t, hrest, rfl, rfl⟩

theorem exec_append {s : σ} {as bs : List α} :
    exec step s (as ++ bs) =
      (exec step s as).bind (fun r => (exec step r.2 bs).map (fun e => (r.1 ++ e.1, e.2))) := by
  induction as generalizing s with
  | nil => simp [exec]
  | cons a as ih =>
    cases hs : step s a with
    | none => simp [exec, hs]
    | some r =>
      rw [List.cons_append, exec, exec, hs, Option.bind_some, Option.bind_some, ih]
      cases exec step r.2 as <;> simp [Function.comp_def]

/-- Whatever `spec` accepts, `step` accepts with the same answer from every state
that `rel` relates. -/
def Implements (step : σ → α → Option (ο × σ)) (spec : τ → α → Option (ο × τ))
    (rel : σ → τ → Prop) : Prop :=
  ∀ s x a o y, rel s x → spec x a = some (o, y) → ∃ t, step s a = some (o, t) ∧ rel t y

theorem Implements.exec {rel : σ → τ → Prop} (h : Implements step spec rel) {s : σ} {x y : τ}
    {as : List α} {os : List ο} (hs : rel s x) (hx : exec spec x as = some (os, y)) :
    ∃ t, Transducer.exec step s as = some (os, t) ∧ rel t y := by
  induction as generalizing s x os with
  | nil =>
    cases hx
    exact ⟨s, rfl, hs⟩
  | cons a as ih =>
    obtain ⟨o, z, rest, hz, hrest, rfl⟩ := exec_cons.mp hx
    obtain ⟨m, hm, hrel⟩ := h s x a o z hs hz
    obtain ⟨t, ht, hend⟩ := ih hrel hrest
    exact ⟨t, exec_cons.mpr ⟨o, m, rest, hm, ht, rfl⟩, hend⟩

end Transducer
