import Mathlib.Logic.Basic

namespace Faults

variable {ε α β : Type}

def orFail (e : ε) : Option α → Except ε α
  | some a => .ok a
  | none => .error e

@[simp] theorem orFail_some (e : ε) (a : α) : orFail e (some a) = .ok a := rfl

@[simp] theorem ok_bind (a : α) (f : α → Except ε β) : (Except.ok a >>= f) = f a := rfl

/-- `x` does not fail with `bad`, and `p` holds of what it returns. -/
def Avoids (bad : ε) (x : Except ε α) (p : α → Prop) : Prop :=
  match x with
  | .ok a => p a
  | .error e => e ≠ bad

variable {bad e : ε} {x : Except ε α} {p q : α → Prop}

theorem Avoids.ne (h : Avoids bad x p) : x ≠ .error bad := by
  rintro rfl
  exact h rfl

theorem Avoids.post (h : Avoids bad x p) {a : α} (ha : x = .ok a) : p a := by
  subst ha
  exact h

theorem Avoids.mono (h : Avoids bad x p) (hpq : ∀ a, p a → q a) : Avoids bad x q := by
  cases x with
  | ok a => exact hpq a h
  | error e => exact h

theorem Avoids.bind {f : α → Except ε β} {r : β → Prop} (h : Avoids bad x p)
    (hf : ∀ a, p a → Avoids bad (f a) r) : Avoids bad (x >>= f) r := by
  cases x with
  | ok a => exact hf a h
  | error e => exact h

theorem Avoids.map {f : α → β} {r : β → Prop} (h : Avoids bad x p) (hf : ∀ a, p a → r (f a)) :
    Avoids bad (x.map f) r := by
  cases x with
  | ok a => exact hf a h
  | error e => exact h

theorem avoids_orFail (hne : e ≠ bad) (o : Option α) :
    Avoids bad (orFail e o) (fun a => o = some a) := by
  cases o with
  | none => exact hne
  | some a => rfl

@[simp] theorem toOption_orFail (e : ε) (o : Option α) : (orFail e o).toOption = o := by
  cases o <;> rfl

@[simp] theorem toOption_bind (x : Except ε α) (f : α → Except ε β) :
    (x >>= f).toOption = x.toOption.bind (fun a => (f a).toOption) := by
  cases x <;> rfl

@[simp] theorem toOption_map (x : Except ε α) (f : α → β) :
    (x.map f).toOption = x.toOption.map f := by
  cases x <;> rfl

@[simp] theorem toOption_ok (a : α) : (Except.ok a : Except ε α).toOption = some a := rfl

end Faults
