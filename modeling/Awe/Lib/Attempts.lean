import Mathlib.Data.List.Basic

/-- What happens to the attempts that a key makes, one after the other: one is opened,
it is completed with an answer, or it is withdrawn. -/
inductive Attempts.Event (κ ο α : Type*) where
  | opened (key : κ) (attempt : ο)
  | completed (key : κ) (answer : α)
  | withdrawn (key : κ)
  deriving DecidableEq

namespace Attempts

variable {κ ο α : Type*} [DecidableEq κ]

def Event.key : Event κ ο α → κ
  | .opened k _ | .completed k _ | .withdrawn k => k

def latest (log : List (Event κ ο α)) (k : κ) : Option (Event κ ο α) :=
  log.reverse.find? (fun e => e.key = k)

/-- The attempt `o` of `k` has been neither completed nor withdrawn. -/
def Open (log : List (Event κ ο α)) (k : κ) (o : ο) : Prop := latest log k = some (.opened k o)

/-- Every completion is one of an attempt that was open until then: none comes twice,
and none after the attempt is withdrawn. -/
def OnceEach (log : List (Event κ ο α)) : Prop :=
  ∀ before after k a, log = before ++ .completed k a :: after → ∃ o, Open before k o

def Completed (log : List (Event κ ο α)) (k : κ) (o : ο) : Prop :=
  ∃ before after a, log = before ++ .completed k a :: after ∧ Open before k o

variable {log : List (Event κ ο α)} {e : Event κ ο α} {k : κ} {o : ο}

@[simp] theorem latest_nil : latest ([] : List (Event κ ο α)) k = none := rfl

@[simp] theorem latest_append :
    latest (log ++ [e]) k = if e.key = k then some e else latest log k := by
  simp only [latest, List.reverse_append, List.reverse_singleton, List.singleton_append,
    List.find?_cons]
  split <;> simp_all

theorem open_opened : Open (log ++ [.opened k o]) k o := by
  simp [Open, Event.key]

/-- What happens to another key is no concern of an attempt. -/
theorem open_append_other (h : e.key ≠ k) : Open (log ++ [e]) k o ↔ Open log k o := by
  simp [Open, h]

/-- A list with one more element, split at an element of it. -/
theorem append_singleton_eq {β : Type*} {l before after : List β} {e x : β}
    (h : l ++ [e] = before ++ x :: after) :
    (∃ rest, after = rest ++ [e] ∧ l = before ++ x :: rest) ∨
      (after = [] ∧ e = x ∧ l = before) := by
  rcases List.eq_nil_or_concat after with rfl | ⟨rest, y, rfl⟩
  · obtain ⟨rfl, he⟩ := List.append_inj' h rfl
    cases he
    exact Or.inr ⟨rfl, rfl, rfl⟩
  · rw [List.concat_eq_append, ← List.cons_append, ← List.append_assoc] at h
    obtain ⟨rfl, he⟩ := List.append_inj' h rfl
    cases he
    exact Or.inl ⟨rest, List.concat_eq_append, rfl⟩

theorem onceEach_nil : OnceEach ([] : List (Event κ ο α)) := by
  intro before after k a h
  simp at h

theorem OnceEach.append (h : OnceEach log)
    (he : ∀ k a, e = .completed k a → ∃ o, Open log k o) : OnceEach (log ++ [e]) := by
  intro before after k a hsplit
  rcases append_singleton_eq hsplit with ⟨rest, _, hlog⟩ | ⟨_, rfl, rfl⟩
  · exact h before rest k a hlog
  · exact he k a rfl

theorem completed_nil : ¬ Completed ([] : List (Event κ ο α)) k o := by
  intro hdone
  obtain ⟨before, after, a, h, _⟩ := hdone
  simp at h

theorem completed_append : Completed (log ++ [e]) k o ↔
    Completed log k o ∨ ∃ a, e = .completed k a ∧ Open log k o := by
  constructor
  · intro hdone
    obtain ⟨before, after, a, hsplit, hopen⟩ := hdone
    rcases append_singleton_eq hsplit with ⟨rest, _, hlog⟩ | ⟨_, rfl, rfl⟩
    · exact Or.inl ⟨before, rest, a, hlog, hopen⟩
    · exact Or.inr ⟨a, rfl, hopen⟩
  · intro hdone
    rcases hdone with ⟨before, after, a, rfl, hopen⟩ | ⟨a, rfl, hopen⟩
    · exact ⟨before, after ++ [e], a, by simp, hopen⟩
    · exact ⟨log, [], a, rfl, hopen⟩

end Attempts
