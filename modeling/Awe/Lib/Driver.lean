import Awe.Lib.Machine
import Awe.Lib.Transducer

namespace Machine

variable {σ α β δ κ ο : Type*}

/-- What `out` says of each step of a run, in the order of the steps. -/
def trace (step : σ → α → Option σ) (out : σ → α → List β) : σ → List α → List β
  | _, [] => []
  | s, a :: as => out s a ++ (step s a).elim [] (fun m => trace step out m as)

variable {step : σ → α → Option σ}

theorem trace_cons {out : σ → α → List β} {s m : σ} {a : α} {as : List α} (hm : step s a = some m) :
    trace step out s (a :: as) = out s a ++ trace step out m as := by
  rw [trace, hm]
  rfl

/-- Steps that work on a device: each makes its calls, finds them answered as it says and
leaves the device related to the state it leads to, or it breaks the machine for good. It
breaks it where a call has no answer. -/
structure Drives (step : σ → α → Option σ) (p : σ → α → Prop) (broken : σ → Prop)
    (device : δ → κ → Option (ο × δ)) (calls : σ → α → List κ) (answers : σ → α → List ο)
    (rel : δ → σ → Prop) : Prop where
  whole : ∀ d s, rel d s → ¬ broken s
  answered : ∀ d s a t, rel d s → p s a → step s a = some t → ¬ broken t →
    ∃ e, Transducer.exec device d (calls s a) = some (answers s a, e) ∧ rel e t
  fault : ∀ d s a t, rel d s → p s a → step s a = some t → broken t →
    Transducer.exec device d (calls s a) = none
  stuck : ∀ s a t, broken s → step s a = some t → broken t

variable {p : σ → α → Prop} {broken : σ → Prop} {device : δ → κ → Option (ο × δ)}
  {calls : σ → α → List κ} {answers : σ → α → List ο} {rel : δ → σ → Prop}

/-- A run that has broken nothing has had all its calls answered. -/
theorem Drives.run (h : Drives step p broken device calls answers rel) {d : δ} {s t : σ}
    {as : List α} (hd : rel d s) (hp : Throughout step p s as) (hr : run step s as = some t)
    (ht : ¬ broken t) :
    ∃ e, Transducer.exec device d (trace step calls s as) = some (trace step answers s as, e) ∧
      rel e t := by
  induction as generalizing d s with
  | nil =>
    cases hr
    exact ⟨d, rfl, hd⟩
  | cons a as ih =>
    obtain ⟨m, hm, hrest⟩ := run_cons.mp hr
    obtain ⟨ha, hpm⟩ := hp m hm
    have hwhole : ¬ broken m := by
      intro hbroken
      exact ht (invariant (fun s a t hs => h.stuck s a t hs) hbroken hrest)
    obtain ⟨e, he, hrel⟩ := h.answered d s a m hd ha hm hwhole
    obtain ⟨f, hf, hend⟩ := ih hrel hpm hrest
    refine ⟨f, ?_, hend⟩
    rw [trace_cons hm, trace_cons hm, Transducer.exec_append, he, Option.bind_some, hf]
    rfl

/-- In a run that has broken the machine some call had no answer. -/
theorem Drives.run_fault (h : Drives step p broken device calls answers rel) {d : δ} {s t : σ}
    {as : List α} (hd : rel d s) (hp : Throughout step p s as) (hr : Machine.run step s as = some t)
    (ht : broken t) : Transducer.exec device d (trace step calls s as) = none := by
  induction as generalizing d s with
  | nil =>
    cases hr
    exact absurd ht (h.whole d _ hd)
  | cons a as ih =>
    obtain ⟨m, hm, hrest⟩ := run_cons.mp hr
    obtain ⟨ha, hpm⟩ := hp m hm
    rw [trace_cons hm, Transducer.exec_append]
    by_cases hbroken : broken m
    · rw [h.fault d s a m hd ha hm hbroken, Option.bind_none]
    · obtain ⟨e, he, hrel⟩ := h.answered d s a m hd ha hm hbroken
      rw [he, Option.bind_some, ih hrel hpm hrest, Option.map_none]

end Machine
