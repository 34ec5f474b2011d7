import Mathlib.Logic.Basic

namespace Machine

variable {σ α τ β : Type*} (step : σ → α → Option σ)

/-- The state a sequence of actions leads to, if each is enabled in its turn. -/
def run : σ → List α → Option σ
  | s, [] => some s
  | s, a :: as => (step s a).bind (fun m => run m as)

/-- Every step the sequence takes meets `p` in the state it is taken from. -/
def Throughout (p : σ → α → Prop) : σ → List α → Prop
  | _, [] => True
  | s, a :: as => ∀ m, step s a = some m → p s a ∧ Throughout p m as

/-- `q` holds at the start and after every step the sequence takes. -/
def Always (q : σ → Prop) : σ → List α → Prop
  | s, [] => q s
  | s, a :: as => q s ∧ ∀ m, step s a = some m → Always q m as

/-- `p` allows each action of the sequence in the state it comes to be tried in. -/
def Lawful (p : σ → α → Prop) : σ → List α → Prop
  | _, [] => True
  | s, a :: as => p s a ∧ ∀ m, step s a = some m → Lawful p m as

variable {step}

@[simp] theorem run_nil (s : σ) : run step s [] = some s := rfl

theorem run_cons {s t : σ} {a : α} {as : List α} :
    run step s (a :: as) = some t ↔ ∃ m, step s a = some m ∧ run step m as = some t :=
  Option.bind_eq_some_iff

theorem run_append {s t : σ} {as bs : List α} :
    run step s (as ++ bs) = some t ↔
      ∃ m, run step s as = some m ∧ run step m bs = some t := by
  induction as generalizing s with
  | nil => simp
  | cons a as ih =>
    rw [List.cons_append, run_cons]
    constructor
    · rintro ⟨m, hm, hr⟩
      obtain ⟨n, hn, ht⟩ := ih.mp hr
      exact ⟨n, run_cons.mpr ⟨m, hm, hn⟩, ht⟩
    · rintro ⟨n, hn, ht⟩
      obtain ⟨m, hm, hr⟩ := run_cons.mp hn
      exact ⟨m, hm, ih.mpr ⟨n, hr, ht⟩⟩

/-- The induction behind every invariant: what each step meeting `p` preserves,
a run of such steps preserves. -/
theorem invariant_of_steps {inv : σ → Prop} {p : σ → α → Prop}
    (keep : ∀ s a m, inv s → p s a → step s a = some m → inv m)
    {s t : σ} {as : List α} (hs : inv s) (hp : Throughout step p s as)
    (hr : run step s as = some t) : inv t := by
  induction as generalizing s with
  | nil => exact Option.some.inj hr ▸ hs
  | cons a as ih =>
    obtain ⟨m, hm, hr⟩ := run_cons.mp hr
    obtain ⟨ha, hrest⟩ := hp m hm
    exact ih (keep s a m hs ha hm) hrest hr

theorem throughout_of_mem {p : σ → α → Prop} {as : List α} (h : ∀ s, ∀ a ∈ as, p s a) (s : σ) :
    Throughout step p s as := by
  induction as generalizing s with
  | nil => trivial
  | cons a as ih =>
    exact fun m _ => ⟨h s a (by simp), ih (fun s b hb => h s b (by simp [hb])) m⟩

theorem Throughout.cons {p : σ → α → Prop} {s t : σ} {a : α} {as : List α}
    (hs : step s a = some t) (ha : p s a) (h : Throughout step p t as) :
    Throughout step p s (a :: as) := by
  intro m hm
  rw [hs] at hm
  cases hm
  exact ⟨ha, h⟩

theorem Throughout.at_step {p : σ → α → Prop} {s t m : σ} {as bs : List α} {a : α}
    (h : Throughout step p s (as ++ a :: bs)) (hr : run step s as = some t)
    (ha : step t a = some m) : p t a := by
  induction as generalizing s with
  | nil =>
    cases hr
    exact (h m ha).1
  | cons b as ih =>
    obtain ⟨u, hu, hr⟩ := run_cons.mp hr
    exact ih (h u hu).2 hr

theorem throughout_append {p : σ → α → Prop} {s : σ} {as bs : List α} :
    Throughout step p s (as ++ bs) ↔
      Throughout step p s as ∧ ∀ t, run step s as = some t → Throughout step p t bs := by
  induction as generalizing s with
  | nil => simp [Throughout]
  | cons a as ih =>
    constructor
    · intro h
      refine ⟨fun m hm => ⟨(h m hm).1, (ih.mp (h m hm).2).1⟩, fun t ht => ?_⟩
      obtain ⟨m, hm, hr⟩ := run_cons.mp ht
      exact (ih.mp (h m hm).2).2 t hr
    · rintro ⟨has, hbs⟩ m hm
      exact ⟨(has m hm).1, ih.mpr ⟨(has m hm).2, fun t ht => hbs t (run_cons.mpr ⟨m, hm, ht⟩)⟩⟩

theorem Throughout.mono {p q : σ → α → Prop} (h : ∀ s a m, p s a → step s a = some m → q s a)
    {s : σ} {as : List α} (hp : Throughout step p s as) : Throughout step q s as := by
  induction as generalizing s with
  | nil => trivial
  | cons a as ih =>
    intro m hm
    obtain ⟨ha, hrest⟩ := hp m hm
    exact ⟨h s a m ha hm, ih hrest⟩

theorem Throughout.and {p q : σ → α → Prop} {s : σ} {as : List α}
    (hp : Throughout step p s as) (hq : Throughout step q s as) :
    Throughout step (fun s a => p s a ∧ q s a) s as := by
  induction as generalizing s with
  | nil => trivial
  | cons a as ih =>
    intro m hm
    exact ⟨⟨(hp m hm).1, (hq m hm).1⟩, ih (hp m hm).2 (hq m hm).2⟩

/-- An invariant of every step holds wherever a run leads. -/
theorem invariant {inv : σ → Prop} (keep : ∀ s a m, inv s → step s a = some m → inv m)
    {s t : σ} {as : List α} (hs : inv s) (hr : run step s as = some t) : inv t :=
  invariant_of_steps (p := fun _ _ => True) (fun s a m h _ => keep s a m h) hs
    (throughout_of_mem (fun _ _ _ => trivial) s) hr

instance decidableLawful {p : σ → α → Prop} [∀ s a, Decidable (p s a)] :
    ∀ (s : σ) (as : List α), Decidable (Lawful step p s as)
  | _, [] => isTrue trivial
  | s, a :: as =>
    have : Decidable (∀ m, step s a = some m → Lawful step p m as) :=
      match step s a with
      | none => isTrue nofun
      | some m => @decidable_of_iff _ (Lawful step p m as) (by simp) (decidableLawful m as)
    inferInstanceAs (Decidable (_ ∧ _))

instance decidableThroughout {p : σ → α → Prop} [∀ s a, Decidable (p s a)] :
    ∀ (s : σ) (as : List α), Decidable (Throughout step p s as)
  | _, [] => isTrue trivial
  | s, a :: as =>
    have : Decidable (∀ m, step s a = some m → p s a ∧ Throughout step p m as) :=
      match step s a with
      | none => isTrue nofun
      | some m => @decidable_of_iff _ (p s a ∧ Throughout step p m as) (by simp)
          (@instDecidableAnd _ _ _ (decidableThroughout m as))
    this

theorem Lawful.cons {p : σ → α → Prop} {s t : σ} {a : α} {as : List α} (ha : p s a)
    (hs : step s a = some t) (h : Lawful step p t as) : Lawful step p s (a :: as) := by
  refine ⟨ha, fun m hm => ?_⟩
  rw [hs] at hm
  cases hm
  exact h

/-- Where every action that `p` allows is enabled and keeps the invariant, a lawful
sequence runs to its end. The invariant may speak of what is still to come. -/
theorem Lawful.run {inv : List α → σ → Prop} {p : σ → α → Prop}
    (keep : ∀ s a as, inv (a :: as) s → p s a → ∃ m, step s a = some m ∧ inv as m)
    {s : σ} {as : List α} (hs : inv as s) (h : Lawful step p s as) :
    ∃ t, Machine.run step s as = some t ∧ inv [] t := by
  induction as generalizing s with
  | nil => exact ⟨s, rfl, hs⟩
  | cons a as ih =>
    obtain ⟨ha, hrest⟩ := h
    obtain ⟨m, hm, hinv⟩ := keep s a as hs ha
    obtain ⟨t, ht, hend⟩ := ih hinv (hrest m hm)
    exact ⟨t, run_cons.mpr ⟨m, hm, ht⟩, hend⟩

/-- Two conditions that agree wherever an invariant holds, which the second one keeps. -/
theorem lawful_congr {inv : σ → Prop} {p q r : σ → α → Prop}
    (keep : ∀ s a m, inv s → r s a → q s a → step s a = some m → inv m)
    (exact : ∀ s a, inv s → r s a → (p s a ↔ q s a)) {s : σ} (hs : inv s) {as : List α}
    (hr : Lawful step r s as) : Lawful step p s as ↔ Lawful step q s as := by
  induction as generalizing s with
  | nil => exact Iff.rfl
  | cons a as ih =>
    obtain ⟨ha, hrest⟩ := hr
    have hpq := exact s a hs ha
    constructor
    · intro h
      have hq := hpq.mp h.1
      exact ⟨hq, fun m hm => (ih (keep s a m hs ha hq hm) (hrest m hm)).mp (h.2 m hm)⟩
    · intro h
      exact ⟨hpq.mpr h.1, fun m hm => (ih (keep s a m hs ha h.1 hm) (hrest m hm)).mpr (h.2 m hm)⟩

theorem Always.head {q : σ → Prop} {s : σ} {as : List α} (h : Always step q s as) : q s := by
  cases as with
  | nil => exact h
  | cons a as => exact h.1

/-- What no step changes, either way, holds throughout if it holds at the start. -/
theorem always_iff_head {q : σ → Prop} (same : ∀ s a m, step s a = some m → (q m ↔ q s)) (s : σ)
    (as : List α) : Always step q s as ↔ q s := by
  induction as generalizing s with
  | nil => exact Iff.rfl
  | cons a as ih =>
    refine ⟨And.left, fun hs => ⟨hs, fun m hm => ?_⟩⟩
    exact (ih m).mpr ((same s a m hm).mpr hs)

/-- What follows from `q` wherever an invariant holds, holds throughout. -/
theorem Always.imp_of_invariant {inv q r : σ → Prop} {s : σ} {as : List α}
    (h : Always step q s as) (keep : ∀ s a m, inv s → step s a = some m → inv m)
    (imp : ∀ s, inv s → q s → r s) (hs : inv s) : Always step r s as := by
  induction as generalizing s with
  | nil => exact imp s hs h
  | cons a as ih =>
    exact ⟨imp s hs h.1, fun m hm => ih (h.2 m hm) (keep s a m hs hm)⟩

/-- Two conditions on steps that agree wherever an invariant holds agree on runs. -/
theorem throughout_congr {inv : σ → Prop} {p q : σ → α → Prop}
    (keep : ∀ s a m, inv s → step s a = some m → inv m)
    (exact : ∀ s a m, inv s → step s a = some m → (p s a ↔ q s a)) {s : σ} (hs : inv s)
    (as : List α) : Throughout step p s as ↔ Throughout step q s as := by
  induction as generalizing s with
  | nil => exact Iff.rfl
  | cons a as ih =>
    constructor
    · intro h m hm
      exact ⟨(exact s a m hs hm).mp (h m hm).1, (ih (keep s a m hs hm)).mp (h m hm).2⟩
    · intro h m hm
      exact ⟨(exact s a m hs hm).mpr (h m hm).1, (ih (keep s a m hs hm)).mpr (h m hm).2⟩

/-- Steps that meet `p` do not leave `q`, so neither does a run of them. -/
theorem always_of_throughout {inv q : σ → Prop} {p : σ → α → Prop}
    (keep : ∀ s a m, inv s → q s → p s a → step s a = some m → inv m ∧ q m)
    {s : σ} (hs : inv s) (hq : q s) {as : List α} (h : Throughout step p s as) :
    Always step q s as := by
  induction as generalizing s with
  | nil => exact hq
  | cons a as ih =>
    refine ⟨hq, fun m hm => ?_⟩
    obtain ⟨hp, hrest⟩ := h m hm
    obtain ⟨hinv, hqm⟩ := keep s a m hs hq hp hm
    exact ih hinv hqm hrest

/-- A run stays within `q` exactly when each of its steps meets `p`, where one
step out of a `q` state stays in `q` exactly when it meets `p`. -/
theorem always_iff_throughout {inv q : σ → Prop} {p : σ → α → Prop}
    (keep : ∀ s a m, inv s → q s → p s a → step s a = some m → inv m)
    (exact : ∀ s a m, inv s → q s → step s a = some m → (q m ↔ p s a))
    {s : σ} (hs : inv s) (hq : q s) (as : List α) :
    Always step q s as ↔ Throughout step p s as := by
  have hkeep : ∀ s a m, inv s → q s → p s a → step s a = some m → inv m ∧ q m :=
    fun s a m hs hq hp hm => ⟨keep s a m hs hq hp hm, (exact s a m hs hq hm).mpr hp⟩
  refine ⟨fun h => ?_, always_of_throughout hkeep hs hq⟩
  induction as generalizing s with
  | nil => trivial
  | cons a as ih =>
    intro m hm
    have hqm : q m := (h.2 m hm).head
    have hp := (exact s a m hs hq hm).mp hqm
    exact ⟨hp, ih (keep s a m hs hq hp hm) hqm (h.2 m hm)⟩

/-- The steps of a run meet `p` exactly when no prefix of it can be continued, by
actions that `r` allows, out of `q`: where `p` keeps `q`, and a step that does not
meet `p` opens the way to a violation. -/
theorem throughout_iff_continuations {inv q : σ → Prop} {p : σ → α → Prop} {r : α → Prop}
    (keep : ∀ s a m, inv s → p s a → step s a = some m → inv m) (safe : ∀ s, inv s → q s)
    (allowed : ∀ s a, r a → p s a)
    (needed : ∀ s a m, inv s → step s a = some m → ¬ p s a →
      ∃ bs, (∀ b ∈ bs, r b) ∧ ¬ Always step q m bs)
    {s : σ} (hs : inv s) (as : List α) :
    Throughout step p s as ↔
      ∀ cs, cs <+: as → ∀ bs, (∀ b ∈ bs, r b) → Always step q s (cs ++ bs) := by
  constructor
  · rintro h cs ⟨ds, rfl⟩ bs hbs
    have hcs := (throughout_append.mp h).1
    have hall : Throughout step p s (cs ++ bs) := throughout_append.mpr
      ⟨hcs, fun t _ => throughout_of_mem (fun t b hb => allowed t b (hbs b hb)) t⟩
    have hkeep : ∀ s a m, inv s → q s → p s a → step s a = some m → inv m ∧ q m :=
      fun s a m hs _ hp hm => ⟨keep s a m hs hp hm, safe m (keep s a m hs hp hm)⟩
    exact always_of_throughout hkeep hs (safe s hs) hall
  · intro h
    induction as generalizing s with
    | nil => trivial
    | cons a as ih =>
      intro m hm
      have hp : p s a := by
        apply Classical.byContradiction
        intro hp
        obtain ⟨bs, hbs, hout⟩ := needed s a m hs hm hp
        exact hout ((h [a] ⟨as, rfl⟩ bs hbs).2 m hm)
      refine ⟨hp, ih (keep s a m hs hp hm) (fun cs hcs bs hbs => ?_)⟩
      exact (h (a :: cs) (List.cons_prefix_cons.mpr ⟨rfl, hcs⟩) bs hbs).2 m hm

/-- Where an action also says what the environment chooses, and `view` forgets that:
the runs stay within `q` whatever is chosen exactly when their steps meet `p`, if a
step that does not can leave `q` by another choice. -/
theorem always_iff_of_choices {inv q : σ → Prop} {p : σ → α → Prop} {view : α → β}
    (keep : ∀ s a m, inv s → step s a = some m → inv m)
    (enough : ∀ s a m, inv s → q s → p s a → step s a = some m → q m)
    (needed : ∀ s a m, inv s → q s → step s a = some m → ¬ p s a →
      ∃ b n, view b = view a ∧ step s b = some n ∧ ¬ q n)
    {s : σ} (hs : inv s) (hq : q s) (as : List α) :
    (∀ bs, bs.map view = as.map view → Always step q s bs) ↔
      ∀ bs, bs.map view = as.map view → Throughout step p s bs := by
  have hkeep : ∀ s a m, inv s → q s → p s a → step s a = some m → inv m ∧ q m :=
    fun s a m hs hq hp hm => ⟨keep s a m hs hm, enough s a m hs hq hp hm⟩
  have hneeded : ∀ (bs : List α) (s : σ), inv s → q s →
      (∀ cs, cs.map view = bs.map view → Always step q s cs) → Throughout step p s bs := by
    intro bs
    induction bs with
    | nil => exact fun _ _ _ _ => trivial
    | cons a bs ih =>
      intro s hs hq h m hm
      constructor
      · apply Classical.byContradiction
        intro hp
        obtain ⟨b, n, hb, hn, hout⟩ := needed s a m hs hq hm hp
        exact hout ((h (b :: bs) (by simp [hb])).2 n hn).head
      · have hrest : ∀ cs, cs.map view = bs.map view → Always step q m cs :=
          fun cs hcs => (h (a :: cs) (by simp [hcs])).2 m hm
        exact ih m (keep s a m hs hm) (hrest bs rfl).head hrest
  constructor
  · exact fun h bs hbs => hneeded bs s hs hq (fun cs hcs => h cs (hcs.trans hbs))
  · exact fun h bs hbs => always_of_throughout hkeep hs hq (h bs hbs)

/-- Seen through `abs`, each step out of an `inv` state is a step of `spec` or nothing. -/
structure Refines (step : σ → α → Option σ) (inv : σ → Prop) (abs : σ → τ)
    (spec : τ → β → Option τ) : Prop where
  keep : ∀ s a t, inv s → step s a = some t → inv t
  sim : ∀ s a t, inv s → step s a = some t → abs t = abs s ∨ ∃ b, spec (abs s) b = some (abs t)

theorem Refines.run {inv : σ → Prop} {abs : σ → τ} {spec : τ → β → Option τ}
    (h : Refines step inv abs spec) {s t : σ} {as : List α} (hs : inv s)
    (hr : run step s as = some t) : ∃ bs, Machine.run spec (abs s) bs = some (abs t) := by
  induction as generalizing s with
  | nil => exact ⟨[], congrArg some (congrArg abs (Option.some.inj hr))⟩
  | cons a as ih =>
    obtain ⟨m, hm, hr⟩ := run_cons.mp hr
    obtain ⟨bs, hbs⟩ := ih (h.keep s a m hs hm) hr
    rcases h.sim s a m hs hm with he | ⟨b, hb⟩
    · exact ⟨bs, he ▸ hbs⟩
    · exact ⟨b :: bs, run_cons.mpr ⟨abs m, hb, hbs⟩⟩

/-- An invariant of the specification is one of the machine that refines it. -/
theorem Refines.invariant {inv : σ → Prop} {abs : σ → τ} {spec : τ → β → Option τ}
    (h : Refines step inv abs spec) {q : τ → Prop}
    (keep : ∀ x b y, q x → spec x b = some y → q y) {s t : σ} {as : List α} (hs : inv s)
    (hq : q (abs s)) (hr : Machine.run step s as = some t) : q (abs t) := by
  obtain ⟨bs, hbs⟩ := h.run hs hr
  exact Machine.invariant keep hq hbs

end Machine
