import Awe.Ledger

namespace Awe.Ledger
open Machine

/-- Ticket `k` was cancelled in time: wherever its task is now, it is marked, and
the procedure is not running. -/
structure Cancelled (k : Nat) (l : Ledger) : Prop where
  posted : k < l.posted.length
  uninvoked : k ∉ l.invoked.map TimerTask.ticket
  pending : ∀ t ∈ l.pending, t.ticket = k → t.state = .invalid
  fetched : ∀ t, l.hand = .fetched t → t.ticket = k → t.state = .invalid
  idle : ∀ t, l.hand = .running t → t.ticket ≠ k

/-- No operation takes a cancel back. -/
theorem Cancelled.step {k : Nat} {l m : Ledger} {op : Op} (h : Cancelled k l)
    (hm : l.step op = some m) : Cancelled k m := by
  cases op with
  | post task =>
    simp only [Ledger.step] at hm
    obtain ⟨hc, hm⟩ := Option.ite_none_right_eq_some.mp hm
    cases hm
    have hk := h.posted
    refine { h with
      posted := by simp only [List.length_append, List.length_singleton]; omega
      pending := ?_ }
    intro t ht htk
    rcases StableQueue.mem_insert.mp ht with rfl | ht
    · omega
    · exact h.pending t ht htk
  | cancel id =>
    cases hm
    refine { h with pending := ?_ }
    intro t ht htk
    rcases TimerTaskList.mem_cancel ht with ht | ⟨u, _, _, rfl⟩
    · exact h.pending t ht htk
    · rfl
  | pop =>
    simp only [Ledger.step] at hm
    split at hm
    · rename_i t rest _ hpending
      cases hm
      refine { h with
        pending := fun u hu => h.pending u (by simp [hpending, hu])
        fetched := ?_
        idle := by simp }
      rintro u hu huk
      cases hu
      exact h.pending t (by simp [hpending]) huk
    · cases hm
  | invoke =>
    simp only [Ledger.step] at hm
    split at hm
    · rename_i t hhand
      obtain ⟨hvalid, hm⟩ := Option.ite_none_right_eq_some.mp hm
      cases hm
      have htk : t.ticket ≠ k := by
        intro htk
        rw [h.fetched t hhand htk] at hvalid
        cases hvalid
      refine { h with uninvoked := ?_, fetched := by simp, idle := ?_ }
      · simp only [List.map_append, List.mem_append, not_or]
        exact ⟨h.uninvoked, by simpa using htk.symm⟩
      · rintro u hu
        cases hu
        exact htk
    · cases hm
  | destroy =>
    simp only [Ledger.step] at hm
    split at hm <;> cases hm <;> exact { h with fetched := by simp, idle := by simp }
  | clear =>
    cases hm
    exact { h with pending := by simp }

theorem Accounted.pending_tickets {l : Ledger} (h : Accounted l) :
    (l.pending.map TimerTask.ticket).Nodup := by
  have hn := h.places.nodup_iff.mpr List.nodup_range
  unfold Ledger.places at hn
  exact (List.nodup_append'.mp (List.nodup_append'.mp hn).1).1

/-- A pending task is nowhere else. -/
theorem Accounted.only_pending {l : Ledger} (h : Accounted l) {t : TimerTask}
    (ht : t ∈ l.pending) : (∀ u ∈ l.hand.tasks, u.ticket ≠ t.ticket) ∧
      ∀ u ∈ l.pending, u.ticket = t.ticket → u = t := by
  have hone := h.count_one (h.ticket_lt (t := t) (by simp [ht]))
  have hp : 0 < (l.pending.map TimerTask.ticket).count t.ticket :=
    List.count_pos_iff.mpr (List.mem_map.mpr ⟨t, ht, rfl⟩)
  constructor
  · intro u hu he
    have : 0 < (l.hand.tasks.map TimerTask.ticket).count t.ticket :=
      List.count_pos_iff.mpr (List.mem_map.mpr ⟨u, hu, he⟩)
    omega
  · exact fun u hu he => List.inj_on_of_nodup_map h.pending_tickets hu ht he

/-- A pending task that leaves the list, or stays in it marked, is cancelled. -/
theorem Accounted.cancelled_pending {l : Ledger} (h : Accounted l) {t : TimerTask}
    (ht : t ∈ l.pending) {pending : TimerTaskList}
    (hmark : ∀ u ∈ pending, u.ticket = t.ticket → u.state = .invalid) (destroyed : List Nat) :
    Cancelled t.ticket { l with pending := pending, destroyed := destroyed } := by
  obtain ⟨hhand, _⟩ := h.only_pending ht
  refine ⟨h.ticket_lt (by simp [ht]), h.not_invoked (Or.inl ht), hmark, ?_, ?_⟩
  · intro u hu huk
    exact absurd huk (hhand u (by simp [show l.hand = .fetched u from hu, Hand.tasks]))
  · intro u hu huk
    exact hhand u (by simp [show l.hand = .running u from hu, Hand.tasks]) huk

/-- The task a successful cancel has marked is one of that id, and its ticket is
cancelled. -/
theorem Accounted.cancelled {l : Ledger} {id : Ptr} (h : Accounted l)
    (hok : (l.pending.cancel id).1 = AWE_OK) :
    ∃ front t rear, l.pending = front ++ t :: rear ∧ t.id = id ∧
      (l.pending.cancel id).2 = front ++ { t with state := .invalid } :: rear ∧
      Cancelled t.ticket { l with pending := (l.pending.cancel id).2 } := by
  obtain ⟨front, t, rear, hl, ht, hl'⟩ := TimerTaskList.cancel_ok (Prod.ext hok rfl)
  have hmem : t ∈ l.pending := by simp [hl]
  refine ⟨front, t, rear, hl, ht, hl', h.cancelled_pending hmem ?_ l.destroyed⟩
  intro u hu huk
  have hu : u ∈ front ++ { t with state := .invalid } :: rear := hl' ▸ hu
  have hnd := h.pending_tickets
  rw [hl] at hnd
  simp only [List.map_append, List.map_cons, List.nodup_append', List.nodup_cons,
    List.disjoint_cons_right] at hnd
  rcases List.mem_append.mp hu with hu | hu
  · exact absurd (List.mem_map.mpr ⟨u, hu, huk⟩) hnd.2.2.1
  · rcases List.mem_cons.mp hu with rfl | hu
    · rfl
    · exact absurd (List.mem_map.mpr ⟨u, hu, huk⟩) hnd.2.1.1

/-- The task of ticket `k` is still to run, or has been started. -/
def Due (k : Nat) (l : Ledger) : Prop :=
  (∃ t ∈ l.pending, t.ticket = k ∧ t.state = .valid) ∨
    (∃ t, l.hand = .fetched t ∧ t.ticket = k ∧ t.state = .valid) ∨
    k ∈ l.invoked.map TimerTask.ticket

def Recorded (l : Ledger) : Prop := ∀ t, l.hand = .running t → t ∈ l.invoked

theorem Recorded.step {l m : Ledger} {op : Op} (h : Recorded l) (hm : l.step op = some m) :
    Recorded m := by
  intro t ht
  cases op with
  | post task =>
    simp only [Ledger.step] at hm
    split at hm <;> cases hm
    exact h t ht
  | cancel id | clear =>
    cases hm
    exact h t ht
  | pop | destroy =>
    simp only [Ledger.step] at hm
    split at hm <;> cases hm <;> cases ht
  | invoke =>
    simp only [Ledger.step] at hm
    repeat' first | split at hm | cases hm
    cases ht
    exact List.mem_append_right _ (List.mem_singleton_self t)

/-- A ticket is due as long as it has not been cancelled. -/
theorem due_iff_not_cancelled {k : Nat} {l : Ledger} (hk : k < l.posted.length)
    (h : Recorded l) : Due k l ↔ ¬ Cancelled k l := by
  constructor
  · rintro (⟨t, ht, htk, hvalid⟩ | ⟨t, ht, htk, hvalid⟩ | hin) hc
    · cases hvalid.symm.trans (hc.pending t ht htk)
    · cases hvalid.symm.trans (hc.fetched t ht htk)
    · exact hc.uninvoked hin
  · intro hc
    by_contra hdue
    simp only [Due, not_or, not_exists, not_and] at hdue
    obtain ⟨hpending, hfetched, huninvoked⟩ := hdue
    have hinvalid : ∀ t : TimerTask, t.state ≠ .valid → t.state = .invalid := by
      intro t ht
      cases hs : t.state with
      | valid => exact absurd hs ht
      | invalid => rfl
    refine hc ⟨hk, huninvoked, ?_, ?_, ?_⟩
    · exact fun t ht htk => hinvalid t (hpending t ht htk)
    · exact fun t ht htk => hinvalid t (hfetched t ht htk)
    · exact fun t ht htk => huninvoked (List.mem_map.mpr ⟨t, h t ht, htk⟩)

/-- The operations that end the prospects of a task still to run. -/
def Drops (k : Nat) (l : Ledger) : Op → Prop
  | .cancel id => ∃ t ∈ l.pending, t.ticket = k ∧ t.id = id ∧ t.state = .valid
  | .clear => ∃ t ∈ l.pending, t.ticket = k ∧ t.state = .valid
  | .destroy => ∃ t, l.hand = .fetched t ∧ t.ticket = k ∧ t.state = .valid
  | _ => False

theorem Accounted.cancelled_of_drops {k : Nat} {l m : Ledger} {op : Op} (h : Accounted l)
    (hdrop : Drops k l op) (hm : l.step op = some m) : Cancelled k m := by
  cases op with
  | cancel id =>
    cases hm
    obtain ⟨t, ht, rfl, hid, _⟩ := hdrop
    obtain ⟨front, u, rear, hl, hu, _, hc⟩ :=
      h.cancelled (TimerTaskList.cancel_ok_iff.mpr ⟨t, ht, hid⟩)
    have hsame : u = t := by
      refine List.inj_on_of_nodup_map h.distinct ?_ (List.mem_append_left _ ht) (hu.trans hid.symm)
      exact List.mem_append_left _ (by simp [hl])
    exact hsame ▸ hc
  | clear =>
    cases hm
    obtain ⟨t, ht, rfl, _⟩ := hdrop
    exact h.cancelled_pending ht (by simp) _
  | destroy =>
    obtain ⟨t, ht, rfl, _⟩ := hdrop
    simp only [Ledger.step, ht, Option.some.injEq] at hm
    subst hm
    refine ⟨h.ticket_lt (t := t) (by simp [ht, Hand.tasks]), h.not_invoked (Or.inr ht), ?_, ?_, ?_⟩
    · intro u hu huk
      exact absurd huk.symm ((h.only_pending hu).1 t (by simp [ht, Hand.tasks]))
    · simp
    · simp
  | _ => cases hdrop

/-- Whatever does not end the prospects of a task leaves it due. -/
theorem Due.step {k : Nat} {l m : Ledger} {op : Op} (h : Due k l) (hacc : Accounted l)
    (hkeep : ¬ Drops k l op) (hm : l.step op = some m) : Due k m := by
  cases op with
  | post task =>
    simp only [Ledger.step] at hm
    split at hm <;> cases hm
    apply h.imp_left
    rintro ⟨t, ht, hrest⟩
    exact ⟨t, StableQueue.mem_insert.mpr (Or.inr ht), hrest⟩
  | cancel id =>
    cases hm
    apply h.imp_left
    rintro ⟨t, ht, htk, hvalid⟩
    have hids : (l.pending.map TimerTask.id).Nodup := by
      have hd := hacc.distinct
      simp only [Ledger.allocated, List.map_append] at hd
      exact (List.nodup_append'.mp hd).1
    refine ⟨t, (TimerTaskList.mem_cancel_iff hids ht).mpr ?_, htk, hvalid⟩
    exact fun hit => hkeep ⟨t, ht, htk, hit⟩
  | clear =>
    cases hm
    rcases h with ⟨t, ht, hrest⟩ | h
    · exact absurd ⟨t, ht, hrest⟩ hkeep
    · exact Or.inr h
  | pop =>
    simp only [Ledger.step] at hm
    split at hm
    · rename_i u rest hhand hpending
      cases hm
      rcases h with ⟨t, ht, htk, hvalid⟩ | ⟨t, ht, _⟩ | h
      · rw [hpending] at ht
        rcases List.mem_cons.mp ht with rfl | ht
        · exact Or.inr (Or.inl ⟨t, rfl, htk, hvalid⟩)
        · exact Or.inl ⟨t, ht, htk, hvalid⟩
      · cases hhand.symm.trans ht
      · exact Or.inr (Or.inr h)
    · cases hm
  | invoke =>
    simp only [Ledger.step] at hm
    split at hm
    · rename_i u hhand
      obtain ⟨_, hm⟩ := Option.ite_none_right_eq_some.mp hm
      cases hm
      rcases h with h | ⟨t, ht, htk, _⟩ | h
      · exact Or.inl h
      · cases hhand.symm.trans ht
        exact Or.inr (Or.inr (by simp [htk]))
      · refine Or.inr (Or.inr ?_)
        rw [List.map_append]
        exact List.mem_append_left _ h
    · cases hm
  | destroy =>
    have hrest : (∃ t ∈ l.pending, t.ticket = k ∧ t.state = .valid) ∨
        k ∈ l.invoked.map TimerTask.ticket := by
      rcases h with h | ⟨t, ht, hrest⟩ | h
      · exact Or.inl h
      · exact absurd ⟨t, ht, hrest⟩ hkeep
      · exact Or.inr h
    simp only [Ledger.step] at hm
    split at hm <;> cases hm <;> exact hrest.imp_right Or.inr

/-- What a poster may rely on once its cancel has returned `AWE_OK`, for any
machine with a ledger: `finish` is what the worker does with a task it has
fetched, `clear` what empties the list. -/
structure CancelFinal {σ α : Type*} (step : σ → α → Option σ) (ledger : σ → Ledger)
    (finish clear : α) (s s' : σ) (id : Ptr) (k : Nat) : Prop where
  issued : ∀ (n : Nat) (p : TimerTask), (ledger s).posted[n]? = some p → (p.id = id ↔ n = k)
  not_started : k ∉ (ledger s).invoked.map TimerTask.ticket
  only_mark : ∃ front t rear, (ledger s).pending = front ++ t :: rear ∧ t.ticket = k ∧
    ledger s' = { ledger s with pending := front ++ { t with state := .invalid } :: rear }
  never_invoked : ∀ bs u, run step s' bs = some u → k ∉ (ledger u).invoked.map TimerTask.ticket
  one_place : ∀ bs u, run step s' bs = some u →
    ((ledger u).pending.map TimerTask.ticket).count k +
      ((ledger u).hand.tasks.map TimerTask.ticket).count k + (ledger u).destroyed.count k = 1
  popped : ∀ bs u t, run step s' bs = some u → (ledger u).hand = .fetched t → t.ticket = k →
    ∃ v, step u finish = some v ∧
      ledger v = { ledger u with hand := .empty, destroyed := (ledger u).destroyed ++ [k] }
  cleared : ∀ bs u v, run step s' bs = some u → k ∈ (ledger u).pending.map TimerTask.ticket →
    step u clear = some v → (ledger v).destroyed.count k = 1

/-- A machine that refines the ledger, destroys what it fetched marked and empties
its list by destroying it, has final cancels. -/
theorem cancelFinal_of_refines {σ α : Type*} {step : σ → α → Option σ} {inv : σ → Prop}
    {ledger : σ → Ledger} {finish clear : α} (href : Refines step inv ledger Ledger.step)
    (hfinish : ∀ u t, inv u → (ledger u).hand = .fetched t → t.state = .invalid →
      ∃ v, step u finish = some v ∧
        ledger v = { ledger u with
          hand := .empty
          destroyed := (ledger u).destroyed ++ [t.ticket] })
    (hclear : ∀ u v, step u clear = some v → (ledger v).pending = [] ∧
      (ledger v).hand.tasks = (ledger u).hand.tasks ∧ (ledger v).posted = (ledger u).posted)
    {s s' : σ} {a : α} {id : Ptr} (hinv : inv s) (hacc : (ledger s).Accounted)
    (hs : step s a = some s') (hok : ((ledger s).pending.cancel id).1 = AWE_OK)
    (hmark : ledger s' = { ledger s with pending := ((ledger s).pending.cancel id).2 })
    (hids : ((ledger s).posted.map TimerTask.id).Nodup) :
    ∃ k, CancelFinal step ledger finish clear s s' id k := by
  obtain ⟨front, t, rear, hl, hid, hl', hcan⟩ := hacc.cancelled hok
  rw [← hmark] at hcan
  have hinv' := href.keep s a s' hinv hs
  have hacc' : (ledger s').Accounted :=
    hmark ▸ hacc.cancel rfl
  have later : ∀ bs u, run step s' bs = some u →
      inv u ∧ (ledger u).Accounted ∧ Cancelled t.ticket (ledger u) := by
    intro bs u hu
    refine ⟨Machine.invariant href.keep hinv' hu,
      href.invariant (q := Accounted) (fun _ _ _ h hm => h.step hm) hinv' hacc' hu,
      href.invariant (q := Cancelled t.ticket) (fun _ _ _ h hm => h.step hm) hinv' hcan hu⟩
  refine ⟨t.ticket, ?_, hacc.not_invoked (Or.inl (by simp [hl])), ⟨front, t, rear, hl, rfl, ?_⟩,
    ?_, ?_, ?_, ?_⟩
  · intro n p hp
    obtain ⟨q, hq, hsame⟩ := hacc.origin t (by simp [hl])
    constructor
    · intro he
      have hsameId : p.id = q.id := by rw [he, ← hsame.1, hid]
      have hget : ∀ (i : Nat) (r : TimerTask), (ledger s).posted[i]? = some r →
          ((ledger s).posted.map TimerTask.id)[i]? = some r.id := by
        intro i r hr
        rw [List.getElem?_map, hr, Option.map_some]
      have hn : n < ((ledger s).posted.map TimerTask.id).length := by
        simpa using (List.getElem?_eq_some_iff.mp hp).1
      apply (List.getElem?_inj hn hids).mp
      rw [hget n p hp, hget t.ticket q hq, hsameId]
    · intro hn
      rw [hn, hq] at hp
      obtain rfl := Option.some.inj hp
      rw [← hsame.1, hid]
  · rw [hmark, hl']
  · exact fun bs u hu => (later bs u hu).2.2.uninvoked
  · intro bs u hu
    obtain ⟨_, ha, hc⟩ := later bs u hu
    exact ha.count_one hc.posted
  · intro bs u w hu hw hwk
    obtain ⟨hi, _, hc⟩ := later bs u hu
    obtain ⟨v, hv, hlv⟩ := hfinish u w hi hw (hc.fetched w hw hwk)
    exact ⟨v, hv, hwk ▸ hlv⟩
  · intro bs u v hu hk hv
    obtain ⟨hempty, hhand, hposted⟩ := hclear u v hv
    obtain ⟨_, hau, hcu⟩ := later bs u hu
    have hv' : run step s' (bs ++ [clear]) = some v :=
      run_append.mpr ⟨u, hu, run_cons.mpr ⟨v, hv, rfl⟩⟩
    have hone := (later _ v hv').2.1.count_one (k := t.ticket) (hposted ▸ hcu.posted)
    have hu1 := hau.count_one hcu.posted
    have hpos := List.count_pos_iff.mpr hk
    rw [hempty, hhand] at hone
    simp only [List.map_nil, List.count_nil] at hone
    omega

end Awe.Ledger
