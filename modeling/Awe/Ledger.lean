import Mathlib.Data.List.Nodup
import Awe.Lib.Machine
import Awe.TimerTask

namespace Awe

/-- The task a worker has taken off the list and not yet destroyed. -/
inductive Hand where
  | empty
  | fetched (task : TimerTask)
  | running (task : TimerTask)
  deriving DecidableEq

def Hand.tasks : Hand → List TimerTask
  | .empty => []
  | .fetched t | .running t => [t]

/-- The arguments of a post, with the clock reading it takes and the address the
allocator returns. -/
structure Post where
  now : ClockMs
  delay : DelayMs
  id : Ptr
  proc : Ptr
  userdata : Ptr
  arg : Int

def Post.task (p : Post) (ticket : Nat) : TimerTask where
  id := p.id
  ticket := ticket
  procMs := procTime p.now p.delay
  proc := p.proc
  userdata := p.userdata
  arg := p.arg
  state := .valid

/-- What a timer service owes its posters: every task is accounted for from the
post that created it to its destruction. Tickets number the posts. -/
structure Ledger where
  pending : TimerTaskList
  hand : Hand
  posted : List TimerTask
  invoked : List TimerTask
  destroyed : List Nat

namespace Ledger

def empty : Ledger := ⟨[], .empty, [], [], []⟩

/-- Tasks whose storage has not been given back. -/
def allocated (l : Ledger) : List TimerTask := l.pending ++ l.hand.tasks

inductive Op where
  | post (task : TimerTask)
  | cancel (id : Ptr)
  | pop
  | invoke
  | destroy
  | clear

/-- `post` relies on the allocator: a new task never shares the address of one
that is still allocated. Addresses of destroyed tasks may come back. -/
def step (l : Ledger) : Op → Option Ledger
  | .post task =>
    if task.ticket = l.posted.length ∧ task.state = .valid ∧ task.id ≠ NULL ∧
        task.id ∉ l.allocated.map TimerTask.id then
      some { l with pending := l.pending.insert task, posted := l.posted ++ [task] }
    else none
  | .cancel id => some { l with pending := (l.pending.cancel id).2 }
  | .pop =>
    match l.hand, l.pending with
    | .empty, t :: rest => some { l with pending := rest, hand := .fetched t }
    | _, _ => none
  | .invoke =>
    match l.hand with
    | .fetched t =>
      if t.state = .valid then some { l with hand := .running t, invoked := l.invoked ++ [t] }
      else none
    | _ => none
  | .destroy =>
    match l.hand with
    | .empty => none
    | .fetched t | .running t =>
      some { l with hand := .empty, destroyed := l.destroyed ++ [t.ticket] }
  | .clear => some { l with
      pending := []
      destroyed := l.destroyed ++ l.pending.map TimerTask.ticket }

/-- Every place a ticket can be in, with repetitions. -/
def places (l : Ledger) : List Nat :=
  l.pending.map TimerTask.ticket ++ l.hand.tasks.map TimerTask.ticket ++ l.destroyed

/-- The books balance: each ticket has exactly one place, each task is the one
that was posted, each procedure ran at most once and only on its way out. -/
structure Accounted (l : Ledger) : Prop where
  places : l.places.Perm (List.range l.posted.length)
  numbered : ∀ (n : Nat) (p : TimerTask), l.posted[n]? = some p → p.ticket = n
  nonNull : ∀ p ∈ l.posted, p.id ≠ NULL
  origin : ∀ t ∈ l.pending ++ l.hand.tasks ++ l.invoked,
    ∃ p, l.posted[t.ticket]? = some p ∧ t.SameWork p
  ordered : l.pending.Pairwise TimerTaskList.Before
  once : (l.invoked.map TimerTask.ticket).Nodup
  retired : ∀ t ∈ l.invoked, t.ticket ∈ l.destroyed ∨ l.hand = .running t
  distinct : (l.allocated.map TimerTask.id).Nodup

theorem accounted_empty : Accounted empty where
  places := List.Perm.refl _
  numbered := by simp [empty]
  nonNull := by simp [empty]
  origin := by simp [empty, Hand.tasks]
  ordered := List.Pairwise.nil
  once := List.nodup_nil
  retired := by simp [empty]
  distinct := List.nodup_nil

theorem Accounted.ticket_lt {l : Ledger} (h : Accounted l) {t : TimerTask}
    (ht : t ∈ l.pending ++ l.hand.tasks ++ l.invoked) : t.ticket < l.posted.length := by
  obtain ⟨p, hp, _⟩ := h.origin t ht
  exact (List.getElem?_eq_some_iff.mp hp).1

theorem Accounted.count_one {l : Ledger} (h : Accounted l) {k : Nat} (hk : k < l.posted.length) :
    (l.pending.map TimerTask.ticket).count k + (l.hand.tasks.map TimerTask.ticket).count k +
      l.destroyed.count k = 1 := by
  have hc := h.places.count_eq k
  rw [List.count_eq_one_of_mem List.nodup_range (List.mem_range.mpr hk)] at hc
  simpa only [Ledger.places, List.count_append] using hc

/-- A ticket still in the list or in the worker's hand has not been invoked
before, the running task apart. -/
theorem Accounted.not_invoked {l : Ledger} (h : Accounted l) {t : TimerTask}
    (ht : t ∈ l.pending ∨ l.hand = .fetched t) : t.ticket ∉ l.invoked.map TimerTask.ticket := by
  intro hm
  obtain ⟨u, hu, hut⟩ := List.mem_map.mp hm
  have hone := h.count_one (h.ticket_lt (t := u) (by simp [hu]))
  rw [hut] at hone
  have hd : t.ticket ∈ l.destroyed → 0 < l.destroyed.count t.ticket :=
    fun hm => List.count_pos_iff.mpr hm
  rcases ht with ht | ht
  · have hp : 0 < (l.pending.map TimerTask.ticket).count t.ticket :=
      List.count_pos_iff.mpr (List.mem_map.mpr ⟨t, ht, rfl⟩)
    rcases h.retired u hu with hr | hr
    · have := hd (hut ▸ hr)
      omega
    · have : 0 < (l.hand.tasks.map TimerTask.ticket).count t.ticket :=
        List.count_pos_iff.mpr (List.mem_map.mpr ⟨u, by simp [hr, Hand.tasks], hut⟩)
      omega
  · have hp : 0 < (l.hand.tasks.map TimerTask.ticket).count t.ticket :=
      List.count_pos_iff.mpr (List.mem_map.mpr ⟨t, by simp [ht, Hand.tasks], rfl⟩)
    rcases h.retired u hu with hr | hr
    · have := hd (hut ▸ hr)
      omega
    · rw [hr] at ht
      cases ht

theorem Accounted.post {l m : Ledger} {task : TimerTask} (h : Accounted l)
    (hm : l.step (.post task) = some m) : Accounted m := by
  simp only [step] at hm
  obtain ⟨hc, hm⟩ := Option.ite_none_right_eq_some.mp hm
  obtain ⟨hticket, _, hnull, hid⟩ := hc
  cases hm
  have hins : (l.pending.insert task).Perm (task :: l.pending) := StableQueue.insert_perm _ _
  have hlt : ∀ t ∈ l.pending ++ l.hand.tasks ++ l.invoked, t.ticket < l.posted.length :=
    fun t ht => h.ticket_lt ht
  refine ⟨?_, ?_, ?_, ?_, ?_, h.once, h.retired, ?_⟩
  · have hp : (l.pending.insert task).map TimerTask.ticket |>.Perm
        (l.posted.length :: l.pending.map TimerTask.ticket) :=
      (hins.map _).trans (by rw [List.map_cons, hticket])
    have hr : (List.range (l.posted ++ [task]).length).Perm
        (l.posted.length :: List.range l.posted.length) := by
      rw [List.length_append, List.length_singleton, List.range_succ]
      exact List.perm_append_singleton _ _
    refine ((hp.append_right _).append_right _).trans (List.Perm.trans ?_ hr.symm)
    exact List.Perm.cons _ h.places
  · intro n p hp
    rcases Nat.lt_trichotomy n l.posted.length with hn | hn | hn
    · rw [List.getElem?_append_left hn] at hp
      exact h.numbered n p hp
    · subst n
      rw [List.getElem?_concat_length] at hp
      exact Option.some.inj hp ▸ hticket
    · rw [List.getElem?_eq_none (by simp; omega)] at hp
      cases hp
  · intro p hp
    rcases List.mem_append.mp hp with hp | hp
    · exact h.nonNull p hp
    · exact List.mem_singleton.mp hp ▸ hnull
  · intro t ht
    have hcases : t = task ∨ t ∈ l.pending ++ l.hand.tasks ++ l.invoked := by
      simp only [List.mem_append] at ht ⊢
      rcases ht with (ht | ht) | ht
      · rcases StableQueue.mem_insert.mp ht with rfl | ht
        · exact Or.inl rfl
        · exact Or.inr (Or.inl (Or.inl ht))
      · exact Or.inr (Or.inl (Or.inr ht))
      · exact Or.inr (Or.inr ht)
    rcases hcases with rfl | ht
    · exact ⟨t, by rw [hticket, List.getElem?_concat_length], TimerTask.SameWork.refl t⟩
    · obtain ⟨p, hp, hs⟩ := h.origin t ht
      exact ⟨p, by rw [List.getElem?_append_left (hlt t ht)]; exact hp, hs⟩
  · apply StableQueue.insert_ordered h.ordered
    intro t ht
    rw [hticket]
    exact hlt t (by simp [ht])
  · have hp : ((l.pending.insert task ++ l.hand.tasks).map TimerTask.id).Perm
        (task.id :: l.allocated.map TimerTask.id) := (hins.append_right _).map _
    exact hp.nodup_iff.mpr (List.nodup_cons.mpr ⟨hid, h.distinct⟩)

theorem Accounted.cancel {l m : Ledger} {id : Ptr} (h : Accounted l)
    (hm : l.step (.cancel id) = some m) : Accounted m := by
  cases hm
  have htickets := TimerTaskList.cancel_map TimerTask.ticket (fun _ => rfl) l.pending id
  have hids := TimerTaskList.cancel_map TimerTask.id (fun _ => rfl) l.pending id
  refine ⟨?_, h.numbered, h.nonNull, ?_, TimerTaskList.cancel_ordered h.ordered id, h.once,
    h.retired, ?_⟩
  · simp only [Ledger.places, htickets]
    exact h.places
  · intro t ht
    simp only [List.mem_append] at ht
    rcases ht with (ht | ht) | ht
    · rcases TimerTaskList.mem_cancel ht with ht | ⟨u, hu, _, rfl⟩
      · exact h.origin t (by simp [ht])
      · exact h.origin u (by simp [hu])
    · exact h.origin t (by simp [ht])
    · exact h.origin t (by simp [ht])
  · simp only [allocated, List.map_append, hids]
    simpa only [allocated, List.map_append] using h.distinct

theorem Accounted.pop {l m : Ledger} (h : Accounted l) (hm : l.step .pop = some m) :
    Accounted m := by
  simp only [step] at hm
  split at hm
  · rename_i t rest hhand hpending
    cases hm
    have hpl := h.places
    have hor := h.origin
    have hord := h.ordered
    have hdis := h.distinct
    simp only [Ledger.places, allocated, hhand, hpending, Hand.tasks, List.map_cons, List.map_nil,
      List.append_nil] at hpl hor hord hdis
    refine ⟨?_, h.numbered, h.nonNull, ?_, (List.pairwise_cons.mp hord).2, h.once, ?_, ?_⟩
    · refine List.Perm.trans ?_ hpl
      exact (List.perm_append_singleton _ _).append_right _
    · intro u hu
      apply hor u
      simp only [Hand.tasks, List.mem_append, List.mem_cons] at hu ⊢
      tauto
    · intro u hu
      rcases h.retired u hu with hr | hr
      · exact Or.inl hr
      · rw [hhand] at hr
        cases hr
    · refine (List.Perm.nodup_iff ?_).mpr hdis
      exact (List.perm_append_singleton t rest).map _
  · cases hm

theorem Accounted.invoke {l m : Ledger} (h : Accounted l) (hm : l.step .invoke = some m) :
    Accounted m := by
  simp only [step] at hm
  split at hm
  · rename_i t hhand
    obtain ⟨_, hm⟩ := Option.ite_none_right_eq_some.mp hm
    cases hm
    have hnew := h.not_invoked (Or.inr hhand)
    have hpl := h.places
    have hor := h.origin
    have hdis := h.distinct
    simp only [Ledger.places, allocated, hhand, Hand.tasks] at hpl hor hdis
    refine ⟨hpl, h.numbered, h.nonNull, ?_, h.ordered, ?_, ?_, hdis⟩
    · intro u hu
      apply hor u
      simp only [Hand.tasks, List.mem_append, List.mem_singleton] at hu ⊢
      tauto
    · rw [List.map_append]
      exact List.nodup_append'.mpr ⟨h.once, List.nodup_singleton _,
        List.disjoint_singleton.mpr hnew⟩
    · intro u hu
      rcases List.mem_append.mp hu with hu | hu
      · rcases h.retired u hu with hr | hr
        · exact Or.inl hr
        · rw [hhand] at hr
          cases hr
      · rw [List.mem_singleton.mp hu]
        exact Or.inr rfl
  · cases hm

theorem Accounted.destroy {l m : Ledger} (h : Accounted l) (hm : l.step .destroy = some m) :
    Accounted m := by
  have hshape : ∃ t, l.hand.tasks = [t] ∧ (∀ u, l.hand = .running u → u = t) ∧
      m = { l with hand := .empty, destroyed := l.destroyed ++ [t.ticket] } := by
    simp only [step] at hm
    cases hhand : l.hand with
    | empty =>
      rw [hhand] at hm
      cases hm
    | fetched t =>
      rw [hhand] at hm
      exact ⟨t, rfl, (fun u hu => by cases hu), (Option.some.inj hm).symm⟩
    | running t =>
      rw [hhand] at hm
      exact ⟨t, rfl, (fun u hu => by cases hu; rfl), (Option.some.inj hm).symm⟩
  obtain ⟨t, htasks, hrun, rfl⟩ := hshape
  have hpl := h.places
  have hor := h.origin
  have hdis := h.distinct
  simp only [Ledger.places, allocated, htasks] at hpl hor hdis
  refine ⟨?_, h.numbered, h.nonNull, ?_, h.ordered, h.once, ?_, ?_⟩
  · refine List.Perm.trans ?_ hpl
    simp only [Ledger.places, Hand.tasks, List.map_nil, List.append_nil, List.map_singleton,
      List.append_assoc]
    exact (List.perm_append_comm).append_left _
  · intro u hu
    apply hor u
    simp only [Hand.tasks, List.mem_append, List.not_mem_nil, or_false] at hu ⊢
    tauto
  · intro u hu
    refine Or.inl (List.mem_append.mpr ?_)
    rcases h.retired u hu with hr | hr
    · exact Or.inl hr
    · exact Or.inr (by simp [hrun u hr])
  · simp only [allocated, Hand.tasks, List.append_nil]
    rw [List.map_append] at hdis
    exact (List.nodup_append'.mp hdis).1

theorem Accounted.clear {l m : Ledger} (h : Accounted l) (hm : l.step .clear = some m) :
    Accounted m := by
  cases hm
  have hpl := h.places
  have hdis := h.distinct
  simp only [Ledger.places, allocated] at hpl hdis
  refine ⟨?_, h.numbered, h.nonNull, ?_, List.Pairwise.nil, h.once, ?_, ?_⟩
  · refine List.Perm.trans ?_ hpl
    simp only [Ledger.places, List.map_nil, List.nil_append]
    rw [← List.append_assoc, List.append_assoc (l.pending.map _)]
    exact List.perm_append_comm
  · intro u hu
    apply h.origin u
    simp only [List.nil_append, List.mem_append] at hu ⊢
    tauto
  · intro u hu
    rcases h.retired u hu with hr | hr
    · exact Or.inl (List.mem_append_left _ hr)
    · exact Or.inr hr
  · rw [List.map_append] at hdis
    exact (List.nodup_append'.mp hdis).2.1

theorem Accounted.step {l m : Ledger} {op : Op} (h : Accounted l) (hm : l.step op = some m) :
    Accounted m := by
  cases op with
  | post task => exact h.post hm
  | cancel id => exact h.cancel hm
  | pop => exact h.pop hm
  | invoke => exact h.invoke hm
  | destroy => exact h.destroy hm
  | clear => exact h.clear hm

/-- Posts are only ever added. -/
theorem step_posted {l m : Ledger} {op : Op} (hm : l.step op = some m) :
    l.posted <+: m.posted := by
  cases op with
  | post task =>
    simp only [step] at hm
    obtain ⟨_, hm⟩ := Option.ite_none_right_eq_some.mp hm
    cases hm
    exact List.prefix_append _ _
  | cancel id | clear =>
    cases hm
    exact List.prefix_rfl
  | pop | invoke | destroy =>
    simp only [step] at hm
    repeat' first | split at hm | cases hm
    all_goals exact List.prefix_rfl

end Ledger

end Awe
