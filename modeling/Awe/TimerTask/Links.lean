import Awe.DList
import Awe.Lib.Transducer
import Awe.TimerTask

namespace Awe

/-- `struct timer_task` less its `_item`. -/
structure TaskRecord where
  procMs : ProcMs
  proc : Ptr
  userdata : Ptr
  arg : Int
  state : TaskState
  deriving DecidableEq

/-- A `timer_task_list` and the tasks in memory. -/
abbrev TaskMem := DList TaskRecord

namespace TaskMem

/-- `timer_task_list_insert`, with the clock it reads and the address its new task gets. -/
def insert (m : TaskMem) (list a : Ptr) (now : ClockMs) (delay : DelayMs) (proc userdata : Ptr)
    (arg : Int) : Option (Ptr × TaskMem) := do
  let m ← DList.create m a ⟨procTime now delay, proc, userdata, arg, .valid⟩
  let newTask ← m.records a
  let posInsert ← m.next list
  let r ← LinkedList.forEach m.rounds (fun _ => m.prev) list () (fun _ pos => do
    let task ← m.records pos
    if newTask.procMs.ms ≥ task.procMs.ms then (m.next pos).map .inr else some (.inl ()))
  let m ← m.addTail a (r.elim (fun _ => posInsert) id)
  some (a, m)

def first (m : TaskMem) (list : Ptr) : Option Ptr := m.next list

def cancel (m : TaskMem) (list id : Ptr) : Option (Status × TaskMem) := do
  let r ← LinkedList.forEach m.rounds (fun _ => m.prev) list () (fun _ pos =>
    some (if id = pos then .inr pos else .inl ()))
  match r with
  | .inl _ => some (-1, m)
  | .inr task =>
    let m ← m.modify task (fun t => { t with state := .invalid })
    some (AWE_OK, m)

def clear (m : TaskMem) (list : Ptr) : Option TaskMem := do
  match ← LinkedList.forEachSafe m.rounds DList.next list m DList.delFree with
  | .inl m => some m
  | .inr _ => none

/-- The operations with their arguments. The caller destroys a task that it has deleted. -/
inductive Op where
  | insert (a : Ptr) (now : ClockMs) (delay : DelayMs) (proc userdata : Ptr) (arg : Int)
  | cancel (id : Ptr)
  | del (task : Ptr)
  | destroy (task : Ptr)
  | clear
  | first

inductive Answer where
  | task (task : Ptr)
  | status (status : Status)
  | done
  deriving DecidableEq

def step (list : Ptr) (m : TaskMem) : Op → Option (Answer × TaskMem)
  | .insert a now delay proc userdata arg =>
    (m.insert list a now delay proc userdata arg).map (fun r => (.task r.1, r.2))
  | .cancel id => (m.cancel list id).map (fun r => (.status r.1, r.2))
  | .del task => (DList.del m task).map (fun m => (.done, m))
  | .destroy task => (DList.free m task).map (fun m => (.done, m))
  | .clear => (m.clear list).map (fun m => (.done, m))
  | .first => (m.first list).map (fun task => (.task task, m))

end TaskMem

/-- The tasks inserted and not deleted yet, in the order they were inserted in, the
deleted ones that are still to be destroyed, and the number of insertions. -/
structure Pending where
  tasks : List TimerTask
  detached : List Ptr
  count : Nat

namespace Pending
open TaskMem (Op Answer)

def empty : Pending := ⟨[], [], 0⟩

def ids (p : Pending) : List Ptr := p.tasks.map TimerTask.id

def mark (id : Ptr) (t : TimerTask) : TimerTask :=
  if t.id = id then { t with state := .invalid } else t

/-- Of the tasks of least `_proc_ms` the one inserted first. -/
def earliest (p : Pending) : Option TimerTask :=
  p.tasks.find? (fun t =>
    p.tasks.all (fun u => TimerTaskList.deadline t ≤ TimerTaskList.deadline u))

/-- What the list is for. Not allowed for: a new task where one lies already, deleting a
task that is not listed, destroying one that is, the first task of an empty list. -/
def step (list : Ptr) (p : Pending) : Op → Option (Answer × Pending)
  | .insert a now delay proc userdata arg =>
    if a ≠ NULL ∧ a ≠ list ∧ a ∉ p.ids ++ p.detached then
      some (.task a, { p with
        tasks := p.tasks ++ [⟨a, p.count, procTime now delay, proc, userdata, arg, .valid⟩]
        count := p.count + 1 })
    else none
  | .cancel id =>
    some (.status (if id ∈ p.ids then AWE_OK else -1), { p with tasks := p.tasks.map (mark id) })
  | .del task =>
    if task ∈ p.ids then
      some (.done, { p with
        tasks := p.tasks.filter (fun t => t.id ≠ task)
        detached := task :: p.detached })
    else none
  | .destroy task =>
    if task ∈ p.detached then some (.done, { p with detached := p.detached.erase task }) else none
  | .clear => some (.done, { p with tasks := [] })
  | .first => p.earliest.map (fun t => (.task t.id, p))

end Pending

def TimerTask.record (t : TimerTask) : TaskRecord := ⟨t.procMs, t.proc, t.userdata, t.arg, t.state⟩

def TimerTask.entry (t : TimerTask) : Ptr × TaskRecord := (t.id, t.record)

namespace TaskMem

/-- The list in memory is `queue`: the pending tasks, each once, by deadline and among
equal deadlines by the order of their insertion. -/
structure Queued (m : TaskMem) (list : Ptr) (p : Pending) (queue : TimerTaskList) : Prop where
  holds : m.Holds list (queue.map TimerTask.entry)
  ordered : queue.Pairwise TimerTaskList.Before
  perm : queue.Perm p.tasks
  arrived : p.tasks.Pairwise (fun t u => t.ticket < u.ticket)
  tickets : ∀ t ∈ p.tasks, t.ticket < p.count
  allocated : ∀ a, (m.records a).isSome ↔ a ∈ p.ids ++ p.detached
  apart : (p.ids ++ p.detached).Nodup

theorem entry_addr (queue : TimerTaskList) :
    (queue.map TimerTask.entry).map Prod.fst = queue.map TimerTask.id := by
  rw [List.map_map]
  rfl

theorem queued_init (list : Ptr) : Queued (DList.init list) list Pending.empty [] where
  holds := DList.holds_init list
  ordered := List.Pairwise.nil
  perm := List.Perm.refl _
  arrived := List.Pairwise.nil
  tickets := by simp [Pending.empty]
  allocated := by simp [Pending.empty, Pending.ids, DList.init]
  apart := by simp [Pending.empty, Pending.ids]

section Queued

variable {m m' : TaskMem} {list a task : Ptr} {p : Pending} {queue front rear : TimerTaskList}
  {t : TimerTask}

theorem Queued.mem_ids (h : m.Queued list p queue) : a ∈ queue.map TimerTask.id ↔ a ∈ p.ids :=
  (h.perm.map TimerTask.id).mem_iff

/-- The scan from the tail passes `rear` and stops at the last task of `front`. -/
theorem scan (h : m.Holds list ((front ++ rear).map TimerTask.entry)) (ms : Int)
    (hrear : ∀ y ∈ rear, ms < TimerTaskList.deadline y)
    (hfront : ∀ x ∈ front.getLast?, TimerTaskList.deadline x ≤ ms) :
    ∃ first r, m.next list = some first ∧
      LinkedList.forEach m.rounds (fun _ => m.prev) list () (fun _ pos => do
        let task ← m.records pos
        if ms ≥ task.procMs.ms then (m.next pos).map .inr else some (.inl ())) = some r ∧
      r.elim (fun _ => first) id = ((rear.map TimerTask.entry).map Prod.fst).headD list := by
  have hloop : LinkedList.forEach m.rounds (fun _ => m.prev) list () (fun _ pos => do
        let task ← m.records pos
        if ms ≥ task.procMs.ms then (m.next pos).map .inr else some (.inl ())) =
      some ((((front ++ rear).map TimerTask.entry).reverse.find? (fun e => e.2.procMs.ms ≤ ms)).elim
        (.inl ()) (fun e => .inr ((m.next e.1).getD NULL))) := by
    apply h.find_prev
    intro e he
    obtain ⟨x, hx⟩ := Option.ne_none_iff_exists'.mp
      (h.links (List.mem_cons_of_mem _ (List.mem_map_of_mem he)))
    rw [h.records e he]
    by_cases hle : e.2.procMs.ms ≤ ms <;> simp [hle, hx]
  refine ⟨_, _, h.next_head, hloop, ?_⟩
  have hskip : (rear.map TimerTask.entry).reverse.find? (fun e => e.2.procMs.ms ≤ ms) = none := by
    refine List.find?_eq_none.mpr (fun e he => ?_)
    obtain ⟨y, hy, rfl⟩ := List.mem_map.mp (List.mem_reverse.mp he)
    have hlate := hrear y hy
    exact fun hle => absurd (of_decide_eq_true hle) (not_le.mpr hlate)
  rw [List.map_append, List.reverse_append, List.find?_append, hskip, Option.none_or]
  rcases List.eq_nil_or_concat' front with rfl | ⟨init, x, rfl⟩
  · rfl
  · have hx := hfront x (by simp)
    have hfound : ((init ++ [x]).map TimerTask.entry).reverse.find?
        (fun e => e.2.procMs.ms ≤ ms) = some x.entry := by
      simpa [TimerTask.entry, TimerTask.record, TimerTaskList.deadline] using Or.inl hx
    have hnext := (show m.Holds list (init.map TimerTask.entry ++ x.entry ::
      rear.map TimerTask.entry) by simpa using h).next_mem
    rw [hfound]
    simp [hnext]

theorem Queued.insert (h : m.Queued list p queue) (ha : a ≠ NULL) (hlist : a ≠ list)
    (hfree : a ∉ p.ids ++ p.detached) (now : ClockMs) (delay : DelayMs) (proc userdata : Ptr)
    (arg : Int) (ht : t = ⟨a, p.count, procTime now delay, proc, userdata, arg, .valid⟩) :
    ∃ m', m.insert list a now delay proc userdata arg = some (a, m') ∧
      m'.Queued list { p with tasks := p.tasks ++ [t], count := p.count + 1 }
        (TimerTaskList.insert queue t) := by
  have hid : t.id = a := by rw [ht]
  have hticket : t.ticket = p.count := by rw [ht]
  have hnone : ¬ (m.records a).isSome := fun hs => hfree ((h.allocated a).mp hs)
  obtain ⟨m1, hcreate⟩ : ∃ m1, DList.create m a t.record = some m1 := by
    apply Option.ne_none_iff_exists'.mp
    intro hc
    rcases h.holds.create_none_iff.mp hc with hc | hc | hc
    · exact ha hc
    · exact hlist hc
    · exact hnone hc
  obtain ⟨hm1, hr1, hnew, _, _⟩ := h.holds.create hcreate
  have hrec : m1.records a = some t.record := by simp [hr1]
  obtain ⟨front, rear, hsplit, hins, hrear, hfront⟩ :=
    StableQueue.insert_split TimerTaskList.deadline queue t
  rw [hsplit] at hm1 hnew
  obtain ⟨first, r, hfirst, hscan, hpos⟩ := scan hm1 t.record.procMs.ms hrear hfront
  rw [List.map_append] at hm1 hnew
  obtain ⟨m2, hadd, hm2, hr2, _, _⟩ := hm1.addTail hnew hrec hpos
  refine ⟨m2, ?_, ?_⟩
  · have hrecord : (⟨procTime now delay, proc, userdata, arg, .valid⟩ : TaskRecord) = t.record := by
      rw [ht]
      rfl
    simp only [Option.bind_eq_bind] at hscan
    simp only [TaskMem.insert, hrecord, hcreate, hrec, hfirst, hscan, hadd, Option.bind_eq_bind,
      Option.bind_some]
  · have hqueue : TimerTaskList.insert queue t = front ++ t :: rear := hins
    have hperm : (TimerTaskList.insert queue t).Perm (p.tasks ++ [t]) :=
      (StableQueue.insert_perm queue t).trans
        ((h.perm.cons t).trans (List.perm_append_singleton t p.tasks).symm)
    have harrive : ∀ u ∈ p.tasks, u.ticket < t.ticket := fun u hu => hticket ▸ h.tickets u hu
    refine ⟨?_, ?_, hperm, ?_, ?_, ?_, ?_⟩
    · rw [hqueue, List.map_append, List.map_cons, TimerTask.entry, hid]
      exact hm2
    · exact StableQueue.insert_ordered h.ordered (fun u hu => harrive u (h.perm.mem_iff.mp hu))
    · refine List.pairwise_append.mpr ⟨h.arrived, List.pairwise_singleton _ _, ?_⟩
      intro u hu v hv
      rw [List.mem_singleton.mp hv]
      exact harrive u hu
    · intro u hu
      rcases List.mem_append.mp hu with hu | hu
      · exact Nat.lt_succ_of_lt (h.tickets u hu)
      · rw [List.mem_singleton.mp hu, hticket]
        exact Nat.lt_succ_self _
    · intro b
      rw [hr2, hr1]
      by_cases hb : b = a
      · simp [hb, Pending.ids, hid]
      · rw [Function.update_of_ne hb, h.allocated b]
        simp [Pending.ids, hid, hb]
    · have hmid : (p.ids ++ [a] ++ p.detached).Perm (a :: (p.ids ++ p.detached)) := by
        rw [List.append_assoc]
        exact List.perm_middle
      have hids : Pending.ids { p with tasks := p.tasks ++ [t], count := p.count + 1 } =
          p.ids ++ [a] := by
        simp [Pending.ids, hid]
      rw [hids]
      exact hmid.nodup_iff.mpr (List.nodup_cons.mpr ⟨hfree, h.apart⟩)

/-- Where a task lies in the list, seen from memory. -/
theorem Queued.split (h : m.Queued list p queue) (ha : a ∈ p.ids) :
    ∃ front t rear, queue = front ++ t :: rear ∧ t.id = a ∧ a ∉ (front ++ rear).map TimerTask.id ∧
      m.Holds list (front.map TimerTask.entry ++ t.entry :: rear.map TimerTask.entry) := by
  obtain ⟨t, ht, hid⟩ := List.mem_map.mp (h.mem_ids.mpr ha)
  obtain ⟨front, rear, rfl⟩ := List.append_of_mem ht
  have hholds := h.holds
  have hnodup := hholds.nodup
  rw [entry_addr, List.map_append, List.map_cons] at hnodup
  have hgone := (List.nodup_cons.mp (List.perm_middle.nodup_iff.mp hnodup)).1
  rw [List.map_append, List.map_cons] at hholds
  exact ⟨front, t, rear, rfl, hid, by rwa [List.map_append, ← hid], hholds⟩

theorem filter_split {front rear : TimerTaskList} (hid : t.id = a)
    (hgone : a ∉ (front ++ rear).map TimerTask.id) :
    (front ++ t :: rear).filter (fun u => u.id ≠ a) = front ++ rear := by
  have hkeep : ∀ u ∈ front ++ rear, u.id ≠ a := by
    intro u hu he
    exact hgone (he ▸ List.mem_map_of_mem hu)
  rw [List.filter_append, List.filter_cons_of_neg (by simpa using hid), ← List.filter_append]
  exact List.filter_eq_self.mpr (fun u hu => by simpa using hkeep u hu)

theorem mark_split {front rear : TimerTaskList} (hid : t.id = a)
    (hgone : a ∉ (front ++ rear).map TimerTask.id) :
    (front ++ t :: rear).map (Pending.mark a) =
      front ++ { t with state := .invalid } :: rear := by
  have hkeep : ∀ us : TimerTaskList, us ⊆ front ++ rear → us.map (Pending.mark a) = us := by
    intro us hus
    refine (List.map_congr_left (g := id) (fun u hu => ?_)).trans (List.map_id us)
    have hne : u.id ≠ a := fun he => hgone (he ▸ List.mem_map_of_mem (hus hu))
    simp [Pending.mark, hne]
  rw [List.map_append, List.map_cons, hkeep front (List.subset_append_left _ _),
    hkeep rear (List.subset_append_right _ _)]
  simp [Pending.mark, hid]

theorem Queued.del (h : m.Queued list p queue) (ha : a ∈ p.ids) :
    ∃ m' : TaskMem, DList.del m a = some m' ∧
      m'.Queued list { p with
        tasks := p.tasks.filter (fun u => u.id ≠ a), detached := a :: p.detached }
        (queue.filter (fun u => u.id ≠ a)) := by
  obtain ⟨front, t, rear, rfl, hid, hgone, hholds⟩ := h.split ha
  obtain ⟨m', hdel, hm', hr, _, _⟩ := hholds.del
  rw [show t.entry.1 = a from hid] at hdel
  have hids : (p.tasks.filter (fun u => u.id ≠ a)).map TimerTask.id = p.ids.erase a := by
    have hnodup : p.ids.Nodup := (List.nodup_append.mp h.apart).1
    rw [hnodup.erase_eq_filter, Pending.ids, List.filter_map]
    congr 2
    funext u
    by_cases hu : u.id = a <;> simp [hu]
  have hperm : (p.ids.erase a ++ a :: p.detached).Perm (p.ids ++ p.detached) :=
    List.perm_middle.trans ((List.perm_cons_erase ha).symm.append_right _)
  have hapart := h.apart
  refine ⟨m', hdel, ?_, h.ordered.sublist List.filter_sublist, h.perm.filter _,
    h.arrived.sublist List.filter_sublist, ?_, ?_, ?_⟩
  · rw [filter_split hid hgone, List.map_append]
    exact hm'
  · exact fun u hu => h.tickets u (List.mem_of_mem_filter hu)
  · intro b
    rw [hr, h.allocated b, ← hperm.mem_iff, ← hids]
    rfl
  · rw [← hperm.nodup_iff, ← hids] at hapart
    exact hapart

theorem Queued.destroy (h : m.Queued list p queue) (ha : a ∈ p.detached) :
    ∃ m' : TaskMem, DList.free m a = some m' ∧
      m'.Queued list { p with detached := p.detached.erase a } queue := by
  obtain ⟨_, hnodup, hdisjoint⟩ := List.nodup_append.mp h.apart
  have hunlisted : a ∉ p.ids := fun hm => hdisjoint a hm a ha rfl
  obtain ⟨r, hr⟩ := Option.isSome_iff_exists.mp ((h.allocated a).mpr (List.mem_append_right _ ha))
  obtain ⟨m', hfree, hm', hrec, _, _⟩ := h.holds.free (a := a)
    (by rwa [entry_addr, h.mem_ids]) hr
  have hsub : (p.ids ++ p.detached.erase a).Sublist (p.ids ++ p.detached) :=
    List.erase_sublist.append_left _
  refine ⟨m', hfree, hm', h.ordered, h.perm, h.arrived, h.tickets, ?_, h.apart.sublist hsub⟩
  intro b
  rw [hrec]
  by_cases hb : b = a
  · have hgone : b ∉ p.ids ++ p.detached.erase a := by
      rw [List.mem_append, not_or]
      exact ⟨hb ▸ hunlisted, hb ▸ hnodup.not_mem_erase⟩
    exact iff_of_false (by simp [hb]) hgone
  · have hall := h.allocated b
    simp only [Pending.ids, List.mem_append] at hall ⊢
    rw [Function.update_of_ne hb, hall, List.mem_erase_of_ne hb]

theorem Queued.clear (h : m.Queued list p queue) :
    ∃ m', m.clear list = some m' ∧ m'.Queued list { p with tasks := [] } [] := by
  obtain ⟨pos, n, m', hpos, hn, hloop, hm', hrec⟩ := h.holds.clearLoop h.holds.length_lt
  refine ⟨m', ?_, hm', List.Pairwise.nil, List.Perm.refl _, List.Pairwise.nil, by simp, ?_, ?_⟩
  · simp [TaskMem.clear, LinkedList.forEachSafe, hpos, hn, hloop]
  · intro b
    obtain ⟨_, _, hdisjoint⟩ := List.nodup_append.mp h.apart
    rw [hrec, entry_addr]
    split
    · rename_i hb
      simpa [Pending.ids] using fun hd => hdisjoint b (h.mem_ids.mp hb) b hd rfl
    · rename_i hb
      rw [h.mem_ids] at hb
      rw [h.allocated b, List.mem_append]
      exact ⟨fun hm => hm.resolve_left hb, Or.inr⟩
  · simpa [Pending.ids] using (List.nodup_append.mp h.apart).2.1

/-- A mark changes neither where a task is nor when it is due. -/
theorem Queued.mark (h : m.Queued list p queue) (id : Ptr)
    (hm : m'.Holds list ((queue.map (Pending.mark id)).map TimerTask.entry))
    (hr : ∀ a, (m'.records a).isSome ↔ (m.records a).isSome) :
    m'.Queued list { p with tasks := p.tasks.map (Pending.mark id) }
      (queue.map (Pending.mark id)) := by
  have hkeep : ∀ t, (Pending.mark id t).id = t.id ∧ (Pending.mark id t).ticket = t.ticket ∧
      TimerTaskList.deadline (Pending.mark id t) = TimerTaskList.deadline t := by
    intro t
    unfold Pending.mark
    split <;> exact ⟨rfl, rfl, rfl⟩
  have hids : (p.tasks.map (Pending.mark id)).map TimerTask.id = p.ids := by
    rw [List.map_map]
    exact List.map_congr_left (fun t _ => (hkeep t).1)
  refine ⟨hm, ?_, h.perm.map _, ?_, ?_, ?_, ?_⟩
  · refine List.pairwise_map.mpr (h.ordered.imp (fun {t u} htu => ?_))
    unfold TimerTaskList.Before StableQueue.Before at htu ⊢
    rwa [(hkeep t).2.2, (hkeep u).2.2, (hkeep t).2.1, (hkeep u).2.1]
  · refine List.pairwise_map.mpr (h.arrived.imp (fun {t u} htu => ?_))
    rwa [(hkeep t).2.1, (hkeep u).2.1]
  · intro t ht
    obtain ⟨u, hu, rfl⟩ := List.mem_map.mp ht
    rw [(hkeep u).2.1]
    exact h.tickets u hu
  · intro a
    rw [hr, h.allocated, ← hids]
    rfl
  · have hapart := h.apart
    rw [← hids] at hapart
    exact hapart

theorem Queued.cancel (h : m.Queued list p queue) (task : Ptr) :
    ∃ m', m.cancel list task = some (if task ∈ p.ids then AWE_OK else -1, m') ∧
      m'.Queued list { p with tasks := p.tasks.map (Pending.mark task) }
        (queue.map (Pending.mark task)) := by
  have hloop : LinkedList.forEach m.rounds (fun _ => m.prev) list ()
      (fun _ pos => some (if task = pos then .inr pos else .inl ())) =
      some (((queue.map TimerTask.entry).reverse.find? (fun e => task = e.1)).elim
        (.inl ()) (fun e => .inr e.1)) :=
    h.holds.find_prev (fun e _ => by simp)
  by_cases hid : task ∈ p.ids
  · obtain ⟨front, t, rear, rfl, ht, hgone, hholds⟩ := h.split hid
    obtain ⟨e, he⟩ : ∃ e, ((front ++ t :: rear).map TimerTask.entry).reverse.find?
        (fun e => task = e.1) = some e := by
      apply Option.ne_none_iff_exists'.mp
      intro hnone
      have := List.find?_eq_none.mp hnone t.entry (by simp)
      simp [TimerTask.entry, ht] at this
    have hfound : task = e.1 := by simpa using List.find?_some he
    obtain ⟨m', hmod, hm', hr, _, _⟩ := hholds.modify (fun t => { t with state := .invalid })
    rw [ht] at hmod hr hm'
    refine ⟨m', ?_, h.mark task ?_ ?_⟩
    · rw [he] at hloop
      simp [TaskMem.cancel, hloop, ← hfound, hmod, hid]
    · rw [mark_split ht hgone, List.map_append, List.map_cons, TimerTask.entry, ht]
      exact hm'
    · intro a
      rw [hr]
      by_cases ha : a = task
      · have := (h.allocated task).mpr (List.mem_append_left _ hid)
        simp [ha, this]
      · simp [ha]
  · have hnone : (queue.map TimerTask.entry).reverse.find? (fun e => task = e.1) = none := by
      refine List.find?_eq_none.mpr (fun e he => ?_)
      obtain ⟨t, ht, rfl⟩ := List.mem_map.mp (List.mem_reverse.mp he)
      have hne : task ≠ t.id := fun heq => hid (h.mem_ids.mp (heq ▸ List.mem_map_of_mem ht))
      exact fun heq => hne (of_decide_eq_true heq)
    have hsame : queue.map (Pending.mark task) = queue := by
      refine (List.map_congr_left (g := id) (fun t ht => ?_)).trans (List.map_id queue)
      have hne : t.id ≠ task := fun heq => hid (h.mem_ids.mp (heq ▸ List.mem_map_of_mem ht))
      simp [Pending.mark, hne]
    refine ⟨m, ?_, h.mark task ?_ (fun a => Iff.rfl)⟩
    · rw [hnone] at hloop
      simp [TaskMem.cancel, hloop, hid]
    · rw [hsame]
      exact h.holds

/-- The first task is the earliest inserted one of least `_proc_ms`. -/
theorem Queued.first (h : m.Queued list p queue) (ht : p.earliest = some t) :
    m.first list = some t.id := by
  obtain ⟨hall, front, rear, hsplit, hfront⟩ := List.find?_eq_some_iff_append.mp ht
  have hleast : ∀ v ∈ p.tasks, TimerTaskList.deadline t ≤ TimerTaskList.deadline v := by
    simpa using hall
  have hmem : t ∈ p.tasks := by simp [hsplit]
  have hnext := h.holds.next_head
  cases queue with
  | nil => exact absurd (h.perm.symm.mem_iff.mp hmem) List.not_mem_nil
  | cons u rest =>
    have hu : u ∈ p.tasks := h.perm.mem_iff.mp List.mem_cons_self
    suffices hut : u = t by
      rw [← hut]
      exact hnext
    by_contra hne
    have hrest : t ∈ rest :=
      (List.mem_cons.mp (h.perm.symm.mem_iff.mp hmem)).resolve_left (Ne.symm hne)
    rcases (List.pairwise_cons.mp h.ordered).1 t hrest with hlt | ⟨heq, hticket⟩
    · have hle := hleast u hu
      omega
    · have harrived := h.arrived
      rw [hsplit] at hu harrived
      rcases List.mem_append.mp hu with hin | hin
      · -- a task as urgent as `t` and inserted before it would have been found first
        have hlater := hfront u hin
        rw [Bool.not_eq_true', List.all_eq_false] at hlater
        obtain ⟨v, hv, hgt⟩ := hlater
        have hle := hleast v hv
        simp only [decide_eq_true_eq] at hgt
        omega
      · have hin := (List.mem_cons.mp hin).resolve_left hne
        have hticket' := (List.pairwise_cons.mp (List.pairwise_append.mp harrived).2.1).1 u hin
        exact Nat.lt_asymm hticket hticket'

end Queued

/-- Each operation on the pointers does what it does to the pending tasks. -/
theorem implements_pending (list : Ptr) :
    Transducer.Implements (step list) (Pending.step list)
      (fun m p => ∃ queue, m.Queued list p queue) := by
  intro m p op answer p' hrel hspec
  obtain ⟨queue, h⟩ := hrel
  cases op with
  | insert a now delay proc userdata arg =>
    simp only [Pending.step] at hspec
    split at hspec
    · rename_i hok
      cases hspec
      obtain ⟨m', hm, hq⟩ := h.insert hok.1 hok.2.1 hok.2.2 now delay proc userdata arg rfl
      exact ⟨m', by rw [step, hm]; rfl, _, hq⟩
    · cases hspec
  | cancel id =>
    cases hspec
    obtain ⟨m', hm, hq⟩ := h.cancel id
    exact ⟨m', by rw [step, hm]; rfl, _, hq⟩
  | del task =>
    simp only [Pending.step] at hspec
    split at hspec
    · rename_i hok
      cases hspec
      obtain ⟨m', hm, hq⟩ := h.del hok
      exact ⟨m', by rw [step, hm]; rfl, _, hq⟩
    · cases hspec
  | destroy task =>
    simp only [Pending.step] at hspec
    split at hspec
    · rename_i hok
      cases hspec
      obtain ⟨m', hm, hq⟩ := h.destroy hok
      exact ⟨m', by rw [step, hm]; rfl, _, hq⟩
    · cases hspec
  | clear =>
    cases hspec
    obtain ⟨m', hm, hq⟩ := h.clear
    exact ⟨m', by rw [step, hm]; rfl, _, hq⟩
  | first =>
    obtain ⟨t, ht, he⟩ := Option.map_eq_some_iff.mp hspec
    cases he
    exact ⟨m, by rw [step, h.first ht]; rfl, queue, h⟩

/-- A run over the pointers answers as the pending tasks say, and what is in memory is
one ring of them: by deadline, and among equal deadlines in the order of insertion. -/
theorem queue_is_stable (list : Ptr) (ops : List Op) (answers : List Answer) (p : Pending)
    (h : Transducer.exec (Pending.step list) Pending.empty ops = some (answers, p)) :
    ∃ m queue, Transducer.exec (step list) (DList.init list) ops = some (answers, m) ∧
      m.Queued list p queue := by
  obtain ⟨m, hm, queue, hq⟩ := (implements_pending list).exec ⟨[], queued_init list⟩ h
  exact ⟨m, queue, hm, hq⟩

/-- Two tasks for one time, one before them by a clock that went back, and the first of
the two deleted. -/
def clockBack : List Op :=
  [.insert 100 (timeMs 5000000) (DelayMs.ofInt32 1000) 7 0 1,
    .insert 101 (timeMs 4000000) (DelayMs.ofInt32 2000) 7 0 2,
    .insert 102 (timeMs 1000000) (DelayMs.ofInt32 (-500)) 7 0 3,
    .first, .cancel 101, .del 102, .first, .destroy 102, .del 100, .first, .clear]

theorem clock_back_in_order : ∃ m p queue,
    Transducer.exec (step 50) (DList.init 50) clockBack =
      some ([.task 100, .task 101, .task 102, .task 102, .status AWE_OK, .done, .task 100, .done,
        .done, .task 101, .done], m) ∧
      m.Queued 50 p queue := by
  obtain ⟨m, queue, hm, hq⟩ := queue_is_stable 50 clockBack _ _ rfl
  exact ⟨m, _, queue, hm, hq⟩

end TaskMem

end Awe
