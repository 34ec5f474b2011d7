import Awe.Ledger
import Awe.TimerTask.Links

namespace Awe

namespace TaskMem

/-- What a worker does with its tasks: an operation on the list, the test whether it is
empty, and the reads of a task's fields. -/
inductive Access where
  | op (op : Op)
  | empty
  | load (task : Ptr)

inductive Found where
  | answer (answer : Answer)
  | bool (b : Bool)
  | record (r : TaskRecord)
  deriving DecidableEq

/-- `none` where it touches what is no task, or what has been freed. -/
def access (list : Ptr) (m : TaskMem) : Access → Option (Found × TaskMem)
  | .op op => (step list m op).map (fun r => (.answer r.1, r.2))
  | .empty => (m.heads.listEmpty list).map (fun b => (.bool b, m))
  | .load task => (m.records task).map (fun r => (.record r, m))

end TaskMem

/-- The tasks of a service in memory: the pending ones are what the list holds, the one in
the worker's hand is off it and untouched, and nothing else is allocated. -/
structure TaskMem.Keeps (m : TaskMem) (list : Ptr) (l : Ledger) (p : Pending) : Prop where
  queued : m.Queued list p l.pending
  detached : p.detached = l.hand.tasks.map TimerTask.id
  count : p.count = l.posted.length
  held : ∀ t ∈ l.hand.tasks, m.records t.id = some t.record

theorem DList.create_records {ρ : Type} {m m' : DList ρ} {a : Ptr} {r : ρ}
    (h : m.create a r = some m') : m'.records = Function.update m.records a (some r) := by
  unfold DList.create at h
  split at h <;> cases h
  rfl

theorem DList.addTail_records {ρ : Type} {m m' : DList ρ} {node pos : Ptr}
    (h : m.addTail node pos = some m') : m'.records = m.records := by
  obtain ⟨heads, _, rfl⟩ := Option.map_eq_some_iff.mp h
  rfl

theorem DList.del_records {ρ : Type} {m m' : DList ρ} {entry : Ptr}
    (h : m.del entry = some m') : m'.records = m.records := by
  obtain ⟨heads, _, rfl⟩ := Option.map_eq_some_iff.mp h
  rfl

namespace TaskMem

variable {m m' : TaskMem} {list a b id : Ptr} {items : List (Ptr × TaskRecord)}

theorem insert_records {now : ClockMs} {delay : DelayMs} {proc userdata : Ptr} {arg : Int}
    (h : m.insert list a now delay proc userdata arg = some (b, m')) {c : Ptr} (hc : c ≠ a) :
    m'.records c = m.records c := by
  simp only [TaskMem.insert, Option.bind_eq_bind, Option.bind_eq_some_iff, Option.some.injEq,
    Prod.mk.injEq] at h
  obtain ⟨m1, hcreate, _, _, _, _, _, _, m2, hadd, _, rfl⟩ := h
  rw [DList.addTail_records hadd, DList.create_records hcreate, Function.update_of_ne hc]

theorem cancel_records (h : m.Holds list items) {status : Status}
    (hc : m.cancel list id = some (status, m')) (hb : b ∉ items.map Prod.fst) :
    m'.records b = m.records b := by
  have hloop : LinkedList.forEach m.rounds (fun _ => m.prev) list ()
      (fun _ pos => some (if id = pos then .inr pos else .inl ())) =
      some ((items.reverse.find? (fun e => id = e.1)).elim (.inl ()) (fun e => .inr e.1)) :=
    h.find_prev (fun e _ => by simp)
  simp only [TaskMem.cancel, hloop, Option.bind_eq_bind, Option.bind_some] at hc
  cases hfind : items.reverse.find? (fun e => id = e.1) with
  | none =>
    rw [hfind] at hc
    cases hc
    rfl
  | some e =>
    have hmem : e ∈ items := List.mem_reverse.mp (List.mem_of_find?_eq_some hfind)
    have hne : b ≠ e.1 := by
      intro he
      exact hb (he ▸ List.mem_map_of_mem hmem)
    rw [hfind] at hc
    obtain ⟨m1, hm1, hdone⟩ := Option.bind_eq_some_iff.mp hc
    obtain ⟨r, _, rfl⟩ := Option.map_eq_some_iff.mp hm1
    cases hdone
    exact Function.update_of_ne hne _ _

theorem clear_records (h : m.Holds list items) (hc : m.clear list = some m')
    (hb : b ∉ items.map Prod.fst) : m'.records b = m.records b := by
  obtain ⟨pos, n, m1, hpos, hn, hloop, _, hrec⟩ := h.clearLoop h.length_lt
  have hclear : m.clear list = some m1 := by
    simp [TaskMem.clear, LinkedList.forEachSafe, hpos, hn, hloop]
  cases hc.symm.trans hclear
  rw [hrec, if_neg hb]

end TaskMem

namespace TimerTaskList

theorem cancel_status (list : TimerTaskList) (id : Ptr) :
    (cancel list id).1 = if id ∈ list.map TimerTask.id then AWE_OK else -1 := by
  have hiff : (cancel list id).1 = AWE_OK ↔ id ∈ list.map TimerTask.id := by
    rw [cancel_ok_iff, List.mem_map]
  by_cases hid : id ∈ list.map TimerTask.id
  · rw [if_pos hid]
    exact hiff.mpr hid
  · have hfail : (cancel list id).1 ≠ AWE_OK := fun hok => hid (hiff.mp hok)
    rw [if_neg hid]
    unfold cancel at hfail ⊢
    split
    · rename_i hs
      exact absurd (by rw [hs]) hfail
    · rfl

/-- A list whose tasks lie apart has no two tasks of one id to tell apart. -/
theorem cancel_eq_mark {list : TimerTaskList} (hn : (list.map TimerTask.id).Nodup) (id : Ptr) :
    (cancel list id).2 = list.map (Pending.mark id) := by
  by_cases hok : (cancel list id).1 = AWE_OK
  · obtain ⟨front, t, rear, rfl, ht, hlist⟩ := cancel_ok (Prod.ext hok rfl)
    rw [List.map_append, List.map_cons] at hn
    have hgone := (List.nodup_cons.mp (List.perm_middle.nodup_iff.mp hn)).1
    exact hlist.trans (TaskMem.mark_split ht (by rwa [List.map_append, ← ht])).symm
  · obtain ⟨hsame, hother⟩ := cancel_fail hok
    rw [hsame]
    refine ((List.map_congr_left (fun t ht => ?_)).trans (List.map_id list)).symm
    simp [Pending.mark, hother t ht]

end TimerTaskList

namespace TaskMem

section Keeps

variable {m : TaskMem} {list : Ptr} {l l' : Ledger} {p : Pending} {task : TimerTask}
  {rest : TimerTaskList}

theorem keeps_init (list : Ptr) : Keeps (DList.init list) list Ledger.empty Pending.empty where
  queued := queued_init list
  detached := rfl
  count := rfl
  held := by simp [Ledger.empty, Hand.tasks]

/-- Memory knows nothing of what has been run and destroyed. -/
theorem Keeps.congr (h : m.Keeps list l p) (hpending : l'.pending = l.pending)
    (hhand : l'.hand.tasks = l.hand.tasks) (hposted : l'.posted = l.posted) :
    m.Keeps list l' p where
  queued := hpending ▸ h.queued
  detached := hhand ▸ h.detached
  count := hposted ▸ h.count
  held := hhand ▸ h.held

theorem Keeps.ids (h : m.Keeps list l p) {a : Ptr} :
    a ∈ p.ids ++ p.detached ↔ a ∈ l.allocated.map TimerTask.id := by
  rw [List.mem_append, ← h.queued.mem_ids, h.detached, Ledger.allocated, List.map_append,
    List.mem_append]

/-- What is allocated are the tasks of the ledger. -/
theorem Keeps.allocated (h : m.Keeps list l p) (a : Ptr) :
    (m.records a).isSome ↔ a ∈ l.allocated.map TimerTask.id := by
  rw [h.queued.allocated, h.ids]

theorem Keeps.not_listed (h : m.Keeps list l p) (ht : task ∈ l.hand.tasks) :
    task.id ∉ l.pending.map TimerTask.id := by
  have hdetached : task.id ∈ p.detached := h.detached ▸ List.mem_map_of_mem ht
  intro hlisted
  exact (List.nodup_append.mp h.queued.apart).2.2 task.id (h.queued.mem_ids.mp hlisted) task.id
    hdetached rfl

theorem Keeps.nodup (h : m.Keeps list l p) : (l.pending.map TimerTask.id).Nodup := by
  have hnodup := h.queued.holds.nodup
  rwa [entry_addr] at hnodup

theorem Keeps.empty (h : m.Keeps list l p) :
    access list m .empty = some (.bool (decide (l.pending = [])), m) := by
  have hnext := h.queued.holds.next_head
  rw [entry_addr] at hnext
  have hhead := h.queued.holds.head_notMem
  rw [entry_addr] at hhead
  have hempty : (l.pending.map TimerTask.id).headD list = list ↔ l.pending = [] := by
    cases hl : l.pending with
    | nil => simp
    | cons t rest =>
      rw [hl] at hhead
      simpa using fun he => hhead (by simp [he])
  simp only [DList.next] at hnext
  simp only [access, LinkedList.listEmpty, hnext, Option.map_some, decide_eq_decide.mpr hempty]

/-- The first entry of an empty list is the list itself. -/
theorem Keeps.first (h : m.Keeps list l p) :
    access list m (.op .first) =
      some (.answer (.task ((l.pending.map TimerTask.id).headD list)), m) := by
  have hnext := h.queued.holds.next_head
  rw [entry_addr] at hnext
  simp [access, step, TaskMem.first, hnext]

/-- The list is no task. -/
theorem Keeps.load_list (h : m.Keeps list l p) : access list m (.load list) = none := by
  simp [access, h.queued.holds.head]

theorem Keeps.load (h : m.Keeps list l p) (ht : task ∈ l.allocated) :
    access list m (.load task.id) = some (.record task.record, m) := by
  have hrecord : m.records task.id = some task.record := by
    rcases List.mem_append.mp ht with ht | ht
    · exact h.queued.holds.records task.entry (List.mem_map_of_mem ht)
    · exact h.held task ht
  simp [access, hrecord]

theorem Keeps.post (h : m.Keeps list l p) {post : Post} (hnull : post.id ≠ NULL)
    (hlist : post.id ≠ list) (hnew : post.id ∉ l.allocated.map TimerTask.id) :
    ∃ m' q, access list m (.op (.insert post.id post.now post.delay post.proc post.userdata
        post.arg)) = some (.answer (.task post.id), m') ∧
      m'.Keeps list { l with
        pending := l.pending.insert (post.task l.posted.length)
        posted := l.posted ++ [post.task l.posted.length] } q := by
  have hfree : post.id ∉ p.ids ++ p.detached := fun hm => hnew (h.ids.mp hm)
  obtain ⟨m', hm, hq⟩ := h.queued.insert hnull hlist hfree post.now post.delay post.proc
    post.userdata post.arg rfl
  rw [h.count] at hq
  refine ⟨m', _, by simp [access, step, hm], hq, h.detached, by simp, ?_⟩
  intro t ht
  have hne : t.id ≠ post.id := by
    intro he
    exact hnew (he ▸ List.mem_map_of_mem (List.mem_append_right _ ht))
  rw [insert_records hm hne]
  exact h.held t ht

theorem Keeps.cancel (h : m.Keeps list l p) (id : Ptr) :
    ∃ m' q, access list m (.op (.cancel id)) =
        some (.answer (.status (l.pending.cancel id).1), m') ∧
      m'.Keeps list { l with pending := (l.pending.cancel id).2 } q := by
  obtain ⟨m', hm, hq⟩ := h.queued.cancel id
  have hstatus : (l.pending.cancel id).1 = if id ∈ p.ids then AWE_OK else -1 := by
    rw [TimerTaskList.cancel_status]
    exact if_congr h.queued.mem_ids rfl rfl
  rw [← TimerTaskList.cancel_eq_mark h.nodup] at hq
  refine ⟨m', _, by simp [access, step, hm, hstatus], hq, h.detached, h.count, ?_⟩
  intro t ht
  rw [cancel_records h.queued.holds hm (by rw [entry_addr]; exact h.not_listed ht)]
  exact h.held t ht

/-- The first task leaves the list for the worker's hand. -/
theorem Keeps.pop (h : m.Keeps list l p) (hhand : l.hand = .empty)
    (hpending : l.pending = task :: rest) :
    ∃ m' q, access list m (.op (.del task.id)) = some (.answer .done, m') ∧
      m'.Keeps list { l with pending := rest, hand := .fetched task } q := by
  have hmem : task.id ∈ p.ids := h.queued.mem_ids.mp (by simp [hpending])
  have hrecord : m.records task.id = some task.record :=
    h.queued.holds.records task.entry (by simp [hpending])
  have hrest : l.pending.filter (fun u => u.id ≠ task.id) = rest := by
    have hnodup := h.nodup
    rw [hpending, List.map_cons] at hnodup
    have hfilter : ([] ++ task :: rest).filter (fun u => u.id ≠ task.id) = [] ++ rest :=
      filter_split rfl (List.nodup_cons.mp hnodup).1
    rw [hpending]
    exact hfilter
  obtain ⟨m', hm, hq⟩ := h.queued.del hmem
  rw [hrest] at hq
  refine ⟨m', _, by simp [access, step, hm], hq, ?_, h.count, ?_⟩
  · simp [h.detached, hhand, Hand.tasks]
  · intro t ht
    rw [DList.del_records hm]
    cases List.mem_singleton.mp ht
    exact hrecord

theorem Keeps.destroy (h : m.Keeps list l p) (hhand : l.hand.tasks = [task])
    (destroyed : List Nat) :
    ∃ m' q, access list m (.op (.destroy task.id)) = some (.answer .done, m') ∧
      m'.Keeps list { l with hand := .empty, destroyed := destroyed } q := by
  have hdetached : p.detached = [task.id] := by rw [h.detached, hhand, List.map_singleton]
  obtain ⟨m', hm, hq⟩ := h.queued.destroy (hdetached ▸ List.mem_singleton_self task.id)
  refine ⟨m', _, by simp [access, step, hm], hq, ?_, h.count, ?_⟩
  · simp [hdetached, Hand.tasks]
  · simp [Hand.tasks]

theorem Keeps.clear (h : m.Keeps list l p) (destroyed : List Nat) :
    ∃ m' q, access list m (.op .clear) = some (.answer .done, m') ∧
      m'.Keeps list { l with pending := [], destroyed := destroyed } q := by
  obtain ⟨m', hm, hq⟩ := h.queued.clear
  refine ⟨m', _, by simp [access, step, hm], hq, h.detached, h.count, ?_⟩
  intro t ht
  rw [clear_records h.queued.holds hm (by rw [entry_addr]; exact h.not_listed ht)]
  exact h.held t ht

end Keeps

end TaskMem

end Awe
