import Mathlib.Data.Int.Order.Basic
import Mathlib.Data.List.Nodup
import Awe.CTypes
import Awe.Lib.StableQueue

namespace Awe

/-- A reading of `awe_time_ms`: an `int64_t` of microseconds divided by 1000. The
clock is `CLOCK_REALTIME` and may step either way between two readings. -/
structure ClockMs where
  ms : Int
  low : -9223372036854775 ≤ ms
  high : ms ≤ 9223372036854775
  deriving DecidableEq

theorem tdiv_thousand (us : Int) : us.tdiv 1000 = us / 1000 + if 0 ≤ us ∨ 1000 ∣ us then 0 else 1 :=
  Int.tdiv_eq_ediv

/-- `awe_time_ms`, from the `int64_t` of `awe_time_us`. -/
def timeMs (us : BitVec 64) : ClockMs where
  ms := us.toInt.tdiv 1000
  low := by
    have := us.le_toInt
    rw [tdiv_thousand]
    split <;> omega
  high := by
    have := us.toInt_lt
    rw [tdiv_thousand]
    split <;> omega

structure DelayMs where
  ms : Int
  low : -2147483648 ≤ ms
  high : ms ≤ 2147483647
  deriving DecidableEq

def DelayMs.ofInt32 (delay : BitVec 32) : DelayMs where
  ms := delay.toInt
  low := delay.le_toInt
  high := Int.le_of_lt_add_one delay.toInt_lt

/-- The `_proc_ms` of a task: a clock reading plus a delay. -/
structure ProcMs where
  ms : Int
  low : -9223374184338423 ≤ ms
  high : ms ≤ 9223374184338422
  deriving DecidableEq

/-- `now_time + delay_ms`, an `int64_t` sum. -/
def procTime (now : ClockMs) (delay : DelayMs) : ProcMs :=
  have hn := now.low
  have hn' := now.high
  have hd := delay.low
  have hd' := delay.high
  { ms := int64 (now.ms + delay.ms)
    low := by rw [int64_of_range (by omega) (by omega)]; omega
    high := by rw [int64_of_range (by omega) (by omega)]; omega }

theorem procTime_ms (now : ClockMs) (delay : DelayMs) :
    (procTime now delay).ms = now.ms + delay.ms := by
  have := now.low
  have := now.high
  have := delay.low
  have := delay.high
  exact int64_of_range (by omega) (by omega)

/-- `_proc_ms - now_time`, an `int64_t` difference. -/
def ProcMs.remaining (procMs : ProcMs) (now : ClockMs) : Int := int64 (procMs.ms - now.ms)

theorem ProcMs.remaining_eq (procMs : ProcMs) (now : ClockMs) :
    procMs.remaining now = procMs.ms - now.ms := by
  have := now.low
  have := now.high
  have := procMs.low
  have := procMs.high
  exact int64_of_range (by omega) (by omega)

inductive TaskState where
  | valid
  | invalid
  deriving DecidableEq

/-- `struct timer_task`: `id` is its address, which is also the id handed to the
poster; `ticket` is the number of the post that created it. -/
structure TimerTask where
  id : Ptr
  ticket : Nat
  procMs : ProcMs
  proc : Ptr
  userdata : Ptr
  arg : Int
  state : TaskState
  deriving DecidableEq

/-- What the poster asked for, whatever has become of the task since. -/
def TimerTask.SameWork (t u : TimerTask) : Prop :=
  t.id = u.id ∧ t.ticket = u.ticket ∧ t.procMs = u.procMs ∧ t.proc = u.proc ∧
    t.userdata = u.userdata ∧ t.arg = u.arg

theorem TimerTask.SameWork.refl (t : TimerTask) : t.SameWork t := ⟨rfl, rfl, rfl, rfl, rfl, rfl⟩

/-- `timer_task_list`, front first. -/
abbrev TimerTaskList := List TimerTask

namespace TimerTaskList

def deadline (t : TimerTask) : Int := t.procMs.ms

/-- `timer_task_list_insert`: the scan from the tail stops behind the first task
that is due no later, and falls back to the front. -/
def insert (list : TimerTaskList) (task : TimerTask) : TimerTaskList :=
  StableQueue.insert deadline list task

/-- The loop of `timer_task_list_cancel` over the tasks from the tail. -/
def cancelScan (id : Ptr) : List TimerTask → Option (List TimerTask)
  | [] => none
  | t :: ts =>
    if id = t.id then some ({ t with state := .invalid } :: ts)
    else (cancelScan id ts).map (t :: ·)

/-- The returned status and the list with the task found marked. -/
def cancel (list : TimerTaskList) (id : Ptr) : Status × TimerTaskList :=
  match cancelScan id list.reverse with
  | some back => (AWE_OK, back.reverse)
  | none => (-1, list)

/-- Due before, or at the same time and posted earlier. -/
abbrev Before (t u : TimerTask) : Prop := StableQueue.Before deadline TimerTask.ticket t u

theorem cancelScan_none {id : Ptr} {back : List TimerTask} (h : cancelScan id back = none) :
    ∀ t ∈ back, id ≠ t.id := by
  induction back with
  | nil => simp
  | cons u us ih =>
    unfold cancelScan at h
    split at h
    · cases h
    · rename_i hne
      intro t ht
      rcases List.mem_cons.mp ht with rfl | ht
      · exact hne
      · exact ih (by simpa using h) t ht

theorem cancelScan_some {id : Ptr} {back back' : List TimerTask}
    (h : cancelScan id back = some back') :
    ∃ front t rear, back = front ++ t :: rear ∧ t.id = id ∧
      back' = front ++ { t with state := .invalid } :: rear := by
  induction back generalizing back' with
  | nil => cases h
  | cons u us ih =>
    unfold cancelScan at h
    split at h
    · rename_i he
      cases h
      exact ⟨[], u, us, rfl, he.symm, rfl⟩
    · obtain ⟨ts, hts, rfl⟩ := Option.map_eq_some_iff.mp h
      obtain ⟨front, t, rear, rfl, ht, rfl⟩ := ih hts
      exact ⟨u :: front, t, rear, rfl, ht, rfl⟩

/-- A cancel that reports success has marked one task of that id and nothing else. -/
theorem cancel_ok {list list' : TimerTaskList} {id : Ptr} (h : cancel list id = (AWE_OK, list')) :
    ∃ front t rear, list = front ++ t :: rear ∧ t.id = id ∧
      list' = front ++ { t with state := .invalid } :: rear := by
  unfold cancel at h
  split at h
  · rename_i back hs
    obtain ⟨front, t, rear, hb, ht, hb'⟩ := cancelScan_some hs
    simp only [Prod.mk.injEq, true_and] at h
    refine ⟨rear.reverse, t, front.reverse, ?_, ht, ?_⟩
    · rw [← List.reverse_reverse list, hb]
      simp
    · rw [← h, hb']
      simp
  · simp [AWE_OK] at h

/-- A cancel that fails found no task of that id and changed nothing. -/
theorem cancel_fail {list : TimerTaskList} {id : Ptr} (h : (cancel list id).1 ≠ AWE_OK) :
    (cancel list id).2 = list ∧ ∀ t ∈ list, t.id ≠ id := by
  unfold cancel at h ⊢
  split at h
  · exact absurd rfl h
  · rename_i hs
    exact ⟨rfl, fun t ht => (cancelScan_none hs t (List.mem_reverse.mpr ht)).symm⟩

theorem cancel_ok_iff {list : TimerTaskList} {id : Ptr} :
    (cancel list id).1 = AWE_OK ↔ ∃ t ∈ list, t.id = id := by
  constructor
  · intro h
    have hc : cancel list id = (AWE_OK, (cancel list id).2) := Prod.ext h rfl
    obtain ⟨front, t, rear, rfl, ht, _⟩ := cancel_ok hc
    exact ⟨t, by simp, ht⟩
  · rintro ⟨t, ht, hid⟩
    by_contra hne
    exact (cancel_fail hne).2 t ht hid

theorem cancel_shape (list : TimerTaskList) (id : Ptr) :
    (cancel list id).2 = list ∨ ∃ front t rear, list = front ++ t :: rear ∧ t.id = id ∧
      (cancel list id).2 = front ++ { t with state := .invalid } :: rear := by
  by_cases h : (cancel list id).1 = AWE_OK
  · exact Or.inr (cancel_ok (Prod.ext h rfl))
  · exact Or.inl (cancel_fail h).1

theorem mem_cancel {list : TimerTaskList} {id : Ptr} {u : TimerTask}
    (hu : u ∈ (cancel list id).2) :
    u ∈ list ∨ ∃ t ∈ list, t.id = id ∧ u = { t with state := .invalid } := by
  rcases cancel_shape list id with h | ⟨front, t, rear, rfl, ht, h⟩
  · exact Or.inl (h ▸ hu)
  · rw [h] at hu
    rcases List.mem_append.mp hu with hu | hu
    · exact Or.inl (List.mem_append_left _ hu)
    · rcases List.mem_cons.mp hu with rfl | hu
      · exact Or.inr ⟨t, by simp, ht, rfl⟩
      · exact Or.inl (by simp [hu])

/-- A cancel never touches what does not depend on the mark. -/
theorem cancel_map {β : Type*} (f : TimerTask → β)
    (hf : ∀ t : TimerTask, f { t with state := .invalid } = f t)
    (list : TimerTaskList) (id : Ptr) : (cancel list id).2.map f = list.map f := by
  rcases cancel_shape list id with h | ⟨front, t, rear, rfl, _, h⟩
  · rw [h]
  · rw [h]
    simp [hf]

/-- Where no two tasks share an id, a cancel leaves every task as it is but a valid
one of that id. -/
theorem mem_cancel_iff {list : TimerTaskList} {id : Ptr} {t : TimerTask}
    (hn : (list.map TimerTask.id).Nodup) (ht : t ∈ list) :
    t ∈ (cancel list id).2 ↔ ¬ (t.id = id ∧ t.state = .valid) := by
  by_cases hok : (cancel list id).1 = AWE_OK
  · have hc : cancel list id = (AWE_OK, (cancel list id).2) := Prod.ext hok rfl
    obtain ⟨front, u, rear, rfl, hu, hlist⟩ := cancel_ok hc
    rw [hlist]
    have hsplit : t = u ∨ t ∈ front ∨ t ∈ rear := by
      simpa [or_comm, or_left_comm] using ht
    simp only [List.map_append, List.map_cons, List.nodup_append', List.nodup_cons,
      List.disjoint_cons_right] at hn
    have hfront : ∀ v ∈ front, v.id ≠ u.id :=
      fun v hv he => hn.2.2.1 (List.mem_map.mpr ⟨v, hv, he⟩)
    have hrear : ∀ v ∈ rear, v.id ≠ u.id :=
      fun v hv he => hn.2.1.1 (List.mem_map.mpr ⟨v, hv, he⟩)
    constructor
    · rintro hmem ⟨hid, hvalid⟩
      rcases List.mem_append.mp hmem with hm | hm
      · exact hfront t hm (hid.trans hu.symm)
      · rcases List.mem_cons.mp hm with rfl | hm
        · cases hvalid
        · exact hrear t hm (hid.trans hu.symm)
    · intro hother
      rcases hsplit with rfl | hm | hm
      · have hinvalid : t.state = .invalid := by
          cases hs : t.state with
          | valid => exact absurd ⟨hu, hs⟩ hother
          | invalid => rfl
        exact List.mem_append_right _ (List.mem_cons.mpr (Or.inl (by rw [← hinvalid])))
      · exact List.mem_append_left _ hm
      · exact List.mem_append_right _ (List.mem_cons_of_mem _ hm)
  · obtain ⟨hlist, hids⟩ := cancel_fail hok
    rw [hlist]
    exact iff_of_true ht (fun hid => hids t ht hid.1)

theorem cancel_ordered {list : TimerTaskList} (ho : list.Pairwise Before) (id : Ptr) :
    (cancel list id).2.Pairwise Before := by
  let f := fun t : TimerTask => (deadline t, t.ticket)
  let R := fun x y : Int × Nat => x.1 < y.1 ∨ x.1 = y.1 ∧ x.2 < y.2
  have hmap : (list.map f).Pairwise R := List.pairwise_map.mpr ho
  rw [← cancel_map f (fun _ => rfl) list id] at hmap
  have h := List.pairwise_map.mp hmap
  exact h

/-- The cancel of another id changes nobody's place in the list. -/
theorem idxOf_cancel {list : TimerTaskList} {task : TimerTask} (hvalid : task.state = .valid)
    {id : Ptr} (hid : task.id ≠ id) : (cancel list id).2.idxOf task = list.idxOf task := by
  rcases cancel_shape list id with he | ⟨front, u, rear, rfl, hu, he⟩
  · rw [he]
  · have hother : u ≠ task := by
      rintro rfl
      exact hid hu
    have hmarked : { u with state := TaskState.invalid } ≠ task := by
      rintro rfl
      cases hvalid
    rw [he]
    simp [List.idxOf_append, List.idxOf_cons_ne _ hother, List.idxOf_cons_ne _ hmarked]

end TimerTaskList

end Awe
