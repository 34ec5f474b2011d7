import Awe.Lib.Machine
import Awe.Looper.Model
import Awe.UxScheduler.Model

namespace Awe

theorem int32_nonneg_iff (x : Int) : 0 ≤ int32 x ↔ x % 4294967296 < 2147483648 := by
  unfold int32
  omega

theorem int32_eq_zero_iff (x : Int) : int32 x = 0 ↔ x % 4294967296 = 0 := by
  unfold int32
  omega

/-- `delay_ms <= 0` of the looper's worker, for any two `int64_t`. -/
def Looper.pops (procMs now : Int) : Bool := int64 (procMs - now) ≤ 0

namespace UxScheduler

/-- `(int32_t)(task->_proc_ms - now_time)`, for any two `int64_t`. -/
def untilDue (procMs now : Int) : Int := int32 (int64 (procMs - now))

def pops (procMs now : Int) : Bool := untilDue procMs now ≤ 0

def overdue (procMs now : Int) : Bool := untilDue procMs now < 0

theorem timeToDelay_eq (task : TimerTask) (now : ClockMs) :
    timeToDelay task now = untilDue task.procMs.ms now.ms := rfl

theorem endRound_fetches_iff {s : UxScheduler} {task : TimerTask} {rest : TimerTaskList}
    (hw : s.worker = .endRound) (htasks : s.taskList = task :: rest) (now : ClockMs) :
    (s.endRound now).map worker = some (.fetched task) ↔ pops task.procMs.ms now.ms := by
  unfold endRound pops
  rw [hw, htasks]
  dsimp only
  rw [timeToDelay_eq]
  split <;> simp [*]

theorem section2_fetches_iff {s : Looper} {task : TimerTask} {rest : TimerTaskList}
    (hw : s.worker = .lock2) (htasks : s.taskList = task :: rest) (now : ClockMs) :
    (s.section2 now).map Looper.worker = some (.fetched task) ↔
      Looper.pops task.procMs.ms now.ms := by
  unfold Looper.section2 Looper.pops
  rw [hw, htasks]
  dsimp only [ProcMs.remaining]
  by_cases hdue : int64 (task.procMs.ms - now.ms) ≤ 0 <;> simp [hdue]

/-- The head's part in the timeout of the round. -/
theorem roundDelay_cons {s : UxScheduler} {task : TimerTask} {rest : TimerTaskList}
    (htasks : s.taskList = task :: rest) (now : ClockMs) :
    s.roundDelay now =
      if overdue task.procMs.ms now.ms then 0
      else if untilDue task.procMs.ms now.ms < s.delayMs then untilDue task.procMs.ms now.ms
      else s.delayMs := by
  unfold roundDelay overdue
  rw [htasks]
  dsimp only
  rw [timeToDelay_eq]
  split
  · rename_i hsoon
    rw [if_neg (by simpa using hsoon.1), if_pos hsoon.2]
  · rename_i hlate
    split
    · rw [if_pos (by simpa)]
    · rename_i hfuture
      rw [if_neg (by simpa using hfuture), if_neg (fun hlt => hlate ⟨by omega, hlt⟩)]

/-- The low half of the difference `d`, read as an `int32_t`, has the sign of `d`. -/
def KeepsSign (d : Int) : Prop :=
  (0 ≤ d ↔ d % 4294967296 < 2147483648) ∧ (d % 4294967296 = 0 → d = 0)

theorem keepsSign_of_range {d : Int} (hl : -2147483648 ≤ d) (hu : d ≤ INT_MAX) : KeepsSign d := by
  unfold KeepsSign INT_MAX at *
  omega

/-- The uxscheduler's two tests give the head out, and wait for nothing, when the
looper would and when the clock says so. -/
structure Agree (procMs now : Int) : Prop where
  pops_iff : pops procMs now ↔ procMs ≤ now
  looper_iff : pops procMs now ↔ Looper.pops procMs now
  overdue_iff : overdue procMs now ↔ procMs < now

theorem due_agree_iff (procMs now : Int) (hl : -9223372036854775808 ≤ procMs - now)
    (hu : procMs - now ≤ 9223372036854775807) :
    Agree procMs now ↔ KeepsSign (procMs - now) := by
  have h64 : int64 (procMs - now) = procMs - now := int64_of_range hl hu
  have hpos := int32_nonneg_iff (procMs - now)
  have hzero := int32_eq_zero_iff (procMs - now)
  have hpops : pops procMs now ↔ int32 (procMs - now) ≤ 0 := by simp [pops, untilDue, h64]
  have hover : overdue procMs now ↔ int32 (procMs - now) < 0 := by simp [overdue, untilDue, h64]
  have hlooper : Looper.pops procMs now ↔ procMs - now ≤ 0 := by simp [Looper.pops, h64]
  constructor
  · intro h
    have hle := hpops.symm.trans h.pops_iff
    have hlt := hover.symm.trans h.overdue_iff
    constructor <;> omega
  · intro h
    obtain ⟨hsign, honly⟩ := h
    refine ⟨hpops.trans ?_, hpops.trans (Iff.trans ?_ hlooper.symm), hover.trans ?_⟩ <;> omega

/-- A task due in a second. -/
theorem due_agree_soon : Agree 1700000001000 1700000000000 :=
  (due_agree_iff 1700000001000 1700000000000 (by decide) (by decide)).mpr
    (keepsSign_of_range (by decide) (by decide))

/-- The longest delay there is, and a clock that has been stepped back by one. -/
theorem stepped_clock_pops_early :
    ¬ ∀ procMs now : Int, -9223372036854775808 ≤ procMs - now →
      procMs - now ≤ 9223372036854775807 → Agree procMs now := by
  intro h
  have hag := h 2147483647 (-1) (by decide) (by decide)
  have := hag.pops_iff.mp (by decide)
  omega

structure Timeval where
  tvSec : Int
  tvUsec : Int
  deriving DecidableEq

namespace Timeval

def Normalised (tv : Timeval) : Prop := 0 ≤ tv.tvSec ∧ 0 ≤ tv.tvUsec ∧ tv.tvUsec < 1000000

def total (tv : Timeval) : Int := tv.tvSec * 1000000 + tv.tvUsec

end Timeval

def timeval (delayms : Int) : Option Timeval :=
  if delayms ≥ 0 then some ⟨delayms.tdiv 1000, (delayms - delayms.tdiv 1000 * 1000) * 1000⟩
  else none

/-- The last argument of the call of `ux_select`, if the worker is about to make one. -/
def Worker.timeout : Worker → Option (Option Timeval)
  | .select ufdSize _ _ ptv => if ufdSize = 0 then Option.none else some (ptv.bind timeval)
  | _ => Option.none

theorem timeval_none {delayms : Int} : timeval delayms = none ↔ delayms < 0 := by
  simp [timeval]

theorem timeval_some {delayms : Int} {tv : Timeval} (h : timeval delayms = some tv) :
    0 ≤ delayms ∧ tv.Normalised ∧ tv.total = 1000 * delayms := by
  unfold timeval at h
  split at h
  · rename_i hpos
    cases h
    have hdiv : delayms.tdiv 1000 = delayms / 1000 := Int.tdiv_eq_ediv_of_nonneg hpos
    unfold Timeval.Normalised Timeval.total
    dsimp only
    rw [hdiv]
    omega
  · cases h

theorem timeout_prepare {s t : UxScheduler} {now : ClockMs} (ht : s.prepare now = some t) :
    t.worker.timeout =
      if s.uxeventList = [] then none else some (timeval (s.roundDelay now)) := by
  unfold prepare at ht
  split at ht
  · cases ht
    unfold Worker.timeout
    dsimp only
    have hptv : (if s.roundDelay now ≥ 0 then some (s.roundDelay now) else none).bind timeval =
        timeval (s.roundDelay now) := by
      split
      · rfl
      · rename_i hneg
        exact (timeval_none.mpr (by omega)).symm
    rw [hptv]
    cases s.uxeventList <;> simp
  · cases ht

/-- What the timeout of a round that starts at `now` has to be. -/
structure InTime (s : UxScheduler) (now : ClockMs) (ptv : Option Timeval) : Prop where
  normalised : ∀ tv, ptv = some tv → tv.Normalised
  pending : ∀ task rest, s.taskList = task :: rest →
    ∃ tv, ptv = some tv ∧ tv.total ≤ 1000 * max 0 (task.procMs.ms - now.ms)
  empty : s.taskList = [] → (ptv = none ↔ s.delayMs < 0) ∧
    ∀ tv, ptv = some tv → tv.total = 1000 * s.delayMs

/-- The deadline of the head is less than 2^31 milliseconds away. -/
def Near (s : UxScheduler) (now : ClockMs) : Prop :=
  ∀ task rest, s.taskList = task :: rest →
    -2147483648 < task.procMs.ms - now.ms ∧ task.procMs.ms - now.ms < 2147483648

theorem Near.untilDue {s : UxScheduler} {now : ClockMs} (h : s.Near now) {task : TimerTask}
    {rest : TimerTaskList} (htasks : s.taskList = task :: rest) :
    untilDue task.procMs.ms now.ms = task.procMs.ms - now.ms := by
  obtain ⟨hl, hu⟩ := h task rest htasks
  unfold UxScheduler.untilDue
  rw [int64_of_range (by omega) (by omega)]
  exact int32_of_range (by omega) (by unfold INT_MAX; omega)

theorem inTime_iff {s : UxScheduler} {now : ClockMs} (h : s.Near now) :
    s.InTime now (timeval (s.roundDelay now)) ↔
      0 ≤ s.delayMs ∨ ∀ task rest, s.taskList = task :: rest → task.procMs.ms < now.ms := by
  cases htasks : s.taskList with
  | nil =>
    have hdelay : s.roundDelay now = s.delayMs := by simp [roundDelay, htasks]
    refine iff_of_true ⟨?_, ?_, fun _ => ?_⟩ (Or.inr (by simp))
    · exact fun tv htv => (timeval_some htv).2.1
    · simp [htasks]
    · rw [hdelay]
      exact ⟨timeval_none, fun tv htv => (timeval_some htv).2.2⟩
  | cons task rest =>
    have hdelay := roundDelay_cons htasks now
    have hover : overdue task.procMs.ms now.ms = true ↔ task.procMs.ms < now.ms := by
      simp only [overdue, h.untilDue htasks, decide_eq_true_eq]
      omega
    rw [h.untilDue htasks] at hdelay
    constructor
    · intro hin
      obtain ⟨tv, htv, _⟩ := hin.pending task rest htasks
      have hpos : 0 ≤ s.roundDelay now := (timeval_some htv).1
      by_cases hneg : 0 ≤ s.delayMs
      · exact Or.inl hneg
      · right
        intro u us hus
        cases hus
        by_contra hfuture
        rw [if_neg (by simpa [hover] using hfuture), if_neg (by omega)] at hdelay
        omega
    · intro hcond
      have hbound : 0 ≤ s.roundDelay now ∧
          s.roundDelay now ≤ max 0 (task.procMs.ms - now.ms) := by
        rw [hdelay]
        split
        · omega
        · rename_i hfuture
          rw [hover] at hfuture
          have hpos : 0 ≤ s.delayMs := by
            rcases hcond with hpos | hlate
            · exact hpos
            · exact absurd (hlate task rest rfl) hfuture
          split <;> omega
      obtain ⟨tv, htv⟩ : ∃ tv, timeval (s.roundDelay now) = some tv := by
        apply Option.ne_none_iff_exists'.mp
        intro hnone
        have := timeval_none.mp hnone
        omega
      have htotal := (timeval_some htv).2.2
      refine ⟨fun tv htv => (timeval_some htv).2.1, ?_, by simp [htasks]⟩
      intro u us hus
      rw [htasks] at hus
      cases hus
      exact ⟨tv, htv, by omega⟩

/-- The timeout a round passes to `ux_select` is right exactly when the worker was not
told to wait without limit, or has nothing to wait for. -/
theorem select_in_time_iff (s t : UxScheduler) (now : ClockMs) (hnear : s.Near now)
    (ht : s.prepare now = some t) :
    (∀ ptv, t.worker.timeout = some ptv → s.InTime now ptv) ↔
      s.uxeventList = [] ∨ 0 ≤ s.delayMs ∨
        ∀ task rest, s.taskList = task :: rest → task.procMs.ms < now.ms := by
  rw [timeout_prepare ht, ← inTime_iff hnear]
  by_cases hlist : s.uxeventList = [] <;> simp [hlist]

/-- A worker started with `delayMs`, a descriptor to watch, and a task for the next second. -/
def waiting (delayMs : BitVec 32) : List Act :=
  [.start (DelayMs.ofInt32 delayMs), .startStore, .startStore,
    .add (.thread 0) 100 5 AWE_READ 1 0 none,
    .post ⟨timeMs 0, DelayMs.ofInt32 1000, 200, 1, 0, 0⟩ none, .testExit, .guard, .testStarted]

theorem limited_wait_in_time : ∃ s t, Machine.run step create (waiting 5000) = some s ∧
    s.prepare (timeMs 0) = some t ∧
    ∀ ptv, t.worker.timeout = some ptv → s.InTime (timeMs 0) ptv := by
  refine ⟨_, _, rfl, rfl, (select_in_time_iff _ _ (timeMs 0) ?_ rfl).mpr (Or.inr (Or.inl ?_))⟩
  · intro task rest htasks
    cases htasks
    decide
  · decide

theorem unlimited_wait_ignores_task : ∃ s t, Machine.run step create (waiting (-1)) = some s ∧
    s.prepare (timeMs 0) = some t ∧ s.Near (timeMs 0) ∧
      ¬ ∀ ptv, t.worker.timeout = some ptv → s.InTime (timeMs 0) ptv := by
  refine ⟨_, _, rfl, rfl, ?_, ?_⟩
  · intro task rest htasks
    cases htasks
    decide
  · intro h
    obtain ⟨tv, htv, _⟩ := (h none rfl).pending _ _ rfl
    cases htv

end UxScheduler

end Awe
