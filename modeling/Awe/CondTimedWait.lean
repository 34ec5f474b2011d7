import Awe.Lib.Machine
import Awe.UxScheduler.Refinement

namespace Awe

structure Timespec where
  tvSec : Int
  tvNsec : Int
  deriving DecidableEq

namespace Timespec

def Normalised (ts : Timespec) : Prop := 0 ≤ ts.tvNsec ∧ ts.tvNsec < 1000000000

instance (ts : Timespec) : Decidable ts.Normalised := inferInstanceAs (Decidable (_ ∧ _))

def total (ts : Timespec) : Int := ts.tvSec * 1000000000 + ts.tvNsec

end Timespec

/-- An `int64_t` result; `none` is an overflow. -/
def checked64 (x : Int) : Option Int :=
  if -9223372036854775808 ≤ x ∧ x ≤ 9223372036854775807 then some x else none

theorem checked64_eq_some {x y : Int} : checked64 x = some y ↔
    (-9223372036854775808 ≤ x ∧ x ≤ 9223372036854775807) ∧ x = y := by
  unfold checked64
  split <;> simp [*]

def condwaitMs (t : Int) : Option Int := checked64 (t * 1000000)

/-- What `awe_cond_timedwait` hands to `pthread_cond_timedwait` when the clock reads `ts`. -/
def condTimedwait (ts : Timespec) (timeout : Int) : Option Timespec := do
  let tvSec ← checked64 (ts.tvSec + timeout.tdiv 1000000000)
  let tvNsec ← checked64 (ts.tvNsec + timeout.tmod 1000000000)
  if tvNsec ≥ 1000000000 then do
    let tvNsec ← checked64 (tvNsec - 1000000000)
    let tvSec ← checked64 (tvSec + 1)
    some ⟨tvSec, tvNsec⟩
  else some ⟨tvSec, tvNsec⟩

/-- The sum is exact, and its nanoseconds are those of the clock and of the timeout, less a
second if they make one up. -/
theorem condTimedwait_sum {now ts : Timespec} {timeout : Int}
    (hts : condTimedwait now timeout = some ts) :
    ts.total = now.total + timeout ∧ ts.tvNsec =
      if 1000000000 ≤ now.tvNsec + timeout.tmod 1000000000
      then now.tvNsec + timeout.tmod 1000000000 - 1000000000
      else now.tvNsec + timeout.tmod 1000000000 := by
  have hsplit : timeout.tdiv 1000000000 * 1000000000 + timeout.tmod 1000000000 = timeout :=
    Int.tdiv_mul_add_tmod timeout 1000000000
  obtain ⟨sec, hsec, hts⟩ := Option.bind_eq_some_iff.mp hts
  obtain ⟨nsec, hnsec, hts⟩ := Option.bind_eq_some_iff.mp hts
  obtain ⟨_, rfl⟩ := checked64_eq_some.mp hsec
  obtain ⟨_, rfl⟩ := checked64_eq_some.mp hnsec
  unfold Timespec.total
  by_cases hcarry : 1000000000 ≤ now.tvNsec + timeout.tmod 1000000000
  · rw [if_pos hcarry] at hts ⊢
    obtain ⟨rest, hrest, hts⟩ := Option.bind_eq_some_iff.mp hts
    obtain ⟨next, hnext, hts⟩ := Option.bind_eq_some_iff.mp hts
    obtain ⟨_, rfl⟩ := checked64_eq_some.mp hrest
    obtain ⟨_, rfl⟩ := checked64_eq_some.mp hnext
    cases hts
    exact ⟨by dsimp only; omega, rfl⟩
  · rw [if_neg hcarry] at hts ⊢
    cases hts
    exact ⟨by dsimp only; omega, rfl⟩

/-- Only a timeout that is not negative is sure to leave the nanoseconds so. -/
theorem condTimedwait_normalised_iff {now ts : Timespec} {timeout : Int} (hnow : now.Normalised)
    (hts : condTimedwait now timeout = some ts) :
    ts.Normalised ↔ 0 ≤ timeout ∨ -timeout % 1000000000 ≤ now.tvNsec := by
  obtain ⟨_, hnsec⟩ := condTimedwait_sum hts
  obtain ⟨hlow, hhigh⟩ := hnow
  have hrest : timeout.tmod 1000000000 =
      if 0 ≤ timeout then timeout % 1000000000 else -(-timeout % 1000000000) := by
    split
    · exact Int.tmod_eq_emod_of_nonneg (by assumption)
    · rename_i hneg
      rw [← Int.tmod_eq_emod_of_nonneg (by omega), Int.neg_tmod, Int.neg_neg]
  unfold Timespec.Normalised
  rw [hnsec, hrest]
  split <;> split <;> omega

namespace UxScheduler

/-- Nothing but a start sets `_delayMs`. -/
theorem delay_step {s t : UxScheduler} {a : Act} (ht : s.step a = some t) :
    t.delayMs = s.delayMs ∨
      ∃ delayMs, a = .start delayMs ∧
        t.delayMs = if delayMs.ms ≤ 60000 then delayMs.ms else 1000 := by
  cases step_effect ht with
  | start => exact Or.inr ⟨_, rfl, rfl⟩
  | _ => exact Or.inl rfl

/-- The delays that a scheduler takes on. -/
theorem delay_reached {s : UxScheduler} {as : List Act} (h : Machine.run step create as = some s) :
    -2147483648 ≤ s.delayMs ∧ s.delayMs ≤ 60000 := by
  have hkeep : ∀ (s : UxScheduler) (a : Act) (m : UxScheduler), -2147483648 ≤ s.delayMs ∧
      s.delayMs ≤ 60000 → True → s.step a = some m →
      -2147483648 ≤ m.delayMs ∧ m.delayMs ≤ 60000 := by
    intro s a m hs _ hm
    rcases delay_step hm with he | ⟨delayMs, _, he⟩
    · rw [he]
      exact hs
    · have hlow := delayMs.low
      rw [he]
      split <;> omega
  have hall : Machine.Throughout step (fun _ _ => True) create as :=
    Machine.throughout_of_mem (fun _ _ _ => trivial) create
  exact Machine.invariant_of_steps hkeep (by decide) hall h

end UxScheduler

/-- Where `awe_cond_timedwait` is called: by `looper_thread_process` with a delay that is
not due, by `awe_looper_stop` and `awe_uxscheduler_stop`, and by `awe_uxscheduler_rm` of a
scheduler in any state it can get into. -/
inductive TimedWait where
  | looperProcess (delayMs : Int) (later : 0 < delayMs)
  | stop
  | rm (s : UxScheduler)
    (reached : ∃ as, Machine.run UxScheduler.step UxScheduler.create as = some s)

namespace TimedWait

def ms : TimedWait → Int
  | looperProcess delayMs _ => delayMs
  | stop => 10
  | rm s _ => s.delayMs

/-- The deadline of the wait, with the clock at `now`. -/
def deadline (w : TimedWait) (now : Timespec) : Option Timespec :=
  (condwaitMs w.ms).bind (condTimedwait now)

/-- With a clock that is not off by `2 ^ 62` seconds, a wait for less than 292 years has a
deadline. -/
theorem deadline_defined (w : TimedWait) {now : Timespec} (hnow : now.Normalised)
    (hsec : -4611686018427387904 ≤ now.tvSec ∧ now.tvSec ≤ 4611686018427387904)
    (hms : w.ms ≤ 9223372036854) : ∃ ts, w.deadline now = some ts := by
  have hlow : -2147483648 ≤ w.ms := by
    cases w with
    | looperProcess delayMs later => exact Int.le_trans (by decide) (Int.le_of_lt later)
    | stop => decide
    | rm s reached =>
      obtain ⟨as, has⟩ := reached
      exact (UxScheduler.delay_reached has).1
  obtain ⟨hnlow, hnhigh⟩ := hnow
  have hsplit := Int.tdiv_mul_add_tmod (w.ms * 1000000) 1000000000
  have hrest := Int.tmod_lt_of_pos (w.ms * 1000000) (show (0 : Int) < 1000000000 by decide)
  have hrest' := Int.lt_tmod_of_pos (w.ms * 1000000) (show (0 : Int) < 1000000000 by decide)
  have hfits : ∀ {x : Int}, -9223372036854775808 ≤ x ∧ x ≤ 9223372036854775807 →
      checked64 x = some x := fun h => if_pos h
  unfold deadline condwaitMs condTimedwait
  rw [hfits (by omega), Option.bind_some, hfits (by omega), hfits (by omega)]
  simp only [Option.bind_eq_bind, Option.bind_some]
  split
  · rw [hfits (by omega), hfits (by omega)]
    exact ⟨_, rfl⟩
  · exact ⟨_, rfl⟩

/-- The deadline is in the form a `timespec` has to have, and is the time of the clock and
the timeout. -/
structure Right (w : TimedWait) (now ts : Timespec) : Prop where
  normalised : ts.Normalised
  exact : ts.total = now.total + 1000000 * w.ms

/-- A deadline is right unless a negative timeout takes more than the clock has past its
second. -/
theorem deadline_right_iff (w : TimedWait) (now ts : Timespec) (hnow : now.Normalised)
    (hts : w.deadline now = some ts) :
    w.Right now ts ↔ 0 ≤ w.ms ∨ 1000000 * (-w.ms % 1000) ≤ now.tvNsec := by
  obtain ⟨timeout, htimeout, hts⟩ := Option.bind_eq_some_iff.mp hts
  obtain ⟨_, rfl⟩ := checked64_eq_some.mp htimeout
  have hform := condTimedwait_normalised_iff hnow hts
  have hsum := (condTimedwait_sum hts).1
  have hrest : -(w.ms * 1000000) % 1000000000 = 1000000 * (-w.ms % 1000) := by omega
  rw [hrest] at hform
  constructor
  · intro h
    have hcases := hform.mp h.normalised
    omega
  · intro h
    exact ⟨hform.mpr (by omega), by omega⟩

/-- A scheduler that was started with `delayMs`, while another thread removes an event. -/
def removing (delayMs : BitVec 32) : List UxScheduler.Act :=
  [.start (DelayMs.ofInt32 delayMs), .startStore, .startStore,
    .add (.thread 0) 100 5 AWE_READ 1 0 none, .rm (.thread 0) 5]

theorem short_wait_right : ∃ s ts reached, s.calls (.thread 0) = .rmWait ∧ s.delayMs = -1 ∧
    (rm s reached).deadline ⟨1700000000, 5000000⟩ = some ts ∧
      (rm s reached).Right ⟨1700000000, 5000000⟩ ts := by
  refine ⟨_, _, ⟨removing (-1), rfl⟩, rfl, rfl, rfl, ?_⟩
  exact (deadline_right_iff _ ⟨1700000000, 5000000⟩ _ (by decide) rfl).mpr (Or.inr (by decide))

/-- One millisecond before a full second is a second and minus a million nanoseconds. -/
theorem negative_nanoseconds : ∃ s ts reached, s.calls (.thread 0) = .rmWait ∧ s.delayMs = -1 ∧
    (rm s reached).deadline ⟨1700000000, 0⟩ = some ts ∧ ts.tvNsec = -1000000 ∧
      ¬ (rm s reached).Right ⟨1700000000, 0⟩ ts := by
  refine ⟨_, _, ⟨removing (-1), rfl⟩, rfl, rfl, rfl, rfl, ?_⟩
  intro h
  exact absurd h.normalised (by decide)

end TimedWait

end Awe
