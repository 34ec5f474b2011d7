import Mathlib.Logic.Function.Basic
import Awe.Lib.Machine
import Awe.Thread

namespace Awe
open Machine

inductive DummyWorker.Place where
  | process
  | leaving (next : Leaving)
  | gone
  deriving DecidableEq

/-- A thread in `dummy_worker`: how far the start that created it has got with its stores,
whether an exit has been requested since, and whether it has left its process function
before one was. -/
structure DummyWorker where
  place : DummyWorker.Place
  reset : Bool
  returned : Bool
  asked : Bool
  early : Bool
  deriving DecidableEq

/-- The flags of `struct awe_thread`, the threads that have been created for it, in the
order of their creation, and the number of calls of `awe_thread_start` that have found
`_tid` 0 and are about to create theirs. -/
structure ThreadFlags where
  tid : Bool
  exitPending : Bool
  running : Bool
  passed : Nat
  created : Nat
  worker : Nat → DummyWorker

namespace ThreadFlags
open DummyWorker (Place)

def create : ThreadFlags where
  tid := false
  exitPending := true
  running := false
  passed := 0
  created := 0
  worker := fun _ => ⟨.gone, true, true, false, false⟩

def setWorker (s : ThreadFlags) (k : Nat) (w : DummyWorker) : ThreadFlags :=
  { s with worker := Function.update s.worker k w }

/-- The test of `_tid` in `awe_thread_start`, which returns 1 where it is set. -/
def loadTid (s : ThreadFlags) : ThreadFlags :=
  if s.tid then s else { s with passed := s.passed + 1 }

/-- `pthread_create`, which stores to `_tid`. -/
def spawn (s : ThreadFlags) : Option ThreadFlags :=
  if s.passed = 0 then none
  else some ({ s with tid := true, passed := s.passed - 1, created := s.created + 1 }.setWorker
    s.created ⟨.process, false, false, false, false⟩)

/-- `pthread_create` fails and the start returns its result; what `_tid` is then, POSIX
does not say. -/
def spawnFails (s : ThreadFlags) (tid : Bool) : Option ThreadFlags :=
  if s.passed = 0 then none else some { s with tid := tid, passed := s.passed - 1 }

/-- `_exit_pending = 0` of the start that has created the worker `k`. -/
def resetExit (s : ThreadFlags) (k : Nat) : Option ThreadFlags :=
  if k < s.created ∧ (s.worker k).reset = false then
    some ({ s with exitPending := false }.setWorker k { s.worker k with reset := true })
  else none

/-- `_running = 1` of that start, which returns `AWE_OK`. -/
def setRunning (s : ThreadFlags) (k : Nat) : Option ThreadFlags :=
  if k < s.created ∧ (s.worker k).reset = true ∧ (s.worker k).returned = false then
    some ({ s with running := true }.setWorker k { s.worker k with returned := true })
  else none

def requestExit (s : ThreadFlags) : ThreadFlags :=
  { s with exitPending := true, worker := fun k => { s.worker k with asked := true } }

/-- The process function of the worker `k` looks at `_exit_pending`, and returns if it is
set. -/
def loadExit (s : ThreadFlags) (k : Nat) : Option ThreadFlags :=
  if k < s.created ∧ (s.worker k).place = .process then
    if s.exitPending then
      some (s.setWorker k
        { s.worker k with place := .leaving .clearTid, early := !(s.worker k).asked })
    else some s
  else none

/-- The next store of the worker `k` on its way out of `dummy_worker`. -/
def leave (s : ThreadFlags) (k : Nat) : Option ThreadFlags :=
  if k < s.created then
    match (s.worker k).place with
    | .leaving .clearTid =>
      some ({ s with tid := false }.setWorker k { s.worker k with place := .leaving .setExit })
    | .leaving .setExit => some ({ s with exitPending := true }.setWorker k
        { s.worker k with place := .leaving .clearRunning })
    | .leaving .clearRunning =>
      some ({ s with running := false }.setWorker k { s.worker k with place := .gone })
    | _ => none
  else none

@[simp] theorem worker_setWorker (s : ThreadFlags) (k j : Nat) (w : DummyWorker) :
    (s.setWorker k w).worker j = if j = k then w else s.worker j :=
  Function.update_apply ..

inductive Act where
  | loadTid
  | spawn
  | spawnFails (tid : Bool)
  | resetExit (k : Nat)
  | setRunning (k : Nat)
  | requestExit
  | loadExit (k : Nat)
  | leave (k : Nat)

def step (s : ThreadFlags) : Act → Option ThreadFlags
  | .loadTid => some s.loadTid
  | .spawn => s.spawn
  | .spawnFails tid => s.spawnFails tid
  | .resetExit k => s.resetExit k
  | .setRunning k => s.setRunning k
  | .requestExit => some s.requestExit
  | .loadExit k => s.loadExit k
  | .leave k => s.leave k

/-- What the flags are taken to say: a worker leaves only when asked to, and once the
newest has left, and its start has returned, nothing is running. -/
structure Describes (s : ThreadFlags) : Prop where
  asked : ∀ k < s.created, (s.worker k).early = false
  gone : ∀ k, s.created = k + 1 → (s.worker k).place = .gone → (s.worker k).returned = true →
    s.running = false ∧ s.tid = false

/-- The stores come in turn: a worker first looks at `_exit_pending` after its start has
reset it, and no other worker sets it on its own way out from then on until an exit is
requested; a start sets `_running` before the newest worker has left; and a thread that
cannot be created leaves `_tid` 0. -/
def InTurn (s : ThreadFlags) : Act → Prop
  | .loadExit k => (s.worker k).reset = true
  | .leave j => (s.worker j).place = .leaving .setExit → ∀ k < s.created,
    (s.worker k).place = .process → (s.worker k).reset = true → (s.worker k).asked = true
  | .setRunning _ => ∀ k, s.created = k + 1 → (s.worker k).place ≠ .gone
  | .spawnFails tid => tid = false
  | _ => True

/-- A worker has not left early and, as long as nobody has asked it to leave, sees no
reason to. -/
structure Undisturbed (exitPending : Bool) (w : DummyWorker) : Prop where
  early : w.early = false
  process : w.place = .process → w.reset = true → w.asked = false → exitPending = false

/-- The flags as the newest worker leaves them. -/
structure Newest (tid running : Bool) (w : DummyWorker) : Prop where
  tid : w.place = .process ∨ w.place = .leaving .clearTid ∨ tid = false
  running : w.place = .gone → running = false

structure Ordered (s : ThreadFlags) : Prop where
  each : ∀ k < s.created, Undisturbed s.exitPending (s.worker k)
  last : ∀ k, s.created = k + 1 → Newest s.tid s.running (s.worker k)

theorem ordered_create : create.Ordered where
  each := by simp [create]
  last := by simp [create]

theorem Ordered.describes {s : ThreadFlags} (h : s.Ordered) : s.Describes where
  asked k hk := (h.each k hk).early
  gone k hk hplace _ := by
    obtain ⟨hplace' | hplace' | htid, hrunning⟩ := h.last k hk
    · cases hplace.symm.trans hplace'
    · cases hplace.symm.trans hplace'
    · exact ⟨hrunning hplace, htid⟩

section Ordered

variable {s t : ThreadFlags} {k : Nat}

/-- One worker moves on and the flags change, which the other workers have to bear. -/
theorem Ordered.setWorker {tid exitPending running : Bool} {w : DummyWorker}
    (hw : Undisturbed exitPending w) (hlast : s.created = k + 1 → Newest tid running w)
    (hothers : ∀ j < s.created, j ≠ k → Undisturbed exitPending (s.worker j))
    (hnewest : ∀ j, s.created = j + 1 → j ≠ k → Newest tid running (s.worker j)) :
    ({ s with tid := tid, exitPending := exitPending, running := running }.setWorker k w).Ordered
    where
  each j hj := by
    rw [worker_setWorker]
    split
    · exact hw
    · rename_i hne
      exact hothers j hj hne
  last j hj := by
    rw [worker_setWorker]
    split
    · rename_i he
      exact hlast (he ▸ hj)
    · rename_i hne
      exact hnewest j hj hne

theorem Ordered.spawn (h : s.Ordered) (ht : s.spawn = some t) : t.Ordered := by
  unfold ThreadFlags.spawn at ht
  obtain ⟨_, ht⟩ := Option.ite_none_left_eq_some.mp ht
  cases ht
  refine Ordered.setWorker (s := { s with passed := s.passed - 1, created := s.created + 1 })
    ⟨rfl, by simp⟩ (fun _ => ⟨Or.inl rfl, by simp⟩) ?_ ?_
  · intro j hj hne
    have hj : j < s.created + 1 := hj
    exact h.each j (by omega)
  · intro j hj hne
    exact absurd (Nat.succ.inj hj).symm hne

theorem Ordered.resetExit (h : s.Ordered) (ht : s.resetExit k = some t) : t.Ordered := by
  unfold ThreadFlags.resetExit at ht
  obtain ⟨hk, ht⟩ := Option.ite_none_right_eq_some.mp ht
  cases ht
  refine Ordered.setWorker ⟨(h.each k hk.1).early, fun _ _ _ => rfl⟩ ?_ ?_
    (fun j hj _ => h.last j hj)
  · exact fun hlast => { h.last k hlast with }
  · exact fun j hj _ => ⟨(h.each j hj).early, fun _ _ _ => rfl⟩

theorem Ordered.setRunning (h : s.Ordered) (hturn : s.InTurn (.setRunning k))
    (ht : s.setRunning k = some t) : t.Ordered := by
  unfold ThreadFlags.setRunning at ht
  obtain ⟨hk, ht⟩ := Option.ite_none_right_eq_some.mp ht
  cases ht
  refine Ordered.setWorker { h.each k hk.1 with } ?_ (fun j hj _ => h.each j hj) ?_
  · exact fun hlast => ⟨(h.last k hlast).tid, fun hplace => absurd hplace (hturn k hlast)⟩
  · exact fun j hj _ => ⟨(h.last j hj).tid, fun hplace => absurd hplace (hturn j hj)⟩

theorem Ordered.loadExit (h : s.Ordered) (hturn : s.InTurn (.loadExit k))
    (ht : s.loadExit k = some t) : t.Ordered := by
  unfold ThreadFlags.loadExit at ht
  obtain ⟨hk, ht⟩ := Option.ite_none_right_eq_some.mp ht
  split at ht
  · rename_i hexit
    cases ht
    have hasked : (s.worker k).asked = true := by
      by_contra hnot
      have hclear := (h.each k hk.1).process hk.2 hturn (by simpa using hnot)
      cases hexit.symm.trans hclear
    refine Ordered.setWorker ⟨by simp [hasked], by simp⟩ (fun _ => ⟨by simp, by simp⟩)
      (fun j hj _ => h.each j hj) (fun j hj _ => h.last j hj)
  · cases ht
    exact h

theorem Ordered.leave (h : s.Ordered) (hturn : s.InTurn (.leave k))
    (ht : s.leave k = some t) : t.Ordered := by
  unfold ThreadFlags.leave at ht
  obtain ⟨hk, ht⟩ := Option.ite_none_right_eq_some.mp ht
  have hearly := (h.each k hk).early
  split at ht
  · cases ht
    exact Ordered.setWorker ⟨hearly, by simp⟩ (fun _ => ⟨by simp, by simp⟩)
      (fun j hj _ => h.each j hj) (fun j hj _ => ⟨by simp, (h.last j hj).running⟩)
  · rename_i hplace
    cases ht
    refine Ordered.setWorker ⟨hearly, by simp⟩ ?_ ?_ (fun j hj _ => h.last j hj)
    · intro hlast
      obtain ⟨hplace' | hplace' | htid, _⟩ := h.last k hlast
      · cases hplace.symm.trans hplace'
      · cases hplace.symm.trans hplace'
      · exact ⟨by simp [htid], by simp⟩
    · intro j hj _
      refine ⟨(h.each j hj).early, fun hprocess hreset hasked => ?_⟩
      cases hasked.symm.trans (hturn hplace j hj hprocess hreset)
  · rename_i hplace
    cases ht
    refine Ordered.setWorker ⟨hearly, by simp⟩ ?_ (fun j hj _ => h.each j hj)
      (fun j hj _ => ⟨(h.last j hj).tid, by simp⟩)
    intro hlast
    obtain ⟨hplace' | hplace' | htid, _⟩ := h.last k hlast
    · cases hplace.symm.trans hplace'
    · cases hplace.symm.trans hplace'
    · exact ⟨by simp [htid], by simp⟩
  · cases ht

theorem Ordered.step {a : Act} (h : s.Ordered) (hturn : s.InTurn a) (ht : s.step a = some t) :
    t.Ordered := by
  cases a with
  | loadTid =>
    cases ht
    unfold loadTid
    split
    · exact h
    · exact ⟨h.each, h.last⟩
  | spawn => exact h.spawn ht
  | spawnFails tid =>
    simp only [ThreadFlags.step, spawnFails] at ht
    obtain ⟨_, ht⟩ := Option.ite_none_left_eq_some.mp ht
    cases ht
    have htid : tid = false := hturn
    exact ⟨h.each, fun j hj => ⟨by simp [htid], (h.last j hj).running⟩⟩
  | resetExit k => exact h.resetExit ht
  | setRunning k => exact h.setRunning hturn ht
  | requestExit =>
    cases ht
    refine ⟨fun j hj => ⟨(h.each j hj).early, ?_⟩, fun j hj => { h.last j hj with }⟩
    simp [requestExit]
  | loadExit k => exact h.loadExit hturn ht
  | leave k => exact h.leave hturn ht

end Ordered

/-- In every interleaving whose stores come in turn, the flags describe the live worker
in every state. -/
theorem flags_describe_worker (as : List Act) (h : Throughout step InTurn create as) :
    Always step Describes create as := by
  have hkeep : ∀ s a m, True → Ordered s → InTurn s a → step s a = some m → True ∧ Ordered m :=
    fun _ _ _ _ hs hturn ht => ⟨trivial, hs.step hturn ht⟩
  have hordered : Always step Ordered create as :=
    always_of_throughout hkeep trivial ordered_create h
  have htrue : ∀ s a m, (fun _ => True) s → step s a = some m → (fun _ => True) m :=
    fun _ _ _ _ _ => trivial
  exact hordered.imp_of_invariant htrue (fun _ _ hs => hs.describes) trivial

/-- A thread is started, asked to exit, and started again while the first worker still has
two stores to make. -/
def restarted : List Act :=
  [.loadTid, .spawn, .resetExit 0, .setRunning 0, .requestExit, .loadExit 0, .leave 0,
    .loadTid, .spawn, .leave 0, .leave 0, .resetExit 1, .setRunning 1]

theorem restarted_described : Always step Describes create restarted := by
  apply flags_describe_worker restarted
  refine .cons rfl trivial (.cons rfl trivial (.cons rfl trivial (.cons rfl ?_
    (.cons rfl trivial (.cons rfl rfl (.cons rfl ?_ (.cons rfl trivial (.cons rfl trivial
    (.cons rfl ?_ (.cons rfl ?_ (.cons rfl trivial (.cons rfl ?_ trivial))))))))))))
  · intro k hk
    cases hk
    decide
  · exact fun hplace => absurd hplace (by decide)
  · exact fun _ => by decide
  · exact fun hplace => absurd hplace (by decide)
  · intro k hk
    cases hk
    decide

/-- The new worker looks at `_exit_pending` before its start has reset it. -/
def leftAtOnce : List Act := [.loadTid, .spawn, .loadExit 0]

def leftBeforeReturn : List Act :=
  leftAtOnce ++ [.leave 0, .leave 0, .leave 0, .resetExit 0, .setRunning 0]

/-- The first worker sets `_exit_pending` when the second has been started. -/
def leftForAnother : List Act :=
  [.loadTid, .spawn, .resetExit 0, .setRunning 0, .requestExit, .loadExit 0, .leave 0,
    .loadTid, .spawn, .resetExit 1, .setRunning 1, .leave 0, .loadExit 1]

/-- A fresh worker is gone at once, or gone with `_running` left set for good, and a
restarted one is sent away by the epilogue of the worker before it. -/
theorem fresh_worker_leaves :
    (∃ s, run step create leftAtOnce = some s ∧ (s.worker 0).early = true) ∧
    (∃ s, run step create leftBeforeReturn = some s ∧ s.created = 1 ∧
      (s.worker 0).place = .gone ∧ (s.worker 0).returned = true ∧ s.running = true) ∧
    (∃ s, run step create leftForAnother = some s ∧ (s.worker 1).early = true ∧
      (s.worker 1).asked = false) ∧
    ¬ Always step Describes create leftBeforeReturn := by
  refine ⟨⟨_, rfl, rfl⟩, ⟨_, rfl, rfl, rfl, rfl, rfl⟩, ⟨_, rfl, rfl, rfl⟩, ?_⟩
  intro h
  have hstate := (((h.2 _ rfl).2 _ rfl).2 _ rfl).head
  cases hstate.asked 0 (by decide)

end ThreadFlags

end Awe
