import Mathlib.Algebra.BigOperators.Ring.List
import Awe.Ledger.Service
import Awe.Looper.Sleep

namespace Awe.Looper
open Machine

def Worker.inLoop : Worker → Bool
  | .none | .exit => false
  | _ => true

/-- What a looper that nobody stops owes to the way it was started. -/
structure Launched (s : Looper) : Prop where
  alone : s.worker.inLoop → s.thread.leaving = []
  ready : s.worker.inLoop → s.started ∨ s.starting = .reset → s.thread.exitPending = false
  before : s.started = false → s.starting = .none → s.worker = .none ∧ s.thread.leaving = []
  once : s.started → s.starting = .none

theorem launched_create : create.Launched where
  alone h := by cases h
  ready h := by cases h
  before _ _ := ⟨rfl, rfl⟩
  once h := by cases h

theorem Launched.of_same {s t : Looper} (h : s.Launched) (hthread : t.thread = s.thread)
    (hworker : t.worker.inLoop → s.worker.inLoop)
    (hnone : s.worker = .none → t.worker = .none) (hstarted : t.started = s.started)
    (hstarting : t.starting = s.starting) : t.Launched where
  alone hw := hthread ▸ h.alone (hworker hw)
  ready hw hs := hthread ▸ h.ready (hworker hw) (hstarted ▸ hstarting ▸ hs)
  before hs hn := by
    obtain ⟨hw, hl⟩ := h.before (hstarted ▸ hs) (hstarting ▸ hn)
    exact ⟨hnone hw, hthread ▸ hl⟩
  once hs := hstarting ▸ h.once (hstarted ▸ hs)

theorem Launched.step {s t : Looper} {a : Act} (h : s.Launched) (hu : s.Unstopped)
    (ha : a.Gentle) (ht : s.step a = some t) : t.Launched := by
  cases step_effect ht with
  | clear => exact absurd rfl ha.1
  | stopSignal => exact absurd rfl (ha.2 _ _)
  | same => exact h
  | start off =>
    obtain ⟨_, hleaving⟩ := h.before off (starting_of_locks rfl ht)
    exact ⟨fun _ => hleaving, fun _ hs => by simp [off] at hs, fun _ hs => (by cases hs),
      fun on => by simp [off] at on⟩
  | reset created =>
    have hstarted : s.started ≠ true := by
      intro hs
      rw [h.once hs] at created
      cases created
    exact ⟨h.alone, fun _ _ => rfl, fun _ hs => (by cases hs), fun hs => absurd hs hstarted⟩
  | launch reset =>
    exact ⟨h.alone, fun hw _ => h.ready hw (Or.inr reset), fun hs => (by cases hs), fun _ => rfl⟩
  | stopRequest called =>
    rw [hu.calm] at called
    cases called
  | stopWaits called | stopReturns called => simp [hu.calm] at called
  | finish exit =>
    refine ⟨by simp [Worker.inLoop], by simp [Worker.inLoop], fun hs hn => ?_, h.once⟩
    have hnone := (h.before hs hn).1
    rw [exit] at hnone
    cases hnone
  | leave stores =>
    have hne : s.thread.leaving ≠ [] := by
      intro hnil
      simp [Thread.leave, hnil] at stores
    have hgone : ¬ s.worker.inLoop := fun hw => hne (h.alone hw)
    exact ⟨fun hw => absurd hw hgone, fun hw => absurd hw hgone,
      fun hs hn => absurd (h.before hs hn).2 hne, h.once⟩
  | post | cancel | timeout => exact h.of_same rfl id id rfl rfl
  | sleeps here | passes here =>
    have hne : s.worker ≠ .none := by rcases here with hw | ⟨hw, _⟩ <;> simp [hw]
    have hloop : s.worker.inLoop := by rcases here with hw | ⟨hw, _⟩ <;> simp [hw, Worker.inLoop]
    exact h.of_same rfl (fun _ => hloop) (fun hw => absurd hw hne) rfl rfl
  | testExit hw | testStarted hw | crashes hw | takes hw | waits hw | wakes hw | calls hw | skips hw
  | ends hw => exact h.of_same rfl (by simp [Worker.inLoop, hw]) (by simp [hw]) rfl rfl

/-- A started looper that nobody stops or clears, with its worker in the loop. -/
structure Serving (s : Looper) : Prop where
  undisturbed : s.Undisturbed
  fed : s.Fed
  launched : s.Launched
  started : s.started
  worker : s.worker.inLoop

theorem Serving.unlocked {s : Looper} (h : s.Serving) (a : Act) : s.step a = s.act a := by
  simp [Looper.step, h.launched.once h.started]

def Act.isWork : Act → Bool
  | .testExit | .section1 | .testStarted | .section2 _ | .wake | .testState | .procReturn => true
  | _ => false

def Act.isPost : Act → Bool
  | .post .. => true
  | _ => false

/-- How many steps a worker that finds work needs at most until its next second section
is over. -/
def Worker.rest : Worker → Nat
  | .lock2 => 1
  | .unlocked => 2
  | .lock1 | .idle => 3
  | .loop => 4
  | .timedWait .. | .running _ => 5
  | .fetched _ => 6
  | .none | .exit | .crashed => 0

/-- A step of the worker of a serving looper, and what it does. -/
inductive Works (s : Looper) : Act → Looper → Prop where
  | moves {a : Act} {w : Worker} (forward : w.rest < s.worker.rest) (loop : w.inLoop)
      (empty : s.worker.hand = .empty) (same : w.hand = .empty) :
      Works s a { s with worker := w }
  | sleeps (empty : s.worker.hand = .empty) (tasks : s.taskList = []) :
      Works s .section1 { s with cond := s.cond.wait .worker, worker := .idle }
  | waits {now : ClockMs} {task : TimerTask} {rest : TimerTaskList}
      (empty : s.worker.hand = .empty) (tasks : s.taskList = task :: rest)
      (later : now.ms < task.procMs.ms) :
      Works s (.section2 now)
        { s with
          cond := s.cond.wait .worker
          worker := .timedWait now (task.procMs.remaining now) }
  | takes {now : ClockMs} {task : TimerTask} {rest : TimerTaskList} (lock : s.worker = .lock2)
      (tasks : s.taskList = task :: rest) :
      Works s (.section2 now) { s with taskList := rest, worker := .fetched task }
  | calls {task : TimerTask} (hand : s.worker = .fetched task) (valid : task.state = .valid) :
      Works s .testState { s with worker := .running task, invoked := s.invoked ++ [task] }
  | ends {a : Act} {task : TimerTask} (hand : s.worker = .running task ∨
      s.worker = .fetched task ∧ task.state ≠ .valid) :
      Works s a { s with worker := .loop, destroyed := s.destroyed ++ [task.ticket] }

theorem Serving.works {s t : Looper} {a : Act} (h : s.Serving) (ha : a.isWork)
    (ht : s.step a = some t) : s.Works a t := by
  have hstarted := h.started
  cases step_effect ht with
  | testExit here =>
    have hexit : s.thread.exitPending = false := h.launched.ready h.worker (Or.inl hstarted)
    rw [hexit]
    exact .moves (by simp [here, Worker.rest]) rfl (by rw [here]; rfl) rfl
  | sleeps here _ bare =>
    exact .sleeps (by rcases here with hw | ⟨hw, _⟩ <;> rw [hw] <;> rfl) bare
  | passes here =>
    rcases here with hw | ⟨hw, _⟩ <;>
      exact .moves (by simp [hw, Worker.rest]) rfl (by rw [hw]; rfl) rfl
  | testStarted here =>
    rw [if_pos hstarted]
    exact .moves (by simp [here, Worker.rest]) rfl (by rw [here]; rfl) rfl
  | crashes here bare => exact absurd bare (h.fed.lock2 here)
  | takes here tasks => exact .takes here tasks
  | waits here tasks later => exact .waits (by rw [here]; rfl) tasks later
  | wakes here => exact .moves (by simp [here, Worker.rest]) rfl (by rw [here]; rfl) rfl
  | calls hand valid => exact .calls hand valid
  | skips hand unfit => exact .ends (Or.inr ⟨hand, unfit⟩)
  | ends hand => exact .ends (Or.inl hand)
  | same ignored => cases ignored <;> cases ha
  | _ => cases ha

/-- The worker can go on, or has a reason not to: nothing to do, nothing due yet, or a
procedure that is none. -/
def GoesOn (s : Looper) : Prop :=
  (∃ a, a.isWork ∧ (s.step a).isSome) ∨ (s.worker = .idle ∧ s.taskList = []) ∨
    s.AwaitsHead ∨ ∃ task, s.worker = .fetched task ∧ task.proc = NULL

theorem Serving.goes_on {s : Looper} (h : s.Serving) : s.GoesOn := by
  have hstep := h.unlocked
  have hworker := h.worker
  cases hw : s.worker with
  | none | exit =>
    rw [hw] at hworker
    cases hworker
  | crashed => exact absurd hw h.fed.safe
  | loop => exact Or.inl ⟨.testExit, rfl, by simp [hstep, act, testExit, hw]⟩
  | lock1 =>
    refine Or.inl ⟨.section1, rfl, ?_⟩
    simp only [hstep, act, Looper.section1, hw]
    split <;> rfl
  | unlocked => exact Or.inl ⟨.testStarted, rfl, by simp [hstep, act, testStarted, hw]⟩
  | lock2 =>
    refine Or.inl ⟨.section2 (timeMs 0), rfl, ?_⟩
    simp only [hstep, act, section2, hw]
    split
    · rfl
    · split <;> rfl
  | running task => exact Or.inl ⟨.procReturn, rfl, by simp [hstep, act, procReturn, hw]⟩
  | fetched task =>
    by_cases hproc : task.proc = NULL
    · exact Or.inr (Or.inr (Or.inr ⟨task, hw, hproc⟩))
    · refine Or.inl ⟨.testState, rfl, ?_⟩
      simp only [hstep, act, testState, hw, hproc, if_false]
      split <;> rfl
  | idle =>
    by_cases hasleep : s.Asleep
    · rcases h.undisturbed.watchful hasleep with hidle | ⟨now, delay, htimed, _⟩
      · exact Or.inr (Or.inl hidle)
      · rw [hw] at htimed
        cases htimed
    · refine Or.inl ⟨.section1, rfl, ?_⟩
      have hawake : .worker ∉ s.cond.waiters := hasleep
      simp only [hstep, act, Looper.section1, hw, hawake, if_false]
      split <;> rfl
  | timedWait now delay =>
    by_cases hasleep : s.Asleep
    · rcases h.undisturbed.watchful hasleep with ⟨hidle, _⟩ | htimed
      · rw [hw] at hidle
        cases hidle
      · exact Or.inr (Or.inr (Or.inl htimed))
    · have hawake : .worker ∉ s.cond.waiters := hasleep
      exact Or.inl ⟨.wake, rfl, by simp [hstep, act, wake, hw, hawake]⟩

/-- A step of anyone but the worker leaves it where it is. -/
theorem Serving.aside {s t : Looper} {a : Act} (h : s.Serving) (hgentle : a.Gentle)
    (ha : a.isWork = false) (ht : s.step a = some t) : t.worker = s.worker ∧ t.started := by
  have hstarted := h.started
  have hstarting := h.launched.once hstarted
  have hcalm := h.undisturbed.unstopped.calm
  cases step_effect ht with
  | clear => exact absurd rfl hgentle.1
  | stopSignal => exact absurd rfl (hgentle.2 _ _)
  | start off => simp [off] at hstarted
  | reset hs | launch hs =>
    rw [hstarting] at hs
    cases hs
  | stopRequest called | stopWaits called | stopReturns called => simp [hcalm] at called
  | finish exit =>
    have hworker := h.worker
    rw [exit] at hworker
    cases hworker
  | same | post | cancel | timeout | leave => exact ⟨rfl, hstarted⟩
  | testExit | sleeps | passes | testStarted | crashes | takes | waits | wakes | calls | skips
  | ends => cases ha

theorem Serving.step {s t : Looper} {a : Act} (h : s.Serving) (ha : a.Gentle)
    (hstep : s.step a = some t) : t.Serving := by
  have hinv : t.Undisturbed ∧ t.Fed ∧ t.Launched :=
    ⟨h.undisturbed.step ha hstep, h.fed.step ha.1 hstep,
      h.launched.step h.undisturbed.unstopped ha hstep⟩
  obtain ⟨hundisturbed, hfed, hlaunched⟩ := hinv
  cases hwork : a.isWork with
  | false =>
    obtain ⟨hworker, hstarted⟩ := h.aside ha hwork hstep
    exact ⟨hundisturbed, hfed, hlaunched, hstarted, hworker ▸ h.worker⟩
  | true =>
    have hworks := h.works hwork hstep
    cases hworks with
    | moves _ loop => exact ⟨hundisturbed, hfed, hlaunched, h.started, loop⟩
    | sleeps | waits | takes | calls | ends =>
      exact ⟨hundisturbed, hfed, hlaunched, h.started, rfl⟩

/-- What may happen without `task` being kept from its turn: its id is not cancelled, and
the clock has reached its time. -/
def Allows (task : TimerTask) (a : Act) : Prop :=
  a ≠ .cancel task.id ∧ ∀ now, a = .section2 now → task.procMs.ms ≤ now.ms

section Books

variable {s : Looper} {task : TimerTask} {a : Act} {op : Ledger.Op}

theorem Books.isPost (h : s.Books a op) : op.isPost = a.isPost := by
  cases h <;> rfl

theorem Books.spares (h : s.Books a op) (hgentle : a.Gentle) (ha : Allows task a) :
    op.Spares task := by
  cases h with
  | clear => exact absurd rfl hgentle.1
  | cancel id => exact fun he => ha.1 (he ▸ rfl)
  | _ => trivial

theorem Books.ran (h : s.Books a op) (hvalid : task.state = .valid) (hop : op = .destroy) :
    s.ledger.hand ≠ .fetched task := by
  intro hhand
  cases h with
  | skip taken hw unfit =>
    simp only [ledger, hw, Worker.hand, Hand.fetched.injEq] at hhand
    exact unfit (hhand ▸ hvalid)
  | done taken hw => simp [ledger, hw, Worker.hand] at hhand
  | _ => cases hop

end Books

structure Owing (task : TimerTask) (s : Looper) : Prop where
  serving : s.Serving
  underway : Ledger.Underway task s.ledger

/-- The steps of the worker that it takes at most until the task is done: six for each turn
up to its own, and those of the iteration under way. -/
def rank (task : TimerTask) (s : Looper) : Nat :=
  6 * Ledger.turns task s.ledger + s.worker.rest - 10

def postDelay (a : Act) : Nat := 6 * a.isPost.toNat

section Owing

variable {s t : Looper} {task : TimerTask} {a : Act}

theorem Owing.done (h : Owing task s) (hdone : Ledger.Done task s.ledger)
    (ht : s.step a = some t) : Ledger.Done task t.ledger := by
  rcases step_ledger h.serving.undisturbed.settled.owned ht with hsame | ⟨op, hop⟩
  · exact hsame ▸ hdone
  · exact hdone.step hop

/-- Only a post can set a task back, by one turn at most. -/
theorem Owing.nearer (h : Owing task s) (hvalid : task.state = .valid)
    (hnot : ¬ Ledger.Done task s.ledger) (hgentle : a.Gentle) (ha : Allows task a)
    (ht : s.step a = some t) : Ledger.Nearer task s.ledger t.ledger 0 a.isPost.toNat := by
  rcases step_books h.serving.undisturbed.settled.owned ht with hsame | ⟨op, hbooks, hop⟩
  · rw [hsame]
    exact ⟨h.underway, Or.inr (Nat.le_add_right _ _)⟩
  · have hnear := h.underway.step h.serving.undisturbed.books hvalid hnot
      (hbooks.spares hgentle ha) (hbooks.ran hvalid) hop
    rw [hbooks.isPost] at hnear
    exact ⟨hnear.1, hnear.2.imp id (fun hle => Nat.le_trans (Nat.le_add_right _ _) hle)⟩

theorem Owing.step (h : Owing task s) (hvalid : task.state = .valid) (hgentle : a.Gentle)
    (ha : Allows task a) (ht : s.step a = some t) : Owing task t := by
  refine ⟨h.serving.step hgentle ht, ?_⟩
  by_cases hdone : Ledger.Done task s.ledger
  · exact .done (h.done hdone ht)
  · exact (h.nearer hvalid hdone hgentle ha ht).1

theorem ten_lt_rank (task : TimerTask) (s : Looper) :
    10 < 6 * Ledger.turns task s.ledger + s.worker.rest := by
  by_cases hhand : task ∈ s.ledger.hand.tasks
  · rw [Ledger.turns_of_in_hand hhand]
    cases hw : s.worker with
    | fetched | running => simp [Worker.rest]
    | _ => simp [ledger, hw, Worker.hand, Hand.tasks] at hhand
  · rw [Ledger.turns_of_not_in_hand hhand]
    omega

/-- A step of the worker brings a task that is due nearer to its end. -/
theorem Owing.works (h : Owing task s) (hnot : ¬ Ledger.Done task s.ledger) (ha : Allows task a)
    (hw : s.Works a t) (hnear : Ledger.Nearer task s.ledger t.ledger 0 0) :
    Ledger.Done task t.ledger ∨ 6 * Ledger.turns task t.ledger + t.worker.rest <
      6 * Ledger.turns task s.ledger + s.worker.rest := by
  have hlisted : s.worker.hand = .empty → task ∈ s.taskList := by
    intro hempty
    apply h.underway.listed hnot
    change task ∉ s.worker.hand.tasks
    rw [hempty]
    exact List.not_mem_nil
  cases hw with
  | moves forward => exact hnear.2.imp id (fun hle => by simp only; omega)
  | sleeps empty tasks =>
    have hmem := hlisted empty
    rw [tasks] at hmem
    cases hmem
  | @waits now head rest empty tasks later =>
    have hmem := hlisted empty
    have hord : s.taskList.Pairwise TimerTaskList.Before := h.serving.undisturbed.books.ordered
    have hdue := ha.2 now rfl
    rw [tasks] at hmem hord
    have hleast : head.procMs.ms ≤ task.procMs.ms :=
      (least_head hord).2 (List.mem_map.mpr ⟨task, hmem, rfl⟩)
    omega
  | @takes now head rest lock tasks =>
    have hpop : s.ledger.step .pop =
        some ({ s with taskList := rest, worker := .fetched head } : Looper).ledger := by
      simp [ledger, Ledger.step, lock, tasks, Worker.hand]
    rcases (h.underway.pop hnot hpop).2 with hdone | hle
    · exact Or.inl hdone
    · refine Or.inr ?_
      rw [lock]
      simp only [Worker.rest]
      omega
  | calls hand => exact hnear.2.imp id (fun hle => by simp only [hand, Worker.rest]; omega)
  | ends hand =>
    have hbusy : 5 ≤ s.worker.rest := by
      rcases hand with hand | ⟨hand, _⟩ <;> simp [hand, Worker.rest]
    refine hnear.2.imp id (fun hle => ?_)
    change _ + 4 < _
    omega

end Owing

/-- Towards the end of a valid task, by the steps of the worker. -/
theorem progress {task : TimerTask} (hvalid : task.state = .valid) :
    Progress Looper.step (Owing task) (fun _ a => a.Gentle ∧ Allows task a)
      (fun s => Ledger.Done task s.ledger) (rank task) Act.isWork postDelay where
  keep _ _ _ h ha hm := h.step hvalid ha.1 ha.2 hm
  stay _ _ _ h hdone _ hm := h.done hdone hm
  near s a m h hnot ha hm := by
    have hnear := h.nearer hvalid hnot ha.1 ha.2 hm
    have hpos := ten_lt_rank task s
    unfold rank postDelay
    cases hwork : a.isWork with
    | false =>
      obtain ⟨hworker, _⟩ := h.serving.aside ha.1 hwork hm
      refine hnear.2.imp id (fun hle => ?_)
      rw [hworker, Bool.toNat_false]
      omega
    | true =>
      have hpost : a.isPost = false := by cases a <;> first | rfl | cases hwork
      rw [hpost] at hnear ⊢
      refine (h.works hnot ha.2 (h.serving.works hwork hm) hnear).imp id (fun hlt => ?_)
      simp only [Bool.toNat_true, Bool.toNat_false]
      omega
  pos s _ _ := by
    have hpos := ten_lt_rank task s
    unfold rank
    omega

theorem sum_postDelay (as : List Act) :
    (as.map postDelay).sum = 6 * as.countP Act.isPost := by
  rw [← sum_toNat, ← List.sum_map_mul_left]
  rfl

theorem serving_of_run {as : List Act} {s : Looper} (hr : run Looper.step create as = some s)
    (ha : ∀ a ∈ as, a.Gentle) (hstarted : s.started) (hworker : s.worker.inLoop) :
    s.Serving := by
  have hinv : s.Undisturbed ∧ s.Fed ∧ s.Launched :=
    @invariant_of_steps _ _ _ (fun s : Looper => s.Undisturbed ∧ s.Fed ∧ s.Launched) _
      (fun _ _ _ h ha hm => ⟨h.1.step ha hm, h.2.1.step ha.1 hm,
        h.2.2.step h.1.unstopped ha hm⟩) _ _ _
      ⟨undisturbed_create, fed_create, launched_create⟩ (throughout_of_mem (fun _ => ha) create) hr
  exact ⟨hinv.1, hinv.2.1, hinv.2.2, hstarted, hworker⟩

/-- The worker of a looper that nobody stops or clears can always go on, unless there is
nothing to do yet; and every task that is posted and not cancelled is called and destroyed as
soon as the worker has gone to the end of its iteration and through six steps for each task
before it and each that is posted meanwhile, with the clock at its time. -/
theorem task_served {as bs : List Act} {s t : Looper} (hr : run Looper.step create as = some s)
    (ha : ∀ a ∈ as, a.Gentle) (hstarted : s.started) (hworker : s.worker.inLoop)
    (hrun : run Looper.step s bs = some t) (hb : ∀ b ∈ bs, b.Gentle) :
    t.GoesOn ∧ ∀ task ∈ s.taskList, task.state = .valid → (∀ b ∈ bs, Allows task b) →
      6 * (s.taskList.idxOf task + bs.countP Act.isPost) + s.worker.rest + 2 ≤
        bs.countP Act.isWork → task ∈ t.invoked ∧ task.ticket ∈ t.destroyed := by
  have hserving := serving_of_run hr ha hstarted hworker
  have hgentle : Throughout Looper.step (fun _ a => a.Gentle) s bs :=
    throughout_of_mem (fun _ => hb) s
  refine ⟨(invariant_of_steps (fun _ _ _ h ha hm => Serving.step h ha hm) hserving hgentle
    hrun).goes_on, fun task hlisted hvalid hallows hwork => ?_⟩
  have howing : Owing task s := ⟨hserving, .pending hlisted⟩
  have hallowed : Throughout Looper.step (fun _ a => Allows task a) s bs :=
    throughout_of_mem (fun _ => hallows) s
  apply (progress hvalid).reaches howing (hgentle.and hallowed) hrun
  have hother := hserving.undisturbed.books.not_in_hand hlisted
  rw [sum_postDelay, rank, Ledger.turns_of_not_in_hand hother]
  change 6 * (s.taskList.idxOf task + 2) + s.worker.rest - 10 + _ ≤ _
  omega

/-- Two posts before the worker first looks; the third is due before the second. -/
def second : Post := ⟨timeMs 0, DelayMs.ofInt32 20, 200, 2, 7, 8⟩

def twoPosts : List Act :=
  [.start, .startStore, .startStore, .testExit,
    .post ⟨timeMs 0, DelayMs.ofInt32 0, 100, 1, 0, 0⟩ none, .post second none]

def iteration : List Act :=
  [.testStarted, .section2 (timeMs 20000), .testState, .procReturn]

def serveThree : List Act :=
  .section1 :: .post ⟨timeMs 0, DelayMs.ofInt32 10, 300, 3, 0, 0⟩ none :: iteration ++
    [.testExit, .section1] ++ iteration ++ [.testExit, .section1] ++ iteration

theorem second_served : ∃ s t, run Looper.step create twoPosts = some s ∧
    run Looper.step s serveThree = some t ∧ t.invoked.map TimerTask.ticket = [0, 2, 1] ∧
    1 ∈ t.destroyed := by
  have hdue : (second.task 1).procMs.ms ≤ (timeMs 20000#64).ms := by decide
  have hgentle : ∀ b ∈ serveThree, b.Gentle := by
    simp [serveThree, iteration, Act.Gentle]
  have hallowed : ∀ b ∈ serveThree, Allows (second.task 1) b := by
    simp [serveThree, iteration, Allows, hdue]
  obtain ⟨s, hs⟩ : ∃ s, run Looper.step create twoPosts = some s := ⟨_, rfl⟩
  obtain ⟨t, ht⟩ : ∃ t, run Looper.step s serveThree = some t := by
    cases hs
    exact ⟨_, rfl⟩
  have hserved := @task_served twoPosts serveThree s t hs (by simp [twoPosts, Act.Gentle])
  refine ⟨s, t, hs, ht, ?_, ?_⟩
  · cases hs
    cases ht
    rfl
  · cases hs
    exact ((hserved rfl rfl ht hgentle).2 (second.task 1) (by decide) rfl hallowed (by decide)).2

end Awe.Looper
