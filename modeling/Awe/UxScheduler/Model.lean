import Awe.Ledger
import Awe.Lib.CondVar
import Awe.Thread

namespace Awe

/-- `struct uxevent`; `addr` is where it lies. -/
structure UxEvent where
  addr : Ptr
  ufd : Int
  conditionSet : BitVec 32
  proc : Ptr
  userdata : Ptr
  deriving DecidableEq

namespace UxScheduler

/-- A thread calling into the scheduler; the worker calls from its callbacks. -/
inductive Caller where
  | worker
  | thread (n : Nat)
  deriving DecidableEq

/-- Who can sleep on `_cond`: the idle worker, and callers inside
`awe_uxscheduler_rm` and `awe_uxscheduler_stop`. -/
inductive Waiter where
  | idle
  | call (c : Caller)
  deriving DecidableEq

/-- Where a caller stands in `awe_uxscheduler_rm` or `awe_uxscheduler_stop`. -/
inductive Call where
  | none
  | rmWait
  | stopCheck
  | stopWait
  deriving DecidableEq

/-- A descriptor that `ux_select` has left in one of its sets. -/
structure Ready where
  ufd : Int
  mask : BitVec 32
  deriving DecidableEq

/-- Where the worker stands in `uxscheduler_thread_process`. -/
inductive Worker where
  | none
  | loop
  | guard
  | idle
  | test
  | prepare
  | select (ufdSize : Nat) (rset wset : List Int) (ptv : Option Int)
  | dispatch (todo : List Ready)
  | found (addr : Ptr) (ready : Ready) (todo : List Ready)
  | handling (ready : Ready) (todo : List Ready)
  | endRound
  | fetched (task : TimerTask)
  | running (task : TimerTask)
  | exit
  | crashed
  deriving DecidableEq

def Worker.hand : Worker → Hand
  | .fetched t => .fetched t
  | .running t => .running t
  | _ => .empty

def Worker.inCallback : Worker → Bool
  | .handling .. | .running _ => true
  | _ => false

end UxScheduler

/-- `struct awe_uxscheduler` with its threads, and the record of what was posted,
invoked and destroyed. -/
structure UxScheduler where
  started : Bool
  thread : Thread
  starting : Starting
  cond : CondVar UxScheduler.Waiter
  uxeventList : List UxEvent
  taskList : TimerTaskList
  delayMs : Int
  haveRmopt : Bool
  worker : UxScheduler.Worker
  calls : UxScheduler.Caller → UxScheduler.Call
  posted : List TimerTask
  invoked : List TimerTask
  destroyed : List Nat

namespace UxScheduler

def create : UxScheduler where
  started := false
  thread := Thread.create
  starting := .none
  cond := CondVar.new
  uxeventList := []
  taskList := []
  delayMs := 1000
  haveRmopt := false
  worker := .none
  calls := fun _ => .none
  posted := []
  invoked := []
  destroyed := []

def ledger (s : UxScheduler) : Ledger :=
  ⟨s.taskList, s.worker.hand, s.posted, s.invoked, s.destroyed⟩

def find (list : List UxEvent) (ufd : Int) : Option UxEvent := list.find? (fun e => e.ufd = ufd)

/-- `c` is free to call, the worker from inside a callback only. -/
def mayCall (s : UxScheduler) (c : Caller) : Bool :=
  s.calls c = .none ∧ (c = .worker → s.worker.inCallback)

/-- `awe_uxscheduler_start` up to the `pthread_create` of `awe_thread_start`. With a
thread still recorded in `_tid` the assertion aborts. -/
def start (s : UxScheduler) (delayMs : DelayMs) : Option UxScheduler :=
  if s.started then some s
  else if s.thread.tid then none
  else some { s with
    started := true
    delayMs := if delayMs.ms ≤ 60000 then delayMs.ms else 1000
    thread := { s.thread with tid := true }
    starting := .created
    worker := .loop }

/-- The stores after `pthread_create`, and the unlock at the end of
`awe_uxscheduler_start`. -/
def startStore (s : UxScheduler) : Option UxScheduler :=
  match s.starting with
  | .created => some { s with
      thread := { s.thread with exitPending := false }
      starting := .reset }
  | .reset => some { s with
      thread := { s.thread with running := true }
      starting := .none }
  | .none => none

/-- The first critical section of `awe_uxscheduler_stop`. -/
def stop (s : UxScheduler) (c : Caller) (pick : Option Waiter) : Option UxScheduler :=
  if !s.mayCall c then none
  else if !s.started then some s
  else (s.cond.signal pick).map (fun cond => { s with
    started := false
    thread := s.thread.requestExit
    cond := cond
    calls := Function.update s.calls c .stopCheck })

/-- `while(awe_thread_running)` of the second section of `awe_uxscheduler_stop`. -/
def stopCheck (s : UxScheduler) (c : Caller) : Option UxScheduler :=
  let test := if s.thread.running then
      { s with
        cond := s.cond.wait (.call c)
        calls := Function.update s.calls c .stopWait }
    else { s with calls := Function.update s.calls c .none }
  match s.calls c with
  | .stopCheck => some test
  | .stopWait => if .call c ∈ s.cond.waiters then none else some test
  | _ => none

/-- `awe_uxscheduler_rm` up to its unlock or its timed wait. -/
def rm (s : UxScheduler) (c : Caller) (ufd : Int) : Option UxScheduler :=
  if !s.mayCall c then none
  else match find s.uxeventList ufd with
    | none => some s
    | some uxe =>
      let list := s.uxeventList.erase uxe
      if s.started ∧ c ≠ .worker then
        some { s with
          uxeventList := list
          haveRmopt := true
          cond := s.cond.wait (.call c)
          calls := Function.update s.calls c .rmWait }
      else some { s with uxeventList := list }

/-- `awe_cond_timedwait` of `awe_uxscheduler_rm` returns. -/
def rmReturn (s : UxScheduler) (c : Caller) : Option UxScheduler :=
  match s.calls c with
  | .rmWait =>
    if .call c ∈ s.cond.waiters then none
    else some { s with calls := Function.update s.calls c .none }
  | _ => none

/-- The event list after an add; `addr` is where a new event comes to lie. -/
def addEvent (list : List UxEvent) (addr : Ptr) (ufd : Int) (conditionSet : BitVec 32)
    (proc userdata : Ptr) : List UxEvent :=
  match find list ufd with
  | none => list ++ [⟨addr, ufd, conditionSet, proc, userdata⟩]
  | some uxe => list.replace uxe
      { uxe with conditionSet := conditionSet, proc := proc, userdata := userdata }

/-- `awe_uxscheduler_add`; with an empty set it is `awe_uxscheduler_rm`, whose wait
decides when it returns. `none` where the address is one the allocator cannot give. -/
def add (s : UxScheduler) (c : Caller) (addr : Ptr) (ufd : Int) (conditionSet : BitVec 32)
    (proc userdata : Ptr) (pick : Option Waiter) : Option (Status × UxScheduler) :=
  if !s.mayCall c then none
  else if ufd = 0 then some (-1, s)
  else if conditionSet = 0 then (s.rm c ufd).map (fun t => (AWE_OK, t))
  else if addr = NULL ∨ addr ∈ s.uxeventList.map UxEvent.addr then none
  else (s.cond.signal pick).map (fun cond => (AWE_OK, { s with
    uxeventList := addEvent s.uxeventList addr ufd conditionSet proc userdata
    cond := cond }))

/-- `_conditionSet` of the event found, changed by `f`. -/
def setConditions (s : UxScheduler) (ufd : Int) (f : BitVec 32 → BitVec 32) : UxScheduler :=
  match find s.uxeventList ufd with
  | none => s
  | some uxe => { s with
      uxeventList := s.uxeventList.replace uxe { uxe with conditionSet := f uxe.conditionSet } }

def disable (s : UxScheduler) (ufd : Int) (events : BitVec 32) : UxScheduler :=
  s.setConditions ufd (· &&& ~~~events)

def enable (s : UxScheduler) (ufd : Int) (events : BitVec 32) : UxScheduler :=
  s.setConditions ufd (· ||| events)

/-- `awe_uxscheduler_post`; `none` where the address is one the allocator cannot give. -/
def post (s : UxScheduler) (p : Post) (pick : Option Waiter) : Option (Ptr × UxScheduler) :=
  if !s.started then some (NULL, s)
  else if p.id = NULL ∨ p.id ∈ s.ledger.allocated.map TimerTask.id then none
  else (s.cond.signal pick).map (fun cond => (p.id, { s with
    taskList := s.taskList.insert (p.task s.posted.length)
    cond := cond
    posted := s.posted ++ [p.task s.posted.length] }))

def cancel (s : UxScheduler) (id : Ptr) : Status × UxScheduler :=
  if !s.started then (-1, s)
  else
    let (found, list) := s.taskList.cancel id
    (found, { s with taskList := list })

/-- The lists as `awe_uxscheduler_destroy` empties them after its stop. -/
def clear (s : UxScheduler) : UxScheduler :=
  { s with
    uxeventList := []
    taskList := []
    destroyed := s.destroyed ++ s.taskList.map TimerTask.ticket }

/-- A timed wait reaches its deadline; the idle worker's wait has none. -/
def timeout (s : UxScheduler) (c : Caller) : UxScheduler :=
  { s with cond := s.cond.timeout (.call c) }

def testExit (s : UxScheduler) : Option UxScheduler :=
  match s.worker with
  | .loop => some { s with worker := if s.thread.exitPending then .exit else .guard }
  | _ => none

/-- The idle loop, entered or resumed after a wake-up. -/
def guard (s : UxScheduler) : Option UxScheduler :=
  let test := if s.started ∧ s.uxeventList = [] then
      { s with cond := s.cond.wait .idle, worker := .idle }
    else { s with worker := .test }
  match s.worker with
  | .guard => some test
  | .idle => if .idle ∈ s.cond.waiters then none else some test
  | _ => none

def testStarted (s : UxScheduler) : Option UxScheduler :=
  match s.worker with
  | .test => some { s with worker := if s.started then .prepare else .exit }
  | _ => none

/-- `timeToDelay`, narrowed to `int32_t`. -/
def timeToDelay (task : TimerTask) (now : ClockMs) : Int := int32 (task.procMs.remaining now)

/-- The timeout of the round. -/
def roundDelay (s : UxScheduler) (now : ClockMs) : Int :=
  match s.taskList with
  | [] => s.delayMs
  | task :: _ =>
    if timeToDelay task now ≥ 0 ∧ timeToDelay task now < s.delayMs then timeToDelay task now
    else if timeToDelay task now < 0 then 0
    else s.delayMs

/-- The descriptors registered for one of `events`. -/
def ufdSet (list : List UxEvent) (events : BitVec 32) : List Int :=
  (list.filter (fun e => e.conditionSet &&& events ≠ 0)).map UxEvent.ufd

def prepare (s : UxScheduler) (now : ClockMs) : Option UxScheduler :=
  match s.worker with
  | .prepare =>
    let rset := ufdSet s.uxeventList AWE_READ
    let wset := ufdSet s.uxeventList AWE_WRITE
    let ptv := if s.roundDelay now ≥ 0 then some (s.roundDelay now) else none
    some { s with worker := .select s.uxeventList.length rset wset ptv }
  | _ => none

def readyIn (set : List Int) (mask : BitVec 32) : List Ready :=
  (set.filter (· ≠ 0)).map (fun ufd => ⟨ufd, mask⟩)

/-- `ux_select` returns, having kept in its sets any of the descriptors it was given.
A negative result is an assertion failure. -/
def select (s : UxScheduler) (selectResult : Int) (rset wset : List Int) : Option UxScheduler :=
  match s.worker with
  | .select ufdSize rs ws _ =>
    if ufdSize = 0 then some { s with worker := .endRound }
    else if ¬ (rset ⊆ rs ∧ wset ⊆ ws) ∨ selectResult < 0 then none
    else if selectResult > 0 then
      some { s with worker := .dispatch (readyIn rset AWE_READ ++ readyIn wset AWE_WRITE) }
    else some { s with worker := .endRound }
  | _ => none

/-- The search for the next ready descriptor, made without the mutex. -/
def dispatch (s : UxScheduler) : Option UxScheduler :=
  match s.worker with
  | .dispatch [] => some { s with worker := .endRound }
  | .dispatch (ready :: todo) =>
    match find s.uxeventList ready.ufd with
    | none => some { s with worker := .dispatch todo }
    | some uxe => some { s with worker := .found uxe.addr ready todo }
  | _ => none

/-- The call of the event found. Another thread may have removed and freed it by
now, and what is read then is not modelled. -/
def handle (s : UxScheduler) : Option UxScheduler :=
  match s.worker with
  | .found addr ready todo =>
    match s.uxeventList.find? (fun e => e.addr = addr) with
    | none => some { s with worker := .crashed }
    | some uxe => if uxe.proc = NULL then none else some { s with worker := .handling ready todo }
  | _ => none

def handlerReturn (s : UxScheduler) : Option UxScheduler :=
  match s.worker with
  | .handling _ todo =>
    if s.calls .worker = .none then some { s with worker := .dispatch todo } else none
  | _ => none

/-- A round that has seen a removal wakes everyone. -/
def afterRmopt (s : UxScheduler) : CondVar Waiter :=
  if s.haveRmopt then s.cond.broadcast else s.cond

/-- The critical section that ends a round. -/
def endRound (s : UxScheduler) (now : ClockMs) : Option UxScheduler :=
  match s.worker, s.taskList with
  | .endRound, [] => some { s with haveRmopt := false, cond := s.afterRmopt, worker := .loop }
  | .endRound, task :: rest =>
    if timeToDelay task now ≤ 0 then
      some { s with
        taskList := rest
        haveRmopt := false
        cond := s.afterRmopt
        worker := .fetched task }
    else some { s with haveRmopt := false, cond := s.afterRmopt, worker := .loop }
  | _, _ => none

/-- The test of `_proc` and `_state` outside the mutex. -/
def testTask (s : UxScheduler) : Option UxScheduler :=
  match s.worker with
  | .fetched t =>
    if t.proc ≠ NULL ∧ t.state = .valid then
      some { s with worker := .running t, invoked := s.invoked ++ [t] }
    else some { s with worker := .loop, destroyed := s.destroyed ++ [t.ticket] }
  | _ => none

def procReturn (s : UxScheduler) : Option UxScheduler :=
  match s.worker with
  | .running t =>
    if s.calls .worker = .none then
      some { s with worker := .loop, destroyed := s.destroyed ++ [t.ticket] }
    else none
  | _ => none

/-- The section after the loop; the thread leaves `uxscheduler_thread_process`. -/
def finish (s : UxScheduler) : Option UxScheduler :=
  match s.worker with
  | .exit => some { s with
      cond := s.cond.broadcast
      thread := { s.thread with leaving := s.thread.leaving ++ [.clearTid] }
      worker := .none }
  | _ => none

def leave (s : UxScheduler) (n : Nat) : Option UxScheduler :=
  (s.thread.leave n).map (fun t => { s with thread := t })

inductive Act where
  | start (delayMs : DelayMs)
  | startStore
  | stop (c : Caller) (pick : Option Waiter)
  | stopCheck (c : Caller)
  | rm (c : Caller) (ufd : Int)
  | rmReturn (c : Caller)
  | add (c : Caller) (addr : Ptr) (ufd : Int) (conditionSet : BitVec 32) (proc userdata : Ptr)
    (pick : Option Waiter)
  | disable (ufd : Int) (events : BitVec 32)
  | enable (ufd : Int) (events : BitVec 32)
  | post (p : Post) (pick : Option Waiter)
  | cancel (id : Ptr)
  | clear
  | timeout (c : Caller)
  | testExit
  | guard
  | testStarted
  | prepare (now : ClockMs)
  | select (selectResult : Int) (rset wset : List Int)
  | dispatch
  | handle
  | handlerReturn
  | endRound (now : ClockMs)
  | testTask
  | procReturn
  | finish
  | leave (n : Nat)

def Act.locks : Act → Bool
  | .start _ | .stop .. | .stopCheck _ | .rm .. | .rmReturn _ | .add .. | .disable ..
  | .enable .. | .post .. | .cancel _ | .clear | .guard | .prepare _ | .endRound _
  | .finish => true
  | _ => false

/-- One atomic action, not looking at who holds the mutex. -/
def act (s : UxScheduler) : Act → Option UxScheduler
  | .start delayMs => s.start delayMs
  | .startStore => s.startStore
  | .stop c pick => s.stop c pick
  | .stopCheck c => s.stopCheck c
  | .rm c ufd => s.rm c ufd
  | .rmReturn c => s.rmReturn c
  | .add c addr ufd conditionSet proc userdata pick =>
    (s.add c addr ufd conditionSet proc userdata pick).map Prod.snd
  | .disable ufd events => some (s.disable ufd events)
  | .enable ufd events => some (s.enable ufd events)
  | .post p pick => (s.post p pick).map Prod.snd
  | .cancel id => some (s.cancel id).2
  | .clear => some s.clear
  | .timeout c => some (s.timeout c)
  | .testExit => s.testExit
  | .guard => s.guard
  | .testStarted => s.testStarted
  | .prepare now => s.prepare now
  | .select selectResult rset wset => s.select selectResult rset wset
  | .dispatch => s.dispatch
  | .handle => s.handle
  | .handlerReturn => s.handlerReturn
  | .endRound now => s.endRound now
  | .testTask => s.testTask
  | .procReturn => s.procReturn
  | .finish => s.finish
  | .leave n => s.leave n

/-- Critical sections are atomic, `awe_uxscheduler_start` apart: while it stores the
flags of its new thread it keeps everyone else out of theirs. -/
def step (s : UxScheduler) (a : Act) : Option UxScheduler :=
  if s.starting ≠ .none ∧ a.locks then none else s.act a

end UxScheduler

end Awe
