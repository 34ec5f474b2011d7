import Awe.Ledger
import Awe.Lib.CondVar
import Awe.Thread

namespace Awe

namespace Looper

/-- Who can sleep on `_cond`: the worker, and threads inside `awe_looper_stop`. -/
inductive Waiter where
  | worker
  | stop (thread : Nat)
  deriving DecidableEq

/-- Where the worker stands in `looper_thread_process`. -/
inductive Worker where
  | none
  | loop
  | lock1
  | idle
  | unlocked
  | lock2
  | timedWait (now : ClockMs) (delay : Int)
  | fetched (task : TimerTask)
  | running (task : TimerTask)
  | exit
  | crashed
  deriving DecidableEq

def Worker.hand : Worker → Hand
  | .fetched t => .fetched t
  | .running t => .running t
  | _ => .empty

inductive StopCall where
  | none
  | request
  | check
  | waiting
  deriving DecidableEq

end Looper

/-- `struct awe_looper` with its threads, and the record of what was posted,
invoked and destroyed. -/
structure Looper where
  started : Bool
  thread : Thread
  starting : Starting
  cond : CondVar Looper.Waiter
  taskList : TimerTaskList
  worker : Looper.Worker
  stops : Nat → Looper.StopCall
  posted : List TimerTask
  invoked : List TimerTask
  destroyed : List Nat

namespace Looper

def create : Looper where
  started := false
  thread := Thread.create
  starting := .none
  cond := CondVar.new
  taskList := []
  worker := .none
  stops := fun _ => .none
  posted := []
  invoked := []
  destroyed := []

def ledger (s : Looper) : Ledger := ⟨s.taskList, s.worker.hand, s.posted, s.invoked, s.destroyed⟩

/-- `awe_looper_post`; `none` where the address is one the allocator cannot give. -/
def post (s : Looper) (p : Post) (pick : Option Waiter) : Option (Ptr × Looper) :=
  if !s.started then some (NULL, s)
  else if p.id = NULL ∨ p.id ∈ s.ledger.allocated.map TimerTask.id then none
  else (s.cond.signal pick).map (fun c => (p.id, { s with
    taskList := s.taskList.insert (p.task s.posted.length)
    cond := c
    posted := s.posted ++ [p.task s.posted.length] }))

def cancel (s : Looper) (id : Ptr) : Status × Looper :=
  if !s.started then (-1, s)
  else
    let (found, list) := s.taskList.cancel id
    (found, { s with taskList := list })

def clear (s : Looper) : Looper :=
  { s with taskList := [], destroyed := s.destroyed ++ s.taskList.map TimerTask.ticket }

/-- `awe_looper_start` up to the `pthread_create` of `awe_thread_start`. With a
thread still recorded in `_tid` the assertion aborts. -/
def start (s : Looper) : Option Looper :=
  if s.started then some s
  else if s.thread.tid then none
  else some { s with
    thread := { s.thread with tid := true }
    starting := .created
    worker := .loop }

/-- The stores after `pthread_create`, and the unlock at the end of `awe_looper_start`. -/
def startStore (s : Looper) : Option Looper :=
  match s.starting with
  | .created => some { s with
      thread := { s.thread with exitPending := false }
      starting := .reset }
  | .reset => some { s with
      thread := { s.thread with running := true }
      starting := .none
      started := true }
  | .none => none

/-- The first critical section of `awe_looper_stop`. -/
def stopSignal (s : Looper) (thread : Nat) (pick : Option Waiter) : Option Looper :=
  match s.stops thread with
  | .none =>
    if !s.started then some s
    else (s.cond.signal pick).map (fun c => { s with
      started := false
      cond := c
      stops := Function.update s.stops thread .request })
  | _ => none

def stopRequest (s : Looper) (thread : Nat) : Option Looper :=
  match s.stops thread with
  | .request => some { s with
      thread := s.thread.requestExit
      stops := Function.update s.stops thread .check }
  | _ => none

/-- `while(awe_thread_running)` of the second section of `awe_looper_stop`. -/
def stopCheck (s : Looper) (thread : Nat) : Option Looper :=
  let test := if s.thread.running then
      { s with
        cond := s.cond.wait (.stop thread)
        stops := Function.update s.stops thread .waiting }
    else { s with stops := Function.update s.stops thread .none }
  match s.stops thread with
  | .check => some test
  | .waiting => if .stop thread ∈ s.cond.waiters then none else some test
  | _ => none

def timeout (s : Looper) : Waiter → Option Looper
  | .worker =>
    match s.worker with
    | .timedWait .. => some { s with cond := s.cond.timeout .worker }
    | _ => none
  | .stop thread => some { s with cond := s.cond.timeout (.stop thread) }

def testExit (s : Looper) : Option Looper :=
  match s.worker with
  | .loop => some { s with worker := if s.thread.exitPending then .exit else .lock1 }
  | _ => none

/-- The first critical section, entered or resumed after a wake-up. -/
def section1 (s : Looper) : Option Looper :=
  let test := if s.started ∧ s.taskList = [] then
      { s with cond := s.cond.wait .worker, worker := .idle }
    else { s with worker := .unlocked }
  match s.worker with
  | .lock1 => some test
  | .idle => if .worker ∈ s.cond.waiters then none else some test
  | _ => none

def testStarted (s : Looper) : Option Looper :=
  match s.worker with
  | .unlocked => some { s with worker := if s.started then .lock2 else .exit }
  | _ => none

/-- The second critical section up to its unlock or its timed wait. The head of
an empty list is the list itself, and whatever happens then is not modelled. -/
def section2 (s : Looper) (now : ClockMs) : Option Looper :=
  match s.worker with
  | .lock2 =>
    match s.taskList with
    | [] => some { s with worker := .crashed }
    | task :: rest =>
      if task.procMs.remaining now ≤ 0 then
        some { s with taskList := rest, worker := .fetched task }
      else some { s with
        cond := s.cond.wait .worker
        worker := .timedWait now (task.procMs.remaining now) }
  | _ => none

/-- `awe_cond_timedwait` returns. -/
def wake (s : Looper) : Option Looper :=
  match s.worker with
  | .timedWait .. => if .worker ∈ s.cond.waiters then none else some { s with worker := .loop }
  | _ => none

/-- The test of `_state` outside the mutex. A call through a NULL procedure ends
the process. -/
def testState (s : Looper) : Option Looper :=
  match s.worker with
  | .fetched t =>
    if t.state = .valid then
      if t.proc = NULL then none
      else some { s with worker := .running t, invoked := s.invoked ++ [t] }
    else some { s with worker := .loop, destroyed := s.destroyed ++ [t.ticket] }
  | _ => none

def procReturn (s : Looper) : Option Looper :=
  match s.worker with
  | .running t => some { s with worker := .loop, destroyed := s.destroyed ++ [t.ticket] }
  | _ => none

/-- The section after the loop; the thread leaves `looper_thread_process`. -/
def finish (s : Looper) : Option Looper :=
  match s.worker with
  | .exit => some { s with
      cond := s.cond.broadcast
      thread := { s.thread with leaving := s.thread.leaving ++ [.clearTid] }
      worker := .none }
  | _ => none

def leave (s : Looper) (n : Nat) : Option Looper :=
  (s.thread.leave n).map (fun t => { s with thread := t })

inductive Act where
  | post (p : Post) (pick : Option Waiter)
  | cancel (id : Ptr)
  | clear
  | start
  | startStore
  | stopSignal (thread : Nat) (pick : Option Waiter)
  | stopRequest (thread : Nat)
  | stopCheck (thread : Nat)
  | timeout (w : Waiter)
  | testExit
  | section1
  | testStarted
  | section2 (now : ClockMs)
  | wake
  | testState
  | procReturn
  | finish
  | leave (n : Nat)

def Act.locks : Act → Bool
  | .post .. | .cancel _ | .clear | .start | .stopSignal .. | .stopCheck _
  | .section1 | .section2 _ | .wake | .finish => true
  | _ => false

/-- One atomic action, not looking at who holds the mutex. -/
def act (s : Looper) : Act → Option Looper
  | .post p pick => (s.post p pick).map Prod.snd
  | .cancel id => some (s.cancel id).2
  | .clear => some s.clear
  | .start => s.start
  | .startStore => s.startStore
  | .stopSignal thread pick => s.stopSignal thread pick
  | .stopRequest thread => s.stopRequest thread
  | .stopCheck thread => s.stopCheck thread
  | .timeout w => s.timeout w
  | .testExit => s.testExit
  | .section1 => s.section1
  | .testStarted => s.testStarted
  | .section2 now => s.section2 now
  | .wake => s.wake
  | .testState => s.testState
  | .procReturn => s.procReturn
  | .finish => s.finish
  | .leave n => s.leave n

/-- Critical sections are atomic, `awe_looper_start` apart: while it stores the
flags of its new thread it keeps everyone else out of theirs. -/
def step (s : Looper) (a : Act) : Option Looper :=
  if s.starting ≠ .none ∧ a.locks then none else s.act a

end Looper

end Awe
