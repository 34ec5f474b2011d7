import Awe.CTypes
import Awe.Lib.Heap

namespace Awe

open Heap (Handle)

namespace Scheduler

inductive EvtimerType where
  | nonperiodic
  | periodic
  deriving DecidableEq

/-- The handlers a descriptor can have: the scheduler's own, or one of the user's. -/
inductive Handler where
  | triggerEvent
  | user (proc : Ptr)
  deriving DecidableEq

/-- `struct awe_evio_userdata` with its `ev_io`. -/
structure EvIo where
  fd : Int
  events : BitVec 32
  proc : Handler
  userdata : Ptr
  deriving DecidableEq

/-- `struct awe_evtimer_userdata` with its `ev_timer`. -/
structure EvTimer where
  type : EvtimerType
  ms : Int
  proc : Ptr
  userdata : Ptr
  arg : Int
  deriving DecidableEq

inductive Body where
  | io (w : EvIo)
  | timer (w : EvTimer)
  deriving DecidableEq

/-- A reference-counted record and the watcher embedded in it. -/
structure Record where
  refs : Int
  body : Body
  deriving DecidableEq

/-- `struct awe_evtigger`, one datagram of the socket pair. -/
structure Trigger where
  proc : Ptr
  userdata : Ptr
  arg : Int
  deriving DecidableEq

/-- The procedure the loop is inside of. -/
inductive Callback where
  | none
  | timer (w : Handle)
  | other
  deriving DecidableEq

end Scheduler

/-- `struct awe_scheduler` with the records of its heap, the active watchers of its
loop, and the triggers accepted and executed since the last start. `capacity` is the
number of datagrams the socket pair holds. -/
structure Scheduler where
  started : Bool
  capacity : Nat
  sockpair : List Scheduler.Trigger
  evioList : List Ptr
  evtimerList : List Ptr
  evtimeoutList : List Ptr
  triggertoken : Ptr
  heap : Heap Scheduler.Record
  ioActive : List Handle
  timerActive : List Handle
  callback : Scheduler.Callback
  accepted : List Scheduler.Trigger
  executed : List Scheduler.Trigger

namespace Scheduler

def create (capacity : Nat) : Scheduler where
  started := false
  capacity := capacity
  sockpair := []
  evioList := []
  evtimerList := []
  evtimeoutList := []
  triggertoken := NULL
  heap := Heap.empty
  ioActive := []
  timerActive := []
  callback := .none
  accepted := []
  executed := []

/-- `awe_evio_userdata_autorelease` and `awe_evtimer_userdata_autorelease`. -/
def autorelease (heap : Heap Record) (a : Ptr) : Heap Record :=
  match heap.get? a with
  | none => heap
  | some r =>
    if r.refs = 1 then heap.free a else heap.modify a (fun r => { r with refs := r.refs - 1 })

/-- The reference `awe_linkedlist_add` takes. -/
def addRef (heap : Heap Record) (a : Ptr) : Heap Record :=
  heap.modify a (fun r => { r with refs := r.refs + 1 })

/-- `awe_linkedlist_clear`: every record of the list is released, nothing stopped. -/
def clearList (heap : Heap Record) (list : List Ptr) : Heap Record := list.foldl autorelease heap

/-- `ev_io_stop` of the watcher in the record at `a`. -/
def ioStop (s : Scheduler) (a : Ptr) : List Handle :=
  s.ioActive.filter (fun w => s.heap.handle? a ≠ some w)

/-- `ev_timer_stop` of the watcher in the record at `a`. -/
def timerStop (s : Scheduler) (a : Ptr) : List Handle :=
  s.timerActive.filter (fun w => s.heap.handle? a ≠ some w)

/-- `awe_scheduler_watch`; `none` where the address is one the allocator cannot give. -/
def watch (s : Scheduler) (a : Ptr) (w : EvIo) : Option (Ptr × Scheduler) :=
  if !s.started then some (NULL, s)
  else if a = NULL then none
  else (s.heap.alloc a ⟨1, .io w⟩).map (fun heap => (a, { s with
    heap := autorelease (addRef heap a) a
    ioActive := ⟨a, s.heap.next⟩ :: s.ioActive
    evioList := s.evioList ++ [a] }))

def setIo (f : BitVec 32 → BitVec 32) (r : Record) : Record :=
  match r.body with
  | .io w => { r with body := .io { w with events := f w.events } }
  | .timer _ => r

/-- Rewrites the watcher of the io record at `token`; a dead token is the caller's
error and what happens then is not modelled. -/
def setEvents (s : Scheduler) (token : Ptr) (f : BitVec 32 → BitVec 32) (restart : Bool) :
    Option Scheduler :=
  match s.heap.get? token, s.heap.handle? token with
  | some ⟨_, .io w⟩, some h =>
    some { s with
      heap := s.heap.modify token (setIo f)
      ioActive := if restart ∨ (f w.events).toInt > 0 then h :: s.ioStop token
        else s.ioStop token }
  | _, _ => none

def disable (s : Scheduler) (token : Ptr) (events : BitVec 32) : Option Scheduler :=
  if token = NULL then some s else s.setEvents token (· &&& ~~~events) false

def enable (s : Scheduler) (token : Ptr) (events : BitVec 32) : Option Scheduler :=
  if !s.started ∨ token = NULL then some s else s.setEvents token (· ||| events) true

def socktokenDestroy (s : Scheduler) (token : Ptr) : Scheduler :=
  if token ∈ s.evioList then
    { s with
      evioList := s.evioList.erase token
      ioActive := s.ioStop token
      heap := autorelease s.heap token }
  else s

def disableTrigger (s : Scheduler) : Scheduler :=
  { s.socktokenDestroy s.triggertoken with triggertoken := NULL }

/-- `awe_scheduler_timertask`; `none` where the address is one the allocator cannot give. -/
def timertask (s : Scheduler) (a : Ptr) (w : EvTimer) : Option (Ptr × Scheduler) :=
  if !s.started then some (NULL, s)
  else if a = NULL then none
  else (s.heap.alloc a ⟨1, .timer w⟩).map (fun heap => (a, { s with
    heap := autorelease (addRef heap a) a
    timerActive := ⟨a, s.heap.next⟩ :: s.timerActive
    evtimerList := s.evtimerList ++ [a] }))

def setTimer (ms arg : Int) (r : Record) : Record :=
  match r.body with
  | .timer w => { r with body := .timer { w with ms := ms, arg := arg } }
  | .io _ => r

def taskAgain (s : Scheduler) (token : Ptr) (ms arg : Int) : Status × Scheduler :=
  if !s.started then (-1, s)
  else if token ∈ s.evtimerList then
    (AWE_OK, { s with
      heap := s.heap.modify token (setTimer ms arg)
      timerActive := (s.heap.handle? token).toList ++ s.timerStop token })
  else (-1, s)

def tasktokenDestroy (s : Scheduler) (token : Ptr) : Scheduler :=
  if token ∈ s.evtimerList then
    { s with
      evtimerList := s.evtimerList.erase token
      timerActive := s.timerStop token
      heap := autorelease s.heap token }
  else s

def stop (s : Scheduler) : Scheduler :=
  if !s.started then s
  else
    let heap := clearList (clearList (clearList s.heap s.evioList) s.evtimerList) s.evtimeoutList
    let cleared := { s with
      started := false
      heap := heap
      evioList := []
      evtimerList := []
      evtimeoutList := [] }
    { cleared.disableTrigger with sockpair := [] }

/-- `awe_scheduler_start`; `threadOk` tells whether `awe_thread_start` succeeds, which
only a start with `thread` asks. -/
def start (s : Scheduler) (thread threadOk : Bool) (a : Ptr) (fd : Int) :
    Option (Status × Scheduler) :=
  if s.started then some (AWE_OK, s)
  else
    let opened := { s with started := true, sockpair := [], accepted := [], executed := [] }
    (opened.watch a ⟨fd, AWE_READ, .triggerEvent, NULL⟩).map (fun (token, t) =>
      let t := { t with triggertoken := token }
      if thread && !threadOk then (-1, t.stop) else (AWE_OK, t))

/-- `awe_scheduler_trigger`: the datagram is dropped when the queue is full, and the
result of the write is not looked at. -/
def trigger (s : Scheduler) (t : Trigger) : Status × Scheduler :=
  if !s.started then (-1, s)
  else (AWE_OK, { s with
    sockpair := if s.sockpair.length < s.capacity then s.sockpair ++ [t] else s.sockpair
    accepted := s.accepted ++ [t] })

/-- The public calls, with the addresses the allocator returns. -/
inductive Call where
  | start (thread threadOk : Bool) (a : Ptr) (fd : Int)
  | stop
  | watch (a : Ptr) (fd : Int) (events : BitVec 32) (proc userdata : Ptr)
  | enable (token : Ptr) (events : BitVec 32)
  | disable (token : Ptr) (events : BitVec 32)
  | socktokenDestroy (token : Ptr)
  | delayedtask (a : Ptr) (ms : Int) (proc userdata : Ptr) (arg : Int)
  | periodictask (a : Ptr) (ms : Int) (proc userdata : Ptr) (arg : Int)
  | taskAgain (token : Ptr) (ms arg : Int)
  | tasktokenDestroy (token : Ptr)
  | trigger (t : Trigger)

def call (s : Scheduler) : Call → Option Scheduler
  | .start thread threadOk a fd => (s.start thread threadOk a fd).map Prod.snd
  | .stop => some s.stop
  | .watch a fd events proc userdata =>
    (s.watch a ⟨fd, events, .user proc, userdata⟩).map Prod.snd
  | .enable token events => s.enable token events
  | .disable token events => s.disable token events
  | .socktokenDestroy token => some (s.socktokenDestroy token)
  | .delayedtask a ms proc userdata arg =>
    (s.timertask a ⟨.nonperiodic, ms, proc, userdata, arg⟩).map Prod.snd
  | .periodictask a ms proc userdata arg =>
    (s.timertask a ⟨.periodic, ms, proc, userdata, arg⟩).map Prod.snd
  | .taskAgain token ms arg => some (s.taskAgain token ms arg).2
  | .tasktokenDestroy token => some (s.tasktokenDestroy token)
  | .trigger t => some (s.trigger t).2

/-- What `recv` makes of a readable trigger descriptor: a datagram, a reason to try
again, or an error. -/
inductive Recv where
  | data
  | again
  | error
  deriving DecidableEq

/-- `scheduler_trigger_event_proc`. A procedure of NULL is skipped. -/
def triggerEvent (s : Scheduler) : Recv → Option Scheduler
  | .data =>
    match s.sockpair with
    | [] => none
    | t :: rest =>
      if t.proc = NULL then some { s with sockpair := rest }
      else some { s with sockpair := rest, executed := s.executed ++ [t], callback := .other }
  | .again => some s
  | .error => some s.disableTrigger

/-- The loop finds the descriptor of `w` ready and runs `scheduler_evio_cb`. The record
of a watcher that dangles is not there to be read. -/
def ioReady (s : Scheduler) (w : Handle) (recv : Recv) : Option Scheduler :=
  if s.callback = .none ∧ w ∈ s.ioActive ∧ s.heap.Live w then
    match s.heap.get? w.addr with
    | some ⟨_, .io ⟨_, _, .triggerEvent, _⟩⟩ => s.triggerEvent recv
    | some ⟨_, .io ⟨_, _, .user proc, _⟩⟩ =>
      if proc = NULL then none else some { s with callback := .other }
    | _ => none
  else none

/-- The loop stops the one-shot timer `w` and calls `scheduler_evtimer_cb`, up to the
call of the task procedure. -/
def fire (s : Scheduler) (w : Handle) : Option Scheduler :=
  if s.callback = .none ∧ w ∈ s.timerActive ∧ s.heap.Live w then
    match s.heap.get? w.addr with
    | some ⟨_, .timer t⟩ =>
      if t.proc = NULL then none
      else some { s with timerActive := s.timerStop w.addr, callback := .timer w }
    | _ => none
  else none

/-- `awe_linkedlist_del` on `_evtimer_list`. -/
def evtimerDel (s : Scheduler) (a : Ptr) : Scheduler :=
  if a ∈ s.evtimerList then
    { s with evtimerList := s.evtimerList.erase a, heap := autorelease s.heap a }
  else s

/-- The procedure returns; after a task procedure `scheduler_evtimer_cb` goes on to
read whatever lies where its record lay. -/
def ret (s : Scheduler) : Option Scheduler :=
  match s.callback with
  | .none => none
  | .other => some { s with callback := .none }
  | .timer w =>
    match s.heap.get? w.addr with
    | some ⟨_, .timer t⟩ =>
      if t.type = .nonperiodic then some { s.evtimerDel w.addr with callback := .none }
      else some { s with callback := .none }
    | _ => none

inductive Act where
  | call (c : Call)
  | ioReady (w : Handle) (recv : Recv)
  | fire (w : Handle)
  | ret

def step (s : Scheduler) : Act → Option Scheduler
  | .call c => s.call c
  | .ioReady w recv => s.ioReady w recv
  | .fire w => s.fire w
  | .ret => s.ret

end Scheduler

end Awe
