import Awe.Lib.Attempts
import Awe.Scheduler.Model

namespace Awe
open Heap (Handle)

structure Connector where
  conn : Ptr
  conntoken : Ptr
  timeouttoken : Ptr
  onconnectedProc : Ptr
  userdata : Ptr
  deriving DecidableEq

namespace Connector

/-- `connector_connecthandling` and `connector_connecttimeout` are static: nobody else
has their addresses. -/
@[match_pattern] def connecthandlingProc : Ptr := 1

@[match_pattern] def connecttimeoutProc : Ptr := 2

structure Connected where
  proc : Ptr
  userdata : Ptr
  result : Int
  fd : Int
  deriving DecidableEq

/-- The tokens that one `awe_connector_open` gets: of its watch and of its timeout task. -/
structure Attempt where
  conntoken : Ptr
  timeouttoken : Ptr
  deriving DecidableEq

end Connector

/-- The loop thread: its scheduler and connectors, the watchers whose events are pending
in the loop, the addresses the allocator does not give any more, and what has become of
the connectors' attempts. -/
structure ConnectorLoop where
  sched : Scheduler
  connectors : Ptr → Option Connector
  pendingIo : List Handle
  pendingTimer : List Handle
  used : List Ptr
  log : List (Attempts.Event Ptr Connector.Attempt Connector.Connected)

namespace ConnectorLoop
open Connector

def create (capacity : Nat) : ConnectorLoop where
  sched := Scheduler.create capacity
  connectors := fun _ => none
  pendingIo := []
  pendingTimer := []
  used := [NULL]
  log := []

def setConnector (s : ConnectorLoop) (c : Ptr) (k : Option Connector) : ConnectorLoop :=
  { s with connectors := Function.update s.connectors c k }

def note (s : ConnectorLoop) (e : Attempts.Event Ptr Attempt Connected) : ConnectorLoop :=
  { s with log := s.log ++ [e] }

/-- The record of a new watch or task lies at `a`, where none has ever lain. -/
def alloc {ρ : Type} (s : ConnectorLoop) (a : Ptr) (r : Option (ρ × Scheduler)) :
    Option (ρ × ConnectorLoop) :=
  if a ∈ s.used then none
  else r.map (fun r => (r.1, { s with sched := r.2, used := a :: s.used }))

def watch (s : ConnectorLoop) (a : Ptr) (w : Scheduler.EvIo) : Option (Ptr × ConnectorLoop) :=
  s.alloc a (s.sched.watch a w)

def delayedtask (s : ConnectorLoop) (a : Ptr) (ms : Int) (proc userdata : Ptr) (arg : Int) :
    Option (Ptr × ConnectorLoop) :=
  s.alloc a (s.sched.timertask a ⟨.nonperiodic, ms, proc, userdata, arg⟩)

/-- `awe_scheduler_socktoken_destroy`, with the pending event that `ev_io_stop` discards. -/
def socktokenDestroy (s : ConnectorLoop) (token : Ptr) : ConnectorLoop :=
  { s with
    sched := s.sched.socktokenDestroy token
    pendingIo := if token ∈ s.sched.evioList then
        s.pendingIo.filter (fun w => s.sched.heap.handle? token ≠ some w)
      else s.pendingIo }

/-- `awe_scheduler_tasktoken_destroy`, with the pending event that `ev_timer_stop` discards. -/
def tasktokenDestroy (s : ConnectorLoop) (token : Ptr) : ConnectorLoop :=
  { s with
    sched := s.sched.tasktokenDestroy token
    pendingTimer := if token ∈ s.sched.evtimerList then
        s.pendingTimer.filter (fun w => s.sched.heap.handle? token ≠ some w)
      else s.pendingTimer }

/-- `awe_connector_rmEventHandler`, and the two calls `connector_connecthandling` begins
with: each token is destroyed and forgotten. -/
def rmEventHandler (s : ConnectorLoop) (c : Ptr) (k : Connector) : ConnectorLoop :=
  ((s.socktokenDestroy k.conntoken).tasktokenDestroy k.timeouttoken).setConnector c
    (some { k with conntoken := NULL, timeouttoken := NULL })

/-- `awe_connector_create` -/
def new (s : ConnectorLoop) (c proc userdata : Ptr) : Option ConnectorLoop :=
  match s.connectors c with
  | some _ => none
  | none => some (s.setConnector c (some ⟨NULL, NULL, NULL, proc, userdata⟩))

/-- `awe_connector_open`; `rs` and `fd` are what the connection at `conn` says. A failed
assertion ends the process. -/
def openConn (s : ConnectorLoop) (c conn : Ptr) (rs : Int) (timeout : BitVec 32) (fd : Int)
    (timer io : Ptr) : Option (Status × ConnectorLoop) :=
  match s.connectors c with
  | none => none
  | some k =>
    if k.conn ≠ NULL ∨ conn = NULL then none
    else if rs = 0 ∨ rs = 1 then do
      let ms := if timeout.toInt ≤ 0 ∨ timeout.toInt ≥ 60000 then 60000 else timeout.toInt
      let (timeouttoken, s) ← s.delayedtask timer ms connecttimeoutProc c 0
      let (conntoken, s) ← s.watch io ⟨fd, AWE_WRITE, .user connecthandlingProc, c⟩
      let s := s.setConnector c
        (some { k with conn := conn, conntoken := conntoken, timeouttoken := timeouttoken })
      some (AWE_OK, s.note (.opened c ⟨conntoken, timeouttoken⟩))
    else some (-1, (s.rmEventHandler c { k with conn := conn }).note (.withdrawn c))

def open2 (s : ConnectorLoop) (c conn : Ptr) : Option (Status × ConnectorLoop) :=
  match s.connectors c with
  | none => none
  | some k =>
    if k.conn ≠ NULL then none
    else some (AWE_OK, s.setConnector c (some { k with conn := conn }))

def close (s : ConnectorLoop) (c : Ptr) : Option ConnectorLoop :=
  (s.connectors c).map (fun k => (s.rmEventHandler c k).note (.withdrawn c))

def takeout (s : ConnectorLoop) (c : Ptr) : Option (Ptr × ConnectorLoop) :=
  (s.connectors c).map (fun k =>
    (k.conn, (s.rmEventHandler c { k with conn := NULL }).note (.withdrawn c)))

def destroy (s : ConnectorLoop) (c : Ptr) : Option ConnectorLoop :=
  (s.connectors c).map (fun k =>
    ((s.rmEventHandler c k).setConnector c none).note (.withdrawn c))

def setEventHandler (s : ConnectorLoop) (c : Ptr) (fd : Int) (proc userdata io : Ptr) :
    Option ConnectorLoop :=
  match s.connectors c with
  | none => none
  | some k =>
    if proc = connecthandlingProc then none
    else if k.conntoken = NULL then
      (s.watch io ⟨fd, AWE_READ, .user proc, userdata⟩).map (fun r =>
        r.2.setConnector c (some { k with conntoken := r.1 }))
    else some s

/-- `awe_scheduler_start` without a thread of its own. -/
def start (s : ConnectorLoop) (a : Ptr) (fd : Int) : Option (Status × ConnectorLoop) :=
  s.alloc a (s.sched.start false true a fd)

def ready (s : ConnectorLoop) (w : Handle) : Option ConnectorLoop :=
  if s.sched.callback = .none ∧ w ∈ s.sched.ioActive then
    some { s with pendingIo := w :: s.pendingIo.erase w }
  else none

/-- The time of a one-shot timer is up: the loop stops it, its event is pending. -/
def expire (s : ConnectorLoop) (w : Handle) : Option ConnectorLoop :=
  if s.sched.callback = .none ∧ w ∈ s.sched.timerActive ∧ s.sched.heap.Live w then
    some { s with
      sched := { s.sched with timerActive := s.sched.timerStop w.addr }
      pendingTimer := w :: s.pendingTimer }
  else none

/-- `connector_connecthandling`, up to the call of the connected handler; `result` is
what `awe_socket_connected` returns. -/
def connecthandling (s : ConnectorLoop) (c : Ptr) (fd result : Int) : Option ConnectorLoop :=
  (s.connectors c).map (fun k =>
    let s := (s.rmEventHandler c k).note (.completed c ⟨k.onconnectedProc, k.userdata, result, fd⟩)
    { s with sched := { s.sched with callback := .other } })

/-- `connector_connecttimeout`, up to the call of the connected handler, as the task of
the timer `w`. -/
def connecttimeout (s : ConnectorLoop) (c : Ptr) (w : Handle) : Option ConnectorLoop :=
  (s.connectors c).map (fun k =>
    let s := (s.rmEventHandler c k).note
      (.completed c ⟨k.onconnectedProc, k.userdata, AWE_CONN_TIMEDOUT, 0⟩)
    { s with sched := { s.sched with callback := .timer w } })

/-- The loop runs `scheduler_evio_cb` for a pending event. -/
def dispatchIo (s : ConnectorLoop) (w : Handle) (recv : Scheduler.Recv) (result : Int) :
    Option ConnectorLoop :=
  if s.sched.callback = .none ∧ w ∈ s.pendingIo ∧ s.sched.heap.Live w then
    let s := { s with pendingIo := s.pendingIo.erase w }
    match s.sched.heap.get? w.addr with
    | some ⟨_, .io ⟨fd, _, .user connecthandlingProc, userdata⟩⟩ =>
      s.connecthandling userdata fd result
    | _ => (s.sched.ioReady w recv).map (fun sched =>
      { s with sched := sched, pendingIo := s.pendingIo.filter (· ∈ sched.ioActive) })
  else none

/-- The loop runs `scheduler_evtimer_cb` for a pending event. Connectors post no other
task than their timeout. -/
def dispatchTimer (s : ConnectorLoop) (w : Handle) : Option ConnectorLoop :=
  if s.sched.callback = .none ∧ w ∈ s.pendingTimer ∧ s.sched.heap.Live w then
    let s := { s with pendingTimer := s.pendingTimer.erase w }
    match s.sched.heap.get? w.addr with
    | some ⟨_, .timer ⟨_, _, connecttimeoutProc, userdata, _⟩⟩ => s.connecttimeout userdata w
    | _ => none
  else none

/-- The handler returns. The trampoline goes on to read the type in the record of the
task; where that record is freed, `stale` is what it reads. -/
def ret (s : ConnectorLoop) (stale : Scheduler.EvtimerType) : Option ConnectorLoop :=
  match s.sched.callback with
  | .none => none
  | .other => some { s with sched := { s.sched with callback := .none } }
  | .timer w =>
    let type := match s.sched.heap.get? w.addr with
      | some ⟨_, .timer t⟩ => t.type
      | _ => stale
    let sched := if type = .nonperiodic then s.sched.evtimerDel w.addr else s.sched
    some { s with sched := { sched with callback := .none } }

/-- The calls, with what the allocator, the connection and the descriptors return, and
the events of the loop. -/
inductive Act where
  | start (a : Ptr) (fd : Int)
  | new (c proc userdata : Ptr)
  | openConn (c conn : Ptr) (rs : Int) (timeout : BitVec 32) (fd : Int) (timer io : Ptr)
  | open2 (c conn : Ptr)
  | close (c : Ptr)
  | takeout (c : Ptr)
  | destroy (c : Ptr)
  | setEventHandler (c : Ptr) (fd : Int) (proc userdata io : Ptr)
  | ready (w : Handle)
  | expire (w : Handle)
  | dispatchIo (w : Handle) (recv : Scheduler.Recv) (result : Int)
  | dispatchTimer (w : Handle)
  | ret (stale : Scheduler.EvtimerType)

def step (s : ConnectorLoop) : Act → Option ConnectorLoop
  | .start a fd => (s.start a fd).map Prod.snd
  | .new c proc userdata => s.new c proc userdata
  | .openConn c conn rs timeout fd timer io =>
    (s.openConn c conn rs timeout fd timer io).map Prod.snd
  | .open2 c conn => (s.open2 c conn).map Prod.snd
  | .close c => s.close c
  | .takeout c => (s.takeout c).map Prod.snd
  | .destroy c => s.destroy c
  | .setEventHandler c fd proc userdata io => s.setEventHandler c fd proc userdata io
  | .ready w => s.ready w
  | .expire w => s.expire w
  | .dispatchIo w recv result => s.dispatchIo w recv result
  | .dispatchTimer w => s.dispatchTimer w
  | .ret stale => s.ret stale

end ConnectorLoop

end Awe
