import Awe.Lib.Attempts
import Awe.UxConnector.Model

namespace Awe

namespace UxScheduler

/-- What the worker and the other users of the scheduler do beside its connectors. The
callbacks of a connector are static, so nobody else registers or posts them. -/
def Act.foreign : Act → Bool
  | .start _ | .startStore | .clear | .rm .. | .cancel _ => false
  | .add _ _ _ conditionSet proc _ _ =>
    conditionSet ≠ 0 ∧ proc ≠ UxConnector.connecthandlingProc
  | .post p _ => p.proc ≠ UxConnector.connecttimeoutProc
  | _ => true

def Act.returns : Act → Bool
  | .handlerReturn | .procReturn => true
  | _ => false

end UxScheduler

namespace UxCallbacks

/-- Where the call in progress on a connector stands. The post of a timeout and the store
of its id are two steps. -/
inductive Phase where
  | ready
  | setTimeout
  | storeId (id : Ptr)
  | addHandler
  | openFailed
  | removing (c : UxScheduler.Caller) (after : UxConnector.After)
  | gone
  deriving DecidableEq

/-- `struct awe_uxconnector`, with the descriptor of its `_uxconn`. -/
structure Connector where
  uxconn : Option Int
  timeouttaskId : Ptr
  onconnectedProc : Ptr
  userdata : Ptr
  phase : Phase
  deriving DecidableEq

structure Connected where
  proc : Ptr
  userdata : Ptr
  result : Int
  ufd : Int
  deriving DecidableEq

/-- What a callback of a connector does next. -/
inductive Line where
  | cancel
  | rm
  | call
  | called
  deriving DecidableEq

/-- The procedure that the worker is inside of. -/
inductive Frame where
  | none
  | other
  | connecthandling (self : Ptr) (ufd : Int) (line : Line)
  | connecttimeout (self : Ptr) (line : Line)
  deriving DecidableEq

/-- Inside code of the users', which may call into the scheduler and its connectors. -/
def Frame.user : Frame → Bool
  | .other | .connecthandling _ _ .called | .connecttimeout _ .called => true
  | _ => false

def Frame.connector : Frame → Option Ptr
  | .connecthandling self _ _ | .connecttimeout self _ => some self
  | _ => .none

/-- The end of a call whose event handler and timeout are gone. -/
def Connector.finish (conn : Connector) : UxConnector.After → Connector
  | .close => { conn with phase := .ready }
  | .takeout => { conn with uxconn := none, phase := .ready }
  | .destroy => { conn with uxconn := none, phase := .gone }

end UxCallbacks

/-- A uxscheduler and the connectors at work on it, by address, with the procedure its
worker is inside of. `closing` is the connector that this procedure is closing, and `log`
what has become of the connectors' opens, which are numbered by their place in it. -/
structure UxCallbacks where
  sched : UxScheduler
  connectors : Ptr → UxCallbacks.Connector
  frame : UxCallbacks.Frame
  closing : Option Ptr
  aborted : Bool
  log : List (Attempts.Event Ptr Nat UxCallbacks.Connected)

namespace UxCallbacks
open UxConnector (After connecthandlingProc connecttimeoutProc timeoutPost)
open UxScheduler (Caller Waiter)

def running (sched : UxScheduler) : UxCallbacks where
  sched := sched
  connectors := fun _ => ⟨none, NULL, NULL, NULL, .gone⟩
  frame := .none
  closing := none
  aborted := false
  log := []

def setConnector (s : UxCallbacks) (self : Ptr) (conn : Connector) : UxCallbacks :=
  { s with connectors := Function.update s.connectors self conn }

def note (s : UxCallbacks) (e : Attempts.Event Ptr Nat Connected) : UxCallbacks :=
  { s with log := s.log ++ [e] }

/-- What the worker is closing once `c` is about to close, or has closed, a connector. -/
def setClosing (s : UxCallbacks) (c : Caller) (closing : Option Ptr) : UxCallbacks :=
  if c = .worker then { s with closing := closing } else s

section SetClosing

variable (s : UxCallbacks) (c : Caller) (closing : Option Ptr)

@[simp] theorem setClosing_sched : (s.setClosing c closing).sched = s.sched := by
  unfold setClosing
  split <;> rfl

@[simp] theorem setClosing_connectors : (s.setClosing c closing).connectors = s.connectors := by
  unfold setClosing
  split <;> rfl

@[simp] theorem setClosing_frame : (s.setClosing c closing).frame = s.frame := by
  unfold setClosing
  split <;> rfl

end SetClosing

def create (s : UxCallbacks) (self connhandler userdata : Ptr) : Option UxCallbacks :=
  if (s.connectors self).phase = .gone then
    some (s.setConnector self ⟨none, NULL, connhandler, userdata, .ready⟩)
  else none

/-- `awe_uxconnector_open` and `awe_uxconnector_openaddr` up to what the open of the
connection returns. A connection already there fails the assertion. -/
def openConn (s : UxCallbacks) (self : Ptr) (ufd : Int) (ok : Bool) : Option UxCallbacks :=
  let conn := s.connectors self
  if conn.phase = .ready ∧ conn.uxconn = none then
    if ok then
      some ((s.note (.opened self s.log.length)).setConnector self
        { conn with uxconn := some ufd, phase := .setTimeout })
    else some (s.setConnector self { conn with uxconn := some ufd, phase := .openFailed })
  else none

def open2 (s : UxCallbacks) (self : Ptr) (ufd : Int) : Option UxCallbacks :=
  let conn := s.connectors self
  if conn.phase = .ready ∧ conn.uxconn = none then
    some (s.setConnector self { conn with uxconn := some ufd })
  else none

/-- The post of `uxconnector_setTimeout`. -/
def post (s : UxCallbacks) (self : Ptr) (now : ClockMs) (timeout : DelayMs) (id : Ptr)
    (pick : Option Waiter) : Option UxCallbacks :=
  let conn := s.connectors self
  if conn.phase = .setTimeout then
    (s.sched.step (.post (timeoutPost self now timeout id) pick)).map (fun sched =>
      { s with sched := sched }.setConnector self
        { conn with phase := .storeId (if s.sched.started then id else NULL) })
  else none

/-- The store of `_timeouttask_id`. -/
def storeId (s : UxCallbacks) (self : Ptr) : Option UxCallbacks :=
  let conn := s.connectors self
  match conn.phase with
  | .storeId id => some (s.setConnector self
      { conn with timeouttaskId := id, phase := .addHandler })
  | _ => none

/-- The add of `uxconnector_setTimeout`. -/
def addHandler (s : UxCallbacks) (self : Ptr) (c : Caller) (addr : Ptr)
    (pick : Option Waiter) : Option UxCallbacks :=
  let conn := s.connectors self
  match conn.phase, conn.uxconn with
  | .addHandler, some ufd =>
    (s.sched.step (.add c addr ufd AWE_WRITE connecthandlingProc self pick)).map (fun sched =>
      { s with sched := sched }.setConnector self { conn with phase := .ready })
  | _, _ => none

/-- The worker closes a connector only from code of the users', and one at a time. -/
def mayClose (s : UxCallbacks) (c : Caller) : Bool :=
  c = .worker → s.frame.user ∧ s.closing = none

/-- `awe_uxconnector_rmEventHandler` up to the return of its rm, for the call that goes on
with `after`. -/
def rmEventHandler (s : UxCallbacks) (self : Ptr) (c : Caller) (after : After) :
    Option UxCallbacks :=
  let conn := s.connectors self
  if s.mayClose c ∧ (conn.phase = .ready ∨ conn.phase = .openFailed ∧ after = .close) then
    match conn.uxconn with
    | none => some (s.setConnector self (conn.finish after))
    | some ufd => (s.sched.step (.rm c ufd)).map (fun sched =>
        ({ s with sched := sched }.setConnector self
          { conn with phase := .removing c after }).setClosing c (some self))
  else none

/-- The cancel of `awe_uxconnector_rmEventHandler`, and the rest of the call. -/
def cancelTimeout (s : UxCallbacks) (self : Ptr) : Option UxCallbacks :=
  let conn := s.connectors self
  match conn.phase with
  | .removing c after =>
    if s.sched.calls c = .none ∧ (c = .worker → s.frame.user) then
      (s.sched.step (.cancel conn.timeouttaskId)).map (fun sched =>
        ({ s with sched := sched }.setConnector self (conn.finish after)).setClosing c none)
    else none
  | _ => none

def complete (s : UxCallbacks) (self : Ptr) (result ufd : Int) : UxCallbacks :=
  let conn := s.connectors self
  s.note (.completed self ⟨conn.onconnectedProc, conn.userdata, result, ufd⟩)

/-- The next step of `uxconnector_connecthandling`; `rs` is what `ux_connected` returns. A
cancel that fails is an assertion failure. -/
def connecthandling (s : UxCallbacks) (self : Ptr) (ufd : Int) (rs : Status) :
    Line → Option UxCallbacks
  | .cancel =>
    let id := (s.connectors self).timeouttaskId
    (s.sched.step (.cancel id)).map (fun sched =>
      if (s.sched.cancel id).1 = AWE_OK then
        { s with sched := sched, frame := .connecthandling self ufd .rm }
      else { s with sched := sched, aborted := true })
  | .rm => (s.sched.step (.rm .worker ufd)).map (fun sched =>
      { s with sched := sched, frame := .connecthandling self ufd .call })
  | .call => some { s.complete self (if rs = AWE_OK then AWE_OK else AWE_CONN_TIMEDOUT) ufd with
      frame := .connecthandling self ufd .called }
  | .called => none

/-- The next step of `uxconnector_connecttimeout`, which closes the connector first. -/
def connecttimeout (s : UxCallbacks) (self : Ptr) : Line → Option UxCallbacks
  | .rm =>
    match (s.connectors self).uxconn with
    | none => some { s with frame := .connecttimeout self .call }
    | some ufd => (s.sched.step (.rm .worker ufd)).map (fun sched =>
        { s with sched := sched, frame := .connecttimeout self .cancel })
  | .cancel => (s.sched.step (.cancel (s.connectors self).timeouttaskId)).map (fun sched =>
      { s with sched := sched, frame := .connecttimeout self .call })
  | .call => some { s.complete self AWE_CONN_TIMEDOUT 0 with
      frame := .connecttimeout self .called }
  | .called => none

def callback (s : UxCallbacks) (rs : Status) : Option UxCallbacks :=
  match s.frame with
  | .connecthandling self ufd line => s.connecthandling self ufd rs line
  | .connecttimeout self line => s.connecttimeout self line
  | _ => none

/-- The procedure that the worker is inside of after an action that leads to `t`. -/
def frameAfter (s : UxCallbacks) (t : UxScheduler) : UxScheduler.Act → Frame
  | .handle =>
    match s.sched.worker with
    | .found addr ready _ =>
      match s.sched.uxeventList.find? (fun e => e.addr = addr) with
      | none => .none
      | some uxe =>
        if uxe.proc = connecthandlingProc then .connecthandling uxe.userdata ready.ufd .cancel
        else .other
    | _ => s.frame
  | .testTask =>
    match t.worker with
    | .running task =>
      if task.proc = connecttimeoutProc then .connecttimeout task.userdata .rm else .other
    | _ => .none
  | .handlerReturn | .procReturn => .none
  | _ => s.frame

def schedStep (s : UxCallbacks) (a : UxScheduler.Act) : Option UxCallbacks :=
  if a.foreign ∧ (a.returns → s.frame.user ∧ s.closing = none) then
    (s.sched.step a).map (fun t => { s with sched := t, frame := s.frameAfter t a })
  else none

inductive Act where
  | create (self connhandler userdata : Ptr)
  | openConn (self : Ptr) (ufd : Int) (ok : Bool)
  | open2 (self : Ptr) (ufd : Int)
  | post (self : Ptr) (now : ClockMs) (timeout : DelayMs) (id : Ptr) (pick : Option Waiter)
  | storeId (self : Ptr)
  | addHandler (self : Ptr) (c : Caller) (addr : Ptr) (pick : Option Waiter)
  | rmEventHandler (self : Ptr) (c : Caller) (after : After)
  | cancelTimeout (self : Ptr)
  | callback (rs : Status)
  /-- Anything else at the scheduler. -/
  | sched (a : UxScheduler.Act)

def request (s : UxCallbacks) : Act → Option UxScheduler.Act
  | .post self now timeout id pick => some (.post (timeoutPost self now timeout id) pick)
  | .addHandler self c addr pick => (s.connectors self).uxconn.map
      (fun ufd => .add c addr ufd AWE_WRITE connecthandlingProc self pick)
  | .rmEventHandler self c _ => (s.connectors self).uxconn.map (.rm c ·)
  | .cancelTimeout self => some (.cancel (s.connectors self).timeouttaskId)
  | .callback _ =>
    match s.frame with
    | .connecthandling self _ .cancel | .connecttimeout self .cancel =>
      some (.cancel (s.connectors self).timeouttaskId)
    | .connecthandling _ ufd .rm => some (.rm .worker ufd)
    | .connecttimeout self .rm => (s.connectors self).uxconn.map (.rm .worker ·)
    | _ => none
  | .sched a => some a
  | _ => none

def act (s : UxCallbacks) : Act → Option UxCallbacks
  | .create self connhandler userdata => s.create self connhandler userdata
  | .openConn self ufd ok => s.openConn self ufd ok
  | .open2 self ufd => s.open2 self ufd
  | .post self now timeout id pick => s.post self now timeout id pick
  | .storeId self => s.storeId self
  | .addHandler self c addr pick => s.addHandler self c addr pick
  | .rmEventHandler self c after => s.rmEventHandler self c after
  | .cancelTimeout self => s.cancelTimeout self
  | .callback rs => s.callback rs
  | .sched a => s.schedStep a

/-- A failed assertion ends the process. -/
def step (s : UxCallbacks) (a : Act) : Option UxCallbacks := if s.aborted then none else s.act a

end UxCallbacks

end Awe
