import Mathlib.Logic.Function.Basic
import Awe.UxScheduler.Model

namespace Awe

namespace UxConnector

/-- What a call does once the connector's event handler and timeout are gone. -/
inductive After where
  | close
  | takeout
  | destroy
  deriving DecidableEq

inductive Phase where
  | ready
  | setTimeout
  | addHandler
  | openFailed
  | removing (c : UxScheduler.Caller) (after : After)
  | gone
  deriving DecidableEq

end UxConnector

/-- `struct awe_uxconnector`: the descriptor of its `_uxconn` and its
`_timeouttask_id`. `ticket` numbers the post that returned this id. -/
structure UxConnector where
  uxconn : Option Int
  timeouttaskId : Ptr
  ticket : Option Nat
  phase : UxConnector.Phase

namespace UxConnector

def create : UxConnector := ⟨none, NULL, none, .ready⟩

def connecthandlingProc : Ptr := 1

def connecttimeoutProc : Ptr := 2

/-- The bounds `uxconnector_setTimeout` puts on its `timeout`. -/
def clampTimeout (timeout : DelayMs) : DelayMs :=
  if timeout.ms ≤ 0 ∨ timeout.ms ≥ 60000 then DelayMs.ofInt32 60000 else timeout

def timeoutPost (self : Ptr) (now : ClockMs) (timeout : DelayMs) (id : Ptr) : Post where
  now := now
  delay := clampTimeout timeout
  id := id
  proc := connecttimeoutProc
  userdata := self
  arg := 0

/-- The end of a call whose event handler and timeout are gone. -/
def finish (conn : UxConnector) : After → UxConnector
  | .close => { conn with phase := .ready }
  | .takeout => { conn with uxconn := none, phase := .ready }
  | .destroy => { conn with uxconn := none, phase := .gone }

end UxConnector

/-- A uxscheduler, the connectors at work on it, by address, and its other users. -/
structure UxClients where
  sched : UxScheduler
  connectors : Ptr → UxConnector

namespace UxClients
open UxConnector

def create : UxClients := ⟨UxScheduler.create, fun _ => UxConnector.create⟩

def setConnector (s : UxClients) (self : Ptr) (conn : UxConnector) : UxClients :=
  { s with connectors := Function.update s.connectors self conn }

/-- `awe_uxconnector_open` up to the result of `awe_connection_open`. A connection
already there fails the assertion. -/
def openConn (s : UxClients) (self : Ptr) (ufd : Int) (ok : Bool) : Option UxClients :=
  let conn := s.connectors self
  if conn.phase = .ready ∧ conn.uxconn = none then
    some (s.setConnector self { conn with
      uxconn := some ufd
      phase := if ok then .setTimeout else .openFailed })
  else none

def open2 (s : UxClients) (self : Ptr) (ufd : Int) : Option UxClients :=
  let conn := s.connectors self
  if conn.phase = .ready ∧ conn.uxconn = none then
    some (s.setConnector self { conn with uxconn := some ufd })
  else none

def setTimeout (s : UxClients) (self : Ptr) (now : ClockMs) (timeout : DelayMs) (id : Ptr)
    (pick : Option UxScheduler.Waiter) : Option UxClients :=
  let conn := s.connectors self
  let p := timeoutPost self now timeout id
  if conn.phase = .setTimeout then
    (s.sched.step (.post p pick)).map (fun sched =>
      { s with sched := sched }.setConnector self { conn with
        timeouttaskId := if s.sched.started then p.id else NULL
        ticket := if s.sched.started then some s.sched.posted.length else none
        phase := .addHandler })
  else none

def addHandler (s : UxClients) (self : Ptr) (c : UxScheduler.Caller) (addr : Ptr)
    (pick : Option UxScheduler.Waiter) : Option UxClients :=
  let conn := s.connectors self
  match conn.phase, conn.uxconn with
  | .addHandler, some ufd =>
    (s.sched.step (.add c addr ufd AWE_WRITE connecthandlingProc self pick)).map (fun sched =>
      { s with sched := sched }.setConnector self { conn with phase := .ready })
  | _, _ => none

/-- `awe_uxconnector_rmEventHandler` up to the return of its rm. -/
def rmEventHandler (s : UxClients) (self : Ptr) (c : UxScheduler.Caller) (after : After) :
    Option UxClients :=
  let conn := s.connectors self
  if conn.phase = .ready ∨ conn.phase = .openFailed ∧ after = .close then
    match conn.uxconn with
    | none => some (s.setConnector self (conn.finish after))
    | some ufd => (s.sched.step (.rm c ufd)).map (fun sched =>
        { s with sched := sched }.setConnector self { conn with phase := .removing c after })
  else none

def cancelTimeout (s : UxClients) (self : Ptr) : Option UxClients :=
  let conn := s.connectors self
  match conn.phase with
  | .removing c after =>
    if s.sched.calls c = .none then
      (s.sched.step (.cancel conn.timeouttaskId)).map (fun sched =>
        { s with sched := sched }.setConnector self (conn.finish after))
    else none
  | _ => none

/-- The cancel of `uxconnector_connecthandling`, asserted to succeed. -/
def connecthandling (s : UxClients) (self : Ptr) : Option UxClients :=
  let id := (s.connectors self).timeouttaskId
  if s.sched.worker.inCallback ∧ (s.sched.cancel id).1 = AWE_OK then
    (s.sched.step (.cancel id)).map (fun sched => { s with sched := sched })
  else none

inductive Act where
  | openConn (self : Ptr) (ufd : Int) (ok : Bool)
  | open2 (self : Ptr) (ufd : Int)
  | setTimeout (self : Ptr) (now : ClockMs) (timeout : DelayMs) (id : Ptr)
    (pick : Option UxScheduler.Waiter)
  | addHandler (self : Ptr) (c : UxScheduler.Caller) (addr : Ptr)
    (pick : Option UxScheduler.Waiter)
  | rmEventHandler (self : Ptr) (c : UxScheduler.Caller) (after : After)
  | cancelTimeout (self : Ptr)
  | connecthandling (self : Ptr)
  /-- Another user cancels with the id its post, the `k`-th, returned. -/
  | cancel (k : Nat)
  /-- Anything else at the scheduler. -/
  | sched (a : UxScheduler.Act)

/-- The post an action cancels, by the id this post returned. -/
def holder (s : UxClients) : Act → Option Nat
  | .cancelTimeout self | .connecthandling self => (s.connectors self).ticket
  | .cancel k => some k
  | _ => none

def cancelId (s : UxClients) : Act → Ptr
  | .cancelTimeout self | .connecthandling self => (s.connectors self).timeouttaskId
  | .cancel k => (s.sched.posted[k]?.map TimerTask.id).getD NULL
  | _ => NULL

def schedStep (s : UxClients) (a : UxScheduler.Act) : Option UxClients :=
  match a with
  | .cancel _ => none
  | _ => (s.sched.step a).map (fun sched => { s with sched := sched })

def step (s : UxClients) : Act → Option UxClients
  | .openConn self ufd ok => s.openConn self ufd ok
  | .open2 self ufd => s.open2 self ufd
  | .setTimeout self now timeout id pick => s.setTimeout self now timeout id pick
  | .addHandler self c addr pick => s.addHandler self c addr pick
  | .rmEventHandler self c after => s.rmEventHandler self c after
  | .cancelTimeout self => s.cancelTimeout self
  | .connecthandling self => s.connecthandling self
  | .cancel k =>
    if k < s.sched.posted.length then
      (s.sched.step (.cancel (s.cancelId (.cancel k)))).map (fun sched => { s with sched := sched })
    else none
  | .sched a => s.schedStep a

end UxClients

end Awe
