import Awe.CTypes
import Awe.Lib.Heap

namespace Awe

/-- What the `_impl` of a connection points to. -/
inductive ConnInterface where
  | inetStream
  | inet4Dgram
  | inet6Dgram
  | uxStream
  | uxDgram
  deriving DecidableEq

def AF_UNSPEC : Int := 0

def AF_INET : Int := 2

def AF_INET6 : Int := 10

def SOCK_STREAM : Int := 1

/-- `struct awe_connection` without its id, its addresses and its port. -/
structure Connection where
  refs : BitVec 32
  fd : Int
  af : Int
  impl : Option ConnInterface
  udpconn : Ptr
  deriving DecidableEq

namespace Connection

def refInc (c : Connection) : Connection := { c with refs := c.refs + 1 }

def refDec (c : Connection) : Connection := { c with refs := c.refs - 1 }

/-- What `inet_stream_close`, `inet_dgram_close` and `ux_stream_close` leave behind. -/
def shut (c : Connection) : Connection := if 0 < c.fd then { c with fd := -1 } else c

@[simp] theorem shut_udpconn (c : Connection) : c.shut.udpconn = c.udpconn := by
  unfold shut
  split <;> rfl

@[simp] theorem shut_impl (c : Connection) : c.shut.impl = c.impl := by
  unfold shut
  split <;> rfl

end Connection

/-- The connections in memory, `_conn` of each `awe_connector` and `_uxconn` of each
`awe_uxconnector`, and the connections that have been closed by their destruction and
freed so far, by the number of their creation. -/
structure Connections where
  heap : Heap Connection
  connectors : Ptr → Option Ptr
  closed : List Nat
  freed : List Nat

namespace Connections

def empty : Connections := ⟨Heap.empty, fun _ => none, [], []⟩

/-- `awe_mallocz` and `awe_object_init`, with the fields each kind of connection sets. -/
def init (s : Connections) (conn : Ptr) (af fd : Int) : Option Connections :=
  (s.heap.alloc conn ⟨1, fd, af, none, NULL⟩).map (fun heap => { s with heap := heap })

def modify (s : Connections) (conn : Ptr) (f : Connection → Connection) : Connections :=
  { s with heap := s.heap.modify conn f }

def setImpl (s : Connections) (conn : Ptr) (impl : ConnInterface) : Connections :=
  s.modify conn (fun c => { c with impl := some impl })

def setUdpconn (s : Connections) (conn udpconn : Ptr) : Connections :=
  s.modify conn (fun c => { c with udpconn := udpconn })

/-- `awe_connection_close`; `none` is an access to memory that is not allocated, or a
call through `NULL`. -/
def close (s : Connections) (conn : Ptr) : Option Connections := do
  let c ← s.heap.get? conn
  let _ ← c.impl
  let p ← s.heap.handle? conn
  some { s.modify conn Connection.shut with closed := s.closed ++ [p.birth] }

def free (s : Connections) (conn : Ptr) : Option Connections :=
  (s.heap.handle? conn).map (fun p =>
    { s with heap := s.heap.free conn, freed := s.freed ++ [p.birth] })

/-- `connection_destroy`, which recurses through `autorelease`. -/
def destroyWith (autorelease : Connections → Ptr → Option Connections) (s : Connections)
    (conn : Ptr) : Option Connections := do
  let s ← s.close conn
  let c ← s.heap.get? conn
  if c.udpconn = NULL then s.free conn
  else do
    let s ← autorelease s c.udpconn
    (s.setUdpconn conn NULL).free conn

/-- `awe_connection_autorelease`, with at most `fuel` calls inside one another. -/
def autorelease : Nat → Connections → Ptr → Option Connections
  | 0, _, _ => none
  | fuel + 1, s, conn =>
    if conn = NULL then some s
    else do
      let c ← s.heap.get? conn
      let s := s.modify conn Connection.refDec
      if c.refs = 1 then destroyWith (autorelease fuel) s conn else some s

def stream (s : Connections) (conn : Ptr) (af fd : Int) : Option Connections :=
  (s.init conn af fd).map (fun s => s.setImpl conn .inetStream)

def dgram (fuel : Nat) (s : Connections) (conn : Ptr) (af fd : Int) :
    Option (Ptr × Connections) := do
  let s ← s.init conn af fd
  if AF_INET = af then some (conn, s.setImpl conn .inet4Dgram)
  else if AF_INET6 = af then some (conn, s.setImpl conn .inet6Dgram)
  else (autorelease fuel s conn).map (fun s => (NULL, s))

def addref (s : Connections) (conn : Ptr) : Option Connections :=
  (s.heap.get? conn).map (fun _ => s.modify conn Connection.refInc)

def ux (s : Connections) (conn : Ptr) (type ufd : Int) (bindconn : Ptr) : Option Connections := do
  let s ← s.init conn AF_UNSPEC ufd
  let bind ← s.heap.get? bindconn
  let s := s.modify conn (fun c => { c with af := bind.af })
  let s := s.setImpl conn (if SOCK_STREAM = type then .uxStream else .uxDgram)
  let s ← s.addref bindconn
  some (s.setUdpconn conn bindconn)

/-- `awe_connection_open`, or `awe_connection_open2`, where the socket library leaves the
descriptor `fd`. The implementations for ux read the descriptor of the carrier. -/
def openConn (s : Connections) (conn : Ptr) (fd : Int) : Option Connections := do
  let c ← s.heap.get? conn
  let impl ← c.impl
  if impl = .uxStream ∨ impl = .uxDgram then
    (s.heap.get? c.udpconn).map (fun _ => s.modify conn (fun c => { c with fd := fd }))
  else some (s.modify conn (fun c => { c with fd := fd }))

def setConnector (s : Connections) (connector : Ptr) (conn : Option Ptr) : Connections :=
  { s with connectors := Function.update s.connectors connector conn }

def connectorCreate (s : Connections) (connector : Ptr) : Option Connections :=
  match s.connectors connector with
  | some _ => none
  | none => some (s.setConnector connector (some NULL))

/-- `awe_connector_open`: the connection stays with the connector, whether it opens or not.
A failed assertion ends the process. -/
def connectorOpen (s : Connections) (connector conn : Ptr) (fd : Int) : Option Connections := do
  let held ← s.connectors connector
  if held ≠ NULL then none
  else do
    let s ← s.stream conn AF_UNSPEC 0
    (s.setConnector connector (some conn)).openConn conn fd

def uxconnectorOpen (s : Connections) (connector udpconn conn : Ptr) (type fd : Int) :
    Option Connections := do
  let held ← s.connectors connector
  if held ≠ NULL then none
  else do
    let s ← s.ux conn type 0 udpconn
    (s.setConnector connector (some conn)).openConn conn fd

def connectorOpen2 (s : Connections) (connector conn : Ptr) : Option Connections := do
  let held ← s.connectors connector
  if held ≠ NULL then none
  else (s.addref conn).map (fun s => s.setConnector connector (some conn))

def connectorTakeout (s : Connections) (connector : Ptr) : Option (Ptr × Connections) :=
  (s.connectors connector).map (fun held => (held, s.setConnector connector (some NULL)))

def connectorDestroy (fuel : Nat) (s : Connections) (connector : Ptr) : Option Connections := do
  let held ← s.connectors connector
  (autorelease fuel s held).map (fun s => s.setConnector connector none)

end Connections

end Awe
