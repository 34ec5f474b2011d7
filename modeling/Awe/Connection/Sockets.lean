import Awe.Connection.Model
import Awe.Lib.Resources

namespace Awe

/-- `struct awe_connection` as its implementation sees it; a descriptor in `_fd` is one
of the system's, or, for ux, of the udt library's. -/
structure Socket where
  impl : ConnInterface
  fd : Int
  af : Int
  localPort : BitVec 16
  deriving DecidableEq

/-- What `connect` answers; pending is `EINPROGRESS`, `EWOULDBLOCK` or `EINTR`. -/
inductive Connect where
  | connected
  | pending
  | failed
  deriving DecidableEq

/-- What an open gets to know from outside: the families of the addresses `getaddrinfo`
finds, the descriptors that `socket` returns with and without `SOCK_CLOEXEC` and whether
`errno` is `EINVAL` in between, which of the calls on it succeed, the descriptor of the
carrier, and the answers of `ux_socket` and `ux_bind2`. -/
structure Answers where
  addrinfo : Option (List Int)
  cloexec : Option Nat
  einval : Bool
  plain : Option Nat
  reuseaddr : Bool
  multicastLoop : Bool
  bind : Bool
  setfl : Bool
  connect : Connect
  udpfd : Int
  uxSocket : Int
  uxBind2 : Int
  deriving DecidableEq

/-- What the system answers when all goes well, with the descriptor that `socket` returns. -/
def Answers.granting (fd : Nat) : Answers where
  addrinfo := some [AF_INET6, AF_INET]
  cloexec := some fd
  einval := false
  plain := none
  reuseaddr := true
  multicastLoop := true
  bind := true
  setfl := true
  connect := .pending
  udpfd := 1
  uxSocket := fd
  uxBind2 := 0

/-- The status an open returns, the connection it leaves and what became of descriptors. -/
structure Opened where
  status : Int
  conn : Socket
  log : List (Resources.Event Int)
  deriving DecidableEq

def socketCreate (o : Answers) : Int :=
  match o.cloexec with
  | some fd => fd
  | none =>
    if o.einval then
      match o.plain with
      | some fd => fd
      | none => -1
    else -1

/-- What the set-up functions have in common: a check that fails closes the descriptor. -/
def socketSetup (o : Answers) (checks : List Bool) : Int × List (Resources.Event Int) :=
  let newSocket := socketCreate o
  if newSocket < 0 then (newSocket, [])
  else if checks.all id then (newSocket, [.acquired newSocket])
  else (-1, [.acquired newSocket, .released newSocket])

def streamSetup (o : Answers) (port : BitVec 16) (makeNonBlocking : Bool) :
    Int × List (Resources.Event Int) :=
  socketSetup o [o.reuseaddr, port = 0 || o.bind, !makeNonBlocking || o.setfl]

def datagramSetup (o : Answers) (port : BitVec 16) (makeNonBlocking : Bool) :
    Int × List (Resources.Event Int) :=
  socketSetup o [o.reuseaddr, o.multicastLoop, port = 0 || o.bind, !makeNonBlocking || o.setfl]

theorem socketSetup_pos {o : Answers} {checks : List Bool} :
    0 < (socketSetup o checks).1 ↔ 0 < socketCreate o ∧ checks.all id := by
  unfold socketSetup
  dsimp only
  split
  · exact iff_of_false (by dsimp only; omega) (by omega)
  · split
    · rename_i hchecks
      simp [hchecks]
    · rename_i hchecks
      exact iff_of_false (by simp) (fun h => hchecks h.2)

namespace Socket

/-- The families `awe_socket_addrinfo` writes to `_af`: the last one it knows stays. -/
def found (c : Socket) (families : List Int) : Socket :=
  { c with af := families.foldl (fun af f => if f = AF_INET ∨ f = AF_INET6 then f else af) c.af }

/-- What the close functions have in common. -/
def shut (c : Socket) : Socket × List (Resources.Event Int) :=
  if 0 < c.fd then ({ c with fd := -1 }, [.released c.fd]) else (c, [])

def inetStreamClose (c : Socket) : Socket × List (Resources.Event Int) := c.shut

def inetDgramClose (c : Socket) : Socket × List (Resources.Event Int) := c.shut

/-- `ux_stream_close`, which `ux_dgram` has as well -/
def uxStreamClose (c : Socket) : Socket × List (Resources.Event Int) := c.shut

def giveUp (status : Int) (log : List (Resources.Event Int))
    (closed : Socket × List (Resources.Event Int)) : Opened :=
  ⟨status, closed.1, log ++ closed.2⟩

def inetStreamOpen (c : Socket) (bindPort : BitVec 16) (o : Answers) : Opened :=
  if 0 < c.fd then ⟨AWE_OK, c, []⟩
  else
    match o.addrinfo with
    | none => giveUp (-2) [] c.inetStreamClose
    | some families =>
      let (fd, log) := streamSetup o bindPort true
      let c := { c.found families with fd := fd }
      if c.fd ≤ 0 then giveUp (-1) log c.inetStreamClose
      else if o.connect = .failed then giveUp (-1) log c.inetStreamClose
      else ⟨AWE_OK, c, log⟩

/-- `inet_stream_open2`, which the datagram connections have as well -/
def inetStreamOpen2 (c : Socket) : Opened := ⟨-1, c, []⟩

/-- `inet_dgram_open`: without a host (`NULL` or empty) the family stays. -/
def inetDgramOpen (c : Socket) (host : Option String) (bindPort : BitVec 16) (o : Answers) :
    Opened :=
  if 0 < c.fd then ⟨AWE_OK, c, []⟩
  else
    let looked :=
      if host.any (fun name => 0 < name.length) then o.addrinfo.map c.found else some c
    match looked with
    | none => giveUp (-1) [] c.inetDgramClose
    | some c =>
      let (fd, log) := datagramSetup o bindPort true
      let c := { c with fd := fd }
      if c.fd ≤ 0 then giveUp (-1) log c.inetDgramClose else ⟨AWE_OK, c, log⟩

/-- `conn_ux_open`; neither the options nor `ux_connect` are looked at. -/
def connUxOpen (c : Socket) (o : Answers) : Opened :=
  if 0 < c.fd then ⟨AWE_OK, c, []⟩
  else if o.udpfd ≤ 0 then giveUp (-1) [] c.uxStreamClose
  else
    let c := { c with fd := o.uxSocket }
    let log := if 0 ≤ o.uxSocket then [.acquired o.uxSocket] else []
    if o.uxBind2 < 0 then giveUp (-1) log c.uxStreamClose else ⟨AWE_OK, c, log⟩

/-- `ux_stream_open` and `ux_dgram_open`, which ask `ux_socket` for different types. -/
def uxStreamOpen (c : Socket) (o : Answers) : Opened :=
  if c.fd ≤ 0 then
    match o.addrinfo with
    | none => ⟨-1, c, []⟩
    | some families => (c.found families).connUxOpen o
  else ⟨-1, c, []⟩

def uxStreamOpen2 (c : Socket) : Opened := ⟨-1, c, []⟩

def uxDgramOpen2 (c : Socket) (o : Answers) : Opened :=
  if c.fd ≤ 0 then c.connUxOpen o else ⟨-1, c, []⟩

def openConn (c : Socket) (host : Option String) (bindPort : BitVec 16) (o : Answers) : Opened :=
  match c.impl with
  | .inetStream => c.inetStreamOpen bindPort o
  | .inet4Dgram | .inet6Dgram => c.inetDgramOpen host bindPort o
  | .uxStream | .uxDgram => c.uxStreamOpen o

def open2 (c : Socket) (o : Answers) : Opened :=
  match c.impl with
  | .inetStream | .inet4Dgram | .inet6Dgram => c.inetStreamOpen2
  | .uxStream => c.uxStreamOpen2
  | .uxDgram => c.uxDgramOpen2 o

def close (c : Socket) : Socket × List (Resources.Event Int) :=
  match c.impl with
  | .inetStream => c.inetStreamClose
  | .inet4Dgram | .inet6Dgram => c.inetDgramClose
  | .uxStream | .uxDgram => c.uxStreamClose

/-- `awe_connection_stream`: a descriptor other than 0 is adopted. -/
def stream (af fd : Int) : Socket := ⟨.inetStream, if fd ≠ 0 then fd else 0, af, 0⟩

/-- `awe_connection_dgram`; for other families the new connection is released before its
implementation is set. -/
def dgram (af fd : Int) : Option Socket :=
  if AF_INET = af then some ⟨.inet4Dgram, fd, af, 0⟩
  else if AF_INET6 = af then some ⟨.inet6Dgram, fd, af, 0⟩
  else none

/-- `awe_connection_ux`, where `af` is the family of the carrier. -/
def ux (type ufd af : Int) : Socket :=
  ⟨if SOCK_STREAM = type then .uxStream else .uxDgram, if ufd ≠ 0 then ufd else 0, af, 0⟩

theorem close_eq (c : Socket) : c.close = c.shut := by
  unfold close
  split <;> rfl

structure Keeps (c d : Socket) : Prop where
  impl : d.impl = c.impl
  localPort : d.localPort = c.localPort

theorem keeps_shut {c d : Socket} (h : Keeps c d) : Keeps c d.shut.1 := by
  unfold shut
  split
  · exact ⟨h.impl, h.localPort⟩
  · exact h

theorem keeps_inetStreamOpen (c : Socket) (bindPort : BitVec 16) (o : Answers) :
    Keeps c (c.inetStreamOpen bindPort o).conn := by
  unfold inetStreamOpen
  split
  · exact ⟨rfl, rfl⟩
  · split
    · exact keeps_shut ⟨rfl, rfl⟩
    · dsimp only
      split
      · exact keeps_shut ⟨rfl, rfl⟩
      · split
        · exact keeps_shut ⟨rfl, rfl⟩
        · exact ⟨rfl, rfl⟩

theorem keeps_inetDgramOpen (c : Socket) (host : Option String) (bindPort : BitVec 16)
    (o : Answers) : Keeps c (c.inetDgramOpen host bindPort o).conn := by
  unfold inetDgramOpen
  split
  · exact ⟨rfl, rfl⟩
  · dsimp only
    split
    · exact keeps_shut ⟨rfl, rfl⟩
    · rename_i d hlooked
      have hd : Keeps c d := by
        split at hlooked
        · obtain ⟨families, _, rfl⟩ := Option.map_eq_some_iff.mp hlooked
          exact ⟨rfl, rfl⟩
        · cases hlooked
          exact ⟨rfl, rfl⟩
      split
      · exact keeps_shut ⟨hd.impl, hd.localPort⟩
      · exact ⟨hd.impl, hd.localPort⟩

theorem keeps_connUxOpen {c d : Socket} (h : Keeps c d) (o : Answers) :
    Keeps c (d.connUxOpen o).conn := by
  unfold connUxOpen
  split
  · exact h
  · split
    · exact keeps_shut h
    · dsimp only
      split
      · exact keeps_shut ⟨h.impl, h.localPort⟩
      · exact ⟨h.impl, h.localPort⟩

theorem keeps_openConn (c : Socket) (host : Option String) (bindPort : BitVec 16) (o : Answers) :
    Keeps c (c.openConn host bindPort o).conn := by
  unfold openConn
  split
  · exact keeps_inetStreamOpen c bindPort o
  · exact keeps_inetDgramOpen c host bindPort o
  · exact keeps_inetDgramOpen c host bindPort o
  all_goals
    unfold uxStreamOpen
    split
    · split
      · exact ⟨rfl, rfl⟩
      · rename_i families _
        have hfound : Keeps c (c.found families) := ⟨rfl, rfl⟩
        exact keeps_connUxOpen hfound o
    · exact ⟨rfl, rfl⟩

theorem keeps_open2 (c : Socket) (o : Answers) : Keeps c (c.open2 o).conn := by
  unfold open2
  split
  · exact ⟨rfl, rfl⟩
  · exact ⟨rfl, rfl⟩
  · exact ⟨rfl, rfl⟩
  · exact ⟨rfl, rfl⟩
  · unfold uxDgramOpen2
    split
    · exact keeps_connUxOpen ⟨rfl, rfl⟩ o
    · exact ⟨rfl, rfl⟩

theorem keeps_close (c : Socket) : Keeps c c.close.1 := by
  rw [close_eq]
  exact keeps_shut ⟨rfl, rfl⟩

end Socket

end Awe
