import Awe.Connection.Model
import Awe.Lib.Faults
import Awe.Lib.Machine

namespace Awe
open Faults Machine

/-- Why a call does not come back: an access to memory that is not allocated, a call
through an `_impl` that is `NULL`, or more calls inside one another than were allowed. -/
inductive Fault where
  | wild
  | nullCall
  | deep
  deriving DecidableEq

namespace Dispatch
open Connections

/-- `conn->_impl`, to call one of its functions. -/
def impl (s : Connections) (conn : Ptr) : Except Fault ConnInterface := do
  let c ← orFail .wild (s.heap.get? conn)
  orFail .nullCall c.impl

def close (s : Connections) (conn : Ptr) : Except Fault Connections := do
  let _ ← impl s conn
  orFail .wild (s.close conn)

/-- `connection_destroy`, which recurses through `autorelease`. -/
def destroyWith (autorelease : Connections → Ptr → Except Fault Connections) (s : Connections)
    (conn : Ptr) : Except Fault Connections := do
  let s ← close s conn
  let c ← orFail .wild (s.heap.get? conn)
  if c.udpconn = NULL then orFail .wild (s.free conn)
  else do
    let s ← autorelease s c.udpconn
    orFail .wild ((s.setUdpconn conn NULL).free conn)

/-- `awe_connection_autorelease`, with at most `fuel` calls inside one another. -/
def autorelease : Nat → Connections → Ptr → Except Fault Connections
  | 0, _, _ => .error .deep
  | fuel + 1, s, conn =>
    if conn = NULL then .ok s
    else do
      let c ← orFail .wild (s.heap.get? conn)
      let s := s.modify conn Connection.refDec
      if c.refs = 1 then destroyWith (autorelease fuel) s conn else .ok s

def dgram (fuel : Nat) (s : Connections) (conn : Ptr) (af fd : Int) :
    Except Fault (Ptr × Connections) := do
  let s ← orFail .wild (s.init conn af fd)
  if AF_INET = af then .ok (conn, s.setImpl conn .inet4Dgram)
  else if AF_INET6 = af then .ok (conn, s.setImpl conn .inet6Dgram)
  else (autorelease fuel s conn).map (fun s => (NULL, s))

def setFd (s : Connections) (conn : Ptr) (fd : Int) : Connections :=
  s.modify conn (fun c => { c with fd := fd })

/-- `conn_ux_open`, where the socket library leaves the descriptor `fd`. -/
def connUxOpen (s : Connections) (conn : Ptr) (fd : Int) : Except Fault Connections := do
  let c ← orFail .wild (s.heap.get? conn)
  if c.fd > 0 then .ok s
  else do
    let _ ← orFail .wild (s.heap.get? c.udpconn)
    .ok (setFd s conn fd)

def inetOpen (s : Connections) (conn : Ptr) (fd : Int) : Except Fault Connections := do
  let c ← orFail .wild (s.heap.get? conn)
  if c.fd > 0 then .ok s else .ok (setFd s conn fd)

/-- `ux_stream_open` and `ux_dgram_open`, for a host that has an address or not. -/
def uxOpen (s : Connections) (conn : Ptr) (resolved : Bool) (fd : Int) :
    Except Fault Connections := do
  let c ← orFail .wild (s.heap.get? conn)
  if c.fd ≤ 0 ∧ resolved then connUxOpen s conn fd else .ok s

def uxDgramOpen2 (s : Connections) (conn : Ptr) (fd : Int) : Except Fault Connections := do
  let c ← orFail .wild (s.heap.get? conn)
  if c.fd ≤ 0 then connUxOpen s conn fd else .ok s

def openConn (s : Connections) (conn : Ptr) (resolved : Bool) (fd : Int) :
    Except Fault Connections := do
  match ← impl s conn with
  | .inetStream | .inet4Dgram | .inet6Dgram => inetOpen s conn fd
  | .uxStream | .uxDgram => uxOpen s conn resolved fd

/-- `awe_connection_open2`; for all but `ux_dgram` it only fails. -/
def openConn2 (s : Connections) (conn : Ptr) (fd : Int) : Except Fault Connections := do
  match ← impl s conn with
  | .inetStream | .inet4Dgram | .inet6Dgram | .uxStream => .ok s
  | .uxDgram => uxDgramOpen2 s conn fd

/-- `awe_connection_read`, `awe_connection_read2` and `awe_connection_write`, which leave
the connection as it is. -/
def transfer (s : Connections) (conn : Ptr) : Except Fault Connections :=
  (impl s conn).map (fun _ => s)

/-- `awe_connection_write2`, which a ux connection hands on to the one it is bound to. -/
def write2 : Nat → Connections → Ptr → Except Fault Connections
  | 0, _, _ => .error .deep
  | fuel + 1, s, conn => do
    match ← impl s conn with
    | .inetStream | .inet4Dgram | .inet6Dgram => .ok s
    | .uxStream | .uxDgram => do
      let c ← orFail .wild (s.heap.get? conn)
      write2 fuel s c.udpconn

/-- Each call with its arguments; `conn` is the address the allocator gives, where a
connection is made. -/
inductive Call where
  | stream (conn : Ptr) (af fd : Int)
  | stream2 (conn : Ptr) (af : Int)
  | dgram (conn : Ptr) (af fd : Int)
  | dgram2 (conn : Ptr) (af : Int)
  | ux (conn : Ptr) (type ufd : Int) (bindconn : Ptr)
  | ux2 (conn : Ptr) (type : Int) (bindconn : Ptr)
  | addref (conn : Ptr)
  | autorelease (conn : Ptr)
  | openConn (conn : Ptr) (resolved : Bool) (fd : Int)
  | openConn2 (conn : Ptr) (fd : Int)
  | close (conn : Ptr)
  | read (conn : Ptr)
  | read2 (conn : Ptr)
  | write (conn : Ptr)
  | write2 (conn : Ptr)

def perform (fuel : Nat) (s : Connections) : Call → Except Fault (Ptr × Connections)
  | .stream conn af fd => (orFail .wild (s.stream conn af fd)).map (fun s => (conn, s))
  | .stream2 conn af => (orFail .wild (s.stream conn af 0)).map (fun s => (conn, s))
  | .dgram conn af fd => dgram fuel s conn af fd
  | .dgram2 conn af => dgram fuel s conn af 0
  | .ux conn type ufd bindconn =>
    (orFail .wild (s.ux conn type ufd bindconn)).map (fun s => (conn, s))
  | .ux2 conn type bindconn =>
    (orFail .wild (s.ux conn type 0 bindconn)).map (fun s => (conn, s))
  | .addref conn => (orFail .wild (s.addref conn)).map (fun s => (conn, s))
  | .autorelease conn => (autorelease fuel s conn).map (fun s => (NULL, s))
  | .openConn conn resolved fd => (openConn s conn resolved fd).map (fun s => (NULL, s))
  | .openConn2 conn fd => (openConn2 s conn fd).map (fun s => (NULL, s))
  | .close conn => (close s conn).map (fun s => (NULL, s))
  | .read conn | .read2 conn | .write conn => (transfer s conn).map (fun s => (NULL, s))
  | .write2 conn => (write2 fuel s conn).map (fun s => (NULL, s))

def step (fuel : Nat) (s : Connections) (call : Call) : Option Connections :=
  (perform fuel s call).toOption.map Prod.snd

namespace Call

def block : Call → Option Ptr
  | .stream conn _ _ | .stream2 conn _ | .dgram conn _ _ | .dgram2 conn _ | .ux conn _ _ _
  | .ux2 conn _ _ => some conn
  | _ => none

/-- The families that a datagram connection has an interface for. -/
def Supported : Call → Prop
  | .dgram _ af _ | .dgram2 _ af => af = AF_INET ∨ af = AF_INET6
  | _ => True

end Call

def Allocates (s : Connections) (call : Call) : Prop :=
  ∀ conn ∈ call.block, conn ≠ NULL ∧ s.heap.get? conn = none

/-- The call finds an interface wherever it looks for one, and a family that is not
supported makes no connection. -/
structure Defined (fuel : Nat) (s : Connections) (call : Call) : Prop where
  impl : perform fuel s call ≠ .error .nullCall
  unsupported : ¬ call.Supported → ∃ conn ∈ call.block, ∃ t,
    perform fuel s call = .ok (NULL, t) ∧ t.heap.get? conn = none

def Ready (s : Connections) : Prop := ∀ a c, s.heap.get? a = some c → c.impl.isSome

section

variable {s t : Connections} {conn : Ptr} {fuel : Nat}

theorem ready_empty : Ready Connections.empty := fun _ _ h => by cases h

theorem Ready.modify (h : Ready s) (conn : Ptr) {f : Connection → Connection}
    (hf : ∀ c, c.impl.isSome → (f c).impl.isSome) : Ready (s.modify conn f) := by
  intro a c hc
  have hc : (s.heap.modify conn f).get? a = some c := hc
  rw [Heap.get?_modify] at hc
  split at hc
  · obtain ⟨d, hd, rfl⟩ := Option.map_eq_some_iff.mp hc
    exact hf d (h _ d hd)
  · exact h a c hc

theorem Ready.keep (h : Ready s) (conn : Ptr) {f : Connection → Connection}
    (hf : ∀ c, (f c).impl = c.impl) : Ready (s.modify conn f) :=
  h.modify conn (fun c hc => by rwa [hf c])

theorem Ready.free (h : Ready s) (ht : s.free conn = some t) : Ready t := by
  obtain ⟨p, _, rfl⟩ := Option.map_eq_some_iff.mp ht
  intro a c hc
  have hc : (s.heap.free conn).get? a = some c := hc
  rw [Heap.get?_free] at hc
  split at hc
  · cases hc
  · exact h a c hc

/-- The block of a new connection is ready as soon as its interface is set. -/
theorem Ready.setImpl (h : Ready s) {af fd : Int} (ht : s.init conn af fd = some t)
    (f : Connection → Connection) (i : ConnInterface) :
    Ready ((t.modify conn f).setImpl conn i) := by
  obtain ⟨heap, halloc, rfl⟩ := Option.map_eq_some_iff.mp ht
  intro a c hc
  have hc : ((heap.modify conn f).modify conn (fun c => { c with impl := some i })).get? a =
      some c := hc
  rw [Heap.get?_modify] at hc
  split at hc
  · obtain ⟨d, _, rfl⟩ := Option.map_eq_some_iff.mp hc
    rfl
  · rename_i hne
    rw [Heap.get?_modify, if_neg hne, Heap.get?_alloc halloc, if_neg hne] at hc
    exact h a c hc

theorem toOption_close (s : Connections) (conn : Ptr) :
    (close s conn).toOption = s.close conn := by
  rw [close, impl, toOption_bind, toOption_bind, toOption_orFail, Connections.close]
  cases hget : s.heap.get? conn with
  | none => rfl
  | some c =>
    cases himpl : c.impl with
    | none => simp [orFail, himpl, Except.toOption]
    | some i => simp [himpl]

theorem toOption_destroyWith {release : Connections → Ptr → Except Fault Connections}
    {release' : Connections → Ptr → Option Connections}
    (hrelease : ∀ s conn, (release s conn).toOption = release' s conn) (s : Connections)
    (conn : Ptr) : (destroyWith release s conn).toOption = s.destroyWith release' conn := by
  rw [destroyWith, toOption_bind, toOption_close, Connections.destroyWith]
  refine Option.bind_congr (fun t _ => ?_)
  rw [toOption_bind, toOption_orFail]
  refine Option.bind_congr (fun c _ => ?_)
  split
  · exact toOption_orFail _ _
  · rw [toOption_bind, hrelease]
    exact Option.bind_congr (fun u _ => toOption_orFail _ _)

theorem toOption_autorelease (fuel : Nat) (s : Connections) (conn : Ptr) :
    (autorelease fuel s conn).toOption = Connections.autorelease fuel s conn := by
  induction fuel generalizing s conn with
  | zero => rfl
  | succ fuel ih =>
    rw [autorelease, Connections.autorelease]
    split
    · rfl
    · rw [toOption_bind, toOption_orFail]
      refine Option.bind_congr (fun c _ => ?_)
      split
      · exact toOption_destroyWith ih _ conn
      · rfl

theorem toOption_dgram (fuel : Nat) (s : Connections) (conn : Ptr) (af fd : Int) :
    (dgram fuel s conn af fd).toOption = Connections.dgram fuel s conn af fd := by
  rw [dgram, Connections.dgram, toOption_bind, toOption_orFail]
  refine Option.bind_congr (fun t _ => ?_)
  split
  · rfl
  · split
    · rfl
    · rw [toOption_map, toOption_autorelease]

/-- An access may go wild, but it calls nothing. -/
theorem avoids_access {α : Type} (o : Option α) :
    Avoids Fault.nullCall (orFail .wild o) (fun a => o = some a) :=
  avoids_orFail (by decide) o

theorem Ready.impl (h : Ready s) (conn : Ptr) :
    Avoids .nullCall (impl s conn) (fun _ => True) := by
  refine (avoids_access _).bind (fun c hc => ?_)
  obtain ⟨i, hi⟩ := Option.isSome_iff_exists.mp (h conn c hc)
  rw [hi]
  trivial

theorem Ready.close (h : Ready s) (conn : Ptr) : Avoids .nullCall (close s conn) Ready := by
  refine (h.impl conn).bind (fun _ _ => (avoids_access _).mono (fun t ht => ?_))
  obtain ⟨c, _, ht⟩ := Option.bind_eq_some_iff.mp ht
  obtain ⟨_, _, ht⟩ := Option.bind_eq_some_iff.mp ht
  obtain ⟨p, _, ht⟩ := Option.bind_eq_some_iff.mp ht
  cases ht
  exact h.keep conn Connection.shut_impl

theorem Ready.autorelease (h : Ready s) (fuel : Nat) (conn : Ptr) :
    Avoids .nullCall (autorelease fuel s conn) Ready := by
  induction fuel generalizing s conn with
  | zero => exact fun h => by cases h
  | succ fuel ih =>
    unfold Dispatch.autorelease
    split
    · exact h
    · refine (avoids_access _).bind (fun c _ => ?_)
      have hdec : Ready (s.modify conn Connection.refDec) := h.keep conn (fun _ => rfl)
      split
      · refine (hdec.close conn).bind (fun t ht => ?_)
        refine (avoids_access _).bind (fun d _ => ?_)
        split
        · exact (avoids_access _).mono (fun u hu => ht.free hu)
        · refine (ih ht d.udpconn).bind (fun u hu => ?_)
          have hcut : Ready (u.setUdpconn conn NULL) := hu.keep conn (fun _ => rfl)
          exact (avoids_access _).mono (fun v hv => hcut.free hv)
      · exact hdec

theorem Ready.setFd (h : Ready s) (conn : Ptr) (fd : Int) : Ready (setFd s conn fd) :=
  h.keep conn (fun _ => rfl)

theorem Ready.connUxOpen (h : Ready s) (conn : Ptr) (fd : Int) :
    Avoids .nullCall (connUxOpen s conn fd) Ready := by
  refine (avoids_access _).bind (fun c _ => ?_)
  split
  · exact h
  · exact (avoids_access _).bind (fun _ _ => h.setFd conn fd)

theorem Ready.openConn (h : Ready s) (conn : Ptr) (resolved : Bool) (fd : Int) :
    Avoids .nullCall (openConn s conn resolved fd) Ready := by
  have hinet : Avoids .nullCall (inetOpen s conn fd) Ready := by
    refine (avoids_access _).bind (fun c _ => ?_)
    split
    · exact h
    · exact h.setFd conn fd
  have hux : Avoids .nullCall (uxOpen s conn resolved fd) Ready := by
    refine (avoids_access _).bind (fun c _ => ?_)
    split
    · exact h.connUxOpen conn fd
    · exact h
  refine (h.impl conn).bind (fun i _ => ?_)
  cases i
  case inetStream | inet4Dgram | inet6Dgram => exact hinet
  case uxStream | uxDgram => exact hux

theorem Ready.openConn2 (h : Ready s) (conn : Ptr) (fd : Int) :
    Avoids .nullCall (openConn2 s conn fd) Ready := by
  refine (h.impl conn).bind (fun i _ => ?_)
  cases i
  case inetStream | inet4Dgram | inet6Dgram | uxStream => exact h
  case uxDgram =>
    refine (avoids_access _).bind (fun c _ => ?_)
    split
    · exact h.connUxOpen conn fd
    · exact h

/-- The connection that a ux connection is bound to has its interface as well. -/
theorem Ready.write2 (h : Ready s) (fuel : Nat) (conn : Ptr) :
    Avoids .nullCall (write2 fuel s conn) Ready := by
  induction fuel generalizing conn with
  | zero => exact fun h => by cases h
  | succ fuel ih =>
    refine (h.impl conn).bind (fun i _ => ?_)
    cases i
    case inetStream | inet4Dgram | inet6Dgram => exact h
    case uxStream | uxDgram =>
      exact (avoids_access _).bind (fun c _ => ih c.udpconn)

theorem Ready.init (h : Ready s) {af fd : Int} (ht : s.init conn af fd = some t)
    (i : ConnInterface) : Ready (t.setImpl conn i) := by
  have hsame : t.modify conn id = t := by
    rw [Connections.modify, Heap.modify_eq_self (f := id) (fun c _ => rfl)]
  have hready := h.setImpl ht id i
  rwa [hsame] at hready

theorem Ready.stream (h : Ready s) {af fd : Int} (ht : s.stream conn af fd = some t) :
    Ready t := by
  obtain ⟨u, hu, rfl⟩ := Option.map_eq_some_iff.mp ht
  exact h.init hu .inetStream

theorem Ready.addref (h : Ready s) (ht : s.addref conn = some t) : Ready t := by
  obtain ⟨c, _, rfl⟩ := Option.map_eq_some_iff.mp ht
  exact h.keep conn (fun _ => rfl)

theorem Ready.ux (h : Ready s) {type ufd : Int} {bindconn : Ptr}
    (ht : s.ux conn type ufd bindconn = some t) : Ready t := by
  obtain ⟨u, hu, ht⟩ := Option.bind_eq_some_iff.mp ht
  obtain ⟨bind, _, ht⟩ := Option.bind_eq_some_iff.mp ht
  obtain ⟨v, hv, ht⟩ := Option.bind_eq_some_iff.mp ht
  cases ht
  have hready := (h.setImpl hu (fun c => { c with af := bind.af }) _).addref hv
  exact hready.keep conn (fun _ => rfl)

/-- A datagram connection of a family that is supported never meets its release. -/
theorem Ready.dgram (h : Ready s) {af : Int} (haf : af = AF_INET ∨ af = AF_INET6) (fuel : Nat)
    (conn : Ptr) (fd : Int) :
    Avoids .nullCall (dgram fuel s conn af fd) (fun r => Ready r.2) := by
  refine (avoids_access _).bind (fun t ht => ?_)
  rcases haf with rfl | rfl
  · exact h.init ht .inet4Dgram
  · exact h.init ht .inet6Dgram

/-- For any other family the destruction of the new connection calls through its `_impl`,
which is still `NULL`. -/
theorem dgram_unsupported (hfree : s.heap.get? conn = none) (hnull : conn ≠ NULL) {af : Int}
    (haf : ¬ (af = AF_INET ∨ af = AF_INET6)) (fd : Int) (fuel : Nat) :
    dgram (fuel + 1) s conn af fd = .error .nullCall := by
  obtain ⟨heap, halloc⟩ := Heap.exists_alloc hfree (⟨1, fd, af, none, NULL⟩ : Connection)
  have hinit : s.init conn af fd = some { s with heap := heap } := by
    rw [Connections.init, halloc, Option.map_some]
  have hget : heap.get? conn = some ⟨1, fd, af, none, NULL⟩ := by
    rw [Heap.get?_alloc halloc, if_pos rfl]
  have hdec : (heap.modify conn Connection.refDec).get? conn = some
      ⟨1 - 1, fd, af, none, NULL⟩ := by
    rw [Heap.get?_modify_of_get? hget, if_pos rfl]
    rfl
  have himpl : impl ({ s with heap := heap }.modify conn Connection.refDec) conn =
      .error .nullCall := by
    rw [impl, Connections.modify, hdec]
    rfl
  have hrelease : Dispatch.autorelease (fuel + 1) { s with heap := heap } conn =
      .error .nullCall := by
    rw [Dispatch.autorelease, if_neg hnull, hget, orFail_some, ok_bind, if_pos rfl, destroyWith,
      Dispatch.close, himpl]
    rfl
  obtain ⟨h4, h6⟩ := not_or.mp haf
  rw [dgram, hinit, orFail_some, ok_bind, if_neg (Ne.symm h4), if_neg (Ne.symm h6), hrelease]
  rfl

/-- What every call but the failing constructor does in such a program, and leaves. -/
theorem Ready.perform (h : Ready s) (fuel : Nat) {call : Call} (hcall : call.Supported) :
    Avoids .nullCall (perform fuel s call) (fun r => Ready r.2) := by
  cases call with
  | stream conn af fd | stream2 conn af =>
    exact (avoids_access _).map (fun t ht => h.stream ht)
  | dgram conn af fd | dgram2 conn af => exact h.dgram hcall fuel conn _
  | ux conn type ufd bindconn | ux2 conn type bindconn =>
    exact (avoids_access _).map (fun t ht => h.ux ht)
  | addref conn => exact (avoids_access _).map (fun t ht => h.addref ht)
  | autorelease conn => exact (h.autorelease fuel conn).map (fun t ht => ht)
  | openConn conn resolved fd => exact (h.openConn conn resolved fd).map (fun t ht => ht)
  | openConn2 conn fd => exact (h.openConn2 conn fd).map (fun t ht => ht)
  | close conn => exact (h.close conn).map (fun t ht => ht)
  | read conn | read2 conn | write conn =>
    exact ((h.impl conn).map (fun _ _ => h)).map (fun t ht => ht)
  | write2 conn => exact (h.write2 fuel conn).map (fun t ht => ht)

theorem Ready.step (h : Ready s) {call : Call} (hcall : call.Supported)
    (ht : step fuel s call = some t) : Ready t := by
  obtain ⟨⟨p, u⟩, hu, rfl⟩ := Option.map_eq_some_iff.mp ht
  cases hperform : Dispatch.perform fuel s call with
  | error e =>
    rw [hperform] at hu
    cases hu
  | ok r =>
    rw [hperform] at hu
    cases hu
    exact (h.perform fuel hcall).post hperform

/-- The constructor of a wrong family crashes, and so it does not return `NULL`. -/
theorem Ready.defined_iff (h : Ready s) (hfuel : 0 < fuel) {call : Call}
    (hcall : Allocates s call) : Defined fuel s call ↔ call.Supported := by
  constructor
  · intro hdef
    by_contra hun
    obtain ⟨depth, rfl⟩ := Nat.exists_eq_succ_of_ne_zero (Nat.ne_of_gt hfuel)
    cases call with
    | dgram conn af fd =>
      obtain ⟨hnull, hfree⟩ := hcall conn rfl
      exact hdef.impl (dgram_unsupported hfree hnull hun fd depth)
    | dgram2 conn af =>
      obtain ⟨hnull, hfree⟩ := hcall conn rfl
      exact hdef.impl (dgram_unsupported hfree hnull hun 0 depth)
    | _ => exact hun trivial
  · intro hsup
    exact ⟨(h.perform fuel hsup).ne, fun hun => absurd hsup hun⟩

end

instance (call : Call) : Decidable call.Supported :=
  match call with
  | .dgram _ af _ | .dgram2 _ af => inferInstanceAs (Decidable (af = AF_INET ∨ af = AF_INET6))
  | .stream .. | .stream2 .. | .ux .. | .ux2 .. | .addref _ | .autorelease _ | .openConn ..
  | .openConn2 .. | .close _ | .read _ | .read2 _ | .write _ | .write2 _ => isTrue trivial

instance (s : Connections) (call : Call) : Decidable (Allocates s call) :=
  inferInstanceAs (Decidable (∀ conn ∈ call.block, _))

/-- In a run of constructors, operations and releases every call finds its interface, and
every family that is not supported is turned down, if and only if no datagram connection
is asked for with such a family. -/
theorem dispatch_defined_iff {fuel : Nat} {calls : List Call} (hfuel : 0 < fuel)
    (hcalls : Lawful (step fuel) Allocates Connections.empty calls) :
    Lawful (step fuel) (Defined fuel) Connections.empty calls ↔
      Lawful (step fuel) (fun _ call => call.Supported) Connections.empty calls :=
  lawful_congr (fun _ _ _ hready _ hsup ht => hready.step hsup ht)
    (fun _ _ hready hcall => hready.defined_iff hfuel hcall) ready_empty hcalls

/-- Two ux connections one upon the other over udp, opened, used and taken down, and a
stream connection. -/
def carriedConnections : List Call :=
  [.dgram2 1 AF_INET, .openConn 1 true 5, .ux2 2 SOCK_STREAM 1, .openConn 2 true 6,
    .ux 3 2 7 2, .openConn2 3 8, .write2 3, .read 2, .autorelease 1, .autorelease 2,
    .stream2 4 AF_UNSPEC, .openConn 4 false 0, .write 4, .close 4, .addref 4, .autorelease 4,
    .autorelease 3, .dgram 2 AF_INET6 9, .read2 2, .autorelease 2, .stream 1 AF_INET 10]

theorem carried_connections_defined :
    Lawful (step 4) (Defined 4) Connections.empty carriedConnections ∧
      ((run (step 4) Connections.empty carriedConnections).map Connections.freed) =
        some [0, 1, 2, 4] :=
  ⟨(dispatch_defined_iff (by decide) (by decide)).mpr (by decide), by decide⟩

/-- A datagram connection of no particular family is destroyed through its empty `_impl`. -/
theorem unspec_dgram_undefined :
    ¬ Lawful (step 3) (Defined 3) Connections.empty [.dgram 7 AF_UNSPEC 0] := by
  intro h
  exact h.1.impl (dgram_unsupported rfl (by decide) (by decide) 0 2)

end Dispatch

end Awe
