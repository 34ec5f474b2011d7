import Awe.Connection.References
import Awe.Lib.Machine
import Mathlib.Algebra.Order.Ring.Int

namespace Awe
open Holders Machine

/-- A program that shares connections: its handles, by the connection they refer to, the
addresses its allocator has given to connections and connectors, and the ux connections
it has made, with their carriers. -/
structure ConnClients where
  conns : Connections
  handles : Ptr → Nat
  given : List Ptr
  bindings : List Connections.Binding

namespace ConnClients
open Connections

inductive Call where
  | stream (conn : Ptr) (af fd : Int)
  | dgram (conn : Ptr) (af fd : Int)
  | ux (conn : Ptr) (type ufd : Int) (bindconn : Ptr)
  | addref (conn : Ptr)
  | autorelease (conn : Ptr)
  | create (connector : Ptr)
  | openStream (connector conn : Ptr) (fd : Int)
  | openUx (connector udpconn conn : Ptr) (type fd : Int)
  | open2 (connector conn : Ptr)
  | takeout (connector : Ptr)
  | destroy (connector : Ptr)

def empty : ConnClients := ⟨Connections.empty, fun _ => 0, [], []⟩

def give (s : ConnClients) (a : Ptr) : ConnClients := { s with given := s.given.insert a }

def addHandle (s : ConnClients) (conn : Ptr) : ConnClients :=
  { s with handles := Function.update s.handles conn (s.handles conn + 1) }

def dropHandle (s : ConnClients) (conn : Ptr) : ConnClients :=
  { s with handles := Function.update s.handles conn (s.handles conn - 1) }

def bindNext (s : ConnClients) (bindconn : Ptr) : ConnClients :=
  match s.conns.heap.handle? bindconn with
  | none => s
  | some p => { s with bindings := s.bindings ++ [⟨s.conns.heap.next, p.birth⟩] }

def holding (s : ConnClients) (conn : Ptr) : Nat := count s.given s.conns.connectors conn

def bound (s : ConnClients) (conn : Ptr) : Nat :=
  count s.given (fun a => (s.conns.heap.get? a).map Connection.udpconn) conn

def owners (s : ConnClients) (conn : Ptr) : Nat := s.handles conn + s.holding conn + s.bound conn

/-- One call; `none` is a failed assertion, an access to memory that is not allocated, or
a release that takes more than `fuel` calls inside one another. -/
def step (fuel : Nat) (s : ConnClients) : Call → Option ConnClients
  | .stream conn af fd => (s.conns.stream conn af fd).map (fun conns =>
      ({ s with conns := conns }.give conn).addHandle conn)
  | .dgram conn af fd => (Connections.dgram fuel s.conns conn af fd).map (fun r =>
      ({ s with conns := r.2 }.give conn).addHandle r.1)
  | .ux conn type ufd bindconn => (s.conns.ux conn type ufd bindconn).map (fun conns =>
      ({ s.bindNext bindconn with conns := conns }.give conn).addHandle conn)
  | .addref conn => (s.conns.addref conn).map (fun conns =>
      { s with conns := conns }.addHandle conn)
  | .autorelease conn => (Connections.autorelease fuel s.conns conn).map (fun conns =>
      { s with conns := conns }.dropHandle conn)
  | .create connector => (s.conns.connectorCreate connector).map (fun conns =>
      { s with conns := conns }.give connector)
  | .openStream connector conn fd => (s.conns.connectorOpen connector conn fd).map (fun conns =>
      { s with conns := conns }.give conn)
  | .openUx connector udpconn conn type fd =>
      (s.conns.uxconnectorOpen connector udpconn conn type fd).map (fun conns =>
        { s.bindNext udpconn with conns := conns }.give conn)
  | .open2 connector conn => (s.conns.connectorOpen2 connector conn).map (fun conns =>
      { s with conns := conns })
  | .takeout connector => (s.conns.connectorTakeout connector).map (fun r =>
      { s with conns := r.2 }.addHandle r.1)
  | .destroy connector => (Connections.connectorDestroy fuel s.conns connector).map (fun conns =>
      { s with conns := conns })

def Fresh (s : ConnClients) (conn : Ptr) : Prop := conn ≠ NULL ∧ s.conns.heap.get? conn = none

/-- A connection alive, with fewer than `limit` references to it. -/
def Shareable (limit : Nat) (s : ConnClients) (conn : Ptr) : Prop :=
  (s.conns.heap.get? conn).isSome ∧ s.owners conn < limit

/-- The calls a program may make: it refers to connections that are alive, releases the
handles it has, and opens connectors that hold nothing. There are never more than `limit`
references to one connection. -/
def Permits (limit : Nat) (s : ConnClients) : Call → Prop
  | .stream conn _ _ => s.Fresh conn
  | .dgram conn af _ => s.Fresh conn ∧ (af = AF_INET ∨ af = AF_INET6)
  | .ux conn _ _ bindconn => s.Fresh conn ∧ s.Shareable limit bindconn
  | .addref conn => s.Shareable limit conn
  | .autorelease conn => conn = NULL ∨ 0 < s.handles conn
  | .create connector => s.conns.connectors connector = none
  | .openStream connector conn _ => s.conns.connectors connector = some NULL ∧ s.Fresh conn
  | .openUx connector udpconn conn _ _ => s.conns.connectors connector = some NULL ∧
      s.Fresh conn ∧ s.Shareable limit udpconn
  | .open2 connector conn => s.conns.connectors connector = some NULL ∧ s.Shareable limit conn
  | .takeout connector => (s.conns.connectors connector).isSome
  | .destroy connector => (s.conns.connectors connector).isSome

instance (s : ConnClients) (conn : Ptr) : Decidable (s.Fresh conn) :=
  inferInstanceAs (Decidable (_ ∧ _))

instance (limit : Nat) (s : ConnClients) (conn : Ptr) : Decidable (s.Shareable limit conn) :=
  inferInstanceAs (Decidable (_ ∧ _))

instance (limit : Nat) (s : ConnClients) (call : Call) : Decidable (s.Permits limit call) :=
  match call with
  | .stream conn _ _ => inferInstanceAs (Decidable (s.Fresh conn))
  | .dgram conn af _ => inferInstanceAs (Decidable (s.Fresh conn ∧ (af = AF_INET ∨ af = AF_INET6)))
  | .ux conn _ _ bindconn =>
    inferInstanceAs (Decidable (s.Fresh conn ∧ s.Shareable limit bindconn))
  | .addref conn => inferInstanceAs (Decidable (s.Shareable limit conn))
  | .autorelease conn => inferInstanceAs (Decidable (conn = NULL ∨ 0 < s.handles conn))
  | .create connector => inferInstanceAs (Decidable (s.conns.connectors connector = none))
  | .openStream connector conn _ =>
    inferInstanceAs (Decidable (s.conns.connectors connector = some NULL ∧ s.Fresh conn))
  | .openUx connector udpconn conn _ _ =>
    inferInstanceAs (Decidable (s.conns.connectors connector = some NULL ∧ s.Fresh conn ∧
      s.Shareable limit udpconn))
  | .open2 connector conn =>
    inferInstanceAs (Decidable (s.conns.connectors connector = some NULL ∧ s.Shareable limit conn))
  | .takeout connector | .destroy connector =>
    inferInstanceAs (Decidable ((s.conns.connectors connector).isSome))

def outside (s : ConnClients) (conn : Ptr) : Nat := s.handles conn + s.holding conn

structure Held (s : ConnClients) : Prop where
  books : Books s.conns s.given s.outside [] s.bindings
  covers : ∀ c, (s.conns.connectors c).isSome → c ∈ s.given

theorem held_empty : Held empty where
  books := ⟨counts_empty, logs_empty⟩
  covers c hc := by simp [empty, Connections.empty] at hc

theorem bound_eq (s : ConnClients) (conn : Ptr) :
    s.bound conn = count s.given (boundTo s.conns.heap []) conn :=
  count_congr (fun a _ => by rw [boundTo, if_neg List.not_mem_nil])

theorem owners_eq (s : ConnClients) (conn : Ptr) :
    s.owners conn = refs s.conns.heap s.given s.outside [] conn := by
  rw [owners, refs, bound_eq]
  rfl

theorem bindNext_of_live {s : ConnClients} {bindconn : Ptr} {j : Nat}
    (hj : s.conns.heap.Live ⟨bindconn, j⟩) : s.bindNext bindconn =
      { s with bindings := s.bindings ++ [⟨s.conns.heap.next, j⟩] } := by
  have hj : s.conns.heap.handle? bindconn = some ⟨bindconn, j⟩ := hj
  simp [bindNext, hj]

namespace Held

variable {s t : ConnClients} {limit fuel : Nat} {a conn connector : Ptr}

theorem count_give (h : Held s) (a x : Ptr) :
    count (s.given.insert a) s.conns.connectors x = s.holding x := by
  refine count_insert (fun ha => ?_) x
  cases hc : s.conns.connectors a with
  | none => rfl
  | some held => exact absurd (h.covers a (by rw [hc]; rfl)) ha

/-- The program has one handle more, to a connection it had before or a new one. -/
theorem addHandle (h : Held s) (hhandles : t.handles =
      Function.update s.handles conn (s.handles conn + 1))
    (hconnectors : t.conns.connectors = s.conns.connectors)
    (hcount : ∀ x, count t.given s.conns.connectors x = s.holding x)
    (hgiven : ∀ c ∈ s.given, c ∈ t.given)
    (hbooks : Books t.conns t.given (fun x => s.outside x + if x = conn then 1 else 0) []
      t.bindings) : Held t := by
  refine ⟨hbooks.congr (fun x _ => ?_), fun c hc => ?_⟩
  · rw [outside, holding, hconnectors, hcount, hhandles, outside]
    by_cases hx : x = conn
    · subst hx
      rw [Function.update_self, if_pos rfl]
      omega
    · rw [Function.update_of_ne hx, if_neg hx]
      omega
  · rw [hconnectors] at hc
    exact hgiven c (h.covers c hc)

theorem stream (h : Held s) (hfresh : s.Fresh conn) (af fd : Int) :
    ∃ t, step fuel s (.stream conn af fd) = some t ∧ Held t ∧
      t.conns.heap.next = s.conns.heap.next + 1 := by
  obtain ⟨conns, hcode, hbooks, _, hconnectors, hnext⟩ :=
    h.books.stream hfresh.1 hfresh.2 af fd (fun x => rfl)
  refine ⟨_, Option.map_eq_some_iff.mpr ⟨conns, hcode, rfl⟩, ?_, hnext⟩
  exact h.addHandle rfl hconnectors (h.count_give conn)
    (fun c hc => List.mem_insert_of_mem hc) hbooks

theorem dgram (h : Held s) (hfresh : s.Fresh conn) {af : Int} (haf : af = AF_INET ∨ af = AF_INET6)
    (fd : Int) : ∃ t, step fuel s (.dgram conn af fd) = some t ∧ Held t ∧
      t.conns.heap.next = s.conns.heap.next + 1 := by
  obtain ⟨conns, hcode, hbooks, hconnectors, hnext⟩ :=
    h.books.dgram fuel hfresh.1 hfresh.2 haf fd (fun x => rfl)
  refine ⟨_, Option.map_eq_some_iff.mpr ⟨(conn, conns), hcode, rfl⟩, ?_, hnext⟩
  exact h.addHandle rfl hconnectors (h.count_give conn)
    (fun c hc => List.mem_insert_of_mem hc) hbooks

/-- A connection that can be shared has room for one reference more. -/
theorem shareable (h : Held s) (hconn : s.Shareable INT_MAX.toNat conn) :
    ∃ c j, s.conns.heap.get? conn = some c ∧ c.refs.toNat < INT_MAX.toNat ∧
      s.conns.heap.Live ⟨conn, j⟩ := by
  obtain ⟨c, hget⟩ := Option.isSome_iff_exists.mp hconn.1
  obtain ⟨j, hj⟩ := Heap.exists_live hget
  refine ⟨c, j, hget, ?_, hj⟩
  rw [h.books.counts.toNat_refs List.not_mem_nil hget, ← owners_eq]
  exact hconn.2

theorem ux (h : Held s) (hfresh : s.Fresh conn) (type ufd : Int) {bindconn : Ptr}
    (hbind : s.Shareable INT_MAX.toNat bindconn) :
    ∃ t, step fuel s (.ux conn type ufd bindconn) = some t ∧ Held t ∧
      t.conns.heap.next = s.conns.heap.next + 1 := by
  obtain ⟨d, j, hget, hmax, hj⟩ := h.shareable hbind
  obtain ⟨conns, hcode, hbooks, _, _, hconnectors, hnext⟩ :=
    h.books.ux hfresh.1 hfresh.2 type ufd hget hmax hj (fun x => rfl)
  refine ⟨_, Option.map_eq_some_iff.mpr ⟨conns, hcode, rfl⟩, ?_, hnext⟩
  rw [bindNext_of_live hj]
  exact h.addHandle rfl hconnectors (h.count_give conn)
    (fun c hc => List.mem_insert_of_mem hc) hbooks

theorem addref (h : Held s) (hconn : s.Shareable INT_MAX.toNat conn) :
    ∃ t, step fuel s (.addref conn) = some t ∧ Held t ∧
      t.conns.heap.next = s.conns.heap.next := by
  obtain ⟨c, _, hget, hmax, _⟩ := h.shareable hconn
  obtain ⟨hcode, hbooks⟩ := h.books.addref hget hmax (fun x => rfl)
  refine ⟨_, Option.map_eq_some_iff.mpr ⟨_, hcode, rfl⟩, ?_, rfl⟩
  exact h.addHandle rfl rfl (fun x => rfl) (fun c hc => hc) hbooks

theorem autorelease (h : Held s) (hfuel : s.conns.heap.next < fuel)
    (hconn : conn = NULL ∨ 0 < s.handles conn) :
    ∃ t, step fuel s (.autorelease conn) = some t ∧ Held t ∧
      t.conns.heap.next = s.conns.heap.next := by
  have hout : ∀ x, x ≠ NULL →
      s.outside x = (s.dropHandle conn).outside x + if x = conn then 1 else 0 := by
    intro x hx
    change s.handles x + s.holding x = Function.update s.handles conn (s.handles conn - 1) x +
      s.holding x + if x = conn then 1 else 0
    by_cases hxc : x = conn
    · subst hxc
      have hpos := hconn.resolve_left hx
      rw [Function.update_self, if_pos rfl]
      omega
    · rw [Function.update_of_ne hxc, if_neg hxc]
      rfl
  obtain ⟨conns, hcode, hbooks, hconnectors, hnext⟩ := h.books.autorelease hout hfuel
  refine ⟨_, Option.map_eq_some_iff.mpr ⟨conns, hcode, rfl⟩, ⟨hbooks.congr (fun x _ => ?_), ?_⟩,
    hnext⟩
  · simp only [outside, holding, ConnClients.dropHandle, hconnectors]
  · intro c hc
    exact h.covers c (hconnectors ▸ hc)

/-- One connector comes to hold something else. -/
theorem holding_update {given : List Ptr} (hnodup : given.Nodup)
    (hcount : ∀ x, count given s.conns.connectors x = s.holding x) (hmem : connector ∈ given)
    (v : Option Ptr) (x : Ptr) :
    count given (Function.update s.conns.connectors connector v) x +
        (if s.conns.connectors connector = some x then 1 else 0) =
      s.holding x + if v = some x then 1 else 0 := by
  have hupdate := count_update hnodup hmem (f := s.conns.connectors) v x
  rwa [hcount x] at hupdate

theorem create (h : Held s) (hnone : s.conns.connectors connector = none) :
    ∃ t, step fuel s (.create connector) = some t ∧ Held t ∧
      t.conns.heap.next = s.conns.heap.next := by
  refine ⟨({ s with conns := s.conns.setConnector connector (some NULL) }.give connector), ?_,
    ⟨((h.books.give connector).setConnector connector (some NULL)).congr (fun x hx => ?_), ?_⟩, rfl⟩
  · simp [step, connectorCreate, hnone]
  · have hupdate := holding_update h.books.counts.nodup.insert (h.count_give connector)
      List.mem_insert_self (some NULL) x
    rw [hnone] at hupdate
    simp only [reduceCtorEq, if_false, Option.some.injEq, if_neg hx.symm] at hupdate
    exact congrArg (s.handles x + ·) hupdate
  · intro c hc
    by_cases hcc : c = connector
    · subst hcc
      exact List.mem_insert_self
    · refine List.mem_insert_of_mem (h.covers c ?_)
      have hc : (Function.update s.conns.connectors connector (some NULL) c).isSome := hc
      rwa [Function.update_of_ne hcc] at hc

theorem covers_update (h : Held s) {v : Option Ptr} (hmem : connector ∈ s.given) :
    ∀ c, (Function.update s.conns.connectors connector v c).isSome → c ∈ s.given := by
  intro c hc
  by_cases hcc : c = connector
  · rw [hcc]
    exact hmem
  · rw [Function.update_of_ne hcc] at hc
    exact h.covers c hc

/-- An empty connector comes to hold `conn`, with a reference of its own. -/
theorem hold (h : Held s) (hheld : s.conns.connectors connector = some NULL)
    (hconnectors : t.conns.connectors =
      Function.update s.conns.connectors connector (some conn))
    (hcount : ∀ x, count t.given s.conns.connectors x = s.holding x)
    (hgiven : ∀ c ∈ s.given, c ∈ t.given) (hhandles : t.handles = s.handles)
    (hbooks : Books t.conns t.given (fun x => s.outside x + if x = conn then 1 else 0) []
      t.bindings) : Held t := by
  have hmem : connector ∈ s.given := h.covers connector (by rw [hheld]; rfl)
  refine ⟨hbooks.congr (fun x hx => ?_), fun c hc => ?_⟩
  · have hupdate := holding_update hbooks.counts.nodup hcount (hgiven _ hmem) (some conn) x
    rw [hheld] at hupdate
    simp only [Option.some.injEq, if_neg hx.symm, eq_comm (a := conn)] at hupdate
    rw [outside, holding, hconnectors, hhandles, outside]
    omega
  · rw [hconnectors] at hc
    exact hgiven c (h.covers_update hmem c hc)

theorem openStream (h : Held s) (hheld : s.conns.connectors connector = some NULL)
    (hfresh : s.Fresh conn) (fd : Int) :
    ∃ t, step fuel s (.openStream connector conn fd) = some t ∧ Held t ∧
      t.conns.heap.next = s.conns.heap.next + 1 := by
  obtain ⟨conns, hcode, hbooks, hget, hconnectors, hnext⟩ :=
    h.books.stream hfresh.1 hfresh.2 AF_UNSPEC 0 (fun x => rfl)
  have hbooks := hbooks.setConnector connector (some conn)
  obtain ⟨conns', hopen, hbooks', hconnectors', hnext'⟩ :=
    hbooks.openConn hget rfl fd (by simp)
  refine ⟨{ s with conns := conns' }.give conn, Option.map_eq_some_iff.mpr ⟨conns', ?_, rfl⟩, ?_,
    hnext'.trans hnext⟩
  · simp only [connectorOpen, hheld, hcode, Option.bind_eq_bind, Option.bind_some, ne_eq,
      not_true_eq_false, if_false, hopen]
  · refine h.hold hheld (hconnectors'.trans ?_) (h.count_give conn)
      (fun c hc => List.mem_insert_of_mem hc) rfl hbooks'
    exact congrArg (Function.update · connector (some conn)) hconnectors

theorem openUx (h : Held s) {udpconn : Ptr} (hheld : s.conns.connectors connector = some NULL)
    (hfresh : s.Fresh conn) (hbind : s.Shareable INT_MAX.toNat udpconn) (type fd : Int) :
    ∃ t, step fuel s (.openUx connector udpconn conn type fd) = some t ∧ Held t ∧
      t.conns.heap.next = s.conns.heap.next + 1 := by
  obtain ⟨d, j, hd, hmax, hj⟩ := h.shareable hbind
  obtain ⟨conns, hcode, hbooks, ⟨c, hget, himpl, hudpconn⟩, hcarrier, hconnectors, hnext⟩ :=
    h.books.ux hfresh.1 hfresh.2 type 0 hd hmax hj (fun x => rfl)
  have hbooks := hbooks.setConnector connector (some conn)
  obtain ⟨conns', hopen, hbooks', hconnectors', hnext'⟩ :=
    hbooks.openConn hget himpl fd (fun _ => hudpconn ▸ hcarrier)
  refine ⟨_, Option.map_eq_some_iff.mpr ⟨conns', ?_, rfl⟩, ?_, hnext'.trans hnext⟩
  · simp only [uxconnectorOpen, hheld, hcode, Option.bind_eq_bind, Option.bind_some, ne_eq,
      not_true_eq_false, if_false, hopen]
  · rw [bindNext_of_live hj]
    refine h.hold hheld (hconnectors'.trans ?_) (h.count_give conn)
      (fun c hc => List.mem_insert_of_mem hc) rfl hbooks'
    exact congrArg (Function.update · connector (some conn)) hconnectors

theorem open2 (h : Held s) (hheld : s.conns.connectors connector = some NULL)
    (hconn : s.Shareable INT_MAX.toNat conn) :
    ∃ t, step fuel s (.open2 connector conn) = some t ∧ Held t ∧
      t.conns.heap.next = s.conns.heap.next := by
  obtain ⟨c, _, hget, hmax, _⟩ := h.shareable hconn
  obtain ⟨hcode, hbooks⟩ := h.books.addref hget hmax (fun x => rfl)
  refine ⟨_, Option.map_eq_some_iff.mpr
    ⟨(s.conns.modify conn Connection.refInc).setConnector connector (some conn), ?_, rfl⟩, ?_, rfl⟩
  · simp [connectorOpen2, hheld, hcode]
  · exact h.hold hheld rfl (fun x => rfl) (fun c hc => hc) rfl
      (hbooks.setConnector connector (some conn))

/-- The reference of the connector becomes a handle of the program. -/
theorem takeout (h : Held s) (hsome : (s.conns.connectors connector).isSome) :
    ∃ t, step fuel s (.takeout connector) = some t ∧ Held t ∧
      t.conns.heap.next = s.conns.heap.next := by
  have hmem := h.covers connector hsome
  obtain ⟨held, hheld⟩ := Option.isSome_iff_exists.mp hsome
  refine ⟨_, Option.map_eq_some_iff.mpr ⟨(held, s.conns.setConnector connector (some NULL)), ?_,
    rfl⟩, ⟨(h.books.setConnector connector (some NULL)).congr (fun x hx => ?_),
    h.covers_update hmem⟩, rfl⟩
  · simp [connectorTakeout, hheld]
  · have hupdate := holding_update h.books.counts.nodup (fun x => rfl) hmem (some NULL) x
    rw [hheld] at hupdate
    simp only [Option.some.injEq, if_neg hx.symm] at hupdate
    change Function.update s.handles held (s.handles held + 1) x +
      count s.given (Function.update s.conns.connectors connector (some NULL)) x =
        s.handles x + s.holding x
    by_cases hxh : x = held
    · subst hxh
      rw [if_pos rfl] at hupdate
      rw [Function.update_self]
      omega
    · rw [if_neg (Ne.symm hxh)] at hupdate
      rw [Function.update_of_ne hxh]
      omega

theorem destroy (h : Held s) (hfuel : s.conns.heap.next < fuel)
    (hsome : (s.conns.connectors connector).isSome) :
    ∃ t, step fuel s (.destroy connector) = some t ∧ Held t ∧
      t.conns.heap.next = s.conns.heap.next := by
  have hmem := h.covers connector hsome
  obtain ⟨held, hheld⟩ := Option.isSome_iff_exists.mp hsome
  have hout : ∀ x, x ≠ NULL → s.outside x = s.handles x +
      count s.given (Function.update s.conns.connectors connector none) x +
        if x = held then 1 else 0 := by
    intro x _
    have hupdate := holding_update h.books.counts.nodup (fun x => rfl) hmem none x
    rw [hheld] at hupdate
    simp only [Option.some.injEq, reduceCtorEq, if_false, eq_comm (a := held)] at hupdate
    rw [outside]
    omega
  obtain ⟨conns, hcode, hbooks, hconnectors, hnext⟩ := h.books.autorelease hout hfuel
  refine ⟨_, Option.map_eq_some_iff.mpr ⟨conns.setConnector connector none, ?_, rfl⟩,
    ⟨(hbooks.setConnector connector none).congr (fun x _ => ?_), ?_⟩, hnext⟩
  · simp [connectorDestroy, hheld, hcode]
  · change s.handles x + count s.given (Function.update conns.connectors connector none) x = _
    rw [hconnectors]
  · intro c hc
    have hc : (Function.update conns.connectors connector none c).isSome := hc
    rw [hconnectors] at hc
    exact h.covers_update hmem c hc

end Held

/-- Every call that the program may make comes to its end. -/
theorem Held.step {s : ConnClients} {fuel : Nat} (h : Held s) (hfuel : s.conns.heap.next < fuel)
    {call : Call} (hcall : s.Permits INT_MAX.toNat call) :
    ∃ t, ConnClients.step fuel s call = some t ∧ Held t ∧
      t.conns.heap.next ≤ s.conns.heap.next + 1 := by
  have hone : ∀ {n : Nat}, n = s.conns.heap.next + 1 → n ≤ s.conns.heap.next + 1 := Nat.le_of_eq
  have hsame : ∀ {n : Nat}, n = s.conns.heap.next → n ≤ s.conns.heap.next + 1 :=
    fun he => he ▸ Nat.le_succ _
  cases call with
  | stream conn af fd =>
    obtain ⟨t, ht, hheld, hnext⟩ := h.stream hcall af fd
    exact ⟨t, ht, hheld, hone hnext⟩
  | dgram conn af fd =>
    obtain ⟨t, ht, hheld, hnext⟩ := h.dgram hcall.1 hcall.2 fd
    exact ⟨t, ht, hheld, hone hnext⟩
  | ux conn type ufd bindconn =>
    obtain ⟨t, ht, hheld, hnext⟩ := h.ux hcall.1 type ufd hcall.2
    exact ⟨t, ht, hheld, hone hnext⟩
  | addref conn =>
    obtain ⟨t, ht, hheld, hnext⟩ := h.addref hcall
    exact ⟨t, ht, hheld, hsame hnext⟩
  | autorelease conn =>
    obtain ⟨t, ht, hheld, hnext⟩ := h.autorelease hfuel hcall
    exact ⟨t, ht, hheld, hsame hnext⟩
  | create connector =>
    obtain ⟨t, ht, hheld, hnext⟩ := h.create hcall
    exact ⟨t, ht, hheld, hsame hnext⟩
  | openStream connector conn fd =>
    obtain ⟨t, ht, hheld, hnext⟩ := h.openStream hcall.1 hcall.2 fd
    exact ⟨t, ht, hheld, hone hnext⟩
  | openUx connector udpconn conn type fd =>
    obtain ⟨t, ht, hheld, hnext⟩ := h.openUx hcall.1 hcall.2.1 hcall.2.2 type fd
    exact ⟨t, ht, hheld, hone hnext⟩
  | open2 connector conn =>
    obtain ⟨t, ht, hheld, hnext⟩ := h.open2 hcall.1 hcall.2
    exact ⟨t, ht, hheld, hsame hnext⟩
  | takeout connector =>
    obtain ⟨t, ht, hheld, hnext⟩ := h.takeout hcall
    exact ⟨t, ht, hheld, hsame hnext⟩
  | destroy connector =>
    obtain ⟨t, ht, hheld, hnext⟩ := h.destroy hfuel hcall
    exact ⟨t, ht, hheld, hsame hnext⟩

/-- What holds of the connections of a program: `given` lists every address where one or
a connector lies, so `holding` and `bound` count them all. -/
structure Accounted (s : ConnClients) : Prop where
  given : s.given.Nodup ∧ (∀ a, (s.conns.heap.get? a).isSome → a ∈ s.given) ∧
    ∀ c, (s.conns.connectors c).isSome → c ∈ s.given
  counted : ∀ a c, s.conns.heap.get? a = some c →
    c.refs.toInt = (s.handles a + s.holding a + s.bound a : Nat)
  alive : ∀ a, a ≠ NULL →
    ((s.conns.heap.get? a).isSome ↔ 0 < s.handles a + s.holding a + s.bound a)
  once : s.conns.freed.Nodup
  freed : ∀ k, k ∈ s.conns.freed ↔ k < s.conns.heap.next ∧ ∀ a, ¬ s.conns.heap.Live ⟨a, k⟩
  closedOnce : s.conns.closed.Nodup
  closed : ∀ k, k ∈ s.conns.closed ↔ k ∈ s.conns.freed
  carriers : ∀ a c, s.conns.heap.get? a = some c → c.udpconn ≠ NULL →
    (s.conns.heap.get? c.udpconn).isSome
  order : ∀ b ∈ s.bindings, ∀ front rear, s.conns.closed = front ++ b.carrier :: rear →
    b.conn ∈ front

theorem Held.accounted {s : ConnClients} (h : Held s) : Accounted s := by
  obtain ⟨hcounts, hlogs⟩ := h.books
  have hnot : ∀ a, a ∉ ([] : List Ptr) := fun a => List.not_mem_nil
  obtain ⟨honce, hfreed⟩ := Heap.logged_nil_iff.mp hlogs.freed
  refine ⟨⟨hcounts.nodup, hcounts.covers, h.covers⟩, fun a c ha => ?_, fun a ha => ?_,
    honce, hfreed, hlogs.closed.once, fun k => ?_, fun a c ha hc => ?_, hlogs.order⟩
  · have hbound := hcounts.bound a (hcounts.not_null ha)
    obtain ⟨_, d, hd, hrefs⟩ :=
      hcounts.alive (hcounts.not_null ha) (hcounts.refs_pos (hnot a) ha)
    cases ha.symm.trans hd
    rw [hrefs, toInt_ofNat (Nat.le_trans hbound (by decide)), ← owners_eq]
    rfl
  · change _ ↔ 0 < s.owners a
    rw [owners_eq]
    constructor
    · intro hsome
      obtain ⟨c, hc⟩ := Option.isSome_iff_exists.mp hsome
      exact hcounts.refs_pos (hnot a) hc
    · intro hpos
      obtain ⟨_, c, hc, _⟩ := hcounts.alive ha hpos
      rw [hc]
      rfl
  · rw [hlogs.closed.listed k, hlogs.freed.listed k]
  · obtain ⟨k, hk⟩ := Heap.exists_live ha
    obtain ⟨j, _, hj⟩ := hcounts.older a c k (hnot a) ha hc hk
    by_contra hnone
    exact Heap.not_live_of_get? (Option.not_isSome_iff_eq_none.mp hnone) hj

/-- As long as nobody refers to a connection more than `INT_MAX` times, its count is the
number of its owners, and it is closed and freed when it has none left: once, and after
all that was bound to it. No release goes deeper than connections have been made. -/
theorem connections_accounted {fuel : Nat} {calls : List Call} (hfuel : calls.length < fuel)
    (hcalls : Lawful (step fuel) (Permits INT_MAX.toNat) empty calls) :
    ∃ s, run (step fuel) empty calls = some s ∧ Accounted s := by
  let inv (rest : List Call) (s : ConnClients) : Prop :=
    Held s ∧ s.conns.heap.next + rest.length < fuel
  have hkeep : ∀ s call rest, inv (call :: rest) s → s.Permits INT_MAX.toNat call →
      ∃ t, step fuel s call = some t ∧ inv rest t := by
    intro s call rest h hcall
    obtain ⟨hheld, hroom⟩ := h
    rw [List.length_cons] at hroom
    have hfuel : s.conns.heap.next < fuel := by omega
    obtain ⟨t, ht, hheld, hnext⟩ := hheld.step hfuel hcall
    exact ⟨t, ht, hheld, by omega⟩
  have hstart : inv calls empty := by
    refine ⟨held_empty, ?_⟩
    change 0 + calls.length < fuel
    omega
  obtain ⟨s, hrun, hheld, _⟩ := Lawful.run hkeep hstart hcalls
  exact ⟨s, hrun, hheld.accounted⟩

/-- Two ux connections one upon the other over udp, and a third made by a connector: the
last owner takes all of them down. -/
def stackedConnections : List Call :=
  [.dgram 1 AF_INET 5, .ux 2 SOCK_STREAM 6 1, .ux 3 2 7 2, .autorelease 1, .create 50,
    .open2 50 3, .autorelease 2, .addref 3, .autorelease 3, .autorelease 3, .autorelease NULL,
    .takeout 50, .create 51, .openUx 51 3 4 SOCK_STREAM (-1), .autorelease 3, .destroy 51,
    .stream 3 AF_UNSPEC 0, .openStream 50 1 8]

theorem stacked_connections_accounted : ∃ s,
    run (step 20) empty stackedConnections = some s ∧ s.conns.closed = [3, 2, 1, 0] ∧
      s.conns.freed = [0, 1, 2, 3] ∧ s.handles 3 = 1 ∧ s.holding 1 = 1 ∧ Accounted s := by
  obtain ⟨s, hrun, haccounted⟩ :=
    @connections_accounted 20 stackedConnections (by decide) (by decide)
  refine ⟨s, hrun, ?_⟩
  cases hrun.symm.trans rfl
  exact ⟨rfl, rfl, rfl, rfl, haccounted⟩

theorem owners_addref (s : ConnClients) (conn : Ptr) :
    ({ s with conns := s.conns.modify conn Connection.refInc }.addHandle conn).owners conn =
      s.owners conn + 1 := by
  have hbound : ({ s with conns := s.conns.modify conn Connection.refInc }.addHandle conn).bound
      conn = s.bound conn := by
    rw [bound_eq, bound_eq]
    exact congrArg (count s.given · conn) (boundTo_modify _ (fun _ _ => rfl))
  have hhandles : ({ s with conns := s.conns.modify conn Connection.refInc }.addHandle
      conn).handles conn = s.handles conn + 1 := Function.update_self _ _ _
  have hholding : ({ s with conns := s.conns.modify conn Connection.refInc }.addHandle
      conn).holding conn = s.holding conn := rfl
  rw [owners, owners, hbound, hhandles, hholding]
  omega

theorem run_addrefs {fuel n limit : Nat} {s : ConnClients} {conn : Ptr} {c : Connection}
    (hget : s.conns.heap.get? conn = some c) (hlimit : s.owners conn + n ≤ limit) :
    ∃ t d, run (step fuel) s (List.replicate n (.addref conn)) = some t ∧
      Lawful (step fuel) (Permits limit) s (List.replicate n (.addref conn)) ∧
      t.conns.heap.get? conn = some d ∧ d.refs = c.refs + BitVec.ofNat 32 n ∧
      t.owners conn = s.owners conn + n := by
  induction n generalizing s c with
  | zero => exact ⟨s, c, rfl, trivial, hget, by simp, rfl⟩
  | succ n ih =>
    let m := { s with conns := s.conns.modify conn Connection.refInc }.addHandle conn
    have hm : step fuel s (.addref conn) = some m := by
      simp [step, Connections.addref, hget, m]
    have howners : m.owners conn = s.owners conn + 1 := owners_addref s conn
    obtain ⟨t, d, hrun, hlawful, hd, hrefs, ht⟩ :=
      @ih m c.refInc ((Heap.get?_modify_of_get? hget Connection.refInc conn).trans (if_pos rfl))
        (by omega)
    refine ⟨t, d, run_cons.mpr ⟨m, hm, hrun⟩, Lawful.cons ⟨by rw [hget]; rfl, by omega⟩ hm hlawful,
      hd, ?_, by omega⟩
    rw [hrefs, Connection.refInc, BitVec.add_assoc, BitVec.ofNat_add, BitVec.add_comm 1]
    rfl

/-- With `2 ^ 31` handles to one connection its `_refs` has wrapped. -/
theorem connection_refs_wrap : ∃ s c,
    Lawful (step 1) (Permits (2 ^ 31)) empty
      (.stream 7 AF_INET 5 :: List.replicate (2 ^ 31 - 1) (.addref 7)) ∧
    run (step 1) empty (.stream 7 AF_INET 5 :: List.replicate (2 ^ 31 - 1) (.addref 7)) = some s ∧
    s.handles 7 + s.holding 7 + s.bound 7 = 2 ^ 31 ∧
    s.conns.heap.get? 7 = some c ∧ c.refs.toInt = -2 ^ 31 := by
  obtain ⟨m, hm⟩ : ∃ m, step 1 empty (.stream 7 AF_INET 5) = some m := ⟨_, rfl⟩
  obtain ⟨c, hget, hrefs⟩ : ∃ c, m.conns.heap.get? 7 = some c ∧ c.refs = 1 := by
    cases hm
    exact ⟨_, rfl, rfl⟩
  have hone : m.owners 7 = 1 := by
    cases hm
    rfl
  obtain ⟨t, d, hrun, hlawful, hd, hwrap, howners⟩ :=
    @run_addrefs 1 (2 ^ 31 - 1) (2 ^ 31) m 7 c hget (by rw [hone]; decide)
  refine ⟨t, d, Lawful.cons (by decide) hm hlawful, run_cons.mpr ⟨m, hm, hrun⟩, ?_, hd, ?_⟩
  · exact howners.trans (by rw [hone]; rfl)
  · rw [hwrap, hrefs]
    rfl

end ConnClients

end Awe
