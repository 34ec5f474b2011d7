import Awe.Connection.Sockets
import Awe.OpenPending

namespace Awe

/-- The loop with the tcp connectors, the uxscheduler of the ux connectors, and the
connections of both. -/
structure Connectors where
  loop : ConnectorLoop
  uxsched : UxScheduler
  conns : Connections

namespace Connectors

/-- `awe_connector_open` with the open of its new connection; `timer` and `io` are where
the records of its registrations come to lie. -/
def tcpOpen (s : Connectors) (c conn : Ptr) (ip : Option String) (timeout : BitVec 32)
    (o : Answers) (timer io : Ptr) : Option (Status × Connectors) := do
  let opened := (Socket.stream AF_UNSPEC 0).openConn ip 0 o
  let conns ← s.conns.connectorOpen c conn opened.conn.fd
  let (status, loop) ← s.loop.openConn c conn opened.status timeout opened.conn.fd timer io
  some (status, { s with loop := loop, conns := conns })

inductive UxWay where
  | open (ip : Option String)
  | openaddr
  deriving DecidableEq

/-- `awe_connection_open` or `awe_connection_open2` of a new ux connection. -/
def uxConnOpen (way : UxWay) (type af : Int) (o : Answers) : Opened :=
  match way with
  | .open ip => (Socket.ux type 0 af).openConn ip 0 o
  | .openaddr => (Socket.ux type 0 af).open2 o

/-- `awe_uxconnector_open` and `awe_uxconnector_openaddr` with the open of the new
connection, which reads the descriptor of the carrier; `u` says the rest. -/
def uxOpen (s : Connectors) (way : UxWay) (udpconn conn : Ptr) (type : Int) (o : Answers)
    (u : UxOpen) : Option (Status × Connectors) := do
  let carrier ← s.conns.heap.get? udpconn
  let opened := uxConnOpen way type carrier.af { o with udpfd := carrier.fd }
  let conns ← s.conns.uxconnectorOpen u.self udpconn conn type opened.conn.fd
  if conn = NULL then none
  else do
    let (status, uxsched) ←
      { u with rs := opened.status, ufd := opened.conn.fd : UxOpen }.exec s.uxsched
    some (status, { s with uxsched := uxsched, conns := conns })

/-- What `ALOG_ASSERT` at the start of an open looks at. -/
def Trips (s : Connectors) (c : Ptr) : Prop :=
  ∃ held, s.conns.connectors c = some held ∧ held ≠ NULL

structure TcpReusable (t : Connectors) (c : Ptr) : Prop where
  slot : t.conns.connectors c = some NULL
  watch : ∀ a ∈ t.loop.sched.evioList, ∀ refs fd events,
    t.loop.sched.heap.get? a ≠
      some ⟨refs, .io ⟨fd, events, .user Connector.connecthandlingProc, c⟩⟩
  timeout : ∀ a ∈ t.loop.sched.evtimerList, ∀ refs type ms arg,
    t.loop.sched.heap.get? a ≠
      some ⟨refs, .timer ⟨type, ms, Connector.connecttimeoutProc, c, arg⟩⟩
  following : ¬ t.Trips c

/-- A ux connector and its carrier are as they were before an open. -/
structure UxReusable (s : Connectors) (c udpconn : Ptr) (t : Connectors) : Prop where
  slot : t.conns.connectors c = some NULL
  registration : ∀ e ∈ t.uxsched.uxeventList,
    ¬ (e.proc = UxConnector.connecthandlingProc ∧ e.userdata = c)
  timeout : ∀ task ∈ t.uxsched.taskList,
    ¬ (task.proc = UxConnector.connecttimeoutProc ∧ task.userdata = c ∧ task.state = .valid)
  carrier : (t.conns.heap.get? udpconn).map Connection.refs =
    (s.conns.heap.get? udpconn).map Connection.refs
  following : ¬ t.Trips c

/-- A new stream connection can be opened: its address is found, the set-up and the
connect succeed, and the descriptor is not 0. -/
def StreamOpens (o : Answers) : Prop :=
  o.addrinfo ≠ none ∧ 0 < socketCreate o ∧ o.reuseaddr ∧ o.setfl ∧ o.connect ≠ .failed

/-- A new ux connection can be opened: its address is found, or given for other than a
stream, the carrier is open, and the udt library binds to it. -/
def UxOpens (way : UxWay) (type udpfd : Int) (o : Answers) : Prop :=
  (match way with
    | .open _ => o.addrinfo ≠ none
    | .openaddr => type ≠ SOCK_STREAM) ∧ 0 < udpfd ∧ 0 ≤ o.uxBind2

instance (o : Answers) : Decidable (StreamOpens o) := inferInstanceAs (Decidable (_ ∧ _))

instance (type udpfd : Int) (o : Answers) : ∀ way, Decidable (UxOpens way type udpfd o)
  | .open _ | .openaddr => inferInstanceAs (Decidable (_ ∧ _))

theorem stream_status (ip : Option String) (o : Answers) :
    ((Socket.stream AF_UNSPEC 0).openConn ip 0 o).status = 0 ∧ StreamOpens o ∨
      ((Socket.stream AF_UNSPEC 0).openConn ip 0 o).status < 0 ∧ ¬ StreamOpens o := by
  change ((Socket.stream AF_UNSPEC 0).inetStreamOpen 0 o).status = 0 ∧ StreamOpens o ∨
    ((Socket.stream AF_UNSPEC 0).inetStreamOpen 0 o).status < 0 ∧ ¬ StreamOpens o
  unfold Socket.inetStreamOpen
  rw [if_neg (by decide)]
  cases haddr : o.addrinfo with
  | none => exact Or.inr ⟨Int.negSucc_lt_zero 1, fun h => h.1 haddr⟩
  | some families =>
    have hpos : 0 < (streamSetup o 0 true).1 ↔ 0 < socketCreate o ∧ o.reuseaddr ∧ o.setfl := by
      rw [streamSetup, socketSetup_pos]
      simp
    dsimp only
    split
    · rename_i hfd
      refine Or.inr ⟨Int.negSucc_lt_zero 0, fun h => ?_⟩
      have hmade := hpos.mpr ⟨h.2.1, h.2.2.1, h.2.2.2.1⟩
      omega
    · rename_i hfd
      obtain ⟨hsocket, hreuse, hsetfl⟩ := hpos.mp (by omega)
      split
      · rename_i hrefused
        exact Or.inr ⟨Int.negSucc_lt_zero 0, fun h => h.2.2.2.2 hrefused⟩
      · rename_i hconnect
        exact Or.inl ⟨rfl, by simp [haddr], hsocket, hreuse, hsetfl, hconnect⟩

theorem connUxOpen_status {c : Socket} (h : c.fd = 0) (o : Answers) :
    (c.connUxOpen o).status = 0 ∧ 0 < o.udpfd ∧ 0 ≤ o.uxBind2 ∨
      (c.connUxOpen o).status < 0 ∧ ¬ (0 < o.udpfd ∧ 0 ≤ o.uxBind2) := by
  unfold Socket.connUxOpen
  rw [if_neg (by omega)]
  split
  · exact Or.inr ⟨Int.negSucc_lt_zero 0, by omega⟩
  · dsimp only
    split
    · exact Or.inr ⟨Int.negSucc_lt_zero 0, by omega⟩
    · exact Or.inl ⟨rfl, by omega, by omega⟩

theorem ux_status (way : UxWay) (type af : Int) (o : Answers) :
    (uxConnOpen way type af o).status = 0 ∧ UxOpens way type o.udpfd o ∨
      (uxConnOpen way type af o).status < 0 ∧ ¬ UxOpens way type o.udpfd o := by
  cases way with
  | «open» ip =>
    have hopen : uxConnOpen (.open ip) type af o = (Socket.ux type 0 af).uxStreamOpen o := by
      by_cases htype : SOCK_STREAM = type <;> simp [uxConnOpen, Socket.openConn, Socket.ux, htype]
    rw [hopen, Socket.uxStreamOpen, if_pos (by simp [Socket.ux])]
    cases haddr : o.addrinfo with
    | none => exact Or.inr ⟨Int.negSucc_lt_zero 0, fun h => h.1 haddr⟩
    | some families =>
      dsimp only
      rcases @connUxOpen_status ((Socket.ux type 0 af).found families) rfl o with h | h
      · exact Or.inl ⟨h.1, by simp [haddr], h.2⟩
      · exact Or.inr ⟨h.1, fun hopens => h.2 hopens.2⟩
  | openaddr =>
    by_cases htype : SOCK_STREAM = type
    · have hopen : uxConnOpen .openaddr type af o = (Socket.ux type 0 af).uxStreamOpen2 := by
        simp [uxConnOpen, Socket.open2, Socket.ux, htype]
      rw [hopen]
      exact Or.inr ⟨Int.negSucc_lt_zero 0, fun h => h.1 htype.symm⟩
    · have hopen : uxConnOpen .openaddr type af o = (Socket.ux type 0 af).connUxOpen o := by
        simp [uxConnOpen, Socket.open2, Socket.ux, htype, Socket.uxDgramOpen2]
      rw [hopen]
      rcases @connUxOpen_status (Socket.ux type 0 af) rfl o with h | h
      · exact Or.inl ⟨h.1, Ne.symm htype, h.2⟩
      · exact Or.inr ⟨h.1, fun hopens => h.2 hopens.2⟩

section Opens

variable {s t : Connectors} {status : Status} {o : Answers} {conn udpconn : Ptr}

theorem openConn_status {s t : ConnectorLoop} {c : Ptr} {rs : Int} {timeout : BitVec 32} {fd : Int}
    {timer io : Ptr} (ht : s.openConn c conn rs timeout fd timer io = some (status, t)) :
    conn ≠ NULL ∧ status = if rs = 0 ∨ rs = 1 then AWE_OK else -1 := by
  unfold ConnectorLoop.openConn at ht
  split at ht
  · cases ht
  · split at ht
    · cases ht
    · rename_i hslot
      refine ⟨fun hnull => hslot (Or.inr hnull), ?_⟩
      split at ht
      · rename_i hrs
        simp only [Option.bind_eq_bind, Option.bind_eq_some_iff] at ht
        obtain ⟨_, _, _, _, he⟩ := ht
        cases he
        rw [if_pos hrs]
      · rename_i hrs
        cases ht
        rw [if_neg hrs]

/-- The open of a connection touches nothing but its descriptor. -/
theorem openConn_eq {s t : Connections} {fd : Int} (ht : s.openConn conn fd = some t) :
    t = s.modify conn (fun c => { c with fd := fd }) := by
  simp only [Connections.openConn, Option.bind_eq_bind, Option.bind_eq_some_iff] at ht
  obtain ⟨_, _, _, _, ht⟩ := ht
  split at ht
  · obtain ⟨_, _, rfl⟩ := Option.map_eq_some_iff.mp ht
    rfl
  · cases ht
    rfl

/-- The connection stays in the slot, whether it opens or not. -/
theorem tcpOpen_slot {c : Ptr} {ip : Option String} {timeout : BitVec 32} {timer io : Ptr}
    (ht : s.tcpOpen c conn ip timeout o timer io = some (status, t)) :
    conn ≠ NULL ∧ t.conns.connectors c = some conn := by
  simp only [tcpOpen, Option.bind_eq_bind, Option.bind_eq_some_iff] at ht
  obtain ⟨conns, hconns, ⟨_, loop⟩, hloop, he⟩ := ht
  cases he
  refine ⟨(openConn_status hloop).1, ?_⟩
  simp only [Connections.connectorOpen, Option.bind_eq_bind, Option.bind_eq_some_iff] at hconns
  obtain ⟨held, _, hconns⟩ := hconns
  obtain ⟨_, hconns⟩ := Option.ite_none_left_eq_some.mp hconns
  obtain ⟨_, _, hconns⟩ := Option.bind_eq_some_iff.mp hconns
  rw [openConn_eq hconns]
  exact Function.update_self ..

/-- An open returns -1 exactly if the open of the connection fails. -/
theorem tcpOpen_status {c : Ptr} {ip : Option String} {timeout : BitVec 32} {timer io : Ptr}
    (ht : s.tcpOpen c conn ip timeout o timer io = some (status, t)) :
    status = -1 ↔ ¬ StreamOpens o := by
  simp only [tcpOpen, Option.bind_eq_bind, Option.bind_eq_some_iff] at ht
  obtain ⟨conns, hconns, ⟨_, loop⟩, hloop, he⟩ := ht
  cases he
  rw [(openConn_status hloop).2]
  rcases stream_status ip o with ⟨hstatus, hopens⟩ | ⟨hstatus, hopens⟩
  · rw [if_pos (Or.inl hstatus)]
    exact iff_of_false (fun he => by cases he) (not_not.mpr hopens)
  · rw [if_neg (by omega)]
    exact iff_of_true rfl hopens

/-- The next open of a connector whose slot is taken does not return. -/
theorem tcpOpen_of_trips {c : Ptr} (h : s.Trips c) (ip : Option String) (timeout : BitVec 32)
    (timer io : Ptr) : s.tcpOpen c conn ip timeout o timer io = none := by
  obtain ⟨held, hheld, hne⟩ := h
  simp [tcpOpen, Connections.connectorOpen, hheld, hne]

theorem uxOpen_of_trips {u : UxOpen} (h : s.Trips u.self) (way : UxWay) (type : Int) :
    s.uxOpen way udpconn conn type o u = none := by
  obtain ⟨held, hheld, hne⟩ := h
  cases hcarrier : s.conns.heap.get? udpconn with
  | none => simp [uxOpen, hcarrier]
  | some carrier => simp [uxOpen, hcarrier, Connections.uxconnectorOpen, hheld, hne]

/-- The new connection stays in the slot, with a reference to the carrier. -/
theorem uxconnectorOpen_keeps {s t : Connections} {c : Ptr} {type fd : Int} {carrier : Connection}
    (hcarrier : s.heap.get? udpconn = some carrier)
    (ht : s.uxconnectorOpen c udpconn conn type fd = some t) :
    t.connectors c = some conn ∧
      (t.heap.get? udpconn).map Connection.refs = some (carrier.refs + 1) := by
  simp only [Connections.uxconnectorOpen, Option.bind_eq_bind, Option.bind_eq_some_iff] at ht
  obtain ⟨held, _, ht⟩ := ht
  obtain ⟨_, ht⟩ := Option.ite_none_left_eq_some.mp ht
  obtain ⟨u, hu, ht⟩ := Option.bind_eq_some_iff.mp ht
  refine ⟨?_, ?_⟩
  · rw [openConn_eq ht]
    exact Function.update_self ..
  · simp only [Connections.ux, Connections.init, Connections.addref, Option.bind_eq_bind,
      Option.bind_eq_some_iff, Option.map_eq_some_iff] at hu
    obtain ⟨_, ⟨heap, halloc, rfl⟩, bind, hbind, _, ⟨_, _, rfl⟩, he⟩ := hu
    cases he
    have hne : udpconn ≠ conn := by
      intro he
      have hfree := Heap.alloc_free_before halloc
      rw [← he, hcarrier] at hfree
      cases hfree
    have hkept : heap.get? udpconn = some carrier := by
      rw [Heap.get?_alloc halloc, if_neg hne, hcarrier]
    rw [openConn_eq ht]
    simp [Connections.modify, Connections.setUdpconn, Connections.setImpl,
      Connections.setConnector, Heap.get?_modify, hne, hkept, Connection.refInc]

theorem exec_status {u : UxOpen} {s t : UxScheduler} (ht : u.exec s = some (status, t)) :
    status = if u.rs = 0 then AWE_OK else -1 := by
  simp only [UxOpen.exec, Option.bind_eq_bind, Option.bind_eq_some_iff] at ht
  obtain ⟨_, _, _, _, _, _, he⟩ := ht
  cases he
  unfold UxOpen.calls
  split <;> rfl

theorem uxOpen_keeps {way : UxWay} {type : Int} {u : UxOpen}
    (ht : s.uxOpen way udpconn conn type o u = some (status, t)) :
    conn ≠ NULL ∧ t.conns.connectors u.self = some conn ∧
      ∃ carrier, s.conns.heap.get? udpconn = some carrier ∧
        (t.conns.heap.get? udpconn).map Connection.refs = some (carrier.refs + 1) ∧
        (status = -1 ↔ ¬ UxOpens way type carrier.fd o) := by
  simp only [uxOpen, Option.bind_eq_bind, Option.bind_eq_some_iff] at ht
  obtain ⟨carrier, hcarrier, conns, hconns, ht⟩ := ht
  obtain ⟨hconn, ht⟩ := Option.ite_none_left_eq_some.mp ht
  obtain ⟨⟨_, uxsched⟩, hexec, he⟩ := Option.bind_eq_some_iff.mp ht
  cases he
  obtain ⟨hslot, hrefs⟩ := uxconnectorOpen_keeps hcarrier hconns
  refine ⟨hconn, hslot, carrier, hcarrier, hrefs, ?_⟩
  rw [exec_status hexec]
  dsimp only
  rcases ux_status way type carrier.af { o with udpfd := carrier.fd } with
    ⟨hstatus, hopens⟩ | ⟨hstatus, hopens⟩
  · rw [if_pos hstatus]
    exact iff_of_false (by decide) (not_not.mpr hopens)
  · rw [if_neg (Int.ne_of_lt hstatus)]
    exact iff_of_true rfl hopens

end Opens

/-- What a failed open should leave is left exactly if the open does not fail: whatever it
fails on, the connection stays in the slot, where the next open finds it. -/
theorem failed_open_reusable_iff (s t : Connectors) (conn : Ptr) (o : Answers) (status : Status) :
    (∀ (c : Ptr) (ip : Option String) (timeout : BitVec 32) (timer io : Ptr),
      s.tcpOpen c conn ip timeout o timer io = some (status, t) →
      ((status = -1 → t.TcpReusable c) ↔ StreamOpens o)) ∧
    ∀ (way : UxWay) (udpconn : Ptr) (type : Int) (u : UxOpen) (carrier : Connection),
      s.conns.heap.get? udpconn = some carrier →
      s.uxOpen way udpconn conn type o u = some (status, t) →
      ((status = -1 → s.UxReusable u.self udpconn t) ↔ UxOpens way type carrier.fd o) := by
  constructor
  · intro c ip timeout timer io ht
    obtain ⟨hconn, hslot⟩ := tcpOpen_slot ht
    rw [tcpOpen_status ht]
    constructor
    · intro h
      by_contra hfails
      exact hconn (Option.some.inj (hslot.symm.trans (h hfails).slot))
    · exact fun hopens hfails => absurd hopens hfails
  · intro way udpconn type u carrier hcarrier ht
    obtain ⟨hconn, hslot, carrier', hcarrier', _, hstatus⟩ := uxOpen_keeps ht
    cases hcarrier.symm.trans hcarrier'
    rw [hstatus]
    constructor
    · intro h
      by_contra hfails
      exact hconn (Option.some.inj (hslot.symm.trans (h hfails).slot))
    · exact fun hopens hfails => absurd hopens hfails

/-- Connector 10 for tcp, connector 20 for ux, and an open datagram connection at 40. -/
def unopened : Option Connectors := do
  let loop ← (ConnectorLoop.create 1).new 10 7 0
  let conns ← Connections.empty.connectorCreate 10
  let conns ← conns.connectorCreate 20
  let (_, conns) ← conns.dgram 1 40 AF_INET 5
  some ⟨loop, UxScheduler.create, conns⟩

/-- Both kinds of connectors are opened. -/
theorem granted_open_reusable :
    (∃ s status t, unopened = some s ∧
      s.tcpOpen 10 50 (some "a") 5000 (.granting 4) 200 300 = some (status, t) ∧
      (status = -1 → t.TcpReusable 10)) ∧
    ∃ s status t, unopened = some s ∧
      s.uxOpen .openaddr 40 60 2 (.granting 4) { undisturbed 0 with self := 20 } =
        some (status, t) ∧ (status = -1 → s.UxReusable 20 40 t) := by
  constructor
  · refine ⟨_, _, _, rfl, rfl, ?_⟩
    exact ((failed_open_reusable_iff (unopened.get rfl) _ 50 (.granting 4) _).1 10 (some "a") 5000
      200 300 rfl).mpr (by decide)
  · refine ⟨_, _, _, rfl, rfl, ?_⟩
    exact ((failed_open_reusable_iff (unopened.get rfl) _ 60 (.granting 4) _).2 .openaddr 40 2
      { undisturbed 0 with self := 20 } _ rfl rfl).mpr (by decide)

/-- A name that is not found, and a bind that fails; neither connector can be opened again. -/
theorem failed_open_sticks :
    (∃ s t, unopened = some s ∧
      s.tcpOpen 10 50 (some "a") 5000 { Answers.granting 4 with addrinfo := none } 200 300 =
        some (-1, t) ∧ ¬ t.TcpReusable 10 ∧
      ∀ conn ip timeout o timer io, t.tcpOpen 10 conn ip timeout o timer io = none) ∧
    ∃ s t, unopened = some s ∧
      s.uxOpen (.open (some "a")) 40 60 SOCK_STREAM { Answers.granting 4 with uxBind2 := -1 }
        { undisturbed 0 with self := 20 } = some (-1, t) ∧ ¬ s.UxReusable 20 40 t ∧
      ∀ way udpconn conn type o, t.uxOpen way udpconn conn type o
        { undisturbed 0 with self := 20 } = none := by
  constructor
  · refine ⟨_, _, rfl, rfl, fun h => absurd h.slot (by decide), ?_⟩
    exact fun conn ip timeout o timer io =>
      tcpOpen_of_trips ⟨50, rfl, by decide⟩ ip timeout timer io
  · refine ⟨_, _, rfl, rfl, fun h => absurd h.slot (by decide), ?_⟩
    exact fun way udpconn conn type o => uxOpen_of_trips ⟨60, rfl, by decide⟩ way type

end Connectors

end Awe
