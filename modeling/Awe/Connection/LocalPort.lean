import Awe.Connection.Sockets

namespace Awe
open Machine

/-- A port in host order; 0 stands for none. -/
abbrev Port := { p : BitVec 16 // p ≠ 0 }

@[simp] theorem Port.ne_zero (p : Port) : p.val ≠ 0#16 := p.property

/-- `socket_localPort4` and `socket_localPort6`: what `getsockname` answers, if it does. -/
def socketLocalPort (sockname : Option (BitVec 16)) (port : BitVec 16) : Int × BitVec 16 :=
  match sockname with
  | none => (-1, port)
  | some p => (AWE_OK, p)

/-- What `awe_socket_localPort4` and `awe_socket_localPort6` have in common: a second try
after a `bind`. -/
def localPortTwice (first second : Option (BitVec 16)) (port : BitVec 16) : Int × BitVec 16 :=
  let (status, port) := socketLocalPort first port
  if status ≠ AWE_OK ∨ port = 0 then
    let (status, port) := socketLocalPort second port
    if status ≠ AWE_OK ∨ port = 0 then (-1, port) else (AWE_OK, port)
  else (AWE_OK, port)

def socketLocalPort4 : Option (BitVec 16) → Option (BitVec 16) → BitVec 16 → Int × BitVec 16 :=
  localPortTwice

def socketLocalPort6 : Option (BitVec 16) → Option (BitVec 16) → BitVec 16 → Int × BitVec 16 :=
  localPortTwice

/-- `awe_connection_localPort`, where the status of the query is not looked at. -/
def Socket.connLocalPort (c : Socket) (first second : Option (BitVec 16)) : BitVec 16 × Socket :=
  if c.localPort = 0 then
    let query := if c.af = AF_INET then socketLocalPort4 else socketLocalPort6
    let port := (query first second c.localPort).2
    (port, { c with localPort := port })
  else (c.localPort, c)

def Socket.Created (c : Socket) : Prop :=
  (∃ af fd, c = stream af fd) ∨ (∃ af fd, dgram af fd = some c) ∨
    ∃ type ufd af, c = ux type ufd af

/-- A connection, the number of the descriptor it has obtained last, the port of the first
descriptor it was asked about, and what the last call was told if it was a query that the
system answers for an open connection. -/
structure PortCache where
  conn : Socket
  current : Nat
  asked : Option Port
  answer : Option (BitVec 16)

namespace PortCache

def start (conn : Socket) : PortCache := ⟨conn, 0, none, none⟩

inductive Act where
  | open (host : Option String) (bindPort : BitVec 16) (o : Answers)
  | open2 (o : Answers)
  | close
  /-- Whether `getsockname` succeeds at the first and at the second try, and its answer for
  the descriptor 0, which an unopened connection has. -/
  | localPort (first second : Bool) (zero : Port)
  deriving DecidableEq

/-- The descriptors an open has obtained, also those it closed again. -/
def obtained (log : List (Resources.Event Int)) : Nat :=
  log.countP (fun e => match e with
    | .acquired _ => true
    | .released _ => false)

variable (ports : Nat → Port)

/-- The port that `getsockname` answers with; a negative descriptor has none. -/
def sockname (s : PortCache) (zero : Port) : Option Port :=
  if s.conn.fd < 0 then none
  else if s.conn.fd = 0 then some zero
  else some (ports s.current)

def query (s : PortCache) (first second : Bool) (zero : Port) : PortCache :=
  let sockname := s.sockname ports zero
  let ask (succeeds : Bool) : Option (BitVec 16) :=
    if succeeds then sockname.map Subtype.val else none
  let (port, conn) := s.conn.connLocalPort (ask first) (ask second)
  { s with
    conn := conn
    asked := if first || second then s.asked.or sockname else s.asked
    answer := if 0 < s.conn.fd ∧ (first || second) then some port else none }

def step (s : PortCache) : Act → Option PortCache
  | .open host bindPort o =>
    let r := s.conn.openConn host bindPort o
    some { s with conn := r.conn, current := s.current + obtained r.log, answer := none }
  | .open2 o =>
    let r := s.conn.open2 o
    some { s with conn := r.conn, current := s.current + obtained r.log, answer := none }
  | .close => some { s with conn := s.conn.close.1, answer := none }
  | .localPort first second zero => some (s.query ports first second zero)

/-- The answer is the port of the descriptor the connection holds. -/
def Coherent (s : PortCache) : Prop := ∀ p, s.answer = some p → p = (ports s.current).val

/-- An open connection whose query the system would answer is asked when no descriptor was
asked about before, or the first one had the same port. -/
def AskedFirst (s : PortCache) : Act → Prop
  | .localPort first second _ =>
    0 < s.conn.fd → (first || second) → ∀ p ∈ s.asked, p = ports s.current
  | _ => True

instance (s : PortCache) : ∀ a, Decidable (AskedFirst ports s a)
  | .localPort .. =>
    have : Decidable (∀ p ∈ s.asked, p = ports s.current) := Option.decidableForallMem s.asked
    inferInstanceAs (Decidable (_ → _ → ∀ p ∈ s.asked, p = ports s.current))
  | .open .. | .open2 _ | .close => isTrue trivial

/-- `_local_port` is the port of the first descriptor that was asked about. -/
def Remembers (s : PortCache) : Prop := s.conn.localPort = (s.asked.map Subtype.val).getD 0

section Steps

variable {ports} {s t : PortCache} {first second : Bool} {zero : Port}

/-- What the query of a port that is not known yet ends with. -/
theorem localPortTwice_zero (sockname : Option Port) (first second : Bool) :
    (localPortTwice (if first then sockname.map Subtype.val else none)
      (if second then sockname.map Subtype.val else none) 0).2 =
        if first || second then (sockname.map Subtype.val).getD 0 else 0 := by
  cases sockname with
  | none => cases first <;> cases second <;> rfl
  | some p =>
    cases first with
    | true => simp [localPortTwice, socketLocalPort]
    | false =>
      cases second with
      | true => simp [localPortTwice, socketLocalPort, AWE_OK]
      | false => rfl

/-- What is answered and remembered: the port that is known, or the one of a query. -/
theorem connLocalPort_eq (s : PortCache) (first second : Bool) (sockname : Option Port) :
    s.conn.connLocalPort (if first then sockname.map Subtype.val else none)
      (if second then sockname.map Subtype.val else none) =
        (if s.conn.localPort = 0 then
          (if first || second then (sockname.map Subtype.val).getD 0 else 0)
        else s.conn.localPort,
        { s.conn with localPort := if s.conn.localPort = 0 then
          (if first || second then (sockname.map Subtype.val).getD 0 else 0)
        else s.conn.localPort }) := by
  unfold Socket.connLocalPort
  split
  · rename_i hport
    rw [hport]
    have hquery : (if s.conn.af = AF_INET then socketLocalPort4 else socketLocalPort6) =
        localPortTwice := by
      split <;> rfl
    simp only [hquery, localPortTwice_zero]
  · rfl

theorem Remembers.query (h : Remembers s) : Remembers (s.query ports first second zero) := by
  unfold PortCache.query Remembers
  simp only [connLocalPort_eq]
  rw [h]
  cases hasked : s.asked with
  | some p => simp
  | none => cases first <;> cases second <;> simp

theorem Remembers.step {a : Act} (h : Remembers s) (ht : s.step ports a = some t) :
    Remembers t := by
  cases a with
  | «open» host bindPort o =>
    cases ht
    exact (Socket.keeps_openConn s.conn host bindPort o).localPort.trans h
  | open2 o =>
    cases ht
    exact (Socket.keeps_open2 s.conn o).localPort.trans h
  | close =>
    cases ht
    exact (Socket.keeps_close s.conn).localPort.trans h
  | localPort first second zero =>
    cases ht
    exact h.query

theorem coherent_query_iff (h : Remembers s) :
    Coherent ports (s.query ports first second zero) ↔
      (0 < s.conn.fd → (first || second) → ∀ p ∈ s.asked, p = ports s.current) := by
  unfold PortCache.query Coherent
  simp only [connLocalPort_eq]
  by_cases hopen : 0 < s.conn.fd
  · by_cases hgot : (first || second) = true
    · rw [if_pos ⟨hopen, hgot⟩, h]
      have hname : s.sockname ports zero = some (ports s.current) := by
        rw [sockname, if_neg (by omega), if_neg (by omega)]
      simp only [hopen, hgot, hname, forall_true_left, Option.some.injEq, forall_eq']
      cases hasked : s.asked with
      | some p =>
        simp only [Option.mem_def, Option.some.injEq, forall_eq', Option.map_some,
          Option.getD_some, if_neg p.property]
        exact Subtype.ext_iff.symm
      | none => simp
    · rw [if_neg (fun hboth => hgot hboth.2)]
      simp [hgot]
  · rw [if_neg (fun hboth => hopen hboth.1)]
    simp [hopen]

theorem coherent_step_iff {a : Act} (h : Remembers s) (ht : s.step ports a = some t) :
    Coherent ports t ↔ AskedFirst ports s a := by
  cases a with
  | «open» | open2 | close =>
    cases ht
    exact iff_of_true nofun trivial
  | localPort first second zero =>
    cases ht
    exact coherent_query_iff h

end Steps

theorem remembers_start {c : Socket} (hc : c.Created) : Remembers (start c) := by
  rcases hc with ⟨af, fd, rfl⟩ | ⟨af, fd, hdgram⟩ | ⟨type, ufd, af, rfl⟩
  · rfl
  · unfold Socket.dgram at hdgram
    split at hdgram
    · cases hdgram
      rfl
    · split at hdgram
      · cases hdgram
        rfl
      · cases hdgram
  · rfl

/-- However a connection of any kind is opened, closed and asked, whatever ports its
descriptors have: it answers with the port of the descriptor it holds exactly if it is
asked while it holds a descriptor with the port of the first one it was asked about. -/
theorem local_port_coherent_iff (ports : Nat → Port) {c : Socket} (hc : c.Created)
    (as : List Act) :
    Always (step ports) (Coherent ports) (start c) as ↔
      Throughout (step ports) (AskedFirst ports) (start c) as := by
  have hkeep : ∀ s a t, Remembers s → Coherent ports s → AskedFirst ports s a →
      step ports s a = some t → Remembers t := fun _ _ _ hs _ _ ht => hs.step ht
  have hexact : ∀ s a t, Remembers s → Coherent ports s → step ports s a = some t →
      (Coherent ports t ↔ AskedFirst ports s a) := fun _ _ _ hs _ ht => coherent_step_iff hs ht
  have hcoherent : Coherent ports (start c) := fun p hp => by cases hp
  exact always_iff_throughout hkeep hexact (remembers_start hc) hcoherent as

/-- The first descriptor obtained is number 1; the second has a port of its own. -/
def somePorts (n : Nat) : Port := if n ≤ 1 then ⟨5000, by decide⟩ else ⟨5001, by decide⟩

/-- The port is not asked for before the connection has its last descriptor. -/
theorem asked_late_coherent : Always (step somePorts) (Coherent somePorts)
    (start (Socket.stream AF_UNSPEC 0))
    [.open (some "a") 0 (.granting 5), .close, .localPort true true ⟨80, by decide⟩,
      .open (some "a") 0 (.granting 6), .localPort false false ⟨80, by decide⟩,
      .localPort false true ⟨80, by decide⟩, .localPort true true ⟨80, by decide⟩] := by
  apply (local_port_coherent_iff somePorts (Or.inl ⟨_, _, rfl⟩) _).mpr
  decide

/-- The port of the first descriptor is answered for the second. -/
theorem stale_port_answered : ¬ Always (step somePorts) (Coherent somePorts)
    (start (Socket.stream AF_UNSPEC 0))
    [.open (some "a") 0 (.granting 5), .localPort true true ⟨80, by decide⟩, .close,
      .open (some "a") 0 (.granting 5), .localPort true true ⟨80, by decide⟩] := by
  intro h
  have hstale := ((((h.2 _ rfl).2 _ rfl).2 _ rfl).2 _ rfl).2 _ rfl
  exact absurd (hstale 5000 rfl) (by decide)

end PortCache

end Awe
