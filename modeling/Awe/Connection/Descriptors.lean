import Awe.Connection.Sockets

namespace Awe
open Machine

/-- A connection, what became of the descriptors so far, whether the connection is still
in memory, and whether the last call was an open that failed. -/
structure Descriptors where
  conn : Socket
  log : List (Resources.Event Int)
  alive : Bool
  failed : Bool

namespace Descriptors

/-- A connection that has just been created; a descriptor it adopts has been obtained. -/
def start (conn : Socket) : Descriptors :=
  ⟨conn, if 0 < conn.fd then [.acquired conn.fd] else [], true, false⟩

/-- A call on the connection, with what its open gets to know; the release is the last
reference's. -/
inductive Act where
  | open (host : Option String) (bindPort : BitVec 16) (o : Answers)
  | open2 (o : Answers)
  | close
  | release
  deriving DecidableEq

/-- The calls on a connection that is in memory; `connection_destroy` closes it. -/
def step (s : Descriptors) (a : Act) : Option Descriptors :=
  if s.alive then
    match a with
    | .open host bindPort o =>
      let r := s.conn.openConn host bindPort o
      some ⟨r.conn, s.log ++ r.log, true, r.status ≠ AWE_OK⟩
    | .open2 o =>
      -- stream and datagram connections have none: it is refused without a try
      let r := s.conn.open2 o
      some ⟨r.conn, s.log ++ r.log, true, false⟩
    | .close => some ⟨s.conn.close.1, s.log ++ s.conn.close.2, true, false⟩
    | .release => some ⟨s.conn.close.1, s.log ++ s.conn.close.2, false, false⟩
  else none

def inUse (c : Socket) : List Int := if 0 < c.fd then [c.fd] else []

/-- No descriptor has been closed but once and while obtained, those not closed yet are
the one in the connection, none is left by a failed open, nor by the destruction. -/
structure Accounted (s : Descriptors) : Prop where
  held : run Resources.step [] s.log = some (if s.alive then inUse s.conn else [])
  failed : s.failed → run Resources.step [] s.log = some []
  destroyed : ¬ s.alive → ∀ fd, s.log.count (.acquired fd) = s.log.count (.released fd)

/-- The connection was made by `awe_connection_stream` or `awe_connection_dgram`. -/
def Inet (c : Socket) : Prop :=
  c.impl = .inetStream ∨ c.impl = .inet4Dgram ∨ c.impl = .inet6Dgram

def Looks (c : Socket) (host : Option String) : Prop :=
  c.impl = .inetStream ∨ host.any (fun name => 0 < name.length)

/-- The open gets as far as the set-up, `socket` returns descriptor 0, and all the calls
of the set-up succeed on it. -/
def SetsUpZero (c : Socket) (host : Option String) (bindPort : BitVec 16) (o : Answers) : Prop :=
  c.fd ≤ 0 ∧ (Looks c host → o.addrinfo ≠ none) ∧ socketCreate o = 0 ∧ o.reuseaddr ∧
    (c.impl ≠ .inetStream → o.multicastLoop) ∧ (bindPort ≠ 0 → o.bind) ∧ o.setfl

def NotZero (s : Descriptors) : Act → Prop
  | .open host bindPort o => ¬ SetsUpZero s.conn host bindPort o
  | _ => True

instance (c : Socket) (host : Option String) : Decidable (Looks c host) :=
  inferInstanceAs (Decidable (_ ∨ _))

instance (c : Socket) (host : Option String) (bindPort : BitVec 16) (o : Answers) :
    Decidable (SetsUpZero c host bindPort o) :=
  inferInstanceAs (Decidable (_ ∧ _ ∧ _ ∧ _ ∧ _ ∧ _ ∧ _))

instance (s : Descriptors) : ∀ a, Decidable (NotZero s a)
  | .open _ _ _ => inferInstanceAs (Decidable (¬ _))
  | .open2 _ | .close | .release => isTrue trivial

section Calls

variable {c : Socket}

theorem shut_run : run Resources.step (inUse c) c.shut.2 = some [] ∧ inUse c.shut.1 = [] := by
  unfold Socket.shut inUse
  split
  · exact ⟨by simp [run], rfl⟩
  · simp_all

theorem setup_cases (o : Answers) (checks : List Bool) :
    ((socketSetup o checks).1 < 0 ∧ run Resources.step [] (socketSetup o checks).2 = some [] ∧
      ¬ (socketCreate o = 0 ∧ checks.all id)) ∨
    (0 ≤ socketCreate o ∧ checks.all id ∧
      socketSetup o checks = (socketCreate o, [.acquired (socketCreate o)])) := by
  unfold socketSetup
  dsimp only
  split
  · exact Or.inl ⟨‹_›, rfl, by omega⟩
  · split
    · exact Or.inr ⟨by omega, ‹_›, rfl⟩
    · exact Or.inl ⟨Int.negSucc_lt_zero 0, by simp [run], by simp_all⟩

/-- How an open that is tried leaves the descriptors: with none but the one in the
connection, unless it ends with descriptor 0. -/
structure Leaves (zero : Prop) (r : Opened) : Prop where
  kept : ¬ zero → run Resources.step [] r.log = some (inUse r.conn)
  failed : r.status ≠ AWE_OK → inUse r.conn = []
  zero : zero → inUse r.conn = [] ∧ run Resources.step [] r.log = some [0]

theorem leaves_nothing {status : Int} {zero : Prop} (h : inUse c = []) (hz : ¬ zero) :
    Leaves zero (Socket.giveUp status [] c.shut) := by
  have hshut := (shut_run (c := c)).2
  refine ⟨fun _ => ?_, fun _ => hshut, fun hzero => absurd hzero hz⟩
  have hrun := (shut_run (c := c)).1
  rw [h] at hrun
  simpa [Socket.giveUp, hshut] using hrun

/-- What follows the set-up: the open gives up, as it does without a descriptor, or keeps
the descriptor. -/
theorem leaves_setup {o : Answers} {checks : List Bool} {r : Opened} {fd : Int}
    {log : List (Resources.Event Int)} (hmade : socketSetup o checks = (fd, log))
    (hnone : fd ≤ 0 → r = Socket.giveUp (-1) log ({ c with fd := fd } : Socket).shut)
    (hsome : 0 < fd → r = Socket.giveUp (-1) log ({ c with fd := fd } : Socket).shut ∨
      r = ⟨AWE_OK, { c with fd := fd }, log⟩) :
    Leaves (socketCreate o = 0 ∧ checks.all id) r := by
  have hshut := shut_run (c := { c with fd := fd })
  rcases setup_cases o checks with ⟨hneg, hlog, hz⟩ | ⟨hpos, hchecks, he⟩
  · rw [hmade] at hneg hlog
    rw [hnone (by omega)]
    have hlog' : run Resources.step [] log = some (inUse { c with fd := fd }) := by
      rw [hlog, inUse, if_neg (by simpa using Int.le_of_lt hneg)]
    refine ⟨fun _ => ?_, fun _ => hshut.2, fun hzero => absurd hzero hz⟩
    dsimp only [Socket.giveUp]
    rw [hshut.2, Resources.run_append_of hlog', hshut.1]
  · rw [hmade] at he
    obtain ⟨rfl, rfl⟩ := Prod.mk.inj he
    by_cases hzero : socketCreate o = 0
    · rw [hnone (by omega), hzero]
      exact ⟨fun h => absurd ⟨rfl, hchecks⟩ h, fun _ => rfl, fun _ => ⟨rfl, rfl⟩⟩
    · have hlog : run Resources.step [] [.acquired (socketCreate o)] =
          some (inUse { c with fd := socketCreate o }) := by
        rw [inUse, if_pos (by dsimp only; omega)]
        rfl
      rcases hsome (by omega) with rfl | rfl
      · refine ⟨fun _ => ?_, fun _ => hshut.2, fun h => absurd h.1 hzero⟩
        dsimp only [Socket.giveUp]
        rw [hshut.2, Resources.run_append_of hlog, hshut.1]
      · exact ⟨fun _ => hlog, fun h => absurd rfl h, fun h => absurd h.1 hzero⟩

theorem Leaves.congr {p q : Prop} {r : Opened} (h : Leaves p r) (he : p ↔ q) : Leaves q r :=
  propext he ▸ h

theorem leaves_stream {bindPort : BitVec 16} {o : Answers} (h : c.fd ≤ 0) :
    Leaves (o.addrinfo ≠ none ∧ socketCreate o = 0 ∧ o.reuseaddr ∧ (bindPort ≠ 0 → o.bind) ∧
      o.setfl) (c.inetStreamOpen bindPort o) := by
  unfold Socket.inetStreamOpen
  rw [if_neg (by omega)]
  cases haddr : o.addrinfo with
  | none => exact leaves_nothing (if_neg (by omega)) (by simp)
  | some families =>
    cases hmade : streamSetup o bindPort true with
    | mk fd log =>
      refine (leaves_setup hmade (fun hfd => if_pos hfd) (fun hfd => ?_)).congr ?_
      · dsimp only
        rw [if_neg (by omega)]
        split
        · exact Or.inl rfl
        · exact Or.inr rfl
      · simp [Decidable.imp_iff_not_or]

theorem leaves_dgram {host : Option String} {bindPort : BitVec 16} {o : Answers} (h : c.fd ≤ 0) :
    Leaves ((host.any (fun name => 0 < name.length) → o.addrinfo ≠ none) ∧ socketCreate o = 0 ∧
      o.reuseaddr ∧ o.multicastLoop ∧ (bindPort ≠ 0 → o.bind) ∧ o.setfl)
      (c.inetDgramOpen host bindPort o) := by
  unfold Socket.inetDgramOpen
  rw [if_neg (by omega)]
  dsimp only
  generalize hlooked : (if host.any (fun name => 0 < name.length) then o.addrinfo.map c.found
    else some c) = looked
  cases looked with
  | none =>
    apply leaves_nothing (if_neg (by omega))
    intro hz
    split at hlooked
    · rename_i hhost
      exact hz.1 hhost (Option.map_eq_none_iff.mp hlooked)
    · cases hlooked
  | some d =>
    have hfound : host.any (fun name => 0 < name.length) → o.addrinfo ≠ none := by
      intro hhost hnone
      simp [hhost, hnone] at hlooked
    cases hmade : datagramSetup o bindPort true with
    | mk fd log =>
      refine (leaves_setup hmade (fun hfd => if_pos hfd) (fun hfd => ?_)).congr ?_
      · exact Or.inr (if_neg (by omega))
      · rw [and_iff_right hfound]
        simp [Decidable.imp_iff_not_or]

/-- An open that is tried. -/
theorem leaves_open {host : Option String} {bindPort : BitVec 16} {o : Answers} (hc : Inet c)
    (h : c.fd ≤ 0) :
    Leaves (SetsUpZero c host bindPort o) (c.openConn host bindPort o) := by
  rcases hc with hc | hc | hc
  all_goals
    rw [Socket.openConn, hc]
    dsimp only
  · apply (leaves_stream h).congr
    simp [SetsUpZero, Looks, hc, h]
  all_goals
    apply (leaves_dgram h).congr
    simp [SetsUpZero, Looks, hc, h]

/-- An open connection is opened without any call. -/
theorem open_again {host : Option String} {bindPort : BitVec 16} {o : Answers} (hc : Inet c)
    (h : 0 < c.fd) : c.openConn host bindPort o = ⟨AWE_OK, c, []⟩ := by
  rcases hc with hc | hc | hc
  all_goals
    rw [Socket.openConn, hc]
    exact if_pos h

theorem open2_eq {o : Answers} (hc : Inet c) : c.open2 o = ⟨-1, c, []⟩ := by
  rcases hc with hc | hc | hc
  all_goals
    rw [Socket.open2, hc]
    rfl

end Calls

section Steps

variable {s t : Descriptors} {a : Act}

/-- A connection in memory with no more than its own descriptor. -/
theorem accounted_of_alive (halive : t.alive = true)
    (hheld : run Resources.step [] t.log = some (inUse t.conn))
    (hfailed : t.failed → inUse t.conn = []) : Accounted t := by
  refine ⟨?_, fun hf => ?_, fun hdead => absurd halive hdead⟩
  · rw [if_pos halive]
    exact hheld
  · rw [hheld, hfailed hf]

theorem step_alive (ht : s.step a = some t) : s.alive = true := by
  unfold Descriptors.step at ht
  exact (Option.ite_none_right_eq_some.mp ht).1

theorem accounted_step_iff (hc : Inet s.conn) (hs : Accounted s) (ht : s.step a = some t) :
    Accounted t ↔ NotZero s a := by
  have halive := step_alive ht
  have hheld := hs.held
  rw [if_pos halive] at hheld
  unfold Descriptors.step at ht
  rw [if_pos halive] at ht
  have hclosed : run Resources.step [] (s.log ++ s.conn.close.2) = some [] := by
    rw [Socket.close_eq, Resources.run_append_of hheld, shut_run.1]
  cases a with
  | «open» host bindPort o =>
    cases ht
    by_cases hopen : 0 < s.conn.fd
    · refine iff_of_true ?_ (fun hz => absurd hz.1 (by omega))
      rw [open_again hc hopen]
      exact accounted_of_alive rfl (by simpa using hheld) (by simp)
    · have hnone : inUse s.conn = [] := if_neg hopen
      have hleaves : Leaves (SetsUpZero s.conn host bindPort o)
          (s.conn.openConn host bindPort o) := leaves_open hc (by omega)
      have hrun := Resources.run_append_of hheld (s.conn.openConn host bindPort o).log
      rw [hnone] at hrun
      constructor
      · intro ht hz
        obtain ⟨hin, hzero⟩ := hleaves.zero hz
        have hleft := ht.held
        rw [if_pos rfl, hin, hrun, hzero] at hleft
        cases hleft
      · intro hz
        apply accounted_of_alive rfl (hrun.trans (hleaves.kept hz))
        intro hf
        exact hleaves.failed (by simpa using hf)
  | open2 o =>
    cases ht
    refine iff_of_true ?_ trivial
    rw [open2_eq hc]
    exact accounted_of_alive rfl (by simpa using hheld) (by simp)
  | close =>
    cases ht
    refine iff_of_true (accounted_of_alive rfl ?_ (by simp)) trivial
    rw [hclosed, Socket.close_eq, shut_run.2]
  | release =>
    cases ht
    refine iff_of_true ⟨?_, nofun, fun _ => Resources.released_of_run hclosed⟩ trivial
    exact hclosed

theorem inet_step (hc : Inet s.conn) (ht : s.step a = some t) : Inet t.conn := by
  have halive := step_alive ht
  unfold Descriptors.step at ht
  rw [if_pos halive] at ht
  unfold Inet
  cases a with
  | «open» host bindPort o =>
    cases ht
    rw [(Socket.keeps_openConn s.conn host bindPort o).impl]
    exact hc
  | open2 o =>
    cases ht
    rw [(Socket.keeps_open2 s.conn o).impl]
    exact hc
  | close | release =>
    cases ht
    rw [(Socket.keeps_close s.conn).impl]
    exact hc

end Steps

theorem accounted_start (c : Socket) : Accounted (start c) := by
  refine accounted_of_alive rfl ?_ nofun
  dsimp only [start, inUse]
  split <;> rfl

/-- However often a stream or datagram connection is opened and closed, whatever the
system answers, and once it is destroyed: its descriptors are accounted for exactly if no
open is left with descriptor 0. -/
theorem descriptors_accounted_iff {c : Socket} {af fd : Int}
    (hc : c = Socket.stream af fd ∨ Socket.dgram af fd = some c) (as : List Act) :
    Always step Accounted (start c) as ↔ Throughout step NotZero (start c) as := by
  have hinet : Inet c := by
    rcases hc with rfl | hdgram
    · exact Or.inl rfl
    · unfold Socket.dgram at hdgram
      split at hdgram
      · cases hdgram
        exact Or.inr (Or.inl rfl)
      · split at hdgram
        · cases hdgram
          exact Or.inr (Or.inr rfl)
        · cases hdgram
  have hkeep : ∀ s a t, Inet s.conn → Accounted s → NotZero s a → step s a = some t →
      Inet t.conn := fun _ _ _ hs _ _ ht => inet_step hs ht
  exact always_iff_throughout hkeep
    (fun _ _ _ hs hacc ht => accounted_step_iff hs hacc ht) hinet (accounted_start c) as

/-- A refused connect, a bind that fails, an open that is repeated, and the release. -/
theorem reopened_accounted : Always step Accounted (start (Socket.stream AF_UNSPEC 0))
    [.open (some "a") 0 { Answers.granting 5 with connect := .failed },
      .open (some "a") 80 { Answers.granting 0 with bind := false },
      .open (some "a") 80 (.granting 5), .open (some "a") 80 (.granting 0), .close,
      .open2 (.granting 0), .open (some "a") 0 (.granting 5), .release] := by
  apply (@descriptors_accounted_iff _ AF_UNSPEC 0 (Or.inl rfl) _).mpr
  decide

/-- `socket` returns 0, which the open takes for an error and nothing ever closes. -/
theorem zero_leaked :
    ¬ Always step Accounted (start (Socket.stream AF_UNSPEC 0)) [.open none 0 (.granting 0)] ∧
      (Socket.stream AF_UNSPEC 0).openConn none 0 (.granting 0) =
        ⟨-1, ⟨.inetStream, 0, AF_INET, 0⟩, [.acquired 0]⟩ := by
  refine ⟨fun h => ?_, rfl⟩
  have hheld := (h.2 _ rfl).head.held
  exact absurd hheld (by decide)

end Descriptors

end Awe
