import Awe.Connection.Dispatch
import Awe.Connection.Owners

namespace Awe.ConnPrograms
open Connections Machine

/-- The interface is one of the two for ux if and only if `awe_connection_isUX` says so. -/
def Consistent (c : Connection) : Prop :=
  (c.impl = some .uxStream ∨ c.impl = some .uxDgram) ↔ c.udpconn ≠ NULL

def Wired (h : Heap Connection) : Prop := ∀ a c, h.get? a = some c → Consistent c

def WiredBut (x : Ptr) (h : Heap Connection) : Prop :=
  ∀ a c, a ≠ x → h.get? a = some c → Consistent c

/-- A way down the carriers, of that many steps, from a connection to one that is not
bound to any other. -/
inductive Stands (h : Heap Connection) : Ptr → Nat → Ptr → Prop where
  | ground {a : Ptr} {c : Connection} (get : h.get? a = some c) (ground : c.udpconn = NULL) :
      Stands h a 0 a
  | carried {a g : Ptr} {c : Connection} {n : Nat} (get : h.get? a = some c)
      (carried : c.udpconn ≠ NULL) (rest : Stands h c.udpconn n g) : Stands h a (n + 1) g

/-- A call that shares connections, or one to the interface of a connection. -/
inductive Act where
  | own (call : ConnClients.Call)
  | use (call : Dispatch.Call)

def used : Dispatch.Call → Option Ptr
  | .openConn conn _ _ | .openConn2 conn _ | .close conn | .read conn | .read2 conn
  | .write conn | .write2 conn => some conn
  | _ => none

/-- One call; `none` is a failed assertion, an access to memory that is not allocated, a
call through `NULL`, or more than `fuel` calls inside one another. The connections that
are closed by their destruction are those of `ConnClients`. -/
def step (fuel : Nat) (s : ConnClients) : Act → Option ConnClients
  | .own call => ConnClients.step fuel s call
  | .use call => (Dispatch.step fuel s.conns call).map (fun conns =>
      { s with conns := { conns with closed := s.conns.closed } })

/-- A program uses connections that are alive, and shares them as `ConnClients` may. -/
def Permits (s : ConnClients) : Act → Prop
  | .own call => ConnClients.Permits INT_MAX.toNat s call
  | .use call => ∃ conn ∈ used call, (s.conns.heap.get? conn).isSome

instance (s : ConnClients) (act : Act) : Decidable (Permits s act) :=
  match act with
  | .own call => inferInstanceAs (Decidable (ConnClients.Permits INT_MAX.toNat s call))
  | .use call => inferInstanceAs (Decidable (∃ conn ∈ used call, _))

section Wired

variable {h k : Heap Connection} {s t : Connections} {x : Ptr}

theorem wired_empty : Wired Heap.empty := fun a c hc => by simp at hc

theorem Wired.but (hw : Wired h) (x : Ptr) : WiredBut x h := fun a c _ hc => hw a c hc

theorem WiredBut.modify (hw : WiredBut x h) (a : Ptr) {f : Connection → Connection}
    (hf : a ≠ x → ∀ c, Consistent c → Consistent (f c)) : WiredBut x (h.modify a f) := by
  intro b c hb hc
  rw [Heap.get?_modify] at hc
  split at hc
  · rename_i hba
    obtain ⟨d, hd, rfl⟩ := Option.map_eq_some_iff.mp hc
    exact hf (hba ▸ hb) d (hw b d hb hd)
  · exact hw b c hb hc

theorem WiredBut.whole (hw : WiredBut x h) (hx : ∀ c, h.get? x = some c → Consistent c) :
    Wired h := by
  intro a c hc
  by_cases ha : a = x
  · exact hx c (ha ▸ hc)
  · exact hw a c ha hc

theorem WiredBut.free (hw : WiredBut x h) : Wired (h.free x) := by
  intro a c hc
  rw [Heap.get?_free] at hc
  split at hc
  · cases hc
  · exact hw a c ‹_› hc

theorem Wired.modify (hw : Wired h) (a : Ptr) {f : Connection → Connection}
    (hf : ∀ c, Consistent c → Consistent (f c)) : Wired (h.modify a f) := by
  intro b c hc
  rw [Heap.get?_modify] at hc
  split at hc
  · obtain ⟨d, hd, rfl⟩ := Option.map_eq_some_iff.mp hc
    exact hf d (hw b d hd)
  · exact hw b c hc

theorem Wired.alloc (hw : Wired h) {a : Ptr} {c : Connection} (hk : h.alloc a c = some k)
    (hc : Consistent c) : Wired k := by
  intro b d hd
  rw [Heap.get?_alloc hk] at hd
  split at hd
  · cases hd
    exact hc
  · exact hw b d hd

theorem Wired.close (hw : Wired s.heap) (ht : s.close x = some t) : Wired t.heap := by
  obtain ⟨c, _, ht⟩ := Option.bind_eq_some_iff.mp ht
  obtain ⟨i, _, ht⟩ := Option.bind_eq_some_iff.mp ht
  obtain ⟨p, _, ht⟩ := Option.bind_eq_some_iff.mp ht
  cases ht
  exact hw.modify x (fun d hd => by simpa [Consistent] using hd)

theorem WiredBut.release (hw : WiredBut x s.heap) (ht : s.free x = some t) : Wired t.heap := by
  obtain ⟨p, _, rfl⟩ := Option.map_eq_some_iff.mp ht
  exact hw.free

/-- A connection loses its carrier and keeps its interface just before it is freed. -/
theorem Wired.autorelease {fuel : Nat} (hw : Wired s.heap)
    (ht : Connections.autorelease fuel s x = some t) : Wired t.heap := by
  induction fuel generalizing s t x with
  | zero => cases ht
  | succ fuel ih =>
    have hdec : Wired (s.modify x Connection.refDec).heap := hw.modify x (fun c hc => hc)
    rw [Connections.autorelease] at ht
    split at ht
    · cases ht
      exact hw
    · obtain ⟨c, _, ht⟩ := Option.bind_eq_some_iff.mp ht
      split at ht
      · obtain ⟨u, hclose, ht⟩ := Option.bind_eq_some_iff.mp ht
        have hu : Wired u.heap := hdec.close hclose
        obtain ⟨d, _, ht⟩ := Option.bind_eq_some_iff.mp ht
        split at ht
        · exact (hu.but x).release ht
        · obtain ⟨v, hv, ht⟩ := Option.bind_eq_some_iff.mp ht
          have hcut : WiredBut x (v.setUdpconn x NULL).heap :=
            ((ih hu hv).but x).modify x (f := fun c => { c with udpconn := NULL })
              (absurd rfl)
          exact hcut.release ht
      · cases ht
        exact hdec

/-- A new connection, up to the writes that make it one of its kind. -/
theorem Wired.init {af fd : Int} (hw : Wired s.heap) (ht : s.init x af fd = some t) :
    Wired t.heap ∧ t.heap.get? x = some ⟨1, fd, af, none, NULL⟩ := by
  obtain ⟨k, hk, rfl⟩ := Option.map_eq_some_iff.mp ht
  exact ⟨hw.alloc hk (by simp [Consistent]), (Heap.get?_alloc hk x).trans (if_pos rfl)⟩

/-- The interface of a new connection that has no carrier. -/
theorem Wired.create {af fd : Int} (hw : Wired s.heap) (ht : s.init x af fd = some t)
    {i : ConnInterface} (hi : i ≠ .uxStream ∧ i ≠ .uxDgram) : Wired (t.setImpl x i).heap := by
  obtain ⟨ht, hget⟩ := hw.init ht
  refine ((ht.but x).modify x (f := fun c => { c with impl := some i })
    (absurd rfl)).whole (fun c hc => ?_)
  rw [Heap.get?_modify_of_get? hget, if_pos rfl] at hc
  cases hc
  simp [Consistent, hi]

theorem Wired.stream {af fd : Int} (hw : Wired s.heap) (ht : s.stream x af fd = some t) :
    Wired t.heap := by
  obtain ⟨u, hu, rfl⟩ := Option.map_eq_some_iff.mp ht
  exact hw.create hu (by decide)

theorem Wired.dgram {fuel : Nat} {af fd : Int} {r : Ptr × Connections} (hw : Wired s.heap)
    (ht : Connections.dgram fuel s x af fd = some r) : Wired r.2.heap := by
  obtain ⟨u, hu, ht⟩ := Option.bind_eq_some_iff.mp ht
  split at ht
  · cases ht
    exact hw.create hu (by decide)
  · split at ht
    · cases ht
      exact hw.create hu (by decide)
    · obtain ⟨v, hv, rfl⟩ := Option.map_eq_some_iff.mp ht
      exact (hw.init hu).1.autorelease hv

/-- The interface of a ux connection is set before its carrier. -/
theorem Wired.ux {type ufd : Int} {bindconn : Ptr} (hw : Wired s.heap) (hnull : bindconn ≠ NULL)
    (hx : s.heap.get? x = none) (hbind : (s.heap.get? bindconn).isSome)
    (ht : s.ux x type ufd bindconn = some t) : Wired t.heap := by
  have hne : bindconn ≠ x := by
    rintro rfl
    rw [hx] at hbind
    cases hbind
  obtain ⟨u, hu, ht⟩ := Option.bind_eq_some_iff.mp ht
  obtain ⟨bind, _, ht⟩ := Option.bind_eq_some_iff.mp ht
  obtain ⟨v, hv, ht⟩ := Option.bind_eq_some_iff.mp ht
  obtain ⟨_, _, rfl⟩ := Option.map_eq_some_iff.mp hv
  cases ht
  obtain ⟨hwu, hget⟩ := hw.init hu
  have haf := (hwu.but x).modify x (f := fun c => { c with af := bind.af })
    (absurd rfl)
  have himpl := haf.modify x
    (f := fun c => { c with impl := some (if SOCK_STREAM = type then .uxStream else .uxDgram) })
    (absurd rfl)
  have hinc := himpl.modify bindconn (f := Connection.refInc) (fun _ c hc => hc)
  refine (hinc.modify x (f := fun c => { c with udpconn := bindconn })
    (absurd rfl)).whole (fun c hc => ?_)
  simp only [Heap.get?_modify, if_pos, if_neg hne.symm, hget, Option.map_some] at hc
  cases hc
  by_cases htype : SOCK_STREAM = type <;> simp [Consistent, htype, hnull]

theorem Wired.openConn {fd : Int} (hw : Wired s.heap) (ht : s.openConn x fd = some t) :
    Wired t.heap := by
  have hfd : Wired (s.modify x (fun c => { c with fd := fd })).heap :=
    hw.modify x (f := fun c => { c with fd := fd }) (fun c hc => hc)
  obtain ⟨c, _, ht⟩ := Option.bind_eq_some_iff.mp ht
  obtain ⟨i, _, ht⟩ := Option.bind_eq_some_iff.mp ht
  split at ht
  · obtain ⟨_, _, rfl⟩ := Option.map_eq_some_iff.mp ht
    exact hfd
  · cases ht
    exact hfd

end Wired

section Own

variable {s t : ConnClients} {fuel : Nat}

theorem Wired.connectorOpen {s t : Connections} {connector conn : Ptr} {fd : Int}
    (hw : Wired s.heap) (ht : s.connectorOpen connector conn fd = some t) : Wired t.heap := by
  obtain ⟨held, _, ht⟩ := Option.bind_eq_some_iff.mp ht
  split at ht
  · cases ht
  · obtain ⟨u, hu, ht⟩ := Option.bind_eq_some_iff.mp ht
    have hu : Wired (u.setConnector connector (some conn)).heap := hw.stream (t := u) hu
    exact hu.openConn ht

theorem Wired.uxconnectorOpen {s t : Connections} {connector udpconn conn : Ptr} {type fd : Int}
    (hw : Wired s.heap) (hnull : udpconn ≠ NULL) (hconn : s.heap.get? conn = none)
    (hbind : (s.heap.get? udpconn).isSome)
    (ht : s.uxconnectorOpen connector udpconn conn type fd = some t) : Wired t.heap := by
  obtain ⟨held, _, ht⟩ := Option.bind_eq_some_iff.mp ht
  split at ht
  · cases ht
  · obtain ⟨u, hu, ht⟩ := Option.bind_eq_some_iff.mp ht
    have hu : Wired (u.setConnector connector (some conn)).heap :=
      hw.ux (t := u) hnull hconn hbind hu
    exact hu.openConn ht

/-- No call that shares connections gives one an interface that is not its own. -/
theorem Wired.own (hw : Wired s.conns.heap) (hheld : ConnClients.Held s)
    {call : ConnClients.Call} (hcall : ConnClients.Permits INT_MAX.toNat s call)
    (ht : ConnClients.step fuel s call = some t) : Wired t.conns.heap := by
  have hshared : ∀ {conn : Ptr}, (s.conns.heap.get? conn).isSome → conn ≠ NULL := by
    intro conn hsome
    obtain ⟨c, hc⟩ := Option.isSome_iff_exists.mp hsome
    exact hheld.books.counts.not_null hc
  have hinc : ∀ conn, Wired (s.conns.heap.modify conn Connection.refInc) :=
    fun conn => hw.modify conn (fun c hc => hc)
  cases call with
  | stream conn af fd =>
    obtain ⟨u, hu, rfl⟩ := Option.map_eq_some_iff.mp ht
    exact hw.stream hu
  | dgram conn af fd =>
    obtain ⟨r, hr, rfl⟩ := Option.map_eq_some_iff.mp ht
    exact hw.dgram hr
  | ux conn type ufd bindconn =>
    obtain ⟨u, hu, rfl⟩ := Option.map_eq_some_iff.mp ht
    exact hw.ux (hshared hcall.2.1) hcall.1.2 hcall.2.1 hu
  | addref conn =>
    obtain ⟨u, hu, rfl⟩ := Option.map_eq_some_iff.mp ht
    obtain ⟨c, _, rfl⟩ := Option.map_eq_some_iff.mp hu
    exact hinc conn
  | autorelease conn =>
    obtain ⟨u, hu, rfl⟩ := Option.map_eq_some_iff.mp ht
    exact hw.autorelease hu
  | create connector =>
    obtain ⟨u, hu, rfl⟩ := Option.map_eq_some_iff.mp ht
    unfold Connections.connectorCreate at hu
    split at hu
    · cases hu
    · cases hu
      exact hw
  | openStream connector conn fd =>
    obtain ⟨u, hu, rfl⟩ := Option.map_eq_some_iff.mp ht
    exact hw.connectorOpen hu
  | openUx connector udpconn conn type fd =>
    obtain ⟨u, hu, rfl⟩ := Option.map_eq_some_iff.mp ht
    exact hw.uxconnectorOpen (hshared hcall.2.2.1) hcall.2.1.2 hcall.2.2.1 hu
  | open2 connector conn =>
    obtain ⟨u, hu, rfl⟩ := Option.map_eq_some_iff.mp ht
    obtain ⟨held, _, hu⟩ := Option.bind_eq_some_iff.mp hu
    split at hu
    · cases hu
    · obtain ⟨v, hv, rfl⟩ := Option.map_eq_some_iff.mp hu
      obtain ⟨c, _, rfl⟩ := Option.map_eq_some_iff.mp hv
      exact hinc conn
  | takeout connector =>
    obtain ⟨r, hr, rfl⟩ := Option.map_eq_some_iff.mp ht
    obtain ⟨held, _, rfl⟩ := Option.map_eq_some_iff.mp hr
    exact hw
  | destroy connector =>
    obtain ⟨u, hu, rfl⟩ := Option.map_eq_some_iff.mp ht
    obtain ⟨held, _, hu⟩ := Option.bind_eq_some_iff.mp hu
    obtain ⟨v, hv, rfl⟩ := Option.map_eq_some_iff.mp hu
    exact @Wired.autorelease s.conns v held fuel hw hv

end Own

section Use

variable {s : ConnClients} {conn : Ptr} {c : Connection} {fuel k : Nat}

/-- Carriers are older than what they carry, so the way down from a connection ends. -/
theorem exists_stands (hheld : ConnClients.Held s) (hlive : s.conns.heap.Live ⟨conn, k⟩) :
    ∃ n ≤ k, ∃ g, Stands s.conns.heap conn n g := by
  induction k using Nat.strongRecOn generalizing conn with
  | ind k ih =>
    obtain ⟨c, hc⟩ := hlive.exists_get?
    by_cases hnull : c.udpconn = NULL
    · exact ⟨0, Nat.zero_le k, conn, .ground hc hnull⟩
    · obtain ⟨j, hj, hcarrier⟩ :=
        hheld.books.counts.older conn c k List.not_mem_nil hc hnull hlive
      obtain ⟨n, hn, g, hstands⟩ := ih j hj hcarrier
      exact ⟨n + 1, by omega, g, .carried hc hnull hstands⟩

theorem impl_eq {h : Connections} {i : ConnInterface} (hc : h.heap.get? conn = some c)
    (hi : c.impl = some i) : Dispatch.impl h conn = .ok i := by
  rw [Dispatch.impl, hc, Faults.orFail_some, Faults.ok_bind, hi]
  rfl

/-- `awe_connection_write2` goes down that way, to an interface that hands on to no other. -/
theorem write2_of_stands {h : Connections} (hw : Wired h.heap)
    (hready : ∀ a c, h.heap.get? a = some c → c.impl.isSome) {n : Nat} {g : Ptr}
    (hstands : Stands h.heap conn n g) (hfuel : n < fuel) :
    Dispatch.write2 fuel h conn = .ok h := by
  induction hstands generalizing fuel with
  | @ground a c hc hnull =>
    obtain ⟨depth, rfl⟩ := Nat.exists_eq_succ_of_ne_zero (Nat.ne_of_gt hfuel)
    obtain ⟨i, hi⟩ := Option.isSome_iff_exists.mp (hready a c hc)
    have hux := (not_congr (hw a c hc)).mpr (not_not_intro hnull)
    rw [Dispatch.write2, impl_eq hc hi, Faults.ok_bind]
    cases i with
    | inetStream | inet4Dgram | inet6Dgram => rfl
    | uxStream => exact absurd (Or.inl hi) hux
    | uxDgram => exact absurd (Or.inr hi) hux
  | @carried a g c n hc hnull _ ih =>
    obtain ⟨depth, rfl⟩ := Nat.exists_eq_succ_of_ne_zero (Nat.ne_of_gt (Nat.zero_lt_of_lt hfuel))
    have hrest := @ih depth (Nat.lt_of_succ_lt_succ hfuel)
    rcases (hw a c hc).mpr hnull with hi | hi
    all_goals
      rw [Dispatch.write2, impl_eq hc hi, Faults.ok_bind]
      simp only [hc, Faults.orFail_some, Faults.ok_bind, hrest]

/-- The writes to a connection that change neither its references nor its carrier. -/
structure Touches (f : Connection → Connection) : Prop where
  refs : ∀ c, (f c).refs = c.refs
  udpconn : ∀ c, (f c).udpconn = c.udpconn
  impl : ∀ c, (f c).impl = c.impl

theorem touches_id : Touches id := ⟨fun _ => rfl, fun _ => rfl, fun _ => rfl⟩

theorem touches_setFd (fd : Int) : Touches (fun c => { c with fd := fd }) :=
  ⟨fun _ => rfl, fun _ => rfl, fun _ => rfl⟩

theorem touches_shut : Touches Connection.shut where
  refs c := by
    unfold Connection.shut
    split <;> rfl
  udpconn := Connection.shut_udpconn
  impl := Connection.shut_impl

/-- What a call through the interface may make of the connections. -/
def Leaves (s : Connections) (conn : Ptr) (t : Connections) : Prop :=
  ∃ f, Touches f ∧ { t with closed := s.closed } = s.modify conn f

theorem leaves_self (s : Connections) (conn : Ptr) : Leaves s conn s := by
  refine ⟨id, touches_id, ?_⟩
  rw [Connections.modify, Heap.modify_eq_self (f := id) (fun c _ => rfl)]

theorem leaves_setFd (s : Connections) (conn : Ptr) (fd : Int) :
    Leaves s conn (Dispatch.setFd s conn fd) := ⟨_, touches_setFd fd, rfl⟩

/-- `conn_ux_open` finds the carrier. -/
theorem connUxOpen_comes_back {h : Connections} {d : Connection}
    (hc : h.heap.get? conn = some c) (hd : h.heap.get? c.udpconn = some d) (fd : Int) :
    ∃ t, Dispatch.connUxOpen h conn fd = .ok t ∧ Leaves h conn t := by
  by_cases hopen : c.fd > 0
  · refine ⟨h, ?_, leaves_self h conn⟩
    rw [Dispatch.connUxOpen, hc, Faults.orFail_some, Faults.ok_bind, if_pos hopen]
  · refine ⟨_, ?_, leaves_setFd h conn fd⟩
    rw [Dispatch.connUxOpen, hc, Faults.orFail_some, Faults.ok_bind, if_neg hopen, hd]
    rfl

theorem inetOpen_comes_back {h : Connections} (hc : h.heap.get? conn = some c) (fd : Int) :
    ∃ t, Dispatch.inetOpen h conn fd = .ok t ∧ Leaves h conn t := by
  by_cases hopen : c.fd > 0
  · refine ⟨h, ?_, leaves_self h conn⟩
    rw [Dispatch.inetOpen, hc, Faults.orFail_some, Faults.ok_bind, if_pos hopen]
  · refine ⟨_, ?_, leaves_setFd h conn fd⟩
    rw [Dispatch.inetOpen, hc, Faults.orFail_some, Faults.ok_bind, if_neg hopen]

theorem uxOpen_comes_back {h : Connections} {d : Connection} (hc : h.heap.get? conn = some c)
    (hd : h.heap.get? c.udpconn = some d) (resolved : Bool) (fd : Int) :
    ∃ t, Dispatch.uxOpen h conn resolved fd = .ok t ∧ Leaves h conn t := by
  by_cases hopen : c.fd ≤ 0 ∧ resolved = true
  · obtain ⟨t, ht, hleaves⟩ := connUxOpen_comes_back hc hd fd
    refine ⟨t, ?_, hleaves⟩
    rw [Dispatch.uxOpen, hc, Faults.orFail_some, Faults.ok_bind, if_pos hopen, ht]
  · refine ⟨h, ?_, leaves_self h conn⟩
    rw [Dispatch.uxOpen, hc, Faults.orFail_some, Faults.ok_bind, if_neg hopen]

theorem uxDgramOpen2_comes_back {h : Connections} {d : Connection}
    (hc : h.heap.get? conn = some c) (hd : h.heap.get? c.udpconn = some d) (fd : Int) :
    ∃ t, Dispatch.uxDgramOpen2 h conn fd = .ok t ∧ Leaves h conn t := by
  by_cases hopen : c.fd ≤ 0
  · obtain ⟨t, ht, hleaves⟩ := connUxOpen_comes_back hc hd fd
    refine ⟨t, ?_, hleaves⟩
    rw [Dispatch.uxDgramOpen2, hc, Faults.orFail_some, Faults.ok_bind, if_pos hopen, ht]
  · refine ⟨h, ?_, leaves_self h conn⟩
    rw [Dispatch.uxDgramOpen2, hc, Faults.orFail_some, Faults.ok_bind, if_neg hopen]

/-- A ux connection finds the one it is bound to. -/
theorem exists_carrier (hheld : ConnClients.Held s) (hw : Wired s.conns.heap)
    (hc : s.conns.heap.get? conn = some c)
    (hux : c.impl = some .uxStream ∨ c.impl = some .uxDgram) :
    ∃ d, s.conns.heap.get? c.udpconn = some d := by
  obtain ⟨k, hlive⟩ := Heap.exists_live hc
  obtain ⟨j, _, hcarrier⟩ :=
    hheld.books.counts.older conn c k List.not_mem_nil hc ((hw conn c hc).mp hux) hlive
  exact hcarrier.exists_get?

theorem openConn_comes_back (hheld : ConnClients.Held s) (hw : Wired s.conns.heap)
    (hc : s.conns.heap.get? conn = some c) (resolved : Bool) (fd : Int) :
    ∃ t, Dispatch.openConn s.conns conn resolved fd = .ok t ∧ Leaves s.conns conn t := by
  obtain ⟨i, hi⟩ := Option.isSome_iff_exists.mp (hheld.books.counts.impl conn c hc)
  rw [Dispatch.openConn, impl_eq hc hi, Faults.ok_bind]
  cases i with
  | inetStream | inet4Dgram | inet6Dgram => exact inetOpen_comes_back hc fd
  | uxStream =>
    obtain ⟨d, hd⟩ := exists_carrier hheld hw hc (Or.inl hi)
    exact uxOpen_comes_back hc hd resolved fd
  | uxDgram =>
    obtain ⟨d, hd⟩ := exists_carrier hheld hw hc (Or.inr hi)
    exact uxOpen_comes_back hc hd resolved fd

theorem openConn2_comes_back (hheld : ConnClients.Held s) (hw : Wired s.conns.heap)
    (hc : s.conns.heap.get? conn = some c) (fd : Int) :
    ∃ t, Dispatch.openConn2 s.conns conn fd = .ok t ∧ Leaves s.conns conn t := by
  obtain ⟨i, hi⟩ := Option.isSome_iff_exists.mp (hheld.books.counts.impl conn c hc)
  rw [Dispatch.openConn2, impl_eq hc hi, Faults.ok_bind]
  cases i with
  | inetStream | inet4Dgram | inet6Dgram | uxStream => exact ⟨_, rfl, leaves_self _ conn⟩
  | uxDgram =>
    obtain ⟨d, hd⟩ := exists_carrier hheld hw hc (Or.inr hi)
    exact uxDgramOpen2_comes_back hc hd fd

theorem close_comes_back (hheld : ConnClients.Held s) (hc : s.conns.heap.get? conn = some c) :
    ∃ t, Dispatch.close s.conns conn = .ok t ∧ Leaves s.conns conn t := by
  have himpl := hheld.books.counts.impl conn c hc
  obtain ⟨i, hi⟩ := Option.isSome_iff_exists.mp himpl
  obtain ⟨k, hlive⟩ := Heap.exists_live hc
  refine ⟨{ s.conns.modify conn Connection.shut with closed := s.conns.closed ++ [k] }, ?_,
    Connection.shut, touches_shut, rfl⟩
  rw [Dispatch.close, impl_eq hc hi, Faults.ok_bind, Books.close_eq hc himpl hlive]
  rfl

theorem write2_comes_back (hheld : ConnClients.Held s) (hw : Wired s.conns.heap)
    (hfuel : s.conns.heap.next < fuel) (hc : s.conns.heap.get? conn = some c) :
    Dispatch.write2 fuel s.conns conn = .ok s.conns := by
  obtain ⟨k, hlive⟩ := Heap.exists_live hc
  obtain ⟨n, hn, g, hstands⟩ := exists_stands hheld hlive
  have hbirth : k < s.conns.heap.next := hlive.birth_lt
  exact write2_of_stands hw hheld.books.counts.impl hstands (by omega)

/-- Every call through the interface of a connection that is alive comes back. -/
theorem use_comes_back (hheld : ConnClients.Held s) (hw : Wired s.conns.heap)
    (hfuel : s.conns.heap.next < fuel) {call : Dispatch.Call} (hused : conn ∈ used call)
    (hc : s.conns.heap.get? conn = some c) :
    ∃ t, Dispatch.perform fuel s.conns call = .ok (NULL, t) ∧ Leaves s.conns conn t := by
  have hreturns : ∀ {x : Except Fault Connections}, (∃ t, x = .ok t ∧ Leaves s.conns conn t) →
      ∃ t, x.map (fun t => (NULL, t)) = .ok (NULL, t) ∧ Leaves s.conns conn t := by
    rintro x ⟨t, rfl, hleaves⟩
    exact ⟨t, rfl, hleaves⟩
  have htransfer : ∃ t, Dispatch.transfer s.conns conn = .ok t ∧ Leaves s.conns conn t := by
    obtain ⟨i, hi⟩ := Option.isSome_iff_exists.mp (hheld.books.counts.impl conn c hc)
    exact ⟨s.conns, by rw [Dispatch.transfer, impl_eq hc hi]; rfl, leaves_self _ conn⟩
  cases call <;> cases hused
  case openConn resolved fd => exact hreturns (openConn_comes_back hheld hw hc resolved fd)
  case openConn2 fd => exact hreturns (openConn2_comes_back hheld hw hc fd)
  case close => exact hreturns (close_comes_back hheld hc)
  case read | read2 | write => exact hreturns htransfer
  case write2 =>
    exact hreturns ⟨s.conns, write2_comes_back hheld hw hfuel hc, leaves_self _ conn⟩

theorem Held.modify (hheld : ConnClients.Held s) (hc : s.conns.heap.get? conn = some c)
    {f : Connection → Connection} (hf : Touches f) :
    ConnClients.Held { s with conns := s.conns.modify conn f } := by
  have hcounts := hheld.books.counts
  have hrefs := hcounts.toNat_refs List.not_mem_nil hc
  refine ⟨⟨?_, hheld.books.logs.write hf.udpconn⟩, hheld.covers⟩
  refine hcounts.write (f := f) List.not_mem_nil hc (hf.udpconn c) (hf.impl c) (fun _ _ => rfl) ?_
    (hcounts.refs_pos List.not_mem_nil hc) (hcounts.bound conn (hcounts.not_null hc))
  change _ = BitVec.ofNat 32 (refs s.conns.heap s.given s.outside [] conn)
  rw [hf.refs, ← hrefs, BitVec.ofNat_toNat, BitVec.setWidth_eq]

theorem Wired.touch {h : Heap Connection} (hw : Wired h) (a : Ptr)
    {f : Connection → Connection} (hf : Touches f) : Wired (h.modify a f) := by
  refine hw.modify a (fun d hd => ?_)
  rw [Consistent, hf.impl, hf.udpconn]
  exact hd

end Use

/-- What holds of a program: its connections are accounted for, each has the interface of
its kind, and stands upon one that is not bound to any other. -/
structure Sound (s : ConnClients) : Prop where
  accounted : ConnClients.Accounted s
  wired : Wired s.conns.heap
  grounded : ∀ a, (s.conns.heap.get? a).isSome → ∃ n g, Stands s.conns.heap a n g

structure Kept (s : ConnClients) : Prop where
  held : ConnClients.Held s
  wired : Wired s.conns.heap

theorem Kept.sound {s : ConnClients} (h : Kept s) : Sound s := by
  refine ⟨h.held.accounted, h.wired, fun a ha => ?_⟩
  obtain ⟨c, hc⟩ := Option.isSome_iff_exists.mp ha
  obtain ⟨k, hlive⟩ := Heap.exists_live hc
  obtain ⟨n, _, g, hstands⟩ := exists_stands h.held hlive
  exact ⟨n, g, hstands⟩

theorem Kept.step {s : ConnClients} {fuel : Nat} (h : Kept s)
    (hfuel : s.conns.heap.next < fuel) {act : Act} (hact : Permits s act) :
    ∃ t, step fuel s act = some t ∧ Kept t ∧
      t.conns.heap.next ≤ s.conns.heap.next + 1 := by
  cases act with
  | own call =>
    obtain ⟨t, ht, hheld, hnext⟩ := h.held.step hfuel hact
    exact ⟨t, ht, ⟨hheld, h.wired.own h.held hact ht⟩, hnext⟩
  | use call =>
    obtain ⟨conn, hused, hsome⟩ := hact
    obtain ⟨c, hc⟩ := Option.isSome_iff_exists.mp hsome
    obtain ⟨t, ht, f, hf, hleaves⟩ := use_comes_back h.held h.wired hfuel hused hc
    refine ⟨{ s with conns := { t with closed := s.conns.closed } }, ?_, ?_, ?_⟩
    · rw [ConnPrograms.step, Dispatch.step, ht]
      rfl
    · rw [hleaves]
      exact ⟨Held.modify h.held hc hf, h.wired.touch conn hf⟩
    · rw [hleaves]
      exact Nat.le_succ _

/-- In a program that shares connections and uses those that are alive, no call fails an
assertion, goes through `NULL` or to memory that is not allocated, or recurses deeper than
connections have been made. -/
theorem programs_come_back {fuel : Nat} {acts : List Act} (hfuel : acts.length < fuel)
    (hacts : Lawful (step fuel) Permits ConnClients.empty acts) :
    ∃ s, run (step fuel) ConnClients.empty acts = some s ∧ Sound s := by
  let inv (rest : List Act) (s : ConnClients) : Prop :=
    Kept s ∧ s.conns.heap.next + rest.length < fuel
  have hkeep : ∀ s act rest, inv (act :: rest) s → Permits s act →
      ∃ t, step fuel s act = some t ∧ inv rest t := by
    intro s act rest h hact
    obtain ⟨hkept, hroom⟩ := h
    rw [List.length_cons] at hroom
    have hfuel : s.conns.heap.next < fuel := by omega
    obtain ⟨t, ht, hkept, hnext⟩ := hkept.step hfuel hact
    exact ⟨t, ht, hkept, by omega⟩
  have hstart : inv acts ConnClients.empty := by
    refine ⟨⟨ConnClients.held_empty, wired_empty⟩, ?_⟩
    change 0 + acts.length < fuel
    omega
  obtain ⟨s, hrun, hkept, _⟩ := Lawful.run hkeep hstart hacts
  exact ⟨s, hrun, hkept.sound⟩

/-- Two ux connections one upon the other over udp, written to and closed as often as one
likes, a third of a connector, and the carriers released before what stands on them. -/
def usedConnections : List Act :=
  [.own (.dgram 1 AF_INET 0), .use (.openConn 1 true 5), .own (.ux 2 SOCK_STREAM 0 1),
    .use (.openConn 2 true 6), .own (.ux 3 2 7 2), .use (.write2 3), .own (.autorelease 1),
    .own (.autorelease 2), .use (.write2 3), .use (.close 2), .use (.close 2),
    .own (.create 50), .own (.openUx 50 3 4 SOCK_STREAM 8), .use (.openConn2 4 9),
    .own (.autorelease 3), .use (.write2 4), .use (.read 1), .own (.takeout 50),
    .use (.close 4), .own (.autorelease 4), .own (.stream 3 AF_UNSPEC 0),
    .use (.openConn 3 true 10), .use (.write 3)]

theorem used_connections_come_back : ∃ s,
    run (step 30) ConnClients.empty usedConnections = some s ∧ s.conns.freed = [0, 1, 2, 3] ∧
      s.conns.closed = [3, 2, 1, 0] ∧ (s.conns.heap.get? 3).map Connection.fd = some 10 ∧
      Sound s := by
  obtain ⟨s, hrun, hsound⟩ := @programs_come_back 30 usedConnections (by decide) (by decide)
  refine ⟨s, hrun, ?_⟩
  cases hrun.symm.trans rfl
  exact ⟨rfl, rfl, rfl, hsound⟩

end Awe.ConnPrograms
