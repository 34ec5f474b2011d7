import Awe.Connection.Model
import Awe.Lib.Holders
import Mathlib.Data.List.Nodup

namespace Awe
open Holders

namespace Connections

/-- What the connection at `a` is bound to; those at `dying` do not count any more. -/
def boundTo (h : Heap Connection) (dying : List Ptr) (a : Ptr) : Option Ptr :=
  if a ∈ dying then none else (h.get? a).map Connection.udpconn

/-- The references to `a`: `outside` of the connections, and from those bound to it. -/
def refs (h : Heap Connection) (given : List Ptr) (outside : Ptr → Nat) (dying : List Ptr)
    (a : Ptr) : Nat :=
  outside a + count given (boundTo h dying) a

/-- The memory of the connections, at addresses `given` by the allocator, when `outside`
counts the references from elsewhere. Those at `dying` are being destroyed. -/
structure Counts (h : Heap Connection) (given : List Ptr) (outside : Ptr → Nat)
    (dying : List Ptr) : Prop where
  nodup : given.Nodup
  covers : ∀ a, (h.get? a).isSome → a ∈ given
  null : h.get? NULL = none
  counted : ∀ a, a ≠ NULL → a ∉ dying → (h.get? a).map Connection.refs =
    if refs h given outside dying a = 0 then none
    else some (BitVec.ofNat 32 (refs h given outside dying a))
  spent : ∀ a ∈ dying, refs h given outside dying a = 0 ∧ (h.get? a).isSome
  bound : ∀ a, a ≠ NULL → refs h given outside dying a ≤ INT_MAX.toNat
  impl : ∀ a c, h.get? a = some c → c.impl.isSome
  older : ∀ a c k, a ∉ dying → h.get? a = some c → c.udpconn ≠ NULL → h.Live ⟨a, k⟩ →
    ∃ j < k, h.Live ⟨c.udpconn, j⟩

section BoundTo

variable {h k : Heap Connection} {dying : List Ptr} {a b : Ptr} {c : Connection}

theorem boundTo_of_get? (hdying : a ∉ dying) (ha : h.get? a = some c) :
    boundTo h dying a = some c.udpconn := by
  rw [boundTo, if_neg hdying, ha]
  rfl

theorem boundTo_modify (f : Connection → Connection)
    (hf : ∀ c, h.get? a = some c → (f c).udpconn = c.udpconn) :
    boundTo (h.modify a f) dying = boundTo h dying := by
  funext x
  rw [boundTo, boundTo, Heap.get?_modify]
  split
  · rfl
  · split
    · rename_i hx
      rw [hx]
      cases hget : h.get? a with
      | none => rfl
      | some c => simp [hf c hget]
    · rfl

theorem boundTo_setUdpconn (hdying : a ∉ dying) (ha : h.get? a = some c) (b : Ptr) :
    boundTo (h.modify a (fun c => { c with udpconn := b })) dying =
      Function.update (boundTo h dying) a (some b) := by
  funext x
  by_cases hx : x = a
  · subst hx
    simp [boundTo, hdying, Heap.get?_modify, ha]
  · simp [boundTo, Heap.get?_modify, hx]

theorem boundTo_alloc (hdying : a ∉ dying) (hk : h.alloc a c = some k) :
    boundTo k dying = Function.update (boundTo h dying) a (some c.udpconn) := by
  funext x
  by_cases hx : x = a
  · subst hx
    simp [boundTo, hdying, Heap.get?_alloc hk]
  · simp [boundTo, Heap.get?_alloc hk, hx]

theorem boundTo_cons : boundTo h (a :: dying) = Function.update (boundTo h dying) a none := by
  funext x
  by_cases hx : x = a <;> simp [boundTo, hx]

theorem boundTo_free : boundTo (h.free a) dying = boundTo h (a :: dying) := by
  funext x
  by_cases hx : x = a <;> simp [boundTo, Heap.get?_free, hx]

end BoundTo

theorem counts_empty : Counts Heap.empty [] (fun _ => 0) [] where
  nodup := List.nodup_nil
  covers a ha := by simp at ha
  null := rfl
  counted a _ _ := rfl
  spent a ha := by simp at ha
  bound a _ := Nat.zero_le _
  impl a c hc := by simp at hc
  older a c k _ hc := by simp at hc

namespace Counts

variable {h k : Heap Connection} {given dying : List Ptr} {outside outside' : Ptr → Nat}
  {a b : Ptr} {c : Connection}

theorem congr (hc : Counts h given outside dying) (hnull : NULL ∉ dying)
    (hout : ∀ x, x ≠ NULL → outside' x = outside x) : Counts h given outside' dying := by
  have hrefs : ∀ x, x ≠ NULL → refs h given outside' dying x = refs h given outside dying x :=
    fun x hx => by rw [refs, refs, hout x hx]
  refine { hc with counted := ?_, spent := ?_, bound := ?_ }
  · intro x hx
    rw [hrefs x hx]
    exact hc.counted x hx
  · intro x hx
    rw [hrefs x (fun he => hnull (he ▸ hx))]
    exact hc.spent x hx
  · intro x hx
    rw [hrefs x hx]
    exact hc.bound x hx

theorem give (hc : Counts h given outside dying) (ha : a ∉ given → boundTo h dying a = none) :
    Counts h (given.insert a) outside dying := by
  have hsame : refs h (given.insert a) outside dying = refs h given outside dying := by
    funext x
    rw [refs, refs, count_insert ha]
  refine { hc with
    nodup := hc.nodup.insert
    covers := fun x hx => List.mem_insert_of_mem (hc.covers x hx)
    counted := ?_
    spent := ?_
    bound := ?_ }
  · rw [hsame]
    exact hc.counted
  · rw [hsame]
    exact hc.spent
  · rw [hsame]
    exact hc.bound

theorem null_not_dying (hc : Counts h given outside dying) : NULL ∉ dying := by
  intro hmem
  have hsome := (hc.spent NULL hmem).2
  rw [hc.null] at hsome
  cases hsome

theorem alive (hc : Counts h given outside dying) (ha : a ≠ NULL)
    (hpos : 0 < refs h given outside dying a) :
    a ∉ dying ∧ ∃ c, h.get? a = some c ∧
      c.refs = BitVec.ofNat 32 (refs h given outside dying a) := by
  have hdying : a ∉ dying := fun hmem => by
    rw [(hc.spent a hmem).1] at hpos
    exact Nat.lt_irrefl _ hpos
  have hcounted := hc.counted a ha hdying
  rw [if_neg (Nat.ne_of_gt hpos)] at hcounted
  obtain ⟨c, hget, hrefs⟩ := Option.map_eq_some_iff.mp hcounted
  exact ⟨hdying, c, hget, hrefs⟩

theorem not_null (hc : Counts h given outside dying) (ha : h.get? a = some c) : a ≠ NULL := by
  intro he
  rw [he, hc.null] at ha
  cases ha

theorem refs_pos (hc : Counts h given outside dying) (hdying : a ∉ dying)
    (ha : h.get? a = some c) : 0 < refs h given outside dying a := by
  have hcounted := hc.counted a (hc.not_null ha) hdying
  rw [ha] at hcounted
  split at hcounted
  · cases hcounted
  · exact Nat.pos_of_ne_zero ‹_›

theorem toNat_refs (hc : Counts h given outside dying) (hdying : a ∉ dying)
    (ha : h.get? a = some c) : c.refs.toNat = refs h given outside dying a := by
  have hbound := hc.bound a (hc.not_null ha)
  obtain ⟨_, d, hget, hrefs⟩ := hc.alive (hc.not_null ha) (hc.refs_pos hdying ha)
  cases ha.symm.trans hget
  simp only [INT_MAX] at hbound
  rw [hrefs, BitVec.toNat_ofNat]
  exact Nat.mod_eq_of_lt (by omega)

/-- A write that leaves the carrier alone, with the references it stands for. -/
theorem write (hc : Counts h given outside dying) (hdying : a ∉ dying) (ha : h.get? a = some c)
    {f : Connection → Connection} (hudpconn : (f c).udpconn = c.udpconn)
    (himpl : (f c).impl = c.impl) (hout : ∀ x, x ≠ a → outside' x = outside x)
    (hrefs : (f c).refs = BitVec.ofNat 32 (refs h given outside' dying a))
    (hpos : 0 < refs h given outside' dying a)
    (hbound : refs h given outside' dying a ≤ INT_MAX.toNat) :
    Counts (h.modify a f) given outside' dying := by
  have hbinds : boundTo (h.modify a f) dying = boundTo h dying :=
    boundTo_modify f (fun d hd => by cases ha.symm.trans hd; exact hudpconn)
  have hsame : refs (h.modify a f) given outside' dying = refs h given outside' dying := by
    funext x
    rw [refs, refs, hbinds]
  have hother : ∀ x, x ≠ a → refs h given outside' dying x = refs h given outside dying x :=
    fun x hx => by rw [refs, refs, hout x hx]
  have hget := Heap.get?_modify_of_get? ha f
  refine ⟨hc.nodup, ?_, ?_, ?_, ?_, ?_, ?_, ?_⟩
  · intro x hx
    exact hc.covers x (by simpa using hx)
  · rw [hget, if_neg (hc.not_null ha).symm]
    exact hc.null
  · intro x hx hxd
    rw [hsame, hget]
    split
    · rename_i hxa
      rw [hxa, if_neg (Nat.ne_of_gt hpos), Option.map_some, hrefs]
    · rename_i hxa
      rw [hother x hxa]
      exact hc.counted x hx hxd
  · intro x hx
    have hxa : x ≠ a := fun he => hdying (he ▸ hx)
    rw [hsame, hother x hxa, hget, if_neg hxa]
    exact hc.spent x hx
  · intro x hx
    rw [hsame]
    by_cases hxa : x = a
    · rw [hxa]
      exact hbound
    · rw [hother x hxa]
      exact hc.bound x hx
  · intro x d hd
    rw [hget] at hd
    split at hd
    · cases hd
      rw [himpl]
      exact hc.impl a c ha
    · exact hc.impl x d hd
  · intro x d k hx hd hcarrier hlive
    simp only [Heap.live_modify] at hlive ⊢
    rw [hget] at hd
    split at hd
    · rename_i hxa
      subst hxa
      cases hd
      rw [hudpconn] at hcarrier ⊢
      exact hc.older x c k hx ha hcarrier hlive
    · exact hc.older x d k hx hd hcarrier hlive

theorem not_dying_of_free (hc : Counts h given outside dying) (hnone : h.get? a = none) :
    a ∉ dying := by
  intro hmem
  have hsome := (hc.spent a hmem).2
  rw [hnone] at hsome
  cases hsome

/-- Nothing refers to an address with no connection. -/
theorem refs_of_free (hc : Counts h given outside dying) (ha : a ≠ NULL)
    (hnone : h.get? a = none) : refs h given outside dying a = 0 := by
  have hcounted := hc.counted a ha (hc.not_dying_of_free hnone)
  rw [hnone] at hcounted
  split at hcounted
  · assumption
  · cases hcounted

/-- A new connection has one reference from outside. -/
theorem create (hc : Counts h given outside dying) (ha : a ≠ NULL) (hk : h.alloc a c = some k)
    (hrefs : c.refs = 1) (himpl : c.impl.isSome) (hudpconn : c.udpconn = NULL)
    (hout : ∀ x, outside' x = outside x + if x = a then 1 else 0) :
    Counts k (given.insert a) outside' dying := by
  have hnone : h.get? a = none := Heap.alloc_free_before hk
  have hdying : a ∉ dying := hc.not_dying_of_free hnone
  have hbefore : boundTo h dying a = none := by rw [boundTo, if_neg hdying, hnone]; rfl
  have hzero : refs h given outside dying a = 0 := hc.refs_of_free ha hnone
  have hsame : ∀ x, x ≠ NULL → refs k (given.insert a) outside' dying x =
      refs h given outside dying x + if x = a then 1 else 0 := by
    intro x hx
    have hupdate := count_update (hc.nodup.insert (a := a)) List.mem_insert_self
      (f := boundTo h dying) (some NULL) x
    rw [hbefore, count_insert (fun _ => hbefore)] at hupdate
    simp only [reduceCtorEq, if_false, Option.some.injEq, if_neg hx.symm] at hupdate
    rw [refs, refs, boundTo_alloc hdying hk, hudpconn, hout x]
    omega
  refine ⟨hc.nodup.insert, ?_, ?_, ?_, ?_, ?_, ?_, ?_⟩
  · intro x hx
    rw [Heap.get?_alloc hk] at hx
    split at hx
    · rename_i hxa
      rw [hxa]
      exact List.mem_insert_self
    · exact List.mem_insert_of_mem (hc.covers x hx)
  · rw [Heap.get?_alloc hk, if_neg ha.symm]
    exact hc.null
  · intro x hx hxd
    rw [hsame x hx, Heap.get?_alloc hk]
    split
    · rename_i hxa
      rw [hxa, hzero]
      simp [hrefs]
    · exact hc.counted x hx hxd
  · intro x hx
    have hxa : x ≠ a := fun he => hdying (he ▸ hx)
    have hnull : x ≠ NULL := fun he => hc.null_not_dying (he ▸ hx)
    rw [hsame x hnull, Heap.get?_alloc hk, if_neg hxa, if_neg hxa]
    exact hc.spent x hx
  · intro x hx
    rw [hsame x hx]
    split
    · rename_i hxa
      rw [hxa, hzero]
      decide
    · exact hc.bound x hx
  · intro x d hd
    rw [Heap.get?_alloc hk] at hd
    split at hd
    · cases hd
      exact himpl
    · exact hc.impl x d hd
  · intro x d n hx hd hcarrier hlive
    rw [Heap.get?_alloc hk] at hd
    split at hd
    · cases hd
      exact absurd hudpconn hcarrier
    · rename_i hxa
      have hlive : h.Live ⟨x, n⟩ := by
        rcases (Heap.live_alloc hk).mp hlive with he | hlive
        · cases he
          exact absurd rfl hxa
        · exact hlive
      obtain ⟨j, hj, hold⟩ := hc.older x d n hx hd hcarrier hlive
      exact ⟨j, hj, (Heap.live_alloc hk).mpr (Or.inr hold)⟩

/-- A reference from outside becomes the carrier link of a younger connection. -/
theorem bind (hc : Counts h given outside dying) (hdying : a ∉ dying) (ha : h.get? a = some c)
    (hfree : c.udpconn = NULL)
    (holder : ∀ k, h.Live ⟨a, k⟩ → ∃ j < k, h.Live ⟨b, j⟩)
    (hout : ∀ x, outside x = outside' x + if x = b then 1 else 0) :
    Counts (h.modify a (fun c => { c with udpconn := b })) given outside' dying := by
  have hsame : ∀ x, x ≠ NULL → refs (h.modify a (fun c => { c with udpconn := b })) given
      outside' dying x = refs h given outside dying x := by
    intro x hx
    have hupdate := count_update hc.nodup (hc.covers a (by rw [ha]; rfl))
      (f := boundTo h dying) (some b) x
    rw [boundTo_of_get? hdying ha, hfree] at hupdate
    simp only [Option.some.injEq, if_neg hx.symm, eq_comm (a := b)] at hupdate
    rw [refs, refs, boundTo_setUdpconn hdying ha, hout x]
    omega
  have hget := Heap.get?_modify_of_get? ha (fun c => { c with udpconn := b })
  refine ⟨hc.nodup, ?_, ?_, ?_, ?_, ?_, ?_, ?_⟩
  · intro x hx
    exact hc.covers x (by simpa using hx)
  · rw [hget, if_neg (hc.not_null ha).symm]
    exact hc.null
  · intro x hx hxd
    rw [hsame x hx, hget, ← hc.counted x hx hxd]
    split
    · rename_i hxa
      rw [hxa, ha]
      rfl
    · rfl
  · intro x hx
    have hxa : x ≠ a := fun he => hdying (he ▸ hx)
    rw [hsame x (fun he => hc.null_not_dying (he ▸ hx)), hget, if_neg hxa]
    exact hc.spent x hx
  · intro x hx
    rw [hsame x hx]
    exact hc.bound x hx
  · intro x d hd
    rw [hget] at hd
    split at hd
    · cases hd
      exact hc.impl a c ha
    · exact hc.impl x d hd
  · intro x d n hx hd hcarrier hlive
    simp only [Heap.live_modify] at hlive ⊢
    rw [hget] at hd
    split at hd
    · rename_i hxa
      subst hxa
      cases hd
      exact holder n hlive
    · exact hc.older x d n hx hd hcarrier hlive

/-- The last reference to a connection is gone: it begins to die, and what it is bound to
is left with a reference from outside. -/
theorem detach (hc : Counts h given outside dying) (hdying : a ∉ dying) (ha : h.get? a = some c)
    (hlast : refs h given outside dying a = 1) {f : Connection → Connection}
    (hudpconn : (f c).udpconn = c.udpconn) (himpl : (f c).impl = c.impl)
    (hout : ∀ x, outside x = outside' x + if x = a then 1 else 0) :
    Counts (h.modify a f) given (fun x => outside' x + if x = c.udpconn then 1 else 0)
      (a :: dying) := by
  have hbinds : boundTo (h.modify a f) (a :: dying) = boundTo h (a :: dying) :=
    boundTo_modify f (fun d hd => by cases ha.symm.trans hd; exact hudpconn)
  have hsame : ∀ x, refs (h.modify a f) given
      (fun x => outside' x + if x = c.udpconn then 1 else 0) (a :: dying) x +
        (if x = a then 1 else 0) = refs h given outside dying x := by
    intro x
    have hupdate := count_update hc.nodup (hc.covers a (by rw [ha]; rfl))
      (f := boundTo h dying) none x
    rw [boundTo_of_get? hdying ha] at hupdate
    simp only [reduceCtorEq, if_false, Option.some.injEq, eq_comm (a := c.udpconn)] at hupdate
    rw [refs, refs, hbinds, boundTo_cons, hout x]
    omega
  have hother : ∀ x, x ≠ a → refs (h.modify a f) given
      (fun x => outside' x + if x = c.udpconn then 1 else 0) (a :: dying) x =
        refs h given outside dying x := by
    intro x hx
    have hx' := hsame x
    rwa [if_neg hx] at hx'
  have hzero : refs (h.modify a f) given
      (fun x => outside' x + if x = c.udpconn then 1 else 0) (a :: dying) a = 0 := by
    have ha' := hsame a
    rw [if_pos rfl, hlast] at ha'
    omega
  have hget := Heap.get?_modify_of_get? ha f
  refine ⟨hc.nodup, ?_, ?_, ?_, ?_, ?_, ?_, ?_⟩
  · intro x hx
    exact hc.covers x (by simpa using hx)
  · rw [hget, if_neg (hc.not_null ha).symm]
    exact hc.null
  · intro x hx hxd
    obtain ⟨hxa, hxd⟩ := List.ne_and_not_mem_of_not_mem_cons hxd
    rw [hother x hxa, hget, if_neg hxa]
    exact hc.counted x hx hxd
  · intro x hx
    by_cases hxa : x = a
    · subst hxa
      exact ⟨hzero, by rw [hget, if_pos rfl]; rfl⟩
    · rw [hother x hxa, hget, if_neg hxa]
      exact hc.spent x ((List.mem_cons.mp hx).resolve_left hxa)
  · intro x hx
    have hx' := hsame x
    have hbound := hc.bound x hx
    omega
  · intro x d hd
    rw [hget] at hd
    split at hd
    · cases hd
      rw [himpl]
      exact hc.impl a c ha
    · exact hc.impl x d hd
  · intro x d n hxd hd hcarrier hlive
    obtain ⟨hxa, hxd⟩ := List.ne_and_not_mem_of_not_mem_cons hxd
    simp only [Heap.live_modify] at hlive ⊢
    rw [hget, if_neg hxa] at hd
    exact hc.older x d n hxd hd hcarrier hlive

/-- Nothing in use is bound to a connection without references. -/
theorem not_bound_of_refs (hc : Counts h given outside dying)
    (ha : count given (boundTo h dying) a = 0) {x : Ptr} (hx : x ∉ dying)
    (hget : h.get? x = some c) : c.udpconn ≠ a := by
  intro he
  have hpos : 0 < count given (boundTo h dying) a :=
    count_pos.mpr ⟨x, hc.covers x (by rw [hget]; rfl), by rw [boundTo_of_get? hx hget, he]⟩
  omega

theorem not_bound (hc : Counts h given outside (a :: dying)) {x : Ptr} (hx : x ∉ a :: dying)
    (hget : h.get? x = some c) : c.udpconn ≠ a :=
  hc.not_bound_of_refs (Nat.add_eq_zero_iff.mp (hc.spent a List.mem_cons_self).1).2 hx hget

/-- The memory of a connection that has let go of its carrier is given back. -/
theorem finish (hc : Counts h given outside (a :: dying)) (ha : a ∉ dying) :
    Counts (h.free a) given outside dying := by
  have hget := Heap.get?_free h a
  have hsame : refs (h.free a) given outside dying = refs h given outside (a :: dying) := by
    funext x
    rw [refs, refs, boundTo_free]
  obtain ⟨hzero, _⟩ := hc.spent a List.mem_cons_self
  refine ⟨hc.nodup, ?_, ?_, ?_, ?_, ?_, ?_, ?_⟩
  · intro x hx
    rw [hget] at hx
    split at hx
    · cases hx
    · exact hc.covers x hx
  · rw [hget, hc.null, ite_self]
  · intro x hx hxd
    rw [hsame, hget]
    split
    · rename_i hxa
      rw [hxa, if_pos hzero]
      rfl
    · rename_i hxa
      exact hc.counted x hx (List.not_mem_cons_of_ne_of_not_mem hxa hxd)
  · intro x hx
    have hxa : x ≠ a := fun he => ha (he ▸ hx)
    rw [hsame, hget, if_neg hxa]
    exact hc.spent x (List.mem_cons_of_mem a hx)
  · intro x hx
    rw [hsame]
    exact hc.bound x hx
  · intro x d hd
    rw [hget] at hd
    split at hd
    · cases hd
    · exact hc.impl x d hd
  · intro x d n hxd hd hcarrier hlive
    rw [hget] at hd
    split at hd
    · cases hd
    rename_i hxa
    have hxd : x ∉ a :: dying := List.not_mem_cons_of_ne_of_not_mem hxa hxd
    simp only [Heap.live_free] at hlive ⊢
    obtain ⟨j, hj, hold⟩ := hc.older x d n hxd hd hcarrier hlive.2
    exact ⟨j, hj, hc.not_bound hxd hd, hold⟩

end Counts

/-- A ux connection has been bound to a carrier, both by the number of their creation. -/
structure Binding where
  conn : Nat
  carrier : Nat
  deriving DecidableEq

def Stands (h : Heap Connection) (dying : List Ptr) (b : Binding) : Prop :=
  ∃ a c, h.Live ⟨a, b.conn⟩ ∧ a ∉ dying ∧ h.get? a = some c ∧ h.Live ⟨c.udpconn, b.carrier⟩

/-- Connections are closed before they are freed, and before what they are bound to. -/
structure Logs (s : Connections) (dying : List Ptr) (bindings : List Binding) : Prop where
  distinct : s.heap.Distinct
  closed : s.heap.Logged dying s.closed
  freed : s.heap.Logged [] s.freed
  known : ∀ b ∈ bindings, b.conn ∈ s.closed ∨ Stands s.heap dying b
  order : ∀ b ∈ bindings, ∀ front rear, s.closed = front ++ b.carrier :: rear → b.conn ∈ front

theorem logs_empty : Logs empty [] [] where
  distinct := Heap.distinct_empty
  closed := Heap.logged_empty
  freed := Heap.logged_empty
  known b hb := by simp at hb
  order b hb := by simp at hb

namespace Logs

variable {s : Connections} {given dying : List Ptr} {outside : Ptr → Nat}
  {bindings : List Binding} {a b : Ptr} {k j : Nat} {c : Connection}

theorem write (hl : Logs s dying bindings) {f : Connection → Connection}
    (hf : ∀ c, (f c).udpconn = c.udpconn) : Logs (s.modify a f) dying bindings := by
  refine ⟨hl.distinct.modify f, hl.closed.modify f, hl.freed.modify f, fun b hb => ?_, hl.order⟩
  rcases hl.known b hb with hclosed | hstands
  · exact Or.inl hclosed
  · obtain ⟨x, d, hlive, hx, hd, hcarrier⟩ := hstands
    refine Or.inr ⟨x, if x = a then f d else d, Heap.live_modify.mpr hlive, hx, ?_, ?_⟩
    · simp only [modify, Heap.get?_modify, hd, Option.map_some]
      split <;> rfl
    · rw [modify, Heap.live_modify]
      split
      · rw [hf]
        exact hcarrier
      · exact hcarrier

theorem create (hl : Logs s dying bindings) {h : Heap Connection}
    (hh : s.heap.alloc a c = some h) (ha : a ∉ dying) :
    Logs { s with heap := h } dying bindings := by
  refine ⟨hl.distinct.alloc hh, hl.closed.alloc hh ha, hl.freed.alloc hh List.not_mem_nil,
    fun b hb => ?_, hl.order⟩
  rcases hl.known b hb with hclosed | hstands
  · exact Or.inl hclosed
  · obtain ⟨x, d, hlive, hx, hd, hcarrier⟩ := hstands
    refine Or.inr ⟨x, d, (Heap.live_alloc hh).mpr (Or.inr hlive), hx, ?_,
      (Heap.live_alloc hh).mpr (Or.inr hcarrier)⟩
    rw [Heap.get?_alloc hh, if_neg]
    · exact hd
    · intro hxa
      rw [hxa, Heap.alloc_free_before hh] at hd
      cases hd

theorem bind (hl : Logs s dying bindings) (hnull : s.heap.get? NULL = none) (hdying : a ∉ dying)
    (ha : s.heap.get? a = some c) (hfree : c.udpconn = NULL) (hb : b ∉ dying)
    (hconn : s.heap.Live ⟨a, k⟩) (hcarrier : s.heap.Live ⟨b, j⟩) :
    Logs (s.setUdpconn a b) dying (bindings ++ [⟨k, j⟩]) := by
  let f : Connection → Connection := fun c => { c with udpconn := b }
  have hget := Heap.get?_modify_of_get? ha f
  change Logs (s.modify a f) dying _
  refine ⟨hl.distinct.modify _, hl.closed.modify _, hl.freed.modify _, fun x hx => ?_,
    fun x hx => ?_⟩
  · rcases List.mem_append.mp hx with hx | hx
    · rcases hl.known x hx with hclosed | hstands
      · exact Or.inl hclosed
      · obtain ⟨y, d, hlive, hy, hd, hup⟩ := hstands
        refine Or.inr ⟨y, d, Heap.live_modify.mpr hlive, hy, ?_, Heap.live_modify.mpr hup⟩
        have hya : y ≠ a := by
          intro he
          subst he
          cases ha.symm.trans hd
          rw [hfree] at hup
          exact Heap.not_live_of_get? hnull hup
        rw [modify, hget, if_neg hya]
        exact hd
    · cases List.mem_singleton.mp hx
      refine Or.inr ⟨a, f c, Heap.live_modify.mpr hconn, hdying, ?_, Heap.live_modify.mpr hcarrier⟩
      rw [modify, hget, if_pos rfl]
  · rcases List.mem_append.mp hx with hx | hx
    · exact hl.order x hx
    · cases List.mem_singleton.mp hx
      intro front rear hsplit
      have hmem : j ∈ s.closed := by
        have hsplit : s.closed = front ++ j :: rear := hsplit
        simp [hsplit]
      exact absurd (((hl.closed.listed j).mp hmem).2 b hcarrier) hb

/-- The one that begins to die is closed; nothing in use is bound to it. -/
theorem detach (hl : Logs s dying bindings) (hdying : a ∉ dying) (hlive : s.heap.Live ⟨a, k⟩)
    (hlast : ∀ x d, x ∉ dying → s.heap.get? x = some d → d.udpconn ≠ a)
    (f : Connection → Connection) :
    Logs { s.modify a f with closed := s.closed ++ [k] } (a :: dying) bindings := by
  refine ⟨hl.distinct.modify f, (hl.closed.sign hl.distinct hlive hdying).modify f,
    hl.freed.modify f, fun b hb => ?_, fun b hb front rear hsplit => ?_⟩
  · rcases hl.known b hb with hclosed | hstands
    · exact Or.inl (List.mem_append_left _ hclosed)
    · obtain ⟨x, d, hx, hxd, hd, hcarrier⟩ := hstands
      by_cases hxa : x = a
      · subst hxa
        have hbirth : b.conn = k := congrArg Heap.Handle.birth (hx.eq_of_addr hlive rfl)
        exact Or.inl (by simp [hbirth])
      · refine Or.inr ⟨x, d, Heap.live_modify.mpr hx,
          List.not_mem_cons_of_ne_of_not_mem hxa hxd, ?_, Heap.live_modify.mpr hcarrier⟩
        simp only [modify, Heap.get?_modify, if_neg hxa]
        exact hd
  · have hsplit : s.closed ++ [k] = front ++ b.carrier :: rear := hsplit
    rcases List.eq_nil_or_concat rear with hrear | ⟨rest, last, hrear⟩
    · subst hrear
      obtain ⟨hfront, hlast'⟩ := List.append_inj' hsplit rfl
      have hcarrier : b.carrier = k := by simpa using hlast'.symm
      rcases hl.known b hb with hclosed | hstands
      · exact hfront ▸ hclosed
      · obtain ⟨x, d, _, hxd, hd, hup⟩ := hstands
        rw [hcarrier] at hup
        exact absurd (hl.distinct _ _ _ hup hlive) (hlast x d hxd hd)
    · subst hrear
      rw [List.concat_eq_append, ← List.cons_append, ← List.append_assoc] at hsplit
      exact hl.order b hb front rest (List.append_inj' hsplit rfl).1

theorem finish (hl : Logs s (a :: dying) bindings) (hc : Counts s.heap given outside (a :: dying))
    (hlive : s.heap.Live ⟨a, k⟩) :
    Logs { s with heap := s.heap.free a, freed := s.freed ++ [k] } dying bindings := by
  refine ⟨hl.distinct.free, hl.closed.free,
    (hl.freed.sign hl.distinct hlive List.not_mem_nil).free, fun b hb => ?_, hl.order⟩
  rcases hl.known b hb with hclosed | hstands
  · exact Or.inl hclosed
  · obtain ⟨x, d, hx, hxd, hd, hcarrier⟩ := hstands
    have hxa := List.ne_and_not_mem_of_not_mem_cons hxd
    refine Or.inr ⟨x, d, Heap.live_free.mpr ⟨hxa.1, hx⟩, hxa.2, ?_,
      Heap.live_free.mpr ⟨hc.not_bound hxd hd, hcarrier⟩⟩
    rw [Heap.get?_free, if_neg hxa.1]
    exact hd

end Logs

structure Books (s : Connections) (given : List Ptr) (outside : Ptr → Nat) (dying : List Ptr)
    (bindings : List Binding) : Prop where
  counts : Counts s.heap given outside dying
  logs : Logs s dying bindings

namespace Books

variable {s : Connections} {given dying : List Ptr} {outside outside' : Ptr → Nat}
  {bindings : List Binding} {a : Ptr} {k : Nat} {c : Connection}

/-- `connection_destroy` closes the connection first. -/
theorem close_eq (ha : s.heap.get? a = some c) (himpl : c.impl.isSome) (hk : s.heap.Live ⟨a, k⟩) :
    s.close a = some { s.modify a Connection.shut with closed := s.closed ++ [k] } := by
  obtain ⟨impl, himpl⟩ := Option.isSome_iff_exists.mp himpl
  have hk : s.heap.handle? a = some ⟨a, k⟩ := hk
  simp [close, ha, himpl, hk]

theorem free_eq (hk : s.heap.Live ⟨a, k⟩) :
    s.free a = some { s with heap := s.heap.free a, freed := s.freed ++ [k] } := by
  have hk : s.heap.handle? a = some ⟨a, k⟩ := hk
  simp [free, hk]

/-- One step of `awe_connection_autorelease`. -/
theorem autorelease_succ (fuel : Nat) (ha : a ≠ NULL) (hget : s.heap.get? a = some c) :
    autorelease (fuel + 1) s a =
      if c.refs = 1 then destroyWith (autorelease fuel) (s.modify a Connection.refDec) a
      else some (s.modify a Connection.refDec) := by
  simp [autorelease, ha, hget]

@[simp] theorem free_setUdpconn (s : Connections) (a b : Ptr) :
    (s.setUdpconn a b).free a = s.free a := by
  simp [free, setUdpconn, modify]

theorem congr (h : Books s given outside dying bindings)
    (hout : ∀ x, x ≠ NULL → outside' x = outside x) : Books s given outside' dying bindings :=
  ⟨h.counts.congr h.counts.null_not_dying hout, h.logs⟩

theorem finish (h : Books s given outside (a :: dying) bindings) (ha : a ∉ dying) :
    ∃ t, s.free a = some t ∧ Books t given outside dying bindings ∧
      t.connectors = s.connectors ∧ t.heap.next = s.heap.next := by
  obtain ⟨c, hget⟩ := Option.isSome_iff_exists.mp (h.counts.spent a List.mem_cons_self).2
  obtain ⟨k, hlive⟩ := Heap.exists_live hget
  exact ⟨_, free_eq hlive, ⟨h.counts.finish ha, h.logs.finish h.counts hlive⟩, rfl, rfl⟩

theorem refs_succ (hout : ∀ x, outside x = outside' x + if x = a then 1 else 0) :
    refs s.heap given outside dying a = refs s.heap given outside' dying a + 1 := by
  rw [refs, refs, hout a, if_pos rfl]
  omega

/-- One of several references goes. -/
theorem drop (h : Books s given outside dying bindings) (hdying : a ∉ dying)
    (hget : s.heap.get? a = some c) (hmore : refs s.heap given outside dying a ≠ 1)
    (hout : ∀ x, outside x = outside' x + if x = a then 1 else 0) :
    Books (s.modify a Connection.refDec) given outside' dying bindings := by
  have hself : refs s.heap given outside dying a = _ := refs_succ hout
  have hbound := h.counts.bound a (h.counts.not_null hget)
  have hrefs := h.counts.toNat_refs hdying hget
  refine ⟨?_, h.logs.write (fun _ => rfl)⟩
  refine h.counts.write hdying hget rfl rfl (fun x hx => ?_) ?_ (by omega) (by omega)
  · simp [hout x, hx]
  · have hval : c.refs = BitVec.ofNat 32 (refs s.heap given outside' dying a + 1) := by
      rw [← hself, ← hrefs, BitVec.ofNat_toNat, BitVec.setWidth_eq]
    rw [Connection.refDec, hval, BitVec.ofNat_add]
    exact BitVec.add_sub_cancel _ _

/-- The last reference goes: the connection is closed and begins to die. -/
theorem die (h : Books s given outside dying bindings) (hdying : a ∉ dying)
    (hget : s.heap.get? a = some c) (hlast : refs s.heap given outside dying a = 1)
    (hout : ∀ x, outside x = outside' x + if x = a then 1 else 0) :
    ∃ t d, (s.modify a Connection.refDec).close a = some t ∧
      Books t given (fun x => outside' x + if x = c.udpconn then 1 else 0) (a :: dying) bindings ∧
      t.heap.get? a = some d ∧ d.udpconn = c.udpconn ∧ (∀ p, t.heap.Live p ↔ s.heap.Live p) ∧
      t.connectors = s.connectors ∧ t.heap.next = s.heap.next := by
  obtain ⟨k, hlive⟩ := Heap.exists_live hget
  let f : Connection → Connection := fun c => c.refDec.shut
  have hudpconn : (f c).udpconn = c.udpconn := Connection.shut_udpconn _
  have hunbound : ∀ x d, x ∉ dying → s.heap.get? x = some d → d.udpconn ≠ a := by
    intro x d hx hd
    refine h.counts.not_bound_of_refs ?_ hx hd
    rw [refs, hout a, if_pos rfl] at hlast
    omega
  refine ⟨{ s.modify a f with closed := s.closed ++ [k] }, f c, ?_,
    ⟨h.counts.detach hdying hget hlast hudpconn (Connection.shut_impl _) hout,
      h.logs.detach hdying hlive hunbound f⟩, ?_, hudpconn, fun p => Heap.live_modify, rfl, rfl⟩
  · rw [close_eq (c := c.refDec) (k := k)]
    · simp [modify, Heap.modify_modify, f]
    · rw [modify, Heap.get?_modify_of_get? hget, if_pos rfl]
    · exact h.counts.impl a c hget
    · exact Heap.live_modify.mpr hlive
  · rw [modify, Heap.get?_modify_of_get? hget, if_pos rfl]

/-- A reference from outside is released. Carriers are older than what is bound to them,
so the recursion ends with the first connection there has been. -/
theorem release {fuel : Nat} (h : Books s given outside dying bindings) (ha : a ≠ NULL)
    (hout : ∀ x, outside x = outside' x + if x = a then 1 else 0)
    (hfuel : ∀ k, s.heap.Live ⟨a, k⟩ → k < fuel) :
    ∃ t, autorelease fuel s a = some t ∧ Books t given outside' dying bindings ∧
      t.connectors = s.connectors ∧ t.heap.next = s.heap.next := by
  induction fuel generalizing s outside dying a with
  | zero =>
    have hself : refs s.heap given outside dying a = _ := refs_succ hout
    obtain ⟨_, c, hget, _⟩ := h.counts.alive ha (by omega)
    obtain ⟨k, hlive⟩ := Heap.exists_live hget
    exact absurd (hfuel k hlive) (Nat.not_lt_zero k)
  | succ fuel ih =>
    have hself : refs s.heap given outside dying a = _ := refs_succ hout
    obtain ⟨hdying, c, hget, hrefs⟩ := h.counts.alive ha (by omega)
    rw [autorelease_succ fuel ha hget, hrefs]
    simp only [refs_one (h.counts.bound a ha)]
    by_cases hlast : refs s.heap given outside dying a = 1
    · rw [if_pos hlast]
      obtain ⟨m, d, hclose, hm, hd, hudpconn, hlive, hconnectors, hnext⟩ :=
        h.die hdying hget hlast hout
      unfold destroyWith
      simp only [hclose, Option.bind_eq_bind, Option.bind_some, hd, hudpconn, free_setUdpconn]
      by_cases hnull : c.udpconn = NULL
      · rw [if_pos hnull]
        have hrest : Books m given outside' (a :: dying) bindings :=
          hm.congr (fun x hx => by simp [hnull, hx])
        obtain ⟨t, hfree, ht, hconnectors', hnext'⟩ := hrest.finish hdying
        exact ⟨t, hfree, ht, hconnectors'.trans hconnectors, hnext'.trans hnext⟩
      · rw [if_neg hnull]
        obtain ⟨k, hk⟩ := Heap.exists_live hget
        obtain ⟨j, hj, hcarrier⟩ := h.counts.older a c k hdying hget hnull hk
        have hbelow : ∀ n, m.heap.Live ⟨c.udpconn, n⟩ → n < fuel := by
          intro n hn
          have hsame : n = j :=
            congrArg Heap.Handle.birth (((hlive _).mp hn).eq_of_addr hcarrier rfl)
          have hbirth := hfuel k hk
          omega
        obtain ⟨t, hrelease, ht, hconnectors', hnext'⟩ := ih hm hnull (fun x => rfl) hbelow
        obtain ⟨u, hfree, hu, hconnectors'', hnext''⟩ := ht.finish hdying
        refine ⟨u, ?_, hu, hconnectors''.trans (hconnectors'.trans hconnectors),
          hnext''.trans (hnext'.trans hnext)⟩
        rw [hrelease, Option.bind_some, hfree]
    · rw [if_neg hlast]
      exact ⟨_, rfl, h.drop hdying hget hlast hout, rfl, rfl⟩

theorem setConnector (h : Books s given outside dying bindings) (connector : Ptr)
    (conn : Option Ptr) : Books (s.setConnector connector conn) given outside dying bindings :=
  ⟨h.counts, h.logs.distinct, h.logs.closed, h.logs.freed, h.logs.known, h.logs.order⟩

/-- `awe_connection_autorelease` of any pointer that counts, or of `NULL`. -/
theorem autorelease {fuel : Nat} (h : Books s given outside [] bindings)
    (hout : ∀ x, x ≠ NULL → outside x = outside' x + if x = a then 1 else 0)
    (hfuel : s.heap.next < fuel) :
    ∃ t, Connections.autorelease fuel s a = some t ∧ Books t given outside' [] bindings ∧
      t.connectors = s.connectors ∧ t.heap.next = s.heap.next := by
  by_cases ha : a = NULL
  · subst ha
    obtain ⟨n, hn⟩ := Nat.exists_eq_succ_of_ne_zero (Nat.ne_of_gt (Nat.zero_lt_of_lt hfuel))
    subst hn
    refine ⟨s, if_pos rfl, h.congr (fun x hx => ?_), rfl, rfl⟩
    rw [hout x hx, if_neg hx]
    rfl
  · have hbooks : Books s given (fun x => outside' x + if x = a then 1 else 0) [] bindings :=
      h.congr (fun x hx => (hout x hx).symm)
    exact hbooks.release ha (fun x => rfl) (fun k hk => Nat.lt_trans hk.birth_lt hfuel)

theorem give (h : Books s given outside [] bindings) (a : Ptr) :
    Books s (given.insert a) outside [] bindings := by
  refine ⟨h.counts.give (fun ha => ?_), h.logs⟩
  have hnone := mt (h.counts.covers a) ha
  rw [boundTo, if_neg List.not_mem_nil, Option.not_isSome_iff_eq_none.mp hnone]
  rfl

/-- `awe_mallocz` and the writes that follow, up to a fully initialised connection. -/
theorem init (h : Books s given outside [] bindings) (ha : a ≠ NULL)
    (hnone : s.heap.get? a = none) (af fd : Int) (f : Connection → Connection)
    (hrefs : (f ⟨1, fd, af, none, NULL⟩).refs = 1) (himpl : (f ⟨1, fd, af, none, NULL⟩).impl.isSome)
    (hudpconn : (f ⟨1, fd, af, none, NULL⟩).udpconn = NULL)
    (hout : ∀ x, outside' x = outside x + if x = a then 1 else 0) :
    ∃ t, s.init a af fd = some t ∧ Books (t.modify a f) (given.insert a) outside' [] bindings ∧
      (t.modify a f).heap.get? a = some (f ⟨1, fd, af, none, NULL⟩) ∧
      (∀ x, x ≠ a → t.heap.get? x = s.heap.get? x) ∧
      (∀ p, (t.modify a f).heap.Live p ↔ p = ⟨a, s.heap.next⟩ ∨ s.heap.Live p) ∧
      t.connectors = s.connectors ∧ t.heap.next = s.heap.next + 1 := by
  obtain ⟨heap, halloc⟩ := Heap.exists_alloc hnone ⟨1, fd, af, none, NULL⟩
  have hwrite := Heap.alloc_modify halloc f
  have hcounts := h.counts.create ha hwrite hrefs himpl hudpconn hout
  refine ⟨{ s with heap := heap }, ?_, ⟨hcounts, h.logs.create hwrite List.not_mem_nil⟩, ?_,
    fun x hx => ?_, fun p => Heap.live_alloc hwrite, rfl, Heap.next_alloc halloc⟩
  · simp only [Connections.init, halloc, Option.map_some]
  · exact (Heap.get?_alloc hwrite a).trans (if_pos rfl)
  · exact (Heap.get?_alloc halloc x).trans (if_neg hx)

theorem stream (h : Books s given outside [] bindings) (ha : a ≠ NULL)
    (hnone : s.heap.get? a = none) (af fd : Int)
    (hout : ∀ x, outside' x = outside x + if x = a then 1 else 0) :
    ∃ t, s.stream a af fd = some t ∧ Books t (given.insert a) outside' [] bindings ∧
      t.heap.get? a = some ⟨1, fd, af, some .inetStream, NULL⟩ ∧
      t.connectors = s.connectors ∧ t.heap.next = s.heap.next + 1 := by
  obtain ⟨t, hinit, hbooks, hget, _, _, hconnectors, hnext⟩ := h.init ha hnone af fd
    (fun c => { c with impl := some .inetStream }) rfl rfl rfl hout
  refine ⟨_, ?_, hbooks, hget, hconnectors, hnext⟩
  rw [Connections.stream, hinit]
  rfl

/-- The family of the addresses is one that `awe_connection_dgram` knows. -/
theorem dgram (h : Books s given outside [] bindings) (fuel : Nat) (ha : a ≠ NULL)
    (hnone : s.heap.get? a = none) {af : Int} (haf : af = AF_INET ∨ af = AF_INET6) (fd : Int)
    (hout : ∀ x, outside' x = outside x + if x = a then 1 else 0) :
    ∃ t, Connections.dgram fuel s a af fd = some (a, t) ∧
      Books t (given.insert a) outside' [] bindings ∧
      t.connectors = s.connectors ∧ t.heap.next = s.heap.next + 1 := by
  obtain ⟨t, hinit, hbooks, _, _, _, hconnectors, hnext⟩ := h.init ha hnone af fd
    (fun c => { c with impl := some (if AF_INET = af then .inet4Dgram else .inet6Dgram) })
    rfl rfl rfl hout
  refine ⟨_, ?_, hbooks, hconnectors, hnext⟩
  rw [Connections.dgram, hinit]
  rcases haf with haf | haf
  · subst haf
    rfl
  · subst haf
    rfl

/-- Another reference from outside. -/
theorem addref (h : Books s given outside [] bindings) (ha : s.heap.get? a = some c)
    (hmax : c.refs.toNat < INT_MAX.toNat)
    (hout : ∀ x, outside' x = outside x + if x = a then 1 else 0) :
    s.addref a = some (s.modify a Connection.refInc) ∧
      Books (s.modify a Connection.refInc) given outside' [] bindings := by
  have hrefs := h.counts.toNat_refs List.not_mem_nil ha
  have hself : refs s.heap given outside' [] a = c.refs.toNat + 1 := by
    rw [hrefs, refs, refs, hout a, if_pos rfl]
    omega
  refine ⟨by simp only [Connections.addref, ha, Option.map_some], ?_, h.logs.write (fun _ => rfl)⟩
  refine h.counts.write List.not_mem_nil ha rfl rfl (fun x hx => ?_) ?_ (by omega) (by omega)
  · simp [hout x, hx]
  · rw [hself, Connection.refInc, BitVec.ofNat_add, BitVec.ofNat_toNat, BitVec.setWidth_eq]
    rfl

theorem ux (h : Books s given outside [] bindings) (ha : a ≠ NULL)
    (hnone : s.heap.get? a = none) (type ufd : Int) {b : Ptr} {d : Connection}
    (hb : s.heap.get? b = some d) (hmax : d.refs.toNat < INT_MAX.toNat)
    {j : Nat} (hj : s.heap.Live ⟨b, j⟩)
    (hout : ∀ x, outside' x = outside x + if x = a then 1 else 0) :
    ∃ t, s.ux a type ufd b = some t ∧
      Books t (given.insert a) outside' [] (bindings ++ [⟨s.heap.next, j⟩]) ∧
      (∃ c, t.heap.get? a = some c ∧ c.impl.isSome ∧ c.udpconn = b) ∧ (t.heap.get? b).isSome ∧
      t.connectors = s.connectors ∧ t.heap.next = s.heap.next + 1 := by
  have hba : b ≠ a := by
    intro he
    rw [he, hnone] at hb
    cases hb
  let f : Connection → Connection := fun c => { c with
    af := d.af
    impl := some (if SOCK_STREAM = type then .uxStream else .uxDgram) }
  obtain ⟨t, hinit, hbooks, hget, hother, hlive, hconnectors, hnext⟩ :=
    h.init ha hnone AF_UNSPEC ufd f rfl rfl rfl hout
  have hbind : t.heap.get? b = some d := (hother b hba).trans hb
  have hbind' : (t.modify a f).heap.get? b = some d := by
    rw [modify, Heap.get?_modify, if_neg hba, hbind]
  have hmodify : (t.modify a (fun c => { c with af := d.af })).setImpl a
      (if SOCK_STREAM = type then .uxStream else .uxDgram) = t.modify a f := by
    simp [setImpl, modify, Heap.modify_modify, f]
  obtain ⟨haddref, hbooks⟩ := hbooks.addref hbind' hmax (fun x => rfl)
  have hget' : ((t.modify a f).modify b Connection.refInc).heap.get? a =
      some (f ⟨1, ufd, AF_UNSPEC, none, NULL⟩) := by
    rw [modify, Heap.get?_modify, if_neg hba.symm, hget]
  have hconn : ((t.modify a f).modify b Connection.refInc).heap.Live ⟨a, s.heap.next⟩ :=
    Heap.live_modify.mpr ((hlive _).mpr (Or.inl rfl))
  have hcarrier : ((t.modify a f).modify b Connection.refInc).heap.Live ⟨b, j⟩ :=
    Heap.live_modify.mpr ((hlive _).mpr (Or.inr hj))
  let g : Connection → Connection := fun c => { c with udpconn := b }
  have hbound : (((t.modify a f).modify b Connection.refInc).setUdpconn a b).heap.get? a =
      some (g (f ⟨1, ufd, AF_UNSPEC, none, NULL⟩)) :=
    (Heap.get?_modify_of_get? hget' g a).trans (if_pos rfl)
  have holder : ∀ k, ((t.modify a f).modify b Connection.refInc).heap.Live ⟨a, k⟩ →
      ∃ i < k, ((t.modify a f).modify b Connection.refInc).heap.Live ⟨b, i⟩ := by
    intro k hk
    have hsame : k = s.heap.next := congrArg Heap.Handle.birth (hk.eq_of_addr hconn rfl)
    exact ⟨j, hsame ▸ hj.birth_lt, hcarrier⟩
  have hcounts := hbooks.counts.bind List.not_mem_nil hget' rfl holder (fun x => rfl)
  refine ⟨((t.modify a f).modify b Connection.refInc).setUdpconn a b, ?_, ⟨hcounts,
    hbooks.logs.bind hbooks.counts.null List.not_mem_nil hget' rfl List.not_mem_nil hconn hcarrier⟩,
    ⟨g (f ⟨1, ufd, AF_UNSPEC, none, NULL⟩), hbound, rfl, rfl⟩, ?_, hconnectors, hnext⟩
  · simp only [Connections.ux, hinit, hbind, hmodify, haddref, Option.bind_eq_bind,
      Option.bind_some]
  · simp [setUdpconn, modify, hbind]

theorem openConn (h : Books s given outside [] bindings) (ha : s.heap.get? a = some c)
    (himpl : c.impl.isSome) (fd : Int)
    (hcarrier : c.impl = some .uxStream ∨ c.impl = some .uxDgram →
      (s.heap.get? c.udpconn).isSome) :
    ∃ t, s.openConn a fd = some t ∧ Books t given outside [] bindings ∧
      t.connectors = s.connectors ∧ t.heap.next = s.heap.next := by
  obtain ⟨impl, himpl⟩ := Option.isSome_iff_exists.mp himpl
  have hrefs := h.counts.toNat_refs List.not_mem_nil ha
  let f : Connection → Connection := fun c => { c with fd := fd }
  have hcounts : Counts (s.modify a f).heap given outside [] := by
    refine h.counts.write (f := f) List.not_mem_nil ha rfl rfl (fun _ _ => rfl) ?_
      (h.counts.refs_pos List.not_mem_nil ha) (h.counts.bound a (h.counts.not_null ha))
    rw [← hrefs, BitVec.ofNat_toNat, BitVec.setWidth_eq]
  refine ⟨s.modify a f, ?_, ⟨hcounts, h.logs.write (fun _ => rfl)⟩,
    rfl, rfl⟩
  simp only [Connections.openConn, ha, himpl, Option.bind_eq_bind, Option.bind_some]
  split
  · rename_i hux
    obtain ⟨d, hd⟩ := Option.isSome_iff_exists.mp (hcarrier (by rw [himpl]; simpa using hux))
    rw [hd]
    rfl
  · rfl

end Books

end Connections

end Awe
