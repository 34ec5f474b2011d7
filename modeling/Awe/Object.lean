import Awe.CTypes
import Awe.Lib.Heap

namespace Awe

/-- The memory behind `awe_object` pointers, with the `_refs` of each object, and the
objects freed so far, by the number of their creation. -/
structure Objects where
  heap : Heap (BitVec 32)
  freed : List Nat

namespace Objects

def empty : Objects := ⟨Heap.empty, []⟩

def create (s : Objects) (obj : Ptr) : Option Objects :=
  (s.heap.alloc obj 1).map (fun heap => { s with heap := heap })

/-- `awe_object_ref_inc`; `none` is an access to memory that is not allocated. -/
def refInc (s : Objects) (obj : Ptr) : Option Objects :=
  (s.heap.get? obj).map (fun _ => { s with heap := s.heap.modify obj (· + 1) })

def refDec (s : Objects) (obj : Ptr) : Option (BitVec 32 × Objects) :=
  (s.heap.get? obj).map (fun refs => (refs, { s with heap := s.heap.modify obj (· - 1) }))

/-- `awe_free` of an object. -/
def free (s : Objects) (obj : Ptr) : Option Objects :=
  (s.heap.handle? obj).map (fun p => ⟨s.heap.free obj, s.freed ++ [p.birth]⟩)

/-- What the release procedures share: the last reference frees the object. -/
def autorelease (s : Objects) (obj : Ptr) (destroy : Objects → Ptr → Option Objects) :
    Option Objects :=
  if obj = NULL then some s
  else do
    let (refs, s) ← s.refDec obj
    if refs = 1 then destroy s obj else some s

/-- `packet_destroy`, the data of the packet apart. -/
def packetDestroy (s : Objects) (packet : Ptr) : Option Objects := s.free packet

def packetAutorelease (s : Objects) (packet : Ptr) : Option Objects :=
  s.autorelease packet packetDestroy

def evioUserdataAutorelease (s : Objects) (evdata : Ptr) : Option Objects :=
  s.autorelease evdata free

def evtimerUserdataAutorelease (s : Objects) (evdata : Ptr) : Option Objects :=
  s.autorelease evdata free

end Objects

/-- The release procedures that lists are initialised with. -/
inductive ReleaseProc where
  | packet
  | evio
  | evtimer
  deriving DecidableEq

def ReleaseProc.release : ReleaseProc → Objects → Ptr → Option Objects
  | .packet => Objects.packetAutorelease
  | .evio => Objects.evioUserdataAutorelease
  | .evtimer => Objects.evtimerUserdataAutorelease

theorem ReleaseProc.release_eq (proc : ReleaseProc) (s : Objects) (obj : Ptr) :
    proc.release s obj = s.autorelease obj Objects.free := by
  cases proc <;> rfl

/-- The memory of the objects when `refs` references to each exist: alive as long as
there are any, counted right, and freed exactly once when there are none left. -/
structure Accounts (s : Objects) (refs : Ptr → Nat) : Prop where
  counted : ∀ o, s.heap.get? o = if refs o = 0 then none else some (BitVec.ofNat 32 (refs o))
  bound : ∀ o, refs o ≤ INT_MAX.toNat
  once : s.freed.Nodup
  freed : ∀ k, k ∈ s.freed ↔ k < s.heap.next ∧ ∀ a, ¬ s.heap.Live ⟨a, k⟩
  distinct : ∀ a b k, s.heap.Live ⟨a, k⟩ → s.heap.Live ⟨b, k⟩ → a = b

theorem accounts_empty : Accounts Objects.empty (fun _ => 0) where
  counted _ := rfl
  bound _ := Nat.zero_le _
  once := List.nodup_nil
  freed := by simp [Objects.empty, Heap.empty]
  distinct a b k h := absurd h (Heap.not_live_of_get? rfl)

theorem Accounts.alive {s : Objects} {refs : Ptr → Nat} (h : Accounts s refs) {o : Ptr}
    (ho : 0 < refs o) : s.heap.get? o = some (BitVec.ofNat 32 (refs o)) := by
  rw [h.counted, if_neg (Nat.ne_of_gt ho)]

theorem Accounts.logged {s : Objects} {refs : Ptr → Nat} (h : Accounts s refs) :
    s.heap.Logged [] s.freed :=
  Heap.logged_nil_iff.mpr ⟨h.once, h.freed⟩

/-- The books from what the heap says of its blocks. -/
theorem Accounts.of_logged {s : Objects} {refs : Ptr → Nat}
    (counted : ∀ o, s.heap.get? o =
      if refs o = 0 then none else some (BitVec.ofNat 32 (refs o)))
    (bound : ∀ o, refs o ≤ INT_MAX.toNat) (logged : s.heap.Logged [] s.freed)
    (distinct : s.heap.Distinct) : Accounts s refs :=
  ⟨counted, bound, logged.once, (Heap.logged_nil_iff.mp logged).2, distinct⟩

theorem Accounts.create {s : Objects} {refs refs' : Ptr → Nat} (h : Accounts s refs) {o : Ptr}
    (ho : refs o = 0) (hrefs : ∀ x, refs' x = if x = o then 1 else refs x) :
    ∃ t, s.create o = some t ∧ Accounts t refs' := by
  have hnone : s.heap.get? o = none := by rw [h.counted, if_pos ho]
  obtain ⟨heap, halloc⟩ := Heap.exists_alloc hnone 1
  refine ⟨_, Option.map_eq_some_iff.mpr ⟨heap, halloc, rfl⟩, .of_logged ?_ ?_
    (h.logged.alloc halloc List.not_mem_nil) (Heap.Distinct.alloc h.distinct halloc)⟩
  · intro x
    rw [Heap.get?_alloc halloc, hrefs x]
    by_cases hx : x = o
    · simp [hx]
    · simp [hx, h.counted x]
  · intro x
    rw [hrefs x]
    split
    · decide
    · exact h.bound x

theorem Accounts.refInc {s : Objects} {refs refs' : Ptr → Nat} (h : Accounts s refs) {o : Ptr}
    (ho : 0 < refs o) (hmax : refs o < INT_MAX.toNat)
    (hrefs : ∀ x, refs' x = refs x + if x = o then 1 else 0) :
    ∃ t, s.refInc o = some t ∧ Accounts t refs' := by
  refine ⟨_, Option.map_eq_some_iff.mpr ⟨_, h.alive ho, rfl⟩, .of_logged ?_ ?_
    (h.logged.modify (· + 1)) (Heap.Distinct.modify h.distinct (· + 1))⟩
  · intro x
    rw [Heap.get?_modify, hrefs x]
    by_cases hx : x = o
    · subst hx
      simp [h.alive ho, BitVec.ofNat_add]
    · simp [hx, h.counted x]
  · intro x
    rw [hrefs x]
    split
    · rename_i hx
      subst hx
      exact hmax
    · exact h.bound x

theorem Accounts.release {s : Objects} {refs refs' : Ptr → Nat} (h : Accounts s refs) {o : Ptr}
    (proc : ReleaseProc) (hnull : o ≠ NULL)
    (hrefs : ∀ x, refs x = refs' x + if x = o then 1 else 0) :
    ∃ t, proc.release s o = some t ∧ Accounts t refs' := by
  have ho : refs o = refs' o + 1 := by simpa using hrefs o
  have halive := h.alive (o := o) (by omega)
  have hother : ∀ x, x ≠ o → refs' x = refs x := fun x hx => by simp [hrefs x, hx]
  have hle : ∀ x, refs' x ≤ INT_MAX.toNat := fun x =>
    Nat.le_trans (hrefs x ▸ Nat.le_add_right _ _) (h.bound x)
  obtain ⟨k, hlive⟩ := Heap.exists_live halive
  have hhandle : s.heap.handle? o = some ⟨o, k⟩ := hlive
  rw [ReleaseProc.release_eq, Objects.autorelease, if_neg hnull]
  simp only [Objects.refDec, halive, Option.map_some, Option.bind_eq_bind, Option.bind_some,
    refs_one (h.bound o)]
  by_cases hlast : refs o = 1
  · rw [if_pos hlast]
    have hlogged := h.logged.sign h.distinct hlive List.not_mem_nil
    refine ⟨_, Option.map_eq_some_iff.mpr ⟨_, by simpa using hhandle, rfl⟩,
      .of_logged ?_ hle (hlogged.modify _).free (Heap.Distinct.modify h.distinct _).free⟩
    intro x
    rw [Heap.get?_free, Heap.get?_modify]
    by_cases hx : x = o
    · simp [hx, show refs' o = 0 by omega]
    · simp [hx, hother x hx, h.counted x]
  · rw [if_neg hlast]
    refine ⟨_, rfl, .of_logged ?_ hle (h.logged.modify (· - 1))
      (Heap.Distinct.modify h.distinct (· - 1))⟩
    intro x
    rw [Heap.get?_modify]
    by_cases hx : x = o
    · subst hx
      have hdec : BitVec.ofNat 32 (refs x) - 1#32 = BitVec.ofNat 32 (refs' x) := by
        rw [ho, BitVec.ofNat_add]
        exact BitVec.add_sub_cancel _ _
      simp [halive, hdec, show refs' x ≠ 0 by omega]
    · simp [hx, hother x hx, h.counted x]

end Awe
