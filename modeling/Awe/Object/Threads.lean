import Mathlib.Data.List.Count
import Awe.Lib.Machine
import Awe.Object

namespace Awe.Objects.Threads
open Machine

structure Handle where
  thread : Nat
  obj : Ptr
  deriving DecidableEq

/-- The objects, the references to them, and the releases that have found a last reference
and have not freed its object yet. -/
structure Shared where
  objects : Objects
  handles : List Handle
  destroying : List Handle

def empty : Shared := ⟨Objects.empty, [], []⟩

inductive Act where
  | create (thread : Nat) (obj : Ptr)
  | refInc (thread : Nat) (obj : Ptr)
  | give (thread receiver : Nat) (obj : Ptr)
  | access (thread : Nat) (obj : Ptr)
  | refDec (thread : Nat) (obj : Ptr)
  | destroy (thread : Nat) (obj : Ptr)

/-- `none` is an access to memory that is not allocated, or has been handed out already.
The two steps of a release are the decrement and the free of who found a 1. -/
def step (s : Shared) : Act → Option Shared
  | .create thread obj =>
    (s.objects.create obj).map (fun objects =>
      { s with objects := objects, handles := ⟨thread, obj⟩ :: s.handles })
  | .refInc thread obj =>
    (s.objects.refInc obj).map (fun objects =>
      { s with objects := objects, handles := ⟨thread, obj⟩ :: s.handles })
  | .give thread receiver obj =>
    some { s with handles := ⟨receiver, obj⟩ :: s.handles.erase ⟨thread, obj⟩ }
  | .access _ obj => (s.objects.heap.get? obj).map (fun _ => s)
  | .refDec thread obj =>
    if obj = NULL then some s
    else do
      let (refs, objects) ← s.objects.refDec obj
      some
        { objects := objects
          handles := s.handles.erase ⟨thread, obj⟩
          destroying := if refs = 1 then ⟨thread, obj⟩ :: s.destroying else s.destroying }
  | .destroy thread obj =>
    (s.objects.free obj).map (fun objects =>
      { s with objects := objects, destroying := s.destroying.erase ⟨thread, obj⟩ })

def Shared.refs (s : Shared) (obj : Ptr) : Nat := (s.handles.map Handle.obj).count obj

/-- What a thread may do with the references it holds. A new object lies where nothing
else does, and nobody takes more references than an `int` counts. -/
def Shared.Permits (s : Shared) : Act → Prop
  | .create _ obj => obj ≠ NULL ∧ s.objects.heap.get? obj = none
  | .refInc thread obj => ⟨thread, obj⟩ ∈ s.handles ∧ s.refs obj < INT_MAX.toNat
  | .give thread _ obj | .access thread obj | .refDec thread obj => ⟨thread, obj⟩ ∈ s.handles
  | .destroy thread obj => ⟨thread, obj⟩ ∈ s.destroying

instance (s : Shared) : ∀ a, Decidable (s.Permits a)
  | .create _ _ | .refInc _ _ => inferInstanceAs (Decidable (_ ∧ _))
  | .give _ _ _ | .access _ _ | .refDec _ _ | .destroy _ _ => inferInstanceAs (Decidable (_ ∈ _))

/-- An object is alive as long as there is a reference to it, which `_refs` counts, or a
release that is about to free it, of which there is one. -/
structure Shared.Balanced (s : Shared) : Prop where
  counted : ∀ obj, s.objects.heap.get? obj =
    if 0 < s.refs obj ∨ obj ∈ s.destroying.map Handle.obj
    then some (BitVec.ofNat 32 (s.refs obj)) else none
  bound : ∀ obj, s.refs obj ≤ INT_MAX.toNat
  last : ∀ obj ∈ s.destroying.map Handle.obj, s.refs obj = 0
  once : (s.destroying.map Handle.obj).Nodup
  nonNull : ∀ h ∈ s.handles, h.obj ≠ NULL
  logged : s.objects.heap.Logged [] s.objects.freed
  distinct : s.objects.heap.Distinct

theorem balanced_empty : empty.Balanced where
  counted _ := rfl
  bound _ := Nat.zero_le _
  last _ h := by cases h
  once := List.nodup_nil
  nonNull _ h := by cases h
  logged := Heap.logged_empty
  distinct := Heap.distinct_empty

namespace Shared

variable {s : Shared} {thread receiver : Nat} {obj : Ptr}

theorem refs_pos (h : ⟨thread, obj⟩ ∈ s.handles) : 0 < s.refs obj :=
  List.count_pos_iff.mpr (List.mem_map_of_mem h)

variable (thread obj) in
theorem refs_cons (objects : Objects) (handles destroying : List Handle) (o : Ptr) :
    refs ⟨objects, ⟨thread, obj⟩ :: handles, destroying⟩ o =
      refs ⟨objects, handles, destroying⟩ o + if o = obj then 1 else 0 := by
  rw [refs, refs, List.map_cons, List.count_cons]
  by_cases ho : o = obj
  · simp [ho]
  · simp [ho, Ne.symm ho]

theorem refs_erase (h : ⟨thread, obj⟩ ∈ s.handles) (objects : Objects)
    (destroying : List Handle) (o : Ptr) :
    refs ⟨objects, s.handles.erase ⟨thread, obj⟩, destroying⟩ o + (if o = obj then 1 else 0) =
      s.refs o := by
  rw [← refs_cons thread obj]
  exact (((List.perm_cons_erase h).map Handle.obj).count_eq o).symm

theorem Balanced.alive (h : s.Balanced) (hobj : 0 < s.refs obj) :
    s.objects.heap.get? obj = some (BitVec.ofNat 32 (s.refs obj)) := by
  rw [h.counted, if_pos (Or.inl hobj)]

theorem Balanced.create (h : s.Balanced) (ha : s.Permits (.create thread obj)) :
    ∃ t, step s (.create thread obj) = some t ∧ t.Balanced := by
  obtain ⟨hnull, hfree⟩ := ha
  obtain ⟨heap, halloc⟩ := Heap.exists_alloc hfree 1
  have hnone : ¬ (0 < s.refs obj ∨ obj ∈ s.destroying.map Handle.obj) := by
    intro hsome
    have hcounted := h.counted obj
    rw [if_pos hsome, hfree] at hcounted
    cases hcounted
  have hzero : s.refs obj = 0 := Nat.eq_zero_of_not_pos (fun hpos => hnone (Or.inl hpos))
  have hrefs : ∀ o, refs ⟨⟨heap, s.objects.freed⟩, ⟨thread, obj⟩ :: s.handles, s.destroying⟩ o =
      s.refs o + if o = obj then 1 else 0 := fun o => refs_cons _ _ _ _ _ o
  refine ⟨⟨⟨heap, s.objects.freed⟩, ⟨thread, obj⟩ :: s.handles, s.destroying⟩, ?_, ?_⟩
  · rw [step, Objects.create, halloc]
    rfl
  · refine ⟨fun o => ?_, fun o => ?_, fun o ho => ?_, h.once, ?_,
      h.logged.alloc halloc List.not_mem_nil, h.distinct.alloc halloc⟩
    · rw [hrefs, Heap.get?_alloc halloc]
      by_cases ho : o = obj
      · simp [ho, hzero]
      · simp [ho, h.counted o]
    · rw [hrefs]
      split
      · rename_i ho
        rw [ho, hzero]
        decide
      · exact h.bound o
    · have hother : o ≠ obj := fun heq => hnone (Or.inr (heq ▸ ho))
      rw [hrefs, if_neg hother]
      exact h.last o ho
    · intro x hx
      rcases List.mem_cons.mp hx with rfl | hx
      · exact hnull
      · exact h.nonNull x hx

theorem Balanced.refInc (h : s.Balanced) (ha : s.Permits (.refInc thread obj)) :
    ∃ t, step s (.refInc thread obj) = some t ∧ t.Balanced := by
  obtain ⟨hhandle, hmax⟩ := ha
  have hpos := refs_pos hhandle
  have halive := h.alive hpos
  let objects : Objects := { s.objects with heap := s.objects.heap.modify obj (· + 1) }
  have hrefs : ∀ o, refs ⟨objects, ⟨thread, obj⟩ :: s.handles, s.destroying⟩ o =
      s.refs o + if o = obj then 1 else 0 := fun o => refs_cons _ _ _ _ _ o
  refine ⟨⟨objects, ⟨thread, obj⟩ :: s.handles, s.destroying⟩, ?_, ?_⟩
  · rw [step, Objects.refInc, halive]
    rfl
  · refine ⟨fun o => ?_, fun o => ?_, fun o ho => ?_, h.once, ?_, h.logged.modify (· + 1),
      h.distinct.modify (· + 1)⟩
    · rw [hrefs, Heap.get?_modify_of_get? halive]
      by_cases ho : o = obj
      · simp [ho, BitVec.ofNat_add]
      · simp [ho, h.counted o]
    · rw [hrefs]
      split
      · rename_i ho
        rw [ho]
        exact hmax
      · exact h.bound o
    · have hother : o ≠ obj := by
        intro heq
        have hzero := h.last o ho
        rw [heq] at hzero
        omega
      rw [hrefs, if_neg hother]
      exact h.last o ho
    · intro x hx
      rcases List.mem_cons.mp hx with rfl | hx
      · exact h.nonNull _ hhandle
      · exact h.nonNull x hx

theorem Balanced.give (h : s.Balanced) (ha : s.Permits (.give thread receiver obj)) :
    ∃ t, step s (.give thread receiver obj) = some t ∧ t.Balanced := by
  have hrefs : ∀ o, refs { s with
      handles := ⟨receiver, obj⟩ :: s.handles.erase ⟨thread, obj⟩ } o = s.refs o :=
    fun o => (refs_cons _ _ _ _ _ o).trans (refs_erase ha _ _ o)
  refine ⟨_, rfl, fun o => ?_, fun o => ?_, fun o ho => ?_, h.once, ?_, h.logged, h.distinct⟩
  · rw [hrefs]
    exact h.counted o
  · rw [hrefs]
    exact h.bound o
  · rw [hrefs]
    exact h.last o ho
  · intro x hx
    rcases List.mem_cons.mp hx with rfl | hx
    · exact h.nonNull ⟨thread, obj⟩ ha
    · exact h.nonNull x (List.mem_of_mem_erase hx)

/-- The count falls by one; who finds a 1 has the object to itself. -/
theorem Balanced.refDec (h : s.Balanced) (ha : s.Permits (.refDec thread obj)) :
    ∃ t, step s (.refDec thread obj) = some t ∧ t.Balanced := by
  have hpos := refs_pos ha
  have halive := h.alive hpos
  have hnull : obj ≠ NULL := h.nonNull _ ha
  let objects : Objects := { s.objects with heap := s.objects.heap.modify obj (· - 1) }
  let destroying : List Handle :=
    if s.refs obj = 1 then ⟨thread, obj⟩ :: s.destroying else s.destroying
  have hrefs := refs_erase ha objects destroying
  have hother : ∀ o, o ≠ obj →
      refs ⟨objects, s.handles.erase ⟨thread, obj⟩, destroying⟩ o = s.refs o := by
    intro o ho
    rw [← hrefs o, if_neg ho]
    rfl
  have hobj := hrefs obj
  rw [if_pos rfl] at hobj
  have hmem : ∀ o, o ≠ obj →
      (o ∈ destroying.map Handle.obj ↔ o ∈ s.destroying.map Handle.obj) := by
    intro o ho
    simp only [destroying]
    split <;> simp [ho]
  have hnew : obj ∉ s.destroying.map Handle.obj := fun hm => by
    have hzero := h.last obj hm
    omega
  have hlast : obj ∈ destroying.map Handle.obj ↔ s.refs obj = 1 := by
    simp only [destroying]
    split <;> simp [*]
  refine ⟨⟨objects, s.handles.erase ⟨thread, obj⟩, destroying⟩, ?_, ?_⟩
  · simp only [step, if_neg hnull, Objects.refDec, halive, Option.map_some, Option.bind_eq_bind,
      Option.bind_some, refs_one (h.bound obj)]
    rfl
  · refine ⟨fun o => ?_, fun o => ?_, fun o ho => ?_, ?_, ?_, h.logged.modify (· - 1),
      h.distinct.modify (· - 1)⟩
    · rw [Heap.get?_modify_of_get? halive]
      by_cases ho : o = obj
      · have hdec : BitVec.ofNat 32 (s.refs obj) - 1 =
            BitVec.ofNat 32 (refs ⟨objects, s.handles.erase ⟨thread, obj⟩, destroying⟩ obj) := by
          rw [← hobj, BitVec.ofNat_add]
          exact BitVec.add_sub_cancel _ _
        rw [ho, if_pos rfl, hdec, if_pos]
        by_cases hone : s.refs obj = 1
        · exact Or.inr (hlast.mpr hone)
        · exact Or.inl (by omega)
      · rw [if_neg ho, hother o ho, h.counted o]
        simp only [hmem o ho]
    · have hle : refs ⟨objects, s.handles.erase ⟨thread, obj⟩, destroying⟩ o ≤ s.refs o := by
        rw [← hrefs o]
        exact Nat.le_add_right _ _
      exact Nat.le_trans hle (h.bound o)
    · by_cases heq : o = obj
      · subst heq
        have hone := hlast.mp ho
        omega
      · rw [hother o heq]
        exact h.last o ((hmem o heq).mp ho)
    · simp only [destroying]
      split
      · exact List.nodup_cons.mpr ⟨hnew, h.once⟩
      · exact h.once
    · exact fun x hx => h.nonNull x (List.mem_of_mem_erase hx)

theorem Balanced.destroy (h : s.Balanced) (ha : s.Permits (.destroy thread obj)) :
    ∃ t, step s (.destroy thread obj) = some t ∧ t.Balanced := by
  have hobj : obj ∈ s.destroying.map Handle.obj := List.mem_map_of_mem ha
  have hzero := h.last obj hobj
  have halive := h.counted obj
  rw [if_pos (Or.inr hobj)] at halive
  obtain ⟨k, hlive⟩ := Heap.exists_live halive
  have hhandle : s.objects.heap.handle? obj = some ⟨obj, k⟩ := hlive
  have hperm := (List.perm_cons_erase ha).map Handle.obj
  rw [List.map_cons] at hperm
  obtain ⟨hgone, honce⟩ := List.nodup_cons.mp (hperm.nodup_iff.mp h.once)
  refine ⟨⟨⟨s.objects.heap.free obj, s.objects.freed ++ [k]⟩, s.handles,
    s.destroying.erase ⟨thread, obj⟩⟩, ?_, ?_⟩
  · rw [step, Objects.free, hhandle]
    rfl
  · refine ⟨fun o => ?_, h.bound, fun o ho => ?_, honce, h.nonNull,
      (h.logged.sign h.distinct hlive List.not_mem_nil).free, h.distinct.free⟩
    · rw [Heap.get?_free]
      by_cases ho : o = obj
      · rw [ho, if_pos rfl, if_neg]
        rintro (hpos | hmem)
        · exact absurd hzero (Nat.ne_of_gt hpos)
        · exact hgone hmem
      · rw [if_neg ho, h.counted o]
        have hmem : o ∈ s.destroying.map Handle.obj ↔
            o ∈ (s.destroying.erase ⟨thread, obj⟩).map Handle.obj := by
          rw [hperm.mem_iff, List.mem_cons, or_iff_right ho]
        simp only [hmem]
        rfl
    · exact h.last o (hperm.mem_iff.mpr (List.mem_cons_of_mem _ ho))

theorem Balanced.step (h : s.Balanced) {a : Act} (ha : s.Permits a) :
    ∃ t, step s a = some t ∧ t.Balanced := by
  cases a with
  | create thread obj => exact h.create ha
  | refInc thread obj => exact h.refInc ha
  | give thread receiver obj => exact h.give ha
  | access thread obj =>
    refine ⟨s, ?_, h⟩
    rw [Threads.step, h.alive (refs_pos ha)]
    rfl
  | refDec thread obj => exact h.refDec ha
  | destroy thread obj => exact h.destroy ha

/-- Nobody holds a reference any more and every release has come to its end. -/
theorem Balanced.freed (h : s.Balanced) (hhandles : s.handles = [])
    (hdestroying : s.destroying = []) : ∀ k, k ∈ s.objects.freed ↔ k < s.objects.heap.next := by
  have hnone : ∀ o, s.objects.heap.get? o = none := by
    intro o
    rw [h.counted, if_neg]
    simp [refs, hhandles, hdestroying]
  intro k
  rw [h.logged.listed k]
  exact ⟨And.left, fun hk => ⟨hk, fun o ho => absurd ho (Heap.not_live_of_get? (hnone o))⟩⟩

end Shared

/-- However the steps of any number of threads come between each other, no reference leads
to a freed object, none is freed twice, and all are freed when the last references are
given up. -/
theorem no_use_after_release {as : List Act} (h : Lawful step Shared.Permits empty as) :
    ∃ s, run step empty as = some s ∧ s.Balanced ∧ s.objects.freed.Nodup ∧
      (s.handles = [] → s.destroying = [] →
        ∀ k, k ∈ s.objects.freed ↔ k < s.objects.heap.next) := by
  have hkeep : ∀ s a (rest : List Act), s.Balanced → s.Permits a →
      ∃ t, step s a = some t ∧ t.Balanced := fun s a _ hs ha => hs.step ha
  obtain ⟨s, hrun, hs⟩ :=
    @Lawful.run _ _ _ (fun _ s => s.Balanced) _ hkeep _ _ balanced_empty h
  exact ⟨s, hrun, hs, hs.logged.once, hs.freed⟩

/-- Two threads give up the two references to an object; another one is created at its
address afterwards. -/
def twoReleases : List Act :=
  [.create 0 8, .refInc 0 8, .give 0 1 8, .refDec 0 8, .access 1 8, .refDec 1 8, .destroy 1 8,
    .create 2 8, .refDec 2 8, .destroy 2 8]

theorem two_releases_balanced : ∃ s, run step empty twoReleases = some s ∧
    s.objects.freed = [0, 1] ∧ s.Balanced := by
  have hlawful : Lawful step Shared.Permits empty twoReleases := by decide
  obtain ⟨s, hrun, hs, _⟩ := no_use_after_release hlawful
  refine ⟨s, hrun, ?_, hs⟩
  cases hrun
  rfl

end Awe.Objects.Threads
