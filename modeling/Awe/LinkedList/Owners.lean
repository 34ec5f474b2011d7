import Awe.LinkedList.Refinement
import Awe.Object

namespace Awe.LinkedList
open Transducer

/-- The calls of a program that shares objects: on the objects themselves, through the
handles it holds, and on its lists. -/
inductive Call where
  | create (obj : Ptr)
  | addref (obj : Ptr)
  | autorelease (proc : ReleaseProc) (obj : Ptr)
  | list (op : Op ReleaseProc)

def objectOps : ObjectOps ReleaseProc Objects :=
  ⟨Objects.refInc, fun proc s obj => proc.release s obj⟩

def callStep (fuel : Nat) (s : LinkedList ReleaseProc × Objects) :
    Call → Option (Answer × LinkedList ReleaseProc × Objects)
  | .create obj => (s.2.create obj).map (fun objs => (.object obj, s.1, objs))
  | .addref obj => (s.2.refInc obj).map (fun objs => (.object obj, s.1, objs))
  | .autorelease proc obj => (proc.release s.2 obj).map (fun objs => (.done, s.1, objs))
  | .list op => step fuel objectOps s op

/-- Who refers to an object: handles outside the lists, and nodes of the lists. -/
structure Owners where
  lists : Sequences ReleaseProc
  handles : Ptr → Nat

namespace Owners

def empty : Owners := ⟨Sequences.empty, fun _ => 0⟩

def nodeRefs (s : Sequences ReleaseProc) (obj : Ptr) : Nat :=
  (s.heads.map (fun l => (s.objects l).count obj)).sum

def refs (b : Owners) (obj : Ptr) : Nat := b.handles obj + nodeRefs b.lists obj

def addHandle (b : Owners) (obj : Ptr) : Owners :=
  { b with handles := Function.update b.handles obj (b.handles obj + 1) }

def dropHandle (b : Owners) (obj : Ptr) : Owners :=
  { b with handles := Function.update b.handles obj (b.handles obj - 1) }

def anyObjects : ObjectOps ReleaseProc Unit := ⟨fun _ _ => some (), fun _ _ _ => some ()⟩

/-- Only objects someone refers to are put into lists, up to `limit` references to each,
and only an empty list is initialised again. -/
def Permits (limit : Nat) (b : Owners) : Op ReleaseProc → Prop
  | .init list _ => list ∈ b.lists.heads → b.lists.entries list = []
  | .add _ obj _ => 0 < b.refs obj ∧ b.refs obj < limit
  | _ => True

instance (limit : Nat) (b : Owners) (op : Op ReleaseProc) : Decidable (b.Permits limit op) :=
  match op with
  | .init list _ => inferInstanceAs (Decidable (list ∈ b.lists.heads → b.lists.entries list = []))
  | .add _ obj _ => inferInstanceAs (Decidable (0 < b.refs obj ∧ b.refs obj < limit))
  | .removeFirst _ | .remove _ _ | .del _ _ | .del2 _ _ | .del3 _ _ | .clear _ | .contains _ _
  | .get _ _ | .getFirst _ | .getLast _ | .getByIndex _ _ | .size _ => isTrue trivial

/-- The object that an operation takes out of a list for its caller. -/
def taken : Op ReleaseProc → Answer → Ptr
  | .removeFirst _, .object obj | .remove _ _, .object obj => obj
  | _, _ => NULL

def receive (b : Owners) (obj : Ptr) : Owners := if obj = NULL then b else b.addHandle obj

/-- The references after each call a program may make: it releases the handles it has, and
there are never more than `limit` references to one object, or nodes in one list. -/
def step (limit : Nat) (b : Owners) : Call → Option (Answer × Owners)
  | .create obj =>
    if obj ≠ NULL ∧ b.refs obj = 0 then some (.object obj, b.addHandle obj) else none
  | .addref obj =>
    if 0 < b.refs obj ∧ b.refs obj < limit then some (.object obj, b.addHandle obj) else none
  | .autorelease _ obj =>
    if obj = NULL then some (.done, b)
    else if 0 < b.handles obj then some (.done, b.dropHandle obj) else none
  | .list op =>
    if b.Permits limit op then
      (Sequences.step anyObjects limit (b.lists, ()) op).map (fun r =>
        (r.1, receive { b with lists := r.2.1 } (taken op r.1)))
    else none

/-- No list is counted twice, and nobody refers to `NULL`. -/
structure Sane (b : Owners) : Prop where
  heads : b.lists.heads.Nodup
  null : b.refs NULL = 0

theorem sane_empty : empty.Sane := ⟨List.nodup_nil, rfl⟩

/-- One list changed: the references of its nodes change with it. -/
theorem nodeRefs_set {s : Sequences ReleaseProc} (hnodup : s.heads.Nodup) {list : Ptr}
    (hl : list ∈ s.heads) (es : List Entry) (obj : Ptr) :
    nodeRefs (s.set list es) obj + (s.objects list).count obj =
      nodeRefs s obj + (es.map Entry.object).count obj := by
  obtain ⟨front, rear, hsplit⟩ := List.append_of_mem hl
  rw [hsplit] at hnodup
  obtain ⟨_, hrear, hapart⟩ := List.nodup_append.mp hnodup
  have hother : ∀ l ∈ front ++ rear, (s.set list es).objects l = s.objects l := by
    intro l hmem
    have hne : l ≠ list := by
      intro heq
      subst heq
      rcases List.mem_append.mp hmem with hm | hm
      · exact hapart l hm l (by simp) rfl
      · exact (List.nodup_cons.mp hrear).1 hm
    simp [Sequences.objects, hne]
  have hfront : front.map (fun l => ((s.set list es).objects l).count obj) =
      front.map (fun l => (s.objects l).count obj) :=
    List.map_congr_left (fun l hm => by rw [hother l (by simp [hm])])
  have hrear : rear.map (fun l => ((s.set list es).objects l).count obj) =
      rear.map (fun l => (s.objects l).count obj) :=
    List.map_congr_left (fun l hm => by rw [hother l (by simp [hm])])
  have hsame : (s.set list es).objects list = es.map Entry.object := by simp [Sequences.objects]
  simp only [nodeRefs, Sequences.set_heads, hsplit, List.map_append, List.map_cons,
    List.sum_append, List.sum_cons, hfront, hrear, hsame]
  omega

theorem nodeRefs_init {s : Sequences ReleaseProc} {list : Ptr}
    (hempty : list ∈ s.heads → s.entries list = []) (proc : ReleaseProc) (obj : Ptr) :
    nodeRefs (s.init list proc) obj = nodeRefs s obj := by
  have hother : ∀ l, l ≠ list → (s.init list proc).objects l = s.objects l := by
    intro l hne
    simp [Sequences.objects, Sequences.init, hne]
  have hsame : (s.init list proc).objects list = [] := by
    simp [Sequences.objects, Sequences.init]
  by_cases hl : list ∈ s.heads
  · have hheads : (s.init list proc).heads = s.heads := List.insert_of_mem hl
    have hobjects : ∀ l, (s.init list proc).objects l = s.objects l := by
      intro l
      by_cases hne : l = list
      · subst hne
        rw [hsame, Sequences.objects, hempty hl, List.map_nil]
      · exact hother l hne
    simp only [nodeRefs, hheads, hobjects]
  · have hheads : (s.init list proc).heads = list :: s.heads := List.insert_of_not_mem hl
    have hmap : s.heads.map (fun l => ((s.init list proc).objects l).count obj) =
        s.heads.map (fun l => (s.objects l).count obj) := by
      apply List.map_congr_left
      intro l hm
      rw [hother l (by rintro rfl; exact hl hm)]
    simp only [nodeRefs, hheads, List.map_cons, List.sum_cons, hmap, hsame, List.count_nil,
      Nat.zero_add]

/-- The first match leaves the list, and the references of the others stay. -/
theorem count_eraseP {es : List Entry} {p : Entry → Bool} {e : Entry} (h : es.find? p = some e)
    (obj : Ptr) : (es.map Entry.object).count obj =
      ((es.eraseP p).map Entry.object).count obj + if obj = e.object then 1 else 0 := by
  induction es with
  | nil => cases h
  | cons f es ih =>
    by_cases hp : p f
    · obtain rfl : f = e := by simpa [hp] using h
      simp only [List.map_cons, List.eraseP_cons_of_pos hp, List.count_cons, beq_iff_eq,
        eq_comm (a := obj)]
    · have hrest := ih (by simpa [hp] using h)
      simp only [List.map_cons, List.eraseP_cons_of_neg hp, List.count_cons, hrest]
      omega

theorem Sane.object_ne_null {b : Owners} (h : b.Sane) {list : Ptr} (hl : list ∈ b.lists.heads)
    {e : Entry} (he : e ∈ b.lists.entries list) : e.object ≠ NULL := by
  intro hnull
  have hcount : 0 < (b.lists.objects list).count NULL :=
    List.count_pos_iff.mpr (hnull ▸ List.mem_map_of_mem he)
  have hset := nodeRefs_set h.heads hl [] NULL
  have hrefs : b.handles NULL + nodeRefs b.lists NULL = 0 := h.null
  simp only [List.map_nil, List.count_nil] at hset
  omega

@[simp] theorem refs_addHandle (b : Owners) (obj x : Ptr) :
    (b.addHandle obj).refs x = b.refs x + if x = obj then 1 else 0 := by
  by_cases hx : x = obj
  · subst hx
    simp [refs, addHandle]
    omega
  · simp [refs, addHandle, hx]

theorem refs_dropHandle {b : Owners} {obj : Ptr} (h : 0 < b.handles obj) (x : Ptr) :
    b.refs x = (b.dropHandle obj).refs x + if x = obj then 1 else 0 := by
  by_cases hx : x = obj
  · subst hx
    simp [refs, dropHandle]
    omega
  · simp [refs, dropHandle, hx]

/-- One reference to each object of `es` is given up. -/
theorem accounts_releaseAll {objs : Objects} {refs refs' : Ptr → Nat} (proc : ReleaseProc)
    {es : List Entry} (h : Accounts objs refs) (hnull : ∀ e ∈ es, e.object ≠ NULL)
    (hrefs : ∀ x, refs x = refs' x + (es.map Entry.object).count x) :
    ∃ t, Sequences.releaseAll objectOps proc es objs = some t ∧ Accounts t refs' := by
  induction es generalizing objs refs with
  | nil =>
    obtain rfl : refs = refs' := funext (fun x => by simpa using hrefs x)
    exact ⟨objs, rfl, h⟩
  | cons e es ih =>
    have hone (x : Ptr) : refs x = refs' x + (es.map Entry.object).count x +
        if x = e.object then 1 else 0 := by
      rw [hrefs x, List.map_cons, List.count_cons]
      simp only [beq_iff_eq, eq_comm (a := x)]
      omega
    obtain ⟨m, hm, hcount⟩ := h.release proc (hnull e (by simp)) hone
    obtain ⟨t, ht, hrest⟩ := ih hcount (fun f hf => hnull f (List.mem_cons_of_mem _ hf))
      (fun _ => rfl)
    exact ⟨t, Option.bind_eq_some_iff.mpr ⟨m, hm, ht⟩, hrest⟩

theorem receive_object (b : Owners) {obj : Ptr} (h : obj ≠ NULL) :
    b.receive obj = b.addHandle obj := if_neg h

end Owners

open Owners

structure Books (objs : Objects) (b : Owners) : Prop where
  accounts : Accounts objs b.refs
  sane : b.Sane

theorem books_empty : Books Objects.empty Owners.empty := ⟨accounts_empty, sane_empty⟩

namespace Books

variable {objs : Objects} {b : Owners} {list : Ptr} {p : Entry → Bool}

theorem of_refs_eq {b' : Owners} (h : Books objs b) (hheads : b'.lists.heads = b.lists.heads)
    (hrefs : ∀ x, b'.refs x = b.refs x) : Books objs b' :=
  ⟨by rw [show b'.refs = b.refs from funext hrefs]; exact h.accounts,
    by rw [hheads]; exact h.sane.heads, by rw [hrefs]; exact h.sane.null⟩

/-- `removeFirst` and `remove` turn the reference of a node into a handle. -/
theorem takeFirst (h : Books objs b) (hl : list ∈ b.lists.heads) {s : Sequences ReleaseProc}
    {a : Answer} (ht : Sequences.takeFirst (b.lists, ()) list p = (a, s, ())) :
    ∃ obj, a = .object obj ∧ Sequences.takeFirst (b.lists, objs) list p = (a, s, objs) ∧
      Books objs (receive { b with lists := s } obj) := by
  unfold Sequences.takeFirst at ht ⊢
  cases hfind : (b.lists.entries list).find? p with
  | none =>
    rw [hfind] at ht
    cases ht
    exact ⟨NULL, rfl, rfl, h⟩
  | some e =>
    rw [hfind] at ht
    cases ht
    have hnull : e.object ≠ NULL := h.sane.object_ne_null hl (List.mem_of_find?_eq_some hfind)
    refine ⟨e.object, rfl, rfl, h.of_refs_eq ?_ (fun x => ?_)⟩
    · rw [receive_object _ hnull]
      rfl
    · have hset := nodeRefs_set h.sane.heads hl ((b.lists.entries list).eraseP p) x
      have hcount := count_eraseP hfind x
      rw [receive_object _ hnull, refs_addHandle]
      simp only [refs, Sequences.objects] at hset hcount ⊢
      omega

/-- The `del` family gives the reference of a node up. -/
theorem delFirst (h : Books objs b) (hl : list ∈ b.lists.heads) {s : Sequences ReleaseProc}
    {a : Answer} (ht : Sequences.delFirst anyObjects (b.lists, ()) list p = some (a, s, ())) :
    ∃ objs', Sequences.delFirst objectOps (b.lists, objs) list p = some (a, s, objs') ∧
      Books objs' { b with lists := s } := by
  unfold Sequences.delFirst at ht ⊢
  cases hfind : (b.lists.entries list).find? p with
  | none =>
    rw [hfind] at ht
    cases ht
    exact ⟨objs, rfl, h⟩
  | some e =>
    rw [hfind] at ht
    obtain ⟨proc, hproc, ht⟩ := Option.bind_eq_some_iff.mp ht
    cases ht
    have hnull : e.object ≠ NULL := h.sane.object_ne_null hl (List.mem_of_find?_eq_some hfind)
    have hrefs : ∀ x, b.refs x =
        refs { b with lists := b.lists.set list ((b.lists.entries list).eraseP p) } x +
          if x = e.object then 1 else 0 := by
      intro x
      have hset := nodeRefs_set h.sane.heads hl ((b.lists.entries list).eraseP p) x
      have hcount := count_eraseP hfind x
      simp only [refs, Sequences.objects] at hset hcount ⊢
      omega
    obtain ⟨objs', hrelease, haccounts⟩ := h.accounts.release proc hnull hrefs
    refine ⟨objs', Option.bind_eq_some_iff.mpr ⟨proc, hproc,
      Option.bind_eq_some_iff.mpr ⟨objs', hrelease, rfl⟩⟩, haccounts, h.sane.heads, ?_⟩
    have hzero := h.sane.null
    rw [hrefs] at hzero
    exact (Nat.add_eq_zero_iff.mp hzero).1

theorem clear (h : Books objs b) (hl : list ∈ b.lists.heads) (proc : ReleaseProc) :
    ∃ objs', Sequences.releaseAll objectOps proc (b.lists.entries list) objs = some objs' ∧
      Books objs' { b with lists := b.lists.set list [] } := by
  have hrefs : ∀ x, b.refs x = refs { b with lists := b.lists.set list [] } x +
      ((b.lists.entries list).map Entry.object).count x := by
    intro x
    have hset := nodeRefs_set h.sane.heads hl [] x
    simp only [refs, Sequences.objects, List.map_nil, List.count_nil] at hset ⊢
    omega
  obtain ⟨objs', hrelease, haccounts⟩ := accounts_releaseAll proc h.accounts
    (fun e he => h.sane.object_ne_null hl he) hrefs
  refine ⟨objs', hrelease, haccounts, h.sane.heads, ?_⟩
  have hzero := h.sane.null
  rw [hrefs] at hzero
  omega

theorem add (h : Books objs b) (hl : list ∈ b.lists.heads) {obj : Ptr} (hobj : 0 < b.refs obj)
    (hmax : b.refs obj < INT_MAX.toNat) (node : Ptr) :
    ∃ objs', objs.refInc obj = some objs' ∧ Books objs' { b with
      lists := b.lists.set list (b.lists.entries list ++ [⟨node, obj⟩]) } := by
  have hrefs : ∀ x, refs { b with
        lists := b.lists.set list (b.lists.entries list ++ [⟨node, obj⟩]) } x =
      b.refs x + if x = obj then 1 else 0 := by
    intro x
    have hset := nodeRefs_set h.sane.heads hl (b.lists.entries list ++ [⟨node, obj⟩]) x
    simp only [List.map_append, List.map_cons, List.map_nil, List.count_append,
      List.count_singleton, beq_iff_eq, eq_comm (a := obj)] at hset
    simp only [refs, Sequences.objects] at hset ⊢
    omega
  obtain ⟨objs', hinc, haccounts⟩ := h.accounts.refInc hobj hmax hrefs
  refine ⟨objs', hinc, haccounts, h.sane.heads, ?_⟩
  rw [hrefs, h.sane.null, if_neg]
  intro heq
  subst heq
  have hzero := h.sane.null
  omega

theorem init (h : Books objs b) (hempty : list ∈ b.lists.heads → b.lists.entries list = [])
    (proc : ReleaseProc) : Books objs { b with lists := b.lists.init list proc } := by
  have hrefs : ∀ x, refs { b with lists := b.lists.init list proc } x = b.refs x :=
    fun x => congrArg (b.handles x + ·) (nodeRefs_init hempty proc x)
  refine ⟨?_, h.sane.heads.insert, by rw [hrefs]; exact h.sane.null⟩
  rw [show refs { b with lists := b.lists.init list proc } = b.refs from funext hrefs]
  exact h.accounts

theorem lists_receive (b : Owners) (obj : Ptr) : (b.receive obj).lists = b.lists := by
  unfold receive
  split <;> rfl

/-- A list operation that the owners allow is one that succeeds on the real objects, and
their memory goes on agreeing with the owners. -/
theorem listStep (h : Books objs b) {op : Op ReleaseProc} {a : Answer} {b' : Owners}
    (hstep : Owners.step INT_MAX.toNat b (.list op) = some (a, b')) :
    ∃ objs', Sequences.step objectOps INT_MAX.toNat (b.lists, objs) op =
      some (a, b'.lists, objs') ∧ Books objs' b' := by
  simp only [Owners.step] at hstep
  split at hstep
  case isFalse => cases hstep
  rename_i hpermits
  obtain ⟨⟨a, s, _⟩, hspec, hb⟩ := Option.map_eq_some_iff.mp hstep
  cases hb
  rw [lists_receive]
  cases op with
  | init list proc =>
    simp only [Sequences.step] at hspec ⊢
    obtain ⟨hok, hspec⟩ := Option.ite_none_right_eq_some.mp hspec
    cases hspec
    exact ⟨objs, if_pos hok, h.init hpermits proc⟩
  | add list obj node =>
    simp only [Sequences.step] at hspec ⊢
    obtain ⟨hok, hspec⟩ := Option.ite_none_right_eq_some.mp hspec
    cases hspec
    obtain ⟨objs', hinc, hbooks⟩ := h.add hok.1 hpermits.1 hpermits.2 node
    refine ⟨objs', ?_, hbooks⟩
    rw [if_pos hok]
    exact Option.map_eq_some_iff.mpr ⟨objs', hinc, rfl⟩
  | removeFirst list | remove list equals =>
    simp only [Sequences.step] at hspec ⊢
    obtain ⟨hl, hspec⟩ := Option.ite_none_right_eq_some.mp hspec
    obtain ⟨obj, rfl, hcode, hbooks⟩ := h.takeFirst hl (Option.some.inj hspec)
    exact ⟨objs, by rw [if_pos hl, hcode], hbooks⟩
  | del list obj | del3 list equals =>
    simp only [Sequences.step] at hspec ⊢
    obtain ⟨hl, hspec⟩ := Option.ite_none_right_eq_some.mp hspec
    obtain ⟨objs', hcode, hbooks⟩ := h.delFirst hl hspec
    exact ⟨objs', by rw [if_pos hl]; exact hcode, hbooks⟩
  | del2 list pos =>
    simp only [Sequences.step] at hspec ⊢
    obtain ⟨hok, hspec⟩ := Option.ite_none_right_eq_some.mp hspec
    obtain ⟨objs', hcode, hbooks⟩ := h.delFirst hok.1 hspec
    exact ⟨objs', by rw [if_pos hok]; exact hcode, hbooks⟩
  | clear list =>
    simp only [Sequences.step] at hspec ⊢
    obtain ⟨hl, hspec⟩ := Option.ite_none_right_eq_some.mp hspec
    obtain ⟨proc, hproc, hspec⟩ := Option.bind_eq_some_iff.mp hspec
    obtain ⟨_, _, hspec⟩ := Option.bind_eq_some_iff.mp hspec
    cases hspec
    obtain ⟨objs', hrelease, hbooks⟩ := h.clear hl proc
    refine ⟨objs', ?_, hbooks⟩
    rw [if_pos hl]
    exact Option.bind_eq_some_iff.mpr ⟨proc, hproc,
      Option.bind_eq_some_iff.mpr ⟨objs', hrelease, rfl⟩⟩
  | contains | get | getFirst | getLast | getByIndex | size =>
    simp only [Sequences.step] at hspec ⊢
    obtain ⟨hl, hspec⟩ := Option.ite_none_right_eq_some.mp hspec
    cases hspec
    exact ⟨objs, if_pos hl, h⟩

end Books

/-- The memory behind lists and objects, and who refers to what. -/
structure Owned (s : LinkedList ReleaseProc × Objects) (b : Owners) : Prop where
  represents : Represents s.1 b.lists
  within : b.lists.Within INT_MAX.toNat
  books : Books s.2 b

theorem owned_empty : Owned (empty, Objects.empty) Owners.empty :=
  ⟨represents_empty, by simp [Owners.empty, Sequences.Within, Sequences.empty], books_empty⟩

theorem Owned.of_handles {s : LinkedList ReleaseProc × Objects} {b b' : Owners} (h : Owned s b)
    {objs : Objects} (hlists : b'.lists = b.lists) (haccounts : Accounts objs b'.refs)
    (hnull : b'.refs NULL = 0) : Owned (s.1, objs) b' :=
  ⟨by rw [hlists]; exact h.represents, by rw [hlists]; exact h.within,
    haccounts, by rw [hlists]; exact h.books.sane.heads, hnull⟩

theorem implements_owners {fuel : Nat} (hfuel : INT_MAX.toNat < fuel) :
    Implements (callStep fuel) (Owners.step INT_MAX.toNat) Owned := by
  intro s b call a b' h hstep
  cases call with
  | create obj =>
    simp only [Owners.step] at hstep
    obtain ⟨hok, hstep⟩ := Option.ite_none_right_eq_some.mp hstep
    cases hstep
    have hrefs (x : Ptr) : (b.addHandle obj).refs x = if x = obj then 1 else b.refs x := by
      rw [refs_addHandle]
      split
      · rename_i hx
        rw [hx, hok.2]
      · rfl
    obtain ⟨objs, hcreate, haccounts⟩ := h.books.accounts.create hok.2 hrefs
    refine ⟨_, Option.map_eq_some_iff.mpr ⟨objs, hcreate, rfl⟩, h.of_handles rfl haccounts ?_⟩
    rw [refs_addHandle, h.books.sane.null, if_neg hok.1.symm]
  | addref obj =>
    simp only [Owners.step] at hstep
    obtain ⟨hok, hstep⟩ := Option.ite_none_right_eq_some.mp hstep
    cases hstep
    obtain ⟨objs, hinc, haccounts⟩ := h.books.accounts.refInc hok.1 hok.2
      (refs_addHandle b obj)
    refine ⟨_, Option.map_eq_some_iff.mpr ⟨objs, hinc, rfl⟩, h.of_handles rfl haccounts ?_⟩
    rw [refs_addHandle, h.books.sane.null, if_neg]
    intro heq
    subst heq
    exact Nat.lt_irrefl 0 (h.books.sane.null ▸ hok.1)
  | autorelease proc obj =>
    simp only [Owners.step] at hstep
    split at hstep
    · rename_i hnull
      cases hstep
      refine ⟨s, Option.map_eq_some_iff.mpr ⟨s.2, ?_, rfl⟩, h⟩
      rw [ReleaseProc.release_eq, Objects.autorelease, if_pos hnull]
    · rename_i hnull
      obtain ⟨hheld, hstep⟩ := Option.ite_none_right_eq_some.mp hstep
      cases hstep
      obtain ⟨objs, hrelease, haccounts⟩ := h.books.accounts.release proc hnull
        (refs_dropHandle hheld)
      refine ⟨_, Option.map_eq_some_iff.mpr ⟨objs, hrelease, rfl⟩,
        h.of_handles rfl haccounts ?_⟩
      have hzero := refs_dropHandle hheld NULL
      rw [h.books.sane.null] at hzero
      exact (Nat.add_eq_zero_iff.mp hzero.symm).1
  | list op =>
    obtain ⟨objs, hspec, hbooks⟩ := h.books.listStep hstep
    obtain ⟨t, hcode, hrep, rfl, hwithin⟩ := implements_sequences objectOps
      (Nat.le_refl _) hfuel s (b.lists, s.2) op a _ ⟨h.represents, rfl, h.within⟩ hspec
    exact ⟨t, hcode, hrep, hwithin, hbooks⟩

/-- What holds of the objects when `b` says who refers to them. -/
structure Accounted (s : LinkedList ReleaseProc × Objects) (b : Owners) : Prop where
  represents : Represents s.1 b.lists
  counted : ∀ o refs, s.2.heap.get? o = some refs →
    refs.toInt = (b.handles o + nodeRefs b.lists o : Nat)
  alive : ∀ o, (s.2.heap.get? o).isSome ↔ 0 < b.handles o + nodeRefs b.lists o
  once : s.2.freed.Nodup
  freed : ∀ k, k ∈ s.2.freed ↔ k < s.2.heap.next ∧ ∀ o, ¬ s.2.heap.Live ⟨o, k⟩
  handles : ∀ o, 0 < b.handles o → (s.2.heap.get? o).isSome
  nodes : ∀ l ∈ b.lists.heads, ∀ e ∈ b.lists.entries l, (s.2.heap.get? e.object).isSome

theorem Owned.accounted {s : LinkedList ReleaseProc × Objects} {b : Owners} (h : Owned s b) :
    Accounted s b := by
  have hcounted := h.books.accounts.counted
  have halive : ∀ o, (s.2.heap.get? o).isSome ↔ 0 < b.refs o := by
    intro o
    rw [hcounted o]
    split
    · rename_i hzero
      simp [hzero]
    · rename_i hpos
      simp [Nat.pos_of_ne_zero hpos]
  refine ⟨h.represents, fun o refs hget => ?_, halive, h.books.accounts.once,
    h.books.accounts.freed, fun o ho => (halive o).mpr (Nat.add_pos_left ho _),
    fun l hl e he => (halive _).mpr (Nat.add_pos_right _ ?_)⟩
  · rw [hcounted o] at hget
    obtain ⟨_, hget⟩ := Option.ite_none_left_eq_some.mp hget
    cases hget
    exact toInt_ofNat (Nat.le_trans (h.books.accounts.bound o) (by decide))
  · have hset := nodeRefs_set h.books.sane.heads hl [] e.object
    have hcount : 0 < (b.lists.objects l).count e.object :=
      List.count_pos_iff.mpr (List.mem_map_of_mem he)
    simp only [List.map_nil, List.count_nil] at hset
    omega

/-- As long as nobody refers to an object more than `INT_MAX` times, the count of each
object is the number of the handles and nodes that refer to it, and it is freed when
there are none left: once, and out of reach of all of them. -/
theorem references_accounted {fuel : Nat} (hfuel : INT_MAX.toNat < fuel) {calls : List Call}
    {answers : List Answer} {b : Owners}
    (hcalls : exec (Owners.step INT_MAX.toNat) Owners.empty calls = some (answers, b)) :
    ∃ s, exec (callStep fuel) (empty, Objects.empty) calls = some (answers, s) ∧
      Accounted s b := by
  obtain ⟨s, hrun, howned⟩ := (implements_owners hfuel).exec owned_empty hcalls
  exact ⟨s, hrun, howned.accounted⟩

/-- Two objects, one of them twice in a list, once in another and in two handles. -/
def sharedReferences : List Call :=
  [.list (.init 1 .packet), .list (.init 2 .evtimer), .create 70, .create 80,
    .list (.add 1 70 10), .list (.add 1 80 11), .list (.add 1 70 12), .list (.add 2 70 13),
    .addref 70, .autorelease .packet 80, .list (.removeFirst 1), .list (.clear 1),
    .autorelease .evio 70, .autorelease .packet 70, .list (.del 2 70), .list (.size 2)]

theorem shared_references_accounted : ∃ s b,
    exec (callStep (2 ^ 31)) (empty, Objects.empty) sharedReferences =
      some ([.status 0, .status 0, .object 70, .object 80, .status 0, .status 0, .status 0,
        .status 0, .object 70, .done, .object 70, .done, .done, .done, .status 0, .size 0], s) ∧
      b.handles 70 = 1 ∧ b.handles 80 = 0 ∧ Accounted s b := by
  obtain ⟨s, hrun, haccounted⟩ :=
    @references_accounted (2 ^ 31) (by decide) sharedReferences _ _ rfl
  exact ⟨s, _, hrun, rfl, rfl, haccounted⟩

theorem exec_addrefs {fuel n limit : Nat} {m : LinkedList ReleaseProc} {objs : Objects}
    {b : Owners} {obj : Ptr} {refs : BitVec 32} (hget : objs.heap.get? obj = some refs)
    (hpos : 0 < b.refs obj) (hlimit : b.refs obj + n ≤ limit) :
    ∃ answers objs' b', exec (callStep fuel) (m, objs) (List.replicate n (.addref obj)) =
        some (answers, m, objs') ∧
      exec (Owners.step limit) b (List.replicate n (.addref obj)) = some (answers, b') ∧
      objs'.heap.get? obj = some (refs + BitVec.ofNat 32 n) ∧ b'.refs obj = b.refs obj + n := by
  induction n generalizing objs b refs with
  | zero => exact ⟨[], objs, b, rfl, rfl, by simpa using hget, rfl⟩
  | succ n ih =>
    have hinc : objs.refInc obj = some { objs with heap := objs.heap.modify obj (· + 1) } :=
      Option.map_eq_some_iff.mpr ⟨refs, hget, rfl⟩
    have hone : (b.addHandle obj).refs obj = b.refs obj + 1 := by simp
    obtain ⟨answers, objs', b', hcode, hspec, hget', hrefs⟩ :=
      @ih { objs with heap := objs.heap.modify obj (· + 1) } (b.addHandle obj) (refs + 1)
        (by rw [Heap.get?_modify, if_pos rfl, hget]; rfl) (by omega) (by omega)
    refine ⟨.object obj :: answers, objs', b', ?_, ?_, ?_, by omega⟩
    · exact exec_cons.mpr ⟨_, _, answers, Option.map_eq_some_iff.mpr ⟨_, hinc, rfl⟩, hcode, rfl⟩
    · exact exec_cons.mpr ⟨_, _, answers, if_pos ⟨hpos, by omega⟩, hspec, rfl⟩
    · rw [hget', BitVec.add_assoc, BitVec.ofNat_add, BitVec.add_comm 1]
      rfl

/-- With `2 ^ 31` handles to one object `_refs` has wrapped. -/
theorem refs_wrap : ∃ answers s b,
    exec (callStep 0) (empty, Objects.empty)
      (.create 7 :: List.replicate (2 ^ 31 - 1) (.addref 7)) = some (answers, s) ∧
    exec (Owners.step (2 ^ 31)) Owners.empty
      (.create 7 :: List.replicate (2 ^ 31 - 1) (.addref 7)) = some (answers, b) ∧
    b.refs 7 = 2 ^ 31 ∧ (s.2.heap.get? 7).map BitVec.toInt = some (-2 ^ 31) := by
  have hrefs (x : Ptr) :
      (Owners.empty.addHandle 7).refs x = if x = 7 then 1 else Owners.empty.refs x := by
    rw [refs_addHandle]
    exact Nat.zero_add _
  obtain ⟨objs, hcreate, haccounts⟩ := accounts_empty.create rfl hrefs
  obtain ⟨answers, objs', b, hcode, hspec, hget, hrefs⟩ :=
    @exec_addrefs 0 (2 ^ 31 - 1) (2 ^ 31) empty objs (Owners.empty.addHandle 7) 7 1
      (haccounts.alive (by decide)) (by decide) (by decide)
  refine ⟨.object 7 :: answers, (empty, objs'), b, ?_, ?_, hrefs, by rw [hget]; rfl⟩
  · have hcall : callStep 0 (empty, Objects.empty) (.create 7) = some (.object 7, empty, objs) := by
      rw [callStep, hcreate]
      rfl
    exact exec_cons.mpr ⟨_, _, answers, hcall, hcode, rfl⟩
  · exact exec_cons.mpr ⟨_, _, answers, rfl, hspec, rfl⟩

end Awe.LinkedList
