import Awe.LinkedList.Refinement

namespace Awe.LinkedList
open Cycle Transducer

variable {π ω : Type}

/-- A visit to a place of a list, up to the decision whether the place is deleted, and
after that. The list itself is left alone in both. -/
structure Visitor (π ω : Type) where
  look : LinkedList π × ω → Ptr → Ptr → Option (Bool × LinkedList π × ω)
  answer : LinkedList π × ω → Ptr → Ptr → Option (Bool × LinkedList π × ω)

namespace Visitor

/-- The visit as a callback of `awe_linkedlist_forEach`, with `awe_linkedlist_del2`. -/
def callback (v : Visitor π ω) (ops : ObjectOps π ω) (list : Ptr) (s : LinkedList π × ω)
    (pos e : Ptr) : Option (Bool × LinkedList π × ω) := do
  let (delete, s) ← v.look s pos e
  if delete then do
    let (_, s) ← del2 ops s list pos
    v.answer s pos e
  else v.answer s pos e

/-- The visit as the body of a loop over `awe_linkedlist_for`, with
`awe_linkedlist_del_pos`. -/
def body (v : Visitor π ω) (ops : ObjectOps π ω) (list : Ptr) (s : LinkedList π × ω)
    (pos : Ptr) : Option ((LinkedList π × ω) ⊕ (LinkedList π × ω)) := do
  let e ← linkedlistEntry s.1 pos
  let (delete, s) ← v.look s pos e
  let s ← if delete then (del2 ops s list pos).map Prod.snd else some s
  let (more, s) ← v.answer s pos e
  if more then some (.inl s) else some (.inr s)

end Visitor

inductive Event where
  | call (pos e : Ptr)
  | release (e : Ptr)
  | ret (more : Bool)
  deriving DecidableEq

/-- The objects, with the events so far. -/
abbrev Noted (ω : Type) := ω × List Event

def notedOps (ops : ObjectOps π ω) : ObjectOps π (Noted ω) where
  refInc w e := (ops.refInc w.1 e).map (fun objs => (objs, w.2))
  release proc w e := (ops.release proc w.1 e).map (fun objs => (objs, w.2 ++ [.release e]))

def Visitor.noted (v : Visitor π ω) : Visitor π (Noted ω) where
  look s pos e := (v.look (s.1, s.2.1) pos e).map (fun r =>
    (r.1, r.2.1, r.2.2, s.2.2 ++ [.call pos e]))
  answer s pos e := (v.answer (s.1, s.2.1) pos e).map (fun r =>
    (r.1, r.2.1, r.2.2, s.2.2 ++ [.ret r.1]))

structure Visit where
  entry : Entry
  deleted : Bool
  goOn : Bool
  deriving DecidableEq

namespace Visit

/-- The place and the object are handed out, and the reference of the list is released if
the place is deleted. -/
def events (v : Visit) : List Event :=
  .call v.entry.node v.entry.object ::
    ((if v.deleted then [.release v.entry.object] else []) ++ [.ret v.goOn])

def left (v : Visit) : List Entry := if v.deleted then [] else [v.entry]

end Visit

/-- The visits of a loop over `es`, and what they leave of it. -/
structure Filters (es : List Entry) (visits : List Visit) (left : List Entry) : Prop where
  order : visits.map Visit.entry <+: es
  all : (∀ v ∈ visits, v.goOn) → visits.map Visit.entry = es
  stop : ∀ k v, visits[k]? = some v → v.goOn = false → visits.length = k + 1
  left : left = (visits.filter (fun v => !v.deleted)).map Visit.entry ++ es.drop visits.length

namespace Filters

theorem nil : Filters [] [] [] where
  order := List.nil_prefix
  all _ := rfl
  stop k v h := by simp at h
  left := rfl

theorem last {v : Visit} (h : v.goOn = false) (rest : List Entry) :
    Filters (v.entry :: rest) [v] (v.left ++ rest) where
  order := by simp
  all hall := by simp [h] at hall
  stop k u hu _ := by
    have hk := (List.getElem?_eq_some_iff.mp hu).1
    simp at hk
    simp [hk]
  left := by
    unfold Visit.left
    cases hdel : v.deleted <;> simp [hdel]

theorem cons {v : Visit} (h : v.goOn) {rest : List Entry} {visits : List Visit}
    {left : List Entry} (hrest : Filters rest visits left) :
    Filters (v.entry :: rest) (v :: visits) (v.left ++ left) where
  order := by simpa using hrest.order
  all hall := by
    rw [List.map_cons, hrest.all (fun u hu => hall u (List.mem_cons_of_mem _ hu))]
  stop k u hu hstop := by
    cases k with
    | zero =>
      cases hu
      simp [h] at hstop
    | succ k => exact congrArg (· + 1) (hrest.stop k u hu hstop)
  left := by
    rw [hrest.left]
    unfold Visit.left
    cases hdel : v.deleted <;> simp [hdel]

end Filters

/-- What the program promises of its visits, with `inv` for what it keeps of the lists and
the objects: the list stays as it is, and the reference to what is deleted can be released. -/
structure Keeps (ops : ObjectOps π ω) (v : Visitor π ω) (list : Ptr) (proc : π)
    (inv : Sequences π → ω → Prop) : Prop where
  listed : ∀ s objs, inv s objs → list ∈ s.heads ∧ s.proc list = some proc
  look : ∀ m s objs front e rear, Represents m s → inv s objs →
    s.entries list = front ++ e :: rear → ∃ delete m' s' objs',
      v.look (m, objs) e.node e.object = some (delete, m', objs') ∧ Represents m' s' ∧
      s'.entries list = s.entries list ∧ (delete = false → inv s' objs') ∧
      (delete = true → ∃ objs'', ops.release proc objs' e.object = some objs'' ∧
        inv (s'.set list (front ++ rear)) objs'')
  answer : ∀ m s objs pos e, Represents m s → inv s objs →
    ∃ more m' s' objs', v.answer (m, objs) pos e = some (more, m', objs') ∧
      Represents m' s' ∧ inv s' objs' ∧ s'.entries list = s.entries list

section

variable {ops : ObjectOps π ω} {v : Visitor π ω} {list : Ptr} {proc : π}
  {inv : Sequences π → ω → Prop} {m : LinkedList π} {s : Sequences π} {objs : ω}

/-- What one visit does. -/
theorem Keeps.callback (hk : Keeps ops v list proc inv) (h : Represents m s) (hinv : inv s objs)
    {front rear : List Entry} {e : Entry} (hsplit : s.entries list = front ++ e :: rear)
    (events : List Event) :
    ∃ (visit : Visit) (m' : LinkedList π) (s' : Sequences π) (objs' : ω), visit.entry = e ∧
      v.noted.callback (notedOps ops) list (m, objs, events) e.node e.object =
        some (visit.goOn, m', objs', events ++ visit.events) ∧
      Represents m' s' ∧ inv s' objs' ∧ s'.entries list = front ++ (visit.left ++ rear) := by
  obtain ⟨delete, m1, s1, objs1, hlook, h1, hentries, hleave, hdelete⟩ :=
    hk.look m s objs front e rear h hinv hsplit
  cases delete with
  | false =>
    obtain ⟨more, m2, s2, objs2, hanswer, h2, hinv2, hentries2⟩ :=
      hk.answer m1 s1 objs1 e.node e.object h1 (hleave rfl)
    refine ⟨⟨e, false, more⟩, m2, s2, objs2, rfl, ?_, h2, hinv2, ?_⟩
    · simp [Visitor.callback, Visitor.noted, hlook, hanswer, Visit.events]
    · rw [hentries2, hentries, hsplit]
      rfl
  | true =>
    obtain ⟨objs2, hrelease, hinv2⟩ := hdelete rfl
    obtain ⟨hl, hproc⟩ := hk.listed _ objs2 hinv2
    have hnoted : (notedOps ops).release proc (objs1, events ++ [.call e.node e.object]) e.object =
        some (objs2, events ++ [.call e.node e.object] ++ [.release e.object]) := by
      simp [notedOps, hrelease]
    obtain ⟨m2, hdel, h2⟩ := h1.delFromList hl (hentries.trans hsplit) hproc hnoted
    obtain ⟨more, m3, s3, objs3, hanswer, h3, hinv3, hentries3⟩ :=
      hk.answer m2 _ objs2 e.node e.object h2 hinv2
    refine ⟨⟨e, true, more⟩, m3, s3, objs3, rfl, ?_, h3, hinv3, ?_⟩
    · simp only [Visitor.callback, Visitor.noted, hlook, hanswer, Option.map_some,
        Option.bind_eq_bind, Option.bind_some, if_true, del2, hdel]
      simp [Visit.events]
    · rw [hentries3, Sequences.set_entries_same]
      rfl

/-- The two forms of the loop are one. -/
theorem linkedlistFor_body (v : Visitor π ω) (ops : ObjectOps π ω) (fuel : Nat)
    (x : LinkedList π × ω) (list : Ptr) :
    linkedlistFor fuel x list (v.body ops list) =
      linkedlistForEach fuel x list (v.callback ops list) := by
  have hbody : v.body ops list = callBack (v.callback ops list) := by
    funext s pos
    unfold Visitor.body callBack Visitor.callback linkedlistEntry
    cases s.1.object pos with
    | none => rfl
    | some e =>
      cases hlook : v.look s pos e with
      | none => simp [hlook]
      | some r =>
        obtain ⟨delete, x⟩ := r
        cases delete with
        | false => simp [hlook]
        | true => cases hdel : del2 ops x list pos <;> simp [hlook, hdel]
  rw [linkedlistFor, linkedlistForEach, hbody]

/-- The loop from the first node of `rest` on. The successor it has saved is the first node
behind the one that is visited, which no visit takes away. -/
theorem Keeps.loop (hk : Keeps ops v list proc inv) {kept rest : List Entry} {fuel : Nat}
    (h : Represents m s) (hinv : inv s objs) (hsplit : s.entries list = kept ++ rest)
    (hfuel : rest.length < fuel) (events : List Event) :
    ∃ n visits m' s' objs' left r, m.next ((rest.map Entry.node).head?.getD list) = some n ∧
      forEachSafeLoop (fun s => next s.1) (callBack (v.noted.callback (notedOps ops) list))
        list fuel (m, objs, events) ((rest.map Entry.node).head?.getD list) n = some r ∧
      (r = .inl (m', objs', events ++ visits.flatMap Visit.events) ∨
        r = .inr (m', objs', events ++ visits.flatMap Visit.events)) ∧
      Represents m' s' ∧ inv s' objs' ∧ Filters rest visits left ∧
      s'.entries list = kept ++ left := by
  induction rest generalizing m s objs kept fuel events with
  | nil =>
    obtain ⟨fuel, rfl⟩ := Nat.exists_eq_succ_of_ne_zero (Nat.ne_of_gt hfuel)
    obtain ⟨hl, _⟩ := hk.listed s objs hinv
    refine ⟨_, [], m, s, objs, [], _, h.next_head hl, ?_, Or.inl rfl, h, hinv, Filters.nil, hsplit⟩
    simp [forEachSafeLoop]
  | cons e rest ih =>
    obtain ⟨fuel, rfl⟩ := Nat.exists_eq_succ_of_ne_zero (Nat.ne_of_gt (Nat.zero_lt_of_lt hfuel))
    obtain ⟨hl, _⟩ := hk.listed s objs hinv
    have hmem : e ∈ s.entries list := by simp [hsplit]
    have hne : e.node ≠ list := by
      intro he
      exact (h.apart list hl e.node (List.mem_map_of_mem hmem)).1 (he ▸ hl)
    have hobject : m.object e.node = some e.object := h.object list hl e hmem
    have hsaved := h.next_of_split hl hsplit
    obtain ⟨visit, m1, s1, objs1, rfl, hcall, h1, hinv1, hentries⟩ :=
      hk.callback h hinv hsplit events
    cases hmore : visit.goOn with
    | false =>
      refine ⟨_, [visit], m1, s1, objs1, visit.left ++ rest, .inr _, hsaved, ?_, Or.inr rfl, h1,
        hinv1, Filters.last hmore rest, hentries⟩
      simp [forEachSafeLoop, callBack, hne, hobject, hcall, hmore]
    | true =>
      obtain ⟨n, visits, m2, s2, objs2, left, r, hn, hloop, hr, h2, hinv2, hfilters, hleft⟩ :=
        ih h1 hinv1 (hentries.trans (List.append_assoc ..).symm) (Nat.lt_of_succ_lt_succ hfuel)
          (events ++ visit.events)
      refine ⟨_, visit :: visits, m2, s2, objs2, visit.left ++ left, r, hsaved, ?_, ?_, h2, hinv2,
        Filters.cons hmore hfilters, hleft.trans (List.append_assoc ..)⟩
      · have hbody : callBack (v.noted.callback (notedOps ops) list) (m, objs, events)
            visit.entry.node = some (.inl (m1, objs1, events ++ visit.events)) := by
          simp [callBack, hobject, hcall, hmore]
        change forEachSafeLoop _ _ list (fuel + 1) _ visit.entry.node _ = some r
        rw [forEachSafeLoop, if_neg hne, hbody]
        simp only [Option.bind_eq_bind, Option.bind_some, hn, hloop]
      · rwa [List.flatMap_cons, ← List.append_assoc]

theorem Keeps.forEach (hk : Keeps ops v list proc inv) (h : Represents m s) (hinv : inv s objs)
    {fuel : Nat} (hfuel : (s.entries list).length < fuel) :
    ∃ visits m' s' objs', linkedlistForEach fuel (m, objs, []) list
        (v.noted.callback (notedOps ops) list) = some (m', objs', visits.flatMap Visit.events) ∧
      Represents m' s' ∧ inv s' objs' ∧ Filters (s.entries list) visits (s'.entries list) := by
  obtain ⟨hl, _⟩ := hk.listed s objs hinv
  obtain ⟨n, visits, m', s', objs', left, r, hn, hloop, hr, h', hinv', hfilters, hleft⟩ :=
    hk.loop h hinv (List.nil_append (s.entries list)).symm hfuel []
  have hpos : m.next list = some (((s.entries list).map Entry.node).head?.getD list) :=
    h.next_head hl
  have hsafe : forEachSafe fuel (fun s => next s.1) list (m, objs, [])
      (callBack (v.noted.callback (notedOps ops) list)) = some r := by
    simp only [forEachSafe, hpos, hn, hloop, Option.bind_eq_bind, Option.bind_some]
  refine ⟨visits, m', s', objs', ?_, h', hinv', hleft ▸ hfilters⟩
  rw [linkedlistForEach, hsafe]
  rcases hr with rfl | rfl <;> rfl

end

section

def forget (x : LinkedList π × Noted ω) : LinkedList π × ω := (x.1, x.2.1)

theorem forEachSafeLoop_map {σ τ ρ κ : Type} {next : σ → Ptr → Option Ptr}
    {next' : τ → Ptr → Option Ptr} {body : σ → Ptr → Option (σ ⊕ ρ)}
    {body' : τ → Ptr → Option (τ ⊕ κ)} {f : σ → τ} {g : ρ → κ} {head : Ptr}
    (hnext : ∀ x p, next' (f x) p = next x p)
    (hbody : ∀ x p, body' (f x) p = (body x p).map (Sum.map f g)) (fuel : Nat) (x : σ)
    (pos n : Ptr) : forEachSafeLoop next' body' head fuel (f x) pos n =
      (forEachSafeLoop next body head fuel x pos n).map (Sum.map f g) := by
  induction fuel generalizing x pos n with
  | zero => rfl
  | succ fuel ih =>
    unfold forEachSafeLoop
    by_cases hend : pos = head
    · rw [if_pos hend, if_pos hend]
      rfl
    · rw [if_neg hend, if_neg hend, hbody]
      cases body x pos with
      | none => rfl
      | some r =>
        cases r with
        | inl y =>
          simp only [Option.map_some, Sum.map_inl, Option.bind_eq_bind, Option.bind_some, hnext]
          cases next y n with
          | none => rfl
          | some q => exact ih y n q
        | inr r => rfl

variable {ops : ObjectOps π ω} {v : Visitor π ω} {list : Ptr}

theorem del2_noted (x : LinkedList π × Noted ω) (pos : Ptr) :
    (del2 (notedOps ops) x list pos).map (fun r => (r.1, forget r.2)) =
      del2 ops (forget x) list pos := by
  obtain ⟨m, objs, events⟩ := x
  simp only [del2, delFromList, forget, notedOps, Option.bind_eq_bind]
  cases m.listDel pos with
  | none => rfl
  | some m =>
    simp only [Option.bind_some]
    cases m.setSize list (· - 1) with
    | none => rfl
    | some m =>
      simp only [Option.bind_some]
      cases m.lists list with
      | none => rfl
      | some header =>
        simp only [Option.bind_some]
        cases m.object pos with
        | none => rfl
        | some o => cases hrelease : ops.release header.releaseProc objs o <;> simp [hrelease]

theorem callback_noted (x : LinkedList π × Noted ω) (pos e : Ptr) :
    (v.noted.callback (notedOps ops) list x pos e).map (fun r => (r.1, forget r.2)) =
      v.callback ops list (forget x) pos e := by
  have hanswer : ∀ (x : LinkedList π × Noted ω), (v.noted.answer x pos e).map
      (fun r => (r.1, forget r.2)) = v.answer (forget x) pos e := by
    intro x
    simp only [Visitor.noted, forget]
    cases v.answer (x.1, x.2.1) pos e <;> rfl
  unfold Visitor.callback
  have hlook : (v.noted.look x pos e).map (fun r => (r.1, forget r.2)) =
      v.look (forget x) pos e := by
    simp only [Visitor.noted, forget]
    cases v.look (x.1, x.2.1) pos e <;> rfl
  rw [← hlook]
  cases v.noted.look x pos e with
  | none => rfl
  | some r =>
    obtain ⟨delete, y⟩ := r
    cases delete with
    | false => exact hanswer y
    | true =>
      simp only [Option.map_some, Option.bind_eq_bind, Option.bind_some, if_true, ← del2_noted]
      cases del2 (notedOps ops) y list pos with
      | none => rfl
      | some r => exact hanswer r.2

theorem forEach_noted (fuel : Nat) (x : LinkedList π × Noted ω) :
    (linkedlistForEach fuel x list (v.noted.callback (notedOps ops) list)).map forget =
      linkedlistForEach fuel (forget x) list (v.callback ops list) := by
  have hbody : ∀ (x : LinkedList π × Noted ω) (pos : Ptr),
      callBack (v.callback ops list) (forget x) pos =
        (callBack (v.noted.callback (notedOps ops) list) x pos).map (Sum.map forget forget) := by
    intro x pos
    unfold callBack
    change ((x.1.object pos).bind _) = _
    cases x.1.object pos with
    | none => rfl
    | some obj =>
      simp only [Option.bind_some, Option.bind_eq_bind, ← callback_noted]
      cases v.noted.callback (notedOps ops) list x pos obj with
      | none => rfl
      | some r => cases hmore : r.1 <;> simp [hmore]
  have hsafe : forEachSafe fuel (fun s => next s.1) list (forget x)
      (callBack (v.callback ops list)) = (forEachSafe fuel (fun s => next s.1) list x
        (callBack (v.noted.callback (notedOps ops) list))).map (Sum.map forget forget) := by
    have hnext : ∀ p, next (forget x).1 p = next x.1 p := fun p => rfl
    simp only [forEachSafe, hnext, Option.bind_eq_bind]
    cases next x.1 list with
    | none => rfl
    | some pos =>
      simp only [Option.bind_some]
      cases next x.1 pos with
      | none => rfl
      | some n => exact forEachSafeLoop_map (fun _ _ => rfl) hbody fuel x pos n
  rw [linkedlistForEach, linkedlistForEach, hsafe]
  cases forEachSafe fuel (fun s => next s.1) list x
      (callBack (v.noted.callback (notedOps ops) list)) with
  | none => rfl
  | some r => cases r <;> rfl

end

/-- The loop in both its forms, with what there is to note of it. -/
structure Iterates (fuel : Nat) (ops : ObjectOps π ω) (v : Visitor π ω) (list : Ptr)
    (x : LinkedList π × ω) (events : List Event) (y : LinkedList π × ω) : Prop where
  forEach : linkedlistForEach fuel x list (v.callback ops list) = some y
  forMacro : linkedlistFor fuel x list (v.body ops list) = some y
  forEachNoted : linkedlistForEach fuel (x.1, x.2, []) list
    (v.noted.callback (notedOps ops) list) = some (y.1, y.2, events)
  forMacroNoted : linkedlistFor fuel (x.1, x.2, []) list
    (v.noted.body (notedOps ops) list) = some (y.1, y.2, events)

theorem Iterates.of_noted {fuel : Nat} {ops : ObjectOps π ω} {v : Visitor π ω} {list : Ptr}
    {x y : LinkedList π × ω} {events : List Event}
    (h : linkedlistForEach fuel (x.1, x.2, []) list (v.noted.callback (notedOps ops) list) =
      some (y.1, y.2, events)) : Iterates fuel ops v list x events y := by
  have hrun : linkedlistForEach fuel x list (v.callback ops list) = some y := by
    have hforget := @forEach_noted _ _ ops v list fuel (x.1, x.2, [])
    rw [h] at hforget
    exact hforget.symm
  exact ⟨hrun, (linkedlistFor_body ..).trans hrun, h, (linkedlistFor_body ..).trans h⟩

structure Remains (es : List Entry) (visits : List Visit) (m : LinkedList π) (list : Ptr)
    (s : Sequences π) : Prop where
  represents : Represents m s
  filters : Filters es visits (s.entries list)
  distinct : (visits.map (fun v => v.entry.node)).Nodup
  size : (s.entries list).length ≤ INT_MAX.toNat →
    (m.size list).map BitVec.toInt = some ((s.entries list).length : Int)

/-- A loop whose visits delete nothing but the place they are at goes through the list once,
takes out what is deleted, and releases the references to that and to nothing else. -/
theorem forEach_filters (ops : ObjectOps π ω) (v : Visitor π ω) (list : Ptr) (proc : π)
    (inv : Sequences π → ω → Prop) (hk : Keeps ops v list proc inv) (m : LinkedList π)
    (s : Sequences π) (objs : ω) (h : Represents m s) (hinv : inv s objs) (fuel : Nat)
    (hfuel : (s.entries list).length < fuel) :
    ∃ visits m' s' objs', Iterates fuel ops v list (m, objs) (visits.flatMap Visit.events)
        (m', objs') ∧ inv s' objs' ∧ Remains (s.entries list) visits m' list s' := by
  obtain ⟨visits, m', s', objs', hrun, h', hinv', hfilters⟩ := hk.forEach h hinv hfuel
  obtain ⟨hl, _⟩ := hk.listed s objs hinv
  obtain ⟨hl', _⟩ := hk.listed s' objs' hinv'
  have hnodes : ((s.entries list).map Entry.node).Nodup := (List.nodup_cons.mp (h.ring list hl).2).2
  refine ⟨visits, m', s', objs', Iterates.of_noted hrun, hinv', h', hfilters, ?_, ?_⟩
  · have hprefix := hfilters.order.map Entry.node
    rw [List.map_map] at hprefix
    exact hprefix.sublist.nodup hnodes
  · intro hfits
    rw [h'.size hl', Option.map_some, toInt_ofNat hfits]

def plainVisitor (deletes stops : Ptr → Bool) : Visitor Unit Unit where
  look s _ e := some (deletes e, s)
  answer s _ e := some (!stops e, s)

theorem keeps_plain {deletes stops : Ptr → Bool} {list : Ptr} {p : List Entry → Prop}
    (hp : ∀ front e rear, deletes e.object → p (front ++ e :: rear) → p (front ++ rear)) :
    Keeps plainObjects (plainVisitor deletes stops) list ()
      (fun s _ => list ∈ s.heads ∧ s.proc list = some () ∧ p (s.entries list)) where
  listed s _ h := ⟨h.1, h.2.1⟩
  look m s objs front e rear h hinv hsplit := by
    refine ⟨deletes e.object, m, s, (), rfl, h, rfl, fun _ => hinv, fun hdel => ⟨(), rfl, ?_⟩⟩
    refine ⟨hinv.1, hinv.2.1, ?_⟩
    rw [Sequences.set_entries_same]
    exact hp front e rear hdel (hsplit ▸ hinv.2.2)
  answer m s objs pos e h hinv := ⟨!stops e, m, s, (), rfl, h, hinv, rfl⟩

/-- One object three times in a list, with two others between. -/
def mixedList : List (Op Unit) :=
  [.init 1 (), .add 1 70 10, .add 1 80 11, .add 1 70 12, .add 1 90 13, .add 1 70 14]

theorem mixed_list_filtered : ∃ answers m visits m', ∃ s s' : Sequences Unit,
    exec (step (2 ^ 31) plainObjects) (empty, ()) mixedList = some (answers, m, ()) ∧
    Represents m s ∧
    Iterates 6 plainObjects (plainVisitor (fun e => e = 70) (fun e => e = 90)) 1 (m, ())
      (visits.flatMap Visit.events) (m', ()) ∧
    visits.flatMap Visit.events = [.call 10 70, .release 70, .ret true, .call 11 80, .ret true,
      .call 12 70, .release 70, .ret true, .call 13 90, .ret false] ∧
    Remains (s.entries 1) visits m' 1 s' := by
  have himplements :=
    @implements_sequences Unit Unit plainObjects INT_MAX.toNat (2 ^ 31) (by decide) (by decide)
  have hwithin : (Sequences.empty : Sequences Unit).Within INT_MAX.toNat := fun l hl => by cases hl
  have hspec : exec (Sequences.step plainObjects INT_MAX.toNat) (Sequences.empty, ()) mixedList =
      some (_, _, ()) := rfl
  obtain ⟨⟨m, _⟩, hrun, h, rfl, _⟩ :=
    himplements.exec (s := (empty, ())) ⟨represents_empty, rfl, hwithin⟩ hspec
  have hkeeps : Keeps plainObjects (plainVisitor (fun e => e = 70) (fun e => e = 90)) 1 ()
      (fun s _ => 1 ∈ s.heads ∧ s.proc 1 = some () ∧ True) :=
    keeps_plain (p := fun _ => True) (fun _ _ _ _ _ => trivial)
  obtain ⟨visits, m', s', _, hiterates, _, hremains⟩ :=
    forEach_filters _ _ _ _ _ hkeeps m _ () h ⟨by decide, rfl, trivial⟩ 6 (by decide)
  refine ⟨_, m, visits, m', _, s', hrun, h, hiterates, ?_, hremains⟩
  cases hrun
  have hevents := congrArg (Option.map (fun x => x.2.2)) hiterates.forEachNoted
  exact (Option.some.inj hevents).symm.trans rfl

/-- With `2 ^ 31` nodes that are all left alone, `_size` is not their number. -/
theorem long_list_filtered : ∃ answers m s m' s',
    exec (step 0 plainObjects) (empty, ()) (.init 1 () :: adds 2 (2 ^ 31)) =
      some (answers, m, ()) ∧ Represents m s ∧
    linkedlistForEach (2 ^ 31 + 1) (m, ()) 1
      ((plainVisitor (fun _ => false) (fun _ => false)).callback plainObjects 1) = some (m', ()) ∧
    Represents m' s' ∧ s'.entries 1 = s.entries 1 ∧ (s'.entries 1).length = 2 ^ 31 ∧
    (m'.size 1).map BitVec.toInt = some (-2 ^ 31) := by
  obtain ⟨answers, m, s, hrun, h, hl, hlen⟩ := exec_long_list
  obtain ⟨proc, hproc, _⟩ := h.header 1 hl
  have hfuel : (s.entries 1).length < 2 ^ 31 + 1 := by
    rw [hlen]
    exact Nat.lt_succ_self _
  have hkeeps : Keeps plainObjects (plainVisitor (fun _ => false) (fun _ => false)) 1 ()
      (fun t _ => 1 ∈ t.heads ∧ t.proc 1 = some () ∧ t.entries 1 = s.entries 1) :=
    keeps_plain (p := (· = s.entries 1)) (fun _ _ _ hdel => by cases hdel)
  obtain ⟨visits, m', s', _, hforEach, h', hinv, _⟩ :=
    hkeeps.forEach h ⟨hl, hproc, rfl⟩ hfuel
  refine ⟨answers, m, s, m', s', hrun, h, (Iterates.of_noted hforEach).forEach, h', hinv.2.2, ?_,
    ?_⟩
  · rw [hinv.2.2, hlen]
  · rw [h'.size hinv.1, hinv.2.2, hlen]
    rfl

end Awe.LinkedList
