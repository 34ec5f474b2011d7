import Mathlib.Data.List.Nodup

namespace Cycle

variable {α : Type*}

/-- Following `next` from `a` passes `xs` and reaches `b`, and `prev` leads back. -/
def Seg (next prev : α → Option α) : α → List α → α → Prop
  | a, [], b => next a = some b ∧ prev b = some a
  | a, x :: xs, b => next a = some x ∧ prev x = some a ∧ Seg next prev x xs b

variable {next prev next' prev' : α → Option α}

theorem seg_append {a b y : α} {xs ys : List α} :
    Seg next prev a (xs ++ y :: ys) b ↔ Seg next prev a xs y ∧ Seg next prev y ys b := by
  induction xs generalizing a with
  | nil => simp [Seg, and_assoc]
  | cons x xs ih => simp [Seg, ih, and_assoc]

/-- A segment is read off the links that leave its places and lead back into them. -/
theorem Seg.frame {a b : α} {xs : List α} (h : Seg next prev a xs b)
    (hn : ∀ x ∈ a :: xs, next' x = next x) (hp : ∀ x ∈ b :: xs, prev' x = prev x) :
    Seg next' prev' a xs b := by
  induction xs generalizing a with
  | nil => exact ⟨(hn a (by simp)).trans h.1, (hp b (by simp)).trans h.2⟩
  | cons x xs ih =>
    obtain ⟨hax, hxa, hrest⟩ := h
    refine ⟨(hn a (by simp)).trans hax, (hp x (by simp)).trans hxa, ih hrest ?_ ?_⟩
    · exact fun y hy => hn y (List.mem_cons_of_mem _ hy)
    · intro y hy
      apply hp y
      rcases List.mem_cons.mp hy with rfl | hy <;> simp [*]

/-- The last place before the end of a segment. -/
theorem Seg.prev_end {a b : α} {xs : List α} (h : Seg next prev a xs b) :
    ∃ p, prev b = some p ∧ p ∈ a :: xs ∧ next p = some b := by
  induction xs generalizing a with
  | nil => exact ⟨a, h.2, by simp, h.1⟩
  | cons x xs ih =>
    obtain ⟨p, hp, hm, hb⟩ := ih h.2.2
    exact ⟨p, hp, List.mem_cons_of_mem _ hm, hb⟩

theorem Seg.next_start {a b : α} {xs : List α} (h : Seg next prev a xs b) :
    ∃ s, next a = some s ∧ s ∈ b :: xs ∧ prev s = some a := by
  cases xs with
  | nil => exact ⟨b, h.1, by simp, h.2⟩
  | cons x xs => exact ⟨x, h.1, by simp, h.2.1⟩

theorem Seg.next_eq {a b : α} {xs : List α} (h : Seg next prev a xs b) :
    next a = some (xs.head?.getD b) := by
  cases xs with
  | nil => exact h.1
  | cons x xs => exact h.1

/-- Along a segment the two links are inverse to each other. -/
theorem Seg.inverse {a b : α} {xs : List α} (h : Seg next prev a xs b) :
    ∀ x ∈ a :: xs, ∃ y ∈ b :: xs, next x = some y ∧ prev y = some x := by
  induction xs generalizing a with
  | nil =>
    intro x hx
    obtain rfl := List.mem_singleton.mp hx
    exact ⟨b, by simp, h.1, h.2⟩
  | cons z xs ih =>
    intro x hx
    rcases List.mem_cons.mp hx with rfl | hx
    · exact ⟨z, by simp, h.1, h.2.1⟩
    · obtain ⟨y, hy, hxy⟩ := ih h.2.2 x hx
      exact ⟨y, by rcases List.mem_cons.mp hy with rfl | hy <;> simp [*], hxy⟩

/-- The way back along a segment. -/
theorem Seg.reverse {a b : α} {xs : List α} (h : Seg next prev a xs b) :
    Seg prev next b xs.reverse a := by
  induction xs generalizing a with
  | nil => exact ⟨h.2, h.1⟩
  | cons x xs ih =>
    rw [List.reverse_cons]
    exact seg_append.mpr ⟨ih h.2.2, h.2.1, h.1⟩

/-- The links around the end of a segment rewritten: it now ends at `c`. -/
theorem Seg.redirect {a b c p : α} {xs : List α} (h : Seg next prev a xs b)
    (hnodup : (a :: xs).Nodup) (hpb : prev b = some p) (hnb : b ∉ xs)
    (hn : ∀ x ∈ a :: xs, x ≠ p → next' x = next x) (hp : ∀ x ∈ xs, prev' x = prev x)
    (hpc : next' p = some c) (hcp : prev' c = some p) : Seg next' prev' a xs c := by
  induction xs generalizing a with
  | nil =>
    obtain rfl : a = p := Option.some.inj (h.2.symm.trans hpb)
    exact ⟨hpc, hcp⟩
  | cons x xs ih =>
    obtain ⟨hax, hxa, hrest⟩ := h
    obtain ⟨hnot, hnodup⟩ := List.nodup_cons.mp hnodup
    have hap : a ≠ p := by
      intro heq
      subst heq
      obtain ⟨q, hq, hm, _⟩ := hrest.prev_end
      obtain rfl : q = a := Option.some.inj (hq.symm.trans hpb)
      exact hnot hm
    refine ⟨(hn a (by simp) hap).trans hax, (hp x (by simp)).trans hxa, ih hrest hnodup ?_ ?_ ?_⟩
    · exact fun hm => hnb (List.mem_cons_of_mem _ hm)
    · exact fun y hy => hn y (List.mem_cons_of_mem _ hy)
    · exact fun y hy => hp y (List.mem_cons_of_mem _ hy)

/-- `head` and `xs` in a ring, every place once. -/
def Ring (next prev : α → Option α) (head : α) (xs : List α) : Prop :=
  Seg next prev head xs head ∧ (head :: xs).Nodup

/-- A new place linked in between the last one and the head. -/
theorem Ring.insert_last {head x p : α} {xs : List α} (h : Ring next prev head xs)
    (hx : x ∉ head :: xs) (hp : prev head = some p)
    (hn : ∀ y ∈ head :: xs, y ≠ p → next' y = next y) (hv : ∀ y ∈ xs, prev' y = prev y)
    (hpx : next' p = some x) (hxh : next' x = some head) (hhx : prev' head = some x)
    (hxp : prev' x = some p) : Ring next' prev' head (xs ++ [x]) := by
  obtain ⟨hseg, hnodup⟩ := h
  refine ⟨seg_append.mpr ⟨?_, hxh, hhx⟩, ?_⟩
  · exact hseg.redirect hnodup hp (List.nodup_cons.mp hnodup).1 hn hv hpx hxp
  · have hperm : (head :: (xs ++ [x])).Perm (x :: head :: xs) :=
      List.perm_append_singleton x (head :: xs)
    exact hperm.nodup_iff.mpr (List.nodup_cons.mpr ⟨hx, hnodup⟩)

/-- A ring is one from any of its places. -/
theorem Ring.rotate {head y : α} {front rear : List α}
    (h : Ring next prev head (front ++ y :: rear)) :
    Ring next prev y (rear ++ head :: front) := by
  obtain ⟨hseg, hnodup⟩ := h
  obtain ⟨hfront, hrear⟩ := seg_append.mp hseg
  refine ⟨seg_append.mpr ⟨hrear, hfront⟩, ?_⟩
  have hperm : (head :: front ++ y :: rear).Perm (y :: rear ++ head :: front) :=
    List.perm_append_comm
  exact hperm.nodup_iff.mp hnodup

/-- A new place linked in before `pos`, a place of the ring or its head. -/
theorem Ring.insert {head x p pos : α} {front rear : List α}
    (h : Ring next prev head (front ++ rear)) (hpos : pos = rear.headD head)
    (hx : x ∉ head :: (front ++ rear)) (hp : prev pos = some p)
    (hn : ∀ y ∈ head :: (front ++ rear), y ≠ p → next' y = next y)
    (hv : ∀ y ∈ head :: (front ++ rear), y ≠ pos → prev' y = prev y)
    (hpx : next' p = some x) (hxp : next' x = some pos) (hpos' : prev' pos = some x)
    (hxv : prev' x = some p) : Ring next' prev' head (front ++ x :: rear) := by
  cases rear with
  | nil =>
    subst hpos
    rw [List.append_nil] at h hx hn hv
    refine h.insert_last hx hp hn (fun y hy => hv y (List.mem_cons_of_mem _ hy) ?_) hpx hxp hpos'
      hxv
    intro heq
    subst heq
    exact (List.nodup_cons.mp h.2).1 hy
  | cons y rear =>
    obtain rfl : pos = y := hpos
    have hsame : ∀ z, z ∈ pos :: (rear ++ head :: front) ↔ z ∈ head :: (front ++ pos :: rear) := by
      intro z
      simp only [List.mem_cons, List.mem_append]
      tauto
    -- seen from `pos`, the new place goes to the end
    have hturned : Ring next' prev' pos (rear ++ head :: front ++ [x]) := by
      refine h.rotate.insert_last (fun hm => hx ((hsame x).mp hm)) hp
        (fun z hz => hn z ((hsame z).mp hz)) (fun z hz => ?_) hpx hxp hpos' hxv
      apply hv z ((hsame z).mp (List.mem_cons_of_mem _ hz))
      intro heq
      subst heq
      exact (List.nodup_cons.mp h.rotate.2).1 hz
    rw [List.append_assoc, List.cons_append] at hturned
    simpa using hturned.rotate

/-- A block of places linked in right behind the head. -/
theorem Ring.push {head : α} {xs ys : List α} (h : Ring next prev head xs)
    (hblock : Seg next' prev' head ys (xs.headD head)) (hn : ∀ x ∈ xs, next' x = next x)
    (hv : ∀ x ∈ head :: xs, x ≠ xs.headD head → prev' x = prev x)
    (hnodup : (head :: (ys ++ xs)).Nodup) : Ring next' prev' head (ys ++ xs) := by
  refine ⟨?_, hnodup⟩
  cases xs with
  | nil =>
    rw [List.append_nil]
    exact hblock
  | cons x xs =>
    refine seg_append.mpr ⟨hblock, h.1.2.2.frame hn (fun y hy => ?_)⟩
    have hother : y ≠ x := by
      rintro rfl
      rcases List.mem_cons.mp hy with rfl | hy
      · exact (List.nodup_cons.mp h.2).1 List.mem_cons_self
      · exact (List.nodup_cons.mp (List.nodup_cons.mp h.2).2).1 hy
    apply hv y _ hother
    rcases List.mem_cons.mp hy with rfl | hy <;> simp [*]

/-- The places of one ring, without its head, between two others. -/
theorem Ring.carry {list last first after before : α} {ys : List α}
    (h : Ring next prev list (first :: ys)) (hlast : prev list = some last)
    (hn : ∀ x ∈ first :: ys, x ≠ last → next' x = next x) (hv : ∀ x ∈ ys, prev' x = prev x)
    (hstart : next' before = some first) (hback : prev' first = some before)
    (hend : next' last = some after) (hreturn : prev' after = some last) :
    Seg next' prev' before (first :: ys) after := by
  obtain ⟨hseg, hnodup⟩ := h
  obtain ⟨hout, hnodup⟩ := List.nodup_cons.mp hnodup
  refine ⟨hstart, hback, ?_⟩
  exact hseg.2.2.redirect hnodup hlast (fun hm => hout (List.mem_cons_of_mem _ hm)) hn hv hend
    hreturn

/-- A place unlinked: its neighbours point to each other. -/
theorem Ring.remove {head x p s : α} {front rear : List α}
    (h : Ring next prev head (front ++ x :: rear)) (hp : prev x = some p) (hs : next x = some s)
    (hn : ∀ y ∈ head :: (front ++ rear), y ≠ p → next' y = next y)
    (hv : ∀ y ∈ head :: (front ++ rear), y ≠ s → prev' y = prev y)
    (hps : next' p = some s) (hsp : prev' s = some p) : Ring next' prev' head (front ++ rear) := by
  obtain ⟨hseg, hnodup⟩ := h
  obtain ⟨hfront, hrear⟩ := seg_append.mp hseg
  have hsub : (head :: (front ++ rear)).Sublist (head :: (front ++ x :: rear)) :=
    ((List.sublist_cons_self x rear).append_left front).cons_cons head
  refine ⟨?_, hnodup.sublist hsub⟩
  rw [← List.cons_append] at hnodup
  obtain ⟨hfirst, hrest, hapart⟩ := List.nodup_append.mp hnodup
  have hxfront : x ∉ front := fun hm => hapart x (List.mem_cons_of_mem _ hm) x (by simp) rfl
  obtain ⟨q, hq, hqmem, _⟩ := hfront.prev_end
  obtain rfl : q = p := Option.some.inj (hq.symm.trans hp)
  have hnfront : ∀ y ∈ head :: front, y ≠ q → next' y = next y := by
    intro y hy
    apply hn y
    rcases List.mem_cons.mp hy with rfl | hy <;> simp [*]
  cases rear with
  | nil =>
    obtain rfl : head = s := Option.some.inj (hrear.1.symm.trans hs)
    rw [List.append_nil]
    refine hfront.redirect hfirst hp hxfront hnfront (fun y hy => hv y (by simp [hy]) ?_) hps hsp
    intro heq
    subst heq
    exact (List.nodup_cons.mp hfirst).1 hy
  | cons y rear =>
    obtain rfl : y = s := Option.some.inj (hrear.1.symm.trans hs)
    refine seg_append.mpr ⟨?_, hrear.2.2.frame ?_ ?_⟩
    · refine hfront.redirect hfirst hp hxfront hnfront (fun z hz => hv z (by simp [hz]) ?_) hps hsp
      intro heq
      subst heq
      exact hapart z (by simp [hz]) z (by simp) rfl
    · intro z hz
      apply hn z (List.mem_cons_of_mem _ (List.mem_append_right _ hz))
      intro heq
      subst heq
      exact hapart z hqmem z (List.mem_cons_of_mem _ hz) rfl
    · intro z hz
      apply hv z
      · rcases List.mem_cons.mp hz with rfl | hz <;> simp [*]
      · intro heq
        subst heq
        rcases List.mem_cons.mp hz with rfl | hz
        · exact hapart z (by simp) z (by simp) rfl
        · exact (List.nodup_cons.mp (List.nodup_cons.mp hrest).2).1 hz

end Cycle
