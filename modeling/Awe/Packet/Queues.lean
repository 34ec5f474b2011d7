import Awe.Packet.Memory

namespace Awe.PacketQueues
open LinkedList Transducer

/-- A window upon a block, as the packet that has it shows it. -/
structure Parcel where
  base : Ptr
  offset : Int
  size : Int
  dts : BitVec 32

/-- The data behind a `_data`: the packet that has it, or `NULL` once it is the program's,
and whether it goes with that packet. -/
structure Block where
  bytes : List UInt8
  packet : Ptr
  owned : Bool

/-- What packets are for: each is a window upon bytes, for as long as anyone refers to it. -/
structure Pool where
  owners : Owners
  packets : Ptr → Option Parcel
  blocks : Ptr → Option Block

def keeps (alive : Ptr → Bool) (packets : Ptr → Option Parcel) (a : Ptr) : Option Parcel :=
  if alive a then packets a else none

/-- The packets that are gone take their data along, unless that is unfreed. -/
def leaves (alive : Ptr → Bool) (blocks : Ptr → Option Block) (d : Ptr) : Option Block :=
  match blocks d with
  | none => none
  | some b =>
    if b.packet = NULL ∨ alive b.packet then some b
    else if b.owned then none else some { b with packet := NULL }

namespace Pool

def empty : Pool := ⟨Owners.empty, fun _ => none, fun _ => none⟩

def settle (pool : Pool) (owners : Owners) : Pool where
  owners := owners
  packets := keeps (fun a => decide (0 < owners.refs a)) pool.packets
  blocks := leaves (fun a => decide (0 < owners.refs a)) pool.blocks

def setPacket (pool : Pool) (packet : Ptr) (p : Parcel) : Pool :=
  { pool with packets := Function.update pool.packets packet (some p) }

def setBlock (pool : Pool) (data : Ptr) (b : Option Block) : Pool :=
  { pool with blocks := Function.update pool.blocks data b }

/-- The calls that share packets: their lists and handles release them as packets. -/
def Shares : LinkedList.Call → Bool
  | .create _ => false
  | .addref _ => true
  | .autorelease proc _ => decide (proc = .packet)
  | .list (.init _ proc) => decide (proc = .packet)
  | .list _ => true

def asked (p : Parcel) : Packet.Op → Int × Int
  | .setrange offset size => (offset.toInt, size.toInt)
  | .setrange2 offset size => (p.offset + offset.toInt, size.toInt)
  | .setrange3 offset size => (offset.toInt, p.size + size.toInt)

def splice (bytes : List UInt8) (off : Nat) (data : List UInt8) : List UInt8 :=
  bytes.take off ++ data ++ bytes.drop (off + data.length)

/-- The calls on bytes. Not allowed for: calls on packets that nobody refers to, windows
that leave the data, accesses outside the window, and a block that is not the program's. -/
def step (limit : Nat) (pool : Pool) : Call → Option (Reply × Pool)
  | .create packet data capacity =>
    if 0 < capacity.toInt ∧ capacity.toInt ≤ INT_MAX - 32 ∧ data ≠ NULL ∧
        (pool.blocks data).isNone then
      (Owners.step limit pool.owners (.create packet)).map (fun r => (.shared r.1,
        { owners := r.2
          packets := Function.update pool.packets packet (some ⟨data, 0, capacity.toInt, 0⟩)
          blocks := Function.update pool.blocks data
            (some ⟨List.replicate capacity.toInt.toNat 0, packet, true⟩) }))
    else none
  | .share call =>
    if Shares call then
      (Owners.step limit pool.owners call).map (fun r => (.shared r.1, pool.settle r.2))
    else none
  | .setrange packet op => do
    let p ← pool.packets packet
    let b ← pool.blocks p.base
    let w := asked p op
    if 0 ≤ w.1 ∧ 0 ≤ w.2 ∧ w.1 + w.2 ≤ b.bytes.length then
      some (.done, pool.setPacket packet { p with offset := w.1, size := w.2 })
    else none
  | .setdts packet dts => do
    let p ← pool.packets packet
    some (.done, pool.setPacket packet { p with dts := dts })
  | .unfreeData packet u => do
    let p ← pool.packets packet
    let b ← pool.blocks p.base
    some (.done, pool.setBlock p.base (some { b with owned := !u }))
  | .fields packet => do
    let p ← pool.packets packet
    let b ← pool.blocks p.base
    some (.fields p.base p.offset p.size b.bytes.length p.dts, pool)
  | .load packet off n => do
    let p ← pool.packets packet
    let b ← pool.blocks p.base
    if (off + n : Nat) ≤ p.size then
      some (.bytes ((b.bytes.drop (p.offset.toNat + off)).take n), pool)
    else none
  | .store packet off bytes => do
    let p ← pool.packets packet
    let b ← pool.blocks p.base
    if (off + bytes.length : Nat) ≤ p.size then
      some (.done, pool.setBlock p.base
        (some { b with bytes := splice b.bytes (p.offset.toNat + off) bytes }))
    else none
  | .loadBlock data off n => do
    let b ← pool.blocks data
    if b.packet = NULL ∧ off + n ≤ b.bytes.length then
      some (.bytes ((b.bytes.drop off).take n), pool)
    else none
  | .freeBlock data => do
    let b ← pool.blocks data
    if b.packet = NULL then some (.done, pool.setBlock data none) else none

end Pool

def parcel (r : PacketObj) : Parcel := ⟨r.data, r.rangeOffset, r.rangeLength, r.dts⟩

/-- The window of a packet is one of its data. -/
structure Inside (r : PacketObj) : Prop where
  offset : 0 ≤ r.rangeOffset
  size : 0 ≤ r.rangeLength
  bound : r.rangeOffset + r.rangeLength ≤ r.capacity
  fits : r.capacity ≤ INT_MAX

structure Kept (s : Packets) (packets : Ptr → Option Parcel) (blocks : Ptr → Option Block) :
    Prop where
  parcels : ∀ a, (s.heap.get? a).map parcel = packets a
  memory : ∀ d, (s.blocks.get? d).map Storage.contents = (blocks d).map Block.bytes
  backed : ∀ a r, s.heap.get? a = some r → ∃ b, blocks r.data = some b ∧ b.packet = a ∧
    b.owned = r.ownsData ∧ r.capacity = b.bytes.length
  inside : ∀ a r, s.heap.get? a = some r → Inside r
  used : ∀ d b, blocks d = some b → b.packet ≠ NULL →
    ∃ r, s.heap.get? b.packet = some r ∧ r.data = d
  unfreed : ∀ d b, blocks d = some b → b.packet = NULL → b.owned = false
  null : blocks NULL = none
  nowhere : s.heap.get? NULL = none
  logged : s.blocks.Logged [] s.dataFreed
  distinct : s.blocks.Distinct

theorem kept_empty : Kept Packets.empty Pool.empty.packets Pool.empty.blocks where
  parcels _ := rfl
  memory _ := rfl
  backed a r h := by cases h
  inside a r h := by cases h
  used d b h := by cases h
  unfreed d b h := by cases h
  null := rfl
  nowhere := rfl
  logged := Heap.logged_empty
  distinct := Heap.distinct_empty

namespace Kept

variable {s : Packets} {packets packets' : Ptr → Option Parcel} {blocks : Ptr → Option Block}
  {a d : Ptr} {r : PacketObj} {b : Block}

theorem not_null (h : Kept s packets blocks) (ha : s.heap.get? a = some r) : a ≠ NULL := by
  rintro rfl
  rw [h.nowhere] at ha
  cases ha

/-- What a packet alive shows, and the data behind it. -/
theorem of_parcel (h : Kept s packets blocks) {p : Parcel} (hp : packets a = some p) :
    ∃ r m, s.heap.get? a = some r ∧ parcel r = p ∧ s.blocks.get? r.data = some m ∧
      ∃ b, blocks p.base = some b ∧ m.contents = b.bytes ∧ b.packet = a ∧
        r.capacity = b.bytes.length ∧ b.owned = r.ownsData := by
  have hparcel := h.parcels a
  rw [hp] at hparcel
  obtain ⟨r, hr, rfl⟩ := Option.map_eq_some_iff.mp hparcel
  obtain ⟨b, hb, hpacket, howned, hcapacity⟩ := h.backed a r hr
  have hmemory := h.memory r.data
  rw [hb] at hmemory
  obtain ⟨m, hm, hcontents⟩ := Option.map_eq_some_iff.mp hmemory
  exact ⟨r, m, hr, rfl, hm, b, hb, hcontents, hpacket, hcapacity, howned⟩

/-- A write to a packet that leaves its data alone. -/
theorem write (h : Kept s packets blocks) (ha : s.heap.get? a = some r)
    {f : PacketObj → PacketObj} (hdata : (f r).data = r.data)
    (howns : (f r).ownsData = r.ownsData) (hcapacity : (f r).capacity = r.capacity)
    (hinside : Inside (f r))
    (hpackets : ∀ x, packets' x = if x = a then some (parcel (f r)) else packets x) :
    Kept (s.modify a f) packets' blocks := by
  have hget : ∀ x, (s.modify a f).heap.get? x = if x = a then some (f r) else s.heap.get? x :=
    fun x => Heap.get?_modify_of_get? ha f x
  refine ⟨fun x => ?_, h.memory, fun x q hq => ?_, fun x q hq => ?_, fun x b hb hpacket => ?_,
    h.unfreed, h.null, ?_, h.logged, h.distinct⟩
  · rw [hget, hpackets]
    split
    · rfl
    · exact h.parcels x
  · rw [hget] at hq
    split at hq
    · rename_i hx
      cases hq
      obtain ⟨b, hb, hpacket, howned, hbytes⟩ := h.backed a r ha
      exact ⟨b, hdata ▸ hb, hpacket.trans hx.symm, howned.trans howns.symm,
        hcapacity.trans hbytes⟩
    · exact h.backed x q hq
  · rw [hget] at hq
    split at hq
    · cases hq
      exact hinside
    · exact h.inside x q hq
  · obtain ⟨q, hq, hqdata⟩ := h.used x b hb hpacket
    rw [hget]
    split
    · rename_i hx
      rw [hx, ha] at hq
      cases hq
      exact ⟨f r, rfl, hdata.trans hqdata⟩
    · exact ⟨q, hq, hqdata⟩
  · rw [hget, if_neg (h.not_null ha).symm]
    exact h.nowhere

/-- A write that changes the references or the time stamp. -/
theorem touch (h : Kept s packets blocks) (ha : s.heap.get? a = some r)
    {f : PacketObj → PacketObj} (hf : f r = { r with refs := (f r).refs, dts := (f r).dts })
    (hpackets : ∀ x, packets' x = if x = a then some (parcel (f r)) else packets x) :
    Kept (s.modify a f) packets' blocks := by
  have hin := h.inside a r ha
  refine h.write ha ?_ ?_ ?_ ?_ hpackets
  · rw [hf]
  · rw [hf]
  · rw [hf]
  · rw [hf]
    exact ⟨hin.offset, hin.size, hin.bound, hin.fits⟩

def bury (a : Ptr) (blocks : Ptr → Option Block) (d : Ptr) : Option Block :=
  match blocks d with
  | none => none
  | some b =>
    if b.packet = a then if b.owned then none else some { b with packet := NULL } else some b

theorem bury_data (h : Kept s packets blocks) (ha : s.heap.get? a = some r) :
    ∃ b, blocks r.data = some b ∧ b.packet = a ∧
      bury a blocks r.data = if r.ownsData then none else some { b with packet := NULL } := by
  obtain ⟨b, hb, hpacket, howned, _⟩ := h.backed a r ha
  refine ⟨b, hb, hpacket, ?_⟩
  simp only [bury, hb, if_pos hpacket, howned]

theorem bury_other (h : Kept s packets blocks) (ha : s.heap.get? a = some r) (hd : d ≠ r.data) :
    bury a blocks d = blocks d := by
  unfold bury
  cases hb : blocks d with
  | none => rfl
  | some b =>
    have hpacket : b.packet ≠ a := by
      intro heq
      obtain ⟨q, hq, hdata⟩ := h.used d b hb (heq ▸ h.not_null ha)
      rw [heq, ha] at hq
      cases hq
      exact hd hdata.symm
    simp [hpacket]

/-- The packet at `a` is gone from its memory, and `t` holds what there is of its data. -/
theorem buried (h : Kept s packets blocks) (ha : s.heap.get? a = some r) {t : Packets}
    (hheap : t.heap = s.heap.free a)
    (hblocks : t.blocks = if r.ownsData then s.blocks.free r.data else s.blocks)
    (hlogged : t.blocks.Logged [] t.dataFreed) :
    Kept t (fun x => if x = a then none else packets x) (bury a blocks) := by
  obtain ⟨b, hb, hpacket, hbury⟩ := h.bury_data ha
  have hget : ∀ x, t.heap.get? x = if x = a then none else s.heap.get? x := fun x => by
    rw [hheap, Heap.get?_free]
  have hbefore : ∀ x q, t.heap.get? x = some q → x ≠ a ∧ s.heap.get? x = some q := by
    intro x q hq
    rw [hget] at hq
    split at hq
    · cases hq
    · exact ⟨‹_›, hq⟩
  refine ⟨fun x => ?_, fun d => ?_, fun x q hq => ?_, fun x q hq => h.inside x q (hbefore x q hq).2,
    fun d c hc hused => ?_, fun d c hc hnull => ?_, ?_, ?_, hlogged, ?_⟩
  · rw [hget]
    split
    · rfl
    · exact h.parcels x
  · by_cases hd : d = r.data
    · subst hd
      rw [hblocks, hbury]
      split
      · rw [Heap.get?_free, if_pos rfl]
        rfl
      · rw [h.memory, hb]
        rfl
    · rw [h.bury_other ha hd, ← h.memory, hblocks]
      split
      · rw [Heap.get?_free, if_neg hd]
      · rfl
  · obtain ⟨hne, hq⟩ := hbefore x q hq
    obtain ⟨c, hc, hx, howned, hcapacity⟩ := h.backed x q hq
    have hd : q.data ≠ r.data := by
      intro heq
      rw [heq, hb] at hc
      cases hc
      exact hne (hx.symm.trans hpacket)
    exact ⟨c, (h.bury_other ha hd).trans hc, hx, howned, hcapacity⟩
  · have hd : d ≠ r.data := by
      rintro rfl
      rw [hbury] at hc
      split at hc
      · cases hc
      · cases hc
        exact hused rfl
    rw [h.bury_other ha hd] at hc
    obtain ⟨q, hq, hdata⟩ := h.used d c hc hused
    refine ⟨q, ?_, hdata⟩
    rw [hget, if_neg, hq]
    intro heq
    rw [heq, ha] at hq
    cases hq
    exact hd hdata.symm
  · by_cases hd : d = r.data
    · subst hd
      rw [hbury] at hc
      split at hc
      · cases hc
      · rename_i howns
        cases hc
        obtain ⟨b', hb', _, howned, _⟩ := h.backed a r ha
        rw [hb] at hb'
        cases hb'
        exact howned.trans (Bool.eq_false_iff.mpr howns)
    · exact h.unfreed d c ((h.bury_other ha hd).symm.trans hc) hnull
  · simp [bury, h.null]
  · rw [hget, h.nowhere, ite_self]
  · rw [hblocks]
    split
    · exact h.distinct.free
    · exact h.distinct

/-- `packet_destroy` frees the packet as an object, and its data unless that is unfreed. -/
theorem destroy (h : Kept s packets blocks) (ha : s.heap.get? a = some r) :
    ∃ t, s.destroy a = some t ∧ s.objects.free a = some t.objects ∧
      t.heap = s.heap.free a ∧
      Kept t (fun x => if x = a then none else packets x) (bury a blocks) := by
  obtain ⟨k, hk⟩ := Heap.exists_live ha
  have hk : s.heap.handle? a = some ⟨a, k⟩ := hk
  have hfree : ∀ t : Packets, t.heap = s.heap.free a → t.freed = s.freed ++ [k] →
      s.objects.free a = some t.objects := by
    intro t hheap hfreed
    rw [Objects.free, Packets.objects, Heap.handle?_map, hk, Option.map_some, Packets.objects,
      hheap, hfreed, Heap.map_free]
  obtain ⟨b, hb, hpacket, _⟩ := h.bury_data ha
  cases howns : r.ownsData with
  | false =>
    refine ⟨{ s with heap := s.heap.free a, freed := s.freed ++ [k] }, ?_, hfree _ rfl rfl, rfl,
      h.buried ha rfl (by rw [howns]; rfl) h.logged⟩
    rw [Packets.destroy, ha]
    simp [howns, hk]
  | true =>
    have hnull : r.data ≠ NULL := by
      intro heq
      rw [heq, h.null] at hb
      cases hb
    have hmemory := h.memory r.data
    rw [hb] at hmemory
    obtain ⟨m, hm, _⟩ := Option.map_eq_some_iff.mp hmemory
    obtain ⟨j, hj⟩ := Heap.exists_live hm
    have hlogged := (h.logged.sign h.distinct hj List.not_mem_nil).free
    have hj : s.blocks.handle? r.data = some ⟨r.data, j⟩ := hj
    refine ⟨{ s with
      heap := s.heap.free a
      blocks := s.blocks.free r.data
      freed := s.freed ++ [k]
      dataFreed := s.dataFreed ++ [j] }, ?_, hfree _ rfl rfl, rfl,
      h.buried ha rfl (by rw [howns]; rfl) hlogged⟩
    rw [Packets.destroy, ha]
    simp [howns, Packets.freeData, hnull, hj, hk]

/-- Only the references change. -/
theorem count (h : Kept s packets blocks) (ha : s.heap.get? a = some r)
    (g : BitVec 32 → BitVec 32) :
    Kept (s.modify a (fun r => { r with refs := g r.refs })) packets blocks := by
  refine h.touch ha rfl (fun x => ?_)
  split
  · rename_i hx
    rw [hx, ← h.parcels a, ha]
    rfl
  · rfl

end Kept

def alive (s : Packets) (a : Ptr) : Bool := (s.heap.get? a).isSome

/-- In the midst of an operation on lists: the references are those of `objs`, and the
packets that are left hold what they held at its start. -/
structure Along (packets : Ptr → Option Parcel) (blocks : Ptr → Option Block) (s : Packets)
    (objs : Objects) : Prop where
  objects : s.objects = objs
  kept : Kept s (keeps (alive s) packets) (leaves (alive s) blocks)

section Along

variable {packets : Ptr → Option Parcel} {blocks : Ptr → Option Block} {s : Packets}
  {a : Ptr}

theorem objects_modify (s : Packets) (a : Ptr) (g : BitVec 32 → BitVec 32) :
    (s.modify a (fun r => { r with refs := g r.refs })).objects =
      ⟨s.objects.heap.modify a g, s.objects.freed⟩ := by
  have hmap := Heap.map_modify (g := PacketObj.refs)
    (f := fun r => { r with refs := g r.refs }) (k := g) (fun _ => rfl) s.heap a
  simp only [Packets.objects, Packets.modify, hmap]

theorem Along.count {objs : Objects} {r : PacketObj} (h : Along packets blocks s objs)
    (ha : s.heap.get? a = some r) (g : BitVec 32 → BitVec 32) :
    Along packets blocks (s.modify a (fun r => { r with refs := g r.refs }))
      ⟨objs.heap.modify a g, objs.freed⟩ := by
  have halive : alive (s.modify a (fun r => { r with refs := g r.refs })) = alive s := by
    funext x
    simp [alive, Packets.modify]
  refine ⟨?_, ?_⟩
  · rw [objects_modify, h.objects]
  · rw [halive]
    exact h.kept.count ha g

/-- The dead leave what they left before, and the packet at `a` what is buried with it. -/
theorem Along.destroy {objs u : Objects} {r : PacketObj} (h : Along packets blocks s objs)
    (ha : s.heap.get? a = some r) (hu : objs.free a = some u) :
    ∃ t, s.destroy a = some t ∧ Along packets blocks t u := by
  obtain ⟨t, ht, hobjects, hheap, hkept⟩ := h.kept.destroy ha
  rw [h.objects, hu] at hobjects
  have hnull : a ≠ NULL := h.kept.not_null ha
  have halive : ∀ x, alive t x = if x = a then false else alive s x := by
    intro x
    rw [alive, hheap, Heap.get?_free, alive]
    split <;> rfl
  have hself : alive s a = true := by rw [alive, ha]; rfl
  refine ⟨t, ht, (Option.some.inj hobjects).symm, ?_⟩
  have hkeeps : keeps (alive t) packets = fun x => if x = a then none else
      keeps (alive s) packets x := by
    funext x
    by_cases hx : x = a <;> simp [keeps, halive, hx]
  have hleaves : leaves (alive t) blocks = Kept.bury a (leaves (alive s) blocks) := by
    funext d
    unfold Kept.bury leaves
    cases hb : blocks d with
    | none => rfl
    | some b =>
      by_cases hpacket : b.packet = a
      · simp [hpacket, hnull, halive, hself]
      · by_cases hgone : b.packet = NULL ∨ alive s b.packet = true
        · simp [hpacket, halive, hgone]
        · cases howned : b.owned <;> simp [hpacket, halive, hgone, howned, hnull.symm]
  rw [hkeeps, hleaves]
  exact hkept

theorem follows : Sequences.Follows packetOps objectOps (Along packets blocks) where
  refInc := by
    intro s objs u obj h hu
    obtain ⟨refs, hrefs, rfl⟩ := Option.map_eq_some_iff.mp hu
    rw [← h.objects, Packets.objects, Heap.get?_map] at hrefs
    obtain ⟨r, hr, _⟩ := Option.map_eq_some_iff.mp hrefs
    exact ⟨_, Option.map_eq_some_iff.mpr ⟨r, hr, rfl⟩, h.count hr (· + 1)⟩
  release := by
    intro proc s objs u obj h hu
    change proc.release objs obj = some u at hu
    change ∃ t, s.autorelease obj = some t ∧ _
    rw [ReleaseProc.release_eq, Objects.autorelease] at hu
    by_cases hnull : obj = NULL
    · rw [if_pos hnull] at hu
      cases hu
      exact ⟨s, if_pos hnull, h⟩
    · rw [if_neg hnull] at hu
      obtain ⟨⟨refs, m⟩, hdec, hu⟩ := Option.bind_eq_some_iff.mp hu
      obtain ⟨_, hrefs, hpair⟩ := Option.map_eq_some_iff.mp hdec
      cases hpair
      rw [← h.objects, Packets.objects, Heap.get?_map] at hrefs
      obtain ⟨r, hr, rfl⟩ := Option.map_eq_some_iff.mp hrefs
      have hcount := h.count hr (· - 1)
      have hget : (s.modify obj (fun r => { r with refs := r.refs - 1 })).heap.get? obj =
          some { r with refs := r.refs - 1 } :=
        (Heap.get?_modify_of_get? hr (fun r => { r with refs := r.refs - 1 }) obj).trans
          (if_pos rfl)
      have hcode : s.autorelease obj = if r.refs = 1
          then (s.modify obj (fun r => { r with refs := r.refs - 1 })).destroy obj
          else some (s.modify obj (fun r => { r with refs := r.refs - 1 })) := by
        simp [Packets.autorelease, Packets.refDec, hnull, hr]
      rw [hcode]
      change (if r.refs = 1 then _ else _) = some u at hu
      split at hu
      · rw [if_pos ‹_›]
        exact hcount.destroy hget hu
      · rw [if_neg ‹_›]
        cases hu
        exact ⟨_, rfl, hcount⟩

end Along

/-- The lists, the packets and the data agree with the program's. -/
structure Exchanged (s : LinkedList ReleaseProc × Packets) (pool : Pool) : Prop where
  owned : Owned (s.1, s.2.objects) pool.owners
  kept : Kept s.2 pool.packets pool.blocks

theorem exchanged_empty : Exchanged (LinkedList.empty, Packets.empty) Pool.empty :=
  ⟨owned_empty, kept_empty⟩

section Calls

variable {s : LinkedList ReleaseProc × Packets} {pool : Pool} {m : LinkedList ReleaseProc}
  {t : Packets} {objs : Objects} {owners : Owners}

theorem Kept.along {s : Packets} {packets : Ptr → Option Parcel} {blocks : Ptr → Option Block}
    (h : Kept s packets blocks) : Along packets blocks s s.objects := by
  refine ⟨rfl, ?_⟩
  have hkeeps : keeps (alive s) packets = packets := by
    funext a
    rw [keeps, alive, ← h.parcels a]
    cases s.heap.get? a <;> rfl
  have hleaves : leaves (alive s) blocks = blocks := by
    funext d
    unfold leaves
    cases hb : blocks d with
    | none => rfl
    | some b =>
      refine if_pos ?_
      by_cases hnull : b.packet = NULL
      · exact Or.inl hnull
      · obtain ⟨r, hr, _⟩ := h.used d b hb hnull
        exact Or.inr (by rw [alive, hr]; rfl)
  rw [hkeeps, hleaves]
  exact h

/-- The packets that are left are those that someone refers to. -/
theorem Along.settle (h : Along pool.packets pool.blocks t objs) (howned : Owned (m, objs) owners) :
    Exchanged (m, t) (pool.settle owners) := by
  have halive : alive t = fun a => decide (0 < owners.refs a) := by
    funext a
    have hcounted := howned.books.accounts.counted a
    rw [← h.objects, Packets.objects, Heap.get?_map] at hcounted
    rw [alive]
    by_cases hrefs : owners.refs a = 0
    · rw [if_pos hrefs, Option.map_eq_none_iff] at hcounted
      simp [hcounted, hrefs]
    · rw [if_neg hrefs] at hcounted
      obtain ⟨r, hr, _⟩ := Option.map_eq_some_iff.mp hcounted
      simp [hr, Nat.pos_of_ne_zero hrefs]
  refine ⟨h.objects ▸ howned, ?_⟩
  have hkept := h.kept
  rw [halive] at hkept
  exact hkept

/-- A call that shares packets does to lists and references what it does to them for any
objects. -/
theorem Exchanged.share (h : Exchanged s pool) {fuel : Nat} (hfuel : INT_MAX.toNat < fuel)
    {call : LinkedList.Call} (hshares : Pool.Shares call) {a : Answer}
    (hstep : Owners.step INT_MAX.toNat pool.owners call = some (a, owners)) :
    ∃ t, share fuel s call = some (a, t) ∧ Exchanged t (pool.settle owners) := by
  obtain ⟨⟨m, objs⟩, hcode, howned⟩ :=
    implements_owners hfuel _ _ call a owners h.owned hstep
  have hfollows := @follows pool.packets pool.blocks
  cases call with
  | create obj => cases hshares
  | addref obj =>
    obtain ⟨u, hu, hpair⟩ := Option.map_eq_some_iff.mp hcode
    cases hpair
    obtain ⟨t, ht, halong⟩ := hfollows.refInc h.kept.along hu
    exact ⟨_, Option.map_eq_some_iff.mpr ⟨t, ht, rfl⟩, halong.settle howned⟩
  | autorelease proc obj =>
    obtain ⟨u, hu, hpair⟩ := Option.map_eq_some_iff.mp hcode
    cases hpair
    have hu : objectOps.release proc s.2.objects obj = some objs := hu
    obtain ⟨t, ht, halong⟩ := hfollows.release h.kept.along hu
    exact ⟨_, Option.map_eq_some_iff.mpr ⟨t, ht, rfl⟩, halong.settle howned⟩
  | list op =>
    obtain ⟨u, hspec, hbooks⟩ := h.owned.books.listStep hstep
    obtain ⟨t, hpackets, halong⟩ := hfollows.step h.kept.along hspec
    obtain ⟨⟨m', t'⟩, hrun, hrep, heq, hwithin⟩ := implements_sequences packetOps
      (Nat.le_refl _) hfuel s (pool.owners.lists, s.2) op a _
      ⟨h.owned.represents, rfl, h.owned.within⟩ hpackets
    cases heq
    exact ⟨_, hrun, halong.settle ⟨hrep, hwithin, hbooks⟩⟩

theorem contents_zeros (n : Nat) : (⟨n, fun _ => 0⟩ : Storage).contents = List.replicate n 0 := by
  apply List.ext_getElem
  · simp
  · intro i hi _
    rw [Storage.getElem_contents hi, List.getElem_replicate]

theorem create_granted {capacity : Int} (hpos : 0 < capacity) (hgranted : capacity ≤ INT_MAX - 32) :
    Packet.create capacity = some ⟨0, capacity, capacity, some ⟨capacity.toNat, fun _ => 0⟩⟩ := by
  have hsize : sizeT capacity = capacity.toNat := by
    unfold sizeT INT_MAX at *
    omega
  have hfits : capacity.toNat ≤ maxAllocSize - 32 := by
    unfold maxAllocSize INT_MAX at *
    omega
  rw [Packet.create, if_neg (by omega), hsize, mallocz_of_fits (by omega) hfits]

/-- A new packet, with data of its own, all zero. -/
theorem Kept.create {s : Packets} {packets : Ptr → Option Parcel} {blocks : Ptr → Option Block}
    (h : Kept s packets blocks) {packet data : Ptr} {capacity : Int} {heap : Heap PacketObj}
    {store : Heap Storage} (hpacket : packet ≠ NULL) (hdata : data ≠ NULL)
    (hfree : blocks data = none) (hpos : 0 < capacity) (hgranted : capacity ≤ INT_MAX - 32)
    (hheap : s.heap.alloc packet ⟨1, 0, capacity, 0, capacity, data, true⟩ = some heap)
    (hstore : s.blocks.alloc data ⟨capacity.toNat, fun _ => 0⟩ = some store) :
    Kept { s with heap := heap, blocks := store }
      (Function.update packets packet (some ⟨data, 0, capacity, 0⟩))
      (Function.update blocks data
        (some ⟨List.replicate capacity.toNat 0, packet, true⟩)) := by
  have hnone : s.heap.get? packet = none := Heap.alloc_free_before hheap
  have hget := fun x => Heap.get?_alloc hheap x
  have hother : ∀ x r, s.heap.get? x = some r → x ≠ packet ∧ r.data ≠ data := by
    intro x r hr
    obtain ⟨b, hb, _⟩ := h.backed x r hr
    refine ⟨fun heq => ?_, fun heq => ?_⟩
    · rw [heq, hnone] at hr
      cases hr
    · rw [heq, hfree] at hb
      cases hb
  refine ⟨fun x => ?_, fun d => ?_, fun x r hr => ?_, fun x r hr => ?_, fun d b hb hused => ?_,
    fun d b hb hnull => ?_, ?_, ?_, h.logged.alloc hstore List.not_mem_nil,
    h.distinct.alloc hstore⟩
  · by_cases hx : x = packet
    · subst hx
      simp [hget, parcel]
    · simp [hget, hx, h.parcels]
  · by_cases hd : d = data
    · subst hd
      simp [Heap.get?_alloc hstore, contents_zeros]
    · simp [Heap.get?_alloc hstore, hd, h.memory]
  · rw [hget] at hr
    split at hr
    · rename_i hx
      cases hr
      exact ⟨_, Function.update_self .., hx.symm, rfl, by simp; omega⟩
    · obtain ⟨b, hb, hrest⟩ := h.backed x r hr
      exact ⟨b, by rw [Function.update_of_ne (hother x r hr).2, hb], hrest⟩
  · rw [hget] at hr
    split at hr
    · cases hr
      have hmax : capacity ≤ INT_MAX := by omega
      exact ⟨Int.le_refl 0, Int.le_of_lt hpos, by simp, hmax⟩
    · exact h.inside x r hr
  · rw [hget]
    by_cases hd : d = data
    · subst hd
      rw [Function.update_self] at hb
      cases hb
      exact ⟨_, if_pos rfl, rfl⟩
    · rw [Function.update_of_ne hd] at hb
      obtain ⟨r, hr, hrdata⟩ := h.used d b hb hused
      exact ⟨r, by rw [if_neg (hother _ r hr).1, hr], hrdata⟩
  · by_cases hd : d = data
    · subst hd
      rw [Function.update_self] at hb
      cases hb
      exact absurd hnull hpacket
    · rw [Function.update_of_ne hd] at hb
      exact h.unfreed d b hb hnull
  · rw [Function.update_of_ne hdata.symm, h.null]
  · rw [hget, if_neg hpacket.symm, h.nowhere]

/-- A write to the data of a packet, or of who frees it. -/
theorem Kept.rewrite {s : Packets} {packets : Ptr → Option Parcel} {blocks : Ptr → Option Block}
    (h : Kept s packets blocks) {a : Ptr} {r : PacketObj} {b k : Block} {m : Storage}
    (ha : s.heap.get? a = some r) (hb : blocks r.data = some b) {f : PacketObj → PacketObj}
    (hf : f r = { r with ownsData := k.owned }) (hpacket : k.packet = b.packet)
    (hcontents : m.contents = k.bytes) (hlength : k.bytes.length = b.bytes.length) :
    Kept { s with heap := s.heap.modify a f, blocks := s.blocks.modify r.data (fun _ => m) }
      packets (Function.update blocks r.data (some k)) := by
  obtain ⟨c, hc, hca, _, hcapacity⟩ := h.backed a r ha
  cases hb.symm.trans hc
  have hget : ∀ x, (s.heap.modify a f).get? x =
      if x = a then some { r with ownsData := k.owned } else s.heap.get? x := by
    intro x
    rw [Heap.get?_modify_of_get? ha, hf]
  have hother : ∀ x q, x ≠ a → s.heap.get? x = some q → q.data ≠ r.data := by
    intro x q hx hq heq
    obtain ⟨e, he, hex, _⟩ := h.backed x q hq
    rw [heq, hb] at he
    cases he
    exact hx (hex.symm.trans hca)
  refine ⟨fun x => ?_, fun d => ?_, fun x q hq => ?_, fun x q hq => ?_, fun d e he hused => ?_,
    fun d e he hnull => ?_, ?_, ?_, h.logged.modify (fun _ => m),
    h.distinct.modify (fun _ => m)⟩
  · rw [hget, ← h.parcels]
    split
    · rename_i hx
      rw [hx, ha]
      rfl
    · rfl
  · have hmemory := h.memory d
    by_cases hd : d = r.data
    · subst hd
      rw [hb] at hmemory
      obtain ⟨old, hold, _⟩ := Option.map_eq_some_iff.mp hmemory
      simp [Heap.get?_modify, hold, hcontents]
    · rw [Heap.get?_modify, if_neg hd, hmemory, Function.update_of_ne hd]
  · rw [hget] at hq
    split at hq
    · rename_i hx
      cases hq
      exact ⟨k, Function.update_self .., by rw [hpacket, hca, hx], rfl, by rw [hlength, hcapacity]⟩
    · rename_i hx
      obtain ⟨e, he, hrest⟩ := h.backed x q hq
      exact ⟨e, by rw [Function.update_of_ne (hother x q hx hq), he], hrest⟩
  · rw [hget] at hq
    split at hq
    · cases hq
      have hin := h.inside a r ha
      exact ⟨hin.offset, hin.size, hin.bound, hin.fits⟩
    · exact h.inside x q hq
  · rw [hget]
    by_cases hd : d = r.data
    · subst hd
      rw [Function.update_self] at he
      cases he
      exact ⟨_, if_pos (hpacket.trans hca), rfl⟩
    · rw [Function.update_of_ne hd] at he
      obtain ⟨q, hq, hqdata⟩ := h.used d e he hused
      refine ⟨q, ?_, hqdata⟩
      rw [if_neg, hq]
      intro heq
      rw [heq, ha] at hq
      cases hq
      exact hd hqdata.symm
  · by_cases hd : d = r.data
    · subst hd
      rw [Function.update_self] at he
      cases he
      exact absurd (hca.symm.trans (hpacket.symm.trans hnull)) (h.not_null ha)
    · rw [Function.update_of_ne hd] at he
      exact h.unfreed d e he hnull
  · rw [Function.update_of_ne, h.null]
    intro heq
    rw [← heq, h.null] at hb
    cases hb
  · rw [hget, if_neg (h.not_null ha).symm, h.nowhere]

theorem objects_modify_same (s : Packets) (a : Ptr) {f : PacketObj → PacketObj}
    (hf : ∀ r, (f r).refs = r.refs) : (s.modify a f).objects = s.objects := by
  have hmap := Heap.map_modify (g := PacketObj.refs) (f := f) (k := id) hf s.heap a
  simp only [Packets.objects, Packets.modify, hmap, Heap.modify_eq_self (f := id) (fun _ _ => rfl)]

/-- A setter that is asked for a window upon the data passes its check and sets it. -/
theorem setter_step {p : Packet} {q : Parcel} {op : Packet.Op} (hoffset : q.offset = p.rangeOffset)
    (hsize : q.size = p.rangeLength) (hfits : p.capacity ≤ INT_MAX)
    (hask : 0 ≤ (Pool.asked q op).1 ∧ 0 ≤ (Pool.asked q op).2 ∧
      (Pool.asked q op).1 + (Pool.asked q op).2 ≤ p.capacity) :
    p.step op = some { p with
      rangeOffset := (Pool.asked q op).1, rangeLength := (Pool.asked q op).2 } := by
  obtain ⟨h1, h2, h3⟩ := hask
  cases op with
  | setrange o n =>
    simp only [Pool.asked] at h1 h2 h3 ⊢
    have hsum := int32_of_range (x := o.toInt + n.toInt) (by omega) (by omega)
    simp [Packet.step, Packet.setrange, Packet.checkLe, hsum, h3]
  | setrange2 o n =>
    simp only [Pool.asked, hoffset] at h1 h2 h3 ⊢
    have hoff := int32_of_range (x := p.rangeOffset + o.toInt) (by omega) (by omega)
    have hsum := int32_of_range (x := p.rangeOffset + o.toInt + n.toInt) (by omega) (by omega)
    simp [Packet.step, Packet.setrange2, Packet.checkLe, hoff, hsum, h3]
  | setrange3 o n =>
    simp only [Pool.asked, hsize] at h1 h2 h3 ⊢
    have hlen := int32_of_range (x := p.rangeLength + n.toInt) (by omega) (by omega)
    have hsum := int32_of_range (x := o.toInt + (p.rangeLength + n.toInt)) (by omega) (by omega)
    simp [Packet.step, Packet.setrange3, Packet.checkLe, hlen, hsum, h3]

/-- An access inside the window is one inside the data. -/
theorem window_at {r : PacketObj} {m : Storage} {b : Block} (hin : Inside r)
    (hcontents : m.contents = b.bytes) (hcapacity : r.capacity = b.bytes.length) {off n : Nat}
    (hfits : (off + n : Nat) ≤ r.rangeLength) :
    0 ≤ r.rangeOffset + off ∧ (r.rangeOffset + off).toNat = r.rangeOffset.toNat + off ∧
      r.rangeOffset.toNat + off + n ≤ m.size := by
  have hlength : m.size = b.bytes.length := by rw [← hcontents, Storage.contents_length]
  have hoffset := hin.offset
  have hbound := hin.bound
  omega

namespace Exchanged

theorem of_objects (h : Exchanged s pool) {packets : Ptr → Option Parcel}
    {blocks : Ptr → Option Block} (hobjects : t.objects = s.2.objects)
    (hkept : Kept t packets blocks) :
    Exchanged (s.1, t) { pool with packets := packets, blocks := blocks } :=
  ⟨by rw [hobjects]; exact h.owned, hkept⟩

theorem create (h : Exchanged s pool) {fuel : Nat} (hfuel : INT_MAX.toNat < fuel)
    {packet data : Ptr} {capacity : Int} (hpos : 0 < capacity)
    (hgranted : capacity ≤ INT_MAX - 32) (hdata : data ≠ NULL) (hfree : pool.blocks data = none)
    {a : Answer}
    (hstep : Owners.step INT_MAX.toNat pool.owners (.create packet) = some (a, owners)) :
    ∃ t, s.2.create packet data capacity = some t ∧ a = .object packet ∧
      Exchanged (s.1, t)
        { owners := owners
          packets := Function.update pool.packets packet (some ⟨data, 0, capacity, 0⟩)
          blocks := Function.update pool.blocks data
            (some ⟨List.replicate capacity.toNat 0, packet, true⟩) } := by
  obtain ⟨⟨m, objs⟩, hcode, howned⟩ :=
    implements_owners hfuel _ _ (.create packet) a owners h.owned hstep
  obtain ⟨u, hu, hpair⟩ := Option.map_eq_some_iff.mp hcode
  cases hpair
  obtain ⟨heap', halloc, rfl⟩ := Option.map_eq_some_iff.mp hu
  have hpacket : packet ≠ NULL := by
    obtain ⟨hok, _⟩ := Option.ite_none_right_eq_some.mp hstep
    exact hok.1
  have hnone : s.2.heap.get? packet = none := by
    have hbefore := Heap.alloc_free_before halloc
    rw [Packets.objects, Heap.get?_map, Option.map_eq_none_iff] at hbefore
    exact hbefore
  have hempty : s.2.blocks.get? data = none := by
    have hmemory := h.kept.memory data
    rw [hfree, Option.map_none, Option.map_eq_none_iff] at hmemory
    exact hmemory
  obtain ⟨heap, hheap⟩ := Heap.exists_alloc hnone
    (⟨1, 0, capacity, 0, capacity, data, true⟩ : PacketObj)
  obtain ⟨store, hstore⟩ := Heap.exists_alloc hempty (⟨capacity.toNat, fun _ => 0⟩ : Storage)
  have hmap : (s.2.heap.map PacketObj.refs).alloc packet 1 = some (heap.map PacketObj.refs) :=
    Heap.map_alloc hheap
  obtain rfl : heap' = heap.map PacketObj.refs := Option.some.inj (halloc.symm.trans hmap)
  refine ⟨{ s.2 with heap := heap, blocks := store }, ?_, rfl, howned,
    h.kept.create hpacket hdata hfree hpos hgranted hheap hstore⟩
  rw [Packets.create, create_granted hpos hgranted]
  simp only [Option.bind_eq_bind, Option.bind_some, hheap, hstore, Option.map_some]

theorem setrange (h : Exchanged s pool) {packet : Ptr} {p : Parcel} {b : Block}
    {op : Packet.Op} (hp : pool.packets packet = some p) (hb : pool.blocks p.base = some b)
    (hask : 0 ≤ (Pool.asked p op).1 ∧ 0 ≤ (Pool.asked p op).2 ∧
      (Pool.asked p op).1 + (Pool.asked p op).2 ≤ b.bytes.length) :
    ∃ t, s.2.setrange packet op = some t ∧ Exchanged (s.1, t) (pool.setPacket packet
      { p with offset := (Pool.asked p op).1, size := (Pool.asked p op).2 }) := by
  obtain ⟨r, m, hr, rfl, _, c, hc, _, _, hcapacity, _⟩ := h.kept.of_parcel hp
  cases hb.symm.trans hc
  rw [← hcapacity] at hask
  have hin := h.kept.inside packet r hr
  have hstep := @setter_step (s.2.view r) (parcel r) op rfl rfl hin.fits hask
  let f : PacketObj → PacketObj := fun q => { q with
    rangeOffset := (Pool.asked (parcel r) op).1, rangeLength := (Pool.asked (parcel r) op).2 }
  refine ⟨s.2.modify packet f, ?_, h.of_objects (objects_modify_same _ _ (fun _ => rfl)) ?_⟩
  · rw [Packets.setrange, hr]
    simp [hstep, f]
  · refine h.kept.write hr rfl rfl rfl ⟨hask.1, hask.2.1, hask.2.2, hin.fits⟩ (fun x => ?_)
    exact Function.update_apply ..

theorem setdts (h : Exchanged s pool) {packet : Ptr} {p : Parcel}
    (hp : pool.packets packet = some p) (dts : BitVec 32) :
    ∃ t, s.2.setdts packet dts = some t ∧
      Exchanged (s.1, t) (pool.setPacket packet { p with dts := dts }) := by
  obtain ⟨r, m, hr, rfl, _⟩ := h.kept.of_parcel hp
  refine ⟨_, Option.map_eq_some_iff.mpr ⟨r, hr, rfl⟩,
    h.of_objects (objects_modify_same _ _ (fun _ => rfl)) (h.kept.touch hr rfl (fun x => ?_))⟩
  exact Function.update_apply ..

theorem unfreeData (h : Exchanged s pool) {packet : Ptr} {p : Parcel} {b : Block}
    (hp : pool.packets packet = some p) (hb : pool.blocks p.base = some b) (u : Bool) :
    ∃ t, s.2.unfreeData packet u = some t ∧
      Exchanged (s.1, t) (pool.setBlock p.base (some { b with owned := !u })) := by
  obtain ⟨r, m, hr, rfl, hm, c, hc, hcontents, _⟩ := h.kept.of_parcel hp
  cases hb.symm.trans hc
  have hkept := h.kept.rewrite (k := { b with owned := !u }) (m := m) hr hb
    (f := fun r => { r with ownsData := !u }) rfl rfl hcontents rfl
  rw [Heap.modify_eq_self (fun v hv => Option.some.inj (hm.symm.trans hv))] at hkept
  exact ⟨_, Option.map_eq_some_iff.mpr ⟨r, hr, rfl⟩,
    h.of_objects (objects_modify_same _ _ (fun _ => rfl)) hkept⟩

theorem load (h : Exchanged s pool) {packet : Ptr} {p : Parcel} {b : Block} {off n : Nat}
    (hp : pool.packets packet = some p) (hb : pool.blocks p.base = some b)
    (hfits : (off + n : Nat) ≤ p.size) :
    s.2.load packet off n = some ((b.bytes.drop (p.offset.toNat + off)).take n) := by
  obtain ⟨r, m, hr, rfl, hm, c, hc, hcontents, _, hcapacity, _⟩ := h.kept.of_parcel hp
  cases hb.symm.trans hc
  obtain ⟨hnonneg, hat, hwithin⟩ :=
    window_at (h.kept.inside packet r hr) hcontents hcapacity hfits
  have hload : s.2.load packet off n = m.load (r.rangeOffset.toNat + off) n := by
    simp [Packets.load, hr, hm, hnonneg, hat]
  rw [hload, Storage.load_of_le hwithin, Storage.read_eq_contents hwithin, hcontents]
  rfl

theorem store (h : Exchanged s pool) {packet : Ptr} {p : Parcel} {b : Block} {off : Nat}
    {bytes : List UInt8} (hp : pool.packets packet = some p) (hb : pool.blocks p.base = some b)
    (hfits : (off + bytes.length : Nat) ≤ p.size) :
    ∃ t, s.2.store packet off bytes = some t ∧ Exchanged (s.1, t) (pool.setBlock p.base
      (some { b with bytes := Pool.splice b.bytes (p.offset.toNat + off) bytes })) := by
  obtain ⟨r, m, hr, rfl, hm, c, hc, hcontents, _, hcapacity, howned⟩ := h.kept.of_parcel hp
  cases hb.symm.trans hc
  obtain ⟨hnonneg, hat, hwithin⟩ :=
    window_at (h.kept.inside packet r hr) hcontents hcapacity hfits
  have hwrite := Storage.contents_write hwithin
  rw [hcontents] at hwrite
  have hlength := congrArg List.length hwrite
  rw [Storage.contents_length] at hlength
  have hsize : m.size = b.bytes.length := by rw [← hcontents, Storage.contents_length]
  have hkept := h.kept.rewrite hr hb (f := id)
    (k := { b with bytes := Pool.splice b.bytes ((parcel r).offset.toNat + off) bytes })
    (m := m.write (r.rangeOffset.toNat + off : Nat) bytes) (by rw [howned]; rfl) rfl hwrite
    (hlength.symm.trans hsize)
  rw [Heap.modify_eq_self (f := id) (fun _ _ => rfl)] at hkept
  refine ⟨{ s.2 with
    blocks := s.2.blocks.modify r.data
      (fun _ => m.write (r.rangeOffset.toNat + off : Nat) bytes) }, ?_, h.of_objects rfl hkept⟩
  simp only [Packets.store, hr, hm, Option.bind_eq_bind, Option.bind_some, if_pos hnonneg, hat,
    Storage.store_of_le hwithin, Option.map_some]

theorem loadBlock (h : Exchanged s pool) {data : Ptr} {b : Block} {off n : Nat}
    (hb : pool.blocks data = some b) (hfits : off + n ≤ b.bytes.length) :
    s.2.loadBlock data off n = some ((b.bytes.drop off).take n) := by
  have hmemory := h.kept.memory data
  rw [hb] at hmemory
  obtain ⟨m, hm, hcontents⟩ := Option.map_eq_some_iff.mp hmemory
  rw [← hcontents] at hfits ⊢
  rw [Storage.contents_length] at hfits
  rw [Packets.loadBlock, hm, Option.bind_some, Storage.load_of_le hfits,
    Storage.read_eq_contents hfits]

theorem freeBlock (h : Exchanged s pool) {data : Ptr} {b : Block}
    (hb : pool.blocks data = some b) (hnull : b.packet = NULL) :
    ∃ t, s.2.freeData data = some t ∧ Exchanged (s.1, t) (pool.setBlock data none) := by
  have hmemory := h.kept.memory data
  rw [hb] at hmemory
  obtain ⟨m, hm, _⟩ := Option.map_eq_some_iff.mp hmemory
  obtain ⟨k, hk⟩ := Heap.exists_live hm
  have hdata : data ≠ NULL := by
    rintro rfl
    rw [h.kept.null] at hb
    cases hb
  have hlogged := (h.kept.logged.sign h.kept.distinct hk List.not_mem_nil).free
  have hother : ∀ x r, s.2.heap.get? x = some r → r.data ≠ data := by
    rintro x r hr rfl
    obtain ⟨c, hc, hpacket, _⟩ := h.kept.backed x r hr
    cases hb.symm.trans hc
    exact h.kept.not_null hr (hpacket.symm.trans hnull)
  have hk : s.2.blocks.handle? data = some ⟨data, k⟩ := hk
  refine ⟨{ s.2 with blocks := s.2.blocks.free data, dataFreed := s.2.dataFreed ++ [k] }, ?_,
    h.of_objects rfl ?_⟩
  · rw [Packets.freeData, if_neg hdata, hk, Option.map_some]
  · refine ⟨h.kept.parcels, fun d => ?_, fun x r hr => ?_, h.kept.inside, fun d c hc hused => ?_,
      fun d c hc => ?_, ?_, h.kept.nowhere, hlogged, h.kept.distinct.free⟩
    · by_cases hd : d = data
      · simp [Heap.get?_free, hd]
      · simp [Heap.get?_free, hd, h.kept.memory]
    · rw [Function.update_of_ne (hother x r hr)]
      exact h.kept.backed x r hr
    · by_cases hd : d = data
      · rw [hd, Function.update_self] at hc
        cases hc
      · rw [Function.update_of_ne hd] at hc
        exact h.kept.used d c hc hused
    · by_cases hd : d = data
      · rw [hd, Function.update_self] at hc
        cases hc
      · rw [Function.update_of_ne hd] at hc
        exact h.kept.unfreed d c hc
    · rw [Function.update_of_ne hdata.symm, h.kept.null]

end Exchanged

/-- Every call on packets that the program may make is answered as by its bytes. -/
theorem implements_pool {fuel : Nat} (hfuel : INT_MAX.toNat < fuel) :
    Implements (step fuel) (Pool.step INT_MAX.toNat) Exchanged := by
  intro s pool call reply pool' h hstep
  cases call with
  | create packet data capacity =>
    obtain ⟨⟨hpos, hgranted, hdata, hfree⟩, hstep⟩ := Option.ite_none_right_eq_some.mp hstep
    obtain ⟨⟨a, owners⟩, howners, hpair⟩ := Option.map_eq_some_iff.mp hstep
    cases hpair
    obtain ⟨t, ht, rfl, hnext⟩ :=
      h.create hfuel hpos hgranted hdata (Option.isNone_iff_eq_none.mp hfree) howners
    exact ⟨_, Option.map_eq_some_iff.mpr ⟨t, ht, rfl⟩, hnext⟩
  | share call =>
    obtain ⟨hshares, hstep⟩ := Option.ite_none_right_eq_some.mp hstep
    obtain ⟨⟨a, owners⟩, howners, hpair⟩ := Option.map_eq_some_iff.mp hstep
    cases hpair
    obtain ⟨t, ht, hnext⟩ := h.share hfuel hshares howners
    exact ⟨t, Option.map_eq_some_iff.mpr ⟨_, ht, rfl⟩, hnext⟩
  | setrange packet op =>
    obtain ⟨p, hp, hstep⟩ := Option.bind_eq_some_iff.mp hstep
    obtain ⟨b, hb, hstep⟩ := Option.bind_eq_some_iff.mp hstep
    obtain ⟨hask, hstep⟩ := Option.ite_none_right_eq_some.mp hstep
    cases hstep
    obtain ⟨t, ht, hnext⟩ := h.setrange hp hb hask
    exact ⟨_, Option.map_eq_some_iff.mpr ⟨t, ht, rfl⟩, hnext⟩
  | setdts packet dts =>
    obtain ⟨p, hp, hstep⟩ := Option.bind_eq_some_iff.mp hstep
    cases hstep
    obtain ⟨t, ht, hnext⟩ := h.setdts hp dts
    exact ⟨_, Option.map_eq_some_iff.mpr ⟨t, ht, rfl⟩, hnext⟩
  | unfreeData packet u =>
    obtain ⟨p, hp, hstep⟩ := Option.bind_eq_some_iff.mp hstep
    obtain ⟨b, hb, hstep⟩ := Option.bind_eq_some_iff.mp hstep
    cases hstep
    obtain ⟨t, ht, hnext⟩ := h.unfreeData hp hb u
    exact ⟨_, Option.map_eq_some_iff.mpr ⟨t, ht, rfl⟩, hnext⟩
  | fields packet =>
    obtain ⟨p, hp, hstep⟩ := Option.bind_eq_some_iff.mp hstep
    obtain ⟨b, hb, hstep⟩ := Option.bind_eq_some_iff.mp hstep
    cases hstep
    obtain ⟨r, _, hr, rfl, _, c, hc, _, _, hcapacity, _⟩ := h.kept.of_parcel hp
    cases hb.symm.trans hc
    exact ⟨s, Option.map_eq_some_iff.mpr ⟨r, hr, by rw [hcapacity]; rfl⟩, h⟩
  | load packet off n =>
    obtain ⟨p, hp, hstep⟩ := Option.bind_eq_some_iff.mp hstep
    obtain ⟨b, hb, hstep⟩ := Option.bind_eq_some_iff.mp hstep
    obtain ⟨hfits, hstep⟩ := Option.ite_none_right_eq_some.mp hstep
    cases hstep
    exact ⟨s, Option.map_eq_some_iff.mpr ⟨_, h.load hp hb hfits, rfl⟩, h⟩
  | store packet off bytes =>
    obtain ⟨p, hp, hstep⟩ := Option.bind_eq_some_iff.mp hstep
    obtain ⟨b, hb, hstep⟩ := Option.bind_eq_some_iff.mp hstep
    obtain ⟨hfits, hstep⟩ := Option.ite_none_right_eq_some.mp hstep
    cases hstep
    obtain ⟨t, ht, hnext⟩ := h.store hp hb hfits
    exact ⟨_, Option.map_eq_some_iff.mpr ⟨t, ht, rfl⟩, hnext⟩
  | loadBlock data off n =>
    obtain ⟨b, hb, hstep⟩ := Option.bind_eq_some_iff.mp hstep
    obtain ⟨⟨_, hfits⟩, hstep⟩ := Option.ite_none_right_eq_some.mp hstep
    cases hstep
    exact ⟨s, Option.map_eq_some_iff.mpr ⟨_, h.loadBlock hb hfits, rfl⟩, h⟩
  | freeBlock data =>
    obtain ⟨b, hb, hstep⟩ := Option.bind_eq_some_iff.mp hstep
    obtain ⟨hnull, hstep⟩ := Option.ite_none_right_eq_some.mp hstep
    cases hstep
    obtain ⟨t, ht, hnext⟩ := h.freeBlock hb hnull
    exact ⟨_, Option.map_eq_some_iff.mpr ⟨t, ht, rfl⟩, hnext⟩

end Calls

/-- What holds of the packets when `pool` says who refers to them and what they hold. -/
structure Sound (s : LinkedList ReleaseProc × Packets) (pool : Pool) : Prop where
  accounted : Accounted (s.1, s.2.objects) pool.owners
  inside : ∀ a r, s.2.heap.get? a = some r → (s.2.view r).Inside
  apart : ∀ a b r q, s.2.heap.get? a = some r → s.2.heap.get? b = some q → r.data = q.data →
    a = b
  contents : ∀ d, (s.2.blocks.get? d).map Storage.contents = (pool.blocks d).map Block.bytes
  holders : ∀ d, (s.2.blocks.get? d).isSome →
    (∃ a r, s.2.heap.get? a = some r ∧ r.data = d) ∨
      ∃ b, pool.blocks d = some b ∧ b.packet = NULL ∧ b.owned = false
  dataOnce : s.2.dataFreed.Nodup
  dataFreed : ∀ k, k ∈ s.2.dataFreed ↔
    k < s.2.blocks.next ∧ ∀ d, ¬ s.2.blocks.Live ⟨d, k⟩

theorem Exchanged.sound {s : LinkedList ReleaseProc × Packets} {pool : Pool}
    (h : Exchanged s pool) : Sound s pool := by
  obtain ⟨honce, hfreed⟩ := Heap.logged_nil_iff.mp h.kept.logged
  refine ⟨h.owned.accounted, fun a r hr => ?_, fun a b r q hr hq hdata => ?_, h.kept.memory,
    fun d hd => ?_, honce, hfreed⟩
  · obtain ⟨c, hc, _, _, hcapacity⟩ := h.kept.backed a r hr
    have hmemory := h.kept.memory r.data
    rw [hc] at hmemory
    obtain ⟨m, hm, hcontents⟩ := Option.map_eq_some_iff.mp hmemory
    have hsize : m.size = c.bytes.length := by rw [← hcontents, Storage.contents_length]
    have hin := h.kept.inside a r hr
    refine ⟨hin.offset, hin.size, hin.bound, ?_⟩
    have hbehind : bytesBehind (s.2.view r).data = m.size := by
      rw [Packets.view, hm, bytesBehind_some]
    rw [hbehind, hsize, ← hcapacity]
    exact hin.bound
  · obtain ⟨c, hc, hca, _⟩ := h.kept.backed a r hr
    obtain ⟨e, he, heb, _⟩ := h.kept.backed b q hq
    rw [hdata, he] at hc
    cases hc
    exact hca.symm.trans heb
  · have hmemory := h.kept.memory d
    obtain ⟨m, hm⟩ := Option.isSome_iff_exists.mp hd
    rw [hm] at hmemory
    obtain ⟨b, hb, _⟩ := Option.map_eq_some_iff.mp hmemory.symm
    by_cases hnull : b.packet = NULL
    · exact Or.inr ⟨b, hb, hnull, h.kept.unfreed d b hb hnull⟩
    · obtain ⟨r, hr, hdata⟩ := h.kept.used d b hb hnull
      exact Or.inl ⟨b.packet, r, hr, hdata⟩

/-- As long as a program refers to packets that are alive, asks for windows upon their data
and accesses bytes inside the windows, every byte it loads is the one last stored there,
through whichever window and whatever lists the packet has been on; and the data of a packet
is freed with it, once, unless it is unfreed and then only by the program. -/
theorem packets_refined {fuel : Nat} (hfuel : INT_MAX.toNat < fuel) {calls : List Call}
    {replies : List Reply} {pool : Pool}
    (hcalls : exec (Pool.step INT_MAX.toNat) Pool.empty calls = some (replies, pool)) :
    ∃ s, exec (step fuel) (LinkedList.empty, Packets.empty) calls = some (replies, s) ∧
      Sound s pool := by
  obtain ⟨s, hrun, h⟩ := (implements_pool hfuel).exec exchanged_empty hcalls
  exact ⟨s, hrun, h.sound⟩

/-- A packet is filled, put into a list and taken out with its header off; its data is then
unfreed and outlives it, while another packet comes to lie at its address. -/
def passedPackets : List Call :=
  [.share (.list (.init 1 .packet)), .create 70 200 6, .store 70 0 [9, 8, 1, 2, 3, 4],
    .setdts 70 40, .share (.list (.add 1 70 10)), .share (.autorelease .packet 70),
    .setrange 70 (.setrange2 2 4), .create 80 210 3, .share (.list (.add 1 80 11)),
    .store 70 1 [7, 7], .share (.list (.removeFirst 1)), .load 70 0 4, .fields 70,
    .unfreeData 70 true, .share (.autorelease .packet 70), .create 70 220 2,
    .loadBlock 200 0 6, .share (.autorelease .packet 80), .share (.list (.clear 1)),
    .freeBlock 200, .setrange 70 (.setrange3 1 (-1)), .load 70 0 1,
    .share (.autorelease .packet 70)]

theorem passed_packets_refined : ∃ s pool,
    exec (step (2 ^ 31)) (LinkedList.empty, Packets.empty) passedPackets =
      some ([.shared (.status 0), .shared (.object 70), .done, .done, .shared (.status 0),
        .shared .done, .done, .shared (.object 80), .shared (.status 0), .done,
        .shared (.object 70), .bytes [1, 7, 7, 4], .fields 200 2 4 6 40, .done, .shared .done,
        .shared (.object 70), .bytes [9, 8, 1, 7, 7, 4], .shared .done, .shared .done, .done,
        .done, .bytes [0], .shared .done], s) ∧
      pool.owners.handles 70 = 0 ∧ (pool.packets 70).isNone ∧ (pool.blocks 200).isNone ∧
      Sound s pool := by
  obtain ⟨s, hrun, hsound⟩ := @packets_refined (2 ^ 31) (by decide) passedPackets _ _ rfl
  exact ⟨s, _, hrun, rfl, rfl, rfl, hsound⟩

end Awe.PacketQueues
