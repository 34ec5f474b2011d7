import Awe.HexDump.Rows

namespace Awe
namespace HexDump

variable (data : List (BitVec 8)) (len : BitVec 32)

/-- From `s` to `t` nothing but `text` is printed, and nothing from `len` on is read. -/
structure Prints (len : BitVec 32) (s : Screen) (text : List Char) (t : Screen) : Prop where
  out : t.out = s.out ++ text
  reads : (∀ i ∈ s.reads, i < len) → ∀ i ∈ t.reads, i < len

def chunk (offset : Nat) : List (BitVec 8) := ((data.take len.toNat).drop offset).take 16

section

variable {data : List (BitVec 8)} {len : BitVec 32} {s t u : Screen} {a b : List Char}

theorem Prints.refl (s : Screen) : Prints len s [] s := ⟨(List.append_nil _).symm, id⟩

theorem Prints.trans (h : Prints len s a t) (h' : Prints len t b u) : Prints len s (a ++ b) u where
  out := by rw [h'.out, h.out, List.append_assoc]
  reads hs := h'.reads (h.reads hs)

theorem prints_print (s : Screen) (text : List Char) : Prints len s text (print s text) :=
  ⟨rfl, id⟩

theorem readByte_prints (hdata : len.toNat ≤ data.length) (s : Screen) {index : BitVec 32}
    (h : index < len) : ∃ b t, data[index.toNat]? = some b ∧
      readByte data s index = some (b, t) ∧ Prints len s [] t := by
  have hlt : index.toNat < data.length := Nat.lt_of_lt_of_le (BitVec.lt_def.mp h) hdata
  have hget : data[index.toNat]? = some data[index.toNat] := List.getElem?_eq_getElem hlt
  refine ⟨data[index.toNat], { s with reads := s.reads ++ [index] }, hget, ?_,
    (List.append_nil _).symm, ?_⟩
  · rw [readByte, hget]
    rfl
  intro hs i hi
  rcases List.mem_append.mp hi with hi | hi
  · exact hs i hi
  · rw [List.mem_singleton.mp hi]
    exact h

/-- A loop prints what its rounds print, one after the other. -/
theorem forLoop_prints {n : BitVec 32} {body : Screen → BitVec 32 → Option Screen}
    {text : Nat → List Char} (h : ∀ i < n.toNat, ∀ s, ∃ t,
      body s (BitVec.ofNat 32 i) = some t ∧ Prints len s (text i) t) (s : Screen) :
    ∃ t, forLoop n body s = some t ∧ Prints len s ((List.range n.toNat).flatMap text) t := by
  unfold forLoop
  generalize n.toNat = n at h
  induction n with
  | zero => exact ⟨s, rfl, Prints.refl s⟩
  | succ n ih =>
    obtain ⟨t, hloop, ht⟩ := ih (fun i hi => h i (Nat.lt_succ_of_lt hi))
    obtain ⟨u, hbody, hu⟩ := h n (Nat.lt_succ_self n) t
    refine ⟨u, ?_, ?_⟩
    · rw [List.range_succ, List.foldlM_append, hloop]
      simp [hbody]
    · rw [List.range_succ, List.flatMap_append, List.flatMap_singleton]
      exact ht.trans hu

/-- The offsets of rows leave room for the fields. -/
theorem toNat_add_field {offset : BitVec 32} (h : offset.toNat % 16 = 0) {i : Nat} (hi : i < 16) :
    (offset + BitVec.ofNat 32 i).toNat = offset.toNat + i := by
  have hlt := offset.isLt
  rw [BitVec.toNat_add, BitVec.toNat_ofNat]
  omega

theorem getElem?_chunk (offset : Nat) {i : Nat} (hi : i < 16) :
    (chunk data len offset)[i]? = if offset + i < len.toNat then data[offset + i]? else none := by
  rw [chunk, List.getElem?_take, if_pos hi, List.getElem?_drop, List.getElem?_take]

theorem length_chunk (hdata : len.toNat ≤ data.length) (offset : Nat) :
    (chunk data len offset).length = min 16 (len.toNat - offset) := by
  rw [chunk, List.length_take, List.length_drop, List.length_take]
  omega

theorem field_prints (hdata : len.toNat ≤ data.length) {offset : BitVec 32}
    (hoffset : offset.toNat % 16 = 0) {i : Nat} (hi : i < 16) (s : Screen) :
    ∃ t, field data len offset s (BitVec.ofNat 32 i) = some t ∧
      Prints len s (fieldText (chunk data len offset.toNat) i) t := by
  have hgap : Prints len s (if i = 8 then [' '] else [])
      (if BitVec.ofNat 32 i = 8 then print s [' '] else s) := by
    have height : BitVec.ofNat 32 i = 8 ↔ i = 8 := by
      rw [← BitVec.toNat_inj, BitVec.toNat_ofNat, Nat.mod_eq_of_lt (by omega)]
      rfl
    by_cases h8 : i = 8
    · rw [if_pos h8, if_pos (height.mpr h8)]
      exact prints_print s _
    · rw [if_neg h8, if_neg (mt height.mp h8)]
      exact Prints.refl s
  have hindex := toNat_add_field hoffset hi
  unfold field fieldText
  rw [getElem?_chunk _ hi, ← hindex]
  by_cases hlt : offset + BitVec.ofNat 32 i < len
  · obtain ⟨b, t, hget, hread, ht⟩ := readByte_prints hdata _ hlt
    rw [if_pos (BitVec.lt_def.mp hlt), hget]
    refine ⟨_, ?_, hgap.trans (ht.trans (prints_print t _))⟩
    simp only [hlt, if_true, hread]
    rfl
  · rw [if_neg (fun h => hlt (BitVec.lt_def.mpr h))]
    refine ⟨_, ?_, hgap.trans (prints_print _ _)⟩
    rw [if_neg hlt]

theorem character_prints (hdata : len.toNat ≤ data.length) {offset : BitVec 32}
    (hoffset : offset.toNat % 16 = 0) {i : Nat} (hi : i < (chunk data len offset.toNat).length)
    (s : Screen) : ∃ t, character data offset s (BitVec.ofNat 32 i) = some t ∧
      Prints len s ((chunk data len offset.toNat)[i]?.map shown).toList t := by
  rw [length_chunk hdata] at hi
  have hi16 : i < 16 := by omega
  have hindex := toNat_add_field hoffset hi16
  have hlt : offset + BitVec.ofNat 32 i < len := by
    rw [BitVec.lt_def, hindex]
    omega
  obtain ⟨b, t, hget, hread, ht⟩ := readByte_prints hdata s hlt
  rw [getElem?_chunk _ hi16, ← hindex, if_pos (BitVec.lt_def.mp hlt), hget]
  unfold character shown
  cases hprint : isprint b with
  | false =>
    refine ⟨print t ['.'], ?_, ?_⟩
    · simp [hread, hprint]
    · have htext := ht.trans (prints_print t ['.'])
      simpa [hprint] using htext
  | true =>
    -- The byte is read again for `printf`.
    obtain ⟨c, u, hagain, hread', hu⟩ := readByte_prints hdata t hlt
    cases hget.symm.trans hagain
    refine ⟨print u [Char.ofNat b.toNat], ?_, ?_⟩
    · simp [hread, hprint, hread']
    · have htext := ht.trans (hu.trans (prints_print u [Char.ofNat b.toNat]))
      simpa [hprint] using htext

theorem flatMap_getElem? {α β : Type} (f : α → β) (l : List α) :
    (List.range l.length).flatMap (fun i => (l[i]?.map f).toList) = l.map f := by
  induction l with
  | nil => rfl
  | cons a l ih =>
    rw [List.length_cons, List.range_succ_eq_map, List.flatMap_cons, List.flatMap_map]
    simpa using ih

/-- A row prints its line, wherever its offset is. -/
theorem row_prints (hdata : len.toNat ≤ data.length) {offset : BitVec 32}
    (hoffset : offset.toNat % 16 = 0) (hlt : offset < len) (s : Screen) :
    ∃ t, row data len offset s = some t ∧
      Prints len s (line offset.toNat (chunk data len offset.toNat) ++ ['\n']) t := by
  have hcount : (if 16 < len - offset then 16 else len - offset).toNat =
      (chunk data len offset.toNat).length := by
    have hsub : (len - offset).toNat = len.toNat - offset.toNat :=
      BitVec.toNat_sub_of_le (BitVec.le_of_lt hlt)
    rw [length_chunk hdata, ← hsub]
    by_cases h : 16 < len - offset
    · rw [if_pos h]
      have h : 16 < (len - offset).toNat := h
      exact (Nat.min_eq_left (Nat.le_of_lt h)).symm
    · rw [if_neg h]
      have h : ¬ 16 < (len - offset).toNat := h
      omega
  obtain ⟨t, hfields, ht⟩ := forLoop_prints (n := 16)
    (fun i hi => field_prints hdata hoffset (i := i) hi)
    (print s (['0', 'x'] ++ Hex.write 4 offset.toNat ++ [' ', ' ']))
  obtain ⟨u, hchars, hu⟩ := forLoop_prints (fun i hi => character_prints hdata hoffset
    (Nat.lt_of_lt_of_eq hi hcount)) (print t [' '])
  refine ⟨print u ['\n'], ?_, ?_⟩
  · simp only [row, hfields, hchars, Option.bind_eq_bind, Option.bind_some]
  · rw [hcount, flatMap_getElem?] at hu
    have hrow := ((((prints_print s _).trans ht).trans (prints_print t _)).trans hu).trans
      (prints_print u ['\n'])
    exact hrow

theorem rounds_returns (hdata : len.toNat ≤ data.length) (hlen : len.toNat ≤ 2 ^ 32 - 16)
    {k m : Nat} (hm : (len.toNat + 15) / 16 = k + m) (s : Screen) :
    ∃ t, rounds data len (m + 1) (BitVec.ofNat 32 (16 * k)) s = some (.returned t) ∧
      Prints len s ((List.range' k m).flatMap (fun j =>
        line (16 * j) (chunk data len (16 * j)) ++ ['\n'])) t := by
  induction m generalizing k s with
  | zero =>
    have hoffset : (BitVec.ofNat 32 (16 * k)).toNat = 16 * k := by
      rw [BitVec.toNat_ofNat]
      omega
    have hend : ¬ BitVec.ofNat 32 (16 * k) < len := by
      rw [BitVec.lt_def, hoffset]
      omega
    exact ⟨s, by rw [rounds, if_neg hend], Prints.refl s⟩
  | succ m ih =>
    have hoffset : (BitVec.ofNat 32 (16 * k)).toNat = 16 * k := by
      rw [BitVec.toNat_ofNat]
      omega
    have hlt : BitVec.ofNat 32 (16 * k) < len := by
      rw [BitVec.lt_def, hoffset]
      omega
    obtain ⟨t, hrow, ht⟩ := row_prints hdata (by rw [hoffset]; omega) hlt s
    obtain ⟨u, hrounds, hu⟩ := @ih (k + 1) (by omega) t
    have hnext : BitVec.ofNat 32 (16 * k) + 16 = BitVec.ofNat 32 (16 * (k + 1)) := by
      rw [Nat.mul_add, BitVec.ofNat_add]
      rfl
    refine ⟨u, ?_, ?_⟩
    · rw [rounds, if_pos hlt, hrow, Option.bind_eq_bind, Option.bind_some, hnext, hrounds]
    · rw [hoffset] at ht
      rw [List.range'_succ, List.flatMap_cons]
      exact ht.trans hu

/-- Past the last offset that a row can have, `offset` starts again from 0. -/
theorem rounds_run_on (hdata : len.toNat ≤ data.length) (hlen : 2 ^ 32 - 16 < len.toNat)
    (fuel : Nat) {offset : BitVec 32} (hoffset : offset.toNat % 16 = 0) (s : Screen) :
    ∃ o t, rounds data len fuel offset s = some (.running o t) := by
  induction fuel generalizing offset s with
  | zero => exact ⟨offset, s, rfl⟩
  | succ fuel ih =>
    have hbound := offset.isLt
    have hlt : offset < len := by
      rw [BitVec.lt_def]
      omega
    have hnext : (offset + 16).toNat % 16 = 0 := by
      rw [BitVec.toNat_add]
      change (offset.toNat + 16) % 2 ^ 32 % 16 = 0
      omega
    obtain ⟨t, hrow, _⟩ := row_prints hdata hoffset hlt s
    obtain ⟨o, u, hrounds⟩ := ih hnext t
    refine ⟨o, u, ?_⟩
    rw [rounds, if_pos hlt, hrow, Option.bind_eq_bind, Option.bind_some, hrounds]

/-- The rows cut the data up, and leave nothing out. -/
theorem flatMap_chunks (n : Nat) :
    (List.range n).flatMap (fun j => chunk data len (16 * j)) =
      (data.take len.toNat).take (16 * n) := by
  induction n with
  | zero => simp
  | succ n ih =>
    rw [List.range_succ, List.flatMap_append, ih, List.flatMap_singleton, chunk, Nat.mul_succ,
      List.take_add]

end

/-- What is on the screen is a complete dump of the first `len` bytes. -/
structure Complete (s : Screen) (rows : List Row) : Prop where
  text : readDump s.out = some rows
  count : rows.length = (len.toNat + 15) / 16
  offsets : ∀ k row, rows[k]? = some row → row.offset = 16 * k
  bytes : rows.flatMap Row.bytes = data.take len.toNat
  reads : ∀ i ∈ s.reads, i < len

/-- The dump comes to its end, and is complete then, unless `offset` passes `2 ^ 32`. -/
theorem hexdump_complete_iff (data : List (BitVec 8)) (len : BitVec 32)
    (hdata : len.toNat ≤ data.length) :
    (∃ fuel s rows, hexdump data len fuel = some (.returned s) ∧ Complete data len s rows) ↔
      len.toNat ≤ 2 ^ 32 - 16 := by
  constructor
  · rintro ⟨fuel, s, _, hreturned, _⟩
    by_contra hlen
    obtain ⟨o, t, hrunning⟩ := @rounds_run_on data len hdata (by omega) fuel 0 rfl ⟨[], []⟩
    cases hreturned.symm.trans hrunning
  · intro hlen
    let count := (len.toNat + 15) / 16
    obtain ⟨s, hreturned, hprints⟩ :=
      rounds_returns hdata hlen (k := 0) (m := count) (Nat.zero_add _).symm ⟨[], []⟩
    have hchunks : ∀ j, (chunk data len (16 * j)).length ≤ 16 := fun j => by
      rw [length_chunk hdata]
      exact Nat.min_le_left _ _
    refine ⟨count + 1, s, (List.range count).map (fun j => ⟨16 * j, chunk data len (16 * j)⟩),
      hreturned, ?_, ?_, ?_, ?_, ?_⟩
    · rw [hprints.out, List.nil_append, ← List.range_eq_range']
      exact readDump_rows _ hchunks _
    · rw [List.length_map, List.length_range]
    · intro k row hrow
      rw [List.getElem?_map] at hrow
      obtain ⟨j, hj, rfl⟩ := Option.map_eq_some_iff.mp hrow
      obtain ⟨_, rfl⟩ := List.getElem?_eq_some_iff.mp hj
      exact congrArg (16 * ·) (List.getElem_range _)
    · rw [List.flatMap_map]
      refine (flatMap_chunks count).trans (List.take_of_length_le ?_)
      rw [List.length_take]
      omega
    · exact hprints.reads (fun i hi => by cases hi)

def sampleData : List (BitVec 8) := [0x61, 0x77, 0x65, 0x0a, 0, 0xff, 7, 8, 9, 10, 11, 12, 13, 14,
  15, 16, 0x7e, 0x20, 33]

theorem sample_complete : ∃ fuel s rows, hexdump sampleData 18 fuel = some (.returned s) ∧
    Complete sampleData 18 s rows := by
  apply (hexdump_complete_iff sampleData 18 (by decide)).mpr
  decide

example : (hexdump sampleData 18 3).map (fun | .returned s => s.out | .running .. => []) = some
    ("0x0000  61 77 65 0a 00 ff 07 08  09 0a 0b 0c 0d 0e 0f 10  awe.............\n" ++
      "0x0010  7e 20                                             ~ \n").toList := by
  decide +kernel

/-- A dump of `UINT_MAX` bytes goes round and round. -/
theorem hexdump_of_uint_max : ¬ ∃ fuel s rows,
    hexdump (List.replicate 4294967295 0) 0xffffffff fuel = some (.returned s) ∧
      Complete (List.replicate 4294967295 0) 0xffffffff s rows := by
  rintro ⟨fuel, s, _, hreturned, _⟩
  have hdata : (0xffffffff : BitVec 32).toNat ≤
      (List.replicate 4294967295 (0 : BitVec 8)).length := by
    rw [List.length_replicate]
    decide
  obtain ⟨o, t, hrunning⟩ := @rounds_run_on _ _ hdata (by decide) fuel 0 rfl ⟨[], []⟩
  cases hreturned.symm.trans hrunning

end HexDump

end Awe
