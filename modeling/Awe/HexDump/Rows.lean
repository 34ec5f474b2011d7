import Awe.HexDump.Model

namespace Awe
namespace HexDump

def lines : List Char → List (List Char)
  | [] => []
  | c :: text =>
    if c = '\n' then [] :: lines text
    else match lines text with
      | [] => [[c]]
      | line :: rest => (c :: line) :: rest

structure Row where
  offset : Nat
  bytes : List (BitVec 8)
  deriving DecidableEq

/-- The byte in the `i`-th two-digit field; the fields are in two groups of eight. -/
def readField (columns : List Char) (i : Nat) : Option (BitVec 8) :=
  (Hex.read ((columns.drop (if i < 8 then 3 * i else 3 * i + 1)).take 2)).map (BitVec.ofNat 8)

def readRow : List Char → Option Row
  | '0' :: 'x' :: line => do
    let digits := line.takeWhile (· ≠ ' ')
    let offset ← Hex.read digits
    let columns := line.drop (digits.length + 2)
    some ⟨offset, (List.range 16).filterMap (readField columns)⟩
  | _ => none

def readDump (text : List Char) : Option (List Row) := (lines text).mapM readRow

def fieldText (bytes : List (BitVec 8)) (i : Nat) : List Char :=
  (if i = 8 then [' '] else []) ++
    match bytes[i]? with
    | some b => Hex.write 2 b.toNat ++ [' ']
    | none => [' ', ' ', ' ']

def line (offset : Nat) (bytes : List (BitVec 8)) : List Char :=
  ['0', 'x'] ++ Hex.write 4 offset ++ [' ', ' '] ++ (List.range 16).flatMap (fieldText bytes) ++
    [' '] ++ bytes.map shown

theorem lines_append {text : List Char} (h : '\n' ∉ text) (rest : List Char) :
    lines (text ++ '\n' :: rest) = text :: lines rest := by
  induction text with
  | nil => rw [List.nil_append, lines, if_pos rfl]
  | cons c text ih =>
    rw [List.mem_cons, not_or] at h
    rw [List.cons_append, lines, if_neg (Ne.symm h.1), ih h.2]

theorem shown_ne_newline (b : BitVec 8) : shown b ≠ '\n' := by
  have hall : ∀ n < 127, 32 ≤ n → Char.ofNat n ≠ '\n' := by decide
  unfold shown
  cases hprint : isprint b with
  | false =>
    rw [if_neg (by decide)]
    decide
  | true =>
    obtain ⟨hlow, hhigh⟩ := of_decide_eq_true hprint
    exact hall b.toNat (by omega) hlow

theorem ne_of_digit {c d : Char} (hc : (Hex.digit? c).isSome) (hd : Hex.digit? d = none) :
    c ≠ d := by
  intro he
  rw [he, hd] at hc
  cases hc

theorem newline_not_mem_line (offset : Nat) (bytes : List (BitVec 8)) :
    '\n' ∉ line offset bytes := by
  have hdigits : ∀ width n, '\n' ∉ Hex.write width n := fun width n h =>
    ne_of_digit (Hex.digit_of_write h) (by decide) rfl
  have hfields : ∀ i, '\n' ∉ fieldText bytes i := by
    intro i h
    unfold fieldText at h
    rcases List.mem_append.mp h with h | h
    · split at h <;> simp at h
    · split at h
      · simp [hdigits] at h
      · simp at h
  have hshown : '\n' ∉ bytes.map shown := by
    intro h
    obtain ⟨b, _, hb⟩ := List.mem_map.mp h
    exact shown_ne_newline b hb
  simp [line, hdigits, hfields, hshown]

/-- Where the `i`-th field is in its line. -/
theorem length_fields (bytes : List (BitVec 8)) {i : Nat} (hi : i ≤ 16) :
    ((List.range i).flatMap (fieldText bytes)).length = if i ≤ 8 then 3 * i else 3 * i + 1 := by
  induction i with
  | zero => rfl
  | succ i ih =>
    have hfield : (fieldText bytes i).length = if i = 8 then 4 else 3 := by
      unfold fieldText
      rw [List.length_append]
      have htext : (match bytes[i]? with
          | some b => Hex.write 2 b.toNat ++ [' ']
          | none => [' ', ' ', ' ']).length = 3 := by
        split
        · rename_i b _
          rw [List.length_append, Hex.length_write (by decide) b.isLt]
          rfl
        · rfl
      rw [htext]
      split <;> rfl
    rw [List.range_succ, List.flatMap_append, List.length_append, ih (by omega),
      List.flatMap_singleton, hfield]
    split <;> split <;> split <;> omega

theorem readField_fields (bytes : List (BitVec 8)) (rest : List Char) {i : Nat} (hi : i < 16) :
    readField ((List.range 16).flatMap (fieldText bytes) ++ rest) i = bytes[i]? := by
  let front := (List.range i).flatMap (fieldText bytes)
  let gap := if i = 8 then [' '] else []
  obtain ⟨tail, htail⟩ : ∃ tail, (List.range 16).flatMap (fieldText bytes) ++ rest =
      (front ++ gap) ++ ((match bytes[i]? with
        | some b => Hex.write 2 b.toNat ++ [' ']
        | none => [' ', ' ', ' ']) ++ tail) := by
    obtain ⟨m, hm⟩ : ∃ m, 16 = i + (m + 1) := ⟨15 - i, by omega⟩
    rw [hm, List.range_add, List.range_succ_eq_map]
    refine ⟨(((List.range m).map Nat.succ).map (i + ·)).flatMap (fieldText bytes) ++ rest, ?_⟩
    rw [List.flatMap_append, List.map_cons, List.flatMap_cons, Nat.add_zero, fieldText]
    simp only [front, gap, List.append_assoc]
  have hstart : (if i < 8 then 3 * i else 3 * i + 1) = (front ++ gap).length := by
    have hfront : front.length = if i ≤ 8 then 3 * i else 3 * i + 1 :=
      length_fields bytes (Nat.le_of_lt hi)
    have hgap : gap.length = if i = 8 then 1 else 0 := by
      simp only [gap]
      split <;> rfl
    rw [List.length_append, hfront, hgap]
    split <;> split <;> split <;> omega
  rw [readField, htail, hstart, List.drop_left]
  cases bytes[i]? with
  | none => rfl
  | some b =>
    have hlength : (Hex.write 2 b.toNat).length = 2 := Hex.length_write (by decide) b.isLt
    simp only [List.append_assoc]
    rw [List.take_left' hlength, Hex.read_write]
    simp

theorem filterMap_getElem? {α : Type} {l : List α} {n : Nat} (h : l.length ≤ n) :
    (List.range n).filterMap (fun i => l[i]?) = l := by
  induction l generalizing n with
  | nil => simp
  | cons a l ih =>
    obtain ⟨n, rfl⟩ : ∃ m, n = m + 1 := ⟨n - 1, by rw [List.length_cons] at h; omega⟩
    rw [List.range_succ_eq_map, List.filterMap_cons, List.filterMap_map]
    have hrest := ih (Nat.le_of_succ_le_succ h)
    simpa using hrest

/-- A line says which row it is of. -/
theorem readRow_line (offset : Nat) {bytes : List (BitVec 8)} (h : bytes.length ≤ 16) :
    readRow (line offset bytes) = some ⟨offset, bytes⟩ := by
  let columns := (List.range 16).flatMap (fieldText bytes) ++ ([' '] ++ bytes.map shown)
  have hline : line offset bytes =
      '0' :: 'x' :: (Hex.write 4 offset ++ (' ' :: ' ' :: columns)) := by
    simp [line, columns]
  have hdigits : (Hex.write 4 offset ++ (' ' :: ' ' :: columns)).takeWhile (· ≠ ' ') =
      Hex.write 4 offset := by
    have hblank : ∀ c ∈ Hex.write 4 offset, decide (c ≠ ' ') = true := fun c hc =>
      decide_eq_true (ne_of_digit (Hex.digit_of_write hc) rfl)
    rw [List.takeWhile_append_of_pos hblank]
    simp
  have hcolumns : (Hex.write 4 offset ++ (' ' :: ' ' :: columns)).drop
      ((Hex.write 4 offset).length + 2) = columns := by
    rw [← List.drop_drop, List.drop_left]
    rfl
  have hbytes : (List.range 16).filterMap (readField columns) = bytes := by
    rw [← filterMap_getElem? h]
    exact List.filterMap_congr (fun i hi => readField_fields bytes _ (List.mem_range.mp hi))
  rw [hline, readRow, hdigits]
  simp only [Hex.read_write, Option.bind_eq_bind, Option.bind_some, hcolumns, hbytes]

theorem readDump_rows (bytes : Nat → List (BitVec 8)) (h : ∀ j, (bytes j).length ≤ 16)
    (rows : List Nat) :
    readDump (rows.flatMap (fun j => line (16 * j) (bytes j) ++ ['\n'])) =
      some (rows.map (fun j => ⟨16 * j, bytes j⟩)) := by
  induction rows with
  | nil => rfl
  | cons j rows ih =>
    rw [List.flatMap_cons, List.append_assoc, List.singleton_append, readDump,
      lines_append (newline_not_mem_line _ _), List.mapM_cons, readRow_line _ (h j)]
    rw [readDump] at ih
    simp [ih]

end HexDump

end Awe
