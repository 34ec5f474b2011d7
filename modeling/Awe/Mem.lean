import Mathlib.Data.List.Basic
import Awe.CTypes

namespace Awe

/-- Storage behind a pointer returned by the allocator. Offsets are the `Int`s
C computes them as, so a wrapped product may fall outside `0 .. size`. -/
structure Storage where
  size : Nat
  bytes : Int → UInt8

namespace Storage

def read (m : Storage) (off : Int) (n : Nat) : List UInt8 :=
  (List.range n).map (fun i : Nat => m.bytes (off + (i : Int)))

/-- `memcpy` of `data` to offset `off`. -/
def write (m : Storage) (off : Int) (data : List UInt8) : Storage :=
  { m with bytes := fun j =>
      if off ≤ j then (data[(j - off).toNat]?).getD (m.bytes j) else m.bytes j }

@[simp] theorem read_length (m : Storage) (off : Int) (n : Nat) :
    (m.read off n).length = n := by
  simp [read]

theorem read_write_same (m : Storage) (off : Int) (data : List UInt8) :
    (m.write off data).read off data.length = data := by
  apply List.ext_getElem
  · simp
  · intro i hi hd
    have hoff : off ≤ off + (i : Int) := by omega
    have hi' : (off + (i : Int) - off).toNat = i := by omega
    simp only [read, write, List.getElem_map, List.getElem_range, if_pos hoff, hi',
      List.getElem?_eq_getElem hd, Option.getD_some]

theorem read_write_apart (m : Storage) {off at' : Int} {data : List UInt8} {n : Nat}
    (h : at' + n ≤ off ∨ off + data.length ≤ at') :
    (m.write off data).read at' n = m.read at' n := by
  apply List.map_congr_left
  intro i hi
  have hin : i < n := List.mem_range.mp hi
  dsimp only [write]
  split
  · rename_i hle
    have hout : data.length ≤ (at' + (i : Int) - off).toNat := by omega
    rw [List.getElem?_eq_none hout]
    rfl
  · rfl

theorem write_bytes_outside (m : Storage) {off j : Int} {data : List UInt8}
    (h : j < off ∨ off + data.length ≤ j) : (m.write off data).bytes j = m.bytes j := by
  dsimp only [write]
  split
  · have hout : data.length ≤ (j - off).toNat := by omega
    rw [List.getElem?_eq_none hout]
    rfl
  · rfl

/-- `memcpy` out of the storage; `none` where the range is not inside it. -/
def load (m : Storage) (off n : Nat) : Option (List UInt8) :=
  if off + n ≤ m.size then some (m.read off n) else none

/-- `memcpy` into the storage; `none` where the range is not inside it. -/
def store (m : Storage) (off : Nat) (data : List UInt8) : Option Storage :=
  if off + data.length ≤ m.size then some (m.write off data) else none

theorem load_of_le {m : Storage} {off n : Nat} (h : off + n ≤ m.size) :
    m.load off n = some (m.read off n) := if_pos h

theorem store_of_le {m : Storage} {off : Nat} {data : List UInt8} (h : off + data.length ≤ m.size) :
    m.store off data = some (m.write off data) := if_pos h

theorem write_nil (m : Storage) (off : Int) : m.write off [] = m := by
  simp [write]

/-- `memcpy` out of what may be no storage. Copying nothing touches none. -/
def copyFrom (p : Option Storage) (off n : Nat) : Option (List UInt8) :=
  if n = 0 then some [] else p.bind (fun m => m.load off n)

/-- `memcpy` into what may be no storage. -/
def copyTo (p : Option Storage) (off : Nat) (data : List UInt8) : Option (Option Storage) :=
  if data = [] then some p else p.bind (fun m => (m.store off data).map some)

theorem copyFrom_of_le {m : Storage} {off n : Nat} (h : off + n ≤ m.size) :
    copyFrom (some m) off n = some (m.read off n) := by
  unfold copyFrom
  split
  · rename_i hzero
    subst hzero
    rfl
  · exact load_of_le h

theorem copyTo_of_le {m : Storage} {off : Nat} {data : List UInt8}
    (h : off + data.length ≤ m.size) :
    copyTo (some m) off data = some (some (m.write off data)) := by
  unfold copyTo
  split
  · rename_i hnil
    rw [hnil, write_nil]
  · rw [Option.bind_some, store_of_le h, Option.map_some]

theorem copyTo_null {q : Option Storage} {off : Nat} {data : List UInt8}
    (h : copyTo none off data = some q) : data = [] := by
  unfold copyTo at h
  split at h
  · assumption
  · cases h

/-- A copy leaves the size of the storage as it was. -/
theorem copyTo_size {p q : Option Storage} {off : Nat} {data : List UInt8}
    (h : copyTo p off data = some q) : q.map size = p.map size := by
  unfold copyTo at h
  split at h
  · cases h
    rfl
  · obtain ⟨m, rfl, h⟩ := Option.bind_eq_some_iff.mp h
    obtain ⟨m', hstore, rfl⟩ := Option.map_eq_some_iff.mp h
    obtain ⟨_, hstore⟩ := Option.ite_none_right_eq_some.mp hstore
    cases hstore
    rfl

def contents (m : Storage) : List UInt8 := m.read 0 m.size

@[simp] theorem contents_length (m : Storage) : m.contents.length = m.size := read_length m 0 m.size

theorem read_eq_contents {m : Storage} {off n : Nat} (h : off + n ≤ m.size) :
    m.read off n = (m.contents.drop off).take n := by
  apply List.ext_getElem
  · simp
    omega
  · intro i hi _
    simp [contents, read]

theorem getElem_contents {m : Storage} {i : Nat} (h : i < m.contents.length) :
    m.contents[i] = m.bytes i := by
  simp [contents, read]

theorem contents_write {m : Storage} {off : Nat} {data : List UInt8}
    (h : off + data.length ≤ m.size) : (m.write off data).contents =
      m.contents.take off ++ data ++ m.contents.drop (off + data.length) := by
  have hmin : min off m.size = off := by omega
  apply List.ext_getElem
  · simp [write]
    omega
  · intro i hi _
    rw [getElem_contents hi]
    rcases Nat.lt_or_ge i off with hbefore | hafter
    · have hout : ((i : Int) < off ∨ (off : Int) + data.length ≤ i) := by omega
      rw [write_bytes_outside m hout, List.getElem_append_left (by simp; omega),
        List.getElem_append_left (by simp; omega), List.getElem_take, getElem_contents]
    · rcases Nat.lt_or_ge i (off + data.length) with hinside | hbehind
      · have hin : (off : Int) ≤ i := by omega
        have hindex : ((i : Int) - off).toNat = i - off := by omega
        have hget : i - off < data.length := by omega
        rw [List.getElem_append_left (by simp; omega), List.getElem_append_right (by simp; omega)]
        simp only [write, if_pos hin, hindex, List.getElem?_eq_getElem hget, Option.getD_some,
          List.length_take, contents_length, hmin]
      · have hout : ((i : Int) < off ∨ (off : Int) + data.length ≤ i) := by omega
        have hback : off + data.length + (i - (off + data.length)) = i := by omega
        rw [write_bytes_outside m hout, List.getElem_append_right (by simp; omega),
          List.getElem_drop, getElem_contents]
        simp only [List.length_append, List.length_take, contents_length, hmin, hback]

end Storage

def maxAllocSize : Nat := 2147483647

/-- `awe_malloc`'s own refusals: size 0 and sizes above `INT_MAX - 32`. Every
request it forwards to the system allocator is taken to be granted. -/
def malloc (size : Nat) (junk : Int → UInt8) : Option Storage :=
  if size = 0 ∨ maxAllocSize - 32 < size then none else some ⟨size, junk⟩

def mallocz (size : Nat) : Option Storage :=
  malloc size (fun _ => 0)

/-- The number of bytes behind a pointer; there are none behind `NULL`. -/
def bytesBehind (data : Option Storage) : Nat := (data.map Storage.size).getD 0

@[simp] theorem bytesBehind_none : bytesBehind none = 0 := rfl

@[simp] theorem bytesBehind_some (m : Storage) : bytesBehind (some m) = m.size := rfl

theorem bytesBehind_malloc (size : Nat) (junk : Int → UInt8) :
    bytesBehind (malloc size junk) = if size ≤ maxAllocSize - 32 then size else 0 := by
  unfold malloc
  split
  · rename_i hrefused
    rw [bytesBehind_none]
    split
    · omega
    · rfl
  · rename_i hgranted
    rw [if_pos (by omega)]
    rfl

theorem mallocz_of_fits {size : Nat} (h0 : 0 < size) (hu : size ≤ maxAllocSize - 32) :
    mallocz size = some ⟨size, fun _ => 0⟩ := by
  have : ¬ (size = 0 ∨ maxAllocSize - 32 < size) := by omega
  simp [mallocz, malloc, this]

end Awe
