import Awe.Lib.Hex

namespace Awe

/-- What has been printed, and the indices of the bytes that have been read. -/
structure Screen where
  out : List Char
  reads : List (BitVec 32)

namespace HexDump

/-- `isprint`, in the locale a program starts in. -/
def isprint (c : BitVec 8) : Bool := 0x20 ≤ c.toNat ∧ c.toNat ≤ 0x7e

def shown (b : BitVec 8) : Char := if isprint b then Char.ofNat b.toNat else '.'

def print (s : Screen) (text : List Char) : Screen := { s with out := s.out ++ text }

variable (data : List (BitVec 8)) (len : BitVec 32)

/-- `_data[index]`; `none` is a read outside of the data. -/
def readByte (s : Screen) (index : BitVec 32) : Option (BitVec 8 × Screen) :=
  data[index.toNat]?.map (fun b => (b, { s with reads := s.reads ++ [index] }))

/-- A `for` loop that counts up to `n`. -/
def forLoop (n : BitVec 32) (body : Screen → BitVec 32 → Option Screen) (s : Screen) :
    Option Screen :=
  (List.range n.toNat).foldlM (fun s i => body s (BitVec.ofNat 32 i)) s

def field (offset : BitVec 32) (s : Screen) (i : BitVec 32) : Option Screen := do
  let s := if i = 8 then print s [' '] else s
  if offset + i < len then
    let (b, s) ← readByte data s (offset + i)
    some (print s (Hex.write 2 b.toNat ++ [' ']))
  else some (print s [' ', ' ', ' '])

def character (offset : BitVec 32) (s : Screen) (i : BitVec 32) : Option Screen := do
  let (b, s) ← readByte data s (offset + i)
  if isprint b then
    let (b, s) ← readByte data s (offset + i)
    some (print s [Char.ofNat b.toNat])
  else some (print s ['.'])

/-- One round of the `while` loop, but for the step of the offset. -/
def row (offset : BitVec 32) (s : Screen) : Option Screen := do
  let s := print s (['0', 'x'] ++ Hex.write 4 offset.toNat ++ [' ', ' '])
  let n := len - offset
  let n := if 16 < n then 16 else n
  let s ← forLoop 16 (field data len offset) s
  let s := print s [' ']
  let s ← forLoop n (character data offset) s
  some (print s ['\n'])

inductive Progress where
  | running (offset : BitVec 32) (s : Screen)
  | returned (s : Screen)

/-- The `while` loop, for `fuel` rounds at most. -/
def rounds : Nat → BitVec 32 → Screen → Option Progress
  | 0, offset, s => some (.running offset s)
  | fuel + 1, offset, s =>
    if offset < len then do
      let s ← row data len offset s
      rounds fuel (offset + 16) s
    else some (.returned s)

def hexdump (fuel : Nat) : Option Progress := rounds data len fuel 0 ⟨[], []⟩

end HexDump

end Awe
