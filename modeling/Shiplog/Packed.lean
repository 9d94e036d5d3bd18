import Shiplog.Bytes

/-!
The packed layout of values as bytes: words of eight bytes, least significant
first; a flag is one byte, 0 or 1; a sequence is its length as a word and its
items; a record is its fields in order. A layout is a writer with the reader that
undoes it, and layouts of parts combine to layouts of the whole. A reader takes
what it needs from the front and leaves the rest.
-/
namespace Shiplog

namespace Packed

/-- What is wrong with bytes that do not spell a value. -/
inductive Flaw where
  /-- The bytes end before the value does. -/
  | endOfInput
  | badFlag (b : UInt8)
  deriving DecidableEq

def Flaw.text : Flaw → String
  | endOfInput => "io error: unexpected end of file"
  | badFlag b => s!"invalid u8 while decoding bool, expected 0 or 1, found {b.toNat}"

end Packed

/-- How values of a type are written as bytes and read back. -/
structure Layout (α : Type) where
  write : α → Bytes
  read : Bytes → Except Packed.Flaw (α × Bytes)

namespace Layout

variable {α β : Type}

def split (n : Nat) (bs : Bytes) : Except Packed.Flaw (Bytes × Bytes) :=
  if Bytes.atLeast n bs then .ok (bs.take n, bs.drop n) else .error .endOfInput

def word : Layout UInt64 where
  write n := Bytes.ofNatLE 8 n.toNat
  read bs := (split 8 bs).map fun (spelt, rest) => (UInt64.ofNat (Bytes.toNatLE spelt), rest)

def flag : Layout Bool where
  write b := [if b then 1 else 0]
  read
    | [] => .error .endOfInput
    | b :: rest =>
      if b = 0 then .ok (false, rest) else if b = 1 then .ok (true, rest) else .error (.badFlag b)

/-- A byte string: its length and its bytes. -/
def bytes : Layout Bytes where
  write bs := word.write (UInt64.ofNat bs.length) ++ bs
  read bs := do
    let (length, rest) ← word.read bs
    split length.toNat rest

def both (first : Layout α) (second : Layout β) : Layout (α × β) where
  write p := first.write p.1 ++ second.write p.2
  read bs := do
    let (a, rest) ← first.read bs
    let (b, rest) ← second.read rest
    return ((a, b), rest)

/-- A layout for a type whose values correspond to those of another. -/
def imap (toFields : β → α) (ofFields : α → β) (fields : Layout α) : Layout β where
  write b := fields.write (toFields b)
  read bs := (fields.read bs).map fun (a, rest) => (ofFields a, rest)

def readItems (item : Layout α) : Nat → Bytes → Except Packed.Flaw (List α × Bytes)
  | 0, bs => .ok ([], bs)
  | n + 1, bs => do
    let (a, rest) ← item.read bs
    let (as, rest) ← readItems item n rest
    return (a :: as, rest)

/-- A sequence: its length and its items. -/
def list (item : Layout α) : Layout (List α) where
  write as := word.write (UInt64.ofNat as.length) ++ as.flatMap item.write
  read bs := do
    let (length, rest) ← word.read bs
    readItems item length.toNat rest

/-- The value at the front of some bytes, whatever follows. -/
def decode (layout : Layout α) (bs : Bytes) : Except Packed.Flaw α :=
  (layout.read bs).map Prod.fst

end Layout
end Shiplog
