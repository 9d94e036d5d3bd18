import Shiplog.Bytes

/-!
Hexadecimal text: numbers and bytes in lower-case digits, and their readers. The
reader of numbers takes digits of either case, the reader of bytes lower case only.
-/
namespace Shiplog.Hex

/-- The lowest `width` hexadecimal digits of a number, most significant first. -/
def digits : Nat → Nat → List Char
  | 0, _ => []
  | width + 1, n => digits width (n / 16) ++ [Nat.digitChar (n % 16)]

def ofNat (width n : Nat) : String :=
  String.ofList (digits width n)

def value? (c : Char) : Option Nat :=
  if '0' ≤ c ∧ c ≤ '9' then some (c.toNat - '0'.toNat)
  else if 'a' ≤ c ∧ c ≤ 'f' then some (c.toNat - 'a'.toNat + 10)
  else if 'A' ≤ c ∧ c ≤ 'F' then some (c.toNat - 'A'.toNat + 10)
  else none

/-- The number that digits spell on top of those already read. -/
def toNatFrom? : Nat → List Char → Option Nat
  | n, [] => some n
  | n, c :: cs => (value? c).bind fun d => toNatFrom? (16 * n + d) cs

/-- The number that digits spell, most significant first. -/
def toNat? (cs : List Char) : Option Nat :=
  toNatFrom? 0 cs

def ofByte (b : UInt8) : List Char :=
  digits 2 b.toNat

def ofBytes (bs : Bytes) : String :=
  String.ofList (bs.flatMap ofByte)

def isLower (c : Char) : Bool :=
  (decide ('0' ≤ c) && decide (c ≤ '9')) || (decide ('a' ≤ c) && decide (c ≤ 'f'))

/-- The bytes that pairs of lower-case digits spell. -/
def pairs? : List Char → Option Bytes
  | [] => some []
  | [_] => none
  | c :: d :: rest =>
    if isLower c && isLower d then
      (toNat? [c, d]).bind fun n => (pairs? rest).map (UInt8.ofNat n :: ·)
    else none

/-- The bytes that a text of lower-case digits spells. -/
def toBytes? (text : String) : Option Bytes :=
  pairs? text.toList

end Shiplog.Hex
