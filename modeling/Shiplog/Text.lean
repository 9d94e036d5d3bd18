import Shiplog.Bytes
import Shiplog.Hex

/-!
Text and its bytes in UTF-8: the strict reader, which refuses bytes that spell no
text, the lenient reader, which puts the replacement character in the place of
every run of bytes that breaks off, and text in quotes.
-/
namespace Shiplog.Text

def toBytes (text : String) : Bytes :=
  text.toUTF8.toList

/-- The text that bytes spell, if they spell one. -/
def ofBytes? (bs : Bytes) : Option String :=
  String.fromUTF8? ⟨bs.toArray⟩

/-! ## Lenient reading -/

/-- The character that stands for bytes that spell none. -/
def replacement : Char := Char.ofNat 0xFFFD

/-- The lowest and highest byte that may follow. -/
abbrev Range := UInt8 × UInt8

/-- The bytes that may follow where nothing narrower is said. -/
def continuation : Range := (0x80, 0xBF)

/-- The ranges of the bytes that complete a character with a given first byte.
    The first of them is narrowed where a shorter spelling, a surrogate or a
    number past the last character would be spelt. -/
def shape? (first : UInt8) : Option (List Range) :=
  if first < 0x80 then some []
  else if first < 0xC2 then none
  else if first < 0xE0 then some [continuation]
  else if first = 0xE0 then some [(0xA0, 0xBF), continuation]
  else if first = 0xED then some [(0x80, 0x9F), continuation]
  else if first < 0xF0 then some [continuation, continuation]
  else if first = 0xF0 then some [(0x90, 0xBF), continuation, continuation]
  else if first < 0xF4 then some [continuation, continuation, continuation]
  else if first = 0xF4 then some [(0x80, 0x8F), continuation, continuation]
  else none

/-- How many bytes at the front lie in the ranges, one by one. -/
def fitting : List Range → Bytes → Nat
  | (low, high) :: ranges, b :: bs => if low ≤ b ∧ b ≤ high then 1 + fitting ranges bs else 0
  | _, _ => 0

/-- The bits of a first byte that belong to the character, by the number of bytes
    that follow. -/
def leadBits (first : UInt8) : Nat → Nat
  | 0 => first.toNat
  | 1 => first.toNat % 32
  | 2 => first.toNat % 16
  | _ => first.toNat % 8

/-- The character of a first byte and the bytes that complete it, six bits each. -/
def character (first : UInt8) (following : Bytes) : Char :=
  Char.ofNat (following.foldl (fun n b => 64 * n + b.toNat % 64) (leadBits first following.length))

/-- The characters that bytes spell. Bytes that break off before a character is
    complete are replaced together, and a byte that starts none by itself. -/
def lossyChars : Bytes → List Char
  | [] => []
  | first :: rest =>
    match shape? first with
    | none => replacement :: lossyChars rest
    | some ranges =>
      let taken := fitting ranges rest
      (if taken = ranges.length then character first (rest.take taken) else replacement) ::
        lossyChars (rest.drop taken)
termination_by bs => bs.length
decreasing_by all_goals simp_all [List.length_drop]; try omega

/-- The text that bytes spell, with replacements where they spell none. -/
def lossy (bs : Bytes) : String :=
  String.ofList (lossyChars bs)

/-! ## Quoting -/

/-- The hexadecimal digits of a number, without leading zeros. -/
def hexDigits (n : Nat) : List Char :=
  Nat.toDigits 16 n

/-- A character that shows nothing of its own. -/
def isControl (c : Char) : Bool :=
  c.toNat < 0x20 || (decide (0x7F ≤ c.toNat) && decide (c.toNat < 0xA0))

def quoteChar (c : Char) : List Char :=
  if c = '"' then ['\\', '"']
  else if c = '\\' then ['\\', '\\']
  else if c = '\n' then ['\\', 'n']
  else if c = '\r' then ['\\', 'r']
  else if c = '\t' then ['\\', 't']
  else if c.toNat = 0 then ['\\', '0']
  else if isControl c then ['\\', 'u', '\x7b'] ++ hexDigits c.toNat ++ ['\x7d']
  else [c]

def quoted (text : String) : String :=
  String.ofList ('"' :: text.toList.flatMap quoteChar ++ ['"'])

end Shiplog.Text
