import Shiplog.Bytes
import Shiplog.Checksum
import Shiplog.Hex

/-!
Pages, the unit in which a log is written. A page is 4096 bytes: a byte with the
marker in its high half and the kind in its low half, the payload's length in two
bytes, the checksum in four, a reserved byte, the payload, and zeros. The checksum
is that of the whole page with the four checksum bytes taken as zero.
-/
namespace Shiplog

namespace Page

def size : Nat := 4096

def headerSize : Nat := 8

/-- The longest payload of one page. -/
def capacity : Nat := size - headerSize

/-- The part of a record that a page holds. -/
inductive Kind where
  /-- A record that fits in the page. -/
  | whole
  /-- The first piece of a split record. -/
  | start
  /-- A further piece of a split record. -/
  | middle
  /-- The last piece of a split record. -/
  | last
  /-- The end of a split record that was never finished; the record is void. -/
  | brokenEnd
  deriving DecidableEq

namespace Kind

/-- The low half of a page's first byte. -/
def code : Kind → UInt8
  | whole => 9
  | start => 10
  | middle => 11
  | last => 12
  | brokenEnd => 13

def ofCode? (code : UInt8) : Option Kind :=
  if code = 9 then some whole
  else if code = 10 then some start
  else if code = 11 then some middle
  else if code = 12 then some last
  else if code = 13 then some brokenEnd
  else none

def name : Kind → String
  | whole => "Whole"
  | start => "Start"
  | middle => "Middle"
  | last => "End"
  | brokenEnd => "BrokenEnd"

def ofName? (name : String) : Option Kind :=
  [whole, start, middle, last, brokenEnd].find? fun kind => kind.name == name

/-- The kinds after which a split record is still open. -/
def isDangling : Kind → Bool
  | start => true
  | middle => true
  | _ => false

end Kind

/-- A payload that no page can hold. -/
structure Oversized where
  length : Nat
  deriving DecidableEq

/-- The text that reports a payload too long for a page. -/
def Oversized.text (o : Oversized) : String :=
  s!"page payload of {o.length} bytes exceeds capacity {capacity}"

/-- What is wrong with bytes that are no page. -/
inductive Damage where
  | wrongSize (length : Nat)
  | checksum
  | badLength (length : Nat)
  | unknownKind (first : UInt8)
  deriving DecidableEq

def Damage.text : Damage → String
  | wrongSize length => s!"page is {length} bytes, expected {size}"
  | checksum => "page crc32 mismatch"
  | badLength length => s!"page length field {length} exceeds page"
  | unknownKind first => "unknown page type byte 0x" ++ Hex.ofBytes [first]

/-- The first byte of a page: the marker `1010` and the code of its kind. -/
def firstByte (kind : Kind) : UInt8 :=
  0xA0 ||| kind.code

/-- The checksum of a page, its own four bytes taken as zero. -/
def checksum (page : Bytes) : UInt32 :=
  Checksum.crc32 (page.take 3 ++ Bytes.zeros 4 ++ page.drop 7)

/-- The page of a kind around a payload, its checksum bytes given. -/
def layout (kind : Kind) (crc : Bytes) (payload : Bytes) : Bytes :=
  firstByte kind :: Bytes.ofNatBE 2 payload.length ++ crc ++ [0] ++ payload ++
    Bytes.zeros (capacity - payload.length)

def encode (kind : Kind) (payload : Bytes) : Except Oversized Bytes :=
  if payload.length > capacity then .error ⟨payload.length⟩
  -- The checksum is taken of the page with zeros in its place, then put there.
  else .ok (layout kind (Bytes.ofNatBE 4 (checksum (layout kind (Bytes.zeros 4) payload)).toNat) payload)

/-- The kind and payload of a page. The size is checked first, then the
    checksum, the length and the kind. -/
def decode (page : Bytes) : Except Damage (Kind × Bytes) :=
  if page.length ≠ size then .error (.wrongSize page.length)
  else if Bytes.toNatBE ((page.drop 3).take 4) ≠ (checksum page).toNat then .error .checksum
  else
    let length := Bytes.toNatBE ((page.drop 1).take 2)
    if length + headerSize > size then .error (.badLength length)
    else
      let first := page.headD 0
      match Kind.ofCode? (first &&& 0x0F) with
      | none => .error (.unknownKind first)
      | some kind => .ok (kind, (page.drop headerSize).take length)

end Page
end Shiplog
