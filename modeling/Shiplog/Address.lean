import Shiplog.Error

/-!
Addresses of nodes: a host and a port number with a colon between them. Which
hosts there are is not known here.
-/
namespace Shiplog.Address

/-- What is wrong with a text that is no address. -/
inductive Flaw where
  /-- No colon sets a port apart. -/
  | noPort
  /-- What follows the last colon is no port number. -/
  | badPort
  /-- The host holds the character with the code zero. -/
  | badHost
  deriving DecidableEq

def Flaw.text : Flaw → String
  | noPort => "invalid socket address"
  | badPort => "invalid port value"
  | badHost => "file name contained an unexpected NUL byte"

/-- What follows the last colon, if there is one. -/
def afterColon? (address : List Char) : Option (List Char) :=
  if ':' ∈ address then some (address.reverse.takeWhile (· != ':')).reverse else none

def beforeColon (address : List Char) : List Char :=
  (address.reverse.dropWhile (· != ':')).tail.reverse

/-- The number that decimal digits spell, a plus sign in front allowed. -/
def number? (digits : List Char) : Option Nat :=
  let digits := match digits with
    | '+' :: digits => digits
    | digits => digits
  if digits = [] ∨ digits.any (fun c => !c.isDigit) then none
  else some (digits.foldl (fun n c => 10 * n + (c.toNat - '0'.toNat)) 0)

/-- Refuses a text that is no address; the port is looked at before the host. -/
def check (address : String) : Except Flaw Unit :=
  match afterColon? address.toList with
  | none => .error .noPort
  | some port =>
    match number? port with
    | some n =>
      if 65536 ≤ n then .error .badPort
      else if (beforeColon address.toList).any fun c => c.toNat = 0 then .error .badHost
      else .ok ()
    | none => .error .badPort

end Shiplog.Address
