import Shiplog.Error

/-!
The roles of a node: a primary takes writes and ships them, a standby receives
them. A standby can become primary; a primary stays one.
-/
namespace Shiplog

/-- The role of a node. -/
inductive Role where
  | primary
  | standby
  deriving DecidableEq

namespace Role

/-- Whether a node with this role takes writes. -/
def isPrimary : Role → Bool
  | primary => true
  | standby => false

/-- The number that stands for a role in a reply. -/
def code : Role → Int64
  | primary => 1
  | standby => 2

def ofCode (code : Int64) : Except Error Role :=
  if code = 1 then .ok primary
  else if code = 2 then .ok standby
  else .error (.protocol ("unknown role: " ++ toString code.toInt))

def text : Role → String
  | primary => "primary"
  | standby => "standby"

theorem ofCode_code (role : Role) : ofCode role.code = .ok role := by
  cases role <;> rfl

end Role
end Shiplog
