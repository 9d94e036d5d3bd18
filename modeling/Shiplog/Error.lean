import Shiplog.Fault
import Shiplog.Position

/-!
The errors of every part of the store, one constructor per cause, and the text
that reports each.
-/
namespace Shiplog

/-- Why an operation failed. -/
inductive Error where
  /-- A file or stream operation failed. -/
  | io (fault : Fault)
  /-- Bytes of the log are not what was written. -/
  | corruption (detail : String)
  /-- The log refuses a write. -/
  | logWrite (detail : String)
  /-- The log no longer holds the records after a position. -/
  | insufficientHistory (requested oldest : Position)
  /-- A position lies past the end of the log. -/
  | aheadOfTail (requested tail : Position)
  /-- The key/value store failed or refuses a key. -/
  | storage (detail : String)
  /-- A client key lies among the bookkeeping keys. -/
  | reservedKey
  /-- Bytes do not decode to the value they stand for. -/
  | serialization (detail : String)
  | network (detail : String)
  /-- A message does not follow the wire format. -/
  | protocol (detail : String)
  /-- A replication request was refused. -/
  | replication (detail : String)
  /-- Some standbys did not acknowledge a shipped log. -/
  | shipFailed (failures : List String)
  | notPrimary
  /-- A standby claims a registration that the primary does not hold. -/
  | notRegistered (node : String)
  | config (detail : String)
  deriving DecidableEq

namespace Error

def kind : Error → String
  | io _ => "Io"
  | corruption _ => "WalCorruption"
  | logWrite _ => "WalWrite"
  | insufficientHistory _ _ => "InsufficientHistory"
  | aheadOfTail _ _ => "AheadOfTail"
  | storage _ => "Storage"
  | reservedKey => "ReservedKey"
  | serialization _ => "Serialization"
  | network _ => "Network"
  | protocol _ => "Protocol"
  | replication _ => "Replication"
  | shipFailed _ => "ShipFailed"
  | notPrimary => "NotPrimary"
  | notRegistered _ => "NotRegistered"
  | config _ => "Config"

def message : Error → String
  | io fault => "IO error: " ++ fault.text
  | corruption detail => "WAL corruption detected: " ++ detail
  | logWrite detail => "WAL write failed: " ++ detail
  | insufficientHistory requested oldest =>
    "insufficient WAL history: requested " ++ requested.text ++ ", oldest retained segment " ++ oldest.text
  | aheadOfTail requested tail =>
    "requested WAL position " ++ requested.text ++ " is newer than tail " ++ tail.text
  | storage detail => "Storage error: " ++ detail
  | reservedKey => "key uses the reserved internal prefix"
  | serialization detail => "Serialization error: " ++ detail
  | network detail => "Network error: " ++ detail
  | protocol detail => "Protocol error: " ++ detail
  | replication detail => "Replication error: " ++ detail
  | shipFailed failures =>
    s!"shipping failed to {failures.length} peer(s): " ++ "; ".intercalate failures
  | notPrimary => "node is not primary"
  | notRegistered node => "not registered: " ++ node
  | config detail => "Configuration error: " ++ detail

end Error
end Shiplog
