/-!
Faults of files and streams: the ways an operation on them can fail, each with
the name of its kind and the text that reports it.
-/
namespace Shiplog

/-- What stopped a file or stream operation. -/
inductive Fault where
  | notFound
  | alreadyExists
  /-- A file was wanted and a directory found. -/
  | isADirectory
  /-- A directory was wanted and a file found. -/
  | notADirectory
  /-- The directory to replace still has entries. -/
  | directoryNotEmpty
  /-- The path, length or offset is one that nothing can have. -/
  | invalidInput
  /-- A name or the whole path is too long. -/
  | invalidName
  | resourceBusy
  /-- The stream ended before the bytes that were asked for. -/
  | unexpectedEof
  /-- No bytes arrived in time. -/
  | wouldBlock
  /-- The other side closed the connection while bytes were under way. -/
  | connectionReset
  | networkUnreachable
  /-- Anything else, by its text. -/
  | other (text : String)
  deriving DecidableEq

namespace Fault

def kind : Fault → String
  | notFound => "NotFound"
  | alreadyExists => "AlreadyExists"
  | isADirectory => "IsADirectory"
  | notADirectory => "NotADirectory"
  | directoryNotEmpty => "DirectoryNotEmpty"
  | invalidInput => "InvalidInput"
  | invalidName => "InvalidFilename"
  | resourceBusy => "ResourceBusy"
  | unexpectedEof => "UnexpectedEof"
  | wouldBlock => "WouldBlock"
  | connectionReset => "ConnectionReset"
  | networkUnreachable => "NetworkUnreachable"
  | other _ => "Other"

/-- The text that reports a fault, with the system's error number where it has one. -/
def text : Fault → String
  | notFound => "No such file or directory (os error 2)"
  | alreadyExists => "File exists (os error 17)"
  | isADirectory => "Is a directory (os error 21)"
  | notADirectory => "Not a directory (os error 20)"
  | directoryNotEmpty => "Directory not empty (os error 39)"
  | invalidInput => "Invalid argument (os error 22)"
  | invalidName => "File name too long (os error 36)"
  | resourceBusy => "Device or resource busy (os error 16)"
  | unexpectedEof => "failed to fill whole buffer"
  | wouldBlock => "Resource temporarily unavailable (os error 11)"
  | connectionReset => "Connection reset by peer (os error 104)"
  | networkUnreachable => "Network is unreachable (os error 101)"
  | other text => text

end Fault
end Shiplog
