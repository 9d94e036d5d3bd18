import Shiplog.Error
import Shiplog.FileTree
import Shiplog.OrderedMap
import Shiplog.Page

/-!
The settings of a node, their defaults, and the check that the node can run with
them.
-/
namespace Shiplog

/-- How often written pages are forced to the disk. -/
inductive SyncPolicy where
  | everyWrite
  /-- In the background, at a fixed interval. -/
  | interval (millis : UInt64)
  deriving DecidableEq

/-- The settings of a node. Durations are in milliseconds. -/
structure Config where
  dataDir : Path := Path.ofString "./tandemkv_data"
  /-- The size at which a segment is followed by the next. -/
  segmentLimit : UInt64 := 1024 * 1024 * 1024
  sync : SyncPolicy := .interval 200
  nodeName : String := "node1"
  /-- The names and addresses of all members; this node may be one of them. -/
  members : OrderedMap String String := .empty
  /-- The pause between two questions to a peer. -/
  peerTick : UInt64 := 1000
  /-- How long a standby may be silent. -/
  livenessWindow : UInt64 := 20000
  /-- How often silent standbys are looked for. -/
  reaperInterval : UInt64 := 1000
  /-- How long a peer may take to answer. -/
  requestTimeout : UInt64 := 5000
  listenAddress : String := "127.0.0.1:6380"
  maxConnections : UInt64 := 1024
  /-- How long a connection may be silent; 0 is forever. -/
  readTimeout : UInt64 := 0
  /-- How long a reply may take to send; 0 is forever. -/
  writeTimeout : UInt64 := 5000
  deriving DecidableEq

namespace Config

def logDir (c : Config) : Path := c.dataDir.child "wal"

def storeDir (c : Config) : Path := c.dataDir.child "kv"

/-- The members other than this node. -/
def peers (c : Config) : OrderedMap String String :=
  c.members.filter fun name _ => name != c.nodeName

/-- The standbys that a primary expects. -/
def standbyCount (c : Config) : Nat :=
  c.peers.entries.length

/-- A setting that no node can run with. -/
inductive Refusal where
  | smallSegment (limit : UInt64)
  | noSyncInterval
  | noNodeName
  | noTick
  | noRequestTimeout
  | noConnections
  deriving DecidableEq

/-- The text that reports a setting out of range. -/
def Refusal.text : Refusal → String
  | smallSegment limit =>
    s!"wal max file size {limit.toNat} is smaller than one page ({Page.size} bytes)"
  | noSyncInterval => "wal sync interval must be greater than zero"
  | noNodeName => "node name must not be empty"
  | noTick => "peer tick and reaper interval must be greater than zero"
  | noRequestTimeout => "request timeout must be greater than zero"
  | noConnections => "max connections must be greater than zero"

/-- The first setting out of range, if there is one. -/
def refusal? (c : Config) : Option Refusal :=
  if c.segmentLimit.toNat < Page.size then some (.smallSegment c.segmentLimit)
  else if c.sync = .interval 0 then some .noSyncInterval
  else if c.nodeName = "" then some .noNodeName
  else if c.peerTick = 0 ∨ c.reaperInterval = 0 then some .noTick
  else if c.requestTimeout = 0 then some .noRequestTimeout
  else if c.maxConnections = 0 then some .noConnections
  else none

/-- Fails with the first setting out of range. -/
def check (c : Config) : Except Error Unit :=
  match c.refusal? with
  | some refusal => .error (.config refusal.text)
  | none => .ok ()

end Config

def version : String := "0.1.0"

end Shiplog
