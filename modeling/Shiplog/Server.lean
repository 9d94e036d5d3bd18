import Shiplog.Address
import Shiplog.Config
import Shiplog.Connection

/-!
The serving side of a node: the address it listens at, its command table, and the
connections it serves, of which there is a limit.
-/
namespace Shiplog

/-- A server whose commands act on a `σ`. -/
structure Server (σ : Type) where
  address : String
  commands : Commands σ
  /-- The number of connections that may be served at once. -/
  limit : Nat
  /-- The connections being served. -/
  live : Nat
  /-- Whether it has stopped for good. -/
  stopped : Bool

namespace Server

variable {σ : Type}

/-- A server at the address that the settings name. -/
def bind (config : Config) : Except Error (Server σ) :=
  match Address.check config.listenAddress with
  | .error flaw =>
    .error (.network ("Failed to bind " ++ config.listenAddress ++ ": " ++ flaw.text))
  | .ok () =>
    .ok { address := config.listenAddress, commands := .basic, limit := config.maxConnections.toNat,
          live := 0, stopped := false }

def register (server : Server σ) (name : String) (handler : Handler σ) : Server σ :=
  { server with commands := server.commands.register name handler }

/-- The reply that turns a connection away, or the server with one more. -/
def accept (server : Server σ) : Except Reply (Server σ) :=
  if server.limit ≤ server.live then .error (.error "too many connections")
  else .ok { server with live := server.live + 1 }

def release (server : Server σ) : Server σ :=
  { server with live := server.live - 1 }

/-- The server after it has closed every connection for good. -/
def shutdown (server : Server σ) : Server σ :=
  { server with live := 0, stopped := true }

end Server
end Shiplog
