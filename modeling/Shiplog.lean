import Shiplog.Connection
import Shiplog.Line
import Shiplog.Main
import Shiplog.Node
import Shiplog.Proofs.Agreements
import Shiplog.Proofs.Allowances
import Shiplog.Proofs.Assemblies
import Shiplog.Proofs.Bookkeeping
import Shiplog.Proofs.Bursts
import Shiplog.Proofs.Connections
import Shiplog.Proofs.Crashes
import Shiplog.Proofs.Damages
import Shiplog.Proofs.DiskRuns
import Shiplog.Proofs.Dumps
import Shiplog.Proofs.FailedInstalls
import Shiplog.Proofs.Failures
import Shiplog.Proofs.Fanouts
import Shiplog.Proofs.Histories
import Shiplog.Proofs.Links
import Shiplog.Proofs.Listings
import Shiplog.Proofs.Lives
import Shiplog.Proofs.Memories
import Shiplog.Proofs.Pairings
import Shiplog.Proofs.Promotions
import Shiplog.Proofs.Redeliveries
import Shiplog.Proofs.Refusals
import Shiplog.Proofs.Registrations
import Shiplog.Proofs.Replies
import Shiplog.Proofs.Requests
import Shiplog.Proofs.Rotations
import Shiplog.Proofs.Shipments
import Shiplog.Proofs.Spellings
import Shiplog.Proofs.Streams
import Shiplog.Proofs.Weights
import Shiplog.Server
