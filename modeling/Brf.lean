import Brf.Lib.Machine
import Brf.Lib.Op
import Brf.Lib.Reader
import Brf.Lib.RangeTree
import Brf.Lib.Run
import Brf.Codec
import Brf.CodecLaws
import Brf.StoreLaws
import Brf.Index
import Brf.IndexLaws
import Brf.RecordLaws
import Brf.Projections
import Brf.System
import Brf.Moves
import Brf.TornTail
import Brf.Epochs
import Brf.MoveLaws
import Brf.Identities
import Brf.Archival
import Brf.Ledgers
import Brf.Occupancy
import Brf.Deciding
import Brf.Attestation
import Brf.Isolation
import Brf.Determinism
import Brf.Amendments
import Brf.Counters
import Brf.Domains
import Brf.Recalls
import Brf.Ingestion
import Brf.Acquisition
import Brf.Evaluations
import Brf.Previews
import Brf.Currency
import Brf.Limits
import Brf.PolicyChanges
import Brf.Overcommits
import Brf.Queues
import Brf.Deadlines
import Brf.States
import Brf.Timeliness
import Brf.Resolutions
import Brf.Preemption
import Brf.Series
import Brf.Canonical
import Brf.ProtocolLaws
import Brf.Snapshot
import Brf.Printing
import Brf.Conflicts
import Brf.Timelines
import Brf.References
import Brf.Bandwidths
import Brf.Reasons
import Brf.Representation
import Brf.Failures
import Brf.Registrations
import Brf.Bounds
import Brf.Derivation
import Brf.Restarts
import Brf.Lib.Hub
import Brf.Server
import Brf.ServerLaws
import Brf.Messages
import Brf.MessageLaws
import Brf.Lib.Checksum
import Brf.Bursts
import Brf.Reports
import Brf.Responses
import Brf.ResponseLaws
import Brf.Fences
import Brf.Crashes
