import Tenure.Table
import Tenure.Text.Blank
import Tenure.Text.Quoted
import Tenure.Text.Bytes
import Tenure.Text.Decimal
import Tenure.Number.Magnitude
import Tenure.Number.Shortest
import Tenure.Duration.Basic
import Tenure.Duration.Text
import Tenure.Duration.Parse
import Tenure.Duration.Clock
import Tenure.Error
import Tenure.Election.Standing
import Tenure.Election.Timing
import Tenure.Election.Backoff
import Tenure.Heartbeat.Headers
import Tenure.Heartbeat.Message
import Tenure.Config.Basic
import Tenure.Election.Options
import Tenure.Lease.Store
import Tenure.Toml.Value
import Tenure.Toml.Lexis
import Tenure.Toml.Quotation
import Tenure.Toml.Scalar
import Tenure.Toml.Tree
import Tenure.Toml.Document
import Tenure.Text.Placeholder
import Tenure.Config.Decode
import Tenure.Config.Load
import Tenure.Election.Campaign
import Tenure.Election.Contender
import Tenure.Heartbeat.Ticker
import Tenure.Heartbeat.Outbox
import Tenure.Heartbeat.Publisher
import Tenure.Metrics.Family
import Tenure.Metrics.Series
import Tenure.Metrics.Registry
import Tenure.Metrics.Exposition
import Tenure.World.Basic
import Tenure.World.Campaigning
import Tenure.World.Beating
import Tenure.World.Calls
import Tenure.World.Schedule
import Tenure.World.Course
import Tenure.Proofs.Lease.Writes
import Tenure.Proofs.Election.Turn
import Tenure.Proofs.Election.Order
import Tenure.Proofs.World.Turns
import Tenure.Proofs.World.Along
import Tenure.Proofs.World.Beats
import Tenure.Proofs.World.Outside
import Tenure.Proofs.World.Moves
import Tenure.Proofs.Election.Admission
import Tenure.Proofs.Election.Terms
import Tenure.Proofs.Election.Leading
import Tenure.Proofs.Election.Fencing
import Tenure.Proofs.Election.Punctuality
import Tenure.Proofs.Election.Exclusion
import Tenure.Proofs.Heartbeat.Gate
import Tenure.Proofs.Heartbeat.Staleness
import Tenure.Proofs.Election.Reign
import Tenure.Proofs.Election.Stability
import Tenure.Proofs.Election.Waits
import Tenure.Proofs.Heartbeat.Commission
import Tenure.Proofs.Election.Failover
import Tenure.Proofs.World.Display
import Tenure.Proofs.Heartbeat.Fates
import Tenure.Proofs.Heartbeat.Gauges
import Tenure.Proofs.Heartbeat.Silence
import Tenure.Proofs.Heartbeat.Shutdown
import Tenure.Proofs.Lease.Revisions
import Tenure.Proofs.Election.Chronicle
import Tenure.Proofs.Election.Hearing
import Tenure.Proofs.Lease.Expiry
import Tenure.Proofs.Election.Renumbering
import Tenure.Proofs.World.Alike
import Tenure.Proofs.Election.Isolation
import Tenure.Proofs.Election.Pacing
import Tenure.Proofs.Election.Withdrawal
import Tenure.Proofs.World.Joined
import Tenure.Proofs.Election.Refusal
import Tenure.Proofs.Heartbeat.Cadence
import Tenure.Proofs.Number.Whole
import Tenure.Proofs.Duration.Grammar
import Tenure.Proofs.Duration.Reading
import Tenure.Proofs.Duration.Amounts
import Tenure.Proofs.Heartbeat.Diary
import Tenure.Proofs.Heartbeat.Spacing
import Tenure.Proofs.World.Tally
import Tenure.Proofs.Heartbeat.Receipts
import Tenure.Proofs.Heartbeat.Accounts
import Tenure.Proofs.Election.Doubling
import Tenure.Proofs.Config.Check
import Tenure.Proofs.Election.Jitter
import Tenure.Proofs.Election.Backing
import Tenure.Proofs.Heartbeat.Acceptance
import Tenure.Proofs.Heartbeat.Timestamp
import Tenure.Proofs.Text.Expansion
import Tenure.Proofs.Heartbeat.Addressing
import Tenure.Proofs.Toml.Locality
import Tenure.Proofs.Toml.Parts
import Tenure.Proofs.Toml.Exchange
import Tenure.Proofs.Toml.Place
import Tenure.Proofs.Toml.Verbatim
import Tenure.Proofs.Config.Fields
import Tenure.Proofs.Config.Decoding
import Tenure.Proofs.Config.Arrival
