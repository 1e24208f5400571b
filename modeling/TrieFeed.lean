import TrieFeed.Main
import TrieFeed.Provider.Fixed
import TrieFeed.Proofs.Codec.Header
import TrieFeed.Proofs.Codec.Plutus
import TrieFeed.Proofs.Codec.UniqueReading
import TrieFeed.Proofs.Files.Path
import TrieFeed.Proofs.Files.Normal
import TrieFeed.Proofs.Files.Sandbox
import TrieFeed.Proofs.Plugin.Configuration
import TrieFeed.Proofs.Plugin.Closed
import TrieFeed.Proofs.Fields
import TrieFeed.Proofs.Schedule.Runs
import TrieFeed.Proofs.Schedule.Overlap
import TrieFeed.Proofs.Script.Failure
import TrieFeed.Proofs.Config.Saves
import TrieFeed.Proofs.Config.Display
import TrieFeed.Proofs.Ingest.Account
import TrieFeed.Proofs.Number.Binary64
import TrieFeed.Proofs.Number.Numeral
import TrieFeed.Proofs.Script.Order
import TrieFeed.Proofs.Value.Parts
import TrieFeed.Proofs.Script.Crossing
import TrieFeed.Proofs.Script.Records
import TrieFeed.Proofs.Codec.PlutusItems
import TrieFeed.Proofs.Capability.Builder
import TrieFeed.Proofs.Schedule.Outcomes
import TrieFeed.Proofs.Schedule.Rate
import TrieFeed.Proofs.Config.Layers
import TrieFeed.Proofs.Ingest.Clients
import TrieFeed.Proofs.Plugin.Listed
import TrieFeed.Proofs.Plugin.Isolation
import TrieFeed.Proofs.Plugin.Accounts
import TrieFeed.Proofs.Schedule.LastRun
import TrieFeed.Proofs.Time.Calendar
import TrieFeed.Proofs.Time.Firings
import TrieFeed.Proofs.Schedule.FiveFields
import TrieFeed.Proofs.Plugin.Abandoned
import TrieFeed.Proofs.Ingest.Creation
import TrieFeed.Proofs.Plugin.Reported
import TrieFeed.Proofs.Chain.Address
import TrieFeed.Proofs.Chain.Capitals
import TrieFeed.Proofs.Value.ByteLike
import TrieFeed.Proofs.Capability.Wrappers
import TrieFeed.Proofs.Value.Documents
import TrieFeed.Proofs.Script.Memory
import TrieFeed.Proofs.Script.Decimals
import TrieFeed.Proofs.Config.Listing
import TrieFeed.Proofs.Provider.Wire
import TrieFeed.Proofs.Plugin.Refused
import TrieFeed.Proofs.Plugin.Watching
import TrieFeed.Proofs.Codec.HexReading
import TrieFeed.Proofs.Schedule.Interval
import TrieFeed.Proofs.Files.Rows
import TrieFeed.Proofs.Schedule.TargetName
import TrieFeed.Proofs.Files.Normal
