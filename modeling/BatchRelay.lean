import BatchRelay.Batch.Basic
import BatchRelay.Batch.Record
import BatchRelay.Batch.Request
import BatchRelay.Batch.View
import BatchRelay.Broadcast
import BatchRelay.Bytes.Base64
import BatchRelay.Bytes.Bech32
import BatchRelay.Bytes.Blake2b
import BatchRelay.Bytes.Hex
import BatchRelay.Bytes.Wire
import BatchRelay.Cache.Basic
import BatchRelay.Cache.Entries
import BatchRelay.Cache.Memory
import BatchRelay.Cache.Table
import BatchRelay.CallData
import BatchRelay.Engine.Activity
import BatchRelay.Engine.Lease
import BatchRelay.Engine.Pass
import BatchRelay.Engine.Reconciliation
import BatchRelay.Engine.Schedule
import BatchRelay.Engine.Submission
import BatchRelay.Engine.Sweep
import BatchRelay.Engine.Validation
import BatchRelay.Engine.Watch
import BatchRelay.Engine.World
import BatchRelay.Failure
import BatchRelay.Gateway
import BatchRelay.Http.Message
import BatchRelay.Http.Service
import BatchRelay.Json.Basic
import BatchRelay.Json.Canonical
import BatchRelay.Json.Number
import BatchRelay.Json.Printer
import BatchRelay.Json.Reader
import BatchRelay.Json.Record
import BatchRelay.Observation
import BatchRelay.Registry.Checkpoints
import BatchRelay.Registry.Records
import BatchRelay.Registry.Route
import BatchRelay.Registry.Routes
import BatchRelay.Settings.Basic
import BatchRelay.Settings.Reader
import BatchRelay.Text.Binary64
import BatchRelay.Text.Decimal
import BatchRelay.Text.Pieces
import BatchRelay.Text.Scale
import BatchRelay.Text.Utf8
import BatchRelay.Time.Civil
import BatchRelay.Time.Instant
import BatchRelay.Time.Timestamp
import BatchRelay.Toml.Basic
import BatchRelay.Toml.Numeral
import BatchRelay.Toml.Reader
import BatchRelay.Toml.Tables
import BatchRelay.Toml.Text
import BatchRelay.Transaction.Basic
import BatchRelay.Transaction.Encoding
import BatchRelay.Transaction.Record
import BatchRelay.Proofs.Batch.Positions
import BatchRelay.Proofs.Cache.Contents
import BatchRelay.Proofs.Engine.Acceptances
import BatchRelay.Proofs.Engine.Evaluation
import BatchRelay.Proofs.Engine.Knowledge
import BatchRelay.Proofs.Engine.Leftovers
import BatchRelay.Proofs.Guarantees.AwaitedItems
import BatchRelay.Proofs.Guarantees.SuccessfulBatches
import BatchRelay.Proofs.Guarantees.TerminalItems
import BatchRelay.Proofs.Guarantees.SettledBatches
import BatchRelay.Proofs.Guarantees.SentOnce
import BatchRelay.Proofs.Engine.Effects
import BatchRelay.Proofs.Guarantees.RefusedSubmissions
import BatchRelay.Proofs.Guarantees.FailedCalls
import BatchRelay.Proofs.Guarantees.RemovedRoutes
import BatchRelay.Proofs.Guarantees.CheckpointProgress
import BatchRelay.Proofs.Guarantees.ConcurrentSubmissions
import BatchRelay.Proofs.Guarantees.OutcomesDuringSubmissions
import BatchRelay.Proofs.Guarantees.CacheKinds
import BatchRelay.Proofs.Guarantees.ConfinedReads
import BatchRelay.Proofs.Guarantees.LeaseSafety
import BatchRelay.Proofs.Guarantees.AnnouncedChanges
import BatchRelay.Proofs.Guarantees.EventDelivery
import BatchRelay.Proofs.Engine.Loops
import BatchRelay.Proofs.Guarantees.ServiceRequests
import BatchRelay.Proofs.Guarantees.SignedEncodings
import BatchRelay.Proofs.Guarantees.RoutesReadBack
import BatchRelay.Proofs.Guarantees.RecordsReadBack
import BatchRelay.Proofs.Guarantees.ExactOutcomes
import BatchRelay.Proofs.Guarantees.StartedGroups
import BatchRelay.Proofs.Guarantees.OrderOfOutcomes
import BatchRelay.Proofs.Guarantees.AcceptedRequests
import BatchRelay.Proofs.Guarantees.SweepEffects
import BatchRelay.Proofs.Guarantees.GatewayErrors
import BatchRelay.Proofs.Guarantees.AddressSpellings
import BatchRelay.Proofs.Guarantees.CallSubjects
import BatchRelay.Proofs.Guarantees.AmountEncodings
import BatchRelay.Proofs.Guarantees.Resumption
import BatchRelay.Proofs.Guarantees.TimesToLive
import BatchRelay.Proofs.Guarantees.DropThresholds
