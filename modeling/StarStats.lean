import StarStats.Lib.Timeline
import StarStats.Lib.Trans
import StarStats.Lib.Text
import StarStats.Lib.Sql
import StarStats.Lib.Sha256
import StarStats.Lib.Json
import StarStats.Lib.Tuples
import StarStats.Lib.Pairs
import StarStats.Lib.Calls
import StarStats.Lib.Keyed
import StarStats.Lib.Paging
import StarStats.Lib.Islands
import StarStats.Core.Events
import StarStats.Core.Metadata
import StarStats.Core.Wire
import StarStats.Core.Validators
import StarStats.Core.LogLine
import StarStats.Core.Bursts
import StarStats.Core.Inference
import StarStats.Core.Proof.Bursts
import StarStats.Core.Proof.TimedBursts
import StarStats.Core.Proof.Inference
import StarStats.Core.CharacterLife
import StarStats.Core.ContractLife
import StarStats.Core.Proof.BurstInvariant
import StarStats.Core.Proof.CharacterLife
import StarStats.Core.Proof.ContractLife
import StarStats.Core.Proof.ContractMissions
import StarStats.Core.Proof.Transactions
import StarStats.Server.Repo
import StarStats.Server.Rollup
import StarStats.Server.Retention
import StarStats.Server.SessionSpec
import StarStats.Server.Maintenance
import StarStats.Server.Concurrent
import StarStats.Server.Counts
import StarStats.Server.Reconcile
import StarStats.Server.Audit
import StarStats.Server.Auth
import StarStats.Server.Ingest
import StarStats.Server.Spicedb
import StarStats.Server.Sharing
import StarStats.Server.ShareHistory
import StarStats.Server.EventTimeline
import StarStats.Server.EntityRollup
import StarStats.Server.Protected
import StarStats.Server.SharedQuery
import StarStats.Server.SharedReads
import StarStats.Server.ShareClamps
import StarStats.Server.HandleRenames
import StarStats.Server.IngestRenames
import StarStats.Server.IndexRefresh
import StarStats.Server.HandleClaims
import StarStats.Server.TokenRenames
import StarStats.Server.HandleMoves
import StarStats.Server.Totp
import StarStats.Server.RecoveryCodes
import StarStats.Server.Orders
import StarStats.Server.Social
import StarStats.Server.Blocks
import StarStats.Server.FriendSync
import StarStats.Server.Lfg
import StarStats.Server.CrewHistory
import StarStats.Server.LfgRaces
import StarStats.Server.Waitlist
import StarStats.Server.Invites
import StarStats.Server.MailedTokens
import StarStats.Server.Pairing
import StarStats.Server.Submissions
import StarStats.Server.Erasure
import StarStats.Server.EntityHistory
import StarStats.Client.Sync
import StarStats.E2E.Upload
import StarStats.Client.Drain
import StarStats.Client.Tailer
import StarStats.Client.Pipeline
import StarStats.Client.Backfill
import StarStats.Client.Search
import StarStats.Client.Retry
import StarStats.Client.Reparse
import StarStats.Client.AutoReparse
import StarStats.Client.ReparseAgain
import StarStats.Client.OrgConnector
import StarStats.E2E.BatchSequence
import StarStats.Client.Emitted
import StarStats.Server.Proof.Repo
import StarStats.Server.Proof.Retention
import StarStats.Server.Proof.Sessions
import StarStats.Server.Proof.Covers
import StarStats.Server.Proof.Maintenance
import StarStats.Server.Proof.Concurrent
import StarStats.Server.Proof.Counts
import StarStats.Server.Proof.Reconcile
import StarStats.Server.Proof.Audit
import StarStats.Server.Proof.Sharing
import StarStats.Server.Proof.LoginInterim
import StarStats.Server.Proof.EventTimeline
import StarStats.Server.Proof.ShareClamps
import StarStats.Server.Proof.HandleRenames
import StarStats.Server.Proof.IngestRenames
import StarStats.Server.Proof.IndexRefresh
import StarStats.Server.Proof.HandleClaims
import StarStats.Server.Proof.TokenRenames
import StarStats.Server.Proof.MoveWrites
import StarStats.Server.Proof.OneMove
import StarStats.Server.Proof.HandleMoves
import StarStats.Server.Proof.Totp
import StarStats.Server.Proof.RecoveryCodes
import StarStats.Server.Proof.Orders
import StarStats.Server.Proof.PaidOrders
import StarStats.Server.Proof.Social
import StarStats.Server.Proof.BlockPrivacy
import StarStats.Server.Proof.Blocks
import StarStats.Server.Proof.FriendSync
import StarStats.Server.Proof.Lfg
import StarStats.Server.Proof.CrewHistory
import StarStats.Server.Proof.LfgRaces
import StarStats.Server.Proof.Waitlist
import StarStats.Server.Proof.WaitlistQueue
import StarStats.Server.Proof.Invites
import StarStats.Server.Proof.MailedTokens
import StarStats.Server.Proof.Pairing
import StarStats.Server.Proof.Submissions
import StarStats.Server.Proof.Erasure
import StarStats.Server.Proof.EventPages
import StarStats.Server.Proof.SessionPages
import StarStats.Server.Proof.SessionOracle
import StarStats.E2E.Proof.Upload
import StarStats.Client.Proof.Drain
import StarStats.Client.Proof.Tailer
import StarStats.Client.Proof.Cuts
import StarStats.Client.Proof.Stored
import StarStats.Client.Proof.Backfill
import StarStats.Client.Proof.Search
import StarStats.Client.Proof.Storage
import StarStats.Client.Proof.UnknownLines
import StarStats.Client.Proof.Suppression
import StarStats.Client.Proof.Retry
import StarStats.Client.Proof.Reingest
import StarStats.Client.Proof.AutoReparse
import StarStats.Client.Proof.Reparse
import StarStats.Client.Proof.ReparseAgain
import StarStats.Client.Proof.OrgConnector
import StarStats.E2E.Proof.BatchSequence
import StarStats.Client.Proof.Emitted
import StarStats.Client.Proof.Carry
import StarStats.Client.Proof.Chunks
import StarStats.Client.Proof.Stitch
import StarStats.Core.Classify
import StarStats.Core.Clock
import StarStats.Core.Proof.BurstScan
import StarStats.Core.Proof.Classify
import StarStats.Core.Proof.Clock
import StarStats.Core.Proof.ClockText
import StarStats.Core.Proof.InferenceWindows
import StarStats.Core.Proof.InferredRows
import StarStats.Core.Proof.MissionEnd
import StarStats.Core.Proof.ShopOrder
import StarStats.Core.BuyRequests
import StarStats.Core.ContractTaxonomy
import StarStats.Core.RemoteRules
import StarStats.Core.Templates
import StarStats.Core.LocationClassifier
import StarStats.Core.Proof.BuyRequests
import StarStats.Core.Proof.InferenceDefs
import StarStats.Core.Proof.LocationClassifier
import StarStats.Core.Proof.LogLine
import StarStats.Core.Proof.Templates
import StarStats.Lib.Uri
import StarStats.Client.Urls
import StarStats.Client.Migration
import StarStats.Client.RowKeys
import StarStats.Client.EnvelopeSize
import StarStats.Server.ContractOrder
import StarStats.Client.Redaction
import StarStats.Server.Proof.EntityRollup
import StarStats.Server.Revolut
import StarStats.Core.Shapes
import StarStats.Core.Proof.Shapes
