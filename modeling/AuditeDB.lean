import AuditeDB.Library.Utf8
import AuditeDB.Library.Lexemes
import AuditeDB.Library.Sha2
import AuditeDB.Library.Results
import AuditeDB.Types
import AuditeDB.Sql
import AuditeDB.Event
import AuditeDB.Database
import AuditeDB.Schema
import AuditeDB.Library.Framing
import AuditeDB.Audit.Chain
import AuditeDB.Audit.Headers
import AuditeDB.Audit.Verifier
import AuditeDB.Library.Sorting
import AuditeDB.Audit.Walk
import AuditeDB.Library.HashChain
import AuditeDB.Audit.Signed
import AuditeDB.Audit.TamperEvidence
import AuditeDB.Audit.Accepts
import AuditeDB.Audit.Retention
import AuditeDB.Audit.Gate
import AuditeDB.Audit.Accepted
import AuditeDB.Audit.DeleteSubject
import AuditeDB.Audit.Grouping
import AuditeDB.Audit.Stamps
import AuditeDB.Library.Tallies
import AuditeDB.Library.Bookkeeping
import AuditeDB.World.Log
import AuditeDB.World.Chain
import AuditeDB.World.Cas
import AuditeDB.World.Write
import AuditeDB.World.Represents
import AuditeDB.World.CasSpec
import AuditeDB.World.Commit
import AuditeDB.World.Committed
import AuditeDB.World.Intact
import AuditeDB.World.TailGate
import AuditeDB.World.Live
import AuditeDB.World.Progress
import AuditeDB.World.Window
import AuditeDB.World.Preflight
import AuditeDB.World.Timeline
import AuditeDB.Library.Interleaving
import AuditeDB.Engine.Etag
import AuditeDB.Engine.Store
import AuditeDB.Engine.Feed
import AuditeDB.Engine.Core
import AuditeDB.Engine.Opening
import AuditeDB.Engine.Writing
import AuditeDB.Engine.Deleting
import AuditeDB.Engine.System
import AuditeDB.World.Dereference
import AuditeDB.World.DereferenceSpec
import AuditeDB.Engine.Protocol
import AuditeDB.Engine.Charges
import AuditeDB.Library.Traces
import AuditeDB.Engine.Steps
import AuditeDB.Engine.WriteSteps
import AuditeDB.Engine.DeleteSteps
import AuditeDB.Engine.Histories
import AuditeDB.Engine.AccountSteps
import AuditeDB.Engine.AccountCalls
import AuditeDB.World.Authenticity
import AuditeDB.World.TimelineForgery
import AuditeDB.Engine.Runs
import AuditeDB.Engine.Reading
import AuditeDB.Engine.Versions
import AuditeDB.Engine.Anchors
import AuditeDB.World.Resolution
import AuditeDB.World.Replay
import AuditeDB.Engine.Genesis
import AuditeDB.Engine.ReadBack
import AuditeDB.Engine.Timelines
import AuditeDB.Engine.Announcements
import AuditeDB.Engine.Balance
import AuditeDB.Engine.DeleteOrder
import AuditeDB.Engine.Incarnations
import AuditeDB.Library.Percent
import AuditeDB.WorldPath
import AuditeDB.Engine.Listing
import AuditeDB.World.Usage
import AuditeDB.Engine.Removal
import AuditeDB.Engine.Startup
import AuditeDB.Engine.Restarts
import AuditeDB.Engine.StoreAccounting
import AuditeDB.Engine.WorldLocks
import AuditeDB.Library.ListFields
import AuditeDB.Http.Preconditions
import AuditeDB.Http.Links
import AuditeDB.Http.ProcPath
import AuditeDB.Http.Range
import AuditeDB.Http.TimelineQuery
import AuditeDB.Library.Scanner
import AuditeDB.ReadCache.Machine
import AuditeDB.ReadCache.Safety
import AuditeDB.ReadCache.Presence
import AuditeDB.SchemaText
import AuditeDB.Sdk.Append
import AuditeDB.Subscription.Recv
import AuditeDB.Subscription.Delivery
import AuditeDB.Subscription.EventId
import AuditeDB.Subscription.Resume
import AuditeDB.Tools.ChainVerify
import AuditeDB.Tools.Texts
import AuditeDB.Tools.Agreement
import AuditeDB.World.Gates
import AuditeDB.World.ServedMetadata
