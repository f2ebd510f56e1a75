import ContinuityLedger.Access.Attempts
import ContinuityLedger.Access.Credentials
import ContinuityLedger.Access.Lifecycle
import ContinuityLedger.Access.LifecycleLaws
import ContinuityLedger.Access.Resolved
import ContinuityLedger.Access.WindowLaw
import ContinuityLedger.Amul.Anchored
import ContinuityLedger.Amul.Artifact
import ContinuityLedger.Amul.Checkpoint
import ContinuityLedger.Amul.Compact
import ContinuityLedger.Amul.Compacted
import ContinuityLedger.Amul.Durable
import ContinuityLedger.Amul.GcRuns
import ContinuityLedger.Amul.Lines
import ContinuityLedger.Amul.Tampered
import ContinuityLedger.Amul.Upheld
import ContinuityLedger.Anchors.Accepted
import ContinuityLedger.Anchors.Check
import ContinuityLedger.Anchors.Succession
import ContinuityLedger.Backup.KeyMarkers
import ContinuityLedger.Backup.Prune
import ContinuityLedger.Backup.SigExport
import ContinuityLedger.Backup.SigExportLaw
import ContinuityLedger.Backup.SigExportText
import ContinuityLedger.Backup.Stamps
import ContinuityLedger.Blocks.Agreement
import ContinuityLedger.Blocks.Block
import ContinuityLedger.Blocks.Cited
import ContinuityLedger.Blocks.Database
import ContinuityLedger.Blocks.Reachable
import ContinuityLedger.Blocks.Seal
import ContinuityLedger.Blocks.Tiling
import ContinuityLedger.CallLog.Accounted
import ContinuityLedger.CallLog.Accounts
import ContinuityLedger.CallLog.AnyClock
import ContinuityLedger.CallLog.Appending
import ContinuityLedger.CallLog.Books
import ContinuityLedger.CallLog.Evident
import ContinuityLedger.CallLog.FailClosed
import ContinuityLedger.CallLog.Files
import ContinuityLedger.CallLog.Held
import ContinuityLedger.CallLog.Idle
import ContinuityLedger.CallLog.LongLine
import ContinuityLedger.CallLog.Middleware
import ContinuityLedger.CallLog.Naming
import ContinuityLedger.CallLog.Paging
import ContinuityLedger.CallLog.Readback
import ContinuityLedger.CallLog.Retained
import ContinuityLedger.CallLog.Retention
import ContinuityLedger.CallLog.Routes
import ContinuityLedger.CallLog.Taken
import ContinuityLedger.CallLog.Through
import ContinuityLedger.CallLog.Walked
import ContinuityLedger.Evidence.FileKept
import ContinuityLedger.Evidence.FileLines
import ContinuityLedger.Evidence.Identity
import ContinuityLedger.Evidence.Links
import ContinuityLedger.Evidence.Object
import ContinuityLedger.Evidence.Total
import ContinuityLedger.Foundations.BestPath
import ContinuityLedger.Foundations.Bfs
import ContinuityLedger.Foundations.Borders
import ContinuityLedger.Foundations.BoundedDict
import ContinuityLedger.Foundations.ByteLines
import ContinuityLedger.Foundations.Calendar
import ContinuityLedger.Foundations.CalendarOrder
import ContinuityLedger.Foundations.Checks
import ContinuityLedger.Foundations.Codec
import ContinuityLedger.Foundations.Conserved
import ContinuityLedger.Foundations.CopyText
import ContinuityLedger.Foundations.Delimited
import ContinuityLedger.Foundations.Dict
import ContinuityLedger.Foundations.EventFold
import ContinuityLedger.Foundations.Gathered
import ContinuityLedger.Foundations.HashChain
import ContinuityLedger.Foundations.HashTree
import ContinuityLedger.Foundations.Hex
import ContinuityLedger.Foundations.Histories
import ContinuityLedger.Foundations.IntText
import ContinuityLedger.Foundations.Json
import ContinuityLedger.Foundations.JsonAscii
import ContinuityLedger.Foundations.JsonBytes
import ContinuityLedger.Foundations.JsonChars
import ContinuityLedger.Foundations.JsonProper
import ContinuityLedger.Foundations.JsonRead
import ContinuityLedger.Foundations.JsonSteps
import ContinuityLedger.Foundations.JsonSuffix
import ContinuityLedger.Foundations.JsonTorn
import ContinuityLedger.Foundations.Jsonb
import ContinuityLedger.Foundations.JsonbText
import ContinuityLedger.Foundations.KeyedTable
import ContinuityLedger.Foundations.Layers
import ContinuityLedger.Foundations.Listing
import ContinuityLedger.Foundations.MerkleTree
import ContinuityLedger.Foundations.Noninterference
import ContinuityLedger.Foundations.Prefixed
import ContinuityLedger.Foundations.PyStr
import ContinuityLedger.Foundations.PyText
import ContinuityLedger.Foundations.Retention
import ContinuityLedger.Foundations.Rotation
import ContinuityLedger.Foundations.RowLocks
import ContinuityLedger.Foundations.Sha256
import ContinuityLedger.Foundations.SlidingWindow
import ContinuityLedger.Foundations.TextLines
import ContinuityLedger.Foundations.TimestampLaws
import ContinuityLedger.Foundations.Timestamps
import ContinuityLedger.Foundations.TopRanked
import ContinuityLedger.Foundations.UnionFind
import ContinuityLedger.Foundations.Wire
import ContinuityLedger.Graph.Agree
import ContinuityLedger.Graph.Components
import ContinuityLedger.Graph.Full
import ContinuityLedger.Graph.Groups
import ContinuityLedger.Graph.Reached
import ContinuityLedger.Graph.Sparse
import ContinuityLedger.Graph.Writes
import ContinuityLedger.Ledger.Capture
import ContinuityLedger.Ledger.CaptureInvariant
import ContinuityLedger.Ledger.EntryText
import ContinuityLedger.Ledger.LiveLaw
import ContinuityLedger.Ledger.Replay
import ContinuityLedger.Ledger.RowEffects
import ContinuityLedger.Ledger.Tables
import ContinuityLedger.Ledger.VerifyHistory
import ContinuityLedger.Mcp.Answer
import ContinuityLedger.Mcp.Answered
import ContinuityLedger.Mcp.Dispatch
import ContinuityLedger.Mcp.Witness
import ContinuityLedger.Mcp.Witnessed
import ContinuityLedger.Rag.Answer
import ContinuityLedger.Rag.Governed
import ContinuityLedger.Rag.Hits
import ContinuityLedger.Rag.Index
import ContinuityLedger.Recall.Abstention
import ContinuityLedger.Recall.Atomic
import ContinuityLedger.Recall.Bundles
import ContinuityLedger.Recall.Detected
import ContinuityLedger.Recall.Edges
import ContinuityLedger.Recall.Expansion
import ContinuityLedger.Recall.Gateway
import ContinuityLedger.Recall.Governed
import ContinuityLedger.Recall.Isolation
import ContinuityLedger.Recall.Leading
import ContinuityLedger.Recall.Membrane
import ContinuityLedger.Recall.Reinforcement
import ContinuityLedger.Recall.Retrieve
import ContinuityLedger.Recall.Selection
import ContinuityLedger.Recall.Sidecar
import ContinuityLedger.Recall.Strongest
import ContinuityLedger.Recall.Summary
import ContinuityLedger.Recall.Surfaced
import ContinuityLedger.Recall.Touches
import ContinuityLedger.Records.Admission
import ContinuityLedger.Records.ClauseV
import ContinuityLedger.Records.Document
import ContinuityLedger.Records.DocumentLaws
import ContinuityLedger.Records.ImportPlan
import ContinuityLedger.Records.JarvisStore
import ContinuityLedger.Records.Latest
import ContinuityLedger.Records.LatestLaws
import ContinuityLedger.Records.LedgerFile
import ContinuityLedger.Records.LinesKept
import ContinuityLedger.Records.NoLostUpdate
import ContinuityLedger.Records.NothingDropped
import ContinuityLedger.Records.Ranking
import ContinuityLedger.Records.Record
import ContinuityLedger.Records.Row
import ContinuityLedger.Records.RowInvariant
import ContinuityLedger.Records.RowSteps
import ContinuityLedger.Records.RowStore
import ContinuityLedger.Records.SavedAtomically
import ContinuityLedger.Replay.LinksAgree
import ContinuityLedger.Replay.RootsBind
import ContinuityLedger.Replay.Served
import ContinuityLedger.Replay.State
import ContinuityLedger.Signatures.Attestations
import ContinuityLedger.Signatures.Authority
import ContinuityLedger.Signatures.Base64
import ContinuityLedger.Signatures.CleanLogs
import ContinuityLedger.Signatures.Keys
import ContinuityLedger.Signatures.LaterTrust
import ContinuityLedger.Signatures.Levels
import ContinuityLedger.Signatures.Recovery
import ContinuityLedger.Signatures.Signer
import ContinuityLedger.Signatures.SignsRaw
import ContinuityLedger.Signatures.Sshsig
import ContinuityLedger.Signatures.SshsigArmor
import ContinuityLedger.Signatures.SshsigWire
import ContinuityLedger.Signatures.StoreFunctions
import ContinuityLedger.Signatures.StoresVerified
import ContinuityLedger.Signatures.Storing
import ContinuityLedger.Signatures.StoringChecks
import ContinuityLedger.Signatures.StoringInvariant
import ContinuityLedger.Signatures.Trust
import ContinuityLedger.Signatures.TrustSteps
import ContinuityLedger.Signatures.Unambiguous
import ContinuityLedger.Signatures.WitnessMemory
import ContinuityLedger.Verification.Tenant
