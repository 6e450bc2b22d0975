import Pebrel.Sync.Fleet
import Pebrel.Stream.Chunks
import Pebrel.Files.StateLock
import Pebrel.Settings.Updates
import Pebrel.Link.RelayIsolation
import Pebrel.Link.HostAuthorization
import Pebrel.Commands.Transactions
import Pebrel.Sftp.UploadSafety
import Pebrel.Ssh.Route
import Pebrel.Ssh.Delivery
import Pebrel.Runtime.DelegationSafety
import Pebrel.RelayService.Recoverable
import Pebrel.Settings.MigrationResume
import Pebrel.Workspace.SessionKept
import Pebrel.Terminal.MailboxDelivery
import Pebrel.Hooks.ManagedAssets
import Pebrel.Hooks.CodexRecovery
import Pebrel.Hooks.EventBatch
import Pebrel.Link.RuntimeLinkSafety
import Pebrel.Themes.Adding
import Pebrel.Terminal.Clearing
import Pebrel.Terminal.KeyboardStacks
import Pebrel.Terminal.ProgramRecords
import Pebrel.Terminal.SelectionText
import Pebrel.Backup.CollectionRoundTrip
import Pebrel.Backup.Retention
import Pebrel.Link.CredentialsRestored
import Pebrel.Stream.SnifferCaps
import Pebrel.Stream.ZmodemHeaders
import Pebrel.Terminal.KittyChunks
import Pebrel.Terminal.PtyWrites
import Pebrel.Terminal.ReadingChunk
import Pebrel.Terminal.SelectionRotation
import Pebrel.Completions.PowerShell
import Pebrel.Documents.TextSnapshot
import Pebrel.Hooks.ActivityEvidence
import Pebrel.Hooks.RawContext
import Pebrel.Runtime.OrchestrationFlow
import Pebrel.Sftp.Reassembly
import Pebrel.Suggestions.DirectoryCompletion
import Pebrel.Suggestions.HistoryGuarantees
import Pebrel.Terminal.HistoryPages
import Pebrel.Documents.BlockStructure
import Pebrel.Documents.EditHistory
import Pebrel.Git.Status
import Pebrel.Runtime.TailBudget
import Pebrel.Ssh.IdentityMarker
import Pebrel.Workspace.WindowLayout
import Pebrel.Terminal.CellOffsets
import Pebrel.Terminal.PendingImages
import Pebrel.Split.Edits
import Pebrel.Runtime.FileReads
import Pebrel.Ssh.DestinationFields
