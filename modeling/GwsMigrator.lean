import GwsMigrator.ContactsCoherence
import GwsMigrator.CalendarCoherence
import GwsMigrator.CalendarCancellation
import GwsMigrator.MailCursor
import GwsMigrator.FilesOnce
import GwsMigrator.FailedFolders
import GwsMigrator.FileClobber
import GwsMigrator.ImapCursor
import GwsMigrator.SyncCursor
import GwsMigrator.CancelledCounts
import GwsMigrator.ImapIdentity
import GwsMigrator.ImapRounds
import GwsMigrator.ImapInventory
import GwsMigrator.SharePoint
import GwsMigrator.FolderPaths
import GwsMigrator.FilesPlacement
import GwsMigrator.FolderOrders
import GwsMigrator.ExitStatus
import GwsMigrator.RateLimit
import GwsMigrator.Segments
import GwsMigrator.SubFolders
import GwsMigrator.ImapList
import GwsMigrator.HeaderText
import GwsMigrator.SplitAttachments
import GwsMigrator.JsonBody
import GwsMigrator.ImportOutcome
import GwsMigrator.Instances
import GwsMigrator.RuleTranslation
import GwsMigrator.FolderCache
import GwsMigrator.Labels
import GwsMigrator.Chunks
import GwsMigrator.UploadSessions
import GwsMigrator.FilesRounds
import GwsMigrator.ImapFlags
import GwsMigrator.FolderWriters
import GwsMigrator.RuleAcceptance
import GwsMigrator.DeltaFeed
import GwsMigrator.FeedJobs
import GwsMigrator.CalendarOrder
import GwsMigrator.DriveInventory
import GwsMigrator.ImportRetries
import GwsMigrator.Gmail
import GwsMigrator.SharedLimiter
import GwsMigrator.M365Mail
import GwsMigrator.ContactsExpiry
import GwsMigrator.Manifest
import GwsMigrator.Mapping
import GwsMigrator.GoogleCalendar
import GwsMigrator.DriveCursor
