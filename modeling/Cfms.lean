import Cfms.Access.ReplacementSafety
import Cfms.Access.RuleRepair
import Cfms.Backup.ArchiveSafety
import Cfms.Backup.ExportClosure
import Cfms.Backup.FailedImport
import Cfms.Backup.IdentityPreservation
import Cfms.Backup.KeyFormat
import Cfms.Backup.RestoredHierarchy
import Cfms.Backup.Schedules
import Cfms.Deployment.ArchiveCollisions
import Cfms.Deployment.Recovery
import Cfms.Documents.CleanupCondition
import Cfms.Documents.CursorAcceptance
import Cfms.Documents.LiveParents
import Cfms.Documents.PendingDelay
import Cfms.Documents.RestoreFrame
import Cfms.Documents.RevisionQueries
import Cfms.Documents.RiskCleanup
import Cfms.Documents.TransferCancellation
import Cfms.Files.DeduplicationSafety
import Cfms.Files.DownloadRelease
import Cfms.Files.ResumedUpload
import Cfms.Files.UploadCompletion
import Cfms.Files.UploadDeadline
import Cfms.Identity.BackupCodes
import Cfms.Identity.CredentialRemoval
import Cfms.Identity.GroupChange
import Cfms.Identity.Issuance
import Cfms.Identity.KeyChoice
import Cfms.Identity.Lockout
import Cfms.Operations.LockdownOwnership
import Cfms.Scheduling.Attempts
import Cfms.Scheduling.FireTimes
import Cfms.Scheduling.Occurrences
import Cfms.Scheduling.Reconciliation
import Cfms.Security.LockoutRelease
import Cfms.Security.ReplayProtection
import Cfms.Security.RetryDelay
import Cfms.Storage.FileRefinement
import Cfms.Storage.MultipartResume
import Cfms.Transport.AdmissionSlots
import Cfms.Transport.OutboundSends
import Cfms.Transport.StreamIdentity
