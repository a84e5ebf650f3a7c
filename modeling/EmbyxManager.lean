import EmbyxManager.Atom.Pool
import EmbyxManager.Atom.Table
import EmbyxManager.Atom.Register
import EmbyxManager.Monitor.States
import EmbyxManager.Monitor.Ledger
import EmbyxManager.Monitor.World
import EmbyxManager.Monitor.Repository
import EmbyxManager.Monitor.Cadence
import EmbyxManager.Monitor.Archive
import EmbyxManager.Monitor.Tracker
import EmbyxManager.Monitor.Intake
import EmbyxManager.Monitor.Rss
import EmbyxManager.Monitor.Sweeps
import EmbyxManager.Monitor.Operator
import EmbyxManager.Monitor.SweepEdges
import EmbyxManager.Monitor.TrackerEdges
import EmbyxManager.Monitor.Effects
import EmbyxManager.Monitor.Footprint
import EmbyxManager.Monitor.Components
import EmbyxManager.Monitor.Exclusive
import EmbyxManager.Monitor.Alone
import EmbyxManager.Monitor.Precedence
import EmbyxManager.Monitor.Grace
import EmbyxManager.Monitor.Ingest
import EmbyxManager.Monitor.FeedConclusions
import EmbyxManager.Monitor.Stall
import EmbyxManager.Monitor.MappingLoop
import EmbyxManager.FillActor.Memory
import EmbyxManager.FillActor.Postgres
import EmbyxManager.FillActor.Fencing
import EmbyxManager.FillActor.CloudProcesses
import EmbyxManager.FillActor.LocalSafety
import EmbyxManager.Merge.LastCopy
import EmbyxManager.Merge.Refusal
import EmbyxManager.Merge.Uploads
import EmbyxManager.Monitor.OneCopy
import EmbyxManager.Monitor.Attempts
import EmbyxManager.Monitor.Replaced
import EmbyxManager.Monitor.NewCopy
import EmbyxManager.Monitor.Removal
import EmbyxManager.Merge.Target
import EmbyxManager.Merge.TaskTable
import EmbyxManager.Merge.WellFormed
import EmbyxManager.Monitor.Submissions
import EmbyxManager.Monitor.PollSet
import EmbyxManager.Monitor.ScanLock
import EmbyxManager.Monitor.Sight
import EmbyxManager.Monitor.Concluded
import EmbyxManager.Monitor.Routes
import EmbyxManager.FillActor.Versions
import EmbyxManager.FillActor.CloudFiles
import EmbyxManager.Atom.Regex
import EmbyxManager.Monitor.Parts
import EmbyxManager.Monitor.PartOrder
import EmbyxManager.Monitor.FolderFiling
import EmbyxManager.Monitor.AllOrNothing
import EmbyxManager.Monitor.PartlyFiled
import EmbyxManager.Monitor.PlaylistRuns
import EmbyxManager.Monitor.Unpublished
import EmbyxManager.Config.SaveOrder
import EmbyxManager.Monitor.MappingAgreement
import EmbyxManager.Monitor.FeedCursor
import EmbyxManager.Monitor.TaskDirs
import EmbyxManager.Atom.Grouping
import EmbyxManager.Core.Avid
import EmbyxManager.Merge.Numbering
import EmbyxManager.Monitor.Fileable
import EmbyxManager.Monitor.Untried
import EmbyxManager.Monitor.Undisturbed
import EmbyxManager.Monitor.Schedule
import EmbyxManager.Monitor.FallThrough
import EmbyxManager.Monitor.Rearmed
import EmbyxManager.Monitor.OwnMagnet
import EmbyxManager.Monitor.MappingMirror
import EmbyxManager.Monitor.Polled
import EmbyxManager.Monitor.FeedOrder
import EmbyxManager.Core.Magnet
import EmbyxManager.Core.Termination
import EmbyxManager.Clients.JavBus
import EmbyxManager.Db.Migration13
import EmbyxManager.Monitor.Requests
import EmbyxManager.Monitor.Settled
import EmbyxManager.Merge.WorkerRuns
import EmbyxManager.FillActor.ScanPlan
import EmbyxManager.FillActor.Queueing
import EmbyxManager.Merge.AutoRuns
