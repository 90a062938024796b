import MGFileSystem.Foundations.KeyedList
import MGFileSystem.Foundations.GuardedSystem
import MGFileSystem.Foundations.Overlay
import MGFileSystem.Foundations.Footprint
import MGFileSystem.Foundations.OptionalUpdates
import MGFileSystem.Foundations.HandleLog
import MGFileSystem.Foundations.PosixPath
import MGFileSystem.Foundations.RelatedPrograms
import MGFileSystem.Foundations.FiniteMaps
import MGFileSystem.Foundations.SharedService
import MGFileSystem.Machine.CStrings
import MGFileSystem.Machine.Paths
import MGFileSystem.Machine.Vectors
import MGFileSystem.Backend.StorageBackend
import MGFileSystem.Backend.Callbacks
import MGFileSystem.Backend.Dispatch
import MGFileSystem.Backend.BackendSimulation
import MGFileSystem.Backend.OpCounts
import MGFileSystem.Mount.SshArgument
import MGFileSystem.Ram.FilesystemData
import MGFileSystem.Ram.Lookups
import MGFileSystem.Ram.PathHelpers
import MGFileSystem.Ram.StoredPaths
import MGFileSystem.Ram.ObjectMap
import MGFileSystem.Ram.StateChanges
import MGFileSystem.Ram.Calls
import MGFileSystem.Ram.Transitions
import MGFileSystem.Ram.Refinement
import MGFileSystem.Ram.OneFile
import MGFileSystem.Ram.MissingPaths
import MGFileSystem.Ram.PositionalWrite
import MGFileSystem.Ram.ReadLaw
import MGFileSystem.Ram.Truncation
import MGFileSystem.Ram.StoredBytes
import MGFileSystem.Ram.ChunkedWrites
import MGFileSystem.Ram.AttributeChanges
import MGFileSystem.Ram.Ownership
import MGFileSystem.Ram.Commutation
import MGFileSystem.Ram.Removal
import MGFileSystem.Ram.Requests
import MGFileSystem.Ram.Catalogue
import MGFileSystem.Ram.Listings
import MGFileSystem.Ram.Allocation
import MGFileSystem.Ram.Survival
import MGFileSystem.Ram.ContainedDirectories
import MGFileSystem.Ram.DirectoryCopies
import MGFileSystem.Ram.ContainedFiles
import MGFileSystem.Ram.StoredNames
import MGFileSystem.Ram.MountedMap
import MGFileSystem.Ram.Clients
import MGFileSystem.Ram.ReachableMaps
import MGFileSystem.Ssh.SshBackend
import MGFileSystem.Ssh.ExportedDirectory
import MGFileSystem.Ssh.BackendAgreement
import MGFileSystem.Ssh.RemoteOutcomes
import MGFileSystem.Ssh.TrackedSession
import MGFileSystem.Ssh.HandleDiscipline
import MGFileSystem.Ssh.LibsshSimulation
import MGFileSystem.Ssh.Connection
import MGFileSystem.Ssh.MountLife
import MGFileSystem.Ssh.RemoteTree
import MGFileSystem.Ssh.RemoteChanges
import MGFileSystem.Manager.StorageNodes
import MGFileSystem.Manager.Channels
import MGFileSystem.Manager.CheckRound
import MGFileSystem.Manager.RemoteCommand
import MGFileSystem.Manager.FSmanager
import MGFileSystem.Manager.DaemonLife
import MGFileSystem.Manager.SplitAnswers
