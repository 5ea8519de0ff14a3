import Privateer.Sigaction.Durability
import Privateer.Sigaction.Tracking
import Privateer.Uffd.Committed
import Privateer.Storage.StashFiles
import Privateer.Sigaction.Bookkeeping
import Privateer.Uffd.Residency
import Privateer.Uffd.Loading
import Privateer.Storage.ConcurrentCommits
import Privateer.Storage.Faults
import Privateer.Storage.TwoTiers
import Privateer.Storage.TieredSessions
import Privateer.Storage.Tiers
import Privateer.VirtualMemory.TierCommits
import Privateer.Uffd.Unevicted
import Privateer.Uffd.UnevictedCommits
import Privateer.Uffd.Convergence
import Privateer.Uffd.Shutdown
import Privateer.Sigaction.Unevicted
import Privateer.Sigaction.UnevictedCommits
import Privateer.Datastore.Destroy
import Privateer.Datastore.Reopen
import Privateer.Sigaction.ReadOnly
import Privateer.Storage.StashMap
import Privateer.Sigaction.LoadBack
import Privateer.Uffd.SubRegions
import Privateer.Uffd.EventQueue
import Privateer.Uffd.EventFilter
import Privateer.Storage.ShortWrites
import Privateer.Storage.WritingSessions
import Privateer.Datastore.Dispatch
import Privateer.Uffd.Listener
import Privateer.Storage.LoadPaths
import Privateer.Storage.FailedCalls
import Privateer.Datastore.VersionFiles
import Privateer.Datastore.VersionSessions
import Privateer.Datastore.VersionRuns
import Privateer.Datastore.Isolation
import Privateer.Uffd.LostFaults
import Privateer.Uffd.MsyncSystem
import Privateer.Uffd.ConcurrentMsync
import Privateer.Data.Numerals
import Privateer.Logic.ParallelFor
import Privateer.Data.HashNames
import Privateer.Storage.NamePlaces
import Privateer.Version.MetadataBytes
import Privateer.Datastore.Registrations
import Privateer.Datastore.BlockSize
import Privateer.Storage.StoreSteps
import Privateer.Storage.StrayPaths
import Privateer.Sigaction.EvictionOrder
import Privateer.Datastore.FailedCreate
import Privateer.Sigaction.VersionCalls
import Privateer.Datastore.OpenableVersions
import Privateer.Datastore.CrashedVersions
import Privateer.Storage.CommitEffects
import Privateer.VirtualMemory.CommitOrder
import Privateer.Datastore.MsyncOrder
import Privateer.Logic.VersionStore
import Privateer.Sigaction.WorkingCopies
import Privateer.Datastore.RegionStore
import Privateer.Datastore.StoredRegions
import Privateer.Datastore.KilledStores
import Privateer.Logic.Accounting
import Privateer.Uffd.StoredWrites
import Privateer.Sigaction.ModifiedBlocks
import Privateer.Datastore.CommittedBlocks
import Privateer.Datastore.TrackedWrites
import Privateer.Datastore.StoredBlocks
import Privateer.Datastore.BothBuilds
import Privateer.Datastore.PlainSessions
import Privateer.Datastore.MixedSessions
