import VibeField.Tp.Pumps
import VibeField.Tp.Views
import VibeField.Tp.Refusal
import VibeField.Tp.Rollback
import VibeField.Tp.Legs
import VibeField.Freeway.Accepted
import VibeField.Tp.Transfer
import VibeField.Tp.Foreign
import VibeField.Tp.Lanes
import VibeField.Tp.Onward
import VibeField.Tp.Announce
import VibeField.Tp.SeatTold
import VibeField.Freeway.Floors
import VibeField.Freeway.Carried
import VibeField.Freeway.Lifecycle
import VibeField.Tp.Lineage
import VibeField.Tp.SceneRun
import VibeField.Tp.Gate
import VibeField.Tp.Seat
import VibeField.Tp.Wakes
import VibeField.Tp.Seeds
import VibeField.Tp.Lag
import VibeField.Fieldd.Identity
import VibeField.Fieldd.Renewal
import VibeField.Tp.SigningInput
import VibeField.Fieldd.RegistryFile
import VibeField.Fieldd.Catalog
import VibeField.Fieldd.Revisions
import VibeField.Fieldd.AtRest
import VibeField.Fieldd.DocLane
import VibeField.Fieldd.EpochFence
import VibeField.Fieldd.Holders
import VibeField.Fieldd.ChunkDelivery
import VibeField.Fieldd.Forwarding
import VibeField.Fieldd.AgentInputQueue
import VibeField.Updates.CodeDirectory
import VibeField.Updates.Vouched
import VibeField.Updates.Adopted
import VibeField.Updates.Forward
import VibeField.Fieldd.TailReaders
import VibeField.Fieldd.ShellTold
import VibeField.Fieldd.SystemDocAnswers
import VibeField.Native.SegmentRuns
import VibeField.Base.LastWriter
import VibeField.Base.Comparison
import VibeField.Fieldd.ProjectDoc
import VibeField.Fieldd.ProjectRead
import VibeField.Fieldd.ProjectReplicas
import VibeField.Fieldd.ProjectMerge
import VibeField.Fieldd.ProjectActs
import VibeField.Fieldd.ProjectRecords
import VibeField.Fieldd.ProjectBinding
import VibeField.Base.Codec
import VibeField.Fieldd.ProjectLaunches
import VibeField.Fieldd.LaunchesRecorded
import VibeField.Updates.Resigned
import VibeField.Native.OrphanIdle
import VibeField.Native.NamedRootsServed
import VibeField.Native.PullsEnded
import VibeField.Fieldd.ServesFaithful
import VibeField.Base.Ordered
import VibeField.Contracts.ReleaseOrder
import VibeField.Contracts.MeshDataReaders
import VibeField.Updates.QuitOnce
import VibeField.Fieldd.KeyMovesLed
import VibeField.Native.LossyDelivered
import VibeField.Contracts.PhoneCodeTrip
import VibeField.Freeway.Path
import VibeField.Freeway.Sends
import VibeField.Base.RoundRobin
import VibeField.Freeway.Shares
import VibeField.Tp.FrameRouter
