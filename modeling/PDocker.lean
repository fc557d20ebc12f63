import PDocker.Archive.Browser
import PDocker.Build.BuildArgs
import PDocker.Build.Dockerfile
import PDocker.Compose.Services
import PDocker.Context.Exclusion
import PDocker.Context.TarRoundTrip
import PDocker.Cow.Isolation
import PDocker.Direct.Agreement
import PDocker.Direct.Caching
import PDocker.Direct.Denial
import PDocker.Direct.Emulation
import PDocker.Direct.FailClosed
import PDocker.Direct.LinkCopy
import PDocker.Direct.Normalisers
import PDocker.Engine.Aliases
import PDocker.Engine.BuildLock
import PDocker.Engine.EventLog
import PDocker.Engine.ExecSession
import PDocker.Engine.JsonStream
import PDocker.Engine.PortClaims
import PDocker.Engine.RawStream
import PDocker.Gpu.Constants
import PDocker.Gpu.InPlace
import PDocker.Gpu.OverlapGroups
import PDocker.Gpu.PipelineCache
import PDocker.Gpu.RoundTrip
import PDocker.Images.Atomicity
import PDocker.Images.Collection
import PDocker.Images.RoundTrip
import PDocker.Layers.Confinement
import PDocker.Layers.IndexMerge
import PDocker.Opencl.Lifetimes
import PDocker.Pager.Faults
import PDocker.Pager.InProcess
import PDocker.Pager.Settled
import PDocker.Pager.TelemetryRing
import PDocker.Saf.OutOfTree
import PDocker.State.Coherence
import PDocker.State.Health
import PDocker.State.Waiting
import PDocker.Storage.InUse
import PDocker.Storage.Usage
import PDocker.Vulkan.AliasRuns
import PDocker.Vulkan.DescriptorRuns
import PDocker.Vulkan.Ranges
import PDocker.Vulkan.Submission
