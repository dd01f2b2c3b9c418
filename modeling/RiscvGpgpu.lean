import RiscvGpgpu.Lib.Interact
import RiscvGpgpu.Hls.Types
import RiscvGpgpu.Hls.DivergenceStack
import RiscvGpgpu.Hls.Codec
import RiscvGpgpu.Hls.CodecRoundTrip
import RiscvGpgpu.Hls.CodecInverse
import RiscvGpgpu.Hls.StackRuns
import RiscvGpgpu.Hls.ComputePipeline
import RiscvGpgpu.Hls.WarpRun
import RiscvGpgpu.Hls.PerLane
import RiscvGpgpu.Hls.PerLaneRun
import RiscvGpgpu.Golden.SimtController
import RiscvGpgpu.Golden.ComputeUnit
import RiscvGpgpu.Parity.Executor
import RiscvGpgpu.Parity.WarpRuns
import RiscvGpgpu.Parity.Encoding
import RiscvGpgpu.Parity.EncodedRun
import RiscvGpgpu.Parity.Decoders
import RiscvGpgpu.Parity.DispatchOrder
import RiscvGpgpu.Lib.SetAssoc
import RiscvGpgpu.Hls.CacheBank
import RiscvGpgpu.Hls.MemoryPipeline
import RiscvGpgpu.Hls.CacheInvariant
import RiscvGpgpu.Golden.MemoryHierarchy
import RiscvGpgpu.Parity.MemoryRuns
import RiscvGpgpu.Lib.Transition
import RiscvGpgpu.Hls.CuDispatchUnit
import RiscvGpgpu.Hls.BarrierArbiter
import RiscvGpgpu.Hls.GpgpuTop
import RiscvGpgpu.Hls.Waves
import RiscvGpgpu.Hls.LaunchState
import RiscvGpgpu.Hls.CuSteps
import RiscvGpgpu.Hls.LaunchInvariant
import RiscvGpgpu.Hls.BarrierSafety
import RiscvGpgpu.Hls.Placement
import RiscvGpgpu.Hls.MemArbiter
import RiscvGpgpu.Hls.MemArbitration
import RiscvGpgpu.Hls.CuCluster
import RiscvGpgpu.Hls.ClusterRouting
import RiscvGpgpu.Hls.ProgramLoader
import RiscvGpgpu.Hls.Completion
import RiscvGpgpu.Hls.Loading
import RiscvGpgpu.Hls.LaunchProgress
import RiscvGpgpu.Hls.Pulses
import RiscvGpgpu.Hls.LaunchStatus
import RiscvGpgpu.Hls.SeedStreams
import RiscvGpgpu.Hls.LaunchLoading
import RiscvGpgpu.Lib.Calls
import RiscvGpgpu.Host.Loader
import RiscvGpgpu.Host.HostApi
import RiscvGpgpu.Host.HostRuns
import RiscvGpgpu.Lib.Split
import RiscvGpgpu.Golden.WarpScheduler
import RiscvGpgpu.Golden.GpgpuTop
import RiscvGpgpu.Golden.Scheduling
import RiscvGpgpu.Golden.KernelCompletion
import RiscvGpgpu.Golden.SystemTop
import RiscvGpgpu.Golden.GlobalThreadIds
import RiscvGpgpu.Hls.SystemTop
import RiscvGpgpu.Parity.SystemTops
import RiscvGpgpu.Host.Elf32
import RiscvGpgpu.Host.FpgaDriver
import RiscvGpgpu.Host.FpgaIsolation
import RiscvGpgpu.Lib.Grid
import RiscvGpgpu.Bridge.ElfLoader
import RiscvGpgpu.Bridge.ThreadContexts
import RiscvGpgpu.Bridge.Workers
import RiscvGpgpu.Bridge.KernelBridge
import RiscvGpgpu.Bridge.ThreadMapping
import RiscvGpgpu.Bridge.DeviceBuffers
import RiscvGpgpu.Golden.Rv32Conformance
import RiscvGpgpu.Golden.ByteMemory
import RiscvGpgpu.Bridge.ContextSlots
import RiscvGpgpu.Lib.Regions
import RiscvGpgpu.Bridge.AddressLayout
import RiscvGpgpu.Lib.Rvc
import RiscvGpgpu.Golden.RvcExpansion
import RiscvGpgpu.Golden.RvcConformance
import RiscvGpgpu.Lib.Text
import RiscvGpgpu.Lib.Paths
import RiscvGpgpu.Host.KernelLoader
import RiscvGpgpu.Host.ManifestRoundTrip
import RiscvGpgpu.Host.HostRuntime
import RiscvGpgpu.Host.BundleOwnership
import RiscvGpgpu.Bridge.Moves
import RiscvGpgpu.Lib.Asm
import RiscvGpgpu.Lib.Pool
import RiscvGpgpu.Ptx.ArithConformance
import RiscvGpgpu.Ptx.ArithCorrect
import RiscvGpgpu.Ptx.ParserTotal
import RiscvGpgpu.Ptx.Setp
import RiscvGpgpu.Bridge.ElfReads
import RiscvGpgpu.Bridge.EntrySymbols
import RiscvGpgpu.Bridge.LoadedSegments
import RiscvGpgpu.Bridge.ScalarRounds
import RiscvGpgpu.Golden.WarpConservation
import RiscvGpgpu.Host.FpgaLoading
import RiscvGpgpu.Ptx.AcceptedBodies
import RiscvGpgpu.Ptx.DirectiveLines
import RiscvGpgpu.Parity.ImmediateSplit
import RiscvGpgpu.Ptx.Allocation
import RiscvGpgpu.Ptx.AllocationCorrect
import RiscvGpgpu.Ptx.MulShortcut
import RiscvGpgpu.Lib.Packing
import RiscvGpgpu.Ptx.MemoryAccess
import RiscvGpgpu.Ptx.MemoryCorrect
import RiscvGpgpu.Bridge.Completion
import RiscvGpgpu.Bridge.Barriers
import RiscvGpgpu.Ptx.DataCorrect
import RiscvGpgpu.Lib.LabelledCode
import RiscvGpgpu.Ptx.CoreEmission
import RiscvGpgpu.Ptx.CoreTraces
import RiscvGpgpu.Bridge.LockstepEnds
import RiscvGpgpu.Bridge.LoopReturns
import RiscvGpgpu.Bridge.Outcomes
import RiscvGpgpu.Bridge.Races
import RiscvGpgpu.Bridge.ScheduleIndependence
import RiscvGpgpu.Bridge.SameBuffers
import RiscvGpgpu.Bridge.Watchdog
import RiscvGpgpu.Hls.DispatchSchedule
import RiscvGpgpu.Hls.FreshRuns
import RiscvGpgpu.Hls.LaunchResult
import RiscvGpgpu.Golden.FinalContexts
import RiscvGpgpu.Golden.SerialLaunch
import RiscvGpgpu.Parity.DispatchParity
import RiscvGpgpu.Parity.LaunchParity
import RiscvGpgpu.Parity.EndToEnd
import RiscvGpgpu.Lib.Fairness
import RiscvGpgpu.Lib.AskBounds
import RiscvGpgpu.Hls.LaunchWork
import RiscvGpgpu.Hls.LaunchTurns
import RiscvGpgpu.Hls.LaunchFairness
import RiscvGpgpu.Hls.StuckLaunches
