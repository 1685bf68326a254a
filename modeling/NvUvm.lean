import NvUvm.BlockCopy
import NvUvm.BlockCopyData
import NvUvm.BlockCopyPages
import NvUvm.BlockCopyPasses
import NvUvm.BlockMigrationInv
import NvUvm.BlockMigrationRuns
import NvUvm.BlockMigrationSections
import NvUvm.BlockMigrations
import NvUvm.ChannelCallInv
import NvUvm.ChannelCalls
import NvUvm.ChannelInv
import NvUvm.ChannelPlacement
import NvUvm.ChannelPushLists
import NvUvm.ChannelPushes
import NvUvm.ChannelRangeRefs
import NvUvm.ChannelRanges
import NvUvm.ChannelRegister
import NvUvm.ChannelRing
import NvUvm.ChannelRingPushes
import NvUvm.ChannelRuns
import NvUvm.ChannelSections
import NvUvm.ChannelWait
import NvUvm.FaultBatch
import NvUvm.FaultBatchFatal
import NvUvm.FaultBatchScan
import NvUvm.FaultBatchStats
import NvUvm.FaultBufferRuns
import NvUvm.FaultLoop
import NvUvm.FaultLoopCancel
import NvUvm.FaultLoopStats
import NvUvm.FaultPassScan
import NvUvm.GpuIsr
import NvUvm.GpuPteOps
import NvUvm.GpuPteRuns
import NvUvm.GpuPteTables
import NvUvm.GpuPteUnmap
import NvUvm.GpuPteWrites
import NvUvm.GpuPtes
import NvUvm.KthreadQ
import NvUvm.KthreadQRuns
import NvUvm.Kvmalloc
import NvUvm.Lib.CountedList
import NvUvm.Lib.FairRun
import NvUvm.Lib.Held
import NvUvm.Lib.IntervalEdit
import NvUvm.Lib.Intervals
import NvUvm.Lib.Loop
import NvUvm.Lib.Ring
import NvUvm.Lib.RingLog
import NvUvm.Lib.RingRanges
import NvUvm.Lib.Run
import NvUvm.Lib.Slots
import NvUvm.Lib.Span
import NvUvm.Lib.TreePtr
import NvUvm.Lib.WoundSpans
import NvUvm.LiteChannelCalls
import NvUvm.LiteChannelInv
import NvUvm.LiteChannelRuns
import NvUvm.LiteChannels
import NvUvm.LiteCounterRuns
import NvUvm.LiteCounters
import NvUvm.LiteEventQueueAllocs
import NvUvm.LiteEventQueueRuns
import NvUvm.LiteEventQueues
import NvUvm.LiteMigrations
import NvUvm.LitePrefetch
import NvUvm.LiteProgress
import NvUvm.LiteRecordAllocs
import NvUvm.LiteRecords
import NvUvm.LiteStreamCalls
import NvUvm.LiteStreamInv
import NvUvm.LiteStreamRuns
import NvUvm.LiteStreamSteps
import NvUvm.LiteStreamSwitch
import NvUvm.LiteTracker
import NvUvm.LockTracking
import NvUvm.MapExternal
import NvUvm.MapExternalPtes
import NvUvm.Migrate
import NvUvm.MigrateReports
import NvUvm.MmuFormats
import NvUvm.MpsServerInv
import NvUvm.MpsServerRuns
import NvUvm.MpsServers
import NvUvm.P2pPages
import NvUvm.PeerMasks
import NvUvm.PerfPrefetch
import NvUvm.PerfThrashing
import NvUvm.PerfTree
import NvUvm.Pmm
import NvUvm.PmmAlloc
import NvUvm.PmmCounters
import NvUvm.PmmFrees
import NvUvm.PmmInv
import NvUvm.PmmOps
import NvUvm.PmmRuns
import NvUvm.PmmSections
import NvUvm.PmmTree
import NvUvm.PmmWalks
import NvUvm.PreventMigration
import NvUvm.PreventMigrationHolds
import NvUvm.PreventMigrationLists
import NvUvm.Processor
import NvUvm.PushBegin
import NvUvm.PushBeginErrors
import NvUvm.PushInfoSlots
import NvUvm.PushInfos
import NvUvm.Pushbuffer
import NvUvm.PushbufferRanges
import NvUvm.RangeAllocator
import NvUvm.RangeGroup
import NvUvm.RangeGroupAssign
import NvUvm.RangeGroupLists
import NvUvm.RangePolicy
import NvUvm.RangePolicySafe
import NvUvm.RangeTree
import NvUvm.RangeTreeOps
import NvUvm.RangeTreeRuns
import NvUvm.RangeVecPtes
import NvUvm.RegionDestroy
import NvUvm.RegionTracker
import NvUvm.Revocations
import NvUvm.StaleFaults
import NvUvm.Subregions
import NvUvm.ThrashingHistory
import NvUvm.TlbBatches
import NvUvm.ToolsQueue
import NvUvm.ToolsQueueRuns
import NvUvm.Tracker
import NvUvm.TrackerRuns
import NvUvm.TrackingSemaphore
import NvUvm.UserChannel
import NvUvm.UserChannelTable
import NvUvm.UserPages
import NvUvm.UvmLiteGpus
import NvUvm.VaRange
import NvUvm.VaRangeBlockRuns
import NvUvm.VaRangeBlockSplits
import NvUvm.VaRangeBlocks
import NvUvm.VaRangeSplit
import NvUvm.VmaAccess
import NvUvm.VmaRangeRuns
import NvUvm.VmaRanges
