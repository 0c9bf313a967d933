import VAttention.Lib.Outcome
import VAttention.Lib.Lists
import VAttention.Lib.Checks
import VAttention.Lib.Strides
import VAttention.Lib.Loop
import VAttention.Lib.Exits
import VAttention.Lib.Tables
import VAttention.Lib.Pointwise
import VAttention.Lib.Runs
import VAttention.Lib.Tickets
import VAttention.Allocator.State
import VAttention.Allocator.BlockMap
import VAttention.Allocator.Conservation
import VAttention.Allocator.CacheSpec
import VAttention.Allocator.Layout
import VAttention.Allocator.ModelConfig
import VAttention.Allocator.Demand
import VAttention.Allocator.Exactness
import VAttention.Allocator.Background
import VAttention.Allocator.Threads
import VAttention.Allocator.BestFit
import VAttention.Allocator.Growth
import VAttention.Allocator.Preparation
import VAttention.Allocator.Sharing
import VAttention.Allocator.Fragmentation
import VAttention.Core.Sequence
import VAttention.Core.BlockManager
import VAttention.Core.Blocks
import VAttention.Core.Paging
import VAttention.Core.TableLengths
import VAttention.Core.FailedAllocation
import VAttention.Scheduler.Model
import VAttention.Scheduler.Steps
import VAttention.Scheduler.Invariants
import VAttention.Scheduler.Runs
import VAttention.Scheduler.Progress
import VAttention.Scheduler.Fcfs
import VAttention.Scheduler.Paging
import VAttention.Scheduler.TableLengths
import VAttention.Scheduler.Productive
import VAttention.Scheduler.Admission
import VAttention.Scheduler.Promises
import VAttention.Scheduler.ChunkBounds
import VAttention.Scheduler.Readmission
import VAttention.Scheduler.Rejection
import VAttention.Manager.Model
import VAttention.Manager.Views
import VAttention.Manager.Agreement
import VAttention.Manager.History
import VAttention.Executor.Inputs
import VAttention.Executor.Selection
import VAttention.Executor.Sampler
import VAttention.Executor.SlotMapping
import VAttention.Worker.Model
import VAttention.Worker.Context
import VAttention.Worker.Slots
import VAttention.Worker.Demand
import VAttention.Worker.Fragmentation
import VAttention.Allocator.Lengths
import VAttention.Worker.SlotTable
import VAttention.Worker.Paging
import VAttention.Worker.Replay
import VAttention.Engine.Model
import VAttention.Engine.Steps
import VAttention.Engine.Invariants
import VAttention.Engine.Preemption
import VAttention.Engine.Capacity
import VAttention.Engine.Geometry
import VAttention.Engine.Readmission
import VAttention.Engine.Promises
import VAttention.Engine.Paging
import VAttention.Engine.Replay
import VAttention.Engine.Context
import VAttention.Engine.Termination
import VAttention.Engine.Slots
import VAttention.Engine.Selection
import VAttention.Engine.Transparency
import VAttention.Engine.Admission
import VAttention.Engine.SlotTable
import VAttention.Engine.Reports
import VAttention.Lib.Mat
import VAttention.Lib.Blocks
import VAttention.Weights.Layout
import VAttention.Weights.Model
import VAttention.Weights.Stages
import VAttention.Manager.Reports
import VAttention.Serving.Completion
import VAttention.Serving.Protocol
import VAttention.Serving.RequestTracker
import VAttention.Pipeline.Loops
import VAttention.Pipeline.Pairing
import VAttention.Manager.Rounds
import VAttention.Scheduler.Overlap
import VAttention.Pipeline.Engine
import VAttention.Pipeline.Stale
import VAttention.Pipeline.ChunkBounds
import VAttention.Mla.Model
import VAttention.Mla.Layer
import VAttention.Mla.TensorParallel
import VAttention.Mla.Wrapper
import VAttention.Mla.Chunks
import VAttention.Core.LogicalBlocks
import VAttention.Manager.Mirror
import VAttention.Benchmark.CapacitySearch
import VAttention.Lib.Series
import VAttention.Metrics.DataSeries
import VAttention.Serving.EngineLoop
import VAttention.Serving.MergeIterators
import VAttention.Allocator.Payload
import VAttention.Pod.Launch
import VAttention.Pod.Assignment
import VAttention.Pod.Mask
import VAttention.Pod.KeyWalk
