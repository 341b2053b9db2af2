import KernelCore.Boot.Machine
import KernelCore.Config.Constants
import KernelCore.Kernel.Request
import KernelCore.Proofs.Transition
import KernelCore.Proofs.Rounding
import KernelCore.Proofs.Memory.Frames
import KernelCore.Proofs.Memory.Clock
import KernelCore.Proofs.Memory.Bitmap
import KernelCore.Proofs.Memory.Pool
import KernelCore.Proofs.Memory.Files
import KernelCore.Proofs.Memory.Swap
import KernelCore.Proofs.Memory.SlotMap
import KernelCore.Proofs.Paging.Spaces
import KernelCore.Proofs.Paging.FlatMemory
import KernelCore.Proofs.Paging.FlatHistories
import KernelCore.Proofs.Paging.Coherent
import KernelCore.Proofs.Paging.Progress
import KernelCore.Proofs.Paging.Steps
import KernelCore.Proofs.Paging.Eviction
import KernelCore.Proofs.Paging.Installing
import KernelCore.Proofs.Paging.Entering
import KernelCore.Proofs.Paging.Accessing
import KernelCore.Proofs.Paging.Discarding
import KernelCore.Proofs.Paging.Duplicating
import KernelCore.Proofs.Paging.Mapping
import KernelCore.Proofs.Paging.Serving
import KernelCore.Proofs.Paging.Consistency
import KernelCore.Proofs.Paging.Refinement
import KernelCore.Proofs.Scheduler.Layout
import KernelCore.Proofs.Scheduler.Arrangement
import KernelCore.Proofs.Scheduler.Checking
import KernelCore.Proofs.Scheduler.Donations
import KernelCore.Proofs.Scheduler.Switching
import KernelCore.Proofs.Scheduler.Donating
import KernelCore.Proofs.Scheduler.Locking
import KernelCore.Proofs.Scheduler.Waiting
import KernelCore.Proofs.Scheduler.Feedback
import KernelCore.Proofs.Scheduler.Ticking
import KernelCore.Proofs.Scheduler.Lifetimes
import KernelCore.Proofs.Scheduler.Requests
import KernelCore.Proofs.Scheduler.Runs
import KernelCore.Proofs.Scheduler.Histories
import KernelCore.Proofs.Scheduler.Priorities
import KernelCore.Proofs.Scheduler.Queues
import KernelCore.Proofs.Scheduler.Parts
import KernelCore.Proofs.Scheduler.Decisions
import KernelCore.Proofs.Scheduler.Synchronizers
import KernelCore.Proofs.Scheduler.Handoff
import KernelCore.Proofs.Scheduler.Units
import KernelCore.Proofs.Scheduler.Robust
import KernelCore.Proofs.Scheduler.Sleeping
import KernelCore.Proofs.Scheduler.Waking
import KernelCore.Proofs.Scheduler.Usage
import KernelCore.Proofs.Scheduler.Accounting
import KernelCore.Proofs.Paging.PageCache
import KernelCore.Proofs.Paging.Cached
import KernelCore.Proofs.Paging.Reflecting
import KernelCore.Proofs.Paging.SpaceCopies
import KernelCore.Proofs.Paging.Claiming
import KernelCore.Proofs.Paging.Faulting
import KernelCore.Proofs.Kernel.Runs
import KernelCore.Proofs.Kernel.Faulting
import KernelCore.Proofs.Kernel.Forking
import KernelCore.Proofs.Paging.Mirroring
import KernelCore.Proofs.Paging.RoundTrips
import KernelCore.Proofs.Paging.Regions
import KernelCore.Proofs.Paging.Arguments
import KernelCore.Proofs.Scheduler.Handlers
import KernelCore.Proofs.Scheduler.Lifecycles
import KernelCore.Proofs.Memory.Descriptions
import KernelCore.Proofs.Paging.References
import KernelCore.Proofs.Paging.Bookkeeping
import KernelCore.Proofs.Paging.Upkeep
import KernelCore.Proofs.Paging.Descriptions
import KernelCore.Proofs.Scheduler.IdleThread
import KernelCore.Proofs.Scheduler.LoadAverage
import KernelCore.Proofs.Scheduler.PriorityFormula
import KernelCore.Proofs.Scheduler.RoundRobin
import KernelCore.Proofs.Scheduler.NumberedQueue
import KernelCore.Proofs.Paging.Reading
import KernelCore.Proofs.Paging.Segments
import KernelCore.Proofs.Paging.StackGrowth
import KernelCore.Proofs.Paging.Verdicts
import KernelCore.Proofs.Scheduler.StableQueue
import KernelCore.Proofs.Boot.CommandLine
import KernelCore.Proofs.Config.Literal
import KernelCore.Proofs.Config.Declared
import KernelCore.Proofs.Config.Assignments
import KernelCore.Proofs.Config.Generated
