import WebbitAsyncio.Lib.TransitionSystem
import WebbitAsyncio.Source.Reqq
import WebbitAsyncio.Source.ReqqRun
import WebbitAsyncio.Guarantees.PriorityScheduling
import WebbitAsyncio.Source.EventLoop
import WebbitAsyncio.Source.Transitions
import WebbitAsyncio.Invariants.ResultLock
import WebbitAsyncio.Guarantees.WakeupDescriptor
import WebbitAsyncio.Invariants.Custody
import WebbitAsyncio.Invariants.Submitting
import WebbitAsyncio.Invariants.Memory
import WebbitAsyncio.Invariants.References
import WebbitAsyncio.Invariants.History
import WebbitAsyncio.Guarantees.CrossThread
import WebbitAsyncio.Guarantees.Handles
import WebbitAsyncio.Invariants.Counters
import WebbitAsyncio.Guarantees.ExactlyOnce
import WebbitAsyncio.Invariants.Workers
import WebbitAsyncio.Invariants.Attendance
import WebbitAsyncio.Guarantees.LostWakeup
import WebbitAsyncio.Invariants.PollCall
import WebbitAsyncio.Guarantees.PollDrains
import WebbitAsyncio.Lib.Utf16
import WebbitAsyncio.Source.EioRequest
import WebbitAsyncio.Source.JniSubmit
import WebbitAsyncio.Source.JavaApi
import WebbitAsyncio.Invariants.Submission
import WebbitAsyncio.Invariants.SubmitShapes
import WebbitAsyncio.Guarantees.FailedSubmission
import WebbitAsyncio.Invariants.Dispatch
import WebbitAsyncio.Guarantees.PosixMeaning
import WebbitAsyncio.Guarantees.TwoPaths
import WebbitAsyncio.Lib.CMemory
import WebbitAsyncio.Source.NativeFunctions
import WebbitAsyncio.Guarantees.MemoryStore
import WebbitAsyncio.Guarantees.NativeStrings
import WebbitAsyncio.Guarantees.TruncatedStrings
import WebbitAsyncio.Guarantees.FileNames
import WebbitAsyncio.Guarantees.ThrowingCallbacks
import WebbitAsyncio.Lib.Partition
import WebbitAsyncio.Lib.SortOrder
import WebbitAsyncio.Source.DirectoryEntries
import WebbitAsyncio.Guarantees.DirectorySort
import WebbitAsyncio.Source.Scandir
import WebbitAsyncio.Guarantees.DirectoryListing
import WebbitAsyncio.Lib.Refinement
import WebbitAsyncio.Invariants.Stations
import WebbitAsyncio.Guarantees.ServiceRefinement
import WebbitAsyncio.Invariants.Crew
import WebbitAsyncio.Guarantees.WorkerBound
import WebbitAsyncio.Guarantees.FlushCompletes
import WebbitAsyncio.Guarantees.ForkSafety
import WebbitAsyncio.Invariants.Membership
import WebbitAsyncio.Invariants.GroupSteps
import WebbitAsyncio.Guarantees.GroupCompletion
import WebbitAsyncio.Guarantees.FileTransfer
import WebbitAsyncio.Guarantees.PositionedTransfers
