import AsyncPlusPlus.Task.Base
import AsyncPlusPlus.Task.Protocol
import AsyncPlusPlus.Task.Func
import AsyncPlusPlus.Task.Lifecycle
import AsyncPlusPlus.Task.Outcome
import AsyncPlusPlus.Task.RunContinuation
import AsyncPlusPlus.Task.Forwarding
import AsyncPlusPlus.ParallelFor
import AsyncPlusPlus.AlignedArray
import AsyncPlusPlus.AlignedArray.Ownership
import AsyncPlusPlus.WaitEvent
import AsyncPlusPlus.WaitEvent.Threads
