import AsyncMutex.Accounting
import AsyncMutex.Condvar
import AsyncMutex.OnceCell
import AsyncMutex.WakerLinear
import AsyncMutex.Futex2Matching
import AsyncMutex.Futex2Counting
import AsyncMutex.Futex2Sequential
import AsyncMutex.Mpsc
import AsyncMutex.WaiterListRefinement
import AsyncMutex.FairMutexes
import AsyncMutex.FastMutex
import AsyncMutex.RwLockFairness
import AsyncMutex.MpscReturned
import AsyncMutex.Futex2Mutex
import AsyncMutex.Futex2Balance
import AsyncMutex.Futex2MutexWakeups
