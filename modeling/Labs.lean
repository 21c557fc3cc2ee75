import Labs.EStore.Price
import Labs.EStore.Store
import Labs.EStore.BuyMany
import Labs.EStore.Threads
import Labs.EStore.Locking
import Labs.EStore.Exclusion
import Labs.EStore.Discipline
import Labs.EStore.OneItem
import Labs.EStore.Coarse
import Labs.EStore.CoarseBuy
import Labs.EStore.Wakeup
import Labs.EStore.Fine
import Labs.EStore.Serial
import Labs.TaskQueue.Queue
import Labs.TaskQueue.Signal
import Labs.Simulation.Shutdown
import Labs.LinkedList.Memory
import Labs.LinkedList.Delete
import Labs.Ls.System
import Labs.Ls.Main
import Labs.Ls.Run
import Labs.Ls.ExitStatus
import Labs.Ls.Lockstep
import Labs.Ls.Count
import Labs.Ls.ListAll
import Labs.Ls.Reports
import Labs.Ls.Listing
import Labs.Mini.Programs
