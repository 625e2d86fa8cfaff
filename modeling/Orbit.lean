import Orbit.Sched.OwnResult
import Orbit.Sched.Delivery
import Orbit.Sched.ExitGroup
import Orbit.Sched.Reaper
import Orbit.Perm.Identity
import Orbit.Net.Isolation
import Orbit.Net.Hostile
import Orbit.Smp.Complete
import Orbit.Sched.SleepersKept
import Orbit.Input.KeyTimeout
import Orbit.Wait.Waiters
import Orbit.Net.Tokens
import Orbit.Fs.ReadCorrect
import Orbit.Sched.SleepHeap
import Orbit.Sched.Dispatch
import Orbit.Sched.CompletionOnce
import Orbit.Proc.ExitCode
import Orbit.Proc.CreateThread
import Orbit.Futex.Isolation
import Orbit.Resume.Law
import Orbit.Tar.Walk
import Orbit.Fs.Mounted
import Orbit.Sched.Affinity
import Orbit.Proc.Snapshots
import Orbit.Proc.Waits
import Orbit.Paging.Reserve
import Orbit.Paging.Tiered
import Orbit.Mem.Revocation
import Orbit.Mem.Argv
import Orbit.Net.RegionSize
import Orbit.Net.TxRing
import Orbit.Display.Parser
import Orbit.Display.Sources
import Orbit.Input.Modifiers
