import Orbit.Sched.Thread

/-!
The scheduler's shared state. Each hart carries the point it has reached in
`k_hart_loop`, in a trap or inside `exit_thread_with_state`; the hart that holds
the scheduler lock also carries the point of the manager pass. One point names one
atomic access that is still to be made, so that every interleaving of the accesses
is an interleaving of steps.
-/

namespace Orbit.Sched

open Function

/-- Ring capacities. -/
def sleepInboxCap : Nat := 64
def readyInboxCap : Nat := 32
def wakeQueueCap : Nat := 128
def workCap : Nat := 128

inductive WakeEvent where
  | none
  | net
  | pid (p : Pid)
  | tid (t : Tid)
  | inputTid (t : Tid)
  | gpu
  | serial

/-- Queued manager work. `call` stands for every request that only answers its
caller; thread creation and process exit change the scheduler's own state. -/
inductive Work where
  | call (t : Tid) (call : Nat)
  | createThread (t : Tid) (call : Nat) (pid : Pid) (parentAllowed allowed affinity : UInt64)
  | exitGroup (pid : Pid) (leader : Tid) (code : Int)

/-- Where a hart is. From `parkSeq` on it is inside `exit_thread_with_state`. -/
inductive HartPc where
  /-- in `k_hart_loop` -/
  | idle
  /-- `enter_hart_context` loaded `current`; `mark_running` loads next -/
  | dispatch (t : Tid)
  | dispatchStore (t : Tid)
  /-- the load that looks for a kill before entering the thread -/
  | dispatchCheck (t : Tid)
  | running (t : Tid)
  /-- `apply_syscall_outcome` loads the state before it commits a yield -/
  | commit (t : Tid) (target : ThreadState) (frame : Nat → Int) (deadline : Option UInt64)
  /-- `check_context_and_switch` -/
  | switch (t : Tid)
  | parkSeq (t : Tid) (target : ThreadState)
  | parkNull (t : Tid) (target : ThreadState) (notice : Option SleepNotice)
  | parkLoad (t : Tid) (target : ThreadState) (notice : Option SleepNotice)
  | parkStore (t : Tid) (target : ThreadState) (notice : Option SleepNotice)
  | sleepPush (n : SleepNotice)
  /-- `into_runnable` loads next -/
  | mint (t : Tid)
  /-- holds a `Runnable`; `push_ready_notice` is next -/
  | push (t : Tid)
  /-- the take-CAS of `try_claim_own_pending` is next -/
  | claim (t : Tid)
  | claimed (t : Tid) (p : Published)
  | claimLoad (t : Tid) (p : Published)
  | claimStore (t : Tid) (p : Published)

structure Hart where
  current : Option Tid
  pc : HartPc
  inbox : List Tid

inductive WakePred where
  | tid (t : Tid)
  | pid (p : Pid)
  deriving DecidableEq

def WakePred.holds : WakePred → Tid → Thread → Bool
  | .tid u, t, _ => t = u
  | .pid p, _, th => th.pid = p

inductive Nudge where
  | gpu
  | serial
  deriving DecidableEq

/-- Who called `set_wake_reason_where`. -/
inductive ScanCaller where
  | drainWakes
  | nudge (n : Nudge)
  deriving DecidableEq

/-- The rest of a `set_wake_reason_where` loop. -/
structure Scan where
  reason : Nat
  pred : WakePred
  rest : List Tid
  caller : ScanCaller
  deriving DecidableEq

/-- Where the manager goes on after it has promoted a thread. -/
inductive After where
  | scan (k : Scan)
  | sleeps
  | woken (now : UInt64)
  deriving DecidableEq

/-- Which verb follows a won `claim_parked`. -/
inductive Mode where
  | promoteWake
  | resumePublished

/-- Where the manager pass is. -/
inductive MgrPc where
  /-- `cleanup_threads_and_processes`: threads to visit, tids and pids to remove -/
  | cleanup (todo tids : List Tid) (pids : List Pid)
  | claimExited (t : Tid) (todo tids : List Tid) (pids : List Pid)
  | reapThreads (tids : List Tid) (pids : List Pid)
  | reapProcs (pids : List Pid)
  /-- head of the `drain_pending_work` loop -/
  | work
  /-- `resume_thread_with_values`: `claim_parked` loads next -/
  | resume (t : Tid) (p : Published)
  | resumeWrite (t : Tid) (p : Published)
  | resumeReset (t : Tid) (p : Published)
  | resumeLoad (t : Tid) (p : Published)
  | resumeStore (t : Tid) (p : Published)
  | resumePush (t : Tid)
  /-- `publish_pending_for_tid` -/
  | publish (t : Tid) (p : Published)
  | publishWake (t : Tid)
  /-- `request_exit_group`: siblings still to be marked -/
  | kill (pid : Pid) (leader : Tid) (rest : List Tid)
  /-- head of the `drain_wakes` loop -/
  | wakes
  | scan (k : Scan)
  | scanRets (t : Tid) (st : ThreadState) (k : Scan)
  | scanNote (t : Tid) (st : ThreadState) (signaled : Bool) (k : Scan)
  | claim (t : Tid) (m : Mode) (a : After)
  | take (t : Tid) (a : After)
  | marshal (t : Tid) (p : Published) (a : After)
  | swapWake (t : Tid) (rets : Option Published) (a : After)
  | promoteLoad (t : Tid) (rets : Option Published) (a : After)
  | promoteStore (t : Tid) (rets : Option Published) (a : After)
  | pushReady (t : Tid) (a : After)
  | nudge (n : Nudge)
  /-- head of the inbox loop of `drain_sleeps` -/
  | sleeps
  | sleepCheck (n : SleepNotice)
  /-- `drain_woken` -/
  | woken (now : UInt64)
  | wokenState (now seq : UInt64)
  /-- `drain_ready_inboxes` -/
  | inboxes (h : Nat)
  /-- `sched::assign_threads`: harts still to be offered a thread -/
  | assign (hs : List Nat)
  | assignPop (h : Nat) (hs : List Nat)
  | assignLoad (t : Tid) (h : Nat) (hs : List Nat)
  | assignStore (t : Tid) (h : Nat) (hs : List Nat)
  | assignPublish (t : Tid) (h : Nat) (hs : List Nat)

structure Mgr where
  hart : Nat
  pc : MgrPc

structure Proc where
  threads : List Tid
  exitCode : Int
  exitFinalized : Bool

/-- The checked operations that panic, and the state word they saw. -/
inductive Site where
  | transitionTo (target : ThreadState)
  | promoteReadyFromParked
  | tryMarkAssigned
  | intoRunnable
  | claimExited
  | unregister
  | removeProcess
  deriving DecidableEq

inductive Fault where
  | panic (site : Site) (t : Tid) (observed : ThreadState)
  | useAfterFree (t : Tid)
  deriving DecidableEq

structure State where
  nHarts : Nat
  threads : Tid → Thread
  harts : Nat → Hart
  mgr : Option Mgr
  ready : List Tid
  sleepInbox : List SleepNotice
  heap : List SleepNotice
  wakeQueue : List WakeEvent
  work : List Work
  /-- calls the manager has taken up and will answer later -/
  waiters : List (Tid × Nat)
  registry : List Tid
  procs : Pid → Option Proc
  nextTid : Tid
  netTid : Option Tid
  gpuTid : Option Tid
  serialTid : Option Tid
  /-- exit groups whose request has returned -/
  groups : List (Pid × Tid)
  fault : Option Fault

namespace State

def setThread (s : State) (t : Tid) (th : Thread) : State :=
  { s with threads := update s.threads t th }

def setHart (s : State) (h : Nat) (hart : Hart) : State :=
  { s with harts := update s.harts h hart }

def setPc (s : State) (h : Nat) (pc : HartPc) : State :=
  s.setHart h { s.harts h with pc }

def setProc (s : State) (p : Pid) (proc : Option Proc) : State :=
  { s with procs := update s.procs p proc }

/-- The manager moves on to `pc`. -/
def goto (s : State) (m : Mgr) (pc : MgrPc) : State :=
  { s with mgr := some { m with pc } }

def fail (s : State) (f : Fault) : State := { s with fault := some f }

/-- An access through a thread pointer. -/
def deref (s : State) (t : Tid) (k : Thread → Option State) : Option State :=
  if (s.threads t).freed then some (s.fail (.useAfterFree t)) else k (s.threads t)

def pushWork (s : State) (w : Work) : State := { s with work := s.work ++ [w] }

/-- `push_ready_notice` on hart `h`; a full inbox loses the token. -/
def pushInbox (s : State) (h : Nat) (t : Tid) : State :=
  if (s.harts h).inbox.length < readyInboxCap then
    s.setHart h { s.harts h with inbox := (s.harts h).inbox ++ [t] }
  else s

/-- `wake_queue_push`; a full ring drops the event. -/
def wakeQueuePush (s : State) (ev : WakeEvent) : State :=
  if s.wakeQueue.length < wakeQueueCap then { s with wakeQueue := s.wakeQueue ++ [ev] } else s

end State

end Orbit.Sched
