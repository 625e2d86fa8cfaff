import Mathlib.Data.Finset.Basic
import Orbit.Sched.Thread
import Orbit.Transition.Run
import Orbit.Wait.State

/-!
The process table and the thread registry, with everything that adds to or takes from
them: processes and threads are created, each creation failing where the source's can
fail; threads exit, fault or are killed by `request_exit_group`; and
`cleanup_threads_and_processes` takes dead threads and processes out again and hands the
exit codes over.

A cleanup is one step. It reads the state of a thread once, so a thread that exits on
another hart meanwhile counts as one that exited before the pass or after it.

Pids are reused, so a process also has a number of its own (`id`); the kernel has none.
-/

namespace Orbit.Proc

open Store Wait

abbrev Pid := Nat

abbrev Tid := Nat

/-- A tid is a `u32`. -/
def tidLimit : Nat := 2 ^ 32

structure Thread where
  pid : Pid
  state : Sched.ThreadState
  /-- `fault_info` is present -/
  faulted : Bool
  /-- `a1` of the saved frame -/
  status : Int

structure Process where
  parentPid : Pid
  detached : Bool
  threads : Finset Tid
  exitCode : Int
  exitFinalized : Bool
  exitWaiter : Option Tid
  anyChildWaiter : Option Tid
  deadChildren : Table Wait.Status
  id : Nat

structure System where
  processes : Table Process
  registry : Table Thread
  currentProcessId : Pid
  currentThreadId : Tid
  /-- the calls of `publish_pending_for_tid` with an exit status or an error -/
  published : List (Tid × List Int)
  spawned : Nat
  /-- the codes `request_exit_group` has recorded, with the process -/
  recorded : List (Nat × Int)
  /-- the codes handed to a waiter or stored for the parent, with the process -/
  delivered : List (Nat × Int)

/-- Where `create_new_process` can fail. -/
inductive SpawnEnd where
  /-- the page table or the image, before a pid is drawn -/
  | image
  /-- the thread slot or the thread; the process is taken out of the table again -/
  | thread
  /-- the kernel's mappings; the thread has drawn its tid -/
  | kernelMap
  | done
  deriving DecidableEq, Repr

/-- The loop of `next_tid`. There are no more than `fuel` turns; without a free tid the source
does not leave it. -/
def nextTidFrom (taken : Tid → Bool) : Nat → Tid → Option Tid
  | 0, _ => none
  | fuel + 1, next => if taken next then nextTidFrom taken fuel ((next + 1) % tidLimit)
    else some next

namespace Process

/-- `Process::new`. -/
def new (parentPid : Pid) (detached : Bool) (id : Nat) : Process where
  parentPid := parentPid
  detached := detached
  threads := ∅
  exitCode := 0
  exitFinalized := false
  exitWaiter := none
  anyChildWaiter := none
  deadChildren := .empty
  id := id

/-- A dead thread leaves its process. A fault overwrites the exit code in any case, a plain exit
only as long as no exit group has recorded one. -/
def reap (proc : Process) (tid : Tid) (th : Thread) : Process :=
  { proc with
    threads := proc.threads.erase tid
    exitCode :=
      if th.faulted then -1
      else if proc.exitFinalized then proc.exitCode
      else asI32 th.status }

end Process

/-- What the first loop of a cleanup has gathered: the table with dead threads taken out of their
processes, and the threads and processes to remove. -/
structure Sweep where
  system : System
  tids : List Tid
  pids : List Pid

namespace System

def nextPid (s : System) : Option Pid :=
  nextPidFrom (fun pid => (s.processes.get pid).isSome) (pidLimit + 1)
    ((s.currentProcessId + 1) % pidLimit)

def nextTid (s : System) : Option Tid :=
  nextTidFrom (fun tid => (s.registry.get tid).isSome) (tidLimit + 1)
    ((s.currentThreadId + 1) % tidLimit)

def setProcess (s : System) (pid : Pid) (proc : Process) : System :=
  { s with processes := s.processes.insert pid proc }

def setThread (s : System) (tid : Tid) (th : Thread) : System :=
  { s with registry := s.registry.insert tid th }

/-- `publish_pending_for_tid`. -/
def publish (s : System) (tid : Tid) (vals : List Int) : System :=
  { s with published := s.published ++ [(tid, vals)] }

def deliver (s : System) (id : Nat) (code : Int) : System :=
  { s with delivered := s.delivered ++ [(id, code)] }

/-- `Thread::new` for process `pid`, entered into the registry. -/
def register (s : System) (pid : Pid) (tid : Tid) : System :=
  { s.setThread tid ⟨pid, .ready, false, 0⟩ with currentThreadId := tid }

/-- The part of `dealloc_process` that hands the exit code over. -/
def deallocProcess (s : System) (pid : Pid) (proc : Process) : System :=
  if proc.detached then s
  else
    match proc.exitWaiter with
    | some waiter => (s.publish waiter [0, proc.exitCode]).deliver proc.id proc.exitCode
    | none =>
      if proc.parentPid = 0 then s
      else
        match s.processes.get proc.parentPid with
        | none => s
        | some parent =>
          match parent.anyChildWaiter with
          | some waiter =>
            ((s.setProcess proc.parentPid { parent with anyChildWaiter := none }).publish waiter
              [pid, proc.exitCode]).deliver proc.id proc.exitCode
          | none =>
            (s.setProcess proc.parentPid { parent with
              deadChildren := parent.deadChildren.insert pid ⟨proc.exitCode, proc.id⟩ }).deliver
                proc.id proc.exitCode

/-- `create_new_process`. A failed start leaves nothing but the counters it has moved: the
process it removes has no parent to hand a code to. -/
def createNewProcess (s : System) (parentPid : Pid) (detached : Bool) : SpawnEnd → Option System
  | .image => some s
  | .thread => do
      let pid ← s.nextPid
      some { s with currentProcessId := pid }
  | .kernelMap => do
      let pid ← s.nextPid
      let tid ← s.nextTid
      some { s with currentProcessId := pid, currentThreadId := tid }
  | .done => do
      let pid ← s.nextPid
      let tid ← s.nextTid
      let proc := { Process.new parentPid detached s.spawned with threads := {tid} }
      some { (s.setProcess pid proc).register pid tid with
        currentProcessId := pid
        spawned := s.spawned + 1 }

/-- `add_new_thread_to_process`; `ok` says whether the slot and the thread's memory are there. -/
def addNewThreadToProcess (s : System) (pid : Pid) (ok : Bool) : Option System :=
  match s.processes.get pid with
  | none => some s
  | some proc =>
    if ok then do
      let tid ← s.nextTid
      if tid ∈ proc.threads then some { s with currentThreadId := tid }
      else some ((s.setProcess pid { proc with threads := insert tid proc.threads }).register
        pid tid)
    else some s

/-- `create_kernel_thread`: kernel threads carry pid 0, which has no process. -/
def createKernelThread (s : System) (ok : Bool) : Option System :=
  if ok then do
    let tid ← s.nextTid
    some (s.register 0 tid)
  else some s

/-- `mark_exited` on the siblings of the leader. -/
def killSiblings (s : System) (leader : Tid) (tids : Finset Tid) : System :=
  { s with registry := s.registry.map fun tid th =>
      if tid ∈ tids ∧ tid ≠ leader then { th with state := .exited } else th }

def requestExitGroup (s : System) (pid : Pid) (leader : Tid) (code : Int) : System :=
  match s.processes.get pid with
  | none => s
  | some proc =>
    { (s.setProcess pid { proc with exitCode := code, exitFinalized := true }).killSiblings leader
        proc.threads with
      recorded := s.recorded ++ [(proc.id, code)] }

def runWaitAnyChild (s : System) (pid : Pid) (tid : Tid) : System :=
  match s.processes.get pid with
  | none => s.publish tid [Abi.Errno.echild.toRet, 0]
  | some parent =>
    match popFirst parent.deadChildren with
    | some (child, st, rest) =>
      ((s.setProcess pid { parent with deadChildren := rest }).publish tid
        [child, st.code]).deliver st.child st.code
    | none =>
      if parent.anyChildWaiter.isSome then s.publish tid [Abi.Errno.ebusy.toRet, 0]
      else if s.processes.entries.all fun e => e.2.parentPid ≠ pid || e.2.detached then
        s.publish tid [Abi.Errno.echild.toRet, 0]
      else s.setProcess pid { parent with anyChildWaiter := some tid }

/-- The part of `run_wait_pid_req` after the look at the caller's dead children. -/
def waitForChild (s : System) (pid : Pid) (tid : Tid) (target : Pid) : System :=
  match s.processes.get target with
  | none => s.publish tid [Abi.Errno.echild.toRet, 0]
  | some proc =>
    if proc.parentPid ≠ pid then s.publish tid [Abi.Errno.eperm.toRet, 0]
    else if proc.exitWaiter.isSome then s.publish tid [Abi.Errno.ebusy.toRet, 0]
    else s.setProcess target { proc with exitWaiter := some tid }

def runWaitPidReq (s : System) (pid : Pid) (tid : Tid) (target : Int) : System :=
  if target = -1 then s.runWaitAnyChild pid tid
  else
    match s.processes.get pid with
    | none => s.waitForChild pid tid (asU16 target)
    | some parent =>
      match parent.deadChildren.get (asU16 target) with
      | some st =>
        ((s.setProcess pid { parent with
          deadChildren := parent.deadChildren.erase (asU16 target) }).publish tid
            [0, st.code]).deliver st.child st.code
      | none => s.waitForChild pid tid (asU16 target)

/-! The cleanup pass. -/

end System

/-- The end of one turn of the first loop: a process left without threads is listed. -/
def Sweep.close (w : Sweep) (pid : Pid) (proc : Process) : Sweep :=
  if proc.threads ≠ ∅ ∨ pid = 0 then w else { w with pids := w.pids ++ [pid] }

/-- One turn of the first loop. -/
def Sweep.visit (w : Sweep) (e : Tid × Thread) : Sweep :=
  match w.system.processes.get e.2.pid with
  | none => w
  | some proc =>
    if e.2.state = .exited then
      let proc' := proc.reap e.1 e.2
      Sweep.close ⟨w.system.setProcess e.2.pid proc', w.tids ++ [e.1], w.pids⟩ e.2.pid proc'
    else w.close e.2.pid proc

namespace System

def sweep (s : System) : Sweep := s.registry.entries.foldl Sweep.visit ⟨s, [], []⟩

/-- `unregister` with its `unwrap`. -/
def unregister (s : System) (tid : Tid) : Option System :=
  match s.registry.get tid with
  | none => none
  | some _ => some { s with registry := s.registry.erase tid }

/-- The removal of a process, with its `unwrap`. -/
def removeProcess (s : System) (pid : Pid) : Option System :=
  match s.processes.get pid with
  | none => none
  | some proc => some ({ s with processes := s.processes.erase pid }.deallocProcess pid proc)

/-- `cleanup_threads_and_processes`; `none` is a panic. -/
def cleanup (s : System) : Option System := do
  let s' ← s.sweep.tids.foldlM unregister s.sweep.system
  s.sweep.pids.foldlM removeProcess s'

end System

inductive Action where
  | spawn (parentPid : Pid) (detached : Bool) (ending : SpawnEnd)
  | createThread (pid : Pid) (ok : Bool)
  | createKernelThread (ok : Bool)
  /-- a thread leaves by itself, with this in `a1` -/
  | exit (tid : Tid) (status : Int)
  /-- a thread takes a trap it cannot continue from -/
  | fault (tid : Tid)
  /-- the manager takes up the `exit` call of thread `leader` of process `pid` -/
  | exitGroup (pid : Pid) (leader : Tid) (code : Int)
  | wait (pid : Pid) (tid : Tid) (target : Int)
  | cleanup

def step (s : System) : Action → Option System
  | .spawn parentPid detached ending => s.createNewProcess parentPid detached ending
  | .createThread pid ok => s.addNewThreadToProcess pid ok
  | .createKernelThread ok => s.createKernelThread ok
  | .exit tid status =>
    match s.registry.get tid with
    | none => none
    | some th => some (s.setThread tid { th with state := .exited, status })
  | .fault tid =>
    match s.registry.get tid with
    | none => none
    | some th => some (s.setThread tid { th with state := .exited, faulted := true })
  | .exitGroup pid leader code => some (s.requestExitGroup pid leader code)
  | .wait pid tid target => some (s.runWaitPidReq pid tid target)
  | .cleanup => s.cleanup

/-- The state before the first process is started. -/
def initial : System where
  processes := .empty
  registry := .empty
  currentProcessId := 0
  currentThreadId := 0
  published := []
  spawned := 0
  recorded := []
  delivered := []

end Orbit.Proc
