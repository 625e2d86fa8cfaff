import Mathlib.Data.Nat.Bitwise
import Orbit.Abi.Errno
import Orbit.Store.Table

/-!
Waiting for children. A process that exits leaves its status with the thread that waits
for it, with a thread of its parent that waits for any child, or in the parent's table of
dead children. `run_wait_pid_req`, `run_wait_any_child`, `next_pid` and the part of
`dealloc_process` that hands over the status are modelled over the table of processes;
the syscall and the manager's answer to it are two steps, with the work queue between.

Pids are reused, so every process also has a number of its own (`id`), and a status
carries the number of the process it is of. The kernel has neither; they are only there
to state which process is meant.
-/

namespace Orbit.Wait

open Orbit.Abi Store

abbrev Pid := Nat

abbrev Tid := Nat

/-- A pid is a `u16`. -/
def pidLimit : Nat := 2 ^ 16

/-- Capacity of the work queue. -/
def workCap : Nat := 128

/-- An exit code, and the process it is of. -/
structure Status where
  code : Int
  child : Nat
  deriving DecidableEq

structure Process where
  parentPid : Pid
  exitWaiter : Option Tid
  anyChildWaiter : Option Tid
  deadChildren : Table Status
  detached : Bool
  threads : List Tid
  id : Nat
  /-- the process that spawned it, if that was alive -/
  parent : Option Nat

/-- `WaitPidReq` with its caller. -/
structure WaitPid where
  targetPid : Int
  pid : Pid
  tid : Tid

/-- Where a parked thread waits. -/
inductive Place where
  | queued
  | child (pid : Pid)
  | anyChild
  deriving DecidableEq

/-- A thread parked in a wait for the number it has asked for. -/
structure Parked where
  tid : Tid
  pid : Pid
  caller : Nat
  asked : Int
  place : Place
  deriving DecidableEq

/-- What a wait has returned; `child` is whose status it is, if it is one. -/
structure Answer where
  caller : Nat
  asked : Int
  r0 : Int
  r1 : Int
  child : Option Nat
  deriving DecidableEq

/-- A process that is gone. -/
structure Exit where
  id : Nat
  pid : Pid
  parent : Option Nat
  detached : Bool
  code : Int
  deriving DecidableEq

structure System where
  processes : Table Process
  currentProcessId : Pid
  work : List WaitPid
  parked : List Parked
  answered : List Answer
  exits : List Exit
  /-- how many processes and threads there have been -/
  spawned : Nat
  nextTid : Tid

/-- `x as i32` of a 64-bit register. -/
def asI32 (x : Int) : Int := Int.bmod x (2 ^ 32)

/-- `x as u16`. -/
def asU16 (x : Int) : Nat := (x % 2 ^ 16).toNat

/-- `BTreeMap::pop_first`. -/
def popFirst (t : Table Status) : Option (Pid × Status × Table Status) :=
  match t.entries with
  | [] => none
  | (k, st) :: _ => some (k, st, t.erase k)

/-- The loop of `next_pid`. There are no more than `fuel` turns; without a free pid the
source does not leave it. -/
def nextPidFrom (taken : Pid → Bool) : Nat → Pid → Option Pid
  | 0, _ => none
  | fuel + 1, next =>
    if taken next then
      let next := (next + 1) % pidLimit
      nextPidFrom taken fuel (if next = 0 then 1 else next)
    else some next

theorem nextPidFrom_free {taken : Pid → Bool} {fuel : Nat} {next pid : Pid}
    (h : nextPidFrom taken fuel next = some pid) : taken pid = false := by
  induction fuel generalizing next with
  | zero => cases h
  | succ fuel ih =>
    rw [nextPidFrom] at h
    split at h
    · exact ih h
    next hfree =>
    cases h
    exact Bool.eq_false_iff.mpr hfree

namespace System

/-- `next_pid`: zero is skipped only inside the loop. -/
def nextPid (s : System) : Option Pid :=
  nextPidFrom (fun pid => (s.processes.get pid).isSome) (pidLimit + 1)
    ((s.currentProcessId + 1) % pidLimit)

def setProcess (s : System) (pid : Pid) (p : Process) : System :=
  { s with processes := s.processes.insert pid p }

/-- `publish_pending_for_tid`; a thread that is gone gets nothing. -/
def publish (s : System) (tid : Tid) (r0 r1 : Int) (child : Option Nat) : System :=
  match s.parked.find? (fun w => w.tid = tid) with
  | none => s
  | some w => { s with
      parked := s.parked.filter fun w => w.tid ≠ tid
      answered := s.answered ++ [⟨w.caller, w.asked, r0, r1, child⟩] }

def fail (s : System) (tid : Tid) (e : Errno) : System := s.publish tid e.toRet 0 none

/-- The thread now waits at `place`. -/
def moveTo (s : System) (tid : Tid) (place : Place) : System :=
  { s with parked := s.parked.map fun w => if w.tid = tid then { w with place } else w }

/-- The caller has a live child it did not detach. -/
def hasLiveChild (s : System) (pid : Pid) : Bool :=
  s.processes.entries.any fun e => e.2.parentPid = pid && !e.2.detached

def runWaitAnyChild (s : System) (pid : Pid) (tid : Tid) : System :=
  match s.processes.get pid with
  | none => s.fail tid .echild
  | some parent =>
    match popFirst parent.deadChildren with
    | some (child, st, rest) =>
      (s.setProcess pid { parent with deadChildren := rest }).publish tid child st.code
        (some st.child)
    | none =>
      if parent.anyChildWaiter.isSome then s.fail tid .ebusy
      else if s.hasLiveChild pid = false then s.fail tid .echild
      else (s.setProcess pid { parent with anyChildWaiter := some tid }).moveTo tid .anyChild

/-- The part of `run_wait_pid_req` after the look at the caller's dead children. -/
def waitForChild (s : System) (pid : Pid) (tid : Tid) (targetPid : Pid) : System :=
  match s.processes.get targetPid with
  | none => s.fail tid .echild
  | some target =>
    if target.parentPid ≠ pid then s.fail tid .eperm
    else if target.exitWaiter.isSome then s.fail tid .ebusy
    else (s.setProcess targetPid { target with exitWaiter := some tid }).moveTo tid
      (.child targetPid)

def runWaitPidReq (s : System) (req : WaitPid) : System :=
  if req.targetPid = -1 then s.runWaitAnyChild req.pid req.tid
  else
    -- pids are narrowed to 16 bits here
    let targetPid := asU16 req.targetPid
    match s.processes.get req.pid with
    | none => s.waitForChild req.pid req.tid targetPid
    | some parent =>
      match parent.deadChildren.get targetPid with
      | some st =>
        (s.setProcess req.pid { parent with
          deadChildren := parent.deadChildren.erase targetPid }).publish req.tid 0 st.code
            (some st.child)
      | none => s.waitForChild req.pid req.tid targetPid

/-- `dealloc_process`: where the status of `process` goes. -/
def handOver (s : System) (pid : Pid) (process : Process) (code : Int) : System :=
  if process.detached then s
  else
    match process.exitWaiter with
    | some tid => s.publish tid 0 code (some process.id)
    | none =>
      if process.parentPid = 0 then s
      else
        match s.processes.get process.parentPid with
        | none => s
        | some parent =>
          match parent.anyChildWaiter with
          | some tid =>
            (s.setProcess process.parentPid { parent with anyChildWaiter := none }).publish
              tid pid code (some process.id)
          | none => s.setProcess process.parentPid { parent with
              deadChildren := parent.deadChildren.insert pid ⟨code, process.id⟩ }

/-- A process leaves the table, and its threads are gone. -/
def depart (s : System) (pid : Pid) (process : Process) (code : Int) : System :=
  { s with
    processes := s.processes.erase pid
    parked := s.parked.filter fun w => w.tid ∉ process.threads
    exits := s.exits ++ [{ process with pid, code }] }

def exit (s : System) (pid : Pid) (process : Process) (code : Int) : System :=
  (s.depart pid process code).handOver pid process code

/-- A new process with one thread. -/
def install (s : System) (pid parentPid : Pid) (detached : Bool) : System :=
  { s with
    processes := s.processes.insert pid
      { parentPid
        exitWaiter := none
        anyChildWaiter := none
        deadChildren := .empty
        detached
        threads := [s.nextTid]
        id := s.spawned
        parent := (s.processes.get parentPid).map Process.id }
    currentProcessId := pid
    spawned := s.spawned + 1
    nextTid := s.nextTid + 1 }

/-- The checks of `wait_pid_req` on the number in the register. -/
def waitCheck (pid : Pid) (number : Int) : Except Errno Int :=
  let targetPid := asI32 number
  if targetPid = 0 ∨ targetPid < -1 then .error .einval
  else if 0 < targetPid ∧ targetPid = pid then .error .einval
  else .ok targetPid

/-- The syscall `wait_pid(number)` of thread `tid` of process `pid`. -/
def waitPidReq (s : System) (pid : Pid) (process : Process) (tid : Tid) (number : Int) : System :=
  match waitCheck pid number with
  | .error e => { s with answered := s.answered ++ [⟨process.id, number, e.toRet, 0, none⟩] }
  | .ok targetPid =>
    if s.work.length < workCap then
      { s with
        work := s.work ++ [⟨targetPid, pid, tid⟩]
        parked := s.parked ++ [⟨tid, pid, process.id, number, .queued⟩] }
    else { s with answered := s.answered ++ [⟨process.id, number, Errno.eagain.toRet, 0, none⟩] }

end System

inductive Action where
  /-- a process is started on behalf of `parentPid`; zero is the kernel itself -/
  | spawn (parentPid : Pid) (detached : Bool)
  /-- a start that fails after the pid was drawn -/
  | spawnFails
  | createThread (pid : Pid)
  | wait (pid : Pid) (tid : Tid) (number : Int)
  /-- the manager serves the oldest request -/
  | serve
  | exit (pid : Pid) (code : Int)

def step (s : System) : Action → Option System
  | .spawn parentPid detached =>
    match s.nextPid with
    | some pid => some (s.install pid parentPid detached)
    | none => none
  | .spawnFails =>
    match s.nextPid with
    | some pid => some { s with currentProcessId := pid }
    | none => none
  | .createThread pid =>
    match s.processes.get pid with
    | some process =>
      some { s.setProcess pid { process with threads := process.threads ++ [s.nextTid] } with
        nextTid := s.nextTid + 1 }
    | none => none
  | .wait pid tid number =>
    match s.processes.get pid with
    | some process =>
      if tid ∈ process.threads ∧ ∀ w ∈ s.parked, w.tid ≠ tid then
        some (s.waitPidReq pid process tid number)
      else none
    | none => none
  | .serve =>
    match s.work with
    | req :: rest => some ({ s with work := rest }.runWaitPidReq req)
    | [] => none
  | .exit pid code =>
    match s.processes.get pid with
    | some process => some (s.exit pid process code)
    | none => none

/-- The state before the first process is started. -/
def initial : System where
  processes := .empty
  currentProcessId := 0
  work := []
  parked := []
  answered := []
  exits := []
  spawned := 0
  nextTid := 1

end Orbit.Wait
