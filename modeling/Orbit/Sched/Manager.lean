import Orbit.Abi.Errno
import Orbit.Sched.Step

/-!
The manager pass: reaping, queued work, wake events, sleepers, ready inboxes and
the assignment of threads to harts, one atomic access at a time. The order of the
phases is the one of `k_hart_loop`.
-/

namespace Orbit.Sched

open Orbit.Abi Function

/-- The manager's choices: how a request is answered, whether a nudge is due and
what the clock reads. -/
inductive Choice where
  | tick
  /-- answer the request at the head of the queue, with `resume_thread_with_values`
  when `direct` and with `publish_pending_for_tid` otherwise -/
  | serve (vals : List Int) (direct : Bool)
  /-- keep the request at the head of the queue for a later answer -/
  | defer
  /-- create the requested thread; `ok` is whether slot, stack and frame were had -/
  | spawn (ok : Bool) (frame : Nat → Int)
  /-- answer the `i`-th kept request -/
  | answer (i : Nat) (vals : List Int) (direct : Bool)
  | nudge
  | clock (now : UInt64)

def allHartsMask (n : Nat) : UInt64 :=
  if 64 ≤ n then UInt64.ofNat (2 ^ 64 - 1) else UInt64.ofNat (2 ^ n - 1)

/-- Affinity resolution of `run_create_thread_req`: zero means the default. -/
def resolveAffinity (allHarts parentAllowed allowed affinity : UInt64) :
    Except Errno (UInt64 × UInt64) :=
  let allowed := if allowed = 0 then parentAllowed else allowed
  let affinity := if affinity = 0 then allowed else affinity
  if allowed &&& ~~~parentAllowed ≠ 0 then .error .eperm
  else if affinity &&& ~~~allowed ≠ 0 ∨ affinity = 0 ∨ allowed &&& ~~~allHarts ≠ 0 then
    .error .einval
  else .ok (allowed, affinity)

namespace State

/-- `register` and `admit` of a thread added to process `pid`. -/
def admitThread (s : State) (pid : Pid) (proc : Proc) (th : Thread) : State :=
  { s with
    threads := update s.threads s.nextTid th
    procs := update s.procs pid (some { proc with threads := proc.threads ++ [s.nextTid] })
    registry := s.registry ++ [s.nextTid]
    ready := s.ready ++ [s.nextTid]
    nextTid := s.nextTid + 1 }

/-- `run_create_thread_req`: the new state and the value returned to the caller. A
process that is already exiting is not refused. -/
def runCreateThreadReq (s : State) (pid : Pid) (parentAllowed allowed affinity : UInt64)
    (ok : Bool) (frame : Nat → Int) : State × Int :=
  match resolveAffinity (allHartsMask s.nHarts) parentAllowed allowed affinity with
  | .error e => (s, e.toRet)
  | .ok (allowed, affinity) =>
    match s.procs pid with
    | none => (s, Errno.esrch.toRet)
    | some proc =>
      if ok then (s.admitThread pid proc (.new pid allowed affinity frame), s.nextTid)
      else (s, Errno.enomem.toRet)

/-- The end of one turn of the cleanup loop: a process left without threads is
listed for removal. -/
def cleanupNext (s : State) (m : Mgr) (pid : Pid) (proc : Proc) (todo tids : List Tid)
    (pids : List Pid) : State :=
  if proc.threads ≠ [] ∨ pid = 0 then s.goto m (.cleanup todo tids pids)
  else s.goto m (.cleanup todo tids (pids ++ [pid]))

/-- `forget_thread`, `unregister` and the free of one reaped thread. -/
def reap (s : State) (t : Tid) : State :=
  { s with
    registry := s.registry.erase t
    heap := s.heap.filter fun n => n.thread ≠ t
    ready := s.ready.filter fun u => u ≠ t
    threads := update s.threads t { s.threads t with freed := true } }

end State

def ScanCaller.pc : ScanCaller → MgrPc
  | .drainWakes => .wakes
  | .nudge .gpu => .nudge .serial
  | .nudge .serial => .sleeps

def After.pc : After → MgrPc
  | .scan k => .scan k
  | .sleeps => .sleeps
  | .woken now => .woken now

/-- The loop a wake event starts. -/
def wakeScan (s : State) : WakeEvent → Option Scan
  | .none => none
  | .net => some ⟨tickle, latched s.netTid, s.registry, .drainWakes⟩
  | .pid p => some ⟨netIo, .pid p, s.registry, .drainWakes⟩
  | .tid t => some ⟨netIo, .tid t, s.registry, .drainWakes⟩
  | .inputTid t => some ⟨inputIo, .tid t, s.registry, .drainWakes⟩
  | .gpu => some ⟨tickle, latched s.gpuTid, s.registry, .drainWakes⟩
  | .serial => some ⟨tickle, latched s.serialTid, s.registry, .drainWakes⟩
where
  latched : Option Tid → WakePred
    | some t => .tid t
    | none => .pid 0

/-- The kernel thread a nudge is for. -/
def nudgeTid (s : State) : Nudge → Option Tid
  | .gpu => s.gpuTid
  | .serial => s.serialTid

/-- The next step of a `set_wake_reason_where` turn once the thread's state and slot
have been read. -/
def scanVerb (t : Tid) (st : ThreadState) (signaled : Bool) (k : Scan) : MgrPc :=
  if st = .suspended then
    .claim t (if signaled then .resumePublished else .promoteWake) (.scan k)
  else if st = .blocking ∧ signaled then .claim t .resumePublished (.scan k)
  else .scan k

def State.fits (s : State) (h : Nat) (t : Tid) : Bool :=
  (s.threads t).affinity &&& (1 <<< UInt64.ofNat h) ≠ 0

/-- The harts of one `assign_threads` call: the others first, the own hart last. -/
def assignOrder (n self : Nat) : List Nat :=
  (List.range n).filter (fun h => h ≠ self) ++ [self]

/-- Answer `t`'s call: directly, or through the completion slot if it is registered. -/
def complete (s : State) (m : Mgr) (t : Tid) (p : Published) (direct : Bool) : State :=
  if direct then s.goto m (.resume t p)
  else if t ∈ s.registry then s.goto m (.publish t p)
  else s.goto m .work

/-- Reaping: `cleanup_threads_and_processes`. -/
def reapStep (s : State) (m : Mgr) : MgrPc → Option State
  | .cleanup [] tids pids => some (s.goto m (.reapThreads tids pids))
  | .cleanup (t :: todo) tids pids =>
    let th := s.threads t
    match s.procs th.pid with
    | none => some (s.goto m (.cleanup todo tids pids))
    | some proc =>
      if th.state = .exited then
        let proc := { proc with threads := proc.threads.erase t }
        some ((s.setProc th.pid (some proc)).goto m (.claimExited t todo (tids ++ [t]) pids))
      else some (s.cleanupNext m th.pid proc todo tids pids)
  | .claimExited t todo tids pids =>
    let th := s.threads t
    if th.state ≠ .exited then some (s.fail (.panic .claimExited t th.state))
    else
      match s.procs th.pid with
      | none => some (s.goto m (.cleanup todo tids pids))
      | some proc =>
        -- a fault overrides the code an exit_group has already stamped
        let code :=
          if th.faulted then -1
          else if proc.exitFinalized then proc.exitCode
          else asI32 (th.regs (Thread.argReg + 1))
        let proc := { proc with exitCode := code }
        some ((s.setProc th.pid (some proc)).cleanupNext m th.pid proc todo tids pids)
  | .reapThreads [] pids => some (s.goto m (.reapProcs pids))
  | .reapThreads (t :: tids) pids =>
    if t ∈ s.registry then some ((s.reap t).goto m (.reapThreads tids pids))
    else some (s.fail (.panic .unregister t (s.threads t).state))
  | .reapProcs [] => some (s.goto m .work)
  | .reapProcs (p :: pids) =>
    match s.procs p with
    | some _ => some ((s.setProc p none).goto m (.reapProcs pids))
    | none => some (s.fail (.panic .removeProcess p .exited))
  | _ => none

/-- Queued work: `drain_pending_work`, `resume_thread_with_values`,
`publish_pending_for_tid` and `request_exit_group`. -/
def workStep (s : State) (m : Mgr) (c : Choice) : MgrPc → Option State
  | .work =>
    match c with
    | .answer i vals direct =>
      match s.waiters[i]? with
      | some (t, call) =>
        some (complete { s with waiters := s.waiters.eraseIdx i } m t ⟨call, vals⟩ direct)
      | none => none
    | _ =>
      match s.work, c with
      | [], .tick => some (s.goto m .wakes)
      | .call t call :: rest, .serve vals direct =>
        some (complete { s with work := rest } m t ⟨call, vals⟩ direct)
      | .call t call :: rest, .defer =>
        some ({ s with work := rest, waiters := s.waiters ++ [(t, call)] }.goto m .work)
      | .createThread t call pid parentAllowed allowed affinity :: rest, .spawn ok frame =>
        let (s', ret) := { s with work := rest }.runCreateThreadReq pid parentAllowed allowed
          affinity ok frame
        some (complete s' m t ⟨call, [ret]⟩ false)
      | .exitGroup pid leader code :: rest, .tick =>
        match s.procs pid with
        | none => some ({ s with work := rest }.goto m .work)
        | some proc =>
          let proc' := { proc with exitCode := code, exitFinalized := true }
          some (({ s with work := rest }.setProc pid (some proc')).goto m
            (.kill pid leader (proc.threads.filter fun t => t ≠ leader)))
      | _, _ => none
  | .resume t p =>
    if t ∈ s.registry then
      if (s.threads t).state.parked then some (s.goto m (.resumeWrite t p))
      else some (s.goto m (.publish t p))
    else some (s.goto m .work)
  | .resumeWrite t p =>
    some ((s.setThread t { (s.threads t).writeRets p.vals with answer := some p }).goto m
      (.resumeReset t p))
  | .resumeReset t p => some ((s.setThread t (s.threads t).resetPending).goto m (.resumeLoad t p))
  | .resumeLoad t p =>
    if (s.threads t).state.parked then some (s.goto m (.resumeStore t p))
    else some (s.fail (.panic .promoteReadyFromParked t (s.threads t).state))
  | .resumeStore t _ => some ((s.setThread t ((s.threads t).store .ready)).goto m (.resumePush t))
  | .resumePush t => some ((s.pushInbox m.hart t).goto m .work)
  | .publish t p =>
    some ((s.setThread t { (s.threads t).publishResults p with answer := some p }).goto m
      (.publishWake t))
  | .publishWake t => some ((s.wakeQueuePush (.tid t)).goto m .work)
  | .kill pid leader [] =>
    -- the request returns; harts that run a sibling are sent an interrupt
    some ({ s with groups := (pid, leader) :: s.groups }.goto m .work)
  | .kill pid leader (t :: rest) =>
    if t ∈ s.registry then
      some ((s.setThread t ((s.threads t).store .exited)).goto m (.kill pid leader rest))
    else some (s.goto m (.kill pid leader rest))
  | _ => none

/-- Wake events: `drain_wakes`, the nudges and `set_wake_reason_where`, with the
promotion verbs of `ParkedMut`. -/
def wakeStep (s : State) (m : Mgr) (c : Choice) : MgrPc → Option State
  | .wakes =>
    match s.wakeQueue with
    | [] => some (s.goto m (.nudge .gpu))
    | ev :: rest =>
      match wakeScan s ev with
      | some k => some ({ s with wakeQueue := rest }.goto m (.scan k))
      | none => some ({ s with wakeQueue := rest }.goto m .wakes)
  | .nudge n =>
    match c, nudgeTid s n with
    | .nudge, some t => some (s.goto m (.scan ⟨tickle, .tid t, s.registry, .nudge n⟩))
    | _, _ => some (s.goto m (ScanCaller.nudge n).pc)
  | .scan k =>
    match k.rest with
    | [] => some (s.goto m k.caller.pc)
    | t :: rest =>
      let k' := { k with rest }
      if k.pred.holds t (s.threads t) then some (s.goto m (.scanRets t (s.threads t).state k'))
      else some (s.goto m (.scan k'))
  | .scanRets t st k => some (s.goto m (.scanNote t st (s.threads t).pending.isSome k))
  | .scanNote t st signaled k =>
    some ((s.setThread t ((s.threads t).noteWake k.reason)).goto m (scanVerb t st signaled k))
  | .claim t mode a =>
    if (s.threads t).state.parked then
      match mode with
      | .promoteWake => some (s.goto m (.swapWake t none a))
      | .resumePublished => some (s.goto m (.take t a))
    else some (s.goto m a.pc)
  | .take t a =>
    match (s.threads t).pending with
    | some p => some ((s.setThread t (s.threads t).resetPending).goto m (.marshal t p a))
    | none => some (s.goto m a.pc)
  | .marshal t p a =>
    some ((s.setThread t ((s.threads t).writeRets p.vals)).goto m (.swapWake t (some p) a))
  | .swapWake t rets a =>
    some ((s.setThread t (s.threads t).consumeWake).goto m (.promoteLoad t rets a))
  | .promoteLoad t rets a =>
    if (s.threads t).state.parked then some (s.goto m (.promoteStore t rets a))
    else some (s.fail (.panic .promoteReadyFromParked t (s.threads t).state))
  | .promoteStore t _ a =>
    some ((s.setThread t ((s.threads t).store .ready)).goto m (.pushReady t a))
  | .pushReady t a => some ({ s with ready := s.ready ++ [t] }.goto m a.pc)
  | _ => none

/-- Sleepers and ready inboxes: `drain_sleeps` and `drain_ready_inboxes`. -/
def sleepStep (s : State) (m : Mgr) (c : Choice) : MgrPc → Option State
  | .sleeps =>
    match s.sleepInbox with
    | n :: rest => some ({ s with sleepInbox := rest }.goto m (.sleepCheck n))
    | [] =>
      match c with
      | .clock now => some (s.goto m (.woken now))
      | _ => none
  | .sleepCheck n => s.deref n.thread fun th =>
    -- the notice's sequence number is not compared with the thread's here
    if th.hasPendingWake then some (s.goto m (.claim n.thread .promoteWake .sleeps))
    else some ({ s with heap := heapPush n s.heap }.goto m .sleeps)
  | .woken now =>
    match s.heap with
    | [] => some (s.goto m (.inboxes 0))
    | e :: _ => s.deref e.thread fun th => some (s.goto m (.wokenState now th.sleepSeq))
  | .wokenState now seq =>
    match s.heap with
    | [] => none
    | e :: rest => s.deref e.thread fun th =>
      match classify seq th.state e.sleepSeq with
      | .stale => some ({ s with heap := rest }.goto m (.woken now))
      | .transient => some (s.goto m (.inboxes 0))
      | .live =>
        if now < e.wakeTime then some (s.goto m (.inboxes 0))
        else some ({ s with heap := rest }.goto m (.claim e.thread .promoteWake (.woken now)))
  | .inboxes h =>
    if h < s.nHarts then
      match (s.harts h).inbox with
      | [] => some (s.goto m (.inboxes (h + 1)))
      | t :: rest =>
        some ({ s.setHart h { s.harts h with inbox := rest } with ready := s.ready ++ [t] }.goto m
          (.inboxes h))
    else some (s.goto m (.assign (assignOrder s.nHarts m.hart)))
  | _ => none

/-- Assignment: `sched::assign_threads`. The end of the loop releases the lock. -/
def assignStep (s : State) (m : Mgr) : MgrPc → Option State
  | .assign [] => some { s with mgr := none }
  | .assign (h :: hs) =>
    match (s.harts h).current with
    | some _ => some (s.goto m (.assign hs))
    | none => some (s.goto m (.assignPop h hs))
  | .assignPop h hs =>
    -- the scan reads the affinity of every entry up to the one it takes
    match s.ready.find? (fun t => (s.threads t).freed || s.fits h t) with
    | none => some (s.goto m (.assign hs))
    | some u =>
      if (s.threads u).freed then some (s.fail (.useAfterFree u))
      else
        match popFor (s.fits h) s.ready with
        | some (t, rest) => some ({ s with ready := rest }.goto m (.assignLoad t h hs))
        | none => some (s.goto m (.assign hs))
  | .assignLoad t h hs =>
    let th := { s.threads t with ticks := (s.threads t).ticks + 1 }
    match th.state with
    | .ready => some ((s.setThread t th).goto m (.assignStore t h hs))
    | .exited => some ((s.setThread t th).goto m (.assign hs))
    | st => some (s.fail (.panic .tryMarkAssigned t st))
  | .assignStore t h hs =>
    some ((s.setThread t ((s.threads t).store .assigned)).goto m (.assignPublish t h hs))
  | .assignPublish t h hs =>
    some ((s.setHart h { s.harts h with current := some t }).goto m (.assign hs))
  | _ => none

/-- The next access of the manager pass. -/
def mgrStep (s : State) (m : Mgr) (c : Choice) : Option State :=
  match m.pc with
  | .cleanup .. | .claimExited .. | .reapThreads .. | .reapProcs .. => reapStep s m m.pc
  | .work | .resume .. | .resumeWrite .. | .resumeReset .. | .resumeLoad .. | .resumeStore ..
  | .resumePush .. | .publish .. | .publishWake .. | .kill .. => workStep s m c m.pc
  | .wakes | .nudge .. | .scan .. | .scanRets .. | .scanNote .. | .claim .. | .take .. | .marshal ..
  | .swapWake .. | .promoteLoad .. | .promoteStore .. | .pushReady .. => wakeStep s m c m.pc
  | .sleeps | .sleepCheck .. | .woken .. | .wokenState .. | .inboxes .. => sleepStep s m c m.pc
  | .assign .. | .assignPop .. | .assignLoad .. | .assignStore .. | .assignPublish .. =>
    assignStep s m m.pc

inductive Action where
  | hart (h : Nat) (trap : Trap)
  /-- hart `h` wins the scheduler lock -/
  | lock (h : Nat)
  | manager (c : Choice)
  /-- an interrupt handler or a syscall queues a wake event -/
  | wake (ev : WakeEvent)

/-- One step of the kernel. A panic or an access to freed memory stops it. -/
def step (s : State) (a : Action) : Option State :=
  if s.fault.isSome then none
  else
    match a with
    | .hart h trap =>
      if h < s.nHarts ∧ s.mgr.all (fun m => m.hart ≠ h) then hartStep s h trap else none
    | .lock h =>
      match s.mgr, (s.harts h).pc with
      | none, .idle =>
        if h < s.nHarts then some { s with mgr := some ⟨h, .cleanup s.registry [] []⟩ } else none
      | _, _ => none
    | .manager c =>
      match s.mgr with
      | some m => mgrStep s m c
      | none => none
    | .wake ev => some (s.wakeQueuePush ev)

end Orbit.Sched
