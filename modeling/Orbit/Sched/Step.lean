import Mathlib.Data.Nat.Bitwise
import Orbit.Sched.State

/-!
One atomic access of a hart or of the manager pass. `hartStep` follows
`k_hart_loop`, `load_thread_into_hart_context_and_jump`, `apply_syscall_outcome`,
`check_context_and_switch` and `exit_thread_with_state`; `mgrStep` follows one
manager pass in the order of `k_hart_loop`. A trap or a manager pass may have a
choice (which syscall the thread made, what a request is answered with); the rest
is determined by the state.
-/

namespace Orbit.Sched

/-- `x as i32`. -/
def asI32 (x : Int) : Int := Int.bmod x (2 ^ 32)

/-- What the running thread does next. -/
inductive Trap where
  /-- timer, software interrupt or a syscall that returns at once -/
  | preempt
  /-- `DoneReschedule` -/
  | yield (frame : Nat → Int)
  /-- the Suspended outcomes, with the deadline they store -/
  | sleep (frame : Nat → Int) (deadline : UInt64)
  /-- `ParkForPublish` -/
  | call (frame : Nat → Int)
  | createThread (frame : Nat → Int) (allowed affinity : UInt64)
  /-- `exit`: the whole process -/
  | exit (frame : Nat → Int)
  | threadExit (frame : Nat → Int)
  | fault

/-- What follows the store of `exit_thread_with_state`. -/
def afterPark (t : Tid) (target : ThreadState) : Option SleepNotice → HartPc
  | some n => .sleepPush n
  | none =>
    match target with
    | .ready => .mint t
    | .blocking => .claim t
    | _ => .idle

/-- The states in which `commit_allowed` lets a syscall outcome be committed. -/
def commitAllowed : ThreadState → Bool
  | .running | .suspended | .blocking => true
  | _ => false

/-- Queue a manager-resolved syscall of `t` and go on to its commit. -/
def issue (s : State) (h : Nat) (t : Tid) (frame : Nat → Int) (mk : Nat → Work) : Option State :=
  if s.work.length < workCap then
    let call := (s.threads t).calls + 1
    some (((s.pushWork (mk call)).setThread t { s.threads t with calls := call }).setPc h
      (.commit t .blocking frame none))
  else
    -- EAGAIN: the handler returns and the trap ends in `check_context_and_switch`
    some (s.setPc h (.switch t))

def trapStep (s : State) (h : Nat) (t : Tid) : Trap → Option State
  | .preempt => some (s.setPc h (.switch t))
  | .yield frame => some (s.setPc h (.commit t .ready frame none))
  | .sleep frame deadline => some (s.setPc h (.commit t .suspended frame (some deadline)))
  | .call frame => issue s h t frame (.call t)
  | .createThread frame allowed affinity =>
    issue s h t frame fun call =>
      .createThread t call (s.threads t).pid (s.threads t).allowedAffinity allowed affinity
  | .exit frame =>
    -- a full ring makes the handler spin, so there is no step then
    if s.work.length < workCap then
      some (((s.pushWork (.exitGroup (s.threads t).pid t
          (asI32 (frame (Thread.argReg + 1))))).setThread t
        { s.threads t with regs := frame }).setPc h (.parkSeq t .exited))
    else none
  | .threadExit frame =>
    some ((s.setThread t { s.threads t with regs := frame }).setPc h (.parkSeq t .exited))
  | .fault =>
    some ((s.setThread t { s.threads t with faulted := true }).setPc h (.parkSeq t .exited))

/-- The next access of hart `h`; `trap` is read only while it runs a thread. -/
def hartStep (s : State) (h : Nat) (trap : Trap) : Option State :=
  match (s.harts h).pc with
  | .idle =>
    match (s.harts h).current with
    | some t => some (s.setPc h (.dispatch t))
    | none => none
  | .dispatch t => s.deref t fun th =>
    if th.state = .exited then some (s.setPc h (.dispatchCheck t))
    else if th.state.transitionAllowed .running then some (s.setPc h (.dispatchStore t))
    else some (s.fail (.panic (.transitionTo .running) t th.state))
  | .dispatchStore t => s.deref t fun th =>
    some ((s.setThread t (th.store .running)).setPc h (.dispatchCheck t))
  | .dispatchCheck t => s.deref t fun th =>
    if th.state = .exited then
      some (s.setHart h { s.harts h with current := none, pc := .idle })
    else some (s.setPc h (.running t))
  | .running t => s.deref t fun _ => trapStep s h t trap
  | .commit t target frame deadline => s.deref t fun th =>
    if commitAllowed th.state then
      some ((s.setThread t { th with regs := frame, wakeTime := deadline.getD th.wakeTime }).setPc
        h (.parkSeq t target))
    else some (s.setPc h (.switch t))
  | .switch t => s.deref t fun th =>
    match th.state with
    | .running => some (s.setPc h (.parkSeq t .ready))
    | .exited => some (s.setPc h (.parkSeq t .exited))
    | .suspended | .blocking => some (s.setHart h { s.harts h with current := none, pc := .idle })
    | .ready | .assigned => some (s.setPc h (.dispatch t))
  | .parkSeq t target => s.deref t fun th =>
    if target = .suspended then
      let seq := th.sleepSeq + 1
      some ((s.setThread t { th with sleepSeq := seq }).setPc h
        (.parkNull t target (some ⟨th.wakeTime, seq, t⟩)))
    else some (s.setPc h (.parkNull t target none))
  | .parkNull t target notice =>
    some (s.setHart h { s.harts h with current := none, pc := .parkLoad t target notice })
  | .parkLoad t target notice => s.deref t fun th =>
    if th.state = .exited then some (s.setPc h (afterPark t target notice))
    else if th.state.transitionAllowed target then some (s.setPc h (.parkStore t target notice))
    else some (s.fail (.panic (.transitionTo target) t th.state))
  | .parkStore t target notice => s.deref t fun th =>
    some ((s.setThread t (th.store target)).setPc h (afterPark t target notice))
  | .sleepPush n =>
    if s.sleepInbox.length < sleepInboxCap then
      some ({ s with sleepInbox := s.sleepInbox ++ [n] }.setPc h .idle)
    else some (s.setPc h .idle)
  | .mint t => s.deref t fun th =>
    if th.state = .ready then some (s.setPc h (.push t))
    else some (s.fail (.panic .intoRunnable t th.state))
  | .push t => some ((s.pushInbox h t).setPc h .idle)
  | .claim t => s.deref t fun th =>
    match th.pending with
    | some p => some ((s.setThread t th.resetPending).setPc h (.claimed t p))
    | none => some (s.setPc h .idle)
  | .claimed t p => s.deref t fun th =>
    some ((s.setThread t (th.writeRets p.vals)).setPc h (.claimLoad t p))
  | .claimLoad t p => s.deref t fun th =>
    if th.state.parked then some (s.setPc h (.claimStore t p))
    else some (s.fail (.panic .promoteReadyFromParked t th.state))
  | .claimStore t _ => s.deref t fun th =>
    some ((s.setThread t (th.store .ready)).setPc h (.push t))

end Orbit.Sched
