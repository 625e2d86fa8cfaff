import Orbit.Resume.Outcome

/-!
A user thread from trap to trap. It runs, is interrupted, makes syscalls, parks, is woken
by the manager in any of the ways there are, and is entered again. The notice of a sleep
and the look of a parking hart for published values may come late, when the thread is
already on its way elsewhere.
-/

namespace Orbit.Resume

open Sched (ThreadState)

/-- Where the thread's registers are. -/
inductive Place where
  | away
  /-- a hart runs the thread, with these registers and this pc -/
  | user (regs : TrapFrame) (pc : UInt64)
  /-- a hart is on its way through `exit_thread_with_state` -/
  | parking (target : ThreadState)

/-- Ghost record of a syscall that was committed and not yet resumed from: its outcome,
the `ecall`, the registers at the trap, and what the manager answered. -/
structure Call where
  outcome : SyscallOutcome
  epc : UInt64
  entry : TrapFrame
  answer : Option (List Int64)

structure System where
  thread : Thread
  place : Place
  /-- harts that stored Blocking and have not yet looked for published values -/
  claims : Nat
  /-- sleep notices not yet pushed, in the inbox, and in the heap, by their number -/
  unsent : List UInt64
  inbox : List UInt64
  heap : List UInt64
  /-- a request of the thread is with the manager -/
  asked : Bool
  call : Option Call

inductive Action where
  /-- user code goes on -/
  | run (regs : TrapFrame) (pc : UInt64)
  | interrupt
  /-- a trap out of kernel code on a hart whose `current` is the thread -/
  | kernelTrap (frame : TrapFrame) (epc : UInt64)
  | syscall (outcome : SyscallOutcome)
  | park
  | claimOwn
  | pushNotice (i : Nat)
  | publish (vals : List Int64)
  | resumeThread (vals : List Int64)
  | wake (reason : UInt64)
  | drainNotice
  | timer (seq : UInt64)
  | assign
  | enter

namespace System

/-- `check_context_and_switch`, after a trap. In the other states the hart lets go of the
thread, or enters it. -/
def checkContextAndSwitch (s : System) : System :=
  match s.thread.state with
  | .running => { s with place := .parking .ready }
  | .exited => { s with place := .parking .exited }
  | _ => { s with place := .away }

/-- The trap of an `ecall`, from its handler to the start of the park. A handler that parks
for a publication has queued its request. -/
def syscall (s : System) (outcome : SyscallOutcome) (frame : TrapFrame) (epc : UInt64) : System :=
  let (action, t, _) := applySyscallOutcome outcome s.thread frame epc
  let s := { s with
    thread := t
    asked := s.asked || decide (outcome = SyscallOutcome.parkForPublish)
    call := if commitAllowed s.thread then some ⟨outcome, epc, frame, none⟩ else s.call }
  match action with
  | .resume => s.checkContextAndSwitch
  | .yield target => { s with place := .parking target }

/-- `exit_thread_with_state` -/
def exitThreadWithState (s : System) (target : ThreadState) : Option System :=
  match target with
  | .suspended =>
    let seq := s.thread.sleepSeq + 1
    ({ s.thread with sleepSeq := seq }.transitionTo .suspended).map fun t =>
      { s with thread := t, place := .away, unsent := s.unsent ++ [seq] }
  | .blocking =>
    (s.thread.transitionTo .blocking).map fun t =>
      { s with thread := t, place := .away, claims := s.claims + 1 }
  | target => (s.thread.transitionTo target).map fun t => { s with thread := t, place := .away }

/-- The request is answered, and the answer is the call's. -/
def answered (s : System) (t : Thread) (vals : List Int64) : System :=
  { s with
    thread := t
    asked := false
    call := s.call.map fun c => { c with answer := some vals } }

end System

/-- What `set_wake_reason_where` does with one thread. -/
def Thread.setWakeReason (t : Thread) (reason : UInt64) : Option Thread :=
  let noted := { t with wakeOverride := t.wakeOverride ||| reason }
  if t.state = .suspended then
    if t.pending.isSome then noted.resumePublished.map (·.getD noted) else noted.promoteWake
  else if t.state = .blocking ∧ t.pending.isSome then noted.resumePublished.map (·.getD noted)
  else some noted

def step (s : System) : Action → Option System
  | .run regs pc =>
    match s.place with
    | .user _ _ => some { s with place := .user regs pc }
    | _ => none
  | .interrupt =>
    match s.place with
    | .user regs pc =>
      some { s with thread := (updateTrapFrame s.thread pc regs true).1 }.checkContextAndSwitch
    | _ => none
  | .kernelTrap frame epc =>
    if s.thread.mode = .user then
      some { s with thread := (updateTrapFrame s.thread epc frame false).1 }
    else none
  | .syscall outcome =>
    match s.place with
    | .user regs pc => some (s.syscall outcome regs pc)
    | _ => none
  | .park =>
    match s.place with
    | .parking target => s.exitThreadWithState target
    | _ => none
  | .claimOwn =>
    if s.claims = 0 then none
    else s.thread.tryClaimOwnPending.map fun t =>
      { s with thread := t.getD s.thread, claims := s.claims - 1 }
  | .pushNotice i =>
    (s.unsent[i]?).map fun seq =>
      { s with unsent := s.unsent.eraseIdx i, inbox := s.inbox ++ [seq] }
  | .publish vals =>
    if s.asked then some (s.answered (s.thread.publishResults vals) vals) else none
  | .resumeThread vals =>
    if s.asked then
      if s.thread.state.parked then (s.thread.writeRets vals).map fun t => s.answered t vals
      else some (s.answered (s.thread.publishResults vals) vals)
    else none
  | .wake reason => (s.thread.setWakeReason reason).map fun t => { s with thread := t }
  | .drainNotice =>
    match s.inbox with
    | [] => none
    | seq :: rest =>
      if s.thread.wakeOverride ≠ 0 then
        if s.thread.state.parked then
          s.thread.promoteWake.map fun t => { s with thread := t, inbox := rest }
        else some { s with inbox := rest }
      else some { s with inbox := rest, heap := s.heap ++ [seq] }
  | .timer seq =>
    if seq ∈ s.heap then
      if s.thread.sleepSeq = seq ∧ s.thread.state = .suspended then
        s.thread.promoteWake.map fun t => { s with thread := t, heap := s.heap.erase seq }
      else some { s with heap := s.heap.erase seq }
    else none
  | .assign =>
    if s.thread.state = .ready then some { s with thread := { s.thread with state := .assigned } }
    else none
  | .enter =>
    if s.thread.state = .assigned then
      some { s with
        thread := { s.thread with state := .running }
        place := .user s.thread.frame s.thread.pc
        call := none }
    else none

/-- A user thread that has not run yet. -/
structure Fresh (s : System) : Prop where
  mode : s.thread.mode = .user
  state : s.thread.state = .ready
  pending : s.thread.pending = none
  place : s.place = .away
  claims : s.claims = 0
  unsent : s.unsent = []
  inbox : s.inbox = []
  asked : s.asked = false
  call : s.call = none

/-- A syscall is left to the manager only when the thread's earlier parks are over: no
notice of a sleep is on its way, and no hart has still to look for published values. -/
def Settled (s : System) : Action → Prop
  | .syscall .parkForPublish => s.unsent = [] ∧ s.inbox = [] ∧ s.claims = 0
  | _ => True

instance (s : System) (a : Action) : Decidable (Settled s a) :=
  match a with
  | .syscall o =>
    match o with
    | .parkForPublish => inferInstanceAs (Decidable (_ ∧ _ ∧ _))
    | .ret _ | .ret2 _ _ | .doneReschedule _ | .sleepUntil _ | .retryOnDoorbell
    | .retryUntilDeadline _ => inferInstanceAs (Decidable True)
  | .run .. | .interrupt | .kernelTrap .. | .park | .claimOwn | .pushNotice _ | .publish _
  | .resumeThread _ | .wake _ | .drainNotice | .timer _ | .assign | .enter =>
    inferInstanceAs (Decidable True)

end Orbit.Resume
