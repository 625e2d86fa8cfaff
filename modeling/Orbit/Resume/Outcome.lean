import Orbit.Sched.Thread

/-!
The resume payload of a thread and everyone who writes it: the snapshot at trap entry,
the commit of a syscall's outcome on the thread's own hart, and the verbs by which the
manager, or the parking hart itself, hands published values to a parked thread.
-/

namespace Orbit.Resume

open Sched (ThreadState)

/-- `sstatus.SPP` -/
inductive Mode where
  | user
  | supervisor
  deriving DecidableEq

structure TrapFrame where
  regs : Fin 32 → UInt64
  fregs : Fin 32 → UInt64
  asid : UInt64
  scratch : UInt64

/-- The return registers `a0` and `a1`. -/
def a0 : Fin 32 := 10
def a1 : Fin 32 := 11

/-- How many return registers there are, `a0` to `a3`. -/
def maxRets : Nat := 4

namespace TrapFrame

def empty : TrapFrame := ⟨fun _ => 0, fun _ => 0, 0, 0⟩

def setReg (f : TrapFrame) (r : Fin 32) (v : Int64) : TrapFrame :=
  { f with regs := fun i => if i = r then v.toUInt64 else f.regs i }

/-- Write values to `a0` and the registers after it, four at most. -/
def marshal (f : TrapFrame) (vals : List Int64) : TrapFrame :=
  { f with regs := fun i =>
      if a0.val ≤ i.val ∧ i.val < a0.val + min vals.length maxRets then
        (vals.getD (i.val - a0.val) 0).toUInt64
      else f.regs i }

end TrapFrame

structure Thread where
  mode : Mode
  state : ThreadState
  pid : UInt16
  frame : TrapFrame
  pc : UInt64
  wakeTime : UInt64
  sleepSeq : UInt64
  /-- the completion slot; `some` is SIGNALED -/
  pending : Option (List Int64)
  wakeOverride : UInt64
  lastWakeReason : UInt64

/-- The states in which a hart may have the thread's registers in its hands. -/
def savable : ThreadState → Bool
  | .running | .suspended | .blocking => true
  | _ => false

namespace Thread

/-- `save_trap_frame`, and the end of every commit. -/
def saveTrapFrame (t : Thread) (frame : TrapFrame) (pc : UInt64) : Thread :=
  { t with frame, pc }

def commitReturn (t : Thread) (ret : Int64) (epc : UInt64) (frame : TrapFrame) :
    Thread × TrapFrame :=
  let frame := frame.setReg a0 ret
  (t.saveTrapFrame frame (epc + 4), frame)

def commitReturn2 (t : Thread) (ret0 ret1 : Int64) (epc : UInt64) (frame : TrapFrame) :
    Thread × TrapFrame :=
  let frame := (frame.setReg a0 ret0).setReg a1 ret1
  (t.saveTrapFrame frame (epc + 4), frame)

def commitYield (t : Thread) (ret : Option Int64) (epc : UInt64) (frame : TrapFrame) :
    Thread × TrapFrame :=
  let frame := match ret with
    | some r => frame.setReg a0 r
    | none => frame
  (t.saveTrapFrame frame (epc + 4), frame)

def commitYieldRetry (t : Thread) (epc : UInt64) (frame : TrapFrame) : Thread × TrapFrame :=
  (t.saveTrapFrame frame epc, frame)

def setWakeTime (t : Thread) (wakeTime : UInt64) : Thread := { t with wakeTime }

end Thread

inductive SyscallOutcome where
  | ret (ret : Int64)
  | ret2 (ret0 ret1 : Int64)
  | doneReschedule (ret : Int64)
  | sleepUntil (deadline : UInt64)
  | parkForPublish
  | retryOnDoorbell
  | retryUntilDeadline (deadline : UInt64)
  deriving DecidableEq, Repr

inductive ShimAction where
  | resume
  | yield (state : ThreadState)

def commitAllowed (t : Thread) : Bool :=
  if t.mode ≠ .user then false else savable t.state

/-- `usize::MAX` -/
def usizeMax : UInt64 := 0xFFFFFFFFFFFFFFFF

/-- The action for the shim, the thread and the live frame. -/
def applySyscallOutcome (outcome : SyscallOutcome) (t : Thread) (frame : TrapFrame) (epc : UInt64) :
    ShimAction × Thread × TrapFrame :=
  if !commitAllowed t then (.resume, t, frame)
  else match outcome with
    | .ret ret => (.resume, t.commitReturn ret epc frame)
    | .ret2 ret0 ret1 => (.resume, t.commitReturn2 ret0 ret1 epc frame)
    | .doneReschedule ret => (.yield .ready, t.commitYield (some ret) epc frame)
    | .sleepUntil deadline =>
      let (t, frame) := t.commitYield (some 0) epc frame
      (.yield .suspended, t.setWakeTime deadline, frame)
    | .parkForPublish => (.yield .blocking, t.commitYield none epc frame)
    | .retryOnDoorbell =>
      let (t, frame) := t.commitYieldRetry epc frame
      (.yield .suspended, t.setWakeTime usizeMax, frame)
    | .retryUntilDeadline deadline =>
      let (t, frame) := t.commitYieldRetry epc frame
      (.yield .suspended, t.setWakeTime deadline, frame)

/-- The thread and the live frame after a trap has been entered. -/
def updateTrapFrame (t : Thread) (epc : UInt64) (frame : TrapFrame) (fromUser : Bool) :
    Thread × TrapFrame :=
  let frame := { frame with asid := t.pid.toUInt64 }
  let trapWasInThread := decide (t.mode = .user) = fromUser
  if ¬ trapWasInThread then (t, frame)
  else if savable t.state then (t.saveTrapFrame frame epc, frame)
  else (t, frame)

namespace Thread

/-- `promote_ready_from_parked`; `none` is its panic. -/
def promoteReadyFromParked (t : Thread) : Option Thread :=
  if t.state.parked then some { t with state := .ready } else none

/-- `publish_results` -/
def publishResults (t : Thread) (vals : List Int64) : Thread :=
  { t with pending := some (vals.take maxRets) }

/-- The wake bits become the reason of the last wake. -/
def recordWake (t : Thread) : Thread :=
  { t with lastWakeReason := t.wakeOverride, wakeOverride := 0 }

/-- `ParkedMut::write_rets` -/
def writeRets (t : Thread) (vals : List Int64) : Option Thread :=
  { t with frame := t.frame.marshal vals, pending := none }.promoteReadyFromParked

/-- `ParkedMut::resume_published`; the inner `none` is a lost take-CAS. -/
def resumePublished (t : Thread) : Option (Option Thread) :=
  match t.pending with
  | none => some none
  | some rets =>
    (recordWake { t with
      frame := t.frame.marshal rets
      pending := none }).promoteReadyFromParked.map some

/-- `ParkedMut::promote_wake` -/
def promoteWake (t : Thread) : Option Thread := t.recordWake.promoteReadyFromParked

/-- `RunningThread::try_claim_own_pending` -/
def tryClaimOwnPending (t : Thread) : Option (Option Thread) :=
  match t.pending with
  | none => some none
  | some rets =>
    (promoteReadyFromParked { t with
      frame := t.frame.marshal rets
      pending := none }).map some

/-- `transition_to`; a thread that has exited stays so, and `none` is the panic. -/
def transitionTo (t : Thread) (state : ThreadState) : Option Thread :=
  if t.state = .exited then some t
  else if ThreadState.transitionAllowed t.state state then some { t with state }
  else none

end Thread

/-- Where a thread goes on after an outcome: behind its `ecall`, or at it again. -/
def SyscallOutcome.resumePc (epc : UInt64) : SyscallOutcome → UInt64
  | .retryOnDoorbell | .retryUntilDeadline _ => epc
  | _ => epc + 4

/-- The registers a thread goes on with: those of the trap, but for the outcome's return
registers. What is published for a parked call is written later. -/
def SyscallOutcome.resumeFrame (entry : TrapFrame) : SyscallOutcome → TrapFrame
  | .ret v | .doneReschedule v => entry.setReg a0 v
  | .ret2 v w => (entry.setReg a0 v).setReg a1 w
  | .sleepUntil _ => entry.setReg a0 0
  | .parkForPublish | .retryOnDoorbell | .retryUntilDeadline _ => entry

/-- Where the shim takes a running thread after an outcome. A call that returns at once
goes back through the scheduler as well. -/
def SyscallOutcome.target : SyscallOutcome → ThreadState
  | .ret _ | .ret2 _ _ | .doneReschedule _ => .ready
  | .sleepUntil _ | .retryOnDoorbell | .retryUntilDeadline _ => .suspended
  | .parkForPublish => .blocking

theorem applySyscallOutcome_commits {t : Thread} (h : commitAllowed t = true)
    (outcome : SyscallOutcome) (frame : TrapFrame) (epc : UInt64) :
    (applySyscallOutcome outcome t frame epc).2.1.pc = outcome.resumePc epc ∧
      (applySyscallOutcome outcome t frame epc).2.1.frame = outcome.resumeFrame frame := by
  cases outcome <;> simp only [applySyscallOutcome, h, Bool.not_true, Bool.false_eq_true,
    if_false] <;> exact ⟨rfl, rfl⟩

/-- A commit touches the registers, the pc and the wake time alone. -/
theorem applySyscallOutcome_keeps (outcome : SyscallOutcome) (t : Thread) (frame : TrapFrame)
    (epc : UInt64) :
    (applySyscallOutcome outcome t frame epc).2.1.mode = t.mode ∧
      (applySyscallOutcome outcome t frame epc).2.1.state = t.state ∧
      (applySyscallOutcome outcome t frame epc).2.1.pending = t.pending := by
  unfold applySyscallOutcome
  split
  · exact ⟨rfl, rfl, rfl⟩
  · cases outcome <;> exact ⟨rfl, rfl, rfl⟩

theorem applySyscallOutcome_gated {t : Thread} (h : commitAllowed t = false)
    (outcome : SyscallOutcome) (frame : TrapFrame) (epc : UInt64) :
    applySyscallOutcome outcome t frame epc = (.resume, t, frame) := by
  simp only [applySyscallOutcome, h, Bool.not_false, if_true]

theorem updateTrapFrame_gated {t : Thread} {fromUser : Bool}
    (h : decide (t.mode = .user) ≠ fromUser ∨ savable t.state = false) (epc : UInt64)
    (frame : TrapFrame) :
    (updateTrapFrame t epc frame fromUser).1 = t := by
  unfold updateTrapFrame
  dsimp only
  split
  · rfl
  next hmode =>
  have hstate := h.resolve_left fun hne => hmode hne
  rw [hstate]
  rfl

end Orbit.Resume
