import Orbit.Net.Channel
import Orbit.Store.Spsc

/-!
A net channel between the kernel and a user that follows the protocol. Here the rings are
the rings: the kernel produces the slices and consumes the increments of each direction,
the user the other way round, and each side resets its own indices when a session ends.

A poll of the kernel (`update_tcp`) is cut where it reads what the user writes, so the
user's accesses fall between any two of them. Slices and increments carry the number of the
session they were made in; the kernel has no such number.
-/

namespace Orbit.Net

open Store

/-- Slots of a ring. -/
def ringCap : Nat := 16

structure Slice where
  len : Nat
  session : Nat
  deriving DecidableEq

structure Increment where
  count : Nat
  session : Nat

/-- `channel_state` -/
inductive ChannelState where
  | idle
  | inFlight
  | active
  | closing
  | failed
  deriving DecidableEq

/-- One direction: its rings, and what the kernel has staged. -/
structure Lane where
  slices : Spsc ringCap Slice
  increments : Spsc ringCap Increment
  pendingAck : Bool
  stagedLen : Nat

/-- Where a poll is. -/
inductive KernelPc where
  | idle
  /-- in the drain at the disengage edge -/
  | edge
  | drain (d : Direction)
  | stage (d : Direction)
  deriving DecidableEq

/-- Where the user is. -/
inductive UserPc where
  | out
  /-- in `next_session` -/
  | opening
  | session
  /-- in `send_tcp` or `recv_tcp`, after the look at the state -/
  | call (d : Direction)
  /-- in the callback, with the slice -/
  | holding (d : Direction) (slice : Slice)
  /-- in the drop of the session, after `disengage` -/
  | waiting
  /-- in `reset_user_side`, after so many of its stores -/
  | resetting (done : Nat)
  deriving DecidableEq

/-- What the socket answers between two reads of the region. -/
structure SocketView where
  maySend : Bool
  mayRecv : Bool
  recvQueue : Nat
  closed : Bool
  listens : Bool
  connects : Bool
  sendOk : Bool
  recvOk : Bool
  nextRx : Nat
  nextTx : Nat
  deriving DecidableEq, Repr

structure Shared where
  bind : BindSpec
  phase : ChannelPhase
  lastEngaged : Bool
  backoffMs : Nat
  nextAttemptAtUs : Nat
  lane : Direction → Lane
  engaged : Bool
  state : ChannelState
  kernel : KernelPc
  user : UserPc
  /-- how often the channel was recycled -/
  session : Nat
  /-- an increment out of protocol has failed the channel -/
  bogus : Bool
  /-- the sessions of the increments the kernel has consumed and of the slices the user has
  taken, each with the session it was in then -/
  consumed : List (Nat × Nat)
  taken : List (Nat × Nat)

namespace Shared

def setLane (s : Shared) (d : Direction) (l : Lane) : Shared :=
  { s with lane := fun e => if e = d then l else s.lane e }

def setPhase (s : Shared) (phase : ChannelPhase) (state : ChannelState) : Shared :=
  { s with phase, state }

/-- `fail_cause`, `state` and the sticky phase; the poll ends. -/
def fail (s : Shared) : Shared := { s.setPhase .failed .failed with kernel := .idle }

def scheduleRetry (s : Shared) (nowUs : Nat) : Shared :=
  let next := if s.backoffMs = 0 then Poll.retainBackoffMinMs
    else min (min (s.backoffMs * 2) (2 ^ 32 - 1)) Poll.retainBackoffCapMs
  { s with backoffMs := next, nextAttemptAtUs := min (nowUs + next * 1000) (2 ^ 64 - 1) }

/-- The end of the disengage edge. -/
def toClosing (s : Shared) : Shared := { s.setPhase .closing .closing with kernel := .idle }

/-- `reset_kernel_side`, and the kernel's own flags -/
def resetKernelSide (s : Shared) : Shared :=
  { s with
    lane := fun d =>
      { slices := (s.lane d).slices.resetProducer
        increments := (s.lane d).increments.resetConsumer
        pendingAck := false
        stagedLen := 0 }
    session := s.session + 1 }

/-- What a finished session leaves to its binding. -/
def rebind (v : SocketView) (s : Shared) : Shared :=
  match s.bind with
  | .serverRetain _ => if v.listens then s.setPhase .listening .inFlight else s.fail
  | .clientRetain _ _ =>
    { s.setPhase .freshIdle .idle with backoffMs := 0, nextAttemptAtUs := 0 }
  | .serverOneShot _ | .clientOneShot _ _ => s.fail

def closing (v : SocketView) (s : Shared) : Shared :=
  if v.closed then s.resetKernelSide.rebind v else s

/-- The first poll of a binding arms the socket. -/
def arm (v : SocketView) (nowUs : Nat) (s : Shared) : Shared :=
  match s.bind with
  | .serverOneShot _ | .serverRetain _ =>
    if v.listens then s.setPhase .listening .inFlight else s.fail
  | .clientRetain _ _ =>
    if nowUs < s.nextAttemptAtUs then s
    else if v.connects then s.setPhase .connecting .inFlight else s.scheduleRetry nowUs
  | .clientOneShot _ _ =>
    if s.lastEngaged then
      if v.connects then s.setPhase .connecting .inFlight else s.fail
    else s

def listening (v : SocketView) (s : Shared) : Shared :=
  if v.maySend || v.mayRecv then s.setPhase .active .active else s

def connecting (v : SocketView) (nowUs : Nat) (s : Shared) : Shared :=
  if v.maySend || v.mayRecv then
    { s.setPhase .active .active with backoffMs := 0, nextAttemptAtUs := 0 }
  else if v.closed then
    match s.bind with
    | .clientOneShot _ _ => s.fail
    | .clientRetain _ _ => (s.setPhase .freshIdle .idle).scheduleRetry nowUs
    | _ => s
  else s

def inPhase (phase : ChannelPhase) (f : Shared → Shared) (s : Shared) : Shared :=
  if s.phase = phase then f s else s

/-- The phases before a session, one after the other. -/
def advance (v : SocketView) (nowUs : Nat) (s : Shared) : Shared :=
  inPhase .connecting (connecting v nowUs) (inPhase .listening (listening v)
    (inPhase .freshIdle (arm v nowUs) s))

/-- The tx half of a poll, behind its gate. -/
def txGate (v : SocketView) (s : Shared) : Shared :=
  { s with kernel := if v.maySend then .drain .tx else .idle }

/-- The rx half of a poll, behind its gate. -/
def rxGate (v : SocketView) (s : Shared) : Shared :=
  if v.mayRecv || 0 < v.recvQueue then { s with kernel := .drain .rx } else s.txGate v

/-- `update_tcp` up to the first ring. The flag `engaged` is loaded once. -/
def begin (v : SocketView) (nowUs : Nat) (s : Shared) : Shared :=
  let wasEngaged := s.lastEngaged
  let engaged := s.engaged
  let s := { s with lastEngaged := engaged }
  if s.phase = .failed then s
  else if wasEngaged && !engaged && s.phase = .active then
    if v.maySend then { s with kernel := .edge } else s.toClosing
  else if s.phase = .closing then s.closing v
  else
    let s := s.advance v nowUs
    if s.phase = .active then s.rxGate v else s

/-- One turn of a drain: no increment ends it, one out of protocol fails the channel. -/
def drain (d : Direction) (ok : Bool) (done : Shared → Shared) (s : Shared) : Shared :=
  match (s.lane d).increments.dequeue with
  | none => done s
  | some (inc, ring) =>
    let l := s.lane d
    let s := { s.setLane d { l with increments := ring } with
      consumed := (inc.session, s.session) :: s.consumed }
    if l.pendingAck = false ∨ inc.count = 0 ∨ l.stagedLen < inc.count then
      { s.fail with bogus := true }
    else if ok then
      s.setLane d { l with increments := ring, pendingAck := false, stagedLen := 0 }
    else s.fail

/-- A slice of the socket's buffer is put before the user. -/
def offer (d : Direction) (len : Nat) (s : Shared) : Shared :=
  if len = 0 then s
  else
    let l := s.lane d
    s.setLane d { l with
      slices := l.slices.enqueue ⟨len, s.session⟩
      pendingAck := true
      stagedLen := len }

/-- One read of the region by the kernel and what follows from it. -/
def kernelStep (v : SocketView) (nowUs : Nat) (s : Shared) : Shared :=
  match s.kernel with
  | .idle => s.begin v nowUs
  -- an error of the socket is ignored at the edge
  | .edge => s.drain .tx true toClosing
  | .drain .rx => s.drain .rx v.recvOk fun s => { s with kernel := .stage .rx }
  | .stage .rx =>
    if (s.lane .rx).pendingAck then s.txGate v else (s.offer .rx v.nextRx).txGate v
  | .drain .tx => s.drain .tx v.sendOk fun s => { s with kernel := .stage .tx }
  | .stage .tx =>
    if (s.lane .tx).slices.isEmpty && !(s.lane .tx).pendingAck then
      { s.offer .tx v.nextTx with kernel := .idle }
    else { s with kernel := .idle }

/-- The state a call needs. -/
def callable (s : Shared) : Direction → Bool
  | .tx => s.state = .active
  | .rx => s.state = .active || s.state = .closing

/-- `reset_user_side`: the store after `done` others. -/
def resetUserSide (s : Shared) (done : Nat) : Shared :=
  let consumer (d : Direction) : Shared :=
    let l := s.lane d
    s.setLane d { l with slices := l.slices.resetConsumer }
  let producer (d : Direction) : Shared :=
    let l := s.lane d
    s.setLane d { l with increments := l.increments.resetProducer }
  match done with
  | 0 => { consumer .tx with user := .resetting 1 }
  | 1 => { producer .tx with user := .resetting 2 }
  | 2 => { consumer .rx with user := .resetting 3 }
  | _ => { producer .rx with user := .out }

/-- The user takes the slice of a call, if there is one and its increment will find room. -/
def take (d : Direction) (s : Shared) : Shared :=
  let l := s.lane d
  if l.slices.isEmpty || l.increments.isFull then { s with user := .session }
  else
    match l.slices.dequeue with
    | none => { s with user := .session }
    | some (slice, ring) =>
      { s.setLane d { l with slices := ring } with
        user := .holding d slice
        taken := (slice.session, s.session) :: s.taken }

/-- The callback has consumed `count` bytes of its slice. -/
def give (d : Direction) (slice : Slice) (count : Nat) (s : Shared) : Shared :=
  if count = 0 then { s with user := .session }
  else
    let l := s.lane d
    { s.setLane d { l with increments := l.increments.enqueue ⟨count, slice.session⟩ } with
      user := .session }

end Shared

inductive SessionAction where
  | kernel (v : SocketView) (nowUs : Nat)
  /-- `next_session` is called -/
  | engage
  /-- it looks at the state -/
  | look
  /-- a call of `send_tcp` or `recv_tcp` looks at the state -/
  | call (d : Direction)
  | take
  | give (count : Nat)
  /-- the session is dropped -/
  | disengage
  /-- the drop looks at the state -/
  | wait
  | reset
  deriving DecidableEq, Repr

namespace Shared

def step (s : Shared) : SessionAction → Option Shared
  | .kernel v nowUs => some (s.kernelStep v nowUs)
  | .engage => if s.user = .out then some { s with engaged := true, user := .opening } else none
  | .look =>
    if s.user = .opening then
      match s.state with
      | .active => some { s with user := .session }
      | .failed => some { s with engaged := false, user := .out }
      | _ => some s
    else none
  | .call d =>
    if s.user = .session then some (if s.callable d then { s with user := .call d } else s)
    else none
  | .take =>
    match s.user with
    | .call d => some (s.take d)
    | _ => none
  | .give count =>
    match s.user with
    | .holding d slice => if count ≤ slice.len then some (s.give d slice count) else none
    | _ => none
  | .disengage =>
    if s.user = .session then some { s with engaged := false, user := .waiting } else none
  | .wait =>
    if s.user = .waiting then
      match s.state with
      | .active | .closing => some s
      | _ => some { s with user := .resetting 0 }
    else none
  | .reset =>
    match s.user with
    | .resetting done => some (s.resetUserSide done)
    | _ => none

/-- A lane before the first poll. -/
def freshLane : Lane where
  slices := .new (by decide) ⟨0, 0⟩
  increments := .new (by decide) ⟨0, 0⟩
  pendingAck := false
  stagedLen := 0

/-- A channel as it is created. -/
def create (bind : BindSpec) : Shared where
  bind := bind
  phase := .freshIdle
  lastEngaged := false
  backoffMs := 0
  nextAttemptAtUs := 0
  lane := fun _ => freshLane
  engaged := false
  state := .idle
  kernel := .idle
  user := .out
  session := 0
  bogus := false
  consumed := []
  taken := []

end Shared

end Orbit.Net
