import Orbit.Mem.Requests

/-!
`NetChannel::update_tcp` over memory that its user may write at any moment. Nothing the
kernel reads from the region can be relied on, so each load yields the next value of an
arbitrary sequence, and so does each question put to the socket. What the kernel does to
the region and to the socket is kept as a trace, newest first.
-/

namespace Orbit.Net

inductive Direction where
  | rx
  | tx
  deriving DecidableEq, Repr

inductive Event where
  /-- an access of the kernel to the region -/
  | touch (offset len : Nat)
  /-- a slice of the socket's buffer is put before the user -/
  | staged (d : Direction) (len : Nat)
  /-- the socket is told that so many bytes are done with -/
  | ack (d : Direction) (count : Nat)
  /-- the connection is aborted and both rings start afresh -/
  | recycled
  deriving DecidableEq

inductive BindSpec where
  | clientOneShot (addr port : Nat)
  | clientRetain (addr port : Nat)
  | serverOneShot (port : Nat)
  | serverRetain (port : Nat)

inductive ChannelPhase where
  | freshIdle
  | listening
  | connecting
  | active
  | closing
  | failed
  deriving DecidableEq

def ncDesiredOff : Nat := 128
def ncCurrentOff : Nat := 256
def ncTxOff : Nat := 384

/-- `size_of::<NetChannelQueue>()`: two rings of 16, `avail`, `capacity` and a byte. -/
def queueHeader : Nat := 440

def queueLenFor (regionSize : Nat) : Nat := (regionSize - ncTxOff) / 2 / 8 * 8

def capacityFor (regionSize : Nat) : Nat := queueLenFor regionSize - queueHeader + 1

/-- `ChannelCtx` -/
structure ChannelCtx where
  bind : BindSpec
  phase : ChannelPhase
  queueLen : Nat
  capacity : Nat
  pendingRxAck : Bool
  pendingTxAck : Bool
  stagedRxLen : Nat
  stagedTxLen : Nat
  lastEngaged : Bool
  backoffMs : Nat
  nextAttemptAtUs : Nat

def ChannelCtx.new (bind : BindSpec) (regionSize : Nat) : ChannelCtx :=
  ⟨bind, .freshIdle, queueLenFor regionSize, capacityFor regionSize, false, false, 0, 0,
    false, 0, 0⟩

/-- What the socket answers to a question. -/
structure Answer where
  maySend : Bool
  mayRecv : Bool
  recvQueue : Nat
  closed : Bool
  ok : Bool
  hasPeer : Bool
  nextLen : Nat

/-- The values the region and the socket yield, one after the other. -/
structure World where
  memory : Nat → Nat
  socket : Nat → Answer

structure Poll where
  ctx : ChannelCtx
  loads : Nat
  asked : Nat
  sessionStateChanged : Bool
  ringProgress : Bool
  events : List Event

namespace Poll

def load (w : World) (p : Poll) (offset len : Nat) : Nat × Poll :=
  (w.memory p.loads % 2 ^ (8 * len),
    { p with loads := p.loads + 1, events := .touch offset len :: p.events })

def store (p : Poll) (offset len : Nat) : Poll := { p with events := .touch offset len :: p.events }

def ask (w : World) (p : Poll) : Answer × Poll :=
  (w.socket p.asked, { p with asked := p.asked + 1 })

def note (p : Poll) (e : Event) : Poll := { p with events := e :: p.events }

/-- The subregion of a direction: `tx` and `rx_trusted`. -/
def queueBase (p : Poll) : Direction → Nat
  | .tx => ncTxOff
  | .rx => ncTxOff + p.ctx.queueLen

def slicesOff : Nat := 0
def incrementsOff : Nat := 272
def availOff : Nat := 416

/-- `load_head`, `load_tail`: masked on every load. -/
def loadIndex (w : World) (p : Poll) (offset : Nat) : Nat × Poll :=
  let (v, p) := p.load w offset 8
  (v % 16, p)

/-- `SpscQueue::dequeue` of an increment -/
def dequeueIncrement (w : World) (p : Poll) (d : Direction) : Option Nat × Poll :=
  let ring := p.queueBase d + incrementsOff
  let (head, p) := p.loadIndex w ring
  let (tail, p) := p.loadIndex w (ring + 8)
  if head = tail then (none, p)
  else
    let (v, p) := p.load w (ring + 16 + head * 8) 8
    (some v, p.store ring 8)

/-- `SpscQueue::enqueue` of a slice; a full ring drops it. -/
def enqueueSlice (w : World) (p : Poll) (d : Direction) : Poll :=
  let ring := p.queueBase d + slicesOff
  let (tail, p) := p.loadIndex w (ring + 8)
  let (head, p) := p.loadIndex w ring
  if (tail + 1) % 16 = head then p
  else (p.store (ring + 16 + tail * 16) 16).store (ring + 8) 8

def slicesIsEmpty (w : World) (p : Poll) (d : Direction) : Bool × Poll :=
  let ring := p.queueBase d + slicesOff
  let (head, p) := p.loadIndex w ring
  let (tail, p) := p.loadIndex w (ring + 8)
  (head == tail, p)

/-- `cur.state.store` -/
def setState (p : Poll) : Poll := { p.store ncCurrentOff 4 with sessionStateChanged := true }

def setPhase (p : Poll) (phase : ChannelPhase) : Poll := { p with ctx := { p.ctx with phase } }

/-- `fail_cause`, `state` and the sticky phase -/
def fail (p : Poll) : Poll := ((p.store (ncCurrentOff + 12) 4).setState).setPhase .failed

def pending (p : Poll) : Direction → Bool
  | .rx => p.ctx.pendingRxAck
  | .tx => p.ctx.pendingTxAck

def stagedLen (p : Poll) : Direction → Nat
  | .rx => p.ctx.stagedRxLen
  | .tx => p.ctx.stagedTxLen

def setStaged (p : Poll) (d : Direction) (pending : Bool) (len : Nat) : Poll :=
  match d with
  | .rx => { p with ctx := { p.ctx with pendingRxAck := pending, stagedRxLen := len } }
  | .tx => { p with ctx := { p.ctx with pendingTxAck := pending, stagedTxLen := len } }

/-- The increments of a direction, each into the socket. At the disengage edge an error
of the socket is ignored; otherwise it fails the channel, as a count out of protocol
does. -/
def drain (w : World) (d : Direction) (atEdge : Bool) : Nat → Poll → Poll
  | 0, p => p
  | fuel + 1, p =>
    match p.dequeueIncrement w d with
    | (none, p) => p
    | (some count, p) =>
      if p.pending d = false ∨ count = 0 ∨ p.stagedLen d < count then p.fail
      else
        let (a, p) := (p.note (.ack d count)).ask w
        if a.ok || atEdge then drain w d atEdge fuel (p.setStaged d false 0) else p.fail

/-- Two rounds always suffice: after one the slice is acknowledged, and a second
increment fails the channel. -/
def drainAll (w : World) (d : Direction) (atEdge : Bool) (p : Poll) : Poll := drain w d atEdge 2 p

/-- The next slice of the socket's buffer, if there is one. -/
def stage (w : World) (d : Direction) (p : Poll) : Poll :=
  let (a, p) := p.ask w
  if a.nextLen = 0 then p
  else
    let p := (p.enqueueSlice w d).store (p.queueBase d + availOff) 8
    { (p.setStaged d true a.nextLen).note (.staged d a.nextLen) with ringProgress := true }

/-- `reset_kernel_side` -/
def resetKernelSide (p : Poll) : Poll :=
  let tx := p.queueBase .tx
  let rx := p.queueBase .rx
  let p := (p.store (tx + slicesOff + 8) 8).store (tx + incrementsOff) 8
  let p := (p.store (rx + slicesOff + 8) 8).store (rx + incrementsOff) 8
  (p.store (tx + availOff) 8).store (rx + availOff) 8

/-- `publish_peer`, and the loads for the log line after it -/
def publishPeer (w : World) (p : Poll) : Poll :=
  let (a, p) := p.ask w
  let p := if a.hasPeer then (p.store (ncCurrentOff + 4) 4).store (ncCurrentOff + 8) 2 else p
  let (_, p) := p.load w (ncCurrentOff + 4) 4
  (p.load w (ncCurrentOff + 8) 2).2

def retainBackoffMinMs : Nat := 100
def retainBackoffCapMs : Nat := 30000

def scheduleRetry (p : Poll) (nowUs : Nat) : Poll :=
  let next := if p.ctx.backoffMs = 0 then retainBackoffMinMs
    else min (min (p.ctx.backoffMs * 2) (2 ^ 32 - 1)) retainBackoffCapMs
  let nextAt := min (nowUs + next * 1000) (2 ^ 64 - 1)
  { p with ctx := { p.ctx with backoffMs := next, nextAttemptAtUs := nextAt } }

/-- The 1 to 0 edge of `engaged` in an active session. -/
def disengage (w : World) (p : Poll) : Poll :=
  let (a, p) := p.ask w
  let p := if a.maySend then p.drainAll w .tx true else p
  if p.ctx.phase = .failed then p else (p.setPhase .closing).setState

/-- What a finished session leaves to its binding. -/
def rebind (w : World) (p : Poll) : Poll :=
  match p.ctx.bind with
  | .serverRetain _ =>
    let (a, p) := p.ask w
    if a.ok then (p.setPhase .listening).setState else p.fail
  | .clientRetain _ _ =>
    let p := p.setPhase .freshIdle
    Poll.setState { p with ctx := { p.ctx with backoffMs := 0, nextAttemptAtUs := 0 } }
  | .serverOneShot _ | .clientOneShot _ _ => p.fail

/-- Waiting for the close handshake; then the rings are reset and bound again. -/
def closing (w : World) (p : Poll) : Poll :=
  let (a, p) := p.ask w
  if a.closed then
    let p := (p.note .recycled).resetKernelSide
    let p := (p.setStaged .rx false 0).setStaged .tx false 0
    ((p.store (ncCurrentOff + 4) 4).store (ncCurrentOff + 8) 2).rebind w
  else p

/-- The first poll of a binding arms the socket. -/
def arm (w : World) (engaged : Bool) (nowUs : Nat) (p : Poll) : Poll :=
  match p.ctx.bind with
  | .serverOneShot _ | .serverRetain _ =>
    let (a, p) := p.ask w
    if a.ok then (p.setPhase .listening).setState else p.fail
  | .clientRetain _ _ =>
    if nowUs < p.ctx.nextAttemptAtUs then p
    else
      let (a, p) := p.ask w
      if a.ok then (p.setPhase .connecting).setState else p.scheduleRetry nowUs
  | .clientOneShot _ _ =>
    if engaged then
      let (a, p) := p.ask w
      if a.ok then (p.setPhase .connecting).setState else p.fail
    else p

def listening (w : World) (p : Poll) : Poll :=
  let (a, p) := p.ask w
  if a.maySend || a.mayRecv then ((p.publishPeer w).setPhase .active).setState else p

def connecting (w : World) (nowUs : Nat) (p : Poll) : Poll :=
  let (a, p) := p.ask w
  if a.maySend || a.mayRecv then
    let p := (p.publishPeer w).setPhase .active
    Poll.setState { p with ctx := { p.ctx with backoffMs := 0, nextAttemptAtUs := 0 } }
  else if a.closed then
    match p.ctx.bind with
    | .clientOneShot _ _ => p.fail
    | .clientRetain _ _ => ((p.setPhase .freshIdle).scheduleRetry nowUs).setState
    | _ => p
  else p

/-- The rx half of an active session. -/
def activeRx (w : World) (p : Poll) : Poll :=
  let (a, p) := p.ask w
  if a.mayRecv || 0 < a.recvQueue then
    let p := p.drainAll w .rx false
    if p.ctx.phase = .failed ∨ p.ctx.pendingRxAck then p else p.stage w .rx
  else p

/-- The tx half, with the slice ring looked at before a new slice. -/
def activeTx (w : World) (p : Poll) : Poll :=
  let (a, p) := p.ask w
  if a.maySend then
    let p := p.drainAll w .tx false
    if p.ctx.phase = .failed then p
    else
      let (empty, p) := p.slicesIsEmpty w .tx
      if empty && !p.ctx.pendingTxAck then p.stage w .tx else p
  else p

/-- A step that runs in one phase only. -/
def inPhase (phase : ChannelPhase) (f : Poll → Poll) (p : Poll) : Poll :=
  if p.ctx.phase = phase then f p else p

/-- `update_tcp` -/
def updateTcp (w : World) (nowUs : Nat) (p : Poll) : Poll :=
  let (v, p) := p.load w ncDesiredOff 4
  let engaged := v != 0
  let wasEngaged := p.ctx.lastEngaged
  let p := { p with ctx := { p.ctx with lastEngaged := engaged } }
  if p.ctx.phase = .failed then p
  else if wasEngaged && !engaged && p.ctx.phase = .active then p.disengage w
  else if p.ctx.phase = .closing then p.closing w
  else
    let p := inPhase .freshIdle (arm w engaged nowUs) p
    let p := inPhase .listening (listening w) p
    let p := inPhase .connecting (connecting w nowUs) p
    -- the tx half of an active session does not run once the rx half has failed it
    inPhase .active (activeTx w) (inPhase .active (activeRx w) p)

/-- A channel as it is created over a region of a size. -/
def init (bind : BindSpec) (regionSize : Nat) : Poll :=
  ⟨ChannelCtx.new bind regionSize, 0, 0, false, false, []⟩

/-- Any number of polls, at any times. -/
def run (w : World) (times : List Nat) (p : Poll) : Poll :=
  times.foldl (fun p nowUs => p.updateTcp w nowUs) p

end Poll

end Orbit.Net
