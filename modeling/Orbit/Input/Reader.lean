import Orbit.Input.Rings
import Orbit.Sched.State

/-!
A process with one thread that reads its input: the handlers of `read_stdin` and
`read_key_event` on the thread's hart, `input::dispatch` in interrupt context, and the
manager's drains that make the thread Ready again. One step is one access to what they
share, so a byte may arrive between any two accesses of a handler. A blocking call that
finds nothing suspends the thread with its program counter at the call: when the thread
is made Ready, for whatever reason, the call is executed again from the start.
-/

namespace Orbit.Input

open Orbit.Abi
open Orbit.Sched (WakeEvent ThreadState wakeQueueCap netIo inputIo)

/-- The reading thread and the clock rate. -/
structure Setup where
  pid : Nat
  tid : Nat
  ticksPerMs : Nat
  tid_pos : 0 < tid

/-- `read_stdin(buf, len, flags)`. -/
structure StdinArgs where
  va : Nat
  len : Nat
  flags : Nat
  deriving DecidableEq, Repr

/-- `read_key_event(buf, count, flags, timeout_ms)`. -/
structure KeyArgs where
  va : Nat
  count : Nat
  flags : Nat
  timeoutMs : Nat
  deriving DecidableEq, Repr

inductive Call where
  | stdin (args : StdinArgs)
  | keys (args : KeyArgs)
  deriving DecidableEq, Repr

/-- What a call has returned; a key call with the times it was made and it returned. -/
inductive Return where
  | stdin (args : StdinArgs) (result : Except Errno (List UInt8))
  | keys (args : KeyArgs) (began ended : Nat) (result : Except Errno (List KeyEvent))
  deriving DecidableEq

/-- Where the thread is. `second` is the drain after the park. -/
inductive Pc where
  | user
  | enter (call : Call)
  | drainBytes (args : StdinArgs) (second : Bool) (out : List UInt8)
  | parkStdin (args : StdinArgs)
  | unparkStdin (args : StdinArgs) (out : List UInt8)
  | drainEvents (args : KeyArgs) (second : Bool) (out : List KeyEvent)
  | setParker (args : KeyArgs)
  | clearParker (args : KeyArgs) (out : List KeyEvent)
  /-- `exit_thread_with_state(Suspended)`, with the deadline `apply` has stamped -/
  | suspend (call : Call) (wakeTime : Nat)
  | parked (call : Call)

/-- Where `input::dispatch` is. -/
inductive DispatchPc where
  | idle
  | pushEvent (ev : Option KeyEvent) (bytes : List UInt8)
  | takeEventParker (bytes : List UInt8)
  | wakeEvent (tid : Nat) (bytes : List UInt8)
  | pushByte (bytes : List UInt8) (wakeTid : Option Nat)
  | takeByteParker (rest : List UInt8) (wakeTid : Option Nat)
  | wakeByte (tid : Nat)

structure System where
  stdin : ParkedRing UInt8
  events : ParkedRing KeyEvent
  dispatch : DispatchPc
  wakeQueue : List WakeEvent
  clock : Nat
  state : ThreadState
  wakeOverride : Nat
  wakeTime : Nat
  /-- sleep notices of the thread in the inbox -/
  notices : Nat
  pc : Pc
  /-- when the call under way was made -/
  began : Nat
  /-- every byte `push_byte` was called with, and whether the ring took it -/
  pushed : List (UInt8 × Bool)
  returned : List Return

/-- `READ_STDIN_NONBLOCK` and `READ_KEY_EVENT_NONBLOCK` -/
def nonblock (flags : Nat) : Bool := flags % 2 = 1

def readKeyEventMaxTimeoutMs : Nat := 60 * 60 * 1000
/-- `usize::MAX` -/
def readKeyEventIndefinite : Nat := 2 ^ 64 - 1

/-- The checks at the head of `read_stdin`; `translates` is the answer of the page table. -/
def StdinArgs.check (args : StdinArgs) (translates : Bool) : Except Errno Unit :=
  if Mem.userVa args.va = false then .error .efault
  else if args.len = 0 ∨ args.len > Paging.pageSize then .error .einval
  else if Mem.userRangeOk args.va args.len = false then .error .efault
  else if translates = false then .error .efault
  else .ok ()

/-- The checks at the head of `read_key_event`. -/
def KeyArgs.check (args : KeyArgs) (translates : Bool) : Except Errno Unit :=
  if Mem.userVa args.va = false then .error .efault
  else if args.count = 0 then .error .einval
  else if args.count * keyEventSize ≥ 2 ^ 64 then .error .einval
  else if args.count * keyEventSize > Paging.pageSize then .error .einval
  else if Mem.userRangeOk args.va (args.count * keyEventSize) = false then .error .efault
  else if translates = false then .error .efault
  else if args.timeoutMs ≠ readKeyEventIndefinite ∧ args.timeoutMs ≥ readKeyEventMaxTimeoutMs then
    .error .einval
  else .ok ()

/-- `now.wrapping_add(timeout_ms.wrapping_mul(ticks_per_ms))` -/
def deadline (c : Setup) (clock timeoutMs : Nat) : Nat :=
  (clock % 2 ^ 64 + timeoutMs * c.ticksPerMs % 2 ^ 64) % 2 ^ 64

namespace System

variable (c : Setup)

def returnStdin (s : System) (args : StdinArgs) (result : Except Errno (List UInt8)) : System :=
  { s with pc := .user, returned := s.returned ++ [.stdin args result] }

def returnKeys (s : System) (args : KeyArgs) (result : Except Errno (List KeyEvent)) : System :=
  { s with pc := .user, returned := s.returned ++ [.keys args s.began s.clock result] }

/-- The `ecall`, made or executed again. -/
def enter (s : System) (translates : Bool) : Call → System
  | .stdin args =>
    match args.check translates with
    | .error e => s.returnStdin args (.error e)
    | .ok () => { s with pc := .drainBytes args false [] }
  | .keys args =>
    match args.check translates with
    | .error e => s.returnKeys args (.error e)
    | .ok () => { s with pc := .drainEvents args false [] }

/-- What `read_stdin` does once a drain has ended with `out`. -/
def drainedBytes (s : System) (args : StdinArgs) (second : Bool) (out : List UInt8) : System :=
  if out ≠ [] then
    if second then { s with pc := .unparkStdin args out } else s.returnStdin args (.ok out)
  else if second then { s with pc := .suspend (.stdin args) (2 ^ 64 - 1) }
  else if nonblock args.flags then s.returnStdin args (.error .eagain)
  else { s with pc := .parkStdin args }

/-- What `read_key_event` does once a drain has ended with `out`. -/
def drainedEvents (s : System) (args : KeyArgs) (second : Bool) (out : List KeyEvent) : System :=
  if out ≠ [] then
    if second then { s with pc := .clearParker args out } else s.returnKeys args (.ok out)
  else if second then
    if args.timeoutMs = readKeyEventIndefinite then
      { s with pc := .suspend (.keys args) (2 ^ 64 - 1) }
    else { s with pc := .suspend (.keys args) (deadline c s.clock args.timeoutMs) }
  else if nonblock args.flags then s.returnKeys args (.error .eagain)
  else if args.timeoutMs = 0 then s.returnKeys args (.ok [])
  else { s with pc := .setParker args }

/-- The next access of the reading thread, which runs. -/
def readerStep (s : System) (translates : Bool) : Option System :=
  match s.pc with
  | .user | .parked _ => none
  | .enter call => some (s.enter translates call)
  | .drainBytes args second out =>
    if out.length < args.len then
      match s.stdin.dequeue with
      | some (b, stdin) => some { s with stdin, pc := .drainBytes args second (out ++ [b]) }
      | none => some (s.drainedBytes args second out)
    else some (s.drainedBytes args second out)
  | .parkStdin args =>
    match s.stdin.park c.tid with
    | some stdin => some { s with stdin, pc := .drainBytes args true [] }
    | none => some (s.returnStdin args (.error .ebusy))
  | .unparkStdin args out => some ({ s with stdin := s.stdin.unpark }.returnStdin args (.ok out))
  | .drainEvents args second out =>
    if out.length < min args.count (Paging.pageSize / keyEventSize) then
      match s.events.dequeue with
      | some (ev, events) =>
        some { s with events, pc := .drainEvents args second (out ++ [ev]) }
      | none => some (s.drainedEvents c args second out)
    else some (s.drainedEvents c args second out)
  | .setParker args =>
    match setParker s.events c.tid with
    | (.installed, events) => some { s with events, pc := .drainEvents args true [] }
    | (.alreadyOwned, _) => some { s with pc := .clearParker args [] }
    | (.busy, _) => some (s.returnKeys args (.error .ebusy))
  | .clearParker args out =>
    some ({ s with events := s.events.clearParkerIf c.tid }.returnKeys args (.ok out))
  | .suspend call wakeTime =>
    some { s with
      state := .suspended, wakeTime, notices := s.notices + 1, pc := .parked call }

/-- `wake_queue_push`; a full ring drops the event. -/
def wakeQueuePush (s : System) (ev : WakeEvent) : System :=
  if s.wakeQueue.length < wakeQueueCap then { s with wakeQueue := s.wakeQueue ++ [ev] } else s

/-- The end of the byte loop of `input::dispatch`. -/
def endBurst : Option Nat → DispatchPc
  | some tid => .wakeByte tid
  | none => .idle

/-- The next access of `input::dispatch`. -/
def dispatchStep (s : System) : Option System :=
  match s.dispatch with
  | .idle => none
  | .pushEvent none bytes => some { s with dispatch := .pushByte bytes none }
  | .pushEvent (some ev) bytes =>
    -- a full event ring drops the event, and the parker is taken all the same
    some { s with
      events := (s.events.enqueue keyRingCap ev).getD s.events, dispatch := .takeEventParker bytes }
  | .takeEventParker bytes =>
    some { s with
      events := s.events.unpark
      dispatch := match s.events.taken with
        | some tid => .wakeEvent tid bytes
        | none => .pushByte bytes none }
  | .wakeEvent tid bytes =>
    some { s.wakeQueuePush (.inputTid tid) with dispatch := .pushByte bytes none }
  | .pushByte [] wakeTid => some { s with dispatch := endBurst wakeTid }
  | .pushByte (b :: rest) wakeTid =>
    match s.stdin.enqueue stdinRingCap b with
    | some stdin =>
      some { s with
        stdin, pushed := s.pushed ++ [(b, true)], dispatch := .takeByteParker rest wakeTid }
    | none => some { s with pushed := s.pushed ++ [(b, false)], dispatch := endBurst wakeTid }
  | .takeByteParker rest wakeTid =>
    some { s with
      stdin := s.stdin.unpark
      dispatch := .pushByte rest (match s.stdin.taken with
        | some tid => some tid
        | none => wakeTid) }
  | .wakeByte tid => some { s.wakeQueuePush (.inputTid tid) with dispatch := .idle }

/-- The reason a wake event gives the reading thread, if it names it. -/
def reason : WakeEvent → Option Nat
  | .pid p => if p = c.pid then some netIo else none
  | .tid t => if t = c.tid then some netIo else none
  | .inputTid t => if t = c.tid then some inputIo else none
  | .none | .net | .gpu | .serial => none

/-- `promote_wake` -/
def promoteWake (s : System) : System := { s with state := .ready, wakeOverride := 0 }

/-- `set_wake_reason_where` for the reading thread. -/
def setWakeReason (s : System) (reason : Nat) : System :=
  let s := { s with wakeOverride := s.wakeOverride ||| reason }
  if s.state = .suspended then s.promoteWake else s

inductive Action where
  /-- the thread makes a call -/
  | call (call : Call)
  | reader (translates : Bool)
  /-- a key is reported: its event, if it has one, and its bytes -/
  | key (ev : Option KeyEvent) (bytes : List UInt8)
  | dispatch
  /-- somebody queues a wake event -/
  | wake (ev : WakeEvent)
  | drainWakes
  /-- `drain_sleeps` looks at a notice of the thread -/
  | drainSleeps
  /-- the sleep heap finds the deadline of the thread passed -/
  | timer
  | resume
  | tick

def step (s : System) : Action → Option System
  | .call call =>
    match s.pc with
    | .user => some { s with pc := .enter call, began := s.clock }
    | _ => none
  | .reader translates => if s.state = .running then s.readerStep c translates else none
  | .key ev bytes =>
    match s.dispatch with
    | .idle => some { s with dispatch := .pushEvent ev bytes }
    | _ => none
  | .dispatch => s.dispatchStep
  | .wake ev => some (s.wakeQueuePush ev)
  | .drainWakes =>
    match s.wakeQueue with
    | [] => none
    | ev :: rest =>
      let s := { s with wakeQueue := rest }
      match reason c ev with
      | some r => some (s.setWakeReason r)
      | none => some s
  | .drainSleeps =>
    if s.notices = 0 then none
    else
      let s := { s with notices := s.notices - 1 }
      if s.wakeOverride ≠ 0 ∧ s.state = .suspended then some s.promoteWake else some s
  | .timer =>
    if s.state = .suspended ∧ s.wakeTime ≤ s.clock % 2 ^ 64 then some s.promoteWake else none
  | .resume =>
    match s.state, s.pc with
    | .ready, .parked call => some { s with state := .running, pc := .enter call }
    | _, _ => none
  | .tick => some { s with clock := s.clock + 1 }

/-- Both rings are empty and the thread runs its own code. -/
structure Start (s : System) : Prop where
  stdin : s.stdin = .new
  events : s.events = .new
  dispatch : s.dispatch = .idle
  state : s.state = .running
  pc : s.pc = .user
  began : s.began ≤ s.clock
  pushed : s.pushed = []
  returned : s.returned = []

/-- The system as the process starts, at time `clock`. -/
def initial (clock : Nat) : System where
  stdin := .new
  events := .new
  dispatch := .idle
  wakeQueue := []
  clock := clock
  state := .running
  wakeOverride := 0
  wakeTime := 0
  notices := 0
  pc := .user
  began := 0
  pushed := []
  returned := []

theorem initial_start (clock : Nat) : (initial clock).Start :=
  ⟨rfl, rfl, rfl, rfl, rfl, Nat.zero_le _, rfl, rfl⟩

/-- `n` accesses of the reader. -/
def accesses (n : Nat) : List Action := List.replicate n (.reader true)

/-- The step makes the suspended thread Ready. -/
def promotes (s : System) (a : Action) : Bool :=
  s.state = .suspended && match a with
    | .drainWakes => s.wakeQueue.head?.any fun ev => (reason c ev).isSome
    | .drainSleeps => s.notices ≠ 0 && s.wakeOverride ≠ 0
    | .timer => s.wakeTime ≤ s.clock % 2 ^ 64
    | _ => false

end System

end Orbit.Input
