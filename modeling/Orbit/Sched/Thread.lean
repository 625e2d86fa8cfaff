import Mathlib.Order.Basic

/-!
The scheduler-visible part of a thread: its state word, its completion slot, its
wake bits and its saved frame, with the checked edges between states. Loads and
stores of the state word are kept apart, because the source performs them as
separate atomic accesses.
-/

namespace Orbit.Sched

/-- Threads are named by their allocation. A name is never reused, so it stands
for both the thread pointer and the tid. -/
abbrev Tid := Nat

abbrev Pid := Nat

inductive ThreadState where
  | ready
  | blocking
  | assigned
  | running
  | exited
  | suspended
  deriving DecidableEq

namespace ThreadState

/-- `Blocking` or `Suspended`: the states a resume may claim. -/
def parked : ThreadState → Bool
  | .blocking | .suspended => true
  | _ => false

/-- The edges of the generic setter `transition_to`. A parked thread becomes
ready only through `promote_ready_from_parked`. -/
def transitionAllowed (source : ThreadState) : ThreadState → Bool
  | .assigned => source = .ready
  | .running => source = .assigned
  | .ready | .blocking | .suspended | .exited => source = .running

end ThreadState

/-- Wake-reason bits. -/
def tickle : Nat := 1
def netIo : Nat := 2
def inputIo : Nat := 16

/-- A completion value. `call` records which of the thread's manager-resolved
syscalls the manager produced it for; the kernel does not store that number. -/
structure Published where
  call : Nat
  vals : List Int
  deriving DecidableEq

structure Thread where
  pid : Pid
  state : ThreadState
  /-- `pending_state`: `some` is SIGNALED with the stored return values. -/
  pending : Option Published
  wakeOverride : Nat
  lastWakeReason : Nat
  sleepSeq : UInt64
  wakeTime : UInt64
  affinity : UInt64
  allowedAffinity : UInt64
  ticks : UInt64
  /-- The saved trap frame; `a0` is register 10. -/
  regs : Nat → Int
  /-- `fault_info` is present. -/
  faulted : Bool
  /-- The allocation has been returned by the reaper. -/
  freed : Bool
  /-- How many manager-resolved syscalls the thread has issued. -/
  calls : Nat
  /-- What the manager last produced for this thread. -/
  answer : Option Published

namespace Thread

/-- The first return register. -/
def argReg : Nat := 10

/-- How many return values fit into `a0..a3`. -/
def maxRets : Nat := 4

/-- Copy return values into `a0..`, clamped to the return registers. -/
def marshal (regs : Nat → Int) (vals : List Int) : Nat → Int := fun r =>
  if argReg ≤ r ∧ r < argReg + min vals.length maxRets then vals.getD (r - argReg) 0 else regs r

/-- The return registers hold `vals`. -/
def Holds (regs : Nat → Int) (vals : List Int) : Prop :=
  ∀ i, i < min vals.length maxRets → regs (argReg + i) = vals.getD i 0

theorem holds_marshal (regs : Nat → Int) (vals : List Int) : Holds (marshal regs vals) vals := by
  intro i hi
  simp only [marshal]
  rw [if_pos ⟨Nat.le_add_right _ _, Nat.add_lt_add_left hi _⟩]
  simp

/-- `Thread::new`: ready, with an empty slot and a fresh frame. -/
def new (pid : Pid) (allowedAffinity affinity : UInt64) (regs : Nat → Int) : Thread where
  pid := pid
  state := .ready
  pending := none
  wakeOverride := 0
  lastWakeReason := 0
  sleepSeq := 0
  wakeTime := 0
  affinity := affinity
  allowedAffinity := allowedAffinity
  ticks := 0
  regs := regs
  faulted := false
  freed := false
  calls := 0
  answer := none

/-- The content of memory no thread was ever allocated in. -/
def unallocated : Thread := { new 0 0 0 (fun _ => 0) with state := .exited }

/-- `has_pending_wake`. -/
def hasPendingWake (t : Thread) : Bool := t.wakeOverride ≠ 0

/-- `publish_results`: the values are clamped to the slot's width. -/
def publishResults (t : Thread) (p : Published) : Thread :=
  { t with pending := some { p with vals := p.vals.take maxRets } }

/-- `reset_pending`. -/
def resetPending (t : Thread) : Thread := { t with pending := none }

/-- `note_wake`. -/
def noteWake (t : Thread) (reason : Nat) : Thread :=
  { t with wakeOverride := t.wakeOverride ||| reason }

/-- The swap of `wake_override` into `last_wake_reason` of a promotion. -/
def consumeWake (t : Thread) : Thread :=
  { t with wakeOverride := 0, lastWakeReason := t.wakeOverride }

def store (t : Thread) (st : ThreadState) : Thread := { t with state := st }

def writeRets (t : Thread) (vals : List Int) : Thread := { t with regs := marshal t.regs vals }

end Thread

/-- One Suspended park, as handed to the manager. -/
structure SleepNotice where
  wakeTime : UInt64
  sleepSeq : UInt64
  thread : Tid
  deriving DecidableEq

/-- Verdict on a heap entry. -/
inductive Verdict where
  | stale
  | transient
  | live

def classify (liveSeq : UInt64) (liveState : ThreadState) (entrySeq : UInt64) : Verdict :=
  if liveSeq ≠ entrySeq then .stale
  else match liveState with
    | .suspended => .live
    | .running | .assigned => .transient
    | .ready | .exited | .blocking => .stale

/-- Only a thread that is still Suspended is woken by the heap. -/
theorem classify_live {liveSeq entrySeq : UInt64} {st : ThreadState}
    (h : classify liveSeq st entrySeq = .live) : st = .suspended := by
  unfold classify at h
  split at h
  · cases h
  · cases st <;> simp_all

/-- Heap order: by deadline, ties by sequence number. -/
def SleepNotice.before (a b : SleepNotice) : Bool :=
  a.wakeTime < b.wakeTime || (a.wakeTime == b.wakeTime && a.sleepSeq < b.sleepSeq)

/-- `SleepHeap::push` on the list kept in heap order. -/
def heapPush (e : SleepNotice) : List SleepNotice → List SleepNotice
  | [] => [e]
  | x :: rest => if e.before x then e :: x :: rest else x :: heapPush e rest

/-- The heap keeps what it had and has the new entry. -/
theorem mem_heapPush {e n : SleepNotice} (heap : List SleepNotice) :
    n ∈ heapPush e heap ↔ n = e ∨ n ∈ heap := by
  induction heap with
  | nil => simp [heapPush]
  | cons x rest ih =>
    simp only [heapPush]
    split
    · simp
    · simp only [List.mem_cons, ih]
      exact or_left_comm

/-- `ReadyQueue::pop_for`: the oldest entry the hart may run, and the rest in order. -/
def popFor (fits : Tid → Bool) : List Tid → Option (Tid × List Tid)
  | [] => none
  | t :: rest =>
    if fits t then some (t, rest)
    else match popFor fits rest with
      | some (u, rest') => some (u, t :: rest')
      | none => none

/-- A pop takes one occurrence of its result out of the queue. -/
theorem popFor_count {fits : Tid → Bool} {q q' : List Tid} {t : Tid}
    (h : popFor fits q = some (t, q')) (u : Tid) :
    q.count u = q'.count u + if u = t then 1 else 0 := by
  induction q generalizing q' with
  | nil => simp [popFor] at h
  | cons x rest ih =>
    simp only [popFor] at h
    split at h
    · simp only [Option.some.injEq, Prod.mk.injEq] at h
      obtain ⟨rfl, rfl⟩ := h
      by_cases hu : u = x <;> simp [hu, eq_comm]
    cases hr : popFor fits rest with
    | none => simp [hr] at h
    | some r =>
      obtain ⟨u', rest'⟩ := r
      simp only [hr] at h
      cases h
      have := ih hr
      simp only [List.count_cons, this]
      omega

end Orbit.Sched
