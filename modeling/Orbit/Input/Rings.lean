import Orbit.Abi.Errno
import Orbit.Mem.Layout

/-!
The two input rings of a process: bytes for `read_stdin` and key events for
`read_key_event`. Each is a bounded queue with a slot for the thread that waits for it.
The operations here are the single atomic accesses of `push_byte`, `push_event`,
`try_drain`, `park`, `set_parker` and their inverses.
-/

namespace Orbit.Input

/-- The empty parked slot; no thread has this number. -/
def noParker : Nat := 0

/-- A ring and its parked slot. -/
structure ParkedRing (α : Type) where
  ring : List α
  parkedTid : Nat

namespace ParkedRing

variable {α : Type}

/-- `new`: empty, with nobody parked. -/
def new : ParkedRing α := ⟨[], noParker⟩

/-- `SpscQueue::enqueue` on a ring of `cap` places; a full ring refuses. -/
def enqueue (cap : Nat) (r : ParkedRing α) (x : α) : Option (ParkedRing α) :=
  if r.ring.length < cap then some { r with ring := r.ring ++ [x] } else none

/-- `SpscQueue::dequeue`. -/
def dequeue (r : ParkedRing α) : Option (α × ParkedRing α) :=
  match r.ring with
  | [] => none
  | x :: rest => some (x, { r with ring := rest })

/-- The swap of the slot with the empty value. -/
def unpark (r : ParkedRing α) : ParkedRing α := { r with parkedTid := noParker }

/-- The tid a swap has taken, if any. -/
def taken (r : ParkedRing α) : Option Nat :=
  if r.parkedTid = noParker then none else some r.parkedTid

/-- `park`: the compare-and-swap from the empty slot. -/
def park (r : ParkedRing α) (tid : Nat) : Option (ParkedRing α) :=
  if tid = noParker then none
  else if r.parkedTid = noParker then some { r with parkedTid := tid } else none

/-- `clear_parker_if`. -/
def clearParkerIf (r : ParkedRing α) (tid : Nat) : ParkedRing α :=
  if r.parkedTid = tid then { r with parkedTid := noParker } else r

variable {r r' : ParkedRing α} {x : α} {tid cap : Nat}

theorem enqueue_spec (h : r.enqueue cap x = some r') :
    r'.ring = r.ring ++ [x] ∧ r'.parkedTid = r.parkedTid := by
  unfold enqueue at h
  split at h
  · cases h
    exact ⟨rfl, rfl⟩
  · cases h

theorem dequeue_spec (h : r.dequeue = some (x, r')) :
    r.ring = x :: r'.ring ∧ r'.parkedTid = r.parkedTid := by
  unfold dequeue at h
  split at h
  · cases h
  next hring =>
  cases h
  exact ⟨hring, rfl⟩

theorem park_spec (h : r.park tid = some r') : r'.ring = r.ring ∧ r'.parkedTid = tid := by
  unfold park at h
  split at h
  · cases h
  split at h
  · cases h
    exact ⟨rfl, rfl⟩
  · cases h

/-- Parking fails only when somebody is parked. -/
theorem park_isSome (htid : 0 < tid) (hslot : r.parkedTid = noParker) : (r.park tid).isSome := by
  have hne : tid ≠ noParker := Nat.ne_of_gt htid
  rw [park, if_neg hne, if_pos hslot]
  rfl

end ParkedRing

/-- `stdin::RING_CAP` and `key_events::RING_CAP`. -/
def stdinRingCap : Nat := 4096
def keyRingCap : Nat := 256

structure KeyEvent where
  code : UInt32
  modifiers : UInt32
  kind : UInt32
  reserved : UInt32
  deriving DecidableEq

def keyEventSize : Nat := 16

inductive ParkOutcome where
  | installed
  | alreadyOwned
  | busy

/-- `set_parker`: the outcome and the ring afterwards. The load and the compare-and-swap
are one access here: only the calling thread stores its own number. -/
def setParker (r : ParkedRing KeyEvent) (tid : Nat) : ParkOutcome × ParkedRing KeyEvent :=
  if r.parkedTid = tid then (.alreadyOwned, r)
  else if r.parkedTid = noParker then (.installed, { r with parkedTid := tid })
  else (.busy, r)

end Orbit.Input
