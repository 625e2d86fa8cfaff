import Mathlib.Data.Finset.Card
import Orbit.Transition.Run

/-!
TLB shootdown. A sender puts a request into the ring of every other hart and spins on a
counter; a hart that drains its ring takes a request out, fences, and counts down. Every
one of these is a step of its own, and a hart may drain while it is itself sending. At boot
hart 0 releases the others one by one and sets a flag after that; a broadcast that finds
the flag clear tells nobody. `sender`, `began` and `Returned` are ghost: who sent a request,
how many fences had been executed on all harts by then, and what was asked for.
-/

namespace Orbit.Smp

open Function

inductive FlushScope where
  | all
  | asid (asid : Nat)
  deriving DecidableEq, Repr

/-- The translations a broadcast is to make the other harts forget, by address space and page:
all of them, those of an address space, or for an address other than 0 that of its page. -/
def FlushScope.Asks (va : Nat) (asid page : Nat) : FlushScope → Prop
  | .all => True
  | .asid a => asid = a ∧ (va = 0 ∨ page = va / 4096)

/-- What a receiver executes: `sfence.vma` over everything, an address space or a page. -/
inductive Fence where
  | all
  | asid (asid : Nat)
  | page (asid va : Nat)
  deriving DecidableEq

/-- The translations that the instruction drops. -/
def Fence.Drops (asid page : Nat) : Fence → Prop
  | .all => True
  | .asid a => asid = a
  | .page a va => asid = a ∧ page = va / 4096

structure Req where
  scope : FlushScope
  va : Nat
  len : Nat
  /-- the counter a clone of which travels with the request -/
  ack : Nat
  sender : Nat
  deriving DecidableEq

/-- The closure that `drain_local` passes to `drain_shootdown_ring`. -/
def Req.fence (r : Req) : Fence :=
  match r.scope with
  | .all => .all
  | .asid asid => if r.va = 0 then .asid asid else .page asid r.va

def shootdownRingCap : Nat := 16
def maxHarts : Nat := 8

/-- A broadcast under way: the next hart of its loop and the pushes that failed. -/
structure Broadcast where
  req : Req
  target : Nat
  failed : Nat
  began : Nat

/-- A broadcast that has returned: what it was called with, whether it found the flag set, and
the harts that were there by then. -/
structure Returned where
  hart : Nat
  scope : FlushScope
  va : Nat
  began : Nat
  kicked : Bool
  online : List Nat
  deriving DecidableEq

structure System where
  /-- `SECONDARY_GO` -/
  released : Nat → Bool
  secondariesKicked : Bool
  rings : Nat → List Req
  counters : Nat → Nat
  nextCounter : Nat
  sending : Nat → Option Broadcast
  /-- the entry a hart has taken out of its ring, and whether it has fenced for it -/
  servicing : Nat → Option (Req × Bool)
  /-- the fences executed so far, oldest first -/
  fences : List (Nat × Fence)
  returned : List Returned

inductive Action where
  | release (hart : Nat)
  /-- `mark_secondaries_kicked`, which follows the release of all harts -/
  | kick
  | broadcast (hart : Nat) (scope : FlushScope) (va len : Nat)
  | push (hart : Nat)
  | finish (hart : Nat)
  | pop (hart : Nat)
  | fence (hart : Nat)
  | ack (hart : Nat)
  deriving DecidableEq, Repr

namespace System

def init : System :=
  ⟨fun _ => false, false, fun _ => [], fun _ => 0, 0, fun _ => none, fun _ => none, [], []⟩

/-- A secondary hart is there once it has been released. -/
def Online (cpuCount : Nat) (s : System) (hart : Nat) : Prop :=
  hart < cpuCount ∧ (hart = 0 ∨ s.released hart = true)

instance (cpuCount : Nat) (s : System) (hart : Nat) : Decidable (s.Online cpuCount hart) :=
  inferInstanceAs (Decidable (_ ∧ _))

def online (cpuCount : Nat) (s : System) : List Nat :=
  (List.range cpuCount).filter (s.Online cpuCount)

/-- `AckCounter::decrement`, which stops at zero. -/
def decrement (s : System) (ack : Nat) : System :=
  { s with counters := update s.counters ack (s.counters ack - 1) }

/-- `broadcast_scope` up to its loop; it returns at once on one hart or with the flag clear. -/
def broadcastScope (s : System) (cpuCount hart : Nat) (scope : FlushScope) (va len : Nat) :
    System :=
  let req : Req := ⟨scope, va, len, s.nextCounter, hart⟩
  if cpuCount ≤ 1 ∨ s.secondariesKicked = false then
    { s with returned := ⟨hart, scope, va, s.fences.length, s.secondariesKicked,
        s.online cpuCount⟩ :: s.returned }
  else
    { s with
      counters := update s.counters s.nextCounter (cpuCount - 1)
      nextCounter := s.nextCounter + 1
      sending := update s.sending hart (some ⟨req, 0, 0, s.fences.length⟩) }

/-- One round of the loop over the harts. -/
def pushNext (s : System) (hart : Nat) (b : Broadcast) : System :=
  let next := { b with target := b.target + 1 }
  if b.target = hart then { s with sending := update s.sending hart (some next) }
  else if (s.rings b.target).length < shootdownRingCap then
    { s with
      rings := update s.rings b.target (s.rings b.target ++ [b.req])
      sending := update s.sending hart (some next) }
  else
    { s.decrement b.req.ack with
      sending := update s.sending hart (some { next with failed := b.failed + 1 }) }

def step (cpuCount : Nat) (s : System) : Action → Option System
  | .release hart => some { s with released := update s.released hart true }
  | .kick =>
    if ∀ hart < cpuCount, s.Online cpuCount hart then some { s with secondariesKicked := true }
    else none
  | .broadcast hart scope va len =>
    -- a hart waits for one broadcast before it begins another
    if s.Online cpuCount hart ∧ s.sending hart = none then
      some (s.broadcastScope cpuCount hart scope va len)
    else none
  | .push hart =>
    match s.sending hart with
    | some b => if b.target < cpuCount then some (s.pushNext hart b) else none
    | none => none
  | .finish hart =>
    match s.sending hart with
    | some b =>
      if b.target = cpuCount ∧ s.counters b.req.ack = 0 then
        some { s with
          sending := update s.sending hart none
          returned := ⟨hart, b.req.scope, b.req.va, b.began, true, s.online cpuCount⟩ ::
            s.returned }
      else none
    | none => none
  | .pop hart =>
    if s.Online cpuCount hart ∧ s.servicing hart = none then
      match s.rings hart with
      | [] => none
      | r :: rest => some { s with
          rings := update s.rings hart rest
          servicing := update s.servicing hart (some (r, false)) }
    else none
  | .fence hart =>
    match s.servicing hart with
    | some (r, false) => some { s with
        servicing := update s.servicing hart (some (r, true))
        fences := s.fences ++ [(hart, r.fence)] }
    | _ => none
  | .ack hart =>
    match s.servicing hart with
    | some (r, true) =>
      some { s.decrement r.ack with servicing := update s.servicing hart none }
    | _ => none

/-- The requests of a hart that it has not counted down for, in the ring or in hand. -/
def held (s : System) (j : Nat) : List Req :=
  ((s.servicing j).map Prod.fst).toList ++ s.rings j

/-- A hart has fenced since a moment. -/
def Fenced (s : System) (began j : Nat) (f : Fence) : Prop :=
  ∃ i, began ≤ i ∧ s.fences[i]? = some (j, f)

/-- Since a moment a hart has dropped every translation asked for. -/
def Flushed (s : System) (began j : Nat) (scope : FlushScope) (va : Nat) : Prop :=
  ∃ f, s.Fenced began j f ∧ ∀ asid page, scope.Asks va asid page → f.Drops asid page

/-- The harts a broadcast waits for: those still to be told and those that hold its
request. -/
def Awaited (s : System) (h : Nat) (b : Broadcast) (j : Nat) : Prop :=
  j ≠ h ∧ (b.target ≤ j ∨ b.req ∈ s.held j)

instance (s : System) (h : Nat) (b : Broadcast) : DecidablePred (s.Awaited h b) :=
  fun j => inferInstanceAs (Decidable (j ≠ h ∧ (b.target ≤ j ∨ b.req ∈ s.held j)))

def awaited (s : System) (cpuCount h : Nat) (b : Broadcast) : Finset Nat :=
  (Finset.range cpuCount).filter (s.Awaited h b)

end System

end Orbit.Smp
