import Orbit.Sched.Ledger
import Orbit.Transition.Run

/-!
The scheduler invariant: every thread's ledger is in order, and every hart and the
manager find the threads they name in the states their next access expects. Two
conditions on a step are used with it: `Settled`, that no earlier park of a thread
is unfinished when it issues a manager-resolved syscall, and `KillClear`, that a
kill does not land where a hart still relies on the state it loaded.
-/

namespace Orbit.Sched

open Transition

namespace HartPc

/-- The hart is inside `exit_thread_with_state` for `t`. -/
def inPark : HartPc → Tid → Bool
  | .parkSeq u _, t | .parkNull u _ _, t | .parkLoad u _ _, t | .parkStore u _ _, t
  | .mint u, t | .push u, t | .claim u, t | .claimed u _, t | .claimLoad u _, t
  | .claimStore u _, t => u = t
  | .sleepPush n, t => n.thread = t
  | _, _ => false

/-- A kill would land between a load of `t`'s state and an access that relies on it, or
on a park that goes on to make `t` runnable. -/
def exposed : HartPc → Tid → Bool
  | .dispatchStore u, t | .mint u, t | .claim u, t | .claimed u _, t | .claimLoad u _, t
  | .claimStore u _, t => u = t
  | .parkSeq u target, t | .parkNull u target _, t | .parkLoad u target _, t =>
    u = t && (target = .ready || target = .blocking)
  | .parkStore u target _, t => u = t && target ≠ .exited
  | _, _ => false

/-- The thread the hart is about to issue a manager-resolved syscall for. -/
def issues : HartPc → Trap → Option Tid
  | .running t, .call _ | .running t, .createThread .. => some t
  | _, _ => none

end HartPc

/-- The thread the manager is about to mark as exited. -/
def MgrPc.kills (registry : List Tid) : MgrPc → Option Tid
  | .kill _ _ (t :: _) => if t ∈ registry then some t else none
  | _ => none

namespace State

/-- No other hart is inside a park of `t`, and no sleep notice of `t` waits in the
inbox or is being looked at. -/
def settled (s : State) (h : Nat) (t : Tid) : Prop :=
  (∀ h', h' < s.nHarts → h' ≠ h → (s.harts h').pc.inPark t = false) ∧
    (∀ n ∈ s.sleepInbox, n.thread ≠ t) ∧ weigh s.mgr (·.note t) = 0

instance (s : State) (h : Nat) (t : Tid) : Decidable (s.settled h t) := by
  unfold settled
  infer_instance

/-- The thread a step issues a manager-resolved syscall for. -/
def issues (s : State) : Action → Option (Nat × Tid)
  | .hart h trap => ((s.harts h).pc.issues trap).map fun t => (h, t)
  | _ => none

/-- The thread a step marks as exited on behalf of an exit group. -/
def kills (s : State) : Action → Option Tid
  | .manager _ => s.mgr.bind fun m => m.pc.kills s.registry
  | _ => none

end State

/-- A manager-resolved syscall is issued only when every earlier park of the thread
is finished and its sleep notice consumed. -/
def Settled (s : State) (a : Action) : Prop :=
  ∀ h t, s.issues a = some (h, t) → s.settled h t

/-- A thread is killed only while no hart relies on a state it has loaded of it. -/
def KillClear (s : State) (a : Action) : Prop :=
  ∀ t, s.kills a = some t → ∀ h, h < s.nHarts → (s.harts h).pc.exposed t = false

/-- No exit group marks a thread. -/
def NoKill (s : State) (a : Action) : Prop := s.kills a = none

instance (s : State) (a : Action) : Decidable (Settled s a) :=
  match h : s.issues a with
  | none => isTrue fun _ _ h' => by rw [h] at h'; cases h'
  | some (i, t) =>
    if hset : s.settled i t then isTrue fun _ _ h' => by rw [h] at h'; cases h'; exact hset
    else isFalse fun hs => hset (hs i t h)

instance (s : State) (a : Action) : Decidable (KillClear s a) :=
  match h : s.kills a with
  | none => isTrue fun _ h' => by rw [h] at h'; cases h'
  | some t =>
    if hclear : ∀ h, h < s.nHarts → (s.harts h).pc.exposed t = false then
      isTrue fun _ h' => by rw [h] at h'; cases h'; exact hclear
    else isFalse fun hs => hclear (hs t h)

instance (s : State) (a : Action) : Decidable (NoKill s a) :=
  inferInstanceAs (Decidable (s.kills a = none))

theorem NoKill.clear {s : State} {a : Action} (h : NoKill s a) : KillClear s a := by
  intro t ht
  rw [NoKill] at h
  simp [h] at ht

/-- The panics of the scheduler's checked operations; the other two belong to the
reaper's bookkeeping. -/
def Site.checked : Site → Bool
  | .unregister | .removeProcess => false
  | _ => true

structure Inv (s : State) : Prop where
  ok : ∀ t, (s.ledger t).Ok
  harts : ∀ h, h < s.nHarts → ∀ t, (s.harts h).pc.allows t (s.threads t).state
  wf : ∀ h, h < s.nHarts → (s.harts h).pc.wf
  own : ∀ h, h < s.nHarts → ∀ t, (s.harts h).pc.owns t → (s.harts h).current = some t
  cur : ∀ h, h < s.nHarts → ∀ t, (s.harts h).current = some t →
    (s.harts h).pc.owns t ∨ (s.threads t).state = .assigned ∨ (s.threads t).state = .exited
  mgr : ∀ m, s.mgr = some m → m.hart < s.nHarts ∧ ∀ t, m.pc.allows t (s.threads t).state
  offers : ∀ m, s.mgr = some m → ∀ h ∈ m.pc.offers, h < s.nHarts
  slot : ∀ m h, s.mgr = some m → m.pc.target = some h →
    (s.harts h).current = none
  reg : ∀ t, (s.threads t).state ≠ .exited → t ∈ s.registry
  fault : ∀ site t st, s.fault = some (.panic site t st) → site.checked = false

end Orbit.Sched
