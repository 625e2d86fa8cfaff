import Orbit.Transition.Census
import Orbit.Sched.Manager

/-!
The account of one thread. A thread that may be dispatched is represented by one
token, which sits in the ready queue, in a ready inbox, in a hart's `current` or in
the hands of a hart or the manager. A manager-resolved syscall is represented by
one right to resume its caller, which moves from the request to the completion slot
to whoever takes the slot. The ledger counts both over the whole kernel state,
together with the harts that are still inside a park of the thread and the sleep
notices that name it.
-/

namespace Orbit.Sched

open Transition

/-- The weight of `u` in an account of `t`. -/
def one (u t : Tid) : Nat := if u = t then 1 else 0

@[simp] theorem one_self (t : Tid) : one t t = 1 := if_pos rfl

theorem one_of_ne {u t : Tid} (h : u ≠ t) : one u t = 0 := if_neg h

theorem one_le_of {u t : Tid} {k : Nat} (h : u = t → 1 ≤ k) : one u t ≤ k := by
  unfold one
  split
  · next hu => exact h hu
  · exact Nat.zero_le k

/-- The number the source gives a state. -/
@[simp] def ThreadState.code : ThreadState → Nat
  | .ready => 0
  | .blocking => 1
  | .assigned => 2
  | .running => 3
  | .exited => 4
  | .suspended => 5

theorem ThreadState.code_inj {a b : ThreadState} (h : a.code = b.code) : a = b := by
  cases a <;> cases b <;> first | rfl | (simp [code] at h)

namespace HartPc

/-- The hart executes `t`. -/
@[simp] def run : HartPc → Tid → Nat
  | .running u, t => one u t
  | _, _ => 0

/-- The hart parks `t` for a manager-resolved syscall and has not stored the state. -/
@[simp] def blk : HartPc → Tid → Nat
  | .commit u target _ _, t | .parkSeq u target, t | .parkNull u target _, t
  | .parkLoad u target _, t | .parkStore u target _, t => if target = .blocking then one u t else 0
  | _, _ => 0

/-- The hart holds `t`'s token outside `current`. -/
@[simp] def held : HartPc → Tid → Nat
  | .parkLoad u _ _, t | .parkStore u _ _, t | .mint u, t | .push u, t => one u t
  | _, _ => 0

/-- The hart is in the post-park claim of `t`'s results. -/
@[simp] def claiming : HartPc → Tid → Nat
  | .claim u, t | .claimed u _, t | .claimLoad u _, t | .claimStore u _, t => one u t
  | _, _ => 0

/-- The hart is inside any other park of `t`. -/
@[simp] def stray : HartPc → Tid → Nat
  | .parkSeq u target, t | .parkNull u target _, t | .parkLoad u target _, t
  | .parkStore u target _, t => if target = .blocking then 0 else one u t
  | .sleepPush n, t => one n.thread t
  | .mint u, t | .push u, t => one u t
  | _, _ => 0

/-- The hart has taken the results of `t`'s syscall. -/
@[simp] def res : HartPc → Tid → Nat
  | .claimed u _, t | .claimLoad u _, t | .claimStore u _, t => one u t
  | _, _ => 0

/-- The points at which `t` is still the hart's `current`. -/
@[simp] def owns : HartPc → Tid → Prop
  | .dispatch u, t | .dispatchStore u, t | .dispatchCheck u, t | .running u, t
  | .commit u _ _ _, t | .switch u, t | .parkSeq u _, t | .parkNull u _ _, t => u = t
  | _, _ => False

/-- The states a hart at this point may find `t` in. A kill may reach a thread that is
being dispatched, runs, sleeps or exits, but not one that is about to become Ready or
Blocking. -/
@[simp] def allows : HartPc → Tid → ThreadState → Prop
  | .dispatch u, t, st => u = t → st = .assigned ∨ st = .exited
  | .dispatchStore u, t, st => u = t → st = .assigned
  | .dispatchCheck u, t, st | .running u, t, st | .commit u _ _ _, t, st | .switch u, t, st =>
    u = t → st = .running ∨ st = .exited
  | .parkSeq u target, t, st | .parkNull u target _, t, st | .parkLoad u target _, t, st =>
    u = t → st = .running ∨ st = .exited ∧ target ≠ .ready ∧ target ≠ .blocking
  | .parkStore u target _, t, st => u = t → st = .running ∨ st = .exited ∧ target = .exited
  | .mint u, t, st => u = t → st = .ready
  | .push u, t, st => u = t → st = .ready ∨ st = .exited
  | .claimed u _, t, st | .claimLoad u _, t, st | .claimStore u _, t, st => u = t → st = .blocking
  | .idle, _, _ | .sleepPush _, _, _ | .claim _, _, _ => True

/-- A park leads to a state a running thread may take, and makes a sleep notice
exactly when that state is Suspended. -/
@[simp] def wf : HartPc → Prop
  | .commit _ target _ _ | .parkSeq _ target => ThreadState.running.transitionAllowed target
  | .parkNull t target notice | .parkLoad t target notice | .parkStore t target notice =>
    ThreadState.running.transitionAllowed target ∧
      (target = .suspended ↔ notice.isSome) ∧ ∀ n, notice = some n → n.thread = t
  | _ => True

end HartPc

namespace Hart

def tok (hart : Hart) (t : Tid) : Nat :=
  hart.inbox.count t + (if hart.current = some t then 1 else 0) + hart.pc.held t

end Hart

namespace MgrPc

@[simp] def tok : MgrPc → Tid → Nat
  | .resumePush u, t | .pushReady u _, t | .assignLoad u _ _, t | .assignStore u _ _, t
  | .assignPublish u _ _, t => one u t
  | _, _ => 0

@[simp] def res : MgrPc → Tid → Nat
  | .resume u _, t | .resumeWrite u _, t | .resumeReset u _, t | .resumeLoad u _, t
  | .resumeStore u _, t | .publish u _, t | .marshal u _ _, t => one u t
  | .swapWake u rets _, t | .promoteLoad u rets _, t | .promoteStore u rets _, t =>
    if rets.isSome then one u t else 0
  | _, _ => 0

@[simp] def note : MgrPc → Tid → Nat
  | .sleepCheck n, t => one n.thread t
  | .claim u _ a, t => if a = .sleeps then one u t else 0
  | _, _ => 0

/-- The states the manager at this point may find `t` in. -/
@[simp] def allows : MgrPc → Tid → ThreadState → Prop
  | .cleanup _ tids _, t, st | .reapThreads tids _, t, st => t ∈ tids → st = .exited
  | .claimExited u _ tids _, t, st => u = t ∨ t ∈ tids → st = .exited
  | .resumeWrite u _, t, st | .resumeReset u _, t, st | .resumeLoad u _, t, st
  | .resumeStore u _, t, st | .marshal u _ _, t, st => u = t → st = .blocking
  | .resumePush u, t, st | .pushReady u _, t, st | .assignStore u _ _, t, st => u = t → st = .ready
  | .scanRets u seen _, t, st => u = t → seen = .suspended → st = .suspended
  | .scanNote u seen signaled _, t, st =>
    u = t → seen = .suspended → st = .suspended ∧ signaled = false
  | .claim u mode a, t, st =>
    u = t → a ≠ .sleeps → mode = .promoteWake → st = .suspended
  | .take u _, t, st => u = t → st.parked ∨ st = .ready
  | .swapWake u rets _, t, st | .promoteLoad u rets _, t, st | .promoteStore u rets _, t, st =>
    u = t → st = if rets.isSome then .blocking else .suspended
  | .assignLoad u _ _, t, st => u = t → st = .ready ∨ st = .exited
  | .assignPublish u _ _, t, st => u = t → st = .assigned
  | _, _, _ => True

/-- The hart an assignment is under way for. -/
@[simp] def target : MgrPc → Option Nat
  | .assignPop h _ | .assignLoad _ h _ | .assignStore _ h _ | .assignPublish _ h _ => some h
  | _ => none

/-- The harts an assignment loop still has to visit. -/
@[simp] def offers : MgrPc → List Nat
  | .assign hs => hs
  | .assignPop h hs | .assignLoad _ h hs | .assignStore _ h hs | .assignPublish _ h hs => h :: hs
  | _ => []

end MgrPc

def Work.isCall (t : Tid) : Work → Bool
  | .call u _ | .createThread u .. => u = t
  | .exitGroup .. => false

def weigh (m : Option Mgr) (f : MgrPc → Nat) : Nat := (m.map fun m => f m.pc).getD 0

@[simp] theorem weigh_some (m : Mgr) (f : MgrPc → Nat) : weigh (some m) f = f m.pc := rfl

@[simp] theorem weigh_none (f : MgrPc → Nat) : weigh none f = 0 := rfl

namespace State

def perHart (s : State) (f : Hart → Nat) : Nat := census s.nHarts f s.harts

def tok (s : State) (t : Tid) : Nat :=
  s.ready.count t + weigh s.mgr (·.tok t) + s.perHart (·.tok t)

/-- How often `t` is queued for an assignment. -/
def queued (s : State) (t : Tid) : Nat := s.ready.count t + s.perHart (·.inbox.count t)

def run (s : State) (t : Tid) : Nat := s.perHart (·.pc.run t)

def blk (s : State) (t : Tid) : Nat := s.perHart (·.pc.blk t)

def claiming (s : State) (t : Tid) : Nat := s.perHart (·.pc.claiming t)

def stray (s : State) (t : Tid) : Nat := s.perHart (·.pc.stray t)

/-- The right to resume `t`: its request, its filled slot, or a taker of the slot. -/
def res (s : State) (t : Tid) : Nat :=
  s.work.countP (Work.isCall t) + s.waiters.countP (fun w => w.1 = t) +
    (if (s.threads t).pending.isSome then 1 else 0) + weigh s.mgr (·.res t) +
    s.perHart (·.pc.res t)

def note (s : State) (t : Tid) : Nat :=
  s.sleepInbox.countP (fun n => n.thread = t) + weigh s.mgr (·.note t)

end State

/-- The account of one thread. -/
structure Ledger where
  st : Nat
  tok : Nat
  queued : Nat
  run : Nat
  blk : Nat
  claiming : Nat
  stray : Nat
  res : Nat
  note : Nat
  alloc : Nat

/-- What the account of a thread satisfies between any two steps. States are given
by their numbers: 1 is Blocking, 2 Assigned, 3 Running, 4 Exited, 5 Suspended. -/
structure Ledger.Ok (l : Ledger) : Prop where
  token : l.tok ≤ 1
  parked : l.st = 1 ∨ l.st = 5 → l.tok = 0
  onHart : l.st = 2 ∨ l.st = 3 → 1 ≤ l.tok
  waiting : 0 < l.queued → l.st = 0 ∨ l.st = 4
  right : l.res ≤ 1
  runs : 0 < l.run → l.res = 0
  /-- a live thread with a pending answer is parked for it or on its way there -/
  waits : 0 < l.res → l.st ≠ 4 → l.tok ≤ l.blk ∧ (l.st = 1 ∨ l.st = 3)
  /-- nothing of an earlier park is left while a syscall is answered -/
  settled : (0 < l.res ∧ l.st ≠ 4) ∨ l.st = 1 → l.note = 0 ∧ l.stray = 0 ∧ l.blk + l.claiming ≤ 1
  dead : l.st = 4 → 0 < l.res → l.claiming = 0
  pending : l.st ≠ 4 → l.blk ≤ l.res
  fresh : l.alloc = 0 → l.st = 4 ∧ l.tok = 0 ∧ l.run = 0 ∧ l.blk = 0 ∧ l.claiming = 0 ∧
    l.stray = 0 ∧ l.res = 0 ∧ l.note = 0

def State.ledger (s : State) (t : Tid) : Ledger where
  st := (s.threads t).state.code
  tok := s.tok t
  queued := s.queued t
  run := s.run t
  blk := s.blk t
  claiming := s.claiming t
  stray := s.stray t
  res := s.res t
  note := s.note t
  alloc := if t < s.nextTid then 1 else 0

/-- The order of a ledger as one statement of linear arithmetic. -/
theorem State.ok_iff (s : State) (t : Tid) : (s.ledger t).Ok ↔ s.tok t ≤ 1 ∧
    ((s.threads t).state.code = 1 ∨ (s.threads t).state.code = 5 → s.tok t = 0) ∧
    ((s.threads t).state.code = 2 ∨ (s.threads t).state.code = 3 → 1 ≤ s.tok t) ∧
    (0 < s.queued t → (s.threads t).state.code = 0 ∨ (s.threads t).state.code = 4) ∧
    s.res t ≤ 1 ∧
    (0 < s.run t → s.res t = 0) ∧
    (0 < s.res t → (s.threads t).state.code ≠ 4 → s.tok t ≤ s.blk t ∧
      ((s.threads t).state.code = 1 ∨ (s.threads t).state.code = 3)) ∧
    ((0 < s.res t ∧ (s.threads t).state.code ≠ 4) ∨ (s.threads t).state.code = 1 →
      s.note t = 0 ∧ s.stray t = 0 ∧ s.blk t + s.claiming t ≤ 1) ∧
    ((s.threads t).state.code = 4 → 0 < s.res t → s.claiming t = 0) ∧
    ((s.threads t).state.code ≠ 4 → s.blk t ≤ s.res t) ∧
    ((s.ledger t).alloc = 0 → (s.threads t).state.code = 4 ∧ s.tok t = 0 ∧ s.run t = 0 ∧
      s.blk t = 0 ∧ s.claiming t = 0 ∧ s.stray t = 0 ∧ s.res t = 0 ∧ s.note t = 0) :=
  ⟨fun h => ⟨h.token, h.parked, h.onHart, h.waiting, h.right, h.runs, h.waits, h.settled, h.dead,
      h.pending, h.fresh⟩,
    fun ⟨h1, h2, h3, h4, h5, h6, h7, h8, h9, h10, h11⟩ =>
      ⟨h1, h2, h3, h4, h5, h6, h7, h8, h9, h10, h11⟩⟩

/-- A step that moves what a thread has from one place to another, or takes it out of a queue,
drops a notice of it, turns a hart's business with it into a notice or gives up a claim, keeps
its account in order. -/
theorem State.ok_of_counts {s s' : State} {t : Tid} (h : (s.ledger t).Ok)
    (hstate : (s'.threads t).state = (s.threads t).state)
    (hcounts : s'.tok t = s.tok t ∧ s'.queued t ≤ s.queued t ∧ s'.run t = s.run t ∧
      s'.blk t = s.blk t ∧ s'.claiming t ≤ s.claiming t ∧ s'.res t = s.res t ∧
      s'.note t + s'.stray t ≤ s.note t + s.stray t ∧
      (s'.ledger t).alloc = (s.ledger t).alloc) :
    (s'.ledger t).Ok := by
  obtain ⟨htok, hqueued, hrun, hblk, hclaiming, hres, hnote, halloc⟩ := hcounts
  rw [s.ok_iff] at h
  obtain ⟨htoken, hparked, honHart, hwaiting, hright, hruns, hwaits, hsettled, hdead, hpending,
    hfresh⟩ := h
  rw [s'.ok_iff, hstate, htok, hrun, hblk, hres, halloc]
  refine ⟨htoken, hparked, honHart, fun hpos => hwaiting (by omega), hright, hruns, hwaits, ?_, ?_,
    hpending, ?_⟩
  · intro hidle
    obtain ⟨hnone, hstray, hone⟩ := hsettled hidle
    exact ⟨by omega, by omega, by omega⟩
  · intro hst hpos
    have := hdead hst hpos
    omega
  intro hnew
  obtain ⟨hst, h1, h2, h3, h4, h5, h6, hnone⟩ := hfresh hnew
  exact ⟨hst, h1, h2, h3, by omega, by omega, h6, by omega⟩

end Orbit.Sched
