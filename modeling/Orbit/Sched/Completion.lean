import Orbit.Sched.Thread
import Orbit.Transition.Run

/-!
One completion handle, the thread that parks on it and any number of `signal_n` calls,
every atomic access a step of its own. The signaller that wins the handle publishes its
values and then claims the waiter slot; the parker fills the slot, looks at the handle
again and claims the slot itself if it is already signaled. Whoever gets the thread
pointer out of the slot runs `wake_blocked_inline`.
-/

namespace Orbit.Sched.Completion

open Transition Function Thread

/-- The handle's `state` byte. -/
inductive Slot where
  | pending
  | writing
  | signaled
  deriving DecidableEq

/-- The points of `wake_blocked_inline`. -/
inductive WakePc where
  | takeHandle
  | loadCount
  | loadRets (n : Nat) (got : List Int)
  | resume (got : List Int)
  | promoteLoad
  | promoteStore
  | push
  deriving DecidableEq, Repr

/-- The points of `signal_n`. -/
inductive SignalPc where
  | start
  | storeRet (i : Nat)
  | storeCount
  | publish
  | swap
  | wake (pc : WakePc)
  | done
  deriving DecidableEq, Repr

/-- The points of `exit_thread_with_state(Blocking)` from `transition_to` on. -/
inductive ParkPc where
  | load
  | store
  | setWaiter
  | recheck
  | take
  | wake (pc : WakePc)
  | done
  deriving DecidableEq, Repr

inductive Party where
  | signaller (i : Nat)
  | parker
  deriving DecidableEq

/-- The parking thread: its `handle` field, state word, saved frame and tokens. -/
structure Waiter where
  /-- the `handle` field is filled -/
  handle : Bool
  state : ThreadState
  regs : Nat → Int
  /-- the thread's tokens in the ready inboxes -/
  inbox : Nat
  /-- a checked edge of the state word failed -/
  panicked : Bool
  /-- how often the thread was made Ready -/
  promotions : Nat
  /-- a full inbox has refused the thread's token -/
  refused : Bool

structure State where
  slot : Slot
  retCount : Nat
  rets : Nat → Int
  /-- the waiter slot holds the thread's pointer -/
  waiter : Bool
  thread : Waiter
  signals : Nat → SignalPc
  parker : ParkPc
  /-- the call that won the handle -/
  first : Option Nat
  /-- who got the thread's pointer out of the waiter slot -/
  claims : List Party

/-- One step of `wake_blocked_inline` on a handle with these return values; the routine returns
with `none`. `room` says whether the ready inbox takes the token. -/
def wakeStep (retCount : Nat) (rets : Nat → Int) (room : Bool) (t : Waiter) :
    WakePc → Waiter × Option WakePc
  | .takeHandle => if t.handle then ({ t with handle := false }, some .loadCount) else (t, none)
  | .loadCount => (t, some (.loadRets (min retCount maxRets) []))
  | .loadRets n got =>
    if got.length < n then (t, some (.loadRets n (got ++ [rets got.length])))
    else (t, some (.resume got))
  | .resume got => ({ t with regs := marshal t.regs got }, some .promoteLoad)
  | .promoteLoad =>
    if t.state.parked then (t, some .promoteStore) else ({ t with panicked := true }, none)
  | .promoteStore => ({ t with state := .ready, promotions := t.promotions + 1 }, some .push)
  -- `push_ready_notice` logs a refused token and gives up
  | .push => (if room then { t with inbox := t.inbox + 1 } else { t with refused := true }, none)

@[simp] def State.setSignal (s : State) (i : Nat) (pc : SignalPc) : State :=
  { s with signals := update s.signals i pc }

@[simp] def State.setParker (s : State) (pc : ParkPc) : State := { s with parker := pc }

/-- One step of call `i` of `signal_n`, with the values `vals`. -/
def signalStep (vals : List Int) (s : State) (i : Nat) (room : Bool) : Option State :=
  match s.signals i with
  | .start =>
    if s.slot = .pending then
      some ({ s with slot := .writing, first := some i }.setSignal i (.storeRet 0))
    else some (s.setSignal i .done)
  | .storeRet k =>
    if k < min vals.length maxRets then
      some ({ s with rets := update s.rets k (vals.getD k 0) }.setSignal i
        (.storeRet (k + 1)))
    else some (s.setSignal i .storeCount)
  | .storeCount =>
    some ({ s with retCount := min vals.length maxRets }.setSignal i .publish)
  | .publish => some ({ s with slot := .signaled }.setSignal i .swap)
  | .swap =>
    if s.waiter then
      some ({ s with waiter := false, claims := s.claims ++ [Party.signaller i] }.setSignal i
        (.wake .takeHandle))
    else some (s.setSignal i .done)
  | .wake pc =>
    match wakeStep s.retCount s.rets room s.thread pc with
    | (t, some pc') => some ({ s with thread := t }.setSignal i (.wake pc'))
    | (t, none) => some ({ s with thread := t }.setSignal i .done)
  | .done => none

/-- What the parker's re-check reads. It still uses its reference to `thread.handle`; once a
signaller has taken the handle out, the read may give anything, `seen`. -/
def State.isSignaled (s : State) (seen : Bool) : Bool :=
  if s.thread.handle then decide (s.slot = .signaled) else seen

def parkStep (s : State) (room seen : Bool) : Option State :=
  match s.parker with
  | .load =>
    if s.thread.state = .exited then some (s.setParker .setWaiter)
    else if s.thread.state.transitionAllowed .blocking then some (s.setParker .store)
    else some ({ s with thread := { s.thread with panicked := true } }.setParker .done)
  | .store => some ({ s with thread := { s.thread with state := .blocking } }.setParker .setWaiter)
  | .setWaiter =>
    if s.thread.handle then some ({ s with waiter := true }.setParker .recheck)
    else some (s.setParker .done)
  | .recheck =>
    if s.isSignaled seen then some (s.setParker .take) else some (s.setParker .done)
  -- a handle that is gone has given its pointer to the signaller, so the swap finds none
  | .take =>
    if s.waiter then
      some ({ s with waiter := false, claims := s.claims ++ [Party.parker] }.setParker
        (.wake .takeHandle))
    else some (s.setParker .done)
  | .wake pc =>
    match wakeStep s.retCount s.rets room s.thread pc with
    | (t, some pc') => some ({ s with thread := t }.setParker (.wake pc'))
    | (t, none) => some ({ s with thread := t }.setParker .done)
  | .done => none

inductive Action where
  | signal (i : Nat) (room : Bool)
  | park (room seen : Bool)
  /-- some hart takes the thread's token and runs it -/
  | dispatch
  deriving DecidableEq, Repr

/-- One step of the party an action names; `vals i` are the values of call `i`. -/
def step (vals : Nat → List Int) (s : State) : Action → Option State
  | .signal i room => signalStep (vals i) s i room
  | .park room seen => parkStep s room seen
  | .dispatch =>
    if 0 < s.thread.inbox then
      some { s with thread := { s.thread with inbox := s.thread.inbox - 1, state := .running } }
    else none

/-- Nobody has begun to wake the thread. -/
structure Fresh (regs₀ : Nat → Int) (t : Waiter) : Prop where
  handle : t.handle = true
  regs : t.regs = regs₀
  inbox : t.inbox = 0
  panicked : t.panicked = false
  promotions : t.promotions = 0
  refused : t.refused = false

/-- A fresh handle in a running thread, with no call begun. -/
structure Initial (regs₀ : Nat → Int) (s : State) : Prop where
  slot : s.slot = .pending
  waiter : s.waiter = false
  thread : Fresh regs₀ s.thread
  state : s.thread.state = .running
  signals : ∀ i, s.signals i = .start
  parker : s.parker = .load
  first : s.first = none
  claims : s.claims = []

/-! How far the winner has got. -/

/-- The first `n` return slots hold the values of the signal. -/
def Stored (vals : List Int) (s : State) (n : Nat) : Prop :=
  n ≤ min vals.length maxRets ∧ ∀ k, k < n → s.rets k = vals.getD k 0

/-- The handle carries the whole signal. -/
def Coherent (vals : List Int) (s : State) : Prop :=
  s.slot = .signaled ∧ Stored vals s (min vals.length maxRets) ∧
    s.retCount = min vals.length maxRets

def Wrote (vals : List Int) (s : State) : SignalPc → Prop
  | .start => False
  | .storeRet k => s.slot = .writing ∧ Stored vals s k
  | .storeCount => s.slot = .writing ∧ Stored vals s (min vals.length maxRets)
  | .publish => s.slot = .writing ∧ Stored vals s (min vals.length maxRets) ∧
      s.retCount = min vals.length maxRets
  | .swap | .wake _ | .done => Coherent vals s

/-- A call that has not begun, or lost the handle to another. -/
@[simp] def SignalPc.resting (pc : SignalPc) : Prop := pc = .start ∨ pc = .done

structure Signals (vals : Nat → List Int) (s : State) : Prop where
  unsignaled : s.first = none → s.slot = .pending ∧ ∀ i, s.signals i = .start
  others : ∀ w, s.first = some w → ∀ i, i ≠ w → (s.signals i).resting
  winner : ∀ w, s.first = some w → Wrote (vals w) s (s.signals w)

/-! Where the right to wake the thread is. -/

/-- The thread is parked, its wake-up begun. -/
def Taken (regs₀ : Nat → Int) (t : Waiter) : Prop :=
  Fresh regs₀ { t with handle := true } ∧ t.state = .blocking

/-- How far the wake-up has got. -/
def Waking (regs₀ : Nat → Int) (vs : List Int) (t : Waiter) : WakePc → Prop
  | .takeHandle => Fresh regs₀ t ∧ t.state = .blocking
  | .loadCount => Taken regs₀ t
  | .loadRets n got => Taken regs₀ t ∧ n = min vs.length maxRets ∧ got.length ≤ n ∧
      got = vs.take got.length
  | .resume got => Taken regs₀ t ∧ got = vs.take maxRets
  | .promoteLoad | .promoteStore => Taken regs₀ { t with regs := regs₀ } ∧
      t.regs = marshal regs₀ (vs.take maxRets)
  | .push => t.inbox = 0 ∧ t.panicked = false ∧ t.state = .ready ∧ t.promotions = 1 ∧
      t.refused = false ∧ t.regs = marshal regs₀ (vs.take maxRets)

/-- The wake-up is over. -/
structure Woken (regs₀ : Nat → Int) (vs : List Int) (t : Waiter) : Prop where
  panicked : t.panicked = false
  promotions : t.promotions = 1
  placed : if t.refused then t.inbox = 0 ∧ t.state = .ready
    else t.inbox = 1 ∧ t.state = .ready ∨ t.inbox = 0 ∧ t.state = .running
  regs : t.regs = marshal regs₀ (vs.take maxRets)

/-- The parker has registered and does not hold the thread's pointer. -/
def ParkPc.registered : ParkPc → Bool
  | .recheck | .take | .done => true
  | _ => false

def ParkPc.threadState : ParkPc → ThreadState
  | .load | .store => .running
  | _ => .blocking

def ParkPc.early : ParkPc → Bool
  | .load | .store | .setWaiter => true
  | _ => false

@[simp] def SignalPc.waking : SignalPc → Bool
  | .wake _ => true
  | _ => false

inductive Place (regs₀ : Nat → Int) (vals : Nat → List Int) (s : State) : Prop where
  | unregistered (hp : s.parker.early = true) (hw : s.waiter = false)
      (hsig : ∀ i, (s.signals i).waking = false) (hclaims : s.claims = [])
      (fresh : Fresh regs₀ s.thread) (hstate : s.thread.state = s.parker.threadState)
  | registered (hp : s.parker.registered = true) (hw : s.waiter = true)
      (hsig : ∀ i, (s.signals i).waking = false) (hclaims : s.claims = [])
      (fresh : Fresh regs₀ s.thread) (hstate : s.thread.state = .blocking)
      (htake : s.parker = .take → s.slot = .signaled)
      (hleft : s.parker = .done → ∀ w, s.first = some w → s.signals w ≠ .done)
  | signaller (w : Nat) (pc : WakePc) (hfirst : s.first = some w)
      (hsig : s.signals w = .wake pc) (hp : s.parker.registered = true) (hw : s.waiter = false)
      (hclaims : s.claims = [.signaller w]) (waking : Waking regs₀ (vals w) s.thread pc)
  | parker (w : Nat) (pc : WakePc) (hfirst : s.first = some w)
      (hsig : s.signals w = .swap ∨ s.signals w = .done) (hp : s.parker = .wake pc)
      (hw : s.waiter = false) (hclaims : s.claims = [.parker])
      (waking : Waking regs₀ (vals w) s.thread pc)
  | woken (w : Nat) (hfirst : s.first = some w)
      (hsig : s.signals w = .swap ∨ s.signals w = .done) (hp : s.parker.registered = true)
      (hw : s.waiter = false) (hclaims : s.claims.length = 1)
        (woken : Woken regs₀ (vals w) s.thread)

structure Inv (regs₀ : Nat → Int) (vals : Nat → List Int) (s : State) : Prop where
  sent : Signals vals s
  place : Place regs₀ vals s

variable {regs₀ : Nat → Int} {vals : Nat → List Int} {s s' : State} {i w : Nat}

/-- Where a wake-up stands after a step: it goes on, or the thread has been woken. -/
def Outcome (regs₀ : Nat → Int) (vs : List Int) (t : Waiter) : Option WakePc → Prop
  | some pc => Waking regs₀ vs t pc
  | none => Woken regs₀ vs t

/-- One step of a wake-up on a coherent handle. -/
theorem Waking.step {vs : List Int} {t : Waiter} {pc : WakePc} (waking : Waking regs₀ vs t pc)
    (coh : Coherent vs s) (room : Bool) :
    Outcome regs₀ vs (wakeStep s.retCount s.rets room t pc).1
      (wakeStep s.retCount s.rets room t pc).2 := by
  obtain ⟨_, ⟨_, hrets⟩, hcount⟩ := coh
  cases pc with
  | takeHandle =>
    obtain ⟨fresh, hstate⟩ := waking
    simp only [wakeStep, fresh.handle, if_true]
    exact ⟨{ fresh with handle := rfl }, hstate⟩
  | loadCount =>
    refine ⟨waking, ?_⟩
    rw [hcount]
    simp
  | loadRets n got =>
    obtain ⟨taken, rfl, hle, hgot⟩ := waking
    by_cases hlt : got.length < min vs.length maxRets
    · simp only [wakeStep, if_pos hlt]
      refine ⟨taken, rfl, ?_, ?_⟩
      · rw [List.length_append]
        exact hlt
      have hlen : got.length < vs.length := Nat.lt_of_lt_of_le hlt (Nat.min_le_left _ _)
      rw [hrets _ hlt, List.length_append, List.length_singleton,
        List.take_succ_eq_append_getElem hlen, ← hgot]
      simp [hlen]
    simp only [wakeStep, if_neg hlt]
    have hlen : got.length = min vs.length maxRets :=
      Nat.le_antisymm hle (Nat.not_lt.mp hlt)
    refine ⟨taken, ?_⟩
    rw [hgot, hlen, Nat.min_comm, ← List.take_take, List.take_length]
  | resume got =>
    obtain ⟨⟨fresh, hstate⟩, rfl⟩ := waking
    have hregs : t.regs = regs₀ := fresh.regs
    refine ⟨⟨{ fresh with handle := rfl, regs := rfl }, hstate⟩, ?_⟩
    simp only [wakeStep, hregs]
  | promoteLoad =>
    have hstate : t.state = .blocking := waking.1.2
    simp only [wakeStep, hstate, ThreadState.parked, if_true]
    exact waking
  | promoteStore =>
    obtain ⟨⟨fresh, hstate⟩, hregs⟩ := waking
    have hpromo : t.promotions = 0 := fresh.promotions
    refine ⟨fresh.inbox, fresh.panicked, rfl, ?_, fresh.refused, hregs⟩
    simp only [wakeStep, hpromo]
  | push =>
    obtain ⟨hinbox, hcalm, hstate, hpromo, hkept, hregs⟩ := waking
    cases room with
    | false => exact ⟨hcalm, hpromo, ⟨hinbox, hstate⟩, hregs⟩
    | true =>
      refine ⟨hcalm, hpromo, ?_, hregs⟩
      simp only [wakeStep, if_true, hkept, hinbox, hstate, Bool.false_eq_true, if_false]
      exact .inl ⟨trivial, trivial⟩

/-- A thread that is being woken has no token yet. -/
theorem Waking.inbox {vs : List Int} {t : Waiter} {pc : WakePc} (waking : Waking regs₀ vs t pc) :
    t.inbox = 0 := by
  cases pc with
  | takeHandle => exact waking.1.inbox
  | loadCount => exact waking.1.inbox
  | loadRets _ _ => exact waking.1.1.inbox
  | resume _ => exact waking.1.1.inbox
  | promoteLoad => exact waking.1.1.inbox
  | promoteStore => exact waking.1.1.inbox
  | push => exact waking.1

/-! The signals. -/

theorem Wrote.congr {vs : List Int} {pc : SignalPc} (wrote : Wrote vs s pc)
    (hslot : s'.slot = s.slot) (hcount : s'.retCount = s.retCount) (hrets : s'.rets = s.rets) :
    Wrote vs s' pc := by
  cases pc <;> simp_all [Wrote, Stored, Coherent]

namespace Signals

variable (sent : Signals vals s)

include sent

/-- A call that is under way has won the handle. -/
theorem first_of_busy (hbusy : ¬ (s.signals i).resting) :
    s.first = some i := by
  cases hf : s.first with
  | none =>
    have := (sent.unsignaled hf).2 i
    exact absurd (.inl this) hbusy
  | some w =>
    by_contra hne
    exact hbusy (sent.others w hf i (by rintro rfl; exact hne rfl))

/-- Once the handle is taken, a call has won it, and it is not at its start. -/
theorem taken (hslot : s.slot ≠ .pending) :
    ∃ w, s.first = some w ∧ Wrote (vals w) s (s.signals w) := by
  cases hf : s.first with
  | none => exact absurd (sent.unsignaled hf).1 hslot
  | some w => exact ⟨w, rfl, sent.winner w hf⟩

theorem pending (hslot : s.slot = .pending) : s.first = none := by
  cases hf : s.first with
  | none => rfl
  | some w =>
    have hw := sent.winner w hf
    cases hpc : s.signals w <;> simp [Wrote, Coherent, hpc, hslot] at hw

/-- Only the handle's own fields and the calls' points matter. -/
theorem congr (hslot : s'.slot = s.slot) (hcount : s'.retCount = s.retCount)
    (hrets : s'.rets = s.rets) (hsig : s'.signals = s.signals) (hfirst : s'.first = s.first) :
    Signals vals s' := by
  constructor
  · rw [hfirst, hslot, hsig]
    exact sent.unsignaled
  · rw [hfirst, hsig]
    exact sent.others
  intro w hw
  rw [hfirst] at hw
  rw [hsig]
  exact (sent.winner w hw).congr hslot hcount hrets

/-- The winner goes on. -/
theorem advance (hfirst : s.first = some i) {pc : SignalPc}
    (hf : s'.first = s.first) (hsig : s'.signals = update s.signals i pc)
    (wrote : Wrote (vals i) s' pc) : Signals vals s' := by
  constructor
  · intro hnone
    rw [hf, hfirst] at hnone
    cases hnone
  · intro w hw j hj
    obtain rfl : i = w := Option.some.inj (hfirst.symm.trans (hf ▸ hw))
    rw [hsig, update_of_ne hj]
    exact sent.others i hfirst j hj
  intro w hw
  obtain rfl : i = w := Option.some.inj (hfirst.symm.trans (hf ▸ hw))
  rw [hsig, update_self]
  exact wrote

end Signals

end Orbit.Sched.Completion
