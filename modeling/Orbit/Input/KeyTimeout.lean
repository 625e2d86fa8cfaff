import Orbit.Input.SpuriousWakes

/-!
The timeouts of `read_key_event`. When the call is executed again and finds its own
number in the slot of the event ring, it takes this for the end of its timeout and
returns no events. This is right when only the timer makes the reader Ready while its
number is in the slot, and when no call leaves its number behind for the next one.
-/

namespace Orbit.Input

open Transition Orbit.Abi

variable {args : KeyArgs}

variable {c : Setup} {s s' : System} {a : System.Action}

/-- The call that is being executed and has not parked. -/
@[simp] def Pc.tries : Pc → Option KeyArgs
  | .enter (.keys args) | .drainEvents args false _ | .setParker args => some args
  | _ => none

namespace System

/-- The reader waits for events. -/
def awaitsEvents (s : System) : Bool :=
  match s.pc with
  | .parked (.keys _) => true
  | _ => false

/-- The reader waits for events with a timeout. -/
def awaitsDeadline (s : System) : Bool :=
  match s.pc with
  | .parked (.keys args) => args.timeoutMs ≠ readKeyEventIndefinite
  | _ => false

/-- The deadline the next access computes does not wrap around. -/
def deadlineFits (c : Setup) (s : System) : Bool :=
  match s.pc with
  | .drainEvents args true [] =>
    args.timeoutMs = readKeyEventIndefinite || s.clock + args.timeoutMs * c.ticksPerMs < 2 ^ 64
  | _ => true

def Action.isTimer : Action → Bool
  | .timer => true
  | _ => false

def Action.isKeyCall : Action → Bool
  | .call (.keys _) => true
  | _ => false

end System

/-- While its number is in the slot, a reader that waits for events is made Ready only by
its deadline; no call for events begins with the number still in the slot; no deadline wraps
around. -/
def HonestSlot (c : Setup) (s : System) (a : System.Action) : Prop :=
  (s.promotes c a = true → s.awaitsEvents = true → s.events.parkedTid = c.tid →
    a.isTimer = true ∧ s.awaitsDeadline = true) ∧
  (a.isKeyCall = true → s.events.parkedTid ≠ c.tid) ∧ s.deadlineFits c = true

instance (c : Setup) (s : System) (a : System.Action) : Decidable (HonestSlot c s a) :=
  inferInstanceAs (Decidable (_ ∧ _))

/-- The timeout of a call made at `began` has passed at `now`. -/
def KeyArgs.Expired (c : Setup) (args : KeyArgs) (began now : Nat) : Prop :=
  args.timeoutMs ≠ readKeyEventIndefinite ∧ began + args.timeoutMs * c.ticksPerMs ≤ now

theorem KeyArgs.Expired.mono {began now later : Nat}
    (h : args.Expired c began now) (hle : now ≤ later) : args.Expired c began later :=
  ⟨h.1, h.2.trans hle⟩

/-- A result of `read_key_event` without events comes after the timeout. -/
def Return.Honest (c : Setup) : Return → Prop
  | .keys args began ended (.ok []) => args.Expired c began ended
  | _ => True

structure KeyInv (c : Setup) (s : System) : Prop where
  time : s.began ≤ s.clock
  retry : ∀ args, s.pc.tries = some args → s.events.parkedTid = c.tid →
    args.Expired c s.began s.clock
  clear : ∀ args, s.pc = .clearParker args [] → args.Expired c s.began s.clock
  stamped : ∀ args wakeTime, s.pc = .suspend (.keys args) wakeTime →
    args.timeoutMs ≠ readKeyEventIndefinite → s.began + args.timeoutMs * c.ticksPerMs ≤ wakeTime
  parked : ∀ args, s.pc = .parked (.keys args) →
    (args.timeoutMs ≠ readKeyEventIndefinite →
      s.began + args.timeoutMs * c.ticksPerMs ≤ s.wakeTime) ∧
    (s.state ≠ .suspended → s.events.parkedTid = c.tid → args.Expired c s.began s.clock)
  honest : ∀ r ∈ s.returned, r.Honest c

/-- Without a wrap the deadline is the time of the park and the timeout. -/
theorem deadline_eq {clock timeoutMs : Nat} (h : clock + timeoutMs * c.ticksPerMs < 2 ^ 64) :
    deadline c clock timeoutMs = clock + timeoutMs * c.ticksPerMs := by
  rw [deadline, Nat.mod_eq_of_lt (by omega : clock < 2 ^ 64),
    Nat.mod_eq_of_lt (by omega : timeoutMs * c.ticksPerMs < 2 ^ 64), Nat.mod_eq_of_lt h]

namespace KeyInv

theorem of_start (h : s.Start) : KeyInv c s := by
  constructor
  · exact h.began
  all_goals simp [h.pc, h.returned]

variable (h : KeyInv c s)

include h

/-- The reader goes on to another point, perhaps with another slot. -/
theorem goto {pc : Pc} {events : ParkedRing KeyEvent}
    (hretry : ∀ args, pc.tries = some args → events.parkedTid = c.tid →
      args.Expired c s.began s.clock)
    (hclear : ∀ args, pc = .clearParker args [] → args.Expired c s.began s.clock)
    (hstamped : ∀ args wakeTime, pc = .suspend (.keys args) wakeTime →
      args.timeoutMs ≠ readKeyEventIndefinite → s.began + args.timeoutMs * c.ticksPerMs ≤ wakeTime)
    (hparked : ∀ args, pc ≠ .parked (.keys args)) (stdin : ParkedRing UInt8) :
    KeyInv c { s with stdin, events, pc } :=
  ⟨h.time, hretry, hclear, hstamped, fun args hpc => absurd hpc (hparked args), h.honest⟩

/-- A call returns. -/
theorem of_return {r : Return} (hr : r.Honest c) (stdin : ParkedRing UInt8)
    (events : ParkedRing KeyEvent) :
    KeyInv c { s with
      stdin, events, pc := .user, returned := s.returned ++ [r] } := by
  constructor
  · exact h.time
  · simp
  · simp
  · simp
  · simp
  intro r' hr'
  rcases List.mem_append.mp hr' with hin | hin
  · exact h.honest r' hin
  · rw [List.mem_singleton.mp hin]
    exact hr

theorem returnStdin (args : StdinArgs) (result : Except Errno (List UInt8)) :
    KeyInv c (s.returnStdin args result) := by
  apply h.of_return
  trivial

theorem returnKeys {result : Except Errno (List KeyEvent)}
    (hr : (Return.keys args s.began s.clock result).Honest c) :
    KeyInv c (s.returnKeys args result) := by
  apply h.of_return
  exact hr

theorem enter {call : Call} (hpc : s.pc = .enter call) (translates : Bool) :
    KeyInv c (s.enter translates call) := by
  cases call with
  | stdin args =>
    simp only [System.enter]
    split
    · exact h.returnStdin args _
    · apply h.goto <;> simp
  | keys args =>
    simp only [System.enter]
    split
    · exact h.returnKeys trivial
    apply h.goto
    · rintro _ ⟨⟩
      exact h.retry args (by rw [hpc]; rfl)
    · simp
    · simp
    · simp

theorem drainedBytes (args : StdinArgs) (second : Bool) (out : List UInt8) :
    KeyInv c (s.drainedBytes args second out) := by
  unfold System.drainedBytes
  repeat' split
  all_goals first
    | exact h.returnStdin args _
    | apply h.goto <;> simp

theorem drainedEvents (hfits : s.deadlineFits c = true)
    {second : Bool} {out : List KeyEvent} (hpc : s.pc = .drainEvents args second out) :
    KeyInv c (s.drainedEvents c args second out) := by
  unfold System.drainedEvents
  split
  · next hout =>
    split
    · apply h.goto
      · simp
      · rintro _ ⟨⟩
        exact absurd rfl hout
      · simp
      · simp
    apply h.returnKeys
    cases out with
    | nil => exact absurd rfl hout
    | cons ev rest => trivial
  next hout =>
  have hnil : out = [] := by simpa using hout
  split
  · next hsecond =>
    split
    · next hindef =>
      apply h.goto
      · simp
      · simp
      · rintro _ _ ⟨⟩ hfinite
        exact absurd hindef hfinite
      · simp
    next hfinite =>
    apply h.goto
    · simp
    · simp
    · rintro _ _ ⟨⟩ -
      simp only [System.deadlineFits, hpc, hsecond, hnil, Bool.or_eq_true,
        decide_eq_true_eq] at hfits
      rw [deadline_eq (hfits.resolve_left hfinite)]
      have htime := h.time
      omega
    · simp
  · next hfirst =>
    split
    · exact h.returnKeys trivial
    split
    · next hzero =>
      apply h.returnKeys
      refine ⟨?_, ?_⟩
      · rw [hzero]
        decide
      rw [hzero]
      have htime := h.time
      omega
    apply h.goto
    · rintro _ ⟨⟩
      apply h.retry
      simp [hpc, hfirst]
    · simp
    · simp
    · simp

/-- Steps that keep the point of the reader: time goes on, the slot stays or is emptied, and
the thread does not leave its park. -/
theorem frame {s' : System} (hpc : s'.pc = s.pc) (hbegan : s'.began = s.began)
    (hclock : s.clock ≤ s'.clock)
    (hslot : s'.events.parkedTid = c.tid → s.events.parkedTid = c.tid)
    (hwake : s'.wakeTime = s.wakeTime) (hstate : s'.state = s.state)
    (hreturned : s'.returned = s.returned) : KeyInv c s' := by
  constructor
  · rw [hbegan]
    exact h.time.trans hclock
  · rw [hpc, hbegan]
    exact fun args ht hs => (h.retry args ht (hslot hs)).mono hclock
  · rw [hpc, hbegan]
    exact fun args ht => (h.clear args ht).mono hclock
  · rw [hpc, hbegan]
    exact h.stamped
  · rw [hpc, hbegan, hwake, hstate]
    exact fun args ht =>
      ⟨(h.parked args ht).1, fun hne hs => ((h.parked args ht).2 hne (hslot hs)).mono hclock⟩
  · rw [hreturned]
    exact h.honest

theorem readerStep (hfits : s.deadlineFits c = true) {translates : Bool}
    (hs : s.readerStep c translates = some s') : KeyInv c s' := by
  unfold System.readerStep at hs
  split at hs
  · cases hs
  · cases hs
  · next call hpc =>
    cases hs
    exact h.enter hpc translates
  · next args second out hpc =>
    split at hs
    · split at hs
      · next b stdin _ =>
        cases hs
        apply h.goto <;> simp
      · cases hs
        exact h.drainedBytes args second out
    · cases hs
      exact h.drainedBytes args second out
  · next args hpc =>
    split at hs
    · cases hs
      apply h.goto <;> simp
    · cases hs
      exact h.returnStdin args _
  · next args out hpc =>
    cases hs
    apply h.of_return
    trivial
  · next args second out hpc =>
    split at hs
    · split at hs
      · next ev events hdeq =>
        cases hs
        have hslot := (ParkedRing.dequeue_spec hdeq).2
        apply h.goto
        · intro args' ht hown
          rw [hslot] at hown
          cases second with
          | false =>
            obtain rfl : args = args' := Option.some.inj ht
            exact h.retry args (by rw [hpc]; rfl) hown
          | true => cases ht
        · simp
        · simp
        · simp
      · cases hs
        exact h.drainedEvents hfits hpc
    · cases hs
      exact h.drainedEvents hfits hpc
  · next args hpc =>
    split at hs
    · cases hs
      apply h.goto <;> simp
    · next events howned =>
      cases hs
      have hslot : s.events.parkedTid = c.tid := by
        by_contra hne
        rw [setParker, if_neg hne] at howned
        split at howned <;> cases howned
      apply h.goto
      · simp
      · rintro _ ⟨⟩
        exact h.retry args (by rw [hpc]; rfl) hslot
      · simp
      · simp
    · cases hs
      exact h.returnKeys trivial
  · next args out hpc =>
    cases hs
    apply h.of_return
    cases out with
    | nil => exact h.clear args hpc
    | cons ev rest => trivial
  · next call wakeTime hpc =>
    cases hs
    constructor
    · exact h.time
    · simp
    · simp
    · simp
    · rintro args ⟨⟩
      exact ⟨h.stamped args wakeTime hpc, fun hne => absurd rfl hne⟩
    · exact h.honest

theorem wakeQueuePush (ev : Sched.WakeEvent) : KeyInv c (s.wakeQueuePush ev) := by
  unfold System.wakeQueuePush
  split
  · exact h.frame rfl rfl le_rfl id rfl rfl rfl
  · exact h

/-- `input::dispatch` can only empty the slot. -/
theorem dispatchStep (hs : s.dispatchStep = some s') : KeyInv c s' := by
  have hgoto : ∀ {s : System}, KeyInv c s → ∀ pc, KeyInv c { s with dispatch := pc } :=
    fun h pc => h.frame rfl rfl le_rfl id rfl rfl rfl
  unfold System.dispatchStep at hs
  split at hs
  · cases hs
  · cases hs
    exact hgoto h _
  · next ev bytes _ =>
    cases hs
    refine h.frame rfl rfl le_rfl ?_ rfl rfl rfl
    cases henq : s.events.enqueue keyRingCap ev with
    | none => exact id
    | some events => exact (ParkedRing.enqueue_spec henq).2.symm.trans
  · cases hs
    refine h.frame rfl rfl le_rfl ?_ rfl rfl rfl
    intro hempty
    have hpos := c.tid_pos
    rw [← hempty] at hpos
    cases hpos
  · cases hs
    exact hgoto (h.wakeQueuePush _) _
  · cases hs
    exact hgoto h _
  · split at hs
    · cases hs
      exact h.frame rfl rfl le_rfl id rfl rfl rfl
    · cases hs
      exact h.frame rfl rfl le_rfl id rfl rfl rfl
  · cases hs
    exact h.frame rfl rfl le_rfl id rfl rfl rfl
  · cases hs
    exact hgoto (h.wakeQueuePush _) _

/-- The thread may be made Ready when its slot is empty or its timeout has passed. -/
theorem promoteWake
    (hexpired : ∀ args, s.pc = .parked (.keys args) → s.events.parkedTid = c.tid →
      args.Expired c s.began s.clock) : KeyInv c s.promoteWake :=
  { h with parked := fun args hpc => ⟨(h.parked args hpc).1, fun _ => hexpired args hpc⟩ }

/-- A promotion that meets the condition on the slot. -/
theorem promoted (hguard : HonestSlot c s a) (hp : s.promotes c a = true)
    (hdue : a.isTimer = true → s.wakeTime ≤ s.clock)
    (hpc : s.pc = .parked (.keys args)) (hslot : s.events.parkedTid = c.tid) :
    args.Expired c s.began s.clock := by
  obtain ⟨htimer, hfinite⟩ := hguard.1 hp (by rw [System.awaitsEvents, hpc]) hslot
  have hne : args.timeoutMs ≠ readKeyEventIndefinite := by
    simpa [System.awaitsDeadline, hpc] using hfinite
  exact ⟨hne, ((h.parked args hpc).1 hne).trans (hdue htimer)⟩

theorem step (hguard : HonestSlot c s a) (hs : System.step c s a = some s') :
    KeyInv c s' := by
  cases a with
  | call call =>
    simp only [System.step] at hs
    split at hs
    · cases hs
      constructor
      · exact Nat.le_refl _
      · intro args ht hslot
        cases call with
        | stdin args => cases ht
        | keys args => exact absurd hslot (hguard.2.1 rfl)
      · simp
      · simp
      · simp
      · exact h.honest
    · cases hs
  | reader translates =>
    simp only [System.step] at hs
    split at hs
    · exact h.readerStep hguard.2.2 hs
    · cases hs
  | key ev bytes =>
    simp only [System.step] at hs
    split at hs
    · cases hs
      exact h.frame rfl rfl le_rfl id rfl rfl rfl
    · cases hs
  | dispatch => exact h.dispatchStep hs
  | wake ev =>
    cases hs
    exact h.wakeQueuePush ev
  | drainWakes =>
    simp only [System.step] at hs
    split at hs
    · cases hs
    next ev rest hqueue =>
    split at hs
    · next r hr =>
      cases hs
      have hnote : KeyInv c { s with
          wakeQueue := rest, wakeOverride := s.wakeOverride ||| r } :=
        h.frame rfl rfl le_rfl id rfl rfl rfl
      simp only [System.setWakeReason]
      split
      · next hst =>
        have hst' : s.state = .suspended := hst
        apply hnote.promoteWake
        intro args hpc hslot
        apply h.promoted hguard _ (by simp [System.Action.isTimer]) hpc hslot
        simp [System.promotes, hst', hqueue, hr]
      · exact hnote
    · cases hs
      exact h.frame rfl rfl le_rfl id rfl rfl rfl
  | drainSleeps =>
    simp only [System.step] at hs
    split at hs
    · cases hs
    next hnotices =>
    have hpop : KeyInv c { s with notices := s.notices - 1 } :=
      h.frame rfl rfl le_rfl id rfl rfl rfl
    split at hs
    · next hwake =>
      cases hs
      apply hpop.promoteWake
      intro args hpc hslot
      apply h.promoted hguard _ (by simp [System.Action.isTimer]) hpc hslot
      simp [System.promotes, hwake.1, hwake.2, hnotices]
    · cases hs
      exact hpop
  | timer =>
    simp only [System.step] at hs
    split at hs
    · next hdue =>
      cases hs
      apply h.promoteWake
      intro args hpc hslot
      apply h.promoted hguard _ (fun _ => hdue.2.trans (Nat.mod_le _ _)) hpc hslot
      simpa [System.promotes, hdue.1] using hdue.2
    · cases hs
  | resume =>
    simp only [System.step] at hs
    split at hs
    · next call hst hpc =>
      cases hs
      constructor
      · exact h.time
      · intro args ht hslot
        cases call with
        | stdin args => cases ht
        | keys args' =>
          obtain rfl : args' = args := Option.some.inj ht
          exact (h.parked args' hpc).2 (by rw [hst]; simp) hslot
      · simp
      · simp
      · simp
      · exact h.honest
    · cases hs
  | tick =>
    cases hs
    exact h.frame rfl rfl (Nat.le_succ _) id rfl rfl rfl

end KeyInv

/-- In every run that meets the condition on the slot, a call that returns no events has a
timeout, and it returns no earlier than the timeout after it was made. -/
theorem read_key_event_timeout_honest {args : KeyArgs} {began ended : Nat}
    (run : Reach (System.step c) (HonestSlot c) System.Start s)
    (hret : .keys args began ended (.ok []) ∈ s.returned) :
    args.timeoutMs ≠ readKeyEventIndefinite ∧ began + args.timeoutMs * c.ticksPerMs ≤ ended := by
  have h : KeyInv c s :=
    run.invariant (fun _ hstart => .of_start hstart) fun _ _ _ h hguard hs => h.step hguard hs
  exact h.honest _ hret

def readKey (timeoutMs : Nat) : KeyArgs := ⟨0x300000000, 1, 0, timeoutMs⟩

/-- A call with a timeout of one millisecond, made at time 5. -/
def timedOut : List System.Action :=
  [.call (.keys (readKey 1))] ++ System.accesses 5 ++ List.replicate 10 .tick ++
  [.timer, .resume] ++ System.accesses 4

theorem read_key_event_timeout_honest_timed_out : ∃ s,
    Reach (System.step oneReader) (HonestSlot oneReader) System.Start s ∧
      .keys (readKey 1) 5 15 (.ok []) ∈ s.returned ∧
      (readKey 1).timeoutMs ≠ readKeyEventIndefinite ∧
      5 + (readKey 1).timeoutMs * oneReader.ticksPerMs ≤ 15 := by
  have hstart : Reach (System.step oneReader) (HonestSlot oneReader) System.Start
      (System.initial 5) := .start (System.initial_start 5)
  obtain ⟨s, run, hret⟩ := hstart.exists_of_exec timedOut
    (fun s : System => .keys (readKey 1) 5 15 (.ok []) ∈ s.returned) (by decide +kernel)
  exact ⟨s, run, hret, read_key_event_timeout_honest run hret⟩

/-- A wake by number reaches a reader that waits without a timeout. -/
def tidWake : List System.Action :=
  [.call (.keys (readKey readKeyEventIndefinite))] ++ System.accesses 5 ++
  [.wake (.tid 7), .drainWakes, .resume] ++ System.accesses 4

/-- The call returns no events at once, although it has no timeout. -/
theorem indefinite_read_returns_nothing : ∃ s,
    Reach (System.step oneReader) (fun _ _ => True) System.Start s ∧
      .keys (readKey readKeyEventIndefinite) 5 5 (.ok []) ∈ s.returned := by
  have hstart : Reach (System.step oneReader) (fun _ _ => True) System.Start (System.initial 5) :=
    .start (System.initial_start 5)
  exact hstart.exists_of_exec tidWake
    (fun s : System => .keys (readKey readKeyEventIndefinite) 5 5 (.ok []) ∈ s.returned)
    (by decide +kernel)

end Orbit.Input
