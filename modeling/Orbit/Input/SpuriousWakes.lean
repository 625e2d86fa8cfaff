import Orbit.Input.Reader
import Orbit.Transition.Run

/-!
`read_stdin` under wakes. The parked slot holds the thread's number from its park to the
next byte that is pushed. A wake that comes in between makes the thread execute the call
again while its own number is still in the slot, and the call then fails with `EBUSY`.
When the reader is made Ready only after a push has emptied the slot, the call never
fails so, never returns nothing, and delivers the bytes the ring took in order.
-/

namespace Orbit.Input

open Transition Orbit.Abi

variable {second : Bool} {out : List UInt8} {args : StdinArgs}

variable {c : Setup} {s s' : System} {a : System.Action}

/-- The bytes a call has returned. -/
def Return.bytes : Return → List UInt8
  | .stdin _ (.ok out) => out
  | _ => []

/-- The bytes a drain has taken and not yet returned. -/
def Pc.inFlight : Pc → List UInt8
  | .drainBytes _ _ out | .unparkStdin _ out => out
  | _ => []

namespace System

def returnedBytes (s : System) : List UInt8 := s.returned.flatMap Return.bytes

/-- The bytes the ring took. -/
def accepted (s : System) : List UInt8 := (s.pushed.filter Prod.snd).map Prod.fst

/-- The reader has parked for bytes and has not been made Ready. -/
def awaitsBytes (s : System) : Bool :=
  match s.pc with
  | .drainBytes _ true _ | .unparkStdin .. | .suspend (.stdin _) _ => true
  | .parked (.stdin _) => s.state = .suspended
  | _ => false

end System

/-- The reader is made Ready only when its number is not in the slot of the byte ring. -/
def SlotEmptied (c : Setup) (s : System) (a : System.Action) : Prop :=
  s.promotes c a = true → s.stdin.parkedTid ≠ c.tid

instance (c : Setup) (s : System) (a : System.Action) : Decidable (SlotEmptied c s a) :=
  inferInstanceAs (Decidable (_ → _))

/-- A result of `read_stdin` that is not `EBUSY` and not empty. -/
def Return.Proper : Return → Prop
  | .stdin _ (.ok out) => out ≠ []
  | .stdin _ (.error e) => e ≠ .ebusy
  | .keys .. => True

structure StdinInv (c : Setup) (s : System) : Prop where
  slot : s.stdin.parkedTid = noParker ∨ s.stdin.parkedTid = c.tid ∧ s.awaitsBytes = true
  order : s.returnedBytes ++ s.pc.inFlight ++ s.stdin.ring = s.accepted
  nonempty : ∀ args out, s.pc = .unparkStdin args out → out ≠ []
  proper : ∀ r ∈ s.returned, r.Proper

namespace StdinInv

theorem of_start (h : s.Start) : StdinInv c s := by
  constructor
  · rw [h.stdin]
    exact .inl rfl
  · rw [System.returnedBytes, System.accepted, h.stdin, h.pc, h.pushed, h.returned]
    rfl
  · rw [h.pc]
    simp
  · rw [h.returned]
    simp

/-- The reader goes on to another point. -/
theorem goto (h : StdinInv c s) {pc : Pc} (hflight : pc.inFlight = s.pc.inFlight)
    (hunpark : ∀ args out, pc = .unparkStdin args out → out ≠ [])
    (hawaits : s.awaitsBytes = true → ({ s with pc } : System).awaitsBytes = true) :
    StdinInv c { s with pc } := by
  constructor
  · exact h.slot.imp_right fun hs => ⟨hs.1, hawaits hs.2⟩
  · have horder := h.order
    rw [← hflight] at horder
    exact horder
  · exact hunpark
  · exact h.proper

/-- A call returns. What it had in flight is what it returns. -/
theorem of_return (h : StdinInv c s) {r : Return} (hr : r.Proper)
    (hbytes : r.bytes = s.pc.inFlight) (hslot : s.stdin.parkedTid = noParker) :
    StdinInv c { s with pc := .user, returned := s.returned ++ [r] } := by
  constructor
  · exact .inl hslot
  · have horder := h.order
    simp only [System.returnedBytes, System.accepted, Pc.inFlight, List.flatMap_append,
      List.flatMap_cons, List.flatMap_nil, List.append_nil, hbytes] at horder ⊢
    exact horder
  · simp
  intro r' hr'
  rcases List.mem_append.mp hr' with hin | hin
  · exact h.proper r' hin
  · rw [List.mem_singleton.mp hin]
    exact hr

/-- Nobody is parked while the reader does not wait for bytes. -/
theorem empty (h : StdinInv c s) (hawaits : s.awaitsBytes = false) :
    s.stdin.parkedTid = noParker := by
  rcases h.slot with hslot | ⟨-, ha⟩
  · exact hslot
  · rw [hawaits] at ha
    cases ha

end StdinInv

theorem StdinArgs.check_ne_ebusy (args : StdinArgs) (translates : Bool) :
    args.check translates ≠ .error .ebusy := by
  unfold StdinArgs.check
  repeat' split
  all_goals simp

namespace StdinInv

variable (h : StdinInv c s)

include h

theorem enter {call : Call} (hpc : s.pc = .enter call) (translates : Bool) :
    StdinInv c (s.enter translates call) := by
  have hawaits : s.awaitsBytes = false := by rw [System.awaitsBytes, hpc]
  have hflight : s.pc.inFlight = [] := by rw [hpc]; rfl
  cases call with
  | stdin args =>
    simp only [System.enter]
    split
    · next e hcheck =>
      apply h.of_return
      · rintro rfl
        exact args.check_ne_ebusy translates hcheck
      · rw [hflight]
        rfl
      · exact h.empty hawaits
    apply h.goto
    · rw [hflight]
      rfl
    · simp
    · simp [hawaits]
  | keys args =>
    simp only [System.enter]
    split
    · apply h.of_return
      · trivial
      · rw [hflight]
        rfl
      · exact h.empty hawaits
    apply h.goto
    · rw [hflight]
      rfl
    · simp
    · simp [hawaits]

theorem drainedBytes
    (hpc : s.pc = .drainBytes args second out) : StdinInv c (s.drainedBytes args second out) := by
  have hflight : s.pc.inFlight = out := by rw [hpc]; rfl
  unfold System.drainedBytes
  split
  · next hout =>
    split
    · apply h.goto
      · rw [hflight]
        rfl
      · rintro _ _ ⟨⟩
        exact hout
      · simp [System.awaitsBytes]
    next hfirst =>
    apply h.of_return
    · exact hout
    · rw [hflight]
      rfl
    · apply h.empty
      simp [System.awaitsBytes, hpc, hfirst]
  next hout =>
  have hnil : out = [] := by simpa using hout
  split
  · apply h.goto
    · rw [hflight, hnil]
      rfl
    · simp
    · simp [System.awaitsBytes]
  next hfirst =>
  have hawaits : s.awaitsBytes = false := by simp [System.awaitsBytes, hpc, hfirst]
  split
  · apply h.of_return
    · exact Errno.noConfusion
    · rw [hflight, hnil]
      rfl
    · exact h.empty hawaits
  apply h.goto
  · rw [hflight, hnil]
    rfl
  · simp
  · simp [hawaits]

/-- The event calls have nothing to do with the byte ring. -/
theorem drainedEvents {args : KeyArgs} {out : List KeyEvent}
    (hpc : s.pc = .drainEvents args second out) :
    StdinInv c (s.drainedEvents c args second out) := by
  have hflight : s.pc.inFlight = [] := by rw [hpc]; rfl
  have hawaits : s.awaitsBytes = false := by rw [System.awaitsBytes, hpc]
  have hgoto : ∀ {pc : Pc}, pc.inFlight = [] → (∀ args out, pc ≠ .unparkStdin args out) →
      StdinInv c { s with pc } := by
    intro pc hf hu
    apply h.goto
    · rw [hf, hflight]
    · exact fun args out he => absurd he (hu args out)
    · simp [hawaits]
  have hreturn : ∀ result, StdinInv c (s.returnKeys args result) := by
    intro result
    apply h.of_return
    · trivial
    · rw [hflight]
      rfl
    · exact h.empty hawaits
  unfold System.drainedEvents
  repeat' split
  all_goals first
    | exact hreturn _
    | exact hgoto rfl (by simp)

/-- A byte moves from the ring to the drain. -/
theorem takeByte (hpc : s.pc = .drainBytes args second out) {b : UInt8} {stdin : ParkedRing UInt8}
    (hdeq : s.stdin.dequeue = some (b, stdin)) :
    StdinInv c { s with stdin, pc := .drainBytes args second (out ++ [b]) } := by
  obtain ⟨hring, hslot⟩ := ParkedRing.dequeue_spec hdeq
  constructor
  · rcases h.slot with hs | ⟨hs, ha⟩
    · exact .inl (hslot.trans hs)
    refine .inr ⟨hslot.trans hs, ?_⟩
    cases second with
    | false => simp [System.awaitsBytes, hpc] at ha
    | true => rfl
  · have horder := h.order
    simp only [System.returnedBytes, System.accepted, hpc, Pc.inFlight, hring] at horder ⊢
    rw [← horder]
    simp
  · simp
  · exact h.proper

/-- The event ring and the sleep bookkeeping of the thread are not the byte ring's. -/
theorem frame (events : ParkedRing KeyEvent) (dispatch : DispatchPc)
    (wakeQueue : List Sched.WakeEvent) (clock wakeOverride wakeTime notices began : Nat) :
    StdinInv c { s with
      events, dispatch, wakeQueue, clock,
      wakeOverride, wakeTime, notices, began } :=
  { h with }

theorem readerStep {translates : Bool}
    (hs : s.readerStep c translates = some s') : StdinInv c s' := by
  unfold System.readerStep at hs
  split at hs
  · cases hs
  · cases hs
  · next call hpc =>
    cases hs
    exact h.enter hpc translates
  · next args second out hpc =>
    split at hs
    · split at hs
      · next b stdin hdeq =>
        cases hs
        exact h.takeByte hpc hdeq
      · cases hs
        exact h.drainedBytes hpc
    · cases hs
      exact h.drainedBytes hpc
  · next args hpc =>
    have hempty : s.stdin.parkedTid = noParker := h.empty (by rw [System.awaitsBytes, hpc])
    obtain ⟨stdin, hpark⟩ := Option.isSome_iff_exists.mp (ParkedRing.park_isSome c.tid_pos hempty)
    obtain ⟨hring, hslot⟩ := ParkedRing.park_spec hpark
    rw [hpark] at hs
    cases hs
    constructor
    · exact .inr ⟨hslot, rfl⟩
    · have horder := h.order
      simp only [System.returnedBytes, System.accepted, hpc, Pc.inFlight, hring] at horder ⊢
      exact horder
    · simp
    · exact h.proper
  · next args out hpc =>
    cases hs
    have hclear : StdinInv c { s with stdin := s.stdin.unpark } :=
      { h with slot := .inl rfl }
    apply hclear.of_return
    · exact h.nonempty args out hpc
    · rw [hpc]
      rfl
    · rfl
  · next args second out hpc =>
    split at hs
    · split at hs
      · next ev events hdeq =>
        cases hs
        apply (h.frame events s.dispatch s.wakeQueue s.clock s.wakeOverride s.wakeTime s.notices
          s.began).goto
        · rw [hpc]
          rfl
        · simp
        · simp [System.awaitsBytes, hpc]
      · cases hs
        exact h.drainedEvents hpc
    · cases hs
      exact h.drainedEvents hpc
  · next args hpc =>
    have hflight : s.pc.inFlight = [] := by rw [hpc]; rfl
    have hawaits : s.awaitsBytes = false := by rw [System.awaitsBytes, hpc]
    split at hs
    · next events _ =>
      cases hs
      apply (h.frame events s.dispatch s.wakeQueue s.clock s.wakeOverride s.wakeTime s.notices
        s.began).goto
      · rw [hflight]
        rfl
      · simp
      · simp [System.awaitsBytes, hpc]
    · cases hs
      apply h.goto
      · rw [hflight]
        rfl
      · simp
      · simp [hawaits]
    cases hs
    apply h.of_return
    · trivial
    · rw [hflight]
      rfl
    · exact h.empty hawaits
  · next args out hpc =>
    cases hs
    have hframe := h.frame (s.events.clearParkerIf c.tid) s.dispatch s.wakeQueue s.clock
      s.wakeOverride s.wakeTime s.notices s.began
    apply hframe.of_return
    · trivial
    · rw [hpc]
      rfl
    · exact h.empty (by rw [System.awaitsBytes, hpc])
  · next call wakeTime hpc =>
    cases hs
    constructor
    · rcases h.slot with hslot | ⟨hslot, ha⟩
      · exact .inl hslot
      refine .inr ⟨hslot, ?_⟩
      cases call with
      | stdin args => rfl
      | keys args => simp [System.awaitsBytes, hpc] at ha
    · have horder := h.order
      simp only [System.returnedBytes, System.accepted, hpc, Pc.inFlight] at horder ⊢
      exact horder
    · simp
    · exact h.proper

theorem wakeQueuePush (ev : Sched.WakeEvent) :
    StdinInv c (s.wakeQueuePush ev) := by
  unfold System.wakeQueuePush
  split
  · exact h.frame s.events s.dispatch _ s.clock s.wakeOverride s.wakeTime s.notices s.began
  · exact h

/-- `input::dispatch` adds to the end of the ring, and takes the slot after it has. -/
theorem dispatchStep (hs : s.dispatchStep = some s') : StdinInv c s' := by
  have hgoto : ∀ {s : System}, StdinInv c s → ∀ pc, StdinInv c { s with dispatch := pc } :=
    fun {s} h pc => h.frame s.events pc s.wakeQueue s.clock s.wakeOverride s.wakeTime s.notices
      s.began
  unfold System.dispatchStep at hs
  split at hs
  · cases hs
  · cases hs
    exact hgoto h _
  · cases hs
    exact h.frame _ _ s.wakeQueue s.clock s.wakeOverride s.wakeTime s.notices s.began
  · cases hs
    exact h.frame _ _ s.wakeQueue s.clock s.wakeOverride s.wakeTime s.notices s.began
  · cases hs
    exact hgoto (h.wakeQueuePush _) _
  · cases hs
    exact hgoto h _
  · next b rest wakeTid hpc =>
    split at hs
    · next stdin henq =>
      cases hs
      obtain ⟨hring, hslot⟩ := ParkedRing.enqueue_spec henq
      constructor
      · exact h.slot.imp hslot.trans fun hs => ⟨hslot.trans hs.1, hs.2⟩
      · have horder := h.order
        simp only [System.returnedBytes, System.accepted, hring, List.filter_append,
          List.map_append] at horder ⊢
        rw [← horder]
        simp
      · exact h.nonempty
      · exact h.proper
    cases hs
    constructor
    · exact h.slot
    · have horder := h.order
      simp only [System.returnedBytes, System.accepted, List.filter_append,
        List.map_append] at horder ⊢
      rw [← horder]
      simp
    · exact h.nonempty
    · exact h.proper
  · cases hs
    exact { h with slot := .inl rfl }
  · cases hs
    exact hgoto (h.wakeQueuePush _) _

/-- The thread may be made Ready once its number is out of the slot. -/
theorem promoteWake (hslot : s.stdin.parkedTid ≠ c.tid) :
    StdinInv c s.promoteWake :=
  { h with slot := .inl (h.slot.resolve_right fun hs => hslot hs.1) }

theorem setWakeReason (reason : Nat)
    (hslot : s.state = .suspended → s.stdin.parkedTid ≠ c.tid) :
    StdinInv c (s.setWakeReason reason) := by
  have hnote := h.frame s.events s.dispatch s.wakeQueue s.clock (s.wakeOverride ||| reason)
    s.wakeTime s.notices s.began
  simp only [System.setWakeReason]
  split
  · next hst => exact hnote.promoteWake (hslot hst)
  · exact hnote

theorem step (hslot : SlotEmptied c s a) (hs : System.step c s a = some s') :
    StdinInv c s' := by
  cases a with
  | call call =>
    simp only [System.step] at hs
    split at hs
    · next hpc =>
      cases hs
      apply (h.frame s.events s.dispatch s.wakeQueue s.clock s.wakeOverride s.wakeTime s.notices
        s.clock).goto
      · rw [hpc]
        rfl
      · simp
      · simp [System.awaitsBytes, hpc]
    · cases hs
  | reader translates =>
    simp only [System.step] at hs
    split at hs
    · exact h.readerStep hs
    · cases hs
  | key ev bytes =>
    simp only [System.step] at hs
    split at hs
    · cases hs
      exact h.frame s.events _ s.wakeQueue s.clock s.wakeOverride s.wakeTime s.notices s.began
    · cases hs
  | dispatch => exact h.dispatchStep hs
  | wake ev =>
    cases hs
    exact h.wakeQueuePush ev
  | drainWakes =>
    simp only [System.step] at hs
    split at hs
    · cases hs
    next ev rest hqueue =>
    have hpop := h.frame s.events s.dispatch rest s.clock s.wakeOverride s.wakeTime s.notices
      s.began
    split at hs
    · next r hr =>
      cases hs
      apply hpop.setWakeReason
      intro hst
      apply hslot
      have hst' : s.state = .suspended := hst
      simp [System.promotes, hst', hqueue, hr]
    · cases hs
      exact hpop
  | drainSleeps =>
    simp only [System.step] at hs
    split at hs
    · cases hs
    next hnotices =>
    have hpop := h.frame s.events s.dispatch s.wakeQueue s.clock s.wakeOverride s.wakeTime
      (s.notices - 1) s.began
    split at hs
    · next hwake =>
      cases hs
      apply hpop.promoteWake
      apply hslot
      simp [System.promotes, hwake.1, hwake.2, hnotices]
    · cases hs
      exact hpop
  | timer =>
    simp only [System.step] at hs
    split at hs
    · next hdue =>
      cases hs
      apply h.promoteWake
      apply hslot
      simpa [System.promotes, hdue.1] using hdue.2
    · cases hs
  | resume =>
    simp only [System.step] at hs
    split at hs
    · next call hst hpc =>
      cases hs
      have hawaits : s.awaitsBytes = false := by
        rw [System.awaitsBytes, hpc]
        cases call <;> simp [hst]
      constructor
      · exact .inl (h.empty hawaits)
      · have horder := h.order
        simp only [System.returnedBytes, System.accepted, hpc, Pc.inFlight] at horder ⊢
        exact horder
      · simp
      · exact h.proper
    · cases hs
  | tick =>
    cases hs
    exact h.frame s.events s.dispatch s.wakeQueue _ s.wakeOverride s.wakeTime s.notices s.began

end StdinInv

/-- In every run in which the reader is made Ready only when its number is not in the slot,
`read_stdin` never returns `EBUSY` and never returns no bytes, and what it has returned,
what a call under way has drained and what is in the ring are, in this order, the bytes
pushed without those the full ring refused. -/
theorem read_stdin_spurious_wakes (run : Reach (System.step c) (SlotEmptied c) System.Start s) :
    (∀ args, .stdin args (.error .ebusy) ∉ s.returned) ∧
      (∀ args, .stdin args (.ok []) ∉ s.returned) ∧
      s.returnedBytes ++ s.pc.inFlight ++ s.stdin.ring = s.accepted := by
  have h : StdinInv c s :=
    run.invariant (fun _ hstart => .of_start hstart) fun _ _ _ h hslot hs => h.step hslot hs
  refine ⟨fun args hin => ?_, fun args hin => ?_, h.order⟩
  · exact h.proper _ hin rfl
  · exact h.proper _ hin rfl

/-- One reader, with a clock of ten ticks in a millisecond. -/
def oneReader : Setup := ⟨1, 7, 10, by decide⟩

def readByte : StdinArgs := ⟨0x300000000, 1, 0⟩

/-- The reader suspends itself, a key with two bytes is pressed, and the two calls that
follow take one byte each. -/
def typedBytes : List System.Action :=
  [.call (.stdin readByte)] ++ System.accesses 5 ++
  [.key none [104, 105], .dispatch, .dispatch, .dispatch, .dispatch, .dispatch, .dispatch,
    .dispatch, .drainWakes, .resume] ++ System.accesses 3 ++
  [.call (.stdin readByte)] ++ System.accesses 3

theorem read_stdin_spurious_wakes_typed : ∃ s,
    Reach (System.step oneReader) (SlotEmptied oneReader) System.Start s ∧
      s.returned = [.stdin readByte (.ok [104]), .stdin readByte (.ok [105])] ∧
      (∀ args, .stdin args (.error .ebusy) ∉ s.returned) ∧
      (∀ args, .stdin args (.ok []) ∉ s.returned) ∧
      s.returnedBytes ++ s.pc.inFlight ++ s.stdin.ring = s.accepted := by
  have hstart : Reach (System.step oneReader) (SlotEmptied oneReader) System.Start
      (System.initial 0) := .start (System.initial_start 0)
  obtain ⟨s, run, hret⟩ := hstart.exists_of_exec typedBytes
    (fun s : System => s.returned = [.stdin readByte (.ok [104]), .stdin readByte (.ok [105])])
    (by decide +kernel)
  exact ⟨s, run, hret, read_stdin_spurious_wakes run⟩

/-- A wake for the whole process reaches the reader while it is parked. -/
def processWake : List System.Action :=
  [.call (.stdin readByte)] ++ System.accesses 5 ++ [.wake (.pid 1), .drainWakes, .resume] ++
  System.accesses 3

/-- The call is executed again with its own number in the slot. -/
theorem read_stdin_busy_with_itself : ∃ s,
    Reach (System.step oneReader) (fun _ _ => True) System.Start s ∧
      s.returned = [.stdin readByte (.error .ebusy)] := by
  have hstart : Reach (System.step oneReader) (fun _ _ => True) System.Start (System.initial 0) :=
    .start (System.initial_start 0)
  exact hstart.exists_of_exec processWake
    (fun s : System => s.returned = [.stdin readByte (.error .ebusy)]) (by decide +kernel)

end Orbit.Input
