import Orbit.Resume.Machine
import Orbit.Transition.Run

/-!
What a thread goes on with after a syscall. Between the commit of an outcome and the next
entry nobody writes the saved registers, except that the answer of the manager is written
to a thread that waits for it. The slot for such answers is shared by all calls of the
thread, so this needs every earlier park to be over when the manager is asked.
-/

namespace Orbit.Resume

open Sched (ThreadState)
open Transition (Reach)

variable {rets vals : List Int64}

variable {c : Call} {t : Thread} {target : ThreadState} {regs : TrapFrame} {pc : UInt64}

/-- The registers a call is resumed with. -/
def Call.ResumesWith (c : Call) (regs : TrapFrame) : Prop :=
  match c.outcome with
  | .parkForPublish => ∃ vals, c.answer = some vals ∧ regs = c.entry.marshal vals
  | outcome => regs = outcome.resumeFrame c.entry

/-- The manager's answer to the call is still to come, or lies in the slot. -/
def Slot (s : System) (c : Call) : Prop :=
  (s.asked = true ∧ s.thread.pending = none) ∨
  (s.asked = false ∧ ∃ vals, c.answer = some vals ∧ s.thread.pending = some (vals.take maxRets))

/-- A call the manager has to answer: the thread parks or is parked, with the registers of
the trap; or the answer has been written and the thread is on its way back. -/
inductive Awaiting (s : System) (c : Call) : Prop where
  | parking (place : s.place = .parking .blocking) (claims : s.claims = 0)
      (frame : s.thread.frame = c.entry) (slot : Slot s c)
  | parked (state : s.thread.state = .blocking) (frame : s.thread.frame = c.entry) (slot : Slot s c)
  | delivered (state : s.thread.state = .ready ∨ s.thread.state = .assigned)
      (asked : s.asked = false) (pending : s.thread.pending = none)
      (frame : c.ResumesWith s.thread.frame)

/-- The invariant: where the thread is, that the slot is used for a call of the manager's
alone, and that the saved registers are those the open call is to be resumed with. -/
structure Sound (s : System) : Prop where
  mode : s.thread.mode = .user
  alive : s.thread.state ≠ .exited
  onHart : s.thread.state = .running ↔ s.place ≠ .away
  target : ∀ target, s.place = .parking target → target ≠ .exited
  quiet : (∀ c ∈ s.call, c.outcome ≠ .parkForPublish) → s.asked = false ∧ s.thread.pending = none
  running : ∀ regs pc, s.place = .user regs pc → s.call = none
  pc : ∀ c ∈ s.call, s.thread.pc = c.outcome.resumePc c.epc
  returned : ∀ c ∈ s.call, c.outcome ≠ .parkForPublish →
    s.thread.frame = c.outcome.resumeFrame c.entry
  awaiting : ∀ c ∈ s.call, c.outcome = .parkForPublish →
    s.unsent = [] ∧ s.inbox = [] ∧ Awaiting s c

theorem Thread.promoteReadyFromParked_eq {t t' : Thread} (h : t.promoteReadyFromParked = some t') :
    t.state.parked = true ∧ t' = { t with state := .ready } := by
  unfold promoteReadyFromParked at h
  split at h
  · next hparked => exact ⟨hparked, (Option.some.inj h).symm⟩
  · cases h

theorem TrapFrame.marshal_take (f : TrapFrame) (vals : List Int64) :
    f.marshal (vals.take maxRets) = f.marshal vals := by
  unfold marshal
  congr 1
  funext i
  rw [List.length_take, Nat.min_comm maxRets, Nat.min_assoc, Nat.min_self]
  split
  · next hin =>
    have hlt : i.val - a0.val < maxRets := by omega
    rw [List.getD_eq_getElem?_getD, List.getD_eq_getElem?_getD, List.getElem?_take_of_lt hlt]
  · rfl

/-- The call, the slot and the registers are as they were. -/
structure Untouched (s s' : System) : Prop where
  call : s'.call = s.call
  asked : s'.asked = s.asked
  mode : s'.thread.mode = s.thread.mode
  frame : s'.thread.frame = s.thread.frame
  pc : s'.thread.pc = s.thread.pc
  pending : s'.thread.pending = s.thread.pending

namespace Sound

variable {s s' : System}

/-- No call is open: nothing is owed to the thread. -/
theorem noCall (hmode : s'.thread.mode = .user) (halive : s'.thread.state ≠ .exited)
    (hon : s'.thread.state = .running ↔ s'.place ≠ .away)
    (htarget : ∀ target, s'.place = .parking target → target ≠ .exited)
    (hasked : s'.asked = false) (hpending : s'.thread.pending = none) (hcall : s'.call = none) :
    Sound s' where
  mode := hmode
  alive := halive
  onHart := hon
  target := htarget
  quiet _ := ⟨hasked, hpending⟩
  running _ _ _ := hcall
  pc c hc := by rw [hcall] at hc; cases hc
  returned c hc := by rw [hcall] at hc; cases hc
  awaiting c hc := by rw [hcall] at hc; cases hc

/-- A step that does not touch a thread whose call, if any, is not the manager's. -/
theorem unparked (h : Sound s) (hno : ∀ c ∈ s.call, c.outcome ≠ .parkForPublish)
    (keeps : Untouched s s') (halive : s'.thread.state ≠ .exited)
    (hon : s'.thread.state = .running ↔ s'.place ≠ .away)
    (htarget : ∀ target, s'.place = .parking target → target ≠ .exited)
    (hrunning : ∀ regs pc, s'.place = .user regs pc → s.call = none) : Sound s' where
  mode := keeps.mode.trans h.mode
  alive := halive
  onHart := hon
  target := htarget
  quiet _ := by
    rw [keeps.asked, keeps.pending]
    exact h.quiet hno
  running regs pc hplace := keeps.call.trans (hrunning regs pc hplace)
  pc c hc := by
    rw [keeps.pc]
    exact h.pc c (keeps.call ▸ hc)
  returned c hc hne := by
    rw [keeps.frame]
    exact h.returned c (keeps.call ▸ hc) hne
  awaiting c hc hpark := absurd hpark (hno c (keeps.call ▸ hc))

/-- A step the call cannot see at all. -/
theorem same (h : Sound s) (keeps : Untouched s s') (hstate : s'.thread.state = s.thread.state)
    (hplace : s'.place = s.place) (hclaims : s.claims = 0 → s'.claims = 0)
    (hunsent : s'.unsent = s.unsent) (hinbox : s'.inbox = s.inbox) : Sound s' := by
  obtain ⟨hcall, hasked, hmode, hframe, hpc, hpending⟩ := keeps
  have hslot : ∀ c, Slot s c → Slot s' c := by
    intro c hs
    rw [Slot, hasked, hpending]
    exact hs
  constructor
  case awaiting =>
    intro c hc hpark
    obtain ⟨hu, hi, hawait⟩ := h.awaiting c (hcall ▸ hc) hpark
    refine ⟨hunsent.trans hu, hinbox.trans hi, ?_⟩
    cases hawait with
    | parking place claims frame slot =>
      exact .parking (hplace.trans place) (hclaims claims) (hframe.trans frame) (hslot c slot)
    | parked state frame slot =>
      exact .parked (hstate.trans state) (hframe.trans frame) (hslot c slot)
    | delivered state asked pending frame =>
      exact .delivered (hstate ▸ state) (hasked.trans asked) (hpending.trans pending)
        (hframe ▸ frame)
  all_goals simp only [hcall, hasked, hmode, hframe, hpc, hpending, hstate, hplace]
  · exact h.mode
  · exact h.alive
  · exact h.onHart
  · exact h.target
  · exact h.quiet
  · exact h.running
  · exact h.pc
  · exact h.returned

/-- Whether the manager has a call of the thread to answer. -/
theorem call_cases (h : Sound s) : (∀ c ∈ s.call, c.outcome ≠ .parkForPublish) ∨
    ∃ c, s.call = some c ∧ c.outcome = .parkForPublish ∧ s.thread.pc = c.outcome.resumePc c.epc ∧
      s.unsent = [] ∧ s.inbox = [] ∧ Awaiting s c := by
  cases hcall : s.call with
  | none => exact .inl nofun
  | some c =>
    by_cases hpark : c.outcome = .parkForPublish
    · obtain ⟨hunsent, hinbox, hawait⟩ := h.awaiting c hcall hpark
      exact .inr ⟨c, rfl, hpark, h.pc c hcall, hunsent, hinbox, hawait⟩
    refine .inl fun c' hc' => ?_
    cases hc'
    exact hpark

/-- The thread of a call the manager has to answer, after a step. -/
theorem parkCall (hcall : s'.call = some c) (hpark : c.outcome = .parkForPublish)
    (hpc : s'.thread.pc = c.outcome.resumePc c.epc) (hmode : s'.thread.mode = .user)
    (halive : s'.thread.state ≠ .exited) (hon : s'.thread.state = .running ↔ s'.place ≠ .away)
    (htarget : ∀ target, s'.place = .parking target → target ≠ .exited)
    (huser : ∀ regs pc, s'.place ≠ .user regs pc)
    (hunsent : s'.unsent = []) (hinbox : s'.inbox = []) (hawait : Awaiting s' c) : Sound s' where
  mode := hmode
  alive := halive
  onHart := hon
  target := htarget
  quiet hno := absurd hpark (hno c hcall)
  running regs pc hplace := absurd hplace (huser regs pc)
  pc c' hc' := by
    obtain rfl := Option.some.inj (hcall.symm.trans hc')
    exact hpc
  returned c' hc' hne := by
    obtain rfl := Option.some.inj (hcall.symm.trans hc')
    exact absurd hpark hne
  awaiting c' hc' _ := by
    obtain rfl := Option.some.inj (hcall.symm.trans hc')
    exact ⟨hunsent, hinbox, hawait⟩

section

variable (h : Sound s)

include h

theorem runs_user (hplace : s.place = .user regs pc) :
    s.thread.state = .running := by
  apply h.onHart.mpr
  intro haway
  cases hplace.symm.trans haway

theorem runs_parking (hplace : s.place = .parking target) :
    s.thread.state = .running := by
  apply h.onHart.mpr
  intro haway
  cases hplace.symm.trans haway

theorem away_of_state (hstate : s.thread.state ≠ .running) : s.place = .away := by
  by_contra hne
  exact hstate (h.onHart.mpr hne)

theorem away_of_parked (hparked : s.thread.state.parked = true) : s.place = .away := by
  apply h.away_of_state
  intro hrun
  rw [hrun] at hparked
  cases hparked

/-- A parked thread is made ready without values. -/
theorem promoteWake (hno : ∀ c ∈ s.call, c.outcome ≠ .parkForPublish)
    (hwake : s.thread.promoteWake = some t) (inbox heap : List UInt64) :
    Sound { s with thread := t, inbox, heap } := by
  obtain ⟨hparked, rfl⟩ := Thread.promoteReadyFromParked_eq hwake
  have haway := h.away_of_parked hparked
  apply h.unparked hno
  · exact ⟨rfl, rfl, rfl, rfl, rfl, rfl⟩
  · exact nofun
  · exact ⟨nofun, fun hne => absurd haway hne⟩
  · exact h.target
  · exact h.running

/-- Only what is kept beside the thread changes: its notices and late claims. -/
theorem beside (hno : ∀ c ∈ s.call, c.outcome ≠ .parkForPublish) (claims : Nat)
    (unsent inbox heap : List UInt64) :
    Sound { s with claims, unsent, inbox, heap } := by
  apply h.unparked hno
  · exact ⟨rfl, rfl, rfl, rfl, rfl, rfl⟩
  · exact h.alive
  · exact h.onHart
  · exact h.target
  · exact h.running

end

/-- The answer is in the registers and the thread on its way back. -/
theorem delivered (hcall : s'.call = some c) (hpark : c.outcome = .parkForPublish)
    (hpc : s'.thread.pc = c.outcome.resumePc c.epc) (hmode : s'.thread.mode = .user)
    (hstate : s'.thread.state = .ready ∨ s'.thread.state = .assigned) (haway : s'.place = .away)
    (hunsent : s'.unsent = []) (hinbox : s'.inbox = []) (hasked : s'.asked = false)
    (hpending : s'.thread.pending = none) (hframe : c.ResumesWith s'.thread.frame) : Sound s' := by
  apply parkCall hcall hpark hpc hmode
  · rcases hstate with hstate | hstate <;> exact hstate ▸ nofun
  · refine ⟨fun hrun => ?_, fun hne => absurd haway hne⟩
    rcases hstate with hstate | hstate <;> exact nomatch hstate.symm.trans hrun
  · intro target hplace
    exact nomatch haway.symm.trans hplace
  · intro regs pc hplace
    exact nomatch haway.symm.trans hplace
  · exact hunsent
  · exact hinbox
  · exact .delivered hstate hasked hpending hframe

theorem resumesWith_take (hpark : c.outcome = .parkForPublish)
    (hanswer : c.answer = some vals) : c.ResumesWith (c.entry.marshal (vals.take maxRets)) := by
  rw [Call.ResumesWith, hpark, TrapFrame.marshal_take]
  exact ⟨vals, hanswer, rfl⟩

section

variable (h : Sound s)

include h

/-- The values in the slot are written to the thread that waits for them. -/
theorem marshal (hcall : s.call = some c)
    (hpark : c.outcome = .parkForPublish) (hblocking : s.thread.state = .blocking)
    (hframe : s.thread.frame = c.entry) (hslot : Slot s c) (hrets : s.thread.pending = some rets)
    (hkeep : t.mode = s.thread.mode ∧ t.pc = s.thread.pc) (hstate : t.state = .ready)
    (hnone : t.pending = none) (hregs : t.frame = s.thread.frame.marshal rets) (claims : Nat) :
    Sound { s with thread := t, claims } := by
  obtain ⟨hunsent, hinbox, -⟩ := h.awaiting c hcall hpark
  have haway := h.away_of_parked (hblocking ▸ rfl)
  rcases hslot with ⟨-, hempty⟩ | ⟨hasked, vals, hanswer, hvals⟩
  · exact nomatch hempty.symm.trans hrets
  obtain rfl := Option.some.inj (hrets.symm.trans hvals)
  apply delivered (c := c)
  · exact hcall
  · exact hpark
  · exact hkeep.2.trans (h.pc c hcall)
  · exact hkeep.1.trans h.mode
  · exact .inl hstate
  · exact haway
  · exact hunsent
  · exact hinbox
  · exact hasked
  · exact hnone
  · rw [hregs, hframe]
    exact resumesWith_take hpark hanswer

theorem publish (hasked : s.asked = true) (vals : List Int64) :
    Sound (s.answered (s.thread.publishResults vals) vals) := by
  rcases h.call_cases with hno | ⟨c, hcall, hpark, hpc, hunsent, hinbox, hawait⟩
  · exact nomatch hasked.symm.trans (h.quiet hno).1
  have hanswered : (s.answered (s.thread.publishResults vals) vals).call =
      some { c with answer := some vals } := by
    rw [System.answered, hcall]
    rfl
  have hslot : Slot (s.answered (s.thread.publishResults vals) vals)
      { c with answer := some vals } := .inr ⟨rfl, vals, rfl, rfl⟩
  have huser : ∀ regs pc, s.place ≠ .user regs pc := by
    intro regs pc hplace
    exact nomatch hcall.symm.trans (h.running regs pc hplace)
  apply parkCall hanswered hpark hpc h.mode h.alive h.onHart h.target huser hunsent hinbox
  cases hawait with
  | parking place claims frame => exact .parking place claims frame hslot
  | parked state frame => exact .parked state frame hslot
  | delivered _ asked => exact nomatch hasked.symm.trans asked

theorem resumeThread (hasked : s.asked = true)
    (hrets : s.thread.writeRets vals = some t) : Sound (s.answered t vals) := by
  obtain ⟨hparked, rfl⟩ := Thread.promoteReadyFromParked_eq hrets
  rcases h.call_cases with hno | ⟨c, hcall, hpark, hpc, hunsent, hinbox, hawait⟩
  · exact nomatch hasked.symm.trans (h.quiet hno).1
  have haway := h.away_of_parked hparked
  have hframe : s.thread.frame = c.entry := by
    cases hawait with
    | parking _ _ frame | parked _ frame => exact frame
    | delivered _ asked => exact nomatch hasked.symm.trans asked
  apply delivered (c := { c with answer := some vals })
  · rw [System.answered, hcall]
    rfl
  · exact hpark
  · exact hpc
  · exact h.mode
  · exact .inl rfl
  · exact haway
  · exact hunsent
  · exact hinbox
  · rfl
  · rfl
  rw [Call.ResumesWith, hpark]
  refine ⟨vals, rfl, ?_⟩
  rw [← hframe]
  rfl

/-- The own look of a hart for published values, however late. -/
theorem claimOwn (hclaims : s.claims ≠ 0) {t : Option Thread}
    (hclaim : s.thread.tryClaimOwnPending = some t) :
    Sound { s with thread := t.getD s.thread, claims := s.claims - 1 } := by
  unfold Thread.tryClaimOwnPending at hclaim
  split at hclaim
  · next hnone =>
    cases hclaim
    exact h.same ⟨rfl, rfl, rfl, rfl, rfl, rfl⟩ rfl rfl (fun hzero => absurd hzero hclaims) rfl rfl
  next rets hrets =>
  obtain ⟨t', ht', rfl⟩ := Option.map_eq_some_iff.mp hclaim
  obtain ⟨hparked, rfl⟩ := Thread.promoteReadyFromParked_eq ht'
  rcases h.call_cases with hno | ⟨c, hcall, hpark, hpc, hunsent, hinbox, hawait⟩
  · exact nomatch hrets.symm.trans (h.quiet hno).2
  cases hawait with
  | parking _ claims => exact absurd claims hclaims
  | parked state frame slot =>
    refine h.marshal hcall hpark state frame slot hrets ?_ ?_ ?_ ?_ _
    · exact ⟨rfl, rfl⟩
    · rfl
    · rfl
    · rfl
  | delivered _ _ pending => exact nomatch hrets.symm.trans pending

/-- A suspended thread has asked the manager nothing. -/
theorem noPark_of_suspended (hstate : s.thread.state = .suspended) :
    ∀ c ∈ s.call, c.outcome ≠ .parkForPublish := by
  rcases h.call_cases with hno | ⟨c, _, _, _, _, _, hawait⟩
  · exact hno
  cases hawait with
  | parking place =>
    exact nomatch hstate.symm.trans (h.runs_parking place)
  | parked state => exact nomatch hstate.symm.trans state
  | delivered state => rcases state with state | state <;> exact nomatch hstate.symm.trans state

/-- Values in the slot of a blocking thread are the answer to its call. -/
theorem slot_of_blocking (hstate : s.thread.state = .blocking)
    (hrets : s.thread.pending = some rets) : ∃ c, s.call = some c ∧
      c.outcome = .parkForPublish ∧ s.thread.frame = c.entry ∧ Slot s c := by
  rcases h.call_cases with hno | ⟨c, hcall, hpark, _, _, _, hawait⟩
  · exact nomatch hrets.symm.trans (h.quiet hno).2
  cases hawait with
  | parking place =>
    exact nomatch hstate.symm.trans (h.runs_parking place)
  | parked _ frame slot => exact ⟨c, hcall, hpark, frame, slot⟩
  | delivered _ _ pending => exact nomatch hrets.symm.trans pending

/-- A wake by the manager's scan. -/
theorem wake {reason : UInt64}
    (hwake : s.thread.setWakeReason reason = some t) : Sound { s with thread := t } := by
  -- the noted bits are nothing the call depends on
  have hnoted : Sound { s with
      thread := { s.thread with wakeOverride := s.thread.wakeOverride ||| reason } } :=
    h.same ⟨rfl, rfl, rfl, rfl, rfl, rfl⟩ rfl rfl id rfl rfl
  unfold Thread.setWakeReason at hwake
  dsimp only at hwake
  split at hwake
  · next hsuspended =>
    have hno := h.noPark_of_suspended hsuspended
    have hempty : ¬ s.thread.pending.isSome = true := by
      rw [(h.quiet hno).2]
      exact nofun
    rw [if_neg hempty] at hwake
    exact hnoted.promoteWake hno hwake s.inbox s.heap
  split at hwake
  · next hblocking =>
    obtain ⟨hstate, hsome⟩ := hblocking
    obtain ⟨rets, hrets⟩ := Option.isSome_iff_exists.mp hsome
    obtain ⟨c, hcall, hpark, hframe, hslot⟩ := h.slot_of_blocking hstate hrets
    obtain ⟨t', hres, rfl⟩ := Option.map_eq_some_iff.mp hwake
    simp only [Thread.resumePublished, hrets] at hres
    obtain ⟨t'', hprom, rfl⟩ := Option.map_eq_some_iff.mp hres
    obtain ⟨-, rfl⟩ := Thread.promoteReadyFromParked_eq hprom
    refine h.marshal hcall hpark hstate hframe hslot hrets ?_ ?_ ?_ ?_ s.claims
    · exact ⟨rfl, rfl⟩
    · rfl
    · rfl
    · rfl
  · cases hwake
    exact hnoted

end

theorem syscall_eq (hrun : s.thread.state = .running) (hallowed : commitAllowed s.thread = true)
    (outcome : SyscallOutcome) (regs : TrapFrame) (pc : UInt64) :
    s.syscall outcome regs pc = { s with
      thread := (applySyscallOutcome outcome s.thread regs pc).2.1
      asked := s.asked || decide (outcome = SyscallOutcome.parkForPublish)
      call := some ⟨outcome, pc, regs, none⟩
      place := .parking outcome.target } := by
  have hstate := (applySyscallOutcome_keeps outcome s.thread regs pc).2.1.trans hrun
  cases outcome <;>
    simp only [System.syscall, applySyscallOutcome, hallowed, Bool.not_true, Bool.false_eq_true,
      if_false, if_true, System.checkContextAndSwitch, SyscallOutcome.target] at hstate ⊢ <;>
    simp only [hstate]

/-- The commit of a syscall, up to the start of the park. -/
theorem syscall (h : Sound s) (hplace : s.place = .user regs pc)
    {outcome : SyscallOutcome} (hq : Settled s (.syscall outcome)) :
    Sound (s.syscall outcome regs pc) := by
  have hrun := h.runs_user hplace
  have hallowed : commitAllowed s.thread = true := by
    rw [commitAllowed, h.mode, hrun]
    rfl
  have hnone := h.running regs pc hplace
  obtain ⟨hasked, hpending⟩ := h.quiet (by rw [hnone]; exact nofun)
  obtain ⟨hpc, hframe⟩ := applySyscallOutcome_commits hallowed outcome regs pc
  obtain ⟨hmode, hstate, hslot⟩ := applySyscallOutcome_keeps outcome s.thread regs pc
  have halive : (applySyscallOutcome outcome s.thread regs pc).2.1.state ≠ .exited := by
    rw [hstate]
    exact h.alive
  have htarget : outcome.target ≠ .exited := by cases outcome <;> exact nofun
  rw [syscall_eq hrun hallowed]
  by_cases hpark : outcome = .parkForPublish
  · subst hpark
    obtain ⟨hunsent, hinbox, hclaims⟩ := hq
    refine parkCall rfl rfl hpc (hmode.trans h.mode) halive ?_ ?_ nofun hunsent hinbox ?_
    · exact ⟨fun _ => nofun, fun _ => hstate.trans hrun⟩
    · rintro _ ⟨⟩
      exact htarget
    · refine .parking rfl hclaims hframe (.inl ⟨?_, hslot.trans hpending⟩)
      exact Bool.or_true _
  refine
    { mode := hmode.trans h.mode
      alive := halive
      onHart := ⟨fun _ => nofun, fun _ => hstate.trans hrun⟩
      target := ?_
      quiet := fun _ => ⟨?_, hslot.trans hpending⟩
      running := nofun
      pc := ?_
      returned := ?_
      awaiting := ?_ }
  · rintro _ ⟨⟩
    exact htarget
  · rw [hasked, decide_eq_false hpark]
    rfl
  · rintro _ ⟨⟩
    exact hpc
  · rintro _ ⟨⟩ _
    exact hframe
  · rintro _ ⟨⟩ heq
    exact absurd heq hpark

theorem interrupt (h : Sound s) (hplace : s.place = .user regs pc) :
    Sound ({ s with
      thread := (updateTrapFrame s.thread pc regs true).1 } : System).checkContextAndSwitch := by
  have hrun := h.runs_user hplace
  have hnone := h.running regs pc hplace
  obtain ⟨hasked, hpending⟩ := h.quiet (by rw [hnone]; exact nofun)
  have hsaved : (updateTrapFrame s.thread pc regs true).1 =
      s.thread.saveTrapFrame { regs with asid := s.thread.pid.toUInt64 } pc := by
    simp [updateTrapFrame, h.mode, hrun, savable]
  rw [hsaved]
  have hstate : (s.thread.saveTrapFrame { regs with asid := s.thread.pid.toUInt64 } pc).state =
      .running := hrun
  simp only [System.checkContextAndSwitch, hstate]
  refine noCall h.mode h.alive ⟨fun _ => nofun, fun _ => hrun⟩ ?_ hasked hpending hnone
  rintro _ ⟨⟩
  exact nofun

/-- A thread that goes to park has asked the manager only if it goes to block. -/
theorem noPark_of_target (h : Sound s) (hplace : s.place = .parking target)
    (hne : target ≠ .blocking) : ∀ c ∈ s.call, c.outcome ≠ .parkForPublish := by
  have hrun := h.runs_parking hplace
  rcases h.call_cases with hno | ⟨c, _, _, _, _, _, hawait⟩
  · exact hno
  cases hawait with
  | parking place =>
    obtain ⟨⟩ := hplace.symm.trans place
    exact absurd rfl hne
  | parked state => exact nomatch hrun.symm.trans state
  | delivered state => rcases state with state | state <;> exact nomatch hrun.symm.trans state

theorem transitionTo_eq {t t' : Thread} (hrun : t.state = .running)
    (h : t.transitionTo target = some t') :
    t' = { t with state := target } ∧ target ≠ .running := by
  unfold Thread.transitionTo at h
  rw [hrun, if_neg nofun] at h
  split at h
  · next hallowed =>
    refine ⟨(Option.some.inj h).symm, ?_⟩
    rintro rfl
    cases hallowed
  · cases h

theorem park (h : Sound s) (hplace : s.place = .parking target)
    (hpark : s.exitThreadWithState target = some s') : Sound s' := by
  have hrun := h.runs_parking hplace
  have hexited := h.target target hplace
  unfold System.exitThreadWithState at hpark
  split at hpark
  · obtain ⟨t, ht, rfl⟩ := Option.map_eq_some_iff.mp hpark
    obtain ⟨rfl, -⟩ := transitionTo_eq
      (t := { s.thread with sleepSeq := s.thread.sleepSeq + 1 }) hrun ht
    exact h.unparked (h.noPark_of_target hplace nofun) ⟨rfl, rfl, rfl, rfl, rfl, rfl⟩ nofun
      ⟨nofun, fun hne => absurd rfl hne⟩ nofun nofun
  · obtain ⟨t, ht, rfl⟩ := Option.map_eq_some_iff.mp hpark
    obtain ⟨rfl, -⟩ := transitionTo_eq hrun ht
    rcases h.call_cases with hno | ⟨c, hcall, hcpark, hpc, hunsent, hinbox, hawait⟩
    · exact h.unparked hno ⟨rfl, rfl, rfl, rfl, rfl, rfl⟩ nofun
        ⟨nofun, fun hne => absurd rfl hne⟩ nofun nofun
    refine parkCall hcall hcpark hpc h.mode nofun ⟨nofun, fun hne => absurd rfl hne⟩ nofun nofun
      hunsent hinbox ?_
    cases hawait with
    | parking _ _ frame slot => exact .parked rfl frame slot
    | parked state => exact nomatch hrun.symm.trans state
    | delivered state => rcases state with state | state <;> exact nomatch hrun.symm.trans state
  next hsuspended hblocking =>
  obtain ⟨t, ht, rfl⟩ := Option.map_eq_some_iff.mp hpark
  obtain ⟨rfl, hne⟩ := transitionTo_eq hrun ht
  exact h.unparked (h.noPark_of_target hplace hblocking) ⟨rfl, rfl, rfl, rfl, rfl, rfl⟩ hexited
    ⟨fun hr => absurd hr hne, fun hn => absurd rfl hn⟩ nofun nofun

theorem assign (h : Sound s) (hready : s.thread.state = .ready) :
    Sound { s with thread := { s.thread with state := .assigned } } := by
  have haway : s.place = .away := h.away_of_state fun hrun => nomatch hready.symm.trans hrun
  rcases h.call_cases with hno | ⟨c, hcall, hpark, hpc, hunsent, hinbox, hawait⟩
  · exact h.unparked hno ⟨rfl, rfl, rfl, rfl, rfl, rfl⟩ nofun
      ⟨nofun, fun hne => absurd haway hne⟩ h.target h.running
  cases hawait with
  | parking place => exact nomatch haway.symm.trans place
  | parked state => exact nomatch hready.symm.trans state
  | delivered _ asked pending frame =>
    exact delivered hcall hpark hpc h.mode (.inr rfl) haway hunsent hinbox asked pending frame

/-- What the registers of a thread are that is about to be entered. -/
theorem resumes (h : Sound s) (hassigned : s.thread.state = .assigned) :
    s.asked = false ∧ s.thread.pending = none ∧
    ∀ c ∈ s.call, s.thread.pc = c.outcome.resumePc c.epc ∧ c.ResumesWith s.thread.frame := by
  rcases h.call_cases with hno | ⟨c, hcall, hpark, hpc, hunsent, hinbox, hawait⟩
  · refine ⟨(h.quiet hno).1, (h.quiet hno).2, fun c hc => ⟨h.pc c hc, ?_⟩⟩
    have hframe := h.returned c hc (hno c hc)
    unfold Call.ResumesWith
    split
    · next heq => exact absurd heq (hno c hc)
    · exact hframe
  cases hawait with
  | parking place =>
    exact nomatch hassigned.symm.trans (h.runs_parking place)
  | parked state => exact nomatch hassigned.symm.trans state
  | delivered _ asked pending frame =>
    refine ⟨asked, pending, fun c' hc' => ?_⟩
    obtain rfl := Option.some.inj (hcall.symm.trans hc')
    exact ⟨hpc, frame⟩

end Sound

theorem step_sound {s s' : System} {a : Action} (h : Sound s) (hq : Settled s a)
    (hfire : step s a = some s') : Sound s' := by
  cases a with
  | run regs pc =>
    simp only [step] at hfire
    split at hfire
    · next r p hplace =>
      cases hfire
      have hnone := h.running r p hplace
      obtain ⟨hasked, hpending⟩ := h.quiet (by rw [hnone]; exact nofun)
      have hrun := h.runs_user hplace
      exact .noCall h.mode h.alive ⟨fun _ => nofun, fun _ => hrun⟩ nofun hasked hpending hnone
    · cases hfire
  | interrupt =>
    simp only [step] at hfire
    split at hfire
    · next hplace =>
      cases hfire
      exact h.interrupt hplace
    · cases hfire
  | kernelTrap frame epc =>
    simp only [step] at hfire
    split at hfire
    · next hmode =>
      cases hfire
      rw [updateTrapFrame_gated (.inl (by rw [hmode]; exact nofun))]
      exact h
    · cases hfire
  | syscall outcome =>
    simp only [step] at hfire
    split at hfire
    · next hplace =>
      cases hfire
      exact h.syscall hplace hq
    · cases hfire
  | park =>
    simp only [step] at hfire
    split at hfire
    · next hplace => exact h.park hplace hfire
    · cases hfire
  | claimOwn =>
    simp only [step] at hfire
    split at hfire
    · cases hfire
    next hclaims =>
    obtain ⟨t, ht, rfl⟩ := Option.map_eq_some_iff.mp hfire
    exact h.claimOwn hclaims ht
  | pushNotice i =>
    obtain ⟨seq, hseq, rfl⟩ := Option.map_eq_some_iff.mp hfire
    rcases h.call_cases with hno | ⟨c, _, _, _, hunsent, _, _⟩
    · exact h.beside hno _ _ _ _
    · rw [hunsent] at hseq
      cases hseq
  | publish vals =>
    simp only [step] at hfire
    split at hfire
    · next hasked =>
      cases hfire
      exact h.publish hasked vals
    · cases hfire
  | resumeThread vals =>
    simp only [step] at hfire
    split at hfire
    · next hasked =>
      split at hfire
      · obtain ⟨t, ht, rfl⟩ := Option.map_eq_some_iff.mp hfire
        exact h.resumeThread hasked ht
      · cases hfire
        exact h.publish hasked vals
    · cases hfire
  | wake reason =>
    obtain ⟨t, ht, rfl⟩ := Option.map_eq_some_iff.mp hfire
    exact h.wake ht
  | drainNotice =>
    simp only [step] at hfire
    split at hfire
    · cases hfire
    next seq rest hseq =>
    have hno : ∀ c ∈ s.call, c.outcome ≠ .parkForPublish := by
      rcases h.call_cases with hno | ⟨c, _, _, _, _, hinbox, _⟩
      · exact hno
      · exact nomatch hseq.symm.trans hinbox
    split at hfire
    · split at hfire
      · obtain ⟨t, ht, rfl⟩ := Option.map_eq_some_iff.mp hfire
        exact h.promoteWake hno ht rest s.heap
      · cases hfire
        exact h.beside hno _ _ _ _
    · cases hfire
      exact h.beside hno _ _ _ _
  | timer seq =>
    simp only [step] at hfire
    split at hfire
    · split at hfire
      · next hlive =>
        obtain ⟨t, ht, rfl⟩ := Option.map_eq_some_iff.mp hfire
        exact h.promoteWake (h.noPark_of_suspended hlive.2) ht s.inbox _
      · cases hfire
        exact h.same ⟨rfl, rfl, rfl, rfl, rfl, rfl⟩ rfl rfl id rfl rfl
    · cases hfire
  | assign =>
    simp only [step] at hfire
    split at hfire
    · next hready =>
      cases hfire
      exact h.assign hready
    · cases hfire
  | enter =>
    simp only [step] at hfire
    split at hfire
    · next hassigned =>
      cases hfire
      obtain ⟨hasked, hpending, -⟩ := h.resumes hassigned
      exact .noCall h.mode nofun ⟨fun _ => nofun, fun _ => rfl⟩ nofun hasked hpending rfl
    · cases hfire

theorem Fresh.sound {s : System} (h : Fresh s) : Sound s := by
  refine .noCall h.mode ?_ ?_ ?_ h.asked h.pending h.call
  · rw [h.state]
    exact nofun
  · rw [h.state, h.place]
    exact ⟨nofun, fun hne => absurd rfl hne⟩
  · rw [h.place]
    exact nofun

/-- An outcome applied where it may be leaves the thread at its `ecall` or behind it with
the registers of the trap but for the return registers; elsewhere, and for a trap from
another mode, nothing is written. And from trap to trap: when every request to the
manager is made with the earlier parks over, the next entry after a committed call loads
exactly the registers and the pc the call is to be resumed with. -/
theorem syscall_resume_law (outcome : SyscallOutcome) (t : Thread) (frame : TrapFrame)
    (epc : UInt64) (fromUser : Bool) (s s' : System) :
    (commitAllowed t = true →
      (applySyscallOutcome outcome t frame epc).2.1.pc = outcome.resumePc epc ∧
      (applySyscallOutcome outcome t frame epc).2.1.frame = outcome.resumeFrame frame) ∧
    (commitAllowed t = false → (applySyscallOutcome outcome t frame epc).2.1 = t) ∧
    (decide (t.mode = .user) ≠ fromUser ∨ savable t.state = false →
      (updateTrapFrame t epc frame fromUser).1 = t) ∧
    (Reach step Settled Fresh s → step s .enter = some s' → ∀ c ∈ s.call,
      ∃ regs, s'.place = .user regs (c.outcome.resumePc c.epc) ∧ c.ResumesWith regs) := by
  refine ⟨fun h => applySyscallOutcome_commits h outcome frame epc, fun h => ?_,
    fun h => updateTrapFrame_gated h epc frame, fun run hfire c hc => ?_⟩
  · rw [applySyscallOutcome_gated h]
  have hsound : Sound s := by
    apply run.invariant
    · intro s hs
      exact hs.sound
    · intro s a s' hs hq hstep
      exact step_sound hs hq hstep
  simp only [step] at hfire
  split at hfire
  · next hassigned =>
    cases hfire
    obtain ⟨-, -, hcalls⟩ := hsound.resumes hassigned
    obtain ⟨hpc, hregs⟩ := hcalls c hc
    exact ⟨s.thread.frame, by rw [← hpc], hregs⟩
  · cases hfire

/-- A new user thread, all registers zero. -/
def newThread : System where
  thread := ⟨.user, .ready, 1, .empty, 0x1000, 0, 0, none, 0, 0⟩
  place := .away
  claims := 0
  unsent := []
  inbox := []
  heap := []
  asked := false
  call := none

theorem newThread_fresh : Fresh newThread := ⟨rfl, rfl, rfl, rfl, rfl, rfl, rfl, rfl, rfl⟩

/-- A call that the manager answers with 42 after the thread has parked. -/
theorem syscall_resume_law_published : ∃ s s' regs, Reach step Settled Fresh s ∧
    step s .enter = some s' ∧ s'.place = .user regs 0x1004 ∧ regs.regs a0 = 42 := by
  have hstart : Reach step Settled Fresh newThread := .start newThread_fresh
  obtain ⟨s, run, houtcome, hepc, hanswer, hassigned⟩ := hstart.exists_of_exec
    [.assign, .enter, .syscall .parkForPublish, .park, .claimOwn, .publish [42], .wake 1, .assign]
    (fun s => s.call.map (·.outcome) = some .parkForPublish ∧ s.call.map (·.epc) = some 0x1000 ∧
      s.call.bind (·.answer) = some [42] ∧ s.thread.state = .assigned) (by decide +kernel)
  cases hcall : s.call with
  | none => simp [hcall] at houtcome
  | some c =>
    simp only [hcall, Option.map_some, Option.some.injEq, Option.bind_some] at houtcome hepc hanswer
    have hfire : ∃ s', step s .enter = some s' := ⟨_, if_pos hassigned⟩
    obtain ⟨s', hfire⟩ := hfire
    obtain ⟨regs, hplace, hregs⟩ :=
      (syscall_resume_law c.outcome s.thread s.thread.frame c.epc true s s').2.2.2 run hfire c hcall
    rw [houtcome, hepc] at hplace
    rw [Call.ResumesWith, houtcome] at hregs
    obtain ⟨vals, hvals, rfl⟩ := hregs
    obtain rfl := Option.some.inj (hanswer.symm.trans hvals)
    exact ⟨s, s', _, run, hfire, hplace, rfl⟩

/-- The notice of a sleep arrives while the thread is blocked in a later call, and makes it
ready unanswered; the answer then comes while the thread waits for its doorbell, so the
`ecall` of `read_stdin` is executed again with another `a0`. -/
theorem late_notice_spoils_retry : ∃ s, Reach step (fun _ _ => True) Fresh s ∧
    s.thread.state = .assigned ∧ ∃ c, s.call = some c ∧ c.outcome = .retryOnDoorbell ∧
      s.thread.pc = c.epc ∧ s.thread.frame.regs a0 ≠ c.entry.regs a0 := by
  have hstart : Reach step (fun _ _ => True) Fresh newThread := .start newThread_fresh
  obtain ⟨s, run, hassigned, hcall⟩ := hstart.exists_of_exec
    [.assign, .enter, .syscall (.sleepUntil 100), .park, .wake 1, .assign, .enter, .wake 1,
      .syscall .parkForPublish, .park, .claimOwn, .pushNotice 0, .drainNotice, .assign, .enter,
      .syscall .retryOnDoorbell, .park, .publish [42], .wake 1, .assign]
    (fun s => s.thread.state = .assigned ∧ (s.call.any fun c => c.outcome = .retryOnDoorbell ∧
      s.thread.pc = c.epc ∧ s.thread.frame.regs a0 ≠ c.entry.regs a0) = true) (by decide +kernel)
  cases hc : s.call with
  | none => simp [hc] at hcall
  | some c =>
    rw [hc] at hcall
    exact ⟨s, run, hassigned, c, hc, of_decide_eq_true hcall⟩

end Orbit.Resume
