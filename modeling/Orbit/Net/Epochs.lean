import Orbit.Net.Sessions
import Orbit.Transition.Run

/-!
A user that follows the protocol and the kernel stay in one session. In each direction at
most one token is about: a slice in its ring, a slice in the user's hand or an increment in
its ring, all of the session the kernel is in. When a session ends the kernel resets its
indices first and the user after it.

The kernel may become active again before the user has reset its half. It then finds the
user's old index and takes what lies between for increments. Everything here is about runs
in which the kernel becomes active only when no reset is outstanding.
-/

namespace Orbit.Net

open Store Transition

variable {kernel : KernelPc} {count done : Nat}

variable {phase : ChannelPhase} {d : Direction} {slice : Slice} {u : UserPc}

/-- What the user is shown of a phase. -/
def ChannelPhase.state : ChannelPhase → ChannelState
  | .freshIdle => .idle
  | .listening | .connecting => .inFlight
  | .active => .active
  | .closing => .closing
  | .failed => .failed

/-- The phases before a session. -/
def ChannelPhase.before : ChannelPhase → Bool
  | .freshIdle | .listening | .connecting => true
  | _ => false

namespace UserPc

/-- The slice the user has in its hand. -/
def hand (u : UserPc) (d : Direction) : Option Slice :=
  match u with
  | .holding e slice => if e = d then some slice else none
  | _ => none

/-- `engaged` as the user has stored it. -/
def claims : UserPc → Bool
  | .opening | .session | .call _ | .holding _ _ => true
  | _ => false

def inSession : UserPc → Bool
  | .session | .call _ | .holding _ _ => true
  | _ => false

/-- From the disengage to the end of the reset. -/
def inWindow : UserPc → Bool
  | .waiting | .resetting _ => true
  | _ => false

/-- The user's index in the slice ring of the direction is reset. -/
def headReset (u : UserPc) (d : Direction) : Prop :=
  match u with
  | .waiting => False
  | .resetting done => match d with
    | .tx => 1 ≤ done
    | .rx => 3 ≤ done
  | _ => True

/-- The user's index in the increment ring of the direction is reset. -/
def tailReset (u : UserPc) (d : Direction) : Prop :=
  match u with
  | .waiting => False
  | .resetting done => match d with
    | .tx => 2 ≤ done
    | .rx => 4 ≤ done
  | _ => True

theorem hand_eq_none (h : u.inSession = false) (d : Direction) : u.hand d = none := by
  cases u <;> first | rfl | cases h

theorem reset_of_not_inWindow (h : u.inWindow = false) (d : Direction) :
    u.headReset d ∧ u.tailReset d := by
  cases u <;> first | exact ⟨trivial, trivial⟩ | cases h

end UserPc

/-- Where the token of a direction is. `lossy` says that a callback may have consumed nothing:
then it is gone. -/
inductive Lane.Token (l : Lane) (session : Nat) (lossy : Prop) : Option Slice → Prop where
  | free (hpending : l.pendingAck = false) (hslices : l.slices.Empty)
      (hincs : l.increments.Empty) : Token l session lossy none
  | staged (hpending : l.pendingAck = true) (hslices : l.slices.One ⟨l.stagedLen, session⟩)
      (hincs : l.increments.Empty) : Token l session lossy none
  | held (hpending : l.pendingAck = true) (hslices : l.slices.Empty)
      (hincs : l.increments.Empty) : Token l session lossy (some ⟨l.stagedLen, session⟩)
  | acked {count : Nat} (hpending : l.pendingAck = true) (hslices : l.slices.Empty)
      (hincs : l.increments.One ⟨count, session⟩) (hpos : 0 < count)
      (hle : count ≤ l.stagedLen) : Token l session lossy none
  | lost (hlossy : lossy) (hpending : l.pendingAck = true) (hslices : l.slices.Empty)
      (hincs : l.increments.Empty) : Token l session lossy none

theorem two_le_ringCap : 2 ≤ ringCap := by decide

/-- The slice ring has at most the slice of this session. -/
def Lane.Current (l : Lane) (session : Nat) : Prop :=
  l.slices.Empty ∨ ∃ len, l.slices.One ⟨len, session⟩

namespace Lane.Token

variable {l : Lane} {session : Nat} {lossy : Prop} {hand : Option Slice}

section

variable (h : l.Token session lossy hand)

include h

theorem current : l.Current session := by
  cases h with
  | staged _ hslices _ => exact .inr ⟨_, hslices⟩
  | free _ hslices _ | held _ hslices _ | acked _ hslices _ _ _ | lost _ _ hslices _ =>
    exact .inl hslices

/-- The next increment, if there is one, is of this session and within the slice. -/
theorem dequeue :
    l.increments.dequeue = none ∨ hand = none ∧ l.slices.Empty ∧ l.pendingAck = true ∧
      ∃ count ring, l.increments.dequeue = some (⟨count, session⟩, ring) ∧ ring.Empty ∧
        0 < count ∧ count ≤ l.stagedLen := by
  cases h with
  | acked hpending hslices hincs hpos hle =>
    obtain ⟨ring, hdeq, hempty⟩ := hincs.dequeue two_le_ringCap
    exact .inr ⟨rfl, hslices, hpending, _, ring, hdeq, hempty, hpos, hle⟩
  | free _ _ hincs | staged _ _ hincs | held _ _ hincs | lost _ _ _ hincs =>
    exact .inl hincs.dequeue

/-- The kernel stages a slice when it waits for no increment. -/
theorem offer (hpending : l.pendingAck = false) (len : Nat) :
    hand = none ∧ Token { l with
      slices := l.slices.enqueue ⟨len, session⟩
      pendingAck := true
      stagedLen := len } session lossy none := by
  cases h with
  | free _ hslices hincs =>
    exact ⟨rfl, .staged rfl (hslices.enqueue two_le_ringCap _) hincs⟩
  | staged hp _ _ | held hp _ _ | acked hp _ _ _ _ | lost _ hp _ _ =>
    rw [hpending] at hp
    cases hp

end

/-- The user takes the slice; what it had in its hand it has returned before. -/
theorem take (h : l.Token session lossy none) {ring : Spsc ringCap Slice}
    (hdeq : l.slices.dequeue = some (slice, ring)) : slice.session = session ∧ ring.Empty ∧
      Token { l with slices := ring } session lossy (some slice) := by
  cases h with
  | staged hpending hslices hincs =>
    obtain ⟨ring', hdeq', hempty⟩ := hslices.dequeue two_le_ringCap
    rw [hdeq] at hdeq'
    obtain ⟨rfl, rfl⟩ : slice = _ ∧ ring = ring' := by simpa using hdeq'
    exact ⟨rfl, hempty, .held hpending hempty hincs⟩
  | free _ hslices _ | acked _ hslices _ _ _ | lost _ _ hslices _ =>
    rw [hslices.dequeue] at hdeq
    cases hdeq

/-- The user returns the slice it holds. -/
theorem give (h : l.Token session lossy (some slice)) (hpos : 0 < count) (hle : count ≤ slice.len) :
    Token { l with increments := l.increments.enqueue ⟨count, slice.session⟩ } session lossy
      none := by
  cases h with
  | held hpending hslices hincs =>
    exact .acked hpending hslices (hincs.enqueue two_le_ringCap _) hpos hle

/-- The user drops the slice it holds. -/
theorem drop (h : l.Token session lossy (some slice)) (hlossy : lossy) :
    l.Token session lossy none := by
  cases h with
  | held hpending hslices hincs => exact .lost hlossy hpending hslices hincs

end Lane.Token

/-- Both sides are in the same session, or between two. -/
structure Good (s : Shared) : Prop where
  state : s.state = s.phase.state
  kernel : s.kernel ≠ .idle → s.phase = .active
  edge : s.kernel = .edge → s.user = .waiting ∧ s.lastEngaged = false
  closing : s.phase = .closing → s.user = .waiting
  claims : s.engaged = s.user.claims
  edgeDue : s.lastEngaged = true → s.engaged = false →
    s.phase = .failed ∨ s.user = .waiting ∧ s.phase = .active
  session : s.user.inSession = true → s.phase = .active ∨ s.phase = .failed
  resetting : ∀ done, s.user = .resetting done → s.phase ≠ .active
  active : s.phase = .active → ∀ d, (s.lane d).Token s.session True (s.user.hand d)
  before : s.phase.before = true → ∀ d, (s.lane d).pendingAck = false ∧
    (s.lane d).slices.tail = 0 ∧ (s.lane d).increments.head = 0 ∧
    (s.user.headReset d → (s.lane d).slices.head = 0) ∧
    (s.user.tailReset d → (s.lane d).increments.tail = 0)
  failed : s.phase = .failed → s.user.inSession = true → ∀ d, (s.lane d).Current s.session
  bogus : s.bogus = false
  consumed : ∀ e ∈ s.consumed, e.1 = e.2
  taken : ∀ e ∈ s.taken, e.1 = e.2

namespace Good

variable {s s' : Shared}

theorem of_create (bind : BindSpec) : Good (.create bind) := by
  constructor <;> simp [Shared.create, ChannelPhase.state, UserPc.claims, UserPc.inSession,
    Shared.freshLane, Spsc.new]

/-- Between two sessions nobody is in one. -/
theorem not_inSession (h : Good s) (hbefore : s.phase.before = true) :
    s.user.inSession = false := by
  cases hin : s.user.inSession with
  | false => rfl
  | true =>
    rcases h.session hin with hphase | hphase <;> rw [hphase] at hbefore <;> cases hbefore

/-- `s'` differs from `s` only in the phases before a session. -/
structure Moved (s s' : Shared) : Prop where
  lane : s'.lane = s.lane
  engaged : s'.engaged = s.engaged
  lastEngaged : s'.lastEngaged = s.lastEngaged
  user : s'.user = s.user
  session : s'.session = s.session
  bogus : s'.bogus = s.bogus
  consumed : s'.consumed = s.consumed
  taken : s'.taken = s.taken
  kernel : s.kernel = .idle → s'.kernel = .idle
  state : s.state = s.phase.state → s'.state = s'.phase.state
  phase : s'.phase = s.phase ∨
    s.phase.before = true ∧ (s'.phase.before = true ∨ s'.phase = .active ∨ s'.phase = .failed)

namespace Moved

theorem refl (s : Shared) : Moved s s :=
  ⟨rfl, rfl, rfl, rfl, rfl, rfl, rfl, rfl, id, id, .inl rfl⟩

theorem trans {s'' : Shared} (h : Moved s s') (h' : Moved s' s'') : Moved s s'' := by
  refine ⟨h'.lane.trans h.lane, h'.engaged.trans h.engaged, h'.lastEngaged.trans h.lastEngaged,
    h'.user.trans h.user, h'.session.trans h.session, h'.bogus.trans h.bogus,
    h'.consumed.trans h.consumed, h'.taken.trans h.taken, fun hk => h'.kernel (h.kernel hk),
    fun hs => h'.state (h.state hs), ?_⟩
  rcases h.phase with heq | ⟨hbefore, hto⟩
  · rw [← heq]
    exact h'.phase
  rcases h'.phase with heq' | ⟨-, hto'⟩
  · rw [heq']
    exact .inr ⟨hbefore, hto⟩
  · exact .inr ⟨hbefore, hto'⟩

/-- A new phase, with the retry times that go with it. -/
theorem setPhase (hbefore : s.phase.before = true)
    (hto : phase.before = true ∨ phase = .active ∨ phase = .failed) {backoffMs nextAt : Nat}
    (hkernel : s.kernel = .idle → kernel = .idle) :
    Moved s { s with
      phase
      state := phase.state
      backoffMs
      nextAttemptAtUs := nextAt
      kernel } :=
  ⟨rfl, rfl, rfl, rfl, rfl, rfl, rfl, rfl, hkernel, fun _ => rfl, .inr ⟨hbefore, hto⟩⟩

theorem inPhase {f : Shared → Shared}
    (hf : ∀ s : Shared, s.phase = phase → Moved s (f s)) (s : Shared) :
    Moved s (s.inPhase phase f) := by
  unfold Shared.inPhase
  split
  · next h => exact hf s h
  · exact refl s

variable (v : SocketView)

include v

theorem arm (nowUs : Nat) (hphase : s.phase = .freshIdle) :
    Moved s (s.arm v nowUs) := by
  have hbefore : s.phase.before = true := by rw [hphase]; rfl
  unfold Shared.arm
  split
  · split
    · exact setPhase hbefore (.inl rfl) id
    · exact setPhase hbefore (.inr (.inr rfl)) fun _ => rfl
  · split
    · exact setPhase hbefore (.inl rfl) id
    · exact setPhase hbefore (.inr (.inr rfl)) fun _ => rfl
  · split
    · exact refl s
    split
    · exact setPhase hbefore (.inl rfl) id
    · exact ⟨rfl, rfl, rfl, rfl, rfl, rfl, rfl, rfl, id, id, .inl rfl⟩
  split
  · split
    · exact setPhase hbefore (.inl rfl) id
    · exact setPhase hbefore (.inr (.inr rfl)) fun _ => rfl
  · exact refl s

theorem listening (hphase : s.phase = .listening) : Moved s (s.listening v) := by
  have hbefore : s.phase.before = true := by rw [hphase]; rfl
  unfold Shared.listening
  split
  · exact setPhase hbefore (.inr (.inl rfl)) id
  · exact refl s

theorem connecting (nowUs : Nat) (hphase : s.phase = .connecting) :
    Moved s (s.connecting v nowUs) := by
  have hbefore : s.phase.before = true := by rw [hphase]; rfl
  unfold Shared.connecting
  split
  · exact setPhase hbefore (.inr (.inl rfl)) id
  split
  · split
    · exact setPhase hbefore (.inr (.inr rfl)) fun _ => rfl
    · exact setPhase hbefore (.inl rfl) id
    · exact refl s
  · exact refl s

theorem advance (nowUs : Nat) (s : Shared) : Moved s (s.advance v nowUs) := by
  refine (inPhase (fun _ h => arm v nowUs h) s).trans ?_
  refine (inPhase (fun _ h => listening v h) _).trans ?_
  exact inPhase (fun _ h => connecting v nowUs h) _

end Moved

section

variable (h : Good s)

include h

/-- Rings whose four indices are zero hold nothing. -/
theorem token_of_before (hbefore : s.phase.before = true)
    (hwindow : s.user.inWindow = false) (d : Direction) :
    (s.lane d).Token s.session True (s.user.hand d) := by
  obtain ⟨hpending, htail, hhead, hslices, hincs⟩ := h.before hbefore d
  obtain ⟨hheadReset, htailReset⟩ := UserPc.reset_of_not_inWindow hwindow d
  rw [UserPc.hand_eq_none (h.not_inSession hbefore)]
  exact .free hpending ((hslices hheadReset).trans htail.symm) (hhead.trans (hincs htailReset).symm)

theorem moved (hm : Moved s s') (hidle : s.kernel = .idle)
    (hclear : s.user.inWindow = true → s'.phase = .active → s.phase = .active) : Good s' := by
  have hidle' := hm.kernel hidle
  -- a phase outside those before a session is left alone
  have hsame : s.phase.before = false → s'.phase = s.phase := by
    intro hnot
    rcases hm.phase with heq | ⟨hbefore, -⟩
    · exact heq
    · rw [hnot] at hbefore
      cases hbefore
  constructor
  · exact hm.state h.state
  · exact fun hne => absurd hidle' hne
  · intro hedge
    rw [hidle'] at hedge
    cases hedge
  · intro hclosing
    rw [hm.user]
    rcases hm.phase with heq | ⟨-, hb | ha | hf⟩
    · exact h.closing (heq ▸ hclosing)
    · rw [hclosing] at hb
      cases hb
    · rw [hclosing] at ha
      cases ha
    · rw [hclosing] at hf
      cases hf
  · rw [hm.engaged, hm.user]
    exact h.claims
  · rw [hm.lastEngaged, hm.engaged, hm.user]
    intro hl he
    rcases h.edgeDue hl he with hf | ⟨hw, ha⟩
    · exact .inl ((hsame (by rw [hf]; rfl)).trans hf)
    · exact .inr ⟨hw, (hsame (by rw [ha]; rfl)).trans ha⟩
  · rw [hm.user]
    intro hin
    rcases h.session hin with ha | hf
    · exact .inl ((hsame (by rw [ha]; rfl)).trans ha)
    · exact .inr ((hsame (by rw [hf]; rfl)).trans hf)
  · rw [hm.user]
    intro done hu ha
    exact h.resetting done hu (hclear (by rw [hu]; rfl) ha)
  · intro ha d
    rw [hm.lane, hm.session, hm.user]
    cases hb : s.phase.before with
    | true =>
      apply h.token_of_before hb
      cases hw : s.user.inWindow with
      | false => rfl
      | true =>
        rw [hclear hw ha] at hb
        cases hb
    | false => exact h.active ((hsame hb).symm.trans ha) d
  · intro hb d
    rw [hm.lane, hm.user]
    rcases hm.phase with heq | ⟨hbefore, -⟩
    · exact h.before (heq ▸ hb) d
    · exact h.before hbefore d
  · rw [hm.user, hm.lane, hm.session]
    intro hf hin d
    rcases h.session hin with ha | hf'
    · have hphase := hsame (by rw [ha]; rfl)
      rw [ha, hf] at hphase
      cases hphase
    · exact h.failed hf' hin d
  · exact hm.bogus.trans h.bogus
  · rw [hm.consumed]
    exact h.consumed
  · rw [hm.taken]
    exact h.taken

/-- The kernel goes on within an active session. -/
theorem goto (hactive : s.phase = .active) {pc : KernelPc} (hpc : pc ≠ .edge) :
    Good { s with kernel := pc } :=
  { h with kernel := fun _ => hactive, edge := fun he => absurd he hpc }

theorem txGate (hactive : s.phase = .active) (v : SocketView) : Good (s.txGate v) := by
  unfold Shared.txGate
  split
  · exact h.goto hactive (by simp)
  · exact h.goto hactive (by simp)

theorem rxGate (hactive : s.phase = .active) (v : SocketView) : Good (s.rxGate v) := by
  unfold Shared.rxGate
  split
  · exact h.goto hactive (by simp)
  · exact h.txGate hactive v

/-- The kernel loads `engaged`. -/
theorem load : Good { s with lastEngaged := s.engaged } := by
  refine { h with edge := fun hedge => ?_, edgeDue := fun hl he => ?_ }
  · have huser := (h.edge hedge).1
    refine ⟨huser, ?_⟩
    rw [h.claims, huser]
    rfl
  · rw [he] at hl
    cases hl

/-- The end of the disengage edge: the user waits. -/
theorem toClosing (huser : s.user = .waiting) (hl : s.lastEngaged = false) :
    Good s.toClosing := by
  have hin : s.user.inSession = false := by rw [huser]; rfl
  constructor
  · rfl
  · exact fun hne => absurd rfl hne
  · intro hedge
    cases hedge
  · exact fun _ => huser
  · exact h.claims
  · intro hl'
    have hl'' : s.lastEngaged = true := hl'
    rw [hl] at hl''
    cases hl''
  · intro hs
    have hs' : s.user.inSession = true := hs
    rw [hin] at hs'
    cases hs'
  · intro done _ ha
    cases ha
  · intro ha
    cases ha
  · intro hb
    cases hb
  · intro hf
    cases hf
  · exact h.bogus
  · exact h.consumed
  · exact h.taken

/-- The kernel has reset its half; the user waits and has not reset its own. -/
theorem recycled (huser : s.user = .waiting) (hl : s.lastEngaged = false)
    (hphase : phase.before = true ∨ phase = .failed)
    (hidle : kernel = .idle) (backoffMs nextAt : Nat) :
    Good { s.resetKernelSide with
      phase
      state := phase.state
      kernel
      backoffMs
      nextAttemptAtUs := nextAt } := by
  have hin : s.user.inSession = false := by rw [huser]; rfl
  have hnot : phase ≠ .active ∧ phase ≠ .closing := by
    constructor
    · rintro rfl
      rcases hphase with hb | hf
      · cases hb
      · cases hf
    rintro rfl
    rcases hphase with hb | hf
    · cases hb
    · cases hf
  constructor
  · rfl
  · exact fun hne => absurd hidle hne
  · intro hedge
    have hedge' : kernel = .edge := hedge
    rw [hidle] at hedge'
    cases hedge'
  · exact fun _ => huser
  · exact h.claims
  · intro hl'
    have hl'' : s.lastEngaged = true := hl'
    rw [hl] at hl''
    cases hl''
  · intro hs
    have hs' : s.user.inSession = true := hs
    rw [hin] at hs'
    cases hs'
  · exact fun _ _ ha => hnot.1 ha
  · exact fun ha => absurd ha hnot.1
  · intro _ d
    refine ⟨rfl, rfl, rfl, fun hr => ?_, fun hr => ?_⟩
    · have hr' : s.user.headReset d := hr
      rw [huser] at hr'
      cases hr'
    have hr' : s.user.tailReset d := hr
    rw [huser] at hr'
    cases hr'
  · intro _ hs
    have hs' : s.user.inSession = true := hs
    rw [hin] at hs'
    cases hs'
  · exact h.bogus
  · exact h.consumed
  · exact h.taken

theorem closing_step (huser : s.user = .waiting) (hidle : s.kernel = .idle)
    (hl : s.lastEngaged = false) (v : SocketView) : Good (s.closing v) := by
  have hfail : Good s.resetKernelSide.fail := h.recycled huser hl (.inr rfl) rfl _ _
  unfold Shared.closing
  split
  · unfold Shared.rebind
    split
    · split
      · exact h.recycled huser hl (.inl rfl) hidle _ _
      · exact hfail
    · exact h.recycled huser hl (.inl rfl) hidle _ _
    · exact hfail
    · exact hfail
  · exact h

theorem begin (hidle : s.kernel = .idle) (v : SocketView) (nowUs : Nat)
    (hclear : s.user.inWindow = true → (s.begin v nowUs).phase = .active → s.phase = .active) :
    Good (s.begin v nowUs) := by
  have hload := h.load
  unfold Shared.begin at hclear ⊢
  dsimp only at hclear ⊢
  split
  · exact hload
  next hnf =>
  rw [if_neg hnf] at hclear
  split
  · next hedge =>
    simp only [Bool.and_eq_true, Bool.not_eq_true', decide_eq_true_eq] at hedge
    obtain ⟨⟨hl, he⟩, ha⟩ := hedge
    have huser : s.user = .waiting := by
      rcases h.edgeDue hl he with hf | ⟨hw, -⟩
      · exact absurd hf hnf
      · exact hw
    split
    · exact { hload with kernel := fun _ => ha, edge := fun _ => ⟨huser, he⟩ }
    · exact hload.toClosing huser he
  next hedge =>
  rw [if_neg hedge] at hclear
  split
  · next hclosing =>
    have huser := h.closing hclosing
    have he : s.engaged = false := by
      rw [h.claims, huser]
      rfl
    exact hload.closing_step huser hidle he v
  next hclosing =>
  rw [if_neg hclosing] at hclear
  have hm := Moved.advance v nowUs { s with lastEngaged := s.engaged }
  have hmoved : Good (Shared.advance v nowUs { s with lastEngaged := s.engaged }) := by
    apply hload.moved hm hidle
    intro hw ha
    rw [if_pos ha] at hclear
    apply hclear hw
    unfold Shared.rxGate Shared.txGate
    split <;> exact ha
  split
  · next ha => exact hmoved.rxGate ha v
  · exact hmoved

/-- The kernel changes a lane of an active session. -/
theorem setLane (hactive : s.phase = .active) {l : Lane}
    (htoken : l.Token s.session True (s.user.hand d)) : Good (s.setLane d l) := by
  have hnot : s.phase.before = false := by rw [hactive]; rfl
  refine { h with active := ?_, before := ?_, failed := ?_ }
  · intro _ e
    by_cases he : e = d
    · subst he
      simpa [Shared.setLane] using htoken
    · simpa [Shared.setLane, he] using h.active hactive e
  · intro hb
    have hb' : s.phase.before = true := hb
    rw [hnot] at hb'
    cases hb'
  intro hf
  have hf' : s.phase = .failed := hf
  rw [hactive] at hf'
  cases hf'

end

theorem setLane_twice (s : Shared) (d : Direction) (l l' : Lane) (consumed : List (Nat × Nat)) :
    Shared.setLane { s.setLane d l with consumed } d l' =
      { s.setLane d l' with consumed } := by
  simp only [Shared.setLane]
  congr 1
  funext e
  split
  · rfl
  · rfl

theorem consume (h : Good s) (n : Nat) : Good { s with consumed := (n, n) :: s.consumed } := by
  refine { h with consumed := fun e he => ?_ }
  rcases List.mem_cons.mp he with rfl | he
  · rfl
  · exact h.consumed e he

/-- The socket fails the channel in an active session. -/
theorem fail (h : Good s) (hactive : s.phase = .active) : Good s.fail := by
  constructor
  · rfl
  · exact fun hne => absurd rfl hne
  · intro hedge
    cases hedge
  · intro hc
    cases hc
  · exact h.claims
  · exact fun _ _ => .inl rfl
  · exact fun _ => .inr rfl
  · intro _ _ ha
    cases ha
  · intro ha
    cases ha
  · intro hb
    cases hb
  · exact fun _ _ d => (h.active hactive d).current
  · exact h.bogus
  · exact h.consumed
  · exact h.taken

/-- One turn of a drain. -/
theorem drain (h : Good s) (hactive : s.phase = .active) (d : Direction) (ok : Bool)
    {done : Shared → Shared} (hdone : Good (done s)) : Good (s.drain d ok done) := by
  have htoken := h.active hactive d
  rcases htoken.dequeue with hnone |
    ⟨hhand, hslices, hpending, count, ring, hdeq, hempty, hpos, hle⟩
  · simp only [Shared.drain, hnone]
    exact hdone
  have hgood : ¬ ((s.lane d).pendingAck = false ∨ count = 0 ∨ (s.lane d).stagedLen < count) := by
    rw [hpending]
    rintro (hp | hz | hlt)
    · cases hp
    · omega
    · omega
  simp only [Shared.drain, hdeq, if_neg hgood]
  split
  · have hset : Good (s.setLane d { s.lane d with
        increments := ring, pendingAck := false, stagedLen := 0 }) := by
      apply h.setLane hactive
      rw [hhand]
      exact .free rfl hslices hempty
    rw [setLane_twice]
    exact hset.consume s.session
  have hset : Good (s.setLane d { s.lane d with increments := ring }) := by
    apply h.setLane hactive
    rw [hhand]
    exact .lost trivial hpending hslices hempty
  exact (hset.consume s.session).fail hactive

theorem offer (h : Good s) (hactive : s.phase = .active)
    (hpending : (s.lane d).pendingAck = false) (len : Nat) : Good (s.offer d len) := by
  unfold Shared.offer
  split
  · exact h
  obtain ⟨hhand, htoken⟩ := (h.active hactive d).offer hpending len
  apply h.setLane hactive
  rw [hhand]
  exact htoken

theorem offer_phase (d : Direction) (len : Nat) : (s.offer d len).phase = s.phase := by
  unfold Shared.offer
  split <;> rfl

section

variable (h : Good s)

include h

theorem kernelStep (v : SocketView) (nowUs : Nat)
    (hclear : s.user.inWindow = true → (s.kernelStep v nowUs).phase = .active →
      s.phase = .active) : Good (s.kernelStep v nowUs) := by
  unfold Shared.kernelStep at hclear ⊢
  cases hpc : s.kernel with
  | idle =>
    rw [hpc] at hclear
    exact h.begin hpc v nowUs hclear
  | edge =>
    have hactive := h.kernel (by rw [hpc]; simp)
    obtain ⟨huser, hl⟩ := h.edge hpc
    exact h.drain hactive .tx true (h.toClosing huser hl)
  | drain d =>
    have hactive := h.kernel (by rw [hpc]; simp)
    cases d with
    | rx => exact h.drain hactive .rx v.recvOk (h.goto hactive (by simp))
    | tx => exact h.drain hactive .tx v.sendOk (h.goto hactive (by simp))
  | stage d =>
    have hactive := h.kernel (by rw [hpc]; simp)
    cases d with
    | rx =>
      dsimp only
      split
      · exact h.txGate hactive v
      next hp =>
      have hoffer := h.offer hactive (d := .rx) (by simpa using hp) v.nextRx
      exact hoffer.txGate ((offer_phase _ _).trans hactive) v
    | tx =>
      dsimp only
      split
      · next hp =>
        have hp' : (s.lane .tx).pendingAck = false := by
          simp only [Bool.and_eq_true, Bool.not_eq_true'] at hp
          exact hp.2
        have hoffer := h.offer hactive hp' v.nextTx
        exact hoffer.goto ((offer_phase _ _).trans hactive) (by simp)
      · exact h.goto hactive (by simp)

/-- The user goes on; its hand, what it has reset and its session stay what they were. -/
theorem userGoto {engaged : Bool}
    (hwaiting : s.user ≠ .waiting) (hclaims : engaged = u.claims)
    (hdue : s.lastEngaged = true → engaged = false → s.phase = .failed)
    (hsession : u.inSession = true → s.phase = .active ∨ s.phase = .failed)
    (hcurrent : u.inSession = true → s.phase = .failed → s.user.inSession = true)
    (hwindow : u.inWindow = false) (hold : s.user.inWindow = false)
    (hhand : ∀ d, u.hand d = none) (hhand' : ∀ d, s.user.hand d = none) :
    Good { s with user := u, engaged } := by
  constructor
  · exact h.state
  · exact h.kernel
  · exact fun hedge => absurd (h.edge hedge).1 hwaiting
  · exact fun hc => absurd (h.closing hc) hwaiting
  · exact hclaims
  · exact fun hl he => .inl (hdue hl he)
  · exact hsession
  · intro done hu
    have hu' : u = .resetting done := hu
    rw [hu'] at hwindow
    cases hwindow
  · intro ha d
    have htoken := h.active ha d
    rw [hhand' d] at htoken
    simpa [hhand d] using htoken
  · intro hb d
    obtain ⟨hp, ht, hh, hr, hr'⟩ := h.before hb d
    obtain ⟨hres, hres'⟩ := UserPc.reset_of_not_inWindow hold d
    exact ⟨hp, ht, hh, fun _ => hr hres, fun _ => hr' hres'⟩
  · exact fun hf hin => h.failed hf (hcurrent hin hf)
  · exact h.bogus
  · exact h.consumed
  · exact h.taken

/-- The session is dropped. -/
theorem disengage (huser : s.user = .session) :
    Good { s with engaged := false, user := .waiting } := by
  have hphase := h.session (by rw [huser]; rfl)
  have hnot : s.phase.before = false := by
    rcases hphase with ha | hf
    · rw [ha]
      rfl
    · rw [hf]
      rfl
  constructor
  · exact h.state
  · exact h.kernel
  · intro hedge
    have hw := (h.edge hedge).1
    rw [huser] at hw
    cases hw
  · exact fun _ => rfl
  · rfl
  · intro _ _
    rcases hphase with ha | hf
    · exact .inr ⟨rfl, ha⟩
    · exact .inl hf
  · intro hin
    cases hin
  · intro done hu
    cases hu
  · intro ha d
    have htoken := h.active ha d
    rw [huser] at htoken
    exact htoken
  · intro hb
    have hb' : s.phase.before = true := hb
    rw [hnot] at hb'
    cases hb'
  · intro _ hin
    cases hin
  · exact h.bogus
  · exact h.consumed
  · exact h.taken

/-- The drop sees that the kernel has left the session. -/
theorem wait (huser : s.user = .waiting) (hactive : s.phase ≠ .active)
    (hclosing : s.phase ≠ .closing) : Good { s with user := .resetting 0 } := by
  constructor
  · exact h.state
  · exact h.kernel
  · exact fun hedge => absurd (h.kernel (by rw [hedge]; simp)) hactive
  · exact fun hc => absurd hc hclosing
  · rw [h.claims, huser]
    rfl
  · intro hl he
    rcases h.edgeDue hl he with hf | ⟨-, ha⟩
    · exact .inl hf
    · exact absurd ha hactive
  · intro hin
    cases hin
  · exact fun _ _ => hactive
  · exact fun ha => absurd ha hactive
  · intro hb d
    obtain ⟨hp, ht, hh, -, -⟩ := h.before hb d
    refine ⟨hp, ht, hh, fun hr => ?_, fun hr => ?_⟩
    · cases d <;> simp [UserPc.headReset] at hr
    · cases d <;> simp [UserPc.tailReset] at hr
  · intro _ hin
    cases hin
  · exact h.bogus
  · exact h.consumed
  · exact h.taken

/-- A store of the user's reset. -/
theorem resetStore (huser : s.user = .resetting done)
    {lane : Direction → Lane} (hclaims : u.claims = false) (hin : u.inSession = false)
    (hkernel : ∀ d, (lane d).pendingAck = (s.lane d).pendingAck ∧
      (lane d).slices.tail = (s.lane d).slices.tail ∧
      (lane d).increments.head = (s.lane d).increments.head)
    (hhead : ∀ d, u.headReset d → (lane d).slices.head = 0 ∨
      s.user.headReset d ∧ (lane d).slices.head = (s.lane d).slices.head)
    (htail : ∀ d, u.tailReset d → (lane d).increments.tail = 0 ∨
      s.user.tailReset d ∧ (lane d).increments.tail = (s.lane d).increments.tail) :
    Good { s with lane, user := u } := by
  have hactive := h.resetting done huser
  have hclosing : s.phase ≠ .closing := by
    intro hc
    have hw := h.closing hc
    rw [huser] at hw
    cases hw
  have hengaged : s.engaged = false := by
    rw [h.claims, huser]
    rfl
  constructor
  · exact h.state
  · exact h.kernel
  · exact fun hedge => absurd (h.kernel (by rw [hedge]; simp)) hactive
  · exact fun hc => absurd hc hclosing
  · exact hengaged.trans hclaims.symm
  · intro hl he
    rcases h.edgeDue hl he with hf | ⟨-, ha⟩
    · exact .inl hf
    · exact absurd ha hactive
  · intro hs
    have hs' : u.inSession = true := hs
    rw [hin] at hs'
    cases hs'
  · exact fun _ _ => hactive
  · exact fun ha => absurd ha hactive
  · intro hb d
    obtain ⟨hp, ht, hh, hr, hr'⟩ := h.before hb d
    obtain ⟨hkp, hkt, hkh⟩ := hkernel d
    refine ⟨hkp.trans hp, hkt.trans ht, hkh.trans hh, fun hu => ?_, fun hu => ?_⟩
    · rcases hhead d hu with hz | ⟨hold, heq⟩
      · exact hz
      · exact heq.trans (hr hold)
    rcases htail d hu with hz | ⟨hold, heq⟩
    · exact hz
    · exact heq.trans (hr' hold)
  · intro _ hs
    have hs' : u.inSession = true := hs
    rw [hin] at hs'
    cases hs'
  · exact h.bogus
  · exact h.consumed
  · exact h.taken

theorem resetUserSide (huser : s.user = .resetting done) :
    Good (s.resetUserSide done) := by
  unfold Shared.resetUserSide
  dsimp only
  split
  · apply h.resetStore huser rfl rfl
    · intro d
      cases d <;> exact ⟨rfl, rfl, rfl⟩
    · intro d hd
      cases d with
      | tx => exact .inl rfl
      | rx => simp [UserPc.headReset] at hd
    · intro d hd
      cases d <;> simp [UserPc.tailReset] at hd
  · apply h.resetStore huser rfl rfl
    · intro d
      cases d <;> exact ⟨rfl, rfl, rfl⟩
    · intro d hd
      cases d with
      | tx => exact .inr ⟨by rw [huser]; exact Nat.le_refl 1, rfl⟩
      | rx => simp [UserPc.headReset] at hd
    intro d hd
    cases d with
    | tx => exact .inl rfl
    | rx => simp [UserPc.tailReset] at hd
  · apply h.resetStore huser rfl rfl
    · intro d
      cases d <;> exact ⟨rfl, rfl, rfl⟩
    · intro d hd
      cases d with
      | tx => exact .inr ⟨by rw [huser]; exact Nat.le_succ 1, rfl⟩
      | rx => exact .inl rfl
    intro d hd
    cases d with
    | tx => exact .inr ⟨by rw [huser]; exact Nat.le_refl 2, rfl⟩
    | rx => simp [UserPc.tailReset] at hd
  next h0 h1 h2 =>
  have hdone : 3 ≤ done := by
    rcases done with _ | _ | _ | done
    · exact absurd rfl h0
    · exact absurd rfl h1
    · exact absurd rfl h2
    · omega
  apply h.resetStore huser rfl rfl
  · intro d
    cases d <;> exact ⟨rfl, rfl, rfl⟩
  · intro d _
    cases d with
    | tx => exact .inr ⟨by rw [huser]; exact Nat.le_trans (by decide) hdone, rfl⟩
    | rx => exact .inr ⟨by rw [huser]; exact hdone, rfl⟩
  intro d _
  cases d with
  | tx => exact .inr ⟨by rw [huser]; exact Nat.le_trans (by decide) hdone, rfl⟩
  | rx => exact .inl rfl

/-- The user changes its lane and its hand within a session. -/
theorem userLane (hin : s.user.inSession = true)
    (hin' : u.inSession = true) {l : Lane} {taken : List (Nat × Nat)}
    (hother : ∀ e, e ≠ d → u.hand e = s.user.hand e)
    (htoken : s.phase = .active → l.Token s.session True (u.hand d))
    (hcurrent : s.phase = .failed → l.Current s.session) (htaken : ∀ e ∈ taken, e.1 = e.2) :
    Good { s.setLane d l with user := u, taken } := by
  have hphase := h.session hin
  have hwaiting : s.user ≠ .waiting := by
    intro hw
    rw [hw] at hin
    cases hin
  have hclaims : s.user.claims = true ∧ u.claims = true := by
    constructor
    · cases hu : s.user <;> rw [hu] at hin <;> first | rfl | cases hin
    · cases u <;> first | rfl | cases hin'
  constructor
  · exact h.state
  · exact h.kernel
  · exact fun hedge => absurd (h.edge hedge).1 hwaiting
  · exact fun hc => absurd (h.closing hc) hwaiting
  · exact h.claims.trans (hclaims.1.trans hclaims.2.symm)
  · intro _ he
    have he' : s.engaged = false := he
    rw [h.claims, hclaims.1] at he'
    cases he'
  · exact fun _ => hphase
  · intro done hu
    have hu' : u = .resetting done := hu
    rw [hu'] at hin'
    cases hin'
  · intro ha e
    by_cases he : e = d
    · subst he
      simpa [Shared.setLane] using htoken ha
    have hold := h.active ha e
    rw [← hother e he] at hold
    simpa [Shared.setLane, he] using hold
  · intro hb
    have hb' : s.phase.before = true := hb
    rcases hphase with ha | hf
    · rw [ha] at hb'
      cases hb'
    · rw [hf] at hb'
      cases hb'
  · intro hf _ e
    by_cases he : e = d
    · subst he
      simpa [Shared.setLane] using hcurrent hf
    · simpa [Shared.setLane, he] using h.failed hf hin e
  · exact h.bogus
  · exact h.consumed
  · exact htaken

end

theorem setLane_self (s : Shared) (d : Direction) : s.setLane d (s.lane d) = s := by
  have hlane : (fun e => if e = d then s.lane d else s.lane e) = s.lane := by
    funext e
    split
    · next he => rw [he]
    · rfl
  rw [Shared.setLane, hlane]

/-- The user changes its hand and leaves the rings alone. -/
theorem userHand (h : Good s) (hin : s.user.inSession = true)
    (hin' : u.inSession = true) (hother : ∀ e, e ≠ d → u.hand e = s.user.hand e)
    (htoken : s.phase = .active → (s.lane d).Token s.session True (u.hand d)) :
    Good { s with user := u } := by
  have hset := h.userLane hin hin' hother htoken (fun hf => h.failed hf hin d) h.taken
  rw [setLane_self] at hset
  exact hset

theorem take (h : Good s) (huser : s.user = .call d) : Good (s.take d) := by
  have hin : s.user.inSession = true := by rw [huser]; rfl
  have hhand : ∀ e, s.user.hand e = none := fun e => by rw [huser]; rfl
  have hback : Good { s with user := .session } := by
    apply h.userHand hin rfl (d := d)
    · exact fun e _ => (hhand e).symm
    intro ha
    have htoken := h.active ha d
    rw [hhand d] at htoken
    exact htoken
  unfold Shared.take
  dsimp only
  split
  · exact hback
  split
  · exact hback
  next slice ring hdeq =>
  have hcurrent : (s.lane d).Current s.session := by
    rcases h.session hin with ha | hf
    · exact (h.active ha d).current
    · exact h.failed hf hin d
  -- the slice ring has just this slice
  obtain ⟨hsession, hempty⟩ : slice.session = s.session ∧ ring.Empty := by
    rcases hcurrent with hempty | ⟨len, hone⟩
    · rw [hempty.dequeue] at hdeq
      cases hdeq
    obtain ⟨ring', hdeq', hempty⟩ := hone.dequeue two_le_ringCap
    rw [hdeq] at hdeq'
    obtain ⟨rfl, rfl⟩ : slice = _ ∧ ring = ring' := by simpa using hdeq'
    exact ⟨rfl, hempty⟩
  apply h.userLane hin
  · rfl
  · intro e he
    rw [hhand e]
    exact if_neg (Ne.symm he)
  · intro ha
    have htoken := h.active ha d
    rw [hhand d] at htoken
    have hheld := (htoken.take hdeq).2.2
    simpa [UserPc.hand] using hheld
  · exact fun _ => .inl hempty
  intro e he
  rcases List.mem_cons.mp he with rfl | he
  · exact hsession
  · exact h.taken e he

theorem give (h : Good s) (huser : s.user = .holding d slice)
    (hle : count ≤ slice.len) : Good (s.give d slice count) := by
  have hin : s.user.inSession = true := by rw [huser]; rfl
  have hother : ∀ e, e ≠ d → UserPc.session.hand e = s.user.hand e := by
    intro e he
    rw [huser]
    exact (if_neg (Ne.symm he)).symm
  have hheld : s.phase = .active → (s.lane d).Token s.session True (some slice) := by
    intro ha
    have htoken := h.active ha d
    rw [huser] at htoken
    simpa [UserPc.hand] using htoken
  unfold Shared.give
  split
  · apply h.userHand hin rfl hother
    exact fun ha => (hheld ha).drop trivial
  next hne =>
  apply h.userLane hin
  · rfl
  · exact hother
  · exact fun ha => (hheld ha).give (Nat.pos_of_ne_zero hne) hle
  · exact fun hf => h.failed hf hin d
  · exact h.taken

/-- A state shows its phase. -/
theorem phase_of_state (h : Good s) (hs : s.state = phase.state)
    (hphase : phase = .active ∨ phase = .closing ∨ phase = .failed) : s.phase = phase := by
  have heq := h.state.symm.trans hs
  rcases hphase with rfl | rfl | rfl <;> cases hp : s.phase <;> rw [hp] at heq <;>
    first | rfl | cases heq

end Good

/-- The action makes the channel active. -/
def Shared.activates (s : Shared) : SessionAction → Bool
  | .kernel v nowUs => s.phase ≠ .active && (s.kernelStep v nowUs).phase = .active
  | _ => false

/-- The condition: the channel does not become active between a user's disengage and the end
of its reset. -/
def ActivationClear (s : Shared) (a : SessionAction) : Prop :=
  s.user.inWindow = true → s.activates a = false

instance (s : Shared) (a : SessionAction) : Decidable (ActivationClear s a) :=
  inferInstanceAs (Decidable (_ → _))

theorem Good.step {s s' : Shared} (h : Good s) {a : SessionAction} (hclear : ActivationClear s a)
    (hstep : s.step a = some s') : Good s' := by
  cases a with
  | kernel v nowUs =>
    cases hstep
    apply h.kernelStep
    intro hw ha
    have hnot := hclear hw
    simp only [Shared.activates, ha, decide_true, Bool.and_true, decide_eq_false_iff_not,
      not_not] at hnot
    exact hnot
  | engage =>
    simp only [Shared.step] at hstep
    split at hstep
    · next huser =>
      cases hstep
      apply h.userGoto
      · rw [huser]
        simp
      · rfl
      · intro _ he
        cases he
      · intro hin
        cases hin
      · intro hin
        cases hin
      · rfl
      · rw [huser]
        rfl
      · exact fun _ => rfl
      · rw [huser]
        exact fun _ => rfl
    · cases hstep
  | look =>
    simp only [Shared.step] at hstep
    split at hstep
    · next huser =>
      split at hstep
      · next hstate =>
        cases hstep
        have ha : s.phase = .active := h.phase_of_state hstate (.inl rfl)
        apply h.userGoto
        · rw [huser]
          simp
        · rw [h.claims, huser]
          rfl
        · intro _ he
          rw [h.claims, huser] at he
          cases he
        · exact fun _ => .inl ha
        · intro _ hf
          rw [ha] at hf
          cases hf
        · rfl
        · rw [huser]
          rfl
        · exact fun _ => rfl
        · rw [huser]
          exact fun _ => rfl
      · next hstate =>
        cases hstep
        have hf : s.phase = .failed := h.phase_of_state hstate (.inr (.inr rfl))
        apply h.userGoto
        · rw [huser]
          simp
        · rfl
        · exact fun _ _ => hf
        · intro hin
          cases hin
        · intro hin
          cases hin
        · rfl
        · rw [huser]
          rfl
        · exact fun _ => rfl
        · rw [huser]
          exact fun _ => rfl
      · cases hstep
        exact h
    · cases hstep
  | call d =>
    simp only [Shared.step] at hstep
    split at hstep
    · next huser =>
      cases hstep
      split
      · apply h.userHand (d := d)
        · rw [huser]
          rfl
        · rfl
        · rw [huser]
          exact fun _ _ => rfl
        intro ha
        have htoken := h.active ha d
        rw [huser] at htoken
        exact htoken
      · exact h
    · cases hstep
  | take =>
    simp only [Shared.step] at hstep
    split at hstep
    · next d huser =>
      cases hstep
      exact h.take huser
    · cases hstep
  | give count =>
    simp only [Shared.step] at hstep
    split at hstep
    · next d slice huser =>
      split at hstep
      · next hle =>
        cases hstep
        exact h.give huser hle
      · cases hstep
    · cases hstep
  | disengage =>
    simp only [Shared.step] at hstep
    split at hstep
    · next huser =>
      cases hstep
      exact h.disengage huser
    · cases hstep
  | wait =>
    simp only [Shared.step] at hstep
    split at hstep
    · next huser =>
      split at hstep
      · cases hstep
        exact h
      · cases hstep
        exact h
      next hna hnc =>
      cases hstep
      apply h.wait huser
      · intro ha
        exact hna (h.state.trans (congrArg ChannelPhase.state ha))
      · intro hc
        exact hnc (h.state.trans (congrArg ChannelPhase.state hc))
    · cases hstep
  | reset =>
    simp only [Shared.step] at hstep
    split at hstep
    · next done huser =>
      cases hstep
      exact h.resetUserSide huser
    · cases hstep

/-- In every run in which the channel becomes active only when no user's reset is outstanding,
the kernel never fails it for an increment out of protocol, and whatever the kernel consumes
and the user takes is of the session they are in. -/
theorem protocol_user_never_failed {s : Shared}
    (run : Reach Shared.step ActivationClear (fun s => ∃ bind, s = .create bind) s) :
    s.bogus = false ∧ (∀ e ∈ s.consumed, e.1 = e.2) ∧ ∀ e ∈ s.taken, e.1 = e.2 := by
  have h : Good s := by
    apply run.invariant
    · rintro _ ⟨bind, rfl⟩
      exact .of_create bind
    · exact fun _ _ _ h hclear hs => h.step hclear hs
  exact ⟨h.bogus, h.consumed, h.taken⟩

/-- A socket that is not connected. -/
def quiet : SocketView := ⟨false, false, 0, false, true, true, true, true, 0, 0⟩

/-- A socket with a peer and five bytes received. -/
def connected : SocketView := ⟨true, true, 5, false, true, true, true, true, 5, 0⟩

/-- A socket whose connection has ended. -/
def closed : SocketView := ⟨false, false, 0, true, true, true, true, true, 0, 0⟩

/-- A session of a server: five bytes are received and read, the session is dropped, the
kernel recycles the channel and the user sees that it has. -/
def oneSession : List SessionAction :=
  [.kernel quiet 0, .engage] ++ List.replicate 5 (.kernel connected 0) ++
  [.look, .call .rx, .take, .give 5, .disengage] ++ List.replicate 2 (.kernel connected 0) ++
  [.kernel closed 0, .wait]

/-- The user resets its half, and a second session begins. -/
def secondSession : List SessionAction :=
  oneSession ++ List.replicate 4 .reset ++ [.engage] ++ List.replicate 5 (.kernel connected 0) ++
  [.look, .call .rx, .take, .give 5] ++ List.replicate 2 (.kernel connected 0)

theorem protocol_user_never_failed_second : ∃ s,
    Reach Shared.step ActivationClear (fun s => ∃ bind, s = .create bind) s ∧
      s.session = 1 ∧ s.consumed = [(1, 1)] ∧ s.taken = [(1, 1), (0, 0)] ∧ s.bogus = false := by
  have hstart : Reach Shared.step ActivationClear (fun s => ∃ bind, s = .create bind)
      (.create (.serverRetain 80)) := .start ⟨_, rfl⟩
  obtain ⟨s, run, hsession, hconsumed, htaken⟩ := hstart.exists_of_exec secondSession
    (fun s : Shared => s.session = 1 ∧ s.consumed = [(1, 1)] ∧ s.taken = [(1, 1), (0, 0)])
    (by decide +kernel)
  exact ⟨s, run, hsession, hconsumed, htaken, (protocol_user_never_failed run).1⟩

/-- A peer connects before the user has reset its half: the kernel consumes an increment of the
earlier session and fails the channel. -/
theorem early_peer_fails_channel : ∃ s,
    Reach Shared.step (fun _ _ => True) (fun s => ∃ bind, s = .create bind) s ∧
      s.phase = .failed ∧ s.bogus = true ∧ s.consumed = [(0, 1)] := by
  have hstart : Reach Shared.step (fun _ _ => True) (fun s => ∃ bind, s = .create bind)
      (.create (.serverRetain 80)) := .start ⟨_, rfl⟩
  exact hstart.exists_of_exec (oneSession ++ List.replicate 2 (.kernel connected 0))
    (fun s : Shared => s.phase = .failed ∧ s.bogus = true ∧ s.consumed = [(0, 1)])
    (by decide +kernel)

end Orbit.Net
