import Orbit.Net.Channel
import Orbit.Mem.Windows

/-!
Whatever the user writes to the region and whatever the socket answers: a poll
acknowledges a slice it has staged and not acknowledged, with a count between one and
its length, and touches only fields whose place follows from the size of the region.
-/

namespace Orbit.Net

variable {q : Poll}

inductive Ring where
  | slices
  | increments
  deriving DecidableEq, Repr

namespace Ring

def offset : Ring → Nat
  | .slices => Poll.slicesOff
  | .increments => Poll.incrementsOff

def slotSize : Ring → Nat
  | .slices => 16
  | .increments => 8

end Ring

/-- What the kernel touches in a region. -/
inductive Field where
  | engaged
  | state
  | peerAddr
  | peerPort
  | failCause
  | head (d : Direction) (r : Ring)
  | tail (d : Direction) (r : Ring)
  | slot (d : Direction) (r : Ring) (i : Fin 16)
  | avail (d : Direction)
  deriving DecidableEq, Repr

/-- Where the queue of a direction starts in a region of a size. -/
def queueStart (size : Nat) : Direction → Nat
  | .tx => ncTxOff
  | .rx => ncTxOff + queueLenFor size

namespace Field

def offset (size : Nat) : Field → Nat
  | .engaged => ncDesiredOff
  | .state => ncCurrentOff
  | .peerAddr => ncCurrentOff + 4
  | .peerPort => ncCurrentOff + 8
  | .failCause => ncCurrentOff + 12
  | .head d r => queueStart size d + r.offset
  | .tail d r => queueStart size d + r.offset + 8
  | .slot d r i => queueStart size d + r.offset + 16 + i * r.slotSize
  | .avail d => queueStart size d + Poll.availOff

def len : Field → Nat
  | .engaged | .state | .peerAddr | .failCause => 4
  | .peerPort => 2
  | .head _ _ | .tail _ _ | .avail _ => 8
  | .slot _ r _ => r.slotSize

/-- Every field lies in the region. -/
theorem inside {size : Nat} (hsize : Mem.ncMinRegionSize ≤ size) (f : Field) :
    f.offset size + f.len ≤ size := by
  have hmin : 4096 ≤ size := hsize
  have hqueue : ∀ d, queueStart size d + queueHeader ≤ size := by
    intro d
    cases d with
    | rx =>
      simp only [queueStart, queueLenFor, ncTxOff, queueHeader]
      omega
    | tx =>
      simp only [queueStart, ncTxOff, queueHeader]
      omega
  have hring : ∀ (r : Ring) (i : Fin 16), r.offset + 16 + i * r.slotSize + r.slotSize ≤ 416 := by
    intro r i
    have hi := i.isLt
    cases r with
    | slices =>
      simp only [Ring.offset, Ring.slotSize, Poll.slicesOff]
      omega
    | increments =>
      simp only [Ring.offset, Ring.slotSize, Poll.incrementsOff]
      omega
  have hslot : ∀ r : Ring, r.offset + 16 ≤ 416 := by
    intro r
    cases r <;> decide
  cases f with
  | engaged | state | peerAddr | peerPort | failCause =>
    simp only [offset, len, ncDesiredOff, ncCurrentOff]
    omega
  | head d r | tail d r =>
    have hd := hqueue d
    have hr := hslot r
    simp only [offset, len, queueHeader] at *
    omega
  | slot d r i =>
    have hd := hqueue d
    have hr := hring r i
    simp only [offset, len, queueHeader] at *
    omega
  | avail d =>
    have hd := hqueue d
    simp only [offset, len, queueHeader, Poll.availOff] at *
    omega

end Field

/-- The slice of a direction that is staged and not acknowledged, read off the trace. -/
def outstanding (d : Direction) : List Event → Option Nat
  | [] => none
  | .staged d' len :: rest => if d' = d then some len else outstanding d rest
  | .ack d' _ :: rest => if d' = d then none else outstanding d rest
  | .recycled :: _ => none
  | .touch _ _ :: rest => outstanding d rest

/-- Every acknowledgement is of an outstanding slice, by one byte or more and no more
than its length. -/
def Honest : List Event → Prop
  | [] => True
  | .ack d count :: rest =>
    (∃ len, outstanding d rest = some len ∧ 1 ≤ count ∧ count ≤ len) ∧ Honest rest
  | _ :: rest => Honest rest

/-- Every access is to a field of a region of this size. -/
def Confined (size : Nat) (events : List Event) : Prop :=
  ∀ offset len, .touch offset len ∈ events → ∃ f : Field, offset = f.offset size ∧ len = f.len

namespace Poll

/-- What the kernel's own record says of the trace. A channel that has failed is not looked
at again, and may have failed in the middle of an acknowledgement. -/
structure Good (size : Nat) (p : Poll) : Prop where
  queueLen : p.ctx.queueLen = queueLenFor size
  staged : p.ctx.phase ≠ .failed → ∀ d, p.pending d = true →
    outstanding d p.events = some (p.stagedLen d)
  honest : Honest p.events
  confined : Confined size p.events

variable {size : Nat} {p : Poll}

theorem pending_congr (h : q.ctx = p.ctx) (d : Direction) : q.pending d = p.pending d := by
  cases d <;> simp only [Poll.pending, h]

theorem stagedLen_congr (h : q.ctx = p.ctx) (d : Direction) :
    q.stagedLen d = p.stagedLen d := by
  cases d <;> simp only [Poll.stagedLen, h]

namespace Good

theorem init (bind : BindSpec) (size : Nat) : (Poll.init bind size).Good size := by
  refine ⟨rfl, ?_, trivial, nofun⟩
  intro _ d hd
  cases d <;> cases hd

section

variable (h : p.Good size)

include h

theorem queueBase (d : Direction) : p.queueBase d = queueStart size d := by
  cases d with
  | tx => rfl
  | rx => simp only [Poll.queueBase, queueStart, h.queueLen]

/-- An access to a field. -/
theorem touch (f : Field) (hctx : q.ctx = p.ctx)
    (hevents : q.events = .touch (f.offset size) f.len :: p.events) : q.Good size := by
  constructor
  · rw [hctx]
    exact h.queueLen
  · intro hphase d hd
    rw [hevents, stagedLen_congr hctx d]
    rw [pending_congr hctx d] at hd
    rw [hctx] at hphase
    exact h.staged hphase d hd
  · rw [hevents]
    exact h.honest
  intro offset len hin
  rw [hevents] at hin
  rcases List.mem_cons.mp hin with heq | hold
  · cases heq
    exact ⟨f, rfl, rfl⟩
  · exact h.confined offset len hold

theorem load (w : World) (f : Field) :
    (p.load w (f.offset size) f.len).2.Good size := h.touch f rfl rfl

theorem store (f : Field) : (p.store (f.offset size) f.len).Good size :=
  h.touch f rfl rfl

/-- A change to the context that leaves the staging and the layout alone, and does not
revive a channel that has failed. -/
theorem setCtx (hqueue : q.ctx.queueLen = p.ctx.queueLen)
    (hphase : q.ctx.phase ≠ .failed → p.ctx.phase ≠ .failed)
    (hrx : q.ctx.pendingRxAck = p.ctx.pendingRxAck) (htx : q.ctx.pendingTxAck = p.ctx.pendingTxAck)
    (hrxLen : q.ctx.stagedRxLen = p.ctx.stagedRxLen)
    (htxLen : q.ctx.stagedTxLen = p.ctx.stagedTxLen) (hevents : q.events = p.events) :
    q.Good size := by
  constructor
  · rw [hqueue]
    exact h.queueLen
  · intro hlive d hd
    rw [hevents]
    cases d with
    | rx =>
      simp only [Poll.pending, hrx] at hd
      simp only [Poll.stagedLen, hrxLen]
      exact h.staged (hphase hlive) .rx hd
    | tx =>
      simp only [Poll.pending, htx] at hd
      simp only [Poll.stagedLen, htxLen]
      exact h.staged (hphase hlive) .tx hd
  · rw [hevents]
    exact h.honest
  · rw [hevents]
    exact h.confined

theorem ask (w : World) : (p.ask w).2.Good size :=
  h.setCtx rfl id rfl rfl rfl rfl rfl

theorem setPhase (hlive : p.ctx.phase ≠ .failed) (phase : ChannelPhase) :
    (p.setPhase phase).Good size :=
  h.setCtx rfl (fun _ => hlive) rfl rfl rfl rfl rfl

theorem setState : p.setState.Good size :=
  (h.store .state).setCtx rfl id rfl rfl rfl rfl rfl

/-- A channel may fail at any point. -/
theorem fail : p.fail.Good size := by
  have hstored := (h.store .failCause).setState
  exact hstored.setCtx rfl (fun hlive => absurd rfl hlive) rfl rfl rfl rfl rfl

theorem scheduleRetry (nowUs : Nat) : (p.scheduleRetry nowUs).Good size :=
  h.setCtx rfl id rfl rfl rfl rfl rfl

theorem dequeueIncrement (w : World) (d : Direction) :
    (p.dequeueIncrement w d).2.Good size ∧ (p.dequeueIncrement w d).2.ctx = p.ctx := by
  have hbase := h.queueBase d
  have hhead := h.load w (.head d .increments)
  have htail := hhead.load w (.tail d .increments)
  simp only [Poll.dequeueIncrement, hbase, loadIndex]
  split
  · exact ⟨htail, rfl⟩
  -- the index is masked, so the slot is one of the ring whatever was loaded
  have hi : w.memory p.loads % 2 ^ (8 * 8) % 16 < 16 := Nat.mod_lt _ (by decide)
  have hslot := htail.load w (.slot d .increments ⟨_, hi⟩)
  exact ⟨hslot.store (.head d .increments), rfl⟩

theorem enqueueSlice (w : World) (d : Direction) :
    (p.enqueueSlice w d).Good size ∧ (p.enqueueSlice w d).ctx = p.ctx := by
  have hbase := h.queueBase d
  have htail := h.load w (.tail d .slices)
  have hhead := htail.load w (.head d .slices)
  simp only [Poll.enqueueSlice, hbase, loadIndex]
  split
  · exact ⟨hhead, rfl⟩
  have hi : w.memory p.loads % 2 ^ (8 * 8) % 16 < 16 := Nat.mod_lt _ (by decide)
  have hslot := hhead.store (.slot d .slices ⟨_, hi⟩)
  exact ⟨hslot.store (.tail d .slices), rfl⟩

theorem slicesIsEmpty (w : World) (d : Direction) :
    (p.slicesIsEmpty w d).2.Good size := by
  have hbase := h.queueBase d
  have hhead := h.load w (.head d .slices)
  simp only [Poll.slicesIsEmpty, hbase, loadIndex]
  exact hhead.load w (.tail d .slices)

/-- The socket is handed a count within the staged slice. From here on the slice is either
done with, or the channel has failed. -/
theorem ack (hlive : p.ctx.phase ≠ .failed) {d : Direction} {count : Nat}
    (hpending : p.pending d = true) (hpos : count ≠ 0) (hle : count ≤ p.stagedLen d)
    (hqueue : q.ctx.queueLen = p.ctx.queueLen) (hdone : q.ctx.phase ≠ .failed → q.pending d = false)
    (hother : ∀ d', d' ≠ d → q.pending d' = p.pending d' ∧ q.stagedLen d' = p.stagedLen d')
    (hevents : q.events = .ack d count :: p.events) : q.Good size := by
  have hslice := h.staged hlive d hpending
  constructor
  · rw [hqueue]
    exact h.queueLen
  · intro hlive' d' hd'
    have hne : d' ≠ d := by
      rintro rfl
      rw [hdone hlive'] at hd'
      cases hd'
    obtain ⟨hp, hs⟩ := hother d' hne
    rw [hevents, hs, outstanding, if_neg (Ne.symm hne)]
    rw [hp] at hd'
    exact h.staged hlive d' hd'
  · rw [hevents]
    exact ⟨⟨p.stagedLen d, hslice, Nat.pos_of_ne_zero hpos, hle⟩, h.honest⟩
  intro offset len hin
  rw [hevents] at hin
  rcases List.mem_cons.mp hin with heq | hold
  · cases heq
  · exact h.confined offset len hold

end

/-- Staging for one direction does not show in the other. -/
theorem setStaged_other (q : Poll) {d d' : Direction} (hne : d' ≠ d) (b : Bool) (n : Nat) :
    (q.setStaged d b n).pending d' = q.pending d' ∧
      (q.setStaged d b n).stagedLen d' = q.stagedLen d' := by
  cases d with
  | rx =>
    cases d' with
    | rx => exact absurd rfl hne
    | tx => exact ⟨rfl, rfl⟩
  | tx =>
    cases d' with
    | rx => exact ⟨rfl, rfl⟩
    | tx => exact absurd rfl hne

theorem setStaged_self (q : Poll) (d : Direction) (b : Bool) (n : Nat) :
    (q.setStaged d b n).pending d = b ∧ (q.setStaged d b n).stagedLen d = n ∧
      (q.setStaged d b n).ctx.queueLen = q.ctx.queueLen ∧
      (q.setStaged d b n).ctx.phase = q.ctx.phase ∧ (q.setStaged d b n).events = q.events := by
  cases d with
  | rx => exact ⟨rfl, rfl, rfl, rfl, rfl⟩
  | tx => exact ⟨rfl, rfl, rfl, rfl, rfl⟩

/-- The drain keeps what is known, however many increments the user makes up. -/
theorem drain (w : World) (d : Direction) (atEdge : Bool) (fuel : Nat) {p : Poll}
    (h : p.Good size) (hlive : p.ctx.phase ≠ .failed) :
    (Poll.drain w d atEdge fuel p).Good size := by
  induction fuel generalizing p with
  | zero => exact h
  | succ fuel ih =>
    obtain ⟨hdeq, hctx⟩ := h.dequeueIncrement w d
    rw [Poll.drain]
    generalize p.dequeueIncrement w d = r at hdeq hctx
    obtain ⟨count?, q⟩ := r
    have hlive' : q.ctx.phase ≠ .failed := by
      rw [hctx]
      exact hlive
    cases count? with
    | none => exact hdeq
    | some count =>
      simp only
      split
      · exact hdeq.fail
      next hok =>
      have hpending : q.pending d = true := by
        cases hq : q.pending d with
        | true => rfl
        | false => exact absurd (.inl hq) hok
      have hpos : count ≠ 0 := fun hz => hok (.inr (.inl hz))
      have hle : count ≤ q.stagedLen d := Nat.le_of_not_lt fun hlt => hok (.inr (.inr hlt))
      split
      · obtain ⟨hself, -, hq, hp, he⟩ :=
          setStaged_self ((q.note (.ack d count)).ask w).2 d false 0
        apply ih
        · apply hdeq.ack hlive' hpending hpos hle hq (fun _ => hself) _ he
          intro d' hne
          obtain ⟨hpd, hsl⟩ :=
            setStaged_other ((q.note (.ack d count)).ask w).2 hne false 0
          rw [hpd, hsl]
          cases d' <;> exact ⟨rfl, rfl⟩
        · rw [hp]
          exact hlive'
      -- the socket refused: the record is kept as it is, and the channel fails
      have hack : (((q.note (.ack d count)).ask w).2.setPhase .failed).Good size := by
        apply Good.ack (q := ((q.note (.ack d count)).ask w).2.setPhase .failed) hdeq hlive'
          hpending hpos hle
        · rfl
        · intro hno
          exact absurd rfl hno
        · intro d' _
          cases d' <;> exact ⟨rfl, rfl⟩
        · rfl
      have hfail := hack.fail
      exact hfail.setCtx rfl id rfl rfl rfl rfl rfl

variable (h : p.Good size)

include h

/-- A slice put before the user while none is outstanding. -/
theorem stage (w : World) (d : Direction) : (Poll.stage w d p).Good size := by
  have hasked := h.ask w
  simp only [Poll.stage]
  split
  · exact hasked
  obtain ⟨henq, hctx⟩ := hasked.enqueueSlice w d
  have hstored := henq.store (.avail d)
  have hbase := hasked.queueBase d
  rw [hbase]
  generalize hq : ((p.ask w).2.enqueueSlice w d).store (queueStart size d + availOff) 8 = q
  have hgood : q.Good size := hq ▸ hstored
  obtain ⟨hself, hlen, hqueue, hphase, hevents⟩ :=
    setStaged_self q d true (p.ask w).1.nextLen
  constructor
  · show (q.setStaged d true (p.ask w).1.nextLen).ctx.queueLen = _
    rw [hqueue]
    exact hgood.queueLen
  · intro hlive d' hd'
    have hlive' : q.ctx.phase ≠ .failed := by
      rw [← hphase]
      exact hlive
    show outstanding d' (.staged d _ :: (q.setStaged d true _).events) =
      some ((q.setStaged d true (p.ask w).1.nextLen).stagedLen d')
    rcases Classical.em (d' = d) with rfl | hne
    · rw [outstanding, if_pos rfl, hlen]
    obtain ⟨hpd, hsl⟩ := setStaged_other q hne true (p.ask w).1.nextLen
    have hpend : (q.setStaged d true (p.ask w).1.nextLen).pending d' = true := by
      cases d' <;> exact hd'
    rw [hpd] at hpend
    rw [outstanding, if_neg (Ne.symm hne), hevents, hsl]
    exact hgood.staged hlive' d' hpend
  · show Honest (q.setStaged d true _).events
    rw [hevents]
    exact hgood.honest
  intro offset len hin
  have hin' : Event.touch offset len ∈
      .staged d (p.ask w).1.nextLen :: (q.setStaged d true (p.ask w).1.nextLen).events := hin
  rcases List.mem_cons.mp hin' with heq | hold
  · cases heq
  · rw [hevents] at hold
    exact hgood.confined offset len hold

theorem drainAll (hlive : p.ctx.phase ≠ .failed) (w : World) (d : Direction)
    (atEdge : Bool) : (p.drainAll w d atEdge).Good size := drain w d atEdge 2 h hlive

theorem resetKernelSide :
    p.resetKernelSide.Good size ∧ p.resetKernelSide.ctx = p.ctx := by
  have htx := h.queueBase .tx
  have hrx := h.queueBase .rx
  have h1 := (h.store (.tail .tx .slices)).store (.head .tx .increments)
  have h2 := (h1.store (.tail .rx .slices)).store (.head .rx .increments)
  have h3 := (h2.store (.avail .tx)).store (.avail .rx)
  refine ⟨?_, rfl⟩
  simp only [Poll.resetKernelSide, htx, hrx]
  exact h3

theorem publishPeer (w : World) :
    (p.publishPeer w).Good size ∧ (p.publishPeer w).ctx = p.ctx := by
  have hasked := h.ask w
  simp only [Poll.publishPeer]
  split
  · have hstored := (hasked.store .peerAddr).store .peerPort
    exact ⟨(hstored.load w .peerAddr).load w .peerPort, rfl⟩
  · exact ⟨(hasked.load w .peerAddr).load w .peerPort, rfl⟩

theorem disengage (hlive : p.ctx.phase ≠ .failed) (w : World) :
    (p.disengage w).Good size := by
  have hasked := h.ask w
  have hdrained : (if (p.ask w).1.maySend then (p.ask w).2.drainAll w .tx true
      else (p.ask w).2).Good size := by
    split
    · exact hasked.drainAll hlive w .tx true
    · exact hasked
  simp only [Poll.disengage]
  generalize (if (p.ask w).1.maySend then (p.ask w).2.drainAll w .tx true else (p.ask w).2) = q
    at hdrained
  split
  · exact hdrained
  · next hlive' => exact (hdrained.setPhase hlive' .closing).setState

theorem rebind (hlive : p.ctx.phase ≠ .failed) (w : World) :
    (p.rebind w).Good size := by
  unfold Poll.rebind
  split
  · simp only
    split
    · exact ((h.ask w).setPhase hlive .listening).setState
    · exact (h.ask w).fail
  · have hidle := h.setPhase hlive .freshIdle
    exact (hidle.setCtx (q := { p.setPhase .freshIdle with
      ctx := { (p.setPhase .freshIdle).ctx with backoffMs := 0, nextAttemptAtUs := 0 } })
      rfl id rfl rfl rfl rfl rfl).setState
  · exact h.fail
  · exact h.fail

/-- Nothing is staged after a reset, whatever was before. -/
theorem recycle :
    (((p.note .recycled).resetKernelSide.setStaged .rx false 0).setStaged .tx
      false 0).Good size := by
  have hnoted : ((p.note .recycled).setStaged .rx false 0 |>.setStaged .tx false 0).Good size := by
    refine ⟨h.queueLen, ?_, h.honest, ?_⟩
    · intro _ d hd
      cases d <;> cases hd
    intro offset len hin
    rcases List.mem_cons.mp hin with heq | hold
    · cases heq
    · exact h.confined offset len hold
  exact hnoted.resetKernelSide.1

section

variable (hlive : p.ctx.phase ≠ .failed)

include hlive

theorem closing (w : World) :
    (p.closing w).Good size := by
  have hasked := h.ask w
  simp only [Poll.closing]
  split
  · have hclean := hasked.recycle
    exact ((hclean.store .peerAddr).store .peerPort).rebind hlive w
  · exact hasked

theorem arm (w : World) (engaged : Bool)
    (nowUs : Nat) : (p.arm w engaged nowUs).Good size := by
  have hasked := h.ask w
  unfold Poll.arm
  split
  · simp only
    split
    · exact (hasked.setPhase hlive .listening).setState
    · exact hasked.fail
  · simp only
    split
    · exact (hasked.setPhase hlive .listening).setState
    · exact hasked.fail
  · split
    · exact h
    simp only
    split
    · exact (hasked.setPhase hlive .connecting).setState
    · exact hasked.scheduleRetry nowUs
  split
  · simp only
    split
    · exact (hasked.setPhase hlive .connecting).setState
    · exact hasked.fail
  · exact h

theorem listening (w : World) :
    (p.listening w).Good size := by
  have hasked := h.ask w
  simp only [Poll.listening]
  split
  · obtain ⟨hpeer, hctx⟩ := hasked.publishPeer w
    have hlive' : ((p.ask w).2.publishPeer w).ctx.phase ≠ .failed := by
      rw [hctx]
      exact hlive
    exact (hpeer.setPhase hlive' .active).setState
  · exact hasked

theorem connecting (w : World) (nowUs : Nat) :
    (p.connecting w nowUs).Good size := by
  have hasked := h.ask w
  simp only [Poll.connecting]
  split
  · obtain ⟨hpeer, hctx⟩ := hasked.publishPeer w
    have hlive' : ((p.ask w).2.publishPeer w).ctx.phase ≠ .failed := by
      rw [hctx]
      exact hlive
    have hactive := hpeer.setPhase hlive' .active
    apply setState
    exact hactive.setCtx rfl id rfl rfl rfl rfl rfl
  split
  · split
    · exact hasked.fail
    · exact ((hasked.setPhase hlive .freshIdle).scheduleRetry nowUs).setState
    · exact hasked
  · exact hasked

theorem activeRx (w : World) :
    (p.activeRx w).Good size := by
  have hasked := h.ask w
  simp only [Poll.activeRx]
  split
  · have hdrained := hasked.drainAll hlive w .rx false
    split
    · exact hdrained
    · exact hdrained.stage w .rx
  · exact hasked

theorem activeTx (w : World) :
    (p.activeTx w).Good size := by
  have hasked := h.ask w
  simp only [Poll.activeTx]
  split
  · have hdrained := hasked.drainAll hlive w .tx false
    split
    · exact hdrained
    have hlooked := hdrained.slicesIsEmpty w .tx
    split
    · exact hlooked.stage w .tx
    · exact hlooked
  · exact hasked

end

/-- A step that runs in a phase other than the failed one. -/
theorem inPhase (phase : ChannelPhase) (hphase : phase ≠ .failed)
    {f : Poll → Poll} (hf : p.Good size → p.ctx.phase ≠ .failed → (f p).Good size) :
    (Poll.inPhase phase f p).Good size := by
  unfold Poll.inPhase
  split
  · next heq =>
    apply hf h
    rw [heq]
    exact hphase
  · exact h

theorem updateTcp (w : World) (nowUs : Nat) : (p.updateTcp w nowUs).Good size := by
  have hloaded := h.load w .engaged
  have hnoted : Good size { (p.load w ncDesiredOff 4).2 with
      ctx := { (p.load w ncDesiredOff 4).2.ctx with
        lastEngaged := (p.load w ncDesiredOff 4).1 != 0 } } :=
    hloaded.setCtx rfl id rfl rfl rfl rfl rfl
  simp only [Poll.updateTcp]
  split
  · exact hnoted
  next hlive =>
  split
  · exact hnoted.disengage hlive w
  split
  · exact hnoted.closing hlive w
  have harm := hnoted.inPhase .freshIdle nofun
    (fun h hl => h.arm hl w ((p.load w ncDesiredOff 4).1 != 0) nowUs)
  have hlisten := harm.inPhase .listening nofun (fun h hl => h.listening hl w)
  have hconnect := hlisten.inPhase .connecting nofun (fun h hl => h.connecting hl w nowUs)
  have hrx := hconnect.inPhase .active nofun (fun h hl => h.activeRx hl w)
  exact hrx.inPhase .active nofun (fun h hl => h.activeTx hl w)

theorem run (w : World) (times : List Nat) : (p.run w times).Good size := by
  induction times generalizing p with
  | nil => exact h
  | cons nowUs rest ih => exact ih (h.updateTcp w nowUs)

end Good

theorem dequeueIncrement_ctx (w : World) (p : Poll) (d : Direction) :
    (p.dequeueIncrement w d).2.ctx = p.ctx := by
  unfold Poll.dequeueIncrement
  simp only [apply_ite Prod.snd, apply_ite Poll.ctx]
  exact ite_self _

/-- More rounds than two change nothing: a drain ends by itself. -/
theorem drain_enough (w : World) (d : Direction) (atEdge : Bool) (n : Nat) (p : Poll) :
    Poll.drain w d atEdge (n + 2) p = p.drainAll w d atEdge := by
  -- once a slice is acknowledged nothing is pending, so a second count fails the channel
  have hafter : ∀ (n : Nat) (q : Poll), q.pending d = false →
      Poll.drain w d atEdge (n + 1) q = Poll.drain w d atEdge 1 q := by
    intro n q hq
    have hctx : (q.dequeueIncrement w d).2.pending d = false := by
      rw [pending_congr (dequeueIncrement_ctx w q d)]
      exact hq
    rw [Poll.drain, Poll.drain]
    generalize q.dequeueIncrement w d = r at hctx
    obtain ⟨count?, q'⟩ := r
    cases count? with
    | none => rfl
    | some count =>
      have hno : q'.pending d = false ∨ count = 0 ∨ q'.stagedLen d < count := .inl hctx
      simp only [if_pos hno]
  rw [drainAll, Poll.drain, Poll.drain]
  generalize p.dequeueIncrement w d = r
  obtain ⟨count?, q⟩ := r
  cases count? with
  | none => rfl
  | some count =>
    simp only
    split
    · rfl
    split
    · apply hafter
      exact (Good.setStaged_self _ d false 0).1
    · rfl

end Poll

/-- For every region size the kernel accepts, every binding, every content of the region at
every load and every answer of the socket, through any number of polls: an acknowledgement
is of a slice that is staged and not acknowledged, by one byte or more and no more than
its length; every access is to a field whose place follows from the size of the region
alone, a ring's slot being one of its sixteen, and lies in the region. -/
theorem hostile_memory_confined {requested size : Nat}
    (hsize : Mem.normalizeRegionSize requested = some size) (bind : BindSpec) (w : World)
    (times : List Nat) :
    Honest ((Poll.init bind size).run w times).events ∧
      ∀ offset len, .touch offset len ∈ ((Poll.init bind size).run w times).events →
        (∃ f : Field, offset = f.offset size ∧ len = f.len) ∧ offset + len ≤ size := by
  have hgood := (Poll.Good.init bind size).run w times
  have hmin : Mem.ncMinRegionSize ≤ size := by
    unfold Mem.normalizeRegionSize at hsize
    split at hsize
    · cases hsize
    simp only at hsize
    split at hsize
    · cases hsize
    split at hsize
    · cases hsize
    next hle =>
    cases hsize
    exact Nat.le_of_not_lt hle
  refine ⟨hgood.honest, ?_⟩
  intro offset len hin
  obtain ⟨f, rfl, rfl⟩ := hgood.confined offset len hin
  exact ⟨⟨f, rfl, rfl⟩, f.inside hmin⟩

/-- A peer connects and sends; at the second poll the user has read 50 of 100 bytes. -/
def readerWorld : World where
  memory := fun n => if n = 15 then 1 else if n = 16 then 50 else 0
  socket := fun _ => ⟨true, true, 0, false, true, true, 100⟩

theorem hostile_memory_confined_reader : Mem.normalizeRegionSize 4096 = some 4096 ∧
      .ack .rx 50 ∈ ((Poll.init (.serverRetain 80) 4096).run readerWorld [0, 0]).events ∧
      Honest ((Poll.init (.serverRetain 80) 4096).run readerWorld [0, 0]).events := by
  have hsize : Mem.normalizeRegionSize 4096 = some 4096 := by decide
  refine ⟨hsize, by decide +kernel, ?_⟩
  exact (hostile_memory_confined hsize (.serverRetain 80) readerWorld [0, 0]).1

end Orbit.Net
