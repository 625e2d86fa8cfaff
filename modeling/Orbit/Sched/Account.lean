import Orbit.Sched.Invariant

/-!
How the ledger moves. A hart's access changes that hart, at most one thread, the
work queue and the sleep inbox; a manager access changes the manager, at most one
thread and the queues. Each kind of access has one lemma that turns what it changed
into equations between the two ledgers, and one that carries the rest of the
invariant over.
-/

namespace Orbit.Sched

open Transition Function State

/-- The slot's share in the right to resume. -/
def Thread.slotRes (th : Thread) : Nat := if th.pending.isSome then 1 else 0

@[simp] theorem Thread.slotRes_store (th : Thread) (st : ThreadState) :
    (th.store st).slotRes = th.slotRes := rfl

@[simp] theorem Thread.slotRes_resetPending (th : Thread) : th.resetPending.slotRes = 0 := rfl

@[simp] theorem Thread.slotRes_writeRets (th : Thread) (vals : List Int) :
    (th.writeRets vals).slotRes = th.slotRes := rfl

@[simp] theorem Thread.state_store (th : Thread) (st : ThreadState) :
    (th.store st).state = st := rfl

@[simp] theorem Thread.state_resetPending (th : Thread) : th.resetPending.state = th.state := rfl

@[simp] theorem Thread.state_writeRets (th : Thread) (vals : List Int) :
    (th.writeRets vals).state = th.state := rfl

namespace State

theorem perHart_update {s s' : State} {h : Nat} {hart : Hart} (hlt : h < s.nHarts)
    (hn : s'.nHarts = s.nHarts) (hh : s'.harts = update s.harts h hart) (f : Hart → Nat) :
    s'.perHart f + f (s.harts h) = s.perHart f + f hart := by
  unfold perHart
  rw [hn, hh]
  exact census_update hlt f s.harts hart

theorem perHart_congr {s s' : State} (hn : s'.nHarts = s.nHarts) (hh : s'.harts = s.harts)
    (f : Hart → Nat) : s'.perHart f = s.perHart f := by
  unfold perHart
  rw [hn, hh]

theorem perHart_mono {s : State} {f g : Hart → Nat}
    (hle : ∀ h, h < s.nHarts → f (s.harts h) ≤ g (s.harts h)) : s.perHart f ≤ s.perHart g :=
  census_mono hle

theorem perHart_eq_zero {s : State} {f : Hart → Nat} :
    s.perHart f = 0 ↔ ∀ h, h < s.nHarts → f (s.harts h) = 0 :=
  census_eq_zero

end State

/-- `s'` is `s` after an access of hart `h` that left it as `hart` and thread `t₀` as
`th`. -/
structure HartFrame (s s' : State) (h : Nat) (hart : Hart) (t₀ : Tid) (th : Thread) : Prop where
  nHarts : s'.nHarts = s.nHarts
  harts : s'.harts = update s.harts h hart
  threads : s'.threads = update s.threads t₀ th
  mgr : s'.mgr = s.mgr
  ready : s'.ready = s.ready
  waiters : s'.waiters = s.waiters
  nextTid : s'.nextTid = s.nextTid
  registry : s'.registry = s.registry

namespace HartFrame

variable {s s' : State} {h : Nat} {hart : Hart} {t₀ : Tid} {th : Thread}

variable (fr : HartFrame s s' h hart t₀ th)

include fr

theorem thread_self : s'.threads t₀ = th := by
  rw [fr.threads, update_self]

theorem thread_ne {t : Tid} (ht : t ≠ t₀) :
    s'.threads t = s.threads t := by
  rw [fr.threads, update_of_ne ht]

theorem hart_self : s'.harts h = hart := by
  rw [fr.harts, update_self]

theorem hart_ne {h' : Nat} (hh : h' ≠ h) :
    s'.harts h' = s.harts h' := by
  rw [fr.harts, update_of_ne hh]

/-- The ledger after a hart's access, against the ledger before it. -/
theorem counts (hlt : h < s.nHarts) (t : Tid) :
    s'.tok t + (s.harts h).tok t = s.tok t + hart.tok t ∧
    s'.queued t + (s.harts h).inbox.count t = s.queued t + hart.inbox.count t ∧
    s'.run t + (s.harts h).pc.run t = s.run t + hart.pc.run t ∧
    s'.blk t + (s.harts h).pc.blk t = s.blk t + hart.pc.blk t ∧
    s'.claiming t + (s.harts h).pc.claiming t = s.claiming t + hart.pc.claiming t ∧
    s'.stray t + (s.harts h).pc.stray t = s.stray t + hart.pc.stray t ∧
    s'.res t + (s.work.countP (Work.isCall t) + (s.threads t).slotRes + (s.harts h).pc.res t) =
      s.res t + (s'.work.countP (Work.isCall t) + (s'.threads t).slotRes + hart.pc.res t) ∧
    s'.note t + s.sleepInbox.countP (fun n => n.thread = t) =
      s.note t + s'.sleepInbox.countP (fun n => n.thread = t) ∧
    (s'.ledger t).alloc = (s.ledger t).alloc := by
  have moved := State.perHart_update hlt fr.nHarts fr.harts
  have htok := moved (·.tok t)
  have hqueued := moved (·.inbox.count t)
  have hres := moved (·.pc.res t)
  refine ⟨?_, ?_, moved (·.pc.run t), moved (·.pc.blk t), moved (·.pc.claiming t),
    moved (·.pc.stray t), ?_, ?_, ?_⟩
  · simp only [tok, fr.mgr, fr.ready]
    omega
  · simp only [queued, fr.ready]
    omega
  · simp only [res, fr.mgr, fr.waiters, Thread.slotRes]
    omega
  · simp only [note, fr.mgr]
    omega
  · simp only [ledger, fr.nextTid]

end HartFrame

/-- An access that touches neither the work queue nor the sleep inbox. -/
structure HartOnly (s s' : State) (h : Nat) (hart : Hart) (t₀ : Tid) (th : Thread) : Prop
    extends HartFrame s s' h hart t₀ th where
  work : s'.work = s.work
  sleepInbox : s'.sleepInbox = s.sleepInbox
  fault : s'.fault = s.fault

theorem HartOnly.counts {s s' : State} {h : Nat} {hart : Hart} {t₀ : Tid} {th : Thread}
    (fr : HartOnly s s' h hart t₀ th) (hlt : h < s.nHarts) (t : Tid) :
    s'.tok t + (s.harts h).tok t = s.tok t + hart.tok t ∧
    s'.queued t + (s.harts h).inbox.count t = s.queued t + hart.inbox.count t ∧
    s'.run t + (s.harts h).pc.run t = s.run t + hart.pc.run t ∧
    s'.blk t + (s.harts h).pc.blk t = s.blk t + hart.pc.blk t ∧
    s'.claiming t + (s.harts h).pc.claiming t = s.claiming t + hart.pc.claiming t ∧
    s'.stray t + (s.harts h).pc.stray t = s.stray t + hart.pc.stray t ∧
    s'.res t + ((s.threads t).slotRes + (s.harts h).pc.res t) =
      s.res t + ((s'.threads t).slotRes + hart.pc.res t) ∧
    s'.note t = s.note t ∧ (s'.ledger t).alloc = (s.ledger t).alloc := by
  have hc := fr.toHartFrame.counts hlt t
  rw [fr.work, fr.sleepInbox] at hc
  omega

namespace Inv

variable {s s' : State} {h : Nat} {hart : Hart} {t₀ : Tid} {th : Thread}

/-- A hart that executes a thread or is on its way into a Blocking park of it holds
the thread's token. -/
theorem active_le_tok (inv : Inv s) (hlt : h < s.nHarts) (t : Tid) :
    (s.harts h).pc.run t + (s.harts h).pc.blk t ≤ (s.harts h).tok t := by
  have hown := inv.own h hlt t
  unfold Hart.tok
  cases hpc : (s.harts h).pc <;>
    simp only [HartPc.run, HartPc.blk, Nat.zero_le, Nat.zero_add, Nat.add_zero]
  case running u =>
    simp only [hpc, HartPc.owns] at hown
    refine one_le_of fun hu => ?_
    rw [if_pos (hown hu)]
    omega
  all_goals
    simp only [hpc, HartPc.owns, HartPc.held] at hown ⊢
    split
    · first
        | exact one_le_of fun hu => by
            rw [if_pos (hown hu)]
            omega
        | omega
    · exact Nat.zero_le _

/-- What one hart counts for is part of the ledger. -/
theorem bounds (inv : Inv s) (hlt : h < s.nHarts) (t : Tid) :
    (s.harts h).tok t ≤ s.tok t ∧ (s.harts h).pc.run t ≤ s.run t ∧
    (s.harts h).pc.claiming t ≤ s.claiming t ∧ (s.harts h).pc.stray t ≤ s.stray t ∧
    (s.harts h).pc.res t ≤ s.res t ∧
    s.blk t + (s.harts h).tok t ≤ s.tok t + (s.harts h).pc.blk t ∧
    s.run t + (s.harts h).tok t ≤ s.tok t + (s.harts h).pc.run t := by
  have htok := le_census hlt (·.tok t) s.harts
  have hres := le_census hlt (·.pc.res t) s.harts
  have hblk := census_slack hlt (·.pc.blk t) (·.tok t) s.harts fun j hj =>
    (Nat.le_add_left _ _).trans (inv.active_le_tok hj t)
  have hrun := census_slack hlt (·.pc.run t) (·.tok t) s.harts fun j hj =>
    (Nat.le_add_right _ _).trans (inv.active_le_tok hj t)
  refine ⟨?_, le_census hlt (·.pc.run t) s.harts, le_census hlt (·.pc.claiming t) s.harts,
    le_census hlt (·.pc.stray t) s.harts, ?_, ?_, ?_⟩
  · simp only [tok, State.perHart]
    omega
  · simp only [res, State.perHart]
    omega
  · simp only [tok, blk, State.perHart]
    omega
  · simp only [tok, run, State.perHart]
    omega

/-- Two harts cannot both hold a thread's token or have taken its results. -/
theorem others_clear {h' : Nat} (hlt : h < s.nHarts) (hlt' : h' < s.nHarts)
    (hne : h' ≠ h) (t : Tid) :
    (s.harts h).tok t + (s.harts h').tok t ≤ s.tok t ∧
    (s.harts h).pc.res t + (s.harts h').pc.res t ≤ s.res t := by
  have htok := add_le_census hlt hlt' hne.symm (·.tok t) s.harts
  have hres := add_le_census hlt hlt' hne.symm (·.pc.res t) s.harts
  simp only [tok, res, State.perHart]
  omega

/-- A hart without token and without results of `t` does not care about its state. -/
theorem allows_any (inv : Inv s) (hlt : h < s.nHarts) {t : Tid} (htok : (s.harts h).tok t = 0)
    (hres : (s.harts h).pc.res t = 0) (st : ThreadState) : (s.harts h).pc.allows t st := by
  have hown := inv.own h hlt t
  have hcur : (s.harts h).current ≠ some t := by
    intro hc
    simp [Hart.tok, hc] at htok
  unfold Hart.tok at htok
  cases hpc : (s.harts h).pc <;>
    simp only [hpc, HartPc.allows, HartPc.owns, HartPc.held, HartPc.res] at hown htok hres ⊢
  all_goals first
    | trivial
    | (intro hu; exact absurd (hown hu) hcur)
    | (intro hu; rw [hu, one_self] at htok; omega)
    | (intro hu; rw [hu, one_self] at hres; omega)

/-- An access that leaves thread `t₀` in a state the other harts and the manager
accept keeps the invariant when the ledgers stay in order and the hart's new point
fits. -/
theorem hart_frame (inv : Inv s) (fr : HartFrame s s' h hart t₀ th) (hok : ∀ t, (s'.ledger t).Ok)
    (hothers : ∀ h', h' < s.nHarts → h' ≠ h → (s.harts h').pc.allows t₀ th.state ∧
      ((s.harts h').current = some t₀ →
        (s.harts h').pc.owns t₀ ∨ th.state = .assigned ∨ th.state = .exited))
    (hmgr : ∀ m, s.mgr = some m → m.pc.allows t₀ th.state)
    (hallow : ∀ t, hart.pc.allows t (s'.threads t).state) (hwf : hart.pc.wf)
    (hown : ∀ t, hart.pc.owns t → hart.current = some t)
    (hcur : ∀ t, hart.current = some t →
      hart.pc.owns t ∨ (s'.threads t).state = .assigned ∨ (s'.threads t).state = .exited)
    (hnull : hart.current = (s.harts h).current ∨ hart.current = none)
    (hlive : th.state ≠ .exited → (s.threads t₀).state ≠ .exited)
    (hfault : s'.fault = s.fault) : Inv s' := by
  refine ⟨hok, ?_, ?_, ?_, ?_, ?_, ?_, ?_, ?_, ?_⟩
  · intro h' hlt' t
    rw [fr.nHarts] at hlt'
    by_cases hh : h' = h
    · rw [hh, fr.hart_self]
      exact hallow t
    rw [fr.hart_ne hh]
    by_cases ht : t = t₀
    · rw [ht, fr.thread_self]
      exact (hothers h' hlt' hh).1
    · rw [fr.thread_ne ht]
      exact inv.harts h' hlt' t
  · intro h' hlt'
    by_cases hh : h' = h
    · rw [hh, fr.hart_self]
      exact hwf
    · rw [fr.hart_ne hh]
      exact inv.wf h' (fr.nHarts ▸ hlt')
  · intro h' hlt' t
    by_cases hh : h' = h
    · rw [hh, fr.hart_self]
      exact hown t
    · rw [fr.hart_ne hh]
      exact inv.own h' (fr.nHarts ▸ hlt') t
  · intro h' hlt' t
    rw [fr.nHarts] at hlt'
    by_cases hh : h' = h
    · rw [hh, fr.hart_self]
      exact hcur t
    rw [fr.hart_ne hh]
    by_cases ht : t = t₀
    · rw [ht, fr.thread_self]
      exact (hothers h' hlt' hh).2
    · rw [fr.thread_ne ht]
      exact inv.cur h' hlt' t
  · intro m hm
    rw [fr.mgr] at hm
    rw [fr.nHarts]
    refine ⟨(inv.mgr m hm).1, fun t => ?_⟩
    by_cases ht : t = t₀
    · rw [ht, fr.thread_self]
      exact hmgr m hm
    · rw [fr.thread_ne ht]
      exact (inv.mgr m hm).2 t
  · intro m hm h' hmem
    rw [fr.nHarts]
    exact inv.offers m (fr.mgr ▸ hm) h' hmem
  · intro m h' hm htgt
    rw [fr.mgr] at hm
    have hnone := inv.slot m h' hm htgt
    by_cases hh : h' = h
    · rw [hh, fr.hart_self]
      rcases hnull with hn | hn
      · rw [hn, ← hh, hnone]
      · exact hn
    · rw [fr.hart_ne hh, hnone]
  · intro t ht
    rw [fr.registry]
    by_cases htt : t = t₀
    · rw [htt, fr.thread_self] at ht
      exact inv.reg t (htt ▸ hlive ht)
    · rw [fr.thread_ne htt] at ht
      exact inv.reg t ht
  · rw [hfault]
    exact inv.fault

end Inv

/-- The manager accepts a store that is not under way for it: what it has read of a
parked thread stays true when a hart moves a thread that is not Suspended. -/
theorem MgrPc.allows_store {pc : MgrPc} {t : Tid} {before after : ThreadState}
    (h : pc.allows t before) (htok : pc.tok t = 0) (hres : before = .blocking → pc.res t = 0)
    (hbefore : before = .assigned ∨ before = .running ∨ before = .blocking ∧ after = .ready) :
    pc.allows t after := by
  cases pc with
  | swapWake u rets a | promoteLoad u rets a | promoteStore u rets a =>
    intro hu
    have hb := h hu
    cases rets with
    | none => rcases hbefore with rfl | rfl | ⟨rfl, -⟩ <;> simp at hb
    | some p => rcases hbefore with rfl | rfl | ⟨rfl, -⟩ <;> simp [hu] at hb hres
  | take u a =>
    intro hu
    have hb := h hu
    rcases hbefore with rfl | rfl | ⟨rfl, rfl⟩ <;> simp_all [ThreadState.parked]
  | scanRets u seen k | scanNote u seen signaled k =>
    intro hu hseen
    have hb := h hu hseen
    rcases hbefore with rfl | rfl | ⟨rfl, -⟩ <;> simp at hb
  | claim u mode a =>
    intro hu ha hmode
    have hb := h hu ha hmode
    rcases hbefore with rfl | rfl | ⟨rfl, -⟩ <;> simp at hb
  | cleanup todo tids pids | reapThreads tids pids | claimExited u todo tids pids =>
    intro hu
    have hb := h hu
    rcases hbefore with rfl | rfl | ⟨rfl, -⟩ <;> simp at hb
  | resumePush u | pushReady u a | assignLoad u h' hs | assignStore u h' hs
  | assignPublish u h' hs =>
    intro hu
    simp [hu] at htok
  | resumeWrite u p | resumeReset u p | resumeLoad u p | resumeStore u p | marshal u p a =>
    intro hu
    have hb := h hu
    rcases hbefore with rfl | rfl | ⟨rfl, -⟩ <;> simp [hu] at hb hres
  | _ => trivial

namespace HartPc

/-- The thread a point names. -/
@[simp] def thread : HartPc → Option Tid
  | .idle => none
  | .dispatch t | .dispatchStore t | .dispatchCheck t | .running t | .commit t _ _ _ | .switch t
  | .parkSeq t _ | .parkNull t _ _ | .parkLoad t _ _ | .parkStore t _ _ | .mint t | .push t
  | .claim t | .claimed t _ | .claimLoad t _ | .claimStore t _ => some t
  | .sleepPush n => some n.thread

/-- The point names no thread but `t`. -/
@[simp] def Names (pc : HartPc) (t : Tid) : Prop := ∀ u, pc.thread = some u → u = t

theorem Names.weights {pc : HartPc} {t u : Tid} (h : pc.Names t) (hu : u ≠ t) :
    pc.held u = 0 ∧ pc.run u = 0 ∧ pc.blk u = 0 ∧ pc.claiming u = 0 ∧ pc.stray u = 0 ∧
      pc.res u = 0 := by
  cases pc <;> simp only [Names, thread, Option.some.injEq, forall_eq'] at h
  all_goals simp [h, one_of_ne hu.symm]

theorem Names.allows {pc : HartPc} {t u : Tid} (h : pc.Names t) (hu : u ≠ t) (st : ThreadState) :
    pc.allows u st ∧ ¬ pc.owns u := by
  cases pc <;> simp only [Names, thread, Option.some.injEq, forall_eq'] at h
  all_goals simp [h, hu.symm]

end HartPc

namespace Inv

variable {s s' : State} {h : Nat} {hart : Hart} {t : Tid} {th : Thread}

/-- The ledger of a thread the hart does not deal with. -/
theorem ok_other (inv : Inv s) (hlt : h < s.nHarts) (fr : HartFrame s s' h hart t th)
    (hold : (s.harts h).pc.Names t) (hnew : hart.pc.Names t) {u : Tid} (hu : u ≠ t)
    (hinbox : hart.inbox.count u = (s.harts h).inbox.count u)
    (hcur : hart.current = some u ↔ (s.harts h).current = some u)
    (hwork : s'.work.countP (Work.isCall u) = s.work.countP (Work.isCall u))
    (hnote : s'.sleepInbox.countP (fun n => n.thread = u) =
      s.sleepInbox.countP (fun n => n.thread = u)) : (s'.ledger u).Ok := by
  obtain ⟨c1, c0, c2, c3, c4, c5, c6, c7, c8⟩ := fr.counts hlt u
  obtain ⟨o1, o2, o3, o4, o5, o6⟩ := hold.weights hu
  obtain ⟨n1, n2, n3, n4, n5, n6⟩ := hnew.weights hu
  have htok : hart.tok u = (s.harts h).tok u := by
    simp only [Hart.tok, hinbox, hcur, o1, n1]
  rw [fr.thread_ne hu, hwork, o6, n6] at c6
  exact ok_of_counts (inv.ok u) (by rw [fr.thread_ne hu]) (by omega)

/-- An access of hart `h` on thread `t`: what is left to show is that `t`'s ledger is
in order and that the new point fits `t`. A store also needs that nobody else relies
on the old state. -/
theorem act (inv : Inv s) (hlt : h < s.nHarts) (fr : HartFrame s s' h hart t th)
    (hold : (s.harts h).pc.Names t) (hnew : hart.pc.Names t)
    (hinbox : ∀ u, u ≠ t → hart.inbox.count u = (s.harts h).inbox.count u)
    (hcur : hart.current = (s.harts h).current ∨ hart.current = none ∧ (s.harts h).current = some t)
    (hwork : ∀ u, u ≠ t → s'.work.countP (Work.isCall u) = s.work.countP (Work.isCall u))
    (hnote : ∀ u, u ≠ t → s'.sleepInbox.countP (fun n => n.thread = u) =
      s.sleepInbox.countP (fun n => n.thread = u))
    (hfault : s'.fault = s.fault)
    (hself : (s'.ledger t).Ok)
    (hothers : th.state = (s.threads t).state ∨
      (∀ h', h' < s.nHarts → h' ≠ h → (s.harts h').tok t = 0 ∧ (s.harts h').pc.res t = 0) ∧
        (∀ m, s.mgr = some m → m.pc.allows t th.state) ∧ (s.threads t).state ≠ .exited)
    (hallow : hart.pc.allows t th.state) (hwf : hart.pc.wf)
    (hown : hart.pc.owns t → hart.current = some t)
    (hkeep : hart.current = some t →
      hart.pc.owns t ∨ th.state = .assigned ∨ th.state = .exited) : Inv s' := by
  have hiff : ∀ u, u ≠ t → (hart.current = some u ↔ (s.harts h).current = some u) := by
    intro u hu
    rcases hcur with hc | ⟨hc, hc'⟩
    · rw [hc]
    · simp [hc, hc', hu.symm]
  apply inv.hart_frame fr
  · intro u
    by_cases hu : u = t
    · exact hu ▸ hself
    · exact inv.ok_other hlt fr hold hnew hu (hinbox u hu) (hiff u hu) (hwork u hu) (hnote u hu)
  · intro h' hlt' hne
    rcases hothers with hst | ⟨halone, -, -⟩
    · rw [hst]
      exact ⟨inv.harts h' hlt' t, inv.cur h' hlt' t⟩
    obtain ⟨htok, hres⟩ := halone h' hlt' hne
    refine ⟨inv.allows_any hlt' htok hres _, fun hc => ?_⟩
    simp [Hart.tok, hc] at htok
  · intro m hm
    rcases hothers with hst | ⟨-, hmgr, -⟩
    · rw [hst]
      exact (inv.mgr m hm).2 t
    · exact hmgr m hm
  · intro u
    by_cases hu : u = t
    · rw [hu, fr.thread_self]
      exact hallow
    · exact (hnew.allows hu _).1
  · exact hwf
  · intro u ho
    by_cases hu : u = t
    · exact hu ▸ hown (hu ▸ ho)
    · exact absurd ho (hnew.allows hu .ready).2
  · intro u hc
    by_cases hu : u = t
    · rw [hu, fr.thread_self]
      exact hkeep (hu ▸ hc)
    rw [fr.thread_ne hu]
    rcases inv.cur h hlt u ((hiff u hu).mp hc) with ho | hst
    · exact absurd ho (hold.allows hu .ready).2
    · exact .inr hst
  · rcases hcur with hc | ⟨hc, -⟩
    · exact .inl hc
    · exact .inr hc
  · rcases hothers with hst | ⟨-, -, hlive⟩
    · exact fun hne => hst ▸ hne
    · exact fun _ => hlive
  · exact hfault

/-- Nobody else holds anything of a thread whose results this hart has taken. -/
theorem alone_of_res (inv : Inv s) (hlt : h < s.nHarts) (hres : 1 ≤ (s.harts h).pc.res t)
    (hst : (s.threads t).state = .blocking) :
    (∀ h', h' < s.nHarts → h' ≠ h → (s.harts h').tok t = 0 ∧ (s.harts h').pc.res t = 0) ∧
      ∀ m, s.mgr = some m → m.pc.tok t = 0 ∧ m.pc.res t = 0 := by
  have htok := (inv.ok t).parked (.inl (by simp [ledger, hst]))
  have hone := (inv.ok t).right
  have hle := le_census hlt (·.pc.res t) s.harts
  simp only [ledger] at htok hone
  refine ⟨fun h' hlt' hne => ?_, fun m hm => ?_⟩
  · have := others_clear hlt hlt' hne t
    omega
  · simp only [tok, res, State.perHart, hm, weigh_some] at htok hone hle
    omega

/-- Nobody else holds the token of a thread whose token this hart holds. -/
theorem alone_of_tok (inv : Inv s) (hlt : h < s.nHarts) (htok : 1 ≤ (s.harts h).tok t)
    (hst : (s.threads t).state ≠ .blocking) :
    (∀ h', h' < s.nHarts → h' ≠ h → (s.harts h').tok t = 0 ∧ (s.harts h').pc.res t = 0) ∧
      ∀ m, s.mgr = some m → m.pc.tok t = 0 := by
  have hone := (inv.ok t).token
  have hle := le_census hlt (·.tok t) s.harts
  simp only [ledger, tok, State.perHart] at hone
  refine ⟨fun h' hlt' hne => ⟨?_, ?_⟩, fun m hm => ?_⟩
  · have := (others_clear hlt hlt' hne t).1
    simp only [tok, State.perHart] at this
    omega
  · have hallow := inv.harts h' hlt' t
    cases hpc : (s.harts h').pc <;> simp only [hpc, HartPc.res, HartPc.allows] at hallow ⊢
    all_goals exact one_of_ne fun hu => hst (hallow hu)
  · rw [hm, weigh_some] at hone
    omega

end Inv

end Orbit.Sched
