import Orbit.Sched.Account

/-!
The manager's side of the account: what a manager access does to the ledgers, and
which part of the invariant it has to re-establish.
-/

namespace Orbit.Sched

open Transition Function State

/-- `s'` is `s` after an access of the manager `m` that left it at `pc` and thread
`t₀` as `th`. The harts keep their points and what they run. -/
structure MgrFrame (s s' : State) (m : Mgr) (pc : MgrPc) (t₀ : Tid) (th : Thread) : Prop where
  before : s.mgr = some m
  mgr : s'.mgr = some { m with pc }
  nHarts : s'.nHarts = s.nHarts
  pcs : ∀ h, (s'.harts h).pc = (s.harts h).pc
  currents : ∀ h, (s'.harts h).current = (s.harts h).current
  threads : s'.threads = update s.threads t₀ th
  nextTid : s'.nextTid = s.nextTid
  fault : s'.fault = s.fault

/-- An access that touches neither a hart nor a queue the ledgers count. -/
structure MgrOnly (s s' : State) (m : Mgr) (pc : MgrPc) (t₀ : Tid) (th : Thread) : Prop
    extends MgrFrame s s' m pc t₀ th where
  harts : s'.harts = s.harts
  ready : s'.ready = s.ready
  work : s'.work = s.work
  waiters : s'.waiters = s.waiters
  sleepInbox : s'.sleepInbox = s.sleepInbox
  registry : s'.registry = s.registry

namespace MgrFrame

variable {s s' : State} {m : Mgr} {pc : MgrPc} {t₀ : Tid} {th : Thread}

variable (fr : MgrFrame s s' m pc t₀ th)

include fr

theorem thread_self : s'.threads t₀ = th := by
  rw [fr.threads, update_self]

theorem thread_ne {t : Tid} (ht : t ≠ t₀) :
    s'.threads t = s.threads t := by
  rw [fr.threads, update_of_ne ht]

theorem perHart_pc (f : HartPc → Nat) :
    s'.perHart (fun hart => f hart.pc) = s.perHart (fun hart => f hart.pc) := by
  simp only [perHart, census, fr.nHarts, fr.pcs]

/-- The ledger after a manager access, against the ledger before it. -/
theorem counts (t : Tid) :
    s'.tok t + (s.ready.count t + m.pc.tok t + s.perHart (·.tok t)) =
      s.tok t + (s'.ready.count t + pc.tok t + s'.perHart (·.tok t)) ∧
    s'.queued t + (s.ready.count t + s.perHart (·.inbox.count t)) =
      s.queued t + (s'.ready.count t + s'.perHart (·.inbox.count t)) ∧
    s'.run t = s.run t ∧ s'.blk t = s.blk t ∧ s'.claiming t = s.claiming t ∧
    s'.stray t = s.stray t ∧
    s'.res t + (s.work.countP (Work.isCall t) + s.waiters.countP (fun w => w.1 = t) +
        (s.threads t).slotRes + m.pc.res t) =
      s.res t + (s'.work.countP (Work.isCall t) + s'.waiters.countP (fun w => w.1 = t) +
        (s'.threads t).slotRes + pc.res t) ∧
    s'.note t + (s.sleepInbox.countP (fun n => n.thread = t) + m.pc.note t) =
      s.note t + (s'.sleepInbox.countP (fun n => n.thread = t) + pc.note t) ∧
    (s'.ledger t).alloc = (s.ledger t).alloc := by
  have hres := fr.perHart_pc (·.res t)
  refine ⟨?_, ?_, fr.perHart_pc (·.run t), fr.perHart_pc (·.blk t), fr.perHart_pc (·.claiming t),
    fr.perHart_pc (·.stray t), ?_, ?_, ?_⟩
  · simp only [tok, fr.before, fr.mgr, weigh_some]
    omega
  · simp only [queued]
    omega
  · simp only [res, fr.before, fr.mgr, weigh_some, Thread.slotRes]
    omega
  · simp only [note, fr.before, fr.mgr, weigh_some]
    omega
  · simp only [ledger, fr.nextTid]

end MgrFrame

/-- The ledger after an access that leaves harts and queues alone. -/
theorem MgrOnly.counts {s s' : State} {m : Mgr} {pc : MgrPc} {t₀ : Tid} {th : Thread}
    (fr : MgrOnly s s' m pc t₀ th) (t : Tid) :
    s'.tok t + m.pc.tok t = s.tok t + pc.tok t ∧ s'.queued t = s.queued t ∧
    s'.run t = s.run t ∧ s'.blk t = s.blk t ∧ s'.claiming t = s.claiming t ∧
    s'.stray t = s.stray t ∧
    s'.res t + ((s.threads t).slotRes + m.pc.res t) =
      s.res t + ((s'.threads t).slotRes + pc.res t) ∧
    s'.note t + m.pc.note t = s.note t + pc.note t ∧
    (s'.ledger t).alloc = (s.ledger t).alloc := by
  have hc := fr.toMgrFrame.counts t
  have hsame : ∀ f : Hart → Nat, s'.perHart f = s.perHart f := perHart_congr fr.nHarts fr.harts
  rw [fr.ready, fr.work, fr.waiters, fr.sleepInbox, hsame, hsame] at hc
  omega

namespace Inv

variable {s s' : State} {m : Mgr} {pc : MgrPc} {t : Tid} {th : Thread}

variable (inv : Inv s)

include inv

/-- What the manager holds is part of the ledger. -/
theorem mgr_bounds (hm : s.mgr = some m) (t : Tid) :
    s.queued t + m.pc.tok t ≤ s.tok t ∧ s.blk t ≤ s.perHart (·.tok t) ∧
    s.ready.count t + m.pc.tok t + s.perHart (·.tok t) = s.tok t ∧
    s.work.countP (Work.isCall t) + s.waiters.countP (fun w => w.1 = t) + (s.threads t).slotRes +
      m.pc.res t + s.perHart (·.pc.res t) = s.res t ∧
    s.sleepInbox.countP (fun n => n.thread = t) + m.pc.note t = s.note t := by
  have hinbox : s.perHart (·.inbox.count t) ≤ s.perHart (·.tok t) :=
    perHart_mono fun h _ => by
      simp only [Hart.tok]
      omega
  have hblk : s.perHart (·.pc.blk t) ≤ s.perHart (·.tok t) :=
    perHart_mono fun h hlt => (Nat.le_add_left _ _).trans (inv.active_le_tok hlt t)
  refine ⟨?_, hblk, ?_, ?_, ?_⟩
  · simp only [queued, tok, hm, weigh_some]
    omega
  · simp only [tok, hm, weigh_some]
  · simp only [res, hm, weigh_some, Thread.slotRes]
  · simp only [note, hm, weigh_some]

/-- The harts accept the state for thread `t`. -/
def Accepted (s : State) (t : Tid) (st : ThreadState) : Prop :=
  ∀ h, h < s.nHarts → (s.harts h).pc.allows t st ∧
    ((s.harts h).current = some t → (s.harts h).pc.owns t ∨ st = .assigned ∨ st = .exited)

/-- Harts that hold neither the token nor the results of `t` accept any state. -/
theorem harts_accept (htok : s.perHart (·.tok t) = 0)
    (hres : s.perHart (·.pc.res t) = 0) (st : ThreadState) : Accepted s t st := by
  intro h hlt
  have hzero := perHart_eq_zero.mp htok h hlt
  refine ⟨inv.allows_any hlt hzero (perHart_eq_zero.mp hres h hlt) st, fun hc => ?_⟩
  simp [Hart.tok, hc] at hzero

/-- An access of the manager on thread `t`: what is left to show is that the ledgers
are in order, that the harts accept a stored state and that the new point fits. -/
theorem manage (fr : MgrFrame s s' m pc t th) (hok : ∀ u, (s'.ledger u).Ok)
    (hstate : th.state = (s.threads t).state ∨
      (s.threads t).state ≠ .exited ∧ Accepted s t th.state)
    (hkeep : ∀ u, u ≠ t → pc.allows u (s.threads u).state) (hallow : pc.allows t th.state)
    (hoffers : ∀ h ∈ pc.offers, h < s.nHarts)
    (hslot : ∀ h, pc.target = some h → (s.harts h).current = none)
    (hreg : ∀ u ∈ s.registry, u ∈ s'.registry ∨ (s'.threads u).state = .exited) : Inv s' := by
  have hlt := (inv.mgr m fr.before).1
  refine ⟨hok, ?_, ?_, ?_, ?_, ?_, ?_, ?_, ?_, ?_⟩
  · intro h hlt u
    rw [fr.nHarts] at hlt
    rw [fr.pcs]
    by_cases hu : u = t
    · rw [hu, fr.thread_self]
      rcases hstate with hst | ⟨-, hst⟩
      · rw [hst]
        exact inv.harts h hlt t
      · exact (hst h hlt).1
    · rw [fr.thread_ne hu]
      exact inv.harts h hlt u
  · intro h hlt
    rw [fr.pcs]
    exact inv.wf h (fr.nHarts ▸ hlt)
  · intro h hlt u
    rw [fr.pcs, fr.currents]
    exact inv.own h (fr.nHarts ▸ hlt) u
  · intro h hlt u
    rw [fr.nHarts] at hlt
    rw [fr.pcs, fr.currents]
    by_cases hu : u = t
    · rw [hu, fr.thread_self]
      rcases hstate with hst | ⟨-, hst⟩
      · rw [hst]
        exact inv.cur h hlt t
      · exact (hst h hlt).2
    · rw [fr.thread_ne hu]
      exact inv.cur h hlt u
  · intro m' hm'
    rw [fr.mgr] at hm'
    cases hm'
    refine ⟨fr.nHarts ▸ hlt, fun u => ?_⟩
    by_cases hu : u = t
    · rw [hu, fr.thread_self]
      exact hallow
    · rw [fr.thread_ne hu]
      exact hkeep u hu
  · intro m' hm' h hmem
    rw [fr.mgr] at hm'
    cases hm'
    rw [fr.nHarts]
    exact hoffers h hmem
  · intro m' h hm' htgt
    rw [fr.mgr] at hm'
    cases hm'
    rw [fr.currents]
    exact hslot h htgt
  · intro u hu
    have hlive : (s.threads u).state ≠ .exited := by
      by_cases hut : u = t
      · rw [hut, fr.thread_self] at hu
        rw [hut]
        rcases hstate with hst | ⟨hst, -⟩
        · rwa [hst] at hu
        · exact hst
      · rwa [fr.thread_ne hut] at hu
    rcases hreg u (inv.reg u hlive) with hmem | hex
    · exact hmem
    · exact absurd hex hu
  · rw [fr.fault]
    exact inv.fault

/-- The ledger of a thread the access does not deal with. -/
theorem manage_other (fr : MgrFrame s s' m pc t th) {u : Tid} (hu : u ≠ t)
    (hw : pc.tok u = m.pc.tok u ∧ pc.res u = m.pc.res u ∧ pc.note u = m.pc.note u)
    (htok : s'.ready.count u + s'.perHart (·.tok u) = s.ready.count u + s.perHart (·.tok u))
    (hqueued : s'.ready.count u + s'.perHart (·.inbox.count u) =
      s.ready.count u + s.perHart (·.inbox.count u))
    (hres : s'.work.countP (Work.isCall u) + s'.waiters.countP (fun w => w.1 = u) =
      s.work.countP (Work.isCall u) + s.waiters.countP (fun w => w.1 = u))
    (hnote : s'.sleepInbox.countP (fun n => n.thread = u) =
      s.sleepInbox.countP (fun n => n.thread = u)) : (s'.ledger u).Ok := by
  obtain ⟨w1, w2, w3⟩ := hw
  have hc := fr.counts u
  rw [fr.thread_ne hu] at hc
  exact ok_of_counts (inv.ok u) (by rw [fr.thread_ne hu]) (by omega)

/-- A manager access that leaves the queues alone and concerns only thread `t`. -/
theorem manage_only (fr : MgrOnly s s' m pc t th) (hself : (s'.ledger t).Ok)
    (hw : ∀ u, u ≠ t → pc.tok u = m.pc.tok u ∧ pc.res u = m.pc.res u ∧ pc.note u = m.pc.note u)
    (hstate : th.state = (s.threads t).state ∨
      (s.threads t).state ≠ .exited ∧ Accepted s t th.state)
    (hkeep : ∀ u, u ≠ t → pc.allows u (s.threads u).state) (hallow : pc.allows t th.state)
    (hoffers : ∀ h ∈ pc.offers, h < s.nHarts)
    (hslot : ∀ h, pc.target = some h → (s.harts h).current = none) : Inv s' := by
  have hsame : ∀ f : Hart → Nat, s'.perHart f = s.perHart f := perHart_congr fr.nHarts fr.harts
  refine inv.manage fr.toMgrFrame (fun u => ?_) hstate hkeep hallow hoffers hslot
    fun u hu => Or.inl (fr.registry ▸ hu)
  by_cases hu : u = t
  · exact hu ▸ hself
  · exact inv.manage_other fr.toMgrFrame hu (hw u hu) (by rw [fr.ready, hsame])
      (by rw [fr.ready, hsame]) (by rw [fr.work, fr.waiters]) (by rw [fr.sleepInbox])

/-- A manager access that moves on without touching an account. -/
theorem manage_same (fr : MgrOnly s s' m pc t th)
    (hst : th.state = (s.threads t).state) (hslot : th.slotRes = (s.threads t).slotRes)
    (hw : ∀ u, pc.tok u = m.pc.tok u ∧ pc.res u = m.pc.res u ∧ pc.note u = m.pc.note u)
    (hallow : ∀ u, pc.allows u (s.threads u).state)
    (hoffers : ∀ h ∈ pc.offers, h < s.nHarts)
    (htarget : ∀ h, pc.target = some h → (s.harts h).current = none) : Inv s' := by
  refine inv.manage_only fr ?_ (fun u _ => hw u) (.inl hst) (fun u _ => hallow u)
    (hst ▸ hallow t) hoffers htarget
  have hc := fr.counts t
  obtain ⟨w1, w2, w3⟩ := hw t
  rw [fr.thread_self, hslot] at hc
  exact ok_of_counts (inv.ok t) (by rw [fr.thread_self, hst]) (by omega)

end Inv

/-- The frame of an access that only moves the manager's point. -/
theorem frame_goto {s : State} {m : Mgr} (hm : s.mgr = some m) (pc : MgrPc) (t : Tid) :
    MgrOnly s (s.goto m pc) m pc t (s.threads t) :=
  ⟨⟨hm, rfl, rfl, fun _ => rfl, fun _ => rfl, (update_eq_self t s.threads).symm, rfl, rfl⟩,
    rfl, rfl, rfl, rfl, rfl, rfl⟩

/-- The frame of an access that moves the manager's point and writes `t`'s record. -/
theorem frame_gotoWrite {s : State} {m : Mgr} (hm : s.mgr = some m) (pc : MgrPc) (t : Tid)
    (th : Thread) : MgrOnly s ((s.setThread t th).goto m pc) m pc t th :=
  ⟨⟨hm, rfl, rfl, fun _ => rfl, fun _ => rfl, rfl, rfl, rfl⟩, rfl, rfl, rfl, rfl, rfl, rfl⟩

end Orbit.Sched
