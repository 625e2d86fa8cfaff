import Orbit.Sched.HartSteps
import Orbit.Sched.MgrAccount

/-!
Every access of the manager pass keeps the scheduler invariant, phase by phase.
-/

namespace Orbit.Sched

open Transition Function State

variable {c : Choice} {waiters : List (Tid × Nat)} {pids : List Pid} {inbox : List Tid}
  {rest work : List Work} {h : Nat} {frame : Nat → Int} {proc : Proc}

variable {pc : MgrPc} {pid : Pid} {p : Published}

variable {s s' : State} {m : Mgr} {t : Tid}

/-- The point counts for nothing in any ledger. -/
@[simp] def MgrPc.Light (pc : MgrPc) : Prop := ∀ u, pc.tok u = 0 ∧ pc.res u = 0 ∧ pc.note u = 0

/-- The frame of an access to the parts of the state no ledger counts. -/
theorem frame_aside (hm : s.mgr = some m) (pc : MgrPc) (t : Tid) (procs : Pid → Option Proc)
    (heap : List SleepNotice) (wakeQueue : List WakeEvent) (groups : List (Pid × Tid)) :
    MgrOnly s ({ s with
          procs, heap, wakeQueue, groups }.goto m pc)
      m pc t (s.threads t) :=
  ⟨⟨hm, rfl, rfl, fun _ => rfl, fun _ => rfl, (update_eq_self t s.threads).symm, rfl, rfl⟩,
    rfl, rfl, rfl, rfl, rfl, rfl⟩

/-- Between points that count for nothing the manager may do what no ledger counts. -/
theorem Inv.aside (inv : Inv s) (hm : s.mgr = some m) {old : MgrPc} (hpc : m.pc = old)
    (hallow : ∀ u, pc.allows u (s.threads u).state := by simp) (hold : old.Light := by simp)
    (hnew : pc.Light := by simp) (hoffers : pc.offers = [] := by rfl)
    {procs : Pid → Option Proc} {heap : List SleepNotice} {wakeQueue : List WakeEvent}
    {groups : List (Pid × Tid)} :
    Inv ({ s with
      procs, heap, wakeQueue, groups }.goto m pc) := by
  refine inv.manage_same (frame_aside hm pc 0 procs heap wakeQueue groups) rfl rfl (fun u => ?_)
    hallow ?_ ?_
  · obtain ⟨o1, o2, o3⟩ := hpc ▸ hold u
    obtain ⟨n1, n2, n3⟩ := hnew u
    exact ⟨n1.trans o1.symm, n2.trans o2.symm, n3.trans o3.symm⟩
  · rw [hoffers]
    exact nofun
  · intro h htgt
    cases pc <;> simp at htgt hoffers

/-- Moving tokens, requests and notices between the queues and the manager is decided by the
ledgers it leaves. -/
theorem Inv.requeue (inv : Inv s) (hm : s.mgr = some m) {procs : Pid → Option Proc}
    {ready : List Tid} {sleepInbox : List SleepNotice}
    (hok : ∀ (s' : State) (u : Tid), s'.threads = s.threads →
      s'.tok u + (s.ready.count u + m.pc.tok u) = s.tok u + (ready.count u + pc.tok u) ∧
      s'.queued u + s.ready.count u = s.queued u + ready.count u ∧ s'.run u = s.run u ∧
      s'.blk u = s.blk u ∧ s'.claiming u = s.claiming u ∧ s'.stray u = s.stray u ∧
      s'.res u + (s.work.countP (Work.isCall u) + s.waiters.countP (fun w => w.1 = u) +
        m.pc.res u) = s.res u + (work.countP (Work.isCall u) +
        waiters.countP (fun w => w.1 = u) + pc.res u) ∧
      s'.note u + (s.sleepInbox.countP (fun n => n.thread = u) + m.pc.note u) =
        s.note u + (sleepInbox.countP (fun n => n.thread = u) + pc.note u) ∧
      (s'.ledger u).alloc = (s.ledger u).alloc → (s'.ledger u).Ok)
    (hallow : ∀ u, pc.allows u (s.threads u).state) (hoffers : ∀ h ∈ pc.offers, h < s.nHarts)
    (hslot : ∀ h, pc.target = some h → (s.harts h).current = none) :
    Inv ({ s with ready, work, waiters, sleepInbox, procs }.goto m pc) := by
  obtain ⟨s', hs'⟩ : ∃ s', s' =
    { s with ready, work, waiters, sleepInbox, procs }.goto m pc := ⟨_, rfl⟩
  have fr : MgrFrame s s' m pc 0 (s.threads 0) := by
    subst hs'
    exact ⟨hm, rfl, rfl, fun _ => rfl, fun _ => rfl, (update_eq_self 0 s.threads).symm,
      rfl, rfl⟩
  have hqueues : s'.ready = ready ∧ s'.work = work ∧ s'.waiters = waiters ∧
      s'.sleepInbox = sleepInbox := by rw [hs']; exact ⟨rfl, rfl, rfl, rfl⟩
  have hthreads : s'.threads = s.threads := by rw [hs']; rfl
  have hharts : s'.harts = s.harts := by rw [hs']; rfl
  have hreg : s'.registry = s.registry := by rw [hs']; rfl
  rw [← hs']
  clear hs'
  obtain ⟨rfl, rfl, rfl, rfl⟩ := hqueues
  have hsame : ∀ f : Hart → Nat, s'.perHart f = s.perHart f := perHart_congr fr.nHarts hharts
  refine inv.manage fr (fun u => hok s' u hthreads ?_) (.inl rfl) (fun u _ => hallow u) (hallow 0)
    hoffers hslot fun u hu => .inl (hreg ▸ hu)
  have hc := fr.counts u
  rw [hsame, hsame, hthreads] at hc
  omega

section Reap

theorem cleanupNext_inv (inv : Inv s) (hm : s.mgr = some m) {old : MgrPc} (hpc : m.pc = old)
    {todo tids : List Tid} (hdead : ∀ u ∈ tids, (s.threads u).state = .exited)
    (procs : Pid → Option Proc) (hold : old.Light := by simp) :
    Inv ({ s with procs }.cleanupNext m pid proc todo tids pids) := by
  have hnew : ∀ pids, (MgrPc.cleanup todo tids pids).Light := fun _ _ => ⟨rfl, rfl, rfl⟩
  unfold cleanupNext
  split
  · exact inv.aside hm hpc (by exact hdead) hold (hnew _)
  · exact inv.aside hm hpc (by exact hdead) hold (hnew _)

/-- Reaping a thread that is Exited drops its token, if it still has one. -/
theorem reap_inv (inv : Inv s) (hm : s.mgr = some m) {tids : List Tid}
    (hpc : m.pc = .reapThreads (t :: tids) pids) :
    Inv ((s.reap t).goto m (.reapThreads tids pids)) := by
  have hdead : ∀ u ∈ t :: tids, (s.threads u).state = .exited := by
    intro u hu
    simpa [hpc, hu] using (inv.mgr m hm).2 u
  have hst := hdead t (by simp)
  obtain ⟨s', hs'⟩ : ∃ s', s' = (s.reap t).goto m (.reapThreads tids pids) := ⟨_, rfl⟩
  have fr : MgrFrame s s' m (.reapThreads tids pids) t { s.threads t with freed := true } := by
    subst hs'
    exact ⟨hm, rfl, rfl, fun _ => rfl, fun _ => rfl, rfl, rfl, rfl⟩
  have hharts : s'.harts = s.harts := by rw [hs']; rfl
  have hready : s'.ready = s.ready.filter fun u => u ≠ t := by rw [hs']; rfl
  have hwork : s'.work = s.work := by rw [hs']; rfl
  have hwaiters : s'.waiters = s.waiters := by rw [hs']; rfl
  have hsleep : s'.sleepInbox = s.sleepInbox := by rw [hs']; rfl
  have hreg : s'.registry = s.registry.erase t := by rw [hs']; rfl
  rw [← hs']
  clear hs'
  have hsame : ∀ f : Hart → Nat, s'.perHart f = s.perHart f := perHart_congr fr.nHarts hharts
  refine inv.manage fr (fun u => ?_) (.inl rfl) ?_ ?_ (by simp) (by simp) ?_
  · by_cases hu : u = t
    · subst hu
      have hc := fr.counts u
      have hb := inv.mgr_bounds hm u
      have ho := (s.ok_iff u).mp (inv.ok u)
      have hzero : s'.ready.count u = 0 := by simp [hready, List.count_eq_zero]
      have hslot : (s'.threads u).slotRes = (s.threads u).slotRes := by
        rw [fr.thread_self]
        rfl
      rw [hsame, hsame, hwork, hwaiters, hsleep, hslot, hzero] at hc
      rw [s'.ok_iff, fr.thread_self]
      simp [hpc, hst] at hc hb ho ⊢
      omega
    have hcount : s'.ready.count u = s.ready.count u := by
      simp [hready, List.count_filter, hu]
    exact inv.manage_other fr hu (by simp [hpc]) (by rw [hcount, hsame]) (by rw [hcount, hsame])
      (by rw [hwork, hwaiters]) (by rw [hsleep])
  · intro u _ hmem
    exact hdead u (by simp [hmem])
  · exact fun _ => hst
  · intro u hu
    by_cases hut : u = t
    · right
      rw [hut, fr.thread_self]
      exact hst
    left
    rw [hreg]
    exact (List.mem_erase_of_ne hut).mpr hu

theorem reapStep_inv (inv : Inv s) (hm : s.mgr = some m) (hs : reapStep s m m.pc = some s') :
    Inv s' := by
  have hallow := (inv.mgr m hm).2
  cases hpc : m.pc with
  | cleanup todo tids pids =>
    simp only [hpc, MgrPc.allows] at hallow
    cases todo with
    | nil =>
      simp only [hpc, reapStep] at hs
      cases hs
      exact inv.aside hm hpc (by exact hallow)
    | cons t todo =>
      simp only [hpc, reapStep] at hs
      split at hs
      · cases hs
        exact inv.aside hm hpc (by exact hallow)
      split at hs
      · next hst =>
        cases hs
        refine inv.aside hm hpc (fun u => ?_)
        rintro (rfl | hmem)
        · exact hst
        rcases List.mem_append.mp hmem with hmem | hmem
        · exact hallow u hmem
        · exact List.mem_singleton.mp hmem ▸ hst
      · cases hs
        exact cleanupNext_inv inv hm hpc hallow s.procs
  | claimExited t todo tids pids =>
    simp only [hpc, MgrPc.allows] at hallow
    have hst := hallow t (.inl rfl)
    have hdead : ∀ u ∈ tids, (s.threads u).state = .exited := fun u hu => hallow u (.inr hu)
    simp only [hpc, reapStep, hst, ne_eq, not_true_eq_false, if_false] at hs
    split at hs
    · cases hs
      exact inv.aside hm hpc (by exact hdead)
    · cases hs
      exact cleanupNext_inv inv hm hpc hdead _
  | reapThreads tids pids =>
    cases tids with
    | nil =>
      simp only [hpc, reapStep] at hs
      cases hs
      exact inv.aside hm hpc
    | cons t tids =>
      simp only [hpc, reapStep] at hs
      split at hs <;> cases hs
      · exact reap_inv inv hm hpc
      refine inv.fail fun site u st hf => ?_
      cases hf
      rfl
  | reapProcs pids =>
    cases pids with
    | nil =>
      simp only [hpc, reapStep] at hs
      cases hs
      exact inv.aside hm hpc
    | cons p pids =>
      simp only [hpc, reapStep] at hs
      split at hs <;> cases hs
      · exact inv.aside hm hpc
      refine inv.fail fun site u st hf => ?_
      cases hf
      rfl
  | _ => simp [hpc, reapStep] at hs

end Reap

section Work

/-- Taking work off the queues: `k u` requests of `u` leave them, and the point that
follows stands for them unless `u` is dead. -/
theorem takeWork_inv (inv : Inv s) (hm : s.mgr = some m) (hpc : m.pc = .work)
    {procs : Pid → Option Proc} {k : Tid → Nat}
    (hcount : ∀ u, s.work.countP (Work.isCall u) + s.waiters.countP (fun w => w.1 = u) =
      work.countP (Work.isCall u) + waiters.countP (fun w => w.1 = u) + k u)
    (hw : ∀ u, pc.tok u = 0 ∧ pc.note u = 0 ∧ (pc.res u = k u ∨
      pc.res u = 0 ∧ (s.threads u).state = .exited)) (hoffers : pc.offers = [])
    (hallow : ∀ u st, pc.allows u st) :
    Inv ({ s with work, waiters, procs }.goto m pc) := by
  refine inv.requeue hm (fun s' u hthreads hc => ?_) (fun u => hallow u _) ?_ ?_
  · have hcu := hcount u
    obtain ⟨w1, w2, w3⟩ := hw u
    have hold : m.pc.tok u = 0 ∧ m.pc.res u = 0 ∧ m.pc.note u = 0 := by simp [hpc]
    have hb := inv.mgr_bounds hm u
    rcases w3 with w3 | ⟨w3, hst⟩
    · exact ok_of_counts (inv.ok u) (by rw [hthreads]) (by omega)
    have ho := (s.ok_iff u).mp (inv.ok u)
    have hcode : (s.threads u).state.code = 4 := by rw [hst]; rfl
    rw [s'.ok_iff, hthreads]
    omega
  · rw [hoffers]
    exact nofun
  · intro h htgt
    cases pc <;> simp at htgt hoffers

theorem exited_of_not_mem (inv : Inv s) (ht : t ∉ s.registry) : (s.threads t).state = .exited := by
  by_contra hne
  exact ht (inv.reg t hne)

theorem complete_inv (inv : Inv s) (hm : s.mgr = some m) (hpc : m.pc = .work)
    (hcount : ∀ u, s.work.countP (Work.isCall u) + s.waiters.countP (fun w => w.1 = u) =
      work.countP (Work.isCall u) + waiters.countP (fun w => w.1 = u) + one t u)
    (p : Published) (direct : Bool) :
    Inv (complete { s with work, waiters } m t p direct) := by
  unfold complete
  split
  · exact takeWork_inv inv hm hpc hcount (fun u => ⟨rfl, rfl, Or.inl rfl⟩) rfl fun _ _ => trivial
  split
  · exact takeWork_inv inv hm hpc hcount (fun u => ⟨rfl, rfl, Or.inl rfl⟩) rfl fun _ _ => trivial
  next ht =>
  refine takeWork_inv inv hm hpc hcount (fun u => ⟨rfl, rfl, ?_⟩) rfl fun _ _ => trivial
  by_cases hu : t = u
  · exact .inr ⟨rfl, hu ▸ exited_of_not_mem inv ht⟩
  · exact .inl (one_of_ne hu).symm

/-- A new thread comes with its token in the ready queue. -/
theorem admitThread_inv (inv : Inv s) (hm : s.mgr = some m) (hpc : m.pc = .work)
    {allowed affinity : UInt64} :
    Inv (s.admitThread pid proc (.new pid allowed affinity frame)) := by
  obtain ⟨s', hs'⟩ : ∃ s', s' = s.admitThread pid proc (.new pid allowed affinity frame) :=
    ⟨_, rfl⟩
  have hharts : s'.harts = s.harts := by rw [hs']; rfl
  have hn : s'.nHarts = s.nHarts := by rw [hs']; rfl
  have hmgr : s'.mgr = s.mgr := by rw [hs']; rfl
  have hready : s'.ready = s.ready ++ [s.nextTid] := by rw [hs']; rfl
  have hqueues : s'.work = s.work ∧ s'.waiters = s.waiters ∧ s'.sleepInbox = s.sleepInbox := by
    rw [hs']
    exact ⟨rfl, rfl, rfl⟩
  have hreg : s'.registry = s.registry ++ [s.nextTid] := by rw [hs']; rfl
  have hnext : s'.nextTid = s.nextTid + 1 := by rw [hs']; rfl
  have hfault : s'.fault = s.fault := by rw [hs']; rfl
  have hself : s'.threads s.nextTid = .new pid allowed affinity frame := by
    rw [hs']
    exact update_self ..
  have hne : ∀ u, u ≠ s.nextTid → s'.threads u = s.threads u := by
    intro u hu
    rw [hs']
    exact update_of_ne hu ..
  rw [← hs']
  clear hs'
  have hsame : ∀ f : Hart → Nat, s'.perHart f = s.perHart f := perHart_congr hn hharts
  have hfresh := (inv.ok s.nextTid).fresh (by simp [ledger])
  simp only [ledger] at hfresh
  have hb := inv.mgr_bounds hm s.nextTid
  have haccept := inv.harts_accept (t := s.nextTid) (by omega) (by omega) .ready
  refine ⟨fun u => ?_, ?_, ?_, ?_, ?_, ?_, ?_, ?_, ?_, ?_⟩
  · have hcounts : s'.run u = s.run u ∧ s'.blk u = s.blk u ∧ s'.claiming u = s.claiming u ∧
        s'.stray u = s.stray u ∧ s'.note u = s.note u ∧
        s'.tok u + s.ready.count u = s.tok u + s'.ready.count u ∧
        s'.queued u + s.ready.count u = s.queued u + s'.ready.count u ∧
        s'.res u + (s.threads u).slotRes = s.res u + (s'.threads u).slotRes := by
      refine ⟨hsame _, hsame _, hsame _, hsame _, ?_, ?_, ?_, ?_⟩
      · simp only [note, hqueues, hmgr]
      · simp only [tok, hmgr, hsame]
        omega
      · simp only [queued, hsame]
        omega
      · simp only [res, hqueues, hmgr, hsame, Thread.slotRes]
        omega
    by_cases hu : u = s.nextTid
    · have halloc : (s'.ledger u).alloc = 1 := by simp [ledger, hnext, hu]
      have hcount : s'.ready.count u = s.ready.count u + 1 := by simp [hready, hu]
      have hslot : (s'.threads u).slotRes = 0 := by rw [hu, hself]; rfl
      have hstate : (s'.threads u).state.code = 0 := by rw [hu, hself]; rfl
      have ho := (s.ok_iff u).mp (inv.ok u)
      rw [← hu] at hfresh hb
      rw [s'.ok_iff]
      omega
    have hlt : u < s.nextTid + 1 ↔ u < s.nextTid :=
      Nat.lt_succ_iff_lt_or_eq.trans (or_iff_left hu)
    have halloc : (s'.ledger u).alloc = (s.ledger u).alloc := by
      simp only [ledger, hnext, hlt]
    have hcount : s'.ready.count u = s.ready.count u := by simp [hready, Ne.symm hu]
    rw [hne u hu] at hcounts
    exact ok_of_counts (inv.ok u) (by rw [hne u hu]) (by omega)
  · intro h hlt u
    rw [hn] at hlt
    rw [hharts]
    by_cases hu : u = s.nextTid
    · rw [hu, hself]
      exact (haccept h hlt).1
    · rw [hne u hu]
      exact inv.harts h hlt u
  · rw [hn, hharts]
    exact inv.wf
  · rw [hn, hharts]
    exact inv.own
  · intro h hlt u hc
    rw [hn] at hlt
    rw [hharts] at hc ⊢
    by_cases hu : u = s.nextTid
    · rw [hu, hself]
      exact (haccept h hlt).2 (hu ▸ hc)
    · rw [hne u hu]
      exact inv.cur h hlt u hc
  · intro m' hm'
    rw [hmgr] at hm'
    refine ⟨hn ▸ (inv.mgr m' hm').1, fun u => ?_⟩
    rw [hm, Option.some.injEq] at hm'
    rw [← hm', hpc]
    trivial
  · rw [hmgr, hn]
    exact inv.offers
  · rw [hmgr, hharts]
    exact inv.slot
  · intro u hu
    rw [hreg]
    by_cases hut : u = s.nextTid
    · simp [hut]
    · rw [hne u hut] at hu
      exact List.mem_append_left _ (inv.reg u hu)
  · rw [hfault]
    exact inv.fault

/-- A store of `promote_ready_from_parked` by the manager: the thread gets its token
back, and the right to resume it is used up. -/
theorem promote_inv (inv : Inv s) (fr : MgrOnly s s' m pc t ((s.threads t).store .ready))
    (hst : (s.threads t).state = .suspended ∧ m.pc.res t = 0 ∨
      (s.threads t).state = .blocking ∧ m.pc.res t = 1) (hold : m.pc.tok t = 0 ∧ m.pc.note t = 0)
    (hnew : pc.tok t = 1 ∧ pc.res t = 0 ∧ pc.note t = 0)
    (hw : ∀ u, u ≠ t → pc.tok u = m.pc.tok u ∧ pc.res u = m.pc.res u ∧ pc.note u = m.pc.note u)
    (hkeep : ∀ u, u ≠ t → ∀ st, pc.allows u st) (hallow : pc.allows t .ready)
    (hoffers : pc.offers = []) : Inv s' := by
  have hc := fr.counts t
  have hb := inv.mgr_bounds fr.before t
  have ho := (s.ok_iff t).mp (inv.ok t)
  have hcode : (s.threads t).state.code = 5 ∧ m.pc.res t = 0 ∨
      (s.threads t).state.code = 1 ∧ m.pc.res t = 1 := by
    rcases hst with ⟨hst, hres⟩ | ⟨hst, hres⟩
    · exact .inl ⟨by rw [hst]; rfl, hres⟩
    · exact .inr ⟨by rw [hst]; rfl, hres⟩
  have hlive : (s.threads t).state ≠ .exited := by
    rcases hst with ⟨hst, -⟩ | ⟨hst, -⟩ <;> simp [hst]
  have hslot : (s'.threads t).slotRes = (s.threads t).slotRes := by
    rw [fr.thread_self]
    rfl
  refine inv.manage_only fr ?_ hw
    (.inr ⟨hlive, inv.harts_accept (by omega) (by omega) _⟩) (fun u hu => hkeep u hu _) hallow ?_ ?_
  · rw [s'.ok_iff, fr.thread_self]
    simp only [Thread.state_store, ThreadState.code]
    rcases hcode with ⟨hcode, hres⟩ | ⟨hcode, hres⟩
    · omega
    · omega
  · rw [hoffers]
    exact nofun
  · intro h htgt
    cases pc <;> simp at htgt hoffers

/-- Changing an inbox leaves every hart where it was. -/
theorem State.inbox_points (hharts : s'.harts = update s.harts h { s.harts h with inbox })
    (h' : Nat) :
    (s'.harts h').pc = (s.harts h').pc ∧ (s'.harts h').current = (s.harts h').current := by
  rw [hharts]
  by_cases hh : h' = h
  · rw [hh, update_self]
    exact ⟨rfl, rfl⟩
  · rw [update_of_ne hh]
    exact ⟨rfl, rfl⟩

theorem State.inbox_counts (hlt : h < s.nHarts) (hn : s'.nHarts = s.nHarts)
    (hharts : s'.harts = update s.harts h { s.harts h with inbox }) (u : Tid) :
    s'.perHart (·.tok u) + (s.harts h).inbox.count u = s.perHart (·.tok u) + inbox.count u ∧
    s'.perHart (·.inbox.count u) + (s.harts h).inbox.count u =
      s.perHart (·.inbox.count u) + inbox.count u := by
  have htok := perHart_update hlt hn hharts (·.tok u)
  have hinbox := perHart_update hlt hn hharts (·.inbox.count u)
  refine ⟨?_, hinbox⟩
  rw [show (s.harts h).tok u = (s.harts h).inbox.count u +
      ((if (s.harts h).current = some u then 1 else 0) + (s.harts h).pc.held u) from
      Nat.add_assoc .., show Hart.tok { s.harts h with inbox } u = inbox.count u +
      ((if (s.harts h).current = some u then 1 else 0) + (s.harts h).pc.held u) from
      Nat.add_assoc ..] at htok
  omega

/-- A `Runnable` goes to the inbox of a hart, or is lost when the inbox is full. -/
theorem resumePush_inv (inv : Inv s) (hm : s.mgr = some m) (hpc : m.pc = .resumePush t) :
    Inv ((s.pushInbox m.hart t).goto m .work) := by
  have hlt := (inv.mgr m hm).1
  have hst : (s.threads t).state = .ready := by simpa [hpc] using (inv.mgr m hm).2 t
  obtain ⟨inbox, hinbox, hs'⟩ : ∃ inbox,
      (inbox = (s.harts m.hart).inbox ++ [t] ∨ inbox = (s.harts m.hart).inbox) ∧
      s.pushInbox m.hart t = s.setHart m.hart { s.harts m.hart with inbox } := by
    unfold pushInbox
    split
    · exact ⟨_, Or.inl rfl, rfl⟩
    · refine ⟨_, Or.inr rfl, ?_⟩
      simp [setHart]
  rw [hs']
  clear hs'
  obtain ⟨s', hs'⟩ : ∃ s', s' =
    (s.setHart m.hart { s.harts m.hart with inbox }).goto m .work := ⟨_, rfl⟩
  have hharts : s'.harts = update s.harts m.hart
      { s.harts m.hart with inbox } := by rw [hs']; rfl
  have hpoint := State.inbox_points hharts
  have fr : MgrFrame s s' m .work t (s.threads t) := by
    refine ⟨hm, ?_, ?_, fun h => (hpoint h).1, fun h => (hpoint h).2, ?_, ?_, ?_⟩ <;> rw [hs'] <;>
      first | rfl | exact (update_eq_self t s.threads).symm
  have hready : s'.ready = s.ready := by rw [hs']; rfl
  have hwork : s'.work = s.work ∧ s'.waiters = s.waiters ∧ s'.sleepInbox = s.sleepInbox ∧
      s'.registry = s.registry := by
    rw [hs']
    exact ⟨rfl, rfl, rfl, rfl⟩
  rw [← hs']
  clear hs'
  refine inv.manage fr (fun u => ?_) (.inl rfl) (fun _ _ => trivial) trivial (by simp) (by simp)
    fun u hu => Or.inl (hwork.2.2.2 ▸ hu)
  obtain ⟨htok, hqueued⟩ := State.inbox_counts hlt fr.nHarts hharts u
  by_cases hu : u = t
  · subst hu
    have hc := fr.counts u
    have hb := inv.mgr_bounds hm u
    have ho := (s.ok_iff u).mp (inv.ok u)
    rw [hready, hwork.1, hwork.2.1, hwork.2.2.1, fr.thread_self] at hc
    rw [s'.ok_iff, fr.thread_self]
    have hcount : inbox.count u = (s.harts m.hart).inbox.count u + 1 ∨
        inbox.count u = (s.harts m.hart).inbox.count u := by
      rcases hinbox with hi | hi <;> simp [hi]
    simp [hpc, hst] at hc hb ho ⊢
    omega
  have hcount : inbox.count u = (s.harts m.hart).inbox.count u := by
    rcases hinbox with hi | hi <;> simp [hi, List.count_append, Ne.symm hu]
  exact inv.manage_other fr hu (by simp [hpc, one_of_ne (Ne.symm hu)]) (by rw [hready]; omega)
    (by rw [hready]; omega) (by rw [hwork.1, hwork.2.1]) (by rw [hwork.2.2.1])

/-- Marking a thread as Exited. No hart is inside a park of it, so every hart that
names it finds out at its next load. -/
theorem kill_inv (inv : Inv s) (hm : s.mgr = some m) {leader : Tid} {rest : List Tid}
    (hpc : m.pc = .kill pid leader (t :: rest))
    (hclear : ∀ h, h < s.nHarts → (s.harts h).pc.exposed t = false) :
    Inv ((s.setThread t ((s.threads t).store .exited)).goto m (.kill pid leader rest)) := by
  by_cases hlive : (s.threads t).state = .exited
  · refine inv.manage_same (frame_gotoWrite hm _ t _) ?_ rfl ?_ ?_ ?_ ?_
    · rw [Thread.state_store, hlive]
    all_goals simp [hpc]
  obtain ⟨s', hs'⟩ : ∃ s', s' =
    (s.setThread t ((s.threads t).store .exited)).goto m (.kill pid leader rest) := ⟨_, rfl⟩
  have fr : MgrOnly s s' m (.kill pid leader rest) t ((s.threads t).store .exited) := by
    rw [hs']
    exact frame_gotoWrite hm _ t _
  rw [← hs']
  clear hs'
  refine inv.manage_only fr ?_ ?_ (.inr ⟨hlive, ?_⟩) ?_ trivial ?_ ?_
  · have hclaiming : s.perHart (·.pc.claiming t) = 0 := perHart_eq_zero.mpr fun h hlt => by
      have hh := hclear h hlt
      cases hpc : (s.harts h).pc <;> simp_all [HartPc.exposed, one]
    rw [← claiming] at hclaiming
    have hslot : (s'.threads t).slotRes = (s.threads t).slotRes := by
      rw [fr.thread_self]
      rfl
    have hc := fr.counts t
    have ho := (s.ok_iff t).mp (inv.ok t)
    rw [s'.ok_iff, fr.thread_self]
    simp only [hpc, MgrPc.tok, MgrPc.res, MgrPc.note] at hc
    simp
    omega
  · intro u hu
    simp [hpc]
  · intro h hlt
    have hh := hclear h hlt
    refine ⟨?_, fun _ => Or.inr (.inr rfl)⟩
    cases hpc : (s.harts h).pc <;> simp_all [HartPc.exposed]
  · exact fun _ _ => trivial
  · simp
  · simp

/-- `run_create_thread_req` keeps the invariant and leaves the queues alone. -/
theorem runCreateThreadReq_inv (inv : Inv s) (hm : s.mgr = some m) (hpc : m.pc = .work)
    {parentAllowed allowed affinity : UInt64} {ok : Bool} :
    ∃ s₁, Inv s₁ ∧ s₁.mgr = some m ∧ s₁.work = s.work ∧ s₁.waiters = s.waiters ∧
      ({ s with work := rest }.runCreateThreadReq pid parentAllowed allowed affinity ok frame).1 =
        { s₁ with work := rest } := by
  unfold runCreateThreadReq
  split
  · exact ⟨s, inv, hm, rfl, rfl, rfl⟩
  split
  · exact ⟨s, inv, hm, rfl, rfl, rfl⟩
  next proc _ =>
  split
  · exact ⟨_, admitThread_inv inv hm hpc, hm, rfl, rfl, rfl⟩
  · exact ⟨s, inv, hm, rfl, rfl, rfl⟩

/-- The queues after the request at the head of the work queue has been taken. -/
theorem count_work_head {w : Work} (hwork : s.work = w :: rest)
    (hw : ∀ u, w.isCall u = decide (t = u)) (u : Tid) :
    s.work.countP (Work.isCall u) + s.waiters.countP (fun w => w.1 = u) =
      rest.countP (Work.isCall u) + s.waiters.countP (fun w => w.1 = u) + one t u := by
  rw [hwork, List.countP_cons, hw, one]
  simp only [decide_eq_true_eq]
  omega

theorem count_waiter {i call : Nat} (hi : s.waiters[i]? = some (t, call)) (u : Tid) :
    s.work.countP (Work.isCall u) + s.waiters.countP (fun w => w.1 = u) =
      s.work.countP (Work.isCall u) + (s.waiters.eraseIdx i).countP (fun w => w.1 = u) +
        one t u := by
  obtain ⟨hlt, hget⟩ := List.getElem?_eq_some_iff.mp hi
  have hperm := (List.getElem_cons_eraseIdx_perm hlt).countP_eq (fun w : Tid × Nat => w.1 = u)
  rw [List.countP_cons, hget] at hperm
  simp only [one, decide_eq_true_eq] at hperm ⊢
  omega

variable (inv : Inv s)

include inv

theorem workHead_inv (hm : s.mgr = some m) (hpc : m.pc = .work)
    (hs : workStep s m c .work = some s') : Inv s' := by
  simp only [workStep] at hs
  split at hs
  · next i vals direct =>
    split at hs
    · next t call hi =>
      cases hs
      exact complete_inv inv hm hpc (count_waiter hi) _ _
    · cases hs
  split at hs
  · cases hs
    exact inv.aside hm hpc
  · next t call rest vals direct hwork _ =>
    cases hs
    exact complete_inv inv hm hpc (count_work_head hwork fun _ => rfl) _ _
  · next t call rest hwork _ =>
    cases hs
    refine takeWork_inv (k := fun _ => 0) inv hm hpc (fun u => ?_)
      (fun u => ⟨rfl, rfl, Or.inl rfl⟩) rfl fun _ _ => trivial
    have hcount := count_work_head hwork (fun _ => rfl) u
    rw [hcount, List.countP_append, List.countP_singleton, one]
    simp only [decide_eq_true_eq]
    omega
  · next t call pid parentAllowed allowed affinity rest ok frame hwork _ =>
    obtain ⟨s₁, inv₁, hm₁, hw₁, hq₁, he⟩ := runCreateThreadReq_inv inv hm hpc
    have hs := Option.some.inj hs
    rw [he] at hs
    rw [← hs]
    refine complete_inv inv₁ hm₁ hpc (fun u => ?_) _ _
    rw [hw₁, hq₁]
    exact count_work_head hwork (fun _ => rfl) u
  · next pid leader code rest hwork _ =>
    have hcount : ∀ u, s.work.countP (Work.isCall u) + s.waiters.countP (fun w => w.1 = u) =
        rest.countP (Work.isCall u) + s.waiters.countP (fun w => w.1 = u) + 0 := by
      intro u
      rw [hwork, List.countP_cons]
      simp [Work.isCall]
    split at hs <;> cases hs
    · exact takeWork_inv inv hm hpc hcount (fun u => ⟨rfl, rfl, Or.inl rfl⟩) rfl
        fun _ _ => trivial
    · exact takeWork_inv inv hm hpc hcount (fun u => ⟨rfl, rfl, Or.inl rfl⟩) rfl
        fun _ _ => trivial
  · cases hs

/-- `claim_parked` for a direct resume: a parked thread whose answer the manager holds
is parked for that answer. -/
theorem resume_inv (hm : s.mgr = some m) (hpc : m.pc = .resume t p)
    (hs : (if t ∈ s.registry then
        if (s.threads t).state.parked then some (s.goto m (.resumeWrite t p))
        else some (s.goto m (.publish t p)) else some (s.goto m .work)) = some s') : Inv s' := by
  have ho := (s.ok_iff t).mp (inv.ok t)
  have hb := inv.mgr_bounds hm t
  simp only [hpc, MgrPc.tok, MgrPc.res, MgrPc.note, one_self] at hb
  split at hs
  · split at hs <;> cases hs
    · next hparked =>
      have hst : (s.threads t).state = .blocking := by
        cases hst : (s.threads t).state <;> simp [hst, ThreadState.parked] at hparked ho
        · rfl
        · omega
      refine inv.manage_same (frame_goto hm _ t) rfl rfl ?_ ?_ ?_ ?_
      · simp [hpc]
      · rintro u rfl
        exact hst
      · simp
      · simp
    · exact inv.manage_same (frame_goto hm _ t) rfl rfl (by simp [hpc]) (by simp)
        (by simp) (by simp)
  next ht =>
  have fr : MgrOnly s s' m .work t (s.threads t) := by
    cases hs
    exact frame_goto hm _ t
  have hcode : (s.threads t).state.code = 4 := by rw [exited_of_not_mem inv ht]; rfl
  refine inv.manage_only fr ?_ ?_ (.inl rfl) (fun _ _ => trivial) trivial (by simp) (by simp)
  · have hc := fr.counts t
    rw [fr.thread_self] at hc
    rw [s'.ok_iff, fr.thread_self]
    simp only [hpc, MgrPc.tok, MgrPc.res, MgrPc.note, one_self] at hc
    omega
  · intro u hu
    simp [hpc, one_of_ne (Ne.symm hu)]

/-- `publish_results`: the manager's answer fills the empty slot. -/
theorem publish_inv (hpc : m.pc = .publish t p)
    (fr : MgrOnly s s' m (.publishWake t)
      t { (s.threads t).publishResults p with answer := some p }) : Inv s' := by
  refine inv.manage_only fr ?_ ?_ (.inl rfl) (fun _ _ => trivial) trivial (by simp) (by simp)
  · have hc := fr.counts t
    have hb := inv.mgr_bounds fr.before t
    have hright := (inv.ok t).right
    have hslot : (s'.threads t).slotRes = 1 := by
      rw [fr.thread_self]
      rfl
    have hst : (s'.threads t).state = (s.threads t).state := by
      rw [fr.thread_self]
      rfl
    apply ok_of_counts (inv.ok t) hst
    simp only [ledger] at hright
    simp only [hpc, MgrPc.tok, MgrPc.res, MgrPc.note, one_self] at hc hb
    omega
  · intro u hu
    simp [hpc, one_of_ne (Ne.symm hu)]

theorem resumeReset_inv (hpc : m.pc = .resumeReset t p)
    (fr : MgrOnly s s' m (.resumeLoad t p) t (s.threads t).resetPending) : Inv s' := by
  have hst : (s.threads t).state = .blocking := by simpa [hpc] using (inv.mgr m fr.before).2 t
  have hb := inv.mgr_bounds fr.before t
  have ho := (inv.ok t).right
  simp only [ledger] at ho
  simp only [hpc, MgrPc.tok, MgrPc.res, MgrPc.note, one_self] at hb
  have hslot : (s.threads t).slotRes = 0 := by omega
  refine inv.manage_same fr rfl hslot.symm ?_ ?_ ?_ ?_
  · simp [hpc]
  · rintro u rfl
    exact hst
  · simp
  · simp

theorem workStep_inv (hm : s.mgr = some m) (hclear : ∀ t, m.pc.kills s.registry = some t →
      ∀ h, h < s.nHarts → (s.harts h).pc.exposed t = false)
    (hs : workStep s m c m.pc = some s') : Inv s' := by
  have hallow := (inv.mgr m hm).2
  cases hpc : m.pc with
  | work => exact workHead_inv inv hm hpc (hpc ▸ hs)
  | resume t p =>
    simp only [hpc, workStep] at hs
    exact resume_inv inv hm hpc hs
  | resumeWrite t p =>
    simp only [hpc, workStep] at hs
    cases hs
    simp only [hpc, MgrPc.allows] at hallow
    exact inv.manage_same (frame_gotoWrite hm _ t _) rfl rfl (by simp [hpc]) hallow (by simp)
      (by simp)
  | resumeReset t p =>
    simp only [hpc, workStep] at hs
    cases hs
    exact resumeReset_inv inv hpc (frame_gotoWrite hm _ t _)
  | resumeLoad t p =>
    simp only [hpc, MgrPc.allows] at hallow
    have hst := hallow t rfl
    simp only [hpc, workStep, hst, ThreadState.parked, if_true] at hs
    cases hs
    exact inv.manage_same (frame_goto hm _ t) rfl rfl (by simp [hpc]) hallow (by simp) (by simp)
  | resumeStore t p =>
    simp only [hpc, workStep] at hs
    cases hs
    simp only [hpc, MgrPc.allows] at hallow
    refine promote_inv inv (frame_gotoWrite hm _ t _) (.inr ⟨hallow t rfl, ?_⟩) ?_ ?_ ?_ ?_ ?_ rfl
    · simp [hpc]
    · simp [hpc]
    · simp
    · intro u hu
      simp [hpc, one_of_ne (Ne.symm hu)]
    · exact fun u hu _ ht => absurd ht.symm hu
    · exact fun _ => rfl
  | resumePush t =>
    simp only [hpc, workStep] at hs
    cases hs
    exact resumePush_inv inv hm hpc
  | publish t p =>
    simp only [hpc, workStep] at hs
    cases hs
    exact publish_inv inv hpc (frame_gotoWrite hm _ t _)
  | publishWake t =>
    simp only [hpc, workStep, wakeQueuePush] at hs
    cases hs
    split
    · exact inv.aside hm hpc
    · exact inv.aside hm hpc
  | kill pid leader rest =>
    cases rest with
    | nil =>
      simp only [hpc, workStep] at hs
      cases hs
      exact inv.aside hm hpc
    | cons t rest =>
      simp only [hpc, workStep] at hs
      split at hs <;> cases hs
      · next ht =>
        exact kill_inv inv hm hpc (hclear t (by simp [hpc, MgrPc.kills, ht]))
      · exact inv.aside hm hpc
  | _ => simp [hpc, workStep] at hs

end Work

end Orbit.Sched
