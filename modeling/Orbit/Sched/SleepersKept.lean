import Orbit.Sched.Sleepers

/-!
The manager's part of the sleepers' invariant, and what it says about runs: no
Suspended thread is without a notice of its park, and the timer promotes no thread
before its deadline, as long as no thread parks anew between the two loads with which
`drain_woken` judges an old entry of it.
-/

namespace Orbit.Sched

open Transition Function State

variable {rest : List SleepNotice} {th : Thread} {now seq : UInt64}

variable {c : Choice} {n : SleepNotice}

variable {s s' : State} {a : Action} {t : Tid} {h : Nat} {m m' : Mgr} {pc : MgrPc}

/-- A point at which the manager has no notice in hand and promotes nobody. -/
structure MgrPc.Plain (pc : MgrPc) : Prop where
  holds : pc.holds = none
  returns : pc.returns = none
  unjudged : ∀ now seq, pc ≠ .wokenState now seq

theorem MgrPc.promotes_returns {pc : MgrPc} {x : Tid × After} (h : pc.promotes = some x) :
    pc.returns = some x := by
  cases pc with
  | claim u mode a => cases mode <;> simp_all
  | swapWake u rets a | promoteLoad u rets a | promoteStore u rets a => cases rets <;> simp_all
  | _ => simp at h

theorem After.pc_plain (a : After) : a.pc.Plain := by
  cases a <;> exact ⟨rfl, rfl, fun _ _ => by simp [After.pc]⟩

theorem ScanCaller.pc_plain (c : ScanCaller) : c.pc.Plain := by
  rcases c with _ | (_ | _) <;> exact ⟨rfl, rfl, fun _ _ => by simp [ScanCaller.pc]⟩

theorem Answered.plain {p : Published} (h : Answered s t p pc) : pc.Plain := by
  rcases h with rfl | ⟨rfl, -⟩ | ⟨rfl, -⟩ <;> exact ⟨rfl, rfl, fun _ _ => by simp⟩

namespace Sleepers

/-- A step of the manager that leaves the harts alone. -/
theorem of_mgr (sl : Sleepers s) (hm' : s'.mgr = some m') (hn : s'.nHarts = s.nHarts)
    (hpcs : ∀ h, (s'.harts h).pc = (s.harts h).pc)
    (hthread : ∀ u, (s'.threads u).wakeTime = (s.threads u).wakeTime ∧
      (s'.threads u).sleepSeq = (s.threads u).sleepSeq ∧
      ((s'.threads u).state = .suspended → (s.threads u).state = .suspended))
    (hkept : ∀ u, (s'.threads u).state = .suspended → s.notice u ∈ s.notices ∨ s.Promoting u →
      s.notice u ∈ s'.notices ∨ s'.Promoting u)
    (hnew : ∀ n, n ∈ s'.notices → n ∈ s.notices)
    (hseen : ∀ now seq, m'.pc = .wokenState now seq →
      ∃ e rest, s'.heap = e :: rest ∧ seq = (s.threads e.thread).sleepSeq)
    (hdue : ∀ u now, m'.pc.returns = some (u, .woken now) →
      m'.pc.promotes = some (u, .woken now) ∧ (s.threads u).wakeTime ≤ now) : Sleepers s' := by
  have hnotice : ∀ u, s'.notice u = s.notice u := by
    intro u
    rw [notice, notice, (hthread u).1, (hthread u).2.1]
  constructor
  · intro u hu
    rw [hnotice]
    exact hkept u hu (sl.kept u ((hthread u).2.2 hu))
  · intro h hlt n hc
    rw [hpcs] at hc
    rw [hnotice]
    exact sl.carried h (hn ▸ hlt) n hc
  · intro n hin hp hq
    rw [(hthread _).1]
    rw [(hthread _).2.1] at hq
    refine sl.exact n (hnew n hin) ?_ hq
    rcases hp with hst | ⟨h, hlt, n', hc, hn'⟩
    · exact .inl ((hthread _).2.2 hst)
    · exact .inr ⟨h, hn ▸ hlt, n', hpcs h ▸ hc, hn'⟩
  · intro m₁ now seq hm hpc
    rw [hm'] at hm
    cases hm
    obtain ⟨e, rest, he, hseq⟩ := hseen now seq hpc
    exact ⟨e, rest, he, by rw [(hthread _).2.1]; exact hseq⟩
  intro m₁ u now hm hr
  rw [hm'] at hm
  cases hm
  rw [(hthread u).1]
  exact hdue u now hr

theorem mem_notices_mgr (hm : s.mgr = some m) : n ∈ s.notices ↔
    (∃ h, h < s.nHarts ∧ (s.harts h).pc.pushes = some n) ∨ n ∈ s.sleepInbox ∨ n ∈ s.heap ∨
      m.pc.holds = some n := by
  simp only [mem_notices, hm, Option.some.injEq, exists_eq_left']

/-- The notices while harts, inbox and heap are as they were and the manager has none in
hand. -/
theorem mem_notices_of_same (hm : s.mgr = some m) (hm' : s'.mgr = some m')
    (hn : s'.nHarts = s.nHarts) (hpcs : ∀ h, (s'.harts h).pc = (s.harts h).pc)
    (hinbox : s'.sleepInbox = s.sleepInbox) (hheap : s'.heap = s.heap)
    (hheld : m'.pc.holds = m.pc.holds) (n : SleepNotice) : n ∈ s'.notices ↔ n ∈ s.notices := by
  simp only [mem_notices_mgr hm, mem_notices_mgr hm', hn, hpcs, hinbox, hheap, hheld]

section

variable (sl : Sleepers s)

include sl

/-- A step of the manager that touches no notice. -/
theorem of_quiet_mgr (hm : s.mgr = some m) (hm' : s'.mgr = some m')
    (hn : s'.nHarts = s.nHarts) (hpcs : ∀ h, (s'.harts h).pc = (s.harts h).pc)
    (hinbox : s'.sleepInbox = s.sleepInbox) (hheap : s'.heap = s.heap)
    (hthread : ∀ u, (s'.threads u).wakeTime = (s.threads u).wakeTime ∧
      (s'.threads u).sleepSeq = (s.threads u).sleepSeq ∧
      ((s'.threads u).state = .suspended → (s.threads u).state = .suspended))
    (hheld : m'.pc.holds = m.pc.holds)
    (hprom : ∀ u a, m.pc.promotes = some (u, a) → (s'.threads u).state = .suspended →
      m'.pc.promotes = some (u, a))
    (hseen : ∀ now seq, m'.pc = .wokenState now seq →
      ∃ e rest, s.heap = e :: rest ∧ seq = (s.threads e.thread).sleepSeq)
    (hdue : ∀ u now, m'.pc.returns = some (u, .woken now) →
      m'.pc.promotes = some (u, .woken now) ∧ m.pc.returns = some (u, .woken now)) :
    Sleepers s' := by
  have hnotices := mem_notices_of_same hm hm' hn hpcs hinbox hheap hheld
  apply sl.of_mgr hm' hn hpcs hthread
  · rintro u hu (hin | ⟨m₁, a, hm₁, hp⟩)
    · exact .inl ((hnotices _).mpr hin)
    rw [hm] at hm₁
    cases hm₁
    exact .inr ⟨m', a, hm', hprom u a hp hu⟩
  · exact fun n hin => (hnotices n).mp hin
  · intro now seq hpc
    rw [hheap]
    exact hseen now seq hpc
  intro u now hr
  obtain ⟨hp, hold⟩ := hdue u now hr
  exact ⟨hp, (sl.due m u now hm hold).2⟩

/-- The same where the manager goes on to a plain point. -/
theorem of_plain (hm : s.mgr = some m) (hm' : s'.mgr = some m')
    (hn : s'.nHarts = s.nHarts) (hpcs : ∀ h, (s'.harts h).pc = (s.harts h).pc)
    (hinbox : s'.sleepInbox = s.sleepInbox) (hheap : s'.heap = s.heap)
    (hthreads : s'.threads = s.threads) (hheld : m.pc.holds = none)
    (hprom : ∀ u a, m.pc.promotes = some (u, a) → (s.threads u).state ≠ .suspended)
    (hplain : m'.pc.Plain) : Sleepers s' := by
  apply sl.of_quiet_mgr hm hm' hn hpcs hinbox hheap
  · intro u
    rw [hthreads]
    exact ⟨rfl, rfl, id⟩
  · rw [hheld]
    exact hplain.holds
  · intro u a hp hu
    rw [hthreads] at hu
    exact absurd hu (hprom u a hp)
  · exact fun now seq hpc => absurd hpc (hplain.unjudged now seq)
  intro u now hr
  rw [hplain.returns] at hr
  cases hr

/-- The manager takes up a notice whose thread has been sent a wake. -/
theorem sleepClaim (hm : s.mgr = some m) (hpc : m.pc = .sleepCheck n) :
    Sleepers (s.goto m (.claim n.thread .promoteWake .sleeps)) := by
  have hm' : (s.goto m (.claim n.thread .promoteWake .sleeps)).mgr =
    some ⟨m.hart, .claim n.thread .promoteWake .sleeps⟩ := rfl
  have hnotices : ∀ n', n' ∈ s.notices ↔
      n' ∈ (s.goto m (.claim n.thread .promoteWake .sleeps)).notices ∨ n = n' := by
    intro n'
    rw [mem_notices_mgr hm, mem_notices_mgr hm', hpc]
    simp only [MgrPc.holds, Option.some.injEq, reduceCtorEq, or_false, or_assoc]
    exact Iff.rfl
  apply sl.of_mgr hm' rfl (fun _ => rfl)
  · exact fun _ => ⟨rfl, rfl, id⟩
  · rintro u hu (hin | hp)
    · rcases (hnotices _).mp hin with hin | heq
      · exact .inl hin
      · exact .inr ⟨_, .sleeps, hm', by rw [heq]; rfl⟩
    exact absurd hp (not_promoting hm (by rw [hpc]; rfl) u)
  · exact fun n' hin => (hnotices n').mpr (.inl hin)
  · simp
  · simp

/-- A step between plain points on another part of the state. -/
theorem of_elsewhere (hm : s.mgr = some m) (hold : m.pc.Plain) {r : State}
    (hn : r.nHarts = s.nHarts) (hpcs : ∀ h, (r.harts h).pc = (s.harts h).pc)
    (hinbox : r.sleepInbox = s.sleepInbox) (hheap : r.heap = s.heap)
    (hthreads : r.threads = s.threads) (hnew : pc.Plain) : Sleepers (r.goto m pc) := by
  have hm' : (r.goto m pc).mgr = some ⟨m.hart, pc⟩ := rfl
  apply sl.of_plain hm hm' hn hpcs hinbox hheap hthreads hold.holds _ hnew
  intro u a hp
  have hr := MgrPc.promotes_returns hp
  rw [hold.returns] at hr
  cases hr

/-- Accesses of the manager that only load, the judgement of a heap entry apart. -/
theorem goto (hm : s.mgr = some m)
    (hjudge : ∀ now seq, m.pc ≠ .wokenState now seq) (move : MgrGoto s m.hart m.pc pc) :
    Sleepers (s.goto m pc) := by
  have hm' : (s.goto m pc).mgr = some ⟨m.hart, pc⟩ := rfl
  have plain : pc.Plain → m.pc.holds = none →
      (∀ u a, m.pc.promotes = some (u, a) → (s.threads u).state ≠ .suspended) →
      Sleepers (s.goto m pc) := fun hplain hheld hprom =>
    sl.of_plain hm hm' rfl (fun _ => rfl) rfl rfl rfl hheld hprom hplain
  have quiet : pc.holds = m.pc.holds →
      (∀ u a, m.pc.promotes = some (u, a) → pc.promotes = some (u, a)) →
      (∀ now seq, pc = .wokenState now seq →
        ∃ e rest, s.heap = e :: rest ∧ seq = (s.threads e.thread).sleepSeq) →
      (∀ u now, pc.returns = some (u, .woken now) →
        pc.promotes = some (u, .woken now) ∧ m.pc.returns = some (u, .woken now)) →
      Sleepers (s.goto m pc) := fun hheld hprom hseen hdue =>
    sl.of_quiet_mgr hm hm' rfl (fun _ => rfl) rfl rfl (fun _ => ⟨rfl, rfl, id⟩) hheld
      (fun u a hp _ => hprom u a hp) hseen hdue
  have due := fun u now => sl.due m u now hm
  obtain ⟨self, pc₀⟩ := m
  simp only at move plain quiet due hjudge
  cases move with
  | claimPromote t a =>
    apply quiet
    · rfl
    · exact fun _ _ hp => hp
    · simp
    · exact fun _ _ hr => ⟨hr, hr⟩
  | claimPublished t a =>
    apply quiet
    · rfl
    · simp
    · simp
    · intro u now hr
      exact absurd (due u now hr).1 (by simp)
  | promoteLoad t rets a =>
    apply quiet
    · rfl
    · cases rets <;> exact fun _ _ hp => hp
    · simp
    intro u now hr
    refine ⟨?_, hr⟩
    cases rets <;> exact (due u now hr).1
  | sleepClaim n => exact sl.sleepClaim hm rfl
  | woken now e rest hheap =>
    apply quiet
    · rfl
    · simp
    · intro now' seq hpc
      simp only [MgrPc.wokenState.injEq] at hpc
      exact ⟨e, rest, hheap, hpc.2.symm⟩
    · simp
  | wokenWait now seq => exact absurd rfl (hjudge now seq)
  | claimMiss t mode a hst =>
    apply plain a.pc_plain rfl
    intro u b hp hu
    have hr := MgrPc.promotes_returns hp
    simp only [MgrPc.returns, Option.some.injEq, Prod.mk.injEq] at hr
    rw [hr.1, hu] at hst
    cases hst
  | takeNone t a => exact plain a.pc_plain rfl (by simp)
  | nudgeSkip n => exact plain (ScanCaller.pc_plain _) rfl (by simp)
  | scanDone k => exact plain (ScanCaller.pc_plain _) rfl (by simp)
  | _ => exact plain ⟨rfl, rfl, by simp⟩ rfl (by simp)

/-- Accesses of the manager that write the record of one thread. -/
theorem write (inv : Inv s) (hm : s.mgr = some m)
    (move : MgrWrite s m.pc t th pc) : Sleepers ((s.setThread t th).goto m pc) := by
  have hm' : ((s.setThread t th).goto m pc).mgr = some ⟨m.hart, pc⟩ := rfl
  have hself : ((s.setThread t th).goto m pc).threads t = th := by
    simp [State.goto, setThread]
  have hthread : th.wakeTime = (s.threads t).wakeTime → th.sleepSeq = (s.threads t).sleepSeq →
      (th.state = .suspended → (s.threads t).state = .suspended) →
      ∀ u, (((s.setThread t th).goto m pc).threads u).wakeTime = (s.threads u).wakeTime ∧
        (((s.setThread t th).goto m pc).threads u).sleepSeq = (s.threads u).sleepSeq ∧
        ((((s.setThread t th).goto m pc).threads u).state = .suspended →
          (s.threads u).state = .suspended) := by
    intro hwake hseq hst u
    by_cases hu : u = t
    · rw [hu, hself]
      exact ⟨hwake, hseq, hst⟩
    · simp [State.goto, setThread, hu]
  have quiet : th.wakeTime = (s.threads t).wakeTime → th.sleepSeq = (s.threads t).sleepSeq →
      (th.state = .suspended → (s.threads t).state = .suspended) →
      pc.holds = m.pc.holds →
      (∀ u a, m.pc.promotes = some (u, a) → pc.promotes = some (u, a) ∨
        u = t ∧ th.state ≠ .suspended) →
      (∀ now seq, pc ≠ .wokenState now seq) →
      (∀ u now, pc.returns = some (u, .woken now) →
        pc.promotes = some (u, .woken now) ∧ m.pc.returns = some (u, .woken now)) →
      Sleepers ((s.setThread t th).goto m pc) := by
    intro hwake hseq hst hheld hprom hjudge hdue
    apply sl.of_quiet_mgr hm hm' rfl (fun _ => rfl) rfl rfl (hthread hwake hseq hst) hheld _ _ hdue
    · intro u a hp hu
      rcases hprom u a hp with hp' | ⟨rfl, hne⟩
      · exact hp'
      · rw [hself] at hu
        exact absurd hu hne
    · exact fun now seq hpc => absurd hpc (hjudge now seq)
  have due := fun u now => sl.due m u now hm
  have hallow := (inv.mgr m hm).2 t
  obtain ⟨self, pc₀⟩ := m
  simp only at move quiet due hallow
  cases move with
  | scanNote t st signaled k =>
    have hverb : (scanVerb t st signaled k).holds = none ∧
        (∀ now seq, scanVerb t st signaled k ≠ .wokenState now seq) ∧
        ∀ u now, (scanVerb t st signaled k).returns ≠ some (u, .woken now) := by
      unfold scanVerb
      split
      · simp
      · split <;> simp
    apply quiet rfl rfl id
    · exact hverb.1
    · simp
    · exact hverb.2.1
    · exact fun u now hr => absurd hr (hverb.2.2 u now)
  | marshal t p a | take t a p =>
    apply quiet rfl rfl id rfl
    · simp
    · simp
    · exact fun u now hr => absurd (due u now hr).1 (by simp)
  | swapWake t rets a =>
    apply quiet rfl rfl id rfl
    · cases rets <;> exact fun _ _ hp => .inl hp
    · simp
    intro u now hr
    refine ⟨?_, hr⟩
    cases rets <;> exact (due u now hr).1
  | promoteStore t rets a =>
    apply quiet rfl rfl (by simp [Thread.store]) rfl
    · intro u b hp
      have hr := MgrPc.promotes_returns hp
      simp only [MgrPc.returns, Option.some.injEq, Prod.mk.injEq] at hr
      exact .inr ⟨hr.1.symm, by simp [Thread.store]⟩
    · simp
    · simp
  | resumeStore | kill | assignStore =>
    apply quiet rfl rfl (by simp [Thread.store]) rfl
    · simp
    · simp
    · simp
  | resumeWrite | resumeReset | publish | assignReady | assignExited =>
    apply quiet rfl rfl id rfl
    · simp
    · simp
    · simp

end

/-- What the two loads of `drain_woken` lead to. -/
theorem wokenState_cases {e : SleepNotice}
    (hpc : m.pc = .wokenState now seq) (hheap : s.heap = e :: rest) (hs : mgrStep s m c = some s') :
    s' = s.fail (.useAfterFree e.thread) ∨ s' = s.goto m (.inboxes 0) ∨
      classify seq (s.threads e.thread).state e.sleepSeq = .stale ∧
        s' = { s with heap := rest }.goto m (.woken now) ∨
      classify seq (s.threads e.thread).state e.sleepSeq = .live ∧ e.wakeTime ≤ now ∧
        s' = { s with heap := rest }.goto m (.claim e.thread .promoteWake (.woken now)) := by
  simp only [mgrStep, hpc, sleepStep, hheap, deref] at hs
  split at hs
  · exact .inl (Option.some.inj hs).symm
  split at hs
  · next hst => exact .inr (.inr (.inl ⟨hst, (Option.some.inj hs).symm⟩))
  · exact .inr (.inl (Option.some.inj hs).symm)
  next hlive =>
  split at hs
  · exact .inr (.inl (Option.some.inj hs).symm)
  · next hdue =>
    exact .inr (.inr (.inr ⟨hlive, UInt64.not_lt.mp hdue, (Option.some.inj hs).symm⟩))

theorem classify_live_seq {liveSeq entrySeq : UInt64} {st : ThreadState}
    (h : classify liveSeq st entrySeq = .live) : liveSeq = entrySeq := by
  by_contra hne
  simp [classify, hne] at h

variable (sl : Sleepers s)

include sl

/-- The judgement of the entry at the top of the heap. -/
theorem wokenState (hm : s.mgr = some m)
    (hpc : m.pc = .wokenState now seq) (hs : mgrStep s m c = some s') : Sleepers s' := by
  obtain ⟨e, rest, hheap, hseq⟩ := sl.seen m now seq hm hpc
  have hpopped : ∀ pc : MgrPc, pc.holds = none → ∀ n,
      n ∈ s.notices ↔ n ∈ ({ s with heap := rest }.goto m pc).notices ∨ n = e := by
    intro pc hheld n
    have hm' : ({ s with heap := rest }.goto m pc).mgr = some ⟨m.hart, pc⟩ := rfl
    have hnone : (MgrPc.wokenState now seq).holds = none := rfl
    rw [mem_notices_mgr hm, mem_notices_mgr hm', hpc, hheap]
    simp only [hnone, hheld, reduceCtorEq, or_false, List.mem_cons, State.goto]
    constructor
    · rintro (hp | hi | rfl | hr)
      · exact .inl (.inl hp)
      · exact .inl (.inr (.inl hi))
      · exact .inr rfl
      · exact .inl (.inr (.inr hr))
    rintro ((hp | hi | hr) | rfl)
    · exact .inl hp
    · exact .inr (.inl hi)
    · exact .inr (.inr (.inr hr))
    · exact .inr (.inr (.inl rfl))
  have hidle := not_promoting hm (by rw [hpc]; rfl)
  rcases wokenState_cases hpc hheap hs with rfl | rfl | ⟨hst, rfl⟩ | ⟨hlive, hdue, rfl⟩
  · exact sl.congr rfl rfl rfl rfl rfl rfl
  · have hm' : (s.goto m (.inboxes 0)).mgr = some ⟨m.hart, .inboxes 0⟩ := rfl
    apply sl.of_plain hm hm' rfl (fun _ => rfl) rfl rfl rfl
    · rw [hpc]
      rfl
    · rw [hpc]
      simp
    · exact ⟨rfl, rfl, by simp⟩
  · have hm' : ({ s with heap := rest }.goto m (.woken now)).mgr = some ⟨m.hart, .woken now⟩ := rfl
    apply sl.of_mgr hm' rfl (fun _ => rfl) (fun _ => ⟨rfl, rfl, id⟩)
    · rintro u hu (hin | hp)
      · rcases (hpopped (.woken now) rfl _).mp hin with hin | heq
        · exact .inl hin
        -- the entry of a Suspended thread's current park is not stale
        rw [← heq] at hst hseq
        have hu' : (s.threads u).state = .suspended := hu
        simp only [notice] at hst hseq
        rw [hseq, hu'] at hst
        simp [classify] at hst
      · exact absurd hp (hidle u)
    · exact fun n hin => (hpopped (.woken now) rfl n).mpr (.inl hin)
    · simp
    · simp
  have hm' : ({ s with heap := rest }.goto m (.claim e.thread .promoteWake (.woken now))).mgr =
    some ⟨m.hart, .claim e.thread .promoteWake (.woken now)⟩ := rfl
  apply sl.of_mgr hm' rfl (fun _ => rfl) (fun _ => ⟨rfl, rfl, id⟩)
  · rintro u hu (hin | hp)
    · rcases (hpopped (.claim e.thread .promoteWake (.woken now)) rfl _).mp hin with hin | heq
      · exact .inl hin
      · exact .inr ⟨_, .woken now, hm', by rw [← heq]; rfl⟩
    · exact absurd hp (hidle u)
  · exact fun n hin => (hpopped _ rfl n).mpr (.inl hin)
  · simp
  intro u now' hr
  simp only [MgrPc.returns] at hr
  cases hr
  refine ⟨rfl, ?_⟩
  -- the number was loaded from the thread, so the entry is the one of its current park
  have hin : e ∈ s.notices := (hpopped (.woken now) rfl e).mpr (.inr rfl)
  have hnum : e.sleepSeq = (s.threads e.thread).sleepSeq :=
    (classify_live_seq hlive).symm.trans hseq
  rw [← sl.exact e hin (.inl (classify_live hlive)) hnum]
  exact hdue

/-- The manager takes a notice out of the inbox. -/
theorem popNotice (hm : s.mgr = some m) (hpc : m.pc = .sleeps) (hinbox : s.sleepInbox = n :: rest) :
    Sleepers ({ s with sleepInbox := rest }.goto m (.sleepCheck n)) := by
  have hm' : ({ s with sleepInbox := rest }.goto m (.sleepCheck n)).mgr =
    some ⟨m.hart, .sleepCheck n⟩ := rfl
  have hnotices : ∀ n', n' ∈ ({ s with sleepInbox := rest }.goto m (.sleepCheck n)).notices ↔
      n' ∈ s.notices := by
    intro n'
    rw [mem_notices_mgr hm, mem_notices_mgr hm', hpc, hinbox]
    simp only [MgrPc.holds, Option.some.injEq, reduceCtorEq, or_false, List.mem_cons, State.goto]
    constructor
    · rintro (hp | hi | hh | rfl)
      · exact .inl hp
      · exact .inr (.inl (.inr hi))
      · exact .inr (.inr hh)
      · exact .inr (.inl (.inl rfl))
    rintro (hp | (rfl | hi) | hh)
    · exact .inl hp
    · exact .inr (.inr (.inr rfl))
    · exact .inr (.inl hi)
    · exact .inr (.inr (.inl hh))
  apply sl.of_mgr hm' rfl (fun _ => rfl) (fun _ => ⟨rfl, rfl, id⟩)
  · rintro u hu (hin | hp)
    · exact .inl ((hnotices _).mpr hin)
    exact absurd hp (not_promoting hm (by rw [hpc]; rfl) u)
  · exact fun n' hin => (hnotices n').mp hin
  · simp
  · simp

/-- The manager files a notice in the heap. -/
theorem sleepHeap (hm : s.mgr = some m) (hpc : m.pc = .sleepCheck n) :
    Sleepers ({ s with heap := heapPush n s.heap }.goto m .sleeps) := by
  have hm' : ({ s with heap := heapPush n s.heap }.goto m .sleeps).mgr = some ⟨m.hart, .sleeps⟩ :=
    rfl
  have hnotices : ∀ n', n' ∈ ({ s with heap := heapPush n s.heap }.goto m .sleeps).notices ↔
      n' ∈ s.notices := by
    intro n'
    rw [mem_notices_mgr hm, mem_notices_mgr hm', hpc]
    simp only [MgrPc.holds, Option.some.injEq, reduceCtorEq, or_false, mem_heapPush, State.goto]
    constructor
    · rintro (hp | hi | rfl | hh)
      · exact .inl hp
      · exact .inr (.inl hi)
      · exact .inr (.inr (.inr rfl))
      · exact .inr (.inr (.inl hh))
    rintro (hp | hi | hh | rfl)
    · exact .inl hp
    · exact .inr (.inl hi)
    · exact .inr (.inr (.inr hh))
    · exact .inr (.inr (.inl rfl))
  apply sl.of_mgr hm' rfl (fun _ => rfl) (fun _ => ⟨rfl, rfl, id⟩)
  · rintro u hu (hin | hp)
    · exact .inl ((hnotices _).mpr hin)
    exact absurd hp (not_promoting hm (by rw [hpc]; rfl) u)
  · exact fun n' hin => (hnotices n').mp hin
  · simp
  · simp

/-- The reaper forgets the notices of a thread that has exited. -/
theorem reap (inv : Inv s) (hm : s.mgr = some m) {tids : List Tid}
    {pids : List Pid} (hpc : m.pc = .reapThreads (t :: tids) pids) :
    Sleepers ((s.reap t).goto m (.reapThreads tids pids)) := by
  have hexited : (s.threads t).state = .exited := by
    have hallow := (inv.mgr m hm).2 t
    simp only [hpc, MgrPc.allows] at hallow
    exact hallow (.head _)
  have hm' : ((s.reap t).goto m (.reapThreads tids pids)).mgr =
    some ⟨m.hart, .reapThreads tids pids⟩ := rfl
  have hthread : ∀ u, (((s.reap t).goto m (.reapThreads tids pids)).threads u).wakeTime =
      (s.threads u).wakeTime ∧ (((s.reap t).goto m (.reapThreads tids pids)).threads u).sleepSeq =
      (s.threads u).sleepSeq ∧ ((((s.reap t).goto m (.reapThreads tids pids)).threads u).state =
      .suspended → (s.threads u).state = .suspended) := by
    intro u
    by_cases hu : u = t
    · subst hu
      simp [State.goto, State.reap]
    · simp [State.goto, State.reap, hu]
  have hnotices : ∀ n, n ∈ ((s.reap t).goto m (.reapThreads tids pids)).notices →
      n ∈ s.notices := by
    intro n
    rw [mem_notices_mgr hm, mem_notices_mgr hm', hpc]
    simp only [MgrPc.holds, reduceCtorEq, or_false, State.goto, State.reap, List.mem_filter]
    exact Or.imp_right (Or.imp_right And.left)
  have hback : ∀ n, n ∈ s.notices → n.thread ≠ t →
      n ∈ ((s.reap t).goto m (.reapThreads tids pids)).notices := by
    intro n hin hne
    rw [mem_notices_mgr hm, hpc] at hin
    rw [mem_notices_mgr hm']
    simp only [MgrPc.holds, reduceCtorEq, or_false, State.goto, State.reap,
      List.mem_filter] at hin ⊢
    exact hin.imp_right (Or.imp_right fun hh => ⟨hh, by simpa using hne⟩)
  apply sl.of_mgr hm' rfl (fun _ => rfl) hthread
  · rintro u hu (hin | hp)
    · refine .inl (hback _ hin ?_)
      rintro rfl
      have hst := (hthread u).2.2 hu
      simp only [notice] at hexited
      rw [hst] at hexited
      cases hexited
    exact absurd hp (not_promoting hm (by rw [hpc]; rfl) u)
  · exact hnotices
  · simp
  · simp

/-- A new thread is Ready, and nothing of a park names it. -/
theorem spawn (inv' : Inv s') (hm : s.mgr = some m) (hm' : s'.mgr = some m')
    (hn : s'.nHarts = s.nHarts) (hharts : s'.harts = s.harts)
    (hinbox : s'.sleepInbox = s.sleepInbox) (hheap : s'.heap = s.heap)
    (hthreads : s'.threads = update s.threads t th) (hready : th.state = .ready)
    (hheld : m.pc.holds = none) (hprom : m.pc.promotes = none) (hplain : m'.pc.Plain) :
    Sleepers s' := by
  have hnotices := mem_notices_of_same hm hm' hn (fun h => by rw [hharts]) hinbox hheap
    (hplain.holds.trans hheld.symm)
  have hself : s'.threads t = th := by rw [hthreads, update_self]
  have hother : ∀ u, u ≠ t → s'.threads u = s.threads u := by
    intro u hu
    rw [hthreads, update_of_ne hu]
  have hnotice : ∀ u, u ≠ t → s'.notice u = s.notice u := by
    intro u hu
    rw [notice, notice, hother u hu]
  have hcarries : ∀ h, h < s'.nHarts → ∀ n, (s'.harts h).pc.carries = some n → n.thread ≠ t := by
    intro h hlt n hc hnt
    have hst := (inv'.carries_tok hlt hc).2
    rw [hnt, hself, hready] at hst
    rcases hst with hst | hst <;> cases hst
  constructor
  · intro u hu
    have hut : u ≠ t := by
      rintro rfl
      rw [hself, hready] at hu
      cases hu
    rw [hother u hut] at hu
    rw [hnotice u hut]
    rcases sl.kept u hu with hin | hp
    · exact .inl ((hnotices _).mpr hin)
    exact absurd hp (not_promoting hm hprom u)
  · intro h hlt n hc
    rw [hnotice _ (hcarries h hlt n hc)]
    exact sl.carried h (hn ▸ hlt) n (hharts ▸ hc)
  · intro n hin hp hq
    rcases hp with hst | ⟨h, hlt, n', hc, hn'⟩
    · have hut : n.thread ≠ t := by
        intro he
        rw [he, hself, hready] at hst
        cases hst
      rw [hother _ hut] at hq hst ⊢
      exact sl.exact n ((hnotices n).mp hin) (.inl hst) hq
    have hut : n.thread ≠ t := hn' ▸ hcarries h hlt n' hc
    rw [hother _ hut] at hq ⊢
    exact sl.exact n ((hnotices n).mp hin) (.inr ⟨h, hn ▸ hlt, n', hharts ▸ hc, hn'⟩) hq
  · intro m₁ now seq hm₁ hpc
    rw [hm', Option.some.injEq] at hm₁
    exact absurd (hm₁ ▸ hpc) (hplain.unjudged now seq)
  intro m₁ u now hm₁ hr
  rw [hm', Option.some.injEq] at hm₁
  rw [← hm₁, hplain.returns] at hr
  cases hr

/-- The scheduler lock changes hands. -/
theorem relock {next : Option Mgr} (hold : ∀ m, s.mgr = some m → m.pc.Plain)
    (hnew : ∀ m, next = some m → m.pc.Plain) : Sleepers { s with mgr := next } := by
  have hnone : ∀ {holder : Option Mgr}, (∀ m, holder = some m → m.pc.Plain) →
      ∀ n : SleepNotice, ¬ ∃ m, holder = some m ∧ m.pc.holds = some n := by
    rintro holder hplain n ⟨m, hm, hheld⟩
    rw [(hplain m hm).holds] at hheld
    cases hheld
  have hnotices : ∀ n, n ∈ ({ s with mgr := next } : State).notices ↔ n ∈ s.notices := by
    intro n
    simp only [mem_notices, hnone hold n, hnone hnew n]
  constructor
  · intro u hu
    rcases sl.kept u hu with hin | ⟨m, a, hm, hp⟩
    · exact .inl ((hnotices _).mpr hin)
    have hr := MgrPc.promotes_returns hp
    rw [(hold m hm).returns] at hr
    cases hr
  · exact sl.carried
  · exact fun n hin => sl.exact n ((hnotices n).mp hin)
  · exact fun m now seq hm hpc => absurd hpc ((hnew m hm).unjudged now seq)
  intro m u now hm hr
  rw [(hnew m hm).returns] at hr
  cases hr

/-- One access of the manager. -/
theorem mgrStep (inv : Inv s) (inv' : Inv s') (hm : s.mgr = some m)
    (hs : Sched.mgrStep s m c = some s') : Sleepers s' := by
  by_cases hjudge : ∃ now seq, m.pc = .wokenState now seq
  · obtain ⟨now, seq, hpc⟩ := hjudge
    exact sl.wokenState hm hpc hs
  have hjudge' : ∀ now seq, m.pc ≠ .wokenState now seq := fun now seq hpc => hjudge ⟨now, seq, hpc⟩
  rcases mgrStep_outcome hs with ⟨edge⟩ | ⟨_, _, _, rfl, _⟩ | ⟨_, _, rfl, _⟩
  · have hpcs := fun h => edge.hart_pc (h := h)
    cases edge with
    | goto pc move => exact sl.goto hm hjudge' move
    | write t th pc move => exact sl.write inv hm move
    | reap t tids pids hpc => exact sl.reap inv hm hpc
    | popNotice n rest hpc hinbox => exact sl.popNotice hm hpc hinbox
    | sleepHeap n hpc => exact sl.sleepHeap hm hpc
    | wokenStale now seq _ _ hpc | wokenDue now seq _ _ hpc => exact absurd hpc (hjudge' now seq)
    | release hpc =>
      apply sl.relock
      · intro m₁ hm₁
        rw [hm, Option.some.injEq] at hm₁
        rw [← hm₁, hpc]
        exact ⟨rfl, rfl, by simp⟩
      · simp
    | spawn t p pid _ _ _ rest proc th pc hpc _ _ hth hans =>
      obtain ⟨_, _, _, hth⟩ := hth
      have hm' : (({ s with work := rest }.admitThread pid proc th).goto m pc).mgr =
        some ⟨m.hart, pc⟩ := rfl
      apply sl.spawn inv' hm hm' rfl rfl rfl rfl rfl (by rw [hth]; rfl)
      · rw [hpc]
        rfl
      · rw [hpc]
        rfl
      · exact hans.plain
    | answer _ _ _ pc hpc _ hans | serve _ _ _ pc hpc _ hans
    | spawnFails _ _ _ _ _ _ _ pc hpc _ hans =>
      apply sl.of_elsewhere hm (hpc ▸ ⟨rfl, rfl, by simp⟩)
      · rfl
      · exact hpcs
      · rfl
      · rfl
      · rfl
      · exact hans.plain
    | popWake ev rest pc hpc _ hnext =>
      apply sl.of_elsewhere hm (hpc ▸ ⟨rfl, rfl, by simp⟩)
      · rfl
      · exact hpcs
      · rfl
      · rfl
      · rfl
      · rcases hnext with ⟨k, -, rfl⟩ | ⟨-, rfl⟩ <;> exact ⟨rfl, rfl, by simp⟩
    | pushReady t a hpc =>
      apply sl.of_elsewhere hm (hpc ▸ ⟨rfl, rfl, by simp⟩)
      · rfl
      · exact hpcs
      · rfl
      · rfl
      · rfl
      · exact a.pc_plain
    | cleanupExited _ _ _ _ _ hpc | claimExited _ _ _ _ _ _ hpc | removeProc _ _ _ hpc
    | defer _ _ _ hpc | exitGroupGone _ _ _ _ hpc | exitGroup _ _ _ _ _ hpc | killDone _ _ hpc
    | resumePush _ _ hpc | publishWake _ _ hpc | inboxPop _ _ _ hpc | assignPop _ _ _ _ _ hpc
    | assignPublish _ _ _ hpc =>
      apply sl.of_elsewhere hm (hpc ▸ ⟨rfl, rfl, by simp⟩)
      · rfl
      · exact hpcs
      · rfl
      · rfl
      · rfl
      · exact ⟨rfl, rfl, by simp⟩
  · exact sl.congr rfl rfl rfl rfl rfl rfl
  · exact sl.congr rfl rfl rfl rfl rfl rfl

/-- One step of the kernel keeps the sleepers' invariant. -/
theorem step (inv : Inv s) (inv' : Inv s') (hroom : InboxRoom s a)
    (hclear : ParkClear s a) (hs : Sched.step s a = some s') : Sleepers s' := by
  cases step_outcome hs with
  | hart h trap hlt _ hh => exact sl.hartStep inv hlt hroom hclear hh
  | manager c m hm hmgr => exact sl.mgrStep inv inv' hm hmgr
  | lock h _ hm _ he =>
    subst he
    apply sl.relock
    · simp [hm]
    · rintro m ⟨⟩
      exact ⟨rfl, rfl, by simp⟩
  | wake ev queue _ he =>
    subst he
    exact sl.congr rfl rfl rfl rfl rfl rfl

end Sleepers

/-- Where the notice of the current park of `t` is: with the hart that is about to push it,
in the sleep inbox, in the heap, or in the hands of the manager, which has popped it or is
making `t` Ready. -/
inductive State.Noticed (s : State) (t : Tid) : Prop where
  | pushed (h : Nat) (hlt : h < s.nHarts) (hpc : (s.harts h).pc = .sleepPush (s.notice t))
  | inbox (hin : s.notice t ∈ s.sleepInbox)
  | heap (hin : s.notice t ∈ s.heap)
  | popped (m : Mgr) (hm : s.mgr = some m) (hpc : m.pc = .sleepCheck (s.notice t))
  | promoted (m : Mgr) (a : After) (hm : s.mgr = some m) (hpc : m.pc.promotes = some (t, a))

/-- The thread the timer is about to make Ready, and the time it has read. -/
def State.timerPromotes (s : State) : Option (Tid × UInt64) :=
  match s.mgr.map Mgr.pc with
  | some (.promoteStore t _ (.woken now)) => some (t, now)
  | _ => none

theorem Sleepers.noticed (sl : Sleepers s) (hst : (s.threads t).state = .suspended) :
    s.Noticed t := by
  rcases sl.kept t hst with hin | ⟨m, a, hm, hp⟩
  · rcases mem_notices.mp hin with ⟨h, hlt, hpush⟩ | hin | hin | ⟨m, hm, hheld⟩
    · cases hpc : (s.harts h).pc with
      | sleepPush n =>
        simp only [hpc, HartPc.pushes, Option.some.injEq] at hpush
        exact .pushed h hlt (hpush ▸ hpc)
      | _ => simp [hpc] at hpush
    · exact .inbox hin
    · exact .heap hin
    cases hpc : m.pc with
    | sleepCheck n =>
      simp only [hpc, MgrPc.holds, Option.some.injEq] at hheld
      exact .popped m hm (hheld ▸ hpc)
    | _ => simp [hpc] at hheld
  · exact .promoted m a hm hp

theorem Sleepers.timer_due (sl : Sleepers s) (hp : s.timerPromotes = some (t, now)) :
    (s.threads t).wakeTime ≤ now := by
  unfold State.timerPromotes at hp
  split at hp
  · next u rets now' hpc =>
    obtain ⟨m, hm, hpc⟩ := Option.map_eq_some_iff.mp hpc
    cases hp
    exact (sl.due m _ _ hm (by rw [hpc]; rfl)).2
  · cases hp

/-- In every run in which notices find room in the inbox and no thread takes the number of a
new park between the two loads with which `drain_woken` judges an old entry of it, every
Suspended thread has the notice of its current park on the way to the heap or in it, and a
thread the timer makes Ready has reached its deadline. -/
theorem no_sleeper_lost
    (run : Reach step (fun s a => (Settled s a ∧ KillClear s a) ∧ InboxRoom s a ∧ ParkClear s a)
      Boot s) :
    (∀ t, (s.threads t).state = .suspended → s.Noticed t) ∧
      ∀ t now, s.timerPromotes = some (t, now) → (s.threads t).wakeTime ≤ now := by
  have sl : Sleepers s := by
    refine run.invariant_of (fun s run => reach_inv (fun _ _ hg => hg.1) run)
      (fun _ boot => .of_boot boot) ?_
    rintro s a s' inv sl ⟨⟨hset, hkill⟩, hroom, hclear⟩ hs
    exact sl.step inv (step_inv inv hset hkill hs) hroom hclear hs
  exact ⟨fun t hst => sl.noticed hst, fun t now hp => sl.timer_due hp⟩

/-- A thread sleeps until time 5; at time 10 the timer makes it Ready. -/
def sleepUntilDue : List Action :=
  [.lock 0] ++ ticks 8 ++ [.manager (.clock 0)] ++ ticks 15 ++
  accesses 1 4 ++ [.hart 1 (.sleep (fun _ => 0) 5)] ++ accesses 1 6 ++
  [.lock 2] ++ ticks 10 ++ [.manager (.clock 10)] ++ ticks 5

theorem no_sleeper_lost_due : ∃ s,
    Reach step (fun s a => (Settled s a ∧ KillClear s a) ∧ InboxRoom s a ∧ ParkClear s a) Boot s ∧
      (s.threads 0).state = .suspended ∧ s.Noticed 0 ∧ s.timerPromotes = some (0, 10) ∧
      (s.threads 0).wakeTime ≤ 10 := by
  have hboot : Reach step
      (fun s a => (Settled s a ∧ KillClear s a) ∧ InboxRoom s a ∧ ParkClear s a) Boot
      (startState 3 [1]) := .start (startState_boot 3 [1])
  obtain ⟨s, run, hst, hp⟩ := hboot.exists_of_exec sleepUntilDue
    (fun s : State => (s.threads 0).state = .suspended ∧ s.timerPromotes = some (0, 10))
    (by decide +kernel)
  obtain ⟨hkept, hdue⟩ := no_sleeper_lost run
  exact ⟨s, run, hst, hkept 0 hst, hp, hdue 0 10 hp⟩

/-- A thread that sleeps until time 5 is woken early while its notice is still to be pushed,
so the notice of the old park comes to the heap while the thread runs. At time 10 the manager
loads the thread's number for this entry; the thread then parks until time 100, and the
manager finds it Suspended. -/
def parkWhileJudged : List Action :=
  [.lock 0] ++ ticks 8 ++ [.manager (.clock 0)] ++ ticks 15 ++
  accesses 1 4 ++ [.hart 1 (.sleep (fun _ => 0) 5)] ++ accesses 1 5 ++
  [.wake (.tid 0), .lock 2] ++ ticks 18 ++ [.manager (.clock 0)] ++ ticks 15 ++
  accesses 0 4 ++ accesses 1 1 ++
  [.lock 2] ++ ticks 10 ++ [.manager (.clock 10)] ++ ticks 1 ++
  [.hart 0 (.sleep (fun _ => 0) 100)] ++ accesses 0 5 ++ ticks 4

/-- The timer makes the thread Ready 90 ticks before its deadline. -/
theorem timer_promotes_early : ∃ s,
    Reach step (fun s a => (Settled s a ∧ NoKill s a) ∧ InboxRoom s a) Boot s ∧
      s.timerPromotes = some (0, 10) ∧ (s.threads 0).state = .suspended ∧
      (s.threads 0).wakeTime = 100 := by
  have hboot : Reach step (fun s a => (Settled s a ∧ NoKill s a) ∧ InboxRoom s a) Boot
      (startState 3 [1]) := .start (startState_boot 3 [1])
  exact hboot.exists_of_exec parkWhileJudged
    (fun s : State => s.timerPromotes = some (0, 10) ∧ (s.threads 0).state = .suspended ∧
      (s.threads 0).wakeTime = 100) (by decide +kernel)

end Orbit.Sched
