import Orbit.Sched.Account

/-!
The edges of a hart's program. `HartEdge` lists what one access of a hart can do to the
hart and to the thread it deals with; `hartStep_edge` says that an access follows one
of the edges and leaves the rest of the state alone, or stops the kernel.
-/

namespace Orbit.Sched

open State HartPc

variable {s s' : State} {h : Nat} {t : Tid}

def Work.request : Work → Option (Tid × Nat)
  | .call t c | .createThread t c .. => some (t, c)
  | .exitGroup .. => none

/-- One access of a hart on thread `t`, whose record is `th`: the hart and the record
afterwards, the work it queues and the sleep notice it hands over. -/
inductive HartEdge (hart : Hart) (t : Tid) (th : Thread) :
    Hart → Thread → List Work → List SleepNotice → Prop where
  | start (hpc : hart.pc = .idle) (hcur : hart.current = some t) :
      HartEdge hart t th { hart with pc := .dispatch t } th [] []
  | dispatchDead (hpc : hart.pc = .dispatch t) (hst : th.state = .exited) :
      HartEdge hart t th { hart with pc := .dispatchCheck t } th [] []
  | dispatchLoad (hpc : hart.pc = .dispatch t) (hst : th.state = .assigned) :
      HartEdge hart t th { hart with pc := .dispatchStore t } th [] []
  | dispatchStore (hpc : hart.pc = .dispatchStore t) :
      HartEdge hart t th { hart with pc := .dispatchCheck t } (th.store .running) [] []
  | enter (hpc : hart.pc = .dispatchCheck t) (hst : th.state ≠ .exited) :
      HartEdge hart t th { hart with pc := .running t } th [] []
  | refuse (hpc : hart.pc = .dispatchCheck t) (hst : th.state = .exited) :
      HartEdge hart t th { hart with current := none, pc := .idle } th [] []
  | preempt (hpc : hart.pc = .running t) :
      HartEdge hart t th { hart with pc := .switch t } th [] []
  | yield (hpc : hart.pc = .running t) (target : ThreadState) (frame : Nat → Int)
      (deadline : Option UInt64) (htarget : target = .ready ∨ target = .suspended) :
      HartEdge hart t th { hart with pc := .commit t target frame deadline } th [] []
  | issue (hpc : hart.pc = .running t) (frame : Nat → Int) (w : Work)
      (hw : w.request = some (t, th.calls + 1)) :
      HartEdge hart t th { hart with pc := .commit t .blocking frame none }
        { th with calls := th.calls + 1 } [w] []
  | exit (hpc : hart.pc = .running t) (frame : Nat → Int) (code : Int) :
      HartEdge hart t th { hart with pc := .parkSeq t .exited } { th with regs := frame }
        [.exitGroup th.pid t code] []
  | threadExit (hpc : hart.pc = .running t) (frame : Nat → Int) :
      HartEdge hart t th { hart with pc := .parkSeq t .exited } { th with regs := frame } [] []
  | fault (hpc : hart.pc = .running t) :
      HartEdge hart t th { hart with pc := .parkSeq t .exited } { th with faulted := true } [] []
  | commit (target : ThreadState) (frame : Nat → Int) (deadline : Option UInt64)
      (hpc : hart.pc = .commit t target frame deadline) (hst : commitAllowed th.state) :
      HartEdge hart t th { hart with pc := .parkSeq t target }
        { th with regs := frame, wakeTime := deadline.getD th.wakeTime } [] []
  | commitDead (target : ThreadState) (frame : Nat → Int) (deadline : Option UInt64)
      (hpc : hart.pc = .commit t target frame deadline) :
      HartEdge hart t th { hart with pc := .switch t } th [] []
  | switchRunning (hpc : hart.pc = .switch t) (hst : th.state = .running) :
      HartEdge hart t th { hart with pc := .parkSeq t .ready } th [] []
  | switchExited (hpc : hart.pc = .switch t) (hst : th.state = .exited) :
      HartEdge hart t th { hart with pc := .parkSeq t .exited } th [] []
  | switchParked (hpc : hart.pc = .switch t) (hst : th.state.parked) :
      HartEdge hart t th { hart with current := none, pc := .idle } th [] []
  | switchAgain (hpc : hart.pc = .switch t) (hst : th.state = .ready ∨ th.state = .assigned) :
      HartEdge hart t th { hart with pc := .dispatch t } th [] []
  | parkSeqSleep (hpc : hart.pc = .parkSeq t .suspended) :
      HartEdge hart t th
        { hart with pc := .parkNull t .suspended (some ⟨th.wakeTime, th.sleepSeq + 1, t⟩) }
        { th with sleepSeq := th.sleepSeq + 1 } [] []
  | parkSeq (target : ThreadState) (hpc : hart.pc = .parkSeq t target)
      (htarget : target ≠ .suspended) :
      HartEdge hart t th { hart with pc := .parkNull t target none } th [] []
  | parkNull (target : ThreadState) (notice : Option SleepNotice)
      (hpc : hart.pc = .parkNull t target notice) :
      HartEdge hart t th { hart with current := none, pc := .parkLoad t target notice } th [] []
  | parkLoadDead (target : ThreadState) (notice : Option SleepNotice)
      (hpc : hart.pc = .parkLoad t target notice) (hst : th.state = .exited) :
      HartEdge hart t th { hart with pc := afterPark t target notice } th [] []
  | parkLoad (target : ThreadState) (notice : Option SleepNotice)
      (hpc : hart.pc = .parkLoad t target notice) (hst : th.state.transitionAllowed target) :
      HartEdge hart t th { hart with pc := .parkStore t target notice } th [] []
  | parkStore (target : ThreadState) (notice : Option SleepNotice)
      (hpc : hart.pc = .parkStore t target notice) :
      HartEdge hart t th { hart with pc := afterPark t target notice } (th.store target) [] []
  | sleepPush (n : SleepNotice) (hpc : hart.pc = .sleepPush n) (hn : n.thread = t)
      (ns : List SleepNotice) (hns : ns = [n] ∨ ns = []) :
      HartEdge hart t th { hart with pc := .idle } th [] ns
  | mint (hpc : hart.pc = .mint t) (hst : th.state = .ready) :
      HartEdge hart t th { hart with pc := .push t } th [] []
  | push (hpc : hart.pc = .push t) (inbox : List Tid)
      (hinbox : inbox = hart.inbox ++ [t] ∨ inbox = hart.inbox) :
      HartEdge hart t th { hart with pc := .idle, inbox } th [] []
  | claimNone (hpc : hart.pc = .claim t) (hp : th.pending = none) :
      HartEdge hart t th { hart with pc := .idle } th [] []
  | claim (p : Published) (hpc : hart.pc = .claim t) (hp : th.pending = some p) :
      HartEdge hart t th { hart with pc := .claimed t p } th.resetPending [] []
  | claimed (p : Published) (hpc : hart.pc = .claimed t p) :
      HartEdge hart t th { hart with pc := .claimLoad t p } (th.writeRets p.vals) [] []
  | claimLoad (p : Published) (hpc : hart.pc = .claimLoad t p) (hst : th.state.parked) :
      HartEdge hart t th { hart with pc := .claimStore t p } th [] []
  | claimStore (p : Published) (hpc : hart.pc = .claimStore t p) :
      HartEdge hart t th { hart with pc := .push t } (th.store .ready) [] []

/-- `s'` is `s` after an access of hart `h` on thread `t`. -/
structure HartMove (s s' : State) (h : Nat) (t : Tid) (hart : Hart) (th : Thread) (ws : List Work)
    (ns : List SleepNotice) : Prop where
  eq : s' = { s with
    harts := Function.update s.harts h hart, threads := Function.update s.threads t th,
    work := s.work ++ ws, sleepInbox := s.sleepInbox ++ ns }
  edge : HartEdge (s.harts h) t (s.threads t) hart th ws ns

namespace HartMove

variable {hart : Hart} {th : Thread} {ws : List Work} {ns : List SleepNotice}

variable (move : HartMove s s' h t hart th ws ns)

include move

theorem hart_self : s'.harts h = hart := by
  simp [move.eq]

theorem hart_ne {h' : Nat} (hh : h' ≠ h) :
    s'.harts h' = s.harts h' := by
  simp [move.eq, hh]

theorem thread_self : s'.threads t = th := by
  simp [move.eq]

theorem thread_ne {u : Tid} (hu : u ≠ t) :
    s'.threads u = s.threads u := by
  simp [move.eq, hu]

theorem nHarts : s'.nHarts = s.nHarts := by
  rw [move.eq]

theorem mgr : s'.mgr = s.mgr := by
  rw [move.eq]

theorem registry : s'.registry = s.registry := by
  rw [move.eq]

end HartMove

/-- The outcome of an access of hart `h`: it follows an edge, or the kernel stops. It
stops at a freed thread only when the hart names it. -/
inductive HartOutcome (s : State) (h : Nat) (s' : State) : Prop where
  | moved (t : Tid) (hart : Hart) (th : Thread) (ws : List Work) (ns : List SleepNotice)
      (move : HartMove s s' h t hart th ws ns)
  | panicked (site : Site) (t : Tid) (st : ThreadState) (hs : s' = s.fail (.panic site t st))
      (hsite : site.checked = true)
  | freed (t : Tid) (hpc : (s.harts h).pc.thread = some t) (hfreed : (s.threads t).freed)
      (hs : s' = s.fail (.useAfterFree t))

/-- An edge that writes no record, queues no work and hands over no notice. -/
theorem HartOutcome.of_hart {hart : Hart} (t : Tid)
    (edge : HartEdge (s.harts h) t (s.threads t) hart (s.threads t) [] []) :
    HartOutcome s h (s.setHart h hart) := by
  refine .moved t hart (s.threads t) [] [] ⟨?_, edge⟩
  simp [setHart]

theorem HartOutcome.of_write {pc : HartPc} {th : Thread}
    (edge : HartEdge (s.harts h) t (s.threads t) { s.harts h with pc } th [] []) :
    HartOutcome s h ((s.setThread t th).setPc h pc) := by
  refine .moved t _ th [] [] ⟨?_, edge⟩
  simp [setThread, setPc, setHart]

theorem HartOutcome.of_deref {k : Thread → Option State} (hpc : (s.harts h).pc.thread = some t)
    (hk : k (s.threads t) = some s' → HartOutcome s h s') (hs : s.deref t k = some s') :
    HartOutcome s h s' := by
  unfold deref at hs
  split at hs
  · next hfreed =>
    cases hs
    exact .freed t hpc hfreed rfl
  · exact hk hs

theorem issue_outcome {frame : Nat → Int} {mk : Nat → Work} (hpc : (s.harts h).pc = .running t)
    (hmk : ∀ c, (mk c).request = some (t, c)) (hs : issue s h t frame mk = some s') :
    HartOutcome s h s' := by
  unfold issue at hs
  split at hs <;> cases hs
  · refine .moved t _ _ [mk ((s.threads t).calls + 1)] [] ⟨?_, .issue hpc frame _ (hmk _)⟩
    simp [pushWork, setThread, setPc, setHart]
  · exact .of_hart t (.preempt hpc)

theorem trapStep_outcome {trap : Trap} (hpc : (s.harts h).pc = .running t)
    (hs : trapStep s h t trap = some s') : HartOutcome s h s' := by
  cases trap with
  | preempt =>
    cases hs
    exact .of_hart t (.preempt hpc)
  | yield frame =>
    cases hs
    exact .of_hart t (.yield hpc .ready frame none (.inl rfl))
  | sleep frame deadline =>
    cases hs
    exact .of_hart t (.yield hpc .suspended frame (some deadline) (.inr rfl))
  | call frame => exact issue_outcome hpc (fun _ => rfl) hs
  | createThread frame allowed affinity =>
    simp only [trapStep] at hs
    exact issue_outcome hpc (fun _ => rfl) hs
  | exit frame =>
    simp only [trapStep] at hs
    split at hs <;> cases hs
    refine .moved t _ _ [.exitGroup _ t (asI32 (frame (Thread.argReg + 1)))] []
      ⟨?_, .exit hpc frame _⟩
    simp [pushWork, setThread, setPc, setHart]
  | threadExit frame =>
    cases hs
    exact .of_write (.threadExit hpc frame)
  | fault =>
    cases hs
    exact .of_write (.fault hpc)

/-- Every access of a hart follows an edge or stops the kernel. -/
theorem hartStep_outcome {trap : Trap} (hs : hartStep s h trap = some s') : HartOutcome s h s' := by
  unfold hartStep at hs
  cases hpc : (s.harts h).pc with
  | idle =>
    simp only [hpc] at hs
    split at hs <;> cases hs
    next t hcur => exact .of_hart t (.start hpc hcur)
  | dispatch t =>
    simp only [hpc] at hs
    refine .of_deref (by simp [hpc]) (fun hk => ?_) hs
    split at hk
    · next hst =>
      cases hk
      exact .of_hart t (.dispatchDead hpc hst)
    split at hk <;> cases hk
    · next hst =>
      refine .of_hart t (.dispatchLoad hpc ?_)
      simpa [ThreadState.transitionAllowed] using hst
    · exact .panicked _ _ _ rfl rfl
  | dispatchStore t =>
    simp only [hpc] at hs
    refine .of_deref (by simp [hpc]) (fun hk => ?_) hs
    cases hk
    exact .of_write (.dispatchStore hpc)
  | dispatchCheck t =>
    simp only [hpc] at hs
    refine .of_deref (by simp [hpc]) (fun hk => ?_) hs
    split at hk <;> cases hk
    · next hst => exact .of_hart t (.refuse hpc hst)
    · next hst => exact .of_hart t (.enter hpc hst)
  | running t =>
    simp only [hpc] at hs
    exact .of_deref (by simp [hpc]) (trapStep_outcome hpc) hs
  | commit t target frame deadline =>
    simp only [hpc] at hs
    refine .of_deref (by simp [hpc]) (fun hk => ?_) hs
    split at hk <;> cases hk
    · next hst => exact .of_write (.commit target frame deadline hpc hst)
    · exact .of_hart t (.commitDead target frame deadline hpc)
  | switch t =>
    simp only [hpc] at hs
    refine .of_deref (by simp [hpc]) (fun hk => ?_) hs
    split at hk <;> cases hk
    · next hst => exact .of_hart t (.switchRunning hpc hst)
    · next hst => exact .of_hart t (.switchExited hpc hst)
    · next hst => exact .of_hart t (.switchParked hpc (by simp [hst, ThreadState.parked]))
    · next hst => exact .of_hart t (.switchParked hpc (by simp [hst, ThreadState.parked]))
    · next hst => exact .of_hart t (.switchAgain hpc (.inl hst))
    · next hst => exact .of_hart t (.switchAgain hpc (.inr hst))
  | parkSeq t target =>
    simp only [hpc] at hs
    refine .of_deref (by simp [hpc]) (fun hk => ?_) hs
    split at hk <;> cases hk
    · next htarget =>
      subst htarget
      exact .of_write (.parkSeqSleep hpc)
    · next htarget => exact .of_hart t (.parkSeq target hpc htarget)
  | parkNull t target notice =>
    simp only [hpc] at hs
    cases hs
    exact .of_hart t (.parkNull target notice hpc)
  | parkLoad t target notice =>
    simp only [hpc] at hs
    refine .of_deref (by simp [hpc]) (fun hk => ?_) hs
    split at hk
    · next hst =>
      cases hk
      exact .of_hart t (.parkLoadDead target notice hpc hst)
    split at hk <;> cases hk
    · next hst => exact .of_hart t (.parkLoad target notice hpc hst)
    · exact .panicked _ _ _ rfl rfl
  | parkStore t target notice =>
    simp only [hpc] at hs
    refine .of_deref (by simp [hpc]) (fun hk => ?_) hs
    cases hk
    exact .of_write (.parkStore target notice hpc)
  | sleepPush n =>
    simp only [hpc] at hs
    split at hs <;> cases hs
    · refine .moved n.thread _ (s.threads n.thread) [] [n] ⟨?_, .sleepPush n hpc rfl _ (.inl rfl)⟩
      simp [setPc, setHart]
    · exact .of_hart n.thread (.sleepPush n hpc rfl _ (.inr rfl))
  | mint t =>
    simp only [hpc] at hs
    refine .of_deref (by simp [hpc]) (fun hk => ?_) hs
    split at hk <;> cases hk
    · next hst => exact .of_hart t (.mint hpc hst)
    · exact .panicked _ _ _ rfl rfl
  | push t =>
    simp only [hpc, pushInbox] at hs
    cases hs
    split
    · refine .moved t _ (s.threads t) [] [] ⟨?_, .push hpc ((s.harts h).inbox ++ [t]) (.inl rfl)⟩
      simp [setPc, setHart]
    · exact .of_hart t (.push hpc _ (.inr rfl))
  | claim t =>
    simp only [hpc] at hs
    refine .of_deref (by simp [hpc]) (fun hk => ?_) hs
    split at hk <;> cases hk
    · next p hp => exact .of_write (.claim p hpc hp)
    · next hp => exact .of_hart t (.claimNone hpc hp)
  | claimed t p =>
    simp only [hpc] at hs
    refine .of_deref (by simp [hpc]) (fun hk => ?_) hs
    cases hk
    exact .of_write (.claimed p hpc)
  | claimLoad t p =>
    simp only [hpc] at hs
    refine .of_deref (by simp [hpc]) (fun hk => ?_) hs
    split at hk <;> cases hk
    · next hst => exact .of_hart t (.claimLoad p hpc hst)
    · exact .panicked _ _ _ rfl rfl
  | claimStore t p =>
    simp only [hpc] at hs
    refine .of_deref (by simp [hpc]) (fun hk => ?_) hs
    cases hk
    exact .of_write (.claimStore p hpc)

end Orbit.Sched
