import Orbit.Sched.Account

/-!
Every access of a hart keeps the scheduler invariant. Most points count for the
same as the point before them; the others move a token or a right of the thread
they name, and four of them store its state.
-/

namespace Orbit.Sched

open Transition Function HartPc ThreadState Hart

variable {frame : Nat → Int} {trap : Trap}

variable {pc : HartPc} {notice : Option SleepNotice} {p : Published} {target : ThreadState}

variable {s s' : State} {h : Nat} {t : Tid} {th : Thread}

/-- A panic or an access to freed memory leaves everything else as it was. -/
theorem Inv.fail (inv : Inv s) {f : Fault}
    (hf : ∀ site t st, f = .panic site t st → site.checked = false) : Inv (s.fail f) :=
  ⟨inv.ok, inv.harts, inv.wf, inv.own, inv.cur, inv.mgr, inv.offers, inv.slot, inv.reg,
    fun site t st hs =>
    hf site t st (Option.some.inj hs)⟩

/-- An access through a pointer keeps the invariant when it does on live memory. -/
theorem Inv.deref (inv : Inv s) {k : Thread → Option State}
    (hk : k (s.threads t) = some s' → Inv s') (hs : s.deref t k = some s') : Inv s' := by
  unfold State.deref at hs
  split at hs
  · cases hs
    exact inv.fail nofun
  · exact hk hs

/-- The frame of an access that only moves the hart's own point. -/
theorem frame_setPc (s : State) (h : Nat) (pc : HartPc) (t : Tid) :
    HartOnly s (s.setPc h pc) h { s.harts h with pc } t (s.threads t) where
  nHarts := rfl
  harts := rfl
  threads := (update_eq_self t s.threads).symm
  mgr := rfl
  ready := rfl
  waiters := rfl
  nextTid := rfl
  registry := rfl
  work := rfl
  sleepInbox := rfl
  fault := rfl

/-- The frame of an access that moves the hart's point and writes `t`'s record. -/
theorem frame_write (s : State) (h : Nat) (pc : HartPc) (t : Tid) (th : Thread) :
    HartOnly s ((s.setThread t th).setPc h pc) h { s.harts h with pc } t th :=
  ⟨⟨rfl, rfl, rfl, rfl, rfl, rfl, rfl, rfl⟩, rfl, rfl, rfl⟩

/-- Moving on within the same account: the new point counts for what the old one
did, and `t`'s record keeps its state and its slot. -/
theorem Inv.act_same (inv : Inv s) (hlt : h < s.nHarts)
    (fr : HartOnly s s' h { s.harts h with pc } t th)
    (hst : th.state = (s.threads t).state) (hslot : th.slotRes = (s.threads t).slotRes)
    (hold : (s.harts h).pc.Names t) (hnew : pc.Names t)
    (hsame : pc.held t = (s.harts h).pc.held t ∧ pc.run t = (s.harts h).pc.run t ∧
      pc.blk t = (s.harts h).pc.blk t ∧ pc.claiming t = (s.harts h).pc.claiming t ∧
      pc.stray t = (s.harts h).pc.stray t ∧ pc.res t = (s.harts h).pc.res t)
    (hallow : pc.allows t (s.threads t).state) (hwf : pc.wf)
    (hown : pc.owns t → (s.harts h).current = some t)
    (hcur : (s.harts h).pc.owns t → pc.owns t) : Inv s' := by
  refine inv.act hlt fr.toHartFrame hold hnew (fun _ _ => rfl) (.inl rfl)
    (fun _ _ => by rw [fr.work]) (fun _ _ => by rw [fr.sleepInbox]) fr.fault ?_ (.inl hst)
    (hst ▸ hallow) hwf hown ?_
  · obtain ⟨w1, w2, w3, w4, w5, w6⟩ := hsame
    have hc := fr.counts hlt t
    rw [fr.thread_self, hslot] at hc
    simp only [tok, w1, w2, w3, w4, w5, w6] at hc
    exact State.ok_of_counts (inv.ok t) (by rw [fr.thread_self, hst]) (by omega)
  intro hc
  rw [hst]
  rcases inv.cur h hlt t hc with ho | hd
  · exact .inl (hcur ho)
  · exact .inr hd

section Dispatch

/-- `k_hart_loop` finds the hart's `current` set. -/
theorem idle_inv (inv : Inv s) (hlt : h < s.nHarts) (hpc : (s.harts h).pc = .idle)
    (hcur : (s.harts h).current = some t) : Inv (s.setPc h (.dispatch t)) := by
  refine inv.act_same hlt (frame_setPc s h _ t) rfl rfl ?_ ?_ ?_ ?_ trivial ?_ ?_
  · simp [hpc]
  · simp
  · simp [hpc]
  · intro _
    rcases inv.cur h hlt t hcur with ho | hst
    · simp [hpc] at ho
    · exact hst
  · exact fun _ => hcur
  · simp

/-- The load of `mark_running`: a killed thread is refused without a panic. -/
theorem dispatch_inv (inv : Inv s) (hlt : h < s.nHarts) (hpc : (s.harts h).pc = .dispatch t)
    (hs : (if (s.threads t).state = .exited then some (s.setPc h (.dispatchCheck t))
      else if (s.threads t).state.transitionAllowed .running then
        some (s.setPc h (.dispatchStore t))
      else some (s.fail (.panic (.transitionTo .running) t (s.threads t).state))) = some s') :
    Inv s' := by
  have hst : (s.threads t).state = .assigned ∨ (s.threads t).state = .exited := by
    simpa [hpc] using inv.harts h hlt t
  have hcur := inv.own h hlt t (by simp [hpc])
  rcases hst with hst | hst
  · simp only [hst, reduceCtorEq, if_false, transitionAllowed, decide_true, if_true,
      Option.some.injEq] at hs
    subst hs
    refine inv.act_same hlt (frame_setPc s h _ t) rfl rfl ?_ ?_ ?_ ?_ trivial ?_ ?_ <;>
      simp [hpc, hst, hcur]
  simp only [hst, if_true] at hs
  cases hs
  refine inv.act_same hlt (frame_setPc s h _ t) rfl rfl ?_ ?_ ?_ ?_ trivial ?_ ?_ <;>
    simp [hpc, hst, hcur]

/-- The store of `mark_running`. -/
theorem dispatchStore_inv (inv : Inv s) (hlt : h < s.nHarts)
    (hpc : (s.harts h).pc = .dispatchStore t)
    (fr : HartOnly s s' h { s.harts h with pc := .dispatchCheck t } t
      ((s.threads t).store .running)) : Inv s' := by
  have hst : (s.threads t).state = .assigned := by simpa [hpc] using inv.harts h hlt t
  have hcur := inv.own h hlt t (by simp [hpc])
  have htok : 1 ≤ (s.harts h).tok t := by simp [tok, hcur, hpc]
  obtain ⟨halone, hmtok⟩ := inv.alone_of_tok hlt htok (by simp [hst])
  refine inv.act hlt fr.toHartFrame ?_ ?_ (fun _ _ => rfl) (.inl rfl)
    (fun _ _ => by rw [fr.work]) (fun _ _ => by rw [fr.sleepInbox]) fr.fault ?_
    (.inr ⟨halone, ?_, by simp [hst]⟩) ?_ trivial ?_ ?_
  · simp [hpc]
  · simp
  · have hc := fr.counts hlt t
    have hb := inv.bounds hlt t
    have ho := (s.ok_iff t).mp (inv.ok t)
    rw [s'.ok_iff]
    rw [fr.thread_self] at hc ⊢
    simp [hpc, hst, tok, hcur] at hc hb ho ⊢
    omega
  · intro m hm
    exact MgrPc.allows_store ((inv.mgr m hm).2 t) (hmtok m hm) (by simp [hst]) (.inl hst)
  · simp
  · exact fun _ => hcur
  · simp

/-- The check for a kill before the thread is entered. -/
theorem dispatchCheck_inv (inv : Inv s) (hlt : h < s.nHarts)
    (hpc : (s.harts h).pc = .dispatchCheck t)
    (hs : (if (s.threads t).state = .exited then
        some (s.setHart h { s.harts h with current := none, pc := .idle })
      else some (s.setPc h (.running t))) = some s') : Inv s' := by
  have hst : (s.threads t).state = .running ∨ (s.threads t).state = .exited := by
    simpa [hpc] using inv.harts h hlt t
  have hcur := inv.own h hlt t (by simp [hpc])
  have hold : (s.harts h).pc.Names t := by simp [hpc]
  have hb := inv.bounds hlt t
  have ho := (s.ok_iff t).mp (inv.ok t)
  rcases hst with hst | hst
  · simp only [hst, reduceCtorEq, if_false] at hs
    cases hs
    have fr := frame_setPc s h (.running t) t
    refine inv.act hlt fr.toHartFrame hold ?_ (fun _ _ => rfl) (.inl rfl) (fun _ _ => rfl)
      (fun _ _ => rfl) rfl ?_ (.inl rfl) ?_ trivial ?_ ?_
    · simp
    · have hc := fr.counts hlt t
      rw [State.ok_iff]
      rw [fr.thread_self] at hc ⊢
      simp [hpc, hst, tok, hcur] at hc hb ho ⊢
      omega
    · simp [hst]
    · exact fun _ => hcur
    · simp
  simp only [hst, if_true] at hs
  cases hs
  have fr : HartOnly s (s.setHart h { s.harts h with current := none, pc := .idle }) h
      { s.harts h with current := none, pc := .idle } t (s.threads t) :=
    ⟨⟨rfl, rfl, (update_eq_self t s.threads).symm, rfl, rfl, rfl, rfl, rfl⟩, rfl, rfl, rfl⟩
  refine inv.act hlt fr.toHartFrame hold ?_ (fun _ _ => rfl) (.inr ⟨rfl, hcur⟩)
    (fun _ _ => rfl) (fun _ _ => rfl) rfl ?_ (.inl rfl) ?_ trivial ?_ ?_
  · simp
  · have hc := fr.counts hlt t
    rw [State.ok_iff]
    rw [fr.thread_self] at hc ⊢
    simp [hpc, hst, tok, hcur] at hc hb ho ⊢
    omega
  · trivial
  · simp
  · simp

end Dispatch

section Trap

/-- Leaving the thread for a trap handler. While it ran nobody owed it an answer, so
what the handler queues does not matter unless it is a request of the thread's own. -/
theorem leaveRunning_inv (inv : Inv s) (hlt : h < s.nHarts) (hpc : (s.harts h).pc = .running t)
    (fr : HartFrame s s' h { s.harts h with pc } t th)
    (hst : th.state = (s.threads t).state) (hslot : th.slotRes = (s.threads t).slotRes)
    (hwork : ∀ u, s'.work.countP (Work.isCall u) = s.work.countP (Work.isCall u))
    (hsleep : s'.sleepInbox = s.sleepInbox) (hfault : s'.fault = s.fault) (hnew : pc.Names t)
    (howns : pc.owns t) (hwf : pc.wf) (hallow : pc.allows t (s.threads t).state)
    (hblk : pc.blk t = 0) : Inv s' := by
  have hcur := inv.own h hlt t (by simp [hpc])
  have hrun : (s.threads t).state = .running ∨ (s.threads t).state = .exited := by
    simpa [hpc] using inv.harts h hlt t
  refine inv.act hlt fr ?_ hnew (fun _ _ => rfl) (.inl rfl) (fun u _ => hwork u)
    (fun _ _ => by rw [hsleep]) hfault ?_ (.inl hst) (hst ▸ hallow) hwf (fun _ => hcur)
    (fun _ => Or.inl howns)
  · simp [hpc]
  have hzero : pc.held t = 0 ∧ pc.run t ≤ 1 ∧ pc.claiming t = 0 ∧ pc.res t = 0 := by
    cases pc <;> simp_all [one]
  obtain ⟨z1, z2, z3, z4⟩ := hzero
  have hc := fr.counts hlt t
  have hb := inv.bounds hlt t
  have ho := (s.ok_iff t).mp (inv.ok t)
  rw [fr.thread_self, hslot, hwork t, hsleep] at hc
  rw [s'.ok_iff, fr.thread_self, hst]
  simp only [tok, z1, z3, z4, hblk] at hc
  rcases hrun with hrun | hrun <;>
  · simp [hpc, hrun, tok, hcur] at hc hb ho ⊢
    omega

theorem HartPc.clear_of_not_inPark (hpark : pc.inPark t = false) :
    pc.stray t = 0 ∧ pc.claiming t = 0 := by
  cases pc <;> simp_all [inPark, one]

/-- When every earlier park of a running thread is finished, none is counted. -/
theorem State.settled.clear (hset : s.settled h t) (hpc : (s.harts h).pc = .running t) :
    s.stray t = 0 ∧ s.claiming t = 0 ∧ s.note t = 0 := by
  obtain ⟨hharts, hinbox, hmgr⟩ := hset
  have hzero : ∀ h', h' < s.nHarts →
      (s.harts h').pc.stray t = 0 ∧ (s.harts h').pc.claiming t = 0 := by
    intro h' hlt'
    by_cases hh : h' = h
    · simp [hh, hpc]
    · exact HartPc.clear_of_not_inPark (hharts h' hlt' hh)
  have hstray : s.perHart (·.pc.stray t) = 0 :=
    State.perHart_eq_zero.mpr fun j hj => (hzero j hj).1
  have hclaiming : s.perHart (·.pc.claiming t) = 0 :=
    State.perHart_eq_zero.mpr fun j hj => (hzero j hj).2
  refine ⟨hstray, hclaiming, ?_⟩
  have hnone : s.sleepInbox.countP (fun n => n.thread = t) = 0 := by
    simpa [List.countP_eq_zero] using hinbox
  rw [State.note, hnone, hmgr]

/-- Queueing a manager-resolved syscall: the thread now has one right to be resumed,
and the hart that parks it is the only one inside a park of it. -/
theorem issue_inv (inv : Inv s) (hlt : h < s.nHarts) (hpc : (s.harts h).pc = .running t)
    (hset : s.settled h t) {mk : Nat → Work} (hmk : ∀ call u, (mk call).isCall u = decide (t = u))
    (hs : issue s h t frame mk = some s') : Inv s' := by
  have hcur := inv.own h hlt t (by simp [hpc])
  have hrun : (s.threads t).state = .running ∨ (s.threads t).state = .exited := by
    simpa [hpc] using inv.harts h hlt t
  unfold issue at hs
  split at hs
  · have hs := Option.some.inj hs
    have hfr : HartFrame s s' h { s.harts h with pc := .commit t .blocking frame none } t
        { s.threads t with calls := (s.threads t).calls + 1 } := by
      subst hs
      exact ⟨rfl, rfl, rfl, rfl, rfl, rfl, rfl, rfl⟩
    have hwork : s'.work = s.work ++ [mk ((s.threads t).calls + 1)] := by
      subst hs
      rfl
    have hsleep : s'.sleepInbox = s.sleepInbox := by
      subst hs
      rfl
    have hfault : s'.fault = s.fault := by
      subst hs
      rfl
    clear hs
    refine inv.act hlt hfr ?_ ?_ (fun _ _ => rfl) (.inl rfl) ?_ (fun _ _ => by rw [hsleep]) hfault
      ?_ (.inl rfl) ?_ ?_ (fun _ => hcur) (fun _ => Or.inl (by simp))
    · simp [hpc]
    · simp
    · intro u hu
      simp [hwork, hmk, hu.symm]
    · obtain ⟨hstray, hclaiming, hnote⟩ := hset.clear hpc
      have hc := hfr.counts hlt t
      have hb := inv.bounds hlt t
      have ho := (s.ok_iff t).mp (inv.ok t)
      have hone : s'.work.countP (Work.isCall t) = s.work.countP (Work.isCall t) + 1 := by
        simp [hwork, hmk]
      have hslot : (s'.threads t).slotRes = (s.threads t).slotRes := by
        rw [hfr.thread_self]
        rfl
      rw [s'.ok_iff]
      rw [hone, hsleep, hslot] at hc
      rw [hfr.thread_self]
      rcases hrun with hrun | hrun <;>
      · simp [hpc, hrun, tok, hcur] at hc hb ho ⊢
        omega
    · simpa using hrun
    · simp [transitionAllowed]
  · cases hs
    have fr := frame_setPc s h (.switch t) t
    exact leaveRunning_inv inv hlt hpc fr.toHartFrame rfl rfl (fun _ => rfl) rfl rfl
      (by simp) (by simp) trivial (by simpa using hrun) rfl

/-- Whatever the running thread does, the invariant holds when it enters the kernel. -/
theorem trapStep_inv (inv : Inv s) (hlt : h < s.nHarts) (hpc : (s.harts h).pc = .running t)
    (hset : ∀ u, (s.harts h).pc.issues trap = some u → s.settled h u)
    (hs : trapStep s h t trap = some s') : Inv s' := by
  have hrun : (s.threads t).state = .running ∨ (s.threads t).state = .exited := by
    simpa [hpc] using inv.harts h hlt t
  have hmove : ∀ {pc : HartPc}, pc.Names t → pc.owns t → pc.wf → pc.blk t = 0 →
      pc.allows t (s.threads t).state → Inv (s.setPc h pc) := fun hn ho hw hb ha =>
    leaveRunning_inv inv hlt hpc (frame_setPc s h _ t).toHartFrame rfl rfl (fun _ => rfl) rfl rfl
      hn ho hw ha hb
  cases trap with
  | preempt =>
    cases hs
    exact hmove (by simp) rfl trivial rfl (by simpa using hrun)
  | yield frame =>
    cases hs
    exact hmove (by simp) rfl rfl rfl (by simpa using hrun)
  | sleep frame deadline =>
    cases hs
    exact hmove (by simp) rfl rfl rfl (by simpa using hrun)
  | call frame =>
    exact issue_inv inv hlt hpc (hset t (by simp [hpc, issues])) (fun _ _ => rfl) hs
  | createThread frame allowed affinity =>
    simp only [trapStep] at hs
    exact issue_inv inv hlt hpc (hset t (by simp [hpc, issues])) (fun _ _ => rfl) hs
  | exit frame =>
    simp only [trapStep] at hs
    split at hs
    · cases hs
      have fr := frame_write s h (.parkSeq t .exited) t { s.threads t with regs := frame }
      exact leaveRunning_inv inv hlt hpc ⟨rfl, rfl, fr.threads, rfl, rfl, rfl, rfl, rfl⟩ rfl rfl
        (fun u => by simp [State.setPc, State.setHart, State.setThread, State.pushWork,
          Work.isCall])
        rfl rfl (by simp) rfl rfl (by simpa using hrun) rfl
    · cases hs
  | threadExit frame =>
    cases hs
    exact leaveRunning_inv inv hlt hpc (frame_write s h _ t _).toHartFrame rfl rfl (fun _ => rfl)
      rfl rfl
      (by simp) rfl rfl (by simpa using hrun) rfl
  | fault =>
    cases hs
    exact leaveRunning_inv inv hlt hpc (frame_write s h _ t _).toHartFrame rfl rfl (fun _ => rfl)
      rfl rfl
      (by simp) rfl rfl (by simpa using hrun) rfl

end Trap

section Park

/-- `apply_syscall_outcome`: a thread killed meanwhile is not parked. -/
theorem commit_inv (inv : Inv s) (hlt : h < s.nHarts)
    {deadline : Option UInt64} (hpc : (s.harts h).pc = .commit t target frame deadline)
    (hs : (if commitAllowed (s.threads t).state then some ((s.setThread t { s.threads t with
          regs := frame, wakeTime := deadline.getD (s.threads t).wakeTime }).setPc h
          (.parkSeq t target))
      else some (s.setPc h (.switch t))) = some s') : Inv s' := by
  have hcur := inv.own h hlt t (by simp [hpc])
  have hrun : (s.threads t).state = .running ∨ (s.threads t).state = .exited := by
    simpa [hpc] using inv.harts h hlt t
  have htarget : ThreadState.running.transitionAllowed target := by
    simpa [hpc] using inv.wf h hlt
  have hold : (s.harts h).pc.Names t := by simp [hpc]
  have hb := inv.bounds hlt t
  have ho := (s.ok_iff t).mp (inv.ok t)
  rcases hrun with hst | hst
  · rw [if_pos (by simp [hst, commitAllowed]), Option.some.injEq] at hs
    have fr : HartOnly s s' h { s.harts h with pc := .parkSeq t target } t { s.threads t with
        regs := frame, wakeTime := deadline.getD (s.threads t).wakeTime } := by
      subst hs
      exact frame_write s h _ t _
    clear hs
    refine inv.act hlt fr.toHartFrame hold ?_ (fun _ _ => rfl) (.inl rfl)
      (fun _ _ => by rw [fr.work]) (fun _ _ => by rw [fr.sleepInbox]) fr.fault ?_ (.inl rfl) ?_
      htarget (fun _ => hcur) (fun _ => Or.inl rfl)
    · simp
    · have hc := fr.counts hlt t
      have hslot : (s'.threads t).slotRes = (s.threads t).slotRes := by
        rw [fr.thread_self]
        rfl
      rw [hslot] at hc
      rw [s'.ok_iff, fr.thread_self]
      by_cases hblk : target = .blocking <;>
      · simp [hpc, hst, tok, hcur, hblk] at hc hb ho ⊢
        omega
    · simp [hst]
  · simp only [hst, commitAllowed, Bool.false_eq_true, if_false] at hs
    cases hs
    have fr := frame_setPc s h (.switch t) t
    refine inv.act hlt fr.toHartFrame hold ?_ (fun _ _ => rfl) (.inl rfl) (fun _ _ => rfl)
      (fun _ _ => rfl) rfl ?_ (.inl rfl) ?_ trivial (fun _ => hcur) (fun _ => Or.inl rfl)
    · simp
    · have hc := fr.counts hlt t
      rw [State.ok_iff]
      rw [fr.thread_self] at hc ⊢
      by_cases hblk : target = .blocking <;>
      · simp [hpc, hst, tok, hcur, hblk] at hc hb ho ⊢
        omega
    · simp [hst]

/-- `check_context_and_switch`: a running thread is preempted, a killed one leaves. -/
theorem switch_inv (inv : Inv s) (hlt : h < s.nHarts) (hpc : (s.harts h).pc = .switch t)
    (hs : (match (s.threads t).state with
      | .running => some (s.setPc h (.parkSeq t .ready))
      | .exited => some (s.setPc h (.parkSeq t .exited))
      | .suspended | .blocking => some (s.setHart h { s.harts h with current := none, pc := .idle })
      | .ready | .assigned => some (s.setPc h (.dispatch t))) = some s') : Inv s' := by
  have hcur := inv.own h hlt t (by simp [hpc])
  have hrun : (s.threads t).state = .running ∨ (s.threads t).state = .exited := by
    simpa [hpc] using inv.harts h hlt t
  obtain ⟨target, hs, htarget, hblk, hallow⟩ : ∃ target, s.setPc h (.parkSeq t target) = s' ∧
      ThreadState.running.transitionAllowed target ∧ target ≠ .blocking ∧
      ((s.threads t).state = .running ∨
        (s.threads t).state = .exited ∧ target ≠ .ready ∧ target ≠ .blocking) := by
    rcases hrun with hst | hst
    · exact ⟨.ready, by simpa [hst] using hs, rfl, by simp, Or.inl hst⟩
    · exact ⟨.exited, by simpa [hst] using hs, rfl, by simp, Or.inr ⟨hst, by simp, by simp⟩⟩
  subst hs
  have fr := frame_setPc s h (.parkSeq t target) t
  refine inv.act hlt fr.toHartFrame ?_ ?_ (fun _ _ => rfl) (.inl rfl) (fun _ _ => rfl)
    (fun _ _ => rfl) rfl ?_ (.inl rfl) (fun _ => hallow) htarget (fun _ => hcur)
    (fun _ => Or.inl rfl)
  · simp [hpc]
  · simp
  have hc := fr.counts hlt t
  have hb := inv.bounds hlt t
  have ho := (s.ok_iff t).mp (inv.ok t)
  rw [State.ok_iff]
  rw [fr.thread_self] at hc ⊢
  rcases hrun with hst | hst <;>
  · simp [hpc, hst, tok, hcur, hblk] at hc hb ho ⊢
    omega

/-- The sequence number of a Suspended park is bumped before the state is stored. -/
theorem parkSeq_inv (inv : Inv s) (hlt : h < s.nHarts) (hpc : (s.harts h).pc = .parkSeq t target)
    (hs : (if target = .suspended
      then some ((s.setThread t { s.threads t with sleepSeq := (s.threads t).sleepSeq + 1 }).setPc h
          (.parkNull t target (some ⟨(s.threads t).wakeTime, (s.threads t).sleepSeq + 1, t⟩)))
      else some (s.setPc h (.parkNull t target none))) = some s') : Inv s' := by
  have hcur := inv.own h hlt t (by simp [hpc])
  have hallow := inv.harts h hlt t
  have htarget : ThreadState.running.transitionAllowed target := by
    simpa [hpc] using inv.wf h hlt
  have hold : (s.harts h).pc.Names t := by simp [hpc]
  split at hs
  · next hsusp =>
    cases hs
    refine inv.act_same hlt (frame_write s h _ t _) rfl rfl hold ?_ ?_ ?_ ?_ (fun _ => hcur) ?_
    · simp
    · simp [hpc]
    · simpa [hpc] using hallow
    · simpa [hsusp] using htarget
    · simp [hpc]
  next hsusp =>
  cases hs
  refine inv.act_same hlt (frame_setPc s h _ t) rfl rfl hold ?_ ?_ ?_ ?_ (fun _ => hcur) ?_
  · simp
  · simp [hpc]
  · simpa [hpc] using hallow
  · simp [htarget, hsusp]
  · simp [hpc]

/-- Clearing `current`: the token is now in the parking hart's hands. -/
theorem parkNull_inv (inv : Inv s) (hlt : h < s.nHarts)
    (hpc : (s.harts h).pc = .parkNull t target notice)
    (fr : HartOnly s s' h { s.harts h with current := none, pc := .parkLoad t target notice } t
      (s.threads t)) : Inv s' := by
  have hcur := inv.own h hlt t (by simp [hpc])
  have hallow := inv.harts h hlt t
  have hwf := inv.wf h hlt
  refine inv.act hlt fr.toHartFrame ?_ ?_ (fun _ _ => rfl) (.inr ⟨rfl, hcur⟩)
    (fun _ _ => by rw [fr.work]) (fun _ _ => by rw [fr.sleepInbox]) fr.fault ?_ (.inl rfl)
    ?_ ?_ ?_ ?_
  · simp [hpc]
  · simp
  · have hc := fr.counts hlt t
    rw [fr.thread_self] at hc
    simp [hpc, tok, hcur] at hc
    exact State.ok_of_counts (inv.ok t) (by rw [fr.thread_self]) (by omega)
  · simpa [hpc] using hallow
  · simpa [hpc] using hwf
  · simp
  · simp

/-- What follows a park names no other thread and leaves the thread to others. -/
theorem afterPark_fits (hthread : ∀ n, notice = some n → n.thread = t) :
    (afterPark t target notice).Names t ∧ (afterPark t target notice).wf ∧
      ∀ u, ¬ (afterPark t target notice).owns u := by
  cases notice with
  | none => cases target <;> simp [afterPark]
  | some n => simpa [afterPark] using hthread n rfl

variable (inv : Inv s)

include inv

/-- The load of `transition_to` in a park. -/
theorem parkLoad_inv (hlt : h < s.nHarts)
    (hpc : (s.harts h).pc = .parkLoad t target notice)
    (hs : (if (s.threads t).state = .exited then some (s.setPc h (afterPark t target notice))
      else if (s.threads t).state.transitionAllowed target then
        some (s.setPc h (.parkStore t target notice))
      else some (s.fail (.panic (.transitionTo target) t (s.threads t).state))) = some s') :
    Inv s' := by
  have hold : (s.harts h).pc.Names t := by simp [hpc]
  have hown := inv.own h hlt t
  have hcur := inv.cur h hlt t
  have hallow : (s.threads t).state = .running ∨
      (s.threads t).state = .exited ∧ target ≠ .ready ∧ target ≠ .blocking := by
    simpa [hpc] using inv.harts h hlt t
  have hwf := inv.wf h hlt
  simp only [hpc, wf] at hwf
  obtain ⟨htarget, hsusp, hthread⟩ := hwf
  rcases hallow with hst | ⟨hst, hready, hblocking⟩
  · simp only [hst, reduceCtorEq, if_false, htarget, if_true] at hs
    cases hs
    refine inv.act_same hlt (frame_setPc s h _ t) rfl rfl hold ?_ ?_ ?_
      ⟨htarget, hsusp, hthread⟩ ?_ ?_
    · simp
    · simp [hpc]
    · simp [hst]
    · simp
    · simp [hpc]
  rw [if_pos hst, Option.some.injEq] at hs
  have fr : HartOnly s s' h { s.harts h with pc := afterPark t target notice } t
      (s.threads t) := by
    subst hs
    exact frame_setPc s h _ t
  clear hs
  refine inv.act hlt fr.toHartFrame hold (afterPark_fits hthread).1 (fun _ _ => rfl) (.inl rfl)
    (fun _ _ => by rw [fr.work]) (fun _ _ => by rw [fr.sleepInbox]) fr.fault ?_ (.inl rfl) ?_
    (afterPark_fits hthread).2.1 (fun ho => absurd ho ((afterPark_fits hthread).2.2 t))
    (fun _ => Or.inr (.inr hst))
  · have hc := fr.counts hlt t
    have hb := inv.bounds hlt t
    have ho := (s.ok_iff t).mp (inv.ok t)
    rw [s'.ok_iff]
    rw [fr.thread_self] at hc ⊢
    cases target with
    | suspended =>
      obtain ⟨n, rfl⟩ := Option.isSome_iff_exists.mp (hsusp.mp rfl)
      simp [hpc, hst, tok, hthread n rfl, afterPark] at hc hb ho ⊢
      omega
    | exited =>
      have hnone : notice = none := by simpa using hsusp
      simp [hpc, hst, tok, hnone, afterPark] at hc hb ho ⊢
      omega
    | ready => exact absurd rfl hready
    | blocking => exact absurd rfl hblocking
    | assigned | running => simp [transitionAllowed] at htarget
  · cases notice with
    | none => cases target <;> simp_all [afterPark]
    | some n => trivial

/-- The store of `transition_to` in a park: from here on the thread may be resumed. -/
theorem parkStore_inv (hlt : h < s.nHarts)
    (hpc : (s.harts h).pc = .parkStore t target notice)
    (fr : HartOnly s s' h { s.harts h with pc := afterPark t target notice } t
      ((s.threads t).store target)) : Inv s' := by
  have hallow : (s.threads t).state = .running ∨
      (s.threads t).state = .exited ∧ target = .exited := by
    simpa [hpc] using inv.harts h hlt t
  have hold : (s.harts h).pc.Names t := by simp [hpc]
  have hwf := inv.wf h hlt
  simp only [hpc, wf] at hwf
  obtain ⟨htarget, hsusp, hthread⟩ := hwf
  obtain ⟨hnames, hwf', hfree⟩ : (afterPark t target notice).Names t ∧ _ ∧ _ :=
    afterPark_fits hthread
  have hcur : (s.harts h).current = some t → (s.threads t).state = .exited := by
    intro hc
    rcases inv.cur h hlt t hc with ho | ho
    · simp [hpc] at ho
    rcases hallow with hst | hst
    · simp [hst] at ho
    · exact hst.1
  have htok : 1 ≤ (s.harts h).tok t := by simp [tok, hpc]
  have hb := inv.bounds hlt t
  have ho := (s.ok_iff t).mp (inv.ok t)
  have hc := fr.counts hlt t
  rw [fr.thread_self] at hc
  have hothers : ((s.threads t).store target).state = (s.threads t).state ∨
      (∀ h', h' < s.nHarts → h' ≠ h → (s.harts h').tok t = 0 ∧ (s.harts h').pc.res t = 0) ∧
        (∀ m, s.mgr = some m → m.pc.allows t ((s.threads t).store target).state) ∧
        (s.threads t).state ≠ .exited := by
    rcases hallow with hst | ⟨hst, hex⟩
    · obtain ⟨halone, hmtok⟩ := inv.alone_of_tok hlt htok (by simp [hst])
      refine .inr ⟨halone, fun m hm => ?_, by simp [hst]⟩
      exact MgrPc.allows_store ((inv.mgr m hm).2 t) (hmtok m hm) (by simp [hst])
        (.inr (.inl hst))
    · exact .inl (by rw [hst, hex]; rfl)
  refine inv.act hlt fr.toHartFrame hold hnames (fun _ _ => rfl) (.inl rfl)
    (fun _ _ => by rw [fr.work]) (fun _ _ => by rw [fr.sleepInbox]) fr.fault ?_ hothers ?_ hwf'
    (fun ho => absurd ho (hfree t)) ?_
  · rw [s'.ok_iff, fr.thread_self]
    rcases hallow with hst | ⟨hst, rfl⟩
    · have hne : (s.harts h).current ≠ some t := fun hc' => by simp [hst] at hcur; exact hcur hc'
      cases target with
      | ready | blocking | exited =>
        have hnone : notice = none := by simpa using hsusp
        simp [hpc, hst, tok, hne, hnone, afterPark] at hc hb ho ⊢
        omega
      | suspended =>
        obtain ⟨n, rfl⟩ := Option.isSome_iff_exists.mp (hsusp.mp rfl)
        simp [hpc, hst, tok, hne, hthread n rfl, afterPark] at hc hb ho ⊢
        omega
      | assigned | running => simp [transitionAllowed] at htarget
    have hnone : notice = none := by simpa using hsusp
    simp [hpc, hst, tok, hnone, afterPark] at hc hb ho ⊢
    omega
  · cases notice with
    | none => cases target <;> simp [afterPark]
    | some n => trivial
  intro hc'
  rcases hallow with hst | ⟨hst, hex⟩
  · have := hcur hc'
    simp [hst] at this
  · exact .inr (.inr hex)

/-- `push_sleep_notice`; a full inbox drops the notice. -/
theorem sleepPush_inv (hlt : h < s.nHarts) {n : SleepNotice}
    (hpc : (s.harts h).pc = .sleepPush n)
    (fr : HartFrame s s' h { s.harts h with pc := .idle } n.thread (s.threads n.thread))
    (hwork : s'.work = s.work) (hfault : s'.fault = s.fault)
    (hsleep : s'.sleepInbox = s.sleepInbox ++ [n] ∨ s'.sleepInbox = s.sleepInbox) : Inv s' := by
  have hcur := inv.cur h hlt n.thread
  simp only [hpc, owns, false_or] at hcur
  refine inv.act hlt fr ?_ ?_ (fun _ _ => rfl) (.inl rfl) (fun _ _ => by rw [hwork]) ?_ hfault
    ?_ (.inl rfl) trivial trivial ?_ (fun hc => Or.inr (hcur hc))
  · simp [hpc]
  · simp
  · intro u hu
    rcases hsleep with hsleep | hsleep <;> simp [hsleep, hu.symm]
  · apply State.ok_of_counts (inv.ok n.thread) (by rw [fr.thread_self])
    have hc := fr.counts hlt n.thread
    rw [fr.thread_self, hwork] at hc
    rcases hsleep with hsleep | hsleep <;>
    · simp [hpc, tok, hsleep] at hc
      omega
  · simp

/-- `into_runnable` asserts that the thread is Ready. -/
theorem mint_inv (hlt : h < s.nHarts) (hpc : (s.harts h).pc = .mint t)
    (hs : (if (s.threads t).state = .ready then some (s.setPc h (.push t))
      else some (s.fail (.panic .intoRunnable t (s.threads t).state))) = some s') : Inv s' := by
  have hst : (s.threads t).state = .ready := by simpa [hpc] using inv.harts h hlt t
  rw [if_pos hst] at hs
  cases hs
  refine inv.act_same hlt (frame_setPc s h _ t) rfl rfl ?_ ?_ ?_ ?_ trivial ?_ ?_ <;>
    simp [hpc, hst]

/-- `push_ready_notice`: the token goes to the hart's inbox, or is lost when it is
full. -/
theorem push_inv (hlt : h < s.nHarts) (hpc : (s.harts h).pc = .push t)
    {inbox : List Tid} (hinbox : inbox = (s.harts h).inbox ++ [t] ∨ inbox = (s.harts h).inbox)
    (fr : HartOnly s s' h { s.harts h with pc := .idle, inbox } t (s.threads t)) :
    Inv s' := by
  have hst : (s.threads t).state = .ready ∨ (s.threads t).state = .exited := by
    simpa [hpc] using inv.harts h hlt t
  have hcur := inv.cur h hlt t
  simp only [hpc, owns, false_or] at hcur
  refine inv.act hlt fr.toHartFrame ?_ ?_ ?_ (.inl rfl) (fun _ _ => by rw [fr.work])
    (fun _ _ => by rw [fr.sleepInbox]) fr.fault ?_ (.inl rfl) trivial trivial ?_
    (fun hc => Or.inr (hcur hc))
  · simp [hpc]
  · simp
  · intro u hu
    rcases hinbox with hi | hi <;> simp [hi, List.count_append, hu.symm]
  · have hc := fr.counts hlt t
    have hb := inv.bounds hlt t
    have ho := (s.ok_iff t).mp (inv.ok t)
    rw [s'.ok_iff]
    rw [fr.thread_self] at hc ⊢
    rcases hst with hst | hst <;> rcases hinbox with hi | hi <;>
    · simp [hpc, hst, tok, hi] at hc hb ho ⊢
      omega
  · simp

end Park

section Claim

/-- The take-CAS of `try_claim_own_pending`. A hart that finds its thread's results
has parked it, and nobody has resumed it since: the thread is still Blocking. -/
theorem claim_inv (inv : Inv s) (hlt : h < s.nHarts) (hpc : (s.harts h).pc = .claim t)
    (hs : (match (s.threads t).pending with
      | some p => some ((s.setThread t (s.threads t).resetPending).setPc h (.claimed t p))
      | none => some (s.setPc h .idle)) = some s') : Inv s' := by
  have hold : (s.harts h).pc.Names t := by simp [hpc]
  have hcur := inv.cur h hlt t
  simp only [hpc, owns, false_or] at hcur
  have hb := inv.bounds hlt t
  have ho := (s.ok_iff t).mp (inv.ok t)
  cases hp : (s.threads t).pending with
  | none =>
    simp only [hp, Option.some.injEq] at hs
    have fr : HartOnly s s' h { s.harts h with pc := .idle } t (s.threads t) := by
      subst hs
      exact frame_setPc s h _ t
    clear hs
    refine inv.act hlt fr.toHartFrame hold ?_ (fun _ _ => rfl) (.inl rfl)
      (fun _ _ => by rw [fr.work]) (fun _ _ => by rw [fr.sleepInbox]) fr.fault ?_ (.inl rfl)
      trivial trivial ?_ (fun hc => Or.inr (hcur hc))
    · simp
    · apply State.ok_of_counts (inv.ok t) (by rw [fr.thread_self])
      have hc := fr.counts hlt t
      rw [fr.thread_self] at hc
      simp [hpc, tok] at hc
      omega
    · simp
  | some p =>
    simp only [hp, Option.some.injEq] at hs
    have fr : HartOnly s s' h { s.harts h with pc := .claimed t p } t
        (s.threads t).resetPending := by
      subst hs
      exact frame_write s h _ t _
    clear hs
    have hslot : (s.threads t).slotRes = 1 := by simp [Thread.slotRes, hp]
    have hres : 1 ≤ s.res t := by
      simp [State.res, hp]
      omega
    have hcode : (s.threads t).state.code = 1 := by
      simp [hpc, tok] at hb
      omega
    have hst : (s.threads t).state = .blocking := code_inj hcode
    refine inv.act hlt fr.toHartFrame hold ?_ (fun _ _ => rfl) (.inl rfl)
      (fun _ _ => by rw [fr.work]) (fun _ _ => by rw [fr.sleepInbox]) fr.fault ?_ (.inl rfl)
      (fun _ => hst) trivial ?_ (fun hc => Or.inr (hcur hc))
    · simp
    · have hc := fr.counts hlt t
      rw [s'.ok_iff]
      rw [fr.thread_self, hslot] at hc
      rw [fr.thread_self]
      simp [hpc, hst, tok] at hc hb ho ⊢
      omega
    · simp

/-- The marshal of a claimed result. -/
theorem claimed_inv (inv : Inv s) (hlt : h < s.nHarts) (hpc : (s.harts h).pc = .claimed t p) :
    Inv ((s.setThread t ((s.threads t).writeRets p.vals)).setPc h (.claimLoad t p)) := by
  have hst : (s.threads t).state = .blocking := by simpa [hpc] using inv.harts h hlt t
  refine inv.act_same hlt (frame_write s h _ t _) rfl rfl ?_ ?_ ?_ ?_ trivial ?_ ?_ <;>
    simp [hpc, hst]

/-- The load of `promote_ready_from_parked` after a claim. -/
theorem claimLoad_inv (inv : Inv s) (hlt : h < s.nHarts) (hpc : (s.harts h).pc = .claimLoad t p)
    (hs : (if (s.threads t).state.parked then some (s.setPc h (.claimStore t p))
      else some (s.fail (.panic .promoteReadyFromParked t (s.threads t).state))) = some s') :
    Inv s' := by
  have hst : (s.threads t).state = .blocking := by simpa [hpc] using inv.harts h hlt t
  rw [if_pos (by simp [hst, parked])] at hs
  cases hs
  refine inv.act_same hlt (frame_setPc s h _ t) rfl rfl ?_ ?_ ?_ ?_ trivial ?_ ?_ <;>
    simp [hpc, hst]

/-- The store of `promote_ready_from_parked` after a claim: the right to resume the
thread becomes its token. -/
theorem claimStore_inv (inv : Inv s) (hlt : h < s.nHarts) (hpc : (s.harts h).pc = .claimStore t p)
    (fr : HartOnly s s' h { s.harts h with pc := .push t } t ((s.threads t).store .ready)) :
    Inv s' := by
  have hst : (s.threads t).state = .blocking := by simpa [hpc] using inv.harts h hlt t
  have hcur : (s.harts h).current ≠ some t := by
    intro hc
    rcases inv.cur h hlt t hc with ho | ho
    · simp [hpc] at ho
    · simp [hst] at ho
  obtain ⟨halone, hmgr⟩ := inv.alone_of_res hlt (by simp [hpc]) hst
  refine inv.act hlt fr.toHartFrame ?_ ?_ (fun _ _ => rfl) (.inl rfl)
    (fun _ _ => by rw [fr.work]) (fun _ _ => by rw [fr.sleepInbox]) fr.fault ?_
    (.inr ⟨halone, fun m hm => ?_, by simp [hst]⟩) (fun _ => Or.inl rfl) trivial ?_
    (fun hc => absurd hc hcur)
  · simp [hpc]
  · simp
  · have hc := fr.counts hlt t
    have hb := inv.bounds hlt t
    have ho := (s.ok_iff t).mp (inv.ok t)
    rw [s'.ok_iff]
    rw [fr.thread_self] at hc ⊢
    simp [hpc, hst, tok] at hc hb ho ⊢
    omega
  · exact MgrPc.allows_store ((inv.mgr m hm).2 t) (hmgr m hm).1 (fun _ => (hmgr m hm).2)
      (.inr (.inr ⟨hst, rfl⟩))
  · simp

end Claim

/-- Every access of a hart keeps the invariant, provided that a manager-resolved
syscall is issued only after the thread's earlier parks are finished. -/
theorem hartStep_inv (inv : Inv s) (hlt : h < s.nHarts)
    (hset : ∀ u, (s.harts h).pc.issues trap = some u → s.settled h u)
    (hs : hartStep s h trap = some s') : Inv s' := by
  unfold hartStep at hs
  cases hpc : (s.harts h).pc with
  | idle =>
    simp only [hpc] at hs
    cases hcur : (s.harts h).current with
    | none => simp [hcur] at hs
    | some t =>
      simp only [hcur, Option.some.injEq] at hs
      exact hs ▸ idle_inv inv hlt hpc hcur
  | dispatch t =>
    simp only [hpc] at hs
    exact inv.deref (dispatch_inv inv hlt hpc) hs
  | dispatchStore t =>
    simp only [hpc] at hs
    refine inv.deref (fun hk => ?_) hs
    cases hk
    exact dispatchStore_inv inv hlt hpc (frame_write s h _ t _)
  | dispatchCheck t =>
    simp only [hpc] at hs
    exact inv.deref (dispatchCheck_inv inv hlt hpc) hs
  | running t =>
    simp only [hpc] at hs
    exact inv.deref (trapStep_inv inv hlt hpc hset) hs
  | commit t target frame deadline =>
    simp only [hpc] at hs
    exact inv.deref (commit_inv inv hlt hpc) hs
  | switch t =>
    simp only [hpc] at hs
    exact inv.deref (switch_inv inv hlt hpc) hs
  | parkSeq t target =>
    simp only [hpc] at hs
    exact inv.deref (parkSeq_inv inv hlt hpc) hs
  | parkNull t target notice =>
    simp only [hpc] at hs
    cases hs
    exact parkNull_inv inv hlt hpc
      ⟨⟨rfl, rfl, (update_eq_self t s.threads).symm, rfl, rfl, rfl, rfl, rfl⟩, rfl, rfl, rfl⟩
  | parkLoad t target notice =>
    simp only [hpc] at hs
    exact inv.deref (parkLoad_inv inv hlt hpc) hs
  | parkStore t target notice =>
    simp only [hpc] at hs
    refine inv.deref (fun hk => ?_) hs
    cases hk
    exact parkStore_inv inv hlt hpc (frame_write s h _ t _)
  | sleepPush n =>
    simp only [hpc] at hs
    have hsame := (update_eq_self n.thread s.threads).symm
    split at hs <;> cases hs
    · exact sleepPush_inv inv hlt hpc ⟨rfl, rfl, hsame, rfl, rfl, rfl, rfl, rfl⟩ rfl rfl (.inl rfl)
    · exact sleepPush_inv inv hlt hpc ⟨rfl, rfl, hsame, rfl, rfl, rfl, rfl, rfl⟩ rfl rfl (.inr rfl)
  | mint t =>
    simp only [hpc] at hs
    exact inv.deref (mint_inv inv hlt hpc) hs
  | push t =>
    simp only [hpc, State.pushInbox] at hs
    cases hs
    have hsame := (update_eq_self t s.threads).symm
    split
    · refine push_inv inv hlt hpc (.inl rfl)
        ⟨⟨rfl, ?_, hsame, rfl, rfl, rfl, rfl, rfl⟩, rfl, rfl, rfl⟩
      simp [State.setPc, State.setHart]
    · exact push_inv inv hlt hpc (.inr rfl)
        ⟨⟨rfl, rfl, hsame, rfl, rfl, rfl, rfl, rfl⟩, rfl, rfl, rfl⟩
  | claim t =>
    simp only [hpc] at hs
    exact inv.deref (claim_inv inv hlt hpc) hs
  | claimed t p =>
    simp only [hpc] at hs
    refine inv.deref (fun hk => ?_) hs
    cases hk
    exact claimed_inv inv hlt hpc
  | claimLoad t p =>
    simp only [hpc] at hs
    exact inv.deref (claimLoad_inv inv hlt hpc) hs
  | claimStore t p =>
    simp only [hpc] at hs
    refine inv.deref (fun hk => ?_) hs
    cases hk
    exact claimStore_inv inv hlt hpc (frame_write s h _ t _)

end Orbit.Sched
