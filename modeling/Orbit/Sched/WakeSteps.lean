import Orbit.Sched.MgrSteps

/-!
The later phases of a manager pass: wake events, sleepers, ready inboxes and the
assignment of threads to harts. Each access keeps the scheduler invariant.
-/

namespace Orbit.Sched

open Transition Function State ThreadState

variable {a : After} {c : Choice} {hs : List Nat} {h : Nat}

variable {s s' : State} {m : Mgr} {t : Tid}

section Wake

theorem ScanCaller.pc_light (c : ScanCaller) :
    c.pc.Light ∧ (∀ u st, c.pc.allows u st) ∧ c.pc.offers = [] := by
  rcases c with _ | (_ | _) <;> simp [ScanCaller.pc]

theorem After.pc_light (a : After) :
    a.pc.Light ∧ (∀ u st, a.pc.allows u st) ∧ a.pc.offers = [] := by
  cases a <;> simp [After.pc]

variable (inv : Inv s)

include inv

/-- Going back to the loop a promotion was called from, whatever the point held of a
sleep notice. -/
theorem backTo_inv (a : After) (fr : MgrOnly s s' m a.pc t (s.threads t))
    (hold : ∀ u, m.pc.tok u = 0 ∧ m.pc.res u = 0) : Inv s' := by
  obtain ⟨hlight, hallow, hoffers⟩ := a.pc_light
  refine inv.manage fr.toMgrFrame (fun u => ?_) (.inl rfl) (fun u _ => hallow u _) (hallow t _)
    ?_ ?_ fun u hu => Or.inl (fr.registry ▸ hu)
  · have hc := fr.counts u
    have hb := inv.mgr_bounds fr.before u
    have hl := hlight u
    have hl' := hold u
    have hthreads : s'.threads u = s.threads u := by
      rw [fr.threads, update_eq_self]
    rw [hthreads] at hc
    exact ok_of_counts (inv.ok u) (by rw [hthreads]) (by omega)
  · rw [hoffers]
    exact nofun
  · intro h htgt
    cases a <;> simp [After.pc] at htgt

/-- `claim_parked`: the thread found parked is Suspended when it is to be woken without
results. For a sleep notice that follows from the notice itself, which a Blocking
thread does not have. -/
theorem claimParked_inv (hm : s.mgr = some m) {mode : Mode}
    (hpc : m.pc = .claim t mode a) (hs : wakeStep s m c (.claim t mode a) = some s') : Inv s' := by
  simp only [wakeStep] at hs
  have hallow := (inv.mgr m hm).2 t
  simp only [hpc, MgrPc.allows, forall_const] at hallow
  have hb := inv.mgr_bounds hm t
  have ho := (s.ok_iff t).mp (inv.ok t)
  split at hs
  · next hparked =>
    have hself : ∀ pc, pc = MgrPc.swapWake t none a ∨ pc = .take t a →
        MgrOnly s s' m pc t (s.threads t) → (s'.ledger t).Ok := by
      intro pc hpc' fr
      have hc := fr.counts t
      rw [fr.thread_self] at hc
      apply ok_of_counts (inv.ok t) (by rw [fr.thread_self])
      clear ho
      rcases hpc' with rfl | rfl <;>
      · simp only [hpc, MgrPc.tok, MgrPc.res, MgrPc.note, Option.isSome_none,
          Bool.false_eq_true, if_false] at hc
        omega
    cases mode with
    | promoteWake =>
      have hst : (s.threads t).state = .suspended := by
        by_cases ha : a = .sleeps
        · cases hst : (s.threads t).state <;> simp [hst, parked] at hparked ho
          · simp [hpc, ha] at hb
            omega
          · rfl
        · exact hallow ha rfl
      have fr : MgrOnly s s' m (.swapWake t none a) t (s.threads t) := by
        cases hs
        exact frame_goto hm _ t
      refine inv.manage_only fr (hself _ (.inl rfl) fr) ?_ (.inl rfl) ?_ ?_ (by simp) (by simp)
      · intro u hu
        simp [hpc, one_of_ne (Ne.symm hu)]
      · exact fun u hu ht => absurd ht.symm hu
      · simp [hst]
    | resumePublished =>
      have fr : MgrOnly s s' m (.take t a) t (s.threads t) := by
        cases hs
        exact frame_goto hm _ t
      refine inv.manage_only fr (hself _ (.inr rfl) fr) ?_ (.inl rfl) ?_ ?_ (by simp) (by simp)
      · intro u hu
        simp [hpc, one_of_ne (Ne.symm hu)]
      · exact fun u hu ht => absurd ht.symm hu
      · exact fun _ => Or.inl hparked
  · cases hs
    exact backTo_inv inv a (frame_goto hm _ t) (by simp [hpc])

/-- The take-CAS: a filled slot means that the thread is still Blocking. -/
theorem take_inv (hm : s.mgr = some m)
    (hpc : m.pc = .take t a) (hs : wakeStep s m c (.take t a) = some s') : Inv s' := by
  simp only [wakeStep] at hs
  have hallow := (inv.mgr m hm).2 t
  simp only [hpc, MgrPc.allows, forall_const] at hallow
  have hb := inv.mgr_bounds hm t
  have ho := (s.ok_iff t).mp (inv.ok t)
  cases hp : (s.threads t).pending with
  | none =>
    simp only [hp] at hs
    cases hs
    exact backTo_inv inv a (frame_goto hm _ t) (by simp [hpc])
  | some p =>
    simp only [hp, Option.some.injEq] at hs
    have fr : MgrOnly s s' m (.marshal t p a) t (s.threads t).resetPending := by
      subst hs
      exact frame_gotoWrite hm _ t _
    clear hs
    have hslot : (s.threads t).slotRes = 1 := by simp [Thread.slotRes, hp]
    have hst : (s.threads t).state = .blocking := by
      cases hst : (s.threads t).state <;> simp [hst, parked] at hallow ho
      · omega
      · rfl
      · omega
    refine inv.manage_only fr ?_ ?_ (.inl rfl) ?_ ?_ (by simp) (by simp)
    · have hc := fr.counts t
      rw [fr.thread_self] at hc
      simp only [hpc, MgrPc.tok, MgrPc.res, MgrPc.note, one_self, hslot,
        Thread.slotRes_resetPending] at hc
      apply ok_of_counts (inv.ok t)
      · rw [fr.thread_self, Thread.state_resetPending]
      · clear ho
        omega
    · intro u hu
      simp [hpc, one_of_ne (Ne.symm hu)]
    · exact fun u hu ht => absurd ht.symm hu
    · exact fun _ => hst

/-- A `Runnable` goes to the ready queue. -/
theorem pushReady_inv (hm : s.mgr = some m) (hpc : m.pc = .pushReady t a) :
    Inv ({ s with ready := s.ready ++ [t] }.goto m a.pc) := by
  have hst : (s.threads t).state = .ready := by simpa [hpc] using (inv.mgr m hm).2 t
  obtain ⟨hlight, hallow, hoffers⟩ := a.pc_light
  refine inv.requeue hm (fun s' u hthreads hc => ?_) (fun u => hallow u _) ?_ ?_
  · have hl := hlight u
    by_cases hu : u = t
    · have hb := inv.mgr_bounds hm u
      have ho := (s.ok_iff u).mp (inv.ok u)
      have hcount : (s.ready ++ [t]).count u = s.ready.count u + 1 := by simp [hu]
      have hcode : (s.threads u).state.code = 0 := by rw [hu, hst]; rfl
      have hone : m.pc.tok u = 1 ∧ m.pc.res u = 0 ∧ m.pc.note u = 0 := by simp [hpc, hu]
      rw [s'.ok_iff, hthreads]
      omega
    have hcount : (s.ready ++ [t]).count u = s.ready.count u := by simp [Ne.symm hu]
    have hzero : m.pc.tok u = 0 ∧ m.pc.res u = 0 ∧ m.pc.note u = 0 := by
      simp [hpc, one_of_ne (Ne.symm hu)]
    exact ok_of_counts (inv.ok u) (by rw [hthreads]) (by omega)
  · rw [hoffers]
    exact nofun
  · intro h htgt
    cases a <;> simp [After.pc] at htgt

/-- A Suspended thread has no results waiting. -/
theorem not_signaled_of_suspended (hst : (s.threads t).state = .suspended) :
    (s.threads t).pending.isSome = false := by
  have ho := (s.ok_iff t).mp (inv.ok t)
  simp only [hst, code] at ho
  by_contra hp
  simp only [Bool.not_eq_false] at hp
  have hres : 0 < s.res t := by
    simp only [res, hp, if_true]
    omega
  omega

theorem wakeStep_inv (hm : s.mgr = some m)
    (hs : wakeStep s m c m.pc = some s') : Inv s' := by
  have hallow := (inv.mgr m hm).2
  cases hpc : m.pc with
  | wakes =>
    simp only [hpc, wakeStep] at hs
    split at hs
    · cases hs
      exact inv.aside hm hpc
    split at hs <;> cases hs
    · exact inv.aside hm hpc
    · exact inv.aside hm hpc
  | nudge n =>
    simp only [hpc, wakeStep] at hs
    split at hs <;> cases hs
    · exact inv.aside hm hpc
    · obtain ⟨hl, ha, ho⟩ := (ScanCaller.nudge n).pc_light
      exact inv.aside hm hpc (fun u => ha u _) (by simp) hl ho
  | scan k =>
    simp only [hpc, wakeStep] at hs
    split at hs
    · cases hs
      obtain ⟨hl, ha, ho⟩ := k.caller.pc_light
      exact inv.aside hm hpc (fun u => ha u _) (by simp) hl ho
    split at hs <;> cases hs
    · refine inv.aside hm hpc ?_
      rintro u rfl hseen
      exact hseen
    · exact inv.aside hm hpc
  | scanRets t seen k =>
    simp only [hpc, MgrPc.allows] at hallow
    simp only [hpc, wakeStep] at hs
    cases hs
    refine inv.aside hm hpc ?_
    rintro u rfl hseen
    have hst := hallow t rfl hseen
    exact ⟨hst, not_signaled_of_suspended inv hst⟩
  | scanNote t seen signaled k =>
    simp only [hpc, MgrPc.allows] at hallow
    simp only [hpc, wakeStep] at hs
    cases hs
    have hverb : (scanVerb t seen signaled k).Light ∧ (scanVerb t seen signaled k).offers = [] ∧
        ∀ u, (scanVerb t seen signaled k).allows u (s.threads u).state := by
      unfold scanVerb
      split
      · next hseen =>
        refine ⟨by simp, rfl, ?_⟩
        rintro u rfl - -
        exact (hallow t rfl hseen).1
      split
      · exact ⟨by simp, rfl, by simp⟩
      · exact ⟨by simp, rfl, by simp⟩
    obtain ⟨hl, hoffers, ha⟩ := hverb
    refine inv.manage_same (frame_gotoWrite hm _ t _) rfl rfl (fun u => ?_) ha ?_ ?_
    · obtain ⟨l1, l2, l3⟩ := hl u
      rw [l1, l2, l3, hpc]
      exact ⟨rfl, rfl, rfl⟩
    · rw [hoffers]
      exact nofun
    intro h htgt
    unfold scanVerb at htgt
    split at htgt
    · simp at htgt
    · split at htgt <;> simp at htgt
  | claim t mode a => exact claimParked_inv inv hm hpc (hpc ▸ hs)
  | take t a => exact take_inv inv hm hpc (hpc ▸ hs)
  | marshal t p a =>
    simp only [hpc, MgrPc.allows] at hallow
    simp only [hpc, wakeStep] at hs
    cases hs
    exact inv.manage_same (frame_gotoWrite hm _ t _) rfl rfl (by simp [hpc]) (by simpa using hallow)
      (by simp) (by simp)
  | swapWake t rets a =>
    simp only [hpc, MgrPc.allows] at hallow
    simp only [hpc, wakeStep] at hs
    cases hs
    exact inv.manage_same (frame_gotoWrite hm _ t _) rfl rfl (by simp [hpc]) hallow (by simp)
      (by simp)
  | promoteLoad t rets a =>
    simp only [hpc, MgrPc.allows] at hallow
    have hst := hallow t rfl
    have hparked : (s.threads t).state.parked = true := by
      rw [hst]
      split <;> rfl
    simp only [hpc, wakeStep, hparked, if_true] at hs
    cases hs
    exact inv.manage_same (frame_goto hm _ t) rfl rfl (by simp [hpc]) hallow (by simp) (by simp)
  | promoteStore t rets a =>
    simp only [hpc, MgrPc.allows] at hallow
    have hst := hallow t rfl
    simp only [hpc, wakeStep] at hs
    cases hs
    refine promote_inv inv (frame_gotoWrite hm _ t _) ?_ ?_ ?_ ?_ ?_ ?_ rfl
    · cases rets with
      | none => exact .inl ⟨hst, by simp [hpc]⟩
      | some p => exact .inr ⟨hst, by simp [hpc]⟩
    · simp [hpc]
    · simp
    · intro u hu
      simp [hpc, one_of_ne (Ne.symm hu)]
    · exact fun u hu _ ht => absurd ht.symm hu
    · exact fun _ => rfl
  | pushReady t a =>
    simp only [hpc, wakeStep] at hs
    cases hs
    exact pushReady_inv inv hm hpc
  | _ => simp [hpc, wakeStep] at hs

end Wake

section Sleep

/-- The manager takes a sleep notice out of the inbox. -/
theorem popNotice_inv (inv : Inv s) (hm : s.mgr = some m) (hpc : m.pc = .sleeps) {n : SleepNotice}
    {rest : List SleepNotice} (hinbox : s.sleepInbox = n :: rest) :
    Inv ({ s with sleepInbox := rest }.goto m (.sleepCheck n)) := by
  refine inv.requeue hm (fun s' u hthreads hc => ?_) (fun _ => trivial) (by simp) (by simp)
  have hcount : s.sleepInbox.countP (fun n => n.thread = u) =
      rest.countP (fun n => n.thread = u) + one n.thread u := by
    rw [hinbox, List.countP_cons, one]
    simp only [decide_eq_true_eq]
  simp only [hpc, MgrPc.tok, MgrPc.res, MgrPc.note] at hc
  exact ok_of_counts (inv.ok u) (by rw [hthreads]) (by omega)

/-- `drain_ready_inboxes` moves a token from an inbox to the ready queue. -/
theorem drainInbox_inv (inv : Inv s) (hm : s.mgr = some m) (hpc : m.pc = .inboxes h)
    (hlt : h < s.nHarts) {rest : List Tid} (hinbox : (s.harts h).inbox = t :: rest) :
    Inv ({ s.setHart h { s.harts h with inbox := rest } with ready := s.ready ++ [t] }.goto m
      (.inboxes h)) := by
  obtain ⟨s', hs'⟩ : ∃ s', s' =
    { s.setHart h { s.harts h with inbox := rest } with ready := s.ready ++ [t] }.goto m
      (.inboxes h) := ⟨_, rfl⟩
  have hharts : s'.harts = update s.harts h { s.harts h with inbox := rest } := by
    rw [hs']
    rfl
  have hpoint := inbox_points hharts
  have fr : MgrFrame s s' m (.inboxes h) 0 (s.threads 0) := by
    refine ⟨hm, ?_, ?_, fun h => (hpoint h).1, fun h => (hpoint h).2, ?_, ?_, ?_⟩ <;> rw [hs'] <;>
      first | rfl | exact (update_eq_self 0 s.threads).symm
  have hthreads : s'.threads = s.threads := by rw [hs']; rfl
  have hready : s'.ready = s.ready ++ [t] := by rw [hs']; rfl
  have hqueues : s'.work = s.work ∧ s'.waiters = s.waiters ∧ s'.sleepInbox = s.sleepInbox ∧
      s'.registry = s.registry := by
    rw [hs']
    exact ⟨rfl, rfl, rfl, rfl⟩
  rw [← hs']
  clear hs'
  refine inv.manage fr (fun u => ?_) (.inl rfl) (fun _ _ => trivial) trivial (by simp) (by simp)
    fun u hu => Or.inl (hqueues.2.2.2 ▸ hu)
  obtain ⟨htok, hqueued⟩ := inbox_counts hlt fr.nHarts hharts u
  have hc := fr.counts u
  have hcount : s'.ready.count u = s.ready.count u + one t u := by
    rw [hready, List.count_append, List.count_singleton, one]
    simp only [beq_iff_eq]
  have hcount' : (s.harts h).inbox.count u = rest.count u + one t u := by
    rw [hinbox, List.count_cons, one]
    simp only [beq_iff_eq]
  rw [hcount, hqueues.1, hqueues.2.1, hqueues.2.2.1, hthreads] at hc
  simp only [hpc, MgrPc.tok, MgrPc.res, MgrPc.note] at hc
  exact ok_of_counts (inv.ok u) (by rw [hthreads]) (by omega)

theorem sleepStep_inv (inv : Inv s) (hm : s.mgr = some m)
    (hs : sleepStep s m c m.pc = some s') : Inv s' := by
  cases hpc : m.pc with
  | sleeps =>
    simp only [hpc, sleepStep] at hs
    split at hs
    · next n rest hinbox =>
      cases hs
      exact popNotice_inv inv hm hpc hinbox
    · split at hs <;> cases hs
      exact inv.aside hm hpc
  | sleepCheck n =>
    simp only [hpc, sleepStep] at hs
    refine inv.deref (fun hk => ?_) hs
    split at hk <;> cases hk
    · exact inv.manage_same (frame_goto hm _ n.thread) rfl rfl (by simp [hpc]) (by simp) (by simp)
        (by simp)
    · exact backTo_inv (t := 0) inv .sleeps (frame_aside hm _ 0 s.procs _ _ _) (by simp [hpc])
  | woken now =>
    simp only [hpc, sleepStep] at hs
    split at hs
    · cases hs
      exact inv.aside hm hpc
    refine inv.deref (fun hk => ?_) hs
    cases hk
    exact inv.aside hm hpc
  | wokenState now seq =>
    simp only [hpc, sleepStep] at hs
    split at hs
    · cases hs
    next e rest hheap =>
    refine inv.deref (fun hk => ?_) hs
    split at hk
    · cases hk
      exact inv.aside hm hpc
    · cases hk
      exact inv.aside hm hpc
    next hlive =>
    split at hk <;> cases hk
    · exact inv.aside hm hpc
    refine inv.aside hm hpc ?_
    rintro u rfl - -
    exact classify_live hlive
  | inboxes h =>
    simp only [hpc, sleepStep] at hs
    split at hs
    · next hlt =>
      split at hs <;> cases hs
      · exact inv.aside hm hpc
      · next t rest hinbox => exact drainInbox_inv inv hm hpc hlt hinbox
    cases hs
    refine inv.manage_same (frame_goto hm _ 0) rfl rfl (by simp [hpc]) (by simp) ?_ (by simp)
    intro h' hmem
    have hself := (inv.mgr m hm).1
    simp only [MgrPc.offers, assignOrder, List.mem_append, List.mem_filter, List.mem_range,
      List.mem_singleton] at hmem
    rcases hmem with hmem | hmem
    · exact hmem.1
    · exact hmem ▸ hself
  | _ => simp [hpc, sleepStep] at hs

end Sleep

section Assign

variable (inv : Inv s)

include inv

/-- The manager takes a token out of the ready queue. A queued thread is Ready, or it
was killed in the queue. -/
theorem popReady_inv (hm : s.mgr = some m)
    (hpc : m.pc = .assignPop h hs) {fits : Tid → Bool} {rest : List Tid}
    (hpop : popFor fits s.ready = some (t, rest)) :
    Inv ({ s with ready := rest }.goto m (.assignLoad t h hs)) := by
  have hcount : ∀ u, s.ready.count u = rest.count u + one t u := by
    intro u
    rw [popFor_count hpop u, one]
    simp only [eq_comm]
  have hst : (s.threads t).state = .ready ∨ (s.threads t).state = .exited := by
    have hq : 0 < s.queued t := by
      have := hcount t
      rw [one_self] at this
      simp only [queued]
      omega
    rcases (inv.ok t).waiting hq with hc | hc
    · exact .inl (code_inj hc)
    · exact .inr (code_inj hc)
  have hallow : ∀ u, (MgrPc.assignLoad t h hs).allows u (s.threads u).state := by
    rintro u rfl
    exact hst
  refine inv.requeue hm (fun s' u hthreads hc => ?_) hallow ?_ ?_
  · have hcu := hcount u
    simp only [hpc, MgrPc.tok, MgrPc.res, MgrPc.note] at hc
    exact ok_of_counts (inv.ok u) (by rw [hthreads]) (by omega)
  · have hoffers := inv.offers m hm
    simpa [hpc] using hoffers
  · have hslot := fun h' => inv.slot m h' hm
    simpa [hpc] using hslot

theorem assignStore_inv (hpc : m.pc = .assignStore t h hs)
    (fr : MgrOnly s s' m (.assignPublish t h hs) t ((s.threads t).store .assigned)) : Inv s' := by
  have hst : (s.threads t).state = .ready := by simpa [hpc] using (inv.mgr m fr.before).2 t
  have hc := fr.counts t
  have hb := inv.mgr_bounds fr.before t
  have ho := (s.ok_iff t).mp (inv.ok t)
  have hcode : (s.threads t).state.code = 0 := by rw [hst]; rfl
  have hslot : (s'.threads t).slotRes = (s.threads t).slotRes := by
    rw [fr.thread_self]
    rfl
  simp only [hpc, MgrPc.tok, MgrPc.res, MgrPc.note, one_self] at hc hb
  refine inv.manage_only fr ?_ ?_ (.inr ⟨by simp [hst], inv.harts_accept ?_ ?_ _⟩) ?_ ?_ ?_ ?_
  · rw [s'.ok_iff, fr.thread_self]
    simp only [Thread.state_store, code]
    omega
  · intro u hu
    simp [hpc, one_of_ne (Ne.symm hu)]
  · omega
  · omega
  · exact fun u hu ht => absurd ht.symm hu
  · exact fun _ => rfl
  · have hoffers := inv.offers m fr.before
    simpa [hpc] using hoffers
  · have hslot := fun h' => inv.slot m h' fr.before
    simpa [hpc] using hslot

/-- The hart's `current` takes over the token; no other thread is running there. -/
theorem assignPublish_inv (hm : s.mgr = some m) (hpc : m.pc = .assignPublish t h hs) :
    Inv ((s.setHart h { s.harts h with current := some t }).goto m (.assign hs)) := by
  have hlt : h < s.nHarts := inv.offers m hm h (by simp [hpc])
  have hnone : (s.harts h).current = none := inv.slot m h hm (by simp [hpc])
  have hst : (s.threads t).state = .assigned := by simpa [hpc] using (inv.mgr m hm).2 t
  obtain ⟨s', hs'⟩ : ∃ s', s' =
    (s.setHart h { s.harts h with current := some t }).goto m (.assign hs) := ⟨_, rfl⟩
  have hharts : s'.harts = update s.harts h { s.harts h with current := some t } := by
    rw [hs']
    rfl
  have hself : s'.harts h = { s.harts h with current := some t } := by
    rw [hharts, update_self]
  have hne : ∀ h', h' ≠ h → s'.harts h' = s.harts h' := by
    intro h' hh
    rw [hharts, update_of_ne hh]
  have hpcs : ∀ h', (s'.harts h').pc = (s.harts h').pc := by
    intro h'
    by_cases hh : h' = h
    · rw [hh, hself]
    · rw [hne h' hh]
  have hn : s'.nHarts = s.nHarts := by rw [hs']; rfl
  have hthreads : s'.threads = s.threads := by rw [hs']; rfl
  have hmgr : s'.mgr = some { m with pc := .assign hs } := by rw [hs']; rfl
  have hqueues : s'.ready = s.ready ∧ s'.work = s.work ∧ s'.waiters = s.waiters ∧
      s'.sleepInbox = s.sleepInbox ∧ s'.registry = s.registry ∧ s'.nextTid = s.nextTid ∧
      s'.fault = s.fault := by
    rw [hs']
    exact ⟨rfl, rfl, rfl, rfl, rfl, rfl, rfl⟩
  rw [← hs']
  clear hs'
  obtain ⟨hready, hwork, hwaiters, hsleep, hreg, hnext, hfault⟩ := hqueues
  have hfree : ∀ u, ¬ (s.harts h).pc.owns u := by
    intro u ho
    have := inv.own h hlt u ho
    rw [hnone] at this
    cases this
  refine ⟨fun u => ?_, ?_, ?_, ?_, ?_, ?_, ?_, ?_, ?_, ?_⟩
  · have moved : ∀ f : Hart → Nat, s'.perHart f + f (s.harts h) = s.perHart f + f (s'.harts h) := by
      intro f
      rw [hself]
      exact perHart_update hlt hn hharts f
    have htok := moved (·.tok u)
    have hinbox := moved (·.inbox.count u)
    have hrun := moved (·.pc.run u)
    have hblk := moved (·.pc.blk u)
    have hclaiming := moved (·.pc.claiming u)
    have hstray := moved (·.pc.stray u)
    have hres := moved (·.pc.res u)
    have hone : (s'.harts h).tok u = (s.harts h).tok u + one t u := by
      rw [hself]
      simp only [Hart.tok, hnone, one, Option.some.injEq, reduceCtorEq, if_false]
      omega
    have hcounts : s'.run u = s.run u ∧ s'.blk u = s.blk u ∧ s'.claiming u = s.claiming u ∧
        s'.stray u = s.stray u ∧ s'.tok u = s.tok u ∧ s'.queued u = s.queued u ∧
        s'.res u = s.res u ∧ s'.note u = s.note u ∧ (s'.ledger u).alloc = (s.ledger u).alloc := by
      rw [hpcs] at hrun hblk hclaiming hstray hres
      rw [show (s'.harts h).inbox = (s.harts h).inbox by rw [hself]] at hinbox
      refine ⟨?_, ?_, ?_, ?_, ?_, ?_, ?_, ?_, ?_⟩
      · simp only [run]
        omega
      · simp only [blk]
        omega
      · simp only [claiming]
        omega
      · simp only [stray]
        omega
      · simp only [tok, hmgr, hm, hready, weigh_some, hpc, MgrPc.tok]
        omega
      · simp only [queued, hready]
        omega
      · simp only [res, hmgr, hm, hwork, hwaiters, hthreads, weigh_some, hpc, MgrPc.res]
        omega
      · simp only [note, hmgr, hm, hsleep, weigh_some, hpc, MgrPc.note]
      · simp only [ledger, hnext]
    apply ok_of_counts (inv.ok u) (by rw [hthreads])
    clear htok hinbox hrun hblk hclaiming hstray hres hone
    omega
  · intro h' hlt' u
    rw [hpcs, hthreads]
    exact inv.harts h' (hn ▸ hlt') u
  · intro h' hlt'
    rw [hpcs]
    exact inv.wf h' (hn ▸ hlt')
  · intro h' hlt' u ho
    rw [hpcs] at ho
    by_cases hh : h' = h
    · exact absurd (hh ▸ ho) (hfree u)
    · rw [hne h' hh]
      exact inv.own h' (hn ▸ hlt') u ho
  · intro h' hlt' u hc
    rw [hthreads]
    by_cases hh : h' = h
    · rw [hh, hself, Option.some.injEq] at hc
      exact .inr (.inl (hc ▸ hst))
    · rw [hne h' hh] at hc ⊢
      exact inv.cur h' (hn ▸ hlt') u hc
  · intro m' hm'
    rw [hmgr] at hm'
    cases hm'
    exact ⟨hn ▸ (inv.mgr m hm).1, fun _ => trivial⟩
  · intro m' hm' h' hmem
    rw [hmgr] at hm'
    cases hm'
    rw [hn]
    exact inv.offers m hm h' (by simpa [hpc] using Or.inr hmem)
  · intro m' h' hm' htgt
    rw [hmgr] at hm'
    cases hm'
    cases htgt
  · rw [hthreads, hreg]
    exact inv.reg
  · rw [hfault]
    exact inv.fault

/-- Taking or releasing the scheduler lock. -/
theorem lock_inv {mgr : Option Mgr}
    (hold : ∀ m, s.mgr = some m → m.pc.Light) (hnew : ∀ m, mgr = some m → m.pc.Light)
    (hhart : ∀ m, mgr = some m → m.hart < s.nHarts)
    (hallow : ∀ m, mgr = some m → ∀ u st, m.pc.allows u st)
    (hoffers : ∀ m, mgr = some m → m.pc.offers = []) : Inv { s with mgr } := by
  have hzero : ∀ {mgr : Option Mgr}, (∀ m, mgr = some m → m.pc.Light) → ∀ u,
      weigh mgr (·.tok u) = 0 ∧ weigh mgr (·.res u) = 0 ∧ weigh mgr (·.note u) = 0 := by
    intro mgr hl u
    cases mgr with
    | none => exact ⟨rfl, rfl, rfl⟩
    | some m => exact hl m rfl u
  refine { inv with
    ok := fun u => ?_
    mgr := fun m hm => ?_
    offers := fun m hm h hmem => ?_
    slot := fun m h hm htgt => ?_ }
  · obtain ⟨o1, o2, o3⟩ := hzero hold u
    obtain ⟨n1, n2, n3⟩ := hzero hnew u
    have he : ledger { s with mgr } u = s.ledger u := by
      simp only [ledger, tok, res, note, o1, o2, o3, n1, n2, n3]
      rfl
    rw [he]
    exact inv.ok u
  · exact ⟨hhart m hm, fun u => hallow m hm u _⟩
  · rw [hoffers m hm] at hmem
    cases hmem
  · have := hoffers m hm
    cases hpc : m.pc <;> simp [hpc] at htgt this

theorem assignStep_inv (hm : s.mgr = some m) (hs : assignStep s m m.pc = some s') :
    Inv s' := by
  have hallow := (inv.mgr m hm).2
  have hoffers := inv.offers m hm
  have hslot := fun h => inv.slot m h hm
  cases hpc : m.pc with
  | assign hs' =>
    cases hs' with
    | nil =>
      simp only [hpc, assignStep] at hs
      cases hs
      refine lock_inv inv ?_ ?_ ?_ ?_ ?_
      · intro m' hm'
        rw [hm, Option.some.injEq] at hm'
        simp [← hm', hpc]
      all_goals
        intro m' hm'
        cases hm'
    | cons h hs' =>
      simp only [hpc, MgrPc.offers, List.forall_mem_cons] at hoffers
      simp only [hpc, assignStep] at hs
      split at hs <;> cases hs
      · exact inv.manage_same (frame_goto hm _ 0) rfl rfl (by simp [hpc]) (by simp) hoffers.2
          (by simp)
      next hnone =>
      refine inv.manage_same (frame_goto hm _ 0) rfl rfl (by simp [hpc]) (by simp) ?_ ?_
      · simpa using hoffers
      · rintro h' ⟨⟩
        exact hnone
  | assignPop h hs' =>
    have hrest : ∀ h' ∈ hs', h' < s.nHarts := by
      intro h' hmem
      exact hoffers h' (by simp [hpc, hmem])
    have hskip : Inv (s.goto m (.assign hs')) :=
      inv.manage_same (frame_goto hm _ 0) rfl rfl (by simp [hpc]) (by simp) hrest (by simp)
    simp only [hpc, assignStep] at hs
    split at hs
    · cases hs
      exact hskip
    split at hs
    · cases hs
      exact inv.fail nofun
    split at hs <;> cases hs
    · next t rest hpop => exact popReady_inv inv hm hpc hpop
    · exact hskip
  | assignLoad t h hs' =>
    simp only [hpc, MgrPc.allows] at hallow
    simp only [hpc, MgrPc.offers] at hoffers
    simp only [hpc, MgrPc.target] at hslot
    rcases hallow t rfl with hst | hst
    · simp only [hpc, assignStep, hst] at hs
      cases hs
      refine inv.manage_same (frame_gotoWrite hm _ t _) hst.symm rfl (by simp [hpc])
        ?_ hoffers hslot
      rintro u rfl
      exact hst
    simp only [hpc, assignStep, hst, Option.some.injEq] at hs
    have fr : MgrOnly s s' m (.assign hs') t { s.threads t with
        state := .exited, ticks := (s.threads t).ticks + 1 } := by
      subst hs
      exact frame_gotoWrite hm _ t _
    clear hs
    refine inv.manage_only fr ?_ ?_ (.inl hst.symm) (fun _ _ => trivial) trivial ?_ (by simp)
    · have hc := fr.counts t
      have hb := inv.mgr_bounds hm t
      have ho := (s.ok_iff t).mp (inv.ok t)
      have hslot : (s'.threads t).slotRes = (s.threads t).slotRes := by
        rw [fr.thread_self]
        rfl
      have hcode : (s.threads t).state.code = 4 := by rw [hst]; rfl
      have hcode' : (s'.threads t).state.code = 4 := by rw [fr.thread_self]; rfl
      simp only [hpc, MgrPc.tok, MgrPc.res, MgrPc.note, one_self] at hc hb
      rw [s'.ok_iff]
      omega
    · intro u hu
      simp [hpc, one_of_ne (Ne.symm hu)]
    · intro h' hmem
      exact hoffers h' (.tail _ hmem)
  | assignStore t h hs' =>
    simp only [hpc, assignStep] at hs
    cases hs
    exact assignStore_inv inv hpc (frame_gotoWrite hm _ t _)
  | assignPublish t h hs' =>
    simp only [hpc, assignStep] at hs
    cases hs
    exact assignPublish_inv inv hm hpc
  | _ => simp [hpc, assignStep] at hs

end Assign

end Orbit.Sched
