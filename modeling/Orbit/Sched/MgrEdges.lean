import Orbit.Sched.HartEdges

/-!
The edges of the manager pass. `MgrGoto` lists the accesses that only move the manager's
point, `MgrWrite` those that also write one thread record, and `MgrEdge` adds the ones
that touch a queue, the registry or a process. `mgrStep_outcome` says that an access
follows one of the edges or stops the kernel.
-/

namespace Orbit.Sched

open Function State

variable {c : Choice}

variable {s s' : State} {m : Mgr} {t : Tid} {h : Nat}

/-- The end of a cleanup turn over a thread of process `pid`: the processes to remove. -/
def listProc (pid : Pid) (proc : Proc) (pids : List Pid) : List Pid :=
  if proc.threads ≠ [] ∨ pid = 0 then pids else pids ++ [pid]

theorem cleanupNext_eq {pid : Pid} {proc : Proc} {todo tids : List Tid} {pids : List Pid} :
    s.cleanupNext m pid proc todo tids pids =
      s.goto m (.cleanup todo tids (listProc pid proc pids)) := by
  unfold cleanupNext listProc
  split <;> rfl

/-- Accesses that only load. -/
inductive MgrGoto (s : State) (self : Nat) : MgrPc → MgrPc → Prop where
  | cleanupDone (tids : List Tid) (pids : List Pid) :
      MgrGoto s self (.cleanup [] tids pids) (.reapThreads tids pids)
  | cleanupOrphan (t : Tid) (todo tids : List Tid) (pids : List Pid)
      (hproc : s.procs (s.threads t).pid = none) :
      MgrGoto s self (.cleanup (t :: todo) tids pids) (.cleanup todo tids pids)
  | cleanupLive (t : Tid) (todo tids : List Tid) (pids : List Pid) (proc : Proc)
      (hproc : s.procs (s.threads t).pid = some proc) (hst : (s.threads t).state ≠ .exited) :
      MgrGoto s self (.cleanup (t :: todo) tids pids)
        (.cleanup todo tids (listProc (s.threads t).pid proc pids))
  | claimOrphan (t : Tid) (todo tids : List Tid) (pids : List Pid)
      (hproc : s.procs (s.threads t).pid = none) :
      MgrGoto s self (.claimExited t todo tids pids) (.cleanup todo tids pids)
  | reapDone (pids : List Pid) : MgrGoto s self (.reapThreads [] pids) (.reapProcs pids)
  | procsDone : MgrGoto s self (.reapProcs []) .work
  | workDone (hwork : s.work = []) : MgrGoto s self .work .wakes
  | resumeParked (t : Tid) (p : Published) (ht : t ∈ s.registry)
    (hst : (s.threads t).state.parked) :
      MgrGoto s self (.resume t p) (.resumeWrite t p)
  | resumePublish (t : Tid) (p : Published) (ht : t ∈ s.registry) :
      MgrGoto s self (.resume t p) (.publish t p)
  | resumeLost (t : Tid) (p : Published) (ht : t ∉ s.registry) : MgrGoto s self (.resume t p) .work
  | resumeLoad (t : Tid) (p : Published) (hst : (s.threads t).state.parked) :
      MgrGoto s self (.resumeLoad t p) (.resumeStore t p)
  | killSkip (pid : Pid) (leader t : Tid) (rest : List Tid) (ht : t ∉ s.registry) :
      MgrGoto s self (.kill pid leader (t :: rest)) (.kill pid leader rest)
  | wakesDone (hqueue : s.wakeQueue = []) : MgrGoto s self .wakes (.nudge .gpu)
  | nudge (n : Nudge) (t : Tid) (ht : nudgeTid s n = some t) :
      MgrGoto s self (.nudge n) (.scan ⟨tickle, .tid t, s.registry, .nudge n⟩)
  | nudgeSkip (n : Nudge) : MgrGoto s self (.nudge n) (ScanCaller.nudge n).pc
  | scanDone (k : Scan) (hrest : k.rest = []) : MgrGoto s self (.scan k) k.caller.pc
  | scanHit (k : Scan) (t : Tid) (rest : List Tid) (hrest : k.rest = t :: rest)
      (hpred : k.pred.holds t (s.threads t)) :
      MgrGoto s self (.scan k) (.scanRets t (s.threads t).state { k with rest })
  | scanMiss (k : Scan) (t : Tid) (rest : List Tid) (hrest : k.rest = t :: rest)
      (hpred : k.pred.holds t (s.threads t) = false) :
      MgrGoto s self (.scan k) (.scan { k with rest })
  | scanRets (t : Tid) (st : ThreadState) (k : Scan) :
      MgrGoto s self (.scanRets t st k) (.scanNote t st (s.threads t).pending.isSome k)
  | claimPromote (t : Tid) (a : After) (hst : (s.threads t).state.parked) :
      MgrGoto s self (.claim t .promoteWake a) (.swapWake t none a)
  | claimPublished (t : Tid) (a : After) (hst : (s.threads t).state.parked) :
      MgrGoto s self (.claim t .resumePublished a) (.take t a)
  | claimMiss (t : Tid) (mode : Mode) (a : After) (hst : (s.threads t).state.parked = false) :
      MgrGoto s self (.claim t mode a) a.pc
  | takeNone (t : Tid) (a : After) (hp : (s.threads t).pending = none) :
      MgrGoto s self (.take t a) a.pc
  | promoteLoad (t : Tid) (rets : Option Published) (a : After)
      (hst : (s.threads t).state.parked) :
      MgrGoto s self (.promoteLoad t rets a) (.promoteStore t rets a)
  | sleepsDone (now : UInt64) (hinbox : s.sleepInbox = []) : MgrGoto s self .sleeps (.woken now)
  | sleepClaim (n : SleepNotice) (hlive : (s.threads n.thread).freed = false)
      (hwake : (s.threads n.thread).hasPendingWake) :
      MgrGoto s self (.sleepCheck n) (.claim n.thread .promoteWake .sleeps)
  | wokenDone (now : UInt64) (hheap : s.heap = []) : MgrGoto s self (.woken now) (.inboxes 0)
  | woken (now : UInt64) (e : SleepNotice) (rest : List SleepNotice) (hheap : s.heap = e :: rest) :
      MgrGoto s self (.woken now) (.wokenState now (s.threads e.thread).sleepSeq)
  | wokenWait (now seq : UInt64) : MgrGoto s self (.wokenState now seq) (.inboxes 0)
  | inboxEmpty (h : Nat) (hlt : h < s.nHarts) (hinbox : (s.harts h).inbox = []) :
      MgrGoto s self (.inboxes h) (.inboxes (h + 1))
  | inboxesDone (h : Nat) (hge : ¬ h < s.nHarts) :
      MgrGoto s self (.inboxes h) (.assign (assignOrder s.nHarts self))
  | assignBusy (h : Nat) (hs : List Nat) (u : Tid) (hcur : (s.harts h).current = some u) :
      MgrGoto s self (.assign (h :: hs)) (.assign hs)
  | assignFree (h : Nat) (hs : List Nat) (hcur : (s.harts h).current = none) :
      MgrGoto s self (.assign (h :: hs)) (.assignPop h hs)
  | assignNone (h : Nat) (hs : List Nat) : MgrGoto s self (.assignPop h hs) (.assign hs)

/-- Accesses that write the record of one thread. -/
inductive MgrWrite (s : State) : MgrPc → Tid → Thread → MgrPc → Prop where
  | resumeWrite (t : Tid) (p : Published) :
      MgrWrite s (.resumeWrite t p) t { (s.threads t).writeRets p.vals with answer := some p }
        (.resumeReset t p)
  | resumeReset (t : Tid) (p : Published) :
      MgrWrite s (.resumeReset t p) t (s.threads t).resetPending (.resumeLoad t p)
  | resumeStore (t : Tid) (p : Published) :
      MgrWrite s (.resumeStore t p) t ((s.threads t).store .ready) (.resumePush t)
  | publish (t : Tid) (p : Published) :
      MgrWrite s (.publish t p) t { (s.threads t).publishResults p with answer := some p }
        (.publishWake t)
  | kill (pid : Pid) (leader t : Tid) (rest : List Tid) (ht : t ∈ s.registry) :
      MgrWrite s (.kill pid leader (t :: rest)) t ((s.threads t).store .exited)
        (.kill pid leader rest)
  | scanNote (t : Tid) (st : ThreadState) (signaled : Bool) (k : Scan) :
      MgrWrite s (.scanNote t st signaled k) t ((s.threads t).noteWake k.reason)
        (scanVerb t st signaled k)
  | take (t : Tid) (a : After) (p : Published) (hp : (s.threads t).pending = some p) :
      MgrWrite s (.take t a) t (s.threads t).resetPending (.marshal t p a)
  | marshal (t : Tid) (p : Published) (a : After) :
      MgrWrite s (.marshal t p a) t ((s.threads t).writeRets p.vals) (.swapWake t (some p) a)
  | swapWake (t : Tid) (rets : Option Published) (a : After) :
      MgrWrite s (.swapWake t rets a) t (s.threads t).consumeWake (.promoteLoad t rets a)
  | promoteStore (t : Tid) (rets : Option Published) (a : After) :
      MgrWrite s (.promoteStore t rets a) t ((s.threads t).store .ready) (.pushReady t a)
  | assignReady (t : Tid) (h : Nat) (hs : List Nat) (hst : (s.threads t).state = .ready) :
      MgrWrite s (.assignLoad t h hs) t
        { s.threads t with ticks := (s.threads t).ticks + 1 } (.assignStore t h hs)
  | assignExited (t : Tid) (h : Nat) (hs : List Nat) (hst : (s.threads t).state = .exited) :
      MgrWrite s (.assignLoad t h hs) t
        { s.threads t with ticks := (s.threads t).ticks + 1 } (.assign hs)
  | assignStore (t : Tid) (h : Nat) (hs : List Nat) :
      MgrWrite s (.assignStore t h hs) t ((s.threads t).store .assigned) (.assignPublish t h hs)

/-- What a request is answered with: directly, through the slot, or not at all. -/
def Answered (s : State) (t : Tid) (p : Published) (pc : MgrPc) : Prop :=
  pc = .resume t p ∨ pc = .publish t p ∧ t ∈ s.registry ∨ pc = .work ∧ t ∉ s.registry

/-- One access of the manager. -/
inductive MgrEdge (s : State) (m : Mgr) : State → Prop where
  | goto (pc : MgrPc) (move : MgrGoto s m.hart m.pc pc) : MgrEdge s m (s.goto m pc)
  | write (t : Tid) (th : Thread) (pc : MgrPc) (move : MgrWrite s m.pc t th pc) :
      MgrEdge s m ((s.setThread t th).goto m pc)
  | cleanupExited (t : Tid) (todo tids : List Tid) (pids : List Pid) (proc : Proc)
      (hpc : m.pc = .cleanup (t :: todo) tids pids)
      (hproc : s.procs (s.threads t).pid = some proc) (hst : (s.threads t).state = .exited) :
      MgrEdge s m ((s.setProc (s.threads t).pid
        (some { proc with threads := proc.threads.erase t })).goto m
          (.claimExited t todo (tids ++ [t]) pids))
  | claimExited (t : Tid) (todo tids : List Tid) (pids : List Pid) (proc : Proc) (code : Int)
      (hpc : m.pc = .claimExited t todo tids pids)
      (hproc : s.procs (s.threads t).pid = some proc) (hst : (s.threads t).state = .exited) :
      MgrEdge s m ((s.setProc (s.threads t).pid (some { proc with exitCode := code })).goto m
          (.cleanup todo tids (listProc (s.threads t).pid proc pids)))
  | reap (t : Tid) (tids : List Tid) (pids : List Pid) (hpc : m.pc = .reapThreads (t :: tids) pids)
      (ht : t ∈ s.registry) : MgrEdge s m ((s.reap t).goto m (.reapThreads tids pids))
  | removeProc (p : Pid) (pids : List Pid) (proc : Proc) (hpc : m.pc = .reapProcs (p :: pids))
      (hproc : s.procs p = some proc) :
      MgrEdge s m ((s.setProc p none).goto m (.reapProcs pids))
  | answer (i : Nat) (t : Tid) (p : Published) (pc : MgrPc) (hpc : m.pc = .work)
      (hi : s.waiters[i]? = some (t, p.call)) (hans : Answered s t p pc) :
      MgrEdge s m ({ s with waiters := s.waiters.eraseIdx i }.goto m pc)
  | serve (t : Tid) (p : Published) (rest : List Work) (pc : MgrPc) (hpc : m.pc = .work)
      (hwork : s.work = .call t p.call :: rest) (hans : Answered s t p pc) :
      MgrEdge s m ({ s with work := rest }.goto m pc)
  | defer (t : Tid) (c : Nat) (rest : List Work) (hpc : m.pc = .work)
      (hwork : s.work = .call t c :: rest) :
      MgrEdge s m ({ s with work := rest, waiters := s.waiters ++ [(t, c)] }.goto m .work)
  | spawn (t : Tid) (p : Published) (pid : Pid) (parentAllowed allowed affinity : UInt64)
      (rest : List Work) (proc : Proc) (th : Thread) (pc : MgrPc) (hpc : m.pc = .work)
      (hwork : s.work = .createThread t p.call pid parentAllowed allowed affinity :: rest)
      (hproc : s.procs pid = some proc) (hth : ∃ allowed affinity frame,
        th = .new pid allowed affinity frame)
      (hans : Answered ({ s with work := rest }.admitThread pid proc th) t p pc) :
      MgrEdge s m (({ s with work := rest }.admitThread pid proc th).goto m pc)
  | spawnFails (t : Tid) (p : Published) (pid : Pid) (parentAllowed allowed affinity : UInt64)
      (rest : List Work) (pc : MgrPc) (hpc : m.pc = .work)
      (hwork : s.work = .createThread t p.call pid parentAllowed allowed affinity :: rest)
      (hans : Answered s t p pc) : MgrEdge s m ({ s with work := rest }.goto m pc)
  | exitGroupGone (pid : Pid) (leader : Tid) (code : Int) (rest : List Work) (hpc : m.pc = .work)
      (hwork : s.work = .exitGroup pid leader code :: rest) (hproc : s.procs pid = none) :
      MgrEdge s m ({ s with work := rest }.goto m .work)
  | exitGroup (pid : Pid) (leader : Tid) (code : Int) (rest : List Work) (proc : Proc)
      (hpc : m.pc = .work) (hwork : s.work = .exitGroup pid leader code :: rest)
      (hproc : s.procs pid = some proc) :
      MgrEdge s m (({ s with work := rest }.setProc pid
        (some { proc with exitCode := code, exitFinalized := true })).goto m
        (.kill pid leader (proc.threads.filter fun t => t ≠ leader)))
  | killDone (pid : Pid) (leader : Tid) (hpc : m.pc = .kill pid leader []) :
      MgrEdge s m ({ s with groups := (pid, leader) :: s.groups }.goto m .work)
  | resumePush (t : Tid) (inbox : List Tid) (hpc : m.pc = .resumePush t)
      (hinbox : inbox = (s.harts m.hart).inbox ++ [t] ∨ inbox = (s.harts m.hart).inbox) :
      MgrEdge s m ((s.setHart m.hart { s.harts m.hart with inbox }).goto m .work)
  | publishWake (t : Tid) (queue : List WakeEvent) (hpc : m.pc = .publishWake t)
      (hqueue : queue = s.wakeQueue ++ [.tid t] ∨
        queue = s.wakeQueue ∧ ¬ s.wakeQueue.length < wakeQueueCap) :
      MgrEdge s m ({ s with wakeQueue := queue }.goto m .work)
  | popWake (ev : WakeEvent) (rest : List WakeEvent) (pc : MgrPc) (hpc : m.pc = .wakes)
      (hqueue : s.wakeQueue = ev :: rest)
      (hnext : (∃ k, wakeScan s ev = some k ∧ pc = .scan k) ∨ wakeScan s ev = none ∧ pc = .wakes) :
      MgrEdge s m ({ s with wakeQueue := rest }.goto m pc)
  | pushReady (t : Tid) (a : After) (hpc : m.pc = .pushReady t a) :
      MgrEdge s m ({ s with ready := s.ready ++ [t] }.goto m a.pc)
  | popNotice (n : SleepNotice) (rest : List SleepNotice) (hpc : m.pc = .sleeps)
      (hinbox : s.sleepInbox = n :: rest) :
      MgrEdge s m ({ s with sleepInbox := rest }.goto m (.sleepCheck n))
  | sleepHeap (n : SleepNotice) (hpc : m.pc = .sleepCheck n)
      (hlive : (s.threads n.thread).freed = false) :
      MgrEdge s m ({ s with heap := heapPush n s.heap }.goto m .sleeps)
  | wokenStale (now seq : UInt64) (e : SleepNotice) (rest : List SleepNotice)
      (hpc : m.pc = .wokenState now seq) (hheap : s.heap = e :: rest) :
      MgrEdge s m ({ s with heap := rest }.goto m (.woken now))
  | wokenDue (now seq : UInt64) (e : SleepNotice) (rest : List SleepNotice)
      (hpc : m.pc = .wokenState now seq) (hheap : s.heap = e :: rest)
      (hst : (s.threads e.thread).state = .suspended) :
      MgrEdge s m ({ s with heap := rest }.goto m (.claim e.thread .promoteWake (.woken now)))
  | inboxPop (h : Nat) (t : Tid) (rest : List Tid) (hpc : m.pc = .inboxes h) (hlt : h < s.nHarts)
      (hinbox : (s.harts h).inbox = t :: rest) :
      MgrEdge s m
        ({ s.setHart h { s.harts h with inbox := rest } with ready := s.ready ++ [t] }.goto m
          (.inboxes h))
  | release (hpc : m.pc = .assign []) : MgrEdge s m { s with mgr := none }
  | assignPop (t : Tid) (h : Nat) (hs : List Nat) (fits : Tid → Bool) (rest : List Tid)
      (hpc : m.pc = .assignPop h hs) (hpop : popFor fits s.ready = some (t, rest)) :
      MgrEdge s m ({ s with ready := rest }.goto m (.assignLoad t h hs))
  | assignPublish (t : Tid) (h : Nat) (hs : List Nat) (hpc : m.pc = .assignPublish t h hs) :
      MgrEdge s m ((s.setHart h { s.harts h with current := some t }).goto m (.assign hs))

/-- The outcome of a manager access. It stops at a freed thread only when it finds it in
a sleep notice, in the heap or in the ready queue. -/
inductive MgrOutcome (s : State) (m : Mgr) (s' : State) : Prop where
  | moved (edge : MgrEdge s m s')
  | panicked (site : Site) (t : Tid) (st : ThreadState) (hs : s' = s.fail (.panic site t st))
      (hsite : site = .unregister ∧ (∃ tids pids, m.pc = .reapThreads (t :: tids) pids) ∧
          t ∉ s.registry ∨
        site = .removeProcess ∧ (∃ p pids, m.pc = .reapProcs (p :: pids) ∧ s.procs p = none) ∨
        site.checked = true)
  | freed (t : Tid) (hfreed : (s.threads t).freed) (hs : s' = s.fail (.useAfterFree t))
      (hat : (∃ n, m.pc = .sleepCheck n ∧ n.thread = t) ∨ (∃ n ∈ s.heap, n.thread = t) ∨
        t ∈ s.ready)

theorem State.setHart_self (h : Nat) :
    s.setHart h { s.harts h with inbox := (s.harts h).inbox } = s := by
  simp [setHart]

theorem MgrOutcome.of_goto {pc : MgrPc} (move : MgrGoto s m.hart m.pc pc) :
    MgrOutcome s m (s.goto m pc) :=
  .moved (.goto pc move)

theorem MgrOutcome.of_write {th : Thread} {pc : MgrPc} (move : MgrWrite s m.pc t th pc) :
    MgrOutcome s m ((s.setThread t th).goto m pc) :=
  .moved (.write t th pc move)

theorem complete_eq (s₁ : State) (t : Tid) (p : Published) (direct : Bool) :
    ∃ pc, Answered s₁ t p pc ∧ complete s₁ m t p direct = s₁.goto m pc := by
  unfold complete
  split
  · exact ⟨_, Or.inl rfl, rfl⟩
  split
  · next ht => exact ⟨_, Or.inr (.inl ⟨rfl, ht⟩), rfl⟩
  · next ht => exact ⟨_, Or.inr (.inr ⟨rfl, ht⟩), rfl⟩

theorem reapStep_outcome (hs : reapStep s m m.pc = some s') : MgrOutcome s m s' := by
  cases hpc : m.pc with
  | cleanup todo tids pids =>
    cases todo with
    | nil =>
      simp only [hpc, reapStep] at hs
      cases hs
      exact .of_goto (hpc ▸ .cleanupDone tids pids)
    | cons t todo =>
      simp only [hpc, reapStep] at hs
      split at hs
      · next hproc =>
        cases hs
        exact .of_goto (hpc ▸ .cleanupOrphan t todo tids pids hproc)
      next proc hproc =>
      split at hs <;> cases hs
      · next hst => exact .moved (.cleanupExited t todo tids pids proc hpc hproc hst)
      next hst =>
      rw [cleanupNext_eq]
      exact .of_goto (hpc ▸ .cleanupLive t todo tids pids proc hproc hst)
  | claimExited t todo tids pids =>
    simp only [hpc, reapStep] at hs
    split at hs
    · cases hs
      exact .panicked _ _ _ rfl (.inr (.inr rfl))
    next hst =>
    split at hs <;> cases hs
    · next hproc => exact .of_goto (hpc ▸ .claimOrphan t todo tids pids hproc)
    next proc hproc =>
    rw [cleanupNext_eq]
    exact .moved (.claimExited t todo tids pids proc _ hpc hproc (not_not.mp hst))
  | reapThreads tids pids =>
    cases tids with
    | nil =>
      simp only [hpc, reapStep] at hs
      cases hs
      exact .of_goto (hpc ▸ .reapDone pids)
    | cons t tids =>
      simp only [hpc, reapStep] at hs
      split at hs <;> cases hs
      · next ht => exact .moved (.reap t tids pids hpc ht)
      · next ht => exact .panicked _ _ _ rfl (.inl ⟨rfl, ⟨tids, pids, hpc⟩, ht⟩)
  | reapProcs pids =>
    cases pids with
    | nil =>
      simp only [hpc, reapStep] at hs
      cases hs
      exact .of_goto (hpc ▸ .procsDone)
    | cons p pids =>
      simp only [hpc, reapStep] at hs
      split at hs <;> cases hs
      · next proc hproc => exact .moved (.removeProc p pids proc hpc hproc)
      · next hproc => exact .panicked _ _ _ rfl (.inr (.inl ⟨rfl, p, pids, hpc, hproc⟩))
  | _ => simp [hpc, reapStep] at hs

theorem workHead_outcome (hpc : m.pc = .work)
    (hs : workStep s m c .work = some s') : MgrOutcome s m s' := by
  simp only [workStep] at hs
  split at hs
  · next i vals direct =>
    split at hs <;> cases hs
    next t call hi =>
      obtain ⟨pc, hans, he⟩ := complete_eq (m := m) { s with waiters := s.waiters.eraseIdx i } t
        ⟨call, vals⟩ direct
      rw [he]
      exact .moved (.answer i t ⟨call, vals⟩ pc hpc hi hans)
  split at hs
  · next hwork _ =>
    cases hs
    exact .of_goto (hpc ▸ .workDone hwork)
  · next t call rest vals direct hwork _ =>
    cases hs
    obtain ⟨pc, hans, he⟩ := complete_eq (m := m) { s with work := rest } t ⟨call, vals⟩ direct
    rw [he]
    exact .moved (.serve t ⟨call, vals⟩ rest pc hpc hwork hans)
  · next t call rest hwork _ =>
    cases hs
    exact .moved (.defer t call rest hpc hwork)
  · next t call pid parentAllowed allowed affinity rest ok frame hwork _ =>
    have hs := Option.some.inj hs
    obtain ⟨ret, hret⟩ : ∃ ret, ret = ({ s with work := rest }.runCreateThreadReq pid
      parentAllowed allowed affinity ok frame).2 := ⟨_, rfl⟩
    rw [← hret] at hs
    unfold runCreateThreadReq at hs
    split at hs
    · obtain ⟨pc, hans, he⟩ := complete_eq (m := m) { s with work := rest } t ⟨call, [ret]⟩ false
      rw [← hs, he]
      exact .moved (.spawnFails t ⟨call, [ret]⟩ pid _ _ _ rest pc hpc hwork hans)
    split at hs
    · obtain ⟨pc, hans, he⟩ := complete_eq (m := m) { s with work := rest } t ⟨call, [ret]⟩
        false
      rw [← hs, he]
      exact .moved (.spawnFails t ⟨call, [ret]⟩ pid _ _ _ rest pc hpc hwork hans)
    next proc hproc =>
    split at hs
    · obtain ⟨pc, hans, he⟩ := complete_eq (m := m) ({ s with work := rest }.admitThread pid
        proc (.new pid _ _ frame)) t ⟨call, [ret]⟩ false
      rw [← hs, he]
      exact .moved (.spawn t ⟨call, [ret]⟩ pid _ _ _ rest proc _ pc hpc hwork hproc
        ⟨_, _, _, rfl⟩ hans)
    obtain ⟨pc, hans, he⟩ := complete_eq (m := m) { s with work := rest } t
      ⟨call, [ret]⟩ false
    rw [← hs, he]
    exact .moved (.spawnFails t ⟨call, [ret]⟩ pid _ _ _ rest pc hpc hwork hans)
  · next pid leader code rest hwork _ =>
    split at hs <;> cases hs
    · next hproc => exact .moved (.exitGroupGone pid leader code rest hpc hwork hproc)
    · next proc hproc => exact .moved (.exitGroup pid leader code rest proc hpc hwork hproc)
  · cases hs

theorem workStep_outcome (hs : workStep s m c m.pc = some s') : MgrOutcome s m s' := by
  cases hpc : m.pc with
  | work => exact workHead_outcome hpc (hpc ▸ hs)
  | resume t p =>
    simp only [hpc, workStep] at hs
    split at hs
    · next ht =>
      split at hs <;> cases hs
      · next hst => exact .of_goto (hpc ▸ .resumeParked t p ht hst)
      · exact .of_goto (hpc ▸ .resumePublish t p ht)
    next ht =>
    cases hs
    exact .of_goto (hpc ▸ .resumeLost t p ht)
  | resumeWrite t p =>
    simp only [hpc, workStep] at hs
    cases hs
    exact .of_write (hpc ▸ .resumeWrite t p)
  | resumeReset t p =>
    simp only [hpc, workStep] at hs
    cases hs
    exact .of_write (hpc ▸ .resumeReset t p)
  | resumeLoad t p =>
    simp only [hpc, workStep] at hs
    split at hs <;> cases hs
    · next hst => exact .of_goto (hpc ▸ .resumeLoad t p hst)
    · exact .panicked _ _ _ rfl (.inr (.inr rfl))
  | resumeStore t p =>
    simp only [hpc, workStep] at hs
    cases hs
    exact .of_write (hpc ▸ .resumeStore t p)
  | resumePush t =>
    simp only [hpc, workStep] at hs
    cases hs
    unfold pushInbox
    split
    · exact .moved (.resumePush t _ hpc (.inl rfl))
    have edge := MgrEdge.resumePush (s := s) t _ hpc (.inr rfl)
    rw [State.setHart_self] at edge
    exact .moved edge
  | publish t p =>
    simp only [hpc, workStep] at hs
    cases hs
    exact .of_write (hpc ▸ .publish t p)
  | publishWake t =>
    simp only [hpc, workStep] at hs
    cases hs
    unfold wakeQueuePush
    split
    · exact .moved (.publishWake t _ hpc (.inl rfl))
    · next hfull => exact .moved (.publishWake t _ hpc (.inr ⟨rfl, hfull⟩))
  | kill pid leader rest =>
    cases rest with
    | nil =>
      simp only [hpc, workStep] at hs
      cases hs
      exact .moved (.killDone pid leader hpc)
    | cons t rest =>
      simp only [hpc, workStep] at hs
      split at hs <;> cases hs
      · next ht => exact .of_write (hpc ▸ .kill pid leader t rest ht)
      · next ht => exact .of_goto (hpc ▸ .killSkip pid leader t rest ht)
  | _ => simp [hpc, workStep] at hs

theorem wakeStep_outcome (hs : wakeStep s m c m.pc = some s') : MgrOutcome s m s' := by
  cases hpc : m.pc with
  | wakes =>
    simp only [hpc, wakeStep] at hs
    split at hs
    · next hqueue =>
      cases hs
      exact .of_goto (hpc ▸ .wakesDone hqueue)
    next ev rest hqueue =>
    split at hs <;> cases hs
    · next k hk => exact .moved (.popWake ev rest _ hpc hqueue (.inl ⟨k, hk, rfl⟩))
    · next hk => exact .moved (.popWake ev rest _ hpc hqueue (.inr ⟨hk, rfl⟩))
  | nudge n =>
    simp only [hpc, wakeStep] at hs
    split at hs <;> cases hs
    · next t ht => exact .of_goto (hpc ▸ .nudge n t ht)
    · exact .of_goto (hpc ▸ .nudgeSkip n)
  | scan k =>
    simp only [hpc, wakeStep] at hs
    split at hs
    · next hrest =>
      cases hs
      exact .of_goto (hpc ▸ .scanDone k hrest)
    next t rest hrest =>
    split at hs <;> cases hs
    · next hpred => exact .of_goto (hpc ▸ .scanHit k t rest hrest hpred)
    · next hpred => exact .of_goto (hpc ▸ .scanMiss k t rest hrest (Bool.not_eq_true _ ▸ hpred))
  | scanRets t st k =>
    simp only [hpc, wakeStep] at hs
    cases hs
    exact .of_goto (hpc ▸ .scanRets t st k)
  | scanNote t st signaled k =>
    simp only [hpc, wakeStep] at hs
    cases hs
    exact .of_write (hpc ▸ .scanNote t st signaled k)
  | claim t mode a =>
    simp only [hpc, wakeStep] at hs
    split at hs
    · next hst =>
      split at hs <;> cases hs
      · exact .of_goto (hpc ▸ .claimPromote t a hst)
      · exact .of_goto (hpc ▸ .claimPublished t a hst)
    next hst =>
    cases hs
    exact .of_goto (hpc ▸ .claimMiss t mode a (Bool.not_eq_true _ ▸ hst))
  | take t a =>
    simp only [hpc, wakeStep] at hs
    split at hs <;> cases hs
    · next p hp => exact .of_write (hpc ▸ .take t a p hp)
    · next hp => exact .of_goto (hpc ▸ .takeNone t a hp)
  | marshal t p a =>
    simp only [hpc, wakeStep] at hs
    cases hs
    exact .of_write (hpc ▸ .marshal t p a)
  | swapWake t rets a =>
    simp only [hpc, wakeStep] at hs
    cases hs
    exact .of_write (hpc ▸ .swapWake t rets a)
  | promoteLoad t rets a =>
    simp only [hpc, wakeStep] at hs
    split at hs <;> cases hs
    · next hst => exact .of_goto (hpc ▸ .promoteLoad t rets a hst)
    · exact .panicked _ _ _ rfl (.inr (.inr rfl))
  | promoteStore t rets a =>
    simp only [hpc, wakeStep] at hs
    cases hs
    exact .of_write (hpc ▸ .promoteStore t rets a)
  | pushReady t a =>
    simp only [hpc, wakeStep] at hs
    cases hs
    exact .moved (.pushReady t a hpc)
  | _ => simp [hpc, wakeStep] at hs

theorem MgrOutcome.of_deref {k : Thread → Option State}
    (hat : (∃ n, m.pc = .sleepCheck n ∧ n.thread = t) ∨ (∃ n ∈ s.heap, n.thread = t) ∨ t ∈ s.ready)
    (hk : (s.threads t).freed = false → k (s.threads t) = some s' → MgrOutcome s m s')
    (hs : s.deref t k = some s') : MgrOutcome s m s' := by
  unfold deref at hs
  split at hs
  · next hfreed =>
    cases hs
    exact .freed t hfreed rfl hat
  · next hfreed => exact hk (Bool.not_eq_true _ ▸ hfreed) hs

theorem sleepStep_outcome (hs : sleepStep s m c m.pc = some s') :
    MgrOutcome s m s' := by
  cases hpc : m.pc with
  | sleeps =>
    simp only [hpc, sleepStep] at hs
    split at hs
    · next n rest hinbox =>
      cases hs
      exact .moved (.popNotice n rest hpc hinbox)
    next hinbox =>
    split at hs <;> cases hs
    next now => exact .of_goto (hpc ▸ .sleepsDone now hinbox)
  | sleepCheck n =>
    simp only [hpc, sleepStep] at hs
    refine .of_deref (.inl ⟨n, hpc, rfl⟩) (fun hlive hk => ?_) hs
    split at hk <;> cases hk
    · next hwake => exact .of_goto (hpc ▸ .sleepClaim n hlive hwake)
    · exact .moved (.sleepHeap n hpc hlive)
  | woken now =>
    simp only [hpc, sleepStep] at hs
    split at hs
    · next hheap =>
      cases hs
      exact .of_goto (hpc ▸ .wokenDone now hheap)
    next e rest hheap =>
    refine .of_deref (.inr (.inl ⟨e, by simp [hheap], rfl⟩)) (fun hlive hk => ?_) hs
    cases hk
    exact .of_goto (hpc ▸ .woken now e rest hheap)
  | wokenState now seq =>
    simp only [hpc, sleepStep] at hs
    split at hs
    · cases hs
    next e rest hheap =>
    refine .of_deref (.inr (.inl ⟨e, by simp [hheap], rfl⟩)) (fun hlive hk => ?_) hs
    split at hk
    · cases hk
      exact .moved (.wokenStale now seq e rest hpc hheap)
    · cases hk
      exact .of_goto (hpc ▸ .wokenWait now seq)
    next hclass =>
    split at hk <;> cases hk
    · exact .of_goto (hpc ▸ .wokenWait now seq)
    · exact .moved (.wokenDue now seq e rest hpc hheap (classify_live hclass))
  | inboxes h =>
    simp only [hpc, sleepStep] at hs
    split at hs
    · next hlt =>
      split at hs <;> cases hs
      · next hinbox => exact .of_goto (hpc ▸ .inboxEmpty h hlt hinbox)
      · next t rest hinbox => exact .moved (.inboxPop h t rest hpc hlt hinbox)
    next hge =>
    cases hs
    exact .of_goto (hpc ▸ .inboxesDone h hge)
  | _ => simp [hpc, sleepStep] at hs

theorem assignStep_outcome (hs : assignStep s m m.pc = some s') : MgrOutcome s m s' := by
  cases hpc : m.pc with
  | assign hs' =>
    cases hs' with
    | nil =>
      simp only [hpc, assignStep] at hs
      cases hs
      exact .moved (.release hpc)
    | cons h hs' =>
      simp only [hpc, assignStep] at hs
      split at hs <;> cases hs
      · next u hcur => exact .of_goto (hpc ▸ .assignBusy h hs' u hcur)
      · next hcur => exact .of_goto (hpc ▸ .assignFree h hs' hcur)
  | assignPop h hs' =>
    simp only [hpc, assignStep] at hs
    split at hs
    · cases hs
      exact .of_goto (hpc ▸ .assignNone h hs')
    next u hfind =>
    split at hs
    · next hfreed =>
      cases hs
      exact .freed u hfreed rfl (.inr (.inr (List.mem_of_find?_eq_some hfind)))
    split at hs <;> cases hs
    · next t rest hpop => exact .moved (.assignPop t h hs' _ rest hpc hpop)
    · exact .of_goto (hpc ▸ .assignNone h hs')
  | assignLoad t h hs' =>
    simp only [hpc, assignStep] at hs
    split at hs <;> cases hs
    · next hst => exact .of_write (hpc ▸ .assignReady t h hs' hst)
    · next hst => exact .of_write (hpc ▸ .assignExited t h hs' hst)
    · exact .panicked _ _ _ rfl (.inr (.inr rfl))
  | assignStore t h hs' =>
    simp only [hpc, assignStep] at hs
    cases hs
    exact .of_write (hpc ▸ .assignStore t h hs')
  | assignPublish t h hs' =>
    simp only [hpc, assignStep] at hs
    cases hs
    exact .moved (.assignPublish t h hs' hpc)
  | _ => simp [hpc, assignStep] at hs

/-- Every access of the manager follows an edge or stops the kernel. -/
theorem mgrStep_outcome (hs : mgrStep s m c = some s') : MgrOutcome s m s' := by
  unfold mgrStep at hs
  split at hs
  all_goals first
    | exact reapStep_outcome hs
    | exact workStep_outcome hs
    | exact wakeStep_outcome hs
    | exact sleepStep_outcome hs
    | exact assignStep_outcome hs

variable (edge : MgrEdge s m s')

include edge

/-- The manager queues no work. -/
theorem MgrEdge.work {w : Work} (hw : w ∈ s'.work) : w ∈ s.work := by
  cases edge with
  | serve _ _ rest _ _ hwork | defer _ _ rest _ hwork | spawnFails _ _ _ _ _ _ rest _ _ hwork
  | exitGroupGone _ _ _ rest _ hwork | exitGroup _ _ _ rest _ _ hwork =>
    exact hwork ▸ .tail _ hw
  | spawn _ _ _ _ _ _ rest _ _ _ _ hwork => exact hwork ▸ .tail _ hw
  | _ => exact hw

/-- The manager keeps a call for later only when it takes it off the queue. -/
theorem MgrEdge.waiters {c : Nat} (hw : (t, c) ∈ s'.waiters) :
    (t, c) ∈ s.waiters ∨ ∃ rest, s.work = .call t c :: rest ∧ s'.threads = s.threads := by
  cases edge with
  | answer i => exact .inl (List.mem_of_mem_eraseIdx hw)
  | defer u c' rest _ hwork =>
    rcases List.mem_append.mp hw with hw | hw
    · exact .inl hw
    · cases List.mem_singleton.mp hw
      exact .inr ⟨rest, hwork, rfl⟩
  | _ => exact .inl hw

theorem MgrEdge.fault : s'.fault = s.fault := by
  cases edge <;> rfl

theorem MgrEdge.nHarts : s'.nHarts = s.nHarts := by
  cases edge <;> rfl

/-- The manager moves no hart. -/
theorem MgrEdge.hart_pc : (s'.harts h).pc = (s.harts h).pc := by
  have other : ∀ h₀ (hart : Hart), hart.pc = (s.harts h₀).pc →
      (update s.harts h₀ hart h).pc = (s.harts h).pc := by
    intro h₀ hart hpc
    by_cases hh : h = h₀
    · subst hh
      rw [update_self, hpc]
    · rw [update_of_ne hh]
  cases edge with
  | resumePush | inboxPop | assignPublish => exact other _ _ rfl
  | _ => rfl

end Orbit.Sched
