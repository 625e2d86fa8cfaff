import Orbit.Proc.Cleanup

/-!
The registry and the process table agree after every sequence of creations, exits and
cleanup passes, as long as no process is given pid 0 and no kernel thread exits.
-/

namespace Orbit.Proc

open Store Transition Table Wait

variable {fuel : Nat} {next : Pid} {taken : Pid → Bool} {proc' : Process}

variable {s s' : System} {a : Action} {pid p : Pid} {tid : Tid} {th : Thread} {proc : Process}

/-! The counters. -/

theorem nextTidFrom_free {taken : Tid → Bool} {next : Tid}
    (h : nextTidFrom taken fuel next = some tid) : taken tid = false := by
  induction fuel generalizing next with
  | zero => cases h
  | succ fuel ih =>
    simp only [nextTidFrom] at h
    split at h
    · exact ih h
    next hfree =>
    cases h
    exact Bool.eq_false_iff.mpr hfree

/-- The loop skips zero; only its start can be zero. -/
theorem nextPidFrom_ne_zero (hnext : next ≠ 0)
    (h : nextPidFrom taken fuel next = some pid) : pid ≠ 0 := by
  induction fuel generalizing next with
  | zero => cases h
  | succ fuel ih =>
    simp only [nextPidFrom] at h
    split at h
    · apply ih _ h
      split
      · exact Nat.one_ne_zero
      · next hne => exact hne
    · cases h
      exact hnext

theorem nextTid_free (h : s.nextTid = some tid) : s.registry.get tid = none := by
  have := nextTidFrom_free h
  simpa using this

theorem nextPid_free (h : s.nextPid = some pid) : s.processes.get pid = none := by
  have := nextPidFrom_free h
  simpa using this

theorem nextPid_ne_zero (hcur : s.currentProcessId + 1 < pidLimit)
    (h : s.nextPid = some pid) : pid ≠ 0 := by
  apply nextPidFrom_ne_zero _ h
  rw [Nat.mod_eq_of_lt hcur]
  exact Nat.succ_ne_zero _

/-! Steps. -/

/-- No process is started while the pid counter is at its last value, and only threads of
processes exit. -/
def Registered (s : System) : Action → Prop
  | .spawn _ _ _ => s.currentProcessId + 1 < pidLimit
  | .exit tid _ | .fault tid => ∀ th ∈ s.registry.get tid, th.pid ≠ 0
  | _ => True

instance (s : System) : ∀ a, Decidable (Registered s a)
  | .spawn _ _ _ => inferInstanceAs (Decidable (_ < _))
  | .exit tid _ | .fault tid => inferInstanceAs (Decidable (∀ th ∈ s.registry.get tid, th.pid ≠ 0))
  | .createThread _ _ | .createKernelThread _ | .exitGroup _ _ _ | .wait _ _ _ | .cleanup =>
    inferInstanceAs (Decidable True)

namespace Agree

variable (agree : Agree s)

include agree

/-- Only the two tables matter, and of a process only its threads. -/
theorem congr (hreg : s'.registry = s.registry)
    (hsome : ∀ p new, s'.processes.get p = some new →
      ∃ old, s.processes.get p = some old ∧ new.threads = old.threads)
    (hnone : ∀ p old, s.processes.get p = some old →
      ∃ new, s'.processes.get p = some new ∧ new.threads = old.threads) : Agree s' := by
  constructor
  · intro t th ht huser
    rw [hreg] at ht
    obtain ⟨old, hold, hmem⟩ := agree.home t th ht huser
    obtain ⟨new, hnew, heq⟩ := hnone _ old hold
    exact ⟨new, hnew, heq ▸ hmem⟩
  · intro p new hnew t ht
    obtain ⟨old, hold, heq⟩ := hsome p new hnew
    rw [hreg]
    exact agree.members p old hold t (heq ▸ ht)
  · intro p new hnew
    obtain ⟨old, hold, heq⟩ := hsome p new hnew
    rw [heq]
    exact agree.inhabited p old hold
  · cases h0 : s'.processes.get 0 with
    | none => rfl
    | some new =>
      obtain ⟨old, hold, _⟩ := hsome 0 new h0
      rw [agree.user] at hold
      cases hold
  · rw [hreg]
    exact agree.kernel

/-- One process changes in something else than its threads. -/
theorem setProcess (hproc : s.processes.get pid = some proc)
    (hthreads : proc'.threads = proc.threads) : Agree (s.setProcess pid proc') := by
  refine agree.congr rfl ?_ ?_
  · intro p new hnew
    rcases s.processes.get_insert_eq_some.mp hnew with ⟨rfl, rfl⟩ | ⟨_, hnew⟩
    · exact ⟨proc, hproc, hthreads⟩
    · exact ⟨new, hnew, rfl⟩
  intro p old hold
  rw [System.setProcess]
  by_cases hp : p = pid
  · subst hp
    obtain rfl : proc = old := Option.some.inj (hproc.symm.trans hold)
    exact ⟨proc', get_insert_self .., hthreads⟩
  · exact ⟨old, by rw [get_insert_ne _ _ hp, hold], rfl⟩

/-- A thread changes its state; it may be dead only if it is not a kernel thread. -/
theorem mapThreads {f : Tid → Thread → Thread}
    (hpid : ∀ t th, (f t th).pid = th.pid)
    (hstate : ∀ t th, s.registry.get t = some th → th.pid = 0 → (f t th).state ≠ .exited)
    (hreg : ∀ t, s'.registry.get t = (s.registry.get t).map (f t))
    (hprocs : s'.processes = s.processes) : Agree s' := by
  constructor
  · intro t th ht huser
    rw [hreg] at ht
    obtain ⟨old, hold, rfl⟩ := Option.map_eq_some_iff.mp ht
    rw [hpid] at huser ⊢
    rw [hprocs]
    exact agree.home t old hold huser
  · intro p proc hproc t ht
    rw [hprocs] at hproc
    obtain ⟨old, hold, hp⟩ := agree.members p proc hproc t ht
    exact ⟨f t old, by rw [hreg, hold]; rfl, (hpid t old).trans hp⟩
  · rw [hprocs]
    exact agree.inhabited
  · rw [hprocs]
    exact agree.user
  intro t th ht h0
  rw [hreg] at ht
  obtain ⟨old, hold, rfl⟩ := Option.map_eq_some_iff.mp ht
  rw [hpid] at h0
  exact hstate t old hold h0

theorem setThread (hth : s.registry.get tid = some th) (huser : th.pid ≠ 0)
    {th' : Thread} (hpid : th'.pid = th.pid) : Agree (s.setThread tid th') := by
  refine agree.mapThreads (f := fun t old => if t = tid then { th' with pid := old.pid } else old)
    ?_ ?_ ?_ rfl
  · intro t old
    split <;> rfl
  · intro t old hold h0
    split
    · next ht =>
      subst ht
      obtain rfl : th = old := Option.some.inj (hth.symm.trans hold)
      exact absurd h0 huser
    · exact agree.kernel t old hold h0
  intro t
  rw [System.setThread, get_insert]
  split
  · next ht =>
    subst ht
    rw [hth]
    simp [← hpid]
  · cases s.registry.get t <;> rfl

/-- A new thread in a process, which may be new itself. -/
theorem join (hfree : s.registry.get tid = none) (hpid : pid ≠ 0)
    (threads : Finset Tid) (hthreads : ∀ t, t ∈ threads ↔
      ∃ proc, s.processes.get pid = some proc ∧ t ∈ proc.threads)
    (hproc' : proc'.threads = insert tid threads)
    (hreg : s'.registry = s.registry.insert tid ⟨pid, .ready, false, 0⟩)
    (hprocs : s'.processes = s.processes.insert pid proc') : Agree s' := by
  have hne : ∀ {t th}, s.registry.get t = some th → t ≠ tid := fun ht => ne_of_get ht hfree
  constructor
  · intro t th ht huser
    rw [hreg, get_insert_eq_some] at ht
    rcases ht with ⟨rfl, rfl⟩ | ⟨_, ht⟩
    · exact ⟨proc', by simp [hprocs], by simp [hproc']⟩
    obtain ⟨proc, hproc, hmem⟩ := agree.home t th ht huser
    by_cases hp : th.pid = pid
    · refine ⟨proc', by simp [hprocs, hp], ?_⟩
      rw [hproc', Finset.mem_insert, hthreads]
      exact .inr ⟨proc, hp ▸ hproc, hmem⟩
    · exact ⟨proc, by rw [hprocs, get_insert_ne _ _ hp, hproc], hmem⟩
  · intro p proc hproc t ht
    rw [hprocs, get_insert_eq_some] at hproc
    rcases hproc with ⟨rfl, rfl⟩ | ⟨_, hproc⟩
    · rw [hproc', Finset.mem_insert, hthreads] at ht
      rcases ht with rfl | ⟨proc, hproc, hmem⟩
      · exact ⟨_, by rw [hreg, get_insert_self], rfl⟩
      · obtain ⟨th, hth, hthp⟩ := agree.members p proc hproc t hmem
        exact ⟨th, by rw [hreg, get_insert_ne _ _ (hne hth), hth], hthp⟩
    · obtain ⟨th, hth, hthp⟩ := agree.members p proc hproc t ht
      exact ⟨th, by rw [hreg, get_insert_ne _ _ (hne hth), hth], hthp⟩
  · intro p proc hproc
    rw [hprocs, get_insert_eq_some] at hproc
    rcases hproc with ⟨_, rfl⟩ | ⟨_, hproc⟩
    · rw [hproc']
      exact Finset.insert_ne_empty _ _
    · exact agree.inhabited p proc hproc
  · rw [hprocs, get_insert_ne _ _ hpid.symm]
    exact agree.user
  intro t th ht h0
  rw [hreg, get_insert_eq_some] at ht
  rcases ht with ⟨_, rfl⟩ | ⟨_, ht⟩
  · exact absurd h0 hpid
  · exact agree.kernel t th ht h0

/-- The counters are no part of the agreement. -/
theorem counters (pid : Pid) (tid : Tid) :
    Agree { s with currentProcessId := pid, currentThreadId := tid } :=
  { agree with }

theorem spawn (hcur : s.currentProcessId + 1 < pidLimit) {parentPid : Pid}
    {detached : Bool} (start : Spawned s parentPid detached s') : Agree s' := by
  cases start with
  | unchanged => exact agree
  | drawnPid _ => exact agree.counters _ _
  | drawnBoth _ _ => exact agree.counters _ _
  | done hpid htid =>
    have hnone := nextPid_free hpid
    refine agree.join (nextTid_free htid) (nextPid_ne_zero hcur hpid) ∅ ?_ ?_ rfl rfl
    · simp [hnone]
    · rfl

theorem createThread (join : Joined s pid s') : Agree s' := by
  cases join with
  | unchanged => exact agree
  | drawn _ => exact agree.counters _ _
  | done proc hproc htid =>
    have hpid : pid ≠ 0 := by
      rintro rfl
      rw [agree.user] at hproc
      cases hproc
    refine agree.join (nextTid_free htid) hpid proc.threads ?_ rfl rfl rfl
    intro t
    simp [hproc]

theorem createKernelThread (htid : s.nextTid = some tid) :
    Agree (s.register 0 tid) := by
  have hfree := nextTid_free htid
  constructor
  · intro t th ht huser
    rcases s.registry.get_insert_eq_some.mp ht with ⟨_, rfl⟩ | ⟨_, ht⟩
    · exact absurd rfl huser
    · exact agree.home t th ht huser
  · intro p proc hproc t ht
    obtain ⟨th, hth, hp⟩ := agree.members p proc hproc t ht
    have hne : t ≠ tid := ne_of_get hth hfree
    exact ⟨th, by rw [System.register, System.setThread, get_insert_ne _ _ hne, hth], hp⟩
  · exact agree.inhabited
  · exact agree.user
  intro t th ht h0
  rcases s.registry.get_insert_eq_some.mp ht with ⟨_, rfl⟩ | ⟨_, ht⟩
  · simp
  · exact agree.kernel t th ht h0

theorem exitGroup {leader : Tid} {code : Int} :
    Agree (s.requestExitGroup pid leader code) := by
  unfold System.requestExitGroup
  split
  · exact agree
  next proc hproc =>
  have agree' : Agree (s.setProcess pid { proc with exitCode := code, exitFinalized := true }) :=
    agree.setProcess hproc rfl
  refine agree'.mapThreads (f := fun t th =>
    if t ∈ proc.threads ∧ t ≠ leader then { th with state := .exited } else th) ?_ ?_ ?_ rfl
  · intro t th
    split <;> rfl
  · intro t th hth h0
    split
    · next hmem =>
      obtain ⟨th', hth', hp⟩ := agree.members pid proc hproc t hmem.1
      obtain rfl : th' = th := Option.some.inj (hth'.symm.trans hth)
      rw [h0] at hp
      subst hp
      rw [agree.user] at hproc
      cases hproc
    · exact agree.kernel t th hth h0
  · intro t
    exact get_map _ _ t

theorem wait (wait : Waited s pid tid s') : Agree s' := by
  cases wait with
  | answered _ => exact { agree with }
  | parkedAny parent hparent => exact agree.setProcess hparent rfl
  | parked target proc hproc => exact agree.setProcess hproc rfl
  | taken parent child st vals hparent _ =>
    have agree' : Agree (s.setProcess pid { parent with
        deadChildren := parent.deadChildren.erase child }) := agree.setProcess hparent rfl
    exact { agree' with }

theorem cleaned (clean : Cleaned s s') : Agree s' := by
  have hlive : ∀ {t th}, s'.registry.get t = some th →
      t ∉ s.sweep.tids ∧ s.registry.get t = some th := by
    intro t th ht
    rw [clean.registry] at ht
    split at ht
    · cases ht
    · next hnot => exact ⟨hnot, ht⟩
  have hnew : ∀ {p new}, s'.processes.get p = some new → p ∉ s.sweep.pids ∧
      ∃ old, s.processes.get p = some old ∧
        ∀ t, t ∈ new.threads ↔ t ∈ old.threads ∧ t ∉ s.sweep.tids := by
    intro p new hp
    have hnot : p ∉ s.sweep.pids := by
      intro hin
      rw [clean.removed p hin] at hp
      cases hp
    rcases clean.kept p hnot with ⟨_, hnone⟩ | ⟨old, new', hold, hnew', hthreads⟩
    · rw [hnone] at hp
      cases hp
    · obtain rfl : new = new' := Option.some.inj (hp.symm.trans hnew')
      exact ⟨hnot, old, hold, hthreads⟩
  constructor
  · intro t th ht huser
    obtain ⟨hnot, hreg⟩ := hlive ht
    obtain ⟨old, hold, hmem⟩ := agree.home t th hreg huser
    have hp : th.pid ∉ s.sweep.pids := by
      intro hin
      obtain ⟨old', hold', hall⟩ := (clean.processes.2 _).mp hin
      obtain rfl : old = old' := Option.some.inj (hold.symm.trans hold')
      exact hnot ((clean.threads.2 t).mpr (hall t hmem))
    rcases clean.kept _ hp with ⟨hnone, _⟩ | ⟨old', new, hold', hnew', hthreads⟩
    · rw [hnone] at hold
      cases hold
    · obtain rfl : old = old' := Option.some.inj (hold.symm.trans hold')
      exact ⟨new, hnew', (hthreads t).mpr ⟨hmem, hnot⟩⟩
  · intro p new hp t ht
    obtain ⟨_, old, hold, hthreads⟩ := hnew hp
    obtain ⟨hmem, hnot⟩ := (hthreads t).mp ht
    obtain ⟨th, hth, hthp⟩ := agree.members p old hold t hmem
    exact ⟨th, by rw [clean.registry, if_neg hnot, hth], hthp⟩
  · intro p new hp hempty
    obtain ⟨hnot, old, hold, hthreads⟩ := hnew hp
    apply hnot
    refine (clean.processes.2 p).mpr ⟨old, hold, ?_⟩
    intro t ht
    by_contra hlive'
    have hin : t ∈ new.threads := (hthreads t).mpr
      ⟨ht, fun hin => hlive' ((clean.threads.2 t).mp hin)⟩
    simp [hempty] at hin
  · cases h0 : s'.processes.get 0 with
    | none => rfl
    | some new =>
      obtain ⟨_, old, hold, _⟩ := hnew h0
      rw [agree.user] at hold
      cases hold
  · intro t th ht h0
    exact agree.kernel t th (hlive ht).2 h0

theorem preserved (hguard : Registered s a) (hs : step s a = some s') :
    Agree s' := by
  cases a with
  | spawn parentPid detached ending => exact agree.spawn hguard (spawned hs)
  | createThread pid ok => exact agree.createThread (joined hs)
  | createKernelThread ok =>
    rcases createKernelThread_cases hs with rfl | ⟨tid, htid, rfl⟩
    · exact agree
    · exact agree.createKernelThread htid
  | exit tid status =>
    obtain ⟨th, hth, rfl⟩ := exit_cases hs
    exact agree.setThread hth (hguard th hth) rfl
  | fault tid =>
    obtain ⟨th, hth, rfl⟩ := fault_cases hs
    exact agree.setThread hth (hguard th hth) rfl
  | exitGroup pid leader code =>
    cases hs
    exact agree.exitGroup
  | wait pid tid target =>
    cases hs
    exact agree.wait (waited s pid tid target)
  | cleanup =>
    obtain ⟨s'', hrun, clean⟩ := agree.cleanup
    obtain rfl : s'' = s' := Option.some.inj (hrun.symm.trans hs)
    exact agree.cleaned clean

end Agree

theorem initial_agree : Agree initial := by
  constructor <;> simp [initial]

/-- In every state of every run in which no process is started at the last value of the pid
counter and no kernel thread exits, the threads of each process are the registered threads that
carry its pid; a pass does not panic, removes every dead thread and every process whose threads
are all dead, each once, and leaves no process without threads. -/
theorem registry_agrees (run : Reach step Registered (· = initial) s) :
    (∀ pid proc, s.processes.get pid = some proc → ∀ tid, tid ∈ proc.threads ↔
      ∃ th, s.registry.get tid = some th ∧ th.pid = pid) ∧
    ∃ s', s.cleanup = some s' ∧ Cleaned s s' ∧
      ∀ pid proc, s'.processes.get pid = some proc → proc.threads ≠ ∅ := by
  have agree : Agree s := by
    apply run.invariant
    · rintro s rfl
      exact initial_agree
    · intro s a s' agree hguard hs
      exact agree.preserved hguard hs
  obtain ⟨s', hrun, clean⟩ := agree.cleanup
  refine ⟨?_, s', hrun, clean, (agree.cleaned clean).inhabited⟩
  intro pid proc hproc tid
  constructor
  · exact agree.members pid proc hproc tid
  rintro ⟨th, hth, rfl⟩
  have huser : th.pid ≠ 0 := by
    intro h0
    rw [h0, agree.user] at hproc
    cases hproc
  obtain ⟨proc', hproc', hmem⟩ := agree.home tid th hth huser
  obtain rfl : proc = proc' := Option.some.inj (hproc.symm.trans hproc')
  exact hmem

/-- A process with two threads, of which one exits and the other faults, and a second process. -/
def twoProcesses : List Action :=
  [.createKernelThread true, .spawn 0 false .done, .createThread 1 true, .spawn 1 false .thread,
    .spawn 1 false .done, .exit 2 0, .fault 3]

theorem registry_agrees_two_processes : ∃ s, Reach step Registered (· = initial) s ∧
    s.sweep.tids = [2, 3] ∧ s.sweep.pids = [1] ∧ ∃ s', s.cleanup = some s' ∧ Cleaned s s' := by
  have hstart : Reach step Registered (· = initial) initial := .start rfl
  obtain ⟨s, run, htids, hpids⟩ := hstart.exists_of_exec twoProcesses
    (fun s => s.sweep.tids = [2, 3] ∧ s.sweep.pids = [1]) (by decide +kernel)
  obtain ⟨_, s', hrun, clean, _⟩ := registry_agrees run
  exact ⟨s, run, htids, hpids, s', hrun, clean⟩

/-- Starts that fail after their pid was drawn move the counter up to any value. -/
theorem reach_pid_counter (run : Reach step (fun _ _ => True) (· = initial) s)
    (hfree : ∀ k, s.currentProcessId < k → s.processes.get k = none) (n : Nat)
    (hle : s.currentProcessId ≤ n) (hn : n < pidLimit) :
    Reach step (fun _ _ => True) (· = initial) { s with currentProcessId := n } := by
  induction n, hle using Nat.le_induction with
  | base => exact run
  | succ n hle ih =>
    have hbefore := ih (Nat.lt_of_succ_lt hn)
    refine .next hbefore trivial (a := .spawn 0 false .thread) ?_
    simp [step, System.createNewProcess, System.nextPid, nextPidFrom, Nat.mod_eq_of_lt hn,
      hfree (n + 1) (Nat.lt_succ_of_le hle)]

/-- A kernel thread that exits stays in the registry; and after 65535 starts a process gets pid 0,
which is passed over when its last thread exits. -/
theorem dead_entries_survive_cleanup :
    (∃ s, Reach step (fun _ _ => True) (· = initial) s ∧ ∃ s', s.cleanup = some s' ∧
      (s'.registry.get 1).map (·.state) = some .exited) ∧
    ∃ s, Reach step (fun _ _ => True) (· = initial) s ∧ ∃ s', s.cleanup = some s' ∧
      (s'.processes.get 0).map (·.threads) = some ∅ := by
  constructor
  · have hstart : Reach step (fun _ _ => True) (· = initial) initial := .start rfl
    obtain ⟨s, run, hdead⟩ := hstart.exists_of_exec [.createKernelThread true, .exit 1 0]
      (fun s => (s.cleanup.bind fun s' => (s'.registry.get 1).map (·.state)) = some .exited)
      (by decide +kernel)
    obtain ⟨s', hrun, hdead⟩ := Option.bind_eq_some_iff.mp hdead
    exact ⟨s, run, s', hrun, hdead⟩
  have hstart : Reach step (fun _ _ => True) (· = initial) initial := .start rfl
  have hlast := reach_pid_counter hstart (fun _ _ => rfl) 65535 (by decide) (by decide)
  obtain ⟨s, run, hempty⟩ := hlast.exists_of_exec [.spawn 0 false .done, .exit 1 0]
    (fun s => (s.cleanup.bind fun s' => (s'.processes.get 0).map (·.threads)) = some ∅)
    (by decide +kernel)
  obtain ⟨s', hrun, hempty⟩ := Option.bind_eq_some_iff.mp hempty
  exact ⟨s, run, s', hrun, hempty⟩

end Orbit.Proc
