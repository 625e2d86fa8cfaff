import Orbit.Proc.Agreement

/-!
The two counters that process and thread numbers are drawn from. As long as neither has
wrapped, every number drawn is one no process, thread or stored exit status bears. After
a wrap nothing keeps `next_tid` from zero, `next_pid` skips zero only inside its loop,
and neither looks at the exit statuses that are still held.
-/

namespace Orbit.Proc

open Store Transition Wait

variable {s s' : System} {a : Action} {pid p : Pid} {tid : Tid} {th : Thread} {proc : Process}

/-- A counter that a number is drawn from is not at its last value. -/
def Unwrapped (s : System) : Action → Prop
  | .spawn _ _ _ =>
    s.currentProcessId + 1 < pidLimit ∧ s.currentThreadId + 1 < tidLimit
  | .createThread _ _ | .createKernelThread _ => s.currentThreadId + 1 < tidLimit
  | _ => True

instance (s : System) : ∀ a, Decidable (Unwrapped s a)
  | .spawn _ _ _ => inferInstanceAs (Decidable (_ ∧ _))
  | .createThread _ _ | .createKernelThread _ => inferInstanceAs (Decidable (_ < _))
  | .exit _ _ | .fault _ | .exitGroup _ _ _ | .wait _ _ _ | .cleanup =>
    inferInstanceAs (Decidable True)

/-- Every number in use has been passed by its counter. -/
structure Passed (s : System) : Prop where
  pids : ∀ p proc, s.processes.get p = some proc → p ≤ s.currentProcessId
  stored : ∀ p proc k st, s.processes.get p = some proc → proc.deadChildren.get k = some st →
    k ≤ s.currentProcessId
  tids : ∀ t th, s.registry.get t = some th → t ≤ s.currentThreadId

namespace Passed

variable (passed : Passed s)

include passed

/-- The next pid is the counter's next value. -/
theorem nextPid (hcur : s.currentProcessId + 1 < pidLimit) :
    s.nextPid = some (s.currentProcessId + 1) := by
  have hfree : s.processes.get (s.currentProcessId + 1) = none := by
    cases h : s.processes.get (s.currentProcessId + 1) with
    | none => rfl
    | some proc => exact absurd (passed.pids _ proc h) (Nat.not_succ_le_self _)
  simp [System.nextPid, nextPidFrom, Nat.mod_eq_of_lt hcur, hfree]

theorem nextTid (hcur : s.currentThreadId + 1 < tidLimit) :
    s.nextTid = some (s.currentThreadId + 1) := by
  have hfree : s.registry.get (s.currentThreadId + 1) = none := by
    cases h : s.registry.get (s.currentThreadId + 1) with
    | none => rfl
    | some th => exact absurd (passed.tids _ th h) (Nat.not_succ_le_self _)
  simp [System.nextTid, nextTidFrom, Nat.mod_eq_of_lt hcur, hfree]

/-- A step after which the tables hold no number that the counters have not passed. -/
theorem transfer (hpid : s.currentProcessId ≤ s'.currentProcessId)
    (htid : s.currentThreadId ≤ s'.currentThreadId)
    (hprocs : ∀ p new, s'.processes.get p = some new →
      (p = s'.currentProcessId ∨ ∃ old, s.processes.get p = some old) ∧
        ∀ k st, new.deadChildren.get k = some st → k ≤ s'.currentProcessId)
    (hthreads : ∀ t th, s'.registry.get t = some th →
      t = s'.currentThreadId ∨ ∃ old, s.registry.get t = some old) : Passed s' := by
  constructor
  · intro p new hnew
    rcases (hprocs p new hnew).1 with rfl | ⟨old, hold⟩
    · exact le_rfl
    · exact (passed.pids p old hold).trans hpid
  · intro p new k st hnew hst
    exact (hprocs p new hnew).2 k st hst
  intro t th hth
  rcases hthreads t th hth with rfl | ⟨old, hold⟩
  · exact le_rfl
  · exact (passed.tids t old hold).trans htid

/-- A process that is there is changed. -/
theorem setProcess (hproc : s.processes.get pid = some proc) {proc' : Process}
    (hdead : ∀ k st, proc'.deadChildren.get k = some st → k ≤ s.currentProcessId) :
    Passed (s.setProcess pid proc') := by
  refine passed.transfer le_rfl le_rfl ?_ fun t th h => .inr ⟨th, h⟩
  intro p new hnew
  rcases s.processes.get_insert_eq_some.mp hnew with ⟨rfl, rfl⟩ | ⟨_, hnew⟩
  · exact ⟨.inr ⟨proc, hproc⟩, hdead⟩
  · exact ⟨.inr ⟨new, hnew⟩, fun k st h => passed.stored p new k st hnew h⟩

/-- The registry loses threads or changes those it has. -/
theorem threads (hprocs : s'.processes = s.processes)
    (hpid : s'.currentProcessId = s.currentProcessId)
    (htid : s'.currentThreadId = s.currentThreadId)
    (hthreads : ∀ t th, s'.registry.get t = some th → ∃ old, s.registry.get t = some old) :
    Passed s' := by
  refine passed.transfer hpid.ge htid.ge ?_ fun t th h => .inr (hthreads t th h)
  intro p new hnew
  rw [hprocs] at hnew
  exact ⟨.inr ⟨new, hnew⟩, fun k st h => hpid ▸ passed.stored p new k st hnew h⟩

/-- The parent of a dead process may store its number. -/
theorem handedOver (hpid : pid ≤ s.currentProcessId)
    (handed : HandedOver s pid proc s') : Passed s' := by
  cases handed with
  | dropped => exact passed
  | waiter tid => exact { passed with }
  | anyWaiter parent tid hparent =>
    have served : Passed (s.setProcess proc.parentPid { parent with anyChildWaiter := none }) :=
      passed.setProcess hparent fun k st h => passed.stored _ parent k st hparent h
    exact { served with }
  | stored parent hparent =>
    have kept : Passed (s.setProcess proc.parentPid { parent with
        deadChildren := parent.deadChildren.insert pid ⟨proc.exitCode, proc.id⟩ }) := by
      apply passed.setProcess hparent
      intro k st h
      rcases parent.deadChildren.get_insert_eq_some.mp h with ⟨rfl, _⟩ | ⟨_, h⟩
      · exact hpid
      · exact passed.stored _ parent k st hparent h
    exact { kept with }

/-- The first loop of a cleanup only takes threads out of processes. -/
theorem cleanup (hs : s.cleanup = some s') : Passed s' := by
  refine cleanup_invariant ?_ ?_ ?_ passed hs
  · intro s tid th proc passed _ hproc
    exact passed.setProcess hproc fun k st h => passed.stored _ proc k st hproc h
  · intro s tid passed
    refine passed.threads rfl rfl rfl ?_
    intro t th hth
    exact ⟨th, (s.registry.get_erase_eq_some.mp hth).2⟩
  intro s pid proc s' passed hproc handed
  have passed' : Passed { s with processes := s.processes.erase pid } := by
    refine passed.transfer le_rfl le_rfl ?_ fun t th h => .inr ⟨th, h⟩
    intro p new hnew
    obtain ⟨_, hold⟩ := s.processes.get_erase_eq_some.mp hnew
    exact ⟨.inr ⟨new, hold⟩, fun k st h => passed.stored p new k st hold h⟩
  exact passed'.handedOver (passed.pids pid proc hproc) handed

/-- A thread gets the counter's next value. -/
theorem register (hle : s.currentThreadId ≤ tid) (pid : Pid) :
    Passed (s.register pid tid) := by
  refine passed.transfer le_rfl hle ?_ ?_
  · intro p new hnew
    exact ⟨.inr ⟨new, hnew⟩, fun k st h => passed.stored p new k st hnew h⟩
  intro t th hth
  rcases s.registry.get_insert_eq_some.mp hth with ⟨ht, _⟩ | ⟨_, hth⟩
  · exact .inl ht
  · exact .inr ⟨th, hth⟩

/-- The counters only move up. -/
theorem counters (hpid : s.currentProcessId ≤ pid)
    (htid : s.currentThreadId ≤ tid) :
    Passed { s with currentProcessId := pid, currentThreadId := tid } := by
  refine passed.transfer hpid htid ?_ fun t th h => .inr ⟨th, h⟩
  intro p new hnew
  exact ⟨.inr ⟨new, hnew⟩, fun k st h => (passed.stored p new k st hnew h).trans hpid⟩

theorem drawnPid (hcur : s.currentProcessId + 1 < pidLimit)
    (hpid : s.nextPid = some pid) : s.currentProcessId ≤ pid := by
  obtain rfl := Option.some.inj ((passed.nextPid hcur).symm.trans hpid)
  exact Nat.le_succ _

theorem drawnTid (hcur : s.currentThreadId + 1 < tidLimit)
    (htid : s.nextTid = some tid) : s.currentThreadId ≤ tid := by
  obtain rfl := Option.some.inj ((passed.nextTid hcur).symm.trans htid)
  exact Nat.le_succ _

theorem spawn {parentPid : Pid} {detached : Bool} {ending : SpawnEnd}
    (hguard : Unwrapped s (.spawn parentPid detached ending))
    (start : Spawned s parentPid detached s') : Passed s' := by
  cases start with
  | unchanged => exact passed
  | drawnPid hpid => exact passed.counters (passed.drawnPid hguard.1 hpid) le_rfl
  | drawnBoth hpid htid =>
    exact passed.counters (passed.drawnPid hguard.1 hpid) (passed.drawnTid hguard.2 htid)
  | @done pid tid hpid htid =>
    have hp := passed.drawnPid hguard.1 hpid
    refine passed.transfer hp (passed.drawnTid hguard.2 htid) ?_ ?_
    · intro p new hnew
      rcases s.processes.get_insert_eq_some.mp hnew with ⟨heq, rfl⟩ | ⟨_, hnew⟩
      · refine ⟨.inl heq, ?_⟩
        intro k st h
        cases h
      · exact ⟨.inr ⟨new, hnew⟩, fun k st h => (passed.stored p new k st hnew h).trans hp⟩
    intro t th hth
    rcases s.registry.get_insert_eq_some.mp hth with ⟨heq, _⟩ | ⟨_, hth⟩
    · exact .inl heq
    · exact .inr ⟨th, hth⟩

theorem createThread (hcur : s.currentThreadId + 1 < tidLimit)
    (join : Joined s pid s') : Passed s' := by
  cases join with
  | unchanged => exact passed
  | drawn htid => exact passed.counters le_rfl (passed.drawnTid hcur htid)
  | @done tid proc hproc htid =>
    have joined : Passed (s.setProcess pid { proc with threads := insert tid proc.threads }) :=
      passed.setProcess hproc fun k st h => passed.stored _ proc k st hproc h
    exact joined.register (passed.drawnTid hcur htid) pid

theorem wait (wait : Waited s pid tid s') : Passed s' := by
  cases wait with
  | answered _ => exact { passed with }
  | parkedAny parent hparent =>
    exact passed.setProcess hparent fun k st h => passed.stored _ parent k st hparent h
  | parked target proc hproc =>
    exact passed.setProcess hproc fun k st h => passed.stored _ proc k st hproc h
  | taken parent child st vals hparent _ =>
    have drained : Passed (s.setProcess pid { parent with
        deadChildren := parent.deadChildren.erase child }) := by
      apply passed.setProcess hparent
      intro k st' h
      exact passed.stored _ parent k st' hparent (parent.deadChildren.get_erase_eq_some.mp h).2
    exact { drained with }

theorem exitGroup {leader : Tid} {code : Int} :
    Passed (s.requestExitGroup pid leader code) := by
  unfold System.requestExitGroup
  split
  · exact passed
  next proc hproc =>
  have ended : Passed (s.setProcess pid { proc with exitCode := code, exitFinalized := true }) :=
    passed.setProcess hproc fun k st h => passed.stored _ proc k st hproc h
  refine ended.threads rfl rfl rfl ?_
  intro t th hth
  rw [System.killSiblings, Table.get_map] at hth
  obtain ⟨old, hold, _⟩ := Option.map_eq_some_iff.mp hth
  exact ⟨old, hold⟩

theorem setThread (hth : s.registry.get tid = some th) (th' : Thread) :
    Passed (s.setThread tid th') := by
  refine passed.threads rfl rfl rfl ?_
  intro t u hu
  rcases s.registry.get_insert_eq_some.mp hu with ⟨rfl, _⟩ | ⟨_, hu⟩
  · exact ⟨th, hth⟩
  · exact ⟨u, hu⟩

theorem preserved (hguard : Unwrapped s a) (hs : step s a = some s') :
    Passed s' := by
  cases a with
  | spawn parentPid detached ending => exact passed.spawn hguard (spawned hs)
  | createThread pid ok => exact passed.createThread hguard (joined hs)
  | createKernelThread ok =>
    rcases createKernelThread_cases hs with rfl | ⟨tid, htid, rfl⟩
    · exact passed
    · exact passed.register (passed.drawnTid hguard htid) 0
  | exit tid status =>
    obtain ⟨th, hth, rfl⟩ := exit_cases hs
    exact passed.setThread hth _
  | fault tid =>
    obtain ⟨th, hth, rfl⟩ := fault_cases hs
    exact passed.setThread hth _
  | exitGroup pid leader code =>
    cases hs
    exact passed.exitGroup
  | wait pid tid target =>
    cases hs
    exact passed.wait (waited s pid tid target)
  | cleanup => exact passed.cleanup hs

end Passed

theorem initial_passed : Passed initial := by
  constructor <;> simp [initial]

/-- In every run in which no number is drawn from a counter at its last value, the two functions
return and give numbers that are not zero and not in use: no registered thread has the tid, and
no process and no exit status that a process still holds has the pid. -/
theorem ids_fresh (run : Reach step Unwrapped (· = initial) s) :
    (s.currentThreadId + 1 < tidLimit → ∃ tid, s.nextTid = some tid ∧ tid ≠ 0 ∧
      s.registry.get tid = none) ∧
    (s.currentProcessId + 1 < pidLimit → ∃ pid, s.nextPid = some pid ∧ pid ≠ 0 ∧
      s.processes.get pid = none ∧
      ∀ p parent, s.processes.get p = some parent → parent.deadChildren.get pid = none) := by
  have passed : Passed s := by
    apply run.invariant
    · rintro s rfl
      exact initial_passed
    · intro s a s' passed hguard hs
      exact passed.preserved hguard hs
  constructor
  · intro hcur
    have htid := passed.nextTid hcur
    exact ⟨_, htid, Nat.succ_ne_zero _, nextTid_free htid⟩
  intro hcur
  have hpid := passed.nextPid hcur
  refine ⟨_, hpid, Nat.succ_ne_zero _, nextPid_free hpid, ?_⟩
  intro p parent hparent
  cases h : parent.deadChildren.get (s.currentProcessId + 1) with
  | none => rfl
  | some st => exact absurd (passed.stored p parent _ st hparent h) (Nat.not_succ_le_self _)

/-- A process whose child has exited; the status has not been asked for. -/
def deadChild : List Action :=
  [.spawn 0 false .done, .spawn 1 false .done, .exit 2 0, .cleanup]

theorem ids_fresh_dead_child : ∃ s, Reach step Unwrapped (· = initial) s ∧
    s.nextPid = some 3 ∧ s.nextTid = some 3 ∧ ∃ pid, s.nextPid = some pid ∧
      ∀ p parent, s.processes.get p = some parent → parent.deadChildren.get pid = none := by
  have hstart : Reach step Unwrapped (· = initial) initial := .start rfl
  obtain ⟨s, run, hcur, hpid, htid⟩ := hstart.exists_of_exec deadChild
    (fun s => s.currentProcessId = 2 ∧ s.nextPid = some 3 ∧ s.nextTid = some 3) (by decide +kernel)
  obtain ⟨pid, hnext, _, _, hstored⟩ := (ids_fresh run).2 (by simp [hcur, pidLimit])
  exact ⟨s, run, hpid, htid, pid, hnext, hstored⟩

/-- Starts that fail after both numbers were drawn move the tid counter to any value. -/
theorem reach_tid_counter (n : Nat) (hn : n < tidLimit) : ∃ pid,
    Reach step (fun _ _ => True) (· = initial)
      { initial with currentProcessId := pid, currentThreadId := n } := by
  induction n with
  | zero => exact ⟨0, .start rfl⟩
  | succ n ih =>
    obtain ⟨pid, hbefore⟩ := ih (Nat.lt_of_succ_lt hn)
    refine ⟨(pid + 1) % pidLimit, .next hbefore trivial (a := .spawn 0 false .kernelMap) ?_⟩
    simp [step, System.createNewProcess, System.nextPid, System.nextTid, nextPidFrom,
      nextTidFrom, initial, Nat.mod_eq_of_lt hn]

/-- After a wrap `next_pid` gives zero, and a pid whose exit status the parent still holds;
`next_tid` gives zero. -/
theorem wrapped_ids_collide :
    (∃ s, Reach step (fun _ _ => True) (· = initial) s ∧ s.nextPid = some 0 ∧
      s.processes.get 2 = none) ∧
    (∃ s, Reach step (fun _ _ => True) (· = initial) s ∧ s.nextPid = some 2 ∧
      ((s.processes.get 1).bind fun parent => parent.deadChildren.get 2).isSome) ∧
    ∃ s, Reach step (fun _ _ => True) (· = initial) s ∧ s.nextTid = some 0 ∧
      s.registry.get 1 = none := by
  have hstart : Reach step (fun _ _ => True) (· = initial) initial := .start rfl
  obtain ⟨s, run, hcur, hkeys, hstored⟩ := hstart.exists_of_exec deadChild
    (fun s => s.currentProcessId = 2 ∧ s.processes.entries.map Prod.fst = [1] ∧
      ((s.processes.get 1).bind fun parent => parent.deadChildren.get 2).isSome) (by decide +kernel)
  have hlive : ∀ k, k ≠ 1 → s.processes.get k = none := by
    intro k hk
    cases h : s.processes.get k with
    | none => rfl
    | some proc =>
      have hin : k ∈ s.processes.entries.map Prod.fst :=
        List.mem_map_of_mem (s.processes.get_eq_some.mp h)
      rw [hkeys] at hin
      exact absurd (List.mem_singleton.mp hin) hk
  have habove : ∀ k, s.currentProcessId < k → s.processes.get k = none := by
    intro k hk
    rw [hcur] at hk
    exact hlive k (Nat.ne_of_gt (Nat.lt_of_succ_lt hk))
  have hlast := reach_pid_counter run habove 65535 (by simp [hcur]) (by decide)
  have hone : (s.processes.get 1).isSome := by
    cases h : s.processes.get 1 with
    | none => simp [h] at hstored
    | some proc => rfl
  refine ⟨⟨_, hlast, ?_, hlive 2 (by decide)⟩,
    ⟨{ s with currentProcessId := 0 }, ?_, ?_, hstored⟩, ?_⟩
  · simp [System.nextPid, nextPidFrom, pidLimit, hlive 0]
  · refine .next hlast trivial (a := .spawn 0 false .thread) ?_
    simp [step, System.createNewProcess, System.nextPid, nextPidFrom, pidLimit, hlive 0]
  · simp [System.nextPid, nextPidFrom, pidLimit, hone, hlive 2]
  obtain ⟨pid, hrun⟩ := reach_tid_counter (tidLimit - 1) (by decide)
  refine ⟨_, hrun, ?_, rfl⟩
  simp [System.nextTid, nextTidFrom, tidLimit, initial]

end Orbit.Proc
