import Orbit.Proc.State

/-!
What each request can do to the tables, said once for every invariant.
-/

namespace Orbit.Proc

open Store

variable {s s' : System} {pid parentPid : Pid} {tid : Tid} {proc : Process} {detached ok : Bool}

/-- What becomes of an exit code. -/
inductive HandedOver (s : System) (pid : Pid) (proc : Process) : System → Prop where
  | dropped : HandedOver s pid proc s
  | waiter (tid : Tid) : HandedOver s pid proc
      ((s.publish tid [0, proc.exitCode]).deliver proc.id proc.exitCode)
  | anyWaiter (parent : Process) (tid : Tid)
    (hparent : s.processes.get proc.parentPid = some parent) :
      HandedOver s pid proc
        (((s.setProcess proc.parentPid { parent with anyChildWaiter := none }).publish tid
          [pid, proc.exitCode]).deliver proc.id proc.exitCode)
  | stored (parent : Process) (hparent : s.processes.get proc.parentPid = some parent) :
      HandedOver s pid proc
        ((s.setProcess proc.parentPid { parent with
          deadChildren := parent.deadChildren.insert pid ⟨proc.exitCode, proc.id⟩ }).deliver
            proc.id proc.exitCode)

theorem handedOver (s : System) (pid : Pid) (proc : Process) :
    HandedOver s pid proc (s.deallocProcess pid proc) := by
  unfold System.deallocProcess
  split
  · exact .dropped
  split
  · exact .waiter _
  split
  · exact .dropped
  split
  · exact .dropped
  next parent hparent =>
  split
  · exact .anyWaiter parent _ hparent
  · exact .stored parent hparent

/-- What a start of a process can come to. -/
inductive Spawned (s : System) (parentPid : Pid) (detached : Bool) : System → Prop where
  | unchanged : Spawned s parentPid detached s
  | drawnPid {pid : Pid} (hpid : s.nextPid = some pid) :
      Spawned s parentPid detached { s with currentProcessId := pid }
  | drawnBoth {pid : Pid} {tid : Tid} (hpid : s.nextPid = some pid) (htid : s.nextTid = some tid) :
      Spawned s parentPid detached { s with currentProcessId := pid, currentThreadId := tid }
  | done {pid : Pid} {tid : Tid} (hpid : s.nextPid = some pid) (htid : s.nextTid = some tid) :
      Spawned s parentPid detached
        { (s.setProcess pid
            { Process.new parentPid detached s.spawned with threads := {tid} }).register pid
              tid with
          currentProcessId := pid
          spawned := s.spawned + 1 }

theorem spawned {ending : SpawnEnd} (hs : s.createNewProcess parentPid detached ending = some s') :
    Spawned s parentPid detached s' := by
  cases ending with
  | image =>
    cases hs
    exact .unchanged
  | thread =>
    simp only [System.createNewProcess, Option.bind_eq_bind, Option.bind_eq_some_iff] at hs
    obtain ⟨pid, hpid, hs⟩ := hs
    cases hs
    exact .drawnPid hpid
  | kernelMap =>
    simp only [System.createNewProcess, Option.bind_eq_bind, Option.bind_eq_some_iff] at hs
    obtain ⟨pid, hpid, tid, htid, hs⟩ := hs
    cases hs
    exact .drawnBoth hpid htid
  | done =>
    simp only [System.createNewProcess, Option.bind_eq_bind, Option.bind_eq_some_iff] at hs
    obtain ⟨pid, hpid, tid, htid, hs⟩ := hs
    cases hs
    exact .done hpid htid

/-- What the creation of a thread can come to. -/
inductive Joined (s : System) (pid : Pid) : System → Prop where
  | unchanged : Joined s pid s
  | drawn {tid : Tid} (htid : s.nextTid = some tid) : Joined s pid { s with currentThreadId := tid }
  | done {tid : Tid} (proc : Process) (hproc : s.processes.get pid = some proc)
      (htid : s.nextTid = some tid) :
      Joined s pid ((s.setProcess pid { proc with threads := insert tid proc.threads }).register
        pid tid)

theorem joined (hs : s.addNewThreadToProcess pid ok = some s') : Joined s pid s' := by
  unfold System.addNewThreadToProcess at hs
  cases hproc : s.processes.get pid with
  | none =>
    rw [hproc] at hs
    cases hs
    exact .unchanged
  | some proc =>
    rw [hproc] at hs
    cases ok with
    | false =>
      cases hs
      exact .unchanged
    | true =>
      simp only [if_true, Option.bind_eq_bind, Option.bind_eq_some_iff] at hs
      obtain ⟨tid, htid, hs⟩ := hs
      split at hs <;> cases hs
      · exact .drawn htid
      · exact .done proc hproc htid

/-- What the creation of a kernel thread can come to. -/
theorem createKernelThread_cases (hs : s.createKernelThread ok = some s') :
    s' = s ∨ ∃ tid, s.nextTid = some tid ∧ s' = s.register 0 tid := by
  unfold System.createKernelThread at hs
  cases ok with
  | false =>
    cases hs
    exact .inl rfl
  | true =>
    simp only [if_true, Option.bind_eq_bind, Option.bind_eq_some_iff] at hs
    obtain ⟨tid, htid, hs⟩ := hs
    cases hs
    exact .inr ⟨tid, htid, rfl⟩

theorem exit_cases {status : Int} (hs : step s (.exit tid status) = some s') : ∃ th,
    s.registry.get tid = some th ∧ s' = s.setThread tid { th with state := .exited, status } := by
  simp only [step] at hs
  split at hs
  · cases hs
  next th hth =>
  cases hs
  exact ⟨th, hth, rfl⟩

theorem fault_cases (hs : step s (.fault tid) = some s') : ∃ th, s.registry.get tid = some th ∧
    s' = s.setThread tid { th with state := .exited, faulted := true } := by
  simp only [step] at hs
  split at hs
  · cases hs
  next th hth =>
  cases hs
  exact ⟨th, hth, rfl⟩

/-- What a wait can come to: an answer at once, a place to wait at, or the code of a dead child. -/
inductive Waited (s : System) (pid : Pid) (tid : Tid) : System → Prop where
  | answered (vals : List Int) : Waited s pid tid (s.publish tid vals)
  | parkedAny (parent : Process) (hparent : s.processes.get pid = some parent) :
      Waited s pid tid (s.setProcess pid { parent with anyChildWaiter := some tid })
  | parked (target : Pid) (proc : Process) (hproc : s.processes.get target = some proc) :
      Waited s pid tid (s.setProcess target { proc with exitWaiter := some tid })
  | taken (parent : Process) (child : Pid) (st : Wait.Status) (vals : List Int)
      (hparent : s.processes.get pid = some parent)
      (hchild : parent.deadChildren.get child = some st) :
      Waited s pid tid (((s.setProcess pid { parent with
        deadChildren := parent.deadChildren.erase child }).publish tid vals).deliver
          st.child st.code)

theorem popFirst_eq {t rest : Table Wait.Status} {child : Pid} {st : Wait.Status}
    (h : Wait.popFirst t = some (child, st, rest)) :
    t.get child = some st ∧ rest = t.erase child := by
  unfold Wait.popFirst at h
  split at h
  · cases h
  next k st' tail hent =>
  cases h
  refine ⟨t.get_eq_some.mpr ?_, rfl⟩
  rw [hent]
  exact .head _

theorem waited (s : System) (pid : Pid) (tid : Tid) (target : Int) :
    Waited s pid tid (s.runWaitPidReq pid tid target) := by
  have child : ∀ target, Waited s pid tid (s.waitForChild pid tid target) := by
    intro target
    unfold System.waitForChild
    split
    · exact .answered _
    next proc hproc =>
    split
    · exact .answered _
    split
    · exact .answered _
    · exact .parked target proc hproc
  unfold System.runWaitPidReq
  split
  · unfold System.runWaitAnyChild
    split
    · exact .answered _
    next parent hparent =>
    split
    · next dead st rest hpop =>
      obtain ⟨hst, rfl⟩ := popFirst_eq hpop
      exact .taken parent dead st _ hparent hst
    split
    · exact .answered _
    split
    · exact .answered _
    · exact .parkedAny parent hparent
  split
  · exact child _
  next parent hparent =>
  split
  · next st hst => exact .taken parent _ st _ hparent hst
  · exact child _

/-! The cleanup pass. -/

@[simp] theorem Sweep.close_system (w : Sweep) (pid : Pid) (proc : Process) :
    (w.close pid proc).system = w.system := by
  unfold close
  split <;> rfl

/-- A turn of the first loop takes a dead thread out of its process, or does nothing. -/
theorem Sweep.visit_system (w : Sweep) (e : Tid × Thread) : (w.visit e).system = w.system ∨
      ∃ proc, w.system.processes.get e.2.pid = some proc ∧
        (w.visit e).system = w.system.setProcess e.2.pid (proc.reap e.1 e.2) := by
  unfold visit
  split
  · exact .inl rfl
  next proc hproc =>
  split
  · exact .inr ⟨proc, hproc, close_system ..⟩
  · exact .inl (close_system ..)

section Invariant

variable {I : System → Prop}

/-- The first loop, by induction on the entries: no turn touches the registry. -/
theorem sweep_invariant (reaped : ∀ s tid th proc, I s → s.registry.get tid = some th →
      s.processes.get th.pid = some proc → I (s.setProcess th.pid (proc.reap tid th)))
    (hs : I s) : I s.sweep.system := by
  have hrun : ∀ (l : List (Tid × Thread)) (w : Sweep), I w.system →
      (∀ e ∈ l, w.system.registry.get e.1 = some e.2) → I (l.foldl Sweep.visit w).system := by
    intro l
    induction l with
    | nil =>
      intro w hw _
      exact hw
    | cons e rest ih =>
      intro w hw hreg
      rcases w.visit_system e with hsame | ⟨proc, hproc, hturn⟩
      · apply ih
        · rw [hsame]
          exact hw
        intro e' he'
        rw [hsame]
        exact hreg e' (.tail _ he')
      apply ih
      · rw [hturn]
        exact reaped _ e.1 e.2 proc hw (hreg e (.head _)) hproc
      intro e' he'
      rw [hturn]
      exact hreg e' (.tail _ he')
  exact hrun _ _ hs fun e he => s.registry.get_eq_some.mpr he

/-- What each of its three parts keeps, a cleanup pass keeps. -/
theorem cleanup_invariant (reaped : ∀ s tid th proc, I s → s.registry.get tid = some th →
      s.processes.get th.pid = some proc → I (s.setProcess th.pid (proc.reap tid th)))
    (unregistered : ∀ s tid, I s → I { s with registry := s.registry.erase tid })
    (removed : ∀ s pid proc s', I s → s.processes.get pid = some proc →
      HandedOver { s with processes := s.processes.erase pid } pid proc s' → I s')
    (hs : I s) (hrun : s.cleanup = some s') : I s' := by
  simp only [System.cleanup, Option.bind_eq_bind, Option.bind_eq_some_iff] at hrun
  obtain ⟨mid, hmid, hend⟩ := hrun
  have hI : I mid := by
    apply Transition.foldlM_invariant _ _ (sweep_invariant reaped hs) hmid
    intro s tid s' hs hstep
    unfold System.unregister at hstep
    split at hstep
    · cases hstep
    · cases hstep
      exact unregistered s tid hs
  apply Transition.foldlM_invariant _ _ hI hend
  intro s pid s' hs hstep
  unfold System.removeProcess at hstep
  split at hstep
  · cases hstep
  next proc hproc =>
  cases hstep
  exact removed s pid proc _ hs hproc (handedOver _ pid proc)

end Invariant

end Orbit.Proc
