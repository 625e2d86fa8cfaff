import Orbit.Sched.Kill

/-!
Exit of a whole process. `request_exit_group` marks the process, kills the threads it
finds in it and returns; the leader exits on its own. A request for a new thread that
is still queued behind the exit, or issued while it is under way, is served as usual and
adds a live thread to the process. Without such requests the process is closed: no
thread joins it, all but the leader are Exited, and the cleanup that reaps the leader
removes the process.
-/

namespace Orbit.Sched

open Transition Function State

variable {rest : List Tid} {pc : MgrPc} {h : Nat} {th : Thread} {trap : Trap} {w : Work}

variable {s s' : State} {a : Action} {t : Tid} {p : Pid} {l : Tid}

/-- The process a request asks for a new thread in. -/
def Work.asks : Work → Option Pid
  | .createThread _ _ pid .. => some pid
  | _ => none

def MgrPc.inCleanup : MgrPc → Prop
  | .cleanup .. | .claimExited .. | .reapThreads .. | .reapProcs .. => True
  | _ => False

namespace State

/-- The process exists and its exit has not begun. -/
def live (s : State) (p : Pid) : Bool :=
  match s.procs p with
  | some proc => !proc.exitFinalized
  | none => false

/-- The process whose exit a step takes up. -/
def takesExit (s : State) : Action → Option Pid
  | .manager _ => s.mgr.bind fun m => match m.pc, s.work with
    | .work, .exitGroup p _ _ :: _ => some p
    | _, _ => none
  | _ => none

/-- The process a step asks for a new thread in. -/
def asksThread (s : State) : Action → Option Pid
  | .hart h (.createThread ..) => match (s.harts h).pc with
    | .running t => some (s.threads t).pid
    | _ => none
  | _ => none

/-- `request_exit_group` of `p` with leader `l` has returned or is killing. -/
def begun (s : State) (p : Pid) (l : Tid) : Prop :=
  (p, l) ∈ s.groups ∨ ∃ m rest, s.mgr = some m ∧ m.pc = .kill p l rest

end State

/-- When a process exit is taken up, no request for a thread in it is queued, and a
thread is asked for only in a process whose exit has not begun. -/
def ExitClear (s : State) (a : Action) : Prop :=
  (∀ p, s.takesExit a = some p → ∀ w ∈ s.work, w.asks ≠ some p) ∧
    ∀ p, s.asksThread a = some p → s.live p = true

instance (s : State) (a : Action) : Decidable (ExitClear s a) :=
  have : Decidable (∀ p, s.takesExit a = some p → ∀ w ∈ s.work, w.asks ≠ some p) :=
    match h : s.takesExit a with
    | none => isTrue fun _ h' => by cases h'
    | some p =>
      if hw : ∀ w ∈ s.work, w.asks ≠ some p then isTrue fun _ h' => by cases h'; exact hw
      else isFalse fun hs => hw (hs p rfl)
  have : Decidable (∀ p, s.asksThread a = some p → s.live p = true) :=
    match h : s.asksThread a with
    | none => isTrue fun _ h' => by cases h'
    | some p =>
      if hl : s.live p = true then isTrue fun _ h' => by cases h'; exact hl
      else isFalse fun hs => hl (hs p rfl)
  inferInstanceAs (Decidable (_ ∧ _))

section Steps

variable {m : Mgr}

theorem ThreadEffect.pid {th th' : Thread} (eff : ThreadEffect s a t th th') (ht : t ≠ s.nextTid) :
    th'.pid = th.pid := by
  cases eff with
  | alike hl => exact hl.pid
  | store _ _ he => rw [he]; rfl
  | empty _ he => rw [he]; rfl
  | copy _ _ _ _ he => rw [he]; rfl
  | publish _ _ _ _ _ _ he => rw [he]; rfl
  | save _ _ _ _ _ hpid => exact hpid
  | fresh he => exact absurd he ht

theorem live_setProc {q : Pid} {proc proc' : Proc} (hproc : s.procs q = some proc)
    (hfin : proc.exitFinalized = true → proc'.exitFinalized = true) (hlive : s.live p = false) :
    (s.setProc q (some proc')).live p = false := by
  by_cases hq : p = q
  · subst hq
    simp only [State.live, hproc, Bool.not_eq_false'] at hlive
    simp [State.live, setProc, hfin hlive]
  · simpa [State.live, setProc, hq] using hlive

/-- A process whose exit has begun stays so. -/
theorem MgrEdge.live (edge : MgrEdge s m s') (hlive : s.live p = false) : s'.live p = false := by
  cases edge with
  | cleanupExited _ _ _ _ _ _ hproc | claimExited _ _ _ _ _ _ _ hproc
  | exitGroup _ _ _ _ _ _ _ hproc => exact live_setProc hproc (by simp) hlive
  | removeProc q =>
    by_cases hq : p = q
    · simp [State.live, State.goto, setProc, hq]
    · simpa [State.live, State.goto, setProc, hq] using hlive
  | spawn _ _ pid _ _ _ rest proc _ _ _ _ hproc =>
    show (s.setProc pid (some { proc with threads := proc.threads ++ [s.nextTid] })).live p = false
    exact live_setProc hproc (by simp) hlive
  | _ => exact hlive

theorem MgrEdge.registry (edge : MgrEdge s m s') (ht : t ∈ s'.registry) :
    t ∈ s.registry ∨ ∃ w ∈ s.work, w.asks = some (s'.threads t).pid := by
  cases edge with
  | reap u => exact .inl (List.mem_of_mem_erase ht)
  | spawn u q pid _ _ _ rest proc th pc _ hwork _ hth =>
    rcases List.mem_append.mp ht with ht | ht
    · exact .inl ht
    cases List.mem_singleton.mp ht
    obtain ⟨allowed, affinity, frame, rfl⟩ := hth
    refine .inr ⟨_, by rw [hwork]; exact .head _, ?_⟩
    simp [Work.asks, State.goto, admitThread, Thread.new]
  | _ => exact .inl ht

/-- An exit group is recorded when its kills are done. -/
theorem MgrEdge.groups (edge : MgrEdge s m s') (hg : (p, l) ∈ s'.groups) :
    (p, l) ∈ s.groups ∨ m.pc = .kill p l [] ∧ s'.threads = s.threads ∧ s'.registry = s.registry ∧
      s'.mgr = some { m with pc := .work } := by
  cases edge with
  | killDone pid leader hpc =>
    rcases List.mem_cons.mp hg with he | hg
    · cases he
      exact .inr ⟨hpc, rfl, rfl, rfl⟩
    · exact .inl hg
  | _ => exact .inl hg

theorem MgrGoto.kills {self : Nat}
    (move : MgrGoto s self pc (.kill p l rest)) : ∃ u, pc = .kill p l (u :: rest) ∧
      u ∉ s.registry := by
  generalize hpc' : MgrPc.kill p l rest = pc' at move
  cases move with
  | killSkip pid leader u rest' hu =>
    cases hpc'
    exact ⟨u, rfl, hu⟩
  | scanDone k =>
    rcases hk : k.caller with _ | ⟨_ | _⟩ <;> simp [hk, ScanCaller.pc] at hpc'
  | nudgeSkip n => cases n <;> cases hpc'
  | claimMiss _ _ a | takeNone _ a => cases a <;> cases hpc'
  | _ => cases hpc'

theorem MgrWrite.kills {u : Tid}
    (move : MgrWrite s pc u th (.kill p l rest)) :
    pc = .kill p l (u :: rest) ∧ th.state = .exited := by
  generalize hpc' : MgrPc.kill p l rest = pc' at move
  cases move with
  | kill pid leader u rest' =>
    cases hpc'
    exact ⟨rfl, rfl⟩
  | scanNote u st seen k =>
    unfold scanVerb at hpc'
    split at hpc'
    · cases hpc'
    · split at hpc' <;> cases hpc'
  | _ => cases hpc'

/-- The kills go on, or the exit has just been taken up. -/
theorem MgrEdge.kills {m' : Mgr} (edge : MgrEdge s m s') (hm' : s'.mgr = some m')
    (hpc' : m'.pc = .kill p l rest) :
    (∃ u, m.pc = .kill p l (u :: rest) ∧ (u ∉ s'.registry ∨ (s'.threads u).state = .exited)) ∨
    ∃ proc code work, m.pc = .work ∧ s.work = .exitGroup p l code :: work ∧ s'.work = work ∧
      s.procs p = some proc ∧ rest = proc.threads.filter (fun t => t ≠ l) ∧
      s'.registry = s.registry ∧ s'.threads = s.threads ∧ s'.live p = false := by
  cases edge with
  | goto pc move =>
    cases hm'
    cases hpc'
    obtain ⟨u, hpc, hu⟩ := move.kills
    exact .inl ⟨u, hpc, Or.inl hu⟩
  | write u th pc move =>
    cases hm'
    cases hpc'
    obtain ⟨hpc, hst⟩ := move.kills
    exact .inl ⟨u, hpc, Or.inr (by simpa [State.goto, setThread] using hst)⟩
  | exitGroup pid leader code work proc hpc hwork hproc =>
    cases hm'
    cases hpc'
    refine .inr ⟨proc, code, work, hpc, hwork, rfl, hproc, rfl, rfl, rfl, ?_⟩
    simp [State.live, State.goto, setProc]
  | answer _ _ _ _ _ _ hans | serve _ _ _ _ _ _ hans | spawnFails _ _ _ _ _ _ _ _ _ _ hans
  | spawn _ _ _ _ _ _ _ _ _ _ _ _ _ _ hans =>
    cases hm'
    rcases hans with rfl | ⟨rfl, -⟩ | ⟨rfl, -⟩ <;> cases hpc'
  | popWake _ _ _ _ _ hnext =>
    cases hm'
    rcases hnext with ⟨k, -, rfl⟩ | ⟨-, rfl⟩ <;> cases hpc'
  | pushReady _ a =>
    cases hm'
    cases a <;> cases hpc'
  | release => cases hm'
  | _ =>
    cases hm'
    cases hpc'

/-- A load of a cleanup passes over a thread only if it is alive or without process. -/
theorem MgrGoto.sweeps {self : Nat} {pc pc' : MgrPc} (move : MgrGoto s self pc pc')
    (hin : pc'.inCleanup) : pc.inCleanup ∧ ∀ t ∈ pc.reaping.todo, t ∈ pc'.reaping.todo ∨
      s.procs (s.threads t).pid = none ∨ (s.threads t).state ≠ .exited := by
  cases move with
  | cleanupOrphan u todo tids pids hproc =>
    refine ⟨trivial, fun t ht => ?_⟩
    rcases List.mem_cons.mp ht with rfl | ht
    · exact .inr (.inl hproc)
    · exact .inl ht
  | cleanupLive u todo tids pids proc _ hst =>
    refine ⟨trivial, fun t ht => ?_⟩
    rcases List.mem_cons.mp ht with rfl | ht
    · exact .inr (.inr hst)
    · exact .inl ht
  | cleanupDone | claimOrphan | reapDone => exact ⟨trivial, fun t ht => Or.inl ht⟩
  | scanDone k =>
    rcases hk : k.caller with _ | ⟨_ | _⟩ <;> simp [hk, ScanCaller.pc, MgrPc.inCleanup] at hin
  | nudgeSkip n => cases n <;> cases hin
  | claimMiss _ _ a | takeNone _ a => cases a <;> cases hin
  | _ => cases hin

theorem MgrWrite.outside {u : Tid} {pc pc' : MgrPc} (move : MgrWrite s pc u th pc') :
    ¬ pc'.inCleanup := by
  cases move with
  | scanNote _ st seen k =>
    unfold scanVerb
    split
    · exact id
    · split <;> exact id
  | _ => exact id

theorem issue_asks {frame : Nat → Int} {mk : Nat → Work}
    (hs : issue s h t frame mk = some s') (hw : w ∈ s'.work) : w ∈ s.work ∨ ∃ c, w = mk c := by
  unfold issue at hs
  split at hs <;> cases hs
  · rcases List.mem_append.mp hw with hw | hw
    · exact .inl hw
    · exact .inr ⟨_, List.mem_singleton.mp hw⟩
  · exact .inl hw

theorem trapStep_asks (hpc : (s.harts h).pc = .running t)
    (hs : trapStep s h t trap = some s') (hw : w ∈ s'.work) (hp : w.asks = some p) :
    w ∈ s.work ∨ s.asksThread (.hart h trap) = some p := by
  cases trap with
  | call frame =>
    rcases issue_asks hs hw with hw | ⟨c, rfl⟩
    · exact .inl hw
    · cases hp
  | createThread frame allowed affinity =>
    simp only [trapStep] at hs
    rcases issue_asks hs hw with hw | ⟨c, rfl⟩
    · exact .inl hw
    · exact .inr (by simpa [State.asksThread, hpc, Work.asks] using hp)
  | exit frame =>
    simp only [trapStep] at hs
    split at hs <;> cases hs
    rcases List.mem_append.mp hw with hw | hw
    · exact .inl hw
    · cases List.mem_singleton.mp hw
      cases hp
  | _ =>
    cases hs
    exact .inl hw

/-- A hart queues a request for a thread only on behalf of the process it runs. -/
theorem hartStep_asks (hs : hartStep s h trap = some s') (hw : w ∈ s'.work) (hp : w.asks = some p) :
    w ∈ s.work ∨ s.asksThread (.hart h trap) = some p := by
  by_cases hrun : ∃ t, (s.harts h).pc = .running t
  · obtain ⟨t, hpc⟩ := hrun
    simp only [hartStep, hpc, deref] at hs
    split at hs
    · cases hs
      exact .inl hw
    · exact trapStep_asks hpc hs hw hp
  rcases hartStep_outcome hs with
    ⟨u, hart, th, ws, ns, move⟩ | ⟨_, _, _, rfl, _⟩ | ⟨_, _, _, rfl⟩
  · have hws : ws = [] := by
      cases move.edge with
      | issue hpc | exit hpc => exact absurd ⟨u, hpc⟩ hrun
      | _ => rfl
    rw [move.eq, hws] at hw
    exact .inl (by simpa using hw)
  · exact .inl hw
  · exact .inl hw

/-- A thread joins the registry only when a queued request asks for it. -/
theorem step_registry (hs : step s a = some s') (ht : t ∈ s'.registry) :
    t ∈ s.registry ∨ ∃ w ∈ s.work, w.asks = some (s'.threads t).pid := by
  cases step_outcome hs with
  | hart h trap _ _ hmove =>
    rcases hartStep_outcome hmove with
      ⟨u, hart, th, ws, ns, move⟩ | ⟨_, _, _, rfl, _⟩ | ⟨_, _, _, rfl⟩
    · exact .inl (move.registry ▸ ht)
    · exact .inl ht
    · exact .inl ht
  | manager c m hm hmove =>
    rcases mgrStep_outcome hmove with ⟨edge⟩ | ⟨_, _, _, rfl, _⟩ | ⟨_, _, rfl, _⟩
    · exact edge.registry ht
    · exact .inl ht
    · exact .inl ht
  | lock h _ _ _ he =>
    subst he
    exact .inl ht
  | wake ev queue _ he =>
    subst he
    exact .inl ht

end Steps

/-- What is known of the processes whose exit has begun. -/
structure Closing (s : State) : Prop where
  closed : ∀ p l, s.begun p l → s.live p = false ∧ ∀ w ∈ s.work, w.asks ≠ some p
  dead : ∀ p l, (p, l) ∈ s.groups → ∀ t ∈ s.registry, (s.threads t).pid = p → t ≠ l →
    (s.threads t).state = .exited
  killing : ∀ m p l rest, s.mgr = some m → m.pc = .kill p l rest → ∀ t ∈ s.registry,
    (s.threads t).pid = p → t ≠ l → t ∈ rest ∨ (s.threads t).state = .exited
  swept : ∀ m p l proc, s.mgr = some m → m.pc.inCleanup → (p, l) ∈ s.groups →
    s.procs p = some proc → ∀ t ∈ proc.threads, t ≠ l → t ∈ m.pc.reaping.todo

namespace Closing

variable (inv : Inv s) (ros : Roster s s.reaping) (clo : Closing s)

include inv ros

theorem exited_keep (hs : step s a = some s') (ht : t ∈ s.registry)
    (hst : (s.threads t).state = .exited) : (s'.threads t).state = .exited :=
  inv.exited_step hs (ros.below t ht) hst

omit inv in
theorem pid_keep (hs : step s a = some s') (ht : t ∈ s.registry) :
    (s'.threads t).pid = (s.threads t).pid :=
  (step_thread hs t).pid (Nat.ne_of_lt (ros.below t ht))

include clo

theorem hart_step (hclear : ExitClear s (.hart h trap))
    (hs : step s (.hart h trap) = some s') (hmove : hartStep s h trap = some s') : Closing s' := by
  have hsame : s'.groups = s.groups ∧ s'.mgr = s.mgr ∧ s'.registry = s.registry ∧
      s'.procs = s.procs := by
    rcases hartStep_outcome hmove with
      ⟨u, hart, th, ws, ns, move⟩ | ⟨_, _, _, rfl, _⟩ | ⟨_, _, _, rfl⟩
    · rw [move.eq]
      exact ⟨rfl, rfl, rfl, rfl⟩
    · exact ⟨rfl, rfl, rfl, rfl⟩
    · exact ⟨rfl, rfl, rfl, rfl⟩
  obtain ⟨hgroups, hm, hreg, hprocs⟩ := hsame
  refine ⟨?_, ?_, ?_, ?_⟩
  · intro p l hbegun
    obtain ⟨hlive, hwork⟩ := clo.closed p l (by simpa only [State.begun, hgroups, hm] using hbegun)
    refine ⟨by simpa only [State.live, hprocs] using hlive, fun w hw hp => ?_⟩
    rcases hartStep_asks hmove hw hp with hw | hasks
    · exact hwork w hw hp
    · simp [hclear.2 p hasks] at hlive
  · intro p l hg t ht hpid hne
    rw [hgroups] at hg
    rw [hreg] at ht
    exact exited_keep inv ros hs ht
      (clo.dead p l hg t ht ((pid_keep ros hs ht).symm.trans hpid) hne)
  · intro m p l rest hm' hpc t ht hpid hne
    rw [hm] at hm'
    rw [hreg] at ht
    exact (clo.killing m p l rest hm' hpc t ht ((pid_keep ros hs ht).symm.trans hpid) hne).imp_right
      (exited_keep inv ros hs ht)
  · intro m p l proc hm' hin hg hproc
    exact clo.swept m p l proc (hm ▸ hm') hin (hgroups ▸ hg) (hprocs ▸ hproc)

omit inv in
/-- A cleanup goes on over what is left of the process. -/
theorem sweep {m m' : Mgr} {proc : Proc} (hm : s.mgr = some m) (edge : MgrEdge s m s')
    (hm' : s'.mgr = some m') (hin : m'.pc.inCleanup) (hg : (p, l) ∈ s.groups)
    (hproc : s'.procs p = some proc) (ht : t ∈ proc.threads) (hne : t ≠ l) :
    t ∈ m'.pc.reaping.todo := by
  have ros : Roster s m.pc.reaping := by simpa [reaping, hm] using ros
  have old : ∀ {proc'}, m.pc.inCleanup → s.procs p = some proc' → t ∈ proc'.threads →
      t ∈ m.pc.reaping.todo := fun hin hproc ht => clo.swept m p l _ hm hin hg hproc t ht hne
  cases edge with
  | goto pc move =>
    cases hm'
    obtain ⟨hin, hnext⟩ := move.sweeps hin
    obtain ⟨hreg, hpid, -⟩ := (ros.members p proc hproc).2 t ht
    rcases hnext t (old hin hproc ht) with hmem | hnone | hlive
    · exact hmem
    · cases (hpid ▸ hnone).symm.trans hproc
    · exact absurd (clo.dead p l hg t hreg hpid hne) hlive
  | cleanupExited u todo tids pids proc' hpc hproc' =>
    cases hm'
    have hin : m.pc.inCleanup := by rw [hpc]; trivial
    by_cases hp : p = (s.threads u).pid
    · simp only [State.goto, setProc, hp, update_self] at hproc
      cases hproc
      obtain ⟨hu, ht⟩ := (List.Nodup.mem_erase_iff (ros.members _ _ hproc').1).mp ht
      have hmem := old hin (hp ▸ hproc') ht
      rw [hpc] at hmem
      exact (List.mem_cons.mp hmem).resolve_left hu
    simp only [State.goto, setProc, update_of_ne hp] at hproc
    have hmem := old hin hproc ht
    rw [hpc] at hmem
    refine (List.mem_cons.mp hmem).resolve_left ?_
    rintro rfl
    exact hp ((ros.members p proc hproc).2 t ht).2.1.symm
  | claimExited u todo tids pids proc' code hpc hproc' =>
    cases hm'
    have hin : m.pc.inCleanup := by rw [hpc]; trivial
    have hmem : t ∈ m.pc.reaping.todo := by
      by_cases hp : p = (s.threads u).pid
      · simp only [State.goto, setProc, hp, update_self] at hproc
        cases hproc
        have hproc'' : s.procs p = some proc' := hp ▸ hproc'
        exact old hin hproc'' ht
      · simp only [State.goto, setProc, update_of_ne hp] at hproc
        exact old hin hproc ht
    rw [hpc] at hmem
    exact hmem
  | reap u tids pids hpc =>
    cases hm'
    have hmem := old (by rw [hpc]; trivial) hproc ht
    rw [hpc] at hmem
    exact hmem
  | removeProc q pids proc' hpc =>
    cases hm'
    by_cases hp : p = q
    · simp [State.goto, setProc, hp] at hproc
    simp only [State.goto, setProc, update_of_ne hp] at hproc
    have hmem := old (by rw [hpc]; trivial) hproc ht
    rw [hpc] at hmem
    exact hmem
  | write u th pc move =>
    cases hm'
    exact absurd hin move.outside
  | answer _ _ _ _ _ _ hans | serve _ _ _ _ _ _ hans | spawnFails _ _ _ _ _ _ _ _ _ _ hans
  | spawn _ _ _ _ _ _ _ _ _ _ _ _ _ _ hans =>
    cases hm'
    rcases hans with rfl | ⟨rfl, -⟩ | ⟨rfl, -⟩ <;> cases hin
  | popWake _ _ _ _ _ hnext =>
    cases hm'
    rcases hnext with ⟨k, -, rfl⟩ | ⟨-, rfl⟩ <;> cases hin
  | pushReady _ a =>
    cases hm'
    cases a <;> cases hin
  | release => cases hm'
  | _ =>
    cases hm'
    cases hin

theorem mgr_step {c : Choice} {m : Mgr} (hm : s.mgr = some m) (hclear : ExitClear s (.manager c))
    (hs : step s (.manager c) = some s') (hmove : mgrStep s m c = some s') : Closing s' := by
  rcases mgrStep_outcome hmove with ⟨edge⟩ | ⟨_, _, _, rfl, _⟩ | ⟨_, _, rfl, _⟩
  · -- no thread joins a process whose exit has begun
    have joined : ∀ {p l t}, s.begun p l → t ∈ s'.registry → (s'.threads t).pid = p →
        t ∈ s.registry ∧ (s.threads t).pid = p := by
      intro p l t hbegun ht hpid
      rcases edge.registry ht with ht | ⟨w, hw, hasks⟩
      · exact ⟨ht, (pid_keep ros hs ht).symm.trans hpid⟩
      · exact absurd (hpid ▸ hasks) ((clo.closed p l hbegun).2 w hw)
    refine ⟨?_, ?_, ?_, ?_⟩
    · intro p l hbegun
      by_cases hold : s.begun p l
      · obtain ⟨hlive, hwork⟩ := clo.closed p l hold
        exact ⟨edge.live hlive, fun w hw => hwork w (edge.work hw)⟩
      rcases hbegun with hg | ⟨m', rest, hm', hpc'⟩
      · rcases edge.groups hg with hg | ⟨hpc, -⟩
        · exact absurd (.inl hg) hold
        · exact absurd (.inr ⟨m, [], hm, hpc⟩) hold
      rcases edge.kills hm' hpc' with ⟨u, hpc, -⟩ |
        ⟨proc, code, work, hpc, hwork, hw', -, -, -, -, hl⟩
      · exact absurd (.inr ⟨m, _, hm, hpc⟩) hold
      refine ⟨hl, fun w hw => ?_⟩
      refine hclear.1 p (by simp [State.takesExit, hm, hpc, hwork]) w ?_
      rw [hwork]
      exact .tail _ (hw' ▸ hw)
    · intro p l hg t ht hpid hne
      rcases edge.groups hg with hg | ⟨hpc, hthreads, hreg, -⟩
      · obtain ⟨ht, hpid⟩ := joined (.inl hg) ht hpid
        exact exited_keep inv ros hs ht (clo.dead p l hg t ht hpid hne)
      rw [hthreads] at hpid ⊢
      rw [hreg] at ht
      exact (clo.killing m p l [] hm hpc t ht hpid hne).resolve_left (by simp)
    · intro m' p l rest hm' hpc' t ht hpid hne
      rcases edge.kills hm' hpc' with
        ⟨u, hpc, hu⟩ | ⟨proc, code, work, hpc, -, -, hproc, hrest, hreg, hthreads, -⟩
      · obtain ⟨ht₀, hpid⟩ := joined (.inr ⟨m, _, hm, hpc⟩) ht hpid
        rcases clo.killing m p l _ hm hpc t ht₀ hpid hne with hmem | hst
        · rcases List.mem_cons.mp hmem with rfl | hmem
          · exact .inr (hu.resolve_left (not_not.mpr ht))
          · exact .inl hmem
        · exact .inr (exited_keep inv ros hs ht₀ hst)
      have ros : Roster s m.pc.reaping := by simpa [reaping, hm] using ros
      rw [hthreads] at hpid
      rw [hreg] at ht
      obtain ⟨proc', hproc', hmem⟩ := ros.home t ht (by simp [hpc, MgrPc.reaping, Reaping.idle])
      rw [hpid] at hproc'
      cases hproc.symm.trans hproc'
      exact .inl (by simp [hrest, hmem, hne])
    intro m' p l proc hm' hin hg hproc t ht hne
    rcases edge.groups hg with hg | ⟨-, -, -, hwork⟩
    · exact clo.sweep ros hm edge hm' hin hg hproc ht hne
    · cases hwork.symm.trans hm'
      cases hin
  · exact { clo with }
  · exact { clo with }

theorem preserved (hclear : ExitClear s a) (hs : step s a = some s') : Closing s' := by
  cases step_outcome hs with
  | hart h trap _ _ hmove => exact clo.hart_step inv ros hclear hs hmove
  | manager c m hm hmove => exact clo.mgr_step inv ros hm hclear hs hmove
  | lock h _ hm _ he =>
    subst he
    have ros : Roster s .idle := by simpa [reaping, hm] using ros
    refine ⟨?_, clo.dead, ?_, ?_⟩
    · rintro p l (hg | ⟨m, rest, hm', hpc⟩)
      · exact clo.closed p l (.inl hg)
      · cases hm'
        cases hpc
    · intro m p l rest hm' hpc
      cases hm'
      cases hpc
    intro m p l proc hm' _ _ hproc t ht _
    cases hm'
    exact ((ros.members p proc hproc).2 t ht).1
  | wake ev queue _ he =>
    subst he
    exact { clo with }

end Closing

theorem Boot.closing (boot : Boot s) : Closing s := by
  refine ⟨?_, ?_, ?_, ?_⟩
  · rintro p l (hg | ⟨m, rest, hm, -⟩)
    · simp [boot.groups] at hg
    · simp [boot.mgr] at hm
  · intro p l hg
    simp [boot.groups] at hg
  · intro m p l rest hm
    simp [boot.mgr] at hm
  · intro m p l proc hm
    simp [boot.mgr] at hm

/-- The condition under which a process exit is complete. -/
def ExitGuard (s : State) (a : Action) : Prop := Settled s a ∧ KillClear s a ∧ ExitClear s a

instance (s : State) (a : Action) : Decidable (ExitGuard s a) :=
  inferInstanceAs (Decidable (_ ∧ _))

theorem reach_closing (run : Reach step ExitGuard Boot s) :
    (Inv s ∧ Roster s s.reaping) ∧ Closing s := by
  have known : ∀ s, Reach step ExitGuard Boot s → Inv s ∧ Roster s s.reaping := fun s run =>
    ⟨reach_inv (fun _ _ hg => ⟨hg.1, hg.2.1⟩) run, reach_roster run⟩
  refine ⟨known s run, run.invariant_of known (fun _ => Boot.closing) ?_⟩
  intro s a s' hknown clo hguard hs
  exact clo.preserved hknown.1 hknown.2 hguard.2.2 hs

/-- In every run under `ExitGuard`, once `request_exit_group` of `p` with leader `l` has
returned: no step adds a thread to the process, every thread of it other than the leader
is Exited, and a cleanup that has reaped the leader ends with the process removed. -/
theorem exit_group_complete (run : Reach step ExitGuard Boot s) (hg : (p, l) ∈ s.groups) :
    (∀ a s', step s a = some s' → ∀ t ∈ s'.registry, (s'.threads t).pid = p → t ∈ s.registry) ∧
    (∀ t ∈ s.registry, (s.threads t).pid = p → t ≠ l → (s.threads t).state = .exited) ∧
    ∀ m, s.mgr = some m → m.pc = .reapProcs [] → p ≠ 0 → l ∉ s.registry → s.procs p = none := by
  obtain ⟨⟨inv, ros⟩, clo⟩ := reach_closing run
  refine ⟨?_, clo.dead p l hg, ?_⟩
  · intro a s' hs t ht hpid
    rcases step_registry hs ht with ht | ⟨w, hw, hasks⟩
    · exact ht
    · exact absurd (hpid ▸ hasks) ((clo.closed p l (.inl hg)).2 w hw)
  intro m hm hpc hp0 hl
  have ros : Roster s (MgrPc.reapProcs []).reaping := by simpa [reaping, hm, hpc] using ros
  cases hproc : s.procs p with
  | none => rfl
  | some proc =>
    have hnil : proc.threads = [] := by
      refine List.eq_nil_iff_forall_not_mem.mpr fun t ht => ?_
      by_cases hne : t = l
      · subst hne
        exact hl ((ros.members p proc hproc).2 t ht).1
      have := clo.swept m p l proc hm (by rw [hpc]; trivial) hg hproc t ht hne
      rw [hpc] at this
      cases this
    rcases ros.empty p proc hproc hnil hp0 with hmem | ⟨u, hu, -⟩
    · cases hmem
    · cases hu

/-- Both threads of a process are through with their exit when the next cleanup runs. -/
def exitGroupRun : List Action :=
  killOn0 (accesses 0 4) ++ ticks 5 ++ [.manager (.clock 0)] ++ ticks 10 ++ accesses 1 4 ++
  accesses 0 5 ++ [.lock 2] ++ ticks 9

/-- No process is left to remove. -/
def Mgr.cleaned : Mgr → Bool
  | ⟨_, .reapProcs []⟩ => true
  | _ => false

theorem exit_group_complete_two_threads : ∃ s, Reach step ExitGuard Boot s ∧ (1, 1) ∈ s.groups ∧
    1 ∉ s.registry ∧ s.procs 1 = none := by
  have hboot : Reach step ExitGuard Boot (startState 3 [1, 1]) :=
    .start (startState_boot 3 [1, 1])
  obtain ⟨s, run, hg, hl, hm⟩ := hboot.exists_of_exec exitGroupRun
    (fun s : State => (1, 1) ∈ s.groups ∧ 1 ∉ s.registry ∧ s.mgr.map Mgr.cleaned = some true)
    (by decide +kernel)
  obtain ⟨m, hm, hpc⟩ := Option.map_eq_some_iff.mp hm
  unfold Mgr.cleaned at hpc
  split at hpc
  · exact ⟨s, run, hg, hl, (exit_group_complete run hg).2.2 _ hm rfl (by decide) hl⟩
  · cases hpc

/-- A sibling asks for a thread while the exit is queued. The request is served after
`request_exit_group` has returned and adds a Ready thread to the process. -/
theorem queued_create_outlives_exit_group : ∃ s a s',
    Reach step (fun s a => Settled s a ∧ KillClear s a) Boot s ∧ (1, 1) ∈ s.groups ∧
      step s a = some s' ∧ 2 ∉ s.registry ∧ 2 ∈ s'.registry ∧ (s'.threads 2).pid = 1 ∧
      (s'.threads 2).state = .ready := by
  have hboot : Reach step (fun s a => Settled s a ∧ KillClear s a) Boot (startState 3 [1, 1]) :=
    .start (startState_boot 3 [1, 1])
  obtain ⟨s, run, hg, hreg, hnext⟩ := hboot.exists_of_exec
    (killOn0 (accesses 0 4 ++ [.hart 0 (.createThread (fun _ => 0) 0 0)]) ++ ticks 1)
    (fun s : State => (1, 1) ∈ s.groups ∧ 2 ∉ s.registry ∧
      (step s (.manager (.spawn true fun _ => 0))).map (fun s' =>
        (decide (2 ∈ s'.registry), (s'.threads 2).pid, (s'.threads 2).state)) =
          some (true, 1, .ready)) (by decide +kernel)
  obtain ⟨s', hs, hafter⟩ := Option.map_eq_some_iff.mp hnext
  simp only [Prod.mk.injEq, decide_eq_true_eq] at hafter
  exact ⟨s, _, s', run, hg, hs, hreg, hafter⟩

end Orbit.Sched
