import Orbit.Sched.Effects
import Orbit.Sched.Reachable

/-!
The registry and the processes' thread sets agree with each other in every state, also
in the middle of a cleanup, where a thread that was seen to be Exited has left its
process and still has to be unregistered. No kill or park matters here: the reaper's
two own assertions never fail.
-/

namespace Orbit.Sched

open Transition Function State

variable {p : Pid} {guard : State → Action → Prop} {st : ThreadState}

variable {pids : List Pid} {tids todo : List Tid} {proc : Proc}

variable {s s' : State} {a : Action} {t : Tid} {h : Nat}

/-- A cleanup under way: threads to visit, threads and processes to remove, and the
thread whose exit code is being read. -/
structure Reaping where
  todo : List Tid
  tids : List Tid
  pids : List Pid
  claimed : Option Tid

def Reaping.idle : Reaping := ⟨[], [], [], none⟩

def MgrPc.reaping : MgrPc → Reaping
  | .cleanup todo tids pids => ⟨todo, tids, pids, none⟩
  | .claimExited t todo tids pids => ⟨todo, tids, pids, some t⟩
  | .reapThreads tids pids => ⟨[], tids, pids, none⟩
  | .reapProcs pids => ⟨[], [], pids, none⟩
  | _ => .idle

def State.reaping (s : State) : Reaping := (s.mgr.map fun m => m.pc.reaping).getD .idle

structure Roster (s : State) (r : Reaping) : Prop where
  nodup : s.registry.Nodup
  below : ∀ t ∈ s.registry, t < s.nextTid
  home : ∀ t ∈ s.registry, t ∉ r.tids → ∃ proc, s.procs (s.threads t).pid = some proc ∧
    t ∈ proc.threads
  members : ∀ p proc, s.procs p = some proc → proc.threads.Nodup ∧
    ∀ t ∈ proc.threads, t ∈ s.registry ∧ (s.threads t).pid = p ∧ t ∉ r.tids
  todo : r.todo.Nodup ∧ ∀ t ∈ r.todo, t ∈ s.registry ∧ t ∉ r.tids
  tids : r.tids.Nodup ∧ ∀ t ∈ r.tids, t ∈ s.registry
  pids : r.pids.Nodup ∧ ∀ p ∈ r.pids, ∃ proc, s.procs p = some proc ∧ proc.threads = []
  claimed : ∀ t, r.claimed = some t → (s.threads t).pid ∉ r.pids
  /-- only process 0 outlives its threads -/
  empty : ∀ p proc, s.procs p = some proc → proc.threads = [] → p ≠ 0 →
    p ∈ r.pids ∨ ∃ t, r.claimed = some t ∧ (s.threads t).pid = p

namespace Roster

variable {r r' : Reaping}

/-- Only the registry, the processes and the threads' process numbers matter. -/
theorem congr (ros : Roster s r) (hreg : s'.registry = s.registry) (hprocs : s'.procs = s.procs)
    (hnext : s'.nextTid = s.nextTid) (hpid : ∀ t, (s'.threads t).pid = (s.threads t).pid) :
    Roster s' r := by
  constructor
  · rw [hreg]; exact ros.nodup
  · rw [hreg, hnext]; exact ros.below
  · simpa only [hreg, hprocs, hpid] using ros.home
  · simpa only [hreg, hprocs, hpid] using ros.members
  · simpa only [hreg] using ros.todo
  · simpa only [hreg] using ros.tids
  · simpa only [hprocs] using ros.pids
  · simpa only [hpid] using ros.claimed
  · simpa only [hprocs, hpid] using ros.empty

/-- A thread that is still to be visited is in its process. -/
theorem visited (ros : Roster s r) (htodo : r.todo = t :: todo)
    (hproc : s.procs (s.threads t).pid = some proc) : t ∈ proc.threads := by
  have ht := ros.todo.2 t (by simp [htodo])
  obtain ⟨proc', hproc', hmem⟩ := ros.home t ht.1 ht.2
  cases hproc.symm.trans hproc'
  exact hmem

/-- A visit that changes nothing. -/
theorem skip (ros : Roster s ⟨t :: todo, tids, pids, none⟩) :
    Roster s ⟨todo, tids, pids, none⟩ where
  nodup := ros.nodup
  below := ros.below
  home := ros.home
  members := ros.members
  todo := ⟨(List.nodup_cons.mp ros.todo.1).2, fun u hu => ros.todo.2 u (.tail _ hu)⟩
  tids := ros.tids
  pids := ros.pids
  claimed := ros.claimed
  empty := ros.empty

/-- An Exited thread leaves its process. -/
theorem leave (ros : Roster s ⟨t :: todo, tids, pids, none⟩)
    (hproc : s.procs (s.threads t).pid = some proc) :
    Roster (s.setProc (s.threads t).pid (some { proc with threads := proc.threads.erase t }))
      ⟨todo, tids ++ [t], pids, some t⟩ := by
  have hmem : t ∈ proc.threads := ros.visited rfl hproc
  have ht := ros.todo.2 t (.head _)
  obtain ⟨htodo, hnodup⟩ := List.nodup_cons.mp ros.todo.1
  have hprocs := ros.members _ _ hproc
  -- the process is not listed for removal, because it still has this thread
  have hlisted : (s.threads t).pid ∉ pids := by
    intro hp
    obtain ⟨proc', hproc', hnil⟩ := ros.pids.2 _ hp
    cases hproc.symm.trans hproc'
    simp [hnil] at hmem
  constructor
  · exact ros.nodup
  · exact ros.below
  · intro u hu hnot
    obtain ⟨hut, hne⟩ : u ∉ tids ∧ u ≠ t := by simpa using hnot
    obtain ⟨proc', hproc', hmem'⟩ := ros.home u hu hut
    by_cases hp : (s.threads u).pid = (s.threads t).pid
    · rw [hp] at hproc'
      cases hproc.symm.trans hproc'
      refine ⟨{ proc with threads := proc.threads.erase t }, ?_,
        (List.mem_erase_of_ne hne).mpr hmem'⟩
      simp [setProc, hp]
    · exact ⟨proc', by simpa [setProc, hp] using hproc', hmem'⟩
  · intro p proc' hproc'
    by_cases hp : p = (s.threads t).pid
    · subst hp
      simp only [setProc, update_self] at hproc'
      cases hproc'
      refine ⟨hprocs.1.erase t, fun u hu => ?_⟩
      obtain ⟨hne, hu⟩ := (List.Nodup.mem_erase_iff hprocs.1).mp hu
      obtain ⟨hreg, hpid, hnot⟩ := hprocs.2 u hu
      exact ⟨hreg, hpid, by simpa [hne] using hnot⟩
    simp only [setProc, update_of_ne hp] at hproc'
    refine ⟨(ros.members p proc' hproc').1, fun u hu => ?_⟩
    obtain ⟨hreg, hpid, hnot⟩ := (ros.members p proc' hproc').2 u hu
    have hne : u ≠ t := by
      rintro rfl
      exact hp hpid.symm
    exact ⟨hreg, hpid, by simpa [hne] using hnot⟩
  · refine ⟨hnodup, fun u hu => ?_⟩
    have hne : u ≠ t := fun he => htodo (he ▸ hu)
    obtain ⟨hreg, hnot⟩ := ros.todo.2 u (.tail _ hu)
    exact ⟨hreg, by simpa [hne] using hnot⟩
  · refine ⟨List.nodup_append.mpr ⟨ros.tids.1, List.nodup_singleton t, ?_⟩, fun u hu => ?_⟩
    · rintro u hu v hv rfl
      cases List.mem_singleton.mp hv
      exact ht.2 hu
    rcases List.mem_append.mp hu with hu | hu
    · exact ros.tids.2 u hu
    · cases List.mem_singleton.mp hu
      exact ht.1
  · refine ⟨ros.pids.1, fun p hp => ?_⟩
    have hne : p ≠ (s.threads t).pid := fun he => hlisted (he ▸ hp)
    simpa [setProc, hne] using ros.pids.2 p hp
  · intro u hu
    cases hu
    exact hlisted
  intro p proc' hproc' hnil hp0
  by_cases hp : p = (s.threads t).pid
  · exact .inr ⟨t, rfl, hp.symm⟩
  simp only [setProc, update_of_ne hp] at hproc'
  refine .inl ((ros.empty p proc' hproc' hnil hp0).resolve_right ?_)
  rintro ⟨u, hu, -⟩
  cases hu

/-- The exit code and the exit flag of a process do not matter. -/
theorem restamp {proc proc' : Proc} (ros : Roster s r) (hproc : s.procs p = some proc)
    (hthreads : proc'.threads = proc.threads) : Roster (s.setProc p (some proc')) r := by
  have old : ∀ q x, (s.setProc p (some proc')).procs q = some x →
      ∃ y, s.procs q = some y ∧ y.threads = x.threads := by
    intro q x hq
    by_cases hp : q = p
    · subst hp
      simp only [setProc, update_self, Option.some.injEq] at hq
      exact ⟨proc, hproc, hq ▸ hthreads.symm⟩
    · simp only [setProc, update_of_ne hp] at hq
      exact ⟨x, hq, rfl⟩
  have new : ∀ q y, s.procs q = some y →
      ∃ x, (s.setProc p (some proc')).procs q = some x ∧ x.threads = y.threads := by
    intro q y hq
    by_cases hp : q = p
    · subst hp
      cases hproc.symm.trans hq
      exact ⟨proc', by simp [setProc], hthreads⟩
    · exact ⟨y, by simpa [setProc, hp] using hq, rfl⟩
  constructor
  · exact ros.nodup
  · exact ros.below
  · intro u hu hnot
    obtain ⟨y, hy, hmem⟩ := ros.home u hu hnot
    obtain ⟨x, hx, he⟩ := new _ y hy
    exact ⟨x, hx, he ▸ hmem⟩
  · intro q x hq
    obtain ⟨y, hy, he⟩ := old q x hq
    rw [← he]
    exact ros.members q y hy
  · exact ros.todo
  · exact ros.tids
  · refine ⟨ros.pids.1, fun q hq => ?_⟩
    obtain ⟨y, hy, hnil⟩ := ros.pids.2 q hq
    obtain ⟨x, hx, he⟩ := new _ y hy
    exact ⟨x, hx, he.trans hnil⟩
  · exact ros.claimed
  intro q x hq hnil
  obtain ⟨y, hy, he⟩ := old q x hq
  exact ros.empty q y hy (he.trans hnil)

/-- After the exit code is recorded, a process without threads is listed for removal. -/
theorem relist
    (ros : Roster s ⟨todo, tids, pids, some t⟩) (hproc : s.procs (s.threads t).pid = some proc) :
    Roster s ⟨todo, tids, listProc (s.threads t).pid proc pids, none⟩ := by
  refine { ros with pids := ?_, claimed := ?_, empty := ?_ }
  · unfold listProc
    split
    · exact ros.pids
    next hlist =>
    have hnil : proc.threads = [] := by
      by_contra hne
      exact hlist (.inl hne)
    refine ⟨List.nodup_append.mpr ⟨ros.pids.1, List.nodup_singleton _, ?_⟩, fun p hp => ?_⟩
    · rintro p hp q hq rfl
      cases List.mem_singleton.mp hq
      exact ros.claimed t rfl hp
    rcases List.mem_append.mp hp with hp | hp
    · exact ros.pids.2 p hp
    · cases List.mem_singleton.mp hp
      exact ⟨proc, hproc, hnil⟩
  · intro u hu
    cases hu
  intro p proc' hproc' hnil hp0
  refine .inl ?_
  unfold listProc
  rcases ros.empty p proc' hproc' hnil hp0 with hp | ⟨u, hu, rfl⟩
  · split
    · exact hp
    · exact List.mem_append_left _ hp
  cases hu
  cases hproc.symm.trans hproc'
  rw [if_neg (by simp [hnil, hp0])]
  exact List.mem_append_right _ (.head _)

theorem unregister (ros : Roster s ⟨[], t :: tids, pids, none⟩) :
    Roster (s.reap t) ⟨[], tids, pids, none⟩ := by
  obtain ⟨hnot, hnodup⟩ := List.nodup_cons.mp ros.tids.1
  have hpid : ∀ u, ((s.reap t).threads u).pid = (s.threads u).pid := by
    intro u
    by_cases hu : u = t
    · subst hu
      simp [State.reap]
    · simp [State.reap, hu]
  have hmem : ∀ {u}, u ∈ (s.reap t).registry ↔ u ≠ t ∧ u ∈ s.registry :=
    fun {u} => List.Nodup.mem_erase_iff ros.nodup
  constructor
  · exact ros.nodup.erase t
  · exact fun u hu => ros.below u (hmem.mp hu).2
  · intro u hu htids
    obtain ⟨hne, hreg⟩ := hmem.mp hu
    rw [hpid]
    exact ros.home u hreg (by simp [hne, htids])
  · intro p proc hproc
    refine ⟨(ros.members p proc hproc).1, fun u hu => ?_⟩
    obtain ⟨hreg, hp, hlist⟩ := (ros.members p proc hproc).2 u hu
    obtain ⟨hne, hlist⟩ : u ≠ t ∧ u ∉ tids := by simpa using hlist
    exact ⟨hmem.mpr ⟨hne, hreg⟩, (hpid u).trans hp, hlist⟩
  · exact ⟨List.nodup_nil, fun u hu => by cases hu⟩
  · refine ⟨hnodup, fun u hu => hmem.mpr ⟨?_, ros.tids.2 u (.tail _ hu)⟩⟩
    rintro rfl
    exact hnot hu
  · exact ros.pids
  · exact fun u hu => by cases hu
  intro p proc hproc hnil hp0
  refine (ros.empty p proc hproc hnil hp0).imp_right ?_
  rintro ⟨u, hu, -⟩
  cases hu

theorem remove (ros : Roster s ⟨[], [], p :: pids, none⟩) :
    Roster (s.setProc p none) ⟨[], [], pids, none⟩ := by
  obtain ⟨hnot, hnodup⟩ := List.nodup_cons.mp ros.pids.1
  obtain ⟨gone, hgone, hnil⟩ := ros.pids.2 p (.head _)
  constructor
  · exact ros.nodup
  · exact ros.below
  · intro u hu htids
    obtain ⟨proc, hproc, hmem⟩ := ros.home u hu htids
    have hne : (s.threads u).pid ≠ p := by
      intro he
      rw [he] at hproc
      cases hgone.symm.trans hproc
      simp [hnil] at hmem
    exact ⟨proc, by simpa [setProc, hne] using hproc, hmem⟩
  · intro q proc hproc
    by_cases hq : q = p
    · simp [setProc, hq] at hproc
    · exact ros.members q proc (by simpa [setProc, hq] using hproc)
  · exact ros.todo
  · exact ros.tids
  · refine ⟨hnodup, fun q hq => ?_⟩
    have hne : q ≠ p := by
      rintro rfl
      exact hnot hq
    simpa [setProc, hne] using ros.pids.2 q (.tail _ hq)
  · exact fun u hu => by cases hu
  intro q proc hproc hempty hq0
  by_cases hq : q = p
  · simp [setProc, hq] at hproc
  refine (ros.empty q proc (by simpa [setProc, hq] using hproc) hempty hq0).imp ?_ ?_
  · exact fun hmem => (List.mem_cons.mp hmem).resolve_left hq
  · rintro ⟨u, hu, -⟩
    cases hu

theorem join {pid : Pid} {th : Thread} (ros : Roster s .idle)
    (hproc : s.procs pid = some proc) (hpid : th.pid = pid) :
    Roster (s.admitThread pid proc th) .idle := by
  have hfresh : ∀ t ∈ s.registry, t ≠ s.nextTid := fun t ht => Nat.ne_of_lt (ros.below t ht)
  have hold : ∀ t ∈ s.registry, (s.admitThread pid proc th).threads t = s.threads t :=
    fun t ht => update_of_ne (hfresh t ht) ..
  have hnew : (s.admitThread pid proc th).threads s.nextTid = th := update_self ..
  constructor
  · refine List.nodup_append.mpr ⟨ros.nodup, List.nodup_singleton _, ?_⟩
    rintro u hu v hv rfl
    exact hfresh u hu (List.mem_singleton.mp hv)
  · intro u hu
    rcases List.mem_append.mp hu with hu | hu
    · exact Nat.lt_succ_of_lt (ros.below u hu)
    · cases List.mem_singleton.mp hu
      exact Nat.lt_succ_self _
  · intro u hu htids
    rcases List.mem_append.mp hu with hu | hu
    · rw [hold u hu]
      obtain ⟨proc', hproc', hmem⟩ := ros.home u hu htids
      by_cases hp : (s.threads u).pid = pid
      · rw [hp] at hproc' ⊢
        cases hproc.symm.trans hproc'
        exact ⟨_, update_self .., List.mem_append_left _ hmem⟩
      · exact ⟨proc', by simpa [admitThread, hp] using hproc', hmem⟩
    cases List.mem_singleton.mp hu
    rw [hnew, hpid]
    exact ⟨_, update_self .., List.mem_append_right _ (.head _)⟩
  · intro q proc' hproc'
    have hmembers : ∀ x, s.procs q = some x → x.threads.Nodup ∧ ∀ t ∈ x.threads,
        t ∈ (s.admitThread pid proc th).registry ∧
          ((s.admitThread pid proc th).threads t).pid = q ∧ t ∉ Reaping.idle.tids := by
      intro x hx
      refine ⟨(ros.members q x hx).1, fun t ht => ?_⟩
      obtain ⟨hreg, hq, hno⟩ := (ros.members q x hx).2 t ht
      exact ⟨List.mem_append_left _ hreg, by rw [hold t hreg, hq], hno⟩
    by_cases hq : q = pid
    · subst hq
      obtain ⟨hnodup, hall⟩ := hmembers proc hproc
      simp only [admitThread, update_self] at hproc'
      cases hproc'
      refine ⟨List.nodup_append.mpr ⟨hnodup, List.nodup_singleton _, ?_⟩, fun t ht => ?_⟩
      · rintro t ht v hv rfl
        exact hfresh t ((ros.members q proc hproc).2 t ht).1 (List.mem_singleton.mp hv)
      rcases List.mem_append.mp ht with ht | ht
      · exact hall t ht
      cases List.mem_singleton.mp ht
      exact ⟨List.mem_append_right _ (.head _), by rw [hnew, hpid], fun hno => by cases hno⟩
    · exact hmembers proc' (by simpa [admitThread, hq] using hproc')
  · exact ⟨List.nodup_nil, fun u hu => by cases hu⟩
  · exact ⟨List.nodup_nil, fun u hu => by cases hu⟩
  · exact ⟨List.nodup_nil, fun u hu => by cases hu⟩
  · exact fun u hu => by cases hu
  · intro q proc' hproc' hnil hq0
    by_cases hq : q = pid
    · subst hq
      simp only [admitThread, update_self] at hproc'
      cases hproc'
      simp at hnil
    have hproc' : s.procs q = some proc' := by simpa [admitThread, hq] using hproc'
    rcases ros.empty q proc' hproc' hnil hq0 with hmem | ⟨u, hu, -⟩
    · cases hmem
    · cases hu

/-- A thread without a process is passed over. -/
theorem orphan (ros : Roster s ⟨todo, tids, pids, some t⟩)
    (hproc : s.procs (s.threads t).pid = none) : Roster s ⟨todo, tids, pids, none⟩ := by
  refine { ros with claimed := ?_, empty := ?_ }
  · intro u hu
    cases hu
  intro p proc hp hnil hp0
  refine .inl ((ros.empty p proc hp hnil hp0).resolve_right ?_)
  rintro ⟨u, hu, rfl⟩
  cases hu
  cases hproc.symm.trans hp

/-- A cleanup starts over all registered threads. -/
theorem start (ros : Roster s .idle) : Roster s ⟨s.registry, [], [], none⟩ :=
  { ros with todo := ⟨ros.nodup, fun _ ht => ⟨ht, by simp⟩⟩ }

end Roster

section Step

variable {m : Mgr} {pc pc' : MgrPc} {self : Nat} {th : Thread}

theorem ScanCaller.reaping_pc (k : ScanCaller) : k.pc.reaping = .idle := by
  rcases k with _ | ⟨_ | _⟩ <;> rfl

theorem After.reaping_pc (a : After) : a.pc.reaping = .idle := by
  cases a <;> rfl

theorem scanVerb_reaping {seen : Bool} {k : Scan} :
    (scanVerb t st seen k).reaping = .idle := by
  unfold scanVerb
  split
  · rfl
  · split <;> rfl

theorem Answered.reaping {p : Published} (hans : Answered s t p pc) : pc.reaping = .idle := by
  rcases hans with rfl | ⟨rfl, -⟩ | ⟨rfl, -⟩ <;> rfl

theorem MgrGoto.roster (move : MgrGoto s self pc pc') (ros : Roster s pc.reaping) :
    Roster s pc'.reaping := by
  cases move with
  | cleanupOrphan => exact ros.skip
  | cleanupLive u todo tids pids proc hproc =>
    have hmem : u ∈ proc.threads := ros.visited rfl hproc
    have hlist : listProc (s.threads u).pid proc pids = pids :=
      if_pos (.inl (List.ne_nil_of_mem hmem))
    rw [hlist]
    exact ros.skip
  | claimOrphan u todo tids pids hproc => exact ros.orphan hproc
  | scanDone k =>
    rw [ScanCaller.reaping_pc]
    exact ros
  | nudgeSkip n =>
    rw [ScanCaller.reaping_pc]
    exact ros
  | claimMiss | takeNone =>
    rw [After.reaping_pc]
    exact ros
  | _ => exact ros

theorem MgrWrite.reaping (move : MgrWrite s pc t th pc') :
    pc'.reaping = pc.reaping ∧ th.pid = (s.threads t).pid := by
  cases move with
  | scanNote => exact ⟨scanVerb_reaping, rfl⟩
  | _ => exact ⟨rfl, rfl⟩

theorem HartEdge.pid {hart hart' : Hart} {th' : Thread} {ws : List Work} {ns : List SleepNotice}
    (edge : HartEdge hart t th hart' th' ws ns) : th'.pid = th.pid := by
  cases edge <;> rfl

theorem pid_update (hth : th.pid = (s.threads t).pid) (u : Tid) :
    (update s.threads t th u).pid = (s.threads u).pid := by
  by_cases hu : u = t
  · subst hu
    rw [update_self, hth]
  · rw [update_of_ne hu]

theorem MgrEdge.roster (edge : MgrEdge s m s') (ros : Roster s m.pc.reaping) :
    Roster s' s'.reaping := by
  have same : ∀ {pc : MgrPc}, m.pc.reaping = .idle → pc.reaping = .idle → ∀ {s₁ : State},
      s₁.registry = s.registry → s₁.procs = s.procs → s₁.nextTid = s.nextTid →
      s₁.threads = s.threads → Roster (s₁.goto m pc) (s₁.goto m pc).reaping := by
    intro pc hpc hpc' s₁ hreg hprocs hnext hthreads
    rw [hpc] at ros
    show Roster _ pc.reaping
    rw [hpc']
    exact ros.congr hreg hprocs hnext fun t => congrArg (fun f => (f t).pid) hthreads
  cases edge with
  | goto pc move =>
    exact (move.roster ros).congr rfl rfl rfl fun _ => rfl
  | write t th pc move =>
    show Roster _ pc.reaping
    rw [move.reaping.1]
    exact ros.congr rfl rfl rfl (pid_update move.reaping.2)
  | cleanupExited t todo tids pids proc hpc hproc =>
    rw [hpc] at ros
    exact (ros.leave hproc).congr rfl rfl rfl fun _ => rfl
  | claimExited t todo tids pids proc code hpc hproc =>
    rw [hpc] at ros
    have stamped : Roster (s.setProc (s.threads t).pid (some { proc with exitCode := code })) _ :=
      (ros.relist hproc).restamp hproc rfl
    exact stamped.congr rfl rfl rfl fun _ => rfl
  | reap t tids pids hpc =>
    rw [hpc] at ros
    exact ros.unregister.congr rfl rfl rfl fun _ => rfl
  | removeProc p pids proc hpc =>
    rw [hpc] at ros
    exact ros.remove.congr rfl rfl rfl fun _ => rfl
  | spawn t p pid _ _ _ rest proc th pc hpc _ hproc hth hans =>
    rw [hpc] at ros
    have hpid : th.pid = pid := by
      obtain ⟨allowed, affinity, frame, rfl⟩ := hth
      rfl
    have entered : Roster { s with work := rest } .idle := ros.congr rfl rfl rfl fun _ => rfl
    show Roster _ pc.reaping
    rw [hans.reaping]
    exact (entered.join hproc hpid).congr rfl rfl rfl fun _ => rfl
  | exitGroup pid leader code rest proc hpc _ hproc =>
    rw [hpc] at ros
    have stamped : Roster (s.setProc pid
        (some { proc with exitCode := code, exitFinalized := true })) _ := ros.restamp hproc rfl
    exact stamped.congr rfl rfl rfl fun _ => rfl
  | answer _ _ _ _ hpc _ hans | serve _ _ _ _ hpc _ hans | spawnFails _ _ _ _ _ _ _ _ hpc _ hans =>
    exact same (by rw [hpc]; rfl) hans.reaping rfl rfl rfl rfl
  | popWake _ _ pc hpc _ hnext =>
    refine same (by rw [hpc]; rfl) ?_ rfl rfl rfl rfl
    rcases hnext with ⟨k, -, rfl⟩ | ⟨-, rfl⟩ <;> rfl
  | pushReady _ a hpc => exact same (by rw [hpc]; rfl) (After.reaping_pc a) rfl rfl rfl rfl
  | release hpc =>
    rw [hpc] at ros
    exact ros.congr rfl rfl rfl fun _ => rfl
  | defer _ _ _ hpc | exitGroupGone _ _ _ _ hpc | killDone _ _ hpc | resumePush _ _ hpc
  | publishWake _ _ hpc | popNotice _ _ hpc | sleepHeap _ hpc | wokenStale _ _ _ _ hpc
  | wokenDue _ _ _ _ hpc | inboxPop _ _ _ hpc | assignPop _ _ _ _ _ hpc
  | assignPublish _ _ _ hpc => exact same (by rw [hpc]; rfl) rfl rfl rfl rfl rfl

/-- The registry and the processes agree after every step. -/
theorem Roster.preserved (ros : Roster s s.reaping) (hs : step s a = some s') :
    Roster s' s'.reaping := by
  cases step_outcome hs with
  | hart h trap hlt _ hmove =>
    rcases hartStep_outcome hmove with
      ⟨u, hart, th, ws, ns, move⟩ | ⟨_, _, _, rfl, _⟩ | ⟨_, _, _, rfl⟩
    · rw [show s'.reaping = s.reaping by rw [State.reaping, move.mgr, State.reaping]]
      refine ros.congr move.registry (by rw [move.eq]) (by rw [move.eq]) fun t => ?_
      rw [move.eq]
      exact pid_update move.edge.pid t
    · exact ros.congr rfl rfl rfl fun _ => rfl
    · exact ros.congr rfl rfl rfl fun _ => rfl
  | manager c m hm hmove =>
    rcases mgrStep_outcome hmove with ⟨edge⟩ | ⟨_, _, _, rfl, _⟩ | ⟨_, _, rfl, _⟩
    · have ros : Roster s m.pc.reaping := by simpa [State.reaping, hm] using ros
      exact edge.roster ros
    · exact ros.congr rfl rfl rfl fun _ => rfl
    · exact ros.congr rfl rfl rfl fun _ => rfl
  | lock h _ hm _ he =>
    subst he
    have ros : Roster s .idle := by simpa [State.reaping, hm] using ros
    exact ros.start.congr rfl rfl rfl fun _ => rfl
  | wake ev queue _ he =>
    subst he
    exact ros.congr rfl rfl rfl fun _ => rfl

end Step

theorem Boot.roster (boot : Boot s) : Roster s s.reaping := by
  have hover : s.reaping = .idle := by simp [State.reaping, boot.mgr]
  rw [hover]
  constructor
  · exact boot.nodup
  · exact boot.below
  · exact fun t ht _ => boot.procs t ht
  · intro p proc hproc
    obtain ⟨hnodup, -, -, hall⟩ := boot.members p proc hproc
    exact ⟨hnodup, fun t ht => ⟨(hall t ht).1, (hall t ht).2, fun hno => by cases hno⟩⟩
  · exact ⟨List.nodup_nil, fun u hu => by cases hu⟩
  · exact ⟨List.nodup_nil, fun u hu => by cases hu⟩
  · exact ⟨List.nodup_nil, fun u hu => by cases hu⟩
  · exact fun u hu => by cases hu
  · intro p proc hproc hnil hp0
    exact absurd hnil ((boot.members p proc hproc).2.1 hp0)

theorem reach_roster (run : Reach step guard Boot s) :
    Roster s s.reaping :=
  run.invariant (fun _ => Boot.roster) fun _ _ _ ros _ hs => ros.preserved hs

theorem step_fault (hs : step s a = some s') : s.fault = none := by
  unfold step at hs
  split at hs
  · cases hs
  · next hf => simpa using hf

/-- The reaper's own assertions never fail. -/
theorem Roster.checked (ros : Roster s s.reaping) (hs : step s a = some s') {site : Site}
    (hfault : s'.fault = some (.panic site t st)) : site.checked = true := by
  have hnone := step_fault hs
  cases step_outcome hs with
  | hart h trap hlt _ hmove =>
    rcases hartStep_outcome hmove with
      ⟨u, hart, th, ws, ns, move⟩ | ⟨_, _, _, rfl, hsite⟩ | ⟨_, _, _, rfl⟩
    · rw [move.eq] at hfault
      cases hnone.symm.trans hfault
    · cases hfault
      exact hsite
    · cases hfault
  | manager c m hm hmove =>
    rcases mgrStep_outcome hmove with ⟨edge⟩ | ⟨_, _, _, rfl, hsite⟩ | ⟨_, _, rfl, _⟩
    · cases hnone.symm.trans (edge.fault.symm.trans hfault)
    · cases hfault
      have ros : Roster s m.pc.reaping := by simpa [State.reaping, hm] using ros
      rcases hsite with ⟨-, ⟨tids, pids, hpc⟩, hno⟩ | ⟨-, p, pids, hpc, hno⟩ | hsite
      · rw [hpc] at ros
        exact absurd (ros.tids.2 _ (.head _)) hno
      · rw [hpc] at ros
        obtain ⟨proc, hproc, -⟩ := ros.pids.2 p (.head _)
        cases hno.symm.trans hproc
      · exact hsite
    · cases hfault
  | lock h _ _ _ he =>
    subst he
    cases hnone.symm.trans hfault
  | wake ev queue _ he =>
    subst he
    cases hnone.symm.trans hfault

theorem reach_reaper_checked (run : Reach step guard Boot s) :
    ∀ site t st, s.fault = some (.panic site t st) → site.checked = true := by
  refine run.invariant_of
    (J := fun s => ∀ site t st, s.fault = some (.panic site t st) → site.checked = true)
    (fun _ => reach_roster) (fun s boot site t st hfault => ?_)
    fun s a s' ros _ _ hs site t st => ros.checked hs
  cases boot.fault.symm.trans hfault

end Orbit.Sched
