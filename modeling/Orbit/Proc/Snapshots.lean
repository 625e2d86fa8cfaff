import Orbit.Perm.Tree
import Orbit.Proc.Agreement

/-!
Permissions and ids are kept twice: in the process, which the manager changes, and in each
of its threads, where the permission gate and `getuid` read them without a lock. This is
the process table and thread registry of `Orbit.Proc` with both copies added, and every
request that writes either of them.

A process or thread that is not in its table has no copy to speak of; the functions
`authority` and `copy` hold something there all the same.
-/

namespace Orbit.Proc.Snapshots

open Store Transition Function Table
open Perm (Permissions Credentials PermsRequest)

variable {detached : Bool} {parentPid : Pid} {ending : SpawnEnd} {th : Thread}

/-- What a thread keeps of its process. -/
structure Snapshot where
  perms : Nat
  role : Perm.Role
  uids : Nat × Nat × Nat
  gids : Nat × Nat × Nat

/-- What the process itself keeps. -/
structure Authority where
  permissions : Permissions
  credentials : Credentials

variable {a : Authority} {ok : Bool}

/-- The snapshot `create_new_thread` takes. -/
def Authority.snapshot (a : Authority) : Snapshot where
  perms := a.permissions.perms
  role := a.permissions.role
  uids := (a.credentials.uid, a.credentials.euid, a.credentials.suid)
  gids := (a.credentials.gid, a.credentials.egid, a.credentials.sgid)

/-- `set_permissions`; a thread does not keep `allowed_perms`. -/
def Snapshot.setPermissions (c : Snapshot) (p : Permissions) : Snapshot :=
  { c with perms := p.perms, role := p.role }

structure State where
  sys : Proc.System
  authority : Pid → Authority
  copy : Tid → Snapshot

/-- What is installed on a child. -/
inductive SpawnCall where
  /-- `create_process`, `create_process_ex` and boot, with `proc_components.perms` -/
  | plain (perms : Option Permissions)
  /-- `create_process_v2`, with what `install_spawn` resolves for the child -/
  | v2 (childPerms : Permissions) (credentials : Credentials)

namespace State

/-- The loop over the threads of a process that `run_pledge_req`, `run_setuid`, `run_setgid` and
`install_spawn` end with. -/
def refresh (s : State) (pid : Pid) (f : Snapshot → Snapshot) : State :=
  match s.sys.processes.get pid with
  | none => s
  | some proc =>
    { s with copy := fun tid =>
        if tid ∈ proc.threads ∧ (s.sys.registry.get tid).isSome then f (s.copy tid)
        else s.copy tid }

def setAuthority (s : State) (pid : Pid) (a : Authority) : State :=
  { s with authority := update s.authority pid a }

/-- `request` is what the caller's buffer holds, if it can be read. -/
def runPledgeReq (s : State) (pid : Pid) (request : Option PermsRequest) : State × Int :=
  match request with
  | none => (s, Abi.Errno.efault.toRet)
  | some request =>
    match s.sys.processes.get pid with
    | none => (s, Abi.Errno.esrch.toRet)
    | some _ =>
      let new := (s.authority pid).permissions.pledge request
      let s := s.setAuthority pid { s.authority pid with permissions := new }
      (s.refresh pid fun c => c.setPermissions new, 0)

def runSetuid (s : State) (pid : Pid) (uid : Nat) : State × Int :=
  match s.sys.processes.get pid with
  | none => (s, Abi.Errno.esrch.toRet)
  | some _ =>
    let c := (s.authority pid).credentials
    if c.euid ≠ 0 ∧ ¬(uid = c.uid ∨ uid = c.suid) then (s, Abi.Errno.eperm.toRet)
    else
      let new := c.setuid uid
      let s := s.setAuthority pid { s.authority pid with credentials := new }
      (s.refresh pid fun c => { c with uids := (new.uid, new.euid, new.suid) }, 0)

def runSetgid (s : State) (pid : Pid) (gid : Nat) : State × Int :=
  match s.sys.processes.get pid with
  | none => (s, Abi.Errno.esrch.toRet)
  | some _ =>
    let c := (s.authority pid).credentials
    if c.euid ≠ 0 ∧ ¬(gid = c.gid ∨ gid = c.sgid) then (s, Abi.Errno.eperm.toRet)
    else
      let new := c.setgid gid
      let s := s.setAuthority pid { s.authority pid with credentials := new }
      (s.refresh pid fun c => { c with gids := (new.gid, new.egid, new.sgid) }, 0)

/-- The tables go on to `sys`; a thread that is new in the registry starts with `snap`. -/
def enroll (s : State) (sys : Proc.System) (snap : Snapshot) : State :=
  { s with
    sys
    copy := fun tid =>
      if s.sys.registry.get tid = none ∧ (sys.registry.get tid).isSome then snap else s.copy tid }

/-- `create_new_process`. Its permissions are installed before its first thread takes a snapshot;
its ids are those of `Process::new`. -/
def createNewProcess (s : State) (parentPid : Pid) (detached : Bool) (ending : SpawnEnd)
    (perms : Option Permissions) : Option State :=
  match s.sys.createNewProcess parentPid detached ending with
  | none => none
  | some sys =>
    if ending = .done then
      let a : Authority := ⟨perms.getD .all, .root⟩
      some ((s.enroll sys a.snapshot).setAuthority sys.currentProcessId a)
    else some { s with sys }

/-- `install_spawn`, past its checks: the child gets its own permissions and ids, and so do its
threads. -/
def installSpawn (s : State) (parentPid : Pid) (detached : Bool) (ending : SpawnEnd)
    (childPerms : Permissions) (credentials : Credentials) : Option State :=
  match s.createNewProcess parentPid detached ending none with
  | none => none
  | some s =>
    if ending = .done then
      let pid := s.sys.currentProcessId
      let a : Authority := ⟨childPerms, credentials⟩
      some ((s.setAuthority pid a).refresh pid fun c =>
        { c.setPermissions childPerms with uids := a.snapshot.uids, gids := a.snapshot.gids })
    else some s

def spawn (s : State) (parentPid : Pid) (detached : Bool) (ending : SpawnEnd) :
    SpawnCall → Option State
  | .plain perms => s.createNewProcess parentPid detached ending perms
  | .v2 childPerms credentials => s.installSpawn parentPid detached ending childPerms credentials

def addNewThreadToProcess (s : State) (pid : Pid) (ok : Bool) : Option State :=
  (s.sys.addNewThreadToProcess pid ok).map fun sys => s.enroll sys (s.authority pid).snapshot

/-- Kernel threads are stamped with no permissions and zero ids. -/
def createKernelThread (s : State) (ok : Bool) : Option State :=
  (s.sys.createKernelThread ok).map fun sys => s.enroll sys ⟨0, .noRole, (0, 0, 0), (0, 0, 0)⟩

end State

inductive Action where
  | pledge (pid : Pid) (request : Option PermsRequest)
  | setuid (pid : Pid) (uid : Nat)
  | setgid (pid : Pid) (gid : Nat)
  | spawn (parentPid : Pid) (detached : Bool) (ending : SpawnEnd) (call : SpawnCall)
  | createThread (pid : Pid) (ok : Bool)
  | createKernelThread (ok : Bool)
  | exit (tid : Tid) (status : Int)
  | fault (tid : Tid)
  | exitGroup (pid : Pid) (leader : Tid) (code : Int)
  | wait (pid : Pid) (tid : Tid) (target : Int)
  | cleanup

/-- The rest of the process model does not touch either copy. -/
def State.lifecycle (s : State) (a : Proc.Action) : Option State :=
  (Proc.step s.sys a).map fun sys => { s with sys }

def step (s : State) : Action → Option State
  | .pledge pid request => some (s.runPledgeReq pid request).1
  | .setuid pid uid => some (s.runSetuid pid uid).1
  | .setgid pid gid => some (s.runSetgid pid gid).1
  | .spawn parentPid detached ending call => s.spawn parentPid detached ending call
  | .createThread pid ok => s.addNewThreadToProcess pid ok
  | .createKernelThread ok => s.createKernelThread ok
  | .exit tid status => s.lifecycle (.exit tid status)
  | .fault tid => s.lifecycle (.fault tid)
  | .exitGroup pid leader code => s.lifecycle (.exitGroup pid leader code)
  | .wait pid tid target => s.lifecycle (.wait pid tid target)
  | .cleanup => s.lifecycle .cleanup

def Start (s : State) : Prop := s.sys = Proc.initial

/-- `setuid` leaves the gids alone. -/
theorem setuid_gids (c : Credentials) (uid : Nat) : (c.setuid uid).gid = c.gid ∧
    (c.setuid uid).egid = c.egid ∧ (c.setuid uid).sgid = c.sgid := by
  unfold Credentials.setuid
  split
  · exact ⟨rfl, rfl, rfl⟩
  · split <;> exact ⟨rfl, rfl, rfl⟩

/-- `setgid` leaves the uids alone. -/
theorem setgid_uids (c : Credentials) (gid : Nat) : (c.setgid gid).uid = c.uid ∧
    (c.setgid gid).euid = c.euid ∧ (c.setgid gid).suid = c.suid := by
  unfold Credentials.setgid
  split
  · exact ⟨rfl, rfl, rfl⟩
  · split <;> exact ⟨rfl, rfl, rfl⟩

/-! The two tables, without the conditions `Agree` needs: pid 0 may be given out. -/

section Tables

variable {s s' : Proc.System} {pid : Pid} {proc : Process} {tid : Tid}

/-- A thread in the set of a process is registered for it, and a registered thread is in the set
of its process unless it is a kernel thread. -/
structure Housed (s : Proc.System) : Prop where
  members : ∀ pid proc, s.processes.get pid = some proc → ∀ tid ∈ proc.threads,
    ∃ th, s.registry.get tid = some th ∧ th.pid = pid
  home : ∀ tid th, s.registry.get tid = some th → th.pid ≠ 0 →
    ∃ proc, s.processes.get th.pid = some proc ∧ tid ∈ proc.threads

/-- The thread sets of the one table are those of the other. -/
structure SameSets (t t' : Table Process) : Prop where
  back : ∀ p new, t'.get p = some new → ∃ old, t.get p = some old ∧ new.threads = old.threads
  forth : ∀ p old, t.get p = some old → ∃ new, t'.get p = some new ∧ new.threads = old.threads

theorem SameSets.insert {t : Table Process} (hproc : t.get pid = some proc) {proc' : Process}
    (hthreads : proc'.threads = proc.threads) : SameSets t (t.insert pid proc') := by
  constructor
  · intro p new hnew
    rcases t.get_insert_eq_some.mp hnew with ⟨rfl, rfl⟩ | ⟨_, hnew⟩
    · exact ⟨proc, hproc, hthreads⟩
    · exact ⟨new, hnew, rfl⟩
  intro p old hold
  by_cases hp : p = pid
  · subst hp
    obtain rfl : proc = old := Option.some.inj (hproc.symm.trans hold)
    exact ⟨proc', get_insert_self .., hthreads⟩
  · exact ⟨old, by rw [get_insert_ne _ _ hp, hold], rfl⟩

theorem SameSets.refl (t : Table Process) : SameSets t t :=
  ⟨fun _ new h => ⟨new, h, rfl⟩, fun _ old h => ⟨old, h, rfl⟩⟩

theorem SameSets.waited (h : Waited s pid tid s') :
    SameSets s.processes s'.processes ∧ s'.registry = s.registry := by
  cases h with
  | answered vals => exact ⟨.refl s.processes, rfl⟩
  | parkedAny parent hparent => exact ⟨.insert hparent rfl, rfl⟩
  | parked target proc hproc => exact ⟨.insert hproc rfl, rfl⟩
  | taken parent child st vals hparent _ => exact ⟨.insert hparent rfl, rfl⟩

/-- What a step that makes no thread does to the thread sets: they lose threads at most. -/
structure Trimmed (s s' : Proc.System) : Prop where
  housed : Housed s'
  sets : ∀ p new, s'.processes.get p = some new →
    ∃ old, s.processes.get p = some old ∧ new.threads ⊆ old.threads

/-- Every thread keeps its pid and every process its threads. -/
theorem Housed.trimmed (h : Housed s) (hsets : SameSets s.processes s'.processes)
    (hback : ∀ t th', s'.registry.get t = some th' →
      ∃ th, s.registry.get t = some th ∧ th'.pid = th.pid)
    (hforth : ∀ t th, s.registry.get t = some th →
      ∃ th', s'.registry.get t = some th' ∧ th'.pid = th.pid) : Trimmed s s' := by
  refine ⟨⟨?_, ?_⟩, ?_⟩
  · intro p new hnew t ht
    obtain ⟨old, hold, heq⟩ := hsets.back p new hnew
    obtain ⟨th, hth, hpid⟩ := h.members p old hold t (heq ▸ ht)
    obtain ⟨th', hth', hpid'⟩ := hforth t th hth
    exact ⟨th', hth', hpid'.trans hpid⟩
  · intro t th' hth' huser
    obtain ⟨th, hth, hpid⟩ := hback t th' hth'
    rw [hpid] at huser ⊢
    obtain ⟨old, hold, hmem⟩ := h.home t th hth huser
    obtain ⟨new, hnew, heq⟩ := hsets.forth _ old hold
    exact ⟨new, hnew, heq ▸ hmem⟩
  intro p new hnew
  obtain ⟨old, hold, heq⟩ := hsets.back p new hnew
  exact ⟨old, hold, heq ▸ Finset.Subset.refl _⟩

/-- A thread changes and keeps its pid. -/
theorem Housed.setThread (h : Housed s) {th th' : Thread} (hth : s.registry.get tid = some th)
    (hpid : th'.pid = th.pid) : Trimmed s (s.setThread tid th') := by
  refine h.trimmed (.refl s.processes) ?_ ?_
  · intro t new hnew
    rcases s.registry.get_insert_eq_some.mp hnew with ⟨rfl, rfl⟩ | ⟨_, hnew⟩
    · exact ⟨th, hth, hpid⟩
    · exact ⟨new, hnew, rfl⟩
  intro t old hold
  by_cases ht : t = tid
  · subst ht
    obtain rfl : th = old := Option.some.inj (hth.symm.trans hold)
    exact ⟨th', get_insert_self .., hpid⟩
  · exact ⟨old, by rw [System.setThread, get_insert_ne _ _ ht, hold], rfl⟩

theorem Housed.exitGroup (h : Housed s) {leader : Tid} {code : Int} :
    Trimmed s (s.requestExitGroup pid leader code) := by
  unfold System.requestExitGroup
  split
  · exact h.trimmed (.refl s.processes) (fun t th hth => ⟨th, hth, rfl⟩) fun t th hth =>
      ⟨th, hth, rfl⟩
  next proc hproc =>
  refine h.trimmed (.insert hproc rfl) ?_ ?_
  · intro t th' hth'
    simp only [System.killSiblings, System.setProcess, get_map] at hth'
    obtain ⟨th, hth, rfl⟩ := Option.map_eq_some_iff.mp hth'
    exact ⟨th, hth, by split <;> rfl⟩
  intro t th hth
  refine ⟨_, by simp only [System.killSiblings, System.setProcess, get_map, hth]; rfl, ?_⟩
  split <;> rfl

/-! The cleanup pass. -/

/-- A pass takes the threads listed out of the registry and out of the processes that stay, and
no others. -/
structure Cleaned (s s' : System) : Prop where
  registry : ∀ t th, s'.registry.get t = some th ↔
    s.registry.get t = some th ∧ t ∉ s.sweep.tids
  stays : ∀ p old, s.processes.get p = some old → p ∉ s.sweep.pids →
    ∃ new, s'.processes.get p = some new ∧
      ∀ t, t ∈ new.threads ↔ t ∈ old.threads ∧ t ∉ s.sweep.tids
  stayed : ∀ p new, s'.processes.get p = some new → ∃ old, s.processes.get p = some old ∧
    ∀ t, t ∈ new.threads ↔ t ∈ old.threads ∧ t ∉ s.sweep.tids

theorem Housed.cleaned (housed : Housed s) (h : s.cleanup = some s') : Cleaned s s' := by
  simp only [System.cleanup, Option.bind_eq_bind, Option.bind_eq_some_iff] at h
  obtain ⟨mid, hmid, hend⟩ := h
  have swept := s.swept
  obtain ⟨hframe, hunreg⟩ := unregister_get hmid
  obtain ⟨hreg, hget⟩ := remove_get hend
  have hprocs : mid.processes = s.sweep.system.processes := by rw [hframe]
  have hstays : ∀ p old, s.processes.get p = some old → p ∉ s.sweep.pids →
      ∃ new, s'.processes.get p = some new ∧
        ∀ t, t ∈ new.threads ↔ t ∈ old.threads ∧ t ∉ s.sweep.tids := by
    intro p old hold hp
    have kin := hget p
    rw [if_neg hp, hprocs, swept.processes, hold] at kin
    obtain ⟨new, hnew, kin⟩ := Kin.of_some kin
    refine ⟨new, hnew, fun t => ?_⟩
    rw [kin.threads]
    exact System.mem_swept hold (housed.members p old hold t)
  refine ⟨?_, hstays, ?_⟩
  · intro t th
    rw [hreg, hunreg, show s.sweep.system.registry = s.registry by rw [swept.frame]]
    split
    · next hin => simp [hin]
    · next hout => simp [hout]
  · intro p new hnew
    have kin := hget p
    have hp : p ∉ s.sweep.pids := by
      intro hp
      rw [if_pos hp, hnew] at kin
      cases Kin.of_none kin
    cases hold : s.processes.get p with
    | none =>
      rw [if_neg hp, hprocs, swept.processes, hold, hnew] at kin
      cases Kin.of_none kin
    | some old =>
      obtain ⟨new', hnew', hiff⟩ := hstays p old hold hp
      obtain rfl : new = new' := Option.some.inj (hnew.symm.trans hnew')
      exact ⟨old, rfl, hiff⟩

/-- A process with a thread that is not listed is not listed itself. -/
theorem Housed.not_listed (housed : Housed s) {p : Pid} {old : Process} {t : Tid}
    (hold : s.processes.get p = some old) (hmem : t ∈ old.threads) (hout : t ∉ s.sweep.tids) :
    p ∉ s.sweep.pids := by
  intro hp
  obtain ⟨old', hold', hempty⟩ := s.swept.emptied _ hp
  obtain rfl : old = old' := Option.some.inj (hold.symm.trans hold')
  have hin := (System.mem_swept hold (housed.members _ old hold t)).mpr ⟨hmem, hout⟩
  rw [hempty] at hin
  simp at hin

/-- The facts about a pass do not need more than this of the tables. -/
theorem Housed.cleanup (housed : Housed s) (h : s.cleanup = some s') : Trimmed s s' := by
  have cleaned := housed.cleaned h
  refine ⟨⟨?_, ?_⟩, ?_⟩
  · intro p new hnew t ht
    obtain ⟨old, hold, hiff⟩ := cleaned.stayed p new hnew
    obtain ⟨hmem, hout⟩ := (hiff t).mp ht
    obtain ⟨th, hth, hpid⟩ := housed.members p old hold t hmem
    exact ⟨th, (cleaned.registry t th).mpr ⟨hth, hout⟩, hpid⟩
  · intro t th hth huser
    obtain ⟨hth, hout⟩ := (cleaned.registry t th).mp hth
    obtain ⟨old, hold, hmem⟩ := housed.home t th hth huser
    obtain ⟨new, hnew, hiff⟩ := cleaned.stays _ old hold (housed.not_listed hold hmem hout)
    exact ⟨new, hnew, (hiff t).mpr ⟨hmem, hout⟩⟩
  · intro p new hnew
    obtain ⟨old, hold, hiff⟩ := cleaned.stayed p new hnew
    exact ⟨old, hold, fun t ht => ((hiff t).mp ht).1⟩

end Tables

/-! The copies. -/

/-- Every thread of a process has what the process has. -/
structure Coherent (s : State) : Prop where
  housed : Housed s.sys
  copies : ∀ pid proc, s.sys.processes.get pid = some proc → ∀ tid ∈ proc.threads,
    s.copy tid = (s.authority pid).snapshot

namespace Coherent

variable {s s' : State} {pid : Pid} {proc : Process} {tid : Tid} {sys : Proc.System}

theorem trimmed (h : Coherent s) (htrim : Trimmed s.sys sys) : Coherent { s with sys } := by
  refine ⟨htrim.housed, fun p new hnew t ht => ?_⟩
  obtain ⟨old, hold, hsub⟩ := htrim.sets p new hnew
  exact h.copies p old hold t (hsub ht)

/-- A process changes, and the loop over its threads makes the same change in their copies. -/
theorem refresh (h : Coherent s) (hproc : s.sys.processes.get pid = some proc)
    {f : Snapshot → Snapshot} (hf : f (s.authority pid).snapshot = a.snapshot) :
    Coherent ((s.setAuthority pid a).refresh pid f) := by
  have heq : (s.setAuthority pid a).refresh pid f = { s with
        authority := update s.authority pid a
        copy := fun tid =>
          if tid ∈ proc.threads ∧ (s.sys.registry.get tid).isSome then f (s.copy tid)
        else s.copy tid } := by
    simp only [State.refresh, State.setAuthority, hproc]
    rfl
  rw [heq]
  refine ⟨h.housed, fun p new hnew t ht => ?_⟩
  obtain ⟨th, hth, hpid⟩ := h.housed.members p new hnew t ht
  by_cases hp : p = pid
  · subst hp
    obtain rfl : proc = new := Option.some.inj (hproc.symm.trans hnew)
    simp [ht, hth, h.copies p proc hproc t ht, hf]
  -- a thread has one process, so the loop passes this one by
  have hout : t ∉ proc.threads := by
    intro hmem
    obtain ⟨th', hth', hpid'⟩ := h.housed.members pid proc hproc t hmem
    obtain rfl : th = th' := Option.some.inj (hth.symm.trans hth')
    exact hp (hpid.symm.trans hpid')
  simp [hout, update_of_ne hp, h.copies p new hnew t ht]

/-- A registered thread keeps its copy when another is made. -/
theorem enroll_copy (hth : s.sys.registry.get tid = some th) (snap : Snapshot) :
    (s.enroll sys snap).copy tid = s.copy tid := by
  simp [State.enroll, hth]

/-- No thread is made. -/
theorem enroll_same (h : Coherent s) (hreg : sys.registry = s.sys.registry)
    (hprocs : sys.processes = s.sys.processes) {snap : Snapshot} :
    Coherent (s.enroll sys snap) := by
  have hhoused : Housed sys := by
    constructor
    · rw [hreg, hprocs]
      exact h.housed.members
    · rw [hreg, hprocs]
      exact h.housed.home
  refine ⟨hhoused, fun p new hnew t ht => ?_⟩
  rw [State.enroll, hprocs] at hnew
  obtain ⟨th, hth, _⟩ := h.housed.members p new hnew t ht
  rw [enroll_copy hth]
  exact h.copies p new hnew t ht

/-- A thread joins process `pid`, which is new or keeps its threads and what it has. -/
theorem join (h : Coherent s) (hprocs : sys.processes = s.sys.processes.insert pid proc)
    (hreg : sys.registry = s.sys.registry.insert tid th) (hpid : th.pid = pid)
    (hfree : s.sys.registry.get tid = none) (htid : tid ∈ proc.threads)
    (hold : ∀ old, s.sys.processes.get pid = some old →
      proc.threads = insert tid old.threads ∧ a = s.authority pid)
    (hnew : s.sys.processes.get pid = none → proc.threads = {tid}) :
    Coherent ((s.enroll sys a.snapshot).setAuthority pid a) := by
  have other : ∀ t ∈ proc.threads, t ≠ tid → ∃ old, s.sys.processes.get pid = some old ∧
      t ∈ old.threads ∧ a = s.authority pid := by
    intro t ht hne
    cases hget : s.sys.processes.get pid with
    | none =>
      rw [hnew hget, Finset.mem_singleton] at ht
      exact absurd ht hne
    | some old =>
      obtain ⟨hthreads, ha⟩ := hold old hget
      rw [hthreads, Finset.mem_insert] at ht
      exact ⟨old, rfl, ht.resolve_left hne, ha⟩
  have registered : ∀ t u, s.sys.registry.get t = some u → sys.registry.get t = some u := by
    intro t u hu
    rw [hreg]
    exact get_insert_of_none hfree hu
  refine ⟨⟨?_, ?_⟩, ?_⟩
  · intro p new hget t ht
    rw [State.setAuthority, State.enroll, hprocs] at hget
    rcases s.sys.processes.get_insert_eq_some.mp hget with ⟨rfl, rfl⟩ | ⟨_, hget⟩
    · by_cases hne : t = tid
      · subst hne
        exact ⟨th, by rw [State.setAuthority, State.enroll, hreg]; exact get_insert_self .., hpid⟩
      obtain ⟨old, hgold, hmem, _⟩ := other t ht hne
      obtain ⟨u, hu, hupid⟩ := h.housed.members p old hgold t hmem
      exact ⟨u, registered t u hu, hupid⟩
    · obtain ⟨u, hu, hupid⟩ := h.housed.members p new hget t ht
      exact ⟨u, registered t u hu, hupid⟩
  · intro t u hu huser
    rw [State.setAuthority, State.enroll, hreg] at hu
    rw [State.setAuthority, State.enroll, hprocs]
    rcases s.sys.registry.get_insert_eq_some.mp hu with ⟨rfl, rfl⟩ | ⟨_, hu⟩
    · exact ⟨proc, by rw [hpid]; exact get_insert_self .., htid⟩
    obtain ⟨old, hgold, hmem⟩ := h.housed.home t u hu huser
    by_cases hp : u.pid = pid
    · rw [hp] at hgold ⊢
      obtain ⟨hthreads, _⟩ := hold old hgold
      exact ⟨proc, get_insert_self .., hthreads ▸ Finset.mem_insert_of_mem hmem⟩
    · exact ⟨old, by rw [get_insert_ne _ _ hp, hgold], hmem⟩
  intro p new hget t ht
  rw [State.setAuthority, State.enroll, hprocs] at hget
  rcases s.sys.processes.get_insert_eq_some.mp hget with ⟨rfl, rfl⟩ | ⟨hp, hget⟩
  · simp only [State.setAuthority, update_self]
    by_cases hne : t = tid
    · subst hne
      have hsome : (sys.registry.get t).isSome = true := by
        rw [hreg, get_insert_self]
        rfl
      simp [State.enroll, hfree, hsome]
    obtain ⟨old, hgold, hmem, ha⟩ := other t ht hne
    obtain ⟨u, hu, _⟩ := h.housed.members p old hgold t hmem
    rw [enroll_copy hu, ha]
    exact h.copies p old hgold t hmem
  obtain ⟨u, hu, _⟩ := h.housed.members p new hget t ht
  simp only [State.setAuthority, update_of_ne hp]
  rw [enroll_copy hu]
  exact h.copies p new hget t ht

theorem setAuthority_self (s : State) (pid : Pid) : s.setAuthority pid (s.authority pid) = s := by
  simp [State.setAuthority]

variable (h : Coherent s)

include h

theorem addNewThread (hstep : s.addNewThreadToProcess pid ok = some s') : Coherent s' := by
  obtain ⟨sys, hsys, rfl⟩ := Option.map_eq_some_iff.mp hstep
  cases joined hsys with
  | unchanged => exact h.enroll_same rfl rfl
  | drawn htid =>
    apply h.enroll_same
    · rfl
    · rfl
  | done proc hproc htid =>
    rw [← setAuthority_self (s.enroll _ _) pid]
    refine h.join rfl rfl rfl (nextTid_free htid) (Finset.mem_insert_self _ _) ?_ ?_
    · intro old hold
      obtain rfl : proc = old := Option.some.inj (hproc.symm.trans hold)
      exact ⟨rfl, rfl⟩
    · intro hnone
      exact nomatch hnone.symm.trans hproc

theorem createKernelThread (hstep : s.createKernelThread ok = some s') :
    Coherent s' := by
  obtain ⟨sys, hsys, rfl⟩ := Option.map_eq_some_iff.mp hstep
  rcases createKernelThread_cases hsys with rfl | ⟨tid, htid, rfl⟩
  · exact h.enroll_same rfl rfl
  have hfree := nextTid_free htid
  have registered : ∀ t u, s.sys.registry.get t = some u →
      (s.sys.register 0 tid).registry.get t = some u :=
    fun _ _ hu => get_insert_of_none hfree hu
  refine ⟨⟨?_, ?_⟩, ?_⟩
  · intro p new hnew t ht
    obtain ⟨u, hu, hpid⟩ := h.housed.members p new hnew t ht
    exact ⟨u, registered t u hu, hpid⟩
  · intro t u hu huser
    rcases s.sys.registry.get_insert_eq_some.mp hu with ⟨rfl, rfl⟩ | ⟨_, hu⟩
    · exact absurd rfl huser
    · exact h.housed.home t u hu huser
  intro p new hnew t ht
  obtain ⟨u, hu, _⟩ := h.housed.members p new hnew t ht
  rw [enroll_copy hu]
  exact h.copies p new hnew t ht

/-- A start that fails moves the counters at most. -/
theorem createNewProcess_failed (hfail : ending ≠ .done)
    (hstep : s.sys.createNewProcess parentPid detached ending = some sys) :
    Coherent { s with sys } := by
  have hsame : sys.registry = s.sys.registry ∧ sys.processes = s.sys.processes := by
    cases ending with
    | done => exact absurd rfl hfail
    | image =>
      cases hstep
      exact ⟨rfl, rfl⟩
    | thread =>
      simp only [System.createNewProcess, Option.bind_eq_bind, Option.bind_eq_some_iff] at hstep
      obtain ⟨_, _, hstep⟩ := hstep
      cases hstep
      exact ⟨rfl, rfl⟩
    | kernelMap =>
      simp only [System.createNewProcess, Option.bind_eq_bind, Option.bind_eq_some_iff] at hstep
      obtain ⟨_, _, _, _, hstep⟩ := hstep
      cases hstep
      exact ⟨rfl, rfl⟩
  apply h.trimmed
  refine ⟨⟨?_, ?_⟩, ?_⟩
  · rw [hsame.1, hsame.2]
    exact h.housed.members
  · rw [hsame.1, hsame.2]
    exact h.housed.home
  · rw [hsame.2]
    exact fun p new hnew => ⟨new, hnew, Finset.Subset.refl _⟩

/-- A started process is in the table, and its thread has its permissions and ids. -/
theorem createNewProcess {perms : Option Permissions}
    (hstep : s.createNewProcess parentPid detached ending perms = some s') :
    Coherent s' ∧ (ending = .done → ∃ proc,
      s'.sys.processes.get s'.sys.currentProcessId = some proc) := by
  unfold State.createNewProcess at hstep
  split at hstep
  · cases hstep
  next sys hsys =>
  split at hstep
  · next hdone =>
    subst hdone
    cases hstep
    simp only [System.createNewProcess, Option.bind_eq_bind, Option.bind_eq_some_iff] at hsys
    obtain ⟨pid, hpid, tid, htid, hsys⟩ := hsys
    cases hsys
    have hnone := nextPid_free hpid
    refine ⟨?_, fun _ => ⟨_, get_insert_self ..⟩⟩
    refine h.join rfl rfl rfl (nextTid_free htid) (Finset.mem_singleton_self _) ?_ fun _ => rfl
    intro old hold
    cases hnone.symm.trans hold
  next hfail =>
  cases hstep
  exact ⟨h.createNewProcess_failed hfail hsys, fun hdone => absurd hdone hfail⟩

theorem spawn
    {call : SpawnCall} (hstep : s.spawn parentPid detached ending call = some s') :
    Coherent s' := by
  cases call with
  | plain perms => exact (h.createNewProcess hstep).1
  | v2 childPerms credentials =>
    simp only [State.spawn, State.installSpawn] at hstep
    split at hstep
    · cases hstep
    next mid hmid =>
    obtain ⟨hcoherent, hchild⟩ := h.createNewProcess hmid
    split at hstep
    · next hdone =>
      obtain ⟨proc, hproc⟩ := hchild hdone
      cases hstep
      exact hcoherent.refresh hproc rfl
    · cases hstep
      exact hcoherent

theorem lifecycle {a : Proc.Action}
    (htrim : ∀ sys, Proc.step s.sys a = some sys → Trimmed s.sys sys)
    (hstep : s.lifecycle a = some s') : Coherent s' := by
  obtain ⟨sys, hsys, rfl⟩ := Option.map_eq_some_iff.mp hstep
  exact h.trimmed (htrim sys hsys)

theorem step {a : Action} (hstep : step s a = some s') : Coherent s' := by
  cases a with
  | pledge pid request =>
    cases hstep
    unfold State.runPledgeReq
    split
    · exact h
    split
    · exact h
    next hproc =>
    dsimp only
    exact h.refresh hproc rfl
  | setuid pid uid =>
    cases hstep
    unfold State.runSetuid
    split
    · exact h
    next hproc =>
    dsimp only
    split
    · exact h
    dsimp only
    refine h.refresh hproc ?_
    simp only [Authority.snapshot, setuid_gids]
  | setgid pid gid =>
    cases hstep
    unfold State.runSetgid
    split
    · exact h
    next hproc =>
    dsimp only
    split
    · exact h
    dsimp only
    refine h.refresh hproc ?_
    simp only [Authority.snapshot, setgid_uids]
  | spawn parentPid detached ending call => exact h.spawn hstep
  | createThread pid ok => exact h.addNewThread hstep
  | createKernelThread ok => exact h.createKernelThread hstep
  | exit tid status =>
    refine h.lifecycle (fun sys hsys => ?_) hstep
    obtain ⟨th, hth, rfl⟩ := exit_cases hsys
    exact h.housed.setThread hth rfl
  | fault tid =>
    refine h.lifecycle (fun sys hsys => ?_) hstep
    obtain ⟨th, hth, rfl⟩ := fault_cases hsys
    exact h.housed.setThread hth rfl
  | exitGroup pid leader code =>
    refine h.lifecycle (fun sys hsys => ?_) hstep
    cases hsys
    exact h.housed.exitGroup
  | wait pid tid target =>
    refine h.lifecycle (fun sys hsys => ?_) hstep
    cases hsys
    obtain ⟨hsets, hreg⟩ := SameSets.waited (waited s.sys pid tid target)
    refine h.housed.trimmed hsets ?_ ?_
    · rw [hreg]
      exact fun t th hth => ⟨th, hth, rfl⟩
    · rw [hreg]
      exact fun t th hth => ⟨th, hth, rfl⟩
  | cleanup =>
    refine h.lifecycle (fun sys hsys => ?_) hstep
    exact h.housed.cleanup hsys

end Coherent

/-- In every run, whatever requests are handled in whatever order: a registered thread other than
the kernel's own is in the thread set of its process, and every thread in the set of a process,
sibling or newcomer, has the permissions, the role and the ids of the process in its own copy. -/
theorem snapshots_coherent {s : State} (run : Reach step (fun _ _ => True) Start s) :
    (∀ tid th, s.sys.registry.get tid = some th → th.pid ≠ 0 →
      ∃ proc, s.sys.processes.get th.pid = some proc ∧ tid ∈ proc.threads) ∧
    ∀ pid proc, s.sys.processes.get pid = some proc → ∀ tid ∈ proc.threads,
      (∃ th, s.sys.registry.get tid = some th ∧ th.pid = pid) ∧
        (s.copy tid).perms = (s.authority pid).permissions.perms ∧
        (s.copy tid).role = (s.authority pid).permissions.role ∧
        (s.copy tid).uids = ((s.authority pid).credentials.uid, (s.authority pid).credentials.euid,
          (s.authority pid).credentials.suid) ∧
        (s.copy tid).gids = ((s.authority pid).credentials.gid, (s.authority pid).credentials.egid,
          (s.authority pid).credentials.sgid) := by
  have h : Coherent s := by
    refine run.invariant ?_ fun _ _ _ h _ => h.step
    intro s hs
    unfold Start at hs
    refine ⟨⟨?_, ?_⟩, ?_⟩ <;> rw [hs]
    · exact fun p proc hp => nomatch hp
    · exact fun t th ht => nomatch ht
    · exact fun p proc hp => nomatch hp
  refine ⟨h.housed.home, fun pid proc hproc tid hmem => ?_⟩
  rw [h.copies pid proc hproc tid hmem]
  exact ⟨h.housed.members pid proc hproc tid hmem, rfl, rfl, rfl, rfl⟩

/-- Nothing started yet. -/
def boot : State :=
  ⟨Proc.initial, fun _ => ⟨.zero, .root⟩, fun _ => ⟨0, .noRole, (0, 0, 0), (0, 0, 0)⟩⟩

/-- A process pledges and drops root between the creation of its second and third thread. -/
def pledgeBetween : List Action :=
  [.spawn 0 false .done (.plain none), .createThread 1 true, .pledge 1 (some ⟨Perm.Class.stdio, 0⟩),
    .setuid 1 1000, .createThread 1 true]

theorem snapshots_coherent_siblings :
    ∃ s, Reach step (fun _ _ => True) Start s ∧
      (s.authority 1).permissions.perms = Perm.Class.stdio ∧
      (s.copy 2).perms = Perm.Class.stdio ∧
      (s.copy 2).uids = (1000, 1000, 1000) ∧ (s.copy 3).uids = (1000, 1000, 1000) := by
  have hstart : Reach step (fun _ _ => True) Start boot := .start rfl
  obtain ⟨s, run, hproc, hperms, huids⟩ := hstart.exists_of_exec pledgeBetween
    (fun s => (s.sys.processes.get 1).map Process.threads = some {1, 2, 3} ∧
      (s.authority 1).permissions.perms = Perm.Class.stdio ∧
      ((s.authority 1).credentials.uid, (s.authority 1).credentials.euid,
        (s.authority 1).credentials.suid) = (1000, 1000, 1000)) (by decide +kernel)
  obtain ⟨proc, hget, hthreads⟩ := Option.map_eq_some_iff.mp hproc
  have hcopies := (snapshots_coherent run).2 1 proc hget
  obtain ⟨-, hperms2, -, huids2, -⟩ := hcopies 2 (by rw [hthreads]; decide)
  obtain ⟨-, -, -, huids3, -⟩ := hcopies 3 (by rw [hthreads]; decide)
  exact ⟨s, run, hperms, by rw [hperms2, hperms], huids2.trans huids, huids3.trans huids⟩

end Orbit.Proc.Snapshots
