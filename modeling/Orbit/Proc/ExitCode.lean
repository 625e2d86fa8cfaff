import Orbit.Proc.Agreement

/-!
The exit code an exit group records for a process is the one its parent gets, as long as
no thread of the process carries a fault when the code is recorded or takes one
afterwards, and the code is not recorded anew.
-/

namespace Orbit.Proc

open Store Transition

variable {s s' : System} {a : Action} {pid p : Pid} {tid : Tid} {th : Thread} {proc : Process}
  {n : Nat} {c c' : Int}

/-- An exit group is recorded only for a process without a faulted thread that has no other code
yet, and no thread of a process faults once a code is recorded. -/
def CodeKept (s : System) : Action → Prop
  | .exitGroup pid _ code => ∀ proc ∈ s.processes.get pid,
      (∀ e ∈ s.registry.entries, e.2.pid = pid → e.2.faulted = false) ∧
        (proc.exitFinalized = true → proc.exitCode = code)
  | .fault tid => ∀ th ∈ s.registry.get tid, ∀ proc ∈ s.processes.get th.pid,
      proc.exitFinalized = false
  | _ => True

instance (s : System) : ∀ a, Decidable (CodeKept s a)
  | .exitGroup pid _ code => inferInstanceAs (Decidable (∀ proc ∈ s.processes.get pid,
      (∀ e ∈ s.registry.entries, e.2.pid = pid → e.2.faulted = false) ∧
        (proc.exitFinalized = true → proc.exitCode = code)))
  | .fault tid => inferInstanceAs (Decidable (∀ th ∈ s.registry.get tid,
      ∀ proc ∈ s.processes.get th.pid, proc.exitFinalized = false))
  | .spawn _ _ _ | .createThread _ _ | .createKernelThread _ | .exit _ _ | .wait _ _ _ | .cleanup =>
    inferInstanceAs (Decidable True)

/-- Process number `n` is gone, and `c` is the only code that was ever recorded for it. -/
structure Gone (s : System) (n : Nat) (c : Int) : Prop where
  old : n < s.spawned
  dead : ∀ p proc, s.processes.get p = some proc → proc.id ≠ n
  code : ∀ c', (n, c') ∈ s.recorded → c' = c

structure Kept (s : System) : Prop where
  ids : ∀ p proc, s.processes.get p = some proc → proc.id < s.spawned
  unique : ∀ p q a b, s.processes.get p = some a → s.processes.get q = some b → a.id = b.id → p = q
  known : ∀ n c, (n, c) ∈ s.recorded → n < s.spawned
  unrecorded : ∀ p proc, s.processes.get p = some proc → proc.exitFinalized = false →
    ∀ c, (proc.id, c) ∉ s.recorded
  recorded : ∀ p proc, s.processes.get p = some proc → proc.exitFinalized = true →
    ∀ c, (proc.id, c) ∈ s.recorded → c = proc.exitCode
  faultless : ∀ p proc, s.processes.get p = some proc → proc.exitFinalized = true →
    ∀ t th, s.registry.get t = some th → th.pid = p → th.faulted = false
  delivered : ∀ n c, (n, c) ∈ s.delivered → Gone s n c
  stored : ∀ p proc k st, s.processes.get p = some proc → proc.deadChildren.get k = some st →
    Gone s st.child st.code

/-- A process after a step is one before it, with the same number and the same recorded code, and
the codes it stores are of processes that are gone. -/
def Backed (s s' : System) : Prop :=
  ∀ p new, s'.processes.get p = some new → ∃ old, s.processes.get p = some old ∧
    new.id = old.id ∧ new.exitFinalized = old.exitFinalized ∧
    (old.exitFinalized = true → new.exitCode = old.exitCode) ∧
    ∀ k st, new.deadChildren.get k = some st → Gone s st.child st.code

theorem Gone.transfer (gone : Gone s n c) (back : Backed s s') (hspawned : s'.spawned = s.spawned)
    (hrecorded : s'.recorded = s.recorded) : Gone s' n c := by
  refine ⟨hspawned ▸ gone.old, ?_, hrecorded ▸ gone.code⟩
  intro p new hnew
  obtain ⟨old, hold, hid, _⟩ := back p new hnew
  rw [hid]
  exact gone.dead p old hold

namespace Kept

theorem backed (kept : Kept s) : Backed s s := by
  intro p new hnew
  exact ⟨new, hnew, rfl, rfl, fun _ => rfl, fun k st hst => kept.stored p new k st hnew hst⟩

/-- One process is changed in something else than its number and a recorded code. -/
theorem backed_setProcess (kept : Kept s) (hproc : s.processes.get pid = some proc)
    {proc' : Process} (hid : proc'.id = proc.id)
    (hfinal : proc'.exitFinalized = proc.exitFinalized)
    (hcode : proc.exitFinalized = true → proc'.exitCode = proc.exitCode)
    (hdead : ∀ k st, proc'.deadChildren.get k = some st → Gone s st.child st.code) :
    Backed s (s.setProcess pid proc') := by
  intro p new hnew
  rcases s.processes.get_insert_eq_some.mp hnew with ⟨rfl, rfl⟩ | ⟨_, hnew⟩
  · exact ⟨proc, hproc, hid, hfinal, hcode, hdead⟩
  · exact kept.backed p new hnew

/-- A step that records nothing. A new fault is of a process without a recorded code, and a code
is handed over only of a process that is gone. -/
theorem transfer (kept : Kept s) (back : Backed s s') (hspawned : s'.spawned = s.spawned)
    (hrecorded : s'.recorded = s.recorded)
    (hfault : ∀ t th, s'.registry.get t = some th → th.faulted = true →
      (∃ t₀ th₀, s.registry.get t₀ = some th₀ ∧ th₀.pid = th.pid ∧ th₀.faulted = true) ∨
        ∀ proc, s.processes.get th.pid = some proc → proc.exitFinalized = false)
    (hdelivered : ∀ n c, (n, c) ∈ s'.delivered → (n, c) ∈ s.delivered ∨ Gone s n c) : Kept s' := by
  constructor
  · intro p new hnew
    obtain ⟨old, hold, hid, _⟩ := back p new hnew
    rw [hid, hspawned]
    exact kept.ids p old hold
  · intro p q a b ha hb hab
    obtain ⟨a', ha', hia, _⟩ := back p a ha
    obtain ⟨b', hb', hib, _⟩ := back q b hb
    rw [hia, hib] at hab
    exact kept.unique p q a' b' ha' hb' hab
  · rw [hrecorded, hspawned]
    exact kept.known
  · intro p new hnew hfin c
    obtain ⟨old, hold, hid, hfo, _⟩ := back p new hnew
    rw [hid, hrecorded]
    exact kept.unrecorded p old hold (hfo ▸ hfin) c
  · intro p new hnew hfin c hrec
    obtain ⟨old, hold, hid, hfo, hco, _⟩ := back p new hnew
    rw [hid, hrecorded] at hrec
    rw [hco (hfo ▸ hfin)]
    exact kept.recorded p old hold (hfo ▸ hfin) c hrec
  · intro p new hnew hfin t th hth hp
    obtain ⟨old, hold, _, hfo, _⟩ := back p new hnew
    rw [Bool.eq_false_iff]
    intro hfaulted
    rcases hfault t th hth hfaulted with ⟨t₀, th₀, hth₀, hp₀, hf₀⟩ | hopen
    · have := kept.faultless p old hold (hfo ▸ hfin) t₀ th₀ hth₀ (hp₀.trans hp)
      rw [hf₀] at this
      cases this
    have := hopen old (hp ▸ hold)
    rw [← hfo, hfin] at this
    cases this
  · intro n c hdel
    rcases hdelivered n c hdel with hold | gone
    · exact (kept.delivered n c hold).transfer back hspawned hrecorded
    · exact gone.transfer back hspawned hrecorded
  intro p new k st hnew hst
  obtain ⟨_, _, _, _, _, hdead⟩ := back p new hnew
  exact (hdead k st hst).transfer back hspawned hrecorded

/-- No thread is new or changed. -/
theorem sameFaults (hreg : ∀ t th, s'.registry.get t = some th → s.registry.get t = some th) :
    ∀ t th, s'.registry.get t = some th → th.faulted = true →
      (∃ t₀ th₀, s.registry.get t₀ = some th₀ ∧ th₀.pid = th.pid ∧ th₀.faulted = true) ∨
        ∀ proc, s.processes.get th.pid = some proc → proc.exitFinalized = false := by
  intro t th hth hf
  exact .inl ⟨t, th, hreg t th hth, rfl, hf⟩

variable (kept : Kept s)

include kept

theorem setProcess (hproc : s.processes.get pid = some proc) {proc' : Process}
    (hid : proc'.id = proc.id) (hfinal : proc'.exitFinalized = proc.exitFinalized)
    (hcode : proc.exitFinalized = true → proc'.exitCode = proc.exitCode)
    (hdead : proc'.deadChildren = proc.deadChildren) : Kept (s.setProcess pid proc') := by
  refine kept.transfer (kept.backed_setProcess hproc hid hfinal hcode ?_) rfl rfl
    (sameFaults fun _ _ h => h) fun _ _ h => .inl h
  intro k st hst
  exact kept.stored pid proc k st hproc (hdead ▸ hst)

/-- A dead process hands its code over. -/
theorem handedOver (gone : Gone s proc.id proc.exitCode)
    (handed : HandedOver s pid proc s') : Kept s' := by
  have one : ∀ n c, (n, c) ∈ s.delivered ++ [(proc.id, proc.exitCode)] →
      (n, c) ∈ s.delivered ∨ Gone s n c := by
    intro n c h
    simp only [List.mem_append, List.mem_singleton, Prod.mk.injEq] at h
    rcases h with h | ⟨rfl, rfl⟩
    · exact .inl h
    · exact .inr gone
  cases handed with
  | dropped => exact kept
  | waiter tid => exact kept.transfer kept.backed rfl rfl (sameFaults fun _ _ h => h) one
  | anyWaiter parent tid hparent =>
    exact kept.transfer (kept.backed_setProcess hparent rfl rfl (fun _ => rfl)
      fun k st hst => kept.stored _ parent k st hparent hst) rfl rfl (sameFaults fun _ _ h => h) one
  | stored parent hparent =>
    refine kept.transfer (kept.backed_setProcess hparent rfl rfl (fun _ => rfl) ?_) rfl rfl
      (sameFaults fun _ _ h => h) one
    intro k st hst
    rcases parent.deadChildren.get_insert_eq_some.mp hst with ⟨_, rfl⟩ | ⟨_, hst⟩
    · exact gone
    · exact kept.stored _ parent k st hparent hst

/-- A dead thread leaves its process. It carries no fault, so a recorded code stays. -/
theorem reaped (hth : s.registry.get tid = some th)
    (hproc : s.processes.get th.pid = some proc) :
    Kept (s.setProcess th.pid (proc.reap tid th)) := by
  refine kept.setProcess hproc rfl rfl ?_ rfl
  intro hfinal
  have hclear := kept.faultless _ proc hproc hfinal tid th hth rfl
  simp [Process.reap, hclear, hfinal]

/-- A process leaves the table with the code that was recorded, if one was. -/
theorem removed (hproc : s.processes.get pid = some proc)
    (handed : HandedOver { s with processes := s.processes.erase pid } pid proc s') : Kept s' := by
  have back : Backed s { s with processes := s.processes.erase pid } := by
    intro q new hnew
    exact kept.backed q new (s.processes.get_erase_eq_some.mp hnew).2
  have kept' : Kept { s with processes := s.processes.erase pid } :=
    kept.transfer back rfl rfl (sameFaults fun _ _ h => h) fun n c h => .inl h
  refine kept'.handedOver ⟨kept.ids pid proc hproc, ?_, ?_⟩ handed
  · intro q other hother heq
    obtain ⟨hq, hother⟩ := s.processes.get_erase_eq_some.mp hother
    exact hq (kept.unique q pid other proc hother hproc heq)
  intro c' hrec
  cases hfin : proc.exitFinalized with
  | false => exact absurd hrec (kept.unrecorded pid proc hproc hfin c')
  | true => exact kept.recorded pid proc hproc hfin c' hrec

theorem cleanup (hs : s.cleanup = some s') : Kept s' := by
  refine cleanup_invariant ?_ ?_ ?_ kept hs
  · intro s tid th proc kept hth hproc
    exact kept.reaped hth hproc
  · intro s tid kept
    refine kept.transfer kept.backed rfl rfl (sameFaults ?_) fun n c h => .inl h
    intro t th hth
    exact (s.registry.get_erase_eq_some.mp hth).2
  · intro s pid proc s' kept hproc handed
    exact kept.removed hproc handed

/-- A thread is entered that has not faulted. -/
theorem register (pid : Pid) (tid : Tid) : Kept (s.register pid tid) := by
  refine kept.transfer kept.backed rfl rfl ?_ fun n c h => .inl h
  intro t th hth hf
  rcases s.registry.get_insert_eq_some.mp hth with ⟨_, rfl⟩ | ⟨_, hth⟩
  · cases hf
  · exact .inl ⟨t, th, hth, rfl, hf⟩

/-- A new process with a number of its own. -/
theorem install (hfree : s.processes.get pid = none)
    (hid : proc.id = s.spawned) (hopen : proc.exitFinalized = false)
    (hdead : proc.deadChildren = .empty) :
    Kept { s.setProcess pid proc with spawned := s.spawned + 1 } := by
  have hget : ∀ p new, (s.processes.insert pid proc).get p = some new →
      (p = pid ∧ new = proc) ∨ s.processes.get p = some new := by
    intro p new h
    exact (s.processes.get_insert_eq_some.mp h).imp_right And.right
  have gone : ∀ n c, Gone s n c →
      Gone { s.setProcess pid proc with spawned := s.spawned + 1 } n c := by
    intro n c h
    refine ⟨Nat.lt_succ_of_lt h.old, ?_, h.code⟩
    intro p new hnew
    rcases hget p new hnew with ⟨rfl, rfl⟩ | hnew
    · rw [hid]
      exact fun heq => Nat.lt_irrefl _ (heq ▸ h.old)
    · exact h.dead p new hnew
  constructor
  · intro p new hnew
    rcases hget p new hnew with ⟨rfl, rfl⟩ | hnew
    · rw [hid]
      exact Nat.lt_succ_self _
    · exact Nat.lt_succ_of_lt (kept.ids p new hnew)
  · intro p q a b ha hb hab
    rcases hget p a ha with ⟨rfl, rfl⟩ | hold <;> rcases hget q b hb with ⟨rfl, rfl⟩ | hold'
    · rfl
    · have := kept.ids q b hold'
      rw [← hab, hid] at this
      exact absurd this (Nat.lt_irrefl _)
    · have := kept.ids p a hold
      rw [hab, hid] at this
      exact absurd this (Nat.lt_irrefl _)
    · exact kept.unique p q a b hold hold' hab
  · intro n c h
    exact Nat.lt_succ_of_lt (kept.known n c h)
  · intro p new hnew hfin c
    rcases hget p new hnew with ⟨rfl, rfl⟩ | hnew
    · intro hrec
      have := kept.known _ _ hrec
      rw [hid] at this
      exact Nat.lt_irrefl _ this
    · exact kept.unrecorded p new hnew hfin c
  · intro p new hnew hfin
    rcases hget p new hnew with ⟨rfl, rfl⟩ | hnew
    · rw [hopen] at hfin
      cases hfin
    · exact kept.recorded p new hnew hfin
  · intro p new hnew hfin
    rcases hget p new hnew with ⟨rfl, rfl⟩ | hnew
    · rw [hopen] at hfin
      cases hfin
    · exact kept.faultless p new hnew hfin
  · intro n c h
    exact gone n c (kept.delivered n c h)
  intro p new k st hnew hst
  rcases hget p new hnew with ⟨rfl, rfl⟩ | hnew
  · rw [hdead] at hst
    cases hst
  · exact gone _ _ (kept.stored p new k st hnew hst)

/-- The counters and the answers are no part of the invariant. -/
theorem counters (pid : Pid) (tid : Tid) :
    Kept { s with currentProcessId := pid, currentThreadId := tid } :=
  kept.transfer kept.backed rfl rfl (sameFaults fun _ _ h => h) fun _ _ h => .inl h

theorem spawn {parentPid : Pid} {detached : Bool}
    (start : Spawned s parentPid detached s') : Kept s' := by
  cases start with
  | unchanged => exact kept
  | drawnPid _ => exact kept.counters _ _
  | drawnBoth _ _ => exact kept.counters _ _
  | @done pid tid hpid htid =>
    have kept' : Kept { s.setProcess pid { Process.new parentPid detached s.spawned with
        threads := {tid} } with spawned := s.spawned + 1 } :=
      kept.install (nextPid_free hpid) rfl rfl rfl
    exact (kept'.register pid tid).counters pid tid

theorem createThread (join : Joined s pid s') : Kept s' := by
  cases join with
  | unchanged => exact kept
  | drawn _ => exact kept.counters _ _
  | @done tid proc hproc _ =>
    have kept' : Kept (s.setProcess pid { proc with threads := insert tid proc.threads }) :=
      kept.setProcess hproc rfl rfl (fun _ => rfl) rfl
    exact kept'.register pid tid

/-- Killed threads are as faultless as before. -/
theorem killSiblings (leader : Tid) (threads : Finset Tid) :
    Kept (s.killSiblings leader threads) := by
  refine kept.transfer kept.backed rfl rfl ?_ fun _ _ h => .inl h
  intro t th hth hf
  rw [System.killSiblings, Table.get_map] at hth
  obtain ⟨old, hold, rfl⟩ := Option.map_eq_some_iff.mp hth
  refine .inl ⟨t, old, hold, ?_, ?_⟩
  · split <;> rfl
  · split at hf <;> exact hf

/-- The code of a process without faulted threads is recorded. -/
theorem record {code : Int} (hproc : s.processes.get pid = some proc)
    (hclear : ∀ t th, s.registry.get t = some th → th.pid = pid → th.faulted = false)
    (hsame : proc.exitFinalized = true → proc.exitCode = code) :
    Kept { s.setProcess pid { proc with exitCode := code, exitFinalized := true } with
      recorded := s.recorded ++ [(proc.id, code)] } := by
  have hget : ∀ p new, (s.processes.insert pid
      { proc with exitCode := code, exitFinalized := true }).get p = some new →
      (p = pid ∧ new = { proc with exitCode := code, exitFinalized := true }) ∨
        (p ≠ pid ∧ s.processes.get p = some new) := by
    intro p new h
    exact s.processes.get_insert_eq_some.mp h
  have hrec : ∀ n c, (n, c) ∈ s.recorded ++ [(proc.id, code)] →
      (n, c) ∈ s.recorded ∨ (n = proc.id ∧ c = code) := by
    intro n c h
    simpa using h
  have gone : ∀ n c, Gone s n c → Gone { s.setProcess pid
      { proc with exitCode := code, exitFinalized := true } with
        recorded := s.recorded ++ [(proc.id, code)] } n c := by
    intro n c h
    refine ⟨h.old, ?_, ?_⟩
    · intro p new hnew
      rcases hget p new hnew with ⟨rfl, rfl⟩ | ⟨_, hnew⟩
      · exact h.dead p proc hproc
      · exact h.dead p new hnew
    intro c' hc'
    rcases hrec n c' hc' with hold | ⟨rfl, _⟩
    · exact h.code c' hold
    · exact absurd rfl (h.dead pid proc hproc)
  constructor
  · intro p new hnew
    rcases hget p new hnew with ⟨rfl, rfl⟩ | ⟨_, hnew⟩
    · exact kept.ids p proc hproc
    · exact kept.ids p new hnew
  · intro p q a b ha hb hab
    rcases hget p a ha with ⟨rfl, rfl⟩ | ⟨_, hold⟩ <;>
      rcases hget q b hb with ⟨rfl, rfl⟩ | ⟨_, hold'⟩
    · rfl
    · exact kept.unique p q proc b hproc hold' hab
    · exact kept.unique p q a proc hold hproc hab
    · exact kept.unique p q a b hold hold' hab
  · intro n c h
    rcases hrec n c h with hold | ⟨rfl, _⟩
    · exact kept.known n c hold
    · exact kept.ids pid proc hproc
  · intro p new hnew hfin c h
    rcases hget p new hnew with ⟨rfl, rfl⟩ | ⟨hp, hnew⟩
    · cases hfin
    rcases hrec _ c h with hold | ⟨hid, _⟩
    · exact kept.unrecorded p new hnew hfin c hold
    · exact hp (kept.unique p pid new proc hnew hproc hid)
  · intro p new hnew hfin c h
    rcases hget p new hnew with ⟨rfl, rfl⟩ | ⟨hp, hnew⟩
    · rcases hrec _ c h with hold | ⟨_, rfl⟩
      · cases hf : proc.exitFinalized with
        | false => exact absurd hold (kept.unrecorded p proc hproc hf c)
        | true => exact (kept.recorded p proc hproc hf c hold).trans (hsame hf)
      · rfl
    rcases hrec _ c h with hold | ⟨hid, _⟩
    · exact kept.recorded p new hnew hfin c hold
    · exact absurd (kept.unique p pid new proc hnew hproc hid) hp
  · intro p new hnew hfin t th hth hp
    rcases hget p new hnew with ⟨rfl, rfl⟩ | ⟨_, hnew⟩
    · exact hclear t th hth hp
    · exact kept.faultless p new hnew hfin t th hth hp
  · intro n c h
    exact gone n c (kept.delivered n c h)
  intro p new k st hnew hst
  rcases hget p new hnew with ⟨rfl, rfl⟩ | ⟨_, hnew⟩
  · exact gone _ _ (kept.stored p proc k st hproc hst)
  · exact gone _ _ (kept.stored p new k st hnew hst)

theorem exitGroup {leader : Tid} {code : Int}
    (hguard : CodeKept s (.exitGroup pid leader code)) :
    Kept (s.requestExitGroup pid leader code) := by
  unfold System.requestExitGroup
  split
  · exact kept
  next proc hproc =>
  obtain ⟨hclear, hsame⟩ := hguard proc hproc
  have recorded := kept.record hproc
    (fun t th hth => hclear (t, th) (s.registry.get_eq_some.mp hth)) hsame
  exact recorded.killSiblings leader proc.threads

theorem wait (wait : Waited s pid tid s') : Kept s' := by
  cases wait with
  | answered _ =>
    exact kept.transfer kept.backed rfl rfl (sameFaults fun _ _ h => h) fun _ _ h => .inl h
  | parkedAny parent hparent => exact kept.setProcess hparent rfl rfl (fun _ => rfl) rfl
  | parked target proc hproc => exact kept.setProcess hproc rfl rfl (fun _ => rfl) rfl
  | taken parent child st vals hparent hchild =>
    refine kept.transfer (kept.backed_setProcess hparent rfl rfl (fun _ => rfl) ?_) rfl rfl
      (sameFaults fun _ _ h => h) ?_
    · intro k st' hst'
      exact kept.stored _ parent k st' hparent (parent.deadChildren.get_erase_eq_some.mp hst').2
    intro n c h
    simp only [System.deliver, System.publish, System.setProcess, List.mem_append,
      List.mem_singleton, Prod.mk.injEq] at h
    rcases h with h | ⟨rfl, rfl⟩
    · exact .inl h
    · exact .inr (kept.stored _ parent child st hparent hchild)

/-- A thread changes; a new fault is of a process without a recorded code. -/
theorem setThread (hth : s.registry.get tid = some th) {th' : Thread}
    (hpid : th'.pid = th.pid) (hfault : th'.faulted = true → th.faulted = true ∨
      ∀ proc, s.processes.get th.pid = some proc → proc.exitFinalized = false) :
    Kept (s.setThread tid th') := by
  refine kept.transfer kept.backed rfl rfl ?_ fun _ _ h => .inl h
  intro t u hu hf
  rcases s.registry.get_insert_eq_some.mp hu with ⟨_, rfl⟩ | ⟨_, hu⟩
  · rcases hfault hf with hold | hopen
    · exact .inl ⟨tid, th, hth, hpid.symm, hold⟩
    · exact .inr (hpid ▸ hopen)
  · exact .inl ⟨t, u, hu, rfl, hf⟩

theorem preserved (hguard : CodeKept s a) (hs : step s a = some s') : Kept s' := by
  cases a with
  | spawn parentPid detached ending => exact kept.spawn (spawned hs)
  | createThread pid ok => exact kept.createThread (joined hs)
  | createKernelThread ok =>
    rcases createKernelThread_cases hs with rfl | ⟨tid, _, rfl⟩
    · exact kept
    · exact kept.register 0 tid
  | exit tid status =>
    obtain ⟨th, hth, rfl⟩ := exit_cases hs
    exact kept.setThread hth rfl fun h => .inl h
  | fault tid =>
    obtain ⟨th, hth, rfl⟩ := fault_cases hs
    exact kept.setThread hth rfl fun _ => .inr fun proc hproc => hguard th hth proc hproc
  | exitGroup pid leader code =>
    cases hs
    exact kept.exitGroup hguard
  | wait pid tid target =>
    cases hs
    exact kept.wait (waited s pid tid target)
  | cleanup => exact kept.cleanup hs

end Kept

theorem initial_kept : Kept initial := by
  constructor <;> simp [initial]

/-- In every run that meets the condition, a code handed to a waiter or stored for the parent is
the one an exit group recorded for the process, if one did. -/
theorem exit_code_stable (run : Reach step CodeKept (· = initial) s)
    (hrecorded : (n, c) ∈ s.recorded) (hdelivered : (n, c') ∈ s.delivered) : c' = c := by
  have kept : Kept s := by
    apply run.invariant
    · rintro s rfl
      exact initial_kept
    · intro s a s' kept hguard hs
      exact kept.preserved hguard hs
  exact ((kept.delivered n c' hdelivered).code c hrecorded).symm

/-- Process 1 exits with code 7 while a second thread of it is alive. -/
theorem exit_code_stable_two_threads : ∃ s, Reach step CodeKept (· = initial) s ∧
    (1, 7) ∈ s.recorded ∧ (1, 7) ∈ s.delivered ∧ ∀ c', (1, c') ∈ s.delivered → c' = 7 := by
  have hstart : Reach step CodeKept (· = initial) initial := .start rfl
  obtain ⟨s, run, hrec, hdel⟩ := hstart.exists_of_exec
    [.spawn 0 false .done, .spawn 1 false .done, .createThread 2 true, .exitGroup 2 2 7, .exit 2 7,
      .exit 3 5, .cleanup]
    (fun s => (1, 7) ∈ s.recorded ∧ (1, 7) ∈ s.delivered) (by decide +kernel)
  exact ⟨s, run, hrec, hdel, fun c' h => exit_code_stable run hrec h⟩

/-- A sibling has faulted and is reaped after the exit group; and a second thread exits the group
with a code of its own. -/
theorem recorded_code_overwritten :
    (∃ s, Reach step (fun _ _ => True) (· = initial) s ∧ (1, 7) ∈ s.recorded ∧
      (1, -1) ∈ s.delivered) ∧
    ∃ s, Reach step (fun _ _ => True) (· = initial) s ∧ (1, 7) ∈ s.recorded ∧
      (1, 8) ∈ s.delivered := by
  have hstart : Reach step (fun _ _ => True) (· = initial) initial := .start rfl
  constructor
  · exact hstart.exists_of_exec
      [.spawn 0 false .done, .spawn 1 false .done, .createThread 2 true, .fault 3, .exitGroup 2 2 7,
        .exit 2 7, .cleanup]
      (fun s => (1, 7) ∈ s.recorded ∧ (1, -1) ∈ s.delivered) (by decide +kernel)
  exact hstart.exists_of_exec
    [.spawn 0 false .done, .spawn 1 false .done, .createThread 2 true, .exitGroup 2 2 7,
      .exitGroup 2 3 8, .exit 2 7, .exit 3 8, .cleanup]
    (fun s => (1, 7) ∈ s.recorded ∧ (1, 8) ∈ s.delivered) (by decide +kernel)

end Orbit.Proc
