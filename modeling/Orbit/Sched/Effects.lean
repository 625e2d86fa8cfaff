import Orbit.Sched.MgrEdges

/-!
What a step can do to the record of a thread. The accesses that matter to
the results about runs (stores of the state word, publishing and taking results,
copying them into the frame) are each made at one program point; every other access
leaves these parts of the record alone.
-/

namespace Orbit.Sched

open Function

variable {c : Choice} {m : Mgr} {th : Thread}

variable {s s' : State} {a : Action} {t : Tid} {h : Nat}

namespace HartPc

/-- The state word the hart is about to store. -/
@[simp] def stores : HartPc → Option (Tid × ThreadState)
  | .dispatchStore t => some (t, .running)
  | .parkStore t target _ => some (t, target)
  | .claimStore t _ => some (t, .ready)
  | _ => none

/-- The results the hart is about to copy into a frame. -/
@[simp] def copies : HartPc → Option (Tid × Published)
  | .claimed t p => some (t, p)
  | _ => none

end HartPc

namespace MgrPc

@[simp] def stores (registry : List Tid) : MgrPc → Option (Tid × ThreadState)
  | .resumeStore t _ | .promoteStore t _ _ => some (t, .ready)
  | .assignStore t _ _ => some (t, .assigned)
  | .kill _ _ (t :: _) => if t ∈ registry then some (t, .exited) else none
  | _ => none

@[simp] def copies : MgrPc → Option (Tid × Published)
  | .resumeWrite t p | .marshal t p _ => some (t, p)
  | _ => none

end MgrPc

namespace State

/-- The state word a step stores, and the thread it stores it for. -/
def stores (s : State) : Action → Option (Tid × ThreadState)
  | .hart h _ => (s.harts h).pc.stores
  | .manager _ => s.mgr.bind fun m => m.pc.stores s.registry
  | _ => none

/-- The results a step copies into a thread's frame. -/
def copies (s : State) : Action → Option (Tid × Published)
  | .hart h _ => (s.harts h).pc.copies
  | .manager _ => s.mgr.bind fun m => m.pc.copies
  | _ => none

/-- The thread whose results a step takes out of the slot. -/
def empties (s : State) : Action → Option Tid
  | .hart h _ => match (s.harts h).pc with
    | .claim t => some t
    | _ => none
  | .manager _ => s.mgr.bind fun m => match m.pc with
    | .take t _ | .resumeReset t _ => some t
    | _ => none
  | _ => none

end State

/-- The parts of a record that only the listed accesses change. -/
structure Thread.Alike (th th' : Thread) : Prop where
  pid : th'.pid = th.pid
  state : th'.state = th.state
  pending : th'.pending = th.pending
  regs : th'.regs = th.regs
  calls : th'.calls = th.calls
  answer : th'.answer = th.answer

/-- What a step does to the record of `t`. -/
inductive ThreadEffect (s : State) (a : Action) (t : Tid) (th th' : Thread) : Prop where
  | alike (h : th.Alike th')
  | store (st : ThreadState) (h : s.stores a = some (t, st)) (he : th' = th.store st)
  | empty (h : s.empties a = some t) (he : th' = th.resetPending)
  | copy (p : Published) (h : s.copies a = some (t, p)) (answer : Option Published)
      (ha : answer = th.answer ∨ answer = some p)
      (he : th' = { th.writeRets p.vals with answer })
  | publish (c : Choice) (ha : a = .manager c) (m : Mgr) (p : Published) (hm : s.mgr = some m)
      (hpc : m.pc = .publish t p)
      (he : th' = { th.publishResults p with answer := some p })
  /-- the thread's own hart saves its frame while the thread runs -/
  | save (h : Nat) (trap : Trap) (ha : a = .hart h trap) (hlt : h < s.nHarts)
      (hpc : (s.harts h).pc = .running t ∨
        ∃ target frame deadline, (s.harts h).pc = .commit t target frame deadline)
      (pid : th'.pid = th.pid) (state : th'.state = th.state) (pending : th'.pending = th.pending)
      (answer : th'.answer = th.answer)
      (calls : th'.calls = th.calls ∨ (s.harts h).pc = .running t ∧ th'.calls = th.calls + 1)
  /-- the thread is created -/
  | fresh (ht : t = s.nextTid)
      (he : ∃ pid allowed affinity frame, th' = .new pid allowed affinity frame)

theorem Thread.alike_refl (th : Thread) : th.Alike th := ⟨rfl, rfl, rfl, rfl, rfl, rfl⟩

namespace ThreadEffect

theorem of_same (hs : s'.threads = s.threads) (t : Tid) :
    ThreadEffect s a t (s.threads t) (s'.threads t) := by
  rw [hs]
  exact .alike (Thread.alike_refl _)

theorem of_update {u : Tid} (hs : s'.threads = update s.threads u th)
    (hu : ThreadEffect s a u (s.threads u) th) (t : Tid) :
    ThreadEffect s a t (s.threads t) (s'.threads t) := by
  rw [hs]
  by_cases ht : t = u
  · subst ht
    rw [update_self]
    exact hu
  · rw [update_of_ne ht]
    exact .alike (Thread.alike_refl _)

end ThreadEffect

/-- What one access of a hart does to a thread's record. -/
theorem hartStep_thread {trap : Trap} (hlt : h < s.nHarts) (hs : hartStep s h trap = some s')
    (u : Tid) : ThreadEffect s (.hart h trap) u (s.threads u) (s'.threads u) := by
  rcases hartStep_outcome hs with ⟨t, hart, th, ws, ns, hmove, hedge⟩ |
    ⟨_, _, _, rfl, _⟩ | ⟨_, _, _, rfl⟩
  · have hthreads : s'.threads = update s.threads t th := by rw [hmove]
    refine .of_update hthreads ?_ u
    cases hedge with
    | dispatchStore hpc | parkStore _ _ hpc | claimStore _ hpc =>
      exact .store _ (by simp [State.stores, hpc]) rfl
    | issue hpc =>
      exact .save h trap rfl hlt (.inl hpc) rfl rfl rfl rfl (.inr ⟨hpc, rfl⟩)
    | exit hpc | threadExit hpc | fault hpc =>
      exact .save h trap rfl hlt (.inl hpc) rfl rfl rfl rfl (.inl rfl)
    | commit target frame deadline hpc =>
      exact .save h trap rfl hlt (.inr ⟨_, _, _, hpc⟩) rfl rfl rfl rfl (.inl rfl)
    | claim p hpc => exact .empty (by simp [State.empties, hpc]) rfl
    | claimed p hpc => exact .copy p (by simp [State.copies, hpc]) _ (.inl rfl) rfl
    | _ => exact .alike ⟨rfl, rfl, rfl, rfl, rfl, rfl⟩
  · exact .of_same rfl u
  · exact .of_same rfl u

theorem MgrWrite.thread {pc : MgrPc} (hm : s.mgr = some m)
    (move : MgrWrite s m.pc t th pc) : ThreadEffect s (.manager c) t (s.threads t) th := by
  obtain ⟨self, pc₀⟩ := m
  cases move with
  | resumeWrite _ p => exact .copy p (by simp [State.copies, hm]) _ (.inr rfl) rfl
  | marshal _ p a => exact .copy p (by simp [State.copies, hm]) _ (.inl rfl) rfl
  | resumeReset | take => exact .empty (by simp [State.empties, hm]) rfl
  | publish _ p => exact .publish c rfl _ p hm rfl rfl
  | resumeStore | promoteStore | assignStore => exact .store _ (by simp [State.stores, hm]) rfl
  | kill pid leader _ rest ht => exact .store _ (by simp [State.stores, hm, ht]) rfl
  | scanNote | swapWake | assignReady | assignExited => exact .alike ⟨rfl, rfl, rfl, rfl, rfl, rfl⟩

/-- What one access of the manager does to a thread's record. -/
theorem mgrStep_thread (hm : s.mgr = some m) (hs : mgrStep s m c = some s') (u : Tid) :
    ThreadEffect s (.manager c) u (s.threads u) (s'.threads u) := by
  rcases mgrStep_outcome hs with ⟨edge⟩ | ⟨_, _, _, rfl, _⟩ | ⟨_, _, rfl, _⟩
  · cases edge with
    | write t th pc move => exact .of_update rfl (move.thread hm) u
    | reap t =>
      refine .of_update rfl ?_ u
      exact .alike ⟨rfl, rfl, rfl, rfl, rfl, rfl⟩
    | spawn t p pid _ _ _ rest proc th pc _ _ _ hth =>
      obtain ⟨allowed, affinity, frame, hth⟩ := hth
      by_cases hu : u = s.nextTid
      · subst hu
        refine .fresh rfl ⟨pid, allowed, affinity, frame, ?_⟩
        rw [← hth]
        exact update_self ..
      refine .alike ?_
      simp only [State.goto, State.admitThread, update_of_ne hu]
      exact Thread.alike_refl _
    | _ => exact .of_same rfl u
  · exact .of_same rfl u
  · exact .of_same rfl u

/-- The outcome of a step, by the actor that takes it. -/
inductive StepOutcome (s : State) (s' : State) : Action → Prop where
  | hart (h : Nat) (trap : Trap) (hlt : h < s.nHarts) (hself : ∀ m, s.mgr = some m → m.hart ≠ h)
      (hs : hartStep s h trap = some s') : StepOutcome s s' (.hart h trap)
  | lock (h : Nat) (hlt : h < s.nHarts) (hm : s.mgr = none) (hpc : (s.harts h).pc = .idle)
      (hs : s' = { s with mgr := some ⟨h, .cleanup s.registry [] []⟩ }) : StepOutcome s s' (.lock h)
  | manager (c : Choice) (m : Mgr) (hm : s.mgr = some m) (hs : mgrStep s m c = some s') :
      StepOutcome s s' (.manager c)
  | wake (ev : WakeEvent) (queue : List WakeEvent)
      (hq : queue = s.wakeQueue ++ [ev] ∨ queue = s.wakeQueue)
      (hs : s' = { s with wakeQueue := queue }) : StepOutcome s s' (.wake ev)

theorem step_outcome (hs : step s a = some s') : StepOutcome s s' a := by
  unfold step at hs
  split at hs
  · cases hs
  cases a with
  | hart h trap =>
    simp only at hs
    split at hs
    · next hlt =>
      refine .hart h trap hlt.1 (fun m hm => ?_) hs
      simpa [hm] using hlt.2
    · cases hs
  | lock h =>
    simp only at hs
    split at hs
    · next hm hpc =>
      split at hs <;> cases hs
      next hlt => exact .lock h hlt hm hpc rfl
    · cases hs
  | manager c =>
    simp only at hs
    split at hs
    · next m hm => exact .manager c m hm hs
    · cases hs
  | wake ev =>
    simp only [State.wakeQueuePush] at hs
    cases hs
    split
    · exact .wake ev _ (.inl rfl) rfl
    · exact .wake ev _ (.inr rfl) rfl

/-- What one step does to a thread's record. -/
theorem step_thread (hs : step s a = some s') (t : Tid) :
    ThreadEffect s a t (s.threads t) (s'.threads t) := by
  cases step_outcome hs with
  | hart h trap hlt _ hh => exact hartStep_thread hlt hh t
  | manager c m hm hmgr => exact mgrStep_thread hm hmgr t
  | lock h _ _ _ he =>
    subst he
    exact .of_same rfl t
  | wake ev queue _ he =>
    subst he
    exact .of_same rfl t

end Orbit.Sched
