import Orbit.Sched.DispatchRight
import Orbit.Sched.Roster

/-!
Kills. `request_exit_group` stores Exited into the state words of the siblings while
their harts go on. A store that a hart decided on before the kill brings the thread
back, and a hart that is about to mint a `Runnable` panics. When a kill finds no hart
at such a point, Exited is final and nothing panics.
-/

namespace Orbit.Sched

open Transition

variable {s s' : State} {a : Action} {t : Tid}

/-- Whoever is about to store into the state word of an Exited thread stores Exited. -/
theorem Inv.stores_exited (inv : Inv s) (hs : step s a = some s') {st : ThreadState}
    (hstore : s.stores a = some (t, st)) (hst : (s.threads t).state = .exited) : st = .exited := by
  cases step_outcome hs with
  | hart h trap hlt =>
    have hallow := inv.harts h hlt t
    simp only [State.stores] at hstore
    cases hpc : (s.harts h).pc <;> simp [hpc] at hstore hallow
    all_goals obtain ⟨rfl, rfl⟩ := hstore
    · simp [hst] at hallow
    · simpa [hst] using hallow
    · simp [hst] at hallow
  | manager c m hm =>
    have hallow := (inv.mgr m hm).2 t
    simp only [State.stores, hm, Option.bind_some] at hstore
    cases hpc : m.pc with
    | kill pid leader rest => cases rest <;> simp_all
    | promoteStore u rets a =>
      cases rets <;> simp [hpc] at hstore hallow
      all_goals
        obtain ⟨rfl, rfl⟩ := hstore
        simp [hst] at hallow
    | resumeStore u p =>
      simp [hpc] at hstore hallow
      obtain ⟨rfl, rfl⟩ := hstore
      simp [hst] at hallow
    | assignStore u h hs' =>
      simp [hpc] at hstore hallow
      obtain ⟨rfl, rfl⟩ := hstore
      simp [hst] at hallow
    | _ => simp [hpc] at hstore
  | lock | wake => cases hstore

/-- One step keeps an Exited thread Exited. -/
theorem Inv.exited_step (inv : Inv s) (hs : step s a = some s') (ht : t < s.nextTid)
    (hst : (s.threads t).state = .exited) : (s'.threads t).state = .exited := by
  cases step_thread hs t with
  | store st hstore he =>
    rw [he]
    exact inv.stores_exited hs hstore hst
  | alike hl => exact hl.state.trans hst
  | empty _ he => rw [he]; exact hst
  | copy p _ ans _ he => rw [he]; exact hst
  | publish c _ m p _ _ he => rw [he]; exact hst
  | save h trap _ _ _ _ hsame => exact hsame.trans hst
  | fresh he => exact absurd (he ▸ ht) (Nat.lt_irrefl _)

theorem MgrEdge.nextTid_le {m : Mgr} (edge : MgrEdge s m s') : s.nextTid ≤ s'.nextTid := by
  cases edge with
  | spawn => exact Nat.le_succ _
  | _ => exact Nat.le_refl _

theorem step_nextTid (hs : step s a = some s') : s.nextTid ≤ s'.nextTid := by
  cases step_outcome hs with
  | hart h trap hlt _ hmove =>
    rcases hartStep_outcome hmove with
      ⟨u, hart, th, ws, ns, move⟩ | ⟨_, _, _, rfl, _⟩ | ⟨_, _, _, rfl⟩
    · rw [move.eq]
    · exact Nat.le_refl _
    · exact Nat.le_refl _
  | manager c m hm hmove =>
    rcases mgrStep_outcome hmove with ⟨edge⟩ | ⟨_, _, _, rfl, _⟩ | ⟨_, _, rfl, _⟩
    · exact edge.nextTid_le
    · exact Nat.le_refl _
    · exact Nat.le_refl _
  | lock h _ _ _ he =>
    subst he
    exact Nat.le_refl _
  | wake ev queue _ he =>
    subst he
    exact Nat.le_refl _

/-- In every run in which a kill finds no hart relying on a state it has loaded, and a
manager-resolved syscall is issued only after the thread's earlier parks are finished, no
hart panics and a thread that is Exited stays so in every continuation of the run. -/
theorem kill_safe_and_final (run : Reach step (fun s a => Settled s a ∧ KillClear s a) Boot s) :
    (∀ site t st, s.fault ≠ some (.panic site t st)) ∧
      ∀ t, t < s.nextTid → (s.threads t).state = .exited →
        ∀ s', Reach step (fun s a => Settled s a ∧ KillClear s a) (· = s) s' →
          (s'.threads t).state = .exited := by
  have inv : Inv s := reach_inv (fun _ _ hg => hg) run
  constructor
  · intro site t st hfault
    have := reach_reaper_checked run site t st hfault
    simp [inv.fault site t st hfault] at this
  intro t ht hst s' later
  have keep : Inv s' ∧ t < s'.nextTid ∧ (s'.threads t).state = .exited := by
    refine later.invariant (I := fun s => Inv s ∧ t < s.nextTid ∧ (s.threads t).state = .exited)
      ?_ ?_
    · rintro _ rfl
      exact ⟨inv, ht, hst⟩
    rintro s a s' ⟨inv, ht, hst⟩ hguard hs
    exact ⟨step_inv inv hguard.1 hguard.2 hs, Nat.lt_of_lt_of_le ht (step_nextTid hs),
      inv.exited_step hs ht hst⟩
  exact keep.2.2

/-- Two threads of one process are assigned; the one on hart 1 exits the process, and the
one on hart 0 is wherever `sibling` takes it when the manager gets to the kill. -/
def killOn0 (sibling : List Action) : List Action :=
  [.lock 2] ++ ticks 9 ++ [.manager (.clock 0)] ++ ticks 18 ++
  accesses 1 4 ++ [.hart 1 (.exit fun _ => 0)] ++ sibling ++ [.lock 2] ++ ticks 7

theorem kill_safe_and_final_running : ∃ s,
    Reach step (fun s a => Settled s a ∧ KillClear s a) Boot s ∧ 0 < s.nextTid ∧
      (s.threads 0).state = .exited ∧ (∀ site t st, s.fault ≠ some (.panic site t st)) ∧
      ∀ s', Reach step (fun s a => Settled s a ∧ KillClear s a) (· = s) s' →
        (s'.threads 0).state = .exited := by
  have hboot : Reach step (fun s a => Settled s a ∧ KillClear s a) Boot (startState 3 [1, 1]) :=
    .start (startState_boot 3 [1, 1])
  obtain ⟨s, run, hlt, hst⟩ := hboot.exists_of_exec (killOn0 (accesses 0 4))
    (fun s : State => 0 < s.nextTid ∧ (s.threads 0).state = .exited) (by decide +kernel)
  have hsafe := kill_safe_and_final run
  exact ⟨s, run, hlt, hst, hsafe.1, hsafe.2 0 hlt hst⟩

/-- A hart that has loaded Assigned stores Running over the kill, and a hart that has
stored Ready panics when it mints the `Runnable`. -/
theorem kill_between_load_and_store : (∃ s a s', Reach step Settled Boot s ∧ step s a = some s' ∧
      (s.threads 0).state = .exited ∧ (s'.threads 0).state = .running) ∧
    ∃ s, Reach step Settled Boot s ∧ s.fault = some (.panic .intoRunnable 0 .exited) := by
  have hboot : Reach step Settled Boot (startState 3 [1, 1]) := .start (startState_boot 3 [1, 1])
  constructor
  · obtain ⟨s, run, hst, hnext⟩ := hboot.exists_of_exec (killOn0 (accesses 0 2))
      (fun s : State => (s.threads 0).state = .exited ∧
        (step s (.hart 0 .preempt)).map (fun s' => (s'.threads 0).state) = some .running)
      (by decide +kernel)
    obtain ⟨s', hs, hst'⟩ := Option.map_eq_some_iff.mp hnext
    exact ⟨s, _, s', run, hs, hst, hst'⟩
  exact hboot.exists_of_exec
    (killOn0 (accesses 0 4 ++ [.hart 0 (.yield fun _ => 0)] ++ accesses 0 5) ++ accesses 0 1)
    (fun s : State => s.fault = some (.panic .intoRunnable 0 .exited)) (by decide +kernel)

end Orbit.Sched
