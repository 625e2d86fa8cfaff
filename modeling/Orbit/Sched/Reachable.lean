import Orbit.Sched.WakeSteps

/-!
Runs of the kernel from a boot state. `Boot` is the state in which the harts start:
every registered thread is Ready and queued once, nothing is pending and no hart
runs anything. The invariant holds in every state a run reaches when its steps are
`Settled` and `KillClear`.
-/

namespace Orbit.Sched

open Transition State

variable {s s' : State} {a : Action}

/-- One step of the kernel keeps the invariant. -/
theorem step_inv (inv : Inv s) (hset : Settled s a) (hkill : KillClear s a)
    (hs : step s a = some s') : Inv s' := by
  unfold step at hs
  split at hs
  · cases hs
  cases a with
  | hart h trap =>
    simp only at hs
    split at hs
    · next hlt =>
      refine hartStep_inv inv hlt.1 (fun u hu => hset h u ?_) hs
      simp [issues, hu]
    · cases hs
  | lock h =>
    simp only at hs
    split at hs
    · next hmgr hpc =>
      split at hs <;> cases hs
      next hlt =>
        refine lock_inv inv ?_ ?_ ?_ ?_ ?_
        · simp [hmgr]
        all_goals
          rintro m ⟨⟩
          simp [MgrPc.Light, hlt]
    · cases hs
  | manager c =>
    simp only at hs
    split at hs
    · next m hm =>
      have hclear : ∀ t, m.pc.kills s.registry = some t →
          ∀ h, h < s.nHarts → (s.harts h).pc.exposed t = false :=
        fun t ht => hkill t (by simpa [kills, hm] using ht)
      unfold mgrStep at hs
      split at hs
      all_goals first
        | exact reapStep_inv inv hm hs
        | exact workStep_inv inv hm hclear hs
        | exact wakeStep_inv inv hm hs
        | exact sleepStep_inv inv hm hs
        | exact assignStep_inv inv hm hs
    · cases hs
  | wake ev =>
    simp only [wakeQueuePush] at hs
    cases hs
    split
    · exact { inv with }
    · exact inv

/-- A thread as it is before it first runs. -/
structure Thread.Fresh (th : Thread) : Prop where
  state : th.state = .ready
  pending : th.pending = none
  wakeOverride : th.wakeOverride = 0
  freed : th.freed = false
  calls : th.calls = 0
  answer : th.answer = none

/-- A state in which the harts start. -/
structure Boot (s : State) : Prop where
  fault : s.fault = none
  mgr : s.mgr = none
  harts : ∀ h, s.harts h = ⟨none, .idle, []⟩
  ready : s.ready.Perm s.registry
  nodup : s.registry.Nodup
  fresh : ∀ t ∈ s.registry, (s.threads t).Fresh
  below : ∀ t ∈ s.registry, t < s.nextTid
  unallocated : ∀ t, t ∉ s.registry → s.threads t = .unallocated
  sleepInbox : s.sleepInbox = []
  heap : s.heap = []
  work : s.work = []
  waiters : s.waiters = []
  groups : s.groups = []
  procs : ∀ t ∈ s.registry, ∃ proc, s.procs (s.threads t).pid = some proc ∧ t ∈ proc.threads
  members : ∀ p proc, s.procs p = some proc → proc.threads.Nodup ∧ (p ≠ 0 → proc.threads ≠ []) ∧
    proc.exitFinalized = false ∧ ∀ t ∈ proc.threads, t ∈ s.registry ∧ (s.threads t).pid = p

theorem Boot.thread (boot : Boot s) (t : Tid) :
    (s.threads t).Fresh ∨ s.threads t = .unallocated := by
  by_cases ht : t ∈ s.registry
  · exact .inl (boot.fresh t ht)
  · exact .inr (boot.unallocated t ht)

/-- `n` harts about to start on one thread for each entry of `pids`, which names the
process it belongs to. -/
def startState (n : Nat) (pids : List Pid) : State where
  nHarts := n
  threads t := match pids[t]? with
    | some p => .new p (allHartsMask n) (allHartsMask n) (fun _ => 0)
    | none => .unallocated
  harts _ := ⟨none, .idle, []⟩
  mgr := none
  ready := List.range pids.length
  sleepInbox := []
  heap := []
  wakeQueue := []
  work := []
  waiters := []
  registry := List.range pids.length
  procs p := if p ∈ pids then
      some ⟨(List.range pids.length).filter fun t => pids[t]? = some p, 0, false⟩
    else none
  nextTid := pids.length
  netTid := none
  gpuTid := none
  serialTid := none
  groups := []
  fault := none

theorem startState_boot (n : Nat) (pids : List Pid) : Boot (startState n pids) := by
  have hthread : ∀ t, t < pids.length → ∃ p ∈ pids, pids[t]? = some p ∧
      (startState n pids).threads t = .new p (allHartsMask n) (allHartsMask n) (fun _ => 0) := by
    intro t ht
    refine ⟨pids[t], List.getElem_mem ht, List.getElem?_eq_getElem ht, ?_⟩
    simp only [startState, List.getElem?_eq_getElem ht]
  refine ⟨rfl, rfl, fun _ => rfl, .refl _, List.nodup_range, ?_, ?_, ?_, rfl, rfl, rfl,
    rfl, rfl, ?_,
    ?_⟩
  · intro t ht
    obtain ⟨p, -, -, he⟩ := hthread t (List.mem_range.mp ht)
    rw [he]
    exact ⟨rfl, rfl, rfl, rfl, rfl, rfl⟩
  · exact fun t ht => List.mem_range.mp ht
  · intro t ht
    have hge : pids.length ≤ t := Nat.le_of_not_lt fun h => ht (List.mem_range.mpr h)
    simp only [startState, List.getElem?_eq_none hge]
  · intro t ht
    obtain ⟨p, hp, hget, he⟩ := hthread t (List.mem_range.mp ht)
    refine ⟨⟨(List.range pids.length).filter fun t => pids[t]? = some p, 0, false⟩, ?_, ?_⟩
    · rw [he]
      simp [startState, Thread.new, hp]
    · exact List.mem_filter.mpr ⟨ht, by simp [hget]⟩
  intro p proc hproc
  simp only [startState] at hproc
  split at hproc <;> cases hproc
  next hp =>
  refine ⟨List.nodup_range.filter _, fun _ => ?_, rfl, fun t ht => ?_⟩
  · obtain ⟨i, hi, hget⟩ := List.getElem_of_mem hp
    refine List.ne_nil_of_mem (a := i) (List.mem_filter.mpr ⟨List.mem_range.mpr hi, ?_⟩)
    simp [List.getElem?_eq_getElem hi, hget]
  obtain ⟨hmem, hget⟩ := List.mem_filter.mp ht
  refine ⟨hmem, ?_⟩
  simp only [decide_eq_true_eq] at hget
  simp only [startState, hget]
  rfl

/-- `n` manager accesses without a choice. -/
def ticks (n : Nat) : List Action := List.replicate n (.manager .tick)

/-- `n` accesses of hart `h`. -/
def accesses (h n : Nat) : List Action := List.replicate n (.hart h .preempt)

theorem Boot.inv (boot : Boot s) : Inv s := by
  have hzero : ∀ f : Hart → Nat, f ⟨none, .idle, []⟩ = 0 → s.perHart f = 0 := by
    intro f hf
    refine perHart_eq_zero.mpr fun h _ => ?_
    rw [boot.harts, hf]
  have hpending : ∀ t, (s.threads t).pending = none := by
    intro t
    by_cases ht : t ∈ s.registry
    · exact (boot.fresh t ht).pending
    · rw [boot.unallocated t ht]
      rfl
  refine ⟨fun t => ?_, ?_, ?_, ?_, ?_, ?_, ?_, ?_, ?_, ?_⟩
  · have hrest : s.run t = 0 ∧ s.blk t = 0 ∧ s.claiming t = 0 ∧ s.stray t = 0 ∧ s.res t = 0 ∧
        s.note t = 0 ∧ s.tok t = s.ready.count t ∧ s.queued t = s.ready.count t := by
      refine ⟨hzero _ rfl, hzero _ rfl, hzero _ rfl, hzero _ rfl, ?_, ?_, ?_, ?_⟩
      · rw [res, hzero (·.pc.res t) rfl, boot.work, boot.waiters, boot.mgr, hpending]
        rfl
      · simp [note, boot.sleepInbox, boot.mgr]
      · simp [tok, boot.mgr, hzero (·.tok t) rfl]
      · simp [queued, hzero (·.inbox.count t) rfl]
    have hcount : s.ready.count t ≤ 1 := by
      rw [boot.ready.count_eq]
      exact List.nodup_iff_count_le_one.mp boot.nodup t
    rw [s.ok_iff]
    by_cases ht : t ∈ s.registry
    · have hcode : (s.threads t).state.code = 0 := by rw [(boot.fresh t ht).state]; rfl
      have halloc : (s.ledger t).alloc = 1 := by simp [ledger, boot.below t ht]
      omega
    have hcode : (s.threads t).state.code = 4 := by rw [boot.unallocated t ht]; rfl
    have hnone : s.ready.count t = 0 := by
      rw [List.count_eq_zero]
      exact fun hmem => ht (boot.ready.mem_iff.mp hmem)
    omega
  · intro h _ t
    rw [boot.harts]
    trivial
  · intro h _
    rw [boot.harts]
    trivial
  · intro h _ t ho
    rw [boot.harts] at ho
    cases ho
  · intro h _ t hc
    rw [boot.harts] at hc
    cases hc
  · simp [boot.mgr]
  · simp [boot.mgr]
  · simp [boot.mgr]
  · intro t ht
    by_contra hmem
    rw [boot.unallocated t hmem] at ht
    exact ht rfl
  · simp [boot.fault]

/-- The invariant holds in every state of a run whose steps are `Settled` and
`KillClear`. -/
theorem reach_inv {guard : State → Action → Prop} (hguard : ∀ s a, guard s a → Settled s a ∧
    KillClear s a) (run : Reach step guard Boot s) : Inv s := by
  refine run.invariant (fun _ boot => boot.inv) ?_
  intro s a s' inv hg hs
  obtain ⟨hset, hkill⟩ := hguard s a hg
  exact step_inv inv hset hkill hs

end Orbit.Sched
