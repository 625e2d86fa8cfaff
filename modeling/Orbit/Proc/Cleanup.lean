import Orbit.Proc.Effects

/-!
What a cleanup pass does to a system whose registry and process table agree: the first
loop takes every dead thread out of its process and lists it, and lists every process
whose last thread that was; the two removals then find each of them once.
-/

namespace Orbit.Proc

open Store Table

variable {done : List (Tid × Thread)} {b : Option Process} {e : Tid × Thread}

variable {s s' : System} {w : Sweep} {pid p : Pid} {tid : Tid} {th : Thread} {proc : Process}

/-- The registry and the process table agree; kernel threads carry pid 0, which no process has. -/
structure Agree (s : System) : Prop where
  home : ∀ tid th, s.registry.get tid = some th → th.pid ≠ 0 →
    ∃ proc, s.processes.get th.pid = some proc ∧ tid ∈ proc.threads
  members : ∀ pid proc, s.processes.get pid = some proc → ∀ tid ∈ proc.threads,
    ∃ th, s.registry.get tid = some th ∧ th.pid = pid
  inhabited : ∀ pid proc, s.processes.get pid = some proc → proc.threads ≠ ∅
  user : s.processes.get 0 = none
  kernel : ∀ tid th, s.registry.get tid = some th → th.pid = 0 → th.state ≠ .exited

/-! The first loop. -/

/-- The effect of the turns for `done` on process `pid`. -/
def Process.reapAll (pid : Pid) (done : List (Tid × Thread)) (proc : Process) : Process :=
  done.foldl (fun pr e => if e.2.pid = pid ∧ e.2.state = .exited then pr.reap e.1 e.2 else pr) proc

theorem Process.reapAll_concat (pid : Pid) (done : List (Tid × Thread)) (e : Tid × Thread)
    (proc : Process) : proc.reapAll pid (done ++ [e]) =
      if e.2.pid = pid ∧ e.2.state = .exited then (proc.reapAll pid done).reap e.1 e.2
      else proc.reapAll pid done := by
  simp [reapAll, List.foldl_append]

/-- A thread stays in its process unless it was visited dead. -/
theorem Process.mem_reapAll :
    tid ∈ (proc.reapAll pid done).threads ↔ tid ∈ proc.threads ∧
      ∀ th, (tid, th) ∈ done → th.pid = pid → th.state ≠ .exited := by
  induction done using List.reverseRecOn with
  | nil => simp [reapAll]
  | append_singleton done e ih =>
    obtain ⟨t, th⟩ := e
    rw [reapAll_concat]
    by_cases hdead : th.pid = pid ∧ th.state = .exited
    · rw [if_pos hdead]
      simp only [reap, Finset.mem_erase, ih, List.mem_append, List.mem_singleton, Prod.mk.injEq]
      constructor
      · rintro ⟨hne, hmem, hold⟩
        refine ⟨hmem, ?_⟩
        rintro th' (hin | ⟨rfl, rfl⟩) hpid
        · exact hold th' hin hpid
        · exact absurd rfl hne
      rintro ⟨hmem, hall⟩
      refine ⟨?_, hmem, fun th' hin hpid => hall th' (.inl hin) hpid⟩
      rintro rfl
      exact hall th (.inr ⟨rfl, rfl⟩) hdead.1 hdead.2
    rw [if_neg hdead, ih]
    simp only [List.mem_append, List.mem_singleton, Prod.mk.injEq]
    constructor
    · rintro ⟨hmem, hold⟩
      refine ⟨hmem, ?_⟩
      rintro th' (hin | ⟨rfl, rfl⟩) hpid
      · exact hold th' hin hpid
      · exact fun hex => hdead ⟨hpid, hex⟩
    · rintro ⟨hmem, hall⟩
      exact ⟨hmem, fun th' hin hpid => hall th' (.inl hin) hpid⟩

/-- The first loop after the turns for `done`. A process it has listed has lost its threads. -/
structure Swept (s : System) (done : List (Tid × Thread)) (w : Sweep) : Prop where
  processes : ∀ p, w.system.processes.get p = (s.processes.get p).map (Process.reapAll p done)
  frame : w.system = { s with processes := w.system.processes }
  tids : w.tids = (done.filter fun e => e.2.state = .exited ∧
    (s.processes.get e.2.pid).isSome).map Prod.fst
  emptied : ∀ p ∈ w.pids, ∃ proc, s.processes.get p = some proc ∧
    (proc.reapAll p done).threads = ∅

theorem Swept.start : Swept s [] ⟨s, [], []⟩ where
  processes p := by cases s.processes.get p <;> rfl
  frame := rfl
  tids := rfl
  emptied := List.forall_mem_nil _

/-- A turn leaves every process alone but the one of a thread found dead. -/
theorem Process.reapAll_skip (h : e.2.pid = pid → e.2.state ≠ .exited) (proc : Process) :
    proc.reapAll pid (done ++ [e]) = proc.reapAll pid done := by
  rw [reapAll_concat, if_neg]
  rintro ⟨hpid, hdead⟩
  exact h hpid hdead

theorem Process.reapAll_threads_subset (proc : Process) :
    (proc.reapAll pid (done ++ [e])).threads ⊆ (proc.reapAll pid done).threads := by
  rw [reapAll_concat]
  split
  · exact Finset.erase_subset _ _
  · exact Finset.Subset.refl _

/-- The end of a turn lists a process that is left without threads. -/
theorem Swept.close (swept : Swept s done w) (hproc : s.processes.get pid = some proc) :
    Swept s done (w.close pid (proc.reapAll pid done)) := by
  unfold Sweep.close
  split
  · exact swept
  next hleft =>
  refine { swept with emptied := ?_ }
  rw [List.forall_mem_append, List.forall_mem_singleton]
  exact ⟨swept.emptied, proc, hproc, not_not.mp fun hne => hleft (.inl hne)⟩

theorem Swept.emptied_concat (swept : Swept s done w) (e : Tid × Thread) :
    ∀ p ∈ w.pids, ∃ proc, s.processes.get p = some proc ∧
      (proc.reapAll p (done ++ [e])).threads = ∅ := by
  intro p hp
  obtain ⟨proc, hproc, hempty⟩ := swept.emptied p hp
  have hsub : (proc.reapAll p (done ++ [e])).threads ⊆ (proc.reapAll p done).threads :=
    proc.reapAll_threads_subset
  rw [hempty] at hsub
  exact ⟨proc, hproc, Finset.subset_empty.mp hsub⟩

/-- The turn for a thread that is alive, or whose process is not there. -/
theorem Swept.idle (swept : Swept s done w)
    (hidle : ∀ proc, s.processes.get e.2.pid = some proc → e.2.state ≠ .exited) :
    Swept s (done ++ [e]) w := by
  refine ⟨?_, swept.frame, ?_, swept.emptied_concat e⟩
  · intro p
    rw [swept.processes]
    cases hp : s.processes.get p with
    | none => rfl
    | some proc =>
      have hskip : proc.reapAll p (done ++ [e]) = proc.reapAll p done := by
        apply Process.reapAll_skip
        rintro rfl
        exact hidle proc hp
      simp [hskip]
  · rw [swept.tids]
    cases hp : s.processes.get e.2.pid with
    | none => simp [List.filter_append, hp]
    | some proc => simp [List.filter_append, hidle proc hp]

/-- The turn for a dead thread, before it looks at what is left of the process. -/
theorem Swept.dead (swept : Swept s done w) (hdead : e.2.state = .exited)
    (hproc : s.processes.get e.2.pid = some proc) :
    Swept s (done ++ [e]) ⟨w.system.setProcess e.2.pid (proc.reapAll e.2.pid (done ++ [e])),
      w.tids ++ [e.1], w.pids⟩ := by
  refine ⟨?_, ?_, ?_, swept.emptied_concat e⟩
  · intro p
    by_cases hp : p = e.2.pid
    · subst hp
      simp [System.setProcess, hproc]
    rw [System.setProcess, get_insert_ne _ _ hp, swept.processes]
    cases s.processes.get p with
    | none => rfl
    | some proc' =>
      have hskip : proc'.reapAll p (done ++ [e]) = proc'.reapAll p done :=
        Process.reapAll_skip (fun h => absurd h.symm hp) proc'
      simp [hskip]
  · rw [System.setProcess, swept.frame]
  · simp [swept.tids, List.filter_append, hdead, hproc]

/-- What a turn does to a loop that stands at `done`. -/
theorem Swept.visit_eq (swept : Swept s done w) (e : Tid × Thread) :
    w.visit e = match s.processes.get e.2.pid with
      | none => w
      | some proc =>
        if e.2.state = .exited then
          Sweep.close ⟨w.system.setProcess e.2.pid (proc.reapAll e.2.pid (done ++ [e])),
            w.tids ++ [e.1], w.pids⟩ e.2.pid (proc.reapAll e.2.pid (done ++ [e]))
        else w.close e.2.pid (proc.reapAll e.2.pid (done ++ [e])) := by
  unfold Sweep.visit
  rw [swept.processes]
  cases s.processes.get e.2.pid with
  | none => rfl
  | some proc =>
    simp only [Option.map_some, Process.reapAll_concat, true_and]
    split
    · rfl
    · rfl

/-- One turn. -/
theorem Swept.visit (swept : Swept s done w) (e : Tid × Thread) :
    Swept s (done ++ [e]) (w.visit e) := by
  rw [swept.visit_eq]
  split
  · next hnone =>
    apply swept.idle
    intro proc hp
    cases hnone.symm.trans hp
  next proc hproc =>
  split
  · next hdead => exact (swept.dead hdead hproc).close hproc
  · next halive => exact (swept.idle fun _ _ => halive).close hproc

/-- The whole loop, in any system. -/
theorem System.swept (s : System) : Swept s s.registry.entries s.sweep := by
  have hrun : ∀ done, Swept s done (done.foldl Sweep.visit ⟨s, [], []⟩) := by
    intro done
    induction done using List.reverseRecOn with
    | nil => exact Swept.start
    | append_singleton done e ih =>
      rw [List.foldl_append]
      exact ih.visit e
  exact hrun s.registry.entries

/-- The threads the first loop lists are the dead ones whose process is there. -/
theorem System.mem_tids : tid ∈ s.sweep.tids ↔ ∃ th, s.registry.get tid = some th ∧
    th.state = .exited ∧ (s.processes.get th.pid).isSome = true := by
  rw [s.swept.tids]
  simp only [List.mem_map, List.mem_filter, decide_eq_true_eq, Prod.exists, exists_and_right,
    exists_eq_right]
  refine exists_congr fun th => ?_
  rw [← s.registry.get_eq_some]

/-- What the first loop leaves of a process. -/
theorem System.mem_swept (hproc : s.processes.get pid = some proc)
    (hmember : tid ∈ proc.threads → ∃ th, s.registry.get tid = some th ∧ th.pid = pid) :
    tid ∈ (proc.reapAll pid s.registry.entries).threads ↔
      tid ∈ proc.threads ∧ tid ∉ s.sweep.tids := by
  rw [Process.mem_reapAll]
  refine and_congr_right fun hmem => ?_
  obtain ⟨th, hreg, rfl⟩ := hmember hmem
  rw [System.mem_tids]
  constructor
  · rintro hall ⟨th', hreg', hdead, _⟩
    obtain rfl : th = th' := Option.some.inj (hreg.symm.trans hreg')
    exact hall th (s.registry.get_eq_some.mp hreg) rfl hdead
  · intro hnot th' hin hpid hdead
    refine hnot ⟨th', s.registry.get_eq_some.mpr hin, hdead, ?_⟩
    rw [hpid, hproc]
    rfl

/-! The processes the first loop lists when the tables agree: all that are left empty, once. -/

structure Listed (s : System) (done : List (Tid × Thread)) (w : Sweep) : Prop where
  once : w.pids.Nodup
  listed : ∀ p proc, s.processes.get p = some proc → (proc.reapAll p done).threads = ∅ →
    p ∈ w.pids

/-- The thread a turn is for has not left its process yet. -/
theorem Agree.mem_reapAll (agree : Agree s) {done todo : List (Tid × Thread)}
    (hsplit : s.registry.entries = done ++ e :: todo)
    (hproc : s.processes.get e.2.pid = some proc) :
    e.1 ∈ (proc.reapAll e.2.pid done).threads := by
  have hreg : s.registry.get e.1 = some e.2 := by
    apply s.registry.get_eq_some.mpr
    rw [hsplit]
    simp
  have huser : e.2.pid ≠ 0 := by
    intro h0
    rw [h0, agree.user] at hproc
    cases hproc
  obtain ⟨proc', hproc', hmem⟩ := agree.home e.1 e.2 hreg huser
  obtain rfl : proc' = proc := Option.some.inj (hproc'.symm.trans hproc)
  refine Process.mem_reapAll.mpr ⟨hmem, ?_⟩
  intro th' hin
  have hsorted := s.registry.sorted
  rw [hsplit] at hsorted
  have hlt := (List.pairwise_append.mp hsorted).2.2 _ hin e (.head _)
  exact absurd hlt (Nat.lt_irrefl _)

/-- A turn for a thread whose process is there lists it if it leaves it empty. -/
theorem Listed.close {before : Sweep} (listed : Listed s done before) (hpids : w.pids = before.pids)
    (swept : Swept s done before) (hproc : s.processes.get e.2.pid = some proc)
    (huser : e.2.pid ≠ 0) (hmem : e.1 ∈ (proc.reapAll e.2.pid done).threads) :
    Listed s (done ++ [e]) (w.close e.2.pid (proc.reapAll e.2.pid (done ++ [e]))) := by
  have hothers : ∀ p, p ≠ e.2.pid → ∀ proc : Process,
      proc.reapAll p (done ++ [e]) = proc.reapAll p done := by
    intro p hp
    exact Process.reapAll_skip fun h => absurd h.symm hp
  -- the process still had this thread, so no earlier turn has listed it
  have hold : e.2.pid ∉ w.pids := by
    intro hin
    rw [hpids] at hin
    obtain ⟨proc', hp', hempty⟩ := swept.emptied e.2.pid hin
    obtain rfl : proc = proc' := Option.some.inj (hproc.symm.trans hp')
    rw [hempty] at hmem
    simp at hmem
  have hlisted : ∀ p proc', p ≠ e.2.pid → s.processes.get p = some proc' →
      (proc'.reapAll p (done ++ [e])).threads = ∅ → p ∈ w.pids := by
    intro p proc' hp hproc' hempty
    rw [hothers p hp] at hempty
    exact hpids ▸ listed.listed p proc' hproc' hempty
  unfold Sweep.close
  split
  case isTrue hleft =>
    refine ⟨hpids ▸ listed.once, ?_⟩
    intro p proc' hproc' hempty
    by_cases hp : p = e.2.pid
    · subst hp
      obtain rfl : proc = proc' := Option.some.inj (hproc.symm.trans hproc')
      exact absurd hempty (hleft.resolve_right huser)
    · exact hlisted p proc' hp hproc' hempty
  case isFalse hleft =>
    refine ⟨?_, ?_⟩
    · apply List.Nodup.append (hpids ▸ listed.once) (List.nodup_singleton _)
      simpa using hold
    intro p proc' hproc' hempty
    by_cases hp : p = e.2.pid
    · simp [hp]
    · exact List.mem_append_left _ (hlisted p proc' hp hproc' hempty)

theorem Listed.visit (agree : Agree s) {done todo : List (Tid × Thread)}
    (hsplit : s.registry.entries = done ++ e :: todo) (swept : Swept s done w)
    (listed : Listed s done w) : Listed s (done ++ [e]) (w.visit e) := by
  rw [swept.visit_eq]
  split
  · next hnone =>
    refine ⟨listed.once, ?_⟩
    intro p proc hproc hempty
    apply listed.listed p proc hproc
    rwa [Process.reapAll_skip] at hempty
    rintro rfl
    cases hnone.symm.trans hproc
  next proc hproc =>
  have hmem := agree.mem_reapAll hsplit hproc
  have huser : e.2.pid ≠ 0 := by
    intro h0
    rw [h0, agree.user] at hproc
    cases hproc
  split
  · exact listed.close rfl swept hproc huser hmem
  · exact listed.close rfl swept hproc huser hmem

/-- The whole loop, by induction on the turns already taken. -/
theorem Agree.listed (agree : Agree s) : Listed s s.registry.entries s.sweep := by
  have hrun : ∀ done todo, s.registry.entries = done ++ todo →
      Swept s done (done.foldl Sweep.visit ⟨s, [], []⟩) ∧
        Listed s done (done.foldl Sweep.visit ⟨s, [], []⟩) := by
    intro done
    induction done using List.reverseRecOn with
    | nil =>
      intro _ _
      refine ⟨Swept.start, List.nodup_nil, ?_⟩
      intro p proc hproc hempty
      exact absurd hempty (agree.inhabited p proc hproc)
    | append_singleton done e ih =>
      intro todo hsplit
      have hsplit' : s.registry.entries = done ++ e :: todo := by simpa using hsplit
      obtain ⟨swept, listed⟩ := ih (e :: todo) hsplit'
      rw [List.foldl_append]
      exact ⟨swept.visit e, listed.visit agree hsplit' swept⟩
  exact (hrun s.registry.entries [] (by simp)).2

/-! The removals. -/

/-- What the removal of threads leaves, when it finds them all. -/
theorem unregister_get {tids : List Tid} (h : tids.foldlM System.unregister s = some s') :
    s' = { s with registry := s'.registry } ∧
      ∀ t, s'.registry.get t = if t ∈ tids then none else s.registry.get t := by
  induction tids generalizing s with
  | nil =>
    cases h
    simp
  | cons tid rest ih =>
    rw [List.foldlM_cons, Option.bind_eq_bind, Option.bind_eq_some_iff] at h
    obtain ⟨mid, hmid, hrest⟩ := h
    unfold System.unregister at hmid
    split at hmid
    · cases hmid
    cases hmid
    obtain ⟨hframe, hget⟩ := ih hrest
    refine ⟨by rw [hframe], fun t => ?_⟩
    rw [hget]
    by_cases ht : t = tid
    · subst ht
      simp
    · simp [ht, get_erase_ne _ ht]

/-- Threads that are registered and listed once are all found. -/
theorem unregister_all (tids : List Tid) (hnd : tids.Nodup)
    (hreg : ∀ t ∈ tids, (s.registry.get t).isSome) :
    ∃ s', tids.foldlM System.unregister s = some s' := by
  induction tids generalizing s with
  | nil => exact ⟨s, rfl⟩
  | cons tid rest ih =>
    obtain ⟨hnot, hrest⟩ := List.nodup_cons.mp hnd
    obtain ⟨th, hth⟩ := Option.isSome_iff_exists.mp (hreg tid (.head _))
    have hstep : s.unregister tid = some { s with registry := s.registry.erase tid } := by
      simp [System.unregister, hth]
    have hreg' : ∀ t ∈ rest,
        (({ s with registry := s.registry.erase tid } : System).registry.get t).isSome := by
      intro t ht
      have hne : t ≠ tid := by
        rintro rfl
        exact hnot ht
      rw [get_erase_ne _ hne]
      exact hreg t (.tail _ ht)
    obtain ⟨s', hrun⟩ := ih hrest hreg'
    exact ⟨s', by simp [hstep, hrun]⟩

/-- A process that has only been given a child's exit code, or lost a waiter it has served. -/
def Kin (old new : Process) : Prop :=
  new = { old with anyChildWaiter := new.anyChildWaiter, deadChildren := new.deadChildren }

theorem Kin.refl (proc : Process) : Kin proc proc := rfl

theorem Kin.trans {a b c : Process} (hab : Kin a b) (hbc : Kin b c) : Kin a c := by
  unfold Kin at *
  rw [hbc, hab]

theorem Kin.threads {old new : Process} (kin : Kin old new) : new.threads = old.threads := by
  rw [kin]

theorem HandedOver.registry (handed : HandedOver s pid proc s') : s'.registry = s.registry := by
  cases handed <;> rfl

theorem Kin.rel_refl (a : Option Process) : Option.Rel Kin a a := by
  cases a with
  | none => exact .none
  | some proc => exact .some (Kin.refl proc)

theorem Kin.rel_trans {a b c : Option Process} (hab : Option.Rel Kin a b)
    (hbc : Option.Rel Kin b c) : Option.Rel Kin a c := by
  cases hab with
  | none => exact hbc
  | some kin =>
    cases hbc with
    | some kin' => exact .some (kin.trans kin')

theorem Kin.of_none (h : Option.Rel Kin none b) : b = none := by
  cases h with
  | none => rfl

theorem Kin.of_some {old : Process} (h : Option.Rel Kin (some old) b) :
    ∃ new, b = some new ∧ Kin old new := by
  cases h with
  | some kin => exact ⟨_, rfl, kin⟩

/-- The other processes keep their threads. -/
theorem HandedOver.kin (handed : HandedOver s pid proc s') (p : Pid) :
    Option.Rel Kin (s.processes.get p) (s'.processes.get p) := by
  have parent : ∀ old new : Process, s.processes.get proc.parentPid = some old → Kin old new →
      Option.Rel Kin (s.processes.get p) ((s.processes.insert proc.parentPid new).get p) := by
    intro old new hold kin
    by_cases hp : p = proc.parentPid
    · subst hp
      rw [hold, get_insert_self]
      exact .some kin
    · rw [get_insert_ne _ _ hp]
      exact Kin.rel_refl _
  cases handed with
  | dropped | waiter _ => exact Kin.rel_refl _
  | anyWaiter par _ hpar => exact parent par _ hpar rfl
  | stored par hpar => exact parent par _ hpar rfl

/-- What the removal of processes leaves, when it finds them all. -/
theorem remove_get {pids : List Pid} (h : pids.foldlM System.removeProcess s = some s') :
    s'.registry = s.registry ∧
      ∀ p, Option.Rel Kin (if p ∈ pids then none else s.processes.get p) (s'.processes.get p) := by
  induction pids generalizing s with
  | nil =>
    cases h
    exact ⟨rfl, fun p => by simpa using Kin.rel_refl _⟩
  | cons pid rest ih =>
    rw [List.foldlM_cons, Option.bind_eq_bind, Option.bind_eq_some_iff] at h
    obtain ⟨mid, hmid, hrest⟩ := h
    unfold System.removeProcess at hmid
    split at hmid
    · cases hmid
    next proc hproc =>
    cases hmid
    have handed := handedOver { s with processes := s.processes.erase pid } pid proc
    obtain ⟨hreg, hget⟩ := ih hrest
    refine ⟨hreg.trans handed.registry, ?_⟩
    intro p
    have kin := hget p
    by_cases hpr : p ∈ rest
    · simpa [hpr] using kin
    rw [if_neg hpr] at kin
    have kin' := Kin.rel_trans (handed.kin p) kin
    rw [get_erase] at kin'
    simpa [hpr] using kin'

/-- Processes that are in the table and listed once are all found. -/
theorem remove_all (pids : List Pid) (hnd : pids.Nodup)
    (hproc : ∀ p ∈ pids, (s.processes.get p).isSome) :
    ∃ s', pids.foldlM System.removeProcess s = some s' := by
  induction pids generalizing s with
  | nil => exact ⟨s, rfl⟩
  | cons pid rest ih =>
    obtain ⟨hnot, hrest⟩ := List.nodup_cons.mp hnd
    obtain ⟨proc, hpid⟩ := Option.isSome_iff_exists.mp (hproc pid (.head _))
    have handed := handedOver { s with processes := s.processes.erase pid } pid proc
    have hstep : s.removeProcess pid =
        some (System.deallocProcess { s with processes := s.processes.erase pid } pid proc) := by
      simp [System.removeProcess, hpid]
    generalize System.deallocProcess { s with processes := s.processes.erase pid } pid proc
      = mid at handed hstep
    have hsome : ∀ p ∈ rest, (mid.processes.get p).isSome := by
      intro p hp
      have hne : p ≠ pid := by
        rintro rfl
        exact hnot hp
      obtain ⟨old, hold⟩ := Option.isSome_iff_exists.mp (hproc p (.tail _ hp))
      have kin := handed.kin p
      rw [get_erase_ne _ hne, hold] at kin
      obtain ⟨new, hnew, _⟩ := Kin.of_some kin
      rw [hnew]
      rfl
    obtain ⟨s', hrun⟩ := ih hrest hsome
    exact ⟨s', by simp [hstep, hrun]⟩

/-- What a pass removes and what it leaves. -/
structure Cleaned (s s' : System) : Prop where
  /-- the threads removed are the dead ones, each once -/
  threads : s.sweep.tids.Nodup ∧ ∀ t, t ∈ s.sweep.tids ↔
    ∃ th, s.registry.get t = some th ∧ th.state = .exited
  /-- the processes removed are those whose threads are all dead, each once -/
  processes : s.sweep.pids.Nodup ∧ ∀ p, p ∈ s.sweep.pids ↔ ∃ proc, s.processes.get p = some proc ∧
    ∀ t ∈ proc.threads, ∃ th, s.registry.get t = some th ∧ th.state = .exited
  registry : ∀ t, s'.registry.get t = if t ∈ s.sweep.tids then none else s.registry.get t
  removed : ∀ p ∈ s.sweep.pids, s'.processes.get p = none
  /-- the other processes keep their live threads -/
  kept : ∀ p, p ∉ s.sweep.pids → (s.processes.get p = none ∧ s'.processes.get p = none) ∨
    ∃ old new, s.processes.get p = some old ∧ s'.processes.get p = some new ∧
      ∀ t, t ∈ new.threads ↔ t ∈ old.threads ∧ t ∉ s.sweep.tids

/-- When the tables agree, every dead thread is listed. -/
theorem Agree.mem_tids (agree : Agree s) : tid ∈ s.sweep.tids ↔
    ∃ th, s.registry.get tid = some th ∧ th.state = .exited := by
  rw [System.mem_tids]
  refine exists_congr fun th => and_congr_right fun hreg => and_iff_left_of_imp fun hdead => ?_
  have huser : th.pid ≠ 0 := fun h0 => agree.kernel tid th hreg h0 hdead
  obtain ⟨proc, hproc, _⟩ := agree.home tid th hreg huser
  simp [hproc]

theorem Agree.mem_swept (agree : Agree s) (hproc : s.processes.get pid = some proc) :
    tid ∈ (proc.reapAll pid s.registry.entries).threads ↔
      tid ∈ proc.threads ∧ tid ∉ s.sweep.tids :=
  System.mem_swept hproc (agree.members pid proc hproc tid)

/-- A pass over a system that agrees does not panic. -/
theorem Agree.cleanup (agree : Agree s) : ∃ s', s.cleanup = some s' ∧ Cleaned s s' := by
  have swept := s.swept
  have listed := agree.listed
  have hpids : ∀ p, p ∈ s.sweep.pids ↔ ∃ proc, s.processes.get p = some proc ∧
      (proc.reapAll p s.registry.entries).threads = ∅ := by
    intro p
    refine ⟨swept.emptied p, ?_⟩
    rintro ⟨proc, hproc, hempty⟩
    exact listed.listed p proc hproc hempty
  have htids : s.sweep.tids.Nodup := by
    rw [swept.tids]
    apply List.Nodup.map_on
    · rintro ⟨t, th⟩ h ⟨t', th'⟩ h' rfl
      have hreg := s.registry.get_eq_some.mpr (List.mem_of_mem_filter h)
      have hreg' := s.registry.get_eq_some.mpr (List.mem_of_mem_filter h')
      rw [Option.some.inj (hreg.symm.trans hreg')]
    · apply List.Nodup.filter
      exact s.registry.sorted.imp fun hlt => fun heq => by simp [heq] at hlt
  have hreg : s.sweep.system.registry = s.registry := by rw [swept.frame]
  obtain ⟨mid, hunreg⟩ := unregister_all (s := s.sweep.system) s.sweep.tids htids (by
    intro t ht
    obtain ⟨th, hth, _⟩ := agree.mem_tids.mp ht
    simp [hreg, hth])
  obtain ⟨hframe, hmid⟩ := unregister_get hunreg
  have hprocs : mid.processes = s.sweep.system.processes := by rw [hframe]
  obtain ⟨s', hremove⟩ := remove_all (s := mid) s.sweep.pids listed.once (by
    intro p hp
    obtain ⟨proc, hproc, _⟩ := swept.emptied p hp
    simp [hprocs, swept.processes, hproc])
  obtain ⟨hregistry, hget⟩ := remove_get hremove
  refine ⟨s', by simp [System.cleanup, hunreg, hremove], ⟨htids, fun t => agree.mem_tids⟩,
    ⟨listed.once, ?_⟩, ?_, ?_, ?_⟩
  · intro p
    rw [hpids]
    refine exists_congr fun proc => and_congr_right fun hproc => ?_
    simp only [Finset.eq_empty_iff_forall_notMem, agree.mem_swept hproc, not_and, not_not]
    exact forall_congr' fun t => imp_congr_right fun _ => agree.mem_tids
  · intro t
    rw [hregistry, hmid, hreg]
  · intro p hp
    have kin := hget p
    rw [if_pos hp] at kin
    exact Kin.of_none kin
  intro p hp
  have kin := hget p
  rw [if_neg hp, hprocs, swept.processes] at kin
  cases hproc : s.processes.get p with
  | none =>
    rw [hproc] at kin
    exact .inl ⟨rfl, Kin.of_none kin⟩
  | some old =>
    rw [hproc] at kin
    obtain ⟨new, hnew, kin⟩ := Kin.of_some kin
    refine .inr ⟨old, new, rfl, hnew, ?_⟩
    intro t
    rw [kin.threads]
    exact agree.mem_swept hproc

end Orbit.Proc
