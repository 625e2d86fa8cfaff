import Orbit.Wait.Links

/-!
No thread that is parked in a wait is left behind. A thread parked for one child is in the
waiter slot of that child, which is there; one parked for any child is in the slot of its
own process, which has a live child it did not detach. The exit of the child empties the
slot and answers the thread.

Three things break this: a wait for a detached child, whose exit reports to nobody; an exit
that is claimed by the child's own waiter while another thread waits for any child, and no
other child is left; and a process with pid zero, to which no child reports.
-/

namespace Orbit.Wait

open Orbit.Abi Store Transition Table

variable {served : Option Tid} {process : Process} {tid : Tid}

variable {w : Parked} {pid : Pid} {req : WaitPid}

variable {s s' : System}

/-- Where a parked thread is to be found, by the place it waits at. -/
def System.Waits (s : System) (w : Parked) : Prop :=
  match w.place with
  | .queued => ∃ r ∈ s.work, r.tid = w.tid
  | .child k => asI32 w.asked ≠ -1 ∧ k = asU16 (asI32 w.asked) ∧
      ∃ p, s.processes.get k = some p ∧ p.exitWaiter = some w.tid
  | .anyChild => asI32 w.asked = -1 ∧
      (∃ p, s.processes.get w.pid = some p ∧ p.anyChildWaiter = some w.tid) ∧
      s.hasLiveChild w.pid = true

/-- Every parked thread is found where it waits, but for the one that is being answered. -/
structure Waiting (s : System) (served : Option Tid) : Prop where
  waits : ∀ w ∈ s.parked, served ≠ some w.tid → s.Waits w
  detached : ∀ k p, s.processes.get k = some p → p.detached = true → p.exitWaiter = none
  zero : s.processes.get 0 = none

theorem hasLiveChild_iff : s.hasLiveChild pid = true ↔
    ∃ k p, s.processes.get k = some p ∧ p.parentPid = pid ∧ p.detached = false := by
  simp only [System.hasLiveChild, List.any_eq_true, Bool.and_eq_true, decide_eq_true_eq,
    Bool.not_eq_true']
  constructor
  · rintro ⟨⟨k, p⟩, hmem, hparent, hdet⟩
    exact ⟨k, p, (s.processes.get_eq_some).mpr hmem, hparent, hdet⟩
  · rintro ⟨k, p, hp, hparent, hdet⟩
    exact ⟨(k, p), (s.processes.get_eq_some).mp hp, hparent, hdet⟩

namespace Waiting

theorem of_initial : Waiting initial none := by
  constructor <;> simp [initial]

/-- The waits of a state are kept by one that has the requests and the processes of it, with
the slots that name a waiting thread and the children. -/
theorem waits_mono (h : s.Waits w)
    (hwork : (∃ r ∈ s.work, r.tid = w.tid) → ∃ r ∈ s'.work, r.tid = w.tid)
    (hexit : ∀ k p, w.place = .child k → s.processes.get k = some p → p.exitWaiter = some w.tid →
      ∃ p', s'.processes.get k = some p' ∧ p'.exitWaiter = some w.tid)
    (hany : ∀ p, w.place = .anyChild → s.processes.get w.pid = some p →
      p.anyChildWaiter = some w.tid →
      ∃ p', s'.processes.get w.pid = some p' ∧ p'.anyChildWaiter = some w.tid)
    (hlive : w.place = .anyChild → s.hasLiveChild w.pid = true → s'.hasLiveChild w.pid = true) :
    s'.Waits w := by
  unfold System.Waits at h ⊢
  cases hplace : w.place with
  | queued =>
    rw [hplace] at h
    exact hwork h
  | child k =>
    rw [hplace] at h
    obtain ⟨hasked, hk, p, hp, hwaiter⟩ := h
    exact ⟨hasked, hk, hexit k p hplace hp hwaiter⟩
  | anyChild =>
    rw [hplace] at h
    obtain ⟨hasked, ⟨p, hp, hwaiter⟩, hchild⟩ := h
    exact ⟨hasked, hany p hplace hp hwaiter, hlive hplace hchild⟩

/-- The thread that is being answered leaves the list of parked threads. -/
theorem publish (h : Waiting s (some tid)) (r0 r1 : Int) (child : Option Nat) :
    Waiting (s.publish tid r0 r1 child) none := by
  unfold System.publish
  split
  · next hfind =>
    refine ⟨fun w hw _ => h.waits w hw ?_, h.detached, h.zero⟩
    rintro heq
    rw [List.find?_eq_none] at hfind
    exact hfind w hw (by simpa using (Option.some.inj heq).symm)
  refine ⟨fun w hw _ => ?_, h.detached, h.zero⟩
  obtain ⟨hw', hne⟩ := List.mem_filter.mp hw
  refine h.waits w hw' ?_
  rintro heq
  simp [Option.some.inj heq] at hne

/-- A process changes its slots; the names of threads that wait stay. -/
theorem setProcess (h : Waiting s served) {p p' : Process}
    (hp : s.processes.get pid = some p) (hparent : p'.parentPid = p.parentPid)
    (hdet : p'.detached = p.detached)
    (hexit : ∀ t, served ≠ some t → p.exitWaiter = some t → p'.exitWaiter = some t)
    (hany : ∀ t, served ≠ some t → p.anyChildWaiter = some t → p'.anyChildWaiter = some t)
    (hnone : p'.detached = true → p'.exitWaiter = none) :
    Waiting (s.setProcess pid p') served := by
  have hpid : (s.setProcess pid p').processes.get pid = some p' := get_insert_self _ _ _
  have hne : ∀ k, k ≠ pid → (s.setProcess pid p').processes.get k = s.processes.get k :=
    fun k hk => get_insert_ne _ _ hk
  constructor
  · intro w hw hserved
    refine waits_mono (h.waits w hw hserved) id ?_ ?_ ?_
    · intro k q _ hq hwaiter
      by_cases hk : k = pid
      · subst hk
        rw [hp] at hq
        cases hq
        exact ⟨p', hpid, hexit _ hserved hwaiter⟩
      · exact ⟨q, (hne k hk).trans hq, hwaiter⟩
    · intro q _ hq hwaiter
      by_cases hk : w.pid = pid
      · rw [hk, hp] at hq
        cases hq
        exact ⟨p', hk ▸ hpid, hany _ hserved hwaiter⟩
      · exact ⟨q, (hne _ hk).trans hq, hwaiter⟩
    intro _ hlive
    obtain ⟨k, q, hq, hqp, hqd⟩ := hasLiveChild_iff.mp hlive
    refine hasLiveChild_iff.mpr ?_
    by_cases hk : k = pid
    · subst hk
      rw [hp] at hq
      cases hq
      exact ⟨k, p', hpid, hparent.trans hqp, hdet.trans hqd⟩
    · exact ⟨k, q, (hne k hk).trans hq, hqp, hqd⟩
  · intro k q hq hqd
    by_cases hk : k = pid
    · rw [hk, hpid] at hq
      cases hq
      exact hnone hqd
    · exact h.detached k q ((hne k hk) ▸ hq) hqd
  · have hzero : (0 : Nat) ≠ pid := by
      rintro rfl
      rw [h.zero] at hp
      cases hp
    exact (hne 0 hzero).trans h.zero

/-- A process record changes in nothing the waiters look at. -/
theorem setRecord (h : Waiting s served) {p p' : Process} (hp : s.processes.get pid = some p)
    (hparent : p'.parentPid = p.parentPid) (hdet : p'.detached = p.detached)
    (hexit : p'.exitWaiter = p.exitWaiter) (hany : p'.anyChildWaiter = p.anyChildWaiter) :
    Waiting (s.setProcess pid p') served := by
  apply h.setProcess hp hparent hdet
  · exact fun _ _ => hexit.trans
  · exact fun _ _ => hany.trans
  · rw [hdet, hexit]
    exact h.detached _ p hp

/-- The thread that is being served comes to wait at `place`. -/
theorem moveTo {place : Place} (h : Waiting s (some tid))
    (hnew : ∀ w ∈ s.parked, w.tid = tid → s.Waits { w with place }) :
    Waiting (s.moveTo tid place) none := by
  refine ⟨fun w hw _ => ?_, h.detached, h.zero⟩
  obtain ⟨v, hv, rfl⟩ := List.mem_map.mp hw
  split
  · next htid => exact hnew v hv htid
  next htid =>
  refine h.waits v hv ?_
  rintro heq
  exact htid (Option.some.inj heq).symm

/-- What a served thread that is parked has asked for. -/
theorem served_parked (h : Links s) (hserved : Links.Served s req)
    (hw : w ∈ s.parked) (htid : w.tid = req.tid) :
    w.pid = req.pid ∧ asI32 w.asked = req.targetPid := by
  rcases hserved with ⟨⟨v, hv, hvtid, hpid, hasked⟩, -⟩ | hdead
  · obtain rfl := h.parked_unique hw hv (htid.trans hvtid.symm)
    exact ⟨hpid, hasked⟩
  · exact absurd (htid ▸ hdead) (h.not_dead hw)

theorem runWaitAnyChild (h : Waiting s (some req.tid)) (hlinks : Links s)
    (hserved : Links.Served s req) (hany : req.targetPid = -1) :
    Waiting (s.runWaitAnyChild req.pid req.tid) none := by
  unfold System.runWaitAnyChild
  split
  · exact h.publish _ _ _
  next parent hparent =>
  split
  · next child st rest _ =>
    apply publish
    exact h.setRecord hparent rfl rfl rfl rfl
  split
  · exact h.publish _ _ _
  next hslot =>
  split
  · exact h.publish _ _ _
  next hlive =>
  have hset : Waiting (s.setProcess req.pid
      { parent with anyChildWaiter := some req.tid }) (some req.tid) := by
    apply h.setProcess hparent
    · rfl
    · rfl
    · exact fun _ _ => id
    · intro t _ ht
      simp [ht] at hslot
    · exact h.detached _ parent hparent
  apply hset.moveTo
  intro w hw htid
  obtain ⟨hpid, hasked⟩ := served_parked hlinks hserved hw htid
  refine ⟨hasked.trans hany,
    ⟨{ parent with anyChildWaiter := some req.tid }, ?_, congrArg some htid.symm⟩, ?_⟩
  · rw [hpid]
    exact get_insert_self _ _ _
  rw [hpid, hasLiveChild_iff]
  obtain ⟨k, q, hq, hqp, hqd⟩ :=
    hasLiveChild_iff.mp (by simpa using hlive)
  by_cases hk : k = req.pid
  · rw [hk, hparent] at hq
    cases hq
    exact ⟨req.pid, _, get_insert_self _ _ _, hqp, hqd⟩
  · exact ⟨k, q, (get_insert_ne _ _ hk).trans hq, hqp, hqd⟩

/-- The target of a request for one child is not a process that was detached. -/
def TargetReports (s : System) (targetPid : Pid) : Prop :=
  ∀ p, s.processes.get targetPid = some p → p.detached = false

theorem waitForChild (h : Waiting s (some req.tid)) (hlinks : Links s)
    (hserved : Links.Served s req) (hone : req.targetPid ≠ -1)
    (hrep : TargetReports s (asU16 req.targetPid)) :
    Waiting (s.waitForChild req.pid req.tid (asU16 req.targetPid)) none := by
  unfold System.waitForChild
  split
  · exact h.publish _ _ _
  next target htarget =>
  split
  · exact h.publish _ _ _
  split
  · exact h.publish _ _ _
  next hslot =>
  have hset : Waiting (s.setProcess (asU16 req.targetPid)
      { target with exitWaiter := some req.tid }) (some req.tid) := by
    apply h.setProcess htarget
    · rfl
    · rfl
    · intro t _ ht
      simp [ht] at hslot
    · exact fun _ _ => id
    intro hdet
    rw [hrep target htarget] at hdet
    cases hdet
  apply hset.moveTo
  intro w hw htid
  obtain ⟨-, hasked⟩ := served_parked hlinks hserved hw htid
  refine ⟨?_, ?_, _, get_insert_self _ _ _, congrArg some htid.symm⟩
  · dsimp only
    rw [hasked]
    exact hone
  · dsimp only
    rw [hasked]

theorem runWaitPidReq (h : Waiting s (some req.tid)) (hlinks : Links s)
    (hserved : Links.Served s req)
    (hrep : req.targetPid ≠ -1 → TargetReports s (asU16 req.targetPid)) :
    Waiting (s.runWaitPidReq req) none := by
  unfold System.runWaitPidReq
  split
  · next hany => exact h.runWaitAnyChild hlinks hserved hany
  next hone =>
  dsimp only
  split
  · exact h.waitForChild hlinks hserved hone (hrep hone)
  next parent hparent =>
  split
  · apply publish
    exact h.setRecord hparent rfl rfl rfl rfl
  · exact h.waitForChild hlinks hserved hone (hrep hone)

/-- A process leaves. Its own waiter has still to be answered, and so has the thread that
waits for any child of its parent, if it was the last. -/
theorem depart (h : Waiting s none) (hlinks : Links s)
    (hp : s.processes.get pid = some process) (code : Int)
    (hwaiter : ∀ t, process.exitWaiter = some t → served = some t)
    (hlast : ∀ w ∈ s.parked, s.Waits w → w.place = .anyChild → w.pid ≠ pid →
      process.parentPid = w.pid → process.detached = false →
      served = some w.tid ∨ (s.depart pid process code).hasLiveChild w.pid = true) :
    Waiting (s.depart pid process code) served := by
  have hne : ∀ k, k ≠ pid → (s.depart pid process code).processes.get k = s.processes.get k :=
    fun k hk => get_erase_ne _ hk
  constructor
  · intro w hw hserved
    obtain ⟨hw', hthread⟩ := List.mem_filter.mp hw
    have hwpid : w.pid ≠ pid := by
      rintro heq
      obtain ⟨q, hq, ht, -⟩ := hlinks.caller w hw'
      rw [heq, hp] at hq
      cases hq
      simp [ht] at hthread
    have hwaits := h.waits w hw' (by simp)
    refine waits_mono hwaits id ?_ ?_ ?_
    · intro k q _ hq hq'
      by_cases hk : k = pid
      · rw [hk, hp] at hq
        cases hq
        exact absurd (hwaiter _ hq') hserved
      · exact ⟨q, (hne k hk).trans hq, hq'⟩
    · intro q _ hq hq'
      exact ⟨q, (hne _ hwpid).trans hq, hq'⟩
    intro hplace hlive
    obtain ⟨k, q, hq, hqp, hqd⟩ := hasLiveChild_iff.mp hlive
    by_cases hk : k = pid
    · rw [hk, hp] at hq
      cases hq
      exact (hlast w hw' hwaits hplace hwpid hqp hqd).resolve_left hserved
    · exact hasLiveChild_iff.mpr ⟨k, q, (hne k hk).trans hq, hqp, hqd⟩
  · intro k q hq
    have hk : k ≠ pid := by
      rintro rfl
      rw [System.depart, get_erase_self] at hq
      cases hq
    exact h.detached k q ((hne k hk) ▸ hq)
  · have hzero : (0 : Nat) ≠ pid := by
      rintro rfl
      rw [h.zero] at hp
      cases hp
    exact (hne 0 hzero).trans h.zero

/-- The exit of `process` leaves nobody behind who waits for any child of its parent: it is
detached, or no thread waits for it alone, or none waits for any child, or there is another
child. -/
def ExitReports (s : System) (pid : Pid) (process : Process) : Prop :=
  process.detached = true ∨ process.exitWaiter = none ∨
    (∀ parent, s.processes.get process.parentPid = some parent → parent.anyChildWaiter = none) ∨
    ({ s with processes := s.processes.erase pid } : System).hasLiveChild process.parentPid = true

variable (h : Waiting s none)

include h

theorem exit (hlinks : Links s)
    (hp : s.processes.get pid = some process) (code : Int) (hrep : ExitReports s pid process) :
    Waiting (s.exit pid process code) none := by
  -- the slot of the parent names the thread that waits for any of its children
  have hslot : ∀ w ∈ s.parked, s.Waits w → w.place = .anyChild →
      ∃ p, s.processes.get w.pid = some p ∧ p.anyChildWaiter = some w.tid := by
    intro w _ hwaits hplace
    unfold System.Waits at hwaits
    rw [hplace] at hwaits
    exact hwaits.2.1
  unfold System.exit System.handOver
  split
  · next hdet =>
    apply h.depart hlinks hp code
    · intro t ht
      rw [h.detached pid process hp hdet] at ht
      cases ht
    intro w _ _ _ _ _ hnot
    rw [hdet] at hnot
    cases hnot
  next hdet =>
  split
  · next tid hwaiter =>
    apply publish
    apply h.depart hlinks hp code
    · exact fun t ht => hwaiter.symm.trans ht
    intro w hw hwaits hplace _ hparent _
    right
    obtain ⟨p, hp', hany⟩ := hslot w hw hwaits hplace
    rcases hrep with hrep | hrep | hrep | hrep
    · exact absurd hrep hdet
    · rw [hwaiter] at hrep
      cases hrep
    · rw [hrep p (hparent ▸ hp')] at hany
      cases hany
    · exact hparent ▸ hrep
  next hwaiter =>
  -- nobody waits for it alone: the parent is told, if there is one
  have hdep : ∀ served, (∀ w ∈ s.parked, s.Waits w → w.place = .anyChild → w.pid ≠ pid →
      process.parentPid = w.pid → served = some w.tid) →
      Waiting (s.depart pid process code) served := by
    intro served hserved
    apply h.depart hlinks hp code
    · intro t ht
      rw [hwaiter] at ht
      cases ht
    · intro w hw hwaits hplace hne hparent _
      exact .inl (hserved w hw hwaits hplace hne hparent)
  split
  · next hzero =>
    apply hdep
    intro w hw hwaits hplace _ hparent
    obtain ⟨p, hp', -⟩ := hslot w hw hwaits hplace
    rw [← hparent, hzero, h.zero] at hp'
    cases hp'
  split
  · next hnone =>
    apply hdep
    intro w hw hwaits hplace hne hparent
    obtain ⟨p, hp', -⟩ := hslot w hw hwaits hplace
    rw [hparent, System.depart, get_erase_ne _ hne, hp'] at hnone
    cases hnone
  next parent hparent' =>
  have hsame : ∀ w ∈ s.parked, s.Waits w → w.place = .anyChild → w.pid ≠ pid →
      process.parentPid = w.pid → parent.anyChildWaiter = some w.tid := by
    intro w hw hwaits hplace hne hparent
    obtain ⟨p, hp', hany⟩ := hslot w hw hwaits hplace
    rw [hparent, System.depart, get_erase_ne _ hne, hp'] at hparent'
    cases hparent'
    exact hany
  split
  · next tid hany =>
    have hdep' : Waiting (s.depart pid process code) (some tid) := by
      apply hdep
      intro w hw hwaits hplace hne hparent
      exact hany.symm.trans (hsame w hw hwaits hplace hne hparent)
    apply publish
    apply hdep'.setProcess hparent'
    · rfl
    · rfl
    · exact fun _ _ => id
    · intro t hne ht
      exact absurd (hany.symm.trans ht) hne
    · exact hdep'.detached _ parent hparent'
  next hany =>
  have hdep' : Waiting (s.depart pid process code) none := by
    apply hdep
    intro w hw hwaits hplace hne hparent
    exact hany.symm.trans (hsame w hw hwaits hplace hne hparent)
  exact hdep'.setRecord hparent' rfl rfl rfl rfl

theorem install (hfree : s.processes.get pid = none)
    (hzero : pid ≠ 0) (parentPid : Pid) (detached : Bool) :
    Waiting (s.install pid parentPid detached) none := by
  have hkeep : ∀ k q, s.processes.get k = some q →
      (s.install pid parentPid detached).processes.get k = some q :=
    fun _ _ hq => get_insert_of_none hfree hq
  constructor
  · intro w hw _
    refine waits_mono (h.waits w hw (by simp)) id ?_ ?_ ?_
    · exact fun k q _ hq hq' => ⟨q, hkeep k q hq, hq'⟩
    · exact fun q _ hq hq' => ⟨q, hkeep _ q hq, hq'⟩
    intro _ hlive
    obtain ⟨k, q, hq, hrest⟩ := hasLiveChild_iff.mp hlive
    exact hasLiveChild_iff.mpr ⟨k, q, hkeep k q hq, hrest⟩
  · intro k q hq hdet
    rw [System.install, get_insert] at hq
    split at hq
    · cases hq
      rfl
    · exact h.detached k q hq hdet
  · rw [System.install, get_insert_ne _ _ hzero.symm]
    exact h.zero

theorem waitPidReq (pid : Pid) (process : Process) (tid : Tid)
    (number : Int) : Waiting (s.waitPidReq pid process tid number) none := by
  unfold System.waitPidReq
  split
  · exact { h with }
  split
  · refine ⟨fun w hw _ => ?_, h.detached, h.zero⟩
    rcases List.mem_append.mp hw with hw | hw
    · refine waits_mono (h.waits w hw (by simp)) ?_ (fun _ q _ hq hq' => ⟨q, hq, hq'⟩)
        (fun q _ hq hq' => ⟨q, hq, hq'⟩) fun _ => id
      rintro ⟨r, hr, htid⟩
      exact ⟨r, List.mem_append_left _ hr, htid⟩
    · obtain rfl := List.mem_singleton.mp hw
      exact ⟨_, List.mem_append_right _ (.head _), rfl⟩
  · exact { h with }

theorem pop {rest : List WaitPid}
    (hwork : s.work = req :: rest) : Waiting { s with work := rest } (some req.tid) := by
  refine ⟨fun w hw hserved => ?_, h.detached, h.zero⟩
  refine waits_mono (h.waits w hw (by simp)) ?_ (fun _ q _ hq hq' => ⟨q, hq, hq'⟩)
    (fun q _ hq hq' => ⟨q, hq, hq'⟩) fun _ => id
  rintro ⟨r, hr, htid⟩
  rw [hwork] at hr
  rcases List.mem_cons.mp hr with rfl | hr
  · exact absurd (congrArg some htid) hserved
  · exact ⟨r, hr, htid⟩

end Waiting

/-- The condition under which no waiting thread is left behind: no process gets pid zero, no
thread waits for a detached child, and an exit that is claimed by the child's own waiter
leaves another child to a thread that waits for any. -/
def WaiterSafe (s : System) : Action → Prop
  | .spawn _ _ => s.nextPid ≠ some 0
  | .serve => ∀ req ∈ s.work.head?, req.targetPid ≠ -1 →
      Waiting.TargetReports s (asU16 req.targetPid)
  | .exit pid _ => ∀ process, s.processes.get pid = some process →
      Waiting.ExitReports s pid process
  | _ => True

instance (s : System) (targetPid : Pid) : Decidable (Waiting.TargetReports s targetPid) :=
  decidable_of_iff (∀ p ∈ s.processes.get targetPid, p.detached = false) Iff.rfl

instance (s : System) (pid : Pid) (process : Process) :
    Decidable (Waiting.ExitReports s pid process) :=
  have : Decidable (∀ parent, s.processes.get process.parentPid = some parent →
      parent.anyChildWaiter = none) :=
    decidable_of_iff (∀ parent ∈ s.processes.get process.parentPid, parent.anyChildWaiter = none)
      Iff.rfl
  inferInstanceAs (Decidable (_ ∨ _ ∨ _ ∨ _))

instance (s : System) (a : Action) : Decidable (WaiterSafe s a) :=
  match a with
  | .spawn _ _ => inferInstanceAs (Decidable (s.nextPid ≠ some 0))
  | .serve => inferInstanceAs (Decidable (∀ req ∈ s.work.head?, req.targetPid ≠ -1 →
      Waiting.TargetReports s (asU16 req.targetPid)))
  | .exit pid _ => inferInstanceAs (Decidable (∀ process ∈ s.processes.get pid,
      Waiting.ExitReports s pid process))
  | .spawnFails => .isTrue trivial
  | .createThread _ => .isTrue trivial
  | .wait _ _ _ => .isTrue trivial

theorem Waiting.step (h : Waiting s none) (hlinks : Links s) {a : Action} (hsafe : WaiterSafe s a)
    (hstep : Wait.step s a = some s') : Waiting s' none := by
  cases stepped hstep with
  | spawn parentPid detached hpid =>
    refine h.install (nextPid_free hpid) ?_ parentPid detached
    rintro rfl
    exact hsafe hpid
  | spawnFails pid => exact { h with }
  | @createThread pid process hp =>
    have hset : Waiting (s.setProcess pid
        { process with threads := process.threads ++ [s.nextTid] }) none := by
      exact h.setRecord hp rfl rfl rfl rfl
    exact { hset with }
  | @wait pid process tid number hp hok => exact h.waitPidReq pid process tid number
  | @serve req rest hwork =>
    refine (h.pop hwork).runWaitPidReq (hlinks.pop hwork) (hlinks.served hwork) ?_
    exact hsafe req (by simp [hwork])
  | @exit pid process code hp => exact h.exit hlinks hp code (hsafe process hp)

/-- A parked thread stays parked, or it is the one that is answered. -/
def System.Kept (s s' : System) (w : Parked) : Prop :=
  (∃ v ∈ s'.parked, v.tid = w.tid) ∨
    ∃ r0 r1 child, s'.answered = s.answered ++ [⟨w.caller, w.asked, r0, r1, child⟩]

namespace Links

theorem kept_publish (h : Links s) (hw : w ∈ s.parked) (tid : Tid) (r0 r1 : Int)
    (child : Option Nat) : s.Kept (s.publish tid r0 r1 child) w := by
  by_cases htid : w.tid = tid
  · subst htid
    rw [h.publish_parked hw]
    exact .inr ⟨r0, r1, child, rfl⟩
  left
  refine ⟨w, ?_, rfl⟩
  unfold System.publish
  split
  · exact hw
  · exact List.mem_filter.mpr ⟨hw, by simpa using htid⟩

theorem kept_moveTo (hw : w ∈ s.parked) (tid : Tid) (place : Place) :
    s.Kept (s.moveTo tid place) w := by
  left
  refine ⟨_, List.mem_map.mpr ⟨w, hw, rfl⟩, ?_⟩
  split <;> rfl

variable (h : Links s)

include h

theorem kept_runWaitAnyChild (hw : w ∈ s.parked) (pid : Pid)
    (tid : Tid) : s.Kept (s.runWaitAnyChild pid tid) w := by
  unfold System.runWaitAnyChild
  split
  · exact h.kept_publish hw _ _ _ _
  next parent hparent =>
  split
  · next child st rest _ =>
    have hset : Links (s.setProcess pid { parent with deadChildren := rest }) :=
      h.setProcess hparent rfl rfl rfl (.inl rfl)
    exact hset.kept_publish hw _ _ _ _
  split
  · exact h.kept_publish hw _ _ _ _
  split
  · exact h.kept_publish hw _ _ _ _
  · exact kept_moveTo hw tid .anyChild

theorem kept_waitForChild (hw : w ∈ s.parked) (pid : Pid)
    (tid : Tid) (targetPid : Pid) : s.Kept (s.waitForChild pid tid targetPid) w := by
  unfold System.waitForChild
  split
  · exact h.kept_publish hw _ _ _ _
  split
  · exact h.kept_publish hw _ _ _ _
  split
  · exact h.kept_publish hw _ _ _ _
  · exact kept_moveTo hw tid (.child targetPid)

theorem kept_runWaitPidReq (hw : w ∈ s.parked) (req : WaitPid) :
    s.Kept (s.runWaitPidReq req) w := by
  unfold System.runWaitPidReq
  split
  · exact h.kept_runWaitAnyChild hw _ _
  dsimp only
  split
  · exact h.kept_waitForChild hw _ _ _
  next parent hparent =>
  split
  · have hset : Links (s.setProcess req.pid { parent with
        deadChildren := parent.deadChildren.erase (asU16 req.targetPid) }) :=
      h.setProcess hparent rfl rfl rfl (.inl rfl)
    exact hset.kept_publish hw _ _ _ _
  · exact h.kept_waitForChild hw _ _ _

theorem kept_handOver (hw : w ∈ s.parked) (pid : Pid)
    (process : Process) (code : Int) : s.Kept (s.handOver pid process code) w := by
  have hsame : s.Kept s w := .inl ⟨w, hw, rfl⟩
  unfold System.handOver
  split
  · exact hsame
  split
  · exact h.kept_publish hw _ _ _ _
  split
  · exact hsame
  split
  · exact hsame
  next parent hparent =>
  split
  · have hset : Links (s.setProcess process.parentPid
        { parent with anyChildWaiter := none }) :=
      h.setProcess hparent rfl rfl rfl (.inr rfl)
    exact hset.kept_publish hw _ _ _ _
  · exact hsame

/-- A step drops no parked thread: it stays parked, or is answered, or its process exits. -/
theorem kept_step {a : Action} (hstep : Wait.step s a = some s')
    (hw : w ∈ s.parked) : s.Kept s' w ∨ ∃ code, a = .exit w.pid code := by
  have hsame : s.Kept s w := .inl ⟨w, hw, rfl⟩
  cases stepped hstep with
  | spawn parentPid detached hpid => exact .inl hsame
  | spawnFails pid => exact .inl hsame
  | createThread hp => exact .inl hsame
  | wait number hp hok =>
    refine .inl (.inl ⟨w, ?_, rfl⟩)
    unfold System.waitPidReq
    split
    · exact hw
    split
    · exact List.mem_append_left _ hw
    · exact hw
  | @serve req rest hwork => exact .inl ((h.pop hwork).kept_runWaitPidReq hw req)
  | @exit pid process code hp =>
    by_cases ht : w.tid ∈ process.threads
    · obtain ⟨q, hq, ht', -⟩ := h.caller w hw
      obtain rfl := h.disjoint w.pid q pid process hq hp _ ht' ht
      exact .inr ⟨code, rfl⟩
    have hw' : w ∈ (s.depart pid process code).parked :=
      List.mem_filter.mpr ⟨hw, by simpa using ht⟩
    exact .inl ((h.depart hp code).kept_handOver hw' pid process code)

end Links

/-- In every run that meets the condition, a thread parked in a wait has its request still in
the queue, or waits for a process that is there and has it in its slot, or waits for any
child, has its own process's slot and has a live child that is not detached; and no step drops
it without an answer, but for the exit of its own process. -/
theorem wait_pid_waiters_never_dropped (run : Reach Wait.step WaiterSafe (· = initial) s) :
    (∀ w ∈ s.parked, (∃ r ∈ s.work, r.tid = w.tid) ∨
      (asI32 w.asked ≠ -1 ∧ ∃ p, s.processes.get (asU16 (asI32 w.asked)) = some p ∧
        p.exitWaiter = some w.tid) ∨
      (asI32 w.asked = -1 ∧ (∃ p, s.processes.get w.pid = some p ∧ p.anyChildWaiter = some w.tid) ∧
        ∃ k p, s.processes.get k = some p ∧ p.parentPid = w.pid ∧ p.detached = false)) ∧
    ∀ a s', Wait.step s a = some s' → ∀ w ∈ s.parked,
      (∃ v ∈ s'.parked, v.tid = w.tid) ∨ (∃ code, a = .exit w.pid code) ∨
      ∃ r0 r1 child, s'.answered = s.answered ++ [⟨w.caller, w.asked, r0, r1, child⟩] := by
  have hlinks : ∀ t, Reach Wait.step WaiterSafe (· = initial) t → Links t := fun t ht =>
    ht.invariant (fun _ h => h ▸ .of_initial) fun _ _ _ h _ hs => h.step hs
  have hwaiting : Waiting s none :=
    run.invariant_of (J := fun s => Waiting s none) hlinks (fun _ h => h ▸ Waiting.of_initial)
      fun _ _ _ hl h hsafe hs => h.step hl hsafe hs
  constructor
  · intro w hw
    have hwaits := hwaiting.waits w hw (by simp)
    unfold System.Waits at hwaits
    split at hwaits
    · exact .inl hwaits
    · obtain ⟨hasked, rfl, hp⟩ := hwaits
      exact .inr (.inl ⟨hasked, hp⟩)
    · obtain ⟨hasked, hp, hlive⟩ := hwaits
      exact .inr (.inr ⟨hasked, hp, hasLiveChild_iff.mp hlive⟩)
  intro a s' hstep w hw
  rcases (hlinks s run).kept_step hstep hw with (hkept | hans) | hexit
  · exact .inl hkept
  · exact .inr (.inr hans)
  · exact .inr (.inl hexit)

/-- A process with two threads has a child; one thread waits for it, the other for any child. -/
def twoWaiters : List Action :=
  [.spawn 0 false, .createThread 1, .spawn 1 false, .wait 1 1 2, .serve, .wait 1 2 (-1), .serve]

theorem wait_pid_waiters_never_dropped_two : ∃ s, Reach Wait.step WaiterSafe (· = initial) s ∧
    ⟨1, 1, 0, 2, .child 2⟩ ∈ s.parked ∧ s.work = [] ∧
    ((∃ r ∈ s.work, r.tid = 1) ∨
      (asI32 2 ≠ -1 ∧ ∃ p, s.processes.get (asU16 (asI32 2)) = some p ∧ p.exitWaiter = some 1) ∨
      (asI32 2 = -1 ∧ (∃ p, s.processes.get 1 = some p ∧ p.anyChildWaiter = some 1) ∧
        ∃ k p, s.processes.get k = some p ∧ p.parentPid = 1 ∧ p.detached = false)) := by
  have hstart : Reach Wait.step WaiterSafe (· = initial) initial := .start rfl
  obtain ⟨s, run, hparked, hwork⟩ := hstart.exists_of_exec twoWaiters
    (fun s : System => ⟨1, 1, 0, 2, .child 2⟩ ∈ s.parked ∧ s.work = []) (by decide +kernel)
  exact ⟨s, run, hparked, hwork, (wait_pid_waiters_never_dropped run).1 _ hparked⟩

/-- A detached child exits while its parent waits for it. -/
def detachedExit : List Action :=
  [.spawn 0 false, .spawn 1 true, .wait 1 1 2, .serve, .exit 2 0]

/-- The thread stays parked for a process that is gone; and so does the thread that waits for
any child when the exit of the last is claimed by the other. -/
theorem wait_pid_leaves_waiters : (∃ s, Reach Wait.step (fun _ _ => True) (· = initial) s ∧
      ⟨1, 1, 0, 2, .child 2⟩ ∈ s.parked ∧ s.work = [] ∧ (s.processes.get 2).isNone ∧
      s.answered = []) ∧
    ∃ s, Reach Wait.step (fun _ _ => True) (· = initial) s ∧
      ⟨2, 1, 0, -1, .anyChild⟩ ∈ s.parked ∧ s.work = [] ∧ s.hasLiveChild 1 = false ∧
      s.answered = [⟨0, 2, 0, 0, some 1⟩] := by
  have hstart : Reach Wait.step (fun _ _ => True) (· = initial) initial := .start rfl
  constructor
  · exact hstart.exists_of_exec detachedExit (fun s : System =>
      ⟨1, 1, 0, 2, .child 2⟩ ∈ s.parked ∧ s.work = [] ∧ (s.processes.get 2).isNone ∧
        s.answered = []) (by decide +kernel)
  exact hstart.exists_of_exec (twoWaiters ++ [.exit 2 0]) (fun s : System =>
    ⟨2, 1, 0, -1, .anyChild⟩ ∈ s.parked ∧ s.work = [] ∧ s.hasLiveChild 1 = false ∧
      s.answered = [⟨0, 2, 0, 0, some 1⟩]) (by decide +kernel)

end Orbit.Wait
