import Mathlib.Data.List.Nodup
import Orbit.Transition.Run
import Orbit.Wait.State

/-!
How the waiter slots and the work queue name the parked threads. Every name of a thread
in a slot or in the queue is of a thread that is parked there, or of one that is gone; a
parked thread is named once. This holds in every run.
-/

namespace Orbit.Wait

open Orbit.Abi Store Table

variable {rest : List WaitPid} {w : Parked} {pid : Pid} {p p' process : Process} {tid : Tid}
  {req : WaitPid}

variable {s s' : System}

namespace System

/-- The thread is gone, and its number is not used again. -/
def Dead (s : System) (tid : Tid) : Prop :=
  tid < s.nextTid ∧ ∀ pid p, s.processes.get pid = some p → tid ∉ p.threads

/-- The thread is parked at `place` for the request `req`. -/
def ParkedAt (s : System) (tid : Tid) (place : Place) : Prop :=
  ∃ w ∈ s.parked, w.tid = tid ∧ w.place = place

/-- Neither the queue nor a slot names the thread. -/
structure Unnamed (s : System) (tid : Tid) : Prop where
  work : ∀ r ∈ s.work, r.tid ≠ tid
  exitWaiter : ∀ k p, s.processes.get k = some p → p.exitWaiter ≠ some tid
  anyChildWaiter : ∀ k p, s.processes.get k = some p → p.anyChildWaiter ≠ some tid

theorem get_depart (s : System) {k : Pid} {q : Process} {code : Int}
    (hq : (s.depart pid process code).processes.get k = some q) :
    k ≠ pid ∧ s.processes.get k = some q :=
  s.processes.get_erase_eq_some.mp hq

end System

/-- A pid that is drawn is of no process. -/
theorem nextPid_free (h : s.nextPid = some pid) : s.processes.get pid = none := by
  have hfree := nextPidFrom_free h
  simpa using hfree

/-- What a step can do. -/
inductive Stepped (s : System) : Action → System → Prop where
  | spawn {pid : Pid} (parentPid detached) (hpid : s.nextPid = some pid) :
    Stepped s (.spawn parentPid detached) (s.install pid parentPid detached)
  | spawnFails (pid : Pid) : Stepped s .spawnFails { s with currentProcessId := pid }
  | createThread {pid : Pid} {process : Process} (hp : s.processes.get pid = some process) :
    Stepped s (.createThread pid)
      { s.setProcess pid { process with threads := process.threads ++ [s.nextTid] } with
        nextTid := s.nextTid + 1 }
  | wait {pid : Pid} {process : Process} {tid : Tid} (number)
    (hp : s.processes.get pid = some process)
      (hok : tid ∈ process.threads ∧ ∀ w ∈ s.parked, w.tid ≠ tid) :
    Stepped s (.wait pid tid number) (s.waitPidReq pid process tid number)
  | serve {req : WaitPid} {rest : List WaitPid} (hwork : s.work = req :: rest) :
    Stepped s .serve ({ s with work := rest }.runWaitPidReq req)
  | exit {pid : Pid} {process : Process} (code) (hp : s.processes.get pid = some process) :
    Stepped s (.exit pid code) (s.exit pid process code)

theorem stepped {a : Action} (hstep : step s a = some s') : Stepped s a s' := by
  unfold step at hstep
  -- the second alternative of each action is that it is not possible
  split at hstep <;> split at hstep <;> try cases hstep
  · next hpid => exact .spawn _ _ hpid
  · exact .spawnFails _
  · next hp => exact .createThread hp
  · next hp =>
    split at hstep <;> cases hstep
    next hok => exact .wait _ hp hok
  · next hwork => exact .serve hwork
  · next hp => exact .exit _ hp

theorem waitCheck_ok {number targetPid : Int}
    (h : System.waitCheck pid number = .ok targetPid) : asI32 number = targetPid := by
  simp only [System.waitCheck] at h
  split at h
  · cases h
  split at h
  · cases h
  · exact Except.ok.inj h

structure Links (s : System) : Prop where
  threads : ∀ pid p, s.processes.get pid = some p → ∀ t ∈ p.threads, t < s.nextTid
  disjoint : ∀ pid p pid' p', s.processes.get pid = some p → s.processes.get pid' = some p' →
    ∀ t, t ∈ p.threads → t ∈ p'.threads → pid = pid'
  caller : ∀ w ∈ s.parked, ∃ p, s.processes.get w.pid = some p ∧ w.tid ∈ p.threads ∧ w.caller = p.id
  once : (s.parked.map Parked.tid).Nodup
  queued : ∀ r ∈ s.work, (∃ w ∈ s.parked, w.tid = r.tid ∧ w.place = .queued ∧ w.pid = r.pid ∧
    asI32 w.asked = r.targetPid) ∨ s.Dead r.tid
  queue : (s.work.map WaitPid.tid).Nodup
  exitWaiter : ∀ k p t, s.processes.get k = some p → p.exitWaiter = some t →
    s.ParkedAt t (.child k) ∨ s.Dead t
  anyChildWaiter : ∀ k p t, s.processes.get k = some p → p.anyChildWaiter = some t →
    (∃ w ∈ s.parked, w.tid = t ∧ w.place = .anyChild ∧ w.pid = k) ∨ s.Dead t

namespace Links

theorem of_initial : Links initial := by
  constructor <;> simp [initial]

/-- Two parked entries of one thread are the same. -/
theorem parked_unique (h : Links s) {w w' : Parked} (hw : w ∈ s.parked) (hw' : w' ∈ s.parked)
    (htid : w.tid = w'.tid) : w = w' :=
  List.inj_on_of_nodup_map h.once hw hw' htid

/-- A parked thread is not gone. -/
theorem not_dead (h : Links s) (hw : w ∈ s.parked) : ¬ s.Dead w.tid := by
  intro hdead
  obtain ⟨p, hp, ht, -⟩ := h.caller w hw
  exact hdead.2 w.pid p hp ht

/-- The only name of a thread that is parked in the queue is its request. -/
theorem unnamed_of_queued (h : Links s)
    (hwork : s.work = req :: rest) (hw : w ∈ s.parked) (htid : w.tid = req.tid) :
    w.place = .queued ∧ w.pid = req.pid ∧ asI32 w.asked = req.targetPid ∧
      System.Unnamed { s with work := rest } req.tid := by
  have hreq : req ∈ s.work := by rw [hwork]; exact (.head _)
  have hlive : ¬ s.Dead req.tid := htid ▸ h.not_dead hw
  obtain ⟨w', hw', htid', hplace, hpid, hasked⟩ := (h.queued req hreq).resolve_right hlive
  obtain rfl := h.parked_unique hw hw' (htid.trans htid'.symm)
  refine ⟨hplace, hpid, hasked, ?_, ?_, ?_⟩
  · intro r hr hrtid
    have hnodup := h.queue
    rw [hwork, List.map_cons, List.nodup_cons] at hnodup
    exact hnodup.1 (List.mem_map.mpr ⟨r, hr, hrtid⟩)
  · intro k p hp hwaiter
    obtain ⟨w', hw', htid', hplace'⟩ := (h.exitWaiter k p _ hp hwaiter).resolve_right hlive
    obtain rfl := h.parked_unique hw hw' (htid.trans htid'.symm)
    rw [hplace] at hplace'
    cases hplace'
  intro k p hp hwaiter
  obtain ⟨w', hw', htid', hplace', -⟩ := (h.anyChildWaiter k p _ hp hwaiter).resolve_right hlive
  obtain rfl := h.parked_unique hw hw' (htid.trans htid'.symm)
  rw [hplace] at hplace'
  cases hplace'

theorem publish_eq (r0 r1 : Int) (child : Option Nat)
    (hnone : ∀ w ∈ s.parked, w.tid ≠ tid) : s.publish tid r0 r1 child = s := by
  have hfind : s.parked.find? (fun w => w.tid = tid) = none := by
    rw [List.find?_eq_none]
    intro w hw
    simpa using hnone w hw
  rw [System.publish, hfind]

/-- What an answer does to a thread that is parked. -/
theorem publish_parked (h : Links s) (hw : w ∈ s.parked) (r0 r1 : Int)
    (child : Option Nat) : s.publish w.tid r0 r1 child = { s with
      parked := s.parked.filter fun v => v.tid ≠ w.tid
      answered := s.answered ++ [⟨w.caller, w.asked, r0, r1, child⟩] } := by
  have hsome : (s.parked.find? fun v => v.tid = w.tid).isSome := by
    rw [List.find?_isSome]
    exact ⟨w, hw, by simp⟩
  obtain ⟨v, hv⟩ := Option.isSome_iff_exists.mp hsome
  have hvtid : v.tid = w.tid := by simpa using List.find?_some hv
  obtain rfl := h.parked_unique (List.mem_of_find?_eq_some hv) hw hvtid
  rw [System.publish, hv]

/-- A thread that nothing names is answered. -/
theorem publish (h : Links s) (hun : s.Unnamed tid) (r0 r1 : Int) (child : Option Nat) :
    Links (s.publish tid r0 r1 child) := by
  by_cases hex : ∃ w ∈ s.parked, w.tid = tid
  · obtain ⟨w, hw, rfl⟩ := hex
    have hkeep : ∀ v ∈ s.parked, v.tid ≠ w.tid → v ∈ s.parked.filter fun v => v.tid ≠ w.tid :=
      fun v hv hne => List.mem_filter.mpr ⟨hv, by simpa using hne⟩
    rw [h.publish_parked hw]
    constructor
    · exact h.threads
    · exact h.disjoint
    · exact fun v hv => h.caller v (List.mem_filter.mp hv).1
    · exact h.once.sublist (List.filter_sublist.map _)
    · intro r hr
      refine (h.queued r hr).imp_left ?_
      rintro ⟨v, hv, htid, hrest⟩
      exact ⟨v, hkeep v hv (fun he => hun.work r hr (htid.symm.trans he)), htid, hrest⟩
    · exact h.queue
    · intro k p t hp ht
      refine (h.exitWaiter k p t hp ht).imp_left ?_
      rintro ⟨v, hv, rfl, hrest⟩
      exact ⟨v, hkeep v hv (fun he => hun.exitWaiter k p hp (he ▸ ht)), rfl, hrest⟩
    intro k p t hp ht
    refine (h.anyChildWaiter k p t hp ht).imp_left ?_
    rintro ⟨v, hv, rfl, hrest⟩
    exact ⟨v, hkeep v hv (fun he => hun.anyChildWaiter k p hp (he ▸ ht)), rfl, hrest⟩
  · rw [publish_eq]
    · exact h
    · exact fun w hw htid => hex ⟨w, hw, htid⟩

/-- The oldest request leaves the queue. -/
theorem pop (h : Links s) (hwork : s.work = req :: rest) :
    Links { s with work := rest } := by
  have hsub : ∀ r ∈ rest, r ∈ s.work := fun r hr => by
    rw [hwork]
    exact .tail _ hr
  have hqueue := h.queue
  rw [hwork, List.map_cons, List.nodup_cons] at hqueue
  exact { h with queued := fun r hr => h.queued r (hsub r hr), queue := hqueue.2 }

/-- A process record changes in its table of dead children, or in a slot that is emptied. -/
theorem setProcess (h : Links s) (hp : s.processes.get pid = some p)
    (hthreads : p'.threads = p.threads) (hid : p'.id = p.id) (hexit : p'.exitWaiter = p.exitWaiter)
    (hany : p'.anyChildWaiter = p.anyChildWaiter ∨ p'.anyChildWaiter = none) :
    Links (s.setProcess pid p') := by
  have hget : ∀ k q, (s.setProcess pid p').processes.get k = some q →
      ∃ q₀, s.processes.get k = some q₀ ∧ q.threads = q₀.threads ∧ q.id = q₀.id ∧
        q.exitWaiter = q₀.exitWaiter ∧
        (q.anyChildWaiter = q₀.anyChildWaiter ∨ q.anyChildWaiter = none) := by
    intro k q hq
    rcases s.processes.get_insert_eq_some.mp hq with ⟨rfl, rfl⟩ | ⟨_, hq⟩
    · exact ⟨p, hp, hthreads, hid, hexit, hany⟩
    · exact ⟨q, hq, rfl, rfl, rfl, .inl rfl⟩
  have hdead : ∀ t, s.Dead t → (s.setProcess pid p').Dead t := by
    rintro t ⟨hlt, hnot⟩
    refine ⟨hlt, fun k q hq => ?_⟩
    obtain ⟨q₀, hq₀, ht, -⟩ := hget k q hq
    rw [ht]
    exact hnot k q₀ hq₀
  constructor
  · intro k q hq t ht
    obtain ⟨q₀, hq₀, hth, -⟩ := hget k q hq
    exact h.threads k q₀ hq₀ t (hth ▸ ht)
  · intro k q k' q' hq hq' t ht ht'
    obtain ⟨q₀, hq₀, hth, -⟩ := hget k q hq
    obtain ⟨q₁, hq₁, hth', -⟩ := hget k' q' hq'
    exact h.disjoint k q₀ k' q₁ hq₀ hq₁ t (hth ▸ ht) (hth' ▸ ht')
  · intro w hw
    obtain ⟨q, hq, ht, hc⟩ := h.caller w hw
    by_cases hk : w.pid = pid
    · rw [hk, hp] at hq
      cases hq
      refine ⟨p', ?_, hthreads ▸ ht, hc.trans hid.symm⟩
      rw [System.setProcess, hk, get_insert_self]
    refine ⟨q, ?_, ht, hc⟩
    rw [System.setProcess, get_insert_ne _ _ hk]
    exact hq
  · exact h.once
  · exact fun r hr => (h.queued r hr).imp_right (hdead _)
  · exact h.queue
  · intro k q t hq ht
    obtain ⟨q₀, hq₀, -, -, he, -⟩ := hget k q hq
    exact (h.exitWaiter k q₀ t hq₀ (he ▸ ht)).imp_right (hdead _)
  intro k q t hq ht
  obtain ⟨q₀, hq₀, -, -, -, ha⟩ := hget k q hq
  rcases ha with ha | ha
  · exact (h.anyChildWaiter k q₀ t hq₀ (ha ▸ ht)).imp_right (hdead _)
  · rw [ha] at ht
    cases ht

/-- The thread of a request that is being served: parked and no longer named, or gone. -/
def Served (s : System) (req : WaitPid) : Prop :=
  (∃ w ∈ s.parked, w.tid = req.tid ∧ w.pid = req.pid ∧ asI32 w.asked = req.targetPid) ∧
    s.Unnamed req.tid ∨ s.Dead req.tid

theorem served (h : Links s) (hwork : s.work = req :: rest) :
    Served { s with work := rest } req := by
  have hreq : req ∈ s.work := by rw [hwork]; exact (.head _)
  rcases h.queued req hreq with ⟨w, hw, htid, -, hpid, hasked⟩ | hdead
  · exact .inl ⟨⟨w, hw, htid, hpid, hasked⟩, (h.unnamed_of_queued hwork hw htid).2.2.2⟩
  · exact .inr hdead

theorem publish_served (h : Links s) (hserved : Served s req) (r0 r1 : Int)
    (child : Option Nat) : Links (s.publish req.tid r0 r1 child) := by
  rcases hserved with ⟨-, hun⟩ | hdead
  · exact h.publish hun r0 r1 child
  rw [publish_eq]
  · exact h
  · intro w hw htid
    exact h.not_dead hw (htid ▸ hdead)

theorem mem_moveTo {place : Place} : w ∈ (s.moveTo tid place).parked ↔
      w ∈ s.parked ∧ w.tid ≠ tid ∨ ∃ v ∈ s.parked, v.tid = tid ∧ w = { v with place } := by
  simp only [System.moveTo, List.mem_map]
  constructor
  · rintro ⟨v, hv, rfl⟩
    by_cases hv' : v.tid = tid
    · rw [if_pos hv']
      exact .inr ⟨v, hv, hv', rfl⟩
    · rw [if_neg hv']
      exact .inl ⟨hv, hv'⟩
  rintro (⟨hw, hne⟩ | ⟨v, hv, hv', rfl⟩)
  · exact ⟨w, hw, if_neg hne⟩
  · exact ⟨v, hv, if_pos hv'⟩

/-- A served thread gets a slot of process `pid`, which was free. -/
theorem park (h : Links s) (hserved : Served s req)
    (hp : s.processes.get pid = some p) (hthreads : p'.threads = p.threads) (hid : p'.id = p.id)
    {place : Place} (hslots : place = .child pid ∧ p'.exitWaiter = some req.tid ∧
        p'.anyChildWaiter = p.anyChildWaiter ∨
      place = .anyChild ∧ pid = req.pid ∧ p'.exitWaiter = p.exitWaiter ∧
        p'.anyChildWaiter = some req.tid) :
    Links ((s.setProcess pid p').moveTo req.tid place) := by
  have hget : ∀ k q, (s.setProcess pid p').processes.get k = some q →
      k = pid ∧ q = p' ∨ s.processes.get k = some q := by
    intro k q hq
    exact (s.processes.get_insert_eq_some.mp hq).imp_right And.right
  have hold : ∀ k q, (s.setProcess pid p').processes.get k = some q →
      ∃ q₀, s.processes.get k = some q₀ ∧ q.threads = q₀.threads ∧ q.id = q₀.id := by
    intro k q hq
    rcases hget k q hq with ⟨rfl, rfl⟩ | hq'
    · exact ⟨p, hp, hthreads, hid⟩
    · exact ⟨q, hq', rfl, rfl⟩
  have hdead : ∀ t, s.Dead t → ((s.setProcess pid p').moveTo req.tid place).Dead t := by
    rintro t ⟨hlt, hnot⟩
    refine ⟨hlt, fun k q hq => ?_⟩
    obtain ⟨q₀, hq₀, ht, -⟩ := hold k q hq
    rw [ht]
    exact hnot k q₀ hq₀
  have hmoved : ∀ w ∈ s.parked, w.tid = req.tid →
      { w with place } ∈ ((s.setProcess pid p').moveTo req.tid place).parked :=
    fun w hw htid => mem_moveTo.mpr (.inr ⟨w, hw, htid, rfl⟩)
  -- other names are of other threads, whose entries stay, or of a thread that is gone
  have hstay : ∀ {P : Parked → Prop} {t : Tid}, (s.Unnamed req.tid → t ≠ req.tid) →
      (∃ w ∈ s.parked, w.tid = t ∧ P w) ∨ s.Dead t →
      (∃ w ∈ ((s.setProcess pid p').moveTo req.tid place).parked, w.tid = t ∧ P w) ∨
        ((s.setProcess pid p').moveTo req.tid place).Dead t := by
    rintro P t hne (⟨w, hw, rfl, hrest⟩ | hgone)
    · have hother : w.tid ≠ req.tid := by
        rcases hserved with ⟨-, hun⟩ | hgone
        · exact hne hun
        · exact fun he => h.not_dead hw (he ▸ hgone)
      exact .inl ⟨w, mem_moveTo.mpr (.inl ⟨hw, hother⟩), rfl, hrest⟩
    · exact .inr (hdead _ hgone)
  constructor
  · intro k q hq t ht
    obtain ⟨q₀, hq₀, hth, -⟩ := hold k q hq
    exact h.threads k q₀ hq₀ t (hth ▸ ht)
  · intro k q k' q' hq hq' t ht ht'
    obtain ⟨q₀, hq₀, hth, -⟩ := hold k q hq
    obtain ⟨q₁, hq₁, hth', -⟩ := hold k' q' hq'
    exact h.disjoint k q₀ k' q₁ hq₀ hq₁ t (hth ▸ ht) (hth' ▸ ht')
  · intro w hw
    have hback : ∃ v ∈ s.parked, v.tid = w.tid ∧ v.pid = w.pid ∧ v.caller = w.caller := by
      rcases mem_moveTo.mp hw with ⟨hw', -⟩ | ⟨v, hv, -, rfl⟩
      · exact ⟨w, hw', rfl, rfl, rfl⟩
      · exact ⟨v, hv, rfl, rfl, rfl⟩
    obtain ⟨v, hv, htid, hpid, hcaller⟩ := hback
    obtain ⟨q, hq, ht, hc⟩ := h.caller v hv
    rw [htid] at ht
    rw [hpid] at hq
    rw [hcaller] at hc
    by_cases hk : w.pid = pid
    · rw [hk, hp] at hq
      cases hq
      refine ⟨p', ?_, hthreads ▸ ht, hc.trans hid.symm⟩
      simp only [System.moveTo, System.setProcess, hk, get_insert_self]
    refine ⟨q, ?_, ht, hc⟩
    simp only [System.moveTo, System.setProcess, get_insert_ne _ _ hk]
    exact hq
  · have htids : (((s.setProcess pid p').moveTo req.tid place).parked.map Parked.tid) =
        s.parked.map Parked.tid := by
      simp only [System.moveTo, System.setProcess, List.map_map]
      apply List.map_congr_left
      intro w _
      simp only [Function.comp]
      split <;> rfl
    rw [htids]
    exact h.once
  · exact fun r hr => hstay (fun hun => hun.work r hr) (h.queued r hr)
  · exact h.queue
  · intro k q t hq ht
    have hcases : (k = pid ∧ t = req.tid ∧ place = .child k) ∨
        ∃ q₀, s.processes.get k = some q₀ ∧ q₀.exitWaiter = some t := by
      rcases hget k q hq with ⟨rfl, rfl⟩ | hq'
      · rcases hslots with ⟨hplace, he, -⟩ | ⟨-, -, he, -⟩
        · rw [he] at ht
          exact .inl ⟨rfl, (Option.some.inj ht).symm, hplace⟩
        · exact .inr ⟨p, hp, he ▸ ht⟩
      · exact .inr ⟨q, hq', ht⟩
    rcases hcases with ⟨rfl, rfl, hplace⟩ | ⟨q₀, hq₀, ht₀⟩
    · rcases hserved with ⟨⟨w, hw, htid, -⟩, -⟩ | hgone
      · exact .inl ⟨_, hmoved w hw htid, htid, hplace⟩
      · exact .inr (hdead _ hgone)
    exact hstay (fun hun he => hun.exitWaiter k q₀ hq₀ (he ▸ ht₀)) (h.exitWaiter k q₀ t hq₀ ht₀)
  · intro k q t hq ht
    have hcases : (k = pid ∧ t = req.tid ∧ place = .anyChild ∧ pid = req.pid) ∨
        ∃ q₀, s.processes.get k = some q₀ ∧ q₀.anyChildWaiter = some t := by
      rcases hget k q hq with ⟨rfl, rfl⟩ | hq'
      · rcases hslots with ⟨-, -, ha⟩ | ⟨hplace, hpid, -, ha⟩
        · exact .inr ⟨p, hp, ha ▸ ht⟩
        · rw [ha] at ht
          exact .inl ⟨rfl, (Option.some.inj ht).symm, hplace, hpid⟩
      · exact .inr ⟨q, hq', ht⟩
    rcases hcases with ⟨rfl, rfl, hplace, hpid⟩ | ⟨q₀, hq₀, ht₀⟩
    · rcases hserved with ⟨⟨w, hw, htid, hwpid, -⟩, -⟩ | hgone
      · exact .inl ⟨_, hmoved w hw htid, htid, hplace, hwpid.trans hpid.symm⟩
      · exact .inr (hdead _ hgone)
    exact hstay (fun hun he => hun.anyChildWaiter k q₀ hq₀ (he ▸ ht₀))
      (h.anyChildWaiter k q₀ t hq₀ ht₀)

theorem served_setProcess (hserved : Served s req)
    (hp : s.processes.get pid = some p) (hthreads : p'.threads = p.threads)
    (hexit : p'.exitWaiter = p.exitWaiter) (hany : p'.anyChildWaiter = p.anyChildWaiter) :
    Served (s.setProcess pid p') req := by
  have hget : ∀ k q, (s.setProcess pid p').processes.get k = some q →
      ∃ q₀, s.processes.get k = some q₀ ∧ q.threads = q₀.threads ∧ q.exitWaiter = q₀.exitWaiter ∧
        q.anyChildWaiter = q₀.anyChildWaiter := by
    intro k q hq
    rcases s.processes.get_insert_eq_some.mp hq with ⟨rfl, rfl⟩ | ⟨_, hq⟩
    · exact ⟨p, hp, hthreads, hexit, hany⟩
    · exact ⟨q, hq, rfl, rfl, rfl⟩
  rcases hserved with ⟨hparked, hun⟩ | ⟨hlt, hnot⟩
  · refine .inl ⟨hparked, hun.work, fun k q hq => ?_, fun k q hq => ?_⟩
    · obtain ⟨q₀, hq₀, -, he, -⟩ := hget k q hq
      rw [he]
      exact hun.exitWaiter k q₀ hq₀
    obtain ⟨q₀, hq₀, -, -, ha⟩ := hget k q hq
    rw [ha]
    exact hun.anyChildWaiter k q₀ hq₀
  refine .inr ⟨hlt, fun k q hq => ?_⟩
  obtain ⟨q₀, hq₀, ht, -⟩ := hget k q hq
  rw [ht]
  exact hnot k q₀ hq₀

variable (h : Links s)

include h

theorem runWaitAnyChild (hserved : Served s req) :
    Links (s.runWaitAnyChild req.pid req.tid) := by
  unfold System.runWaitAnyChild
  split
  · exact h.publish_served hserved _ _ _
  next parent hparent =>
  split
  · next child st rest _ =>
    have hset : Links (s.setProcess req.pid { parent with deadChildren := rest }) :=
      h.setProcess hparent rfl rfl rfl (.inl rfl)
    exact hset.publish_served (served_setProcess hserved hparent rfl rfl rfl) _ _ _
  split
  · exact h.publish_served hserved _ _ _
  split
  · exact h.publish_served hserved _ _ _
  apply h.park hserved hparent
  · rfl
  · rfl
  · exact .inr ⟨rfl, rfl, rfl, rfl⟩

theorem waitForChild (hserved : Served s req) (targetPid : Pid) :
    Links (s.waitForChild req.pid req.tid targetPid) := by
  unfold System.waitForChild
  split
  · exact h.publish_served hserved _ _ _
  next target htarget =>
  split
  · exact h.publish_served hserved _ _ _
  split
  · exact h.publish_served hserved _ _ _
  apply h.park hserved htarget
  · rfl
  · rfl
  · exact .inl ⟨rfl, rfl, rfl⟩

theorem runWaitPidReq (hserved : Served s req) :
    Links (s.runWaitPidReq req) := by
  unfold System.runWaitPidReq
  split
  · exact h.runWaitAnyChild hserved
  dsimp only
  split
  · exact h.waitForChild hserved _
  next parent hparent =>
  split
  · have hset : Links (s.setProcess req.pid { parent with
        deadChildren := parent.deadChildren.erase (asU16 req.targetPid) }) :=
      h.setProcess hparent rfl rfl rfl (.inl rfl)
    exact hset.publish_served (served_setProcess hserved hparent rfl rfl rfl) _ _ _
  · exact h.waitForChild hserved _

/-- A parked thread is named only where it waits. -/
theorem unnamed (hw : w ∈ s.parked) (hqueued : w.place ≠ .queued)
    (hexit : ∀ k p, s.processes.get k = some p → p.exitWaiter = some w.tid → w.place ≠ .child k)
    (hany : ∀ k p, s.processes.get k = some p → p.anyChildWaiter = some w.tid →
      ¬ (w.place = .anyChild ∧ w.pid = k)) : s.Unnamed w.tid := by
  constructor
  · intro r hr htid
    obtain ⟨v, hv, hvtid, hplace, -⟩ :=
      (h.queued r hr).resolve_right fun hdead => h.not_dead hw (htid ▸ hdead)
    obtain rfl := h.parked_unique hv hw (hvtid.trans htid)
    exact hqueued hplace
  · intro k p hp ht
    obtain ⟨v, hv, hvtid, hplace⟩ := (h.exitWaiter k p _ hp ht).resolve_right (h.not_dead hw)
    obtain rfl := h.parked_unique hv hw hvtid
    exact hexit k p hp ht hplace
  intro k p hp ht
  obtain ⟨v, hv, hvtid, hplace⟩ := (h.anyChildWaiter k p _ hp ht).resolve_right (h.not_dead hw)
  obtain rfl := h.parked_unique hv hw hvtid
  exact hany k p hp ht hplace

/-- A process leaves with its threads. -/
theorem depart
    (hp : s.processes.get pid = some process) (code : Int) : Links (s.depart pid process code) := by
  have hgone : ∀ t ∈ process.threads, (s.depart pid process code).Dead t := by
    intro t ht
    refine ⟨h.threads pid process hp t ht, fun k q hq ht' => ?_⟩
    obtain ⟨hk, hq'⟩ := s.get_depart hq
    exact hk (h.disjoint k q pid process hq' hp t ht' ht)
  have hdead : ∀ t, s.Dead t → (s.depart pid process code).Dead t :=
    fun t ⟨hlt, hnot⟩ => ⟨hlt, fun k q hq => hnot k q (s.get_depart hq).2⟩
  have hkeep : ∀ w ∈ s.parked, w ∈ (s.depart pid process code).parked ∨
      (s.depart pid process code).Dead w.tid := by
    intro w hw
    by_cases ht : w.tid ∈ process.threads
    · exact .inr (hgone w.tid ht)
    · exact .inl (List.mem_filter.mpr ⟨hw, by simpa using ht⟩)
  constructor
  · exact fun k q hq => h.threads k q (s.get_depart hq).2
  · exact fun k q k' q' hq hq' => h.disjoint k q k' q' (s.get_depart hq).2 (s.get_depart hq').2
  · intro w hw
    obtain ⟨hw', hnot⟩ := List.mem_filter.mp hw
    obtain ⟨q, hq, ht, hc⟩ := h.caller w hw'
    have hk : w.pid ≠ pid := by
      rintro he
      rw [he, hp] at hq
      cases hq
      simp [ht] at hnot
    refine ⟨q, ?_, ht, hc⟩
    rw [System.depart, get_erase_ne _ hk]
    exact hq
  · exact h.once.sublist (List.filter_sublist.map _)
  · intro r hr
    rcases h.queued r hr with ⟨w, hw, htid, hrest⟩ | hold
    · rcases hkeep w hw with hw' | hnow
      · exact .inl ⟨w, hw', htid, hrest⟩
      · exact .inr (htid ▸ hnow)
    · exact .inr (hdead _ hold)
  · exact h.queue
  · intro k q t hq ht
    rcases h.exitWaiter k q t (s.get_depart hq).2 ht with ⟨w, hw, htid, hrest⟩ | hold
    · rcases hkeep w hw with hw' | hnow
      · exact .inl ⟨w, hw', htid, hrest⟩
      · exact .inr (htid ▸ hnow)
    · exact .inr (hdead _ hold)
  intro k q t hq ht
  rcases h.anyChildWaiter k q t (s.get_depart hq).2 ht with ⟨w, hw, htid, hrest⟩ | hold
  · rcases hkeep w hw with hw' | hnow
    · exact .inl ⟨w, hw', htid, hrest⟩
    · exact .inr (htid ▸ hnow)
  · exact .inr (hdead _ hold)

/-- The thread that waited for a process that has left is named nowhere else. -/
theorem unnamed_exitWaiter (hp : s.processes.get pid = some process) (code : Int)
    (hw : w ∈ (s.depart pid process code).parked) (hwaiter : process.exitWaiter = some w.tid) :
    w.place = .child pid ∧ (s.depart pid process code).Unnamed w.tid := by
  have hw' : w ∈ s.parked := (List.mem_filter.mp hw).1
  obtain ⟨v, hv, hvtid, hplace⟩ :=
    (h.exitWaiter pid process _ hp hwaiter).resolve_right (h.not_dead hw')
  obtain rfl := h.parked_unique hv hw' hvtid
  refine ⟨hplace, (h.depart hp code).unnamed hw ?_ ?_ ?_⟩
  · rw [hplace]
    simp
  · intro k q hq _ hk
    rw [hplace, Place.child.injEq] at hk
    rw [System.depart, ← hk, get_erase_self] at hq
    cases hq
  intro k q _ _ hk
  rw [hplace] at hk
  cases hk.1

/-- The thread that waited for any child of `pid` is named nowhere else once its slot is
emptied. -/
theorem unnamed_anyChildWaiter (hp : s.processes.get pid = some p) (hw : w ∈ s.parked)
    (hwaiter : p.anyChildWaiter = some w.tid) : w.place = .anyChild ∧ w.pid = pid ∧
      (s.setProcess pid { p with anyChildWaiter := none }).Unnamed w.tid := by
  obtain ⟨v, hv, hvtid, hplace, hpid⟩ :=
    (h.anyChildWaiter pid p _ hp hwaiter).resolve_right (h.not_dead hw)
  obtain rfl := h.parked_unique hv hw hvtid
  have hset : Links (s.setProcess pid { p with anyChildWaiter := none }) :=
    h.setProcess hp rfl rfl rfl (.inr rfl)
  refine ⟨hplace, hpid, hset.unnamed hw ?_ ?_ ?_⟩
  · rw [hplace]
    simp
  · intro k q _ _ hk
    rw [hplace] at hk
    cases hk
  rintro k q hq hq' ⟨-, hk⟩
  rw [System.setProcess, ← hk, hpid, get_insert_self] at hq
  cases hq
  cases hq'

theorem exit
    (hp : s.processes.get pid = some process) (code : Int) : Links (s.exit pid process code) := by
  have hdep := h.depart hp code
  unfold System.exit System.handOver
  split
  · exact hdep
  split
  · next tid hwaiter =>
    by_cases hex : ∃ w ∈ (s.depart pid process code).parked, w.tid = tid
    · obtain ⟨w, hw, rfl⟩ := hex
      exact hdep.publish (h.unnamed_exitWaiter hp code hw hwaiter).2 _ _ _
    rw [publish_eq]
    · exact hdep
    · exact fun w hw htid => hex ⟨w, hw, htid⟩
  split
  · exact hdep
  split
  · exact hdep
  next parent hparent =>
  split
  · next tid hwaiter =>
    have hset : Links ((s.depart pid process code).setProcess process.parentPid
        { parent with anyChildWaiter := none }) :=
      hdep.setProcess hparent rfl rfl rfl (.inr rfl)
    by_cases hex : ∃ w ∈ (s.depart pid process code).parked, w.tid = tid
    · obtain ⟨w, hw, rfl⟩ := hex
      exact hset.publish (hdep.unnamed_anyChildWaiter hparent hw hwaiter).2.2 _ _ _
    rw [publish_eq]
    · exact hset
    · exact fun w hw htid => hex ⟨w, hw, htid⟩
  · exact hdep.setProcess hparent rfl rfl rfl (.inl rfl)

/-- A call of `wait_pid` that is not refused parks its caller with the request. -/
theorem waitPidReq
    (hp : s.processes.get pid = some process) (ht : tid ∈ process.threads)
    (hfree : ∀ w ∈ s.parked, w.tid ≠ tid) (number : Int) :
    Links (s.waitPidReq pid process tid number) := by
  have hlive : ¬ s.Dead tid := fun hdead => hdead.2 pid process hp ht
  unfold System.waitPidReq
  split
  · exact { h with }
  next targetPid hcheck =>
  split
  · constructor
    · exact h.threads
    · exact h.disjoint
    · intro w hw
      rcases List.mem_append.mp hw with hw | hw
      · exact h.caller w hw
      · obtain rfl := List.mem_singleton.mp hw
        exact ⟨process, hp, ht, rfl⟩
    · rw [List.map_append]
      refine h.once.append (List.nodup_singleton tid) fun t hold hnew => ?_
      obtain ⟨w, hw, htid⟩ := List.mem_map.mp hold
      obtain rfl := List.mem_singleton.mp hnew
      exact hfree w hw htid
    · intro r hr
      rcases List.mem_append.mp hr with hr | hr
      · rcases h.queued r hr with ⟨w, hw, hrest⟩ | hdead
        · exact .inl ⟨w, List.mem_append_left _ hw, hrest⟩
        · exact .inr hdead
      obtain rfl := List.mem_singleton.mp hr
      refine .inl ⟨_, List.mem_append_right _ (.head _), rfl, rfl, rfl, ?_⟩
      exact waitCheck_ok hcheck
    · rw [List.map_append]
      refine h.queue.append (List.nodup_singleton tid) fun t hold hnew => ?_
      obtain ⟨r, hr, htid⟩ := List.mem_map.mp hold
      obtain rfl := List.mem_singleton.mp hnew
      rcases h.queued r hr with ⟨w, hw, hwtid, -⟩ | hdead
      · exact hfree w hw (hwtid.trans htid)
      · exact hlive (htid ▸ hdead)
    · intro k p t hq hwaiter
      rcases h.exitWaiter k p t hq hwaiter with ⟨w, hw, hrest⟩ | hdead
      · exact .inl ⟨w, List.mem_append_left _ hw, hrest⟩
      · exact .inr hdead
    intro k p t hq hwaiter
    rcases h.anyChildWaiter k p t hq hwaiter with ⟨w, hw, hrest⟩ | hdead
    · exact .inl ⟨w, List.mem_append_left _ hw, hrest⟩
    · exact .inr hdead
  · exact { h with }

/-- A process at `pid` gets the next thread; what the other processes have, and what they and
it have in their slots, stays. -/
theorem newThread {processes : Table Process} {currentProcessId spawned : Nat}
    (hget : ∀ k, k ≠ pid → processes.get k = s.processes.get k) (hp : processes.get pid = some p)
    (hold : s.processes.get pid = none ∧ p.threads = [s.nextTid] ∧ p.exitWaiter = none ∧
        p.anyChildWaiter = none ∨
      ∃ q, s.processes.get pid = some q ∧ p.threads = q.threads ++ [s.nextTid] ∧ p.id = q.id ∧
        p.exitWaiter = q.exitWaiter ∧ p.anyChildWaiter = q.anyChildWaiter) :
    Links { s with
      processes
      currentProcessId
      spawned
      nextTid := s.nextTid + 1 } := by
  -- every thread but the new one was there before, in the process it is in now
  have hthread : ∀ k q t, processes.get k = some q → t ∈ q.threads →
      (k = pid ∧ t = s.nextTid) ∨ ∃ q₀, s.processes.get k = some q₀ ∧ t ∈ q₀.threads := by
    intro k q t hq ht
    by_cases hk : k = pid
    · subst hk
      rw [hp] at hq
      cases hq
      rcases hold with ⟨-, hthreads, -⟩ | ⟨q₀, hq₀, hthreads, -⟩
      · rw [hthreads] at ht
        exact .inl ⟨rfl, List.mem_singleton.mp ht⟩
      rw [hthreads] at ht
      rcases List.mem_append.mp ht with ht | ht
      · exact .inr ⟨q₀, hq₀, ht⟩
      · exact .inl ⟨rfl, List.mem_singleton.mp ht⟩
    · exact .inr ⟨q, (hget k hk) ▸ hq, ht⟩
  have hdead : ∀ t, s.Dead t → System.Dead { s with
      processes
      currentProcessId
      spawned
      nextTid := s.nextTid + 1 } t := by
    intro t ⟨hlt, hnot⟩
    refine ⟨Nat.lt_succ_of_lt hlt, fun k q hq ht => ?_⟩
    rcases hthread k q t hq ht with ⟨-, rfl⟩ | ⟨q₀, hq₀, ht₀⟩
    · exact Nat.lt_irrefl _ hlt
    · exact hnot k q₀ hq₀ ht₀
  have hslots : ∀ k q, processes.get k = some q → (q.exitWaiter = none ∧ q.anyChildWaiter = none) ∨
      ∃ q₀, s.processes.get k = some q₀ ∧ q.exitWaiter = q₀.exitWaiter ∧
        q.anyChildWaiter = q₀.anyChildWaiter := by
    intro k q hq
    by_cases hk : k = pid
    · subst hk
      rw [hp] at hq
      cases hq
      rcases hold with ⟨-, -, he, ha⟩ | ⟨q₀, hq₀, -, -, he, ha⟩
      · exact .inl ⟨he, ha⟩
      · exact .inr ⟨q₀, hq₀, he, ha⟩
    · exact .inr ⟨q, (hget k hk) ▸ hq, rfl, rfl⟩
  constructor
  · intro k q hq t ht
    rcases hthread k q t hq ht with ⟨-, rfl⟩ | ⟨q₀, hq₀, ht₀⟩
    · exact Nat.lt_succ_self _
    · exact Nat.lt_succ_of_lt (h.threads k q₀ hq₀ t ht₀)
  · intro k q k' q' hq hq' t ht ht'
    rcases hthread k q t hq ht with ⟨rfl, rfl⟩ | ⟨q₀, hq₀, ht₀⟩
    · rcases hthread k' q' _ hq' ht' with ⟨rfl, -⟩ | ⟨q₁, hq₁, ht₁⟩
      · rfl
      · exact absurd (h.threads k' q₁ hq₁ _ ht₁) (Nat.lt_irrefl _)
    rcases hthread k' q' _ hq' ht' with ⟨rfl, rfl⟩ | ⟨q₁, hq₁, ht₁⟩
    · exact absurd (h.threads k q₀ hq₀ _ ht₀) (Nat.lt_irrefl _)
    · exact h.disjoint k q₀ k' q₁ hq₀ hq₁ t ht₀ ht₁
  · intro w hw
    obtain ⟨q₀, hq₀, ht, hc⟩ := h.caller w hw
    by_cases hk : w.pid = pid
    · rcases hold with ⟨hnone, -⟩ | ⟨q, hq, hthreads, hid, -⟩
      · rw [hk, hnone] at hq₀
        cases hq₀
      rw [hk, hq] at hq₀
      cases hq₀
      exact ⟨p, hk ▸ hp, hthreads ▸ List.mem_append_left _ ht, hc.trans hid.symm⟩
    · exact ⟨q₀, (hget w.pid hk).trans hq₀, ht, hc⟩
  · exact h.once
  · intro r hr
    exact (h.queued r hr).imp_right (hdead _)
  · exact h.queue
  · intro k q t hq hwaiter
    rcases hslots k q hq with ⟨he, -⟩ | ⟨q₀, hq₀, he, -⟩
    · rw [he] at hwaiter
      cases hwaiter
    · exact (h.exitWaiter k q₀ t hq₀ (he ▸ hwaiter)).imp_right (hdead _)
  intro k q t hq hwaiter
  rcases hslots k q hq with ⟨-, ha⟩ | ⟨q₀, hq₀, -, ha⟩
  · rw [ha] at hwaiter
    cases hwaiter
  · exact (h.anyChildWaiter k q₀ t hq₀ (ha ▸ hwaiter)).imp_right (hdead _)

theorem install (hfree : s.processes.get pid = none) (parentPid : Pid)
    (detached : Bool) : Links (s.install pid parentPid detached) := by
  apply h.newThread
  · exact fun k hk => get_insert_ne _ _ hk
  · exact get_insert_self _ _ _
  · exact .inl ⟨hfree, rfl, rfl, rfl⟩

theorem createThread (hp : s.processes.get pid = some process) :
    Links { s.setProcess pid { process with threads := process.threads ++ [s.nextTid] } with
      nextTid := s.nextTid + 1 } := by
  apply h.newThread
  · exact fun k hk => get_insert_ne _ _ hk
  · exact get_insert_self _ _ _
  · exact .inr ⟨process, hp, rfl, rfl, rfl, rfl⟩

theorem step {a : Action} (hstep : Wait.step s a = some s') : Links s' := by
  cases stepped hstep with
  | spawn parentPid detached hpid => exact h.install (nextPid_free hpid) parentPid detached
  | spawnFails pid => exact { h with }
  | createThread hp => exact h.createThread hp
  | wait number hp hok => exact h.waitPidReq hp hok.1 hok.2 number
  | serve hwork => exact (h.pop hwork).runWaitPidReq (h.served hwork)
  | exit code hp => exact h.exit hp code

end Links

end Orbit.Wait
