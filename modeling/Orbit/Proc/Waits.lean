import Orbit.Proc.State

/-!
The process table and the model of waiting for children have the wait requests and the hand-over
of an exit code in common. From tables that agree on the waiters and the dead children, each of
them leaves such tables again, and a parked thread is given the same values.
-/

namespace Orbit.Proc

open Store

/-- Both know the same of who waits for a process and whom it has left to wait for. -/
structure Same (p : Process) (q : Wait.Process) : Prop where
  parentPid : p.parentPid = q.parentPid
  detached : p.detached = q.detached
  exitWaiter : p.exitWaiter = q.exitWaiter
  anyChildWaiter : p.anyChildWaiter = q.anyChildWaiter
  deadChildren : p.deadChildren = q.deadChildren
  id : p.id = q.id

def SameTables (s : System) (t : Wait.System) : Prop :=
  ∀ pid, Option.Rel Same (s.processes.get pid) (t.processes.get pid)

def values (a : Wait.Answer) : List Int := [a.r0, a.r1]

/-- From `s` and `t` to `s'` and `t'`: the tables agree, and what is published for a parked thread
is its answer. -/
structure Follows (s : System) (t : Wait.System) (s' : System) (t' : Wait.System) : Prop where
  tables : SameTables s' t'
  answers : ∃ calls, s'.published = s.published ++ calls ∧
    t'.answered.map values = t.answered.map values ++
      (calls.filter fun c => t.parked.any fun w => w.tid = c.1).map Prod.snd

variable {s s' : System} {t t' : Wait.System} {pid : Pid} {tid : Tid} {p : Process}
  {q : Wait.Process}

theorem Follows.deliver {id : Nat} {code : Int} (h : Follows s t s' t') :
    Follows s t (s'.deliver id code) t' :=
  ⟨h.tables, h.answers⟩

theorem Follows.moveTo {place : Wait.Place} (h : Follows s t s' t') :
    Follows s t s' (t'.moveTo tid place) :=
  ⟨h.tables, h.answers⟩

/-- A process written before changes no answer. -/
theorem Follows.of_setProcess (h : Follows (s.setProcess pid p) (t.setProcess pid q) s' t') :
    Follows s t s' t' :=
  ⟨h.tables, h.answers⟩

namespace SameTables

theorem cases (h : SameTables s t) (pid : Pid) :
    (s.processes.get pid = none ∧ t.processes.get pid = none) ∨
      ∃ p q, s.processes.get pid = some p ∧ t.processes.get pid = some q ∧ Same p q := by
  have hpid := h pid
  cases hs : s.processes.get pid with
  | none =>
    rw [hs] at hpid
    cases ht : t.processes.get pid with
    | none => exact .inl ⟨rfl, rfl⟩
    | some q =>
      rw [ht] at hpid
      cases hpid
  | some p =>
    rw [hs] at hpid
    cases ht : t.processes.get pid with
    | none =>
      rw [ht] at hpid
      cases hpid
    | some q =>
      rw [ht] at hpid
      cases hpid with
      | some hpq => exact .inr ⟨p, q, rfl, rfl, hpq⟩

theorem setProcess (h : SameTables s t) (hpq : Same p q) :
    SameTables (s.setProcess pid p) (t.setProcess pid q) := by
  intro j
  rw [System.setProcess, Wait.System.setProcess, Table.get_insert, Table.get_insert]
  split
  · exact .some hpq
  · exact h j

theorem follows (h : SameTables s t) : Follows s t s t := ⟨h, [], by simp, by simp⟩

/-- The thread is answered where it is parked. -/
theorem publish (h : SameTables s t) {r0 r1 : Int} {child : Option Nat} :
    Follows s t (s.publish tid [r0, r1]) (t.publish tid r0 r1 child) := by
  rw [Wait.System.publish]
  cases hfind : t.parked.find? (fun w => w.tid = tid) with
  | none =>
    have hnot : (t.parked.any fun w => w.tid = tid) = false := by
      rw [List.any_eq_false]
      exact List.find?_eq_none.mp hfind
    exact ⟨h, [(tid, [r0, r1])], rfl, by simp [hnot]⟩
  | some w =>
    have htid : decide (w.tid = tid) = true := by
      simpa using List.find?_some hfind
    have hw : (t.parked.any fun w => w.tid = tid) = true :=
      List.any_eq_true.mpr ⟨w, List.mem_of_find?_eq_some hfind, htid⟩
    exact ⟨h, [(tid, [r0, r1])], rfl, by simp [hw, values]⟩

theorem fail (h : SameTables s t) (e : Abi.Errno) :
    Follows s t (s.publish tid [e.toRet, 0]) (t.fail tid e) :=
  h.publish

/-- The kernel's search for a child left alive comes to the same. -/
theorem hasLiveChild (h : SameTables s t) (pid : Pid) :
    (s.processes.entries.all fun e => e.2.parentPid ≠ pid || e.2.detached) = true ↔
      t.hasLiveChild pid = false := by
  rw [List.all_eq_true, Wait.System.hasLiveChild, List.any_eq_false]
  constructor
  · rintro hall ⟨k, q⟩ hq
    rcases h.cases k with ⟨-, hnone⟩ | ⟨p, q', hp, hq', hpq⟩
    · rw [(Table.get_eq_some _).mpr hq] at hnone
      cases hnone
    · rw [(Table.get_eq_some _).mpr hq] at hq'
      cases hq'
      have hchild := hall (k, p) ((Table.get_eq_some _).mp hp)
      simp only [hpq.parentPid, hpq.detached] at hchild
      by_cases hparent : q.parentPid = pid <;> simp_all
  · rintro hany ⟨k, p⟩ hp
    rcases h.cases k with ⟨hnone, -⟩ | ⟨p', q, hp', hq, hpq⟩
    · rw [(Table.get_eq_some _).mpr hp] at hnone
      cases hnone
    · rw [(Table.get_eq_some _).mpr hp] at hp'
      cases hp'
      have hchild := hany (k, q) ((Table.get_eq_some _).mp hq)
      simp only [hpq.parentPid, hpq.detached]
      by_cases hparent : q.parentPid = pid <;> simp_all

theorem runWaitAnyChild (h : SameTables s t) (pid : Pid) (tid : Tid) :
    Follows s t (s.runWaitAnyChild pid tid) (t.runWaitAnyChild pid tid) := by
  rw [System.runWaitAnyChild, Wait.System.runWaitAnyChild]
  rcases h.cases pid with ⟨hs, ht⟩ | ⟨p, q, hs, ht, hpq⟩
  · rw [hs, ht]
    exact h.fail .echild
  rw [hs, ht]
  dsimp only
  rw [hpq.deadChildren, hpq.anyChildWaiter]
  cases Wait.popFirst q.deadChildren with
  | some popped =>
    obtain ⟨child, st, rest⟩ := popped
    refine (h.setProcess ?_).publish.of_setProcess.deliver
    exact { hpq with anyChildWaiter := rfl, deadChildren := rfl }
  | none =>
    dsimp only
    split
    · exact h.fail .ebusy
    split
    next hnone =>
      rw [if_pos ((h.hasLiveChild pid).mp hnone)]
      exact h.fail .echild
    next hsome =>
      rw [if_neg (mt (h.hasLiveChild pid).mpr hsome)]
      refine (h.setProcess ?_).follows.of_setProcess.moveTo
      exact { hpq with anyChildWaiter := rfl, deadChildren := rfl }

theorem waitForChild (h : SameTables s t) (pid : Pid) (tid : Tid) (target : Pid) :
    Follows s t (s.waitForChild pid tid target) (t.waitForChild pid tid target) := by
  rw [System.waitForChild, Wait.System.waitForChild]
  rcases h.cases target with ⟨hs, ht⟩ | ⟨p, q, hs, ht, hpq⟩
  · rw [hs, ht]
    exact h.fail .echild
  rw [hs, ht]
  dsimp only
  rw [hpq.parentPid, hpq.exitWaiter]
  split
  · exact h.fail .eperm
  split
  · exact h.fail .ebusy
  refine (h.setProcess ?_).follows.of_setProcess.moveTo
  exact { hpq with parentPid := rfl, exitWaiter := rfl }

/-- The manager serves a wait request alike in both. -/
theorem runWaitPidReq (h : SameTables s t) (pid : Pid) (tid : Tid) (target : Int) :
    Follows s t (s.runWaitPidReq pid tid target) (t.runWaitPidReq ⟨target, pid, tid⟩) := by
  rw [System.runWaitPidReq, Wait.System.runWaitPidReq]
  split
  · exact h.runWaitAnyChild pid tid
  rcases h.cases pid with ⟨hs, ht⟩ | ⟨p, q, hs, ht, hpq⟩
  · rw [hs, ht]
    exact h.waitForChild pid tid _
  rw [hs, ht]
  dsimp only
  rw [hpq.deadChildren]
  cases q.deadChildren.get (Wait.asU16 target) with
  | none => exact h.waitForChild pid tid _
  | some st =>
    refine (h.setProcess ?_).publish.of_setProcess.deliver
    exact { hpq with deadChildren := rfl }

/-- An exit code goes the same way in both. -/
theorem deallocProcess (h : SameTables s t) (hpq : Same p q) (pid : Pid) :
    Follows s t (s.deallocProcess pid p) (t.handOver pid q p.exitCode) := by
  rw [System.deallocProcess, Wait.System.handOver, hpq.detached, hpq.exitWaiter, hpq.parentPid,
    hpq.id]
  split
  · exact h.follows
  cases q.exitWaiter with
  | some waiter => exact h.publish.deliver
  | none =>
    dsimp only
    split
    · exact h.follows
    rcases h.cases q.parentPid with ⟨hs, ht⟩ | ⟨parent, parent', hs, ht, hparent⟩
    · rw [hs, ht]
      exact h.follows
    rw [hs, ht]
    dsimp only
    rw [hparent.anyChildWaiter, hparent.deadChildren]
    cases parent'.anyChildWaiter with
    | some waiter =>
      refine (h.setProcess ?_).publish.of_setProcess.deliver
      exact { hparent with anyChildWaiter := rfl, deadChildren := rfl }
    | none =>
      refine (h.setProcess ?_).follows.of_setProcess.deliver
      exact { hparent with anyChildWaiter := rfl, deadChildren := rfl }

end SameTables

end Orbit.Proc
