import Mathlib.Algebra.Order.Group.Multiset
import Mathlib.Data.Multiset.Range
import Mathlib.Tactic.Abel
import Orbit.Futex.State

/-!
The map of queues against one line of waiters in the order they arrived: a wake takes the
first of its word, a process that dies takes its own along, and every arrival is in line,
resumed or swept, once.
-/

namespace Orbit.Futex

open Store (Line Queues)
open Transition (Reach)

variable {a : Action} {expected n : UInt32}

variable {pid tid uaddr : Nat} {root : Root} {s s' : State}

/-- The waiters a list of publications resumed. -/
def resumed (l : List Publication) : List FutexWaiter := l.filterMap (·.waiter)

/-- Everyone who arrived: in line, resumed or swept. -/
def everyone (f : Waiters) (l : Line FutexWaiter) : Multiset FutexWaiter :=
  ↑(l.map (·.2)) + ↑(resumed f.published) + ↑f.swept

/-- The queues are those of a line in order of arrival, and every waiter that ever
arrived is in line, was resumed or was swept, exactly once. -/
structure InLine (f : Waiters) (l : Line FutexWaiter) : Prop where
  queues : Queues f.waiters l
  inOrder : l.Pairwise fun a b => a.2.arrival < b.2.arrival
  account : (everyone f l).map (·.arrival) = Multiset.range f.arrivals

theorem resumed_append (l m : List Publication) : resumed (l ++ m) = resumed l ++ resumed m :=
  List.filterMap_append

theorem resumed_woken (l : List FutexWaiter) : resumed (l.map fun w => ⟨w.tid, 0, some w⟩) = l := by
  induction l with
  | nil => rfl
  | cons w l ih => exact congrArg (w :: ·) ih

namespace InLine

variable {f : Waiters} {l : Line FutexWaiter}

theorem new : InLine .new [] := ⟨.empty, .nil, rfl⟩

variable (h : InLine f l)

include h

theorem arrival_lt {e : Nat × FutexWaiter} (he : e ∈ l) :
    e.2.arrival < f.arrivals := by
  have hline : e.2 ∈ l.map (·.2) := List.mem_map_of_mem he
  have hin : e.2.arrival ∈ (everyone f l).map (·.arrival) :=
    Multiset.mem_map_of_mem _ (by simp [everyone, hline])
  rw [h.account] at hin
  exact Multiset.mem_range.mp hin

theorem queue_inOrder (pa : Nat) :
    (f.queue pa).Pairwise fun a b => a.arrival < b.arrival := by
  rw [Waiters.queue, h.queues.queue_eq, Line.queue, List.pairwise_map]
  exact h.inOrder.filter _

theorem publish (tid : Nat) (value : Int) : InLine (f.publish tid value) l where
  queues := h.queues
  inOrder := h.inOrder
  account := by
    have hsame : everyone (f.publish tid value) l = everyone f l := by
      rw [everyone, Waiters.publish, resumed_append]
      simp [everyone, resumed]
    rw [hsame]
    exact h.account

theorem park (pa pid tid : Nat) :
    InLine (f.park pa pid tid) (l ++ [(pa, ⟨tid, pid, 0, f.arrivals⟩)]) where
  queues := h.queues.pushBack pa _
  inOrder := by
    rw [List.pairwise_append]
    refine ⟨h.inOrder, List.pairwise_singleton _ _, ?_⟩
    intro a ha b hb
    rw [List.mem_singleton.mp hb]
    exact h.arrival_lt ha
  account := by
    -- the newcomer has the next number, and stands at the end of the line
    have hjoined : everyone (f.park pa pid tid) (l ++ [(pa, ⟨tid, pid, 0, f.arrivals⟩)]) =
        everyone f l + {⟨tid, pid, 0, f.arrivals⟩} := by
      simp only [everyone, Waiters.park, List.map_append, List.map_cons, List.map_nil,
        ← Multiset.coe_add, Multiset.coe_singleton]
      abel
    rw [hjoined, Multiset.map_add, h.account, Multiset.map_singleton, Waiters.park,
      Multiset.range_succ, ← Multiset.singleton_add, add_comm]

theorem wakeFront (pa n : Nat) :
    InLine (f.wakeFront pa n).2 (Line.drain pa (min n (f.queue pa).length) l).2 where
  queues := h.queues.drainFront pa _
  inOrder := h.inOrder.sublist (Line.drain_sublist pa _ l)
  account := by
    have hline := Multiset.coe_eq_coe.mpr (Line.drain_perm pa (min n (f.queue pa).length) l)
    have hsame : everyone (f.wakeFront pa n).2 (Line.drain pa (min n (f.queue pa).length) l).2 =
        everyone f l := by
      simp only [everyone, Waiters.wakeFront, resumed_append, resumed_woken,
        h.queues.drainFront_fst, ← hline, ← Multiset.coe_add]
      abel
    rw [hsame]
    exact h.account

theorem sweep (pid : Nat) :
    InLine (f.sweep pid (f.ofProcess pid)) (l.filter fun e => decide (e.2.pid ≠ pid)) where
  queues := h.queues.retainQueues fun w => decide (w.pid ≠ pid)
  inOrder := h.inOrder.filter _
  account := by
    have hgone : (f.ofProcess pid).Perm ((l.map (·.2)).filter fun w => w.pid = pid) :=
      h.queues.flatMap_perm.filter _
    have hsame : everyone (f.sweep pid (f.ofProcess pid))
        (l.filter fun e => decide (e.2.pid ≠ pid)) = everyone f l := by
      -- the line falls apart into those who stay and those who go
      have hstay : ((l.filter fun e => decide (e.2.pid ≠ pid)).map (·.2)) =
          (l.map (·.2)).filter fun w => !decide (w.pid = pid) := by
        simp [List.filter_map, Function.comp_def]
      have hparts := Multiset.coe_eq_coe.mpr
        (List.filter_append_perm (fun w : FutexWaiter => w.pid = pid) (l.map (·.2)))
      simp only [everyone, Waiters.sweep, hstay, ← hparts, ← Multiset.coe_add,
        Multiset.coe_eq_coe.mpr hgone]
      abel
    rw [hsame]
    exact h.account

end InLine

/-- The ends of a wait: refused at the door, answered with an error, or queued. -/
theorem wait_cases (h : step s (.wait uaddr expected pid root tid) = some s') :
    s' = s ∨ (∃ value, s' = { s with futex := s.futex.publish tid value }) ∨
    ∃ pa, s.mem.walk pid root uaddr = some pa ∧ s.mem.words pa = expected ∧
      s' = { s with futex := s.futex.park pa pid tid } := by
  simp only [step] at h
  split at h
  · exact .inl (Option.some.inj h).symm
  cases h
  unfold State.runFutexWaitReq
  split
  · exact .inr (.inl ⟨_, rfl⟩)
  next pa hpa =>
  split
  · exact .inr (.inl ⟨_, rfl⟩)
  · next hword => exact .inr (.inr ⟨pa, hpa, not_not.mp hword, rfl⟩)

/-- The ends of a wake: refused at the door, no such word, or its first waiters taken. -/
theorem wake_cases (h : step s (.wake uaddr n pid root tid) = some s') :
    (checkWord uaddr ≠ .ok () ∧ s' = s) ∨ (s.mem.walk pid root uaddr = none ∧
      s' = { s with futex := s.futex.publish tid (Abi.Errno.toRet .efault) }) ∨
    ∃ pa, s.mem.walk pid root uaddr = some pa ∧ s' = { s with
      futex := (s.futex.wakeFront pa n.toNat).2.publish tid (s.futex.wakeFront pa n.toNat).1 } := by
  simp only [step] at h
  split at h
  · next hcheck =>
    refine .inl ⟨?_, (Option.some.inj h).symm⟩
    rw [hcheck]
    exact nofun
  cases h
  unfold State.runFutexWakeReq
  split
  · next hpa => exact .inr (.inl ⟨hpa, rfl⟩)
  · next pa hpa => exact .inr (.inr ⟨pa, hpa, rfl⟩)

/-- A wait adds its own thread at most, at the end of the queue of a word that had the
expected value, and resumes nobody. -/
structure Waited (s : State) (uaddr : Nat) (expected : UInt32) (pid : Nat) (root : Root)
    (tid : Nat) (s' : State) : Prop where
  queuedOnlyIf : ∀ pa, s'.futex.queue pa ≠ s.futex.queue pa →
    s.mem.walk pid root uaddr = some pa ∧ s.mem.words pa = expected ∧
      s'.futex.queue pa = s.futex.queue pa ++ [⟨tid, pid, 0, s.futex.arrivals⟩]
  resumesNobody : resumed s'.futex.published = resumed s.futex.published
  sweepsNobody : s'.futex.swept = s.futex.swept

/-- A wake publishes 0 to the first `n` of its word, in their order, and the count to its
caller; they leave the queue, and no other queue changes. -/
structure Woken (s : State) (uaddr n pid : Nat) (root : Root) (tid : Nat) (s' : State) :
    Prop where
  wakes : ∀ pa, checkWord uaddr = .ok () → s.mem.walk pid root uaddr = some pa →
    s'.futex.published = s.futex.published ++
      ((s.futex.queue pa).take n).map (fun w => ⟨w.tid, 0, some w⟩) ++
      [⟨tid, (min n (s.futex.queue pa).length : Nat), none⟩] ∧
    s'.futex.queue pa = (s.futex.queue pa).drop n
  otherWords : ∀ pa, s.mem.walk pid root uaddr ≠ some pa → s'.futex.queue pa = s.futex.queue pa
  sweepsNobody : s'.futex.swept = s.futex.swept

/-- The end of a process removes its own waiters and no other, and publishes nothing. -/
structure Reaped (s : State) (pid : Nat) (s' : State) : Prop where
  stays : ∀ pa, s'.futex.queue pa = (s.futex.queue pa).filter fun w => w.pid ≠ pid
  gone : ∃ gone, s'.futex.swept = s.futex.swept ++ gone ∧ ∀ w ∈ gone, w.pid = pid
  quiet : s'.futex.published = s.futex.published

/-- What each action does to those who wait. -/
def Served (s : State) (s' : State) : Action → Prop
  | .wait uaddr expected pid root tid => Waited s uaddr expected pid root tid s'
  | .wake uaddr n pid root tid => Woken s uaddr n.toNat pid root tid s'
  | .reapProcess pid => Reaped s pid s'
  | _ => s'.futex = s.futex

theorem resumed_publish (f : Waiters) (tid : Nat) (value : Int) :
    resumed (f.publish tid value).published = resumed f.published := by
  rw [Waiters.publish, resumed_append]
  simp [resumed]

theorem wait_waited
    (h : step s (.wait uaddr expected pid root tid) = some s') :
    Waited s uaddr expected pid root tid s' := by
  rcases wait_cases h with rfl | ⟨value, rfl⟩ | ⟨pa, hpa, hword, rfl⟩
  · exact ⟨fun _ hne => absurd rfl hne, rfl, rfl⟩
  · exact ⟨fun _ hne => absurd rfl hne, resumed_publish _ _ _, rfl⟩
  refine ⟨fun pa' hne => ?_, rfl, rfl⟩
  have hqueue := Store.queue_pushBack s.futex.waiters pa pa' ⟨tid, pid, 0, s.futex.arrivals⟩
  by_cases hsame : pa' = pa
  · subst hsame
    rw [if_pos rfl] at hqueue
    exact ⟨hpa, hword, hqueue⟩
  · rw [if_neg hsame] at hqueue
    exact absurd hqueue hne

theorem wakeFront_published (f : Waiters) (pa n : Nat) : (f.wakeFront pa n).2.published =
      f.published ++ ((f.queue pa).take n).map fun w => ⟨w.tid, 0, some w⟩ := by
  simp only [Waiters.wakeFront, Store.drainFront_fst, Waiters.queue, ← List.take_eq_take_min]

theorem wakeFront_queue (f : Waiters) (pa n pa' : Nat) : (f.wakeFront pa n).2.queue pa' =
      if pa' = pa then (f.queue pa).drop n else f.queue pa' := by
  simp only [Waiters.wakeFront, Waiters.queue, Store.queue_drainFront]
  split
  · rw [← List.drop_eq_drop_min]
  · rfl

theorem wake_woken
    (h : step s (.wake uaddr n pid root tid) = some s') :
    Woken s uaddr n.toNat pid root tid s' := by
  rcases wake_cases h with ⟨hcheck, rfl⟩ | ⟨hnone, rfl⟩ | ⟨pa, hpa, rfl⟩
  · exact ⟨fun _ hok => absurd hok hcheck, fun _ _ => rfl, rfl⟩
  · refine ⟨fun pa _ hsome => ?_, fun _ _ => rfl, rfl⟩
    rw [hnone] at hsome
    cases hsome
  refine ⟨fun pa' _ hsome => ?_, fun pa' hne => ?_, rfl⟩
  · obtain rfl := Option.some.inj (hpa.symm.trans hsome)
    refine ⟨?_, (wakeFront_queue s.futex pa n.toNat pa).trans (if_pos rfl)⟩
    exact congrArg (· ++ [⟨tid, (min n.toNat (s.futex.queue pa).length : Nat), none⟩])
      (wakeFront_published s.futex pa n.toNat)
  · have hother : pa' ≠ pa := fun heq => hne (heq ▸ hpa)
    exact (wakeFront_queue s.futex pa n.toNat pa').trans (if_neg hother)

theorem deallocProcess_reaped (s : State) (pid : Nat) : Reaped s pid (s.deallocProcess pid) where
  stays pa := Store.queue_retainQueues s.futex.waiters _ pa
  gone := ⟨s.futex.ofProcess pid, rfl, fun _ hw => of_decide_eq_true (List.mem_filter.mp hw).2⟩
  quiet := rfl

theorem step_served (h : step s a = some s') : Served s s' a := by
  cases a with
  | wait uaddr expected pid root tid => exact wait_waited h
  | wake uaddr n pid root tid => exact wake_woken h
  | reapProcess pid =>
    cases h
    exact deallocProcess_reaped s pid
  | map r =>
    obtain ⟨m, _, rfl⟩ := Option.map_eq_some_iff.mp h
    rfl
  | spawn pid rootPa =>
    simp only [step] at h
    split at h <;> cases h
    rfl
  | store pa v | close pid id | surfaceDestroy pid id | reapThread pid id | netDrop id =>
    cases h
    rfl

/-- One step keeps the queues those of a line. -/
theorem step_inLine (hline : ∃ l, InLine s.futex l)
    (h : step s a = some s') : ∃ l, InLine s'.futex l := by
  obtain ⟨l, hl⟩ := hline
  cases a with
  | wait uaddr expected pid root tid =>
    rcases wait_cases h with rfl | ⟨value, rfl⟩ | ⟨pa, _, _, rfl⟩
    · exact ⟨l, hl⟩
    · exact ⟨l, hl.publish tid value⟩
    · exact ⟨_, hl.park pa pid tid⟩
  | wake uaddr n pid root tid =>
    rcases wake_cases h with ⟨_, rfl⟩ | ⟨_, rfl⟩ | ⟨pa, _, rfl⟩
    · exact ⟨l, hl⟩
    · exact ⟨l, hl.publish tid _⟩
    · exact ⟨_, (hl.wakeFront pa n.toNat).publish tid _⟩
  | reapProcess pid =>
    cases h
    exact ⟨_, hl.sweep pid⟩
  | map r | spawn pid rootPa | store pa v | close pid id | surfaceDestroy pid id
  | reapThread pid id | netDrop id =>
    have hsame := step_served h
    rw [Served] at hsame
    · exact ⟨l, hsame ▸ hl⟩
    all_goals exact nofun

/-- Over every run of waits, wakes, stores and changes of memory: the queues are those of
one line in order of arrival, whose waiters are in line, resumed or swept exactly once;
and each request does to it what the abstract futex does. -/
theorem futex_serves_in_order {s : State} (run : Reach step (fun _ _ => True) Booted s) :
    (∃ l, InLine s.futex l) ∧
    (∀ pa, (s.futex.queue pa).Pairwise fun a b => a.arrival < b.arrival) ∧
    ∀ a s', step s a = some s' → Served s s' a := by
  have hline : ∃ l, InLine s.futex l := by
    apply run.invariant
    · intro s hs
      exact ⟨[], hs ▸ InLine.new⟩
    · intro s a s' hl _ hfire
      exact step_inLine hl hfire
  refine ⟨hline, fun pa => ?_, fun _ _ hfire => step_served hfire⟩
  obtain ⟨l, hl⟩ := hline
  exact hl.queue_inOrder pa

/-- A kernel with one free frame, nothing mapped. -/
def oneFrame : State where
  mem := ⟨[], .empty, fun _ => 0, .empty, 0, [5]⟩
  futex := .new

theorem futex_serves_in_order_two_waiters : ∃ s, Reach step (fun _ _ => True) Booted s ∧
      (s.futex.queue 0x5000).map (·.tid) = [10, 11] ∧
      ∀ s', step s (.wake 0x300000000 1 1 ⟨8, none⟩ 12) = some s' →
        s'.futex.queue 0x5000 = (s.futex.queue 0x5000).drop 1 := by
  have hstart : Reach step (fun _ _ => True) Booted oneFrame := .start rfl
  obtain ⟨s, run, hqueue, hpa⟩ := hstart.exists_of_exec
    [.spawn 1 8, .map ⟨.heap, 1, 0x300000, 5, 1, false, false⟩,
      .wait 0x300000000 0 1 ⟨8, none⟩ 10, .wait 0x300000000 7 1 ⟨8, none⟩ 13,
      .wait 0x300000000 0 1 ⟨8, none⟩ 11]
    (fun s => (s.futex.queue 0x5000).map (·.tid) = [10, 11] ∧
      s.mem.walk 1 ⟨8, none⟩ 0x300000000 = some 0x5000) (by decide +kernel)
  refine ⟨s, run, hqueue, fun s' hfire => ?_⟩
  have hwoken : Woken s 0x300000000 1 1 ⟨8, none⟩ 12 s' := (futex_serves_in_order run).2.2 _ _ hfire
  exact (hwoken.wakes 0x5000 (by decide) hpa).2

end Orbit.Futex
