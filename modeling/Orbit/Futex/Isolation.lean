import Orbit.Futex.Fifo

/-!
Whose threads a wake resumes. A waiter is known by its physical word alone, so the
process it belongs to has to go on mapping that word for as long as it waits. The end of
the process removes its waiters; closing an event fd or a net channel, destroying a
surface and reaping a thread take mappings away and leave the waiters where they are.
-/

namespace Orbit.Futex

open Paging (pageSize)
open Transition (Reach)

variable {kinds : List RegionKind} {m' : Memory} {id : Nat} {r : Region}

/-- Some address of the process leads to the word. -/
def Memory.MapsWord (m : Memory) (pid pa : Nat) : Prop := ∃ va, m.virtToPhys pid va = some pa

/-- Every waiter belongs to a process that maps the word it waits on. -/
def WaitersMapped (s : State) : Prop :=
  ∀ pa, ∀ w ∈ s.futex.queue pa, s.mem.MapsWord w.pid pa

namespace Memory

variable {m : Memory} {pid va pa : Nat}

/-- What a translation reads: the first leaf of the page. -/
theorem virtToPhys_eq_some : m.virtToPhys pid va = some pa ↔
    ∃ l, m.leaves.find? (fun l => l.pid = pid ∧ l.page = va / pageSize) = some l ∧
      l.frame * pageSize + va % pageSize = pa :=
  Option.map_eq_some_iff

theorem leaf_of_virtToPhys (h : m.virtToPhys pid va = some pa) :
    ∃ l ∈ m.leaves, l.pid = pid ∧ l.page = va / pageSize ∧ l.frame = pa / pageSize := by
  obtain ⟨l, hfind, hpa⟩ := virtToPhys_eq_some.mp h
  have hkey : l.pid = pid ∧ l.page = va / pageSize := by simpa using List.find?_some hfind
  have hframe : l.frame = pa / pageSize := by
    have hpos : 0 < pageSize := by decide
    rw [← hpa, Nat.mul_comm, Nat.mul_add_div hpos, Nat.div_eq_of_lt (Nat.mod_lt va hpos),
      Nat.add_zero]
  exact ⟨l, List.mem_of_find?_eq_some hfind, hkey.1, hkey.2, hframe⟩

theorem mapPages_extends (pid n page frame : Nat) (leaves : List Leaf) :
    ∃ extra, (mapPages pid n page frame leaves).2 = leaves ++ extra := by
  induction n generalizing page frame leaves with
  | zero => exact ⟨[], (List.append_nil _).symm⟩
  | succ n ih =>
    rw [mapPages]
    split
    · exact ⟨[], (List.append_nil _).symm⟩
    · obtain ⟨extra, hextra⟩ := ih (page + 1) (frame + 1) (leaves ++ [⟨pid, page, frame⟩])
      exact ⟨⟨pid, page, frame⟩ :: extra, by rw [hextra, List.append_assoc]; rfl⟩

/-- New leaves stand behind the old ones, so no translation changes. -/
theorem mapRegion_leaves (h : m.mapRegion r = some m') :
    ∃ extra, m'.leaves = m.leaves ++ extra := by
  obtain ⟨extra, hextra⟩ := mapPages_extends r.pid r.pages r.page r.frame m.leaves
  unfold mapRegion at h
  split at h
  · dsimp only at h
    split at h
    · next leaves hmap =>
      cases h
      exact ⟨extra, by simpa [hmap] using hextra⟩
    next leaves hmap =>
    cases h
    exact ⟨extra, by simpa [hmap] using hextra⟩
  · cases h

theorem MapsWord.mapRegion (h : m.mapRegion r = some m')
    (hmaps : m.MapsWord pid pa) : m'.MapsWord pid pa := by
  obtain ⟨va, hva⟩ := hmaps
  obtain ⟨extra, hextra⟩ := mapRegion_leaves h
  obtain ⟨l, hfind, hpa⟩ := virtToPhys_eq_some.mp hva
  refine ⟨va, virtToPhys_eq_some.mpr ⟨l, ?_, hpa⟩⟩
  rw [hextra, List.find?_append, hfind]
  rfl

/-- Taking leaves away by their page leaves the translation of the other pages. -/
theorem find?_filter_key (leaves : List Leaf) (keep : Nat → Nat → Bool) {pid page : Nat}
    (h : keep pid page = true) :
    (leaves.filter fun l => keep l.pid l.page).find? (fun l => l.pid = pid ∧ l.page = page) =
      leaves.find? fun l => l.pid = pid ∧ l.page = page := by
  induction leaves with
  | nil => rfl
  | cons l leaves ih =>
    rw [List.filter_cons]
    by_cases hkey : l.pid = pid ∧ l.page = page
    · obtain ⟨rfl, rfl⟩ := hkey
      rw [if_pos h]
      simp
    rw [List.find?_cons_of_neg (by simpa using hkey)]
    split
    · rw [List.find?_cons_of_neg (by simpa using hkey), ih]
    · exact ih

theorem dropRegion_leaves (m : Memory) (id : Nat) (r : Region) :
    (m.dropRegion id r).leaves = m.leaves := by
  unfold dropRegion
  split
  · rfl
  · rfl

theorem netDrop_leaves (m : Memory) (id : Nat) : (m.netDrop id).leaves = m.leaves := by
  unfold netDrop
  split
  · rfl
  split
  · exact dropRegion_leaves m id _
  · rfl

theorem virtToPhys_congr (h : m'.leaves = m.leaves) :
    m'.virtToPhys pid va = m.virtToPhys pid va := by
  unfold virtToPhys
  rw [h]

/-- A region taken away leaves every address alone that it does not cover. -/
theorem virtToPhys_unmapRegion (h : ¬ (pid = r.pid ∧ r.Covers (va / pageSize))) :
    (m.unmapRegion id r).virtToPhys pid va = m.virtToPhys pid va := by
  rw [unmapRegion, virtToPhys_congr (dropRegion_leaves _ id r)]
  unfold virtToPhys
  rw [find?_filter_key m.leaves (fun p page => ¬ (p = r.pid ∧ r.Covers page)) (decide_eq_true h)]

theorem held_pid (h : m.held kinds pid id = some r) : r.pid = pid := by
  have hprop := (Option.filter_eq_some_iff.mp h).2
  exact (of_decide_eq_true hprop).1

theorem MapsWord.release_other {id other : Nat} (hne : pid ≠ other)
    (h : m.MapsWord pid pa) : (m.release kinds other id).MapsWord pid pa := by
  obtain ⟨va, hva⟩ := h
  unfold release
  split
  · exact ⟨va, hva⟩
  next r hr =>
  refine ⟨va, ?_⟩
  rw [virtToPhys_unmapRegion, hva]
  rintro ⟨heq, -⟩
  exact hne (heq.trans (held_pid hr))

theorem MapsWord.deallocProcess {other : Nat} (hne : pid ≠ other) (h : m.MapsWord pid pa) :
    (m.deallocProcess other).MapsWord pid pa := by
  unfold Memory.deallocProcess
  dsimp only
  have hfold : ∀ (ids : List Nat) (m : Memory), m.MapsWord pid pa →
      (ids.foldl (fun m id => m.release [.heap, .surface, .netChannel, .eventFd, .thread] other id)
        m).MapsWord pid pa := by
    intro ids
    induction ids with
    | nil => exact fun _ hm => hm
    | cons id ids ih => exact fun m hm => ih _ (hm.release_other hne)
  obtain ⟨va, hva⟩ := hfold (m.regions.entries.map (·.1)) m h
  refine ⟨va, ?_⟩
  unfold virtToPhys at hva ⊢
  rw [← hva]
  exact congrArg _ (find?_filter_key _ (fun p _ => p ≠ other) (by simpa using hne))

end Memory

/-- No thread of the process waits on a word of the region that is about to go. -/
def Unwaited (s : State) (kinds : List RegionKind) (pid id : Nat) : Prop :=
  ∀ r ∈ s.mem.held kinds pid id, ∀ l ∈ s.mem.leaves, l.pid = pid → r.Covers l.page →
    ∀ e ∈ s.futex.waiters.entries, ∀ w ∈ e.2, w.pid = pid → l.frame ≠ e.1 / pageSize

instance (s : State) (kinds : List RegionKind) (pid id : Nat) :
    Decidable (Unwaited s kinds pid id) :=
  inferInstanceAs (Decidable (∀ r ∈ s.mem.held kinds pid id, ∀ l ∈ s.mem.leaves, l.pid = pid →
    r.Covers l.page → ∀ e ∈ s.futex.waiters.entries, ∀ w ∈ e.2, w.pid = pid →
      l.frame ≠ e.1 / pageSize))

/-- Memory that threads of its process wait on is not closed, destroyed or reaped, and no wait
of a process that has been reaped is served. -/
def NoWaiterCutOff (s : State) : Action → Prop
  | .close pid id => Unwaited s [.netChannel, .eventFd] pid id
  | .surfaceDestroy pid id => Unwaited s [.surface] pid id
  | .reapThread pid id => Unwaited s [.thread] pid id
  | .wait _ _ pid root _ => s.mem.roots.get pid = some root.pa
  | _ => True

instance (s : State) (a : Action) : Decidable (NoWaiterCutOff s a) :=
  match a with
  | .close _ _ | .surfaceDestroy _ _ | .reapThread _ _ => inferInstanceAs (Decidable (Unwaited ..))
  | .wait _ _ pid root _ => inferInstanceAs (Decidable (s.mem.roots.get pid = some root.pa))
  | .store .. | .map .. | .netDrop .. | .spawn .. | .reapProcess .. | .wake .. =>
    inferInstanceAs (Decidable True)

namespace WaitersMapped

variable {s : State}

variable (h : WaitersMapped s)

include h

/-- A handler that only changes memory and takes no word from those who wait. -/
theorem withMem {m : Memory}
    (hm : ∀ pid pa, s.mem.MapsWord pid pa → m.MapsWord pid pa) :
    WaitersMapped { s with mem := m } :=
  fun pa w hw => hm _ _ (h pa w hw)

theorem release {pid id : Nat} (hq : Unwaited s kinds pid id) :
    WaitersMapped { s with mem := s.mem.release kinds pid id } := by
  intro pa w hw
  by_cases hpid : w.pid = pid
  · obtain ⟨va, hva⟩ := h pa w hw
    refine ⟨va, ?_⟩
    change (s.mem.release kinds pid id).virtToPhys w.pid va = some pa
    unfold Memory.release
    split
    · exact hva
    next r hr =>
    rw [Memory.virtToPhys_unmapRegion, hva]
    rintro ⟨-, hcovers⟩
    -- the leaf the waiter's address has would be one of the region's
    obtain ⟨l, hl, hlpid, hpage, hframe⟩ := Memory.leaf_of_virtToPhys hva
    rw [← hpage] at hcovers
    obtain ⟨q, hq', hwq⟩ : ∃ q, (pa, q) ∈ s.futex.waiters.entries ∧ w ∈ q := by
      simp only [Waiters.queue, Store.queue] at hw
      cases hget : s.futex.waiters.get pa with
      | none => simp [hget] at hw
      | some q => exact ⟨q, s.futex.waiters.get_eq_some.mp hget, by simpa [hget] using hw⟩
    exact hq r hr l hl (hlpid.trans hpid) hcovers (pa, q) hq' w hwq hpid hframe
  · exact (h pa w hw).release_other hpid

theorem park {uaddr pa pid tid : Nat}
    (hpa : s.mem.virtToPhys pid uaddr = some pa) :
    WaitersMapped { s with futex := s.futex.park pa pid tid } := by
  intro pa' w hw
  simp only [Waiters.queue, Waiters.park, Store.queue_pushBack] at hw
  split at hw
  · next heq =>
    subst heq
    rcases List.mem_append.mp hw with hold | hnew
    · exact h _ w hold
    · rw [List.mem_singleton.mp hnew]
      exact ⟨uaddr, hpa⟩
  · exact h pa' w hw

/-- A wake only shortens a queue. -/
theorem wakeFront (pa n : Nat) :
    WaitersMapped { s with futex := (s.futex.wakeFront pa n).2 } := by
  intro pa' w hw
  rw [wakeFront_queue] at hw
  split at hw
  · next heq =>
    subst heq
    exact h _ w (List.mem_of_mem_drop hw)
  · exact h pa' w hw

end WaitersMapped

theorem step_waitersMapped {s s' : State} {a : Action} (h : WaitersMapped s)
    (hq : NoWaiterCutOff s a) (hfire : step s a = some s') : WaitersMapped s' := by
  cases a with
  | store pa v =>
    cases hfire
    exact h.withMem fun _ _ hm => hm
  | map r =>
    obtain ⟨m, hm, rfl⟩ := Option.map_eq_some_iff.mp hfire
    exact h.withMem fun _ _ hmaps => hmaps.mapRegion hm
  | close pid id | surfaceDestroy pid id | reapThread pid id =>
    cases hfire
    exact h.release hq
  | netDrop id =>
    cases hfire
    refine h.withMem fun pid pa hmaps => ?_
    obtain ⟨va, hva⟩ := hmaps
    exact ⟨va, (Memory.virtToPhys_congr (Memory.netDrop_leaves s.mem id)).trans hva⟩
  | spawn pid rootPa =>
    simp only [step] at hfire
    split at hfire <;> cases hfire
    exact h.withMem fun _ _ hm => hm
  | reapProcess pid =>
    cases hfire
    intro pa w hw
    rw [(deallocProcess_reaped s pid).stays pa, List.mem_filter] at hw
    exact (h pa w hw.1).deallocProcess (of_decide_eq_true hw.2)
  | wait uaddr expected pid root tid =>
    rcases wait_cases hfire with rfl | ⟨value, rfl⟩ | ⟨pa, hpa, _, rfl⟩
    · exact h
    · exact h
    · have hroot : s.mem.roots.get pid = some root.pa := hq
      rw [Memory.walk, if_pos hroot] at hpa
      exact h.park hpa
  | wake uaddr n pid root tid =>
    rcases wake_cases hfire with ⟨_, rfl⟩ | ⟨_, rfl⟩ | ⟨pa, _, rfl⟩
    · exact h
    · exact h
    · exact h.wakeFront pa n.toNat

/-- As long as no memory goes that threads of its process wait on and no wait of a reaped
process is served, whomever a wake resumes belongs to a process that maps the word woken. -/
theorem wake_stays_in_mapping {s s' : State} (run : Reach step NoWaiterCutOff Booted s)
    {uaddr : Nat} {n : UInt32} {pid : Nat} {root : Root} {tid : Nat}
    (fired : step s (.wake uaddr n pid root tid) = some s') :
    ∃ new, s'.futex.published = s.futex.published ++ new ∧
      ∀ w ∈ resumed new, ∃ pa, s.mem.walk pid root uaddr = some pa ∧ s.mem.MapsWord w.pid pa := by
  have hmapped : WaitersMapped s := by
    apply run.invariant
    · intro s hs pa w hw
      rw [hs] at hw
      cases hw
    · intro s a s' hs hq hfire
      exact step_waitersMapped hs hq hfire
  rcases wake_cases fired with ⟨_, rfl⟩ | ⟨_, rfl⟩ | ⟨pa, hpa, rfl⟩
  · exact ⟨[], (List.append_nil _).symm, nofun⟩
  · exact ⟨_, rfl, nofun⟩
  have hpublished := wakeFront_published s.futex pa n.toNat
  refine ⟨((s.futex.queue pa).take n.toNat).map (fun w => ⟨w.tid, 0, some w⟩) ++
    [⟨tid, (s.futex.wakeFront pa n.toNat).1, none⟩], ?_, fun w hw => ⟨pa, hpa, ?_⟩⟩
  · rw [← List.append_assoc, ← hpublished]
    rfl
  rw [resumed_append, resumed_woken] at hw
  rcases List.mem_append.mp hw with hw | hw
  · exact hmapped pa w (List.mem_of_mem_take hw)
  · cases hw

/-- The page of an event fd is mapped, a thread waits on it, and another one wakes it. -/
theorem wake_stays_in_mapping_eventfd : ∃ s s', Reach step NoWaiterCutOff Booted s ∧
      step s (.wake 0x400000000000 1 1 ⟨8, none⟩ 11) = some s' ∧
      resumed s'.futex.published = [⟨10, 1, 0, 0⟩] ∧
      ∃ new, s'.futex.published = s.futex.published ++ new ∧
        ∀ w ∈ resumed new, ∃ pa, s.mem.walk 1 ⟨8, none⟩ 0x400000000000 = some pa ∧
          s.mem.MapsWord w.pid pa := by
  have hstart : Reach step NoWaiterCutOff Booted oneFrame := .start rfl
  obtain ⟨s, run, hwoken⟩ := hstart.exists_of_exec
    [.spawn 1 8, .map ⟨.eventFd, 1, 0x400000000, 5, 1, false, false⟩,
      .wait 0x400000000000 0 1 ⟨8, none⟩ 10]
    (fun s => (step s (.wake 0x400000000000 1 1 ⟨8, none⟩ 11)).any
      (fun s' => resumed s'.futex.published = [⟨10, 1, 0, 0⟩]) = true) (by decide +kernel)
  cases fired : step s (.wake 0x400000000000 1 1 ⟨8, none⟩ 11) with
  | none => simp [fired] at hwoken
  | some s' =>
    rw [fired] at hwoken
    exact ⟨s, s', run, fired, of_decide_eq_true hwoken, wake_stays_in_mapping run fired⟩

/-- The thread waits on a word of an event fd, another thread of its process closes the
fd, and the frame is mapped into a second process. Its wake resumes the first process's
thread, though the first process maps nothing any more. -/
theorem closed_eventfd_waiter_resumed : ∃ s s' w pa, Reach step (fun _ _ => True) Booted s ∧
      step s (.wake 0x300000000 1 2 ⟨9, none⟩ 20) = some s' ∧
      s.mem.walk 2 ⟨9, none⟩ 0x300000000 = some pa ∧
      w ∉ resumed s.futex.published ∧ w ∈ resumed s'.futex.published ∧ w.pid = 1 ∧
      ¬ s.mem.MapsWord w.pid pa := by
  have hstart : Reach step (fun _ _ => True) Booted oneFrame := .start rfl
  obtain ⟨s, run, hwoken, hpa, hnew, hleaves⟩ := hstart.exists_of_exec
    [.spawn 1 8, .spawn 2 9, .map ⟨.eventFd, 1, 0x400000000, 5, 1, false, false⟩,
      .wait 0x400000000000 0 1 ⟨8, none⟩ 10, .close 1 0,
      .map ⟨.heap, 2, 0x300000, 5, 1, false, false⟩]
    (fun s => (step s (.wake 0x300000000 1 2 ⟨9, none⟩ 20)).any
        (fun s' => (⟨10, 1, 0, 0⟩ : FutexWaiter) ∈ resumed s'.futex.published) = true ∧
      s.mem.walk 2 ⟨9, none⟩ 0x300000000 = some 0x5000 ∧ resumed s.futex.published = [] ∧
      ∀ l ∈ s.mem.leaves, l.pid ≠ 1) (by decide +kernel)
  cases fired : step s (.wake 0x300000000 1 2 ⟨9, none⟩ 20) with
  | none => simp [fired] at hwoken
  | some s' =>
    rw [fired] at hwoken
    refine ⟨s, s', ⟨10, 1, 0, 0⟩, 0x5000, run, fired, hpa, ?_, of_decide_eq_true hwoken, rfl, ?_⟩
    · rw [hnew]
      exact List.not_mem_nil
    rintro ⟨va, hva⟩
    obtain ⟨l, hl, hpid, -⟩ := Memory.leaf_of_virtToPhys hva
    exact hleaves l hl hpid

end Orbit.Futex
