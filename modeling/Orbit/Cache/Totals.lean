import Mathlib.Algebra.Order.BigOperators.Group.List
import Orbit.Cache.Conserved

/-!
Sums over the slots of a page cache: the bytes its readers wait for, and the loads under
way. Each operation is specified once, by what it does to the slots and to these sums. A
load finds a frame as long as not every frame of the cache is loading.
-/

namespace Orbit.Cache

open Paging

variable {waiters : List Waiter} {frame validBytes : Nat}

/-- A sum over the slots. -/
def Slots.total (f : SlotState → Nat) (entries : Slots) : Nat :=
  (entries.entries.map fun e => f e.2).sum

variable {entries : Slots} {key : CacheKey} {slot : SlotState}

theorem total_erase (f : SlotState → Nat) (h : entries.lookup key = some slot) :
    Slots.total f entries = f slot + Slots.total f (entries.erase key) := by
  obtain ⟨before, after, hsplit, hrest⟩ := entries_split h
  rw [Slots.total, Slots.total, hrest, hsplit]
  simp only [List.map_append, List.map_cons, List.sum_append, List.sum_cons]
  omega

theorem total_erase_none (f : SlotState → Nat) (h : entries.lookup key = none) :
    Slots.total f (entries.erase key) = Slots.total f entries := by
  rw [Slots.total, entries_erase_none h]
  rfl

theorem total_insert (f : SlotState → Nat) (entries : Slots) (key : CacheKey) (slot : SlotState) :
    Slots.total f (entries.insert key slot) = f slot + Slots.total f (entries.erase key) := by
  rw [Slots.total, AList.entries_insert, List.map_cons, List.sum_cons]
  rfl

theorem exists_of_total {f : SlotState → Nat} (h : Slots.total f entries ≠ 0) :
    ∃ key slot, entries.lookup key = some slot ∧ f slot ≠ 0 := by
  obtain ⟨n, hn, hne⟩ := List.exists_mem_ne_zero_of_sum_ne_zero h
  obtain ⟨⟨key, slot⟩, hmem, rfl⟩ := List.mem_map.mp hn
  exact ⟨key, slot, Option.mem_def.mp (AList.mem_lookup_iff.mpr hmem), hne⟩

/-- The bytes a thread waits for at one waiter. -/
def Waiter.owed (tid : Nat) : Waiter → Nat
  | .user t _ _ _ _ len => if t = tid then len else 0
  | .kernel .. => 0

def SlotState.owed (tid : Nat) (slot : SlotState) : Nat := (slot.pending.map (Waiter.owed tid)).sum

def SlotState.load (slot : SlotState) : Nat := if slot.isLoading then 1 else 0

namespace PageCache

variable {c c' : PageCache} {frames : List Nat}

/-- The bytes a thread waits for. -/
def outstanding (c : PageCache) (tid : Nat) : Nat := Slots.total (SlotState.owed tid) c.entries

/-- The loads under way. -/
def loads (c : PageCache) : Nat := Slots.total SlotState.load c.entries

/-- A load under way stays, and only gets more readers. -/
def Grows (c c' : PageCache) : Prop :=
  ∀ key frame validBytes waiters, c.lookup key = some (.loading frame validBytes waiters) →
    ∃ more, c'.lookup key = some (.loading frame validBytes (waiters ++ more))

theorem Grows.of_lookup (h : ∀ key, c'.lookup key = c.lookup key) : Grows c c' := by
  intro key frame validBytes waiters hload
  exact ⟨[], by rw [h key, hload, List.append_nil]⟩

theorem Grows.trans {c'' : PageCache} (h : Grows c c') (h' : Grows c' c'') : Grows c c'' := by
  intro key frame validBytes waiters hload
  obtain ⟨more, hmore⟩ := h key frame validBytes waiters hload
  obtain ⟨more', hmore'⟩ := h' key frame validBytes _ hmore
  exact ⟨more ++ more', by rw [hmore', List.append_assoc]⟩

theorem le_total (f : SlotState → Nat) (h : c.lookup key = some slot) :
    f slot ≤ Slots.total f c.entries := by
  rw [total_erase f h]
  exact Nat.le_add_right _ _

/-- A thread that waits for nothing is not among the readers. -/
theorem owed_eq_zero {tid : Nat} (hnone : c.outstanding tid = 0) (h : c.lookup key = some slot)
    {w : Waiter} (hw : w ∈ slot.pending) : w.owed tid = 0 := by
  have hle := le_total (SlotState.owed tid) h
  have hzero : slot.owed tid = 0 := by
    unfold outstanding at hnone
    omega
  exact List.sum_eq_zero_iff.mp hzero _ (List.mem_map.mpr ⟨w, hw, rfl⟩)

/-- Two slots have different frames. -/
theorem Sound.frame_inj (h : c.Sound frames) (hnodup : frames.Nodup) {key' : CacheKey}
    {slot' : SlotState} (hslot : c.lookup key = some slot) (hslot' : c.lookup key' = some slot')
    (hframe : slot.frame = slot'.frame) : key = key' := by
  by_contra hne
  have hall := h.frames.nodup_iff.mpr hnodup
  have hfr := (List.nodup_append.mp hall).2.1
  have hperm := frames_erase hslot
  rw [hperm.nodup_iff, List.nodup_cons] at hfr
  have hrest : (c.entries.erase key).lookup key' = some slot' := by
    rw [lookup_erase, if_neg (Ne.symm hne)]
    exact hslot'
  have hmem : slot'.frame ∈ Slots.frames (c.entries.erase key) := by
    have hperm' := frames_erase hrest
    exact hperm'.mem_iff.mpr (.head _)
  exact hfr.1 (hframe ▸ hmem)

/-- When there is no frame to be had, every frame is loading. -/
theorem loads_of_exhausted (h : c.Sound frames) (hpool : c.pool = []) (hlru : c.lru = []) :
    c.loads = frames.length := by
  have hload : ∀ e ∈ c.entries.entries, SlotState.load e.2 = 1 := by
    rintro ⟨k, slot⟩ he
    cases hslot : slot with
    | loading frame validBytes waiters => rfl
    | ready frame validBytes =>
      have hlookup : c.entries.lookup k = some (.ready frame validBytes) :=
        Option.mem_def.mp (AList.mem_lookup_iff.mpr (hslot ▸ he))
      have hin := (h.queue.ready k).mpr ⟨frame, validBytes, hlookup⟩
      rw [hlru] at hin
      cases hin
  have hlen := h.frames.length_eq
  rw [hpool, List.nil_append, Slots.frames, List.length_map] at hlen
  rw [loads, Slots.total, ← hlen, List.map_congr_left hload]
  simp

/-- `touch_lru` and `record_hit` leave the slots alone. -/
theorem hit_lookup (c : PageCache) (key key' : CacheKey) :
    (c.recordHit.touchLru key).lookup key' = c.lookup key' := by
  unfold touchLru
  split <;> rfl

theorem hit_entries (c : PageCache) (key : CacheKey) :
    (c.recordHit.touchLru key).entries = c.entries ∧
      (c.recordHit.touchLru key).capacity = c.capacity := by
  unfold touchLru
  split <;> exact ⟨rfl, rfl⟩

theorem Sound.hit (h : c.Sound frames) (key : CacheKey) :
    (c.recordHit.touchLru key).Sound frames := by
  have hrec : c.recordHit.Sound frames := ⟨h.queue, h.frames⟩
  exact hrec.touchLru key

/-- What a new reader does to a cache. -/
structure Joined (c : PageCache) (key : CacheKey) (w : Waiter) (frames : List Nat)
    (c' : PageCache) : Prop where
  sound : c'.Sound frames
  capacity : c'.capacity = c.capacity
  grows : Grows c c'
  outstanding : ∀ tid, c'.outstanding tid = c.outstanding tid + w.owed tid
  ready : ∀ k frame validBytes, c'.lookup k = some (.ready frame validBytes) →
    c.lookup k = some (.ready frame validBytes)

variable (h : c.Sound frames)

include h

theorem joined_registerWaiter
    (hload : c.lookup key = some (.loading frame validBytes waiters)) (w : Waiter) :
    ∃ c', c.registerWaiter key w = (.ok (), c') ∧ Joined c key w frames c' ∧
      c'.loads = c.loads ∧ ∀ k, c'.lookup k = if k = key then
        some (.loading frame validBytes (waiters ++ [w])) else c.lookup k := by
  have hsound := h.registerWaiter key w
  have hlookup : ∀ k, (c.entries.insert key (.loading frame validBytes (waiters ++ [w]))).lookup k =
      if k = key then some (.loading frame validBytes (waiters ++ [w])) else c.lookup k :=
    fun k => lookup_insert c.entries key k _
  unfold registerWaiter at hsound ⊢
  simp only [hload] at hsound ⊢
  refine ⟨_, rfl, ⟨hsound, rfl, ?_, ?_, ?_⟩, ?_, hlookup⟩
  · intro k f v ws hk
    by_cases heq : k = key
    · subst heq
      rw [hload] at hk
      obtain ⟨rfl, rfl, rfl⟩ : frame = f ∧ validBytes = v ∧ waiters = ws := by simpa using hk
      exact ⟨[w], (hlookup k).trans (if_pos rfl)⟩
    · exact ⟨[], by rw [List.append_nil]; exact ((hlookup k).trans (if_neg heq)).trans hk⟩
  · intro tid
    show Slots.total _ _ = Slots.total _ _ + _
    rw [total_insert, total_erase (SlotState.owed tid) hload]
    simp only [SlotState.owed, SlotState.pending, List.map_append, List.sum_append, List.map_cons,
      List.map_nil, List.sum_cons, List.sum_nil]
    omega
  · intro k f v hk
    have hk' := (hlookup k).symm.trans hk
    split at hk'
    · cases hk'
    · exact hk'
  show Slots.total _ _ = Slots.total _ _
  rw [total_insert, total_erase SlotState.load hload]
  rfl

theorem joined_beginLoad (hcap : frames.length = c.capacity)
    (hnone : c.lookup key = none) (hroom : c.loads < c.capacity) (validBytes : Nat) (w : Waiter) :
    ∃ frame c', c.beginLoad key validBytes w = .ok (.ok frame, c') ∧ Joined c key w frames c' ∧
      c'.loads = c.loads + 1 ∧ c'.lookup key = some (.loading frame validBytes [w]) ∧
      ∀ k, k ≠ key → c'.lookup k = c.lookup k ∨
        c'.lookup k = none ∧ ∃ f v, c.lookup k = some (.ready f v) := by
  unfold beginLoad
  simp only [hnone]
  rcases h.acquireFrame with ⟨c', heq, -, -, -⟩ | ⟨frame, c', heq, hacq⟩
  · -- with no frame to be had, every frame would be loading
    exfalso
    unfold acquireFrame at heq
    split at heq
    · simp at heq
    next hpool =>
    split at heq
    · next hlast =>
      have hlru : c.lru = [] := List.getLast?_eq_none_iff.mp hlast
      have hloads := loads_of_exhausted h hpool hlru
      omega
    · split at heq <;> simp at heq
  simp only [heq]
  have hnone' : c'.entries.lookup key = none := by
    rcases hacq.slots key with hsame | ⟨hgone, -⟩
    · exact hsame.trans hnone
    · exact hgone
  -- a slot that was ready has no readers and is no load
  have htotal : ∀ f : SlotState → Nat, (∀ fr v, f (.ready fr v) = 0) →
      Slots.total f c'.entries = Slots.total f c.entries := by
    intro f hf
    unfold acquireFrame at heq
    split at heq
    · obtain ⟨-, rfl⟩ : _ ∧ _ = c' := by simpa using heq
      rfl
    split at heq
    · simp at heq
    next victim hlast =>
    split at heq
    · simp at heq
    · simp at heq
    next fr v hready =>
    obtain ⟨-, rfl⟩ : _ ∧ _ = c' := by simpa using heq
    have htot := total_erase f hready
    rw [hf] at htot
    show Slots.total f (c.entries.erase victim) = _
    omega
  have hlookup : ∀ k, (c'.entries.insert key (.loading frame validBytes [w])).lookup k =
      if k = key then some (.loading frame validBytes [w]) else c'.lookup k :=
    fun k => lookup_insert c'.entries key k _
  refine ⟨frame, _, rfl, ⟨hacq.load hnone _ _ _, hacq.capacity, ?_, ?_, ?_⟩, ?_,
    (hlookup key).trans (if_pos rfl), fun k hk => ?_⟩
  · intro k f v ws hk
    have hne : k ≠ key := by
      rintro rfl
      rw [hnone] at hk
      cases hk
    refine ⟨[], ?_⟩
    rw [List.append_nil]
    refine (hlookup k).trans ((if_neg hne).trans ?_)
    rcases hacq.slots k with hsame | ⟨-, f', v', hready⟩
    · exact hsame.trans hk
    · rw [hready] at hk
      cases hk
  · intro tid
    show Slots.total _ _ = Slots.total _ _ + _
    rw [total_insert, total_erase_none _ hnone', htotal _ fun _ _ => rfl]
    simp only [SlotState.owed, SlotState.pending, List.map_cons, List.map_nil, List.sum_cons,
      List.sum_nil]
    omega
  · intro k f v hk
    have hk' := (hlookup k).symm.trans hk
    split at hk'
    · cases hk'
    rcases hacq.slots k with hsame | ⟨hgone, -⟩
    · exact hsame.symm.trans hk'
    · rw [hgone] at hk'
      cases hk'
  · show Slots.total _ _ = Slots.total _ _ + _
    rw [total_insert, total_erase_none _ hnone', htotal _ fun _ _ => rfl]
    exact Nat.add_comm _ _
  rcases hacq.slots k with hsame | hgone
  · exact .inl ((hlookup k).trans ((if_neg hk).trans hsame))
  · exact .inr ⟨(hlookup k).trans ((if_neg hk).trans hgone.1), hgone.2⟩

/-- The end of a load without error. -/
theorem completeSlot_ok (hload : c.lookup key = some (.loading frame validBytes waiters)) :
    ∃ c', c.completeSlot key 0 = (waiters, c') ∧ c'.Sound frames ∧ c'.capacity = c.capacity ∧
      (∀ tid, c.outstanding tid = (waiters.map (Waiter.owed tid)).sum + c'.outstanding tid) ∧
      ∀ k, c'.lookup k = if k = key then some (.ready frame validBytes) else c.lookup k := by
  have hsound := h.completeSlot key 0
  unfold completeSlot at hsound ⊢
  simp only [hload, if_true] at hsound ⊢
  refine ⟨_, rfl, hsound, rfl, fun tid => ?_, fun k => lookup_insert c.entries key k _⟩
  show Slots.total _ _ = _ + Slots.total _ _
  rw [total_insert, total_erase (SlotState.owed tid) hload]
  simp only [SlotState.owed, SlotState.pending, List.map_nil, List.sum_nil]
  omega

end PageCache

end Orbit.Cache
