import Orbit.Cache.PageCache
import Orbit.Paging.Tables
import Orbit.Transition.Run

/-!
The invariant of the page cache, over every sequence of calls: the queue holds the keys
of the ready slots once each, the frames are those the cache began with, each either
free or in one slot, and every reader taken in is either still waiting at its key or has
been returned, in the order of the calls.
-/

namespace Orbit.Cache

open Paging

variable {frame validBytes : Nat}

abbrev Slots := AList fun _ : CacheKey => SlotState

/-- The frames of the slots. -/
def Slots.frames (entries : Slots) : List Nat := entries.entries.map fun e => e.2.frame

/-- The queue holds the keys of the slots that are ready, once each. -/
structure QueueOf (entries : Slots) (lru : List CacheKey) : Prop where
  nodup : lru.Nodup
  ready : ∀ key, key ∈ lru ↔ ∃ frame validBytes,
    entries.lookup key = some (SlotState.ready frame validBytes)

structure PageCache.Sound (frames : List Nat) (c : PageCache) : Prop where
  queue : QueueOf c.entries c.lru
  frames : (c.pool ++ Slots.frames c.entries).Perm frames

/-- The readers waiting at a key. -/
def PageCache.pendingAt (c : PageCache) (key : CacheKey) : List Waiter :=
  ((c.lookup key).map SlotState.pending).getD []

variable {entries : Slots} {lru : List CacheKey} {key : CacheKey} {slot : SlotState}

section Slots

theorem lookup_insert (entries : Slots) (key key' : CacheKey) (slot : SlotState) :
    (entries.insert key slot).lookup key' = if key' = key then some slot
      else entries.lookup key' := by
  split
  · next heq => rw [heq, AList.lookup_insert]
  · next hne => exact AList.lookup_insert_ne hne

theorem lookup_erase (entries : Slots) (key key' : CacheKey) :
    (entries.erase key).lookup key' = if key' = key then none else entries.lookup key' := by
  split
  · next heq => rw [heq, AList.lookup_erase]
  · next hne => exact AList.lookup_erase_ne hne

/-- A slot stands at one place of the map, and erasing its key takes it out there. -/
theorem entries_split (h : entries.lookup key = some slot) : ∃ before after,
    entries.entries = before ++ ⟨key, slot⟩ :: after ∧
      (entries.erase key).entries = before ++ after := by
  have hkey : key ∈ entries.entries.keys :=
    AList.mem_keys.mp (AList.lookup_isSome.mp (by rw [h]; rfl))
  obtain ⟨slot', before, after, -, hsplit, herase⟩ := List.exists_of_kerase hkey
  have hslot : slot' = slot := by
    have hmem : (⟨key, slot'⟩ : Sigma fun _ : CacheKey => SlotState) ∈ entries.entries := by
      rw [hsplit]
      exact List.mem_append_right _ (.head _)
    have hlookup := AList.mem_lookup_iff.mpr hmem
    rw [Option.mem_def, h] at hlookup
    exact (Option.some.inj hlookup).symm
  exact ⟨before, after, hslot ▸ hsplit, herase⟩

theorem entries_erase_none (h : entries.lookup key = none) :
    (entries.erase key).entries = entries.entries :=
  List.kerase_of_notMem_keys (AList.lookup_eq_none.mp h)

/-- A slot taken out of the map. -/
theorem frames_erase (h : entries.lookup key = some slot) :
    (Slots.frames entries).Perm (slot.frame :: Slots.frames (entries.erase key)) := by
  obtain ⟨before, after, hsplit, hrest⟩ := entries_split h
  rw [Slots.frames, Slots.frames, hrest, hsplit, List.map_append, List.map_append, List.map_cons]
  exact List.perm_middle

/-- A slot put in under a key, over what was there. -/
theorem frames_insert (entries : Slots) (key : CacheKey) (slot : SlotState) :
    Slots.frames (entries.insert key slot) = slot.frame :: Slots.frames (entries.erase key) := by
  rw [Slots.frames, AList.entries_insert, List.map_cons]
  rfl

/-- A slot that keeps its frame. -/
theorem frames_update {slot' : SlotState} (h : entries.lookup key = some slot)
    (hframe : slot'.frame = slot.frame) :
    (Slots.frames (entries.insert key slot')).Perm (Slots.frames entries) := by
  rw [frames_insert, hframe]
  exact (frames_erase h).symm

theorem frames_erase_none (h : entries.lookup key = none) :
    Slots.frames (entries.erase key) = Slots.frames entries := by
  rw [Slots.frames, entries_erase_none h]
  rfl

end Slots

namespace QueueOf

section

variable (h : QueueOf entries lru)

include h

theorem not_mem
    (hnot : ∀ frame validBytes, entries.lookup key ≠ some (SlotState.ready frame validBytes)) :
    key ∉ lru := by
  rw [h.ready key]
  rintro ⟨frame, validBytes, hready⟩
  exact hnot frame validBytes hready

theorem touch (hready : entries.lookup key = some (SlotState.ready frame validBytes)) :
    QueueOf entries (key :: lru.erase key) := by
  refine ⟨List.nodup_cons.mpr ⟨h.nodup.not_mem_erase, h.nodup.erase key⟩, ?_⟩
  intro key'
  rw [List.mem_cons, h.nodup.mem_erase_iff, h.ready key']
  constructor
  · rintro (rfl | ⟨-, hin⟩)
    · exact ⟨frame, validBytes, hready⟩
    · exact hin
  intro hin
  by_cases heq : key' = key
  · exact .inl heq
  · exact .inr ⟨heq, hin⟩

variable (hnot : ∀ frame validBytes, entries.lookup key ≠ some (SlotState.ready frame validBytes))

include hnot

/-- A slot that is loading comes in or changes. -/
theorem load
    (frame validBytes : Nat) (waiters : List Waiter) :
    QueueOf (entries.insert key (.loading frame validBytes waiters)) lru := by
  refine ⟨h.nodup, ?_⟩
  intro key'
  rw [lookup_insert]
  split
  · next heq => simp [heq, h.not_mem hnot]
  · exact h.ready key'

/-- A load that has succeeded. -/
theorem push
    (frame validBytes : Nat) :
    QueueOf (entries.insert key (.ready frame validBytes)) (key :: lru) := by
  refine ⟨List.nodup_cons.mpr ⟨h.not_mem hnot, h.nodup⟩, ?_⟩
  intro key'
  rw [lookup_insert, List.mem_cons]
  split
  · next heq => simp [heq]
  · next hne => rw [or_iff_right hne, h.ready key']

/-- A load that has failed. -/
theorem drop :
    QueueOf (entries.erase key) lru := by
  refine ⟨h.nodup, ?_⟩
  intro key'
  rw [lookup_erase]
  split
  · next heq => simp [heq, h.not_mem hnot]
  · exact h.ready key'

end

/-- The last key of the queue goes with its slot. -/
theorem evict {rest : List CacheKey} (h : QueueOf entries (rest ++ [key])) :
    QueueOf (entries.erase key) rest := by
  have hnodup := List.nodup_append.mp h.nodup
  have hout : key ∉ rest := fun hin => hnodup.2.2 key hin key (List.mem_singleton_self key) rfl
  refine ⟨hnodup.1, ?_⟩
  intro key'
  rw [lookup_erase]
  split
  · next heq => simp [heq, hout]
  · next hne =>
    rw [← h.ready key', List.mem_append, List.mem_singleton, or_iff_left hne]

end QueueOf

namespace PageCache

variable {frames : List Nat} {c c' : PageCache}

theorem Sound.touchLru (h : c.Sound frames) (key : CacheKey) : (c.touchLru key).Sound frames := by
  rw [PageCache.touchLru]
  split
  · next hready => exact ⟨h.queue.touch hready, h.frames⟩
  · exact h

theorem not_ready_of_loading {waiters : List Waiter}
    (h : c.lookup key = some (.loading frame validBytes waiters)) (f v : Nat) :
    c.entries.lookup key ≠ some (SlotState.ready f v) := by
  intro hready
  rw [lookup, hready] at h
  cases h

theorem Sound.registerWaiter (h : c.Sound frames) (key : CacheKey) (waiter : Waiter) :
    (c.registerWaiter key waiter).2.Sound frames := by
  rw [PageCache.registerWaiter]
  split
  · exact h
  · exact h
  next frame validBytes waiters hslot =>
  have hnot := not_ready_of_loading hslot
  refine ⟨h.queue.load hnot .., ?_⟩
  exact ((frames_update hslot rfl).append_left c.pool).trans h.frames

/-- What a frame that was acquired leaves behind: the slots as they were, but for one
that was ready. -/
structure Acquired (frames : List Nat) (frame : Nat) (c c' : PageCache) : Prop where
  queue : QueueOf c'.entries c'.lru
  frames : (frame :: (c'.pool ++ Slots.frames c'.entries)).Perm frames
  capacity : c'.capacity = c.capacity
  slots : ∀ key, c'.lookup key = c.lookup key ∨
    c'.lookup key = none ∧ ∃ frame validBytes, c.lookup key = some (.ready frame validBytes)

/-- The victim at the end of the queue has a slot that is ready: neither panic fires. -/
theorem Sound.acquireFrame (h : c.Sound frames) :
    (∃ c', c.acquireFrame = .ok (.error .poolExhausted, c') ∧ c'.Sound frames ∧
      c'.entries = c.entries ∧ c'.capacity = c.capacity) ∨
    ∃ frame c', c.acquireFrame = .ok (.ok frame, c') ∧ Acquired frames frame c c' := by
  have hframes := h.frames
  rw [PageCache.acquireFrame]
  cases hpool : c.pool with
  | cons frame pool =>
    rw [hpool] at hframes
    exact .inr ⟨frame, _, rfl, h.queue, hframes, rfl, fun _ => .inl rfl⟩
  | nil =>
    rw [hpool] at hframes
    cases hlast : c.lru.getLast? with
    | none => exact .inl ⟨_, rfl, ⟨h.queue, hframes⟩, rfl, rfl⟩
    | some key =>
      obtain ⟨rest, hlru⟩ := List.getLast?_eq_some_iff.mp hlast
      have hqueue := h.queue
      rw [hlru] at hqueue
      obtain ⟨frame, validBytes, hready⟩ := (hqueue.ready key).mp (by simp)
      have hlookup : c.lookup key = some (.ready frame validBytes) := hready
      simp only [hlookup]
      refine .inr ⟨frame, _, rfl, ?_, (frames_erase hready).symm.trans hframes, rfl, ?_⟩
      · show QueueOf (c.entries.erase key) c.lru.dropLast
        rw [hlru, List.dropLast_concat]
        exact hqueue.evict
      intro key'
      show (c.entries.erase key).lookup key' = _ ∨ (c.entries.erase key).lookup key' = none ∧ _
      rw [lookup_erase]
      split
      · next heq => exact .inr ⟨rfl, frame, validBytes, heq ▸ hready⟩
      · exact .inl rfl

/-- A load begun in a frame that was acquired. -/
theorem Acquired.load (h : Acquired frames frame c c') (hnone : c.lookup key = none)
    (validBytes : Nat) (waiter : Waiter) (stats : PageCacheStats) :
    PageCache.Sound frames
      { c' with entries := c'.entries.insert key (.loading frame validBytes [waiter]), stats } := by
  have hnone' : c'.entries.lookup key = none := by
    rcases h.slots key with hsame | ⟨hgone, -⟩
    · exact hsame.trans hnone
    · exact hgone
  refine ⟨h.queue.load (by simp [hnone']) .., ?_⟩
  show (c'.pool ++ Slots.frames (c'.entries.insert key _)).Perm frames
  rw [frames_insert, frames_erase_none hnone']
  exact List.perm_middle.trans h.frames

theorem Sound.completeSlot (h : c.Sound frames) (key : CacheKey) (status : Nat) :
    (c.completeSlot key status).2.Sound frames := by
  rw [PageCache.completeSlot]
  split
  · exact h
  · exact h
  next frame validBytes waiters hslot =>
  have hnot := not_ready_of_loading hslot
  split
  · refine ⟨h.queue.push hnot .., ?_⟩
    exact ((frames_update hslot rfl).append_left c.pool).trans h.frames
  refine ⟨h.queue.drop hnot, ?_⟩
  have hperm := (frames_erase hslot).append_left c.pool
  exact (List.perm_middle.symm.trans hperm.symm).trans h.frames

end PageCache

/-- What a call does at one key: readers come in and go out, and a load under way stays
unless the call completes it. -/
structure Change (op : Op) (key : CacheKey) (h h' : History) : Prop where
  readers : ∃ taken out, h'.registered key = h.registered key ++ taken ∧
    h'.returned key = h.returned key ++ out ∧
    h.cache.pendingAt key ++ taken = out ++ h'.cache.pendingAt key
  pinned : ∀ frame validBytes waiters,
    h.cache.lookup key = some (.loading frame validBytes waiters) →
    (∃ status, op = .completeSlot key status) ∨
      ∃ more, h'.cache.lookup key = some (.loading frame validBytes (waiters ++ more))

namespace Change

variable {op : Op} {h : History} {c' : PageCache} {frames : List Nat}

/-- A slot that is as it was, or was ready and is gone. -/
theorem of_lookup (hslot : c'.lookup key = h.cache.lookup key ∨
      c'.lookup key = none ∧
        ∃ frame validBytes, h.cache.lookup key = some (.ready frame validBytes)) :
    Change op key h { h with cache := c' } := by
  constructor
  · refine ⟨[], [], (List.append_nil _).symm, (List.append_nil _).symm, ?_⟩
    rw [List.append_nil, List.nil_append]
    rcases hslot with hsame | ⟨hgone, frame, validBytes, hready⟩
    · rw [PageCache.pendingAt, PageCache.pendingAt, hsame]
    · rw [PageCache.pendingAt, PageCache.pendingAt, hgone, hready]
      rfl
  intro frame validBytes waiters hload
  right
  rcases hslot with hsame | ⟨-, frame', validBytes', hready⟩
  · exact ⟨[], by rw [hsame, hload, List.append_nil]⟩
  · rw [hready] at hload
    cases hload

/-- The same, where another key is on record. -/
theorem of_other {registered returned : CacheKey → List Waiter}
    (hreg : registered key = h.registered key) (hret : returned key = h.returned key)
    (hslot : c'.lookup key = h.cache.lookup key ∨
      c'.lookup key = none ∧
        ∃ frame validBytes, h.cache.lookup key = some (.ready frame validBytes)) :
    Change op key h ⟨c', registered, returned⟩ := by
  have hsame : Change op key h { h with cache := c' } := of_lookup hslot
  obtain ⟨⟨taken, out, h1, h2, h3⟩, hpinned⟩ := hsame
  exact ⟨⟨taken, out, hreg.trans h1, hret.trans h2, h3⟩, hpinned⟩

end Change

theorem extend_self (f : CacheKey → List Waiter) (key : CacheKey) (ws : List Waiter) :
    extend f key ws key = f key ++ ws := if_pos rfl

theorem extend_ne (f : CacheKey → List Waiter) {key key' : CacheKey} (ws : List Waiter)
    (hne : key' ≠ key) : extend f key ws key' = f key' := if_neg hne

namespace History

variable {frames : List Nat} {h h' : History}

/-- What any call does to a sound cache: it does not panic, keeps the cache sound and
changes every key as `Change` says. -/
structure Runs (frames : List Nat) (op : Op) (h h' : History) : Prop where
  attempt : h.attempt op = .ok h'
  sound : h'.cache.Sound frames
  capacity : h'.cache.capacity = h.cache.capacity
  change : ∀ key, Change op key h h'

theorem runs_touchLru (hs : h.cache.Sound frames) (key : CacheKey) :
    ∃ h', Runs frames (.touchLru key) h h' := by
  refine ⟨_, rfl, hs.touchLru key, ?_, fun key' => .of_lookup (.inl ?_)⟩
  · rw [PageCache.touchLru]
    split <;> rfl
  · rw [PageCache.touchLru]
    split <;> rfl

theorem registerWaiter_cases (c : PageCache) (key : CacheKey) (waiter : Waiter) :
    (∃ e, c.registerWaiter key waiter = (.error e, c)) ∨
    ∃ frame validBytes waiters c', c.lookup key = some (.loading frame validBytes waiters) ∧
      c.registerWaiter key waiter = (.ok (), c') ∧ c'.capacity = c.capacity ∧
      ∀ key', c'.lookup key' =
        if key' = key then some (.loading frame validBytes (waiters ++ [waiter]))
          else c.lookup key' := by
  rw [PageCache.registerWaiter]
  split
  · exact .inl ⟨_, rfl⟩
  · exact .inl ⟨_, rfl⟩
  next frame validBytes waiters hslot =>
  exact .inr ⟨frame, validBytes, waiters, _, hslot, rfl, rfl,
    fun key' => lookup_insert _ _ key' _⟩

theorem runs_registerWaiter (hs : h.cache.Sound frames) (key : CacheKey) (waiter : Waiter) :
    ∃ h', Runs frames (.registerWaiter key waiter) h h' := by
  have hsound := hs.registerWaiter key waiter
  rcases registerWaiter_cases h.cache key waiter with
    ⟨e, hrun⟩ | ⟨frame, validBytes, waiters, c', hslot, hrun, hcap, hlookup⟩
  · refine ⟨h, ?_, hs, rfl, fun key' => .of_lookup (.inl rfl)⟩
    simp only [History.attempt, hrun]
  rw [hrun] at hsound
  refine ⟨⟨c', extend h.registered key [waiter], h.returned⟩, ?_, hsound, hcap, fun key' => ?_⟩
  · simp only [History.attempt, hrun]
  by_cases heq : key' = key
  · subst heq
    have hnew := hlookup key'
    rw [if_pos rfl] at hnew
    constructor
    · refine ⟨[waiter], [], extend_self .., (List.append_nil _).symm, ?_⟩
      rw [PageCache.pendingAt, PageCache.pendingAt, hslot, hnew]
      rfl
    intro frame' validBytes' waiters' hload
    rw [hslot] at hload
    cases hload
    exact .inr ⟨[waiter], hnew⟩
  · apply Change.of_other (extend_ne _ _ heq) rfl
    exact .inl ((hlookup key').trans (if_neg heq))

theorem runs_beginLoad (hs : h.cache.Sound frames) (key : CacheKey) (validBytes : Nat)
    (waiter : Waiter) : ∃ h', Runs frames (.beginLoad key validBytes waiter) h h' := by
  cases hslot : h.cache.lookup key with
  | some slot =>
    refine ⟨h, ?_, hs, rfl, fun key' => .of_lookup (.inl rfl)⟩
    simp only [History.attempt, PageCache.beginLoad, hslot]
  | none =>
    rcases hs.acquireFrame with ⟨c', hrun, hsound, hentries, hcap⟩ | ⟨frame, c', hrun, hacq⟩
    · refine ⟨{ h with cache := c' }, ?_, hsound, hcap, fun key' => .of_lookup (.inl ?_)⟩
      · simp only [History.attempt, PageCache.beginLoad, hslot, hrun]
      · rw [PageCache.lookup, PageCache.lookup, hentries]
    have hsound := hacq.load hslot validBytes waiter
      { c'.stats with misses := c'.stats.misses + 1 }
    refine ⟨⟨_, extend h.registered key [waiter], h.returned⟩, ?_, hsound, hacq.capacity,
      fun key' => ?_⟩
    · simp only [History.attempt, PageCache.beginLoad, hslot, hrun]
    have hlookup := lookup_insert c'.entries key key' (.loading frame validBytes [waiter])
    by_cases heq : key' = key
    · subst heq
      rw [if_pos rfl] at hlookup
      constructor
      · refine ⟨[waiter], [], extend_self .., (List.append_nil _).symm, ?_⟩
        rw [PageCache.pendingAt, PageCache.pendingAt, hslot, PageCache.lookup, hlookup]
        rfl
      intro frame' validBytes' waiters' hload
      rw [hslot] at hload
      cases hload
    rw [if_neg heq] at hlookup
    apply Change.of_other (extend_ne _ _ heq) rfl
    rw [PageCache.lookup, hlookup]
    exact hacq.slots key'

theorem completeSlot_cases (c : PageCache) (key : CacheKey) (status : Nat) :
    (c.completeSlot key status = ([], c) ∧ c.pendingAt key = []) ∨
    ∃ frame validBytes waiters c', c.lookup key = some (.loading frame validBytes waiters) ∧
      c.completeSlot key status = (waiters, c') ∧ c'.capacity = c.capacity ∧
      c'.pendingAt key = [] ∧ ∀ key', key' ≠ key → c'.lookup key' = c.lookup key' := by
  rw [PageCache.completeSlot]
  split
  · next hslot => exact .inl ⟨rfl, by rw [PageCache.pendingAt, hslot]; rfl⟩
  · next hslot => exact .inl ⟨rfl, by rw [PageCache.pendingAt, hslot]; rfl⟩
  next frame validBytes waiters hslot =>
  right
  split
  · refine ⟨frame, validBytes, waiters, _, hslot, rfl, rfl, ?_, ?_⟩
    · rw [PageCache.pendingAt, PageCache.lookup, AList.lookup_insert]
      rfl
    · exact fun key' hne => AList.lookup_insert_ne hne
  refine ⟨frame, validBytes, waiters, _, hslot, rfl, rfl, ?_, ?_⟩
  · rw [PageCache.pendingAt, PageCache.lookup, AList.lookup_erase]
    rfl
  · exact fun key' hne => AList.lookup_erase_ne hne

theorem runs_completeSlot (hs : h.cache.Sound frames) (key : CacheKey) (status : Nat) :
    ∃ h', Runs frames (.completeSlot key status) h h' := by
  have hsound := hs.completeSlot key status
  rcases completeSlot_cases h.cache key status with
    ⟨hrun, hpend⟩ | ⟨frame, validBytes, waiters, c', hslot, hrun, hcap, hpend, hother⟩
  · refine ⟨⟨h.cache, h.registered, extend h.returned key []⟩, ?_, hs, rfl, fun key' => ?_⟩
    · simp only [History.attempt, hrun]
    apply Change.of_other rfl _ (.inl rfl)
    by_cases heq : key' = key
    · rw [heq, extend_self, List.append_nil]
    · exact extend_ne _ _ heq
  rw [hrun] at hsound
  refine ⟨⟨c', h.registered, extend h.returned key waiters⟩, ?_, hsound, hcap, fun key' => ?_⟩
  · simp only [History.attempt, hrun]
  by_cases heq : key' = key
  · subst heq
    constructor
    · refine ⟨[], waiters, (List.append_nil _).symm, extend_self .., ?_⟩
      rw [hpend, PageCache.pendingAt, hslot, List.append_nil, List.append_nil]
      rfl
    · exact fun _ _ _ _ => .inl ⟨status, rfl⟩
  · apply Change.of_other rfl (extend_ne _ _ heq)
    exact .inl (hother key' heq)

theorem runs (hs : h.cache.Sound frames) (op : Op) : ∃ h', Runs frames op h h' := by
  cases op with
  | beginLoad key validBytes waiter => exact runs_beginLoad hs key validBytes waiter
  | registerWaiter key waiter => exact runs_registerWaiter hs key waiter
  | touchLru key => exact runs_touchLru hs key
  | completeSlot key status => exact runs_completeSlot hs key status

/-- The invariant of a cache that was given these frames. -/
structure Conserved (frames : List Nat) (h : History) : Prop where
  sound : h.cache.Sound frames
  capacity : h.cache.capacity = frames.length
  /-- readers taken in at a key are returned in order, and the rest wait there -/
  readers : ∀ key, h.registered key = h.returned key ++ h.cache.pendingAt key

theorem Conserved.run (hc : h.Conserved frames) {op : Op} (hrun : Runs frames op h h') :
    h'.Conserved frames := by
  refine ⟨hrun.sound, hrun.capacity.trans hc.capacity, fun key => ?_⟩
  obtain ⟨taken, out, hreg, hret, hmove⟩ := (hrun.change key).readers
  calc h'.registered key = h.returned key ++ (h.cache.pendingAt key ++ taken) := by
        rw [hreg, hc.readers key, List.append_assoc]
    _ = h'.returned key ++ h'.cache.pendingAt key := by
        rw [hmove, hret, List.append_assoc]

theorem Conserved.step (hc : h.Conserved frames) {op : Op} (hstep : h.step op = some h') :
    Runs frames op h h' := by
  obtain ⟨h'', hrun⟩ := runs hc.sound op
  rw [History.step, hrun.attempt] at hstep
  cases hstep
  exact hrun

end History

/-- Frames taken one after the other from a pool are all different. -/
theorem allocFrames_spec {n : Nat} {pages pages' : FrameAllocator} {pool pool' : List Nat}
    (hwf : pages.Wf) (hout : ∀ frame ∈ pool, ¬ pages.Free frame) (hnodup : pool.Nodup)
    (hrun : allocFrames n pages pool = some (pool', pages')) :
    pool'.Nodup ∧ pool'.length = n + pool.length := by
  induction n generalizing pages pool with
  | zero =>
    cases hrun
    exact ⟨hnodup, (Nat.zero_add _).symm⟩
  | succ n ih =>
    rw [allocFrames] at hrun
    split at hrun
    · cases hrun
    next frame pages1 halloc =>
    obtain ⟨hwf1, -, -, hwas, hnow⟩ := hwf.allocAligned pageLayout_wf halloc
    have hself : Within frame pageLayout.span frame :=
      ⟨Nat.le_refl _, by rw [pageLayout_span]; exact Nat.lt_add_of_pos_right (by decide)⟩
    have hfresh : frame ∉ pool := fun hin => hout frame hin (hwas frame hself)
    have hrest := ih hwf1 ?_ (List.nodup_cons.mpr ⟨hfresh, hnodup⟩) hrun
    · rw [List.length_cons] at hrest
      exact ⟨hrest.1, by omega⟩
    intro frame' hin hfree
    rcases List.mem_cons.mp hin with rfl | hold
    · exact (hnow frame' hfree).2 hself
    · exact hout frame' hold (hnow frame' hfree).1

/-- A cache made from the kernel's pages, with no call made yet. -/
def FreshCache (h : History) : Prop :=
  ∃ kernelPages capacity c, FrameAllocator.Wf kernelPages ∧
    PageCache.withCapacity kernelPages capacity = some c ∧ h = .start c

theorem FreshCache.conserved {h : History} (hfresh : FreshCache h) :
    ∃ frames : List Nat, frames.Nodup ∧ h.Conserved frames := by
  obtain ⟨kernelPages, capacity, c, hwf, hnew, rfl⟩ := hfresh
  rw [PageCache.withCapacity] at hnew
  split at hnew
  · cases hnew
  next pool pages halloc =>
  cases hnew
  obtain ⟨hnodup, hlen⟩ := allocFrames_spec hwf (by simp) List.nodup_nil halloc
  refine ⟨pool, hnodup, ⟨⟨List.nodup_nil, ?_⟩, ?_⟩, ?_, fun _ => rfl⟩
  · intro key
    simp [History.start]
  · simp [History.start, Slots.frames]
  · exact hlen.symm

/-- The completion of a load hands out its readers and ends it, with an error as without. -/
theorem completeSlot_loading {c : PageCache} {key : CacheKey} {frame validBytes : Nat}
    {waiters : List Waiter} (hslot : c.lookup key = some (.loading frame validBytes waiters))
    (status : Nat) : (c.completeSlot key status).1 = waiters ∧
      (c.completeSlot key status).2.lookup key =
        if status = 0 then some (.ready frame validBytes) else none := by
  rw [PageCache.completeSlot, hslot]
  dsimp only
  split
  · exact ⟨rfl, AList.lookup_insert _⟩
  · exact ⟨rfl, AList.lookup_erase _ _⟩

/-- Over every sequence of calls on a fresh cache: the queue holds the keys of the ready
slots, once each; no frame is in two places, and those in the pool and in slots make up
the capacity; readers taken in at a key are returned once, in order, and the others are
waiting there; a completion returns all that wait for the load and ends it; and no call
panics or takes a load away before its completion. -/
theorem page_cache_invariant {h : History}
    (hreach : Transition.Reach History.step (fun _ _ => True) FreshCache h) :
    h.cache.lru.Nodup ∧
    (∀ key, key ∈ h.cache.lru ↔ ∃ frame validBytes,
      h.cache.lookup key = some (.ready frame validBytes)) ∧
    (h.cache.pool ++ Slots.frames h.cache.entries).Nodup ∧
    h.cache.pool.length + h.cache.entries.keys.length = h.cache.capacity ∧
    (∀ key, h.registered key = h.returned key ++ h.cache.pendingAt key) ∧
    (∀ key frame validBytes waiters status,
      h.cache.lookup key = some (.loading frame validBytes waiters) →
      (h.cache.completeSlot key status).1 = waiters ∧
        (h.cache.completeSlot key status).2.lookup key =
          if status = 0 then some (.ready frame validBytes) else none) ∧
    ∀ op, ∃ h', h.attempt op = .ok h' ∧ ∀ key frame validBytes waiters,
      h.cache.lookup key = some (.loading frame validBytes waiters) →
      (∃ status, op = .completeSlot key status) ∨
        ∃ more, h'.cache.lookup key = some (.loading frame validBytes (waiters ++ more)) := by
  have hinv : ∃ frames : List Nat, frames.Nodup ∧ h.Conserved frames := by
    refine hreach.invariant (I := fun h => ∃ frames : List Nat, frames.Nodup ∧ h.Conserved frames)
      (fun _ => FreshCache.conserved) ?_
    rintro h1 op h2 ⟨frames, hnodup, hc⟩ - hstep
    exact ⟨frames, hnodup, hc.run (hc.step hstep)⟩
  obtain ⟨frames, hnodup, hc⟩ := hinv
  refine ⟨hc.sound.queue.nodup, hc.sound.queue.ready, ?_, ?_, hc.readers,
    fun _ _ _ _ status hslot => completeSlot_loading hslot status, ?_⟩
  · exact hc.sound.frames.nodup_iff.mpr hnodup
  · have hlen := hc.sound.frames.length_eq
    rw [List.length_append, Slots.frames, List.length_map] at hlen
    rw [hc.capacity, ← hlen, AList.keys, List.keys, List.length_map]
  intro op
  obtain ⟨h', hrun⟩ := History.runs hc.sound op
  exact ⟨h', hrun.attempt, fun key => (hrun.change key).pinned⟩

/-- Two free pages. -/
def twoPages : FrameAllocator := ⟨fun k => if k = 13 then [0x2000] else []⟩

theorem twoPages_wf : twoPages.Wf := by
  have hone : twoPages.OneBlock 13 0x2000 :=
    FrameAllocator.oneBlock_of_list fun _ hb => List.mem_singleton.mp hb
  exact hone.wf (by decide) (by decide) (by decide)

def twoPageCache : PageCache := ⟨∅, [], [0x3000, 0x2000], 2, ⟨0, 0, 0, 0, 0, 0⟩⟩

theorem page_cache_invariant_evicting :
    ∃ h, Transition.Reach History.step (fun _ _ => True) FreshCache h ∧
      h.cache.pool.length + h.cache.entries.keys.length = h.cache.capacity ∧
      h.cache.stats.evictions = 1 := by
  have hfresh : FreshCache (.start twoPageCache) :=
    ⟨twoPages, 2, twoPageCache, twoPages_wf, by rfl, rfl⟩
  have hstart : Transition.Reach History.step (fun _ _ => True) FreshCache (.start twoPageCache) :=
    .start hfresh
  obtain ⟨h, hreach, hevict⟩ := hstart.exists_of_exec
    [.beginLoad ⟨1, 0⟩ 4096 (.kernel 1 0 0 4096), .beginLoad ⟨1, 8⟩ 4096 (.kernel 1 0 0 4096),
      .completeSlot ⟨1, 0⟩ 0, .beginLoad ⟨1, 16⟩ 4096 (.kernel 1 0 0 4096)]
    (fun h : History => h.cache.stats.evictions = 1) (by decide +kernel)
  exact ⟨h, hreach, (page_cache_invariant hreach).2.2.2.1, hevict⟩

end Orbit.Cache
