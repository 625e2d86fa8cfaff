import Mathlib.Data.UInt
import Orbit.Sched.Thread
import Orbit.Store.MinHeap

/-!
The drain of the sleep heap, against the whole multiset of pushed entries. Entries are
deleted lazily: an entry is judged by its thread's sequence number and state only when
it reaches the top. The callback runs between two iterations and may change threads;
what is assumed of it is that waking one entry leaves the verdict on every other entry
as it was.
-/

namespace Orbit.Sched

open Store

variable {entries : Multiset SleepNotice} {a b : SleepNotice}

variable {σ : Type}

/-- A thread's `sleep_seq` and state, as the drain loads them. -/
abbrev Live := Tid → UInt64 × ThreadState

namespace SleepNotice

def verdict (live : Live) (e : SleepNotice) : Verdict :=
  classify (live e.thread).1 (live e.thread).2 e.sleepSeq

/-- Live, and the deadline has passed. -/
def Due (live : Live) (now : UInt64) (e : SleepNotice) : Prop :=
  e.verdict live = .live ∧ e.wakeTime ≤ now

/-- Live but not due yet, or of a thread that is still on its way into the park. -/
def Stops (live : Live) (now : UInt64) (e : SleepNotice) : Prop :=
  (e.verdict live = .live ∧ now < e.wakeTime) ∨ e.verdict live = .transient

end SleepNotice

/-- The heap the manager keeps its sleepers in. -/
abbrev SleepHeap := MinHeap SleepNotice (fun a b => a.before b = true)

/-- What a drain leaves: the heap, the world the callback acted on, and the entries it was
called for. -/
structure Drained (H : SleepHeap) (σ : Type) where
  heap : H.Heap
  world : σ
  woken : List SleepNotice

/-- The loop of `drain_woken`; `none` is the `unwrap` of an empty pop. Each iteration that
goes on takes one entry out, so the number of entries bounds the iterations. -/
def drainLoop (H : SleepHeap) (view : σ → Live) (cb : σ → Tid → σ) (now : UInt64) :
    Nat → H.Heap → σ → Option (Drained H σ)
  | 0, q, w => some ⟨q, w, []⟩
  | fuel + 1, q, w =>
    match H.peek q with
    | none => some ⟨q, w, []⟩
    | some top =>
      match top.verdict (view w) with
      | .stale => do
          let (_, q') ← H.pop q
          drainLoop H view cb now fuel q' w
      | .transient => some ⟨q, w, []⟩
      | .live =>
        if now < top.wakeTime then some ⟨q, w, []⟩
        else do
          let (entry, q') ← H.pop q
          let r ← drainLoop H view cb now fuel q' (cb w entry.thread)
          some { r with woken := entry :: r.woken }

def drainWoken (H : SleepHeap) (view : σ → Live) (cb : σ → Tid → σ) (now : UInt64)
    (q : H.Heap) (w : σ) : Option (Drained H σ) :=
  drainLoop H view cb now (H.len q) q w

/-- The callback for one entry does not change the verdict on another one. -/
def Steady (view : σ → Live) (cb : σ → Tid → σ) (entries : Multiset SleepNotice) : Prop :=
  ∀ e e', ({e, e'} : Multiset SleepNotice) ≤ entries → ∀ w, e.verdict (view w) = .live →
    e'.verdict (view (cb w e.thread)) = e'.verdict (view w)

/-- Callbacks that change only the thread they are called for, where no park is pushed
twice. The manager's callback, which makes the thread Ready, is of this kind. -/
theorem Steady.of_waker {view : σ → Live} {cb : σ → Tid → σ}
    (hcb : ∀ w t u, u ≠ t → view (cb w t) u = view w u)
    (hseq : ∀ w t, (view (cb w t) t).1 = (view w t).1)
    (honce : (entries.map fun e => (e.thread, e.sleepSeq)).Nodup) : Steady view cb entries := by
  intro e e' hpair w hlive
  by_cases ht : e'.thread = e.thread
  · -- another park of the same thread is stale before the callback and after it
    have hpark : e.sleepSeq ≠ e'.sleepSeq := by
      have := Multiset.nodup_of_le (Multiset.map_le_map hpair) honce
      simpa [ht] using this
    have hnow : (view w e.thread).1 = e.sleepSeq := by
      by_contra hne'
      simp [SleepNotice.verdict, classify, hne'] at hlive
    have hstale : ∀ live : Live, (live e.thread).1 = e.sleepSeq → e'.verdict live = .stale := by
      intro live hl
      simp [SleepNotice.verdict, classify, ht, hl, hpark]
    rw [hstale _ hnow, hstale _ ((hseq w e.thread).trans hnow)]
  · simp [SleepNotice.verdict, hcb w _ _ ht]

theorem Steady.tail {view : σ → Live} {cb : σ → Tid → σ} {e : SleepNotice}
    (steady : Steady view cb (e ::ₘ entries)) :
    Steady view cb entries := by
  intro a b hab
  exact steady a b (hab.trans (Multiset.le_cons_self _ _))

/-- After the callback for `e` the other entries are judged as before. -/
theorem Steady.verdict_eq {view : σ → Live} {cb : σ → Tid → σ} {e e' : SleepNotice}
    (steady : Steady view cb (e ::ₘ entries))
    {w : σ} (hlive : e.verdict (view w) = .live) (he' : e' ∈ entries) :
    e'.verdict (view (cb w e.thread)) = e'.verdict (view w) := by
  apply steady e e' _ w hlive
  apply Multiset.cons_le_cons
  exact Multiset.singleton_le.mpr he'

/-- A drain from the entries `pushed` to the entries `left` that calls back `woken`, judged by
the sequence numbers and states `live`. -/
structure DrainExact (live : Live) (now : UInt64) (pushed left : Multiset SleepNotice)
    (woken : List SleepNotice) : Prop where
  /-- only live entries whose deadline has passed are called back -/
  due : ∀ e ∈ woken, e.Due live now
  /-- in the order of deadlines and sequence numbers -/
  ordered : woken.Pairwise fun a b => b.before a = false
  /-- every entry is called back once, removed as stale, or left -/
  split : ∃ stale : Multiset SleepNotice, pushed = ↑woken + stale + left ∧
    ∀ e ∈ stale, e.verdict live = .stale
  /-- nothing behind a stopping entry is called back -/
  upTo : ∀ e ∈ woken, ∀ s ∈ pushed, s.Stops live now → s.before e = false
  /-- a drain that leaves entries has stopped at one that none of them comes before -/
  stopped : left ≠ 0 → ∃ s ∈ left, s.Stops live now ∧ ∀ e ∈ left, e.before s = false

namespace DrainExact

variable {live live' : Live} {now : UInt64} {pushed left : Multiset SleepNotice}
  {woken : List SleepNotice} {e : SleepNotice}

/-- Every occurrence of a due entry ahead of all stopping ones is called back. -/
theorem complete (drain : DrainExact live now pushed left woken) (hdue : e.Due live now)
    (hahead : ∀ s ∈ pushed, s.Stops live now → e.before s = true) :
    woken.count e = pushed.count e := by
  obtain ⟨stale, rfl, hstale⟩ := drain.split
  have hns : e ∉ stale := by
    intro hmem
    have := hstale e hmem
    rw [hdue.1] at this
    cases this
  have hnl : e ∉ left := by
    intro hmem
    have hne : left ≠ 0 := by
      rintro rfl
      exact Multiset.notMem_zero e hmem
    obtain ⟨s, hs, hstop, hleast⟩ := drain.stopped hne
    have hb := hahead s (by simp [hs]) hstop
    rw [hleast e hmem] at hb
    cases hb
  rw [Multiset.count_add, Multiset.count_add, Multiset.count_eq_zero_of_notMem hns,
    Multiset.count_eq_zero_of_notMem hnl, Multiset.coe_count]
  rfl

/-- Only the verdicts on the entries matter. -/
theorem congr (drain : DrainExact live now pushed left woken)
    (heq : ∀ e ∈ pushed, e.verdict live = e.verdict live') :
    DrainExact live' now pushed left woken := by
  obtain ⟨stale, hsplit, hstale⟩ := drain.split
  have hw : ∀ e ∈ woken, e ∈ pushed := by
    intro e he
    rw [hsplit]
    simp [he]
  have hl : ∀ e ∈ left, e ∈ pushed := by
    intro e he
    rw [hsplit]
    simp [he]
  constructor
  · intro e he
    have := drain.due e he
    rwa [SleepNotice.Due, ← heq e (hw e he)]
  · exact drain.ordered
  · refine ⟨stale, hsplit, ?_⟩
    intro e he
    rw [← heq e (by rw [hsplit]; simp [he])]
    exact hstale e he
  · intro e he s hs hstop
    apply drain.upTo e he s hs
    rwa [SleepNotice.Stops, heq s hs]
  intro hne
  obtain ⟨s, hs, hstop, hleast⟩ := drain.stopped hne
  refine ⟨s, hs, ?_, hleast⟩
  rwa [SleepNotice.Stops, ← heq s (hl s hs)]

theorem empty : DrainExact live now 0 0 [] := by
  constructor
  · simp
  · exact List.Pairwise.nil
  · exact ⟨0, by simp, by simp⟩
  · simp
  · simp

/-- The loop ends at a stopping entry on top. -/
theorem stop {s : SleepNotice} (hs : s ∈ pushed) (hstop : s.Stops live now)
    (hleast : ∀ e ∈ pushed, e.before s = false) : DrainExact live now pushed pushed [] := by
  constructor
  · simp
  · exact List.Pairwise.nil
  · exact ⟨0, by simp, by simp⟩
  · simp
  · intro _
    exact ⟨s, hs, hstop, hleast⟩

/-- A stale entry on top is dropped. -/
theorem drop (drain : DrainExact live now pushed left woken) (hstale : e.verdict live = .stale) :
    DrainExact live now (e ::ₘ pushed) left woken := by
  constructor
  · exact drain.due
  · exact drain.ordered
  · obtain ⟨stale, rfl, hrest⟩ := drain.split
    refine ⟨e ::ₘ stale, by simp, ?_⟩
    intro e' he'
    rcases Multiset.mem_cons.mp he' with rfl | he'
    · exact hstale
    · exact hrest e' he'
  · intro e' he' s hs hstop
    rcases Multiset.mem_cons.mp hs with rfl | hs
    · exfalso
      rcases hstop with ⟨hv, _⟩ | hv <;> rw [hstale] at hv <;> cases hv
    · exact drain.upTo e' he' s hs hstop
  · exact drain.stopped

/-- A due entry on top is called back, ahead of everything behind it. -/
theorem wake (drain : DrainExact live now pushed left woken) (hdue : e.Due live now)
    (hleast : ∀ x ∈ pushed, x.before e = false) :
    DrainExact live now (e ::ₘ pushed) left (e :: woken) := by
  obtain ⟨stale, hsplit, hstale⟩ := drain.split
  constructor
  · intro x hx
    rcases List.mem_cons.mp hx with rfl | hx
    · exact hdue
    · exact drain.due x hx
  · refine List.Pairwise.cons ?_ drain.ordered
    intro x hx
    exact hleast x (by rw [hsplit]; simp [hx])
  · refine ⟨stale, ?_, hstale⟩
    rw [hsplit, ← Multiset.cons_coe, Multiset.cons_add, Multiset.cons_add]
  · intro x hx s hs hstop
    have hse : s ≠ e := by
      rintro rfl
      rcases hstop with ⟨_, hlt⟩ | hv
      · exact absurd hdue.2 (UInt64.not_le.mpr hlt)
      · rw [hdue.1] at hv
        cases hv
    have hs' : s ∈ pushed := by simpa [hse] using hs
    rcases List.mem_cons.mp hx with rfl | hx
    · exact hleast s hs'
    · exact drain.upTo x hx s hs' hstop
  · exact drain.stopped

end DrainExact

/-- One run of the loop with room for every entry, by induction on the iterations left. -/
theorem drainLoop_exact (H : SleepHeap) (view : σ → Live) (cb : σ → Tid → σ) (now : UInt64)
    (fuel : Nat) (q : H.Heap) (w : σ) (hfuel : (H.elems q).card ≤ fuel)
    (steady : Steady view cb (H.elems q)) :
    ∃ r, drainLoop H view cb now fuel q w = some r ∧
      DrainExact (view w) now (H.elems q) (H.elems r.heap) r.woken ∧
      r.world = (r.woken.map (·.thread)).foldl cb w := by
  induction fuel generalizing q w with
  | zero =>
    have h0 : H.elems q = 0 := Multiset.card_eq_zero.mp (Nat.le_zero.mp hfuel)
    refine ⟨⟨q, w, []⟩, rfl, ?_, rfl⟩
    rw [h0]
    exact DrainExact.empty
  | succ fuel ih =>
    cases hpeek : H.peek q with
    | none =>
      refine ⟨⟨q, w, []⟩, by simp [drainLoop, hpeek], ?_, rfl⟩
      rw [H.elems_peek_none q hpeek]
      exact DrainExact.empty
    | some top =>
      obtain ⟨q', hpop, helems⟩ := H.pop_of_peek q top hpeek
      have hmem : top ∈ H.elems q := by simp [helems]
      have hleast : ∀ e ∈ H.elems q, e.before top = false := by
        intro e he
        simpa using H.peek_least q top hpeek e he
      have hfuel' : (H.elems q').card ≤ fuel := by
        rw [helems, Multiset.card_cons] at hfuel
        omega
      have steady' : Steady view cb (top ::ₘ H.elems q') := helems ▸ steady
      cases hv : top.verdict (view w) with
      | stale =>
        obtain ⟨r, hrun, drain, hworld⟩ := ih q' w hfuel' steady'.tail
        refine ⟨r, by simp [drainLoop, hpeek, hv, hpop, hrun], ?_, hworld⟩
        rw [helems]
        exact drain.drop hv
      | transient =>
        refine ⟨⟨q, w, []⟩, by simp [drainLoop, hpeek, hv], ?_, rfl⟩
        exact DrainExact.stop hmem (.inr hv) hleast
      | live =>
        by_cases hdue : now < top.wakeTime
        · refine ⟨⟨q, w, []⟩, by simp [drainLoop, hpeek, hv, hdue], ?_, rfl⟩
          exact DrainExact.stop hmem (.inl ⟨hv, hdue⟩) hleast
        obtain ⟨r, hrun, drain, hworld⟩ := ih q' (cb w top.thread) hfuel' steady'.tail
        refine ⟨{ r with woken := top :: r.woken },
          by simp [drainLoop, hpeek, hv, hdue, hpop, hrun], ?_, by simp [hworld]⟩
        have drain' : DrainExact (view w) now (H.elems q') (H.elems r.heap) r.woken := by
          apply drain.congr
          intro e he
          exact steady'.verdict_eq hv he
        rw [helems]
        apply drain'.wake ⟨hv, UInt64.not_lt.mp hdue⟩
        intro x hx
        exact hleast x (by simp [helems, hx])

/-- For every list of pushed entries and every assignment of sequence numbers and states, the
drain returns; it calls back, once each and in the order of deadlines and sequence numbers,
live entries that are due, and all of them that are ahead of the first stopping entry; what
else it removes is stale; and no due entry that is left comes before the entry it stopped at. -/
theorem drain_woken_exact (H : SleepHeap) (view : σ → Live) (cb : σ → Tid → σ) (now : UInt64)
    (entries : List SleepNotice) (w : σ) (steady : Steady view cb ↑entries) :
    ∃ r, drainWoken H view cb now (H.fill entries) w = some r ∧
      DrainExact (view w) now ↑entries (H.elems r.heap) r.woken ∧
      (∀ e, e.Due (view w) now → (∀ s ∈ entries, s.Stops (view w) now → e.before s = true) →
        r.woken.count e = entries.count e) ∧
      r.world = (r.woken.map (·.thread)).foldl cb w := by
  have helems := H.elems_fill entries
  obtain ⟨r, hrun, drain, hworld⟩ := drainLoop_exact H view cb now (H.len (H.fill entries))
    (H.fill entries) w (H.len_eq _).symm.le (helems ▸ steady)
  rw [helems] at drain
  refine ⟨r, hrun, drain, ?_, hworld⟩
  intro e hdue hahead
  rw [drain.complete hdue hahead, Multiset.coe_count]

/-! The list in heap order is a heap, with entries of equal rank in the order of their pushes. -/

theorem SleepNotice.before_iff : a.before b = true ↔
    a.wakeTime < b.wakeTime ∨ a.wakeTime = b.wakeTime ∧ a.sleepSeq < b.sleepSeq := by
  simp [SleepNotice.before]

/-- An entry is not behind one that is ahead of another it is not behind. -/
theorem SleepNotice.before_trans {a b c : SleepNotice} (hab : b.before a = false)
    (hbc : c.before b = false) : c.before a = false := by
  rw [Bool.eq_false_iff, Ne, SleepNotice.before_iff] at *
  simp only [UInt64.lt_iff_toNat_lt, ← UInt64.toNat_inj] at *
  omega

theorem SleepNotice.before_asymm (hab : a.before b = true) :
    b.before a = false := by
  rw [Bool.eq_false_iff, Ne, SleepNotice.before_iff]
  rw [SleepNotice.before_iff] at hab
  simp only [UInt64.lt_iff_toNat_lt, ← UInt64.toNat_inj] at *
  omega

def HeapOrder (l : List SleepNotice) : Prop := l.Pairwise fun a b => b.before a = false

theorem heapPush_perm (e : SleepNotice) (l : List SleepNotice) : (heapPush e l).Perm (e :: l) := by
  induction l with
  | nil => exact List.Perm.refl _
  | cons x rest ih =>
    simp only [heapPush]
    split
    · exact List.Perm.refl _
    · exact (ih.cons x).trans (List.Perm.swap e x rest)

theorem HeapOrder.heapPush {l : List SleepNotice} (order : HeapOrder l) (e : SleepNotice) :
    HeapOrder (heapPush e l) := by
  induction l with
  | nil => exact List.pairwise_singleton _ _
  | cons x rest ih =>
    obtain ⟨hx, hrest⟩ := List.pairwise_cons.mp order
    simp only [Sched.heapPush]
    split
    case isTrue hlt =>
      have hxe := SleepNotice.before_asymm hlt
      apply List.Pairwise.cons _ order
      intro y hy
      rcases List.mem_cons.mp hy with rfl | hy
      · exact hxe
      · exact SleepNotice.before_trans hxe (hx y hy)
    case isFalse hge =>
      apply List.Pairwise.cons _ (ih hrest)
      intro y hy
      rcases List.mem_cons.mp ((heapPush_perm e rest).mem_iff.mp hy) with rfl | hy
      · exact Bool.eq_false_iff.mpr hge
      · exact hx y hy

/-- Take the first entry off. -/
def popFront : { l : List SleepNotice // HeapOrder l } →
    Option (SleepNotice × { l : List SleepNotice // HeapOrder l })
  | ⟨[], _⟩ => none
  | ⟨e :: rest, order⟩ => some (e, ⟨rest, (List.pairwise_cons.mp order).2⟩)

def listHeap : SleepHeap where
  Heap := { l : List SleepNotice // HeapOrder l }
  elems q := ↑q.1
  new := ⟨[], List.Pairwise.nil⟩
  push q e := ⟨heapPush e q.1, q.2.heapPush e⟩
  peek q := q.1.head?
  pop := popFront
  len q := q.1.length
  elems_new := rfl
  elems_push q e := Multiset.coe_eq_coe.mpr (heapPush_perm e q.1)
  elems_peek_none := by
    rintro ⟨l, order⟩ hnone
    simpa using hnone
  peek_least := by
    rintro ⟨l, order⟩ e he x hx
    cases l with
    | nil => cases he
    | cons y rest =>
      obtain rfl : y = e := by simpa using he
      rcases List.mem_cons.mp (Multiset.mem_coe.mp hx) with rfl | hx
      · simp [SleepNotice.before]
      · simpa using (List.pairwise_cons.mp order).1 x hx
  pop_of_peek := by
    rintro ⟨l, order⟩ e he
    cases l with
    | nil => cases he
    | cons y rest =>
      obtain rfl : y = e := by simpa using he
      exact ⟨_, rfl, rfl⟩
  len_eq _ := rfl

/-- The manager's callback on the states alone: the thread becomes Ready. -/
def makeReady (live : Live) (t : Tid) : Live :=
  Function.update live t ((live t).1, .ready)

/-- Threads 1 and 2 are due, the entry of thread 3's earlier park is stale, thread 4 is on its
way into the park; thread 5 is due behind it and has to wait. -/
def drainEntries : List SleepNotice :=
  [⟨90, 1, 5⟩, ⟨20, 7, 2⟩, ⟨80, 4, 4⟩, ⟨10, 3, 1⟩, ⟨15, 8, 3⟩]

def drainLive : Live := fun t =>
  if t = 1 then (3, .suspended) else if t = 2 then (7, .suspended)
  else if t = 3 then (9, .suspended) else if t = 4 then (4, .running) else (1, .suspended)

theorem drain_woken_exact_behind_transient :
    (drainWoken listHeap id makeReady 100 (listHeap.fill drainEntries) drainLive).map
        (fun r => (r.woken.map (·.thread), r.heap.1.map (·.thread))) = some ([1, 2], [4, 5]) ∧
      ∃ r, drainWoken listHeap id makeReady 100 (listHeap.fill drainEntries) drainLive = some r ∧
        DrainExact drainLive 100 ↑drainEntries ↑r.heap.1 r.woken := by
  have steady : Steady id makeReady ↑drainEntries := by
    apply Steady.of_waker
    · intro w t u hu
      simp [makeReady, hu]
    · intro w t
      simp [makeReady]
    · exact Multiset.coe_nodup.mpr (by decide)
  obtain ⟨r, hrun, drain, _⟩ := drain_woken_exact listHeap id makeReady 100 drainEntries drainLive
    steady
  exact ⟨by decide, r, hrun, drain⟩

end Orbit.Sched
