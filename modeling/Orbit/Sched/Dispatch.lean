import Mathlib.Data.List.Induction
import Mathlib.Data.List.Nodup
import Orbit.Sched.Thread

/-!
One pass of `assign_threads` over the ready queue: the remote harts in order, then the
caller's own. The queue holds the move-only tokens of runnable threads, so no thread
stands in it twice and each was Ready when its token was made; a kill may have made it
Exited since.
-/

namespace Orbit.Sched

open Function

variable {fits : Tid → Bool}

/-- What the pass reads and writes: threads, the queue, the harts' `current` slots, and the
harts it sends an interrupt to. -/
structure Pass where
  threads : Tid → Thread
  ready : List Tid
  current : Nat → Option Tid
  woken : List Nat

/-- `HartView::affinity_bit`; the shift wraps at 64. -/
def affinityBit (h : Nat) : UInt64 := 1 <<< UInt64.ofNat h

namespace Pass

def allows (threads : Tid → Thread) (h : Nat) (t : Tid) : Bool :=
  (threads t).affinity &&& affinityBit h ≠ 0

/-- `HartView::is_busy`. -/
def isBusy (p : Pass) (h : Nat) : Bool := (p.current h).isSome

/-- `assign_thread_to` with `try_mark_assigned`; `none` is the panic of the checked edge. -/
def assignThreadTo (p : Pass) (h : Nat) (t : Tid) : Option Pass :=
  let th := { p.threads t with ticks := (p.threads t).ticks + 1 }
  match th.state with
  | .ready => some { p with
      threads := update p.threads t (th.store .assigned)
      current := update p.current h (some t) }
  | .exited => some { p with threads := update p.threads t th }
  | _ => none

/-- What the pass does for one hart; only remote harts are sent an interrupt. -/
def assignHart (remote : Bool) (p : Pass) (h : Nat) : Option Pass :=
  if p.isBusy h then some p
  else match popFor (allows p.threads h) p.ready with
    | none => some p
    | some (t, rest) => do
        let p' ← assignThreadTo { p with ready := rest } h t
        some (if remote then { p' with woken := p'.woken ++ [h] } else p')

end Pass

/-- A pop takes the first entry that fits. -/
theorem popFor_eq_find (q : List Tid) :
    popFor fits q = (q.find? fits).map fun t => (t, q.eraseP fits) := by
  induction q with
  | nil => rfl
  | cons x rest ih =>
    simp only [popFor]
    by_cases hx : fits x = true
    · simp [hx]
    rw [if_neg hx, ih]
    simp only [List.find?_cons_of_neg hx, List.eraseP_cons_of_neg hx]
    cases rest.find? fits <;> rfl

namespace Pass

/-- What a ready queue holds. -/
structure Queued (p : Pass) : Prop where
  nodup : p.ready.Nodup
  states : ∀ t ∈ p.ready, (p.threads t).state = .ready ∨ (p.threads t).state = .exited

/-- The effect of the turns of `harts` on the pass `p`: `placed` and `dropped` are the entries
that left the queue. -/
structure Served (p : Pass) (harts : List Nat) (out : Pass) : Prop where
  /-- the queue keeps its order -/
  sublist : out.ready.Sublist p.ready
  /-- a thread that is still queued has not been touched -/
  untouched : ∀ t ∈ out.ready, out.threads t = p.threads t
  affinity : ∀ t, (out.threads t).affinity = (p.threads t).affinity
  others : ∀ h, h ∉ harts → out.current h = p.current h
  busy : ∀ h, p.isBusy h = true → out.current h = p.current h
  places : ∃ (placed : List (Nat × Tid)) (dropped : List Tid),
    p.ready.Perm (out.ready ++ (placed.map Prod.snd ++ dropped)) ∧
    (placed.map Prod.fst).Nodup ∧
    (∀ h t, (h, t) ∈ placed ↔ p.isBusy h = false ∧ out.current h = some t) ∧
    (∀ t ∈ placed.map Prod.snd, (p.threads t).state = .ready ∧ (out.threads t).state = .assigned) ∧
    ∀ t ∈ dropped, (p.threads t).state = .exited

/-- The turn of one hart, by what it finds. -/
inductive Turn (p : Pass) (h : Nat) : Pass → Prop where
  | busy (hbusy : p.isBusy h = true) : Turn p h p
  | unmatched (hidle : p.isBusy h = false) (hfind : p.ready.find? (allows p.threads h) = none) :
      Turn p h p
  | placed {t : Tid} {out : Pass} (hidle : p.isBusy h = false)
      (hfind : p.ready.find? (allows p.threads h) = some t)
      (hready : (p.threads t).state = .ready)
      (hthreads : out.threads = update p.threads t
        { p.threads t with ticks := (p.threads t).ticks + 1, state := .assigned })
      (hqueue : out.ready = p.ready.eraseP (allows p.threads h))
      (hcurrent : out.current = update p.current h (some t)) : Turn p h out
  | dropped {t : Tid} {out : Pass} (hidle : p.isBusy h = false)
      (hfind : p.ready.find? (allows p.threads h) = some t)
      (hexited : (p.threads t).state = .exited)
      (hthreads : out.threads = update p.threads t
        { p.threads t with ticks := (p.threads t).ticks + 1 })
      (hqueue : out.ready = p.ready.eraseP (allows p.threads h))
      (hcurrent : out.current = p.current) : Turn p h out

variable {p mid out : Pass} {h : Nat} {harts : List Nat} {t : Tid}

theorem assignThreadTo_ready (hst : (p.threads t).state = .ready) :
    assignThreadTo p h t = some { p with
      threads := update p.threads t
        { p.threads t with ticks := (p.threads t).ticks + 1, state := .assigned }
      current := update p.current h (some t) } := by
  simp only [assignThreadTo, hst, Thread.store]

theorem assignThreadTo_exited (hst : (p.threads t).state = .exited) :
    assignThreadTo p h t = some { p with
      threads := update p.threads t
        { p.threads t with ticks := (p.threads t).ticks + 1 } } := by
  unfold assignThreadTo
  dsimp only
  split
  case h_1 hready => simp [hst] at hready
  case h_2 => rfl
  case h_3 _ hother => exact absurd hst hother

/-- On a well-formed queue a turn does not panic. -/
theorem Queued.turn (queue : Queued p) (remote : Bool) (h : Nat) :
    ∃ out, assignHart remote p h = some out ∧ Turn p h out := by
  unfold assignHart
  by_cases hbusy : p.isBusy h = true
  · exact ⟨p, by simp [hbusy], .busy hbusy⟩
  have hidle : p.isBusy h = false := Bool.eq_false_iff.mpr hbusy
  rw [if_neg hbusy, popFor_eq_find]
  cases hfind : p.ready.find? (allows p.threads h) with
  | none => exact ⟨p, rfl, .unmatched hidle hfind⟩
  | some t =>
    rcases queue.states t (List.mem_of_find?_eq_some hfind) with hst | hst
    · simp only [Option.map_some, Option.bind_eq_bind]
      have hst' : ({ p with ready := p.ready.eraseP (allows p.threads h) }.threads t).state =
          .ready := hst
      rw [assignThreadTo_ready hst']
      exact ⟨_, rfl, by cases remote <;> exact .placed hidle hfind hst rfl rfl rfl⟩
    simp only [Option.map_some, Option.bind_eq_bind]
    have hst' : ({ p with ready := p.ready.eraseP (allows p.threads h) }.threads t).state =
        .exited := hst
    rw [assignThreadTo_exited hst']
    exact ⟨_, rfl, by cases remote <;> exact .dropped hidle hfind hst rfl rfl rfl⟩

/-- A hart's slot changes only in its own turn. -/
theorem Turn.current_ne (turn : Turn p h out) {h' : Nat} (hne : h' ≠ h) :
    out.current h' = p.current h' := by
  cases turn with
  | busy _ | unmatched _ _ => rfl
  | placed _ _ _ _ _ hcurrent => rw [hcurrent, update_of_ne hne]
  | dropped _ _ _ _ _ hcurrent => rw [hcurrent]

theorem Turn.current_busy (turn : Turn p h out) {h' : Nat} (hbusy : p.isBusy h' = true) :
    out.current h' = p.current h' := by
  cases turn with
  | busy _ | unmatched _ _ => rfl
  | placed hidle _ _ _ _ hcurrent =>
    have hne : h' ≠ h := by
      rintro rfl
      simp [hbusy] at hidle
    rw [hcurrent, update_of_ne hne]
  | dropped _ _ _ _ _ hcurrent => rw [hcurrent]

/-- Taking the first entry that fits out of a list. -/
theorem perm_eraseP {q : List Tid} (hfind : q.find? fits = some t) :
    q.Perm (t :: q.eraseP fits) := by
  induction q with
  | nil => cases hfind
  | cons x rest ih =>
    by_cases hx : fits x = true
    · obtain rfl : x = t := by simpa [hx] using hfind
      simp [hx]
    rw [List.find?_cons_of_neg hx] at hfind
    rw [List.eraseP_cons_of_neg hx]
    exact ((ih hfind).cons x).trans (List.Perm.swap t x _)

theorem Served.refl (p : Pass) : Served p [] p where
  sublist := List.Sublist.refl _
  untouched _ _ := rfl
  affinity _ := rfl
  others _ _ := rfl
  busy _ _ := rfl
  places := by
    refine ⟨[], [], by simp, List.nodup_nil, ?_, by simp, by simp⟩
    intro h t
    simp only [List.not_mem_nil, isBusy, false_iff, not_and]
    intro hidle hcur
    simp [hcur] at hidle

theorem Served.queued (served : Served p harts mid) (queue : Queued p) : Queued mid where
  nodup := served.sublist.nodup queue.nodup
  states t ht := by
    rw [served.untouched t ht]
    exact queue.states t (served.sublist.subset ht)

/-- An entry that has been popped is not queued any more. -/
theorem ne_of_mem_eraseP {q : List Tid} (hnd : q.Nodup)
    (hfind : q.find? fits = some t) {u : Tid} (hu : u ∈ q.eraseP fits) : u ≠ t := by
  rintro rfl
  have := (perm_eraseP hfind).nodup_iff.mp hnd
  exact (List.nodup_cons.mp this).1 hu

/-- Taking one thread out of the queue and changing it leaves the other entries alone. -/
theorem Served.popped (served : Served p harts mid) (queue : Queued p)
    {th : Thread} (hfind : mid.ready.find? fits = some t)
    (hqueue : out.ready = mid.ready.eraseP fits)
    (hthreads : out.threads = update mid.threads t th)
    (hth : th.affinity = (mid.threads t).affinity) :
    out.ready.Sublist p.ready ∧ (∀ u ∈ out.ready, out.threads u = p.threads u) ∧
      ∀ u, (out.threads u).affinity = (p.threads u).affinity := by
  refine ⟨?_, ?_, ?_⟩
  · rw [hqueue]
    exact List.eraseP_sublist.trans served.sublist
  · intro u hu
    rw [hqueue] at hu
    rw [hthreads, update_of_ne (ne_of_mem_eraseP (served.queued queue).nodup hfind hu)]
    exact served.untouched u (List.mem_of_mem_eraseP hu)
  intro u
  rw [hthreads]
  by_cases hu : u = t
  · subst hu
    rw [update_self, hth, served.affinity]
  · rw [update_of_ne hu, served.affinity]

/-- Where the threads are after a turn that places one. -/
theorem Served.places_placed (served : Served p harts mid) (hslot : mid.current h = p.current h)
    (hidle : mid.isBusy h = false) (hfind : mid.ready.find? (allows mid.threads h) = some t)
    (hst : (mid.threads t).state = .ready)
    (hthreads : out.threads = update mid.threads t
      { mid.threads t with ticks := (mid.threads t).ticks + 1, state := .assigned })
    (hqueue : out.ready = mid.ready.eraseP (allows mid.threads h))
    (hcurrent : out.current = update mid.current h (some t)) :
    ∃ (placed : List (Nat × Tid)) (dropped : List Tid),
      p.ready.Perm (out.ready ++ (placed.map Prod.snd ++ dropped)) ∧
      (placed.map Prod.fst).Nodup ∧
      (∀ h t, (h, t) ∈ placed ↔ p.isBusy h = false ∧ out.current h = some t) ∧
      (∀ t ∈ placed.map Prod.snd,
        (p.threads t).state = .ready ∧ (out.threads t).state = .assigned) ∧
      ∀ t ∈ dropped, (p.threads t).state = .exited := by
  obtain ⟨placed, dropped, hperm, hnd, hplaced, hready, hdropped⟩ := served.places
  have hmem := List.mem_of_find?_eq_some hfind
  have hidle' : p.isBusy h = false := by rwa [isBusy, ← hslot]
  have hfree : ∀ u, (h, u) ∉ placed := by
    intro u hu
    have := ((hplaced h u).mp hu).2
    simp [isBusy, this] at hidle
  refine ⟨(h, t) :: placed, dropped, ?_, ?_, ?_, ?_, hdropped⟩
  · rw [hqueue]
    refine hperm.trans (((perm_eraseP hfind).append_right _).trans ?_)
    simp only [List.cons_append, List.map_cons]
    exact List.perm_middle.symm
  · refine List.nodup_cons.mpr ⟨?_, hnd⟩
    intro hmem'
    obtain ⟨⟨h', u⟩, hu, rfl⟩ := List.mem_map.mp hmem'
    exact hfree u hu
  · intro h' u
    by_cases hh' : h' = h
    · subst hh'
      simp [hfree, hidle', hcurrent, eq_comm]
    · rw [hcurrent, update_of_ne hh']
      simp [hh', hplaced]
  intro u hu
  rcases List.mem_cons.mp hu with rfl | hold
  · refine ⟨?_, by simp [hthreads]⟩
    rwa [← served.untouched _ hmem]
  have hut : u ≠ t := by
    rintro rfl
    have hmid := (hready u hold).2
    rw [hst] at hmid
    cases hmid
  rw [hthreads, update_of_ne hut]
  exact hready u hold

/-- One more turn. The hart has had none before, so its slot is as the pass found it. -/
theorem Served.turn (served : Served p harts mid) (queue : Queued p) (hh : h ∉ harts)
    (turn : Turn mid h out) : Served p (harts ++ [h]) out := by
  have hothers : ∀ h', h' ∉ harts ++ [h] → out.current h' = p.current h' := by
    intro h' hh'
    simp only [List.mem_append, List.mem_singleton, not_or] at hh'
    rw [turn.current_ne hh'.2, served.others h' hh'.1]
  have hbusy : ∀ h', p.isBusy h' = true → out.current h' = p.current h' := by
    intro h' hb
    have hmid := served.busy h' hb
    rw [turn.current_busy (by rw [isBusy, hmid]; exact hb), hmid]
  cases turn with
  | busy _ | unmatched _ _ =>
    exact { served with others := hothers, busy := hbusy }
  | @placed t _ hidle hfind hst hthreads hqueue hcurrent =>
    obtain ⟨hsub, hkeep, haff⟩ := served.popped queue hfind hqueue hthreads rfl
    exact ⟨hsub, hkeep, haff, hothers, hbusy,
      served.places_placed (served.others h hh) hidle hfind hst hthreads hqueue hcurrent⟩
  | @dropped t _ hidle hfind hst hthreads hqueue hcurrent =>
    have hmem := List.mem_of_find?_eq_some hfind
    obtain ⟨hsub, hkeep, haff⟩ := served.popped queue hfind hqueue hthreads rfl
    obtain ⟨placed, dropped, hperm, hnd, hplaced, hready, hdropped⟩ := served.places
    refine ⟨hsub, hkeep, haff, hothers, hbusy, placed, t :: dropped, ?_, hnd, ?_, ?_, ?_⟩
    · rw [hqueue]
      refine hperm.trans (((perm_eraseP hfind).append_right _).trans ?_)
      rw [← List.append_assoc, ← List.append_assoc]
      exact List.perm_middle.symm
    · rw [hcurrent]
      exact hplaced
    · intro u hu
      have hut : u ≠ t := by
        rintro rfl
        rw [served.untouched u hmem, (hready u hu).1] at hst
        cases hst
      rw [hthreads, update_of_ne hut]
      exact hready u hu
    intro u hu
    rcases List.mem_cons.mp hu with rfl | hu
    · rwa [← served.untouched _ hmem]
    · exact hdropped u hu

theorem foldlM_concat (remote : Bool) (harts : List Nat) (h : Nat) (p : Pass) :
    (harts ++ [h]).foldlM (assignHart remote) p =
      (harts.foldlM (assignHart remote) p).bind fun mid => assignHart remote mid h := by
  simp [List.foldlM_append, Option.bind_eq_bind]

/-- The loop over the remotes. -/
theorem Queued.remotes (queue : Queued p) (hharts : harts.Nodup) :
    ∃ mid, harts.foldlM (assignHart true) p = some mid ∧ Served p harts mid := by
  induction harts using List.reverseRecOn with
  | nil => exact ⟨p, rfl, Served.refl p⟩
  | append_singleton harts h ih =>
    obtain ⟨hnd, _, hdisj⟩ := List.nodup_append.mp hharts
    obtain ⟨mid, hrun, served⟩ := ih hnd
    obtain ⟨out, hout, turn⟩ := (served.queued queue).turn true h
    have hh : h ∉ harts := fun hmem => hdisj h hmem h (List.mem_singleton_self h) rfl
    refine ⟨out, ?_, served.turn queue hh turn⟩
    rw [foldlM_concat, hrun]
    exact hout

/-- Later turns leave the slot of an earlier hart alone. -/
theorem Queued.later (queue : Queued p) {pre post : List Nat} (hharts : (pre ++ post).Nodup)
    (hpre : pre.foldlM (assignHart true) p = some mid)
    (hrun : (pre ++ post).foldlM (assignHart true) p = some out) (hh : h ∈ pre) :
    out.current h = mid.current h := by
  induction post using List.reverseRecOn generalizing out with
  | nil =>
    rw [List.append_nil, hpre, Option.some.injEq] at hrun
    rw [hrun]
  | append_singleton post h' ih =>
    rw [← List.append_assoc] at hharts hrun
    obtain ⟨hnd, _, hdisj⟩ := List.nodup_append.mp hharts
    obtain ⟨mid', hrun', served'⟩ := queue.remotes hnd
    rw [foldlM_concat, hrun'] at hrun
    obtain ⟨out', hout', turn⟩ := (served'.queued queue).turn true h'
    obtain rfl : out' = out := Option.some.inj (hout'.symm.trans hrun)
    have hne : h ≠ h' :=
      hdisj h (List.mem_append_left _ hh) h' (List.mem_singleton_self h')
    rw [turn.current_ne hne]
    exact ih hnd hrun'

end Pass

open Pass

end Orbit.Sched
