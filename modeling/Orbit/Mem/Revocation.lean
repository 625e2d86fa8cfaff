import Orbit.Mem.Requests
import Orbit.Paging.Unmap
import Orbit.Transition.Run

/-!
Shared regions and their clones. The manager revokes a region page by page while the
network thread clones, uses and drops its own handles; the last clone to go queues the
frame. A walk that fails half way sets the flag all the same, so that a later call
reports success: the region is safe exactly if a walk can only stop where nothing more
is mapped.
-/

namespace Orbit.Mem.Revocation

open Paging Transition

variable {j : Nat} {ram : Ram}

inductive RevokeError where
  | missingIntermediate (va : Nat)
  | notMapped (va : Nat)
  | wrongTag (va tag : Nat)
  deriving DecidableEq, Repr

/-- One turn of `revoke_walk`. -/
def revokePage (ram : Ram) (root va : Nat) : Except RevokeError Ram :=
  match ram.walkToTable root va 0 with
  | none => .error (.missingIntermediate va)
  | some table =>
    let pte := ram.entry table (vpn 0 va)
    if !Pte.isValid pte || !Pte.isLeaf pte then .error (.notMapped va)
    else if Pte.supervisorBits pte ≠ SupervisorTag.sharedRevocable.bits then
      .error (.wrongTag va (Pte.supervisorBits pte))
    else .ok (ram.setEntry table (vpn 0 va) 0)

/-- The walk of the request handlers takes these turns without a break. -/
theorem revokeWalk_succ (ram : Ram) (root n va : Nat) : revokeWalk ram root (n + 1) va =
      match revokePage ram root va with
      | .error _ => (false, ram)
      | .ok ram => revokeWalk ram root n (va + pageSize) := by
  rw [revokeWalk, revokePage]
  cases ram.walkToTable root va 0 with
  | none => rfl
  | some table =>
    dsimp only
    split
    · rfl
    · split <;> rfl

/-- The page has a 4 KiB leaf with the tag of shared mappings. -/
def Revocable (r : Ram) (root va : Nat) : Prop :=
  ∃ e, r.leafAt root va = some (0, e) ∧
    Pte.supervisorBits e = SupervisorTag.sharedRevocable.bits

section Page

variable {r : Ram} {root va : Nat} {own : Nat → Option (Nat × Nat)}

/-- A turn clears a revocable leaf, or finds none and changes nothing. -/
theorem revokePage_spec (tree : Tree 0 r root own) (va : Nat) :
    (Revocable r root va ∧ ∃ r', revokePage r root va = .ok r' ∧ Tree 0 r' root own ∧
      Cleared r r' root (SamePage 0 va)) ∨
    (¬ Revocable r root va ∧ ∃ err, revokePage r root va = .error err) := by
  rcases tree.unmapPage va 4 rfl (Nat.zero_le 3) with
    ⟨e, r', hleaf, hunmap, tree', hcleared⟩ | ⟨hnone, -⟩
  · -- the entry that `unmap_page` clears is the one the tag is read from
    obtain ⟨-, t, hwalk, hentry, hvalid, hisLeaf⟩ := tree.leafAt_eq_some.mp hleaf
    have hto : r.walkToTable root va 0 = some t := hwalk
    unfold revokePage
    unfold Ram.unmapPage at hunmap
    dsimp only at hunmap
    rw [Nat.sub_self, hto] at hunmap
    rw [hto]
    dsimp only at hunmap ⊢
    rw [hentry] at hunmap ⊢
    simp only [hvalid, hisLeaf, Bool.not_true, Bool.or_self, Bool.false_eq_true, if_false,
      Option.some.injEq] at hunmap ⊢
    by_cases htag : Pte.supervisorBits e = SupervisorTag.sharedRevocable.bits
    · rw [if_neg (not_not_intro htag), hunmap]
      exact .inl ⟨⟨e, hleaf, htag⟩, r', rfl, tree', hcleared⟩
    rw [if_pos htag]
    refine .inr ⟨?_, _, rfl⟩
    rintro ⟨e', hleaf', htag'⟩
    obtain ⟨-, rfl⟩ := Prod.mk.inj (Option.some.inj (hleaf.symm.trans hleaf'))
    exact htag htag'
  · refine .inr ⟨fun ⟨e, hleaf, _⟩ => hnone e hleaf, ?_⟩
    unfold revokePage
    cases hto : r.walkToTable root va 0 with
    | none => exact ⟨_, rfl⟩
    | some t =>
      dsimp only
      split
      · exact ⟨_, rfl⟩
      next hboth =>
      simp only [Bool.or_eq_true, Bool.not_eq_true', not_or, Bool.not_eq_false] at hboth
      exact absurd (tree.leafAt_eq_some.mpr ⟨Nat.zero_le 3, t, hto, rfl, hboth.1, hboth.2⟩)
        (hnone _)

end Page

/-- What `SharedUserPtr::new` is given, with the checks it makes; the range lies in the user half
of the address space. -/
structure Region where
  frame : Nat
  layout : Layout
  userVa : Nat
  len : Nat
  aligned : userVa % pageSize = 0
  whole : len % pageSize = 0
  pos : 0 < len
  stop : userVa + len ≤ vaSpace

def Region.pages (region : Region) : Nat := region.len / pageSize

theorem Region.len_eq (region : Region) : region.pages * pageSize = region.len :=
  Nat.div_mul_cancel (Nat.dvd_of_mod_eq_zero region.whole)

inductive Party where
  | manager
  | net
  deriving DecidableEq

/-- Where the manager is in a call of `revoke`. -/
inductive Pc where
  | idle
  | walking (va : Nat)
  /-- the walk has ended and the flag is not stored yet -/
  | storing (res : Option RevokeError)
  deriving DecidableEq, Repr

structure State where
  ram : Ram
  revoked : Bool
  /-- the clones that each party holds -/
  refs : Party → Nat
  pc : Pc
  freeRings : Nat → List FreeItem
  panicked : Bool
  /-- ghost: a call of `revoke` has reported success -/
  succeeded : Bool
  /-- ghost: how often the frame was queued for freeing -/
  queued : Nat

inductive Action where
  | revoke
  /-- a turn of the walk -/
  | turn
  /-- the flag is stored and the call returns -/
  | store
  /-- a clone of `src` goes to `dst` -/
  | clone (src dst : Party)
  | drop (p : Party) (hart : Nat)
  /-- a frame of another region is queued -/
  | push (hart : Nat) (item : FreeItem)
  | drain

variable {a : Action} {p : Party}

namespace State

def strongCount (s : State) : Nat := s.refs .manager + s.refs .net

def ringFull (s : State) (hart : Nat) : Bool := freeRingCap ≤ (s.freeRings hart).length + 1

def enqueue (s : State) (hart : Nat) (item : FreeItem) : State :=
  { s with freeRings := fun h => if h = hart then s.freeRings hart ++ [item] else s.freeRings h }

def setRefs (s : State) (p : Party) (n : Nat) : State :=
  { s with refs := fun q => if q = p then n else s.refs q }

/-- `SharedInner::drop`, when the last clone goes. -/
def dropInner (s : State) (region : Region) (hart : Nat) : State :=
  if s.ringFull hart then { s with panicked := true }
  else { s.enqueue hart ⟨region.frame, region.layout⟩ with queued := s.queued + 1 }

/-- The clones of a party that no call in progress borrows. -/
def free (s : State) (p : Party) : Nat :=
  if p = .manager ∧ s.pc ≠ .idle then s.refs p - 1 else s.refs p

def step (region : Region) (root : Nat) (s : State) (a : Action) : Option State :=
  if s.panicked then none
  else
    match a with
    | .revoke =>
      if s.pc = .idle ∧ 0 < s.refs .manager then
        if s.revoked then some { s with succeeded := true }
        else some { s with pc := .walking region.userVa }
      else none
    | .turn =>
      match s.pc with
      | .walking va =>
        if va < region.userVa + region.len then
          match revokePage s.ram root va with
          | .error e => some { s with pc := .storing (some e) }
          | .ok ram => some { s with ram, pc := .walking (va + pageSize) }
        else some { s with pc := .storing none }
      | _ => none
    | .store =>
      match s.pc with
      | .storing none => some { s with revoked := true, pc := .idle, succeeded := true }
      | .storing (some _) => some { s with revoked := true, pc := .idle }
      | _ => none
    | .clone src dst => if 0 < s.refs src then some (s.setRefs dst (s.refs dst + 1)) else none
    | .drop p hart =>
      if 0 < s.free p then
        let s' := s.setRefs p (s.refs p - 1)
        if s'.strongCount = 0 then some (s'.dropInner region hart) else some s'
      else none
    | .push hart item =>
      if s.ringFull hart then some { s with panicked := true } else some (s.enqueue hart item)
    | .drain => some { s with freeRings := fun _ => [] }

end State

/-- A frame is queued only on a ring that has room. -/
def Room (s : State) : Action → Prop
  | .drop _ hart => s.strongCount = 1 → s.ringFull hart = false
  | .push hart _ => s.ringFull hart = false
  | _ => True

instance (s : State) (a : Action) : Decidable (Room s a) :=
  match a with
  | .drop _ hart => inferInstanceAs (Decidable (s.strongCount = 1 → s.ringFull hart = false))
  | .push hart _ => inferInstanceAs (Decidable (s.ringFull hart = false))
  | .revoke | .turn | .store | .clone .. | .drain => inferInstanceAs (Decidable True)

/-- The region as `SharedUserPtr::new` returns it: one clone, with the manager. -/
def State.new (ram : Ram) (freeRings : Nat → List FreeItem) : State where
  ram := ram
  revoked := false
  refs := fun p => if p = .manager then 1 else 0
  pc := .idle
  freeRings := freeRings
  panicked := false
  succeeded := false
  queued := 0

/-- The pages before `j` were revocable and are cleared; nothing else has changed. -/
structure Walked (region : Region) (root : Nat) (r ram : Ram) (j : Nat) : Prop where
  le : j ≤ region.pages
  revocable : ∀ i < j, Revocable r root (pageAt region.userVa i)
  cleared : Cleared r ram root fun va => ∃ i < j, SamePage 0 (pageAt region.userVa i) va

/-- A walk ends at page `j`. -/
def Stopped (region : Region) (root : Nat) (r : Ram) (j : Nat) : Prop :=
  j = region.pages ∨ ¬ Revocable r root (pageAt region.userVa j)

/-- The flag and the call in progress, when `j` pages are cleared. -/
def At (region : Region) (root : Nat) (r : Ram) (j : Nat) (revoked : Bool) : Pc → Prop
  | .idle => if revoked then Stopped region root r j else j = 0
  | .walking va => revoked = false ∧ va = pageAt region.userVa j
  | .storing _ => revoked = false ∧ Stopped region root r j

/-- How far revocation has come. -/
def Progress (region : Region) (root : Nat) (r : Ram) (own : Nat → Option (Nat × Nat)) (ram : Ram)
    (revoked : Bool) (pc : Pc) : Prop :=
  Tree 0 ram root own ∧ ∃ j, Walked region root r ram j ∧ At region root r j revoked pc

section Step

variable {region : Region} {root : Nat} {r : Ram} {own : Nat → Option (Nat × Nat)} {s s' : State}

theorem Region.lt_stop_iff (region : Region) (j : Nat) :
    pageAt region.userVa j < region.userVa + region.len ↔ j < region.pages := by
  rw [pageAt, ← region.len_eq, Nat.add_lt_add_iff_left]
  exact Nat.mul_lt_mul_right (by decide)

/-- Page `j` has its leaf still when the pages before it are cleared. -/
theorem Walked.revocable_iff (h : Walked region root r ram j) (hj : j < region.pages) :
    Revocable ram root (pageAt region.userVa j) ↔ Revocable r root (pageAt region.userVa j) := by
  have hnew : ¬ ∃ i < j, SamePage 0 (pageAt region.userVa i) (pageAt region.userVa j) := by
    rintro ⟨i, hi, hsame⟩
    have hfits : region.pages * pageSize ≤ vaSpace := by
      rw [region.len_eq]
      exact Nat.le_of_add_left_le region.stop
    exact not_samePage_pageAt region.aligned hfits hi hj hsame
  rw [Revocable, Revocable, (h.cleared.leaves _).2 hnew]

/-- Clearing page `j` brings the walk one page further. -/
theorem Walked.next {ram ram' : Ram} (h : Walked region root r ram j)
    (hj : j < region.pages) (hrev : Revocable r root (pageAt region.userVa j))
    (hclear : Cleared ram ram' root (SamePage 0 (pageAt region.userVa j))) :
    Walked region root r ram' (j + 1) := by
  refine ⟨hj, fun i hi => ?_, fun va => ⟨?_, ?_⟩, fun va d hd => ?_⟩
  · rcases Nat.lt_succ_iff_lt_or_eq.mp hi with hlt | rfl
    · exact h.revocable i hlt
    · exact hrev
  · rintro ⟨i, hi, hsame⟩
    by_cases hhere : SamePage 0 (pageAt region.userVa j) va
    · exact (hclear.leaves va).1 hhere
    rw [(hclear.leaves va).2 hhere]
    rcases Nat.lt_succ_iff_lt_or_eq.mp hi with hlt | rfl
    · exact (h.cleared.leaves va).1 ⟨i, hlt, hsame⟩
    · exact absurd hsame hhere
  · intro hout
    rw [(hclear.leaves va).2 fun hhere => hout ⟨j, Nat.lt_succ_self j, hhere⟩]
    exact (h.cleared.leaves va).2 fun ⟨i, hi, hsame⟩ => hout ⟨i, Nat.lt_succ_of_lt hi, hsame⟩
  · rw [hclear.tables va d hd, h.cleared.tables va d hd]

/-- A turn of the walk. -/
theorem Progress.turn {va : Nat} (h : Progress region root r own ram false (.walking va)) :
    if va < region.userVa + region.len then match revokePage ram root va with
      | .error e => Progress region root r own ram false (.storing (some e))
      | .ok ram' => Progress region root r own ram' false (.walking (va + pageSize))
    else Progress region root r own ram false (.storing none) := by
  obtain ⟨tree, j, hwalked, -, rfl⟩ := h
  split
  · next hlt =>
    have hj := (region.lt_stop_iff j).mp hlt
    rcases revokePage_spec tree (pageAt region.userVa j) with
      ⟨hrev, ram', hok, tree', hclear⟩ | ⟨hnot, e, herr⟩
    · rw [hok]
      refine ⟨tree', j + 1, hwalked.next hj ((hwalked.revocable_iff hj).mp hrev) hclear, rfl, ?_⟩
      rw [pageAt, pageAt, Nat.succ_mul, Nat.add_assoc]
    · rw [herr]
      exact ⟨tree, j, hwalked, rfl, .inr fun hrev => hnot ((hwalked.revocable_iff hj).mpr hrev)⟩
  next hge =>
  refine ⟨tree, j, hwalked, rfl, .inl ?_⟩
  exact Nat.le_antisymm hwalked.le (Nat.le_of_not_lt fun hj => hge ((region.lt_stop_iff j).mpr hj))

end Step

section Run

variable {region : Region} {root : Nat} {r : Ram} {own : Nat → Option (Nat × Nat)}
  {rings : Nat → List FreeItem} {s : State}

/-- The runs of a region from its creation on, with room in the rings. -/
abbrev Runs (region : Region) (root : Nat) (r : Ram) (rings : Nat → List FreeItem) : State → Prop :=
  Reach (State.step region root) Room (· = State.new r rings)

end Run

end Orbit.Mem.Revocation
