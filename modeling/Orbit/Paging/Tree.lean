import Orbit.Paging.Tables

/-!
One page table as a tree. `own` gives each page that holds a table its depth and the
number, among all entries of the depth above, of the entry that leads to it. Since a page
has one such name, two walks that meet in a page come the same way, and a write to one
entry of one table changes the walks through that entry and no other.

What an address translates to is the leaf its walk ends at. The lemmas here say, for each
of the two writes the mapping code makes, which addresses get another leaf: none when an
empty entry gets a table of zeros, and those of the entry when it is set to anything but a
pointer.

The pointers of tables at depth `low` and below are left open, so that the walks above can
be followed even where an entry that is no leaf has been put in the place of one.
-/

namespace Paging

open Pte Ram

variable {d va' : Nat} {x : Nat × Nat}

/-- The leaf that the walk for `va` ends at, with its depth. -/
def Ram.leafAt (r : Ram) (root va : Nat) : Option (Nat × Nat) :=
  let terminal := r.walkPteChain va 3 root
  if isValid terminal.2 && isLeaf terminal.2 then some terminal else none

theorem Ram.virtToPhys_eq (r : Ram) (root va : Nat) : r.virtToPhys root va =
    (r.leafAt root va).map fun leaf => ppn leaf.2 * pageSize + va % pageBytes leaf.1 := by
  unfold virtToPhys leafAt
  dsimp only
  cases isValid (r.walkPteChain va 3 root).2 <;>
    cases isLeaf (r.walkPteChain va 3 root).2 <;> rfl

/-! Numbers of entries. -/

/-- Addresses of one entry go through the same entries above it. -/
theorem vslot_up {l va va' : Nat} (h : vslot l va = vslot l va') (hl : l < 4) :
    vslot (l + 1) va = vslot (l + 1) va' ∧ vpn l va = vpn l va' := by
  rw [← vslot_div hl, ← vslot_div hl, ← vslot_mod hl, ← vslot_mod hl, h]
  exact ⟨rfl, rfl⟩

theorem vslot_eq_iff {l va va' : Nat} (hl : l < 4) : vslot l va = vslot l va' ↔
    vslot (l + 1) va = vslot (l + 1) va' ∧ vpn l va = vpn l va' := by
  refine ⟨fun h => vslot_up h hl, fun h => ?_⟩
  rw [vslot_eq hl, vslot_eq hl, h.1, h.2]

/-- The number of the entry at depth `l` for the entry `d` walks down. -/
theorem vslot_step {d va : Nat} (hd : d ≤ 3) :
    vslot (4 - d) va * 512 + vpn (3 - d) va = vslot (4 - (d + 1)) va := by
  have h : vslot (3 - d) va = _ := vslot_eq (by omega)
  rw [show 3 - d + 1 = 4 - d by omega] at h
  rw [show 4 - (d + 1) = 3 - d by omega, h]

/-! The tree. -/

structure Tree (low : Nat) (r : Ram) (root : Nat) (own : Nat → Option (Nat × Nat)) : Prop where
  root : own root = some (3, 0)
  aligned : ∀ t l s, own t = some (l, s) → t % pageSize = 0
  child : ∀ t l s i, own t = some (l, s) → low < l → i < 512 →
    isValid (r.entry t i) = true → isLeaf (r.entry t i) = false →
    r.entry t i < 2 ^ 54 ∧ own (ppn (r.entry t i) * pageSize) = some (l - 1, s * 512 + i)

/-- An empty root table is a tree by itself. -/
def rootOnly (root t : Nat) : Option (Nat × Nat) := if t = root then some (3, 0) else none

theorem eq_of_rootOnly {root t : Nat} (h : rootOnly root t = some x) : t = root := by
  unfold rootOnly at h
  split at h
  · assumption
  · cases h

theorem Tree.rootOnly {low : Nat} {r : Ram} {root : Nat} (haligned : root % pageSize = 0)
    (hempty : ∀ i < 512, r.entry root i = 0) : Tree low r root (rootOnly root) := by
  refine ⟨if_pos rfl, fun t l s ht => ?_, fun t l s i ht _ hi hvalid => ?_⟩
  · rw [eq_of_rootOnly ht]
    exact haligned
  · rw [eq_of_rootOnly ht, hempty i hi] at hvalid
    cases hvalid

/-- A well-formed four-level table. -/
def WellFormed (r : Ram) (root : Nat) : Prop := ∃ own, Tree 0 r root own

/-- The pool that tables are taken from has none of the tree's pages. -/
structure Spare (pages : FrameAllocator) (own : Nat → Option (Nat × Nat)) : Prop where
  wf : pages.Wf
  apart : ∀ t l s, own t = some (l, s) → ∀ a, Within t pageSize a → ¬ pages.Free a

/-- A well-formed table with a pool to extend it from. -/
def Mmu.WellFormed (m : Mmu) (root : Nat) : Prop := ∃ own, Tree 0 m.ram root own ∧ Spare m.pages own

/-- The walk for `va` finds a leaf at depth `l`. -/
def LeafOf (r : Ram) (root va l e : Nat) : Prop :=
  l ≤ 3 ∧ ∃ t, r.walkDown root va (3 - l) = some t ∧ r.entry t (vpn l va) = e ∧
    isValid e = true ∧ isLeaf e = true

/-- One step of a walk. -/
theorem Ram.walkDown_succ {r : Ram} {root va d t : Nat} :
    r.walkDown root va (d + 1) = some t ↔ ∃ parent, r.walkDown root va d = some parent ∧
      isValid (r.entry parent (vpn (3 - d) va)) = true ∧
      isLeaf (r.entry parent (vpn (3 - d) va)) = false ∧
      ppn (r.entry parent (vpn (3 - d) va)) * pageSize = t := by
  simp only [walkDown]
  cases r.walkDown root va d with
  | none => simp
  | some parent =>
    cases hvalid : isValid (r.entry parent (vpn (3 - d) va)) <;>
      cases hleaf : isLeaf (r.entry parent (vpn (3 - d) va)) <;> simp [hvalid, hleaf]

/-- A walk goes the same way for all addresses of the entry it ends below. -/
theorem Ram.walkDown_va (r : Ram) (root : Nat) {va va' d : Nat} (hd : d ≤ 3)
    (h : vslot (4 - d) va = vslot (4 - d) va') : r.walkDown root va d = r.walkDown root va' d := by
  induction d with
  | zero => rfl
  | succ d ih =>
    rw [show 4 - (d + 1) = 3 - d by omega] at h
    obtain ⟨hup, hidx⟩ := vslot_up h (by omega)
    rw [show 3 - d + 1 = 4 - d by omega] at hup
    simp only [walkDown, ih (by omega) hup, hidx]

/-- A walk that gets further has come through every table on its way. -/
theorem Ram.walkDown_prev {r : Ram} {root va d d' t : Nat} (hle : d ≤ d')
    (h : r.walkDown root va d' = some t) : ∃ t', r.walkDown root va d = some t' := by
  induction d', hle using Nat.le_induction generalizing t with
  | base => exact ⟨t, h⟩
  | succ d' _ ih =>
    obtain ⟨parent, hparent, -⟩ := walkDown_succ.mp h
    exact ih hparent

namespace Tree

variable {low : Nat} {r r' : Ram} {root va t : Nat} {own : Nat → Option (Nat × Nat)}

theorem mono {low' : Nat} (tree : Tree low r root own) (hle : low ≤ low') : Tree low' r root own :=
  { tree with child := fun t l s i ht hl => tree.child t l s i ht (Nat.lt_of_le_of_lt hle hl) }

theorem walkDown_own (tree : Tree low r root own) (hd : d + low ≤ 3)
    (h : r.walkDown root va d = some t) : own t = some (3 - d, vslot (4 - d) va) := by
  induction d generalizing t with
  | zero =>
    cases h
    rw [tree.root, Nat.sub_zero, Nat.sub_zero, vslot_top]
  | succ d ih =>
    obtain ⟨parent, hparent, hvalid, hleaf, rfl⟩ := Ram.walkDown_succ.mp h
    have hown := ih (by omega) hparent
    rw [(tree.child parent _ _ _ hown (by omega) (vpn_lt _ va) hvalid hleaf).2,
      vslot_step (by omega), show 3 - (d + 1) = 3 - d - 1 by omega]

/-- Two memories that agree along a walk give the same walk. -/
theorem walkDown_congr (h : ∀ k t', k < d → r.walkDown root va k = some t' →
      r'.entry t' (vpn (3 - k) va) = r.entry t' (vpn (3 - k) va)) :
    r'.walkDown root va d = r.walkDown root va d := by
  induction d with
  | zero => rfl
  | succ d ih =>
    have hprev := ih fun k t' hk => h k t' (Nat.lt_succ_of_lt hk)
    cases hwalk : r.walkDown root va d with
    | none => simp only [Ram.walkDown, hprev, hwalk]
    | some t' => simp only [Ram.walkDown, hprev, hwalk, h d t' (Nat.lt_succ_self d) hwalk]

/-- The walk of `virt_to_phys`, taken up at a table further down. -/
theorem walkPteChain_eq (tree : Tree 0 r root own) (hd : d ≤ 3)
    (h : r.walkDown root va d = some t) :
    r.walkPteChain va 3 root = r.walkPteChain va (3 - d) t := by
  induction d generalizing t with
  | zero =>
    cases h
    rfl
  | succ d ih =>
    obtain ⟨parent, hparent, hvalid, hleaf, rfl⟩ := Ram.walkDown_succ.mp h
    have hown := tree.walkDown_own (by omega) hparent
    have hsmall := (tree.child parent _ _ _ hown (by omega) (vpn_lt _ va) hvalid hleaf).1
    obtain ⟨k, hk⟩ : ∃ k, 3 - d = k + 1 := ⟨2 - d, by omega⟩
    rw [ih (by omega) hparent, show 3 - (d + 1) = k by omega, hk, walkPteChain]
    rw [hk] at hvalid hleaf hsmall
    simp only [hvalid, hleaf, Bool.not_true, Bool.or_self, Bool.false_eq_true, if_false]
    congr 1
    rw [getPpn_eq hsmall, Nat.shiftLeft_eq, pageSize]
    omega

/-- The walk of `virt_to_phys` ends at an entry that does not lead further. -/
theorem walkPteChain_end (tree : Tree 0 r root own) (va : Nat) : ∃ d t, d ≤ 3 ∧
    r.walkDown root va d = some t ∧
    r.walkPteChain va 3 root = (3 - d, r.entry t (vpn (3 - d) va)) ∧
    (d < 3 → isValid (r.entry t (vpn (3 - d) va)) = false ∨
      isLeaf (r.entry t (vpn (3 - d) va)) = true) := by
  -- the walk from the `d`-th table on, by induction on how far it is from the last
  have hrest : ∀ n d t, d + n = 3 → r.walkDown root va d = some t → ∃ d' t', d' ≤ 3 ∧
      r.walkDown root va d' = some t' ∧
      r.walkPteChain va (3 - d) t = (3 - d', r.entry t' (vpn (3 - d') va)) ∧
      (d' < 3 → isValid (r.entry t' (vpn (3 - d') va)) = false ∨
        isLeaf (r.entry t' (vpn (3 - d') va)) = true) := by
    intro n
    induction n with
    | zero =>
      intro d t hd hwalk
      obtain rfl : d = 3 := by omega
      exact ⟨3, t, Nat.le_refl 3, hwalk, rfl, fun h => absurd h (by decide)⟩
    | succ n ih =>
      intro d t hd hwalk
      obtain ⟨k, hk⟩ : ∃ k, 3 - d = k + 1 := ⟨2 - d, by omega⟩
      by_cases hstop : isValid (r.entry t (vpn (3 - d) va)) = false ∨
          isLeaf (r.entry t (vpn (3 - d) va)) = true
      · refine ⟨d, t, by omega, hwalk, ?_, fun _ => hstop⟩
        rw [hk] at hstop ⊢
        rw [walkPteChain]
        rcases hstop with hno | hno <;> simp [hno]
      rw [not_or, Bool.not_eq_false, Bool.not_eq_true] at hstop
      have hnext := Ram.walkDown_succ.mpr ⟨t, hwalk, hstop.1, hstop.2, rfl⟩
      obtain ⟨d', t', hd', hwalk', heq, hend⟩ := ih (d + 1) _ (by omega) hnext
      refine ⟨d', t', hd', hwalk', ?_, hend⟩
      rw [← heq, ← tree.walkPteChain_eq (by omega) hnext, tree.walkPteChain_eq (by omega) hwalk]
  obtain ⟨d, t, hd, hwalk, heq, hend⟩ := hrest 3 0 root rfl rfl
  exact ⟨d, t, hd, hwalk, heq, hend⟩

/-- Below a leaf there is no table. -/
theorem walkDown_of_leaf {l l' e t' : Nat} (hleaf : LeafOf r root va l e) (hl : l' < l)
    (h : r.walkDown root va (3 - l') = some t') : False := by
  obtain ⟨h3, t, hwalk, rfl, -, hbit⟩ := hleaf
  obtain ⟨next, hnext⟩ := Ram.walkDown_prev (show 3 - l + 1 ≤ 3 - l' by omega) h
  obtain ⟨parent, hparent, -, hno, -⟩ := Ram.walkDown_succ.mp hnext
  obtain rfl : t = parent := Option.some.inj (hwalk.symm.trans hparent)
  rw [show 3 - (3 - l) = l by omega, hbit] at hno
  cases hno

theorem leafAt_eq_some {l e : Nat} (tree : Tree 0 r root own) :
    r.leafAt root va = some (l, e) ↔ LeafOf r root va l e := by
  obtain ⟨d, t, hd, hwalk, heq, hend⟩ := tree.walkPteChain_end va
  have hat : r.leafAt root va = if isValid (r.entry t (vpn (3 - d) va)) &&
      isLeaf (r.entry t (vpn (3 - d) va)) then some (3 - d, r.entry t (vpn (3 - d) va))
        else none := by
    unfold Ram.leafAt
    rw [heq]
  have hwalk' : r.walkDown root va (3 - (3 - d)) = some t := by
    rw [show 3 - (3 - d) = d by omega]
    exact hwalk
  rw [hat]
  constructor
  · intro h
    split at h
    · next hboth =>
      rw [Bool.and_eq_true] at hboth
      obtain ⟨rfl, rfl⟩ := Prod.mk.inj (Option.some.inj h)
      exact ⟨Nat.sub_le 3 d, t, hwalk', rfl, hboth.1, hboth.2⟩
    · cases h
  intro h
  rcases Nat.lt_trichotomy l (3 - d) with hlt | rfl | hgt
  · -- the walk to the leaf would pass the entry this one stops at
    obtain ⟨h3, t', hleafwalk, -⟩ := h
    obtain ⟨next, hnext⟩ := Ram.walkDown_prev (show d + 1 ≤ 3 - l by omega) hleafwalk
    obtain ⟨parent, hparent, hvalid, hno, -⟩ := Ram.walkDown_succ.mp hnext
    obtain rfl : t = parent := Option.some.inj (hwalk.symm.trans hparent)
    rcases hend (by omega) with hinvalid | hbit
    · rw [hinvalid] at hvalid
      cases hvalid
    · rw [hbit] at hno
      cases hno
  · obtain ⟨-, t', hleafwalk, rfl, hvalid, hbit⟩ := h
    obtain rfl : t = t' := Option.some.inj (hwalk'.symm.trans hleafwalk)
    rw [hvalid, hbit]
    rfl
  · exact (walkDown_of_leaf h hgt hwalk').elim

/-- The leaves of two memories compared through their walks. -/
theorem leafAt_congr (tree : Tree 0 r root own) {own' : Nat → Option (Nat × Nat)}
    (tree' : Tree 0 r' root own') (h : ∀ l e, LeafOf r' root va' l e ↔ LeafOf r root va l e) :
    r'.leafAt root va' = r.leafAt root va := by
  apply Option.ext
  rintro ⟨l, e⟩
  rw [tree'.leafAt_eq_some, tree.leafAt_eq_some, h]

/-- All addresses of a leaf have it. -/
theorem leafAt_va (tree : Tree 0 r root own) {va' l e : Nat} (hl : l ≤ 3)
    (hsame : vslot l va = vslot l va') (h : r.leafAt root va = some (l, e)) :
    r.leafAt root va' = some (l, e) := by
  obtain ⟨h3, t, hwalk, hentry, hvalid, hleaf⟩ := tree.leafAt_eq_some.mp h
  obtain ⟨hup, hidx⟩ := vslot_up hsame (by omega)
  have hway : r.walkDown root va (3 - l) = r.walkDown root va' (3 - l) := by
    apply Ram.walkDown_va r root (by omega)
    rwa [show 4 - (3 - l) = l + 1 by omega]
  exact tree.leafAt_eq_some.mpr ⟨h3, t, hway ▸ hwalk, hidx ▸ hentry, hvalid, hleaf⟩

/-! Setting an entry. -/

section Set

variable {l s i e : Nat}

/-- Every other entry of the tree is as it was. -/
theorem entry_set (tree : Tree low r root own) (ht : own t = some (l, s)) (hi : i < 512)
    {t' l' s' i' : Nat} (ht' : own t' = some (l', s')) (hi' : i' < 512)
    (hne : ¬ (t' = t ∧ i' = i)) :
    (r.setEntry t i e).entry t' i' = r.entry t' i' :=
  r.entry_setEntry_ne (tree.aligned t l s ht) (tree.aligned t' l' s' ht') hi hi' hne

/-- An entry is set to something that is not a pointer, or at a depth whose pointers are open. -/
theorem set (tree : Tree low r root own) (ht : own t = some (l, s)) (hi : i < 512) (he : e < 2 ^ 64)
    (hend : low < l → isValid e = true → isLeaf e = true) :
    Tree low (r.setEntry t i e) root own := by
  refine { tree with child := ?_ }
  intro t' l' s' i' ht' hl' hi' hvalid hleaf
  by_cases hsame : t' = t ∧ i' = i
  · obtain ⟨rfl, rfl⟩ := hsame
    obtain ⟨rfl, rfl⟩ := Prod.mk.inj (Option.some.inj (ht.symm.trans ht'))
    rw [entry_setEntry _ _ _ he] at hvalid hleaf
    rw [hend hl' hvalid] at hleaf
    cases hleaf
  · rw [tree.entry_set ht hi ht' hi' hsame] at hvalid hleaf ⊢
    exact tree.child t' l' s' i' ht' hl' hi' hvalid hleaf

/-- Walks to tables no deeper than the one written to. -/
theorem walkDown_set (tree : Tree low r root own) (ht : own t = some (l, s)) (hi : i < 512)
    (hd : d + low ≤ 3) (hdl : d + l ≤ 3) :
    (r.setEntry t i e).walkDown root va' d = r.walkDown root va' d := by
  apply walkDown_congr
  intro k t' hk hwalk
  have hown := tree.walkDown_own (by omega) hwalk
  apply tree.entry_set ht hi hown (vpn_lt _ _)
  rintro ⟨rfl, -⟩
  have := (Prod.mk.inj (Option.some.inj (ht.symm.trans hown))).1
  omega

/-- Walks for addresses of other entries. -/
theorem walkDown_set_ne (tree : Tree low r root own) (ht : own t = some (l, vslot (l + 1) va))
    (hl : l ≤ 3) (hne : vslot l va' ≠ vslot l va) (hd : d + low ≤ 3) :
    (r.setEntry t (vpn l va) e).walkDown root va' d = r.walkDown root va' d ∧
      ∀ t', r.walkDown root va' d = some t' →
        (r.setEntry t (vpn l va) e).entry t' (vpn (3 - d) va') = r.entry t' (vpn (3 - d) va') := by
  have hentry : ∀ k t', k + low ≤ 3 → r.walkDown root va' k = some t' →
      (r.setEntry t (vpn l va) e).entry t' (vpn (3 - k) va') = r.entry t' (vpn (3 - k) va') := by
    intro k t' hk hwalk
    have hown := tree.walkDown_own hk hwalk
    apply tree.entry_set ht (vpn_lt l va) hown (vpn_lt _ _)
    rintro ⟨rfl, hidx⟩
    obtain ⟨hdepth, hnum⟩ := Prod.mk.inj (Option.some.inj (ht.symm.trans hown))
    rw [hdepth] at hne hidx hnum
    rw [show 3 - k + 1 = 4 - k by omega] at hnum
    apply hne
    rw [vslot_eq_iff (by omega), show 3 - k + 1 = 4 - k by omega]
    exact ⟨hnum.symm, hidx⟩
  exact ⟨walkDown_congr fun k t' hk => hentry k t' (by omega), fun t' => hentry d t' hd⟩

/-- The leaf of an address of another entry. -/
theorem leafAt_set_ne (tree : Tree 0 r root own) {own' : Nat → Option (Nat × Nat)}
    (tree' : Tree 0 (r.setEntry t (vpn l va) e) root own') (ht : own t = some (l, vslot (l + 1) va))
    (hl : l ≤ 3) (hne : vslot l va' ≠ vslot l va) :
    (r.setEntry t (vpn l va) e).leafAt root va' = r.leafAt root va' := by
  apply tree.leafAt_congr tree'
  intro l' e'
  unfold LeafOf
  refine and_congr_right fun h3 => exists_congr fun t' => ?_
  obtain ⟨hsame, hentries⟩ := tree.walkDown_set_ne ht hl hne (d := 3 - l') (e := e) (by omega)
  rw [hsame]
  refine and_congr_right fun hleafwalk => ?_
  have := hentries t' hleafwalk
  rw [show 3 - (3 - l') = l' by omega] at this
  rw [this]

/-- The leaf of every address after an entry is set to something that is not a pointer. -/
theorem leafAt_set (tree : Tree 0 r root own) (hl : l ≤ 3)
    (hwalk : r.walkDown root va (3 - l) = some t)
    (he : e < 2 ^ 64) (hend : 0 < l → isValid e = true → isLeaf e = true) (va' : Nat) :
    (r.setEntry t (vpn l va) e).leafAt root va' =
      if vslot l va' = vslot l va then
        if isValid e && isLeaf e then some (l, e) else none
      else r.leafAt root va' := by
  have ht : own t = some (l, vslot (l + 1) va) := by
    have := tree.walkDown_own (by omega) hwalk
    rwa [show 3 - (3 - l) = l by omega, show 4 - (3 - l) = l + 1 by omega] at this
  have tree' := tree.set ht (vpn_lt l va) he hend
  split
  · next hsame =>
    obtain ⟨hup, hidx⟩ := vslot_up hsame (by omega)
    have hwalk' : (r.setEntry t (vpn l va) e).walkDown root va' (3 - l) = some t := by
      rw [tree.walkDown_set ht (vpn_lt l va) (by omega) (by omega), ← hwalk]
      apply Ram.walkDown_va r root (by omega)
      rwa [show 4 - (3 - l) = l + 1 by omega]
    have hentry : (r.setEntry t (vpn l va) e).entry t (vpn l va') = e := by
      rw [hidx, entry_setEntry _ _ _ he]
    apply Option.ext
    rintro ⟨l', e'⟩
    rw [tree'.leafAt_eq_some]
    constructor
    · intro h
      rcases Nat.lt_trichotomy l' l with hlt | rfl | hgt
      · -- a deeper table would hang off the entry just set
        obtain ⟨h3, t', hdeep, -⟩ := h
        obtain ⟨next, hnext⟩ := Ram.walkDown_prev (show 3 - l + 1 ≤ 3 - l' by omega) hdeep
        obtain ⟨parent, hparent, hvalid, hno, -⟩ := Ram.walkDown_succ.mp hnext
        obtain rfl : t = parent := Option.some.inj (hwalk'.symm.trans hparent)
        rw [show 3 - (3 - l) = l by omega, hentry] at hvalid hno
        rw [hend (by omega) hvalid] at hno
        cases hno
      · obtain ⟨-, t', hleafwalk, hleafentry, hvalid, hbit⟩ := h
        obtain rfl : t = t' := Option.some.inj (hwalk'.symm.trans hleafwalk)
        rw [hentry] at hleafentry
        subst hleafentry
        rw [hvalid, hbit]
        rfl
      · exact (walkDown_of_leaf h hgt hwalk').elim
    · intro h
      split at h
      · next hboth =>
        rw [Bool.and_eq_true] at hboth
        obtain ⟨rfl, rfl⟩ := Prod.mk.inj (Option.some.inj h)
        exact ⟨hl, t, hwalk', hentry, hboth.1, hboth.2⟩
      · cases h
  · next hne => exact tree.leafAt_set_ne tree' ht hl hne

end Set

end Tree

/-! Creating tables. -/

/-- What the creation of tables leaves of a tree: every table, walk and entry in use, and the
leaf of every address. A walk that was not there before ends in a new table. -/
structure Grown (low root : Nat) (m m' : Mmu) (own own' : Nat → Option (Nat × Nat)) : Prop where
  tree : Tree low m'.ram root own'
  spare : Spare m'.pages own'
  keeps : ∀ t x, own t = some x → own' t = some x
  walks : ∀ va d t, d + low ≤ 3 → m.ram.walkDown root va d = some t →
    m'.ram.walkDown root va d = some t
  back : ∀ va d t, d + low ≤ 3 → m'.ram.walkDown root va d = some t →
    m.ram.walkDown root va d = some t ∨ own t = none
  entries : ∀ t l s i, own t = some (l, s) → i < 512 →
    (isValid (m.ram.entry t i) = true ∨ isLeaf (m.ram.entry t i) = true) →
    m'.ram.entry t i = m.ram.entry t i
  leaves : ∀ va l e, low ≤ l → (LeafOf m'.ram root va l e ↔ LeafOf m.ram root va l e)
  bytes : ∀ a, (∀ t x, own' t = some x → ¬ Within t pageSize a) → m'.ram.byte a = m.ram.byte a
  origin : ∀ t x, own' t = some x → own t = some x ∨ ∀ a, Within t pageSize a → m.pages.Free a
  shrinks : ∀ a, m'.pages.Free a → m.pages.Free a

namespace Grown

variable {low root : Nat} {m m' m'' : Mmu} {own own' own'' : Nat → Option (Nat × Nat)}

theorem refl (tree : Tree low m.ram root own) (spare : Spare m.pages own) :
    Grown low root m m own own :=
  ⟨tree, spare, fun _ _ h => h, fun _ _ _ _ h => h, fun _ _ _ _ h => .inl h,
    fun _ _ _ _ _ _ _ => rfl, fun _ _ _ _ => Iff.rfl, fun _ _ => rfl, fun _ _ h => .inl h,
    fun _ h => h⟩

theorem trans (h : Grown low root m m' own own') (h' : Grown low root m' m'' own' own'') :
    Grown low root m m'' own own'' := by
  refine ⟨h'.tree, h'.spare, fun t x ht => h'.keeps t x (h.keeps t x ht),
    fun va d t hd hw => h'.walks va d t hd (h.walks va d t hd hw), ?_, ?_, ?_, ?_, ?_,
    fun a hfree => h.shrinks a (h'.shrinks a hfree)⟩
  · intro va d t hd hw
    rcases h'.back va d t hd hw with hw | hnew
    · exact h.back va d t hd hw
    cases hold : own t with
    | none => exact .inr rfl
    | some x => exact nomatch hnew.symm.trans (h.keeps t x hold)
  · intro t l s i ht hi hused
    have hfirst := h.entries t l s i ht hi hused
    rw [← hfirst] at hused ⊢
    exact h'.entries t l s i (h.keeps t _ ht) hi hused
  · intro va l e hl
    rw [h'.leaves va l e hl, h.leaves va l e hl]
  · intro a hout
    rw [h'.bytes a hout, h.bytes a fun t x ht => hout t x (h'.keeps t x ht)]
  intro t x ht
  rcases h'.origin t x ht with hold | hfree
  · exact h.origin t x hold
  · exact .inr fun a ha => h.shrinks a (hfree a ha)

theorem leafAt (h : Grown 0 root m m' own own') (tree : Tree 0 m.ram root own) (va : Nat) :
    m'.ram.leafAt root va = m.ram.leafAt root va :=
  tree.leafAt_congr h.tree fun l e => h.leaves va l e (Nat.zero_le l)

end Grown

/-- The entry `i` of the table `t`, which was not valid, points to `pa` now: a page of zeros that
was no table of the tree. The other entries of the tree are as they were. -/
structure Hung (r r' : Ram) (own : Nat → Option (Nat × Nat)) (t i pa : Nat) : Prop where
  fresh : own pa = none
  aligned : pa % pageSize = 0
  empty : isValid (r.entry t i) = false
  points : PointsTo (r'.entry t i) pa
  zero : ∀ i' < 512, r'.entry pa i' = 0
  old : ∀ t' x i', own t' = some x → i' < 512 → ¬ (t' = t ∧ i' = i) → r'.entry t' i' = r.entry t' i'

namespace Hung

variable {low root t i pa : Nat} {r r' : Ram} {own : Nat → Option (Nat × Nat)}

variable (h : Hung r r' own t i pa)

include h

theorem ne {t' : Nat} (ht' : own t' = some x) : t' ≠ pa := by
  rintro rfl
  exact nomatch h.fresh.symm.trans ht'

/-- No walk goes through the entry that was not valid. -/
theorem used {t' i' : Nat} (ht' : own t' = some x)
    (hi' : i' < 512) (hv : isValid (r.entry t' i') = true) : r'.entry t' i' = r.entry t' i' := by
  apply h.old t' x i' ht' hi'
  rintro ⟨rfl, rfl⟩
  exact nomatch h.empty.symm.trans hv

theorem tree (tree : Tree low r root own) {l s : Nat}
    (ht : own t = some (l, s)) :
    Tree low r' root (fun x => if x = pa then some (l - 1, s * 512 + i) else own x) := by
  refine ⟨?_, ?_, ?_⟩
  · rw [if_neg (h.ne tree.root)]
    exact tree.root
  · intro t' l' s' ht'
    split at ht'
    · next hp => rw [hp]; exact h.aligned
    · exact tree.aligned t' l' s' ht'
  intro t' l' s' i' ht' hl' hi' hv hb
  split at ht'
  · next hp =>
    rw [hp, h.zero i' hi'] at hv
    cases hv
  by_cases hsame : t' = t ∧ i' = i
  · obtain ⟨rfl, rfl⟩ := hsame
    obtain ⟨rfl, rfl⟩ := Prod.mk.inj (Option.some.inj (ht.symm.trans ht'))
    obtain ⟨-, -, hsmall, hto⟩ := h.points
    rw [hto, if_pos rfl]
    exact ⟨hsmall, rfl⟩
  rw [h.old t' _ i' ht' hi' hsame] at hv hb ⊢
  obtain ⟨hsmall, hchild⟩ := tree.child t' l' s' i' ht' hl' hi' hv hb
  rw [if_neg (h.ne hchild)]
  exact ⟨hsmall, hchild⟩

theorem walks (tree : Tree low r root own) {va d t' : Nat}
    (hd : d + low ≤ 3) (hw : r.walkDown root va d = some t') : r'.walkDown root va d = some t' := by
  induction d generalizing t' with
  | zero => exact hw
  | succ d ih =>
    obtain ⟨parent, hparent, hv, hb, rfl⟩ := Ram.walkDown_succ.mp hw
    have hown := tree.walkDown_own (by omega) hparent
    refine Ram.walkDown_succ.mpr ⟨parent, ih (by omega) hparent, ?_⟩
    rw [h.used hown (vpn_lt (3 - d) va) hv]
    exact ⟨hv, hb, rfl⟩

/-- A walk that is new ends in the new table. -/
theorem back (tree : Tree low r root own) {va d t' : Nat}
    (hd : d + low ≤ 3) (hw : r'.walkDown root va d = some t') :
    r.walkDown root va d = some t' ∨ t' = pa := by
  induction d generalizing t' with
  | zero => exact .inl hw
  | succ d ih =>
    obtain ⟨parent, hparent, hv, hb, rfl⟩ := Ram.walkDown_succ.mp hw
    rcases ih (by omega) hparent with hwas | rfl
    · have hown := tree.walkDown_own (by omega) hwas
      by_cases hsame : parent = t ∧ vpn (3 - d) va = i
      · obtain ⟨rfl, rfl⟩ := hsame
        exact .inr h.points.2.2.2
      · rw [h.old parent _ _ hown (vpn_lt _ va) hsame] at hv hb ⊢
        exact .inl (Ram.walkDown_succ.mpr ⟨parent, hwas, hv, hb, rfl⟩)
    · rw [h.zero _ (vpn_lt _ va)] at hv
      cases hv

theorem leafOf (tree : Tree low r root own) {va l e : Nat} (hl : low ≤ l) :
    LeafOf r' root va l e ↔ LeafOf r root va l e := by
  constructor
  · rintro ⟨h3, t', hwalk, rfl, hv, hb⟩
    rcases h.back tree (by omega) hwalk with hwas | rfl
    · have hown := tree.walkDown_own (by omega) hwas
      have hsame : r'.entry t' (vpn l va) = r.entry t' (vpn l va) := by
        apply h.old t' _ _ hown (vpn_lt _ va)
        rintro ⟨rfl, rfl⟩
        exact nomatch h.points.2.1.symm.trans hb
      exact ⟨h3, t', hwas, hsame.symm, hv, hb⟩
    · rw [h.zero _ (vpn_lt _ va)] at hv
      cases hv
  rintro ⟨h3, t', hwalk, rfl, hv, hb⟩
  have hown := tree.walkDown_own (by omega) hwalk
  exact ⟨h3, t', h.walks tree (by omega) hwalk, h.used hown (vpn_lt _ va) hv, hv, hb⟩

end Hung

/-- An entry that is empty gets a table of zeros. -/
theorem Tree.newTable {low root : Nat} {m : Mmu} {own : Nat → Option (Nat × Nat)}
    (tree : Tree low m.ram root own) (spare : Spare m.pages own) {t l s i pa : Nat}
    (ht : own t = some (l, s)) (hi : i < 512)
    (hvalid : isValid (m.ram.entry t i) = false) (hleaf : isLeaf (m.ram.entry t i) = false)
    {pages : FrameAllocator} (halloc : m.pages.allocAligned pageLayout = some (pa, pages)) :
    Grown low root m ⟨(m.ram.fill pa pageSize 0).setEntry t i
        (packTable (pa / pageSize)), pages⟩ own
      (fun x => if x = pa then some (l - 1, s * 512 + i) else own x) := by
  obtain ⟨hwf, hdvd, hend, hwas, hnow⟩ := spare.wf.allocAligned pageLayout_wf halloc
  rw [pageLayout_span] at hdvd hend hwas hnow
  have hpa : pa % pageSize = 0 := Nat.mod_eq_zero_of_dvd hdvd
  have hfirst : Within pa pageSize pa := ⟨Nat.le_refl _, Nat.lt_add_of_pos_right (by decide)⟩
  have hpoints := pointsTo_packTable hpa hend
  -- a page of the tree and the new page have no byte in common
  have hout : ∀ t' x, own t' = some x → ∀ a, Within t' pageSize a → ¬ Within pa pageSize a :=
    fun t' x ht' a ha hin => spare.apart t' x.1 x.2 ht' a ha (hwas a hin)
  have hne : ∀ t' x, own t' = some x → t' ≠ pa := by
    rintro t' x ht' rfl
    exact hout t' x ht' t' hfirst hfirst
  generalize hram : (m.ram.fill pa pageSize 0).setEntry t i
    (packTable (pa / pageSize)) = r'
  have hung : Hung m.ram r' own t i pa := by
    refine ⟨?_, hpa, hvalid, ?_, fun i' hi' => ?_, fun t' x i' ht' hi' hdiff => ?_⟩
    · cases hold : own pa with
      | none => rfl
      | some x => exact absurd rfl (hne pa x hold)
    · rw [← hram, entry_setEntry _ _ _ (Nat.lt_trans hpoints.2.2.1 (by decide))]
      exact hpoints
    · rw [← hram, entry_setEntry_ne _ (tree.aligned t l s ht) hpa hi hi'
        (fun hsame => hne t _ ht hsame.1.symm)]
      exact word_fill_zero fun x hx => within_entry hi' hx
    rw [← hram, entry_setEntry_ne _ (tree.aligned t l s ht) (tree.aligned t' x.1 x.2 ht') hi hi'
      hdiff]
    apply word_congr
    intro a ha
    exact sameOutside_fill _ _ _ _ a (hout t' x ht' a (within_entry hi' ha))
  refine ⟨hung.tree tree ht, ⟨hwf, ?_⟩, ?_, fun va d t' hd hw => hung.walks tree hd hw,
    fun va d t' hd hw => ?_, fun t' l' s' i' ht' hi' huse => ?_,
    fun va l' e hl' => hung.leafOf tree hl', ?_, ?_, fun a hfree => (hnow a hfree).1⟩
  · intro t' l' s' ht' a ha hfree
    obtain ⟨hfree, hin⟩ := hnow a hfree
    split at ht'
    · next hp => exact hin (hp ▸ ha)
    · exact spare.apart t' l' s' ht' a ha hfree
  · intro t' x ht'
    rw [if_neg (hne t' x ht')]
    exact ht'
  · rcases hung.back tree hd hw with hwas | rfl
    · exact .inl hwas
    · exact .inr hung.fresh
  · apply hung.old t' _ i' ht' hi'
    rintro ⟨rfl, rfl⟩
    rw [hvalid, hleaf] at huse
    rcases huse with h | h <;> cases h
  · intro a haway
    have htable : ¬ Within t pageSize a := haway t (l, s) (by rw [if_neg (hne t _ ht)]; exact ht)
    have hpage : ¬ Within pa pageSize a := haway pa _ (if_pos rfl)
    rw [← hram, setEntry, sameOutside_setWord _ _ _ a fun hin => htable (within_entry hi hin)]
    exact sameOutside_fill _ _ _ _ a hpage
  intro t' x ht'
  split at ht'
  · next hp => exact .inr fun a ha => hwas a (hp ▸ ha)
  · exact .inl ht'

/-- A walk that creates what is missing: the tree grows by tables on the way to its address, and if
the walk gets to its end, the walk that creates nothing now ends there too. -/
theorem Tree.materializeDown {low root va : Nat} {m : Mmu} {own : Nat → Option (Nat × Nat)}
    (tree : Tree low m.ram root own) (spare : Spare m.pages own) (hd : d + low ≤ 3)
    {res : Option Nat} {m' : Mmu} (hrun : Mmu.materializeDown root va d m = (res, m')) :
    ∃ own', Grown low root m m' own own' ∧
      (∀ t, res = some t → m'.ram.walkDown root va d = some t) ∧
      ∀ t l s, own' t = some (l, s) → own t = some (l, s) ∨ s = vslot (l + 1) va := by
  induction d generalizing res m' with
  | zero =>
    cases hrun
    exact ⟨own, .refl tree spare, fun t h => h, fun _ _ _ h => .inl h⟩
  | succ d ih =>
    rw [Mmu.materializeDown] at hrun
    cases hprev : Mmu.materializeDown root va d m with
    | mk prev m1 =>
      obtain ⟨own1, grown, hreach, hpath⟩ := ih (by omega) hprev
      rw [hprev] at hrun
      cases prev with
      | none =>
        cases hrun
        exact ⟨own1, grown, nofun, hpath⟩
      | some table =>
        have hwalk := hreach table rfl
        have hown := grown.tree.walkDown_own (by omega) hwalk
        dsimp only at hrun
        cases hleaf : isLeaf (m1.ram.entry table (vpn (3 - d) va)) with
        | true =>
          simp only [hleaf, if_true] at hrun
          cases hrun
          exact ⟨own1, grown, nofun, hpath⟩
        | false =>
          cases hvalid : isValid (m1.ram.entry table (vpn (3 - d) va)) with
          | true =>
            simp only [hleaf, hvalid, Bool.not_true, Bool.false_eq_true, if_false] at hrun
            cases hrun
            refine ⟨own1, grown, ?_, hpath⟩
            rintro t ⟨⟩
            exact Ram.walkDown_succ.mpr ⟨table, hwalk, hvalid, hleaf, rfl⟩
          | false =>
            simp only [hleaf, hvalid, Bool.not_false, Bool.false_eq_true, if_false,
              if_true, Mmu.allocatePageTable] at hrun
            cases halloc : m1.pages.allocAligned pageLayout with
            | none =>
              simp only [halloc] at hrun
              cases hrun
              exact ⟨own1, grown, nofun, hpath⟩
            | some result =>
              obtain ⟨pa, pages⟩ := result
              simp only [halloc] at hrun
              cases hrun
              have more := grown.tree.newTable grown.spare hown (vpn_lt _ va) hvalid hleaf halloc
              have hmore : ∀ t l s, (if t = pa then
                  some (3 - d - 1, vslot (4 - d) va * 512 + vpn (3 - d) va) else own1 t) =
                    some (l, s) → own t = some (l, s) ∨ s = vslot (l + 1) va := by
                intro t l s h
                split at h
                · obtain ⟨rfl, rfl⟩ := Prod.mk.inj (Option.some.inj h)
                  right
                  rw [vslot_step (by omega), show 4 - (d + 1) = 3 - d - 1 + 1 by omega]
                · exact hpath t l s h
              refine ⟨_, grown.trans more, ?_, hmore⟩
              rintro t ⟨⟩
              have hat := more.walks va d table (by omega) hwalk
              obtain ⟨_, hdvd, hend, _⟩ :=
                grown.spare.wf.allocAligned pageLayout_wf halloc
              rw [pageLayout_span] at hdvd hend
              obtain ⟨hpvalid, hpleaf, hpsmall, hpto⟩ :=
                pointsTo_packTable (Nat.mod_eq_zero_of_dvd hdvd) hend
              refine Ram.walkDown_succ.mpr ⟨table, hat, ?_⟩
              dsimp only
              rw [entry_setEntry _ _ _ (Nat.lt_trans hpsmall (by decide))]
              exact ⟨hpvalid, hpleaf, hpto⟩

theorem Tree.walkToTableMaterialize {low root va : Nat} {m : Mmu} {own : Nat → Option (Nat × Nat)}
    (tree : Tree low m.ram root own) (spare : Spare m.pages own) {l : Nat} (hl : low ≤ l)
    (h3 : l ≤ 3)
    {res : Option Nat} {m' : Mmu} (hrun : m.walkToTableMaterialize root va l = (res, m')) :
    ∃ own', Grown low root m m' own own' ∧
      ∀ t, res = some t → m'.ram.walkDown root va (3 - l) = some t := by
  obtain ⟨own', grown, hreach, -⟩ := tree.materializeDown spare (by omega) hrun
  exact ⟨own', grown, hreach⟩

end Paging
