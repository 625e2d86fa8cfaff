import Orbit.Paging.Leftover

/-!
Memory that is neither a table nor a frame a table may yet be made of. Mapping pages in a tree
writes nothing there, and leaves it outside the larger tree.
-/

namespace Paging

/-- `a` lies in no table of the tree and in no frame of the pool new tables come from. -/
def Outside (pages : FrameAllocator) (own : Nat → Option (Nat × Nat)) (a : Nat) : Prop :=
  (∀ t x, own t = some x → ¬ Within t pageSize a) ∧ ¬ pages.Free a

/-- The tree is still one, and everything outside it is as it was. -/
structure Kept (root : Nat) (m m' : Mmu) (own own' : Nat → Option (Nat × Nat)) : Prop where
  tree : Tree 0 m'.ram root own'
  spare : Spare m'.pages own'
  outside : ∀ a, Outside m.pages own a → Outside m'.pages own' a ∧ m'.ram.byte a = m.ram.byte a

theorem Kept.trans {root : Nat} {m m' m'' : Mmu} {own own' own'' : Nat → Option (Nat × Nat)}
    (h : Kept root m m' own own') (h' : Kept root m' m'' own' own'') :
    Kept root m m'' own own'' := by
  refine ⟨h'.tree, h'.spare, fun a ha => ?_⟩
  obtain ⟨hmid, hbyte⟩ := h.outside a ha
  obtain ⟨hout, hbyte'⟩ := h'.outside a hmid
  exact ⟨hout, hbyte'.trans hbyte⟩

theorem Grown.kept {root : Nat} {m m' : Mmu} {own own' : Nat → Option (Nat × Nat)}
    (grown : Grown 0 root m m' own own') : Kept root m m' own own' := by
  refine ⟨grown.tree, grown.spare, fun a ha => ?_⟩
  have htables : ∀ t x, own' t = some x → ¬ Within t pageSize a := by
    intro t x ht hin
    rcases grown.origin t x ht with hold | hfree
    · exact ha.1 t x hold hin
    · exact ha.2 (hfree a hin)
  exact ⟨⟨htables, fun hfree => ha.2 (grown.shrinks a hfree)⟩, grown.bytes a htables⟩

/-- Writing an entry of the last level. -/
theorem Kept.setEntry {root t s i e : Nat} {m : Mmu} {own : Nat → Option (Nat × Nat)}
    (tree : Tree 0 m.ram root own) (spare : Spare m.pages own) (ht : own t = some (0, s))
    (hi : i < 512)
    (he : e < 2 ^ 64) : Kept root m { m with ram := m.ram.setEntry t i e } own own := by
  refine ⟨tree.set ht hi he fun h => absurd h (Nat.lt_irrefl 0), spare, fun a ha => ⟨ha, ?_⟩⟩
  apply Ram.sameOutside_setWord
  exact fun hin => ha.1 t _ ht (within_entry hi hin)

/-- Only the low 48 bits of an address are translated. -/
theorem Tree.leafAt_some_mod {r : Ram} {root va va' : Nat} {own : Nat → Option (Nat × Nat)}
    {x : Nat × Nat} (tree : Tree 0 r root own) (h : va % vaSpace = va' % vaSpace)
    (hleaf : r.leafAt root va = some x) : r.leafAt root va' = some x := by
  obtain ⟨l, e⟩ := x
  have hl : l ≤ 3 := (tree.leafAt_eq_some.mp hleaf).1
  have hsame : vslot l va = vslot l va' := by
    have : l = 0 ∨ l = 1 ∨ l = 2 ∨ l = 3 := by omega
    clear hleaf
    rcases this with rfl | rfl | rfl | rfl <;>
      simp only [vslot, pageBytes, pageSize, vaSpace] at * <;> omega
  exact tree.leafAt_va hl hsame hleaf

section Page

variable {root n installed : Nat} {m m' : Mmu} {own : Nat → Option (Nat × Nat)}
  {config : MappingConfig}

/-- Mapping one 4 KiB page. Permissions that make no leaf give no address a translation. -/
theorem Tree.mapAddressPage_kept (tree : Tree 0 m.ram root own) (spare : Spare m.pages own)
    (hlevel : 4 - config.levels = 0) (hpa : config.paddr < 2 ^ 64) {ok : Bool}
    (hrun : m.mapAddressPage root config = (ok, m')) :
    ∃ own', Kept root m m' own own' ∧ (Pte.isLeaf config.permissions = false →
      ∀ va, m'.ram.leafAt root va = m.ram.leafAt root va) := by
  obtain ⟨m1, own1, grown, hfail, hdone⟩ :=
    tree.mapAddressPage spare hlevel (Nat.le_refl 0) (Nat.zero_le 3) hrun
  have hsame := grown.leafAt tree
  cases ok with
  | false =>
    obtain rfl := hfail rfl
    exact ⟨own1, grown.kept, fun _ => hsame⟩
  | true =>
    obtain ⟨t, hwalk, hinvalid, rfl⟩ := hdone rfl
    have hown := grown.tree.walkDown_own (Nat.le_refl 3) hwalk
    have hlt : config.leaf < 2 ^ 64 := MappingConfig.leaf_lt hpa
    refine ⟨own1, grown.kept.trans (.setEntry grown.tree grown.spare hown (vpn_lt _ _) hlt), ?_⟩
    intro hperm va
    have hleaf : Pte.isLeaf config.leaf = false :=
      (Pte.packLeaf_spec _ config.permissions _).2.1.trans hperm
    rw [← hsame]
    exact grown.tree.leafAt_set_last hwalk hinvalid hlt hleaf va

theorem Tree.mapPages_kept (tree : Tree 0 m.ram root own) (spare : Spare m.pages own)
    (hlevel : 4 - config.levels = 0) (hpa : ∀ j < n, (config.page j).paddr < 2 ^ 64)
    (hrun : Mmu.mapPages root n config m = (installed, m')) :
    ∃ own', Kept root m m' own own' ∧ (Pte.isLeaf config.permissions = false →
      ∀ va, m'.ram.leafAt root va = m.ram.leafAt root va) := by
  induction n generalizing m m' own config installed with
  | zero =>
    cases hrun
    exact ⟨own, ⟨tree, spare, fun a ha => ⟨ha, rfl⟩⟩, fun _ _ => rfl⟩
  | succ n ih =>
    have hfirst : config.paddr < 2 ^ 64 := by
      have hzero := hpa 0 (Nat.succ_pos n)
      rwa [MappingConfig.page_zero] at hzero
    rw [Mmu.mapPages] at hrun
    cases hmap : m.mapAddressPage root config with
    | mk ok m1 =>
      obtain ⟨own1, kept, hleaves⟩ := tree.mapAddressPage_kept spare hlevel hfirst hmap
      rw [hmap] at hrun
      cases ok with
      | false =>
        cases hrun
        exact ⟨own1, kept, hleaves⟩
      | true =>
        dsimp only at hrun
        cases hrun
        have hrest := config.next_paddr hpa
        have hnext : 4 - config.next.levels = 0 := hlevel
        obtain ⟨own2, kept2, hleaves2⟩ := ih kept.tree kept.spare hnext hrest rfl
        exact ⟨own2, kept.trans kept2, fun hperm va =>
          (hleaves2 hperm va).trans (hleaves hperm va)⟩

end Page

end Paging
