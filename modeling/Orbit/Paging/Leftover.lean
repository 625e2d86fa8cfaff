import Orbit.Paging.Unmap

/-!
What a mapping loop leaves behind when it stops. With permissions that make a leaf, the pages
installed before the failure stay translated. With others the walkers take the entry for no
translation at all at the last level, and for a pointer further up, with the frame for its
table: as long as the frame is zeroed, that is one more empty table, and no address gets or
loses a translation.
-/

namespace Paging

open Pte Ram

variable {pages : FrameAllocator} {base : Nat} {ram : Ram}

section Hang

variable {r : Ram} {root va t : Nat} {own : Nat → Option (Nat × Nat)}

variable (tree : Tree 0 r root own)

include tree

theorem Tree.leafAt_eq_none {d : Nat} (hd : d ≤ 3)
    (hwalk : r.walkDown root va d = some t)
    (hinvalid : isValid (r.entry t (vpn (3 - d) va)) = false) : r.leafAt root va = none := by
  unfold leafAt
  rw [tree.walkPteChain_eq hd hwalk]
  generalize 3 - d = l at hinvalid
  cases l <;> simp [walkPteChain, hinvalid]

/-- An entry of the last level that was not valid and becomes no leaf changes no translation. -/
theorem Tree.leafAt_set_last {e : Nat}
    (hwalk : r.walkDown root va 3 = some t) (hinvalid : isValid (r.entry t (vpn 0 va)) = false)
    (he : e < 2 ^ 64) (hleaf : isLeaf e = false) (va' : Nat) :
    (r.setEntry t (vpn 0 va) e).leafAt root va' = r.leafAt root va' := by
  rw [tree.leafAt_set (Nat.zero_le 3) hwalk he (fun h => absurd h (Nat.lt_irrefl 0)), hleaf,
    Bool.and_false]
  split
  · next hslot =>
    obtain ⟨hup, hidx⟩ := vslot_up hslot (by omega)
    have hway : r.walkDown root va' 3 = some t :=
      (walkDown_va r root (by omega) hup).trans hwalk
    symm
    apply tree.leafAt_eq_none (Nat.le_refl 3) hway
    rw [hidx]
    exact hinvalid
  · rfl

/-- An invalid entry gets a pointer to a page of zeros outside the tree. -/
theorem Tree.hang {l pa e : Nat} (hl : l ≤ 3)
    (hwalk : r.walkDown root va (3 - l) = some t)
    (hinvalid : isValid (r.entry t (vpn l va)) = false) (hto : PointsTo e pa)
    (hpa : pa % pageSize = 0) (hfresh : own pa = none) (hzero : ∀ i < 512, r.entry pa i = 0) :
    Tree 0 (r.setEntry t (vpn l va) e) root
        (fun x => if x = pa then some (l - 1, vslot l va) else own x) ∧
      ∀ va', (r.setEntry t (vpn l va) e).leafAt root va' = r.leafAt root va' := by
  have ht : own t = some (l, vslot (l + 1) va) := by
    have := tree.walkDown_own (by omega) hwalk
    rwa [show 3 - (3 - l) = l by omega, show 4 - (3 - l) = l + 1 by omega] at this
  have hslot : vslot (l + 1) va * 512 + vpn l va = vslot l va := by
    have hstep : vslot (4 - (3 - l)) va * 512 + vpn (3 - (3 - l)) va =
        vslot (4 - (3 - l + 1)) va := vslot_step (by omega)
    rwa [show 4 - (3 - l) = l + 1 by omega, show 3 - (3 - l) = l by omega,
      show 4 - (3 - l + 1) = l by omega] at hstep
  have hung : Hung r (r.setEntry t (vpn l va) e) own t (vpn l va) pa := by
    refine ⟨hfresh, hpa, hinvalid, ?_, fun i hi => ?_, fun t' x i' ht' hi' hdiff => ?_⟩
    · rw [r.entry_setEntry _ _ (Nat.lt_trans hto.2.2.1 (by decide))]
      exact hto
    · rw [r.entry_setEntry_ne (tree.aligned t _ _ ht) hpa (vpn_lt l va) hi ?_, hzero i hi]
      rintro ⟨rfl, -⟩
      exact nomatch hfresh.symm.trans ht
    · exact tree.entry_set ht (vpn_lt l va) ht' hi' hdiff
  have tree' := hung.tree tree ht
  rw [hslot] at tree'
  exact ⟨tree', fun va' => tree.leafAt_congr tree' fun l' e' => hung.leafOf tree (Nat.zero_le l')⟩

end Hang

/-- Zeroed bytes that are neither in the tree nor in its pool. -/
structure Blank (ram : Ram) (pages : FrameAllocator) (own : Nat → Option (Nat × Nat))
    (base size : Nat) : Prop where
  zero : ∀ a, Within base size a → ram.byte a = 0
  taken : ∀ a, Within base size a → ¬ pages.Free a
  apart : ∀ a, Within base size a → ∀ t x, own t = some x → ¬ Within t pageSize a

theorem Blank.mono {own : Nat → Option (Nat × Nat)}
    {base size base' size' : Nat} (h : Blank ram pages own base size)
    (hsub : ∀ a, Within base' size' a → Within base size a) : Blank ram pages own base' size' :=
  ⟨fun a ha => h.zero a (hsub a ha), fun a ha => h.taken a (hsub a ha),
    fun a ha => h.apart a (hsub a ha)⟩

theorem Blank.grown {root : Nat} {m m' : Mmu} {own own' : Nat → Option (Nat × Nat)}
    {base size : Nat}
    (h : Blank m.ram m.pages own base size) (grown : Grown 0 root m m' own own') :
    Blank m'.ram m'.pages own' base size := by
  have haway : ∀ a, Within base size a → ∀ t x, own' t = some x → ¬ Within t pageSize a := by
    intro a ha t x ht hin
    rcases grown.origin t x ht with hold | hfree
    · exact h.apart a ha t x hold hin
    · exact h.taken a ha (hfree a hin)
  exact ⟨fun a ha => (grown.bytes a (haway a ha)).trans (h.zero a ha),
    fun a ha hfree => h.taken a ha (grown.shrinks a hfree), haway⟩

theorem Blank.entry {own : Nat → Option (Nat × Nat)}
    (h : Blank ram pages own base pageSize) {i : Nat} (hi : i < 512) : ram.entry base i = 0 := by
  have hfill : (ram.fill base pageSize 0).entry base i = 0 :=
    word_fill_zero fun x hx => within_entry hi hx
  rw [← hfill]
  apply word_congr
  intro x hx
  have hin := within_entry hi hx
  rw [h.zero x hin]
  simp [fill, hin]

section Loop

variable {root l n installed : Nat} {m m' : Mmu} {own : Nat → Option (Nat × Nat)}
  {config : MappingConfig}

/-- What an entry that is no leaf leads to, if it is taken for a pointer. -/
theorem MappingConfig.leaf_pointsTo (hpa : config.paddr % Paging.pageSize = 0)
    (hend : config.paddr < physEnd) (hperm : isLeaf config.permissions = false) :
    PointsTo config.leaf config.paddr := by
  obtain ⟨hvalid, hleaf, -, -, hppn⟩ :=
    packLeaf_spec (config.paddr / Paging.pageSize) config.permissions config.supervisorTag
  refine ⟨hvalid, hleaf.trans hperm, packLeaf_lt ?_, ?_⟩
  · simp only [Paging.pageSize, physEnd] at *
    omega
  · show ppn (packLeaf _ _ _) * _ = _
    rw [hppn, Nat.div_mul_cancel (Nat.dvd_of_mod_eq_zero hpa)]

theorem MappingConfig.page_paddr_lt {pend : Nat} (hsize : config.pageSize = pageBytes l)
    (hend : pend ≤ physEnd) :
    ∀ j < (pend - config.paddr) / pageBytes l, (config.page j).paddr < 2 ^ 64 := by
  intro j hj
  have hle : (j + 1) * pageBytes l ≤ (pend - config.paddr) / pageBytes l * pageBytes l :=
    Nat.mul_le_mul_right _ hj
  have hfits := Nat.div_mul_le_self (pend - config.paddr) (pageBytes l)
  have hpos := pageBytes_pos l
  rw [Nat.succ_mul] at hle
  show config.paddr + j * config.pageSize < 2 ^ 64
  rw [hsize]
  simp only [physEnd] at hend
  omega

variable (tree : Tree 0 m.ram root own)

include tree

variable (spare : Spare m.pages own)

include spare

/-- A page mapped without R, W and X on a zeroed frame changes no translation. -/
theorem Tree.mapAddressPage_hollow
    (hlevel : 4 - config.levels = l) (h3 : l ≤ 3) (hsize : config.pageSize = pageBytes l)
    (hperm : isLeaf config.permissions = false) (hend : config.paddr < physEnd) {len : Nat}
    (hblank : Blank m.ram m.pages own config.paddr (pageBytes l + len)) {ok : Bool}
    (hrun : m.mapAddressPage root config = (ok, m')) :
    ∃ own', Tree 0 m'.ram root own' ∧ Spare m'.pages own' ∧
      (∀ va, m'.ram.leafAt root va = m.ram.leafAt root va) ∧
      (ok = true → Blank m'.ram m'.pages own' (config.paddr + pageBytes l) len) := by
  obtain ⟨m1, own1, grown, hfail, hdone⟩ := tree.mapAddressPage spare hlevel (Nat.zero_le l) h3 hrun
  have hsame := grown.leafAt tree
  cases ok with
  | false =>
    obtain rfl := hfail rfl
    exact ⟨own1, grown.tree, grown.spare, hsame, nofun⟩
  | true =>
    obtain ⟨t, hwalk, hinvalid, rfl⟩ := hdone rfl
    have hblank1 := hblank.grown grown
    have hown := grown.tree.walkDown_own (by omega) hwalk
    have hlt : config.leaf < 2 ^ 64 :=
      MappingConfig.leaf_lt (Nat.lt_trans hend (by decide))
    -- the frames still to come are away from the table that was written
    have hrest : Blank (m1.ram.setEntry t (vpn l config.vaddr) config.leaf) m1.pages own1
        (config.paddr + pageBytes l) len := by
      have hlater : Blank m1.ram m1.pages own1 (config.paddr + pageBytes l) len := by
        refine hblank1.mono fun a ha => ?_
        obtain ⟨hlo, hhi⟩ := ha
        exact ⟨by omega, by omega⟩
      refine { hlater with zero := fun a ha => ?_ }
      rw [← hlater.zero a ha, setEntry]
      apply sameOutside_setWord
      exact fun hin => hlater.apart a ha t _ hown (within_entry (vpn_lt _ _) hin)
    rcases Nat.eq_zero_or_pos l with rfl | hpos
    · refine ⟨own1, grown.tree.set hown (vpn_lt _ _) hlt fun h => absurd h (Nat.lt_irrefl 0),
        grown.spare, fun va => ?_, fun _ => hrest⟩
      have hleaf : isLeaf config.leaf = false :=
        (packLeaf_spec _ config.permissions _).2.1.trans hperm
      rw [← hsame]
      exact grown.tree.leafAt_set_last hwalk hinvalid hlt hleaf va
    have haligned : config.paddr % pageBytes l = 0 := by
      unfold Mmu.mapAddressPage at hrun
      split at hrun
      · cases (Prod.mk.inj hrun).1
      next hboth =>
      rw [not_or, not_not, hsize] at hboth
      exact hboth.1
    have hpage : config.paddr % pageSize = 0 := Nat.mod_eq_zero_of_dvd
      ((pageSize_dvd_pageBytes l).trans (Nat.dvd_of_mod_eq_zero haligned))
    have hle : pageSize ≤ pageBytes l := Nat.le_of_dvd (pageBytes_pos l) (pageSize_dvd_pageBytes l)
    have hfirst : Blank m1.ram m1.pages own1 config.paddr pageSize :=
      hblank1.mono fun a ha => ⟨ha.1, Nat.lt_of_lt_of_le ha.2 (by omega)⟩
    have hself : Within config.paddr pageSize config.paddr :=
      ⟨Nat.le_refl _, Nat.lt_add_of_pos_right (by decide)⟩
    have hfresh : own1 config.paddr = none := by
      cases hold : own1 config.paddr with
      | none => rfl
      | some x => exact absurd hself (hfirst.apart _ hself _ x hold)
    obtain ⟨tree', hleaves⟩ := grown.tree.hang h3 hwalk hinvalid
      (MappingConfig.leaf_pointsTo hpage hend hperm) hpage hfresh fun i hi => hfirst.entry hi
    refine ⟨_, tree', ⟨grown.spare.wf, ?_⟩, fun va => (hleaves va).trans (hsame va), fun _ =>
      ⟨hrest.zero, hrest.taken, ?_⟩⟩
    · intro t' l' s' ht' a ha
      split at ht'
      · next hp => exact hfirst.taken a (hp ▸ ha)
      · exact grown.spare.apart t' l' s' ht' a ha
    intro a ha t' x ht'
    split at ht'
    · next hp =>
      rw [hp]
      exact fun hin => absurd hin.2 (Nat.not_lt_of_le (by have := ha.1; omega))
    · exact hrest.apart a ha t' x ht'

/-- Pages mapped without R, W and X on zeroed frames change no translation. -/
theorem Tree.mapPages_hollow
    (hlevel : 4 - config.levels = l) (h3 : l ≤ 3) (hsize : config.pageSize = pageBytes l)
    (hperm : isLeaf config.permissions = false)
    (hend : config.paddr + n * pageBytes l ≤ physEnd)
    (hblank : Blank m.ram m.pages own config.paddr (n * pageBytes l))
    (hrun : Mmu.mapPages root n config m = (installed, m')) (va : Nat) :
    m'.ram.leafAt root va = m.ram.leafAt root va := by
  induction n generalizing m m' own config installed with
  | zero =>
    cases hrun
    rfl
  | succ n ih =>
    have hpos := pageBytes_pos l
    rw [Nat.succ_mul, Nat.add_comm (n * pageBytes l)] at hend hblank
    rw [Mmu.mapPages] at hrun
    cases hmap : m.mapAddressPage root config with
    | mk ok m1 =>
      obtain ⟨own1, tree1, spare1, hleaves, hblank1⟩ :=
        tree.mapAddressPage_hollow spare hlevel h3 hsize hperm (by omega) hblank hmap
      rw [hmap] at hrun
      cases ok with
      | false =>
        cases hrun
        exact hleaves va
      | true =>
        dsimp only at hrun
        cases hrun
        have hnext : 4 - config.next.levels = l := hlevel
        have haddr : config.next.paddr = config.paddr + pageBytes l := by
          rw [← hsize]
          rfl
        rw [← hleaves va]
        refine ih tree1 spare1 hnext hsize hperm ?_ ?_ rfl
        · rw [haddr]
          omega
        · rw [haddr]
          exact hblank1 rfl

/-- With permissions that make a leaf, a loop that installed nothing changed no translation, and one
that installed a page gave the first address one that it had not. -/
theorem Tree.mapPages_first
    (hlevel : 4 - config.levels = l) (h3 : l ≤ 3) (hpa : ∀ j < n, (config.page j).paddr < 2 ^ 64)
    (hperm : isLeaf config.permissions = true)
    (hrun : Mmu.mapPages root n config m = (installed, m')) :
    (installed = 0 → ∀ va, m'.ram.leafAt root va = m.ram.leafAt root va) ∧
    (0 < installed → m.ram.leafAt root config.vaddr = none ∧
      m'.ram.leafAt root config.vaddr ≠ none) := by
  cases n with
  | zero =>
    cases hrun
    exact ⟨fun _ _ => rfl, fun h => absurd h (Nat.lt_irrefl 0)⟩
  | succ n =>
    rw [Mmu.mapPages] at hrun
    have hfirst := hpa 0 (Nat.succ_pos n)
    rw [config.page_zero] at hfirst
    cases hmap : m.mapAddressPage root config with
    | mk ok m1 =>
      obtain ⟨own1, tree1, spare1, hleaf⟩ :=
        tree.mapAddressPage_leafAt spare hlevel h3 hfirst hperm hmap
      rw [hmap] at hrun
      cases ok with
      | false =>
        cases hrun
        refine ⟨fun _ va => ?_, fun h => absurd h (Nat.lt_irrefl 0)⟩
        rw [hleaf, if_neg (fun h => Bool.false_ne_true h.1)]
      | true =>
        dsimp only at hrun
        cases hrun
        refine ⟨fun h => absurd h (Nat.succ_ne_zero _), fun _ => ⟨?_, ?_⟩⟩
        · -- an address with a leaf would have stopped the loop at once
          cases hwas : m.ram.leafAt root config.vaddr with
          | none => rfl
          | some x =>
            have hblocked := (tree.leafAt_eq_some.mp hwas).blocked h3
            have hstop := ((tree.mono (Nat.zero_le l)).mapAddressPage_blocked spare hlevel h3
              hfirst hmap).1 hblocked
            cases hstop
        have hbound := config.next_paddr hpa
        have hnext : 4 - config.next.levels = l := hlevel
        obtain ⟨-, hkeep, -⟩ := tree1.mapPages_leafAt spare1 hnext h3 hbound hperm rfl
        have hnow := hleaf config.vaddr
        rw [if_pos ⟨rfl, rfl⟩] at hnow
        rw [hkeep _ _ hnow]
        exact Option.some_ne_none _

/-- What `map_address_range` leaves, whether it gets to its end or not. -/
theorem Tree.mapAddressRange_leftover
    (hlevel : 4 - config.levels = l) (h3 : l ≤ 3) (hsize : config.pageSize = pageBytes l)
    (vend : Nat) {pend : Nat} (hend : pend ≤ physEnd)
    (hblank : Blank m.ram m.pages own config.paddr (pend - config.paddr)) :
    ((m.mapAddressRange root config vend pend).installed = 0 ∨
        isLeaf config.permissions = false → ∀ va,
      (m.mapAddressRange root config vend pend).mmu.ram.leafAt root va = m.ram.leafAt root va) ∧
    (0 < (m.mapAddressRange root config vend pend).installed →
      isLeaf config.permissions = true → m.ram.leafAt root config.vaddr = none ∧
        (m.mapAddressRange root config vend pend).mmu.ram.leafAt root config.vaddr ≠ none) := by
  unfold Mmu.mapAddressRange
  dsimp only
  split
  · exact ⟨fun _ _ => rfl, fun h => absurd h (Nat.lt_irrefl 0)⟩
  split
  · exact ⟨fun _ _ => rfl, fun h => absurd h (Nat.lt_irrefl 0)⟩
  rw [hsize]
  have hfits := Nat.div_mul_le_self (pend - config.paddr) (pageBytes l)
  have hpos := pageBytes_pos l
  cases hperm : isLeaf config.permissions with
  | false =>
    refine ⟨fun _ va => ?_, fun _ h => absurd h (by decide)⟩
    rcases Nat.eq_zero_or_pos ((pend - config.paddr) / pageBytes l) with hzero | hsome
    · rw [hzero]
      rfl
    refine tree.mapPages_hollow spare hlevel h3 hsize hperm ?_ (hblank.mono fun a ha =>
      ⟨ha.1, Nat.lt_of_lt_of_le ha.2 (by omega)⟩) rfl va
    have : 0 < pend - config.paddr := Nat.pos_of_ne_zero fun h => by
      rw [h, Nat.zero_div] at hsome
      exact Nat.lt_irrefl 0 hsome
    omega
  | true =>
    have hbound := MappingConfig.page_paddr_lt hsize hend
    obtain ⟨hnone, hsome⟩ := tree.mapPages_first spare hlevel h3 hbound hperm rfl
    exact ⟨fun h => hnone (h.resolve_right (by decide)), fun h _ => hsome h⟩

/-- What `map_address_range` adds, whether it gets to its end or not: leaves in the range it was
given, with the permissions it was given. -/
theorem Tree.mapAddressRange_fresh
    (hlevel : 4 - config.levels = l) (h3 : l ≤ 3) (hsize : config.pageSize = pageBytes l)
    (vend : Nat) {pend : Nat} (hend : pend ≤ physEnd)
    (hblank : Blank m.ram m.pages own config.paddr (pend - config.paddr)) {va : Nat}
    {x : Nat × Nat}
    (h : (m.mapAddressRange root config vend pend).mmu.ram.leafAt root va = some x) :
    m.ram.leafAt root va = some x ∨
      (∃ k < vend - config.vaddr, va % vaSpace = (config.vaddr + k) % vaSpace) ∧
        permissions x.2 = permissions config.permissions := by
  cases hperm : isLeaf config.permissions with
  | false =>
    have hsame := (tree.mapAddressRange_leftover spare hlevel h3 hsize vend hend hblank).1
      (.inr hperm) va
    exact .inl (hsame.symm.trans h)
  | true =>
    unfold Mmu.mapAddressRange at h
    dsimp only at h
    split at h
    · exact .inl h
    next hlen =>
    split at h
    · exact .inl h
    next haligned =>
    rw [hsize] at h haligned
    have hbound := MappingConfig.page_paddr_lt hsize hend
    rcases tree.mapPages_fresh spare hlevel h3 hbound hperm rfl h with hold | ⟨j, hj, hslot, rfl⟩
    · exact .inl hold
    refine .inr ⟨?_, permissions_packLeaf _ _ _⟩
    have hpage : (config.page j).vaddr % pageBytes l = 0 := by
      simp only [MappingConfig.page, hsize, Nat.add_mul_mod_self_right]
      omega
    obtain ⟨k, hk, hva⟩ := (vslot_eq_page_iff h3 hpage).mp hslot
    refine ⟨j * pageBytes l + k, ?_, ?_⟩
    · have hpages : (j + 1) * pageBytes l ≤ (pend - config.paddr) / pageBytes l * pageBytes l :=
        Nat.mul_le_mul_right _ hj
      have hfits := Nat.div_mul_le_self (pend - config.paddr) (pageBytes l)
      rw [Nat.succ_mul] at hpages
      omega
    · rw [hva]
      simp only [MappingConfig.page, hsize, Nat.add_assoc]

end Loop

/-- Without a free table, the first page is not mapped if its own table is missing. -/
theorem Mmu.mapAddressRange_no_table {root : Nat} {m : Mmu} {config : MappingConfig}
    (hnone : m.pages.allocAligned pageLayout = none)
    (hwalk : m.ram.walkDown root config.vaddr (3 - (4 - config.levels)) = none) (vend pend : Nat) :
    (m.mapAddressRange root config vend pend).installed = 0 := by
  have hdown : ∀ d, m.materializeDown root config.vaddr d =
      (m.ram.walkDown root config.vaddr d, m) := by
    intro d
    induction d with
    | zero => rfl
    | succ d ih =>
      rw [Mmu.materializeDown, ih, Ram.walkDown]
      cases m.ram.walkDown root config.vaddr d with
      | none => rfl
      | some t =>
        dsimp only
        rw [Mmu.allocatePageTable, hnone]
        by_cases hleaf : isLeaf (m.ram.entry t (vpn (3 - d) config.vaddr)) = true
        · simp [hleaf]
        by_cases hvalid : isValid (m.ram.entry t (vpn (3 - d) config.vaddr)) = true
        · simp [hleaf, hvalid]
        · simp [hleaf, hvalid]
  have hpage : m.mapAddressPage root config = (false, m) := by
    unfold Mmu.mapAddressPage Mmu.walkToTableMaterialize
    dsimp only
    split
    · rfl
    · rw [hdown, hwalk]
  unfold Mmu.mapAddressRange
  dsimp only
  split
  · rfl
  split
  · rfl
  cases (pend - config.paddr) / config.pageSize with
  | zero => rfl
  | succ n => rw [Mmu.mapPages, hpage]

/-- Memory that changes outside the tables changes no translation. -/
theorem Tree.of_sameTables {r r' : Ram} {root : Nat} {own : Nat → Option (Nat × Nat)}
    (tree : Tree 0 r root own)
    (h : ∀ t x, own t = some x → ∀ a, Within t pageSize a → r'.byte a = r.byte a) :
    Tree 0 r' root own ∧ (∀ va, r'.leafAt root va = r.leafAt root va) ∧
      ∀ va, ∀ d ≤ 3, r'.walkDown root va d = r.walkDown root va d := by
  have hentry : ∀ t x i, own t = some x → i < 512 → r'.entry t i = r.entry t i := by
    intro t x i ht hi
    apply word_congr
    exact fun a ha => h t x ht a (within_entry hi ha)
  have tree' : Tree 0 r' root own := by
    refine { tree with child := fun t l s i ht hl hi hvalid hleaf => ?_ }
    rw [hentry t _ i ht hi] at hvalid hleaf ⊢
    exact tree.child t l s i ht hl hi hvalid hleaf
  have hwalk : ∀ va, ∀ d ≤ 3, r'.walkDown root va d = r.walkDown root va d := by
    intro va d hd
    apply Tree.walkDown_congr
    intro k t hk hat
    exact hentry t _ _ (tree.walkDown_own (by omega) hat) (vpn_lt _ _)
  refine ⟨tree', fun va => tree.leafAt_congr tree' fun l e => ?_, hwalk⟩
  unfold LeafOf
  refine and_congr_right fun h3 => exists_congr fun t => ?_
  rw [hwalk va (3 - l) (by omega)]
  refine and_congr_right fun hat => ?_
  rw [hentry t _ _ (tree.walkDown_own (by omega) hat) (vpn_lt _ _)]

end Paging
