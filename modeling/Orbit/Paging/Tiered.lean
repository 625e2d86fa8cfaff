import Orbit.Paging.Bulk
import Orbit.Paging.MapRange

/-!
`map_va_range` and `id_map_range`. At each step the loop puts down the largest leaf that the
alignment of both addresses and the remaining length allow; the leaves lie next to one
another and fill the range. What was at their entries before is overwritten, which touches
no address outside the range.
-/

namespace Paging

variable {base : MappingConfig} {off pa rem va : Nat}

/-- A leaf of depth `level` at this offset of the range. -/
structure Tile where
  off : Nat
  level : Nat

variable {tiles : List Tile} {config : MappingConfig} {r r' : Ram}

/-- A leaf of depth `l` may be put at `off` with `rem` bytes to go. -/
def Fits (va pa off rem l : Nat) : Prop :=
  pageBytes l ≤ rem ∧ (pa + off) % pageBytes l = 0 ∧ (va + off) % pageBytes l = 0

/-- The range from `off` on is filled by leaves, each the largest of 1 GiB, 2 MiB and 4 KiB that may
be put at its place. -/
inductive Tiling (va pa : Nat) : Nat → Nat → List Tile → Prop where
  | done {off rem : Nat} (h : rem < pageSize) : Tiling va pa off rem []
  | tile {off rem l : Nat} {rest : List Tile} (hl : l ≤ 2) (hfits : Fits va pa off rem l)
      (hmax : ∀ l', l < l' → l' ≤ 2 → ¬ Fits va pa off rem l')
      (hrest : Tiling va pa (off + pageBytes l) (rem - pageBytes l) rest) :
      Tiling va pa off rem (⟨off, l⟩ :: rest)

theorem tier_spec (hrem : pageSize ≤ rem) (hpa : (pa + off) % pageSize = 0)
    (hva : (va + off) % pageSize = 0) :
    ∃ l ≤ 2, tier rem (pa + off) (va + off) = (4 - l, pageBytes l) ∧ Fits va pa off rem l ∧
      ∀ l', l < l' → l' ≤ 2 → ¬ Fits va pa off rem l' := by
  have h1 : pageBytes 1 = 2 * MB := by decide
  have h2 : pageBytes 2 = GB := by decide
  have h0 : pageBytes 0 = pageSize := by decide
  rcases tier_cases rem (pa + off) (va + off) with ⟨ht, hfits⟩ | ⟨ht, hfits, hno⟩ | ⟨ht, hno1, hno2⟩
  · refine ⟨2, Nat.le_refl 2, by rw [ht, h2], ?_, fun l' hlt hle => by omega⟩
    rwa [Fits, h2]
  · refine ⟨1, by decide, by rw [ht, h1], ?_, fun l' hlt hle => ?_⟩
    · rwa [Fits, h1]
    · obtain rfl : l' = 2 := by omega
      rwa [Fits, h2]
  refine ⟨0, by decide, by rw [ht, h0], ?_, fun l' hlt hle => ?_⟩
  · rw [Fits, h0]
    exact ⟨hrem, hpa, hva⟩
  have : l' = 1 ∨ l' = 2 := by omega
  rcases this with rfl | rfl
  · rwa [Fits, h1]
  · rwa [Fits, h2]

/-- Leaves next to one another leave no gap. -/
theorem Tiling.covers (h : Tiling va pa off rem tiles)
    (halign : rem % pageSize = 0) {k : Nat} (hk : k < rem) :
    ∃ tile ∈ tiles, tile.level ≤ 2 ∧ tile.off ≤ off + k ∧
      off + k < tile.off + pageBytes tile.level ∧
      (pa + tile.off) % pageBytes tile.level = 0 ∧ (va + tile.off) % pageBytes tile.level = 0 := by
  induction h generalizing k with
  | done h =>
    have : _ = 0 := (Nat.mod_eq_of_lt h).symm.trans halign
    omega
  | @tile off rem l rest hl hfits hmax hrest ih =>
    obtain ⟨hle, hpa, hva⟩ := hfits
    rcases Nat.lt_or_ge k (pageBytes l) with hin | hout
    · exact ⟨⟨off, l⟩, .head _, hl, Nat.le_add_right _ _, Nat.add_lt_add_left hin _,
        hpa, hva⟩
    have hrem : (rem - pageBytes l) % pageSize = 0 := by
      obtain ⟨c, hc⟩ := pageSize_dvd_pageBytes l
      rw [hc] at hle ⊢
      rw [Nat.sub_mul_mod hle]
      exact halign
    obtain ⟨tile, hmem, hrest⟩ := ih hrem (k := k - pageBytes l) (by omega)
    rw [show off + pageBytes l + (k - pageBytes l) = off + k by omega] at hrest
    exact ⟨tile, .tail _ hmem, hrest⟩

theorem aligned_add_pageBytes {a off : Nat} (h : (a + off) % pageSize = 0) (l : Nat) :
    (a + (off + pageBytes l)) % pageSize = 0 := by
  rw [← Nat.add_assoc]
  exact Nat.mod_eq_zero_of_dvd (Nat.dvd_add (Nat.dvd_of_mod_eq_zero h) (pageSize_dvd_pageBytes l))

/-- The mapping of the leaf at `off`. -/
def MappingConfig.tile (base : MappingConfig) (va pa off l : Nat) : MappingConfig :=
  { base with paddr := pa + off, vaddr := va + off, levels := 4 - l, pageSize := pageBytes l }

section Loop

variable {root : Nat} {m m' : Mmu} {own : Nat → Option (Nat × Nat)}

/-- `map_page` with a permission that makes a leaf. -/
theorem Tree.mapPage (tree : Tree 0 m.ram root own) (spare : Spare m.pages own)
    {l : Nat} (hlevel : 4 - config.levels = l) (h3 : l ≤ 3)
    (hpa : config.paddr < 2 ^ 64) (hperm : Pte.isLeaf config.permissions = true)
    (hrun : m.mapPage root config = (true, m')) :
    ∃ own', Tree 0 m'.ram root own' ∧ Spare m'.pages own' ∧ ∀ va, m'.ram.leafAt root va =
      if vslot l va = vslot l config.vaddr then some (l, config.leaf)
        else m.ram.leafAt root va := by
  unfold Mmu.mapPage at hrun
  split at hrun
  · cases (Prod.mk.inj hrun).1
  dsimp only at hrun
  rw [hlevel] at hrun
  cases hwalk : m.walkToTableMaterialize root config.vaddr l with
  | mk res m1 =>
    obtain ⟨own1, grown, hreach⟩ := tree.walkToTableMaterialize spare (Nat.zero_le l) h3 hwalk
    rw [hwalk] at hrun
    cases res with
    | none => cases (Prod.mk.inj hrun).1
    | some t =>
      cases hrun
      have hdown := hreach t rfl
      obtain ⟨hvalid, hleaf, -⟩ :=
        Pte.packLeaf_spec (config.paddr / pageSize) config.permissions config.supervisorTag
      rw [hperm] at hleaf
      have hown := grown.tree.walkDown_own (by omega) hdown
      have hlt : config.leaf < 2 ^ 64 := MappingConfig.leaf_lt hpa
      refine ⟨own1, grown.tree.set hown (vpn_lt _ _) hlt fun _ _ => hleaf, grown.spare,
        fun va => ?_⟩
      have hset := grown.tree.leafAt_set h3 hdown hlt (fun _ _ => hleaf) va
      rw [grown.leafAt tree] at hset
      simpa only [MappingConfig.leaf, hvalid, hleaf, Bool.and_self, if_true] using hset

/-- The loop fills the rest of the range, and touches no address outside of it. -/
theorem Tree.mapVaLoop (tree : Tree 0 m.ram root own) (spare : Spare m.pages own)
    {report report' : IdMapReport}
    (hpa : (pa + off) % pageSize = 0) (hva : (va + off) % pageSize = 0)
    (hend : pa + off + rem < 2 ^ 64) (hlen : rem ≤ vaSpace)
    (hperm : Pte.isLeaf base.permissions = true)
    (hrun : Mmu.mapVaLoop root base (va + off) (pa + off) rem report m = (some report', m')) :
    ∃ tiles, Tiling va pa off rem tiles ∧ (∀ tile ∈ tiles, ∀ k < pageBytes tile.level, ∀ a,
        a % vaSpace = (va + tile.off + k) % vaSpace → m'.ram.leafAt root a =
          some (tile.level, (base.tile va pa tile.off tile.level).leaf)) ∧
      ∀ a, (∀ k < rem, a % vaSpace ≠ (va + off + k) % vaSpace) →
        m'.ram.leafAt root a = m.ram.leafAt root a := by
  induction rem using Nat.strong_induction_on generalizing m own off report with
  | _ rem ih =>
    rw [Mmu.mapVaLoop] at hrun
    split at hrun
    · next hrem =>
      obtain ⟨l, hl, htier, hfits, hmax⟩ := tier_spec hrem hpa hva
      rw [htier] at hrun
      cases hmap : m.mapPage root (base.tile va pa off l) with
      | mk ok m1 =>
        have hpage := hmap
        dsimp only [MappingConfig.tile] at hpage hrun
        rw [hpage] at hrun
        cases ok with
        | false => cases (Prod.mk.inj hrun).1
        | true =>
          dsimp only at hrun
          have hpos := pageBytes_pos l
          obtain ⟨hle, hpal, hval⟩ := hfits
          have hlevel : 4 - (base.tile va pa off l).levels = l := by
            show 4 - (4 - l) = l
            omega
          have hfirst : (base.tile va pa off l).paddr < 2 ^ 64 := by
            show pa + off < 2 ^ 64
            omega
          obtain ⟨own1, tree1, spare1, hleaf⟩ :=
            tree.mapPage spare hlevel (by omega) hfirst hperm hmap
          rw [Nat.add_assoc va, Nat.add_assoc pa] at hrun
          have hpa' : (pa + (off + pageBytes l)) % pageSize = 0 :=
            aligned_add_pageBytes hpa l
          have hva' : (va + (off + pageBytes l)) % pageSize = 0 :=
            aligned_add_pageBytes hva l
          obtain ⟨rest, htiling, hin, hout⟩ := ih (rem - pageBytes l) (by omega) tree1 spare1
            hpa' hva' (by omega) (by omega) hrun
          refine ⟨⟨off, l⟩ :: rest, .tile hl ⟨hle, hpal, hval⟩ hmax htiling, ?_, ?_⟩
          · intro tile hmem k hk a ha
            rcases List.mem_cons.mp hmem with rfl | hmem
            · -- the leaves that follow lie beyond this one
              dsimp only at hk ha ⊢
              have hbeyond : ∀ k' < rem - pageBytes l,
                  a % vaSpace ≠ (va + (off + pageBytes l) + k') % vaSpace := by
                intro k' hk' hsame
                rw [ha] at hsame
                simp only [vaSpace] at hsame hlen
                omega
              rw [hout a hbeyond, hleaf, if_pos]
              exact (vslot_eq_page_iff (by omega) hval).mpr ⟨k, hk, ha⟩
            · exact hin tile hmem k hk a ha
          intro a ha
          have hbeyond : ∀ k' < rem - pageBytes l,
              a % vaSpace ≠ (va + (off + pageBytes l) + k') % vaSpace := by
            intro k' hk' hsame
            refine ha (pageBytes l + k') (by omega) ?_
            rw [hsame]
            congr 1
            omega
          rw [hout a hbeyond, hleaf, if_neg]
          intro hslot
          obtain ⟨k, hk, hsame⟩ := (vslot_eq_page_iff (by omega) hval).mp hslot
          exact ha k (by omega) hsame
    · next hrem =>
      cases hrun
      exact ⟨[], .done (Nat.lt_of_not_le hrem), fun _ h => (by cases h), fun _ _ => rfl⟩

end Loop

/-- The range is filled by leaves as large as may be, translated byte for byte, and every other
address is translated as before. -/
structure TiledMap (r r' : Ram) (root : Nat) (base : MappingConfig) (va pa len : Nat) : Prop where
  tiles : ∃ tiles, Tiling va pa 0 len tiles ∧
    ∀ tile ∈ tiles, ∀ k < pageBytes tile.level, ∀ a,
      a % vaSpace = (va + tile.off + k) % vaSpace → r'.leafAt root a =
        some (tile.level, (base.tile va pa tile.off tile.level).leaf)
  translated : Translated r r' root { base with vaddr := va, paddr := pa } len

/-- Leaves that fill the range translate it. -/
theorem tiledMap_of_tiles {root va pa len : Nat}
    (halign : len % pageSize = 0) (htiling : Tiling va pa 0 len tiles)
    (hin : ∀ tile ∈ tiles, ∀ k < pageBytes tile.level, ∀ a,
      a % vaSpace = (va + tile.off + k) % vaSpace → r'.leafAt root a =
        some (tile.level, (base.tile va pa tile.off tile.level).leaf))
    (hout : ∀ a, (∀ k < len, a % vaSpace ≠ (va + k) % vaSpace) →
      r'.leafAt root a = r.leafAt root a) : TiledMap r r' root base va pa len := by
  refine ⟨⟨tiles, htiling, hin⟩, ?_, ?_⟩
  · intro k hk a ha
    obtain ⟨tile, hmem, hlevel, hlo, hhi, hpa, hva⟩ := htiling.covers halign hk
    rw [Nat.zero_add] at hlo hhi
    have hoff : k - tile.off < pageBytes tile.level := by omega
    have hat : a % vaSpace = (va + tile.off + (k - tile.off)) % vaSpace := by
      rw [show va + tile.off + (k - tile.off) = va + k by omega]
      exact ha
    have hleaf := hin tile hmem _ hoff a hat
    obtain ⟨-, -, -, -, hppn⟩ := Pte.packLeaf_spec ((pa + tile.off) / pageSize) base.permissions
      base.supervisorTag
    refine ⟨?_, _, _, hleaf, Pte.permissions_packLeaf _ _ _⟩
    rw [Ram.virtToPhys_eq, hleaf, Option.map_some]
    congr 1
    have hdvd : pageSize ∣ pa + tile.off :=
      (pageSize_dvd_pageBytes tile.level).trans (Nat.dvd_of_mod_eq_zero hpa)
    show Pte.ppn (Pte.packLeaf ((pa + tile.off) / pageSize) base.permissions base.supervisorTag) *
      pageSize + a % pageBytes tile.level = pa + k
    rw [hppn, Nat.div_mul_cancel hdvd, mod_pageBytes (by omega) hva hoff hat]
    omega
  · intro a ha
    have hleaf := hout a ha
    rw [Ram.virtToPhys_eq, Ram.virtToPhys_eq, hleaf]
    exact ⟨rfl, rfl⟩

/-- A range with more bytes than there are addresses is not translated byte for byte. -/
theorem Translated.len_le {root len : Nat} (h : Translated r r' root config len) :
    len ≤ vaSpace := by
  by_contra hlong
  have hpos : 0 < len := Nat.lt_of_le_of_lt (Nat.zero_le vaSpace) (Nat.lt_of_not_le hlong)
  obtain ⟨hfirst, -⟩ := h.inside 0 hpos config.vaddr rfl
  obtain ⟨hagain, -⟩ := h.inside vaSpace (Nat.lt_of_not_le hlong) config.vaddr
    (Nat.add_mod_right _ _).symm
  have hsame := Option.some.inj (hfirst.symm.trans hagain)
  simp only [vaSpace] at hsame
  omega

/-- For every well-formed table and page-aligned range. A `map_va_range` that succeeds has filled
the range with the largest leaves and translates it, exactly when the permissions make a leaf and
the range is no longer than the address space, or it is empty. `id_map_range` is `map_va_range`
with the range mapped to itself. -/
theorem map_va_range_tiled {m m' : Mmu} {root : Nat} (hwf : m.WellFormed root)
    (base : MappingConfig) {vaStart paStart paEnd : Nat} (hva : vaStart % pageSize = 0)
    (hpa : paStart % pageSize = 0) (hpaEnd : paEnd % pageSize = 0) (hend : paEnd < 2 ^ 64)
    {report : IdMapReport}
    (hrun : m.mapVaRange root base vaStart paStart paEnd = (some report, m')) :
    (TiledMap m.ram m'.ram root base vaStart paStart (paEnd - paStart) ↔
      paStart = paEnd ∨ Pte.isLeaf base.permissions = true ∧ paEnd - paStart ≤ vaSpace) ∧
    ∀ (m : Mmu) (root : Nat) (base : MappingConfig) (start stop : Nat),
      m.idMapRange root base start stop = m.mapVaRange root base start start stop := by
  constructor
  · obtain ⟨own, tree, spare⟩ := hwf
    unfold Mmu.mapVaRange at hrun
    split at hrun
    · cases (Prod.mk.inj hrun).1
    next hord =>
    have hlen : (paEnd - paStart) % pageSize = 0 := by
      simp only [pageSize] at *
      omega
    constructor
    · intro h
      rcases Nat.eq_zero_or_pos (paEnd - paStart) with hzero | hpos
      · exact .inl (by omega)
      · exact .inr ⟨h.translated.isLeaf hpos, h.translated.len_le⟩
    rintro (rfl | ⟨hperm, hfits⟩)
    · rw [Nat.sub_self, Mmu.mapVaLoop, dif_neg (by decide)] at hrun
      cases hrun
      rw [Nat.sub_self]
      exact tiledMap_of_tiles rfl (.done (by decide)) (fun _ h => by cases h) fun _ _ => rfl
    have hloop : Mmu.mapVaLoop root base (vaStart + 0) (paStart + 0) (paEnd - paStart) .default m =
        (some report, m') := hrun
    obtain ⟨tiles, htiling, hin, hout⟩ :=
      tree.mapVaLoop spare hpa hva (by omega) hfits hperm hloop
    exact tiledMap_of_tiles hlen htiling hin hout
  · intro m root base start stop
    simp only [Mmu.idMapRange, Mmu.mapVaRange, Mmu.idMapLoop_eq]

/-- A range of one page takes one turn of the loop. -/
theorem mapVaRange_page {m : Mmu} {root va pa : Nat}
    (hmap : (m.mapPage root (base.tile va pa 0 0)).1 = true) :
    m.mapVaRange root base va pa (pa + pageSize) =
      (some (IdMapReport.default.count 4), (m.mapPage root (base.tile va pa 0 0)).2) := by
  have htier : tier pageSize pa va = (4, pageSize) := by
    rw [tier, if_neg (fun h => absurd h.1 (by decide)), if_neg (fun h => absurd h.1 (by decide))]
  have hpage : m.mapPage root { base with paddr := pa, vaddr := va, levels := 4, pageSize } =
      (true, (m.mapPage root (base.tile va pa 0 0)).2) := Prod.ext hmap rfl
  unfold Mmu.mapVaRange
  rw [if_neg (by omega), Nat.add_sub_cancel_left, Mmu.mapVaLoop, dif_pos le_rfl, htier]
  dsimp only
  rw [hpage]
  dsimp only
  rw [Nat.sub_self, Mmu.mapVaLoop, dif_neg (by decide)]

theorem map_va_range_tiled_one_page :
    TiledMap freshTable.ram
      (freshTable.mapVaRange freshRoot (onePage 0x16) 0x200000 0x9000 0xA000).2.ram
      freshRoot (onePage 0x16) 0x200000 0x9000 pageSize := by
  have hok : (freshTable.mapPage freshRoot ((onePage 0x16).tile 0x200000 0x9000 0 0)).1 = true := by
    decide +kernel
  obtain ⟨htiled, -⟩ := map_va_range_tiled freshTable_wellFormed (onePage 0x16)
    (by decide) (by decide)
    (by decide) (by decide) (mapVaRange_page hok)
  have hrun : freshTable.mapVaRange freshRoot (onePage 0x16) 0x200000 0x9000 0xA000 = _ :=
    mapVaRange_page hok
  rw [hrun]
  exact htiled.mpr (.inr (by decide))

/-- One page with U alone in an empty table: the call succeeds and the page is not translated. -/
theorem tile_without_rwx_is_lost : freshTable.WellFormed freshRoot ∧
      (∀ i, freshTable.ram.entry freshRoot i = 0) ∧
      ∃ report m', freshTable.mapVaRange freshRoot (onePage 0x10) 0x200000 0x9000 0xA000 =
        (some report, m') ∧ m'.ram.virtToPhys freshRoot 0x200000 = none := by
  have hok : (freshTable.mapPage freshRoot ((onePage 0x10).tile 0x200000 0x9000 0 0)).1 = true := by
    decide +kernel
  exact ⟨freshTable_wellFormed, freshTable_entry freshRoot, _, _, mapVaRange_page hok,
    by decide +kernel⟩

end Paging
