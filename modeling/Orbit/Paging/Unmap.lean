import Orbit.Paging.MapRange

/-!
`unmap_page` and `unmap_range`. Only an entry that is a leaf of the size asked for is
cleared, so no walk to a table changes, and no leaf of another size is touched.
-/

namespace Paging

/-- The two addresses lie on one page of depth `l`. -/
def SamePage (l va va' : Nat) : Prop :=
  va % vaSpace / pageBytes l = va' % vaSpace / pageBytes l

instance (l va va' : Nat) : Decidable (SamePage l va va') := inferInstanceAs (Decidable (_ = _))

theorem samePage_iff {l va va' : Nat} (hl : l ≤ 3) :
    SamePage l va va' ↔ vslot l va = vslot l va' := by
  have : l = 0 ∨ l = 1 ∨ l = 2 ∨ l = 3 := by omega
  rcases this with rfl | rfl | rfl | rfl <;>
    simp only [SamePage, vslot, pageBytes, pageSize, vaSpace] <;> omega

/-- What clearing pages leaves: the leaves of `gone` are away, every other leaf and every table is
where it was. -/
structure Cleared (r r' : Ram) (root : Nat) (gone : Nat → Prop) : Prop where
  leaves : ∀ va, (gone va → r'.leafAt root va = none) ∧
    (¬ gone va → r'.leafAt root va = r.leafAt root va)
  tables : ∀ va d, d ≤ 3 → r'.walkDown root va d = r.walkDown root va d

section Unmap

variable {r r' : Ram} {root l : Nat} {own : Nat → Option (Nat × Nat)}

/-- `unmap_page` clears a leaf of the size asked for, or fails if there is none. -/
theorem Tree.unmapPage (tree : Tree 0 r root own) (va levels : Nat) (hlevel : 4 - levels = l)
    (h3 : l ≤ 3) :
    (∃ e r', r.leafAt root va = some (l, e) ∧ r.unmapPage root va levels = some r' ∧
      Tree 0 r' root own ∧ Cleared r r' root (SamePage l va)) ∨
    ((∀ e, r.leafAt root va ≠ some (l, e)) ∧ r.unmapPage root va levels = none) := by
  unfold Ram.unmapPage Ram.walkToTable
  dsimp only
  rw [hlevel]
  cases hwalk : r.walkDown root va (3 - l) with
  | none =>
    refine .inr ⟨fun e h => ?_, rfl⟩
    obtain ⟨-, t, hsome, -⟩ := tree.leafAt_eq_some.mp h
    exact nomatch hwalk.symm.trans hsome
  | some t =>
    dsimp only
    by_cases hboth : Pte.isValid (r.entry t (vpn l va)) = true ∧
      Pte.isLeaf (r.entry t (vpn l va)) = true
    · have hown := tree.walkDown_own (by omega) hwalk
      have hset := tree.leafAt_set h3 hwalk (show 0 < 2 ^ 64 by decide) (fun _ h => nomatch h)
      refine .inl ⟨r.entry t (vpn l va), r.setEntry t (vpn l va) 0, ?_, ?_, ?_, ⟨?_, ?_⟩⟩
      · exact tree.leafAt_eq_some.mpr ⟨h3, t, hwalk, rfl, hboth.1, hboth.2⟩
      · simp [hboth.1, hboth.2]
      · exact tree.set hown (vpn_lt l va) (by decide) (fun _ h => nomatch h)
      · intro va'
        rw [hset va']
        refine ⟨fun hin => ?_, fun hout => ?_⟩
        · rw [if_pos ((samePage_iff h3).mp hin).symm]
          rfl
        · rw [if_neg fun heq => hout ((samePage_iff h3).mpr heq.symm)]
      -- the cleared entry was a leaf, so no walk went through it
      intro va' d hd
      rw [show 3 - (3 - l) = l by omega] at hown
      induction d with
      | zero => rfl
      | succ d ih =>
        have hprev := ih (by omega)
        simp only [Ram.walkDown, hprev]
        cases hat : r.walkDown root va' d with
        | none => rfl
        | some t' =>
          dsimp only
          have hown' := tree.walkDown_own (by omega) hat
          by_cases hsame : t' = t ∧ vpn (3 - d) va' = vpn l va
          · obtain ⟨rfl, hidx⟩ := hsame
            rw [hidx, Ram.entry_setEntry _ _ _ (by decide), hboth.2]
            simp only [show Pte.isValid 0 = false by decide, Bool.not_false, Bool.true_or,
              Bool.or_true, if_true]
          · rw [tree.entry_set hown (vpn_lt l va) hown' (vpn_lt _ _) hsame]
    · refine .inr ⟨fun e h => hboth ?_, ?_⟩
      · obtain ⟨-, t', hwalk', rfl, hvalid, hleaf⟩ := tree.leafAt_eq_some.mp h
        obtain rfl : t = t' := Option.some.inj (hwalk.symm.trans hwalk')
        exact ⟨hvalid, hleaf⟩
      rw [if_pos]
      cases hvalid : Pte.isValid (r.entry t (vpn l va)) <;>
        cases hleaf : Pte.isLeaf (r.entry t (vpn l va)) <;> simp [hvalid, hleaf] at hboth ⊢

/-- Page `j` of those from `va` on. -/
def pageAt (va j : Nat) : Nat := va + j * pageSize

theorem pageAt_succ (va j : Nat) : pageAt va (j + 1) = pageAt (va + pageSize) j := by
  simp only [pageAt, Nat.succ_mul]
  omega

/-- Page `j` is there to be cleared: it has a 4 KiB leaf and was not named before. -/
def Clearable (r : Ram) (root va j : Nat) : Prop :=
  (∃ e, r.leafAt root (pageAt va j) = some (0, e)) ∧
    ∀ i < j, ¬ SamePage 0 (pageAt va i) (pageAt va j)

/-- The loop of `unmap_range`: it clears pages up to the first that is not there to be cleared. -/
theorem Tree.unmapPages (tree : Tree 0 r root own) (n va : Nat) :
    ∃ j ≤ n, (∀ i < j, Clearable r root va i) ∧ (j < n → ¬ Clearable r root va j) ∧
      (r.unmapPages root n va).1 = decide (j = n) ∧
      Tree 0 (r.unmapPages root n va).2 root own ∧
      Cleared r (r.unmapPages root n va).2 root
        (fun va' => ∃ i < j, SamePage 0 (pageAt va i) va') := by
  induction n generalizing r va with
  | zero =>
    refine ⟨0, Nat.le_refl 0, fun i hi => absurd hi (Nat.not_lt_zero i),
      fun h => absurd h (Nat.lt_irrefl 0), rfl, tree,
        ⟨fun va' => ⟨?_, fun _ => rfl⟩, fun _ _ _ => rfl⟩⟩
    rintro ⟨i, hi, -⟩
    exact absurd hi (Nat.not_lt_zero i)
  | succ n ih =>
    have hzero : pageAt va 0 = va := by simp [pageAt]
    rcases tree.unmapPage va 4 rfl (Nat.zero_le 3) with
      ⟨e, r1, hleaf, hone, tree1, hcleared⟩ | ⟨hnone, hfail⟩
    · obtain ⟨j, hj, hall, hstop, hok, tree2, hrest⟩ := ih tree1 (va + pageSize)
      -- a page further on has its leaf still unless it is the one just cleared
      have hlater : ∀ i, Clearable r1 root (va + pageSize) i ↔ Clearable r root va (i + 1) := by
        intro i
        unfold Clearable
        rw [← pageAt_succ]
        have hsplit : (∀ k < i + 1, ¬ SamePage 0 (pageAt va k) (pageAt va (i + 1))) ↔
            ¬ SamePage 0 va (pageAt va (i + 1)) ∧
              ∀ k < i, ¬ SamePage 0 (pageAt (va + pageSize) k) (pageAt va (i + 1)) := by
          constructor
          · intro h
            refine ⟨hzero ▸ h 0 (Nat.succ_pos i), fun k hk => ?_⟩
            rw [← pageAt_succ]
            exact h (k + 1) (Nat.succ_lt_succ hk)
          rintro ⟨h0, h⟩ k hk
          cases k with
          | zero => rwa [hzero]
          | succ k =>
            rw [pageAt_succ]
            exact h k (Nat.lt_of_succ_lt_succ hk)
        rw [hsplit]
        by_cases hsame : SamePage 0 va (pageAt va (i + 1))
        · rw [(hcleared.leaves _).1 hsame]
          constructor
          · rintro ⟨⟨e, he⟩, -⟩
            cases he
          · exact fun h => absurd hsame h.2.1
        · rw [(hcleared.leaves _).2 hsame]
          exact ⟨fun h => ⟨h.1, hsame, h.2⟩, fun h => ⟨h.1, h.2.2⟩⟩
      refine ⟨j + 1, Nat.succ_le_succ hj, ?_, ?_, ?_, ?_, ?_⟩
      · intro i hi
        cases i with
        | zero =>
          exact ⟨⟨e, by rw [hzero]; exact hleaf⟩, fun k hk => absurd hk (Nat.not_lt_zero k)⟩
        | succ i => exact (hlater i).mp (hall i (Nat.lt_of_succ_lt_succ hi))
      · intro hlt hclear
        exact hstop (Nat.lt_of_succ_lt_succ hlt) ((hlater j).mpr hclear)
      · simp only [Ram.unmapPages, hone, hok, Nat.succ.injEq]
      · simp only [Ram.unmapPages, hone]
        exact tree2
      simp only [Ram.unmapPages, hone]
      refine ⟨fun va' => ⟨?_, ?_⟩, fun va' d hd => ?_⟩
      · rintro ⟨i, hi, hsame⟩
        by_cases hin : ∃ i < j, SamePage 0 (pageAt (va + pageSize) i) va'
        · exact (hrest.leaves va').1 hin
        rw [(hrest.leaves va').2 hin]
        cases i with
        | zero =>
          rw [hzero] at hsame
          exact (hcleared.leaves va').1 hsame
        | succ i =>
          rw [pageAt_succ] at hsame
          exact absurd ⟨i, Nat.lt_of_succ_lt_succ hi, hsame⟩ hin
      · intro hout
        rw [(hrest.leaves va').2, (hcleared.leaves va').2]
        · intro hsame
          exact hout ⟨0, Nat.succ_pos j, hzero ▸ hsame⟩
        · rintro ⟨i, hi, hsame⟩
          exact hout ⟨i + 1, Nat.succ_lt_succ hi, pageAt_succ va i ▸ hsame⟩
      · rw [hrest.tables va' d hd, hcleared.tables va' d hd]
    · refine ⟨0, Nat.zero_le _, fun i hi => absurd hi (Nat.not_lt_zero i), ?_, ?_, ?_, ?_⟩
      · rintro - ⟨⟨e, he⟩, -⟩
        rw [hzero] at he
        exact hnone e he
      · simp only [Ram.unmapPages, hfail]
        rfl
      · simp only [Ram.unmapPages, hfail]
        exact tree
      simp only [Ram.unmapPages, hfail]
      refine ⟨fun va' => ⟨?_, fun _ => rfl⟩, fun _ _ _ => rfl⟩
      rintro ⟨i, hi, -⟩
      exact absurd hi (Nat.not_lt_zero i)

end Unmap

/-- Pages of a range no longer than the address space are all different. -/
theorem not_samePage_pageAt {va i j n : Nat} (hva : va % pageSize = 0) (hn : n * pageSize ≤ vaSpace)
    (hij : i < j) (hj : j < n) : ¬ SamePage 0 (pageAt va i) (pageAt va j) := by
  simp only [SamePage, pageAt, pageBytes, pageSize, vaSpace] at *
  omega

/-- For every well-formed table. `unmap_page` fails exactly when the named page has no leaf of its
size; otherwise exactly the addresses of the page lose their translation. `unmap_range` clears the
pages before the first that has no 4 KiB leaf (or, in a range longer than the address space, comes
a second time) and fails exactly when there is such a page. In every case all tables and all other
leaves are left as they were. -/
theorem unmap_exact {r : Ram} {root : Nat} (hwf : WellFormed r root) :
    (∀ va levels, 1 ≤ levels → levels ≤ 4 →
      (r.unmapPage root va levels = none ↔ ∀ e, r.leafAt root va ≠ some (4 - levels, e)) ∧
      ∀ r', r.unmapPage root va levels = some r' → Cleared r r' root (SamePage (4 - levels) va)) ∧
    ∀ start stop, start % pageSize = 0 → stop % pageSize = 0 →
      ∃ j ≤ (stop - start) / pageSize,
        (∀ i < j, ∃ e, r.leafAt root (pageAt start i) = some (0, e)) ∧
        (j < (stop - start) / pageSize → (∀ e, r.leafAt root (pageAt start j) ≠ some (0, e)) ∨
          vaSpace < stop - start) ∧
        ((r.unmapRange root start stop).1 = true ↔ j = (stop - start) / pageSize) ∧
        Cleared r (r.unmapRange root start stop).2 root
          (fun va => ∃ i < j, SamePage 0 (pageAt start i) va) := by
  obtain ⟨own, tree⟩ := hwf
  constructor
  · intro va levels hlo hhi
    rcases tree.unmapPage va levels rfl (by omega) with
      ⟨e, r1, hleaf, hone, -, hcleared⟩ | ⟨hnone, hfail⟩
    · rw [hone]
      refine ⟨⟨nofun, fun h => absurd hleaf (h e)⟩, ?_⟩
      rintro r' ⟨⟩
      exact hcleared
    · rw [hfail]
      exact ⟨⟨fun _ => hnone, fun _ => rfl⟩, nofun⟩
  intro start stop hstart hstop
  obtain ⟨j, hj, hall, hend, hok, -, hcleared⟩ :=
    tree.unmapPages ((stop - start) / pageSize) start
  have hrange : r.unmapRange root start stop =
      r.unmapPages root ((stop - start) / pageSize) start := by
    unfold Ram.unmapRange
    rw [if_neg (by simp [hstart, hstop])]
  rw [hrange]
  refine ⟨j, hj, fun i hi => (hall i hi).1, fun hlt => ?_, by rw [hok, decide_eq_true_eq], hcleared⟩
  rcases Nat.lt_or_ge vaSpace (stop - start) with hlong | hfits
  · exact .inr hlong
  refine .inl fun e he => hend hlt ⟨⟨e, he⟩, fun i hi => ?_⟩
  apply not_samePage_pageAt hstart _ hi hlt
  exact (Nat.div_mul_le_self _ _).trans hfits

/-- A table with one readable and writable page. -/
def onePageMapped : Ram := (Mmu.mapPages freshRoot 1 (onePage 0x16) freshTable).2.ram

theorem onePageMapped_wellFormed : WellFormed onePageMapped freshRoot := by
  obtain ⟨own, tree, spare⟩ := freshTable_wellFormed
  have hbound : ∀ j < 1, ((onePage 0x16).page j).paddr < 2 ^ 64 := by decide
  obtain ⟨⟨own', tree', -⟩, -⟩ :=
    tree.mapPages_leafAt spare rfl (by decide) hbound (by decide) rfl
  exact ⟨own', tree'⟩

theorem unmap_exact_one_page : onePageMapped.virtToPhys freshRoot 0x200008 = some 0x9008 ∧
      (onePageMapped.unmapRange freshRoot 0x200000 0x201000).1 = true ∧
      (onePageMapped.unmapRange freshRoot 0x200000 0x201000).2.leafAt freshRoot
        0x200008 = none := by
  have hok : (onePageMapped.unmapRange freshRoot 0x200000 0x201000).1 = true := by decide +kernel
  obtain ⟨j, -, -, -, hj, hcleared⟩ :=
    (unmap_exact onePageMapped_wellFormed).2 0x200000 0x201000 rfl rfl
  obtain rfl := hj.mp hok
  exact ⟨by decide +kernel, hok, (hcleared.leaves _).1 ⟨0, by decide, by decide⟩⟩

end Paging
