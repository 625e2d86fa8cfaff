import Orbit.Paging.Bulk
import Orbit.Paging.MapRange

/-!
`reserve_va_range` and the leaves written into the reserved window. The loop goes from the
start of the range in steps of one L0 table, so it visits a table for each step begun. A
range that starts inside a table can touch one table more than that, and the pages in the
last one are then left without.
-/

namespace Paging

/-- The arguments of a `write_leaf_pte` call. -/
structure LeafWrite where
  va : Nat
  paddr : Option Nat
  perms : Nat
  rsw : Nat

/-- A `write_leaf_pte` call, and what is left of the table if it fails. -/
def Ram.writeLeaf (r : Ram) (root : Nat) (w : LeafWrite) : Ram :=
  (r.writeLeafPte root w.va w.paddr w.perms w.rsw).getD r

/-- After any calls of `write_leaf_pte`, another for an address of the range succeeds. It takes
only the table, so it cannot allocate. -/
def Usable (r : Ram) (root start stop : Nat) : Prop :=
  ∀ ws : List LeafWrite, (∀ w ∈ ws, ∀ pa ∈ w.paddr, pa < 2 ^ 64) → ∀ w : LeafWrite,
    start ≤ w.va → w.va < stop →
    ((ws.foldl (Ram.writeLeaf · root ·) r).writeLeafPte root w.va w.paddr w.perms w.rsw).isSome =
      true

/-- The loop visits every table the range touches, or the one it misses is there already. -/
def Covered (r : Ram) (root start stop : Nat) : Prop :=
  stop ≤ start ∨ start % l0Span + (stop - start - 1) % l0Span < l0Span ∨
    (r.walkToTable root (stop - pageSize) 0).isSome = true ∨ vaSpace < stop - start + l0Span

instance (r : Ram) (root start stop : Nat) : Decidable (Covered r root start stop) :=
  inferInstanceAs (Decidable (_ ∨ _ ∨ _ ∨ _))

section Reserve

variable {root : Nat} {m m' : Mmu} {own : Nat → Option (Nat × Nat)} {ok : Bool} {va turns : Nat}

/-- The tables of the addresses visited are there afterwards, and a table that was not there before
is one for such an address. -/
theorem Tree.reserveLoop (tree : Tree 0 m.ram root own) (spare : Spare m.pages own)
    (hrun : Mmu.reserveLoop root turns va m = (ok, m')) :
    ∃ own', Grown 0 root m m' own own' ∧
      (ok = true → ∀ k < turns, ∃ t, m'.ram.walkDown root (va + k * l0Span) 3 = some t) ∧
      ∀ t l s, own' t = some (l, s) → own t = some (l, s) ∨
        ∃ k < turns, s = vslot (l + 1) (va + k * l0Span) := by
  induction turns generalizing m own va with
  | zero =>
    cases hrun
    exact ⟨own, .refl tree spare, fun _ k hk => absurd hk (Nat.not_lt_zero k),
      fun _ _ _ h => .inl h⟩
  | succ turns ih =>
    have hnext : ∀ k, va + (k + 1) * l0Span = va + l0Span + k * l0Span := by
      intro k
      rw [Nat.succ_mul]
      omega
    rw [Mmu.reserveLoop] at hrun
    cases hwalk : m.walkToTableMaterialize root va 0 with
    | mk res m1 =>
      obtain ⟨own1, grown, hreach, hpath⟩ := tree.materializeDown spare (Nat.le_refl 3) hwalk
      rw [hwalk] at hrun
      cases res with
      | none =>
        cases hrun
        refine ⟨own1, grown, nofun, fun t l s h => (hpath t l s h).imp id fun hs => ?_⟩
        exact ⟨0, Nat.succ_pos turns, by simpa using hs⟩
      | some t =>
        obtain ⟨own2, grown2, hreach2, hpath2⟩ := ih grown.tree grown.spare hrun
        refine ⟨own2, grown.trans grown2, ?_, ?_⟩
        · intro hok k hk
          cases k with
          | zero =>
            rw [Nat.zero_mul, Nat.add_zero]
            exact ⟨t, grown2.walks va 3 t (Nat.le_refl 3) (hreach t rfl)⟩
          | succ k =>
            rw [hnext]
            exact hreach2 hok k (Nat.lt_of_succ_lt_succ hk)
        intro t' l s h
        rcases hpath2 t' l s h with h1 | ⟨k, hk, hs⟩
        · refine (hpath t' l s h1).imp id fun hs => ?_
          exact ⟨0, Nat.succ_pos turns, by simpa using hs⟩
        · exact .inr ⟨k + 1, Nat.succ_lt_succ hk, by rw [hnext, hs]⟩

end Reserve

/-- Writing leaves moves no table. -/
theorem Tree.writeLeaf {r : Ram} {root : Nat} {own : Nat → Option (Nat × Nat)}
    (tree : Tree 0 r root own)
    (w : LeafWrite) (hpa : ∀ pa ∈ w.paddr, pa < 2 ^ 64) :
    Tree 0 (r.writeLeaf root w) root own ∧
      ∀ va d, d ≤ 3 → (r.writeLeaf root w).walkDown root va d = r.walkDown root va d := by
  unfold Ram.writeLeaf Ram.writeLeafPte Ram.walkToTable
  cases hwalk : r.walkDown root w.va (3 - 0) with
  | none => exact ⟨tree, fun _ _ _ => rfl⟩
  | some t =>
    have hown := tree.walkDown_own (Nat.le_refl 3) hwalk
    have hset : ∀ e, e < 2 ^ 64 → Tree 0 (r.setEntry t (vpn 0 w.va) e) root own ∧
        ∀ va d, d ≤ 3 → (r.setEntry t (vpn 0 w.va) e).walkDown root va d =
          r.walkDown root va d := by
      intro e he
      refine ⟨tree.set hown (vpn_lt _ _) he fun h => absurd h (Nat.lt_irrefl 0), fun va d hd => ?_⟩
      exact tree.walkDown_set hown (vpn_lt _ _) hd hd
    cases hp : w.paddr with
    | none => exact hset 0 (by decide)
    | some pa =>
      have hsmall : (⟨w.perms, 4, pageSize, w.va, pa, w.rsw⟩ : MappingConfig).leaf < 2 ^ 64 :=
        MappingConfig.leaf_lt (hpa pa hp)
      exact hset _ hsmall

/-- A window is usable when every address of it has its table. -/
theorem Tree.usable_iff {r : Ram} {root start stop : Nat} {own : Nat → Option (Nat × Nat)}
    (tree : Tree 0 r root own) : Usable r root start stop ↔
      ∀ va, start ≤ va → va < stop → ∃ t, r.walkDown root va 3 = some t := by
  have hwrite : ∀ (r : Ram) (w : LeafWrite),
      (r.writeLeafPte root w.va w.paddr w.perms w.rsw).isSome = true ↔
        ∃ t, r.walkDown root w.va 3 = some t := by
    intro r w
    unfold Ram.writeLeafPte Ram.walkToTable
    cases hwalk : r.walkDown root w.va 3 with
    | none => simp
    | some t => cases w.paddr <;> simp
  constructor
  · intro h va hlo hhi
    exact (hwrite r ⟨va, none, 0, 0⟩).mp (h [] (fun _ hw => nomatch hw) ⟨va, none, 0, 0⟩ hlo hhi)
  intro h ws hws w hlo hhi
  rw [hwrite]
  have hsame : ∀ (ws : List LeafWrite) (r : Ram), Tree 0 r root own →
      (∀ w ∈ ws, ∀ pa ∈ w.paddr, pa < 2 ^ 64) → ∀ va,
      (ws.foldl (Ram.writeLeaf · root ·) r).walkDown root va 3 = r.walkDown root va 3 := by
    intro ws
    induction ws with
    | nil => exact fun _ _ _ _ => rfl
    | cons w rest ih =>
      intro r tree hws va
      obtain ⟨tree', hwalks⟩ := tree.writeLeaf w (hws w (.head _))
      rw [List.foldl_cons, ih _ tree' fun w' hw' => hws w' (.tail _ hw')]
      exact hwalks va 3 (Nat.le_refl 3)
  rw [hsame ws r tree hws]
  exact h w.va hlo hhi

/-- Addresses under one L0 table. -/
theorem walkDown_same_table {r : Ram} {root va va' t : Nat} (h : vslot 1 va = vslot 1 va')
    (hwalk : r.walkDown root va 3 = some t) : ∃ t, r.walkDown root va' 3 = some t :=
  ⟨t, by rw [← Ram.walkDown_va r root (Nat.le_refl 3) h, hwalk]⟩

/-- An address of the range lies under a table that the loop visits, or under that of the last
page; if the loop visits as many tables as the range touches, the first is so. -/
theorem visited {start stop va : Nat} (hstart : start % pageSize = 0) (hstop : stop % pageSize = 0)
    (hlo : start ≤ va) (hhi : va < stop) :
    (∃ k < (stop - start + (l0Span - 1)) / l0Span, vslot 1 va = vslot 1 (start + k * l0Span)) ∨
      (vslot 1 va = vslot 1 (stop - pageSize) ∧
        ¬ start % l0Span + (stop - start - 1) % l0Span < l0Span) := by
  have hspan : l0Span = 2097152 := rfl
  simp only [vslot, pageBytes, pageSize, hspan] at *
  by_cases hq : (start % 2097152 + (va - start)) / 2097152 <
      (stop - start + (2097152 - 1)) / 2097152
  · exact .inl ⟨_, hq, by omega⟩
  · right
    omega

/-- The last page lies under a table the loop does not visit, unless the loop goes once round. -/
theorem last_not_visited {start stop k : Nat} (hstart : start % pageSize = 0)
    (hstop : stop % pageSize = 0) (hlt : start < stop)
    (hmiss : ¬ start % l0Span + (stop - start - 1) % l0Span < l0Span)
    (hshort : ¬ vaSpace < stop - start + l0Span)
    (hk : k < (stop - start + (l0Span - 1)) / l0Span) :
    vslot 1 (stop - pageSize) ≠ vslot 1 (start + k * l0Span) := by
  have hspan : l0Span = 2097152 := rfl
  simp only [vslot, pageBytes, pageSize, vaSpace, hspan] at *
  omega

/-- A loop that goes once round visits every table. -/
theorem visited_of_long {start stop va : Nat} (hlong : vaSpace < stop - start + l0Span) :
    ∃ k < (stop - start + (l0Span - 1)) / l0Span, vslot 1 va = vslot 1 (start + k * l0Span) := by
  have hspan : l0Span = 2097152 := rfl
  simp only [vslot, pageBytes, pageSize, vaSpace, hspan] at *
  refine ⟨(va / 2097152 % 134217728 + (134217728 - start / 2097152 % 134217728)) %
    134217728, ?_, ?_⟩
  · omega
  · omega

/-- For every well-formed table and page-aligned range: reserving adds no leaf. If it succeeds,
every later `write_leaf_pte` for an address of the range succeeds exactly when the range touches
no more tables than the loop visits or the table of its last page was there before. -/
theorem reserve_usable {m m' : Mmu} {root : Nat} (hwf : m.WellFormed root) {start stop : Nat}
    (hstart : start % pageSize = 0) (hstop : stop % pageSize = 0) {ok : Bool}
    (hrun : m.reserveVaRange root start stop = (ok, m')) :
    (∀ va, m'.ram.leafAt root va = m.ram.leafAt root va) ∧
      (ok = true → (Usable m'.ram root start stop ↔ Covered m.ram root start stop)) := by
  obtain ⟨own, tree, spare⟩ := hwf
  unfold Mmu.reserveVaRange at hrun
  rw [if_neg (by simp [hstart, hstop])] at hrun
  obtain ⟨own', grown, hreach, hpath⟩ := tree.reserveLoop spare hrun
  refine ⟨grown.leafAt tree, ?_⟩
  intro hok
  rw [grown.tree.usable_iff]
  have hvisited : ∀ va, (∃ k < (stop - start + (l0Span - 1)) / l0Span,
      vslot 1 va = vslot 1 (start + k * l0Span)) → ∃ t, m'.ram.walkDown root va 3 = some t := by
    rintro va ⟨k, hk, hslot⟩
    obtain ⟨t, ht⟩ := hreach hok k hk
    exact walkDown_same_table hslot.symm ht
  constructor
  · intro hall
    unfold Covered
    by_contra hno
    simp only [not_or] at hno
    obtain ⟨hlt, hmiss, hold, hshort⟩ := hno
    have hpage : pageSize ≤ stop := by
      simp only [pageSize] at *
      omega
    have hlast : start ≤ stop - pageSize := by
      simp only [pageSize] at *
      omega
    obtain ⟨t, ht⟩ := hall (stop - pageSize) hlast (Nat.sub_lt (by omega) (by decide))
    rcases grown.back _ 3 t (Nat.le_refl 3) ht with hwas | hnew
    · exact hold (by simp [Ram.walkToTable, hwas])
    -- a new table is one for an address that the loop visits
    have hown := grown.tree.walkDown_own (Nat.le_refl 3) ht
    rcases hpath t _ _ hown with hsame | ⟨k, hk, hslot⟩
    · cases hnew.symm.trans hsame
    · exact last_not_visited hstart hstop (by omega) hmiss hshort hk hslot
  · intro hcov va hlo hhi
    rcases visited hstart hstop hlo hhi with hin | ⟨hlast, hmiss⟩
    · exact hvisited va hin
    rcases hcov with hempty | hfits | hthere | hlong
    · omega
    · exact absurd hfits hmiss
    · obtain ⟨t, ht⟩ := Option.isSome_iff_exists.mp hthere
      exact walkDown_same_table hlast.symm (grown.walks _ 3 t (Nat.le_refl 3) ht)
    · exact hvisited va (visited_of_long hlong)

/-- A window of one page. -/
theorem reserve_usable_one_page : (freshTable.reserveVaRange freshRoot 0x1FF000 0x200000).1 = true ∧
      Usable (freshTable.reserveVaRange freshRoot 0x1FF000 0x200000).2.ram freshRoot 0x1FF000
        0x200000 := by
  have hok : (freshTable.reserveVaRange freshRoot 0x1FF000 0x200000).1 = true := by decide +kernel
  have hrun : freshTable.reserveVaRange freshRoot 0x1FF000 0x200000 =
    ((freshTable.reserveVaRange freshRoot 0x1FF000 0x200000).1,
      (freshTable.reserveVaRange freshRoot 0x1FF000 0x200000).2) := rfl
  obtain ⟨-, husable⟩ := reserve_usable freshTable_wellFormed rfl rfl hrun
  exact ⟨hok, (husable hok).mpr (.inr (.inl (by decide)))⟩

/-- A window of two pages on either side of a table's end: the second page has no table. -/
theorem reserve_misses_last_table : freshTable.WellFormed freshRoot ∧
      (freshTable.reserveVaRange freshRoot 0x1FF000 0x201000).1 = true ∧
      (freshTable.reserveVaRange freshRoot 0x1FF000 0x201000).2.ram.writeLeafPte freshRoot 0x200000
        (some 0x9000) 0x6 0 = none := by
  refine ⟨freshTable_wellFormed, by decide +kernel, ?_⟩
  have hwalk : (freshTable.reserveVaRange freshRoot 0x1FF000 0x201000).2.ram.walkToTable freshRoot
      0x200000 0 = none := by
    decide +kernel
  simp only [Ram.writeLeafPte, hwalk]

end Paging
