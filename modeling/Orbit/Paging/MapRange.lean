import Orbit.Paging.Tree

/-!
`map_address_range` as the inverse of `virt_to_phys`. An address is known to the walks by
its low 48 bits only, so two addresses are the same page-table address when they agree
there.

An entry made without any of R, W and X is no leaf: the mapping code installs it and
reports success, and a walk takes it for a pointer. So the results are for permissions with
one of the three, and what can be said without is proved on a tree whose pointers at the
depth of the mapping are left open.
-/

namespace Paging

open Ram

variable {r r' : Ram}

/-- Bytes of the virtual address space. -/
def vaSpace : Nat := 2 ^ 48

/-- The R, W, X, U and G bits of an entry. -/
def Pte.permissions (e : Nat) : Nat := e &&& 0x3E

private theorem flags_permissions : ∀ x < 64, ∀ y < 4,
    (x ||| (y <<< 8) ||| 1 ||| 0x40 ||| 0x80) &&& 0x3E = x &&& 0x3E := by
  decide +kernel

/-- A leaf has the permissions asked for. -/
theorem Pte.permissions_packLeaf (p perms rsw : Nat) :
    permissions (packLeaf p perms rsw) = permissions perms := by
  have hflags : leafFlags perms rsw < 1024 := leafFlags_lt perms rsw
  have hlow : packLeaf p perms rsw % 1024 = leafFlags perms rsw := by
    rw [packLeaf, ← Nat.shiftLeft_add_eq_or_of_lt (by simpa using hflags), Nat.shiftLeft_eq]
    omega
  have hmod : permissions (packLeaf p perms rsw) = (packLeaf p perms rsw % 2 ^ 10) &&& 0x3E := by
    rw [permissions, ← Nat.and_two_pow_sub_one_eq_mod, Nat.and_assoc]
    rfl
  rw [hmod, show (2 : Nat) ^ 10 = 1024 from rfl, hlow, leafFlags,
    flags_permissions _ (Nat.lt_of_le_of_lt Nat.and_le_right (by decide)) _
      (Nat.lt_of_le_of_lt Nat.and_le_right (by decide)), Nat.and_assoc]
  rfl

theorem Pte.isLeaf_permissions (e : Nat) : isLeaf (permissions e) = isLeaf e := isLeaf_and_perms e

/-! Addresses of a page. -/

/-- The addresses that share an entry at depth `l` with the start of its page. -/
theorem vslot_eq_page_iff {l va a : Nat} (hl : l ≤ 3) (ha : a % pageBytes l = 0) :
    vslot l va = vslot l a ↔ ∃ k, k < pageBytes l ∧ va % vaSpace = (a + k) % vaSpace := by
  constructor
  · intro h
    refine ⟨va % pageBytes l, Nat.mod_lt _ (pageBytes_pos l), ?_⟩
    have : l = 0 ∨ l = 1 ∨ l = 2 ∨ l = 3 := by omega
    rcases this with rfl | rfl | rfl | rfl <;>
      simp only [vslot, pageBytes, pageSize, vaSpace] at * <;> omega
  rintro ⟨k, hk, h⟩
  have : l = 0 ∨ l = 1 ∨ l = 2 ∨ l = 3 := by omega
  rcases this with rfl | rfl | rfl | rfl <;>
    simp only [vslot, pageBytes, pageSize, vaSpace] at * <;> omega

/-- The offset of an address in its page. -/
theorem mod_pageBytes {l va a k : Nat} (hl : l ≤ 3) (ha : a % pageBytes l = 0)
    (hk : k < pageBytes l)
    (h : va % vaSpace = (a + k) % vaSpace) : va % pageBytes l = k := by
  have : l = 0 ∨ l = 1 ∨ l = 2 ∨ l = 3 := by omega
  rcases this with rfl | rfl | rfl | rfl <;> simp only [pageBytes, pageSize, vaSpace] at * <;> omega

/-! Entries that stop a mapping. -/

/-- No leaf can be put at depth `low` for `va`: there is one above or something at its place. -/
def Blocked (low : Nat) (r : Ram) (root va : Nat) : Prop :=
  ∃ k t, k + low ≤ 3 ∧ r.walkDown root va k = some t ∧
    (k + low < 3 → Pte.isLeaf (r.entry t (vpn (3 - k) va)) = true) ∧
    (k + low = 3 → Pte.isValid (r.entry t (vpn (3 - k) va)) = true)

theorem LeafOf.blocked {low : Nat} {root va l e : Nat} (h : LeafOf r root va l e)
    (hlow : low ≤ 3) : Blocked low r root va := by
  obtain ⟨h3, t, hwalk, hentry, hvalid, hleaf⟩ := h
  rcases Nat.lt_or_ge l low with hlt | hge
  · -- smaller leaves hang off the entry
    obtain ⟨next, hnext⟩ := walkDown_prev (show 3 - low + 1 ≤ 3 - l by omega) hwalk
    obtain ⟨parent, hparent, hv, -⟩ := walkDown_succ.mp hnext
    exact ⟨3 - low, parent, by omega, hparent, by omega, fun _ => hv⟩
  refine ⟨3 - l, t, by omega, hwalk, ?_, ?_⟩ <;> rw [show 3 - (3 - l) = l by omega, hentry]
  · exact fun _ => hleaf
  · exact fun _ => hvalid

theorem Grown.blocked {low root va : Nat} {m m' : Mmu} {own own' : Nat → Option (Nat × Nat)}
    (grown : Grown low root m m' own own') (tree : Tree low m.ram root own)
    (h : Blocked low m.ram root va) : Blocked low m'.ram root va := by
  obtain ⟨k, t, hk, hwalk, hleaf, hvalid⟩ := h
  have hown := tree.walkDown_own hk hwalk
  have hsame : m'.ram.entry t (vpn (3 - k) va) = m.ram.entry t (vpn (3 - k) va) := by
    apply grown.entries t _ _ _ hown (vpn_lt _ va)
    rcases Nat.lt_or_ge (k + low) 3 with hlt | hge
    · exact .inr (hleaf hlt)
    · exact .inl (hvalid (by omega))
  refine ⟨k, t, hk, grown.walks va k t hk hwalk, ?_, ?_⟩ <;> rw [hsame]
  · exact hleaf
  · exact hvalid

/-- Addresses of one entry are blocked together. -/
theorem Blocked.va {low root va va' : Nat} (h : Blocked low r root va) (hlow : low ≤ 3)
    (hsame : vslot low va = vslot low va') : Blocked low r root va' := by
  obtain ⟨k, t, hk, hwalk, hleaf, hvalid⟩ := h
  have hslots : ∀ i, low ≤ i → i ≤ 4 → vslot i va = vslot i va' := by
    intro i hi h4
    induction i, hi using Nat.le_induction with
    | base => exact hsame
    | succ i hi ih => exact (vslot_up (ih (by omega)) (by omega)).1
  have hvpn : vpn (3 - k) va = vpn (3 - k) va' :=
    (vslot_up (hslots (3 - k) (by omega) (by omega)) (by omega)).2
  refine ⟨k, t, hk, ?_, ?_, ?_⟩
  · rw [← walkDown_va r root (by omega) (hslots (4 - k) (by omega) (by omega))]
    exact hwalk
  · rw [← hvpn]
    exact hleaf
  · rw [← hvpn]
    exact hvalid

/-- A walk to the table of a blocked address finds its entry taken. -/
theorem Blocked.taken {low root va t : Nat} (h : Blocked low r root va) (hlow : low ≤ 3)
    (hwalk : r.walkDown root va (3 - low) = some t) :
    Pte.isValid (r.entry t (vpn low va)) = true := by
  obtain ⟨k, t', hk, hwalk', hleaf, hvalid⟩ := h
  rcases Nat.lt_or_ge (k + low) 3 with hlt | hge
  · obtain ⟨next, hnext⟩ := walkDown_prev (show k + 1 ≤ 3 - low by omega) hwalk
    obtain ⟨parent, hparent, -, hno, -⟩ := walkDown_succ.mp hnext
    obtain rfl : t' = parent := Option.some.inj (hwalk'.symm.trans hparent)
    rw [hleaf hlt] at hno
    cases hno
  obtain rfl : k = 3 - low := by omega
  obtain rfl : t' = t := Option.some.inj (hwalk'.symm.trans hwalk)
  have := hvalid (by omega)
  rwa [show 3 - (3 - low) = low by omega] at this

/-! One page. -/

/-- The entry that a mapping installs. -/
def MappingConfig.leaf (config : MappingConfig) : Nat :=
  Pte.packLeaf (config.paddr / Paging.pageSize) config.permissions config.supervisorTag

theorem MappingConfig.leaf_lt {config : MappingConfig} (h : config.paddr < 2 ^ 64) :
    config.leaf < 2 ^ 64 := by
  have hflags := Pte.leafFlags_lt config.permissions config.supervisorTag
  rw [leaf, Pte.packLeaf, ← Nat.shiftLeft_add_eq_or_of_lt (by simpa using hflags), Nat.shiftLeft_eq,
    Paging.pageSize]
  omega

section Page

variable {low root : Nat} {m m' : Mmu} {own : Nat → Option (Nat × Nat)} {config : MappingConfig}
  {ok : Bool} {l : Nat}

/-- Mapping a page creates the missing tables and then sets one empty entry, or fails. -/
theorem Tree.mapAddressPage (tree : Tree low m.ram root own) (spare : Spare m.pages own)
    (hlevel : 4 - config.levels = l) (hlow : low ≤ l) (h3 : l ≤ 3)
    (hrun : m.mapAddressPage root config = (ok, m')) :
    ∃ m1 own1, Grown low root m m1 own own1 ∧ (ok = false → m' = m1) ∧
      (ok = true → ∃ t, m1.ram.walkDown root config.vaddr (3 - l) = some t ∧
        Pte.isValid (m1.ram.entry t (vpn l config.vaddr)) = false ∧
        m' = { m1 with ram := m1.ram.setEntry t (vpn l config.vaddr) config.leaf }) := by
  unfold Mmu.mapAddressPage at hrun
  split at hrun
  · cases hrun
    exact ⟨m, own, .refl tree spare, fun _ => rfl, nofun⟩
  dsimp only at hrun
  rw [hlevel] at hrun
  cases hwalk : m.walkToTableMaterialize root config.vaddr l with
  | mk res m1 =>
    obtain ⟨own1, grown, hreach⟩ := tree.walkToTableMaterialize spare hlow h3 hwalk
    rw [hwalk] at hrun
    cases res with
    | none =>
      obtain ⟨rfl, rfl⟩ := Prod.mk.inj hrun
      exact ⟨m1, own1, grown, fun _ => rfl, nofun⟩
    | some t =>
      dsimp only at hrun
      split at hrun
      · obtain ⟨rfl, rfl⟩ := Prod.mk.inj hrun
        exact ⟨m1, own1, grown, fun _ => rfl, nofun⟩
      next hvalid =>
      cases hrun
      exact ⟨m1, own1, grown, nofun,
        fun _ => ⟨t, hreach t rfl, Bool.eq_false_iff.mpr hvalid, rfl⟩⟩

/-- Whatever the permissions: a blocked address is not mapped, and one blocked stays so. -/
theorem Tree.mapAddressPage_blocked (tree : Tree l m.ram root own) (spare : Spare m.pages own)
    (hlevel : 4 - config.levels = l) (h3 : l ≤ 3) (hpa : config.paddr < 2 ^ 64)
    (hrun : m.mapAddressPage root config = (ok, m')) :
    (Blocked l m.ram root config.vaddr → ok = false) ∧
      ∃ own', Tree l m'.ram root own' ∧ Spare m'.pages own' ∧
        ∀ va, Blocked l m.ram root va → Blocked l m'.ram root va := by
  obtain ⟨m1, own1, grown, hfail, hdone⟩ := tree.mapAddressPage spare hlevel (Nat.le_refl l) h3 hrun
  have hkept : ∀ va, Blocked l m.ram root va → Blocked l m1.ram root va :=
    fun va => grown.blocked tree
  cases ok with
  | false =>
    obtain rfl := hfail rfl
    exact ⟨fun _ => rfl, own1, grown.tree, grown.spare, hkept⟩
  | true =>
    obtain ⟨t, hwalk, hinvalid, rfl⟩ := hdone rfl
    have hown := grown.tree.walkDown_own (by omega) hwalk
    rw [show 3 - (3 - l) = l by omega] at hown
    refine ⟨fun hblocked => ?_, own1, ?_, grown.spare, ?_⟩
    · have := (hkept _ hblocked).taken h3 hwalk
      rw [hinvalid] at this
      cases this
    · exact grown.tree.set hown (vpn_lt _ _) (MappingConfig.leaf_lt hpa)
        fun hlt => absurd hlt (Nat.lt_irrefl l)
    intro va hblocked
    obtain ⟨k, t', hk, hwalk', hleaf, hvalid⟩ := hkept va hblocked
    have hown' := grown.tree.walkDown_own hk hwalk'
    have hsame : (m1.ram.setEntry t (vpn l config.vaddr) config.leaf).entry t' (vpn (3 - k) va) =
        m1.ram.entry t' (vpn (3 - k) va) := by
      apply grown.tree.entry_set hown (vpn_lt _ _) hown' (vpn_lt _ _)
      rintro ⟨rfl, hidx⟩
      -- the entry that was set was empty
      have hdepth := (Prod.mk.inj (Option.some.inj (hown.symm.trans hown'))).1
      have := hvalid (by omega)
      rw [hidx, hinvalid] at this
      cases this
    refine ⟨k, t', hk, ?_, ?_, ?_⟩
    · rw [grown.tree.walkDown_set hown (vpn_lt _ _) hk hk]
      exact hwalk'
    · rw [hsame]
      exact hleaf
    · rw [hsame]
      exact hvalid

/-- With a permission that makes a leaf, the addresses of the page get it and no others change. -/
theorem Tree.mapAddressPage_leafAt (tree : Tree 0 m.ram root own) (spare : Spare m.pages own)
    (hlevel : 4 - config.levels = l) (h3 : l ≤ 3) (hpa : config.paddr < 2 ^ 64)
    (hperm : Pte.isLeaf config.permissions = true)
    (hrun : m.mapAddressPage root config = (ok, m')) :
    ∃ own', Tree 0 m'.ram root own' ∧ Spare m'.pages own' ∧ ∀ va, m'.ram.leafAt root va =
      if ok = true ∧ vslot l va = vslot l config.vaddr then some (l, config.leaf)
      else m.ram.leafAt root va := by
  obtain ⟨m1, own1, grown, hfail, hdone⟩ := tree.mapAddressPage spare hlevel (Nat.zero_le l) h3 hrun
  have hsame := grown.leafAt tree
  cases ok with
  | false =>
    obtain rfl := hfail rfl
    refine ⟨own1, grown.tree, grown.spare, fun va => ?_⟩
    rw [if_neg (by simp), hsame]
  | true =>
    obtain ⟨t, hwalk, hinvalid, rfl⟩ := hdone rfl
    obtain ⟨hvalid, hleaf, -⟩ :=
      Pte.packLeaf_spec (config.paddr / pageSize) config.permissions config.supervisorTag
    rw [hperm] at hleaf
    have hown := grown.tree.walkDown_own (by omega) hwalk
    have hlt := MappingConfig.leaf_lt hpa
    refine ⟨own1, grown.tree.set hown (vpn_lt _ _) hlt fun _ _ => hleaf, grown.spare, fun va => ?_⟩
    rw [grown.tree.leafAt_set h3 hwalk hlt (fun _ _ => hleaf), hsame]
    simp only [true_and, MappingConfig.leaf, hvalid, hleaf, Bool.and_self, if_true]

end Page

/-! The loop. -/

section Loop

variable {root n : Nat} {m m' : Mmu} {own : Nat → Option (Nat × Nat)} {config : MappingConfig}
  {l installed : Nat}

/-- Page `j` of a mapping. -/
def MappingConfig.page (config : MappingConfig) (j : Nat) : MappingConfig :=
  { config with
    paddr := config.paddr + j * config.pageSize
    vaddr := config.vaddr + j * config.pageSize }

theorem MappingConfig.page_succ (config : MappingConfig) (j : Nat) :
    config.page (j + 1) = config.next.page j := by
  simp only [page, next, Nat.succ_mul, Nat.add_assoc, Nat.add_comm config.pageSize]

theorem MappingConfig.next_paddr (config : MappingConfig) {n : Nat}
    (h : ∀ j < n + 1, (config.page j).paddr < 2 ^ 64) :
    ∀ j < n, (config.next.page j).paddr < 2 ^ 64 :=
  fun j hj => config.page_succ j ▸ h (j + 1) (Nat.succ_lt_succ hj)

theorem MappingConfig.page_zero (config : MappingConfig) : config.page 0 = config := by
  simp [page]

/-- A loop that comes to a blocked page does not get to its end. -/
theorem Tree.mapPages_blocked (tree : Tree l m.ram root own) (spare : Spare m.pages own)
    (hlevel : 4 - config.levels = l) (h3 : l ≤ 3) (hpa : ∀ j < n, (config.page j).paddr < 2 ^ 64)
    (hrun : Mmu.mapPages root n config m = (n, m')) :
    ∀ j < n, ¬ Blocked l m.ram root (config.page j).vaddr := by
  induction n generalizing m m' own config with
  | zero => exact fun j hj => absurd hj (Nat.not_lt_zero j)
  | succ n ih =>
    rw [Mmu.mapPages] at hrun
    have hfirst := hpa 0 (Nat.succ_pos n)
    rw [config.page_zero] at hfirst
    cases hmap : m.mapAddressPage root config with
    | mk ok m1 =>
      obtain ⟨hstop, own1, tree1, spare1, hkept⟩ :=
        tree.mapAddressPage_blocked spare hlevel h3 hfirst hmap
      rw [hmap] at hrun
      cases ok with
      | false => cases (Prod.mk.inj hrun).1
      | true =>
        dsimp only at hrun
        obtain ⟨hcount, hend⟩ := Prod.mk.inj hrun
        have hbound := config.next_paddr hpa
        have hrest : ∀ j < n, ¬ Blocked l m1.ram root (config.next.page j).vaddr :=
          ih tree1 spare1 hlevel hbound (Prod.ext (Nat.succ.inj hcount) hend)
        intro j hj hblocked
        cases j with
        | zero =>
          rw [config.page_zero] at hblocked
          cases hstop hblocked
        | succ j =>
          rw [config.page_succ] at hblocked
          exact hrest j (Nat.lt_of_succ_lt_succ hj) (hkept _ hblocked)

/-- The loop with a permission that makes a leaf: no address loses its leaf, and at the end each
page has its own. -/
theorem Tree.mapPages_leafAt (tree : Tree 0 m.ram root own) (spare : Spare m.pages own)
    (hlevel : 4 - config.levels = l) (h3 : l ≤ 3) (hpa : ∀ j < n, (config.page j).paddr < 2 ^ 64)
    (hperm : Pte.isLeaf config.permissions = true)
    (hrun : Mmu.mapPages root n config m = (installed, m')) :
    (∃ own', Tree 0 m'.ram root own' ∧ Spare m'.pages own') ∧
    (∀ va x, m.ram.leafAt root va = some x → m'.ram.leafAt root va = some x) ∧
    (installed = n → (∀ j < n, ∀ va, vslot l va = vslot l (config.page j).vaddr →
        m'.ram.leafAt root va = some (l, (config.page j).leaf)) ∧
      ∀ va, (∀ j < n, vslot l va ≠ vslot l (config.page j).vaddr) →
        m'.ram.leafAt root va = m.ram.leafAt root va) := by
  induction n generalizing m own config installed m' with
  | zero =>
    cases hrun
    exact ⟨⟨own, tree, spare⟩, fun _ _ h => h,
      fun _ => ⟨fun j hj => absurd hj (Nat.not_lt_zero j), fun _ _ => rfl⟩⟩
  | succ n ih =>
    rw [Mmu.mapPages] at hrun
    have hfirst := hpa 0 (Nat.succ_pos n)
    rw [config.page_zero] at hfirst
    cases hmap : m.mapAddressPage root config with
    | mk ok m1 =>
      obtain ⟨own1, tree1, spare1, hleaf⟩ :=
        tree.mapAddressPage_leafAt spare hlevel h3 hfirst hperm hmap
      rw [hmap] at hrun
      cases ok with
      | false =>
        cases hrun
        refine ⟨⟨own1, tree1, spare1⟩, fun va x h => ?_, fun h => nomatch h⟩
        rw [hleaf, if_neg (by simp), h]
      | true =>
        -- an address with a leaf is not on the page just mapped
        have hfresh : ∀ va x, m.ram.leafAt root va = some x →
            vslot l va ≠ vslot l config.vaddr := by
          intro va x h hsame
          have hblocked := (tree.leafAt_eq_some.mp h).blocked h3
          have hstop := ((tree.mono (Nat.zero_le l)).mapAddressPage_blocked spare hlevel h3 hfirst
            hmap).1
          cases hstop (hblocked.va h3 hsame)
        dsimp only at hrun
        obtain ⟨hcount, rfl⟩ := Prod.mk.inj hrun
        have hbound := config.next_paddr hpa
        have hnext : 4 - config.next.levels = l := hlevel
        obtain ⟨hwf, hkeep, hdone⟩ := ih tree1 spare1 hnext hbound hperm rfl
        refine ⟨hwf, ?_, ?_⟩
        · intro va x h
          apply hkeep
          rw [hleaf, if_neg (fun hin => hfresh va x h hin.2), h]
        intro hall
        obtain ⟨hin, hout⟩ := hdone (Nat.succ.inj (hcount.trans hall))
        refine ⟨?_, ?_⟩
        · intro j hj va hva
          cases j with
          | zero =>
            rw [config.page_zero] at hva ⊢
            apply hkeep
            rw [hleaf, if_pos ⟨rfl, hva⟩]
          | succ j =>
            rw [config.page_succ] at hva ⊢
            exact hin j (Nat.lt_of_succ_lt_succ hj) va hva
        intro va hva
        rw [hout va, hleaf, if_neg]
        · rintro ⟨-, hsame⟩
          exact hva 0 (Nat.succ_pos n) (by rw [config.page_zero]; exact hsame)
        intro j hj
        rw [← config.page_succ]
        exact hva (j + 1) (Nat.succ_lt_succ hj)

/-- However far the loop came, a leaf that was not there before is that of one of its pages. -/
theorem Tree.mapPages_fresh (tree : Tree 0 m.ram root own) (spare : Spare m.pages own)
    (hlevel : 4 - config.levels = l) (h3 : l ≤ 3) (hpa : ∀ j < n, (config.page j).paddr < 2 ^ 64)
    (hperm : Pte.isLeaf config.permissions = true)
    (hrun : Mmu.mapPages root n config m = (installed, m')) {va : Nat} {x : Nat × Nat}
    (h : m'.ram.leafAt root va = some x) :
    m.ram.leafAt root va = some x ∨
      ∃ j < n, vslot l va = vslot l (config.page j).vaddr ∧ x = (l, (config.page j).leaf) := by
  induction n generalizing m own config installed with
  | zero =>
    cases hrun
    exact .inl h
  | succ n ih =>
    rw [Mmu.mapPages] at hrun
    have hfirst := hpa 0 (Nat.succ_pos n)
    rw [config.page_zero] at hfirst
    cases hmap : m.mapAddressPage root config with
    | mk ok m1 =>
      obtain ⟨own1, tree1, spare1, hleaf⟩ :=
        tree.mapAddressPage_leafAt spare hlevel h3 hfirst hperm hmap
      rw [hmap] at hrun
      cases ok with
      | false =>
        cases hrun
        rw [hleaf, if_neg (by simp)] at h
        exact .inl h
      | true =>
        have hnext : 4 - config.next.levels = l := hlevel
        rcases ih tree1 spare1 hnext (config.next_paddr hpa) hperm
          (congrArg (Prod.mk _) (Prod.mk.inj hrun).2) with hold | ⟨j, hj, hslot, hx⟩
        · rw [hleaf] at hold
          split at hold
          · next hin =>
            cases hold
            refine .inr ⟨0, Nat.succ_pos n, ?_⟩
            rw [config.page_zero]
            exact ⟨hin.2, rfl⟩
          · exact .inl hold
        · refine .inr ⟨j + 1, Nat.succ_lt_succ hj, ?_⟩
          rw [config.page_succ]
          exact ⟨hslot, hx⟩

end Loop

/-! The range. -/

/-- The bytes of the range are translated to those of the physical range, with the permissions
asked for, and every other address as before. -/
structure Translated (r r' : Ram) (root : Nat) (config : MappingConfig) (len : Nat) : Prop where
  inside : ∀ k < len, ∀ va, va % vaSpace = (config.vaddr + k) % vaSpace →
    r'.virtToPhys root va = some (config.paddr + k) ∧
      ∃ l e, r'.leafAt root va = some (l, e) ∧
        Pte.permissions e = Pte.permissions config.permissions
  outside : ∀ va, (∀ k < len, va % vaSpace ≠ (config.vaddr + k) % vaSpace) →
    r'.virtToPhys root va = r.virtToPhys root va ∧ r'.leafAt root va = r.leafAt root va

/-- Byte `k` of a range lies on its page `k / ps`. -/
theorem MappingConfig.page_of_byte {config : MappingConfig} {l k : Nat} (h3 : l ≤ 3)
    (hsize : config.pageSize = pageBytes l) (hva : config.vaddr % pageBytes l = 0) {va : Nat}
    (h : va % vaSpace = (config.vaddr + k) % vaSpace) :
    vslot l va = vslot l (config.page (k / pageBytes l)).vaddr ∧
      va % pageBytes l = k % pageBytes l := by
  have hpage : (config.page (k / pageBytes l)).vaddr % pageBytes l = 0 := by
    simp only [page, hsize, Nat.add_mul_mod_self_right, hva]
  have hbyte : config.vaddr + k = (config.page (k / pageBytes l)).vaddr + k % pageBytes l := by
    simp only [page, hsize, Nat.add_assoc, Nat.div_add_mod' k (pageBytes l)]
  have hlt : k % pageBytes l < pageBytes l := Nat.mod_lt _ (pageBytes_pos l)
  rw [hbyte] at h
  exact ⟨(vslot_eq_page_iff h3 hpage).mpr ⟨_, hlt, h⟩, mod_pageBytes h3 hpage hlt h⟩

/-- Pages that all got their leaves translate the range. -/
theorem translated_of_leaves {root n l : Nat} {config : MappingConfig} (h3 : l ≤ 3)
    (hsize : config.pageSize = pageBytes l) (hva : config.vaddr % pageBytes l = 0)
    (hpa : config.paddr % pageBytes l = 0)
    (hin : ∀ j < n, ∀ va, vslot l va = vslot l (config.page j).vaddr →
      r'.leafAt root va = some (l, (config.page j).leaf))
    (hout : ∀ va, (∀ j < n, vslot l va ≠ vslot l (config.page j).vaddr) →
      r'.leafAt root va = r.leafAt root va) :
    Translated r r' root config (n * pageBytes l) := by
  constructor
  · intro k hk va h
    obtain ⟨hslot, hoff⟩ := MappingConfig.page_of_byte h3 hsize hva h
    have hj : k / pageBytes l < n := Nat.div_lt_of_lt_mul (by rwa [Nat.mul_comm])
    have hleaf := hin _ hj va hslot
    obtain ⟨-, -, -, -, hppn⟩ :=
      Pte.packLeaf_spec ((config.page (k / pageBytes l)).paddr / pageSize)
      (config.page (k / pageBytes l)).permissions (config.page (k / pageBytes l)).supervisorTag
    refine ⟨?_, l, _, hleaf, Pte.permissions_packLeaf _ _ _⟩
    rw [virtToPhys_eq, hleaf, Option.map_some]
    congr 1
    dsimp only
    rw [hoff, MappingConfig.leaf, hppn]
    have hdvd : pageSize ∣ (config.page (k / pageBytes l)).paddr := by
      apply Dvd.dvd.trans (pageSize_dvd_pageBytes l)
      apply Nat.dvd_of_mod_eq_zero
      simp only [MappingConfig.page, hsize, Nat.add_mul_mod_self_right, hpa]
    rw [Nat.div_mul_cancel hdvd]
    simp only [MappingConfig.page, hsize, Nat.add_assoc, Nat.div_add_mod' k (pageBytes l)]
  · intro va hva'
    have hleaf : r'.leafAt root va = r.leafAt root va := by
      apply hout
      intro j hj hslot
      have hpage : (config.page j).vaddr % pageBytes l = 0 := by
        simp only [MappingConfig.page, hsize, Nat.add_mul_mod_self_right, hva]
      obtain ⟨k, hk, h⟩ := (vslot_eq_page_iff h3 hpage).mp hslot
      refine hva' (j * pageBytes l + k) ?_ ?_
      · have : (j + 1) * pageBytes l ≤ n * pageBytes l := Nat.mul_le_mul_right _ hj
        rw [Nat.succ_mul] at this
        omega
      · rw [h]
        simp only [MappingConfig.page, hsize, Nat.add_assoc]
    rw [virtToPhys_eq, virtToPhys_eq, hleaf]
    exact ⟨rfl, rfl⟩

/-- A translation with the permissions asked for needs one that makes a leaf. -/
theorem Translated.isLeaf {root len : Nat} {config : MappingConfig}
    (h : Translated r r' root config len) (hlen : 0 < len) :
    Pte.isLeaf config.permissions = true := by
  obtain ⟨-, l, e, hleaf, hperm⟩ := h.inside 0 hlen config.vaddr rfl
  have hbit : Pte.isLeaf e = true := by
    unfold leafAt at hleaf
    dsimp only at hleaf
    split at hleaf
    · next hboth =>
      obtain rfl : (r'.walkPteChain config.vaddr 3 root).2 = e :=
        congrArg Prod.snd (Option.some.inj hleaf)
      rw [Bool.and_eq_true] at hboth
      exact hboth.2
    · cases hleaf
  rw [← Pte.isLeaf_permissions, ← hperm, Pte.isLeaf_permissions]
  exact hbit

/-- For every well-formed table, page size and aligned range: a call that succeeds has mapped the
range exactly, unless the permissions have none of R, W and X and there is a page to map. If an
address of the range has a leaf the call fails; and no call takes a leaf from an address. -/
theorem map_address_range_exact {m : Mmu} {root : Nat} (hwf : m.WellFormed root)
    (config : MappingConfig) (vend pend : Nat)
    (hlevels : 1 ≤ config.levels ∧ config.levels ≤ 4)
    (hsize : config.pageSize = pageBytes (4 - config.levels))
    (hvrange : config.vaddr ≤ vend) (hprange : config.paddr ≤ pend) (hpend : pend < 2 ^ 64)
    (halign : config.pageSize ∣ vend - config.vaddr) {out : MapResult}
    (hrun : m.mapAddressRange root config vend pend = out) :
    (out.ok = true → (Translated m.ram out.mmu.ram root config (vend - config.vaddr) ↔
      vend = config.vaddr ∨ Pte.isLeaf config.permissions = true)) ∧
    (∀ k < vend - config.vaddr, m.ram.leafAt root (config.vaddr + k) ≠ none → out.ok = false) ∧
    (Pte.isLeaf config.permissions = true → ∀ va x, m.ram.leafAt root va = some x →
      out.mmu.ram.leafAt root va = some x) := by
  obtain ⟨own, tree, spare⟩ := hwf
  have h3 : 4 - config.levels ≤ 3 := by omega
  generalize hl : 4 - config.levels = l at *
  unfold Mmu.mapAddressRange at hrun
  dsimp only at hrun
  split at hrun
  · subst hrun
    exact ⟨nofun, fun _ _ _ => rfl, fun _ _ _ h => h⟩
  next hlen =>
  rw [not_not] at hlen
  split at hrun
  · subst hrun
    exact ⟨nofun, fun _ _ _ => rfl, fun _ _ _ h => h⟩
  next haligned =>
  rw [not_or, not_not, not_not, hsize] at haligned
  obtain ⟨hpa, hva⟩ := haligned
  rw [hsize, ← hlen] at hrun
  rw [hsize] at halign
  generalize hn : (vend - config.vaddr) / pageBytes l = n at hrun
  have htotal : n * pageBytes l = vend - config.vaddr := by
    rw [← hn, Nat.div_mul_cancel halign]
  have hbound : ∀ j < n, (config.page j).paddr < 2 ^ 64 := by
    intro j hj
    have : (j + 1) * pageBytes l ≤ n * pageBytes l := Nat.mul_le_mul_right _ hj
    have hpos := pageBytes_pos l
    rw [Nat.succ_mul] at this
    simp only [MappingConfig.page, hsize]
    omega
  cases hloop : Mmu.mapPages root n config m with
  | mk installed m' =>
    rw [hloop] at hrun
    subst hrun
    dsimp only
    refine ⟨?_, ?_, ?_⟩
    · intro hok
      obtain rfl : installed = n := of_decide_eq_true hok
      rw [← htotal]
      constructor
      · intro htrans
        rcases Nat.eq_zero_or_pos (installed * pageBytes l) with hzero | hpos
        · exact .inl (by omega)
        · exact .inr (htrans.isLeaf hpos)
      rintro (hempty | hperm)
      · obtain rfl : installed = 0 := by
          rcases Nat.eq_zero_or_pos installed with h | h
          · exact h
          · have := Nat.mul_pos h (pageBytes_pos l)
            omega
        cases hloop
        rw [Nat.zero_mul]
        exact ⟨fun k hk => absurd hk (Nat.not_lt_zero k), fun _ _ => ⟨rfl, rfl⟩⟩
      obtain ⟨-, -, hdone⟩ := tree.mapPages_leafAt spare hl h3 hbound hperm hloop
      obtain ⟨hin, hout⟩ := hdone rfl
      exact translated_of_leaves h3 hsize hva hpa hin hout
    · intro k hk hleaf
      rw [decide_eq_false_iff_not]
      rintro rfl
      obtain ⟨⟨l', e⟩, hsome⟩ := Option.ne_none_iff_exists'.mp hleaf
      have hblocked := (tree.leafAt_eq_some.mp hsome).blocked h3
      obtain ⟨hslot, -⟩ := MappingConfig.page_of_byte h3 hsize hva
        (rfl : (config.vaddr + k) % vaSpace = _)
      have hj : k / pageBytes l < installed :=
        Nat.div_lt_of_lt_mul (by rw [Nat.mul_comm, htotal]; exact hk)
      exact (tree.mono (Nat.zero_le l)).mapPages_blocked spare hl h3 hbound hloop _ hj
        (hblocked.va h3 hslot)
    · intro hperm
      exact (tree.mapPages_leafAt spare hl h3 hbound hperm hloop).2.1

/-! An empty table at `0x1000` and four pages for more. -/

def freshRoot : Nat := 0x1000

def freshTable : Mmu where
  ram := ⟨fun _ => 0⟩
  pages := ⟨fun i => if i = 14 then [0x4000] else []⟩

theorem freshTable_entry (t i : Nat) : freshTable.ram.entry t i = 0 :=
  littleEndian_zero fun _ _ => rfl

theorem freshTable_oneBlock : freshTable.pages.OneBlock 14 0x4000 :=
  FrameAllocator.oneBlock_of_list fun _ hb => List.mem_singleton.mp hb

theorem freshTable_apart {a : Nat} (ha : Within freshRoot pageSize a) :
    ¬ freshTable.pages.Free a := by
  intro hfree
  have hin := freshTable_oneBlock.within hfree
  simp only [Within, freshRoot, pageSize] at ha hin
  omega

theorem freshTable_wellFormed : freshTable.WellFormed freshRoot := by
  refine ⟨rootOnly freshRoot, .rootOnly rfl fun i _ => freshTable_entry freshRoot i,
    freshTable_oneBlock.wf (by decide) (by decide) (by decide), fun t l s ht a ha => ?_⟩
  rw [eq_of_rootOnly ht] at ha
  exact freshTable_apart ha

/-- One 4 KiB page at `0x200000` for the frame at `0x9000`. -/
def onePage (permissions : Nat) : MappingConfig := ⟨permissions, 4, pageSize, 0x200000, 0x9000, 0⟩

theorem map_address_range_exact_one_page :
    (freshTable.mapAddressRange freshRoot (onePage 0x16) 0x201000 0xA000).ok = true ∧
      Translated freshTable.ram (freshTable.mapAddressRange freshRoot (onePage 0x16) 0x201000
        0xA000).mmu.ram freshRoot (onePage 0x16) pageSize := by
  have hok : (freshTable.mapAddressRange freshRoot (onePage 0x16) 0x201000 0xA000).ok = true := by
    decide +kernel
  obtain ⟨hmapped, -⟩ :=
    map_address_range_exact freshTable_wellFormed (onePage 0x16) 0x201000 0xA000
    (by decide) rfl (by decide) (by decide) (by decide) (by decide) rfl
  exact ⟨hok, (hmapped hok).mpr (.inr (by decide))⟩

/-- A page mapped with U alone: the call succeeds, and the address has no translation. -/
theorem mapping_without_rwx_is_lost : freshTable.WellFormed freshRoot ∧
      (freshTable.mapAddressRange freshRoot (onePage 0x10) 0x201000 0xA000).ok = true ∧
      (freshTable.mapAddressRange freshRoot (onePage 0x10) 0x201000 0xA000).mmu.ram.virtToPhys
        freshRoot 0x200000 = none := by
  refine ⟨freshTable_wellFormed, ?_, ?_⟩ <;> decide +kernel

end Paging
