import Orbit.Paging.Mmap

/-!
The mapping helpers beside `map_address_range`: reserving tables for a window whose
leaves come and go, writing such a leaf, and the bulk mappers that choose the largest
leaf at each step and overwrite what they find.
-/

namespace Paging

namespace Ram

def writeLeafPte (r : Ram) (root va : Nat) (paddr : Option Nat) (perms rsw : Nat) : Option Ram :=
  match r.walkToTable root va 0 with
  | none => none
  | some table =>
    match paddr with
    | some pa => some (r.setEntry table (vpn 0 va) (Pte.packLeaf (pa / pageSize) perms rsw))
    | none => some (r.setEntry table (vpn 0 va) 0)

end Ram

def MB : Nat := 1024 * 1024

def GB : Nat := 1024 * MB

/-- The span of one table of 4 KiB leaves. -/
def l0Span : Nat := 512 * pageSize

structure IdMapReport where
  gigapagesMapped : Nat
  megapagesMapped : Nat
  regularpagesMapped : Nat

def IdMapReport.default : IdMapReport := ⟨0, 0, 0⟩

/-- Count a leaf at the table `levels` down. -/
def IdMapReport.count (report : IdMapReport) (levels : Nat) : IdMapReport :=
  if levels = 4 then { report with regularpagesMapped := report.regularpagesMapped + 1 }
  else if levels = 3 then { report with megapagesMapped := report.megapagesMapped + 1 }
  else { report with gigapagesMapped := report.gigapagesMapped + 1 }

/-- `levels` and `page_size` of the next leaf of `map_va_range`. -/
def tier (rem curPa curVa : Nat) : Nat × Nat :=
  if GB ≤ rem ∧ curPa % GB = 0 ∧ curVa % GB = 0 then (2, GB)
  else if 2 * MB ≤ rem ∧ curPa % (2 * MB) = 0 ∧ curVa % (2 * MB) = 0 then (3, 2 * MB)
  else (4, pageSize)

/-- `levels` and `page_size` of the next leaf of `id_map_range`. -/
def idTier (remRam curPageAddr : Nat) : Nat × Nat :=
  if GB ≤ remRam ∧ curPageAddr % GB = 0 then (2, GB)
  else if 2 * MB ≤ remRam ∧ curPageAddr % (2 * MB) = 0 then (3, 2 * MB)
  else (4, pageSize)

/-- Which leaf: its levels down and its size, the largest that fits. -/
theorem tier_cases (rem curPa curVa : Nat) :
    (tier rem curPa curVa = (2, GB) ∧ GB ≤ rem ∧ curPa % GB = 0 ∧ curVa % GB = 0) ∨
    (tier rem curPa curVa = (3, 2 * MB) ∧
      (2 * MB ≤ rem ∧ curPa % (2 * MB) = 0 ∧ curVa % (2 * MB) = 0) ∧
      ¬ (GB ≤ rem ∧ curPa % GB = 0 ∧ curVa % GB = 0)) ∨
    (tier rem curPa curVa = (4, pageSize) ∧
      ¬ (2 * MB ≤ rem ∧ curPa % (2 * MB) = 0 ∧ curVa % (2 * MB) = 0) ∧
      ¬ (GB ≤ rem ∧ curPa % GB = 0 ∧ curVa % GB = 0)) := by
  unfold tier
  split
  · next h => exact .inl ⟨rfl, h⟩
  next h =>
  split
  · next h' => exact .inr (.inl ⟨rfl, h', h⟩)
  · next h' => exact .inr (.inr ⟨rfl, h', h⟩)

theorem tier_pos (rem curPa curVa : Nat) : 0 < (tier rem curPa curVa).2 := by
  rcases tier_cases rem curPa curVa with ⟨h, _⟩ | ⟨h, _⟩ | ⟨h, _⟩ <;> rw [h] <;> decide

theorem idTier_eq (rem addr : Nat) : idTier rem addr = tier rem addr addr := by
  simp only [idTier, tier, and_self]

namespace Mmu

/-- Like `mapAddressPage`, but whatever is at the entry is overwritten. -/
def mapPage (m : Mmu) (root : Nat) (config : MappingConfig) : Bool × Mmu :=
  if config.paddr % config.pageSize ≠ 0 ∨ config.vaddr % config.pageSize ≠ 0 then (false, m)
  else
    let targetLevel := 4 - config.levels
    match m.walkToTableMaterialize root config.vaddr targetLevel with
    | (none, m) => (false, m)
    | (some table, m) =>
      let idx := vpn targetLevel config.vaddr
      let pte := Pte.packLeaf (config.paddr / pageSize) config.permissions config.supervisorTag
      (true, { m with ram := m.ram.setEntry table idx pte })

/-- The loop of `map_va_range`. -/
def mapVaLoop (root : Nat) (base : MappingConfig) (curVa curPa rem : Nat) (report : IdMapReport)
    (m : Mmu) : Option IdMapReport × Mmu :=
  if _hrem : pageSize ≤ rem then
    let leaf := tier rem curPa curVa
    match m.mapPage root { base with
        paddr := curPa, vaddr := curVa, levels := leaf.1, pageSize := leaf.2 } with
    | (false, m) => (none, m)
    | (true, m) =>
      mapVaLoop root base (curVa + leaf.2) (curPa + leaf.2) (rem - leaf.2) (report.count leaf.1) m
  else (some report, m)
termination_by rem
decreasing_by
  have hpos : 0 < rem := Nat.lt_of_lt_of_le (by decide) _hrem
  exact Nat.sub_lt hpos (tier_pos rem curPa curVa)

def mapVaRange (m : Mmu) (root : Nat) (base : MappingConfig) (vaStart paStart paEnd : Nat) :
    Option IdMapReport × Mmu :=
  if paEnd < paStart then (none, m)
  else mapVaLoop root base vaStart paStart (paEnd - paStart) .default m

/-- The loop of `id_map_range`. -/
def idMapLoop (root : Nat) (base : MappingConfig) (curPageAddr remRam : Nat) (report : IdMapReport)
    (m : Mmu) : Option IdMapReport × Mmu :=
  if _hrem : 4096 ≤ remRam then
    let leaf := idTier remRam curPageAddr
    match m.mapPage root { base with
        paddr := curPageAddr, vaddr := curPageAddr, levels := leaf.1, pageSize := leaf.2 } with
    | (false, m) => (none, m)
    | (true, m) =>
      idMapLoop root base (curPageAddr + leaf.2) (remRam - leaf.2) (report.count leaf.1) m
  else (some report, m)
termination_by remRam
decreasing_by
  have hpos : 0 < remRam := Nat.lt_of_lt_of_le (by decide) _hrem
  rw [idTier_eq]
  exact Nat.sub_lt hpos (tier_pos remRam curPageAddr curPageAddr)

def idMapRange (m : Mmu) (root : Nat) (base : MappingConfig) (start stop : Nat) :
    Option IdMapReport × Mmu :=
  if stop < start then (none, m)
  else idMapLoop root base start (stop - start) .default m

/-- `turns` turns of the loop of `reserve_va_range`, the first at `va`. -/
def reserveLoop (root : Nat) : Nat → Nat → Mmu → Bool × Mmu
  | 0, _, m => (true, m)
  | turns + 1, va, m =>
    match m.walkToTableMaterialize root va 0 with
    | (none, m) => (false, m)
    | (some _, m) => reserveLoop root turns (va + l0Span) m

/-- The loop runs while `va < stop`, so once for each span begun. The step saturates in the source,
which ends the loop as well: an end on a page boundary is below the largest address. -/
def reserveVaRange (m : Mmu) (root start stop : Nat) : Bool × Mmu :=
  if start % pageSize ≠ 0 ∨ stop % pageSize ≠ 0 then (false, m)
  else reserveLoop root ((stop - start + (l0Span - 1)) / l0Span) start m

/-- The two loops are one when the range is mapped to itself. -/
theorem idMapLoop_eq (root : Nat) (base : MappingConfig) (addr rem : Nat) (report : IdMapReport)
    (m : Mmu) : idMapLoop root base addr rem report m =
      mapVaLoop root base addr addr rem report m := by
  induction rem using Nat.strong_induction_on generalizing addr report m with
  | _ rem ih =>
    rw [idMapLoop, mapVaLoop, show (4096 : Nat) = pageSize from rfl, idTier_eq]
    split
    · next hrem =>
      have hless : rem - (tier rem addr addr).2 < rem :=
        Nat.sub_lt (Nat.lt_of_lt_of_le (by decide) hrem) (tier_pos rem addr addr)
      cases hmap : m.mapPage root { base with
          paddr := addr, vaddr := addr, levels := (tier rem addr addr).1,
          pageSize := (tier rem addr addr).2 } with
      | mk ok m' =>
        cases ok with
        | false => simp only [hmap]
        | true =>
          simp only [hmap]
          exact ih _ hless _ _ _
    · rfl

end Mmu

end Paging
