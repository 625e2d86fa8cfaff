import Orbit.Paging.FrameAllocator
import Orbit.Paging.Sv48

/-!
The page-table walkers. A walk either follows existing tables (`walkToTable`) or
creates the missing ones from the table pool (`walkToTableMaterialize`); a leaf is
installed or cleared in the table it ends in. Mapping a range is a loop over its
pages that stops at the first failure and keeps what it has installed so far.
-/

namespace Paging

open Pte

structure MappingConfig where
  permissions : Nat
  levels : Nat
  pageSize : Nat
  vaddr : Nat
  paddr : Nat
  supervisorTag : Nat

/-- The same mapping one page further on. -/
def MappingConfig.next (config : MappingConfig) : MappingConfig :=
  { config with
    paddr := config.paddr + config.pageSize
    vaddr := config.vaddr + config.pageSize }

namespace Ram

/-- Entry `i` of the table at `table`. -/
def entry (r : Ram) (table i : Nat) : Nat := r.word (table + 8 * i)

def setEntry (r : Ram) (table i e : Nat) : Ram := r.setWord (table + 8 * i) e

/-- Descend from `root` towards `va`, `depth` tables down. -/
def walkDown (r : Ram) (root va : Nat) : Nat → Option Nat
  | 0 => some root
  | depth + 1 =>
    match r.walkDown root va depth with
    | none => none
    | some table =>
      let pte := r.entry table (vpn (3 - depth) va)
      if !isValid pte || isLeaf pte then none else some (ppn pte * Paging.pageSize)

def walkToTable (r : Ram) (root va targetLevel : Nat) : Option Nat :=
  r.walkDown root va (3 - targetLevel)

/-- The entry a walk from `table` at depth `level` ends at, with its depth. -/
def walkPteChain (r : Ram) (va : Nat) : Nat → Nat → Nat × Nat
  | 0, table => (0, r.entry table (vpn 0 va))
  | level + 1, table =>
    let pte := r.entry table (vpn (level + 1) va)
    if !isValid pte || isLeaf pte then (level + 1, pte)
    else r.walkPteChain va level (getPpn pte <<< 2)

def virtToPhys (r : Ram) (root va : Nat) : Option Nat :=
  let terminal := r.walkPteChain va 3 root
  if !isValid terminal.2 || !isLeaf terminal.2 then none
  else some (ppn terminal.2 * Paging.pageSize + va % pageBytes terminal.1)

def unmapPage (r : Ram) (root va levels : Nat) : Option Ram :=
  let targetLevel := 4 - levels
  match r.walkToTable root va targetLevel with
  | none => none
  | some table =>
    let idx := vpn targetLevel va
    let pte := r.entry table idx
    if !isValid pte || !isLeaf pte then none else some (r.setEntry table idx 0)

/-- Clear `pages` leaves from `va` on, up to the first that is not there. -/
def unmapPages (r : Ram) (root : Nat) : Nat → Nat → Bool × Ram
  | 0, _ => (true, r)
  | pages + 1, va =>
    match r.unmapPage root va 4 with
    | none => (false, r)
    | some r => r.unmapPages root pages (va + Paging.pageSize)

def unmapRange (r : Ram) (root start stop : Nat) : Bool × Ram :=
  if start % Paging.pageSize ≠ 0 ∨ stop % Paging.pageSize ≠ 0 then (false, r)
  else r.unmapPages root ((stop - start) / Paging.pageSize) start

end Ram

/-- Layout of a table. -/
def pageLayout : Layout := ⟨pageSize, pageSize⟩

/-- What the mapping code works on: memory and the table pool. -/
structure Mmu where
  ram : Ram
  pages : FrameAllocator

/-- How many leaves a mapping loop installed, and whether it got to its end. -/
structure MapResult where
  installed : Nat
  ok : Bool
  mmu : Mmu

namespace Mmu

def allocatePageTable (m : Mmu) : Option (Nat × Mmu) :=
  match m.pages.allocAligned pageLayout with
  | none => none
  | some (pa, pages) => some (pa, { m with pages })

/-- Descend from `root` towards `va`, `depth` tables down, creating missing tables.
What was created before a failure stays. -/
def materializeDown (root va : Nat) : Nat → Mmu → Option Nat × Mmu
  | 0, m => (some root, m)
  | depth + 1, m =>
    match materializeDown root va depth m with
    | (none, m) => (none, m)
    | (some table, m) =>
      let idx := vpn (3 - depth) va
      let pte := m.ram.entry table idx
      if isLeaf pte then (none, m)
      else if !isValid pte then
        match m.allocatePageTable with
        | none => (none, m)
        | some (pa, m) =>
          (some pa, { m with ram :=
            (m.ram.fill pa pageSize 0).setEntry table idx (packTable (pa / pageSize)) })
      else (some (ppn pte * pageSize), m)

def walkToTableMaterialize (m : Mmu) (root va targetLevel : Nat) : Option Nat × Mmu :=
  materializeDown root va (3 - targetLevel) m

def mapAddressPage (m : Mmu) (root : Nat) (config : MappingConfig) : Bool × Mmu :=
  if config.paddr % config.pageSize ≠ 0 ∨ config.vaddr % config.pageSize ≠ 0 then (false, m)
  else
    let targetLevel := 4 - config.levels
    match m.walkToTableMaterialize root config.vaddr targetLevel with
    | (none, m) => (false, m)
    | (some table, m) =>
      let idx := vpn targetLevel config.vaddr
      if isValid (m.ram.entry table idx) then (false, m)
      else
        let pte := packLeaf (config.paddr / pageSize) config.permissions config.supervisorTag
        (true, { m with ram := m.ram.setEntry table idx pte })

def mapPages (root : Nat) : Nat → MappingConfig → Mmu → Nat × Mmu
  | 0, _, m => (0, m)
  | pages + 1, config, m =>
    match m.mapAddressPage root config with
    | (false, m) => (0, m)
    | (true, m) =>
      let rest := mapPages root pages config.next m
      (rest.1 + 1, rest.2)

def mapAddressRange (m : Mmu) (root : Nat) (config : MappingConfig) (vend pend : Nat) : MapResult :=
  let plen := pend - config.paddr
  let vlen := vend - config.vaddr
  if vlen ≠ plen then ⟨0, false, m⟩
  else if config.paddr % config.pageSize ≠ 0 ∨ config.vaddr % config.pageSize ≠ 0 then ⟨0, false, m⟩
  else
    let pagesNeeded := plen / config.pageSize
    let mapped := mapPages root pagesNeeded config m
    ⟨mapped.1, mapped.1 = pagesNeeded, mapped.2⟩

end Mmu

/-- Free the tables below `table`, each after those below it. The source recurses
without a bound; `fuel` bounds the depth, and `none` is a walk deeper than that. -/
def unmapSubtree (r : Ram) : Nat → Nat → FrameAllocator → Option FrameAllocator
  | 0, _, _ => none
  | fuel + 1, table, pages =>
    (List.range 512).foldlM (fun pages i =>
      let entry := r.entry table i
      if !isValid entry || isLeaf entry then some pages
      else
        let next := getPpn entry <<< 2
        match unmapSubtree r fuel next pages with
        | none => none
        | some pages => some (pages.deallocAligned next pageLayout)) pages

/-- Memory and the frame pools. -/
structure Machine (ρ : Type) where
  ram : Ram
  pools : ρ → FrameAllocator

namespace Machine

variable {ρ : Type} [DecidableEq ρ]

def setPool (m : Machine ρ) (k : ρ) (f : FrameAllocator) : Machine ρ :=
  { m with pools := fun j => if j = k then f else m.pools j }

def alloc (m : Machine ρ) (k : ρ) (layout : Layout) : Option (Nat × Machine ρ) :=
  match (m.pools k).allocAligned layout with
  | none => none
  | some (pa, f) => some (pa, m.setPool k f)

def free (m : Machine ρ) (k : ρ) (base : Nat) (layout : Layout) : Machine ρ :=
  m.setPool k ((m.pools k).deallocAligned base layout)

/-- Run mapping code with pool `k` as the table pool. -/
def mmu (m : Machine ρ) (k : ρ) : Mmu := ⟨m.ram, m.pools k⟩

def setMmu (m : Machine ρ) (k : ρ) (t : Mmu) : Machine ρ :=
  { (m.setPool k t.pages) with ram := t.ram }

end Machine

end Paging
