import Orbit.Mem.Requests
import Orbit.Paging.Outside

/-!
Requests that create something and fail. Each allocates a block, maps it and then records it;
what is seen afterwards depends on how far it came. A failure before the first page is in the
table is undone by giving the block back. Pages installed before a later failure stay, and a
net channel that cannot be handed to the network thread keeps everything.
-/

namespace Orbit.Mem

open Paging State
open Orbit.Abi (Errno)

variable {config : MappingConfig} {j : Pool}

variable {req : FbSurfaceCreateReq} {r : Int × Int} {hart : Nat} {s1 : State}

/-- The caller's table is well formed, and neither its pages nor free tables are in a pool of data
frames. -/
structure Ready (s : State) (root : Nat) (own : Nat → Option (Nat × Nat)) : Prop where
  tree : Tree 0 s.mem.ram root own
  wf : ∀ pool, (s.mem.pools pool).Wf
  apart : ∀ pool t x, own t = some x → ∀ a, Within t pageSize a → ¬ (s.mem.pools pool).Free a
  pools : ∀ pool a, pool ≠ .table → (s.mem.pools pool).Free a → ¬ (s.mem.pools .table).Free a

/-- The handle table of the caller, the leaf of every address and the free data frames are as
before. -/
structure NoTrace (s s' : State) (pid root : Nat) : Prop where
  handles : s'.processHandles.get pid = s.processHandles.get pid
  translation : ∀ va, s'.mem.ram.leafAt root va = s.mem.ram.leafAt root va
  frames : ∀ pool, pool ≠ .table → ∀ a, (s'.mem.pools pool).Free a ↔ (s.mem.pools pool).Free a

theorem NoTrace.refl (s : State) (pid root : Nat) : NoTrace s s pid root :=
  ⟨rfl, fun _ => rfl, fun _ _ _ => Iff.rfl⟩

/-- A block that is taken and given back leaves the pool as it was. The allocator drops a pair of
buddies that it merges beyond its largest class, so this is not always so. -/
def Restores (s : State) (pool : Pool) (layout : Layout) : Prop :=
  ∀ frame f, (s.mem.pools pool).allocAligned layout = some (frame, f) →
    ∀ a, (f.deallocAligned frame layout).Free a ↔ (s.mem.pools pool).Free a

namespace State

/-- The zeroed block that a request gets, if it comes that far. -/
def block (s : State) (pool : Pool) (size align : Nat) : Option (Layout × Nat × State) :=
  match Layout.fromSizeAlign size align with
  | none => none
  | some layout =>
    match s.alloc pool layout with
    | none => none
    | some (frame, s) => some (layout, frame, s.writeBytes frame size 0)

/-- The mapping loop with tables from `table_pages`. -/
def mapping (s : State) (root : Nat) (config : MappingConfig) (vend pend : Nat) : MapResult :=
  (s.mem.mmu .table).mapAddressRange root config vend pend

end State

/-- A state with a block in hand: everything else is as in `s`. -/
structure Fetched (s s' : State) (root : Nat) (own : Nat → Option (Nat × Nat)) (pool : Pool)
    (layout : Layout) (frame size : Nat) : Prop where
  processes : s'.processes = s.processes
  handles : s'.processHandles = s.processHandles
  surfaces : s'.surfaceTable = s.surfaceTable
  tree : Tree 0 s'.mem.ram root own
  spare : Spare (s'.mem.pools .table) own
  leaves : ∀ va, s'.mem.ram.leafAt root va = s.mem.ram.leafAt root va
  walks : ∀ va, ∀ d ≤ 3, s'.mem.ram.walkDown root va d = s.mem.ram.walkDown root va d
  blank : Blank s'.mem.ram (s'.mem.pools .table) own frame size
  stop : frame + size ≤ physEnd
  others : ∀ j, j ≠ pool → s'.mem.pools j = s.mem.pools j
  alloc : (s.mem.pools pool).allocAligned layout = some (frame, s'.mem.pools pool)
  was : (s.mem.pools pool).Free frame ∧ ¬ (s'.mem.pools pool).Free frame

theorem layout_of_fromSizeAlign {size align : Nat} {layout : Layout}
    (h : Layout.fromSizeAlign size align = some layout) :
    layout = ⟨size, align⟩ ∧ size ≤ layout.span := by
  rw [Layout.fromSizeAlign] at h
  split at h
  · cases h
    have hbound : (⟨size, align⟩ : Layout).size ≤ 2 ^ 63 := by
      show size ≤ 2 ^ 63
      omega
    exact ⟨rfl, Layout.size_le_span hbound⟩
  · cases h

section Block

variable {s s' : State} {root : Nat} {own : Nat → Option (Nat × Nat)} {pool : Pool}
  {layout : Layout}
  {frame size : Nat}

/-- A data pool holds no table and no page for one. -/
theorem Ready.outside (h : Ready s root own) {a : Nat} (hpool : pool ≠ .table)
    (hfree : (s.mem.pools pool).Free a) : Outside (s.mem.pools .table) own a :=
  ⟨fun t x ht hin => h.apart pool t x ht a hin hfree, h.pools pool a hpool hfree⟩

theorem Ready.spare (h : Ready s root own) : Spare (s.mem.pools .table) own :=
  ⟨h.wf .table, fun t l x ht => h.apart .table t (l, x) ht⟩

/-- A block taken from a pool: no byte of memory changes, and no other pool. -/
theorem State.alloc_some (h : s.alloc pool layout = some (frame, s')) :
    (s.mem.pools pool).allocAligned layout = some (frame, s'.mem.pools pool) ∧
      s'.mem.ram.byte = s.mem.ram.byte ∧ (∀ j, j ≠ pool → s'.mem.pools j = s.mem.pools j) ∧
      s' = { s with mem := s'.mem } := by
  unfold State.alloc Machine.alloc at h
  cases htake : (s.mem.pools pool).allocAligned layout with
  | none =>
    rw [htake] at h
    cases h
  | some res =>
    obtain ⟨pa, f⟩ := res
    rw [htake] at h
    obtain ⟨rfl, rfl⟩ := Prod.mk.inj (Option.some.inj h)
    refine ⟨?_, rfl, fun j hj => if_neg hj, rfl⟩
    show some (pa, f) = some (pa, if pool = pool then f else s.mem.pools pool)
    rw [if_pos rfl]

theorem Ready.block (h : Ready s root own) (hpool : pool ≠ .table) {align k : Nat}
    (halign : align = 2 ^ k) (hblock : s.block pool size align = some (layout, frame, s')) :
    Fetched s s' root own pool layout frame size := by
  unfold State.block at hblock
  split at hblock
  · cases hblock
  next layout' hlayout =>
  obtain ⟨hlay, hspan⟩ := layout_of_fromSizeAlign hlayout
  split at hblock
  · cases hblock
  next frame' s1 halloc =>
  obtain ⟨rfl, hrest⟩ := Prod.mk.inj (Option.some.inj hblock)
  obtain ⟨rfl, rfl⟩ := Prod.mk.inj hrest
  have hwf : layout'.Wf := ⟨k, by rw [hlay]; exact halign⟩
  obtain ⟨htake, hbyte, hothers, hmem⟩ := State.alloc_some halloc
  obtain ⟨-, -, hend, hwas, hnow⟩ := (h.wf pool).allocAligned hwf htake
  -- the block lies in the pool, so away from the tables
  have hin : ∀ a, Within frame' size a → (s.mem.pools pool).Free a := fun a ha =>
    hwas a ⟨ha.1, Nat.lt_of_lt_of_le ha.2 (by omega)⟩
  have haway : ∀ t x, own t = some x → ∀ a, Within t pageSize a → ¬ Within frame' size a :=
    fun t x ht a ha hblk => h.apart pool t x ht a ha (hin a hblk)
  have hbytes : ∀ t x, own t = some x → ∀ a, Within t pageSize a →
      (s1.writeBytes frame' size 0).mem.ram.byte a = s.mem.ram.byte a :=
    fun t x ht a ha => (Ram.sameOutside_fill _ _ _ _ a (haway t x ht a ha)).trans (congrFun hbyte a)
  obtain ⟨tree, hleaves, hwalks⟩ := h.tree.of_sameTables hbytes
  have hself : Within frame' layout'.span frame' := by
    obtain ⟨j, hj⟩ := hwf.span_pow
    rw [hj]
    exact ⟨Nat.le_refl _, Nat.lt_add_of_pos_right (Nat.two_pow_pos j)⟩
  have htable : (s1.writeBytes frame' size 0).mem.pools .table = s.mem.pools .table :=
    hothers .table hpool.symm
  have hprocesses : s1.processes = s.processes := by rw [hmem]
  have hhandles : s1.processHandles = s.processHandles := by rw [hmem]
  have hsurfaces : s1.surfaceTable = s.surfaceTable := by rw [hmem]
  refine ⟨hprocesses, hhandles, hsurfaces, tree, htable ▸ h.spare, hleaves, hwalks,
    ⟨fun a ha => if_pos ha, fun a ha => ?_, ?_⟩, by omega, hothers, htake, hwas frame' hself,
    fun hfree => (hnow frame' hfree).2 hself⟩
  · rw [htable]
    exact (h.outside hpool (hin a ha)).2
  · exact fun a ha t x ht hat => haway t x ht a hat ha

/-- The first page is refused: it is not aligned, its address is mapped already, or its table is
missing and no page for tables is free. -/
def FirstRefused (s : State) (root vaddr levels : Nat) : Prop :=
  vaddr % pageBytes (4 - levels) ≠ 0 ∨ s.mem.ram.leafAt root vaddr ≠ none ∨
    s.mem.ram.walkDown root vaddr (3 - (4 - levels)) = none ∧
      (s.mem.pools .table).allocAligned pageLayout = none

/-- A mapping loop whose first page is refused installs nothing that is translated. -/
theorem Fetched.refused (h : Fetched s s' root own pool layout frame size) (hpool : pool ≠ .table)
    (h3 : 4 - config.levels ≤ 3) (hsize : config.pageSize = pageBytes (4 - config.levels))
    (hframe : config.paddr = frame) (vend : Nat)
    (hrefused : FirstRefused s root config.vaddr config.levels) :
    (s'.mapping root config vend (frame + size)).installed = 0 ∨
      Pte.isLeaf config.permissions = false := by
  rcases hrefused with hunaligned | hmapped | ⟨hwalk, hnone⟩
  · left
    unfold State.mapping Mmu.mapAddressRange
    dsimp only
    split
    · rfl
    rw [if_pos (.inr (hsize ▸ hunaligned))]
  · subst hframe
    by_contra hboth
    obtain ⟨hpos, hperm⟩ := not_or.mp hboth
    have hblank : Blank s'.mem.ram (s'.mem.pools .table) own config.paddr
        (config.paddr + size - config.paddr) := by
      rw [Nat.add_sub_cancel_left]
      exact h.blank
    have htree : Tree 0 (s'.mem.mmu .table).ram root own := h.tree
    have hfirst := (htree.mapAddressRange_leftover h.spare rfl h3 hsize vend h.stop hblank).2
      (Nat.pos_of_ne_zero hpos) (by simpa using hperm)
    exact hmapped ((h.leaves config.vaddr).symm.trans hfirst.1)
  · left
    apply Mmu.mapAddressRange_no_table
    · exact (congrArg (FrameAllocator.allocAligned · pageLayout) (h.others .table hpool.symm)).trans
        hnone
    · exact (h.walks config.vaddr _ (Nat.sub_le _ _)).trans hwalk

/-- In a pool without a block of the largest class nothing is lost. -/
theorem Ready.restores (h : Ready s root own) (htop : (s.mem.pools pool).freeList (orders - 1) = [])
    (hlayout : layout.Wf) : Restores s pool layout :=
  fun _ _ htake _ => (h.wf pool).free_dealloc_alloc htop hlayout htake

theorem State.block_wf {align k : Nat} (halign : align = 2 ^ k)
    (hblock : s.block pool size align = some (layout, frame, s')) : layout.Wf := by
  unfold State.block at hblock
  split at hblock
  · cases hblock
  next layout' hlayout =>
  split at hblock
  · cases hblock
  · cases hblock
    rw [(layout_of_fromSizeAlign hlayout).1]
    exact ⟨k, halign⟩

end Block

namespace MemMapReq

def pool (req : MemMapReq) : Pool := if req.shareWithKernel then .shared else .userOnly

def backing (req : MemMapReq) (frame : Nat) (layout : Layout) : PhysBacking :=
  if req.shareWithKernel then .shared frame layout else .user frame layout

theorem backing_spec (req : MemMapReq) (frame : Nat) (layout : Layout) :
    (req.backing frame layout).pool = req.pool ∧ (req.backing frame layout).pa = frame ∧
      (req.backing frame layout).layout = layout := by
  rw [backing, pool]
  split <;> exact ⟨rfl, rfl, rfl⟩

theorem pool_ne_table (req : MemMapReq) : req.pool ≠ .table := by
  rw [pool]
  split <;> exact nofun

end MemMapReq

theorem selectMappingGeometry_pow {vaddr size : Nat} {g : MappingGeometry}
    (h : selectMappingGeometry vaddr size = some g) : ∃ k, g.align = 2 ^ k := by
  rw [selectMappingGeometry] at h
  split at h
  · cases h
    exact ⟨21, show largePage = 2 ^ 21 by decide⟩
  split at h
  · cases h
    exact ⟨12, show pageSize = 2 ^ 12 by decide⟩
  · cases h

namespace State

/-- The geometry and the block of a request for memory, if it comes that far. -/
def mmapBlock (s : State) (req : MemMapReq) : Option (MappingGeometry × Layout × Nat × State) :=
  match selectMappingGeometry req.vaddr req.size with
  | none => none
  | some g =>
    match s.block req.pool req.size g.align with
    | none => none
    | some block => some (g, block)

variable {s s' : State}

theorem runMmapReq_cases {req : MemMapReq} {pid root : Nat} {r : Int}
    (h : s.runMmapReq req pid root = .ok (r, s')) :
    (s.mmapBlock req = none ∧ s' = s) ∨
    ∃ g layout frame s1, s.mmapBlock req = some (g, layout, frame, s1) ∧
      s1.installMmap req g (req.backing frame layout) pid root = (r, s') := by
  unfold runMmapReq at h
  unfold mmapBlock block
  cases hg : selectMappingGeometry req.vaddr req.size with
  | none =>
    rw [hg] at h
    cases h
    exact .inl ⟨rfl, rfl⟩
  | some g =>
    rw [hg] at h
    dsimp only at h ⊢
    cases hlayout : Layout.fromSizeAlign req.size g.align with
    | none =>
      rw [hlayout] at h
      cases h
      exact .inl ⟨rfl, rfl⟩
    | some layout =>
      obtain ⟨hlay, -⟩ := layout_of_fromSizeAlign hlayout
      have hsize : layout.size = req.size := by rw [hlay]
      rw [hlayout] at h
      dsimp only at h ⊢
      rw [hsize] at h
      cases hshare : req.shareWithKernel with
      | true =>
        simp only [hshare, if_true] at h
        simp only [MemMapReq.pool, MemMapReq.backing, hshare, if_true]
        cases halloc : s.alloc .shared layout with
        | none =>
          rw [halloc] at h
          cases h
          exact .inl ⟨rfl, rfl⟩
        | some res =>
          obtain ⟨frame, s1⟩ := res
          rw [halloc] at h
          exact .inr ⟨g, layout, frame, _, rfl, Except.ok.inj h⟩
      | false =>
        simp only [hshare, Bool.false_eq_true, if_false] at h
        simp only [MemMapReq.pool, MemMapReq.backing, hshare, Bool.false_eq_true, if_false]
        cases halloc : s.alloc .userOnly layout with
        | none =>
          rw [halloc] at h
          cases h
          exact .inl ⟨rfl, rfl⟩
        | some res =>
          obtain ⟨frame, s1⟩ := res
          rw [halloc] at h
          dsimp only at h
          split at h
          · cases h
          · exact .inr ⟨g, layout, frame, _, rfl, Except.ok.inj h⟩

end State

/-- A request for memory that fails leaves no trace under this condition: the block it gets can be
given back, and no page of it is installed that is translated. -/
def MmapClean (s : State) (req : MemMapReq) (root : Nat) : Prop :=
  ∀ g layout frame s1, s.mmapBlock req = some (g, layout, frame, s1) →
    Restores s req.pool layout ∧
      ((s1.mapping root (req.config g (req.backing frame layout)) (req.vaddr + req.size)
          (frame + req.size)).installed = 0 ∨ Pte.isLeaf req.permissions = false)

section Handlers

variable {s s' : State} {root : Nat} {own : Nat → Option (Nat × Nat)}

end Handlers

/-! Surfaces. -/

/-- The bytes of a surface. -/
def FbSurfaceCreateReq.size (req : FbSurfaceCreateReq) : Nat :=
  surfaceSize (req.width * req.height * (fbBytesPerPixel req.formatRaw).getD 0)

namespace State

/-- The block of a request for a surface, if it comes that far. -/
def surfaceBlock (s : State) (req : FbSurfaceCreateReq) : Option (Layout × Nat × State) :=
  match fbBytesPerPixel req.formatRaw with
  | none => none
  | some bpp =>
    if req.width = 0 ∨ req.height = 0 then none
    else if 2 ^ 64 ≤ req.width * req.height * bpp then none
    else s.block .shared req.size pageSize

variable {s s' : State}

theorem surfaceBlock_eq_some {b : Layout × Nat × State}
    (h : s.surfaceBlock req = some b) : s.block .shared req.size pageSize = some b := by
  unfold surfaceBlock at h
  split at h
  · cases h
  split at h
  · cases h
  split at h
  · cases h
  · exact h

/-- The mapping loop for a surface at the caller's cursor. -/
def surfaceMapping (s : State) (va size frame root : Nat) : MapResult :=
  s.mapping root (pageConfig sharedPermissions va frame .none) (va + size) (frame + size)

end State

/-- A request for a surface that fails leaves no trace under this condition: the block can be given
back, and no page was installed, or the range lies below `2 ^ 64` and is unmapped again because the
process is gone. -/
def SurfaceClean (s : State) (req : FbSurfaceCreateReq) (pid root : Nat) : Prop :=
  ∀ layout frame s1, s.surfaceBlock req = some (layout, frame, s1) →
    let va := (s.surfacesOf pid).nextVaCursor
    Restores s .shared layout ∧
      (uprocSharedEnd < (va + req.size) % 2 ^ 64 ∨
        (s1.surfaceMapping va req.size frame root).installed = 0 ∨
        (s1.surfaceMapping va req.size frame root).ok = true ∧ va + req.size < 2 ^ 64)

theorem sharedPermissions_leaf : Pte.isLeaf sharedPermissions = true := by decide

theorem pageSize_eq_pow : pageSize = 2 ^ 12 := by decide

/-- A mapping that got to its end installed every page, from aligned addresses on. -/
theorem mapAddressRange_ok {m : Mmu} {root vend pend : Nat}
    (h : (m.mapAddressRange root config vend pend).ok = true) :
    config.paddr % config.pageSize = 0 ∧ config.vaddr % config.pageSize = 0 ∧
      (m.mapAddressRange root config vend pend).installed =
        (pend - config.paddr) / config.pageSize ∧
      Mmu.mapPages root ((pend - config.paddr) / config.pageSize) config m =
        ((pend - config.paddr) / config.pageSize,
          (m.mapAddressRange root config vend pend).mmu) := by
  unfold Mmu.mapAddressRange at h ⊢
  dsimp only at h ⊢
  split at h
  · cases h
  next hlen =>
  rw [if_neg hlen]
  split at h
  · cases h
  next haligned =>
  rw [if_neg haligned]
  have hall := of_decide_eq_true h
  rw [not_or, not_not, not_not] at haligned
  exact ⟨haligned.1, haligned.2, hall, Prod.ext hall rfl⟩

section Surface

variable {s s' : State} {root : Nat} {own : Nat → Option (Nat × Nat)} {layout : Layout}
  {frame size : Nat}

end Surface

/-! Net channels and event fds. -/

/-- A request for a shared region that fails leaves no trace under this condition: the block can be
given back, and the process is gone or no page was installed. -/
def SharedClean (s : State) (pid root vaddr size : Nat) : Prop :=
  ∀ layout frame s1, s.block .shared size pageSize = some (layout, frame, s1) →
    Restores s .shared layout ∧
      (s.processes.get pid = none ∨
        (s1.mapping root (pageConfig sharedPermissions vaddr frame .sharedRevocable) (vaddr + size)
          (frame + size)).installed = 0)

section Shared

variable {s s' : State} {root : Nat} {own : Nat → Option (Nat × Nat)} {layout : Layout}
  {vaddr size pid : Nat}

theorem block_of_layout (hlayout : Layout.fromSizeAlign size pageSize = some layout) :
    s.block .shared size pageSize = match s.alloc .shared layout with
      | none => none
      | some (frame, s) => some (layout, frame, s.writeBytes frame size 0) := by
  rw [State.block, hlayout]

end Shared

/-! Requests that stop before they have installed anything. -/

/-- A request for memory that gets no block, has its first page refused, or asks for none of R, W
and X. -/
def MmapStops (s : State) (req : MemMapReq) (root : Nat) : Prop :=
  s.mmapBlock req = none ∨ Pte.isLeaf req.permissions = false ∨
    ∀ g, selectMappingGeometry req.vaddr req.size = some g →
      FirstRefused s root req.vaddr g.levels

/-- A request for a surface that gets no block, goes beyond the shared window, or has its first
page refused. -/
def SurfaceStops (s : State) (req : FbSurfaceCreateReq) (pid root : Nat) : Prop :=
  s.surfaceBlock req = none ∨
    uprocSharedEnd < ((s.surfacesOf pid).nextVaCursor + req.size) % 2 ^ 64 ∨
    FirstRefused s root (s.surfacesOf pid).nextVaCursor 4

/-- A request for a shared region that gets no block, has no process, or has its first page
refused. -/
def SharedStops (s : State) (pid root vaddr size : Nat) : Prop :=
  s.block .shared size pageSize = none ∨ s.processes.get pid = none ∨ FirstRefused s root vaddr 4

section Stops

variable {s : State} {root pid : Nat} {own : Nat → Option (Nat × Nat)}

theorem MmapStops.clean {req : MemMapReq} (h : Ready s root own)
    (htop : (s.mem.pools req.pool).freeList (orders - 1) = []) (hstops : MmapStops s req root) :
    MmapClean s req root := by
  intro g layout frame s1 hblock
  rcases hstops with hnone | hstops
  · cases hnone.symm.trans hblock
  unfold State.mmapBlock at hblock
  split at hblock
  · cases hblock
  next g' hg =>
  split at hblock
  · cases hblock
  next block hfound =>
  cases hblock
  obtain ⟨k, hk⟩ := selectMappingGeometry_pow hg
  obtain ⟨-, -, hlevel, -, halign⟩ := selectMappingGeometry_spec hg
  refine ⟨h.restores htop (State.block_wf hk hfound), ?_⟩
  rcases hstops with hperm | hfirst
  · exact .inr hperm
  · exact (h.block req.pool_ne_table hk hfound).refused req.pool_ne_table (Nat.le_of_lt hlevel)
      halign (req.backing_spec frame layout).2.1 _ (hfirst g hg)

/-- A refused first page, for a block on 4 KiB pages for reading and writing. -/
theorem Ready.refused_page (h : Ready s root own) {size vaddr frame : Nat} {layout : Layout}
    (hblock : s.block .shared size pageSize = some (layout, frame, s1)) (tag : SupervisorTag)
    (hfirst : FirstRefused s root vaddr 4) :
    (s1.mapping root (pageConfig sharedPermissions vaddr frame tag) (vaddr + size)
      (frame + size)).installed = 0 := by
  have hfetched := h.block (show Pool.shared ≠ .table by decide) pageSize_eq_pow hblock
  have hnone : (s1.mapping root (pageConfig sharedPermissions vaddr frame tag) (vaddr + size)
      (frame + size)).installed = 0 ∨ Pte.isLeaf sharedPermissions = false := by
    refine hfetched.refused (by decide) ?_ rfl rfl _ hfirst
    exact Nat.zero_le 3
  exact hnone.resolve_right (by decide)

variable (h : Ready s root own) (htop : (s.mem.pools .shared).freeList (orders - 1) = [])

include h htop

theorem SurfaceStops.clean (hstops : SurfaceStops s req pid root) :
    SurfaceClean s req pid root := by
  intro layout frame s1 hblock
  have hfound := State.surfaceBlock_eq_some hblock
  refine ⟨h.restores htop (State.block_wf pageSize_eq_pow hfound), ?_⟩
  rcases hstops with hnone | hlong | hfirst
  · cases hnone.symm.trans hblock
  · exact .inl hlong
  · exact .inr (.inl (h.refused_page hfound .none hfirst))

theorem SharedStops.clean {vaddr size : Nat} (hstops : SharedStops s pid root vaddr size) :
    SharedClean s pid root vaddr size := by
  intro layout frame s1 hblock
  refine ⟨h.restores htop (State.block_wf pageSize_eq_pow hblock), ?_⟩
  rcases hstops with hnone | hgone | hfirst
  · cases hnone.symm.trans hblock
  · exact .inl hgone
  · exact .inr (h.refused_page hblock .sharedRevocable hfirst)

end Stops

/-- Process 1 with an empty table, and these pages in the shared pool. -/
def createState (pages : List Nat) : State where
  mem :=
    { ram := freshTable.ram
      pools := fun
        | .table => freshTable.pages
        | .shared => ⟨fun i => if i = 12 then pages else []⟩
        | .userOnly => ⟨fun _ => []⟩ }
  sharedKernelL2 := ⟨0, by decide⟩
  processes := Store.Table.empty.insert 1 ⟨freshRoot, .empty, .new, [], .empty, none, 0, none, none⟩
  processHandles := .empty
  surfaceTable := .empty
  regions := .empty
  nextRegion := 0
  freeRings := fun _ => []

theorem createState_ready {pages : List Nat} (hpages : ∀ b ∈ pages, b = 0x10000) :
    ∃ own, Ready (createState pages) freshRoot own := by
  have hone : ((createState pages).mem.pools .shared).OneBlock 12 0x10000 :=
    FrameAllocator.oneBlock_of_list hpages
  have hempty : ∀ a, ¬ ((createState pages).mem.pools .userOnly).Free a := by
    rintro a ⟨i, -, b, hb, -⟩
    cases hb
  refine ⟨rootOnly freshRoot, .rootOnly rfl fun i _ => freshTable_entry freshRoot i,
    fun pool => ?_, fun pool t x ht a ha => ?_, fun pool a hpool hfree => ?_⟩
  · cases pool with
    | table => exact freshTable_oneBlock.wf (by decide) (by decide) (by decide)
    | userOnly => exact ⟨nofun, nofun, nofun, nofun⟩
    | shared => exact hone.wf (by decide) (by decide) (by decide)
  · rw [eq_of_rootOnly ht] at ha
    cases pool with
    | userOnly => exact hempty a
    | table => exact freshTable_apart ha
    | shared =>
      intro hfree
      have hin := hone.within hfree
      simp only [Within, freshRoot, pageSize] at ha hin
      omega
  cases pool with
  | table => exact absurd rfl hpool
  | userOnly => exact absurd hfree (hempty a)
  | shared =>
    intro htable
    have hin := hone.within hfree
    have hin' := freshTable_oneBlock.within htable
    simp only [Within] at hin hin'
    omega

end Orbit.Mem
