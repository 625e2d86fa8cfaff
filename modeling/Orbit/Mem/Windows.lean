import Orbit.Mem.FailedCreate
import Orbit.Mem.Revocation

/-!
Where user mappings go. `Exposes` bounds the leaves that one operation of the kernel adds to
the table of the caller. The mapper adds leaves in the range it is given, however far it gets;
memory that is filled, blocks that go back and regions that are revoked add none.
-/

namespace Orbit.Mem

open Paging
open Orbit.Abi (Errno)

variable {r : Int} {layout : Layout} {req : MemMapReq}
  {frame hart perms pid root share size vaddr : Nat}

/-- Every leaf that the table has in `s'` and not in `s` is as `P` says of its address, in the 48
bits that are translated, and of its entry. -/
def Exposes (P : Nat → Nat → Prop) (root : Nat) (s s' : State) : Prop :=
  ∀ va l e, s'.mem.ram.leafAt root va = some (l, e) →
    s.mem.ram.leafAt root va = some (l, e) ∨ P (va % vaSpace) e

/-- A leaf for an address of `[vaddr, vaddr + len)` with these permissions. -/
def Maps (vaddr len permissions va e : Nat) : Prop :=
  (∃ k < len, va = (vaddr + k) % vaSpace) ∧ Pte.permissions e = Pte.permissions permissions

section Exposes

variable {P Q : Nat → Nat → Prop} {s s' s1 : State} {own : Nat → Option (Nat × Nat)} {pool : Pool}
  {config : MappingConfig}

theorem Exposes.of_eq (h : ∀ va, s'.mem.ram.leafAt root va = s.mem.ram.leafAt root va) :
    Exposes P root s s' := by
  intro va l e hleaf
  rw [h] at hleaf
  exact .inl hleaf

/-- A block that is fetched and mapped. -/
theorem Fetched.exposes (h : Fetched s s1 root own pool layout frame size)
    (h3 : 4 - config.levels ≤ 3) (hsize : config.pageSize = pageBytes (4 - config.levels))
    (hframe : config.paddr = frame) (len : Nat) :
    Exposes (Maps config.vaddr len config.permissions) root s
      (s1.mapAddressRange root config (config.vaddr + len) (frame + size)).2 := by
  subst hframe
  intro va l e hleaf
  have hblank : Blank s1.mem.ram (s1.mem.pools .table) own config.paddr
      (config.paddr + size - config.paddr) := by
    rw [Nat.add_sub_cancel_left]
    exact h.blank
  have htree : Tree 0 (s1.mem.mmu .table).ram root own := h.tree
  rcases htree.mapAddressRange_fresh h.spare rfl h3 hsize _ h.stop hblank hleaf with
    hold | ⟨⟨k, hk, hva⟩, hperm⟩
  · exact .inl ((h.leaves va).symm.trans hold)
  · rw [Nat.add_sub_cancel_left] at hk
    exact .inr ⟨⟨k, hk, hva⟩, hperm⟩

/-- A request for memory exposes at most the range it names, as it asks for. -/
theorem Ready.runMmapReq_exposes (h : Ready s root own)
    (hrun : s.runMmapReq req pid root = .ok (r, s')) :
    Exposes (Maps req.vaddr req.size req.permissions) root s s' := by
  rcases State.runMmapReq_cases hrun with ⟨-, rfl⟩ | ⟨g, layout, frame, s1, hblock, hinstall⟩
  · exact .of_eq fun _ => rfl
  unfold State.mmapBlock at hblock
  split at hblock
  · cases hblock
  next g' hg =>
  split at hblock
  · cases hblock
  next block hfound =>
  cases hblock
  obtain ⟨k, hk⟩ := selectMappingGeometry_pow hg
  obtain ⟨-, -, hlevel, -, halign⟩ := selectMappingGeometry_spec hg
  have hbpa := (req.backing_spec frame layout).2.1
  have hexp : Exposes (Maps req.vaddr req.size req.permissions) root s
      (s1.mapAddressRange root (req.config g (req.backing frame layout)) (req.vaddr + req.size)
        (frame + req.size)).2 :=
    (h.block req.pool_ne_table hk hfound).exposes (Nat.le_of_lt hlevel) halign hbpa req.size
  -- what comes after the mapping leaves memory alone
  have hram : s'.mem.ram = (s1.mapAddressRange root (req.config g (req.backing frame layout))
      (req.vaddr + req.size) (frame + req.size)).2.mem.ram := by
    unfold State.installMmap at hinstall
    rw [hbpa] at hinstall
    split at hinstall
    · next hmap =>
      cases hinstall
      rw [hmap]
      rfl
    next hmap =>
    split at hinstall
    · cases hinstall
      rw [hmap]
      rfl
    · cases hinstall
      rw [hmap]
      rfl
  intro va l e hleaf
  rw [hram] at hleaf
  exact hexp va l e hleaf

/-- The walk of a revocation only takes leaves away. -/
theorem revokeWalk_leafAt {ram : Ram} (tree : Tree 0 ram root own) {n start va : Nat}
    {x : Nat × Nat} (h : (revokeWalk ram root n start).2.leafAt root va = some x) :
    ram.leafAt root va = some x := by
  induction n generalizing ram start with
  | zero => exact h
  | succ n ih =>
    rw [Revocation.revokeWalk_succ] at h
    rcases Revocation.revokePage_spec tree start with
      ⟨-, ram', hok, tree', hcleared⟩ | ⟨-, err, hfail⟩
    · rw [hok] at h
      have hmid := ih tree' h
      by_cases hgone : SamePage 0 start va
      · rw [(hcleared.leaves va).1 hgone] at hmid
        cases hmid
      · exact ((hcleared.leaves va).2 hgone).symm.trans hmid
    · rw [hfail] at h
      exact h

/-- Mapping a shared block, with what is mapped left a tree for what follows. -/
theorem Ready.mapShared_exposes (h : Ready s root own)
    (hlayout : Layout.fromSizeAlign size pageSize = some layout) {res : Except Errno Nat}
    (hrun : s.mapShared vaddr size layout pid root = (res, s')) :
    Exposes (Maps vaddr size sharedPermissions) root s s' ∧
      ∃ own', Tree 0 s'.mem.ram root own' := by
  have hblock := block_of_layout (s := s) hlayout
  unfold State.mapShared at hrun
  split at hrun
  · cases hrun
    exact ⟨.of_eq fun _ => rfl, own, h.tree⟩
  next frame s0 halloc =>
  rw [halloc] at hblock
  have hfetched := h.block (show Pool.shared ≠ .table by decide) pageSize_eq_pow hblock
  dsimp only at hrun
  generalize s0.writeBytes frame size 0 = s1 at hrun hfetched
  split at hrun
  · cases hrun
    exact ⟨.of_eq hfetched.leaves, own, hfetched.tree⟩
  have hexp : Exposes (Maps vaddr size sharedPermissions) root s (s1.mapAddressRange root
      (pageConfig sharedPermissions vaddr frame .sharedRevocable) (vaddr + size)
      (frame + size)).2 := by
    refine hfetched.exposes ?_ rfl rfl size
    exact Nat.zero_le 3
  have htree : Tree 0 (s1.mem.mmu .table).ram root own := hfetched.tree
  have hkept : ∃ own', Tree 0 (s1.mapAddressRange root (pageConfig sharedPermissions vaddr frame
      .sharedRevocable) (vaddr + size) (frame + size)).2.mem.ram root own' := by
    show ∃ own', Tree 0 ((s1.mem.mmu .table).mapAddressRange root _ _ _).mmu.ram root own'
    unfold Mmu.mapAddressRange
    dsimp only
    split
    · exact ⟨own, htree⟩
    split
    · exact ⟨own, htree⟩
    have hlevel : 4 - (pageConfig sharedPermissions vaddr frame .sharedRevocable).levels = 0 := rfl
    obtain ⟨⟨own', htree', -⟩, -⟩ := htree.mapPages_leafAt hfetched.spare hlevel (Nat.zero_le 3)
      (MappingConfig.page_paddr_lt (l := 0) rfl hfetched.stop) sharedPermissions_leaf rfl
    exact ⟨own', htree'⟩
  split at hrun
  · next hmap =>
    cases hrun
    rw [hmap] at hexp hkept
    exact ⟨hexp, hkept⟩
  next hmap =>
  cases hrun
  rw [hmap] at hexp hkept
  exact ⟨hexp, hkept⟩

namespace State

theorem dropRef_ram {id : Nat} {r : SharedInner} (h : s.dropRef id r hart = .ok s') :
    s'.mem.ram = s.mem.ram := by
  unfold dropRef pushFree at h
  split at h
  · cases h
    rfl
  split at h
  · cases h
    rfl
  · cases h

/-- Recording a shared region adds no leaf, and neither does giving it up for want of a handle. -/
theorem installShared_exposes (tree : Tree 0 s.mem.ram root own) {handle : Nat → Handle}
    {cloexec nonblock netRef : Bool} {fd : Option Nat}
    (h : s.installShared vaddr size frame layout handle cloexec nonblock netRef pid root hart =
      .ok (fd, s')) {va : Nat} {x : Nat × Nat} (hleaf : s'.mem.ram.leafAt root va = some x) :
    s.mem.ram.leafAt root va = some x := by
  simp only [installShared] at h
  split at h
  · unfold closeRegion at h
    split at h
    · cases h
    next hclose =>
    cases h
    split at hclose
    · cases hclose
      exact hleaf
    dsimp only at hclose
    split at hclose
    · cases hclose
    next hdrop =>
    cases hclose
    rw [dropRef_ram hdrop, revoke] at hleaf
    split at hleaf
    · exact hleaf
    · exact revokeWalk_leafAt tree hleaf
  · cases h
    exact hleaf

end State

/-- A net channel exposes at most the region it was normalised to. -/
theorem Ready.runNcCreateReq_exposes (h : Ready s root own) {req : NetChannelCreationReq}
    {ring : SocketRing} {r : Int × Int}
    (hrun : s.runNcCreateReq req ring pid root hart = .ok (r, s')) :
    s' = s ∨ ∃ size, normalizeRegionSize req.regionSize = some size ∧
      req.ncVaddr % pageSize = 0 ∧
      Exposes (Maps req.ncVaddr size sharedPermissions) root s s' := by
  rw [State.runNcCreateReq] at hrun
  split at hrun
  · cases hrun
    exact .inl rfl
  next size hsize =>
  split at hrun
  · cases hrun
    exact .inl rfl
  next haligned =>
  split at hrun
  · cases hrun
    exact .inl rfl
  next layout hlayout =>
  right
  refine ⟨size, hsize, not_not.mp haligned, ?_⟩
  split at hrun
  · next hmap =>
    cases hrun
    exact (h.mapShared_exposes hlayout hmap).1
  next hmap =>
  obtain ⟨hexp, own', tree'⟩ := h.mapShared_exposes hlayout hmap
  intro va l e hleaf
  apply hexp
  split at hrun
  · cases hrun
  · next hinstall =>
    cases hrun
    exact State.installShared_exposes tree' hinstall hleaf
  · next hinstall =>
    split at hrun <;> cases hrun <;> exact State.installShared_exposes tree' hinstall hleaf

end Exposes

/-- Addresses the kernel lays out itself: stacks, the ELF image with its argument
pages, trap frames, and what lies above. -/
def KernelManaged (va : Nat) : Prop :=
  (uprocStackBase ≤ va ∧ va < userTextBase) ∨ (userTextBase ≤ va ∧ va < uprocPrivBase) ∨
    userTrapFrameBase ≤ va

theorem mmapReq_ok (h : mmapReq vaddr size perms share = .ok req) :
    req = ⟨vaddr, size, perms, 0 < share⟩ ∧
      (if req.shareWithKernel then userSharedRangeOk vaddr size else userPrivRangeOk vaddr size) ∧
      (req.shareWithKernel = true → perms &&& PagePermissions.x = 0) := by
  rw [mmapReq] at h
  split at h
  · cases h
  simp only at h
  generalize hrange : (if decide (0 < share) = true then userSharedRangeOk vaddr size
    else userPrivRangeOk vaddr size) = inRange at h
  cases inRange with
  | false => cases h
  | true =>
    simp only [Bool.not_true, Bool.false_eq_true, if_false] at h
    split at h
    · cases h
    next hexec =>
    cases h
    refine ⟨rfl, hrange, ?_⟩
    intro hshare
    simp only [Bool.and_eq_true, not_and, bne_iff_ne, not_not] at hexec
    exact hexec hshare

theorem ncCreateReq_ok {bind : Bool} {req : NetChannelCreationReq}
    (h : ncCreateReq vaddr size bind = .ok req) :
    req = ⟨vaddr, size⟩ ∧ userSharedRangeOk vaddr size = true := by
  rw [ncCreateReq] at h
  split at h
  · cases h
  split at h
  · cases h
  split at h
  · cases h
  next hrange =>
  cases h
  exact ⟨rfl, by simpa using hrange⟩

/-- A region that starts on a page of the shared window still ends in it once its size
is normalised: the window ends on a page. -/
theorem normalizeRegionSize_fits {vaddr requested size : Nat}
    (hrange : userSharedRangeOk vaddr requested = true) (halign : vaddr % pageSize = 0)
    (hsize : normalizeRegionSize requested = some size) :
    uprocSharedBase ≤ vaddr ∧ vaddr + size ≤ uprocSharedEnd := by
  obtain ⟨hlo, hhi⟩ := (rangeOk_iff (by decide)).mp hrange
  refine ⟨hlo, ?_⟩
  rw [normalizeRegionSize] at hsize
  split at hsize
  · cases hsize
  next hpos =>
  simp only at hsize
  split at hsize
  · cases hsize
  split at hsize
  · cases hsize
  cases hsize
  have hend : uprocSharedEnd % 4096 = 0 := by decide
  have halign' : vaddr % 4096 = 0 := halign
  have hmin : ncMinRegionSize = 4096 := rfl
  have hroom : (uprocSharedEnd - vaddr) % pageSize = 0 := by
    show (uprocSharedEnd - vaddr) % 4096 = 0
    omega
  have hfit : min (max requested ncMinRegionSize) ncMaxRegionSize ≤ uprocSharedEnd - vaddr := by
    omega
  have hle := roundUp_le hroom hfit
  omega

theorem sharedPermissions_not_exec : sharedPermissions &&& PagePermissions.x = 0 := by decide

theorem MemMapReq.permissions_exec (req : MemMapReq)
    (h : req.pagePermissions &&& PagePermissions.x = 0) :
    req.permissions &&& PagePermissions.x = 0 := by
  rw [permissions, Nat.and_or_distrib_right, Nat.and_assoc]
  have hx : 0xE &&& PagePermissions.x = PagePermissions.x := by decide
  have hu : PagePermissions.u &&& PagePermissions.x = 0 := by decide
  rw [hx, hu, h, Nat.or_zero]

/-- What one request may add to the caller's table: no leaf outside its window, none where the
kernel lays out memory itself, and none executable if it is shared. -/
def StaysIn (lo hi : Nat) (shared : Bool) (root : Nat) (s s' : State) : Prop :=
  Exposes (fun va e => lo ≤ va ∧ va < hi ∧ ¬ KernelManaged va ∧
    (shared = true → e &&& PagePermissions.x = 0)) root s s'

theorem Exposes.staysIn {s s' : State} {vaddr len permissions lo hi : Nat} {shared : Bool}
    (h : Exposes (Maps vaddr len permissions) root s s') (hlo : lo ≤ vaddr)
    (hhi : vaddr + len ≤ hi) (hbase : uprocPrivBase ≤ lo) (hstop : hi ≤ userTrapFrameBase)
    (hexec : shared = true → permissions &&& PagePermissions.x = 0) :
    StaysIn lo hi shared root s s' := by
  intro va l e hleaf
  rcases h va l e hleaf with hold | ⟨⟨k, hk, hva⟩, hperm⟩
  · exact .inl hold
  right
  have htext : userTextBase ≤ uprocPrivBase := by decide
  have hspace : userTrapFrameBase ≤ vaSpace := by decide
  rw [Nat.mod_eq_of_lt (show vaddr + k < vaSpace by omega)] at hva
  rw [hva]
  refine ⟨by omega, by omega, ?_, fun hshared => ?_⟩
  · rintro (⟨-, hlt⟩ | ⟨-, hlt⟩ | hge) <;> omega
  · have hx : 0x3E &&& PagePermissions.x = PagePermissions.x := by decide
    have hbits : ∀ n, Pte.permissions n &&& PagePermissions.x = n &&& PagePermissions.x := by
      intro n
      rw [Pte.permissions, Nat.and_assoc, hx]
    rw [← hbits, hperm, hbits]
    exact hexec hshared

section Requests

variable {s s' : State} {own : Nat → Option (Nat × Nat)} (h : Ready s root own)

include h

theorem mmap_private_staysIn (hreq : mmapReq vaddr size perms share = .ok req)
    (hshare : req.shareWithKernel = false) (hrun : s.runMmapReq req pid root = .ok (r, s')) :
    StaysIn uprocPrivBase uprocPrivEnd false root s s' := by
  obtain ⟨rfl, hrange, -⟩ := mmapReq_ok hreq
  rw [hshare] at hrange
  obtain ⟨hlo, hhi⟩ := (rangeOk_iff (by decide)).mp hrange
  exact (h.runMmapReq_exposes hrun).staysIn hlo hhi le_rfl (by decide) nofun

theorem mmap_shared_staysIn (hreq : mmapReq vaddr size perms share = .ok req)
    (hshare : req.shareWithKernel = true) (hrun : s.runMmapReq req pid root = .ok (r, s')) :
    StaysIn uprocSharedBase uprocSharedEnd true root s s' := by
  obtain ⟨rfl, hrange, hexec⟩ := mmapReq_ok hreq
  rw [hshare] at hrange
  obtain ⟨hlo, hhi⟩ := (rangeOk_iff (by decide)).mp hrange
  apply (h.runMmapReq_exposes hrun).staysIn hlo hhi (by decide) (by decide)
  exact fun _ => MemMapReq.permissions_exec _ (hexec hshare)

theorem netch_staysIn {bind : Bool} {ring : SocketRing} {r : Int × Int}
    {req : NetChannelCreationReq} (hreq : ncCreateReq vaddr size bind = .ok req)
    (hrun : s.runNcCreateReq req ring pid root hart = .ok (r, s')) :
    StaysIn uprocSharedBase uprocSharedEnd true root s s' := by
  obtain ⟨rfl, hrange⟩ := ncCreateReq_ok hreq
  rcases h.runNcCreateReq_exposes hrun with rfl | ⟨norm, hnorm, halign, hexp⟩
  · exact .of_eq fun _ => rfl
  · obtain ⟨hlo, hhi⟩ := normalizeRegionSize_fits hrange halign hnorm
    exact hexp.staysIn hlo hhi (by decide) (by decide) fun _ => sharedPermissions_not_exec

end Requests

/-- For every state whose caller's table is well formed and apart from the data pools, and
whatever address, size and flags user code passes: the leaves a private `mmap` adds to the table
are for addresses of the private window; those of a shared one and of a net channel for addresses
of the shared window, and none of them is executable. No such address is where the kernel puts
stacks, the ELF image, argument pages or trap frames. -/
theorem user_mappings_stay_in_windows {s : State} {root : Nat} {own : Nat → Option (Nat × Nat)}
    (h : Ready s root own) :
    (∀ (s' : State) (vaddr size perms share pid : Nat) (req : MemMapReq) (r : Int),
      mmapReq vaddr size perms share = .ok req → s.runMmapReq req pid root = .ok (r, s') →
      if req.shareWithKernel then StaysIn uprocSharedBase uprocSharedEnd true root s s'
      else StaysIn uprocPrivBase uprocPrivEnd false root s s') ∧
    (∀ (s' : State) (vaddr size pid hart : Nat) (bind : Bool) (ring : SocketRing)
      (req : NetChannelCreationReq) (r : Int × Int),
      ncCreateReq vaddr size bind = .ok req →
      s.runNcCreateReq req ring pid root hart = .ok (r, s') →
      StaysIn uprocSharedBase uprocSharedEnd true root s s') := by
  constructor
  · intro s' vaddr size perms share pid req r hreq hrun
    cases hshare : req.shareWithKernel with
    | true => exact mmap_shared_staysIn h hreq hshare hrun
    | false => exact mmap_private_staysIn h hreq hshare hrun
  · intro s' vaddr size pid hart bind ring req r hreq hrun
    exact netch_staysIn h hreq hrun

theorem eq_ok_of_toOption {α : Type} {x : Except Panic (α × State)} {r : α}
    (h : x.toOption.map Prod.fst = some r) : ∃ s, x = .ok (r, s) := by
  cases x with
  | error p => cases h
  | ok out =>
    obtain ⟨r', s⟩ := out
    cases h
    exact ⟨s, rfl⟩

/-- A page of shared memory, and a channel of one byte, which becomes a page: both requests
succeed. -/
theorem user_mappings_stay_in_windows_one_page : ∃ s1 s2,
    (createState [0x10000]).runMmapReq ⟨uprocSharedBase, 4096, 6, true⟩ 1 freshRoot =
      .ok (0, s1) ∧ s1.mem.ram.leafAt freshRoot uprocSharedBase ≠ none ∧
    StaysIn uprocSharedBase uprocSharedEnd true freshRoot (createState [0x10000]) s1 ∧
    (createState [0x10000]).runNcCreateReq ⟨uprocSharedBase, 1⟩ .room 1 freshRoot 0 =
      .ok ((uprocSharedBase, 0), s2) ∧
    StaysIn uprocSharedBase uprocSharedEnd true freshRoot (createState [0x10000]) s2 := by
  obtain ⟨own, ready⟩ := @createState_ready [0x10000] fun _ hb => List.mem_singleton.mp hb
  have hmmap : ((createState [0x10000]).runMmapReq ⟨uprocSharedBase, 4096, 6, true⟩ 1
      freshRoot).toOption.map Prod.fst = some 0 := by decide +kernel
  have hleaf : ((createState [0x10000]).runMmapReq ⟨uprocSharedBase, 4096, 6, true⟩ 1
      freshRoot).toOption.map (fun out => (out.2.mem.ram.leafAt freshRoot uprocSharedBase).isSome) =
      some true := by decide +kernel
  have hnc : ((createState [0x10000]).runNcCreateReq ⟨uprocSharedBase, 1⟩ .room 1 freshRoot
      0).toOption.map Prod.fst = some ((uprocSharedBase : Int), 0) := by decide +kernel
  obtain ⟨s1, h1⟩ := eq_ok_of_toOption hmmap
  obtain ⟨s2, h2⟩ := eq_ok_of_toOption hnc
  have hreq : mmapReq uprocSharedBase 4096 6 1 = .ok ⟨uprocSharedBase, 4096, 6, true⟩ := by decide
  have hnreq : ncCreateReq uprocSharedBase 1 true = .ok ⟨uprocSharedBase, 1⟩ := by decide
  rw [h1] at hleaf
  refine ⟨s1, s2, h1, fun hnone => ?_, ?_, h2, ?_⟩
  · rw [Except.toOption, Option.map_some, hnone] at hleaf
    cases hleaf
  · exact (user_mappings_stay_in_windows ready).1 _ _ _ _ _ _ _ _ hreq h1
  · exact (user_mappings_stay_in_windows ready).2 _ _ _ _ _ _ _ _ _ hnreq h2

end Orbit.Mem
