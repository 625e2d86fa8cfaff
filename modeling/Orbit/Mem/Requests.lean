import Orbit.Abi.Errno
import Orbit.Mem.State

/-!
The requests that map and unmap user memory: the checks of the syscall layer and the
manager's handlers for `mmap`, framebuffer surfaces, net channels, event fds and
`close`. A handler returns what the caller's registers get.
-/

namespace Orbit.Mem

open Paging PagePermissions
open Orbit.Abi (Errno)

structure MemMapReq where
  vaddr : Nat
  size : Nat
  pagePermissions : Nat
  shareWithKernel : Bool
  deriving DecidableEq

/-- `mmap_req`: what the syscall layer lets through. -/
def mmapReq (vaddr size pagePermissions share : Nat) : Except Errno MemMapReq :=
  if !userVa vaddr then .error .efault
  else
    let req : MemMapReq := ⟨vaddr, size, pagePermissions, 0 < share⟩
    let inRange := if req.shareWithKernel then userSharedRangeOk vaddr size
      else userPrivRangeOk vaddr size
    if !inRange then .error .einval
    else if req.shareWithKernel && pagePermissions &&& x != 0 then .error .einval
    else .ok req

namespace MemMapReq

def permissions (req : MemMapReq) : Nat := (req.pagePermissions &&& 0xE) ||| u

def supervisorTag (req : MemMapReq) : SupervisorTag :=
  if req.shareWithKernel then .sharedRevocable else .none

def config (req : MemMapReq) (g : MappingGeometry) (backing : PhysBacking) : MappingConfig where
  permissions := req.permissions
  levels := g.levels
  pageSize := g.align
  vaddr := req.vaddr
  paddr := backing.pa
  supervisorTag := req.supervisorTag.bits

end MemMapReq

namespace State

/-- The part of `run_mmap_req` after its frames are allocated and zeroed. -/
def installMmap (s : State) (req : MemMapReq) (g : MappingGeometry) (backing : PhysBacking)
    (pid root : Nat) : Int × State :=
  match s.mapAddressRange root (req.config g backing) (req.vaddr + req.size)
      (backing.pa + req.size) with
  | (false, s) => (Errno.toRet .enomem, s.freeBacking backing)
  | (true, s) =>
    match s.processes.get pid with
    | none => (Errno.toRet .esrch, s.freeBacking backing)
    | some p => (0, s.setProcess pid { p with heapPages := p.heapPages ++ [backing] })

def runMmapReq (s : State) (req : MemMapReq) (pid root : Nat) : Except Panic (Int × State) :=
  match selectMappingGeometry req.vaddr req.size with
  | none => .ok (Errno.toRet .einval, s)
  | some g =>
    match Layout.fromSizeAlign req.size g.align with
    | none => .ok (Errno.toRet .einval, s)
    | some layout =>
      if req.shareWithKernel then
        match s.alloc .shared layout with
        | none => .ok (Errno.toRet .enomem, s)
        | some (frame, s) =>
          .ok ((s.writeBytes frame layout.size 0).installMmap req g (.shared frame layout)
            pid root)
      else
        match s.alloc .userOnly layout with
        | none => .ok (Errno.toRet .enomem, s)
        | some (frame, s) =>
          match userPageWindow frame layout.size with
          | .error p => .error p
          | .ok () =>
            .ok ((s.writeBytes frame layout.size 0).installMmap req g (.user frame layout)
              pid root)

end State

/-- R, W and U, as surfaces, net channels and event fds are mapped. -/
def sharedPermissions : Nat := PagePermissions.r ||| w ||| u

def pageConfig (permissions vaddr paddr : Nat) (tag : SupervisorTag) : MappingConfig where
  permissions := permissions
  levels := 4
  pageSize := Paging.pageSize
  vaddr := vaddr
  paddr := paddr
  supervisorTag := tag.bits

structure FbSurfaceCreateReq where
  width : Nat
  height : Nat
  formatRaw : Nat

/-- `FbFormat::from_u32` with `bytes_per_pixel` -/
def fbBytesPerPixel (raw : Nat) : Option Nat := if raw = 1 then some 4 else none

/-- Bytes rounded up to whole pages, on 64 bits. -/
def surfaceSize (pixelBytes : Nat) : Nat :=
  roundDown ((pixelBytes + (pageSize - 1)) % 2 ^ 64) pageSize

namespace State

/-- The slot of `pid`, registered on first use. -/
def surfacesOf (s : State) (pid : Nat) : ProcessSurfaces :=
  match s.surfaceTable.get pid with
  | some t => t
  | none => .new

/-- `handle` is what `fb_surface_destroy_req` left of the register, its low 32 bits. -/
def runFbSurfaceDestroyReq (s : State) (handle pid root : Nat) : Int × State :=
  match s.surfaceTable.get pid with
  | none => (Errno.toRet .esrch, s)
  | some t =>
    match t.surfaces.get handle with
    | none => (Errno.toRet .ebadf, s)
    | some entry =>
      let s := s.setSurfaces pid { t with surfaces := t.surfaces.erase handle }
      let stop := (entry.userVa + entry.sizeBytes) % 2 ^ 64
      let s := s.setRam (s.mem.ram.unmapRange root entry.userVa stop).2
      (0, s.freeBacking entry.backing)

end State

/-- `SharedUserPtr::revoke_walk` over `n` pages from `va` on. -/
def revokeWalk (ram : Ram) (root : Nat) : Nat → Nat → Bool × Ram
  | 0, _ => (true, ram)
  | n + 1, va =>
    match ram.walkToTable root va 0 with
    | none => (false, ram)
    | some table =>
      let pte := ram.entry table (vpn 0 va)
      if !Pte.isValid pte || !Pte.isLeaf pte then (false, ram)
      else if Pte.supervisorBits pte ≠ SupervisorTag.sharedRevocable.bits then (false, ram)
      else revokeWalk (ram.setEntry table (vpn 0 va) 0) root n (va + pageSize)

namespace State

/-- `SharedUserPtr::revoke` -/
def revoke (s : State) (id : Nat) (r : SharedInner) (root : Nat) : Bool × State :=
  if r.revoked then (true, s)
  else
    let walk := revokeWalk s.mem.ram root (r.len / pageSize) r.userVa
    (walk.1, (s.setRam walk.2).setRegion id { r with revoked := true })

/-- Drop references to a shared region; `SharedInner::drop` runs with the last one. -/
def dropRef (s : State) (id : Nat) (r : SharedInner) (hart : Nat) : Except Panic State :=
  if r.managerRef || r.netRef then .ok (s.setRegion id r)
  else { s with regions := s.regions.erase id }.pushFree hart r.frame r.layout

/-- Revoke the region of a handle taken out of its table, and drop the handle. -/
def closeRegion (s : State) (id root hart : Nat) : Except Panic (Bool × State) :=
  match s.regions.get id with
  | none => .ok (true, s)
  | some r =>
    let (ok, s) := s.revoke id r root
    match s.dropRef id { r with revoked := true, managerRef := false } hart with
    | .error p => .error p
    | .ok s => .ok (ok, s)

/-- The common part of `run_nc_create_req` and `run_eventfd_create_req` up to the
mapping: a zeroed block of the shared pool at `vaddr`. -/
def mapShared (s : State) (vaddr size : Nat) (layout : Layout) (pid root : Nat) :
    Except Errno Nat × State :=
  match s.alloc .shared layout with
  | none => (.error .enomem, s)
  | some (frame, s) =>
    let s := s.writeBytes frame size 0
    match s.processes.get pid with
    | none => (.error .esrch, s.freeBacking (.shared frame layout))
    | some _ =>
      match s.mapAddressRange root (pageConfig sharedPermissions vaddr frame .sharedRevocable)
          (vaddr + size) (frame + size) with
      | (false, s) => (.error .enomem, s.freeBacking (.shared frame layout))
      | (true, s) => (.ok frame, s)

def handlesOf (s : State) (pid : Nat) : ProcessHandles :=
  match s.processHandles.get pid with
  | some h => h
  | none => .new

/-- The region gets a handle, or is revoked and dropped when the table is full. `netRef`
says whether a clone then stays with the network thread. -/
def installShared (s : State) (vaddr size frame : Nat) (layout : Layout) (handle : Nat → Handle)
    (cloexec nonblock netRef : Bool) (pid root hart : Nat) : Except Panic (Option Nat × State) :=
  let id := s.nextRegion
  let r : SharedInner := ⟨frame, layout, vaddr, size, pid, false, true, false⟩
  let s := { s with nextRegion := id + 1 }.setRegion id r
  match (s.handlesOf pid).insertWithFlags (handle id) cloexec nonblock with
  | none =>
    match (s.setHandles pid (s.handlesOf pid)).closeRegion id root hart with
    | .error p => .error p
    | .ok (_, s) => .ok (none, s)
  | some (fd, h) => .ok (some fd, (s.setHandles pid h).setRegion id { r with netRef })

end State

def ncMinRegionSize : Nat := 4096
def ncMaxRegionSize : Nat := 8 * 1024 * 1024

/-- `NetChannel::normalize_region_size` -/
def normalizeRegionSize (requested : Nat) : Option Nat :=
  if requested = 0 then none
  else
    let pageUp := roundUp (min (max requested ncMinRegionSize) ncMaxRegionSize) pageSize
    if ncMaxRegionSize < pageUp then none
    else if pageUp < ncMinRegionSize then none
    else some pageUp

structure NetChannelCreationReq where
  ncVaddr : Nat
  regionSize : Nat
  deriving DecidableEq

/-- `nc_create_req`; `bind` says whether the packed bind word is well formed. -/
def ncCreateReq (vaddr regionSize : Nat) (bind : Bool) : Except Errno NetChannelCreationReq :=
  if !bind then .error .einval
  else if !userVa vaddr then .error .efault
  else if !userSharedRangeOk vaddr regionSize then .error .einval
  else .ok ⟨vaddr, regionSize⟩

/-- The hart's ring of socket requests when a channel is handed to the network thread. -/
inductive SocketRing where
  | room
  | full
  | absent
  deriving DecidableEq

def State.runNcCreateReq (s : State) (req : NetChannelCreationReq) (ring : SocketRing)
    (pid root hart : Nat) : Except Panic ((Int × Int) × State) :=
  match normalizeRegionSize req.regionSize with
  | none => .ok ((Errno.toRet .einval, 0), s)
  | some size =>
    if req.ncVaddr % pageSize ≠ 0 then .ok ((Errno.toRet .einval, 0), s)
    else
      match Layout.fromSizeAlign size pageSize with
      | none => .ok ((Errno.toRet .einval, 0), s)
      | some layout =>
        match s.mapShared req.ncVaddr size layout pid root with
        | (.error e, s) => .ok ((e.toRet, 0), s)
        | (.ok frame, s) =>
          match s.installShared req.ncVaddr size frame layout .netChannel false false
              (ring == .room) pid root hart with
          | .error p => .error p
          | .ok (none, s) => .ok ((Errno.toRet .emfile, 0), s)
          | .ok (some fd, s) =>
            if ring = .full then .ok ((Errno.toRet .eagain, 0), s)
            else .ok ((req.ncVaddr, fd), s)

end Orbit.Mem
