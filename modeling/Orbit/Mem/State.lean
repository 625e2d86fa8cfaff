import Orbit.Mem.Layout
import Orbit.Paging.Tables
import Orbit.Store.Table

/-!
The kernel's memory state: physical memory and its pools, the processes with the
blocks they hold, handle tables, surfaces, shared regions and the rings of frames
waiting to be freed.
-/

namespace Orbit.Mem

open Paging
open Store (Table)

/-- The pool markers: `kernel_pages`, `user_pages` and `table_pages`. -/
inductive Pool where
  | shared
  | userOnly
  | table
  deriving DecidableEq

inductive PhysBacking where
  | shared (frame : Nat) (layout : Layout)
  | user (frame : Nat) (layout : Layout)
  deriving DecidableEq, Repr

namespace PhysBacking

def pa : PhysBacking → Nat
  | .shared frame _ | .user frame _ => frame

def layout : PhysBacking → Layout
  | .shared _ layout | .user _ layout => layout

def pool : PhysBacking → Pool
  | .shared .. => .shared
  | .user .. => .userOnly

end PhysBacking

inductive MappingKind where
  | stack (slot : Nat)
  | guard (slot : Nat)
  | trapFrame (slot : Nat)
  | tls (slot : Nat)

structure UserMapping where
  vaddr : Nat
  len : Nat
  perms : Nat
  backing : Option PhysBacking
  kind : MappingKind

/-- `SlotAlloc` -/
structure SlotAlloc where
  taken : Nat → Bool

namespace SlotAlloc

def capacity : Nat := 256

def new : SlotAlloc := ⟨fun _ => false⟩

def set (a : SlotAlloc) (slot : Nat) (v : Bool) : SlotAlloc :=
  ⟨fun i => if i = slot then v else a.taken i⟩

/-- The lowest slot that is free. -/
def alloc (a : SlotAlloc) : Option (Nat × SlotAlloc) :=
  match (List.range capacity).find? fun i => !a.taken i with
  | none => none
  | some slot => some (slot, a.set slot true)

end SlotAlloc

structure Process where
  /-- the root table of `satp` -/
  root : Nat
  /-- the slot of each thread -/
  threads : Table Nat
  threadSlots : SlotAlloc
  heapPages : List PhysBacking
  maps : Table UserMapping
  tlsTemplate : Option (List UInt8)
  tlsMemsz : Nat
  argvBlob : Option PhysBacking
  envpBlob : Option PhysBacking

/-- Handles that own a shared region name it by its number. -/
inductive Handle where
  | netChannel (region : Nat)
  | file
  | stdin
  | stdout
  | stderr
  | eventFd (region : Nat)

def Handle.region : Handle → Option Nat
  | .netChannel region | .eventFd region => some region
  | .file | .stdin | .stdout | .stderr => none

structure Slot where
  handle : Handle
  cloexec : Bool
  nonblock : Bool

structure ProcessHandles where
  table : Table Slot
  nextId : Nat

namespace ProcessHandles

def fdMax : Nat := 2 ^ 31 - 1

def new : ProcessHandles := ⟨.empty, 0⟩

def seedStdio (h : ProcessHandles) : ProcessHandles :=
  if h.table.entries.isEmpty then
    { table := ((h.table.insert 0 ⟨.stdin, false, false⟩).insert 1 ⟨.stdout, false, false⟩).insert 2
        ⟨.stderr, false, false⟩
      nextId := if h.nextId < 3 then 3 else h.nextId }
  else h

def insertWithFlags (h : ProcessHandles) (handle : Handle) (cloexec nonblock : Bool) :
    Option (Nat × ProcessHandles) :=
  if h.nextId > fdMax then none
  else some (h.nextId, ⟨h.table.insert h.nextId ⟨handle, cloexec, nonblock⟩, h.nextId + 1⟩)

end ProcessHandles

/-- `SharedInner`. The strong references are the manager's, in a handle table, and
the one that went to the network thread. -/
structure SharedInner where
  frame : Nat
  layout : Layout
  userVa : Nat
  len : Nat
  ownerPid : Nat
  revoked : Bool
  managerRef : Bool
  netRef : Bool

structure SurfaceEntry where
  userVa : Nat
  sizeBytes : Nat
  backing : PhysBacking

structure ProcessSurfaces where
  surfaces : Table SurfaceEntry
  nextId : Nat
  nextVaCursor : Nat

def ProcessSurfaces.new : ProcessSurfaces := ⟨.empty, 1, uprocSharedBase⟩

/-- A frame of the shared pool whose last reference is gone. -/
structure FreeItem where
  frame : Nat
  layout : Layout

structure State where
  mem : Machine Pool
  /-- the table behind the kernel's root entry -/
  sharedKernelL2 : { pa : Nat // pa < physEnd }
  processes : Table Process
  processHandles : Table ProcessHandles
  surfaceTable : Table ProcessSurfaces
  regions : Table SharedInner
  nextRegion : Nat
  freeRings : Nat → List FreeItem

/-- The assertions of the kernel that the modelled code can run into, the fault of a
write past the pages of a window, and `tableDepth`: the recursive unmap went below the
last level. The source goes on there through whatever it finds; the model stops. -/
inductive Panic where
  | windowUnaligned
  | windowEmpty
  | windowTooLarge
  | windowFault
  | ringExhausted
  | tableDepth

namespace State

def setProcess (s : State) (pid : Nat) (p : Process) : State :=
  { s with processes := s.processes.insert pid p }

def setHandles (s : State) (pid : Nat) (h : ProcessHandles) : State :=
  { s with processHandles := s.processHandles.insert pid h }

def setSurfaces (s : State) (pid : Nat) (t : ProcessSurfaces) : State :=
  { s with surfaceTable := s.surfaceTable.insert pid t }

def setRegion (s : State) (id : Nat) (r : SharedInner) : State :=
  { s with regions := s.regions.insert id r }

def setRam (s : State) (ram : Ram) : State := { s with mem := { s.mem with ram } }

/-- `alloc_pa`, `alloc_kdmap` -/
def alloc (s : State) (pool : Pool) (layout : Layout) : Option (Nat × State) :=
  match s.mem.alloc pool layout with
  | none => none
  | some (frame, mem) => some (frame, { s with mem })

/-- `write_bytes` through a kernel alias. -/
def writeBytes (s : State) (pa len : Nat) (v : UInt8) : State := s.setRam (s.mem.ram.fill pa len v)

def freeBacking (s : State) (b : PhysBacking) : State :=
  { s with mem := s.mem.free b.pool b.pa b.layout }

def freeBackings (s : State) (bs : List PhysBacking) : State := bs.foldl freeBacking s

/-- `map_address_range` with tables from `table_pages`. -/
def mapAddressRange (s : State) (root : Nat) (config : MappingConfig) (vend pend : Nat) :
    Bool × State :=
  let res := (s.mem.mmu .table).mapAddressRange root config vend pend
  (res.ok, { s with mem := s.mem.setMmu .table res.mmu })

end State

/-- `KSCRATCH_SIZE` -/
def kscratchSize : Nat := 32 * 1024 * 1024

/-- `UserPageWindow::map`, with the writes up to its last byte that follow at every use. -/
def userPageWindow (pa len : Nat) : Except Panic Unit :=
  if pa % pageSize ≠ 0 then .error .windowUnaligned
  else if len = 0 then .error .windowEmpty
  else
    -- a length in the last page below 2^64 rounds to zero: the check on the span
    -- passes, and no page backs the slice
    let mappedLen := roundUp len pageSize % 2 ^ 64
    if kscratchSize < mappedLen then .error .windowTooLarge
    else if mappedLen < len then .error .windowFault
    else .ok ()

/-- `FREE_RING_CAP`; a ring of the queue type used holds one item less. -/
def freeRingCap : Nat := 64

/-- `pending_frees::push` -/
def State.pushFree (s : State) (hart frame : Nat) (layout : Layout) : Except Panic State :=
  if (s.freeRings hart).length + 1 < freeRingCap then
    .ok { s with freeRings := fun h =>
      if h = hart then s.freeRings hart ++ [⟨frame, layout⟩] else s.freeRings h }
  else .error .ringExhausted

end Orbit.Mem
