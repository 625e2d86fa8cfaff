import Orbit.Abi.Errno
import Orbit.Mem.Layout
import Orbit.Store.QueueMap
import Orbit.Transition.Run

/-!
Futexes. The manager keeps, per physical word, the threads that wait on it, and runs one
request at a time. Around it memory changes: blocks are mapped into processes, event
fds and net channels are closed, surfaces destroyed, threads and processes reaped, and
their frames are handed out again. An address space is seen page by page; a large page
is a run of small ones.
-/

namespace Orbit.Futex

open Paging (pageSize)
open Store (Table)
open Abi (Errno)

/-- `FutexWaiter`, with the ghost number of its arrival. -/
structure FutexWaiter where
  tid : Nat
  pid : Nat
  deadlineTicks : Nat
  arrival : Nat
  deriving DecidableEq

/-- A call of `publish_pending_for_tid`, with the ghost waiter it resumes, if any. -/
structure Publication where
  tid : Nat
  value : Int
  waiter : Option FutexWaiter

/-- A page of a process that its page table leads to a frame. -/
structure Leaf where
  pid : Nat
  page : Nat
  frame : Nat

/-- What a block of user memory was mapped for. -/
inductive RegionKind where
  | heap
  | surface
  | netChannel
  | eventFd
  | thread
  deriving DecidableEq

/-- A block that stays with its process until it is closed, destroyed or reaped. -/
structure Region where
  kind : RegionKind
  pid : Nat
  page : Nat
  frame : Nat
  pages : Nat
  /-- the network thread has a clone of the region -/
  netRef : Bool
  /-- the handle is gone -/
  closed : Bool

namespace Region

def frames (r : Region) : List Nat := List.range' r.frame r.pages

/-- The pages the region was mapped at. -/
def Covers (r : Region) (page : Nat) : Prop := r.page ≤ page ∧ page < r.page + r.pages

instance (r : Region) (page : Nat) : Decidable (r.Covers page) :=
  inferInstanceAs (Decidable (_ ∧ _))

end Region

/-- The page table a request names by the address of its root, `root_pa`. When its process has
been reaped since the request was queued, the frame is free or belongs to somebody else, and a
walk gives whatever it leads to. -/
structure Root where
  pa : Nat
  stale : Option Nat

structure Memory where
  leaves : List Leaf
  /-- the roots of the page tables of the processes there are -/
  roots : Table Nat
  words : Nat → UInt32
  regions : Table Region
  nextRegion : Nat
  /-- frames that belong to nobody -/
  free : List Nat

namespace Memory

/-- `virt_to_phys` -/
def virtToPhys (m : Memory) (pid va : Nat) : Option Nat :=
  (m.leaves.find? fun l => l.pid = pid ∧ l.page = va / pageSize).map fun l =>
    l.frame * pageSize + va % pageSize

/-- The handlers of queued requests walk the root the request carries and do not look at the
process. -/
def walk (m : Memory) (pid : Nat) (root : Root) (va : Nat) : Option Nat :=
  if m.roots.get pid = some root.pa then m.virtToPhys pid va else root.stale

/-- A store by user code to a word it can reach, or by any other writer. -/
def store (m : Memory) (pa : Nat) (v : UInt32) : Memory :=
  { m with words := fun a => if a = pa then v else m.words a }

/-- `map_address_range`, page by page. It stops at a page that has a leaf; the pages
before it stay mapped. -/
def mapPages (pid : Nat) : Nat → Nat → Nat → List Leaf → Bool × List Leaf
  | 0, _, _, leaves => (true, leaves)
  | n + 1, page, frame, leaves =>
    if leaves.any fun l => l.pid = pid ∧ l.page = page then (false, leaves)
    else mapPages pid n (page + 1) (frame + 1) (leaves ++ [⟨pid, page, frame⟩])

/-- Map zeroed frames into a process. When the mapper fails the frames go back to the
pool, as `run_mmap_req` and the others leave them. -/
def mapRegion (m : Memory) (r : Region) : Option Memory :=
  if r.frames.all (· ∈ m.free) then
    let zeroed := fun a => if a / pageSize ∈ r.frames then 0 else m.words a
    match mapPages r.pid r.pages r.page r.frame m.leaves with
    | (false, leaves) => some { m with leaves, words := zeroed }
    | (true, leaves) => some {
        leaves
        roots := m.roots
        words := zeroed
        regions := m.regions.insert m.nextRegion r
        nextRegion := m.nextRegion + 1
        free := m.free.filter (· ∉ r.frames) }
  else none

/-- The frames of a region nobody refers to are handed out again. -/
def dropRegion (m : Memory) (id : Nat) (r : Region) : Memory :=
  if r.netRef then { m with regions := m.regions.insert id { r with closed := true } }
  else { m with regions := m.regions.erase id, free := m.free ++ r.frames }

/-- Take the leaves of a region out of the page table of its process and drop it. -/
def unmapRegion (m : Memory) (id : Nat) (r : Region) : Memory :=
  { m with leaves := m.leaves.filter fun l => ¬ (l.pid = r.pid ∧ r.Covers l.page) }.dropRegion id r

/-- The region `id` of a process, if it has one that is of one of the kinds. -/
def held (m : Memory) (kinds : List RegionKind) (pid id : Nat) : Option Region :=
  (m.regions.get id).filter fun r => r.pid = pid ∧ r.kind ∈ kinds ∧ r.closed = false

def release (m : Memory) (kinds : List RegionKind) (pid id : Nat) : Memory :=
  match m.held kinds pid id with
  | none => m
  | some r => m.unmapRegion id r

/-- `run_close_req`, on the handles that own memory. -/
def runCloseReq (m : Memory) (pid id : Nat) : Memory := m.release [.netChannel, .eventFd] pid id

def runFbSurfaceDestroyReq (m : Memory) (pid id : Nat) : Memory := m.release [.surface] pid id

/-- `dealloc_thread`, on the stack, thread-local block or trap frame of a thread. -/
def deallocThread (m : Memory) (pid id : Nat) : Memory := m.release [.thread] pid id

/-- The network thread lets go of a region. -/
def netDrop (m : Memory) (id : Nat) : Memory :=
  match m.regions.get id with
  | none => m
  | some r =>
    if r.closed then m.dropRegion id { r with netRef := false }
    else { m with regions := m.regions.insert id { r with netRef := false } }

/-- What `dealloc_process` does with the memory of the process: its regions are dropped
and its page table is freed. -/
def deallocProcess (m : Memory) (pid : Nat) : Memory :=
  let kinds := [.heap, .surface, .netChannel, .eventFd, .thread]
  let m := (m.regions.entries.map (·.1)).foldl (fun m id => m.release kinds pid id) m
  { m with leaves := m.leaves.filter fun l => l.pid ≠ pid, roots := m.roots.erase pid }

end Memory

/-- `futex_waiters`, what was published, and the ghost records: how many waiters have
arrived and which were removed with their process. -/
structure Waiters where
  waiters : Table (List FutexWaiter)
  published : List Publication
  arrivals : Nat
  swept : List FutexWaiter

namespace Waiters

def new : Waiters := ⟨.empty, [], 0, []⟩

def queue (f : Waiters) (pa : Nat) : List FutexWaiter := Store.queue f.waiters pa

/-- `publish_pending_for_tid` to a thread that has no place in a queue. -/
def publish (f : Waiters) (tid : Nat) (value : Int) : Waiters :=
  { f with published := f.published ++ [⟨tid, value, none⟩] }

def park (f : Waiters) (pa pid tid : Nat) : Waiters :=
  { f with
    waiters := f.waiters.pushBack pa ⟨tid, pid, 0, f.arrivals⟩
    arrivals := f.arrivals + 1 }

/-- Take up to `n` waiters from the front of the queue of `pa` and publish 0 to each. -/
def wakeFront (f : Waiters) (pa n : Nat) : Nat × Waiters :=
  let take := min n (f.queue pa).length
  let drained := f.waiters.drainFront pa take
  (take, { f with
    waiters := drained.2
    published := f.published ++ drained.1.map fun w => ⟨w.tid, 0, some w⟩ })

/-- The sweep of `dealloc_process`. -/
def sweep (f : Waiters) (deadPid : Nat) (gone : List FutexWaiter) : Waiters :=
  { f with
    waiters := f.waiters.retainQueues fun w => w.pid ≠ deadPid
    swept := f.swept ++ gone }

/-- Every waiter of a process, queue by queue. -/
def ofProcess (f : Waiters) (pid : Nat) : List FutexWaiter :=
  (f.waiters.entries.flatMap (·.2)).filter fun w => w.pid = pid

end Waiters

structure State where
  mem : Memory
  futex : Waiters

/-- The checks at the head of `futex_wait_req` and `futex_wake_req`. -/
def checkWord (uaddr : Nat) : Except Errno Unit :=
  if uaddr % 4 ≠ 0 then .error .einval
  else if Mem.userRangeOk uaddr 4 = false then .error .efault
  else if Mem.userVa uaddr = false then .error .efault
  else .ok ()

namespace State

def runFutexWaitReq (s : State) (uaddr : Nat) (expected : UInt32) (pid : Nat) (root : Root)
    (tid : Nat) : State :=
  match s.mem.walk pid root uaddr with
  | none => { s with futex := s.futex.publish tid (Errno.toRet .efault) }
  | some pa =>
    if s.mem.words pa ≠ expected then
      { s with futex := s.futex.publish tid (Errno.toRet .eagain) }
    else { s with futex := s.futex.park pa pid tid }

def runFutexWakeReq (s : State) (uaddr n pid : Nat) (root : Root) : Int × State :=
  match s.mem.walk pid root uaddr with
  | none => (Errno.toRet .efault, s)
  | some pa =>
    let (take, futex) := s.futex.wakeFront pa n
    (take, { s with futex })

def deallocProcess (s : State) (pid : Nat) : State where
  mem := s.mem.deallocProcess pid
  futex := s.futex.sweep pid (s.futex.ofProcess pid)

end State

inductive Action where
  | store (pa : Nat) (v : UInt32)
  | map (r : Region)
  | close (pid id : Nat)
  | surfaceDestroy (pid id : Nat)
  | reapThread (pid id : Nat)
  | netDrop (id : Nat)
  /-- a process starts, with its own page table -/
  | spawn (pid rootPa : Nat)
  | reapProcess (pid : Nat)
  | wait (uaddr : Nat) (expected : UInt32) (pid : Nat) (root : Root) (tid : Nat)
  | wake (uaddr : Nat) (n : UInt32) (pid : Nat) (root : Root) (tid : Nat)

def step (s : State) : Action → Option State
  | .store pa v => some { s with mem := s.mem.store pa v }
  | .map r => (s.mem.mapRegion { r with closed := false }).map fun m => { s with mem := m }
  | .close pid id => some { s with mem := s.mem.runCloseReq pid id }
  | .surfaceDestroy pid id => some { s with mem := s.mem.runFbSurfaceDestroyReq pid id }
  | .reapThread pid id => some { s with mem := s.mem.deallocThread pid id }
  | .netDrop id => some { s with mem := s.mem.netDrop id }
  | .spawn pid rootPa =>
    if (s.mem.roots.get pid).isSome then none
    else some { s with mem := { s.mem with roots := s.mem.roots.insert pid rootPa } }
  | .reapProcess pid => some (s.deallocProcess pid)
  | .wait uaddr expected pid root tid =>
    match checkWord uaddr with
    | .error _ => some s
    | .ok () => some (s.runFutexWaitReq uaddr expected pid root tid)
  | .wake uaddr n pid root tid =>
    match checkWord uaddr with
    | .error _ => some s
    | .ok () =>
      let (ret, s) := s.runFutexWakeReq uaddr n.toNat pid root
      some { s with futex := s.futex.publish tid ret }

/-- A kernel in which nobody has waited yet, with any memory. -/
def Booted (s : State) : Prop := s.futex = .new

end Orbit.Futex
