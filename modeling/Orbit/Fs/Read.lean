import Orbit.Abi.Errno
import Orbit.Cache.PageCache

/-!
`fs_read` through the page cache. A request walks the range page by page and, within a page,
slice by slice of the user's pages: a slice of a page that is ready is copied at once, one of
a page that is loading leaves a waiter, one of a page that is absent starts a load. The
completions of the device come in any order, each first as an interrupt and then as work
for the manager, which copies to the waiters and resumes a thread with its last one.

Pages are 4096 bytes, sectors 512. Which call a copy or a result is for is kept with it; the
kernel finds the call by the number of its thread.
-/

namespace Orbit.Fs

open Orbit.Abi Cache

/-- What the mount knows of a file. -/
structure TarInode where
  isReg : Bool
  size : Nat
  dataSector : Nat

/-- A mounted archive: its files lie inside the disk and apart from each other. -/
structure Tarfs where
  inodes : List (Option TarInode)
  disk : Nat → UInt8
  capacitySectors : Nat
  inside : ∀ e : TarInode, some e ∈ inodes → e.dataSector * 512 + e.size ≤ capacitySectors * 512
  apart : ∀ (i j : Nat) (e e' : TarInode), inodes[i]? = some (some e) →
    inodes[j]? = some (some e') → i ≠ j →
    e.dataSector * 512 + e.size ≤ e'.dataSector * 512 ∨
    e'.dataSector * 512 + e'.size ≤ e.dataSector * 512

namespace Tarfs

def entry (fs : Tarfs) (ino : Nat) : Option TarInode := (fs.inodes[ino]?).join

def devId : Nat := 1

def size (fs : Tarfs) (ino : Nat) : Option Nat := (fs.entry ino).map TarInode.size

def lbaForPage (fs : Tarfs) (ino page : Nat) : Option Nat :=
  match fs.entry ino with
  | none => none
  | some e =>
    if e.isReg = false then none
    else if (e.size + 4095) / 4096 * 4096 ≤ page * 4096 then none
    else some (e.dataSector + page * 8)

/-- What a page read at a sector yields: zeros past the end of the disk. -/
def pageAt (fs : Tarfs) (lba i : Nat) : UInt8 :=
  if lba + i / 512 < fs.capacitySectors then fs.disk (lba * 512 + i) else 0

/-- A byte of a file. -/
def byteAt (fs : Tarfs) (ino k : Nat) : UInt8 :=
  match fs.entry ino with
  | none => 0
  | some e => fs.disk (e.dataSector * 512 + k)

def fileBytes (fs : Tarfs) (ino start len : Nat) : List UInt8 :=
  (List.range len).map fun j => fs.byteAt ino (start + j)

end Tarfs

/-- A request that has found its file. -/
structure ReadCall where
  id : Nat
  tid : Nat
  pid : Nat
  inode : Nat
  off : Nat
  len : Nat
  size : Nat
  buf : Nat
  /-- `virt_to_phys` of the caller's table, for the address of a page -/
  translate : Nat → Option Nat

/-- How many bytes there are to read. -/
def ReadCall.n (call : ReadCall) : Nat := min call.len (call.size - call.off)

/-- Bytes written to a user's page. -/
structure Copy where
  pa : Nat
  off : Nat
  bytes : List UInt8

structure FsReadInProgress where
  bytesPending : Nat
  bytesDone : Nat
  failed : Bool
  call : ReadCall

/-- `OpenFile` as far as a read uses it. -/
inductive Handle where
  | file (inode offset : Nat) (isRegular : Bool)
  | other

structure State where
  cache : PageCache
  /-- the bytes of the cache's frames -/
  mem : Nat → Nat → UInt8
  handles : Nat → Nat → Option Handle
  fsReads : Nat → Option FsReadInProgress
  /-- chains the device has, and completions posted to the manager -/
  inFlight : List CacheKey
  fills : List (CacheKey × Nat)
  calls : List ReadCall
  written : List (ReadCall × Copy)
  resumed : List (ReadCall × Int)
  refused : List (Nat × Int)
  /-- copies for a thread that has no read -/
  stray : List Copy
  panicked : Bool

/-- Descriptors of the block device's queue; a read takes three. -/
def queueSize : Nat := 64

/-- `submit_blk_read_cached` -/
def submitBlkReadCached (fs : Tarfs) (inFlight : List CacheKey) (lba : Nat) : Bool :=
  decide (lba < fs.capacitySectors) && decide (3 * (inFlight.length + 1) ≤ queueSize)

/-- The locals of `run_fs_read_req`, with what it changes of the kernel. -/
structure Walk where
  cache : PageCache
  inFlight : List CacheKey
  written : List (ReadCall × Copy)
  bytesDone : Nat
  bytesPending : Nat
  totalCommitted : Nat
  walkFailed : Bool
  panicked : Bool

/-- One step of the inner loop: a slice of one cache page and one user page. -/
structure Slice where
  key : CacheKey
  validBytes : Nat
  intra : Nat
  pa : Nat
  off : Nat
  len : Nat

def Slice.waiter (sl : Slice) (call : ReadCall) : Waiter :=
  .user call.tid call.pid sl.intra sl.pa sl.off sl.len

namespace Walk

/-- The walk ends without the rest of the range. -/
def fail (w : Walk) : Walk := { w with walkFailed := true }

/-- A slice of a page that is ready is copied; whether the walk goes on. -/
def hit (call : ReadCall) (mem : Nat → Nat → UInt8) (sl : Slice) (frame valid : Nat) (w : Walk) :
    Walk × Bool :=
  let copyLen := min sl.len (valid - sl.intra)
  let bytes := (List.range copyLen).map fun j => mem frame (sl.intra + j)
  ({ w with
      cache := w.cache.recordHit.touchLru sl.key
      written := if 0 < copyLen then w.written ++ [(call, ⟨sl.pa, sl.off, bytes⟩)] else w.written
      bytesDone := w.bytesDone + copyLen
      totalCommitted := w.totalCommitted + copyLen }, !decide (copyLen < sl.len))

/-- A slice of a page that is loading waits for it. -/
def coalesce (call : ReadCall) (sl : Slice) (w : Walk) : Walk × Bool :=
  match w.cache.registerWaiter sl.key (sl.waiter call) with
  | (.error _, cache) => (fail { w with cache }, false)
  | (.ok _, cache) => ({ w with
      cache
      bytesPending := w.bytesPending + sl.len
      totalCommitted := w.totalCommitted + sl.len }, true)

/-- A page that is absent is loaded. -/
def load (fs : Tarfs) (call : ReadCall) (sl : Slice) (w : Walk) : Walk × Bool :=
  match w.cache.beginLoad sl.key sl.validBytes (sl.waiter call) with
  | .error _ => ({ w with panicked := true }, false)
  | .ok (.error _, cache) => (fail { w with cache }, false)
  | .ok (.ok _, cache) =>
    if submitBlkReadCached fs w.inFlight sl.key.lba then
      ({ w with
        cache
        inFlight := w.inFlight ++ [sl.key]
        bytesPending := w.bytesPending + sl.len
        totalCommitted := w.totalCommitted + sl.len }, true)
    else (fail { w with cache := (cache.completeSlot sl.key 1).2 }, false)

def take (fs : Tarfs) (call : ReadCall) (mem : Nat → Nat → UInt8) (sl : Slice) (w : Walk) :
    Walk × Bool :=
  match w.cache.lookup sl.key with
  | some (.ready frame valid) => w.hit call mem sl frame valid
  | some (.loading ..) => w.coalesce call sl
  | none => w.load fs call sl

/-- The inner loop, over the user's pages. -/
def slices (fs : Tarfs) (call : ReadCall) (mem : Nat → Nat → UInt8) (key : CacheKey)
    (validBytes cacheIntra cacheSliceLen : Nat) : Nat → Nat → Walk → Walk × Bool
  | 0, _, w => (w, true)
  | fuel + 1, cacheOffset, w =>
    if cacheOffset < cacheSliceLen then
      let userDstVa := call.buf + w.totalCommitted
      let userPageVa := userDstVa / 4096 * 4096
      let userPageOff := userDstVa - userPageVa
      match call.translate userPageVa with
      | none => (w.fail, false)
      | some pa =>
        let sliceLen := min (4096 - userPageOff) (cacheSliceLen - cacheOffset)
        match w.take fs call mem ⟨key, validBytes, cacheIntra + cacheOffset, pa, userPageOff,
            sliceLen⟩ with
        | (w, false) => (w, false)
        | (w, true) => slices fs call mem key validBytes cacheIntra cacheSliceLen fuel
            (cacheOffset + sliceLen) w
    else (w, true)

/-- The outer loop, over the pages of the file. -/
def pages (fs : Tarfs) (call : ReadCall) (mem : Nat → Nat → UInt8) (endOff : Nat) :
    Nat → Nat → Walk → Walk
  | 0, _, w => w
  | fuel + 1, curOff, w =>
    if curOff < endOff then
      let targetPage := curOff / 4096
      let cacheIntra := curOff % 4096
      let cacheSliceLen := min (endOff - curOff) (4096 - cacheIntra)
      match fs.lbaForPage call.inode targetPage with
      | none => w.fail
      | some lba =>
        let validBytes := min 4096 (call.size - targetPage * 4096)
        match w.slices fs call mem ⟨Tarfs.devId, lba⟩ validBytes cacheIntra cacheSliceLen
            cacheSliceLen 0 with
        | (w, false) => w
        | (w, true) => pages fs call mem endOff fuel (curOff + cacheSliceLen) w
    else w

end Walk

namespace State

def resume (s : State) (call : ReadCall) (value : Int) : State :=
  { s with resumed := s.resumed ++ [(call, value)] }

def refuse (s : State) (tid : Nat) (e : Errno) : State :=
  { s with refused := s.refused ++ [(tid, e.toRet)] }

def setOffset (s : State) (pid fd inode offset : Nat) (isRegular : Bool) : State :=
  { s with handles := fun p f =>
      if p = pid ∧ f = fd then some (.file inode offset isRegular) else s.handles p f }

def setRead (s : State) (tid : Nat) (prog : Option FsReadInProgress) : State :=
  { s with fsReads := fun t => if t = tid then prog else s.fsReads t }

/-- The walk of a call from the state it finds. -/
def walk (fs : Tarfs) (s : State) (call : ReadCall) : Walk :=
  let cap := call.n % 2 ^ 32
  Walk.pages fs call s.mem (call.off + cap) cap call.off
    ⟨s.cache, s.inFlight, s.written, 0, 0, 0, false, false⟩

/-- The decision after the walk. -/
def settle (s : State) (fd : Nat) (call : ReadCall) (w : Walk) : State :=
  let s := { s with
    cache := w.cache
    inFlight := w.inFlight
    written := w.written
    panicked := s.panicked || w.panicked }
  if w.bytesPending = 0 then
    let s := s.setOffset call.pid fd call.inode (call.off + w.bytesDone) true
    let result := if w.walkFailed && w.bytesDone = 0 then Errno.eio.toRet else (w.bytesDone : Int)
    s.resume call result
  else
    (s.setOffset call.pid fd call.inode (call.off + w.totalCommitted) true).setRead call.tid
      (some ⟨w.bytesPending, w.bytesDone, w.walkFailed, call⟩)

def runFsReadReq (fs : Tarfs) (s : State) (tid pid fd buf len : Nat)
    (translate : Nat → Option Nat) : State :=
  match s.handles pid fd with
  | none => s.refuse tid .ebadf
  | some .other => s.refuse tid .ebadf
  | some (.file inode off isRegular) =>
    if isRegular = false then s.refuse tid .eisdir
    else
      match fs.size inode with
      | none => s.refuse tid .eio
      | some size =>
        let call : ReadCall := ⟨s.calls.length, tid, pid, inode, off, len, size, buf, translate⟩
        let s := { s with calls := s.calls ++ [call] }
        if size ≤ off then s.resume call 0
        else s.settle fd call (s.walk fs call)

/-- `complete_fs_read_waiter` -/
def completeFsReadWaiter (s : State) (tid status len : Nat) : State :=
  match s.fsReads tid with
  | none => s
  | some prog =>
    let pending := prog.bytesPending - len
    let done := if status = 0 ∧ prog.failed = false then prog.bytesDone + len else prog.bytesDone
    let failed := prog.failed || decide (status ≠ 0)
    if pending = 0 then
      (s.setRead tid none).resume prog.call (if failed then Errno.eio.toRet else (done : Int))
    else s.setRead tid (some ⟨pending, done, failed, prog.call⟩)

/-- One waiter of a load that has ended. -/
def dispatch (frame status : Nat) (s : State) : Waiter → State
  | .kernel .. => s
  | .user tid _ intra pa off len =>
    let copy : Copy := ⟨pa, off, (List.range len).map fun j => s.mem frame (intra + j)⟩
    let s := if status = 0 then
        match s.fsReads tid with
        | some prog => { s with written := s.written ++ [(prog.call, copy)] }
        | none => { s with stray := s.stray ++ [copy] }
      else s
    s.completeFsReadWaiter tid status len

def runCacheFill (s : State) (key : CacheKey) (status : Nat) : State :=
  match s.cache.lookup key with
  | none => s
  | some slot =>
    let (waiters, cache) := s.cache.completeSlot key status
    waiters.foldl (dispatch slot.frame status) { s with cache }

/-- The device ends a chain: the page is in its frame, and the manager is told. -/
def irq (fs : Tarfs) (s : State) (key : CacheKey) (status : Nat) : State :=
  let mem := match s.cache.lookup key with
    | some slot => if status = 0 then
        fun frame i => if frame = slot.frame then fs.pageAt key.lba i else s.mem frame i
      else s.mem
    | none => s.mem
  { s with
    inFlight := s.inFlight.erase key
    fills := s.fills ++ [(key, status)]
    mem }

end State

/-- `MAX_FS_READ_LEN` -/
def maxFsReadLen : Nat := 16 * 4096

inductive Action where
  /-- a request that `fs_read_req` has let through, served by the manager -/
  | read (tid pid fd buf len : Nat) (translate : Nat → Option Nat)
  | irq (key : CacheKey) (status : Nat)
  | fill

/-- One step; a thread that waits for a read makes no other. -/
def step (fs : Tarfs) (s : State) : Action → Option State
  | .read tid pid fd buf len translate =>
    if (s.fsReads tid).isNone ∧ 1 ≤ len ∧ len ≤ maxFsReadLen then
      some (s.runFsReadReq fs tid pid fd buf len translate)
    else none
  | .irq key status => if key ∈ s.inFlight then some (s.irq fs key status) else none
  | .fill =>
    match s.fills with
    | (key, status) :: rest => some ({ s with fills := rest }.runCacheFill key status)
    | [] => none

/-- A kernel that has mounted `fs`: an empty cache, and handles to files of the mount. -/
structure Start (fs : Tarfs) (s : State) : Prop where
  entries : s.cache.entries = ∅
  lru : s.cache.lru = []
  pool : s.cache.pool.Nodup ∧ s.cache.pool.length = s.cache.capacity
  handles : ∀ pid fd inode off, s.handles pid fd = some (.file inode off true) →
    ∃ e, fs.entry inode = some e ∧ e.isReg = true
  fsReads : ∀ tid, s.fsReads tid = none
  idle : s.inFlight = [] ∧ s.fills = []
  record : s.calls = [] ∧ s.written = [] ∧ s.resumed = [] ∧ s.stray = [] ∧ s.panicked = false

end Orbit.Fs
