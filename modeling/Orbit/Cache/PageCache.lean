import Mathlib.Data.List.AList
import Orbit.Paging.Mmap

/-!
The page cache: slots by key, the queue of keys to evict, and the frames not in use. A
load that is under way keeps its frame and the readers waiting for it; a slot that is
ready can be evicted. The two places where the source would panic are results here.
-/

namespace Orbit.Cache

open Paging

structure CacheKey where
  dev : Nat
  lba : Nat
  deriving DecidableEq, Repr

/-- Where the bytes of a completed load go. -/
inductive Waiter where
  | user (tid pid intra userPagePa userPageOff len : Nat)
  | kernel (tid intra dstKva len : Nat)
  deriving DecidableEq, Repr

inductive SlotState where
  | loading (frame validBytes : Nat) (waiters : List Waiter)
  | ready (frame validBytes : Nat)
  deriving DecidableEq, Repr

namespace SlotState

def frame : SlotState → Nat
  | .loading frame _ _ | .ready frame _ => frame

def isLoading : SlotState → Bool
  | .loading .. => true
  | .ready .. => false

/-- The readers waiting for a slot. -/
def pending : SlotState → List Waiter
  | .loading _ _ waiters => waiters
  | .ready .. => []

end SlotState

structure PageCacheStats where
  hits : Nat
  misses : Nat
  coalesced : Nat
  evictions : Nat
  poolExhausted : Nat
  ioErrors : Nat

inductive CacheErr where
  | notFound
  | wrongState
  | poolExhausted
  | alreadyPresent

/-- The `expect` and the `unreachable!` of `acquire_frame`. -/
inductive CachePanic where
  | victimMissing
  | victimLoading

structure PageCache where
  entries : AList fun _ : CacheKey => SlotState
  /-- most recently used first -/
  lru : List CacheKey
  /-- the end of the vector first -/
  pool : List Nat
  capacity : Nat
  stats : PageCacheStats

/-- Frames for `with_capacity`, taken one after the other. -/
def allocFrames : Nat → FrameAllocator → List Nat → Option (List Nat × FrameAllocator)
  | 0, pages, pool => some (pool, pages)
  | n + 1, pages, pool =>
    match pages.allocAligned pageLayout with
    | none => none
    | some (frame, pages) => allocFrames n pages (frame :: pool)

namespace PageCache

def withCapacity (kernelPages : FrameAllocator) (capacity : Nat) : Option PageCache :=
  match allocFrames capacity kernelPages [] with
  | none => none
  | some (pool, _) => some ⟨∅, [], pool, capacity, ⟨0, 0, 0, 0, 0, 0⟩⟩

def lookup (c : PageCache) (key : CacheKey) : Option SlotState := c.entries.lookup key

def touchLru (c : PageCache) (key : CacheKey) : PageCache :=
  match c.lookup key with
  | some (.ready _ _) => { c with lru := key :: c.lru.erase key }
  | _ => c

def recordHit (c : PageCache) : PageCache :=
  { c with stats := { c.stats with hits := c.stats.hits + 1 } }

def registerWaiter (c : PageCache) (key : CacheKey) (waiter : Waiter) :
    Except CacheErr Unit × PageCache :=
  match c.lookup key with
  | none => (.error .notFound, c)
  | some (.ready _ _) => (.error .wrongState, c)
  | some (.loading frame validBytes waiters) =>
    (.ok (), { c with
      entries := c.entries.insert key (.loading frame validBytes (waiters ++ [waiter]))
      stats := { c.stats with coalesced := c.stats.coalesced + 1 } })

/-- A free frame, or that of the slot used least recently. -/
def acquireFrame (c : PageCache) : Except CachePanic (Except CacheErr Nat × PageCache) :=
  match c.pool with
  | frame :: pool => .ok (.ok frame, { c with pool })
  | [] =>
    match c.lru.getLast? with
    | none =>
      .ok (.error .poolExhausted,
        { c with stats := { c.stats with poolExhausted := c.stats.poolExhausted + 1 } })
    | some key =>
      match c.lookup key with
      | none => .error .victimMissing
      | some (.loading ..) => .error .victimLoading
      | some (.ready frame _) =>
        .ok (.ok frame, { c with
          entries := c.entries.erase key
          lru := c.lru.dropLast
          stats := { c.stats with evictions := c.stats.evictions + 1 } })

def beginLoad (c : PageCache) (key : CacheKey) (validBytes : Nat) (waiter : Waiter) :
    Except CachePanic (Except CacheErr Nat × PageCache) :=
  match c.lookup key with
  | some _ => .ok (.error .alreadyPresent, c)
  | none =>
    match c.acquireFrame with
    | .error p => .error p
    | .ok (.error e, c) => .ok (.error e, c)
    | .ok (.ok frame, c) =>
      .ok (.ok frame, { c with
        entries := c.entries.insert key (.loading frame validBytes [waiter])
        stats := { c.stats with misses := c.stats.misses + 1 } })

/-- The end of a load: the readers that were waiting, and the slot ready or gone. -/
def completeSlot (c : PageCache) (key : CacheKey) (status : Nat) : List Waiter × PageCache :=
  match c.lookup key with
  | none => ([], c)
  | some (.ready _ _) => ([], c)
  | some (.loading frame validBytes waiters) =>
    if status = 0 then
      (waiters, { c with
        entries := c.entries.insert key (.ready frame validBytes)
        lru := key :: c.lru })
    else
      (waiters, { c with
        entries := c.entries.erase key
        pool := frame :: c.pool
        stats := { c.stats with ioErrors := c.stats.ioErrors + 1 } })

end PageCache

/-- The calls that change a cache. -/
inductive Op where
  | beginLoad (key : CacheKey) (validBytes : Nat) (waiter : Waiter)
  | registerWaiter (key : CacheKey) (waiter : Waiter)
  | touchLru (key : CacheKey)
  | completeSlot (key : CacheKey) (status : Nat)
  deriving DecidableEq, Repr

/-- A cache with the record of its readers: those taken in and those returned, for each
key in the order of the calls. -/
structure History where
  cache : PageCache
  registered : CacheKey → List Waiter
  returned : CacheKey → List Waiter

/-- A list more at one key. -/
def extend (f : CacheKey → List Waiter) (key : CacheKey) (ws : List Waiter) :
    CacheKey → List Waiter :=
  fun k => if k = key then f key ++ ws else f k

namespace History

def start (c : PageCache) : History := ⟨c, fun _ => [], fun _ => []⟩

/-- One call, to its end or to its panic. -/
def attempt (h : History) : Op → Except CachePanic History
  | .beginLoad key validBytes waiter =>
    match h.cache.beginLoad key validBytes waiter with
    | .error p => .error p
    | .ok (.error _, c) => .ok { h with cache := c }
    | .ok (.ok _, c) => .ok { h with cache := c, registered := extend h.registered key [waiter] }
  | .registerWaiter key waiter =>
    match h.cache.registerWaiter key waiter with
    | (.error _, c) => .ok { h with cache := c }
    | (.ok _, c) => .ok { h with cache := c, registered := extend h.registered key [waiter] }
  | .touchLru key => .ok { h with cache := h.cache.touchLru key }
  | .completeSlot key status =>
    let (ws, c) := h.cache.completeSlot key status
    .ok { h with cache := c, returned := extend h.returned key ws }

def step (h : History) (op : Op) : Option History := (h.attempt op).toOption

end History

end Orbit.Cache
