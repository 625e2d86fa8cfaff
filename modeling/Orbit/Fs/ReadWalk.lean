import Orbit.Cache.Totals
import Orbit.Fs.Read

/-!
The walk of one `fs_read` over its range. As long as the user's pages are mapped and there is
room for its loads, the walk commits to every byte: what is ready is written at once, from
the right place of the file, and every other byte has a waiter at the load that will bring
it.
-/

namespace Orbit.Fs

open Orbit.Abi Cache Tarfs PageCache

variable {written written' : List (ReadCall × Copy)} {frame : Nat} {e : TarInode}

variable {key : CacheKey} {keys : CacheKey → Prop} {i k lba page : Nat} {c : PageCache} {sl : Slice}

/-- A slice of a call's range that lies in one page of the file and one page of the user. -/
structure Segment (call : ReadCall) (t pa len : Nat) : Prop where
  pos : 0 < len
  within : t + len ≤ call.n
  translate : call.translate ((call.buf + t) / 4096 * 4096) = some pa
  userFit : (call.buf + t) % 4096 + len ≤ 4096
  cacheFit : (call.off + t) % 4096 + len ≤ 4096

/-- The waiter of a segment. -/
def ReadCall.waiterAt (call : ReadCall) (t pa len : Nat) : Waiter :=
  .user call.tid call.pid ((call.off + t) % 4096) pa ((call.buf + t) % 4096) len

/-- `w` waits at `key` for the segment at `t`. -/
def Owed (fs : Tarfs) (call : ReadCall) (key : CacheKey) (w : Waiter) (t len : Nat) : Prop :=
  ∃ pa, Segment call t pa len ∧ w = call.waiterAt t pa len ∧
    fs.lbaForPage call.inode ((call.off + t) / 4096) = some key.lba ∧ key.dev = devId

/-- `copy` puts the bytes of the file where the segment at `t` wants them. -/
def Put (fs : Tarfs) (call : ReadCall) (copy : Copy) (t len : Nat) : Prop :=
  ∃ pa, Segment call t pa len ∧
    copy = ⟨pa, (call.buf + t) % 4096, fs.fileBytes call.inode (call.off + t) len⟩

/-- The call is for a regular file of the mount. -/
def CallOk (fs : Tarfs) (call : ReadCall) : Prop :=
  ∃ e, fs.entry call.inode = some e ∧ e.isReg = true ∧ e.size = call.size

/-- The key is of a page of a file with so many valid bytes. -/
def Holds (fs : Tarfs) (key : CacheKey) (valid : Nat) : Prop :=
  ∃ ino e page, fs.entry ino = some e ∧ page * 4096 < e.size ∧
    key = ⟨devId, e.dataSector + page * 8⟩ ∧ valid = min 4096 (e.size - page * 4096)

variable {fs : Tarfs} {call : ReadCall}

theorem entry_mem {ino : Nat} (h : fs.entry ino = some e) :
    fs.inodes[ino]? = some (some e) := by
  unfold Tarfs.entry at h
  cases hino : fs.inodes[ino]? with
  | none =>
    rw [hino] at h
    cases h
  | some entry =>
    rw [hino] at h
    exact congrArg some h

/-- Files lie apart, so a key is of one page of one file. -/
theorem Holds.unique {valid valid' : Nat} (h : Holds fs key valid)
    (h' : Holds fs key valid') : valid = valid' := by
  obtain ⟨ino, e, page, he, hpage, rfl, rfl⟩ := h
  obtain ⟨ino', e', page', he', hpage', hkey, rfl⟩ := h'
  have hlba : e.dataSector + page * 8 = e'.dataSector + page' * 8 := by
    simpa using congrArg CacheKey.lba hkey
  by_cases hino : ino = ino'
  · subst hino
    rw [he] at he'
    cases he'
    have hpages : page = page' := by omega
    rw [hpages]
  rcases fs.apart ino ino' e e' (entry_mem he) (entry_mem he') hino with hle | hle
  · omega
  · omega

theorem lba_eq {ino page lba : Nat} (he : fs.entry ino = some e)
    (h : fs.lbaForPage ino page = some lba) : lba = e.dataSector + page * 8 := by
  simp only [lbaForPage, he] at h
  split at h
  · cases h
  split at h
  · cases h
  · exact (Option.some.inj h).symm

/-- A page of the range is found on the disk. -/
theorem lba_some (hok : CallOk fs call) (hpage : page * 4096 < call.size) :
    ∃ lba, fs.lbaForPage call.inode page = some lba ∧
      Holds fs ⟨devId, lba⟩ (min 4096 (call.size - page * 4096)) ∧ lba < fs.capacitySectors := by
  obtain ⟨e, he, hreg, hsize⟩ := hok
  rw [← hsize] at hpage
  have hinside := fs.inside e (List.mem_of_getElem? (entry_mem he))
  refine ⟨e.dataSector + page * 8, ?_, ⟨call.inode, e, page, he, hpage, rfl, by rw [hsize]⟩, ?_⟩
  · have hround : ¬ (e.size + 4095) / 4096 * 4096 ≤ page * 4096 := by omega
    simp [lbaForPage, he, hreg, hround]
  · omega

/-- What is read from the disk for a page of a file is the file there. -/
theorem pageAt_file (hok : CallOk fs call)
    (hlba : fs.lbaForPage call.inode page = some lba) (hi : page * 4096 + i < call.size) :
    fs.pageAt lba i = fs.byteAt call.inode (page * 4096 + i) := by
  obtain ⟨e, he, hreg, hsize⟩ := hok
  have hinside := fs.inside e (List.mem_of_getElem? (entry_mem he))
  obtain rfl := lba_eq he hlba
  have hlt : e.dataSector + page * 8 + i / 512 < fs.capacitySectors := by omega
  have haddr : (e.dataSector + page * 8) * 512 + i = e.dataSector * 512 + (page * 4096 + i) := by
    omega
  simp only [pageAt, if_pos hlt, byteAt, he, haddr]

/-- The bytes of a segment, read from a frame that holds its page. -/
theorem bytes_of_frame (hok : CallOk fs call) {t pa len : Nat} (hseg : Segment call t pa len)
    (hlba : fs.lbaForPage call.inode ((call.off + t) / 4096) = some lba)
    {frame : Nat → UInt8} (hframe : ∀ i < 4096, frame i = fs.pageAt lba i) :
    (List.range len).map (fun j => frame ((call.off + t) % 4096 + j)) =
      fs.fileBytes call.inode (call.off + t) len := by
  apply List.map_congr_left
  intro j hj
  have hj := List.mem_range.mp hj
  have hfit := hseg.cacheFit
  have hwithin := hseg.within
  have hn : call.n ≤ call.size - call.off := Nat.min_le_right _ _
  rw [hframe _ (by omega), pageAt_file hok hlba (by omega)]
  congr 1
  omega

/-- The slots of the cache: those ready hold their page, those loading have readers of the
calls that are under way. -/
structure Filled (fs : Tarfs) (mem : Nat → Nat → UInt8) (owner : Nat → Option ReadCall)
    (frames : List Nat) (c : PageCache) : Prop where
  sound : c.Sound frames
  nodup : frames.Nodup
  capacity : frames.length = c.capacity
  ready : ∀ key frame valid, c.lookup key = some (.ready frame valid) →
    (∀ i < 4096, mem frame i = fs.pageAt key.lba i) ∧ Holds fs key valid
  loading : ∀ key frame valid ws, c.lookup key = some (.loading frame valid ws) →
    Holds fs key valid ∧ ∀ w ∈ ws, ∃ call t len, owner call.tid = some call ∧
      Owed fs call key w t len

/-- A byte of the range is written. -/
def Arrived (fs : Tarfs) (written : List (ReadCall × Copy)) (call : ReadCall) (i : Nat) : Prop :=
  ∃ copy t len, (call, copy) ∈ written ∧ Put fs call copy t len ∧ t ≤ i ∧ i < t + len

theorem Arrived.mono (h : Arrived fs written call i) (hwritten : ∀ x ∈ written, x ∈ written') :
    Arrived fs written' call i := by
  obtain ⟨copy, t, len, hmem, hrest⟩ := h
  exact ⟨copy, t, len, hwritten _ hmem, hrest⟩

/-- A byte of the range is written or waited for. -/
def Covered (fs : Tarfs) (written : List (ReadCall × Copy)) (c : PageCache) (call : ReadCall)
    (i : Nat) : Prop :=
  Arrived fs written call i ∨
  ∃ key frame valid ws w t len, c.lookup key = some (.loading frame valid ws) ∧ w ∈ ws ∧
    Owed fs call key w t len ∧ t ≤ i ∧ i < t + len

theorem Covered.mono {c c' : PageCache}
    (h : Covered fs written c call i) (hwritten : ∀ x ∈ written, x ∈ written')
    (hgrows : c.Grows c') : Covered fs written' c' call i := by
  rcases h with h | ⟨key, frame, valid, ws, w, t, len, hload, hw, hrest⟩
  · exact .inl (h.mono hwritten)
  · obtain ⟨more, hmore⟩ := hgrows key frame valid ws hload
    exact .inr ⟨key, frame, valid, ws ++ more, w, t, len, hmore, List.mem_append_left _ hw, hrest⟩

/-- The chains and the posted completions are those of the loads under way. -/
def Tracked (flight : List CacheKey) (c : PageCache) : Prop :=
  flight.Nodup ∧ ∀ key, key ∈ flight ↔
    ∃ frame valid ws, c.lookup key = some (.loading frame valid ws)

/-- The call a thread waits for. -/
def ownerOf (fsReads : Nat → Option FsReadInProgress) (tid : Nat) : Option ReadCall :=
  (fsReads tid).map FsReadInProgress.call

/-- The calls under way while `call` walks. -/
def State.ownerWith (s : State) (call : ReadCall) (tid : Nat) : Option ReadCall :=
  if tid = call.tid then some call else ownerOf s.fsReads tid

/-- What the walk of `call` from `s` has done so far. -/
structure WalkInv (fs : Tarfs) (s : State) (frames : List Nat) (call : ReadCall) (w : Walk) :
    Prop where
  filled : Filled fs s.mem (s.ownerWith call) frames w.cache
  grows : s.cache.Grows w.cache
  others : ∀ tid, tid ≠ call.tid → w.cache.outstanding tid = s.cache.outstanding tid
  mine : w.cache.outstanding call.tid = w.bytesPending
  sum : w.bytesDone + w.bytesPending = w.totalCommitted
  written : ∃ more, w.written = s.written ++ more ∧
    ∀ x ∈ more, x.1 = call ∧ ∃ t len, Put fs call x.2 t len
  covered : ∀ i < w.totalCommitted, Covered fs w.written w.cache call i
  tracked : Tracked (w.inFlight ++ s.fills.map Prod.fst) w.cache
  fine : w.walkFailed = false ∧ w.panicked = false

/-- There is room for `k` more loads, in the cache and in the device's queue. -/
def Room (c : PageCache) (inFlight : List CacheKey) (k : Nat) : Prop :=
  c.loads + k ≤ c.capacity ∧ 3 * (inFlight.length + k) ≤ queueSize

/-- What a slice does to the slots and to the queue. -/
structure Taken (key : CacheKey) (w w' : Walk) : Prop where
  capacity : w'.cache.capacity = w.cache.capacity
  present : w'.cache.lookup key ≠ none
  started : w.cache.lookup key = none →
    w'.cache.loads = w.cache.loads + 1 ∧ w'.inFlight.length = w.inFlight.length + 1
  joined : w.cache.lookup key ≠ none →
    w'.cache.loads = w.cache.loads ∧ w'.inFlight.length = w.inFlight.length ∧
      ∀ k, w.cache.lookup k ≠ none → w'.cache.lookup k ≠ none

/-- What the pages still to come need: room for their loads, or that they are all there. -/
def Left (w : Walk) (k : Nat) (keys : CacheKey → Prop) : Prop :=
  Room w.cache w.inFlight k ∨ ∀ key, keys key → w.cache.lookup key ≠ none

/-- The same with the page under way. -/
def Ahead (w : Walk) (key : CacheKey) (k : Nat) (keys : CacheKey → Prop) : Prop :=
  Room w.cache w.inFlight (k + 1) ∨ w.cache.lookup key ≠ none ∧ Left w k keys

theorem Ahead.room {w : Walk}
    (h : Ahead w key k keys) (hnone : w.cache.lookup key = none) : Room w.cache w.inFlight 1 := by
  rcases h with ⟨hfree, hqueue⟩ | ⟨hne, -⟩
  · exact ⟨by omega, by omega⟩
  · exact absurd hnone hne

theorem Ahead.taken {w w' : Walk}
    (h : Ahead w key k keys) (htaken : Taken key w w') : Left w' k keys := by
  by_cases hnone : w.cache.lookup key = none
  · obtain ⟨hloads, hflight⟩ := htaken.started hnone
    rcases h with ⟨hfree, hqueue⟩ | ⟨hne, -⟩
    · left
      rw [Room, hloads, hflight, htaken.capacity]
      exact ⟨by omega, by omega⟩
    · exact absurd hnone hne
  obtain ⟨hloads, hflight, hkept⟩ := htaken.joined hnone
  rcases h with ⟨hfree, hqueue⟩ | ⟨-, ⟨hfree, hqueue⟩ | hall⟩
  · left
    rw [Room, hloads, hflight, htaken.capacity]
    exact ⟨by omega, by omega⟩
  · left
    rw [Room, hloads, hflight, htaken.capacity]
    exact ⟨hfree, hqueue⟩
  · exact .inr fun x hx => hkept x (hall x hx)

namespace WalkInv

variable {s : State} {frames : List Nat} {w : Walk}

/-- The slice of the walk at `totalCommitted`. -/
structure SliceAt (fs : Tarfs) (call : ReadCall) (w : Walk) (sl : Slice) : Prop where
  segment : Segment call w.totalCommitted sl.pa sl.len
  intra : sl.intra = (call.off + w.totalCommitted) % 4096
  off : sl.off = (call.buf + w.totalCommitted) % 4096
  lba : fs.lbaForPage call.inode ((call.off + w.totalCommitted) / 4096) = some sl.key.lba
  dev : sl.key.dev = devId
  holds : Holds fs sl.key sl.validBytes
  valid : sl.intra + sl.len ≤ sl.validBytes

theorem SliceAt.owed (h : SliceAt fs call w sl) :
    Owed fs call sl.key (sl.waiter call) w.totalCommitted sl.len := by
  refine ⟨sl.pa, h.segment, ?_, h.lba, h.dev⟩
  rw [Slice.waiter, ReadCall.waiterAt, h.intra, h.off]

/-- A new byte range is covered by the segment at the end of the old one. -/
theorem covered_add {t len : Nat} (hold : ∀ i < t, Covered fs written c call i)
    (hnew : ∀ i, t ≤ i → i < t + len → Covered fs written c call i) :
    ∀ i < t + len, Covered fs written c call i := by
  intro i hi
  rcases Nat.lt_or_ge i t with hlt | hge
  · exact hold i hlt
  · exact hnew i hge hi

theorem hit (h : WalkInv fs s frames call w) (hok : CallOk fs call)
    (hsl : SliceAt fs call w sl) {frame valid : Nat}
    (hready : w.cache.lookup sl.key = some (.ready frame valid)) :
    ∃ w', w.hit call s.mem sl frame valid = (w', true) ∧ WalkInv fs s frames call w' ∧
      w'.totalCommitted = w.totalCommitted + sl.len ∧ Taken sl.key w w' := by
  obtain ⟨hcontent, hholds⟩ := h.filled.ready sl.key frame valid hready
  obtain rfl := hholds.unique hsl.holds
  have hcopy : min sl.len (sl.validBytes - sl.intra) = sl.len := by
    have hvalid := hsl.valid
    omega
  have hpos := hsl.segment.pos
  have hlookup := hit_lookup w.cache sl.key
  obtain ⟨hentries, hcap⟩ := hit_entries w.cache sl.key
  have hout : ∀ tid, (w.cache.recordHit.touchLru sl.key).outstanding tid =
      w.cache.outstanding tid := fun tid => by rw [outstanding, hentries]; rfl
  have hgrows : w.cache.Grows (w.cache.recordHit.touchLru sl.key) := .of_lookup hlookup
  have hput : Put fs call ⟨sl.pa, sl.off, (List.range sl.len).map fun j =>
      s.mem frame (sl.intra + j)⟩ w.totalCommitted sl.len := by
    refine ⟨sl.pa, hsl.segment, ?_⟩
    rw [hsl.intra, hsl.off, bytes_of_frame hok hsl.segment hsl.lba hcontent]
  unfold Walk.hit
  simp only [hcopy, if_pos hpos, Nat.lt_irrefl, decide_false, Bool.not_false]
  refine ⟨_, rfl, ⟨⟨?_, h.filled.nodup, ?_, ?_, ?_⟩, h.grows.trans hgrows, ?_, ?_, ?_, ?_, ?_, ?_,
    h.fine⟩, rfl, ⟨hcap, ?_, fun hnone => (by rw [hready] at hnone; cases hnone), fun _ =>
    ⟨?_, rfl, fun k hk => ?_⟩⟩⟩
  · exact h.filled.sound.hit sl.key
  · exact h.filled.capacity.trans hcap.symm
  · intro key f v hk
    exact h.filled.ready key f v ((hlookup key).symm.trans hk)
  · intro key f v ws hk
    exact h.filled.loading key f v ws ((hlookup key).symm.trans hk)
  · exact fun tid htid => (hout tid).trans (h.others tid htid)
  · exact (hout _).trans h.mine
  · have hsum := h.sum
    dsimp only
    omega
  · obtain ⟨more, hmore, hputs⟩ := h.written
    refine ⟨more ++ [(call, _)], by rw [hmore, List.append_assoc], fun x hx => ?_⟩
    rcases List.mem_append.mp hx with hx | hx
    · exact hputs x hx
    · obtain rfl := List.mem_singleton.mp hx
      exact ⟨rfl, _, _, hput⟩
  · apply covered_add
    · exact fun i hi => (h.covered i hi).mono (fun x hx => List.mem_append_left _ hx) hgrows
    · intro i hge hlt
      exact .inl ⟨_, _, _, List.mem_append_right _ (.head _), hput, hge, hlt⟩
  · refine ⟨h.tracked.1, fun key => (h.tracked.2 key).trans ?_⟩
    rw [hlookup key]
  · rw [hlookup, hready]
    exact Option.some_ne_none _
  · rw [loads, hentries]
    rfl
  · rw [hlookup k]
    exact hk

/-- A slice gets a waiter, in a cache that has taken it in. -/
theorem join (h : WalkInv fs s frames call w) (hsl : SliceAt fs call w sl)
    {c' : PageCache} (hjoin : PageCache.Joined w.cache sl.key (sl.waiter call) frames c')
    {inFlight : List CacheKey} {ws : List Waiter}
    (hload : c'.lookup sl.key = some (.loading frame sl.validBytes (ws ++ [sl.waiter call])))
    (hws : ∀ v ∈ ws, ∃ call' t len, s.ownerWith call call'.tid = some call' ∧
      Owed fs call' sl.key v t len)
    (hother : ∀ k f v vs, k ≠ sl.key → c'.lookup k = some (.loading f v vs) →
      w.cache.lookup k = some (.loading f v vs))
    (htracked : Tracked (inFlight ++ s.fills.map Prod.fst) c') :
    WalkInv fs s frames call { w with
      cache := c'
      inFlight
      bytesPending := w.bytesPending + sl.len
      totalCommitted := w.totalCommitted + sl.len } := by
  have howner : s.ownerWith call call.tid = some call := if_pos rfl
  have howed : ∀ tid, (sl.waiter call).owed tid = if call.tid = tid then sl.len else 0 :=
    fun tid => rfl
  refine ⟨⟨hjoin.sound, h.filled.nodup, h.filled.capacity.trans hjoin.capacity.symm, ?_, ?_⟩,
    h.grows.trans hjoin.grows, ?_, ?_, ?_, h.written, ?_, htracked, h.fine⟩
  · exact fun key f v hk => h.filled.ready key f v (hjoin.ready key f v hk)
  · intro key f v vs hk
    by_cases hkey : key = sl.key
    · subst hkey
      rw [hload] at hk
      obtain ⟨rfl, rfl, rfl⟩ : frame = f ∧ sl.validBytes = v ∧ ws ++ [sl.waiter call] = vs := by
        simpa using hk
      refine ⟨hsl.holds, fun x hx => ?_⟩
      rcases List.mem_append.mp hx with hx | hx
      · exact hws x hx
      · obtain rfl := List.mem_singleton.mp hx
        exact ⟨call, _, _, howner, hsl.owed⟩
    · exact h.filled.loading key f v vs (hother key f v vs hkey hk)
  · intro tid htid
    rw [hjoin.outstanding tid, howed, if_neg (Ne.symm htid)]
    exact h.others tid htid
  · rw [hjoin.outstanding, howed, if_pos rfl, h.mine]
  · have hsum := h.sum
    dsimp only
    omega
  apply covered_add
  · exact fun i hi => (h.covered i hi).mono (fun _ hx => hx) hjoin.grows
  intro i hge hlt
  exact .inr ⟨sl.key, frame, sl.validBytes, _, sl.waiter call, _, _, hload,
    List.mem_append_right _ (.head _), hsl.owed, hge, hlt⟩

theorem not_loading_mem {flight : List CacheKey} (h : Tracked flight c)
    (hnone : c.lookup key = none) : key ∉ flight := by
  intro hmem
  obtain ⟨frame, valid, ws, hload⟩ := (h.2 key).mp hmem
  rw [hnone] at hload
  cases hload

/-- A slice of a page that is loading or absent leaves a waiter. -/
theorem miss (h : WalkInv fs s frames call w) (hsl : SliceAt fs call w sl)
    (hroom : w.cache.lookup sl.key = none → Room w.cache w.inFlight 1)
    (hdisk : sl.key.lba < fs.capacitySectors)
    (hready : ∀ frame valid, w.cache.lookup sl.key ≠ some (.ready frame valid)) :
    ∃ w', w.take fs call s.mem sl = (w', true) ∧ WalkInv fs s frames call w' ∧
      w'.totalCommitted = w.totalCommitted + sl.len ∧ Taken sl.key w w' := by
  cases hslot : w.cache.lookup sl.key with
  | some slot =>
    cases slot with
    | ready frame valid => exact absurd hslot (hready frame valid)
    | loading frame valid ws =>
      obtain ⟨c', heq, hjoin, hloads, hlookup⟩ :=
        joined_registerWaiter h.filled.sound hslot (sl.waiter call)
      obtain ⟨hholds, hws⟩ := h.filled.loading _ _ _ _ hslot
      obtain rfl := hholds.unique hsl.holds
      have hkey := (hlookup sl.key).trans (if_pos rfl)
      have htracked : Tracked (w.inFlight ++ s.fills.map Prod.fst) c' := by
        refine ⟨h.tracked.1, fun key => (h.tracked.2 key).trans ?_⟩
        rw [hlookup key]
        split
        · next heq =>
          subst heq
          exact ⟨fun _ => ⟨_, _, _, rfl⟩, fun _ => ⟨_, _, _, hslot⟩⟩
        · rfl
      have hother : ∀ k f v vs, k ≠ sl.key → c'.lookup k = some (.loading f v vs) →
          w.cache.lookup k = some (.loading f v vs) := by
        intro k f v vs hne hk
        rw [hlookup k, if_neg hne] at hk
        exact hk
      simp only [Walk.take, hslot, Walk.coalesce, heq]
      refine ⟨_, rfl, h.join hsl hjoin hkey hws hother htracked, rfl, hjoin.capacity, ?_,
        fun hnone => (by rw [hslot] at hnone; cases hnone), fun _ => ⟨hloads, rfl, fun k hk => ?_⟩⟩
      · rw [hkey]
        exact Option.some_ne_none _
      rw [hlookup k]
      split
      · exact Option.some_ne_none _
      · exact hk
  | none =>
    obtain ⟨hfree, hqueue⟩ := hroom hslot
    obtain ⟨frame, c', heq, hjoin, hloads, hkey, hslots⟩ :=
      joined_beginLoad h.filled.sound h.filled.capacity hslot (by omega) sl.validBytes
        (sl.waiter call)
    have hsubmit : submitBlkReadCached fs w.inFlight sl.key.lba = true := by
      simp [submitBlkReadCached, hdisk, hqueue]
    have hother : ∀ k f v vs, k ≠ sl.key → c'.lookup k = some (.loading f v vs) →
        w.cache.lookup k = some (.loading f v vs) := by
      intro k f v vs hne hk
      rcases hslots k hne with hsame | ⟨hgone, -⟩
      · exact hsame.symm.trans hk
      · rw [hgone] at hk
        cases hk
    have htracked : Tracked ((w.inFlight ++ [sl.key]) ++ s.fills.map Prod.fst) c' := by
      have hfresh := not_loading_mem h.tracked hslot
      have hperm : ((w.inFlight ++ [sl.key]) ++ s.fills.map Prod.fst).Perm
          (sl.key :: (w.inFlight ++ s.fills.map Prod.fst)) := by
        rw [List.append_assoc]
        exact List.perm_middle
      refine ⟨hperm.nodup_iff.mpr (List.nodup_cons.mpr ⟨hfresh, h.tracked.1⟩), fun key => ?_⟩
      rw [hperm.mem_iff, List.mem_cons]
      by_cases hk : key = sl.key
      · subst hk
        exact ⟨fun _ => ⟨_, _, _, hkey⟩, fun _ => .inl rfl⟩
      rw [h.tracked.2 key]
      constructor
      · rintro (heq | ⟨f, v, vs, hload⟩)
        · exact absurd heq hk
        · obtain ⟨more, hmore⟩ := hjoin.grows key f v vs hload
          exact ⟨_, _, _, hmore⟩
      · rintro ⟨f, v, vs, hload⟩
        exact .inr ⟨f, v, vs, hother key f v vs hk hload⟩
    have hnew : c'.lookup sl.key =
        some (.loading frame sl.validBytes ([] ++ [sl.waiter call])) := hkey
    simp only [Walk.take, hslot, Walk.load, heq, if_pos hsubmit]
    refine ⟨_, rfl, h.join hsl hjoin hnew (fun _ hv => (by cases hv)) hother htracked,
      rfl, hjoin.capacity, ?_, fun _ => ⟨hloads, by simp⟩, fun hne => absurd hslot hne⟩
    rw [hkey]
    exact Option.some_ne_none _

theorem take (h : WalkInv fs s frames call w) (hok : CallOk fs call)
    (hsl : SliceAt fs call w sl) (hdisk : sl.key.lba < fs.capacitySectors)
    (hroom : w.cache.lookup sl.key = none → Room w.cache w.inFlight 1) :
    ∃ w', w.take fs call s.mem sl = (w', true) ∧ WalkInv fs s frames call w' ∧
      w'.totalCommitted = w.totalCommitted + sl.len ∧ Taken sl.key w w' := by
  by_cases hready : ∃ frame valid, w.cache.lookup sl.key = some (.ready frame valid)
  · obtain ⟨frame, valid, hready⟩ := hready
    obtain ⟨w', heq, hrest⟩ := h.hit hok hsl hready
    refine ⟨w', ?_, hrest⟩
    rw [Walk.take, hready]
    exact heq
  · exact h.miss hsl hroom hdisk fun frame valid hr => hready ⟨frame, valid, hr⟩

/-- The page of the file the walk is at. -/
structure PageAt (fs : Tarfs) (call : ReadCall) (start sliceLen : Nat) (key : CacheKey)
    (validBytes : Nat) : Prop where
  within : start + sliceLen ≤ call.n
  fit : (call.off + start) % 4096 + sliceLen ≤ 4096
  lba : fs.lbaForPage call.inode ((call.off + start) / 4096) = some key.lba
  dev : key.dev = devId
  holds : Holds fs key validBytes
  valid : (call.off + start) % 4096 + sliceLen ≤ validBytes
  disk : key.lba < fs.capacitySectors

/-- The inner loop commits to the rest of the page. -/
theorem slices (hok : CallOk fs call)
    (htrans : ∀ t < call.n, (call.translate ((call.buf + t) / 4096 * 4096)).isSome)
    {start sliceLen validBytes : Nat} (hpage : PageAt fs call start sliceLen key validBytes)
    (fuel : Nat) :
    ∀ (done : Nat) (w : Walk), WalkInv fs s frames call w → w.totalCommitted = start + done →
      done ≤ sliceLen → sliceLen ≤ done + fuel → Ahead w key k keys →
      ∃ w', w.slices fs call s.mem key validBytes ((call.off + start) % 4096) sliceLen fuel done =
          (w', true) ∧ WalkInv fs s frames call w' ∧ w'.totalCommitted = start + sliceLen ∧
        (done < sliceLen → Left w' k keys) := by
  induction fuel with
  | zero =>
    intro done w h hcommit hle hfuel hroom
    exact ⟨w, rfl, h, by omega, fun hlt => (by omega)⟩
  | succ fuel ih =>
    intro done w h hcommit hle hfuel hroom
    by_cases hlt : done < sliceLen
    · have hwithin := hpage.within
      have hfit := hpage.fit
      have hvalid := hpage.valid
      obtain ⟨pa, hpa⟩ := Option.isSome_iff_exists.mp (htrans w.totalCommitted (by omega))
      have hoff : call.buf + w.totalCommitted - (call.buf + w.totalCommitted) / 4096 * 4096 =
          (call.buf + w.totalCommitted) % 4096 := by omega
      have hintra : (call.off + start) % 4096 + done =
          (call.off + w.totalCommitted) % 4096 := by omega
      have hsame : (call.off + w.totalCommitted) / 4096 = (call.off + start) / 4096 := by omega
      have hlen : 0 < min (4096 - (call.buf + w.totalCommitted) % 4096) (sliceLen - done) := by
        omega
      have hsl : SliceAt fs call w ⟨key, validBytes, (call.off + start) % 4096 + done, pa,
          (call.buf + w.totalCommitted) % 4096,
          min (4096 - (call.buf + w.totalCommitted) % 4096) (sliceLen - done)⟩ := by
        refine ⟨⟨hlen, by dsimp only; omega, hpa, by dsimp only; omega, by dsimp only; omega⟩,
          hintra, rfl, ?_, hpage.dev, hpage.holds, by dsimp only; omega⟩
        rw [hsame]
        exact hpage.lba
      obtain ⟨w', heq, hinv, hcommit', htaken⟩ := h.take hok hsl hpage.disk hroom.room
      dsimp only at hcommit' htaken
      have hleft := hroom.taken htaken
      obtain ⟨w'', heq', hinv', hcommit'', hroom''⟩ :=
        ih (done + min (4096 - (call.buf + w.totalCommitted) % 4096) (sliceLen - done)) w' hinv
          (by omega) (by omega) (by omega) (.inr ⟨htaken.present, hleft⟩)
      refine ⟨w'', ?_, hinv', hcommit'', fun _ => ?_⟩
      · rw [Walk.slices, if_pos hlt]
        simp only [hpa, hoff, heq]
        exact heq'
      rcases Nat.lt_or_ge (done + min (4096 - (call.buf + w.totalCommitted) % 4096)
        (sliceLen - done)) sliceLen with hmore | hend
      · exact hroom'' hmore
      -- the loop has ended: nothing changed since
      have hstop : w'.slices fs call s.mem key validBytes ((call.off + start) % 4096) sliceLen
          fuel (done + min (4096 - (call.buf + w.totalCommitted) % 4096) (sliceLen - done)) =
          (w', true) := by
        cases fuel with
        | zero => rfl
        | succ fuel =>
          rw [Walk.slices, if_neg (by omega)]
      rw [hstop] at heq'
      cases heq'
      exact hleft
    · refine ⟨w, ?_, h, by omega, fun hlt' => absurd hlt' hlt⟩
      rw [Walk.slices, if_neg hlt]

/-- The pages of the range from `start` on. -/
def KeysFrom (fs : Tarfs) (call : ReadCall) (start : Nat) (key : CacheKey) : Prop :=
  ∃ page lba, (call.off + start) / 4096 ≤ page ∧ page * 4096 < call.off + call.n ∧
    fs.lbaForPage call.inode page = some lba ∧ key = ⟨devId, lba⟩

/-- The outer loop commits to the rest of the range. -/
theorem pages (hok : CallOk fs call)
    (htrans : ∀ t < call.n, (call.translate ((call.buf + t) / 4096 * 4096)).isSome)
    (fuel : Nat) :
    ∀ (start : Nat) (w : Walk), WalkInv fs s frames call w → w.totalCommitted = start →
      start ≤ call.n → call.n ≤ start + fuel →
      (start < call.n → Left w ((call.off + call.n + 4095) / 4096 - (call.off + start) / 4096)
        (KeysFrom fs call start)) →
      ∃ w', w.pages fs call s.mem (call.off + call.n) fuel (call.off + start) = w' ∧
        WalkInv fs s frames call w' ∧ w'.totalCommitted = call.n := by
  have hn : call.n ≤ call.size - call.off := Nat.min_le_right _ _
  induction fuel with
  | zero =>
    intro start w h hcommit hle hfuel hroom
    exact ⟨w, rfl, h, by omega⟩
  | succ fuel ih =>
    intro start w h hcommit hle hfuel hroom
    by_cases hlt : start < call.n
    · have hinside : (call.off + start) / 4096 * 4096 < call.size := by omega
      obtain ⟨lba, hlba, hholds, hdisk⟩ := lba_some hok hinside
      have hpage : PageAt fs call start
          (min (call.off + call.n - (call.off + start)) (4096 - (call.off + start) % 4096))
          ⟨devId, lba⟩ (min 4096 (call.size - (call.off + start) / 4096 * 4096)) :=
        ⟨by omega, by omega, hlba, rfl, hholds, by omega, hdisk⟩
      obtain ⟨k, hk⟩ : ∃ k, (call.off + call.n + 4095) / 4096 - (call.off + start) / 4096 =
          k + 1 := ⟨(call.off + call.n + 4095) / 4096 - (call.off + start) / 4096 - 1, by omega⟩
      have hahead : Ahead w ⟨devId, lba⟩ k (KeysFrom fs call (start +
          min (call.off + call.n - (call.off + start)) (4096 - (call.off + start) % 4096))) := by
        rcases hroom hlt with hroom | hall
        · rw [hk] at hroom
          exact .inl hroom
        refine .inr ⟨hall _ ⟨_, lba, Nat.le_refl _, by omega, hlba, rfl⟩, .inr ?_⟩
        rintro x ⟨page, lba', hge, hrest⟩
        exact hall x ⟨page, lba', by omega, hrest⟩
      obtain ⟨w', heq, hinv, hcommit', hleft⟩ :=
        slices hok htrans hpage _ 0 w h hcommit (Nat.zero_le _) (Nat.le_add_left _ _) hahead
      have hstep : call.off + start + min (call.off + call.n - (call.off + start))
          (4096 - (call.off + start) % 4096) = call.off + (start +
          min (call.off + call.n - (call.off + start)) (4096 - (call.off + start) % 4096)) := by
        omega
      have hroom' : start + min (call.off + call.n - (call.off + start))
            (4096 - (call.off + start) % 4096) < call.n →
          Left w' ((call.off + call.n + 4095) / 4096 -
            (call.off + (start + min (call.off + call.n - (call.off + start))
              (4096 - (call.off + start) % 4096))) / 4096)
            (KeysFrom fs call (start + min (call.off + call.n - (call.off + start))
              (4096 - (call.off + start) % 4096))) := by
        intro hmore
        have hnext : (call.off + call.n + 4095) / 4096 -
            (call.off + (start + min (call.off + call.n - (call.off + start))
              (4096 - (call.off + start) % 4096))) / 4096 = k := by
          omega
        rw [hnext]
        exact hleft (by omega)
      obtain ⟨w'', heq', hrest⟩ := ih _ w' hinv hcommit' (by omega) (by omega) hroom'
      refine ⟨w'', ?_, hrest⟩
      rw [Walk.pages, if_pos (by omega)]
      simp only [hlba, heq, hstep]
      exact heq'
    · refine ⟨w, ?_, h, by omega⟩
      rw [Walk.pages, if_neg (by omega)]

end WalkInv

end Orbit.Fs
