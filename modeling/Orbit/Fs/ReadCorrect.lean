import Orbit.Fs.ReadWalk

/-!
A read returns the file. Along every run each call under way has exactly the bytes it still
waits for queued at loads under way; a copy puts bytes of the file where the caller asked
for them; and the copy that brings the last of them resumes the thread. The walk gives up on
a part of the range when the queue of the device or the frames of the cache are taken by
other reads, so this holds of the runs in which each read finds room.
-/

namespace Orbit.Fs

open Orbit.Abi Cache Transition State PageCache

variable {copy : Copy} {rest : List Waiter} {frame i status : Nat}

variable {k : CacheKey} {prog : FsReadInProgress} {len t : Nat} {free : Option ReadCall}
  {c : PageCache} {w : Waiter}

variable {fs : Tarfs} {call : ReadCall} {frames : List Nat}

/-- The bytes a thread waits for, at loads and at readers that have been taken off one. -/
def owing (c : PageCache) (rest : List Waiter) (tid : Nat) : Nat :=
  c.outstanding tid + (rest.map (Waiter.owed tid)).sum

theorem Owed.owed {key : CacheKey} (h : Owed fs call key w t len)
    (tid : Nat) : w.owed tid = if call.tid = tid then len else 0 := by
  obtain ⟨pa, -, rfl, -⟩ := h
  rfl

theorem Owed.pos {key : CacheKey} (h : Owed fs call key w t len) :
    w.owed call.tid ≠ 0 := by
  rw [h.owed, if_pos rfl]
  obtain ⟨pa, hseg, -⟩ := h
  exact Nat.pos_iff_ne_zero.mp hseg.pos

/-- A byte is written, waited for, or about to be copied. -/
def Awaited (fs : Tarfs) (written : List (ReadCall × Copy)) (c : PageCache) (key : CacheKey)
    (rest : List Waiter) (call : ReadCall) (i : Nat) : Prop :=
  Covered fs written c call i ∨
  ∃ w ∈ rest, ∃ t len, Owed fs call key w t len ∧ t ≤ i ∧ i < t + len

/-- Nothing waited for: what is left is written. -/
theorem Awaited.arrived {written : List (ReadCall × Copy)} {key : CacheKey}
    (h : Awaited fs written c key rest call i)
    (hzero : owing c rest call.tid = 0) : Arrived fs written call i := by
  unfold owing at hzero
  rcases h with (h | ⟨k, frame, valid, ws, w, t, len, hload, hw, howed, -⟩) |
    ⟨w, hw, t, len, howed, -⟩
  · exact h
  · exact absurd (owed_eq_zero (by omega) hload hw) howed.pos
  · exact absurd (List.sum_eq_zero_iff.mp (by omega) _ (List.mem_map.mpr ⟨w, hw, rfl⟩)) howed.pos

/-- The owners of threads that wait for nothing do not matter. -/
theorem Filled.owner {mem : Nat → Nat → UInt8} {owner owner' : Nat → Option ReadCall}
    (h : Filled fs mem owner frames c)
    (hsame : ∀ tid, c.outstanding tid ≠ 0 → owner' tid = owner tid) :
    Filled fs mem owner' frames c := by
  refine { h with loading := fun key frame valid ws hload => ?_ }
  obtain ⟨hholds, hws⟩ := h.loading key frame valid ws hload
  refine ⟨hholds, fun w hw => ?_⟩
  obtain ⟨call, t, len, howner, howed⟩ := hws w hw
  refine ⟨call, t, len, ?_, howed⟩
  rw [hsame call.tid fun hzero => howed.pos (owed_eq_zero hzero hload hw)]
  exact howner

/-- A read under way. -/
structure Under (fs : Tarfs) (key : CacheKey) (rest : List Waiter) (c : PageCache)
    (written : List (ReadCall × Copy)) (tid : Nat) (prog : FsReadInProgress) : Prop where
  caller : prog.call.tid = tid
  failed : prog.failed = false
  pending : prog.bytesPending = owing c rest tid
  pos : 0 < prog.bytesPending
  sum : prog.bytesDone + prog.bytesPending = prog.call.n
  awaited : ∀ i < prog.call.n, Awaited fs written c key rest prog.call i

/-- What has been asked, written and answered; `free` is a call neither under way nor
answered. -/
structure Record (fs : Tarfs) (calls : List ReadCall) (written : List (ReadCall × Copy))
    (resumed : List (ReadCall × Int)) (fsReads : Nat → Option FsReadInProgress)
    (free : Option ReadCall) : Prop where
  ids : ∀ (k : Nat) (call : ReadCall), calls[k]? = some call → call.id = k
  ok : ∀ call ∈ calls, CallOk fs call
  puts : ∀ x ∈ written, x.1 ∈ calls ∧ ∃ t len, Put fs x.1 x.2 t len
  answers : ∀ x ∈ resumed, x.1 ∈ calls ∧ x.2 = x.1.n ∧ ∀ i < x.1.n, Arrived fs written x.1 i
  once : (resumed.map fun x => x.1.id).Nodup
  under : ∀ tid prog, fsReads tid = some prog → prog.call.tid = tid ∧ prog.call ∈ calls ∧
    prog.call.id ∉ resumed.map fun x => x.1.id
  unmet : ∀ call, free = some call → call ∈ calls ∧ (call.id ∉ resumed.map fun x => x.1.id) ∧
    ownerOf fsReads call.tid ≠ some call
  all : ∀ call ∈ calls, free = some call ∨ ownerOf fsReads call.tid = some call ∨
    ∃ r, (call, r) ∈ resumed

namespace Record

variable {calls : List ReadCall} {written : List (ReadCall × Copy)}
  {resumed : List (ReadCall × Int)} {fsReads : Nat → Option FsReadInProgress}

section

variable (h : Record fs calls written resumed fsReads free)

include h

theorem inj
    {call call' : ReadCall} (hcall : call ∈ calls) (hcall' : call' ∈ calls)
    (hid : call.id = call'.id) : call = call' := by
  obtain ⟨k, hk⟩ := List.getElem?_of_mem hcall
  obtain ⟨k', hk'⟩ := List.getElem?_of_mem hcall'
  have hkk : k = k' := by rw [← h.ids k call hk, ← h.ids k' call' hk', hid]
  rw [hkk, hk'] at hk
  exact (Option.some.inj hk).symm

theorem id_lt
    (hcall : call ∈ calls) : call.id < calls.length := by
  obtain ⟨k, hk⟩ := List.getElem?_of_mem hcall
  rw [h.ids k call hk]
  exact (List.getElem?_eq_some_iff.mp hk).1

theorem ids_nodup :
    (calls.map ReadCall.id).Nodup := by
  have hrange : calls.map ReadCall.id = List.range calls.length := by
    apply List.ext_getElem (by simp)
    intro k hk _
    rw [List.length_map] at hk
    rw [List.getElem_map, List.getElem_range]
    exact h.ids k _ (List.getElem?_eq_getElem hk)
  rw [hrange]
  exact List.nodup_range

end

/-- A call comes in. -/
theorem ask (h : Record fs calls written resumed fsReads none) (hok : CallOk fs call)
    (hid : call.id = calls.length) (hidle : fsReads call.tid = none) :
    Record fs (calls ++ [call]) written resumed fsReads (some call) := by
  have hold : ∀ c ∈ calls, c ∈ calls ++ [call] := fun c hc => List.mem_append_left _ hc
  refine ⟨fun k c hk => ?_, fun c hc => ?_, fun x hx => ⟨hold _ (h.puts x hx).1,
    (h.puts x hx).2⟩, fun x hx => ⟨hold _ (h.answers x hx).1, (h.answers x hx).2⟩, h.once,
    fun tid prog hprog => ?_, ?_, fun c hc => ?_⟩
  · rw [List.getElem?_append] at hk
    split at hk
    · exact h.ids k c hk
    next hlt =>
    obtain ⟨hk0, rfl⟩ : k - calls.length = 0 ∧ call = c := by
      cases hsub : k - calls.length with
      | zero =>
        rw [hsub] at hk
        exact ⟨rfl, Option.some.inj hk⟩
      | succ m =>
        rw [hsub] at hk
        cases hk
    omega
  · rcases List.mem_append.mp hc with hc | hc
    · exact h.ok c hc
    · rw [List.mem_singleton.mp hc]
      exact hok
  · obtain ⟨htid, hmem, hfresh⟩ := h.under tid prog hprog
    exact ⟨htid, hold _ hmem, hfresh⟩
  · intro c hc
    cases hc
    refine ⟨List.mem_append_right _ (.head _), fun hmem => ?_, ?_⟩
    · obtain ⟨x, hx, hxid⟩ := List.mem_map.mp hmem
      have hlt := h.id_lt (h.answers x hx).1
      omega
    · rw [ownerOf, hidle]
      exact fun hnone => (by cases hnone)
  rcases List.mem_append.mp hc with hc | hc
  · rcases h.all c hc with hfree | hrest
    · cases hfree
    · exact .inr hrest
  · exact .inl (congrArg some (List.mem_singleton.mp hc).symm)

theorem write (h : Record fs calls written resumed fsReads free) {more : List (ReadCall × Copy)}
    (hmore : ∀ x ∈ more, x.1 ∈ calls ∧ ∃ t len, Put fs x.1 x.2 t len) :
    Record fs calls (written ++ more) resumed fsReads free := by
  refine { h with puts := fun x hx => ?_, answers := fun x hx => ?_ }
  · rcases List.mem_append.mp hx with hx | hx
    · exact h.puts x hx
    · exact hmore x hx
  · obtain ⟨hmem, hval, harr⟩ := h.answers x hx
    exact ⟨hmem, hval, fun i hi => (harr i hi).mono fun y hy => List.mem_append_left _ hy⟩

/-- The free call is answered. -/
theorem answer (h : Record fs calls written resumed fsReads (some call))
    (harrived : ∀ i < call.n, Arrived fs written call i) :
    Record fs calls written (resumed ++ [(call, (call.n : Int))]) fsReads none := by
  obtain ⟨hmem, hfresh, hown⟩ := h.unmet call rfl
  refine ⟨h.ids, h.ok, h.puts, fun x hx => ?_, ?_, fun tid prog hprog => ?_,
    fun c hc => (by cases hc), fun c hc => ?_⟩
  · rcases List.mem_append.mp hx with hx | hx
    · exact h.answers x hx
    · obtain rfl := List.mem_singleton.mp hx
      exact ⟨hmem, rfl, harrived⟩
  · rw [List.map_append, List.nodup_append]
    refine ⟨h.once, by simp, fun a ha b hb => ?_⟩
    rintro rfl
    obtain rfl := List.mem_singleton.mp hb
    exact hfresh ha
  · obtain ⟨htid, hprogmem, hnot⟩ := h.under tid prog hprog
    refine ⟨htid, hprogmem, fun hin => ?_⟩
    rw [List.map_append] at hin
    rcases List.mem_append.mp hin with hin | hin
    · exact hnot hin
    -- the call under way would be the one that is free
    have heq := h.inj hprogmem hmem (List.mem_singleton.mp hin)
    apply hown
    rw [ownerOf, ← heq, htid, hprog]
    rfl
  rcases h.all c hc with hfree | hown' | ⟨r, hr⟩
  · cases hfree
    exact .inr (.inr ⟨_, List.mem_append_right _ (.head _)⟩)
  · exact .inr (.inl hown')
  · exact .inr (.inr ⟨r, List.mem_append_left _ hr⟩)

/-- The free call goes under way. -/
theorem park (h : Record fs calls written resumed fsReads (some call))
    (hprog : prog.call = call) (hidle : fsReads call.tid = none) :
    Record fs calls written resumed (fun t => if t = call.tid then some prog
      else fsReads t) none := by
  obtain ⟨hmem, hfresh, hown⟩ := h.unmet call rfl
  refine { h with
    under := fun tid p hp => ?_
    unmet := fun c hc => (by cases hc)
    all := fun c hc => ?_ }
  · split at hp
    · next htid =>
      cases hp
      rw [hprog]
      exact ⟨htid.symm, hmem, hfresh⟩
    · exact h.under tid p hp
  rcases h.all c hc with hfree | hown' | hans
  · cases hfree
    refine .inr (.inl ?_)
    rw [ownerOf, if_pos rfl]
    exact congrArg some hprog
  · refine .inr (.inl ?_)
    have hne : c.tid ≠ call.tid := by
      intro htid
      rw [ownerOf, htid, hidle] at hown'
      cases hown'
    rw [ownerOf, if_neg hne]
    exact hown'
  · exact .inr (.inr hans)

/-- A call under way is set free. -/
theorem release (h : Record fs calls written resumed fsReads none) {tid : Nat}
    (hprog : fsReads tid = some prog) :
    Record fs calls written resumed (fun t => if t = tid then none else fsReads t)
      (some prog.call) := by
  obtain ⟨htid, hmem, hfresh⟩ := h.under tid prog hprog
  refine { h with under := fun t p hp => ?_, unmet := ?_, all := fun c hc => ?_ }
  · split at hp
    · cases hp
    · exact h.under t p hp
  · intro c hc
    cases hc
    refine ⟨hmem, hfresh, ?_⟩
    rw [ownerOf, if_pos htid]
    exact fun hnone => (by cases hnone)
  rcases h.all c hc with hfree | hown | hans
  · cases hfree
  · by_cases ht : c.tid = tid
    · rw [ownerOf, ht, hprog] at hown
      exact .inl hown
    refine .inr (.inl ?_)
    rw [ownerOf, if_neg ht]
    exact hown
  · exact .inr (.inr hans)

end Record

/-- What holds of the reads in every state; `rest` are readers of `key` still to be served. -/
structure Reading (fs : Tarfs) (frames : List Nat) (key : CacheKey) (rest : List Waiter)
    (s : State) : Prop where
  filled : Filled fs s.mem (ownerOf s.fsReads) frames s.cache
  detached : ∀ w ∈ rest, ∃ call t len, ownerOf s.fsReads call.tid = some call ∧
    Owed fs call key w t len
  tracked : Tracked (s.inFlight ++ s.fills.map Prod.fst) s.cache
  landed : ∀ x ∈ s.fills, x.2 = 0 ∧ ∀ frame valid ws,
    s.cache.lookup x.1 = some (.loading frame valid ws) →
      ∀ i < 4096, s.mem frame i = fs.pageAt x.1.lba i
  handles : ∀ pid fd inode off, s.handles pid fd = some (.file inode off true) →
    ∃ e, fs.entry inode = some e ∧ e.isReg = true
  idle : ∀ tid, s.fsReads tid = none → owing s.cache rest tid = 0
  under : ∀ tid prog, s.fsReads tid = some prog → Under fs key rest s.cache s.written tid prog
  record : Record fs s.calls s.written s.resumed s.fsReads none
  fine : s.stray = [] ∧ s.panicked = false

/-- The call a request makes. -/
def State.callOf (fs : Tarfs) (s : State) (tid pid fd buf len : Nat)
    (translate : Nat → Option Nat) : Option ReadCall :=
  match s.handles pid fd with
  | some (.file inode off true) =>
    (fs.size inode).map fun size =>
      ⟨s.calls.length, tid, pid, inode, off, len, size, buf, translate⟩
  | _ => none

/-- The pages of the file a call touches. -/
def ReadCall.pages (call : ReadCall) : Nat :=
  (call.off + call.n + 4095) / 4096 - call.off / 4096

/-- Every page of the range is in the cache, ready or loading. -/
def ReadCall.Cached (fs : Tarfs) (call : ReadCall) (c : PageCache) : Prop :=
  ∀ p < call.pages, ((fs.lbaForPage call.inode (call.off / 4096 + p)).bind fun lba =>
    c.lookup ⟨Tarfs.devId, lba⟩).isSome

/-- The kernel finds the caller's pages mapped and, unless every page of the range is in the
cache, room for a load of each. -/
def State.HasRoom (fs : Tarfs) (s : State) (call : ReadCall) : Prop :=
  (∀ t < call.n, (call.translate ((call.buf + t) / 4096 * 4096)).isSome) ∧
    (Room s.cache s.inFlight call.pages ∨ call.Cached fs s.cache)

namespace Reading

variable {key : CacheKey} {s : State}

/-- The walk of a call that finds room commits to all of its range. -/
theorem walk (h : Reading fs frames key [] s) (hok : CallOk fs call)
    (hidle : s.fsReads call.tid = none) (hsmall : call.n < 2 ^ 32) (hroom : s.HasRoom fs call) :
    WalkInv fs s frames call (s.walk fs call) ∧ (s.walk fs call).totalCommitted = call.n := by
  have hzero : s.cache.outstanding call.tid = 0 := h.idle call.tid hidle
  have hfilled : Filled fs s.mem (s.ownerWith call) frames s.cache := by
    refine h.filled.owner fun tid hne => if_neg ?_
    rintro rfl
    exact hne hzero
  have hstart : WalkInv fs s frames call ⟨s.cache, s.inFlight, s.written, 0, 0, 0, false, false⟩ :=
    ⟨hfilled, .of_lookup fun _ => rfl, fun _ _ => rfl, hzero, rfl,
      ⟨[], (List.append_nil _).symm, fun _ hx => (by cases hx)⟩, fun _ hi => (by cases hi),
      h.tracked, rfl, rfl⟩
  have hcap : call.n % 2 ^ 32 = call.n := Nat.mod_eq_of_lt hsmall
  have hleft : Left ⟨s.cache, s.inFlight, s.written, 0, 0, 0, false, false⟩ call.pages
      (WalkInv.KeysFrom fs call 0) := by
    rcases hroom.2 with hroom | hall
    · exact .inl hroom
    right
    rintro x ⟨page, lba, hge, hlt, hlba, rfl⟩
    obtain ⟨p, rfl⟩ : ∃ p, page = call.off / 4096 + p := ⟨page - call.off / 4096, by omega⟩
    have hp : p < call.pages := by
      unfold ReadCall.pages
      omega
    have hsome := hall p hp
    rw [hlba] at hsome
    exact Option.isSome_iff_ne_none.mp hsome
  obtain ⟨w, heq, hinv, hall⟩ := WalkInv.pages hok hroom.1 call.n 0 _ hstart rfl (Nat.zero_le _)
    (Nat.le_add_left _ _) fun _ => hleft
  have hwalk : s.walk fs call = w := by
    rw [State.walk, hcap]
    exact heq
  rw [hwalk]
  exact ⟨hinv, hall⟩

/-- A completion posted stays right while loads only get more readers. -/
theorem landed_grows (h : Reading fs frames key [] s) (hgrows : s.cache.Grows c) :
    ∀ x ∈ s.fills, x.2 = 0 ∧ ∀ frame valid ws, c.lookup x.1 = some (.loading frame valid ws) →
      ∀ i < 4096, s.mem frame i = fs.pageAt x.1.lba i := by
  intro x hx
  obtain ⟨hstatus, hland⟩ := h.landed x hx
  refine ⟨hstatus, fun frame valid ws hload => ?_⟩
  have hin : x.1 ∈ s.inFlight ++ s.fills.map Prod.fst :=
    List.mem_append_right _ (List.mem_map.mpr ⟨x, hx, rfl⟩)
  obtain ⟨f, v, vs, hold⟩ := (h.tracked.2 x.1).mp hin
  obtain ⟨more, hmore⟩ := hgrows _ _ _ _ hold
  rw [hmore] at hload
  obtain ⟨rfl, -, -⟩ : f = frame ∧ v = valid ∧ vs ++ more = ws := by simpa using hload
  exact hland f v vs hold

/-- A handle moves on within its file. -/
theorem handles_setOffset (h : ∀ pid fd inode off, s.handles pid fd = some (.file inode off true) →
      ∃ e, fs.entry inode = some e ∧ e.isReg = true)
    {inode : Nat} (hino : ∃ e, fs.entry inode = some e ∧ e.isReg = true) (pid fd off : Nat) :
    ∀ p f i o, (s.setOffset pid fd inode off true).handles p f = some (.file i o true) →
      ∃ e, fs.entry i = some e ∧ e.isReg = true := by
  intro p f i o hfile
  simp only [setOffset] at hfile
  split at hfile
  · obtain ⟨rfl, -⟩ : inode = i ∧ off = o := by simpa using hfile
    exact hino
  · exact h p f i o hfile

section

variable (h : Reading fs frames key [] s)

include h

/-- The call is answered at once, or goes under way. -/
theorem settle (hok : CallOk fs call)
    (hid : call.id = s.calls.length) (hidle : s.fsReads call.tid = none) (fd : Nat) {w : Walk}
    (hw : WalkInv fs s frames call w) (hall : w.totalCommitted = call.n) :
    Reading fs frames key [] ({ s with calls := s.calls ++ [call] }.settle fd call w) := by
  obtain ⟨more, hmore, hputs⟩ := hw.written
  have ⟨e, he, hreg, _⟩ := hok
  have hsum := hw.sum
  have hask := h.record.ask hok hid hidle
  have hrec : Record fs (s.calls ++ [call]) w.written s.resumed s.fsReads (some call) := by
    rw [hmore]
    apply hask.write
    intro x hx
    obtain ⟨hcall, hput⟩ := hputs x hx
    rw [hcall]
    exact ⟨List.mem_append_right _ (.head _), hput⟩
  have hkept : ∀ x ∈ s.written, x ∈ w.written := by
    rw [hmore]
    exact fun x hx => List.mem_append_left _ hx
  have hother : ∀ tid prog, tid ≠ call.tid → s.fsReads tid = some prog →
      Under fs key [] w.cache w.written tid prog := by
    intro tid prog hne hprog
    obtain ⟨hcaller, hfailed, hpending, hpos, hsum, hawaited⟩ := h.under tid prog hprog
    refine ⟨hcaller, hfailed, ?_, hpos, hsum, fun i hi => ?_⟩
    · rw [hpending, owing, owing, hw.others tid hne]
    rcases hawaited i hi with hcov | ⟨w, hw, -⟩
    · exact .inl (hcov.mono hkept hw.grows)
    · cases hw
  have hrest : ∀ tid, tid ≠ call.tid → s.fsReads tid = none → owing w.cache [] tid = 0 := by
    intro tid hne hnone
    rw [owing, hw.others tid hne]
    exact h.idle tid hnone
  have hfine : s.stray = [] ∧ (s.panicked || w.panicked) = false := by
    rw [hw.fine.2, h.fine.2]
    exact ⟨h.fine.1, rfl⟩
  unfold State.settle
  simp only [hw.fine.1, Bool.false_and, Bool.false_eq_true, if_false]
  by_cases hnone : w.bytesPending = 0
  · rw [if_pos hnone]
    have hzero : w.cache.outstanding call.tid = 0 := hw.mine.trans hnone
    have hdone : w.bytesDone = call.n := by omega
    have hfilled : Filled fs s.mem (ownerOf s.fsReads) frames w.cache := by
      refine hw.filled.owner fun tid hne => (if_neg ?_).symm
      rintro rfl
      exact hne hzero
    have hanswer : Record fs (s.calls ++ [call]) w.written
        (s.resumed ++ [(call, (w.bytesDone : Int))]) s.fsReads none := by
      rw [hdone]
      refine hrec.answer fun i hi => ?_
      have hcov : Awaited fs w.written w.cache key [] call i := .inl (hw.covered i (by omega))
      exact hcov.arrived hzero
    refine ⟨hfilled, fun _ hx => (by cases hx), hw.tracked, h.landed_grows hw.grows,
      handles_setOffset h.handles ⟨e, he, hreg⟩ _ _ _, fun tid htid => ?_,
      fun tid prog hprog => ?_, hanswer, hfine⟩
    · by_cases hne : tid = call.tid
      · rw [hne]
        exact hzero
      · exact hrest tid hne htid
    refine hother tid prog ?_ hprog
    rintro rfl
    rw [show s.fsReads call.tid = some prog from hprog] at hidle
    cases hidle
  · rw [if_neg hnone]
    have hfilled : Filled fs s.mem (ownerOf fun t => if t = call.tid then
        some ⟨w.bytesPending, w.bytesDone, false, call⟩ else s.fsReads t) frames w.cache := by
      refine hw.filled.owner fun tid _ => ?_
      unfold ownerOf ownerWith
      dsimp only
      split <;> rfl
    have hpark : Record fs (s.calls ++ [call]) w.written s.resumed (fun t => if t = call.tid then
        some ⟨w.bytesPending, w.bytesDone, false, call⟩ else s.fsReads t) none :=
      hrec.park rfl hidle
    refine ⟨hfilled, fun _ hx => (by cases hx), hw.tracked, h.landed_grows hw.grows,
      handles_setOffset h.handles ⟨e, he, hreg⟩ _ _ _, fun tid htid => ?_,
      fun tid prog hprog => ?_, hpark, hfine⟩
    · simp only [setRead, setOffset] at htid
      split at htid
      · cases htid
      · next hne => exact hrest tid hne htid
    simp only [setRead, setOffset] at hprog
    split at hprog
    · next heq =>
      cases hprog
      refine ⟨heq.symm, rfl, ?_, Nat.pos_of_ne_zero hnone, hsum.trans hall, fun i hi =>
        .inl (hw.covered i (hi.trans_eq hall.symm))⟩
      rw [heq]
      exact hw.mine.symm
    · next hne => exact hother tid prog hne hprog

/-- A request of a thread that waits for no read. -/
theorem runFsReadReq {tid pid fd buf len : Nat}
    {translate : Nat → Option Nat} (hidle : s.fsReads tid = none) (hpos : 1 ≤ len)
    (hlen : len ≤ maxFsReadLen)
    (hfits : ∀ call, s.callOf fs tid pid fd buf len translate = some call → 0 < call.n →
      s.HasRoom fs call) :
    Reading fs frames key [] (s.runFsReadReq fs tid pid fd buf len translate) := by
  have hrefuse : ∀ e, Reading fs frames key [] (s.refuse tid e) := fun e =>
    { h with }
  unfold State.runFsReadReq
  split
  · exact hrefuse _
  · exact hrefuse _
  next inode off isRegular hfile =>
  cases isRegular with
  | false => exact hrefuse _
  | true =>
    rw [if_neg Bool.true_eq_false.mp]
    obtain ⟨e, he, hreg⟩ := h.handles pid fd inode off hfile
    have hsize : fs.size inode = some e.size := by rw [Tarfs.size, he]; rfl
    rw [hsize]
    dsimp only
    generalize hcall : (⟨s.calls.length, tid, pid, inode, off, len, e.size, buf, translate⟩ :
      ReadCall) = call
    have hof : s.callOf fs tid pid fd buf len translate = some call := by
      rw [State.callOf, hfile, ← hcall]
      simp only [hsize, Option.map_some]
    have hok : CallOk fs call := by
      rw [← hcall]
      exact ⟨e, he, hreg, rfl⟩
    have hid : call.id = s.calls.length := by rw [← hcall]
    have hidle' : s.fsReads call.tid = none := by
      rw [← hcall]
      exact hidle
    have hn : call.n = min len (e.size - off) := by rw [← hcall]; rfl
    have hmax : maxFsReadLen = 65536 := rfl
    split
    · have hzero : call.n = 0 := by omega
      have hanswer := (h.record.ask hok hid hidle').answer fun i hi => by omega
      rw [hzero] at hanswer
      exact { h with record := hanswer }
    next hoff =>
    have hroom := hfits call hof (by omega)
    obtain ⟨hw, hall⟩ := h.walk hok hidle' (by omega) hroom
    exact h.settle hok hid hidle' fd hw hall

/-- The device ends a chain without error. -/
theorem irq (hk : k ∈ s.inFlight) :
    Reading fs frames key [] (s.irq fs k 0) := by
  obtain ⟨frame, valid, ws, hload⟩ := (h.tracked.2 k).mp (List.mem_append_left _ hk)
  -- the chain writes the frame of its own slot only
  have hmem : ∀ k' slot f, s.cache.lookup k' = some slot → slot.frame = f →
      ∀ i, (s.irq fs k 0).mem f i = if k' = k then fs.pageAt k.lba i else s.mem f i := by
    intro k' slot f hslot hf i
    simp only [State.irq, hload, if_true]
    by_cases heq : k' = k
    · subst heq
      rw [hload] at hslot
      cases hslot
      rw [if_pos rfl, if_pos hf.symm]
    rw [if_neg heq, if_neg]
    intro hframe
    exact heq (h.filled.sound.frame_inj h.filled.nodup hslot hload (hf.trans hframe))
  have hperm : ((s.inFlight.erase k) ++ (s.fills ++ [(k, 0)]).map Prod.fst).Perm
      (s.inFlight ++ s.fills.map Prod.fst) := by
    rw [List.map_append, ← List.append_assoc]
    refine (List.perm_append_singleton _ _).trans ?_
    exact (List.perm_cons_erase hk).symm.append_right _
  refine { h with
    filled := { h.filled with ready := ?_ }
    tracked := ⟨hperm.nodup_iff.mpr h.tracked.1, fun x => hperm.mem_iff.trans (h.tracked.2 x)⟩
    landed := ?_ }
  · intro k' f v hready
    obtain ⟨hcontent, hholds⟩ := h.filled.ready k' f v hready
    refine ⟨fun i hi => ?_, hholds⟩
    have hne : k' ≠ k := by
      rintro rfl
      rw [show s.cache.lookup k' = _ from hready] at hload
      cases hload
    rw [hmem k' _ f hready rfl i, if_neg hne]
    exact hcontent i hi
  intro x hx
  rcases List.mem_append.mp hx with hx | hx
  · obtain ⟨hstatus, hland⟩ := h.landed x hx
    refine ⟨hstatus, fun f v vs hslot i hi => ?_⟩
    rw [hmem x.1 _ f hslot rfl i]
    split
    · next heq => rw [heq]
    · exact hland f v vs hslot i hi
  obtain rfl := List.mem_singleton.mp hx
  refine ⟨rfl, fun f v vs hslot i hi => ?_⟩
  rw [hmem k _ f hslot rfl i, if_pos rfl]

/-- A load that has ended leaves its readers to be served. -/
theorem complete {rest : List (CacheKey × Nat)} (hfills : s.fills = (k, status) :: rest) :
    status = 0 ∧ ∃ frame valid ws c, s.cache.lookup k = some (.loading frame valid ws) ∧
      s.cache.completeSlot k 0 = (ws, c) ∧ (∀ i < 4096, s.mem frame i = fs.pageAt k.lba i) ∧
      Reading fs frames k ws { s with fills := rest, cache := c } := by
  have hin : (k, status) ∈ s.fills := by
    rw [hfills]
    exact .head _
  obtain ⟨hstatus, hland⟩ := h.landed _ hin
  obtain ⟨frame, valid, ws, hload⟩ := (h.tracked.2 k).mp
    (List.mem_append_right _ (List.mem_map.mpr ⟨_, hin, rfl⟩))
  obtain ⟨c, heq, hsound, hcap, hout, hlookup⟩ := completeSlot_ok h.filled.sound hload
  have hcontent := hland frame valid ws hload
  obtain ⟨hholds, hws⟩ := h.filled.loading _ _ _ _ hload
  have hne : ∀ k' f v vs, c.lookup k' = some (.loading f v vs) → k' ≠ k ∧
      s.cache.lookup k' = some (.loading f v vs) := by
    intro k' f v vs hk'
    rw [hlookup k'] at hk'
    split at hk'
    · cases hk'
    · next hne => exact ⟨hne, hk'⟩
  have howing : ∀ tid, owing c ws tid = owing s.cache [] tid := by
    intro tid
    rw [owing, owing, hout tid]
    exact Nat.add_comm _ _
  refine ⟨hstatus, frame, valid, ws, c, hload, heq, hcontent,
    ⟨⟨hsound, h.filled.nodup, h.filled.capacity.trans hcap.symm, ?_, ?_⟩, hws, ?_, ?_, h.handles,
      ?_, ?_, h.record, h.fine⟩⟩
  · intro k' f v hready
    have hready' := (hlookup k').symm.trans hready
    split at hready'
    · next heq =>
      subst heq
      obtain ⟨rfl, rfl⟩ : frame = f ∧ valid = v := by simpa using hready'
      exact ⟨hcontent, hholds⟩
    · exact h.filled.ready k' f v hready'
  · exact fun k' f v vs hk' => h.filled.loading k' f v vs (hne k' f v vs hk').2
  · have hold := h.tracked
    rw [hfills, List.map_cons] at hold
    have hperm : (s.inFlight ++ k :: rest.map Prod.fst).Perm
        (k :: (s.inFlight ++ rest.map Prod.fst)) := List.perm_middle
    have hnodup := hperm.nodup_iff.mp hold.1
    obtain ⟨hfresh, hnodup⟩ := List.nodup_cons.mp hnodup
    refine ⟨hnodup, fun k' => ⟨fun hk' => ?_, fun hk' => ?_⟩⟩
    · obtain ⟨f, v, vs, hslot⟩ := (hold.2 k').mp (hperm.mem_iff.mpr (.tail _ hk'))
      refine ⟨f, v, vs, (hlookup k').trans ((if_neg ?_).trans hslot)⟩
      rintro rfl
      exact hfresh hk'
    obtain ⟨f, v, vs, hslot⟩ := hk'
    obtain ⟨hdiff, hslot'⟩ := hne k' f v vs hslot
    rcases List.mem_cons.mp (hperm.mem_iff.mp ((hold.2 k').mpr ⟨f, v, vs, hslot'⟩)) with heq | hmem
    · exact absurd heq hdiff
    · exact hmem
  · intro x hx
    obtain ⟨hzero, hland⟩ := h.landed x (by rw [hfills]; exact .tail _ hx)
    exact ⟨hzero, fun f v vs hslot => hland f v vs (hne _ f v vs hslot).2⟩
  · intro tid htid
    rw [howing tid]
    exact h.idle tid htid
  intro tid prog hprog
  obtain ⟨hcaller, hfailed, hpending, hpos, hsum, hawaited⟩ := h.under tid prog hprog
  refine ⟨hcaller, hfailed, hpending.trans (howing tid).symm, hpos, hsum, fun i hi => ?_⟩
  rcases hawaited i hi with (harr | ⟨k', f, v, vs, w, t, len, hslot, hw, hrest⟩) | ⟨w, hw, -⟩
  · exact .inl (.inl harr)
  · by_cases heq : k' = k
    · subst heq
      rw [hload] at hslot
      obtain ⟨-, -, rfl⟩ : frame = f ∧ valid = v ∧ ws = vs := by simpa using hslot
      exact .inr ⟨w, hw, t, len, hrest⟩
    · exact .inl (.inr ⟨k', f, v, vs, w, t, len, (hlookup k').trans ((if_neg heq).trans hslot), hw,
        hrest⟩)
  · cases hw

end

/-- The copy a reader is served with, from a frame that holds its page. -/
theorem put_of_owed (hok : CallOk fs call) {tid pid intra pa off n t len : Nat}
    (h : Owed fs call key (.user tid pid intra pa off n) t len) {frame : Nat → UInt8}
    (hcontent : ∀ i < 4096, frame i = fs.pageAt key.lba i) :
    Put fs call ⟨pa, off, (List.range n).map fun j => frame (intra + j)⟩ t len := by
  obtain ⟨pa', hseg, hw, hlba, -⟩ := h
  obtain ⟨-, -, rfl, rfl, rfl, rfl⟩ := Waiter.user.inj hw
  exact ⟨pa, hseg, by rw [bytes_of_frame hok hseg hlba hcontent]⟩

/-- One reader is served. -/
theorem dispatch (h : Reading fs frames key (w :: rest) s)
    (hcontent : ∀ i < 4096, s.mem frame i = fs.pageAt key.lba i) :
    Reading fs frames key rest (s.dispatch frame 0 w) ∧ (s.dispatch frame 0 w).mem = s.mem := by
  obtain ⟨call, t, len, howner, howed⟩ := h.detached w (.head _)
  cases w with
  | kernel _ _ _ _ =>
    obtain ⟨pa', -, hw, -⟩ := howed
    cases hw
  | user tid pid intra pa off n =>
    obtain ⟨prog, hprog, rfl⟩ : ∃ prog, s.fsReads call.tid = some prog ∧ prog.call = call := by
      unfold ownerOf at howner
      exact Option.map_eq_some_iff.mp howner
    obtain ⟨rfl, rfl⟩ : prog.call.tid = tid ∧ len = n := by
      obtain ⟨pa', -, hw, -⟩ := howed
      obtain ⟨htid, -, -, -, -, hlen⟩ := Waiter.user.inj hw
      exact ⟨htid.symm, hlen.symm⟩
    obtain ⟨-, hfailed, hpending, hpos, hsum, hawaited⟩ := h.under _ prog hprog
    have hok := h.record.ok _ (h.record.under _ prog hprog).2.1
    -- the copy, and what is owed after it
    generalize hcopy : (⟨pa, off, (List.range len).map fun j => s.mem frame (intra + j)⟩ : Copy) =
      copy
    have hput : ∀ t' len',
      Owed fs prog.call key (.user prog.call.tid pid intra pa off len) t' len' →
        Put fs prog.call copy t' len' := by
      intro t' len' ho
      rw [← hcopy]
      exact put_of_owed hok ho hcontent
    have hmine : owing s.cache (.user prog.call.tid pid intra pa off len :: rest) prog.call.tid =
        len + owing s.cache rest prog.call.tid := by
      simp only [owing, List.map_cons, List.sum_cons, Waiter.owed, if_pos]
      omega
    have hothers : ∀ t', t' ≠ prog.call.tid →
        owing s.cache (.user prog.call.tid pid intra pa off len :: rest) t' =
          owing s.cache rest t' := by
      intro t' hne
      simp only [owing, List.map_cons, List.sum_cons, Waiter.owed, if_neg (Ne.symm hne)]
      omega
    have hserved : ∀ c i, Awaited fs s.written s.cache key
        (.user prog.call.tid pid intra pa off len :: rest) c i →
        (c.tid = prog.call.tid → c = prog.call) →
        Awaited fs (s.written ++ [(prog.call, copy)]) s.cache key rest c i := by
      intro c i haw hc
      rcases haw with hcov | ⟨w, hw, t', len', ho, hrange⟩
      · exact .inl (hcov.mono (fun x hx => List.mem_append_left _ hx) (.of_lookup fun _ => rfl))
      rcases List.mem_cons.mp hw with rfl | hw
      · have htid : c.tid = prog.call.tid := by
          obtain ⟨pa', -, hw, -⟩ := ho
          exact (Waiter.user.inj hw).1.symm
        obtain rfl := hc htid
        exact .inl (.inl ⟨copy, t', len', List.mem_append_right _ (.head _),
          hput t' len' ho, hrange⟩)
      · exact .inr ⟨w, hw, t', len', ho, hrange⟩
    have hrec : Record fs s.calls (s.written ++ [(prog.call, copy)]) s.resumed s.fsReads none := by
      apply h.record.write
      intro x hx
      obtain rfl := List.mem_singleton.mp hx
      exact ⟨(h.record.under _ prog hprog).2.1, t, len, hput t len howed⟩
    have hrelease := hrec.release hprog
    have hother : ∀ t' p, t' ≠ prog.call.tid → s.fsReads t' = some p →
        Under fs key rest s.cache (s.written ++ [(prog.call, copy)]) t' p := by
      intro t' p hne hp
      obtain ⟨hcaller, hfailed, hpending, hpos, hsum, hawaited⟩ := h.under t' p hp
      refine ⟨hcaller, hfailed, hpending.trans (hothers t' hne), hpos, hsum, fun i hi =>
        hserved _ i (hawaited i hi) fun htid => absurd (hcaller.symm.trans htid) hne⟩
    simp only [State.dispatch, if_true, hprog, hcopy, completeFsReadWaiter, hfailed,
      and_self, ne_eq, not_true_eq_false, decide_false, Bool.or_false, Bool.false_eq_true,
      if_false]
    split
    · next hlast =>
      have hzero : owing s.cache rest prog.call.tid = 0 := by omega
      have hdone : prog.bytesDone + len = prog.call.n := by omega
      have hnone : s.cache.outstanding prog.call.tid = 0 := by
        unfold owing at hzero
        omega
      have hanswer := hrelease.answer fun i hi =>
        (hserved _ i (hawaited i hi) fun _ => rfl).arrived hzero
      rw [← hdone] at hanswer
      refine ⟨⟨?_, ?_, h.tracked, h.landed, h.handles, ?_, ?_, hanswer, h.fine⟩, rfl⟩
      · refine h.filled.owner fun t' hne => ?_
        have hdiff : t' ≠ prog.call.tid := by
          rintro rfl
          exact hne hnone
        simp only [ownerOf, resume, setRead, if_neg hdiff]
      · intro w hw
        obtain ⟨c, t', len', hown, ho⟩ := h.detached w (.tail _ hw)
        refine ⟨c, t', len', ?_, ho⟩
        have hdiff : c.tid ≠ prog.call.tid := by
          intro htid
          have hsum : (rest.map (Waiter.owed c.tid)).sum = 0 := by
            rw [htid]
            unfold owing at hzero
            omega
          exact ho.pos (List.sum_eq_zero_iff.mp hsum _ (List.mem_map.mpr ⟨w, hw, rfl⟩))
        simp only [ownerOf, resume, setRead, if_neg hdiff]
        exact hown
      · intro t' ht'
        by_cases hne : t' = prog.call.tid
        · rw [hne]
          exact hzero
        · simp only [resume, setRead, if_neg hne] at ht'
          exact (hothers t' hne).symm.trans (h.idle t' ht')
      intro t' p hp
      simp only [resume, setRead] at hp
      split at hp
      · cases hp
      · next hne => exact hother t' p hne hp
    · next hmore =>
      have hleft : prog.bytesPending - len = owing s.cache rest prog.call.tid := by omega
      have hown : ∀ t', ownerOf (fun t => if t = prog.call.tid then
          some ⟨prog.bytesPending - len, prog.bytesDone + len, false, prog.call⟩
          else s.fsReads t) t' = ownerOf s.fsReads t' := by
        intro t'
        simp only [ownerOf]
        by_cases hne : t' = prog.call.tid
        · rw [hne, if_pos rfl, hprog]
          rfl
        · rw [if_neg hne]
      have hpark : Record fs s.calls (s.written ++ [(prog.call, copy)]) s.resumed
          (fun t => if t = prog.call.tid then
            some ⟨prog.bytesPending - len, prog.bytesDone + len, false, prog.call⟩
            else s.fsReads t) none := by
        have hparked : Record fs s.calls (s.written ++ [(prog.call, copy)]) s.resumed
            (fun t => if t = prog.call.tid then
              some ⟨prog.bytesPending - len, prog.bytesDone + len, false, prog.call⟩
              else if t = prog.call.tid then none else s.fsReads t) none :=
          hrelease.park rfl (if_pos rfl)
        convert hparked using 2 with t'
        split <;> rfl
      refine ⟨⟨?_, ?_, h.tracked, h.landed, h.handles, ?_, ?_, hpark, h.fine⟩, rfl⟩
      · exact h.filled.owner fun t' _ => hown t'
      · intro w hw
        obtain ⟨c, t', len', howner, ho⟩ := h.detached w (.tail _ hw)
        exact ⟨c, t', len', (hown _).trans howner, ho⟩
      · intro t' ht'
        simp only [setRead] at ht'
        split at ht'
        · cases ht'
        · next hne => exact (hothers t' hne).symm.trans (h.idle t' ht')
      intro t' p hp
      simp only [setRead] at hp
      split at hp
      · next heq =>
        cases hp
        subst heq
        exact ⟨rfl, rfl, hleft, Nat.pos_of_ne_zero hmore,
          by dsimp only; omega, fun i hi => hserved _ i (hawaited i hi) fun _ => rfl⟩
      · next hne => exact hother t' p hne hp

theorem dispatchAll (rest : List Waiter) : ∀ s : State,
    Reading fs frames key rest s → (∀ i < 4096, s.mem frame i = fs.pageAt key.lba i) →
    Reading fs frames key [] (rest.foldl (State.dispatch frame 0) s) := by
  induction rest with
  | nil => exact fun s h _ => h
  | cons w rest ih =>
    intro s h hcontent
    obtain ⟨hnext, hmem⟩ := h.dispatch hcontent
    exact ih _ hnext (by rw [hmem]; exact hcontent)

/-- A completion is served. -/
theorem runCacheFill (h : Reading fs frames key [] s)
    {rest : List (CacheKey × Nat)} (hfills : s.fills = (k, status) :: rest) :
    Reading fs frames k [] ({ s with fills := rest }.runCacheFill k status) := by
  obtain ⟨rfl, frame, valid, ws, c, hload, heq, hcontent, hread⟩ := h.complete hfills
  simp only [State.runCacheFill, hload, heq]
  exact dispatchAll ws _ hread hcontent

end Reading

/-- Reads that find room, of a device without errors. -/
def Fits (fs : Tarfs) (s : State) : Action → Prop
  | .read tid pid fd buf len translate =>
    ∀ call ∈ s.callOf fs tid pid fd buf len translate, 0 < call.n → s.HasRoom fs call
  | .irq _ status => status = 0
  | .fill => True

/-- A device without errors. -/
def Clean (_ : State) : Action → Prop
  | .irq _ status => status = 0
  | _ => True

instance (c : PageCache) (inFlight : List CacheKey) (k : Nat) : Decidable (Room c inFlight k) :=
  inferInstanceAs (Decidable (_ ∧ _))

instance (fs : Tarfs) (call : ReadCall) (c : PageCache) : Decidable (call.Cached fs c) :=
  inferInstanceAs (Decidable (∀ p < _, _))

instance (fs : Tarfs) (s : State) (call : ReadCall) : Decidable (s.HasRoom fs call) :=
  inferInstanceAs (Decidable (_ ∧ (_ ∨ _)))

instance (fs : Tarfs) (s : State) : ∀ a : Action, Decidable (Fits fs s a)
  | .read .. => inferInstanceAs (Decidable (∀ call ∈ _, _ → _))
  | .irq .. => inferInstanceAs (Decidable (_ = 0))
  | .fill => isTrue trivial

instance (s : State) : ∀ a : Action, Decidable (Clean s a)
  | .read .. => isTrue trivial
  | .irq .. => inferInstanceAs (Decidable (_ = 0))
  | .fill => isTrue trivial

theorem Start.reading {s : State} (h : Start fs s) (key : CacheKey) :
    Reading fs s.cache.pool key [] s := by
  obtain ⟨hcalls, hwritten, hresumed, hstray, hpanicked⟩ := h.record
  obtain ⟨hflight, hfills⟩ := h.idle
  have hlookup : ∀ k, s.cache.lookup k = none := by
    intro k
    rw [lookup, h.entries]
    rfl
  have hnone : ∀ k slot, s.cache.lookup k ≠ some slot := by
    intro k slot hslot
    rw [hlookup k] at hslot
    cases hslot
  refine ⟨⟨⟨⟨by rw [h.lru]; exact List.nodup_nil, fun k => ?_⟩, ?_⟩, h.pool.1, h.pool.2,
    fun k f v hk => absurd hk (hnone k _), fun k f v ws hk => absurd hk (hnone k _)⟩,
    fun _ hx => (by cases hx), ⟨?_, fun k => ?_⟩, fun x hx => ?_, h.handles, fun tid _ => ?_,
    fun tid prog hprog => ?_, ?_, hstray, hpanicked⟩
  · rw [h.lru]
    refine ⟨fun hk => (by cases hk), ?_⟩
    rintro ⟨f, v, hk⟩
    exact absurd hk (hnone k _)
  · rw [h.entries]
    exact List.Perm.of_eq (List.append_nil _)
  · rw [hflight, hfills]
    exact List.nodup_nil
  · rw [hflight, hfills]
    refine ⟨fun hk => (by cases hk), ?_⟩
    rintro ⟨f, v, ws, hk⟩
    exact absurd hk (hnone k _)
  · rw [hfills] at hx
    cases hx
  · rw [owing, outstanding, h.entries]
    rfl
  · rw [h.fsReads tid] at hprog
    cases hprog
  rw [hcalls, hwritten, hresumed]
  refine ⟨fun _ _ hk => (by cases hk), fun _ hx => (by cases hx), fun _ hx => (by cases hx),
    fun _ hx => (by cases hx), List.nodup_nil, fun tid prog hprog => ?_, fun _ hc => (by cases hc),
    fun _ hx => (by cases hx)⟩
  rw [h.fsReads tid] at hprog
  cases hprog

theorem Reading.step {s s' : State} {key : CacheKey} (h : Reading fs frames key [] s) {a : Action}
    (hfits : Fits fs s a) (hstep : step fs s a = some s') :
    ∃ key, Reading fs frames key [] s' := by
  cases a with
  | read tid pid fd buf len translate =>
    unfold Fs.step at hstep
    dsimp only at hstep
    split at hstep
    · next hready =>
      obtain ⟨hidle, hpos, hlen⟩ := hready
      cases hstep
      exact ⟨key, h.runFsReadReq (Option.isNone_iff_eq_none.mp hidle) hpos hlen hfits⟩
    · cases hstep
  | irq k status =>
    unfold Fs.step at hstep
    dsimp only at hstep
    split at hstep
    · next hk =>
      cases hstep
      obtain rfl : status = 0 := hfits
      exact ⟨key, h.irq hk⟩
    · cases hstep
  | fill =>
    unfold Fs.step at hstep
    dsimp only at hstep
    split at hstep
    · next k status rest hfills =>
      cases hstep
      exact ⟨k, h.runCacheFill hfills⟩
    · cases hstep

/-- The reads of a state are those their callers asked for. -/
structure ReadsRight (fs : Tarfs) (s : State) : Prop where
  /-- what a call returned, with every byte of its range written where it belongs -/
  returned : ∀ x ∈ s.resumed, x.2 = x.1.n ∧ ∀ i < x.1.n, ∃ copy j, (x.1, copy) ∈ s.written ∧
    x.1.translate ((x.1.buf + i) / 4096 * 4096) = some copy.pa ∧
      copy.off + j = (x.1.buf + i) % 4096 ∧
      copy.bytes[j]? = some (fs.byteAt x.1.inode (x.1.off + i))
  /-- a byte that is written is the one its place in the buffer asks for -/
  written : ∀ y ∈ s.written, y.1 ∈ s.calls ∧ ∀ j b, y.2.bytes[j]? = some b → ∃ i < y.1.n,
    y.1.translate ((y.1.buf + i) / 4096 * 4096) = some y.2.pa ∧
      y.2.off + j = (y.1.buf + i) % 4096 ∧ b = fs.byteAt y.1.inode (y.1.off + i)
  /-- and no byte is written for a thread that reads nothing -/
  stray : s.stray = []
  /-- a call is resumed at most once -/
  once : (s.resumed.map fun x => x.1.id).Nodup ∧ (s.calls.map ReadCall.id).Nodup ∧
    ∀ x ∈ s.resumed, x.1 ∈ s.calls
  /-- and one that is not waits for a page the device or the manager still has -/
  waiting : ∀ call ∈ s.calls, (∃ r, (call, r) ∈ s.resumed) ∨
    ∃ key, (key ∈ s.inFlight ∨ key ∈ s.fills.map Prod.fst) ∧
      ∃ w ∈ s.cache.pendingAt key, w.owed call.tid ≠ 0

/-- The bytes of a copy, one by one. -/
theorem Put.bytes (h : Put fs call copy t len) (hge : t ≤ i) (hlt : i < t + len) :
    call.translate ((call.buf + i) / 4096 * 4096) = some copy.pa ∧
      copy.off + (i - t) = (call.buf + i) % 4096 ∧
      copy.bytes[i - t]? = some (fs.byteAt call.inode (call.off + i)) := by
  obtain ⟨pa, hseg, rfl⟩ := h
  have hfit := hseg.userFit
  have hpage : (call.buf + i) / 4096 = (call.buf + t) / 4096 := by omega
  have hplace : call.off + t + (i - t) = call.off + i := by omega
  refine ⟨by rw [hpage]; exact hseg.translate, by dsimp only; omega, ?_⟩
  simp only [Tarfs.fileBytes, List.getElem?_map, List.getElem?_range (show i - t < len by omega),
    Option.map_some, hplace]

theorem Put.length (h : Put fs call copy t len) :
    copy.bytes.length = len ∧ t + len ≤ call.n := by
  obtain ⟨pa, hseg, rfl⟩ := h
  exact ⟨by simp [Tarfs.fileBytes], hseg.within⟩

/-- Something that waits for bytes waits at a load. -/
theorem Reading.waits {s : State} {key : CacheKey} (h : Reading fs frames key [] s)
    (hprog : s.fsReads call.tid = some prog) :
    ∃ key, (key ∈ s.inFlight ∨ key ∈ s.fills.map Prod.fst) ∧
      ∃ w ∈ s.cache.pendingAt key, w.owed call.tid ≠ 0 := by
  obtain ⟨-, -, hpending, hpos, -, -⟩ := h.under _ prog hprog
  have hne : s.cache.outstanding call.tid ≠ 0 := by
    intro hzero
    rw [hpending, owing, hzero] at hpos
    exact absurd hpos (Nat.lt_irrefl 0)
  obtain ⟨k, slot, hslot, howed⟩ := exists_of_total hne
  obtain ⟨n, hn, hnne⟩ := List.exists_mem_ne_zero_of_sum_ne_zero howed
  obtain ⟨w, hw, rfl⟩ := List.mem_map.mp hn
  have hlookup : s.cache.lookup k = some slot := hslot
  have hload : ∃ frame valid ws, s.cache.lookup k = some (.loading frame valid ws) := by
    cases slot with
    | ready frame valid => cases hw
    | loading frame valid ws => exact ⟨frame, valid, ws, hlookup⟩
  refine ⟨k, List.mem_append.mp ((h.tracked.2 k).mpr hload), w, ?_, hnne⟩
  rw [pendingAt, hlookup]
  exact hw

/-- In every run of a device without errors in which each read finds its caller's pages mapped
and room for its loads, a read returns `min(len, size - off)` and writes that part of the file,
nothing else is written, and its thread is resumed once. -/
theorem fs_read_correct {s : State} (h : Reach (step fs) (Fits fs) (Start fs) s) :
    ReadsRight fs s := by
  obtain ⟨frames, key, hread⟩ : ∃ frames key, Reading fs frames key [] s := by
    refine Reach.invariant (I := fun s => ∃ frames key, Reading fs frames key [] s)
      (fun s hs => ⟨_, ⟨0, 0⟩, hs.reading _⟩) (fun s a s' hinv hfits hstep => ?_) h
    obtain ⟨frames, key, hread⟩ := hinv
    exact ⟨frames, hread.step hfits hstep⟩
  have hrec := hread.record
  refine ⟨fun x hx => ?_, fun y hy => ?_, hread.fine.1, ⟨hrec.once, hrec.ids_nodup, fun x hx =>
    (hrec.answers x hx).1⟩, fun call hcall => ?_⟩
  · obtain ⟨-, hval, harr⟩ := hrec.answers x hx
    refine ⟨hval, fun i hi => ?_⟩
    obtain ⟨copy, t, len, hmem, hput, hge, hlt⟩ := harr i hi
    exact ⟨copy, i - t, hmem, hput.bytes hge hlt⟩
  · obtain ⟨hmem, t, len, hput⟩ := hrec.puts y hy
    refine ⟨hmem, fun j b hb => ?_⟩
    obtain ⟨hlen, hwithin⟩ := hput.length
    have hj : j < len := hlen ▸ (List.getElem?_eq_some_iff.mp hb).1
    obtain ⟨htrans, hoff, hbyte⟩ := hput.bytes (Nat.le_add_right t j) (by omega)
    rw [Nat.add_sub_cancel_left] at hoff hbyte
    rw [hb] at hbyte
    exact ⟨t + j, by omega, htrans, hoff, Option.some.inj hbyte⟩
  rcases hrec.all call hcall with hfree | hown | hans
  · cases hfree
  · obtain ⟨prog, hprog, -⟩ := Option.map_eq_some_iff.mp hown
    exact .inr (hread.waits hprog)
  · exact .inl hans

/-- A disk with one file of 32 pages. -/
def oneFile : Tarfs where
  inodes := [some ⟨true, 131072, 1⟩]
  disk := fun k => UInt8.ofNat k
  capacitySectors := 300
  inside := by
    intro e he
    obtain rfl : e = ⟨true, 131072, 1⟩ := by simpa using he
    decide
  apart := by
    intro i j e e' hi hj hne
    have hi0 : i = 0 := by
      have hlt := (List.getElem?_eq_some_iff.mp hi).1
      simpa using hlt
    have hj0 : j = 0 := by
      have hlt := (List.getElem?_eq_some_iff.mp hj).1
      simpa using hlt
    exact absurd (hi0.trans hj0.symm) hne

/-- A process with the file open three times, at its start, in its middle and across the end
of its first page. -/
def mounted : State where
  cache := ⟨∅, [], (List.range 64).map fun k => 4096 * (k + 1), 64, ⟨0, 0, 0, 0, 0, 0⟩⟩
  mem := fun _ _ => 0
  handles := fun pid fd =>
    if pid = 100 then
      if fd = 3 then some (.file 0 0 true)
      else if fd = 4 then some (.file 0 65536 true)
      else if fd = 5 then some (.file 0 4000 true)
      else none
    else none
  fsReads := fun _ => none
  inFlight := []
  fills := []
  calls := []
  written := []
  resumed := []
  refused := []
  stray := []
  panicked := false

theorem mounted_start : Start oneFile mounted := by
  refine ⟨rfl, rfl, ⟨by decide +kernel, by decide +kernel⟩, fun pid fd inode off h => ?_,
    fun _ => rfl, ⟨rfl, rfl⟩, rfl, rfl, rfl, rfl, rfl⟩
  have hino : inode = 0 := by
    simp only [mounted] at h
    split at h
    · split at h
      · simp at h; omega
      split at h
      · simp at h; omega
      split at h
      · simp at h; omega
      · cases h
    · cases h
  subst hino
  exact ⟨_, rfl, rfl⟩

/-- A read across two pages of the file and two of the caller, whose pages arrive in the other
order. -/
theorem fs_read_correct_straddling : ∃ s, Reach (step oneFile) (Fits oneFile) (Start oneFile) s ∧
    s.resumed.map Prod.snd = [300] ∧ s.written.length = 3 ∧ ReadsRight oneFile s := by
  have hstart : Reach (step oneFile) (Fits oneFile) (Start oneFile) mounted := .start mounted_start
  obtain ⟨s, hreach, hval, hlen⟩ := Reach.exists_of_exec
    [.read 1 100 5 0x10f80 300 fun va => some (va + 0x80000000), .irq ⟨1, 9⟩ 0, .fill,
      .irq ⟨1, 1⟩ 0, .fill]
    (fun s => s.resumed.map Prod.snd = [300] ∧ s.written.length = 3) hstart (by decide +kernel)
  exact ⟨s, hreach, hval, hlen, fs_read_correct hreach⟩

/-- In the same runs a page of the cache that is ready has its part of the disk in its frame, and a
page is loading just when one request or completion of the device is under way for it. -/
theorem cache_follows_device {s : State} (h : Reach (step fs) (Fits fs) (Start fs) s) :
    (∀ key frame valid, s.cache.lookup key = some (.ready frame valid) →
      ∀ i < 4096, s.mem frame i = fs.pageAt key.lba i) ∧
    (s.inFlight ++ s.fills.map Prod.fst).Nodup ∧
    ∀ key, key ∈ s.inFlight ++ s.fills.map Prod.fst ↔
      ∃ frame valid ws, s.cache.lookup key = some (.loading frame valid ws) := by
  obtain ⟨frames, key, hread⟩ : ∃ frames key, Reading fs frames key [] s := by
    refine Reach.invariant (I := fun s => ∃ frames key, Reading fs frames key [] s)
      (fun s hs => ⟨_, ⟨0, 0⟩, hs.reading _⟩) (fun s a s' hinv hfits hstep => ?_) h
    obtain ⟨frames, key, hread⟩ := hinv
    exact ⟨frames, hread.step hfits hstep⟩
  exact ⟨fun k frame valid hk => (hread.filled.ready k frame valid hk).1, hread.tracked⟩

theorem cache_follows_device_one_page : ∃ s, Reach (step oneFile) (Fits oneFile) (Start oneFile) s ∧
    s.fills.length = 1 ∧ (s.inFlight ++ s.fills.map Prod.fst).Nodup := by
  have hstart : Reach (step oneFile) (Fits oneFile) (Start oneFile) mounted := .start mounted_start
  obtain ⟨s, hreach, hlen⟩ := hstart.exists_of_exec [.read 1 100 5 0x10f80 300 some, .irq ⟨1, 9⟩ 0]
    (fun s => s.fills.length = 1) (by decide +kernel)
  exact ⟨s, hreach, hlen, (cache_follows_device hreach).2.1⟩

/-- Two threads read 16 absent pages each. The queue has descriptors for 21 chains, so the
second walk gives up at its sixth page; its five loads succeed and the call returns `-EIO`. -/
theorem full_queue_fails_read : ∃ s, Reach (step oneFile) Clean (Start oneFile) s ∧
    ∃ x ∈ s.resumed, x.2 = -5 ∧ x.1.n = 65536 := by
  have hstart : Reach (step oneFile) Clean (Start oneFile) mounted := .start mounted_start
  apply Reach.exists_of_exec
    ([.read 1 100 3 0x100000 65536 some, .read 2 100 4 0x200000 65536 some] ++
      ((List.range 5).map fun p => Action.irq ⟨1, 129 + 8 * p⟩ 0) ++ List.replicate 5 .fill)
    (fun s => ∃ x ∈ s.resumed, x.2 = -5 ∧ x.1.n = 65536) hstart
  decide +kernel

end Orbit.Fs
