import Orbit.Mem.Image
import Orbit.Mem.Windows

/-!
What a program finds in its address space after `load_elf`. The loader copies the bytes of a
segment to the start of its block and maps the block from the page `p_vaddr` lies in, so the
byte at an address is that of the block at the same distance from the start of the page. Nothing
bounds the end of a segment: it lies in the window for programs only if its header says so.
-/

namespace Orbit.Mem

open Paging State Ram

variable {own' : Nat → Option (Nat × Nat)}

/-- The byte at a user address, if it is mapped. -/
def State.byteAt (s : State) (root va : Nat) : Option UInt8 :=
  (s.mem.ram.virtToPhys root va).map s.mem.ram.byte

namespace Segment

/-- The image the headers prescribe: the bytes of the file from `p_vaddr` on, then zeros. -/
def Imaged (seg : Segment) (view : Nat → Option UInt8) : Prop :=
  (∀ bytes, seg.data = some bytes → ∀ i < seg.pFilesz, view (seg.pVaddr + i) = bytes[i]?) ∧
    ∀ i, seg.pFilesz ≤ i → i < seg.pMemsz → view (seg.pVaddr + i) = some 0

/-- Byte `k` of a segment in memory. -/
def content (seg : Segment) (k : Nat) : UInt8 :=
  if k < seg.pFilesz then (seg.data.getD []).getD k 0 else 0

/-- The distance of an address from the first page of the segment, in the 48 bits that are
translated. -/
def offset (seg : Segment) (va : Nat) : Nat :=
  (va + (2 ^ 64 - roundDown seg.pVaddr pageSize)) % vaSpace

/-- The pages of the segment translate `va`: without R, W and X they are not leaves. -/
def Shows (seg : Segment) (va : Nat) : Prop :=
  Pte.isLeaf seg.permissions = true ∧ seg.offset va < roundUp seg.size pageSize

instance (seg : Segment) (va : Nat) : Decidable (seg.Shows va) :=
  inferInstanceAs (Decidable (_ ∧ _))

end Segment

namespace Segment

variable {seg : Segment} {va k : Nat}

theorem roundDown_lt (seg : Segment) : roundDown seg.pVaddr pageSize < 2 ^ 64 :=
  Nat.lt_of_le_of_lt (Nat.div_mul_le_self _ _) seg.vaddr_lt

theorem offset_spec (seg : Segment) (va : Nat) :
    va % vaSpace = (roundDown seg.pVaddr pageSize + seg.offset va) % vaSpace := by
  have hlt := seg.roundDown_lt
  simp only [offset, vaSpace]
  omega

theorem offset_of_mod (h : va % vaSpace = (roundDown seg.pVaddr pageSize + k) % vaSpace) :
    seg.offset va = k % vaSpace := by
  have hlt := seg.roundDown_lt
  simp only [offset, vaSpace] at *
  omega

end Segment

namespace State

variable {s s' : State}

theorem fillSegment_pools (s : State) (seg : Segment) (bytes : List UInt8) (frame : Nat) :
    (s.fillSegment seg bytes frame).mem.pools = s.mem.pools := by
  rw [fillSegment]
  split <;> rfl

theorem fillSegment_byte (s : State) {seg : Segment} {bytes : List UInt8} (frame : Nat)
    (hdata : seg.data = some bytes) {k : Nat} (hk : k < seg.size) :
    (s.fillSegment seg bytes frame).mem.ram.byte (frame + k) = seg.content k := by
  have hlen := seg.data_length bytes hdata
  have hfile : (s.mem.ram.copy frame bytes).byte (frame + k) =
      if k < seg.pFilesz then bytes.getD k 0 else s.mem.ram.byte (frame + k) := by
    simp only [copy, Within, Nat.le_add_right, true_and, Nat.add_lt_add_iff_left, hlen,
      Nat.add_sub_cancel_left]
  rw [fillSegment, Segment.content, hdata, Option.getD_some]
  split
  · next hlt =>
    have hsize : seg.size = seg.pMemsz := Nat.max_eq_right (Nat.le_of_lt hlt)
    rw [hsize] at hk
    rw [Segment.memSize_eq hdata, hsize]
    show (if Within (frame + seg.pFilesz) (seg.pMemsz - seg.pFilesz) (frame + k) then 0
      else (s.mem.ram.copy frame bytes).byte (frame + k)) = _
    rw [hfile]
    by_cases hbyte : k < seg.pFilesz
    · rw [if_neg fun hin => by have := hin.1; omega, if_pos hbyte, if_pos hbyte]
    · rw [if_pos ⟨by omega, by omega⟩, if_neg hbyte]
  next hle =>
  rw [Segment.size, Nat.max_eq_left (Nat.le_of_not_lt hle)] at hk
  show (s.mem.ram.copy frame bytes).byte (frame + k) = _
  rw [hfile, if_pos hk, if_pos hk]

theorem fillSegment_outside (s : State) {seg : Segment} {bytes : List UInt8} {frame a : Nat}
    (hdata : seg.data = some bytes) (h : ¬ Within frame seg.size a) :
    (s.fillSegment seg bytes frame).mem.ram.byte a = s.mem.ram.byte a := by
  have hlen := seg.data_length bytes hdata
  have hfile : (s.mem.ram.copy frame bytes).byte a = s.mem.ram.byte a := by
    apply sameOutside_copy
    intro hin
    exact h ⟨hin.1, Nat.lt_of_lt_of_le hin.2
      (by rw [hlen]; exact Nat.add_le_add_left (le_max_left _ _) _)⟩
  rw [fillSegment]
  split
  · rw [Segment.memSize_eq hdata]
    refine (sameOutside_fill _ _ _ _ a fun hin => h ?_).trans hfile
    have hle : seg.pFilesz ≤ seg.size := le_max_left _ _
    exact ⟨by have := hin.1; omega, by have := hin.2; omega⟩
  · exact hfile

end State

/-- A load in progress: what is mapped is in use. -/
structure Loading (s : State) (root : Nat) (own : Nat → Option (Nat × Nat)) : Prop where
  ready : Ready s root own
  inUse : ∀ va pa, s.mem.ram.virtToPhys root va = some pa →
    Outside (s.mem.pools .table) own pa ∧ ¬ (s.mem.pools .userOnly).Free pa

/-- A segment has its block, with its bytes in it, and is not mapped yet. -/
structure Filled (s s' : State) (root : Nat) (own : Nat → Option (Nat × Nat)) (seg : Segment)
    (frame : Nat) : Prop where
  tree : Tree 0 s'.mem.ram root own
  leaves : ∀ va, s'.mem.ram.leafAt root va = s.mem.ram.leafAt root va
  alloc : (s.mem.pools .userOnly).allocAligned ⟨seg.size, pageSize⟩ =
    some (frame, s'.mem.pools .userOnly)
  others : ∀ j, j ≠ .userOnly → s'.mem.pools j = s.mem.pools j
  wf : (s'.mem.pools .userOnly).Wf
  block : ∀ k < roundUp seg.size pageSize, (s.mem.pools .userOnly).Free (frame + k) ∧
    ¬ (s'.mem.pools .userOnly).Free (frame + k)
  shrinks : ∀ a, (s'.mem.pools .userOnly).Free a → (s.mem.pools .userOnly).Free a
  stop : frame + roundUp seg.size pageSize ≤ physEnd
  content : ∀ k < seg.size, s'.mem.ram.byte (frame + k) = seg.content k
  rest : ∀ a, ¬ Within frame seg.size a → s'.mem.ram.byte a = s.mem.ram.byte a

theorem userPageWindow_size {frame size : Nat} (h : userPageWindow frame size = .ok ()) :
    size ≤ kscratchSize := by
  unfold userPageWindow at h
  split at h
  · cases h
  split at h
  · cases h
  dsimp only at h
  split at h
  · cases h
  split at h
  · cases h
  · omega

theorem le_roundUp_page (n : Nat) : n ≤ roundUp n pageSize := by
  rw [roundUp]
  split
  · exact Nat.le_refl n
  · simp only [pageSize]
    omega

section Segment

variable {s s' s'' : State} {root frame : Nat} {own : Nat → Option (Nat × Nat)} {seg : Segment}
  {bytes : List UInt8}

theorem Ready.fill (h : Ready s root own) (hdata : seg.data = some bytes)
    (halloc : s.alloc .userOnly ⟨seg.memSize bytes, pageSize⟩ = some (frame, s'))
    (hwindow : userPageWindow frame (seg.memSize bytes) = .ok ()) :
    Filled s (s'.fillSegment seg bytes frame) root own seg frame := by
  rw [Segment.memSize_eq hdata] at halloc hwindow
  obtain ⟨htake, hbyte, hothers, -⟩ := alloc_some halloc
  have hwf : (⟨seg.size, pageSize⟩ : Layout).Wf := ⟨12, pageSize_eq_pow⟩
  obtain ⟨hpool, -, hend, hwas, hnow⟩ := (h.wf .userOnly).allocAligned hwf htake
  have hsmall : seg.size ≤ kscratchSize := userPageWindow_size hwindow
  have hbound : kscratchSize ≤ 2 ^ 63 := by decide
  have hspan : roundUp seg.size pageSize ≤ (⟨seg.size, pageSize⟩ : Layout).span :=
    roundUp_le (Nat.mod_eq_zero_of_dvd hwf.align_dvd_span)
      (Layout.size_le_span (l := ⟨seg.size, pageSize⟩) (Nat.le_trans hsmall hbound))
  have hpages : ∀ a, Within frame (roundUp seg.size pageSize) a →
      Within frame (⟨seg.size, pageSize⟩ : Layout).span a :=
    fun a ha => ⟨ha.1, Nat.lt_of_lt_of_le ha.2 (Nat.add_le_add_left hspan _)⟩
  have hsub : ∀ a, Within frame seg.size a → Within frame (roundUp seg.size pageSize) a :=
    fun a ha => ⟨ha.1, Nat.lt_of_lt_of_le ha.2 (Nat.add_le_add_left (le_roundUp_page _) _)⟩
  have hrest : ∀ a, ¬ Within frame seg.size a →
      (s'.fillSegment seg bytes frame).mem.ram.byte a = s.mem.ram.byte a := by
    intro a ha
    rw [State.fillSegment_outside s' hdata ha, hbyte]
  -- the block comes out of the pool, so no table lies in it
  have htables : ∀ t x, own t = some x → ∀ a, Within t pageSize a →
      (s'.fillSegment seg bytes frame).mem.ram.byte a = s.mem.ram.byte a := by
    intro t x ht a ha
    apply hrest
    exact fun hin => h.apart .userOnly t x ht a ha (hwas a (hpages a (hsub a hin)))
  obtain ⟨tree, hleaves, -⟩ := h.tree.of_sameTables htables
  have hpools := State.fillSegment_pools s' seg bytes frame
  refine ⟨tree, hleaves, ?_, ?_, ?_, ?_, ?_, ?_, ?_, hrest⟩
  · rw [hpools]
    exact htake
  · rw [hpools]
    exact hothers
  · rw [hpools]
    exact hpool
  · intro k hk
    have hin := hpages (frame + k) ⟨Nat.le_add_right _ _, Nat.add_lt_add_left hk _⟩
    rw [hpools]
    exact ⟨hwas _ hin, fun hfree => (hnow _ hfree).2 hin⟩
  · rw [hpools]
    exact fun a ha => (hnow a ha).1
  · exact Nat.le_trans (Nat.add_le_add_left hspan _) hend
  · exact fun k hk => State.fillSegment_byte s' frame hdata hk

theorem State.mapAddressRange_true {config : MappingConfig} {vend pend : Nat}
    (h : s.mapAddressRange root config vend pend = (true, s')) :
    (s.mapping root config vend pend).ok = true ∧
      s'.mem.mmu .table = (s.mapping root config vend pend).mmu ∧
      ∀ j, j ≠ .table → s'.mem.pools j = s.mem.pools j := by
  unfold mapAddressRange at h
  obtain ⟨hok, rfl⟩ := Prod.mk.inj h
  exact ⟨hok, rfl, fun j hj => if_neg hj⟩

variable (filled : Filled s s' root own seg frame)

include filled

/-- The pages of the segment are mapped: what it shows is its block, and that was not mapped
before. -/
theorem Filled.mapped (h : Ready s root own)
    (hmap : s'.mapAddressRange root (seg.config frame)
      (roundDown seg.pVaddr pageSize + roundUp seg.size pageSize)
      (frame + roundUp seg.size pageSize) = (true, s'')) :
    (∃ own', Kept root (s'.mem.mmu .table) (s''.mem.mmu .table) own own') ∧
      (∀ va, s''.mem.ram.virtToPhys root va =
        if seg.Shows va then some (frame + seg.offset va) else s.mem.ram.virtToPhys root va) ∧
      ∀ va, seg.Shows va → s.mem.ram.virtToPhys root va = none := by
  obtain ⟨hok, hmmu, -⟩ := State.mapAddressRange_true hmap
  have hstop := filled.stop
  have hphys : physEnd < 2 ^ 64 := by decide
  have spare : Spare (s'.mem.mmu .table).pages own := by
    show Spare (s'.mem.pools .table) own
    rw [filled.others .table (by decide)]
    exact h.spare
  have hbefore : ∀ va, s'.mem.ram.virtToPhys root va = s.mem.ram.virtToPhys root va := by
    intro va
    rw [virtToPhys_eq, virtToPhys_eq, filled.leaves]
  obtain ⟨-, -, -, hloop⟩ := mapAddressRange_ok hok
  have hpages : ∀ j < (frame + roundUp seg.size pageSize - frame) / pageSize,
      ((seg.config frame).page j).paddr < 2 ^ 64 := by
    intro j hj
    rw [Nat.add_sub_cancel_left] at hj
    have hin : (j + 1) * pageSize ≤ roundUp seg.size pageSize := Nat.mul_le_of_le_div _ _ _ hj
    rw [Nat.succ_mul] at hin
    show frame + j * pageSize < 2 ^ 64
    omega
  obtain ⟨own', kept, hflat⟩ := Tree.mapPages_kept filled.tree spare rfl hpages hloop
  obtain ⟨hexact, hblocked, -⟩ := map_address_range_exact ⟨own, filled.tree, spare⟩
    (seg.config frame) (roundDown seg.pVaddr pageSize + roundUp seg.size pageSize)
    (frame + roundUp seg.size pageSize) ⟨Nat.succ_le_succ (Nat.zero_le 3), Nat.le_refl 4⟩ rfl
    (Nat.le_add_right _ _) (Nat.le_add_right _ _) (Nat.lt_of_le_of_lt hstop hphys)
    (by
      show pageSize ∣ roundDown seg.pVaddr pageSize + roundUp seg.size pageSize -
        roundDown seg.pVaddr pageSize
      rw [Nat.add_sub_cancel_left]
      exact Nat.dvd_of_mod_eq_zero (roundUp_mod _ _)) rfl
  have hlen : roundDown seg.pVaddr pageSize + roundUp seg.size pageSize - (seg.config frame).vaddr =
      roundUp seg.size pageSize := Nat.add_sub_cancel_left _ _
  rw [hlen] at hexact hblocked
  have hram : s''.mem.ram = (s'.mapping root (seg.config frame)
      (roundDown seg.pVaddr pageSize + roundUp seg.size pageSize)
      (frame + roundUp seg.size pageSize)).mmu.ram := congrArg Mmu.ram hmmu
  refine ⟨⟨own', hmmu ▸ kept⟩, fun va => ?_, fun va hshow => ?_⟩
  · rw [← hbefore, hram]
    by_cases hperm : Pte.isLeaf seg.permissions = true
    · have htr := (hexact hok).mpr (.inr hperm)
      by_cases hoff : seg.offset va < roundUp seg.size pageSize
      · rw [if_pos ⟨hperm, hoff⟩]
        exact (htr.inside _ hoff va (seg.offset_spec va)).1
      rw [if_neg fun hshow => hoff hshow.2]
      refine (htr.outside va fun k hk heq => hoff ?_).1
      rw [Segment.offset_of_mod heq]
      exact Nat.lt_of_le_of_lt (Nat.mod_le _ _) hk
    · rw [if_neg fun hshow => hperm hshow.1, virtToPhys_eq, virtToPhys_eq]
      exact congrArg _ (hflat (Bool.not_eq_true _ ▸ hperm) va)
  rw [← hbefore, virtToPhys_eq]
  cases hleaf : s'.mem.ram.leafAt root va with
  | none => rfl
  | some x =>
    have hsame := filled.tree.leafAt_some_mod (seg.offset_spec va) hleaf
    have hnone := hblocked _ hshow.2 (hsame ▸ Option.some_ne_none x)
    exact absurd (hok.symm.trans hnone) (by decide)

theorem Filled.outside
    (kept : Kept root (s'.mem.mmu .table) (s''.mem.mmu .table) own own') {a : Nat}
    (ha : Outside (s.mem.pools .table) own a) :
    Outside (s''.mem.pools .table) own' a ∧ s''.mem.ram.byte a = s'.mem.ram.byte a := by
  rw [← filled.others .table (by decide)] at ha
  exact kept.outside a ha

theorem Filled.ready (h : Ready s root own)
    (kept : Kept root (s'.mem.mmu .table) (s''.mem.mmu .table) own own')
    (hothers : ∀ j, j ≠ .table → s''.mem.pools j = s'.mem.pools j) : Ready s'' root own' := by
  have hsub : ∀ j, j ≠ .table → ∀ a, (s''.mem.pools j).Free a → (s.mem.pools j).Free a := by
    intro j hj a ha
    rw [hothers j hj] at ha
    by_cases huser : j = .userOnly
    · subst huser
      exact filled.shrinks a ha
    · rwa [filled.others j huser] at ha
  refine ⟨kept.tree, fun j => ?_, fun j t x ht a ha hfree => ?_, fun j a hj hfree => ?_⟩
  · cases j with
    | table => exact kept.spare.wf
    | shared =>
      rw [hothers .shared (by decide), filled.others .shared (by decide)]
      exact h.wf .shared
    | userOnly =>
      rw [hothers .userOnly (by decide)]
      exact filled.wf
  · by_cases hj : j = .table
    · subst hj
      exact kept.spare.apart t x.1 x.2 ht a ha hfree
    · exact (filled.outside kept (h.outside hj (hsub j hj a hfree))).1.1 t x ht ha
  · exact (filled.outside kept (h.outside hj (hsub j hj a hfree))).1.2

/-- One segment: the load goes on, the segment shows its bytes, and what was mapped stays. -/
theorem Filled.map (h : Loading s root own)
    (hmap : s'.mapAddressRange root (seg.config frame)
      (roundDown seg.pVaddr pageSize + roundUp seg.size pageSize)
      (frame + roundUp seg.size pageSize) = (true, s'')) :
    (∃ own', Loading s'' root own') ∧
      (∀ va, seg.Shows va → seg.offset va < seg.size →
        s''.byteAt root va = some (seg.content (seg.offset va))) ∧
      ∀ va b, s.byteAt root va = some b → s''.byteAt root va = some b := by
  obtain ⟨⟨own', kept⟩, htrans, hnew⟩ := filled.mapped h.ready hmap
  obtain ⟨-, -, hothers⟩ := State.mapAddressRange_true hmap
  have hpool : s''.mem.pools .userOnly = s'.mem.pools .userOnly := hothers .userOnly (by decide)
  have hblock : ∀ k < roundUp seg.size pageSize, Outside (s.mem.pools .table) own (frame + k) :=
    fun k hk => h.ready.outside (by decide) (filled.block k hk).1
  refine ⟨⟨own', filled.ready h.ready kept hothers, fun va pa hpa => ?_⟩, fun va hshow hin => ?_,
    fun va b hb => ?_⟩
  · rw [htrans] at hpa
    rw [hpool]
    split at hpa
    · next hshow =>
      cases hpa
      exact ⟨(filled.outside kept (hblock _ hshow.2)).1, (filled.block _ hshow.2).2⟩
    · obtain ⟨hout, hused⟩ := h.inUse va pa hpa
      exact ⟨(filled.outside kept hout).1, fun hfree => hused (filled.shrinks pa hfree)⟩
  · rw [State.byteAt, htrans, if_pos hshow, Option.map_some,
      (filled.outside kept (hblock _ hshow.2)).2, filled.content _ hin]
  · obtain ⟨pa, hpa, hbyte⟩ := Option.map_eq_some_iff.mp hb
    obtain ⟨hout, hused⟩ := h.inUse va pa hpa
    have hshow : ¬ seg.Shows va := fun hshow => by
      rw [hnew va hshow] at hpa
      cases hpa
    -- what is in use is not in the block that was filled
    have hrest : s'.mem.ram.byte pa = s.mem.ram.byte pa := by
      apply filled.rest
      rintro ⟨hlo, hhi⟩
      obtain ⟨k, rfl⟩ := Nat.exists_eq_add_of_le hlo
      exact hused (filled.block k (Nat.lt_of_lt_of_le (Nat.lt_of_add_lt_add_left hhi)
        (le_roundUp_page _))).1
    rw [State.byteAt, htrans, if_neg hshow, hpa, Option.map_some, (filled.outside kept hout).2,
      hrest, hbyte]

end Segment

namespace Segment

/-- Page-aligned, with one of R, W and X, not passed over for an empty `p_memsz`, and in the half
of the address space that user code can name. -/
structure Plain (seg : Segment) : Prop where
  aligned : seg.pVaddr % pageSize = 0
  leaf : Pte.isLeaf seg.permissions = true
  memsz : seg.pMemsz ≠ 0
  stop : seg.pVaddr + seg.size ≤ 2 ^ 47

variable {seg : Segment} {view view' : Nat → Option UInt8}

theorem Imaged.mono (h : seg.Imaged view) (hview : ∀ va b, view va = some b → view' va = some b) :
    seg.Imaged view' := by
  refine ⟨fun bytes hdata i hi => ?_, fun i hlo hhi => hview _ _ (h.2 i hlo hhi)⟩
  have hlt : i < bytes.length := (seg.data_length bytes hdata).symm ▸ hi
  have hbyte := h.1 bytes hdata i hi
  rw [List.getElem?_eq_getElem hlt] at hbyte ⊢
  exact hview _ _ hbyte

/-- A plain segment that shows its bytes shows its image. -/
theorem Plain.imaged (h : seg.Plain) (hview : ∀ va, seg.Shows va → seg.offset va < seg.size →
      view va = some (seg.content (seg.offset va))) : seg.Imaged view := by
  have hround : roundDown seg.pVaddr pageSize = seg.pVaddr :=
    Nat.div_mul_cancel (Nat.dvd_of_mod_eq_zero h.aligned)
  have hstop := h.stop
  have hbyte : ∀ i < seg.size, view (seg.pVaddr + i) = some (seg.content i) := by
    intro i hi
    have hoff : seg.offset (seg.pVaddr + i) = i := by
      rw [offset_of_mod (k := i) (by rw [hround])]
      exact Nat.mod_eq_of_lt (by simp only [vaSpace]; omega)
    have hshow : seg.Shows (seg.pVaddr + i) :=
      ⟨h.leaf, by rw [hoff]; exact Nat.lt_of_lt_of_le hi (le_roundUp_page _)⟩
    rw [hview _ hshow (by rw [hoff]; exact hi), hoff]
  refine ⟨fun bytes hdata i hi => ?_, fun i hlo hhi => ?_⟩
  · have hlt : i < bytes.length := (seg.data_length bytes hdata).symm ▸ hi
    rw [hbyte i (Nat.lt_of_lt_of_le hi (le_max_left _ _)), content, if_pos hi, hdata,
      Option.getD_some, List.getD_eq_getElem?_getD, List.getElem?_eq_getElem hlt, Option.getD_some]
  · rw [hbyte i (Nat.lt_of_lt_of_le hhi (le_max_right _ _)), content, if_neg (Nat.not_lt.mpr hlo)]

end Segment

section Loop

variable {s s' : State} {root : Nat} {own : Nat → Option (Nat × Nat)}
  {acc backings : List PhysBacking} {segs : List Segment}

/-- The loop over the segments hides nothing that was mapped, and plain segments have their
image. -/
theorem Loading.segments (h : Loading s root own)
    (hload : s.loadSegments root acc segs = .ok (some backings, s')) :
    (∀ va b, s.byteAt root va = some b → s'.byteAt root va = some b) ∧
      ∀ seg ∈ segs, seg.pType = .load → seg.Plain → seg.Imaged (s'.byteAt root) := by
  induction segs generalizing s own acc with
  | nil =>
    cases hload
    exact ⟨fun _ _ hb => hb, nofun⟩
  | cons seg rest ih =>
    rcases loadSegments_cons hload with ⟨hskip, hrest⟩ |
      ⟨hloaded, -, bytes, frame, s1, s2, hdata, halloc, hwindow, hmap, hrest⟩
    · obtain ⟨hkeep, hplain⟩ := ih h hrest
      refine ⟨hkeep, fun seg' hmem htype hp => ?_⟩
      rcases List.mem_cons.mp hmem with rfl | hmem
      · exact absurd ⟨htype, hp.memsz⟩ hskip
      · exact hplain seg' hmem htype hp
    have filled := h.ready.fill hdata halloc hwindow
    rw [Segment.memSize_eq hdata] at hmap
    obtain ⟨⟨own', h'⟩, hshown, hstays⟩ := filled.map h hmap
    obtain ⟨hkeep, hplain⟩ := ih h' hrest
    refine ⟨fun va b hb => hkeep va b (hstays va b hb), fun seg' hmem htype hp => ?_⟩
    rcases List.mem_cons.mp hmem with rfl | hmem
    · exact (hp.imaged hshown).mono hkeep
    · exact hplain seg' hmem htype hp

/-- The loop over the segments adds a leaf for the addresses that a loaded segment shows, and for
no others; these had none. -/
theorem Ready.segments (h : Ready s root own)
    (hload : s.loadSegments root acc segs = .ok (some backings, s')) :
    (∀ va, (s'.mem.ram.leafAt root va).isSome = true ↔ (s.mem.ram.leafAt root va).isSome = true ∨
        ∃ seg ∈ segs, seg.Loaded ∧ seg.Shows va) ∧
      ∀ seg ∈ segs, seg.Loaded → seg.size ≤ kscratchSize ∧
        ∀ va, seg.Shows va → s.mem.ram.leafAt root va = none := by
  induction segs generalizing s own acc with
  | nil =>
    cases hload
    exact ⟨fun va => by simp, nofun⟩
  | cons seg rest ih =>
    rcases loadSegments_cons hload with ⟨hskip, hrest⟩ |
      ⟨hloaded, -, bytes, frame, s1, s2, hdata, halloc, hwindow, hmap, hrest⟩
    · obtain ⟨hleaves, hnone⟩ := ih h hrest
      refine ⟨fun va => (hleaves va).trans (or_congr_right ?_), fun seg' hmem hl => ?_⟩
      · simp [hskip]
      rcases List.mem_cons.mp hmem with rfl | hmem
      · exact absurd hl hskip
      · exact hnone seg' hmem hl
    have filled := h.fill hdata halloc hwindow
    rw [Segment.memSize_eq hdata] at hmap hwindow
    obtain ⟨⟨own', kept⟩, htrans, hnew⟩ := filled.mapped h hmap
    obtain ⟨-, -, hothers⟩ := State.mapAddressRange_true hmap
    obtain ⟨hleaves, hnone⟩ := ih (filled.ready h kept hothers) hrest
    -- an address is translated if it has a leaf
    have hiff : ∀ (r : Ram) va, (r.virtToPhys root va).isSome = (r.leafAt root va).isSome := by
      intro r va
      rw [virtToPhys_eq, Option.isSome_map]
    have hsome : ∀ va, (s2.mem.ram.leafAt root va).isSome = true ↔
        (s.mem.ram.leafAt root va).isSome = true ∨ seg.Shows va := by
      intro va
      rw [← hiff, htrans, ← hiff]
      split
      · next hshow => simp [hshow]
      · next hshow => simp [hshow]
    refine ⟨fun va => ?_, fun seg' hmem hl => ?_⟩
    · rw [hleaves, hsome]
      simp [hloaded, or_assoc]
    rcases List.mem_cons.mp hmem with rfl | hmem
    · refine ⟨userPageWindow_size hwindow, fun va hshow => ?_⟩
      have hno := hiff s.mem.ram va
      rw [hnew va hshow] at hno
      exact Option.not_isSome_iff_eq_none.mp (by rw [← hno]; decide)
    · refine ⟨(hnone seg' hmem hl).1, fun va hshow =>
        Option.not_isSome_iff_eq_none.mp fun hold => ?_⟩
      have hlater := (hsome va).mpr (.inl hold)
      rw [(hnone seg' hmem hl).2 va hshow] at hlater
      cases hlater

/-- A new root table is where a load starts: nothing is mapped. -/
theorem State.createNewPageTable_loading (hwf : ∀ pool, (s.mem.pools pool).Wf)
    (hapart : ∀ pool a, pool ≠ .table → (s.mem.pools pool).Free a → ¬ (s.mem.pools .table).Free a)
    (h : s.createNewPageTable = some (root, s')) :
    ∃ own, Loading s' root own := by
  unfold createNewPageTable at h
  cases halloc : s.alloc .table pageLayout with
  | none =>
    rw [halloc] at h
    cases h
  | some res =>
    obtain ⟨frame, s1⟩ := res
    rw [halloc] at h
    obtain ⟨rfl, rfl⟩ := Prod.mk.inj (Option.some.inj h)
    obtain ⟨htake, -, hothers, -⟩ := alloc_some halloc
    obtain ⟨hpool, hdvd, -, hwas, hnow⟩ := (hwf .table).allocAligned pageLayout_wf htake
    rw [pageLayout_span] at hdvd hwas hnow
    have hentry : ∀ i < 512, (s1.writeBytes frame pageSize 0).mem.ram.entry frame i = 0 :=
      fun i hi => word_fill_zero fun x hx => within_entry hi hx
    have tree : Tree 0 (s1.writeBytes frame pageSize 0).mem.ram frame (rootOnly frame) :=
      .rootOnly (Nat.mod_eq_zero_of_dvd hdvd) hentry
    have hnone : ∀ va, (s1.writeBytes frame pageSize 0).mem.ram.virtToPhys frame va = none := by
      intro va
      have hinvalid : Pte.isValid ((s1.writeBytes frame pageSize 0).mem.ram.entry frame
          (vpn (3 - 0) va)) = false := by
        rw [hentry _ (vpn_lt _ _)]
        rfl
      rw [virtToPhys_eq, tree.leafAt_eq_none (Nat.zero_le 3) rfl hinvalid, Option.map_none]
    refine ⟨_, ⟨tree, fun pool => ?_, fun pool t x ht a ha hfree => ?_, fun pool a hp hfree => ?_⟩,
      fun va pa hpa => ?_⟩
    · by_cases hp : pool = .table
      · subst hp
        exact hpool
      show (s1.mem.pools pool).Wf
      rw [hothers pool hp]
      exact hwf pool
    · rw [eq_of_rootOnly ht] at ha
      by_cases hp : pool = .table
      · subst hp
        exact (hnow a hfree).2 ha
      · have hold : (s.mem.pools pool).Free a := hothers pool hp ▸ hfree
        exact hapart pool a hp hold (hwas a ha)
    · have hold : (s.mem.pools pool).Free a := hothers pool hp ▸ hfree
      exact fun htable => hapart pool a hp hold (hnow a htable).1
    · rw [hnone] at hpa
      cases hpa

end Loop

/-- The pages of the segment lie between the text base and the argument pages, in the 48 bits of
an address that are translated. -/
def Segment.InWindow (seg : Segment) : Prop :=
  userTextBase ≤ roundDown seg.pVaddr pageSize % vaSpace ∧
    roundDown seg.pVaddr pageSize % vaSpace + roundUp seg.size pageSize ≤ userEnvpBase

instance (seg : Segment) : Decidable seg.InWindow := inferInstanceAs (Decidable (_ ∧ _))

/-- A loaded segment shows addresses of the window only exactly if its pages lie there. -/
theorem Segment.shows_iff {seg : Segment} (hloaded : seg.Loaded) (hsize : seg.size ≤ kscratchSize)
    (hleaf : Pte.isLeaf seg.permissions = true) :
    (∀ va, seg.Shows va → userTextBase ≤ va % vaSpace ∧ va % vaSpace < userEnvpBase) ↔
      seg.InWindow := by
  have hpos : 0 < roundUp seg.size pageSize :=
    Nat.lt_of_lt_of_le (Nat.lt_of_lt_of_le (Nat.pos_of_ne_zero hloaded.2) (le_max_right _ _))
      (le_roundUp_page _)
  have hlen : roundUp seg.size pageSize ≤ kscratchSize := roundUp_le (by decide) hsize
  have hroom : userEnvpBase + kscratchSize < vaSpace := by decide
  have hmod : roundDown seg.pVaddr pageSize % vaSpace < vaSpace := Nat.mod_lt _ (by decide)
  constructor
  · intro hall
    have hat : ∀ k < roundUp seg.size pageSize, userTextBase ≤
        (roundDown seg.pVaddr pageSize + k) % vaSpace ∧
          (roundDown seg.pVaddr pageSize + k) % vaSpace < userEnvpBase := by
      intro k hk
      refine hall (roundDown seg.pVaddr pageSize + k) ⟨hleaf, ?_⟩
      rw [Segment.offset_of_mod (k := k) rfl]
      exact Nat.lt_of_le_of_lt (Nat.mod_le _ _) hk
    obtain ⟨hfirst, hbelow⟩ := hat 0 hpos
    obtain ⟨-, hlast⟩ := hat (roundUp seg.size pageSize - 1) (by omega)
    rw [Nat.add_zero] at hfirst hbelow
    rw [← Nat.mod_add_mod, Nat.mod_eq_of_lt (by omega)] at hlast
    exact ⟨hfirst, by omega⟩
  · rintro ⟨hlo, hhi⟩ va ⟨-, hoff⟩
    rw [seg.offset_spec va, ← Nat.mod_add_mod, Nat.mod_eq_of_lt (by omega)]
    omega

/-- For every blob and whatever the parser makes of it: the leaves that a successful load adds to
the table are for addresses between the text base and the argument pages exactly if the pages of
every segment that is loaded with one of R, W and X lie there. -/
theorem elf_confined_iff (parse : List UInt8 → Option (List Segment)) (blob : List UInt8)
    {s s' : State} {root : Nat} {own : Nat → Option (Nat × Nat)} {info : ElfInfo}
    (h : Ready s root own) (hload : s.loadElf root (parse blob) = .ok (some info, s')) :
    (∀ va, s.mem.ram.leafAt root va = none → s'.mem.ram.leafAt root va ≠ none →
      userTextBase ≤ va % vaSpace ∧ va % vaSpace < userEnvpBase) ↔
    ∀ segs, parse blob = some segs → ∀ seg ∈ segs, seg.Loaded →
      Pte.isLeaf seg.permissions = true → seg.InWindow := by
  obtain ⟨segs, hparse, hsegs⟩ := loadElf_some hload
  obtain ⟨hleaves, hnone⟩ := h.segments hsegs
  constructor
  · intro hall segs' hparse' seg hseg hloaded hleaf
    obtain rfl : segs = segs' := Option.some.inj (hparse.symm.trans hparse')
    obtain ⟨hsize, hfresh⟩ := hnone seg hseg hloaded
    refine (Segment.shows_iff hloaded hsize hleaf).mp fun va hshow => hall va (hfresh va hshow) ?_
    exact Option.isSome_iff_ne_none.mp ((hleaves va).mpr (.inr ⟨seg, hseg, hloaded, hshow⟩))
  · intro hall va hbefore hafter
    rcases (hleaves va).mp (Option.isSome_iff_ne_none.mpr hafter) with hold |
      ⟨seg, hseg, hloaded, hshow⟩
    · rw [hbefore] at hold
      cases hold
    · have hwindow := hall segs hparse seg hseg hloaded hshow.1
      exact (Segment.shows_iff hloaded (hnone seg hseg hloaded).1 hshow.1).mpr hwindow va hshow

/-- One page of user memory, and enough pages for one path of tables. -/
def loadState : State :=
  let s := createState [0x10000]
  { s with
    mem := { s.mem with
      pools := fun
        | .table => s.mem.pools .table
        | .shared => s.mem.pools .userOnly
        | .userOnly => s.mem.pools .shared } }

theorem loadState_pools : (∀ pool, (loadState.mem.pools pool).Wf) ∧
    ∀ pool a, pool ≠ .table → (loadState.mem.pools pool).Free a →
      ¬ (loadState.mem.pools .table).Free a := by
  obtain ⟨own, ready⟩ := @createState_ready [0x10000] fun _ hb => List.mem_singleton.mp hb
  refine ⟨fun pool => ?_, fun pool a hpool hfree => ?_⟩
  · cases pool with
    | table => exact ready.wf .table
    | shared => exact ready.wf .userOnly
    | userOnly => exact ready.wf .shared
  cases pool with
  | table => exact absurd rfl hpool
  | shared => exact ready.pools .userOnly a (by decide) hfree
  | userOnly => exact ready.pools .shared a (by decide) hfree

def loadRoot : Nat × State :=
  match loadState.createNewPageTable with
  | some out => out
  | none => (0, loadState)

theorem loadRoot_eq : loadState.createNewPageTable = some (loadRoot.1, loadRoot.2) := by
  rw [loadRoot]
  cases h : loadState.createNewPageTable with
  | none =>
    have hsome : loadState.createNewPageTable.isSome = true := by decide +kernel
    rw [h] at hsome
    cases hsome
  | some out => rfl

theorem loadRoot_loads : ∃ s', loadRoot.2.loadElf loadRoot.1 (some [oneByteSegment]) =
    .ok (some ⟨[.user 0x10000 ⟨1, 4096⟩], none⟩, s') := by
  have hok : (loadRoot.2.loadElf loadRoot.1 (some [oneByteSegment])).toOption.map Prod.fst =
      some (some ⟨[.user 0x10000 ⟨1, 4096⟩], none⟩) := by decide +kernel
  exact eq_ok_of_toOption hok

theorem loadRoot_ready : ∃ own, Ready loadRoot.2 loadRoot.1 own := by
  obtain ⟨own, hstart⟩ :=
    State.createNewPageTable_loading loadState_pools.1 loadState_pools.2 loadRoot_eq
  exact ⟨own, hstart.ready⟩

/-- A byte at the text base is mapped there and nowhere else. -/
theorem elf_confined_iff_one_byte : ∃ info s',
    loadRoot.2.loadElf loadRoot.1 (some [oneByteSegment]) = .ok (some info, s') ∧
      ∀ va, loadRoot.2.mem.ram.leafAt loadRoot.1 va = none →
        s'.mem.ram.leafAt loadRoot.1 va ≠ none →
          userTextBase ≤ va % vaSpace ∧ va % vaSpace < userEnvpBase := by
  obtain ⟨s', hload⟩ := loadRoot_loads
  obtain ⟨own, hready⟩ := loadRoot_ready
  have hconfined := (elf_confined_iff (fun _ => some [oneByteSegment]) [] hready hload).mpr
  refine ⟨_, s', hload, hconfined ?_⟩
  intro segs hsegs seg hseg _ _
  cases hsegs
  rw [List.mem_singleton.mp hseg]
  decide

/-- The loader accepts a segment that lies in the private window, and maps it there. -/
theorem elf_segment_in_private_window : ∃ info s',
    loadRoot.2.loadElf loadRoot.1 (some [strayingSegment]) = .ok (some info, s') ∧
      loadRoot.2.mem.ram.leafAt loadRoot.1 uprocPrivBase = none ∧
      s'.mem.ram.leafAt loadRoot.1 uprocPrivBase ≠ none ∧ userEnvpBase ≤ uprocPrivBase := by
  have hok : (loadRoot.2.loadElf loadRoot.1 (some [strayingSegment])).toOption.map Prod.fst =
      some (some ⟨[.user 0x10000 ⟨1, 4096⟩], none⟩) := by decide +kernel
  have hleaf : (loadRoot.2.loadElf loadRoot.1 (some [strayingSegment])).toOption.map
      (fun out => (out.2.mem.ram.leafAt loadRoot.1 uprocPrivBase).isSome) = some true := by
    decide +kernel
  have hbefore : (loadRoot.2.mem.ram.leafAt loadRoot.1 uprocPrivBase).isNone = true := by
    decide +kernel
  obtain ⟨s', hload⟩ := eq_ok_of_toOption hok
  rw [hload] at hleaf
  exact ⟨_, s', hload, Option.isNone_iff_eq_none.mp hbefore,
    Option.isSome_iff_ne_none.mp (Option.some.inj hleaf), by decide⟩

end Orbit.Mem
