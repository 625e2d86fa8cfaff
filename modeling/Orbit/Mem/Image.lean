import Orbit.Mem.Spawn

/-!
The loop of `load_elf` over the segments of a program. The loader checks that a segment
starts at or above the user text base and makes no check on its end.
-/

namespace Orbit.Mem

open Paging

variable {root : Nat} {seg : Segment} {s s' : State}

/-- Segments that `load_elf` maps. -/
def Segment.Loaded (seg : Segment) : Prop := seg.pType = .load ∧ seg.pMemsz ≠ 0

instance (seg : Segment) : Decidable seg.Loaded := inferInstanceAs (Decidable (_ ∧ _))

/-- The size of a segment in memory, from its header. -/
def Segment.size (seg : Segment) : Nat := max seg.pFilesz seg.pMemsz

theorem Segment.memSize_eq {bytes : List UInt8} (h : seg.data = some bytes) :
    seg.memSize bytes = seg.size := by
  rw [memSize, size, seg.data_length bytes h]

namespace State

/-- One round of the loader that goes on: the segment is passed over, or it has its
bytes, a block, a window over it and all its pages mapped. -/
theorem loadSegments_cons {acc backings : List PhysBacking} {rest : List Segment}
    (h : s.loadSegments root acc (seg :: rest) = .ok (some backings, s')) :
    (¬ seg.Loaded ∧ s.loadSegments root acc rest = .ok (some backings, s')) ∨
    (seg.Loaded ∧ userTextBase ≤ seg.pVaddr ∧ ∃ bytes frame s1 s2, seg.data = some bytes ∧
      s.alloc .userOnly ⟨seg.memSize bytes, pageSize⟩ = some (frame, s1) ∧
      userPageWindow frame (seg.memSize bytes) = .ok () ∧
      (s1.fillSegment seg bytes frame).mapAddressRange root (seg.config frame)
        (roundDown seg.pVaddr pageSize + roundUp (seg.memSize bytes) pageSize)
        (frame + roundUp (seg.memSize bytes) pageSize) = (true, s2) ∧
      s2.loadSegments root (acc ++ [.user frame ⟨seg.memSize bytes, pageSize⟩]) rest =
        .ok (some backings, s')) := by
  rw [loadSegments] at h
  split at h
  · next htype => exact .inl ⟨fun hloaded => htype hloaded.1, h⟩
  next htype =>
  split at h
  · cases h
  next hbase =>
  split at h
  · next hzero => exact .inl ⟨fun hloaded => hloaded.2 hzero, h⟩
  next hsize =>
  split at h
  · cases h
  next bytes hdata =>
  simp only at h
  split at h
  · cases h
  next frame s1 halloc =>
  split at h
  · cases h
  next hwindow =>
  split at h
  · cases h
  next s2 hmap =>
  right
  refine ⟨⟨not_not.mp htype, hsize⟩, Nat.le_of_not_lt hbase, ?_⟩
  exact ⟨bytes, frame, s1, s2, hdata, halloc, hwindow, hmap, h⟩

theorem loadElf_some {elf : Option (List Segment)} {info : ElfInfo}
    (h : s.loadElf root elf = .ok (some info, s')) :
    ∃ segs, elf = some segs ∧ s.loadSegments root [] segs = .ok (some info.segments, s') := by
  cases elf with
  | none => cases h
  | some segs =>
    simp only [loadElf] at h
    split at h
    · cases h
    · cases h
    next backings s1 hload =>
    split at h
    · cases h
    · cases h
      exact ⟨segs, rfl, hload⟩

end State

/-- A readable and executable segment with one byte in the file. -/
def oneByteSegment : Segment where
  pType := .load
  pFlags := 5
  pVaddr := userTextBase
  pFilesz := 1
  pMemsz := 1
  data := some [7]
  vaddr_lt := by decide
  memsz_lt := by decide
  data_length := by simp

/-- The same byte, at the start of the private window. -/
def strayingSegment : Segment where
  pType := .load
  pFlags := 5
  pVaddr := uprocPrivBase
  pFilesz := 1
  pMemsz := 1
  data := some [7]
  vaddr_lt := by decide
  memsz_lt := oneByteSegment.memsz_lt
  data_length := oneByteSegment.data_length

end Orbit.Mem
