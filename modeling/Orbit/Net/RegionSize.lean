import Orbit.Net.Channel

/-!
The size of a channel's region: what the runtime asks for when a program wants rings of some
capacity, and where the two rings lie in a region the kernel accepts.
-/

namespace Orbit.Net

open Mem Paging

/-- `pick_region_size`; the product stays far below the word size for every capacity that gets
there, so it never saturates. -/
def pickRegionSize (desired : Nat) : Option Nat :=
  if desired ≤ capacityFor ncMinRegionSize then some ncMinRegionSize
  else if capacityFor ncMaxRegionSize < desired then none
  else normalizeRegionSize (roundUp (desired * 2) pageSize)

/-- The bytes of a region that are no payload: the page header and the header of each ring. -/
def regionOverhead : Nat := ncTxOff + 2 * (queueHeader - 1)

/-- Rounding up to a page has left room for the headers, or the smallest region will do. -/
def RoomForHeaders (desired : Nat) : Prop :=
  desired ≤ capacityFor ncMinRegionSize ∨
    desired * 2 + regionOverhead ≤ roundUp (desired * 2) pageSize

theorem roundUp_page (n : Nat) : ∃ k, roundUp n pageSize = 4096 * k ∧ n ≤ 4096 * k ∧
    4096 * k < n + 4096 := by
  rw [roundUp]
  split
  · exact ⟨n / 4096, by simp only [pageSize] at *; omega⟩
  · exact ⟨n / 4096 + 1, by simp only [pageSize] at *; omega⟩

theorem capacityFor_pages {k : Nat} (hk : 0 < k) : capacityFor (4096 * k) + 631 = 2048 * k := by
  simp only [capacityFor, queueLenFor, ncTxOff, queueHeader]
  omega

/-- Whole pages between the two bounds are left as they are. -/
theorem normalizeRegionSize_pages {k : Nat} (hk : 0 < k) (hmax : k ≤ 2048) :
    normalizeRegionSize (4096 * k) = some (4096 * k) := by
  have hclamp : min (max (4096 * k) ncMinRegionSize) ncMaxRegionSize = 4096 * k := by
    simp only [ncMinRegionSize, ncMaxRegionSize]
    omega
  have hround : roundUp (4096 * k) pageSize = 4096 * k := if_pos (by simp only [pageSize]; omega)
  have hlow : ¬ ncMaxRegionSize < 4096 * k := by
    simp only [ncMaxRegionSize]
    omega
  have hhigh : ¬ 4096 * k < ncMinRegionSize := by
    simp only [ncMinRegionSize]
    omega
  rw [normalizeRegionSize, if_neg (by omega)]
  dsimp only
  rw [hclamp, hround, if_neg hlow, if_neg hhigh]

theorem normalizeRegionSize_some {requested size : Nat}
    (h : normalizeRegionSize requested = some size) :
    ∃ k, size = 4096 * k ∧ 0 < k := by
  unfold normalizeRegionSize at h
  obtain ⟨k, hk, -⟩ := roundUp_page (min (max requested ncMinRegionSize) ncMaxRegionSize)
  dsimp only at h
  rw [hk] at h
  split at h
  · cases h
  split at h
  · cases h
  split at h
  · cases h
  next hlow =>
  cases h
  exact ⟨k, rfl, by simp only [ncMinRegionSize] at hlow; omega⟩

/-- The size that is picked is one the kernel keeps. It holds rings of the desired capacity
exactly when the rounding has left room for the headers. -/
theorem pick_region_size_exact (desired requested size : Nat) :
    (desired ≤ capacityFor ncMaxRegionSize → ∃ picked, pickRegionSize desired = some picked ∧
      normalizeRegionSize picked = some picked ∧
        (desired ≤ capacityFor picked ↔ RoomForHeaders desired)) ∧
    (normalizeRegionSize requested = some size →
      ncTxOff % 8 = 0 ∧ (ncTxOff + queueLenFor size) % 8 = 0 ∧
        queueHeader - 1 + capacityFor size = queueLenFor size ∧
        ncTxOff + queueLenFor size + queueLenFor size ≤ size) := by
  have hmin : capacityFor ncMinRegionSize = 1417 := by decide
  have hmax : capacityFor ncMaxRegionSize = 4193673 := by decide
  constructor
  · intro hle
    rw [pickRegionSize]
    by_cases hsmall : desired ≤ capacityFor ncMinRegionSize
    · rw [if_pos hsmall]
      exact ⟨_, rfl, by decide, iff_of_true hsmall (.inl hsmall)⟩
    obtain ⟨k, hround, hlow, hhigh⟩ := roundUp_page (desired * 2)
    have hk : 0 < k ∧ k ≤ 2048 := by omega
    have hcap := capacityFor_pages hk.1
    have hsize := normalizeRegionSize_pages hk.1 hk.2
    rw [if_neg hsmall, if_neg (Nat.not_lt.mpr hle), hround]
    refine ⟨4096 * k, hsize, hsize, ?_⟩
    simp only [RoomForHeaders, hround, regionOverhead, ncTxOff, queueHeader]
    omega
  intro h
  obtain ⟨k, rfl, hk⟩ := normalizeRegionSize_some h
  have hlen : queueLenFor (4096 * k) + 192 = 2048 * k := by
    simp only [queueLenFor, ncTxOff]
    omega
  simp only [capacityFor, ncTxOff, queueHeader]
  refine ⟨trivial, ?_, ?_, ?_⟩ <;> omega

theorem pick_region_size_two_pages :
    pickRegionSize 2500 = some 8192 ∧ 2500 ≤ capacityFor 8192 ∧
      ncTxOff + 2 * queueLenFor 8192 ≤ 8192 := by
  obtain ⟨size, hpick, hkept, hroom⟩ := (pick_region_size_exact 2500 0 0).1 (by decide)
  have hsize : size = 8192 := Option.some.inj (hpick.symm.trans (by decide))
  subst hsize
  have hinside := ((pick_region_size_exact 0 8192 8192).2 hkept).2.2.2
  exact ⟨hpick, hroom.mpr (.inr (by decide)), by omega⟩

/-- Half a page is asked for, and the one page that is picked holds 1417 bytes a ring. -/
theorem half_page_is_short :
    2048 ≤ capacityFor ncMaxRegionSize ∧ pickRegionSize 2048 = some 4096 ∧
      capacityFor 4096 < 2048 := by
  decide

end Orbit.Net
