import Orbit.Paging.FrameAllocator
import Orbit.Paging.Sv48

/-!
The user address space: where the ELF image and private and shared mappings go, the checks the
syscall layer makes on user addresses, and the page size a mapping is made with.
-/

namespace Orbit.Mem

open Paging

def largePage : Nat := 2 * 1024 * 1024

def userNullGuardEnd : Nat := largePage

def uprocStackBase : Nat := 0x10000000
def uprocStackGrain : Nat := largePage
def uprocTlsMax : Nat := uprocStackGrain

def userTextBase : Nat := 0x220000000
def userArgvBase : Nat := 0x2FFFFF000
def userEnvpBase : Nat := 0x2FFFFE000

def uprocPrivBase : Nat := 0x300000000
def uprocPrivEnd : Nat := 0x400000000000
def uprocSharedBase : Nat := uprocPrivEnd
def uprocSharedEnd : Nat := 0x7E0000000000

def userTrapFrameBase : Nat := uprocSharedEnd
def userVaEnd : Nat := userTrapFrameBase

/-- `checked_add` on 64 bits. -/
def checkedAdd (a b : Nat) : Option Nat := if a + b < 2 ^ 64 then some (a + b) else none

/-- `[vaddr, vaddr + len)` lies between `lo` and `hi` without overflow. -/
def rangeOk (lo hi vaddr len : Nat) : Bool :=
  if vaddr < lo then false
  else match checkedAdd vaddr len with
    | some stop => stop ≤ hi
    | none => false

def userRangeOk : Nat → Nat → Bool := rangeOk userNullGuardEnd userVaEnd
def userPrivRangeOk : Nat → Nat → Bool := rangeOk uprocPrivBase uprocPrivEnd
def userSharedRangeOk : Nat → Nat → Bool := rangeOk uprocSharedBase uprocSharedEnd

theorem rangeOk_iff {lo hi vaddr len : Nat} (hhi : hi < 2 ^ 64) :
    rangeOk lo hi vaddr len = true ↔ lo ≤ vaddr ∧ vaddr + len ≤ hi := by
  rw [rangeOk, checkedAdd]
  split
  · next h => simp only [Bool.false_eq_true, false_iff, not_and]; omega
  split
  · next h => split at h <;> simp_all
  next h =>
  split at h
  · cases h
  · simp only [Bool.false_eq_true, false_iff, not_and]
    omega

/-- `UserVa::new` -/
def userVa (raw : Nat) : Bool := userRangeOk raw 1

namespace PagePermissions

def r : Nat := 2
def w : Nat := 4
def x : Nat := 8
def u : Nat := 16

end PagePermissions

/-- `SupervisorTag` -/
inductive SupervisorTag where
  | none
  | sharedRevocable
  deriving DecidableEq, Repr

def SupervisorTag.bits : SupervisorTag → Nat
  | .none => 0
  | .sharedRevocable => 1

structure MappingGeometry where
  align : Nat
  levels : Nat

def selectMappingGeometry (vaddr size : Nat) : Option MappingGeometry :=
  if vaddr % largePage = 0 ∧ size % largePage = 0 then some ⟨largePage, 3⟩
  else if vaddr % pageSize = 0 ∧ size % pageSize = 0 then some ⟨pageSize, 4⟩
  else none

theorem selectMappingGeometry_spec {vaddr size : Nat} {g : MappingGeometry}
    (h : selectMappingGeometry vaddr size = some g) :
    vaddr % g.align = 0 ∧ size % g.align = 0 ∧ 4 - g.levels < 3 ∧ g.levels ≤ 4 ∧
      g.align = pageBytes (4 - g.levels) := by
  rw [selectMappingGeometry] at h
  split at h
  · next hlarge =>
    cases h
    exact ⟨hlarge.1, hlarge.2, by decide, by decide, by decide⟩
  split at h
  · next hsmall =>
    cases h
    exact ⟨hsmall.1, hsmall.2, by decide, by decide, by decide⟩
  · cases h

/-- `round_usize_up` -/
def roundUp (n modulo : Nat) : Nat := if n % modulo = 0 then n else (n / modulo + 1) * modulo

/-- `round_u64_down` -/
def roundDown (n modulo : Nat) : Nat := n / modulo * modulo

theorem roundUp_mod (n m : Nat) : roundUp n m % m = 0 := by
  rw [roundUp]
  split
  · assumption
  · exact Nat.mul_mod_left _ _

/-- Rounding up stays below any multiple the number is below. -/
theorem roundUp_le {n m k : Nat} (hk : k % m = 0) (hle : n ≤ k) : roundUp n m ≤ k := by
  rw [roundUp]
  split
  · exact hle
  next hn =>
  obtain ⟨d, rfl⟩ := Nat.dvd_of_mod_eq_zero hk
  have hlt : n < m * d := by
    rcases Nat.lt_or_ge n (m * d) with hlt | hge
    · exact hlt
    have : n = m * d := Nat.le_antisymm hle hge
    rw [this, Nat.mul_mod_right] at hn
    exact absurd rfl hn
  rw [Nat.mul_comm]
  apply Nat.mul_le_mul_left
  exact Nat.div_lt_of_lt_mul hlt

end Orbit.Mem
