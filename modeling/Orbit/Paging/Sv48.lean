import Orbit.Paging.Ram

/-!
Entries and indices of a four-level page table. A table at depth `l` (3 is the
root) has 512 entries, each covering `pageBytes l` bytes of address space; an
entry is a 64-bit word with its flags in the low ten bits and a page number
above them.
-/

namespace Paging

def pageSize : Nat := 4096

/-- Bytes of address space one entry of a table at depth `l` covers. -/
def pageBytes (l : Nat) : Nat := pageSize * 512 ^ l

/-- `VirtAddr::vpn_n` -/
def vpn (l va : Nat) : Nat := va / pageBytes l % 512

/-- The number of the entry for `va` among all the entries at depth `l`. -/
def vslot (l va : Nat) : Nat := va / pageBytes l % 512 ^ (4 - l)

theorem pageBytes_pos (l : Nat) : 0 < pageBytes l :=
  Nat.mul_pos (by decide) (Nat.pow_pos (by decide))

theorem pageBytes_succ (l : Nat) : pageBytes (l + 1) = pageBytes l * 512 := by
  rw [pageBytes, pageBytes, Nat.pow_succ, Nat.mul_assoc]

theorem pageSize_dvd_pageBytes (l : Nat) : pageSize ∣ pageBytes l := ⟨512 ^ l, rfl⟩

theorem vslot_top (va : Nat) : vslot 4 va = 0 := by
  simp [vslot, Nat.mod_one]

/-- An entry is found by its table and its index in it. -/
theorem vslot_eq {l va : Nat} (hl : l < 4) : vslot l va = vslot (l + 1) va * 512 + vpn l va := by
  have hexp : 4 - l = (4 - (l + 1)) + 1 := by omega
  rw [vslot, vslot, vpn, hexp, Nat.pow_succ', Nat.mod_mul, pageBytes_succ, ← Nat.div_div_eq_div_mul]
  omega

theorem vpn_lt (l va : Nat) : vpn l va < 512 := Nat.mod_lt _ (by decide)

theorem vslot_div {l va : Nat} (hl : l < 4) : vslot l va / 512 = vslot (l + 1) va := by
  have := vpn_lt l va
  rw [vslot_eq hl]
  omega

theorem vslot_mod {l va : Nat} (hl : l < 4) : vslot l va % 512 = vpn l va := by
  have := vpn_lt l va
  rw [vslot_eq hl]
  omega

namespace Pte

def isValid (e : Nat) : Bool := e.testBit 0

def isLeaf (e : Nat) : Bool := e &&& 0xE != 0

def isUserPage (e : Nat) : Bool := e.testBit 4

def supervisorBits (e : Nat) : Nat := e / 2 ^ 8 % 4

def ppn (e : Nat) : Nat := e / 2 ^ 10

/-- The page number still at its place in the entry. -/
def getPpn (e : Nat) : Nat := e &&& 0x3FFFFFFFFFFC00

/-- The flags of a leaf: permissions, supervisor bits, and V, A and D. -/
def leafFlags (perms rsw : Nat) : Nat :=
  (perms &&& 0x3E) ||| ((rsw &&& 3) <<< 8) ||| 1 ||| 0x40 ||| 0x80

def packLeaf (ppn perms rsw : Nat) : Nat := (ppn <<< 10) ||| leafFlags perms rsw

def packTable (ppn : Nat) : Nat := (ppn <<< 10) ||| 1

private theorem leafFlags_facts : ∀ x < 64, ∀ y < 4,
    (x ||| (y <<< 8) ||| 1 ||| 0x40 ||| 0x80) < 1024 ∧
      isValid (x ||| (y <<< 8) ||| 1 ||| 0x40 ||| 0x80) = true ∧
      isLeaf (x ||| (y <<< 8) ||| 1 ||| 0x40 ||| 0x80) = isLeaf x ∧
      isUserPage (x ||| (y <<< 8) ||| 1 ||| 0x40 ||| 0x80) = isUserPage x ∧
      supervisorBits (x ||| (y <<< 8) ||| 1 ||| 0x40 ||| 0x80) = y := by
  decide +kernel

private theorem and_three_lt (rsw : Nat) : rsw &&& 3 < 4 :=
  Nat.lt_of_le_of_lt Nat.and_le_right (by decide)

private theorem and_perms_lt (perms : Nat) : perms &&& 0x3E < 64 :=
  Nat.lt_of_le_of_lt Nat.and_le_right (by decide)

theorem isLeaf_and_perms (perms : Nat) : isLeaf (perms &&& 0x3E) = isLeaf perms := by
  simp only [isLeaf, Nat.and_assoc]
  rfl

theorem isUserPage_and_perms (perms : Nat) : isUserPage (perms &&& 0x3E) = isUserPage perms := by
  simp [isUserPage, show Nat.testBit 0x3E 4 = true by decide]

theorem leafFlags_lt (perms rsw : Nat) : leafFlags perms rsw < 1024 :=
  (leafFlags_facts _ (and_perms_lt perms) _ (and_three_lt rsw)).1

/-- The flags of an entry are those of its low ten bits. -/
theorem low_bits (e : Nat) : isValid (e % 1024) = isValid e ∧ isLeaf (e % 1024) = isLeaf e ∧
    isUserPage (e % 1024) = isUserPage e ∧ supervisorBits (e % 1024) = supervisorBits e := by
  have hmod : ∀ i < 10, (e % 2 ^ 10).testBit i = e.testBit i := by
    intro i hi
    rw [Nat.testBit_mod_two_pow, decide_eq_true hi, Bool.true_and]
  refine ⟨hmod 0 (by decide), ?_, hmod 4 (by decide), ?_⟩
  · have hand : e % 2 ^ 10 &&& 0xE = e &&& 0xE := by
      rw [← Nat.and_two_pow_sub_one_eq_mod, Nat.and_assoc]
      rfl
    simp only [isLeaf, show (1024 : Nat) = 2 ^ 10 from rfl, hand]
  · simp only [supervisorBits]
    omega

private theorem pack_split {p flags : Nat} (hflags : flags < 1024) :
    (p <<< 10 ||| flags) % 1024 = flags ∧ (p <<< 10 ||| flags) / 2 ^ 10 = p := by
  rw [← Nat.shiftLeft_add_eq_or_of_lt (by simpa using hflags), Nat.shiftLeft_eq]
  omega

/-- What a leaf entry reads back as. -/
theorem packLeaf_spec (p perms rsw : Nat) : isValid (packLeaf p perms rsw) = true ∧
    isLeaf (packLeaf p perms rsw) = isLeaf perms ∧
      isUserPage (packLeaf p perms rsw) = isUserPage perms ∧
      supervisorBits (packLeaf p perms rsw) = rsw &&& 3 ∧ ppn (packLeaf p perms rsw) = p := by
  obtain ⟨hlow, hppn⟩ := pack_split (p := p) (leafFlags_lt perms rsw)
  obtain ⟨hvalid, hleaf, huser, hbits⟩ := low_bits (packLeaf p perms rsw)
  obtain ⟨-, fvalid, fleaf, fuser, fbits⟩ :=
    leafFlags_facts _ (and_perms_lt perms) _ (and_three_lt rsw)
  rw [packLeaf, hlow] at hvalid hleaf huser hbits
  rw [packLeaf, ← hvalid, ← hleaf, ← huser, ← hbits, leafFlags, fvalid, fleaf, fuser, fbits,
    isLeaf_and_perms, isUserPage_and_perms]
  exact ⟨rfl, rfl, rfl, rfl, hppn⟩

/-- What a pointer to a table reads back as. -/
theorem packTable_spec (p : Nat) : isValid (packTable p) = true ∧ isLeaf (packTable p) = false ∧
    ppn (packTable p) = p := by
  obtain ⟨hlow, hppn⟩ := pack_split (p := p) (show 1 < 1024 by decide)
  obtain ⟨hvalid, hleaf, -⟩ := low_bits (packTable p)
  rw [packTable, hlow] at hvalid hleaf
  rw [packTable, ← hvalid, ← hleaf]
  exact ⟨by decide, by decide, hppn⟩

theorem packTable_lt {p : Nat} (hp : p < 2 ^ 44) : packTable p < 2 ^ 54 := by
  rw [packTable, ← Nat.shiftLeft_add_eq_or_of_lt (by decide), Nat.shiftLeft_eq]
  omega

theorem packLeaf_lt {p perms rsw : Nat} (hp : p < 2 ^ 44) : packLeaf p perms rsw < 2 ^ 54 := by
  have := leafFlags_lt perms rsw
  rw [packLeaf, ← Nat.shiftLeft_add_eq_or_of_lt (by simpa using this), Nat.shiftLeft_eq]
  omega

/-- The two ways the source reads a page number agree on an entry of 54 bits. -/
theorem getPpn_eq {e : Nat} (he : e < 2 ^ 54) : getPpn e = ppn e * 2 ^ 10 := by
  have hmask : (0x3FFFFFFFFFFC00 : Nat) = (2 ^ 44 - 1) <<< 10 := by decide
  have hppn : ppn e < 2 ^ 44 := by rw [ppn]; omega
  rw [getPpn, hmask, ← Nat.shiftLeft_eq]
  apply Nat.eq_of_testBit_eq
  intro i
  simp only [Nat.testBit_and, Nat.testBit_shiftLeft, ge_iff_le, Nat.testBit_two_pow_sub_one, ppn,
    Nat.testBit_div_two_pow]
  rcases Nat.lt_or_ge i 10 with hlt | hge
  · simp [Nat.not_le.mpr hlt]
  rcases Nat.lt_or_ge (i - 10) 44 with hin | hout
  · simp [hge, hin]
  have hhigh : e.testBit i = false := by
    apply Nat.testBit_lt_two_pow
    exact Nat.lt_of_lt_of_le he (Nat.pow_le_pow_right (by decide) (by omega))
  simp [hhigh, Nat.sub_add_cancel hge]

end Pte

end Paging
