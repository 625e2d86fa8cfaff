import Mathlib.Data.Nat.Bitwise

/-!
Physical memory as a function from addresses to bytes, with the writes a kernel
makes: filling a range, copying bytes in, and storing a 64-bit word.
-/

namespace Paging

/-- `a` lies in the `len` bytes at `base`. -/
def Within (base len a : Nat) : Prop := base ≤ a ∧ a < base + len

instance (base len a : Nat) : Decidable (Within base len a) :=
  inferInstanceAs (Decidable (_ ∧ _))

structure Ram where
  byte : Nat → UInt8

/-- `n` bytes at `a`, least significant first. -/
def littleEndian (f : Nat → UInt8) : Nat → Nat → Nat
  | _, 0 => 0
  | a, n + 1 => (f a).toNat + 256 * littleEndian f (a + 1) n

theorem littleEndian_congr {f g : Nat → UInt8} {a n : Nat}
    (h : ∀ x, Within a n x → f x = g x) : littleEndian f a n = littleEndian g a n := by
  induction n generalizing a with
  | zero => rfl
  | succ n ih =>
    have hrest : littleEndian f (a + 1) n = littleEndian g (a + 1) n := by
      apply ih
      intro x hx
      exact h x ⟨by have := hx.1; omega, by have := hx.2; omega⟩
    simp only [littleEndian, hrest, h a ⟨Nat.le_refl a, by omega⟩]

theorem littleEndian_of_bytes {f : Nat → UInt8} {a n v : Nat}
    (h : ∀ i, i < n → f (a + i) = UInt8.ofNat (v / 256 ^ i)) :
    littleEndian f a n = v % 256 ^ n := by
  induction n generalizing a v with
  | zero => simp [littleEndian, Nat.mod_one]
  | succ n ih =>
    have hrest : littleEndian f (a + 1) n = v / 256 % 256 ^ n := by
      apply ih
      intro i hi
      have hbyte := h (i + 1) (by omega)
      rw [Nat.pow_succ', ← Nat.div_div_eq_div_mul] at hbyte
      rw [← hbyte]
      congr 1
      omega
    have hfirst : (f a).toNat = v % 256 := by
      have hbyte := h 0 (by omega)
      simp only [Nat.add_zero, Nat.pow_zero, Nat.div_one] at hbyte
      simp [hbyte]
    rw [littleEndian, hrest, hfirst, Nat.pow_succ', Nat.mod_mul]

theorem littleEndian_zero {f : Nat → UInt8} {a n : Nat} (h : ∀ x, Within a n x → f x = 0) :
    littleEndian f a n = 0 := by
  have hbytes : littleEndian f a n = 0 % 256 ^ n := by
    apply littleEndian_of_bytes
    intro i hi
    simp [h (a + i) ⟨by omega, by omega⟩]
  simpa using hbytes

namespace Ram

/-- `write_bytes(base, v, len)` -/
def fill (r : Ram) (base len : Nat) (v : UInt8) : Ram where
  byte a := if Within base len a then v else r.byte a

/-- `copy_from_slice` -/
def copy (r : Ram) (base : Nat) (data : List UInt8) : Ram where
  byte a := if Within base data.length a then data.getD (a - base) 0 else r.byte a

def word (r : Ram) (a : Nat) : Nat := littleEndian r.byte a 8

/-- Store a 64-bit value. -/
def setWord (r : Ram) (base v : Nat) : Ram where
  byte a := if Within base 8 a then UInt8.ofNat (v / 256 ^ (a - base)) else r.byte a

/-- The two memories hold the same bytes outside a range. -/
def SameOutside (r r' : Ram) (base len : Nat) : Prop :=
  ∀ a, ¬ Within base len a → r'.byte a = r.byte a

theorem sameOutside_fill (r : Ram) (base len : Nat) (v : UInt8) :
    r.SameOutside (r.fill base len v) base len :=
  fun _ ha => if_neg ha

theorem sameOutside_copy (r : Ram) (base : Nat) (data : List UInt8) :
    r.SameOutside (r.copy base data) base data.length :=
  fun _ ha => if_neg ha

theorem sameOutside_setWord (r : Ram) (base v : Nat) : r.SameOutside (r.setWord base v) base 8 :=
  fun _ ha => if_neg ha

theorem word_setWord (r : Ram) (base v : Nat) : (r.setWord base v).word base = v % 2 ^ 64 := by
  have hbytes : littleEndian (r.setWord base v).byte base 8 = v % 256 ^ 8 := by
    apply littleEndian_of_bytes
    intro i hi
    have hin : Within base 8 (base + i) := ⟨by omega, by omega⟩
    simp only [setWord, if_pos hin, Nat.add_sub_cancel_left]
  simpa [word] using hbytes

theorem word_congr {r r' : Ram} {a : Nat} (h : ∀ x, Within a 8 x → r'.byte x = r.byte x) :
    r'.word a = r.word a :=
  littleEndian_congr h

theorem word_fill_zero {r : Ram} {base len a : Nat} (h : ∀ x, Within a 8 x → Within base len x) :
    (r.fill base len 0).word a = 0 :=
  littleEndian_zero fun x hx => if_pos (h x hx)

end Ram

end Paging
