import Mathlib.Tactic.Ring
import Orbit.Paging.Ram

/-!
The buddy allocator behind every frame pool. A free list per size class holds the
starts of its free blocks; taking a block splits a larger one, and a block given
back merges with its buddy as long as the buddy is free. Everything is built from
inserting and removing one block, and those two operations carry the proofs: what
is free afterwards, and that the free blocks stay aligned and apart.
-/

namespace Paging

/-- Size classes of an allocator; class `i` holds blocks of `2 ^ i` bytes. -/
def orders : Nat := 33

/-- Physical addresses lie below this bound. -/
def physEnd : Nat := 2 ^ 56

/-- `usize::next_power_of_two`, which wraps around beyond 64 bits. -/
def nextPowerOfTwo (n : Nat) : Nat := if n ≤ 1 then 1 else 2 ^ (Nat.log2 (n - 1) + 1) % 2 ^ 64

structure Layout where
  size : Nat
  align : Nat
  deriving DecidableEq, Repr

variable {l : Layout} {base k : Nat}

namespace Layout

/-- The size rounded up to the alignment must fit a signed word. -/
def fromSizeAlign (size align : Nat) : Option Layout :=
  if size + (align - 1) < 2 ^ 63 then some ⟨size, align⟩ else none

/-- Bytes that an allocation with this layout takes from its pool. -/
def span (l : Layout) : Nat := max (nextPowerOfTwo l.size) l.align

end Layout

theorem le_nextPowerOfTwo {n : Nat} (hn : n ≤ 2 ^ 63) : n ≤ nextPowerOfTwo n := by
  rw [nextPowerOfTwo]
  split
  · assumption
  next h1 =>
  have hlog : Nat.log2 (n - 1) < 63 := (Nat.log2_lt (by omega)).mpr (by omega)
  rw [Nat.mod_eq_of_lt (Nat.pow_lt_pow_right (by decide) (by omega))]
  have := Nat.lt_log2_self (n := n - 1)
  omega

theorem nextPowerOfTwo_pow (n : Nat) : nextPowerOfTwo n = 0 ∨ ∃ k, nextPowerOfTwo n = 2 ^ k := by
  rw [nextPowerOfTwo]
  split
  · exact .inr ⟨0, rfl⟩
  rcases Nat.lt_or_ge (Nat.log2 (n - 1) + 1) 64 with hlt | hge
  · exact .inr ⟨_, Nat.mod_eq_of_lt (Nat.pow_lt_pow_right (by decide) hlt)⟩
  · exact .inl (Nat.mod_eq_zero_of_dvd (Nat.pow_dvd_pow 2 hge))

/-- Layouts whose alignment is a power of two. -/
def Layout.Wf (l : Layout) : Prop := ∃ k, l.align = 2 ^ k

theorem Layout.Wf.span_pow (h : l.Wf) : ∃ k, l.span = 2 ^ k := by
  obtain ⟨j, hj⟩ := h
  rw [span, hj]
  rcases nextPowerOfTwo_pow l.size with hzero | ⟨i, hi⟩
  · exact ⟨j, by rw [hzero, Nat.zero_max]⟩
  rw [hi]
  rcases max_choice (2 ^ i) (2 ^ j) with hmax | hmax
  · exact ⟨i, hmax⟩
  · exact ⟨j, hmax⟩

theorem Layout.size_le_span (hl : l.size ≤ 2 ^ 63) : l.size ≤ l.span :=
  (le_nextPowerOfTwo hl).trans (le_max_left _ _)

/-- A block is aligned to what its layout asks for. -/
theorem Layout.Wf.align_dvd_span (h : l.Wf) : l.align ∣ l.span := by
  obtain ⟨i, hi⟩ := h.span_pow
  obtain ⟨j, hj⟩ := h
  have hle : l.align ≤ l.span := le_max_right _ _
  rw [hi, hj] at *
  exact Nat.pow_dvd_pow 2 ((Nat.pow_le_pow_iff_right (by decide)).mp hle)

structure FrameAllocator where
  freeList : Nat → List Nat

namespace FrameAllocator

/-- Put a start into the ordered free list of its class. -/
def insert (f : FrameAllocator) (cls start : Nat) : FrameAllocator :=
  ⟨fun i => if i = cls then
      (f.freeList i).filter (· < start) ++ start :: (f.freeList i).filter (start < ·)
    else f.freeList i⟩

def remove (f : FrameAllocator) (cls start : Nat) : FrameAllocator :=
  ⟨fun i => if i = cls then (f.freeList i).filter (· ≠ start) else f.freeList i⟩

/-- Halve the first block of class `cls + d`, then of the class below, down to `cls`. -/
def split (f : FrameAllocator) (cls : Nat) : Nat → Option FrameAllocator
  | 0 => some f
  | d + 1 =>
    match (f.freeList (cls + d + 1)).head? with
    | none => none
    | some block =>
      split (((f.remove (cls + d + 1) block).insert (cls + d) (block + 2 ^ (cls + d))).insert
        (cls + d) block) cls d

def allocPowerOfTwo (f : FrameAllocator) (size : Nat) : Option (Nat × FrameAllocator) :=
  let cls := Nat.log2 size
  match (List.range' cls (orders - cls)).find? (fun i => !(f.freeList i).isEmpty) with
  | none => none
  | some i =>
    match f.split cls (i - cls) with
    | none => none
    | some f =>
      match (f.freeList cls).head? with
      | none => none
      | some start => some (start, f.remove cls start)

def allocAligned (f : FrameAllocator) (layout : Layout) : Option (Nat × FrameAllocator) :=
  f.allocPowerOfTwo layout.span

/-- Merge a free block with its buddy while there is one; `fuel` counts the classes
left above `cls`. -/
def merge (f : FrameAllocator) : Nat → Nat → Nat → FrameAllocator
  | 0, _, _ => f
  | fuel + 1, cls, start =>
    let buddy := start ^^^ 2 ^ cls
    if buddy ∈ f.freeList cls then (f.remove cls buddy).merge fuel (cls + 1) (min start buddy)
    else f.insert cls start

def deallocPowerOfTwo (f : FrameAllocator) (start size : Nat) : FrameAllocator :=
  f.merge (orders - Nat.log2 size) (Nat.log2 size) start

def deallocAligned (f : FrameAllocator) (start : Nat) (layout : Layout) : FrameAllocator :=
  f.deallocPowerOfTwo start layout.span

/-- Some free block holds the byte `a`. -/
def Free (f : FrameAllocator) (a : Nat) : Prop :=
  ∃ i, i < orders ∧ ∃ b ∈ f.freeList i, Within b (2 ^ i) a

instance (f : FrameAllocator) (a : Nat) : Decidable (f.Free a) :=
  inferInstanceAs (Decidable (∃ i, i < orders ∧ ∃ b ∈ f.freeList i, Within b (2 ^ i) a))

/-- The free blocks are aligned to their size and do not overlap. -/
structure Wf (f : FrameAllocator) : Prop where
  order : ∀ {i b}, b ∈ f.freeList i → i < orders
  aligned : ∀ {i b}, b ∈ f.freeList i → 2 ^ i ∣ b
  bound : ∀ {i b}, b ∈ f.freeList i → b + 2 ^ i ≤ physEnd
  apart : ∀ {i j b c a}, b ∈ f.freeList i → c ∈ f.freeList j → Within b (2 ^ i) a →
    Within c (2 ^ j) a → i = j ∧ b = c

variable {f f' : FrameAllocator} {cls i j start b c a d : Nat}

theorem mem_insert : c ∈ (f.insert cls start).freeList i ↔
    (i = cls ∧ c = start) ∨ c ∈ f.freeList i := by
  simp only [insert]
  split
  · simp only [List.mem_append, List.mem_filter, decide_eq_true_eq, List.mem_cons]
    constructor
    · rintro (⟨hc, -⟩ | rfl | ⟨hc, -⟩)
      · exact .inr hc
      · exact .inl ⟨‹_›, rfl⟩
      · exact .inr hc
    rintro (⟨-, rfl⟩ | hc)
    · exact .inr (.inl rfl)
    rcases Nat.lt_trichotomy c start with hlt | rfl | hgt
    · exact .inl ⟨hc, hlt⟩
    · exact .inr (.inl rfl)
    · exact .inr (.inr ⟨hc, hgt⟩)
  · simp [*]

theorem mem_remove : c ∈ (f.remove cls start).freeList i ↔
    c ∈ f.freeList i ∧ ¬ (i = cls ∧ c = start) := by
  simp only [remove]
  split
  · simp [*]
  · simp [*]

theorem Wf.free_of_mem (h : f.Wf) (hb : b ∈ f.freeList i) (ha : Within b (2 ^ i) a) : f.Free a :=
  ⟨i, h.order hb, b, hb, ha⟩

theorem Wf.remove (h : f.Wf) : (f.remove cls start).Wf where
  order hb := h.order (mem_remove.mp hb).1
  aligned hb := h.aligned (mem_remove.mp hb).1
  bound hb := h.bound (mem_remove.mp hb).1
  apart hb hc := h.apart (mem_remove.mp hb).1 (mem_remove.mp hc).1

theorem Wf.free_remove (h : f.Wf) (hb : b ∈ f.freeList i) :
    (f.remove i b).Free a ↔ f.Free a ∧ ¬ Within b (2 ^ i) a := by
  constructor
  · rintro ⟨j, hj, c, hc, ha⟩
    obtain ⟨hc, hne⟩ := mem_remove.mp hc
    exact ⟨⟨j, hj, c, hc, ha⟩, fun hin => hne (h.apart hc hb ha hin)⟩
  rintro ⟨⟨j, hj, c, hc, ha⟩, hout⟩
  refine ⟨j, hj, c, mem_remove.mpr ⟨hc, ?_⟩, ha⟩
  rintro ⟨rfl, rfl⟩
  exact hout ha

theorem free_insert (hi : i < orders) : (f.insert i b).Free a ↔ f.Free a ∨ Within b (2 ^ i) a := by
  constructor
  · rintro ⟨j, hj, c, hc, ha⟩
    rcases mem_insert.mp hc with ⟨rfl, rfl⟩ | hc
    · exact .inr ha
    · exact .inl ⟨j, hj, c, hc, ha⟩
  rintro (⟨j, hj, c, hc, ha⟩ | ha)
  · exact ⟨j, hj, c, mem_insert.mpr (.inr hc), ha⟩
  · exact ⟨i, hi, b, mem_insert.mpr (.inl ⟨rfl, rfl⟩), ha⟩

theorem Wf.insert (h : f.Wf) (hi : i < orders) (hdvd : 2 ^ i ∣ b) (hend : b + 2 ^ i ≤ physEnd)
    (hfresh : ∀ a, Within b (2 ^ i) a → ¬ f.Free a) : (f.insert i b).Wf where
  order hc := by
    rcases mem_insert.mp hc with ⟨rfl, -⟩ | hc
    · exact hi
    · exact h.order hc
  aligned hc := by
    rcases mem_insert.mp hc with ⟨rfl, rfl⟩ | hc
    · exact hdvd
    · exact h.aligned hc
  bound hc := by
    rcases mem_insert.mp hc with ⟨rfl, rfl⟩ | hc
    · exact hend
    · exact h.bound hc
  apart hb hc hab hac := by
    rcases mem_insert.mp hb with ⟨rfl, rfl⟩ | hold
    · rcases mem_insert.mp hc with ⟨rfl, rfl⟩ | hother
      · exact ⟨rfl, rfl⟩
      · exact absurd (h.free_of_mem hother hac) (hfresh _ hab)
    rcases mem_insert.mp hc with ⟨rfl, rfl⟩ | hother
    · exact absurd (h.free_of_mem hold hab) (hfresh _ hac)
    · exact h.apart hold hother hab hac

/-- Splitting keeps the free bytes. -/
theorem Wf.split (h : f.Wf) (hsplit : f.split cls d = some f') :
    f'.Wf ∧ ∀ a, f'.Free a ↔ f.Free a := by
  induction d generalizing f with
  | zero =>
    cases hsplit
    exact ⟨h, fun _ => Iff.rfl⟩
  | succ d ih =>
    simp only [FrameAllocator.split] at hsplit
    cases hhead : (f.freeList (cls + d + 1)).head? with
    | none => simp [hhead] at hsplit
    | some block =>
      simp only [hhead] at hsplit
      have hmem : block ∈ f.freeList (cls + d + 1) := List.mem_of_mem_head? hhead
      have hd : cls + d + 1 < orders := h.order hmem
      have hpow : 2 ^ (cls + d + 1) = 2 ^ (cls + d) + 2 ^ (cls + d) := by rw [Nat.pow_succ]; omega
      have hdvd : 2 ^ (cls + d) ∣ block :=
        (Nat.pow_dvd_pow 2 (by omega)).trans (h.aligned hmem)
      have hend : block + (2 ^ (cls + d) + 2 ^ (cls + d)) ≤ physEnd := hpow ▸ h.bound hmem
      have hremoved : ∀ a, (f.remove (cls + d + 1) block).Free a ↔
          f.Free a ∧ ¬ Within block (2 ^ (cls + d) + 2 ^ (cls + d)) a := fun a => by
        rw [h.free_remove hmem, hpow]
      have hupper : ((f.remove (cls + d + 1) block).insert (cls + d)
          (block + 2 ^ (cls + d))).Wf := by
        apply h.remove.insert (by omega) (Nat.dvd_add hdvd (Nat.dvd_refl _)) (by omega)
        intro a ha hfree
        exact ((hremoved a).mp hfree).2 ⟨by have := ha.1; omega, by have := ha.2; omega⟩
      have hlower : (((f.remove (cls + d + 1) block).insert (cls + d)
          (block + 2 ^ (cls + d))).insert (cls + d) block).Wf := by
        apply hupper.insert (by omega) hdvd (by omega)
        intro a ha hfree
        rcases (free_insert (by omega)).mp hfree with hfree | hin
        · exact ((hremoved a).mp hfree).2 ⟨ha.1, by have := ha.2; omega⟩
        have := ha.2
        have := hin.1
        omega
      obtain ⟨hwf, hfree⟩ := ih hlower hsplit
      refine ⟨hwf, fun a => ?_⟩
      rw [hfree, free_insert (by omega), free_insert (by omega), hremoved]
      constructor
      · rintro ((⟨hf, -⟩ | hin) | hin)
        · exact hf
        · apply h.free_of_mem hmem
          exact ⟨by have := hin.1; omega, by have := hin.2; omega⟩
        · apply h.free_of_mem hmem
          exact ⟨hin.1, by have := hin.2; omega⟩
      intro hf
      by_cases hin : Within block (2 ^ (cls + d) + 2 ^ (cls + d)) a
      · rcases Nat.lt_or_ge a (block + 2 ^ (cls + d)) with hlt | hge
        · exact .inr ⟨hin.1, hlt⟩
        · exact .inl (.inr ⟨hge, by have := hin.2; omega⟩)
      · exact .inl (.inl ⟨hf, hin⟩)

/-- A block taken from an allocator was free, is aligned to its size, and is not free
any more. -/
theorem Wf.allocAligned (h : f.Wf) (hl : l.Wf) (halloc : f.allocAligned l = some (b, f')) :
    f'.Wf ∧ l.span ∣ b ∧ b + l.span ≤ physEnd ∧ (∀ a, Within b l.span a → f.Free a) ∧
      ∀ a, f'.Free a → f.Free a ∧ ¬ Within b l.span a := by
  obtain ⟨k, hk⟩ := hl.span_pow
  simp only [FrameAllocator.allocAligned, allocPowerOfTwo, hk, Nat.log2_two_pow] at halloc
  cases hfind : (List.range' k (orders - k)).find? (fun i => !(f.freeList i).isEmpty) with
  | none => simp [hfind] at halloc
  | some i =>
    simp only [hfind] at halloc
    cases hsplit : f.split k (i - k) with
    | none => simp [hsplit] at halloc
    | some g =>
      obtain ⟨hg, hfree⟩ := h.split hsplit
      simp only [hsplit] at halloc
      cases hhead : (g.freeList k).head? with
      | none => simp [hhead] at halloc
      | some start =>
        simp only [hhead, Option.some.injEq, Prod.mk.injEq] at halloc
        obtain ⟨rfl, rfl⟩ := halloc
        have hmem : start ∈ g.freeList k := List.mem_of_mem_head? hhead
        rw [hk]
        refine ⟨hg.remove, hg.aligned hmem, hg.bound hmem, fun a ha => ?_, fun a ha => ?_⟩
        · exact (hfree a).mp (hg.free_of_mem hmem ha)
        · obtain ⟨hin, hout⟩ := (hg.free_remove hmem).mp ha
          exact ⟨(hfree a).mp hin, hout⟩

/-! A block that is given back. -/

/-- A block and its buddy make up the block of the next class. -/
theorem within_merged (hdvd : 2 ^ cls ∣ start) :
    2 ^ (cls + 1) ∣ min start (start ^^^ 2 ^ cls) ∧
      ∀ a, Within (min start (start ^^^ 2 ^ cls)) (2 ^ (cls + 1)) a ↔
        Within start (2 ^ cls) a ∨ Within (start ^^^ 2 ^ cls) (2 ^ cls) a := by
  obtain ⟨q, rfl⟩ := hdvd
  have hbuddy : 2 ^ cls * q ^^^ 2 ^ cls = 2 ^ cls * (q ^^^ 1) := by
    have hshift : (q ^^^ 1) <<< cls = q <<< cls ^^^ 1 <<< cls := Nat.shiftLeft_xor_distrib
    simp only [Nat.shiftLeft_eq, Nat.mul_comm _ (2 ^ cls), Nat.mul_one] at hshift
    exact hshift.symm
  have hhalf : (q ^^^ 1) / 2 = q / 2 := by
    rw [Nat.xor_div_two]
    exact Nat.xor_zero _
  have hbit : (q ^^^ 1) % 2 = (q + 1) % 2 := Nat.xor_mod_two_eq
  rw [hbuddy, Nat.pow_succ]
  simp only [Within]
  generalize 2 ^ cls = p
  rcases Nat.mod_two_eq_zero_or_one q with hq | hq
  · obtain ⟨m, rfl⟩ : ∃ m, q = 2 * m := ⟨q / 2, by omega⟩
    have hx : 2 * m ^^^ 1 = 2 * m + 1 := by omega
    rw [hx, Nat.mul_add, Nat.mul_one, Nat.min_eq_left (Nat.le_add_right _ _)]
    refine ⟨⟨m, by rw [Nat.mul_assoc]⟩, fun a => ?_⟩
    omega
  · obtain ⟨m, rfl⟩ : ∃ m, q = 2 * m + 1 := ⟨q / 2, by omega⟩
    have hx : 2 * m + 1 ^^^ 1 = 2 * m := by omega
    rw [hx, Nat.mul_add, Nat.mul_one, Nat.min_eq_right (Nat.le_add_right _ _)]
    refine ⟨⟨m, by rw [Nat.mul_assoc]⟩, fun a => ?_⟩
    omega

/-- Merging loses nothing in a pool without a block of the largest class. -/
theorem Wf.free_merge (h : f.Wf) (htop : f.freeList (orders - 1) = []) (hdvd : 2 ^ cls ∣ start)
    {fuel : Nat} (hfuel : fuel = orders - cls) (hcls : cls < orders) :
    (f.merge fuel cls start).Free a ↔ f.Free a ∨ Within start (2 ^ cls) a := by
  induction fuel generalizing f cls start with
  | zero => omega
  | succ fuel ih =>
    rw [merge]
    split
    · next hbuddy =>
      have hlow : cls + 1 < orders := by
        have hne : cls ≠ orders - 1 := fun heq => by
          rw [heq, htop] at hbuddy
          cases hbuddy
        omega
      have htop' : (f.remove cls (start ^^^ 2 ^ cls)).freeList (orders - 1) = [] := by
        apply List.eq_nil_iff_forall_not_mem.mpr
        intro b hb
        have hold := (mem_remove.mp hb).1
        rw [htop] at hold
        cases hold
      obtain ⟨hmin, hboth⟩ := within_merged hdvd
      rw [ih h.remove htop' hmin (by omega) hlow, hboth, h.free_remove hbuddy]
      constructor
      · rintro (⟨hfree, -⟩ | hself | hin)
        · exact .inl hfree
        · exact .inr hself
        · exact .inl (h.free_of_mem hbuddy hin)
      rintro (hfree | hself)
      · by_cases hin : Within (start ^^^ 2 ^ cls) (2 ^ cls) a
        · exact .inr (.inr hin)
        · exact .inl ⟨hfree, hin⟩
      · exact .inr (.inl hself)
    · exact free_insert hcls

/-- Splitting puts no block into a class above the one it starts at. -/
theorem freeList_split (hsplit : f.split cls d = some f') (hi : cls + d < i) :
    f'.freeList i = f.freeList i := by
  induction d generalizing f with
  | zero =>
    cases hsplit
    rfl
  | succ d ih =>
    simp only [FrameAllocator.split] at hsplit
    split at hsplit
    · cases hsplit
    rw [ih hsplit (by omega)]
    simp only [FrameAllocator.insert, FrameAllocator.remove]
    rw [if_neg (by omega), if_neg (by omega), if_neg (by omega)]

/-- A pool without a block of the largest class is as before when a block that was taken from it
is given back. -/
theorem Wf.free_dealloc_alloc (h : f.Wf) (htop : f.freeList (orders - 1) = []) (hl : l.Wf)
    (halloc : f.allocAligned l = some (b, f')) : (f'.deallocAligned b l).Free a ↔ f.Free a := by
  obtain ⟨-, hdvd, -, -, -⟩ := h.allocAligned hl halloc
  obtain ⟨k, hk⟩ := hl.span_pow
  rw [hk] at hdvd
  simp only [FrameAllocator.allocAligned, allocPowerOfTwo, hk, Nat.log2_two_pow] at halloc
  split at halloc
  · cases halloc
  next i hfind =>
  split at halloc
  · cases halloc
  next g hsplit =>
  split at halloc
  · cases halloc
  next start hhead =>
  cases halloc
  have hmem : b ∈ g.freeList k := List.mem_of_mem_head? hhead
  obtain ⟨hg, hfree⟩ := h.split hsplit
  have hi : k ≤ i ∧ i < orders - 1 := by
    have hrange := List.mem_range'_1.mp (List.mem_of_find?_eq_some hfind)
    have hsome := List.find?_some hfind
    have hne : i ≠ orders - 1 := fun heq => by simp [heq, htop] at hsome
    omega
  have htop' : (g.remove k b).freeList (orders - 1) = [] := by
    apply List.eq_nil_iff_forall_not_mem.mpr
    intro c hc
    have hold := (mem_remove.mp hc).1
    rw [freeList_split hsplit (by omega), htop] at hold
    cases hold
  rw [deallocAligned, deallocPowerOfTwo, hk, Nat.log2_two_pow,
    hg.remove.free_merge htop' hdvd rfl (by omega), hg.free_remove hmem, hfree]
  constructor
  · rintro (⟨hin, -⟩ | hin)
    · exact hin
    · exact (hfree a).mp (hg.free_of_mem hmem hin)
  · intro hin
    by_cases hblock : Within b (2 ^ k) a
    · exact .inr hblock
    · exact .inl ⟨hin, hblock⟩

/-! Pools with no free block but one. -/

def OneBlock (f : FrameAllocator) (k base : Nat) : Prop :=
  ∀ i b, b ∈ f.freeList i → i = k ∧ b = base

theorem oneBlock_of_list {blocks : List Nat} (h : ∀ b ∈ blocks, b = base) :
    OneBlock ⟨fun i => if i = k then blocks else []⟩ k base := by
  intro i b hb
  dsimp only at hb
  split at hb
  · next hi => exact ⟨hi, h b hb⟩
  · cases hb

theorem OneBlock.wf (h : f.OneBlock k base) (hk : k < orders) (hdvd : 2 ^ k ∣ base)
    (hend : base + 2 ^ k ≤ physEnd) : f.Wf := by
  refine ⟨fun {i b} hb => ?_, fun {i b} hb => ?_, fun {i b} hb => ?_,
    fun {i j b c a} hb hc _ _ => ?_⟩
  · rw [(h i b hb).1]
    exact hk
  · rw [(h i b hb).1, (h i b hb).2]
    exact hdvd
  · rw [(h i b hb).1, (h i b hb).2]
    exact hend
  · exact ⟨(h i b hb).1.trans (h j c hc).1.symm, (h i b hb).2.trans (h j c hc).2.symm⟩

theorem OneBlock.within (h : f.OneBlock k base) (hfree : f.Free a) :
    Within base (2 ^ k) a := by
  obtain ⟨i, -, b, hb, hin⟩ := hfree
  rwa [(h i b hb).1, (h i b hb).2] at hin

end FrameAllocator

end Paging
