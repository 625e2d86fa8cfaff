import Orbit.Mem.LoadedImage

/-!
The argument page: what `pack` writes, what `install_argv_envp_page` makes of it, and what
`Argv::from_ptr` and `Argv::get` read of it in the new process. The environment page has the
same format and differs in its address only.
-/

namespace Orbit.Mem

open Paging Ram

variable {f g : Nat → UInt8}

variable {args : List (List UInt8)} {a c i : Nat} {out : Ram}

/-- `ARGV_BLOB_MAX` -/
def argvBlobMax : Nat := 4096

def argvStringsOffset (argc : Nat) : Nat := argvOffsetsOffset + argc * 8

/-- The loop of `pack`: the offset of each argument, its bytes and a NUL. -/
def packArgs (out : Ram) (cursor i : Nat) : List (List UInt8) → Ram
  | [] => out
  | arg :: rest =>
    let out := out.setWord (argvOffsetsOffset + i * 8) cursor
    let out := (out.copy cursor arg).fill (cursor + arg.length) 1 0
    packArgs out (cursor + (arg.length + 1)) (i + 1) rest

def stringsTotal (args : List (List UInt8)) : Nat := (args.map fun a => a.length + 1).sum

/-- `pack`, with a buffer of `outLen` bytes at address 0 of `out`. -/
def pack (args : List (List UInt8)) (out : Ram) (outLen : Nat) : Option (Nat × Ram) :=
  let argc := args.length % 2 ^ 32
  let headerEnd := argvStringsOffset argc
  if outLen < headerEnd then none
  else
    let total := headerEnd + stringsTotal args
    if outLen < total ∨ argvBlobMax < total then none
    else
      -- the header is `argc` and a zero, four bytes each
      some (total, packArgs ((out.fill 0 argvOffsetsOffset 0).setWord 0 argc) headerEnd 0 args)

/-- The bytes that are handed to the kernel. -/
def packed (out : Ram) (total : Nat) : List UInt8 := (List.range total).map out.byte

/-- A view of an argument page, without the marker. -/
structure Argv where
  argc : Nat
  argv : Nat

/-- `Argv::from_ptr`, with the addresses it reads. -/
def Argv.fromPtr (mem : Nat → UInt8) (va : Nat) : Option Argv × List Nat :=
  let argc := littleEndian mem va 4
  (if argvBlobMax < argvStringsOffset argc then none else some ⟨argc, va + argvOffsetsOffset⟩,
    List.range' va 8)

/-- The search for a NUL in `n` bytes: how many bytes precede it, and the addresses read. -/
def walkToNul (mem : Nat → UInt8) : Nat → Nat → Nat × List Nat
  | _, 0 => (0, [])
  | p, n + 1 =>
    if mem p = 0 then (0, [p])
    else
      let rest := walkToNul mem (p + 1) n
      (rest.1 + 1, p :: rest.2)

/-- `Argv::get`, with the addresses it reads. -/
def Argv.get (a : Argv) (mem : Nat → UInt8) (i : Nat) : Option (List UInt8) × List Nat :=
  if a.argc ≤ i then (none, [])
  else
    let slot := List.range' (a.argv + 8 * i) 8
    let p := littleEndian mem (a.argv + 8 * i) 8
    if p = 0 then (none, slot)
    else
      let walk := walkToNul mem p argvBlobMax
      (some ((List.range walk.1).map fun k => mem (p + k)), slot ++ walk.2)

/-- Byte `k` of a blob, and of the page it is copied to. -/
def blobByte (blob : List UInt8) (k : Nat) : UInt8 := blob.getD k 0

/-- The offset in slot `i`. -/
def blobOffset (blob : List UInt8) (i : Nat) : Nat :=
  littleEndian (blobByte blob) (argvOffsetsOffset + 8 * i) 8

/-- The page of a blob, mapped at one of the two addresses: its offsets are addresses now, and
nothing else has changed. -/
structure Installed (blob : List UInt8) (va : Nat) (mem : Nat → UInt8) : Prop where
  place : va = userArgvBase ∨ va = userEnvpBase
  fits : blob.length ≤ pageSize
  slots : argvStringsOffset (blobArgc blob) ≤ blob.length
  offset_lt : ∀ i < blobArgc blob, blobOffset blob i < blob.length
  pointer : ∀ i < blobArgc blob, ∀ b < 8, mem (va + (argvOffsetsOffset + 8 * i + b)) =
    UInt8.ofNat ((va + blobOffset blob i) % 2 ^ 64 / 256 ^ b)
  kept : ∀ k < pageSize, k < argvOffsetsOffset ∨ argvStringsOffset (blobArgc blob) ≤ k →
    mem (va + k) = blobByte blob k

theorem littleEndian_shift {d a n : Nat}
    (h : ∀ k, a ≤ k → k < a + n → f (d + k) = g k) :
    littleEndian f (d + a) n = littleEndian g a n := by
  induction n generalizing a with
  | zero => rfl
  | succ n ih =>
    rw [littleEndian, littleEndian, h a (Nat.le_refl a) (by omega), Nat.add_assoc,
      ih fun k hk hlt => h k (by omega) (by omega)]

theorem blobArgc_eq (blob : List UInt8) : blobArgc blob = littleEndian (blobByte blob) 0 4 := by
  simp only [littleEndian, blobArgc, blobByte, Nat.zero_add, Nat.reduceAdd]
  omega

section Rewrite

variable {ram ram' : Ram} {page va len : Nat}

/-- The slots that are left of the rewrite are still those of the blob. -/
theorem rewriteOffsets_spec {n i : Nat} (h : rewriteOffsets ram page va len n i = (true, ram')) :
    (∀ a, ¬ Within (page + argvOffsetsOffset + 8 * i) (8 * n) a → ram'.byte a = ram.byte a) ∧
    ∀ j, i ≤ j → j < i + n → ram.word (page + argvOffsetsOffset + 8 * j) < len ∧
      ∀ b < 8, ram'.byte (page + argvOffsetsOffset + 8 * j + b) =
        UInt8.ofNat ((va + ram.word (page + argvOffsetsOffset + 8 * j)) % 2 ^ 64 / 256 ^ b) := by
  induction n generalizing ram i with
  | zero =>
    cases h
    exact ⟨fun _ _ => rfl, fun j hj hlt => by omega⟩
  | succ n ih =>
    rw [rewriteOffsets] at h
    split at h
    · cases h
    next hoff =>
    obtain ⟨hout, hin⟩ := ih h
    have houtside : ∀ a, ¬ Within (page + argvOffsetsOffset + 8 * i) 8 a → (ram.setWord
        (page + argvOffsetsOffset + 8 * i)
        ((va + ram.word (page + argvOffsetsOffset + 8 * i)) % 2 ^ 64)).byte a = ram.byte a :=
      sameOutside_setWord _ _ _
    refine ⟨fun a ha => ?_, fun j hj hlt => ?_⟩
    · rw [hout a fun hw => ha ⟨by have := hw.1; omega, by have := hw.2; omega⟩]
      exact houtside a fun hw => ha ⟨hw.1, by have := hw.2; omega⟩
    rcases Nat.eq_or_lt_of_le hj with rfl | hlater
    · refine ⟨Nat.lt_of_not_le hoff, fun b hb => ?_⟩
      rw [hout _ fun hw => by have := hw.1; omega]
      have hw : Within (page + argvOffsetsOffset + 8 * i) 8
          (page + argvOffsetsOffset + 8 * i + b) := ⟨by omega, by omega⟩
      simp only [setWord, if_pos hw, Nat.add_sub_cancel_left]
    have hword := word_congr (a := page + argvOffsetsOffset + 8 * j) fun x hx =>
      houtside x fun hw => by have := hx.1; have := hw.2; omega
    rw [← hword]
    exact hin j hlater (by omega)

end Rewrite

section Install

variable {s s' : State} {own : Nat → Option (Nat × Nat)} {pid va : Nat} {p : Process}
  {blob : List UInt8} {backing : PhysBacking}

/-- The page is in hand and holds the blob; the caller's tables are as they were. -/
theorem installed_page {ram ram' : Ram} {frame : Nat}
    (hzero : ∀ a, Within frame pageSize a → ram.byte a = 0) (hfits : blob.length ≤ pageSize)
    (hslots : argvStringsOffset (blobArgc blob) ≤ blob.length)
    (hplace : va = userArgvBase ∨ va = userEnvpBase)
    (hrun : rewriteOffsets (ram.copy frame blob) frame va blob.length (blobArgc blob) 0 =
      (true, ram')) :
    (∀ mem, (∀ k < pageSize, mem (va + k) = ram'.byte (frame + k)) → Installed blob va mem) ∧
      ∀ a, ¬ Within frame pageSize a → ram'.byte a = ram.byte a := by
  obtain ⟨hout, hin⟩ := rewriteOffsets_spec hrun
  have hcopy : ∀ k < pageSize, (ram.copy frame blob).byte (frame + k) = blobByte blob k := by
    intro k hk
    simp only [copy, blobByte, Nat.add_sub_cancel_left]
    split
    · rfl
    next hpast =>
    have hle : blob.length ≤ k := by
      simp only [Within, Nat.le_add_right, Nat.add_lt_add_iff_left, true_and] at hpast
      omega
    rw [hzero _ ⟨by omega, by omega⟩, List.getD_eq_default _ _ hle]
  have hword : ∀ i < blobArgc blob,
      (ram.copy frame blob).word (frame + argvOffsetsOffset + 8 * i) = blobOffset blob i := by
    intro i hi
    rw [word, Nat.add_assoc]
    refine littleEndian_shift fun k hk hlt => hcopy k ?_
    simp only [argvStringsOffset] at hslots
    omega
  simp only [argvStringsOffset] at hslots
  refine ⟨fun mem hmem => ⟨hplace, hfits, hslots, ?_, ?_, ?_⟩, ?_⟩
  · intro i hi
    rw [← hword i hi]
    exact (hin i (Nat.zero_le i) (by omega)).1
  · intro i hi b hb
    rw [hmem _ (by omega), ← hword i hi, ← (hin i (Nat.zero_le i) (by omega)).2 b hb]
    simp only [Nat.add_assoc]
  · intro k hk hside
    rw [hmem k hk, hout _ fun hw => ?_, hcopy k hk]
    simp only [Within, argvStringsOffset] at hw hside
    omega
  intro a ha
  rw [hout a fun hw => ha ⟨by have := hw.1; omega, by have := hw.2; omega⟩]
  exact sameOutside_copy _ _ _ a fun hw => ha ⟨hw.1, by have := hw.2; omega⟩

/-- A page that is mapped shows its frame. -/
theorem mapped_page_seen {root permissions frame : Nat} {tag : SupervisorTag}
    (tree : Tree 0 s.mem.ram root own) (spare : Spare (s.mem.pools .table) own)
    (hperm : Pte.isLeaf permissions = true) (hstop : frame + pageSize ≤ physEnd)
    (hout : ∀ a, Within frame pageSize a → Outside (s.mem.pools .table) own a)
    (hmap : s.mapAddressRange root (pageConfig permissions va frame tag) (va + pageSize)
      (frame + pageSize) = (true, s')) :
    ∀ k < pageSize, s'.byteAt root (va + k) = some (s.mem.ram.byte (frame + k)) := by
  obtain ⟨hok, hmmu, -⟩ := State.mapAddressRange_true hmap
  have hphys : physEnd < 2 ^ 64 := by decide
  obtain ⟨-, -, -, hloop⟩ := mapAddressRange_ok hok
  have hpages : ∀ j < (frame + pageSize - frame) / pageSize,
      ((pageConfig permissions va frame tag).page j).paddr < 2 ^ 64 := by
    intro j hj
    rw [Nat.add_sub_cancel_left, Nat.div_self (by decide)] at hj
    obtain rfl : j = 0 := by omega
    show frame + 0 * pageSize < 2 ^ 64
    omega
  obtain ⟨own', kept, -⟩ := Tree.mapPages_kept tree spare rfl hpages hloop
  obtain ⟨hexact, -, -⟩ := map_address_range_exact (m := s.mem.mmu .table) ⟨own, tree, spare⟩
    (pageConfig permissions va frame tag) (va + pageSize) (frame + pageSize)
    ⟨Nat.succ_le_succ (Nat.zero_le 3), Nat.le_refl 4⟩ rfl (Nat.le_add_right _ _)
    (Nat.le_add_right _ _) (Nat.lt_of_le_of_lt hstop hphys)
    (by
      show pageSize ∣ va + pageSize - va
      rw [Nat.add_sub_cancel_left]) rfl
  have htr := (hexact hok).mpr (.inr hperm)
  intro k hk
  have hlen : k < va + pageSize - (pageConfig permissions va frame tag).vaddr := by
    show k < va + pageSize - va
    omega
  have hram := congrArg Mmu.ram hmmu
  have hpa : s'.mem.ram.virtToPhys root (va + k) = some (frame + k) := by
    rw [show s'.mem.ram = _ from hram]
    exact (htr.inside k hlen (va + k) rfl).1
  have hbyte := (kept.outside (frame + k) (hout _ ⟨by omega, by omega⟩)).2
  rw [State.byteAt, hpa, Option.map_some, show s'.mem.ram = _ from hram]
  exact congrArg some hbyte

theorem installOn_some {argc : Nat} {x : Option (Nat × State)}
    (hrun : s.installOn pid blob va argc x = (some backing, s')) :
    ∃ frame s1 ram p, x = some (frame, s1) ∧
      rewriteOffsets ((s1.writeBytes frame pageSize 0).mem.ram.copy frame blob) frame va blob.length
        argc 0 = (true, ram) ∧
      s1.processes.get pid = some p ∧
      ((s1.writeBytes frame pageSize 0).setRam ram).mapAddressRange p.root
        (pageConfig (PagePermissions.r ||| PagePermissions.u) va frame .none) (va + pageSize)
        (frame + pageSize) = (true, s') := by
  unfold State.installOn at hrun
  split at hrun
  · cases hrun
  next frame s1 =>
  dsimp only at hrun
  split at hrun
  · exact nomatch (Prod.mk.inj hrun).1
  next ram hrw =>
  split at hrun
  · exact nomatch (Prod.mk.inj hrun).1
  next p hp =>
  split at hrun
  · exact nomatch (Prod.mk.inj hrun).1
  next hmap =>
  cases hrun
  exact ⟨frame, s1, ram, p, rfl, hrw, hp, hmap⟩

theorem installArgvEnvpPage_some (hrun : s.installArgvEnvpPage pid blob va = (some backing, s')) :
    blob.length ≤ pageSize ∧ argvStringsOffset (blobArgc blob) ≤ blob.length ∧
      s.installOn pid blob va (blobArgc blob) (s.alloc .shared pageLayout) =
        (some backing, s') := by
  rw [State.installArgvEnvpPage] at hrun
  split at hrun
  · cases hrun
  split at hrun
  · cases hrun
  split at hrun
  · cases hrun
  next hfits hhead hslots =>
  exact ⟨Nat.le_of_not_lt hfits, Nat.le_of_not_lt hslots, hrun⟩

/-- After a successful install the process sees the page at `va`. -/
theorem install_seen (h : Ready s p.root own) (hp : s.processes.get pid = some p)
    (hplace : va = userArgvBase ∨ va = userEnvpBase)
    (hrun : s.installArgvEnvpPage pid blob va = (some backing, s')) {mem : Nat → UInt8}
    (hmem : ∀ a b, s'.byteAt p.root a = some b → mem a = b) : Installed blob va mem := by
  obtain ⟨hfits, hslots, hon⟩ := installArgvEnvpPage_some hrun
  obtain ⟨frame, s1, ram, p', halloc, hrw, hp', hmap⟩ := installOn_some hon
  have hlayout : Layout.fromSizeAlign pageSize pageSize = some pageLayout := by decide +kernel
  have hblock : s.block .shared pageSize pageSize =
      some (pageLayout, frame, s1.writeBytes frame pageSize 0) := by
    rw [block_of_layout hlayout, halloc]
  have fetched := h.block (by decide) pageSize_eq_pow hblock
  obtain rfl : p = p' := by
    rw [← fetched.processes] at hp
    exact Option.some.inj (hp.symm.trans hp')
  obtain ⟨installed, hrest⟩ := installed_page fetched.blank.zero hfits hslots hplace hrw
  obtain ⟨tree, -, -⟩ := fetched.tree.of_sameTables fun t x ht a ha =>
    hrest a fun hw => fetched.blank.apart a hw t x ht ha
  have hseen := mapped_page_seen (s := (s1.writeBytes frame pageSize 0).setRam ram)
    tree fetched.spare
    (by decide) fetched.stop
    (fun a ha => ⟨fun t x ht => fetched.blank.apart a ha t x ht, fetched.blank.taken a ha⟩) hmap
  exact installed mem fun k hk => hmem _ _ (hseen k hk)

end Install

theorem mem_walkToNul {mem : Nat → UInt8} {a n p : Nat} :
    a ∈ (walkToNul mem p n).2 ↔ p ≤ a ∧ a < p + n ∧ ∀ b, p ≤ b → b < a → mem b ≠ 0 := by
  induction n generalizing p with
  | zero =>
    rw [walkToNul]
    exact ⟨nofun, fun h => absurd h.2.1 (by omega)⟩
  | succ n ih =>
    rw [walkToNul]
    split
    · next hnul =>
      rw [List.mem_singleton]
      constructor
      · rintro rfl
        exact ⟨Nat.le_refl a, by omega, fun b hb hlt => by omega⟩
      · rintro ⟨hp, -, hne⟩
        exact (Nat.eq_or_lt_of_le hp).elim Eq.symm fun hlt =>
          absurd hnul (hne p (Nat.le_refl p) hlt)
    next hne =>
    simp only [List.mem_cons, ih]
    constructor
    · rintro (rfl | ⟨hp, hlt, hbefore⟩)
      · exact ⟨Nat.le_refl a, by omega, fun b hb hlt => by omega⟩
      · refine ⟨by omega, by omega, fun b hb hlt => ?_⟩
        exact (Nat.eq_or_lt_of_le hb).elim (fun heq => heq ▸ hne) fun hlater => hbefore b hlater hlt
    rintro ⟨hp, hlt, hbefore⟩
    rcases Nat.eq_or_lt_of_le hp with rfl | hlater
    · exact .inl rfl
    · exact .inr ⟨hlater, by omega, fun b hb => hbefore b (by omega)⟩

/-- Every string of the blob ends inside the page: a blob that does not fill it is followed by
zeros, and a pointer into the header or the slots meets the high byte of an address. -/
def Terminated (blob : List UInt8) : Prop :=
  blob.length < pageSize ∨
    ∀ i < blobArgc blob, blobOffset blob i < argvStringsOffset (blobArgc blob) ∨
    ∃ k, blobOffset blob i ≤ k ∧ k < pageSize ∧ blobByte blob k = 0

namespace Installed

variable {blob : List UInt8} {va : Nat} {mem : Nat → UInt8} (h : Installed blob va mem)

include h

theorem slot_inside (hi : i < blobArgc blob) :
    argvOffsetsOffset + 8 * i + 8 ≤ pageSize := by
  have hslots := h.slots
  have hfits := h.fits
  simp only [argvStringsOffset] at hslots
  omega

theorem bounds : va + pageSize ≤ 2 ^ 56 ∧ 0 < va := by
  rcases h.place with rfl | rfl <;> decide

/-- The reader finds the address the kernel wrote. -/
theorem pointer_eq (hi : i < blobArgc blob) :
    littleEndian mem (va + argvOffsetsOffset + 8 * i) 8 = va + blobOffset blob i := by
  have hoff := h.offset_lt i hi
  have hfits := h.fits
  have hbounds := h.bounds
  have hvalue : va + blobOffset blob i < 2 ^ 64 := by omega
  rw [@littleEndian_of_bytes _ _ 8 ((va + blobOffset blob i) % 2 ^ 64)]
  · rw [Nat.mod_eq_of_lt hvalue]
    exact Nat.mod_eq_of_lt hvalue
  intro b hb
  rw [← h.pointer i hi b hb]
  simp only [Nat.add_assoc]

theorem fromPtr_eq :
    (Argv.fromPtr mem va).1 = some ⟨blobArgc blob, va + argvOffsetsOffset⟩ := by
  have hargc : littleEndian mem va 4 = blobArgc blob := by
    rw [blobArgc_eq]
    refine littleEndian_shift (a := 0) fun k _ hk => ?_
    have hhead : k < argvOffsetsOffset := Nat.lt_of_lt_of_le hk (by decide)
    exact h.kept k (Nat.lt_trans hhead (by decide)) (.inl hhead)
  have hslots := h.slots
  have hfits : blob.length ≤ argvBlobMax := h.fits
  rw [Argv.fromPtr]
  dsimp only
  rw [hargc, if_neg (by omega)]

/-- A zero at or after every pointer. -/
theorem nul_after (hterm : Terminated blob) (hi : i < blobArgc blob) :
    ∃ k, blobOffset blob i ≤ k ∧ k < pageSize ∧ mem (va + k) = 0 := by
  have hbounds := h.bounds
  have hoff := h.offset_lt i hi
  have hslots := h.slots
  have hfits := h.fits
  -- the high byte of slot `j` is zero
  have hslot : ∀ j < blobArgc blob, mem (va + (argvOffsetsOffset + 8 * j + 7)) = 0 := by
    intro j hj
    have hlt := h.offset_lt j hj
    have hvalue : va + blobOffset blob j < 256 ^ 7 := by omega
    rw [h.pointer j hj 7 (by decide), Nat.mod_eq_of_lt (Nat.lt_trans hvalue (by decide)),
      Nat.div_eq_of_lt hvalue]
    rfl
  have hblob : ∀ k, blobOffset blob i ≤ k → argvStringsOffset (blobArgc blob) ≤ k → k < pageSize →
      blobByte blob k = 0 → ∃ k, blobOffset blob i ≤ k ∧ k < pageSize ∧ mem (va + k) = 0 :=
    fun k hle hstr hk hzero => ⟨k, hle, hk, by rw [h.kept k hk (.inr hstr), hzero]⟩
  by_cases hstr : blobOffset blob i < argvStringsOffset (blobArgc blob)
  · simp only [argvStringsOffset] at hstr hslots
    have hj : (blobOffset blob i - argvOffsetsOffset) / 8 < blobArgc blob := by omega
    exact ⟨_, by omega, by omega, hslot _ hj⟩
  rcases hterm with hshort | hall
  · refine hblob blob.length (Nat.le_of_lt hoff) hslots hshort ?_
    exact List.getD_eq_default _ _ le_rfl
  obtain hlow | ⟨k, hle, hk, hzero⟩ := hall i hi
  · exact absurd hlow hstr
  · exact hblob k hle (by omega) hk hzero

/-- What `get` reads: the slot, and the string up to its NUL. -/
theorem reads_iff :
    a ∈ ((⟨blobArgc blob, va + argvOffsetsOffset⟩ : Argv).get mem i).2 ↔ i < blobArgc blob ∧
      (Within (va + argvOffsetsOffset + 8 * i) 8 a ∨
        va + blobOffset blob i ≤ a ∧ a < va + blobOffset blob i + argvBlobMax ∧
          ∀ b, va + blobOffset blob i ≤ b → b < a → mem b ≠ 0) := by
  rw [Argv.get]
  dsimp only
  split
  · next hge => exact ⟨nofun, fun hlt => absurd hlt.1 (Nat.not_lt.mpr hge)⟩
  next hlt =>
  have hi := Nat.lt_of_not_le hlt
  rw [h.pointer_eq hi, if_neg (by have := h.bounds; omega)]
  simp only [List.mem_append, List.mem_range'_1, mem_walkToNul, hi, true_and, Within]

/-- Otherwise the byte after the page is read. -/
theorem read_past (hopen : ¬ Terminated blob) :
    ∃ i, va + pageSize ∈ ((⟨blobArgc blob, va + argvOffsetsOffset⟩ : Argv).get mem i).2 := by
  simp only [Terminated, not_or, not_forall, not_exists, not_and] at hopen
  obtain ⟨hfull, i, hi, hstr, hno⟩ := hopen
  have hoff := h.offset_lt i hi
  have hfits := h.fits
  refine ⟨i, h.reads_iff.mpr ⟨hi, .inr ⟨by omega, ?_, fun b hb hlt => ?_⟩⟩⟩
  · have : 0 < argvStringsOffset (blobArgc blob) := Nat.add_pos_left (by decide) _
    show va + pageSize < va + blobOffset blob i + pageSize
    omega
  obtain ⟨k, rfl⟩ := Nat.exists_eq_add_of_le (Nat.le_trans (Nat.le_add_right _ _) hb)
  rw [h.kept k (by omega) (.inr (by omega))]
  exact hno k (by omega) (by omega)

end Installed

/-- The reader stays in the page exactly for blobs whose strings end in it. -/
theorem argv_reads_inside_iff {s s' : State} {own : Nat → Option (Nat × Nat)} {pid va : Nat}
    {p : Process} {blob : List UInt8} {backing : PhysBacking} (h : Ready s p.root own)
    (hp : s.processes.get pid = some p) (hva : va = userArgvBase ∨ va = userEnvpBase)
    (hrun : s.installArgvEnvpPage pid blob va = (some backing, s')) {mem : Nat → UInt8}
    (hmem : ∀ a b, s'.byteAt p.root a = some b → mem a = b) :
    ((∀ a ∈ (Argv.fromPtr mem va).2, Within va pageSize a) ∧
      ∀ v, (Argv.fromPtr mem va).1 = some v → ∀ i, ∀ a ∈ (v.get mem i).2, Within va pageSize a) ↔
    Terminated blob := by
  have installed := install_seen h hp hva hrun hmem
  rw [installed.fromPtr_eq]
  constructor
  · rintro ⟨-, hreads⟩
    by_contra hopen
    obtain ⟨i, hpast⟩ := installed.read_past hopen
    exact absurd (hreads _ rfl i _ hpast).2 (Nat.lt_irrefl _)
  intro hterm
  refine ⟨fun a ha => ?_, fun v hv i a ha => ?_⟩
  · simp only [Argv.fromPtr, List.mem_range'_1] at ha
    exact ⟨ha.1, Nat.lt_of_lt_of_le ha.2 (Nat.add_le_add_left (by decide) _)⟩
  cases hv
  obtain ⟨hi, hslot | ⟨hlow, -, hbefore⟩⟩ := installed.reads_iff.mp ha
  · have hinside := installed.slot_inside hi
    simp only [Within] at hslot ⊢
    omega
  obtain ⟨k, hle, hk, hzero⟩ := installed.nul_after hterm hi
  refine ⟨by omega, ?_⟩
  by_contra hpast
  exact hbefore (va + k) (by omega) (by omega) hzero

/-- The arguments from slot `i` on, with their bytes from `c` on. -/
def Holds (f : Nat → UInt8) : Nat → Nat → List (List UInt8) → Prop
  | _, _, [] => True
  | c, i, arg :: rest => littleEndian f (argvOffsetsOffset + 8 * i) 8 = c ∧
      (∀ k < arg.length, f (c + k) = arg.getD k 0) ∧ f (c + arg.length) = 0 ∧
      Holds f (c + (arg.length + 1)) (i + 1) rest

theorem stringsTotal_cons (arg : List UInt8) (rest : List (List UInt8)) :
    stringsTotal (arg :: rest) = arg.length + 1 + stringsTotal rest := rfl

theorem length_le_stringsTotal (args : List (List UInt8)) : args.length ≤ stringsTotal args := by
  induction args with
  | nil => exact Nat.le_refl 0
  | cons arg rest ih =>
    rw [stringsTotal_cons, List.length_cons]
    omega

theorem packArgs_outside
    (hslots : a < argvOffsetsOffset + 8 * i ∨ argvOffsetsOffset + 8 * (i + args.length) ≤ a)
    (hstrings : a < c ∨ c + stringsTotal args ≤ a) :
    (packArgs out c i args).byte a = out.byte a := by
  induction args generalizing out c i with
  | nil => rfl
  | cons arg rest ih =>
    rw [stringsTotal_cons] at hstrings
    rw [List.length_cons] at hslots
    have hslot : ¬ Within (argvOffsetsOffset + i * 8) 8 a := by
      simp only [Within]
      omega
    have hbytes : ¬ Within c arg.length a := by
      simp only [Within]
      omega
    have hnul : ¬ Within (c + arg.length) 1 a := by
      simp only [Within]
      omega
    rw [packArgs, ih (by omega) (by omega), sameOutside_fill _ _ _ _ a hnul,
      sameOutside_copy _ _ _ a hbytes, sameOutside_setWord _ _ _ a hslot]

theorem packArgs_holds
    (hslots : argvOffsetsOffset + 8 * (i + args.length) ≤ c)
    (hend : c + stringsTotal args ≤ 2 ^ 64) :
    Holds (packArgs out c i args).byte c i args := by
  induction args generalizing out c i with
  | nil => trivial
  | cons arg rest ih =>
    rw [stringsTotal_cons] at hend
    rw [List.length_cons] at hslots
    rw [packArgs]
    -- what is written later lies in later slots and behind this argument
    have hlater : ∀ a, a < argvOffsetsOffset + 8 * (i + 1) ∨ c ≤ a → a < c + (arg.length + 1) →
        ∀ out : Ram, (packArgs out (c + (arg.length + 1)) (i + 1) rest).byte a = out.byte a :=
      fun a hslot hlt out => packArgs_outside (by omega) (.inl hlt)
    have hfill : ∀ a, a < c + arg.length → ∀ out : Ram,
        (out.fill (c + arg.length) 1 0).byte a = out.byte a :=
      fun a ha out => sameOutside_fill _ _ _ _ a fun hin => absurd hin.1 (Nat.not_le.mpr ha)
    have hcopy : ∀ a, a < c → ∀ out : Ram, (out.copy c arg).byte a = out.byte a :=
      fun a ha out => sameOutside_copy _ _ _ a fun hin => absurd hin.1 (Nat.not_le.mpr ha)
    refine ⟨?_, fun k hk => ?_, ?_, ih (by omega) (by omega)⟩
    · have hword := word_setWord out (argvOffsetsOffset + i * 8) c
      rw [Nat.mod_eq_of_lt (by omega)] at hword
      rw [Nat.mul_comm 8 i]
      refine Eq.trans (word_congr fun x hx => ?_) hword
      have hhigh := hx.2
      rw [hlater x (by omega) (by omega), hfill x (by omega), hcopy x (by omega)]
    · rw [hlater _ (by omega) (by omega), hfill _ (by omega)]
      have hin : Within c arg.length (c + k) := ⟨by omega, by omega⟩
      simp only [copy, if_pos hin, Nat.add_sub_cancel_left]
    · rw [hlater _ (by omega) (by omega)]
      exact if_pos ⟨by omega, by omega⟩

theorem Holds.get {c i j : Nat} (h : Holds f c i args)
    {arg : List UInt8} (harg : args[j]? = some arg) :
    ∃ c', littleEndian f (argvOffsetsOffset + 8 * (i + j)) 8 = c' ∧ c ≤ c' ∧
      c' + arg.length < c + stringsTotal args ∧ (∀ k < arg.length, f (c' + k) = arg.getD k 0) ∧
      f (c' + arg.length) = 0 := by
  induction args generalizing c i j with
  | nil => cases harg
  | cons first rest ih =>
    obtain ⟨hslot, hbytes, hnul, hrest⟩ := h
    rw [stringsTotal_cons]
    cases j with
    | zero =>
      cases harg
      exact ⟨c, hslot, Nat.le_refl c, by omega, hbytes, hnul⟩
    | succ j =>
      obtain ⟨c', hslot', hle, hlt, hbytes', hnul'⟩ := ih hrest harg
      refine ⟨c', ?_, by omega, by omega, hbytes', hnul'⟩
      rw [← hslot', show i + (j + 1) = i + 1 + j by omega]

theorem walkToNul_length {mem : Nat → UInt8} {n p m : Nat} (hm : m < n)
    (hbytes : ∀ k < m, mem (p + k) ≠ 0) (hnul : mem (p + m) = 0) : (walkToNul mem p n).1 = m := by
  induction n generalizing p m with
  | zero => exact absurd hm (Nat.not_lt_zero m)
  | succ n ih =>
    rw [walkToNul]
    cases m with
    | zero => rw [if_pos (show mem p = 0 from hnul)]
    | succ m =>
      rw [if_neg (show mem p ≠ 0 from hbytes 0 (Nat.succ_pos m))]
      refine congrArg (· + 1) (ih (Nat.lt_of_succ_lt_succ hm) (fun k hk => ?_) ?_)
      · rw [Nat.add_assoc, Nat.add_comm 1]
        exact hbytes (k + 1) (Nat.succ_lt_succ hk)
      · rw [Nat.add_assoc, Nat.add_comm 1]
        exact hnul

theorem Holds.congr (h : Holds f c i args) (hslots : argvOffsetsOffset + 8 * (i + args.length) ≤ c)
    (hfg : ∀ k < c + stringsTotal args, g k = f k) : Holds g c i args := by
  induction args generalizing c i with
  | nil => trivial
  | cons arg rest ih =>
    obtain ⟨hslot, hbytes, hnul, hrest⟩ := h
    rw [stringsTotal_cons] at hfg
    rw [List.length_cons] at hslots
    refine ⟨?_, fun k hk => ?_, ?_, ih hrest (by omega) fun k hk => hfg k (by omega)⟩
    · rw [← hslot]
      exact littleEndian_congr fun x hx => hfg x (by have := hx.2; omega)
    · rw [hfg _ (by omega), hbytes k hk]
    · rw [hfg _ (by omega), hnul]

/-- What `pack` hands over. -/
theorem pack_some {out out' : Ram} {outLen total : Nat}
    (h : pack args out outLen = some (total, out')) :
    (packed out' total).length = total ∧ total = argvStringsOffset args.length + stringsTotal args ∧
      total ≤ pageSize ∧ blobArgc (packed out' total) = args.length ∧
      Holds (blobByte (packed out' total)) (argvStringsOffset args.length) 0 args := by
  unfold pack at h
  dsimp only at h
  split at h
  · cases h
  split at h
  · cases h
  next hroom hcap =>
  have hcount := length_le_stringsTotal args
  have hmax : argvStringsOffset (args.length % 2 ^ 32) + stringsTotal args ≤ 4096 :=
    Nat.le_of_not_lt fun hlt => hcap (.inr hlt)
  have hargc : args.length % 2 ^ 32 = args.length := Nat.mod_eq_of_lt (by omega)
  rw [hargc] at h hmax
  obtain ⟨rfl, rfl⟩ := Prod.mk.inj (Option.some.inj h)
  have hbyte : ∀ (r : Ram) (n k : Nat), k < n → blobByte (packed r n) k = r.byte k := by
    intro r n k hk
    simp [blobByte, packed, hk]
  refine ⟨by simp [packed], rfl, hmax, ?_, ?_⟩
  · rw [blobArgc_eq, @littleEndian_of_bytes _ _ 4 args.length]
    · exact Nat.mod_eq_of_lt (by omega)
    intro k hk
    have hhead : k < argvOffsetsOffset := Nat.lt_of_lt_of_le hk (by decide)
    rw [Nat.zero_add, hbyte _ _ _ (by simp only [argvStringsOffset]; omega),
      packArgs_outside (.inl (by omega)) (.inl (by simp only [argvStringsOffset]; omega))]
    exact if_pos ⟨Nat.zero_le k, by rw [Nat.zero_add]; exact hhead⟩
  have hslots : argvOffsetsOffset + 8 * (0 + args.length) ≤ argvStringsOffset args.length := by
    simp only [argvStringsOffset]
    omega
  exact (packArgs_holds hslots (by omega)).congr hslots fun k hk => hbyte _ _ k hk

/-- A string of the blob, read from the page. -/
theorem Installed.get_eq {blob : List UInt8} {va : Nat} {mem : Nat → UInt8}
    (h : Installed blob va mem) (hargc : blobArgc blob = args.length)
    (hlen : argvStringsOffset args.length + stringsTotal args ≤ pageSize)
    (holds : Holds (blobByte blob) (argvStringsOffset args.length) 0 args)
    (hnul : ∀ arg ∈ args, (0 : UInt8) ∉ arg) (i : Nat) :
    ((⟨blobArgc blob, va + argvOffsetsOffset⟩ : Argv).get mem i).1 = args[i]? := by
  rw [Argv.get]
  dsimp only
  split
  · next hge => rw [List.getElem?_eq_none (hargc ▸ hge)]
  next hlt =>
  have hi : i < args.length := by omega
  obtain ⟨c, hslot, hle, hend, hbytes, hzero⟩ := holds.get (List.getElem?_eq_getElem hi)
  rw [Nat.zero_add] at hslot
  have hoff : blobOffset blob i = c := hslot
  have hbounds := h.bounds
  rw [h.pointer_eq (by omega), hoff, if_neg (by omega), List.getElem?_eq_getElem hi]
  have hseen : ∀ k ≤ args[i].length, mem (va + c + k) = blobByte blob (c + k) := by
    intro k hk
    rw [Nat.add_assoc, h.kept _ (by omega) (.inr (by rw [hargc]; omega))]
  have hchar : ∀ k < args[i].length, mem (va + c + k) = args[i].getD k 0 :=
    fun k hk => (hseen k (Nat.le_of_lt hk)).trans (hbytes k hk)
  have hwalk : (walkToNul mem (va + c) argvBlobMax).1 = args[i].length := by
    refine walkToNul_length (show _ < pageSize by omega) (fun k hk => ?_) ?_
    · rw [hchar k hk, List.getD_eq_getElem _ _ hk]
      intro heq
      exact hnul _ (List.getElem_mem hi) (heq ▸ List.getElem_mem hk)
    · rw [hseen _ le_rfl, hzero]
  dsimp only
  rw [hwalk]
  refine congrArg some (List.ext_getElem (by simp) fun k hk hk' => ?_)
  rw [List.getElem_map, List.getElem_range, hchar k hk', List.getD_eq_getElem _ _ hk']

/-- What was packed is what the new process reads, at either address. The kernel's checks of
the contents pass, so only the lack of a page or of tables can stop the install. -/
theorem argv_round_trip {args : List (List UInt8)} {out out' : Ram} {outLen total : Nat}
    (hnul : ∀ arg ∈ args, (0 : UInt8) ∉ arg) (hpack : pack args out outLen = some (total, out')) :
    ((packed out' total).length ≤ pageSize ∧
      argvStringsOffset (blobArgc (packed out' total)) ≤ (packed out' total).length ∧
      ∀ i < blobArgc (packed out' total),
        blobOffset (packed out' total) i < (packed out' total).length) ∧
    ∀ (s s' : State) (own : Nat → Option (Nat × Nat)) (pid va : Nat) (p : Process)
      (backing : PhysBacking) (mem : Nat → UInt8), Ready s p.root own →
      s.processes.get pid = some p → va = userArgvBase ∨ va = userEnvpBase →
      s.installArgvEnvpPage pid (packed out' total) va = (some backing, s') →
      (∀ a b, s'.byteAt p.root a = some b → mem a = b) →
      ∃ v, (Argv.fromPtr mem va).1 = some v ∧ v.argc = args.length ∧
        ∀ i, (v.get mem i).1 = args[i]? := by
  obtain ⟨hlen, htotal, hcap, hargc, holds⟩ := pack_some hpack
  have hcount := length_le_stringsTotal args
  refine ⟨⟨by omega, by rw [hargc]; omega, fun i hi => ?_⟩, ?_⟩
  · rw [hargc] at hi
    obtain ⟨c, hslot, hle, hend, -⟩ := holds.get (List.getElem?_eq_getElem hi)
    rw [Nat.zero_add] at hslot
    have hoff : blobOffset (packed out' total) i = c := hslot
    omega
  intro s s' own pid va p backing mem ready hp hva hrun hmem
  have installed := install_seen ready hp hva hrun hmem
  exact ⟨_, installed.fromPtr_eq, hargc, installed.get_eq hargc (by omega) holds hnul⟩

/-- One argument, `a`. -/
def shortBlob : List UInt8 := [1, 0, 0, 0, 0, 0, 0, 0, 16, 0, 0, 0, 0, 0, 0, 0, 0x61, 0]

/-- One argument that fills the page. -/
def fullBlob : List UInt8 :=
  [1, 0, 0, 0, 0, 0, 0, 0, 16, 0, 0, 0, 0, 0, 0, 0] ++ List.replicate 4080 0x61

theorem fullBlob_open : ¬ Terminated fullBlob := by
  have hlen : fullBlob.length = pageSize := by
    rw [fullBlob, List.length_append, List.length_replicate]
    rfl
  have hargc : blobArgc fullBlob = 1 := by decide
  have hoff : blobOffset fullBlob 0 = 16 := by decide
  rintro (hshort | hall)
  · omega
  obtain hlow | ⟨k, hle, hk, hzero⟩ := hall 0 (by omega)
  · rw [hoff, hargc] at hlow
    exact absurd hlow (by decide)
  rw [hoff] at hle
  rw [blobByte, fullBlob, List.getD_append_right _ _ _ _ hle, List.getD_replicate _ ?_] at hzero
  · exact absurd hzero (by decide)
  show k - 16 < 4080
  simp only [pageSize] at hk
  omega

/-- The process that is set up. -/
def newProcess : Process := ⟨Paging.freshRoot, .empty, .new, [], .empty, none, 0, none, none⟩

/-- What the process sees of its memory. -/
def seen (s : State) (a : Nat) : UInt8 := (s.byteAt newProcess.root a).getD 0

theorem seen_eq (s : State) (a : Nat) (b : UInt8) (h : s.byteAt newProcess.root a = some b) :
    seen s a = b := by
  rw [seen, h, Option.getD_some]

theorem install_of_isSome {blob : List UInt8}
    (h : ((createState [0x10000]).installArgvEnvpPage 1 blob userArgvBase).1.isSome = true) :
    ∃ backing s' own, (createState [0x10000]).installArgvEnvpPage 1 blob userArgvBase =
      (some backing, s') ∧ Ready (createState [0x10000]) newProcess.root own := by
  obtain ⟨backing, hb⟩ := Option.isSome_iff_exists.mp h
  obtain ⟨own, ready⟩ := @createState_ready [0x10000] (fun b hb => List.mem_singleton.mp hb)
  exact ⟨backing, _, own, Prod.ext hb rfl, ready⟩

/-- What `pack` leaves of a zeroed buffer for two arguments, `ab` and an empty one. -/
def pairOut : Ram :=
  packArgs (((⟨fun _ => 0⟩ : Ram).fill 0 8 0).setWord 0 2) 24 0 [[0x61, 0x62], []]

def pairBlob : List UInt8 :=
  [2, 0, 0, 0, 0, 0, 0, 0, 24, 0, 0, 0, 0, 0, 0, 0, 27, 0, 0, 0, 0, 0, 0, 0, 0x61, 0x62, 0, 0]

theorem argv_round_trip_two_arguments :
    pack [[0x61, 0x62], []] ⟨fun _ => 0⟩ 4096 = some (28, pairOut) ∧
    ∃ backing s' mem, (createState [0x10000]).installArgvEnvpPage 1 (packed pairOut 28)
        userArgvBase = (some backing, s') ∧
      ∃ v, (Argv.fromPtr mem userArgvBase).1 = some v ∧ v.argc = 2 ∧
        ∀ i, (v.get mem i).1 = [[(0x61 : UInt8), 0x62], []][i]? := by
  have hpack : pack [[0x61, 0x62], []] ⟨fun _ => 0⟩ 4096 = some (28, pairOut) := rfl
  have hblob : packed pairOut 28 = pairBlob := by decide
  obtain ⟨backing, s', own, hrun, ready⟩ := @install_of_isSome pairBlob (by decide +kernel)
  rw [← hblob] at hrun
  refine ⟨hpack, backing, s', seen s', hrun, ?_⟩
  exact (argv_round_trip (by decide) hpack).2 _ s' own 1 userArgvBase newProcess backing _ ready rfl
    (.inl rfl) hrun (seen_eq s')

theorem argv_reads_inside_one_argument :
    ∃ backing s' mem, (createState [0x10000]).installArgvEnvpPage 1 shortBlob userArgvBase =
        (some backing, s') ∧
      ∀ v, (Argv.fromPtr mem userArgvBase).1 = some v →
        ∀ i, ∀ a ∈ (v.get mem i).2, Within userArgvBase pageSize a := by
  obtain ⟨backing, s', own, hrun, ready⟩ := @install_of_isSome shortBlob (by decide +kernel)
  have hinside := (argv_reads_inside_iff ready rfl (.inl rfl) hrun (seen_eq s')).mpr
    (.inl (by decide))
  exact ⟨backing, s', seen s', hrun, hinside.2⟩

/-- An argument without a NUL that fills the page: the byte after the page is read. -/
theorem full_page_read_past : (∃ own, Ready (createState [0x10000]) Paging.freshRoot own) ∧
    ∃ backing s', (createState [0x10000]).installArgvEnvpPage 1 fullBlob userArgvBase =
        (some backing, s') ∧
      ∀ mem, (∀ a b, s'.byteAt Paging.freshRoot a = some b → mem a = b) →
        ∃ v i, (Argv.fromPtr mem userArgvBase).1 = some v ∧
          userArgvBase + pageSize ∈ (v.get mem i).2 := by
  obtain ⟨backing, s', own, hrun, ready⟩ := @install_of_isSome fullBlob (by decide +kernel)
  refine ⟨⟨own, ready⟩, backing, s', hrun, fun mem hmem => ?_⟩
  have installed := install_seen (p := newProcess) ready rfl (.inl rfl) hrun hmem
  obtain ⟨i, hpast⟩ := installed.read_past fullBlob_open
  exact ⟨_, i, installed.fromPtr_eq, hpast⟩

end Orbit.Mem
