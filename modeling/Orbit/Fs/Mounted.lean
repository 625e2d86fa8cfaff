import Orbit.Fs.Read
import Orbit.Tar.MountCorrect

/-!
The file system that the mount of an archive leaves for `fs_read`. Each file follows its own
header and the next header follows its content, so the files lie inside the device and apart from
each other, and the bytes read from a file are those of its entry.
-/

namespace Orbit.Fs

open Tar (Entry Device File files archive archive_append archive_cons)

variable {f g : File} {lba stop : Nat} {e : Entry} {es : List Entry} {dev : Device}

/-- A directory has no bytes; a file lies between two sectors. -/
def Spans (f : File) (lba stop : Nat) : Prop :=
  (f.dataSector = 0 ∧ f.size = 0) ∨
    (lba < f.dataSector ∧ f.dataSector * 512 + f.size ≤ stop * 512)

def Apart (f g : File) : Prop :=
  f.dataSector * 512 + f.size ≤ g.dataSector * 512 ∨
    g.dataSector * 512 + g.size ≤ f.dataSector * 512

theorem Spans.mono {lba' stop' : Nat} (h : Spans f lba stop) (hlba : lba' ≤ lba)
    (hstop : stop ≤ stop') : Spans f lba' stop' := by
  unfold Spans at h ⊢
  omega

theorem Spans.apart {mid : Nat} (hf : Spans f lba mid) (hg : Spans g mid stop) : Apart f g := by
  unfold Spans at hf hg
  unfold Apart
  omega

/-- What an entry is listed as lies in its own sectors. -/
theorem spans_entry (he : e.Valid) (hplain : e.Plain) {kind : Tar.Kind}
    (hkind : e.type.kind = some kind) (lba : Nat) :
    Spans ⟨kind, e.size, if kind = .reg then lba + 1 else 0⟩ lba (lba + e.sectors.length) := by
  cases kind with
  | dir =>
    refine .inl ⟨rfl, hplain.size ?_⟩
    cases htype : e.type <;> simp [htype, Tar.EntryType.kind, Tar.EntryType.hasData] at hkind ⊢
  | reg =>
    refine .inr ⟨Nat.lt_succ_self lba, ?_⟩
    rw [Entry.sectors_length, he.length_content hplain, if_pos rfl]
    simp only [Tar.dataSectors, Tar.sectorSize]
    omega

/-- The files of an archive lie in its sectors, in their order. -/
theorem files_apart (es : List Entry) (hes : ∀ e ∈ es, e.Valid ∧ e.Plain) (lba : Nat) :
    (∀ f ∈ files lba es, Spans f.2 lba (lba + (es.flatMap Entry.sectors).length)) ∧
      (files lba es).Pairwise fun f g => Apart f.2 g.2 := by
  induction es generalizing lba with
  | nil => exact ⟨List.forall_mem_nil _, .nil⟩
  | cons e rest ih =>
    obtain ⟨he, hplain⟩ := hes e (.head _)
    obtain ⟨hspans, hapart⟩ := ih (fun e' he' => hes e' (.tail _ he')) (lba + e.sectors.length)
    have hlen : lba + ((e :: rest).flatMap Entry.sectors).length =
        lba + e.sectors.length + (rest.flatMap Entry.sectors).length := by
      rw [List.flatMap_cons, List.length_append, Nat.add_assoc]
    have htail : ∀ f ∈ files (lba + e.sectors.length) rest,
        Spans f.2 lba (lba + ((e :: rest).flatMap Entry.sectors).length) := by
      intro f hf
      rw [hlen]
      exact (hspans f hf).mono (Nat.le_add_right ..) (Nat.le_refl _)
    rw [files]
    cases hkind : e.type.kind with
    | none => exact ⟨htail, hapart⟩
    | some kind =>
      dsimp only
      split
      · exact ⟨htail, hapart⟩
      have hhead := spans_entry he hplain hkind lba
      refine ⟨List.forall_mem_cons.mpr ⟨hhead.mono (Nat.le_refl _) ?_, htail⟩, ?_⟩
      · rw [hlen]
        exact Nat.le_add_right ..
      · refine List.pairwise_cons.mpr ⟨?_, hapart⟩
        intro g hg
        exact hhead.apart (hspans g hg)

/-- What `fs_read` uses of an inode. -/
def inodeOf (f : File) : TarInode := ⟨decide (f.kind = .reg), f.size, f.dataSector⟩

theorem getElem?_none_cons {l : List TarInode} {i : Nat} {e : TarInode}
    (h : (none :: l.map some)[i]? = some (some e)) : ∃ k, i = k + 1 ∧ l[k]? = some e := by
  cases i with
  | zero => cases h
  | succ k =>
    rw [List.getElem?_cons_succ, List.getElem?_map, Option.map_eq_some_iff] at h
    obtain ⟨e', he', heq⟩ := h
    cases heq
    exact ⟨k, rfl, he'⟩

/-- The root and the files of the archive. -/
def indexed (es : List Entry) : List TarInode :=
  (Tar.rootFile :: (files 0 es).map Prod.snd).map inodeOf

theorem indexed_apart (hes : ∀ e ∈ es, e.Valid ∧ e.Plain) :
    (indexed es).Pairwise fun e e' => e.dataSector * 512 + e.size ≤ e'.dataSector * 512 ∨
      e'.dataSector * 512 + e'.size ≤ e.dataSector * 512 := by
  rw [indexed, List.pairwise_map, List.pairwise_cons, List.pairwise_map]
  exact ⟨fun f _ => .inl (Nat.zero_le _), (files_apart es hes 0).2⟩

theorem indexed_inside (hes : ∀ e ∈ es, e.Valid ∧ e.Plain) (hdev : dev.Holds 0 (archive es))
    {e : TarInode} (he : e ∈ indexed es) :
    e.dataSector * 512 + e.size ≤ dev.capacitySectors * 512 := by
  have hfits : (es.flatMap Entry.sectors).length ≤ dev.capacitySectors := by
    have hlen := hdev.1
    rw [archive, List.length_append] at hlen
    omega
  rw [indexed, List.mem_map] at he
  obtain ⟨f, hf, rfl⟩ := he
  rcases List.mem_cons.mp hf with rfl | hf
  · exact Nat.zero_le _
  obtain ⟨pf, hpf, rfl⟩ := List.mem_map.mp hf
  have hspans := (files_apart es hes 0).1 pf hpf
  unfold Spans at hspans
  simp only [inodeOf]
  omega

/-- The mounted archive as `fs_read` finds it. -/
def mountedTarfs (dev : Device) (es : List Entry) (hes : ∀ e ∈ es, e.Valid ∧ e.Plain)
    (hdev : dev.Holds 0 (archive es)) : Tarfs where
  inodes := none :: (indexed es).map some
  disk k := match dev.readBlocksBlocking (k / 512) with
    | .ok buf => buf (k % 512)
    | .error _ => 0
  capacitySectors := dev.capacitySectors
  inside e he := by
    rcases List.mem_cons.mp he with hnone | he
    · cases hnone
    · obtain ⟨e', he', heq⟩ := List.mem_map.mp he
      cases heq
      exact indexed_inside hes hdev he'
  apart i j e e' hi hj hne := by
    obtain ⟨k, rfl, hk⟩ := getElem?_none_cons hi
    obtain ⟨k', rfl, hk'⟩ := getElem?_none_cons hj
    obtain ⟨hlt, rfl⟩ := List.getElem?_eq_some_iff.mp hk
    obtain ⟨hlt', rfl⟩ := List.getElem?_eq_some_iff.mp hk'
    have hapart := List.pairwise_iff_getElem.mp (indexed_apart hes)
    rcases Nat.lt_or_gt_of_ne (fun heq : k = k' => hne (congrArg Nat.succ heq)) with hkk | hkk
    · exact hapart k k' hlt hlt' hkk
    · exact (hapart k' k hlt' hlt hkk).symm

/-- The mount builds exactly these inodes. -/
theorem mount_inodes (hes : ∀ e ∈ es, e.Valid ∧ e.Plain) (hdev : dev.Holds 0 (archive es)) :
    ∃ fuel s fs, Tar.mount dev fuel = some (s, .ok fs) ∧
      fs.inodes.map (Option.map fun i => inodeOf i.file.2) =
        (mountedTarfs dev es hes hdev).inodes := by
  obtain ⟨s, hmount⟩ := Tar.scan_archive es hes (s := .start) rfl hdev 0
  refine ⟨_, s, _, hmount, ?_⟩
  show _ = none :: (indexed es).map some
  rw [Tar.foldl_register_inodes, indexed, ← Tar.inodesOf_files es hes 0 hdev]
  have hroot : inodeOf Tar.rootInode.file.2 = inodeOf Tar.rootFile := rfl
  simp [Tar.Scan.start, Tar.Tarfs.new, hroot]

theorem files_append (front rest : List Entry) (lba : Nat) : files lba (front ++ rest) =
    files lba front ++ files (lba + (front.flatMap Entry.sectors).length) rest := by
  induction front generalizing lba with
  | nil => rfl
  | cons e front ih =>
    rw [List.cons_append, files, files, ih, List.flatMap_cons, List.length_append, Nat.add_assoc]
    cases e.type.kind with
    | none => rfl
    | some kind =>
      dsimp only
      split <;> rfl

/-- The content of an entry follows its header, 512 bytes to a sector. -/
theorem read_content {rest : List Tar.Sector} (h : dev.Holds lba (e.sectors ++ rest)) {k : Nat}
    (hk : k < e.content.length) : dev.readBlocksBlocking (lba + (1 + k / 512)) =
      .ok fun i => e.content.getD (512 * (k / 512) + i) 0 := by
  have hsector : k / 512 < Tar.dataSectors e.content.length := by
    simp only [Tar.dataSectors, Tar.sectorSize]
    omega
  have hlt : 1 + k / 512 < (e.sectors ++ rest).length := by
    rw [List.length_append, Entry.sectors_length]
    omega
  have hget : (e.sectors ++ rest)[1 + k / 512] = fun i =>
      e.content.getD (512 * (k / 512) + i) 0 := by
    simp [Entry.sectors, Entry.data, Nat.add_comm 1, hsector, Tar.sectorSize]
  rw [h.2 _ hlt, hget]

section

variable {front rest : List Entry} (hes : ∀ e' ∈ front ++ e :: rest, e'.Valid ∧ e'.Plain)
  (hdev : dev.Holds 0 (archive (front ++ e :: rest))) (hreg : e.type.kind = some .reg)
  (hpath : e.path ≠ [])

include hreg hpath

/-- A file is numbered after the files of the entries before it. -/
theorem mounted_entry :
    (mountedTarfs dev (front ++ e :: rest) hes hdev).entry ((files 0 front).length + 2) =
      some ⟨true, e.size, (front.flatMap Entry.sectors).length + 1⟩ := by
  have hfiles : files 0 (front ++ e :: rest) = files 0 front ++
      (e.path, ⟨.reg, e.size, (front.flatMap Entry.sectors).length + 1⟩) ::
        files ((front.flatMap Entry.sectors).length + e.sectors.length) rest := by
    rw [files_append, Nat.zero_add, files, hreg]
    dsimp only
    rw [if_neg hpath, if_pos rfl]
  simp [Tarfs.entry, mountedTarfs, indexed, hfiles, inodeOf]

/-- The bytes of a file are those of its entry. -/
theorem mounted_byteAt {k : Nat} (hk : k < e.size) :
    (mountedTarfs dev (front ++ e :: rest) hes hdev).byteAt ((files 0 front).length + 2) k =
      e.content.getD k 0 := by
  obtain ⟨he, hplain⟩ := hes e (by simp)
  have hsectors : dev.Holds (front.flatMap Entry.sectors).length (e.sectors ++ archive rest) := by
    rw [archive_append, archive_cons] at hdev
    simpa using hdev.tail
  have hread := read_content hsectors (hk.trans_eq (he.length_content hplain).symm)
  have hsector : (((front.flatMap Entry.sectors).length + 1) * 512 + k) / 512 =
      (front.flatMap Entry.sectors).length + (1 + k / 512) := by
    omega
  have hrest : (((front.flatMap Entry.sectors).length + 1) * 512 + k) % 512 = k % 512 := by
    omega
  rw [Tarfs.byteAt, mounted_entry hes hdev hreg hpath]
  dsimp only [mountedTarfs]
  rw [hsector, hread, hrest]
  dsimp only
  rw [Nat.div_add_mod]

end

end Orbit.Fs
