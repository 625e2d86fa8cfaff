import Mathlib.Data.List.Induction
import Orbit.Tar.Archive

/-!
Mounting an archive. The loop meets the headers of an archive one after the other and
registers what `files` lists; after that the index gives for every path its last file,
as long as the inode numbers suffice. On any device the loop only reads below the
capacity, and it moves forward with every turn unless a sector number wraps.
-/

namespace Orbit.Tar

open Tarfs

variable {dev : Device} {l : List Sector} {s : Scan}

theorem archive_append (front rest : List Entry) :
    archive (front ++ rest) = front.flatMap Entry.sectors ++ archive rest := by
  rw [archive, archive, List.flatMap_append, List.append_assoc]

theorem archive_cons (e : Entry) (es : List Entry) :
    archive (e :: es) = e.sectors ++ archive es := by
  rw [archive, archive, List.flatMap_cons, List.append_assoc]

theorem Device.Holds.head {lba : Nat} {x : Sector} (h : dev.Holds lba (x :: l)) :
    lba < dev.capacitySectors ∧ dev.readBlocksBlocking lba = .ok x := by
  refine ⟨?_, h.2 0 (Nat.zero_lt_succ _)⟩
  have hlen := h.1
  rw [List.length_cons] at hlen
  omega

theorem Device.Holds.tail {lba : Nat} {front l : List Sector}
    (h : dev.Holds lba (front ++ l)) : dev.Holds (lba + front.length) l := by
  refine ⟨?_, fun i hi => ?_⟩
  · have hlen := h.1
    rw [List.length_append] at hlen
    omega
  have hread := h.2 (front.length + i) (by rw [List.length_append]; omega)
  rw [List.getElem_append_right (Nat.le_add_right _ _)] at hread
  simpa [Nat.add_assoc] using hread

/-- The inode of a header is the file that is listed for it. -/
def TarInode.file (i : TarInode) : Path × File := (i.path, { i with })

/-- The inodes of an archive that begins at `lba`. -/
def inodesOf (lba : Nat) : List Entry → List TarInode
  | [] => []
  | e :: rest => (e.inode lba).toList ++ inodesOf (lba + e.sectors.length) rest

theorem Entry.sectors_length (e : Entry) : e.sectors.length = 1 + dataSectors e.content.length := by
  simp [sectors, data, Nat.add_comm]

/-- One turn of the loop at a header. -/
theorem turn_header {e : Entry} (he : e.Valid) (hplain : e.Plain)
    (h : dev.Holds s.lba (e.sectors ++ l)) :
    turn dev s = .next {
      lba := s.lba + e.sectors.length
      prevZero := false
      fs := (e.inode s.lba).toList.foldl register s.fs
      reads := s.reads ++ [s.lba] } := by
  have hread := h.head.2
  have hfits := h.tail.1
  have hcap := dev.capacity_lt
  have hlba : (s.lba + 1) % 2 ^ 64 = s.lba + 1 := Nat.mod_eq_of_lt (by
    rw [Entry.sectors_length] at hfits
    omega)
  have hnext : (s.lba + 1 + dataSectors e.size) % 2 ^ 64 = s.lba + e.sectors.length := by
    rw [Entry.sectors_length, he.length_content hplain] at hfits ⊢
    rw [Nat.mod_eq_of_lt (by omega), Nat.add_assoc]
  simp only [turn, hread, Entry.isZero_header, he.parseHeader, hlba, hnext]
  cases e.inode s.lba with
  | none => rfl
  | some i => rfl

theorem isZero_zeroSector : isZero zeroSector = true := by
  rw [isZero, List.all_eq_true]
  intro i _
  rfl

/-- The two blocks that close an archive end the loop. -/
theorem scan_end (hzero : s.prevZero = false)
    (h : dev.Holds s.lba [zeroSector, zeroSector]) (fuel : Nat) :
    ∃ s', scan dev (fuel + 2) s = some (s', .ok s.fs) := by
  obtain ⟨hlt, hread⟩ := h.head
  have hrest : dev.Holds (s.lba + [zeroSector].length) [zeroSector] := Device.Holds.tail h
  obtain ⟨hlt', hread'⟩ := hrest.head
  have hcap := dev.capacity_lt
  have hlba : (s.lba + 1) % 2 ^ 64 = s.lba + 1 := Nat.mod_eq_of_lt (by omega)
  have hfirst : turn dev s =
      .next { s with prevZero := true, lba := s.lba + 1, reads := s.reads ++ [s.lba] } := by
    simp only [turn, hread, isZero_zeroSector, hzero, hlba, if_true, Bool.false_eq_true, if_false]
  rw [scan, if_pos hlt, hfirst]
  dsimp only
  have hsecond : turn dev { s with
        prevZero := true
        lba := s.lba + 1
        reads := s.reads ++ [s.lba] } =
      .stop { s with
        prevZero := true
        lba := s.lba + 1
        reads := s.reads ++ [s.lba] ++ [s.lba + 1] } := by
    have hread'' : dev.readBlocksBlocking (s.lba + 1) = .ok zeroSector := hread'
    simp [turn, hread'', isZero_zeroSector]
  have hlt'' : s.lba + 1 < dev.capacitySectors := hlt'
  rw [scan]
  dsimp only
  rw [if_pos hlt'', hsecond]
  exact ⟨_, rfl⟩

/-- The loop over an archive registers its inodes in order. -/
theorem scan_archive (es : List Entry) (hes : ∀ e ∈ es, e.Valid ∧ e.Plain)
    (hzero : s.prevZero = false) (h : dev.Holds s.lba (archive es)) (fuel : Nat) :
    ∃ s', scan dev (es.length + fuel + 2) s =
      some (s', .ok ((inodesOf s.lba es).foldl register s.fs)) := by
  induction es generalizing s with
  | nil =>
    rw [List.length_nil, Nat.zero_add]
    exact scan_end hzero h fuel
  | cons e es ih =>
    obtain ⟨he, hplain⟩ := hes e (.head _)
    rw [archive_cons] at h
    have hlt := h.head.1
    obtain ⟨s', hs'⟩ := ih (fun e' he' => hes e' (.tail _ he'))
      (s := ⟨s.lba + e.sectors.length, false,
        (e.inode s.lba).toList.foldl register s.fs, s.reads ++ [s.lba]⟩) rfl h.tail
    refine ⟨s', ?_⟩
    have hfuel : (e :: es).length + fuel + 2 = (es.length + fuel + 2) + 1 := by
      rw [List.length_cons]
      omega
    rw [hfuel, scan, if_pos hlt, turn_header he hplain h]
    dsimp only
    rw [hs', inodesOf, List.foldl_append]

/-- Nothing is known of sector numbers past the archive, so they have not wrapped. -/
theorem inodesOf_files (es : List Entry) (hes : ∀ e ∈ es, e.Valid ∧ e.Plain) (lba : Nat)
    (h : dev.Holds lba (archive es)) : (inodesOf lba es).map TarInode.file = files lba es := by
  induction es generalizing lba with
  | nil => rfl
  | cons e es ih =>
    rw [archive_cons] at h
    have hlt := h.head.1
    have hcap := dev.capacity_lt
    have hlba : (lba + 1) % 2 ^ 64 = lba + 1 := Nat.mod_eq_of_lt (by omega)
    obtain ⟨he, hplain⟩ := hes e (.head _)
    rw [inodesOf, List.map_append, ih (fun e' he' => hes e' (.tail _ he')) _ h.tail, files,
      Entry.inode, he.type.kindOf, hplain.path, hlba]
    cases e.type.kind with
    | none => rfl
    | some kind =>
      dsimp only
      split <;> rfl

/-- What the index gives for a path. -/
def Tarfs.lookup (fs : Tarfs) (p : Path) : Option File :=
  ((fs.byPath p).bind fun id => (fs.inodes[id]?).join).map fun i => i.file.2

def rootFile : File := ⟨.dir, 0, 0⟩

theorem foldl_register_inodes (is : List TarInode) (fs : Tarfs) :
    (is.foldl register fs).inodes = fs.inodes ++ is.map some := by
  induction is generalizing fs with
  | nil => simp
  | cons i is ih => rw [List.foldl_cons, ih, register, List.map_cons, List.append_assoc]; rfl

end Orbit.Tar
