import Orbit.Tar.Mount

/-!
Archives as the ustar format has them: each entry is a header block and its content in whole
blocks, and two blocks of zeros close the archive. A header has its fields at their
places and anything in between; a number is written in octal digits, with blanks before
it and a blank or a NUL after it where the field has room. Directories, links and special
files have no content, whatever their size field says.
-/

namespace Orbit.Tar

variable {i n : Nat}

/-- The number octal digits stand for. -/
def octalValue (digits : List UInt8) : Nat := digits.foldl (fun acc d => acc * 8 + (d.toNat - 48)) 0

/-- The field holds `n` in octal. -/
structure OctalField (field : List UInt8) (n : Nat) : Prop where
  parts : ∃ pad digits rest, field = pad ++ digits ++ rest ∧ (∀ b ∈ pad, b = 32) ∧
    (∀ d ∈ digits, 48 ≤ d ∧ d ≤ 55) ∧ digits ≠ [] ∧ octalValue digits = n ∧
    (rest = [] ∨ ∃ b tail, rest = b :: tail ∧ (b = 32 ∨ b = 0))
  length : field.length = headerSizeLen

/-- What a header describes. -/
inductive EntryType where
  | regular
  /-- a regular file, marked by a NUL -/
  | oldRegular
  | link
  | symlink
  | charDevice
  | blockDevice
  | directory
  | fifo
  /-- an extension, such as the headers of `pax` -/
  | other (flag : UInt8)

namespace EntryType

def flag : EntryType → UInt8
  | oldRegular => 0
  | regular => 48
  | link => 49
  | symlink => 50
  | charDevice => 51
  | blockDevice => 52
  | directory => 53
  | fifo => 54
  | other flag => flag

def Wf : EntryType → Prop
  | other flag => flag ≠ 0 ∧ ¬ (48 ≤ flag ∧ flag ≤ 54)
  | _ => True

def kind : EntryType → Option Kind
  | regular | oldRegular => some .reg
  | directory => some .dir
  | _ => none

/-- Blocks of content follow the header. -/
def hasData : EntryType → Bool
  | regular | oldRegular | other _ => true
  | _ => false

theorem Wf.kindOf {t : EntryType} (h : t.Wf) : kindOf t.flag = t.kind := by
  cases t with
  | other flag =>
    have hreg : ¬ (flag = typeflagRegNul ∨ flag = typeflagReg0) := by
      rintro (rfl | rfl)
      · exact h.1 rfl
      · exact h.2 (by decide)
    have hdir : flag ≠ typeflagDir := by
      rintro rfl
      exact h.2 (by decide)
    exact (if_neg hreg).trans (if_neg hdir)
  | _ => rfl

end EntryType

/-- The components of a path. Empty ones and `.` name nothing. -/
def components (raw : Path) : List Path :=
  (raw.splitOn slash).filter fun c => c ≠ [] ∧ c ≠ [dot]

/-- But for a `.` in front and slashes at the end, the path has no empty component and no `.` -/
def Tidy (raw : Path) : Prop :=
  ∃ lead comps trail, raw.splitOn slash = lead ++ comps ++ trail ∧ (lead = [] ∨ lead = [[dot]]) ∧
    (∀ c ∈ comps, c ≠ [] ∧ c ≠ [dot]) ∧ ∀ c ∈ trail, c = []

structure Entry where
  name : Path
  /-- the field `prefix` -/
  pre : Path
  type : EntryType
  gnu : Bool
  sizeField : List UInt8
  /-- the number in the size field -/
  size : Nat
  /-- what stands between the fields -/
  other : Sector
  content : List UInt8

namespace Entry

def magic (e : Entry) : List UInt8 := if e.gnu then ustarMagicGnu else ustarMagic

def header (e : Entry) : Sector := fun i =>
  if i < headerNameLen then e.name.getD i 0
  else if headerSizeOffset ≤ i ∧ i < headerSizeOffset + headerSizeLen then
    e.sizeField.getD (i - headerSizeOffset) 0
  else if i = headerTypeflagOffset then e.type.flag
  else if headerMagicOffset ≤ i ∧ i < headerMagicOffset + 6 then
    e.magic.getD (i - headerMagicOffset) 0
  else if headerPrefixOffset ≤ i ∧ i < headerPrefixOffset + headerPrefixLen then
    e.pre.getD (i - headerPrefixOffset) 0
  else e.other i

/-- A header of the format: its names fit and are text, and as many bytes follow as it says if
its type has content. -/
structure Valid (e : Entry) : Prop where
  name_le : e.name.length ≤ headerNameLen
  name_nul : 0 ∉ e.name
  name_utf8 : validUtf8 e.name = true
  pre_le : e.pre.length ≤ headerPrefixLen
  pre_nul : 0 ∉ e.pre
  pre_utf8 : validUtf8 e.pre = true
  type : e.type.Wf
  size : OctalField e.sizeField e.size
  content : e.content.length = if e.type.hasData then e.size else 0

/-- The name of an entry in full. -/
def fullName (e : Entry) : Path := if e.pre = [] then e.name else e.pre ++ slash :: e.name

/-- The canonical path; that of the root is empty. -/
def path (e : Entry) : Path := (components e.fullName).flatMap (slash :: ·)

/-- What the mount takes for granted: a header without content has size zero, and the name is
written without empty components. -/
structure Plain (e : Entry) : Prop where
  size : e.type.hasData = false → e.size = 0
  name : Tidy e.fullName
  pre : e.pre.getLast? ≠ some slash

/-- The content in sectors, the last one filled up with zeros. -/
def data (e : Entry) : List Sector :=
  (List.range (dataSectors e.content.length)).map fun j i => e.content.getD (sectorSize * j + i) 0

def sectors (e : Entry) : List Sector := e.header :: e.data

end Entry

def zeroSector : Sector := fun _ => 0

def archive (es : List Entry) : List Sector := es.flatMap Entry.sectors ++ [zeroSector, zeroSector]

/-- The device holds the sectors from `lba` on. -/
def Device.Holds (dev : Device) (lba : Nat) (sectors : List Sector) : Prop :=
  lba + sectors.length ≤ dev.capacitySectors ∧
    ∀ i (h : i < sectors.length), dev.readBlocksBlocking (lba + i) = .ok sectors[i]

/-- What an index says of a path. -/
structure File where
  kind : Kind
  size : Nat
  dataSector : Nat
  deriving DecidableEq

/-- The files and directories of an archive that begins at `lba`, in their order. -/
def files (lba : Nat) : List Entry → List (Path × File)
  | [] => []
  | e :: rest =>
    let tail := files (lba + e.sectors.length) rest
    match e.type.kind with
    | none => tail
    | some kind =>
      if e.path = [] then tail
      else (e.path, ⟨kind, e.size, if kind = .reg then lba + 1 else 0⟩) :: tail

theorem not_mem_of_mem_splitOn {a : UInt8} {xs c : List UInt8} (h : c ∈ xs.splitOn a) :
    a ∉ c := by
  induction xs generalizing c with
  | nil =>
    rw [List.splitOn_nil, List.mem_singleton] at h
    rw [h]
    exact List.not_mem_nil
  | cons x xs ih =>
    rw [List.splitOn_cons_eq_if_modifyHead] at h
    split at h
    · rcases List.mem_cons.mp h with rfl | hin
      · exact List.not_mem_nil
      · exact ih hin
    next hx =>
    cases hparts : xs.splitOn a with
    | nil => exact absurd hparts (List.splitOn_ne_nil a xs)
    | cons first rest =>
      rw [hparts, List.modifyHead_cons] at h
      rcases List.mem_cons.mp h with rfl | hin
      · have hfirst : a ∉ first := ih (by rw [hparts]; exact List.mem_cons_self)
        rw [List.mem_cons, not_or]
        refine ⟨?_, hfirst⟩
        rintro rfl
        exact hx (beq_self_eq_true a)
      · exact ih (by rw [hparts]; exact List.mem_cons_of_mem _ hin)

/-- Empty components at the end are slashes. -/
theorem intercalate_trail (c : Path) {trail : List Path} (h : ∀ t ∈ trail, t = []) :
    [slash].intercalate (c :: trail) = c ++ List.replicate trail.length slash := by
  induction trail generalizing c with
  | nil => rw [List.intercalate_singleton, List.length_nil, List.replicate_zero, List.append_nil]
  | cons t trail ih =>
    rw [List.forall_mem_cons] at h
    rw [List.intercalate_cons_cons, h.1, ih [] h.2, List.nil_append, List.length_cons,
      List.replicate_succ, List.append_assoc, List.singleton_append]

theorem intercalate_comps {comps trail : List Path} (hne : comps ≠ [])
    (h : ∀ t ∈ trail, t = []) : [slash].intercalate (comps ++ trail) =
      [slash].intercalate comps ++ List.replicate trail.length slash := by
  induction comps with
  | nil => exact absurd rfl hne
  | cons c comps ih =>
    cases comps with
    | nil => rw [List.singleton_append, intercalate_trail c h, List.intercalate_singleton]
    | cons d comps =>
      have hrest := ih (List.cons_ne_nil d comps)
      rw [List.cons_append, List.cons_append, List.intercalate_cons_cons, ← List.cons_append,
        hrest, List.intercalate_cons_cons, List.append_assoc _ _ (List.replicate _ _)]

theorem trimEndSlashes_slashes {s : Path} (h : s.getLast? ≠ some slash) (k : Nat) :
    trimEndSlashes (s ++ List.replicate k slash) = s := by
  have hdrop : (List.replicate k slash ++ s.reverse).dropWhile (· = slash) = s.reverse := by
    rw [List.dropWhile_append_of_pos]
    · cases hs : s.reverse with
      | nil => rfl
      | cons b rest =>
        rw [← List.head?_reverse, hs] at h
        exact List.dropWhile_cons_of_neg (by simpa using h)
    · intro b hb
      exact decide_eq_true (List.eq_of_mem_replicate hb)
  rw [trimEndSlashes, List.reverse_append, List.reverse_replicate, hdrop, List.reverse_reverse]

/-- Joined components do not end in a slash, and with a slash before each they are the path. -/
theorem intercalate_path {comps : List Path} (hne : comps ≠ [])
    (hcomps : ∀ c ∈ comps, c ≠ [] ∧ slash ∉ c) :
    ([slash].intercalate comps).getLast? ≠ some slash ∧ [slash].intercalate comps ≠ [] ∧
      slash :: [slash].intercalate comps = comps.flatMap (slash :: ·) := by
  induction comps with
  | nil => exact absurd rfl hne
  | cons c comps ih =>
    rw [List.forall_mem_cons] at hcomps
    cases comps with
    | nil =>
      rw [List.intercalate_singleton]
      refine ⟨fun hlast => hcomps.1.2 (List.mem_of_getLast? hlast), hcomps.1.1, ?_⟩
      rw [List.flatMap_cons, List.flatMap_nil, List.append_nil]
    | cons d comps =>
      obtain ⟨hlast, hsome, hpath⟩ := ih (List.cons_ne_nil d comps) hcomps.2
      rw [List.intercalate_cons_cons, List.append_assoc, List.singleton_append, hpath]
      refine ⟨?_, ?_, by rw [List.flatMap_cons]; rfl⟩
      · obtain ⟨b, rest, hrest⟩ := List.exists_cons_of_ne_nil hsome
        rw [hrest] at hlast
        rw [← hpath, hrest, List.getLast?_append, List.getLast?_cons_cons,
          List.getLast?_eq_some_getLast (List.cons_ne_nil b rest), Option.some_or]
        rwa [List.getLast?_eq_some_getLast (List.cons_ne_nil b rest)] at hlast
      · exact List.append_ne_nil_of_left_ne_nil hcomps.1.1 _

/-- What is left of a name after its leading `./`. -/
theorem canonicalize_rest {comps trail : List Path} (hcomps : ∀ c ∈ comps, c ≠ [] ∧ slash ∉ c)
    (htrail : ∀ t ∈ trail, t = []) :
    (if trimEndSlashes ([slash].intercalate (comps ++ trail)) = [] then []
      else slash :: trimEndSlashes ([slash].intercalate (comps ++ trail))) =
      comps.flatMap (slash :: ·) := by
  by_cases hne : comps = []
  · subst hne
    have hslashes : trimEndSlashes ([slash].intercalate ([] ++ trail)) = [] := by
      rw [List.nil_append]
      cases trail with
      | nil => rfl
      | cons t trail =>
        rw [List.forall_mem_cons] at htrail
        rw [htrail.1, intercalate_trail [] htrail.2]
        exact trimEndSlashes_slashes (by simp) _
    rw [if_pos hslashes]
    rfl
  · obtain ⟨hlast, hsome, hpath⟩ := intercalate_path hne hcomps
    rw [intercalate_comps hne htrail, trimEndSlashes_slashes hlast, if_neg hsome, hpath]

theorem Entry.Plain.path {e : Entry} (h : e.Plain) : canonicalizePath e.pre e.name = e.path := by
  have hjoin : joinPath e.pre e.name = e.fullName := by
    rw [joinPath, if_neg h.pre, Entry.fullName]
    split
    · rfl
    · rw [List.append_assoc, List.singleton_append]
  obtain ⟨lead, comps, trail, hsplit, hlead, hcomps, htrail⟩ := h.name
  have hraw : e.fullName = [slash].intercalate (lead ++ comps ++ trail) := by
    rw [← hsplit, List.intercalate_splitOn]
  have hslash : ∀ c ∈ comps, c ≠ [] ∧ slash ∉ c := by
    intro c hc
    have hin : c ∈ e.fullName.splitOn slash := by
      rw [hsplit]
      simp [hc]
    exact ⟨(hcomps c hc).1, not_mem_of_mem_splitOn hin⟩
  have hkeep : comps.filter (fun c => decide (c ≠ [] ∧ c ≠ [dot])) = comps :=
    List.filter_eq_self.mpr fun c hc => decide_eq_true (hcomps c hc)
  have hdrop : trail.filter (fun c => decide (c ≠ [] ∧ c ≠ [dot])) = [] :=
    List.filter_eq_nil_iff.mpr fun c hc => by simp [htrail c hc]
  have hnames : components e.fullName = comps := by
    rw [components, hsplit, List.filter_append, List.filter_append, hkeep, hdrop, List.append_nil]
    rcases hlead with rfl | rfl
    · rfl
    · exact List.nil_append _
  have hrest := canonicalize_rest hslash htrail
  rw [Entry.path, hnames, ← hrest, canonicalizePath, hjoin]
  dsimp only
  rcases hlead with rfl | rfl
  · -- no component is `.`, so there is nothing to strip
    have hfirst : ∀ rest, e.fullName.splitOn slash ≠ [dot] :: rest := by
      intro rest heq
      have hin : [dot] ∈ comps ++ trail := by
        rw [List.nil_append] at hsplit
        rw [← hsplit, heq]
        exact List.mem_cons_self
      rcases List.mem_append.mp hin with hin | hin
      · exact (hcomps _ hin).2 rfl
      · cases htrail _ hin
    have hdot : e.fullName ≠ [dot] := by
      intro heq
      exact hfirst [] (by rw [heq]; decide)
    rw [if_neg hdot]
    split
    · next rest heq =>
      have hdotted : slash ∉ [dot] := by decide
      refine absurd ?_ (hfirst (rest.splitOn slash))
      rw [heq]
      exact List.splitOn_append_cons_self_of_not_mem hdotted rest
    · rw [hraw, List.nil_append]
  · cases hall : comps ++ trail with
    | nil =>
      rw [List.append_assoc, hall, List.append_nil, List.intercalate_singleton] at hraw
      rw [if_pos hraw]
      rfl
    | cons c rest =>
      rw [List.append_assoc, hall, List.singleton_append, List.intercalate_cons_cons] at hraw
      rw [hraw, if_neg (by simp [dot])]
      rfl

theorem map_range_getD (l : List UInt8) (h : l.length ≤ n) :
    (List.range n).map (fun i => l.getD i 0) = l ++ List.replicate (n - l.length) 0 := by
  apply List.ext_getElem
  · simp [h]
  intro i hi _
  rw [List.getElem_map, List.getElem_range, List.getElem_append]
  split
  · next hlt => rw [List.getD_eq_getElem?_getD, List.getElem?_eq_getElem hlt, Option.getD_some]
  next hge =>
  rw [List.getElem_replicate, List.getD_eq_getElem?_getD, List.getElem?_eq_none (by omega),
    Option.getD_none]

theorem ntStr_padded {s : Path} (hnul : 0 ∉ s) (hutf8 : validUtf8 s = true) (k : Nat) :
    ntStr (s ++ List.replicate k 0) = s := by
  have htake : (s ++ List.replicate k 0).takeWhile (· ≠ 0) = s := by
    rw [List.takeWhile_append_of_pos]
    · cases k with
      | zero => simp
      | succ k => simp [List.replicate_succ]
    intro b hb
    have hne : b ≠ 0 := fun heq => hnul (heq ▸ hb)
    simpa using hne
  rw [ntStr, htake, if_pos hutf8]

/-- A field of the header, read back. -/
theorem slice_field {buf : Sector} {start len : Nat} {l : List UInt8} (hlen : l.length ≤ len)
    (h : ∀ i < len, buf (start + i) = l.getD i 0) :
    slice buf start len = l ++ List.replicate (len - l.length) 0 := by
  rw [slice, ← map_range_getD l hlen]
  apply List.map_congr_left
  intro i hi
  exact h i (List.mem_range.mp hi)

theorem foldl_octal_lt (digits : List UInt8) (h : ∀ d ∈ digits, 48 ≤ d ∧ d ≤ 55) (acc : Nat) :
    digits.foldl (fun acc d => acc * 8 + (d.toNat - 48)) acc < (acc + 1) * 8 ^ digits.length := by
  induction digits generalizing acc with
  | nil => simp
  | cons d digits ih =>
    have hd := (h d (.head _)).2
    have hle : d.toNat ≤ 55 := UInt8.le_iff_toNat_le.mp hd
    refine Nat.lt_of_lt_of_le (ih (fun d' hd' => h d' (.tail _ hd')) _) ?_
    rw [List.length_cons, Nat.pow_succ', ← Nat.mul_assoc]
    refine Nat.mul_le_mul_right _ ?_
    dsimp only
    omega

theorem parseOctalFrom_pad {pad : List UInt8} (h : ∀ b ∈ pad, b = 32) (acc : Nat) (l : List UInt8) :
    parseOctalFrom acc false (pad ++ l) = parseOctalFrom acc false l := by
  induction pad with
  | nil => rfl
  | cons b pad ih =>
    rw [h b (.head _), List.cons_append, parseOctalFrom, if_pos (.inl rfl)]
    exact ih fun b' hb' => h b' (.tail _ hb')

theorem parseOctalFrom_digits (digits : List UInt8) (h : ∀ d ∈ digits, 48 ≤ d ∧ d ≤ 55)
    (acc : Nat) (saw : Bool) (hacc : (acc + 1) * 8 ^ digits.length ≤ 2 ^ 64) (rest : List UInt8) :
    parseOctalFrom acc saw (digits ++ rest) =
      parseOctalFrom (digits.foldl (fun acc d => acc * 8 + (d.toNat - 48)) acc)
        (saw || !digits.isEmpty) rest := by
  induction digits generalizing acc saw with
  | nil => simp
  | cons d digits ih =>
    obtain ⟨hlo, hhi⟩ := h d (.head _)
    have hlo' : 48 ≤ d.toNat := UInt8.le_iff_toNat_le.mp hlo
    have hhi' : d.toNat ≤ 55 := UInt8.le_iff_toNat_le.mp hhi
    have hblank : ¬ (d = 32 ∨ d = 0) := by
      rintro (rfl | rfl)
      · exact absurd hlo' (by decide)
      · exact absurd hlo' (by decide)
    -- the number so far stays below what the digits still to come leave room for
    have hnext : (acc * 8 + (d.toNat - 48) + 1) * 8 ^ digits.length ≤ 2 ^ 64 := by
      refine Nat.le_trans (Nat.mul_le_mul_right _ ?_)
        (by rwa [List.length_cons, Nat.pow_succ', ← Nat.mul_assoc] at hacc)
      omega
    have hsmall : acc * 8 + (d.toNat - 48) < 2 ^ 64 :=
      Nat.lt_of_lt_of_le (Nat.lt_succ_self _)
        (Nat.le_trans (Nat.le_mul_of_pos_right _ (Nat.pow_pos (by decide))) hnext)
    have hpush : pushDigit acc (d.toNat - 48) = some (acc * 8 + (d.toNat - 48)) := by
      rw [pushDigit, if_pos (by omega), if_pos hsmall]
    rw [List.cons_append, parseOctalFrom, if_neg hblank, if_pos ⟨hlo, hhi⟩, hpush]
    dsimp only
    rw [ih (fun d' hd' => h d' (.tail _ hd')) _ true hnext]
    simp

theorem OctalField.parse {field : List UInt8} (h : OctalField field n) :
    parseOctal field = some n ∧ n < 8 ^ headerSizeLen := by
  obtain ⟨pad, digits, rest, hfield, hpad, hdigits, hne, hvalue, hrest⟩ := h.parts
  have hlen : digits.length ≤ headerSizeLen := by
    rw [← h.length, hfield]
    simp only [List.length_append]
    omega
  have hpow : 8 ^ digits.length ≤ 8 ^ headerSizeLen := Nat.pow_le_pow_right (by decide) hlen
  have hbound : n < 8 ^ digits.length := by
    rw [← hvalue, octalValue]
    exact Nat.lt_of_lt_of_eq (foldl_octal_lt digits hdigits 0) (by simp)
  refine ⟨?_, Nat.lt_of_lt_of_le hbound hpow⟩
  have hroom : (0 + 1) * 8 ^ digits.length ≤ 2 ^ 64 := by
    rw [Nat.zero_add, Nat.one_mul]
    exact Nat.le_trans hpow (by decide)
  rw [parseOctal, hfield, List.append_assoc, parseOctalFrom_pad hpad,
    parseOctalFrom_digits digits hdigits 0 false hroom]
  have hsaw : (false || !digits.isEmpty) = true := by
    cases digits with
    | nil => exact absurd rfl hne
    | cons d digits => rfl
  rw [hsaw]
  change parseOctalFrom (octalValue digits) true rest = some n
  rw [hvalue]
  rcases hrest with rfl | ⟨b, tail, rfl, hb⟩
  · rfl
  · rw [parseOctalFrom, if_pos hb, if_pos rfl]

namespace Entry

variable {e : Entry}

theorem header_name (h : i < headerNameLen) : e.header (0 + i) = e.name.getD i 0 := by
  rw [Nat.zero_add, header, if_pos h]

theorem header_size (h : i < headerSizeLen) :
    e.header (headerSizeOffset + i) = e.sizeField.getD i 0 := by
  rw [header, if_neg (by simp only [headerSizeOffset, headerNameLen]; omega), if_pos (by omega),
    Nat.add_sub_cancel_left]

theorem header_typeflag : e.header headerTypeflagOffset = e.type.flag := by
  simp [header, headerNameLen, headerSizeOffset, headerSizeLen, headerTypeflagOffset]

theorem header_magic (h : i < 6) :
    e.header (headerMagicOffset + i) = e.magic.getD i 0 := by
  rw [header, if_neg (by simp only [headerMagicOffset, headerNameLen]; omega),
    if_neg (by simp only [headerMagicOffset, headerSizeOffset, headerSizeLen]; omega),
    if_neg (by simp only [headerMagicOffset, headerTypeflagOffset]; omega), if_pos (by omega),
    Nat.add_sub_cancel_left]

theorem header_pre (h : i < headerPrefixLen) :
    e.header (headerPrefixOffset + i) = e.pre.getD i 0 := by
  rw [header, if_neg (by simp only [headerPrefixOffset, headerNameLen]; omega),
    if_neg (by simp only [headerPrefixOffset, headerSizeOffset, headerSizeLen]; omega),
    if_neg (by simp only [headerPrefixOffset, headerTypeflagOffset]; omega),
    if_neg (by simp only [headerPrefixOffset, headerMagicOffset]; omega), if_pos (by omega),
    Nat.add_sub_cancel_left]

theorem slice_magic : slice e.header headerMagicOffset 6 = e.magic := by
  have hlen : e.magic.length = 6 := by
    unfold magic
    split <;> rfl
  rw [slice_field (Nat.le_of_eq hlen) fun i hi => header_magic hi, hlen]
  exact List.append_nil _

/-- The inode a header makes. -/
def inode (e : Entry) (lba : Nat) : Option TarInode :=
  let number := fun start len => (parseOctal (slice e.header start len)).getD 0
  match kindOf e.type.flag with
  | none => none
  | some kind =>
    if canonicalizePath e.pre e.name = [] then none
    else some {
      path := canonicalizePath e.pre e.name
      kind
      dataSector := if kind = .reg then (lba + 1) % 2 ^ 64 else 0
      size := e.size
      modePerms := number headerModeOffset headerModeLen % 2 ^ 32 &&& 0o7777
      uid := number headerUidOffset headerUidLen % 2 ^ 32
      gid := number headerGidOffset headerGidLen % 2 ^ 32
      mtime := number headerMtimeOffset headerMtimeLen }

/-- A header is read as it was written. -/
theorem Valid.parseHeader (h : e.Valid) (lba : Nat) :
    parseHeader e.header lba = .ok (e.size, e.inode lba) := by
  have hmagic : ¬ (e.magic ≠ ustarMagic ∧ e.magic ≠ ustarMagicGnu) := by
    unfold magic
    split <;> simp
  have hname : ntStr (slice e.header 0 headerNameLen) = e.name := by
    rw [slice_field h.name_le fun i hi => header_name hi, ntStr_padded h.name_nul h.name_utf8]
  have hpre : ntStr (slice e.header headerPrefixOffset headerPrefixLen) = e.pre := by
    rw [slice_field h.pre_le fun i hi => header_pre hi, ntStr_padded h.pre_nul h.pre_utf8]
  have hsize : parseOctal (slice e.header headerSizeOffset headerSizeLen) =
      some e.size := by
    rw [slice_field (Nat.le_of_eq h.size.length) fun i hi => header_size hi, h.size.length,
      Nat.sub_self, List.replicate_zero, List.append_nil]
    exact h.size.parse.1
  simp only [Tar.parseHeader, slice_magic, hmagic, hname, hpre, hsize, header_typeflag, if_false]
  unfold inode
  cases kindOf e.type.flag with
  | none => rfl
  | some kind =>
    dsimp only
    split <;> rfl

/-- With size zero where there is no content, the header tells how many bytes follow it. -/
theorem Valid.length_content (h : e.Valid) (hplain : e.Plain) : e.content.length = e.size := by
  rw [h.content]
  split
  · rfl
  · next hnone => exact (hplain.size (Bool.eq_false_iff.mpr hnone)).symm

theorem isZero_header : isZero e.header = false := by
  have hbyte : e.header 257 ≠ 0 := by
    have hfirst := header_magic (e := e) (i := 0) (by decide)
    rw [Nat.add_zero] at hfirst
    change e.header headerMagicOffset ≠ 0
    rw [hfirst]
    unfold magic
    split <;> exact nofun
  rw [isZero, List.all_eq_false]
  exact ⟨257, List.mem_range.mpr (by decide), by simpa using hbyte⟩

end Entry

end Orbit.Tar
