import Mathlib.Data.Nat.Bitwise

/-!
`Tarfs::mount`: a walk over the sectors of a block device that reads one header after
the other, enters regular files and directories into the inode table and the index of
paths, and skips the data. Sector numbers are 64 bits wide and inode numbers 32; the
kernel is built without overflow checks, so their arithmetic wraps.

A path is the list of its bytes. A sector is given byte by byte.
-/

namespace Orbit.Tar

abbrev Path := List UInt8

abbrev Sector := Nat → UInt8

def sectorSize : Nat := 512

def headerNameLen : Nat := 100
def headerModeOffset : Nat := 100
def headerModeLen : Nat := 8
def headerUidOffset : Nat := 108
def headerUidLen : Nat := 8
def headerGidOffset : Nat := 116
def headerGidLen : Nat := 8
def headerSizeOffset : Nat := 124
def headerSizeLen : Nat := 12
def headerMtimeOffset : Nat := 136
def headerMtimeLen : Nat := 12
def headerTypeflagOffset : Nat := 156
def headerMagicOffset : Nat := 257
def headerPrefixOffset : Nat := 345
def headerPrefixLen : Nat := 155

/-- `b"ustar\0"` -/
def ustarMagic : List UInt8 := [117, 115, 116, 97, 114, 0]
/-- `b"ustar "` -/
def ustarMagicGnu : List UInt8 := [117, 115, 116, 97, 114, 32]

def typeflagRegNul : UInt8 := 0
def typeflagReg0 : UInt8 := 48
def typeflagDir : UInt8 := 53

/-- `b'/'` and `b'.'` -/
def slash : UInt8 := 47
def dot : UInt8 := 46

inductive Kind where
  | reg
  | dir
  deriving DecidableEq

structure TarInode where
  path : Path
  kind : Kind
  dataSector : Nat
  size : Nat
  modePerms : Nat
  uid : Nat
  gid : Nat
  mtime : Nat

inductive BlockError where
  | queueFull
  | badStatus (status : UInt8)
  | outOfRange
  | timeout

inductive MountErr where
  | block (e : BlockError)
  | badHeader (lba : Nat)
  | badMagic (lba : Nat)

/-- What `read_blocks_blocking` gives for each sector number, and the capacity the device
reports. -/
structure Device where
  capacitySectors : Nat
  capacity_lt : capacitySectors < 2 ^ 64
  readBlocksBlocking : Nat → Except BlockError Sector

structure Tarfs where
  inodes : List (Option TarInode)
  byPath : Path → Option Nat

/-- `&buf[start..start + len]` -/
def slice (buf : Sector) (start len : Nat) : List UInt8 :=
  (List.range len).map fun i => buf (start + i)

/-- `core::str::from_utf8` accepts the bytes. -/
def validUtf8 (bytes : List UInt8) : Bool := (ByteArray.mk bytes.toArray).validateUTF8

def ntStr (bytes : List UInt8) : Path :=
  let s := bytes.takeWhile (· ≠ 0)
  if validUtf8 s then s else []

/-- `checked_mul(8)` and `checked_add(d)` -/
def pushDigit (acc : Nat) (d : Nat) : Option Nat :=
  if acc * 8 < 2 ^ 64 then
    if acc * 8 + d < 2 ^ 64 then some (acc * 8 + d) else none
  else none

def parseOctalFrom (acc : Nat) (sawDigit : Bool) : List UInt8 → Option Nat
  | [] => some acc
  | b :: rest =>
    if b = 32 ∨ b = 0 then if sawDigit then some acc else parseOctalFrom acc sawDigit rest
    else if 48 ≤ b ∧ b ≤ 55 then
      match pushDigit acc (b.toNat - 48) with
      | none => none
      | some acc => parseOctalFrom acc true rest
    else none

def parseOctal (bytes : List UInt8) : Option Nat := parseOctalFrom 0 false bytes

/-- `trim_end_matches('/')` -/
def trimEndSlashes (s : Path) : Path := (s.reverse.dropWhile (· = slash)).reverse

/-- The part of `canonicalize_path` before it looks at `./`. -/
def joinPath (pre name : Path) : Path :=
  if pre = [] then name
  else if pre.getLast? = some slash then pre ++ name
  else pre ++ [slash] ++ name

def canonicalizePath (pre name : Path) : Path :=
  let joined := joinPath pre name
  if joined = [dot] then []
  else
    let s := match joined with
      | 46 :: 47 :: rest => rest
      | s => s
    let s := trimEndSlashes s
    if s = [] then [] else slash :: s

def kindOf (typeflag : UInt8) : Option Kind :=
  if typeflag = typeflagRegNul ∨ typeflag = typeflagReg0 then some .reg
  else if typeflag = typeflagDir then some .dir
  else none

def rootInode : TarInode := ⟨[], .dir, 0, 0, 0o755, 0, 0, 0⟩

/-- The table with its null entry and the root that no archive has. -/
def Tarfs.new : Tarfs where
  inodes := [none, some rootInode]
  byPath p := if p = [slash] then some 1 else none

/-- `inodes.push(..)` and `by_path.insert(..)`. -/
def Tarfs.register (fs : Tarfs) (e : TarInode) : Tarfs where
  inodes := fs.inodes ++ [some e]
  byPath p := if p = e.path then some (fs.inodes.length % 2 ^ 32) else fs.byPath p

/-- The size a header gives and the entry it makes, if any. -/
def parseHeader (buf : Sector) (lba : Nat) : Except MountErr (Nat × Option TarInode) :=
  let magic := slice buf headerMagicOffset 6
  if magic ≠ ustarMagic ∧ magic ≠ ustarMagicGnu then .error (.badMagic lba)
  else
    let name := ntStr (slice buf 0 headerNameLen)
    let pre := ntStr (slice buf headerPrefixOffset headerPrefixLen)
    let path := canonicalizePath pre name
    match parseOctal (slice buf headerSizeOffset headerSizeLen) with
    | none => .error (.badHeader lba)
    | some size =>
      let number := fun start len => (parseOctal (slice buf start len)).getD 0
      let dataLba := (lba + 1) % 2 ^ 64
      match kindOf (buf headerTypeflagOffset) with
      | none => .ok (size, none)
      | some kind =>
        if path = [] then .ok (size, none)
        else .ok (size, some {
          path
          kind
          dataSector := if kind = .reg then dataLba else 0
          size
          modePerms := number headerModeOffset headerModeLen % 2 ^ 32 &&& 0o7777
          uid := number headerUidOffset headerUidLen % 2 ^ 32
          gid := number headerGidOffset headerGidLen % 2 ^ 32
          mtime := number headerMtimeOffset headerMtimeLen })

/-- `(size + SECTOR_SIZE - 1) / SECTOR_SIZE` -/
def dataSectors (size : Nat) : Nat := (size + sectorSize - 1) / sectorSize

/-- The variables of the loop, and which sectors it has read. -/
structure Scan where
  lba : Nat
  prevZero : Bool
  fs : Tarfs
  reads : List Nat

def Scan.start : Scan := ⟨0, false, .new, []⟩

def isZero (buf : Sector) : Bool := (List.range sectorSize).all fun i => buf i = 0

/-- How a turn of the loop ends. -/
inductive Turn where
  | next (s : Scan)
  | stop (s : Scan)
  | fail (s : Scan) (e : MountErr)

/-- The body of the loop. -/
def turn (dev : Device) (s : Scan) : Turn :=
  let s := { s with reads := s.reads ++ [s.lba] }
  match dev.readBlocksBlocking s.lba with
  | .error e => .fail s (.block e)
  | .ok buf =>
    if isZero buf then
      if s.prevZero then .stop s
      else .next { s with prevZero := true, lba := (s.lba + 1) % 2 ^ 64 }
    else
      match parseHeader buf s.lba with
      | .error e => .fail s e
      | .ok (size, entry) =>
        .next { s with
          prevZero := false
          fs := match entry with
            | none => s.fs
            | some e => s.fs.register e
          lba := ((s.lba + 1) % 2 ^ 64 + dataSectors size) % 2 ^ 64 }

/-- `while lba < capacity`, for as many turns as there is fuel; `none` is a loop that has
not ended by then. -/
def scan (dev : Device) : Nat → Scan → Option (Scan × Except MountErr Tarfs)
  | 0, _ => none
  | fuel + 1, s =>
    if s.lba < dev.capacitySectors then
      match turn dev s with
      | .next s => scan dev fuel s
      | .stop s => some (s, .ok s.fs)
      | .fail s e => some (s, .error e)
    else some (s, .ok s.fs)

def mount (dev : Device) (fuel : Nat) : Option (Scan × Except MountErr Tarfs) :=
  scan dev fuel .start

end Orbit.Tar
