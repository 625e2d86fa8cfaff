import Orbit.Mem.Requests

/-!
The memory of a new process: its root table, the segments of its ELF image and the argument
pages. The ELF parser is outside the model: a program is what the parser returns of it, and
every such value is allowed.
-/

namespace Orbit.Mem

open Paging PagePermissions

inductive SegmentType where
  | load
  | tls
  | other
  deriving DecidableEq

/-- A program header. `data` is the result of `segment_data`, whose length is
`p_filesz` when the file has the bytes. -/
structure Segment where
  pType : SegmentType
  pFlags : Nat
  pVaddr : Nat
  pFilesz : Nat
  pMemsz : Nat
  data : Option (List UInt8)
  vaddr_lt : pVaddr < 2 ^ 64
  memsz_lt : pMemsz < 2 ^ 64
  data_length : ∀ bytes, data = some bytes → bytes.length = pFilesz

structure TlsTemplate where
  template : List UInt8
  memsz : Nat
  deriving DecidableEq

structure ElfInfo where
  segments : List PhysBacking
  tls : Option TlsTemplate
  deriving DecidableEq

namespace Segment

def memSize (seg : Segment) (bytes : List UInt8) : Nat := max bytes.length seg.pMemsz

def permissions (seg : Segment) : Nat :=
  let perms := u
  let perms := if 0 < seg.pFlags &&& 1 then perms ||| PagePermissions.x else perms
  let perms := if 0 < seg.pFlags &&& 2 then perms ||| w else perms
  if 0 < seg.pFlags &&& 4 then perms ||| r else perms

def config (seg : Segment) (paddr : Nat) : MappingConfig :=
  pageConfig seg.permissions (roundDown seg.pVaddr pageSize) paddr .none

end Segment

namespace State

/-- The bytes of a segment: the file's, then zeros up to the end of the window, which
is the size asked for and not the end of its last page. -/
def fillSegment (s : State) (seg : Segment) (bytes : List UInt8) (frame : Nat) : State :=
  let s := s.setRam (s.mem.ram.copy frame bytes)
  if seg.pFilesz < seg.pMemsz then
    s.writeBytes (frame + seg.pFilesz) (seg.memSize bytes - seg.pFilesz) 0
  else s

/-- The `PT_LOAD` loop of `load_elf`; `none` is its error return. -/
def loadSegments (s : State) (root : Nat) (acc : List PhysBacking) :
    List Segment → Except Panic (Option (List PhysBacking) × State)
  | [] => .ok (some acc, s)
  | seg :: rest =>
    if seg.pType ≠ .load then s.loadSegments root acc rest
    -- the two returns below leave what was allocated so far behind
    else if seg.pVaddr < userTextBase then .ok (none, s)
    else if seg.pMemsz = 0 then s.loadSegments root acc rest
    else
      match seg.data with
      | none => .ok (none, s)
      | some bytes =>
        let layout : Layout := ⟨seg.memSize bytes, pageSize⟩
        match s.alloc .userOnly layout with
        | none => .ok (none, s.freeBackings acc)
        | some (frame, s) =>
          match userPageWindow frame layout.size with
          | .error p => .error p
          | .ok () =>
            let s := s.fillSegment seg bytes frame
            let acc := acc ++ [.user frame layout]
            let len := roundUp layout.size pageSize
            match s.mapAddressRange root (seg.config frame)
                (roundDown seg.pVaddr pageSize + len) (frame + len) with
            | (false, s) => .ok (none, s.freeBackings acc)
            | (true, s) => s.loadSegments root acc rest

end State

/-- The `PT_TLS` loop of `load_elf`; the outer `none` is its error return. -/
def loadTls (tls : Option TlsTemplate) : List Segment → Option (Option TlsTemplate)
  | [] => some tls
  | seg :: rest =>
    if seg.pType ≠ .tls then loadTls tls rest
    else if seg.pMemsz = 0 then loadTls tls rest
    else if uprocTlsMax < seg.pMemsz then none
    else if tls.isSome then none
    else
      match seg.data with
      | none => none
      | some bytes => loadTls (some ⟨bytes, seg.pMemsz⟩) rest

/-- `ArgvHeader`, and where the offsets start -/
def argvOffsetsOffset : Nat := 8

namespace State

/-- `load_elf`; `none` for a blob the parser rejects. -/
def loadElf (s : State) (root : Nat) (elf : Option (List Segment)) :
    Except Panic (Option ElfInfo × State) :=
  match elf with
  | none => .ok (none, s)
  | some segments =>
    match s.loadSegments root [] segments with
    | .error p => .error p
    | .ok (none, s) => .ok (none, s)
    | .ok (some backings, s) =>
      match loadTls none segments with
      | none => .ok (none, s.freeBackings backings)
      | some tls => .ok (some ⟨backings, tls⟩, s)

/-- `create_new_page_table` -/
def createNewPageTable (s : State) : Option (Nat × State) :=
  match s.alloc .table pageLayout with
  | none => none
  | some (root, s) => some (root, s.writeBytes root pageSize 0)

end State

/-- Rewrite `n` offsets from slot `i` on as addresses; `false` at the first offset
outside the blob, with the slots before it rewritten. -/
def rewriteOffsets (ram : Ram) (page targetVa blobLen : Nat) : Nat → Nat → Bool × Ram
  | 0, _ => (true, ram)
  | n + 1, i =>
    let slot := page + argvOffsetsOffset + 8 * i
    let off := ram.word slot
    if blobLen ≤ off then (false, ram)
    else rewriteOffsets (ram.setWord slot ((targetVa + off) % 2 ^ 64))
      page targetVa blobLen n (i + 1)

/-- `u32::from_le_bytes` of the first four bytes. -/
def blobArgc (blob : List UInt8) : Nat :=
  (blob.getD 0 0).toNat + (blob.getD 1 0).toNat * 2 ^ 8 + (blob.getD 2 0).toNat * 2 ^ 16 +
    (blob.getD 3 0).toNat * 2 ^ 24

namespace State

/-- `install_argv_envp_page` once it has asked the pool for a page. -/
def installOn (s0 : State) (pid : Nat) (blob : List UInt8) (targetVa argc : Nat)
    (x : Option (Nat × State)) : Option PhysBacking × State :=
  match x with
  | none => (none, s0)
  | some (frame, s) =>
    let backing := PhysBacking.shared frame pageLayout
    let s := s.writeBytes frame pageSize 0
    let s := s.setRam (s.mem.ram.copy frame blob)
    match rewriteOffsets s.mem.ram frame targetVa blob.length argc 0 with
    | (false, ram) => (none, (s.setRam ram).freeBacking backing)
    | (true, ram) =>
      let s := s.setRam ram
      match s.processes.get pid with
      -- the page is not given back here
      | none => (none, s)
      | some p =>
        match s.mapAddressRange p.root
            (pageConfig (r ||| u) targetVa frame .none)
            (targetVa + pageSize) (frame + pageSize) with
        | (false, s) => (none, s.freeBacking backing)
        | (true, s) => (some backing, s)

def installArgvEnvpPage (s : State) (pid : Nat) (blob : List UInt8) (targetVa : Nat) :
    Option PhysBacking × State :=
  if pageSize < blob.length then (none, s)
  else if blob.length < argvOffsetsOffset then (none, s)
  else if blob.length < argvOffsetsOffset + blobArgc blob * 8 then (none, s)
  else s.installOn pid blob targetVa (blobArgc blob) (s.alloc .shared pageLayout)

def installArgvBlob (s : State) (pid : Nat) (blob : List UInt8) : State :=
  match s.installArgvEnvpPage pid blob userArgvBase with
  | (none, s) => s
  | (some backing, s) =>
    match s.processes.get pid with
    | none => s
    | some p => s.setProcess pid { p with argvBlob := some backing }

def installEnvpBlob (s : State) (pid : Nat) (blob : List UInt8) : State :=
  match s.installArgvEnvpPage pid blob userEnvpBase with
  | (none, s) => s
  | (some backing, s) =>
    match s.processes.get pid with
    | none => s
    | some p => s.setProcess pid { p with envpBlob := some backing }

end State

end Orbit.Mem
