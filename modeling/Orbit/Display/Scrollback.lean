import Orbit.Transition.Run
import Mathlib.Algebra.Order.BigOperators.Group.List
import Mathlib.Algebra.Order.Ring.Nat

/-!
The scrollback of a source: a parser of the bytes it writes, whose state lasts from one write to
the next, and the lines of styled text that it keeps.
-/

namespace Orbit.Display

open Transition

def maxLineLen : Nat := 256
def scrollbackLines : Nat := 500

def rgb (r g b : Nat) : Nat := 0xFF000000 + r * 2 ^ 16 + g * 2 ^ 8 + b

structure Style where
  fg : Nat
  bg : Nat
  deriving DecidableEq

/-- `Style::DEFAULT`, white on dark gray -/
def Style.default : Style := ⟨rgb 0xFF 0xFF 0xFF, rgb 0x20 0x20 0x20⟩

/-- The eight standard colours and the eight bright ones. -/
def ansiPalette : List Nat :=
  [rgb 0 0 0, rgb 0xCD 0x31 0x31, rgb 0x0D 0xBC 0x79, rgb 0xE5 0xE5 0x10, rgb 0x24 0x72 0xC8,
    rgb 0xBC 0x3F 0xBC, rgb 0x11 0xA8 0xCD, rgb 0xE5 0xE5 0xE5, rgb 0x66 0x66 0x66,
    rgb 0xF1 0x4C 0x4C, rgb 0x23 0xD1 0x8B, rgb 0xF5 0xF5 0x43, rgb 0x3B 0x8E 0xEA,
    rgb 0xD6 0x70 0xD6, rgb 0x29 0xB8 0xDB, rgb 0xFF 0xFF 0xFF]

def ansiColor (base code : Nat) : Option Nat :=
  if base ≤ code ∧ code ≤ base + 7 then ansiPalette[code - base]?
  else if base + 60 ≤ code ∧ code ≤ base + 67 then ansiPalette[code - (base + 60) + 8]?
  else none

def ansiFg : Nat → Option Nat := ansiColor 30
def ansiBg : Nat → Option Nat := ansiColor 40

/-- A run of text in one style, with its last character first. -/
structure StyledChunk where
  style : Style
  text : List UInt8
  /-- the most characters the string has held: it keeps room for them -/
  held : Nat
  deriving DecidableEq

/-- The runs of a line, the last one first. -/
structure StyledLine where
  chunks : List StyledChunk := []
  len : Nat := 0
  /-- the most runs the vector has held -/
  held : Nat := 0
  deriving DecidableEq

namespace StyledLine

/-- `clear`, which frees the strings and leaves the vector its room. -/
def clear (l : StyledLine) : StyledLine := { l with chunks := [], len := 0 }

def pushChar (l : StyledLine) (style : Style) (ch : UInt8) : StyledLine :=
  match l.chunks with
  | [] => ⟨[⟨style, [ch], 1⟩], l.len + 1, max l.held 1⟩
  | last :: rest =>
    if last.style = style then
      let held := max last.held (last.text.length + 1)
      ⟨{ last with text := ch :: last.text, held } :: rest, l.len + 1, l.held⟩
    else ⟨⟨style, [ch], 1⟩ :: last :: rest, l.len + 1, max l.held (rest.length + 2)⟩

/-- The loop of `pop_char`, which passes over runs that are empty. -/
def popLast (len held : Nat) : List StyledChunk → StyledLine
  | [] => ⟨[], len, held⟩
  | last :: rest =>
    match last.text with
    | [] => popLast len held rest
    | _ :: text => ⟨if text = [] then rest else { last with text } :: rest, len - 1, held⟩

def popChar (l : StyledLine) : StyledLine := popLast l.len l.held l.chunks

end StyledLine

inductive AnsiState where
  | normal
  | esc
  | csi (params : List UInt8)
  deriving DecidableEq

structure Scrollback where
  lines : List StyledLine
  pending : StyledLine
  style : Style
  ansi : AnsiState
  deriving DecidableEq

/-- `parse::<u32>().unwrap_or(0)` of bytes from `0` to `?` -/
def parseU32 (p : List UInt8) : Nat :=
  let n := p.foldl (fun n b => n * 10 + (b.toNat - 48)) 0
  if p.all (· ≤ 57) ∧ n < 2 ^ 32 then n else 0

/-- The loop of `apply_sgr`; `skip` codes belong to a colour that is passed over. -/
def applyCodes (style : Style) (skip : Nat) : List Nat → Style
  | [] => style
  | c :: rest =>
    if 0 < skip then applyCodes style (skip - 1) rest
    else if c = 0 then applyCodes .default 0 rest
    else if c = 39 then applyCodes { style with fg := Style.default.fg } 0 rest
    else if c = 49 then applyCodes { style with bg := Style.default.bg } 0 rest
    else if c = 38 ∨ c = 48 then
      applyCodes style (match rest.head? with
        | some 5 => 2
        | some 2 => 4
        | some _ => 1
        | none => 0) rest
    else applyCodes ⟨(ansiFg c).getD style.fg, (ansiBg c).getD style.bg⟩ 0 rest

def applySgr (style : Style) (params : List UInt8) : Style :=
  applyCodes style 0 (if params = [] then [0] else (params.splitOn 0x3b).map (parseU32 · % 256))

/-- Printable characters and blanks; a tab is one blank. -/
def printable (b : UInt8) : Option UInt8 :=
  if 0x20 ≤ b ∧ b ≤ 0x7e then some b else if b = 0x09 then some 0x20 else none

namespace Scrollback

def new : Scrollback := ⟨[], {}, .default, .normal⟩

def isEmpty (s : Scrollback) : Bool := s.lines = [] && s.pending.len = 0

/-- A byte outside escape sequences. -/
def plain (s : Scrollback) (b : UInt8) : Scrollback :=
  if b = 0x0a then { s with
    pending := {}
    lines := (if scrollbackLines ≤ s.lines.length then s.lines.tail else s.lines) ++ [s.pending] }
  else if b = 0x08 then { s with pending := s.pending.popChar }
  else if b = 0x0c then { s with lines := [], pending := s.pending.clear }
  else if maxLineLen ≤ s.pending.len then s
  else match printable b with
    | none => s
    | some ch => { s with pending := s.pending.pushChar s.style ch }

/-- One turn of the loop of `append`. -/
def appendByte (s : Scrollback) (b : UInt8) : Scrollback :=
  match s.ansi with
  | .normal => if b = 0x1b then { s with ansi := .esc } else s.plain b
  | .esc => { s with ansi := if b = 0x5b then .csi [] else .normal }
  | .csi params =>
    if 0x30 ≤ b ∧ b ≤ 0x3f then { s with ansi := .csi (params ++ [b]) }
    else if 0x20 ≤ b ∧ b ≤ 0x2f then s
    -- every other byte ends the sequence, and only `m` has an effect
    else if b = 0x6d then { s with ansi := .normal, style := applySgr s.style params }
    else { s with ansi := .normal }

def append (s : Scrollback) (chunk : List UInt8) : Scrollback := chunk.foldl appendByte s

end Scrollback

/-- Runs and characters. -/
def StyledLine.size (l : StyledLine) : Nat := (l.chunks.map fun c => 1 + c.text.length).sum

def AnsiState.params : AnsiState → List UInt8
  | csi params => params
  | _ => []

/-- What the kernel keeps for a source. -/
def Scrollback.retained (s : Scrollback) : Nat :=
  (s.lines.map fun l => 1 + l.size).sum + s.pending.size + s.ansi.params.length

/-- The most runs and characters that the vector and the strings of a line have held. Each has
room for a fixed multiple of that, also after backspaces. -/
def StyledLine.room (l : StyledLine) : Nat := l.held + (l.chunks.map StyledChunk.held).sum

/-- What the kernel keeps room for; the queue of lines has its room from the start. -/
def Scrollback.room (s : Scrollback) : Nat :=
  scrollbackLines + (s.lines.map StyledLine.room).sum + s.pending.room + s.ansi.params.length

/-- Nothing in a line has ever been longer than a line may be. -/
structure StyledLine.Held (l : StyledLine) : Prop where
  runs : l.held ≤ maxLineLen
  texts : ∀ c ∈ l.chunks, c.held ≤ maxLineLen

structure StyledLine.Ok (l : StyledLine) : Prop where
  len : l.len = (l.chunks.map fun c => c.text.length).sum
  full : ∀ c ∈ l.chunks, c.text ≠ []
  limit : l.len ≤ maxLineLen
  held : l.Held

theorem length_le_sum (chunks : List StyledChunk) (hfull : ∀ c ∈ chunks, c.text ≠ []) :
    chunks.length ≤ (chunks.map fun c => c.text.length).sum := by
  induction chunks with
  | nil => exact Nat.le_refl 0
  | cons c rest ih =>
    rw [List.forall_mem_cons] at hfull
    have hpos := List.length_pos_of_ne_nil hfull.1
    have hrest := ih hfull.2
    simp only [List.length_cons, List.map_cons, List.sum_cons]
    omega

namespace StyledLine.Held

variable {l : StyledLine}

theorem clear (h : l.Held) : l.clear.Held := ⟨h.runs, List.forall_mem_nil _⟩

theorem pushChar (h : l.Ok) (hroom : l.len < maxLineLen) (style : Style) (ch : UInt8) :
    (l.pushChar style ch).Held := by
  obtain ⟨chunks, len, held⟩ := l
  obtain ⟨hlen, hfull, -, hruns, htexts⟩ := h
  dsimp only at hlen hfull hroom hruns htexts
  have hcount := length_le_sum chunks hfull
  have hone : 1 ≤ maxLineLen := by decide
  cases chunks with
  | nil => exact ⟨Nat.max_le.mpr ⟨hruns, hone⟩, List.forall_mem_singleton.mpr hone⟩
  | cons last rest =>
    rw [List.forall_mem_cons] at htexts
    simp only [List.length_cons, List.map_cons, List.sum_cons] at hlen hcount
    simp only [StyledLine.pushChar]
    split
    · refine ⟨hruns, List.forall_mem_cons.mpr ⟨Nat.max_le.mpr ⟨htexts.1, ?_⟩, htexts.2⟩⟩
      omega
    · refine ⟨Nat.max_le.mpr ⟨hruns, ?_⟩, List.forall_mem_cons.mpr ⟨hone, ?_⟩⟩
      · omega
      · exact List.forall_mem_cons.mpr htexts

/-- Backspaces free no room but that of the runs they empty. -/
theorem popChar (h : l.Held) : l.popChar.Held := by
  obtain ⟨chunks, len, held⟩ := l
  obtain ⟨hruns, htexts⟩ := h
  dsimp only at hruns htexts
  show (popLast len held chunks).Held
  induction chunks with
  | nil => exact ⟨hruns, List.forall_mem_nil _⟩
  | cons last rest ih =>
    rw [List.forall_mem_cons] at htexts
    rw [popLast]
    split
    · exact ih htexts.2
    · refine ⟨hruns, ?_⟩
      dsimp only
      split
      · exact htexts.2
      · exact List.forall_mem_cons.mpr htexts

end StyledLine.Held

namespace StyledLine.Ok

variable {l : StyledLine}

theorem empty : Ok {} :=
  ⟨rfl, List.forall_mem_nil _, Nat.zero_le _, Nat.zero_le _, List.forall_mem_nil _⟩

theorem clear (h : l.Ok) : l.clear.Ok :=
  ⟨rfl, List.forall_mem_nil _, Nat.zero_le _, h.held.clear⟩

theorem size_le (h : l.Ok) : l.size ≤ 2 * maxLineLen := by
  have hsize : ∀ chunks : List StyledChunk, (∀ c ∈ chunks, c.text ≠ []) →
      (chunks.map fun c => 1 + c.text.length).sum ≤
        2 * (chunks.map fun c => c.text.length).sum := by
    intro chunks hfull
    induction chunks with
    | nil => exact Nat.le_refl 0
    | cons c rest ih =>
      rw [List.forall_mem_cons] at hfull
      have hpos := List.length_pos_of_ne_nil hfull.1
      have hrest := ih hfull.2
      simp only [List.map_cons, List.sum_cons]
      omega
  have hlen := h.len
  have hlimit := h.limit
  exact Nat.le_trans (hsize l.chunks h.full) (by omega)

theorem room_le (h : l.Ok) : l.room ≤ maxLineLen + maxLineLen * maxLineLen := by
  have hcount : l.chunks.length ≤ maxLineLen :=
    Nat.le_trans (h.len ▸ length_le_sum l.chunks h.full) h.limit
  have hsum : (l.chunks.map StyledChunk.held).sum ≤ l.chunks.length * maxLineLen := by
    have hle := List.sum_le_card_nsmul (l.chunks.map StyledChunk.held) maxLineLen
      (List.forall_mem_map.mpr h.held.texts)
    rwa [List.length_map] at hle
  exact Nat.add_le_add h.held.runs (Nat.le_trans hsum (Nat.mul_le_mul_right _ hcount))

theorem pushChar (h : l.Ok) (hroom : l.len < maxLineLen) (style : Style) (ch : UInt8) :
    (l.pushChar style ch).Ok := by
  have hheld := Held.pushChar h hroom style ch
  obtain ⟨chunks, len, held⟩ := l
  obtain ⟨hlen, hfull, -, -⟩ := h
  cases chunks with
  | nil =>
    obtain rfl : len = 0 := hlen
    exact ⟨rfl, by simp [StyledLine.pushChar], hroom, hheld⟩
  | cons last rest =>
    simp only [List.map_cons, List.sum_cons, List.forall_mem_cons] at hlen hfull
    simp only [StyledLine.pushChar] at hheld ⊢
    split
    · next hsame =>
      rw [if_pos hsame] at hheld
      refine ⟨?_, List.forall_mem_cons.mpr ⟨List.cons_ne_nil _ _, hfull.2⟩, hroom, hheld⟩
      simp only [List.map_cons, List.sum_cons, List.length_cons]
      omega
    · next hother =>
      rw [if_neg hother] at hheld
      refine ⟨?_, List.forall_mem_cons.mpr ⟨List.cons_ne_nil _ _, List.forall_mem_cons.mpr hfull⟩,
        hroom, hheld⟩
      simp only [List.map_cons, List.sum_cons, List.length_singleton]
      omega

theorem popChar (h : l.Ok) : l.popChar.Ok := by
  have hheld := h.held.popChar
  obtain ⟨chunks, len, held⟩ := l
  obtain ⟨hlen, hfull, hlimit, -⟩ := h
  cases chunks with
  | nil => exact ⟨hlen, hfull, hlimit, hheld⟩
  | cons last rest =>
    obtain ⟨style, text, most⟩ := last
    rw [List.forall_mem_cons] at hfull
    cases text with
    | nil => exact absurd rfl hfull.1
    | cons ch text =>
      simp only [List.map_cons, List.sum_cons, List.length_cons] at hlen
      have hlimit' : len - 1 ≤ maxLineLen := Nat.le_trans (Nat.sub_le ..) hlimit
      simp only [StyledLine.popChar, popLast] at hheld ⊢
      by_cases hnil : text = []
      · rw [if_pos hnil] at hheld ⊢
        refine ⟨?_, hfull.2, hlimit', hheld⟩
        dsimp only
        rw [hlen, hnil, List.length_nil]
        omega
      · rw [if_neg hnil] at hheld ⊢
        refine ⟨?_, List.forall_mem_cons.mpr ⟨hnil, hfull.2⟩, hlimit', hheld⟩
        simp only [List.map_cons, List.sum_cons]
        omega

end StyledLine.Ok

/-- The limits on the history and on each line. -/
structure Limits (s : Scrollback) : Prop where
  lines : s.lines.length ≤ scrollbackLines
  each : ∀ l ∈ s.lines, l.Ok
  pending : s.pending.Ok

namespace Limits

variable {s : Scrollback}

theorem plain (h : Limits s) (b : UInt8) : Limits (s.plain b) := by
  unfold Scrollback.plain
  split
  · refine ⟨?_, ?_, .empty⟩
    · have hlines := h.lines
      rw [List.length_append, List.length_singleton]
      split
      · rw [List.length_tail]
        simp only [scrollbackLines] at *
        omega
      · omega
    · rw [List.forall_mem_append, List.forall_mem_singleton]
      refine ⟨fun l hl => h.each l ?_, h.pending⟩
      split at hl
      · exact List.mem_of_mem_tail hl
      · exact hl
  split
  · exact ⟨h.lines, h.each, h.pending.popChar⟩
  split
  · exact ⟨Nat.zero_le _, nofun, h.pending.clear⟩
  split
  · exact h
  next hroom =>
  split
  · exact h
  · exact ⟨h.lines, h.each, h.pending.pushChar (Nat.lt_of_not_le hroom) _ _⟩

theorem appendByte (h : Limits s) (b : UInt8) : Limits (s.appendByte b) := by
  have hkeep : ∀ style ansi, Limits { s with style, ansi } :=
    fun _ _ => { h with }
  unfold Scrollback.appendByte
  split
  · split
    · exact hkeep _ _
    · exact h.plain b
  · exact hkeep _ _
  split
  · exact hkeep _ _
  split
  · exact h
  split
  · exact hkeep _ _
  · exact hkeep _ _

/-- What is kept of the lines, by any measure that is bounded on a line. -/
theorem sum_lines_le (h : Limits s) {f : StyledLine → Nat} {bound : Nat}
    (hf : ∀ l : StyledLine, l.Ok → f l ≤ bound) :
    (s.lines.map f).sum ≤ scrollbackLines * bound := by
  have hle := List.sum_le_card_nsmul (s.lines.map f) bound
    (List.forall_mem_map.mpr fun l hl => hf l (h.each l hl))
  rw [List.length_map] at hle
  exact Nat.le_trans hle (Nat.mul_le_mul_right bound h.lines)

theorem retained_le (h : Limits s) : s.retained ≤
    scrollbackLines * (1 + 2 * maxLineLen) + 2 * maxLineLen + s.ansi.params.length := by
  have hsum := h.sum_lines_le fun l hl => Nat.add_le_add_left hl.size_le 1
  have hpending := h.pending.size_le
  unfold Scrollback.retained
  omega

theorem room_le (h : Limits s) : s.room ≤ scrollbackLines +
    scrollbackLines * (maxLineLen + maxLineLen * maxLineLen) +
      (maxLineLen + maxLineLen * maxLineLen) + s.ansi.params.length := by
  have hsum := h.sum_lines_le fun _ hl => hl.room_le
  have hpending := h.pending.room_le
  unfold Scrollback.room
  omega

end Limits

/-- A parameter byte comes to a sequence that has fewer than `limit` of them. -/
def Short (limit : Nat) (s : Scrollback) (b : UInt8) : Prop :=
  ∀ params, s.ansi = .csi params → 0x30 ≤ b ∧ b ≤ 0x3f → params.length < limit

theorem short_iff {limit : Nat} {s : Scrollback} (h : s.ansi.params.length ≤ limit) (b : UInt8) :
    (s.appendByte b).ansi.params.length ≤ limit ↔ Short limit s b := by
  have hplain : (s.plain b).ansi = s.ansi := by
    unfold Scrollback.plain
    repeat' split
    all_goals rfl
  unfold Scrollback.appendByte Short
  split
  · next hn =>
    refine iff_of_true ?_ (by rw [hn]; nofun)
    split
    · exact Nat.zero_le _
    · rw [hplain]
      exact h
  · next he =>
    refine iff_of_true ?_ (by rw [he]; nofun)
    dsimp only
    split <;> exact Nat.zero_le _
  next params hcsi =>
  rw [hcsi] at h
  simp only [hcsi, AnsiState.csi.injEq, forall_eq']
  split
  · next hparam =>
    simp only [AnsiState.params, List.length_append, List.length_singleton, hparam, and_self,
      forall_const]
    exact Iff.rfl
  next hparam =>
  refine iff_of_true ?_ fun hb => absurd hb hparam
  split
  · rw [hcsi]
    exact h
  split
  · exact Nat.zero_le _
  · exact Nat.zero_le _

/-- While no escape sequence has more than `limit` parameter bytes, what is kept and what there is
room for stay below bounds that depend on `limit` only; and a byte keeps to `limit` exactly when
it is `Short`. -/
theorem console_memory_bounded {limit : Nat} {s : Scrollback}
    (h : Reach (fun s b => some (Scrollback.appendByte s b)) (Short limit) (· = .new) s) :
    s.retained ≤ 257012 + limit ∧ s.room ≤ 32962292 + limit ∧
      ∀ b, (s.appendByte b).ansi.params.length ≤ limit ↔ Short limit s b := by
  obtain ⟨hlimits, hparams⟩ : Limits s ∧ s.ansi.params.length ≤ limit := by
    refine h.invariant (I := fun s => Limits s ∧ s.ansi.params.length ≤ limit) ?_ ?_
    · rintro s rfl
      exact ⟨⟨Nat.zero_le _, nofun, .empty⟩, Nat.zero_le _⟩
    · rintro s b s' ⟨hl, hp⟩ hshort hstep
      cases hstep
      exact ⟨hl.appendByte b, (short_iff hp b).mpr hshort⟩
  have hretained := hlimits.retained_le
  have hroom := hlimits.room_le
  simp only [scrollbackLines, maxLineLen] at hretained hroom
  exact ⟨by omega, by omega, short_iff hparams⟩

theorem console_memory_bounded_reset :
    (Scrollback.new.append [0x1b, 0x5b, 0x30]).retained ≤ 257013 := by
  refine (@console_memory_bounded 1 _ (.next (a := 0x30) (.next (a := 0x5b)
    (.next (a := 0x1b) (.start rfl) nofun rfl) nofun rfl) ?_ rfl)).1
  rintro params hcsi -
  cases hcsi
  exact Nat.zero_lt_one

/-- Zeros after `ESC [` are all kept. -/
theorem retained_params (n : Nat) (s : Scrollback) (params : List UInt8)
    (h : s.ansi = .csi params) :
    params.length + n ≤ (s.append (List.replicate n 0x30)).retained := by
  induction n generalizing s params with
  | zero =>
    show params.length ≤ s.retained
    rw [Scrollback.retained, h]
    exact Nat.le_add_left ..
  | succ n ih =>
    have hnext : s.appendByte 0x30 = { s with ansi := .csi (params ++ [0x30]) } := by
      rw [Scrollback.appendByte, h]
      rfl
    have hle := ih (s.appendByte 0x30) (params ++ [0x30]) (by rw [hnext])
    rw [List.length_append, List.length_singleton] at hle
    rw [List.replicate_succ, Scrollback.append, List.foldl_cons]
    exact Nat.le_trans (by omega) hle

/-- An endless sequence outgrows every bound. -/
theorem endless_sequence_outgrows :
    ∃ bytes : Nat → _, ∀ bound, bound < (Scrollback.new.append (bytes bound)).retained :=
  ⟨fun n => 0x1b :: 0x5b :: List.replicate (n + 1) 0x30, fun n => by
    have hle := retained_params (n + 1) ((Scrollback.new.appendByte 0x1b).appendByte 0x5b) [] rfl
    exact Nat.lt_of_lt_of_le (by simp) hle⟩

end Orbit.Display
