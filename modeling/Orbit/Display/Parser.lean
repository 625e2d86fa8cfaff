import Mathlib.Data.Nat.Digits.Defs
import Orbit.Display.Scrollback

/-!
What the parser makes of a stream of bytes: the text between escape sequences, each character in
the style that the sequences before it have set, and nothing of the sequences themselves. What a
sequence is and which style it sets is said here without the parser.
-/

namespace Orbit.Display

/-- The characters of a line with their styles, the last one first. -/
def StyledLine.cells (l : StyledLine) : List (Style × UInt8) :=
  l.chunks.flatMap fun c => c.text.map (c.style, ·)

/-- The text of a source, apart from how its runs are stored. -/
structure Screen where
  lines : List (List (Style × UInt8))
  pending : List (Style × UInt8)

/-- A character is typed in a style. -/
def Screen.type (t : Screen) (c : Style × UInt8) : Screen :=
  if c.2 = 0x0a then
    ⟨(if scrollbackLines ≤ t.lines.length then t.lines.tail else t.lines) ++ [t.pending], []⟩
  else if c.2 = 0x08 then { t with pending := t.pending.tail }
  else if c.2 = 0x0c then ⟨[], []⟩
  else if maxLineLen ≤ t.pending.length then t
  else match printable c.2 with
    | none => t
    | some ch => { t with pending := (c.1, ch) :: t.pending }

def Scrollback.screen (s : Scrollback) : Screen := ⟨s.lines.map StyledLine.cells, s.pending.cells⟩

/-! What select-graphic-rendition codes ask for. -/

/-- The codes of the sixteen colours of the palette, in its order. -/
def foregroundCodes : List Nat := List.range' 30 8 ++ List.range' 90 8
def backgroundCodes : List Nat := List.range' 40 8 ++ List.range' 100 8

/-- The colour that a code chooses, if it is one of these. -/
def chosen (codes : List Nat) (code : Nat) : Option Nat :=
  (codes.idxOf? code).bind fun k => ansiPalette[k]?

/-- One code. What is neither a reset nor a colour is not shown. -/
def Style.select (st : Style) (code : Nat) : Style :=
  if code = 0 then .default
  else if code = 39 then { st with fg := Style.default.fg }
  else if code = 49 then { st with bg := Style.default.bg }
  else ⟨(chosen foregroundCodes code).getD st.fg, (chosen backgroundCodes code).getD st.bg⟩

/-- What is left after the codes of an extended colour, which 38 and 48 begin: 5 and an index, or
2 and three components. -/
def pastColour : List Nat → List Nat
  | [] => []
  | kind :: rest => if kind = 5 then rest.drop 1 else if kind = 2 then rest.drop 3 else rest

theorem length_pastColour_le (codes : List Nat) : (pastColour codes).length ≤ codes.length := by
  cases codes with
  | nil => exact Nat.le_refl 0
  | cons kind rest =>
    rw [pastColour, List.length_cons]
    split
    · rw [List.length_drop]
      omega
    split
    · rw [List.length_drop]
      omega
    · exact Nat.le_succ _

/-- The style after a list of codes. Extended colours are not shown. -/
def Style.sgr (st : Style) : List Nat → Style
  | [] => st
  | code :: rest =>
    if code = 38 ∨ code = 48 then st.sgr (pastColour rest) else (st.select code).sgr rest
termination_by codes => codes.length
decreasing_by
  · exact Nat.lt_succ_of_le (length_pastColour_le rest)
  · exact Nat.lt_succ_self _

/-- The number of a parameter; one that is left out is 0. -/
def decimal (p : List UInt8) : Nat := Nat.ofDigits 10 (p.reverse.map fun b => b.toNat - 48)

/-- A stream is text, escapes of two bytes, and CSI sequences. Those that set the style have
parameters between semicolons and end in `m`; the others end in another final byte. -/
inductive Item where
  | text (b : UInt8)
  | escape (b : UInt8)
  | sgr (params : List (List UInt8))
  | csi (body : List UInt8) (final : UInt8)

/-- Parameter and intermediate bytes. -/
def inBody (b : UInt8) : Prop := 0x20 ≤ b ∧ b ≤ 0x3f

namespace Item

def bytes : Item → List UInt8
  | text b => [b]
  | escape b => [0x1b, b]
  | sgr params => 0x1b :: 0x5b :: ([0x3b].intercalate params ++ [0x6d])
  | csi body final => 0x1b :: 0x5b :: (body ++ [final])

/-- No item starts inside another, and the parameters that set the style are decimal numbers that
a byte can hold. -/
def Wf : Item → Prop
  | text b => b ≠ 0x1b
  | escape b => b ≠ 0x5b ∧ b ≠ 0x1b
  | sgr params => params ≠ [] ∧
      ∀ p ∈ params, (∀ b ∈ p, 0x30 ≤ b ∧ b ≤ 0x39) ∧ decimal p ≤ 255
  | csi body final => (∀ b ∈ body, inBody b) ∧ 0x40 ≤ final ∧ final ≤ 0x7e ∧ final ≠ 0x6d

/-- The style after an item. -/
def style (st : Style) : Item → Style
  | sgr params => st.sgr (params.map decimal)
  | _ => st

/-- What is typed. -/
def typed (st : Style) : Item → List (Style × UInt8)
  | text b => [(st, b)]
  | _ => []

end Item

/-- The beginning of a sequence whose end has not come yet. -/
inductive Unfinished : List UInt8 → Prop
  | none : Unfinished []
  | esc : Unfinished [0x1b]
  | csi {body : List UInt8} (h : ∀ b ∈ body, inBody b) : Unfinished (0x1b :: 0x5b :: body)

/-- The text of a stream, each character in the style that is set before it. -/
def typed (st : Style) : List Item → List (Style × UInt8)
  | [] => []
  | i :: rest => i.typed st ++ typed (i.style st) rest

namespace StyledLine

variable {l : StyledLine}

theorem cells_pushChar (style : Style) (ch : UInt8) :
    (l.pushChar style ch).cells = (style, ch) :: l.cells := by
  obtain ⟨chunks, len, held⟩ := l
  cases chunks with
  | nil => rfl
  | cons last rest =>
    simp only [pushChar]
    split
    · next hsame =>
      subst hsame
      rfl
    · rfl

theorem Ok.cells_popChar (h : l.Ok) : l.popChar.cells = l.cells.tail := by
  obtain ⟨chunks, len, held⟩ := l
  cases chunks with
  | nil => rfl
  | cons last rest =>
    obtain ⟨style, text, most⟩ := last
    cases text with
    | nil => exact absurd rfl (h.full _ List.mem_cons_self)
    | cons ch text =>
      simp only [StyledLine.popChar, popLast]
      split
      · next hnil =>
        subst hnil
        rfl
      · rfl

theorem Ok.length_cells (h : l.Ok) : l.cells.length = l.len := by
  simp only [h.len, cells, List.length_flatMap, List.length_map]

end StyledLine

theorem Limits.screen_plain {s : Scrollback} (h : Limits s) (b : UInt8) :
    (s.plain b).screen = s.screen.type (s.style, b) := by
  unfold Scrollback.plain Screen.type
  dsimp only
  split
  · simp only [Scrollback.screen, List.map_append, List.length_map]
    split
    · rw [List.map_tail]
      rfl
    · rfl
  split
  · simp only [Scrollback.screen, h.pending.cells_popChar]
  split
  · rfl
  have hlen : s.screen.pending.length = s.pending.len := h.pending.length_cells
  rw [hlen]
  split
  · rfl
  cases hch : printable b with
  | none => rfl
  | some ch => simp only [Scrollback.screen, StyledLine.cells_pushChar]

/-! The loop of `apply_sgr` against the codes. -/

theorem chosen_foreground (code : Nat) : chosen foregroundCodes code = ansiFg code := by
  by_cases hsmall : code < 108
  · exact (by decide +kernel : ∀ c < 108, chosen foregroundCodes c = ansiFg c) code hsmall
  have hno : code ∉ foregroundCodes := by
    simp only [foregroundCodes, List.mem_append, List.mem_range'_1]
    omega
  rw [chosen, List.idxOf?_eq_none_iff.mpr hno, ansiFg, ansiColor, if_neg (by omega),
    if_neg (by omega)]
  rfl

theorem chosen_background (code : Nat) : chosen backgroundCodes code = ansiBg code := by
  by_cases hsmall : code < 108
  · exact (by decide +kernel : ∀ c < 108, chosen backgroundCodes c = ansiBg c) code hsmall
  have hno : code ∉ backgroundCodes := by
    simp only [backgroundCodes, List.mem_append, List.mem_range'_1]
    omega
  rw [chosen, List.idxOf?_eq_none_iff.mpr hno, ansiBg, ansiColor, if_neg (by omega),
    if_neg (by omega)]
  rfl

theorem applyCodes_skip (st : Style) (skip : Nat) (codes : List Nat) :
    applyCodes st skip codes = applyCodes st 0 (codes.drop skip) := by
  induction codes generalizing skip with
  | nil => simp [applyCodes]
  | cons c rest ih =>
    cases skip with
    | zero => rfl
    | succ skip =>
      rw [applyCodes, if_pos skip.succ_pos, Nat.add_sub_cancel, ih, List.drop_succ_cons]

theorem applyCodes_eq_sgr (st : Style) (codes : List Nat) :
    applyCodes st 0 codes = st.sgr codes := by
  fun_induction Style.sgr st codes with
  | case1 => rfl
  | case2 st code rest hcolour ih =>
    have hother : code ≠ 0 ∧ code ≠ 39 ∧ code ≠ 49 := by omega
    rw [applyCodes, if_neg (Nat.lt_irrefl 0), if_neg hother.1, if_neg hother.2.1,
      if_neg hother.2.2, if_pos hcolour, applyCodes_skip, ← ih]
    congr 1
    -- the codes the loop passes over are those of the extended colour
    cases rest with
    | nil => rfl
    | cons kind rest =>
      by_cases h5 : kind = 5
      · subst h5
        rfl
      by_cases h2 : kind = 2
      · subst h2
        rfl
      simp [pastColour, h5, h2]
  | case3 st code rest hcolour ih =>
    rw [← ih, applyCodes, if_neg (Nat.lt_irrefl 0), if_neg hcolour, Style.select,
      chosen_foreground, chosen_background]
    split
    · rfl
    split
    · rfl
    split <;> rfl

theorem parseU32_eq_decimal {p : List UInt8} (hdigits : ∀ b ∈ p, 0x30 ≤ b ∧ b ≤ 0x39)
    (hbyte : decimal p ≤ 255) : parseU32 p % 256 = decimal p := by
  have hfold : p.foldl (fun n b => n * 10 + (b.toNat - 48)) 0 = decimal p := by
    rw [decimal, Nat.ofDigits_eq_foldr, List.foldr_map, List.foldr_reverse]
    congr 1
    funext n b
    rw [Nat.cast_id, Nat.add_comm, Nat.mul_comm]
  have hall : p.all (· ≤ 57) = true := by
    rw [List.all_eq_true]
    intro b hb
    exact decide_eq_true (hdigits b hb).2
  have hlt : decimal p < 2 ^ 32 := by omega
  simp only [parseU32, hfold]
  rw [if_pos ⟨hall, hlt⟩]
  omega

theorem mem_intercalate {sep b : UInt8} {parts : List (List UInt8)}
    (h : b ∈ [sep].intercalate parts) : b = sep ∨ ∃ p ∈ parts, b ∈ p := by
  induction parts with
  | nil => simp at h
  | cons p rest ih =>
    cases rest with
    | nil => exact .inr ⟨p, List.mem_cons_self, by simpa using h⟩
    | cons q rest =>
      rw [List.intercalate_cons_cons, List.append_assoc, List.mem_append, List.mem_append] at h
      rcases h with hp | hsep | hrest
      · exact .inr ⟨p, List.mem_cons_self, hp⟩
      · exact .inl (List.mem_singleton.mp hsep)
      · rcases ih hrest with heq | ⟨l, hl, hb⟩
        · exact .inl heq
        · exact .inr ⟨l, List.mem_cons_of_mem p hl, hb⟩

/-- The parameters of a sequence that sets the style are read as its numbers. -/
theorem Item.Wf.applySgr {params : List (List UInt8)} (h : (Item.sgr params).Wf) (st : Style) :
    applySgr st ([0x3b].intercalate params) = (Item.sgr params).style st := by
  obtain ⟨hne, hparams⟩ := h
  have hno : ∀ p ∈ params, (0x3b : UInt8) ∉ p := by
    intro p hp hmem
    exact absurd ((hparams p hp).1 _ hmem).2 (by decide)
  have hcodes : params.map (parseU32 · % 256) = params.map decimal := by
    apply List.map_congr_left
    intro p hp
    exact parseU32_eq_decimal (hparams p hp).1 (hparams p hp).2
  have hsplit := List.splitOn_intercalate (0x3b : UInt8) hno hne
  rw [Display.applySgr, applyCodes_eq_sgr, Item.style]
  split
  · next hempty =>
    -- without any byte there is one parameter, and it is empty
    rw [hempty] at hsplit
    rw [← hsplit]
    rfl
  · rw [hsplit, hcodes]

/-! The parser on the bytes of an item. -/

namespace Scrollback

variable {s : Scrollback}

theorem append_append (s : Scrollback) (xs ys : List UInt8) :
    s.append (xs ++ ys) = (s.append xs).append ys :=
  List.foldl_append

/-- Inside a sequence the parameter bytes are collected and the intermediate ones dropped. -/
theorem append_body {params body : List UInt8} (hansi : s.ansi = .csi params)
    (hbody : ∀ b ∈ body, inBody b) :
    s.append body = { s with ansi := .csi (params ++ body.filter (0x30 ≤ ·)) } := by
  induction body generalizing s params with
  | nil =>
    rw [List.filter_nil, List.append_nil, ← hansi]
    rfl
  | cons b rest ih =>
    rw [List.forall_mem_cons] at hbody
    rw [append, List.foldl_cons, ← append]
    by_cases hparam : (0x30 : UInt8) ≤ b
    · have hstep : s.appendByte b = { s with ansi := .csi (params ++ [b]) } := by
        simp only [appendByte, hansi, if_pos (And.intro hparam hbody.1.2)]
      rw [hstep, ih rfl hbody.2, List.filter_cons_of_pos (by simpa using hparam),
        List.append_assoc, List.singleton_append]
    · have hmid : 0x20 ≤ b ∧ b ≤ 0x2f := ⟨hbody.1.1, by grind⟩
      have hstep : s.appendByte b = s := by
        simp only [appendByte, hansi, if_neg (fun h : 0x30 ≤ b ∧ b ≤ 0x3f => hparam h.1),
          if_pos hmid]
      rw [hstep, ih hansi hbody.2, List.filter_cons_of_neg (by simpa using hparam)]

/-- A sequence up to its final byte. -/
theorem append_open (hansi : s.ansi = .normal) {body : List UInt8}
    (hbody : ∀ b ∈ body, inBody b) :
    s.append (0x1b :: 0x5b :: body) = { s with ansi := .csi (body.filter (0x30 ≤ ·)) } := by
  have hopen : (s.appendByte 0x1b).appendByte 0x5b = { s with ansi := .csi [] } := by
    simp [appendByte, hansi]
  rw [append, List.foldl_cons, List.foldl_cons, hopen, ← append, append_body rfl hbody,
    List.nil_append]

/-- The final byte of a sequence. -/
theorem appendByte_final {params : List UInt8} {b : UInt8} (hansi : s.ansi = .csi params)
    (hlow : 0x40 ≤ b) : s.appendByte b = { s with
      ansi := .normal
      style := if b = 0x6d then applySgr s.style params else s.style } := by
  have hparam : ¬ ((0x30 : UInt8) ≤ b ∧ b ≤ 0x3f) := fun h =>
    absurd (UInt8.le_trans hlow h.2) (by decide)
  have hmid : ¬ ((0x20 : UInt8) ≤ b ∧ b ≤ 0x2f) := fun h =>
    absurd (UInt8.le_trans hlow h.2) (by decide)
  simp only [appendByte, hansi, if_neg hparam, if_neg hmid]
  split <;> rfl

end Scrollback

/-- The parser is between two items: it has typed what they type and set their style. -/
structure Reads (items : List Item) (s : Scrollback) : Prop where
  limits : Limits s
  between : s.ansi = .normal
  style : s.style = items.foldl Item.style .default
  screen : s.screen = (typed .default items).foldl Screen.type ⟨[], []⟩

theorem typed_concat (st : Style) (items : List Item) (i : Item) :
    typed st (items ++ [i]) = typed st items ++ i.typed (items.foldl Item.style st) := by
  induction items generalizing st with
  | nil => exact List.append_nil _
  | cons j rest ih => rw [List.cons_append, typed, ih, typed, List.append_assoc, List.foldl_cons]

theorem limits_append {s : Scrollback} (h : Limits s) (bytes : List UInt8) :
    Limits (s.append bytes) := by
  induction bytes generalizing s with
  | nil => exact h
  | cons b rest ih => exact ih (h.appendByte b)

namespace Reads

variable {s s' : Scrollback} {items : List Item}

variable (h : Reads items s)

include h

/-- One item more, from what its bytes do to the parser. -/
theorem concat {i : Item} (hlim : Limits s') (hbetween : s'.ansi = .normal)
    (hstyle : s'.style = i.style s.style)
    (hscreen : s'.screen = (i.typed s.style).foldl Screen.type s.screen) :
    Reads (items ++ [i]) s' := by
  refine ⟨hlim, hbetween, ?_, ?_⟩
  · rw [List.foldl_append, ← h.style]
    exact hstyle
  · rw [typed_concat, List.foldl_append, ← h.style, ← h.screen]
    exact hscreen

theorem item {i : Item} (hwf : i.Wf) : Reads (items ++ [i]) (s.append i.bytes) := by
  have hlim := limits_append h.limits i.bytes
  cases i with
  | text b =>
    have hplain : s.append [b] = s.plain b := by
      have hne : b ≠ 0x1b := hwf
      simp [Scrollback.append, Scrollback.appendByte, h.between, hne]
    have hkeep : (s.plain b).ansi = s.ansi ∧ (s.plain b).style = s.style := by
      unfold Scrollback.plain
      repeat' split
      all_goals exact ⟨rfl, rfl⟩
    rw [Item.bytes, hplain] at hlim ⊢
    exact h.concat hlim (hkeep.1.trans h.between) hkeep.2 (h.limits.screen_plain b)
  | escape b =>
    have hswallow : s.append [0x1b, b] = s := by
      have hne : b ≠ 0x5b := hwf.1
      simp only [Scrollback.append, List.foldl_cons, List.foldl_nil, Scrollback.appendByte,
        h.between, if_true, if_neg hne]
      rw [← h.between]
    rw [Item.bytes, hswallow]
    exact h.concat h.limits h.between rfl rfl
  | sgr params =>
    have hbytes : ∀ b ∈ [0x3b].intercalate params, 0x30 ≤ b ∧ b ≤ 0x3f := by
      intro b hb
      rcases mem_intercalate hb with rfl | ⟨p, hp, hmem⟩
      · decide
      · have hdigit := (hwf.2 p hp).1 b hmem
        exact ⟨hdigit.1, UInt8.le_trans hdigit.2 (by decide)⟩
    have hall : ([0x3b].intercalate params).filter (0x30 ≤ ·) = [0x3b].intercalate params :=
      List.filter_eq_self.mpr fun b hb => decide_eq_true (hbytes b hb).1
    have hend : s.append (Item.sgr params).bytes = { s with
        ansi := .normal, style := (Item.sgr params).style s.style } := by
      rw [Item.bytes, ← List.cons_append, ← List.cons_append, Scrollback.append_append,
        Scrollback.append_open h.between fun b hb =>
          ⟨UInt8.le_trans (by decide) (hbytes b hb).1, (hbytes b hb).2⟩, hall]
      refine (Scrollback.appendByte_final (s := { s with ansi := .csi _ }) (b := 0x6d) rfl
        (by decide)).trans ?_
      rw [if_pos rfl, hwf.applySgr]
    rw [hend] at hlim ⊢
    exact h.concat hlim rfl rfl rfl
  | csi body final =>
    obtain ⟨hbody, hlow, _, hother⟩ := hwf
    have hend : s.append (Item.csi body final).bytes = s := by
      rw [Item.bytes, ← List.cons_append, ← List.cons_append, Scrollback.append_append,
        Scrollback.append_open h.between hbody]
      refine (Scrollback.appendByte_final (s := { s with ansi := .csi _ }) rfl hlow).trans ?_
      rw [if_neg hother, ← h.between]
    rw [hend]
    exact h.concat h.limits h.between rfl rfl

theorem more {later : List Item} (hwf : ∀ i ∈ later, i.Wf) :
    Reads (items ++ later) (s.append (later.flatMap Item.bytes)) := by
  induction later generalizing s items with
  | nil =>
    rw [List.append_nil]
    exact h
  | cons i rest ih =>
    rw [List.forall_mem_cons] at hwf
    rw [List.flatMap_cons, Scrollback.append_append, List.append_cons]
    exact ih (h.item hwf.1) hwf.2

/-- The beginning of a sequence types nothing and sets no style. -/
theorem unfinished {tail : List UInt8} (htail : Unfinished tail) :
    (s.append tail).screen = s.screen ∧ (s.append tail).style = s.style := by
  cases htail with
  | none => exact ⟨rfl, rfl⟩
  | esc =>
    have hesc : s.append [0x1b] = { s with ansi := .esc } := by
      simp [Scrollback.append, Scrollback.appendByte, h.between]
    rw [hesc]
    exact ⟨rfl, rfl⟩
  | csi hbody =>
    rw [Scrollback.append_open h.between hbody]
    exact ⟨rfl, rfl⟩

end Reads

/-- However a stream is cut into chunks, the limits hold. When it is made of text and complete
sequences, and perhaps the beginning of one more, what is kept is the text, each character in the
style that the sequences before it set. -/
theorem scrollback_keeps_text (chunks : List (List UInt8)) :
    Limits (chunks.foldl Scrollback.append .new) ∧
    ∀ items tail, (∀ i ∈ items, i.Wf) → Unfinished tail →
      chunks.flatten = items.flatMap Item.bytes ++ tail →
      (chunks.foldl Scrollback.append .new).screen =
        (typed .default items).foldl Screen.type ⟨[], []⟩ ∧
      (chunks.foldl Scrollback.append .new).style = items.foldl Item.style .default := by
  have hflat : chunks.foldl Scrollback.append .new = Scrollback.new.append chunks.flatten :=
    (List.foldl_flatten ..).symm
  have hstart : Reads [] .new := by
    refine ⟨⟨Nat.zero_le _, ?_, .empty⟩, rfl, rfl, rfl⟩
    intro l hl
    cases hl
  rw [hflat]
  refine ⟨limits_append hstart.limits _, ?_⟩
  intro items tail hwf htail hstream
  have hread := hstart.more hwf
  obtain ⟨hscreen, hstyle⟩ := hread.unfinished htail
  rw [hstream, Scrollback.append_append, hscreen, hstyle]
  exact ⟨hread.screen, hread.style⟩

/-- A red letter, with its sequence cut in two. -/
theorem scrollback_keeps_text_red :
    ([[0x1b, 0x5b, 0x33], [0x31, 0x6d, 0x61]].foldl Scrollback.append .new).screen =
      (typed .default [.sgr [[0x33, 0x31]], .text 0x61]).foldl Screen.type ⟨[], []⟩ := by
  refine ((scrollback_keeps_text [[0x1b, 0x5b, 0x33], [0x31, 0x6d, 0x61]]).2 _ [] ?_ .none rfl).1
  rw [List.forall_mem_cons, List.forall_mem_singleton]
  refine ⟨⟨by decide, by decide +kernel⟩, ?_⟩
  show (0x61 : UInt8) ≠ 0x1b
  decide

/-- A sequence is cut short by another one, and three bytes of that one are text. A sequence with
a private marker resets the style, and 287 is taken for 31, red. -/
theorem cut_short_leaves_text :
    (Scrollback.new.append [0x1b, 0x5b, 0x33, 0x1b, 0x5b, 0x30, 0x6d]).pending.chunks =
      [⟨.default, [0x6d, 0x30, 0x5b], 3⟩] ∧
    (Scrollback.new.append [0x1b, 0x5b, 0x33, 0x31, 0x6d, 0x1b, 0x5b, 0x3e, 0x34, 0x3b, 0x32,
      0x6d]).style = .default ∧
    (Scrollback.new.append [0x1b, 0x5b, 0x32, 0x38, 0x37, 0x6d]).style.fg =
      rgb 0xCD 0x31 0x31 := by
  decide

end Orbit.Display
