import Orbit.Display.Scrollback
import Orbit.Store.Table

/-!
The sources of the display: a scrollback for each, the surfaces that were presented, the source
that is active, and the process that keyboard input goes to.
-/

namespace Orbit.Display

open Store

inductive Source where
  | kernel
  | process (pid : Nat)
  deriving DecidableEq

namespace Source

/-- Tables of sources are in the order of the enumeration. -/
def key : Source → Nat
  | kernel => 0
  | process pid => pid + 1

def ofKey : Nat → Source
  | 0 => kernel
  | pid + 1 => process pid

@[simp] theorem key_ofKey (k : Nat) : (ofKey k).key = k := by
  cases k <;> rfl

theorem ofKey_key (src : Source) : ofKey src.key = src := by
  cases src <;> rfl

/-- What `set_active` stores in `ACTIVE_PID`. -/
def activePid : Source → Int
  | kernel => -1
  | process pid => pid

end Source

/-- `ProcScrollback`; an exited process has a mark in its title. -/
structure ProcScrollback where
  scrollback : Scrollback
  exited : Bool

structure SurfaceState where
  kdmapKva : Nat
  width : Nat
  height : Nat

/-- `Display`, without the framebuffer and the marks of what is to be redrawn; `activePid` is
`ACTIVE_PID` of the input side. -/
structure Sources where
  active : Source
  scrollbacks : Table ProcScrollback
  surfaces : Table SurfaceState
  activePid : Int

/-- `FbFormat::from_u32` knows one format. -/
def bgra8888 : Nat := 1

namespace Sources

variable (d : Sources) (src : Source)

/-- `Display::new` -/
def new : Sources :=
  ⟨.kernel, Table.empty.insert Source.kernel.key ⟨.new, false⟩, .empty, Source.kernel.activePid⟩

/-- The entry of a source, which is made when there is none. -/
def entry : ProcScrollback := (d.scrollbacks.get src.key).getD ⟨.new, false⟩

def setScrollback (p : ProcScrollback) : Sources :=
  { d with scrollbacks := d.scrollbacks.insert src.key p }

def setActive : Sources := { d with active := src, activePid := src.activePid }

def insertSource : Sources := d.setScrollback src (d.entry src)

def removeSource : Sources :=
  if src = .kernel then d
  else
    let hadSurface := (d.surfaces.get src.key).isSome
    let d := { d with surfaces := d.surfaces.erase src.key }
    match d.scrollbacks.get src.key with
    | none => d
    | some sb =>
      if hadSurface && sb.scrollback.isEmpty then
        let d := { d with scrollbacks := d.scrollbacks.erase src.key }
        if src = d.active then
          d.setActive (((d.scrollbacks.entries.map Prod.fst).head?.map Source.ofKey).getD .kernel)
        else d
      else d.setScrollback src { sb with exited := true }

def append (chunk : List UInt8) : Sources :=
  let sb := d.entry src
  d.setScrollback src { sb with scrollback := sb.scrollback.append chunk }

def cycleActive : Sources :=
  let keys := d.scrollbacks.entries.map Prod.fst
  if keys = [] then d
  else
    let next := (((keys.dropWhile (· ≠ d.active.key)).tail.head?).map Source.ofKey).getD .kernel
    if next ≠ d.active then d.setActive next else d

def presentSurface (formatRaw : Nat) (surface : SurfaceState) : Sources :=
  if formatRaw ≠ bgra8888 then d
  else ({ d with surfaces := d.surfaces.insert src.key surface }).insertSource src

/-- What `repaint` draws, the surface or the text; `none` is the index that panics. -/
def repaint : Option (SurfaceState ⊕ ProcScrollback) :=
  match d.surfaces.get d.active.key with
  | some surface => some (.inl surface)
  | none => (d.scrollbacks.get d.active.key).map .inr

end Sources

inductive Action where
  | insertSource (src : Source)
  | removeSource (src : Source)
  | append (src : Source) (chunk : List UInt8)
  | cycleActive
  | presentSurface (src : Source) (formatRaw : Nat) (surface : SurfaceState)

def step (d : Sources) : Action → Sources
  | .insertSource src => d.insertSource src
  | .removeSource src => d.removeSource src
  | .append src chunk => d.append src chunk
  | .cycleActive => d.cycleActive
  | .presentSurface src formatRaw surface => d.presentSurface src formatRaw surface

section

variable {d : Sources} {src : Source}

/-- The source has a scrollback. -/
def Sources.Has (d : Sources) (k : Nat) : Prop := ∃ sb, d.scrollbacks.get k = some sb

/-- A process with a surface and without text. -/
structure Sources.SurfaceOnly (d : Sources) (src : Source) : Prop where
  process : src ≠ .kernel
  surface : (d.surfaces.get src.key).isSome = true
  empty : ∀ sb, d.scrollbacks.get src.key = some sb → sb.scrollback.isEmpty = true

structure Sound (d : Sources) : Prop where
  kernel : d.Has 0
  active : d.Has d.active.key
  surfaces : ∀ k surface, d.surfaces.get k = some surface → d.Has k
  mirror : d.activePid = d.active.activePid

theorem has_setScrollback {sb : ProcScrollback} {k : Nat} (h : k = src.key ∨ d.Has k) :
    (d.setScrollback src sb).Has k := by
  by_cases hk : k = src.key
  · exact ⟨sb, hk ▸ Table.get_insert_self ..⟩
  · obtain ⟨v, hv⟩ := h.resolve_left hk
    exact ⟨v, (Table.get_insert_ne _ _ hk).trans hv⟩

/-- The first of some listed sources has a scrollback, and so has the kernel in its place. -/
theorem has_first {keys : List Nat} (hkeys : keys ⊆ d.scrollbacks.entries.map Prod.fst)
    (hkernel : d.Has 0) : d.Has ((keys.head?.map Source.ofKey).getD .kernel).key := by
  cases keys with
  | nil => exact hkernel
  | cons k rest =>
    obtain ⟨e, he, hk⟩ := List.mem_map.mp (hkeys List.mem_cons_self)
    rw [List.head?_cons, Option.map_some, Option.getD_some, Source.key_ofKey]
    exact ⟨e.2, hk ▸ d.scrollbacks.get_eq_some.mpr he⟩

namespace Sound

variable (h : Sound d)

include h

theorem setScrollback (sb : ProcScrollback) : Sound (d.setScrollback src sb) :=
  ⟨has_setScrollback (.inr h.kernel), has_setScrollback (.inr h.active),
    fun k s hs => has_setScrollback (.inr (h.surfaces k s hs)), h.mirror⟩

theorem eraseSurface (src : Source) : Sound { d with surfaces := d.surfaces.erase src.key } :=
  ⟨h.kernel, h.active, fun k s hs =>
    h.surfaces k s (d.surfaces.get_erase_eq_some.mp hs).2, h.mirror⟩

theorem setActive (hsrc : d.Has src.key) : Sound (d.setActive src) :=
  ⟨h.kernel, hsrc, h.surfaces, rfl⟩

/-- The pane of a process that had a surface only is dropped, and the active source changes just
when it is that one. -/
theorem removeSource (src : Source) : Sound (d.removeSource src) ∧
    (src = d.active → ((d.removeSource src).active ≠ src ↔ d.SurfaceOnly src)) := by
  have hkeep := h.eraseSurface src
  unfold Sources.removeSource
  split
  · next hkernel =>
    refine ⟨h, fun heq => iff_of_false ?_ ?_⟩
    · exact not_not.mpr heq.symm
    · exact fun honly => honly.process hkernel
  next hne =>
  have hkey : src.key ≠ 0 := by
    cases src with
    | kernel => exact absurd rfl hne
    | process pid => exact Nat.succ_ne_zero pid
  dsimp only
  split
  · next hnone =>
    refine ⟨hkeep, fun heq => ?_⟩
    obtain ⟨sb, hsb⟩ := h.active
    rw [← heq] at hsb
    cases hnone.symm.trans hsb
  next sb hsb =>
  split
  · next hdrop =>
    rw [Bool.and_eq_true] at hdrop
    have hhas : ∀ k, k ≠ src.key → d.Has k →
        ({ d with scrollbacks := d.scrollbacks.erase src.key } : Sources).Has k := by
      rintro k hk ⟨sb, hsb⟩
      exact ⟨sb, (d.scrollbacks.get_erase_ne hk).trans hsb⟩
    have hsurfaces : ∀ k s, (d.surfaces.erase src.key).get k = some s →
        ({ d with scrollbacks := d.scrollbacks.erase src.key } : Sources).Has k := by
      intro k s hs
      obtain ⟨hk, hs⟩ := d.surfaces.get_erase_eq_some.mp hs
      exact hhas k hk (h.surfaces k s hs)
    split
    · have hnext := has_first (List.Subset.refl _) (hhas 0 hkey.symm h.kernel)
      refine ⟨⟨hhas 0 hkey.symm h.kernel, hnext, hsurfaces, rfl⟩, fun _ => iff_of_true ?_ ?_⟩
      · intro heq
        obtain ⟨sb, hsb⟩ := hnext
        change Option.getD _ Source.kernel = src at heq
        rw [heq, Table.get_erase_self] at hsb
        cases hsb
      · refine ⟨hne, hdrop.1, fun sb' hsb' => ?_⟩
        cases hsb.symm.trans hsb'
        exact hdrop.2
    next hother =>
    refine ⟨⟨hhas 0 hkey.symm h.kernel, hhas _ ?_ h.active, hsurfaces, h.mirror⟩,
      fun heq => absurd heq hother⟩
    intro heq
    apply hother
    rw [← Source.ofKey_key src, ← heq, Source.ofKey_key]
  · next hkept =>
    refine ⟨hkeep.setScrollback _, fun heq => iff_of_false (not_not.mpr heq.symm) ?_⟩
    intro honly
    exact hkept (Bool.and_eq_true_iff.mpr ⟨honly.surface, honly.empty sb hsb⟩)

theorem cycleActive : Sound d.cycleActive := by
  unfold Sources.cycleActive
  dsimp only
  split
  · exact h
  split
  · refine h.setActive (has_first (fun k hk => ?_) h.kernel)
    exact (List.dropWhile_suffix _).subset (List.mem_of_mem_tail hk)
  · exact h

theorem presentSurface (formatRaw : Nat) (surface : SurfaceState) :
    Sound (d.presentSurface src formatRaw surface) := by
  unfold Sources.presentSurface
  split
  · exact h
  refine ⟨has_setScrollback (.inr h.kernel), has_setScrollback (.inr h.active), fun k s hs => ?_,
    h.mirror⟩
  rcases d.surfaces.get_insert_eq_some.mp hs with ⟨hk, -⟩ | ⟨-, hs⟩
  · exact has_setScrollback (.inl hk)
  · exact has_setScrollback (.inr (h.surfaces k s hs))

theorem step (a : Action) : Sound (step d a) := by
  cases a with
  | insertSource src => exact h.setScrollback _
  | removeSource src => exact (h.removeSource src).1
  | append src chunk => exact h.setScrollback _
  | cycleActive => exact h.cycleActive
  | presentSurface src formatRaw surface => exact h.presentSurface formatRaw surface

theorem run (actions : List Action) : Sound (actions.foldl Display.step d) := by
  induction actions generalizing d with
  | nil => exact h
  | cons a rest ih => exact ih (h.step a)

end Sound

theorem sound_new : Sound Sources.new :=
  ⟨⟨_, rfl⟩, ⟨_, rfl⟩, nofun, rfl⟩

/-- After any operations: the active source and every presented one have a scrollback, what is
repainted exists, and input goes to the active source. Removing the active source leaves a source
active that has a scrollback, and it is another one just when the one removed is a process that
had a surface and no text. -/
theorem display_sources_sound (actions : List Action) {d : Sources}
    (hd : d = actions.foldl step Sources.new) :
    d.Has d.active.key ∧ d.repaint.isSome = true ∧
    (∀ src surface, d.surfaces.get (Source.key src) = some surface → d.Has src.key) ∧
    d.activePid = d.active.activePid ∧
    (d.removeSource d.active).Has (d.removeSource d.active).active.key ∧
    ((d.removeSource d.active).active ≠ d.active ↔ d.SurfaceOnly d.active) := by
  have h : Sound d := hd ▸ sound_new.run actions
  obtain ⟨hsound, hother⟩ := h.removeSource d.active
  refine ⟨h.active, ?_, fun src s hs => h.surfaces _ s hs, h.mirror, hsound.active, hother rfl⟩
  obtain ⟨sb, hsb⟩ := h.active
  unfold Sources.repaint
  split
  · rfl
  · rw [hsb]
    rfl

end

/-- A surface is presented, its pane is chosen and its process exits. -/
theorem display_sources_sound_surface : ∃ d : Sources, d.active = .process 3 ∧
    (d.removeSource (.process 3)).active ≠ .process 3 := by
  have h := display_sources_sound
    [.presentSurface (.process 3) 1 ⟨0, 640, 480⟩, .cycleActive] rfl
  refine ⟨_, rfl, h.2.2.2.2.2.mpr ⟨by decide, rfl, fun sb hsb => ?_⟩⟩
  cases hsb
  rfl

/-- A process that came up and wrote nothing exits while its pane is chosen: the pane stays in the
cycle and stays active. -/
theorem empty_pane_stays_active : ∃ d : Sources,
    d = [.insertSource (.process 3), .cycleActive].foldl step Sources.new ∧
    d.active = .process 3 ∧ (d.removeSource d.active).active = d.active ∧
    ∃ sb, (d.removeSource d.active).scrollbacks.get d.active.key = some sb ∧
      sb.exited = true ∧ sb.scrollback.isEmpty = true :=
  ⟨_, rfl, rfl, rfl, _, rfl, rfl, rfl⟩

end Orbit.Display
