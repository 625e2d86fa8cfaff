import Mathlib.Data.BitVec
import Orbit.Transition.Run

/-!
The modifier byte of the keyboard. `dispatch` keeps one bit for the two physical keys of a
modifier and changes it before anything else it does with an event; the rest of `dispatch`
only reads it.
-/

namespace Orbit.Input.Modifiers

open Transition Function

structure InputEvent where
  ty : Nat
  code : Nat
  value : Nat

def evKey : Nat := 1
def valRelease : Nat := 0
def valPress : Nat := 1
def valRepeat : Nat := 2

def modShift : BitVec 8 := 1 <<< 0
def modCtrl : BitVec 8 := 1 <<< 1
def modAlt : BitVec 8 := 1 <<< 2

/-- The keys are left and right shift, control and alt. -/
def modifierBit (code : Nat) : Option (BitVec 8) :=
  if code = 42 ∨ code = 54 then some modShift
  else if code = 29 ∨ code = 97 then some modCtrl
  else if code = 56 ∨ code = 100 then some modAlt
  else none

/-- `MODS` after the first part of `dispatch`. -/
def dispatch (mods : BitVec 8) (ev : InputEvent) : BitVec 8 :=
  if ev.ty ≠ evKey then mods
  else
    match modifierBit ev.code with
    | none => mods
    | some bit =>
      if ev.value = valPress ∨ ev.value = valRepeat then mods ||| bit
      else if ev.value = valRelease then mods &&& ~~~bit
      else mods

/-- Which physical keys are down after an event. -/
def hold (held : Nat → Bool) (ev : InputEvent) : Nat → Bool :=
  if ev.ty ≠ evKey then held
  else if ev.value = valPress ∨ ev.value = valRepeat then update held ev.code true
  else if ev.value = valRelease then update held ev.code false
  else held

/-- The byte, and the keys that are down. -/
structure State where
  mods : BitVec 8
  held : Nat → Bool

def State.boot : State := ⟨0, fun _ => false⟩

def step (s : State) (ev : InputEvent) : Option State := some ⟨dispatch s.mods ev, hold s.held ev⟩

/-- Every bit is set exactly while a key of its modifier is down. -/
def Tracks (mods : BitVec 8) (held : Nat → Bool) : Prop :=
  ∀ bit ∈ [modShift, modCtrl, modAlt], mods &&& bit ≠ 0 ↔
    ∃ code, modifierBit code = some bit ∧ held code = true

/-- The event releases no modifier key whose other variant is down. -/
def Alone (s : State) (ev : InputEvent) : Prop :=
  ev.ty = evKey → ev.value = valRelease → ∀ bit, modifierBit ev.code = some bit →
    ∀ code, code ≠ ev.code → modifierBit code = some bit → s.held code = false

theorem modifierBit_mem {code : Nat} {bit : BitVec 8} (h : modifierBit code = some bit) :
    bit ∈ [modShift, modCtrl, modAlt] := by
  unfold modifierBit at h
  split_ifs at h <;> cases h <;> decide

theorem or_bit : ∀ bit ∈ [modShift, modCtrl, modAlt], ∀ other ∈ [modShift, modCtrl, modAlt],
    ∀ mods : BitVec 8, (mods ||| bit) &&& other ≠ 0 ↔ other = bit ∨ mods &&& other ≠ 0 := by
  decide +kernel

theorem and_not_bit : ∀ bit ∈ [modShift, modCtrl, modAlt], ∀ other ∈ [modShift, modCtrl, modAlt],
    ∀ mods : BitVec 8, (mods &&& ~~~bit) &&& other ≠ 0 ↔ other ≠ bit ∧ mods &&& other ≠ 0 := by
  decide +kernel

section Event

variable {mods : BitVec 8} {held : Nat → Bool} {key : Nat} {bit : BitVec 8}

theorem tracks_press (h : Tracks mods held) (hbit : modifierBit key = some bit) :
    Tracks (mods ||| bit) (update held key true) := by
  intro other hmem
  rw [or_bit bit (modifierBit_mem hbit) other hmem, h other hmem]
  constructor
  · rintro (rfl | ⟨code, hcode, hheld⟩)
    · exact ⟨key, hbit, update_self ..⟩
    · refine ⟨code, hcode, ?_⟩
      rw [update_apply, hheld, ite_self]
  rintro ⟨code, hcode, hheld⟩
  by_cases hsame : code = key
  · exact .inl (Option.some.inj (hcode.symm.trans (hsame ▸ hbit)))
  · exact .inr ⟨code, hcode, by rwa [update_of_ne hsame] at hheld⟩

/-- A release is right exactly when the other key of the modifier is up. -/
theorem tracks_release (h : Tracks mods held) (hbit : modifierBit key = some bit) :
    Tracks (mods &&& ~~~bit) (update held key false) ↔
      ∀ code, code ≠ key → modifierBit code = some bit → held code = false := by
  have hmem := modifierBit_mem hbit
  constructor
  · intro htracks code hne hcode
    by_contra hheld
    have hset := (htracks bit hmem).mpr ⟨code, hcode, by
      rw [update_of_ne hne]
      exact eq_true_of_ne_false hheld⟩
    exact ((and_not_bit bit hmem bit hmem mods).mp hset).1 rfl
  intro halone other hother
  rw [and_not_bit bit hmem other hother, h other hother]
  constructor
  · rintro ⟨hne, code, hcode, hheld⟩
    refine ⟨code, hcode, ?_⟩
    rwa [update_of_ne]
    rintro rfl
    exact hne (Option.some.inj (hcode.symm.trans hbit))
  rintro ⟨code, hcode, hheld⟩
  have hne : code ≠ key := by
    rintro rfl
    rw [update_self] at hheld
    cases hheld
  rw [update_of_ne hne] at hheld
  refine ⟨?_, code, hcode, hheld⟩
  rintro rfl
  rw [halone code hne hcode] at hheld
  cases hheld

/-- A key that is no modifier. -/
theorem tracks_other (h : Tracks mods held) (hkey : modifierBit key = none) (b : Bool) :
    Tracks mods (update held key b) := by
  intro bit hmem
  rw [h bit hmem]
  refine exists_congr fun code => and_congr_right fun hcode => ?_
  rw [update_of_ne]
  rintro rfl
  cases hkey.symm.trans hcode

/-- One event keeps the byte right exactly when it is not such a release. -/
theorem tracks_step {s : State} (h : Tracks s.mods s.held) (ev : InputEvent) :
    Tracks (dispatch s.mods ev) (hold s.held ev) ↔ Alone s ev := by
  rw [dispatch, hold]
  by_cases hty : ev.ty = evKey
  · rw [if_neg (not_not.mpr hty), if_neg (not_not.mpr hty)]
    by_cases hpress : ev.value = valPress ∨ ev.value = valRepeat
    · have halone : Alone s ev := by
        intro _ hrel
        rcases hpress with hp | hp <;> cases hp.symm.trans hrel
      rw [if_pos hpress]
      cases hbit : modifierBit ev.code with
      | none => exact iff_of_true (tracks_other h hbit true) halone
      | some bit => exact iff_of_true (by simpa [if_pos hpress] using tracks_press h hbit) halone
    rw [if_neg hpress]
    by_cases hrel : ev.value = valRelease
    · rw [if_pos hrel]
      cases hbit : modifierBit ev.code with
      | none =>
        refine iff_of_true (tracks_other h hbit false) fun _ _ bit hb => ?_
        cases hbit.symm.trans hb
      | some bit =>
        dsimp only
        rw [if_neg hpress, if_pos hrel, tracks_release h hbit]
        simp only [Alone, hty, hrel, hbit, Option.some.injEq, forall_eq', forall_const]
    rw [if_neg hrel]
    refine iff_of_true ?_ fun _ hr => absurd hr hrel
    cases modifierBit ev.code with
    | none => exact h
    | some bit => simpa only [if_neg hpress, if_neg hrel] using h
  · rw [if_pos hty, if_pos hty]
    exact iff_of_true h fun ht => absurd ht hty

end Event

/-- In every run without such a release the byte is right after each event, and an event makes
it wrong exactly when it is one. -/
theorem modifiers_track_iff {s : State} (h : Reach step Alone (· = .boot) s) :
    Tracks s.mods s.held ∧
      ∀ ev s', step s ev = some s' → (Tracks s'.mods s'.held ↔ Alone s ev) := by
  have hboot : Tracks State.boot.mods State.boot.held := by
    intro bit hmem
    refine iff_of_false (by simp [State.boot]) ?_
    rintro ⟨code, -, ⟨⟩⟩
  have htracks : Tracks s.mods s.held := by
    refine h.invariant (I := fun s => Tracks s.mods s.held) (fun _ hs => hs ▸ hboot) ?_
    intro s ev s' hs halone hstep
    cases hstep
    exact (tracks_step hs ev).mpr halone
  refine ⟨htracks, fun ev s' hstep => ?_⟩
  cases hstep
  exact tracks_step htracks ev

/-- The state after both shift keys went down. -/
def bothShifts : State :=
  ⟨dispatch (dispatch 0 ⟨evKey, 42, valPress⟩) ⟨evKey, 54, valPress⟩,
    hold (hold (fun _ => false) ⟨evKey, 42, valPress⟩) ⟨evKey, 54, valPress⟩⟩

theorem bothShifts_reached : Reach step Alone (· = .boot) bothShifts := by
  have hboot : Reach step Alone (· = .boot) .boot := .start rfl
  have hone := hboot.next (a := ⟨evKey, 42, valPress⟩) (fun _ hrel => absurd hrel (by decide)) rfl
  exact hone.next (a := ⟨evKey, 54, valPress⟩) (fun _ hrel => absurd hrel (by decide)) rfl

theorem modifiers_track_both_shifts :
    bothShifts.held 42 = true ∧ bothShifts.mods &&& modShift ≠ 0 := by
  have htracks := (modifiers_track_iff bothShifts_reached).1
  exact ⟨by decide, (htracks modShift (by decide)).mpr ⟨42, rfl, by decide⟩⟩

/-- One of them is let go: the bit is clear while the other is still down. -/
theorem release_of_one_shift :
    Reach step Alone (· = .boot) bothShifts ∧
    ∃ s', step bothShifts ⟨evKey, 42, valRelease⟩ = some s' ∧ s'.held 54 = true ∧
      s'.mods &&& modShift = 0 :=
  ⟨bothShifts_reached, _, rfl, by decide, by decide⟩

end Orbit.Input.Modifiers
