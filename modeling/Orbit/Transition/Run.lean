import Mathlib.Order.Basic

/-!
Runs of a machine given by a partial step function `step : σ → α → Option σ`.
An action that is not enabled in a state has no successor. A run may be
restricted by a guard on the state before each step; the induction over guarded
runs is stated once here, and every safety theorem of a machine is an instance.
-/

namespace Transition

variable {σ α : Type}

/-- States reached from an initial state by steps that all meet `guard` in the
state they start from. -/
inductive Reach (step : σ → α → Option σ) (guard : σ → α → Prop) (init : σ → Prop) : σ → Prop where
  | start {s : σ} (h : init s) : Reach step guard init s
  | next {s s' : σ} {a : α} (before : Reach step guard init s) (ok : guard s a)
      (fired : step s a = some s') : Reach step guard init s'

variable {step : σ → α → Option σ} {guard : σ → α → Prop} {init : σ → Prop}

/-- An invariant that holds initially and is kept by every guarded step holds in
every state of every guarded run. -/
theorem Reach.invariant {I : σ → Prop} (hinit : ∀ s, init s → I s)
    (hstep : ∀ s a s', I s → guard s a → step s a = some s' → I s')
    {s : σ} (h : Reach step guard init s) : I s := by
  induction h with
  | start h => exact hinit _ h
  | next _ ok fired ih => exact hstep _ _ _ ih ok fired

/-- An invariant may rest on one already known of the run. -/
theorem Reach.invariant_of {I J : σ → Prop} (hI : ∀ s, Reach step guard init s → I s)
    (hinit : ∀ s, init s → J s)
    (hstep : ∀ s a s', I s → J s → guard s a → step s a = some s' → J s')
    {s : σ} (h : Reach step guard init s) : J s := by
  induction h with
  | start h => exact hinit _ h
  | next before ok fired ih => exact hstep _ _ _ (hI _ before) ih ok fired

/-- A run under a guard is one under every weaker guard. -/
theorem Reach.mono {weaker : σ → α → Prop} (hguard : ∀ s a, guard s a → weaker s a) {s : σ}
    (h : Reach step guard init s) : Reach step weaker init s := by
  induction h with
  | start h => exact .start h
  | next _ ok fired ih => exact .next ih (hguard _ _ ok) fired

/-- An invariant kept by every turn of a loop that may stop holds at its end. -/
theorem foldlM_invariant {β : Type} {f : σ → β → Option σ} {I : σ → Prop}
    (hturn : ∀ s b s', I s → f s b = some s' → I s') (l : List β) {s s' : σ} (hs : I s)
    (h : l.foldlM f s = some s') : I s' := by
  induction l generalizing s with
  | nil =>
    cases h
    exact hs
  | cons b rest ih =>
    rw [List.foldlM_cons, Option.bind_eq_bind, Option.bind_eq_some_iff] at h
    obtain ⟨mid, hmid, hrest⟩ := h
    exact ih (hturn s b mid hs hmid) hrest

/-- Execute a list of actions, stopping at the first that is not enabled or whose
guard fails. -/
def exec (step : σ → α → Option σ) (guard : σ → α → Prop) [∀ s a, Decidable (guard s a)] :
    σ → List α → Option σ
  | s, [] => some s
  | s, a :: rest =>
    if guard s a then
      match step s a with
      | some s' => exec step guard s' rest
      | none => none
    else none

/-- What an execution ends in is reached by a guarded run. -/
theorem Reach.of_exec [∀ s a, Decidable (guard s a)] {s s' : σ} (actions : List α)
    (hs : Reach step guard init s) (h : exec step guard s actions = some s') :
    Reach step guard init s' := by
  induction actions generalizing s with
  | nil =>
    simp only [exec, Option.some.injEq] at h
    exact h ▸ hs
  | cons a rest ih =>
    simp only [exec] at h
    split at h
    · next ok =>
      cases hfire : step s a with
      | none => simp [hfire] at h
      | some t =>
        simp only [hfire] at h
        exact ih (.next hs ok hfire) h
    · cases h

/-- A decidable property of the end of an execution holds in a reached state. -/
theorem Reach.exists_of_exec [∀ s a, Decidable (guard s a)] {s : σ} (actions : List α)
    (P : σ → Prop) [DecidablePred P] (hs : Reach step guard init s)
    (h : (exec step guard s actions).any (fun s' => decide (P s')) = true) :
    ∃ s', Reach step guard init s' ∧ P s' := by
  cases hexec : exec step guard s actions with
  | none => simp [hexec] at h
  | some s' =>
    rw [hexec] at h
    exact ⟨s', .of_exec actions hs hexec, of_decide_eq_true h⟩

end Transition
