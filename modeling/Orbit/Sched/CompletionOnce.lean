import Orbit.Sched.Completion

/-!
Every step of every party keeps the right to wake the thread in one place, so that in
every interleaving the thread is woken by one party, once, with the values of the first
signal.
-/

namespace Orbit.Sched.Completion

open Transition Function Thread

variable {count : Nat} {rets : Nat → Int} {next : Option WakePc} {slot : Slot}

variable {room seen : Bool} {pc : SignalPc} {t : Waiter}

variable {regs₀ : Nat → Int} {vals : Nat → List Int} {s s' : State} {i w : Nat}

/-! The steps of a call. -/

/-- A call at a point outside the wake-up adds no one who wakes. -/
theorem waking_update (hsig : ∀ j, (s.signals j).waking = false)
    (hpc : pc.waking = false) (j : Nat) : (update s.signals i pc j).waking = false := by
  by_cases hji : j = i
  · subst hji
    rw [update_self]
    exact hpc
  · rw [update_of_ne hji]
    exact hsig j

/-- A call that is under way is the winner's. -/
theorem Signals.busy (sent : Signals vals s) (hpc : s.signals i = pc)
    (hbusy : ¬ pc.resting) : s.first = some i ∧ Wrote (vals i) s pc := by
  have hf := sent.first_of_busy (hpc ▸ hbusy)
  exact ⟨hf, hpc ▸ sent.winner i hf⟩

section

variable (place : Place regs₀ vals s)

include place

/-- The pointer is in the waiter slot only while nobody has claimed it. -/
theorem Place.of_waiter (hw : s.waiter = true) :
    s.parker.registered = true ∧ (∀ i, (s.signals i).waking = false) ∧ s.claims = [] ∧
      Fresh regs₀ s.thread ∧ s.thread.state = .blocking ∧
      (s.parker = .take → s.slot = .signaled) := by
  cases place with
  | registered hp _ hsig hclaims fresh hstate htake _ =>
    exact ⟨hp, hsig, hclaims, fresh, hstate, htake⟩
  | unregistered _ hw' => simp [hw] at hw'
  | signaller _ _ _ _ _ hw' => simp [hw] at hw'
  | parker _ _ _ _ _ hw' => simp [hw] at hw'
  | woken _ _ _ _ hw' => simp [hw] at hw'

/-- A call that goes on outside the wake-up and does not end leaves the right where it is, as
long as the thread has not been claimed. -/
theorem Place.advance (hfirst : s.first = some i)
    (hclaimed : (s.signals i).waking = false ∧ s.signals i ≠ .swap ∧ s.signals i ≠ .done)
    (hpc : pc.waking = false ∧ pc ≠ .done) (hslot : s.slot = .signaled → slot = .signaled) :
    Place regs₀ vals ({ s with slot, retCount := count, rets }.setSignal i pc) := by
  cases place with
  | unregistered hp hw hsig hclaims fresh hstate =>
    exact .unregistered hp hw (waking_update hsig hpc.1) hclaims fresh hstate
  | registered hp hw hsig hclaims fresh hstate htake hleft =>
    refine .registered hp hw (waking_update hsig hpc.1) hclaims fresh hstate ?_ ?_
    · intro htk
      exact hslot (htake htk)
    intro _ w hw'
    obtain rfl : i = w := Option.some.inj (hfirst.symm.trans hw')
    simpa using hpc.2
  | signaller w pc' hf hsig _ _ _ _ =>
    obtain rfl : i = w := Option.some.inj (hfirst.symm.trans hf)
    simp [hsig] at hclaimed
  | parker w _ hf hsig _ _ _ _ =>
    obtain rfl : i = w := Option.some.inj (hfirst.symm.trans hf)
    rcases hsig with hsig | hsig
    · exact absurd hsig hclaimed.2.1
    · exact absurd hsig hclaimed.2.2
  | woken w hf hsig _ _ _ _ =>
    obtain rfl : i = w := Option.some.inj (hfirst.symm.trans hf)
    rcases hsig with hsig | hsig
    · exact absurd hsig hclaimed.2.1
    · exact absurd hsig hclaimed.2.2

/-- A call other than the winner's ends without effect. -/
theorem Place.lose (hne : s.first ≠ some i) :
    Place regs₀ vals (s.setSignal i .done) := by
  have hother : ∀ w, s.first = some w → update s.signals i .done w = s.signals w := by
    intro w hw
    apply update_of_ne
    rintro rfl
    exact hne hw
  cases place with
  | unregistered hp hw hsig hclaims fresh hstate =>
    exact .unregistered hp hw (waking_update hsig rfl) hclaims fresh hstate
  | registered hp hw hsig hclaims fresh hstate htake hleft =>
    refine .registered hp hw (waking_update hsig rfl) hclaims fresh hstate htake ?_
    intro hdone w hw'
    simp only [State.setSignal]
    rw [hother w hw']
    exact hleft hdone w hw'
  | signaller w pc hf hsig hp hw hclaims waking =>
    exact .signaller w pc hf ((hother w hf).trans hsig) hp hw hclaims waking
  | parker w pc hf hsig hp hw hclaims waking =>
    refine .parker w pc hf ?_ hp hw hclaims waking
    simp only [State.setSignal, hother w hf]
    exact hsig
  | woken w hf hsig hp hw hclaims wok =>
    refine .woken w hf ?_ hp hw hclaims wok
    simp only [State.setSignal, hother w hf]
    exact hsig

end

section

variable (inv : Inv regs₀ vals s)

include inv

/-- The first call to find the handle pending takes it. -/
theorem Inv.win (hslot : s.slot = .pending) :
    Inv regs₀ vals ({ s with slot := .writing, first := some i }.setSignal i (.storeRet 0)) := by
  have hnone := inv.sent.pending hslot
  have hstart := (inv.sent.unsignaled hnone).2
  have hpoint : ∀ j, (update s.signals i (.storeRet 0) j).waking = false ∧
      update s.signals i (.storeRet 0) j ≠ .done := by
    intro j
    by_cases hji : j = i
    · subst hji
      simp
    · simp [update_of_ne hji, hstart]
  constructor
  · constructor
    · intro h
      cases h
    · intro w hw j hj
      obtain rfl : i = w := Option.some.inj hw
      simp [update_of_ne hj, hstart]
    intro w hw
    obtain rfl : i = w := Option.some.inj hw
    simp [Wrote, Stored]
  cases inv.place with
  | unregistered hp hw hsig hclaims fresh hstate =>
    exact .unregistered hp hw (fun j => (hpoint j).1) hclaims fresh hstate
  | registered hp hw hsig hclaims fresh hstate htake hleft =>
    refine .registered hp hw (fun j => (hpoint j).1) hclaims fresh hstate ?_ ?_
    · intro htk
      have := htake htk
      rw [hslot] at this
      cases this
    · intro _ w _
      exact (hpoint w).2
  | signaller w _ hf => simp [hnone] at hf
  | parker w _ hf => simp [hnone] at hf
  | woken w hf => simp [hnone] at hf

theorem Inv.lose (hslot : s.slot ≠ .pending)
    (hpc : s.signals i = .start) : Inv regs₀ vals (s.setSignal i .done) := by
  obtain ⟨w, hf, wrote⟩ := inv.sent.taken hslot
  have hne : w ≠ i := by
    rintro rfl
    simp [hpc, Wrote] at wrote
  constructor
  · constructor
    · intro h
      rw [State.setSignal, hf] at h
      cases h
    · intro w' hw' j hj
      by_cases hji : j = i
      · subst hji
        simp
      · simp only [State.setSignal, update_of_ne hji]
        exact inv.sent.others w' hw' j hj
    intro w' hw'
    obtain rfl : w = w' := Option.some.inj (hf.symm.trans hw')
    simp only [State.setSignal, update_of_ne hne]
    exact wrote.congr rfl rfl rfl
  apply inv.place.lose
  rw [hf]
  simpa using hne

/-- The winner claims the waiter slot. -/
theorem Inv.swap (hpc : s.signals i = .swap) (hw : s.waiter = true) :
    Inv regs₀ vals (State.setSignal { s with
      waiter := false
      claims := s.claims ++ [Party.signaller i] } i (.wake .takeHandle)) := by
  obtain ⟨hf, coh⟩ := inv.sent.busy hpc (by simp)
  obtain ⟨hp, _, hclaims, fresh, hstate, _⟩ := inv.place.of_waiter hw
  refine ⟨inv.sent.advance hf rfl rfl coh, .signaller i .takeHandle hf ?_ hp rfl ?_ ⟨fresh, hstate⟩⟩
  · simp
  · simp [hclaims]

/-- The winner finds the waiter slot empty and ends. -/
theorem Inv.unclaimed (hpc : s.signals i = .swap)
    (hw : s.waiter = false) : Inv regs₀ vals (s.setSignal i .done) := by
  obtain ⟨hf, coh⟩ := inv.sent.busy hpc (by simp)
  have hdone : ∀ w, s.first = some w → update s.signals i .done w = .done := by
    intro w hw'
    obtain rfl : i = w := Option.some.inj (hf.symm.trans hw')
    simp
  refine ⟨inv.sent.advance hf rfl rfl coh, ?_⟩
  cases inv.place with
  | unregistered hp _ hsig hclaims fresh hstate =>
    exact .unregistered hp hw (waking_update hsig rfl) hclaims fresh hstate
  | registered _ hw' => simp [hw] at hw'
  | signaller w _ hf' hsig =>
    obtain rfl : i = w := Option.some.inj (hf.symm.trans hf')
    simp [hpc] at hsig
  | parker w pc hf' _ hp _ hclaims waking =>
    exact .parker w pc hf' (.inr (hdone w hf')) hp hw hclaims waking
  | woken w hf' _ hp _ hclaims wok =>
    exact .woken w hf' (.inr (hdone w hf')) hp hw hclaims wok

/-- The winner goes on with the wake-up it has claimed. -/
theorem Inv.signaller_wake {pc : WakePc} (hpc : s.signals i = .wake pc)
    (hstep : wakeStep s.retCount s.rets room s.thread pc = (t, next)) :
    Inv regs₀ vals ({ s with thread := t }.setSignal i (next.elim .done .wake)) := by
  obtain ⟨hf, coh⟩ := inv.sent.busy hpc (by simp)
  constructor
  · have wrote : Wrote (vals i) ({ s with thread := t }.setSignal i (next.elim .done .wake))
        (next.elim .done .wake) := by
      cases next <;> exact coh
    exact inv.sent.advance hf rfl rfl wrote
  cases inv.place with
  | unregistered _ _ hsig =>
    have := hsig i
    simp [hpc] at this
  | registered _ _ hsig =>
    have := hsig i
    simp [hpc] at this
  | signaller w pc' hf' hsig hp hw hclaims waking =>
    obtain rfl : i = w := Option.some.inj (hf.symm.trans hf')
    obtain rfl : pc = pc' := by simpa [hpc] using hsig
    have out := waking.step coh room
    rw [hstep] at out
    cases next with
    | some pc' => exact .signaller i pc' hf (by simp) hp hw hclaims out
    | none =>
      refine .woken i hf (.inr (by simp)) hp hw ?_ out
      simp [hclaims]
  | parker w _ hf' hsig =>
    obtain rfl : i = w := Option.some.inj (hf.symm.trans hf')
    simp [hpc] at hsig
  | woken w hf' hsig =>
    obtain rfl : i = w := Option.some.inj (hf.symm.trans hf')
    simp [hpc] at hsig

/-- The winner goes on before it has published. -/
theorem Inv.advance (hf : s.first = some i)
    (hclaimed : (s.signals i).waking = false ∧ s.signals i ≠ .swap ∧ s.signals i ≠ .done)
    (hpc : pc.waking = false ∧ pc ≠ .done)
    (hslot : s.slot = .signaled → slot = .signaled)
    (wrote : Wrote (vals i) ({ s with slot, retCount := count, rets }.setSignal i pc) pc) :
    Inv regs₀ vals ({ s with slot, retCount := count, rets }.setSignal i pc) :=
  ⟨inv.sent.advance hf rfl rfl wrote, inv.place.advance hf hclaimed hpc hslot⟩

/-- The winner stores its values one by one. -/
theorem Inv.storeRet {k : Nat}
    (hpc : s.signals i = .storeRet k) (hs : signalStep (vals i) s i room = some s') :
    Inv regs₀ vals s' := by
  obtain ⟨hf, hslot, _, hrets⟩ := inv.sent.busy hpc (by simp)
  have hclaimed : (s.signals i).waking = false ∧ s.signals i ≠ .swap ∧ s.signals i ≠ .done := by
    simp [hpc]
  simp only [signalStep, hpc] at hs
  split at hs <;> cases hs
  case isTrue hlt =>
    refine inv.advance hf hclaimed (by simp) id ⟨hslot, hlt, ?_⟩
    intro j hj
    by_cases hjk : j = k
    · subst hjk
      simp
    · simp only [State.setSignal, update_of_ne hjk]
      exact hrets j (by omega)
  case isFalse hge =>
    refine inv.advance hf hclaimed (by simp) id ⟨hslot, Nat.le_refl _, ?_⟩
    intro j hj
    exact hrets j (by omega)

theorem Inv.signal_step
    (hs : signalStep (vals i) s i room = some s') : Inv regs₀ vals s' := by
  cases hpc : s.signals i with
  | start =>
    simp only [signalStep, hpc] at hs
    split at hs <;> obtain rfl := Option.some.inj hs
    case isTrue hslot => exact inv.win hslot
    case isFalse hslot => exact inv.lose hslot hpc
  | storeRet k => exact inv.storeRet hpc hs
  | storeCount =>
    obtain ⟨hf, wrote⟩ := inv.sent.busy hpc (by simp)
    simp only [signalStep, hpc] at hs
    cases hs
    exact inv.advance hf (by simp [hpc]) (by simp) id
      ⟨wrote.1, wrote.2, rfl⟩
  | publish =>
    obtain ⟨hf, wrote⟩ := inv.sent.busy hpc (by simp)
    simp only [signalStep, hpc] at hs
    cases hs
    exact inv.advance hf (by simp [hpc]) (by simp)
      (fun _ => rfl) ⟨rfl, wrote.2.1, wrote.2.2⟩
  | swap =>
    simp only [signalStep, hpc] at hs
    split at hs <;> obtain rfl := Option.some.inj hs
    case isTrue hw => exact inv.swap hpc hw
    case isFalse hw => exact inv.unclaimed hpc (Bool.eq_false_iff.mpr hw)
  | wake pc =>
    simp only [signalStep, hpc] at hs
    cases hstep : wakeStep s.retCount s.rets room s.thread pc with
    | mk t next =>
      have := inv.signaller_wake hpc hstep
      rw [hstep] at hs
      cases next <;> obtain rfl := Option.some.inj hs <;> exact this
  | done =>
    simp only [signalStep, hpc] at hs
    cases hs

end

/-! The steps of the parker. -/

section

variable (place : Place regs₀ vals s)

include place

/-- The parker moves on without the waiter slot, after it has registered. -/
theorem Place.move (hp : s.parker.registered = true) {pc : ParkPc}
    (hpc : pc.registered = true) (hw : s.waiter = true → (pc = .take → s.slot = .signaled) ∧
      (pc = .done → ∀ w, s.first = some w → s.signals w ≠ .done)) :
    Place regs₀ vals (s.setParker pc) := by
  cases place with
  | unregistered hp' =>
    cases hpk : s.parker <;> simp [hpk, ParkPc.early, ParkPc.registered] at hp hp'
  | registered _ hw' hsig hclaims fresh hstate _ _ =>
    exact .registered hpc hw' hsig hclaims fresh hstate (hw hw').1 (hw hw').2
  | signaller w pc' hf hsig _ hw' hclaims waking =>
    exact .signaller w pc' hf hsig hpc hw' hclaims waking
  | parker _ _ _ _ hp' => simp [hp', ParkPc.registered] at hp
  | woken w hf hsig _ hw' hclaims wok => exact .woken w hf hsig hpc hw' hclaims wok

/-- The parker goes on with the wake-up it has claimed. -/
theorem Place.parker_wake (sent : Signals vals s) {pc : WakePc} (hpc : s.parker = .wake pc)
    (hstep : wakeStep s.retCount s.rets room s.thread pc = (t, next)) :
    Place regs₀ vals ({ s with thread := t }.setParker (next.elim .done .wake)) := by
  cases place with
  | unregistered hp => simp [hpc, ParkPc.early] at hp
  | registered hp => simp [hpc, ParkPc.registered] at hp
  | signaller _ _ _ _ hp => simp [hpc, ParkPc.registered] at hp
  | woken _ _ _ hp => simp [hpc, ParkPc.registered] at hp
  | parker w pc' hf hsig hp hw hclaims waking =>
    obtain rfl : pc = pc' := by simpa [hpc] using hp
    have coh : Coherent (vals w) s := by
      have := sent.winner w hf
      rcases hsig with hsig | hsig <;> rwa [hsig] at this
    have out := waking.step coh room
    rw [hstep] at out
    cases next with
    | some pc' => exact .parker w pc' hf hsig rfl hw hclaims out
    | none => exact .woken w hf hsig rfl hw (by simp [hclaims]) out

/-- Before the parker has registered nobody can have begun to wake the thread. -/
theorem Place.of_early {pc : ParkPc} (hpc : s.parker = pc)
    (hp : pc.early = true) : s.waiter = false ∧ (∀ i, (s.signals i).waking = false) ∧
      s.claims = [] ∧ Fresh regs₀ s.thread ∧ s.thread.state = pc.threadState := by
  have hreg : pc.registered = false := by
    cases pc <;> simp [ParkPc.early, ParkPc.registered] at hp ⊢
  subst hpc
  cases place with
  | unregistered _ hw hsig hclaims fresh hstate => exact ⟨hw, hsig, hclaims, fresh, hstate⟩
  | registered hp' => simp [hreg] at hp'
  | signaller _ _ _ _ hp' => simp [hreg] at hp'
  | parker _ _ _ _ hp' => simp [hp', ParkPc.early] at hp
  | woken _ _ _ hp' => simp [hreg] at hp'

end

/-- A signaled handle whose winner has not begun to wake the thread: the winner is at the slot
or has left it. -/
theorem Signals.published (sent : Signals vals s) (hslot : s.slot = .signaled)
    (hsig : ∀ i, (s.signals i).waking = false) :
    ∃ w, s.first = some w ∧ (s.signals w = .swap ∨ s.signals w = .done) := by
  obtain ⟨w, hf, wrote⟩ := sent.taken (by simp [hslot])
  have hnw := hsig w
  refine ⟨w, hf, ?_⟩
  cases hpt : s.signals w <;> simp [hpt, Wrote, hslot] at wrote hnw ⊢

section

variable (inv : Inv regs₀ vals s)

include inv

/-- The parker claims the slot itself. -/
theorem Inv.take (hpc : s.parker = .take) (hw : s.waiter = true) :
    Inv regs₀ vals ({ s with waiter := false, claims := s.claims ++ [Party.parker] }.setParker
      (.wake .takeHandle)) := by
  obtain ⟨_, hsig, hclaims, fresh, hstate, htake⟩ := inv.place.of_waiter hw
  obtain ⟨w, hf, hpoint⟩ := inv.sent.published (htake hpc) hsig
  refine ⟨inv.sent.congr rfl rfl rfl rfl rfl, ?_⟩
  exact .parker w .takeHandle hf hpoint rfl rfl (by simp [hclaims]) ⟨fresh, hstate⟩

/-- The parker looks at the handle again. -/
theorem Inv.recheck (hpc : s.parker = .recheck)
    (hs : parkStep s room seen = some s') : Inv regs₀ vals s' := by
  have hp : s.parker.registered = true := by simp [hpc, ParkPc.registered]
  -- while the pointer is in the waiter slot nobody has taken the handle
  have hhandle : s.waiter = true → s.thread.handle = true := by
    intro hw
    obtain ⟨_, _, _, fresh, _⟩ := inv.place.of_waiter hw
    exact fresh.handle
  simp only [parkStep, hpc] at hs
  split at hs <;> cases hs
  case isTrue hsaw =>
    refine ⟨inv.sent.congr rfl rfl rfl rfl rfl, inv.place.move hp rfl fun hw => ⟨?_, ?_⟩⟩
    · intro _
      simpa [State.isSignaled, hhandle hw] using hsaw
    · intro h
      cases h
  case isFalse hsaw =>
    refine ⟨inv.sent.congr rfl rfl rfl rfl rfl, inv.place.move hp rfl fun hw => ⟨?_, ?_⟩⟩
    · intro h
      cases h
    -- a winner that has ended has published its signal, which the re-check would have seen
    intro _ w hf hdone
    have hwon := inv.sent.winner w hf
    rw [hdone] at hwon
    simp only [State.isSignaled, hhandle hw, if_true, decide_eq_true_eq] at hsaw
    exact hsaw hwon.1

theorem Inv.park_step
    (hs : parkStep s room seen = some s') : Inv regs₀ vals s' := by
  cases hpc : s.parker with
  | load =>
    obtain ⟨hw, hsig, hclaims, fresh, hstate⟩ := inv.place.of_early hpc rfl
    have hrun : s.thread.state = .running := hstate
    simp only [parkStep, hpc, hrun, ThreadState.transitionAllowed, reduceCtorEq, if_false,
      decide_true, if_true, Option.some.injEq] at hs
    subst hs
    exact ⟨inv.sent.congr rfl rfl rfl rfl rfl, .unregistered rfl hw hsig hclaims fresh hrun⟩
  | store =>
    obtain ⟨hw, hsig, hclaims, fresh, _⟩ := inv.place.of_early hpc rfl
    simp only [parkStep, hpc] at hs
    cases hs
    refine ⟨inv.sent.congr rfl rfl rfl rfl rfl, .unregistered rfl hw hsig hclaims ?_ rfl⟩
    exact { fresh with }
  | setWaiter =>
    obtain ⟨hw, hsig, hclaims, fresh, hstate⟩ := inv.place.of_early hpc rfl
    simp only [parkStep, hpc, fresh.handle, if_true] at hs
    cases hs
    refine ⟨inv.sent.congr rfl rfl rfl rfl rfl, .registered rfl rfl hsig hclaims fresh hstate ?_ ?_⟩
    · intro h
      cases h
    · intro h
      cases h
  | recheck => exact inv.recheck hpc hs
  | take =>
    simp only [parkStep, hpc] at hs
    split at hs <;> obtain rfl := Option.some.inj hs
    case isTrue hw => exact inv.take hpc hw
    case isFalse hw =>
      refine ⟨inv.sent.congr rfl rfl rfl rfl rfl, inv.place.move ?_ rfl fun hw' => absurd hw' hw⟩
      rw [hpc]
      rfl
  | wake pc =>
    simp only [parkStep, hpc] at hs
    cases hstep : wakeStep s.retCount s.rets room s.thread pc with
    | mk t next =>
      have place := inv.place.parker_wake inv.sent hpc hstep
      rw [hstep] at hs
      cases next <;> obtain rfl := Option.some.inj hs <;>
        exact ⟨inv.sent.congr rfl rfl rfl rfl rfl, place⟩
  | done =>
    simp only [parkStep, hpc] at hs
    cases hs

theorem Inv.preserved {a : Action} (hs : step vals s a = some s') :
    Inv regs₀ vals s' := by
  cases a with
  | signal i room => exact inv.signal_step hs
  | park room seen => exact inv.park_step hs
  | dispatch =>
    simp only [step] at hs
    split at hs
    case isFalse => cases hs
    case isTrue hpos =>
      cases hs
      refine ⟨inv.sent.congr rfl rfl rfl rfl rfl, ?_⟩
      cases inv.place with
      | unregistered _ _ _ _ fresh => simp [fresh.inbox] at hpos
      | registered _ _ _ _ fresh => simp [fresh.inbox] at hpos
      | signaller _ _ _ _ _ _ _ waking => simp [waking.inbox] at hpos
      | parker _ _ _ _ _ _ _ waking => simp [waking.inbox] at hpos
      | woken w hf hsig hp hw hclaims wok =>
        refine .woken w hf hsig hp hw hclaims { wok with placed := ?_ }
        have hplaced := wok.placed
        split at hplaced
        · omega
        case isFalse hkept =>
          rcases hplaced with ⟨hone, _⟩ | ⟨hnone, _⟩
          · simp [hkept, hone]
          · omega

end

theorem Initial.inv (init : Initial regs₀ s) : Inv regs₀ vals s := by
  constructor
  · constructor
    · intro _
      exact ⟨init.slot, init.signals⟩
    · intro w hw
      simp [init.first] at hw
    · intro w hw
      simp [init.first] at hw
  refine .unregistered ?_ init.waiter ?_ init.claims init.thread ?_
  · simp [init.parker, ParkPc.early]
  · intro i
    simp [init.signals i]
  · simp [init.state, init.parker, ParkPc.threadState]

/-! No party waits for another: each has a step as long as it has not ended, and each step
takes it nearer to its end. -/

@[simp] def WakePc.rank : WakePc → Nat
  | .takeHandle => 11
  | .loadCount => 10
  | .loadRets n got => 5 + (n - got.length)
  | .resume _ => 4
  | .promoteLoad => 3
  | .promoteStore => 2
  | .push => 1

@[simp] def SignalPc.rank : SignalPc → Nat
  | .start => 20
  | .storeRet k => 15 + (maxRets - k)
  | .storeCount => 14
  | .publish => 13
  | .swap => 12
  | .wake pc => pc.rank
  | .done => 0

@[simp] def ParkPc.rank : ParkPc → Nat
  | .load => 16
  | .store => 15
  | .setWaiter => 14
  | .recheck => 13
  | .take => 12
  | .wake pc => pc.rank
  | .done => 0

theorem wakeStep_rank (count : Nat) (rets : Nat → Int) (room : Bool) (t : Waiter) (pc : WakePc) :
    (wakeStep count rets room t pc).2.elim 0 WakePc.rank < pc.rank := by
  cases pc with
  | takeHandle => cases hh : t.handle <;> simp [wakeStep, hh]
  | loadCount =>
    simp only [wakeStep, Option.elim, WakePc.rank, List.length_nil, maxRets]
    omega
  | loadRets n got =>
    simp only [wakeStep]
    split
    · simp only [Option.elim, WakePc.rank, List.length_append, List.length_singleton]
      omega
    · simp only [Option.elim, WakePc.rank]
      omega
  | resume _ => simp [wakeStep]
  | promoteLoad => cases hp : t.state.parked <;> simp [wakeStep, hp]
  | promoteStore => simp [wakeStep]
  | push => simp [wakeStep]

/-- A call that has not ended has a step, and no step of it moves another party. -/
theorem signal_progress (vs : List Int) (s : State) (i : Nat) (room : Bool)
    (hpc : s.signals i ≠ .done) : ∃ s', signalStep vs s i room = some s' ∧
      (s'.signals i).rank < (s.signals i).rank ∧ s'.parker = s.parker ∧
      ∀ j, j ≠ i → s'.signals j = s.signals j := by
  have others : ∀ pc j, j ≠ i → update s.signals i pc j = s.signals j :=
    fun pc j hj => update_of_ne hj _ _
  simp only [signalStep]
  cases hp : s.signals i with
  | start =>
    dsimp only
    split
    · exact ⟨_, rfl, by simp [maxRets], rfl, others _⟩
    · exact ⟨_, rfl, by simp, rfl, others _⟩
  | storeRet k =>
    dsimp only
    split
    case isTrue hlt =>
      refine ⟨_, rfl, ?_, rfl, others _⟩
      have hk : k < maxRets := Nat.lt_of_lt_of_le hlt (Nat.min_le_right _ _)
      simp only [State.setSignal, update_self, SignalPc.rank]
      omega
    case isFalse =>
      refine ⟨_, rfl, ?_, rfl, others _⟩
      simp only [State.setSignal, update_self, SignalPc.rank]
      omega
  | storeCount => exact ⟨_, rfl, by simp, rfl, others _⟩
  | publish => exact ⟨_, rfl, by simp, rfl, others _⟩
  | swap =>
    dsimp only
    split
    · exact ⟨_, rfl, by simp, rfl, others _⟩
    · exact ⟨_, rfl, by simp, rfl, others _⟩
  | wake pc =>
    have hlt := wakeStep_rank s.retCount s.rets room s.thread pc
    dsimp only
    cases hw : wakeStep s.retCount s.rets room s.thread pc with
    | mk t next =>
      rw [hw] at hlt
      cases next with
      | some pc' => exact ⟨_, rfl, by simpa using hlt, rfl, others _⟩
      | none => exact ⟨_, rfl, by simpa using hlt, rfl, others _⟩
  | done => exact absurd hp hpc

theorem park_progress (s : State) (room seen : Bool) (hpc : s.parker ≠ .done) :
    ∃ s', parkStep s room seen = some s' ∧ s'.parker.rank < s.parker.rank ∧
      s'.signals = s.signals := by
  simp only [parkStep]
  cases hp : s.parker with
  | load =>
    dsimp only
    split
    · exact ⟨_, rfl, by simp, rfl⟩
    split
    · exact ⟨_, rfl, by simp, rfl⟩
    · exact ⟨_, rfl, by simp, rfl⟩
  | store => exact ⟨_, rfl, by simp, rfl⟩
  | setWaiter =>
    dsimp only
    split <;> exact ⟨_, rfl, by simp, rfl⟩
  | recheck =>
    dsimp only
    split <;> exact ⟨_, rfl, by simp, rfl⟩
  | take =>
    dsimp only
    split <;> exact ⟨_, rfl, by simp, rfl⟩
  | wake pc =>
    have hlt := wakeStep_rank s.retCount s.rets room s.thread pc
    dsimp only
    cases hw : wakeStep s.retCount s.rets room s.thread pc with
    | mk t next =>
      rw [hw] at hlt
      cases next <;> exact ⟨_, rfl, by simpa using hlt, rfl⟩
  | done => exact absurd hp hpc

/-! What follows for the thread. -/

theorem Waking.counts {vs : List Int} {pc : WakePc} (waking : Waking regs₀ vs t pc) :
    t.panicked = false ∧ (t.promotions = 0 ∨
      t.promotions = 1 ∧ t.regs = marshal regs₀ (vs.take maxRets)) := by
  cases pc with
  | takeHandle =>
    exact ⟨waking.1.panicked, .inl waking.1.promotions⟩
  | loadCount => exact ⟨waking.1.panicked, .inl waking.1.promotions⟩
  | loadRets _ _ => exact ⟨waking.1.1.panicked, .inl waking.1.1.promotions⟩
  | resume _ => exact ⟨waking.1.1.panicked, .inl waking.1.1.promotions⟩
  | promoteLoad => exact ⟨waking.1.1.panicked, .inl waking.1.1.promotions⟩
  | promoteStore => exact ⟨waking.1.1.panicked, .inl waking.1.1.promotions⟩
  | push =>
    obtain ⟨_, hcalm, _, hpromo, _, hregs⟩ := waking
    exact ⟨hcalm, .inr ⟨hpromo, hregs⟩⟩

/-- The thread is never woken twice, and once it is Ready its return registers hold the values
of the signal that won the handle. -/
structure Once (regs₀ : Nat → Int) (vals : Nat → List Int) (s : State) : Prop where
  calm : s.thread.panicked = false
  claims : s.claims.length ≤ 1
  promotions : s.thread.promotions ≤ 1
  tokens : s.thread.inbox ≤ 1
  values : s.thread.promotions = 1 → ∃ w, s.first = some w ∧
    s.thread.regs = marshal regs₀ ((vals w).take maxRets)

theorem Fresh.once (fresh : Fresh regs₀ s.thread) (hclaims : s.claims = []) :
    Once regs₀ vals s := by
  refine ⟨fresh.panicked, by simp [hclaims], by simp [fresh.promotions], by simp [fresh.inbox], ?_⟩
  intro h
  simp [fresh.promotions] at h

theorem Waking.once {pc : WakePc} {p : Party} (waking : Waking regs₀ (vals w) s.thread pc)
    (hf : s.first = some w) (hclaims : s.claims = [p]) : Once regs₀ vals s := by
  obtain ⟨hcalm, hpromo⟩ := waking.counts
  refine ⟨hcalm, by simp [hclaims], by omega, by simp [waking.inbox], ?_⟩
  intro h
  rcases hpromo with h0 | ⟨_, hregs⟩
  · simp [h0] at h
  · exact ⟨w, hf, hregs⟩

theorem Inv.once (inv : Inv regs₀ vals s) : Once regs₀ vals s := by
  cases inv.place with
  | unregistered _ _ _ hclaims fresh => exact fresh.once hclaims
  | registered _ _ _ hclaims fresh => exact fresh.once hclaims
  | signaller w pc hf _ _ _ hclaims waking => exact waking.once hf hclaims
  | parker w pc hf _ _ _ hclaims waking => exact waking.once hf hclaims
  | woken w hf _ _ _ hclaims wok =>
    refine ⟨wok.panicked, by simp [hclaims], by simp [wok.promotions], ?_, ?_⟩
    · have hplaced := wok.placed
      split at hplaced <;> omega
    · intro _
      exact ⟨w, hf, wok.regs⟩

/-- The thread is Ready with one token in a ready inbox, or a hart has taken the token and runs
it. -/
def Runnable (s : State) : Prop :=
  s.thread.inbox = 1 ∧ s.thread.state = .ready ∨ s.thread.inbox = 0 ∧ s.thread.state = .running

/-- Once the handle is signaled and the parker and the winner have ended, the thread is awake,
and runnable unless its token was refused. -/
theorem Inv.settled (inv : Inv regs₀ vals s) (hslot : s.slot = .signaled)
    (hparker : s.parker = .done) (hwinner : ∀ w, s.first = some w → s.signals w = .done) :
    s.claims.length = 1 ∧ s.thread.promotions = 1 ∧ (s.thread.refused = false → Runnable s) := by
  obtain ⟨w, hf, _⟩ := inv.sent.taken (by simp [hslot])
  have hdone := hwinner w hf
  cases inv.place with
  | unregistered hp => simp [hparker, ParkPc.early] at hp
  | registered _ _ _ _ _ _ _ hleft => exact absurd hdone (hleft hparker w hf)
  | signaller w' _ hf' hsig =>
    obtain rfl : w = w' := Option.some.inj (hf.symm.trans hf')
    simp [hdone] at hsig
  | parker _ _ _ _ hp => simp [hparker] at hp
  | woken _ _ _ _ _ hclaims wok => 
    refine ⟨hclaims, wok.promotions, ?_⟩
    intro hkept
    have hplaced := wok.placed
    rwa [if_neg (by simp [hkept])] at hplaced

/-- The ready inbox has room when the token of the wake-up is pushed. -/
def HasRoom (s : State) : Action → Prop
  | .signal i room => s.signals i = .wake .push → room = true
  | .park room _ => s.parker = .wake .push → room = true
  | .dispatch => True

instance (s : State) (a : Action) : Decidable (HasRoom s a) :=
  match a with
  | .signal i room => inferInstanceAs (Decidable (s.signals i = .wake .push → room = true))
  | .park room _ => inferInstanceAs (Decidable (s.parker = .wake .push → room = true))
  | .dispatch => inferInstanceAs (Decidable True)

theorem wakeStep_refused {wpc : WakePc} (hroom : wpc = .push → room = true) :
    (wakeStep count rets room t wpc).1.refused = t.refused := by
  cases wpc with
  | push => simp [wakeStep, hroom rfl]
  | takeHandle | loadRets | promoteLoad =>
    simp only [wakeStep]
    split <;> rfl
  | loadCount | resume | promoteStore => rfl

theorem step_refused {a : Action} (hroom : HasRoom s a) (hs : step vals s a = some s') :
    s'.thread.refused = s.thread.refused := by
  have hwake : ∀ wpc room, (wpc = .push → room = true) →
      (wakeStep s.retCount s.rets room s.thread wpc).1.refused = s.thread.refused := by
    intro wpc room
    exact wakeStep_refused
  cases a with
  | signal i room =>
    simp only [step, signalStep] at hs
    cases hpc : s.signals i with
    | wake wpc =>
      have hkept := hwake wpc room fun h => hroom (by rw [hpc, h])
      simp only [hpc] at hs
      split at hs <;> rename_i hw <;> cases hs <;> rw [hw] at hkept <;> exact hkept
    | start | storeRet | swap =>
      simp only [hpc] at hs
      split at hs <;> cases hs <;> rfl
    | storeCount | publish =>
      simp only [hpc] at hs
      cases hs
      rfl
    | done => simp [hpc] at hs
  | park room seen =>
    simp only [step, parkStep] at hs
    cases hpc : s.parker with
    | wake wpc =>
      have hkept := hwake wpc room fun h => hroom (by rw [hpc, h])
      simp only [hpc] at hs
      split at hs <;> rename_i hw <;> cases hs <;> rw [hw] at hkept <;> exact hkept
    | load =>
      simp only [hpc] at hs
      split at hs
      · cases hs
        rfl
      · split at hs <;> cases hs <;> rfl
    | setWaiter | recheck | take =>
      simp only [hpc] at hs
      split at hs <;> cases hs <;> rfl
    | store =>
      simp only [hpc] at hs
      cases hs
      rfl
    | done => simp [hpc] at hs
  | dispatch =>
    simp only [step] at hs
    split at hs <;> cases hs
    rfl

/-- With room in the inbox no token is refused. -/
theorem not_refused (hrun : Reach (step vals) HasRoom (Initial regs₀) s) :
    s.thread.refused = false := by
  apply hrun.invariant (I := fun s => s.thread.refused = false)
  · intro s init
    exact init.thread.refused
  · intro s a s' hkept hroom hs
    rw [step_refused hroom hs, hkept]

/-- For every interleaving of the calls with the parker: at most one party gets the thread out
of the waiter slot, the thread becomes Ready at most once and then holds the values of the first
signal, at most four; a party that has not ended always has a step and takes a bounded number of
them; and once the handle is signaled and its winner and the parker have ended, exactly one of
them has made the thread Ready. If the inbox had room for the token, the thread is then in the
ready inbox once or has been taken from it. -/
theorem completion_wakes_once (hrun : Reach (step vals) (fun _ _ => True) (Initial regs₀) s) :
    Once regs₀ vals s ∧
    (s.slot = .signaled → s.parker = .done → (∀ w, s.first = some w → s.signals w = .done) →
      s.claims.length = 1 ∧ s.thread.promotions = 1 ∧
        (Reach (step vals) HasRoom (Initial regs₀) s → Runnable s)) ∧
    (∀ i room, s.signals i ≠ .done → ∃ s', step vals s (.signal i room) = some s' ∧
      (s'.signals i).rank < (s.signals i).rank ∧ s'.parker = s.parker ∧
      ∀ j, j ≠ i → s'.signals j = s.signals j) ∧
    ∀ room seen, s.parker ≠ .done → ∃ s', step vals s (.park room seen) = some s' ∧
      s'.parker.rank < s.parker.rank ∧ s'.signals = s.signals := by
  have inv : Inv regs₀ vals s := by
    apply hrun.invariant
    · intro s init
      exact init.inv
    · intro s a s' inv _ hs
      exact inv.preserved hs
  refine ⟨inv.once, ?_, ?_, ?_⟩
  · intro hslot hparker hwinner
    obtain ⟨hclaims, hpromo, hrunnable⟩ := inv.settled hslot hparker hwinner
    exact ⟨hclaims, hpromo, fun hroom => hrunnable (not_refused hroom)⟩
  · intro i room hpc
    exact signal_progress (vals i) s i room hpc
  · intro room seen hpc
    exact park_progress s room seen hpc

/-- The state before the thread parks. -/
def start : State where
  slot := .pending
  retCount := 0
  rets := fun _ => 0
  waiter := false
  thread := ⟨true, .running, fun _ => 0, 0, false, 0, false⟩
  signals := fun _ => .start
  parker := .load
  first := none
  claims := []

theorem start_initial : Initial (fun _ => 0) start where
  slot := rfl
  waiter := rfl
  thread := ⟨rfl, rfl, rfl, rfl, rfl, rfl⟩
  state := rfl
  signals _ := rfl
  parker := rfl
  first := rfl
  claims := rfl

/-- Call 0 is signaled but has not claimed the waiter yet when the parker re-checks; the parker
wakes itself. Call 1 comes too late. -/
def lateSwap : List Action :=
  List.replicate 6 (.signal 0 true) ++ List.replicate 5 (.park true false) ++
    [.signal 1 true, .signal 0 true] ++ List.replicate 9 (.park true false)

theorem completion_wakes_once_parker : ∃ s,
    Reach (step fun i => if i = 0 then [5, 6] else [7]) HasRoom (Initial fun _ => 0) s ∧
      s.claims = [.parker] ∧ s.thread.promotions = 1 ∧ Runnable s ∧
      s.thread.regs 10 = 5 ∧ s.thread.regs 11 = 6 := by
  have hstart : Reach (step fun i => if i = 0 then [5, 6] else [7]) HasRoom
      (Initial fun _ => 0) start := .start start_initial
  obtain ⟨s, hrun, hslot, hparker, hfirst, hdone, hclaims, h5, h6⟩ :=
    hstart.exists_of_exec lateSwap (fun s => s.slot = .signaled ∧ s.parker = .done ∧
      s.first = some 0 ∧ s.signals 0 = .done ∧ s.claims = [.parker] ∧ s.thread.regs 10 = 5 ∧
      s.thread.regs 11 = 6) (by decide +kernel)
  obtain ⟨_, hsettled, _⟩ := completion_wakes_once (hrun.mono fun _ _ _ => trivial)
  obtain ⟨_, hpromo, hrunnable⟩ := hsettled hslot hparker fun w hw => by
    obtain rfl : 0 = w := Option.some.inj (hfirst.symm.trans hw)
    exact hdone
  exact ⟨s, hrun, hclaims, hpromo, hrunnable hrun, h5, h6⟩

/-- The parker registers first, call 0 signals and wakes it while the inbox is full: the thread is
Ready, in no inbox, every party has ended and no hart can take the thread. -/
theorem full_inbox_loses_thread : ∃ s,
    Reach (step fun _ => []) (fun _ _ => True) (Initial fun _ => 0) s ∧
      s.slot = .signaled ∧ s.parker = .done ∧ s.signals 0 = .done ∧
      s.thread.state = .ready ∧ s.thread.inbox = 0 ∧ (step (fun _ => []) s .dispatch).isNone := by
  have hstart : Reach (step fun _ => []) (fun _ _ => True) (Initial fun _ => 0) start :=
    .start start_initial
  exact hstart.exists_of_exec
    (List.replicate 4 (.park true false) ++ List.replicate 12 (.signal 0 false)) _
    (by decide +kernel)

end Orbit.Sched.Completion
