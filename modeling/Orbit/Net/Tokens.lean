import Orbit.Net.Epochs

/-!
One token in each direction. As long as a session lasts and every callback that gets a slice
consumes some of it, the kernel waits for an acknowledgement exactly while a slice is in its
ring, in the user's hand, or answered by an increment.

A callback that consumes nothing takes the slice and returns no increment. The kernel then
waits for ever, and the direction stands still.
-/

namespace Orbit.Net

open Store Transition Shared

variable {d : Direction} {u : UserPc}

variable {s s' : Shared}

/-- The runs in question have polls and calls; the session is not dropped. `recv` and `send`
of the socket do not fail when the socket has just said that it may receive and send. The
condition is that no callback consumes nothing of its slice. -/
def TokenSafe (s : Shared) : SessionAction → Prop
  | .kernel v _ => (s.kernel = .drain .rx → v.recvOk = true) ∧
      (s.kernel = .drain .tx → v.sendOk = true)
  | .give count => 0 < count
  | .disengage => False
  | _ => True

instance (s : Shared) (a : SessionAction) : Decidable (TokenSafe s a) :=
  match a with
  | .kernel v _ => inferInstanceAs (Decidable ((s.kernel = .drain .rx → v.recvOk = true) ∧
      (s.kernel = .drain .tx → v.sendOk = true)))
  | .give count => inferInstanceAs (Decidable (0 < count))
  | .disengage => .isFalse id
  | .engage => .isTrue trivial
  | .look => .isTrue trivial
  | .call _ => .isTrue trivial
  | .take => .isTrue trivial
  | .wait => .isTrue trivial
  | .reset => .isTrue trivial

/-- No token is lost. -/
structure Conserved (s : Shared) : Prop where
  good : Good s
  stays : s.user.inWindow = false
  token : ∀ d, (s.lane d).Token s.session False (s.user.hand d)

namespace Conserved

theorem of_create (bind : BindSpec) : Conserved (.create bind) :=
  ⟨.of_create bind, rfl, fun _ => .free rfl rfl rfl⟩

/-- A poll up to the first ring leaves the rings alone when no session ends. -/
theorem begin_lane (h : Conserved s) (v : SocketView) (nowUs : Nat) :
    (s.begin v nowUs).lane = s.lane ∧ (s.begin v nowUs).session = s.session ∧
      (s.begin v nowUs).user = s.user := by
  have hclosing : s.phase ≠ .closing := by
    intro hc
    have hstays := h.stays
    rw [h.good.closing hc] at hstays
    cases hstays
  unfold begin
  dsimp only
  split
  · exact ⟨rfl, rfl, rfl⟩
  split
  · split <;> exact ⟨rfl, rfl, rfl⟩
  have hm := Good.Moved.advance v nowUs { s with lastEngaged := s.engaged }
  split
  · unfold rxGate txGate
    split <;> exact ⟨hm.lane, hm.session, hm.user⟩
  · exact ⟨hm.lane, hm.session, hm.user⟩

/-- One lane and the hand of the user change; the token of that direction is where it should
be. -/
theorem token_setLane (h : ∀ d, (s.lane d).Token s.session False (s.user.hand d))
    {l : Lane} (hother : ∀ e, e ≠ d → u.hand e = s.user.hand e)
    (htoken : l.Token s.session False (u.hand d)) (e : Direction) :
    ((s.setLane d l).lane e).Token s.session False (u.hand e) := by
  by_cases he : e = d
  · subst he
    simpa [setLane] using htoken
  have hold := h e
  rw [← hother e he] at hold
  simpa [setLane, he] using hold

variable (h : Conserved s)

include h

theorem token_drain (d : Direction) {done : Shared → Shared}
    (hdone : (done s).lane = s.lane ∧ (done s).session = s.session ∧ (done s).user = s.user) :
    (s.drain d true done).user = s.user ∧ ∀ e, ((s.drain d true done).lane e).Token
      (s.drain d true done).session False ((s.drain d true done).user.hand e) := by
  rcases (h.token d).dequeue with
    hnone | ⟨hhand, hslices, hpending, count, ring, hdeq, hempty, hpos, hle⟩
  · simp only [Shared.drain, hnone]
    obtain ⟨hlane, hsession, huser⟩ := hdone
    rw [hlane, hsession, huser]
    exact ⟨rfl, h.token⟩
  have hgood : ¬ ((s.lane d).pendingAck = false ∨ count = 0 ∨ (s.lane d).stagedLen < count) := by
    rw [hpending]
    rintro (hp | hz | hlt)
    · cases hp
    · omega
    · omega
  simp only [Shared.drain, hdeq, if_neg hgood, if_true, Good.setLane_twice]
  refine ⟨rfl, token_setLane h.token (fun _ _ => rfl) ?_⟩
  change Lane.Token _ s.session False (s.user.hand d)
  rw [hhand]
  exact .free rfl hslices hempty

theorem token_offer (hpending : (s.lane d).pendingAck = false)
    (len : Nat) : (s.offer d len).user = s.user ∧ (s.offer d len).session = s.session ∧
      ∀ e, ((s.offer d len).lane e).Token s.session False (s.user.hand e) := by
  unfold offer
  split
  · exact ⟨rfl, rfl, h.token⟩
  obtain ⟨hhand, htoken⟩ := (h.token d).offer hpending len
  refine ⟨rfl, rfl, token_setLane h.token (fun _ _ => rfl) ?_⟩
  rw [hhand]
  exact htoken

theorem token_kernelStep {v : SocketView} {nowUs : Nat}
    (hsafe : TokenSafe s (.kernel v nowUs)) : (s.kernelStep v nowUs).user = s.user ∧
      ∀ e, ((s.kernelStep v nowUs).lane e).Token (s.kernelStep v nowUs).session False
        ((s.kernelStep v nowUs).user.hand e) := by
  obtain ⟨hrecv, hsend⟩ := hsafe
  unfold kernelStep
  cases hpc : s.kernel with
  | idle =>
    obtain ⟨hlane, hsession, huser⟩ := h.begin_lane v nowUs
    dsimp only
    rw [hlane, hsession, huser]
    exact ⟨rfl, h.token⟩
  | edge =>
    have hstays := h.stays
    rw [(h.good.edge hpc).1] at hstays
    cases hstays
  | drain d =>
    cases d with
    | rx =>
      dsimp only
      rw [hrecv hpc]
      exact h.token_drain .rx ⟨rfl, rfl, rfl⟩
    | tx =>
      dsimp only
      rw [hsend hpc]
      exact h.token_drain .tx ⟨rfl, rfl, rfl⟩
  | stage d =>
    cases d with
    | rx =>
      dsimp only
      split
      · exact ⟨rfl, h.token⟩
      next hp =>
      obtain ⟨huser, hsession, htoken⟩ :=
        h.token_offer (d := .rx) (by simpa using hp) v.nextRx
      refine ⟨huser, fun e => ?_⟩
      have htoken' := htoken e
      rw [← hsession, ← huser] at htoken'
      exact htoken'
    | tx =>
      dsimp only
      split
      · next hp =>
        have hp' : (s.lane .tx).pendingAck = false := by
          simp only [Bool.and_eq_true, Bool.not_eq_true'] at hp
          exact hp.2
        obtain ⟨huser, hsession, htoken⟩ := h.token_offer hp' v.nextTx
        refine ⟨huser, fun e => ?_⟩
        have htoken' := htoken e
        rw [← hsession, ← huser] at htoken'
        exact htoken'
      · exact ⟨rfl, h.token⟩

/-- The user goes on outside the rings. -/
theorem token_user (hhand : ∀ d, u.hand d = s.user.hand d)
    (d : Direction) : (s.lane d).Token s.session False (u.hand d) := by
  rw [hhand d]
  exact h.token d

theorem token_take (huser : s.user = .call d) :
    (s.take d).user.inWindow = false ∧
      ∀ e, ((s.take d).lane e).Token (s.take d).session False ((s.take d).user.hand e) := by
  have hhand : ∀ e, s.user.hand e = none := fun e => by rw [huser]; rfl
  have hback : ∀ e, (s.lane e).Token s.session False (UserPc.session.hand e) :=
    h.token_user fun e => (hhand e).symm
  unfold Shared.take
  dsimp only
  split
  · exact ⟨rfl, hback⟩
  split
  · exact ⟨rfl, hback⟩
  next slice ring hdeq =>
  refine ⟨rfl, token_setLane h.token ?_ ?_⟩
  · intro e he
    rw [hhand e]
    exact if_neg (Ne.symm he)
  have htoken := h.token d
  rw [hhand d] at htoken
  have hheld := (htoken.take hdeq).2.2
  simpa [UserPc.hand] using hheld

theorem token_give {slice : Slice}
    (huser : s.user = .holding d slice) {count : Nat} (hpos : 0 < count)
    (hle : count ≤ slice.len) : (s.give d slice count).user.inWindow = false ∧
      ∀ e, ((s.give d slice count).lane e).Token (s.give d slice count).session False
        ((s.give d slice count).user.hand e) := by
  unfold Shared.give
  rw [if_neg (Nat.pos_iff_ne_zero.mp hpos)]
  refine ⟨rfl, token_setLane h.token ?_ ?_⟩
  · intro e he
    rw [huser]
    exact (if_neg (Ne.symm he)).symm
  have htoken := h.token d
  rw [huser] at htoken
  have hheld : (s.lane d).Token s.session False (some slice) := by
    simpa [UserPc.hand] using htoken
  exact hheld.give hpos hle

theorem step {a : SessionAction} (hsafe : TokenSafe s a)
    (hstep : s.step a = some s') : Conserved s' := by
  have hclear : ActivationClear s a := by
    intro hw
    rw [h.stays] at hw
    cases hw
  suffices hrest : s'.user.inWindow = false ∧
      ∀ d, (s'.lane d).Token s'.session False (s'.user.hand d) from
    ⟨h.good.step hclear hstep, hrest.1, hrest.2⟩
  cases a with
  | kernel v nowUs =>
    cases hstep
    obtain ⟨huser, htoken⟩ := h.token_kernelStep hsafe
    exact ⟨huser ▸ h.stays, htoken⟩
  | engage =>
    simp only [Shared.step] at hstep
    split at hstep
    · next huser =>
      cases hstep
      exact ⟨rfl, h.token_user fun d => by rw [huser]; rfl⟩
    · cases hstep
  | look =>
    simp only [Shared.step] at hstep
    split at hstep
    · next huser =>
      split at hstep
      · cases hstep
        exact ⟨rfl, h.token_user fun d => by rw [huser]; rfl⟩
      · cases hstep
        exact ⟨rfl, h.token_user fun d => by rw [huser]; rfl⟩
      · cases hstep
        exact ⟨h.stays, h.token⟩
    · cases hstep
  | call d =>
    simp only [Shared.step] at hstep
    split at hstep
    · next huser =>
      cases hstep
      split
      · exact ⟨rfl, h.token_user fun d => by rw [huser]; rfl⟩
      · exact ⟨h.stays, h.token⟩
    · cases hstep
  | take =>
    simp only [Shared.step] at hstep
    split at hstep
    · next d huser =>
      cases hstep
      exact h.token_take huser
    · cases hstep
  | give count =>
    simp only [Shared.step] at hstep
    split at hstep
    · next d slice huser =>
      split at hstep
      · next hle =>
        cases hstep
        exact h.token_give huser hsafe hle
      · cases hstep
    · cases hstep
  | disengage => cases hsafe
  | wait =>
    simp only [Shared.step] at hstep
    split at hstep
    · next huser =>
      have hstays := h.stays
      rw [huser] at hstays
      cases hstays
    · cases hstep
  | reset =>
    simp only [Shared.step] at hstep
    split at hstep
    · next done huser =>
      have hstays := h.stays
      rw [huser] at hstays
      cases hstays
    · cases hstep

end Conserved

/-- Between calls the kernel waits for an acknowledgement in a direction exactly when either
one slice or one increment is in its ring, and otherwise both rings are empty. -/
theorem token_conservation {s : Shared}
    (run : Reach Shared.step TokenSafe (fun s => ∃ bind, s = .create bind) s) (d : Direction)
    (hcall : s.user.hand d = none) :
    ((s.lane d).pendingAck = true ↔ ((s.lane d).slices.len = 1 ∧ (s.lane d).increments.len = 0) ∨
      ((s.lane d).slices.len = 0 ∧ (s.lane d).increments.len = 1)) ∧
    ((s.lane d).pendingAck = false ↔
      (s.lane d).slices.len = 0 ∧ (s.lane d).increments.len = 0) := by
  have h : Conserved s := by
    apply run.invariant
    · rintro _ ⟨bind, rfl⟩
      exact .of_create bind
    · exact fun _ _ _ h hsafe hs => h.step hsafe hs
  have htoken := h.token d
  rw [hcall] at htoken
  cases htoken with
  | free hpending hslices hincs => simp [hpending, hslices.len, hincs.len]
  | staged hpending hslices hincs => simp [hpending, hslices.len two_le_ringCap, hincs.len]
  | acked hpending hslices hincs hpos hle =>
    simp [hpending, hslices.len, hincs.len two_le_ringCap]
  | lost hlossy => exact hlossy.elim

/-- Five bytes are received and three of them read. -/
def oneRead : List SessionAction :=
  [.kernel quiet 0, .engage] ++ List.replicate 5 (.kernel connected 0) ++
  [.look, .call .rx, .take, .give 3]

theorem token_conservation_read : ∃ s,
    Reach Shared.step TokenSafe (fun s => ∃ bind, s = .create bind) s ∧
      (s.lane .rx).pendingAck = true ∧ (s.lane .rx).increments.len = 1 ∧
      (((s.lane .rx).slices.len = 1 ∧ (s.lane .rx).increments.len = 0) ∨
        ((s.lane .rx).slices.len = 0 ∧ (s.lane .rx).increments.len = 1)) := by
  have hstart : Reach Shared.step TokenSafe (fun s => ∃ bind, s = .create bind)
      (.create (.serverRetain 80)) := .start ⟨_, rfl⟩
  obtain ⟨s, run, hpending, hlen, huser⟩ := hstart.exists_of_exec oneRead
    (fun s : Shared => (s.lane .rx).pendingAck = true ∧ (s.lane .rx).increments.len = 1 ∧
      s.user.hand .rx = none) (by decide +kernel)
  exact ⟨s, run, hpending, hlen, (token_conservation run .rx huser).1.mp hpending⟩

/-- A read into an empty buffer consumes nothing of its slice. -/
def emptyRead : List SessionAction :=
  [.kernel quiet 0, .engage] ++ List.replicate 5 (.kernel connected 0) ++
  [.look, .call .rx, .take, .give 0]

/-- The kernel waits for an acknowledgement that is not in circulation. -/
theorem empty_read_loses_token : ∃ s,
    Reach Shared.step (fun _ _ => True) (fun s => ∃ bind, s = .create bind) s ∧
      s.user = .session ∧ (s.lane .rx).pendingAck = true ∧ (s.lane .rx).slices.len = 0 ∧
      (s.lane .rx).increments.len = 0 := by
  have hstart : Reach Shared.step (fun _ _ => True) (fun s => ∃ bind, s = .create bind)
      (.create (.serverRetain 80)) := .start ⟨_, rfl⟩
  exact hstart.exists_of_exec emptyRead
    (fun s : Shared => s.user = .session ∧ (s.lane .rx).pendingAck = true ∧
      (s.lane .rx).slices.len = 0 ∧ (s.lane .rx).increments.len = 0) (by decide +kernel)

end Orbit.Net
