import Orbit.Transition.Run
import Mathlib.Data.Nat.Bitwise

/-!
The transmit ring of the E1000 driver. The driver hands out the descriptor at the tail when its
done bit is set; the device sends the frames from the head up to the tail. That the ring is full
shows in the done bit only: a tail that meets the head reads as an empty ring.
-/

namespace Orbit.Net.TxRing

open Transition Function

/-- `TX_RING_LEN` -/
def txRingLen : Nat := 256

/-- `SW_MTU`, the size of a buffer -/
def swMtu : Nat := 2048

/-- `TxDesc` with its buffer; `done` is the bit of `status` that is read. -/
structure TxDesc where
  length : Nat
  done : Bool
  buf : List UInt8

/-- The ring, the two registers and the descriptor that is lent to a token; `accepted` and
`sent` are the frames that the driver has taken and that the device has sent. -/
structure State where
  ring : Nat → TxDesc
  tdh : Nat
  tdt : Nat
  token : Option Nat
  accepted : List (List UInt8)
  sent : List (List UInt8)

inductive Action where
  | getNextTx
  | consume (frame : List UInt8)
  | dropToken
  | transmit

/-- A token borrows the driver, so there is one at a time. `get_next_rxtx` lends the descriptor
at the tail under the same test as `get_next_tx`. -/
def step (s : State) : Action → Option State
  | .getNextTx =>
    if s.token.isSome then none
    else if (s.ring s.tdt).done then some { s with token := some s.tdt }
    else some s
  | .consume frame =>
    match s.token with
    | none => none
    | some i =>
      -- a longer frame does not fit the buffer
      if swMtu < frame.length then none
      else some { s with
        ring := update s.ring i
          ⟨frame.length % 2 ^ 16, false, frame ++ (s.ring i).buf.drop frame.length⟩
        tdt := (i + 1) % txRingLen
        token := none
        accepted := s.accepted ++ [frame] }
  | .dropToken => if s.token.isSome then some { s with token := none } else none
  | .transmit =>
    if s.tdh = s.tdt then none
    else some { s with
      ring := update s.ring s.tdh { s.ring s.tdh with done := true }
      tdh := (s.tdh + 1) % txRingLen
      sent := s.sent ++ [(s.ring s.tdh).buf.take (s.ring s.tdh).length] }

/-- The driver is set up: every descriptor is done. -/
def Init (s : State) : Prop :=
  (∀ i, (s.ring i).done = true) ∧ s.tdh = 0 ∧ s.tdt = 0 ∧ s.token = none ∧
    s.accepted = [] ∧ s.sent = []

/-- A frame is handed over while a second descriptor is free. -/
def Roomy (s : State) : Action → Prop
  | .consume _ => s.accepted.length + 1 < s.sent.length + txRingLen
  | _ => True

/-- A descriptor that is done, or that holds an unsent frame. -/
def TxDesc.Shows (d : TxDesc) : Option (List UInt8) → Prop
  | none => d.done = true
  | some frame => d.done = false ∧ d.buf.take d.length = frame

/-- The unsent frames lie in order from the head to the tail, and all else is done. -/
structure Orderly (s : State) (waiting : List (List UInt8)) : Prop where
  head : s.tdh < txRingLen
  tail : s.tdt = (s.tdh + waiting.length) % txRingLen
  room : waiting.length < txRingLen
  accepted : s.accepted = s.sent ++ waiting
  shows : ∀ k < txRingLen, (s.ring ((s.tdh + k) % txRingLen)).Shows waiting[k]?
  token : ∀ i, s.token = some i → i = s.tdt

namespace Orderly

variable {s s' : State} {waiting : List (List UInt8)}

variable (h : Orderly s waiting)

include h

theorem tail_done : (s.ring s.tdt).done = true := by
  have hshows := h.shows waiting.length h.room
  rwa [List.getElem?_eq_none (Nat.le_refl _), ← h.tail] at hshows

/-- The device sees an empty ring exactly when there is nothing to send. -/
theorem idle_iff : s.tdh = s.tdt ↔ waiting = [] := by
  have hhead := h.head
  have hroom := h.room
  rw [h.tail, ← List.length_eq_zero_iff]
  simp only [txRingLen] at *
  omega

theorem consume {frame : List UInt8}
    (hstep : step s (.consume frame) = some s') :
    s.token = some s.tdt ∧ s'.tdh = s.tdh ∧ s'.tdt = (s.tdt + 1) % txRingLen ∧
      (waiting.length + 1 < txRingLen → Orderly s' (waiting ++ [frame])) := by
  simp only [step] at hstep
  split at hstep
  · cases hstep
  next i htoken =>
  split at hstep
  · cases hstep
  next hlen =>
  cases hstep
  obtain rfl := h.token i htoken
  refine ⟨htoken, rfl, rfl, fun hroom =>
    ⟨h.head, ?_, ?_, ?_, fun k hk => ?_, fun _ hi => by cases hi⟩⟩
  · rw [List.length_append, h.tail]
    exact Nat.mod_add_mod ..
  · rwa [List.length_append]
  · show s.accepted ++ [frame] = _
    rw [h.accepted, List.append_assoc]
  have hshows := h.shows k hk
  dsimp only
  by_cases hat : k = waiting.length
  · rw [hat, ← h.tail, update_self, List.getElem?_concat_length]
    refine ⟨rfl, ?_⟩
    have hmod : frame.length % 2 ^ 16 = frame.length := by
      simp only [swMtu] at hlen
      omega
    dsimp only
    rw [hmod, List.take_left]
  have hne : (s.tdh + k) % txRingLen ≠ s.tdt := by
    rw [h.tail]
    simp only [txRingLen] at *
    omega
  rw [update_of_ne hne]
  rcases Nat.lt_or_gt_of_ne hat with hlt | hgt
  · rwa [List.getElem?_append_left hlt]
  · rw [List.getElem?_eq_none (by omega)] at hshows
    rwa [List.getElem?_eq_none (by rw [List.length_append]; exact hgt)]

theorem transmit (hstep : step s .transmit = some s') :
    ∃ frame rest, waiting = frame :: rest ∧ s'.sent = s.sent ++ [frame] ∧ Orderly s' rest := by
  simp only [step] at hstep
  split at hstep
  · cases hstep
  next hne =>
  cases hstep
  have hhead := h.head
  have hroom := h.room
  have hzero : s.tdh % txRingLen = s.tdh := Nat.mod_eq_of_lt hhead
  cases waiting with
  | nil => exact absurd (h.idle_iff.mpr rfl) hne
  | cons frame rest =>
    have hframe : (s.ring s.tdh).buf.take (s.ring s.tdh).length = frame := by
      have hshows := h.shows 0 (by decide)
      rw [Nat.add_zero, hzero] at hshows
      exact hshows.2
    rw [List.length_cons] at hroom
    refine ⟨frame, rest, rfl,
      by rw [hframe], Nat.mod_lt _ (by decide), ?_, Nat.lt_of_succ_lt hroom, ?_, ?_,
      h.token⟩
    · show s.tdt = _
      rw [h.tail, List.length_cons, Nat.mod_add_mod, Nat.add_assoc, Nat.add_comm 1]
    · show s.accepted = _
      rw [h.accepted, hframe, List.append_assoc]
      rfl
    intro k hk
    dsimp only
    rw [Nat.mod_add_mod, Nat.add_assoc, Nat.add_comm 1]
    by_cases hlast : k + 1 = txRingLen
    · rw [hlast, Nat.add_mod_right, hzero, update_self, List.getElem?_eq_none (by omega)]
      rfl
    rw [update_of_ne]
    · exact h.shows (k + 1) (by omega)
    · simp only [txRingLen] at *
      omega

theorem step {a : Action} (hroomy : Roomy s a)
    (hstep : step s a = some s') : ∃ waiting', Orderly s' waiting' := by
  cases a with
  | getNextTx =>
    simp only [TxRing.step, h.tail_done, if_true] at hstep
    split at hstep
    · cases hstep
    cases hstep
    exact ⟨waiting, h.head, h.tail, h.room, h.accepted, h.shows, fun i hi =>
      (Option.some.inj hi).symm⟩
  | consume frame =>
    have hlen := congrArg List.length h.accepted
    rw [List.length_append] at hlen
    have hroom : s.accepted.length + 1 < s.sent.length + txRingLen := hroomy
    exact ⟨_, (h.consume hstep).2.2.2 (by omega)⟩
  | dropToken =>
    simp only [TxRing.step] at hstep
    split at hstep
    · cases hstep
      exact ⟨waiting, h.head, h.tail, h.room, h.accepted, h.shows, nofun⟩
    cases hstep
  | transmit =>
    obtain ⟨-, rest, -, -, h'⟩ := h.transmit hstep
    exact ⟨rest, h'⟩

end Orderly

theorem orderly_of_reach {s : State} (h : Reach step Roomy Init s) :
    ∃ waiting, Orderly s waiting := by
  refine h.invariant (I := fun s => ∃ waiting, Orderly s waiting) ?_ ?_
  · rintro s ⟨hdone, hhead, htail, htoken, haccepted, hsent⟩
    refine ⟨[], by rw [hhead]; decide, by rw [htail, hhead]; rfl, by decide,
      by rw [haccepted, hsent]; rfl,
      fun k _ => hdone _, fun i hi => ?_⟩
    rw [htoken] at hi
    cases hi
  · rintro s a s' ⟨waiting, h⟩ hroomy hstep
    exact h.step hroomy hstep

/-- While frames are handed over with a second descriptor free, a token never lends a descriptor
the device has yet to send, the frames are sent in order and each once, and the device can go on
until all are sent. A hand-over keeps the tail off the head exactly when a second one is free. -/
theorem tx_ring_in_order {s : State} (h : Reach step Roomy Init s) :
    (∀ i, s.token = some i → (s.ring i).done = true) ∧ s.sent <+: s.accepted ∧
    (s.sent ≠ s.accepted → s.tdh ≠ s.tdt ∧ ∃ frame s', step s .transmit = some s' ∧
      s'.sent = s.sent ++ [frame] ∧ s'.sent <+: s.accepted) ∧
    ∀ frame s', step s (.consume frame) = some s' →
      (s'.tdt ≠ s'.tdh ↔ Roomy s (.consume frame)) := by
  obtain ⟨waiting, horder⟩ := orderly_of_reach h
  refine ⟨fun i hi => horder.token i hi ▸ horder.tail_done, ⟨waiting, horder.accepted.symm⟩, ?_, ?_⟩
  · intro hne
    have hbusy : s.tdh ≠ s.tdt := fun heq => by
      rw [horder.accepted, horder.idle_iff.mp heq, List.append_nil] at hne
      exact hne rfl
    obtain ⟨s', hs'⟩ : ∃ s', step s .transmit = some s' := ⟨_, if_neg hbusy⟩
    obtain ⟨frame, rest, hwaiting, hsent, -⟩ := horder.transmit hs'
    refine ⟨hbusy, frame, s', hs', hsent, rest, ?_⟩
    rw [hsent, horder.accepted, hwaiting, List.append_assoc]
    rfl
  intro frame s' hstep
  obtain ⟨-, hhead', htail', -⟩ := horder.consume hstep
  have hlen := congrArg List.length horder.accepted
  have hhead := horder.head
  have hroom := horder.room
  rw [List.length_append] at hlen
  rw [hhead', htail', horder.tail, Roomy]
  simp only [txRingLen] at *
  omega

/-- A driver that has just been set up. -/
def fresh : State := ⟨fun _ => ⟨0, true, []⟩, 0, 0, none, [], []⟩

theorem tx_ring_in_order_one_frame : ∃ s s', Reach step Roomy Init s ∧ s.sent ≠ s.accepted ∧
    step s .transmit = some s' ∧ s'.sent <+: s.accepted := by
  obtain ⟨s, hs, hne⟩ : ∃ s, Reach step Roomy Init s ∧ s.sent ≠ s.accepted :=
    ⟨_, .next (a := .consume [0]) (.next (a := .getNextTx) (.start (s := fresh)
      ⟨fun _ => rfl, rfl, rfl, rfl, rfl, rfl⟩) trivial rfl)
        (show 0 + 1 < 0 + 256 by decide) rfl, by decide⟩
  obtain ⟨-, -, hgo, -⟩ := tx_ring_in_order hs
  obtain ⟨-, -, s', hs', -, hmore⟩ := hgo hne
  exact ⟨s, s', hs, hne, hs', hmore⟩

/-- Frames that are taken while the device is idle. -/
theorem fills {n : Nat} (hn : n ≤ txRingLen) :
    ∃ s, Reach step (fun _ _ => True) Init s ∧ s.tdh = 0 ∧
    s.tdt = n % txRingLen ∧ s.token = none ∧ s.accepted.length = n ∧ s.sent = [] ∧
    ∀ i, (s.ring i).done = false ↔ i < n := by
  induction n with
  | zero =>
    exact ⟨fresh, .start ⟨fun _ => rfl, rfl, rfl, rfl, rfl, rfl⟩, rfl, rfl, rfl, rfl, rfl,
      fun i => iff_of_false nofun (Nat.not_lt_zero i)⟩
  | succ n ih =>
    obtain ⟨s, hs, hhead, htail, htoken, haccepted, hsent, hdone⟩ := ih (Nat.le_of_succ_le hn)
    rw [Nat.mod_eq_of_lt hn] at htail
    have hfree : (s.ring s.tdt).done = true :=
      eq_true_of_ne_false fun hbusy => absurd ((hdone _).mp hbusy) (by omega)
    have hget : step s .getNextTx = some { s with token := some s.tdt } := by
      simp only [step, htoken, hfree]
      rfl
    refine ⟨_, .next (a := .consume []) (hs.next trivial hget) trivial rfl, hhead, ?_, rfl,
      ?_, hsent, ?_⟩
    · show (s.tdt + 1) % txRingLen = _
      rw [htail]
    · show (s.accepted ++ [[]]).length = _
      rw [List.length_append, haccepted]
      rfl
    intro i
    show (update s.ring s.tdt _ i).done = false ↔ _
    by_cases hi : i = n
    · rw [hi, ← htail, update_self]
      exact iff_of_true rfl (Nat.lt_succ_self _)
    rw [update_of_ne (htail ▸ hi), hdone]
    omega

/-- After a full round of frames the tail is on the head: none is sent, and the driver finds no
descriptor that is done. -/
theorem full_round_is_lost : ∃ s, Reach step (fun _ _ => True) Init s ∧ s.accepted.length = 256 ∧
    s.sent = [] ∧ step s .transmit = none ∧ s.tdh = s.tdt ∧
      ∀ i < txRingLen, (s.ring i).done = false := by
  obtain ⟨s, hs, hhead, htail, -, haccepted, hsent, hdone⟩ := fills (Nat.le_refl txRingLen)
  have hmeet : s.tdh = s.tdt := by rw [hhead, htail, Nat.mod_self]
  exact ⟨s, hs, haccepted, hsent, if_pos hmeet, hmeet, fun i hi => (hdone i).mpr hi⟩

end Orbit.Net.TxRing
