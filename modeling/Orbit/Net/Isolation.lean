import Orbit.Net.Sockets

/-!
A socket goes because its own channel was revoked or its own process ended, and goes once,
as long as no new socket gets a handle that an old name still stands for. The set gives
out the handle of a removed socket again, and the name a process has for it outlives the
socket: the machine as it is removes the socket of another process.
-/

namespace Orbit.Net

open Transition (Reach)

variable {rest : List Nat} {c k owner pid : Nat} {s : State}

namespace State

/-- The handles the manager still knows of processes that are leaving. -/
def leaving (s : State) : List Nat :=
  match s.manager with
  | .unlisting _ l => l
  | _ => []

/-- Some name for a socket still stands for this handle. -/
def Stale (s : State) (h : Nat) : Prop :=
  (∃ pid, h ∈ s.named pid) ∨ h ∈ s.leaving ∨ h ∈ s.deletions ∨ h ∈ s.associations.map Prod.snd

/-- A new socket does not get a handle that a name still stands for. -/
def Unnamed (s : State) : Action → Prop
  | .serve _ h => ¬ s.Stale h
  | _ => True

/-- Channels and processes as the run has made them. -/
structure Owned (s : State) : Prop where
  born : ∀ pid b, s.alive pid = some b → b < s.births ∧ s.ended b = false
  home : ∀ i j b, s.alive i = some b → s.alive j = some b → i = j
  ended : ∀ b, s.ended b = true → b < s.births
  owner : ∀ c, c < s.count →
    s.alive (s.channel c).pid = some (s.channel c).owner ∨ s.ended (s.channel c).owner = true

/-- A connection belongs to one channel, which is in no request and has not been removed. -/
structure Connected (s : State) : Prop where
  socket : ∀ h c, s.conns h = some c → s.sockets h = true
  channel : ∀ h c, s.conns h = some c → c < s.count
  unique : ∀ h h' c, s.conns h = some c → s.conns h' = some c → h = h'
  idle : ∀ h c hart, s.conns h = some c → c ∉ s.reqs hart
  reqs : ∀ hart c, c ∈ s.reqs hart → c < s.count
  once : ∀ hart, (s.reqs hart).Nodup
  apart : ∀ hart hart' c, c ∈ s.reqs hart → c ∈ s.reqs hart' → hart = hart'

/-- What has been removed was due, and is not there any more. -/
structure Removed (s : State) : Prop where
  sound : s.fault = false
  due : ∀ r ∈ s.removals, r.due = true
  nodup : (s.removals.map Removal.channel).Nodup
  past : ∀ r ∈ s.removals, r.channel < s.count
  conns : ∀ r ∈ s.removals, ∀ h, s.conns h ≠ some r.channel
  reqs : ∀ r ∈ s.removals, ∀ hart, r.channel ∉ s.reqs hart

/-- A name stands for the socket it was given for, if for any. -/
structure Names (s : State) : Prop where
  named : ∀ pid h c, h ∈ s.named pid → s.conns h = some c →
    s.alive pid = some (s.channel c).owner ∨ s.ended (s.channel c).owner = true
  leaving : ∀ h c, h ∈ s.leaving → s.conns h = some c → s.ended (s.channel c).owner = true
  deletions : ∀ h c, h ∈ s.deletions → s.conns h = some c → s.ended (s.channel c).owner = true
  associations : ∀ pid h c, (pid, h) ∈ s.associations → s.conns h = some c →
    (s.channel c).pid = pid

structure Inv (s : State) : Prop where
  owned : s.Owned
  connected : s.Connected
  removed : s.Removed
  names : s.Names

theorem boot_inv : boot.Inv := by
  constructor
  · exact ⟨nofun, nofun, nofun, nofun⟩
  · refine ⟨nofun, nofun, nofun, nofun, nofun, ?_, nofun⟩
    intro hart
    exact List.nodup_nil
  · exact ⟨rfl, nofun, List.nodup_nil, nofun, nofun, nofun⟩
  · exact ⟨nofun, nofun, nofun, nofun⟩

/-- One connection less, with its socket. -/
theorem Inv.dropConn (h : s.Inv)
    (hdue : ∀ c, s.conns k = some c → s.due c = true) : (s.dropConn k).Inv := by
  unfold State.dropConn
  split
  · exact h
  next c hc =>
  have hsocket := h.connected.socket k c hc
  have hkeep : ∀ {i d}, (if i = k then none else s.conns i) = some d → s.conns i = some d := by
    intro i d hd
    split at hd
    · cases hd
    · exact hd
  simp only [State.removeSocket, hsocket, if_true]
  constructor
  · exact { h.owned with }
  · constructor
    · intro i d hd
      have hd' := hkeep hd
      have hne : i ≠ k := by
        rintro rfl
        simp at hd
      show (if i = k then false else s.sockets i) = true
      rw [if_neg hne]
      exact h.connected.socket i d hd'
    · intro i d hd
      exact h.connected.channel i d (hkeep hd)
    · intro i j d hi hj
      exact h.connected.unique i j d (hkeep hi) (hkeep hj)
    · intro i d hart hd
      exact h.connected.idle i d hart (hkeep hd)
    · exact h.connected.reqs
    · exact h.connected.once
    · exact h.connected.apart
  · constructor
    · exact h.removed.sound
    · intro r hr
      rcases List.mem_append.mp hr with hold | hnew
      · exact h.removed.due r hold
      · rw [List.mem_singleton.mp hnew]
        exact hdue c hc
    · rw [List.map_append]
      apply List.nodup_append.mpr
      refine ⟨h.removed.nodup, List.nodup_singleton _, ?_⟩
      rintro d hd e he rfl
      obtain ⟨r, hr, rfl⟩ := List.mem_map.mp hd
      have heq : r.channel = c := List.mem_singleton.mp he
      exact h.removed.conns r hr k (heq ▸ hc)
    · intro r hr
      rcases List.mem_append.mp hr with hold | hnew
      · exact h.removed.past r hold
      · rw [List.mem_singleton.mp hnew]
        exact h.connected.channel k c hc
    · intro r hr i hi
      have hi' := hkeep hi
      rcases List.mem_append.mp hr with hold | hnew
      · exact h.removed.conns r hold i hi'
      rw [List.mem_singleton.mp hnew] at hi hi'
      have heq := h.connected.unique i k c hi' hc
      subst heq
      simp at hi
    intro r hr hart
    rcases List.mem_append.mp hr with hold | hnew
    · exact h.removed.reqs r hold hart
    · rw [List.mem_singleton.mp hnew]
      exact h.connected.idle k c hart hc
  · constructor
    · intro pid i d hi hd
      exact h.names.named pid i d hi (hkeep hd)
    · intro i d hi hd
      exact h.names.leaving i d hi (hkeep hd)
    · intro i d hi hd
      exact h.names.deletions i d hi (hkeep hd)
    · intro pid i d hi hd
      exact h.names.associations pid i d hi (hkeep hd)

/-- Dropping a connection leaves the others and all channels alone. -/
theorem dropConn_revoked (s : State) {k i : Nat} (hne : i ≠ k) :
    (s.dropConn k).revokedConn i = s.revokedConn i := by
  unfold State.dropConn
  split
  · rfl
  next c hc =>
  unfold State.removeSocket
  split
  · simp only [revokedConn, if_neg hne]
  · simp only [revokedConn, if_neg hne]

theorem revokedConn_due (h : s.revokedConn k = true) (hc : s.conns k = some c) :
    s.due c = true := by
  simp only [revokedConn, hc] at h
  simp only [due, h, Bool.true_or]

/-- A prune drops one revoked connection after the other. -/
theorem Inv.prune {handles : List Nat} (h : s.Inv) (hnodup : handles.Nodup)
    (hrevoked : ∀ k ∈ handles, s.revokedConn k = true) : (handles.foldl State.dropConn s).Inv := by
  induction handles generalizing s with
  | nil => exact h
  | cons k rest ih =>
    obtain ⟨hk, hrest⟩ := List.nodup_cons.mp hnodup
    apply ih
    · apply h.dropConn
      intro c hc
      exact revokedConn_due (hrevoked k (.head _)) hc
    · exact hrest
    intro i hi
    have hne : i ≠ k := by
      rintro rfl
      exact hk hi
    rw [dropConn_revoked s hne]
    exact hrevoked i (.tail _ hi)

/-- The names may change to any that are in order: the rest does not look at them. -/
theorem Inv.rename (h : s.Inv) {named : Nat → List Nat}
    {associations : List (Nat × Nat)} {deletions orphaned : List Nat} {phase : Phase}
    {manager : Manager} 
    (hnames : Names { s with named, associations, deletions, orphaned, phase, manager }) :
    Inv { s with named, associations, deletions, orphaned, phase, manager } := by
  constructor
  · exact { h.owned with }
  · have hc := h.connected
    exact { hc with }
  · have hr := h.removed
    exact { hr with }
  · exact hnames

theorem Inv.setPhase (h : s.Inv) (phase : Phase) : Inv { s with phase } :=
  h.rename { h.names with }

/-- A process that starts: its pid had none, so what was under it has ended. -/
theorem Inv.spawn (h : s.Inv) (hpid : s.alive pid = none) :
    Inv { s with
      births := s.births + 1
      alive := fun i => if i = pid then some s.births else s.alive i
      named := fun i => if i = pid then [] else s.named i } := by
  have hfresh : s.ended s.births = false := by
    cases hended : s.ended s.births with
    | false => rfl
    | true => exact absurd (h.owned.ended _ hended) (Nat.lt_irrefl _)
  constructor
  · constructor
    · intro i b hb
      simp only at hb
      split at hb
      · cases hb
        exact ⟨Nat.lt_succ_self _, hfresh⟩
      · obtain ⟨hlt, hnot⟩ := h.owned.born i b hb
        exact ⟨Nat.lt_succ_of_lt hlt, hnot⟩
    · intro i j b hi hj
      simp only at hi hj
      split at hi
      · next heq =>
        cases hi
        split at hj
        · next heq' => rw [heq, heq']
        · exact absurd (h.owned.born j _ hj).1 (Nat.lt_irrefl _)
      split at hj
      · cases hj
        exact absurd (h.owned.born i _ hi).1 (Nat.lt_irrefl _)
      · exact h.owned.home i j b hi hj
    · intro b hb
      exact Nat.lt_succ_of_lt (h.owned.ended b hb)
    intro c hc
    rcases h.owned.owner c hc with halive | hended
    · left
      have hne : (s.channel c).pid ≠ pid := by
        intro heq
        rw [heq, hpid] at halive
        cases halive
      simp only [if_neg hne]
      exact halive
    · exact .inr hended
  · have hc := h.connected
    exact { hc with }
  · have hr := h.removed
    exact { hr with }
  · refine { h.names with named := ?_ }
    intro i k c hk hc
    simp only at hk
    split at hk
    · cases hk
    next hne =>
    simp only [if_neg hne]
    exact h.names.named i k c hk hc

/-- A process that ends: its own channels are those that end with it. -/
theorem Inv.exit (h : s.Inv) (hpid : s.alive pid = some owner) :
    Inv { s with
      alive := fun i => if i = pid then none else s.alive i
      ended := fun i => if i = owner then true else s.ended i
      named := fun i => if i = pid then [] else s.named i
      manager := .unlisting owner (s.named pid) } := by
  have hended : ∀ b, s.ended b = true → (if b = owner then true else s.ended b) = true := by
    intro b hb
    split
    · rfl
    · exact hb
  -- a process keeps its birth, unless it is the one that ends
  have halive : ∀ i b, s.alive i = some b → (if i = pid then none else s.alive i) = some b ∨
        (if b = owner then true else s.ended b) = true := by
    intro i b hb
    rcases Classical.em (i = pid) with heq | hne
    · right
      rw [heq, hpid] at hb
      cases hb
      rw [if_pos rfl]
    left
    rw [if_neg hne]
    exact hb
  constructor
  · constructor
    · intro i b hb
      simp only at hb ⊢
      split at hb
      · cases hb
      next hne =>
      obtain ⟨hlt, hnot⟩ := h.owned.born i b hb
      refine ⟨hlt, ?_⟩
      have hbirth : b ≠ owner := by
        intro heq
        exact hne (h.owned.home i pid b hb (heq ▸ hpid))
      rw [if_neg hbirth]
      exact hnot
    · intro i j b hi hj
      simp only at hi hj
      split at hi
      · cases hi
      split at hj
      · cases hj
      · exact h.owned.home i j b hi hj
    · intro b hb
      simp only at hb
      split at hb
      · next heq =>
        rw [heq]
        exact (h.owned.born pid owner hpid).1
      · exact h.owned.ended b hb
    intro c hc
    rcases h.owned.owner c hc with hal | hend
    · exact halive _ _ hal
    · exact .inr (hended _ hend)
  · have hc := h.connected
    exact { hc with }
  · have hr := h.removed
    exact { hr with }
  · constructor
    · intro i k c hk hc
      simp only at hk
      split at hk
      · cases hk
      next hne =>
      rcases h.names.named i k c hk hc with hal | hend
      · exact halive i _ hal
      · exact .inr (hended _ hend)
    · intro k c hk hc
      -- the names of the process that ends: for its own sockets, or for ones ended before
      rcases h.names.named pid k c hk hc with hal | hend
      · rw [hpid] at hal
        cases hal
        exact if_pos rfl
      · exact hended _ hend
    · intro k c hk hc
      exact hended _ (h.names.deletions k c hk hc)
    · exact h.names.associations

/-- A channel that is revoked keeps its owner. -/
theorem Inv.revokeChannel (h : s.Inv) (c : Nat) : (s.revokeChannel c).Inv := by
  have howner : ∀ i, ((s.revokeChannel c).channel i).owner = (s.channel i).owner := by
    intro i
    simp only [State.revokeChannel, setChannel]
    split
    · next heq => rw [heq]
    · rfl
  have hpid : ∀ i, ((s.revokeChannel c).channel i).pid = (s.channel i).pid := by
    intro i
    simp only [State.revokeChannel, setChannel]
    split
    · next heq => rw [heq]
    · rfl
  constructor
  · refine { h.owned with owner := ?_ }
    intro i hi
    rw [howner, hpid]
    exact h.owned.owner i hi
  · have hc := h.connected
    exact { hc with }
  · have hr := h.removed
    exact { hr with }
  constructor
  · intro i k d hk hd
    rw [howner]
    exact h.names.named i k d hk hd
  · intro k d hk hd
    rw [howner]
    exact h.names.leaving k d hk hd
  · intro k d hk hd
    rw [howner]
    exact h.names.deletions k d hk hd
  intro i k d hk hd
  rw [hpid]
  exact h.names.associations i k d hk hd

/-- A new channel, with or without a place for its request. -/
theorem Inv.create (h : s.Inv) (hpid : s.alive pid = some owner)
    (tcp : Bool) {reqs : Nat → List Nat} (hreqs : reqs = s.reqs ∨
      ∃ hart, reqs = fun i => if i = hart then s.reqs hart ++ [s.count] else s.reqs i) :
    Inv { s with
      count := s.count + 1
      reqs
      channel := fun i => if i = s.count then ⟨pid, owner, tcp, false⟩ else s.channel i } := by
  have hold : ∀ {i}, i < s.count →
      (if i = s.count then (⟨pid, owner, tcp, false⟩ : Channel) else s.channel i) =
        s.channel i := by
    intro i hi
    rw [if_neg (Nat.ne_of_lt hi)]
  have hmem : ∀ {i d}, d ∈ reqs i → d ∈ s.reqs i ∨ d = s.count := by
    intro i d hd
    rcases hreqs with rfl | ⟨hart, rfl⟩
    · exact .inl hd
    simp only at hd
    split at hd
    · next heq =>
      rcases List.mem_append.mp hd with hin | hnew
      · exact .inl (heq ▸ hin)
      · exact .inr (List.mem_singleton.mp hnew)
    · exact .inl hd
  have hfresh : ∀ i, s.count ∉ s.reqs i := by
    intro i hin
    exact Nat.lt_irrefl _ (h.connected.reqs i _ hin)
  constructor
  · refine { h.owned with owner := ?_ }
    intro c hc
    have hc' : c < s.count + 1 := hc
    rcases Nat.lt_succ_iff_lt_or_eq.mp hc' with hlt | rfl
    · simp only [hold hlt]
      exact h.owned.owner c hlt
    · simp only [if_true]
      exact .inl hpid
  · constructor
    · exact h.connected.socket
    · intro k c hc
      exact Nat.lt_succ_of_lt (h.connected.channel k c hc)
    · exact h.connected.unique
    · intro k c hart hc hin
      rcases hmem hin with hin | rfl
      · exact h.connected.idle k c hart hc hin
      · exact Nat.lt_irrefl _ (h.connected.channel k _ hc)
    · intro hart c hc
      rcases hmem hc with hin | rfl
      · exact Nat.lt_succ_of_lt (h.connected.reqs hart c hin)
      · exact Nat.lt_succ_self _
    · intro i
      rcases hreqs with rfl | ⟨hart, rfl⟩
      · exact h.connected.once i
      simp only
      split
      · apply List.nodup_append.mpr
        refine ⟨h.connected.once hart, List.nodup_singleton _, ?_⟩
        rintro d hd e he rfl
        rw [List.mem_singleton.mp he] at hd
        exact hfresh hart hd
      · exact h.connected.once i
    intro i j c hi hj
    rcases hreqs with rfl | ⟨hart, rfl⟩
    · exact h.connected.apart i j c hi hj
    rcases Classical.em (c = s.count) with rfl | hne
    · -- the new channel is in one queue only
      have hplace : ∀ {n}, s.count ∈ (if n = hart then s.reqs hart ++ [s.count] else s.reqs n) →
          n = hart := by
        intro n hn
        split at hn
        · assumption
        · exact absurd hn (hfresh n)
      rw [hplace hi, hplace hj]
    have hback : ∀ {n}, c ∈ (if n = hart then s.reqs hart ++ [s.count] else s.reqs n) →
        c ∈ s.reqs n := by
      intro n hn
      split at hn
      · next heq =>
        rcases List.mem_append.mp hn with hin | hnew
        · exact heq ▸ hin
        · exact absurd (List.mem_singleton.mp hnew) hne
      · exact hn
    exact h.connected.apart i j c (hback hi) (hback hj)
  · have hr := h.removed
    refine { hr with past := ?_, reqs := ?_ }
    · intro r hin
      exact Nat.lt_succ_of_lt (hr.past r hin)
    intro r hin hart hc
    rcases hmem hc with hold' | heq
    · exact hr.reqs r hin hart hold'
    · have hlt := hr.past r hin
      omega
  · constructor
    · intro i k c hk hc
      simp only [hold (h.connected.channel k c hc)]
      exact h.names.named i k c hk hc
    · intro k c hk hc
      simp only [hold (h.connected.channel k c hc)]
      exact h.names.leaving k c hk hc
    · intro k c hk hc
      simp only [hold (h.connected.channel k c hc)]
      exact h.names.deletions k c hk hc
    intro i k c hk hc
    simp only [hold (h.connected.channel k c hc)]
    exact h.names.associations i k c hk hc

/-- A leaving name goes to the deletion queue, or is kept aside. -/
theorem Inv.unlist (h : s.Inv) (hmanager : s.manager = .unlisting owner (k :: rest)) :
    Inv { s.deleteOrOrphan k with manager := .unlisting owner rest } := by
  have hleaving : ∀ i c, i ∈ k :: rest → s.conns i = some c →
      s.ended (s.channel c).owner = true := by
    intro i c hi hc
    apply h.names.leaving i c _ hc
    rw [leaving, hmanager]
    exact hi
  have hrest : ∀ i c, i ∈ rest → s.conns i = some c → s.ended (s.channel c).owner = true := by
    intro i c hi hc
    exact hleaving i c (.tail _ hi) hc
  unfold State.deleteOrOrphan
  split
  · apply h.rename
    refine ⟨h.names.named, hrest, ?_, h.names.associations⟩
    intro i c hi hc
    rcases List.mem_append.mp hi with hold | hnew
    · exact h.names.deletions i c hold hc
    · rw [List.mem_singleton.mp hnew] at hc
      exact hleaving k c (.head _) hc
  · exact h.rename { h.names with leaving := hrest }

/-- Without names to unlist the manager may be anywhere. -/
theorem Inv.setManager (h : s.Inv) {manager : Manager}
    (hnone : State.leaving { s with manager } = []) :
    Inv { s with manager } := by
  apply h.rename
  refine { h.names with leaving := ?_ }
  intro i c hi
  have hi' : i ∈ State.leaving { s with manager } := hi
  rw [hnone] at hi'
  cases hi'

/-- An association that arrives: a name of the process, or a deletion if it has ended. -/
theorem Inv.checkNet (h : s.Inv) {rest : List (Nat × Nat)}
    (hassoc : s.associations = (pid, k) :: rest) :
    Inv (if (s.alive pid).isSome then State.associate { s with associations := rest } pid k
      else State.enqueueDeletion { s with associations := rest } k) := by
  have hrest : ∀ i j c, (i, j) ∈ rest → s.conns j = some c → (s.channel c).pid = i := by
    intro i j c hin hc
    apply h.names.associations i j c _ hc
    rw [hassoc]
    exact .tail _ hin
  have howner : ∀ c, s.conns k = some c →
      s.alive pid = some (s.channel c).owner ∨ s.ended (s.channel c).owner = true := by
    intro c hc
    have hpid : (s.channel c).pid = pid := by
      apply h.names.associations pid k c _ hc
      rw [hassoc]
      exact (.head _)
    rw [← hpid]
    exact h.owned.owner c (h.connected.channel k c hc)
  split
  · apply h.rename
    refine ⟨?_, h.names.leaving, h.names.deletions, hrest⟩
    intro i j c hj hc
    simp only at hj
    split at hj
    · next heq =>
      subst heq
      split at hj
      · exact h.names.named i j c hj hc
      rcases (List.mem_orderedInsert _).mp hj with rfl | hold
      · exact howner c hc
      · exact h.names.named i j c hold hc
    · exact h.names.named i j c hj hc
  next hdead =>
  unfold State.enqueueDeletion
  split
  · apply h.rename
    refine ⟨h.names.named, h.names.leaving, ?_, hrest⟩
    intro i c hi hc
    rcases List.mem_append.mp hi with hold | hnew
    · exact h.names.deletions i c hold hc
    rw [List.mem_singleton.mp hnew] at hc
    rcases howner c hc with halive | hended
    · rw [halive] at hdead
      exact absurd rfl hdead
    · exact hended
  · exact h.rename { h.names with associations := hrest }

/-- A deletion that is drained: the socket it names has an owner that ended. -/
theorem Inv.drain (h : s.Inv)
    (hdel : s.deletions = k :: rest) : (State.dropConn { s with deletions := rest } k).Inv := by
  have hpop : Inv { s with deletions := rest } := by
    apply h.rename
    refine { h.names with deletions := ?_ }
    intro i c hi hc
    apply h.names.deletions i c _ hc
    rw [hdel]
    exact .tail _ hi
  apply hpop.dropConn
  intro c hc
  have hended : s.ended (s.channel c).owner = true := by
    apply h.names.deletions k c _ hc
    rw [hdel]
    exact (.head _)
  simp only [due, hended, Bool.or_true]

/-- The head of a queue taken off. -/
theorem Inv.popReq (h : s.Inv) {hart c : Nat} (hreqs : s.reqs hart = c :: rest) :
    Inv { s with reqs := fun i => if i = hart then rest else s.reqs i } := by
  have hback : ∀ {i d}, d ∈ (if i = hart then rest else s.reqs i) → d ∈ s.reqs i := by
    intro i d hd
    split at hd
    · next heq =>
      rw [heq, hreqs]
      exact .tail _ hd
    · exact hd
  constructor
  · exact { h.owned with }
  · have hc := h.connected
    refine ⟨hc.socket, hc.channel, hc.unique, ?_, ?_, ?_, ?_⟩
    · intro k d i hk hd
      exact hc.idle k d i hk (hback hd)
    · intro i d hd
      exact hc.reqs i d (hback hd)
    · intro i
      simp only
      split
      · have honce := hc.once hart
        rw [hreqs] at honce
        exact (List.nodup_cons.mp honce).2
      · exact hc.once i
    · intro i j d hi hj
      exact hc.apart i j d (hback hi) (hback hj)
  · have hr := h.removed
    refine { hr with reqs := ?_ }
    intro r hin i hd
    exact hr.reqs r hin i (hback hd)
  · exact { h.names with }

/-- A new socket, under a handle no name stands for. -/
theorem Inv.serveReq (h : s.Inv) (hlt : c < s.count)
    (hqueued : ∀ hart, c ∉ s.reqs hart) (hconn : ∀ i, s.conns i ≠ some c)
    (hpast : ∀ r ∈ s.removals, r.channel ≠ c) (hstale : ¬ s.Stale k) : (s.serveReq c k).Inv := by
  have hback : ∀ {i d}, (if i = k then some c else s.conns i) = some d →
      (i = k ∧ d = c) ∨ (i ≠ k ∧ s.conns i = some d) := by
    intro i d hd
    split at hd
    · next heq =>
      cases hd
      exact .inl ⟨heq, rfl⟩
    · next hne => exact .inr ⟨hne, hd⟩
  have hmain : ∀ associations, (∀ i j, (i, j) ∈ associations → (i, j) ∈ s.associations ∨
      (i = (s.channel c).pid ∧ j = k)) →
      Inv { s with
        sockets := fun i => if i = k then true else s.sockets i
        conns := fun i => if i = k then some c else s.conns i
        associations } := by
    intro associations hassoc
    constructor
    · exact { h.owned with }
    · constructor
      · intro i d hd
        simp only
        rcases hback hd with ⟨rfl, -⟩ | ⟨hne, hd'⟩
        · exact if_pos rfl
        · rw [if_neg hne]
          exact h.connected.socket i d hd'
      · intro i d hd
        rcases hback hd with ⟨-, rfl⟩ | ⟨-, hd'⟩
        · exact hlt
        · exact h.connected.channel i d hd'
      · intro i j d hi hj
        rcases hback hi with ⟨rfl, rfl⟩ | ⟨-, hi'⟩
        · rcases hback hj with ⟨rfl, -⟩ | ⟨-, hj'⟩
          · rfl
          · exact absurd hj' (hconn j)
        rcases hback hj with ⟨-, rfl⟩ | ⟨-, hj'⟩
        · exact absurd hi' (hconn i)
        · exact h.connected.unique i j d hi' hj'
      · intro i d hart hd
        rcases hback hd with ⟨-, rfl⟩ | ⟨-, hd'⟩
        · exact hqueued hart
        · exact h.connected.idle i d hart hd'
      · exact h.connected.reqs
      · exact h.connected.once
      · exact h.connected.apart
    · have hr := h.removed
      refine { hr with conns := ?_ }
      intro r hin i hi
      rcases hback hi with ⟨-, heq⟩ | ⟨-, hi'⟩
      · exact hpast r hin heq
      · exact hr.conns r hin i hi'
    · -- the names there are stand for other handles
      constructor
      · intro i j d hj hd
        rcases hback hd with ⟨rfl, -⟩ | ⟨-, hd'⟩
        · exact absurd (.inl ⟨i, hj⟩) hstale
        · exact h.names.named i j d hj hd'
      · intro j d hj hd
        rcases hback hd with ⟨rfl, -⟩ | ⟨-, hd'⟩
        · exact absurd (.inr (.inl hj)) hstale
        · exact h.names.leaving j d hj hd'
      · intro j d hj hd
        rcases hback hd with ⟨rfl, -⟩ | ⟨-, hd'⟩
        · exact absurd (.inr (.inr (.inl hj))) hstale
        · exact h.names.deletions j d hj hd'
      intro i j d hin hd
      rcases hassoc i j hin with hold | ⟨rfl, rfl⟩
      · rcases hback hd with ⟨rfl, -⟩ | ⟨-, hd'⟩
        · exact absurd (.inr (.inr (.inr (List.mem_map.mpr ⟨(i, j), hold, rfl⟩)))) hstale
        · exact h.names.associations i j d hold hd'
      rcases hback hd with ⟨-, rfl⟩ | ⟨hne, -⟩
      · rfl
      · exact absurd rfl hne
  unfold State.serveReq
  simp only
  split
  · apply hmain
    intro i j hin
    rcases List.mem_append.mp hin with hold | hnew
    · exact .inl hold
    have heq := List.mem_singleton.mp hnew
    cases heq
    exact .inr ⟨rfl, rfl⟩
  apply hmain
  intro i j hin
  exact .inl hin

theorem Inv.step {s s' : State} {a : Action} (h : s.Inv) (hguard : s.Unnamed a)
    (hstep : s.step a = some s') : s'.Inv := by
  cases a with
  | spawn pid =>
    simp only [State.step] at hstep
    split at hstep
    · next hok =>
      cases hstep
      exact h.spawn hok.2
    · cases hstep
  | create pid hart tcp =>
    simp only [State.step] at hstep
    split at hstep
    · next owner _ hpid =>
      cases hstep
      split
      · exact h.create hpid tcp (.inr ⟨hart, rfl⟩)
      · exact h.create hpid tcp (.inl rfl)
    · cases hstep
  | close pid c =>
    simp only [State.step] at hstep
    split at hstep
    · split at hstep
      · cases hstep
        exact h.revokeChannel c
      · cases hstep
    · cases hstep
  | exit pid =>
    simp only [State.step] at hstep
    split at hstep
    · next owner _ hpid =>
      cases hstep
      exact h.exit hpid
    · cases hstep
  | unlist =>
    simp only [State.step] at hstep
    split at hstep
    · next hmanager =>
      cases hstep
      exact h.unlist hmanager
    · cases hstep
      exact h.setManager rfl
    · cases hstep
  | revoke =>
    simp only [State.step] at hstep
    split at hstep
    · next c rest _ =>
      cases hstep
      exact (h.revokeChannel c).setManager rfl
    · cases hstep
      exact h.setManager rfl
    · cases hstep
  | checkNet =>
    simp only [State.step] at hstep
    split at hstep
    · next pid k rest _ hassoc =>
      cases hstep
      exact h.checkNet hassoc
    · cases hstep
  | drain =>
    simp only [State.step] at hstep
    split at hstep
    · split at hstep
      · next hdel =>
        cases hstep
        exact h.drain hdel
      · cases hstep
        exact h.setPhase _
    · cases hstep
  | prune handles =>
    simp only [State.step] at hstep
    split at hstep
    · next hok =>
      have hpruned := h.prune hok.1 hok.2
      split at hstep
      · cases hstep
        exact hpruned.setPhase _
      · cases hstep
        exact hpruned.setPhase _
      · cases hstep
    · cases hstep
  | update =>
    simp only [State.step] at hstep
    split at hstep
    · cases hstep
      exact h.setPhase _
    · cases hstep
  | serve hart k =>
    simp only [State.step] at hstep
    split at hstep
    · split at hstep
      · cases hstep
      next c rest hreqs =>
      have hpop := h.popReq hreqs
      have hin : c ∈ s.reqs hart := by
        rw [hreqs]
        exact (.head _)
      split at hstep
      · split at hstep
        · cases hstep
        cases hstep
        apply hpop.serveReq (h.connected.reqs hart c hin)
        · intro i hi
          simp only at hi
          split at hi
          · have honce := h.connected.once hart
            rw [hreqs] at honce
            exact (List.nodup_cons.mp honce).1 hi
          · next hne => exact hne (h.connected.apart i hart c hi hin)
        · intro i hi
          exact h.connected.idle i c hart hi hin
        · rintro r hr rfl
          exact h.removed.reqs r hr hart hin
        · exact hguard
      · cases hstep
        exact hpop
    · cases hstep
  | loopAgain =>
    simp only [State.step] at hstep
    split at hstep
    · cases hstep
      exact h.setPhase _
    · cases hstep

/-- In every run in which no new socket gets a handle that an old name still stands for, a
socket is removed only when its own channel is revoked or its own process has ended, no
socket is removed twice, and no removal finds its handle absent. -/
theorem sockets_isolated {s : State} (run : Reach State.step Unnamed (· = boot) s) :
    s.fault = false ∧ (∀ r ∈ s.removals, r.due = true) ∧
      (s.removals.map Removal.channel).Nodup := by
  have hinv : s.Inv := by
    apply run.invariant
    · rintro _ rfl
      exact boot_inv
    · intro s a s' h hguard hstep
      exact h.step hguard hstep
  exact ⟨hinv.removed.sound, hinv.removed.due, hinv.removed.nodup⟩

/-- One round of the network thread up to its requests. -/
def netRound (handles : List Nat) : List Action := [.drain, .prune handles, .update, .prune []]

/-- A process opens a channel and gets the socket 1. -/
def openOne : List Action :=
  [.spawn 1, .create 1 0 true] ++ netRound [] ++ [.serve 0 1]

/-- It closes the channel, and the next round prunes the socket. -/
def closeOne : List Action := [.checkNet, .close 1 0, .loopAgain] ++ netRound [1]

theorem sockets_isolated_close :
    ∃ s, Reach State.step Unnamed (· = boot) s ∧ s.removals = [⟨0, true⟩] ∧
      s.fault = false ∧ (∀ r ∈ s.removals, r.due = true) ∧
      (s.removals.map Removal.channel).Nodup := by
  -- up to the request no step has a condition to meet
  have hplain : ∀ {s s' : State} {a : Action}, Reach State.step Unnamed (· = boot) s →
      (∀ hart k, a ≠ .serve hart k) → s.step a = some s' →
      Reach State.step Unnamed (· = boot) s' := by
    intro s s' a run hne hstep
    apply run.next _ hstep
    cases a with
    | serve hart k => exact absurd rfl (hne hart k)
    | _ => trivial
  have hboot : Reach State.step Unnamed (· = boot) boot := .start rfl
  have h1 := hplain hboot (a := .spawn 1) nofun rfl
  have h2 := hplain h1 (a := .create 1 0 true) nofun rfl
  have h3 := hplain h2 (a := .drain) nofun rfl
  have h4 := hplain h3 (a := .prune []) nofun rfl
  have h5 := hplain h4 (a := .update) nofun rfl
  have h6 := hplain h5 (a := .prune []) nofun rfl
  -- nobody has a name for a socket yet
  have h7 := h6.next (a := .serve 0 1) (by
    rintro (⟨pid, hin⟩ | hin | hin | hin)
    · have hempty : 1 ∈ (if pid = 1 then ([] : List Nat) else []) := hin
      rw [ite_self] at hempty
      cases hempty
    · cases hin
    · cases hin
    · cases hin) rfl
  have h8 := hplain h7 (a := .checkNet) nofun rfl
  have h9 := hplain h8 (a := .close 1 0) nofun rfl
  have h10 := hplain h9 (a := .loopAgain) nofun rfl
  have h11 := hplain h10 (a := .drain) nofun rfl
  have h12 := hplain h11 (a := .prune [1]) nofun rfl
  exact ⟨_, h12, rfl, sockets_isolated h12⟩

/-- Process 1 closes its channel, the socket goes, and process 2 gets the handle for a
channel of its own. When process 1 ends, the name it still has for the handle takes the
socket of process 2 away. -/
def stolenSocket : List Action :=
  openOne ++ closeOne ++ [.spawn 2, .create 2 0 true, .serve 0 1, .checkNet, .loopAgain, .exit 1,
    .unlist, .drain]

theorem exit_removes_other_socket :
    ∃ s, Reach State.step (fun _ _ => True) (· = boot) s ∧ s.removals = [⟨0, true⟩, ⟨1, false⟩] ∧
      s.alive 2 = some (s.channel 1).owner ∧ (s.channel 1).revoked = false := by
  have hboot : Reach State.step (fun _ _ => True) (· = boot) boot := .start rfl
  exact hboot.exists_of_exec stolenSocket
    (fun s => s.removals = [⟨0, true⟩, ⟨1, false⟩] ∧ s.alive 2 = some (s.channel 1).owner ∧
      (s.channel 1).revoked = false) (by decide +kernel)

end State

end Orbit.Net
