import Orbit.Perm.Tree

/-!
What a process was granted bounds it for good: pledges only narrow, and a child is
granted at most what its parent has when the spawn is handled. Along a path of
`create_process_v2` spawns the bounds add up.
-/

namespace Orbit.Perm

variable {p : Nat} {c : SpawnContext} {s : System}

/-- No class beyond what `q` has or may grant, and none to grant that `q` may not. The
classes are those of the role, or `q`'s own handed on with its role. -/
structure Permissions.Within (p q : Permissions) : Prop where
  perms : Sub p.perms (q.perms ||| q.allowedPerms)
  allowed : Sub p.allowedPerms q.allowedPerms
  role : q.role.Reaches p.role
  provided : Sub p.perms p.role.definition.defaultPerms ∨ (p.role = q.role ∧ Sub p.perms q.perms)

namespace Permissions.Within

theorem refl (p : Permissions) : p.Within p :=
  ⟨Sub.or_left _ _, Sub.refl _, .refl, .inr ⟨rfl, Sub.refl _⟩⟩

theorem trans {p q r : Permissions} (h : p.Within q) (h' : q.Within r) : p.Within r := by
  constructor
  · intro i hi
    have hq := h.perms i hi
    rw [Nat.testBit_or, Bool.or_eq_true] at hq
    rcases hq with hperm | hallow
    · exact h'.perms i hperm
    · exact Sub.or_right _ _ i (h'.allowed i hallow)
  · exact h.allowed.trans h'.allowed
  · exact h'.role.trans h.role
  rcases h.provided with hdefault | ⟨hrole, hperms⟩
  · exact .inl hdefault
  -- handed on: what holds of `q`'s classes holds of these, under the same role
  rw [hrole]
  rcases h'.provided with hdefault | ⟨hrole', hperms'⟩
  · exact .inl (hperms.trans hdefault)
  · exact .inr ⟨hrole', hperms.trans hperms'⟩

theorem pledge {p q : Permissions} (h : p.Within q) (request : PermsRequest) :
    (p.pledge request).Within q := by
  obtain ⟨hperms, hallowed⟩ := pledge_sub p request
  refine ⟨hperms.trans h.perms, hallowed.trans h.allowed, h.role, ?_⟩
  rcases h.provided with hdefault | ⟨hrole, hown⟩
  · exact .inl (hperms.trans hdefault)
  · exact .inr ⟨hrole, hperms.trans hown⟩

/-- What a spawn derives is within what the parent has. -/
theorem derive {parent : Permissions} {target : Nat} {t : TransitionAllowed}
    (request : PermsRequest) (ht : checkTransition parent.role target = .ok t) :
    (deriveChildPerms parent t request).Within parent := by
  obtain ⟨hperms, hallowed⟩ := deriveChildPerms_sub parent t request
  rcases checkTransition_ok ht with rfl | ⟨role, rfl, hspawns⟩
  · exact .refl _
  · refine ⟨hperms, hallowed, .single hspawns, ?_⟩
    exact .inl ((Sub.and_left _ _).trans (Sub.and_left _ _))

end Permissions.Within

namespace System

/-- The one thing a spawn needs of its checks: where its permissions come from. -/
theorem spawnContext_some {a : SpawnArgs} (h : s.spawnContext p a = some c) :
    ∃ uid gid t, SpawnArgs.idOverride a.setuidUid = some uid ∧
      SpawnArgs.idOverride a.setuidGid = some gid ∧
      checkTransition (s.proc p).permissions.role a.targetRole = .ok t ∧
      (a.stampsIdentity = true → (s.proc p).permissions.role = .loader) ∧
      c = ⟨p, deriveChildPerms (s.proc p).permissions t a.request,
        (s.proc p).credentials.inherited uid gid a.groups, (s.proc p).permissions⟩ := by
  simp only [spawnContext] at h
  split at h
  · cases h
  next hstamp =>
  split at h
  · next uid gid huid hgid =>
    split at h
    · cases h
    split at h
    · cases h
    next t ht =>
    split at h
    · cases h
    cases h
    refine ⟨uid, gid, t, huid, hgid, ht, ?_, rfl⟩
    intro hyes
    simpa [hyes] using hstamp
  · cases h

/-- No spawn by the calls that `create_process_v2` replaces. -/
def NoLegacy (_ : System) : Action → Prop
  | .issue _ .createProcess | .issue _ .createProcessEx => False
  | _ => True

/-- What a spawn under way keeps of its parent is in order. -/
structure Sound (s : System) (c : SpawnContext) : Prop where
  parent : c.parent < s.count
  within : c.childPerms.Within c.granted
  chain : 0 < c.parent → c.granted.Within (s.proc c.parent).granted
  role : c.granted.role = (s.proc c.parent).permissions.role

/-- The bookkeeping of a tree of `create_process_v2` spawns. -/
structure Granted (s : System) : Prop where
  pos : 0 < s.count
  root : (s.proc 0).parent = none
  parent : ∀ i, 0 < i → i < s.count → ∃ p, (s.proc i).parent = some p ∧ p < i
  within : ∀ i, 0 < i → i < s.count → (s.proc i).permissions.Within (s.proc i).granted
  chain : ∀ i p, i < s.count → (s.proc i).parent = some p → 0 < p →
    (s.proc i).granted.Within (s.proc p).granted
  roles : ∀ i p, i < s.count → (s.proc i).parent = some p →
    (s.proc i).granted.role = (s.proc p).permissions.role
  queued : ∀ x ∈ s.queue, x.1 < s.count ∧ x.2 ≠ .createProcess ∧ x.2 ≠ .createProcessEx
  pending : ∀ c ∈ s.spawns, s.Sound c

namespace Granted

theorem start (h : s.Start) : s.Granted := by
  obtain ⟨hcount, hparent, hqueue, hspawns⟩ := h
  constructor
  · omega
  · exact hparent
  · intro i hpos hlt
    omega
  · intro i hpos hlt
    omega
  · intro i p hlt hp hpos
    obtain rfl : i = 0 := by omega
    rw [hparent] at hp
    cases hp
  · intro i p hlt hp
    obtain rfl : i = 0 := by omega
    rw [hparent] at hp
    cases hp
  · rw [hqueue]
    exact nofun
  · rw [hspawns]
    exact nofun

/-- The queue is only looked at for who asks and by which call. -/
theorem requeue (h : s.Granted) {queue : List (Nat × Request)}
    (hqueue : ∀ x ∈ queue, x.1 < s.count ∧ x.2 ≠ .createProcess ∧ x.2 ≠ .createProcessEx) :
    System.Granted { s with queue } := by
  refine { h with queued := hqueue, pending := ?_ }
  intro c hc
  have hprev := h.pending c hc
  exact { hprev with }

/-- A record that keeps its parent, its grant and its role, and stays within its grant. -/
theorem update (h : s.Granted) {q : Proc}
    (hparent : q.parent = (s.proc p).parent) (hgranted : q.granted = (s.proc p).granted)
    (hrole : q.permissions.role = (s.proc p).permissions.role)
    (hwithin : 0 < p → p < s.count → q.permissions.Within q.granted) : (s.update p q).Granted := by
  have hpar : ∀ i, ((s.update p q).proc i).parent = (s.proc i).parent := by
    intro i
    simp only [System.update]
    split
    · next hi => rw [hi, hparent]
    · rfl
  have hgr : ∀ i, ((s.update p q).proc i).granted = (s.proc i).granted := by
    intro i
    simp only [System.update]
    split
    · next hi => rw [hi, hgranted]
    · rfl
  have hro : ∀ i, ((s.update p q).proc i).permissions.role = (s.proc i).permissions.role := by
    intro i
    simp only [System.update]
    split
    · next hi => rw [hi, hrole]
    · rfl
  constructor
  · exact h.pos
  · rw [hpar]
    exact h.root
  · intro i hpos hlt
    rw [hpar]
    exact h.parent i hpos hlt
  · intro i hpos hlt
    rw [hgr]
    simp only [System.update]
    split
    · next hi =>
      subst hi
      rw [← hgranted]
      exact hwithin hpos hlt
    · exact h.within i hpos hlt
  · intro i p' hlt hp hpos
    rw [hpar] at hp
    rw [hgr, hgr]
    exact h.chain i p' hlt hp hpos
  · intro i p' hlt hp
    rw [hpar] at hp
    rw [hgr, hro]
    exact h.roles i p' hlt hp
  · exact h.queued
  intro c hc
  have hsound := h.pending c hc
  constructor
  · exact hsound.parent
  · exact hsound.within
  · rw [hgr]
    exact hsound.chain
  · rw [hro]
    exact hsound.role

/-- A child whose context is in order. -/
theorem install (h : s.Granted) (hc : s.Sound c) :
    (s.install c).Granted := by
  have hold : ∀ i, i < s.count → (s.install c).proc i = s.proc i := by
    intro i hi
    simp only [System.install, System.birth]
    rw [if_neg (Nat.ne_of_lt hi)]
  have hnew : (s.install c).proc s.count =
      ⟨some c.parent, c.childPerms, c.credentials, c.granted⟩ := by
    simp only [System.install, System.birth, if_true]
  have hcases : ∀ i, i < (s.install c).count → i < s.count ∨ i = s.count := by
    intro i hi
    have hi' : i < s.count + 1 := hi
    omega
  have hparent : ∀ i p, i < s.count → (s.proc i).parent = some p → p < s.count := by
    intro i p hi hp
    rcases Nat.eq_zero_or_pos i with rfl | hpos
    · rw [h.root] at hp
      cases hp
    obtain ⟨p', hp', hlt⟩ := h.parent i hpos hi
    rw [hp] at hp'
    cases hp'
    exact hlt.trans hi
  constructor
  · exact Nat.succ_pos _
  · rw [hold 0 h.pos]
    exact h.root
  · intro i hpos hi
    rcases hcases i hi with hi | rfl
    · rw [hold i hi]
      exact h.parent i hpos hi
    · rw [hnew]
      exact ⟨c.parent, rfl, hc.parent⟩
  · intro i hpos hi
    rcases hcases i hi with hi | rfl
    · rw [hold i hi]
      exact h.within i hpos hi
    · rw [hnew]
      exact hc.within
  · intro i p hi hp hpos
    rcases hcases i hi with hi | rfl
    · rw [hold i hi] at hp ⊢
      rw [hold p (hparent i p hi hp)]
      exact h.chain i p hi hp hpos
    rw [hnew] at hp ⊢
    cases hp
    rw [hold _ hc.parent]
    exact hc.chain hpos
  · intro i p hi hp
    rcases hcases i hi with hi | rfl
    · rw [hold i hi] at hp ⊢
      rw [hold p (hparent i p hi hp)]
      exact h.roles i p hi hp
    rw [hnew] at hp ⊢
    cases hp
    rw [hold _ hc.parent]
    exact hc.role
  · intro x hx
    obtain ⟨hx1, hx2⟩ := h.queued x hx
    exact ⟨Nat.lt_succ_of_lt hx1, hx2⟩
  intro c' hc'
  have hsound := h.pending c' hc'
  constructor
  · exact Nat.lt_succ_of_lt hsound.parent
  · exact hsound.within
  · rw [hold _ hsound.parent]
    exact hsound.chain
  · rw [hold _ hsound.parent]
    exact hsound.role

/-- What the checks of `create_process_v2` let through is in order. -/
theorem sound (h : s.Granted) (hp : p < s.count) {a : SpawnArgs}
    (hc : s.spawnContext p a = some c) : s.Sound c := by
  obtain ⟨uid, gid, t, -, -, ht, -, rfl⟩ := spawnContext_some hc
  constructor
  · exact hp
  · exact .derive a.request ht
  · intro hpos
    exact h.within p hpos hp
  · rfl

theorem handle (h : s.Granted) (hp : p < s.count) {r : Request}
    (hr : r ≠ .createProcess ∧ r ≠ .createProcessEx) (succeeds : Bool) :
    (s.handle p r succeeds).Granted := by
  cases r with
  | pledge request =>
    simp only [System.handle]
    split
    · have hnarrow : 0 < p → p < s.count →
          ((s.proc p).permissions.pledge request).Within (s.proc p).granted := by
        intro hpos hlt
        exact (h.within p hpos hlt).pledge request
      exact h.update (q := { s.proc p with permissions := (s.proc p).permissions.pledge request })
        rfl rfl rfl hnarrow
    · exact h
  | setuid uid =>
    exact h.update (q := { s.proc p with credentials := (s.proc p).credentials.setuid uid })
      rfl rfl rfl (h.within p)
  | setgid gid =>
    exact h.update (q := { s.proc p with credentials := (s.proc p).credentials.setgid gid })
      rfl rfl rfl (h.within p)
  | setgroups groups =>
    simp only [System.handle]
    split
    · exact h.update (q := { s.proc p with credentials := (s.proc p).credentials.setgroups groups })
        rfl rfl rfl (h.within p)
    · exact h
  | createProcess => exact absurd rfl hr.1
  | createProcessEx => exact absurd rfl hr.2
  | createProcessV2 a =>
    simp only [System.handle]
    split
    · exact h
    next c hc =>
    have hsound := h.sound hp hc
    split
    · refine { h with pending := ?_ }
      intro c' hc'
      rcases List.mem_append.mp hc' with hold | hnew
      · have hprev := h.pending c' hold
        exact { hprev with }
      · rw [List.mem_singleton.mp hnew]
        exact { hsound with }
    split
    · exact h.install hsound
    · exact h

theorem step {s s' : System} {a : Action} (h : s.Granted) (hguard : s.NoLegacy a)
    (hstep : s.step a = some s') : s'.Granted := by
  cases a with
  | issue p r =>
    simp only [System.step] at hstep
    split at hstep
    · next hgate =>
      cases hstep
      apply h.requeue
      intro x hx
      rcases List.mem_append.mp hx with hold | hnew
      · exact h.queued x hold
      rw [List.mem_singleton.mp hnew]
      simp only [gate, Bool.and_eq_true, decide_eq_true_eq] at hgate
      refine ⟨hgate.1, ?_, ?_⟩
      · rintro rfl
        exact hguard
      · rintro rfl
        exact hguard
    · cases hstep
  | handle succeeds =>
    simp only [System.step] at hstep
    split at hstep
    · cases hstep
    next p r rest hqueue =>
    cases hstep
    obtain ⟨hp, hr⟩ := h.queued (p, r) (by rw [hqueue]; exact (.head _))
    have hpop : System.Granted { s with queue := rest } := by
      apply h.requeue
      intro x hx
      apply h.queued x
      rw [hqueue]
      exact .tail _ hx
    exact hpop.handle hp hr succeeds
  | finish i succeeds =>
    simp only [System.step] at hstep
    split at hstep
    · cases hstep
    next c hc =>
    cases hstep
    have hsound := h.pending c (List.mem_of_getElem? hc)
    have hpop : System.Granted { s with spawns := s.spawns.eraseIdx i } := by
      refine { h with pending := ?_ }
      intro c' hc'
      have hprev := h.pending c' (List.mem_of_mem_eraseIdx hc')
      exact { hprev with }
    split
    · exact hpop.install { hsound with }
    · exact hpop

/-- Along a path the last process is within what the first was granted. -/
theorem descends (h : s.Granted) {a c d : Nat} (hd : Descends s a c d) :
    (s.proc c).granted.role = (s.proc a).permissions.role ∧
      (s.proc d).permissions.Within (s.proc c).granted := by
  have hpos : ∀ {e x : Nat}, (s.proc e).parent = some x → 0 < e := by
    intro e x hx
    rcases Nat.eq_zero_or_pos e with rfl | hepos
    · rw [h.root] at hx
      cases hx
    · exact hepos
  -- the induction carries the grants; the last process is within its own
  have hpath : (s.proc c).granted.role = (s.proc a).permissions.role ∧ 0 < d ∧ d < s.count ∧
      (s.proc d).granted.Within (s.proc c).granted := by
    induction hd with
    | child hlt hp => exact ⟨h.roles c a hlt hp, hpos hp, hlt, .refl _⟩
    | step _ hlt hp ih =>
      obtain ⟨hrole, hdpos, -, hgrant⟩ := ih
      exact ⟨hrole, hpos hp, hlt, (h.chain _ _ hlt hp hdpos).trans hgrant⟩
  obtain ⟨hrole, hdpos, hlt, hgrant⟩ := hpath
  exact ⟨hrole, (h.within d hdpos hlt).trans hgrant⟩

end Granted

end System

end Orbit.Perm
