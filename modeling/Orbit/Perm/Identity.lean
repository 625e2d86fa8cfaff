import Orbit.Perm.Confinement

/-!
User ids across a subtree. A process without root ids stays without them, and so do its
descendants, as long as no spawn in the subtree stamps the id 0 and none goes through the
calls that start a child as root. What other processes do does not matter.
-/

namespace Orbit.Perm

open Transition (Reach)

variable {c : Credentials} {p : Nat} {q : Proc}

namespace Credentials

/-- None of the three user ids is root's. -/
def NonRoot (c : Credentials) : Prop := c.uid ≠ 0 ∧ c.euid ≠ 0 ∧ c.suid ≠ 0

instance (c : Credentials) : Decidable c.NonRoot := inferInstanceAs (Decidable (_ ∧ _ ∧ _))

/-- Without the effective id of root, `setuid` moves the effective id among the old three. -/
theorem setuid_old (c : Credentials) (uid : Nat) (h : c.euid ≠ 0) :
    (c.setuid uid).uid = c.uid ∧ (c.setuid uid).suid = c.suid ∧
      (c.setuid uid).euid ∈ [c.uid, c.euid, c.suid] := by
  rw [setuid, if_neg h]
  split
  · next hold =>
    refine ⟨rfl, rfl, ?_⟩
    rcases hold with rfl | rfl
    · simp
    · simp
  · simp

variable (h : c.NonRoot)

include h

theorem NonRoot.setuid (uid : Nat) : (c.setuid uid).NonRoot := by
  obtain ⟨huid, hsuid, heuid⟩ := setuid_old c uid h.2.1
  rw [NonRoot, huid, hsuid]
  refine ⟨h.1, ?_, h.2.2⟩
  simp only [List.mem_cons, List.not_mem_nil, or_false] at heuid
  rcases heuid with heq | heq | heq
  · rw [heq]
    exact h.1
  · rw [heq]
    exact h.2.1
  · rw [heq]
    exact h.2.2

theorem NonRoot.setgid (gid : Nat) : (c.setgid gid).NonRoot := by
  rw [Credentials.setgid, if_neg h.2.1]
  split
  · exact h
  · exact h

theorem NonRoot.setgroups (groups : List Nat) :
    (c.setgroups groups).NonRoot := by
  rw [Credentials.setgroups]
  split
  · exact h
  · rw [if_pos h.2.1]
    exact h

theorem NonRoot.inherited {uid : Option Nat}
    (huid : ∀ u, uid = some u → u ≠ 0) (gid : Option Nat) (groups : Option (List Nat)) :
    (c.inherited uid gid groups).NonRoot := by
  cases uid with
  | none =>
    cases gid with
    | none => exact h
    | some gid => exact h
  | some u =>
    have hu := huid u rfl
    cases gid with
    | none => exact ⟨hu, hu, hu⟩
    | some gid => exact ⟨hu, hu, hu⟩

end Credentials

/-- A stamp other than the id 0 does not give the id 0. -/
theorem SpawnArgs.idOverride_ne_zero {v : Int} {uid : Option Nat} (h : idOverride v = some uid)
    (hv : v ≠ 0) (u : Nat) (hu : uid = some u) : u ≠ 0 := by
  rw [idOverride] at h
  split at h
  · cases h
    cases hu
  split at h
  · cases h
    cases hu
    omega
  · cases h

/-- The request of a process of this role does not make a root process: it is none of the calls
that start a child as root, and a loader stamps another id than 0 if any. -/
def Request.Unstamped (role : Role) : Request → Prop
  | .createProcess | .createProcessEx => False
  | .createProcessV2 args => role = .loader → args.setuidUid ≠ 0
  | _ => True

namespace System

/-- The process itself and all that descend from it. -/
def InTree (s : System) (a d : Nat) : Prop := d = a ∨ ∃ c, Descends s a c d

/-- Every process named in the state has been born. -/
structure Named (s : System) : Prop where
  parent : ∀ i p, i < s.count → (s.proc i).parent = some p → p < s.count
  queued : ∀ x ∈ s.queue, x.1 < s.count
  pending : ∀ c ∈ s.spawns, c.parent < s.count

theorem update_parent {s : System} (hq : q.parent = (s.proc p).parent)
    (i : Nat) : ((s.update p q).proc i).parent = (s.proc i).parent := by
  simp only [update]
  split
  · next hi => rw [hi, hq]
  · rfl

theorem birth_old (s : System) (q : Proc) {i : Nat} (hi : i < s.count) :
    (s.birth q).proc i = s.proc i := by
  simp only [birth]
  rw [if_neg (Nat.ne_of_lt hi)]

theorem birth_new (s : System) (q : Proc) : (s.birth q).proc s.count = q := by
  simp only [birth, if_true]

namespace Named

theorem update {s : System} (h : s.Named)
    (hq : q.parent = (s.proc p).parent) : (s.update p q).Named := by
  refine ⟨?_, h.queued, h.pending⟩
  intro i p' hi hp
  rw [update_parent hq] at hp
  exact h.parent i p' hi hp

theorem birth {s : System} (h : s.Named) (hp : p < s.count)
    (hq : q.parent = some p) : (s.birth q).Named := by
  refine ⟨?_, ?_, ?_⟩
  · intro i p' hi hparent
    have hcases : i < s.count ∨ i = s.count := by
      have hi' : i < s.count + 1 := hi
      omega
    rcases hcases with hold | rfl
    · rw [birth_old s q hold] at hparent
      exact Nat.lt_succ_of_lt (h.parent i p' hold hparent)
    rw [birth_new, hq] at hparent
    cases hparent
    exact Nat.lt_succ_of_lt hp
  · intro x hx
    exact Nat.lt_succ_of_lt (h.queued x hx)
  · intro c hc
    exact Nat.lt_succ_of_lt (h.pending c hc)

theorem handle {s : System} (h : s.Named) (hp : p < s.count) (r : Request)
    (succeeds : Bool) : (s.handle p r succeeds).Named := by
  cases r with
  | pledge request =>
    simp only [System.handle]
    split
    · exact h.update (q := { s.proc p with permissions := (s.proc p).permissions.pledge request })
        rfl
    · exact h
  | setuid uid =>
    exact h.update (q := { s.proc p with credentials := (s.proc p).credentials.setuid uid }) rfl
  | setgid gid =>
    exact h.update (q := { s.proc p with credentials := (s.proc p).credentials.setgid gid }) rfl
  | setgroups groups =>
    simp only [System.handle]
    split
    · exact h.update
        (q := { s.proc p with credentials := (s.proc p).credentials.setgroups groups }) rfl
    · exact h
  | createProcess | createProcessEx =>
    simp only [System.handle]
    split
    · exact h.birth hp rfl
    · exact h
  | createProcessV2 args =>
    simp only [System.handle]
    split
    · exact h
    next c hc =>
    obtain ⟨-, -, -, -, -, -, -, rfl⟩ := spawnContext_some hc
    split
    · refine ⟨h.parent, h.queued, ?_⟩
      intro c' hc'
      rcases List.mem_append.mp hc' with hold | hnew
      · exact h.pending c' hold
      · rw [List.mem_singleton.mp hnew]
        exact hp
    split
    · exact h.birth hp rfl
    · exact h

theorem step {s s' : System} {a : Action} (h : s.Named) (hstep : s.step a = some s') :
    s'.Named := by
  cases a with
  | issue p r =>
    simp only [System.step] at hstep
    split at hstep
    · next hgate =>
      cases hstep
      refine ⟨h.parent, ?_, h.pending⟩
      intro x hx
      rcases List.mem_append.mp hx with hold | hnew
      · exact h.queued x hold
      rw [List.mem_singleton.mp hnew]
      simp only [gate, Bool.and_eq_true, decide_eq_true_eq] at hgate
      exact hgate.1
    · cases hstep
  | handle succeeds =>
    simp only [System.step] at hstep
    split at hstep
    · cases hstep
    next p r rest hqueue =>
    cases hstep
    have hp : p < s.count := h.queued (p, r) (by rw [hqueue]; exact (.head _))
    have hpop : Named { s with queue := rest } := by
      refine ⟨h.parent, ?_, h.pending⟩
      intro x hx
      apply h.queued x
      rw [hqueue]
      exact .tail _ hx
    exact hpop.handle hp r succeeds
  | finish i succeeds =>
    simp only [System.step] at hstep
    split at hstep
    · cases hstep
    next c hc =>
    cases hstep
    have hpop : Named { s with spawns := s.spawns.eraseIdx i } := by
      refine ⟨h.parent, h.queued, ?_⟩
      intro c' hc'
      exact h.pending c' (List.mem_of_mem_eraseIdx hc')
    split
    · exact hpop.birth (h.pending c (List.mem_of_getElem? hc)) rfl
    · exact hpop

end Named

/-- Descent only looks at the parents. -/
theorem Descends.congr {s s' : System} {a c d : Nat} (h : Descends s' a c d)
    (hcount : s'.count = s.count) (hparent : ∀ i, (s'.proc i).parent = (s.proc i).parent) :
    Descends s a c d := by
  induction h with
  | child hlt hp =>
    rw [hcount] at hlt
    rw [hparent] at hp
    exact .child hlt hp
  | step _ hlt hp ih =>
    rw [hcount] at hlt
    rw [hparent] at hp
    exact .step ih hlt hp

theorem InTree.congr {s s' : System} {a d : Nat} (h : s'.InTree a d)
    (hcount : s'.count = s.count) (hparent : ∀ i, (s'.proc i).parent = (s.proc i).parent) :
    s.InTree a d := by
  rcases h with rfl | ⟨c, hd⟩
  · exact .inl rfl
  · exact .inr ⟨c, hd.congr hcount hparent⟩

/-- A birth adds to a subtree at most the newborn, and only under a member. -/
theorem InTree.of_birth {s : System} (h : s.Named) {a : Nat} (ha : a < s.count)
    (hp : p < s.count) (hq : q.parent = some p) {d : Nat} (hd : (s.birth q).InTree a d) :
    (d < s.count ∧ s.InTree a d) ∨ (d = s.count ∧ s.InTree a p) := by
  rcases hd with rfl | ⟨c, hd⟩
  · exact .inl ⟨ha, .inl rfl⟩
  have hcases : ∀ i, i < (s.birth q).count → i < s.count ∨ i = s.count := by
    intro i hi
    have hi' : i < s.count + 1 := hi
    omega
  -- nobody born before has the newborn for a parent, so a path leaves the old tree once
  induction hd with
  | child hlt hparent =>
    rcases hcases c hlt with hold | rfl
    · rw [birth_old s q hold] at hparent
      exact .inl ⟨hold, .inr ⟨c, .child hold hparent⟩⟩
    rw [birth_new, hq] at hparent
    cases hparent
    exact .inr ⟨rfl, .inl rfl⟩
  | @step d e _ hlt hparent ih =>
    rcases hcases e hlt with hold | rfl
    · rw [birth_old s q hold] at hparent
      have hdlt := h.parent e d hold hparent
      rcases ih with ⟨-, hin⟩ | ⟨heq, -⟩
      · rcases hin with rfl | ⟨c', hd'⟩
        · exact .inl ⟨hold, .inr ⟨e, .child hold hparent⟩⟩
        · exact .inl ⟨hold, .inr ⟨c', .step hd' hold hparent⟩⟩
      · omega
    rw [birth_new, hq] at hparent
    cases hparent
    rcases ih with ⟨-, hin⟩ | ⟨heq, -⟩
    · exact .inr ⟨rfl, hin⟩
    · omega

/-- No process of the subtree has a root id, and no spawn under way from it brings one. -/
structure Unprivileged (s : System) (a : Nat) : Prop where
  procs : ∀ d, s.InTree a d → (s.proc d).credentials.NonRoot
  pending : ∀ c ∈ s.spawns, s.InTree a c.parent → c.credentials.NonRoot

/-- When a request of the subtree is handled, it is one that stamps no root id. -/
def Unstamped (a : Nat) (s : System) : Action → Prop
  | .handle _ => ∀ p r, s.queue.head? = some (p, r) → s.InTree a p →
    r.Unstamped (s.proc p).permissions.role
  | _ => True

namespace Unprivileged

theorem update {s : System} {a p : Nat} (h : s.Unprivileged a)
    (hparent : q.parent = (s.proc p).parent)
    (hq : (s.proc p).credentials.NonRoot → q.credentials.NonRoot) :
    (s.update p q).Unprivileged a := by
  have hin : ∀ {d}, (s.update p q).InTree a d → s.InTree a d := by
    intro d hd
    exact hd.congr (s := s) rfl (update_parent hparent)
  constructor
  · intro d hd
    have hd' := hin hd
    simp only [System.update]
    split
    · next heq =>
      subst heq
      exact hq (h.procs d hd')
    · exact h.procs d hd'
  · intro c hc hd
    exact h.pending c hc (hin hd)

theorem birth {s : System} {a p : Nat} (h : s.Unprivileged a) (hn : s.Named) (ha : a < s.count)
    (hp : p < s.count) (hparent : q.parent = some p)
    (hq : s.InTree a p → q.credentials.NonRoot) : (s.birth q).Unprivileged a := by
  constructor
  · intro d hd
    rcases hd.of_birth hn ha hp hparent with ⟨hlt, hin⟩ | ⟨rfl, hin⟩
    · rw [birth_old s q hlt]
      exact h.procs d hin
    · rw [birth_new]
      exact hq hin
  intro c hc hd
  rcases hd.of_birth hn ha hp hparent with ⟨-, hin⟩ | ⟨heq, -⟩
  · exact h.pending c hc hin
  · have hlt := hn.pending c hc
    omega

end Unprivileged

/-- What a run keeps of the subtree of `a`. -/
structure Kept (a : Nat) (s : System) : Prop where
  named : s.Named
  born : a < s.count
  clean : s.Unprivileged a

namespace Kept

variable {a : Nat} {s : System}

variable (h : s.Kept a)

include h

theorem update (hparent : q.parent = (s.proc p).parent)
    (hq : (s.proc p).credentials.NonRoot → q.credentials.NonRoot) : (s.update p q).Kept a :=
  ⟨h.named.update hparent, h.born, h.clean.update hparent hq⟩

theorem birth (hp : p < s.count) (hparent : q.parent = some p)
    (hq : s.InTree a p → q.credentials.NonRoot) : (s.birth q).Kept a :=
  ⟨h.named.birth hp hparent, Nat.lt_succ_of_lt h.born, h.clean.birth h.named h.born hp hparent hq⟩

/-- The queue does not matter beyond the names in it. -/
theorem requeue {queue : List (Nat × Request)}
    (hqueue : ∀ x ∈ queue, x.1 < s.count) : Kept a { s with queue } := by
  have hin : ∀ {d}, InTree { s with queue } a d → s.InTree a d := by
    intro d hd
    exact hd.congr (s := s) rfl (fun _ => rfl)
  refine ⟨{ h.named with queued := hqueue }, h.born, ⟨?_, ?_⟩⟩
  · intro d hd
    exact h.clean.procs d (hin hd)
  · intro c hc hd
    exact h.clean.pending c hc (hin hd)

/-- Spawns under way may change to any that are in order. -/
theorem respawn {spawns : List SpawnContext}
    (hspawns : ∀ c ∈ spawns, c.parent < s.count ∧ (s.InTree a c.parent → c.credentials.NonRoot)) :
    Kept a { s with spawns } := by
  have hin : ∀ {d}, InTree { s with spawns } a d → s.InTree a d := by
    intro d hd
    exact hd.congr (s := s) rfl (fun _ => rfl)
  refine ⟨{ h.named with pending := ?_ }, h.born, ⟨?_, ?_⟩⟩
  · intro c hc
    exact (hspawns c hc).1
  · intro d hd
    exact h.clean.procs d (hin hd)
  · intro c hc hd
    exact (hspawns c hc).2 (hin hd)

/-- What the checks let through from the subtree brings no root id. -/
theorem context {args : SpawnArgs} {c : SpawnContext}
    (hc : s.spawnContext p args = some c)
    (hstamp : s.InTree a p → (s.proc p).permissions.role = .loader → args.setuidUid ≠ 0) :
    c.parent = p ∧ (s.InTree a c.parent → c.credentials.NonRoot) := by
  obtain ⟨uid, gid, t, huid, -, -, hrole, rfl⟩ := spawnContext_some hc
  refine ⟨rfl, ?_⟩
  intro hin
  apply (h.clean.procs p hin).inherited
  apply SpawnArgs.idOverride_ne_zero huid
  intro hzero
  -- whoever stamps an id has passed the check of the role
  apply hstamp hin (hrole _) hzero
  simp [SpawnArgs.stampsIdentity, hzero, SpawnArgs.inheritId]

theorem handle (hp : p < s.count) {r : Request}
    (hr : s.InTree a p → r.Unstamped (s.proc p).permissions.role) (succeeds : Bool) :
    (s.handle p r succeeds).Kept a := by
  have hlegacy : ¬ s.InTree a p →
      (s.birth ⟨some p, .all, .root, (s.proc p).permissions⟩).Kept a := by
    intro hout
    apply h.birth hp rfl
    intro hin
    exact absurd hin hout
  cases r with
  | pledge request =>
    simp only [System.handle]
    split
    · exact h.update (q := { s.proc p with permissions := (s.proc p).permissions.pledge request })
        rfl id
    · exact h
  | setuid uid =>
    exact h.update (q := { s.proc p with credentials := (s.proc p).credentials.setuid uid })
      rfl (fun hc => hc.setuid uid)
  | setgid gid =>
    exact h.update (q := { s.proc p with credentials := (s.proc p).credentials.setgid gid })
      rfl (fun hc => hc.setgid gid)
  | setgroups groups =>
    simp only [System.handle]
    split
    · exact h.update (q := { s.proc p with credentials := (s.proc p).credentials.setgroups groups })
        rfl (fun hc => hc.setgroups groups)
    · exact h
  | createProcess =>
    simp only [System.handle]
    split
    · exact hlegacy hr
    · exact h
  | createProcessEx =>
    simp only [System.handle]
    split
    · exact hlegacy hr
    · exact h
  | createProcessV2 args =>
    simp only [System.handle]
    split
    · exact h
    next c hc =>
    obtain ⟨hparent, hcred⟩ := h.context hc hr
    have hlt : c.parent < s.count := hparent ▸ hp
    split
    · apply h.respawn
      intro c' hc'
      rcases List.mem_append.mp hc' with hold | hnew
      · exact ⟨h.named.pending c' hold, h.clean.pending c' hold⟩
      · rw [List.mem_singleton.mp hnew]
        exact ⟨hlt, hcred⟩
    split
    · exact h.birth hlt rfl hcred
    · exact h

theorem step {s' : System} {act : Action} (hguard : s.Unstamped a act)
    (hstep : s.step act = some s') : s'.Kept a := by
  cases act with
  | issue p r =>
    simp only [System.step] at hstep
    split at hstep
    · next hgate =>
      cases hstep
      apply h.requeue
      intro x hx
      rcases List.mem_append.mp hx with hold | hnew
      · exact h.named.queued x hold
      rw [List.mem_singleton.mp hnew]
      simp only [gate, Bool.and_eq_true, decide_eq_true_eq] at hgate
      exact hgate.1
    · cases hstep
  | handle succeeds =>
    simp only [System.step] at hstep
    split at hstep
    · cases hstep
    next p r rest hqueue =>
    cases hstep
    have hp : p < s.count := h.named.queued (p, r) (by rw [hqueue]; exact (.head _))
    have hpop : Kept a { s with queue := rest } := by
      apply h.requeue
      intro x hx
      apply h.named.queued x
      rw [hqueue]
      exact .tail _ hx
    apply hpop.handle hp
    intro hin
    exact hguard p r (by rw [hqueue]; rfl) (hin.congr (s := s) rfl (fun _ => rfl))
  | finish i succeeds =>
    simp only [System.step] at hstep
    split at hstep
    · cases hstep
    next c hc =>
    cases hstep
    have hmem := List.mem_of_getElem? hc
    have hpop : Kept a { s with spawns := s.spawns.eraseIdx i } := by
      apply h.respawn
      intro c' hc'
      have hold := List.mem_of_mem_eraseIdx hc'
      exact ⟨h.named.pending c' hold, h.clean.pending c' hold⟩
    split
    · apply hpop.birth (h.named.pending c hmem) rfl
      intro hin
      exact h.clean.pending c hmem (hin.congr (s := s) rfl (fun _ => rfl))
    · exact hpop

end Kept

theorem named_of_reach {s : System} (run : Reach System.step (fun _ _ => True) Start s) :
    s.Named := by
  have hstart : ∀ s : System, s.Start → s.Named := by
    rintro s ⟨hcount, hparent, hqueue, hspawns⟩
    refine ⟨?_, ?_, ?_⟩
    · intro i p hi hp
      obtain rfl : i = 0 := by omega
      rw [hparent] at hp
      cases hp
    · rw [hqueue]
      exact nofun
    · rw [hspawns]
      exact nofun
  exact run.invariant hstart (fun _ _ _ h _ hstep => h.step hstep)

/-- From any state of any run in which neither the subtree of `a` nor a spawn under way from
it has a root id: while no request of the subtree stamps one, none appears in it. And
whoever lacks the effective id of root only moves it among the ids they have. -/
theorem root_never_regained {s₀ s : System} {a : Nat}
    (before : Reach System.step (fun _ _ => True) Start s₀) (ha : a < s₀.count)
    (hclean : s₀.Unprivileged a) (run : Reach System.step (Unstamped a) (· = s₀) s) :
    (∀ d, s.InTree a d → (s.proc d).credentials.NonRoot) ∧
      ∀ (c : Credentials) (uid : Nat), c.euid ≠ 0 →
        (c.setuid uid).uid = c.uid ∧ (c.setuid uid).suid = c.suid ∧
          (c.setuid uid).euid ∈ [c.uid, c.euid, c.suid] := by
  have hkept : s.Kept a := by
    apply run.invariant
    · rintro _ rfl
      exact ⟨named_of_reach before, ha, hclean⟩
    · intro s act s' h hguard hstep
      exact h.step hguard hstep
  exact ⟨hkept.clean.procs, Credentials.setuid_old⟩

/-- The loader under an ordinary user id. -/
def userLoader : System :=
  ⟨1, fun _ => ⟨none, .loader, ⟨1000, 1000, 1000, 1000, 1000, 1000, []⟩, .loader⟩, [], []⟩

theorem userLoader_start : userLoader.Start := ⟨rfl, rfl, rfl, rfl⟩

theorem userLoader_unprivileged : userLoader.Unprivileged 0 := by
  constructor
  · intro d _
    show Credentials.NonRoot ⟨1000, 1000, 1000, 1000, 1000, 1000, []⟩
    decide
  · exact nofun

theorem root_never_regained_shell :
    ∃ s, Reach System.step (Unstamped 0) (· = userLoader) s ∧ s.InTree 0 1 ∧
      (s.proc 1).credentials.NonRoot := by
  have hboot : Reach System.step (Unstamped 0) (· = userLoader) userLoader := .start rfl
  -- a shell that inherits the ids of the loader
  have hissue : Reach System.step (Unstamped 0) (· = userLoader)
      { userLoader with queue := [(0, plainSpawn Role.shell.id false)] } :=
    .next hboot (a := .issue 0 (plainSpawn Role.shell.id false)) trivial rfl
  have hspawn : Reach System.step (Unstamped 0) (· = userLoader)
      (userLoader.handle 0 (plainSpawn Role.shell.id false) true) := by
    refine .next hissue (a := .handle true) ?_ rfl
    intro p r hhead _
    cases hhead
    exact fun _ => by decide
  have hchild : (userLoader.handle 0 (plainSpawn Role.shell.id false) true).InTree 0 1 :=
    .inr ⟨1, .child (by decide) (by decide)⟩
  have hfrom : Reach System.step (fun _ _ => True) Start userLoader := .start userLoader_start
  obtain ⟨hnonroot, -⟩ := root_never_regained hfrom (by decide) userLoader_unprivileged hspawn
  exact ⟨_, hspawn, hchild, hnonroot 1 hchild⟩

/-- The loader may stamp any id on a child, 0 among them, whatever its own. -/
theorem loader_stamps_root : ∃ s, Reach System.step (fun _ _ => True) (· = userLoader) s ∧
      userLoader.Start ∧ userLoader.Unprivileged 0 ∧ s.InTree 0 1 ∧
      (s.proc 1).credentials.uid = 0 := by
  have hboot : Reach System.step (fun _ _ => True) (· = userLoader) userLoader := .start rfl
  obtain ⟨s, run, hcount, hparent, huid⟩ := hboot.exists_of_exec
    [.issue 0 (.createProcessV2 ⟨Role.shell.id, ⟨Class.all, Class.all⟩, 0, SpawnArgs.inheritId,
      false, none, false⟩), .handle true]
    (fun s => s.count = 2 ∧ (s.proc 1).parent = some 0 ∧ (s.proc 1).credentials.uid = 0)
    (by decide +kernel)
  refine ⟨s, run, userLoader_start, userLoader_unprivileged, ?_, huid⟩
  exact .inr ⟨1, .child (by omega) hparent⟩

end System

end Orbit.Perm
