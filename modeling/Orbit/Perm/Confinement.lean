import Orbit.Perm.Grants

/-!
What `create_process_v2` keeps across whole trees: classes, roles and what may be handed
on. `granted` of a child is what its parent had when the spawn was handled. A later
pledge of the parent does not reach the children it has, and the calls that
`create_process_v2` replaces start a child with every class.
-/

namespace Orbit.Perm

open Transition (Reach)

namespace System

/-- The boot process, `Permissions::LOADER`. -/
def bootLoader : System :=
  ⟨1, fun _ => ⟨none, .loader, .root, .loader⟩, [], []⟩

theorem bootLoader_start : bootLoader.Start := by
  constructor
  · rfl
  · exact ⟨rfl, rfl, rfl⟩

theorem bootLoader_reach (guard : System → Action → Prop) :
    Reach System.step guard Start bootLoader :=
  .start bootLoader_start

instance (s : System) : (a : Action) → Decidable (s.NoLegacy a)
  | .issue _ .createProcess | .issue _ .createProcessEx => isFalse id
  | .issue _ (.pledge _) | .issue _ (.setuid _) | .issue _ (.setgid _) | .issue _ (.setgroups _)
  | .issue _ (.createProcessV2 _) | .handle _ | .finish _ _ => isTrue trivial

theorem granted_of_reach {s : System} (run : Reach System.step NoLegacy Start s) : s.Granted :=
  run.invariant (fun _ h => .start h) (fun _ _ _ h hguard hstep => h.step hguard hstep)

/-- A spawn that asks for every class of a role and stamps no identity. -/
def plainSpawn (targetRole : Nat) (byPath : Bool) : Request :=
  .createProcessV2 ⟨targetRole, ⟨Class.all, Class.all⟩, SpawnArgs.inheritId, SpawnArgs.inheritId,
    false, none, byPath⟩

/-- Whatever pledges and spawns by `create_process_v2` a run is made of, a process has no
class that its ancestor `a` neither had nor could grant when it spawned the child `c` on
the way, and may grant none that `a` could not. -/
theorem v2_descendants_within_grant {s : System} (run : Reach System.step NoLegacy Start s)
    {a c d : Nat} (hd : Descends s a c d) :
    Sub (s.proc d).permissions.perms
        ((s.proc c).granted.perms ||| (s.proc c).granted.allowedPerms) ∧
      Sub (s.proc d).permissions.allowedPerms (s.proc c).granted.allowedPerms := by
  obtain ⟨-, hwithin⟩ := (granted_of_reach run).descends hd
  exact ⟨hwithin.perms, hwithin.allowed⟩

/-- The loader spawns a shell, the shell spawns a worker by path. -/
def shellThenWorker : List Action :=
  [.issue 0 (plainSpawn Role.shell.id false), .handle true,
    .issue 1 (plainSpawn Role.worker.id true), .handle true, .finish 0 true]

theorem v2_descendants_within_grant_worker :
    ∃ s, Reach System.step NoLegacy Start s ∧ Descends s 0 1 2 ∧ Sub (s.proc 2).permissions.perms
        ((s.proc 1).granted.perms ||| (s.proc 1).granted.allowedPerms) ∧
      Sub (s.proc 2).permissions.allowedPerms (s.proc 1).granted.allowedPerms := by
  obtain ⟨s, run, hcount, hshell, hworker⟩ := Reach.exists_of_exec shellThenWorker
    (fun s => s.count = 3 ∧ (s.proc 1).parent = some 0 ∧ (s.proc 2).parent = some 1)
    (bootLoader_reach NoLegacy) (by decide +kernel)
  have hpath : Descends s 0 1 2 := .step (.child (by omega) hshell) (by omega) hworker
  exact ⟨s, run, hpath, v2_descendants_within_grant run hpath⟩

/-- A process down to spawning, with nothing to grant, gets a child with every class by
`create_process`: the child may use the network, which its parent neither can nor may grant. -/
theorem legacy_spawn_escalates :
    ∃ s, Reach System.step (fun _ _ => True) Start s ∧ Descends s 0 1 1 ∧
      (s.proc 0).permissions = ⟨Class.procSpawn, 0, .loader⟩ ∧
      ¬ Sub (s.proc 1).permissions.perms
        ((s.proc 0).permissions.perms ||| (s.proc 0).permissions.allowedPerms) := by
  obtain ⟨s, run, hcount, hparent, hnarrow, hchild⟩ := Reach.exists_of_exec
    [.issue 0 (.pledge ⟨Class.procSpawn, 0⟩), .handle true, .issue 0 .createProcess, .handle true]
    (fun s => s.count = 2 ∧ (s.proc 1).parent = some 0 ∧
      (s.proc 0).permissions = ⟨Class.procSpawn, 0, .loader⟩ ∧ (s.proc 1).permissions = .all)
    (bootLoader_reach fun _ _ => True) (by decide +kernel)
  refine ⟨s, run, .child (by omega) hparent, hnarrow, ?_⟩
  intro hsub
  rw [hnarrow, hchild] at hsub
  exact absurd (hsub 6 (by decide)) (by decide)

/-- Along a path of `create_process_v2` spawns the role is one the table leads to from the
ancestor's, what may be granted is within what the ancestor `a` could grant when it spawned
the child `c` on the way, and the classes are those of the role or the ancestor's own,
handed on with its role. -/
theorem v2_descendants_confined {s : System} (run : Reach System.step NoLegacy Start s)
    {a c d : Nat} (hd : Descends s a c d) :
    (s.proc a).permissions.role.Reaches (s.proc d).permissions.role ∧
      ((s.proc a).permissions.role ∈ [.shell, .service, .fsTool, .netClient, .worker] →
        (s.proc d).permissions.role ≠ .loader ∧ (s.proc d).permissions.role ≠ .bootstrap) ∧
      Sub (s.proc d).permissions.allowedPerms (s.proc c).granted.allowedPerms ∧
      (Sub (s.proc d).permissions.perms (s.proc d).permissions.role.definition.defaultPerms ∨
        ((s.proc d).permissions.role = (s.proc a).permissions.role ∧
          Sub (s.proc d).permissions.perms (s.proc c).granted.perms)) := by
  obtain ⟨hrole, hwithin⟩ := (granted_of_reach run).descends hd
  have hreach := hwithin.role
  have hprovided := hwithin.provided
  rw [hrole] at hreach hprovided
  refine ⟨hreach, ?_, hwithin.allowed, hprovided⟩
  intro hbelow
  apply hreach.confined
  generalize (s.proc a).permissions.role = role at hbelow
  revert hbelow
  cases role <;> decide

theorem v2_descendants_confined_worker :
    ∃ s, Reach System.step NoLegacy Start s ∧ Descends s 1 2 2 ∧
      (s.proc 1).permissions.role = .shell ∧
      (s.proc 2).permissions.role ≠ .loader ∧ (s.proc 2).permissions.role ≠ .bootstrap := by
  obtain ⟨s, run, hcount, hworker, hshell⟩ := Reach.exists_of_exec shellThenWorker
    (fun s => s.count = 3 ∧ (s.proc 2).parent = some 1 ∧ (s.proc 1).permissions.role = .shell)
    (bootLoader_reach NoLegacy) (by decide +kernel)
  have hpath : Descends s 1 2 2 := .child (by omega) hworker
  obtain ⟨-, hbelow, -, -⟩ := v2_descendants_confined run hpath
  refine ⟨s, run, hpath, hshell, hbelow ?_⟩
  rw [hshell]
  decide

/-- The first process hands its role on, then pledges away all it may grant; its child
still spawns a shell that may grant every class. -/
theorem cap_outlives_pledge :
    ∃ s s', Reach System.step NoLegacy Start s ∧ s.step (.handle true) = some s' ∧
      s.count = 2 ∧ s'.count = 3 ∧ Descends s' 0 1 2 ∧
      ¬ Sub (s'.proc 2).permissions.allowedPerms (s.proc 0).permissions.allowedPerms := by
  obtain ⟨s, run, hcount, hcap, hafter⟩ := Reach.exists_of_exec
    [.issue 0 (plainSpawn Role.inherit false), .handle true,
      .issue 0 (.pledge ⟨Class.all, 0⟩), .handle true, .issue 1 (plainSpawn Role.shell.id false)]
    (fun s => s.count = 2 ∧ (s.proc 0).permissions.allowedPerms = 0 ∧
      (s.step (.handle true)).any (fun s' => s'.count = 3 ∧ (s'.proc 1).parent = some 0 ∧
        (s'.proc 2).parent = some 1 ∧ (s'.proc 2).permissions.allowedPerms = Class.all) = true)
    (bootLoader_reach NoLegacy) (by decide +kernel)
  cases hstep : s.step (.handle true) with
  | none =>
    rw [hstep] at hafter
    cases hafter
  | some s' =>
    rw [hstep] at hafter
    obtain ⟨hcount', hone, htwo, hall⟩ := of_decide_eq_true hafter
    refine ⟨s, s', run, hstep, hcount, hcount', ?_, ?_⟩
    · exact .step (.child (by omega) hone) (by omega) htwo
    rw [hall, hcap]
    intro hsub
    exact absurd (hsub 0 (by decide)) (by decide)

end System

end Orbit.Perm
