import Mathlib.Data.Nat.Bitwise

/-!
Permission classes and roles: the masks, the table of roles with the transitions it
allows, and how the permissions of a child follow from those of its parent.
-/

namespace Orbit.Perm

/-- Every class of one mask is in the other. -/
def Sub (a b : Nat) : Prop := ∀ i, a.testBit i = true → b.testBit i = true

namespace Sub

theorem refl (a : Nat) : Sub a a := fun _ h => h

theorem trans {a b c : Nat} (h : Sub a b) (h' : Sub b c) : Sub a c := fun i hi => h' i (h i hi)

theorem and_left (a b : Nat) : Sub (a &&& b) a := by
  intro i hi
  rw [Nat.testBit_and, Bool.and_eq_true] at hi
  exact hi.1

theorem and_right (a b : Nat) : Sub (a &&& b) b := by
  intro i hi
  rw [Nat.testBit_and, Bool.and_eq_true] at hi
  exact hi.2

theorem or_left (a b : Nat) : Sub a (a ||| b) := by
  intro i hi
  rw [Nat.testBit_or, hi, Bool.true_or]

theorem or_right (a b : Nat) : Sub b (a ||| b) := by
  intro i hi
  rw [Nat.testBit_or, hi, Bool.or_true]

end Sub

namespace Class

def stdio : Nat := 1 <<< 0
def procLife : Nat := 1 <<< 1
def procSpawn : Nat := 1 <<< 2
def sched : Nat := 1 <<< 3
def vmem : Nat := 1 <<< 4
def vmemShared : Nat := 1 <<< 5
def netch : Nat := 1 <<< 6
def fsRo : Nat := 1 <<< 7
def futex : Nat := 1 <<< 8
def stats : Nat := 1 <<< 9
def pledge : Nat := 1 <<< 10
def procCred : Nat := 1 <<< 11

def all : Nat :=
  stdio ||| procLife ||| procSpawn ||| sched ||| vmem ||| vmemShared ||| netch ||| fsRo |||
    futex ||| stats ||| pledge ||| procCred

end Class

inductive Role where
  | noRole
  | bootstrap
  | loader
  | shell
  | netClient
  | fsTool
  | worker
  | service
  deriving DecidableEq, Repr

namespace Role

def id : Role → Nat
  | .noRole => 0
  | .bootstrap => 1
  | .loader => 2
  | .shell => 3
  | .netClient => 4
  | .fsTool => 5
  | .worker => 6
  | .service => 7

/-- `role_def`: the roles the registry has. -/
def ofId : Nat → Option Role
  | 0 => some .noRole
  | 1 => some .bootstrap
  | 2 => some .loader
  | 3 => some .shell
  | 4 => some .netClient
  | 5 => some .fsTool
  | 6 => some .worker
  | 7 => some .service
  | _ => none

/-- `role::INHERIT` -/
def inherit : Nat := 2 ^ 32 - 1

end Role

structure RoleDef where
  defaultPerms : Nat
  defaultAllowed : Nat
  transitions : Nat

def RoleDef.allowsTransition (d : RoleDef) (target : Nat) : Bool :=
  if 64 ≤ target then false else d.transitions &&& (1 <<< target) != 0

section

open Orbit.Perm.Class

def shellPerms : Nat :=
  stdio ||| procLife ||| procSpawn ||| sched ||| vmem ||| fsRo ||| stats ||| pledge
def shellAllowed : Nat := all
def netClientPerms : Nat := stdio ||| netch ||| futex ||| vmem ||| pledge
def netClientAllowed : Nat := stdio ||| vmem ||| pledge
def fsToolPerms : Nat := stdio ||| fsRo ||| vmem ||| pledge
def fsToolAllowed : Nat := stdio ||| vmem ||| pledge
def workerPerms : Nat := stdio ||| vmem ||| pledge
def servicePerms : Nat := stdio ||| netch ||| fsRo ||| futex ||| vmem ||| pledge ||| stats
def serviceAllowed : Nat := stdio ||| vmem ||| pledge

def roleBit (r : Role) : Nat := 1 <<< r.id

/-- `ROLES` -/
def Role.definition : Role → RoleDef
  | .noRole => ⟨0, 0, 0⟩
  | .bootstrap => ⟨all, all, roleBit .loader ||| roleBit .shell⟩
  | .loader => ⟨all, all, roleBit .shell ||| roleBit .service ||| roleBit .worker |||
      roleBit .netClient ||| roleBit .fsTool⟩
  | .shell => ⟨shellPerms, shellAllowed, roleBit .netClient ||| roleBit .fsTool ||| roleBit .worker⟩
  | .netClient => ⟨netClientPerms, netClientAllowed, roleBit .worker⟩
  | .fsTool => ⟨fsToolPerms, fsToolAllowed, roleBit .worker⟩
  | .worker => ⟨workerPerms, workerPerms, 0⟩
  | .service => ⟨servicePerms, serviceAllowed, roleBit .worker⟩

end

structure Permissions where
  perms : Nat
  allowedPerms : Nat
  role : Role
  deriving DecidableEq

namespace Permissions

def zero : Permissions := ⟨0, 0, .noRole⟩
def all : Permissions := ⟨Class.all, Class.all, .bootstrap⟩
def loader : Permissions := ⟨Class.all, Class.all, .loader⟩

end Permissions

structure PermsRequest where
  perms : Nat
  allowedPerms : Nat
  deriving DecidableEq, Repr

/-- `Permissions::pledge`: both masks narrow, the role stays. -/
def Permissions.pledge (p : Permissions) (request : PermsRequest) : Permissions :=
  ⟨p.perms &&& request.perms, p.allowedPerms &&& request.allowedPerms, p.role⟩

inductive SpawnDeny where
  | unknownTargetRole
  | transitionDenied

/-- Inherit, or a role the parent may move to. -/
inductive TransitionAllowed where
  | inherit
  | target (role : Role)
  deriving DecidableEq, Repr

def checkTransition (parent : Role) (target : Nat) : Except SpawnDeny TransitionAllowed :=
  if target = Role.inherit then .ok .inherit
  else match Role.ofId target with
    | none => .error .unknownTargetRole
    | some role =>
      if parent.definition.allowsTransition target then .ok (.target role)
      else .error .transitionDenied

def deriveChildPerms (parent : Permissions) (transition : TransitionAllowed)
    (request : PermsRequest) : Permissions :=
  match transition with
  | .inherit => parent
  | .target role =>
    ⟨role.definition.defaultPerms &&& parent.allowedPerms &&& request.perms,
      role.definition.defaultAllowed &&& parent.allowedPerms &&& request.allowedPerms, role⟩

/-- The table lets one role spawn another. -/
def Role.Spawns (r r' : Role) : Prop := r.definition.allowsTransition r'.id = true

instance (r r' : Role) : Decidable (r.Spawns r') := inferInstanceAs (Decidable (_ = true))

/-- Reachable in the table by any number of transitions. -/
def Role.Reaches : Role → Role → Prop := Relation.ReflTransGen Role.Spawns

theorem checkTransition_ok {parent : Role} {target : Nat} {t : TransitionAllowed}
    (h : checkTransition parent target = .ok t) :
    t = .inherit ∨ ∃ role, t = .target role ∧ parent.Spawns role := by
  rw [checkTransition] at h
  split at h
  · cases h
    exact .inl rfl
  split at h
  · cases h
  next role hrole =>
  split at h
  · next hallow =>
    cases h
    right
    refine ⟨role, rfl, ?_⟩
    have hid : role.id = target := by
      unfold Role.ofId at hrole
      split at hrole <;> cases hrole <;> rfl
    rw [Role.Spawns, hid]
    exact hallow
  · cases h

/-- Roles below the loader do not lead back to it or to bootstrap. -/
theorem Role.Reaches.confined {r r' : Role} (h : r.Reaches r')
    (hr : r ≠ .noRole ∧ r ≠ .bootstrap ∧ r ≠ .loader) : r' ≠ .loader ∧ r' ≠ .bootstrap := by
  have hstep : ∀ a b : Role, a.Spawns b → a ≠ .noRole ∧ a ≠ .bootstrap ∧ a ≠ .loader →
      b ≠ .noRole ∧ b ≠ .bootstrap ∧ b ≠ .loader := by
    intro a b
    cases a <;> cases b <;> decide
  have hkeep : r' ≠ .noRole ∧ r' ≠ .bootstrap ∧ r' ≠ .loader := by
    induction h with
    | refl => exact hr
    | tail _ hbc ih => exact hstep _ _ hbc ih
  exact ⟨hkeep.2.2, hkeep.2.1⟩

theorem pledge_sub (p : Permissions) (request : PermsRequest) :
    Sub (p.pledge request).perms p.perms ∧ Sub (p.pledge request).allowedPerms p.allowedPerms :=
  ⟨Sub.and_left _ _, Sub.and_left _ _⟩

/-- A child has no class outside what its parent has or may grant, and may grant no
class its parent may not. -/
theorem deriveChildPerms_sub (parent : Permissions) (t : TransitionAllowed)
    (request : PermsRequest) :
    Sub (deriveChildPerms parent t request).perms (parent.perms ||| parent.allowedPerms) ∧
      Sub (deriveChildPerms parent t request).allowedPerms parent.allowedPerms := by
  cases t with
  | inherit => exact ⟨Sub.or_left _ _, Sub.refl _⟩
  | target role =>
    constructor
    · have hcap := (Sub.and_left (role.definition.defaultPerms &&& parent.allowedPerms)
        request.perms).trans (Sub.and_right _ _)
      exact hcap.trans (Sub.or_right _ _)
    · exact (Sub.and_left _ _).trans (Sub.and_right _ _)

end Orbit.Perm
