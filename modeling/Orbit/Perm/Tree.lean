import Orbit.Perm.Roles
import Orbit.Transition.Run

/-!
Processes, their permissions and their credentials. A process is named by its birth, so
that it keeps its name after it is gone. A request passes the permission gate when it is
issued and is handled later; a spawn by path keeps what it took from its parent until
the last page of the program is there. `granted` is ghost: what the parent had when the
spawn was handled.
-/

namespace Orbit.Perm

structure Credentials where
  uid : Nat
  euid : Nat
  suid : Nat
  gid : Nat
  egid : Nat
  sgid : Nat
  groups : List Nat

/-- `Process::new` -/
def Credentials.root : Credentials := ⟨0, 0, 0, 0, 0, 0, []⟩

namespace Credentials

/-- `run_setuid` -/
def setuid (c : Credentials) (uid : Nat) : Credentials :=
  if c.euid = 0 then { c with uid, euid := uid, suid := uid }
  else if uid = c.uid ∨ uid = c.suid then { c with euid := uid }
  else c

/-- `run_setgid` -/
def setgid (c : Credentials) (gid : Nat) : Credentials :=
  if c.euid = 0 then { c with gid, egid := gid, sgid := gid }
  else if gid = c.gid ∨ gid = c.sgid then { c with egid := gid }
  else c

def ngroupsMax : Nat := 16

/-- `run_setgroups`, once the list is read -/
def setgroups (c : Credentials) (groups : List Nat) : Credentials :=
  if ngroupsMax < groups.length then c
  else if c.euid ≠ 0 then c
  else { c with groups }

/-- The triplet of a child: an override three times, or the parent's. -/
def inherited (c : Credentials) (uid gid : Option Nat) (groups : Option (List Nat)) : Credentials :=
  let c := match uid with
    | some uid => { c with uid, euid := uid, suid := uid }
    | none => c
  let c := match gid with
    | some gid => { c with gid, egid := gid, sgid := gid }
    | none => c
  { c with groups := groups.getD c.groups }

end Credentials

structure Proc where
  parent : Option Nat
  permissions : Permissions
  credentials : Credentials
  granted : Permissions

/-- The arguments of `create_process_v2` that decide who the child is. -/
structure SpawnArgs where
  targetRole : Nat
  request : PermsRequest
  setuidUid : Int
  setuidGid : Int
  stampsLogin : Bool
  groups : Option (List Nat)
  byPath : Bool
  deriving DecidableEq, Repr

namespace SpawnArgs

/-- `INHERIT_ID` -/
def inheritId : Int := -1

def stampsIdentity (a : SpawnArgs) : Bool :=
  a.setuidUid != inheritId || a.setuidGid != inheritId || a.stampsLogin || a.groups.isSome

/-- An id to stamp: none to inherit, and an error outside 32 bits. -/
def idOverride (v : Int) : Option (Option Nat) :=
  if v = inheritId then some none
  else if 0 ≤ v ∧ v < 2 ^ 32 then some (some v.toNat)
  else none

end SpawnArgs

/-- `SpawnContext`: what an unfinished spawn keeps of its parent. -/
structure SpawnContext where
  parent : Nat
  childPerms : Permissions
  credentials : Credentials
  granted : Permissions

inductive Request where
  | pledge (request : PermsRequest)
  | setuid (uid : Nat)
  | setgid (gid : Nat)
  | setgroups (groups : List Nat)
  | createProcess
  | createProcessEx
  | createProcessV2 (args : SpawnArgs)
  deriving DecidableEq, Repr

/-- `class_for` -/
def Request.classFor : Request → Nat
  | .pledge _ => Class.pledge
  | .setuid _ | .setgid _ | .setgroups _ => Class.procCred
  | .createProcess | .createProcessEx | .createProcessV2 _ => Class.procSpawn

structure System where
  count : Nat
  proc : Nat → Proc
  queue : List (Nat × Request)
  spawns : List SpawnContext

inductive Action where
  /-- a thread of a process traps into the kernel -/
  | issue (p : Nat) (r : Request)
  /-- the manager takes the next request; it may fail for want of memory or for a
  buffer it cannot read -/
  | handle (succeeds : Bool)
  /-- the last page of an unfinished spawn is there -/
  | finish (i : Nat) (succeeds : Bool)
  deriving DecidableEq, Repr

namespace System

def update (s : System) (p : Nat) (q : Proc) : System :=
  { s with proc := fun i => if i = p then q else s.proc i }

def birth (s : System) (q : Proc) : System :=
  { s with count := s.count + 1, proc := fun i => if i = s.count then q else s.proc i }

/-- The gate: the class of the call is among the permissions of the caller. -/
def gate (s : System) (p : Nat) (r : Request) : Bool :=
  p < s.count && (s.proc p).permissions.perms &&& r.classFor == r.classFor

/-- `install_spawn` past its checks -/
def install (s : System) (c : SpawnContext) : System :=
  s.birth ⟨some c.parent, c.childPerms, c.credentials, c.granted⟩

/-- The spawn that `create_process_v2` gets to, if its checks pass. -/
def spawnContext (s : System) (p : Nat) (a : SpawnArgs) : Option SpawnContext :=
  let parent := s.proc p
  if a.stampsIdentity && parent.permissions.role != .loader then none
  else
    match SpawnArgs.idOverride a.setuidUid, SpawnArgs.idOverride a.setuidGid with
    | some uid, some gid =>
      if Credentials.ngroupsMax < (a.groups.getD []).length then none
      else
        match checkTransition parent.permissions.role a.targetRole with
        | .error _ => none
        | .ok t =>
          -- bytes handed over directly are taken from the loader only
          if !a.byPath && parent.permissions.role != .loader then none
          else some ⟨p, deriveChildPerms parent.permissions t a.request,
            parent.credentials.inherited uid gid a.groups, parent.permissions⟩
    | _, _ => none

def handle (s : System) (p : Nat) (r : Request) (succeeds : Bool) : System :=
  let q := s.proc p
  match r with
  | .pledge request =>
    if succeeds then s.update p { q with permissions := q.permissions.pledge request } else s
  | .setuid uid => s.update p { q with credentials := q.credentials.setuid uid }
  | .setgid gid => s.update p { q with credentials := q.credentials.setgid gid }
  | .setgroups groups =>
    if succeeds then s.update p { q with credentials := q.credentials.setgroups groups } else s
  | .createProcess | .createProcessEx =>
    if succeeds then s.birth ⟨some p, .all, .root, q.permissions⟩ else s
  | .createProcessV2 a =>
    match s.spawnContext p a with
    | none => s
    | some c =>
      if a.byPath then { s with spawns := s.spawns ++ [c] }
      else if succeeds then s.install c else s

def step (s : System) : Action → Option System
  | .issue p r => if s.gate p r then some { s with queue := s.queue ++ [(p, r)] } else none
  | .handle succeeds =>
    match s.queue with
    | [] => none
    | (p, r) :: rest => some ({ s with queue := rest }.handle p r succeeds)
  | .finish i succeeds =>
    match s.spawns[i]? with
    | none => none
    | some c =>
      let s := { s with spawns := s.spawns.eraseIdx i }
      some (if succeeds then s.install c else s)

/-- One process, with any permissions and credentials, and nothing under way. -/
def Start (s : System) : Prop :=
  s.count = 1 ∧ (s.proc 0).parent = none ∧ s.queue = [] ∧ s.spawns = []

/-- `d` descends from `a` by way of the child `c` of `a`. -/
inductive Descends (s : System) (a c : Nat) : Nat → Prop where
  | child (h : c < s.count) (hp : (s.proc c).parent = some a) : Descends s a c c
  | step {d e : Nat} (before : Descends s a c d) (h : e < s.count)
      (hp : (s.proc e).parent = some d) : Descends s a c e

end System

end Orbit.Perm
