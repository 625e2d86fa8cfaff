import Mathlib.Data.List.Nodup
import Mathlib.Data.List.Sort
import Orbit.Transition.Run

/-!
Sockets of the network thread and the names other parts of the kernel have for them. The
manager knows a socket by its handle alone: a process keeps the handles of its sockets
until it ends, and hands them to the network thread for deletion. The network thread
also removes a socket when its channel is revoked, and does not tell the manager.

Processes and channels are named by birth, so that a pid or a handle that is used again
can be told from the first. `ended` and `removals` are ghost.
-/

namespace Orbit.Net

/-- A net channel: `SharedUserPtr` with its owner. -/
structure Channel where
  pid : Nat
  owner : Nat
  tcp : Bool
  revoked : Bool

/-- Where `k_net` is in its loop. -/
inductive Phase where
  | draining
  | pruning
  | updating
  | pruningAgain
  | serving
  deriving DecidableEq

/-- Where the manager is in `dealloc_process`. -/
inductive Manager where
  | idle
  /-- the handles of the process go to the deletion queue -/
  | unlisting (owner : Nat) (leaving : List Nat)
  /-- its channels are revoked one after the other -/
  | revoking (channels : List Nat)
  deriving DecidableEq

/-- A socket taken out of the set, and whether its channel was revoked or its process
had ended. -/
structure Removal where
  channel : Nat
  due : Bool
  deriving DecidableEq

structure State where
  births : Nat
  alive : Nat → Option Nat
  ended : Nat → Bool
  count : Nat
  channel : Nat → Channel
  /-- `Process::sockets`, the highest handle first, as `pop_last` takes them -/
  named : Nat → List Nat
  reqs : Nat → List Nat
  associations : List (Nat × Nat)
  deletions : List Nat
  orphaned : List Nat
  /-- `user_conns` -/
  conns : Nat → Option Nat
  /-- the handles in the `SocketSet` -/
  sockets : Nat → Bool
  phase : Phase
  manager : Manager
  removals : List Removal
  fault : Bool

inductive Action where
  | spawn (pid : Nat)
  /-- `run_nc_create_req` on a hart -/
  | create (pid hart : Nat) (tcp : Bool)
  /-- `run_close_req` of a channel -/
  | close (pid channel : Nat)
  /-- `dealloc_process` starts -/
  | exit (pid : Nat)
  | unlist
  | revoke
  /-- one round of `check_net` -/
  | checkNet
  /-- one round of `drain_socket_deletions` -/
  | drain
  /-- `prune_revoked_conns`: the handles it has read as revoked -/
  | prune (handles : List Nat)
  | update
  /-- a request of a hart, and the handle that `SocketSet::add` gives -/
  | serve (hart handle : Nat)
  | loopAgain
  deriving DecidableEq, Repr

namespace State

/-- `heapless::spsc::Queue<_, 8>` -/
def queueRoom : Nat := 7

def setChannel (s : State) (c : Nat) (v : Channel) : State :=
  { s with channel := fun i => if i = c then v else s.channel i }

/-- Its channel is revoked or its process has ended. -/
def due (s : State) (c : Nat) : Bool := (s.channel c).revoked || s.ended (s.channel c).owner

/-- `SocketSet::remove`, which panics on a handle that is not there. -/
def removeSocket (s : State) (h c : Nat) : State :=
  if s.sockets h then
    let r := ⟨c, s.due c⟩
    { s with
      sockets := fun i => if i = h then false else s.sockets i
      removals := s.removals ++ [r] }
  else { s with fault := true }

/-- `conns.remove(&k)` and, if the handle was there, the socket. -/
def dropConn (s : State) (h : Nat) : State :=
  match s.conns h with
  | none => s
  | some c => State.removeSocket { s with conns := fun i => if i = h then none else s.conns i } h c

/-- `conns` has the handle, with a revoked channel. -/
def revokedConn (s : State) (h : Nat) : Bool :=
  match s.conns h with
  | none => false
  | some c => (s.channel c).revoked

def enqueueDeletion (s : State) (h : Nat) : State :=
  if s.deletions.length < queueRoom then { s with deletions := s.deletions ++ [h] } else s

/-- Deletion from `dealloc_process`: what does not fit is kept in `orphaned_sockets`. -/
def deleteOrOrphan (s : State) (h : Nat) : State :=
  if s.deletions.length < queueRoom then { s with deletions := s.deletions ++ [h] }
  else { s with orphaned := s.orphaned ++ [h] }

def revokeChannel (s : State) (c : Nat) : State :=
  s.setChannel c { s.channel c with revoked := true }

/-- `process.sockets.insert(handle)` -/
def associate (s : State) (pid h : Nat) : State :=
  let l := if h ∈ s.named pid then s.named pid else (s.named pid).orderedInsert (· ≥ ·) h
  { s with named := fun i => if i = pid then l else s.named i }

/-- A request of a hart: a socket for it, under the handle the set gives. -/
def serveReq (s : State) (c h : Nat) : State :=
  let s := { s with
    sockets := fun i => if i = h then true else s.sockets i
    conns := fun i => if i = h then some c else s.conns i }
  if s.associations.length < queueRoom then
    { s with associations := s.associations ++ [((s.channel c).pid, h)] }
  else s

def step (s : State) : Action → Option State
  | .spawn pid =>
    if s.manager = .idle ∧ s.alive pid = none then
      some { s with
        births := s.births + 1
        alive := fun i => if i = pid then some s.births else s.alive i
        named := fun i => if i = pid then [] else s.named i }
    else none
  | .create pid hart tcp =>
    match s.manager, s.alive pid with
    | .idle, some owner =>
      let c := s.count
      let s := State.setChannel { s with count := s.count + 1 } c ⟨pid, owner, tcp, false⟩
      -- a full queue fails the call, and leaves the channel with its handle
      some (if (s.reqs hart).length < queueRoom then
        { s with reqs := fun i => if i = hart then s.reqs hart ++ [c] else s.reqs i }
      else s)
    | _, _ => none
  | .close pid c =>
    match s.manager, s.alive pid with
    | .idle, some owner =>
      if c < s.count ∧ (s.channel c).owner = owner then some (s.revokeChannel c) else none
    | _, _ => none
  | .exit pid =>
    match s.manager, s.alive pid with
    | .idle, some owner =>
      some { s with
        alive := fun i => if i = pid then none else s.alive i
        ended := fun i => if i = owner then true else s.ended i
        named := fun i => if i = pid then [] else s.named i
        manager := .unlisting owner (s.named pid) }
    | _, _ => none
  | .unlist =>
    match s.manager with
    | .unlisting owner (h :: rest) =>
      some { s.deleteOrOrphan h with manager := .unlisting owner rest }
    | .unlisting owner [] =>
      -- to revoke a channel that was closed before changes nothing
      some { s with
        manager := .revoking ((List.range s.count).filter fun c => (s.channel c).owner = owner) }
    | _ => none
  | .revoke =>
    match s.manager with
    | .revoking (c :: rest) => some { s.revokeChannel c with manager := .revoking rest }
    | .revoking [] => some { s with manager := .idle }
    | _ => none
  | .checkNet =>
    match s.manager, s.associations with
    | .idle, (pid, h) :: rest =>
      let s := { s with associations := rest }
      some (if (s.alive pid).isSome then s.associate pid h else s.enqueueDeletion h)
    | _, _ => none
  | .drain =>
    if s.phase = .draining then
      match s.deletions with
      | h :: rest => some (State.dropConn { s with deletions := rest } h)
      | [] => some { s with phase := .pruning }
    else none
  | .prune handles =>
    if handles.Nodup ∧ ∀ h ∈ handles, s.revokedConn h then
      match s.phase with
      | .pruning => some { handles.foldl dropConn s with phase := .updating }
      | .pruningAgain => some { handles.foldl dropConn s with phase := .serving }
      | _ => none
    else none
  | .update => if s.phase = .updating then some { s with phase := .pruningAgain } else none
  | .serve hart h =>
    if s.phase = .serving then
      match s.reqs hart with
      | [] => none
      | c :: rest =>
        let s := { s with reqs := fun i => if i = hart then rest else s.reqs i }
        if (s.channel c).tcp then if s.sockets h then none else some (s.serveReq c h)
        else some s
    else none
  | .loopAgain => if s.phase = .serving then some { s with phase := .draining } else none

/-- `k_net` at its start: the DHCP socket is the only one. -/
def boot : State where
  births := 0
  alive := fun _ => none
  ended := fun _ => false
  count := 0
  channel := fun _ => ⟨0, 0, false, false⟩
  named := fun _ => []
  reqs := fun _ => []
  associations := []
  deletions := []
  orphaned := []
  conns := fun _ => none
  sockets := fun h => h == 0
  phase := .draining
  manager := .idle
  removals := []
  fault := false

end State

end Orbit.Net
