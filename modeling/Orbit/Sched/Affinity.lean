import Orbit.Mem.Layout
import Orbit.Sched.Manager
import Orbit.Transition.Run

/-!
Which harts a thread may run on. `allowed_affinity` is set when the thread is made and
never written again; `affinity` is what its own `set_affinity` calls leave there. A thread
is made by a spawn, with masks checked against the harts there are, or by the
`create_thread` call of a sibling, whose cap the request carries with it to the manager.

Threads are numbered in the order they are made, so that a thread keeps its number after
it has exited. `creator` is ghost: the thread whose `create_thread` made this one.
-/

namespace Orbit.Sched.Affinity

open Orbit.Abi Transition Function

structure Thread where
  pid : Pid
  allowedAffinity : UInt64
  affinity : UInt64
  exited : Bool
  creator : Option Nat

variable {n : Nat} {t : Thread}

structure CreateThreadReq where
  entry : Nat
  allowedAffinity : UInt64
  affinity : UInt64

/-- Requests on their way to the manager. -/
inductive Work where
  | createThread (req : CreateThreadReq) (pid : Pid) (parentAllowed : UInt64) (creator : Nat)
  /-- `create_process`, `create_process_ex` or `create_process_v2` -/
  | createProcess (allowedAffinity affinity : UInt64)

structure State where
  cpuCount : Nat
  count : Nat
  thread : Nat → Thread
  work : List Work

/-- The affinity check that `run_create_process_req`, `run_create_process_ex_req` and
`install_spawn` share. -/
def spawnAffinity (allHarts allowed affinity : UInt64) : Except Errno (UInt64 × UInt64) :=
  let allowed := if allowed = 0 then allHarts else allowed
  let affinity := if affinity = 0 then allowed else affinity
  if allowed &&& ~~~allHarts ≠ 0 ∨ affinity &&& ~~~allowed ≠ 0 ∨ affinity = 0 then .error .einval
  else .ok (allowed, affinity)

/-- The checks of the `create_thread` syscall before the request is queued. -/
def checkCreateThread (req : CreateThreadReq) : Except Errno Unit :=
  if !Mem.userVa req.entry then .error .efault
  else if req.allowedAffinity ≠ 0 ∧ req.affinity ≠ 0 ∧
    req.affinity &&& ~~~req.allowedAffinity ≠ 0 then
    .error .einval
  else .ok ()

/-- The `set_affinity` syscall. -/
def setAffinity (t : Thread) (mask : UInt64) : Except Errno Thread :=
  if mask = 0 then .error .einval
  else if mask &&& ~~~t.allowedAffinity ≠ 0 then .error .eperm
  else .ok { t with affinity := mask }

namespace State

def setThread (s : State) (i : Nat) (t : Thread) : State :=
  { s with thread := update s.thread i t }

/-- A new thread with the next number. -/
def add (s : State) (t : Thread) : State :=
  { s with thread := update s.thread s.count t, count := s.count + 1 }

/-- The manager takes up a request. `pid` is the process of a spawn's first thread; `ok` says
whether everything else the request needs is there: the process, its memory, the thread's slot. -/
def handle (s : State) (ok : Bool) (pid : Pid) : Work → State
  | .createThread req pid parentAllowed creator =>
    match resolveAffinity (allHartsMask s.cpuCount) parentAllowed req.allowedAffinity
      req.affinity with
    | .error _ => s
    | .ok (allowed, affinity) =>
      if ok then s.add ⟨pid, allowed, affinity, false, some creator⟩ else s
  | .createProcess allowed affinity =>
    match spawnAffinity (allHartsMask s.cpuCount) allowed affinity with
    | .error _ => s
    | .ok (allowed, affinity) => if ok then s.add ⟨pid, allowed, affinity, false, none⟩ else s

end State

inductive Action where
  | createThread (i : Nat) (req : CreateThreadReq)
  | spawn (i : Nat) (allowed affinity : UInt64)
  | setAffinity (i : Nat) (mask : UInt64)
  | exit (i : Nat)
  /-- the manager takes up the `k`-th request; path-mode spawns finish out of order -/
  | handle (k : Nat) (ok : Bool) (pid : Pid)

def Live (s : State) (i : Nat) : Prop := i < s.count ∧ (s.thread i).exited = false

instance (s : State) (i : Nat) : Decidable (Live s i) := inferInstanceAs (Decidable (_ ∧ _))

def step (s : State) : Action → Option State
  | .createThread i req =>
    if Live s i then
      match checkCreateThread req with
      | .error _ => some s
      | .ok () =>
        if s.work.length < workCap then
          some { s with work := s.work ++
            [.createThread req (s.thread i).pid (s.thread i).allowedAffinity i] }
        else some s
    else none
  | .spawn i allowed affinity =>
    if Live s i ∧ s.work.length < workCap then
      some { s with work := s.work ++ [.createProcess allowed affinity] }
    else none
  | .setAffinity i mask =>
    if Live s i then
      match setAffinity (s.thread i) mask with
      | .error _ => some s
      | .ok t => some (s.setThread i t)
    else none
  | .exit i => if Live s i then some (s.setThread i { s.thread i with exited := true }) else none
  | .handle k ok pid =>
    match s.work[k]? with
    | none => none
    | some w => some ({ s with work := s.work.eraseIdx k }.handle ok pid w)

/-- One thread, made at boot with every hart there is. -/
def Start (s : State) : Prop :=
  0 < s.cpuCount ∧ s.count = 1 ∧ s.work = [] ∧
    ∃ pid, s.thread 0 = ⟨pid, allHartsMask s.cpuCount, allHartsMask s.cpuCount, false, none⟩

/-! Masks as sets of harts. -/

/-- `h` is in the mask. -/
def Names (mask : UInt64) (h : Nat) : Prop := mask.toBitVec.getLsbD h = true

/-- Every hart of the one mask is in the other. -/
def Sub (a b : UInt64) : Prop := ∀ h, Names a h → Names b h

theorem Sub.refl (a : UInt64) : Sub a a := fun _ h => h

theorem Sub.trans {a b c : UInt64} (hab : Sub a b) (hbc : Sub b c) : Sub a c :=
  fun h hh => hbc h (hab h hh)

/-- The source's test for a subset. -/
theorem sub_iff (a b : UInt64) : a &&& ~~~b = 0 ↔ Sub a b := by
  constructor
  · intro heq h hh
    have hbit : (a &&& ~~~b).toBitVec.getLsbD h = false := by simp [heq]
    have hlt : h < 64 := BitVec.lt_of_getLsbD hh
    simpa [Names, hlt, show a.toBitVec.getLsbD h = true from hh] using hbit
  intro hsub
  apply UInt64.toBitVec_inj.mp
  apply BitVec.eq_of_getLsbD_eq
  intro h hlt
  have := hsub h
  simp only [Names] at this
  simp only [UInt64.toBitVec_and, UInt64.toBitVec_not, BitVec.getLsbD_and, BitVec.getLsbD_not, hlt,
    decide_true, Bool.true_and, UInt64.toBitVec_ofNat, BitVec.getLsbD_zero]
  cases ha : a.toBitVec.getLsbD h with
  | false => rfl
  | true => simp [this ha]

theorem names_allHartsMask (n h : Nat) : Names (allHartsMask n) h ↔ h < n ∧ h < 64 := by
  unfold Names allHartsMask
  split
  · simp only [UInt64.toBitVec_ofNat', BitVec.getLsbD_ofNat, Nat.testBit_two_pow_sub_one,
      Bool.and_eq_true, decide_eq_true_eq]
    omega
  simp only [UInt64.toBitVec_ofNat', BitVec.getLsbD_ofNat, Nat.testBit_two_pow_sub_one,
    Bool.and_eq_true, decide_eq_true_eq]
  omega

theorem allHartsMask_ne_zero (hn : 0 < n) : allHartsMask n ≠ 0 := by
  intro h
  have hnames := (names_allHartsMask n 0).mpr ⟨hn, by decide⟩
  rw [h] at hnames
  cases hnames

/-! The checks. -/

/-- Masks a thread may have. -/
structure Masks (cpuCount : Nat) (allowed affinity : UInt64) : Prop where
  nonempty : affinity ≠ 0
  within : Sub affinity allowed
  harts : ∀ h, Names allowed h → h < cpuCount

theorem spawnAffinity_ok {req aff allowed affinity : UInt64}
    (h : spawnAffinity (allHartsMask n) req aff = .ok (allowed, affinity)) :
    Masks n allowed affinity := by
  simp only [spawnAffinity] at h
  -- the two defaults play no part in what the check lets through
  generalize (if req = 0 then allHartsMask n else req) = cap at h
  generalize (if aff = 0 then cap else aff) = mask at h
  split at h
  · cases h
  next hno =>
  simp only [not_or, not_not, sub_iff] at hno
  obtain ⟨hharts, hwithin, hne⟩ := hno
  obtain ⟨rfl, rfl⟩ := Prod.mk.inj (Except.ok.inj h)
  exact ⟨hne, hwithin, fun i hi => ((names_allHartsMask n i).mp (hharts i hi)).1⟩

theorem resolveAffinity_ok {parent req aff allowed affinity : UInt64}
    (h : resolveAffinity (allHartsMask n) parent req aff = .ok (allowed, affinity)) :
    Masks n allowed affinity ∧ Sub allowed parent := by
  simp only [resolveAffinity] at h
  generalize (if req = 0 then parent else req) = cap at h
  generalize (if aff = 0 then cap else aff) = mask at h
  split at h
  · cases h
  next hparent =>
  split at h
  · cases h
  next hno =>
  simp only [not_or, not_not, sub_iff] at hno hparent
  obtain ⟨hwithin, hne, hharts⟩ := hno
  obtain ⟨rfl, rfl⟩ := Prod.mk.inj (Except.ok.inj h)
  exact ⟨⟨hne, hwithin, fun i hi => ((names_allHartsMask n i).mp (hharts i hi)).1⟩, hparent⟩

theorem setAffinity_ok {t t' : Thread} {mask : UInt64} (h : setAffinity t mask = .ok t') :
    mask ≠ 0 ∧ Sub mask t.allowedAffinity ∧ t' = { t with affinity := mask } := by
  simp only [setAffinity] at h
  split at h
  · cases h
  next hne =>
  split at h
  · cases h
  next hsub =>
  rw [not_not, sub_iff] at hsub
  exact ⟨hne, hsub, (Except.ok.inj h).symm⟩

/-! What holds in every state. -/

/-- Thread `i` was made by the `create_thread` call of thread `c`. -/
def Creates (s : State) (c i : Nat) : Prop := i < s.count ∧ (s.thread i).creator = some c

structure Confined (s : State) : Prop where
  masks : ∀ i, i < s.count → Masks s.cpuCount (s.thread i).allowedAffinity (s.thread i).affinity
  created : ∀ c i, Creates s c i → c < s.count ∧
    Sub (s.thread i).allowedAffinity (s.thread c).allowedAffinity
  /-- a queued request carries the cap of the thread that made it -/
  queued : ∀ req pid parent c, .createThread req pid parent c ∈ s.work →
    c < s.count ∧ (s.thread c).allowedAffinity = parent

namespace Confined

variable {s : State}

theorem start (h : Start s) : Confined s := by
  obtain ⟨hcpus, hcount, hwork, pid, hthread⟩ := h
  constructor
  · intro i hi
    obtain rfl : i = 0 := by omega
    rw [hthread]
    exact ⟨allHartsMask_ne_zero hcpus, .refl _, fun h hh => ((names_allHartsMask _ h).mp hh).1⟩
  · rintro c i ⟨hi, hc⟩
    obtain rfl : i = 0 := by omega
    rw [hthread] at hc
    cases hc
  intro req pid parent c hmem
  rw [hwork] at hmem
  cases hmem

variable (h : Confined s)

include h

/-- The queue changes. -/
theorem requeue {work : List Work}
    (hwork : ∀ req pid parent c, .createThread req pid parent c ∈ work →
      c < s.count ∧ (s.thread c).allowedAffinity = parent) :
    Confined { s with work } :=
  ⟨h.masks, h.created, hwork⟩

/-- A thread changes and keeps its cap and its creator. -/
theorem setThread {i : Nat} (hallowed : t.allowedAffinity = (s.thread i).allowedAffinity)
    (hcreator : t.creator = (s.thread i).creator)
    (hmasks : i < s.count → Masks s.cpuCount t.allowedAffinity t.affinity) :
    Confined (s.setThread i t) := by
  have keeps : ∀ j, ((s.setThread i t).thread j).allowedAffinity = (s.thread j).allowedAffinity ∧
      ((s.setThread i t).thread j).creator = (s.thread j).creator := by
    intro j
    by_cases hj : j = i
    · subst hj
      simp [State.setThread, hallowed, hcreator]
    · simp [State.setThread, update_of_ne hj]
  constructor
  · intro j hj
    by_cases hji : j = i
    · subst hji
      simpa [State.setThread] using hmasks hj
    · simpa [State.setThread, update_of_ne hji] using h.masks j hj
  · rintro c j ⟨hj, hc⟩
    rw [(keeps j).2] at hc
    rw [(keeps j).1, (keeps c).1]
    exact h.created c j ⟨hj, hc⟩
  intro req pid parent c hmem
  rw [(keeps c).1]
  exact h.queued req pid parent c hmem

/-- A thread is added whose cap is within that of its creator. -/
theorem add (hmasks : Masks s.cpuCount t.allowedAffinity t.affinity)
    (hcreator : ∀ c, t.creator = some c → c < s.count ∧
      Sub t.allowedAffinity (s.thread c).allowedAffinity) : Confined (s.add t) := by
  have old : ∀ j, j < s.count → (s.add t).thread j = s.thread j :=
    fun j hj => update_of_ne (Nat.ne_of_lt hj) _ _
  have new : (s.add t).thread s.count = t := update_self _ _ _
  have cases_lt : ∀ j, j < (s.add t).count → j < s.count ∨ j = s.count :=
    fun j hj => Nat.lt_succ_iff_lt_or_eq.mp hj
  constructor
  · intro j hj
    rcases cases_lt j hj with hj | rfl
    · rw [old j hj]
      exact h.masks j hj
    · rw [new]
      exact hmasks
  · rintro c j ⟨hj, hc⟩
    have hcap : c < s.count ∧ Sub ((s.add t).thread j).allowedAffinity
        (s.thread c).allowedAffinity := by
      rcases cases_lt j hj with hj | rfl
      · rw [old j hj] at hc ⊢
        exact h.created c j ⟨hj, hc⟩
      · rw [new] at hc ⊢
        exact hcreator c hc
    rw [old c hcap.1]
    exact ⟨Nat.lt_succ_of_lt hcap.1, hcap.2⟩
  intro req pid parent c hmem
  have hc := h.queued req pid parent c hmem
  rw [old c hc.1]
  exact ⟨Nat.lt_succ_of_lt hc.1, hc.2⟩

theorem handle {ok : Bool} {pid : Pid} {w : Work}
    (hw : ∀ req pid parent c, w = .createThread req pid parent c →
      c < s.count ∧ (s.thread c).allowedAffinity = parent) : Confined (s.handle ok pid w) := by
  cases w with
  | createThread req pid parent c =>
    obtain ⟨hc, hparent⟩ := hw req pid parent c rfl
    simp only [State.handle]
    split
    · exact h
    next allowed affinity hres =>
    obtain ⟨hmasks, hsub⟩ := resolveAffinity_ok hres
    split
    · refine h.add hmasks fun c' hc' => ?_
      cases hc'
      exact ⟨hc, hparent ▸ hsub⟩
    · exact h
  | createProcess allowed affinity =>
    simp only [State.handle]
    split
    · exact h
    next hres =>
    split
    · exact h.add (spawnAffinity_ok hres) (fun c hc => nomatch hc)
    · exact h

theorem step {s' : State} {a : Action} (hstep : step s a = some s') :
    Confined s' := by
  cases a with
  | createThread i req =>
    simp only [Affinity.step] at hstep
    split at hstep
    · next live =>
      split at hstep
      · exact Option.some.inj hstep ▸ h
      split at hstep
      · cases hstep
        refine h.requeue fun req' pid parent c hmem => ?_
        rcases List.mem_append.mp hmem with hmem | hmem
        · exact h.queued req' pid parent c hmem
        -- the request just queued: its cap is read off the calling thread
        simp only [List.mem_singleton, Work.createThread.injEq] at hmem
        obtain ⟨-, -, rfl, rfl⟩ := hmem
        exact ⟨live.1, rfl⟩
      · exact Option.some.inj hstep ▸ h
    · cases hstep
  | spawn i allowed affinity =>
    simp only [Affinity.step] at hstep
    split at hstep
    · cases hstep
      refine h.requeue fun req pid parent c hmem => ?_
      simp only [List.mem_append, List.mem_singleton, reduceCtorEq, or_false] at hmem
      exact h.queued req pid parent c hmem
    · cases hstep
  | setAffinity i mask =>
    simp only [Affinity.step] at hstep
    split at hstep
    · split at hstep
      · exact Option.some.inj hstep ▸ h
      next hset =>
      obtain ⟨hne, hsub, rfl⟩ := setAffinity_ok hset
      cases hstep
      exact h.setThread rfl rfl fun hi => ⟨hne, hsub, (h.masks i hi).harts⟩
    · cases hstep
  | exit i =>
    simp only [Affinity.step] at hstep
    split at hstep
    · cases hstep
      exact h.setThread rfl rfl (h.masks i)
    · cases hstep
  | handle k ok pid =>
    simp only [Affinity.step] at hstep
    split at hstep
    · cases hstep
    next w hw =>
    cases hstep
    have hmem : w ∈ s.work := List.mem_of_getElem? hw
    apply handle
    · exact h.requeue fun req pid parent c hc =>
        h.queued req pid parent c (List.mem_of_mem_eraseIdx hc)
    · rintro req pid parent c rfl
      exact h.queued req pid parent c hmem

/-- Along a chain of creations the cap only narrows. -/
theorem chain {a d : Nat} (hchain : Relation.TransGen (Creates s) a d) :
    Sub (s.thread d).allowedAffinity (s.thread a).allowedAffinity := by
  induction hchain with
  | single hc => exact (h.created _ _ hc).2
  | tail _ hc ih => exact (h.created _ _ hc).2.trans ih

end Confined

/-- In every run from boot, with any number of harts, every thread's mask is a nonempty part of
its cap, the cap names only harts there are, and the cap of a thread made by any chain of
`create_thread` calls is within the cap of the thread the chain starts from. -/
theorem affinity_confined {s : State} (run : Reach step (fun _ _ => True) Start s) :
    (∀ i, i < s.count → (s.thread i).affinity ≠ 0 ∧
      (∀ h, Names (s.thread i).affinity h → Names (s.thread i).allowedAffinity h) ∧
      (∀ h, Names (s.thread i).allowedAffinity h → h < s.cpuCount)) ∧
    ∀ a d, Relation.TransGen (Creates s) a d →
      ∀ h, Names (s.thread d).allowedAffinity h → Names (s.thread a).allowedAffinity h := by
  have h : Confined s := run.invariant (fun _ => Confined.start) fun _ _ _ h _ => h.step
  refine ⟨fun i hi => ?_, fun a d => h.chain⟩
  obtain ⟨hne, hwithin, hharts⟩ := h.masks i hi
  exact ⟨hne, hwithin, hharts⟩

/-- Four harts and the first thread. -/
def boot : State where
  cpuCount := 4
  count := 1
  thread _ := ⟨1, allHartsMask 4, allHartsMask 4, false, none⟩
  work := []

/-- The first thread makes one for harts 0 and 1, which moves to hart 1 and makes a third. -/
def narrowing : List Action :=
  [.createThread 0 ⟨Mem.userTextBase, 3, 0⟩, .handle 0 true 0, .setAffinity 1 2,
    .createThread 1 ⟨Mem.userTextBase, 0, 1⟩, .handle 0 true 0]

theorem affinity_confined_grandchild :
    ∃ s, Reach step (fun _ _ => True) Start s ∧ s.count = 3 ∧ (s.thread 1).affinity = 2 ∧
      (s.thread 2).affinity = 1 ∧
        Sub (s.thread 2).allowedAffinity (s.thread 0).allowedAffinity := by
  have hstart : Reach step (fun _ _ => True) Start boot := .start ⟨by decide, rfl, rfl, 1, rfl⟩
  obtain ⟨s, run, hcount, hfirst, hsecond, hmade, hmade'⟩ := hstart.exists_of_exec narrowing
    (fun s => s.count = 3 ∧ (s.thread 1).affinity = 2 ∧ (s.thread 2).affinity = 1 ∧
      (s.thread 1).creator = some 0 ∧ (s.thread 2).creator = some 1) (by decide +kernel)
  have hchain : Relation.TransGen (Creates s) 0 2 :=
    .tail (.single ⟨by omega, hmade⟩) ⟨by omega, hmade'⟩
  exact ⟨s, run, hcount, hfirst, hsecond, (affinity_confined run).2 0 2 hchain⟩

end Orbit.Sched.Affinity
