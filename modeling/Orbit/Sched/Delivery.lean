import Orbit.Sched.DispatchRight
import Orbit.Sched.Effects

/-!
Delivery of published results. A thread that is Blocking with a filled slot is either
still to be seen by its own hart, which looks into the slot after the Blocking store,
or by the manager, which queued a wake event for it and drains the queue later in the
same pass. The wake queue is bounded and a failed push goes unnoticed, so the second
half needs room in the queue.
-/

namespace Orbit.Sched

open Transition

variable {u : Tid}

variable {s s' : State} {a : Action} {t : Tid} {h : Nat}

def After.delivering : After → Prop
  | .scan k => k.caller = .drainWakes
  | _ => False

namespace MgrPc

/-- The part of a pass from the first request to the end of `drain_wakes`. -/
@[simp] def delivering : MgrPc → Prop
  | .work | .resume .. | .resumeWrite .. | .resumeReset .. | .resumeLoad .. | .resumeStore ..
  | .resumePush .. | .publish .. | .publishWake .. | .kill .. | .wakes => True
  | .scan k | .scanRets _ _ k | .scanNote _ _ _ k => k.caller = .drainWakes
  | .claim _ _ a | .take _ a | .marshal _ _ a | .swapWake _ _ a | .promoteLoad _ _ a
  | .promoteStore _ _ a | .pushReady _ a => a.delivering
  | _ => False

/-- The manager has published results for `t` and is about to queue the wake event, or
it has taken the event off the queue and is about to take the results. -/
@[simp] def serving (t : Tid) : MgrPc → Prop
  | .publishWake u | .take u _ => u = t
  | .scan k => k.pred = .tid t ∧ t ∈ k.rest
  | .scanRets u st _ => u = t ∧ st = .blocking
  | .scanNote u st signaled _ => u = t ∧ st = .blocking ∧ signaled = true
  | .claim u mode _ => u = t ∧ mode = .resumePublished
  | _ => False

/-- The thread the manager has decided to publish results for. -/
@[simp] def publishing : MgrPc → Option Tid
  | .publish t _ | .publishWake t => some t
  | _ => none

end MgrPc

namespace State

/-- `t` waits for its syscall and the results are there. -/
def signaled (s : State) (t : Tid) : Prop :=
  (s.threads t).state = .blocking ∧ (s.threads t).pending.isSome

/-- The post-park claim of `t` is still to run. -/
def claimDue (s : State) (t : Tid) : Prop := ∃ h, h < s.nHarts ∧ (s.harts h).pc = .claim t

/-- The thread a step queues a wake event for after publishing its results. -/
def notifies (s : State) : Action → Option Tid
  | .manager _ => s.mgr.bind fun m => match m.pc with
    | .publishWake t => some t
    | _ => none
  | _ => none

end State

/-- The wake queue has room whenever the manager queues the event of a Blocking thread
whose results it has published. -/
def WakeRoom (s : State) (a : Action) : Prop :=
  ∀ t, s.notifies a = some t → (s.threads t).state = .blocking → s.wakeQueue.length < wakeQueueCap

instance (s : State) (a : Action) : Decidable (WakeRoom s a) :=
  match h : s.notifies a with
  | none => isTrue fun _ h' => by rw [h] at h'; cases h'
  | some t =>
    if hroom : (s.threads t).state = .blocking → s.wakeQueue.length < wakeQueueCap then
      isTrue fun _ h' => by rw [h] at h'; cases h'; exact hroom
    else isFalse fun hs => hroom (hs t h)

structure Delivery (s : State) : Prop where
  due : ∀ t, s.signaled t → s.claimDue t ∨ ∃ m, s.mgr = some m ∧ m.pc.delivering ∧
    t ∈ s.registry ∧ (.tid t ∈ s.wakeQueue ∨ m.pc.serving t)
  publishing : ∀ m t, s.mgr = some m → m.pc.publishing = some t → t ∈ s.registry
  wf : ∀ h, h < s.nHarts → (s.harts h).pc.wf

section Hart

variable {hart hart' : Hart} {th th' : Thread} {ws : List Work} {ns : List SleepNotice}

/-- A park keeps its target and the notice that goes with it. -/
theorem HartEdge.wf (edge : HartEdge hart t th hart' th' ws ns) (hwf : hart.pc.wf) :
    hart'.pc.wf := by
  cases edge with
  | yield _ target frame deadline htarget =>
    rcases htarget with rfl | rfl <;> rfl
  | commit target frame deadline hpc => simpa [hpc] using hwf
  | parkSeqSleep => simp [ThreadState.transitionAllowed]
  | parkSeq target hpc htarget =>
    rw [hpc] at hwf
    exact ⟨hwf, by simp [htarget], fun n hn => by cases hn⟩
  | parkNull target notice hpc | parkLoad target notice hpc => simpa [hpc] using hwf
  | parkLoadDead target notice | parkStore target notice =>
    cases notice <;> cases target <;> trivial
  | issue | exit | threadExit | fault | switchRunning | switchExited => rfl
  | _ => trivial

/-- The post-park claim leaves the slot empty. -/
theorem HartEdge.claims (edge : HartEdge hart u th hart' th' ws ns)
    (hpc : hart.pc = .claim t) : u = t ∧ th'.pending = none := by
  cases edge with
  | claimNone hpc' hp =>
    cases hpc'.symm.trans hpc
    exact ⟨rfl, hp⟩
  | claim p hpc' =>
    cases hpc'.symm.trans hpc
    exact ⟨rfl, rfl⟩
  | start hpc' | dispatchDead hpc' | dispatchLoad hpc' | dispatchStore hpc' | enter hpc'
  | refuse hpc' | preempt hpc' | yield hpc' | issue hpc' | exit hpc' | threadExit hpc'
  | fault hpc' | switchRunning hpc' | switchExited hpc' | switchParked hpc' | switchAgain hpc'
  | parkSeqSleep hpc' | mint hpc' | push hpc' => cases hpc'.symm.trans hpc
  | commit _ _ _ hpc' | commitDead _ _ _ hpc' => cases hpc'.symm.trans hpc
  | parkSeq _ hpc' | sleepPush _ hpc' | claimed _ hpc' | claimLoad _ hpc' | claimStore _ hpc' =>
    cases hpc'.symm.trans hpc
  | parkNull _ _ hpc' | parkLoadDead _ _ hpc' | parkLoad _ _ hpc' | parkStore _ _ hpc' =>
    cases hpc'.symm.trans hpc

/-- A hart that stores Blocking goes on to the claim. -/
theorem HartEdge.blocks (edge : HartEdge hart t th hart' th' ws ns) (hwf : hart.pc.wf)
    (hst : th'.state = .blocking) (hp : th'.pending.isSome) :
    hart'.pc = .claim t ∨ th.state = .blocking ∧ th.pending.isSome := by
  cases edge with
  | parkStore target notice hpc =>
    rw [hpc] at hwf
    have htarget : target = .blocking := hst
    subst htarget
    cases notice with
    | none => exact .inl rfl
    | some n => simp at hwf
  | claim => cases hp
  | dispatchStore | claimStore => cases hst
  | _ => exact .inr ⟨hst, hp⟩

end Hart

theorem Delivery.hart_step {trap : Trap} (del : Delivery s) (hlt : h < s.nHarts)
    (hs : hartStep s h trap = some s') : Delivery s' := by
  rcases hartStep_outcome hs with ⟨u, hart, th, ws, ns, move⟩ | ⟨_, _, _, rfl, _⟩ | ⟨_, _, _, rfl⟩
  · have hqueue : s'.wakeQueue = s.wakeQueue := by rw [move.eq]
    -- a thread that was signaled before is seen by whoever was to see it then
    have old : ∀ t, s.signaled t → (s'.threads t).pending.isSome →
        s'.claimDue t ∨ ∃ m, s'.mgr = some m ∧ m.pc.delivering ∧ t ∈ s'.registry ∧
          (.tid t ∈ s'.wakeQueue ∨ m.pc.serving t) := by
      intro t hsig hp
      rw [move.mgr, move.registry, hqueue]
      rcases del.due t hsig with ⟨h₀, hlt₀, hpc⟩ | hmgr
      · by_cases hh : h₀ = h
        · subst hh
          obtain ⟨rfl, hnone⟩ := move.edge.claims hpc
          simp [move.thread_self, hnone] at hp
        · exact .inl ⟨h₀, move.nHarts ▸ hlt₀, by rw [move.hart_ne hh, hpc]⟩
      · exact .inr hmgr
    refine ⟨?_, ?_, ?_⟩
    · rintro t ⟨hst, hp⟩
      by_cases ht : t = u
      · subst ht
        have hself := move.thread_self
        rcases move.edge.blocks (del.wf h hlt) (hself ▸ hst) (hself ▸ hp) with hpc | hsig
        · exact .inl ⟨h, move.nHarts ▸ hlt, by rw [move.hart_self, hpc]⟩
        · exact old t hsig hp
      · have hsame := move.thread_ne ht
        exact old t ⟨hsame ▸ hst, hsame ▸ hp⟩ hp
    · intro m t hm
      rw [move.registry]
      exact del.publishing m t (move.mgr ▸ hm)
    intro h' hlt'
    rw [move.nHarts] at hlt'
    by_cases hh : h' = h
    · subst hh
      rw [move.hart_self]
      exact move.edge.wf (del.wf h' hlt)
    · rw [move.hart_ne hh]
      exact del.wf h' hlt'
  · exact { del with }
  · exact { del with }

section Manager

variable {m : Mgr} {pc pc' : MgrPc} {self : Nat}

@[simp] theorem After.delivering_pc (a : After) : a.pc.delivering ↔ a.delivering := by
  cases a <;> rfl

/-- A load of the manager leaves a signaled thread in its hands or on the queue. -/
theorem MgrGoto.delivers (move : MgrGoto s self pc pc') (hsig : s.signaled t)
    (hdel : pc.delivering) (hdue : .tid t ∈ s.wakeQueue ∨ pc.serving t) :
    pc'.delivering ∧ (.tid t ∈ s.wakeQueue ∨ pc'.serving t) := by
  obtain ⟨hst, hp⟩ := hsig
  cases move with
  | wakesDone hqueue => simp [hqueue] at hdue
  | scanDone k hrest =>
    have hk : k.caller = .drainWakes := hdel
    simpa [hk, ScanCaller.pc, hrest] using hdue
  | scanHit k u rest hrest hpred =>
    refine ⟨hdel, hdue.imp_right ?_⟩
    rintro ⟨hk, ht⟩
    rw [hk] at hpred
    have hu : u = t := by simpa [WakePred.holds] using hpred
    subst hu
    exact ⟨rfl, hst⟩
  | scanMiss k u rest hrest hpred =>
    refine ⟨hdel, hdue.imp_right ?_⟩
    rintro ⟨hk, ht⟩
    refine ⟨hk, ?_⟩
    have hu : t ≠ u := by
      rintro rfl
      simp [hk, WakePred.holds] at hpred
    rw [hrest] at ht
    exact (List.mem_cons.mp ht).resolve_left hu
  | scanRets u st k =>
    refine ⟨hdel, hdue.imp_right ?_⟩
    rintro ⟨rfl, rfl⟩
    exact ⟨rfl, rfl, hp⟩
  | claimPromote u a => exact ⟨hdel, hdue.imp_right (by simp)⟩
  | claimPublished u a =>  exact ⟨hdel, hdue.imp_right (by simp)⟩
  | claimMiss u mode a hmiss =>
    refine ⟨(After.delivering_pc a).mpr hdel, hdue.imp_right ?_⟩
    rintro ⟨rfl, -⟩
    simp [hst, ThreadState.parked] at hmiss
  | takeNone u a hnone =>
    refine ⟨(After.delivering_pc a).mpr hdel, hdue.imp_right ?_⟩
    rintro rfl
    simp [hnone] at hp
  | promoteLoad => exact ⟨hdel, hdue.imp_right (by simp)⟩
  | workDone | resumeParked | resumePublish | resumeLost | resumeLoad | killSkip =>
    exact ⟨trivial, hdue.imp_right (by simp)⟩
  | _ => cases hdel

theorem scanVerb_delivering {st : ThreadState} {seen : Bool} {k : Scan}
    (hk : k.caller = .drainWakes) : (scanVerb u st seen k).delivering := by
  unfold scanVerb
  split
  · exact hk
  · split <;> exact hk

/-- A write to another thread leaves a signaled thread where it was. -/
theorem MgrWrite.delivers_other {th : Thread} (move : MgrWrite s pc u th pc') (ht : t ≠ u)
    (hdel : pc.delivering) (hdue : .tid t ∈ s.wakeQueue ∨ pc.serving t) :
    pc'.delivering ∧ .tid t ∈ s.wakeQueue := by
  have hqueue : ¬ pc.serving t → .tid t ∈ s.wakeQueue := fun hno => hdue.resolve_right hno
  cases move with
  | scanNote _ st seen k =>
    exact ⟨scanVerb_delivering hdel, hqueue fun hserve => ht hserve.1.symm⟩
  | take _ a => exact ⟨hdel, hqueue fun hserve => ht (Eq.symm hserve)⟩
  | marshal | swapWake | promoteStore => exact ⟨hdel, hqueue id⟩
  | resumeWrite | resumeReset | resumeStore | publish | kill => exact ⟨trivial, hqueue id⟩
  | _ => cases hdel

/-- A write to a signaled thread. Only the publication makes it one. -/
theorem MgrWrite.delivers_self {th : Thread} (move : MgrWrite s pc t th pc')
    (hst : th.state = .blocking) (hp : th.pending.isSome)
    (hpub : pc.publishing = some t → t ∈ s.registry)
    (hdue : s.signaled t → pc.delivering ∧ t ∈ s.registry ∧ (.tid t ∈ s.wakeQueue ∨ pc.serving t)) :
    pc'.delivering ∧ t ∈ s.registry ∧ (.tid t ∈ s.wakeQueue ∨ pc'.serving t) := by
  cases move with
  | publish _ p => exact ⟨trivial, hpub rfl, Or.inr rfl⟩
  | scanNote _ st seen k =>
    obtain ⟨hdel, hreg, hdue⟩ := hdue ⟨hst, hp⟩
    refine ⟨scanVerb_delivering hdel, hreg, hdue.imp_right ?_⟩
    rintro ⟨-, rfl, rfl⟩
    exact ⟨rfl, rfl⟩
  | resumeReset | take => cases hp
  | resumeStore | kill | promoteStore | assignStore => cases hst
  | resumeWrite =>
    obtain ⟨hdel, hreg, hdue⟩ := hdue ⟨hst, hp⟩
    exact ⟨trivial, hreg, hdue.imp_right (by simp)⟩
  | marshal | swapWake =>
    obtain ⟨hdel, hreg, hdue⟩ := hdue ⟨hst, hp⟩
    exact ⟨hdel, hreg, hdue.imp_right (by simp)⟩
  | assignReady | assignExited => exact absurd (hdue ⟨hst, hp⟩).1 id

theorem Answered.delivering {p : Published} (hans : Answered s u p pc) :
    pc.delivering := by
  rcases hans with rfl | ⟨rfl, -⟩ | ⟨rfl, -⟩ <;> trivial

theorem wakeScan_caller {ev : WakeEvent} {k : Scan} (hk : wakeScan s ev = some k) :
    k.caller = .drainWakes := by
  cases ev <;> cases hk <;> rfl

/-- What the manager sees to after an edge, when it saw to `t` before. -/
theorem MgrEdge.delivers (edge : MgrEdge s m s')
    (hroom : m.pc = .publishWake t → s.signaled t → s.wakeQueue.length < wakeQueueCap)
    (hpub : ∀ u, m.pc.publishing = some u → u ∈ s.registry)
    (hdue : s.signaled t → m.pc.delivering ∧ t ∈ s.registry ∧
      (.tid t ∈ s.wakeQueue ∨ m.pc.serving t)) (hsig : s'.signaled t) :
    ∃ m', s'.mgr = some m' ∧ m'.pc.delivering ∧ t ∈ s'.registry ∧
      (.tid t ∈ s'.wakeQueue ∨ m'.pc.serving t) := by
  cases edge with
  | goto pc move =>
    obtain ⟨hdel, hreg, hdue⟩ := hdue hsig
    obtain ⟨hdel, hdue⟩ := move.delivers hsig hdel hdue
    exact ⟨_, rfl, hdel, hreg, hdue⟩
  | write u th pc move =>
    by_cases ht : t = u
    · subst ht
      obtain ⟨hst, hp⟩ : th.state = .blocking ∧ th.pending.isSome := by
        simpa [State.signaled, State.goto, State.setThread] using hsig
      exact ⟨_, rfl, move.delivers_self hst hp (hpub t) hdue⟩
    have hold : s.signaled t := by
      simpa [State.signaled, State.goto, State.setThread, ht] using hsig
    obtain ⟨hdel, hreg, hdue⟩ := hdue hold
    obtain ⟨hdel, hqueue⟩ := move.delivers_other ht hdel hdue
    exact ⟨_, rfl, hdel, hreg, Or.inl hqueue⟩
  | spawn u q pid _ _ _ rest proc th pc hpc _ _ hth hans =>
    have ht : t ≠ s.nextTid := by
      rintro rfl
      obtain ⟨allowed, affinity, frame, rfl⟩ := hth
      simp [State.signaled, State.goto, State.admitThread, Thread.new] at hsig
    have hold : s.signaled t := by
      simpa [State.signaled, State.goto, State.admitThread, ht] using hsig
    obtain ⟨-, hreg, hdue⟩ := hdue hold
    have hqueue : .tid t ∈ s.wakeQueue := by simpa [hpc] using hdue
    exact ⟨_, rfl, hans.delivering, List.mem_append_left _ hreg, Or.inl hqueue⟩
  | answer _ _ _ pc hpc _ hans | serve _ _ _ pc hpc _ hans
  | spawnFails _ _ _ _ _ _ _ pc hpc _ hans =>
    obtain ⟨-, hreg, hdue⟩ := hdue hsig
    have hqueue : .tid t ∈ s.wakeQueue := by simpa [hpc] using hdue
    exact ⟨_, rfl, hans.delivering, hreg, Or.inl hqueue⟩
  | defer _ _ _ hpc | exitGroupGone _ _ _ _ hpc | exitGroup _ _ _ _ _ hpc | killDone _ _ hpc =>
    obtain ⟨-, hreg, hdue⟩ := hdue hsig
    have hqueue : .tid t ∈ s.wakeQueue := by simpa [hpc] using hdue
    exact ⟨_, rfl, trivial, hreg, Or.inl hqueue⟩
  | resumePush u inbox hpc =>
    obtain ⟨-, hreg, hdue⟩ := hdue hsig
    have hqueue : .tid t ∈ s.wakeQueue := by simpa [hpc] using hdue
    exact ⟨_, rfl, trivial, hreg, Or.inl hqueue⟩
  | publishWake u queue hpc hqueue =>
    obtain ⟨-, hreg, hdue⟩ := hdue hsig
    refine ⟨_, rfl, trivial, hreg, Or.inl ?_⟩
    simp only [hpc, MgrPc.serving] at hdue
    show .tid t ∈ queue
    rcases hdue with hmem | rfl
    · rcases hqueue with rfl | ⟨rfl, -⟩
      · exact List.mem_append_left _ hmem
      · exact hmem
    rcases hqueue with rfl | ⟨-, hfull⟩
    · exact List.mem_append_right _ (.head _)
    · exact absurd (hroom hpc hsig) hfull
  | popWake ev rest pc hpc hqueue hnext =>
    obtain ⟨-, hreg, hdue⟩ := hdue hsig
    have hmem : .tid t ∈ s.wakeQueue := by simpa [hpc] using hdue
    rw [hqueue] at hmem
    have hdel : pc.delivering := by
      rcases hnext with ⟨k, hk, rfl⟩ | ⟨-, rfl⟩
      · exact wakeScan_caller hk
      · trivial
    refine ⟨_, rfl, hdel, hreg, ?_⟩
    rcases List.mem_cons.mp hmem with rfl | hmem
    · rcases hnext with ⟨k, hk, rfl⟩ | ⟨hk, -⟩
      · cases hk
        exact .inr ⟨rfl, hreg⟩
      · cases hk
    · exact .inl hmem
  | pushReady u a hpc =>
    obtain ⟨hdel, hreg, hdue⟩ := hdue hsig
    have hqueue : .tid t ∈ s.wakeQueue := by simpa [hpc] using hdue
    rw [hpc] at hdel
    exact ⟨_, rfl, (After.delivering_pc a).mpr hdel, hreg, Or.inl hqueue⟩
  | reap u tids pids hpc =>
    have hold : s.signaled t := by
      by_cases ht : t = u
      · subst ht
        simpa [State.signaled, State.goto, State.reap] using hsig
      · simpa [State.signaled, State.goto, State.reap, ht] using hsig
    simp [hpc] at hdue
    exact absurd hold hdue
  | release hpc => simp [hpc] at hdue; exact absurd hsig hdue
  | cleanupExited _ _ _ _ _ hpc | claimExited _ _ _ _ _ _ hpc | removeProc _ _ _ hpc
  | popNotice _ _ hpc | sleepHeap _ hpc | wokenStale _ _ _ _ hpc | wokenDue _ _ _ _ hpc
  | inboxPop _ _ _ hpc | assignPop _ _ _ _ _ hpc | assignPublish _ _ _ hpc =>
    simp [hpc] at hdue
    exact absurd hsig hdue

theorem MgrGoto.publishes (move : MgrGoto s self pc pc')
    (hu : pc'.publishing = some u) : u ∈ s.registry := by
  have after : ∀ a : After, a.pc.publishing = none := by
    intro a
    cases a <;> rfl
  have caller : ∀ k : ScanCaller, k.pc.publishing = none := by
    intro k
    rcases k with _ | ⟨_ | _⟩ <;> rfl
  cases move with
  | resumePublish t p ht =>
    cases hu
    exact ht
  | scanDone | nudgeSkip => cases (caller _).symm.trans hu
  | claimMiss | takeNone => cases (after _).symm.trans hu
  | _ => cases hu

theorem MgrWrite.publishes {th : Thread} (move : MgrWrite s pc t th pc')
    (hu : pc'.publishing = some u) : pc.publishing = some u := by
  cases move with
  | publish => exact hu
  | scanNote _ st seen k =>
    unfold scanVerb at hu
    split at hu
    · cases hu
    · split at hu <;> cases hu
  | _ => cases hu

/-- The manager publishes only for registered threads. -/
theorem MgrEdge.publishes {m' : Mgr} (edge : MgrEdge s m s') (hm' : s'.mgr = some m')
    (hpub : ∀ u, m.pc.publishing = some u → u ∈ s.registry)
    (hu : m'.pc.publishing = some u) : u ∈ s'.registry := by
  have answered : ∀ {s₁ : State} {t : Tid} {p : Published} {pc : MgrPc}, Answered s₁ t p pc →
      pc.publishing = some u → u ∈ s₁.registry := by
    intro s₁ t p pc hans hu
    rcases hans with rfl | ⟨rfl, ht⟩ | ⟨rfl, -⟩
    · cases hu
    · cases hu
      exact ht
    · cases hu
  have after : ∀ a : After, a.pc.publishing = none := by
    intro a
    cases a <;> rfl
  cases edge with
  | goto pc move =>
    cases hm'
    exact move.publishes hu
  | write t th pc move =>
    cases hm'
    exact hpub u (move.publishes hu)
  | answer _ _ _ _ _ _ hans | serve _ _ _ _ _ _ hans | spawnFails _ _ _ _ _ _ _ _ _ _ hans =>
    cases hm'
    exact answered hans hu
  | spawn _ _ _ _ _ _ _ _ _ _ _ _ _ _ hans =>
    cases hm'
    exact answered hans hu
  | popWake _ _ pc _ _ hnext =>
    cases hm'
    rcases hnext with ⟨k, -, rfl⟩ | ⟨-, rfl⟩ <;> cases hu
  | pushReady t a =>
    cases hm'
    cases (after a).symm.trans hu
  | release => cases hm'
  | _ =>
    cases hm'
    cases hu

theorem Delivery.mgr_step {c : Choice} (del : Delivery s) (hm : s.mgr = some m)
    (hroom : WakeRoom s (.manager c)) (hs : mgrStep s m c = some s') : Delivery s' := by
  rcases mgrStep_outcome hs with ⟨edge⟩ | ⟨_, _, _, rfl, _⟩ | ⟨_, _, rfl, _⟩
  · refine ⟨fun t hsig => ?_, fun m' t hm' => edge.publishes hm' (fun u => del.publishing m u hm),
      fun h hlt => ?_⟩
    · by_cases hdue : s.claimDue t
      · obtain ⟨h, hlt, hpc⟩ := hdue
        exact .inl ⟨h, edge.nHarts ▸ hlt, edge.hart_pc ▸ hpc⟩
      refine .inr (edge.delivers ?_ (fun u => del.publishing m u hm) ?_ hsig)
      · intro hpc hold
        exact hroom t (by simp [State.notifies, hm, hpc]) hold.1
      intro hold
      obtain ⟨m', hm', hrest⟩ := (del.due t hold).resolve_left hdue
      cases hm.symm.trans hm'
      exact hrest
    · rw [edge.hart_pc]
      exact del.wf h (edge.nHarts ▸ hlt)
  · exact { del with }
  · exact { del with }

end Manager

theorem Delivery.preserved (del : Delivery s) (hroom : WakeRoom s a) (hs : step s a = some s') :
    Delivery s' := by
  cases step_outcome hs with
  | hart h trap hlt _ hmove => exact del.hart_step hlt hmove
  | manager c m hm hmove => exact del.mgr_step hm hroom hmove
  | lock h _ hm _ he =>
    subst he
    refine ⟨fun t hsig => ?_, fun m t hm' ht => ?_, del.wf⟩
    · refine .inl ((del.due t hsig).resolve_right ?_)
      rintro ⟨m, hm', -⟩
      cases hm.symm.trans hm'
    · cases hm'
      cases ht
  | wake ev queue hqueue he =>
    subst he
    refine { del with due := fun t hsig => (del.due t hsig).imp_right ?_ }
    rintro ⟨m, hm, hdel, hreg, hdue⟩
    refine ⟨m, hm, hdel, hreg, hdue.imp_left fun hmem => ?_⟩
    rcases hqueue with rfl | rfl
    · exact List.mem_append_left _ hmem
    · exact hmem

theorem Boot.delivery (boot : Boot s) : Delivery s := by
  refine ⟨fun t hsig => ?_, fun m t hm => ?_, fun h hlt => ?_⟩
  · rcases boot.thread t with hf | hf
    · simp [State.signaled, hf.state] at hsig
    · simp [State.signaled, hf, Thread.unallocated] at hsig
  · simp [boot.mgr] at hm
  · simp [boot.harts h]

/-- In every run in which the wake queue has room for the events of the Blocking threads
the manager publishes results for, a Blocking thread with a filled slot has a wake event
on the queue, or its own post-park claim is still to run, or the manager holds it between
the publication and the claim. Between two passes it is always the post-park claim. -/
theorem published_result_not_lost (run : Reach step WakeRoom Boot s) (hsig : s.signaled t) :
    (.tid t ∈ s.wakeQueue ∨ s.claimDue t ∨ ∃ m, s.mgr = some m ∧ m.pc.serving t) ∧
      (s.mgr = none → s.claimDue t) := by
  have del : Delivery s := run.invariant (fun _ => Boot.delivery)
    fun _ _ _ del hroom hs => del.preserved hroom hs
  rcases del.due t hsig with hdue | ⟨m, hm, -, -, hqueue | hserve⟩
  · exact ⟨Or.inr (.inl hdue), fun _ => hdue⟩
  · exact ⟨Or.inl hqueue, fun hnone => by simp [hm] at hnone⟩
  · exact ⟨Or.inr (.inr ⟨m, hm, hserve⟩), fun hnone => by simp [hm] at hnone⟩

theorem published_result_not_lost_round_trip : ∃ s, Reach step WakeRoom Boot s ∧ s.signaled 0 ∧
    (.tid 0 ∈ s.wakeQueue ∨ s.claimDue 0 ∨ ∃ m, s.mgr = some m ∧ m.pc.serving 0) ∧
      (s.mgr = none → s.claimDue 0) := by
  have hboot : Reach step WakeRoom Boot (startState 3 [1]) := .start (startState_boot 3 [1])
  obtain ⟨s, run, hsig⟩ := hboot.exists_of_exec (syscallRoundTrip.take 44)
    (fun s : State => (s.threads 0).state = .blocking ∧ (s.threads 0).pending.isSome)
    (by decide +kernel)
  exact ⟨s, run, hsig, published_result_not_lost run hsig⟩

/-- A thread parks for a syscall and finds its slot empty. The wake queue fills up before
the next pass, in which the manager answers the syscall and drains the queue. -/
def fullQueue : List Action :=
  [.lock 0] ++ ticks 8 ++ [.manager (.clock 0)] ++ ticks 15 ++
  accesses 1 4 ++ [.hart 1 (.call fun _ => 0)] ++ accesses 1 6 ++
  List.replicate 128 (.wake .serial) ++
  [.lock 2] ++ ticks 4 ++ [.manager (.serve [42] false)] ++ ticks 390 ++ [.manager (.clock 0)] ++
  ticks 12

/-- The pass is over and nothing is left that would resume the thread. -/
theorem full_queue_loses_result : ∃ s, Reach step (fun _ _ => True) Boot s ∧ s.signaled 0 ∧
    s.wakeQueue = [] ∧ s.mgr = none ∧ ¬ s.claimDue 0 := by
  have hboot : Reach step (fun _ _ => True) Boot (startState 3 [1]) :=
    .start (startState_boot 3 [1])
  obtain ⟨s, run, ⟨hst, hp⟩, hqueue, hm, hclaim⟩ := hboot.exists_of_exec fullQueue
    (fun s : State => ((s.threads 0).state = .blocking ∧ (s.threads 0).pending.isSome) ∧
      s.wakeQueue = [] ∧ s.mgr.isNone ∧ ∀ h, h < s.nHarts → (s.harts h).pc.claiming 0 = 0)
    (by decide +kernel)
  refine ⟨s, run, ⟨hst, hp⟩, hqueue, Option.isNone_iff_eq_none.mp hm, ?_⟩
  rintro ⟨h, hlt, hpc⟩
  have := hclaim h hlt
  simp [hpc] at this

end Orbit.Sched
