import Orbit.Sched.Kill

/-!
The reaper frees a thread in the pass that finds it Exited, without asking whether a
hart still runs it or a notice still names it; `forget_thread` scrubs the sleep heap and
the ready queue only. A thread killed on another hart is freed under that hart's feet.
When nothing else refers to a thread at the moment it becomes Exited, nothing does when
it is freed, and no freed thread is ever accessed.
-/

namespace Orbit.Sched

open Transition Function State

variable {pc pc' : MgrPc} {n : SleepNotice}

variable {s s' : State} {a : Action} {t : Tid} {h : Nat}

namespace State

/-- No hart runs or names `t`, and no inbox and no sleep notice refers to it; the hart
`self` may still be at its exit. -/
def quiet (s : State) (self : Option Nat) (t : Tid) : Prop :=
  (∀ h, h < s.nHarts → (s.harts h).current ≠ some t ∧ t ∉ (s.harts h).inbox ∧
    (some h ≠ self → (s.harts h).pc.thread ≠ some t)) ∧
  (∀ n ∈ s.sleepInbox, n.thread ≠ t) ∧ weigh s.mgr (·.note t) = 0

instance (s : State) (self : Option Nat) (t : Tid) : Decidable (s.quiet self t) := by
  unfold quiet
  infer_instance

/-- The hart that takes a step. -/
def actor : Action → Option Nat
  | .hart h _ => some h
  | _ => none

/-- Nothing that the kernel would still follow refers to `t`. -/
def unreferenced (s : State) (t : Tid) : Prop :=
  (∀ h, h < s.nHarts → (s.harts h).current ≠ some t ∧ t ∉ (s.harts h).inbox ∧
    (s.harts h).pc.thread ≠ some t) ∧
  t ∉ s.ready ∧ (∀ n ∈ s.sleepInbox, n.thread ≠ t) ∧ ∀ n ∈ s.heap, n.thread ≠ t

end State

/-- A thread becomes Exited only when nothing but the hart that exits it refers to it. -/
def ExitQuiet (s : State) (a : Action) : Prop :=
  ∀ t, s.stores a = some (t, .exited) → s.quiet (State.actor a) t

instance (s : State) (a : Action) : Decidable (ExitQuiet s a) :=
  match h : s.stores a with
  | some (t, .exited) =>
    if hq : s.quiet (State.actor a) t then isTrue fun _ h' => by rw [h] at h'; cases h'; exact hq
    else isFalse fun hs => hq (hs t h)
  | some (_, .ready) | some (_, .blocking) | some (_, .assigned) | some (_, .running)
  | some (_, .suspended) | none => isTrue fun _ h' => by rw [h] at h'; cases h'

theorem HartPc.thread_of_exposed {pc : HartPc} (hexp : pc.exposed t = true) :
    pc.thread = some t := by
  cases pc <;> simp_all [HartPc.exposed]

/-- A kill of a thread no hart names is clear. -/
theorem ExitQuiet.killClear (hquiet : ExitQuiet s a) : KillClear s a := by
  intro t hkill h hlt
  have hstore : s.stores a = some (t, .exited) ∧ State.actor a = none := by
    cases a with
    | manager c =>
      refine ⟨?_, rfl⟩
      simp only [kills, Option.bind_eq_some_iff] at hkill
      obtain ⟨m, hm, hkill⟩ := hkill
      simp only [stores, hm, Option.bind_some]
      cases hpc : m.pc with
      | kill pid leader rest =>
        cases rest with
        | nil => simp [hpc, MgrPc.kills] at hkill
        | cons u rest =>
          obtain ⟨hu, rfl⟩ : u ∈ s.registry ∧ u = t := by
            simpa [hpc, MgrPc.kills] using hkill
          simp [hu]
      | _ => simp [hpc, MgrPc.kills] at hkill
    | _ => cases hkill
  have hname := (hquiet t hstore.1).1 h hlt
  rw [hstore.2] at hname
  by_contra hexp
  exact hname.2.2 (by simp) (HartPc.thread_of_exposed (by simpa using hexp))

section Hart

variable {hart hart' : Hart} {th th' : Thread} {ws : List Work} {ns : List SleepNotice} {u : Tid}

theorem HartEdge.actor (edge : HartEdge hart u th hart' th' ws ns) :
    hart.pc.thread = some u ∨ hart.current = some u := by
  cases edge with
  | start _ hcur => exact .inr hcur
  | sleepPush n hpc hn => exact .inl (by simp [hpc, hn])
  | _ => left; simp_all

theorem afterPark_thread {target : ThreadState} {notice : Option SleepNotice}
    (hnotice : ∀ n, notice = some n → n.thread = u) {x : Tid}
    (hx : (afterPark u target notice).thread = some x) : x = u := by
  cases notice with
  | none => cases target <;> simp_all [afterPark]
  | some n =>
    have := hnotice n rfl
    simp_all [afterPark]

/-- An edge refers to no thread but the one it is about. -/
theorem HartEdge.touches (edge : HartEdge hart u th hart' th' ws ns) (hwf : hart.pc.wf) (ht : t ≠ u)
    (hcur : hart.current ≠ some t) (hinbox : t ∉ hart.inbox) :
    hart'.current ≠ some t ∧ t ∉ hart'.inbox ∧ hart'.pc.thread ≠ some t ∧
      ∀ n ∈ ns, n.thread ≠ t := by
  have hne : some u ≠ some t := fun he => ht (Option.some.inj he).symm
  cases edge with
  | parkLoadDead target notice hpc | parkStore target notice hpc =>
    rw [hpc] at hwf
    refine ⟨hcur, hinbox, fun hx => ht (afterPark_thread hwf.2.2 hx), by simp⟩
  | parkNull => exact ⟨by simp, hinbox, hne, by simp⟩
  | refuse | switchParked => exact ⟨by simp, hinbox, by simp, by simp⟩
  | sleepPush n hpc hn ns' hns =>
    refine ⟨hcur, hinbox, by simp, ?_⟩
    rcases hns with rfl | rfl
    · simpa [hn] using ht.symm
    · simp
  | push hpc inbox hib =>
    refine ⟨hcur, ?_, by simp, by simp⟩
    rcases hib with rfl | rfl
    · simpa [ht] using hinbox
    · exact hinbox
  | claimNone => exact ⟨hcur, hinbox, by simp, by simp⟩
  | _ => exact ⟨hcur, hinbox, hne, by simp⟩

theorem HartEdge.freed (edge : HartEdge hart u th hart' th' ws ns) : th'.freed = th.freed := by
  cases edge <;> rfl

end Hart

section Manager

variable {m : Mgr}

theorem update_hart {f : Hart → Prop} {h₀ : Nat} {hart : Hart}
    (hf : f (update s.harts h₀ hart h)) : f (s.harts h) ∨ h = h₀ ∧ f hart := by
  by_cases hh : h = h₀
  · subst hh
    rw [update_self] at hf
    exact .inr ⟨rfl, hf⟩
  · rw [update_of_ne hh] at hf
    exact .inl hf

/-- A hart is given a thread only by an assignment. -/
theorem MgrEdge.current (edge : MgrEdge s m s') (hcur : (s'.harts h).current = some t) :
    (s.harts h).current = some t ∨ ∃ hs, m.pc = .assignPublish t h hs := by
  cases edge with
  | resumePush u inbox | inboxPop h₀ u rest =>
    rcases update_hart (f := fun x => x.current = some t) hcur with hold | ⟨rfl, hold⟩
    · exact .inl hold
    · exact .inl hold
  | assignPublish u h₀ hs hpc =>
    rcases update_hart (f := fun x => x.current = some t) hcur with hold | ⟨rfl, hnew⟩
    · exact .inl hold
    · cases hnew
      exact .inr ⟨hs, hpc⟩
  | _ => exact .inl hcur

theorem MgrEdge.inbox (edge : MgrEdge s m s') (hmem : t ∈ (s'.harts h).inbox) :
    t ∈ (s.harts h).inbox ∨ m.pc = .resumePush t := by
  cases edge with
  | resumePush u inbox hpc hinbox =>
    rcases update_hart (f := fun x => t ∈ x.inbox) hmem with hold | ⟨rfl, hnew⟩
    · exact .inl hold
    rcases hinbox with rfl | rfl
    · rcases List.mem_append.mp hnew with hold | hnew
      · exact .inl hold
      · cases List.mem_singleton.mp hnew
        exact .inr hpc
    · exact .inl hnew
  | inboxPop h₀ u rest _ _ hinbox =>
    rcases update_hart (f := fun x => t ∈ x.inbox) hmem with hold | ⟨rfl, hrest⟩
    · exact .inl hold
    · exact .inl (hinbox ▸ .tail _ hrest)
  | assignPublish u h₀ hs =>
    rcases update_hart (f := fun x => t ∈ x.inbox) hmem with hold | ⟨rfl, hold⟩
    · exact .inl hold
    · exact .inl hold
  | _ => exact .inl hmem

theorem MgrEdge.sleepInbox (edge : MgrEdge s m s') (hn : n ∈ s'.sleepInbox) :
    n ∈ s.sleepInbox := by
  cases edge with
  | popNotice n' rest _ hinbox => exact hinbox ▸ .tail _ hn
  | _ => exact hn

theorem MgrEdge.heap (edge : MgrEdge s m s') (hn : n ∈ s'.heap) :
    n ∈ s.heap ∨ m.pc = .sleepCheck n := by
  cases edge with
  | reap u => exact .inl (List.mem_of_mem_filter hn)
  | sleepHeap e hpc =>
    rcases (mem_heapPush _).mp hn with rfl | hn
    · exact .inr hpc
    · exact .inl hn
  | wokenStale _ _ e rest _ hheap | wokenDue _ _ e rest _ hheap =>
    exact .inl (hheap ▸ .tail _ hn)
  | _ => exact .inl hn

theorem MgrEdge.ready (edge : MgrEdge s m s') (hmem : t ∈ s'.ready) :
    t ∈ s.ready ∨ (∃ a, m.pc = .pushReady t a) ∨ (∃ h, h < s.nHarts ∧ t ∈ (s.harts h).inbox) ∨
      t = s.nextTid := by
  cases edge with
  | reap u => exact .inl (List.mem_of_mem_filter hmem)
  | spawn =>
    rcases List.mem_append.mp hmem with hmem | hmem
    · exact .inl hmem
    · exact .inr (.inr (.inr (List.mem_singleton.mp hmem)))
  | pushReady u a hpc =>
    rcases List.mem_append.mp hmem with hmem | hmem
    · exact .inl hmem
    · cases List.mem_singleton.mp hmem
      exact .inr (.inl ⟨a, hpc⟩)
  | inboxPop h₀ u rest _ hlt hinbox =>
    rcases List.mem_append.mp hmem with hmem | hmem
    · exact .inl hmem
    · cases List.mem_singleton.mp hmem
      exact .inr (.inr (.inl ⟨h₀, hlt, by simp [hinbox]⟩))
  | assignPop u h₀ hs fits rest _ hpop =>
    have := popFor_count hpop t
    have hpos : 0 < s.ready.count t := by
      have : 0 < rest.count t := List.count_pos_iff.mpr hmem
      omega
    exact .inl (List.count_pos_iff.mp hpos)
  | _ => exact .inl hmem

theorem MgrGoto.note {self : Nat} (move : MgrGoto s self pc pc')
    (hnote : pc.note t = 0) : pc'.note t = 0 := by
  cases move with
  | scanDone k => rcases k.caller with _ | ⟨_ | _⟩ <;> rfl
  | nudgeSkip n => cases n <;> rfl
  | claimMiss _ _ a | takeNone _ a => cases a <;> rfl
  | sleepClaim n => simpa using hnote
  | _ => rfl

theorem MgrWrite.note {u : Tid} {th : Thread} (move : MgrWrite s pc u th pc') :
    pc'.note t = 0 := by
  cases move with
  | scanNote _ st seen k =>
    unfold scanVerb
    split
    · rfl
    · split <;> rfl
  | _ => rfl

theorem MgrWrite.freed {u : Tid} {th : Thread} (move : MgrWrite s pc u th pc') :
    th.freed = (s.threads u).freed := by
  cases move <;> rfl

/-- The manager takes up a sleep notice from the inbox, and drops it before it takes up
the next. -/
theorem MgrEdge.note (edge : MgrEdge s m s') (hm : s.mgr = some m)
    (hnote : weigh s.mgr (·.note t) = 0) (hinbox : ∀ n ∈ s.sleepInbox, n.thread ≠ t) :
    weigh s'.mgr (·.note t) = 0 := by
  rw [hm, weigh_some] at hnote
  cases edge with
  | goto pc move => exact move.note hnote
  | write u th pc move => exact move.note
  | answer _ _ _ _ _ _ hans | serve _ _ _ _ _ _ hans | spawnFails _ _ _ _ _ _ _ _ _ _ hans =>
    rcases hans with rfl | ⟨rfl, -⟩ | ⟨rfl, -⟩ <;> rfl
  | spawn _ _ _ _ _ _ _ _ _ _ _ _ _ _ hans =>
    rcases hans with rfl | ⟨rfl, -⟩ | ⟨rfl, -⟩ <;> rfl
  | popWake _ _ _ _ _ hnext => rcases hnext with ⟨k, -, rfl⟩ | ⟨-, rfl⟩ <;> rfl
  | popNotice n rest _ hin =>
    exact one_of_ne (hinbox n (by simp [hin]))
  | pushReady _ a => cases a <;> rfl
  | _ => rfl

/-- A thread is freed once it has been seen Exited, and `forget_thread` has scrubbed the
sleep heap and the ready queue. -/
theorem MgrEdge.freed (edge : MgrEdge s m s') (hf : (s'.threads t).freed) :
    (s.threads t).freed ∨ (∃ tids pids, m.pc = .reapThreads (t :: tids) pids) ∧ t ∈ s.registry ∧
      t ∉ s'.ready ∧ ∀ n ∈ s'.heap, n.thread ≠ t := by
  cases edge with
  | write u th pc move =>
    refine .inl ?_
    by_cases ht : t = u
    · subst ht
      rw [← move.freed]
      simpa [State.goto, setThread] using hf
    · simpa [State.goto, setThread, ht] using hf
  | reap u tids pids hpc hu =>
    by_cases ht : t = u
    · subst ht
      exact .inr ⟨⟨tids, pids, hpc⟩, hu, by simp [State.goto, State.reap],
        by simp [State.goto, State.reap]⟩
    · exact .inl (by simpa [State.goto, State.reap, ht] using hf)
  | spawn u q pid _ _ _ rest proc th pc _ _ _ hth =>
    refine .inl ?_
    by_cases ht : t = s.nextTid
    · obtain ⟨allowed, affinity, frame, rfl⟩ := hth
      subst ht
      simp [State.goto, admitThread, Thread.new] at hf
    · simpa [State.goto, admitThread, ht] using hf
  | _ => exact .inl hf

end Manager

section Quiet

theorem quiet_hart {hart : Hart} {th : Thread} {ws : List Work} {ns : List SleepNotice} {u : Tid}
    (move : HartMove s s' h u hart th ws ns) (hlt : h < s.nHarts) (hwf : (s.harts h).pc.wf)
    (hq : s.quiet none t) : s'.quiet none t := by
  obtain ⟨hharts, hsleep, hnote⟩ := hq
  obtain ⟨hcur, hinbox, hpc⟩ := hharts h hlt
  have ht : t ≠ u := by
    rintro rfl
    rcases move.edge.actor with hname | hname
    · exact hpc (by simp) hname
    · exact hcur hname
  obtain ⟨hcur', hinbox', hpc', hns⟩ := move.edge.touches hwf ht hcur hinbox
  refine ⟨fun h' hlt' => ?_, fun n hn => ?_, by rw [move.mgr]; exact hnote⟩
  · by_cases hh : h' = h
    · subst hh
      rw [move.hart_self]
      exact ⟨hcur', hinbox', fun _ => hpc'⟩
    · rw [move.hart_ne hh]
      exact hharts h' (move.nHarts ▸ hlt')
  rw [move.eq] at hn
  rcases List.mem_append.mp hn with hn | hn
  · exact hsleep n hn
  · exact hns n hn

/-- The hart that exits a thread is idle afterwards. -/
theorem quiet_exit {hart : Hart} {th : Thread} {ws : List Work} {ns : List SleepNotice} {u : Tid}
    {notice : Option SleepNotice} (move : HartMove s s' h u hart th ws ns)
    (hwf : (s.harts h).pc.wf) (hpc : (s.harts h).pc = .parkStore t .exited notice)
    (hq : s.quiet (some h) t) : s'.quiet none t := by
  obtain ⟨hharts, hsleep, hnote⟩ := hq
  have hidle : hart = { s.harts h with pc := .idle } ∧ ns = [] := by
    have hnone : notice = none := by
      rw [hpc] at hwf
      cases notice with
      | none => rfl
      | some n => simp at hwf
    cases move.edge with
    | parkStore target notice' hpc' =>
      cases hpc'.symm.trans hpc
      rw [hnone]
      exact ⟨rfl, rfl⟩
    | sleepPush _ hpc' => cases hpc'.symm.trans hpc
    | _ => simp_all
  refine ⟨fun h' hlt' => ?_, fun n hn => ?_, by rw [move.mgr]; exact hnote⟩
  · rw [move.nHarts] at hlt'
    obtain ⟨hcur, hinbox, hname⟩ := hharts h' hlt'
    by_cases hh : h' = h
    · subst hh
      rw [move.hart_self, hidle.1]
      exact ⟨hcur, hinbox, fun _ => by simp⟩
    · rw [move.hart_ne hh]
      exact ⟨hcur, hinbox, fun _ => hname (by simpa using hh)⟩
  · rw [move.eq, hidle.2] at hn
    exact hsleep n (by simpa using hn)

theorem quiet_mgr {m : Mgr} (edge : MgrEdge s m s') (hm : s.mgr = some m)
    (hpublish : ∀ h hs, m.pc ≠ .assignPublish t h hs) (hpush : m.pc ≠ .resumePush t)
    (hq : s.quiet none t) : s'.quiet none t := by
  obtain ⟨hharts, hsleep, hnote⟩ := hq
  refine ⟨fun h hlt => ?_, fun n hn => hsleep n (edge.sleepInbox hn), edge.note hm hnote hsleep⟩
  obtain ⟨hcur, hinbox, hpc⟩ := hharts h (edge.nHarts ▸ hlt)
  refine ⟨fun hcur' => ?_, fun hmem => ?_, fun hself => ?_⟩
  · rcases edge.current hcur' with hold | ⟨hs, hat⟩
    · exact hcur hold
    · exact hpublish h hs hat
  · rcases edge.inbox hmem with hold | hat
    · exact hinbox hold
    · exact hpush hat
  · rw [edge.hart_pc]
    exact hpc hself

end Quiet

/-- A thread that is Exited after a step was so before, or the step made it so. -/
theorem exited_or_stores (hs : step s a = some s') (hst : (s'.threads t).state = .exited) :
    (s.threads t).state = .exited ∨ s.stores a = some (t, .exited) := by
  cases step_thread hs t with
  | alike hl => exact .inl (hl.state ▸ hst)
  | store st hstore he =>
    rw [he] at hst
    cases hst
    exact .inr hstore
  | empty _ he =>
    rw [he] at hst
    exact .inl hst
  | copy _ _ _ _ he =>
    rw [he] at hst
    exact .inl hst
  | publish _ _ _ _ _ _ he =>
    rw [he] at hst
    exact .inl hst
  | save _ _ _ _ _ _ hsame => exact .inl (hsame ▸ hst)
  | fresh _ he =>
    obtain ⟨pid, allowed, affinity, frame, he⟩ := he
    rw [he] at hst
    cases hst

/-- What is known of threads that are Exited or freed. -/
structure Reaped (s : State) : Prop where
  quiet : ∀ t, (s.threads t).state = .exited → s.quiet none t
  gone : ∀ t, (s.threads t).freed → t < s.nextTid ∧ (s.threads t).state = .exited ∧ t ∉ s.ready ∧
    ∀ n ∈ s.heap, n.thread ≠ t
  fault : ∀ t, s.fault ≠ some (.useAfterFree t)

namespace Reaped

variable (inv : Inv s) (ros : Roster s s.reaping) (rea : Reaped s)

include inv rea

theorem quiet_step (hquiet : ExitQuiet s a) (hs : step s a = some s')
    (hst : (s'.threads t).state = .exited) : s'.quiet none t := by
  have hcase := exited_or_stores hs hst
  cases step_outcome hs with
  | hart h trap hlt _ hmove =>
    rcases hartStep_outcome hmove with
      ⟨u, hart, th, ws, ns, move⟩ | ⟨_, _, _, rfl, _⟩ | ⟨_, _, _, rfl⟩
    · rcases hcase with hold | hstore
      · exact quiet_hart move hlt (inv.wf h hlt) (rea.quiet t hold)
      have hq := hquiet t hstore
      simp only [stores] at hstore
      cases hpc : (s.harts h).pc <;> simp [hpc] at hstore
      obtain ⟨rfl, rfl⟩ := hstore
      exact quiet_exit move (inv.wf h hlt) hpc hq
    · exact rea.quiet t hst
    · exact rea.quiet t hst
  | manager c m hm hmove =>
    rcases mgrStep_outcome hmove with ⟨edge⟩ | ⟨_, _, _, rfl, _⟩ | ⟨_, _, rfl, _⟩
    · have hallow := (inv.mgr m hm).2 t
      rcases hcase with hold | hstore
      · refine quiet_mgr edge hm (fun h hs hpc => ?_) (fun hpc => ?_) (rea.quiet t hold)
        · simp [hpc, hold] at hallow
        · simp [hpc, hold] at hallow
      refine quiet_mgr edge hm (fun h hs hpc => ?_) (fun hpc => ?_) (hquiet t hstore)
      · simp [stores, hm, hpc] at hstore
      · simp [stores, hm, hpc] at hstore
    · exact rea.quiet t hst
    · exact rea.quiet t hst
  | lock h _ hm _ he =>
    subst he
    obtain ⟨hharts, hsleep, -⟩ := rea.quiet t hst
    exact ⟨hharts, hsleep, rfl⟩
  | wake ev queue _ he =>
    subst he
    exact rea.quiet t hst

include ros

theorem gone_mgr {c : Choice} {m : Mgr} (hm : s.mgr = some m) (edge : MgrEdge s m s')
    (hs : step s (.manager c) = some s') (hf : (s'.threads t).freed) :
    t < s'.nextTid ∧ (s'.threads t).state = .exited ∧ t ∉ s'.ready ∧
      ∀ n ∈ s'.heap, n.thread ≠ t := by
  have hallow := (inv.mgr m hm).2 t
  rcases edge.freed hf with hold | ⟨⟨tids, pids, hpc⟩, hreg, hready, hheap⟩
  · obtain ⟨hlt, hst, hready, hheap⟩ := rea.gone t hold
    obtain ⟨hharts, -, hnote⟩ := rea.quiet t hst
    refine ⟨Nat.lt_of_lt_of_le hlt (step_nextTid hs), inv.exited_step hs hlt hst, fun hmem => ?_,
      fun n hn he => ?_⟩
    · rcases edge.ready hmem with hmem | ⟨a, hpc⟩ | ⟨h, hlt', hmem⟩ | rfl
      · exact hready hmem
      · simp [hpc, hst] at hallow
      · exact (hharts h hlt').2.1 hmem
      · exact Nat.lt_irrefl _ hlt
    rcases edge.heap hn with hn | hpc
    · exact hheap n hn he
    · simp [hm, hpc, he] at hnote
  have hst : (s.threads t).state = .exited := by simpa [hpc] using hallow
  have hlt := ros.below t hreg
  exact ⟨Nat.lt_of_lt_of_le hlt (step_nextTid hs), inv.exited_step hs hlt hst, hready, hheap⟩

theorem preserved (hquiet : ExitQuiet s a) (hs : step s a = some s') : Reaped s' := by
  refine ⟨fun t => rea.quiet_step inv hquiet hs, ?_, ?_⟩
  · intro t hf
    cases step_outcome hs with
    | hart h trap hlt _ hmove =>
      rcases hartStep_outcome hmove with
        ⟨u, hart, th, ws, ns, move⟩ | ⟨_, _, _, rfl, _⟩ | ⟨_, _, _, rfl⟩
      · have hold : (s.threads t).freed := by
          by_cases ht : t = u
          · subst ht
            rw [← move.edge.freed, ← move.thread_self]
            exact hf
          · exact move.thread_ne ht ▸ hf
        obtain ⟨hlt, hst, hready, hheap⟩ := rea.gone t hold
        refine ⟨Nat.lt_of_lt_of_le hlt (step_nextTid hs), inv.exited_step hs hlt hst, ?_, ?_⟩
        · rw [move.eq]
          exact hready
        · rw [move.eq]
          exact hheap
      · exact rea.gone t hf
      · exact rea.gone t hf
    | manager c m hm hmove =>
      rcases mgrStep_outcome hmove with ⟨edge⟩ | ⟨_, _, _, rfl, _⟩ | ⟨_, _, rfl, _⟩
      · exact rea.gone_mgr inv ros hm edge hs hf
      · exact rea.gone t hf
      · exact rea.gone t hf
    | lock h _ _ _ he =>
      subst he
      exact rea.gone t hf
    | wake ev queue _ he =>
      subst he
      exact rea.gone t hf
  · intro t hfault
    have hnone := step_fault hs
    cases step_outcome hs with
    | hart h trap hlt _ hmove =>
      rcases hartStep_outcome hmove with
        ⟨u, hart, th, ws, ns, move⟩ | ⟨_, _, _, rfl, _⟩ | ⟨u, hpc, hf, rfl⟩
      · rw [move.eq] at hfault
        cases hnone.symm.trans hfault
      · cases hfault
      · obtain ⟨-, hst, -⟩ := rea.gone u hf
        exact ((rea.quiet u hst).1 h hlt).2.2 (by simp) hpc
    | manager c m hm hmove =>
      rcases mgrStep_outcome hmove with ⟨edge⟩ | ⟨_, _, _, rfl, _⟩ | ⟨u, hf, rfl, hat⟩
      · cases hnone.symm.trans (edge.fault.symm.trans hfault)
      · cases hfault
      obtain ⟨-, hst, hready, hheap⟩ := rea.gone u hf
      rcases hat with ⟨n, hpc, hn⟩ | ⟨n, hmem, hn⟩ | hmem
      · have hnote := (rea.quiet u hst).2.2
        simp [hm, hpc, hn] at hnote
      · exact hheap n hmem hn
      · exact hready hmem
    | lock h _ _ _ he =>
      subst he
      cases hnone.symm.trans hfault
    | wake ev queue _ he =>
      subst he
      cases hnone.symm.trans hfault

end Reaped

theorem Boot.reaped (boot : Boot s) : Reaped s := by
  refine ⟨fun t _ => ⟨fun h _ => ?_, ?_, ?_⟩, fun t hf => ?_, fun t hfault => ?_⟩
  · simp [boot.harts h]
  · simp [boot.sleepInbox]
  · simp [boot.mgr]
  · rcases boot.thread t with hfresh | hun
    · simp [hfresh.freed] at hf
    · simp [hun, Thread.unallocated, Thread.new] at hf
  · simp [boot.fault] at hfault

/-- In every run in which a thread becomes Exited only when nothing but the hart that
exits it refers to it, and a manager-resolved syscall is issued only after the thread's
earlier parks are finished: from the moment a thread is freed no hart, inbox, queue or
sleep notice refers to it, and the kernel never accesses a freed thread. -/
theorem reaper_safe (run : Reach step (fun s a => Settled s a ∧ ExitQuiet s a) Boot s) :
    (∀ t, (s.threads t).freed → s.unreferenced t) ∧ ∀ t, s.fault ≠ some (.useAfterFree t) := by
  have known : ∀ s, Reach step (fun s a => Settled s a ∧ ExitQuiet s a) Boot s →
      Inv s ∧ Roster s s.reaping := fun s run =>
    ⟨reach_inv (fun _ _ hg => ⟨hg.1, hg.2.killClear⟩) run, reach_roster run⟩
  have rea : Reaped s := run.invariant_of known (fun _ => Boot.reaped)
    fun s a s' hknown rea hguard hs => rea.preserved hknown.1 hknown.2 hguard.2 hs
  refine ⟨fun t hf => ?_, rea.fault⟩
  obtain ⟨-, hst, hready, hheap⟩ := rea.gone t hf
  obtain ⟨hharts, hsleep, -⟩ := rea.quiet t hst
  refine ⟨fun h hlt => ?_, hready, hsleep, hheap⟩
  obtain ⟨hcur, hinbox, hpc⟩ := hharts h hlt
  exact ⟨hcur, hinbox, hpc (by simp)⟩

theorem reaper_safe_thread_exit : ∃ s,
    Reach step (fun s a => Settled s a ∧ ExitQuiet s a) Boot s ∧ (s.threads 0).freed ∧
      s.unreferenced 0 ∧ ∀ t, s.fault ≠ some (.useAfterFree t) := by
  have hboot : Reach step (fun s a => Settled s a ∧ ExitQuiet s a) Boot (startState 3 [1]) :=
    .start (startState_boot 3 [1])
  obtain ⟨s, run, hf⟩ := hboot.exists_of_exec
    ([.lock 0] ++ ticks 8 ++ [.manager (.clock 0)] ++ ticks 15 ++ accesses 1 4 ++
      [.hart 1 (.threadExit fun _ => 0)] ++ accesses 1 4 ++ [.lock 2] ++ ticks 4)
    (fun s : State => (s.threads 0).freed = true) (by decide +kernel)
  have hsafe := reaper_safe run
  exact ⟨s, run, hf, hsafe.1 0 hf, hsafe.2⟩

/-- The sibling of an exiting thread is killed while hart 0 runs it, and the next pass
reaps it before hart 0 has taken its interrupt. -/
def reapRunning : List Action :=
  killOn0 (accesses 0 4) ++ ticks 5 ++ [.manager (.clock 0)] ++ ticks 10 ++ accesses 1 4 ++
  [.lock 2] ++ ticks 6

theorem reaper_frees_running_thread :
    (∃ s, Reach step (fun s a => Settled s a ∧ KillClear s a) Boot s ∧ (s.threads 0).freed ∧
      (s.harts 0).current = some 0) ∧
    ∃ s, Reach step (fun s a => Settled s a ∧ KillClear s a) Boot s ∧
      s.fault = some (.useAfterFree 0) := by
  have hboot : Reach step (fun s a => Settled s a ∧ KillClear s a) Boot (startState 3 [1, 1]) :=
    .start (startState_boot 3 [1, 1])
  constructor
  · exact hboot.exists_of_exec reapRunning
      (fun s : State => (s.threads 0).freed = true ∧ (s.harts 0).current = some 0)
      (by decide +kernel)
  · exact hboot.exists_of_exec (reapRunning ++ accesses 0 1)
      (fun s : State => s.fault = some (.useAfterFree 0)) (by decide +kernel)

end Orbit.Sched
