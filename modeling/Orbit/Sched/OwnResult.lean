import Orbit.Sched.DispatchRight
import Orbit.Sched.Effects

/-!
Results reach the syscall they were produced for. Every request, slot and taken result
of a thread carries the number of the syscall that waits for it, because a thread does
not issue a syscall while anything of an earlier one is outstanding. A result is
copied into the frame of a Blocking thread before the thread is promoted.
-/

namespace Orbit.Sched

open Transition Function State Thread

variable {m : Mgr} {pc : MgrPc} {c : Nat} {p : Published} {st : ThreadState} {u : Tid}

variable {s s' : State} {a : Action} {t : Tid} {h : Nat}

namespace Thread

/-- `p` is what the manager produced for the thread's latest syscall, as far as the
return registers hold it. -/
def Answers (th : Thread) (p : Published) : Prop :=
  p.call = th.calls ∧
    ∃ vals, th.answer = some ⟨th.calls, vals⟩ ∧ p.vals.take maxRets = vals.take maxRets

theorem holds_take {regs : Nat → Int} {vals : List Int} :
    Holds regs (vals.take maxRets) ↔ Holds regs vals := by
  have hlen : min (vals.take maxRets).length maxRets = min vals.length maxRets := by
    rw [List.length_take]
    omega
  constructor
  · intro hh i hi
    have := hh i (hlen ▸ hi)
    rwa [List.getD_eq_getElem?_getD, List.getElem?_take_of_lt (by omega),
      ← List.getD_eq_getElem?_getD] at this
  intro hh i hi
  rw [hlen] at hi
  have := hh i hi
  rwa [List.getD_eq_getElem?_getD, List.getElem?_take_of_lt (by omega),
    ← List.getD_eq_getElem?_getD]

/-- The return registers hold what the manager produced for the latest syscall. -/
def Returned (th : Thread) : Prop :=
  ∃ vals, th.answer = some ⟨th.calls, vals⟩ ∧ Holds th.regs vals

end Thread

/-- How far an answer has come on its way into the frame. -/
inductive Stage where
  | asked
  | taken
  | written

variable {g : Stage}

/-- What is known of an answer at each stage. -/
def Stage.Fits : Stage → Thread → Published → Prop
  | .asked, th, p => p.call = th.calls
  | .taken, th, p => th.Answers p
  | .written, th, p => th.Answers p ∧ Thread.Holds th.regs p.vals

/-- The answer a hart has taken. -/
@[simp] def HartPc.item : HartPc → Option (Stage × Tid × Published)
  | .claimed t p => some (.taken, t, p)
  | .claimLoad t p | .claimStore t p => some (.written, t, p)
  | _ => none

/-- The answer the manager deals with. -/
@[simp] def MgrPc.item : MgrPc → Option (Stage × Tid × Published)
  | .resume t p | .resumeWrite t p | .publish t p => some (.asked, t, p)
  | .marshal t p _ => some (.taken, t, p)
  | .resumeReset t p | .resumeLoad t p | .resumeStore t p | .swapWake t (some p) _
  | .promoteLoad t (some p) _ | .promoteStore t (some p) _ => some (.written, t, p)
  | _ => none

/-- Whatever is outstanding for a thread belongs to its latest syscall. -/
structure OwnResults (s : State) : Prop where
  work : ∀ w ∈ s.work, ∀ t c, w.request = some (t, c) → c = (s.threads t).calls
  waiters : ∀ t c, (t, c) ∈ s.waiters → c = (s.threads t).calls
  slot : ∀ t p, (s.threads t).pending = some p → (s.threads t).Answers p
  hart : ∀ h, h < s.nHarts → ∀ g t p, (s.harts h).pc.item = some (g, t, p) →
    g.Fits (s.threads t) p
  mgr : ∀ m, s.mgr = some m → ∀ g t p, m.pc.item = some (g, t, p) → g.Fits (s.threads t) p

section Outstanding

theorem HartPc.res_of_item {pc : HartPc} (hitem : pc.item = some (g, t, p)) : pc.res t = 1 := by
  cases pc <;> simp_all

theorem MgrPc.res_of_item (hitem : pc.item = some (g, t, p)) : pc.res t = 1 := by
  cases pc <;> simp_all
  all_goals
    next rets _ => cases rets <;> simp_all

theorem countP_request {w : Work} {ws : List Work} (hw : w ∈ ws)
    (hreq : w.request = some (t, c)) : 1 ≤ ws.countP (Work.isCall t) := by
  refine List.countP_pos_iff.mpr ⟨w, hw, ?_⟩
  cases w <;> simp_all [Work.request, Work.isCall]

theorem countP_waiter {ws : List (Tid × Nat)} (hw : (t, c) ∈ ws) :
    1 ≤ ws.countP (fun w => w.1 = t) :=
  List.countP_pos_iff.mpr ⟨_, hw, by simp⟩

end Outstanding

/-- The right to resume `t` that the actor of a step holds. -/
def State.actorRes (s : State) (t : Tid) : Action → Nat
  | .hart h _ => (s.harts h).pc.res t
  | .manager _ => weigh s.mgr (·.res t)
  | _ => 0

theorem actorRes_of_copies (hc : s.copies a = some (t, p)) : s.actorRes t a = 1 := by
  cases a with
  | hart h trap =>
    simp only [copies] at hc
    simp only [State.actorRes]
    cases hpc : (s.harts h).pc <;> simp_all
  | manager c =>
    simp only [copies, Option.bind_eq_some_iff] at hc
    obtain ⟨m, hm, hc⟩ := hc
    simp only [State.actorRes, hm, weigh_some]
    cases hpc : m.pc <;> simp_all
  | lock h => cases hc
  | wake ev => cases hc

section Keep

variable (inv : Inv s) (hs : step s a = some s')

include inv

theorem Inv.lt_of_res (hres : 1 ≤ s.res t) : t < s.nextTid := by
  by_contra hge
  have := ((inv.ok t).fresh (by simp [ledger, hge])).2.2.2.2.2.2.1
  simp only [ledger] at this
  omega

theorem Inv.not_running (hlt : h < s.nHarts) (hres : 1 ≤ s.res t) :
    (s.harts h).pc ≠ .running t := by
  intro hpc
  have hrun : (s.harts h).pc.run t ≤ s.run t := le_census hlt (·.pc.run t) s.harts
  have hruns := (inv.ok t).runs
  simp only [hpc, HartPc.run, one_self] at hrun
  simp only [ledger] at hruns
  omega

include hs

/-- A step of another actor keeps what is known of an outstanding answer. -/
theorem fits_keep (hres : 1 ≤ s.res t) (hactor : s.actorRes t a = 0)
    (hst : g = .written → (s.threads t).state = .blocking) (hfit : g.Fits (s.threads t) p) :
    g.Fits (s'.threads t) p := by
  have same : ∀ th', th'.calls = (s.threads t).calls → th'.answer = (s.threads t).answer →
      (g = .written → th'.regs = (s.threads t).regs) → g.Fits th' p := by
    intro th' hcalls hans hregs
    cases g with
    | asked => exact hfit.trans hcalls.symm
    | taken => simpa only [Stage.Fits, Thread.Answers, hcalls, hans] using hfit
    | written => simpa only [Stage.Fits, Thread.Answers, hcalls, hans, hregs rfl] using hfit
  cases step_thread hs t with
  | alike hl => exact same _ hl.calls hl.answer fun _ => hl.regs
  | store st _ he => rw [he]; exact same _ rfl rfl fun _ => rfl
  | empty _ he => rw [he]; exact same _ rfl rfl fun _ => rfl
  | copy p hc => exact absurd (actorRes_of_copies hc) (by omega)
  | publish c ha m p hm hpc =>
    subst ha
    simp [State.actorRes, hm, hpc] at hactor
  | fresh ht => exact absurd (inv.lt_of_res hres) (ht ▸ Nat.lt_irrefl _)
  | save h trap ha hlt hpc _ _ _ hans hcalls =>
    have hrun := inv.not_running hlt hres
    refine same _ (hcalls.resolve_right fun hc => hrun hc.1) hans fun hg => ?_
    -- a commit saves the frame of a thread that is not parked yet
    obtain ⟨target, frame, deadline, hpc⟩ := hpc.resolve_left hrun
    have hallow := inv.harts h hlt t
    simp only [hpc, HartPc.allows, forall_const, hst hg] at hallow
    simp at hallow

end Keep

section Alone

/-- The actor's own share of the right to resume `t`. -/
theorem actorRes_le (hs : step s a = some s') :
    s.actorRes t a ≤ weigh s.mgr (·.res t) + s.perHart (·.pc.res t) := by
  cases step_outcome hs with
  | hart h trap hlt =>
    have : (s.harts h).pc.res t ≤ s.perHart (·.pc.res t) := le_census hlt (·.pc.res t) s.harts
    simp only [State.actorRes]
    omega
  | manager => exact Nat.le_add_right _ _
  | lock | wake => exact Nat.zero_le _

variable (inv : Inv s)

include inv

theorem request_alone {w : Work} (hs : step s a = some s') (hw : w ∈ s.work)
    (hreq : w.request = some (t, c)) : 1 ≤ s.res t ∧ s.actorRes t a = 0 := by
  have hcount := countP_request hw hreq
  have hle := actorRes_le (t := t) hs
  have hright := (inv.ok t).right
  simp only [ledger, res] at hright ⊢
  omega

theorem waiter_alone (hs : step s a = some s') (hw : (t, c) ∈ s.waiters) :
    1 ≤ s.res t ∧ s.actorRes t a = 0 := by
  have hcount := countP_waiter hw
  have hle := actorRes_le (t := t) hs
  have hright := (inv.ok t).right
  simp only [ledger, res] at hright ⊢
  omega

theorem slot_alone (hs : step s a = some s') (hp : (s.threads t).pending = some p) :
    1 ≤ s.res t ∧ s.actorRes t a = 0 := by
  have hle := actorRes_le (t := t) hs
  have hright := (inv.ok t).right
  simp only [ledger, res, hp, Option.isSome_some, if_true] at hright ⊢
  omega

theorem hart_alone (hlt : h < s.nHarts) (hitem : (s.harts h).pc.item = some (g, t, p))
    (ha : (∃ h' trap, a = .hart h' trap ∧ h' < s.nHarts ∧ h' ≠ h) ∨ ∃ c, a = .manager c) :
    1 ≤ s.res t ∧ s.actorRes t a = 0 := by
  have hone := HartPc.res_of_item hitem
  have hle : (s.harts h).pc.res t ≤ s.perHart (·.pc.res t) := le_census hlt (·.pc.res t) s.harts
  have hright := (inv.ok t).right
  simp only [ledger, res] at hright ⊢
  rcases ha with ⟨h', trap, rfl, hlt', hne⟩ | ⟨c, rfl⟩
  · have : (s.harts h').pc.res t + (s.harts h).pc.res t ≤ s.perHart (·.pc.res t) :=
      add_le_census hlt' hlt hne (·.pc.res t) s.harts
    simp only [State.actorRes]
    omega
  · simp only [State.actorRes]
    omega

theorem mgr_alone {trap : Trap} (hm : s.mgr = some m)
    (hitem : m.pc.item = some (g, t, p)) (hlt : h < s.nHarts) :
    1 ≤ s.res t ∧ s.actorRes t (.hart h trap) = 0 := by
  have hone := MgrPc.res_of_item hitem
  have hle : (s.harts h).pc.res t ≤ s.perHart (·.pc.res t) := le_census hlt (·.pc.res t) s.harts
  have hright := (inv.ok t).right
  simp only [ledger, res, hm, weigh_some] at hright ⊢
  simp only [State.actorRes]
  omega

end Alone

theorem MgrPc.written_blocking
    (hitem : pc.item = some (.written, t, p)) (hallow : pc.allows t st) : st = .blocking := by
  cases pc <;> simp_all
  all_goals
    next rets _ => cases rets <;> simp_all

theorem HartPc.written_blocking {pc : HartPc}
    (hitem : pc.item = some (.written, t, p)) (hallow : pc.allows t st) : st = .blocking := by
  cases pc <;> simp_all

section Hart

variable {hart : Hart} {th : Thread} {ws : List Work} {ns : List SleepNotice}

/-- An answer a hart has taken came from the slot or was taken before. -/
theorem HartEdge.item (edge : HartEdge (s.harts h) t (s.threads t) hart th ws ns)
    (hitem : hart.pc.item = some (g, u, p)) :
    u = t ∧ ((g = .taken ∧ (s.threads t).pending = some p ∧ th = (s.threads t).resetPending) ∨
      (g = .written ∧ (s.harts h).pc.item = some (.taken, t, p) ∧
        th = (s.threads t).writeRets p.vals) ∨
      (s.harts h).pc.item = some (g, t, p) ∧ th = s.threads t) := by
  cases edge with
  | parkLoadDead target notice | parkStore target notice =>
    cases notice <;> cases target <;> simp [afterPark] at hitem
  | claim p' hpc hp =>
    simp only [HartPc.item] at hitem
    cases hitem
    exact ⟨rfl, Or.inl ⟨rfl, hp, rfl⟩⟩
  | claimed p' hpc =>
    simp only [HartPc.item] at hitem
    cases hitem
    exact ⟨rfl, Or.inr (.inl ⟨rfl, by simp [hpc], rfl⟩)⟩
  | claimLoad p' hpc =>
    simp only [HartPc.item, Option.some.injEq, Prod.mk.injEq] at hitem
    obtain ⟨rfl, rfl, rfl⟩ := hitem
    exact ⟨rfl, Or.inr (.inr ⟨by simp [hpc], rfl⟩)⟩
  | _ => simp at hitem

end Hart

/-- The next answer of the manager at a load is the one it had. -/
theorem MgrGoto.item {self : Nat} {pc pc' : MgrPc}
    (move : MgrGoto s self pc pc') (hitem : pc'.item = some (g, t, p)) :
    pc.item = some (g, t, p) := by
  have caller : ∀ k : ScanCaller, k.pc.item = none := by
    intro k
    rcases k with _ | ⟨_ | _⟩ <;> rfl
  have after : ∀ a : After, a.pc.item = none := by
    intro a
    cases a <;> rfl
  cases move with
  | scanDone | nudgeSkip => cases (caller _).symm.trans hitem
  | claimMiss | takeNone => cases (after _).symm.trans hitem
  | promoteLoad u rets => cases rets <;> exact hitem
  | _ => first | exact hitem | simp at hitem

theorem scanVerb_item {signaled : Bool} {k : Scan} :
    (scanVerb u st signaled k).item = none := by
  unfold scanVerb
  split
  · rfl
  · split <;> rfl

/-- The next answer of the manager at a write: it was asked for, taken out of the slot
or written into the frame. -/
theorem MgrWrite.fits {pc pc' : MgrPc} {th : Thread}
    (move : MgrWrite s pc u th pc') (hslot : ∀ p, (s.threads u).pending = some p →
      (s.threads u).Answers p) (hfit : ∀ g p, pc.item = some (g, u, p) → g.Fits (s.threads u) p)
    (hitem : pc'.item = some (g, t, p)) : t = u ∧ g.Fits th p := by
  cases move with
  | resumeWrite _ p' =>
    simp only [MgrPc.item, Option.some.injEq, Prod.mk.injEq] at hitem
    obtain ⟨rfl, rfl, rfl⟩ := hitem
    have hcall : p'.call = (s.threads u).calls := hfit .asked p' rfl
    refine ⟨rfl, ⟨hcall, p'.vals, ?_, rfl⟩, holds_marshal _ _⟩
    show some p' = some ⟨(s.threads u).calls, p'.vals⟩
    rw [← hcall]
  | resumeReset _ p' =>
    simp only [MgrPc.item, Option.some.injEq, Prod.mk.injEq] at hitem
    obtain ⟨rfl, rfl, rfl⟩ := hitem
    exact ⟨rfl, hfit .written p' rfl⟩
  | take _ a p' hp =>
    simp only [MgrPc.item, Option.some.injEq, Prod.mk.injEq] at hitem
    obtain ⟨rfl, rfl, rfl⟩ := hitem
    exact ⟨rfl, hslot p' hp⟩
  | marshal _ p' a =>
    simp only [MgrPc.item, Option.some.injEq, Prod.mk.injEq] at hitem
    obtain ⟨rfl, rfl, rfl⟩ := hitem
    exact ⟨rfl, hfit .taken p' rfl, holds_marshal _ _⟩
  | swapWake _ rets a =>
    cases rets with
    | none => simp at hitem
    | some p' =>
      simp only [MgrPc.item, Option.some.injEq, Prod.mk.injEq] at hitem
      obtain ⟨rfl, rfl, rfl⟩ := hitem
      exact ⟨rfl, hfit .written p' rfl⟩
  | scanNote => cases scanVerb_item.symm.trans hitem
  | _ => simp at hitem

namespace OwnResults

variable (inv : Inv s) (own : OwnResults s)

include inv own

/-- The slot after a step of any actor. -/
theorem slot_step (hs : step s a = some s')
    (hp : (s'.threads t).pending = some p) : (s'.threads t).Answers p := by
  have keep : (s.threads t).pending = some p → (s'.threads t).Answers p := by
    intro hslot
    obtain ⟨hres, hactor⟩ := slot_alone inv hs hslot
    exact fits_keep inv hs hres hactor (g := .taken) nofun (own.slot t p hslot)
  cases step_thread hs t with
  | alike hl => exact keep (hl.pending ▸ hp)
  | store st _ he =>
    rw [he] at hp
    exact keep hp
  | copy q _ ans _ he =>
    rw [he] at hp
    exact keep hp
  | save h trap _ _ _ _ _ hpend => exact keep (hpend ▸ hp)
  | empty _ he =>
    rw [he] at hp
    cases hp
  | fresh _ he =>
    obtain ⟨pid, allowed, affinity, frame, he⟩ := he
    rw [he] at hp
    cases hp
  | publish c _ m q hm hpc he =>
    rw [he] at hp ⊢
    have hcall : q.call = (s.threads t).calls := own.mgr m hm .asked t q (by simp [hpc])
    cases hp
    refine ⟨hcall, q.vals, ?_, by simp⟩
    show some q = some ⟨(s.threads t).calls, q.vals⟩
    rw [← hcall]

theorem hart_step {trap : Trap} (hlt : h < s.nHarts) (hs : step s (.hart h trap) = some s')
    (hmove : hartStep s h trap = some s') : OwnResults s' := by
  rcases hartStep_outcome hmove with
    ⟨u, hart, th, ws, ns, hframe, hedge⟩ | ⟨_, _, _, rfl, _⟩ | ⟨_, _, _, rfl⟩
  · refine ⟨?_, ?_, fun t p => own.slot_step inv hs, ?_, ?_⟩
    · intro w hw t c hreq
      have hw : w ∈ s.work ∨ w ∈ ws := by
        simpa [hframe] using hw
      rcases hw with hw | hw
      · obtain ⟨hres, hactor⟩ := request_alone inv hs hw hreq
        exact fits_keep inv hs hres hactor (g := .asked) (p := ⟨c, []⟩) nofun
          (own.work w hw t c hreq)
      cases hedge with
      | issue hpc frame w' hw' =>
        cases List.mem_singleton.mp hw
        cases hw'.symm.trans hreq
        simp [hframe]
      | exit =>
        cases List.mem_singleton.mp hw
        cases hreq
      | _ => cases hw
    · intro t c hw
      have hw : (t, c) ∈ s.waiters := by simpa [hframe] using hw
      obtain ⟨hres, hactor⟩ := waiter_alone inv hs hw
      exact fits_keep inv hs hres hactor (g := .asked) (p := ⟨c, []⟩) nofun
        (own.waiters t c hw)
    · intro h' hlt' g t p hitem
      have hn : s'.nHarts = s.nHarts := by rw [hframe]
      have hharts : s'.harts = update s.harts h hart := by rw [hframe]
      have hthread : s'.threads u = th := by simp [hframe]
      rw [hn] at hlt'
      by_cases hh : h' = h
      · subst hh
        rw [hharts, update_self] at hitem
        obtain ⟨rfl, hcase⟩ := hedge.item hitem
        rw [hthread]
        rcases hcase with ⟨rfl, hp, rfl⟩ | ⟨rfl, hitem, rfl⟩ | ⟨hitem, rfl⟩
        · exact own.slot _ p hp
        · exact ⟨own.hart h' hlt' .taken _ p hitem, holds_marshal _ _⟩
        · exact own.hart h' hlt' g _ p hitem
      rw [hharts, update_of_ne hh] at hitem
      obtain ⟨hres, hactor⟩ := hart_alone inv hlt' hitem (.inl ⟨h, trap, rfl, hlt, Ne.symm hh⟩)
      refine fits_keep inv hs hres hactor (fun hg => ?_) (own.hart h' hlt' g t p hitem)
      subst hg
      exact HartPc.written_blocking hitem (inv.harts h' hlt' t)
    · intro m hm g t p hitem
      have hm : s.mgr = some m := by rw [← hm, hframe]
      obtain ⟨hres, hactor⟩ := mgr_alone inv hm hitem hlt
      refine fits_keep inv hs hres hactor (fun hg => ?_) (own.mgr m hm g t p hitem)
      subst hg
      exact MgrPc.written_blocking hitem ((inv.mgr m hm).2 t)
  · exact { own with }
  · exact { own with }

/-- The answer the manager deals with after an edge. -/
theorem mgr_edge {m m' : Mgr} (hm : s.mgr = some m)
    (edge : MgrEdge s m s') (hm' : s'.mgr = some m') (hitem : m'.pc.item = some (g, t, p)) :
    g.Fits (s'.threads t) p := by
  have answered : ∀ {s₁ : State} {u : Tid} {q : Published} {pc : MgrPc}, Answered s₁ u q pc →
      pc.item = some (g, t, p) → q.call = (s.threads u).calls →
      s'.threads u = s.threads u → g.Fits (s'.threads t) p := by
    intro s₁ u q pc hans hitem hcall hsame
    rcases hans with rfl | ⟨rfl, _⟩ | ⟨rfl, _⟩ <;>
      simp only [MgrPc.item, Option.some.injEq, Prod.mk.injEq, reduceCtorEq] at hitem
    all_goals
      obtain ⟨rfl, rfl, rfl⟩ := hitem
      rw [hsame]
      exact hcall
  cases edge with
  | goto pc move =>
    cases hm'
    exact own.mgr m hm g t p (move.item hitem)
  | write u th pc move =>
    cases hm'
    obtain ⟨rfl, hfit⟩ := move.fits (own.slot u) (fun g p => own.mgr m hm g u p) hitem
    simpa [State.goto, setThread] using hfit
  | answer i u q pc _ hi hans =>
    cases hm'
    exact answered hans hitem (own.waiters u q.call (List.mem_of_getElem? hi)) rfl
  | serve u q rest pc _ hwork hans =>
    cases hm'
    exact answered hans hitem (own.work (.call u q.call) (by simp [hwork]) u _ rfl) rfl
  | spawnFails u q pid _ _ _ rest pc _ hwork hans =>
    cases hm'
    exact answered hans hitem (own.work _ (by rw [hwork]; exact .head _) u _ rfl) rfl
  | spawn u q pid parentAllowed allowed affinity rest proc th pc _ hwork _ _ hans =>
    cases hm'
    have hmem : .createThread u q.call pid parentAllowed allowed affinity ∈ s.work := by
      rw [hwork]
      exact .head _
    have hlt : u < s.nextTid := inv.lt_of_res (by
      have := countP_request hmem rfl
      simp only [res]
      omega)
    refine answered hans hitem (own.work _ hmem u _ rfl) ?_
    exact update_of_ne (Nat.ne_of_lt hlt) ..
  | popWake ev rest pc _ _ hnext =>
    cases hm'
    rcases hnext with ⟨k, _, rfl⟩ | ⟨_, rfl⟩ <;> cases hitem
  | pushReady u a =>
    cases hm'
    cases a <;> cases hitem
  | release => cases hm'
  | _ =>
    cases hm'
    cases hitem

theorem mgr_step {c : Choice} (hm : s.mgr = some m)
    (hs : step s (.manager c) = some s') (hmove : mgrStep s m c = some s') : OwnResults s' := by
  rcases mgrStep_outcome hmove with ⟨edge⟩ | ⟨_, _, _, rfl, _⟩ | ⟨_, _, rfl, _⟩
  · refine ⟨?_, ?_, fun t p => own.slot_step inv hs, ?_, ?_⟩
    · intro w hw t c' hreq
      have hw := edge.work hw
      obtain ⟨hres, hactor⟩ := request_alone inv hs hw hreq
      exact fits_keep inv hs hres hactor (g := .asked) (p := ⟨c', []⟩) nofun
        (own.work w hw t c' hreq)
    · intro t c' hw
      rcases edge.waiters hw with hw | ⟨rest, hw, he⟩
      · obtain ⟨hres, hactor⟩ := waiter_alone inv hs hw
        exact fits_keep inv hs hres hactor (g := .asked) (p := ⟨c', []⟩) nofun
          (own.waiters t c' hw)
      · rw [he]
        exact own.work (.call t c') (by simp [hw]) t c' rfl
    · intro h hlt g t p hitem
      rw [edge.nHarts] at hlt
      rw [edge.hart_pc] at hitem
      obtain ⟨hres, hactor⟩ := hart_alone inv hlt hitem (.inr ⟨c, rfl⟩)
      refine fits_keep inv hs hres hactor (fun hg => ?_) (own.hart h hlt g t p hitem)
      subst hg
      exact HartPc.written_blocking hitem (inv.harts h hlt t)
    · intro m' hm' g t p hitem
      exact own.mgr_edge inv hm edge hm' hitem
  · exact { own with }
  · exact { own with }

theorem preserved (hs : step s a = some s') : OwnResults s' := by
  cases step_outcome hs with
  | hart h trap hlt _ hmove => exact own.hart_step inv hlt hs hmove
  | manager c m hm hmove => exact own.mgr_step inv hm hs hmove
  | lock h _ _ _ he =>
    subst he
    refine { own with mgr := fun m hm g t p hitem => ?_ }
    cases hm
    cases hitem
  | wake ev queue _ he =>
    subst he
    exact { own with }

end OwnResults

theorem Boot.own (boot : Boot s) : OwnResults s := by
  refine ⟨?_, ?_, ?_, ?_, ?_⟩
  · intro w hw
    simp [boot.work] at hw
  · intro t c hw
    simp [boot.waiters] at hw
  · intro t p hp
    rcases boot.thread t with hf | hf
    · simp [hf.pending] at hp
    · rw [hf] at hp
      cases hp
  · intro h hlt g t p hitem
    simp [boot.harts h] at hitem
  · intro m hm
    simp [boot.mgr] at hm

theorem reach_own (run : Reach step (fun s a => Settled s a ∧ KillClear s a) Boot s) :
    OwnResults s :=
  run.invariant_of (fun _ => reach_inv fun _ _ hg => hg) (fun _ => Boot.own)
    fun _ _ _ inv own _ hs => own.preserved inv hs

theorem Stage.returned {th : Thread} (hfit : Stage.written.Fits th p) :
    th.Returned := by
  obtain ⟨⟨_, vals, hans, htake⟩, hholds⟩ := hfit
  refine ⟨vals, hans, ?_⟩
  rw [← Thread.holds_take, ← htake, Thread.holds_take]
  exact hholds

section Leaves

variable (inv : Inv s) (own : OwnResults s)

include inv own

/-- Only a store that follows the copy of its results takes a thread out of Blocking. -/
theorem returned_of_store (hs : step s a = some s')
    (hstore : s.stores a = some (t, st)) (hst : (s.threads t).state = .blocking)
    (hexit : st ≠ .exited) : (s.threads t).Returned := by
  cases step_outcome hs with
  | hart h trap hlt =>
    have hallow := inv.harts h hlt t
    have hitem := own.hart h hlt .written t
    simp only [stores] at hstore
    cases hpc : (s.harts h).pc <;> simp [hpc] at hstore hallow hitem
    all_goals obtain ⟨rfl, rfl⟩ := hstore
    · simp [hst] at hallow
    · simp [hst] at hallow
    · exact Stage.returned (hitem rfl)
  | manager c m hm =>
    have hallow := (inv.mgr m hm).2 t
    have hitem := own.mgr m hm .written t
    simp only [stores, hm, Option.bind_some] at hstore
    cases hpc : m.pc with
    | kill pid leader rest =>
      cases rest <;> simp_all
    | promoteStore u rets a =>
      cases rets <;> simp [hpc] at hstore hallow hitem
      all_goals obtain ⟨rfl, rfl⟩ := hstore
      · simp [hst] at hallow
      · exact Stage.returned (hitem rfl)
    | resumeStore u p =>
      simp [hpc] at hstore hitem
      obtain ⟨rfl, rfl⟩ := hstore
      exact Stage.returned (hitem rfl)
    | assignStore u h hs' =>
      simp [hpc] at hstore hallow
      obtain ⟨rfl, rfl⟩ := hstore
      simp [hst] at hallow
    | _ => simp [hpc] at hstore
  | lock | wake => cases hstore

/-- Results are copied only into the frame of the Blocking thread that waits for them. -/
theorem copies_own (hs : step s a = some s') (hcopy : s.copies a = some (t, p)) :
    (s.threads t).state = .blocking ∧ p.call = (s.threads t).calls := by
  cases step_outcome hs with
  | hart h trap hlt =>
    have hallow := inv.harts h hlt t
    have hitem := own.hart h hlt .taken t p
    simp only [copies] at hcopy
    cases hpc : (s.harts h).pc <;> simp [hpc] at hcopy hallow hitem
    obtain ⟨rfl, rfl⟩ := hcopy
    exact ⟨by simpa using hallow, (hitem rfl rfl).1⟩
  | manager c m hm =>
    have hallow := (inv.mgr m hm).2 t
    have hitem := fun g => own.mgr m hm g t p
    simp only [copies, hm, Option.bind_some] at hcopy
    cases hpc : m.pc <;> simp [hpc] at hcopy hallow hitem
    all_goals obtain ⟨rfl, rfl⟩ := hcopy
    · exact ⟨by simpa using hallow, hitem rfl rfl⟩
    · exact ⟨by simpa using hallow, (hitem rfl rfl).1⟩
  | lock | wake => cases hcopy

omit own in
/-- Nothing but such a copy changes the frame of a Blocking thread. -/
theorem regs_of_blocking (hs : step s a = some s') (hst : (s.threads t).state = .blocking)
    (hregs : (s'.threads t).regs ≠ (s.threads t).regs) :
    ∃ p, s.copies a = some (t, p) ∧
      (s'.threads t).regs = Thread.marshal (s.threads t).regs p.vals := by
  cases step_thread hs t with
  | copy p hc ans _ he => exact ⟨p, hc, by rw [he]; rfl⟩
  | alike hl => exact absurd hl.regs hregs
  | store st _ he => exact absurd (by rw [he]; rfl) hregs
  | empty _ he => exact absurd (by rw [he]; rfl) hregs
  | publish c _ m p _ _ he => exact absurd (by rw [he]; rfl) hregs
  | save h trap _ hlt hpc =>
    have hallow := inv.harts h hlt t
    rcases hpc with hpc | ⟨target, frame, deadline, hpc⟩ <;> simp [hpc, hst] at hallow
  | fresh ht =>
    have := ((inv.ok t).fresh (by simp [ledger, ht])).1
    simp [ledger, hst] at this

end Leaves

/-- In every run in which a manager-resolved syscall is issued only after the thread's
earlier parks are finished: a thread leaves Blocking, other than by a kill, only with
the results of its latest syscall in its return registers; results are copied only into
the frame of the Blocking thread whose latest syscall they were produced for; and nothing
else changes that frame. -/
theorem blocking_returns_own_result
    (run : Reach step (fun s a => Settled s a ∧ KillClear s a) Boot s) (hs : step s a = some s') :
    (∀ t, (s.threads t).state = .blocking → (s'.threads t).state ≠ .blocking →
      (s'.threads t).state ≠ .exited → (s'.threads t).Returned) ∧
    (∀ t p, s.copies a = some (t, p) →
      (s.threads t).state = .blocking ∧ p.call = (s.threads t).calls) ∧
    ∀ t, (s.threads t).state = .blocking → (s'.threads t).regs ≠ (s.threads t).regs →
      ∃ p, s.copies a = some (t, p) ∧
        (s'.threads t).regs = Thread.marshal (s.threads t).regs p.vals := by
  have inv : Inv s := reach_inv (fun _ _ hg => hg) run
  have own := reach_own run
  refine ⟨fun t hst hleft hexit => ?_, fun t p => copies_own inv own hs,
    fun t => regs_of_blocking inv hs⟩
  cases step_thread hs t with
  | store st hstore he =>
    rw [he] at hexit ⊢
    exact returned_of_store inv own hs hstore hst hexit
  | alike hl => exact absurd (hl.state.trans hst) hleft
  | empty _ he => exact absurd (by rw [he]; exact hst) hleft
  | copy p _ ans _ he => exact absurd (by rw [he]; exact hst) hleft
  | publish c _ m p _ _ he => exact absurd (by rw [he]; exact hst) hleft
  | save h trap _ _ _ _ hsame => exact absurd (hsame.trans hst) hleft
  | fresh ht =>
    have := ((inv.ok t).fresh (by simp [ledger, ht])).1
    simp [ledger, hst] at this

theorem blocking_returns_own_result_round_trip : ∃ s,
    Reach step (fun s a => Settled s a ∧ KillClear s a) Boot s ∧
      (s.threads 0).state = .blocking ∧ ∃ s', step s (.manager .tick) = some s' ∧
      (s'.threads 0).state = .ready ∧ (s'.threads 0).regs argReg = 42 ∧
      (s'.threads 0).Returned := by
  have hboot : Reach step (fun s a => Settled s a ∧ KillClear s a) Boot (startState 3 [1]) :=
    .start (startState_boot 3 [1])
  obtain ⟨s, run, hst, hnext⟩ := hboot.exists_of_exec (syscallRoundTrip.take 54)
    (fun s : State => (s.threads 0).state = .blocking ∧
      (step s (.manager .tick)).map (fun s' => ((s'.threads 0).state,
        (s'.threads 0).regs argReg)) = some (.ready, 42)) (by decide +kernel)
  obtain ⟨s', hs, hafter⟩ := Option.map_eq_some_iff.mp hnext
  simp only [Prod.mk.injEq] at hafter
  obtain ⟨hready, hret⟩ := hafter
  refine ⟨s, run, hst, s', hs, hready, hret, ?_⟩
  exact (blocking_returns_own_result run hs).1 0 hst (by simp [hready]) (by simp [hready])

/-- The late notice takes the thread out of Blocking without the results of its
syscall. -/
theorem late_notice_leaves_blocking : ∃ s a s', Reach step NoKill Boot s ∧ step s a = some s' ∧
    (s.threads 0).state = .blocking ∧ (s'.threads 0).state = .ready ∧
    ¬ (s'.threads 0).Returned := by
  have hboot : Reach step NoKill Boot (startState 3 [1]) := .start (startState_boot 3 [1])
  obtain ⟨s, run, hst, hnext⟩ := hboot.exists_of_exec lateNotice
    (fun s : State => (s.threads 0).state = .blocking ∧
      (step s (.manager .tick)).map (fun s' => ((s'.threads 0).state, (s'.threads 0).answer,
        (s'.threads 0).regs argReg)) = some (.ready, some ⟨1, [42]⟩, 0)) (by decide +kernel)
  obtain ⟨s', hs, hafter⟩ := Option.map_eq_some_iff.mp hnext
  simp only [Prod.mk.injEq] at hafter
  obtain ⟨hready, hans, hret⟩ := hafter
  refine ⟨s, _, s', run, hs, hst, hready, ?_⟩
  rintro ⟨vals, hvals, hholds⟩
  simp only [hans, Option.some.injEq, Published.mk.injEq] at hvals
  have := hholds 0 (by simp [← hvals.2, Thread.maxRets])
  simp [hret, ← hvals.2] at this

end Orbit.Sched
