import Orbit.Sched.Reachable

/-!
The dispatch right. A thread may be dispatched from the ready queue, from a ready
inbox or from a hart's `current`; `State.refs` counts these places. A sleep notice
that outlives its park can promote the thread in the middle of a later syscall and
mint a second right; without such notices there is one right at a time.
-/

namespace Orbit.Sched

open Transition

variable {s : State} {t : Tid}

/-- How often the ready queue, the ready inboxes and the harts' `current` slots refer
to `t`. -/
def State.refs (s : State) (t : Tid) : Nat :=
  s.ready.count t +
    s.perHart fun hart => hart.inbox.count t + if hart.current = some t then 1 else 0

theorem Inv.refs_le (inv : Inv s) (t : Tid) : s.refs t ≤ 1 := by
  have htok := (inv.ok t).token
  have hle : (s.perHart fun hart => hart.inbox.count t + if hart.current = some t then 1 else 0) ≤
      s.perHart (·.tok t) := State.perHart_mono fun h _ => Nat.le_add_right _ _
  simp only [State.ledger, State.tok] at htok
  simp only [State.refs]
  omega

/-- In every run without kills in which a manager-resolved syscall is issued only after
the thread's earlier parks are finished, a thread has at most one dispatch right and
no checked operation panics. -/
theorem dispatch_right_unique (run : Reach step (fun s a => Settled s a ∧ NoKill s a) Boot s) :
    (∀ t, s.refs t ≤ 1) ∧
      ∀ site t st, s.fault = some (.panic site t st) → site.checked = false := by
  have inv : Inv s := reach_inv (fun _ _ hg => ⟨hg.1, hg.2.clear⟩) run
  exact ⟨inv.refs_le, inv.fault⟩

/-- One thread is assigned, makes a syscall, parks, is answered and becomes Ready. -/
def syscallRoundTrip : List Action :=
  [.lock 0] ++ ticks 8 ++ [.manager (.clock 0)] ++ ticks 15 ++
  accesses 1 4 ++ [.hart 1 (.call fun _ => 0)] ++ accesses 1 6 ++
  [.lock 2] ++ ticks 4 ++ [.manager (.serve [42] false)] ++ ticks 14

theorem dispatch_right_unique_round_trip : ∃ s,
    Reach step (fun s a => Settled s a ∧ NoKill s a) Boot s ∧ s.refs 0 = 1 ∧
      (s.threads 0).calls = 1 ∧ (∀ t, s.refs t ≤ 1) ∧
      ∀ site t st, s.fault = some (.panic site t st) → site.checked = false := by
  have hboot : Reach step (fun s a => Settled s a ∧ NoKill s a) Boot (startState 3 [1]) :=
    .start (startState_boot 3 [1])
  obtain ⟨s, run, hrefs, hcalls⟩ := hboot.exists_of_exec syscallRoundTrip
    (fun s : State => s.refs 0 = 1 ∧ (s.threads 0).calls = 1) (by decide +kernel)
  exact ⟨s, run, hrefs, hcalls, dispatch_right_unique run⟩

/-- A thread sleeps on hart 1, which is delayed before it hands over the sleep notice.
A wake event gets the thread to hart 0, where it makes a syscall that the manager
answers while hart 0 parks. -/
def lateNotice : List Action :=
  [.lock 0] ++ ticks 8 ++ [.manager (.clock 0)] ++ ticks 15 ++
  accesses 1 4 ++ [.hart 1 (.sleep (fun _ => 0) 5)] ++ accesses 1 5 ++
  [.wake (.tid 0), .lock 2] ++ ticks 18 ++ [.manager (.clock 0)] ++ ticks 15 ++
  accesses 0 4 ++ [.hart 0 (.call fun _ => 0)] ++
  [.lock 2] ++ ticks 4 ++ [.manager (.serve [42] false)] ++ ticks 11 ++
  accesses 0 5 ++ accesses 1 1 ++ ticks 5

/-- The late notice makes the manager promote the Blocking thread while hart 0 claims
its results. Depending on who stores first, the thread is queued twice or the second
promotion panics. -/
theorem late_notice_doubles_dispatch_right : (∃ s, Reach step NoKill Boot s ∧ 2 ≤ s.refs 0) ∧
    ∃ s, Reach step NoKill Boot s ∧ s.fault = some (.panic .promoteReadyFromParked 0 .ready) := by
  have hboot : Reach step NoKill Boot (startState 3 [1]) := .start (startState_boot 3 [1])
  constructor
  · exact hboot.exists_of_exec (lateNotice ++ accesses 0 5 ++ ticks 2)
      (fun s : State => 2 ≤ s.refs 0) (by decide +kernel)
  exact hboot.exists_of_exec (lateNotice ++ ticks 1 ++ accesses 0 3)
    (fun s : State => s.fault = some (.panic .promoteReadyFromParked 0 .ready))
    (by decide +kernel)

end Orbit.Sched
