import Orbit.Sched.Effects
import Orbit.Sched.Reachable

/-!
Sleepers. A Suspended park takes a sequence number, stores the state and then hands
a notice with its deadline to the manager, which files it in the sleep heap. Old
notices are not taken back when a thread is woken early: they are recognised by their
sequence number when they come to the top of the heap. The invariant follows the notice
of the current park of every Suspended thread from the hart that makes it to the heap.
-/

namespace Orbit.Sched

open Transition HartPc

variable {n : SleepNotice}

variable {s s' : State} {a : Action} {t : Tid} {h : Nat} {m : Mgr}

namespace HartPc

/-- The notice the hart is about to push. -/
@[simp] def pushes : HartPc → Option SleepNotice
  | .sleepPush n => some n
  | _ => none

/-- The notice of a park that has taken its number and has not stored the state. -/
@[simp] def carries : HartPc → Option SleepNotice
  | .parkNull _ _ notice | .parkLoad _ _ notice | .parkStore _ _ notice => notice
  | _ => none

end HartPc

namespace MgrPc

/-- The notice the manager has popped and has not filed. -/
@[simp] def holds : MgrPc → Option SleepNotice
  | .sleepCheck n => some n
  | _ => none

/-- The thread the manager is making Ready without results, and what it does next. -/
@[simp] def promotes : MgrPc → Option (Tid × After)
  | .claim t .promoteWake a | .swapWake t none a | .promoteLoad t none a
  | .promoteStore t none a => some (t, a)
  | _ => none

/-- The same with or without results. -/
@[simp] def returns : MgrPc → Option (Tid × After)
  | .claim t _ a | .take t a | .marshal t _ a | .swapWake t _ a | .promoteLoad t _ a
  | .promoteStore t _ a => some (t, a)
  | _ => none

end MgrPc

namespace State

/-- The notice of the current park of `t`. -/
def notice (s : State) (t : Tid) : SleepNotice :=
  ⟨(s.threads t).wakeTime, (s.threads t).sleepSeq, t⟩

/-- The notices a hart is about to push, those in the inbox and in the heap, and the one
the manager has in hand. -/
def notices (s : State) : List SleepNotice :=
  (List.range s.nHarts).filterMap (fun h => (s.harts h).pc.pushes) ++ s.sleepInbox ++ s.heap ++
    (s.mgr.bind fun m => m.pc.holds).toList

/-- The manager is making `t` Ready. -/
def Promoting (s : State) (t : Tid) : Prop :=
  ∃ m a, s.mgr = some m ∧ m.pc.promotes = some (t, a)

theorem not_promoting {s : State} {m : Mgr} (hm : s.mgr = some m) (hpc : m.pc.promotes = none)
    (t : Tid) : ¬ s.Promoting t := by
  rintro ⟨m₁, a, hm₁, hp⟩
  rw [hm, Option.some.injEq] at hm₁
  rw [← hm₁, hpc] at hp
  cases hp

/-- `t` is Suspended or has taken the number of a park. -/
def Parking (s : State) (t : Tid) : Prop :=
  (s.threads t).state = .suspended ∨
    ∃ h, h < s.nHarts ∧ ∃ n, (s.harts h).pc.carries = some n ∧ n.thread = t

/-- The thread whose sequence number a step bumps. -/
def parks (s : State) : Action → Option Tid
  | .hart h _ =>
    match (s.harts h).pc with
    | .parkSeq t .suspended => some t
    | _ => none
  | _ => none

/-- The notice a step pushes to the inbox. -/
def pushes (s : State) : Action → Option SleepNotice
  | .hart h _ => (s.harts h).pc.pushes
  | _ => none

/-- The thread of the heap entry the manager is between the two loads of. -/
def judged (s : State) : Option Tid :=
  match s.mgr.map Mgr.pc, s.heap with
  | some (.wokenState _ _), e :: _ => some e.thread
  | _, _ => none

end State

/-- A notice is pushed only while the sleep inbox has room. -/
def InboxRoom (s : State) (a : Action) : Prop :=
  ∀ n, s.pushes a = some n → s.sleepInbox.length < sleepInboxCap

/-- A thread takes the number of a new park only while the manager is not between the
loads of its number and of its state for an old entry, and while no old notice has
that number. -/
def ParkClear (s : State) (a : Action) : Prop :=
  ∀ t, s.parks a = some t → s.judged ≠ some t ∧
    ∀ n ∈ s.notices, n.thread = t → n.sleepSeq ≠ (s.threads t).sleepSeq + 1

instance (s : State) (a : Action) : Decidable (InboxRoom s a) :=
  match h : s.pushes a with
  | none => isTrue fun _ h' => by rw [h] at h'; cases h'
  | some _ =>
    if hroom : s.sleepInbox.length < sleepInboxCap then isTrue fun _ _ => hroom
    else isFalse fun hs => hroom (hs _ h)

instance (s : State) (a : Action) : Decidable (ParkClear s a) :=
  match h : s.parks a with
  | none => isTrue fun _ h' => by rw [h] at h'; cases h'
  | some t =>
    if hclear : s.judged ≠ some t ∧
        ∀ n ∈ s.notices, n.thread = t → n.sleepSeq ≠ (s.threads t).sleepSeq + 1 then
      isTrue fun _ h' => by rw [h] at h'; cases h'; exact hclear
    else isFalse fun hs => hclear (hs t h)

theorem State.mem_notices : n ∈ s.notices ↔
    (∃ h, h < s.nHarts ∧ (s.harts h).pc.pushes = some n) ∨ n ∈ s.sleepInbox ∨ n ∈ s.heap ∨
      ∃ m, s.mgr = some m ∧ m.pc.holds = some n := by
  simp only [State.notices, List.mem_append, List.mem_filterMap, List.mem_range, Option.mem_toList,
    Option.bind_eq_some_iff, or_assoc]

/-- What holds of the sleepers between any two steps. -/
structure Sleepers (s : State) : Prop where
  kept : ∀ t, (s.threads t).state = .suspended → s.notice t ∈ s.notices ∨ s.Promoting t
  carried : ∀ h, h < s.nHarts → ∀ n, (s.harts h).pc.carries = some n → n = s.notice n.thread
  /-- an old notice of a parked thread has another number -/
  exact : ∀ n ∈ s.notices, s.Parking n.thread → n.sleepSeq = (s.threads n.thread).sleepSeq →
    n.wakeTime = (s.threads n.thread).wakeTime
  seen : ∀ m now seq, s.mgr = some m → m.pc = .wokenState now seq →
    ∃ e rest, s.heap = e :: rest ∧ seq = (s.threads e.thread).sleepSeq
  due : ∀ m t now, s.mgr = some m → m.pc.returns = some (t, .woken now) →
    m.pc.promotes = some (t, .woken now) ∧ (s.threads t).wakeTime ≤ now

namespace Sleepers

theorem of_boot (boot : Boot s) : Sleepers s := by
  have hnone : s.notices = [] := by
    simp [State.notices, boot.harts, boot.sleepInbox, boot.heap, boot.mgr]
  constructor
  · intro t ht
    rcases boot.thread t with hf | hun
    · rw [hf.state] at ht
      cases ht
    · rw [hun] at ht
      cases ht
  · intro h _ n hn
    rw [boot.harts] at hn
    cases hn
  · rw [hnone]
    exact nofun
  · intro m now seq hm
    rw [boot.mgr] at hm
    cases hm
  intro m t now hm
  rw [boot.mgr] at hm
  cases hm

/-- A step that leaves the sleepers' part of the state alone. -/
theorem congr (sl : Sleepers s) (hn : s'.nHarts = s.nHarts) (hh : s'.harts = s.harts)
    (ht : s'.threads = s.threads) (hi : s'.sleepInbox = s.sleepInbox) (hheap : s'.heap = s.heap)
    (hm : s'.mgr = s.mgr) : Sleepers s' := by
  have hnotices : s'.notices = s.notices := by
    rw [State.notices, State.notices, hn, hh, hi, hheap, hm]
  obtain ⟨kept, carried, exact', seen, due⟩ := sl
  constructor
  · simpa only [hnotices, State.notice, State.Promoting, ht, hm] using kept
  · simpa only [hn, hh, State.notice, ht] using carried
  · simpa only [hnotices, State.Parking, hn, hh, ht] using exact'
  · simpa only [hm, hheap, ht] using seen
  · simpa only [hm, ht] using due

end Sleepers

/-- A thread the timer promotes is Suspended. -/
theorem Inv.due_suspended (inv : Inv s) {now : UInt64} (hm : s.mgr = some m)
    (hp : m.pc.promotes = some (t, .woken now)) : (s.threads t).state = .suspended := by
  have hallow := (inv.mgr m hm).2 t
  cases hpc : m.pc with
  | claim u mode a =>
    cases mode <;> simp only [hpc, MgrPc.promotes, reduceCtorEq, Option.some.injEq,
      Prod.mk.injEq] at hp
    obtain ⟨rfl, rfl⟩ := hp
    simpa [hpc] using hallow
  | swapWake u rets a | promoteLoad u rets a | promoteStore u rets a =>
    cases rets <;> simp only [hpc, MgrPc.promotes, reduceCtorEq, Option.some.injEq,
      Prod.mk.injEq] at hp
    obtain ⟨rfl, rfl⟩ := hp
    simpa [hpc] using hallow
  | _ => simp [hpc] at hp

/-- The hart of a park that has taken its number holds the thread's token. -/
theorem Inv.carries_tok (inv : Inv s) (hlt : h < s.nHarts)
    (hc : (s.harts h).pc.carries = some n) : 1 ≤ (s.harts h).tok n.thread ∧
      ((s.threads n.thread).state = .running ∨ (s.threads n.thread).state = .exited) := by
  have hwf := inv.wf h hlt
  have hown := inv.own h hlt n.thread
  have hallow := inv.harts h hlt n.thread
  cases hpc : (s.harts h).pc with
  | parkNull u target notice =>
    simp only [hpc, HartPc.carries] at hc
    simp only [hpc, owns, allows] at hwf hown hallow
    obtain rfl := hwf.2.2 n hc
    refine ⟨?_, (hallow rfl).imp_right And.left⟩
    simp only [Hart.tok, hown rfl, if_true]
    omega
  | parkLoad u target notice =>
    simp only [hpc, HartPc.carries] at hc
    simp only [hpc, allows] at hwf hallow
    obtain rfl := hwf.2.2 n hc
    refine ⟨?_, (hallow rfl).imp_right And.left⟩
    simp only [Hart.tok, hpc, held, one_self]
    omega
  | parkStore u target notice =>
    simp only [hpc, HartPc.carries] at hc
    simp only [hpc, allows] at hwf hallow
    obtain rfl := hwf.2.2 n hc
    refine ⟨?_, (hallow rfl).imp_right And.left⟩
    simp only [Hart.tok, hpc, held, one_self]
    omega
  | _ => simp [hpc] at hc

/-- A hart that holds the token of a thread is the only one that may be parking it. -/
theorem Inv.carries_alone (inv : Inv s) (hlt : h < s.nHarts) (htok : 1 ≤ (s.harts h).tok t)
    (hst : (s.threads t).state ≠ .blocking) {h' : Nat} (hlt' : h' < s.nHarts)
    (hc : (s.harts h').pc.carries = some n) (hn : n.thread = t) : h' = h := by
  by_contra hne
  have hzero := ((inv.alone_of_tok hlt htok hst).1 h' hlt' hne).1
  have hone := (inv.carries_tok hlt' hc).1
  rw [hn] at hone
  omega

namespace Sleepers

variable {hart : Hart} {th : Thread} {ws : List Work} {ns : List SleepNotice}

/-- The notices after an access of a hart: the hart's own place and the inbox. -/
theorem mem_notices_move (move : HartMove s s' h t hart th ws ns) (hlt : h < s.nHarts)
    : n ∈ s'.notices ↔ hart.pc.pushes = some n ∨
        (∃ h', h' < s.nHarts ∧ h' ≠ h ∧ (s.harts h').pc.pushes = some n) ∨ n ∈ s.sleepInbox ∨
        n ∈ ns ∨ n ∈ s.heap ∨ ∃ m, s.mgr = some m ∧ m.pc.holds = some n := by
  have hharts : (∃ h', h' < s'.nHarts ∧ (s'.harts h').pc.pushes = some n) ↔
      hart.pc.pushes = some n ∨ ∃ h', h' < s.nHarts ∧ h' ≠ h ∧ (s.harts h').pc.pushes = some n := by
    rw [move.nHarts]
    constructor
    · rintro ⟨h', hlt', hp⟩
      by_cases hh : h' = h
      · rw [hh, move.hart_self] at hp
        exact .inl hp
      · rw [move.hart_ne hh] at hp
        exact .inr ⟨h', hlt', hh, hp⟩
    rintro (hp | ⟨h', hlt', hh, hp⟩)
    · exact ⟨h, hlt, by rw [move.hart_self]; exact hp⟩
    · exact ⟨h', hlt', by rw [move.hart_ne hh]; exact hp⟩
  have hinbox : n ∈ s'.sleepInbox ↔ n ∈ s.sleepInbox ∨ n ∈ ns := by simp [move.eq]
  have hheap : s'.heap = s.heap := by rw [move.eq]
  rw [State.mem_notices, hharts, hinbox, hheap, move.mgr, or_assoc, or_assoc]

theorem mem_notices_split (hlt : h < s.nHarts) : n ∈ s.notices ↔ (s.harts h).pc.pushes = some n ∨
      (∃ h', h' < s.nHarts ∧ h' ≠ h ∧ (s.harts h').pc.pushes = some n) ∨ n ∈ s.sleepInbox ∨
      n ∈ s.heap ∨ ∃ m, s.mgr = some m ∧ m.pc.holds = some n := by
  have hharts : (∃ h', h' < s.nHarts ∧ (s.harts h').pc.pushes = some n) ↔
      (s.harts h).pc.pushes = some n ∨
        ∃ h', h' < s.nHarts ∧ h' ≠ h ∧ (s.harts h').pc.pushes = some n := by
    constructor
    · rintro ⟨h', hlt', hp⟩
      by_cases hh : h' = h
      · exact .inl (hh ▸ hp)
      · exact .inr ⟨h', hlt', hh, hp⟩
    rintro (hp | ⟨h', hlt', -, hp⟩)
    · exact ⟨h, hlt, hp⟩
    · exact ⟨h', hlt', hp⟩
  rw [State.mem_notices, hharts, or_assoc]

/-- An access that leaves the number and the deadline of the thread alone. It may add the
notice of the current park, and it keeps the ones there are. -/
theorem of_same (sl : Sleepers s) (move : HartMove s s' h t hart th ws ns)
    (hwake : th.wakeTime = (s.threads t).wakeTime) (hseq : th.sleepSeq = (s.threads t).sleepSeq)
    (hkeep : ∀ n, n ∈ s.notices → n ∈ s'.notices)
    (hnew : ∀ n, n ∈ s'.notices → n ∈ s.notices ∨ n = s.notice t)
    (hsusp : th.state = .suspended →
      (s.threads t).state = .suspended ∨ s.notice t ∈ s'.notices ∧ s.Parking t)
    (hcarry : ∀ n, hart.pc.carries = some n → (s.harts h).pc.carries = some n)
    (hlt : h < s.nHarts) : Sleepers s' := by
  have hthread : ∀ u, (s'.threads u).wakeTime = (s.threads u).wakeTime ∧
      (s'.threads u).sleepSeq = (s.threads u).sleepSeq := by
    intro u
    by_cases hu : u = t
    · rw [hu, move.thread_self]
      exact ⟨hwake, hseq⟩
    · rw [move.thread_ne hu]
      exact ⟨rfl, rfl⟩
  have hnotice : ∀ u, s'.notice u = s.notice u := by
    intro u
    rw [State.notice, State.notice, (hthread u).1, (hthread u).2]
  have hmgr : s'.mgr = s.mgr := move.mgr
  have hcarries : ∀ h', h' < s'.nHarts → ∀ n, (s'.harts h').pc.carries = some n →
      h' < s.nHarts ∧ (s.harts h').pc.carries = some n := by
    intro h' hlt' n hn
    by_cases hh : h' = h
    · subst hh
      rw [move.hart_self] at hn
      exact ⟨hlt, hcarry n hn⟩
    · rw [move.hart_ne hh] at hn
      exact ⟨move.nHarts ▸ hlt', hn⟩
  have hpark : ∀ u, s'.Parking u → s.Parking u := by
    rintro u (hu | ⟨h', hlt', n, hn, hnu⟩)
    · by_cases hut : u = t
      · subst hut
        rw [move.thread_self] at hu
        exact (hsusp hu).elim .inl And.right
      · rw [move.thread_ne hut] at hu
        exact .inl hu
    · obtain ⟨hl, hc⟩ := hcarries h' hlt' n hn
      exact .inr ⟨h', hl, n, hc, hnu⟩
  constructor
  · intro u hu
    rw [hnotice u]
    have hold : (s.threads u).state = .suspended ∨ s.notice u ∈ s'.notices := by
      by_cases hut : u = t
      · subst hut
        rw [move.thread_self] at hu
        exact (hsusp hu).imp_right And.left
      · rw [move.thread_ne hut] at hu
        exact .inl hu
    rcases hold with hst | hin
    · rcases sl.kept u hst with hin | ⟨m, a, hm, hp⟩
      · exact .inl (hkeep _ hin)
      · exact .inr ⟨m, a, hmgr.trans hm, hp⟩
    · exact .inl hin
  · intro h' hlt' n hn
    obtain ⟨hl, hc⟩ := hcarries h' hlt' n hn
    rw [hnotice]
    exact sl.carried h' hl n hc
  · intro n hn hp hq
    rw [(hthread _).1]
    rw [(hthread _).2] at hq
    rcases hnew n hn with hold | heq
    · exact sl.exact n hold (hpark _ hp) hq
    · rw [heq]
      rfl
  · intro m now seq hm hpc
    obtain ⟨e, rest, he, hs⟩ := sl.seen m now seq (hmgr ▸ hm) hpc
    refine ⟨e, rest, ?_, ?_⟩
    · rw [move.eq]
      exact he
    · rw [(hthread _).2]
      exact hs
  intro m u now hm hr
  rw [(hthread u).1]
  exact sl.due m u now (hmgr ▸ hm) hr

/-- An access that touches no notice. -/
theorem of_quiet (sl : Sleepers s) (move : HartMove s s' h t hart th ws []) (hlt : h < s.nHarts)
    (hpush : hart.pc.pushes = (s.harts h).pc.pushes)
    (hcarry : ∀ n, hart.pc.carries = some n → (s.harts h).pc.carries = some n)
    (hwake : th.wakeTime = (s.threads t).wakeTime) (hseq : th.sleepSeq = (s.threads t).sleepSeq)
    (hst : th.state = .suspended → (s.threads t).state = .suspended) : Sleepers s' := by
  have hnotices : ∀ n, n ∈ s'.notices ↔ n ∈ s.notices := by
    intro n
    rw [mem_notices_move move hlt, mem_notices_split hlt, hpush]
    simp
  apply sl.of_same move hwake hseq
  · exact fun n hn => (hnotices n).mpr hn
  · exact fun n hn => .inl ((hnotices n).mp hn)
  · exact fun h => .inl (hst h)
  · exact hcarry
  · exact hlt

/-- An access by the hart that holds the token of a thread that is not Suspended may
change the thread's number and deadline. -/
theorem of_renewed (sl : Sleepers s) (inv : Inv s) (move : HartMove s s' h t hart th ws [])
    (hlt : h < s.nHarts) (hpush : hart.pc.pushes = (s.harts h).pc.pushes)
    (htok : 1 ≤ (s.harts h).tok t)
    (hold : (s.threads t).state = .running ∨ (s.threads t).state = .exited)
    (hst : th.state = (s.threads t).state)
    (hcarry : ∀ n, hart.pc.carries = some n → n = s'.notice t)
    (hfresh : ∀ n ∈ s.notices, n.thread = t → hart.pc.carries.isSome → n.sleepSeq ≠ th.sleepSeq)
    (hjudged : s.judged = some t → th.sleepSeq = (s.threads t).sleepSeq) : Sleepers s' := by
  have hnotices : ∀ n, n ∈ s'.notices ↔ n ∈ s.notices := by
    intro n
    rw [mem_notices_move move hlt, mem_notices_split hlt, hpush]
    simp
  have hawake : (s.threads t).state ≠ .suspended := by
    rcases hold with hst | hst <;> rw [hst] <;> simp
  have hawake' : (s'.threads t).state ≠ .suspended := by
    rw [move.thread_self, hst]
    exact hawake
  have hother : ∀ h', h' < s.nHarts → h' ≠ h → ∀ n, (s.harts h').pc.carries = some n →
      n.thread ≠ t := by
    intro h' hlt' hh n hn hnt
    refine hh (inv.carries_alone hlt htok ?_ hlt' hn hnt)
    rcases hold with hst | hst <;> rw [hst] <;> simp
  have hnotice : ∀ u, u ≠ t → s'.notice u = s.notice u := by
    intro u hu
    rw [State.notice, State.notice, move.thread_ne hu]
  have hmgr : s'.mgr = s.mgr := move.mgr
  constructor
  · intro u hu
    have hut : u ≠ t := fun he => hawake' (he ▸ hu)
    rw [move.thread_ne hut] at hu
    rw [hnotice u hut]
    rcases sl.kept u hu with hin | ⟨m, a, hm, hp⟩
    · exact .inl ((hnotices _).mpr hin)
    · exact .inr ⟨m, a, hmgr.trans hm, hp⟩
  · intro h' hlt' n hn
    by_cases hh : h' = h
    · rw [hh, move.hart_self] at hn
      have heq := hcarry n hn
      have hnt : n.thread = t := by rw [heq]; rfl
      rw [hnt]
      exact heq
    rw [move.nHarts] at hlt'
    rw [move.hart_ne hh] at hn
    rw [hnotice _ (hother h' hlt' hh n hn)]
    exact sl.carried h' hlt' n hn
  · intro n hn hp hq
    have hin := (hnotices n).mp hn
    by_cases hnt : n.thread = t
    · rw [hnt, move.thread_self] at hq
      rcases hp with hsusp | ⟨h', hlt', n', hc, hn'⟩
      · exact absurd (hnt ▸ hsusp) hawake'
      by_cases hh : h' = h
      · rw [hh, move.hart_self] at hc
        exact absurd hq (hfresh n hin hnt (by rw [hc]; rfl))
      rw [move.nHarts] at hlt'
      rw [move.hart_ne hh] at hc
      exact absurd (hn'.trans hnt) (hother h' hlt' hh n' hc)
    rw [move.thread_ne hnt] at hq ⊢
    refine sl.exact n hin ?_ hq
    rcases hp with hsusp | ⟨h', hlt', n', hc, hn'⟩
    · rw [move.thread_ne hnt] at hsusp
      exact .inl hsusp
    by_cases hh : h' = h
    · rw [hh, move.hart_self] at hc
      have hthread : n'.thread = t := by rw [hcarry n' hc]; rfl
      exact absurd (hn'.symm.trans hthread) hnt
    · rw [move.hart_ne hh] at hc
      exact .inr ⟨h', move.nHarts ▸ hlt', n', hc, hn'⟩
  · intro m now seq hm hpc
    rw [hmgr] at hm
    obtain ⟨e, rest, he, hseq⟩ := sl.seen m now seq hm hpc
    refine ⟨e, rest, ?_, ?_⟩
    · rw [move.eq]
      exact he
    by_cases het : e.thread = t
    · rw [het, move.thread_self, hjudged, hseq, het]
      simp [State.judged, hm, hpc, he, het]
    · rw [move.thread_ne het]
      exact hseq
  · intro m u now hm hr
    rw [hmgr] at hm
    obtain ⟨hp, hle⟩ := sl.due m u now hm hr
    have hut : u ≠ t := fun he => hawake (he ▸ inv.due_suspended hm hp)
    rw [move.thread_ne hut]
    exact ⟨hp, hle⟩

/-- The end of a Suspended park: the notice it carries is handed over next. -/
theorem of_handover (sl : Sleepers s) (move : HartMove s s' h t hart th ws []) (hlt : h < s.nHarts)
    (hold : (s.harts h).pc.carries = some n) (hnt : n.thread = t)
    (hpush : (s.harts h).pc.pushes = none) (hpc : hart.pc = .sleepPush n)
    (hwake : th.wakeTime = (s.threads t).wakeTime)
    (hseq : th.sleepSeq = (s.threads t).sleepSeq) : Sleepers s' := by
  have heq : n = s.notice t := by
    have hcarried := sl.carried h hlt n hold
    rw [hnt] at hcarried
    exact hcarried
  have hnotices : ∀ n', n' ∈ s'.notices ↔ n' = n ∨ n' ∈ s.notices := by
    intro n'
    rw [mem_notices_move move hlt, mem_notices_split hlt, hpush, hpc]
    simp [eq_comm]
  apply sl.of_same move hwake hseq
  · exact fun n' hn' => (hnotices n').mpr (.inr hn')
  · intro n' hn'
    rcases (hnotices n').mp hn' with rfl | hin
    · exact .inr heq
    · exact .inl hin
  · exact fun _ => .inr ⟨heq ▸ (hnotices n).mpr (.inl rfl), .inr ⟨h, hlt, n, hold, hnt⟩⟩
  · intro n' hn'
    rw [hpc] at hn'
    cases hn'
  · exact hlt

/-- What follows a park without a notice neither carries nor pushes one. -/
theorem afterPark_none (t : Tid) (target : ThreadState) :
    (afterPark t target none).pushes = none ∧ (afterPark t target none).carries = none := by
  cases target <;> exact ⟨rfl, rfl⟩

/-- One access of a hart. -/
theorem hartStep (sl : Sleepers s) (inv : Inv s) {trap : Trap} (hlt : h < s.nHarts)
    (hroom : InboxRoom s (.hart h trap)) (hclear : ParkClear s (.hart h trap))
    (hs : Sched.hartStep s h trap = some s') : Sleepers s' := by
  rcases hartStep_outcome hs with ⟨t, hart, th, ws, ns, move⟩ | ⟨_, _, _, rfl, _⟩ | ⟨_, _, _, rfl⟩
  · have hallow := inv.harts h hlt t
    have hown := inv.own h hlt t
    have hwf := inv.wf h hlt
    have hedge := move.edge
    cases hedge with
    | commit target frame deadline hpc _ =>
      simp only [hpc, allows, owns] at hallow hown
      apply sl.of_renewed inv move hlt
      · rw [hpc]
        rfl
      · simp only [Hart.tok, hown trivial, if_true]
        omega
      · exact hallow trivial
      · rfl
      · simp
      · simp
      · exact fun _ => rfl
    | parkSeqSleep hpc =>
      simp only [hpc, allows, owns] at hallow hown
      obtain ⟨hjudged, hfresh⟩ := hclear t (by simp [State.parks, hpc])
      apply sl.of_renewed inv move hlt
      · rw [hpc]
        rfl
      · simp only [Hart.tok, hown trivial, if_true]
        omega
      · exact (hallow trivial).imp_right And.left
      · rfl
      · intro n hn
        simp only [HartPc.carries, Option.some.injEq] at hn
        rw [← hn, State.notice, move.thread_self]
      · exact fun n hn hnt _ => hfresh n hn hnt
      · exact fun hj => absurd hj hjudged
    | parkStore target notice hpc =>
      simp only [hpc, wf] at hwf
      cases notice with
      | none =>
        obtain ⟨hpush, hcarry⟩ := afterPark_none t target
        apply sl.of_quiet move hlt
        · rw [hpc]
          exact hpush
        · exact fun n hn => absurd (hcarry.symm.trans hn) (by simp)
        · rfl
        · rfl
        · exact fun hsusp => absurd (hwf.2.1.mp hsusp) (by simp)
      | some n =>
        apply sl.of_handover move hlt _ (hwf.2.2 n rfl) _ rfl rfl rfl
        · rw [hpc]
          rfl
        · rw [hpc]
          rfl
    | parkLoadDead target notice hpc hst =>
      simp only [hpc, wf] at hwf
      cases notice with
      | none =>
        obtain ⟨hpush, hcarry⟩ := afterPark_none t target
        apply sl.of_quiet move hlt
        · rw [hpc]
          exact hpush
        · exact fun n hn => absurd (hcarry.symm.trans hn) (by simp)
        · rfl
        · rfl
        · exact id
      | some n =>
        apply sl.of_handover move hlt _ (hwf.2.2 n rfl) _ rfl rfl rfl
        · rw [hpc]
          rfl
        · rw [hpc]
          rfl
    | sleepPush n hpc hn =>
      have hfits := hroom n (by simp [State.pushes, hpc])
      have hpushed : ns = [n] := by
        have hinbox : s'.sleepInbox = s.sleepInbox ++ [n] := by
          rw [Sched.hartStep, hpc] at hs
          simp only [if_pos hfits, Option.some.injEq] at hs
          rw [← hs]
          rfl
        rw [move.eq] at hinbox
        exact List.append_cancel_left hinbox
      have hnotices : ∀ n', n' ∈ s'.notices ↔ n' ∈ s.notices := by
        intro n'
        rw [mem_notices_move move hlt, mem_notices_split hlt, hpc, hpushed]
        simp only [HartPc.pushes, reduceCtorEq, false_or, List.mem_singleton, Option.some.injEq]
        constructor
        · rintro (hpush | hin | rfl | hrest)
          · exact .inr (.inl hpush)
          · exact .inr (.inr (.inl hin))
          · exact .inl rfl
          · exact .inr (.inr (.inr hrest))
        rintro (rfl | hpush | hin | hrest)
        · exact .inr (.inr (.inl rfl))
        · exact .inl hpush
        · exact .inr (.inl hin)
        · exact .inr (.inr (.inr hrest))
      apply sl.of_same move rfl rfl
      · exact fun n' hn' => (hnotices n').mpr hn'
      · exact fun n' hn' => .inl ((hnotices n').mp hn')
      · exact .inl
      · simp
      · exact hlt
    | dispatchStore hpc =>
      apply sl.of_quiet move hlt
      · rw [hpc]
        rfl
      · simp
      · rfl
      · rfl
      · exact fun hsusp => absurd hsusp (by simp [Thread.store])
    | claimStore p hpc =>
      apply sl.of_quiet move hlt
      · rw [hpc]
        rfl
      · simp
      · rfl
      · rfl
      · exact fun hsusp => absurd hsusp (by simp [Thread.store])
    | parkNull target notice hpc | parkLoad target notice hpc =>
      apply sl.of_quiet move hlt
      · rw [hpc]
        rfl
      · rw [hpc]
        exact fun n hn => hn
      · rfl
      · rfl
      · exact id
    | start hpc | dispatchDead hpc | dispatchLoad hpc | enter hpc | refuse hpc | preempt hpc
    | yield hpc | issue hpc | exit hpc | threadExit hpc | fault hpc | commitDead _ _ _ hpc
    | switchRunning hpc | switchExited hpc | switchParked hpc | switchAgain hpc | parkSeq _ hpc
    | mint hpc | push hpc | claimNone hpc | claim _ hpc | claimed _ hpc | claimLoad _ hpc =>
      apply sl.of_quiet move hlt
      · rw [hpc]
        rfl
      · simp
      · rfl
      · rfl
      · exact id
  · exact sl.congr rfl rfl rfl rfl rfl rfl
  · exact sl.congr rfl rfl rfl rfl rfl rfl

end Sleepers

end Orbit.Sched
