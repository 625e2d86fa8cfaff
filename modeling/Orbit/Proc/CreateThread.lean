import Mathlib.Data.Finset.Max
import Orbit.Proc.Ids
import Orbit.Sched.Manager

/-!
The answer of `create_thread`. The handler does not learn the tid of the thread it has added; it
takes the highest tid of the process for it. That is the new one until the tid counter wraps, and
after that as long as the tids of the process are all passed before a free one comes.
-/

namespace Orbit.Proc

open Store Transition Abi

variable {s s' : System} {pid : Pid} {tid : Tid} {proc : Process} {ok : Bool}

namespace System

/-- The answer once `add_new_thread_to_process` has returned. It was `Ok` if the memory was there
and the process did not have the tid; `none` is the `expect`. -/
def threadAdded (s : System) (pid : Pid) (ok : Bool) (before : Finset Tid) : Option Int :=
  if ok ∧ s.currentThreadId ∉ before then do
    let proc ← s.processes.get pid
    some (if h : proc.threads.Nonempty then proc.threads.max' h else Errno.eagain.toRet)
  else some Errno.enomem.toRet

/-- `run_create_thread_req`; without a free tid it does not return. -/
def runCreateThreadReq (s : System) (pid : Pid) (allHarts parentAllowed allowed affinity : UInt64)
    (ok : Bool) : Option (Int × System) :=
  match Sched.resolveAffinity allHarts parentAllowed allowed affinity with
  | .error e => some (e.toRet, s)
  | .ok _ =>
    match s.processes.get pid with
    | none => some (Errno.esrch.toRet, s)
    | some proc => do
      let s' ← s.addNewThreadToProcess pid ok
      let ret ← s'.threadAdded pid ok proc.threads
      some (ret, s')

end System

/-- The tid is in use. -/
def System.Registered (s : System) (tid : Tid) : Prop := (s.registry.get tid).isSome

/-- These tids lie before the first free one after the counter: none of them is beyond a free one
above the counter, and if there is no free one up there, none is beyond a free one at all. -/
structure Above (s : System) (threads : Finset Tid) : Prop where
  ahead : ∀ free, s.currentThreadId < free → free < tidLimit → ¬ s.Registered free →
    ∀ t ∈ threads, ∀ x, s.currentThreadId < x → x ≤ t → s.Registered x
  wrapped : (∀ x, s.currentThreadId < x → x < tidLimit → s.Registered x) →
    ∀ t ∈ threads, ∀ x ≤ t, s.Registered x

/-- The loop stops at the first free tid from where it begins, past the wrap if need be. -/
theorem nextTidFrom_first {taken : Tid → Bool} {fuel : Nat} {next : Tid} (hnext : next < tidLimit)
    (h : nextTidFrom taken fuel next = some tid) :
    (next ≤ tid ∧ tid < tidLimit ∧ ∀ x, next ≤ x → x < tid → taken x) ∨
    ((∀ x, next ≤ x → x < tidLimit → taken x) ∧ ∀ x < tid, taken x) := by
  induction fuel generalizing next with
  | zero => cases h
  | succ fuel ih =>
    rw [nextTidFrom] at h
    split at h
    · next htaken =>
      have hself : ∀ {x}, next ≤ x → (next + 1 ≤ x → taken x) → taken x := by
        intro x hle hmore
        rcases Nat.eq_or_lt_of_le hle with rfl | hlt
        · exact htaken
        · exact hmore hlt
      by_cases hlast : next + 1 < tidLimit
      · rw [Nat.mod_eq_of_lt hlast] at h
        rcases ih hlast h with ⟨hle, hlt, hall⟩ | ⟨hall, hlow⟩
        · exact .inl ⟨Nat.le_of_succ_le hle, hlt, fun x hx hlt => hself hx fun hmore =>
            hall x hmore hlt⟩
        · exact .inr ⟨fun x hx hlt => hself hx fun hmore => hall x hmore hlt, hlow⟩
      -- the last tid: the next turn is at 0
      have heq : next + 1 = tidLimit := Nat.le_antisymm hnext (Nat.not_lt.mp hlast)
      rw [heq, Nat.mod_self] at h
      refine .inr ⟨fun x hx hlt => hself hx fun hmore => ?_, ?_⟩
      · exact absurd (Nat.lt_of_le_of_lt hmore hlt) hlast
      rcases ih (by decide) h with ⟨-, -, hall⟩ | ⟨-, hlow⟩
      · exact fun x hlt => hall x (Nat.zero_le x) hlt
      · exact hlow
    · cases h
      exact .inl ⟨Nat.le_refl _, hnext, fun x hle hlt => absurd hlt (Nat.not_lt.mpr hle)⟩

/-- The tid that is drawn is above some others exactly when they lie before the first free one. -/
theorem nextTid_above_iff (hcur : s.currentThreadId < tidLimit) (htid : s.nextTid = some tid)
    (threads : Finset Tid) : (∀ t ∈ threads, t < tid) ↔ Above s threads := by
  have hfree : ¬ s.Registered tid := by
    rw [System.Registered, nextTid_free htid]
    decide
  have hcases : (s.currentThreadId < tid ∧ tid < tidLimit ∧
        ∀ x, s.currentThreadId < x → x < tid → s.Registered x) ∨
      ((∀ x, s.currentThreadId < x → x < tidLimit → s.Registered x) ∧
        ∀ x < tid, s.Registered x) := by
    rw [System.nextTid] at htid
    have hfirst := nextTidFrom_first (Nat.mod_lt _ (by decide)) htid
    by_cases hlast : s.currentThreadId + 1 < tidLimit
    · rw [Nat.mod_eq_of_lt hlast] at hfirst
      exact hfirst
    have heq : s.currentThreadId + 1 = tidLimit := Nat.le_antisymm hcur (Nat.not_lt.mp hlast)
    rw [heq, Nat.mod_self] at hfirst
    refine .inr ⟨fun x hx hlt => absurd (Nat.lt_of_le_of_lt hx hlt) hlast, fun x hlt => ?_⟩
    rcases hfirst with ⟨-, -, hall⟩ | ⟨-, hlow⟩
    · exact hall x (Nat.zero_le x) hlt
    · exact hlow x hlt
  rcases hcases with ⟨hlow, hlim, hall⟩ | ⟨hhigh, hall⟩
  · constructor
    · intro habove
      refine ⟨fun _ _ _ _ t ht x hx hle => hall x hx ?_, fun hnone => ?_⟩
      · exact Nat.lt_of_le_of_lt hle (habove t ht)
      · exact absurd (hnone tid hlow hlim) hfree
    · intro habove t ht
      apply Nat.lt_of_not_le
      exact fun hle => hfree (habove.ahead tid hlow hlim hfree t ht tid hlow hle)
  · constructor
    · intro habove
      refine ⟨fun free hlow hlim hno => absurd (hhigh free hlow hlim) hno, fun _ t ht x hle => ?_⟩
      exact hall x (Nat.lt_of_le_of_lt hle (habove t ht))
    · intro habove t ht
      apply Nat.lt_of_not_le
      exact fun hle => hfree (habove.wrapped hhigh t ht tid hle)

/-- The highest element after an insertion is the new one exactly when it is above the others. -/
theorem max_insert_eq_iff {threads : Finset Tid} (hnew : tid ∉ threads)
    (h : (insert tid threads).Nonempty) :
    (insert tid threads).max' h = tid ↔ ∀ t ∈ threads, t < tid := by
  constructor
  · intro hmax t ht
    have hle := Finset.le_max' (insert tid threads) t (Finset.mem_insert_of_mem ht)
    exact lt_of_le_of_ne (hmax ▸ hle) fun heq => hnew (heq ▸ ht)
  intro habove
  rcases Finset.mem_insert.mp (Finset.max'_mem _ h) with heq | hold
  · exact heq
  have hle := Finset.le_max' _ tid (Finset.mem_insert_self tid threads)
  exact absurd (habove _ hold) (Nat.not_lt.mpr hle)

/-- A call that added a thread answers the highest tid of the process. -/
theorem threadAdded_nonneg {ret : Int} (hproc : s.processes.get pid = some proc)
    (hadd : s.addNewThreadToProcess pid ok = some s')
    (hanswer : s'.threadAdded pid ok proc.threads = some ret) (hret : 0 ≤ ret) :
    ∃ tid, s.nextTid = some tid ∧ s'.registry = s.registry.insert tid ⟨pid, .ready, false, 0⟩ ∧
      (ret = tid ↔ ∀ t ∈ proc.threads, t < tid) := by
  unfold System.threadAdded at hanswer
  split at hanswer
  · next hflag =>
    obtain ⟨rfl, hnew⟩ := hflag
    simp only [System.addNewThreadToProcess, hproc, if_true, Option.bind_eq_bind,
      Option.bind_eq_some_iff] at hadd
    obtain ⟨tid, htid, hadd⟩ := hadd
    split at hadd
    · next hold =>
      cases hadd
      exact absurd hold hnew
    next hnew =>
    cases hadd
    simp only [System.register, System.setThread, System.setProcess, Table.get_insert_self,
      Option.bind_eq_bind, Option.bind_some, Finset.insert_nonempty, dif_pos] at hanswer
    cases hanswer
    refine ⟨tid, htid, rfl, ?_⟩
    rw [Int.ofNat_inj]
    exact max_insert_eq_iff hnew _
  · cases hanswer
    exact absurd hret (Int.not_le.mpr (Errno.toRet_neg _))

/-- A successful call has made one thread, under a tid that was free, and returns that tid
exactly when the tids the process had lie before the first free one after the counter. -/
theorem create_thread_returns_iff {allHarts parentAllowed allowed affinity : UInt64} {ret : Int}
    (hcur : s.currentThreadId < tidLimit)
    (h : s.runCreateThreadReq pid allHarts parentAllowed allowed affinity ok = some (ret, s'))
    (hret : 0 ≤ ret) : ∃ proc tid, s.processes.get pid = some proc ∧ s.registry.get tid = none ∧
      s'.registry = s.registry.insert tid ⟨pid, .ready, false, 0⟩ ∧
      (ret = tid ↔ Above s proc.threads) := by
  unfold System.runCreateThreadReq at h
  split at h
  · cases h
    exact absurd hret (Int.not_le.mpr (Errno.toRet_neg _))
  split at h
  · cases h
    exact absurd hret (Int.not_le.mpr (Errno.toRet_neg _))
  next proc hproc =>
  obtain ⟨s₁, hadd, h⟩ := Option.bind_eq_some_iff.mp h
  obtain ⟨ret₁, hanswer, h⟩ := Option.bind_eq_some_iff.mp h
  cases h
  obtain ⟨tid, htid, hreg, hiff⟩ := threadAdded_nonneg hproc hadd hanswer hret
  exact ⟨proc, tid, hproc, nextTid_free htid, hreg,
    hiff.trans (nextTid_above_iff hcur htid proc.threads)⟩

/-- As long as no counter has wrapped, every tid of a process has been passed. -/
theorem above_of_unwrapped
    (run : Reach step (fun s a => Unwrapped s a ∧ Registered s a) (· = initial) s)
    (hcur : s.currentThreadId + 1 < tidLimit) (hproc : s.processes.get pid = some proc) :
    Above s proc.threads := by
  obtain ⟨passed, agree⟩ : Passed s ∧ Agree s := by
    refine run.invariant (I := fun s => Passed s ∧ Agree s) ?_ ?_
    · rintro s rfl
      exact ⟨initial_passed, initial_agree⟩
    · rintro s a s' ⟨passed, agree⟩ ⟨hpassed, hagree⟩ hs
      exact ⟨passed.preserved hpassed hs, agree.preserved hagree hs⟩
  constructor
  · intro _ _ _ _ t ht x hx hle
    obtain ⟨th, hth, -⟩ := agree.members pid proc hproc t ht
    exact absurd (passed.tids t th hth) (Nat.not_le.mpr (Nat.lt_of_lt_of_le hx hle))
  · intro hall
    obtain ⟨th, hth⟩ := Option.isSome_iff_exists.mp (hall _ (Nat.lt_succ_self _) hcur)
    exact absurd (passed.tids _ th hth) (Nat.not_succ_le_self _)

/-- The first process makes its second thread. -/
theorem create_thread_returns_two : ∃ s s' : System, s.registry.get 2 = none ∧
    s.runCreateThreadReq 1 1 1 0 0 true = some (2, s') ∧ (s'.registry.get 2).isSome := by
  have hstart : Reach step (fun s a => Unwrapped s a ∧ Registered s a) (· = initial) initial :=
    .start rfl
  obtain ⟨s, run, hcur, hret⟩ := hstart.exists_of_exec [.spawn 0 false .done]
    (fun s => s.currentThreadId = 1 ∧ (s.runCreateThreadReq 1 1 1 0 0 true).map Prod.fst = some 2)
    (by decide +kernel)
  obtain ⟨⟨ret, s'⟩, hcall, hret⟩ := Option.map_eq_some_iff.mp hret
  cases hret
  obtain ⟨proc, tid, hproc, hfree, hreg, hiff⟩ :=
    create_thread_returns_iff (by rw [hcur]; decide) hcall (by decide)
  have habove := above_of_unwrapped run (by rw [hcur]; decide) hproc
  obtain rfl : 2 = tid := Int.ofNat_inj.mp (hiff.mpr habove)
  exact ⟨s, s', hfree, hcall, by rw [hreg, Table.get_insert_self]; rfl⟩

/-- The thread that is made when the counter wraps has tid 0, and the caller is told the tid of
the thread that was there. -/
theorem wrapped_tid_is_not_returned : ∃ s pid s', Reach step (fun _ _ => True) (· = initial) s ∧
    (s.registry.get 4294967295).isSome ∧ s.registry.get 0 = none ∧
    s.runCreateThreadReq pid 1 1 0 0 true = some (4294967295, s') ∧ (s'.registry.get 0).isSome := by
  obtain ⟨last, hrun⟩ := reach_tid_counter 4294967294 (by decide)
  obtain ⟨s, pid, proc, hs, hproc, hthreads, hcur, hold, hfree⟩ : ∃ s pid proc,
      Reach step (fun _ _ => True) (· = initial) s ∧ s.processes.get pid = some proc ∧
      proc.threads = {4294967295} ∧ s.currentThreadId = 4294967295 ∧
      (s.registry.get 4294967295).isSome ∧ s.registry.get 0 = none :=
    ⟨_, (last + 1) % Wait.pidLimit, _, .next hrun trivial (a := .spawn 0 false .done) rfl,
      Table.get_insert_self .., rfl, rfl, rfl, rfl⟩
  have htid : s.nextTid = some 0 := by
    rw [System.nextTid, hcur, show (4294967295 + 1) % tidLimit = 0 from rfl, nextTidFrom, hfree]
    rfl
  have hnew : 0 ∉ proc.threads := by
    rw [hthreads]
    decide
  have hmax : ∀ h, (insert 0 proc.threads).max' h = 4294967295 := by
    rw [hthreads]
    exact fun _ => rfl
  refine ⟨s, pid, (s.setProcess pid { proc with threads := insert 0 proc.threads }).register pid 0,
    hs, hold, hfree, ?_, ?_⟩
  · simp [System.runCreateThreadReq, Sched.resolveAffinity, System.addNewThreadToProcess,
      System.threadAdded, System.register, System.setThread, System.setProcess, hproc, htid, hnew,
      hmax]
  · rw [System.register, System.setThread, Table.get_insert_self]
    rfl

end Orbit.Proc
