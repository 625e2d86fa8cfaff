import Orbit.Smp.Shootdown

/-!
A broadcast that finds the flag set returns after every other hart has served it. The counter
of a broadcast is the number of harts it still waits for: those it has not told yet and those
that hold its request. A hart holds at most one request of every other hart, so no ring fills
up. Between the release of a hart and the flag, a broadcast returns and nobody has flushed.
-/

namespace Orbit.Smp

open Function

variable {b : Broadcast} {more : List (Nat × Fence)} {hart j : Nat} {r : Req}

namespace System

variable {n : Nat} {s s' : System}

structure Inv (n : Nat) (s : System) : Prop where
  sent : ∀ h b, s.sending h = some b → h < n ∧ b.target ≤ n ∧ b.failed = 0 ∧ b.req.sender = h ∧
    b.req.ack < s.nextCounter ∧ b.began ≤ s.fences.length
  acks : ∀ h h' b b', s.sending h = some b → s.sending h' = some b' →
    b.req.ack = b'.req.ack → h = h'
  /-- a request that is held is of a broadcast under way, which has told its holder -/
  source : ∀ j r, r ∈ s.held j → j < n ∧ r.sender ≠ j ∧
    ∃ b, s.sending r.sender = some b ∧ b.req = r ∧ j < b.target
  once : ∀ j, ((s.held j).map Req.sender).Nodup
  count : ∀ h b, s.sending h = some b → s.counters b.req.ack = (s.awaited n h b).card
  told : ∀ h b j, s.sending h = some b → j < b.target → j ≠ h →
    b.req ∈ s.held j ∨ s.Fenced b.began j b.req.fence
  fenced : ∀ j r, s.servicing j = some (r, true) → ∀ b, s.sending r.sender = some b →
    s.Fenced b.began j r.fence
  returned : ∀ d ∈ s.returned, d.kicked = true → ∀ j ∈ d.online, j ≠ d.hart →
    s.Flushed d.began j d.scope d.va

theorem inv_init (n : Nat) : init.Inv n where
  sent h b hb := by cases hb
  acks h h' b b' hb := by cases hb
  source j r hr := by cases hr
  once j := List.nodup_nil
  count h b hb := by cases hb
  told h b j hb := by cases hb
  fenced j r hr := by cases hr
  returned d hd := by cases hd

theorem mem_awaited {h : Nat} :
    j ∈ s.awaited n h b ↔ j < n ∧ s.Awaited h b j := by
  rw [awaited, Finset.mem_filter, Finset.mem_range]

/-- A broadcast that has pushed nothing awaits every other hart. -/
theorem awaited_new {h : Nat} (htarget : b.target = 0) :
    s.awaited n h b = (Finset.range n).erase h := by
  ext j
  rw [mem_awaited, Finset.mem_erase, Finset.mem_range, Awaited, htarget]
  simp only [Nat.zero_le, true_or, and_true]
  exact and_comm

theorem lt_of_mem_online (h : j ∈ s.online n) : j < n :=
  List.mem_range.mp (List.mem_of_mem_filter h)

theorem awaited_congr {h : Nat} {b b' : Broadcast}
    (hsame : ∀ j, j < n → (s'.Awaited h b' j ↔ s.Awaited h b j)) :
    s'.awaited n h b' = s.awaited n h b := by
  ext j
  rw [mem_awaited, mem_awaited]
  exact and_congr_right (hsame j)

/-- Fences stay on record. -/
theorem Fenced.mono {began j : Nat} {f : Fence} (h : s.Fenced began j f)
    (hmore : s'.fences = s.fences ++ more) : s'.Fenced began j f := by
  obtain ⟨i, hi, hget⟩ := h
  refine ⟨i, hi, ?_⟩
  rw [hmore, List.getElem?_append_left]
  · exact hget
  · exact (List.getElem?_eq_some_iff.mp hget).1

theorem Flushed.mono {began j va : Nat} {scope : FlushScope} (h : s.Flushed began j scope va)
    (hmore : s'.fences = s.fences ++ more) : s'.Flushed began j scope va := by
  obtain ⟨f, hfenced, hdrops⟩ := h
  exact ⟨f, hfenced.mono hmore, hdrops⟩

/-- What a receiver executes drops what the sender asked for. -/
theorem Fenced.flushed {began : Nat} (h : s.Fenced began j r.fence) :
    s.Flushed began j r.scope r.va := by
  refine ⟨r.fence, h, fun asid page hasks => ?_⟩
  unfold Req.fence
  cases hscope : r.scope with
  | all => trivial
  | asid a =>
    rw [hscope] at hasks
    obtain ⟨hasid, hpage⟩ := hasks
    dsimp only
    split
    · exact hasid
    next hva => exact ⟨hasid, hpage.resolve_left hva⟩

/-- A hart holds at most one request of every other hart. -/
theorem Inv.held_length (h : s.Inv n) (hj : j < n) : (s.held j).length ≤ n - 1 := by
  have hsub : ((s.held j).map Req.sender).toFinset ⊆ (Finset.range n).erase j := by
    intro k hk
    obtain ⟨r, hr, rfl⟩ := List.mem_map.mp (List.mem_toFinset.mp hk)
    obtain ⟨-, hne, b, hb, -⟩ := h.source j r hr
    exact Finset.mem_erase.mpr ⟨hne, Finset.mem_range.mpr (h.sent _ b hb).1⟩
  have hcard := Finset.card_le_card hsub
  rw [List.toFinset_card_of_nodup (h.once j), List.length_map,
    Finset.card_erase_of_mem (Finset.mem_range.mpr hj), Finset.card_range] at hcard
  exact hcard

/-- The request of another broadcast is another request. -/
theorem Inv.req_ne (h : s.Inv n) {i k : Nat} {b c : Broadcast} (hb : s.sending i = some b)
    (hc : s.sending k = some c) (hne : i ≠ k) : b.req ≠ c.req := by
  intro heq
  apply hne
  rw [← (h.sent i b hb).2.2.2.1, ← (h.sent k c hc).2.2.2.1, heq]

theorem update_cases {f : Nat → Option Broadcast} {i k : Nat} {b c : Broadcast}
    (h : update f k (some b) i = some c) : (i = k ∧ c = b) ∨ (i ≠ k ∧ f i = some c) := by
  by_cases hi : i = k
  · rw [hi, update_self] at h
    exact .inl ⟨hi, (Option.some.inj h).symm⟩
  · rw [update_of_ne hi] at h
    exact .inr ⟨hi, h⟩

variable (h : s.Inv n)

include h

/-- Steps that change neither broadcasts nor what harts hold, and only add fences. -/
theorem Inv.frame {t : System} (hsending : t.sending = s.sending)
    (hcounters : t.counters = s.counters)
    (hnext : t.nextCounter = s.nextCounter) (hheld : ∀ j, t.held j = s.held j)
    (hfences : t.fences = s.fences ++ more)
    (hfenced : ∀ j r, t.servicing j = some (r, true) → ∀ b, s.sending r.sender = some b →
      t.Fenced b.began j r.fence)
    (hreturned : ∀ d ∈ t.returned, d.kicked = true → ∀ j ∈ d.online, j ≠ d.hart →
      t.Flushed d.began j d.scope d.va) : t.Inv n where
  sent i b hb := by
    rw [hsending] at hb
    obtain ⟨h1, h2, h3, h4, h5, h6⟩ := h.sent i b hb
    refine ⟨h1, h2, h3, h4, hnext ▸ h5, ?_⟩
    rw [hfences, List.length_append]
    omega
  acks := by
    rw [hsending]
    exact h.acks
  source j r hr := by
    rw [hheld] at hr
    rw [hsending]
    exact h.source j r hr
  once j := by
    rw [hheld]
    exact h.once j
  count i b hb := by
    rw [hsending] at hb
    rw [hcounters, h.count i b hb, awaited_congr]
    intro j _
    rw [Awaited, Awaited, hheld]
  told i b j hb hj hne := by
    rw [hsending] at hb
    rw [hheld]
    exact (h.told i b j hb hj hne).imp id fun hf => hf.mono hfences
  fenced j r hr b hb := hfenced j r hr b (hsending ▸ hb)
  returned := hreturned

theorem Inv.returned_mono (hfences : s'.fences = s.fences ++ more) :
    ∀ d ∈ s.returned, d.kicked = true → ∀ j ∈ d.online, j ≠ d.hart →
      s'.Flushed d.began j d.scope d.va :=
  fun d hd hkicked j hj hne => (h.returned d hd hkicked j hj hne).mono hfences

/-- A broadcast that returns at once has no other hart to reach, or is not held to it. -/
theorem Inv.return_early (hon : s.Online n hart) (hearly : n ≤ 1 ∨ s.secondariesKicked = false)
    (scope : FlushScope) (va : Nat) :
    Inv n { s with returned :=
      ⟨hart, scope, va, s.fences.length, s.secondariesKicked, s.online n⟩ :: s.returned } := by
  refine h.frame (t := { s with returned := _ :: s.returned }) rfl rfl rfl (fun _ => rfl)
    (List.append_nil _).symm h.fenced ?_
  intro d hd hkicked j hj hne
  rcases List.mem_cons.mp hd with rfl | hd
  · rcases hearly with hone | hnot
    · have hlt := hon.1
      have hlt' := lt_of_mem_online hj
      exact absurd (show j = hart by omega) hne
    · cases hnot.symm.trans hkicked
  · exact h.returned d hd hkicked j hj hne

theorem Inv.broadcastScope (hon : s.Online n hart)
    (hidle : s.sending hart = none) (scope : FlushScope) (va len : Nat) :
    (s.broadcastScope n hart scope va len).Inv n := by
  rw [System.broadcastScope]
  split
  · next hearly => exact h.return_early hon hearly scope va
  next hmany =>
  have hnone : ∀ j r, r ∈ s.held j → r.sender ≠ hart := by
    rintro j r hr rfl
    obtain ⟨-, -, b, hb, -⟩ := h.source j r hr
    rw [hidle] at hb
    cases hb
  obtain ⟨b0, hb0⟩ : ∃ b0 : Broadcast,
    b0 = ⟨⟨scope, va, len, s.nextCounter, hart⟩, 0, 0, s.fences.length⟩ := ⟨_, rfl⟩
  have hback : ∀ i b, update s.sending hart (some b0) i = some b →
      (i = hart ∧ b = b0) ∨ (i ≠ hart ∧ s.sending i = some b) := fun _ _ => update_cases
  simp only [← hb0]
  constructor
  · intro i b hb
    rcases hback i b hb with ⟨rfl, rfl⟩ | ⟨-, hold⟩
    · rw [hb0]
      exact ⟨hon.1, Nat.zero_le _, rfl, rfl, Nat.lt_succ_self _, Nat.le_refl _⟩
    · obtain ⟨h1, h2, h3, h4, h5, h6⟩ := h.sent i b hold
      exact ⟨h1, h2, h3, h4, Nat.lt_succ_of_lt h5, h6⟩
  · intro i k b c hb hc heq
    rcases hback i b hb with ⟨rfl, rfl⟩ | ⟨-, hbold⟩
    · rcases hback k c hc with ⟨rfl, -⟩ | ⟨-, hcold⟩
      · rfl
      have hlt := (h.sent k c hcold).2.2.2.2.1
      rw [← heq, hb0] at hlt
      exact absurd hlt (Nat.lt_irrefl _)
    rcases hback k c hc with ⟨rfl, rfl⟩ | ⟨-, hcold⟩
    · have hlt := (h.sent i b hbold).2.2.2.2.1
      rw [heq, hb0] at hlt
      exact absurd hlt (Nat.lt_irrefl _)
    · exact h.acks i k b c hbold hcold heq
  · intro j r hr
    obtain ⟨h1, h2, b, hb, h3, h4⟩ := h.source j r hr
    refine ⟨h1, h2, b, ?_, h3, h4⟩
    show update s.sending hart (some b0) r.sender = some b
    rw [update_of_ne (hnone j r hr)]
    exact hb
  · exact h.once
  · intro i b hb
    rcases hback i b hb with ⟨rfl, rfl⟩ | ⟨-, hold⟩
    · show update s.counters s.nextCounter (n - 1) b.req.ack = _
      have htarget : b.target = 0 := by rw [hb0]
      rw [awaited_new htarget, Finset.card_erase_of_mem (Finset.mem_range.mpr hon.1),
        Finset.card_range, hb0, update_self]
    have hack := (h.sent i b hold).2.2.2.2.1
    show update s.counters s.nextCounter (n - 1) b.req.ack = _
    rw [update_of_ne (Nat.ne_of_lt hack), h.count i b hold]
    rfl
  · intro i b j hb hj hne
    rcases hback i b hb with ⟨rfl, rfl⟩ | ⟨-, hold⟩
    · rw [hb0] at hj
      exact absurd hj (Nat.not_lt_zero _)
    · exact h.told i b j hold hj hne
  · intro j r hr b hb
    have hheld : r ∈ s.held j := by
      have hserv : s.servicing j = some (r, true) := hr
      rw [held, hserv]
      exact .head _
    rcases hback r.sender b hb with ⟨hsender, -⟩ | ⟨-, hold⟩
    · exact absurd hsender (hnone j r hheld)
    · exact h.fenced j r hr b hold
  · exact h.returned

/-- A broadcast goes on to the next hart, which holds its request from then on unless it
is the sender. -/
theorem Inv.advance {b b' : Broadcast} (hb : s.sending hart = some b)
    (htarget : b.target < n) (hb' : b' = { b with target := b.target + 1 })
    {rings : Nat → List Req} (hrings : ∀ j r, r ∈ rings j ↔
      r ∈ s.rings j ∨ j = b.target ∧ j ≠ hart ∧ r = b.req)
    (honce : ∀ j, ((System.held { s with rings } j).map Req.sender).Nodup) :
    System.Inv n { s with rings, sending := update s.sending hart (some b') } := by
  obtain ⟨hlt, -, hfail, hsender, hack, hbegan⟩ := h.sent hart b hb
  obtain ⟨t, ht⟩ : ∃ t : System,
    t = { s with rings, sending := update s.sending hart (some b') } := ⟨_, rfl⟩
  have hreq : b'.req = b.req := by rw [hb']
  have hsend : t.sending = update s.sending hart (some b') := by rw [ht]
  have hback : ∀ i c, t.sending i = some c →
      (i = hart ∧ c = b') ∨ (i ≠ hart ∧ s.sending i = some c) := by
    intro i c hc
    rw [hsend] at hc
    exact update_cases hc
  have hheld : ∀ j r, r ∈ t.held j ↔ r ∈ s.held j ∨ j = b.target ∧ j ≠ hart ∧ r = b.req := by
    intro j r
    simp only [ht, held, List.mem_append, hrings j r, or_assoc]
  have hfences : t.fences = s.fences ++ [] := by
    rw [ht, List.append_nil]
  rw [← ht]
  constructor
  · intro i c hc
    have hsame : t.nextCounter = s.nextCounter ∧ t.fences = s.fences := by
      rw [ht]
      exact ⟨rfl, rfl⟩
    rw [hsame.1, hsame.2]
    rcases hback i c hc with ⟨rfl, rfl⟩ | ⟨-, hold⟩
    · rw [hb']
      exact ⟨hlt, htarget, hfail, hsender, hack, hbegan⟩
    · exact h.sent i c hold
  · intro i k c d hc hd heq
    rcases hback i c hc with ⟨rfl, rfl⟩ | ⟨-, hcold⟩
    · rcases hback k d hd with ⟨rfl, -⟩ | ⟨-, hdold⟩
      · rfl
      · exact h.acks i k b d hb hdold (by rw [← heq, hreq])
    rcases hback k d hd with ⟨rfl, rfl⟩ | ⟨-, hdold⟩
    · exact h.acks i k c b hcold hb (by rw [heq, hreq])
    · exact h.acks i k c d hcold hdold heq
  · intro j r hr
    rcases (hheld j r).mp hr with hold | ⟨rfl, hne, rfl⟩
    · obtain ⟨h1, h2, c, hc, h3, h4⟩ := h.source j r hold
      by_cases hwho : r.sender = hart
      · rw [hwho, hb] at hc
        cases hc
        refine ⟨h1, h2, b', ?_, hreq.trans h3, ?_⟩
        · rw [hsend, hwho, update_self]
        · rw [hb']
          exact Nat.lt_succ_of_lt h4
      refine ⟨h1, h2, c, ?_, h3, h4⟩
      rw [hsend, update_of_ne hwho]
      exact hc
    refine ⟨htarget, hsender.symm ▸ hne.symm, b', ?_, hreq, ?_⟩
    · rw [hsend, hsender, update_self]
    · rw [hb']
      exact Nat.lt_succ_self _
  · rw [ht]
    exact honce
  · intro i c hc
    have hcounters : t.counters = s.counters := by rw [ht]
    rw [hcounters]
    rcases hback i c hc with ⟨rfl, rfl⟩ | ⟨hne, hold⟩
    · rw [hreq, h.count i b hb]
      congr 1
      symm
      apply awaited_congr
      intro j _
      rw [Awaited, Awaited, hreq, hheld]
      apply and_congr_right
      intro hji
      rw [hb']
      constructor
      · rintro (hle | hin | ⟨rfl, -, -⟩)
        · exact .inl (Nat.le_of_succ_le hle)
        · exact .inr hin
        · exact .inl le_rfl
      rintro (hle | hin)
      · rcases Nat.eq_or_lt_of_le hle with heq | hgt
        · exact .inr (.inr ⟨heq.symm, hji, rfl⟩)
        · exact .inl hgt
      · exact .inr (.inl hin)
    · rw [h.count i c hold]
      congr 1
      symm
      apply awaited_congr
      intro j _
      have hother : ¬ (j = b.target ∧ j ≠ hart ∧ c.req = b.req) :=
        fun hall => h.req_ne hold hb hne hall.2.2
      rw [Awaited, Awaited, hheld, or_iff_left hother]
  · intro i c j hc hj hne
    rcases hback i c hc with ⟨rfl, rfl⟩ | ⟨-, hold⟩
    · rw [hb'] at hj ⊢
      rcases Nat.lt_succ_iff_lt_or_eq.mp hj with hlt' | heq
      · rcases h.told i b j hb hlt' hne with hin | hf
        · exact .inl ((hheld j _).mpr (.inl hin))
        · exact .inr (hf.mono hfences)
      · exact .inl ((hheld j _).mpr (.inr ⟨heq, hne, rfl⟩))
    rcases h.told i c j hold hj hne with hin | hf
    · exact .inl ((hheld j _).mpr (.inl hin))
    · exact .inr (hf.mono hfences)
  · intro j r hr c hc
    have hserv : s.servicing j = some (r, true) := by
      rw [ht] at hr
      exact hr
    rcases hback r.sender c hc with ⟨hwho, rfl⟩ | ⟨-, hold⟩
    · rw [hb']
      exact (h.fenced j r hserv b (hwho ▸ hb)).mono hfences
    · exact (h.fenced j r hserv c hold).mono hfences
  · have hreturned : t.returned = s.returned := by rw [ht]
    rw [hreturned]
    exact h.returned_mono hfences

/-- No ring is full when a broadcast gets to it. -/
theorem Inv.pushNext (hn : n ≤ maxHarts)
    (hb : s.sending hart = some b) (htarget : b.target < n) : (s.pushNext hart b).Inv n := by
  have hsender := (h.sent hart b hb).2.2.2.1
  rw [System.pushNext]
  split
  · next hself =>
    apply h.advance hb htarget rfl
    · intro j r
      exact ⟨.inl, fun hor => hor.resolve_right fun hall => hall.2.1 (hall.1.trans hself)⟩
    · exact h.once
  next hne =>
  have hnot : b.req.sender ∉ (s.held b.target).map Req.sender := by
    intro hin
    obtain ⟨r, hr, hwho⟩ := List.mem_map.mp hin
    obtain ⟨-, -, c, hc, -, hlt'⟩ := h.source b.target r hr
    rw [hwho, hsender, hb] at hc
    cases hc
    exact Nat.lt_irrefl _ hlt'
  rw [if_pos]
  · apply h.advance hb htarget rfl
    · intro j r
      by_cases hj : j = b.target
      · rw [hj, update_self, List.mem_append, List.mem_singleton]
        simp [hne]
      · rw [update_of_ne hj]
        simp [hj]
    intro j
    by_cases hj : j = b.target
    · rw [hj, held]
      simp only [update_self]
      rw [← List.append_assoc, List.map_append, List.map_singleton]
      apply List.Nodup.append (h.once b.target) (List.nodup_singleton _)
      intro x hx hx'
      rw [List.mem_singleton.mp hx'] at hx
      exact hnot hx
    rw [held]
    simp only [update_of_ne hj]
    exact h.once j
  · have hlen := h.held_length htarget
    rw [held, List.length_append] at hlen
    have hcap : shootdownRingCap = 16 := rfl
    have hmax : maxHarts = 8 := rfl
    omega

/-- A broadcast returns: nobody holds its request any more, so everybody has fenced. -/
theorem Inv.finish (hb : s.sending hart = some b)
    (htarget : b.target = n) (hzero : s.counters b.req.ack = 0) :
    System.Inv n { s with
      sending := update s.sending hart none
      returned := ⟨hart, b.req.scope, b.req.va, b.began, true, s.online n⟩ :: s.returned } := by
  have hnone : ∀ j, j < n → j ≠ hart → b.req ∉ s.held j := by
    intro j hj hne hin
    rw [h.count hart b hb, Finset.card_eq_zero] at hzero
    have hmem : j ∈ s.awaited n hart b := mem_awaited.mpr ⟨hj, hne, .inr hin⟩
    rw [hzero] at hmem
    cases hmem
  have hback : ∀ i c, update s.sending hart none i = some c →
      i ≠ hart ∧ s.sending i = some c := by
    intro i c hc
    by_cases hi : i = hart
    · rw [hi, update_self] at hc
      cases hc
    · rw [update_of_ne hi] at hc
      exact ⟨hi, hc⟩
  constructor
  · exact fun i c hc => h.sent i c (hback i c hc).2
  · exact fun i k c d hc hd => h.acks i k c d (hback i c hc).2 (hback k d hd).2
  · intro j r hr
    obtain ⟨h1, h2, c, hc, h3, h4⟩ := h.source j r hr
    refine ⟨h1, h2, c, ?_, h3, h4⟩
    show update s.sending hart none r.sender = some c
    rw [update_of_ne]
    · exact hc
    intro hwho
    rw [hwho, hb] at hc
    cases hc
    rw [← h3] at hr
    exact hnone j h1 (hwho ▸ h2.symm) hr
  · exact h.once
  · exact fun i c hc => h.count i c (hback i c hc).2
  · exact fun i c j hc => h.told i c j (hback i c hc).2
  · exact fun j r hr c hc => h.fenced j r hr c (hback _ c hc).2
  intro d hd hkicked j hj hne
  rcases List.mem_cons.mp hd with rfl | hd
  · have hlt := lt_of_mem_online hj
    have hfenced := (h.told hart b j hb (htarget ▸ hlt) hne).resolve_left (hnone j hlt hne)
    exact hfenced.flushed
  · exact h.returned d hd hkicked j hj hne

theorem Inv.pop {rest : List Req} (hidle : s.servicing hart = none)
    (hring : s.rings hart = r :: rest) :
    System.Inv n { s with
      rings := update s.rings hart rest
      servicing := update s.servicing hart (some (r, false)) } := by
  apply h.frame
  · rfl
  · rfl
  · rfl
  · intro j
    by_cases hj : j = hart
    · simp only [hj, held, update_self, hidle, hring]
      rfl
    · simp only [held, update_of_ne hj]
  · exact (List.append_nil _).symm
  · intro j r' hr' b hb
    by_cases hj : j = hart
    · simp only [hj, update_self] at hr'
      cases hr'
    · simp only [update_of_ne hj] at hr'
      exact h.fenced j r' hr' b hb
  · exact h.returned

theorem Inv.fence (hserv : s.servicing hart = some (r, false)) :
    System.Inv n { s with
      servicing := update s.servicing hart (some (r, true))
      fences := s.fences ++ [(hart, r.fence)] } := by
  apply h.frame
  · rfl
  · rfl
  · rfl
  · intro j
    by_cases hj : j = hart
    · simp only [hj, held, update_self, hserv]
      rfl
    · simp only [held, update_of_ne hj]
  · rfl
  · intro j r' hr' b hb
    by_cases hj : j = hart
    · simp only [hj, update_self] at hr'
      cases hr'
      refine ⟨s.fences.length, (h.sent _ b hb).2.2.2.2.2, ?_⟩
      rw [hj]
      exact List.getElem?_concat_length
    · simp only [update_of_ne hj] at hr'
      exact (h.fenced j r' hr' b hb).mono rfl
  · exact h.returned_mono rfl

/-- A hart counts down for a request it has fenced for. -/
theorem Inv.ack (hserv : s.servicing hart = some (r, true)) :
    0 < s.counters r.ack ∧ System.Inv n { s.decrement r.ack with
      servicing := update s.servicing hart none } := by
  obtain ⟨t, ht⟩ : ∃ t : System,
    t = { s.decrement r.ack with servicing := update s.servicing hart none } := ⟨_, rfl⟩
  have hheld : s.held hart = r :: s.rings hart := by
    rw [held, hserv]
    rfl
  have hmem : r ∈ s.held hart := by
    rw [hheld]
    exact .head _
  obtain ⟨hlt, hne, b, hb, rfl, hlt'⟩ := h.source hart r hmem
  have hlater : ∀ j, t.held j = if j = hart then s.rings hart else s.held j := by
    intro j
    split
    · next hj =>
      rw [ht, hj, held]
      simp only [update_self]
      rfl
    next hj =>
    rw [ht, held, held]
    simp only [update_of_ne hj]
    rfl
  have honce := h.once hart
  rw [hheld, List.map_cons, List.nodup_cons] at honce
  have hgone : b.req ∉ s.rings hart := fun hin => honce.1 (List.mem_map_of_mem hin)
  have hstill : ∀ j q, q ∈ t.held j ↔ q ∈ s.held j ∧ ¬ (j = hart ∧ q = b.req) := by
    intro j q
    rw [hlater j]
    split
    · next hj =>
      rw [hj, hheld, List.mem_cons]
      constructor
      · intro hin
        exact ⟨.inr hin, fun hand => hgone (hand.2 ▸ hin)⟩
      rintro ⟨rfl | hin, hnot⟩
      · exact absurd ⟨rfl, rfl⟩ hnot
      · exact hin
    · next hj => exact ⟨fun hin => ⟨hin, fun hand => hj hand.1⟩, And.left⟩
  have hawaits : hart ∈ s.awaited n b.req.sender b :=
    mem_awaited.mpr ⟨hlt, hne.symm, .inr hmem⟩
  have hcount := h.count _ b hb
  have hpos : 0 < s.counters b.req.ack := by
    rw [hcount]
    exact Finset.card_pos.mpr ⟨hart, hawaits⟩
  have hsame : t.sending = s.sending ∧ t.fences = s.fences ∧ t.nextCounter = s.nextCounter ∧
      t.returned = s.returned := by
    rw [ht]
    exact ⟨rfl, rfl, rfl, rfl⟩
  have hfences : t.fences = s.fences ++ [] := by rw [hsame.2.1, List.append_nil]
  refine ⟨hpos, ?_⟩
  rw [← ht]
  constructor
  · rw [hsame.1, hsame.2.1, hsame.2.2.1]
    exact h.sent
  · rw [hsame.1]
    exact h.acks
  · rw [hsame.1]
    exact fun j q hq => h.source j q ((hstill j q).mp hq).1
  · intro j
    rw [hlater j]
    split
    · exact honce.2
    · exact h.once j
  · rw [hsame.1]
    intro i c hc
    by_cases hi : i = b.req.sender
    · -- the broadcast that is counted down waits for one hart less
      subst hi
      obtain rfl : b = c := Option.some.inj (hb.symm.trans hc)
      have herase : t.awaited n b.req.sender b = (s.awaited n b.req.sender b).erase hart := by
        ext j
        rw [Finset.mem_erase, mem_awaited, mem_awaited, Awaited, Awaited, hstill]
        constructor
        · rintro ⟨hj, hji, hor⟩
          refine ⟨?_, hj, hji, hor.imp id And.left⟩
          rintro rfl
          rcases hor with hle | hin
          · exact absurd hlt' (Nat.not_lt_of_le hle)
          · exact hin.2 ⟨rfl, rfl⟩
        · rintro ⟨hjh, hj, hji, hor⟩
          exact ⟨hj, hji, hor.imp id fun hin => ⟨hin, fun hand => hjh hand.1⟩⟩
      rw [herase, Finset.card_erase_of_mem hawaits, ← hcount, ht]
      exact update_self ..
    · have hack : c.req.ack ≠ b.req.ack := fun heq => hi (h.acks i _ c b hc hb heq)
      have hcounter : t.counters c.req.ack = s.counters c.req.ack := by
        rw [ht]
        exact update_of_ne hack ..
      rw [hcounter, h.count i c hc]
      congr 1
      symm
      apply awaited_congr
      intro j _
      have hother : ¬ (j = hart ∧ c.req = b.req) := fun hand => h.req_ne hc hb hi hand.2
      rw [Awaited, Awaited, hstill, and_iff_left hother]
  · rw [hsame.1]
    intro i c j hc hj hji
    rcases h.told i c j hc hj hji with hin | hf
    · by_cases hthis : j = hart ∧ c.req = b.req
      · right
        rw [hthis.1, hthis.2]
        have hwho : i = b.req.sender := by rw [← (h.sent i c hc).2.2.2.1, hthis.2]
        exact (h.fenced hart b.req hserv c (hwho ▸ hc)).mono hfences
      · exact .inl ((hstill j _).mpr ⟨hin, hthis⟩)
    · exact .inr (hf.mono hfences)
  · rw [hsame.1]
    intro j q hq c hc
    by_cases hj : j = hart
    · rw [ht, hj] at hq
      simp only [update_self] at hq
      cases hq
    rw [ht] at hq
    simp only [update_of_ne hj] at hq
    exact (h.fenced j q hq c hc).mono hfences
  · rw [hsame.2.2.2]
    exact h.returned_mono hfences

theorem Inv.step (hn : n ≤ maxHarts) {a : Action} (hstep : s.step n a = some s') :
    s'.Inv n := by
  cases a with
  | release hart =>
    cases hstep
    exact h.frame (t := { s with released := update s.released hart true }) rfl rfl rfl
      (fun _ => rfl) (List.append_nil _).symm h.fenced h.returned
  | kick =>
    simp only [System.step] at hstep
    split at hstep
    · cases hstep
      exact h.frame (t := { s with secondariesKicked := true }) rfl rfl rfl (fun _ => rfl)
        (List.append_nil _).symm h.fenced h.returned
    · cases hstep
  | broadcast hart scope va len =>
    simp only [System.step] at hstep
    split at hstep
    · next hok =>
      cases hstep
      exact h.broadcastScope hok.1 hok.2 scope va len
    · cases hstep
  | push hart =>
    simp only [System.step] at hstep
    split at hstep
    · next b hb =>
      split at hstep
      · next htarget =>
        cases hstep
        exact h.pushNext hn hb htarget
      · cases hstep
    · cases hstep
  | finish hart =>
    simp only [System.step] at hstep
    split at hstep
    · next b hb =>
      split at hstep
      · next hdone =>
        cases hstep
        exact h.finish hb hdone.1 hdone.2
      · cases hstep
    · cases hstep
  | pop hart =>
    simp only [System.step] at hstep
    split at hstep
    · next hok =>
      split at hstep
      · cases hstep
      next r rest hring =>
      cases hstep
      exact h.pop hok.2 hring
    · cases hstep
  | fence hart =>
    simp only [System.step] at hstep
    split at hstep
    · next r hserv =>
      cases hstep
      exact h.fence hserv
    · cases hstep
  | ack hart =>
    simp only [System.step] at hstep
    split at hstep
    · next r hserv =>
      cases hstep
      exact (h.ack hserv).2
    · cases hstep

end System

/-- In every run on up to `MAX_HARTS` harts: when a broadcast has returned that found the flag set,
or that nobody else was there for, every other hart that was there has dropped the translations
asked for after it began; no push ever found its ring full, and no ring has come to its capacity;
a hart that counts down finds the counter above zero, and a counter is what is left to be counted
down. -/
theorem shootdown_complete {n : Nat} (hn : n ≤ maxHarts) {s : System}
    (hreach : Transition.Reach (System.step n) (fun _ _ => True) (· = System.init) s) :
    (∀ d ∈ s.returned, d.kicked = true ∨ (∀ j ∈ d.online, j = d.hart) →
      ∀ j ∈ d.online, j ≠ d.hart → s.Flushed d.began j d.scope d.va) ∧
    (∀ h b, s.sending h = some b → b.failed = 0 ∧ s.counters b.req.ack = (s.awaited n h b).card) ∧
    (∀ j, j < n → (s.rings j).length < shootdownRingCap) ∧
    (∀ j r, s.servicing j = some (r, true) → 0 < s.counters r.ack) := by
  have hinv : s.Inv n := by
    apply hreach.invariant
    · rintro _ rfl
      exact System.inv_init n
    · intro s1 a s2 h1 _ hstep
      exact h1.step hn hstep
  refine ⟨?_, ?_, ?_, fun j r hr => (hinv.ack hr).1⟩
  · intro d hd hwhen j hj hne
    rcases hwhen with hkicked | halone
    · exact hinv.returned d hd hkicked j hj hne
    · exact absurd (halone j hj) hne
  · intro h b hb
    exact ⟨(hinv.sent h b hb).2.2.1, hinv.count h b hb⟩
  intro j hj
  have hlen := hinv.held_length hj
  rw [System.held, List.length_append] at hlen
  have hcap : shootdownRingCap = 16 := rfl
  have hmax : maxHarts = 8 := rfl
  omega

theorem shootdown_complete_two :
    ∃ s, Transition.Reach (System.step 2) (fun _ _ => True) (· = System.init) s ∧
      s.returned = [⟨0, .asid 5, 0, 0, true, [0, 1]⟩] ∧ s.Flushed 0 1 (.asid 5) 0 := by
  have hstart : Transition.Reach (System.step 2) (fun _ _ => True) (· = System.init) System.init :=
    .start rfl
  obtain ⟨s, hreach, hreturned⟩ := hstart.exists_of_exec
    [.release 1, .kick, .broadcast 0 (.asid 5) 0 0, .push 0, .push 0, .pop 1, .fence 1, .ack 1,
      .finish 0]
    (fun s : System => s.returned = [⟨0, .asid 5, 0, 0, true, [0, 1]⟩]) (by decide +kernel)
  refine ⟨s, hreach, hreturned, ?_⟩
  apply (shootdown_complete (by decide) hreach).1 ⟨0, .asid 5, 0, 0, true, [0, 1]⟩
  · rw [hreturned]
    exact .head _
  · exact .inl rfl
  · decide
  · decide

/-- Hart 1 has been released and the flag is not set yet: its broadcast returns, and hart 0 has
executed no fence. -/
theorem early_broadcast_tells_nobody :
    ∃ s, Transition.Reach (System.step 2) (fun _ _ => True) (· = System.init) s ∧
      s.returned = [⟨1, .asid 5, 0, 0, false, [0, 1]⟩] ∧ ¬ s.Flushed 0 0 (.asid 5) 0 := by
  have hstart : Transition.Reach (System.step 2) (fun _ _ => True) (· = System.init) System.init :=
    .start rfl
  obtain ⟨s, hreach, hreturned, hfences⟩ := hstart.exists_of_exec
    [.release 1, .broadcast 1 (.asid 5) 0 0]
    (fun s : System => s.returned = [⟨1, .asid 5, 0, 0, false, [0, 1]⟩] ∧ s.fences = [])
    (by decide +kernel)
  refine ⟨s, hreach, hreturned, ?_⟩
  rintro ⟨f, ⟨i, -, hget⟩, -⟩
  rw [hfences] at hget
  cases hget

end Orbit.Smp
