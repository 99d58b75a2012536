import Hpdcache.Reachable

/-!
# Room in the replay table, and isolation of the requests executed in program order

Both hold in every state reached by a regular run, and both fail when a request recorded as
cacheable is replayed after the cache was disabled: it becomes an uncacheable request with others in
flight.

* `Cache.capacity_run` — an entry is taken when there is room, and one fence waits at a time.
* `Cache.isolation_run` — a request is handed to the uncacheable handler with nothing in flight, and
no other one enters until the handler is ready again.
-/

namespace Hpdcache

open Hw

variable {c : Cfg}

namespace Cache

variable {s : Cache c} {i i₀ : CacheIn c} {j k : Fin c.rtabEntries}

/-! ## Room in the replay table -/

/-- A request that takes an entry in stage 1 was accepted when there was room. -/
theorem Inv.room (h : s.Inv)
    (ha : (s.rtabIn i).alloc = true ∨ (s.rtabIn i).allocAndLink = true) :
    all s.rtab.validQ = false := by
  obtain ⟨hv, hr, -⟩ := h.owned.core_of_alloc ha
  exact (h.owned.core hv hr).2.2.2

/-- One fence at most waits for the pending transactions. -/
theorem Inv.pend_unique (h : s.Inv) (hj : (s.rtab.depsQ j).pendTrans = true)
    (hk : (s.rtab.depsQ k).pendTrans = true) : j = k := by
  obtain ⟨hvj, hfj⟩ := h.fences.pend j hj
  obtain ⟨hvk, hfk⟩ := h.fences.pend k hk
  exact h.fences.one j k hvj hfj hvk hfk

/-- A request accepted in single-entry mode takes an entry of an empty table, and is never
linked. -/
theorem Inv.single_entry (h : s.Inv) (hmode : i₀.cfgRtabSingleEntry = true)
    (ha : ((s.step i₀).rtabIn i).alloc = true ∨ ((s.step i₀).rtabIn i).allocAndLink = true) :
    (s.step i₀).rtab.empty = true ∧ ((s.step i₀).rtabIn i).allocAndLink = false := by
  have hstep := h.owned_step (i := i₀)
  obtain ⟨hv, hr, -⟩ := hstep.core_of_alloc ha
  have hpop : s.rtab.popTryValid = false := by rw [← h.owned.fromRtab_step hv, hr]
  have hg : (s.peIn i₀).GrantCore c := by
    rcases (h.owned.reqQ_step hv).2 with hg | hg
    · exact hg.1
    · rw [hpop] at hg
      exact absurd hg.2 (by simp)
  have hnone : ∀ k, s.rtab.validQ k = false := by
    have hfull : s.rtab.full i₀.cfgRtabSingleEntry = false := hg.not_full
    rw [hmode, Rtab.full, Bool.and_true, Bool.or_eq_false_iff, any_eq_false] at hfull
    exact hfull.2
  have hempty : ∀ k, (s.step i₀).rtab.validQ k = false := by
    intro k
    by_contra hk
    have hk' := h.owned.of_valid_step (h.owned.granted (.inl hg)).nops (by simpa using hk)
    rw [hnone k] at hk'
    contradiction
  refine ⟨by simpa [Rtab.empty, any_eq_false] using hempty, ?_⟩
  by_contra hl
  have hcheck := (link_guard (hstep.link_iff.1 (by simpa using hl))).2.2.2
  obtain ⟨k, hk⟩ := any_eq_true.1 hcheck
  simp [Rtab.checkHitBv, hempty k] at hk

/-- In every state reached by a regular run, an entry is taken when the table is not full, and one
fence at most waits for the pending transactions. A request accepted in single-entry mode takes an
entry of an empty table only. -/
theorem capacity_run (s : Cache c) (is : List (CacheIn c))
    (hr : Along Cache.step Regular s.reset is) :
    let t := run Cache.step s.reset is
    (∀ i, (t.rtabIn i).alloc = true ∨ (t.rtabIn i).allocAndLink = true →
      all t.rtab.validQ = false) ∧
    (∀ i₀ i, i₀.cfgRtabSingleEntry = true →
      ((t.step i₀).rtabIn i).alloc = true ∨ ((t.step i₀).rtabIn i).allocAndLink = true →
      (t.step i₀).rtab.empty = true ∧ ((t.step i₀).rtabIn i).allocAndLink = false) ∧
    ∀ j k, (t.rtab.depsQ j).pendTrans = true → (t.rtab.depsQ k).pendTrans = true → j = k :=
  have h := inv_run hr
  ⟨fun _ => h.room, fun _ _ => h.single_entry, fun _ _ => h.pend_unique⟩

/-! ## Isolation -/

/-- A request is handed to the uncacheable handler when nothing else is in flight, and the handler
is ready. -/
theorem Inv.alone_of_ucReq (h : s.Inv) (hr : s.Regular i) (hu : (s.ucIn i).reqValid = true) :
    s.Alone ∧ s.uc.ready = true ∧ (s.step i).st1.reqValidQ = false := by
  obtain ⟨S, front, ht⟩ := h.tabled
  have hsend : (s.dec i).sendsUc = true := by
    have hpe : (s.ucIn i).reqValid = (s.dec i).sendsUc := (h.owned.pe_agrees (i := i)).ucReq
    rw [← hpe, hu]
  obtain ⟨hp, hcmo, hf, hw⟩ := (dec_guard (s := s) (i := i)).of_sendsUc hsend
  refine ⟨h.fences.alone h.owned ht hr.not_disabled hp.valid (isError_eq hp) hcmo hf hw, ?_, ?_⟩
  · have hv : s.st1.reqValidQ = true := hp.valid
    by_contra hready
    rw [(h.fences.uc (by simpa using hready)).2.1] at hv
    contradiction
  · by_contra hin
    have hn := (h.owned.granted (h.owned.enter (by simpa using hin))).nops
    rw [(Decision.of_sendsUc hsend).2.2.2] at hn
    contradiction

/-- With the uncacheable handler busy, stage 1 is empty and stays so. -/
theorem Inv.closed_of_ucBusy (h : s.Inv) (hu : s.uc.ready = false) :
    s.st1.reqValidQ = false ∧ (s.step i).st1.reqValidQ = false := by
  obtain ⟨S, front, ht⟩ := h.tabled
  obtain ⟨hempty, hst1, -⟩ := h.fences.uc hu
  refine ⟨hst1, ?_⟩
  by_contra hin
  rcases (h.owned.reqQ_step (by simpa using hin)).2 with ⟨hg, -⟩ | ⟨-, hp⟩
  · have hnot : s.ucBusy = false := hg.not_uc
    simp [ucBusy, hu] at hnot
  · have hv := ht.valid_popTry hp
    simp only [Rtab.empty, Bool.not_eq_true', any_eq_false] at hempty
    rw [hempty] at hv
    contradiction

/-- In every state reached by a regular run, a request is handed to the uncacheable handler with the
write buffer, the MSHR, the refill path, the flush controller and stage 2 empty, and no entry of the
replay table but its own. No request enters stage 1 in that cycle, nor in any cycle in which the
handler is busy. -/
theorem isolation_run (s : Cache c) (is : List (CacheIn c))
    (hr : Along Cache.step Regular s.reset is) :
    let t := run Cache.step s.reset is
    (∀ i, t.Regular i → (t.ucIn i).reqValid = true →
      t.wbufEmpty = true ∧ t.mshrEmpty = true ∧ t.flushEmpty = true ∧ t.st2Busy = false ∧
        (∀ k, t.rtab.validQ k = true → t.popped = some k) ∧ t.uc.ready = true ∧
        (t.step i).st1.reqValidQ = false) ∧
    (t.uc.ready = false → t.st1.reqValidQ = false ∧ ∀ i, (t.step i).st1.reqValidQ = false) := by
  intro t
  have h : t.Inv := inv_run hr
  refine ⟨fun i hi hu => ?_, fun hu => ⟨(h.closed_of_ucBusy (i := CacheIn.idle c) hu).1,
    fun i => (h.closed_of_ucBusy hu).2⟩⟩
  obtain ⟨ha, hready, hin⟩ := h.alone_of_ucReq hi hu
  exact ⟨ha.wbuf, ha.mshr, ha.flush, ha.st2, ha.rtab, hready, hin⟩

end Cache

/-! ## The cache is disabled while a request is on hold -/

/-- The cache is disabled. -/
def CacheIn.disabled (i : CacheIn c) : CacheIn c := { i with cfgEnable := false }

/-- The memory answers the miss in the first entry of the MSHR. -/
def CacheIn.refill : CacheIn lowLatencyCfg :=
  { CacheIn.idle lowLatencyCfg with
    missResp := some ⟨false, ⟨0, by decide⟩, ⟨0, by decide⟩, false, Nline.zero _, fun _ => 0⟩ }

/-- The request `q` misses and a load waits for its line. Then the cache is disabled, and a second
load waits for the pending transactions. The line is refilled and the first load is replayed, as an
uncacheable one. -/
def disabledRun (q : Req lowLatencyCfg) : List (CacheIn lowLatencyCfg) :=
  [.idle _, .idle _, .ask q, .idle _, .idle _, .ask (.access .load 1 false), .idle _,
    (CacheIn.ask (.access .load 2 false)).disabled, (CacheIn.idle _).disabled,
    (CacheIn.idle _).disabled, CacheIn.refill.disabled, (CacheIn.idle _).disabled,
    (CacheIn.idle _).disabled, (CacheIn.idle _).disabled, (CacheIn.idle _).disabled]

/-- A store with the write-back policy. -/
def storeWb : Req lowLatencyCfg := { Req.access .store 1 false with pma := ⟨false, .wb⟩ }

/-- The cache after the replayed load was in stage 1. -/
def twoFences : Rtab lowLatencyCfg :=
  (run Cache.step (Cache.blank _).reset (disabledRun storeWb ++ [(CacheIn.idle _).disabled])).rtab

/-- The replayed load finds its line dirty: it is put back with the fence dependency, while the
second load has it. -/
theorem twoFences_not_unique :
    ¬ ∀ j k, (twoFences.depsQ j).pendTrans = true → (twoFences.depsQ k).pendTrans = true →
      j = k := by
  have h : (twoFences.depsQ entry0).pendTrans = true ∧
      (twoFences.depsQ entry1).pendTrans = true := by decide +kernel
  intro hone
  exact absurd (hone entry0 entry1 h.1 h.2) (by decide)

theorem capacity_run_sameLine :
    let t := run Cache.step (Cache.blank lowLatencyCfg).reset sameLine
    (∀ i, (t.rtabIn i).alloc = true ∨ (t.rtabIn i).allocAndLink = true →
      all t.rtab.validQ = false) ∧
    (∀ i₀ i, i₀.cfgRtabSingleEntry = true →
      ((t.step i₀).rtabIn i).alloc = true ∨ ((t.step i₀).rtabIn i).allocAndLink = true →
      (t.step i₀).rtab.empty = true ∧ ((t.step i₀).rtabIn i).allocAndLink = false) ∧
    ∀ j k, (t.rtab.depsQ j).pendTrans = true → (t.rtab.depsQ k).pendTrans = true → j = k :=
  Cache.capacity_run _ _ regular_sameLine

/-- The replayed load, in stage 1. -/
def replayedDisabled : Cache lowLatencyCfg :=
  run Cache.step (Cache.blank _).reset (disabledRun (.access .load 1 false))

/-- The replayed load is handed to the uncacheable handler while the second one is on hold. -/
theorem replayedDisabled_not_alone :
    (replayedDisabled.ucIn (CacheIn.idle _).disabled).reqValid = true ∧
      ¬ ∀ k, replayedDisabled.rtab.validQ k = true → replayedDisabled.popped = some k := by
  have hreq : (replayedDisabled.ucIn (CacheIn.idle _).disabled).reqValid = true := by
    decide +kernel
  have hv : replayedDisabled.rtab.validQ entry0 = true ∧
      replayedDisabled.rtab.validQ entry1 = true := by decide +kernel
  refine ⟨hreq, fun h => ?_⟩
  have h01 := (h _ hv.1).symm.trans (h _ hv.2)
  exact absurd (Option.some.inj h01) (by decide)

/-- A load misses and an uncacheable load of its line waits in the replay table. -/
def missThenUc : List (CacheIn lowLatencyCfg) :=
  [.idle _, .idle _, .ask (.access .load 1 false), .idle _, .idle _, .ask (.access .load 1 true),
    .idle _, .idle _]

/-- The line is refilled, and the uncacheable load is replayed: it is in stage 1. -/
def replayedUc : List (CacheIn lowLatencyCfg) :=
  missThenUc ++ [.refill, .idle _, .idle _, .idle _, .idle _, .idle _]

theorem regular_replayedUc :
    Along Cache.step Cache.Regular (Cache.blank lowLatencyCfg).reset replayedUc :=
  Along.mono (P := fun s i => (i.flushAck.isNone && !s.leaks i && !s.lateLookup i &&
    !s.disabledReplay i) = true) (by decide +kernel) fun _ _ => Cache.regular_of_quiet

theorem isolation_run_replayedUc :
    let held := run Cache.step (Cache.blank lowLatencyCfg).reset missThenUc
    let t := run Cache.step (Cache.blank lowLatencyCfg).reset replayedUc
    (held.rtab.validQ entry0 = true ∧ held.mshrEmpty = false) ∧
    (t.ucIn (CacheIn.idle _)).reqValid = true ∧
    (∀ i, t.Regular i → (t.ucIn i).reqValid = true →
      t.wbufEmpty = true ∧ t.mshrEmpty = true ∧ t.flushEmpty = true ∧ t.st2Busy = false ∧
        (∀ k, t.rtab.validQ k = true → t.popped = some k) ∧ t.uc.ready = true ∧
        (t.step i).st1.reqValidQ = false) ∧
    (t.uc.ready = false → t.st1.reqValidQ = false ∧ ∀ i, (t.step i).st1.reqValidQ = false) :=
  ⟨by decide +kernel, by decide +kernel, Cache.isolation_run _ _ regular_replayedUc⟩

end Hpdcache
