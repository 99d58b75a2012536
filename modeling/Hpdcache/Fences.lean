import Hpdcache.Drained

/-!
# Requests executed in program order

A request that is uncacheable or atomic waits, in the replay table, for everything in flight, and
nothing else enters until it is executed.

**The state** (`Fences`). At most one such request is on hold. It waits for the pending
transactions, or there is none left and it is the only request of the cache.

* `Fences.alone` — such a request is executed alone.
* `Fences.step` — a cycle keeps the state, unless a request recorded as cacheable is replayed with
the cache disabled.
-/

namespace Hpdcache

open Hw

variable {c : Cfg} {op : ReqOp}

/-! ## Dependencies after a cycle -/

namespace RtabDeps

@[simp] theorem setRst_empty (set rst : RtabDeps) : setRst {} set rst = set := by
  cases set
  simp [setRst]

end RtabDeps

namespace Rtab

variable {r : Rtab c} {i : RtabIn c} {k : Fin c.rtabEntries}

theorem depsQ_step_new (hk : r.allocBv i k = true ∨ rbackBv i k = true) (hq : r.depsQ k = {}) :
    (r.step i).depsQ k = i.allocDeps := by
  have hset : r.depsSet i k = i.allocDeps := by
    cases ha : r.allocBv i k with
    | true => cases hr : rbackBv i k <;> simp [depsSet, ha, hr]
    | false =>
      have hr : rbackBv i k = true := by simpa [ha] using hk
      simp [depsSet, ha, hr]
  have hstep : (r.step i).depsQ k = RtabDeps.setRst (r.depsQ k) (r.depsSet i k) (r.depsRst i k) :=
    rfl
  rw [hstep, hq, hset, RtabDeps.setRst_empty]

theorem depsQ_step_old (ha : r.allocBv i k = false) (hr : rbackBv i k = false) :
    (r.step i).depsQ k = RtabDeps.setRst (r.depsQ k) {} (r.depsRst i k) := by
  have hset : r.depsSet i k = {} := by simp [depsSet, ha, hr]
  have hstep : (r.step i).depsQ k = RtabDeps.setRst (r.depsQ k) (r.depsSet i k) (r.depsRst i k) :=
    rfl
  rw [hstep, hset]

/-- A request that waits for the pending transactions only goes on waiting, or waits for nothing. -/
theorem depsQ_step_pend (ha : r.allocBv i k = false) (hr : rbackBv i k = false)
    (hq : r.depsQ k = { pendTrans := true }) :
    (r.step i).depsQ k = if i.noPendTrans && r.fenceOnly then {} else { pendTrans := true } := by
  rw [depsQ_step_old ha hr, hq]
  cases hn : i.noPendTrans <;> cases hf : r.fenceOnly <;>
    simp [RtabDeps.setRst, depsRst, hn, hf]

theorem pend_of_step (ha : r.allocBv i k = false) (hr : rbackBv i k = false)
    (hp : ((r.step i).depsQ k).pendTrans = true) : (r.depsQ k).pendTrans = true := by
  rw [depsQ_step_old ha hr] at hp
  cases hq : (r.depsQ k).pendTrans with
  | true => rfl
  | false => simp [RtabDeps.setRst, hq] at hp

end Rtab

/-! ## Fences in stage 1 -/

theorem PeIn.Cacheable.not_fence {i : PeIn} (h : i.Cacheable) (ha : i.st1ReqIsAmo = false) :
    i.st1Fence = false := by
  have hcmo := h.not_cmo
  simp only [Bool.or_eq_false_iff] at hcmo
  simp [PeIn.st1Fence, ha, h.cacheable, hcmo.1.1, hcmo.1.2, hcmo.2]

/-- A fence is put on hold for the pending transactions only, if it finds no reserved way and a
flush controller that takes a line when there is none pending. -/
theorem Decision.Guard.deps_of_fence {i : PeIn} {d : Decision} (hd : i.St1Decodes op)
    (hg : d.Guard c i) (hh : d.holds = true) (hf : i.st1Fence = true)
    (hquiet : i.waitsPendTrans = false → i.st1DirHitFetch = false ∧ i.st1FlushAllocReady = true) :
    d.deps = {} := by
  have hno : ∀ hs : i.Sound c, i.st1ReqIsAmo = false → False := by
    intro hs ha
    rw [hs.not_fence ha] at hf
    contradiction
  have hstore : i.st1ReqIsStore = true → i.st1ReqIsAmo = false := by
    rw [hd.store, hd.amo]
    exact ReqOp.not_amo_of_store
  cases d with
  | hold d =>
    cases hg with
    | ucPendTrans hu => rfl
    | ucFlush hu hw _ _ hr =>
      rw [(hquiet hw).2] at hr
      contradiction
    | ucFetch hu hw _ hfe =>
      rw [(hquiet hw).1] at hfe
      contradiction
    | amoPendTrans hs => rfl
    | loadMiss hs _ ha => exact (hno hs ha).elim
    | loadFlush hs _ ha => exact (hno hs ha).elim
    | storeMshr hs hst => exact (hno hs (hstore hst)).elim
    | storeFlushHit hs hst => exact (hno hs (hstore hst)).elim
    | storeMissWb hs => exact (hno hs.toSound (hstore hs.store)).elim
    | storeMissWt hs => exact (hno hs.toSound (hstore hs.store)).elim
    | storeFetch hs => exact (hno hs.toSound (hstore hs.store)).elim
    | storeWbuf hs => exact (hno hs.toSound (hstore hs.store)).elim
    | storeFlushNotReady hs => exact (hno hs.toSound (hstore hs.store)).elim
    | storeHitWt hs => exact (hno hs.toSound (hstore hs.store)).elim
  | storeMissHold => exact (hno hg.1.toSound (hstore hg.1.store)).elim
  | storeFlush => exact (hno hg.1.toSound (hstore hg.1.store)).elim
  | eccHold => rfl
  | ucFlush => rfl
  | amoFlush => rfl
  | _ => contradiction

/-- A request handed to the uncacheable handler is a fence that waits for nothing. -/
theorem Decision.Guard.of_sendsUc {i : PeIn} {d : Decision} (hg : d.Guard c i)
    (h : d.sendsUc = true) :
    i.Proceeds ∧ (i.st1ReqIsCmoInval || i.st1ReqIsCmoFlush || i.st1ReqIsCmoFence) = false ∧
      i.st1Fence = true ∧ i.waitsPendTrans = false := by
  cases d with
  | ucSend => exact ⟨hg.1.toProceeds, hg.1.not_cmo, by simp [PeIn.st1Fence, hg.1.uncacheable], hg.2.1⟩
  | ucSendInval =>
    exact ⟨hg.1.toProceeds, hg.1.not_cmo, by simp [PeIn.st1Fence, hg.1.uncacheable], hg.2.1⟩
  | amoSend => exact ⟨hg.1.toProceeds, hg.1.not_cmo, by simp [PeIn.st1Fence, hg.2.1], hg.2.2.1⟩
  | amoSendHit => exact ⟨hg.1.toProceeds, hg.1.not_cmo, by simp [PeIn.st1Fence, hg.2.1], hg.2.2.1⟩
  | _ => contradiction

theorem Decision.of_sendsUc {d : Decision} (h : d.sendsUc = true) :
    d.holds = false ∧ d ≠ .link ∧ d ≠ .cmo ∧ d.nops = true := by
  cases d <;> simp [sendsUc, holds, nops] at h ⊢

namespace Cache

variable {s : Cache c} {i : CacheIn c} {S : Set (List (Fin c.rtabEntries))}
  {front : List (Fin c.rtabEntries)} {k : Fin c.rtabEntries}

/-- A request recorded as cacheable is replayed while the cache is disabled. -/
def disabledReplay (s : Cache c) (i : CacheIn c) : Bool :=
  s.st1.reqValidQ && s.st1.reqQ.fromRtab && !s.st1.reqQ.isError && !s.st1.reqQ.isFence &&
    !i.cfgEnable

/-- A request treated as a fence in stage 1 is recorded as one. -/
theorem isFence_of_st1Fence (hdis : s.disabledReplay i = false) (hv : s.st1.reqValidQ = true)
    (he : s.st1.reqQ.isError = false) (hcmo : (s.st1Req i).req.op.isCmoWalk = false)
    (hf : (s.peIn i).st1Fence = true) : (s.st1Req i).isFence = true := by
  cases hr : s.st1.reqQ.fromRtab with
  | false => exact isFence_of_fence hr hcmo hf
  | true =>
    have hreq : s.st1Req i = s.st1.reqQ := by
      unfold st1Req
      rw [if_pos hr]
    by_contra hnot
    rw [hreq, Bool.not_eq_true] at hnot
    have hen : i.cfgEnable = true := by simpa [disabledReplay, hv, hr, he, hnot] using hdis
    simp only [CtrlReq.isFence, Bool.or_eq_false_iff] at hnot
    simp only [ReqOp.isCmoWalk, hreq, Bool.or_eq_false_iff] at hcmo
    simp [PeIn.st1Fence, peIn, st1ReqIsUncacheable, hreq, hen, hnot.1, hnot.2, hcmo.1.1, hcmo.1.2,
      hcmo.2] at hf

/-- The entry `k` is the only request of the cache, and nothing else is in flight. -/
structure Settled (s : Cache c) (k : Fin c.rtabEntries) : Prop where
  st1 : s.st1.reqValidQ = true → s.popped = some k
  st2 : s.st2Busy = false
  wbuf : s.wbufEmpty = true
  mshr : s.miss.mshr.empty = true
  flush : s.flushEmpty = true
  rtab : ∀ j, s.rtab.validQ j = true → j = k
  uc : s.uc.ready = true

/-- The fences on hold, and the handlers that execute them. -/
structure Fences (s : Cache c) : Prop where
  pend : ∀ k, (s.rtab.depsQ k).pendTrans = true →
    s.rtab.validQ k = true ∧ s.rtab.isFence k = true
  one : ∀ j k, s.rtab.validQ j = true → s.rtab.isFence j = true → s.rtab.validQ k = true →
    s.rtab.isFence k = true → j = k
  waits : ∀ k, s.rtab.validQ k = true → s.rtab.isFence k = true →
    s.rtab.depsQ k = { pendTrans := true } ∨ s.rtab.ready k = true ∨ s.popped = some k
  settled : ∀ k, s.rtab.validQ k = true → s.rtab.isFence k = true → s.rtab.depsQ k = {} →
    s.Settled k
  core : s.st1.reqValidQ = true → s.st1.reqQ.fromRtab = false →
    ∀ k, s.rtab.validQ k = true → s.rtab.isFence k = false
  uc : s.uc.ready = false →
    s.rtab.empty = true ∧ s.st1.reqValidQ = false ∧ s.cmo.fsmQ = .idle
  cmo : s.cmo.fsmQ ≠ .idle → ∀ k, s.rtab.validQ k = true → s.rtab.isFence k = false
  error : ∀ k, s.rtab.errorQ k = true → s.rtab.validQ k = true ∧ s.rtab.isFence k = false
  replay : ∀ k, s.popped = some k → s.rtab.isFence k = true → s.st1.reqQ.isError = false

theorem fences_reset (s : Cache c) : s.reset.Fences where
  pend := nofun
  one := nofun
  waits := nofun
  settled := nofun
  core := nofun
  uc := nofun
  cmo h := absurd rfl h
  error := nofun
  replay k hk := by
    have hp : s.reset.popped = none := popped_eq_none.2 (.inl rfl)
    rw [hp] at hk
    contradiction

/-! ## A fence is executed alone -/

theorem Tabled.deps_popped (ht : s.Tabled S front) (hk : s.popped = some k) :
    s.rtab.depsQ k = {} := by
  have hwf := ht.wf
  rw [hk] at hwf
  exact hwf.deps k hwf.head_popped

theorem Tabled.isFence_popped (ht : s.Tabled S front) (hk : s.popped = some k) :
    s.rtab.isFence k = (s.st1Req i).isFence := by
  rw [Tabled.st1Req_eq hk, ht.replay k hk]
  rfl

theorem Owned.mshrEmpty_of_valid (h : s.Owned) (hv : s.st1.reqValidQ = true)
    (he : s.miss.mshr.empty = true) : s.mshrEmpty = true := by
  simp [mshrEmpty, MissHandler.empty, he, (normal_iff.1 (h.st1_normal hv)).2.1]

theorem alone_of_noPendTrans (hn : s.st1NoPendTrans = true) : s.Alone := by
  simp only [st1NoPendTrans, Bool.and_eq_true, Bool.not_eq_true', Bool.or_eq_false_iff] at hn
  obtain ⟨⟨⟨⟨⟨⟨h1, h2⟩, h3⟩, hr⟩, hw⟩, hm⟩, hf⟩ := hn
  refine ⟨by simp [st2Busy, h1, h2, h3], hw, hm, hf, fun k hk => ?_⟩
  simp only [Rtab.empty, Bool.not_eq_true', any_eq_false] at hr
  rw [hr k] at hk
  contradiction

/-- A fence that does not wait is the only request of the cache. -/
theorem Fences.alone (h : s.Owned) (ht : s.Tabled S front) (hfe : s.Fences)
    (hdis : s.disabledReplay i = false) (hv : s.st1.reqValidQ = true)
    (he : s.st1.reqQ.isError = false) (hcmo : (s.st1Req i).req.op.isCmoWalk = false)
    (hf : (s.peIn i).st1Fence = true) (hw : (s.peIn i).waitsPendTrans = false) : s.Alone := by
  cases hr : s.st1.reqQ.fromRtab with
  | false =>
    refine alone_of_noPendTrans ?_
    have hw' : (!s.st1NoPendTrans && !(s.peIn i).st1ReqRtab) = false := hw
    rw [peIn_rtab, hr] at hw'
    simpa using hw'
  | true =>
    have hk : s.popped = some s.st1.rtabPopTryPtrQ := popped_eq_some.2 ⟨hv, hr, rfl⟩
    have hfence := isFence_of_st1Fence hdis hv he hcmo hf
    rw [← ht.isFence_popped hk] at hfence
    have hs := hfe.settled _ (ht.valid_popped hk) hfence (ht.deps_popped hk)
    exact ⟨hs.st2, hs.wbuf, h.mshrEmpty_of_valid hv hs.mshr, hs.flush,
      fun j hj => by rw [hs.rtab j hj]; exact hk⟩

theorem Alone.no_miss (h : s.Alone) : s.st2.mshrAllocQ = false := by
  have hst2 := h.st2
  simp only [st2Busy, Bool.or_eq_false_iff] at hst2
  exact hst2.1.1

/-- A fence finds no reserved way, and a flush controller that takes a line. -/
theorem Fences.ready (h : s.Owned) (ht : s.Tabled S front) (hfe : s.Fences) (hl : s.Looked)
    (hfetch : s.Fetching) (hdr : s.flush.Drains) (hdis : s.disabledReplay i = false)
    (hv : s.st1.reqValidQ = true) (he : s.st1.reqQ.isError = false)
    (hcmo : (s.st1Req i).req.op.isCmoWalk = false) (hf : (s.peIn i).st1Fence = true)
    (hw : (s.peIn i).waitsPendTrans = false) :
    (s.peIn i).st1DirHitFetch = false ∧ (s.peIn i).st1FlushAllocReady = true := by
  have ha := hfe.alone h ht hdis hv he hcmo hf hw
  rw [st1Req_op] at hcmo
  exact ⟨hfetch.not_hit hl (normal_iff.1 (h.st1_normal hv)).1 hv he hcmo ha.mshr ha.no_miss,
    flushAllocReady_of_empty hdr ha.flush⟩

theorem isError_eq (hp : (s.peIn i).Proceeds) : s.st1.reqQ.isError = false := by
  rw [← st1Req_isError (i := i)]
  exact hp.not_error

/-- An AMO hits no reserved way. -/
theorem Fences.amo_not_fetch (h : s.Owned) (ht : s.Tabled S front) (hfe : s.Fences) (hl : s.Looked)
    (hfetch : s.Fetching) (hdr : s.flush.Drains) (hdis : s.disabledReplay i = false)
    (hd : s.dec i = .amoFlush ∨ s.dec i = .amoSendHit) :
    (s.peIn i).st1DirHitFetch = false := by
  have hg := dec_guard (s := s) (i := i)
  have hamo : (s.peIn i).Sound c ∧ (s.peIn i).st1ReqIsAmo = true ∧
      (s.peIn i).waitsPendTrans = false := by
    rcases hd with hd | hd <;> rw [hd] at hg <;> exact ⟨hg.1, hg.2.1, hg.2.2.1⟩
  obtain ⟨hs, ha, hw⟩ := hamo
  exact (hfe.ready h ht hl hfetch hdr hdis hs.valid (isError_eq hs.toProceeds) hs.not_cmo
    (by simp [PeIn.st1Fence, ha]) hw).1

/-! ## Entries after a cycle -/

/-- Where an entry that is valid after a cycle comes from: the request of stage 1 was put in it, or
it was kept, and is not the one of stage 1. -/
inductive EntryStep (s : Cache c) (i : CacheIn c) (k : Fin c.rtabEntries) : Prop
  | held : (s.dec i).holds = true →
      s.rtab.freeAlloc k = true ∧ s.st1.reqQ.fromRtab = false ∨ s.popped = some k →
      (s.step i).rtab.isFence k = (s.st1Req i).isFence →
      (s.step i).rtab.depsQ k = (s.rtabIn i).allocDeps → EntryStep s i k
  | linked : s.dec i = .link → (s.step i).rtab.isFence k = false →
      (s.step i).rtab.depsQ k = {} → EntryStep s i k
  | kept : s.rtab.allocBv (s.rtabIn i) k = false → Rtab.rbackBv (s.rtabIn i) k = false →
      s.rtab.validQ k = true → s.popped ≠ some k →
      (s.step i).rtab.isFence k = s.rtab.isFence k → EntryStep s i k

theorem Tabled.entry_step (h : s.Owned) (ht : s.Tabled S front)
    (hd : s.rtab.Drives s.popped (s.rtabIn i)) (hk : (s.step i).rtab.validQ k = true) :
    EntryStep s i k := by
  have hfree : s.rtab.validQ k = false → s.rtab.depsQ k = {} := fun hv =>
    ht.wf.deps k (ht.wf.chains.head_eq_false hv)
  have hstep : (s.step i).rtab = s.rtab.step (s.rtabIn i) := rfl
  have hvalid : (s.step i).rtab.validQ k =
    setRst (s.rtab.validQ k) (s.rtab.allocBv (s.rtabIn i) k) (Rtab.commitBv (s.rtabIn i) k) := rfl
  cases ha : s.rtab.allocBv (s.rtabIn i) k with
  | true =>
    have ha' := ha
    simp only [Rtab.allocBv, Bool.and_eq_true, Bool.or_eq_true] at ha'
    have hreq : (s.step i).rtab.reqQ k = (s.rtabIn i).allocReq := by
      simp [hstep, Rtab.step, ha]
    have hfence : (s.step i).rtab.isFence k = (s.st1Req i).isFence := by
      rw [Rtab.isFence, hreq]
      rfl
    have hdeps : (s.step i).rtab.depsQ k = (s.rtabIn i).allocDeps := by
      rw [hstep]
      exact Rtab.depsQ_step_new (.inl ha) (hfree (Rtab.freeAlloc_valid ha'.1))
    rcases ha'.2 with hal | hl
    · obtain ⟨hh, hr⟩ := h.alloc_iff.1 hal
      exact .held hh (.inl ⟨ha'.1, hr⟩) hfence hdeps
    · refine .linked (h.link_iff.1 hl) ?_ ?_
      · rw [hfence]
        exact (hd.link_fence hl).1
      · rw [hdeps, hd.link_deps hl]
  | false =>
    have hv : s.rtab.validQ k = true := by
      rw [hvalid, ha] at hk
      cases hv : s.rtab.validQ k with
      | true => rfl
      | false =>
        rw [hv, setRst_false_left] at hk
        exact hk
    cases hr : Rtab.rbackBv (s.rtabIn i) k with
    | true =>
      have hr' := hr
      simp only [Rtab.rbackBv, Bool.and_eq_true, decide_eq_true_eq] at hr'
      obtain ⟨hrb, hptr⟩ := hr'
      have hpop : s.popped = some k := by rw [hptr]; exact (hd.rback hrb).1
      have hreq : (s.step i).rtab.reqQ k = (s.rtabIn i).allocReq := by
        simp [hstep, Rtab.step, hr]
      refine .held (h.rback_iff.1 hrb).1 (.inr hpop) ?_ ?_
      · rw [Rtab.isFence, hreq]
        rfl
      · rw [hstep]
        exact Rtab.depsQ_step_new (.inr hr) (ht.deps_popped hpop)
    | false =>
      refine .kept ha hr hv (fun hpop => ?_) ?_
      · -- the entry of stage 1 is put back or freed
        have hleaves := hd.leaves k hpop
        cases hc : (s.rtabIn i).popCommit with
        | true =>
          have hptr := Option.some.inj ((hd.commit hc).symm.trans hpop)
          rw [hvalid, ha, hv] at hk
          simp [Rtab.commitBv, hc, hptr] at hk
        | false =>
          have hrb : (s.rtabIn i).popRback = true := by simpa [hc] using hleaves
          have hptr := Option.some.inj ((hd.rback hrb).1.symm.trans hpop)
          simp [Rtab.rbackBv, hrb, hptr] at hr
      · rw [hstep]
        exact (hd.req_step hv).2

/-- Without a request put on hold, the valid entries were valid and not in stage 1. -/
theorem Tabled.kept_of_nops (h : s.Owned) (ht : s.Tabled S front)
    (hd : s.rtab.Drives s.popped (s.rtabIn i)) (hh : (s.dec i).holds = false)
    (hl : s.dec i ≠ .link) (hk : (s.step i).rtab.validQ k = true) :
    s.rtab.validQ k = true ∧ s.popped ≠ some k ∧
      (s.step i).rtab.isFence k = s.rtab.isFence k := by
  cases ht.entry_step h hd hk with
  | held hh' => rw [hh] at hh'; contradiction
  | linked hl' => exact absurd hl' hl
  | kept _ _ hv hp hf => exact ⟨hv, hp, hf⟩

theorem Tabled.valid_of_deps (ht : s.Tabled S front) (hne : s.rtab.depsQ k ≠ {}) :
    s.rtab.headQ k = true ∧ s.rtab.validQ k = true := by
  have hhead : s.rtab.headQ k = true := by
    by_contra hh
    exact hne (ht.wf.deps k (by simpa using hh))
  exact ⟨hhead, ht.wf.chains.valid_of_head hhead⟩

/-! ## One cycle -/

/-- A request put on hold is recorded as a fence if it is treated as one. -/
theorem fence_of_holds (hdis : s.disabledReplay i = false) (hh : (s.dec i).holds = true) :
    (s.st1Req i).isFence = (s.peIn i).st1Fence := by
  obtain ⟨hp, hcmo⟩ := (dec_guard (s := s) (i := i)).of_holds hh
  rw [Bool.eq_iff_iff]
  exact ⟨fence_of_isFence, isFence_of_st1Fence hdis hp.valid (isError_eq hp) hcmo⟩

/-- A fence is put on hold for the pending transactions only. -/
theorem Fences.deps_of_holds (h : s.Owned) (ht : s.Tabled S front) (hfe : s.Fences)
    (hl : s.Looked) (hfetch : s.Fetching) (hdr : s.flush.Drains)
    (hdis : s.disabledReplay i = false) (hh : (s.dec i).holds = true)
    (hf : (s.st1Req i).isFence = true) : (s.rtabIn i).allocDeps = { pendTrans := true } := by
  obtain ⟨hp, hcmo⟩ := (dec_guard (s := s) (i := i)).of_holds hh
  rw [fence_of_holds hdis hh] at hf
  have hd := (dec_guard (s := s) (i := i)).deps_of_fence (peIn_decodes (h.scrub hp.valid)) hh hf
    fun hw => hfe.ready h ht hl hfetch hdr hdis hp.valid (isError_eq hp) hcmo hf hw
  rw [h.deps_eq, hd, hf]

theorem uc_ready_step (hpe : PeAgrees (s.peIn i) (s.dec i) (s.pe i)) (hr : s.uc.ready = true)
    (hd : (s.dec i).sendsUc = false) : (s.step i).uc.ready = true := by
  have hreq : (s.ucIn i).reqValid = false := by
    have hreq : (s.ucIn i).reqValid = (s.dec i).sendsUc := hpe.ucReq
    rw [hreq, hd]
  simp only [Uncached.ready, decide_eq_true_eq] at hr
  have hstep : (s.step i).uc.fsmQ = s.uc.fsmD (s.ucIn i) := rfl
  simp [Uncached.ready, hstep, Uncached.fsmD, hr, Uncached.idleD, hreq]

theorem Owned.uc_ready_step (h : s.Owned) (hr : s.uc.ready = true)
    (hd : (s.dec i).sendsUc = false) : (s.step i).uc.ready = true :=
  Cache.uc_ready_step h.pe_agrees hr hd

/-- With nothing in stage 1, the only request of the cache stays so. -/
theorem Settled.step (h : s.Owned) (hs : s.Settled k) (hv : s.st1.reqValidQ = false)
    (hcmo : s.cmo.fsmQ = .idle)
    (hst1 : (s.step i).st1.reqValidQ = true → (s.step i).popped = some k) :
    (s.step i).Settled k := by
  have hd : s.dec i = .idle := idle_of_not_valid hv
  have hst2 := hs.st2
  simp only [st2Busy, Bool.or_eq_false_iff] at hst2
  refine
    { st1 := hst1
      st2 := ?_
      wbuf := h.wbufEmpty_step (by rw [hd]; rfl) hs.wbuf
      mshr := mshr_empty_step hst2.1.1 hs.mshr
      flush := h.flushEmpty_step hst2.1.2 (by rw [hcmo]; rfl) hs.flush
      rtab := fun j hj => hs.rtab j (h.of_valid_step (by rw [hd]; rfl) hj)
      uc := h.uc_ready_step hs.uc (by rw [hd]; rfl) }
  by_contra hb
  rw [(h.of_st2Busy_step (by simpa using hb)).1] at hv
  contradiction

/-- A fence that stops waiting for the pending transactions is the only request of the cache. -/
theorem Fences.settled_of_pend (hfe : s.Fences) (hv : s.rtab.validQ k = true) (hf : s.rtab.isFence k = true)
    (hc : (s.noPendTrans && s.rtab.fenceOnly) = true) : s.Settled k ∧ s.st1.reqValidQ = false := by
  simp only [noPendTrans, ctrlEmpty, Bool.and_eq_true, Bool.not_eq_true', Bool.or_eq_false_iff,
    Rtab.fenceOnly, decide_eq_true_eq] at hc
  obtain ⟨⟨⟨⟨⟨hst1, ⟨hm, hu⟩, hfl⟩, hw⟩, hmshr⟩, hflush⟩, honly⟩ := hc
  simp only [mshrEmpty, MissHandler.empty, Bool.and_eq_true] at hmshr
  refine ⟨⟨?_, by simp [st2Busy, hm, hu, hfl], hw, hmshr.1, hflush, fun j hj => ?_, ?_⟩, hst1⟩
  · rw [hst1]
    intro hv1
    contradiction
  · have hpend : (s.rtab.depsQ j).pendTrans = true := (honly j).symm.trans hj
    exact hfe.one j k hj (hfe.pend j hpend).2 hv hf
  · by_contra hr
    have hempty := (hfe.uc (by simpa using hr)).1
    simp only [Rtab.empty, Bool.not_eq_true', any_eq_false] at hempty
    rw [hempty] at hv
    contradiction

/-- With the fence `k` on hold, and nothing in stage 1, the next request of stage 1 is `k`. -/
theorem Settled.enter (h : s.Owned) (ht : s.Tabled S front) (hs : s.Settled k)
    (hcore : s.rtab.fence = true ∨ s.rtab.popTryValid = true)
    (hin : (s.step i).st1.reqValidQ = true) : (s.step i).popped = some k := by
  rcases (h.reqQ_step hin).2 with ⟨hg, hp⟩ | ⟨hg, hp⟩
  · rcases hcore with hfence | hp'
    · have hnot : s.rtab.fence = false := hg.not_fence
      rw [hnot] at hfence
      contradiction
    · rw [hp] at hp'
      contradiction
  · rw [h.popped_step, Rtab.popped, if_pos (Owned.popTry_iff.2 hg)]
    rw [hs.rtab _ (ht.valid_popTry hp)]

section
variable (h : s.Owned) (ht : s.Tabled S front) (hd : s.rtab.Drives s.popped (s.rtabIn i))
  (hfe : s.Fences)
include h ht hd hfe

theorem Fences.pend_step (hdis : s.disabledReplay i = false) (hp : ((s.step i).rtab.depsQ k).pendTrans = true)
    (hk : (s.step i).rtab.validQ k = true) : (s.step i).rtab.isFence k = true := by
  cases ht.entry_step h hd hk with
  | held hh _ hf hdeps =>
    rw [hdeps, h.deps_eq] at hp
    rw [hf, fence_of_holds hdis hh]
    exact hp
  | linked _ _ hdeps =>
    rw [hdeps] at hp
    contradiction
  | kept ha hr _ _ hf =>
    rw [hf]
    exact (hfe.pend k (Rtab.pend_of_step ha hr hp)).2

theorem Fences.one_step {j : Fin c.rtabEntries} (hj : (s.step i).rtab.validQ j = true)
    (hfj : (s.step i).rtab.isFence j = true) (hk : (s.step i).rtab.validQ k = true)
    (hfk : (s.step i).rtab.isFence k = true) : j = k := by
  -- a fence that takes an entry finds none, and one that is put back is the one that was there
  have hnew : ∀ a b, (s.dec i).holds = true →
      s.rtab.freeAlloc a = true ∧ s.st1.reqQ.fromRtab = false ∨ s.popped = some a →
      (s.step i).rtab.isFence a = (s.st1Req i).isFence → (s.step i).rtab.isFence a = true →
      s.rtab.validQ b = true → s.rtab.isFence b = true → a = b := by
    intro a b hh hfrom hfa hta hb hfb
    rcases hfrom with ⟨-, hr⟩ | hp
    · rw [hfe.core (valid_of_holds hh) hr b hb] at hfb
      contradiction
    · refine hfe.one a b (ht.valid_popped hp) ?_ hb hfb
      rw [ht.isFence_popped hp, ← hfa, hta]
  cases ht.entry_step h hd hj with
  | linked _ hf =>
    rw [hf] at hfj
    contradiction
  | held hhj hfromj hstj =>
    cases ht.entry_step h hd hk with
    | linked _ hf =>
      rw [hf] at hfk
      contradiction
    | held hhk hfromk hstk =>
      rcases hfromj with ⟨hfreej, hrj⟩ | hpj <;> rcases hfromk with ⟨hfreek, hrk⟩ | hpk
      · exact oneHot_prio _ j k hfreej hfreek
      · rw [(popped_eq_some.1 hpk).2.1] at hrj
        contradiction
      · rw [(popped_eq_some.1 hpj).2.1] at hrk
        contradiction
      · exact Option.some.inj (hpj.symm.trans hpk)
    | kept _ _ hv _ hf => exact hnew j k hhj hfromj hstj hfj hv (hf ▸ hfk)
  | kept _ _ hvj _ hstj =>
    cases ht.entry_step h hd hk with
    | linked _ hf =>
      rw [hf] at hfk
      contradiction
    | held hhk hfromk hstk => exact (hnew k j hhk hfromk hstk hfk hvj (hstj ▸ hfj)).symm
    | kept _ _ hvk _ hstk => exact hfe.one j k hvj (hstj ▸ hfj) hvk (hstk ▸ hfk)

/-- A fence that was kept waits, has just stopped waiting, or is ready or popped. -/
theorem Fences.kept_step (ha : s.rtab.allocBv (s.rtabIn i) k = false)
    (hr : Rtab.rbackBv (s.rtabIn i) k = false) (hv : s.rtab.validQ k = true)
    (hp : s.popped ≠ some k) (hf : s.rtab.isFence k = true) :
    s.rtab.depsQ k = { pendTrans := true } ∧ (s.step i).rtab.depsQ k =
        (if s.noPendTrans && s.rtab.fenceOnly then {} else { pendTrans := true }) ∧
      ((s.noPendTrans && s.rtab.fenceOnly) = true → (s.step i).rtab.ready k = true) ∨
    s.rtab.ready k = true ∧
      ((s.step i).rtab.ready k = true ∨ (s.step i).popped = some k) := by
  rcases hfe.waits k hv hf with hdep | hready | hp'
  · left
    have hstep : (s.step i).rtab.depsQ k =
        if s.noPendTrans && s.rtab.fenceOnly then {} else { pendTrans := true } :=
      Rtab.depsQ_step_pend ha hr hdep
    refine ⟨hdep, hstep, fun hc => ?_⟩
    rw [if_pos hc] at hstep
    have hhead := (ht.valid_of_deps (k := k) (by rw [hdep]; simp)).1
    have hnot : (s.rtab.popSel k && (s.rtabIn i).popTry) = false := by
      by_contra hpop
      simp only [Bool.not_eq_false, Bool.and_eq_true] at hpop
      have hrdy := (ht.wf.popped_head hd hpop.2 hhead hpop.1).2
      simp [Rtab.ready, hdep, RtabDeps.any] at hrdy
    have hhead' : (s.step i).rtab.headQ k = true := by
      have hq := ht.wf.headQ_step (i := s.rtabIn i) hhead
      rw [hnot] at hq
      exact hq
    have hvalid' : (s.step i).rtab.validQ k = true := by
      have hcommit := (ht.wf.not_leaves hd hhead).1
      simp [Cache.step, Rtab.step, hv, hcommit]
    simp [Rtab.ready, hvalid', hhead', hstep, RtabDeps.any]
  · refine .inr ⟨hready, ?_⟩
    refine (ht.wf.ready_step hd hready).imp id fun hpop => ?_
    rw [h.popped_step, Rtab.popped, if_pos hpop.2]
    have hsel := hpop.1
    rw [ht.wf.popSel_eq (hd.tries hpop.2), ofIndex_eq_true] at hsel
    rw [hsel]
  · exact absurd hp' hp

theorem Fences.waits_step
    (hnew : (s.dec i).holds = true → (s.st1Req i).isFence = true →
      (s.rtabIn i).allocDeps = { pendTrans := true })
    (hk : (s.step i).rtab.validQ k = true) (hf : (s.step i).rtab.isFence k = true) :
    (s.step i).rtab.depsQ k = { pendTrans := true } ∨ (s.step i).rtab.ready k = true ∨
      (s.step i).popped = some k := by
  cases ht.entry_step h hd hk with
  | held hh _ hst hdeps => exact .inl (hdeps.trans (hnew hh (hst ▸ hf)))
  | linked _ hst =>
    rw [hst] at hf
    contradiction
  | kept ha hr hv hp hst =>
    rcases hfe.kept_step h ht hd ha hr hv hp (hst ▸ hf) with ⟨-, hdeps, hready⟩ | ⟨-, hready⟩
    · by_cases hc : (s.noPendTrans && s.rtab.fenceOnly) = true
      · exact .inr (.inl (hready hc))
      · rw [if_neg hc] at hdeps
        exact .inl hdeps
    · exact .inr hready

theorem Fences.settled_step
    (hnew : (s.dec i).holds = true → (s.st1Req i).isFence = true →
      (s.rtabIn i).allocDeps = { pendTrans := true })
    (hk : (s.step i).rtab.validQ k = true) (hf : (s.step i).rtab.isFence k = true)
    (hdeps : (s.step i).rtab.depsQ k = {}) : (s.step i).Settled k := by
  cases ht.entry_step h hd hk with
  | held hh _ hst hdeps' =>
    rw [hdeps', hnew hh (hst ▸ hf)] at hdeps
    simp at hdeps
  | linked _ hst =>
    rw [hst] at hf
    contradiction
  | kept ha hr hv hp hst =>
    have hfence : s.rtab.isFence k = true := hst ▸ hf
    have hcmo : s.cmo.fsmQ = .idle := by
      by_contra hne
      rw [hfe.cmo hne k hv] at hfence
      contradiction
    rcases hfe.kept_step h ht hd ha hr hv hp hfence with ⟨hq, hdeps', -⟩ | ⟨hready, -⟩
    · have hc : (s.noPendTrans && s.rtab.fenceOnly) = true := by
        by_contra hc
        rw [hdeps, if_neg hc] at hdeps'
        simp at hdeps'
      obtain ⟨hs, hst1⟩ := hfe.settled_of_pend hv hfence hc
      refine hs.step h hst1 hcmo (hs.enter h ht (.inl ?_))
      exact any_eq_true.2 ⟨k, by rw [Rtab.fenceBv, hq]⟩
    · have hq : s.rtab.depsQ k = {} := by
        simp only [Rtab.ready, Bool.and_eq_true, Bool.not_eq_true'] at hready
        exact RtabDeps.any_eq_false_iff.1 hready.2
      have hs := hfe.settled k hv hfence hq
      have hst1 : s.st1.reqValidQ = false := by
        by_contra hin
        exact hp (hs.st1 (by simpa using hin))
      refine hs.step h hst1 hcmo (hs.enter h ht (.inr ?_))
      unfold Rtab.popTryValid
      cases s.rtab.popStateQ with
      | head => exact any_eq_true.2 ⟨k, hready⟩
      | next => rfl
      | nextWait => rfl

/-- A request of the core enters when no fence is on hold. -/
theorem Fences.core_step (hin : (s.step i).st1.reqValidQ = true)
    (hr : (s.step i).st1.reqQ.fromRtab = false) (hk : (s.step i).rtab.validQ k = true) :
    (s.step i).rtab.isFence k = false := by
  obtain ⟨-, hgrant⟩ := h.reqQ_step hin
  have hpop : s.rtab.popTryValid = false := by rw [← h.fromRtab_step hin, hr]
  have hg : (s.peIn i).GrantCore c := by
    rcases hgrant with hg | hg
    · exact hg.1
    · rw [hpop] at hg
      exact absurd hg.2 (by simp)
  have hn := (h.granted (.inl hg)).nops
  have hh : (s.dec i).holds = false := by
    by_contra hh
    rw [nops_of_holds (by simpa using hh)] at hn
    contradiction
  obtain ⟨hv, hp, hst⟩ := ht.kept_of_nops h hd hh (by rintro hl; rw [hl] at hn; contradiction) hk
  rw [hst]
  by_contra hf
  rcases hfe.waits k hv (by simpa using hf) with hdep | hready | hp'
  · have hfence : s.rtab.fence = true := any_eq_true.2 ⟨k, by rw [Rtab.fenceBv, hdep]⟩
    have hnot : s.rtab.fence = false := hg.not_fence
    rw [hnot] at hfence
    contradiction
  · have hstate : s.rtab.popStateQ = .head := by
      unfold Rtab.popTryValid at hpop
      cases hs : s.rtab.popStateQ <;> rw [hs] at hpop <;> first | rfl | contradiction
    simp only [Rtab.popTryValid, hstate, any_eq_false] at hpop
    rw [hpop] at hready
    contradiction
  · exact hp hp'

theorem Fences.uc_step (hdis : s.disabledReplay i = false)
    (huc : (s.step i).uc.ready = false) : (s.step i).rtab.empty = true ∧
      (s.step i).st1.reqValidQ = false ∧ (s.step i).cmo.fsmQ = .idle := by
  have hempty : ∀ r : Rtab c, (∀ k, r.validQ k = false) → r.empty = true := fun r hr => by
    simpa [Rtab.empty, any_eq_false] using hr
  cases hr : s.uc.ready with
  | false =>
    obtain ⟨hrtab, hst1, hcmo⟩ := hfe.uc hr
    have hidle : s.dec i = .idle := idle_of_not_valid hst1
    simp only [Rtab.empty, Bool.not_eq_true', any_eq_false] at hrtab
    refine ⟨hempty _ fun k => ?_, ?_, h.cmo_idle_step hcmo (by simp [hidle])⟩
    · by_contra hk
      have hv := h.of_valid_step (i := i) (k := k) (by rw [hidle]; rfl) (by simpa using hk)
      rw [hrtab] at hv
      contradiction
    · by_contra hin
      rcases (h.reqQ_step (by simpa using hin)).2 with ⟨hg, -⟩ | ⟨-, hp⟩
      · have hnot : s.ucBusy = false := hg.not_uc
        simp [ucBusy, hr] at hnot
      · have hv := ht.valid_popTry hp
        rw [hrtab] at hv
        contradiction
  | true =>
    -- the request in stage 1 has been sent
    have hsend : (s.dec i).sendsUc = true := by
      by_contra hnot
      rw [h.uc_ready_step hr (by simpa using hnot)] at huc
      contradiction
    obtain ⟨hp, hcmo, hf, hw⟩ := (dec_guard (s := s) (i := i)).of_sendsUc hsend
    have ha := hfe.alone h ht hdis hp.valid (isError_eq hp) hcmo hf hw
    have hholds := Decision.of_sendsUc hsend
    refine ⟨hempty _ fun k => ?_, ?_, h.cmo_idle_step ?_ hholds.2.2.1⟩
    · by_contra hk
      obtain ⟨hv, hpop, -⟩ := ht.kept_of_nops h hd hholds.1 hholds.2.1 (by simpa using hk)
      exact hpop (ha.rtab k hv)
    · by_contra hin
      have hn := (h.granted (h.enter (by simpa using hin))).nops
      rw [hholds.2.2.2] at hn
      contradiction
    · cases hrt : s.st1.reqQ.fromRtab with
      | false => exact (h.core hp.valid hrt).1
      | true =>
        have hpop : s.popped = some s.st1.rtabPopTryPtrQ := popped_eq_some.2 ⟨hp.valid, hrt, rfl⟩
        have hfence := isFence_of_st1Fence hdis hp.valid (isError_eq hp) hcmo hf
        rw [← ht.isFence_popped hpop] at hfence
        by_contra hne
        rw [hfe.cmo hne _ (ht.valid_popped hpop)] at hfence
        contradiction

theorem Fences.cmo_step (hne : (s.step i).cmo.fsmQ ≠ .idle)
    (hk : (s.step i).rtab.validQ k = true) : (s.step i).rtab.isFence k = false := by
  by_cases hidle : s.cmo.fsmQ = .idle
  · -- the request in stage 1 comes from the core: it is an operation of the handler
    have hdec : s.dec i = .cmo := by
      by_contra hdec
      exact hne (h.cmo_idle_step hidle hdec)
    have hg := dec_guard (s := s) (i := i)
    rw [hdec] at hg
    have hr : s.st1.reqQ.fromRtab = false := by
      cases hr : s.st1.reqQ.fromRtab with
      | false => rfl
      | true =>
        have hpop : s.popped = some s.st1.rtabPopTryPtrQ :=
          popped_eq_some.2 ⟨hg.1.valid, hr, rfl⟩
        have hcmo := (ht.stored _ (ht.valid_popped hpop)).cmo
        have hop : (s.st1Req i).req.op =
            (s.rtab.reqQ s.st1.rtabPopTryPtrQ).req.req.op := by
          rw [Tabled.st1Req_eq hpop, ht.replay _ hpop]
          rfl
        have hwalk : ((s.st1Req i).req.op.isCmoInval || (s.st1Req i).req.op.isCmoFlush ||
          (s.st1Req i).req.op.isCmoFence) = true := hg.2
        rw [hop, hcmo] at hwalk
        contradiction
    obtain ⟨hv, -, hst⟩ :=
      ht.kept_of_nops h hd (by rw [hdec]; rfl) (by simp [hdec]) hk
    rw [hst, hfe.core hg.1.valid hr k hv]
  · cases ht.entry_step h hd hk with
    | linked _ hst => exact hst
    | kept _ _ hv _ hst => rw [hst, hfe.cmo hidle k hv]
    | held hh hfrom hst =>
      rcases hfrom with ⟨-, hr⟩ | hp
      · exact absurd (h.core (valid_of_holds hh) hr).1 hidle
      · rw [hst, ← ht.isFence_popped hp, hfe.cmo hidle k (ht.valid_popped hp)]

omit h in
theorem Fences.error_step (hk : (s.step i).rtab.errorQ k = true) :
    (s.step i).rtab.validQ k = true ∧ (s.step i).rtab.isFence k = false := by
  have hstep : (s.step i).rtab.errorQ k = setRst (s.rtab.errorQ k)
    (s.rtab.errorSet (s.rtabIn i) k) (Rtab.commitBv (s.rtabIn i) k) := rfl
  have hstays : s.rtab.validQ k = true → s.rtab.isFence k = false →
      Rtab.commitBv (s.rtabIn i) k = false →
      (s.step i).rtab.validQ k = true ∧ (s.step i).rtab.isFence k = false := by
    intro hv hf hc
    have hreq : (s.step i).rtab.isFence k = s.rtab.isFence k := (hd.req_step hv).2
    exact ⟨by simp [Cache.step, Rtab.step, hv, hc], hreq.trans hf⟩
  rw [hstep] at hk
  cases hq : s.rtab.errorQ k with
  | true =>
    rw [hq, setRst_true_left] at hk
    obtain ⟨hv, hf⟩ := hfe.error k hq
    exact hstays hv hf (by simpa using hk)
  | false =>
    rw [hq, setRst_false_left] at hk
    simp only [Rtab.errorSet, Bool.and_eq_true] at hk
    obtain ⟨⟨⟨⟨hv, hw⟩, -⟩, -⟩, -⟩ := hk
    have hne : s.rtab.depsQ k ≠ {} := by
      rintro hq'
      rw [hq'] at hw
      contradiction
    refine hstays hv ?_ (ht.wf.not_leaves hd (ht.valid_of_deps hne).1).1
    by_contra hf
    rcases hfe.waits k hv (by simpa using hf) with hdep | hready | hp
    · rw [hdep] at hw
      contradiction
    · simp only [Rtab.ready, Bool.and_eq_true, Bool.not_eq_true'] at hready
      exact hne (RtabDeps.any_eq_false_iff.1 hready.2)
    · exact hne (ht.deps_popped hp)

theorem Fences.replay_step (hp : (s.step i).popped = some k)
    (hf : (s.step i).rtab.isFence k = true) : (s.step i).st1.reqQ.isError = false := by
  obtain ⟨hin, hr, -⟩ := popped_eq_some.1 hp
  have hpop : s.rtab.popTryValid = true := by rw [← h.fromRtab_step hin, hr]
  have hk : k = s.rtab.popTryPtr := by
    rw [h.popped_step, Rtab.popped] at hp
    split_ifs at hp
    exact (Option.some.inj hp).symm
  have hv := ht.valid_popTry hpop
  have hfence : s.rtab.isFence k = true := by
    have hreq : (s.step i).rtab.isFence k = s.rtab.isFence k := (hd.req_step (hk ▸ hv)).2
    rw [← hreq, hf]
  have herr : s.rtab.errorQ k = false := by
    by_contra herr
    rw [(hfe.error k (by simpa using herr)).2] at hfence
    contradiction
  rw [(h.reqQ_step hin).1, st0Req, if_pos hpop]
  have hsel := ht.wf.popSel_eq hpop
  simp only [Rtab.popTryReq, any_eq_false]
  intro j
  rw [hsel, ← hk]
  by_cases hj : j = k
  · rw [hj, herr, Bool.and_false]
  · rw [ofIndex_of_ne hj, Bool.false_and]

end

/-- A cycle keeps the state of the fences. -/
theorem Fences.step (h : s.Owned) (ht : s.Tabled S front)
    (hd : s.rtab.Drives s.popped (s.rtabIn i)) (hfe : s.Fences) (hl : s.Looked)
    (hfetch : s.Fetching) (hdr : s.flush.Drains) (hdis : s.disabledReplay i = false) :
    (s.step i).Fences where
  pend k hp := by
    obtain ⟨S', front', ht'⟩ := ht.step h hd
    have hv := (ht'.valid_of_deps (k := k) (by rintro hq; rw [hq] at hp; contradiction)).2
    exact ⟨hv, hfe.pend_step h ht hd hdis hp hv⟩
  one _ _ hj hfj hk hfk := hfe.one_step h ht hd hj hfj hk hfk
  waits _ := hfe.waits_step h ht hd fun hh => hfe.deps_of_holds h ht hl hfetch hdr hdis hh
  settled _ := hfe.settled_step h ht hd fun hh => hfe.deps_of_holds h ht hl hfetch hdr hdis hh
  core hin hr _ := hfe.core_step h ht hd hin hr
  uc := hfe.uc_step h ht hd hdis
  cmo hne _ := hfe.cmo_step h ht hd hne
  error _ := hfe.error_step ht hd
  replay _ := hfe.replay_step h ht hd

end Cache

end Hpdcache
