import Hpdcache.Lrsc

/-!
# Scrubbing

A read of the scrubber takes the RAMs in stage 0 like a request of the core. The register of stage
1 is loaded for the core and for the replay table only: one cycle later, when the decoders flag what
the scrubber has read, no request is there to start the recovery.

* `Cache.load_recovers` — a load that reads an error starts the recovery.
* `Cache.ScrubsLikeAccess` — what is read in error is recovered, and nothing else comes of the read.
* `Cache.scrubsLikeAccess_iff` — it is so when there is no error in what is read.
-/

namespace Hpdcache

open Hw

variable {c : Cfg}

namespace Cache

variable {s : Cache c} {i i' : CacheIn c}

/-- The decoders flag an error in what the RAMs have read. -/
def errRead (i : CacheIn c) : Bool :=
  any (eccFlag i.dirErrCor) || any (eccFlag i.dirErrUnc) || any (eccFlag i.datErrCor) ||
    any (eccFlag i.datErrUnc)

/-- The cycle starts the recovery of the set and of the word that the scrubber asks for. -/
structure Recovers (s : Cache c) (i' : CacheIn c) (r : Req c) : Prop where
  trigger : (s.errIn i').trigger = true
  set : (s.errIn i').set = r.addrSet
  word : (s.errIn i').word = r.addrOff / c.wordBytes

/-- The cycle answers nothing from the pipeline, hands no request over, and allocates nothing that
was not pending. -/
structure Silent (s : Cache c) (i' : CacheIn c) : Prop where
  rsp : (s.st1Rsp i').validQ = false
  mshr : (s.stepSt2 i').mshrAllocQ = true → s.st2.mshrAllocQ = true
  wbuf : (s.wbufIn i').write = false
  rtab : (s.rtabIn i').alloc = false ∧ (s.rtabIn i').allocAndLink = false
  uc : (s.ucIn i').reqValid = false
  cmo : (s.cmoIn i').reqValid = false

/-- The read that the scrubber is granted is followed, one cycle later, by the recovery of what is
flagged in it, and by nothing else. -/
structure ScrubsLikeAccess (s : Cache c) (i i' : CacheIn c) : Prop where
  recovers : errRead i' = true → (s.step i).Recovers i' s.scrub.req
  silent : (s.step i).Silent i'

/-- An access of the core that reads an error starts the recovery of its set and word. -/
theorem load_recovers (hn : s.normal = true) (hv : s.st1.reqValidQ = true)
    (hsc : s.st1.reqQ.errScrubbing = false) (hop : (s.st1Req i).req.op = .load)
    (ha : s.st1ReqAbort i = false) (he : (s.st1Req i).isError = false)
    (huc : s.st1ReqIsUncacheable i = false) (hl : s.rtab.checkHit (s.st1Nline i) = false)
    (herr : errRead i = true) : s.Recovers i (s.st1Req i).req := by
  have hflags : c.eccEn = true ∧ ((s.peIn i).st1DirErrCor || (s.peIn i).st1DirErrUnc ||
      (s.peIn i).st1DatErrCor || (s.peIn i).st1DatErrUnc) = true := by
    refine ⟨?_, herr⟩
    cases hecc : c.eccEn with
    | true => rfl
    | false =>
      have hno : ∀ v : Bits c.ways, any (eccFlag v) = false := by
        intro v
        rw [any_eq_false]
        intro w
        simp [eccFlag, hecc]
      simp [errRead, hno] at herr
  have hcmo : ((s.peIn i).st1ReqIsCmoInval || (s.peIn i).st1ReqIsCmoFlush ||
      (s.peIn i).st1ReqIsCmoFence) = false := by
    simp [peIn, hop, ReqOp.isCmoInval, ReqOp.isCmoFlush, ReqOp.isCmoFence]
  have hdec : s.dec i = decisionCacheable c (s.peIn i) := by
    unfold dec decision
    have h1 : (s.peIn i).st1ReqValid = true := hv
    have h2 : (s.peIn i).st1ReqAbort = false := ha
    have h3 : (s.peIn i).st1ReqIsError = false := he
    have h4 : (s.peIn i).rtabCheckHit = false := hl
    have h5 : (s.peIn i).st1ReqIsUncacheable = false := huc
    simp [h1, h2, h3, h4, h5, hcmo]
  have herrs : (s.dec i).errs = true := by
    rw [hdec]
    unfold decisionCacheable
    obtain ⟨hecc, hor⟩ := hflags
    by_cases h : (c.eccEn && ((s.peIn i).st1DirErrUnc || (s.peIn i).st1DatErrUncDirty)) = true
    · rw [if_pos h]
      split_ifs
      · rfl
      · rfl
    · rw [if_neg h, if_pos]
      · rfl
      · simp only [hecc, Bool.true_and, Bool.or_eq_true, not_or] at h hor ⊢
        tauto
  exact ⟨(Cache.pe_agrees hn hsc).err.trans herrs, rfl, rfl⟩

/-- Without a request in stage 1 the engine starts nothing. -/
theorem pe_of_not_valid (hv : s.st1.reqValidQ = false) :
    (s.pe i).st1Err = false ∧ (s.pe i).st1RspValid = false ∧
      ((s.pe i).st2MshrAlloc.alloc = true → s.st2.mshrAllocQ = true) ∧
      (s.pe i).wbufWriteValid = false ∧ (s.pe i).st1RtabAlloc = false ∧
      (s.pe i).st1RtabAllocAndLink = false ∧ (s.pe i).ucReqValid = false ∧
      (s.pe i).cmoReqValid = false := by
  have hv' : (s.peIn i).st1ReqValid = false := hv
  unfold pe
  cases hn : (s.peIn i).normal with
  | false =>
    obtain ⟨evt, he⟩ := hpdcacheCtrlPe_not_normal (c := c) hn
    rw [he]
    exact ⟨rfl, rfl, id, rfl, rfl, rfl, rfl, rfl⟩
  | true =>
    have hstage : stage1 c (s.peIn i) = st2Pending (s.peIn i) (PeOut.default (s.peIn i)) := by
      unfold stage1 st1Request
      rw [if_neg (by simp [hv'])]
    rw [hpdcacheCtrlPe_normal hn, hstage, st2Pending_default]
    refine ⟨rfl, rfl, ?_, rfl, rfl, rfl, rfl, rfl⟩
    intro h
    exact Bool.noConfusion h

theorem silent_of_not_valid (hv : s.st1.reqValidQ = false) : s.Silent i' := by
  obtain ⟨-, hrsp, hmshr, hwbuf, hrtab, hlink, huc, hcmo⟩ := pe_of_not_valid (i := i') hv
  exact ⟨hrsp, hmshr, hwbuf, ⟨hrtab, hlink⟩, huc, hcmo⟩

/-- The read of the scrubber does not enter stage 1. -/
theorem not_valid_of_scrub (h : (s.pe i).scrubReqReady = true) :
    (s.step i).st1.reqValidQ = false := by
  have hg := scrubReqReady_iff.1 h
  have hcore : (s.pe i).coreReqReady = false := by
    by_contra hc
    have hgc := coreReqReady_iff.1 (eq_true_of_ne_false hc)
    exact absurd (hg.valid.symm.trans hgc.not_scrub) (by decide)
  have hrtab : (s.pe i).rtabReqReady = false := by
    by_contra hr
    have hgr := rtabReqReady_iff.1 (eq_true_of_ne_false hr)
    exact absurd (hgr.valid.symm.trans hg.not_rtab) (by decide)
  have hv : (s.pe i).st1ReqValid = ((s.pe i).coreReqReady || (s.pe i).rtabReqReady) :=
    hpdcacheCtrlPe_st1ReqValid hg.normal
  show (s.pe i).st1ReqValid = false
  rw [hv, hcore, hrtab]
  rfl

/-- **Scrubbing.** In every state, the read that the scrubber is granted has no effect but its reads
of the RAMs: it recovers the errors of what it reads exactly when there is none. -/
theorem scrubsLikeAccess_iff (h : (s.pe i).scrubReqReady = true) :
    s.ScrubsLikeAccess i i' ↔ errRead i' = false := by
  have hv := not_valid_of_scrub h
  constructor
  · intro hs
    by_contra he
    have ht := (hs.recovers (by simpa using he)).trigger
    have hno : ((s.step i).errIn i').trigger = false := (pe_of_not_valid hv).1
    rw [hno] at ht
    contradiction
  · intro he
    refine ⟨?_, silent_of_not_valid hv⟩
    intro he'
    rw [he] at he'
    contradiction

/-! ## An error in the first line that is scrubbed -/

def scrubCfg : Cfg := { eccCfg with eccScrubberEn := true }

/-- The scrubber runs, and the directory is being initialised: it has two sets. -/
def scrubOn : List (CacheIn scrubCfg) :=
  let i := { CacheIn.idle scrubCfg with cfgScrubEnable := true }
  [i, i, i]

/-- The read of the scrubber is granted, and there is no error in the set. -/
theorem scrubsLikeAccess_clean :
    let s := run Cache.step (blank scrubCfg).reset scrubOn
    (s.pe (CacheIn.idle scrubCfg)).scrubReqReady = true ∧
      s.ScrubsLikeAccess (CacheIn.idle scrubCfg) (CacheIn.idle scrubCfg) := by
  have h : ((run Cache.step (blank scrubCfg).reset scrubOn).pe
      (CacheIn.idle scrubCfg)).scrubReqReady = true := by decide +kernel
  exact ⟨h, (scrubsLikeAccess_iff h).2 (by decide +kernel)⟩

/-- The directory entry of the first way has an uncorrectable error when the scrubber reads it: the
recovery is not started. -/
theorem dirError_not_recovered :
    let s := run Cache.step (blank scrubCfg).reset scrubOn
    (s.pe (CacheIn.idle scrubCfg)).scrubReqReady = true ∧
      errRead (CacheIn.dirError scrubCfg) = true ∧
      ((s.step (CacheIn.idle scrubCfg)).errIn (CacheIn.dirError scrubCfg)).trigger = false ∧
      ¬ s.ScrubsLikeAccess (CacheIn.idle scrubCfg) (CacheIn.dirError scrubCfg) := by
  have herr : errRead (CacheIn.dirError scrubCfg) = true := by decide +kernel
  have ht : (((run Cache.step (blank scrubCfg).reset scrubOn).step
      (CacheIn.idle scrubCfg)).errIn (CacheIn.dirError scrubCfg)).trigger = false := by
    decide +kernel
  refine ⟨by decide +kernel, herr, ht, ?_⟩
  intro hs
  exact absurd (ht.symm.trans (hs.recovers herr).trigger) (by decide)

end Cache

end Hpdcache
