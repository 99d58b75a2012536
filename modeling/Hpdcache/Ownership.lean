import Hpdcache.Disposition
import Hpdcache.Pipeline

/-!
# Who owns the pipeline

The refill FSM, the flush controller, a walk of the CMO handler and the error recovery use the
ports of the RAMs that the pipeline uses. None of them runs while a request is in stage 1 or an
operation is registered for stage 2.

* `Cache.Owned` — the pipeline is used by one of them at a time.
* `Cache.Owned.pe_agrees` — the outputs of the engine follow the decision in every cycle.
* `Cache.Owned.step` — a cycle keeps the ownership.
-/

namespace Hpdcache

open Hw

variable {c : Cfg}

/-! ## Steps of the handlers -/

/-- The handler walks the directory. -/
def CmoFsm.walks : CmoFsm → Bool
  | .idle | .fenceWaitWbufRtabEmpty | .waitMshrRtabEmpty => false
  | _ => true

theorem CmoFsm.walks_of_flushes {f : CmoFsm} (h : f.flushes = true) : f.walks = true := by
  cases f <;> first | rfl | contradiction

namespace Cmo

variable {m : Cmo c} {i : CmoIn c}

/-- A walk starts when the other units are empty. -/
theorem walks_step (h : (m.step i).fsmQ.walks = true) :
    m.fsmQ.walks = true ∨ (m.fsmQ = .waitMshrRtabEmpty ∧
      i.mshrEmpty = true ∧ i.rtabEmpty = true ∧ i.ctrlEmpty = true) := by
  have hstep : (m.step i).fsmQ = (m.comb i).fsmD := rfl
  rw [hstep] at h
  cases hf : m.fsmQ <;> try exact .inl rfl
  · exfalso
    simp only [comb, hf, combIdle, default] at h
    split_ifs at h <;> simp [CmoFsm.walks] at h
  · exfalso
    simp only [comb, hf, combFenceWait, default] at h
    split_ifs at h <;> simp [CmoFsm.walks, done] at h
  · right
    simp only [comb, hf, combWaitMshr] at h
    split_ifs at h with he
    · simp only [Bool.and_eq_true] at he
      exact ⟨rfl, he.1.1, he.1.2, he.2⟩
    · simp [default, hf, CmoFsm.walks] at h

/-- The handler leaves its idle state for a request only. -/
theorem idle_step (hf : m.fsmQ = .idle) (hr : i.reqValid = false) : (m.step i).fsmQ = .idle := by
  have hstep : (m.step i).fsmQ = (m.comb i).fsmD := rfl
  rw [hstep]
  simp [comb, hf, combIdle, hr, default]

end Cmo

namespace ErrFsm

variable {e : ErrFsm c} {i : ErrIn c}

theorem ecc_of_busy (h : e.busy = true) : c.eccEn = true := by
  simp only [busy, Bool.and_eq_true] at h
  exact h.1

theorem busy_step (h : (e.step i).busy = true) :
    e.busy = true ∨ (e.fsmQ = .idle ∧ i.trigger = true) := by
  have hecc := ecc_of_busy h
  by_cases hf : e.fsmQ = .idle
  · right
    simp only [busy, hecc, step, comb, hf, if_true, Bool.true_and, decide_eq_true_eq] at h
    refine ⟨hf, ?_⟩
    by_contra ht
    simp [ht, default, hf] at h
  · exact .inl (by simp [busy, hecc, hf])

/-- The recovery that is not waiting for the misses was not waiting for them. -/
theorem wait_step (hb : e.busy = true) (hw : e.wait = true) (h : (e.step i).busy = true) :
    (e.step i).wait = true := by
  have hecc := ecc_of_busy hb
  simp only [wait, hecc, Bool.true_and, decide_eq_true_eq] at hw ⊢
  simp only [busy, hecc, step, comb, hw, if_true, Bool.true_and, decide_eq_true_eq] at h ⊢
  cases hm : i.mshrEmpty <;> simp [hm] at h ⊢

end ErrFsm

/-- What a decision registers for stage 2 comes with a nop. -/
theorem Decision.nops_of_st2 {i : PeIn} {d : Decision}
    (h : ((d.mshrAlloc i).alloc || d.flushAlloc i || (d.dirUpdt i).updt) = true) :
    d.nops = true ∧ d.errs = false ∧ d ≠ .cmo := by
  cases d <;> simp [nops, errs, mshrAlloc, flushAlloc, dirUpdt] at h ⊢

theorem hpdcacheCtrlPe_agrees_idle {i : PeIn} (hn : i.normal = true)
    (hv : i.st1ReqValid = false) : PeAgrees i .idle (hpdcacheCtrlPe c i) := by
  have h : Agrees i .idle (stage1 c i) := by
    unfold stage1 st1Request
    rw [st2Pending_default, if_neg (by simp [hv])]
    exact agrees_start _ _
  exact h.pe hn

theorem hpdcacheCtrlPe_agrees_not_normal {i : PeIn} (hn : i.normal = false)
    (hm : i.st2MshrAlloc = false) (hf : i.st2FlushAlloc = false)
    (hd : i.st2DirUpdt.updt = false) : PeAgrees i .idle (hpdcacheCtrlPe c i) := by
  obtain ⟨evt, he⟩ := hpdcacheCtrlPe_not_normal (c := c) hn
  rw [he]
  have hupdt : { i.st2DirUpdt with updt := false } = i.st2DirUpdt := by rw [← hd]
  constructor <;>
    simp [PeOut.default, Decision.mshrAlloc, Decision.flushAlloc, Decision.dirUpdt, hm, hf, hupdt,
      Decision.holds, Decision.commits, Decision.answers, Decision.answersError, Decision.sendsUc,
      Decision.writesWbuf, Decision.writesData, Decision.errs, Decision.deps]

namespace Cache

variable {s : Cache c} {i : CacheIn c}

/-- The pipeline has one owner. -/
structure Owned (s : Cache c) : Prop where
  holds : s.cmo.HoldsFlush
  st1_normal : s.st1.reqValidQ = true → s.normal = true
  st1_st2 : s.st1.reqValidQ = true → s.st2Busy = false
  st2_normal : s.st2Busy = true → s.normal = true
  walk : s.cmo.fsmQ.walks = true →
    s.st1.reqValidQ = false ∧ s.st2Busy = false ∧ s.err.busy = false
  err : s.err.busy = true → s.st1.reqValidQ = false ∧ s.st2Busy = false
  err_init : s.err.busy = true → s.mem.initQ = true
  err_refill : s.err.busy = true → s.err.wait = false → s.miss.refillBusy = false
  err_cmo : s.err.busy = true → s.cmo.fsmQ = .idle ∨ s.rtab.empty = false
  refill_init : s.miss.refillBusy = true → s.mem.initQ = true
  core : s.st1.reqValidQ = true → s.st1.reqQ.fromRtab = false →
    s.cmo.fsmQ = .idle ∧ s.uc.ready = true ∧ s.rtab.popStateQ = .head ∧
      all s.rtab.validQ = false
  scrub : s.st1.reqValidQ = true → s.st1.reqQ.errScrubbing = false

/-- The requests on hold are neither scrubbing reads nor fences, invalidations or flushes of the
CMO handler. -/
structure Stored (q : CtrlReq c) : Prop where
  scrub : q.errScrubbing = false
  cmo : (q.req.op.isCmoInval || q.req.op.isCmoFlush || q.req.op.isCmoFence) = false

/-! ## The engine in every cycle -/

theorem idle_of_not_valid (hv : s.st1.reqValidQ = false) : s.dec i = .idle := by
  have hv' : (s.peIn i).st1ReqValid = false := hv
  unfold dec decision
  rw [hv']
  rfl

theorem valid_of_dec (h : s.dec i ≠ .idle) : s.st1.reqValidQ = true := by
  by_contra hv
  exact h (idle_of_not_valid (by simpa using hv))

theorem Owned.idle_of_not_normal (h : s.Owned) (hn : s.normal = false) :
    s.st1.reqValidQ = false ∧ s.st2Busy = false := by
  constructor
  · by_contra hv
    rw [h.st1_normal (by simpa using hv)] at hn
    contradiction
  · by_contra hb
    rw [h.st2_normal (by simpa using hb)] at hn
    contradiction

/-- The outputs of the engine are those of the decision: outside of normal operation the pipeline
is empty. -/
theorem Owned.pe_agrees (h : s.Owned) : PeAgrees (s.peIn i) (s.dec i) (s.pe i) := by
  cases hv : s.st1.reqValidQ with
  | true => exact Cache.pe_agrees (h.st1_normal hv) (h.scrub hv)
  | false =>
    rw [idle_of_not_valid hv]
    cases hn : s.normal with
    | true => exact hpdcacheCtrlPe_agrees_idle hn hv
    | false =>
      have hbusy := (h.idle_of_not_normal hn).2
      simp only [st2Busy, Bool.or_eq_false_iff] at hbusy
      exact hpdcacheCtrlPe_agrees_not_normal hn hbusy.1.1 hbusy.1.2 hbusy.2

/-! ## Grants -/

/-- A request that enters stage 1 has been granted. -/
theorem Owned.enter (h : s.Owned) (hv : (s.step i).st1.reqValidQ = true) :
    (s.peIn i).GrantCore c ∨ (s.peIn i).GrantRtab c := by
  rw [← coreReqReady_iff, ← rtabReqReady_iff]
  have hstep : (s.step i).st1.reqValidQ = (hpdcacheCtrlPe c (s.peIn i)).st1ReqValid := rfl
  rw [hstep] at hv
  cases hn : (s.peIn i).normal with
  | true =>
    rw [hpdcacheCtrlPe_normal hn] at hv ⊢
    simpa [newRequest] using hv
  | false =>
    obtain ⟨evt, he⟩ := hpdcacheCtrlPe_not_normal (c := c) hn
    rw [he] at hv
    have hvalid : s.st1.reqValidQ = true := hv
    rw [(h.idle_of_not_normal hn).1] at hvalid
    contradiction

/-- What holds when a request is granted to the core or to the replay table. -/
structure Granted (s : Cache c) (i : CacheIn c) : Prop where
  normal : s.normal = true
  not_refill : s.miss.refillReqValid = false
  cmo : s.cmoBusy = true → s.cmo.reqWait = true
  not_err : s.err.busy = false
  st2 : s.st2Busy = false
  nops : (s.dec i).nops = false

theorem Owned.nops_of_noNop (h : s.Owned) (hn : (s.peIn i).noNop c = true) :
    (s.dec i).nops = false := by
  cases hv : s.st1.reqValidQ with
  | true => exact PeIn.noNop_st1 (peIn_decodes (h.scrub hv)) hn
  | false =>
    rw [idle_of_not_valid hv]
    rfl

theorem Owned.granted (h : s.Owned)
    (hg : (s.peIn i).GrantCore c ∨ (s.peIn i).GrantRtab c) : s.Granted i := by
  rcases hg with hg | hg
  · exact ⟨hg.normal, hg.not_refill, fun hb => absurd hb (by simp [show s.cmoBusy = false from hg.not_cmo]),
      hg.not_err, PeIn.noNop_st2 hg.noNop, h.nops_of_noNop hg.noNop⟩
  · exact ⟨hg.normal, hg.not_refill, hg.cmo, hg.not_err, PeIn.noNop_st2 hg.noNop,
      h.nops_of_noNop hg.noNop⟩

/-- The request of stage 0 is a replay when the replay table has one to give. -/
theorem st0Req_fromRtab (hs : s.rtab.popTryValid = true ∨ s.scrub.reqValid = false) :
    (s.st0Req i).fromRtab = s.rtab.popTryValid := by
  unfold st0Req
  cases hp : s.rtab.popTryValid with
  | true => rfl
  | false =>
    rcases hs with hs | hs
    · rw [hp] at hs
      contradiction
    · simp [hs]

/-- A request that enters stage 1 comes from the core or from the replay table. -/
theorem Owned.reqQ_step (h : s.Owned) (hv : (s.step i).st1.reqValidQ = true) :
    (s.step i).st1.reqQ = s.st0Req i ∧
      ((s.peIn i).GrantCore c ∧ s.rtab.popTryValid = false ∨
        (s.peIn i).GrantRtab c ∧ s.rtab.popTryValid = true) := by
  have hg := h.enter hv
  constructor
  · have hready : ((s.pe i).coreReqReady || (s.pe i).rtabReqReady) = true := by
      rw [Bool.or_eq_true]
      exact hg.imp coreReqReady_iff.2 rtabReqReady_iff.2
    have hstep : (s.step i).st1.reqQ =
      if (s.pe i).coreReqReady || (s.pe i).rtabReqReady then s.st0Req i else s.st1.reqQ := rfl
    rw [hstep, if_pos hready]
  · exact hg.imp (fun hg => ⟨hg, hg.not_rtab⟩) fun hg => ⟨hg, hg.valid⟩

theorem Owned.fromRtab_step (h : s.Owned) (hv : (s.step i).st1.reqValidQ = true) :
    (s.step i).st1.reqQ.fromRtab = s.rtab.popTryValid := by
  obtain ⟨hreq, hg⟩ := h.reqQ_step hv
  rw [hreq]
  exact st0Req_fromRtab (hg.symm.imp And.right fun hg => hg.1.not_scrub)

/-! ## Stage 2 and the handlers after a cycle -/

theorem st2Busy_step (hpe : PeAgrees (s.peIn i) (s.dec i) (s.pe i)) : (s.step i).st2Busy =
    (((s.dec i).mshrAlloc (s.peIn i)).alloc || (s.dec i).flushAlloc (s.peIn i) ||
      ((s.dec i).dirUpdt (s.peIn i)).updt) := by
  rw [← hpe.mshrAlloc, ← hpe.flushAlloc, ← hpe.dirUpdt]
  have hstep : (s.step i).st2Busy = ((s.pe i).st2MshrAlloc.alloc || (s.pe i).st2FlushAlloc ||
    (if (s.pe i).st2DirUpdt.updt then (s.pe i).st2DirUpdt
      else { s.st2.dirUpdtQ with updt := false }).updt) := rfl
  rw [hstep]
  cases hu : (s.pe i).st2DirUpdt.updt with
  | true => rw [if_pos rfl, hu]
  | false => rfl

theorem Owned.st2Busy_step (h : s.Owned) : (s.step i).st2Busy =
    (((s.dec i).mshrAlloc (s.peIn i)).alloc || (s.dec i).flushAlloc (s.peIn i) ||
      ((s.dec i).dirUpdt (s.peIn i)).updt) :=
  Cache.st2Busy_step h.pe_agrees

/-- An operation registered for stage 2 comes from a request in stage 1, which inserts a nop. -/
theorem Owned.of_st2Busy_step (h : s.Owned) (hb : (s.step i).st2Busy = true) :
    s.st1.reqValidQ = true ∧ (s.dec i).nops = true ∧ (s.dec i).errs = false ∧ s.dec i ≠ .cmo := by
  rw [h.st2Busy_step] at hb
  have hd := Decision.nops_of_st2 hb
  refine ⟨valid_of_dec (i := i) ?_, hd⟩
  intro hidle
  rw [hidle] at hd
  exact absurd hd.1 (by decide)

theorem Owned.flushBusy_step (h : s.Owned) (hb : s.flushBusy = false)
    (hst2 : s.st2.flushAllocQ = false) (hw : s.cmo.fsmQ.walks = false) :
    (s.step i).flushBusy = false := by
  refine Cache.flushBusy_step h.holds hb hst2 ?_
  by_contra hf
  rw [CmoFsm.walks_of_flushes (by simpa using hf)] at hw
  contradiction

theorem refillReqReady_eq_false (hr : s.miss.refillReqValid = false ∨ s.st1.reqValidQ = true ∨
    s.err.busy = true ∧ s.err.wait = false) : (s.pe i).refillReqReady = false := by
  by_contra hready
  rw [Bool.not_eq_false] at hready
  have hg := refillReqReady_iff.1 hready
  rcases hr with hr | hr | ⟨hb, hw⟩
  · have hv : s.miss.refillReqValid = true := hg.valid
    rw [hv] at hr
    contradiction
  · have hv : s.st1.reqValidQ = false := hg.not_st1
    rw [hv] at hr
    contradiction
  · have hwait : s.err.wait = true := hg.err hb
    rw [hwait] at hw
    contradiction

theorem Granted.walks (h : s.Granted i) : s.cmo.fsmQ.walks = false := by
  cases hb : s.cmoBusy with
  | true =>
    have hwait := h.cmo hb
    simp only [Cmo.reqWait, decide_eq_true_eq] at hwait
    rcases hwait with hf | hf <;> rw [hf] <;> rfl
  | false =>
    simp only [cmoBusy, Cmo.reqReady, Bool.not_eq_false', Bool.and_eq_true,
      decide_eq_true_eq] at hb
    rw [hb.1]
    rfl

/-- The handler has no request when stage 1 does not give it one. -/
theorem cmo_idle_step (hpe : PeAgrees (s.peIn i) (s.dec i) (s.pe i)) (hf : s.cmo.fsmQ = .idle)
    (hd : s.dec i ≠ .cmo) : (s.step i).cmo.fsmQ = .idle := by
  refine Cmo.idle_step hf ?_
  have hreq := hpe.cmoReq
  rw [decide_eq_false hd] at hreq
  exact hreq

theorem Owned.cmo_idle_step (h : s.Owned) (hf : s.cmo.fsmQ = .idle) (hd : s.dec i ≠ .cmo) :
    (s.step i).cmo.fsmQ = .idle :=
  Cache.cmo_idle_step h.pe_agrees hf hd

/-- An entry of the replay table stays valid unless stage 1 commits it. -/
theorem valid_step (hpe : PeAgrees (s.peIn i) (s.dec i) (s.pe i)) {k : Fin c.rtabEntries}
    (hk : s.rtab.validQ k = true) (hc : (s.dec i).commits = false) :
    (s.step i).rtab.validQ k = true := by
  have hcommit : (s.rtabIn i).popCommit = false := by
    have hcommit := hpe.commit
    rw [hc, Bool.false_and] at hcommit
    exact hcommit
  simp [step, Rtab.step, Rtab.commitBv, hk, hcommit]

theorem Owned.valid_step (h : s.Owned) {k : Fin c.rtabEntries} (hk : s.rtab.validQ k = true)
    (hc : (s.dec i).commits = false) : (s.step i).rtab.validQ k = true :=
  Cache.valid_step h.pe_agrees hk hc

/-- A CMO that waits for the replay table goes on waiting while an entry is left. -/
theorem cmo_held_step (hpe : PeAgrees (s.peIn i) (s.dec i) (s.pe i)) (hd : s.dec i ≠ .cmo)
    (hc : (s.dec i).commits = false) (h : s.cmo.fsmQ = .idle ∨ s.rtab.empty = false) :
    (s.step i).cmo.fsmQ = .idle ∨ (s.step i).rtab.empty = false := by
  rcases h with hidle | hne
  · exact .inl (Cache.cmo_idle_step hpe hidle hd)
  · right
    simp only [Rtab.empty, Bool.not_eq_false', any_eq_true] at hne ⊢
    obtain ⟨k, hk⟩ := hne
    exact ⟨k, Cache.valid_step hpe hk hc⟩

/-- A request that is neither held nor linked takes no entry of the replay table. -/
theorem Owned.of_valid_step (h : s.Owned) {k : Fin c.rtabEntries} (hn : (s.dec i).nops = false)
    (hk : (s.step i).rtab.validQ k = true) : s.rtab.validQ k = true := by
  have hpe := h.pe_agrees (i := i)
  have hnew : (s.rtabIn i).alloc = false ∧ (s.rtabIn i).allocAndLink = false := by
    have halloc : (s.rtabIn i).alloc = ((s.dec i).holds && !(s.peIn i).st1ReqRtab) := hpe.alloc
    have hlink : (s.rtabIn i).allocAndLink = decide (s.dec i = .link) := hpe.link
    rw [halloc, hlink]
    cases hd : s.dec i <;> rw [hd] at hn <;> first | exact ⟨rfl, rfl⟩ | contradiction
  have hstep : (s.step i).rtab.validQ k =
    setRst (s.rtab.validQ k) (s.rtab.allocBv (s.rtabIn i) k) (Rtab.commitBv (s.rtabIn i) k) := rfl
  rw [hstep, Rtab.allocBv, hnew.1, hnew.2, Bool.or_self, Bool.and_false] at hk
  cases hv : s.rtab.validQ k with
  | true => rfl
  | false =>
    rw [hv, setRst_false_left] at hk
    exact hk

/-! ## One cycle -/

theorem Owned.holds_step (h : s.Owned) : (s.step i).cmo.HoldsFlush :=
  Cmo.HoldsFlush.step h.holds

theorem Owned.st1_normal_step (h : s.Owned) (hv : (s.step i).st1.reqValidQ = true) :
    (s.step i).normal = true := by
  have hg := h.granted (h.enter hv)
  have hst2 := hg.st2
  simp only [st2Busy, Bool.or_eq_false_iff] at hst2
  exact normal_step hg.normal (refillReqReady_eq_false (.inl hg.not_refill))
    (h.flushBusy_step (normal_iff.1 hg.normal).2.2 hst2.1.2 hg.walks)

theorem Owned.st1_st2_step (h : s.Owned) (hv : (s.step i).st1.reqValidQ = true) :
    (s.step i).st2Busy = false := by
  have hnops := (h.granted (h.enter hv)).nops
  by_contra hb
  rw [(h.of_st2Busy_step (by simpa using hb)).2.1] at hnops
  contradiction

theorem Owned.st2_normal_step (h : s.Owned) (hb : (s.step i).st2Busy = true) :
    (s.step i).normal = true := by
  obtain ⟨hv, -⟩ := h.of_st2Busy_step hb
  have hn := h.st1_normal hv
  have hst2 := h.st1_st2 hv
  simp only [st2Busy, Bool.or_eq_false_iff] at hst2
  have hw : s.cmo.fsmQ.walks = false := by
    by_contra hw
    rw [(h.walk (by simpa using hw)).1] at hv
    contradiction
  exact normal_step hn (refillReqReady_eq_false (.inr (.inl hv)))
    (h.flushBusy_step (normal_iff.1 hn).2.2 hst2.1.2 hw)

/-- The recovery is started by a request in stage 1, which inserts a nop. -/
theorem Owned.err_busy_step (h : s.Owned) (hb : (s.step i).err.busy = true) :
    s.err.busy = true ∨ s.st1.reqValidQ = true ∧ (s.dec i).errs = true ∧ (s.dec i).nops = true := by
  refine (ErrFsm.busy_step hb).imp id fun ht => ?_
  have herrs : (s.dec i).errs = true := by
    have hpe := (h.pe_agrees (i := i)).err
    rw [← hpe]
    exact ht.2
  refine ⟨valid_of_dec (i := i) ?_, herrs, ?_⟩
  · intro hd
    rw [hd] at herrs
    contradiction
  · cases hd : s.dec i <;> rw [hd] at herrs <;> first | rfl | contradiction

theorem Owned.walk_step (h : s.Owned)
    (hpop : s.rtab.popTryValid = true → s.rtab.validQ s.rtab.popTryPtr = true)
    (hw : (s.step i).cmo.fsmQ.walks = true) :
    (s.step i).st1.reqValidQ = false ∧ (s.step i).st2Busy = false ∧
      (s.step i).err.busy = false := by
  -- a walk goes on, or starts when everything is empty
  have hempty : s.st1.reqValidQ = false ∧ s.err.busy = false ∧
      (s.cmo.fsmQ.walks = true ∨ s.cmoBusy = true ∧ s.rtab.popTryValid = false) := by
    rcases Cmo.walks_step hw with hw | ⟨hf, -, hrtab, hctrl⟩
    · obtain ⟨h1, -, h3⟩ := h.walk hw
      exact ⟨h1, h3, .inl hw⟩
    · have hempty : s.rtab.empty = true := hrtab
      have hctrl' : s.ctrlEmpty = true := hctrl
      simp only [ctrlEmpty, Bool.and_eq_true, Bool.not_eq_true'] at hctrl'
      refine ⟨hctrl'.1, ?_, .inr ⟨by simp [cmoBusy, Cmo.reqReady, hf], ?_⟩⟩
      · by_contra hb
        rcases h.err_cmo (by simpa using hb) with hidle | hne
        · rw [hf] at hidle
          contradiction
        · rw [hempty] at hne
          contradiction
      · by_contra hp
        simp only [Rtab.empty, Bool.not_eq_true', any_eq_false] at hempty
        have hvalid := hpop (by simpa using hp)
        rw [hempty] at hvalid
        contradiction
  obtain ⟨hst1, herr, hcmo⟩ := hempty
  refine ⟨?_, ?_, ?_⟩
  · by_contra hv
    have hv' : (s.step i).st1.reqValidQ = true := by simpa using hv
    have hg := h.granted (h.enter hv')
    rcases hcmo with hwalk | ⟨hbusy, hp⟩
    · rw [hg.walks] at hwalk
      contradiction
    · rcases (h.reqQ_step hv').2 with ⟨hcore, -⟩ | ⟨-, hp'⟩
      · have hnb : s.cmoBusy = false := hcore.not_cmo
        rw [hnb] at hbusy
        contradiction
      · rw [hp] at hp'
        contradiction
  · by_contra hb
    rw [(h.of_st2Busy_step (by simpa using hb)).1] at hst1
    contradiction
  · by_contra hb
    rcases h.err_busy_step (by simpa using hb) with hb | ⟨hv, -⟩
    · rw [hb] at herr
      contradiction
    · rw [hv] at hst1
      contradiction

theorem Owned.err_step (h : s.Owned) (hb : (s.step i).err.busy = true) :
    (s.step i).st1.reqValidQ = false ∧ (s.step i).st2Busy = false := by
  constructor
  · by_contra hv
    have hg := h.granted (h.enter (by simpa using hv))
    rcases h.err_busy_step hb with hb | ⟨-, -, hn⟩
    · rw [hg.not_err] at hb
      contradiction
    · rw [hg.nops] at hn
      contradiction
  · by_contra hb2
    obtain ⟨hv, -, herr, -⟩ := h.of_st2Busy_step (by simpa using hb2)
    rcases h.err_busy_step hb with hb | ⟨-, herrs, -⟩
    · rw [(h.err hb).1] at hv
      contradiction
    · rw [herrs] at herr
      contradiction

theorem Owned.err_init_step (h : s.Owned) (hb : (s.step i).err.busy = true) :
    (s.step i).mem.initQ = true := by
  refine initQ_step ?_
  rcases h.err_busy_step hb with hb | ⟨hv, -⟩
  · exact h.err_init hb
  · exact (normal_iff.1 (h.st1_normal hv)).1

theorem Owned.err_refill_step (h : s.Owned) (hb : (s.step i).err.busy = true)
    (hw : (s.step i).err.wait = false) : (s.step i).miss.refillBusy = false := by
  rcases h.err_busy_step hb with hb' | ⟨hv, -⟩
  · have hwait : s.err.wait = false := by
      by_contra hwt
      rw [show (s.step i).err.wait = true from
        ErrFsm.wait_step hb' (by simpa using hwt) hb] at hw
      contradiction
    exact MissHandler.refillBusy_step (h.err_refill hb' hwait)
      (refillReqReady_eq_false (.inr (.inr ⟨hb', hwait⟩)))
  · exact MissHandler.refillBusy_step (normal_iff.1 (h.st1_normal hv)).2.1
      (refillReqReady_eq_false (.inr (.inl hv)))

theorem Owned.err_cmo_step (h : s.Owned)
    (hptr : s.st1.reqValidQ = true → s.st1.reqQ.fromRtab = true →
      s.rtab.validQ s.st1.rtabPopTryPtrQ = true)
    (hb : (s.step i).err.busy = true) :
    (s.step i).cmo.fsmQ = .idle ∨ (s.step i).rtab.empty = false := by
  rcases h.err_busy_step hb with hb' | ⟨hv, herrs, -⟩
  · have hd := idle_of_not_valid (i := i) (h.err hb').1
    exact cmo_held_step h.pe_agrees (by simp [hd]) (by rw [hd]; rfl) (h.err_cmo hb')
  · have hd : s.dec i ≠ .cmo ∧ (s.dec i).commits = false := by
      cases hd : s.dec i <;> rw [hd] at herrs <;> first | contradiction | exact ⟨nofun, rfl⟩
    refine cmo_held_step h.pe_agrees hd.1 hd.2 ?_
    cases hr : s.st1.reqQ.fromRtab with
    | false => exact .inl (h.core hv hr).1
    | true =>
      right
      simp only [Rtab.empty, Bool.not_eq_false', any_eq_true]
      exact ⟨_, hptr hv hr⟩

theorem Owned.refill_init_step (h : s.Owned) (hb : (s.step i).miss.refillBusy = true) :
    (s.step i).mem.initQ = true := by
  refine initQ_step ?_
  cases hr : s.miss.refillBusy with
  | true => exact h.refill_init hr
  | false =>
    by_contra hn
    have hready : (s.pe i).refillReqReady = false := by
      by_contra hready
      rw [Bool.not_eq_false] at hready
      have hnorm : s.normal = true := (refillReqReady_iff.1 hready).normal
      exact hn (normal_iff.1 hnorm).1
    rw [show (s.step i).miss.refillBusy = false from
      MissHandler.refillBusy_step hr hready] at hb
    contradiction

theorem Owned.core_step (h : s.Owned) (hv : (s.step i).st1.reqValidQ = true)
    (hr : (s.step i).st1.reqQ.fromRtab = false) :
    (s.step i).cmo.fsmQ = .idle ∧ (s.step i).uc.ready = true ∧
      (s.step i).rtab.popStateQ = .head ∧ all (s.step i).rtab.validQ = false := by
  have hp : s.rtab.popTryValid = false := by rw [← h.fromRtab_step hv, hr]
  have hg : (s.peIn i).GrantCore c := by
    rcases (h.reqQ_step hv).2 with hg | hg
    · exact hg.1
    · rw [hp] at hg
      exact absurd hg.2 (by simp)
  have hgr := h.granted (.inl hg)
  have hnot : ∀ d : Decision, d.nops = true → s.dec i ≠ d := by
    rintro d hd rfl
    rw [hgr.nops] at hd
    contradiction
  refine ⟨?_, ?_, ?_, ?_⟩
  · have hcmo : s.cmoBusy = false := hg.not_cmo
    simp only [cmoBusy, Cmo.reqReady, Bool.not_eq_false', Bool.and_eq_true,
      decide_eq_true_eq] at hcmo
    exact h.cmo_idle_step hcmo.1 (hnot _ rfl)
  · have huc : s.ucBusy = false := hg.not_uc
    simp only [ucBusy, Uncached.ready, Bool.not_eq_false', decide_eq_true_eq] at huc
    have hreq : (s.ucIn i).reqValid = false := by
      have hpe : (s.ucIn i).reqValid = (s.dec i).sendsUc := (h.pe_agrees (i := i)).ucReq
      rw [hpe]
      cases hd : s.dec i <;> first | rfl | exact absurd hd (hnot _ rfl)
    have hstep : (s.step i).uc.fsmQ = s.uc.fsmD (s.ucIn i) := rfl
    simp [Uncached.ready, hstep, Uncached.fsmD, huc, Uncached.idleD, hreq]
  · have hstate : s.rtab.popStateQ = .head := by
      unfold Rtab.popTryValid at hp
      cases hs : s.rtab.popStateQ <;> rw [hs] at hp <;> first | rfl | contradiction
    have hstep : (s.step i).rtab.popStateQ = s.rtab.popStateD (s.rtabIn i) := rfl
    simp [hstep, Rtab.popStateD, Rtab.popHead, hstate, hp]
  · have hfull : s.rtab.full i.cfgRtabSingleEntry = false := hg.not_full
    simp only [Rtab.full, Bool.or_eq_false_iff, all_eq_false] at hfull
    obtain ⟨k, hk⟩ := hfull.1
    rw [all_eq_false]
    refine ⟨k, ?_⟩
    by_contra hk'
    rw [h.of_valid_step hgr.nops (by simpa using hk')] at hk
    contradiction

theorem Owned.scrub_step (h : s.Owned)
    (hstored : ∀ k, s.rtab.validQ k = true → Stored (s.rtab.reqQ k).req)
    (hpop : s.rtab.popTryValid = true → s.rtab.validQ s.rtab.popTryPtr = true)
    (hv : (s.step i).st1.reqValidQ = true) : (s.step i).st1.reqQ.errScrubbing = false := by
  obtain ⟨hreq, hg⟩ := h.reqQ_step hv
  rw [hreq]
  unfold st0Req
  rcases hg with ⟨hg, hp⟩ | ⟨-, hp⟩
  · have hs : s.scrub.reqValid = false := hg.not_scrub
    simp [hp, hs]
  · rw [if_pos hp]
    exact (hstored _ (hpop hp)).scrub

theorem Owned.step (h : s.Owned)
    (hstored : ∀ k, s.rtab.validQ k = true → Stored (s.rtab.reqQ k).req)
    (hpop : s.rtab.popTryValid = true → s.rtab.validQ s.rtab.popTryPtr = true)
    (hptr : s.st1.reqValidQ = true → s.st1.reqQ.fromRtab = true →
      s.rtab.validQ s.st1.rtabPopTryPtrQ = true) : (s.step i).Owned where
  holds := h.holds_step
  st1_normal := h.st1_normal_step
  st1_st2 := h.st1_st2_step
  st2_normal := h.st2_normal_step
  walk := h.walk_step hpop
  err := h.err_step
  err_init := h.err_init_step
  err_refill := h.err_refill_step
  err_cmo := h.err_cmo_step hptr
  refill_init := h.refill_init_step
  core := h.core_step
  scrub := h.scrub_step hstored hpop

theorem owned_reset (s : Cache c) : s.reset.Owned where
  holds := Cmo.holdsFlush_reset s.cmo
  st1_normal := nofun
  st1_st2 := nofun
  st2_normal := nofun
  walk := nofun
  err := by simp [reset, ErrFsm.reset, ErrFsm.busy]
  err_init := by simp [reset, ErrFsm.reset, ErrFsm.busy]
  err_refill := by simp [reset, ErrFsm.reset, ErrFsm.busy]
  err_cmo := fun _ => .inl rfl
  refill_init := nofun
  core := nofun
  scrub := nofun

end Cache

end Hpdcache
