import Hpdcache.Pipeline
import Hpdcache.Quiet

/-!
# Virtual and physical indexing

A virtually indexed request gives its tag and its attributes one cycle after the rest; what it
shows of them with the request is arbitrary.

* `Top.AgreesPhys` — the request does the same whichever way it is indexed.
* `agreesPhys_iff` — when it does in every state.
-/

namespace Hpdcache

open Hw

variable {c : Cfg}

/-! ## What the engine does not read -/

section
variable {i : PeIn} (b : Bool)

/-- Without a lookup nor a data read in stage 0, the attribute of the stage-0 request is not
read. -/
theorem hpdcacheCtrlPe_st0Uncacheable
    (h : (i.st0ReqIsLoad || i.st0ReqIsCmoPrefetch || i.st0ReqIsStore || i.st0ReqIsAmo) = false)
    (hs : i.st0ReqIsScrub = false) :
    hpdcacheCtrlPe c { i with st0ReqIsUncacheable := b } = hpdcacheCtrlPe c i := by
  simp only [Bool.or_eq_false_iff] at h
  obtain ⟨⟨⟨hl, hp⟩, hst⟩, ha⟩ := h
  have hnew : ∀ o, newRequest c { i with st0ReqIsUncacheable := b } o = newRequest c i o := by
    intro o
    simp [newRequest, st0CachedataRead, hl, hp, hst, ha, hs]
  have hcomb : hpdcacheCtrlComb c { i with st0ReqIsUncacheable := b } = hpdcacheCtrlComb c i := by
    simp only [hpdcacheCtrlComb, hnew]
    rfl
  unfold hpdcacheCtrlPe
  rw [hcomb]
  rfl

/-- The attribute of a CMO in stage 1 is not read. -/
theorem hpdcacheCtrlPe_st1Uncacheable
    (h : (i.st1ReqIsCmoInval || i.st1ReqIsCmoFlush || i.st1ReqIsCmoFence) = true) :
    hpdcacheCtrlPe c { i with st1ReqIsUncacheable := b } = hpdcacheCtrlPe c i := by
  have hfence : PeIn.st1Fence { i with st1ReqIsUncacheable := b } = i.st1Fence := by
    simp only [PeIn.st1Fence]
    cases h1 : i.st1ReqIsCmoInval <;> cases h2 : i.st1ReqIsCmoFlush <;>
      cases h3 : i.st1ReqIsCmoFence <;> simp_all
  have hreq : ∀ o, st1Request c { i with st1ReqIsUncacheable := b } o = st1Request c i o := by
    intro o
    unfold st1Request
    simp only [hfence, h, if_true]
  have hcomb : hpdcacheCtrlComb c { i with st1ReqIsUncacheable := b } = hpdcacheCtrlComb c i := by
    simp only [hpdcacheCtrlComb, hreq]
    rfl
  unfold hpdcacheCtrlPe
  rw [hcomb, hfence]

end

/-- What the engine does with a CMO other than a prefetch does not go through the replay table nor
the uncacheable handler. -/
theorem hpdcacheCtrlPe_walk {i : PeIn}
    (h : (i.st1ReqIsCmoInval || i.st1ReqIsCmoFlush || i.st1ReqIsCmoFence) = true) :
    (hpdcacheCtrlPe c i).ucReqValid = false ∧ (hpdcacheCtrlPe c i).st1RtabAlloc = false ∧
      (hpdcacheCtrlPe c i).st1RtabAllocAndLink = false ∧
      (hpdcacheCtrlPe c i).st1RtabRback = false := by
  cases hn : i.normal with
  | false =>
    obtain ⟨evt, he⟩ := hpdcacheCtrlPe_not_normal (c := c) hn
    rw [he]
    exact ⟨rfl, rfl, rfl, rfl⟩
  | true =>
    have hfence : i.st1Fence = true := by
      simp only [PeIn.st1Fence]
      cases h1 : i.st1ReqIsCmoInval <;> cases h2 : i.st1ReqIsCmoFlush <;>
        cases h3 : i.st1ReqIsCmoFence <;> simp_all
    have hstage : (stage1 c i).ucReqValid = false ∧ (stage1 c i).st1RtabAllocI = false ∧
        (stage1 c i).st1RtabAllocAndLink = false := by
      unfold stage1 st1Request
      rw [st2Pending_default]
      simp only [hfence, h, if_true, Bool.not_true, Bool.and_false, Bool.false_and,
        Bool.false_eq_true, if_false]
      split_ifs <;> exact ⟨rfl, rfl, rfl⟩
    rw [hpdcacheCtrlPe_normal hn]
    simp [newRequest, hstage]

/-- What the uncacheable handler is shown counts only with a request. -/
theorem Uncached.step_noReq {u : Uncached c} {i : UcIn c} (h : i.reqValid = false)
    (r : UcReq c) : u.step { i with req := r } = u.step i := by
  cases hf : u.fsmQ <;>
    simp [step, fsmD, idleD, memReqD, waitRspD, rspErrorSet, lrscUcReset, lrscUcSet, lrscSnoopHit,
      rmwDone, scAtomic, rdError, wrError, ready, coreRspValid, hf, h]

/-! ## Two views of a cycle

The same cycle with another request register in stage 1 and other inputs of the core, when the
engine decides the same and the requests differ in nothing that the units read. -/

namespace Cache

/-- The state with another request register. -/
def withSt1Req (s : Cache c) (r : CtrlReq c) : Cache c := { s with st1 := { s.st1 with reqQ := r } }

/-- The inputs with another request of the core. -/
def withReq (i : CacheIn c) (q : Req c) : CacheIn c := { i with coreReq := q }

/-- The inputs of another core. -/
def withCore (i : CacheIn c) (q : Req c) (abort : Bool) (tag : Nat) (pma : Pma) : CacheIn c :=
  { i with coreReq := q, coreReqAbort := abort, coreReqTag := tag, coreReqPma := pma }

/-- The two requests are at the same place of the cache. -/
structure SamePlace (r r' : CtrlReq c) : Prop where
  set : r'.req.addrSet = r.req.addrSet
  size : r'.req.size = r.req.size
  word : r'.word = r.word

/-- The second view is that of the same cycle. -/
structure SameView (s s' : Cache c) (i i' : CacheIn c) (ph : Bool) (pma : Pma) : Prop where
  state : s' = s.withSt1Req s'.st1.reqQ
  input : i' = withCore i i'.coreReq i'.coreReqAbort i'.coreReqTag i'.coreReqPma
  pe : s'.pe i' = s.pe i
  st0 : SamePlace (s.st0Req i) (s'.st0Req i')
  st1 : s'.st1Req i' =
    { s.st1Req i with req := { (s.st1Req i).req with physIndexed := ph, pma := pma } }
  /-- The attributes of a CMO are not read. -/
  pma : pma = (s.st1Req i).req.pma ∨
    ((s.pe i).ucReqValid = false ∧ (s.pe i).st1RtabAlloc = false ∧
      (s.pe i).st1RtabAllocAndLink = false ∧ (s.pe i).st1RtabRback = false)

namespace SameView

variable {s s' : Cache c} {i i' : CacheIn c} {ph : Bool} {p : Pma} (h : SameView s s' i i' ph p)
include h

theorem st1Nline : s'.st1Nline i' = s.st1Nline i := by
  rw [Cache.st1Nline, h.st1]
  rfl

theorem st1HitWay : s'.st1HitWay i' = s.st1HitWay i := by
  rw [Cache.st1HitWay, h.st1, h.state]
  rfl

theorem st1VictimWay : s'.st1VictimWay i' = s.st1VictimWay i := by
  rw [Cache.st1VictimWay, h.st1, h.state]
  rfl

theorem st1Way : s'.st1Way i' = s.st1Way i := by
  rw [Cache.st1Way, Cache.st1DirHit, h.st1HitWay, h.st1VictimWay]
  rfl

theorem dataReqReadData : s'.dataReqReadData i' = s.dataReqReadData i := by
  rw [Cache.dataReqReadData, Cache.dataReqReadWay, h.st1HitWay, h.state]
  rfl

theorem cmoIn : s'.cmoIn i' = s.cmoIn i := by
  simp only [Cache.cmoIn, h.pe, h.st1Nline, h.st1]
  rw [h.state]
  rfl

theorem cmoOut : s'.cmoOut i' = s.cmoOut i := by
  rw [Cache.cmoOut, h.cmoIn, h.state]
  rfl

theorem flushIn : s'.flushIn i' = s.flushIn i := by
  simp only [Cache.flushIn, cmoFlushAlloc, h.cmoIn]
  rw [h.state, h.input]
  rfl

theorem flushRead : s'.flushRead i' = s.flushRead i := by
  rw [Cache.flushRead, h.flushIn, h.state]
  rfl

theorem errIn : s'.errIn i' = s.errIn i := by
  simp only [Cache.errIn, h.flushRead, h.pe, h.st1]
  rw [h.state, h.input]
  rfl

theorem errOut : s'.errOut i' = s.errOut i := by
  rw [Cache.errOut, h.errIn, h.state]
  rfl

theorem missIn : s'.missIn i' = s.missIn i := by
  simp only [Cache.missIn, h.pe, h.st0.set]
  rw [h.state, h.input]
  rfl

theorem refill : s'.refill i' = s.refill i := by
  rw [Cache.refill, h.missIn, h.state]
  rfl

theorem ucStep : s'.uc.step (s'.ucIn i') = s.uc.step (s.ucIn i) := by
  have hreq : s'.ucIn i' = { s.ucIn i with req := (s'.ucIn i').req } := by
    simp only [Cache.ucIn, h.pe, h.st1Nline, h.st1, h.st1HitWay, h.dataReqReadData]
    rw [h.state, h.input]
    rfl
  have huc : s'.uc = s.uc := by
    rw [h.state]
    rfl
  rw [hreq, huc]
  rcases h.pma with hp | ⟨hv, -⟩
  · have hsame : (s'.ucIn i').req = (s.ucIn i).req := by
      simp only [Cache.ucIn, h.st1Nline, h.st1, h.st1HitWay, h.dataReqReadData,
        st1ReqIsUncacheable, hp]
      rw [h.input]
      rfl
    rw [hsame]
  · exact Uncached.step_noReq hv _

theorem ucFlushAll : s'.uc.wbufFlushAll (s'.ucIn i') = s.uc.wbufFlushAll (s.ucIn i) := by
  simp only [Uncached.wbufFlushAll, Cache.ucIn, h.pe]
  rw [h.state]
  rfl

theorem wbufIn : s'.wbufIn i' = s.wbufIn i := by
  simp only [Cache.wbufIn, h.cmoOut, h.ucFlushAll, h.pe, h.st1Nline, h.st1]
  rw [h.input]
  rfl

theorem dataReadReq : SamePlace (s.dataReadReq i) (s'.dataReadReq i') := by
  unfold Cache.dataReadReq
  split_ifs
  · exact h.st0
  · rw [h.st1]
    exact ⟨rfl, rfl, rfl⟩

theorem memIn : s'.memIn i' = s.memIn i := by
  simp only [Cache.memIn, h.refill, h.errOut, h.cmoOut, h.flushRead, h.pe, h.st0.set,
    h.dataReadReq.set, h.dataReadReq.size, h.dataReadReq.word, h.st1, h.st1HitWay,
    Cache.dataReqReadWay]
  rw [h.state]
  rfl

/-- The replay table records the same request, up to how it was indexed. -/
theorem rtabIn : s'.rtabIn i' =
    { s.rtabIn i with
      allocReq := ⟨s'.st1Req i', (s.rtabIn i).allocReq.wayFetch⟩ } := by
  simp only [Cache.rtabIn, h.refill, h.pe, h.st1Nline, h.st1HitWay]
  rw [h.state, h.input]
  rfl

theorem stepSt2 : s'.stepSt2 i' = s.stepSt2 i := by
  simp only [Cache.stepSt2, h.pe, h.st1Nline, h.st1Way, st1DirHit, h.st1HitWay, h.st1VictimWay,
    h.st1]
  rw [h.state]
  rfl

theorem st1Rsp : s'.st1Rsp i' = s.st1Rsp i := by
  simp only [Cache.st1Rsp, h.pe, h.st1]

theorem stepCmoSets : s'.stepCmoSets i' = s.stepCmoSets i := by
  simp only [Cache.stepCmoSets, h.refill, h.cmoOut]
  rw [h.state]
  rfl

/-- The next states differ in the request register and in the replay table only. -/
theorem step : s'.step i' =
    { (s.step i).withSt1Req (s'.stepSt1 i').reqQ with
      rtab := s.rtab.step (s'.rtabIn i') } := by
  have hst1 : s'.stepSt1 i' = { s.stepSt1 i with reqQ := (s'.stepSt1 i').reqQ } := by
    simp only [stepSt1, h.pe]
    rw [h.state]
    rfl
  simp only [Cache.step, withSt1Req, h.stepSt2, h.st1Rsp, h.st1HitWay, h.stepCmoSets, h.memIn,
    h.missIn, h.wbufIn, h.flushIn, h.ucStep, h.cmoIn, h.errIn, h.pe]
  rw [hst1, h.input]
  generalize (s'.stepSt1 i').reqQ = r
  generalize s'.rtabIn i' = ri
  rw [h.state]
  rfl

theorem out : s'.out i' = s.out i := by
  simp only [Cache.out, coreReqReady, coreRsp, pipeRsp, ucRspValid, cmoRspValid, h.pe, h.st1Rsp,
    h.dataReqReadData]
  rw [h.state]
  rfl

end SameView

end Cache

/-! ## What is left of a request -/

/-- The request as it is replayed: a request on hold is physically indexed. -/
def RtabEntry.translated (e : RtabEntry c) : RtabEntry c :=
  { e with req := { e.req with req := { e.req.req with physIndexed := true } } }

def Rtab.visible (r : Rtab c) : Rtab c := { r with reqQ := fun k => (r.reqQ k).translated }

def St1.visible (p : St1 c) : St1 c :=
  if p.reqValidQ then p else { p with reqQ := ⟨Req.zero c, false, false, false⟩ }

/-- The state without what is never read: the request of an empty stage 1, and how the requests on
hold were indexed. -/
def Cache.visible (s : Cache c) : Cache c :=
  { s with st1 := s.st1.visible, rtab := s.rtab.visible }

theorem St1.visible_withReq {p : St1 c} {r : CtrlReq c} (h : p.reqValidQ = true → r = p.reqQ) :
    St1.visible { p with reqQ := r } = p.visible := by
  unfold visible
  cases hv : p.reqValidQ with
  | false => rfl
  | true =>
    rw [if_pos rfl, if_pos rfl, h hv, ← hv]

theorem Rtab.step_visible {r : Rtab c} {i : RtabIn c} {a : RtabEntry c}
    (h : a.translated = i.allocReq.translated ∨
      (i.alloc = false ∧ i.allocAndLink = false ∧ i.popRback = false)) :
    (r.step { i with allocReq := a }).visible = (r.step i).visible := by
  have hreq : ∀ k,
      ((if r.allocBv i k || rbackBv i k then a else r.reqQ k) : RtabEntry c).translated =
        (if r.allocBv i k || rbackBv i k then i.allocReq else r.reqQ k).translated := by
    intro k
    rcases h with ha | ⟨h1, h2, h3⟩
    · split_ifs
      · exact ha
      · rfl
    · simp [allocBv, rbackBv, h1, h2, h3]
  unfold visible
  congr 1
  funext k
  exact hreq k

theorem Cache.SameView.visible {s s' : Cache c} {i i' : CacheIn c} {ph : Bool} {p : Pma}
    (h : SameView s s' i i' ph p)
    (hst1 : (s.step i).st1.reqValidQ = true → (s'.stepSt1 i').reqQ = (s.stepSt1 i).reqQ) :
    (s'.step i').visible = (s.step i).visible := by
  have hrtab : (s.rtab.step (s'.rtabIn i')).visible = (s.step i).rtab.visible := by
    rw [h.rtabIn]
    refine Rtab.step_visible ?_
    rcases h.pma with hp | ⟨-, h1, h2, h3⟩
    · left
      rw [h.st1, hp]
      rfl
    · exact .inr ⟨h1, h2, h3⟩
  have hreq := St1.visible_withReq hst1
  rw [h.step]
  simp only [Cache.visible, Cache.withSt1Req, hrtab, hreq]

/-! ## The request in its first cycle -/

/-- The operations that are not looked up: CMOs other than prefetches. -/
def ReqOp.isWalk (op : ReqOp) : Bool := op.isCmoInval || op.isCmoFlush || op.isCmoFence

namespace Cache

variable {s : Cache c} {i i' : CacheIn c} {tag : Nat} {ph : Bool} {pma : Pma}

/-- The inputs differ in the fields of the request that come one cycle later. -/
def LateReq (i i' : CacheIn c) (tag : Nat) (ph : Bool) (pma : Pma) : Prop :=
  i' = withReq i { i.coreReq with addrTag := tag, physIndexed := ph, pma := pma }

theorem st0Req_core (h : (s.pe i).coreReqReady = true) (j : CacheIn c) :
    s.st0Req j = ⟨coreSt0Req j, false, false, false⟩ := by
  have hg := coreReqReady_iff.1 h
  have hr : s.rtab.popTryValid = false := hg.not_rtab
  have hs : s.scrub.reqValid = false := hg.not_scrub
  simp [st0Req, hr, hs]

theorem peIn_lateReq (h : (s.pe i).coreReqReady = true) (hi : LateReq i i' tag ph pma) :
    s.peIn i' =
      { s.peIn i with st0ReqIsUncacheable := (coreSt0Req i').pma.uncacheable } := by
  subst hi
  simp only [peIn, dataReadReq, st0Req_core h]
  cases c.lowLatency <;> rfl

/-- The first cycle is the same when stage 0 decodes the same or makes no lookup. -/
theorem sameView_lateReq (h : (s.pe i).coreReqReady = true) (hi : LateReq i i' tag ph pma)
    (hgate : i.coreReq.op.isWalk = true ∨
      (coreSt0Req i').pma.uncacheable = (coreSt0Req i).pma.uncacheable) :
    SameView s s i i' (s.st1Req i).req.physIndexed (s.st1Req i).req.pma where
  state := rfl
  input := by
    rw [hi]
    rfl
  pe := by
    unfold pe
    rw [peIn_lateReq h hi]
    rcases hgate with hop | heq
    · have hop0 : (s.st0Req i).req.op = i.coreReq.op := by
        rw [st0Req_core h]
        rfl
      refine hpdcacheCtrlPe_st0Uncacheable _ ?_ ?_
      · simp only [peIn, hop0]
        cases hc : i.coreReq.op <;> rw [hc] at hop <;> first | rfl | exact absurd hop (by decide)
      · simp only [peIn, hop0]
        cases hc : i.coreReq.op <;> rw [hc] at hop <;> first | rfl | exact absurd hop (by decide)
    · have hsame : (s.peIn i).st0ReqIsUncacheable = (coreSt0Req i').pma.uncacheable := by
        rw [heq]
        simp only [peIn, st0Req_core h]
      rw [← hsame]
  st0 := by
    rw [st0Req_core h, st0Req_core h, hi]
    exact ⟨rfl, rfl, rfl⟩
  st1 := by
    rw [hi]
    rfl
  pma := .inl rfl

/-! ## The request in its second cycle -/

theorem forceHint_forceHint (h : WrPolicyHint) : forceHint c (forceHint c h) = forceHint c h := by
  unfold forceHint
  cases c.wtEn <;> cases c.wbEn <;> rfl

/-- The request of the core in stage 1. -/
def coreCtrlReq (q : Req c) : CtrlReq c := ⟨q, false, false, false⟩

/-- The request as it stands in stage 1, virtually indexed: its tag and its attributes are still
those of the first cycle. -/
structure LateView (s s' : Cache c) (i i' : CacheIn c) (q : Req c) (tag : Nat) (pma : Pma)
    (u : Bool) : Prop where
  reqQ : ∃ pma, s.st1.reqQ = coreCtrlReq { q with physIndexed := false, pma := pma }
  state : s' = s.withSt1Req (coreCtrlReq
    { q with addrTag := tag, physIndexed := true, pma := ⟨u, forceHint c pma.wrPolicyHint⟩ })
  input : i' = withCore i i.coreReq i'.coreReqAbort i'.coreReqTag i'.coreReqPma
  abort : i.coreReqAbort = false
  tag : i.coreReqTag = tag
  pma : i.coreReqPma = pma

namespace LateView

variable {s' : Cache c} {q : Req c} {u : Bool} (h : LateView s s' i i' q tag pma u)
include h

theorem st1Req : s.st1Req i = coreCtrlReq
    { q with
      addrTag := tag, physIndexed := false
      pma := ⟨!i.cfgEnable || pma.uncacheable, forceHint c pma.wrPolicyHint⟩ } := by
  obtain ⟨p, hq⟩ := h.reqQ
  unfold Cache.st1Req st1Tag st1Pma
  rw [hq, h.tag, h.pma]
  rfl

theorem st1Req' : s'.st1Req i' = coreCtrlReq
    { q with
      addrTag := tag, physIndexed := true
      pma := ⟨!i.cfgEnable || u, forceHint c pma.wrPolicyHint⟩ } := by
  have hq : s'.st1.reqQ = coreCtrlReq
      { q with addrTag := tag, physIndexed := true, pma := ⟨u, forceHint c pma.wrPolicyHint⟩ } := by
    rw [h.state]
    rfl
  have hen : i'.cfgEnable = i.cfgEnable := by
    rw [h.input]
    rfl
  unfold Cache.st1Req st1Tag st1Pma
  rw [hq, hen]
  simp only [coreCtrlReq, if_true, forceHint_forceHint]
  rfl

theorem st1Req_eq : s'.st1Req i' =
    { s.st1Req i with
      req := { (s.st1Req i).req with
        physIndexed := true
        pma := ⟨!i.cfgEnable || u, forceHint c pma.wrPolicyHint⟩ } } := by
  rw [h.st1Req, h.st1Req']
  rfl

theorem abort_eq : s.st1ReqAbort i = false ∧ s'.st1ReqAbort i' = false := by
  unfold st1ReqAbort
  rw [h.abort, h.state]
  exact ⟨rfl, Bool.and_false _⟩

theorem st0Req_eq : s'.st0Req i' = s.st0Req i := by
  rw [h.state, h.input]
  rfl

theorem peIn_eq : s'.peIn i' =
    { s.peIn i with st1ReqIsUncacheable := s'.st1ReqIsUncacheable i' } := by
  have hab := h.abort_eq
  have hplace : (s'.dataReadReq i').req.size = (s.dataReadReq i).req.size ∧
      (s'.dataReadReq i').word = (s.dataReadReq i).word := by
    unfold dataReadReq
    rw [h.st0Req_eq, h.st1Req_eq]
    split_ifs
    · exact ⟨rfl, rfl⟩
    · exact ⟨rfl, rfl⟩
  have hreq := h.st1Req_eq
  have hpma : (s.st1Req i).req.pma.wrPolicyHint = forceHint c pma.wrPolicyHint := by
    rw [h.st1Req]
    rfl
  have hnline : s'.st1Nline i' = s.st1Nline i := by
    unfold st1Nline
    rw [hreq]
    rfl
  have hhit : s'.st1HitWay i' = s.st1HitWay i := by
    unfold st1HitWay
    rw [hreq, h.state]
    rfl
  have hvic : s'.st1VictimWay i' = s.st1VictimWay i := by
    unfold st1VictimWay
    rw [hreq, h.state]
    rfl
  simp only [peIn, hab.1, hab.2, h.st0Req_eq, hplace.1, hplace.2, hreq, hpma, hnline, hhit, hvic,
    st1DirHit, wbufTag]
  rw [h.state, h.input]
  rfl

theorem st1ReqIsUncacheable_eq : s.st1ReqIsUncacheable i = (!i.cfgEnable || pma.uncacheable) := by
  unfold st1ReqIsUncacheable
  rw [h.st1Req]
  cases i.cfgEnable <;> rfl

theorem st1ReqIsUncacheable_eq' : s'.st1ReqIsUncacheable i' = (!i.cfgEnable || u) := by
  have hen : i'.cfgEnable = i.cfgEnable := by
    rw [h.input]
    rfl
  unfold st1ReqIsUncacheable
  rw [h.st1Req', hen]
  cases i.cfgEnable <;> rfl

/-- The second cycle is the same when stage 1 decodes the same. -/
theorem sameView (hsafe : q.op.isWalk = true ∨
      (!i.cfgEnable || u) = (!i.cfgEnable || pma.uncacheable)) :
    SameView s s' i i' true ⟨!i.cfgEnable || u, forceHint c pma.wrPolicyHint⟩ := by
  have hop : q.op.isWalk = true → ((s.peIn i).st1ReqIsCmoInval ||
      (s.peIn i).st1ReqIsCmoFlush || (s.peIn i).st1ReqIsCmoFence) = true := by
    intro hw
    simp only [peIn, h.st1Req]
    exact hw
  refine ⟨by rw [h.state]; rfl, by rw [h.input]; rfl, ?_, ?_, h.st1Req_eq, ?_⟩
  · unfold pe
    rw [h.peIn_eq]
    rcases hsafe with hw | heq
    · exact hpdcacheCtrlPe_st1Uncacheable _ (hop hw)
    · have hsame : s'.st1ReqIsUncacheable i' = (s.peIn i).st1ReqIsUncacheable := by
        rw [h.st1ReqIsUncacheable_eq', heq]
        exact h.st1ReqIsUncacheable_eq.symm
      rw [hsame]
  · rw [h.st0Req_eq]
    exact ⟨rfl, rfl, rfl⟩
  · rcases hsafe with hw | heq
    · exact .inr (hpdcacheCtrlPe_walk (hop hw))
    · left
      rw [h.st1Req, heq]
      rfl

end LateView

/-! ## The pipeline after a grant -/

/-- After a grant to the core, neither the refill FSM nor the flush controller owns the
pipeline. -/
theorem normal_of_coreReqReady (h : (s.pe i).coreReqReady = true) (hcmo : s.cmo.HoldsFlush)
    (j : CacheIn c) : ((s.step i).peIn j).normal = true := by
  have hg := coreReqReady_iff.1 h
  have hn : s.normal = true := hg.normal
  have hrefill : (s.pe i).refillReqReady = false := by
    by_contra hr
    have hgr := refillReqReady_iff.1 (eq_true_of_ne_false hr)
    exact absurd (hgr.valid.symm.trans hg.not_refill) (by decide)
  have hst2 : s.st2Busy = false := PeIn.noNop_st2 hg.noNop
  simp only [st2Busy, Bool.or_eq_false_iff] at hst2
  have hready : s.cmoBusy = false := hg.not_cmo
  have hidle : s.cmo.fsmQ = .idle := by
    simp only [cmoBusy, Cmo.reqReady, Bool.not_eq_false', Bool.and_eq_true,
      decide_eq_true_eq] at hready
    exact hready.1
  -- neither stage 2 nor the CMO handler has a line to flush
  have hflush := flushBusy_step (i := i) hcmo (normal_iff.1 hn).2.2 hst2.1.2 (by rw [hidle]; rfl)
  exact normal_step hn hrefill hflush

/-- In the cycle after a grant stage 1 holds what was granted, or nothing. -/
theorem stepSt1_of_normal (hn : (s.peIn i).normal = true) (h : (s.stepSt1 i).reqValidQ = true) :
    (s.stepSt1 i).reqQ = s.st0Req i := by
  have hg : ((s.pe i).coreReqReady || (s.pe i).rtabReqReady) = true :=
    (hpdcacheCtrlPe_st1ReqValid hn).symm.trans h
  unfold stepSt1
  rw [if_pos hg]

end Cache

/-! ## The two runs -/

namespace TopIn

variable (i : TopIn c) (r : Fin c.nRequesters)

/-- The requester `r` shows the request `q`. -/
def withReq (q : Req c) : TopIn c :=
  { i with core := { i.core with req := Function.update i.core.req r q } }

/-- The requester `r` gives the tag and the attributes of its request of the previous cycle. -/
def withLate (tag : Nat) (pma : Pma) : TopIn c :=
  { i with
    core := { i.core with
      abort := Function.update i.core.abort r false
      tag := Function.update i.core.tag r tag
      pma := Function.update i.core.pma r pma } }

end TopIn

/-- The request with its tag and its attributes to come. -/
def Req.virt (q : Req c) : Req c := { q with physIndexed := false }

/-- The request with its tag and its attributes. -/
def Req.phys (q : Req c) (tag : Nat) (pma : Pma) : Req c :=
  { q with addrTag := tag, physIndexed := true, pma := pma }

namespace Top

/-- Virtually indexed, with what it shows of its tag and of its attributes in the first cycle, the
request of the requester `r` does the same as physically indexed: the outputs of both cycles and
the state after them are the same. -/
structure AgreesPhys (t : Top c) (r : Fin c.nRequesters) (q : Req c) (tag : Nat) (pma : Pma)
    (i1 i2 : TopIn c) : Prop where
  out1 : t.out (i1.withReq r (q.phys tag pma)) = t.out (i1.withReq r q.virt)
  out2 : (t.step (i1.withReq r (q.phys tag pma))).out i2 =
    (t.step (i1.withReq r q.virt)).out (i2.withLate r tag pma)
  arb : ((t.step (i1.withReq r (q.phys tag pma))).step i2).arb =
    ((t.step (i1.withReq r q.virt)).step (i2.withLate r tag pma)).arb
  cache : ((t.step (i1.withReq r (q.phys tag pma))).step i2).cache.visible =
    ((t.step (i1.withReq r q.virt)).step (i2.withLate r tag pma)).cache.visible

end Top

/-- Nothing is decided in stage 0 on attributes that are not those of the request: it is a CMO that
is not looked up, or it shows, virtually indexed, whether it is uncacheable; and the cache is not
enabled between its two cycles. -/
def LateSafe (q : Req c) (pma : Pma) (en1 en2 : Bool) : Prop :=
  q.op.isWalk = true ∨
    (if en1 then q.pma.uncacheable = pma.uncacheable else en2 = true → pma.uncacheable = true)

section
variable {t : Top c} {i1 i2 : TopIn c} {r : Fin c.nRequesters} {q : Req c} {tag : Nat} {pma : Pma}

namespace Top

theorem cacheIn_withReq (h : t.Inv) (hr : t.arb.gnt i1.core r = true) :
    t.cacheIn (i1.withReq r q) = Cache.withReq (t.cacheIn i1) q := by
  have hreq : t.arb.req (i1.withReq r q).core = q :=
    (CoreArb.select_of_gnt (FxArb.oneHot_gnt h.arb) hr _ _).trans (Function.update_self ..)
  unfold cacheIn
  rw [hreq]
  rfl

theorem cacheIn_withLate (hg : OneHot t.arb.gntQ) (hr : t.arb.gntQ r = true) :
    t.cacheIn (i2.withLate r tag pma) =
      Cache.withCore (t.cacheIn i2) (t.cacheIn i2).coreReq false tag pma := by
  have hab : t.arb.abort (i2.withLate r tag pma).core = false :=
    (CoreArb.select_of_gnt hg hr _ _).trans (Function.update_self ..)
  have htag : t.arb.tag (i2.withLate r tag pma).core = tag :=
    (CoreArb.select_of_gnt hg hr _ _).trans (Function.update_self ..)
  have hpma : t.arb.pma (i2.withLate r tag pma).core = pma :=
    (CoreArb.select_of_gnt hg hr _ _).trans (Function.update_self ..)
  unfold cacheIn
  rw [hab, htag, hpma]
  rfl

/-- The agreement of the two ways to index a request that is safe. -/
theorem agreesPhys_of_lateSafe (h : t.Inv) (hacc : t.accepts (i1.withReq r q.virt) r = true)
    (hs : LateSafe q pma i1.rest.cfgEnable i2.rest.cfgEnable) :
    t.AgreesPhys r q tag pma i1 i2 := by
  unfold accepts at hacc
  rw [Bool.and_eq_true] at hacc
  obtain ⟨hr, hready⟩ := hacc
  have hr : t.arb.gnt i1.core r = true := hr
  have hready : (t.cache.pe (t.cacheIn (i1.withReq r q.virt))).coreReqReady = true := hready
  rw [cacheIn_withReq h hr] at hready
  -- the first cycle
  obtain ⟨v1, hv1⟩ : ∃ v1, v1 = Cache.withReq (t.cacheIn i1) q.virt := ⟨_, rfl⟩
  obtain ⟨p1, hp1⟩ : ∃ p1, p1 = Cache.withReq (t.cacheIn i1) (q.phys tag pma) := ⟨_, rfl⟩
  rw [← hv1] at hready
  have hgate : v1.coreReq.op.isWalk = true ∨
      (Cache.coreSt0Req p1).pma.uncacheable = (Cache.coreSt0Req v1).pma.uncacheable := by
    rw [hv1, hp1]
    refine hs.imp id fun hpma => ?_
    change (!i1.rest.cfgEnable || pma.uncacheable) = (!i1.rest.cfgEnable || q.pma.uncacheable)
    cases hen : i1.rest.cfgEnable with
    | false => rfl
    | true =>
      rw [hen, if_pos rfl] at hpma
      rw [hpma]
  have hlate1 : Cache.LateReq v1 p1 tag true pma := by
    rw [hv1, hp1]
    rfl
  have hview1 := Cache.sameView_lateReq hready hlate1 hgate
  have hrtab : t.cache.rtabIn p1 = t.cache.rtabIn v1 := by
    rw [hview1.rtabIn, hview1.st1]
    rfl
  obtain ⟨s, hs1⟩ : ∃ s, s = t.cache.step v1 := ⟨_, rfl⟩
  obtain ⟨s', hs1'⟩ : ∃ s', s' = t.cache.step p1 := ⟨_, rfl⟩
  have hreadyp : (t.cache.pe p1).coreReqReady = true := by
    rw [hview1.pe]
    exact hready
  have hreq : (t.cache.stepSt1 v1).reqQ = Cache.coreCtrlReq (Cache.coreSt0Req v1) := by
    unfold Cache.stepSt1
    rw [hready, Bool.true_or, if_pos rfl, Cache.st0Req_core hready]
    rfl
  have hreqp : (t.cache.stepSt1 p1).reqQ = Cache.coreCtrlReq (Cache.coreSt0Req p1) := by
    unfold Cache.stepSt1
    rw [hreadyp, Bool.true_or, if_pos rfl, Cache.st0Req_core hreadyp]
    rfl
  have hstate : s' = s.withSt1Req (Cache.coreCtrlReq (Cache.coreSt0Req p1)) := by
    rw [hs1, hs1', hview1.step, hrtab, hreqp]
    rfl
  have hstep1 : (t.step (i1.withReq r (q.phys tag pma))).cache = s' := by
    rw [hs1', hp1, ← cacheIn_withReq h hr]
    rfl
  have hstep : (t.step (i1.withReq r q.virt)).cache = s := by
    rw [hs1, hv1, ← cacheIn_withReq h hr]
    rfl
  have hout1 : t.out (i1.withReq r (q.phys tag pma)) = t.out (i1.withReq r q.virt) := by
    unfold out
    rw [cacheIn_withReq h hr, cacheIn_withReq h hr, ← hp1, ← hv1]
    exact hview1.out
  have harb : (t.step (i1.withReq r (q.phys tag pma))).arb = (t.step (i1.withReq r q.virt)).arb := by
    unfold step
    rw [hout1]
    rfl
  -- the second cycle
  obtain ⟨a, ha⟩ : ∃ a, a = (t.step (i1.withReq r q.virt)).arb := ⟨_, rfl⟩
  have hgq : a.gntQ = t.arb.gnt i1.core := by
    rw [ha]
    rfl
  have hV : t.step (i1.withReq r q.virt) = ⟨a, s⟩ := by rw [ha, ← hstep]
  have hP : t.step (i1.withReq r (q.phys tag pma)) = ⟨a, s'⟩ := by rw [ha, ← harb, ← hstep1]
  obtain ⟨jv, hjv⟩ : ∃ jv, jv = (⟨a, s⟩ : Top c).cacheIn (i2.withLate r tag pma) := ⟨_, rfl⟩
  obtain ⟨jp, hjp⟩ : ∃ jp, jp = (⟨a, s'⟩ : Top c).cacheIn i2 := ⟨_, rfl⟩
  have hlate : (⟨a, s⟩ : Top c).cacheIn (i2.withLate r tag pma) =
      Cache.withCore ((⟨a, s⟩ : Top c).cacheIn i2) ((⟨a, s⟩ : Top c).cacheIn i2).coreReq
        false tag pma :=
    cacheIn_withLate (by rw [hgq]; exact FxArb.oneHot_gnt h.arb) (by rw [hgq]; exact hr)
  rw [← hjv] at hlate
  have hlv : Cache.LateView s s' jv jp q tag pma (!i1.rest.cfgEnable || pma.uncacheable) := by
    refine ⟨⟨(Cache.coreSt0Req v1).pma, ?_⟩, ?_, ?_, ?_, ?_, ?_⟩
    · rw [hs1]
      change (t.cache.stepSt1 v1).reqQ = _
      rw [hreq, hv1]
      rfl
    · rw [hstate, hp1]
      rfl
    · rw [hlate, hjp]
      rfl
    · rw [hlate]; rfl
    · rw [hlate]; rfl
    · rw [hlate]; rfl
  have hen : jv.cfgEnable = i2.rest.cfgEnable := by
    rw [hlate]
    rfl
  have hview2 := hlv.sameView <| by
    rw [hen]
    refine hs.imp id fun hpma => ?_
    cases hen1 : i1.rest.cfgEnable with
    | true => rfl
    | false =>
      rw [hen1, if_neg (by decide)] at hpma
      cases hen2 : i2.rest.cfgEnable with
      | false => rfl
      | true => rw [hpma hen2]; rfl
  have hout2 : (⟨a, s'⟩ : Top c).out i2 = (⟨a, s⟩ : Top c).out (i2.withLate r tag pma) := by
    unfold out
    rw [← hjv, ← hjp]
    exact hview2.out
  refine ⟨hout1, by rw [hV, hP]; exact hout2, ?_, ?_⟩
  · rw [hV, hP]
    unfold step
    rw [hout2]
    rfl
  · rw [hV, hP]
    change (s'.step _).visible = (s.step _).visible
    rw [← hjv, ← hjp]
    refine hview2.visible fun hval => ?_
    have hn : (s.peIn jv).normal = true := by
      rw [hs1]
      exact Cache.normal_of_coreReqReady hready h.cmo jv
    have hn' : (s'.peIn jp).normal = true := by
      rw [hs1']
      exact Cache.normal_of_coreReqReady hreadyp h.cmo jp
    have hval' : (s'.stepSt1 jp).reqValidQ = true := by
      unfold Cache.stepSt1
      rw [hview2.pe]
      exact hval
    rw [Cache.stepSt1_of_normal hn hval, Cache.stepSt1_of_normal hn' hval', hlv.st0Req_eq]

end Top

/-! ## Attributes that are read too early

In a state where the MSHR is not empty and holds other entries than those that were read last, what
stage 0 looks up and what stage 1 decodes both show. -/

variable (c) in
def lateState : Top c where
  arb := CoreArb.reset c
  cache :=
    { Cache.quiet c with
      miss := { Cache.blankMiss c with
        mshr := { (Cache.blankMiss c).mshr with
          validQ := fun _ _ => true
          ram := fun _ _ => { MshrEntry.zero c with tag := 1 } } } }

variable (c) in
theorem inv_lateState : (lateState c).Inv where
  arb := nofun
  cmo := fun h => absurd rfl h

/-- The requester `r` shows a request. -/
def lateIn1 (r : Fin c.nRequesters) (en : Bool) : TopIn c where
  core := { CoreIn.idle c with valid := fun r' => decide (r' = r) }
  rest := { CacheIn.idle c with cfgEnable := en }

def lateIn2 (c : Cfg) (en : Bool) : TopIn c where
  core := CoreIn.idle c
  rest := { CacheIn.idle c with cfgEnable := en }

theorem gnt_lateState (en : Bool) : (lateState c).arb.gnt (lateIn1 r en).core r = true := by
  have hf : first? (fun r' : Fin c.nRequesters => decide (r' = r)) = some r :=
    first?_of_forall fun j => by simp
  simp [CoreArb.gnt, lateState, CoreArb.reset, FxArb.gnt, FxArb.reset, lateIn1, prio, hf]

/-- A request in the late state is granted. -/
theorem grant_lateState {i : CacheIn c} (hv : i.coreReqValid = true) :
    ((lateState c).cache.pe i).coreReqReady = true := by
  refine coreReqReady_iff.2 ⟨⟨?_, ?_, ?_, ?_, ?_, ?_, ?_, ?_, ?_⟩, hv, ?_⟩
  · simp [PeIn.normal, Cache.peIn, lateState, Cache.quiet, Cache.blank, Cache.blankMem,
      Cache.blankMiss, MissHandler.refillBusy, Cache.flushBusy, Cache.blankFlush, Flush.busy]
  · simp [Cache.peIn, lateState, Cache.quiet, Cache.blank, Cache.blankRtab, Rtab.popTryValid, any,
      Rtab.ready]
  · simp [Cache.peIn, lateState, MissHandler.refillReqValid, MissHandler.metaRok,
      Cache.blankMiss]
  · have h0 : any (fun _ : Fin c.rtabEntries => false) = false := by simp [any]
    have h1 : all (fun _ : Fin c.rtabEntries => false) = false :=
      all_eq_false.2 ⟨⟨0, c.rtabEntries_pos⟩, rfl⟩
    simp [Cache.peIn, lateState, Cache.quiet, Cache.blank, Cache.blankRtab, Rtab.full, h0, h1]
  · simp [Cache.peIn, lateState, Cache.quiet, Cache.blank, Cache.blankCmo, Cache.cmoBusy,
      Cmo.reqReady, Cmo.rspRok]
  · simp [Cache.peIn, lateState, Cache.quiet, Cache.blank, Cache.blankUc, Cache.ucBusy,
      Uncached.ready]
  · simp [Cache.peIn, lateState, Cache.quiet, Cache.blank, Cache.blankErr, ErrFsm.busy]
  · simp [Cache.peIn, lateState, Cache.quiet, Cache.blank, Cache.blankRtab, Rtab.fence,
      Rtab.fenceBv, any]
  · rfl
  · simp [Cache.peIn, lateState, Cache.quiet, Cache.blank, Scrub.reqValid, Scrub.reset]

/-- Without a response to take nor an entry to allocate, only a check reads the MSHR. -/
theorem mshr_rentry_step {s : Cache c} {i : CacheIn c} (hn : (s.peIn i).normal = true)
    (hs : s.st1.reqQ.errScrubbing = false) (hfsm : s.miss.refillFsmQ = .idle)
    (hresp : s.miss.respFifo = []) (halloc : s.st2.mshrAllocQ = false) :
    (s.step i).miss.mshr.rentry =
      if (s.pe i).st0ReqMshrCheck then
        s.miss.mshr.ram (mshrSetOf c (s.st0Req i).req.addrSet)
      else s.miss.mshr.rentry := by
  have hcs : (s.pe i).st2MshrAlloc.cs = false := by
    rw [(Cache.pe_agrees hn hs).mshrAlloc]
    cases s.dec i <;> exact halloc
  have hcomb : ∀ j, s.miss.refillComb j = s.miss.refillDefault := by
    intro j
    simp [MissHandler.refillComb, MissHandler.refillIdle, MissHandler.metaRok, hfsm, hresp]
  change (s.miss.mshr.step (s.miss.mshrIn (s.missIn i))).rentry = _
  simp only [Mshr.step, Mshr.cs, Mshr.addr, MissHandler.mshrIn, hcomb, Cache.missIn, hcs, halloc,
    MissHandler.refillDefault]
  cases (s.pe i).st0ReqMshrCheck <;> simp

/-- The request in stage 1 of a cache whose MSHR is not empty and whose replay table is empty: it
goes in the replay table if it shows as uncacheable. -/
theorem uncacheable_held {s : Cache c} {i : CacheIn c} {q : Req c} (hn : (s.peIn i).normal = true)
    (hv : s.st1.reqValidQ = true) (hq : s.st1.reqQ = Cache.coreCtrlReq q)
    (hab : s.st1ReqAbort i = false) (hop : q.op.isWalk = false)
    (hu : s.st1ReqIsUncacheable i = true) (hm : s.mshrEmpty = false) :
    (s.pe i).st1RtabAlloc = true := by
  have hr : (s.st1Req i).fromRtab = false := by
    simp [Cache.st1Req, hq, Cache.coreCtrlReq]
  have he : (s.st1Req i).isError = false := by
    simp [Cache.st1Req, hq, Cache.coreCtrlReq]
  have ho : (s.st1Req i).req.op = q.op := by
    simp [Cache.st1Req, hq, Cache.coreCtrlReq]
  have hw : ((s.peIn i).st1ReqIsCmoInval || (s.peIn i).st1ReqIsCmoFlush ||
      (s.peIn i).st1ReqIsCmoFence) = false := by
    simp only [Cache.peIn, ho]
    exact hop
  have hfence : (s.peIn i).st1Fence = true := by
    have hu' : (s.peIn i).st1ReqIsUncacheable = true := hu
    simp [PeIn.st1Fence, hu']
  have hpend : (s.peIn i).st1NoPendTrans = false := by
    change s.st1NoPendTrans = false
    simp [Cache.st1NoPendTrans, hm]
  have hd : s.dec i = .hold {} := by
    have h1 : (s.peIn i).st1ReqValid = true := hv
    have h2 : (s.peIn i).st1ReqAbort = false := hab
    have h3 : (s.peIn i).st1ReqIsError = false := he
    have h4 : (s.peIn i).st1ReqRtab = false := hr
    have h5 : (s.peIn i).st1ReqIsUncacheable = true := hu
    simp [Cache.dec, decision, decisionUncacheable, h1, h2, h3, h4, h5, hw, hfence, hpend]
  rw [(Cache.pe_agrees hn (by rw [hq]; rfl)).alloc, hd]
  have h4 : (s.peIn i).st1ReqRtab = false := hr
  simp [Decision.holds, h4]

/-- The late state after the first cycle of the request `q`. -/
structure LateStep (s : Cache c) (q : Req c) : Prop where
  reqValid : s.st1.reqValidQ = true
  reqQ : s.st1.reqQ = Cache.coreCtrlReq q
  refillFsm : s.miss.refillFsmQ = .idle
  respFifo : s.miss.respFifo = []
  mshrAlloc : s.st2.mshrAllocQ = false
  mshr : s.mshrEmpty = false
  rtab : ∀ k, s.rtab.validQ k = false
  rtabReq : ∀ k, (s.rtab.reqQ k).req.req.pma.uncacheable = false
  popState : s.rtab.popStateQ = .head
  scrub : s.scrub.reqValid = false

theorem lateStep {i : CacheIn c} (hv : i.coreReqValid = true) (hresp : i.missResp = none)
    (hscrub : i.cfgScrubEnable = false) :
    LateStep ((lateState c).cache.step i) (Cache.coreSt0Req i) := by
  have hg := grant_lateState hv
  have hn := (coreReqReady_iff.1 hg).normal
  have hpe := Cache.pe_agrees (s := (lateState c).cache) hn rfl
  have hidle : (lateState c).cache.dec i = .idle := rfl
  rw [hidle] at hpe
  have hcomb : ∀ j, (lateState c).cache.miss.refillComb j =
      (lateState c).cache.miss.refillDefault := fun _ => rfl
  have hvalid : ((lateState c).cache.pe i).st1ReqValid = true := by
    unfold Cache.pe at hg ⊢
    rw [hpdcacheCtrlPe_normal hn] at hg ⊢
    change (newRequest c _ (stage1 c _)).coreReqReady = true at hg
    change ((newRequest c _ (stage1 c _)).coreReqReady || _) = true
    rw [hg]
    rfl
  have halloc : ∀ k, (lateState c).cache.rtab.allocBv ((lateState c).cache.rtabIn i) k = false := by
    intro k
    have h1 : ((lateState c).cache.rtabIn i).alloc = false := hpe.alloc
    have h2 : ((lateState c).cache.rtabIn i).allocAndLink = false := hpe.link
    simp [Rtab.allocBv, h1, h2]
  have hrback : ∀ k, Rtab.rbackBv ((lateState c).cache.rtabIn i) k = false := by
    intro k
    have h1 : ((lateState c).cache.rtabIn i).popRback = false := hpe.rback
    simp [Rtab.rbackBv, h1]
  refine ⟨hvalid, ?_, ?_, ?_, ?_, ?_, ?_, ?_, ?_, ?_⟩
  · change ((lateState c).cache.stepSt1 i).reqQ = _
    unfold Cache.stepSt1
    rw [hg, Bool.true_or, if_pos rfl, Cache.st0Req_core hg]
    rfl
  · change ((lateState c).cache.miss.refillComb ((lateState c).cache.missIn i)).fsmD = .idle
    rw [hcomb]
    rfl
  · have hstep : ((lateState c).cache.step i).miss.respFifo =
        Fifo.step c.refillFifoDepth false (lateState c).cache.miss.respFifo i.missResp
          ((lateState c).cache.miss.refillComb ((lateState c).cache.missIn i)).metaR := rfl
    rw [hstep, hresp]
    exact Fifo.step_nil_none
  · change ((lateState c).cache.pe i).st2MshrAlloc.alloc = false
    rw [hpe.mshrAlloc]
    rfl
  · have hvq : ((lateState c).cache.step i).miss.mshr.validQ ⟨0, c.mshrSets_pos⟩
        ⟨0, c.mshrWays_pos⟩ = true := by
      have hq : (lateState c).cache.miss.mshr.validQ ⟨0, c.mshrSets_pos⟩
          ⟨0, c.mshrWays_pos⟩ = true := rfl
      simp only [Cache.step, MissHandler.step, Mshr.step, MissHandler.mshrIn, hcomb, hq,
        setRst_true_left]
      rfl
    simp only [Cache.mshrEmpty, MissHandler.empty, Mshr.empty, Bool.and_eq_false_iff,
      decide_eq_false_iff_not]
    exact .inl fun h => by rw [h] at hvq; contradiction
  · intro k
    change setRst false ((lateState c).cache.rtab.allocBv _ k) _ = false
    rw [halloc, setRst_false_left]
  · intro k
    change (if _ then _ else (lateState c).cache.rtab.reqQ k).req.req.pma.uncacheable = false
    rw [halloc, hrback]
    rfl
  · change (if _ && _ then PopTryState.next else PopTryState.head) = PopTryState.head
    have hmore : (lateState c).cache.rtab.popTryValid = false := by
      simp [lateState, Cache.quiet, Cache.blank, Cache.blankRtab, Rtab.popTryValid, any, Rtab.ready]
    simp [Rtab.popHead, hmore]
  · have hsc : ((lateState c).cache.step i).scrub.fsmQ = .idle := by
      change (if i.cfgScrubEnable then _ else Scrub.reset c : Scrub c).fsmQ = .idle
      rw [hscrub]
      rfl
    simp [Scrub.reqValid, hsc]

/-- In the second cycle nothing is granted. -/
theorem LateStep.rentry {s : Cache c} {j : CacheIn c} (h : LateStep s q)
    (hn : (s.peIn j).normal = true) (hv : j.coreReqValid = false) :
    (s.step j).miss.mshr.rentry = s.miss.mshr.rentry := by
  have hpop : s.rtab.popTryValid = false := by
    have hr : any s.rtab.ready = false := by
      rw [any_eq_false]
      intro k
      simp [Rtab.ready, h.rtab k]
    simp [Rtab.popTryValid, h.popState, hr]
  have hcheck : (s.pe j).st0ReqMshrCheck = false := by
    have h1 : (s.peIn j).coreReqValid = false := hv
    have h2 : (s.peIn j).rtabReqValid = false := hpop
    have h3 : (s.peIn j).scrubReqValid = false := h.scrub
    unfold Cache.pe
    rw [hpdcacheCtrlPe_normal hn]
    simp [newRequest, h1, h2, h3]
  rw [mshr_rentry_step hn (by rw [h.reqQ]; rfl) h.refillFsm h.respFifo h.mshrAlloc, hcheck]
  rfl

/-- A request that is looked up checks the MSHR when it shows as cacheable, which reads other
entries. -/
theorem lateState_rentry {i : CacheIn c} (hv : i.coreReqValid = true)
    (hop : i.coreReq.op.isWalk = false) (w : Fin c.mshrWays) :
    (((lateState c).cache.step i).miss.mshr.rentry w).tag =
      if (Cache.coreSt0Req i).pma.uncacheable then 0 else 1 := by
  have hg := grant_lateState hv
  have hcore := coreReqReady_iff.1 hg
  have hst0 := Cache.st0Req_core hg i
  have hlookup : (((lateState c).cache.peIn i).st0ReqIsLoad ||
      ((lateState c).cache.peIn i).st0ReqIsCmoPrefetch ||
      ((lateState c).cache.peIn i).st0ReqIsStore ||
      ((lateState c).cache.peIn i).st0ReqIsAmo) = true := by
    simp only [Cache.peIn, hst0, Cache.coreSt0Req]
    cases hc : i.coreReq.op <;> rw [hc] at hop <;> first | rfl | exact absurd hop (by decide)
  have hcheck : ((lateState c).cache.pe i).st0ReqMshrCheck =
      !(Cache.coreSt0Req i).pma.uncacheable := by
    have he : ((lateState c).cache.peIn i).st0ReqIsError = false := by
      simp only [Cache.peIn, hst0]
    have hu : ((lateState c).cache.peIn i).st0ReqIsUncacheable =
        (Cache.coreSt0Req i).pma.uncacheable := by
      simp only [Cache.peIn, hst0]
    unfold Cache.pe
    rw [hcore.st0ReqMshrCheck he, hlookup, hu, Bool.true_and]
  rw [mshr_rentry_step hcore.normal rfl rfl rfl rfl, hcheck]
  cases (Cache.coreSt0Req i).pma.uncacheable <;> rfl

/-- A request that shows as uncacheable in stage 1 is put on hold as such. -/
theorem LateStep.held {s : Cache c} {j : CacheIn c} (h : LateStep s q)
    (hn : (s.peIn j).normal = true) (hab : s.st1ReqAbort j = false) (hop : q.op.isWalk = false)
    (hu : (s.st1Req j).req.pma.uncacheable = true) :
    ((s.step j).rtab.reqQ ⟨0, c.rtabEntries_pos⟩).req.req.pma.uncacheable = true := by
  have halloc : (s.rtabIn j).alloc = true :=
    uncacheable_held hn h.reqValid h.reqQ hab hop
      (by simp [Cache.st1ReqIsUncacheable, hu]) h.mshr
  have hfree : s.rtab.freeAlloc ⟨0, c.rtabEntries_pos⟩ = true := by
    rw [Rtab.freeAlloc, prio_eq_true, first?, List.find?_eq_some_iff_getElem]
    refine ⟨by simp [h.rtab], 0, by simpa using c.rtabEntries_pos, by simp, by simp⟩
  have hbv : s.rtab.allocBv (s.rtabIn j) ⟨0, c.rtabEntries_pos⟩ = true := by
    simp [Rtab.allocBv, hfree, halloc]
  simp only [Cache.step, Rtab.step, hbv, Bool.true_or, if_true]
  exact hu

theorem LateStep.not_held {s : Cache c} {j : CacheIn c} (h : LateStep s q)
    (hu : (s.st1Req j).req.pma.uncacheable = false) (k : Fin c.rtabEntries) :
    ((s.step j).rtab.reqQ k).req.req.pma.uncacheable = false := by
  simp only [Cache.step, Rtab.step]
  split_ifs
  · exact hu
  · exact h.rtabReq k

theorem lateSafe_of_agreesPhys {en1 en2 : Bool}
    (H : ∀ (t : Top c) i1 i2, t.Inv → t.accepts (i1.withReq r q.virt) r = true →
      i1.rest.cfgEnable = en1 → i2.rest.cfgEnable = en2 → t.AgreesPhys r q tag pma i1 i2) :
    LateSafe q pma en1 en2 := by
  by_contra hns
  unfold LateSafe at hns
  rw [not_or, Bool.not_eq_true] at hns
  obtain ⟨hop, hpma⟩ := hns
  have hinv := inv_lateState c
  have hr := gnt_lateState (c := c) (r := r) en1
  have hvalid : ((lateState c).cacheIn (lateIn1 r en1)).coreReqValid = true :=
    any_eq_true.2 ⟨r, hr⟩
  have hstep : ∀ q', (lateState c).accepts ((lateIn1 r en1).withReq r q') r = true ∧
      ∃ a, (lateState c).step ((lateIn1 r en1).withReq r q') =
        ⟨a, (lateState c).cache.step
          (Cache.withReq ((lateState c).cacheIn (lateIn1 r en1)) q')⟩ ∧
        a.gntQ = (lateState c).arb.gnt (lateIn1 r en1).core ∧
        any (a.gnt (CoreIn.idle c)) = false := by
    intro q'
    have hg : ((lateState c).out ((lateIn1 r en1).withReq r q')).coreReqReady = true := by
      unfold Top.out
      rw [Top.cacheIn_withReq hinv hr]
      exact grant_lateState hvalid
    refine ⟨Bool.and_eq_true_iff.2 ⟨hr, hg⟩, (lateState c).arb.step _ true, ?_, rfl, ?_⟩
    · unfold Top.step
      rw [hg, Top.cacheIn_withReq hinv hr]
      rfl
    · change any (prio fun _ => false) = false
      rw [any_prio]
      exact any_eq_false.2 fun _ => rfl
  obtain ⟨hacc, a, hV, hgq, hany⟩ := hstep q.virt
  obtain ⟨-, a', hP, hgq', hany'⟩ := hstep (q.phys tag pma)
  have hcache := (H (lateState c) (lateIn1 r en1) (lateIn2 c en2) hinv hacc rfl rfl).cache
  rw [hV, hP] at hcache
  obtain ⟨v1, hv1⟩ : ∃ v1, v1 =
    Cache.withReq ((lateState c).cacheIn (lateIn1 r en1)) q.virt := ⟨_, rfl⟩
  obtain ⟨p1, hp1⟩ : ∃ p1, p1 =
    Cache.withReq ((lateState c).cacheIn (lateIn1 r en1)) (q.phys tag pma) := ⟨_, rfl⟩
  rw [← hv1, ← hp1] at hcache
  have hvv : v1.coreReqValid = true := by rw [hv1]; exact hvalid
  have hvp : p1.coreReqValid = true := by rw [hp1]; exact hvalid
  have hsv := lateStep hvv (by rw [hv1]; rfl) (by rw [hv1]; rfl)
  have hsp := lateStep hvp (by rw [hp1]; rfl) (by rw [hp1]; rfl)
  have huv : (Cache.coreSt0Req v1).pma.uncacheable = (!en1 || q.pma.uncacheable) := by
    rw [hv1]
    rfl
  have hup : (Cache.coreSt0Req p1).pma.uncacheable = (!en1 || pma.uncacheable) := by
    rw [hp1]
    rfl
  have hnv := Cache.normal_of_coreReqReady (grant_lateState hvv) hinv.cmo
  have hnp := Cache.normal_of_coreReqReady (grant_lateState hvp) hinv.cmo
  cases hen : en1 with
  | true =>
    -- one of the two checks the MSHR, the other does not
    rw [hen, if_pos rfl] at hpma
    have hrentry := congrArg
      (fun x : Cache c => (x.miss.mshr.rentry ⟨0, c.mshrWays_pos⟩).tag) hcache
    change ((Cache.step _ _).miss.mshr.rentry _).tag = ((Cache.step _ _).miss.mshr.rentry _).tag
      at hrentry
    rw [hsv.rentry (hnv _) hany, hsp.rentry (hnp _) hany',
      lateState_rentry hvv (by rw [hv1]; exact hop), lateState_rentry hvp (by rw [hp1]; exact hop),
      huv, hup, hen] at hrentry
    cases hq : q.pma.uncacheable <;> cases hp : pma.uncacheable <;> simp_all
  | false =>
    -- the cache is enabled in between: one shows as uncacheable in stage 1, the other does not
    rw [hen, if_neg (by decide)] at hpma
    obtain ⟨hen2, hunc⟩ : en2 = true ∧ pma.uncacheable = false := by simpa using hpma
    have hreq := congrArg
      (fun x : Cache c => (x.rtab.reqQ ⟨0, c.rtabEntries_pos⟩).req.req.pma.uncacheable) hcache
    change ((Cache.step _ _).rtab.reqQ _).req.req.pma.uncacheable =
      ((Cache.step _ _).rtab.reqQ _).req.req.pma.uncacheable at hreq
    rw [hsp.held (hnp _) ?_ (by rw [hp1]; exact hop) ?_, hsv.not_held ?_] at hreq
    · contradiction
    · have hg : OneHot a.gntQ := by
        rw [hgq]
        exact FxArb.oneHot_gnt hinv.arb
      have hlate : (⟨a, (lateState c).cache.step v1⟩ : Top c).cacheIn
          ((lateIn2 c en2).withLate r tag pma) =
          Cache.withCore ((⟨a, (lateState c).cache.step v1⟩ : Top c).cacheIn (lateIn2 c en2))
            ((⟨a, (lateState c).cache.step v1⟩ : Top c).cacheIn (lateIn2 c en2)).coreReq
            false tag pma :=
        Top.cacheIn_withLate hg (by rw [hgq]; exact hr)
      have hph : (Cache.coreSt0Req v1).physIndexed = false := by
        rw [hv1]
        rfl
      rw [hlate, hen2]
      simp [Cache.st1Req, Cache.st1Pma, hsv.reqQ, Cache.coreCtrlReq, hph, Cache.withCore, hunc,
        Top.cacheIn, lateIn2, CacheIn.idle]
    · have hph : (Cache.coreSt0Req p1).physIndexed = true := by
        rw [hp1]
        rfl
      simp [Cache.st1ReqAbort, hsp.reqQ, Cache.coreCtrlReq, hph]
    · have hph : (Cache.coreSt0Req p1).physIndexed = true := by
        rw [hp1]
        rfl
      rw [hen] at hup
      simp [Cache.st1Req, Cache.st1Pma, hsp.reqQ, Cache.coreCtrlReq, hph, hup]

end

/-- A request does the same in every state, whichever way it is indexed, if and only if nothing is
decided on the attributes that it shows too early. -/
theorem agreesPhys_iff (r : Fin c.nRequesters) (q : Req c) (tag : Nat) (pma : Pma)
    (en1 en2 : Bool) :
    (∀ (t : Top c) i1 i2, t.Inv → t.accepts (i1.withReq r q.virt) r = true →
      i1.rest.cfgEnable = en1 → i2.rest.cfgEnable = en2 → t.AgreesPhys r q tag pma i1 i2) ↔
      LateSafe q pma en1 en2 := by
  refine ⟨lateSafe_of_agreesPhys, fun hs t i1 i2 ht hacc h1 h2 => ?_⟩
  exact Top.agreesPhys_of_lateSafe ht hacc (by rw [h1, h2]; exact hs)

/-! ## A load that shows as uncacheable -/

def lowLatencyCfg : Cfg :=
  Cfg.small true true true false (Cfg.policy_wt true) (Cfg.latency_noEcc true)

def core0 : Fin lowLatencyCfg.nRequesters := ⟨0, by decide⟩

/-- A cache that holds one line, full of sevens. -/
def oneLine : Top lowLatencyCfg where
  arb := CoreArb.reset _
  cache :=
    { Cache.quiet lowLatencyCfg with
      mem := { Cache.blankMem lowLatencyCfg with
        initQ := true
        dirRam := fun _ w =>
          if w.val = 0 then ⟨true, false, false, false, 5⟩ else ⟨false, false, false, false, 0⟩
        dataBits := fun _ _ _ => 7 } }

/-- A load that shows as uncacheable, with a tag to come. -/
def garbledLoad : Req lowLatencyCfg :=
  { Req.zero lowLatencyCfg with size := 3, needRsp := true, pma := ⟨true, .auto⟩ }

def coreReq1 : TopIn lowLatencyCfg where
  core := { CoreIn.idle _ with valid := fun _ => true }
  rest := CacheIn.idle _

def coreReq2 : TopIn lowLatencyCfg where
  core := CoreIn.idle _
  rest := CacheIn.idle _

/-- The load hits a cacheable line. Its data are read in the cycle of the grant, and only if it
shows as cacheable then: virtually indexed it gets what the data RAM had read before. -/
theorem garbledLoad_not_agreesPhys :
    oneLine.Inv ∧ oneLine.accepts (coreReq1.withReq core0 garbledLoad.virt) core0 = true ∧
      (((oneLine.step (coreReq1.withReq core0 (garbledLoad.phys 5 ⟨false, .auto⟩))).out
        coreReq2).coreRsp.map fun x => x.rdata 0) = some 7 ∧
      (((oneLine.step (coreReq1.withReq core0 garbledLoad.virt)).out
        (coreReq2.withLate core0 5 ⟨false, .auto⟩)).coreRsp.map fun x => x.rdata 0) = some 0 ∧
      ¬ oneLine.AgreesPhys core0 garbledLoad 5 ⟨false, .auto⟩ coreReq1 coreReq2 := by
  have hphys : (((oneLine.step (coreReq1.withReq core0 (garbledLoad.phys 5 ⟨false, .auto⟩))).out
      coreReq2).coreRsp.map fun x => x.rdata 0) = some 7 := by decide +kernel
  have hvirt : (((oneLine.step (coreReq1.withReq core0 garbledLoad.virt)).out
      (coreReq2.withLate core0 5 ⟨false, .auto⟩)).coreRsp.map fun x => x.rdata 0) = some 0 := by
    decide +kernel
  refine ⟨⟨fun _ _ h => Bool.noConfusion h, fun h => absurd rfl h⟩, by decide +kernel, hphys, hvirt, fun h => ?_⟩
  rw [h.out2, hvirt] at hphys
  exact absurd hphys (by decide)

end Hpdcache
