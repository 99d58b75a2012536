import Hpdcache.Isolation

/-!
# The memory fence

The handler executes a fence alone: from the cycle in which it is in stage 1 until it is over, no
request of the core is accepted, and its response waits. It is over when the write buffer and the
replay table are empty. The flush controller is not looked at: a dirty line that was evicted, or
that changed to write-through, may still be on its way to the memory.

* `Cache.fence_run` — a fence finds every write acknowledged if and only if nothing is left to
  flush.
-/

namespace Hpdcache

open Hw

variable {c : Cfg}

/-! ## The handler -/

namespace Cmo

variable {m : Cmo c} {i : CmoIn c}

/-- A response is given by an idle handler. -/
structure Responds (m : Cmo c) : Prop where
  one : m.rspBuf.length ≤ 1
  send : m.rspSendQ = true → m.fsmQ = .idle ∧ m.rspBuf ≠ []

theorem responds_reset (m : Cmo c) : m.reset.Responds := ⟨Nat.zero_le _, nofun⟩

theorem Responds.not_send (h : m.Responds) (hf : m.fsmQ ≠ .idle) : m.rspSendQ = false := by
  by_contra hs
  exact hf (h.send (by simpa using hs)).1

theorem combStart_rsp {o : CmoOut c} (hw : o.rspW = false) (hs : o.rspSendD = m.rspSendQ) :
    (m.combStart i o).rspW = false ∧
      ((m.combStart i o).rspSendD = m.rspSendQ ∨
        (m.combStart i o).rspSendD = m.rspRok ∧ (m.combStart i o).fsmD = .idle) := by
  unfold combStart
  split <;> (try split_ifs) <;> simp [done, hw, hs]

/-- The outputs of a handler that is not idle are those of a state in which no response is given, or
those of the end of an operation. -/
theorem comb_rsp (hf : m.fsmQ ≠ .idle) : (m.comb i).rspW = false ∧
    ((m.comb i).rspSendD = m.rspSendQ ∨
      (m.comb i).rspSendD = m.rspRok ∧ (m.comb i).fsmD = .idle) := by
  unfold comb
  cases h : m.fsmQ with
  | idle => exact absurd h hf
  | fenceWaitWbufRtabEmpty =>
    simp only [combFenceWait, default, done]
    split_ifs <;> simp
  | waitMshrRtabEmpty =>
    simp only [combWaitMshr]
    by_cases he : (i.mshrEmpty && i.rtabEmpty && i.ctrlEmpty) = true
    · rw [if_pos he]
      exact combStart_rsp rfl rfl
    · rw [if_neg he]
      exact ⟨rfl, .inl rfl⟩
  | invalCheckNline => simp [default]
  | invalSet =>
    simp only [combInvalSet]
    split
    · exact ⟨rfl, .inr ⟨rfl, rfl⟩⟩
    · exact ⟨rfl, .inr ⟨rfl, rfl⟩⟩
    · split_ifs
      · exact ⟨rfl, .inr ⟨rfl, rfl⟩⟩
      · exact ⟨rfl, .inl rfl⟩
    · split_ifs
      · exact ⟨rfl, .inr ⟨rfl, rfl⟩⟩
      · exact ⟨rfl, .inl rfl⟩
    · exact ⟨rfl, .inl rfl⟩
  | flushAllFirst =>
    simp only [combFlushAllFirst, checkEntry, default, done]
    split_ifs <;> simp
  | flushAllNext =>
    simp only [combFlushAllNext, checkEntry, updtEntry, default]
    split_ifs <;> simp
  | flushAllLast =>
    simp only [combFlushAllLast, updtEntry, default, done]
    split_ifs <;> simp
  | flushNlineFirst =>
    simp only [combFlushNlineFirst, default, done]
    split_ifs <;> simp
  | flushNlineNext =>
    simp only [combFlushNlineNext, default, done]
    split_ifs <;> simp

theorem rspBuf_step : (m.step i).rspBuf =
    Fifo.step 1 false m.rspBuf
      (if (m.comb i).rspW then some ⟨fun _ => 0, i.reqSid, i.reqTid, false, false⟩ else none)
      (m.rspR i.coreRspReady) := rfl

/-- A request finds the response buffer empty, and the handler ready. -/
theorem Responds.ready (h : m.Responds) (hf : m.fsmQ = .idle) (hb : m.rspBuf = []) :
    m.rspSendQ = false ∧ m.reqReady i.coreRspReady = true := by
  refine ⟨?_, by simp [reqReady, hf, rspRok, hb]⟩
  by_contra hs
  exact (h.send (by simpa using hs)).2 hb

theorem Responds.step (h : m.Responds)
    (hreq : i.reqValid = true → m.fsmQ = .idle → m.rspBuf = []) : (m.step i).Responds := by
  refine ⟨Fifo.length_step_le h.one, fun hs => ?_⟩
  have hs' : (m.comb i).rspSendD = true := hs
  by_cases hf : m.fsmQ = .idle
  · cases hv : i.reqValid with
    | false =>
      have hcomb : m.comb i = { m.default with
          rspSendD := m.rspSendQ && !m.rspR i.coreRspReady } := by
        simp [comb, hf, combIdle, hv]
      rw [hcomb] at hs'
      simp only [Bool.and_eq_true, Bool.not_eq_true'] at hs'
      refine ⟨(congrArg CmoOut.fsmD hcomb).trans hf, ?_⟩
      rw [rspBuf_step, hcomb, hs'.2]
      simpa [default, Fifo.step] using (h.send hs'.1).2
    | true =>
      have hb := hreq hv hf
      obtain ⟨hsend, hready⟩ := h.ready (i := i) hf hb
      have hr : m.rspR i.coreRspReady = false := by simp [rspR, hsend]
      -- only a fence with nothing to wait for is answered at once
      simp only [comb, hf, combIdle, hv, hready, Bool.and_self, if_true, hsend] at hs'
      split_ifs at hs' with hfence hwait hop
      · simp at hs'
      · have hneed : i.reqNeedRsp = true := hs'
        refine ⟨?_, ?_⟩
        · have hstep : (m.step i).fsmQ = (m.comb i).fsmD := rfl
          simp [hstep, comb, hf, combIdle, hv, hready, hfence, hwait, default]
        · rw [rspBuf_step, hb, hr]
          simp [comb, hf, combIdle, hv, hready, hfence, hwait, default, hneed, Fifo.step,
            Fifo.accepted, Fifo.wok]
      · simp at hs'
      · simp at hs'
  · obtain ⟨hw, hd⟩ := comb_rsp (i := i) hf
    have hsend := h.not_send hf
    rcases hd with hd | ⟨hd, hidle⟩
    · rw [hd, hsend] at hs'
      contradiction
    · refine ⟨hidle, ?_⟩
      rw [hd] at hs'
      have hne : m.rspBuf ≠ [] := by simpa [rspRok] using hs'
      rw [rspBuf_step, hw, show m.rspR i.coreRspReady = false by simp [rspR, hsend]]
      simpa [Fifo.step] using hne

/-- A fence is over when the write buffer and the replay table are empty. -/
theorem fence_step (hf : m.fsmQ = .fenceWaitWbufRtabEmpty ∨
    m.fsmQ = .idle ∧ i.reqValid = true ∧ m.reqReady i.coreRspReady = true ∧
      i.reqOp.isCmoFence = true) :
    (m.step i).fsmQ =
      if i.wbufEmpty && i.rtabEmpty then .idle else .fenceWaitWbufRtabEmpty := by
  have hstep : (m.step i).fsmQ = (m.comb i).fsmD := rfl
  rw [hstep]
  rcases hf with hf | ⟨hf, hv, hready, hfence⟩
  · simp only [comb, hf, combFenceWait]
    split_ifs
    · rfl
    · exact hf
  · simp only [comb, hf, combIdle, hv, hready, hfence, Bool.and_self, if_true]
    cases hw : i.wbufEmpty <;> cases hr : i.rtabEmpty <;> simp [default, hf]

end Cmo

namespace Cache

variable {s : Cache c} {i : CacheIn c}

/-! ## No response before the end -/

/-- The handler answers when it is idle, and a request of the core finds its response buffer empty.
-/
structure Answering (s : Cache c) : Prop where
  responds : s.cmo.Responds
  core : s.st1.reqValidQ = true → s.st1.reqQ.fromRtab = false → s.cmo.rspBuf = []

theorem answering_reset (s : Cache c) : s.reset.Answering :=
  ⟨Cmo.responds_reset s.cmo, nofun⟩

/-- A request given to the handler comes from the core. -/
theorem Tabled.core_of_cmo {S : Set (List (Fin c.rtabEntries))} {front : List (Fin c.rtabEntries)}
    (ht : s.Tabled S front) (hd : s.dec i = .cmo) :
    s.st1.reqValidQ = true ∧ s.st1.reqQ.fromRtab = false := by
  have hg := dec_guard (s := s) (i := i)
  rw [hd] at hg
  refine ⟨hg.1.valid, ?_⟩
  by_contra hr
  have hpop : s.popped = some s.st1.rtabPopTryPtrQ :=
    popped_eq_some.2 ⟨hg.1.valid, by simpa using hr, rfl⟩
  have hcmo := (ht.stored _ (ht.valid_popped hpop)).cmo
  have hop : (s.st1Req i).req.op = (s.rtab.reqQ s.st1.rtabPopTryPtrQ).req.req.op := by
    rw [Tabled.st1Req_eq hpop, ht.replay _ hpop]
    rfl
  have hwalk : ((s.st1Req i).req.op.isCmoInval || (s.st1Req i).req.op.isCmoFlush ||
    (s.st1Req i).req.op.isCmoFence) = true := hg.2
  rw [hop, hcmo] at hwalk
  contradiction

theorem Owned.cmoReq_eq (h : s.Owned) : (s.cmoIn i).reqValid = decide (s.dec i = .cmo) :=
  (h.pe_agrees (i := i)).cmoReq

theorem Answering.step (hi : s.Inv) (h : s.Answering) : (s.step i).Answering := by
  obtain ⟨S, front, ht⟩ := hi.tabled
  constructor
  · refine h.responds.step fun hv _ => ?_
    rw [hi.owned.cmoReq_eq, decide_eq_true_eq] at hv
    obtain ⟨hst1, hr⟩ := ht.core_of_cmo hv
    exact h.core hst1 hr
  · intro hin hr
    -- the core is granted when the last response is gone or goes
    have hpop : s.rtab.popTryValid = false := by rw [← hi.owned.fromRtab_step hin, hr]
    have hg : (s.peIn i).GrantCore c := by
      rcases (hi.owned.reqQ_step hin).2 with hg | hg
      · exact hg.1
      · rw [hpop] at hg
        exact absurd hg.2 (by simp)
    have hcmo : s.cmoBusy = false := hg.not_cmo
    simp only [cmoBusy, Cmo.reqReady, Bool.not_eq_false', Bool.and_eq_true, decide_eq_true_eq,
      Bool.or_eq_true, Bool.not_eq_true'] at hcmo
    obtain ⟨hidle, hrsp⟩ := hcmo
    have hv : (s.cmoIn i).reqValid = false := by
      rw [hi.owned.cmoReq_eq, decide_eq_false_iff_not]
      intro hd
      have hn := (hi.owned.granted (.inl hg)).nops
      rw [hd] at hn
      contradiction
    have hready : (s.cmoIn i).coreRspReady = s.handlerRspReady := by
      have hpe : (s.cmoIn i).coreRspReady = (s.pe i).cmoCoreRspReady := rfl
      have hnorm := hg.normal
      rw [hpe, pe, hpdcacheCtrlPe_normal hnorm]
      cases hc : s.refillCoreRsp <;> simp [peIn, handlerRspReady, hc]
    have hw : (s.cmo.comb (s.cmoIn i)).rspW = false := by
      simp [Cmo.comb, hidle, Cmo.combIdle, hv, Cmo.default]
    have hstep : (s.step i).cmo.rspBuf = Fifo.step 1 false s.cmo.rspBuf none
        (s.cmo.rspR (s.cmoIn i).coreRspReady) := by
      have hbuf : (s.step i).cmo.rspBuf = (s.cmo.step (s.cmoIn i)).rspBuf := rfl
      rw [hbuf, Cmo.rspBuf_step, hw]
      rfl
    rw [hstep, hready, Fifo.step_eq]
    have hone := h.responds.one
    rcases hrsp with hrsp | hrsp
    · have hb : s.cmo.rspBuf = [] := by simpa [Cmo.rspRok] using hrsp
      simp [hb]
    · rw [hrsp]
      cases hb : s.cmo.rspBuf with
      | nil => simp
      | cons x l =>
        rw [hb] at hone
        simp only [List.length_cons] at hone
        have hl : l = [] := List.eq_nil_of_length_eq_zero (by omega)
        simp [hl]

theorem answering_run {is : List (CacheIn c)} (hr : Along Cache.step Regular s.reset is) :
    (run Cache.step s.reset is).Answering := by
  have hreset : s.reset.Inv ∧ s.reset.Answering := ⟨inv_reset s, answering_reset s⟩
  refine (hr.invariant hreset fun t i (h : t.Inv ∧ t.Answering) hi => ?_).2
  exact ⟨h.1.step hi, h.2.step h.1⟩

/-! ## Fences -/

/-- A fence is executed: it is given to the handler, or waits in it. -/
def fencing (s : Cache c) (i : CacheIn c) : Bool :=
  (decide (s.dec i = .cmo) && (s.st1Req i).req.op.isCmoFence) ||
    decide (s.cmo.fsmQ = .fenceWaitWbufRtabEmpty)

/-- A line to flush has not been acknowledged by the memory. -/
def flushPending (s : Cache c) : Bool := !s.flushEmpty || (c.wbEn && s.st2.flushAllocQ)

/-- No request is left but the fence, and the memory has acknowledged every write: the units that
keep a write until then are empty. -/
structure Quiesced (s : Cache c) (i : CacheIn c) : Prop where
  wbuf : s.wbufEmpty = true
  flush : s.flushEmpty = true
  uc : s.uc.ready = true
  rtab : s.rtab.empty = true
  st1 : s.st1.reqValidQ = true → s.dec i = .cmo
  st2 : c.wbEn = true → s.st2.flushAllocQ = false

/-- Where a fence that is executed is. -/
theorem fencing_cases {S : Set (List (Fin c.rtabEntries))} {front : List (Fin c.rtabEntries)}
    (h : s.Owned) (ht : s.Tabled S front) (hf : s.fencing i = true) :
    s.cmo.fsmQ = .fenceWaitWbufRtabEmpty ∨
    s.cmo.fsmQ = .idle ∧ s.dec i = .cmo ∧ (s.st1Req i).req.op.isCmoFence = true ∧
      s.st1.reqValidQ = true ∧ s.st1.reqQ.fromRtab = false := by
  simp only [fencing, Bool.or_eq_true, Bool.and_eq_true, decide_eq_true_eq] at hf
  rcases hf with ⟨hd, hop⟩ | hf
  · obtain ⟨hv, hr⟩ := ht.core_of_cmo hd
    exact .inr ⟨(h.core hv hr).1, hd, hop, hv, hr⟩
  · exact .inl hf

/-- While a fence is executed no request of the core enters. -/
theorem Inv.not_accepted (hi : s.Inv) (hf : s.fencing i = true) :
    (s.pe i).coreReqReady = false := by
  obtain ⟨S, front, ht⟩ := hi.tabled
  by_contra hready
  rw [Bool.not_eq_false] at hready
  have hg := coreReqReady_iff.1 hready
  rcases fencing_cases hi.owned ht hf with hwait | ⟨-, hd, -⟩
  · have hcmo : s.cmoBusy = false := hg.not_cmo
    simp [cmoBusy, Cmo.reqReady, hwait] at hcmo
  · have hn := (hi.owned.granted (.inl hg)).nops
    rw [hd] at hn
    contradiction

/-- While a fence is executed the handler gives no response. -/
theorem Answering.not_given (ha : s.Answering) (hi : s.Inv) (hf : s.fencing i = true) :
    s.cmo.coreRspValid = false := by
  obtain ⟨S, front, ht⟩ := hi.tabled
  rcases fencing_cases hi.owned ht hf with hwait | ⟨-, -, -, hv, hr⟩
  · simp [Cmo.coreRspValid, ha.responds.not_send (by simp [hwait])]
  · simp [Cmo.coreRspValid, Cmo.rspRok, ha.core hv hr]

theorem Answering.fsm_step (ha : s.Answering) (hi : s.Inv) (hf : s.fencing i = true) :
    (s.step i).cmo.fsmQ =
      if s.wbufEmpty && s.rtab.empty then .idle else .fenceWaitWbufRtabEmpty := by
  obtain ⟨S, front, ht⟩ := hi.tabled
  refine Cmo.fence_step ((fencing_cases hi.owned ht hf).imp id ?_)
  rintro ⟨hidle, hd, hop, hv, hr⟩
  refine ⟨hidle, ?_, (ha.responds.ready hidle (ha.core hv hr)).2, hop⟩
  rw [hi.owned.cmoReq_eq, hd]
  rfl

/-- A fence is over with every write acknowledged if and only if no line to flush is pending. -/
theorem Answering.quiesced_iff (ha : s.Answering) (hi : s.Inv) (hf : s.fencing i = true)
    (hdone : (s.step i).cmo.fsmQ = .idle) : s.Quiesced i ↔ s.flushPending = false := by
  have hempty : (s.wbufEmpty && s.rtab.empty) = true := by
    by_contra hne
    rw [ha.fsm_step hi hf, if_neg hne] at hdone
    contradiction
  rw [Bool.and_eq_true] at hempty
  constructor
  · intro hq
    cases hwb : c.wbEn with
    | false => simp [flushPending, hq.flush, hwb]
    | true => simp [flushPending, hq.flush, hq.st2 hwb]
  · intro hp
    simp only [flushPending, Bool.or_eq_false_iff, Bool.not_eq_false', Bool.and_eq_false_iff] at hp
    obtain ⟨S, front, ht⟩ := hi.tabled
    have hnone := hempty.2
    simp only [Rtab.empty, Bool.not_eq_true', any_eq_false] at hnone
    have huc : s.uc.ready = true := by
      rcases fencing_cases hi.owned ht hf with hwait | ⟨-, -, -, hv, hr⟩
      · by_contra huc
        rw [(hi.fences.uc (by simpa using huc)).2.2] at hwait
        contradiction
      · exact (hi.owned.core hv hr).2.1
    refine
      { wbuf := hempty.1
        flush := hp.1
        uc := huc
        rtab := hempty.2
        st1 := fun hv => ?_
        st2 := fun hwb => hp.2.resolve_left (by simp [hwb]) }
    rcases fencing_cases hi.owned ht hf with hwait | ⟨-, hd, -⟩
    · -- a request in stage 1 would be a replayed one, and have an entry
      cases hr : s.st1.reqQ.fromRtab with
      | false =>
        rw [(hi.owned.core hv hr).1] at hwait
        contradiction
      | true =>
        have hk := ht.valid_popped (popped_eq_some.2 ⟨hv, hr, rfl⟩)
        rw [hnone] at hk
        contradiction
    · exact hd

/-- In every state reached by a regular run in which a fence is executed: no request of the core is
accepted and no response of the handler is given, the fence goes on waiting or is over, and when it
is over every write has been acknowledged if and only if no line to flush is pending. -/
theorem fence_run (s : Cache c) (is : List (CacheIn c))
    (hr : Along Cache.step Regular s.reset is) :
    let t := run Cache.step s.reset is
    ∀ i, t.fencing i = true →
      (t.pe i).coreReqReady = false ∧ t.cmo.coreRspValid = false ∧
        ((t.step i).cmo.fsmQ = .idle ∨ (t.step i).cmo.fsmQ = .fenceWaitWbufRtabEmpty) ∧
        ((t.step i).cmo.fsmQ = .idle → (t.Quiesced i ↔ t.flushPending = false)) := by
  intro t i hf
  have hi : t.Inv := inv_run hr
  have ha : t.Answering := answering_run hr
  refine ⟨hi.not_accepted hf, ha.not_given hi hf, ?_, ha.quiesced_iff hi hf⟩
  rw [ha.fsm_step hi hf]
  split_ifs
  · exact .inl rfl
  · exact .inr rfl

end Cache

/-! ## A line on its way to the memory -/

/-- A load that changes its line to write-through. -/
def loadWt : Req lowLatencyCfg := { Req.access .load 1 false with pma := ⟨false, .wt⟩ }

/-- A store makes a line dirty, a load has it flushed, and a fence follows before the memory has
acknowledged the line. -/
def flushThenFence : List (CacheIn lowLatencyCfg) :=
  [.idle _, .idle _, .ask storeWb, .idle _, .idle _, .refill, .idle _, .idle _, .idle _, .idle _,
    .ask loadWt, .idle _, .idle _, .idle _, .ask (.access .cmoFence 0 false)]

/-- The fence, in stage 1. -/
def fenceInStage1 : Cache lowLatencyCfg :=
  run Cache.step (Cache.blank _).reset flushThenFence

theorem regular_flushThenFence :
    Along Cache.step Cache.Regular (Cache.blank lowLatencyCfg).reset flushThenFence :=
  Along.mono (P := fun s i => (i.flushAck.isNone && !s.leaks i && !s.lateLookup i &&
    !s.disabledReplay i) = true) (by decide +kernel) fun _ _ => Cache.regular_of_quiet

theorem fenceInStage1_fencing : fenceInStage1.fencing (.idle _) = true := by decide +kernel

/-- The fence is over in the cycle in which it is given to the handler. -/
theorem fenceInStage1_not_quiesced :
    fenceInStage1.fencing (.idle _) = true ∧ (fenceInStage1.step (.idle _)).cmo.fsmQ = .idle ∧
      ¬ fenceInStage1.Quiesced (.idle _) := by
  refine ⟨fenceInStage1_fencing, by decide +kernel, fun h => ?_⟩
  have hflush : fenceInStage1.flushEmpty = false := by decide +kernel
  rw [h.flush] at hflush
  contradiction

theorem fence_run_flushThenFence :
    (fenceInStage1.pe (.idle _)).coreReqReady = false ∧
      fenceInStage1.cmo.coreRspValid = false ∧
      ((fenceInStage1.step (.idle _)).cmo.fsmQ = .idle ∨
        (fenceInStage1.step (.idle _)).cmo.fsmQ = .fenceWaitWbufRtabEmpty) ∧
      ((fenceInStage1.step (.idle _)).cmo.fsmQ = .idle →
        (fenceInStage1.Quiesced (.idle _) ↔ fenceInStage1.flushPending = false)) :=
  Cache.fence_run _ _ regular_flushThenFence _ fenceInStage1_fencing

end Hpdcache
