import Hpdcache.DecisionGuard

/-!
# The grants of the protocol engine

A new request enters the pipeline when the engine grants it. Each grant has its conditions; the
four of them exclude each other.

* `coreReqReady_iff`, `scrubReqReady_iff`, `rtabReqReady_iff`, `refillReqReady_iff` — when a
  requester is granted.
-/

namespace Hpdcache

variable {c : Cfg} {i : PeIn} {op : ReqOp}

/-- Neither the request in stage 1 nor the operations of stage 2 insert a nop. -/
def PeIn.noNop (c : Cfg) (i : PeIn) : Bool :=
  !((stage1 c i).st1Nop || (stage1 c i).st2Nop)

/-- The conditions that the requests of the core and of the scrubber share. -/
structure PeIn.GrantNew (c : Cfg) (i : PeIn) : Prop where
  normal : i.normal = true
  not_rtab : i.rtabReqValid = false
  not_refill : i.refillReqValid = false
  not_full : i.rtabFull = false
  not_cmo : i.cmoBusy = false
  not_uc : i.ucBusy = false
  not_err : i.errBusy = false
  not_fence : i.rtabFence = false
  noNop : i.noNop c = true

structure PeIn.GrantCore (c : Cfg) (i : PeIn) : Prop extends i.GrantNew c where
  valid : i.coreReqValid = true
  not_scrub : i.scrubReqValid = false

structure PeIn.GrantScrub (c : Cfg) (i : PeIn) : Prop extends i.GrantNew c where
  valid : i.scrubReqValid = true

structure PeIn.GrantRtab (c : Cfg) (i : PeIn) : Prop where
  normal : i.normal = true
  valid : i.rtabReqValid = true
  not_refill : i.refillReqValid = false
  cmo : i.cmoBusy = true → i.cmoWait = true
  not_err : i.errBusy = false
  noNop : i.noNop c = true

structure PeIn.GrantRefill (i : PeIn) : Prop where
  normal : i.normal = true
  valid : i.refillReqValid = true
  cmo : i.cmoBusy = true → i.cmoWait = true
  err : i.errBusy = true → i.errWait = true
  not_st1 : i.st1ReqValid = false
  not_mshr : i.st2MshrAlloc = false
  not_dir : i.st2DirUpdt.updt = false

theorem hpdcacheCtrlPe_normal (hn : i.normal = true) :
    hpdcacheCtrlPe c i =
      let o := newRequest c i (stage1 c i)
      { o with
        st1RtabAlloc := o.st1RtabAllocI && !i.st1ReqRtab
        st1RtabRback := o.st1RtabAllocI && i.st1ReqRtab
        st1RtabDeps := { o.st1RtabDeps with pendTrans := i.st1Fence }
        reqCachedataRead := o.st0ReqCachedataRead || o.st1ReqCachedataRead
        ucCoreRspReady := !i.refillCoreRspValid
        cmoCoreRspReady := !i.refillCoreRspValid
        evt := { o.evt with
          reqOnHold := o.st1RtabAllocI || o.st1RtabAllocAndLink
          rtabRollback := o.st1RtabAllocI && i.st1ReqRtab
          stall := i.coreReqValid && !o.coreReqReady } } := by
  unfold hpdcacheCtrlPe
  rw [hpdcacheCtrlComb_normal hn]

theorem hpdcacheCtrlPe_st1ReqValid (hn : i.normal = true) :
    (hpdcacheCtrlPe c i).st1ReqValid =
      ((hpdcacheCtrlPe c i).coreReqReady || (hpdcacheCtrlPe c i).rtabReqReady) := by
  rw [hpdcacheCtrlPe_normal hn]
  rfl

theorem coreReqReady_iff : (hpdcacheCtrlPe c i).coreReqReady = true ↔ i.GrantCore c := by
  constructor
  · intro h
    cases hn : i.normal with
    | false =>
      obtain ⟨evt, he⟩ := hpdcacheCtrlPe_not_normal (c := c) hn
      rw [he] at h
      exact absurd h (by simp [PeOut.default])
    | true =>
      rw [hpdcacheCtrlPe_normal hn] at h
      simp only [newRequest, Bool.and_eq_true, Bool.not_eq_true', Bool.or_eq_false_iff] at h
      obtain ⟨⟨⟨⟨⟨⟨⟨⟨⟨h1, h2⟩, h3⟩, h4⟩, h5⟩, h6⟩, h7⟩, h8⟩, h9⟩, h10⟩ := h
      exact ⟨⟨hn, h3, h4, h5, h6, h7, h8, h9, by simp [PeIn.noNop, h10]⟩, h1, h2⟩
  · rintro ⟨⟨hn, h3, h4, h5, h6, h7, h8, h9, h10⟩, h1, h2⟩
    rw [hpdcacheCtrlPe_normal hn]
    simp only [PeIn.noNop, Bool.not_eq_true', Bool.or_eq_false_iff] at h10
    simp [newRequest, h1, h2, h3, h4, h5, h6, h7, h8, h9, h10]

theorem scrubReqReady_iff : (hpdcacheCtrlPe c i).scrubReqReady = true ↔ i.GrantScrub c := by
  constructor
  · intro h
    cases hn : i.normal with
    | false =>
      obtain ⟨evt, he⟩ := hpdcacheCtrlPe_not_normal (c := c) hn
      rw [he] at h
      exact absurd h (by simp [PeOut.default])
    | true =>
      rw [hpdcacheCtrlPe_normal hn] at h
      simp only [newRequest, Bool.and_eq_true, Bool.not_eq_true', Bool.or_eq_false_iff] at h
      obtain ⟨⟨⟨⟨⟨⟨⟨⟨h1, h3⟩, h4⟩, h5⟩, h6⟩, h7⟩, h8⟩, h9⟩, h10⟩ := h
      exact ⟨⟨hn, h3, h4, h5, h6, h7, h8, h9, by simp [PeIn.noNop, h10]⟩, h1⟩
  · rintro ⟨⟨hn, h3, h4, h5, h6, h7, h8, h9, h10⟩, h1⟩
    rw [hpdcacheCtrlPe_normal hn]
    simp only [PeIn.noNop, Bool.not_eq_true', Bool.or_eq_false_iff] at h10
    simp [newRequest, h1, h3, h4, h5, h6, h7, h8, h9, h10]

theorem rtabReqReady_iff : (hpdcacheCtrlPe c i).rtabReqReady = true ↔ i.GrantRtab c := by
  constructor
  · intro h
    cases hn : i.normal with
    | false =>
      obtain ⟨evt, he⟩ := hpdcacheCtrlPe_not_normal (c := c) hn
      rw [he] at h
      exact absurd h (by simp [PeOut.default])
    | true =>
      rw [hpdcacheCtrlPe_normal hn] at h
      simp only [newRequest, Bool.and_eq_true, Bool.not_eq_true', Bool.or_eq_false_iff,
        Bool.or_eq_true] at h
      obtain ⟨⟨⟨⟨h1, h2⟩, h3⟩, h4⟩, h5⟩ := h
      refine ⟨hn, h1, h2, fun hc => ?_, h4, by simp [PeIn.noNop, h5]⟩
      simpa [hc] using h3
  · rintro ⟨hn, h1, h2, h3, h4, h5⟩
    rw [hpdcacheCtrlPe_normal hn]
    simp only [PeIn.noNop, Bool.not_eq_true', Bool.or_eq_false_iff] at h5
    have h3' : (!i.cmoBusy || i.cmoWait) = true := by
      cases hc : i.cmoBusy with
      | false => rfl
      | true => simpa using h3 hc
    simp [newRequest, h1, h2, h3', h4, h5]

theorem refillReqReady_iff : (hpdcacheCtrlPe c i).refillReqReady = true ↔ i.GrantRefill := by
  constructor
  · intro h
    cases hn : i.normal with
    | false =>
      obtain ⟨evt, he⟩ := hpdcacheCtrlPe_not_normal (c := c) hn
      rw [he] at h
      exact absurd h (by simp [PeOut.default])
    | true =>
      rw [hpdcacheCtrlPe_normal hn] at h
      simp only [newRequest, Bool.and_eq_true, Bool.not_eq_true', Bool.or_eq_false_iff,
        Bool.or_eq_true] at h
      obtain ⟨⟨⟨⟨h1, h2⟩, h3⟩, h4⟩, h5, h6⟩ := h
      refine ⟨hn, h1, fun hc => ?_, fun he => ?_, h4, h5, h6⟩
      · simpa [hc] using h2
      · simpa [he] using h3
  · rintro ⟨hn, h1, h2, h3, h4, h5, h6⟩
    rw [hpdcacheCtrlPe_normal hn]
    have h2' : (!i.cmoBusy || i.cmoWait) = true := by
      cases hc : i.cmoBusy with
      | false => rfl
      | true => simpa using h2 hc
    have h3' : (!i.errBusy || i.errWait) = true := by
      cases he : i.errBusy with
      | false => rfl
      | true => simpa using h3 he
    simp [newRequest, h1, h2', h3', h4, h5, h6]

/-- A request of the core that is looked up checks the MSHR if it shows as cacheable. -/
theorem PeIn.GrantCore.st0ReqMshrCheck (h : i.GrantCore c) (he : i.st0ReqIsError = false) :
    (hpdcacheCtrlPe c i).st0ReqMshrCheck =
      ((i.st0ReqIsLoad || i.st0ReqIsCmoPrefetch || i.st0ReqIsStore || i.st0ReqIsAmo) &&
        !i.st0ReqIsUncacheable) := by
  have hready := coreReqReady_iff.2 h
  rw [hpdcacheCtrlPe_normal h.normal] at hready ⊢
  change (newRequest c i (stage1 c i)).coreReqReady = true at hready
  simp only [newRequest] at hready ⊢
  rw [hready, he]
  simp

/-! ## Nops -/

section
variable {o : PeOut}

theorem st1Uncacheable_st2Nop : (st1Uncacheable i o).st2Nop = o.st2Nop := by
  unfold st1Uncacheable
  split_ifs <;> rfl

theorem st1EccError_st2Nop : (st1EccError c i o).st2Nop = o.st2Nop := by
  unfold st1EccError
  split_ifs <;> rfl

theorem st1Amo_st2Nop : (st1Amo i o).st2Nop = o.st2Nop := by
  unfold st1Amo
  dsimp only
  split_ifs <;> rfl

theorem st1Load_st2Nop : (st1Load c i o).st2Nop = o.st2Nop := by
  unfold st1Load st1LoadMiss st1LoadHit st1LoadHitPolicy
  dsimp only
  cases loadMissDeps i <;> split_ifs <;> rfl

theorem st1StoreMissWb_st2Nop : (st1StoreMissWb i o).st2Nop = o.st2Nop := by
  unfold st1StoreMissWb
  cases storeMissWbDeps i with
  | some d => rfl
  | none =>
    dsimp only
    split_ifs <;> rfl

theorem st1StoreMissWt_st2Nop : (st1StoreMissWt i o).st2Nop = o.st2Nop := by
  unfold st1StoreMissWt
  dsimp only
  split_ifs <;> rfl

theorem st1StoreHitWb_st2Nop : (st1StoreHitWb i o).st2Nop = o.st2Nop := by
  unfold st1StoreHitWb
  dsimp only
  split_ifs <;> rfl

theorem st1StoreHitWt_st2Nop : (st1StoreHitWt i o).st2Nop = o.st2Nop := by
  unfold st1StoreHitWt
  dsimp only
  split_ifs <;> rfl

theorem st1Store_st2Nop : (st1Store c i o).st2Nop = o.st2Nop := by
  unfold st1Store
  simp only [apply_ite PeOut.st2Nop, st1StoreMissWb_st2Nop, st1StoreMissWt_st2Nop,
    st1StoreHitWb_st2Nop, st1StoreHitWt_st2Nop, PeOut.hold, ite_self]

theorem stage1_st2Nop : (stage1 c i).st2Nop = i.st2Busy := by
  unfold stage1 st1Request
  rw [st2Pending_default]
  dsimp only
  split_ifs
  · rfl
  · rfl
  · rfl
  · rfl
  · exact st1Uncacheable_st2Nop
  · rw [st1Store_st2Nop, st1Load_st2Nop, st1Amo_st2Nop, st1EccError_st2Nop]
    rfl
  · rfl

end

/-- An operation of stage 2 holds every new request back. -/
theorem PeIn.noNop_st2 (h : i.noNop c = true) : i.st2Busy = false := by
  simp only [noNop, Bool.not_eq_true', Bool.or_eq_false_iff] at h
  rw [← stage1_st2Nop (c := c)]
  exact h.2

/-- A decision that inserts a nop holds every new request back. -/
theorem PeIn.noNop_st1 (hd : i.St1Decodes op) (h : i.noNop c = true) :
    (decision c i).nops = false := by
  simp only [noNop, Bool.not_eq_true', Bool.or_eq_false_iff] at h
  cases hd' : (decision c i).nops with
  | false => rfl
  | true =>
    have := (stage1_agrees (c := c) hd).nop hd'
    rw [h.1] at this
    contradiction

end Hpdcache
