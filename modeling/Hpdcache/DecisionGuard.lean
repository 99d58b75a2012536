import Hpdcache.Decision

/-!
# The conditions of a decision

Each leaf of the decision tree is reached under conditions on the inputs of the engine.
`Decision.Guard` collects them, so that what a decision implies about the cache is read off without
unfolding the tree again.

* `HoldGuard` — why a request is put on hold with no other effect, reason by reason.
* `decision_guard` — the decision taken has its conditions.
-/

namespace Hpdcache

variable {c : Cfg} {i : PeIn} {op : ReqOp}

/-! ## The conditions of a decision -/

/-- The request is neither aborted nor erroneous, and no older request to its line is on hold. -/
structure PeIn.Proceeds (i : PeIn) : Prop where
  valid : i.st1ReqValid = true
  not_aborted : i.st1ReqAbort = true → i.st1ReqRtab = true
  not_error : i.st1ReqIsError = false
  not_linked : i.st1ReqRtab = false → i.st1Fence = false → i.rtabCheckHit = false

/-- The request proceeds as an uncacheable load, store or AMO. -/
structure PeIn.Uncacheable (i : PeIn) : Prop extends i.Proceeds where
  not_cmo : (i.st1ReqIsCmoInval || i.st1ReqIsCmoFlush || i.st1ReqIsCmoFence) = false
  uncacheable : i.st1ReqIsUncacheable = true

/-- The request proceeds as a cacheable load, prefetch, store or AMO. -/
structure PeIn.Cacheable (i : PeIn) : Prop extends i.Proceeds where
  not_cmo : (i.st1ReqIsCmoInval || i.st1ReqIsCmoFlush || i.st1ReqIsCmoFence) = false
  cacheable : i.st1ReqIsUncacheable = false

/-- The ECC decoders report an error that cannot be corrected. -/
def PeIn.eccUnc (c : Cfg) (i : PeIn) : Bool :=
  c.eccEn && (i.st1DirErrUnc || i.st1DatErrUncDirty)

/-- The ECC decoders report an error that a replay survives. -/
def PeIn.eccCor (c : Cfg) (i : PeIn) : Bool :=
  c.eccEn && (i.st1DirErrCor || i.st1DatErrCor || i.st1DatErrUnc)

/-- The cacheable request finds no error. -/
structure PeIn.Sound (c : Cfg) (i : PeIn) : Prop extends i.Cacheable where
  not_unc : i.eccUnc c = false
  not_cor : i.eccCor c = false

/-- The write policy of the request is write-back, where `auto` is the one of an automatic
hint. -/
def PeIn.st1IsWb (i : PeIn) (auto : Bool) : Bool :=
  i.st1ReqWrWb || (i.st1ReqWrAuto && auto)

/-- A fence-like request waits for the pending transactions, unless it is replayed. -/
def PeIn.waitsPendTrans (i : PeIn) : Bool :=
  !i.st1NoPendTrans && !i.st1ReqRtab

/-- A store that is neither held for a pending miss nor for a pending flush of its line. -/
structure PeIn.StoreProceeds (c : Cfg) (i : PeIn) : Prop extends i.Sound c where
  store : i.st1ReqIsStore = true
  not_mshr : i.st1MshrHit = false
  not_flush : i.st1FlushCheckHit = false

structure PeIn.StoreHits (c : Cfg) (i : PeIn) : Prop extends i.StoreProceeds c where
  hit : i.cachedirHit = true
  not_fetch : i.st1DirHitFetch = false

structure PeIn.LoadHits (c : Cfg) (i : PeIn) : Prop extends i.Sound c where
  not_store : i.st1ReqIsStore = false
  not_amo : i.st1ReqIsAmo = false
  hit : i.cachedirHit = true
  ready : (i.st1ReqWrWt && i.st1DirHitWback && i.st1DirHitDirty && !i.st1FlushAllocReady) = false

/-- Why a request is put on hold with no other effect. -/
inductive HoldGuard (c : Cfg) (i : PeIn) : RtabDeps → Prop
  | ucPendTrans : i.Uncacheable → i.waitsPendTrans = true → HoldGuard c i {}
  | ucFlush : i.Uncacheable → i.waitsPendTrans = false → i.cachedirHit = true →
      i.st1DirHitDirty = true → i.st1FlushAllocReady = false →
      HoldGuard c i { flushNotReady := true }
  | ucFetch : i.Uncacheable → i.waitsPendTrans = false → i.cachedirHit = true →
      i.st1DirHitFetch = true → HoldGuard c i { dirFetch := true }
  | amoPendTrans : i.Sound c → i.st1ReqIsAmo = true → i.waitsPendTrans = true →
      HoldGuard c i {}
  | loadMiss {d} : i.Sound c → i.st1ReqIsStore = false → i.st1ReqIsAmo = false →
      i.cachedirHit = false → loadMissDeps i = some d → HoldGuard c i d
  | loadFlush : i.Sound c → i.st1ReqIsStore = false → i.st1ReqIsAmo = false →
      i.cachedirHit = true → i.st1DirHitDirty = true → i.st1FlushAllocReady = false →
      HoldGuard c i { flushNotReady := true }
  | storeMshr : i.Sound c → i.st1ReqIsStore = true → i.st1MshrHit = true →
      HoldGuard c i { mshrHit := true }
  | storeFlushHit : i.Sound c → i.st1ReqIsStore = true → i.st1FlushCheckHit = true →
      HoldGuard c i { flushHit := true }
  | storeMissWb {d} : i.StoreProceeds c → i.cachedirHit = false →
      storeMissWbDeps i = some d → HoldGuard c i d
  | storeMissWt : i.StoreProceeds c → i.cachedirHit = false → i.wbufWriteReady = false →
      HoldGuard c i { wbufNotReady := true }
  | storeFetch : i.StoreProceeds c → i.cachedirHit = true → i.st1DirHitFetch = true →
      HoldGuard c i { dirFetch := true }
  | storeWbuf : i.StoreHits c → i.wbufReadHit = true → HoldGuard c i { wbufHit := true }
  | storeFlushNotReady : i.StoreHits c → i.st1DirHitDirty = true →
      i.st1FlushAllocReady = false → HoldGuard c i { flushNotReady := true }
  | storeHitWt : i.StoreHits c → i.st1DirHitDirty = false → i.wbufWriteReady = false →
      HoldGuard c i { wbufNotReady := true }

/-- The conditions under which a decision is taken. -/
def Decision.Guard (c : Cfg) (i : PeIn) : Decision → Prop
  | idle => i.st1ReqValid = false
  | aborted => i.st1ReqValid = true ∧ i.st1ReqAbort = true ∧ i.st1ReqRtab = false
  | error => i.st1ReqValid = true ∧ i.st1ReqIsError = true
  | link => i.st1ReqValid = true ∧ i.st1ReqIsError = false ∧ i.st1ReqRtab = false ∧
      i.st1Fence = false ∧ i.rtabCheckHit = true
  | cmo => i.Proceeds ∧ (i.st1ReqIsCmoInval || i.st1ReqIsCmoFlush || i.st1ReqIsCmoFence) = true
  | hold d => HoldGuard c i d
  | eccAnswer => i.Cacheable ∧ i.eccUnc c = true ∧ c.wbEn = true
  | eccHold => i.Cacheable ∧ ((i.eccUnc c = true ∧ c.wbEn = false) ∨
      (i.eccUnc c = false ∧ i.eccCor c = true))
  | ucSend => i.Uncacheable ∧ i.waitsPendTrans = false ∧ i.cachedirHit = false
  | ucSendInval => i.Uncacheable ∧ i.waitsPendTrans = false ∧ i.cachedirHit = true ∧
      i.st1DirHitDirty = false ∧ i.st1DirHitFetch = false
  | ucFlush => i.Uncacheable ∧ i.waitsPendTrans = false ∧ i.cachedirHit = true ∧
      i.st1DirHitDirty = true ∧ i.st1FlushAllocReady = true
  | amoSend => i.Sound c ∧ i.st1ReqIsAmo = true ∧ i.waitsPendTrans = false ∧
      i.cachedirHit = false
  | amoSendHit => i.Sound c ∧ i.st1ReqIsAmo = true ∧ i.waitsPendTrans = false ∧
      i.cachedirHit = true ∧ i.st1DirHitDirty = false
  | amoFlush => i.Sound c ∧ i.st1ReqIsAmo = true ∧ i.waitsPendTrans = false ∧
      i.cachedirHit = true ∧ i.st1DirHitDirty = true
  | loadMiss => i.Sound c ∧ i.st1ReqIsStore = false ∧ i.st1ReqIsAmo = false ∧
      i.cachedirHit = false ∧ loadMissDeps i = none
  | loadHit => i.LoadHits c
  | loadHitToWt => i.LoadHits c ∧ i.st1DirHitFetch = false ∧ i.st1DirHitWback = true
  | loadHitToWb => i.LoadHits c ∧ i.st1DirHitFetch = false ∧ i.st1ReqWrWb = true ∧
      i.st1DirHitWback = false
  | storeMiss => i.StoreProceeds c ∧ i.cachedirHit = false ∧ i.st1IsWb i.cfgDefaultWb = true ∧
      storeMissWbDeps i = none ∧ i.st1MshrCbufFull = false
  | storeMissHold => i.StoreProceeds c ∧ i.cachedirHit = false ∧
      i.st1IsWb i.cfgDefaultWb = true ∧ storeMissWbDeps i = none ∧ i.st1MshrCbufFull = true
  | storeMissWt => i.StoreProceeds c ∧ i.cachedirHit = false ∧
      i.st1IsWb i.cfgDefaultWb = false ∧ i.wbufWriteReady = true
  | storeHitToDirty => i.StoreHits c ∧ i.st1IsWb i.st1DirHitWback = true ∧
      i.wbufReadHit = false ∧ (i.st1DirHitWback && i.st1DirHitDirty) = false
  | storeHitDirty => i.StoreHits c ∧ i.st1IsWb i.st1DirHitWback = true ∧
      i.wbufReadHit = false ∧ i.st1DirHitWback = true ∧ i.st1DirHitDirty = true
  | storeFlush => i.StoreHits c ∧ i.st1IsWb i.st1DirHitWback = false ∧
      i.st1DirHitDirty = true ∧ i.st1FlushAllocReady = true
  | storeHitWt => i.StoreHits c ∧ i.st1IsWb i.st1DirHitWback = false ∧
      i.st1DirHitDirty = false ∧ i.wbufWriteReady = true

/-! ## The tree takes its decisions under their conditions -/

theorem decisionUncacheable_guard (h : i.Uncacheable) : (decisionUncacheable i).Guard c i := by
  unfold decisionUncacheable
  by_cases hw : (!i.st1NoPendTrans && !i.st1ReqRtab) = true
  · rw [if_pos hw]
    exact .ucPendTrans h hw
  rw [if_neg hw]
  have hw' : i.waitsPendTrans = false := by simpa [PeIn.waitsPendTrans] using hw
  cases hhit : i.cachedirHit with
  | false => exact ⟨h, hw', hhit⟩
  | true =>
    cases hdirty : i.st1DirHitDirty with
    | true =>
      cases hready : i.st1FlushAllocReady with
      | true => exact ⟨h, hw', hhit, hdirty, hready⟩
      | false => exact .ucFlush h hw' hhit hdirty hready
    | false =>
      cases hfetch : i.st1DirHitFetch with
      | true => exact .ucFetch h hw' hhit hfetch
      | false => exact ⟨h, hw', hhit, hdirty, hfetch⟩

theorem decisionAmo_guard (h : i.Sound c) (ha : i.st1ReqIsAmo = true) :
    (decisionAmo i).Guard c i := by
  unfold decisionAmo
  by_cases hw : (!i.st1NoPendTrans && !i.st1ReqRtab) = true
  · rw [if_pos hw]
    exact .amoPendTrans h ha hw
  rw [if_neg hw]
  have hw' : i.waitsPendTrans = false := by simpa [PeIn.waitsPendTrans] using hw
  cases hhit : i.cachedirHit with
  | false => exact ⟨h, ha, hw', hhit⟩
  | true =>
    cases hdirty : i.st1DirHitDirty with
    | true => exact ⟨h, ha, hw', hhit, hdirty⟩
    | false => exact ⟨h, ha, hw', hhit, hdirty⟩

theorem decisionLoad_guard (h : i.Sound c) (hs : i.st1ReqIsStore = false)
    (ha : i.st1ReqIsAmo = false) : (decisionLoad i).Guard c i := by
  unfold decisionLoad decisionLoadMiss decisionLoadHit
  cases hhit : i.cachedirHit with
  | false =>
    cases hdeps : loadMissDeps i with
    | some d => exact .loadMiss h hs ha hhit hdeps
    | none => exact ⟨h, hs, ha, hhit, hdeps⟩
  | true =>
    rw [if_neg (by simp)]
    split_ifs with hr hfetch hwt hwb
    · simp only [Bool.and_eq_true, Bool.not_eq_true'] at hr
      exact .loadFlush h hs ha hhit hr.1.2 hr.2
    all_goals
      have hh : i.LoadHits c := ⟨h, hs, ha, hhit, by simpa using hr⟩
      simp only [Bool.and_eq_true, Bool.not_eq_true, Bool.not_eq_true'] at *
    · exact hh
    · exact ⟨hh, hfetch, hwt.2⟩
    · exact ⟨hh, hfetch, hwb.1, hwb.2⟩
    · exact hh

theorem decisionStore_guard (h : i.Sound c) (hs : i.st1ReqIsStore = true) :
    (decisionStore i).Guard c i := by
  unfold decisionStore
  cases hm : i.st1MshrHit with
  | true => exact .storeMshr h hs hm
  | false =>
  cases hf : i.st1FlushCheckHit with
  | true => exact .storeFlushHit h hs hf
  | false =>
  have hp : i.StoreProceeds c := ⟨h, hs, hm, hf⟩
  cases hhit : i.cachedirHit with
  | false =>
    simp only [Bool.false_eq_true, if_false, Bool.not_false, if_true]
    split_ifs with hwb
    · unfold decisionStoreMissWb
      cases hdeps : storeMissWbDeps i with
      | some d => exact .storeMissWb hp hhit hdeps
      | none =>
        cases hcbuf : i.st1MshrCbufFull with
        | true => exact ⟨hp, hhit, hwb, hdeps, hcbuf⟩
        | false => exact ⟨hp, hhit, hwb, hdeps, hcbuf⟩
    · unfold decisionStoreMissWt
      cases hready : i.wbufWriteReady with
      | true => exact ⟨hp, hhit, by simpa [PeIn.st1IsWb] using hwb, hready⟩
      | false => exact .storeMissWt hp hhit hready
  | true =>
  cases hfetch : i.st1DirHitFetch with
  | true => exact .storeFetch hp hhit hfetch
  | false =>
    have hh : i.StoreHits c := ⟨hp, hhit, hfetch⟩
    simp only [Bool.false_eq_true, if_false, Bool.not_true]
    split_ifs with hwb
    · unfold decisionStoreHitWb
      cases hbuf : i.wbufReadHit with
      | true => exact .storeWbuf hh hbuf
      | false =>
        cases hwback : i.st1DirHitWback with
        | false => exact ⟨hh, hwb, hbuf, by simp [hwback]⟩
        | true =>
          cases hdirty : i.st1DirHitDirty with
          | false => exact ⟨hh, hwb, hbuf, by simp [hdirty]⟩
          | true => exact ⟨hh, hwb, hbuf, hwback, hdirty⟩
    · have hwt : i.st1IsWb i.st1DirHitWback = false := by simpa [PeIn.st1IsWb] using hwb
      unfold decisionStoreHitWt
      cases hdirty : i.st1DirHitDirty with
      | true =>
        cases hready : i.st1FlushAllocReady with
        | true => exact ⟨hh, hwt, hdirty, hready⟩
        | false => exact .storeFlushNotReady hh hdirty hready
      | false =>
        cases hready : i.wbufWriteReady with
        | true => exact ⟨hh, hwt, hdirty, hready⟩
        | false => exact .storeHitWt hh hdirty hready

theorem decisionCacheable_guard (h : i.Cacheable) : (decisionCacheable c i).Guard c i := by
  unfold decisionCacheable
  by_cases hu : (c.eccEn && (i.st1DirErrUnc || i.st1DatErrUncDirty)) = true
  · rw [if_pos hu]
    cases hwb : c.wbEn with
    | true => exact ⟨h, hu, hwb⟩
    | false => exact ⟨h, .inl ⟨hu, hwb⟩⟩
  rw [if_neg hu]
  by_cases hc : (c.eccEn && (i.st1DirErrCor || i.st1DatErrCor || i.st1DatErrUnc)) = true
  · rw [if_pos hc]
    exact ⟨h, .inr ⟨by simpa [PeIn.eccUnc] using hu, hc⟩⟩
  rw [if_neg hc]
  have hs : i.Sound c :=
    ⟨h, by simpa [PeIn.eccUnc] using hu, by simpa [PeIn.eccCor] using hc⟩
  cases ha : i.st1ReqIsAmo with
  | true => exact decisionAmo_guard hs ha
  | false =>
    cases hst : i.st1ReqIsStore with
    | true => exact decisionStore_guard hs hst
    | false => exact decisionLoad_guard hs hst ha

/-- The decision taken has its conditions. -/
theorem decision_guard : (decision c i).Guard c i := by
  unfold decision
  cases hv : i.st1ReqValid with
  | false => exact hv
  | true =>
  simp only [Bool.not_true, Bool.false_eq_true, if_false]
  split_ifs with habort herr hlink hcmo huc
  · simp only [Bool.and_eq_true, Bool.not_eq_true'] at habort
    exact ⟨hv, habort.1, habort.2⟩
  · exact ⟨hv, herr⟩
  · simp only [Bool.and_eq_true, Bool.not_eq_true'] at hlink
    exact ⟨hv, by simpa using herr, hlink.1.1, hlink.1.2, hlink.2⟩
  all_goals
    have hp : i.Proceeds :=
      { valid := hv
        not_aborted := by simpa using habort
        not_error := by simpa using herr
        not_linked := fun hr hf => by simpa [hr, hf] using hlink }
  · exact ⟨hp, hcmo⟩
  · exact decisionUncacheable_guard ⟨hp, by simpa using hcmo, huc⟩
  · exact decisionCacheable_guard ⟨hp, by simpa using hcmo, by simpa using huc⟩

end Hpdcache
