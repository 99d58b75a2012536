import Hpdcache.DecisionGuard

/-!
# Total and exclusive disposition

A valid request in stage 1 must be disposed of in one way: answered, handed to the miss path, to
the uncacheable handler or to the CMO handler, or put on hold. A request that comes from the replay
table must in addition either free its entry or be rolled back.

* `DisposedOnce` — the property, read on the outputs of the engine.
* `disposedOnce_iff` — when the engine has it. In normal operation it fails for one reason that
  the cache can meet: a replayed request that finds an uncorrectable error is answered with an error
  in a cache with the write-back policy, but its replay-table entry is neither freed nor rolled
  back.
-/

namespace Hpdcache

variable {c : Cfg} {i : PeIn} {op : ReqOp}

/-- The ways to dispose of a request. -/
inductive Disposition
  | answered
  | missPath
  | uncached
  | cmo
  | onHold
  deriving DecidableEq, Repr

/-- A replayed request is not aborted: its tag was checked at its first pass. -/
def PeIn.st1Aborted (i : PeIn) : Bool :=
  i.st1ReqAbort && !i.st1ReqRtab

/-- The same inputs with a response required. -/
def PeIn.askRsp (i : PeIn) : PeIn :=
  { i with st1ReqNeedRsp := true }

/-- The same inputs with no request in stage 1. -/
def PeIn.noReq (i : PeIn) : PeIn :=
  { i with st1ReqValid := false }

/-- The outputs dispose of the request in the way `d`. The request is answered when the same
request with `need_rsp` set gets a response, and handed to the miss path when it is the cause of
an MSHR allocation and is not held for a replay. -/
def disposed (c : Cfg) (i : PeIn) (d : Disposition) : Bool :=
  let o := hpdcacheCtrlPe c i
  match d with
  | .answered => (hpdcacheCtrlPe c i.askRsp).st1RspValid
  | .missPath =>
      o.st2MshrAlloc.alloc && !(o.st1RtabAlloc || o.st1RtabRback) &&
        !(hpdcacheCtrlPe c i.noReq).st2MshrAlloc.alloc
  | .uncached => o.ucReqValid
  | .cmo => o.cmoReqValid
  | .onHold => o.st1RtabAlloc || o.st1RtabAllocAndLink || o.st1RtabRback

/-- The request in stage 1 is disposed of in exactly one way. -/
structure DisposedOnce (c : Cfg) (i : PeIn) : Prop where
  once : ∃! d, disposed c i d = true
  response : (hpdcacheCtrlPe c i).st1RspValid = (disposed c i .answered && i.st1ReqNeedRsp)
  miss : disposed c i .missPath = true →
    (hpdcacheCtrlPe c i).st2MshrAlloc.needRsp = i.st1ReqNeedRsp
  replayed : i.st1ReqRtab = true →
    ((hpdcacheCtrlPe c i).st1RtabCommit = true ↔ (hpdcacheCtrlPe c i).st1RtabRback = false)

/-- The replayed request finds an error that a cache with the write-back policy cannot correct. -/
def PeIn.replayedUncorrectable (c : Cfg) (i : PeIn) : Bool :=
  i.st1ReqRtab && !i.st1ReqIsError && !i.st1ReqIsUncacheable &&
    !(i.st1ReqIsCmoInval || i.st1ReqIsCmoFlush || i.st1ReqIsCmoFence) &&
    (c.wbEn && (c.eccEn && (i.st1DirErrUnc || i.st1DatErrUncDirty)))

/-- CMOs never enter the replay table. -/
def PeIn.replayedCmo (i : PeIn) : Bool :=
  i.st1ReqRtab && !i.st1ReqIsError &&
    (i.st1ReqIsCmoInval || i.st1ReqIsCmoFlush || i.st1ReqIsCmoFence)

/-! ## The disposition of a decision -/

def Decision.disposition : Decision → Option Disposition
  | idle => none
  | aborted | error | eccAnswer | loadHit | loadHitToWt | loadHitToWb | storeMissWt
  | storeHitToDirty | storeHitDirty | storeHitWt => some .answered
  | loadMiss | storeMiss => some .missPath
  | ucSend | ucSendInval | amoSend | amoSendHit => some .uncached
  | cmo => some .cmo
  | link | hold _ | eccHold | ucFlush | amoFlush | storeMissHold | storeFlush => some .onHold

namespace Decision

theorem answers_eq (d : Decision) : d.answers = decide (d.disposition = some .answered) := by
  cases d <;> rfl

theorem misses_eq (d : Decision) :
    ((d.mshrAlloc i).alloc && !d.holds) = decide (d.disposition = some .missPath) := by
  cases d <;> rfl

theorem sendsUc_eq (d : Decision) : d.sendsUc = decide (d.disposition = some .uncached) := by
  cases d <;> rfl

theorem cmo_eq (d : Decision) : decide (d = .cmo) = decide (d.disposition = some .cmo) := by
  cases d <;> rfl

theorem onHold_eq (d : Decision) :
    (d.holds || decide (d = .link)) = decide (d.disposition = some .onHold) := by
  cases d <;> rfl

/-- Every decision but four frees the entry of a replayed request or rolls it back. -/
theorem commits_iff_not_holds (d : Decision) :
    (d.commits = true ↔ d.holds = false) ↔
      d ≠ .idle ∧ d ≠ .aborted ∧ d ≠ .link ∧ d ≠ .cmo ∧ d ≠ .eccAnswer := by
  cases d <;> simp [commits, holds]

end Decision

/-! ## The decisions that leave a replayed request in the table -/

theorem decision_ne_idle (hv : i.st1ReqValid = true) : decision c i ≠ .idle := by
  intro h
  have hg := decision_guard (c := c) (i := i)
  rw [h] at hg
  exact absurd hv (by rw [show i.st1ReqValid = false from hg]; decide)

theorem decision_ne_aborted (ha : i.st1Aborted = false) : decision c i ≠ .aborted := by
  intro h
  have hg := decision_guard (c := c) (i := i)
  rw [h] at hg
  obtain ⟨-, habort, hrtab⟩ : i.st1ReqValid = true ∧ i.st1ReqAbort = true ∧
    i.st1ReqRtab = false := hg
  simp [PeIn.st1Aborted, habort, hrtab] at ha

theorem decision_ne_link (hr : i.st1ReqRtab = true) : decision c i ≠ .link := by
  intro h
  have hg := decision_guard (c := c) (i := i)
  rw [h] at hg
  exact absurd hr (by rw [show i.st1ReqRtab = false from hg.2.2.1]; decide)

theorem decision_eq_cmo_iff (hv : i.st1ReqValid = true) (hr : i.st1ReqRtab = true) :
    decision c i = .cmo ↔ i.replayedCmo = true := by
  constructor
  · intro h
    have hg := decision_guard (c := c) (i := i)
    rw [h] at hg
    obtain ⟨hp, hcmo⟩ : i.Proceeds ∧
      (i.st1ReqIsCmoInval || i.st1ReqIsCmoFlush || i.st1ReqIsCmoFence) = true := hg
    simp [PeIn.replayedCmo, hr, hp.not_error, hcmo]
  · intro h
    simp only [PeIn.replayedCmo, Bool.and_eq_true, Bool.not_eq_true'] at h
    obtain ⟨⟨-, herr⟩, hcmo⟩ := h
    unfold decision
    rw [hv, hr, herr, hcmo]
    simp

theorem decision_eq_eccAnswer_iff (hv : i.st1ReqValid = true) (hr : i.st1ReqRtab = true) :
    decision c i = .eccAnswer ↔ i.replayedUncorrectable c = true := by
  constructor
  · intro h
    have hg := decision_guard (c := c) (i := i)
    rw [h] at hg
    obtain ⟨hc, hunc, hwb⟩ : i.Cacheable ∧ i.eccUnc c = true ∧ c.wbEn = true := hg
    unfold PeIn.eccUnc at hunc
    rw [PeIn.replayedUncorrectable, hr, hc.not_error, hc.cacheable, hc.not_cmo, hwb, hunc]
    rfl
  · intro h
    unfold PeIn.replayedUncorrectable at h
    rw [Bool.and_eq_true, Bool.and_eq_true c.wbEn] at h
    obtain ⟨hpass, hwb, hunc⟩ := h
    simp only [Bool.and_eq_true, Bool.not_eq_true'] at hpass
    obtain ⟨⟨⟨-, herr⟩, huc⟩, hcmo⟩ := hpass
    unfold decision decisionCacheable
    rw [if_pos hunc, hwb, hv, hr, herr, hcmo, huc]
    simp

/-! ## The disposition in normal operation -/

theorem askRsp_decodes (hd : i.St1Decodes op) : i.askRsp.St1Decodes op :=
  ⟨hd.1, hd.2, hd.3, hd.4, hd.5, hd.6, hd.7⟩

theorem noReq_decodes (hd : i.St1Decodes op) : i.noReq.St1Decodes op :=
  ⟨hd.1, hd.2, hd.3, hd.4, hd.5, hd.6, hd.7⟩

theorem decision_noReq : decision c i.noReq = .idle := rfl

section
variable (hn : i.normal = true) (hd : i.St1Decodes op)
include hn hd

theorem disposed_eq (d : Disposition) :
    disposed c i d = decide ((decision c i).disposition = some d) := by
  have h := hpdcacheCtrlPe_agrees (c := c) hn hd
  cases d with
  | answered =>
    have hask := hpdcacheCtrlPe_agrees (c := c) (i := i.askRsp) hn (askRsp_decodes hd)
    rw [← Decision.answers_eq]
    exact hask.rspValid.trans (Bool.and_true _)
  | missPath =>
    have hidle := hpdcacheCtrlPe_agrees (c := c) (i := i.noReq) hn (noReq_decodes hd)
    have hno : (hpdcacheCtrlPe c i.noReq).st2MshrAlloc.alloc = false := by
      rw [hidle.mshrAlloc, decision_noReq]; rfl
    rw [← Decision.misses_eq (i := i)]
    unfold disposed
    dsimp only
    rw [hno, h.mshrAlloc, h.alloc, h.rback]
    cases (decision c i).holds <;> cases i.st1ReqRtab <;> simp
  | uncached =>
    rw [← Decision.sendsUc_eq]
    exact h.ucReq
  | cmo =>
    rw [← Decision.cmo_eq]
    exact h.cmoReq
  | onHold =>
    rw [← Decision.onHold_eq]
    unfold disposed
    dsimp only
    rw [h.alloc, h.link, h.rback]
    cases (decision c i).holds <;> cases i.st1ReqRtab <;> simp

theorem disposed_once (hv : i.st1ReqValid = true) : ∃! d, disposed c i d = true := by
  obtain ⟨d, hdisp⟩ : ∃ d, (decision c i).disposition = some d := by
    have hne := decision_ne_idle (c := c) hv
    cases h : decision c i <;> first | exact ⟨_, rfl⟩ | exact absurd h hne
  refine ⟨d, by simp only [disposed_eq hn hd, hdisp, decide_true], fun d' hd' => ?_⟩
  have hd'' : disposed c i d' = true := hd'
  rw [disposed_eq hn hd, hdisp] at hd''
  simpa [eq_comm] using hd''

theorem disposed_replayed (hv : i.st1ReqValid = true) (hr : i.st1ReqRtab = true) :
    ((hpdcacheCtrlPe c i).st1RtabCommit = true ↔ (hpdcacheCtrlPe c i).st1RtabRback = false) ↔
      i.replayedCmo = false ∧ i.replayedUncorrectable c = false := by
  have h := hpdcacheCtrlPe_agrees (c := c) hn hd
  have hab : i.st1Aborted = false := by simp [PeIn.st1Aborted, hr]
  rw [h.commit, h.rback, hr, Bool.and_true, Bool.and_true, Decision.commits_iff_not_holds]
  constructor
  · rintro ⟨-, -, -, hcmo, hecc⟩
    exact ⟨by simpa [decision_eq_cmo_iff hv hr] using hcmo,
      by simpa [decision_eq_eccAnswer_iff hv hr] using hecc⟩
  · rintro ⟨hcmo, hecc⟩
    exact ⟨decision_ne_idle hv, decision_ne_aborted hab, decision_ne_link hr,
      by simp [decision_eq_cmo_iff hv hr, hcmo], by simp [decision_eq_eccAnswer_iff hv hr, hecc]⟩
end

/-- Outside of normal operation the request is not disposed of. -/
theorem disposed_not_normal (hn : i.normal = false) (d : Disposition) :
    disposed c i d = false := by
  obtain ⟨evt, h⟩ := hpdcacheCtrlPe_not_normal (c := c) hn
  obtain ⟨evt', hask⟩ := hpdcacheCtrlPe_not_normal (c := c) (i := i.askRsp) hn
  obtain ⟨evt'', hidle⟩ := hpdcacheCtrlPe_not_normal (c := c) (i := i.noReq) hn
  unfold disposed
  rw [h, hask, hidle]
  cases d with
  | missPath =>
    change (i.st2MshrAlloc && !false && !i.st2MshrAlloc) = false
    cases i.st2MshrAlloc <;> rfl
  | _ => rfl

/-- The engine disposes of a valid, non-aborted request of a defined operation in exactly one way
if and only if the pipeline is in normal operation and the request is neither a replayed
CMO nor a replayed request that finds an uncorrectable error with the write-back policy. -/
theorem disposedOnce_iff (hd : i.St1Decodes op) (hv : i.st1ReqValid = true) :
    DisposedOnce c i ↔
      i.normal = true ∧ i.replayedCmo = false ∧ i.replayedUncorrectable c = false := by
  constructor
  · intro h
    cases hn : i.normal with
    | false =>
      obtain ⟨d, hdisp, -⟩ := h.once
      rw [disposed_not_normal hn] at hdisp
      contradiction
    | true =>
      cases hr : i.st1ReqRtab with
      | false => simp [PeIn.replayedCmo, PeIn.replayedUncorrectable, hr]
      | true => exact ⟨rfl, (disposed_replayed hn hd hv hr).1 (h.replayed hr)⟩
  · rintro ⟨hn, hrep⟩
    have h := hpdcacheCtrlPe_agrees (c := c) hn hd
    refine ⟨disposed_once hn hd hv, ?_, ?_, fun hr => (disposed_replayed hn hd hv hr).2 hrep⟩
    · rw [disposed_eq hn hd, ← Decision.answers_eq]
      exact h.rspValid
    · intro hm
      rw [disposed_eq hn hd, decide_eq_true_eq] at hm
      rw [h.mshrAlloc]
      cases hdec : decision c i <;> rw [hdec] at hm <;> first | rfl | cases hm

/-! ## The replayed request with an uncorrectable error -/

/-- A load that is replayed, and whose directory lookup reports an uncorrectable error. -/
def replayedLoadUnc : PeIn :=
  { (default : PeIn) with
    cachedirInitReady := true
    rtabReqValid := false
    st1ReqValid := true
    st1ReqRtab := true
    st1ReqNeedRsp := true
    st1ReqIsLoad := true
    st1ReqWrAuto := true
    st1DirErrUnc := true }

/-- The same load without the error, in a cache where it hits. -/
def replayedLoadHit : PeIn :=
  { replayedLoadUnc with st1DirErrUnc := false, cachedirHit := true }

def eccWbCfg : Cfg := Cfg.small false true true true (.inr rfl) (fun _ => rfl)

/-- The load is answered with an error, but its replay-table entry is neither freed nor rolled
back: the entry is never replayed again, and the table loses it. -/
theorem replayedLoadUnc_not_disposedOnce :
    replayedLoadUnc.St1Decodes .load ∧ replayedLoadUnc.st1ReqValid = true ∧
      replayedLoadUnc.st1Aborted = false ∧ replayedLoadUnc.normal = true ∧
      (hpdcacheCtrlPe eccWbCfg replayedLoadUnc).st1RtabCommit = false ∧
      (hpdcacheCtrlPe eccWbCfg replayedLoadUnc).st1RtabRback = false ∧
      ¬ DisposedOnce eccWbCfg replayedLoadUnc := by
  have hcommit : (hpdcacheCtrlPe eccWbCfg replayedLoadUnc).st1RtabCommit = false := by decide
  have hrback : (hpdcacheCtrlPe eccWbCfg replayedLoadUnc).st1RtabRback = false := by decide
  refine ⟨⟨rfl, rfl, rfl, rfl, rfl, rfl, rfl⟩, rfl, rfl, rfl, hcommit, hrback, fun h => ?_⟩
  have hxor := (h.replayed rfl).2 hrback
  rw [hcommit] at hxor
  contradiction

theorem disposedOnce_iff_replayedLoadHit :
    DisposedOnce eccWbCfg replayedLoadHit ↔
      replayedLoadHit.normal = true ∧ replayedLoadHit.replayedCmo = false ∧
        replayedLoadHit.replayedUncorrectable eccWbCfg = false :=
  @disposedOnce_iff _ _ .load ⟨rfl, rfl, rfl, rfl, rfl, rfl, rfl⟩ rfl

end Hpdcache
