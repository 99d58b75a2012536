import Hpdcache.Lib.Fifo
import Hpdcache.Lib.Select
import Hpdcache.Types

/-!
# Cache management operations

The handler of the fences, the invalidations and the flushes. It waits until the other units are
empty, walks the directory over the sets that may hold valid or dirty lines, hands the dirty lines
to the flush controller, and answers at the end.

* `Cmo.comb` — the FSM with its outputs, state by state.
* `Cmo.step` — one cycle.
* `Cmo.HoldsFlush.step` — only a walk that flushes holds lines for the flush controller.
-/

namespace Hpdcache

open Hw

inductive CmoFsm
  | idle
  | fenceWaitWbufRtabEmpty
  | waitMshrRtabEmpty
  | invalCheckNline
  | invalSet
  | flushAllFirst
  | flushAllNext
  | flushAllLast
  | flushNlineFirst
  | flushNlineNext
  deriving DecidableEq, Repr

/-- The walk may hold lines to flush. -/
def CmoFsm.flushes : CmoFsm → Bool
  | .flushAllNext | .flushAllLast | .flushNlineNext => true
  | _ => false

/-- A line to flush. -/
structure CmoFlushReq (c : Cfg) where
  nline : Nline c
  way : Bits c.ways

structure Cmo (c : Cfg) where
  fsmQ : CmoFsm
  opQ : ReqOp
  nlineQ : Nline c
  wayQ : Bits c.ways
  setQ : Fin c.sets
  flushReqValidQ : Bool
  flushReqSetQ : Fin c.sets
  flushReqWayQ : Bits c.ways
  flushReqInvalQ : Bool
  rspBuf : List Rsp
  rspSendQ : Bool
  flushFifo : List (CmoFlushReq c)

structure CmoIn (c : Cfg) where
  wbufEmpty : Bool
  mshrEmpty : Bool
  rtabEmpty : Bool
  ctrlEmpty : Bool
  reqValid : Bool
  reqOp : ReqOp
  reqNline : Nline c
  reqSid : Nat
  reqTid : Nat
  reqNeedRsp : Bool
  dirtySetEn : Bool
  dirtyMinSet : Fin c.sets
  dirtyMaxSet : Fin c.sets
  validSetEn : Bool
  validMinSet : Fin c.sets
  validMaxSet : Fin c.sets
  coreRspReady : Bool
  dirCheckNlineHitWay : Bits c.ways
  dirCheckNlineWback : Bool
  dirCheckNlineDirty : Bool
  dirCheckEntryValid : Bool
  dirCheckEntryWback : Bool
  dirCheckEntryDirty : Bool
  dirCheckEntryTag : Nat
  flushEmpty : Bool
  flushAllocReady : Bool

/-- Outputs of the FSM. -/
structure CmoOut (c : Cfg) where
  fsmD : CmoFsm
  opD : ReqOp
  nlineD : Nline c
  setIncr : Bool := false
  invalSetReset : Bool := false
  flushSetReset : Bool := false
  wayIncr : Bool := false
  wayReset : Bool := false
  flushAll : Bool := false
  invalAll : Bool := false
  dirCheckNline : Bool := false
  dirCheckEntry : Bool := false
  dirUpdt : Bool := false
  dirUpdtSet : Fin c.sets
  dirUpdtWay : Bits c.ways
  dirUpdtEntry : DirEntry := .zero
  wbufFlushAll : Bool := false
  flushReqValidD : Bool
  flushReqSetD : Fin c.sets
  flushReqWayD : Bits c.ways
  flushReqInvalD : Bool
  rspW : Bool := false
  rspSendD : Bool

namespace Cmo

variable {c : Cfg}

def reset (m : Cmo c) : Cmo c :=
  { m with fsmQ := .idle, flushReqValidQ := false, rspBuf := [], rspSendQ := false, flushFifo := [] }

/-- The response of the buffer is taken. -/
def rspR (m : Cmo c) (coreRspReady : Bool) : Bool := m.rspSendQ && coreRspReady

def rspRok (m : Cmo c) : Bool := !m.rspBuf.isEmpty

def coreRspValid (m : Cmo c) : Bool := m.rspRok && m.rspSendQ

def coreRsp (m : Cmo c) : Rsp := m.rspBuf.headD ⟨fun _ => 0, 0, 0, false, false⟩

def reqReady (m : Cmo c) (coreRspReady : Bool) : Bool :=
  decide (m.fsmQ = .idle) && (!m.rspRok || m.rspR coreRspReady)

/-- The handler waits for the other units, which may still use the pipeline. -/
def reqWait (m : Cmo c) : Bool :=
  decide (m.fsmQ = .fenceWaitWbufRtabEmpty ∨ m.fsmQ = .waitMshrRtabEmpty)

def checkNlineHit (i : CmoIn c) : Bool := any i.dirCheckNlineHitWay

/-! ## Requests to the flush controller -/

/-- A dirty line is found. -/
def flushReqW (m : Cmo c) (i : CmoIn c) : Bool :=
  c.wbEn && m.flushReqValidQ &&
    match m.fsmQ with
    | .flushAllNext | .flushAllLast => i.dirCheckEntryValid && i.dirCheckEntryDirty
    | .flushNlineNext => checkNlineHit i && i.dirCheckNlineDirty
    | _ => false

def flushReq (m : Cmo c) (i : CmoIn c) : CmoFlushReq c :=
  match m.fsmQ with
  | .flushNlineNext => ⟨m.nlineQ, i.dirCheckNlineHitWay⟩
  | _ => ⟨⟨i.dirCheckEntryTag, m.flushReqSetQ⟩, m.flushReqWayQ⟩

def flushReqIn (m : Cmo c) (i : CmoIn c) : Option (CmoFlushReq c) :=
  if m.flushReqW i then some (m.flushReq i) else none

def flushReqWok (m : Cmo c) (i : CmoIn c) : Bool :=
  !c.wbEn || Fifo.wok 3 true m.flushFifo i.flushAllocReady

/-- The line handed to the flush controller. -/
def flushAlloc (m : Cmo c) (i : CmoIn c) : Option (CmoFlushReq c) :=
  if c.wbEn then Fifo.rdata true m.flushFifo (m.flushReqIn i) else none

/-! ## CMO request handler FSM -/

def default (m : Cmo c) : CmoOut c where
  fsmD := m.fsmQ
  opD := m.opQ
  nlineD := m.nlineQ
  dirUpdtSet := ⟨0, c.sets_pos⟩
  dirUpdtWay := fun _ => false
  flushReqValidD := m.flushReqValidQ
  flushReqSetD := m.flushReqSetQ
  flushReqWayD := m.flushReqWayQ
  flushReqInvalD := m.flushReqInvalQ
  rspSendD := m.rspSendQ

/-- The operation is over: its response, if any, is sent. -/
def done (m : Cmo c) (o : CmoOut c) : CmoOut c :=
  { o with rspSendD := m.rspRok, fsmD := .idle }

def setLast (m : Cmo c) (i : CmoIn c) : Bool :=
  if m.opQ = .cmoFlushAll then decide (m.setQ = i.dirtyMaxSet) else decide (m.setQ = i.validMaxSet)

def wayLast (m : Cmo c) : Bool := m.wayQ ⟨c.ways - 1, c.pred_ways_lt⟩

def combIdle (m : Cmo c) (i : CmoIn c) : CmoOut c :=
  let o := { m.default with rspSendD := m.rspSendQ && !m.rspR i.coreRspReady }
  if i.reqValid && m.reqReady i.coreRspReady then
    let o := { o with rspW := i.reqNeedRsp }
    if i.reqOp.isCmoFence then
      let o := { o with wbufFlushAll := i.rtabEmpty }
      if !i.rtabEmpty || !i.wbufEmpty then { o with fsmD := .fenceWaitWbufRtabEmpty }
      else { o with rspSendD := i.reqNeedRsp }
    else if i.reqOp.isCmoInval || i.reqOp.isCmoFlush then
      { o with
        opD := i.reqOp, nlineD := i.reqNline, wayReset := true, fsmD := .waitMshrRtabEmpty }
    else o
  else o

def combFenceWait (m : Cmo c) (i : CmoIn c) : CmoOut c :=
  let o := { m.default with wbufFlushAll := i.rtabEmpty }
  if i.wbufEmpty && i.rtabEmpty then m.done o else o

/-- The other units are empty: start, unless there is nothing to invalidate or to flush. -/
def combStart (m : Cmo c) (i : CmoIn c) (o : CmoOut c) : CmoOut c :=
  match m.opQ with
  | .cmoInvalNline => if i.validSetEn then { o with fsmD := .invalCheckNline } else m.done o
  | .cmoInvalAll =>
    if i.validSetEn then { o with invalSetReset := true, fsmD := .invalSet } else m.done o
  | .cmoFlushNline =>
    if i.dirtySetEn then { o with flushReqInvalD := false, fsmD := .flushNlineFirst }
    else m.done o
  | .cmoFlushAll =>
    if i.dirtySetEn then
      { o with flushSetReset := true, flushReqInvalD := false, fsmD := .flushAllFirst }
    else m.done o
  | .cmoFlushInvalNline =>
    if i.validSetEn then { o with flushReqInvalD := true, fsmD := .flushNlineFirst }
    else m.done o
  | .cmoFlushInvalAll =>
    if i.validSetEn then
      { o with invalSetReset := true, flushReqInvalD := true, fsmD := .flushAllFirst }
    else m.done o
  | _ => o

def combWaitMshr (m : Cmo c) (i : CmoIn c) : CmoOut c :=
  if i.mshrEmpty && i.rtabEmpty && i.ctrlEmpty then m.combStart i m.default else m.default

def combInvalSet (m : Cmo c) (i : CmoIn c) : CmoOut c :=
  match m.opQ with
  | .cmoInvalNline | .cmoFlushInvalNline =>
    m.done { m.default with
      dirUpdt := checkNlineHit i
      dirUpdtSet := m.nlineQ.set
      dirUpdtWay := i.dirCheckNlineHitWay }
  | .cmoInvalAll | .cmoFlushInvalAll =>
    let o := { m.default with
      dirUpdt := true, dirUpdtSet := m.setQ, dirUpdtWay := fun _ => true, setIncr := true }
    if m.setLast i then m.done { o with invalAll := true } else o
  | _ => m.default

/-- Read the next entry of the walk. -/
def checkEntry (m : Cmo c) (o : CmoOut c) : CmoOut c :=
  { o with
    dirCheckEntry := true
    setIncr := m.wayLast
    wayIncr := true
    flushReqValidD := true
    flushReqSetD := m.setQ
    flushReqWayD := m.wayQ }

def combFlushAllFirst (m : Cmo c) (i : CmoIn c) : CmoOut c :=
  if c.wbEn then
    if m.flushReqWok i then { m.checkEntry m.default with fsmD := .flushAllNext } else m.default
  else if m.flushReqInvalQ then { m.default with fsmD := .invalSet }
  else m.done m.default

/-- Clean, and possibly invalidate, the entry read in the previous cycle. -/
def updtEntry (m : Cmo c) (i : CmoIn c) (o : CmoOut c) : CmoOut c :=
  { o with
    dirUpdt := i.dirCheckEntryValid && (i.dirCheckEntryDirty || m.flushReqInvalQ)
    dirUpdtSet := m.flushReqSetQ
    dirUpdtWay := m.flushReqWayQ
    dirUpdtEntry :=
      ⟨!m.flushReqInvalQ, !m.flushReqInvalQ && i.dirCheckEntryWback, false, false,
        i.dirCheckEntryTag⟩ }

def combFlushAllNext (m : Cmo c) (i : CmoIn c) : CmoOut c :=
  if m.flushReqValidQ then { m.updtEntry i m.default with flushReqValidD := false }
  else if m.flushReqWok i then
    let o := m.checkEntry m.default
    if m.setLast i && m.wayLast then { o with fsmD := .flushAllLast } else o
  else m.default

def combFlushAllLast (m : Cmo c) (i : CmoIn c) : CmoOut c :=
  let o := { m.default with flushReqValidD := false }
  let o := if m.flushReqValidQ then m.updtEntry i o else o
  if i.flushEmpty && (m.flushAlloc i).isNone then
    m.done { o with flushAll := true, invalAll := m.flushReqInvalQ }
  else o

def combFlushNlineFirst (m : Cmo c) (i : CmoIn c) : CmoOut c :=
  if c.wbEn then
    if m.flushReqWok i then
      { m.default with dirCheckNline := true, flushReqValidD := true, fsmD := .flushNlineNext }
    else m.default
  else if m.flushReqInvalQ then { m.default with fsmD := .invalCheckNline }
  else m.done m.default

def combFlushNlineNext (m : Cmo c) (i : CmoIn c) : CmoOut c :=
  let o := { m.default with flushReqValidD := false }
  let o :=
    if m.flushReqValidQ then
      { o with
        dirUpdt := checkNlineHit i
        dirUpdtSet := m.nlineQ.set
        dirUpdtWay := i.dirCheckNlineHitWay
        dirUpdtEntry :=
          ⟨!m.flushReqInvalQ, !m.flushReqInvalQ && i.dirCheckNlineWback, false, false,
            m.nlineQ.tag⟩ }
    else o
  if i.flushEmpty && (m.flushAlloc i).isNone then m.done o else o

def comb (m : Cmo c) (i : CmoIn c) : CmoOut c :=
  match m.fsmQ with
  | .idle => m.combIdle i
  | .fenceWaitWbufRtabEmpty => m.combFenceWait i
  | .waitMshrRtabEmpty => m.combWaitMshr i
  | .invalCheckNline => { m.default with dirCheckNline := true, fsmD := .invalSet }
  | .invalSet => m.combInvalSet i
  | .flushAllFirst => m.combFlushAllFirst i
  | .flushAllNext => m.combFlushAllNext i
  | .flushAllLast => m.combFlushAllLast i
  | .flushNlineFirst => m.combFlushNlineFirst i
  | .flushNlineNext => m.combFlushNlineNext i

/-! ## One cycle -/

def setD (m : Cmo c) (i : CmoIn c) (o : CmoOut c) : Fin c.sets :=
  if o.invalSetReset then i.validMinSet
  else if o.flushSetReset then i.dirtyMinSet
  else if o.setIncr then
    (if m.setLast i then ⟨0, c.sets_pos⟩
     else ⟨(m.setQ.val + 1) % c.sets, Nat.mod_lt _ c.sets_pos⟩)
  else m.setQ

/-- The first way. -/
def wayFirst : Bits c.ways := fun w => decide (w.val = 0)

def wayD (m : Cmo c) (o : CmoOut c) : Bits c.ways :=
  if c.ways = 1 then fun _ => true
  else if o.wayReset then wayFirst
  else if o.wayIncr then
    (if m.wayLast then wayFirst
     else fun w => decide (∃ v : Fin c.ways, v.val + 1 = w.val ∧ m.wayQ v = true))
  else m.wayQ

def step (m : Cmo c) (i : CmoIn c) : Cmo c :=
  let o := m.comb i
  { fsmQ := o.fsmD
    opQ := o.opD
    nlineQ := o.nlineD
    wayQ := m.wayD o
    setQ := m.setD i o
    flushReqValidQ := o.flushReqValidD
    flushReqSetQ := o.flushReqSetD
    flushReqWayQ := o.flushReqWayD
    flushReqInvalQ := o.flushReqInvalD
    rspBuf :=
      Fifo.step 1 false m.rspBuf
        (if o.rspW then some ⟨fun _ => 0, i.reqSid, i.reqTid, false, false⟩ else none)
        (m.rspR i.coreRspReady)
    rspSendQ := o.rspSendD
    flushFifo :=
      if c.wbEn then Fifo.step 3 true m.flushFifo (m.flushReqIn i) i.flushAllocReady
      else m.flushFifo }

/-! ## Lines to flush

Only a walk that flushes holds lines for the flush controller, and it does not end before the
last of them is taken. -/

/-- Lines to flush are held by a walk that flushes. -/
def HoldsFlush (m : Cmo c) : Prop :=
  m.flushFifo ≠ [] → c.wbEn = true ∧ m.fsmQ.flushes = true

variable {m : Cmo c} {i : CmoIn c}

theorem flushReqIn_eq_none (h : m.fsmQ.flushes = false) : m.flushReqIn i = none := by
  have hw : m.flushReqW i = false := by
    unfold flushReqW
    cases hf : m.fsmQ <;> rw [hf] at h <;> first | exact absurd h (by decide) | simp
  simp [flushReqIn, hw]

/-- The FSM leaves a walk that flushes only when nothing is left to flush. -/
theorem comb_flushes (h : m.fsmQ.flushes = true) :
    (m.comb i).fsmD.flushes = true ∨ (m.flushAlloc i).isNone = true := by
  unfold comb
  cases hf : m.fsmQ <;> rw [hf] at h <;> try exact absurd h (by decide)
  · left
    dsimp only [combFlushAllNext]
    split_ifs
    · simp [updtEntry, default, hf, CmoFsm.flushes]
    · rfl
    · simp [checkEntry, default, hf, CmoFsm.flushes]
    · simp [default, hf, CmoFsm.flushes]
  · dsimp only [combFlushAllLast]
    by_cases hd : (i.flushEmpty && (m.flushAlloc i).isNone) = true
    · right
      rw [Bool.and_eq_true] at hd
      exact hd.2
    · left
      rw [if_neg hd]
      split_ifs <;> simp [updtEntry, default, hf, CmoFsm.flushes]
  · dsimp only [combFlushNlineNext]
    by_cases hd : (i.flushEmpty && (m.flushAlloc i).isNone) = true
    · right
      rw [Bool.and_eq_true] at hd
      exact hd.2
    · left
      rw [if_neg hd]
      split_ifs <;> simp [default, hf, CmoFsm.flushes]

theorem holdsFlush_reset (m : Cmo c) : m.reset.HoldsFlush := fun h => absurd rfl h

theorem HoldsFlush.step (h : m.HoldsFlush) : (m.step i).HoldsFlush := by
  intro hne
  have hfifo : (m.step i).flushFifo =
      if c.wbEn then Fifo.step 3 true m.flushFifo (m.flushReqIn i) i.flushAllocReady
      else m.flushFifo := rfl
  rw [hfifo] at hne
  cases hen : c.wbEn with
  | false =>
    rw [hen] at hne
    exact absurd (h hne).1 (by simp [hen])
  | true =>
    rw [hen, if_pos rfl] at hne
    have hempty : m.flushFifo = [] → m.flushReqIn i = none → False := by
      intro h1 h2
      rw [h1, h2] at hne
      simp [Fifo.step, Fifo.accepted, Fifo.rok, Fifo.rdata] at hne
    refine ⟨rfl, ?_⟩
    cases hf : m.fsmQ.flushes with
    | false =>
      have hnil : m.flushFifo = [] := by
        by_contra hx
        rw [(h hx).2] at hf
        contradiction
      exact absurd (flushReqIn_eq_none hf) (hempty hnil)
    | true =>
      refine (comb_flushes hf).resolve_right fun hnone => ?_
      rw [flushAlloc, if_pos hen, Option.isNone_iff_eq_none] at hnone
      cases hl : m.flushFifo with
      | cons x l =>
        rw [hl] at hnone
        exact absurd hnone (by simp [Fifo.rdata])
      | nil =>
        rw [hl] at hnone
        exact hempty hl (by simpa [Fifo.rdata] using hnone)

end Cmo

end Hpdcache
