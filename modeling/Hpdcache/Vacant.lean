import Hpdcache.CmoFence

/-!
# The units when stage 1 is vacant

Most of what reaches a unit from stage 1 is the fields of the request, whether there is one or not,
and is of no effect as long as the unit is not asked anything. The results of the lookups that were
made for the request are in registers of their own: a unit that is not asked anything does not look
at them either.

* `Uncached.step_of_not_valid` — the snoop of the reservation is the one port that is not asked.
* `MemCtrl.step_bare`, `MemCtrl.step_look` — a vacant stage 1 writes nothing in the RAMs.
* `MissHandler.step_look` — between two refills the lookups of the MSHR are not used.
-/

namespace Hpdcache

open Hw

variable {c : Cfg}

/-! ## The fields of the request -/

namespace Wbuf

variable {b : Wbuf c} {i : WbufIn c}

theorem dataNext_of_not_write (hw : i.write = false) (p : Fin c.wbufDataEntries) :
    b.dataNext i p = b.dataQ p := by
  have hnone : b.dataWrite i = none := by
    refine foldl_eq_of_forall fun k _ => ?_
    unfold dataWriteAt
    cases b.stateQ k <;> simp [takes, coalesces, hw]
  simp [dataNext, hnone]

theorem step_of_not_write (hw : i.write = false) (hr : i.readFlushHit = false) (n : Nline c)
    (off : Nat) (data : Nat → Byte) (be : Nat → Bool) :
    b.step { i with nline := n, offset := off, writeData := data, writeBe := be } = b.step i := by
  unfold step
  congr 1
  · funext k
    cases hs : b.stateQ k <;> simp [stateNext, hs, takes, readFlush, timeout, coalesces, hw, hr]
  · funext k
    cases hs : b.stateQ k <;> simp [dirNext, hs, takes, timeout, coalesces, hw]
  · simp [hw, dataSent]
  · funext p
    rw [dataNext_of_not_write hw]
    refine dataNext_of_not_write ?_ p
    exact hw
  · simp [hw]
  · simp [hw]

end Wbuf

/-- The handler but for its reservation. -/
def Uncached.unreserved (u : Uncached c) : Uncached c := { u with lrscValidQ := false }

/-- What a store in stage 1 may do to the uncacheable handler is to take the reservation away. -/
theorem Uncached.step_of_not_valid {u : Uncached c} {i : UcIn c} (hv : i.reqValid = false)
    (r : UcReq c) (b : Bool) (n : Nline c) (off size : Nat) :
    (u.step { i with
      req := r, lrscSnoop := b, lrscSnoopNline := n, lrscSnoopOff := off
      lrscSnoopSize := size }).unreserved = (u.step i).unreserved := by
  unfold step unreserved
  congr 1
  · cases hf : u.fsmQ <;>
      simp [fsmD, hf, idleD, hv, memReqD, waitRspD, rmwDone, scAtomic, rdError, wrError]
  · simp [hv]
  · cases hf : u.fsmQ <;> simp [hv, scAtomic]
  · cases hf : u.fsmQ <;> simp [rspErrorSet, hf, hv, rdError, wrError]

theorem Uncached.lrscValidQ_step_of_not_valid {u : Uncached c} {i : UcIn c}
    (hv : i.reqValid = false) (hs : (i.lrscSnoop && u.lrscSnoopHit i) = false) (r : UcReq c)
    (n : Nline c) (off size : Nat) :
    (u.step { i with
      req := r, lrscSnoop := false, lrscSnoopNline := n, lrscSnoopOff := off
      lrscSnoopSize := size }).lrscValidQ = (u.step i).lrscValidQ := by
  unfold step
  rw [hs]
  cases hf : u.fsmQ <;> simp [lrscUcReset, lrscUcSet, hf, hv, rdError]

/-- The CMO handler stays idle. -/
theorem Cmo.comb_of_idle {m : Cmo c} {i : CmoIn c} (hf : m.fsmQ = .idle)
    (hv : i.reqValid = false) :
    m.comb i = { m.default with rspSendD := m.rspSendQ && !m.rspR i.coreRspReady } := by
  simp [comb, hf, combIdle, hv]

theorem Cmo.step_of_idle {m : Cmo c} {i j : CmoIn c} (hf : m.fsmQ = .idle)
    (hi : i.reqValid = false) (hj : j.reqValid = false) (hr : i.coreRspReady = j.coreRspReady)
    (ha : i.flushAllocReady = j.flushAllocReady) : m.step i = m.step j := by
  have hnone : ∀ k : CmoIn c, m.flushReqIn k = none := fun k =>
    flushReqIn_eq_none (by rw [hf]; rfl)
  unfold step
  rw [comb_of_idle hf hi, comb_of_idle hf hj]
  simp [default, setD, wayD, hnone, hr, ha]

theorem ErrFsm.comb_of_idle {e : ErrFsm c} {i : ErrIn c} (hb : e.busy = false)
    (ht : i.trigger = false) : e.comb i = e.default := by
  unfold comb
  cases hecc : c.eccEn with
  | false => rfl
  | true =>
    have hf : e.fsmQ = .idle := by simpa [busy, hecc] using hb
    simp [hf, ht]

theorem ErrFsm.step_of_idle {e : ErrFsm c} {i : ErrIn c} (hb : e.busy = false)
    (ht : i.trigger = false) : e.step i = e := by
  unfold step
  rw [comb_of_idle hb ht]
  simp [default, ht]

theorem Flush.step_of_idle {f : Flush c} {i : FlushIn c} (hb : f.busy = false)
    (data : Nat → Byte) : f.step { i with readData := data } = f.step i := by
  have hf : f.fsmQ = .idle := by simpa [busy] using hb
  unfold step
  congr 1
  simp [Resizer.step, hf]

/-- A replay table that takes nothing. The dependencies on the pending transactions are cleared
only where there are some. -/
theorem Rtab.step_of_not_alloc {r : Rtab c} {i : RtabIn c} (ha : i.alloc = false)
    (hl : i.allocAndLink = false) (hb : i.popRback = false) (hf : r.fence = false)
    (n : Nline c) (q : RtabEntry c) (d : RtabDeps) (p : Bool) :
    r.step { i with checkNline := n, allocReq := q, allocDeps := d, noPendTrans := p } =
      r.step i := by
  have hpend : ∀ k, (r.depsQ k).pendTrans = false := any_eq_false.1 hf
  unfold step
  congr 1
  · funext k
    simp [allocBv, rbackBv, ha, hl, hb]
  · funext k
    simp [hl]
  · funext k
    simp [allocBv, hl]
  · funext k
    simp [RtabDeps.setRst, depsSet, depsRst, allocBv, rbackBv, ha, hl, hb, hpend, setRst,
      waitersMshrFullGnt, waitersDirUnavailableGnt]
    exact ⟨rfl, rfl⟩

/-! ## The registers of the lookups -/

/-- The registers that hold the result of the lookups made for the request in stage 1, and the
response of stage 1. -/
structure Lookup (c : Cfg) where
  reqQ : CtrlReq c
  rsp : St2Rsp
  dataReqReadWayQ : Bits c.ways
  dirRentry : Fin c.ways → DirEntry
  dirReqSetQ : Fin c.sets
  dataRentry : Fin c.ways → Nat → Byte
  dataReadReqWordIndexQ : Nat
  mshrRentry : Fin c.mshrWays → MshrEntry c
  checkCacheSetQ : Fin c.sets

variable {l k : Lookup c}

def MemCtrl.look (m : MemCtrl c) (l : Lookup c) : MemCtrl c :=
  { m with
    dirRentry := l.dirRentry
    dirReqSetQ := l.dirReqSetQ
    dataRentry := l.dataRentry
    dataReadReqWordIndexQ := l.dataReadReqWordIndexQ }

def MissHandler.look (m : MissHandler c) (l : Lookup c) : MissHandler c :=
  { m with mshr := { m.mshr with rentry := l.mshrRentry, checkCacheSetQ := l.checkCacheSetQ } }

namespace MissHandler

variable {m : MissHandler c} {i : MissIn c}

/-- A check of the MSHR changes the registers of the lookup only. -/
theorem step_check (ha : i.alloc = false) (b : Bool) (set : Fin c.sets) :
    (m.step { i with check := b, checkSet := set }).look l = (m.step i).look l := by
  unfold look step
  congr 1
  simp [mshrIn, Mshr.step, ha]
  exact ⟨rfl, rfl⟩

/-- A cycle between two refills. -/
theorem step_of_idle (hf : m.refillFsmQ = .idle) : m.step i =
    { m with
      mshr := m.mshr.step
        { m.mshrIn i with ack := (m.refillIdle i).ack, ackCs := (m.refillIdle i).ackCs }
      cbuf := m.cbuf.step (c.wbEn && i.allocDirty && (m.allocReady && i.alloc))
        ⟨i.allocWdata, i.allocBe⟩ false ⟨0, c.cbufEntries_pos⟩
      reqFsmQ := m.reqFsmD i
      allocWayQ := if m.allocReady && i.alloc then m.mshr.allocWay i.allocNline else m.allocWayQ
      allocNlineQ := if m.allocReady && i.alloc then i.allocNline else m.allocNlineQ
      refillFsmQ := (m.refillIdle i).fsmD
      refillCntQ := (m.refillIdle i).cntD
      respFifo := Fifo.step c.refillFifoDepth false m.respFifo i.memResp (m.refillIdle i).metaR
      coreRspBuf := Fifo.step 1 c.refillCoreRspFeedthrough m.coreRspBuf none true } := by
  have hcomb : m.refillComb i = m.refillIdle i := by simp [refillComb, hf]
  have hload : m.refillLoad = false := by simp [refillLoad, hf]
  have hrsp : m.refillCoreRsp = none := by simp [refillCoreRsp, refillLane, hf, refillDefault]
  unfold step mshrIn
  simp [hcomb, hload, hrsp, Cbuf.step]

theorem step_invalHit (hf : m.refillFsmQ = .idle) (b : Bool) :
    m.step { i with invalHit := b } = m.step i := by
  rw [step_of_idle hf, step_of_idle hf]
  rfl

/-- Between two refills the lookups of the MSHR are not used. -/
theorem step_look (hf : m.refillFsmQ = .idle) :
    ((m.look k).step i).look l = (m.step i).look l := by
  have hf' : (m.look k).refillFsmQ = .idle := hf
  rw [step_of_idle hf, step_of_idle hf']
  rfl

end MissHandler

/-! ## The RAMs -/

/-- Nobody uses the directory but those who look a set up. -/
structure MemIn.DirFree (i : MemIn c) : Prop where
  refill : i.dirRefill = false
  invalWrite : i.dirInvalWrite = false
  cmoCheckNline : i.dirCmoCheckNline = false
  cmoCheckEntry : i.dirCmoCheckEntry = false
  cmoUpdt : i.dirCmoUpdt = false
  updt : i.dirUpdt = false
  errRead : i.dirErrRead = false
  errWrite : i.dirErrWrite = false

/-- There is no request in stage 1, and no refill. -/
structure MemIn.Unrequested (i : MemIn c) : Prop where
  updtSelVictim : i.dirUpdtSelVictim = false
  victimSel : i.dirVictimSel = false
  refill : i.dirRefill = false
  refillUpdtSelVictim : i.dirRefillUpdtSelVictim = false
  invalWrite : i.dirInvalWrite = false
  dataWrite : i.dataReqWrite = false
  dataRefill : i.dataRefill = false

/-- The fields that matter without a request in stage 1 and without a refill. -/
def MemIn.bare (i : MemIn c) : MemIn c :=
  { i with
    dirMatchTag := 0
    dirVictimSet := ⟨0, c.sets_pos⟩
    dirRefillSet := ⟨0, c.sets_pos⟩
    dataReqReadSet := ⟨0, c.sets_pos⟩
    dataReqReadSize := 0
    dataReqReadWord := 0
    dataReqReadWay := fun _ => false
    dataReqWriteEnable := false
    dataReqWriteMerge := false
    dataReqWriteSet := ⟨0, c.sets_pos⟩
    dataReqWriteWay := fun _ => false
    dataReqWriteSize := 0
    dataReqWriteWord := 0
    dataReqWriteData := fun _ => 0
    dataReqWriteBe := fun _ => false
    dataRefillSet := ⟨0, c.sets_pos⟩
    dataRefillData := fun _ => 0 }

namespace MemCtrl

variable {m m' : MemCtrl c} {i j : MemIn c}

theorem dirCtrl_we (hinit : m.initQ = true) (h : i.DirFree) (w : Fin c.ways) :
    (m.dirCtrl i).we w = false := by
  unfold dirCtrl
  simp only [hinit, h.refill, h.invalWrite, h.cmoCheckNline, h.cmoCheckEntry, h.cmoUpdt, h.updt,
    h.errRead, h.errWrite, Bool.not_true, Bool.and_false, Bool.false_eq_true, if_false]
  split_ifs <;> rfl

theorem look_eq (initQ : m.initQ = m'.initQ) (initSetQ : m.initSetQ = m'.initSetQ)
    (dirRam : m.dirRam = m'.dirRam) (dirReqWayQ : m.dirReqWayQ = m'.dirReqWayQ)
    (dirErrWayQ : m.dirErrWayQ = m'.dirErrWayQ) (victim : m.victim = m'.victim)
    (dataBits : m.dataBits = m'.dataBits) (dataCheck : m.dataCheck = m'.dataCheck)
    (dataFlushRowIndexQ : m.dataFlushRowIndexQ = m'.dataFlushRowIndexQ)
    (dataFlushReadQ : m.dataFlushReadQ = m'.dataFlushReadQ) : m.look l = m'.look l := by
  cases m
  cases m'
  simp_all [look]

/-- A write sets the address of its column. -/
theorem dataCtrl_of_we {wr : DataWrite c} {rd : DataRead c}
    {row : Bits (c.ways / c.dataWaysPerRamWord)} {r : Fin (c.ways / c.dataWaysPerRamWord)} {k : Nat}
    (h : (dataCtrl wr rd row r k).we = true) : (dataCtrl wr rd row r k).set = wr.set ∧
      (dataCtrl wr rd row r k).chunk = wr.word / c.accessWords := by
  have hcol : (wr.write && computeDataRamCs c wr.size wr.word k) = true := by
    simp only [dataCtrl, Bool.and_eq_true] at h
    simpa using h.2.2
  simp only [dataCtrl, hcol, if_true, and_self]

/-- What is written in the data RAM does not depend on what is read. -/
theorem dataWe_congr (hw : m.dataWrite i = m'.dataWrite j) (hway : dataWay i = dataWay j) :
    m.dataWe i = m'.dataWe j := by
  funext set w b
  simp only [dataWe, hw, hway]
  refine decide_eq_decide.2 (and_congr_right fun hwe => ?_)
  have hi := dataCtrl_of_we hwe
  have hj : (dataCtrl (m'.dataWrite j) (dataRead j) (wayToDataRamRow (dataWay j)) (dataRow w)
      (b % c.accessBytes / c.wordBytes)).we = true := hwe
  rw [hi.1, hi.2, (dataCtrl_of_we hj).1, (dataCtrl_of_we hj).2]

theorem dataBitsNext_congr (hw : m.dataWrite i = m'.dataWrite j) (hway : dataWay i = dataWay j)
    (hbits : m.dataBits = m'.dataBits) : m.dataBitsNext i = m'.dataBitsNext j := by
  unfold dataBitsNext
  rw [dataWe_congr hw hway, hw, hbits]

theorem dataCheckNext_congr (hw : m.dataWrite i = m'.dataWrite j) (hway : dataWay i = dataWay j)
    (hcheck : m.dataCheck = m'.dataCheck) : m.dataCheckNext i = m'.dataCheckNext j := by
  unfold dataCheckNext
  rw [dataWe_congr hw hway, hw, hcheck]

/-- The lookups of the directory and the reads of the data change the registers of the lookups
only. -/
theorem step_ports (hinit : m.initQ = true) (h : i.DirFree) (b₁ b₂ b₃ : Bool) :
    (m.step { i with dirMatch := b₁, dirInvalCheck := b₂, dataReqRead := b₃ }).look l =
      (m.step i).look l := by
  have h' : MemIn.DirFree { i with dirMatch := b₁, dirInvalCheck := b₂, dataReqRead := b₃ } :=
    { h with }
  unfold look step
  congr 1
  · funext set w
    simp [dirCtrl_we hinit h, dirCtrl_we hinit h']
  · exact dataBitsNext_congr rfl rfl rfl
  · exact dataCheckNext_congr rfl rfl rfl

theorem step_bare (h : i.Unrequested) : (m.step i.bare).look l = (m.step i).look l := by
  have hctrl : m.dirCtrl i.bare = m.dirCtrl i := by
    simp only [dirCtrl, MemIn.bare, h.refill, Bool.false_eq_true, if_false]
  have hwrite : m.dataWrite i.bare = m.dataWrite i := by
    simp only [dataWrite, MemIn.bare, h.dataRefill, h.dataWrite, Bool.false_eq_true, if_false]
  have hway : dataWay i.bare = dataWay i := by
    simp only [dataWay, MemIn.bare, h.dataWrite, Bool.false_eq_true, if_false]
  unfold look step
  rw [hctrl, hway, dataBitsNext_congr hwrite hway rfl, dataCheckNext_congr hwrite hway rfl]
  congr 1
  simp only [MemIn.bare, h.updtSelVictim, h.refillUpdtSelVictim]
  rfl

/-- Two accesses that write the same. -/
def DirPort.SameWrite (p q : DirPort c) : Prop :=
  p = q ∨ (∀ w, p.we w = false) ∧ ∀ w, q.we w = false

theorem DirPort.SameWrite.ite {P : Prop} [Decidable P] {a p q : DirPort c} (h : p.SameWrite q) :
    DirPort.SameWrite (if P then a else p) (if P then a else q) := by
  split_ifs
  · exact .inl rfl
  · exact h

/-- With nothing in stage 1 the lookups are not used. -/
theorem step_look (h : i.Unrequested) : ((m.look k).step i).look l = (m.step i).look l := by
  have hctrl : ((m.look k).dirCtrl i).SameWrite (m.dirCtrl i) := by
    simp only [dirCtrl, h.refill, h.invalWrite, Bool.false_eq_true, if_false]
    exact .ite <| .ite <| .ite <| .ite <| .ite <| .ite <| .ite <| .ite <| .ite <|
      .inr ⟨fun _ => rfl, fun _ => rfl⟩
  have hdir : ((m.look k).step i).dirRam = (m.step i).dirRam := by
    funext set w
    obtain hc | ⟨hl, hm⟩ := hctrl
    · simp only [step, hc]
      rfl
    · simp only [step, hl, hm, Bool.false_eq_true, and_false, if_false]
      rfl
  have hwrite : (m.look k).dataWrite i = m.dataWrite i := by
    simp only [dataWrite, h.dataRefill, h.dataWrite, Bool.false_eq_true, if_false]
  have hvictim : ((m.look k).step i).victim = (m.step i).victim := by
    simp only [step, h.updtSelVictim, h.refillUpdtSelVictim, h.victimSel, Victim.step,
      Victim.lfsrShift, Bool.false_and, Bool.or_self, Bool.false_eq_true, if_false]
    rfl
  exact look_eq rfl rfl hdir rfl rfl hvictim (dataBitsNext_congr hwrite rfl rfl)
    (dataCheckNext_congr hwrite rfl rfl) rfl rfl

end MemCtrl

end Hpdcache
