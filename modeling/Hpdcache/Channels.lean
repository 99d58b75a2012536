import Hpdcache.AmoData
import Hpdcache.FlushData
import Hpdcache.Lib.Channel
import Hpdcache.MemId
import Hpdcache.WbufRefine

/-!
# The channels to the memory

The arbiters between the units of the cache and the three channels on which it sends: the reads, the
writes and the data of the writes. The arbiters have a fixed priority and hold their grant. A write
goes through a buffer of one word, and the grants of the writes through a second one, whose head
selects the unit that sends its data.

**Sources.** What a unit offers comes from its registers only, and stays in them until it is taken:
the FSMs of the misses and of the uncacheable requests wait, the buffers keep their head, and no
write coalesces in an entry of the write buffer that has left its directory.

* `Channels.step` — one cycle, in which the units see the ready of the arbiters.
* `Channels.stable` — a word that a channel offers is offered until it is taken.
-/

namespace Hpdcache

open Hw

/-- The parameters that pass the checks on the identifiers and on the buffer of the flush
controller. -/
structure MemCfg extends IdCfg where
  resizable : cfg.memWords ∣ cfg.accessWords ∨ cfg.accessWords ∣ cfg.memWords

/-- A request on the read or on the write channel. -/
structure MemReq (k : MemCfg) where
  nline : Nline k.cfg
  off : Nat
  len : Nat
  size : Nat
  id : k.MemId
  command : MemCommand
  atomic : MemAtomic
  cacheable : Bool

/-- A beat on the channel of the write data. -/
structure MemReqW where
  data : Nat → Byte
  be : Nat → Bool
  last : Bool

/-- The code of a number of bytes. -/
def memSize (bytes : Nat) : Nat :=
  if bytes = 0 then 0
  else if bytes ≤ 2 then 1
  else if bytes ≤ 4 then 2
  else if bytes ≤ 8 then 3
  else if bytes ≤ 16 then 4
  else if bytes ≤ 32 then 5
  else if bytes ≤ 64 then 6
  else if bytes ≤ 128 then 7
  else 0

namespace MemCfg

variable (k : MemCfg)

def refill : RefillCfg := ⟨k.cfg, k.resizable⟩

/-! ## Requests of the units -/

def missRead (x : MissReq k.cfg) : MemReq k where
  nline := x.nline
  off := 0
  len := (k.cfg.clWords / k.cfg.memWords - 1) % 256
  size := Nat.clog 2 k.cfg.memBytes % 8
  id := k.missId x.set x.way
  command := .read
  atomic := .add
  cacheable := true

def ucRead (u : Uncached k.cfg) : MemReq k where
  nline := u.reqQ.nline
  off := u.reqQ.off
  len := 0
  size := u.reqQ.size
  id := k.ucId
  command := if u.reqQ.op = .amoLr then .atomic else .read
  atomic := if u.reqQ.op = .amoLr then .ldex else .add
  cacheable := false

def wbufWrite (x : WbufMeta k.cfg) : MemReq k where
  nline := x.tag.nline
  off := x.tag.sub * k.cfg.wbufBytes
  len := 0
  size := memSize k.cfg.wbufBytes
  id := k.tagId false (k.wbufId x.id)
  command := .write
  atomic := .add
  cacheable := !x.uc

def flushWrite (x : FlushMeta k.cfg) : MemReq k where
  nline := x.nline
  off := 0
  len := k.refill.memReqFlits % 256
  size := memSize k.cfg.memBytes
  id := k.tagId true (k.flushId x.id)
  command := .write
  atomic := .add
  cacheable := true

/-- The operations that are sent as an atomic command on the write channel. -/
def ucAtomic (op : ReqOp) : Bool := op.isAmoRmw || decide (op = .amoSc)

def ucWrite (u : Uncached k.cfg) : MemReq k where
  nline := u.reqQ.nline
  off := u.reqQ.off
  len := 0
  size := u.reqQ.size
  id := k.ucId
  command := if ucAtomic u.reqQ.op then .atomic else .write
  atomic := if ucAtomic u.reqQ.op then u.reqQ.op.memAtomic else .add
  cacheable := false

/-! ## Data of the units -/

def wbufData (b : Wbuf k.cfg) (x : WbufSendData k.cfg) : MemReqW where
  data := (Wbuf.memBeat x.tag (b.dataQ x.ptr)).data
  be := (Wbuf.memBeat x.tag (b.dataQ x.ptr)).be
  last := true

def flushData (rlast : Bool) (x : ResizerSlot) : MemReqW where
  data := Slot.data k.refill.flushResize ⟨x.chunks, x.left⟩
  be := fun _ => true
  last := rlast

/-- The data of a request are repeated over the word of the memory, with the byte enables in the
place of the request only. -/
def ucData (u : Uncached k.cfg) : MemReqW where
  data := fun x => u.memWdata (x % k.cfg.reqBytes)
  be := fun x =>
    if 1 < k.cfg.memBytes / k.cfg.reqBytes then
      decide (x / k.cfg.reqBytes = u.reqQ.off / k.cfg.reqBytes % (k.cfg.memBytes / k.cfg.reqBytes)) &&
        u.reqQ.be (x % k.cfg.reqBytes)
    else u.reqQ.be x
  last := true

end MemCfg

/-- The cache with the counter of the beats of a flush and the two arbiters. -/
structure Channels (k : MemCfg) where
  cache : Cache k.cfg
  writeFlitsCntQ : Nat
  readArb : FxArb 2
  writeArb : FxArb 3
  reqFifo : List (MemReq k)
  gntFifo : List (Bits 3)

/-- The inputs of the cache, and what the memory is ready to take. The readies of the units in
`core` are not used. -/
structure ChannelsIn (k : MemCfg) where
  core : CacheIn k.cfg
  memReqReadReady : Bool
  memReqWriteReady : Bool
  memReqWriteDataReady : Bool

namespace Channels

variable {k : MemCfg}

def start (c : Cache k.cfg) : Channels k := ⟨c.reset, 0, FxArb.reset 2, FxArb.reset 3, [], []⟩

variable (s : Channels k) (i : ChannelsIn k)

/-! ## Read channel -/

def missPort : Fin 2 := ⟨0, Nat.two_pos⟩

def ucReadPort : Fin 2 := ⟨1, Nat.one_lt_two⟩

/-- The misses and the uncacheable requests. -/
def reads : Fin 2 → Option (MemReq k)
  | 0 => s.cache.miss.memReq.map k.missRead
  | 1 => if s.cache.uc.memReadValid then some (k.ucRead s.cache.uc) else none

def readGnt : Bits 2 := s.readArb.gnt (FxArb.valid s.reads)

def memReqRead : Option (MemReq k) := granted s.readGnt s.reads

def readReady : Bits 2 :=
  fun j => i.memReqReadReady && s.readGnt j && FxArb.valid s.reads j

/-! ## Write channel -/

def wbufPort : Fin 3 := ⟨0, Nat.succ_pos 2⟩

def flushPort : Fin 3 := ⟨1, Nat.one_lt_succ_succ 1⟩

def ucWritePort : Fin 3 := ⟨2, Nat.lt_succ_self 2⟩

/-- The write buffer, the flush controller and the uncacheable requests. -/
def writes : Fin 3 → Option (MemReq k)
  | 0 => if k.cfg.wtEn then s.cache.wbuf.metaFifo.head?.map k.wbufWrite else none
  | 1 => if k.cfg.wbEn then s.cache.flush.metaFifo.head?.map k.flushWrite else none
  | 2 => if s.cache.uc.memWriteValid then some (k.ucWrite s.cache.uc) else none

def writeGnt : Bits 3 := s.writeArb.gnt (FxArb.valid s.writes)

def gntWok : Bool := Fifo.wok 2 false s.gntFifo false

def reqWok : Bool := Fifo.wok 1 true s.reqFifo i.memReqWriteReady

/-- The arbiter gives a request to its buffers. -/
def arbReady : Bool := s.gntWok && s.reqWok i

def reqValid : Bool := any fun j => s.writeGnt j && FxArb.valid s.writes j

/-- The request that is written in the buffer. -/
def reqW : Option (MemReq k) := if s.gntWok then granted s.writeGnt s.writes else none

/-- The grant that is written in the buffer. -/
def gntW : Option (Bits 3) := if s.reqValid && s.reqWok i then some s.writeGnt else none

def memReqWrite : Option (MemReq k) := Fifo.rdata true s.reqFifo s.reqW

def writeReady : Bits 3 := fun j => s.writeGnt j && s.arbReady i

/-! ## Write data channel -/

/-- The last beat of a flush. -/
def rlast : Bool := decide (s.writeFlitsCntQ = k.refill.memReqFlits)

def datas : Fin 3 → Option MemReqW
  | 0 => if k.cfg.wtEn then s.cache.wbuf.dataPtrFifo.head?.map (k.wbufData s.cache.wbuf) else none
  | 1 => if k.cfg.wbEn then s.cache.flush.resizer.slots.head?.map (k.flushData s.rlast) else none
  | 2 => if s.cache.uc.memWdataValid then some (k.ucData s.cache.uc) else none

/-- The grant at the head of the buffer, none when it is empty. -/
def dataGnt : Bits 3 := s.gntFifo.headD fun _ => false

def memReqWriteData : Option MemReqW := granted s.dataGnt s.datas

def dataReady : Bits 3 := fun j => s.dataGnt j && i.memReqWriteDataReady

/-- The grant is over with the last beat. -/
def gntR : Bool :=
  i.memReqWriteDataReady && s.memReqWriteData.elim false MemReqW.last

/-! ## One cycle -/

def cacheIn : CacheIn k.cfg :=
  { i.core with
    missReqReady := s.readReady i missPort
    ucReadReady := s.readReady i ucReadPort
    wbufReqReady := s.writeReady i wbufPort
    flushReqReady := s.writeReady i flushPort
    ucWriteReady := s.writeReady i ucWritePort
    wbufDataReady := s.dataReady i wbufPort
    flushDataReady := s.dataReady i flushPort
    ucWdataReady := s.dataReady i ucWritePort }

def step : Channels k where
  cache := s.cache.step (s.cacheIn i)
  writeFlitsCntQ :=
    if (s.datas flushPort).isSome && s.dataReady i flushPort then
      (if s.rlast then 0 else (s.writeFlitsCntQ + 1) % 256)
    else s.writeFlitsCntQ
  readArb := s.readArb.step (FxArb.valid s.reads) i.memReqReadReady
  writeArb := s.writeArb.step (FxArb.valid s.writes) (s.arbReady i)
  reqFifo := Fifo.step 1 true s.reqFifo s.reqW i.memReqWriteReady
  gntFifo := Fifo.step 2 false s.gntFifo (s.gntW i) (s.gntR i)

end Channels

/-! ## The units keep what is not taken -/

/-- The FSM of the misses waits, and takes no other miss. -/
theorem MissHandler.memReq_stays {c : Cfg} {m : MissHandler c} {i : MissIn c} :
    Stays m.memReq i.memReqReady (m.step i).memReq := by
  intro hr x hx
  cases hf : m.reqFsmQ with
  | idle =>
    rw [MissHandler.memReq, hf] at hx
    contradiction
  | send =>
    have hfsm : (m.step i).reqFsmQ = .send := by
      show m.reqFsmD i = .send
      simp [MissHandler.reqFsmD, hf, hr]
    have hready : m.allocReady = false := by simp [MissHandler.allocReady, hf]
    have hline : (m.step i).allocNlineQ = m.allocNlineQ := by
      show (if m.allocReady && i.alloc then _ else m.allocNlineQ) = m.allocNlineQ
      rw [hready]
      rfl
    have hway : (m.step i).allocWayQ = m.allocWayQ := by
      show (if m.allocReady && i.alloc then _ else m.allocWayQ) = m.allocWayQ
      rw [hready]
      rfl
    rw [MissHandler.memReq, hfsm, hline, hway]
    rwa [MissHandler.memReq, hf] at hx

namespace Uncached

variable {c : Cfg} {u : Uncached c} {i : UcIn c}

theorem waitRspD_cases : u.waitRspD i = .memWaitRsp ∨ u.waitRspD i = .coreRsp ∨
    u.waitRspD i = .amoWriteData ∨
    (u.waitRspD i = .idle ∧ u.reqQ.needRsp = false ∧ u.reqQ.op.isAmo = false) := by
  have hload : u.reqQ.op.isLoad = true → u.reqQ.op.isAmo = false := by
    cases u.reqQ.op <;> simp [ReqOp.isLoad, ReqOp.isAmo]
  have hstore : u.reqQ.op.isStore = true → u.reqQ.op.isAmo = false := by
    cases u.reqQ.op <;> simp [ReqOp.isStore, ReqOp.isAmo]
  unfold waitRspD
  dsimp only
  split_ifs <;> simp_all

/-- Once half of a request is taken, the handler waits with the other half only. -/
theorem step_of_taken (hb : u.fsmQ ≠ .idle) (hq : u.fsmQ ≠ .memReq) :
    (u.step i).fsmQ ≠ .memReq ∧
      ((u.step i).fsmQ = .memWReq ↔ u.fsmQ = .memWReq ∧ i.memWriteReady = false) ∧
      ((u.step i).fsmQ = .memWdataReq ↔ u.fsmQ = .memWdataReq ∧ i.memWdataReady = false) := by
  show u.fsmD i ≠ _ ∧ (u.fsmD i = _ ↔ _) ∧ (u.fsmD i = _ ↔ _)
  cases hf : u.fsmQ with
  | idle => contradiction
  | memReq => contradiction
  | memWReq => cases hv : i.memWriteReady <;> simp [fsmD, hf, hv]
  | memWdataReq => cases hv : i.memWdataReady <;> simp [fsmD, hf, hv]
  | memWaitRsp =>
    rcases waitRspD_cases (u := u) (i := i) with h | h | h | h <;> simp [fsmD, hf, h]
  | coreRsp => cases hv : i.coreRspReady <;> simp [fsmD, hf, hv]
  | amoWriteData => simp [fsmD, hf]

/-- The FSM goes to the state that waits with what is not taken. -/
theorem step_of_write (hq : u.fsmQ = .memReq) (hw : isWrite u.reqQ.op = true) :
    (u.step i).fsmQ =
      if i.memWriteReady then (if i.memWdataReady then .memWaitRsp else .memWdataReq)
      else if i.memWdataReady then .memWReq else .memReq := by
  show u.fsmD i = _
  cases hv : i.memWriteReady <;> cases hd : i.memWdataReady <;>
    simp [fsmD, hq, memReqD, not_read_of_isWrite hw, hw, hv, hd]

theorem step_of_not_write (hq : u.fsmQ = .memReq) (hw : isWrite u.reqQ.op = false) :
    (u.step i).fsmQ =
      if isRead u.reqQ.op && i.memReadReady then .memWaitRsp else .memReq := by
  show u.fsmD i = _
  cases hr : isRead u.reqQ.op <;> cases hv : i.memReadReady <;> simp [fsmD, hq, memReqD, hw, hr, hv]

/-- What is offered on a channel is offered until it is taken, and not again. -/
theorem memReadValid_step (hb : u.fsmQ ≠ .idle) :
    (u.step i).memReadValid = (u.memReadValid && !i.memReadReady) := by
  rw [memReadValid, reqQ_step hb, memReadValid]
  by_cases hq : u.fsmQ = .memReq
  · cases hw : isWrite u.reqQ.op with
    | true => simp [not_read_of_isWrite hw]
    | false =>
      rw [step_of_not_write hq hw]
      cases isRead u.reqQ.op <;> cases i.memReadReady <;> simp [hq]
  · simp [hq, (step_of_taken (i := i) hb hq).1]

theorem memWriteValid_step (hb : u.fsmQ ≠ .idle) :
    (u.step i).memWriteValid = (u.memWriteValid && !i.memWriteReady) := by
  rw [memWriteValid, reqQ_step hb, memWriteValid]
  by_cases hq : u.fsmQ = .memReq
  · cases hw : isWrite u.reqQ.op with
    | true =>
      rw [step_of_write hq hw]
      cases i.memWriteReady <;> cases i.memWdataReady <;> simp [hq]
    | false =>
      rw [step_of_not_write hq hw]
      split_ifs <;> simp [hq]
  · obtain ⟨hreq, hwrite, -⟩ := step_of_taken (i := i) hb hq
    simp [hq, hreq, hwrite]

theorem memWdataValid_step (hb : u.fsmQ ≠ .idle) :
    (u.step i).memWdataValid = (u.memWdataValid && !i.memWdataReady) := by
  rw [memWdataValid, reqQ_step hb, memWdataValid]
  by_cases hq : u.fsmQ = .memReq
  · cases hw : isWrite u.reqQ.op with
    | true =>
      rw [step_of_write hq hw]
      cases i.memWriteReady <;> cases i.memWdataReady <;> simp [hq]
    | false =>
      rw [step_of_not_write hq hw]
      split_ifs <;> simp [hq]
  · obtain ⟨hreq, -, hdata⟩ := step_of_taken (i := i) hb hq
    simp [hq, hreq, hdata]

theorem busy_of_memReadValid (h : u.memReadValid = true) : u.fsmQ ≠ .idle := by
  intro hf
  simp [memReadValid, hf] at h

theorem busy_of_memWdataValid (h : u.memWdataValid = true) : u.fsmQ ≠ .idle := by
  intro hf
  simp [memWdataValid, hf] at h

end Uncached

/-- The next word of a buffer that converts the width. -/
theorem Resizer.head?_stays {c : Cfg} {q : Resizer} {w wlast r : Bool} {data : Nat → Byte} :
    Stays q.slots.head? r (q.step c w wlast data r).slots.head? := by
  intro hr x hx
  subst hr
  have hread : Resizer.read q.slots false = q.slots := by cases q.slots <;> rfl
  unfold Resizer.step
  rw [hread]
  cases hs : q.slots with
  | nil =>
    rw [hs] at hx
    contradiction
  | cons y rest =>
    rw [hs] at hx
    by_cases hw : (w && q.wok c) = true
    · rw [if_pos hw]
      split_ifs <;> exact hx
    · rw [if_neg hw]
      exact hx

/-- No write coalesces in an entry whose data are to be sent. -/
theorem Wbuf.Wf.data_stays {c : Cfg} {b : Wbuf c} {i : WbufIn c} (hw : b.Wf) :
    Stays (b.dataPtrFifo.head?.map fun x => (x, b.dataQ x.ptr)) i.memDataReady
      ((b.step i).dataPtrFifo.head?.map fun x => (x, (b.step i).dataQ x.ptr)) := by
  intro hr y hy
  obtain ⟨x, hx, rfl⟩ := Option.map_eq_some_iff.1 hy
  have hnext : (b.step i).dataPtrFifo.head? = some x :=
    Fifo.head?_stays c.wbufDataEntries_pos hr x hx
  rw [hnext, Option.map_some, hw.dataQ_step_of_mem (List.mem_of_mem_head? hx)]

namespace Channels

variable {k : MemCfg} {s : Channels k} {i : ChannelsIn k}

/-! ## The channels hold -/

/-- The arbiters grant one source at most, and the write buffer is well formed. -/
structure Inv (s : Channels k) : Prop where
  readArb : OneHot s.readArb.gntQ
  writeArb : OneHot s.writeArb.gntQ
  gntFifo : ∀ g ∈ s.gntFifo, OneHot g
  wbuf : s.cache.wbuf.Wf

theorem start_inv (c : Cache k.cfg) : (start c : Channels k).Inv where
  readArb := nofun
  writeArb := nofun
  gntFifo := nofun
  wbuf := Wbuf.wf_reset _

theorem Inv.step (h : s.Inv) : (s.step i).Inv where
  readArb := FxArb.oneHot_step h.readArb
  writeArb := FxArb.oneHot_step h.writeArb
  gntFifo := by
    intro g hg
    have hstep : (s.step i).gntFifo = Fifo.step 2 false s.gntFifo (s.gntW i) (s.gntR i) := rfl
    rw [hstep, Fifo.step_eq, List.mem_append] at hg
    rcases hg with hold | hnew
    · apply h.gntFifo
      by_cases hr : s.gntR i = true
      · rw [if_pos hr] at hold
        exact List.mem_of_mem_tail hold
      · rwa [if_neg hr] at hold
    · -- the grant that enters is that of the arbiter
      have hg' : s.gntW i = some g := by
        rw [Option.mem_toList] at hnew
        unfold Fifo.accepted at hnew
        split_ifs at hnew
        exact hnew
      unfold gntW at hg'
      split_ifs at hg'
      rw [← Option.some.inj hg']
      exact FxArb.oneHot_gnt h.writeArb
  wbuf := by
    show (if k.cfg.wtEn then s.cache.wbuf.step (s.cache.wbufIn (s.cacheIn i)) else s.cache.wbuf).Wf
    split_ifs
    · exact h.wbuf.step _
    · exact h.wbuf

theorem Inv.dataGnt (h : s.Inv) : OneHot s.dataGnt := by
  unfold Channels.dataGnt
  cases hq : s.gntFifo with
  | nil => exact nofun
  | cons g q => exact h.gntFifo g (by rw [hq]; exact List.mem_cons_self)

theorem reads_stays (j : Fin 2) :
    Stays (s.reads j) i.memReqReadReady ((s.step i).reads j) := by
  have hready : ∀ l, i.memReqReadReady = false → s.readReady i l = false := by
    intro l hr
    simp [readReady, hr]
  match j with
  | 0 =>
    have hmiss : Stays s.cache.miss.memReq (s.readReady i missPort) (s.step i).cache.miss.memReq :=
      MissHandler.memReq_stays (i := s.cache.missIn (s.cacheIn i))
    exact (hmiss.map k.missRead).of_ready (hready missPort)
  | 1 =>
    intro hr x hx
    have hx' : (if s.cache.uc.memReadValid then some (k.ucRead s.cache.uc) else none) = some x := hx
    by_cases hv : s.cache.uc.memReadValid = true
    · have hb := Uncached.busy_of_memReadValid hv
      have hv' : (s.step i).cache.uc.memReadValid = true := by
        have hr' : (s.cache.ucIn (s.cacheIn i)).memReadReady = false := hready ucReadPort hr
        refine (Uncached.memReadValid_step (i := s.cache.ucIn (s.cacheIn i)) hb).trans ?_
        rw [hv, hr']
        rfl
      have hnext : (s.step i).reads 1 = some (k.ucRead (s.step i).cache.uc) := if_pos hv'
      have hsame : k.ucRead (s.step i).cache.uc = k.ucRead s.cache.uc := by
        unfold MemCfg.ucRead
        rw [show (s.step i).cache.uc.reqQ = s.cache.uc.reqQ from Uncached.reqQ_step hb]
      rw [if_pos hv] at hx'
      rw [hnext, hsame]
      exact hx'
    · rw [if_neg hv] at hx'
      contradiction

/-- The read channel. -/
theorem Inv.memReqRead_stays (h : s.Inv) :
    Stays s.memReqRead i.memReqReadReady (s.step i).memReqRead :=
  FxArb.granted_stays h.readArb reads_stays

/-- The write channel is the output of a buffer. -/
theorem memReqWrite_stays : Stays s.memReqWrite i.memReqWriteReady (s.step i).memReqWrite :=
  Fifo.rdata_stays Nat.one_pos

theorem Inv.datas_stays (h : s.Inv) (j : Fin 3) :
    Stays (s.datas j) i.memReqWriteDataReady ((s.step i).datas j) := by
  have hready : ∀ l, i.memReqWriteDataReady = false → s.dataReady i l = false := by
    intro l hr
    simp [dataReady, hr]
  intro hr x hx
  match j with
  | 0 =>
    have hx' : (if k.cfg.wtEn then
        s.cache.wbuf.dataPtrFifo.head?.map (k.wbufData s.cache.wbuf) else none) = some x := hx
    by_cases hwt : k.cfg.wtEn = true
    · have hwbuf : (s.step i).cache.wbuf = s.cache.wbuf.step (s.cache.wbufIn (s.cacheIn i)) :=
        if_pos hwt
      have hstay := (h.wbuf.data_stays (i := s.cache.wbufIn (s.cacheIn i))).map
        fun y => (⟨(Wbuf.memBeat y.1.tag y.2).data, (Wbuf.memBeat y.1.tag y.2).be, true⟩ : MemReqW)
      rw [← hwbuf, Option.map_map, Option.map_map] at hstay
      have hnext : (s.step i).datas 0 =
          (s.step i).cache.wbuf.dataPtrFifo.head?.map (k.wbufData (s.step i).cache.wbuf) :=
        if_pos hwt
      rw [if_pos hwt] at hx'
      rw [hnext]
      exact hstay (hready wbufPort hr) x hx'
    · rw [if_neg hwt] at hx'
      contradiction
  | 1 =>
    have hx' : (if k.cfg.wbEn then
        s.cache.flush.resizer.slots.head?.map (k.flushData s.rlast) else none) = some x := hx
    by_cases hwb : k.cfg.wbEn = true
    · have hflush : (s.step i).cache.flush = s.cache.flush.step (s.cache.flushIn (s.cacheIn i)) :=
        if_pos hwb
      -- without a beat the counter stays
      have hcnt : (s.step i).writeFlitsCntQ = s.writeFlitsCntQ := by
        show (if (s.datas flushPort).isSome && s.dataReady i flushPort then _ else s.writeFlitsCntQ) =
          s.writeFlitsCntQ
        rw [hready flushPort hr, Bool.and_false]
        rfl
      have hlast : (s.step i).rlast = s.rlast := by rw [rlast, hcnt, rlast]
      have hhead : Stays s.cache.flush.resizer.slots.head? (s.dataReady i flushPort)
          (s.step i).cache.flush.resizer.slots.head? := by
        rw [hflush]
        exact Resizer.head?_stays
      have hnext : (s.step i).datas 1 =
          (s.step i).cache.flush.resizer.slots.head?.map (k.flushData (s.step i).rlast) :=
        if_pos hwb
      rw [if_pos hwb] at hx'
      rw [hnext, hlast]
      exact hhead.map (k.flushData s.rlast) (hready flushPort hr) x hx'
    · rw [if_neg hwb] at hx'
      contradiction
  | 2 =>
    have hx' : (if s.cache.uc.memWdataValid then some (k.ucData s.cache.uc) else none) = some x := hx
    by_cases hv : s.cache.uc.memWdataValid = true
    · have hb := Uncached.busy_of_memWdataValid hv
      have hv' : (s.step i).cache.uc.memWdataValid = true := by
        have hr' : (s.cache.ucIn (s.cacheIn i)).memWdataReady = false := hready ucWritePort hr
        refine (Uncached.memWdataValid_step (i := s.cache.ucIn (s.cacheIn i)) hb).trans ?_
        rw [hv, hr']
        rfl
      have hnext : (s.step i).datas 2 = some (k.ucData (s.step i).cache.uc) := if_pos hv'
      have hsame : k.ucData (s.step i).cache.uc = k.ucData s.cache.uc := by
        unfold MemCfg.ucData Uncached.memWdata
        rw [show (s.step i).cache.uc.reqQ = s.cache.uc.reqQ from Uncached.reqQ_step hb]
      rw [if_pos hv] at hx'
      rw [hnext, hsame]
      exact hx'
    · rw [if_neg hv] at hx'
      contradiction

/-- The channel of the data: the grant at the head of its buffer stays with the data. -/
theorem Inv.memReqWriteData_stays (h : s.Inv) :
    Stays s.memReqWriteData i.memReqWriteDataReady (s.step i).memReqWriteData := by
  intro hr x hx
  obtain ⟨j, hj, hdata⟩ := (granted_eq_some h.dataGnt).1 hx
  have hgntR : s.gntR i = false := by simp [gntR, hr]
  have hgnt : (s.step i).dataGnt = s.dataGnt := by
    have hstep : (s.step i).gntFifo = Fifo.step 2 false s.gntFifo (s.gntW i) (s.gntR i) := rfl
    cases hq : s.gntFifo with
    | nil =>
      rw [Channels.dataGnt, hq] at hj
      contradiction
    | cons g q =>
      rw [Channels.dataGnt, Channels.dataGnt, hstep, Fifo.step_eq, hgntR, hq]
      rfl
  unfold memReqWriteData
  rw [hgnt]
  exact (granted_eq_some h.dataGnt).2 ⟨j, hj, h.datas_stays j hr x hdata⟩

/-- **The channels hold.** In every run, a word that is offered on a channel is offered, unchanged,
until the memory takes it. -/
theorem stable (c : Cache k.cfg) (is : List (ChannelsIn k)) :
    Holds Channels.step memReqRead ChannelsIn.memReqReadReady
        (run Channels.step (start c) is) ∧
      Holds Channels.step memReqWrite ChannelsIn.memReqWriteReady
        (run Channels.step (start c) is) ∧
      Holds Channels.step memReqWriteData ChannelsIn.memReqWriteDataReady
        (run Channels.step (start c) is) := by
  have hstep : ∀ (s : Channels k) i, s.Inv → (s.step i).Inv := fun s i h => h.step
  have hinv : (run Channels.step (start c) is).Inv := run_invariant (start_inv c) hstep
  refine ⟨?_, ?_, ?_⟩
  · exact Holds.of_step hinv hstep fun s i h => h.memReqRead_stays
  · exact Holds.of_step hinv hstep fun s i _ => memReqWrite_stays
  · exact Holds.of_step hinv hstep fun s i h => h.memReqWriteData_stays

end Channels

end Hpdcache
