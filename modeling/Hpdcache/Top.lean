import Hpdcache.Cache

/-!
# The top level

The arbiter of the requesters in front of the cache, and what the whole gives in a cycle to the
requesters and to the memory.

* `Top.step` — one cycle.
* `Cache.out` — the response to the requesters and the requests to the memory.
-/

namespace Hpdcache

open Hw

/-! ## Outputs of the cache -/

/-- A request of the uncacheable handler to the memory. -/
structure UcMemReq (c : Cfg) where
  op : ReqOp
  nline : Nline c
  off : Nat
  size : Nat

/-- Outputs of a cycle. -/
structure CacheOut (c : Cfg) where
  coreReqReady : Bool
  coreRsp : Option Rsp
  missReq : Option (MissReq c)
  wbufReq : Option (WbufMeta c)
  wbufData : Option (WbufTag c × WbufDataEntry)
  flushReq : Option (FlushMeta c)
  flushData : Option ResizerSlot
  ucRead : Option (UcMemReq c)
  ucWrite : Option (UcMemReq c)
  ucWdata : Option ((Nat → Byte) × (Nat → Bool))

namespace Uncached

variable {c : Cfg} (u : Uncached c)

def memReq : UcMemReq c := ⟨u.reqQ.op, u.reqQ.nline, u.reqQ.off, u.reqQ.size⟩

end Uncached

namespace Cache

variable {c : Cfg} (s : Cache c) (i : CacheIn c)

def out : CacheOut c where
  coreReqReady := s.coreReqReady i
  coreRsp := s.coreRsp i
  missReq := s.miss.memReq
  wbufReq := s.wbuf.metaFifo.head?
  wbufData := s.wbuf.dataPtrFifo.head?.map fun d => (d.tag, s.wbuf.dataQ d.ptr)
  flushReq := s.flush.metaFifo.head?
  flushData := s.flush.resizer.slots.head?
  ucRead := if s.uc.memReadValid then some s.uc.memReq else none
  ucWrite := if s.uc.memWriteValid then some s.uc.memReq else none
  ucWdata := if s.uc.memWdataValid then some (s.uc.memWdata, s.uc.reqQ.be) else none

end Cache

/-! ## Core arbiter -/

/-- The arbiter, with the grant of the previous cycle. -/
structure CoreArb (c : Cfg) where
  arb : FxArb c.nRequesters
  gntQ : Bits c.nRequesters

/-- The ports of the requesters. Abort, tag and attributes belong to the request of the previous
cycle. -/
structure CoreIn (c : Cfg) where
  valid : Bits c.nRequesters
  req : Fin c.nRequesters → Req c
  abort : Bits c.nRequesters
  tag : Fin c.nRequesters → Nat
  pma : Fin c.nRequesters → Pma

def Req.zero (c : Cfg) : Req c where
  addrTag := 0
  addrSet := ⟨0, c.sets_pos⟩
  addrOff := 0
  wdata := fun _ => 0
  op := .load
  be := fun _ => false
  size := 0
  sid := 0
  tid := 0
  needRsp := false
  physIndexed := false
  pma := ⟨false, .auto⟩

namespace CoreArb

variable {c : Cfg}

def reset (c : Cfg) : CoreArb c := ⟨FxArb.reset _, fun _ => false⟩

def gnt (a : CoreArb c) (i : CoreIn c) : Bits c.nRequesters := a.arb.gnt i.valid

/-- With a single requester there is no multiplexer. -/
def select {α : Type} (sel : Bits c.nRequesters) (data : Fin c.nRequesters → α) (zero : α) : α :=
  if c.nRequesters = 1 then data ⟨0, c.nRequesters_pos⟩ else mux sel data zero

def reqValid (a : CoreArb c) (i : CoreIn c) : Bool := any (a.gnt i)

def req (a : CoreArb c) (i : CoreIn c) : Req c := select (a.gnt i) i.req (Req.zero c)

def abort (a : CoreArb c) (i : CoreIn c) : Bool := select a.gntQ i.abort false

def tag (a : CoreArb c) (i : CoreIn c) : Nat := select a.gntQ i.tag 0

def pma (a : CoreArb c) (i : CoreIn c) : Pma := select a.gntQ i.pma ⟨false, .auto⟩

def step (a : CoreArb c) (i : CoreIn c) (ready : Bool) : CoreArb c where
  arb := a.arb.step i.valid ready
  gntQ := a.gnt i

theorem select_of_gnt {α : Type} {sel : Bits c.nRequesters} (h : OneHot sel)
    {r : Fin c.nRequesters} (hr : sel r = true) (data : Fin c.nRequesters → α) (zero : α) :
    select sel data zero = data r := by
  unfold select
  split_ifs with h1
  · exact congrArg data (Fin.ext (by have := r.isLt; omega))
  · exact h.mux hr data zero

end CoreArb

/-! ## The whole -/

structure Top (c : Cfg) where
  arb : CoreArb c
  cache : Cache c

structure TopIn (c : Cfg) where
  core : CoreIn c
  /-- The inputs other than those of the requesters. -/
  rest : CacheIn c

namespace Top

variable {c : Cfg} (t : Top c) (i : TopIn c)

def cacheIn : CacheIn c :=
  { i.rest with
    coreReqValid := t.arb.reqValid i.core
    coreReq := t.arb.req i.core
    coreReqAbort := t.arb.abort i.core
    coreReqTag := t.arb.tag i.core
    coreReqPma := t.arb.pma i.core }

/-- Facts about single units, which every step keeps: the arbiter of the requesters holds one
grant at most, and only a walk that flushes holds lines to flush. -/
structure Inv (t : Top c) : Prop where
  arb : OneHot t.arb.arb.gntQ
  cmo : t.cache.cmo.HoldsFlush

def reset (t : Top c) : Top c := ⟨CoreArb.reset c, t.cache.reset⟩

def out : CacheOut c := t.cache.out (t.cacheIn i)

/-- The request of the requester `r` is accepted. -/
def accepts (r : Fin c.nRequesters) : Bool := t.arb.gnt i.core r && (t.out i).coreReqReady

def step : Top c where
  arb := t.arb.step i.core (t.out i).coreReqReady
  cache := t.cache.step (t.cacheIn i)

variable {t i}

theorem inv_reset : t.reset.Inv where
  arb := nofun
  cmo := Cmo.holdsFlush_reset _

theorem Inv.step (h : t.Inv) : (t.step i).Inv where
  arb := FxArb.oneHot_step h.arb
  cmo := h.cmo.step

end Top

end Hpdcache
