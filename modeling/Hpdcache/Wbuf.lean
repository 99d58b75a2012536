import Hpdcache.Lib.Arbiter
import Hpdcache.Lib.Fifo
import Hpdcache.Types

/-!
# Write buffer

The buffer of the write-through stores. A directory entry is opened by a write, waits to be sent
while other writes coalesce in it, is sent, and is freed when the memory acknowledges it. The data
of an entry are in a second table, from which they are freed as soon as they are sent.

* `Wbuf.writeReady` — a write is accepted.
* `Wbuf.readHit` — an entry in use overlaps a cacheline.
* `Wbuf.step` — one cycle.
-/

namespace Hpdcache

open Hw

inductive WbufState
  | free
  | opened
  | pend
  | sent
  deriving DecidableEq, Repr

/-- The part of a cacheline that one entry covers. -/
structure WbufTag (c : Cfg) where
  nline : Nline c
  sub : Nat
  deriving DecidableEq

structure WbufDirEntry (c : Cfg) where
  ptr : Fin c.wbufDataEntries
  cnt : Nat
  tag : WbufTag c
  uc : Bool

structure WbufDataEntry where
  data : Nat → Byte
  be : Nat → Bool

structure WbufMeta (c : Cfg) where
  tag : WbufTag c
  id : Fin c.wbufDirEntries
  uc : Bool

structure WbufSendData (c : Cfg) where
  ptr : Fin c.wbufDataEntries
  tag : WbufTag c

structure Wbuf (c : Cfg) where
  stateQ : Fin c.wbufDirEntries → WbufState
  dirQ : Fin c.wbufDirEntries → WbufDirEntry c
  dataValidQ : Bits c.wbufDataEntries
  dataQ : Fin c.wbufDataEntries → WbufDataEntry
  dirFreeArb : FxArb c.wbufDirEntries
  dataFreeArb : FxArb c.wbufDataEntries
  pendArb : RrArb c.wbufDirEntries
  dataPtrFifo : List (WbufSendData c)
  metaFifo : List (WbufMeta c)

/-- Configuration inputs of the write buffer. -/
structure WbufCfg where
  threshold : Nat
  resetTimecntOnWrite : Bool
  sequentialWaw : Bool
  inhibitWriteCoalescing : Bool

structure WbufIn (c : Cfg) where
  cfg : WbufCfg
  flushAll : Bool
  write : Bool
  nline : Nline c
  offset : Nat
  writeData : Nat → Byte
  writeBe : Nat → Bool
  writeUc : Bool
  readFlushHit : Bool
  memReqReady : Bool
  memDataReady : Bool
  ack : Option (Fin c.wbufDirEntries)

namespace Wbuf

variable {c : Cfg}

def reset (b : Wbuf c) : Wbuf c :=
  { b with
    stateQ := fun _ => .free
    dirQ := fun _ => ⟨⟨0, c.wbufDataEntries_pos⟩, 0, ⟨⟨0, ⟨0, c.sets_pos⟩⟩, 0⟩, false⟩
    dataValidQ := fun _ => false
    dirFreeArb := FxArb.reset _
    dataFreeArb := FxArb.reset _
    pendArb := RrArb.reset _
    dataPtrFifo := []
    metaFifo := [] }

def inState (b : Wbuf c) (s : WbufState) : Bits c.wbufDirEntries := fun k => decide (b.stateQ k = s)

def empty (b : Wbuf c) : Bool := all (b.inState .free)

/-- The tag of an address. -/
def tagOf (nline : Nline c) (offset : Nat) : WbufTag c := ⟨nline, offset / c.wbufBytes⟩

/-! ## Hits -/

/-- An entry in the given state has the tag. -/
def hitState (b : Wbuf c) (s : WbufState) (t : WbufTag c) : Bits c.wbufDirEntries :=
  fun k => decide ((b.dirQ k).tag = t) && b.inState s k

/-- An entry in use is in the line. -/
def readHit (b : Wbuf c) (n : Nline c) : Bool :=
  any fun k => !b.inState .free k && decide ((b.dirQ k).tag.nline = n)

/-- What a replay compares: its line if it is a read, the exact tag if it is a write. -/
def replayMatch (b : Wbuf c) (n : Nline c) (offset : Nat) (isRead : Bool) :
    Bits c.wbufDirEntries :=
  fun k =>
    if isRead then decide ((b.dirQ k).tag.nline = n)
    else decide ((b.dirQ k).tag = tagOf n offset)

def replayHit (b : Wbuf c) (s : WbufState) (n : Nline c) (offset : Nat) (isRead : Bool) : Bool :=
  any fun k => b.replayMatch n offset isRead k && b.inState s k

def dirFree (b : Wbuf c) : Bool := any (b.inState .free)

def dataFree (b : Wbuf c) : Bool := !all b.dataValidQ

def replayNotReady (b : Wbuf c) (cfg : WbufCfg) (n : Nline c) (offset : Nat) (isRead : Bool) :
    Bool :=
  if b.replayHit .pend n offset isRead then true
  else if b.replayHit .sent n offset isRead && cfg.sequentialWaw then true
  else !b.replayHit .opened n offset isRead && (!b.dirFree || !b.dataFree)

/-- A write of this tag takes a new entry. -/
def writeFree (b : Wbuf c) (cfg : WbufCfg) (t : WbufTag c) : Bool :=
  b.dirFree && b.dataFree && !any (b.hitState .opened t) && !any (b.hitState .pend t) &&
    !(any (b.hitState .sent t) && cfg.sequentialWaw)

def writeReady (b : Wbuf c) (cfg : WbufCfg) (t : WbufTag c) : Bool :=
  b.writeFree cfg t ||
    ((any (b.hitState .opened t) || any (b.hitState .pend t)) && !cfg.inhibitWriteCoalescing)

/-- The entry that hits. The loop over the directory keeps the last one. -/
def lastPtr (v : Bits c.wbufDirEntries) : Fin c.wbufDirEntries := toBinary c.wbufDirEntries_pos v

/-! ## Sending -/

def sendDataReady (b : Wbuf c) : Bool := Fifo.wok c.wbufDataEntries false b.dataPtrFifo false

def sendMetaReady (b : Wbuf c) : Bool := Fifo.wok c.wbufDataEntries false b.metaFifo false

def sendReady (b : Wbuf c) : Bool := b.sendDataReady && b.sendMetaReady

def sendGrant (b : Wbuf c) : Bits c.wbufDirEntries := b.pendArb.gnt (b.inState .pend)

def metaSend (b : Wbuf c) : WbufMeta c :=
  mux b.sendGrant (fun k => ⟨(b.dirQ k).tag, k, (b.dirQ k).uc⟩)
    ⟨⟨⟨0, ⟨0, c.sets_pos⟩⟩, 0⟩, ⟨0, c.wbufDirEntries_pos⟩, false⟩

def metaSendDataPtr (b : Wbuf c) : Fin c.wbufDataEntries :=
  mux b.sendGrant (fun k => (b.dirQ k).ptr) ⟨0, c.wbufDataEntries_pos⟩

/-! ## Update -/

def dirFreeBv (b : Wbuf c) : Bits c.wbufDirEntries := b.dirFreeArb.gnt (b.inState .free)

def dataFreePtr (b : Wbuf c) : Fin c.wbufDataEntries :=
  toBinary c.wbufDataEntries_pos (b.dataFreeArb.gnt fun k => !b.dataValidQ k)

def tag (i : WbufIn c) : WbufTag c := tagOf i.nline i.offset

/-- The free entry `k` is taken by the write. -/
def takes (b : Wbuf c) (i : WbufIn c) (k : Fin c.wbufDirEntries) : Bool :=
  i.write && b.writeFree i.cfg (tag i) && b.dirFreeBv k

/-- The write coalesces in the entry `k`, open or waiting. -/
def coalesces (b : Wbuf c) (i : WbufIn c) (s : WbufState) (k : Fin c.wbufDirEntries) : Bool :=
  i.write && any (b.hitState s (tag i)) && decide (k = lastPtr (b.hitState s (tag i))) &&
    !i.cfg.inhibitWriteCoalescing

/-- The open entry has waited for long enough. The subtraction is done on 32 bits at least, so that
no count matches a threshold of zero. -/
def timeout (b : Wbuf c) (i : WbufIn c) (k : Fin c.wbufDirEntries) : Bool :=
  let m := 2 ^ max 32 c.wbufTimecntWidth
  decide ((b.dirQ k).cnt = (i.cfg.threshold + (m - 1)) % m) &&
    !(b.coalesces i .opened k && i.cfg.resetTimecntOnWrite)

/-- A read hits the open entry `k`. -/
def readFlush (b : Wbuf c) (i : WbufIn c) (k : Fin c.wbufDirEntries) : Bool :=
  i.readFlushHit && any (b.hitState .opened (tag i)) &&
    decide (k = lastPtr (b.hitState .opened (tag i)))

/-- A new entry that is not left open. -/
def sendNow (i : WbufIn c) : Bool :=
  decide (i.cfg.threshold = 0) || i.writeUc || i.flushAll || i.cfg.inhibitWriteCoalescing

def stateNext (b : Wbuf c) (i : WbufIn c) (k : Fin c.wbufDirEntries) : WbufState :=
  match b.stateQ k with
  | .free => if b.takes i k then (if sendNow i then .pend else .opened) else .free
  | .opened =>
    if i.flushAll then .pend
    else if b.readFlush i k || b.timeout i k || i.cfg.inhibitWriteCoalescing then .pend
    else .opened
  | .pend => if b.sendGrant k && b.sendReady then .sent else .pend
  | .sent => if i.ack = some k then .free else .sent

def dirNext (b : Wbuf c) (i : WbufIn c) (k : Fin c.wbufDirEntries) : WbufDirEntry c :=
  let e := b.dirQ k
  match b.stateQ k with
  | .free => if b.takes i k then ⟨b.dataFreePtr, 0, tag i, i.writeUc⟩ else e
  | .opened =>
    if i.flushAll then e
    else if b.coalesces i .opened k && i.cfg.resetTimecntOnWrite then { e with cnt := 0 }
    else if !b.timeout i k then { e with cnt := (e.cnt + 1) % 2 ^ c.wbufTimecntWidth }
    else e
  | _ => e

/-- One position of the loop over the directory that finds the data entry to write. -/
def dataWriteAt (b : Wbuf c) (i : WbufIn c) (acc : Option (Fin c.wbufDataEntries × Bool))
    (k : Fin c.wbufDirEntries) : Option (Fin c.wbufDataEntries × Bool) :=
  match b.stateQ k with
  | .free => if b.takes i k then some (b.dataFreePtr, true) else acc
  | .opened => if b.coalesces i .opened k then some ((b.dirQ k).ptr, acc.elim false (·.2)) else acc
  | .pend => if b.coalesces i .pend k then some ((b.dirQ k).ptr, acc.elim false (·.2)) else acc
  | .sent => acc

/-- The data entry that the write goes to, and whether it is a new one. The loop over the
directory keeps the last entry that takes the write. -/
def dataWrite (b : Wbuf c) (i : WbufIn c) : Option (Fin c.wbufDataEntries × Bool) :=
  (List.finRange c.wbufDirEntries).foldl (b.dataWriteAt i) none

/-- Byte enable of a write at its word of the entry. -/
def writeBe (i : WbufIn c) : Nat → Bool :=
  fun x => decide (x / c.reqBytes = i.offset % c.wbufBytes / c.reqBytes) && i.writeBe (x % c.reqBytes)

def mergeData (i : WbufIn c) (init : Bool) (old : WbufDataEntry) : WbufDataEntry where
  data := fun x => if writeBe i x then i.writeData (x % c.reqBytes) else old.data x
  be := fun x => (!init && old.be x) || writeBe i x

def dataNext (b : Wbuf c) (i : WbufIn c) (p : Fin c.wbufDataEntries) : WbufDataEntry :=
  match b.dataWrite i with
  | some (q, init) => if q = p then mergeData i init (b.dataQ p) else b.dataQ p
  | none => b.dataQ p

/-- The data entry sent in this cycle. -/
def dataSent (b : Wbuf c) (i : WbufIn c) : Option (Fin c.wbufDataEntries) :=
  if i.memDataReady then b.dataPtrFifo.head?.map WbufSendData.ptr else none

def step (b : Wbuf c) (i : WbufIn c) : Wbuf c where
  stateQ := b.stateNext i
  dirQ := b.dirNext i
  dataValidQ := fun p =>
    (b.dataValidQ p || (i.write && b.writeFree i.cfg (tag i) && decide (p = b.dataFreePtr))) &&
      !decide (b.dataSent i = some p)
  dataQ := b.dataNext i
  dirFreeArb := b.dirFreeArb.step (b.inState .free) (i.write && b.writeFree i.cfg (tag i))
  dataFreeArb :=
    b.dataFreeArb.step (fun k => !b.dataValidQ k) (i.write && b.writeFree i.cfg (tag i))
  pendArb := b.pendArb.step (b.inState .pend) b.sendReady
  dataPtrFifo :=
    Fifo.step c.wbufDataEntries false b.dataPtrFifo
      (if any (b.inState .pend) && b.sendMetaReady
        then some ⟨b.metaSendDataPtr, b.metaSend.tag⟩ else none)
      i.memDataReady
  metaFifo :=
    Fifo.step c.wbufDataEntries false b.metaFifo
      (if any (b.inState .pend) && b.sendDataReady then some b.metaSend else none)
      i.memReqReady

end Wbuf

end Hpdcache
