import Hpdcache.Refill

/-!
# The refill of a line

From the grant of the pipeline to the end of a response: the chunks written in the data RAM, the
entry written in the directory, the response to the core, and what the replay table is told.

* `Refilling.Writing.raws` — what the FSM does, chunk by chunk.
* `Refilling.Refills.evts` — what a whole refill shows.
-/

namespace Hpdcache

open Hw

/-! ## What a refill shows -/

/-- A chunk written in the data RAM. -/
structure ChunkWrite (c : Cfg) where
  set : Fin c.sets
  way : Fin c.ways
  word : Nat
  bytes : List Byte

/-- An entry written in the directory. -/
structure DirWrite (c : Cfg) where
  set : Fin c.sets
  way : Fin c.ways
  entry : DirEntry

/-- A response to the core, with the bytes of its word. -/
structure RefillRsp where
  rdata : List Byte
  sid : Nat
  tid : Nat
  error : Bool
  aborted : Bool

/-- What a refill shows in a cycle. -/
structure RefillEvt (c : Cfg) where
  data : Option (ChunkWrite c)
  dir : Option (DirWrite c)
  rsp : Option RefillRsp
  /-- The line for the replay table, with its error. -/
  rtab : Option (Nline c × Bool)

def Rsp.word (c : Cfg) (r : Rsp) : RefillRsp :=
  ⟨units c.reqBytes r.rdata, r.sid, r.tid, r.error, r.aborted⟩

namespace Refiller

variable {k : RefillCfg} (u : Refiller k) (i : RefillIn k)

/-- The cycle without the buffer of the response. -/
def raw : RefillEvt k.cache where
  data := if (u.out i).writeData then
      some ⟨(u.out i).set, (u.out i).way, u.miss.refillCntQ,
        units k.cache.accessBytes u.view.refillData⟩
    else none
  dir := if (u.out i).writeDir then
      some ⟨(u.out i).set, (u.out i).way, u.view.refillDirEntry⟩
    else none
  rsp := u.view.refillCoreRsp.map (Rsp.word k.cache)
  rtab := if (u.out i).updtRtab then some (u.view.refillNline, u.view.refillIsError) else none

def evt : RefillEvt k.cache :=
  { u.raw i with rsp := u.view.coreRspOut.map (Rsp.word k.cache) }

end Refiller

namespace Refilling

variable {k : RefillCfg}

def raws : Refilling k → List (RefillIn k) → List (RefillEvt k.cache)
  | _, [] => []
  | s, i :: is => s.unit.raw i :: raws (s.step i) is

def evts : Refilling k → List (RefillIn k) → List (RefillEvt k.cache)
  | _, [] => []
  | s, i :: is => s.unit.evt i :: evts (s.step i) is

/-- The responses go through their buffer; the rest is shown at once. -/
theorem evts_eq (s : Refilling k) (is : List (RefillIn k)) :
    (evts s is).map RefillEvt.rsp =
      Fifo.outs 1 k.cache.refillCoreRspFeedthrough
        (s.unit.miss.coreRspBuf.map (Rsp.word k.cache)) ((raws s is).map RefillEvt.rsp) ∧
      (evts s is).map RefillEvt.data = (raws s is).map RefillEvt.data ∧
      (evts s is).map RefillEvt.dir = (raws s is).map RefillEvt.dir ∧
      (evts s is).map RefillEvt.rtab = (raws s is).map RefillEvt.rtab := by
  have hrest : ∀ (s : Refilling k) (is : List (RefillIn k)),
      (evts s is).map RefillEvt.data = (raws s is).map RefillEvt.data ∧
      (evts s is).map RefillEvt.dir = (raws s is).map RefillEvt.dir ∧
      (evts s is).map RefillEvt.rtab = (raws s is).map RefillEvt.rtab := by
    intro s is
    induction is generalizing s with
    | nil => exact ⟨rfl, rfl, rfl⟩
    | cons i is ih =>
      obtain ⟨h1, h2, h3⟩ := ih (s.step i)
      exact ⟨congrArg (_ :: ·) h1, congrArg (_ :: ·) h2, congrArg (_ :: ·) h3⟩
  have hpulse : ∀ (s : Refilling k) (is : List (RefillIn k)), ∃ ws : List (Option Rsp),
      (raws s is).map RefillEvt.rsp = ws.map (Option.map (Rsp.word k.cache)) ∧
      (evts s is).map RefillEvt.rsp =
        (Fifo.outs 1 k.cache.refillCoreRspFeedthrough s.unit.miss.coreRspBuf ws).map
          (Option.map (Rsp.word k.cache)) := by
    intro s is
    induction is generalizing s with
    | nil => exact ⟨[], rfl, rfl⟩
    | cons i is ih =>
      obtain ⟨ws, hraw, hevt⟩ := ih (s.step i)
      exact ⟨s.unit.view.refillCoreRsp :: ws, congrArg (_ :: ·) hraw, congrArg (_ :: ·) hevt⟩
  obtain ⟨ws, hraw, hevt⟩ := hpulse s is
  refine ⟨?_, hrest s is⟩
  rw [hevt, hraw, Fifo.outs_map]

/-! ## The miss that a response answers -/

/-- The entry of a miss: its cache set, what the MSHR keeps, and the store to merge. -/
structure Pending (c : Cfg) where
  set : Fin c.sets
  entry : MshrEntry c
  store : CbufEntry

/-- The miss of the response, in the state before the MSHR is read. -/
def pendingOf {c : Cfg} (m : MissHandler c) (r : Resp c) : Pending c where
  set := m.mshr.cacheSetQ r.last.rSet r.last.rWay
  entry := m.mshr.ram r.last.rSet r.last.rWay
  store :=
    if c.wbEn then m.cbuf.entriesQ (m.mshr.ram r.last.rSet r.last.rWay).cbufId
    else ⟨fun _ => 0, fun _ => false⟩

/-- The line of the memory with the bytes of the store at its word. -/
def mergedLine (k : RefillCfg) (p : Pending k.cache) (line : Nat → Byte) : Nat → Byte := fun a =>
  if k.cache.wbEn = true ∧ p.entry.dirty = true ∧ p.store.be (a % k.cache.reqBytes) = true ∧
      a / k.cache.reqBytes = p.entry.wordIdx / k.cache.reqWords
  then p.store.wdata (a % k.cache.reqBytes) else line a

/-- The entry of the directory at the end of the refill. -/
def refilledEntry {c : Cfg} (p : Pending c) (err : Bool) : DirEntry where
  valid := !err
  wback := !err && p.entry.wback
  dirty := !err && p.entry.dirty
  fetch := false
  tag := p.entry.tag

/-- The word of the line that the core has asked for. -/
def refilledRsp (k : RefillCfg) (p : Pending k.cache) (line : Nat → Byte) (err : Bool) :
    RefillRsp where
  rdata := units k.cache.reqBytes fun b =>
    mergedLine k p line (p.entry.wordIdx / k.cache.reqWords * k.cache.reqBytes + b)
  sid := p.entry.srcId
  tid := p.entry.reqId
  error := err
  aborted := false

/-- The chunks of a line. -/
def chunks (c : Cfg) : Nat := c.clWords / c.accessWords

/-- What the chunk `n` of a refill shows. The directory is written with the last one, unless the
line has only one. -/
def chunkEvt (k : RefillCfg) (p : Pending k.cache) (line : Nat → Byte) (err : Bool) (n : Nat) :
    RefillEvt k.cache where
  data := if err then none else
    some ⟨p.set, p.entry.victimWayIdx, n * k.cache.accessWords,
      units k.cache.accessBytes fun b => mergedLine k p line (n * k.cache.accessBytes + b)⟩
  dir := if n + 1 = chunks k.cache ∧ chunks k.cache ≠ 1 then
      some ⟨p.set, p.entry.victimWayIdx, refilledEntry p err⟩
    else none
  rsp := if p.entry.wordIdx / k.cache.accessWords = n ∧ p.entry.needRsp = true then
      some (refilledRsp k p line err)
    else none
  rtab := if n + 1 = chunks k.cache ∧ chunks k.cache ≠ 1 then
      some (⟨p.entry.tag, p.set⟩, err)
    else none

/-- What the cycle that writes the directory alone shows. -/
def dirEvt {c : Cfg} (p : Pending c) (err : Bool) : RefillEvt c where
  data := none
  dir := some ⟨p.set, p.entry.victimWayIdx, refilledEntry p err⟩
  rsp := none
  rtab := some (⟨p.entry.tag, p.set⟩, err)

/-- The registers of the refill hold its miss. -/
structure Loaded {c : Cfg} (m : MissHandler c) (p : Pending c) : Prop where
  set : m.refillSetQ = p.set
  tag : m.refillTagQ = p.entry.tag
  way : m.refillWayQ = p.entry.victimWayIdx
  sid : m.refillSidQ = p.entry.srcId
  tid : m.refillTidQ = p.entry.reqId
  needRsp : m.refillNeedRspQ = p.entry.needRsp
  isPrefetch : m.refillIsPrefetchQ = p.entry.isPrefetch
  wback : m.refillWbackQ = p.entry.wback
  dirty : m.refillDirtyQ = p.entry.dirty
  wdata : m.refillDirtyWdataQ = p.store.wdata
  be : m.refillDirtyBeQ = p.store.be
  word : m.refillCoreRspWordQ = p.entry.wordIdx

/-- The refill of the response `r` is at its chunk `n`: the registers hold its miss, or the MSHR has
been read and they are being loaded. -/
structure Writing (s : Refilling k) (r : Resp k.cache) (p : Pending k.cache) (n : Nat) : Prop where
  inv : s.Inv
  fsm : s.unit.miss.refillFsmQ = .write
  cnt : s.unit.miss.refillCntQ = n * k.cache.accessWords
  head : ∃ rest, s.box.pend = r :: rest
  miss : if n = 0 then
      s.unit.view.mshr.ackEntry = p.entry ∧ s.unit.view.ackCacheSet = p.set ∧
        s.unit.view.ackCbufEntry = p.store
    else Loaded s.unit.miss p

/-! ## Bytes, words and chunks -/

section
variable (c : Cfg) {n b w : Nat}

theorem ratio_pos : 0 < c.accessWords / c.reqWords :=
  Nat.div_pos (Nat.le_of_dvd c.accessWords_pos c.reqWords_dvd) c.reqWords_pos

/-- The word of a request, in the chunk that holds it. -/
theorem word_div : w / c.reqWords / (c.accessWords / c.reqWords) = w / c.accessWords := by
  rw [Nat.div_div_eq_div_mul, Nat.mul_comm, Nat.div_mul_cancel c.reqWords_dvd]

theorem chunk_mod : (n * c.accessBytes + b) % c.reqBytes = b % c.reqBytes := by
  rw [c.accessBytes_eq, Nat.mul_left_comm, Nat.mul_add_mod]

/-- A byte of a chunk is one of the word of a request when the chunk holds the word and the byte is
at its place. -/
theorem chunk_div (hb : b < c.accessBytes) :
    (n * c.accessBytes + b) / c.reqBytes = w / c.reqWords ↔
      w / c.accessWords = n ∧ b / c.reqBytes = w / c.reqWords % (c.accessWords / c.reqWords) := by
  have hr := c.reqBytes_pos
  have hlt : b / c.reqBytes < c.accessWords / c.reqWords := by
    rw [Nat.div_lt_iff_lt_mul hr, Nat.mul_comm, ← c.accessBytes_eq]
    exact hb
  have hdiv : (n * c.accessBytes + b) / c.reqBytes =
      n * (c.accessWords / c.reqWords) + b / c.reqBytes := by
    rw [c.accessBytes_eq, Nat.mul_left_comm, Nat.mul_add_div hr]
  rw [hdiv, ← word_div]
  constructor
  · intro h
    rw [← h, Nat.mul_comm, Nat.mul_add_div (ratio_pos c), Nat.mul_add_mod, Nat.mod_eq_of_lt hlt,
      Nat.div_eq_of_lt hlt, Nat.add_zero]
    exact ⟨rfl, rfl⟩
  · rintro ⟨h1, h2⟩
    rw [h2, ← h1, Nat.mul_comm]
    exact Nat.div_add_mod _ _

theorem chunks_mul : chunks c * c.accessWords = c.clWords := Nat.div_mul_cancel c.accessWords_dvd

theorem chunks_pos : 0 < chunks c :=
  Nat.div_pos (Nat.le_of_dvd c.clWords_pos c.accessWords_dvd) c.accessWords_pos

/-- The word of the last chunk. -/
theorem last_iff : n * c.accessWords = MissHandler.refillLastChunkWord c ↔ n + 1 = chunks c := by
  have hpos := c.accessWords_pos
  have hmul := chunks_mul c
  have hone : chunks c * c.accessWords = (chunks c - 1) * c.accessWords + c.accessWords := by
    rw [← Nat.succ_mul, Nat.succ_eq_add_one, Nat.sub_add_cancel (chunks_pos c)]
  have hlast : MissHandler.refillLastChunkWord c = (chunks c - 1) * c.accessWords := by
    rw [MissHandler.refillLastChunkWord]
    omega
  have hc := chunks_pos c
  rw [hlast, Nat.mul_right_cancel_iff hpos]
  omega

theorem last_zero_iff : MissHandler.refillLastChunkWord c = 0 ↔ chunks c = 1 := by
  have h := last_iff c (n := 0)
  rw [Nat.zero_mul, Nat.zero_add] at h
  exact eq_comm.trans (h.trans eq_comm)

end

/-! ## A chunk -/

section
variable {s : Refilling k} {i : RefillIn k} {r : Resp k.cache} {p : Pending k.cache} {n : Nat}

/-- What the FSM says of a chunk. -/
theorem Writing.chunk (h : Writing s r p n) : s.unit.view.refillChunk =
    { s.unit.view.refillDefault with
      coreRspValid := decide (p.entry.wordIdx / k.cache.accessWords = n) && p.entry.needRsp
      dirtyValid := decide (p.entry.wordIdx / k.cache.accessWords = n) && p.entry.dirty
      coreRspSid := p.entry.srcId
      coreRspTid := p.entry.reqId
      coreRspError := r.last.rError
      coreRspWord := p.entry.wordIdx / k.cache.reqWords
      set := p.set
      way := p.entry.victimWayIdx
      dirty := p.entry.dirty
      dirtyWdata := p.store.wdata
      dirtyBe := p.store.be } := by
  obtain ⟨rest, hp⟩ := h.head
  have herr : s.unit.view.refillIsError = r.last.rError := (h.inv.head hp).2.2.1
  have hmiss := h.miss
  have hcnt : s.unit.view.refillCntQ = n * k.cache.accessWords := h.cnt
  by_cases hn : n = 0
  · rw [if_pos hn] at hmiss
    obtain ⟨he, hset, hst⟩ := hmiss
    have h0 : s.unit.view.refillCntQ = 0 := by rw [hcnt, hn, Nat.zero_mul]
    rw [MissHandler.refillChunk, if_pos h0]
    simp only [MissHandler.refillFirst, he, hset, hst, herr, hn]
  · rw [if_neg hn] at hmiss
    have hpos := k.cache.accessWords_pos
    have h0 : s.unit.view.refillCntQ ≠ 0 := by
      rw [hcnt]
      exact Nat.mul_ne_zero hn (Nat.pos_iff_ne_zero.1 hpos)
    have hdiv : s.unit.view.refillCntQ / k.cache.accessWords = n := by
      rw [hcnt, Nat.mul_div_cancel _ hpos]
    have hw : s.unit.view.refillCoreRspWordQ = p.entry.wordIdx := hmiss.word
    rw [MissHandler.refillChunk, if_neg h0]
    simp only [MissHandler.refillNext, hdiv, hw, herr,
      show s.unit.view.refillNeedRspQ = _ from hmiss.needRsp,
      show s.unit.view.refillDirtyQ = _ from hmiss.dirty,
      show s.unit.view.refillSidQ = _ from hmiss.sid,
      show s.unit.view.refillTidQ = _ from hmiss.tid,
      show s.unit.view.refillSetQ = _ from hmiss.set,
      show s.unit.view.refillWayQ = _ from hmiss.way,
      show s.unit.view.refillDirtyWdataQ = _ from hmiss.wdata,
      show s.unit.view.refillDirtyBeQ = _ from hmiss.be]

/-- The bytes of a chunk are those of the line, with the store merged. -/
theorem Writing.data (h : Writing s r p n) {b : Nat} (hb : b < k.cache.accessBytes) :
    s.unit.view.refillData b = mergedLine k p (r.line k) (n * k.cache.accessBytes + b) := by
  obtain ⟨rest, hp⟩ := h.head
  obtain ⟨r', rest', hp', -, hdata⟩ := h.inv.rdata h.fsm
  have hr : r' = r := by
    rw [hp] at hp'
    exact (List.cons.inj hp').1.symm
  have hm : s.unit.path.metaFifo = r.toMeta :: rest.map Resp.toMeta := by
    rw [h.inv.metas, hp, List.map_cons]
  have hword : s.unit.miss.refillCntQ * k.cache.wordBytes = n * k.cache.accessBytes := by
    rw [h.cnt, Nat.mul_assoc, Cfg.accessBytes]
  have hhead : s.unit.view.head.data (s.unit.view.refillCntQ * k.cache.wordBytes + b) =
      r.line k (n * k.cache.accessBytes + b) := by
    rw [hr] at hdata
    rw [← hword, ← hdata b hb]
    simp only [MissHandler.head, Refiller.view, hm, List.map_cons, List.headD_cons]
    rw [Nat.add_sub_cancel_left]
  have hlane : s.unit.view.refillLane = s.unit.view.refillChunk := if_pos h.fsm
  unfold MissHandler.refillData mergedLine
  rw [hlane, h.chunk, hhead, chunk_mod]
  simp only [Bool.and_eq_true, decide_eq_true_eq]
  by_cases hsel : (n * k.cache.accessBytes + b) / k.cache.reqBytes =
      p.entry.wordIdx / k.cache.reqWords
  · obtain ⟨hn, hpos⟩ := (chunk_div k.cache hb).1 hsel
    simp only [hsel, hn, hpos, true_and, and_true]
  · have hno : ¬ (p.entry.wordIdx / k.cache.accessWords = n ∧ b / k.cache.reqBytes =
        p.entry.wordIdx / k.cache.reqWords % (k.cache.accessWords / k.cache.reqWords)) :=
      fun hx => hsel ((chunk_div k.cache hb).2 hx)
    rw [if_neg (fun hx => hno ⟨hx.2.1.1, hx.2.2.2⟩), if_neg (fun hx => hsel hx.2.2.2)]

/-- The response of a chunk, if any. -/
theorem Writing.rsp (h : Writing s r p n) :
    s.unit.view.refillCoreRsp.map (Rsp.word k.cache) =
      if p.entry.wordIdx / k.cache.accessWords = n ∧ p.entry.needRsp = true
      then some (refilledRsp k p (r.line k) r.last.rError) else none := by
  have hlane : s.unit.view.refillLane = s.unit.view.refillChunk := if_pos h.fsm
  unfold MissHandler.refillCoreRsp
  rw [hlane, h.chunk]
  by_cases hhere : p.entry.wordIdx / k.cache.accessWords = n ∧ p.entry.needRsp = true
  · have hb : (decide (p.entry.wordIdx / k.cache.accessWords = n) && p.entry.needRsp) = true := by
      simp [hhere]
    simp only [hb, if_true]
    rw [if_pos hhere]
    unfold Rsp.word refilledRsp
    simp only [Option.map_some, Option.some.injEq, RefillRsp.mk.injEq, and_true]
    apply units_congr
    intro b hlt
    have hpos := Nat.mod_lt (p.entry.wordIdx / k.cache.reqWords) (ratio_pos k.cache)
    have hin : p.entry.wordIdx / k.cache.reqWords % (k.cache.accessWords / k.cache.reqWords) *
        k.cache.reqBytes + b < k.cache.accessBytes := by
      have hmul := Nat.mul_le_mul_right k.cache.reqBytes (Nat.succ_le_of_lt hpos)
      rw [Nat.succ_mul, Nat.mul_comm (k.cache.accessWords / k.cache.reqWords),
        ← k.cache.accessBytes_eq] at hmul
      omega
    rw [h.data hin]
    congr 1
    have hdiv := Nat.div_add_mod (p.entry.wordIdx / k.cache.reqWords)
      (k.cache.accessWords / k.cache.reqWords)
    rw [word_div, hhere.1] at hdiv
    have hbytes : n * k.cache.accessBytes =
        k.cache.accessWords / k.cache.reqWords * n * k.cache.reqBytes := by
      rw [k.cache.accessBytes_eq, Nat.mul_comm n, Nat.mul_assoc, Nat.mul_comm]
    rw [hbytes, ← Nat.add_assoc, ← Nat.add_mul, hdiv]
  · have hb : (decide (p.entry.wordIdx / k.cache.accessWords = n) && p.entry.needRsp) = false := by
      rw [Bool.and_eq_false_iff, decide_eq_false_iff_not]
      by_cases hw : p.entry.wordIdx / k.cache.accessWords = n
      · right
        simpa [hw] using hhere
      · exact .inl hw
    simp only [hb, Bool.false_eq_true, if_false]
    rw [if_neg hhere]
    rfl

/-- The outputs of the FSM that writes a chunk. -/
theorem Writing.out (h : Writing s r p n) :
    (s.unit.out i).writeData = !r.last.rError ∧ (s.unit.out i).set = p.set ∧
      (s.unit.out i).way = p.entry.victimWayIdx ∧
      ((s.unit.out i).writeDir = true ↔ n + 1 = chunks k.cache ∧ chunks k.cache ≠ 1) ∧
      ((s.unit.out i).updtRtab = true ↔ n + 1 = chunks k.cache ∧ chunks k.cache ≠ 1) ∧
      ((s.unit.out i).metaR = true ↔ n + 1 = chunks k.cache ∧ chunks k.cache ≠ 1) ∧
      (s.unit.out i).fsmD =
        (if n + 1 = chunks k.cache then (if chunks k.cache = 1 then .writeDir else .idle)
          else .write) ∧
      (s.unit.out i).cntD = n * k.cache.accessWords + k.cache.accessWords := by
  obtain ⟨rest, hp⟩ := h.head
  have herr : s.unit.view.refillIsError = r.last.rError := (h.inv.head hp).2.2.1
  have hfsm : s.unit.view.refillFsmQ = .write := h.fsm
  have hcnt : s.unit.view.refillCntQ = n * k.cache.accessWords := h.cnt
  have hlast : s.unit.view.refillCntQ = MissHandler.refillLastChunkWord k.cache ↔
      n + 1 = chunks k.cache := by
    rw [hcnt]
    exact last_iff k.cache
  have hzero := last_zero_iff k.cache
  unfold Refiller.out MissHandler.refillComb MissHandler.refillWrite
  simp only [hfsm]
  by_cases hl : n + 1 = chunks k.cache
  · by_cases h1 : chunks k.cache = 1
    · rw [if_pos (hlast.2 hl), if_pos (hzero.2 h1)]
      simp only [h.chunk, herr, hcnt, hl, h1]
      simp [MissHandler.refillDefault]
    · rw [if_pos (hlast.2 hl), if_neg (fun hx => h1 (hzero.1 hx))]
      simp only [MissHandler.refillLast, h.chunk, herr, hcnt, hl]
      simp [h1]
  · rw [if_neg (fun hx => hl (hlast.1 hx))]
    simp only [h.chunk, herr, hcnt]
    simp [MissHandler.refillDefault, hl, hfsm]

/-- A refill shows its chunk. -/
theorem Writing.raw (h : Writing s r p n) :
    s.unit.raw i = chunkEvt k p (r.line k) r.last.rError n := by
  obtain ⟨hdata, hset, hway, hdir, hrtab, -, -, -⟩ := h.out (i := i)
  obtain ⟨rest, hp⟩ := h.head
  have herr : s.unit.view.refillIsError = r.last.rError := (h.inv.head hp).2.2.1
  -- the entry is written from the registers, which the first chunk has loaded
  have hloaded : n + 1 = chunks k.cache ∧ chunks k.cache ≠ 1 → Loaded s.unit.miss p := by
    rintro ⟨hn, h1⟩
    have hmiss := h.miss
    rwa [if_neg (by omega)] at hmiss
  unfold Refiller.raw chunkEvt
  rw [hset, hway, hdata, h.rsp, h.cnt]
  congr 1
  · cases r.last.rError with
    | true => rfl
    | false =>
      simp only [Bool.not_false, if_true, Bool.false_eq_true, if_false]
      congr 2
      apply units_congr
      intro b hb
      exact h.data hb
  · by_cases hl : n + 1 = chunks k.cache ∧ chunks k.cache ≠ 1
    · have hreg := hloaded hl
      rw [if_pos (hdir.2 hl), if_pos hl]
      simp only [MissHandler.refillDirEntry, refilledEntry, herr,
        show s.unit.view.refillWbackQ = _ from hreg.wback,
        show s.unit.view.refillDirtyQ = _ from hreg.dirty,
        show s.unit.view.refillTagQ = _ from hreg.tag]
    · rw [if_neg (fun hx => hl (hdir.1 hx)), if_neg hl]
  · by_cases hl : n + 1 = chunks k.cache ∧ chunks k.cache ≠ 1
    · have hreg := hloaded hl
      rw [if_pos (hrtab.2 hl), if_pos hl]
      simp only [MissHandler.refillNline, herr,
        show s.unit.view.refillSetQ = _ from hreg.set,
        show s.unit.view.refillTagQ = _ from hreg.tag]
    · rw [if_neg (fun hx => hl (hrtab.1 hx)), if_neg hl]

/-- The registers keep the miss after the first chunk. -/
theorem Loaded.step (h : Loaded s.unit.miss p) (hload : s.unit.view.refillLoad = false) :
    Loaded (s.step i).unit.miss p := by
  have hkeep : ∀ {α : Type} {x y z : α}, y = z →
      (if s.unit.view.refillLoad = true then x else y) = z := by
    intro α x y z hy
    rw [hload]
    exact hy
  exact ⟨hkeep h.set, hkeep h.tag, hkeep h.way, hkeep h.sid, hkeep h.tid, hkeep h.needRsp,
    hkeep h.isPrefetch, hkeep h.wback, hkeep h.dirty, hkeep h.wdata, hkeep h.be, hkeep h.word⟩

/-- After the first chunk the registers hold the miss. -/
theorem Writing.loaded (h : Writing s r p n) : Loaded (s.step i).unit.miss p := by
  have hmiss := h.miss
  have hcnt := h.cnt
  by_cases hn : n = 0
  · rw [if_pos hn] at hmiss
    obtain ⟨he, hset, hst⟩ := hmiss
    have hload : s.unit.view.refillLoad = true := by
      have h0 : s.unit.miss.refillCntQ = 0 := by rw [hcnt, hn, Nat.zero_mul]
      exact decide_eq_true ⟨h.fsm, h0⟩
    constructor <;>
      simp [Refilling.step, Refiller.step, MissHandler.step, hload, he, hset, hst]
  · rw [if_neg hn] at hmiss
    have hload : s.unit.view.refillLoad = false := by
      have h0 : s.unit.miss.refillCntQ ≠ 0 := by
        rw [hcnt]
        exact Nat.mul_ne_zero hn (Nat.pos_iff_ne_zero.1 k.cache.accessWords_pos)
      exact decide_eq_false fun hx => h0 hx.2
    exact hmiss.step hload

/-- The response that is not consumed stays at the head. -/
theorem head_step {rest : List (Resp k.cache)} (hp : s.box.pend = r :: rest)
    (hm : (s.unit.out i).metaR = false) : ∃ rest, (s.step i).box.pend = r :: rest := by
  refine ⟨rest ++ (s.box.pushed (s.unit.path.taken i.resp)).toList, ?_⟩
  show (if (s.unit.out i).metaR then s.box.pend.tail else s.box.pend) ++ _ = _
  rw [hm, hp]
  rfl

/-- From a chunk to the next one. -/
theorem Writing.next (h : Writing s r p n) (hf : s.Framed i) (hn : n + 1 < chunks k.cache) :
    Writing (s.step i) r p (n + 1) := by
  obtain ⟨-, -, -, -, -, hmeta, hfsm, hcnt⟩ := h.out (i := i)
  obtain ⟨rest, hp⟩ := h.head
  have hm : (s.unit.out i).metaR = false := by
    rw [Bool.eq_false_iff]
    intro hx
    have := (hmeta.1 hx).1
    omega
  refine ⟨h.inv.step hf, ?_, ?_, head_step hp hm, ?_⟩
  · rw [step_fsm, hfsm, if_neg (by omega)]
  · rw [step_cnt, hcnt, Nat.add_mul, Nat.one_mul]
  · rw [if_neg (by omega)]
    exact h.loaded

/-! ## The whole refill -/

/-- The cycles of a refill, with one more for the response to leave its buffer. -/
def refillCycles (c : Cfg) : Nat := chunks c + if chunks c = 1 then 2 else 1

def idleEvt (c : Cfg) : RefillEvt c := ⟨none, none, none, none⟩

/-- The chunks have been written: the directory remains to be, when the line has only one. -/
structure Written (s : Refilling k) (r : Resp k.cache) (p : Pending k.cache) : Prop where
  inv : s.Inv
  fsm : s.unit.miss.refillFsmQ = if chunks k.cache = 1 then .writeDir else .idle
  head : chunks k.cache = 1 → ∃ rest, s.box.pend = r :: rest
  miss : chunks k.cache = 1 → Loaded s.unit.miss p

theorem Writing.last (h : Writing s r p n) (hf : s.Framed i) (hn : n + 1 = chunks k.cache) :
    Written (s.step i) r p := by
  obtain ⟨-, -, -, -, -, hmeta, hfsm, -⟩ := h.out (i := i)
  obtain ⟨rest, hp⟩ := h.head
  refine ⟨h.inv.step hf, ?_, ?_, fun _ => h.loaded⟩
  · rw [step_fsm, hfsm, if_pos hn]
  · intro h1
    apply head_step hp
    rw [Bool.eq_false_iff]
    intro hx
    exact (hmeta.1 hx).2 h1

/-- The chunks of a line, from any of them on. -/
theorem Writing.raws (m : Nat) (n : Nat) (s : Refilling k) (is : List (RefillIn k))
    (h : Writing s r p n) (hn : n + m + 1 = chunks k.cache) (hlen : is.length = m + 1)
    (hf : Along Refilling.step Framed s is) :
    s.raws is = (List.range' n (m + 1)).map (chunkEvt k p (r.line k) r.last.rError) ∧
      Written (run Refilling.step s is) r p := by
  induction m generalizing n s is with
  | zero =>
    obtain ⟨i, rfl⟩ := List.length_eq_one_iff.1 hlen
    exact ⟨congrArg (fun e => [e]) h.raw, h.last hf.1 hn⟩
  | succ m ih =>
    cases is with
    | nil => simp at hlen
    | cons i is =>
      obtain ⟨hraws, hend⟩ := ih (n + 1) (s.step i) is (h.next hf.1 (by omega)) (by omega)
        (by simpa using hlen) hf.2
      refine ⟨?_, hend⟩
      rw [List.range'_succ, List.map_cons, Refilling.raws, hraws, h.raw]

theorem rsp_of_not_write (hf : s.unit.view.refillFsmQ ≠ .write) :
    s.unit.view.refillCoreRsp = none := by
  have hlane : s.unit.view.refillLane = s.unit.view.refillDefault := if_neg hf
  unfold MissHandler.refillCoreRsp
  rw [hlane]
  rfl

theorem raw_idle (hf : s.unit.miss.refillFsmQ = .idle) : s.unit.raw i = idleEvt k.cache := by
  have hfsm : s.unit.view.refillFsmQ = .idle := hf
  have hout : (s.unit.out i).writeData = false ∧ (s.unit.out i).writeDir = false ∧
      (s.unit.out i).updtRtab = false := by
    unfold Refiller.out MissHandler.refillComb MissHandler.refillIdle
    simp only [hfsm]
    split_ifs <;> exact ⟨rfl, rfl, rfl⟩
  have hrsp : s.unit.view.refillCoreRsp = none := rsp_of_not_write (by rw [hfsm]; decide)
  unfold Refiller.raw
  rw [hout.1, hout.2.1, hout.2.2, hrsp]
  rfl

/-- The cycles after the chunks. -/
theorem Written.raws {is : List (RefillIn k)} (h : Written s r p)
    (hlen : is.length = if chunks k.cache = 1 then 2 else 1) :
    s.raws is = (if chunks k.cache = 1 then [dirEvt p r.last.rError] else []) ++
      [idleEvt k.cache] := by
  have hfsm := h.fsm
  by_cases h1 : chunks k.cache = 1
  · rw [if_pos h1] at hlen hfsm ⊢
    obtain ⟨i, j, rfl⟩ := List.length_eq_two.1 hlen
    obtain ⟨rest, hp⟩ := h.head h1
    have hreg := h.miss h1
    have hv : s.unit.view.refillFsmQ = .writeDir := hfsm
    have herr : s.unit.view.refillIsError = r.last.rError := (h.inv.head hp).2.2.1
    have hout : s.unit.out i = s.unit.view.refillLast i.miss s.unit.view.refillIsPrefetchQ
        { s.unit.view.refillDefault with
          set := s.unit.view.refillSetQ, way := s.unit.view.refillWayQ } := by
      unfold Refiller.out MissHandler.refillComb
      rw [hv]
    have hraw : s.unit.raw i = dirEvt p r.last.rError := by
      have hrsp : s.unit.view.refillCoreRsp = none := rsp_of_not_write (by rw [hv]; decide)
      unfold Refiller.raw
      rw [hout, hrsp]
      simp only [MissHandler.refillLast, MissHandler.refillDefault, MissHandler.refillDirEntry,
        MissHandler.refillNline, herr, dirEvt, refilledEntry, if_true, Bool.false_eq_true, if_false,
        Option.map_none,
        show s.unit.view.refillSetQ = _ from hreg.set,
        show s.unit.view.refillWayQ = _ from hreg.way,
        show s.unit.view.refillTagQ = _ from hreg.tag,
        show s.unit.view.refillWbackQ = _ from hreg.wback,
        show s.unit.view.refillDirtyQ = _ from hreg.dirty]
    have hidle : (s.step i).unit.miss.refillFsmQ = .idle := by
      rw [step_fsm, hout]
      rfl
    rw [Refilling.raws, Refilling.raws, Refilling.raws, hraw, raw_idle hidle]
    rfl
  · rw [if_neg h1] at hlen hfsm ⊢
    obtain ⟨i, rfl⟩ := List.length_eq_one_iff.1 hlen
    rw [Refilling.raws, Refilling.raws, raw_idle hfsm]
    rfl

/-- The grant of the pipeline: the MSHR is read for the response at the head, and nothing is
allocated in it. -/
theorem granted {rest : List (Resp k.cache)} (h : s.Inv) (hf : s.Framed i)
    (hidle : s.unit.miss.refillFsmQ = .idle) (hp : s.box.pend = r :: rest)
    (hv : r.isInval = false) (hready : i.miss.refillReqReady = true)
    (halloc : i.miss.alloc = false) :
    Writing (s.step i) r (pendingOf s.unit.miss r) 0 ∧ (s.step i).unit.miss.coreRspBuf = [] := by
  obtain ⟨hrok, hinv, -, hset, hway⟩ := h.head hp
  have hfsm : s.unit.view.refillFsmQ = .idle := hidle
  have hinv' : s.unit.view.head.isInval = false := hinv.trans hv
  have hout : s.unit.out i =
      { s.unit.view.refillDefault with
        ackCs := true, set := s.unit.view.ackCacheSet, ack := true, cntD := 0, fsmD := .write } := by
    unfold Refiller.out MissHandler.refillComb MissHandler.refillIdle
    simp [hfsm, hrok, hready, hinv', MissHandler.refillDefault]
  have hmeta : (s.unit.out i).metaR = false := by rw [hout]; rfl
  obtain ⟨rest', hp'⟩ := head_step hp hmeta
  have hinvs := h.step hf
  -- what the MSHR is asked for
  have hin : s.unit.view.mshrIn i.miss =
      { s.unit.view.mshrIn i.miss with
        alloc := false, ack := true, ackCs := true, ackSet := r.last.rSet, ackWay := r.last.rWay } := by
    have hack : (s.unit.view.refillComb i.miss).ack = true ∧
        (s.unit.view.refillComb i.miss).ackCs = true := by
      have ho : s.unit.view.refillComb i.miss = _ := hout
      rw [ho]
      exact ⟨rfl, rfl⟩
    simp only [MissHandler.mshrIn, halloc, hack, hset, hway, Bool.and_false]
  have hmshr : (s.step i).unit.miss.mshr.ackEntry = s.unit.miss.mshr.ram r.last.rSet r.last.rWay ∧
      (s.step i).unit.miss.mshr.cacheSetQ = s.unit.miss.mshr.cacheSetQ := by
    have hstep : (s.step i).unit.miss.mshr = s.unit.miss.mshr.step (s.unit.view.mshrIn i.miss) := rfl
    rw [hstep, hin]
    refine ⟨?_, ?_⟩
    · simp [Mshr.step, Mshr.ackEntry, Mshr.cs, Mshr.addr]
    · funext x y
      simp [Mshr.step]
  have hcbuf : (s.step i).unit.miss.cbuf.entriesQ = s.unit.miss.cbuf.entriesQ := by
    funext x
    simp [Refilling.step, Refiller.step, MissHandler.step, Cbuf.step, halloc, Refiller.view]
  obtain ⟨-, -, -, hset', hway'⟩ := hinvs.head hp'
  refine ⟨⟨hinvs, ?_, ?_, ⟨rest', hp'⟩, ?_⟩, ?_⟩
  · rw [step_fsm, hout]
  · rw [step_cnt, hout, Nat.zero_mul]
  · rw [if_pos rfl]
    have hentry : (s.step i).unit.view.mshr.ackEntry =
        s.unit.miss.mshr.ram r.last.rSet r.last.rWay := hmshr.1
    refine ⟨hentry, ?_, ?_⟩
    · show (s.step i).unit.miss.mshr.cacheSetQ _ _ = _
      rw [hmshr.2, hset', hway']
      rfl
    · have hc : (s.step i).unit.view.cbuf.entriesQ = s.unit.miss.cbuf.entriesQ := hcbuf
      rw [MissHandler.ackCbufEntry, hentry, hc]
      rfl
  · have hnone : s.unit.view.refillCoreRsp = none := rsp_of_not_write (by rw [hfsm]; decide)
    have hstep : (s.step i).unit.miss.coreRspBuf =
        Fifo.step 1 k.cache.refillCoreRspFeedthrough s.unit.miss.coreRspBuf
          s.unit.view.refillCoreRsp true := rfl
    rw [hstep, hnone]
    have hbuf := h.buf
    cases hq : s.unit.miss.coreRspBuf with
    | nil => exact Fifo.step_nil_none
    | cons x q =>
      rw [hq, List.length_cons] at hbuf
      have hnil : q = [] := List.length_eq_zero_iff.1 (by omega)
      rw [hnil]
      simp [Fifo.step, Fifo.rok, Fifo.rdata]

/-- A response of the memory, from the grant of the pipeline: the state and the inputs of the grant,
and the inputs of the cycles of the refill. -/
structure Refills (s : Refilling k) (i : RefillIn k) (is : List (RefillIn k)) (r : Resp k.cache) :
    Prop where
  inv : s.Inv
  idle : s.unit.miss.refillFsmQ = .idle
  head : ∃ rest, s.box.pend = r :: rest
  refill : r.isInval = false
  ready : i.miss.refillReqReady = true
  /-- The controller does not grant the pipeline in the cycle of an allocation. -/
  alloc : i.miss.alloc = false
  framed : Along Refilling.step Framed s (i :: is)
  cycles : is.length = refillCycles k.cache
  /-- The miss is for a word of the line. -/
  word : (pendingOf s.unit.miss r).entry.wordIdx < k.cache.clWords

variable {is : List (RefillIn k)}

theorem range_chunks (c : Cfg) :
    List.range (chunks c) = List.range (chunks c - 1) ++ [chunks c - 1] := by
  have h : List.range (chunks c - 1 + 1) = _ := List.range_succ
  rwa [Nat.sub_add_cancel (chunks_pos c)] at h

/-- All that a refill shows. -/
def whole (k : RefillCfg) (p : Pending k.cache) (line : Nat → Byte) (err : Bool) :
    List (RefillEvt k.cache) :=
  (List.range (chunks k.cache)).map (chunkEvt k p line err) ++
    ((if chunks k.cache = 1 then [dirEvt p err] else []) ++ [idleEvt k.cache])

section
variable {line : Nat → Byte} {err : Bool}

/-- Nothing but the last chunk, or the cycle that follows the only one. -/
theorem whole_once {α : Type} {f : RefillEvt k.cache → Option α} {x : α}
    (hdir : f (dirEvt p err) = some x) (hidle : f (idleEvt k.cache) = none)
    (hchunk : ∀ n, f (chunkEvt k p line err n) =
      if n + 1 = chunks k.cache ∧ chunks k.cache ≠ 1 then some x else none) :
    (whole k p line err).filterMap f = [x] := by
  have hpos := chunks_pos k.cache
  have hfirst : ((List.range (chunks k.cache - 1)).map (chunkEvt k p line err)).filterMap f = [] := by
    rw [List.filterMap_eq_nil_iff]
    intro e he
    obtain ⟨n, hn, rfl⟩ := List.mem_map.1 he
    rw [List.mem_range] at hn
    rw [hchunk, if_neg (by omega)]
  rw [whole, range_chunks, List.map_append, List.filterMap_append, List.filterMap_append, hfirst,
    List.map_singleton, List.filterMap_append]
  by_cases h1 : chunks k.cache = 1
  · have hlast : f (chunkEvt k p line err (chunks k.cache - 1)) = none := by
      rw [hchunk, if_neg (fun hx => hx.2 h1)]
    rw [if_pos h1, List.filterMap_cons_none hlast]
    simp [hdir, hidle]
  · have hlast : f (chunkEvt k p line err (chunks k.cache - 1)) = some x := by
      rw [hchunk, if_pos ⟨Nat.sub_add_cancel hpos, h1⟩]
    rw [if_neg h1, List.filterMap_cons_some hlast]
    simp [hidle]

theorem whole_data : (whole k p line err).filterMap RefillEvt.data =
    if err then [] else (List.range (chunks k.cache)).map fun n =>
      ⟨p.set, p.entry.victimWayIdx, n * k.cache.accessWords,
        units k.cache.accessBytes fun b => mergedLine k p line (n * k.cache.accessBytes + b)⟩ := by
  have hrest : ((if chunks k.cache = 1 then [dirEvt p err] else []) ++
      [idleEvt k.cache]).filterMap RefillEvt.data = [] := by
    split_ifs <;> rfl
  rw [whole, List.filterMap_append, hrest, List.append_nil, List.filterMap_map]
  cases err with
  | true =>
    rw [if_pos rfl, List.filterMap_eq_nil_iff]
    intro n _
    rfl
  | false =>
    rw [if_neg Bool.false_ne_true]
    exact congrFun List.filterMap_eq_map' _

/-- The response is pulsed once, at the chunk that holds its word. -/
theorem whole_rsp (hw : p.entry.wordIdx < k.cache.clWords) (ft : Bool) :
    (Fifo.outs 1 ft [] ((whole k p line err).map RefillEvt.rsp)).filterMap id =
      if p.entry.needRsp then [refilledRsp k p line err] else [] := by
  have hrest : ∃ m, ((if chunks k.cache = 1 then [dirEvt p err] else []) ++
      [idleEvt k.cache]).map RefillEvt.rsp = none :: List.replicate m none := by
    split_ifs
    · exact ⟨1, rfl⟩
    · exact ⟨0, rfl⟩
  obtain ⟨m, hrest⟩ := hrest
  rw [whole, List.map_append, hrest, List.map_map]
  cases hneed : p.entry.needRsp with
  | false =>
    have hnone : (List.range (chunks k.cache)).map (RefillEvt.rsp ∘ chunkEvt k p line err) =
        List.replicate (chunks k.cache) none := by
      rw [List.eq_replicate_iff]
      refine ⟨by simp, ?_⟩
      intro x hx
      obtain ⟨n, -, rfl⟩ := List.mem_map.1 hx
      simp [chunkEvt, hneed]
    rw [hnone, ← List.replicate_succ, ← List.replicate_add, Fifo.outs_none]
    rfl
  | true =>
    have hlt : p.entry.wordIdx / k.cache.accessWords < chunks k.cache := by
      rw [Nat.div_lt_iff_lt_mul k.cache.accessWords_pos, chunks_mul]
      exact hw
    obtain ⟨j, hj⟩ := Nat.exists_eq_add_of_lt hlt
    have hsome : (List.range (chunks k.cache)).map (RefillEvt.rsp ∘ chunkEvt k p line err) =
        List.replicate (p.entry.wordIdx / k.cache.accessWords) none ++
          some (refilledRsp k p line err) :: List.replicate j none := by
      apply List.ext_getElem
      · simp [hj]
        omega
      · intro n h1 h2
        rw [List.getElem_map, List.getElem_range, List.getElem_append]
        simp only [Function.comp_apply, chunkEvt, hneed, and_true, List.length_replicate]
        split_ifs with h3 h4 h4
        · omega
        · simp [h3]
        · simp
        · obtain ⟨d, hd⟩ : ∃ d, n - p.entry.wordIdx / k.cache.accessWords = d + 1 :=
            ⟨n - p.entry.wordIdx / k.cache.accessWords - 1, by omega⟩
          simp [hd]
    have hjoin : ∀ a : List (Option RefillRsp), a = List.replicate j none →
        ∀ b : List (Option RefillRsp), a ++ none :: b = none :: (List.replicate j none ++ b) := by
      intro a ha b
      rw [ha, ← List.cons_append, ← List.replicate_succ, List.replicate_succ', List.append_assoc]
      rfl
    rw [hsome, List.append_assoc, List.cons_append, hjoin _ rfl, ← List.replicate_add,
      Fifo.outs_single Nat.one_pos]
    rfl

end

theorem Refills.raws (h : Refills s i is r) :
    (s.step i).raws is = whole k (pendingOf s.unit.miss r) (r.line k) r.last.rError := by
  obtain ⟨rest, hp⟩ := h.head
  obtain ⟨hw, -⟩ := granted h.inv h.framed.1 h.idle hp h.refill h.ready h.alloc
  have hpos := chunks_pos k.cache
  have hlen := h.cycles
  unfold refillCycles at hlen
  have hsplit : ∀ (is : List (RefillIn k)) (m : Nat) (s : Refilling k),
      s.raws is = s.raws (is.take m) ++ (run Refilling.step s (is.take m)).raws (is.drop m) := by
    intro is
    induction is with
    | nil => intro m s; simp [Refilling.raws]
    | cons i is ih =>
      intro m s
      cases m with
      | zero => rfl
      | succ m =>
        rw [List.take_succ_cons, List.drop_succ_cons, Refilling.raws, Refilling.raws, run_cons,
          ih m (s.step i)]
        rfl
  obtain ⟨hchunks, hend⟩ := hw.raws (chunks k.cache - 1) 0 _ (is.take (chunks k.cache))
    (by omega) (by rw [List.length_take]; omega) (h.framed.2.take _)
  rw [hsplit is (chunks k.cache), hchunks, hend.raws (by rw [List.length_drop]; omega),
    Nat.sub_add_cancel hpos, ← List.range_eq_range']
  rfl

/-- **The refill of a line.** -/
theorem Refills.evts (h : Refills s i is r) :
    ((s.step i).evts is).filterMap RefillEvt.data =
      (if r.last.rError then [] else (List.range (chunks k.cache)).map fun n =>
        ⟨(pendingOf s.unit.miss r).set, (pendingOf s.unit.miss r).entry.victimWayIdx,
          n * k.cache.accessWords, units k.cache.accessBytes fun b =>
            mergedLine k (pendingOf s.unit.miss r) (r.line k) (n * k.cache.accessBytes + b)⟩) ∧
      ((s.step i).evts is).filterMap RefillEvt.dir =
        [⟨(pendingOf s.unit.miss r).set, (pendingOf s.unit.miss r).entry.victimWayIdx,
          refilledEntry (pendingOf s.unit.miss r) r.last.rError⟩] ∧
      ((s.step i).evts is).filterMap RefillEvt.rsp =
        (if (pendingOf s.unit.miss r).entry.needRsp then
          [refilledRsp k (pendingOf s.unit.miss r) (r.line k) r.last.rError] else []) ∧
      ((s.step i).evts is).filterMap RefillEvt.rtab =
        [(⟨(pendingOf s.unit.miss r).entry.tag, (pendingOf s.unit.miss r).set⟩, r.last.rError)] := by
  obtain ⟨hrsp, hdata, hdir, hrtab⟩ := evts_eq (s.step i) is
  obtain ⟨rest, hp⟩ := h.head
  have hbuf := (granted h.inv h.framed.1 h.idle hp h.refill h.ready h.alloc).2
  have hmap : ∀ {α : Type} {l l' : List (RefillEvt k.cache)} {f : RefillEvt k.cache → Option α},
      l.map f = l'.map f → l.filterMap f = l'.filterMap f := by
    intro α l l' f hf
    have hid : ∀ l : List (RefillEvt k.cache), l.filterMap f = (l.map f).filterMap id := by
      intro l
      rw [List.filterMap_map]
      rfl
    rw [hid l, hid l', hf]
  refine ⟨?_, ?_, ?_, ?_⟩
  · rw [hmap hdata, h.raws, whole_data]
  · rw [hmap hdir, h.raws]
    exact whole_once rfl rfl fun n => rfl
  · have hout : ((s.step i).evts is).filterMap RefillEvt.rsp =
        (((s.step i).evts is).map RefillEvt.rsp).filterMap id := by
      rw [List.filterMap_map]
      rfl
    rw [hout, hrsp, hbuf, h.raws]
    exact whole_rsp h.word _
  · rw [hmap hrtab, h.raws]
    exact whole_once rfl rfl fun n => rfl

end

end Refilling

end Hpdcache
