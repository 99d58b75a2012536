import Hpdcache.Hwpf
import Mathlib.Data.BitVec
import Mathlib.Tactic.Ring

/-!
# The lines of a prefetch engine

What an engine of `hwpf_stride` requests after a snoop match: the lines that follow its base line,
and then blocks of lines, a stride apart. The line that matched is not requested, and without lines
after the first one the whole first block is skipped.

**The base register.** It keeps 58 bits of the first line of a block. The next block starts from
what it keeps: a line whose address is wider loses its upper bits there.

* `Stride.Streaming.step` — a cycle requests the first of the lines that are left, or none.
* `Stride.Streaming.rank_step` — the rank falls in every cycle that the memory and the throttle let
  pass.
* `Stride.prefetches` — the lines requested after a match are those of the stream.
-/

namespace Hpdcache

open Hw

/-- No register is written. -/
def StrideIn.Quiet (i : StrideIn) : Prop :=
  i.csrBase = none ∧ i.csrParam = none ∧ i.csrThrottle = none

namespace Stride

/-! ## The stream -/

section
variable {w : Nat}

/-- A line and the `m` that follow. -/
def block (n : BitVec w) (m : Nat) : List (BitVec w) :=
  (List.range (m + 1)).map fun l => n + BitVec.ofNat w l

/-- The blocks that follow the one of the base line `b`. -/
def blocks (b inc : BitVec w) (m k : Nat) : List (BitVec w) :=
  (List.range k).flatMap fun j => block (b + BitVec.ofNat w (j + 1) * inc) m

/-- The lines that follow the base line in its block, and then the blocks that follow. -/
def stream (b inc : BitVec w) (nblocks nlines : Nat) : List (BitVec w) :=
  (List.range nlines).map (fun l => b + BitVec.ofNat w (l + 1)) ++ blocks b inc nlines nblocks

theorem ofNat_succ (l : Nat) : BitVec.ofNat w (l + 1) = BitVec.ofNat w l + 1 :=
  BitVec.ofNat_add l 1

theorem ofNat_zero : BitVec.ofNat w 0 = 0 := rfl

theorem block_zero (n : BitVec w) : block n 0 = [n] := by
  have hadd : n + BitVec.ofNat w 0 = n := by rw [ofNat_zero, add_zero]
  exact congrArg (· :: []) hadd

theorem block_succ (n : BitVec w) (m : Nat) : block n (m + 1) = n :: block (n + 1) m := by
  unfold block
  rw [List.range_succ_eq_map, List.map_cons, List.map_map, ofNat_zero, add_zero]
  congr 1
  apply List.map_congr_left
  intro l _
  show n + BitVec.ofNat w (l + 1) = n + 1 + BitVec.ofNat w l
  rw [ofNat_succ]
  ring

theorem blocks_zero (b inc : BitVec w) (m : Nat) : blocks b inc m 0 = [] := rfl

theorem blocks_succ (b inc : BitVec w) (m k : Nat) :
    blocks b inc m (k + 1) = block (b + inc) m ++ blocks (b + inc) inc m k := by
  unfold blocks
  rw [List.range_succ_eq_map, List.flatMap_cons, List.flatMap_map]
  congr 1
  · rw [ofNat_succ, ofNat_zero, zero_add, one_mul]
  · apply List.flatMap_congr
    intro j _
    have hline : b + BitVec.ofNat w (j.succ + 1) * inc =
        b + inc + BitVec.ofNat w (j + 1) * inc := by
      rw [ofNat_succ, ofNat_succ]
      ring
    rw [hline]

/-- The lines of the first block but the base line. -/
theorem stream_of_lines (b inc : BitVec w) (k m : Nat) :
    stream b inc k (m + 1) = block (b + 1) m ++ blocks b inc (m + 1) k := by
  unfold stream block
  congr 1
  apply List.map_congr_left
  intro l _
  rw [ofNat_succ]
  ring

theorem stream_of_blocks (b inc : BitVec w) (k : Nat) :
    stream b inc (k + 1) 0 = block (b + inc) 0 ++ blocks (b + inc) inc 0 k :=
  blocks_succ b inc 0 k

end

/-! ## The cycles -/

variable {h : HwpfCfg}

/-- The engine works on a match. -/
def busy (e : Stride h) : Bool := decide (e.stateQ ≠ .idle ∧ e.stateQ ≠ .snoop)

/-- What the engine puts out in a cycle depends on its state, and on the grant. -/
structure Signals (e : Stride h) (i : StrideIn) (o : StrideOut h) : Prop where
  busy : o.busy = e.busy
  reqValid : o.reqValid = decide (e.stateQ = .sendReq)
  inflightInc : o.inflightInc = (decide (e.stateQ = .sendReq) && i.reqReady)

theorem signals_comb (e : Stride h) (i : StrideIn) : e.Signals i (e.comb i) := by
  cases hs : e.stateQ with
  | idle => constructor <;> simp only [busy, comb, hs, combIdle] <;> split_ifs <;> rfl
  | snoop => constructor <;> simp only [busy, comb, hs, combSnoop] <;> split_ifs <;> rfl
  | sendReq =>
    cases hr : i.reqReady with
    | false => constructor <;> simp only [busy, comb, hs, combSendReq, hr] <;> rfl
    | true =>
      constructor <;> simp only [busy, comb, hs, combSendReq, hr, if_true] <;> split_ifs <;> rfl
  | wait => constructor <;> simp only [busy, comb, hs, combWait] <;> split_ifs <;> rfl
  | done => constructor <;> simp only [busy, comb, hs, combDone] <;> split_ifs <;> rfl
  | abort => constructor <;> simp only [busy, comb, hs, combAbort] <;> split_ifs <;> rfl

/-- The lines that the memory takes in a cycle. -/
def sent (e : Stride h) (i : StrideIn) : List (BitVec h.nlineWidth) :=
  if (e.comb i).reqValid && i.reqReady then [e.requestNlineQ] else []

/-- The requests in flight after a cycle. -/
def inflightD (e : Stride h) (inc : Bool) (i : StrideIn) : BitVec 16 :=
  let sent := if inc then e.inflightCntQ + 1 else e.inflightCntQ
  if i.rspValid && decide (e.inflightCntQ ≠ 0) then sent - 1 else sent

/-- The state and the wait after a request that is not the last one. -/
def throttled (e : Stride h) : StrideFsm × BitVec 16 :=
  if e.shadowThrottleQ.nwait = 0 then (if e.isInflightMax then .wait else .sendReq, e.nwaitCntQ)
  else (.wait, e.shadowThrottleQ.nwait)

/-- The base register with the first line of the next block. -/
def nextBase (e : Stride h) : StrideBase :=
  { e.shadowBaseQ with baseCline := (e.baseNline + e.incrementStride).setWidth 58 }

/-- The base register when all is done. -/
def disarmed (e : Stride h) : StrideBase :=
  { e.shadowBaseQ with
    enable := e.shadowBaseQ.enable && e.shadowBaseQ.rearm
    baseCline := if e.shadowBaseQ.cycle then e.csrBaseQ.baseCline else e.shadowBaseQ.baseCline }

section
variable {e : Stride h} {i : StrideIn}

theorem step_hold (hq : i.Quiet) (hs : e.stateQ = .sendReq) (hr : i.reqReady = false) :
    e.step i = { e with inflightCntQ := e.inflightD false i } := by
  obtain ⟨hb, hp, ht⟩ := hq
  simp [step, comb, combSendReq, default, inflightD, hb, hp, ht, hs, hr]

/-- A request in the middle of a block. -/
theorem step_line (hq : i.Quiet) (hs : e.stateQ = .sendReq) (hr : i.reqReady = true)
    (hen : e.csrBaseQ.enable = true) (hl : e.nlinesCntQ ≠ 0) :
    e.step i = { e with
      stateQ := e.throttled.1, nwaitCntQ := e.throttled.2, requestNlineQ := e.requestNlineQ + 1
      nlinesCntQ := e.nlinesCntQ - 1, inflightCntQ := e.inflightD true i } := by
  obtain ⟨hb, hp, ht⟩ := hq
  by_cases hw : e.shadowThrottleQ.nwait = 0 <;>
    simp only [step, comb, combSendReq, default, inflightD, throttled, hb, hp, ht, hs, hr, hen, hl,
      hw, if_true, if_false, and_false, Option.getD_none, Bool.false_eq_true]

/-- The request of the last line of a block that another one follows. -/
theorem step_block (hq : i.Quiet) (hs : e.stateQ = .sendReq) (hr : i.reqReady = true)
    (hen : e.csrBaseQ.enable = true) (hl : e.nlinesCntQ = 0) (hk : e.nblocksCntQ ≠ 0) :
    e.step i = { e with
      stateQ := e.throttled.1, nwaitCntQ := e.throttled.2
      requestNlineQ := e.baseNline + e.incrementStride, shadowBaseQ := e.nextBase
      nblocksCntQ := e.nblocksCntQ - 1, nlinesCntQ := e.shadowParamQ.nlines
      inflightCntQ := e.inflightD true i } := by
  obtain ⟨hb, hp, ht⟩ := hq
  by_cases hw : e.shadowThrottleQ.nwait = 0 <;>
    simp only [step, comb, combSendReq, default, nextBlock, nextBase, pred, inflightD, throttled,
      hb, hp, ht, hs, hr, hen, hl, hk, hw, if_true, if_false, false_and, Option.getD_none,
      Bool.false_eq_true]

/-- The last request. -/
theorem step_last (hq : i.Quiet) (hs : e.stateQ = .sendReq) (hr : i.reqReady = true)
    (hen : e.csrBaseQ.enable = true) (hl : e.nlinesCntQ = 0) (hk : e.nblocksCntQ = 0) :
    e.step i = { e with
      stateQ := .done, requestNlineQ := e.baseNline + e.incrementStride, shadowBaseQ := e.nextBase
      nlinesCntQ := e.shadowParamQ.nlines, inflightCntQ := e.inflightD true i } := by
  obtain ⟨hb, hp, ht⟩ := hq
  simp only [step, comb, combSendReq, default, nextBlock, nextBase, pred, inflightD, hb, hp, ht, hs,
    hr, hen, hl, hk, and_self, if_true, Option.getD_none, Bool.false_eq_true, if_false]

theorem step_wait (hq : i.Quiet) (hs : e.stateQ = .wait) (hen : e.csrBaseQ.enable = true) :
    e.step i = { e with
      stateQ := if !e.isInflightMax && decide (e.nwaitCntQ = 0) then .sendReq else .wait
      nwaitCntQ := pred e.nwaitCntQ, inflightCntQ := e.inflightD false i } := by
  obtain ⟨hb, hp, ht⟩ := hq
  simp [step, comb, combWait, default, inflightD, hb, hp, ht, hs, hen]

/-- The requests in flight are waited for. -/
theorem step_done (hq : i.Quiet) (hs : e.stateQ = .done) (hen : e.csrBaseQ.enable = true)
    (hw : ¬ (e.inflightCntQ = 0 ∧ e.nwaitCntQ = 0)) :
    e.step i = { e with nwaitCntQ := pred e.nwaitCntQ, inflightCntQ := e.inflightD false i } := by
  obtain ⟨hb, hp, ht⟩ := hq
  have hnot : (decide (e.inflightCntQ = 0) && !e.isInflightMax && decide (e.nwaitCntQ = 0)) =
      false := by
    rw [← Bool.not_eq_true, Bool.and_eq_true, Bool.and_eq_true, decide_eq_true_eq,
      decide_eq_true_eq]
    exact fun hc => hw ⟨hc.1.1, hc.2⟩
  simp only [step, comb, combDone, default, inflightD, hb, hp, ht, hs, hen, hnot, if_true, if_false,
    Option.getD_none, Bool.false_eq_true]

/-- All is done. -/
theorem step_complete (hq : i.Quiet) (hs : e.stateQ = .done) (hen : e.csrBaseQ.enable = true)
    (hf : e.inflightCntQ = 0) (hw : e.nwaitCntQ = 0) :
    e.step i = { e with
      stateQ := if e.shadowBaseQ.rearm then .snoop else .idle
      csrBaseQ := e.disarmed, shadowBaseQ := e.disarmed } := by
  obtain ⟨hb, hp, ht⟩ := hq
  have hmax : e.isInflightMax = false := by
    unfold isInflightMax
    rw [hf]
    cases h0 : decide (e.shadowThrottleQ.ninflight = 0) with
    | true => rfl
    | false =>
      rw [decide_eq_false_iff_not] at h0
      simpa using h0
  cases hsb : e.shadowBaseQ with
  | mk b cycle rearm enable =>
    cases rearm <;> cases cycle <;>
      simp [step, comb, combDone, default, disarmed, pred, hb, hp, ht, hs, hen, hf, hw, hmax, hsb]

/-- A line is sent when its request is taken. -/
theorem sent_eq : e.sent i =
    if e.stateQ = .sendReq ∧ i.reqReady = true then [e.requestNlineQ] else [] := by
  unfold sent
  rw [(signals_comb e i).reqValid]
  simp only [Bool.and_eq_true, decide_eq_true_eq]

theorem sent_of_ne (hs : e.stateQ ≠ .sendReq) : e.sent i = [] := by
  rw [sent_eq, if_neg fun hc => hs hc.1]

end

/-! ## The lines that are left -/

/-- The base register keeps the whole line. -/
def Fits (x : BitVec h.nlineWidth) : Prop := (x.setWidth 58).setWidth h.nlineWidth = x

instance (x : BitVec h.nlineWidth) : Decidable (Fits x) := inferInstanceAs (Decidable (_ = _))

/-- All lines fit when an address has no more bits than the register. -/
theorem fits_of_le (hle : h.nlineWidth ≤ 58) (x : BitVec h.nlineWidth) : Fits x := by
  rw [Fits, BitVec.setWidth_setWidth_of_le x hle, BitVec.setWidth_eq]

/-- A line that follows one of the register has the same bits in it, whatever the register drops. -/
theorem setWidth_keep_add (x y : BitVec h.nlineWidth) :
    ((x.setWidth 58).setWidth h.nlineWidth + y).setWidth 58 = (x + y).setWidth 58 := by
  rcases Nat.le_total h.nlineWidth 58 with hle | hle
  · have hfit : (x.setWidth 58).setWidth h.nlineWidth = x := fits_of_le hle x
    rw [hfit]
  · rw [BitVec.setWidth_add _ _ hle, BitVec.setWidth_add _ _ hle,
      BitVec.setWidth_setWidth_of_le _ hle, BitVec.setWidth_eq]

/-- The lines that are to be requested. -/
def left (e : Stride h) : List (BitVec h.nlineWidth) :=
  if e.stateQ = .sendReq ∨ e.stateQ = .wait then
    block e.requestNlineQ e.nlinesCntQ.toNat ++
      blocks e.baseNline e.incrementStride e.shadowParamQ.nlines.toNat e.nblocksCntQ.toNat
  else []

/-- What the base register of the configuration holds at the end. -/
def endBase (e : Stride h) : BitVec 58 :=
  if e.busy = true ∧ e.csrBaseQ.cycle = false then
    if e.stateQ = .done then e.shadowBaseQ.baseCline
    else (e.baseNline + BitVec.ofNat _ (e.nblocksCntQ.toNat + 1) * e.incrementStride).setWidth 58
  else e.csrBaseQ.baseCline

/-- An enabled engine after a match. The first lines of the blocks that another one follows fit in
the base register. -/
structure Streaming (e : Stride h) : Prop where
  state : e.stateQ = .sendReq ∨ e.stateQ = .wait ∨ e.stateQ = .done
  enable : e.csrBaseQ.enable = true
  cycle : e.shadowBaseQ.cycle = e.csrBaseQ.cycle
  shadow : e.shadowBaseQ.enable = true
  param : e.shadowParamQ.nlines ≠ 0 ∨ e.shadowParamQ.nblocks ≠ 0
  fits : ∀ k < e.nblocksCntQ.toNat, Fits (e.baseNline + BitVec.ofNat _ k * e.incrementStride)

section
variable {e : Stride h} {i : StrideIn}

theorem throttled_cases : e.throttled.1 = .sendReq ∨ e.throttled.1 = .wait := by
  unfold throttled
  split_ifs
  · exact Or.inr rfl
  · exact Or.inl rfl
  · exact Or.inr rfl

theorem busy_of (hs : e.stateQ = .sendReq ∨ e.stateQ = .wait ∨ e.stateQ = .done) :
    e.busy = true := by
  rcases hs with hs | hs | hs <;> simp [busy, hs]

theorem toNat_pred16 {n : BitVec 16} (hn : n ≠ 0) : (n - 1).toNat + 1 = n.toNat := by
  have hpos : n.toNat ≠ 0 := fun h0 => hn (BitVec.eq_of_toNat_eq h0)
  have hlt := n.isLt
  have hone : (1 : BitVec 16).toNat = 1 := rfl
  rw [BitVec.toNat_sub_of_le (by rw [BitVec.le_def, hone]; omega), hone]
  omega

theorem left_eq (hs : e.stateQ = .sendReq ∨ e.stateQ = .wait) : e.left =
    block e.requestNlineQ e.nlinesCntQ.toNat ++
      blocks e.baseNline e.incrementStride e.shadowParamQ.nlines.toNat e.nblocksCntQ.toNat :=
  if_pos hs

theorem endBase_eq (hs : e.stateQ = .sendReq ∨ e.stateQ = .wait) : e.endBase =
    if e.csrBaseQ.cycle = false then
      (e.baseNline + BitVec.ofNat _ (e.nblocksCntQ.toNat + 1) * e.incrementStride).setWidth 58
    else e.csrBaseQ.baseCline := by
  have hbusy := busy_of (hs.imp_right Or.inl)
  have hd : e.stateQ ≠ .done := by rcases hs with hs | hs <;> simp [hs]
  unfold endBase
  rw [hbusy, if_neg hd]
  simp

theorem endBase_done (hs : e.stateQ = .done) : e.endBase =
    if e.csrBaseQ.cycle = false then e.shadowBaseQ.baseCline else e.csrBaseQ.baseCline := by
  have hbusy := busy_of (Or.inr (Or.inr hs))
  unfold endBase
  rw [hbusy, if_pos hs]
  simp

theorem line_succ (x inc : BitVec h.nlineWidth) (n : Nat) :
    x + inc + BitVec.ofNat _ n * inc = x + BitVec.ofNat _ (n + 1) * inc := by
  rw [ofNat_succ]
  ring

section
variable {n : Nat}
  (hfit : ∀ k < n + 1, Fits (e.baseNline + BitVec.ofNat _ k * e.incrementStride))
include hfit

/-- The base register has the first line of the next block, when another block follows it. -/
theorem nextBase_of_fits (hn : n ≠ 0) :
    e.nextBase.baseCline.setWidth h.nlineWidth = e.baseNline + e.incrementStride := by
  have hone := hfit 1 (by omega)
  rwa [ofNat_succ, ofNat_zero, zero_add, one_mul] at hone

theorem blocks_nextBase (m : Nat) :
    blocks (e.nextBase.baseCline.setWidth h.nlineWidth) e.incrementStride m n =
      blocks (e.baseNline + e.incrementStride) e.incrementStride m n := by
  by_cases hn : n = 0
  · rw [hn, blocks_zero, blocks_zero]
  · rw [nextBase_of_fits hfit hn]

theorem fits_nextBase : ∀ k < n,
    Fits (e.nextBase.baseCline.setWidth h.nlineWidth + BitVec.ofNat _ k * e.incrementStride) := by
  intro k hk
  rw [nextBase_of_fits hfit (by omega), line_succ]
  exact hfit (k + 1) (by omega)

end

/-- The line a stride past the last block is the same seen from the next block. -/
theorem setWidth_nextBase (n : Nat) :
    (e.nextBase.baseCline.setWidth h.nlineWidth +
      BitVec.ofNat _ (n + 1) * e.incrementStride).setWidth 58 =
        (e.baseNline + BitVec.ofNat _ (n + 1 + 1) * e.incrementStride).setWidth 58 := by
  rw [nextBase, setWidth_keep_add, line_succ]

/-- The state `e'` after `e`, when the lines `ls` are sent. -/
structure Keeps (e e' : Stride h) (ls : List (BitVec h.nlineWidth)) : Prop where
  streaming : e'.busy = true → e'.Streaming
  left : ls ++ e'.left = e.left
  endBase : e'.endBase = e.endBase

/-- The wait and the requests in flight do not matter. -/
theorem Streaming.keeps_wait (he : e.Streaming) {s : StrideFsm} {n f : BitVec 16}
    (hse : e.stateQ = .sendReq ∨ e.stateQ = .wait) (hs : s = .sendReq ∨ s = .wait) :
    Keeps e { e with stateQ := s, nwaitCntQ := n, inflightCntQ := f } [] where
  streaming := fun _ => ⟨hs.imp_right Or.inl, he.enable, he.cycle, he.shadow, he.param, he.fits⟩
  left := by
    rw [left_eq hse, left_eq hs]
    rfl
  endBase := by
    rw [endBase_eq hse, endBase_eq hs]
    rfl

theorem Streaming.keeps_done (he : e.Streaming) {n f : BitVec 16} :
    Keeps e { e with nwaitCntQ := n, inflightCntQ := f } [] where
  streaming := fun _ => ⟨he.state, he.enable, he.cycle, he.shadow, he.param, he.fits⟩
  left := rfl
  endBase := rfl

theorem Streaming.keeps_line (he : e.Streaming) {s : StrideFsm} {n f : BitVec 16}
    (hse : e.stateQ = .sendReq) (hs : s = .sendReq ∨ s = .wait) (hl : e.nlinesCntQ ≠ 0) :
    Keeps e { e with
      stateQ := s, nwaitCntQ := n, requestNlineQ := e.requestNlineQ + 1
      nlinesCntQ := e.nlinesCntQ - 1, inflightCntQ := f } [e.requestNlineQ] where
  streaming := fun _ => ⟨hs.imp_right Or.inl, he.enable, he.cycle, he.shadow, he.param, he.fits⟩
  left := by
    rw [left_eq (Or.inl hse), left_eq hs, ← toNat_pred16 hl, block_succ]
    rfl
  endBase := by
    rw [endBase_eq (Or.inl hse), endBase_eq hs]
    rfl

theorem Streaming.keeps_block (he : e.Streaming) {s : StrideFsm} {n f : BitVec 16}
    (hse : e.stateQ = .sendReq) (hs : s = .sendReq ∨ s = .wait) (hl : e.nlinesCntQ = 0)
    (hk : e.nblocksCntQ ≠ 0) :
    Keeps e { e with
      stateQ := s, nwaitCntQ := n, requestNlineQ := e.baseNline + e.incrementStride
      shadowBaseQ := e.nextBase, nblocksCntQ := e.nblocksCntQ - 1
      nlinesCntQ := e.shadowParamQ.nlines, inflightCntQ := f } [e.requestNlineQ] := by
  have hpred := toNat_pred16 hk
  have hfit := he.fits
  rw [← hpred] at hfit
  refine ⟨fun _ => ⟨hs.imp_right Or.inl, he.enable, he.cycle, he.shadow, he.param, ?_⟩, ?_, ?_⟩
  · exact fits_nextBase hfit
  · have hzero : e.nlinesCntQ.toNat = 0 := by rw [hl]; rfl
    have hblocks := blocks_nextBase hfit e.shadowParamQ.nlines.toNat
    rw [left_eq (Or.inl hse), left_eq hs, hzero, block_zero, ← hpred, blocks_succ, ← hblocks]
    rfl
  · have hbase := setWidth_nextBase (e := e) (e.nblocksCntQ - 1).toNat
    rw [endBase_eq (Or.inl hse), endBase_eq hs, ← hpred, ← hbase]
    rfl

theorem Streaming.keeps_last (he : e.Streaming) {f : BitVec 16} (hse : e.stateQ = .sendReq)
    (hl : e.nlinesCntQ = 0) (hk : e.nblocksCntQ = 0) :
    Keeps e { e with
      stateQ := .done, requestNlineQ := e.baseNline + e.incrementStride, shadowBaseQ := e.nextBase
      nlinesCntQ := e.shadowParamQ.nlines, inflightCntQ := f } [e.requestNlineQ] := by
  have hl0 : e.nlinesCntQ.toNat = 0 := by rw [hl]; rfl
  have hk0 : e.nblocksCntQ.toNat = 0 := by rw [hk]; rfl
  refine ⟨fun _ => ⟨Or.inr (Or.inr rfl), he.enable, he.cycle, he.shadow, he.param, ?_⟩, ?_, ?_⟩
  · intro j hj
    have hj : j < e.nblocksCntQ.toNat := hj
    omega
  · rw [left_eq (Or.inl hse), hl0, hk0, block_zero, blocks_zero]
    rfl
  · rw [endBase_eq (Or.inl hse), endBase_done rfl, hk0, ofNat_succ, ofNat_zero, zero_add, one_mul]
    rfl

theorem Streaming.keeps_complete (he : e.Streaming) {s : StrideFsm} (hse : e.stateQ = .done)
    (hs : s = .snoop ∨ s = .idle) :
    Keeps e { e with stateQ := s, csrBaseQ := e.disarmed, shadowBaseQ := e.disarmed } [] := by
  have hidle : busy { e with stateQ := s, csrBaseQ := e.disarmed, shadowBaseQ := e.disarmed } =
      false := by
    rcases hs with rfl | rfl <;> rfl
  refine ⟨fun hb => ?_, ?_, ?_⟩
  · rw [hidle] at hb
    contradiction
  · rcases hs with rfl | rfl <;> simp [Stride.left, hse]
  · rw [endBase_done hse, endBase, hidle, disarmed, he.cycle]
    cases e.csrBaseQ.cycle <;> rfl

/-- **A cycle of an engine after a match.** It sends the first line that is left, or none. -/
theorem Streaming.step (he : e.Streaming) (hq : i.Quiet) : Keeps e (e.step i) (e.sent i) := by
  rcases he.state with hs | hs | hs
  · cases hr : i.reqReady with
    | false =>
      rw [sent_eq, hr, step_hold hq hs hr]
      have hkeeps := he.keeps_wait (s := e.stateQ) (n := e.nwaitCntQ) (f := e.inflightD false i)
        (Or.inl hs) (Or.inl hs)
      simpa using hkeeps
    | true =>
      rw [sent_eq, hs, hr, if_pos ⟨rfl, rfl⟩]
      by_cases hl : e.nlinesCntQ = 0
      · by_cases hk : e.nblocksCntQ = 0
        · rw [step_last hq hs hr he.enable hl hk]
          exact he.keeps_last hs hl hk
        · rw [step_block hq hs hr he.enable hl hk]
          exact he.keeps_block hs throttled_cases hl hk
      · rw [step_line hq hs hr he.enable hl]
        exact he.keeps_line hs throttled_cases hl
  · rw [sent_of_ne (by rw [hs]; decide), step_wait hq hs he.enable]
    refine he.keeps_wait (Or.inr hs) ?_
    split_ifs
    · exact Or.inl rfl
    · exact Or.inr rfl
  · rw [sent_of_ne (by rw [hs]; decide)]
    by_cases hw : e.inflightCntQ = 0 ∧ e.nwaitCntQ = 0
    · rw [step_complete hq hs he.enable hw.1 hw.2]
      refine he.keeps_complete hs ?_
      split_ifs
      · exact Or.inl rfl
      · exact Or.inr rfl
    · rw [step_done hq hs he.enable hw]
      exact he.keeps_done

/-! ## Progress -/

/-- The memory or the throttle holds the engine: the request is not taken, or a response is waited
for and does not come. -/
def withheld (e : Stride h) (i : StrideIn) : Bool :=
  match e.stateQ with
  | .sendReq => !i.reqReady
  | .wait => decide (e.nwaitCntQ = 0) && e.isInflightMax && !i.rspValid
  | .done => decide (e.nwaitCntQ = 0) && decide (e.inflightCntQ ≠ 0) && !i.rspValid
  | _ => false

/-- The cycles that the engine spends in a state, but for the requests. -/
def stay : StrideFsm → Nat
  | .idle => 0
  | .snoop => 0
  | .wait => 2
  | _ => 1

/-- The waits that have begun. -/
def load (e : Stride h) : Nat := e.nwaitCntQ.toNat + e.inflightCntQ.toNat + stay e.stateQ

/-- What is left to do: each line has a request, its wait, the end of the wait and a response. -/
def rank (e : Stride h) : Nat :=
  e.left.length * (e.shadowThrottleQ.nwait.toNat + 3) + e.load

theorem inflightD_le : (e.inflightD false i).toNat ≤ e.inflightCntQ.toNat := by
  unfold inflightD
  simp only [Bool.false_eq_true, if_false, Bool.and_eq_true, decide_eq_true_eq]
  split_ifs with hc
  · have hpred := toNat_pred16 hc.2
    omega
  · exact Nat.le_refl _

theorem inflightD_of_rsp (hr : i.rspValid = true) (h0 : e.inflightCntQ ≠ 0) :
    (e.inflightD false i).toNat + 1 = e.inflightCntQ.toNat := by
  unfold inflightD
  rw [hr, decide_eq_true h0]
  exact toNat_pred16 h0

theorem inflightD_true_le : (e.inflightD true i).toNat ≤ e.inflightCntQ.toNat + 1 := by
  have hsucc : (e.inflightCntQ + 1).toNat ≤ e.inflightCntQ.toNat + 1 := by
    rw [BitVec.toNat_add]
    exact Nat.mod_le _ _
  unfold inflightD
  simp only [if_true, Bool.and_eq_true, decide_eq_true_eq]
  split_ifs
  · rw [BitVec.add_sub_cancel]
    omega
  · exact hsucc

theorem pred_le (n : BitVec 16) : (pred n).toNat ≤ n.toNat := by
  unfold pred
  split_ifs with h0
  · exact Nat.zero_le _
  · have hpred := toNat_pred16 h0
    omega

theorem toNat_pred_of_ne {n : BitVec 16} (hn : n ≠ 0) : (pred n).toNat + 1 = n.toNat := by
  rw [pred, if_neg hn]
  exact toNat_pred16 hn

/-- A request makes the engine wait no longer than the throttle says. -/
theorem throttled_le : e.throttled.2.toNat ≤ e.nwaitCntQ.toNat + e.shadowThrottleQ.nwait.toNat := by
  unfold throttled
  split_ifs
  · exact Nat.le_add_right _ _
  · exact Nat.le_add_right _ _
  · exact Nat.le_add_left _ _

theorem rank_le_of_load {e' : Stride h} {d : Nat} (hlen : e'.left.length ≤ e.left.length)
    (ht : e'.shadowThrottleQ = e.shadowThrottleQ) (hload : e'.load + d ≤ e.load) :
    e'.rank + d ≤ e.rank := by
  have hmul := Nat.mul_le_mul_right (e.shadowThrottleQ.nwait.toNat + 3) hlen
  unfold rank
  rw [ht]
  omega

/-- A line that is sent pays for its wait and for its response. -/
theorem rank_le_of_sent {e' : Stride h} (hs : e.stateQ = .sendReq)
    (hlen : e'.left.length + 1 = e.left.length)
    (ht : e'.shadowThrottleQ = e.shadowThrottleQ)
    (hw : e'.nwaitCntQ.toNat ≤ e.nwaitCntQ.toNat + e.shadowThrottleQ.nwait.toNat)
    (hf : e'.inflightCntQ.toNat ≤ e.inflightCntQ.toNat + 1) : e'.rank + 1 ≤ e.rank := by
  have hmul := Nat.add_mul e'.left.length 1 (e.shadowThrottleQ.nwait.toNat + 3)
  rw [hlen] at hmul
  have hstay : stay e'.stateQ ≤ 2 := by cases e'.stateQ <;> decide
  unfold rank load
  rw [ht, hs, hmul]
  show _ ≤ _ + (_ + _ + 1)
  omega

theorem Streaming.rank_step_send (he : e.Streaming) (hq : i.Quiet) (hs : e.stateQ = .sendReq)
    (hlen : (e.sent i).length + (e.step i).left.length = e.left.length) :
    (e.step i).rank + (if e.withheld i then 0 else 1) ≤ e.rank := by
  cases hr : i.reqReady with
  | false =>
    have hle := inflightD_le (e := e) (i := i)
    have hwh : e.withheld i = true := by simp [withheld, hs, hr]
    rw [step_hold hq hs hr] at hlen ⊢
    rw [hwh]
    refine rank_le_of_load (by omega) rfl ?_
    show e.nwaitCntQ.toNat + (e.inflightD false i).toNat + stay e.stateQ ≤
      e.nwaitCntQ.toNat + e.inflightCntQ.toNat + stay e.stateQ
    omega
  | true =>
    have hle := inflightD_true_le (e := e) (i := i)
    have hth := throttled_le (e := e)
    have hwh : e.withheld i = false := by simp [withheld, hs, hr]
    rw [sent_eq, if_pos ⟨hs, hr⟩, List.length_singleton, Nat.add_comm] at hlen
    rw [hwh]
    by_cases hl : e.nlinesCntQ = 0
    · by_cases hk : e.nblocksCntQ = 0
      · rw [step_last hq hs hr he.enable hl hk] at hlen ⊢
        exact rank_le_of_sent hs hlen rfl (Nat.le_add_right _ _) hle
      · rw [step_block hq hs hr he.enable hl hk] at hlen ⊢
        exact rank_le_of_sent hs hlen rfl hth hle
    · rw [step_line hq hs hr he.enable hl] at hlen ⊢
      exact rank_le_of_sent hs hlen rfl hth hle

/-- The limit is reached: there is a request in flight. -/
theorem inflight_of_max (hm : e.isInflightMax = true) : e.inflightCntQ ≠ 0 := by
  intro h0
  simp only [isInflightMax, h0, Bool.and_eq_true, Bool.not_eq_true', decide_eq_true_eq,
    decide_eq_false_iff_not] at hm
  exact hm.1 (BitVec.le_zero_iff.1 hm.2)

theorem Streaming.rank_step_wait (he : e.Streaming) (hq : i.Quiet) (hs : e.stateQ = .wait)
    (hlen : (e.sent i).length + (e.step i).left.length = e.left.length) :
    (e.step i).rank + (if e.withheld i then 0 else 1) ≤ e.rank := by
  have hle := inflightD_le (e := e) (i := i)
  have hpred := pred_le e.nwaitCntQ
  have hload : e.load = e.nwaitCntQ.toNat + e.inflightCntQ.toNat + 2 := by rw [load, hs]; rfl
  have hone : (if e.withheld i then 0 else 1) ≤ 1 := by split_ifs <;> decide
  rw [step_wait hq hs he.enable] at hlen ⊢
  refine rank_le_of_load (by omega) rfl ?_
  rw [hload]
  show (pred e.nwaitCntQ).toNat + (e.inflightD false i).toNat +
    stay (if !e.isInflightMax && decide (e.nwaitCntQ = 0) then .sendReq else .wait) + _ ≤ _
  cases hm : e.isInflightMax with
  | false =>
    by_cases hw : e.nwaitCntQ = 0
    · rw [decide_eq_true hw]
      show _ + _ + 1 + _ ≤ _
      omega
    · have hpred := toNat_pred_of_ne hw
      rw [decide_eq_false hw]
      show _ + _ + 2 + _ ≤ _
      omega
  | true =>
    show _ + _ + 2 + _ ≤ _
    by_cases hw : e.nwaitCntQ = 0
    · cases hr : i.rspValid with
      | false =>
        have hwh : e.withheld i = true := by simp [withheld, hs, hw, hm, hr]
        rw [hwh]
        simp only [if_true]
        omega
      | true =>
        have hrsp := inflightD_of_rsp hr (inflight_of_max hm)
        omega
    · have hpred := toNat_pred_of_ne hw
      omega

theorem Streaming.rank_step_done (he : e.Streaming) (hq : i.Quiet) (hs : e.stateQ = .done)
    (hlen : (e.sent i).length + (e.step i).left.length = e.left.length) :
    (e.step i).rank + (if e.withheld i then 0 else 1) ≤ e.rank := by
  have hle := inflightD_le (e := e) (i := i)
  have hpred := pred_le e.nwaitCntQ
  have hload : e.load = e.nwaitCntQ.toNat + e.inflightCntQ.toNat + 1 := by rw [load, hs]; rfl
  have hone : (if e.withheld i then 0 else 1) ≤ 1 := by split_ifs <;> decide
  by_cases hw : e.inflightCntQ = 0 ∧ e.nwaitCntQ = 0
  · have hstay : stay (if e.shadowBaseQ.rearm then .snoop else .idle) = 0 := by split_ifs <;> rfl
    rw [step_complete hq hs he.enable hw.1 hw.2] at hlen ⊢
    refine rank_le_of_load (by omega) rfl ?_
    rw [hload]
    show e.nwaitCntQ.toNat + e.inflightCntQ.toNat +
      stay (if e.shadowBaseQ.rearm then .snoop else .idle) + _ ≤ _
    omega
  · rw [step_done hq hs he.enable hw] at hlen ⊢
    refine rank_le_of_load (by omega) rfl ?_
    rw [hload]
    show (pred e.nwaitCntQ).toNat + (e.inflightD false i).toNat + stay e.stateQ + _ ≤ _
    rw [hs]
    show _ + _ + 1 + _ ≤ _
    by_cases hw0 : e.nwaitCntQ = 0
    · have h0 : e.inflightCntQ ≠ 0 := fun h0 => hw ⟨h0, hw0⟩
      cases hr : i.rspValid with
      | false =>
        have hwh : e.withheld i = true := by
          simp only [withheld, hs, hw0, hr, decide_eq_true h0]
          rfl
        rw [hwh]
        simp only [if_true]
        omega
      | true =>
        have hrsp := inflightD_of_rsp hr h0
        omega
    · have hpred := toNat_pred_of_ne hw0
      omega

/-- A cycle that neither the memory nor the throttle holds makes the rank fall. -/
theorem Streaming.rank_step (he : e.Streaming) (hq : i.Quiet) :
    (e.step i).rank + (if e.withheld i then 0 else 1) ≤ e.rank := by
  have hlen := congrArg List.length (he.step hq).left
  rw [List.length_append] at hlen
  rcases he.state with hs | hs | hs
  · exact he.rank_step_send hq hs hlen
  · exact he.rank_step_wait hq hs hlen
  · exact he.rank_step_done hq hs hlen

/-! ## A match -/

/-- An enabled engine that waits for a match, with the base line of the configuration. -/
structure Armed (e : Stride h) : Prop where
  state : e.stateQ = .snoop
  enable : e.csrBaseQ.enable = true
  base : e.shadowBaseQ = e.csrBaseQ
  param : e.shadowParamQ.nlines ≠ 0 ∨ e.shadowParamQ.nblocks ≠ 0

/-- An idle engine that is enabled, with something to prefetch, gets armed. -/
theorem armed_of_idle (hq : i.Quiet) (hs : e.stateQ = .idle) (hen : e.csrBaseQ.enable = true)
    (hp : e.csrParamQ.nlines ≠ 0 ∨ e.csrParamQ.nblocks ≠ 0) :
    (e.step i).Armed ∧ (e.step i).csrBaseQ = e.csrBaseQ ∧
      (e.step i).shadowParamQ = e.csrParamQ := by
  obtain ⟨hb, hpq, ht⟩ := hq
  have hstep : e.step i = { e with
      stateQ := .snoop, shadowBaseQ := e.csrBaseQ, shadowParamQ := e.csrParamQ
      shadowThrottleQ := e.csrThrottleQ, inflightCntQ := e.inflightD false i } := by
    simp only [step, comb, combIdle, default, inflightD, hb, hpq, ht, hs, hen, hp, if_true,
      Option.getD_none, Bool.false_eq_true, if_false]
  rw [hstep]
  exact ⟨⟨rfl, hen, rfl, hp⟩, rfl, rfl⟩

/-- An engine that is done gets armed again when it is set to. -/
theorem Streaming.rearmed (he : e.Streaming) (hq : i.Quiet) (hs : e.stateQ = .done)
    (hf : e.inflightCntQ = 0) (hw : e.nwaitCntQ = 0) (hr : e.shadowBaseQ.rearm = true) :
    (e.step i).Armed := by
  rw [step_complete hq hs he.enable hf hw, hr]
  refine ⟨rfl, ?_, rfl, he.param⟩
  show (e.shadowBaseQ.enable && e.shadowBaseQ.rearm) = true
  rw [he.shadow, hr]
  rfl

/-- The lines that a match makes the engine request. -/
def lines (e : Stride h) : List (BitVec h.nlineWidth) :=
  stream e.baseNline e.incrementStride e.shadowParamQ.nblocks.toNat e.shadowParamQ.nlines.toNat

/-- The first line of each block that another one follows fits in the base register. -/
def BlocksFit (e : Stride h) : Prop :=
  ∀ k < e.shadowParamQ.nblocks.toNat, Fits (e.baseNline + BitVec.ofNat _ k * e.incrementStride)

theorem blocksFit_of_le (hle : h.nlineWidth ≤ 58) (e : Stride h) : e.BlocksFit :=
  fun _ _ => fits_of_le hle _

/-- What the base register of the configuration is to hold at the end. -/
def finalBase (e : Stride h) : BitVec 58 :=
  if e.csrBaseQ.cycle then e.csrBaseQ.baseCline
  else (e.baseNline +
    BitVec.ofNat _ (e.shadowParamQ.nblocks.toNat + 1) * e.incrementStride).setWidth 58

theorem Armed.step_lines (ha : e.Armed) (hq : i.Quiet) (hm : i.snoopMatch = true)
    (hl : e.shadowParamQ.nlines ≠ 0) : e.step i = { e with
      stateQ := .sendReq, requestNlineQ := e.baseNline + 1, nblocksCntQ := e.shadowParamQ.nblocks
      nlinesCntQ := e.shadowParamQ.nlines - 1, inflightCntQ := e.inflightD false i } := by
  obtain ⟨hb, hp, ht⟩ := hq
  simp only [step, comb, combSnoop, default, inflightD, hb, hp, ht, ha.state, ha.enable, hm, hl,
    if_true, Option.getD_none, Bool.false_eq_true, if_false]

theorem Armed.step_blocks (ha : e.Armed) (hq : i.Quiet) (hm : i.snoopMatch = true)
    (hl : e.shadowParamQ.nlines = 0) : e.step i = { e with
      stateQ := .sendReq, requestNlineQ := e.baseNline + e.incrementStride
      shadowBaseQ := e.nextBase, nblocksCntQ := e.shadowParamQ.nblocks - 1, nlinesCntQ := 0
      inflightCntQ := e.inflightD false i } := by
  obtain ⟨hb, hp, ht⟩ := hq
  have hk : e.shadowParamQ.nblocks ≠ 0 := ha.param.resolve_left fun hn => hn hl
  simp only [step, comb, combSnoop, default, nextBlock, nextBase, pred, inflightD, hb, hp, ht,
    ha.state, ha.enable, hm, hl, hk, if_true, Option.getD_none, Bool.false_eq_true, if_false]

/-- What a match starts. -/
structure Starts (e e' : Stride h) : Prop where
  streaming : e'.Streaming
  left : e'.left = e.lines
  endBase : e'.endBase = e.finalBase
  rank : e'.rank ≤ e.lines.length * (e.shadowThrottleQ.nwait.toNat + 3) + e.nwaitCntQ.toNat +
    e.inflightCntQ.toNat + 1

theorem Armed.starts (ha : e.Armed) (hq : i.Quiet) (hm : i.snoopMatch = true) (hfit : e.BlocksFit) :
    Starts e (e.step i) := by
  have hshadow : e.shadowBaseQ.enable = true := by rw [ha.base]; exact ha.enable
  have hcycle : e.shadowBaseQ.cycle = e.csrBaseQ.cycle := by rw [ha.base]
  have hle := inflightD_le (e := e) (i := i)
  by_cases hl : e.shadowParamQ.nlines = 0
  · have hk : e.shadowParamQ.nblocks ≠ 0 := ha.param.resolve_left fun hn => hn hl
    have hpred := toNat_pred16 hk
    have hl0 : e.shadowParamQ.nlines.toNat = 0 := by rw [hl]; rfl
    have hfit' := hfit
    rw [BlocksFit, ← hpred] at hfit'
    have hblocks := blocks_nextBase hfit' 0
    have hleft : left { e with
        stateQ := .sendReq, requestNlineQ := e.baseNline + e.incrementStride
        shadowBaseQ := e.nextBase, nblocksCntQ := e.shadowParamQ.nblocks - 1, nlinesCntQ := 0
        inflightCntQ := e.inflightD false i } = e.lines := by
      rw [left_eq (Or.inl rfl), lines, hl0, ← hpred, stream_of_blocks, ← hblocks]
      rfl
    rw [ha.step_blocks hq hm hl]
    refine ⟨⟨Or.inl rfl, ha.enable, hcycle, hshadow, ha.param, ?_⟩, hleft, ?_, ?_⟩
    · exact fits_nextBase hfit'
    · have hbase := setWidth_nextBase (e := e) (e.shadowParamQ.nblocks - 1).toNat
      rw [endBase_eq (Or.inl rfl), finalBase, ← hpred, ← hbase]
      cases e.csrBaseQ.cycle <;> rfl
    · rw [rank, hleft]
      show _ * _ + (e.nwaitCntQ.toNat + (e.inflightD false i).toNat + 1) ≤ _
      show _ * (e.shadowThrottleQ.nwait.toNat + 3) + _ ≤ _
      omega
  · have hpred := toNat_pred16 hl
    have hleft : left { e with
        stateQ := .sendReq, requestNlineQ := e.baseNline + 1, nblocksCntQ := e.shadowParamQ.nblocks
        nlinesCntQ := e.shadowParamQ.nlines - 1, inflightCntQ := e.inflightD false i } =
          e.lines := by
      rw [left_eq (Or.inl rfl), lines, ← hpred, stream_of_lines, hpred]
      rfl
    rw [ha.step_lines hq hm hl]
    refine ⟨⟨Or.inl rfl, ha.enable, hcycle, hshadow, ha.param, hfit⟩, hleft, ?_, ?_⟩
    · rw [endBase_eq (Or.inl rfl), finalBase]
      cases e.csrBaseQ.cycle <;> rfl
    · rw [rank, hleft]
      show _ * _ + (e.nwaitCntQ.toNat + (e.inflightD false i).toNat + 1) ≤ _
      show _ * (e.shadowThrottleQ.nwait.toNat + 3) + _ ≤ _
      omega

end

/-! ## Runs -/

section
variable {e : Stride h} {is : List StrideIn}

/-- The engine is busy before every cycle of the run. -/
def Working (e : Stride h) (is : List StrideIn) : Prop :=
  Along Stride.step (fun e _ => e.busy = true) e is

instance (e : Stride h) (is : List StrideIn) : Decidable (Working e is) :=
  inferInstanceAs (Decidable (Along _ _ e is))

/-- The cycles in which neither the memory nor the throttle holds the engine. -/
def served (e : Stride h) (is : List StrideIn) : Nat :=
  (trace Stride.step (fun e i => if e.withheld i then [] else [i]) e is).length

/-- An engine that works streams in every cycle. -/
theorem Streaming.along (he : e.Streaming) (hq : ∀ i ∈ is, i.Quiet) (hw : Working e is) :
    Along Stride.step (fun e i => e.Streaming ∧ i.Quiet) e is := by
  have hquiet : Along Stride.step (fun _ i => i.Quiet) e is := along_of_mem hq
  have hall : Along Stride.step (fun e i =>
      (e.busy = true → e.Streaming) ∧ e.busy = true ∧ i.Quiet) e is :=
    (hw.and hquiet).strengthen (fun _ => he) fun e i hinv hi => ((hinv hi.1).step hi.2).streaming
  exact hall.mono fun e i hi => ⟨hi.1 hi.2.1, hi.2.2⟩

theorem Streaming.trace_left (he : e.Streaming) (hq : ∀ i ∈ is, i.Quiet) (hw : Working e is) :
    trace Stride.step sent e is ++ (run Stride.step e is).left = e.left :=
  (he.along hq hw).conserved fun _ _ hi => (hi.1.step hi.2).left

theorem Streaming.endBase_run (he : e.Streaming) (hq : ∀ i ∈ is, i.Quiet) (hw : Working e is) :
    (run Stride.step e is).endBase = e.endBase := by
  have hkeep : ∀ (e' : Stride h) (i : StrideIn), e'.endBase = e.endBase → e'.Streaming ∧ i.Quiet →
      (e'.step i).endBase = e.endBase :=
    fun _ _ hinv hi => ((hi.1.step hi.2).endBase).trans hinv
  exact @Along.invariant _ _ _ _ (fun e' => e'.endBase = e.endBase) _ _ (he.along hq hw) rfl hkeep

theorem Streaming.served_le (he : e.Streaming) (hq : ∀ i ∈ is, i.Quiet) (hw : Working e is) :
    (run Stride.step e is).rank + served e is ≤ e.rank := by
  refine (he.along hq hw).ranked fun e i hi => ?_
  have hstep := hi.1.rank_step hi.2
  have hlen : (if e.withheld i then [] else [i]).length = if e.withheld i then 0 else 1 := by
    split_ifs <;> rfl
  rw [hlen]
  exact hstep

/-- Once it has requested all lines an engine holds none, and it is not busy any more when it has
nothing left to do. -/
theorem left_of_idle (hb : e.busy = false) : e.left = [] ∧ e.endBase = e.csrBaseQ.baseCline := by
  have hs : e.stateQ = .idle ∨ e.stateQ = .snoop := by
    unfold busy at hb
    rw [decide_eq_false_iff_not, not_and_or, not_not, not_not] at hb
    exact hb
  constructor
  · rcases hs with hs | hs <;> simp [left, hs]
  · simp [endBase, hb]

theorem rank_pos (hb : e.busy = true) : 0 < e.rank := by
  have hstay : 0 < stay e.stateQ := by
    unfold busy at hb
    cases hs : e.stateQ <;> simp_all [stay]
  unfold rank load
  omega

/-- **The prefetch sequence.** When the first lines of the blocks that another one follows fit in
the base register, as they do for addresses of 58 bits, an armed engine that sees a match requests,
under any grants and responses, the lines that follow the base line in its block and then the blocks
that follow, in this order and once each, as long as it works, and all of them when it is done. The
base register of the configuration then holds the line a stride past the last block, or the base
line when it cycles. The engine is done once it has been served in enough cycles. -/
theorem prefetches (e : Stride h) (i : StrideIn) (is : List StrideIn) (ha : e.Armed)
    (hm : i.snoopMatch = true) (hq : ∀ j ∈ i :: is, j.Quiet) (hfit : e.BlocksFit) :
    let t := run Stride.step e (i :: is)
    let bound := e.lines.length * (e.shadowThrottleQ.nwait.toNat + 3) + e.nwaitCntQ.toNat +
      e.inflightCntQ.toNat
    (Working (e.step i) is →
      trace Stride.step sent e (i :: is) <+: e.lines ∧
        (t.busy = false →
          trace Stride.step sent e (i :: is) = e.lines ∧ t.csrBaseQ.baseCline = e.finalBase)) ∧
      (bound < served (e.step i) is → ∃ n ≤ is.length, Working (e.step i) (is.take n) ∧
        (run Stride.step (e.step i) (is.take n)).busy = false) := by
  intro t bound
  have hstart := ha.starts (hq i List.mem_cons_self) hm hfit
  have hquiet : ∀ j ∈ is, j.Quiet := fun j hj => hq j (List.mem_cons_of_mem i hj)
  have hnone : e.sent i = [] := sent_of_ne (by rw [ha.state]; decide)
  have htrace : trace Stride.step sent e (i :: is) = trace Stride.step sent (e.step i) is := by
    rw [trace, hnone, List.nil_append]
  rw [htrace]
  constructor
  · intro hw
    have hall := hstart.streaming.trace_left hquiet hw
    rw [hstart.left] at hall
    refine ⟨⟨_, hall⟩, ?_⟩
    intro hb
    obtain ⟨hnil, hbase⟩ := left_of_idle hb
    have hend := hstart.streaming.endBase_run hquiet hw
    constructor
    · rw [← hall]
      show _ = _ ++ t.left
      rw [hnil, List.append_nil]
    · rw [← hbase, ← hstart.endBase]
      exact hend
  · intro hserved
    have hnot : ¬ (Working (e.step i) is ∧ t.busy = true) := by
      rintro ⟨hw, hb⟩
      have hle := hstart.streaming.served_le hquiet hw
      have hpos : 0 < t.rank := rank_pos hb
      have hrank : (e.step i).rank ≤ bound + 1 := hstart.rank
      have hle : t.rank + served (e.step i) is ≤ (e.step i).rank := hle
      omega
    obtain ⟨n, hn, hw, hb⟩ := exists_first hnot
    exact ⟨n, hn, hw, by rwa [Bool.not_eq_true] at hb⟩

end

/-! ## An engine with two blocks -/

/-- An engine that waits for its base line. -/
def armedAt (h : HwpfCfg) (base : BitVec 58) (param : StrideParam) : Stride h where
  stateQ := .snoop
  csrBaseQ := ⟨base, false, false, true⟩
  csrParamQ := param
  csrThrottleQ := ⟨0, 0⟩
  shadowBaseQ := ⟨base, false, false, true⟩
  shadowParamQ := param
  shadowThrottleQ := ⟨0, 0⟩
  requestNlineQ := 0
  nblocksCntQ := 0
  nlinesCntQ := 0
  nwaitCntQ := 0
  inflightCntQ := 0

/-- A cycle without writes. -/
def cycle (snoopMatch reqReady rspValid : Bool) : StrideIn :=
  ⟨none, none, none, snoopMatch, reqReady, rspValid⟩

def seen : StrideIn := cycle true false false

/-- Each request is taken, and then each response comes. -/
def serves (n : Nat) : List StrideIn :=
  List.replicate n (cycle false true false) ++ List.replicate n (cycle false false true) ++
    [cycle false false false]

theorem quiet_serves (n : Nat) : ∀ j ∈ seen :: serves n, j.Quiet := by
  intro j hj
  simp only [serves, List.mem_cons, List.mem_append, List.mem_replicate, List.not_mem_nil,
    or_false] at hj
  rcases hj with rfl | (⟨-, rfl⟩ | ⟨-, rfl⟩) | rfl <;> exact ⟨rfl, rfl, rfl⟩

/-- The line 3 ends the block of the base line 2, and the lines 4 and 5 are the next block. -/
theorem prefetches_twoBlocks :
    let e := armedAt Hwpf.prefetchCfg 2 ⟨1, 1, 1⟩
    trace Stride.step sent e (seen :: serves 3) = [3, 4, 5] ∧
      (run Stride.step e (seen :: serves 3)).csrBaseQ.baseCline = 6 := by
  intro e
  have hall := prefetches e seen (serves 3) ⟨rfl, rfl, rfl, Or.inl (by decide)⟩ rfl (quiet_serves 3)
    (blocksFit_of_le (by decide) e)
  have hdone := (hall.1 (by decide +kernel)).2 (by decide +kernel)
  have hlines : e.lines = [3, 4, 5] := by decide +kernel
  have hbase : e.finalBase = 6 := by decide +kernel
  rw [← hlines, ← hbase]
  exact hdone

/-- Addresses of 60 bits. -/
def wideCfg : HwpfCfg := { Hwpf.prefetchCfg with tagWidth := 59 }

/-- The first line of the first block has its bit 58 set. The base register drops it, and the next
block starts from zero. -/
theorem wide_not_prefetches :
    let e := armedAt wideCfg (BitVec.ofNat 58 (2 ^ 58 - 1)) ⟨2, 0, 0⟩
    e.Armed ∧ seen.snoopMatch = true ∧ (∀ j ∈ seen :: serves 2, j.Quiet) ∧
      Working (e.step seen) (serves 2) ∧
      (run Stride.step e (seen :: serves 2)).busy = false ∧
      e.lines = [BitVec.ofNat _ (2 ^ 58), BitVec.ofNat _ (2 ^ 58 + 1)] ∧
      trace Stride.step sent e (seen :: serves 2) = [BitVec.ofNat _ (2 ^ 58), 1] ∧
      trace Stride.step sent e (seen :: serves 2) ≠ e.lines := by
  intro e
  refine ⟨⟨rfl, rfl, rfl, Or.inr (by decide)⟩, rfl, quiet_serves 2, ?_, ?_, ?_, ?_, ?_⟩ <;>
    decide +kernel

end Stride

end Hpdcache
