import Hpdcache.Reachable

/-!
# Waking the requests that wait for the write buffer

A request is put on hold when an entry in use of the write buffer is in its line, or when the write
buffer does not accept its write. The replay table asks the write buffer about one of the requests
on hold, and clears what it waits for. A read is asked about with its line; a store with its exact
tag, although a write-back store waits for the whole line.

* `Cache.ClearsWbufHit.not_match` — when the wait on a hit is cleared, no entry matches the request.
* `Cache.ClearsWbufNotReady.writeReady_iff` — when the wait for a place is cleared, the write is
  accepted unless an open entry has its tag and coalescing is inhibited.
* `Cache.wakesRight_iff` — the wake-up agrees with the hold test unless a store is asked about while
  another part of its line is in the write buffer, or coalescing has been inhibited.
-/

namespace Hpdcache

open Hw

variable {c : Cfg}

/-! ## The request that is asked about -/

namespace Rtab

variable {r : Rtab c} {i : RtabIn c} {k : Fin c.rtabEntries}

/-- The arbiters of the requests that wait for the write buffer have registered one at most. -/
structure OneAsked (r : Rtab c) : Prop where
  rd : OneHot r.wbufRdArb.gntQ
  wr : OneHot r.wbufWrArb.gntQ

theorem OneAsked.step (h : r.OneAsked) : (r.step i).OneAsked where
  rd := RrArb.oneHot_step h.rd _
  wr := RrArb.oneHot_step h.wr _

theorem oneAsked_reset : r.reset.OneAsked where
  rd := RrArb.oneHot_reset
  wr := RrArb.oneHot_reset

theorem OneAsked.oneHot_wbufSel (h : r.OneAsked) : OneHot r.wbufSel := by
  unfold wbufSel
  split_ifs
  · exact RrArb.oneHot_gnt h.rd
  · exact RrArb.oneHot_gnt h.wr
  · intro j k hj
    contradiction

/-- The request that is selected is the one whose address is compared. -/
theorem OneAsked.wbufPtr_eq (h : r.OneAsked) (hk : r.wbufSel k = true) : r.wbufPtr = k :=
  h.oneHot_wbufSel.toIndex c.rtabEntries_pos hk

theorem wbufHit_cleared (hq : (r.depsQ k).wbufHit = true)
    (hd : ((r.step i).depsQ k).wbufHit = false) : r.wbufSel k = true ∧ i.wbufHit = false := by
  have hnext : ((r.step i).depsQ k).wbufHit =
      setRst (r.depsQ k).wbufHit (r.depsSet i k).wbufHit (r.depsRst i k).wbufHit := rfl
  rw [hnext, hq, setRst_true_left, Bool.not_eq_false'] at hd
  simpa [depsRst] using hd

theorem wbufNotReady_cleared (hq : (r.depsQ k).wbufNotReady = true)
    (hd : ((r.step i).depsQ k).wbufNotReady = false) :
    r.wbufSel k = true ∧ i.wbufNotReady = false := by
  have hnext : ((r.step i).depsQ k).wbufNotReady =
      setRst (r.depsQ k).wbufNotReady (r.depsSet i k).wbufNotReady
        (r.depsRst i k).wbufNotReady := rfl
  rw [hnext, hq, setRst_true_left, Bool.not_eq_false'] at hd
  simpa [depsRst] using hd

end Rtab

/-! ## What the write buffer answers -/

namespace Wbuf

variable {b : Wbuf c} {cfg : WbufCfg} {n : Nline c} {off : Nat} {rd : Bool}

/-- The entry is in use. -/
def inUse (b : Wbuf c) (j : Fin c.wbufDirEntries) : Prop := b.stateQ j ≠ .free

theorem replayHit_eq_false {st : WbufState} :
    b.replayHit st n off rd = false ↔ ∀ j, b.stateQ j = st → b.replayMatch n off rd j = false := by
  rw [replayHit, any_eq_false]
  constructor
  · intro h j hj
    simpa [inState, hj] using h j
  · intro h j
    by_cases hj : b.stateQ j = st
    · rw [h j hj, Bool.false_and]
    · simp [inState, hj]

/-- No state hits: no entry in use matches. -/
theorem not_match_of_noHit (ho : b.replayHit .opened n off rd = false)
    (hp : b.replayHit .pend n off rd = false) (hs : b.replayHit .sent n off rd = false)
    {j : Fin c.wbufDirEntries} (hj : b.inUse j) : b.replayMatch n off rd j = false := by
  cases hst : b.stateQ j with
  | free => exact absurd hst hj
  | opened => exact replayHit_eq_false.1 ho j hst
  | pend => exact replayHit_eq_false.1 hp j hst
  | sent => exact replayHit_eq_false.1 hs j hst

theorem readHit_eq_false :
    b.readHit n = false ↔ ∀ j, b.inUse j → (b.dirQ j).tag.nline ≠ n := by
  rw [readHit, any_eq_false]
  constructor
  · intro h j hj ht
    have hno := h j
    simp [inState, ht] at hno
    exact hj hno
  · intro h j
    by_cases hj : b.stateQ j = .free
    · simp [inState, hj]
    · simp [inState, h j hj]

/-- Only the part of the line that the store writes may be in use. -/
def LineIsTag (b : Wbuf c) (n : Nline c) (off : Nat) : Prop :=
  ∀ j, b.inUse j → (b.dirQ j).tag.nline = n → (b.dirQ j).tag = tagOf n off

/-- When no entry in use matches, the line is not in the write buffer exactly when the comparison
was with the line, or the line has no other part in use. -/
theorem readHit_iff_of_not_match (h : ∀ j, b.inUse j → b.replayMatch n off rd j = false) :
    b.readHit n = false ↔ rd = true ∨ b.LineIsTag n off := by
  rw [readHit_eq_false]
  cases rd with
  | true =>
    refine ⟨fun _ => Or.inl rfl, ?_⟩
    intro _ j hj
    simpa [replayMatch] using h j hj
  | false =>
    have hne : ∀ j, b.inUse j → (b.dirQ j).tag ≠ tagOf n off := by
      intro j hj
      simpa [replayMatch] using h j hj
    constructor
    · intro hno
      exact Or.inr fun j hj ht => absurd ht (hno j hj)
    · intro hor j hj ht
      obtain hf | hline := hor
      · contradiction
      · exact hne j hj (hline j hj ht)

/-- What a replay of a store compares is what its write compares. -/
theorem replayHit_write {st : WbufState} :
    b.replayHit st n off false = any (b.hitState st (tagOf n off)) := by
  simp only [replayHit, replayMatch, Bool.false_eq_true, if_false]
  rfl

/-- When the write buffer is ready for a replayed store, it accepts its write unless an open entry
has the tag and coalescing is inhibited. -/
theorem writeReady_iff_of_ready (h : b.replayNotReady cfg n off false = false) :
    b.writeReady cfg (tagOf n off) = true ↔
      ¬ (cfg.inhibitWriteCoalescing = true ∧ any (b.hitState .opened (tagOf n off)) = true) := by
  unfold replayNotReady at h
  rw [replayHit_write, replayHit_write, replayHit_write] at h
  unfold writeReady writeFree
  cases hp : any (b.hitState .pend (tagOf n off)) with
  | true => simp [hp] at h
  | false =>
    cases ho : any (b.hitState .opened (tagOf n off)) with
    | true => simp
    | false =>
      simp only [hp, ho, Bool.false_eq_true, if_false, Bool.not_false, Bool.true_and] at h
      split_ifs at h with hs
      simp only [Bool.or_eq_false_iff, Bool.not_eq_false'] at h
      simp [h.1, h.2, hs]

end Wbuf

/-! ## The wake-up -/

namespace Cache

variable {s : Cache c} {i : CacheIn c} {k : Fin c.rtabEntries}

/-- The request that the entry holds. -/
def heldReq (s : Cache c) (k : Fin c.rtabEntries) : Req c := (s.rtab.reqQ k).req.req

/-- The test that puts a request on hold on a hit in the write buffer. -/
def wbufHolds (s : Cache c) (n : Nline c) : Bool := c.wtEn && s.wbuf.readHit n

/-- The test that puts a store on hold when the write buffer is not ready. -/
def wbufAccepts (s : Cache c) (i : CacheIn c) (t : WbufTag c) : Bool :=
  !c.wtEn || s.wbuf.writeReady i.cfgWbuf t

/-- The tag of the write of a request on hold. -/
def heldTag (s : Cache c) (k : Fin c.rtabEntries) : WbufTag c :=
  Wbuf.tagOf (s.rtab.nline k) (s.heldReq k).addrOff

/-- The cycle clears the wait of a valid entry on a hit in the write buffer. -/
structure ClearsWbufHit (s : Cache c) (i : CacheIn c) (k : Fin c.rtabEntries) : Prop where
  valid : s.rtab.validQ k = true
  waits : (s.rtab.depsQ k).wbufHit = true
  clears : ((s.step i).rtab.depsQ k).wbufHit = false

/-- The cycle clears the wait of a valid entry for a place in the write buffer. -/
structure ClearsWbufNotReady (s : Cache c) (i : CacheIn c) (k : Fin c.rtabEntries) : Prop where
  valid : s.rtab.validQ k = true
  waits : (s.rtab.depsQ k).wbufNotReady = true
  clears : ((s.step i).rtab.depsQ k).wbufNotReady = false

/-- A request on hold is woken when the test that held it would let it go. -/
structure WakesRight (s : Cache c) (i : CacheIn c) (k : Fin c.rtabEntries) : Prop where
  hit : s.ClearsWbufHit i k → s.wbufHolds (s.rtab.nline k) = false
  ready : s.ClearsWbufNotReady i k → (s.heldReq k).op.isStore = true →
    s.wbufAccepts i (s.heldTag k) = true

/-- The arbiters ask about one request, and without the write-through policy nothing is in the write
buffer. -/
structure WbufAsked (s : Cache c) : Prop where
  one : s.rtab.OneAsked
  free : c.wtEn = false → ∀ j, s.wbuf.stateQ j = .free

theorem WbufAsked.step (h : s.WbufAsked) : (s.step i).WbufAsked where
  one := h.one.step
  free hwt j := by
    have hb : (s.step i).wbuf = if c.wtEn then s.wbuf.step (s.wbufIn i) else s.wbuf := rfl
    rw [hb, hwt]
    exact h.free hwt j

theorem wbufAsked_reset : s.reset.WbufAsked where
  one := Rtab.oneAsked_reset
  free _ _ := rfl

theorem wbufAsked_run (s : Cache c) (is : List (CacheIn c)) :
    (run Cache.step s.reset is).WbufAsked :=
  run_invariant wbufAsked_reset fun _ _ h => h.step

/-- When the wait on a hit is cleared, no entry in use matches the request. -/
theorem ClearsWbufHit.not_match (h : s.ClearsWbufHit i k) (ha : s.WbufAsked)
    {j : Fin c.wbufDirEntries} (hj : s.wbuf.inUse j) :
    s.wbuf.replayMatch (s.rtab.nline k) (s.heldReq k).addrOff (s.rtab.isRead k) j = false := by
  obtain ⟨hsel, hhit⟩ := Rtab.wbufHit_cleared (i := s.rtabIn i) h.waits h.clears
  have hwt : c.wtEn = true := by
    by_contra hwt
    exact hj (ha.free (by simpa using hwt) j)
  have hdef : (s.rtabIn i).wbufHit =
      (c.wtEn && (s.wbuf.replayHit .opened (s.rtab.nline s.rtab.wbufPtr) s.rtabWbufReq.addrOff
          (s.rtab.isRead s.rtab.wbufPtr) ||
        s.wbuf.replayHit .pend (s.rtab.nline s.rtab.wbufPtr) s.rtabWbufReq.addrOff
          (s.rtab.isRead s.rtab.wbufPtr) ||
        s.wbuf.replayHit .sent (s.rtab.nline s.rtab.wbufPtr) s.rtabWbufReq.addrOff
          (s.rtab.isRead s.rtab.wbufPtr))) := rfl
  rw [hdef, hwt, rtabWbufReq, ha.one.wbufPtr_eq hsel, Bool.true_and, Bool.or_eq_false_iff,
    Bool.or_eq_false_iff] at hhit
  exact Wbuf.not_match_of_noHit hhit.1.1 hhit.1.2 hhit.2 hj

/-- When the wait of a store for a place is cleared, its write is accepted unless an open entry has
its tag and coalescing is inhibited. -/
theorem ClearsWbufNotReady.writeReady_iff (h : s.ClearsWbufNotReady i k) (ha : s.WbufAsked)
    (hst : (s.heldReq k).op.isStore = true) :
    s.wbufAccepts i (s.heldTag k) = true ↔ ¬ (i.cfgWbuf.inhibitWriteCoalescing = true ∧
      any (s.wbuf.hitState .opened (s.heldTag k)) = true) := by
  obtain ⟨hsel, hready⟩ := Rtab.wbufNotReady_cleared (i := s.rtabIn i) h.waits h.clears
  have hrd : s.rtab.isRead k = false := by
    have hop : (s.rtab.reqQ k).req.req.op.isStore = true := hst
    rw [Rtab.isRead]
    cases ho : (s.rtab.reqQ k).req.req.op <;> rw [ho] at hop <;> first | rfl | contradiction
  cases hwt : c.wtEn with
  | false =>
    have hno : any (s.wbuf.hitState .opened (s.heldTag k)) = false := by
      rw [any_eq_false]
      intro j
      simp [Wbuf.hitState, Wbuf.inState, ha.free hwt j]
    simp [wbufAccepts, hwt, hno]
  | true =>
    have hdef : (s.rtabIn i).wbufNotReady =
        (c.wtEn && s.wbuf.replayNotReady i.cfgWbuf (s.rtab.nline s.rtab.wbufPtr)
          s.rtabWbufReq.addrOff (s.rtab.isRead s.rtab.wbufPtr)) := rfl
    rw [hdef, hwt, rtabWbufReq, ha.one.wbufPtr_eq hsel, hrd, Bool.true_and] at hready
    rw [wbufAccepts, hwt, Bool.not_true, Bool.false_or]
    exact Wbuf.writeReady_iff_of_ready hready

/-- **Wake-up.** In every reachable state, the requests are woken when the test that held them lets
them go, exactly when no wait on a hit is cleared for a store that has another part of its line in
the write buffer, and no wait for a place is cleared in a cycle that inhibits coalescing while an
open entry has the tag. -/
theorem wakesRight_iff (s : Cache c) (is : List (CacheIn c)) (i : CacheIn c)
    (k : Fin c.rtabEntries) :
    let t := run Cache.step s.reset is
    t.WakesRight i k ↔
      (t.ClearsWbufHit i k → t.rtab.isRead k = true ∨
        t.wbuf.LineIsTag (t.rtab.nline k) (t.heldReq k).addrOff) ∧
      (t.ClearsWbufNotReady i k → (t.heldReq k).op.isStore = true →
        ¬ (i.cfgWbuf.inhibitWriteCoalescing = true ∧
          any (t.wbuf.hitState .opened (t.heldTag k)) = true)) := by
  intro t
  have ha : t.WbufAsked := wbufAsked_run s is
  have hhit : t.ClearsWbufHit i k → (t.wbufHolds (t.rtab.nline k) = false ↔
      (t.rtab.isRead k = true ∨ t.wbuf.LineIsTag (t.rtab.nline k) (t.heldReq k).addrOff)) := by
    intro h
    rw [← Wbuf.readHit_iff_of_not_match fun j hj => h.not_match ha hj, wbufHolds]
    cases hwt : c.wtEn with
    | true => rw [Bool.true_and]
    | false =>
      refine ⟨fun _ => ?_, fun _ => rfl⟩
      rw [Wbuf.readHit_eq_false]
      intro j hj
      exact absurd (ha.free hwt j) hj
  constructor
  · intro h
    exact ⟨fun hc => (hhit hc).1 (h.hit hc),
      fun hc hst => (hc.writeReady_iff ha hst).1 (h.ready hc hst)⟩
  · intro h
    exact ⟨fun hc => (hhit hc).2 (h.1 hc),
      fun hc hst => (hc.writeReady_iff ha hst).2 (h.2 hc hst)⟩

/-! ## A write-back store behind a write of the same line -/

/-- A store of eight bytes at an offset of the line with tag 1. -/
def storeAt (off : Nat) (hint : WrPolicyHint) : Req lowLatencyCfg :=
  { Req.access .store 1 false with addrOff := off, pma := ⟨false, hint⟩ }

/-- A write-through store to the first half of a line, then a write-back store to the second. -/
def behindWrite : List (CacheIn lowLatencyCfg) :=
  [.idle _, .idle _, .ask (storeAt 0 .wt), .idle _, .ask (storeAt 8 .wb), .idle _]

/-- The write of the first half has been sent and is not acknowledged: the store of the second half
is woken, although it would be put on hold again. -/
theorem behindWrite_woken :
    let s := run Cache.step (blank lowLatencyCfg).reset behindWrite
    s.ClearsWbufHit (.idle _) entry0 ∧ s.wbufHolds (s.rtab.nline entry0) = true ∧
      ¬ s.WakesRight (.idle _) entry0 := by
  intro s
  obtain ⟨hvalid, hwaits, hclears, hh⟩ : s.rtab.validQ entry0 = true ∧
      (s.rtab.depsQ entry0).wbufHit = true ∧
      ((s.step (.idle _)).rtab.depsQ entry0).wbufHit = false ∧
      s.wbufHolds (s.rtab.nline entry0) = true := by
    decide +kernel
  have hc : s.ClearsWbufHit (.idle _) entry0 := ⟨hvalid, hwaits, hclears⟩
  refine ⟨hc, hh, ?_⟩
  intro h
  have hfree := h.hit hc
  exact Bool.false_ne_true (hfree.symm.trans hh)

end Cache

end Hpdcache
