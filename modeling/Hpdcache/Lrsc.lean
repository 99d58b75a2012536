import Hpdcache.Isolation
import Hpdcache.Lib.Reservation

/-!
# Load-reserved and store-conditional

The handler of the uncacheable requests keeps the reservation, and stage 1 shows it the stores. Both
follow the order in which the requests are accepted, because an atomic operation is executed alone.

**The history** (`Cache.LrscTrace`). The stores as they first pass stage 1, the atomic operations as
they leave it, and the load-reserved as they complete.

* `Uncached.reserved_step` — what a cycle does to the reservation.
* `Cache.LrscInv.step` — the register is the one of the history.
* `Cache.lrsc_run` — a store-conditional is forwarded if and only if its granule is reserved.
-/

namespace Hpdcache

open Hw

variable {c : Cfg}

/-! ## Granules -/

/-- Eight bytes of a line. -/
structure Granule (c : Cfg) where
  nline : Nline c
  word : Nat
  deriving DecidableEq

namespace Granule

/-- The granule of an address. -/
def of (n : Nline c) (off : Nat) : Granule c := ⟨n, off / 8⟩

/-- An access of `2 ^ size` bytes touches the granule. -/
def overlaps (n : Nline c) (off size : Nat) (g : Granule c) : Bool :=
  decide (g.nline = n ∧ off < 8 * g.word + 8 ∧ 8 * g.word < off + 2 ^ size)

/-- The granules of an aligned access, counted as the handler does. -/
theorem words_iff {off size w : Nat} (ha : off % 2 ^ size = 0) :
    (off / 8 ≤ w ∧ w < off / 8 + if size < 3 then 1 else 2 ^ size / 8) ↔
      (off < 8 * w + 8 ∧ 8 * w < off + 2 ^ size) := by
  split_ifs with hs
  · have hcases : size = 0 ∨ size = 1 ∨ size = 2 := by omega
    rcases hcases with rfl | rfl | rfl <;> omega
  · obtain ⟨k, rfl⟩ : ∃ k, size = 3 + k := ⟨size - 3, by omega⟩
    have hpow : 2 ^ (3 + k) = 8 * 2 ^ k := by simp [Nat.pow_add]
    rw [hpow] at ha ⊢
    obtain ⟨q, hq⟩ := Nat.dvd_of_mod_eq_zero ha
    have hdiv : 8 * 2 ^ k / 8 = 2 ^ k := by omega
    have hoff : off = 8 * (2 ^ k * q) := by rw [hq, Nat.mul_assoc]
    rw [hdiv, hoff]
    generalize 2 ^ k * q = m
    generalize 2 ^ k = p
    omega

/-- An aligned access of eight bytes at most touches the granule of its address. -/
theorem overlaps_small {n : Nline c} {off size : Nat} {g : Granule c} (ha : off % 2 ^ size = 0)
    (hs : size ≤ 3) : overlaps n off size g = decide (of n off = g) := by
  have hw := words_iff (w := g.word) ha
  have hone : (if size < 3 then 1 else 2 ^ size / 8) = 1 := by
    split_ifs with h
    · rfl
    · obtain rfl : size = 3 := by omega
      rfl
  rw [hone] at hw
  obtain ⟨gn, gw⟩ := g
  have hw' : (off / 8 ≤ gw ∧ gw < off / 8 + 1) ↔ (off < 8 * gw + 8 ∧ 8 * gw < off + 2 ^ size) := hw
  simp only [overlaps, of, Granule.mk.injEq]
  rw [Bool.eq_iff_iff, decide_eq_true_eq, decide_eq_true_eq, ← hw']
  constructor
  · rintro ⟨rfl, h⟩
    exact ⟨rfl, by omega⟩
  · rintro ⟨rfl, h⟩
    exact ⟨rfl, by omega⟩

end Granule

/-- The granules that a request touches. -/
def CtrlReq.touches (q : CtrlReq c) : Granule c → Bool :=
  Granule.overlaps q.nline q.req.addrOff q.req.size

/-! ## The reservation of the handler -/

namespace Uncached

variable {u : Uncached c} {i : UcIn c}

/-- The granule that is reserved. -/
def reserved (u : Uncached c) : Option (Granule c) :=
  if u.lrscValidQ then some (.of u.lrscNlineQ u.lrscOffQ) else none

theorem lrscUcHit_iff : u.lrscUcHit i = true ↔ u.reserved = some (.of i.req.nline i.req.off) := by
  unfold reserved lrscUcHit
  cases u.lrscValidQ <;> simp [Granule.of]

theorem lrscSnoopHit_iff (ha : i.lrscSnoopOff % 2 ^ i.lrscSnoopSize = 0) :
    u.lrscSnoopHit i = true ↔ ∃ g, u.reserved = some g ∧
      g.overlaps i.lrscSnoopNline i.lrscSnoopOff i.lrscSnoopSize = true := by
  unfold reserved lrscSnoopHit
  cases u.lrscValidQ with
  | false => simp
  | true => simp [Granule.overlaps, Granule.of, Granule.words_iff ha]

theorem lrscUcReset_of_set (h : u.lrscUcSet i = true) : u.lrscUcReset i = false := by
  simp only [lrscUcSet, Bool.and_eq_true, decide_eq_true_eq, Bool.not_eq_true'] at h
  simp [lrscUcReset, h.1.1.1, h.2]

/-- What a cycle does to the reservation. -/
theorem reserved_step : (u.step i).reserved =
    if u.lrscUcSet i && !(i.lrscSnoop && u.lrscSnoopHit i) then
      some (.of u.reqQ.nline u.reqQ.off)
    else if u.lrscUcReset i || (i.lrscSnoop && u.lrscSnoopHit i) then none
    else u.reserved := by
  have hstep : (u.step i).reserved =
      if setRst u.lrscValidQ (u.lrscUcSet i) (u.lrscUcReset i || (i.lrscSnoop && u.lrscSnoopHit i))
      then some (.of (if u.lrscUcSet i then u.reqQ.nline else u.lrscNlineQ)
        (if u.lrscUcSet i then u.reqQ.off else u.lrscOffQ))
      else none := rfl
  rw [hstep]
  cases hset : u.lrscUcSet i with
  | true =>
    have hreset := lrscUcReset_of_set hset
    cases hq : u.lrscValidQ with
    | true => cases i.lrscSnoop && u.lrscSnoopHit i <;> simp [hreset]
    | false => simp [hreset, lrscSnoopHit, hq]
  | false =>
    cases hq : u.lrscValidQ with
    | true =>
      cases u.lrscUcReset i <;> cases i.lrscSnoop && u.lrscSnoopHit i <;> simp [reserved, hq]
    | false => simp [reserved, hq]

/-- Nothing happens to the reservation while the handler works on something else. -/
theorem reserved_step_idle (hset : u.lrscUcSet i = false) (hreset : u.lrscUcReset i = false)
    (hsnoop : (i.lrscSnoop && u.lrscSnoopHit i) = false) : (u.step i).reserved = u.reserved := by
  rw [reserved_step, hset, hreset, hsnoop]
  rfl

end Uncached

namespace Cache

variable {s : Cache c} {i : CacheIn c} {S : Set (List (Fin c.rtabEntries))}
  {front : List (Fin c.rtabEntries)} {k : Fin c.rtabEntries}

/-! ## The history -/

/-- The granule of the request in stage 1. -/
def st1Granule (s : Cache c) (i : CacheIn c) : Granule c :=
  .of (s.st1Nline i) (s.st1Req i).req.addrOff

/-- A load-reserved is answered by the memory. -/
def lrDone (s : Cache c) (i : CacheIn c) : Bool :=
  decide (s.uc.fsmQ = .memWaitRsp ∧ s.uc.reqQ.op = .amoLr) && i.ucRead.isSome

/-- The request in stage 1 leaves the pipeline: it is given to the handler of the atomic operations,
or answered with an uncorrectable error. -/
def leavesSt1 (s : Cache c) (i : CacheIn c) : Bool :=
  (s.dec i).sendsUc || decide (s.dec i = .eccAnswer)

/-- The operation of the cycle, in the order in which the requests are accepted. -/
def lrscEvent (s : Cache c) (i : CacheIn c) : Option (LrscEvent (Granule c)) :=
  if s.lrDone i then
    some (.loadReserved (.of s.uc.reqQ.nline s.uc.reqQ.off) (!Uncached.rdError (s.ucIn i)))
  else if s.st1.reqValidQ && !s.st1.reqQ.fromRtab && (s.st1Req i).req.op.isStore then
    some (.write (s.st1Req i).touches)
  else if s.leavesSt1 i && (s.st1Req i).req.op.isAmo then
    match (s.st1Req i).req.op with
    | .amoLr =>
      if s.dec i = .eccAnswer then some (.loadReserved (s.st1Granule i) false) else none
    | .amoSc => some (.storeConditional (s.st1Granule i))
    | _ => some (.write (s.st1Req i).touches)
  else none

/-- The operations so far, the newest first, and what became of the last store-conditional. -/
structure LrscTrace (c : Cfg) where
  hist : List (LrscEvent (Granule c))
  forwarded : Bool
  performed : Bool

def LrscTrace.start (c : Cfg) : LrscTrace c := ⟨[], false, false⟩

/-- A store-conditional is given to the handler. -/
def sendsSc (s : Cache c) (i : CacheIn c) : Bool :=
  (s.dec i).sendsUc && decide ((s.st1Req i).req.op = .amoSc)

/-- The memory answers a store-conditional. -/
def scDone (s : Cache c) (i : CacheIn c) : Bool :=
  decide (s.uc.fsmQ = .memWaitRsp ∧ s.uc.reqQ.op = .amoSc) && i.ucWrite.isSome

/-- A store-conditional is forwarded when the handler asks the memory to write; it is performed when
the memory reports an exclusive write without error. -/
def LrscTrace.record (h : LrscTrace c) (s : Cache c) (i : CacheIn c) : LrscTrace c where
  hist := (s.lrscEvent i).toList ++ h.hist
  forwarded := if s.sendsSc i then (s.step i).uc.memWriteValid else h.forwarded
  performed :=
    if s.sendsSc i then false
    else if s.scDone i then i.ucWrite.elim false fun r => r.isAtomic && !r.error
    else h.performed

/-- The cache with its history. -/
def lrscStep (p : Cache c × LrscTrace c) (i : CacheIn c) : Cache c × LrscTrace c :=
  (p.1.step i, p.2.record p.1 i)

/-- A regular cycle in which the atomic operations are allowed, the request in stage 1 follows the
rules of the interface and is not aborted, and no atomic operation meets an uncorrectable error. -/
structure LrscRegular (s : Cache c) (i : CacheIn c) : Prop extends s.Regular i where
  allowed : i.cfgErrorOnCacheableAmo = false
  not_aborted : s.st1.reqValidQ = true → s.st1ReqAbort i = false
  aligned : s.st1.reqValidQ = true →
    (s.st1Req i).req.addrOff % 2 ^ (s.st1Req i).req.size = 0
  amo_size : s.st1.reqValidQ = true → (s.st1Req i).req.op.isAmo = true →
    (s.st1Req i).req.size ≤ 3
  not_ecc : (s.st1Req i).req.op.isAmo = true → s.dec i ≠ .eccAnswer

/-- The register of the handler is the one of the history, and the stores on hold have ended the
reservations that they touch. -/
structure LrscInv (s : Cache c) (h : LrscTrace c) : Prop where
  reserved : s.uc.reserved = reservation h.hist
  held : ∀ k, s.rtab.validQ k = true → (s.rtab.reqQ k).req.req.op.isStore = true →
    ∀ g, s.uc.reserved = some g → (s.rtab.reqQ k).req.touches g = false

theorem lrscInv_reset (s : Cache c) : s.reset.LrscInv (.start c) := ⟨rfl, nofun⟩

/-! ## What the handler sees -/

theorem Owned.ucReq_eq (h : s.Owned) : (s.ucIn i).reqValid = (s.dec i).sendsUc :=
  (h.pe_agrees (i := i)).ucReq

theorem ucReady_of_valid (hi : s.Inv) (hv : s.st1.reqValidQ = true) : s.uc.fsmQ = .idle := by
  have hready : s.uc.ready = true := by
    by_contra hready
    rw [(hi.fences.uc (by simpa using hready)).2.1] at hv
    contradiction
  simpa [Uncached.ready] using hready

theorem lrscUcSet_eq : s.uc.lrscUcSet (s.ucIn i) = (s.lrDone i && !Uncached.rdError (s.ucIn i)) :=
  rfl

theorem lrscSnoop_eq :
    (s.ucIn i).lrscSnoop = (s.st1.reqValidQ && (s.st1Req i).req.op.isStore) := rfl

/-- The store in stage 1 hits the reservation if it touches the granule. -/
theorem snoopHit_iff (ha : (s.st1Req i).req.addrOff % 2 ^ (s.st1Req i).req.size = 0) :
    s.uc.lrscSnoopHit (s.ucIn i) = true ↔
      ∃ g, s.uc.reserved = some g ∧ (s.st1Req i).touches g = true :=
  Uncached.lrscSnoopHit_iff ha

/-- With a request in stage 1, the handler ends the reservation for the atomic operations only. -/
theorem lrscUcReset_of_valid (hi : s.Inv) (hr : s.LrscRegular i) (hv : s.st1.reqValidQ = true) :
    s.uc.lrscUcReset (s.ucIn i) = ((s.dec i).sendsUc &&
      (((s.st1Req i).req.op.isAmoRmw && s.uc.lrscUcHit (s.ucIn i)) ||
        decide ((s.st1Req i).req.op = .amoSc))) := by
  have hop : (s.ucIn i).req.op = (s.st1Req i).req.op := rfl
  have hrefused : Uncached.refused (s.ucIn i) = false := by
    have hcfg : (s.ucIn i).cfgErrorOnCacheableAmo = i.cfgErrorOnCacheableAmo := rfl
    simp [Uncached.refused, hcfg, hr.allowed]
  simp [Uncached.lrscUcReset, ucReady_of_valid hi hv, hi.owned.ucReq_eq, hop, hrefused]

/-- With a request in stage 1 no load-reserved completes. -/
theorem lrDone_of_valid (hi : s.Inv) (hv : s.st1.reqValidQ = true) : s.lrDone i = false := by
  simp [lrDone, ucReady_of_valid hi hv]

/-- The reservation does not change in a cycle without an operation. -/
theorem reserved_step_of_not_valid (hi : s.Inv) (hv : s.st1.reqValidQ = false)
    (hl : s.lrDone i = false) : (s.step i).uc.reserved = s.uc.reserved := by
  have hreq : (s.ucIn i).reqValid = false := by
    rw [hi.owned.ucReq_eq, idle_of_not_valid hv]
    rfl
  refine Uncached.reserved_step_idle ?_ ?_ ?_
  · rw [lrscUcSet_eq, hl]
    rfl
  · cases hf : s.uc.fsmQ <;> simp only [Uncached.lrscUcReset, hf, hreq, Bool.false_and]
    -- a load-reserved in error
    by_contra hx
    simp only [Bool.not_eq_false, Bool.and_eq_true, decide_eq_true_eq] at hx
    have hsome : i.ucRead.isSome = true := hx.1.2
    simp [lrDone, hf, hx.1.1, hsome] at hl
  · rw [lrscSnoop_eq, hv]
    rfl

/-! ## The register and the history -/

theorem LrscTrace.reservation_record (h : LrscTrace c) :
    reservation (h.record s i).hist =
      (s.lrscEvent i).elim (reservation h.hist) fun e => e.update (reservation h.hist) := by
  unfold record
  cases s.lrscEvent i <;> rfl

/-- The cycle in which a load-reserved completes. -/
theorem reserved_step_lr (hi : s.Inv) (hl : s.lrDone i = true) (r : Option (Granule c)) :
    (s.step i).uc.reserved = (s.lrscEvent i).elim r fun e => e.update r := by
  have hv : s.st1.reqValidQ = false := by
    by_contra hv
    rw [lrDone_of_valid hi (by simpa using hv)] at hl
    contradiction
  have hsnoop : (s.ucIn i).lrscSnoop = false := by rw [lrscSnoop_eq, hv]; rfl
  have hev : s.lrscEvent i = some (.loadReserved (.of s.uc.reqQ.nline s.uc.reqQ.off)
      (!Uncached.rdError (s.ucIn i))) := by
    unfold lrscEvent
    rw [if_pos hl]
  have hstep : (s.step i).uc.reserved = (s.uc.step (s.ucIn i)).reserved := rfl
  rw [hstep, Uncached.reserved_step, hev, lrscUcSet_eq, hl, hsnoop]
  cases he : Uncached.rdError (s.ucIn i) with
  | false => simp [LrscEvent.update]
  | true =>
    have hreset : s.uc.lrscUcReset (s.ucIn i) = true := by
      simp only [lrDone, Bool.and_eq_true, decide_eq_true_eq] at hl
      have hsome : (s.ucIn i).memRead.isSome = true := hl.2
      simp [Uncached.lrscUcReset, hl.1.1, hl.1.2, hsome, he]
    simp [LrscEvent.update, hreset]

/-- The cycle in which a store is in stage 1. -/
theorem reserved_step_store (hi : s.Inv) (hr : s.LrscRegular i) {h : LrscTrace c}
    (hs : s.LrscInv h) (hv : s.st1.reqValidQ = true)
    (hop : (s.st1Req i).req.op.isStore = true) :
    (s.step i).uc.reserved =
      (s.lrscEvent i).elim s.uc.reserved fun e => e.update s.uc.reserved := by
  have hl := lrDone_of_valid hi (i := i) hv
  have hsnoop : (s.ucIn i).lrscSnoop = true := by rw [lrscSnoop_eq, hv, hop]; rfl
  have hreset : s.uc.lrscUcReset (s.ucIn i) = false := by
    rw [lrscUcReset_of_valid hi hr hv]
    cases ho : (s.st1Req i).req.op <;> rw [ho] at hop <;>
      simp [ReqOp.isStore, ReqOp.isAmoRmw, ReqOp.isAmo] at hop ⊢
  have hamo : (s.st1Req i).req.op.isAmo = false := ReqOp.not_amo_of_store hop
  have hstep : (s.step i).uc.reserved = (s.uc.step (s.ucIn i)).reserved := rfl
  rw [hstep, Uncached.reserved_step, lrscUcSet_eq, hl, hsnoop, hreset]
  cases hrt : s.st1.reqQ.fromRtab with
  | false =>
    have hev : s.lrscEvent i = some (.write (s.st1Req i).touches) := by
      simp [lrscEvent, hl, hv, hrt, hop]
    rw [hev]
    cases hres : s.uc.reserved with
    | none =>
      cases s.uc.lrscSnoopHit (s.ucIn i) <;> simp [LrscEvent.update]
    | some g =>
      have hiff := snoopHit_iff (s := s) (i := i) (hr.aligned hv)
      rw [hres] at hiff
      cases ht : (s.st1Req i).touches g with
      | true =>
        have hhit := hiff.2 ⟨g, rfl, ht⟩
        simp [LrscEvent.update, hhit, Option.filter, ht]
      | false =>
        have hhit : s.uc.lrscSnoopHit (s.ucIn i) = false := by
          by_contra hhit
          obtain ⟨g', hg', ht'⟩ := hiff.1 (by simpa using hhit)
          rw [← Option.some.inj hg', ht] at ht'
          contradiction
        simp [LrscEvent.update, hhit, Option.filter, ht]
  | true =>
    -- a replayed store has ended the reservations that it touches when it first passed
    have hev : s.lrscEvent i = none := by
      simp [lrscEvent, hl, hrt, hamo]
    have hhit : s.uc.lrscSnoopHit (s.ucIn i) = false := by
      by_contra hhit
      obtain ⟨g, hg, ht⟩ := (snoopHit_iff (hr.aligned hv)).1 (by simpa using hhit)
      obtain ⟨S, front, htab⟩ := hi.tabled
      have hpop : s.popped = some s.st1.rtabPopTryPtrQ := popped_eq_some.2 ⟨hv, hrt, rfl⟩
      have hreq : s.st1Req i = s.replayOf s.st1.rtabPopTryPtrQ s.st1.reqQ.isError := by
        rw [Tabled.st1Req_eq hpop, ← htab.replay _ hpop]
      rw [hreq] at ht hop
      have hheld := hs.held _ (htab.valid_popped hpop) hop g hg
      rw [show (s.replayOf s.st1.rtabPopTryPtrQ s.st1.reqQ.isError).touches g =
        (s.rtab.reqQ s.st1.rtabPopTryPtrQ).req.touches g from rfl, hheld] at ht
      contradiction
    rw [hev, hhit]
    simp

/-- The cycle in which an atomic operation or another request is in stage 1. -/
theorem reserved_step_other (hi : s.Inv) (hr : s.LrscRegular i) (hv : s.st1.reqValidQ = true)
    (hop : (s.st1Req i).req.op.isStore = false) :
    (s.step i).uc.reserved =
      (s.lrscEvent i).elim s.uc.reserved fun e => e.update s.uc.reserved := by
  have hl := lrDone_of_valid hi (i := i) hv
  have hsnoop : (s.ucIn i).lrscSnoop = false := by rw [lrscSnoop_eq, hop, Bool.and_false]
  have hstep : (s.step i).uc.reserved = (s.uc.step (s.ucIn i)).reserved := rfl
  rw [hstep, Uncached.reserved_step, lrscUcSet_eq, hl, hsnoop, lrscUcReset_of_valid hi hr hv]
  simp only [Bool.false_and, Bool.false_eq_true, if_false, Bool.or_false]
  cases hamo : (s.st1Req i).req.op.isAmo with
  | false =>
    have hev : s.lrscEvent i = none := by simp [lrscEvent, hl, hop, hamo]
    have hno : (s.st1Req i).req.op.isAmoRmw = false ∧ (s.st1Req i).req.op ≠ .amoSc := by
      cases ho : (s.st1Req i).req.op <;> rw [ho] at hamo <;>
        simp [ReqOp.isAmo, ReqOp.isAmoRmw] at hamo ⊢
    simp [hev, hno.1, hno.2]
  | true =>
    have hecc := hr.not_ecc hamo
    cases hsend : (s.dec i).sendsUc with
    | false =>
      have hev : s.lrscEvent i = none := by simp [lrscEvent, hl, hop, leavesSt1, hsend, hecc]
      simp [hev]
    | true =>
      have hleaves : s.leavesSt1 i = true := by simp [leavesSt1, hsend]
      by_cases hsc : (s.st1Req i).req.op = .amoSc
      · have hev : s.lrscEvent i = some (.storeConditional (s.st1Granule i)) := by
          simp [lrscEvent, hl, hleaves, hsc, ReqOp.isStore, ReqOp.isAmo]
        simp [hev, hsc, LrscEvent.update]
      by_cases hlr : (s.st1Req i).req.op = .amoLr
      · have hev : s.lrscEvent i = none := by
          simp [lrscEvent, hl, hlr, hecc, ReqOp.isStore]
        simp [hev, hlr, ReqOp.isAmoRmw]
      have hrmw : (s.st1Req i).req.op.isAmoRmw = true := by
        cases ho : (s.st1Req i).req.op <;> rw [ho] at hamo hsc hlr <;>
          simp [ReqOp.isAmo, ReqOp.isAmoRmw] at hamo hsc hlr ⊢
      have hev : s.lrscEvent i = some (.write (s.st1Req i).touches) := by
        unfold lrscEvent
        rw [if_neg (by simp [hl]), if_neg (by simp [hop]), if_pos (by simp [hleaves, hamo])]
        split
        · exact absurd ‹_› hlr
        · exact absurd ‹_› hsc
        · rfl
      have htouch : ∀ g, (s.st1Req i).touches g = decide (s.st1Granule i = g) := fun g =>
        Granule.overlaps_small (hr.aligned hv) (hr.amo_size hv hamo)
      have hhit : s.uc.lrscUcHit (s.ucIn i) = true ↔ s.uc.reserved = some (s.st1Granule i) :=
        Uncached.lrscUcHit_iff
      rw [hev]
      cases hres : s.uc.reserved with
      | none =>
        cases s.uc.lrscUcHit (s.ucIn i) <;> simp [LrscEvent.update, hrmw, hsc]
      | some g =>
        rw [hres] at hhit
        by_cases hg : s.st1Granule i = g
        · have hh := hhit.2 (by rw [hg])
          simp [LrscEvent.update, hrmw, hh, Option.filter, htouch, hg]
        · have hh : s.uc.lrscUcHit (s.ucIn i) = false := by
            by_contra hh
            exact hg (Option.some.inj (hhit.1 (by simpa using hh))).symm
          simp [LrscEvent.update, hh, hsc, Option.filter, htouch, hg]

/-- The register follows the history. -/
theorem LrscInv.reserved_step (hi : s.Inv) (hr : s.LrscRegular i) {h : LrscTrace c}
    (hs : s.LrscInv h) : (s.step i).uc.reserved = reservation (h.record s i).hist := by
  rw [LrscTrace.reservation_record, ← hs.reserved]
  cases hl : s.lrDone i with
  | true => exact reserved_step_lr hi hl _
  | false =>
    cases hv : s.st1.reqValidQ with
    | false =>
      have hev : s.lrscEvent i = none := by
        simp [lrscEvent, hl, hv, leavesSt1, idle_of_not_valid hv, Decision.sendsUc]
      rw [hev, reserved_step_of_not_valid hi hv hl]
      rfl
    | true =>
      cases hop : (s.st1Req i).req.op.isStore with
      | true => exact reserved_step_store hi hr hs hv hop
      | false => exact reserved_step_other hi hr hv hop

/-- A reservation that is there after a cycle with no load-reserved in it was there before. -/
theorem reserved_of_step (hl : s.lrDone i = false) {g : Granule c}
    (hg : (s.step i).uc.reserved = some g) : s.uc.reserved = some g ∧
      ((s.ucIn i).lrscSnoop && s.uc.lrscSnoopHit (s.ucIn i)) = false := by
  have hstep : (s.step i).uc.reserved = (s.uc.step (s.ucIn i)).reserved := rfl
  rw [hstep, Uncached.reserved_step, lrscUcSet_eq, hl] at hg
  simp only [Bool.false_and, Bool.false_eq_true, if_false] at hg
  split_ifs at hg with hx
  simp only [Bool.or_eq_true, not_or, Bool.not_eq_true] at hx
  exact ⟨hg, hx.2⟩

theorem LrscInv.held_step (hi : s.Inv) (hr : s.LrscRegular i) {h : LrscTrace c}
    (hs : s.LrscInv h) (hk : (s.step i).rtab.validQ k = true)
    (hop : ((s.step i).rtab.reqQ k).req.req.op.isStore = true) {g : Granule c}
    (hg : (s.step i).uc.reserved = some g) : ((s.step i).rtab.reqQ k).req.touches g = false := by
  have hreq : (s.step i).rtab.reqQ k =
    if s.rtab.allocBv (s.rtabIn i) k || Rtab.rbackBv (s.rtabIn i) k then (s.rtabIn i).allocReq
      else s.rtab.reqQ k := rfl
  have hvalid : (s.step i).rtab.validQ k =
    setRst (s.rtab.validQ k) (s.rtab.allocBv (s.rtabIn i) k) (Rtab.commitBv (s.rtabIn i) k) := rfl
  rw [hreq] at hop ⊢
  cases hnew : s.rtab.allocBv (s.rtabIn i) k || Rtab.rbackBv (s.rtabIn i) k with
  | true =>
    -- the store is in stage 1, and ends the reservation that it touches
    rw [hnew, if_pos rfl] at hop
    rw [if_pos rfl]
    have hv : s.st1.reqValidQ = true := by
      simp only [Rtab.allocBv, Rtab.rbackBv, Bool.or_eq_true, Bool.and_eq_true] at hnew
      rcases hnew with ⟨-, ha⟩ | ⟨hb, -⟩
      · exact (hi.owned.core_of_alloc ha).1
      · exact valid_of_holds (hi.owned.rback_iff.1 hb).1
    obtain ⟨hres, hsnoop⟩ := reserved_of_step (lrDone_of_valid hi hv) hg
    have hop' : (s.st1Req i).req.op.isStore = true := hop
    rw [lrscSnoop_eq, hv, hop', Bool.and_self, Bool.true_and] at hsnoop
    have htouch : (s.st1Req i).touches g = false := by
      by_contra ht
      rw [(snoopHit_iff (hr.aligned hv)).2 ⟨g, hres, by simpa using ht⟩] at hsnoop
      contradiction
    exact htouch
  | false =>
    rw [hnew, if_neg (by simp)] at hop
    rw [if_neg (by simp)]
    have hk' : s.rtab.validQ k = true := by
      simp only [Bool.or_eq_false_iff] at hnew
      rw [hvalid, hnew.1] at hk
      cases hv : s.rtab.validQ k with
      | true => rfl
      | false =>
        rw [hv, setRst_false_left] at hk
        contradiction
    have hl : s.lrDone i = false := by
      -- a load-reserved is executed with nothing on hold
      by_contra hl
      simp only [lrDone, Bool.not_eq_false, Bool.and_eq_true, decide_eq_true_eq] at hl
      have hbusy : s.uc.ready = false := by simp [Uncached.ready, hl.1.1]
      have hempty := (hi.fences.uc hbusy).1
      simp only [Rtab.empty, Bool.not_eq_true', any_eq_false] at hempty
      rw [hempty] at hk'
      contradiction
    exact hs.held k hk' hop g (reserved_of_step hl hg).1

theorem LrscInv.step (hi : s.Inv) (hr : s.LrscRegular i) {h : LrscTrace c} (hs : s.LrscInv h) :
    (s.step i).LrscInv (h.record s i) :=
  ⟨hs.reserved_step hi hr, fun _ hk hop _ hg => hs.held_step hi hr hk hop hg⟩

/-! ## The code of a store-conditional -/

/-- A store-conditional in the handler was forwarded, or has failed; at the end its code says
whether it was performed. -/
structure ScInv (s : Cache c) (h : LrscTrace c) : Prop where
  waits : s.uc.reqQ.op = .amoSc → (s.uc.fsmQ = .memReq ∨ s.uc.fsmQ = .memWReq ∨
    s.uc.fsmQ = .memWdataReq ∨ s.uc.fsmQ = .memWaitRsp) → h.forwarded = true
  code : s.uc.reqQ.op = .amoSc → (s.uc.fsmQ = .coreRsp ∨ s.uc.fsmQ = .amoWriteData) →
    s.uc.scRetcodeQ = !(h.forwarded && h.performed)

theorem scInv_reset (s : Cache c) : s.reset.ScInv (.start c) :=
  ⟨fun h => absurd h (by simp [reset, Uncached.reset]),
    fun h => absurd h (by simp [reset, Uncached.reset])⟩

/-- A store-conditional is forwarded if it hits the reservation; otherwise it fails at once. -/
theorem sc_step (hi : s.Inv) (hr : s.LrscRegular i) (hs : s.sendsSc i = true) :
    (s.step i).uc.reqQ.op = .amoSc ∧
    (s.step i).uc.fsmQ = (if s.uc.lrscUcHit (s.ucIn i) then .memReq else .coreRsp) ∧
    (s.step i).uc.memWriteValid = s.uc.lrscUcHit (s.ucIn i) ∧
    (s.uc.lrscUcHit (s.ucIn i) = false → (s.step i).uc.scRetcodeQ = true) := by
  simp only [sendsSc, Bool.and_eq_true, decide_eq_true_eq] at hs
  have hop : (s.ucIn i).req.op = .amoSc := hs.2
  have hreq : (s.ucIn i).reqValid = true := by rw [hi.owned.ucReq_eq, hs.1]
  have hv : s.st1.reqValidQ = true :=
    ((dec_guard (s := s) (i := i)).of_sendsUc hs.1).1.valid
  have hidle := ucReady_of_valid hi hv
  have hcfg : (s.ucIn i).cfgErrorOnCacheableAmo = false := hr.allowed
  have hrefused : Uncached.refused (s.ucIn i) = false := by simp [Uncached.refused, hcfg]
  have hop' : (s.step i).uc.reqQ.op = .amoSc := by
    have hstep : (s.step i).uc.reqQ =
      if (s.ucIn i).reqValid && s.uc.ready then (s.ucIn i).req else s.uc.reqQ := rfl
    rw [hstep, hreq, Uncached.ready, hidle, if_pos (by simp), hop]
  have hfsm : (s.step i).uc.fsmQ =
      if s.uc.lrscUcHit (s.ucIn i) then .memReq else .coreRsp := by
    have hstep : (s.step i).uc.fsmQ = s.uc.fsmD (s.ucIn i) := rfl
    simp [hstep, Uncached.fsmD, hidle, Uncached.idleD, hreq, hop, hrefused, ReqOp.isLoad,
      ReqOp.isStore, ReqOp.isAmoRmw]
  refine ⟨hop', hfsm, ?_, fun hhit => ?_⟩
  · cases hhit : s.uc.lrscUcHit (s.ucIn i) <;> rw [hhit] at hfsm <;>
      simp [Uncached.memWriteValid, hfsm, hop', Uncached.isWrite]
  · have hstep : (s.step i).uc.scRetcodeQ = (s.uc.step (s.ucIn i)).scRetcodeQ := rfl
    simp [hstep, Uncached.step, hidle, hreq, hop, hrefused, hhit]

theorem ScInv.step (hi : s.Inv) (hr : s.LrscRegular i) {h : LrscTrace c} (hs : s.ScInv h) :
    (s.step i).ScInv (h.record s i) := by
  have hfsm : (s.step i).uc.fsmQ = s.uc.fsmD (s.ucIn i) := rfl
  have hreq : (s.step i).uc.reqQ =
    if (s.ucIn i).reqValid && s.uc.ready then (s.ucIn i).req else s.uc.reqQ := rfl
  by_cases hidle : s.uc.fsmQ = .idle
  · cases hsend : (s.dec i).sendsUc with
    | false =>
      have hv : (s.ucIn i).reqValid = false := by rw [hi.owned.ucReq_eq, hsend]
      have hidle' : (s.step i).uc.fsmQ = .idle := by
        simp [hfsm, Uncached.fsmD, hidle, Uncached.idleD, hv]
      constructor <;> intro _ hf <;> simp [hidle'] at hf
    | true =>
      have hop : (s.step i).uc.reqQ.op = (s.st1Req i).req.op := by
        rw [hreq, hi.owned.ucReq_eq, hsend, Uncached.ready, hidle, if_pos (by simp)]
        rfl
      by_cases hsc : (s.st1Req i).req.op = .amoSc
      · have hsends : s.sendsSc i = true := by simp [sendsSc, hsend, hsc]
        obtain ⟨-, hf, hw, hcode⟩ := sc_step hi hr hsends
        have hfor : (h.record s i).forwarded = s.uc.lrscUcHit (s.ucIn i) := by
          simp [LrscTrace.record, hsends, hw]
        cases hhit : s.uc.lrscUcHit (s.ucIn i) with
        | true =>
          rw [hhit] at hf hfor
          exact ⟨fun _ _ => hfor, fun _ hf' => by simp [hf] at hf'⟩
        | false =>
          rw [hhit] at hf hfor
          refine ⟨fun _ hf' => by simp [hf] at hf', fun _ _ => ?_⟩
          rw [hcode hhit, hfor]
          rfl
      · constructor <;> intro ho <;> exact absurd (hop.symm.trans ho) hsc
  · -- the handler is busy: nothing is in stage 1
    have hbusy : s.uc.ready = false := by simp [Uncached.ready, hidle]
    have hsends : s.sendsSc i = false := by
      simp [sendsSc, idle_of_not_valid (hi.fences.uc hbusy).2.1, Decision.sendsUc]
    have hop : (s.step i).uc.reqQ = s.uc.reqQ := by
      rw [hreq, hbusy, Bool.and_false]
      rfl
    have hfor : (h.record s i).forwarded = h.forwarded := by simp [LrscTrace.record, hsends]
    refine ⟨fun ho hf => ?_, fun ho hf => ?_⟩
    · rw [hop] at ho
      rw [hfor]
      refine hs.waits ho ?_
      rw [hfsm] at hf
      cases hq : s.uc.fsmQ with
      | idle => exact absurd hq hidle
      | coreRsp =>
        simp only [Uncached.fsmD, hq] at hf
        split_ifs at hf <;> simp at hf
      | amoWriteData => simp [Uncached.fsmD, hq] at hf
      | _ => simp
    · rw [hop] at ho
      rw [hfsm] at hf
      have hcode : (s.step i).uc.scRetcodeQ = (s.uc.step (s.ucIn i)).scRetcodeQ := rfl
      cases hq : s.uc.fsmQ with
      | idle => exact absurd hq hidle
      | memReq =>
        simp only [Uncached.fsmD, hq, Uncached.memReqD, ho] at hf
        split_ifs at hf <;> simp at hf
      | memWReq =>
        simp only [Uncached.fsmD, hq] at hf
        split_ifs at hf <;> simp at hf
      | memWdataReq =>
        simp only [Uncached.fsmD, hq] at hf
        split_ifs at hf <;> simp at hf
      | memWaitRsp =>
        -- the answer of the memory is the code
        have hsome : i.ucWrite.isSome = true := by
          by_contra hnone
          rw [Bool.not_eq_true] at hnone
          have hnone' : (s.ucIn i).memWrite.isSome = false := hnone
          simp [Uncached.fsmD, hq, Uncached.waitRspD, ho, hnone', ReqOp.isLoad, ReqOp.isStore] at hf
        have hsome' : (s.ucIn i).memWrite.isSome = true := hsome
        have hdone : s.scDone i = true := by simp [scDone, hq, ho, hsome]
        have hper : (h.record s i).performed = Uncached.scAtomic (s.ucIn i) := by
          simp only [LrscTrace.record, hsends, hdone, if_true, Bool.false_eq_true, if_false]
          rfl
        rw [hcode, hfor, hper, hs.waits ho (by simp [hq])]
        simp [Uncached.step, hq, ho, hsome']
      | coreRsp =>
        have hdone : s.scDone i = false := by simp [scDone, hq]
        have hper : (h.record s i).performed = h.performed := by
          simp [LrscTrace.record, hsends, hdone]
        rw [hcode, hfor, hper, ← hs.code ho (by simp [hq])]
        simp [Uncached.step, hq]
      | amoWriteData =>
        have hdone : s.scDone i = false := by simp [scDone, hq]
        have hper : (h.record s i).performed = h.performed := by
          simp [LrscTrace.record, hsends, hdone]
        rw [hcode, hfor, hper, ← hs.code ho (by simp [hq])]
        simp [Uncached.step, hq]

/-! ## Runs -/

/-- The invariants of the cache with its history. -/
structure LrscOk (p : Cache c × LrscTrace c) : Prop where
  inv : p.1.Inv
  lrsc : p.1.LrscInv p.2
  sc : p.1.ScInv p.2

theorem lrscOk_run {p : Cache c × LrscTrace c} {is : List (CacheIn c)} (hp : LrscOk p)
    (hr : Along lrscStep (fun p i => p.1.LrscRegular i) p is) : LrscOk (run lrscStep p is) :=
  hr.invariant hp fun _ _ h hi =>
    ⟨h.inv.step hi.toRegular, h.lrsc.step h.inv hi, h.sc.step h.inv hi⟩

theorem byteOf_eq_zero_iff {size : Nat} {code : Bool} :
    (∀ b : Nat, Uncached.byteOf (Uncached.prepareAmoDataResult
      (BitVec.ofNat 64 code.toNat) size) (b % 8) = 0) ↔ code = false := by
  constructor
  · intro h
    have h0 := h 0
    cases code with
    | false => rfl
    | true =>
      exfalso
      unfold Uncached.prepareAmoDataResult at h0
      split_ifs at h0 <;> exact absurd h0 (by decide)
  · rintro rfl b
    unfold Uncached.prepareAmoDataResult
    split_ifs
    · simp [Uncached.byteOf]
    · simp [Uncached.byteOf]

theorem lrscEvent_of_sendsSc (hi : s.Inv) (hs : s.sendsSc i = true) :
    s.lrscEvent i = some (.storeConditional (s.st1Granule i)) := by
  simp only [sendsSc, Bool.and_eq_true, decide_eq_true_eq] at hs
  have hv : s.st1.reqValidQ = true := ((dec_guard (s := s) (i := i)).of_sendsUc hs.1).1.valid
  simp [lrscEvent, lrDone_of_valid hi hv, hs.2, leavesSt1, hs.1, ReqOp.isStore, ReqOp.isAmo]

/-- In every state reached by a regular run: a store-conditional given to the handler is forwarded
to the memory if and only if its granule is reserved, and ends the reservation; its code is zero if
and only if it was forwarded and the memory reported an exclusive write without error; and while an
atomic operation is on hold or in the handler, no later request passes stage 1, so that the history
is in program order. -/
theorem lrsc_run (s : Cache c) (is : List (CacheIn c))
    (hr : Along lrscStep (fun p i => p.1.LrscRegular i) (s.reset, .start c) is) :
    let t := (run lrscStep (s.reset, .start c) is).1
    let h := (run lrscStep (s.reset, .start c) is).2
    (∀ i, t.LrscRegular i → t.sendsSc i = true →
      ((t.step i).uc.memWriteValid = true ↔ Reserved h.hist (t.st1Granule i)) ∧
        (t.step i).uc.lrscValidQ = false) ∧
    (t.uc.fsmQ = .coreRsp → t.uc.reqQ.op = .amoSc →
      ((∀ b, t.uc.coreRsp.rdata b = 0) ↔ h.forwarded = true ∧ h.performed = true)) ∧
    (t.st1.reqValidQ = true → t.st1.reqQ.fromRtab = false →
      t.uc.ready = true ∧ ∀ k, t.rtab.validQ k = true → (t.rtab.reqQ k).req.req.op.isAmo = false) := by
  intro t h
  have hok : LrscOk (t, h) := lrscOk_run ⟨inv_reset s, lrscInv_reset s, scInv_reset s⟩ hr
  obtain ⟨hi, hl, hs⟩ : t.Inv ∧ t.LrscInv h ∧ t.ScInv h := ⟨hok.inv, hok.lrsc, hok.sc⟩
  refine ⟨fun i hreg hsends => ⟨?_, ?_⟩, fun hf ho => ?_, fun hv hr => ⟨?_, fun k hk => ?_⟩⟩
  · rw [(sc_step hi hreg hsends).2.2.1, reserved_iff, ← hl.reserved]
    exact Uncached.lrscUcHit_iff
  · have hnone := hl.reserved_step hi hreg
    rw [LrscTrace.reservation_record, lrscEvent_of_sendsSc hi hsends] at hnone
    simp only [Option.elim, LrscEvent.update, Uncached.reserved] at hnone
    split_ifs at hnone with hv
    simpa using hv
  · have hcode := hs.code ho (.inl hf)
    simp only [Uncached.coreRsp, ho, if_true]
    rw [byteOf_eq_zero_iff, hcode]
    simp
  · exact (hi.owned.core hv hr).2.1
  · have hfence := hi.fences.core hv hr k hk
    simp only [Rtab.isFence, CtrlReq.isFence, Bool.or_eq_false_iff] at hfence
    exact hfence.1

end Cache

/-! ## An error between the reservation and its use -/

def eccCfg : Cfg := Cfg.small true true true true (Cfg.policy_wt true) Cfg.latency_ecc

/-- The memory answers a read of the handler. -/
def CacheIn.ucAnswer (c : Cfg) : CacheIn c :=
  { CacheIn.idle c with ucRead := some ⟨false, fun _ => 0⟩ }

/-- The directory reports an uncorrectable error in the first way. -/
def CacheIn.dirError (c : Cfg) : CacheIn c :=
  { CacheIn.idle c with dirErrUnc := fun w => decide (w.val = 0) }

/-- A load-reserved succeeds, a store-conditional finds an uncorrectable error and is answered with
it, and another store-conditional follows. -/
def scAfterError : List (CacheIn eccCfg) :=
  [.idle _, .idle _, .ask (.access .amoLr 1 false), .idle _, .idle _, .ucAnswer _, .idle _,
    .ask (.access .amoSc 1 false), .dirError _, .idle _, .idle _, .idle _, .idle _,
    .ask (.access .amoSc 1 false)]

/-- The second store-conditional, in stage 1. -/
def secondSc : Cache eccCfg × Cache.LrscTrace eccCfg :=
  run Cache.lrscStep ((Cache.blank _).reset, .start _) scAfterError

/-- The store-conditional in error leaves the reservation: the second one is forwarded. -/
theorem secondSc_forwarded :
    secondSc.1.sendsSc (.idle _) = true ∧ (secondSc.1.step (.idle _)).uc.memWriteValid = true ∧
      ¬ Reserved secondSc.2.hist (secondSc.1.st1Granule (.idle _)) := by
  have hnone : (reservation secondSc.2.hist).isNone = true := by decide +kernel
  refine ⟨by decide +kernel, by decide +kernel, ?_⟩
  rw [reserved_iff, Option.isNone_iff_eq_none.1 hnone]
  nofun

/-- A load-reserved that succeeds and a store-conditional. -/
def lrThenSc : List (CacheIn lowLatencyCfg) :=
  [.idle _, .idle _, .ask (.access .amoLr 1 false), .idle _, .idle _, .ucAnswer _, .idle _,
    .ask (.access .amoSc 1 false)]

/-- What a cycle without acknowledgement must meet to be regular. -/
def lrscQuiet (s : Cache c) (i : CacheIn c) : Bool :=
  i.flushAck.isNone && !s.leaks i && !s.lateLookup i && !s.disabledReplay i &&
    !i.cfgErrorOnCacheableAmo && !s.st1ReqAbort i &&
    decide ((s.st1Req i).req.addrOff % 2 ^ (s.st1Req i).req.size = 0) &&
    decide ((s.st1Req i).req.size ≤ 3) && !decide (s.dec i = .eccAnswer)

theorem lrscRegular_of_quiet {s : Cache c} {i : CacheIn c} (h : lrscQuiet s i = true) :
    s.LrscRegular i := by
  simp only [lrscQuiet, Bool.and_eq_true, Bool.not_eq_true', decide_eq_true_eq,
    decide_eq_false_iff_not] at h
  obtain ⟨⟨⟨⟨⟨hreg, hcfg⟩, habort⟩, halign⟩, hsize⟩, hecc⟩ := h
  have hreg' := Cache.regular_of_quiet (s := s) (i := i) (by simpa using hreg)
  exact ⟨hreg', hcfg, fun _ => habort, fun _ => halign, fun _ _ => hsize, fun _ => hecc⟩

theorem regular_lrThenSc : Along Cache.lrscStep (fun p i => p.1.LrscRegular i)
    ((Cache.blank lowLatencyCfg).reset, .start _) lrThenSc :=
  Along.mono (P := fun p i => lrscQuiet p.1 i = true) (by decide +kernel)
    fun _ _ => lrscRegular_of_quiet

theorem lrsc_run_lrThenSc :
    let t := (run Cache.lrscStep ((Cache.blank lowLatencyCfg).reset, .start _) lrThenSc).1
    let h := (run Cache.lrscStep ((Cache.blank lowLatencyCfg).reset, .start _) lrThenSc).2
    t.sendsSc (.idle _) = true ∧
    (∀ i, t.LrscRegular i → t.sendsSc i = true →
      ((t.step i).uc.memWriteValid = true ↔ Reserved h.hist (t.st1Granule i)) ∧
        (t.step i).uc.lrscValidQ = false) ∧
    (t.uc.fsmQ = .coreRsp → t.uc.reqQ.op = .amoSc →
      ((∀ b, t.uc.coreRsp.rdata b = 0) ↔ h.forwarded = true ∧ h.performed = true)) ∧
    (t.st1.reqValidQ = true → t.st1.reqQ.fromRtab = false →
      t.uc.ready = true ∧
        ∀ k, t.rtab.validQ k = true → (t.rtab.reqQ k).req.req.op.isAmo = false) :=
  ⟨by decide +kernel, Cache.lrsc_run _ _ regular_lrThenSc⟩

end Hpdcache
