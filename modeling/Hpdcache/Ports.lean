import Hpdcache.Booked
import Hpdcache.DataArray

/-!
# The ports of the RAMs

The directory has one port, and so has the data RAM: of the units that access it in the same cycle
all but one are lost. The accesses of a cycle belong to one unit: the walk of the CMO handler, the
recovery, the refill FSM, the flush controller, the uncacheable handler, or the pipeline.

* `Cache.Separate` — the units that use the data RAM are not active together.
* `Cache.dirUnit`, `Cache.dataUnit` — the unit that has the port.
* `MissMap.exclusive_run` — one access to each port, one request and one allocation in a cycle.
-/

namespace Hpdcache

open Hw

variable {c : Cfg}

/-! ## The users -/

/-- The processes that access the directory. -/
inductive DirUser
  | dirMatch
  | dirRefill
  | dirInvalCheck
  | dirInvalWrite
  | dirCmoCheckNline
  | dirCmoCheckEntry
  | dirCmoUpdt
  | dirUpdt
  | dirErrRead
  | dirErrWrite
  deriving DecidableEq, Repr

def MemIn.dirUses (i : MemIn c) : DirUser → Bool
  | .dirMatch => i.dirMatch
  | .dirRefill => i.dirRefill
  | .dirInvalCheck => i.dirInvalCheck
  | .dirInvalWrite => i.dirInvalWrite
  | .dirCmoCheckNline => i.dirCmoCheckNline
  | .dirCmoCheckEntry => i.dirCmoCheckEntry
  | .dirCmoUpdt => i.dirCmoUpdt
  | .dirUpdt => i.dirUpdt
  | .dirErrRead => i.dirErrRead
  | .dirErrWrite => i.dirErrWrite

/-- The units that use the RAMs. -/
inductive RamUnit
  | walk
  | recovery
  | refill
  | flush
  | uncached
  | update
  | request
  deriving DecidableEq, Repr

def DirUser.unit : DirUser → RamUnit
  | .dirMatch => .request
  | .dirRefill | .dirInvalCheck | .dirInvalWrite => .refill
  | .dirCmoCheckNline | .dirCmoCheckEntry | .dirCmoUpdt => .walk
  | .dirUpdt => .update
  | .dirErrRead | .dirErrWrite => .recovery

def DataUser.unit : DataUser → RamUnit
  | .req => .request
  | .amo => .uncached
  | .refill => .refill
  | .flush => .flush
  | .errRead | .errWrite => .recovery

/-! ## The accesses of a unit -/

theorem not_both {a b : Bool} (h : a = true → b = false) (ha : a = true) (hb : b = true) : False := by
  rw [h ha] at hb
  contradiction

/-- The refill FSM makes one access. -/
theorem MissHandler.one_access {m : MissHandler c} {i : MissIn c} :
    ((m.refillComb i).writeDir = true →
      (m.refillComb i).invalCheckDir = false ∧ (m.refillComb i).invalWriteDir = false) ∧
      ((m.refillComb i).invalCheckDir = true → (m.refillComb i).invalWriteDir = false) := by
  unfold refillComb
  cases m.refillFsmQ with
  | idle =>
    simp only [refillIdle, refillDefault]
    split_ifs <;> simp
  | write =>
    simp only [refillWrite, refillLast, refillChunk, refillFirst, refillNext, refillDefault]
    split_ifs <;> simp
  | writeDir => simp [refillLast, refillDefault]
  | inval => simp [refillDefault]

theorem MissHandler.refilling_eq_none {m : MissHandler c} (hb : m.refillBusy = false) :
    m.refilling = none := by
  by_contra hx
  obtain ⟨x, hx⟩ := Option.ne_none_iff_exists'.1 hx
  rw [refillBusy_of_refilling hx] at hb
  contradiction

theorem MissHandler.refilling_of_writeData {m : MissHandler c} {i : MissIn c}
    (h : (m.refillComb i).writeData = true) : ∃ x, m.refilling = some x := by
  unfold refillComb at h
  unfold refilling
  cases hf : m.refillFsmQ with
  | write => exact ⟨_, rfl⟩
  | writeDir => exact ⟨_, rfl⟩
  | idle =>
    rw [hf] at h
    simp only [refillIdle, refillDefault] at h
    split_ifs at h
  | inval =>
    rw [hf] at h
    contradiction

/-- The CMO handler makes one access. -/
theorem Cmo.one_access {m : Cmo c} {i : CmoIn c} :
    ((m.comb i).dirCheckNline = true →
      (m.comb i).dirCheckEntry = false ∧ (m.comb i).dirUpdt = false) ∧
      ((m.comb i).dirCheckEntry = true → (m.comb i).dirUpdt = false) := by
  cases hw : m.fsmQ.walks with
  | false =>
    obtain ⟨h1, h2, h3⟩ := Cmo.comb_quiet (i := i) hw
    simp [h1, h2, h3]
  | true =>
    unfold comb
    cases hf : m.fsmQ <;> rw [hf] at hw <;> try contradiction
    · simp [default]
    · simp only [combInvalSet, default, done]
      split <;> try split_ifs
      all_goals simp
    · simp only [combFlushAllFirst, checkEntry, default, done]
      split_ifs <;> simp
    · simp only [combFlushAllNext, checkEntry, updtEntry, default]
      split_ifs <;> simp
    · simp only [combFlushAllLast, updtEntry, default, done]
      split_ifs <;> simp
    · simp only [combFlushNlineFirst, default, done]
      split_ifs <;> simp
    · simp only [combFlushNlineNext, default, done]
      split_ifs <;> simp

/-- The recovery reads or writes. -/
theorem ErrFsm.one_access {e : ErrFsm c} {i : ErrIn c} :
    ((e.comb i).dirRead = true → (e.comb i).dirWrite = false) ∧
      ((e.comb i).datRead = true → (e.comb i).datWrite = false) := by
  unfold comb
  by_cases hecc : c.eccEn = true
  · rw [if_pos hecc]
    cases e.fsmQ with
    | idle =>
      dsimp only
      split_ifs <;> simp [default]
    | check =>
      simp only [combCheck, default]
      split_ifs <;> simp
    | waitMshr => simp [default]
    | inval =>
      simp only [next, default]
      split_ifs <;> simp
    | latch => simp [default]
    | correct =>
      simp only [next, default]
      split_ifs <;> simp
  · rw [if_neg hecc]
    simp [default]

/-- The recovery uses the RAMs while it is at work on a way. -/
theorem ErrFsm.works_of_access {e : ErrFsm c} {i : ErrIn c}
    (h : ((e.comb i).dirRead || (e.comb i).dirWrite || (e.comb i).datRead ||
      (e.comb i).datWrite) = true) : e.busy = true ∧ e.wait = false := by
  unfold comb at h
  by_cases hecc : c.eccEn = true
  · rw [if_pos hecc] at h
    cases hf : e.fsmQ with
    | idle =>
      rw [hf] at h
      dsimp only at h
      split_ifs at h <;> contradiction
    | waitMshr =>
      rw [hf] at h
      contradiction
    | check => simp [busy, wait, hecc, hf]
    | inval => simp [busy, wait, hecc, hf]
    | latch => simp [busy, wait, hecc, hf]
    | correct => simp [busy, wait, hecc, hf]
  · rw [if_neg hecc] at h
    contradiction

/-- A line is flushed with an update of the directory, or with a miss. -/
theorem Decision.st2_of_flushAlloc {d : Decision} {p : PeIn} (h : d.flushAlloc p = true) :
    (d.mshrAlloc p).alloc = true ∨ (d.dirUpdt p).updt = true := by
  cases d <;> first | exact .inr rfl | contradiction

/-- A request handed to the uncacheable handler starts nothing else that uses the data RAM. -/
theorem Decision.quiet_of_sendsUc {d : Decision} {p : PeIn} (h : d.sendsUc = true) :
    d.misses = false ∧ d.errs = false ∧ d.flushAlloc p = false := by
  cases d <;> first | exact ⟨rfl, rfl, rfl⟩ | contradiction

namespace Cache

variable {s : Cache c} {i : CacheIn c}

/-! ## The units -/

/-- The uncacheable handler works on its own, and neither a refill nor the recovery is at work while
a line is flushed. -/
structure Separate (s : Cache c) : Prop where
  uc : s.uc.ready = false → s.err.busy = false ∧ s.flushBusy = false ∧
    s.st2.mshrAllocQ = false ∧ s.st2.flushAllocQ = false ∧ ∀ k, s.missAt k = none
  refill : s.miss.refillBusy = true → s.flushBusy = false
  recovery : s.err.busy = true → s.flushBusy = false
  st2 : s.st2.flushAllocQ = true → s.st2.mshrAllocQ = true ∨ s.st2.dirUpdtQ.updt = true

theorem separate_reset (s : Cache c) : s.reset.Separate where
  uc := nofun
  refill := nofun
  recovery h := by
    have hb : s.reset.err.busy = false := by simp [reset, ErrFsm.reset, ErrFsm.busy]
    rw [hb] at h
    contradiction
  st2 := nofun

theorem Owned.not_walks (h : s.Owned) (hv : s.st1.reqValidQ = true) :
    s.cmo.fsmQ.walks = false := by
  by_contra hw
  rw [(h.walk (by simpa using hw)).1] at hv
  contradiction

/-- Nothing starts to use the data RAM. -/
theorem Owned.alone_step (h : s.Owned) (hroom : s.Roomy)
    (hack : (s.refill i).ack = true → s.miss.mshr.validQ s.miss.head.rSet s.miss.head.rWay = true)
    (he : s.err.busy = false) (hfl : s.flushBusy = false) (hst2 : s.st2.flushAllocQ = false)
    (hw : s.cmo.fsmQ.walks = false) (hx : ∀ k, s.missAt k = none) (hm : (s.dec i).misses = false)
    (herr : (s.dec i).errs = false) (hf : (s.dec i).flushAlloc (s.peIn i) = false) :
    (s.step i).err.busy = false ∧ (s.step i).flushBusy = false ∧
      (s.step i).st2.mshrAllocQ = false ∧ (s.step i).st2.flushAllocQ = false ∧
      ∀ k, (s.step i).missAt k = none := by
  have hpe := h.pe_agrees (i := i)
  refine ⟨?_, h.flushBusy_step hfl hst2 hw, ?_, ?_, ?_⟩
  · by_contra hb
    rcases h.err_busy_step (by simpa using hb) with hb' | ⟨-, herr', -⟩
    · rw [he] at hb'
      contradiction
    · rw [herr] at herr'
      contradiction
  · have hstep : (s.step i).st2.mshrAllocQ = (s.pe i).st2MshrAlloc.alloc := rfl
    rw [hstep, hpe.mshrAlloc, Decision.mshrAlloc_alloc, hm]
  · have hstep : (s.step i).st2.flushAllocQ = (s.pe i).st2FlushAlloc := rfl
    rw [hstep, hpe.flushAlloc, hf]
  · intro k
    by_contra hne
    obtain ⟨x, hk⟩ := Option.ne_none_iff_exists'.1 hne
    rcases miss_step h hroom hack hk with ⟨k', hx', -⟩ | ⟨-, hm', -⟩
    · rw [hx k'] at hx'
      contradiction
    · rw [hm] at hm'
      contradiction

/-- A request handed to the uncacheable handler leaves it alone. -/
theorem Separate.uc_step (hs : s.Separate) (h : s.Inv) (hr : s.Regular i)
    (hack : (s.refill i).ack = true → s.miss.mshr.validQ s.miss.head.rSet s.miss.head.rWay = true)
    (hu : (s.step i).uc.ready = false) :
    (s.step i).err.busy = false ∧ (s.step i).flushBusy = false ∧
      (s.step i).st2.mshrAllocQ = false ∧ (s.step i).st2.flushAllocQ = false ∧
      ∀ k, (s.step i).missAt k = none := by
  cases hready : s.uc.ready with
  | false =>
    obtain ⟨he, hfl, -, hst2, hx⟩ := hs.uc hready
    obtain ⟨-, hv, hcmo⟩ := h.fences.uc hready
    have hidle : s.dec i = .idle := idle_of_not_valid hv
    have hw : s.cmo.fsmQ.walks = false := by rw [hcmo]; rfl
    exact h.owned.alone_step h.roomy hack he hfl hst2 hw hx (by rw [hidle]; rfl)
      (by rw [hidle]; rfl) (by rw [hidle]; rfl)
  | true =>
    have hsend : (s.dec i).sendsUc = true := by
      by_contra hn
      rw [h.owned.uc_ready_step hready (by simpa using hn)] at hu
      contradiction
    have hreq : (s.ucIn i).reqValid = true := by
      have hpe : (s.ucIn i).reqValid = (s.dec i).sendsUc := (h.owned.pe_agrees (i := i)).ucReq
      rw [hpe, hsend]
    obtain ⟨ha, -, -⟩ := h.alone_of_ucReq hr hreq
    have hv : s.st1.reqValidQ = true := by
      apply valid_of_dec (i := i)
      intro hd
      rw [hd] at hsend
      contradiction
    have he : s.err.busy = false := by
      by_contra hb
      rw [(h.owned.err (by simpa using hb)).1] at hv
      contradiction
    obtain ⟨-, -, hfl⟩ := normal_iff.1 (h.owned.st1_normal hv)
    have hst2 := ha.st2
    simp only [st2Busy, Bool.or_eq_false_iff] at hst2
    obtain ⟨hm, herr, hf⟩ := Decision.quiet_of_sendsUc (p := s.peIn i) hsend
    exact h.owned.alone_step h.roomy hack he hfl hst2.1.2 (h.owned.not_walks hv)
      (fun _ => missAt_eq_none ha.mshr hst2.1.1) hm herr hf

theorem Separate.refill_step (hs : s.Separate) (h : s.Owned) (ht : s.Tracked)
    (hb : (s.step i).miss.refillBusy = true) : (s.step i).flushBusy = false := by
  cases hb' : s.miss.refillBusy with
  | true =>
    have hst2 : s.st2Busy = false := by
      by_contra hst2
      rw [(normal_iff.1 (h.st2_normal (by simpa using hst2))).2.1] at hb'
      contradiction
    have hwalk : s.cmo.fsmQ.walks = false := by
      by_contra hw
      rw [ht.refill (by simpa using hw)] at hb'
      contradiction
    simp only [st2Busy, Bool.or_eq_false_iff] at hst2
    exact h.flushBusy_step (hs.refill hb') hst2.1.2 hwalk
  | false =>
    have hready : (s.pe i).refillReqReady = true := by
      by_contra hr
      rw [Bool.not_eq_true] at hr
      have hidle : (s.step i).miss.refillBusy = false := MissHandler.refillBusy_step hb' hr
      rw [hidle] at hb
      contradiction
    have hg := refillReqReady_iff.1 hready
    have hwalk : s.cmo.fsmQ.walks = false := by
      by_contra hw
      rw [refillReqReady_of_walks (by simpa using hw)] at hready
      contradiction
    have hst2 : s.st2.flushAllocQ = false := by
      by_contra hf
      have hmshr : s.st2.mshrAllocQ = false := hg.not_mshr
      have hdir : s.st2.dirUpdtQ.updt = false := hg.not_dir
      rcases hs.st2 (by simpa using hf) with hx | hx
      · rw [hmshr] at hx
        contradiction
      · rw [hdir] at hx
        contradiction
    exact h.flushBusy_step (normal_iff.1 hg.normal).2.2 hst2 hwalk

theorem Separate.recovery_step (hs : s.Separate) (h : s.Owned) (hb : (s.step i).err.busy = true) :
    (s.step i).flushBusy = false := by
  rcases h.err_busy_step hb with hb' | ⟨hv, -⟩
  · have hst2 := (h.err hb').2
    have hwalk : s.cmo.fsmQ.walks = false := by
      by_contra hw
      rw [(h.walk (by simpa using hw)).2.2] at hb'
      contradiction
    simp only [st2Busy, Bool.or_eq_false_iff] at hst2
    exact h.flushBusy_step (hs.recovery hb') hst2.1.2 hwalk
  · have hst2 := h.st1_st2 hv
    simp only [st2Busy, Bool.or_eq_false_iff] at hst2
    exact h.flushBusy_step (normal_iff.1 (h.st1_normal hv)).2.2 hst2.1.2 (h.not_walks hv)

theorem Separate.st2_step (h : s.Owned) (hf : (s.step i).st2.flushAllocQ = true) :
    (s.step i).st2.mshrAllocQ = true ∨ (s.step i).st2.dirUpdtQ.updt = true := by
  have hpe := h.pe_agrees (i := i)
  have hflush : (s.step i).st2.flushAllocQ = (s.pe i).st2FlushAlloc := rfl
  have hmshr : (s.step i).st2.mshrAllocQ = (s.pe i).st2MshrAlloc.alloc := rfl
  have hdir : (s.step i).st2.dirUpdtQ = if (s.pe i).st2DirUpdt.updt then (s.pe i).st2DirUpdt
    else { s.st2.dirUpdtQ with updt := false } := rfl
  rw [hflush, hpe.flushAlloc] at hf
  rw [hmshr, hdir, hpe.mshrAlloc, hpe.dirUpdt]
  refine (Decision.st2_of_flushAlloc hf).imp id fun hu => ?_
  rw [if_pos hu]
  exact hu

/-! ## The port of the directory -/

/-- The unit that has the port of the directory. -/
def dirUnit (s : Cache c) (i : CacheIn c) : RamUnit :=
  if s.cmo.fsmQ.walks then .walk
  else if s.err.busy && !s.err.wait then .recovery
  else if s.miss.refillBusy || (s.pe i).refillReqReady then .refill
  else if s.st2.dirUpdtQ.updt then .update
  else .request

theorem dirUnit_of_refill (h : s.Owned) (ht : s.Tracked)
    (hr : (s.miss.refillBusy || (s.pe i).refillReqReady) = true) : s.dirUnit i = .refill := by
  have hwalk : s.cmo.fsmQ.walks = false := by
    by_contra hw
    rw [Bool.not_eq_false] at hw
    rw [ht.refill hw, refillReqReady_of_walks hw] at hr
    contradiction
  have herr : (s.err.busy && !s.err.wait) = false := by
    by_contra he
    simp only [Bool.not_eq_false, Bool.and_eq_true, Bool.not_eq_true'] at he
    rw [h.err_refill he.1 he.2, refillReqReady_eq_false (.inr (.inr he))] at hr
    contradiction
  simp [dirUnit, hwalk, herr, hr]

theorem dirUnit_of_walks (hw : s.cmo.fsmQ.walks = true) : s.dirUnit i = .walk := if_pos hw

theorem dirUnit_of_recovery (h : s.Owned) (he : s.err.busy = true ∧ s.err.wait = false) :
    s.dirUnit i = .recovery := by
  have hwalk : s.cmo.fsmQ.walks = false := by
    by_contra hw
    rw [(h.walk (by simpa using hw)).2.2] at he
    exact absurd he.1 Bool.false_ne_true
  simp [dirUnit, hwalk, he.1, he.2]

/-- Every access to the directory is one of the unit that has the port. -/
theorem dirUnit_of_uses (h : s.Owned) (ht : s.Tracked) {u : DirUser}
    (hu : (s.memIn i).dirUses u = true) : s.dirUnit i = u.unit := by
  have hrefill (hn : ¬((s.refill i).writeDir = false ∧ (s.refill i).invalCheckDir = false ∧
      (s.refill i).invalWriteDir = false)) : s.dirUnit i = .refill := by
    apply dirUnit_of_refill h ht
    by_contra hq
    simp only [Bool.not_eq_true, Bool.or_eq_false_iff] at hq
    exact hn (MissHandler.comb_quiet (i := s.missIn i) hq.1 hq.2)
  have hwalk (hn : ¬((s.cmoOut i).dirCheckNline = false ∧ (s.cmoOut i).dirCheckEntry = false ∧
      (s.cmoOut i).dirUpdt = false)) : s.dirUnit i = .walk := by
    apply dirUnit_of_walks
    by_contra hq
    exact hn (Cmo.comb_quiet (by simpa using hq))
  cases u with
  | dirMatch =>
    have hg := h.granted_of_match hu
    have hst2 := hg.st2
    simp only [st2Busy, Bool.or_eq_false_iff] at hst2
    simp [dirUnit, hg.walks, hg.not_err, (normal_iff.1 hg.normal).2.1,
      refillReqReady_eq_false (.inl hg.not_refill), hst2.2, DirUser.unit]
  | dirRefill =>
    refine hrefill fun hn => ?_
    rw [show (s.refill i).writeDir = true from hu] at hn
    exact absurd hn.1 (by decide)
  | dirInvalCheck =>
    refine hrefill fun hn => ?_
    rw [show (s.refill i).invalCheckDir = true from hu] at hn
    exact absurd hn.2.1 (by decide)
  | dirInvalWrite =>
    refine hrefill fun hn => ?_
    rw [show (s.refill i).invalWriteDir = true from hu] at hn
    exact absurd hn.2.2 (by decide)
  | dirCmoCheckNline =>
    refine hwalk fun hn => ?_
    rw [show (s.cmoOut i).dirCheckNline = true from hu] at hn
    exact absurd hn.1 (by decide)
  | dirCmoCheckEntry =>
    refine hwalk fun hn => ?_
    rw [show (s.cmoOut i).dirCheckEntry = true from hu] at hn
    exact absurd hn.2.1 (by decide)
  | dirCmoUpdt =>
    refine hwalk fun hn => ?_
    rw [show (s.cmoOut i).dirUpdt = true from hu] at hn
    exact absurd hn.2.2 (by decide)
  | dirUpdt =>
    have hupdt : s.st2.dirUpdtQ.updt = true := hu
    have hb : s.st2Busy = true := by simp [st2Busy, hupdt]
    have hwalks : s.cmo.fsmQ.walks = false := by
      by_contra hw
      rw [(h.walk (by simpa using hw)).2.1] at hb
      contradiction
    have herr : s.err.busy = false := by
      by_contra he
      rw [(h.err (by simpa using he)).2] at hb
      contradiction
    have hready : (s.pe i).refillReqReady = false := by
      by_contra hr
      rw [Bool.not_eq_false] at hr
      have hd : s.st2.dirUpdtQ.updt = false := (refillReqReady_iff.1 hr).not_dir
      rw [hupdt] at hd
      contradiction
    simp [dirUnit, hwalks, herr, (normal_iff.1 (h.st2_normal hb)).2.1, hready, hupdt, DirUser.unit]
  | dirErrRead =>
    refine dirUnit_of_recovery h (ErrFsm.works_of_access (i := s.errIn i) ?_)
    rw [show (s.err.comb (s.errIn i)).dirRead = true from hu]
    rfl
  | dirErrWrite =>
    refine dirUnit_of_recovery h (ErrFsm.works_of_access (i := s.errIn i) ?_)
    rw [show (s.err.comb (s.errIn i)).dirWrite = true from hu]
    simp

/-- A unit makes one access to the directory. -/
theorem dirUses_inj {u v : DirUser} (hu : (s.memIn i).dirUses u = true)
    (hv : (s.memIn i).dirUses v = true) (huv : u.unit = v.unit) : u = v := by
  have hr := MissHandler.one_access (m := s.miss) (i := s.missIn i)
  have hc := Cmo.one_access (m := s.cmo) (i := s.cmoIn i)
  have he := (ErrFsm.one_access (e := s.err) (i := s.errIn i)).1
  cases u <;> cases v <;> first | rfl | exact absurd huv (by decide) | skip
  case dirRefill.dirInvalCheck => exact (not_both (fun h => (hr.1 h).1) hu hv).elim
  case dirRefill.dirInvalWrite => exact (not_both (fun h => (hr.1 h).2) hu hv).elim
  case dirInvalCheck.dirRefill => exact (not_both (fun h => (hr.1 h).1) hv hu).elim
  case dirInvalCheck.dirInvalWrite => exact (not_both hr.2 hu hv).elim
  case dirInvalWrite.dirRefill => exact (not_both (fun h => (hr.1 h).2) hv hu).elim
  case dirInvalWrite.dirInvalCheck => exact (not_both hr.2 hv hu).elim
  case dirCmoCheckNline.dirCmoCheckEntry => exact (not_both (fun h => (hc.1 h).1) hu hv).elim
  case dirCmoCheckNline.dirCmoUpdt => exact (not_both (fun h => (hc.1 h).2) hu hv).elim
  case dirCmoCheckEntry.dirCmoCheckNline => exact (not_both (fun h => (hc.1 h).1) hv hu).elim
  case dirCmoCheckEntry.dirCmoUpdt => exact (not_both hc.2 hu hv).elim
  case dirCmoUpdt.dirCmoCheckNline => exact (not_both (fun h => (hc.1 h).2) hv hu).elim
  case dirCmoUpdt.dirCmoCheckEntry => exact (not_both hc.2 hv hu).elim
  case dirErrRead.dirErrWrite => exact (not_both he hu hv).elim
  case dirErrWrite.dirErrRead => exact (not_both he hv hu).elim

/-! ## The port of the data RAM -/

/-- The unit that has the port of the data RAM. -/
def dataUnit (s : Cache c) (i : CacheIn c) : RamUnit :=
  if s.err.busy && !s.err.wait then .recovery
  else if s.miss.refilling.isSome then .refill
  else if s.flushBusy || (s.flushIn i).alloc then .flush
  else if !s.uc.ready then .uncached
  else .request

/-- Without a request in stage 1 the data RAM is read for a request that is granted only. -/
theorem engine_of_not_valid (hv : s.st1.reqValidQ = false) :
    (s.pe i).reqCachedataRead = (s.pe i).st0ReqCachedataRead ∧
      (s.pe i).st1ReqCachedataWrite = false := by
  unfold pe
  cases hn : (s.peIn i).normal with
  | false =>
    obtain ⟨evt, he⟩ := hpdcacheCtrlPe_not_normal (c := c) hn
    rw [he]
    exact ⟨rfl, rfl⟩
  | true =>
    have hv' : (s.peIn i).st1ReqValid = false := hv
    have hstage : stage1 c (s.peIn i) = st2Pending (s.peIn i) (PeOut.default (s.peIn i)) := by
      unfold stage1 st1Request
      rw [if_neg (by simp [hv'])]
    rw [hpdcacheCtrlPe_normal hn, hstage, st2Pending_default]
    exact ⟨Bool.or_false _, rfl⟩

theorem Owned.active_of_req (h : s.Owned) (hu : (s.memIn i).uses .req = true) :
    s.st1.reqValidQ = true ∨
      ((s.peIn i).GrantCore c ∨ (s.peIn i).GrantRtab c ∨ (s.peIn i).GrantScrub c) ∧
        s.Granted i := by
  cases hv : s.st1.reqValidQ with
  | true => exact .inl rfl
  | false =>
    right
    obtain ⟨hread, hwrite⟩ := engine_of_not_valid (i := i) hv
    have huse : ((s.pe i).reqCachedataRead || (s.pe i).st1ReqCachedataWrite) = true := hu
    rw [hread, hwrite, Bool.or_false] at huse
    exact h.granted_of_st0 (by rw [huse, Bool.or_true])

/-- The flush controller is given a line by stage 2 or in a walk. -/
theorem Owned.of_flushAlloc (h : s.Owned) (ha : (s.flushIn i).alloc = true) :
    s.st2.flushAllocQ = true ∨ s.cmo.fsmQ.walks = true := by
  by_contra hno
  simp only [not_or, Bool.not_eq_true] at hno
  have hflushes : s.cmo.fsmQ.flushes = false := by
    by_contra hf
    rw [CmoFsm.walks_of_flushes (by simpa using hf)] at hno
    exact absurd hno.2 (by decide)
  rw [flushIn_alloc h.holds hno.1 hflushes] at ha
  contradiction

theorem dataUnit_of_flush (h : s.Owned) (ht : s.Tracked) (hs : s.Separate)
    (hu : (s.memIn i).uses .flush = true) : s.dataUnit i = .flush := by
  have hactive : (s.flushBusy || (s.flushIn i).alloc) = true := by
    have hread : (c.wbEn && (s.flush.dataRead (s.flushIn i)).read) = true := hu
    rw [Bool.and_eq_true] at hread
    rw [flushBusy, hread.1, Bool.true_and]
    by_contra hno
    simp only [Bool.not_eq_true, Bool.or_eq_false_iff] at hno
    have hf : s.flush.fsmQ = .idle := by simpa [Flush.busy] using hno.1
    have hnone : (s.flush.dataRead (s.flushIn i)).read = false := by
      simp [Flush.dataRead, hf, Flush.doAlloc, hno.2]
    rw [hnone] at hread
    exact absurd hread.2 (by decide)
  have hquiet : s.err.busy = false ∧ s.miss.refillBusy = false := by
    rw [Bool.or_eq_true] at hactive
    rcases hactive with hb | ha
    · constructor
      · by_contra he
        rw [hs.recovery (by simpa using he)] at hb
        contradiction
      · by_contra hr
        rw [hs.refill (by simpa using hr)] at hb
        contradiction
    · rcases h.of_flushAlloc ha with hst2 | hw
      · have hb : s.st2Busy = true := by simp [st2Busy, hst2]
        refine ⟨?_, (normal_iff.1 (h.st2_normal hb)).2.1⟩
        by_contra he
        rw [(h.err (by simpa using he)).2] at hb
        contradiction
      · exact ⟨(h.walk hw).2.2, ht.refill hw⟩
  simp [dataUnit, hquiet.1, MissHandler.refilling_eq_none hquiet.2, hactive]

theorem dataUnit_of_uncached (h : s.Inv) (hs : s.Separate) (hu : (s.memIn i).uses .amo = true) :
    s.dataUnit i = .uncached := by
  have hfsm : s.uc.fsmQ = .amoWriteData := by
    have huse : s.uc.dataAmoWrite = true := hu
    simpa [Uncached.dataAmoWrite] using huse
  have hready : s.uc.ready = false := by simp [Uncached.ready, hfsm]
  obtain ⟨he, hfl, -, hst2, hx⟩ := hs.uc hready
  have halloc : (s.flushIn i).alloc = false := by
    by_contra ha
    rcases h.owned.of_flushAlloc (by simpa using ha) with hf | hw
    · rw [hst2] at hf
      contradiction
    · rw [(h.fences.uc hready).2.2] at hw
      contradiction
  have hnone : s.miss.refilling = none := hx .refill
  simp [dataUnit, he, hnone, hfl, halloc, hready]

theorem dataUnit_of_req (h : s.Inv) (hu : (s.memIn i).uses .req = true) :
    s.dataUnit i = .request := by
  have hfacts : s.normal = true ∧ s.err.busy = false ∧ s.st2Busy = false ∧
      s.cmo.fsmQ.walks = false ∧ s.uc.ready = true := by
    rcases h.owned.active_of_req hu with hv | ⟨hg, hgr⟩
    · refine ⟨h.owned.st1_normal hv, ?_, h.owned.st1_st2 hv, h.owned.not_walks hv, ?_⟩
      · by_contra he
        rw [(h.owned.err (by simpa using he)).1] at hv
        contradiction
      · by_contra hr
        rw [(h.fences.uc (by simpa using hr)).2.1] at hv
        contradiction
    · refine ⟨hgr.normal, hgr.not_err, hgr.st2, hgr.walks, ?_⟩
      by_contra hr
      rw [Bool.not_eq_true] at hr
      have hbusy : s.ucBusy = true := by simp [ucBusy, hr]
      rcases hg with hg | hg | hg
      · rw [show s.ucBusy = false from hg.not_uc] at hbusy
        contradiction
      · obtain ⟨S, front, ht⟩ := h.tabled
        have hv := ht.valid_popTry hg.valid
        have hempty := (h.fences.uc hr).1
        simp only [Rtab.empty, Bool.not_eq_true', any_eq_false] at hempty
        rw [hempty] at hv
        contradiction
      · rw [show s.ucBusy = false from hg.not_uc] at hbusy
        contradiction
  obtain ⟨hn, he, hst2, hw, hready⟩ := hfacts
  obtain ⟨-, hrefill, hfl⟩ := normal_iff.1 hn
  simp only [st2Busy, Bool.or_eq_false_iff] at hst2
  have halloc : (s.flushIn i).alloc = false := by
    by_contra ha
    rcases h.owned.of_flushAlloc (by simpa using ha) with hf | hw'
    · rw [hst2.1.2] at hf
      contradiction
    · rw [hw] at hw'
      contradiction
  simp [dataUnit, he, MissHandler.refilling_eq_none hrefill, hfl, halloc, hready]

/-- Every access to the data RAM is one of the unit that has the port. -/
theorem dataUnit_of_uses (h : s.Inv) (ht : s.Tracked) (hs : s.Separate) {u : DataUser}
    (hu : (s.memIn i).uses u = true) : s.dataUnit i = u.unit := by
  cases u with
  | req => exact dataUnit_of_req h hu
  | amo => exact dataUnit_of_uncached h hs hu
  | refill =>
    obtain ⟨x, hx⟩ := MissHandler.refilling_of_writeData (m := s.miss) (i := s.missIn i) hu
    have herr : (s.err.busy && !s.err.wait) = false := by
      by_contra he
      simp only [Bool.not_eq_false, Bool.and_eq_true, Bool.not_eq_true'] at he
      have hb := MissHandler.refillBusy_of_refilling hx
      rw [h.owned.err_refill he.1 he.2] at hb
      contradiction
    simp [dataUnit, herr, hx, DataUser.unit]
  | flush => exact dataUnit_of_flush h.owned ht hs hu
  | errRead =>
    have he := ErrFsm.works_of_access (e := s.err) (i := s.errIn i) (by
      rw [show (s.err.comb (s.errIn i)).datRead = true from hu]
      simp)
    simp [dataUnit, he.1, he.2, DataUser.unit]
  | errWrite =>
    have he := ErrFsm.works_of_access (e := s.err) (i := s.errIn i) (by
      rw [show (s.err.comb (s.errIn i)).datWrite = true from hu]
      simp)
    simp [dataUnit, he.1, he.2, DataUser.unit]

/-- A unit makes one access to the data RAM. -/
theorem uses_inj {u v : DataUser} (hu : (s.memIn i).uses u = true)
    (hv : (s.memIn i).uses v = true) (huv : u.unit = v.unit) : u = v := by
  have he := (ErrFsm.one_access (e := s.err) (i := s.errIn i)).2
  cases u <;> cases v <;> first | rfl | exact absurd huv (by decide) | skip
  case errRead.errWrite => exact (not_both he hu hv).elim
  case errWrite.errRead => exact (not_both he hv hu).elim

/-! ## One access to each port -/

/-- In a cycle one user has each port of the RAMs, one request enters the pipeline, the MSHR does
one thing, and the flush controller is given one line. -/
structure OneUser (s : Cache c) (i : CacheIn c) : Prop where
  dir : ∀ u v, (s.memIn i).dirUses u = true → (s.memIn i).dirUses v = true → u = v
  data : ∀ u v, (s.memIn i).uses u = true → (s.memIn i).uses v = true → u = v
  refill : (s.pe i).refillReqReady = true →
    (s.pe i).coreReqReady = false ∧ (s.pe i).rtabReqReady = false
  rtab : (s.pe i).rtabReqReady = true → (s.pe i).coreReqReady = false
  mshr : (s.refill i).ack = true → (s.missIn i).alloc = false ∧ (s.missIn i).check = false
  flush : s.st2.flushAllocQ = true → s.cmoFlushAlloc i = none

theorem not_granted_of_refill (hr : (s.pe i).refillReqReady = true) :
    ¬ s.Granted i := by
  intro hg
  have hv : s.miss.refillReqValid = true := (refillReqReady_iff.1 hr).valid
  rw [hg.not_refill] at hv
  contradiction

/-- An acknowledge comes with the grant of the refill FSM. -/
theorem Owned.mshr_of_ack (h : s.Owned) (hk : (s.refill i).ack = true) :
    (s.missIn i).alloc = false ∧ (s.missIn i).check = false := by
  have hready : (s.pe i).refillReqReady = true := (MissHandler.ack_cases hk).2.2.1
  refine ⟨(refillReqReady_iff.1 hready).not_mshr, ?_⟩
  by_contra hc
  have hcheck : (s.pe i).st0ReqMshrCheck = true := by
    rw [Bool.not_eq_false] at hc
    exact hc
  exact not_granted_of_refill hready (h.granted_of_st0 (by rw [hcheck]; simp)).2

theorem Owned.cmoFlushAlloc_eq_none (h : s.Owned) (hw : s.cmo.fsmQ.walks = false) :
    s.cmoFlushAlloc i = none := by
  have hflushes : s.cmo.fsmQ.flushes = false := by
    by_contra hf
    rw [CmoFsm.walks_of_flushes (by simpa using hf)] at hw
    contradiction
  have hfifo : s.cmo.flushFifo = [] := by
    by_contra hne
    rw [(h.holds hne).2] at hflushes
    contradiction
  unfold cmoFlushAlloc Cmo.flushAlloc
  rw [Cmo.flushReqIn_eq_none hflushes, hfifo]
  simp [Fifo.rdata]

theorem Separate.oneUser (hs : s.Separate) (h : s.Inv) (ht : s.Tracked) : s.OneUser i where
  dir _ _ hu hv :=
    dirUses_inj hu hv ((dirUnit_of_uses h.owned ht hu).symm.trans (dirUnit_of_uses h.owned ht hv))
  data _ _ hu hv :=
    uses_inj hu hv ((dataUnit_of_uses h ht hs hu).symm.trans (dataUnit_of_uses h ht hs hv))
  refill hr := by
    constructor
    · by_contra hc
      rw [Bool.not_eq_false] at hc
      exact not_granted_of_refill hr (h.owned.granted (.inl (coreReqReady_iff.1 hc)))
    · by_contra hc
      rw [Bool.not_eq_false] at hc
      exact not_granted_of_refill hr (h.owned.granted (.inr (rtabReqReady_iff.1 hc)))
  rtab hr := by
    by_contra hc
    rw [Bool.not_eq_false] at hc
    have hv : s.rtab.popTryValid = true := (rtabReqReady_iff.1 hr).valid
    have hn : s.rtab.popTryValid = false := (coreReqReady_iff.1 hc).not_rtab
    rw [hv] at hn
    contradiction
  mshr := h.owned.mshr_of_ack
  flush hf := by
    apply h.owned.cmoFlushAlloc_eq_none
    have hb : s.st2Busy = true := by simp [st2Busy, hf]
    by_contra hw
    rw [(h.owned.walk (by simpa using hw)).2.1] at hb
    contradiction

theorem Separate.step (hs : s.Separate) (h : s.Inv) (ht : s.Tracked) (hr : s.Regular i)
    (hack : (s.refill i).ack = true →
      s.miss.mshr.validQ s.miss.head.rSet s.miss.head.rWay = true) : (s.step i).Separate where
  uc := hs.uc_step h hr hack
  refill := hs.refill_step h.owned ht
  recovery := hs.recovery_step h.owned
  st2 := Separate.st2_step h.owned

end Cache

/-! ## Runs -/

namespace MissMap

variable {s : MissMap c} {i : CacheIn c}

/-- The invariants of the cache and of its misses, and the units apart. -/
structure PortInv (s : MissMap c) : Prop extends Settled s where
  separate : s.cache.Separate

theorem PortInv.step (h : s.PortInv) (hs : s.Steady i) : (s.step i).PortInv where
  toSettled := h.toSettled.step hs
  separate :=
    h.separate.step h.walk.toInv h.walk.tracked hs.steady.regular h.map.valid_of_ack

/-- In every cycle after a steady run in which the memory answers each miss once, one user at most
has each port of the RAMs: no access is lost. One request enters the pipeline, the MSHR does one
thing, and the flush controller is given one line. -/
theorem exclusive_run (u : Cache c) (is : List (CacheIn c)) (i : CacheIn c)
    (hr : Along step Steady (start u) is) : (run step (start u) is).cache.OneUser i := by
  have hinv : (run step (start u) is).PortInv :=
    hr.invariant (⟨settled_start u, Cache.separate_reset u⟩ : (start u).PortInv) fun _ _ =>
      PortInv.step
  exact hinv.separate.oneUser hinv.walk.toInv hinv.walk.tracked

theorem exclusive_dirtyThenFlush :
    (run step (start (Cache.blank lowLatencyCfg)) dirtyThenFlush).cache.OneUser (.idle _) :=
  exclusive_run _ _ _ (by decide +kernel)

end MissMap

end Hpdcache
