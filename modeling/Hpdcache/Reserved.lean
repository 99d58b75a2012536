import Hpdcache.Misses

/-!
# Reserved ways

A way that is reserved for a miss has the fetch bit set in the directory until the refill writes its
line. While the bit is set on a valid line, the miss is in flight.

**Lookups.** A request in stage 1 decides on the directory entries of its set, read in the cycle of
its grant, and on the MSHR set checked in that cycle. The check is not made for a request that shows
as uncacheable at its grant.

* `Cache.Looked` — what stage 1 sees of the directory and of the MSHR.
* `Cache.Fetching` — the ways with the fetch bit set are those of the misses in flight.
* `Cache.Fetching.step` — a cycle keeps it.
-/

namespace Hpdcache

open Hw

variable {c : Cfg}

/-! ## The directory port -/

namespace MemCtrl

variable {m : MemCtrl c} {i : MemIn c} {set : Fin c.sets} {w : Fin c.ways}

/-- What the port writes, when it writes. -/
theorem dirCtrl_write (hw : (m.dirCtrl i).we w = true) :
    (m.initQ = false ∧ m.dirCtrl i = .write m.initSetQ allWays .zero) ∨
    (i.dirInvalWrite = true ∧
      m.dirCtrl i = .write i.dirInvalNline.set (m.hitWay i.dirInvalNline.tag) .zero) ∨
    (i.dirRefill = true ∧ m.dirCtrl i = .write i.dirRefillSet i.dirRefillWay i.dirRefillEntry) ∨
    (i.dirCmoUpdt = true ∧ m.dirCtrl i = .write i.dirCmoUpdtSet i.dirCmoUpdtWay i.dirCmoUpdtEntry) ∨
    (i.dirUpdt = true ∧ m.dirCtrl i = .write i.dirUpdtSet i.dirUpdtWay i.dirUpdtEntry) ∨
    (i.dirErrWrite = true ∧ m.dirCtrl i = .write i.dirErrSet i.dirErrWay i.dirErrWdata) := by
  generalize hport : m.dirCtrl i = p at hw ⊢
  unfold dirCtrl at hport
  by_cases h1 : (!m.initQ) = true
  · rw [if_pos h1] at hport
    exact .inl ⟨by simpa using h1, hport.symm⟩
  rw [if_neg h1] at hport
  by_cases h2 : i.dirMatch = true
  · rw [if_pos h2] at hport
    rw [← hport] at hw
    contradiction
  rw [if_neg h2] at hport
  by_cases h3 : i.dirRefill = true
  · rw [if_pos h3] at hport
    exact .inr (.inr (.inl ⟨h3, hport.symm⟩))
  rw [if_neg h3] at hport
  by_cases h4 : i.dirInvalCheck = true
  · rw [if_pos h4] at hport
    rw [← hport] at hw
    contradiction
  rw [if_neg h4] at hport
  by_cases h5 : i.dirInvalWrite = true
  · rw [if_pos h5] at hport
    exact .inr (.inl ⟨h5, hport.symm⟩)
  rw [if_neg h5] at hport
  by_cases h6 : i.dirCmoCheckNline = true
  · rw [if_pos h6] at hport
    rw [← hport] at hw
    contradiction
  rw [if_neg h6] at hport
  by_cases h7 : i.dirCmoCheckEntry = true
  · rw [if_pos h7] at hport
    rw [← hport] at hw
    contradiction
  rw [if_neg h7] at hport
  by_cases h8 : i.dirCmoUpdt = true
  · rw [if_pos h8] at hport
    exact .inr (.inr (.inr (.inl ⟨h8, hport.symm⟩)))
  rw [if_neg h8] at hport
  by_cases h9 : i.dirUpdt = true
  · rw [if_pos h9] at hport
    exact .inr (.inr (.inr (.inr (.inl ⟨h9, hport.symm⟩))))
  rw [if_neg h9] at hport
  by_cases h10 : (c.eccEn && i.dirErrRead) = true
  · rw [if_pos h10] at hport
    rw [← hport] at hw
    contradiction
  rw [if_neg h10] at hport
  by_cases h11 : i.dirErrWrite = true
  · rw [if_pos h11] at hport
    exact .inr (.inr (.inr (.inr (.inr ⟨h11, hport.symm⟩))))
  rw [if_neg h11] at hport
  rw [← hport] at hw
  contradiction

/-- A directory entry is left as it is, or written by one of the users of the port. -/
theorem dirRam_step (m : MemCtrl c) (i : MemIn c) (set : Fin c.sets) (w : Fin c.ways) :
    (m.step i).dirRam set w = m.dirRam set w ∨
      (m.initQ = false ∧ set = m.initSetQ ∧ (m.step i).dirRam set w = .zero) ∨
      (i.dirInvalWrite = true ∧ set = i.dirInvalNline.set ∧
        m.hitWay i.dirInvalNline.tag w = true ∧ (m.step i).dirRam set w = .zero) ∨
      (i.dirRefill = true ∧ set = i.dirRefillSet ∧ i.dirRefillWay w = true ∧
        (m.step i).dirRam set w = i.dirRefillEntry) ∨
      (i.dirCmoUpdt = true ∧ set = i.dirCmoUpdtSet ∧ i.dirCmoUpdtWay w = true ∧
        (m.step i).dirRam set w = i.dirCmoUpdtEntry) ∨
      (i.dirUpdt = true ∧ set = i.dirUpdtSet ∧ i.dirUpdtWay w = true ∧
        (m.step i).dirRam set w = i.dirUpdtEntry) ∨
      (i.dirErrWrite = true ∧ set = i.dirErrSet ∧ i.dirErrWay w = true ∧
        (m.step i).dirRam set w = i.dirErrWdata) := by
  have he : (m.step i).dirRam set w = if (m.dirCtrl i).addr = set ∧ (m.dirCtrl i).cs w = true ∧
    (m.dirCtrl i).we w = true then (m.dirCtrl i).wentry else m.dirRam set w := rfl
  by_cases hp : (m.dirCtrl i).addr = set ∧ (m.dirCtrl i).cs w = true ∧ (m.dirCtrl i).we w = true
  · rw [if_pos hp] at he
    rw [he]
    right
    obtain ⟨hset, -, hwe⟩ := hp
    rcases dirCtrl_write hwe with ⟨hr, hc⟩ | ⟨hr, hc⟩ | ⟨hr, hc⟩ | ⟨hr, hc⟩ | ⟨hr, hc⟩ | ⟨hr, hc⟩ <;>
      rw [hc] at hset hwe ⊢
    · exact .inl ⟨hr, hset.symm, rfl⟩
    · exact .inr (.inl ⟨hr, hset.symm, hwe, rfl⟩)
    · exact .inr (.inr (.inl ⟨hr, hset.symm, hwe, rfl⟩))
    · exact .inr (.inr (.inr (.inl ⟨hr, hset.symm, hwe, rfl⟩)))
    · exact .inr (.inr (.inr (.inr (.inl ⟨hr, hset.symm, hwe, rfl⟩))))
    · exact .inr (.inr (.inr (.inr (.inr ⟨hr, hset.symm, hwe, rfl⟩))))
  · rw [if_neg hp] at he
    exact .inl he

/-- The initialisation has the port until it has cleared every set. -/
theorem dirRam_init (hn : m.initQ = false) :
    (m.step i).dirRam set w = if set = m.initSetQ then .zero else m.dirRam set w := by
  by_cases hs : set = m.initSetQ
  · simp [step, dirCtrl, hn, DirPort.write, allWays, hs]
  · simp [step, dirCtrl, hn, DirPort.write, allWays, hs, Ne.symm hs]

/-- An entry that is initialised is clear, or was initialised and is left as it is, or is written by
one of the users of the port. -/
theorem dirRam_cases (hinit : (m.step i).initQ = true ∨ set.val < (m.step i).initSetQ.val) :
    (m.step i).dirRam set w = .zero ∨
      ((m.initQ = true ∨ set.val < m.initSetQ.val) ∧
        (m.step i).dirRam set w = m.dirRam set w) ∨
      m.initQ = true ∧
        ((i.dirRefill = true ∧ set = i.dirRefillSet ∧ i.dirRefillWay w = true ∧
            (m.step i).dirRam set w = i.dirRefillEntry) ∨
          (i.dirCmoUpdt = true ∧ set = i.dirCmoUpdtSet ∧ i.dirCmoUpdtWay w = true ∧
            (m.step i).dirRam set w = i.dirCmoUpdtEntry) ∨
          (i.dirUpdt = true ∧ set = i.dirUpdtSet ∧ i.dirUpdtWay w = true ∧
            (m.step i).dirRam set w = i.dirUpdtEntry) ∨
          (i.dirErrWrite = true ∧ set = i.dirErrSet ∧ i.dirErrWay w = true ∧
            (m.step i).dirRam set w = i.dirErrWdata)) := by
  cases hn : m.initQ with
  | false =>
    have hram : (m.step i).dirRam set w =
      if set = m.initSetQ then .zero else m.dirRam set w := dirRam_init hn
    by_cases hs : set = m.initSetQ
    · rw [if_pos hs] at hram
      exact .inl hram
    · rw [if_neg hs] at hram
      refine .inr (.inl ⟨.inr ?_, hram⟩)
      have hlt := set.isLt
      have hne : set.val ≠ m.initSetQ.val := fun heq => hs (Fin.ext heq)
      simp only [step, hn, Bool.false_or, decide_eq_true_eq, Bool.false_eq_true, if_false] at hinit
      rcases hinit with hinit | hinit
      · omega
      · have := Nat.mod_le (m.initSetQ.val + 1) c.sets
        omega
  | true =>
    rcases dirRam_step m i set w with heq | ⟨-, -, heq⟩ | ⟨-, -, -, heq⟩ | hr | hu | hu | he
    · exact .inr (.inl ⟨.inl rfl, heq⟩)
    · exact .inl heq
    · exact .inl heq
    · exact .inr (.inr ⟨rfl, .inl hr⟩)
    · exact .inr (.inr ⟨rfl, .inr (.inl hu)⟩)
    · exact .inr (.inr ⟨rfl, .inr (.inr (.inl hu))⟩)
    · exact .inr (.inr ⟨rfl, .inr (.inr (.inr he))⟩)

theorem dirRam_refill (hn : m.initQ = true) (hm : i.dirMatch = false) (hr : i.dirRefill = true)
    (hw : i.dirRefillWay w = true) : (m.step i).dirRam i.dirRefillSet w = i.dirRefillEntry := by
  simp [step, dirCtrl, hn, hm, hr, hw, DirPort.write]

/-- A lookup reads all the ways of the set, and nothing is written. -/
theorem dirRentry_match (hn : m.initQ = true) (hm : i.dirMatch = true) :
    (m.step i).dirRentry w = m.dirRam i.dirMatchSet w ∧
      (m.step i).dirRam set w = m.dirRam set w := by
  simp [step, dirCtrl, hn, hm, DirPort.read, allWays]

end MemCtrl

/-! ## Lookups -/

/-- The requests that are looked up: all but those of the CMO handler. -/
theorem ReqOp.lookup_of_not_walk {op : ReqOp} (h : op.isCmoWalk = false) :
    (op.isLoad || op.isCmoPrefetch || op.isStore || op.isAmo) = true := by
  cases op <;> first | rfl | contradiction

theorem ReqOp.not_amo_of_store {op : ReqOp} (h : op.isStore = true) : op.isAmo = false := by
  cases op <;> first | rfl | contradiction

namespace Cache

variable {s : Cache c} {i : CacheIn c} {set : Fin c.sets} {w : Fin c.ways}

/-- What stage 1 sees of the directory and of the MSHR. -/
structure Looked (s : Cache c) : Prop where
  dir : s.st1.reqValidQ = true → s.st1.reqQ.isError = false →
    s.st1.reqQ.req.op.isCmoWalk = false →
    ∀ w, s.mem.dirRentry w = s.mem.dirRam s.st1.reqQ.req.addrSet w
  mshr : s.st1.reqValidQ = true → s.st1.reqQ.isError = false →
    s.st1.reqQ.req.op.isCmoWalk = false → s.st1.reqQ.req.pma.uncacheable = false →
    s.miss.mshr.checkCacheSetQ = s.st1.reqQ.req.addrSet

theorem looked_reset (s : Cache c) : s.reset.Looked := ⟨nofun, nofun⟩

/-- The lookups of a request that enters stage 1. -/
theorem Owned.lookups (h : s.Owned) (hv : (s.step i).st1.reqValidQ = true)
    (hscrub : (s.step i).st1.reqQ.errScrubbing = false)
    (he : (s.step i).st1.reqQ.isError = false)
    (hop : (s.step i).st1.reqQ.req.op.isCmoWalk = false) :
    (s.pe i).st0ReqCachedirRead = true ∧
      (s.pe i).st0ReqMshrCheck = !(s.st0Req i).req.pma.uncacheable := by
  have hreq := (h.reqQ_step hv).1
  rw [hreq] at hscrub he hop
  have hg := h.enter hv
  have hn := (h.granted hg).normal
  have hready : ((hpdcacheCtrlPe c (s.peIn i)).coreReqReady ||
      (hpdcacheCtrlPe c (s.peIn i)).rtabReqReady) = true := by
    rw [Bool.or_eq_true]
    exact hg.imp coreReqReady_iff.2 rtabReqReady_iff.2
  have hlookup : ((s.peIn i).st0ReqIsLoad || (s.peIn i).st0ReqIsCmoPrefetch ||
      (s.peIn i).st0ReqIsStore || (s.peIn i).st0ReqIsAmo) = true := by
    have hl := ReqOp.lookup_of_not_walk hop
    simpa [peIn, hscrub] using hl
  have hnoerr : (s.peIn i).st0ReqIsError = false := he
  have hunc : (s.peIn i).st0ReqIsUncacheable = (s.st0Req i).req.pma.uncacheable := rfl
  unfold pe
  rw [hpdcacheCtrlPe_normal (i := s.peIn i) hn] at hready ⊢
  simp only [newRequest] at hready ⊢
  have hgrant : ∀ a b d : Bool, (a || b) = true → (a || b || d) = true := by decide
  rw [hlookup, hnoerr, hunc, hgrant _ _ _ hready]
  simp

theorem Looked.step (h : s.Owned)
    (hscrub : (s.step i).st1.reqValidQ = true → (s.step i).st1.reqQ.errScrubbing = false) :
    (s.step i).Looked := by
  constructor
  · intro hv he hop w
    obtain ⟨hread, -⟩ := h.lookups hv (hscrub hv) he hop
    have hn := (normal_iff.1 (h.granted (h.enter hv)).normal).1
    rw [(h.reqQ_step hv).1]
    obtain ⟨hrentry, hram⟩ : (s.mem.step (s.memIn i)).dirRentry w =
        s.mem.dirRam (s.memIn i).dirMatchSet w ∧
        (s.mem.step (s.memIn i)).dirRam (s.st0Req i).req.addrSet w =
          s.mem.dirRam (s.st0Req i).req.addrSet w :=
      MemCtrl.dirRentry_match hn hread
    exact hrentry.trans hram.symm
  · intro hv he hop hunc
    obtain ⟨-, hcheck⟩ := h.lookups hv (hscrub hv) he hop
    have hreq := (h.reqQ_step hv).1
    have hst2 := (h.granted (h.enter hv)).st2
    simp only [st2Busy, Bool.or_eq_false_iff] at hst2
    rw [hreq] at hunc ⊢
    rw [hunc] at hcheck
    have hstep : (s.step i).miss.mshr.checkCacheSetQ =
      if (s.pe i).st0ReqMshrCheck && !(s.miss.allocReady && s.st2.mshrAllocQ) then
        (s.st0Req i).req.addrSet else s.miss.mshr.checkCacheSetQ := rfl
    rw [hstep, hcheck, hst2.1.1]
    simp

/-! ## Room for a miss -/

/-- What a request that starts a miss has found. -/
structure Misses (s : Cache c) (i : CacheIn c) : Prop where
  sound : (s.peIn i).Sound c
  not_amo : (s.st1Req i).req.op.isAmo = false
  miss : s.st1DirHit i = false
  ready : s.miss.allocReady = true
  not_full : s.miss.mshr.allocFull = false
  victim : any (s.st1VictimWay i) = true
  flush : s.mem.flag (s.st1VictimWay i) DirEntry.dirty = true → s.flushAllocReady = true

theorem loadMissDeps_eq_none {i : PeIn} (h : loadMissDeps i = none) :
    i.st1MshrHit = false ∧ i.st1MshrFull = false ∧ i.st1DirVictimUnavailable = false ∧
      i.wbufReadHit = false ∧ i.st1MshrAllocReady = true ∧ i.st1FlushCheckHit = false ∧
        (i.st1DirVictimDirty = true → i.st1FlushAllocReady = true) := by
  unfold loadMissDeps at h
  split_ifs at h
  simp_all

theorem storeMissWbDeps_eq_none {i : PeIn} (h : storeMissWbDeps i = none) :
    i.st1MshrAllocReady = true ∧ i.st1MshrFull = false ∧ i.wbufReadHit = false ∧
      i.st1DirVictimUnavailable = false ∧
        (i.st1DirVictimDirty = true → i.st1FlushAllocReady = true) := by
  unfold storeMissWbDeps at h
  split_ifs at h
  simp_all

theorem misses_of_dec (h : (s.dec i).misses = true) : s.Misses i := by
  have hg := dec_guard (s := s) (i := i)
  cases hd : s.dec i <;> rw [hd] at h <;> try contradiction
  · rw [hd] at hg
    obtain ⟨hs, -, hamo, hmiss, hdeps⟩ := hg
    obtain ⟨-, h2, h3, -, h5, -, h7⟩ := loadMissDeps_eq_none hdeps
    exact ⟨hs, hamo, hmiss, h5, h2, by simpa [peIn] using h3, h7⟩
  · rw [hd] at hg
    obtain ⟨hs, hmiss, -, hdeps, -⟩ := hg
    obtain ⟨h1, h2, -, h4, h5⟩ := storeMissWbDeps_eq_none hdeps
    exact ⟨hs.toSound, ReqOp.not_amo_of_store hs.store, hmiss, h1, h2, by simpa [peIn] using h4, h5⟩
  · rw [hd] at hg
    obtain ⟨hs, hmiss, -, hdeps, -⟩ := hg
    obtain ⟨h1, h2, -, h4, h5⟩ := storeMissWbDeps_eq_none hdeps
    exact ⟨hs.toSound, ReqOp.not_amo_of_store hs.store, hmiss, h1, h2, by simpa [peIn] using h4, h5⟩

/-- The requester showed an attribute with a virtually indexed request that the one given in the
next cycle contradicts: the request is looked up in the MSHR as if it were uncacheable. -/
def lateLookup (s : Cache c) (i : CacheIn c) : Bool :=
  s.st1.reqValidQ && !s.st1.reqQ.fromRtab && !s.st1ReqAbort i &&
    !s.st1.reqQ.req.op.isCmoWalk && !s.st1.reqQ.req.op.isAmo &&
    s.st1.reqQ.req.pma.uncacheable && !s.st1ReqIsUncacheable i

theorem st1Req_isError : (s.st1Req i).isError = s.st1.reqQ.isError := by
  unfold st1Req
  split_ifs <;> rfl

theorem st1Req_op : (s.st1Req i).req.op = s.st1.reqQ.req.op := by
  unfold st1Req
  split_ifs <;> rfl

theorem st1Req_set : (s.st1Req i).req.addrSet = s.st1.reqQ.req.addrSet := by
  unfold st1Req
  split_ifs <;> rfl

theorem st1Nline_set : (s.st1Nline i).set = s.st1.reqQ.req.addrSet := st1Req_set

/-- A cacheable request in stage 1 showed as cacheable at its grant. -/
theorem uncacheable_eq_false (hlate : s.lateLookup i = false) (hs : (s.peIn i).Cacheable)
    (hamo : (s.st1Req i).req.op.isAmo = false) : s.st1.reqQ.req.pma.uncacheable = false := by
  have hv : s.st1.reqValidQ = true := hs.valid
  have hwalk : s.st1.reqQ.req.op.isCmoWalk = false := by
    rw [← st1Req_op (i := i)]
    exact hs.not_cmo
  have hunc : s.st1ReqIsUncacheable i = false := hs.cacheable
  rw [st1Req_op] at hamo
  cases hr : s.st1.reqQ.fromRtab with
  | true =>
    simp only [st1ReqIsUncacheable, st1Req, hr, if_true, Bool.or_eq_false_iff] at hunc
    exact hunc.2
  | false =>
    have habort : s.st1ReqAbort i = false := by
      cases ha : s.st1ReqAbort i with
      | false => rfl
      | true =>
        have hrtab := hs.not_aborted ha
        rw [peIn_rtab, hr] at hrtab
        contradiction
    simpa [lateLookup, hv, hr, habort, hwalk, hamo, hunc] using hlate

/-- The request has checked the MSHR set of its line. -/
theorem Looked.checkCacheSetQ_eq (h : s.Looked) (hlate : s.lateLookup i = false)
    (hs : (s.peIn i).Cacheable) (hamo : (s.st1Req i).req.op.isAmo = false) :
    s.miss.mshr.checkCacheSetQ = s.st1.reqQ.req.addrSet := by
  have he : s.st1.reqQ.isError = false := by
    rw [← st1Req_isError (i := i)]
    exact hs.not_error
  have hwalk : s.st1.reqQ.req.op.isCmoWalk = false := by
    rw [← st1Req_op (i := i)]
    exact hs.not_cmo
  exact h.mshr hs.valid he hwalk (uncacheable_eq_false hlate hs hamo)

theorem Roomy.step (h : s.Owned) (hl : s.Looked) (hlate : s.lateLookup i = false) :
    (s.step i).Roomy := by
  intro ha
  have hstep : (s.step i).st2.mshrAllocQ = (s.pe i).st2MshrAlloc.alloc := rfl
  have hpe := (h.pe_agrees (i := i)).mshrAlloc
  rw [hstep, hpe, Decision.mshrAlloc_alloc] at ha
  have hm := misses_of_dec ha
  have hst2 := h.st1_st2 hm.sound.valid
  simp only [st2Busy, Bool.or_eq_false_iff] at hst2
  have hfsm : s.miss.reqFsmQ = .idle := by simpa [MissHandler.allocReady] using hm.ready
  constructor
  · have hstep : (s.step i).miss.reqFsmQ = s.miss.reqFsmD (s.missIn i) := rfl
    simp [MissHandler.allocReady, hstep, MissHandler.reqFsmD, hfsm, missIn, hst2.1.1]
  · have hset := hl.checkCacheSetQ_eq hlate hm.sound.toCacheable hm.not_amo
    have hfull := hm.not_full
    simp only [Mshr.allocFull, Bool.not_eq_false', any_eq_true, Bool.not_eq_true'] at hfull
    obtain ⟨w, hw⟩ := hfull
    refine ⟨w, ?_⟩
    have hnline : (s.step i).st2.mshrAllocNlineQ = s.st1Nline i := by
      have hstep : (s.step i).st2.mshrAllocNlineQ =
        if (s.pe i).st2MshrAlloc.alloc then s.st1Nline i else s.st2.mshrAllocNlineQ := rfl
      rw [hstep, hpe, Decision.mshrAlloc_alloc, if_pos ha]
    have hsetOf : Mshr.setOf (s.step i).st2.mshrAllocNlineQ =
        mshrSetOf c s.miss.mshr.checkCacheSetQ := by
      rw [hnline, Mshr.setOf, st1Nline_set, hset]
    have hvalid : (s.step i).miss.mshr.validQ = (s.miss.mshr.step (s.miss.mshrIn (s.missIn i))).validQ :=
      rfl
    rw [hsetOf, hvalid]
    simp [Mshr.step, MissHandler.mshrIn, missIn, hst2.1.1, hw]

end Cache

/-! ## The recovery FSM -/

namespace ErrFsm

variable {e : ErrFsm c} {i : ErrIn c}

theorem oneHot_wayNext (h : OneHot e.wayQ) : OneHot e.wayNext := by
  unfold wayNext
  split_ifs with h1
  · intro a b _ _
    have := a.isLt
    have := b.isLt
    exact Fin.ext (by omega)
  · intro a b ha hb
    simp only [decide_eq_true_eq] at ha hb
    obtain ⟨v, hv, hvq⟩ := ha
    obtain ⟨v', hv', hvq'⟩ := hb
    have := h v v' hvq hvq'
    subst this
    exact Fin.ext (by omega)

theorem oneHot_first : OneHot (fun w : Fin c.ways => decide (w.val = 0)) := by
  intro a b ha hb
  simp only [decide_eq_true_eq] at ha hb
  exact Fin.ext (ha.trans hb.symm)

/-- The recovery looks at one way at a time. -/
theorem oneHot_step (h : OneHot e.wayQ) : OneHot (e.step i).wayQ := by
  unfold step
  by_cases hecc : c.eccEn = true
  · rw [if_pos hecc]
    simp only [comb, hecc, if_true]
    cases e.fsmQ with
    | idle =>
      dsimp only
      split_ifs
      · exact oneHot_first
      · exact h
    | check =>
      simp only [combCheck, default]
      split_ifs
      · exact h
      · exact h
      · exact h
      · exact oneHot_wayNext h
    | waitMshr => exact h
    | inval =>
      simp only [next, default]
      split_ifs
      · exact h
      · exact oneHot_wayNext h
    | latch => exact h
    | correct =>
      simp only [next, default]
      split_ifs
      · exact h
      · exact oneHot_wayNext h
  · rw [if_neg hecc]
    exact h

theorem next_fsmD (o : ErrOut c) :
    (e.next o).fsmD = .check ∨ (e.next o).fsmD = .waitMshr ∨ (e.next o).fsmD = .idle := by
  unfold next last
  split_ifs <;> simp

/-- What the recovery corrects is read in the cycle before. -/
theorem latch_step (hecc : c.eccEn = true) (h : (e.step i).fsmQ = .latch) :
    e.fsmQ = .check ∧ (e.step i).wayQ = e.wayQ ∧ (e.step i).setQ = e.setQ ∧
      (e.step i).dirCorQ = e.dirCorQ ∧ (e.comb i).dirRead = e.msk e.dirCorQ := by
  have hcomb : (e.step i).fsmQ = (e.comb i).fsmD := by simp [step, hecc]
  rw [hcomb] at h
  cases hf : e.fsmQ with
  | check =>
    have hbusy : e.busy = true := by simp [busy, hecc, hf]
    simp only [comb, hecc, hf, if_true, combCheck, default] at h
    split_ifs at h with h1 h2 h3
    · refine ⟨rfl, ?_, ?_, ?_, ?_⟩
      · simp [step, comb, hecc, hf, combCheck, default, h1, h2]
      · simp [step, hecc, hbusy]
      · simp [step, hecc, hbusy]
      · simp [comb, hecc, hf, combCheck, default, h1, h2]
    · exfalso
      simp only [last] at h
      split_ifs at h
  | idle =>
    simp only [comb, hecc, hf, if_true, default] at h
    split_ifs at h
  | waitMshr =>
    simp only [comb, hecc, hf, if_true] at h
    split_ifs at h
  | inval =>
    simp only [comb, hecc, hf, if_true] at h
    rcases next_fsmD (e := e) { e.default with dirWrite := true, datWrite := e.msk e.datUncQ }
      with h' | h' | h' <;> rw [h] at h' <;> contradiction
  | latch => simp [comb, hecc, hf] at h
  | correct =>
    simp only [comb, hecc, hf, if_true] at h
    rcases next_fsmD (e := e) { e.default with
      dirWrite := e.msk e.dirCorQ, dirWdata := e.dirRdataQ, datWrite := e.msk e.datCorQ,
      datWdata := e.datRdataQ } with h' | h' | h' <;> rw [h] at h' <;> contradiction

theorem correct_step (hecc : c.eccEn = true) (h : (e.step i).fsmQ = .correct) :
    e.fsmQ = .latch ∧ (e.step i).wayQ = e.wayQ ∧ (e.step i).setQ = e.setQ ∧
      (e.step i).dirCorQ = e.dirCorQ ∧
      (e.msk e.dirCorQ = true → (e.step i).dirRdataQ = i.dirRdata) := by
  have hcomb : (e.step i).fsmQ = (e.comb i).fsmD := by simp [step, hecc]
  rw [hcomb] at h
  cases hf : e.fsmQ with
  | latch =>
    have hbusy : e.busy = true := by simp [busy, hecc, hf]
    refine ⟨rfl, ?_, ?_, ?_, fun hm => ?_⟩
    · simp [step, comb, hecc, hf, default]
    · simp [step, hecc, hbusy]
    · simp [step, hecc, hbusy]
    · simp [step, comb, hecc, hf, hm]
  | check =>
    simp only [comb, hecc, hf, if_true, combCheck, default, last] at h
    split_ifs at h
  | idle =>
    simp only [comb, hecc, hf, if_true, default] at h
    split_ifs at h
  | waitMshr =>
    simp only [comb, hecc, hf, if_true] at h
    split_ifs at h
  | inval =>
    simp only [comb, hecc, hf, if_true] at h
    rcases next_fsmD (e := e) { e.default with dirWrite := true, datWrite := e.msk e.datUncQ }
      with h' | h' | h' <;> rw [h] at h' <;> contradiction
  | correct =>
    simp only [comb, hecc, hf, if_true] at h
    rcases next_fsmD (e := e) { e.default with
      dirWrite := e.msk e.dirCorQ, dirWdata := e.dirRdataQ, datWrite := e.msk e.datCorQ,
      datWdata := e.datRdataQ } with h' | h' | h' <;> rw [h] at h' <;> contradiction

/-- The recovery clears an entry or writes back the one it has corrected. -/
theorem dirWrite_cases (h : (e.comb i).dirWrite = true) : c.eccEn = true ∧
    ((e.fsmQ = .inval ∧ (e.comb i).dirWdata = .zero) ∨
      (e.fsmQ = .correct ∧ e.msk e.dirCorQ = true ∧ (e.comb i).dirWdata = e.dirRdataQ)) := by
  by_cases hecc : c.eccEn = true
  · refine ⟨hecc, ?_⟩
    cases hf : e.fsmQ with
    | inval =>
      left
      refine ⟨rfl, ?_⟩
      simp only [comb, hecc, hf, if_true, next, default]
      split_ifs <;> rfl
    | correct =>
      right
      have hboth : (e.comb i).dirWrite = e.msk e.dirCorQ ∧ (e.comb i).dirWdata = e.dirRdataQ := by
        simp only [comb, hecc, hf, if_true, next, default]
        split_ifs <;> exact ⟨rfl, rfl⟩
      rw [hboth.1] at h
      exact ⟨rfl, h, hboth.2⟩
    | idle =>
      simp only [comb, hecc, hf, if_true, default] at h
      split_ifs at h
    | check =>
      simp only [comb, hecc, hf, if_true, combCheck, default] at h
      split_ifs at h
    | waitMshr => simp [comb, hecc, hf, default] at h
    | latch => simp [comb, hecc, hf, default] at h
  · simp [comb, hecc, default] at h

end ErrFsm

/-! ## Reserved ways -/

/-- The line can be hit, and its way is reserved. -/
def DirEntry.waits (e : DirEntry) : Bool := e.valid && e.fetch

/-- A CMO never sets the fetch bit. -/
theorem Cmo.dirUpdtEntry_fetch (m : Cmo c) (i : CmoIn c) :
    (m.comb i).dirUpdtEntry.fetch = false := by
  unfold comb
  cases m.fsmQ with
  | idle =>
    simp only [combIdle, Cmo.default]
    split_ifs <;> rfl
  | fenceWaitWbufRtabEmpty =>
    simp only [combFenceWait, Cmo.default, done]
    split_ifs <;> rfl
  | waitMshrRtabEmpty =>
    simp only [combWaitMshr, combStart, Cmo.default, done]
    cases m.opQ <;> simp only [] <;> split_ifs <;> rfl
  | invalCheckNline => rfl
  | invalSet =>
    simp only [combInvalSet, Cmo.default, done]
    cases m.opQ <;> simp only [] <;> (try split_ifs) <;> rfl
  | flushAllFirst =>
    simp only [combFlushAllFirst, Cmo.default, done, checkEntry]
    split_ifs <;> rfl
  | flushAllNext =>
    simp only [combFlushAllNext, Cmo.default, updtEntry, checkEntry]
    split_ifs <;> rfl
  | flushAllLast =>
    simp only [combFlushAllLast, Cmo.default, updtEntry, done]
    split_ifs <;> rfl
  | flushNlineFirst =>
    simp only [combFlushNlineFirst, Cmo.default, done]
    split_ifs <;> rfl
  | flushNlineNext =>
    simp only [combFlushNlineNext, Cmo.default, done]
    split_ifs <;> rfl

/-- The handler uses the directory in a walk only. -/
theorem Cmo.comb_quiet {m : Cmo c} {i : CmoIn c} (h : m.fsmQ.walks = false) :
    (m.comb i).dirCheckNline = false ∧ (m.comb i).dirCheckEntry = false ∧
      (m.comb i).dirUpdt = false := by
  unfold comb
  cases hf : m.fsmQ <;> rw [hf] at h <;> try contradiction
  · simp only [combIdle, Cmo.default]
    split_ifs <;> exact ⟨rfl, rfl, rfl⟩
  · simp only [combFenceWait, Cmo.default, done]
    split_ifs <;> exact ⟨rfl, rfl, rfl⟩
  · simp only [combWaitMshr, combStart, Cmo.default, done]
    cases m.opQ <;> simp only [] <;> split_ifs <;> exact ⟨rfl, rfl, rfl⟩

namespace MissHandler

variable {m : MissHandler c} {i : MissIn c}

/-- The refill FSM uses the directory when it has the pipeline. -/
theorem comb_quiet (hb : m.refillBusy = false) (hr : i.refillReqReady = false) :
    (m.refillComb i).writeDir = false ∧ (m.refillComb i).invalCheckDir = false ∧
      (m.refillComb i).invalWriteDir = false := by
  have hf : m.refillFsmQ = .idle := by simpa [refillBusy] using hb
  simp only [refillComb, hf, refillIdle, refillDefault, hr, Bool.false_eq_true, if_false]
  split_ifs <;> simp

theorem refillBusy_of_writeDir (h : (m.refillComb i).writeDir = true) : m.refillBusy = true := by
  by_contra hb
  have hf : m.refillFsmQ = .idle := by simpa [refillBusy] using hb
  simp only [refillComb, hf, refillIdle, refillDefault] at h
  split_ifs at h

end MissHandler

namespace MemCtrl

variable {m : MemCtrl c} {i : MemIn c} {set : Fin c.sets} {w : Fin c.ways}

/-- The recovery reads an entry when nothing else uses the port. -/
theorem dirRentry_err (hn : m.initQ = true) (h1 : i.dirMatch = false) (h2 : i.dirRefill = false)
    (h3 : i.dirInvalCheck = false) (h4 : i.dirInvalWrite = false) (h5 : i.dirCmoCheckNline = false)
    (h6 : i.dirCmoCheckEntry = false) (h7 : i.dirCmoUpdt = false) (h8 : i.dirUpdt = false)
    (hecc : c.eccEn = true) (hr : i.dirErrRead = true) :
    (m.step i).dirErrWayQ = i.dirErrWay ∧
      (i.dirErrWay w = true → (m.step i).dirRentry w = m.dirRam i.dirErrSet w) ∧
      (m.step i).dirRam set w = m.dirRam set w := by
  have hport : m.dirCtrl i = .read i.dirErrSet i.dirErrWay := by
    simp [dirCtrl, hn, h1, h2, h3, h4, h5, h6, h7, h8, hecc, hr]
  refine ⟨by simp [step, hecc, hr], fun hw => ?_, ?_⟩
  · simp [step, hport, DirPort.read, hw]
  · simp [step, hport, DirPort.read]

end MemCtrl

namespace Cache

variable {s : Cache c} {i : CacheIn c} {set : Fin c.sets} {w : Fin c.ways}

/-- A miss in flight goes to the way. -/
def Reserves (s : Cache c) (set : Fin c.sets) (w : Fin c.ways) : Prop :=
  ∃ k x, s.missAt k = some x ∧ x.nline.set = set ∧ x.way = w

/-- The ways with the fetch bit set on a valid line are those of the misses in flight. -/
structure Fetching (s : Cache c) : Prop where
  ram : ∀ set w, s.mem.initQ = true ∨ set.val < s.mem.initSetQ.val →
    (s.mem.dirRam set w).waits = true → s.Reserves set w
  updt : s.st2.dirUpdtQ.updt = true → s.st2.dirUpdtQ.valid = true → s.st2.dirUpdtQ.fetch = true →
    ∀ w, s.st2.dirUpdtWayQ w = true → s.Reserves s.st2.dirUpdtSetQ w
  errWay : OneHot s.err.wayQ
  latch : c.eccEn = true → s.err.fsmQ = .latch → s.err.msk s.err.dirCorQ = true →
    s.mem.dirErrWayQ = s.err.wayQ ∧
      ∀ w, s.err.wayQ w = true → s.mem.dirRentry w = s.mem.dirRam s.err.setQ w
  correct : c.eccEn = true → s.err.fsmQ = .correct → s.err.msk s.err.dirCorQ = true →
    s.err.dirRdataQ.waits = true → ∀ w, s.err.wayQ w = true → s.Reserves s.err.setQ w

theorem Owned.reserves_step (h : s.Owned) (hroom : s.Roomy) (hr : s.Reserves set w) :
    (s.step i).Reserves set w ∨
      ((s.refill i).writeDir = true ∧ (s.refill i).set = set ∧ (s.refill i).way = w) := by
  obtain ⟨k, x, hk, rfl, rfl⟩ := hr
  rcases h.missAt_step (i := i) hroom hk with ⟨k', hk'⟩ | ⟨h1, -, -, h2, h3⟩
  · exact .inl ⟨k', x, hk', rfl, rfl⟩
  · exact .inr ⟨h1, h2, h3⟩

theorem Owned.reserves_step_of_not_busy (h : s.Owned) (hroom : s.Roomy)
    (hb : s.miss.refillBusy = false) (hr : s.Reserves set w) : (s.step i).Reserves set w := by
  refine (h.reserves_step hroom hr).resolve_right fun hw => ?_
  rw [MissHandler.refillBusy_of_writeDir hw.1] at hb
  contradiction

/-- Nothing is looked up outside of normal operation. -/
theorem st0ReqCachedirRead_eq_false (hn : s.normal = false ∨ s.err.busy = true) :
    (s.pe i).st0ReqCachedirRead = false := by
  cases hnorm : (s.peIn i).normal with
  | false =>
    obtain ⟨evt, he⟩ := hpdcacheCtrlPe_not_normal (c := c) hnorm
    unfold pe
    rw [he]
    rfl
  | true =>
    have hb : (s.peIn i).errBusy = true := by
      rcases hn with hn | hn
      · rw [show s.normal = true from hnorm] at hn
        contradiction
      · exact hn
    unfold pe
    rw [hpdcacheCtrlPe_normal hnorm]
    simp [newRequest, hb]

/-- The entry that a refill writes is free for the next miss. -/
theorem Owned.dirRam_refill (h : s.Owned) (hw : (s.refill i).writeDir = true) :
    ((s.step i).mem.dirRam (s.refill i).set (s.refill i).way).waits = false := by
  have hb := MissHandler.refillBusy_of_writeDir hw
  have hn : s.normal = false := by simp [normal, hb]
  have hstep : (s.step i).mem = s.mem.step (s.memIn i) := rfl
  have hwrite := MemCtrl.dirRam_refill (m := s.mem) (i := s.memIn i) (w := (s.refill i).way)
    (h.refill_init hb) (st0ReqCachedirRead_eq_false (.inl hn)) hw
    (by simp [memIn, MissHandler.refillWay, hb])
  rw [hstep, show (s.mem.step (s.memIn i)).dirRam (s.refill i).set (s.refill i).way = _ from hwrite]
  simp [DirEntry.waits, memIn, MissHandler.refillDirEntry]

theorem Fetching.ram_step (h : s.Owned) (hroom : s.Roomy) (hf : s.Fetching)
    (hinit : (s.step i).mem.initQ = true ∨ set.val < (s.step i).mem.initSetQ.val)
    (hwaits : ((s.step i).mem.dirRam set w).waits = true) : (s.step i).Reserves set w := by
  have hold : s.mem.initQ = true ∨ set.val < s.mem.initSetQ.val →
      (s.step i).mem.dirRam set w = s.mem.dirRam set w → (s.step i).Reserves set w := by
    intro hi heq
    rw [heq] at hwaits
    refine (h.reserves_step hroom (hf.ram set w hi hwaits)).resolve_right ?_
    rintro ⟨hwr, rfl, rfl⟩
    rw [← heq, h.dirRam_refill hwr] at hwaits
    contradiction
  cases hn : s.mem.initQ with
  | false =>
    have hram : (s.step i).mem.dirRam set w =
      if set = s.mem.initSetQ then .zero else s.mem.dirRam set w := MemCtrl.dirRam_init hn
    by_cases hs : set = s.mem.initSetQ
    · rw [hram, if_pos hs] at hwaits
      contradiction
    · rw [if_neg hs] at hram
      refine hold (.inr ?_) hram
      have hlt := set.isLt
      have hne : set.val ≠ s.mem.initSetQ.val := fun heq => hs (Fin.ext heq)
      simp only [Cache.step, MemCtrl.step, hn, Bool.false_or, decide_eq_true_eq, Bool.false_eq_true,
        if_false] at hinit
      rcases hinit with hinit | hinit
      · omega
      · have := Nat.mod_le (s.mem.initSetQ.val + 1) c.sets
        omega
  | true =>
    have hram := MemCtrl.dirRam_step s.mem (s.memIn i) set w
    have hstep : (s.step i).mem = s.mem.step (s.memIn i) := rfl
    rw [← hstep] at hram
    rcases hram with heq | ⟨-, -, heq⟩ | ⟨-, -, -, heq⟩ | ⟨-, -, -, heq⟩ | ⟨-, -, -, heq⟩ |
      ⟨hu, hset, hw, heq⟩ | ⟨he, hset, hw, heq⟩
    · exact hold (.inl hn) heq
    · rw [heq] at hwaits
      contradiction
    · rw [heq] at hwaits
      contradiction
    · rw [heq] at hwaits
      simp [DirEntry.waits, memIn, MissHandler.refillDirEntry] at hwaits
    · rw [heq] at hwaits
      have hfetch : (s.memIn i).dirCmoUpdtEntry.fetch = false :=
        Cmo.dirUpdtEntry_fetch s.cmo (s.cmoIn i)
      simp [DirEntry.waits, hfetch] at hwaits
    · rw [heq] at hwaits
      have hupdt : s.st2.dirUpdtQ.updt = true := hu
      have hboth : s.st2.dirUpdtQ.valid = true ∧ s.st2.dirUpdtQ.fetch = true := by
        simpa [DirEntry.waits, memIn] using hwaits
      have hb := (normal_iff.1 (h.st2_normal (by simp [st2Busy, hupdt]))).2.1
      rw [hset]
      exact h.reserves_step_of_not_busy hroom hb (hf.updt hupdt hboth.1 hboth.2 w hw)
    · rw [heq] at hwaits
      have hdirty : (s.err.comb (s.errIn i)).dirWrite = true := he
      obtain ⟨hecc, ⟨-, hz⟩ | ⟨hfsm, hm, hd⟩⟩ := ErrFsm.dirWrite_cases hdirty
      · rw [show (s.memIn i).dirErrWdata = .zero from hz] at hwaits
        contradiction
      · rw [show (s.memIn i).dirErrWdata = s.err.dirRdataQ from hd] at hwaits
        have hb := h.err_refill (by simp [ErrFsm.busy, hecc, hfsm]) (by simp [ErrFsm.wait, hfsm])
        rw [hset]
        exact h.reserves_step_of_not_busy hroom hb (hf.correct hecc hfsm hm hwaits w hw)

/-- The miss that stage 1 starts reserves the victim. -/
theorem Owned.reserves_of_misses (h : s.Owned) (hm : (s.dec i).misses = true)
    (hw : s.st1VictimWay i w = true) :
    (s.step i).Reserves (s.st1Req i).req.addrSet w := by
  have halloc : (s.pe i).st2MshrAlloc.alloc = true := by
    rw [(h.pe_agrees (i := i)).mshrAlloc, Decision.mshrAlloc_alloc, hm]
  refine ⟨.st2, ⟨s.st1Nline i, w⟩, ?_, rfl, rfl⟩
  have hone : toBinary c.ways_pos (s.st1VictimWay i) = w :=
    OneHot.toBinary Victim.oneHot_selVictimWay c.ways_pos hw
  simp [missAt, Cache.step, stepSt2, halloc, hone]

theorem Fetching.updt_step (h : s.Owned)
    (hamo : s.dec i = .amoFlush ∨ s.dec i = .amoSendHit → (s.peIn i).st1DirHitFetch = false)
    (hu : (s.step i).st2.dirUpdtQ.updt = true) (hvalid : (s.step i).st2.dirUpdtQ.valid = true)
    (hfetch : (s.step i).st2.dirUpdtQ.fetch = true)
    (hw : (s.step i).st2.dirUpdtWayQ w = true) :
    (s.step i).Reserves (s.step i).st2.dirUpdtSetQ w := by
  have hpe := (h.pe_agrees (i := i)).dirUpdt
  have hstep : (s.step i).st2.dirUpdtQ = if (s.pe i).st2DirUpdt.updt then (s.pe i).st2DirUpdt
    else { s.st2.dirUpdtQ with updt := false } := rfl
  have hupdt : (s.pe i).st2DirUpdt.updt = true := by
    by_contra hn
    rw [hstep, if_neg hn] at hu
    contradiction
  rw [hstep, if_pos hupdt, hpe] at hvalid hfetch
  rw [hpe] at hupdt
  have hreg : (s.step i).st2.dirUpdtWayQ = s.st1Way i ∧
      (s.step i).st2.dirUpdtSetQ = (s.st1Req i).req.addrSet := by
    simp [Cache.step, stepSt2, hpe, hupdt]
  rw [hreg.1] at hw
  rw [hreg.2]
  have hmisses : (s.dec i).misses = true := by
    cases hd : s.dec i <;> rw [hd] at hupdt hvalid hfetch hamo <;>
      first
      | rfl
      | simp [Decision.dirUpdt] at hupdt hvalid hfetch hamo
        try simp [hamo] at hfetch
  refine h.reserves_of_misses hmisses ?_
  rw [st1Way, (misses_of_dec hmisses).miss] at hw
  exact hw

theorem Owned.quiet_of_err (h : s.Owned) (hb : s.err.busy = true) (hw : s.err.wait = false) :
    (s.memIn i).dirMatch = false ∧ (s.memIn i).dirRefill = false ∧
      (s.memIn i).dirInvalCheck = false ∧ (s.memIn i).dirInvalWrite = false ∧
      (s.memIn i).dirCmoCheckNline = false ∧ (s.memIn i).dirCmoCheckEntry = false ∧
      (s.memIn i).dirCmoUpdt = false ∧ (s.memIn i).dirUpdt = false := by
  have hwalk : s.cmo.fsmQ.walks = false := by
    by_contra hk
    rw [(h.walk (by simpa using hk)).2.2] at hb
    contradiction
  have hrefill := MissHandler.comb_quiet (i := s.missIn i) (h.err_refill hb hw)
    (refillReqReady_eq_false (.inr (.inr ⟨hb, hw⟩)))
  have hcmo := Cmo.comb_quiet (i := s.cmoIn i) hwalk
  have hst2 := (h.err hb).2
  simp only [st2Busy, Bool.or_eq_false_iff] at hst2
  exact ⟨st0ReqCachedirRead_eq_false (.inr hb), hrefill.1, hrefill.2.1, hrefill.2.2, hcmo.1,
    hcmo.2.1, hcmo.2.2, hst2.2⟩

theorem Fetching.latch_step (h : s.Owned) (hecc : c.eccEn = true)
    (hl : (s.step i).err.fsmQ = .latch)
    (hm : (s.step i).err.msk (s.step i).err.dirCorQ = true) :
    (s.step i).mem.dirErrWayQ = (s.step i).err.wayQ ∧
      ∀ w, (s.step i).err.wayQ w = true →
        (s.step i).mem.dirRentry w = (s.step i).mem.dirRam (s.step i).err.setQ w := by
  have hstep : (s.step i).err = s.err.step (s.errIn i) := rfl
  rw [hstep] at hl
  obtain ⟨hf, hway, hset, hcor, hread⟩ := ErrFsm.latch_step hecc hl
  rw [← hstep] at hway hset hcor
  have hb : s.err.busy = true := by simp [ErrFsm.busy, hecc, hf]
  have hmsk : s.err.msk s.err.dirCorQ = true := by
    rw [← hm]
    simp [ErrFsm.msk, hway, hcor]
  have hread' : (s.memIn i).dirErrRead = true := hread.trans hmsk
  obtain ⟨h1, h2, h3, h4, h5, h6, h7, h8⟩ := h.quiet_of_err (i := i) hb (by simp [ErrFsm.wait, hf])
  have herr (set : Fin c.sets) (w : Fin c.ways) :
      (s.mem.step (s.memIn i)).dirErrWayQ = (s.memIn i).dirErrWay ∧
        ((s.memIn i).dirErrWay w = true →
          (s.mem.step (s.memIn i)).dirRentry w = s.mem.dirRam (s.memIn i).dirErrSet w) ∧
        (s.mem.step (s.memIn i)).dirRam set w = s.mem.dirRam set w :=
    MemCtrl.dirRentry_err (h.err_init hb) h1 h2 h3 h4 h5 h6 h7 h8 hecc hread'
  rw [hway, hset]
  refine ⟨(herr s.err.setQ ⟨0, c.ways_pos⟩).1, fun w hw => ?_⟩
  exact ((herr s.err.setQ w).2.1 hw).trans (herr s.err.setQ w).2.2.symm

theorem Fetching.correct_step (h : s.Owned) (hroom : s.Roomy) (hf : s.Fetching)
    (hecc : c.eccEn = true) (hl : (s.step i).err.fsmQ = .correct)
    (hm : (s.step i).err.msk (s.step i).err.dirCorQ = true)
    (hwaits : (s.step i).err.dirRdataQ.waits = true) (hw : (s.step i).err.wayQ w = true) :
    (s.step i).Reserves (s.step i).err.setQ w := by
  have hstep : (s.step i).err = s.err.step (s.errIn i) := rfl
  rw [hstep] at hl
  obtain ⟨hfsm, hway, hset, hcor, hdata⟩ := ErrFsm.correct_step hecc hl
  rw [← hstep] at hway hset hcor hdata
  have hb : s.err.busy = true := by simp [ErrFsm.busy, hecc, hfsm]
  have hmsk : s.err.msk s.err.dirCorQ = true := by
    rw [← hm]
    simp [ErrFsm.msk, hway, hcor]
  rw [hway] at hw
  rw [hset]
  obtain ⟨hlatch, hentry⟩ := hf.latch hecc hfsm hmsk
  have hrdata : (s.step i).err.dirRdataQ = s.mem.dirRam s.err.setQ w := by
    rw [hdata hmsk, ← hentry w hw]
    have hmux : s.mem.dirErrRdata = mux s.mem.dirErrWayQ s.mem.dirRentry .zero := by
      simp [MemCtrl.dirErrRdata, hecc]
    have hone := hf.errWay
    rw [← hlatch] at hone hw
    rw [show (s.errIn i).dirRdata = s.mem.dirErrRdata from rfl, hmux, hone.mux hw]
  rw [hrdata] at hwaits
  exact h.reserves_step_of_not_busy hroom (h.err_refill hb (by simp [ErrFsm.wait, hfsm]))
    (hf.ram _ _ (.inl (h.err_init hb)) hwaits)

/-- A cycle keeps the fetch bits with their misses, if an AMO hits no reserved way. -/
theorem Fetching.step (h : s.Owned) (hroom : s.Roomy) (hf : s.Fetching)
    (hamo : s.dec i = .amoFlush ∨ s.dec i = .amoSendHit → (s.peIn i).st1DirHitFetch = false) :
    (s.step i).Fetching where
  ram _ _ hinit hwaits := hf.ram_step h hroom hinit hwaits
  updt hu hv hfe _ hw := Fetching.updt_step h hamo hu hv hfe hw
  errWay := ErrFsm.oneHot_step hf.errWay
  latch hecc hl hm := Fetching.latch_step h hecc hl hm
  correct hecc hl hm hwaits _ hw := hf.correct_step h hroom hecc hl hm hwaits hw

theorem fetching_reset (s : Cache c) : s.reset.Fetching where
  ram set w hinit := by
    rcases hinit with hinit | hinit
    · contradiction
    · exact absurd hinit (by simp [reset, MemCtrl.reset])
  updt := nofun
  errWay := nofun
  latch := nofun
  correct := nofun

/-- With no miss in flight no request hits a reserved way. -/
theorem Fetching.not_hit (hf : s.Fetching) (hl : s.Looked) (hn : s.mem.initQ = true)
    (hv : s.st1.reqValidQ = true) (he : s.st1.reqQ.isError = false)
    (hwalk : s.st1.reqQ.req.op.isCmoWalk = false) (hempty : s.mshrEmpty = true)
    (hst2 : s.st2.mshrAllocQ = false) : (s.peIn i).st1DirHitFetch = false := by
  by_contra hfetch
  have hflag : s.mem.flag (s.st1HitWay i) DirEntry.fetch = true := by
    rw [Bool.not_eq_false] at hfetch
    exact hfetch
  rw [MemCtrl.flag, any_eq_true] at hflag
  obtain ⟨w, hw⟩ := hflag
  simp only [Bool.and_eq_true, st1HitWay, MemCtrl.hitWay] at hw
  have hdir := hl.dir hv he hwalk w
  rw [hdir] at hw
  obtain ⟨k, x, hk, -⟩ := hf.ram s.st1.reqQ.req.addrSet w (.inl hn)
    (by simp [DirEntry.waits, hw.1.1, hw.2])
  rw [missAt_eq_none hempty hst2] at hk
  contradiction

end Cache

end Hpdcache
