import Hpdcache.Tracked
import Hpdcache.MissMap

/-!
# One copy of a line

A line is in a way of its set or in a miss in flight. A miss goes from stage 2 to the MSHR, to the
refill FSM, and to its way.

**Lookups.** A request that starts a miss has looked its line up in the directory and in the MSHR,
in the cycle of its grant. Both are as they were when it decides.

* `Cache.places` — where a line is.
* `Cache.next` — where a copy is after a cycle.
* `Cache.Single.one_step` — a cycle moves the copies of a line, or starts the miss of a line that is
nowhere.
* `MissMap.single_run` — a line is in one place at most.
-/

namespace Hpdcache

open Hw

variable {c : Cfg}

/-! ## The refill FSM -/

namespace MissHandler

variable {m : MissHandler c} {i : MissIn c} {x : Miss c}

theorem refilling_of_completes (h : m.completes i = true) : ∃ x, m.refilling = some x := by
  have hb := refillBusy_of_writeDir h
  unfold refilling
  cases hf : m.refillFsmQ with
  | idle => simp [refillBusy, hf] at hb
  | inval => simp [completes, refillComb, hf, refillDefault] at h
  | write => exact ⟨_, rfl⟩
  | writeDir => exact ⟨_, rfl⟩

/-- The refill that writes the directory is that of the miss at hand. -/
theorem of_completes (h : m.completes i = true) : ∃ x, m.refilling = some x ∧
    m.refillNline = x.nline ∧ (m.refillComb i).set = x.nline.set ∧
      (m.refillComb i).way = x.way := by
  obtain ⟨x, hx⟩ := refilling_of_completes h
  rcases refilling_step (i := i) hx with ⟨hc, -⟩ | ⟨-, -, hline, hset, hway⟩
  · rw [h] at hc
    contradiction
  · exact ⟨x, hx, hline, hset, hway⟩

theorem of_refillWay {r : RefillOut c} {w : Fin c.ways} (h : m.refillWay r w = true) : r.way = w := by
  simp only [refillWay, Bool.and_eq_true, decide_eq_true_eq] at h
  exact h.2.symm

theorem refillChunk_writeDir : m.refillChunk.writeDir = false := by
  unfold refillChunk
  split_ifs <;> rfl

theorem refillWrite_end (h : (m.refillWrite i).writeDir = true) :
    (m.refillWrite i).fsmD = .idle := by
  have hchunk : m.refillChunk.writeDir ≠ true := by
    rw [refillChunk_writeDir]
    decide
  unfold refillWrite at h ⊢
  by_cases hcnt : m.refillCntQ = refillLastChunkWord c
  · rw [if_pos hcnt] at h ⊢
    by_cases hlast : refillLastChunkWord c = 0
    · rw [if_pos hlast] at h
      exact absurd h hchunk
    · rw [if_neg hlast]
      rfl
  · rw [if_neg hcnt] at h
    exact absurd h hchunk

/-- A refill that writes the directory ends. -/
theorem refilling_of_end (h : m.completes i = true) : (m.step i).refilling = none := by
  have hfsm : (m.refillComb i).fsmD = .idle := by
    unfold completes refillComb at h
    unfold refillComb
    cases hf : m.refillFsmQ with
    | idle =>
      rw [hf] at h
      simp only [refillIdle, refillDefault] at h
      split_ifs at h
    | write =>
      rw [hf] at h
      exact refillWrite_end h
    | writeDir => rfl
    | inval => rfl
  have hstep : (m.step i).refillFsmQ = .idle := hfsm
  unfold refilling
  rw [hstep]

/-- The refill at hand was at hand in the last cycle, or starts with an acknowledge. -/
theorem of_refilling_step (h : (m.step i).refilling = some x) :
    (m.completes i = false ∧ m.refilling = some x) ∨ (m.refillComb i).ack = true := by
  cases hr : m.refilling with
  | some y =>
    rcases refilling_step (i := i) hr with ⟨hc, hy⟩ | ⟨hc, -⟩
    · rw [hy] at h
      exact .inl ⟨hc, h⟩
    · rw [refilling_of_end hc] at h
      contradiction
  | none =>
    right
    have hstep : (m.step i).refillFsmQ = (m.refillComb i).fsmD := rfl
    unfold refilling at h
    rw [hstep] at h
    unfold refilling at hr
    unfold refillComb at h ⊢
    cases hf : m.refillFsmQ with
    | idle =>
      rw [hf] at h
      simp only [refillIdle, refillDefault, hf] at h ⊢
      split_ifs at h ⊢ <;> simp at h ⊢
    | write =>
      rw [hf] at hr
      contradiction
    | writeDir =>
      rw [hf] at hr
      contradiction
    | inval =>
      rw [hf] at h
      contradiction

end MissHandler

/-! ## Places -/

/-- Where a line can be: in a way of its set, or in a miss in flight. -/
inductive Place (c : Cfg)
  | way (w : Fin c.ways)
  | miss (k : MissSlot c)

namespace Cache

variable {s : Cache c} {i : CacheIn c} {n : Nline c} {set : Fin c.sets} {w : Fin c.ways}
  {x : Miss c} {k : MissSlot c} {p : Place c}

/-- A copy of the line is at the place. -/
def Occupies (s : Cache c) (n : Nline c) : Place c → Prop
  | .way w =>
    (s.mem.initQ = true ∨ n.set.val < s.mem.initSetQ.val) ∧
      (s.mem.dirRam n.set w).valid = true ∧ (s.mem.dirRam n.set w).tag = n.tag
  | .miss k => ∃ x, s.missAt k = some x ∧ x.nline = n

/-- The places of a line. -/
def places (s : Cache c) (n : Nline c) : Set (Place c) := {p | s.Occupies n p}

/-- Where the copy at a place is after a cycle, if it is left. -/
def next (s : Cache c) (i : CacheIn c) : Place c → Place c
  | .way w => .way w
  | .miss .st2 =>
    .miss (.mshr (Mshr.setOf s.st2.mshrAllocNlineQ)
      (s.miss.mshr.allocWay s.st2.mshrAllocNlineQ))
  | .miss (.mshr a b) =>
    if (s.refill i).ack = true ∧ a = s.miss.head.rSet ∧ b = s.miss.head.rWay then .miss .refill
    else .miss (.mshr a b)
  | .miss .refill => if (s.refill i).writeDir then .way (s.refill i).way else .miss .refill

/-- Every line has one copy at most, and the updates of the directory that are pending keep the
lines. -/
structure Single (s : Cache c) : Prop where
  one : ∀ n, (s.places n).Subsingleton
  updt : s.st2.dirUpdtQ.updt = true → s.st2.dirUpdtQ.valid = true →
    ∀ w, s.st2.dirUpdtWayQ w = true → (s.mem.dirRam s.st2.dirUpdtSetQ w).valid = true ∧
      (s.mem.dirRam s.st2.dirUpdtSetQ w).tag = s.st2.dirUpdtTagQ
  correct : c.eccEn = true → s.err.fsmQ = .correct → s.err.msk s.err.dirCorQ = true →
    ∀ w, s.err.wayQ w = true → s.err.dirRdataQ = s.mem.dirRam s.err.setQ w

/-! ## The ways -/

/-- A request in stage 1 has the directory for itself. -/
theorem Owned.dirRam_of_st1 (h : s.Owned) (hv : s.st1.reqValidQ = true) :
    (s.step i).mem.dirRam = s.mem.dirRam := by
  obtain ⟨hinit, hbusy, -⟩ := normal_iff.1 (h.st1_normal hv)
  have hst2 := h.st1_st2 hv
  simp only [st2Busy, Bool.or_eq_false_iff] at hst2
  have herr : s.err.busy = false := by
    by_contra hb
    rw [(h.err (by simpa using hb)).1] at hv
    contradiction
  have hwalk : s.cmo.fsmQ.walks = false := by
    by_contra hw
    rw [(h.walk (by simpa using hw)).1] at hv
    contradiction
  have hrefill := MissHandler.comb_quiet (i := s.missIn i) hbusy
    (refillReqReady_eq_false (.inr (.inl hv)))
  have hcmo := (Cmo.comb_quiet (i := s.cmoIn i) hwalk).2.2
  funext set w
  rcases MemCtrl.dirRam_step s.mem (s.memIn i) set w with heq | ⟨hn, -⟩ | ⟨hn, -⟩ | ⟨hn, -⟩ |
    ⟨hn, -⟩ | ⟨hn, -⟩ | ⟨hn, -⟩
  · exact heq
  · rw [hinit] at hn
    contradiction
  · rw [show (s.memIn i).dirInvalWrite = false from hrefill.2.2] at hn
    contradiction
  · rw [show (s.memIn i).dirRefill = false from hrefill.1] at hn
    contradiction
  · rw [show (s.memIn i).dirCmoUpdt = false from hcmo] at hn
    contradiction
  · rw [show (s.memIn i).dirUpdt = false from hst2.2] at hn
    contradiction
  · rw [show (s.memIn i).dirErrWrite = false from (errComb_of_not_busy herr).2] at hn
    contradiction

/-- A way that has the line had it, or is written by its refill. -/
theorem Single.way_step (hs : s.Single) (ht : s.Tracked)
    (ho : (s.step i).Occupies n (.way w)) : ∃ p, s.Occupies n p ∧ s.next i p = .way w := by
  obtain ⟨hinit', hvalid, htag⟩ := ho
  have hold (hi : s.mem.initQ = true ∨ n.set.val < s.mem.initSetQ.val)
      (hv : (s.mem.dirRam n.set w).valid = true) (ht : (s.mem.dirRam n.set w).tag = n.tag) :
      ∃ p, s.Occupies n p ∧ s.next i p = .way w :=
    ⟨.way w, ⟨hi, hv, ht⟩, rfl⟩
  have hram : (s.step i).mem.dirRam n.set w = .zero ∨ _ := MemCtrl.dirRam_cases hinit'
  rcases hram with heq | ⟨hi, heq⟩ | ⟨hn, ⟨hr, hset, hway, heq⟩ | ⟨hu, hset, hway, heq⟩ |
    ⟨hu, hset, hway, heq⟩ | ⟨he, hset, hway, heq⟩⟩
  · rw [heq] at hvalid
    contradiction
  · have hentry : (s.step i).mem.dirRam n.set w = s.mem.dirRam n.set w := heq
    rw [hentry] at hvalid htag
    exact hold hi hvalid htag
  · -- the refill of the line
    rw [show (s.step i).mem.dirRam n.set w = s.miss.refillDirEntry from heq] at htag
    have hwrite : (s.refill i).writeDir = true := hr
    obtain ⟨x, hx, hline, hxset, hxway⟩ := MissHandler.of_completes (i := s.missIn i) hwrite
    have hset' : n.set = (s.refill i).set := hset
    have htag' : s.miss.refillNline.tag = n.tag := htag
    have hxn : x.nline = n := by
      have hset'' : s.miss.refillNline.set = n.set := by
        rw [hset', hline]
        exact hxset.symm
      rw [← hline]
      exact congrArg₂ Nline.mk htag' hset''
    refine ⟨.miss .refill, ⟨x, hx, hxn⟩, ?_⟩
    rw [next, if_pos hwrite, MissHandler.of_refillWay hway]
  · have hentry : (s.step i).mem.dirRam n.set w = (s.cmoOut i).dirUpdtEntry := heq
    have hset' : n.set = (s.cmoOut i).dirUpdtSet := hset
    rw [hentry] at hvalid htag
    obtain ⟨hv, htag'⟩ := ht.sweep.keeps_of_updt hu hway hvalid
    rw [← hset'] at hv htag'
    exact hold (.inl hn) hv (htag'.trans htag)
  · have hentry : (s.step i).mem.dirRam n.set w = (s.memIn i).dirUpdtEntry := heq
    have hset' : n.set = s.st2.dirUpdtSetQ := hset
    rw [hentry] at hvalid htag
    obtain ⟨hv, htag'⟩ := hs.updt hu hvalid w hway
    rw [← hset'] at hv htag'
    exact hold (.inl hn) hv (htag'.trans htag)
  · have hwrite : (s.err.comb (s.errIn i)).dirWrite = true := he
    have hentry : (s.step i).mem.dirRam n.set w = (s.memIn i).dirErrWdata := heq
    have hset' : n.set = s.err.setQ := hset
    rw [hentry] at hvalid htag
    obtain ⟨hecc, ⟨-, hz⟩ | ⟨hfsm, hm, hd⟩⟩ := ErrFsm.dirWrite_cases hwrite
    · rw [show (s.memIn i).dirErrWdata = .zero from hz] at hvalid
      contradiction
    · rw [show (s.memIn i).dirErrWdata = s.err.dirRdataQ from hd,
        hs.correct hecc hfsm hm w hway, ← hset'] at hvalid htag
      exact hold (.inl hn) hvalid htag

/-! ## The misses -/

/-- A line that stage 1 looks for is not in the directory. -/
theorem not_way_of_miss (hl : s.Looked) (hm : s.Misses i) (ho : s.Occupies (s.st1Nline i) (.way w)) :
    False := by
  obtain ⟨-, hv, htag⟩ := ho
  have hc := hm.sound.toCacheable
  have hop : s.st1.reqQ.req.op.isCmoWalk = false := by
    rw [← st1Req_op (i := i)]
    exact hc.not_cmo
  have hdir := hl.dir hc.valid (isError_eq hc.toProceeds) hop w
  rw [st1Nline_set, ← hdir] at hv htag
  have hhit : s.st1HitWay i w = true := by
    rw [st1HitWay, MemCtrl.hitWay, hv, htag]
    exact decide_eq_true rfl
  have hany : s.st1DirHit i = true := any_eq_true.2 ⟨w, hhit⟩
  rw [hm.miss] at hany
  contradiction

/-- A miss that is registered for stage 2 is one that stage 1 starts. -/
theorem Owned.misses_of_st2 (h : s.Owned) (ha : (s.step i).st2.mshrAllocQ = true) :
    (s.dec i).misses = true ∧ (s.step i).st2.mshrAllocNlineQ = s.st1Nline i ∧
      (s.step i).st2.mshrAllocVictimWayQ = s.st1VictimWay i := by
  have hpe := (h.pe_agrees (i := i)).mshrAlloc
  have hstep : (s.step i).st2.mshrAllocQ = (s.pe i).st2MshrAlloc.alloc := rfl
  rw [hstep] at ha
  constructor
  · rw [hpe, Decision.mshrAlloc_alloc] at ha
    exact ha
  · have hload : (s.step i).st2 = s.stepSt2 i := rfl
    rw [hload]
    simp [stepSt2, ha]

/-- A miss in flight was so, at the place before, or is started by stage 1. -/
theorem miss_step (h : s.Owned) (hroom : s.Roomy)
    (hack : (s.refill i).ack = true → s.miss.mshr.validQ s.miss.head.rSet s.miss.head.rWay = true)
    (hk : (s.step i).missAt k = some x) :
    (∃ k', s.missAt k' = some x ∧ s.next i (.miss k') = .miss k) ∨
      (k = .st2 ∧ (s.dec i).misses = true ∧
        x = ⟨s.st1Nline i, toBinary c.ways_pos (s.st1VictimWay i)⟩) := by
  cases k with
  | st2 =>
    right
    simp only [missAt] at hk
    split_ifs at hk with ha
    obtain rfl := Option.some.inj hk
    obtain ⟨hm, hn, hw⟩ := h.misses_of_st2 ha
    rw [hn, hw]
    exact ⟨rfl, hm, rfl⟩
  | mshr a b =>
    left
    have hvalid : (s.step i).miss.mshr.validQ a b = true := by
      simp only [missAt] at hk
      split_ifs at hk with hv
      exact hv
    by_cases hnew : s.st2.mshrAllocQ = true ∧ a = Mshr.setOf s.st2.mshrAllocNlineQ ∧
        b = s.miss.mshr.allocWay s.st2.mshrAllocNlineQ
    · obtain ⟨ha, rfl, rfl⟩ := hnew
      rw [h.missAt_alloc hroom ha] at hk
      obtain rfl := Option.some.inj hk
      exact ⟨.st2, if_pos ha, rfl⟩
    · have hstep : (s.step i).miss.mshr.validQ a b = setRst (s.miss.mshr.validQ a b)
        ((s.miss.allocReady && s.st2.mshrAllocQ) &&
          decide (a = Mshr.setOf s.st2.mshrAllocNlineQ ∧
            b = s.miss.mshr.allocWay s.st2.mshrAllocNlineQ))
        ((s.refill i).ack && decide (a = s.miss.head.rSet ∧ b = s.miss.head.rWay)) := rfl
      have hset : ((s.miss.allocReady && s.st2.mshrAllocQ) &&
          decide (a = Mshr.setOf s.st2.mshrAllocNlineQ ∧
            b = s.miss.mshr.allocWay s.st2.mshrAllocNlineQ)) = false := by
        by_contra hne
        simp only [Bool.not_eq_false, Bool.and_eq_true, decide_eq_true_eq] at hne
        exact hnew ⟨hne.1.2, hne.2⟩
      rw [hstep, hset] at hvalid
      have hkept : ¬((s.refill i).ack = true ∧ a = s.miss.head.rSet ∧ b = s.miss.head.rWay) := by
        rintro ⟨ha, hab⟩
        rw [ha, decide_eq_true hab, Bool.true_and] at hvalid
        revert hvalid
        cases s.miss.mshr.validQ a b <;> exact Bool.false_ne_true
      have hv : s.miss.mshr.validQ a b = true := by
        revert hvalid
        cases s.miss.mshr.validQ a b with
        | true => exact fun _ => rfl
        | false => simp
      rw [missAt_mshr_keep hroom hv hkept] at hk
      obtain rfl := Option.some.inj hk
      exact ⟨.mshr a b, if_pos hv, if_neg hkept⟩
  | refill =>
    left
    rcases MissHandler.of_refilling_step (m := s.miss) (i := s.missIn i) hk with ⟨hc, hx⟩ | ha
    · refine ⟨.refill, hx, ?_⟩
      have hc' : (s.refill i).writeDir = false := hc
      rw [next, hc']
      exact if_neg Bool.false_ne_true
    · have hx : (s.step i).missAt .refill = _ := MissHandler.refilling_of_ack ha (ack_not_alloc ha)
      rw [hk] at hx
      obtain rfl := Option.some.inj hx
      exact ⟨.mshr s.miss.head.rSet s.miss.head.rWay, if_pos (hack ha), if_pos ⟨ha, rfl, rfl⟩⟩

/-- The line of a miss that stage 1 starts is nowhere. -/
theorem nowhere_of_misses (h : s.Owned) (hl : s.Looked) (hm : (s.dec i).misses = true)
    (hcheck : ∀ a b x, s.missAt (.mshr a b) = some x → x.nline ≠ s.st1Nline i) :
    s.places (s.st1Nline i) = ∅ := by
  have hmiss := misses_of_dec hm
  have hv : s.st1.reqValidQ = true := hmiss.sound.valid
  apply Set.eq_empty_iff_forall_notMem.2
  intro p hp
  cases p with
  | way w => exact not_way_of_miss hl hmiss hp
  | miss k =>
    obtain ⟨x, hx, hline⟩ := hp
    cases k with
    | st2 =>
      have hst2 := h.st1_st2 hv
      simp only [st2Busy, Bool.or_eq_false_iff] at hst2
      rw [missAt, hst2.1.1] at hx
      contradiction
    | mshr a b => exact hcheck a b x hx hline
    | refill =>
      have hb := MissHandler.refillBusy_of_refilling hx
      rw [(normal_iff.1 (h.st1_normal hv)).2.1] at hb
      contradiction

/-- A cycle moves the copies of a line, or starts the miss of a line that is nowhere. -/
theorem Single.one_step (hs : s.Single) (h : s.Owned) (hl : s.Looked) (hroom : s.Roomy)
    (ht : s.Tracked)
    (hack : (s.refill i).ack = true → s.miss.mshr.validQ s.miss.head.rSet s.miss.head.rWay = true)
    (hcheck : (s.dec i).misses = true →
      ∀ a b x, s.missAt (.mshr a b) = some x → x.nline ≠ s.st1Nline i) :
    ((s.step i).places n).Subsingleton := by
  apply subsingleton_of_moves (s.next i) (.miss .st2) (hs.one n)
  intro p hp
  cases p with
  | way w => exact .inl (hs.way_step ht hp)
  | miss k =>
    obtain ⟨x, hx, rfl⟩ := hp
    rcases miss_step h hroom hack hx with ⟨k', hx', hk'⟩ | ⟨rfl, hm, rfl⟩
    · exact .inl ⟨.miss k', ⟨x, hx', rfl⟩, hk'⟩
    · exact .inr ⟨rfl, nowhere_of_misses h hl hm (hcheck hm)⟩

/-! ## The updates that are pending -/

/-- The hits of a lookup in stage 1 are the ways that have the line. -/
theorem occupies_of_hit (h : s.Owned) (hl : s.Looked) (hp : (s.peIn i).Proceeds)
    (hcmo : (s.st1Req i).req.op.isCmoWalk = false) (hw : s.st1HitWay i w = true) :
    s.Occupies (s.st1Nline i) (.way w) := by
  rw [st1Req_op] at hcmo
  have hdir := hl.dir hp.valid (isError_eq hp) hcmo w
  rw [st1HitWay, MemCtrl.hitWay, hdir, Bool.and_eq_true, decide_eq_true_eq] at hw
  refine ⟨.inl (normal_iff.1 (h.st1_normal hp.valid)).1, ?_⟩
  rw [st1Nline_set]
  exact hw

/-- A request in stage 1 hits one way at most. -/
theorem Single.oneHot_hit (hs : s.Single) (h : s.Owned) (hl : s.Looked)
    (hp : (s.peIn i).Proceeds) (hcmo : (s.st1Req i).req.op.isCmoWalk = false) :
    OneHot (s.st1HitWay i) := by
  intro w v hw hv
  have hw' : Place.way w ∈ s.places (s.st1Nline i) := occupies_of_hit h hl hp hcmo hw
  have hv' : Place.way v ∈ s.places (s.st1Nline i) := occupies_of_hit h hl hp hcmo hv
  exact Place.way.inj (hs.one _ hw' hv')

theorem Single.updt_step (hs : s.Single) (h : s.Owned) (hl : s.Looked)
    (hu : (s.step i).st2.dirUpdtQ.updt = true) (hv : (s.step i).st2.dirUpdtQ.valid = true)
    (hw : (s.step i).st2.dirUpdtWayQ w = true) :
    ((s.step i).mem.dirRam (s.step i).st2.dirUpdtSetQ w).valid = true ∧
      ((s.step i).mem.dirRam (s.step i).st2.dirUpdtSetQ w).tag =
        (s.step i).st2.dirUpdtTagQ := by
  have hpe := (h.pe_agrees (i := i)).dirUpdt
  have hstep : (s.step i).st2.dirUpdtQ = if (s.pe i).st2DirUpdt.updt then (s.pe i).st2DirUpdt
    else { s.st2.dirUpdtQ with updt := false } := rfl
  have hupdt : (s.pe i).st2DirUpdt.updt = true := by
    by_contra hn
    rw [hstep, if_neg hn] at hu
    contradiction
  have hreg : (s.step i).st2.dirUpdtSetQ = (s.st1Req i).req.addrSet ∧
      (s.step i).st2.dirUpdtWayQ = s.st1Way i ∧
      (s.step i).st2.dirUpdtTagQ = s.mem.tagOf (s.st1Way i) := by
    have hload : (s.step i).st2 = s.stepSt2 i := rfl
    rw [hload]
    simp [stepSt2, hupdt]
  rw [hstep, if_pos hupdt, hpe] at hv
  rw [hpe] at hupdt
  obtain ⟨hc, hline⟩ := Decision.cacheable_of_updt dec_guard hupdt hv
  have hvalid : s.st1.reqValidQ = true := hc.valid
  have hop : s.st1.reqQ.req.op.isCmoWalk = false := by
    rw [← st1Req_op (i := i)]
    exact hc.not_cmo
  have hdir (w : Fin c.ways) := hl.dir hvalid (isError_eq hc.toProceeds) hop w
  rw [hreg.2.1] at hw
  rw [hreg.1, hreg.2.2, st1Req_set, h.dirRam_of_st1 hvalid, ← hdir w]
  have hone : OneHot (s.st1Way i) := by
    unfold st1Way
    split_ifs
    · exact hs.oneHot_hit h hl hc.toProceeds hc.not_cmo
    · exact Victim.oneHot_selVictimWay
  refine ⟨?_, (hone.mux hw (fun w => (s.mem.dirRentry w).tag) 0).symm⟩
  unfold st1Way at hw hone
  by_cases hhit : s.st1DirHit i = true
  · rw [if_pos hhit, st1HitWay, MemCtrl.hitWay, Bool.and_eq_true] at hw
    exact hw.1
  · rw [if_neg hhit] at hw hone
    have hvictim : s.mem.flag (s.st1VictimWay i) DirEntry.valid = true :=
      hline.resolve_left hhit
    rw [MemCtrl.flag, any_eq_true] at hvictim
    obtain ⟨v, hvw⟩ := hvictim
    rw [Bool.and_eq_true] at hvw
    rw [hone w v hw hvw.1]
    exact hvw.2

/-- The recovery that has read an entry leaves the directory as it is in that cycle. -/
theorem Owned.dirRam_of_latch (h : s.Owned) (hecc : c.eccEn = true) (hf : s.err.fsmQ = .latch) :
    (s.step i).mem.dirRam = s.mem.dirRam := by
  have hb : s.err.busy = true := by simp [ErrFsm.busy, hecc, hf]
  have hq := h.quiet_of_err (i := i) hb (by simp [ErrFsm.wait, hf])
  funext set w
  rcases MemCtrl.dirRam_step s.mem (s.memIn i) set w with heq | ⟨hn, -⟩ | ⟨hn, -⟩ | ⟨hn, -⟩ |
    ⟨hn, -⟩ | ⟨hn, -⟩ | ⟨hn, -⟩
  · exact heq
  · rw [h.err_init hb] at hn
    contradiction
  · rw [hq.2.2.2.1] at hn
    contradiction
  · rw [hq.2.1] at hn
    contradiction
  · rw [hq.2.2.2.2.2.2.1] at hn
    contradiction
  · rw [hq.2.2.2.2.2.2.2] at hn
    contradiction
  · have hwrite : (s.err.comb (s.errIn i)).dirWrite = true := hn
    obtain ⟨-, ⟨hf', -⟩ | ⟨hf', -⟩⟩ := ErrFsm.dirWrite_cases hwrite <;> rw [hf] at hf' <;>
      contradiction

theorem Single.correct_step (h : s.Owned) (hf : s.Fetching) (hecc : c.eccEn = true)
    (hl : (s.step i).err.fsmQ = .correct) (hm : (s.step i).err.msk (s.step i).err.dirCorQ = true)
    (hw : (s.step i).err.wayQ w = true) :
    (s.step i).err.dirRdataQ = (s.step i).mem.dirRam (s.step i).err.setQ w := by
  have hstep : (s.step i).err = s.err.step (s.errIn i) := rfl
  rw [hstep] at hl
  obtain ⟨hfsm, hway, hset, hcor, hdata⟩ := ErrFsm.correct_step hecc hl
  rw [← hstep] at hway hset hcor hdata
  have hmsk : s.err.msk s.err.dirCorQ = true := by
    rw [← hm]
    simp [ErrFsm.msk, hway, hcor]
  rw [hway] at hw
  obtain ⟨hlatch, hentry⟩ := hf.latch hecc hfsm hmsk
  have hmux : (s.step i).err.dirRdataQ = mux s.mem.dirErrWayQ s.mem.dirRentry .zero := by
    rw [hdata hmsk]
    show s.mem.dirErrRdata = _
    simp [MemCtrl.dirErrRdata, hecc]
  rw [hmux, hset, hlatch, h.dirRam_of_latch hecc hfsm, ← hentry w hw]
  exact hf.errWay.mux hw _ _

/-- A cycle keeps the lines single. -/
theorem Single.step (hs : s.Single) (h : s.WalkInv)
    (hack : (s.refill i).ack = true → s.miss.mshr.validQ s.miss.head.rSet s.miss.head.rWay = true)
    (hcheck : (s.dec i).misses = true →
      ∀ a b x, s.missAt (.mshr a b) = some x → x.nline ≠ s.st1Nline i) :
    (s.step i).Single where
  one _ := hs.one_step h.owned h.looked h.roomy h.tracked hack hcheck
  updt hu hv _ hw := hs.updt_step h.owned h.looked hu hv hw
  correct hecc hl hm _ hw := Single.correct_step h.owned h.fetching hecc hl hm hw

theorem single_reset (s : Cache c) : s.reset.Single where
  one n := by
    intro p hp q _
    cases p with
    | way w =>
      obtain ⟨hinit, -⟩ := hp
      rcases hinit with hinit | hinit
      · contradiction
      · exact absurd hinit (by simp [reset, MemCtrl.reset])
    | miss k =>
      obtain ⟨x, hx, -⟩ := hp
      cases k <;> contradiction
  updt := nofun
  correct := nofun

end Cache

/-! ## The check of the MSHR -/

namespace MissMap

variable {s : MissMap c} {i : CacheIn c} {n : Nline c} {a : Fin c.mshrSets} {b : Fin c.mshrWays}
  {x : Miss c}

/-- What the memory answers is in the MSHR. -/
theorem Inv.valid_of_ack (h : s.Inv) (hack : (s.cache.refill i).ack = true) :
    s.cache.miss.mshr.validQ s.cache.miss.head.rSet s.cache.miss.head.rWay = true := by
  rw [h.valid]
  exact Option.isSome_iff_ne_none.2 (h.live_of_ack hack)

/-- An entry of the MSHR stands for a miss of the map. -/
theorem Inv.live_of_missAt (h : s.Inv) (hx : s.cache.missAt (.mshr a b) = some x) :
    ∃ p, s.live a b = some p ∧ p.nline = x.nline := by
  simp only [Cache.missAt] at hx
  split_ifs at hx with hv
  obtain rfl := Option.some.inj hx
  rw [h.valid] at hv
  obtain ⟨p, hp⟩ := Option.isSome_iff_exists.1 hv
  obtain ⟨hset, hram, -⟩ := h.held a b p hp
  refine ⟨p, hp, ?_⟩
  rw [MissHandler.mshrMiss, hset, hram]
  rfl

/-- A request in stage 1 has checked the MSHR for its line. -/
def ChecksLine (s : MissMap c) : Prop :=
  s.cache.st1.reqValidQ = true → s.cache.st1.reqQ.isError = false →
    s.cache.st1.reqQ.req.op.isCmoWalk = false →
    s.cache.st1.reqQ.req.pma.uncacheable = false →
    s.checked = some s.cache.st1.reqQ.req.addrSet

theorem ChecksLine.step (h : s.cache.Owned)
    (hscrub : (s.cache.step i).st1.reqValidQ = true →
      (s.cache.step i).st1.reqQ.errScrubbing = false) : (s.step i).ChecksLine := by
  intro hv he hop hunc
  obtain ⟨-, hcheck⟩ := h.lookups hv (hscrub hv) he hop
  have hreq : (s.step i).cache.st1.reqQ = s.cache.st0Req i := (h.reqQ_step hv).1
  rw [hreq] at hunc ⊢
  rw [hunc] at hcheck
  have hstep : (s.step i).checked =
    if (s.mshrIn i).check then some (s.mshrIn i).checkSet else none := rfl
  have hck : (s.mshrIn i).check = true := hcheck
  rw [hstep, if_pos hck]
  rfl

/-- A request that starts a miss has not hit in the MSHR. -/
theorem mshrHit_of_misses (hm : (s.cache.dec i).misses = true) :
    s.cache.miss.mshr.hit (s.cache.st1Req i).req.addrTag = false := by
  have hg := Cache.dec_guard (s := s.cache) (i := i)
  cases hd : s.cache.dec i <;> rw [hd] at hm <;> try contradiction
  · rw [hd] at hg
    obtain ⟨-, -, -, -, hdeps⟩ := hg
    exact (Cache.loadMissDeps_eq_none hdeps).1
  · rw [hd] at hg
    exact hg.1.not_mshr
  · rw [hd] at hg
    exact hg.1.not_mshr

/-- The line of a miss that stage 1 starts is not in the MSHR. -/
theorem Inv.not_mshr_of_misses (h : s.Inv) (hc : s.ChecksLine)
    (hlate : s.cache.lateLookup i = false) (hm : (s.cache.dec i).misses = true)
    (hx : s.cache.missAt (.mshr a b) = some x) : x.nline ≠ s.cache.st1Nline i := by
  intro hline
  have hmiss := Cache.misses_of_dec hm
  have hs := hmiss.sound.toCacheable
  have hop : s.cache.st1.reqQ.req.op.isCmoWalk = false := by
    rw [← Cache.st1Req_op (i := i)]
    exact hs.not_cmo
  have hchecked := hc hs.valid (Cache.isError_eq hs.toProceeds) hop
    (Cache.uncacheable_eq_false hlate hs hmiss.not_amo)
  obtain ⟨p, hp, hpx⟩ := h.live_of_missAt hx
  have hhit : s.cache.miss.mshr.hit (s.cache.st1Req i).req.addrTag = true := by
    rw [h.hit_iff hchecked]
    refine ⟨a, b, p, hp, ?_⟩
    rw [hpx, hline, Cache.st1Nline, CtrlReq.nline, Cache.st1Req_set]
  rw [mshrHit_of_misses hm] at hhit
  contradiction

/-! ## Runs -/

/-- The memory answers each miss once, and no refill starts with a walk. -/
structure Steady (s : MissMap c) (i : CacheIn c) : Prop where
  answers : s.Answers i
  steady : s.cache.Steady i

/-- The invariants of the cache, of its walks and of its misses. -/
structure Settled (s : MissMap c) : Prop where
  walk : s.cache.WalkInv
  stores : s.cache.Stores
  map : s.Inv
  checks : s.ChecksLine
  single : s.cache.Single

theorem settled_start (u : Cache c) : (start u).Settled where
  walk := ⟨Cache.inv_reset u, Cache.tracked_reset u⟩
  stores := nofun
  map := inv_start u
  checks := nofun
  single := Cache.single_reset u

theorem Settled.step (h : s.Settled) (hs : s.Steady i) : (s.step i).Settled := by
  have hwalk : (s.step i).cache.WalkInv := h.walk.step hs.steady
  exact
    { walk := hwalk
      stores := Cache.Stores.step h.walk.owned
      map := h.map.step (h.walk.toInv.fits h.stores) hs.answers
      checks := ChecksLine.step h.walk.owned hwalk.owned.scrub
      single := h.single.step h.walk h.map.valid_of_ack fun hm a b x hx =>
        h.map.not_mshr_of_misses h.checks hs.steady.regular.not_late hm hx }

theorem settled_run {u : Cache c} {is : List (CacheIn c)}
    (hr : Along step Steady (start u) is) : (run step (start u) is).Settled :=
  hr.invariant (settled_start u) fun _ _ => Settled.step

/-- In every state of a steady run in which the memory answers each miss once, a line is in one way
of its set, or in one miss in flight, or nowhere. -/
theorem single_run (u : Cache c) (is : List (CacheIn c)) (hr : Along step Steady (start u) is)
    (n : Nline c) : ((run step (start u) is).cache.places n).Subsingleton :=
  (settled_run hr).single.one n

/-! ## The line of a store in its way -/

instance (s : MissMap c) (i : CacheIn c) : Decidable (s.Steady i) :=
  decidable_of_iff (s.Answers i ∧ s.cache.Steady i)
    ⟨fun h => ⟨h.1, h.2⟩, fun h => ⟨h.answers, h.steady⟩⟩

theorem single_dirtyThenFlush :
    ((run step (start (Cache.blank lowLatencyCfg)) dirtyThenFlush).cache.places
      ⟨1, firstSet⟩).Subsingleton :=
  single_run _ _ (by decide +kernel) _

example : (run step (start (Cache.blank lowLatencyCfg)) dirtyThenFlush).cache.Occupies
    ⟨1, firstSet⟩ (.way firstWay) :=
  ⟨by decide +kernel, by decide +kernel, by decide +kernel⟩

end MissMap

end Hpdcache
