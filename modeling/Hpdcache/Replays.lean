import Hpdcache.Ownership
import Hpdcache.RtabChains

/-!
# The controller drives the replay table

What the replay table needs of its ports holds of the controller: an entry is taken by a request of
the core only, which came in when the table had room and no list was being popped, and a replayed
request frees its entry or puts it back.

* `Cache.Tabled` — the replay table represents lists, and stage 1 holds what it popped last.
* `Cache.drives` — the controller keeps the promises of the ports.
* `Cache.Tabled.step` — a cycle keeps the lists.
-/

namespace Hpdcache

open Hw

variable {c : Cfg}

/-! ## Requests put on hold -/

/-- The request is executed by the handler of the CMOs. -/
def ReqOp.isCmoWalk (op : ReqOp) : Bool := op.isCmoInval || op.isCmoFlush || op.isCmoFence

theorem PeIn.Uncacheable.onHold {i : PeIn} (h : i.Uncacheable) :
    i.Proceeds ∧ (i.st1ReqIsCmoInval || i.st1ReqIsCmoFlush || i.st1ReqIsCmoFence) = false :=
  ⟨h.toProceeds, h.not_cmo⟩

theorem PeIn.Cacheable.onHold {i : PeIn} (h : i.Cacheable) :
    i.Proceeds ∧ (i.st1ReqIsCmoInval || i.st1ReqIsCmoFlush || i.st1ReqIsCmoFence) = false :=
  ⟨h.toProceeds, h.not_cmo⟩

/-- What a request that is put on hold went through. -/
theorem Decision.Guard.of_holds {i : PeIn} {d : Decision} (hg : d.Guard c i)
    (h : d.holds = true) :
    i.Proceeds ∧ (i.st1ReqIsCmoInval || i.st1ReqIsCmoFlush || i.st1ReqIsCmoFence) = false := by
  cases d with
  | hold d =>
    cases hg with
    | ucPendTrans hu => exact hu.onHold
    | ucFlush hu => exact hu.onHold
    | ucFetch hu => exact hu.onHold
    | amoPendTrans hu => exact hu.onHold
    | loadMiss hu => exact hu.onHold
    | loadFlush hu => exact hu.onHold
    | storeMshr hu => exact hu.onHold
    | storeFlushHit hu => exact hu.onHold
    | storeMissWb hu => exact hu.onHold
    | storeMissWt hu => exact hu.onHold
    | storeFetch hu => exact hu.onHold
    | storeWbuf hu => exact hu.onHold
    | storeFlushNotReady hu => exact hu.onHold
    | storeHitWt hu => exact hu.onHold
  | eccHold => exact hg.1.onHold
  | ucFlush => exact hg.1.onHold
  | amoFlush => exact hg.1.onHold
  | storeMissHold => exact hg.1.onHold
  | storeFlush => exact hg.1.onHold
  | _ => contradiction

namespace Cache

variable {s : Cache c} {i : CacheIn c} {S : Set (List (Fin c.rtabEntries))}
  {front : List (Fin c.rtabEntries)}

theorem fence_of_isFence (h : (s.st1Req i).isFence = true) : (s.peIn i).st1Fence = true := by
  simp only [CtrlReq.isFence, Bool.or_eq_true] at h
  rcases h with h | h <;> simp [PeIn.st1Fence, peIn, st1ReqIsUncacheable, h]

/-- A request of the core takes the attributes that the configuration forces in stage 1. -/
theorem isFence_of_fence (hr : s.st1.reqQ.fromRtab = false)
    (hcmo : (s.st1Req i).req.op.isCmoWalk = false) (h : (s.peIn i).st1Fence = true) :
    (s.st1Req i).isFence = true := by
  simp only [ReqOp.isCmoWalk, Bool.or_eq_false_iff] at hcmo
  obtain ⟨⟨h1, h2⟩, h3⟩ := hcmo
  simp only [PeIn.st1Fence, peIn, h1, h2, h3, Bool.or_false, Bool.or_eq_true] at h
  simp only [CtrlReq.isFence, Bool.or_eq_true]
  refine h.imp id fun h => ?_
  simp only [st1ReqIsUncacheable, st1Req, hr, Bool.false_eq_true, if_false, st1Pma] at h ⊢
  cases he : i.cfgEnable <;> simp [he] at h ⊢
  exact h

/-- The entry of the replay table that is in stage 1. -/
def popped (s : Cache c) : Option (Fin c.rtabEntries) :=
  if s.st1.reqValidQ && s.st1.reqQ.fromRtab then some s.st1.rtabPopTryPtrQ else none

/-- The request of an entry as it is replayed. -/
def replayOf (s : Cache c) (k : Fin c.rtabEntries) (isError : Bool) : CtrlReq c :=
  { (s.rtab.reqQ k).req with
    req := { (s.rtab.reqQ k).req.req with physIndexed := true }
    fromRtab := true
    isError := isError }

/-- The replay table represents the lists `S`, and stage 1 holds the request that was popped last
if it holds a replayed one. -/
structure Tabled (s : Cache c) (S : Set (List (Fin c.rtabEntries)))
    (front : List (Fin c.rtabEntries)) : Prop where
  wf : s.rtab.Wf s.popped S front
  stored : ∀ k, s.rtab.validQ k = true → Stored (s.rtab.reqQ k).req
  replay : ∀ k, s.popped = some k → s.st1.reqQ = s.replayOf k s.st1.reqQ.isError

/-- A replayed request that finds an uncorrectable error is answered, and its entry is lost. -/
def leaks (s : Cache c) (i : CacheIn c) : Bool :=
  s.st1.reqQ.fromRtab && decide (s.dec i = .eccAnswer)

theorem peIn_rtab : (s.peIn i).st1ReqRtab = s.st1.reqQ.fromRtab := by
  simp only [peIn, st1Req]
  split_ifs <;> rfl

theorem popped_eq_some {k : Fin c.rtabEntries} : s.popped = some k ↔
    s.st1.reqValidQ = true ∧ s.st1.reqQ.fromRtab = true ∧ s.st1.rtabPopTryPtrQ = k := by
  unfold popped
  split_ifs with h
  · simp_all
  · simp only [Bool.and_eq_true] at h
    simp only [false_iff]
    exact fun h' => h ⟨h'.1, h'.2.1⟩

theorem popped_eq_none : s.popped = none ↔
    s.st1.reqValidQ = false ∨ s.st1.reqQ.fromRtab = false := by
  unfold popped
  split_ifs with h
  · simp_all
  · simpa [or_iff_not_imp_left] using h

theorem Tabled.valid_popped {k : Fin c.rtabEntries} (h : s.Tabled S front)
    (hk : s.popped = some k) : s.rtab.validQ k = true := by
  have hwf := h.wf
  rw [hk] at hwf
  exact hwf.valid_popped

/-- The entry that the table gives is valid. -/
theorem Tabled.valid_popTry (h : s.Tabled S front) (hp : s.rtab.popTryValid = true) :
    s.rtab.validQ s.rtab.popTryPtr = true := by
  by_cases hs : s.rtab.popStateQ = .head
  · obtain ⟨k, hk, hsel⟩ := h.wf.popSel_of_head hs hp
    rw [Rtab.popTryPtr_eq hsel]
    simp only [Rtab.ready, Bool.and_eq_true] at hk
    exact hk.1.1
  · rw [h.wf.pop.state_eq_head_iff] at hs
    obtain ⟨k, l, hl⟩ := List.exists_cons_of_ne_nil hs
    rw [Rtab.popTryPtr_eq (h.wf.popSel_of_left hl)]
    have hfront : k ∈ front := by
      cases hp : s.popped with
      | none =>
        rw [hp] at hl
        have hfront : front = k :: l := hl
        rw [hfront]
        exact List.mem_cons_self
      | some a =>
        have hpop := h.wf.pop
        rw [hp] at hpop hl
        rw [hpop.front_eq, hl]
        simp
    have hne : front ≠ [] := List.ne_nil_of_mem hfront
    exact h.wf.chains.valid_of_mem (h.wf.chains.front_mem.resolve_left hne) hfront

/-! ## The ports of the table -/

theorem Owned.alloc_iff (h : s.Owned) : (s.rtabIn i).alloc = true ↔
    (s.dec i).holds = true ∧ s.st1.reqQ.fromRtab = false := by
  have hpe : (s.rtabIn i).alloc = ((s.dec i).holds && !(s.peIn i).st1ReqRtab) :=
    (h.pe_agrees (i := i)).alloc
  rw [hpe, peIn_rtab]
  simp

theorem Owned.rback_iff (h : s.Owned) : (s.rtabIn i).popRback = true ↔
    (s.dec i).holds = true ∧ s.st1.reqQ.fromRtab = true := by
  have hpe : (s.rtabIn i).popRback = ((s.dec i).holds && (s.peIn i).st1ReqRtab) :=
    (h.pe_agrees (i := i)).rback
  rw [hpe, peIn_rtab]
  simp

theorem Owned.commit_iff (h : s.Owned) : (s.rtabIn i).popCommit = true ↔
    (s.dec i).commits = true ∧ s.st1.reqQ.fromRtab = true := by
  have hpe : (s.rtabIn i).popCommit = ((s.dec i).commits && (s.peIn i).st1ReqRtab) :=
    (h.pe_agrees (i := i)).commit
  rw [hpe, peIn_rtab]
  simp

theorem Owned.link_iff (h : s.Owned) : (s.rtabIn i).allocAndLink = true ↔ s.dec i = .link := by
  have hpe : (s.rtabIn i).allocAndLink = decide (s.dec i = .link) := (h.pe_agrees (i := i)).link
  rw [hpe, decide_eq_true_eq]

theorem Owned.deps_eq (h : s.Owned) :
    (s.rtabIn i).allocDeps = { (s.dec i).deps with pendTrans := (s.peIn i).st1Fence } :=
  (h.pe_agrees (i := i)).deps

theorem Owned.popTry_iff : (s.rtabIn i).popTry = true ↔ (s.peIn i).GrantRtab c :=
  rtabReqReady_iff

/-- A request that is put on hold or linked inserts a nop. -/
theorem Owned.no_try (h : s.Owned) (hd : (s.dec i).nops = true) : (s.rtabIn i).popTry = false := by
  by_contra ht
  have hg := h.granted (.inr (Owned.popTry_iff.1 (by simpa using ht)))
  rw [hg.nops] at hd
  contradiction

theorem nops_of_holds {d : Decision} (h : d.holds = true) : d.nops = true := by
  cases d <;> first | rfl | contradiction

theorem valid_of_holds (h : (s.dec i).holds = true) : s.st1.reqValidQ = true := by
  refine valid_of_dec (i := i) ?_
  intro hd
  rw [hd] at h
  contradiction

theorem dec_guard : (s.dec i).Guard c (s.peIn i) := decision_guard

theorem link_guard (h : s.dec i = .link) : s.st1.reqValidQ = true ∧
    s.st1.reqQ.fromRtab = false ∧ (s.peIn i).st1Fence = false ∧
      s.rtab.checkHit (s.st1Nline i) = true := by
  have hg := dec_guard (s := s) (i := i)
  rw [h] at hg
  obtain ⟨hv, -, hr, hf, hc⟩ := hg
  exact ⟨hv, by rwa [peIn_rtab] at hr, hf, hc⟩

/-- A request that takes an entry comes from the core. -/
theorem Owned.core_of_alloc (h : s.Owned)
    (ha : (s.rtabIn i).alloc = true ∨ (s.rtabIn i).allocAndLink = true) :
    s.st1.reqValidQ = true ∧ s.st1.reqQ.fromRtab = false ∧ (s.dec i).nops = true := by
  rcases ha with ha | hl
  · obtain ⟨hd, hr⟩ := h.alloc_iff.1 ha
    exact ⟨valid_of_holds hd, hr, nops_of_holds hd⟩
  · have hd := h.link_iff.1 hl
    obtain ⟨hv, hr, -⟩ := link_guard hd
    exact ⟨hv, hr, by rw [hd]; rfl⟩

theorem Tabled.st1Req_eq {k : Fin c.rtabEntries} (hk : s.popped = some k) :
    s.st1Req i = s.st1.reqQ := by
  unfold st1Req
  rw [if_pos (popped_eq_some.1 hk).2.1]

/-- The replayed request leaves its entry or goes back to it. -/
theorem Tabled.leaves (h : s.Owned) (ht : s.Tabled S front) (hleak : s.leaks i = false)
    {k : Fin c.rtabEntries} (hk : s.popped = some k) :
    (s.rtabIn i).popCommit = !(s.rtabIn i).popRback := by
  obtain ⟨hv, hr, -⟩ := popped_eq_some.1 hk
  have hr' : (s.peIn i).st1ReqRtab = true := by rw [peIn_rtab, hr]
  have hne : s.dec i ≠ .idle ∧ s.dec i ≠ .aborted ∧ s.dec i ≠ .link ∧ s.dec i ≠ .cmo ∧
      s.dec i ≠ .eccAnswer := by
    refine ⟨decision_ne_idle hv, decision_ne_aborted (by simp [PeIn.st1Aborted, hr']),
      decision_ne_link hr', ?_, ?_⟩
    · intro hd
      have hg := dec_guard (s := s) (i := i)
      rw [hd] at hg
      have hcmo := (ht.stored k (ht.valid_popped hk)).cmo
      have hreq : (s.st1Req i).req.op = (s.rtab.reqQ k).req.req.op := by
        rw [Tabled.st1Req_eq hk, ht.replay k hk]
        rfl
      rw [← hreq] at hcmo
      have hwalk : ((s.st1Req i).req.op.isCmoInval || (s.st1Req i).req.op.isCmoFlush ||
        (s.st1Req i).req.op.isCmoFence) = true := hg.2
      rw [hcmo] at hwalk
      contradiction
    · intro hd
      simp [leaks, hr, hd] at hleak
  have hiff := (Decision.commits_iff_not_holds (s.dec i)).2 hne
  rw [Bool.eq_iff_iff, Bool.not_eq_true', ← Bool.not_eq_true, h.commit_iff, h.rback_iff, hr]
  simpa using hiff

/-- The controller keeps the promises of the ports. -/
theorem Tabled.drives (h : s.Owned) (ht : s.Tabled S front) (hleak : s.leaks i = false)
    (hfence : s.st1.reqValidQ = true → s.st1.reqQ.fromRtab = false →
      ∀ k, s.rtab.validQ k = true → s.rtab.isFence k = false) :
    s.rtab.Drives s.popped (s.rtabIn i) where
  alloc_head ha := by
    obtain ⟨hv, hr, -⟩ := h.core_of_alloc ha
    exact ⟨popped_eq_none.2 (.inr hr), (h.core hv hr).2.2.1⟩
  alloc_room ha := by
    obtain ⟨hv, hr, hn⟩ := h.core_of_alloc ha
    exact ⟨h.no_try hn, (h.core hv hr).2.2.2⟩
  alloc_once ha := by
    have hd := (h.alloc_iff.1 ha).1
    by_contra hl
    rw [h.link_iff.1 (by simpa using hl)] at hd
    contradiction
  alloc_line _ := rfl
  alloc_miss ha hf := by
    obtain ⟨hd, hr⟩ := h.alloc_iff.1 ha
    obtain ⟨hp, hcmo⟩ := (dec_guard (s := s) (i := i)).of_holds hd
    refine hp.not_linked (by rw [peIn_rtab, hr]) ?_
    by_contra hfence
    have hf' : (s.st1Req i).isFence = true := isFence_of_fence hr hcmo (by simpa using hfence)
    rw [show (s.st1Req i).isFence = false from hf] at hf'
    contradiction
  link_hit hl := (link_guard (h.link_iff.1 hl)).2.2.2
  link_deps hl := by
    have hd := h.link_iff.1 hl
    rw [h.deps_eq, hd, (link_guard hd).2.2.1]
    rfl
  link_fence hl := by
    obtain ⟨hv, hr, hf, -⟩ := link_guard (h.link_iff.1 hl)
    refine ⟨?_, hfence hv hr⟩
    cases hf' : (s.st1Req i).isFence with
    | false => exact hf'
    | true =>
      rw [fence_of_isFence hf'] at hf
      contradiction
  commit hc := by
    obtain ⟨hd, hr⟩ := h.commit_iff.1 hc
    refine popped_eq_some.2 ⟨valid_of_dec (i := i) ?_, hr, rfl⟩
    intro hidle
    rw [hidle] at hd
    contradiction
  rback hb := by
    obtain ⟨hd, hr⟩ := h.rback_iff.1 hb
    exact ⟨popped_eq_some.2 ⟨valid_of_holds hd, hr, rfl⟩, h.no_try (nops_of_holds hd)⟩
  rback_req hb := by
    obtain ⟨hd, hr⟩ := h.rback_iff.1 hb
    have hk : s.popped = some s.st1.rtabPopTryPtrQ :=
      popped_eq_some.2 ⟨valid_of_holds hd, hr, rfl⟩
    have hreq : (s.rtabIn i).allocReq.req = s.st1.reqQ := Tabled.st1Req_eq hk
    rw [hreq, ht.replay _ hk]
    exact ⟨rfl, rfl⟩
  leaves k hk := ht.leaves h hleak hk
  tries hp := (Owned.popTry_iff.1 hp).valid

/-! ## One cycle -/

/-- Stage 1 holds the entry that the table has popped. -/
theorem Owned.popped_step (h : s.Owned) : (s.step i).popped = s.rtab.popped (s.rtabIn i) := by
  unfold Rtab.popped
  cases ht : (s.rtabIn i).popTry with
  | true =>
    have hg := Owned.popTry_iff.1 ht
    have hready : (s.pe i).rtabReqReady = true := ht
    have hv : (s.step i).st1.reqValidQ = true := by
      have hstep : (s.step i).st1.reqValidQ = (hpdcacheCtrlPe c (s.peIn i)).st1ReqValid := rfl
      have hready' : (hpdcacheCtrlPe c (s.peIn i)).rtabReqReady = true := ht
      rw [hpdcacheCtrlPe_normal hg.normal] at hstep hready'
      rw [hstep]
      simp only [newRequest] at hready' ⊢
      rw [hready', Bool.or_true]
    have hptr : (s.step i).st1.rtabPopTryPtrQ = s.rtab.popTryPtr := by
      have hstep : (s.step i).st1.rtabPopTryPtrQ =
        if (s.pe i).rtabReqReady then s.rtab.popTryPtr else s.st1.rtabPopTryPtrQ := rfl
      rw [hstep, if_pos hready]
    rw [if_pos rfl, popped_eq_some]
    exact ⟨hv, (h.fromRtab_step hv).trans hg.valid, hptr⟩
  | false =>
    rw [if_neg (by simp), popped_eq_none]
    cases hv : (s.step i).st1.reqValidQ with
    | false => exact .inl rfl
    | true =>
      right
      rw [h.fromRtab_step hv]
      rcases (h.reqQ_step hv).2 with hg | hg
      · exact hg.2
      · rw [Owned.popTry_iff.2 hg.1] at ht
        contradiction

/-- A request in stage 1 can be put on hold: it is neither a scrubbing read nor an operation of the
CMO handler. -/
theorem Owned.stored_st1Req (h : s.Owned) (hd : (s.dec i).holds = true ∨ s.dec i = .link) :
    Stored (s.st1Req i) := by
  have hv : s.st1.reqValidQ = true := by
    rcases hd with hd | hd
    · exact valid_of_holds hd
    · exact (link_guard hd).1
  constructor
  · unfold st1Req
    split_ifs <;> exact h.scrub hv
  · rcases hd with hd | hd
    · exact ((dec_guard (s := s) (i := i)).of_holds hd).2
    · have hf := (link_guard hd).2.2.1
      simp only [PeIn.st1Fence, Bool.or_eq_false_iff] at hf
      simp only [Bool.or_eq_false_iff]
      exact ⟨⟨hf.1.2, hf.2⟩, hf.1.1.2⟩

theorem Tabled.stored_step (h : s.Owned) (ht : s.Tabled S front) {k : Fin c.rtabEntries}
    (hk : (s.step i).rtab.validQ k = true) : Stored ((s.step i).rtab.reqQ k).req := by
  have hreq : (s.step i).rtab.reqQ k =
    if s.rtab.allocBv (s.rtabIn i) k || Rtab.rbackBv (s.rtabIn i) k then (s.rtabIn i).allocReq
      else s.rtab.reqQ k := rfl
  rw [hreq]
  split_ifs with hnew
  · have hd : (s.dec i).holds = true ∨ s.dec i = .link := by
      simp only [Rtab.allocBv, Rtab.rbackBv, Bool.or_eq_true, Bool.and_eq_true] at hnew
      rcases hnew with ⟨-, ha | hl⟩ | ⟨hr, -⟩
      · exact .inl (h.alloc_iff.1 ha).1
      · exact .inr (h.link_iff.1 hl)
      · exact .inl (h.rback_iff.1 hr).1
    exact h.stored_st1Req hd
  · refine ht.stored k ?_
    simp only [Bool.or_eq_true, not_or, Bool.not_eq_true] at hnew
    have hstep : (s.step i).rtab.validQ k =
      setRst (s.rtab.validQ k) (s.rtab.allocBv (s.rtabIn i) k) (Rtab.commitBv (s.rtabIn i) k) := rfl
    rw [hstep, hnew.1] at hk
    cases hv : s.rtab.validQ k with
    | true => rfl
    | false => rw [hv] at hk; contradiction

theorem Tabled.replay_step (h : s.Owned) {k : Fin c.rtabEntries}
    (hk : (s.step i).popped = some k) :
    (s.step i).st1.reqQ = (s.step i).replayOf k (s.step i).st1.reqQ.isError := by
  rw [h.popped_step] at hk
  unfold Rtab.popped at hk
  split_ifs at hk with ht
  have hg := Owned.popTry_iff.1 ht
  have hv : (s.step i).st1.reqValidQ = true := by
    have hpop := h.popped_step (i := i)
    rw [Rtab.popped, if_pos ht, popped_eq_some] at hpop
    exact hpop.1
  have hgr := h.granted (.inr hg)
  have hidle : s.rtab.allocBv (s.rtabIn i) k = false ∧ Rtab.rbackBv (s.rtabIn i) k = false := by
    have hnot : (s.dec i).holds = false := by
      by_contra hd
      have hn := nops_of_holds (by simpa using hd)
      rw [hgr.nops] at hn
      contradiction
    constructor
    · by_contra ha
      simp only [Rtab.allocBv, Bool.not_eq_false, Bool.and_eq_true, Bool.or_eq_true] at ha
      have hn := (h.core_of_alloc ha.2).2.2
      rw [hgr.nops] at hn
      contradiction
    · by_contra hr
      simp only [Rtab.rbackBv, Bool.not_eq_false, Bool.and_eq_true] at hr
      rw [(h.rback_iff.1 hr.1).1] at hnot
      contradiction
  have hreq : (s.step i).rtab.reqQ k = s.rtab.reqQ k := by
    have hstep : (s.step i).rtab.reqQ k =
      if s.rtab.allocBv (s.rtabIn i) k || Rtab.rbackBv (s.rtabIn i) k then (s.rtabIn i).allocReq
        else s.rtab.reqQ k := rfl
    rw [hstep, hidle.1, hidle.2]
    rfl
  have hp : s.rtab.popTryValid = true := hg.valid
  rw [(h.reqQ_step hv).1, replayOf, hreq, st0Req, if_pos hp, ← Option.some.inj hk]
  rfl

theorem Tabled.step (h : s.Owned) (ht : s.Tabled S front)
    (hd : s.rtab.Drives s.popped (s.rtabIn i)) :
    ∃ S' front', (s.step i).Tabled S' front' := by
  obtain ⟨S', front', hwf⟩ := ht.wf.step hd
  refine ⟨S', front', ?_, fun k hk => ht.stored_step h hk, fun k hk => Tabled.replay_step h hk⟩
  rw [h.popped_step]
  exact hwf

theorem tabled_reset (s : Cache c) : s.reset.Tabled ∅ [] where
  wf := by
    have hp : s.reset.popped = none := popped_eq_none.2 (.inl rfl)
    rw [hp]
    exact Rtab.wf_reset s.rtab
  stored := nofun
  replay k hk := by
    have hp : s.reset.popped = none := popped_eq_none.2 (.inl rfl)
    rw [hp] at hk
    contradiction

end Cache

end Hpdcache
