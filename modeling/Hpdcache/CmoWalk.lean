import Hpdcache.Reserved

/-!
# The walk of the CMO handler

A walk over the whole cache is at one way of one set. It reads the entry there, moves on, and
updates the entry in the next cycle. In a walk nobody else uses the directory port, so that a cycle
leaves the directory as it is or has the update of the handler.

* `Cmo.past_check` — what the walk has passed after it reads an entry.
* `MemCtrl.dirRam_cmo` — the directory after a cycle in which only the handler uses its port.
* `Cache.Owned.quiet_of_walk` — in a walk only the handler uses the port.
-/

namespace Hpdcache

open Hw

variable {c : Cfg}

namespace Cmo

variable {m : Cmo c} {i : CmoIn c} {set : Fin c.sets} {w : Fin c.ways}

/-! ## The position -/

/-- The walk has passed an entry. -/
def Past (m : Cmo c) (set : Fin c.sets) (w : Fin c.ways) : Prop :=
  set < m.setQ ∨ set = m.setQ ∧ ∀ v, m.wayQ v = true → w < v

/-- An entry is read and not updated yet. -/
def Pending (m : Cmo c) (set : Fin c.sets) (w : Fin c.ways) : Prop :=
  m.flushReqValidQ = true ∧ set = m.flushReqSetQ ∧ m.flushReqWayQ w = true

theorem wayFirst_eq : (wayFirst : Bits c.ways) = ofIndex ⟨0, c.ways_pos⟩ := by
  funext w
  rw [Bool.eq_iff_iff, ofIndex_eq_true, wayFirst, decide_eq_true_eq, Fin.ext_iff]

/-- With one way, all the ways are the first one. -/
theorem wayFirst_of_one (h : c.ways = 1) : (fun _ => true : Bits c.ways) = wayFirst := by
  funext w
  have hw := w.isLt
  rw [eq_comm, wayFirst, decide_eq_true_eq]
  omega

theorem not_past_first (hset : m.setQ.val = 0) (hway : m.wayQ = wayFirst) : ¬ m.Past set w := by
  intro h
  rcases h with hlt | ⟨-, hlt⟩
  · have := Fin.lt_def.1 hlt
    omega
  · have := hlt ⟨0, c.ways_pos⟩ (by rw [hway]; rfl)
    exact absurd (Fin.lt_def.1 this) (Nat.not_lt_zero _)

theorem wayLast_iff {v : Fin c.ways} (hv : m.wayQ = ofIndex v) :
    m.wayLast = true ↔ v.val + 1 = c.ways := by
  have hpos := c.ways_pos
  rw [wayLast, hv, ofIndex_eq_true, Fin.ext_iff]
  show c.ways - 1 = v.val ↔ _
  omega

/-- The way after the last one is the first one. -/
theorem wayD_last {o : CmoOut c} (ho : o.wayIncr = true) (hl : m.wayLast = true) :
    m.wayD o = wayFirst := by
  unfold wayD
  by_cases hone : c.ways = 1
  · rw [if_pos hone]
    exact wayFirst_of_one hone
  · rw [if_neg hone]
    by_cases hr : o.wayReset = true
    · rw [if_pos hr]
    · rw [if_neg hr, if_pos ho, if_pos hl]

theorem wayD_next {o : CmoOut c} (hr : o.wayReset = false) (ho : o.wayIncr = true) {v : Fin c.ways}
    (hv : m.wayQ = ofIndex v) (hl : m.wayLast = false) :
    ∃ v' : Fin c.ways, v'.val = v.val + 1 ∧ m.wayD o = ofIndex v' := by
  have hne : v.val + 1 ≠ c.ways := by
    intro h
    rw [(wayLast_iff hv).2 h] at hl
    contradiction
  have hlt := v.isLt
  refine ⟨⟨v.val + 1, by omega⟩, rfl, ?_⟩
  have hone : c.ways ≠ 1 := by omega
  unfold wayD
  rw [if_neg hone, if_neg (by simp [hr]), if_pos ho, if_neg (by simp [hl])]
  funext w
  rw [Bool.eq_iff_iff, ofIndex_eq_true, decide_eq_true_eq, Fin.ext_iff, hv]
  constructor
  · rintro ⟨u, hu, hq⟩
    rw [ofIndex_eq_true] at hq
    rw [← hu, hq]
  · intro h
    exact ⟨v, h.symm, ofIndex_self v⟩

/-- The walk stays at its way. -/
theorem wayD_keep {o : CmoOut c} (hr : o.wayReset = false) (ho : o.wayIncr = false) {v : Fin c.ways}
    (hv : m.wayQ = ofIndex v) : m.wayD o = m.wayQ := by
  unfold wayD
  by_cases hone : c.ways = 1
  · rw [if_pos hone, hv]
    funext w
    have hw := w.isLt
    have hv' := v.isLt
    rw [eq_comm, ofIndex_eq_true, Fin.ext_iff]
    omega
  · rw [if_neg hone, if_neg (by simp [hr]), if_neg (by simp [ho])]

/-! ## Reading an entry -/

/-- The outputs of a cycle in which the walk reads the entry at its position. -/
structure Checks (m : Cmo c) (o : CmoOut c) : Prop where
  setIncr : o.setIncr = m.wayLast
  wayIncr : o.wayIncr = true
  wayReset : o.wayReset = false
  invalSetReset : o.invalSetReset = false
  flushSetReset : o.flushSetReset = false

theorem Checks.way {o : CmoOut c} (h : m.Checks o) {v : Fin c.ways} (hv : m.wayQ = ofIndex v) :
    ∃ v', m.wayD o = ofIndex v' := by
  cases hl : m.wayLast with
  | true =>
    rw [wayD_last h.wayIncr hl]
    exact ⟨_, wayFirst_eq⟩
  | false =>
    obtain ⟨v', -, hv'⟩ := wayD_next h.wayReset h.wayIncr hv hl
    exact ⟨v', hv'⟩

theorem Checks.setD {o : CmoOut c} (h : m.Checks o) : m.setD i o =
    if m.wayLast then
      (if m.setLast i then ⟨0, c.sets_pos⟩
       else ⟨(m.setQ.val + 1) % c.sets, Nat.mod_lt _ c.sets_pos⟩)
    else m.setQ := by
  rw [Cmo.setD, h.invalSetReset, h.flushSetReset, h.setIncr, if_neg Bool.false_ne_true,
    if_neg Bool.false_ne_true]

/-- The next set, before the last one of the walk. -/
theorem Checks.setD_next {o : CmoOut c} (h : m.Checks o) (hw : m.wayLast = true)
    (hs : m.setLast i = false) {last : Fin c.sets} (hlt : m.setQ < last) :
    (m.setD i o).val = m.setQ.val + 1 := by
  have := Fin.lt_def.1 hlt
  have := last.isLt
  rw [h.setD, if_pos hw, if_neg (by simp [hs])]
  exact Nat.mod_eq_of_lt (by omega)

/-- What the walk has passed after it reads an entry: what it had passed, and the entry. -/
theorem past_check {m' : Cmo c} {o : CmoOut c} (h : m.Checks o) (hset : m'.setQ = m.setD i o)
    (hway : m'.wayQ = m.wayD o) {v : Fin c.ways} (hv : m.wayQ = ofIndex v) {last : Fin c.sets}
    (hle : m.setQ ≤ last) (hlast : m.setLast i = decide (m.setQ = last)) (hp : m'.Past set w) :
    m.Past set w ∨ set = m.setQ ∧ m.wayQ w = true := by
  cases hl : m.wayLast with
  | true =>
    rw [wayD_last h.wayIncr hl] at hway
    cases hs : m.setLast i with
    | true =>
      rw [h.setD, if_pos hl, if_pos hs] at hset
      exact absurd hp (not_past_first (by rw [hset]) hway)
    | false =>
      rw [hs, eq_comm, decide_eq_false_iff_not] at hlast
      have hnext := h.setD_next hl hs (lt_of_le_of_ne hle hlast)
      -- the next set begins: all the ways of the current one are behind
      have hset' : set ≤ m.setQ := by
        rw [Fin.le_def]
        rcases hp with hlt | ⟨heq, hlt⟩
        · have := Fin.lt_def.1 hlt
          rw [hset] at this
          omega
        · have := hlt ⟨0, c.ways_pos⟩ (by rw [hway]; rfl)
          exact absurd (Fin.lt_def.1 this) (Nat.not_lt_zero _)
      rcases lt_or_eq_of_le hset' with hlt | heq
      · exact .inl (.inl hlt)
      · have hvl := (wayLast_iff hv).1 hl
        have hw := w.isLt
        by_cases hwv : w = v
        · exact .inr ⟨heq, by rw [hv, hwv]; exact ofIndex_self v⟩
        · refine .inl (.inr ⟨heq, fun u hu => ?_⟩)
          rw [hv, ofIndex_eq_true] at hu
          rw [hu, Fin.lt_def]
          have : w.val ≠ v.val := fun h => hwv (Fin.ext h)
          omega
  | false =>
    rw [h.setD, if_neg (by simp [hl])] at hset
    obtain ⟨v', hv', hway'⟩ := wayD_next h.wayReset h.wayIncr hv hl
    rcases hp with hlt | ⟨heq, hlt⟩
    · rw [hset] at hlt
      exact .inl (.inl hlt)
    · rw [hset] at heq
      have hw := Fin.lt_def.1 (hlt v' (by rw [hway, hway']; exact ofIndex_self v'))
      rw [hv'] at hw
      by_cases hwv : w = v
      · exact .inr ⟨heq, by rw [hv, hwv]; exact ofIndex_self v⟩
      · refine .inl (.inr ⟨heq, fun u hu => ?_⟩)
        rw [hv, ofIndex_eq_true] at hu
        rw [hu, Fin.lt_def]
        have : w.val ≠ v.val := fun h => hwv (Fin.ext h)
        omega

/-- At the last way of the last set, all the sets up to it are passed with the entry. -/
theorem past_of_last {v : Fin c.ways} (hv : m.wayQ = ofIndex v) (hl : m.wayLast = true)
    (hle : set ≤ m.setQ) : m.Past set w ∨ set = m.setQ ∧ m.wayQ w = true := by
  rcases lt_or_eq_of_le hle with hlt | heq
  · exact .inl (.inl hlt)
  · have hvl := (wayLast_iff hv).1 hl
    have hw := w.isLt
    by_cases hwv : w = v
    · exact .inr ⟨heq, by rw [hv, hwv]; exact ofIndex_self v⟩
    · refine .inl (.inr ⟨heq, fun u hu => ?_⟩)
      rw [hv, ofIndex_eq_true] at hu
      rw [hu, Fin.lt_def]
      have : w.val ≠ v.val := fun h => hwv (Fin.ext h)
      omega

/-- The walk does not go beyond its last set. -/
theorem Checks.setD_le {o : CmoOut c} (h : m.Checks o) {last : Fin c.sets} (hle : m.setQ ≤ last)
    (hlast : m.setLast i = decide (m.setQ = last)) : m.setD i o ≤ last := by
  cases hl : m.wayLast with
  | true =>
    cases hs : m.setLast i with
    | true =>
      rw [h.setD, if_pos hl, if_pos hs]
      exact Fin.le_def.2 (Nat.zero_le _)
    | false =>
      rw [hs, eq_comm, decide_eq_false_iff_not] at hlast
      have hlt := lt_of_le_of_ne hle hlast
      rw [Fin.le_def, h.setD_next hl hs hlt]
      exact Fin.lt_def.1 hlt
  | false =>
    rw [h.setD, if_neg (by simp [hl])]
    exact hle

end Cmo

/-! ## The directory port -/

namespace MemCtrl

variable {m : MemCtrl c} {i : MemIn c} {set : Fin c.sets} {w : Fin c.ways}

/-- Nobody but the CMO handler uses the directory port. -/
structure OnlyCmo (m : MemCtrl c) (i : MemIn c) : Prop where
  init : m.initQ = true
  not_match : i.dirMatch = false
  not_refill : i.dirRefill = false
  not_invalCheck : i.dirInvalCheck = false
  not_invalWrite : i.dirInvalWrite = false
  not_updt : i.dirUpdt = false
  not_errRead : (c.eccEn && i.dirErrRead) = false
  not_errWrite : i.dirErrWrite = false

/-- The handler reads the entry of a way. -/
theorem OnlyCmo.checkEntry (h : OnlyCmo m i) (hn : i.dirCmoCheckNline = false)
    (he : i.dirCmoCheckEntry = true) :
    (m.step i).dirReqWayQ = i.dirCmoCheckEntryWay ∧
      (∀ w, i.dirCmoCheckEntryWay w = true →
        (m.step i).dirRentry w = m.dirRam i.dirCmoCheckEntrySet w) ∧
      (m.step i).dirRam = m.dirRam := by
  have hport : m.dirCtrl i = .read i.dirCmoCheckEntrySet i.dirCmoCheckEntryWay := by
    simp [dirCtrl, h.init, h.not_match, h.not_refill, h.not_invalCheck, h.not_invalWrite, hn, he]
  refine ⟨by simp [step, he], fun w hw => ?_, ?_⟩
  · simp [step, hport, DirPort.read, hw]
  · funext set w
    simp [step, hport, DirPort.read]

/-- The handler looks a line up. -/
theorem OnlyCmo.checkNline (h : OnlyCmo m i) (hn : i.dirCmoCheckNline = true) :
    (∀ w, (m.step i).dirRentry w = m.dirRam i.dirCmoCheckNlineSet w) ∧
      (m.step i).dirRam = m.dirRam := by
  have hport : m.dirCtrl i = .read i.dirCmoCheckNlineSet allWays := by
    simp [dirCtrl, h.init, h.not_match, h.not_refill, h.not_invalCheck, h.not_invalWrite, hn]
  constructor
  · intro w
    simp [step, hport, DirPort.read, allWays]
  · funext set w
    simp [step, hport, DirPort.read]

/-- The handler updates entries, or leaves the directory as it is. -/
theorem OnlyCmo.update (h : OnlyCmo m i) (hn : i.dirCmoCheckNline = false)
    (he : i.dirCmoCheckEntry = false) (set : Fin c.sets) (w : Fin c.ways) :
    (m.step i).dirRam set w =
      if i.dirCmoUpdt = true ∧ set = i.dirCmoUpdtSet ∧ i.dirCmoUpdtWay w = true
      then i.dirCmoUpdtEntry else m.dirRam set w := by
  cases hu : i.dirCmoUpdt with
  | true =>
    have hport : m.dirCtrl i = .write i.dirCmoUpdtSet i.dirCmoUpdtWay i.dirCmoUpdtEntry := by
      simp [dirCtrl, h.init, h.not_match, h.not_refill, h.not_invalCheck, h.not_invalWrite, hn, he,
        hu]
    show (if (m.dirCtrl i).addr = set ∧ (m.dirCtrl i).cs w = true ∧ (m.dirCtrl i).we w = true
      then (m.dirCtrl i).wentry else m.dirRam set w) = _
    rw [hport]
    refine if_congr ?_ rfl rfl
    constructor
    · intro hp
      exact ⟨rfl, hp.1.symm, hp.2.1⟩
    · intro hp
      exact ⟨hp.2.1.symm, hp.2.2, hp.2.2⟩
  | false =>
    have hport : m.dirCtrl i = .read m.dirReqSetQ fun _ => false := by
      simp only [dirCtrl, h.init, h.not_match, h.not_refill, h.not_invalCheck, h.not_invalWrite, hn,
        he, hu, h.not_updt, h.not_errRead, h.not_errWrite, Bool.not_true, Bool.false_eq_true,
        if_false]
    simp [step, hport, DirPort.read]

/-- The handler leaves the directory as it is. -/
theorem OnlyCmo.keep (h : OnlyCmo m i) (hn : i.dirCmoCheckNline = false)
    (he : i.dirCmoCheckEntry = false) (hu : i.dirCmoUpdt = false) :
    (m.step i).dirRam = m.dirRam := by
  funext set w
  rw [h.update hn he, hu]
  simp

end MemCtrl

namespace MissHandler

/-- An idle refill FSM does not write the directory. -/
theorem comb_idle {m : MissHandler c} {i : MissIn c} (hb : m.refillBusy = false) :
    (m.refillComb i).writeDir = false ∧ (m.refillComb i).invalWriteDir = false := by
  have hf : m.refillFsmQ = .idle := by simpa [refillBusy] using hb
  simp only [refillComb, hf, refillIdle, refillDefault]
  split_ifs <;> exact ⟨rfl, rfl⟩

end MissHandler

namespace Cache

variable {s : Cache c} {i : CacheIn c}

theorem cmoBusy_of_walks (h : s.cmo.fsmQ.walks = true) :
    s.cmoBusy = true ∧ s.cmo.reqWait = false := by
  cases hf : s.cmo.fsmQ <;> rw [hf] at h <;>
    first | contradiction | simp [cmoBusy, Cmo.reqReady, Cmo.reqWait, hf]

/-- In a walk nothing is looked up. -/
theorem st0ReqCachedirRead_of_walks (h : s.cmo.fsmQ.walks = true) :
    (s.pe i).st0ReqCachedirRead = false := by
  obtain ⟨hbusy, hwait⟩ := cmoBusy_of_walks h
  cases hn : (s.peIn i).normal with
  | false =>
    obtain ⟨evt, he⟩ := hpdcacheCtrlPe_not_normal (c := c) hn
    rw [pe, he]
    rfl
  | true =>
    have hb : (s.peIn i).cmoBusy = true := hbusy
    have hw : (s.peIn i).cmoWait = false := hwait
    rw [pe, hpdcacheCtrlPe_normal hn]
    simp [newRequest, hb, hw]

theorem refillReqReady_of_walks (h : s.cmo.fsmQ.walks = true) :
    (s.pe i).refillReqReady = false := by
  obtain ⟨hbusy, hwait⟩ := cmoBusy_of_walks h
  by_contra hr
  rw [Bool.not_eq_false] at hr
  have hw : s.cmo.reqWait = true := (refillReqReady_iff.1 hr).cmo hbusy
  rw [hwait] at hw
  contradiction

theorem errComb_of_not_busy (h : s.err.busy = false) :
    (c.eccEn && (s.errOut i).dirRead) = false ∧ (s.errOut i).dirWrite = false := by
  unfold errOut ErrFsm.comb
  cases hecc : c.eccEn with
  | false => exact ⟨rfl, rfl⟩
  | true =>
    have hf : s.err.fsmQ = .idle := by simpa [ErrFsm.busy, hecc] using h
    rw [if_pos rfl, hf]
    dsimp only
    split_ifs <;> exact ⟨rfl, rfl⟩

/-- In a walk only the handler uses the directory port. -/
theorem Owned.quiet_of_walk (h : s.Owned) (hw : s.cmo.fsmQ.walks = true)
    (hinit : s.mem.initQ = true) (hr : s.miss.refillBusy = false) :
    MemCtrl.OnlyCmo s.mem (s.memIn i) := by
  obtain ⟨-, hst2, herr⟩ := h.walk hw
  simp only [st2Busy, Bool.or_eq_false_iff] at hst2
  obtain ⟨hdir, hcheck, hwrite⟩ :=
    MissHandler.comb_quiet (i := s.missIn i) hr (refillReqReady_of_walks hw)
  obtain ⟨hread, herrw⟩ := errComb_of_not_busy (i := i) herr
  exact ⟨hinit, st0ReqCachedirRead_of_walks hw, hdir, hcheck, hwrite, hst2.2, hread, herrw⟩

end Cache

end Hpdcache
