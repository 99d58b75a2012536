import Hpdcache.Tracked

/-!
# Lines flushed by a walk

A walk that flushes the whole cache reads the entries one by one, and puts the dirty lines in a
buffer, from which the flush controller takes them. No dirty line is lost in the buffer, and none
is put in it twice.

The runs are those in which no refill starts with a walk (`Cache.Apart`): a walk that begins with
one may leave a dirty line behind.

* `Cmo.Buffered` — a line that the walk has read has room in the buffer.
* `Cache.WalkInv.flush_step` — a cycle of the walk hands a line over as it cleans its entry.
* `Cache.flushAll_run` — the flush controller is given every dirty line once, and no other line.
-/

namespace Hpdcache

open Hw

variable {c : Cfg}

/-- The walk flushes the whole cache. -/
def CmoFsm.flushesAll : CmoFsm → Bool
  | .flushAllFirst | .flushAllNext | .flushAllLast => true
  | _ => false

/-- The entry holds a dirty line. -/
def DirEntry.isDirty (e : DirEntry) : Bool := e.valid && e.dirty

/-! ## The buffer of the handler -/

namespace Cmo

variable {m : Cmo c} {i : CmoIn c}

/-- The buffer has room for the line that the walk has read. -/
structure Buffered (m : Cmo c) : Prop where
  wb : m.fsmQ.flushes = true → c.wbEn = true
  le : m.flushFifo.length ≤ 3
  lt : m.flushReqValidQ = true → m.fsmQ.flushes = true ∧ m.flushFifo.length < 3

theorem buffered_reset (m : Cmo c) : m.reset.Buffered where
  wb := nofun
  le := Nat.zero_le _
  lt := nofun

/-- A cycle in which the handler reads a line to flush. -/
def Reads (m : Cmo c) (i : CmoIn c) : Prop :=
  m.flushReqWok i = true ∧ m.flushReqIn i = none

/-- What the FSM reads or keeps as the line to flush. -/
theorem comb_flushReqValid (h : (m.comb i).flushReqValidD = true) :
    (m.fsmQ.flushes = false ∧ m.flushReqValidQ = true) ∨
      ((m.comb i).fsmD.flushes = true ∧ m.Reads i) := by
  unfold comb at h ⊢
  cases hf : m.fsmQ with
  | idle =>
    left
    rw [hf] at h
    simp only [combIdle, default] at h
    split_ifs at h <;> exact ⟨rfl, h⟩
  | fenceWaitWbufRtabEmpty =>
    left
    rw [hf] at h
    simp only [combFenceWait, default, done] at h
    split_ifs at h <;> exact ⟨rfl, h⟩
  | waitMshrRtabEmpty =>
    left
    rw [hf] at h
    simp only [combWaitMshr] at h
    refine ⟨rfl, ?_⟩
    split_ifs at h
    · rcases combStart_cases m i m.default with ⟨-, h'⟩ | h' | ⟨-, h'⟩ | ⟨-, -, h'⟩ | ⟨-, -, h'⟩ |
        ⟨-, -, h'⟩ | ⟨-, h'⟩ | ⟨-, -, h'⟩ <;> rw [h'] at h <;> exact h
    · exact h
  | invalCheckNline =>
    left
    rw [hf] at h
    exact ⟨rfl, h⟩
  | invalSet =>
    left
    rw [hf] at h
    simp only [combInvalSet, default, done] at h
    refine ⟨rfl, ?_⟩
    cases hop : m.opQ <;> rw [hop] at h <;> dsimp only at h <;> (try split_ifs at h) <;> exact h
  | flushAllFirst =>
    rw [hf] at h
    simp only [combFlushAllFirst] at h ⊢
    split_ifs at h ⊢ with hwb hok hinval
    · exact .inr ⟨rfl, hok, flushReqIn_eq_none (by rw [hf]; rfl)⟩
    · exact .inl ⟨rfl, h⟩
    · exact .inl ⟨rfl, h⟩
    · exact .inl ⟨rfl, h⟩
  | flushAllNext =>
    right
    rw [hf] at h
    simp only [combFlushAllNext] at h ⊢
    have hnone (hv : m.flushReqValidQ = false) : m.flushReqIn i = none := by
      simp [flushReqIn, flushReqW, hv]
    split_ifs at h ⊢ with hv hok hl
    · exact ⟨rfl, hok, hnone (by simpa using hv)⟩
    · exact ⟨by show m.fsmQ.flushes = true; rw [hf]; rfl, hok,
        hnone (by simpa using hv)⟩
    · exact absurd h hv
  | flushAllLast =>
    exfalso
    rw [hf] at h
    simp only [combFlushAllLast, updtEntry, done] at h
    split_ifs at h
  | flushNlineFirst =>
    rw [hf] at h
    simp only [combFlushNlineFirst] at h ⊢
    split_ifs at h ⊢ with hwb hok hinval
    · exact .inr ⟨rfl, hok, flushReqIn_eq_none (by rw [hf]; rfl)⟩
    · exact .inl ⟨rfl, h⟩
    · exact .inl ⟨rfl, h⟩
    · exact .inl ⟨rfl, h⟩
  | flushNlineNext =>
    exfalso
    rw [hf] at h
    simp only [combFlushNlineNext, done] at h
    split_ifs at h

/-- A walk holds lines to flush with write-back only. -/
theorem wbEn_of_fsmD (h : (m.comb i).fsmD.flushes = true) :
    m.fsmQ.flushes = true ∨ c.wbEn = true := by
  unfold comb at h
  cases hf : m.fsmQ with
  | flushAllNext | flushAllLast | flushNlineNext => exact .inl rfl
  | idle =>
    rw [hf] at h
    simp only [combIdle, default, hf] at h
    split_ifs at h <;> contradiction
  | fenceWaitWbufRtabEmpty =>
    rw [hf] at h
    simp only [combFenceWait, default, done, hf] at h
    split_ifs at h <;> contradiction
  | waitMshrRtabEmpty =>
    rw [hf] at h
    simp only [combWaitMshr] at h
    split_ifs at h
    · rcases combStart_cases m i m.default with ⟨-, h'⟩ | h' | ⟨-, h'⟩ | ⟨-, -, h'⟩ | ⟨-, -, h'⟩ |
        ⟨-, -, h'⟩ | ⟨-, h'⟩ | ⟨-, -, h'⟩ <;> rw [h'] at h <;>
        simp [default, done, hf, CmoFsm.flushes] at h
    · simp [default, hf, CmoFsm.flushes] at h
  | invalCheckNline =>
    rw [hf] at h
    contradiction
  | invalSet =>
    rw [hf] at h
    simp only [combInvalSet, default, done, hf] at h
    cases hop : m.opQ <;> rw [hop] at h <;> dsimp only at h <;> (try split_ifs at h) <;>
      contradiction
  | flushAllFirst =>
    rw [hf] at h
    simp only [combFlushAllFirst, default, done, hf] at h
    split_ifs at h with hwb
    · exact .inr hwb
    all_goals contradiction
  | flushNlineFirst =>
    rw [hf] at h
    simp only [combFlushNlineFirst, default, done, hf] at h
    split_ifs at h with hwb
    · exact .inr hwb
    all_goals contradiction

theorem Buffered.step (h : m.Buffered) : (m.step i).Buffered := by
  have hfifo : (m.step i).flushFifo =
    if c.wbEn then Fifo.step 3 true m.flushFifo (m.flushReqIn i) i.flushAllocReady
    else m.flushFifo := rfl
  refine ⟨?_, ?_, ?_⟩
  · intro hf
    exact (wbEn_of_fsmD hf).elim h.wb id
  · rw [hfifo]
    split_ifs
    · exact Fifo.length_step_le h.le
    · exact h.le
  · intro hv
    have hv' : (m.comb i).flushReqValidD = true := hv
    rcases comb_flushReqValid hv' with ⟨hf, hq⟩ | ⟨hf, hok, hnone⟩
    · rw [(h.lt hq).1] at hf
      contradiction
    · refine ⟨hf, ?_⟩
      have hwb := (wbEn_of_fsmD hf).elim h.wb id
      rw [hfifo, if_pos hwb, hnone]
      refine Fifo.length_step_none (by decide) h.le ?_
      rw [flushReqWok, hwb] at hok
      exact hok

end Cmo

/-! ## The lines that are handed over -/

/-- The line is that of an entry. -/
def CmoFlushReq.isAt (set : Fin c.sets) (w : Fin c.ways) (x : CmoFlushReq c) : Bool :=
  decide (x.nline.set = set) && x.way w

/-- The line of an entry. -/
def DirEntry.line (e : DirEntry) (set : Fin c.sets) (w : Fin c.ways) : CmoFlushReq c :=
  ⟨⟨e.tag, set⟩, ofIndex w⟩

/-- What becomes of an entry, with the lines that are handed over: it is left as it is, it was clean
and stays so, or it is cleaned as its line is handed over. -/
inductive Handed (set : Fin c.sets) (w : Fin c.ways) :
    DirEntry → DirEntry → List (CmoFlushReq c) → Prop
  | kept {e l} : l.filter (CmoFlushReq.isAt set w) = [] → Handed set w e e l
  | clean {e e' l} : e.isDirty = false → e'.isDirty = false →
      l.filter (CmoFlushReq.isAt set w) = [] → Handed set w e e' l
  | flushed {e e' l} : e.isDirty = true → e'.isDirty = false →
      l.filter (CmoFlushReq.isAt set w) = [e.line set w] → Handed set w e e' l

namespace Handed

variable {set : Fin c.sets} {w : Fin c.ways} {e e' e'' : DirEntry} {l l' : List (CmoFlushReq c)}

/-- What is clean is not handed over, and stays clean. -/
theorem of_clean (h : Handed set w e e' l) (he : e.isDirty = false) :
    e'.isDirty = false ∧ l.filter (CmoFlushReq.isAt set w) = [] := by
  cases h with
  | kept hl => exact ⟨he, hl⟩
  | clean _ he' hl => exact ⟨he', hl⟩
  | flushed hd =>
    rw [he] at hd
    contradiction

/-- What is cleaned is handed over. -/
theorem of_dirty (h : Handed set w e e' l) (he : e.isDirty = true) (he' : e'.isDirty = false) :
    l.filter (CmoFlushReq.isAt set w) = [e.line set w] := by
  cases h with
  | kept =>
    rw [he] at he'
    contradiction
  | clean hc =>
    rw [he] at hc
    contradiction
  | flushed _ _ hl => exact hl

theorem append (h : Handed set w e e' l) (h' : Handed set w e' e'' l') :
    Handed set w e e'' (l ++ l') := by
  have hfilter : (l ++ l').filter (CmoFlushReq.isAt set w) =
    l.filter (CmoFlushReq.isAt set w) ++ l'.filter (CmoFlushReq.isAt set w) := List.filter_append l l'
  cases h with
  | kept hl =>
    rw [hl, List.nil_append] at hfilter
    cases h' with
    | kept hl' => exact .kept (hfilter.trans hl')
    | clean he he'' hl' => exact .clean he he'' (hfilter.trans hl')
    | flushed he he'' hl' => exact .flushed he he'' (hfilter.trans hl')
  | clean he he' hl =>
    obtain ⟨he'', hl'⟩ := h'.of_clean he'
    exact .clean he he'' (by rw [hfilter, hl, hl']; rfl)
  | flushed he he' hl =>
    obtain ⟨he'', hl'⟩ := h'.of_clean he'
    exact .flushed he he'' (by rw [hfilter, hl, hl']; rfl)

end Handed

/-! ## A cycle of the walk -/

namespace Cache

variable {s : Cache c} {i : CacheIn c} {set : Fin c.sets} {w : Fin c.ways}

/-- The lines held in the buffer of the handler. -/
def flushHeld (s : Cache c) : List (CmoFlushReq c) := s.cmo.flushFifo

/-- The lines that enter the buffer of the handler. -/
def flushPut (s : Cache c) (i : CacheIn c) : List (CmoFlushReq c) :=
  (Fifo.accepted 3 true s.cmo.flushFifo (s.cmo.flushReqIn (s.cmoIn i)) s.flushAllocReady).toList

/-- The lines that the flush controller takes. -/
def flushGiven (s : Cache c) (i : CacheIn c) : List (CmoFlushReq c) :=
  if s.flush.doAlloc (s.flushIn i) then [⟨(s.flushIn i).allocNline, (s.flushIn i).allocWay⟩]
  else []

/-- In a walk with write-back the flush controller takes the lines of the buffer. -/
theorem flushGiven_append (h : s.Owned) (hw : s.cmo.fsmQ.walks = true) (hwb : c.wbEn = true) :
    s.flushGiven i ++ (s.step i).flushHeld = s.flushHeld ++ s.flushPut i := by
  have hst2 := (h.walk hw).2.1
  simp only [st2Busy, Bool.or_eq_false_iff] at hst2
  have hnst2 : s.st2.flushAllocQ = false := hst2.1.2
  have hready : s.flushAllocReady = s.flush.allocReady := by simp [flushAllocReady, hwb]
  have hfifo : (s.step i).flushHeld =
      Fifo.step 3 true s.cmo.flushFifo (s.cmo.flushReqIn (s.cmoIn i)) s.flushAllocReady := by
    have hstep : (s.step i).flushHeld = if c.wbEn then
      Fifo.step 3 true s.cmo.flushFifo (s.cmo.flushReqIn (s.cmoIn i)) s.flushAllocReady
      else s.cmo.flushFifo := rfl
    rw [hstep, if_pos hwb]
  have halloc : s.cmoFlushAlloc i =
      Fifo.rdata true s.cmo.flushFifo (s.cmo.flushReqIn (s.cmoIn i)) := by
    rw [cmoFlushAlloc, Cmo.flushAlloc, if_pos hwb]
  have hgiven : s.flushGiven i = (Fifo.popped true s.cmo.flushFifo
      (s.cmo.flushReqIn (s.cmoIn i)) s.flushAllocReady).toList := by
    have hdo : s.flush.doAlloc (s.flushIn i) =
        ((s.cmoFlushAlloc i).isSome && s.flushAllocReady) := by
      rw [hready, Flush.doAlloc, flushIn, hnst2]
      rfl
    rw [flushGiven, hdo, Fifo.popped, ← halloc]
    simp only [flushIn, hnst2, Bool.false_eq_true, if_false]
    cases hr : s.flushAllocReady <;> cases hc : s.cmoFlushAlloc i <;> rfl
  rw [hgiven, hfifo]
  exact Fifo.step_conserve

/-- The walk leaves the entries as they are in a cycle in which it has none to update. -/
theorem dirRam_keep (hf : s.cmo.fsmQ.flushesAll = true) (hv : s.cmo.flushReqValidQ = false)
    (hq : MemCtrl.OnlyCmo s.mem (s.memIn i)) : (s.step i).mem.dirRam = s.mem.dirRam := by
  by_cases he : (s.cmoOut i).dirCheckEntry = true
  · have hn : (s.cmoOut i).dirCheckNline = false := by
      unfold cmoOut Cmo.comb
      cases hfsm : s.cmo.fsmQ <;> rw [hfsm] at hf <;> try contradiction
      · simp only [Cmo.combFlushAllFirst, Cmo.checkEntry, Cmo.done, Cmo.default]
        split_ifs <;> rfl
      · simp only [Cmo.combFlushAllNext, Cmo.updtEntry, Cmo.checkEntry, Cmo.default]
        split_ifs <;> rfl
      · simp only [Cmo.combFlushAllLast, Cmo.updtEntry, Cmo.done, Cmo.default]
        split_ifs <;> rfl
    exact (hq.checkEntry hn he).2.2
  · have hout : (s.cmoOut i).dirCheckNline = false ∧ (s.cmoOut i).dirUpdt = false := by
      unfold cmoOut Cmo.comb
      cases hfsm : s.cmo.fsmQ <;> rw [hfsm] at hf <;> try contradiction
      · simp only [Cmo.combFlushAllFirst, Cmo.checkEntry, Cmo.done, Cmo.default]
        split_ifs <;> exact ⟨rfl, rfl⟩
      · simp only [Cmo.combFlushAllNext, hv, Bool.false_eq_true, if_false, Cmo.checkEntry,
          Cmo.default]
        split_ifs <;> exact ⟨rfl, rfl⟩
      · simp only [Cmo.combFlushAllLast, hv, Bool.false_eq_true, if_false, Cmo.done, Cmo.default]
        split_ifs <;> exact ⟨rfl, rfl⟩
    rw [Bool.not_eq_true] at he
    exact hq.keep hout.1 he hout.2

/-- A cycle of the walk hands a line over as it cleans its entry. -/
theorem WalkInv.flush_step (h : s.WalkInv) (hb : s.cmo.Buffered)
    (hf : s.cmo.fsmQ.flushesAll = true) (set : Fin c.sets) (w : Fin c.ways) :
    Handed set w (s.mem.dirRam set w) ((s.step i).mem.dirRam set w) (s.flushPut i) := by
  have hw : s.cmo.fsmQ.walks = true := by
    cases hfsm : s.cmo.fsmQ <;> rw [hfsm] at hf <;> first | rfl | contradiction
  have hne : s.cmo.fsmQ ≠ .idle := by
    intro hidle
    rw [hidle] at hf
    contradiction
  have hq := h.owned.quiet_of_walk (i := i) hw (h.tracked.init hne) (h.tracked.refill hw)
  cases hv : s.cmo.flushReqValidQ with
  | false =>
    have hnone : s.cmo.flushReqIn (s.cmoIn i) = none := by
      simp [Cmo.flushReqIn, Cmo.flushReqW, hv]
    rw [dirRam_keep hf hv hq]
    refine .kept ?_
    rw [flushPut, hnone]
    simp
  | true =>
    -- an entry is read: it is updated, and its line handed over when it is dirty
    obtain ⟨hfl, hlt⟩ := hb.lt hv
    have hwb := hb.wb hfl
    have hs := h.tracked.sweep
    unfold Sweep at hs
    have hread : s.Updates i ∧ s.Checked ∧ s.cmo.flushReqIn (s.cmoIn i) =
        if (s.cmoIn i).dirCheckEntryValid && (s.cmoIn i).dirCheckEntryDirty then
          some ⟨⟨(s.cmoIn i).dirCheckEntryTag, s.cmo.flushReqSetQ⟩, s.cmo.flushReqWayQ⟩
        else none := by
      cases hfsm : s.cmo.fsmQ <;> rw [hfsm] at hf hfl hs <;> try contradiction
      · refine ⟨updates_flushAllNext hfsm hv, SweepNext.checked hs hv, ?_⟩
        simp [Cmo.flushReqIn, Cmo.flushReqW, Cmo.flushReq, hfsm, hv, hwb]
      · refine ⟨updates_flushAllLast hfsm hv, SweepLast.checked hs hv, ?_⟩
        simp [Cmo.flushReqIn, Cmo.flushReqW, Cmo.flushReq, hfsm, hv, hwb]
    obtain ⟨hup, hc, hin⟩ := hread
    have hput : s.flushPut i = (s.cmo.flushReqIn (s.cmoIn i)).toList := by
      rw [flushPut, Fifo.accepted, if_pos]
      simp [Fifo.wok, hlt]
    by_cases hp : set = s.cmo.flushReqSetQ ∧ s.cmo.flushReqWayQ w = true
    · obtain ⟨hset, hway⟩ := hp
      obtain ⟨hvalid, hdirty, -, htag⟩ := hc.flags (i := i) hway
      have hclean : ((s.step i).mem.dirRam set w).isDirty = false := by
        rw [DirEntry.isDirty, Bool.and_eq_false_iff]
        by_cases hv' : ((s.step i).mem.dirRam set w).valid = true
        · exact .inr (hup.swept hq hc hset hway hv').2
        · exact .inl (by simpa using hv')
      obtain ⟨v, hone⟩ := hc.one
      have hvw : v = w := by
        rw [hone, ofIndex_eq_true] at hway
        exact hway.symm
      rw [hvalid, hdirty, htag, hone, hvw, ← hset] at hin
      cases hd : (s.mem.dirRam set w).isDirty with
      | true =>
        rw [DirEntry.isDirty] at hd
        refine .flushed hd hclean ?_
        rw [hput, hin, if_pos hd]
        simp [CmoFlushReq.isAt, DirEntry.line, ofIndex_self]
      | false =>
        refine .clean hd hclean ?_
        rw [DirEntry.isDirty] at hd
        rw [hput, hin, if_neg (by simp [hd])]
        rfl
    · rw [hup.other hq hp]
      refine .kept ?_
      rw [hput, hin]
      split_ifs
      · refine List.filter_eq_nil_iff.2 fun x hx hat => hp ?_
        rw [Option.toList_some, List.mem_singleton] at hx
        simp only [hx, CmoFlushReq.isAt, Bool.and_eq_true, decide_eq_true_eq] at hat
        exact ⟨hat.1.symm, hat.2⟩
      · rfl

/-! ## A whole walk -/

variable {is : List (CacheIn c)}

/-- A steady cycle of the walk. -/
structure FlushCycle (s : Cache c) (i : CacheIn c) : Prop where
  steady : s.Steady i
  flushes : s.cmo.fsmQ.flushesAll = true

/-- The invariants of a walk that flushes. -/
structure FlushInv (s : Cache c) : Prop extends WalkInv s where
  buffered : s.cmo.Buffered

theorem FlushInv.step (h : s.FlushInv) (hs : s.Steady i) : (s.step i).FlushInv :=
  ⟨h.toWalkInv.step hs, h.buffered.step⟩

theorem flushInv_run (hr : Along Cache.step Steady s.reset is) :
    (run Cache.step s.reset is).FlushInv := by
  have hreset : s.reset.FlushInv :=
    ⟨⟨inv_reset s, tracked_reset s⟩, Cmo.buffered_reset s.cmo⟩
  exact hr.invariant hreset fun _ _ => FlushInv.step

/-- What the cycles of a walk put in the buffer is what becomes of the entries. -/
theorem FlushInv.handed_run (h : s.FlushInv) (hj : Along Cache.step FlushCycle s is)
    (set : Fin c.sets) (w : Fin c.ways) :
    Handed set w (s.mem.dirRam set w) ((run Cache.step s is).mem.dirRam set w)
      (trace Cache.step flushPut s is) := by
  induction is generalizing s with
  | nil => exact .kept rfl
  | cons i is ih =>
    obtain ⟨hi, his⟩ := hj
    exact (h.toWalkInv.flush_step h.buffered hi.flushes set w).append
      (ih (h.step hi.steady) his)

/-- A walk that flushes the whole cache has write-back. -/
theorem FlushInv.wbEn_of_run (h : s.FlushInv) (hj : Along Cache.step FlushCycle s is)
    (hf : s.cmo.fsmQ = .flushAllFirst) (hidle : (run Cache.step s is).cmo.fsmQ = .idle) :
    c.wbEn = true := by
  by_contra hwb
  have hs := h.tracked.sweep
  unfold Sweep at hs
  rw [hf] at hs
  have hop : s.cmo.flushReqInvalQ = true := by
    rcases SweepFirst.op hs with hop | hop
    · exact absurd hop.2.2 hwb
    · exact hop.2
  cases is with
  | nil =>
    rw [run_nil, hf] at hidle
    contradiction
  | cons i is =>
    -- without write-back the handler goes on to invalidate
    have hnext : (s.step i).cmo.fsmQ = .invalSet := by
      show (s.cmoOut i).fsmD = .invalSet
      rw [cmoOut, Cmo.comb, hf]
      simp only [Cmo.combFlushAllFirst]
      rw [if_neg hwb, if_pos hop]
    cases is with
    | nil =>
      rw [run_cons, run_nil, hnext] at hidle
      contradiction
    | cons j is =>
      have hfl := hj.2.1.flushes
      rw [hnext] at hfl
      contradiction

/-- The last cycle of a walk that flushes the whole cache leaves no dirty line. -/
theorem WalkInv.not_dirty_of_idle (h : s.WalkInv) (hf : s.cmo.fsmQ.flushesAll = true)
    (hwb : c.wbEn = true) (hidle : (s.step i).cmo.fsmQ = .idle) :
    ((s.step i).mem.dirRam set w).isDirty = false := by
  have hne : s.cmo.fsmQ ≠ .idle ∧ s.cmo.fsmQ ≠ .fenceWaitWbufRtabEmpty := by
    constructor <;> intro hfsm <;> rw [hfsm] at hf <;> contradiction
  have hleaves : s.cmo.Leaves set ((s.step i).mem.dirRam set w) :=
    h.tracked.leaves h.owned hne hidle
  have hs := h.tracked.sweep
  unfold Sweep at hs
  have hop : s.cmo.FlushesAll := by
    cases hfsm : s.cmo.fsmQ <;> rw [hfsm] at hf hs <;> try contradiction
    · exact SweepFirst.op hs
    · exact SweepNext.op hs
    · exact SweepLast.op hs
  rw [DirEntry.isDirty, Bool.and_eq_false_iff]
  by_cases hv : ((s.step i).mem.dirRam set w).valid = true
  · right
    unfold Cmo.Leaves at hleaves
    rcases hop with ⟨hop, -, -⟩ | ⟨hop, -⟩
    · rw [hop] at hleaves
      exact hleaves hwb hv
    · rw [hop] at hleaves
      have hnv : ((s.step i).mem.dirRam set w).valid = false := hleaves
      rw [hnv] at hv
      contradiction
  · exact .inl (by simpa using hv)

theorem FlushInv.not_dirty_run (h : s.FlushInv) (hj : Along Cache.step FlushCycle s is)
    (hne : is ≠ []) (hwb : c.wbEn = true) (hidle : (run Cache.step s is).cmo.fsmQ = .idle) :
    ((run Cache.step s is).mem.dirRam set w).isDirty = false := by
  induction is generalizing s with
  | nil => exact absurd rfl hne
  | cons i is ih =>
    obtain ⟨hi, his⟩ := hj
    cases is with
    | nil => exact h.toWalkInv.not_dirty_of_idle hi.flushes hwb hidle
    | cons j js => exact ih (h.step hi.steady) his (by simp) hidle

/-- During a walk of a steady run that flushes the whole cache, from its first cycle to its last
one, the flush controller is given the line of every entry that was dirty, once, and nothing for the
other entries. -/
theorem flushAll_run (s : Cache c) (is js : List (CacheIn c))
    (hr : Along Cache.step Steady s.reset is)
    (hj : Along Cache.step FlushCycle (run Cache.step s.reset is) js)
    (set : Fin c.sets) (w : Fin c.ways) :
    let t := run Cache.step s.reset is
    t.cmo.fsmQ = .flushAllFirst → (run Cache.step t js).cmo.fsmQ = .idle →
      (trace Cache.step flushGiven t js).filter (CmoFlushReq.isAt set w) =
        if (t.mem.dirRam set w).isDirty then [(t.mem.dirRam set w).line set w] else [] := by
  intro t hf hidle
  have h : t.FlushInv := flushInv_run hr
  have hwb := h.wbEn_of_run hj hf hidle
  have hne : js ≠ [] := by
    rintro rfl
    rw [run_nil, hf] at hidle
    contradiction
  have hend : ((run Cache.step t js).mem.dirRam set w).isDirty = false :=
    h.not_dirty_run hj hne hwb hidle
  have hempty {u : Cache c} (hu : u.Owned) (hfl : u.cmo.fsmQ.flushes = false) :
      u.cmo.flushFifo = [] := by
    by_contra hn
    rw [(hu.holds hn).2] at hfl
    contradiction
  -- what the buffer is given in the walk leaves it before its end
  have hgiven : trace Cache.step flushGiven t js = trace Cache.step flushPut t js := by
    have hstrong := hj.strengthen h fun _ _ hu hi => hu.step hi.steady
    have hbal : trace Cache.step flushGiven t js ++ flushHeld (run Cache.step t js) =
        flushHeld t ++ trace Cache.step flushPut t js := by
      refine hstrong.balanced fun u i hu => flushGiven_append hu.1.owned ?_ hwb
      have hfl := hu.2.flushes
      cases hfsm : u.cmo.fsmQ <;> rw [hfsm] at hfl <;> first | rfl | contradiction
    have hall : Along Cache.step Steady s.reset (is ++ js) :=
      along_append.2 ⟨hr, hj.mono fun _ _ hu => hu.steady⟩
    have hend' := flushInv_run hall
    rw [run_append] at hend'
    have hstart : flushHeld t = [] := hempty h.owned (by rw [hf]; rfl)
    have hstop : flushHeld (run Cache.step t js) = [] := hempty hend'.owned (by rw [hidle]; rfl)
    rw [hstart, hstop, List.append_nil, List.nil_append] at hbal
    exact hbal
  rw [hgiven]
  have hhanded := h.handed_run hj set w
  cases hd : (t.mem.dirRam set w).isDirty with
  | true =>
    rw [if_pos rfl]
    exact hhanded.of_dirty hd hend
  | false =>
    rw [if_neg Bool.false_ne_true]
    exact (hhanded.of_clean hd).2

instance (s : Cache c) (i : CacheIn c) : Decidable (s.FlushCycle i) :=
  decidable_of_iff (s.Steady i ∧ s.cmo.fsmQ.flushesAll = true)
    ⟨fun h => ⟨h.1, h.2⟩, fun h => ⟨h.steady, h.flushes⟩⟩

end Cache

theorem flushAll_run_dirtyThenFlush :
    let t := run Cache.step (Cache.blank lowLatencyCfg).reset dirtyThenFlush
    (trace Cache.step Cache.flushGiven t (flushCycles ++ [.idle _])).filter
        (CmoFlushReq.isAt firstSet firstWay) =
      if (t.mem.dirRam firstSet firstWay).isDirty
      then [(t.mem.dirRam firstSet firstWay).line firstSet firstWay] else [] :=
  Cache.flushAll_run _ _ _ (along_append.1 steady_dirtyThenFlush).1 (by decide +kernel) _ _
    (by decide +kernel) (by decide +kernel)

end Hpdcache
