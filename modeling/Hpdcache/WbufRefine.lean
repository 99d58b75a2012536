import Hpdcache.WbufWf
import Hpdcache.Lib.Lanes
import Hpdcache.Lib.Patch
import Hpdcache.Lib.System

/-!
# The write buffer refines the order of the writes

What the buffer emits on its two memory channels gives, once it is drained, the memory that the
accepted writes give in the order in which they were accepted.

**Memory.** A byte is addressed by a cacheline and an offset in it. A write covers the bytes that it
enables in one word of the request channel, an entry the bytes that it has collected, a transaction
the enabled lanes of one word of the memory channel.

**The abstraction.** At each byte, an entry that is open or waits to be sent is newer than what was
sent before (`Agrees`). Two such entries never have the same tag, so that the order in which they
leave is of no importance.

* `Wbuf.Hist.Agrees.step` — the abstraction is kept by every cycle.
* `Wbuf.refines` — the main result.
-/

namespace Hpdcache

open Hw

/-- Bytes of the data channel of the memory. -/
def Cfg.memBytes (c : Cfg) : Nat := c.memWords * c.wordBytes

/-- One beat of the data channel of the memory. -/
structure MemBeat where
  data : Nat → Byte
  be : Nat → Bool

namespace Wbuf

variable {c : Cfg}

/-! ## Writes, entries and transactions as partial writes -/

/-- A byte of the memory: a cacheline and an offset in it. -/
abbrev ByteAddr (c : Cfg) := Nline c × Nat

/-- The bytes that a write of the requesters covers. -/
def writePatch (i : WbufIn c) : Patch (ByteAddr c) Byte := fun a =>
  if a.1 = i.nline ∧ a.2 / c.reqBytes = i.offset / c.reqBytes ∧ i.writeBe (a.2 % c.reqBytes) = true
  then some (i.writeData (a.2 % c.reqBytes))
  else none

/-- The bytes that an entry of the buffer covers. -/
def entryPatch (t : WbufTag c) (e : WbufDataEntry) : Patch (ByteAddr c) Byte := fun a =>
  if tagOf a.1 a.2 = t ∧ e.be (a.2 % c.wbufBytes) = true then some (e.data (a.2 % c.wbufBytes))
  else none

/-- What the data channel carries: the entry repeated over the word, with the byte enables in the
place of the entry only. -/
def memBeat (t : WbufTag c) (e : WbufDataEntry) : MemBeat where
  data := fun x => e.data (x % c.wbufBytes)
  be := fun x =>
    if 1 < c.memBytes / c.wbufBytes then
      decide (x / c.wbufBytes = t.sub % (c.memBytes / c.wbufBytes)) && e.be (x % c.wbufBytes)
    else e.be x

/-- The bytes that the memory writes for an address and a beat. -/
def txnPatch (t : WbufTag c) (d : MemBeat) : Patch (ByteAddr c) Byte := fun a =>
  if a.1 = t.nline ∧ a.2 / c.memBytes = t.sub * c.wbufBytes / c.memBytes ∧
      d.be (a.2 % c.memBytes) = true
  then some (d.data (a.2 % c.memBytes))
  else none

theorem reqBytes_dvd_wbufBytes (c : Cfg) : c.reqBytes ∣ c.wbufBytes :=
  Nat.dvd_mul_left c.reqBytes c.wbufWords

/-- The bytes of a write are in the slot of its tag. -/
theorem writePatch_of_tag_ne {i : WbufIn c} {a : ByteAddr c} (h : tag i ≠ tagOf a.1 a.2) :
    writePatch i a = none := by
  refine if_neg ?_
  rintro ⟨hn, hoff, -⟩
  have hslot := ((div_eq_div_iff_slot c.wbufWords c.reqBytes _ _).2 hoff).1
  refine h ?_
  rw [hn]
  simp only [tag, tagOf, Cfg.wbufBytes, hslot]

theorem entryPatch_of_tag_ne {t : WbufTag c} {e : WbufDataEntry} {a : ByteAddr c}
    (h : t ≠ tagOf a.1 a.2) : entryPatch t e a = none := by
  refine if_neg ?_
  rintro ⟨ht, -⟩
  exact h ht.symm

/-- The byte enables of a write are put at its word of the entry. -/
theorem writeBe_iff {i : WbufIn c} {a : ByteAddr c} :
    tagOf a.1 a.2 = tag i ∧ writeBe i (a.2 % c.wbufBytes) = true ↔
      a.1 = i.nline ∧ a.2 / c.reqBytes = i.offset / c.reqBytes ∧
        i.writeBe (a.2 % c.reqBytes) = true := by
  have hdvd := reqBytes_dvd_wbufBytes c
  have hslot := div_eq_div_iff_slot c.wbufWords c.reqBytes a.2 i.offset
  simp only [tagOf, tag, WbufTag.mk.injEq, writeBe, Bool.and_eq_true, decide_eq_true_eq,
    Nat.mod_mod_of_dvd _ hdvd]
  rw [← hslot]
  simp only [Cfg.wbufBytes]
  tauto

/-- A write in a new entry, then a write in an entry in use. -/
theorem entryPatch_mergeData_true (i : WbufIn c) (e : WbufDataEntry) :
    entryPatch (tag i) (mergeData i true e) = writePatch i := by
  have hdvd := reqBytes_dvd_wbufBytes c
  funext a
  have hbe := @writeBe_iff c i a
  by_cases h : writeBe i (a.2 % c.wbufBytes) = true
  · simp only [entryPatch, writePatch, mergeData, h, if_true, Bool.not_true, Bool.false_and,
      Bool.false_or, ← hbe, Nat.mod_mod_of_dvd _ hdvd]
  · simp [entryPatch, writePatch, mergeData, h, ← hbe]

theorem entryPatch_mergeData_false (i : WbufIn c) (e : WbufDataEntry) :
    entryPatch (tag i) (mergeData i false e) = (writePatch i).overwrite (entryPatch (tag i) e) := by
  have hdvd := reqBytes_dvd_wbufBytes c
  funext a
  have hbe := @writeBe_iff c i a
  by_cases ht : tagOf a.1 a.2 = tag i
  · by_cases h : writeBe i (a.2 % c.wbufBytes) = true
    · simp [entryPatch, writePatch, mergeData, h, ht, ← hbe, Patch.overwrite, Nat.mod_mod_of_dvd _ hdvd]
    · simp [entryPatch, writePatch, mergeData, h, ht, ← hbe, Patch.overwrite]
  · simp [entryPatch, writePatch, ht, ← hbe, Patch.overwrite]

/-- The memory writes the bytes of the entry: the lanes enabled on its channel are those of the
entry at its place in the word. -/
theorem txnPatch_memBeat (hbus : c.wbufBytes ∣ c.memBytes) (t : WbufTag c) (e : WbufDataEntry) :
    txnPatch t (memBeat t e) = entryPatch t e := by
  obtain ⟨r, hr⟩ := hbus
  have hpos : 0 < c.wbufBytes :=
    Nat.mul_pos c.wbufWords_pos (Nat.mul_pos c.reqWords_pos c.wordBytes_pos)
  have hmem : 0 < c.memBytes := Nat.mul_pos c.memWords_pos c.wordBytes_pos
  have hdiv : c.memBytes / c.wbufBytes = r := by rw [hr, Nat.mul_div_cancel_left r hpos]
  have hword (x : Nat) : x / c.memBytes = x / c.wbufBytes / r := by
    rw [hr, Nat.div_div_eq_div_mul]
  have hsub : t.sub * c.wbufBytes / c.memBytes = t.sub / r := by
    rw [hword, Nat.mul_div_cancel _ hpos]
  have hbyte (x : Nat) : x % c.memBytes % c.wbufBytes = x % c.wbufBytes :=
    Nat.mod_mod_of_dvd x ⟨r, hr⟩
  have hslot (x : Nat) : x % c.memBytes / c.wbufBytes = x / c.wbufBytes % r := by
    rw [hr, Nat.mod_mul_right_div_self]
  -- the word of the memory and the place in it are the two parts of the slot
  have hplace (x : Nat) :
      x / c.wbufBytes / r = t.sub / r ∧ x / c.wbufBytes % r = t.sub % r ↔
        x / c.wbufBytes = t.sub := by
    constructor
    · rintro ⟨hq, hm⟩
      rw [← Nat.div_add_mod (x / c.wbufBytes) r, ← Nat.div_add_mod t.sub r, hq, hm]
    · intro h
      simp [h]
  funext a
  have htag : tagOf a.1 a.2 = t ↔ a.1 = t.nline ∧ a.2 / c.wbufBytes = t.sub := by
    cases t
    simp [tagOf]
  have hcond : (a.1 = t.nline ∧ a.2 / c.memBytes = t.sub * c.wbufBytes / c.memBytes ∧
      (memBeat t e).be (a.2 % c.memBytes) = true) ↔
      tagOf a.1 a.2 = t ∧ e.be (a.2 % c.wbufBytes) = true := by
    rw [htag, ← hplace, hsub, hword]
    by_cases h1 : 1 < r
    · simp only [memBeat, hdiv, h1, if_true, Bool.and_eq_true, decide_eq_true_eq, hbyte, hslot]
      tauto
    · have hr1 : r = 1 := by
        have : r ≠ 0 := by
          rintro rfl
          omega
        omega
      subst hr1
      have hlane : a.2 % c.memBytes = a.2 % c.wbufBytes := by rw [hr, Nat.mul_one]
      simp only [memBeat, hdiv, h1, if_false, hlane, Nat.mod_one, and_true]
      tauto
  have hdata : (memBeat t e).data (a.2 % c.memBytes) = e.data (a.2 % c.wbufBytes) := by
    simp only [memBeat, hbyte]
  simp only [txnPatch, entryPatch, hcond, hdata]

variable {b : Wbuf c} {i : WbufIn c} {k j : Fin c.wbufDirEntries}

/-! ## What is left to be sent -/

/-- The entry in use with the tag of a byte. -/
def pendEntry (b : Wbuf c) (a : ByteAddr c) : Option (Fin c.wbufDirEntries) :=
  first? fun k => (b.inState .opened k || b.inState .pend k) && decide ((b.dirQ k).tag = tagOf a.1 a.2)

/-- The bytes that an entry covers. -/
def dirPatch (b : Wbuf c) (k : Fin c.wbufDirEntries) : Patch (ByteAddr c) Byte :=
  entryPatch (b.dirQ k).tag (b.dataQ (b.dirQ k).ptr)

/-- The bytes that the entries in use cover. -/
def pendPatch (b : Wbuf c) : Patch (ByteAddr c) Byte := fun a =>
  (b.pendEntry a).bind fun k => b.dirPatch k a

variable {a : ByteAddr c}

theorem Wf.pendPatch_of_active (hw : b.Wf) (hk : b.Active k)
    (ht : (b.dirQ k).tag = tagOf a.1 a.2) : b.pendPatch a = b.dirPatch k a := by
  have hfirst : b.pendEntry a = some k := by
    refine first?_of_forall fun j => ?_
    simp only [Bool.and_eq_true, Bool.or_eq_true, inState_eq_true, decide_eq_true_eq]
    constructor
    · rintro ⟨hj, htj⟩
      exact hw.tag_inj j k hj hk (htj.trans ht.symm)
    · rintro rfl
      exact ⟨hk, ht⟩
  simp [pendPatch, hfirst]

theorem pendPatch_of_forall_ne (h : ∀ k, b.Active k → (b.dirQ k).tag ≠ tagOf a.1 a.2) :
    b.pendPatch a = none := by
  have hfirst : b.pendEntry a = none := by
    refine first?_eq_none_iff.2 fun k => ?_
    by_contra hk
    simp only [Bool.not_eq_false, Bool.and_eq_true, Bool.or_eq_true, inState_eq_true,
      decide_eq_true_eq] at hk
    exact h k hk.1 hk.2
  simp [pendPatch, hfirst]

/-- The bytes of the write of a cycle, if it is accepted. -/
def acceptedPatch (b : Wbuf c) (i : WbufIn c) : Patch (ByteAddr c) Byte := fun a =>
  if b.accepts i then writePatch i a else none

/-- An entry in use collects the accepted write when it has its tag. -/
theorem Wf.entryPatch_step (hw : b.Wf) (hk : b.Active k) (ht : (b.dirQ k).tag = tagOf a.1 a.2) :
    entryPatch (b.dirQ k).tag ((b.step i).dataQ (b.dirQ k).ptr) a =
      (b.acceptedPatch i a).or (b.dirPatch k a) := by
  have hstep : (b.step i).dataQ = b.dataNext i := rfl
  rw [hstep]
  cases hacc : b.accepts i with
  | false => simp [acceptedPatch, hacc, dataNext, hw.dataWrite_none hacc, dirPatch]
  | true =>
    rcases accepts_iff.1 hacc with halloc | ⟨j, hj⟩
    · have hne := hw.dataFreePtr_ne halloc (hw.ptr_valid k hk)
      have htag : tag i ≠ tagOf a.1 a.2 := by
        simp only [allocs, Bool.and_eq_true] at halloc
        rw [← ht]
        exact (not_active_of_writeFree halloc.2 hk).symm
      rw [dataNext_of_some (hw.dataWrite_allocs halloc), if_neg hne.symm]
      simp [acceptedPatch, hacc, writePatch_of_tag_ne htag, dirPatch]
    · rw [dataNext_of_some (hw.dataWrite_coalesces hj)]
      by_cases hjk : j = k
      · subst hjk
        rw [if_pos rfl, hj.2.2.2, entryPatch_mergeData_false]
        simp [acceptedPatch, hacc, Patch.overwrite, dirPatch, hj.2.2.2]
      · have hne : (b.dirQ j).ptr ≠ (b.dirQ k).ptr := fun h => hjk (hw.ptr_inj j k hj.2.2.1 hk h)
        have htag : tag i ≠ tagOf a.1 a.2 := by
          rw [← ht, ← hj.2.2.2]
          exact fun h => hjk (hw.tag_inj j k hj.2.2.1 hk h)
        rw [if_neg hne]
        simp [acceptedPatch, hacc, writePatch_of_tag_ne htag, dirPatch]

/-- The data of a slot that is to be sent does not change. -/
theorem Wf.dataQ_step_of_mem (hw : b.Wf) {s : WbufSendData c} (hs : s ∈ b.dataPtrFifo) :
    (b.step i).dataQ s.ptr = b.dataQ s.ptr := by
  have hstep : (b.step i).dataQ = b.dataNext i := rfl
  rw [hstep]
  cases hacc : b.accepts i with
  | false => simp [dataNext, hw.dataWrite_none hacc]
  | true =>
    rcases accepts_iff.1 hacc with halloc | ⟨j, hj⟩
    · have hne := hw.dataFreePtr_ne halloc (hw.fifo_valid s hs)
      rw [dataNext_of_some (hw.dataWrite_allocs halloc), if_neg hne.symm]
    · have hne := hw.fifo_ne s hs j hj.2.2.1
      rw [dataNext_of_some (hw.dataWrite_coalesces hj), if_neg hne.symm]

/-- A byte of no entry in use is covered after the cycle by the accepted write only. -/
theorem Wf.pendPatch_step_of_forall_ne (hw : b.Wf)
    (h : ∀ k, b.Active k → (b.dirQ k).tag ≠ tagOf a.1 a.2) :
    (b.step i).pendPatch a = b.acceptedPatch i a := by
  have hstep : (b.step i).dataQ = b.dataNext i := rfl
  by_cases hnew : b.allocs i = true ∧ tag i = tagOf a.1 a.2
  · obtain ⟨halloc, htag⟩ := hnew
    obtain ⟨k, hk⟩ := hw.exists_takes halloc
    have hact : (b.step i).Active k := hw.active_step_iff.2 (.inr hk)
    obtain ⟨htk, hpk⟩ := @Wf.dirQ_step _ _ i k hw
    simp only [hk, if_true] at htk hpk
    rw [(hw.step i).pendPatch_of_active hact (htk.trans htag), dirPatch, htk, hpk, hstep,
      dataNext_of_some (hw.dataWrite_allocs halloc), if_pos rfl, entryPatch_mergeData_true]
    simp [acceptedPatch, accepts_iff.2 (.inl halloc)]
  · have hpend : (b.step i).pendPatch a = none := by
      refine pendPatch_of_forall_ne fun k hk => ?_
      rcases hw.active_cases hk with ⟨hact, -, ht, -⟩ | ⟨ht, htag, -⟩
      · rw [ht]
        exact h k hact
      · rw [htag]
        exact fun heq => hnew ⟨allocs_of_takes ht, heq⟩
    rw [hpend]
    symm
    cases hacc : b.accepts i with
    | false => simp [acceptedPatch, hacc]
    | true =>
      have htag : tag i ≠ tagOf a.1 a.2 := by
        rcases accepts_iff.1 hacc with halloc | ⟨j, hj⟩
        · exact fun heq => hnew ⟨halloc, heq⟩
        · rw [← hj.2.2.2]
          exact h j hj.2.2.1
      simp [acceptedPatch, hacc, writePatch_of_tag_ne htag]

/-- When an entry is sent, the bytes of its tag are covered by no entry in use any more. -/
theorem Wf.pendPatch_step_of_sends (hw : b.Wf) (hk : b.sends k = true)
    (ht : (b.dirQ k).tag = tagOf a.1 a.2) : (b.step i).pendPatch a = none := by
  have hact := hw.active_of_sends hk
  refine pendPatch_of_forall_ne fun j hj => ?_
  rcases hw.active_cases hj with ⟨hj, hsend, htag, -⟩ | ⟨hj, htag, -⟩
  · rw [htag, ← ht]
    intro heq
    rw [hw.tag_inj j k hj hact heq, hk] at hsend
    contradiction
  · rw [htag, ← ht]
    exact tag_ne_of_takes hj hact

/-- An entry that stays in use covers its bytes and those of the accepted write. -/
theorem Wf.pendPatch_step_of_stays (hw : b.Wf) (hk : b.Active k) (hsend : b.sends k = false)
    (ht : (b.dirQ k).tag = tagOf a.1 a.2) :
    (b.step i).pendPatch a = (b.acceptedPatch i a).or (b.dirPatch k a) := by
  have hact : (b.step i).Active k := hw.active_step_iff.2 (.inl ⟨hk, hsend⟩)
  have hfree : b.takes i k = false := hw.takes_eq_false (by rcases hk with h | h <;> simp [h])
  obtain ⟨htk, hpk⟩ := @Wf.dirQ_step _ _ i k hw
  simp only [hfree, Bool.false_eq_true, if_false] at htk hpk
  rw [(hw.step i).pendPatch_of_active hact (htk.trans ht), dirPatch, htk, hpk]
  exact hw.entryPatch_step hk ht

/-! ## Runs -/

/-- A buffer with the writes that it has accepted and what it has emitted on its two channels. -/
structure Hist (c : Cfg) where
  buf : Wbuf c
  accepted : List (WbufIn c)
  metas : List (WbufMeta c)
  datas : List (WbufTag c × WbufDataEntry)

/-- The address that leaves in a cycle. -/
def metaOut (b : Wbuf c) (i : WbufIn c) : Option (WbufMeta c) :=
  Fifo.popped false b.metaFifo none i.memReqReady

/-- The data that leave in a cycle, with the tag that places the byte enables. -/
def dataOut (b : Wbuf c) (i : WbufIn c) : Option (WbufTag c × WbufDataEntry) :=
  (Fifo.popped false b.dataPtrFifo none i.memDataReady).map fun s => (s.tag, b.dataQ s.ptr)

namespace Hist

def init (b : Wbuf c) : Hist c := ⟨b, [], [], []⟩

def step (h : Hist c) (i : WbufIn c) : Hist c where
  buf := h.buf.step i
  accepted := h.accepted ++ if h.buf.accepts i then [i] else []
  metas := h.metas ++ (h.buf.metaOut i).toList
  datas := h.datas ++ (h.buf.dataOut i).toList

/-- The transactions as the memory sees them: each address with the beat of the same rank. -/
def txns (h : Hist c) : List (Patch (ByteAddr c) Byte) :=
  h.metas.zipWith (fun t d => txnPatch t.tag (memBeat d.1 d.2)) h.datas

/-- What has left the directory: the data emitted, and those which are still to be sent. -/
def sent (h : Hist c) : List (Patch (ByteAddr c) Byte) :=
  h.datas.map (fun d => entryPatch d.1 d.2) ++
    h.buf.dataPtrFifo.map fun s => entryPatch s.tag (h.buf.dataQ s.ptr)

/-- Every write accepted is in what was sent, or in an entry which is newer. -/
def Agrees (m : ByteAddr c → Byte) (h : Hist c) : Prop :=
  Patch.applyAll m (h.accepted.map writePatch) =
    Patch.apply (Patch.applyAll m h.sent) h.buf.pendPatch

/-- The two channels carry the same tags in the same order. -/
def Paired (h : Hist c) : Prop :=
  h.metas.map WbufMeta.tag ++ h.buf.metaFifo.map WbufMeta.tag =
    h.datas.map Prod.fst ++ h.buf.dataPtrFifo.map WbufSendData.tag

variable {h : Hist c} {m : ByteAddr c → Byte}

theorem metaOut_append_kept :
    (b.metaOut i).toList ++ b.keptMeta i = b.metaFifo :=
  Fifo.popped_append_tail

theorem dataOut_append_kept :
    (b.dataOut i).toList ++ (b.keptData i).map (fun s => (s.tag, b.dataQ s.ptr)) =
      b.dataPtrFifo.map fun s => (s.tag, b.dataQ s.ptr) := by
  unfold dataOut keptData Fifo.popped
  cases i.memDataReady with
  | false => simp
  | true => cases hq : b.dataPtrFifo <;> simp

/-- The slots that leave or stay are those that were to be sent, with the same data. -/
theorem Wf.sent_kept (hw : b.Wf) :
    (b.dataOut i).toList.map (fun d => entryPatch d.1 d.2) ++
        (b.keptData i).map (fun s => entryPatch s.tag ((b.step i).dataQ s.ptr)) =
      b.dataPtrFifo.map fun s => entryPatch s.tag (b.dataQ s.ptr) := by
  have hkept : (b.keptData i).map (fun s => entryPatch s.tag ((b.step i).dataQ s.ptr)) =
      (b.keptData i).map fun s => entryPatch s.tag (b.dataQ s.ptr) :=
    List.map_congr_left fun s hs => by rw [hw.dataQ_step_of_mem (mem_keptData hs)]
  have hout := congrArg (List.map fun d => entryPatch d.1 d.2) (dataOut_append_kept (b := b) (i := i))
  rw [hkept]
  simpa only [List.map_append, List.map_map, Function.comp_def] using hout

/-- The entry that is sent is added to what was sent. -/
theorem sent_step (hw : h.buf.Wf) :
    (∃ k, h.buf.sends k = true ∧ (h.step i).sent =
      h.sent ++ [entryPatch (h.buf.dirQ k).tag ((h.buf.step i).dataQ (h.buf.dirQ k).ptr)]) ∨
    ((∀ k, h.buf.sends k = false) ∧ (h.step i).sent = h.sent) := by
  have hkept := Wf.sent_kept (i := i) hw
  rcases hw.fifo_step (i := i) with ⟨k, hk, hd, -⟩ | ⟨hno, hd, -⟩
  · refine .inl ⟨k, hk, ?_⟩
    simp only [sent, step, hd, List.map_append, List.map_singleton, List.append_assoc, ← hkept]
  · refine .inr ⟨hno, ?_⟩
    simp only [sent, step, hd, List.map_append, List.append_assoc, ← hkept]

theorem Paired.step (hp : h.Paired) (hw : h.buf.Wf) (i : WbufIn c) : (h.step i).Paired := by
  have hmeta := congrArg (List.map WbufMeta.tag) (metaOut_append_kept (b := h.buf) (i := i))
  have hdata := congrArg (List.map Prod.fst) (dataOut_append_kept (b := h.buf) (i := i))
  simp only [List.map_append, List.map_map, Function.comp_def] at hmeta hdata
  unfold Paired at hp ⊢
  rw [← hmeta, ← hdata] at hp
  rcases hw.fifo_step (i := i) with ⟨k, -, hd, hm⟩ | ⟨-, hd, hm⟩
  · simp only [Hist.step, hd, hm, List.map_append, List.map_singleton, List.append_assoc] at hp ⊢
    simpa only [List.append_assoc] using congrArg (· ++ [(h.buf.dirQ k).tag]) hp
  · simp only [Hist.step, hd, hm, List.map_append, List.append_assoc] at hp ⊢
    exact hp

/-- The accepted writes after a cycle. -/
theorem accepted_step :
    Patch.applyAll m ((h.step i).accepted.map writePatch) =
      Patch.apply (Patch.applyAll m (h.accepted.map writePatch)) (h.buf.acceptedPatch i) := by
  have hpatch : h.buf.acceptedPatch i =
      if h.buf.accepts i then writePatch i else fun _ => none := by
    funext a
    unfold acceptedPatch
    split_ifs <;> rfl
  rw [hpatch]
  simp only [step, List.map_append, Patch.applyAll_append]
  cases h.buf.accepts i <;> simp

/-- An accepted write is collected by its entry, and the entry that is sent is not in use any
more. -/
theorem Agrees.step (ha : h.Agrees m) (hw : h.buf.Wf) (i : WbufIn c) : (h.step i).Agrees m := by
  unfold Agrees at ha ⊢
  rw [accepted_step, ha]
  funext a
  have hbuf : (h.step i).buf = h.buf.step i := rfl
  by_cases hact : ∃ k, h.buf.Active k ∧ (h.buf.dirQ k).tag = tagOf a.1 a.2
  · obtain ⟨k, hk, ht⟩ := hact
    have hold := hw.pendPatch_of_active hk ht
    have hor (x : Byte) : ((h.buf.acceptedPatch i a).or (h.buf.dirPatch k a)).getD x =
        (h.buf.acceptedPatch i a).getD ((h.buf.dirPatch k a).getD x) := by
      cases h.buf.acceptedPatch i a <;> simp
    cases hsend : h.buf.sends k with
    | true =>
      have hsent : (h.step i).sent =
          h.sent ++ [entryPatch (h.buf.dirQ k).tag ((h.buf.step i).dataQ (h.buf.dirQ k).ptr)] := by
        rcases sent_step (i := i) hw with ⟨j, hj, hs⟩ | ⟨hno, -⟩
        · rw [hs, hw.sends_unique hj hsend]
        · rw [hno k] at hsend
          contradiction
      simp only [Patch.apply, hbuf, hw.pendPatch_step_of_sends hsend ht, hold, hsent,
        Patch.applyAll_append, Patch.applyAll_singleton, hw.entryPatch_step hk ht, hor,
        Option.getD_none]
    | false =>
      have hsent : Patch.applyAll m (h.step i).sent a = Patch.applyAll m h.sent a := by
        rcases sent_step (i := i) hw with ⟨j, hj, hs⟩ | ⟨-, hs⟩
        · rw [hs, Patch.applyAll_append, Patch.applyAll_singleton]
          refine Patch.apply_of_none (entryPatch_of_tag_ne fun hj' => ?_)
          rw [hw.tag_inj j k (hw.active_of_sends hj) hk (hj'.trans ht.symm), hsend] at hj
          contradiction
        · rw [hs]
      simp only [Patch.apply, hbuf, hw.pendPatch_step_of_stays hk hsend ht, hold, hsent, hor]
  · have hne : ∀ k, h.buf.Active k → (h.buf.dirQ k).tag ≠ tagOf a.1 a.2 :=
      fun k hk ht => hact ⟨k, hk, ht⟩
    have hsent : Patch.applyAll m (h.step i).sent a = Patch.applyAll m h.sent a := by
      rcases sent_step (i := i) hw with ⟨k, hk, hs⟩ | ⟨-, hs⟩
      · rw [hs, Patch.applyAll_append, Patch.applyAll_singleton]
        exact Patch.apply_of_none (entryPatch_of_tag_ne (hne k (hw.active_of_sends hk)))
      · rw [hs]
    simp only [Patch.apply, hbuf, hw.pendPatch_step_of_forall_ne hne, pendPatch_of_forall_ne hne,
      hsent, Option.getD_none]

/-! ## Main result -/

theorem agrees_init (b : Wbuf c) (m : ByteAddr c → Byte) : (init b.reset).Agrees m := by
  have hpend : b.reset.pendPatch = fun _ => none := by
    funext a
    exact pendPatch_of_forall_ne fun k hk => by simp [Active, reset] at hk
  simp [Agrees, init, sent, hpend, show b.reset.dataPtrFifo = [] from rfl]

/-- Everything that a cycle keeps. -/
structure Inv (m : ByteAddr c → Byte) (h : Hist c) : Prop where
  wf : h.buf.Wf
  paired : h.Paired
  agrees : h.Agrees m

theorem inv_run (b : Wbuf c) (m : ByteAddr c → Byte) (is : List (WbufIn c)) :
    (run step (init b.reset) is).Inv m := by
  have hinit : (init b.reset).Inv m := ⟨wf_reset b, rfl, agrees_init b m⟩
  generalize init b.reset = h at hinit ⊢
  induction is generalizing h with
  | nil => exact hinit
  | cons i is ih =>
    exact ih _ ⟨hinit.wf.step i, hinit.paired.step hinit.wf i, hinit.agrees.step hinit.wf i⟩

theorem sequential_run (b : Wbuf c) {is : List (WbufIn c)}
    (hseq : ∀ i ∈ is, i.cfg.sequentialWaw = true) :
    (run step (init b.reset) is).buf.Sequential := by
  have hinit : (init b.reset).buf.Wf ∧ (init b.reset).buf.Sequential :=
    ⟨wf_reset b, by simp [Sequential, init, reset]⟩
  generalize init b.reset = h at hinit ⊢
  suffices (run step h is).buf.Wf ∧ (run step h is).buf.Sequential from this.2
  induction is generalizing h with
  | nil => exact hinit
  | cons i is ih =>
    refine ih (fun j hj => hseq j (List.mem_cons_of_mem i hj)) _ ?_
    exact ⟨hinit.1.step i, hinit.2.step hinit.1 (hseq i List.mem_cons_self)⟩

/-- Once nothing is left to be sent, the transactions are the entries that were sent. -/
theorem txns_of_drained (hbus : c.wbufBytes ∣ c.memBytes) (hp : h.Paired) (hd : h.buf.Drained) :
    h.txns = h.sent := by
  obtain ⟨-, hdata, hmeta⟩ := hd
  simp only [Paired, hdata, hmeta, List.map_nil, List.append_nil] at hp
  have htag : h.txns = List.zipWith (fun t d => txnPatch t (memBeat d.1 d.2))
      (h.metas.map WbufMeta.tag) h.datas := by
    rw [List.zipWith_map_left, txns]
  rw [htag, hp, List.zipWith_map_left, List.zipWith_self]
  simp [sent, hdata, txnPatch_memBeat hbus]

end Hist

/-- The write buffer refines the order of the writes. -/
theorem refines (hbus : c.wbufBytes ∣ c.memBytes) (b : Wbuf c) (m : ByteAddr c → Byte)
    (is : List (WbufIn c)) :
    let h := run Hist.step (Hist.init b.reset) is
    (h.buf.Drained → Patch.applyAll m h.txns = Patch.applyAll m (h.accepted.map writePatch)) ∧
    (∀ j k, h.buf.Active j → h.buf.Active k → (h.buf.dirQ j).tag = (h.buf.dirQ k).tag → j = k) ∧
    ((∀ i ∈ is, i.cfg.sequentialWaw = true) →
      ∀ j k, h.buf.stateQ j = .sent → h.buf.stateQ k = .sent →
        (h.buf.dirQ j).tag = (h.buf.dirQ k).tag → j = k) := by
  intro h
  obtain ⟨hwf, hpaired, hagrees⟩ := Hist.inv_run b m is
  refine ⟨fun hd => ?_, hwf.tag_inj, fun hseq j k hj hk => ?_⟩
  · have hpend : h.buf.pendPatch = fun _ => none := by
      funext a
      exact pendPatch_of_forall_ne fun k hk => absurd hk (hd.1 k)
    have hacc : Patch.applyAll m (h.accepted.map writePatch) =
        Patch.apply (Patch.applyAll m h.sent) h.buf.pendPatch := hagrees
    rw [hacc, hpend, Patch.apply_none, Hist.txns_of_drained hbus hpaired hd]
  · exact Hist.sequential_run b hseq j k hj (.inr hk)

/-! ## A run -/

/-- A buffer that has just been powered up. -/
def blank (c : Cfg) : Wbuf c where
  stateQ := fun _ => .free
  dirQ := fun _ => ⟨⟨0, c.wbufDataEntries_pos⟩, 0, ⟨⟨0, ⟨0, c.sets_pos⟩⟩, 0⟩, false⟩
  dataValidQ := fun _ => false
  dataQ := fun _ => ⟨fun _ => 0, fun _ => false⟩
  dirFreeArb := FxArb.reset _
  dataFreeArb := FxArb.reset _
  pendArb := RrArb.reset _
  dataPtrFifo := []
  metaFifo := []

def wtCfg : Cfg :=
  Cfg.small true false true false (Cfg.policy_wt false) (Cfg.latency_noEcc true)

/-- One byte of the second word of a line is written, and the memory is ready. -/
def writeIn (write : Bool) : WbufIn wtCfg where
  cfg := ⟨0, false, true, false⟩
  flushAll := false
  write := write
  nline := ⟨5, ⟨1, by decide⟩⟩
  offset := 8
  writeData := fun x => x + 1
  writeBe := fun x => x == 2
  writeUc := false
  readFlushHit := false
  memReqReady := true
  memDataReady := true
  ack := none

/-- The byte goes through the buffer to the memory. -/
theorem refines_writeIn :
    Patch.applyAll (fun _ => 0)
        (run Hist.step (Hist.init (blank wtCfg).reset)
          [writeIn true, writeIn false, writeIn false]).txns =
      Patch.applyAll (fun _ => 0)
        ((run Hist.step (Hist.init (blank wtCfg).reset)
          [writeIn true, writeIn false, writeIn false]).accepted.map writePatch) ∧
    (run Hist.step (Hist.init (blank wtCfg).reset)
        [writeIn true, writeIn false, writeIn false]).metas.map WbufMeta.tag =
      [⟨⟨5, ⟨1, by decide⟩⟩, 1⟩] := by
  refine ⟨(refines (by decide) (blank wtCfg) (fun _ => 0) _).1 ⟨?_, ?_, ?_⟩, ?_⟩
  · unfold Active
    decide
  · decide
  · decide
  · decide

end Wbuf

end Hpdcache
