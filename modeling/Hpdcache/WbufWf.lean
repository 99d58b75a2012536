import Hpdcache.Wbuf
import Mathlib.Data.List.Nodup

/-!
# Entries of the write buffer

What every cycle of the write buffer keeps: the arbiters grant requests, two entries in use never
share a tag nor a data slot, and a slot that is to be sent belongs to no entry in use.

* `Wbuf.Wf.active_cases` — an entry in use after a cycle is an old one or a new one.
* `Wbuf.Wf.dataWrite_coalesces` — a write goes to the data slot of the entry with its tag.
* `Wbuf.Wf.step` — a cycle keeps the invariant.
* `Wbuf.Sequential.step` — with the writes of a tag in sequence, no two of them are sent together.
-/

namespace Hpdcache

open Hw

namespace Wbuf

variable {c : Cfg}

/-! ## Entries in use -/

/-- The entry collects writes or waits to be sent. -/
def Active (b : Wbuf c) (k : Fin c.wbufDirEntries) : Prop :=
  b.stateQ k = .opened ∨ b.stateQ k = .pend

/-- The write is taken by the buffer. -/
def accepts (b : Wbuf c) (i : WbufIn c) : Bool := i.write && b.writeReady i.cfg (tag i)

/-- The write takes a new entry. -/
def allocs (b : Wbuf c) (i : WbufIn c) : Bool := i.write && b.writeFree i.cfg (tag i)

/-- The entry `k` is sent to the memory channels. -/
def sends (b : Wbuf c) (k : Fin c.wbufDirEntries) : Bool := b.sendGrant k && b.sendReady

/-- Nothing is left to be sent. -/
def Drained (b : Wbuf c) : Prop :=
  (∀ k, ¬ b.Active k) ∧ b.dataPtrFifo = [] ∧ b.metaFifo = []

/-- The arbiters grant requests, two entries in use never share a tag nor a data slot, and the
slots to send are in use by nobody else. -/
structure Wf (b : Wbuf c) : Prop where
  dir_held : b.dirFreeArb.Held (b.inState .free)
  data_held : b.dataFreeArb.Held (fun p => !b.dataValidQ p)
  pend_held : b.pendArb.Held (b.inState .pend)
  tag_inj : ∀ j k, b.Active j → b.Active k → (b.dirQ j).tag = (b.dirQ k).tag → j = k
  ptr_inj : ∀ j k, b.Active j → b.Active k → (b.dirQ j).ptr = (b.dirQ k).ptr → j = k
  ptr_valid : ∀ k, b.Active k → b.dataValidQ (b.dirQ k).ptr = true
  fifo_nodup : (b.dataPtrFifo.map WbufSendData.ptr).Nodup
  fifo_valid : ∀ s ∈ b.dataPtrFifo, b.dataValidQ s.ptr = true
  fifo_ne : ∀ s ∈ b.dataPtrFifo, ∀ k, b.Active k → s.ptr ≠ (b.dirQ k).ptr

variable {b : Wbuf c} {i : WbufIn c} {k j : Fin c.wbufDirEntries} {t : WbufTag c}

@[simp] theorem inState_eq_true {s : WbufState} : b.inState s k = true ↔ b.stateQ k = s := by
  simp [inState]

@[simp] theorem hitState_eq_true {s : WbufState} :
    b.hitState s t k = true ↔ (b.dirQ k).tag = t ∧ b.stateQ k = s := by
  simp [hitState]

theorem wf_reset (b : Wbuf c) : b.reset.Wf where
  dir_held := FxArb.held_reset
  data_held := FxArb.held_reset
  pend_held := RrArb.held_reset
  tag_inj := by simp [Active, reset]
  ptr_inj := by simp [Active, reset]
  ptr_valid := by simp [Active, reset]
  fifo_nodup := List.nodup_nil
  fifo_valid := nofun
  fifo_ne := nofun

/-! ## What a cycle does to an entry -/

/-- A write finds its tag in no entry in use when it takes a new one. -/
theorem not_active_of_writeFree (h : b.writeFree i.cfg t = true) (hk : b.Active k) :
    (b.dirQ k).tag ≠ t := by
  intro ht
  simp only [writeFree, Bool.and_eq_true, Bool.not_eq_true', any_eq_false] at h
  obtain ⟨⟨⟨-, hopen⟩, hpend⟩, -⟩ := h
  rcases hk with hk | hk
  · exact absurd (hopen k) (by simp [hitState, inState, ht, hk])
  · exact absurd (hpend k) (by simp [hitState, inState, ht, hk])

theorem Wf.stateQ_of_takes (hw : b.Wf) (h : b.takes i k = true) : b.stateQ k = .free := by
  simp only [takes, Bool.and_eq_true] at h
  simpa using hw.dir_held.gnt_mem h.2

theorem Wf.takes_unique (hw : b.Wf) (hj : b.takes i j = true) (hk : b.takes i k = true) :
    j = k := by
  simp only [takes, Bool.and_eq_true] at hj hk
  exact hw.dir_held.oneHot_gnt j k hj.2 hk.2

theorem allocs_of_takes (h : b.takes i k = true) : b.allocs i = true := by
  simp only [takes, Bool.and_eq_true] at h
  simpa [allocs] using h.1

/-- A write that takes a new entry finds one. -/
theorem Wf.exists_takes (hw : b.Wf) (h : b.allocs i = true) : ∃ k, b.takes i k = true := by
  simp only [allocs, Bool.and_eq_true] at h
  have hfree : any (b.inState .free) = true := by
    have := h.2
    simp only [writeFree, dirFree, Bool.and_eq_true] at this
    exact this.1.1.1.1
  rw [← hw.dir_held.any_gnt] at hfree
  obtain ⟨k, hk⟩ := any_eq_true.1 hfree
  exact ⟨k, by simp [takes, h.1, h.2, dirFreeBv, hk]⟩

/-- The data slot that a new entry gets is free. -/
theorem Wf.dataFreePtr_free (hw : b.Wf) (h : b.allocs i = true) :
    b.dataValidQ b.dataFreePtr = false := by
  have hfree : any (fun p => !b.dataValidQ p) = true := by
    simp only [allocs, writeFree, dataFree, Bool.and_eq_true, Bool.not_eq_true', all_eq_false] at h
    obtain ⟨p, hp⟩ := h.2.1.1.1.2
    exact any_eq_true.2 ⟨p, by simp [hp]⟩
  rw [← hw.data_held.any_gnt] at hfree
  obtain ⟨p, hp⟩ := any_eq_true.1 hfree
  have hptr : b.dataFreePtr = p := hw.data_held.oneHot_gnt.toBinary _ hp
  have hmem := hw.data_held.gnt_mem hp
  rw [hptr]
  simpa using hmem

theorem Wf.stateQ_of_sends (hw : b.Wf) (h : b.sends k = true) : b.stateQ k = .pend := by
  simp only [sends, Bool.and_eq_true] at h
  simpa using hw.pend_held.gnt_mem h.1

theorem Wf.sends_unique (hw : b.Wf) (hj : b.sends j = true) (hk : b.sends k = true) : j = k := by
  simp only [sends, Bool.and_eq_true] at hj hk
  exact hw.pend_held.oneHot_gnt j k hj.1 hk.1

theorem Wf.takes_eq_false (hw : b.Wf) (h : b.stateQ k ≠ .free) : b.takes i k = false := by
  by_contra ht
  exact h (hw.stateQ_of_takes  (by simpa using ht))

theorem Wf.sends_eq_false (hw : b.Wf) (h : b.stateQ k ≠ .pend) : b.sends k = false := by
  by_contra hs
  exact h (hw.stateQ_of_sends (by simpa using hs))

/-- An entry is in use after the cycle when it was and is not sent, or when it is a new one. -/
theorem Wf.active_step_iff (hw : b.Wf) :
    (b.step i).Active k ↔ (b.Active k ∧ b.sends k = false) ∨ b.takes i k = true := by
  have htakes := @Wf.takes_eq_false _ _ i k hw
  have hsends := @Wf.sends_eq_false _ _ k hw
  simp only [Active, Wbuf.step, stateNext]
  cases hs : b.stateQ k with
  | free =>
    cases b.takes i k with
    | false => simp
    | true => cases sendNow i <;> simp
  | opened =>
    simp only [htakes (by simp [hs]), hsends (by simp [hs])]
    split_ifs <;> simp
  | pend =>
    simp only [htakes (by simp [hs]), sends]
    cases b.sendGrant k && b.sendReady <;> simp
  | sent =>
    simp only [htakes (by simp [hs])]
    split_ifs <;> simp

/-- An entry is sent until its acknowledge. -/
theorem Wf.sent_step_iff (hw : b.Wf) :
    (b.step i).stateQ k = .sent ↔
      (b.stateQ k = .sent ∧ i.ack ≠ some k) ∨ b.sends k = true := by
  have hsends := @Wf.sends_eq_false _ _ k hw
  simp only [Wbuf.step, stateNext]
  cases hs : b.stateQ k with
  | free =>
    simp only [hsends (by simp [hs])]
    split_ifs <;> simp
  | opened =>
    simp only [hsends (by simp [hs])]
    split_ifs <;> simp
  | pend =>
    simp only [sends]
    cases b.sendGrant k && b.sendReady <;> simp
  | sent =>
    simp only [hsends (by simp [hs])]
    split_ifs with ha <;> simp [ha]

/-- The tag and the data slot of an entry are written when it is taken only. -/
theorem Wf.dirQ_step (hw : b.Wf) :
    ((b.step i).dirQ k).tag = (if b.takes i k then tag i else (b.dirQ k).tag) ∧
      ((b.step i).dirQ k).ptr = if b.takes i k then b.dataFreePtr else (b.dirQ k).ptr := by
  have htakes := @Wf.takes_eq_false _ _ i k hw
  simp only [Wbuf.step, dirNext]
  cases hs : b.stateQ k with
  | free => cases b.takes i k <;> simp
  | opened =>
    simp only [htakes (by simp [hs]), Bool.false_eq_true, if_false]
    split_ifs <;> exact ⟨rfl, rfl⟩
  | pend => simp [htakes (by simp [hs])]
  | sent => simp [htakes (by simp [hs])]

/-- An entry in use after the cycle is an old one, which keeps its tag and its data slot, or a new
one. -/
theorem Wf.active_cases (hw : b.Wf) (hk : (b.step i).Active k) :
    (b.Active k ∧ b.sends k = false ∧ ((b.step i).dirQ k).tag = (b.dirQ k).tag ∧
      ((b.step i).dirQ k).ptr = (b.dirQ k).ptr) ∨
    (b.takes i k = true ∧ ((b.step i).dirQ k).tag = tag i ∧
      ((b.step i).dirQ k).ptr = b.dataFreePtr) := by
  obtain ⟨htag, hptr⟩ := @Wf.dirQ_step _ _ i k hw
  rcases hw.active_step_iff.1 hk with ⟨hact, hsend⟩ | ht
  · have ht : b.takes i k = false := hw.takes_eq_false (by rcases hact with h | h <;> simp [h])
    simp only [ht, Bool.false_eq_true, if_false] at htag hptr
    exact .inl ⟨hact, hsend, htag, hptr⟩
  · simp only [ht, if_true] at htag hptr
    exact .inr ⟨ht, htag, hptr⟩

/-! ## What a cycle does to the data -/

/-- The write goes to the entry `k`, which is in use. -/
def Coalesces (b : Wbuf c) (i : WbufIn c) (k : Fin c.wbufDirEntries) : Prop :=
  i.write = true ∧ i.cfg.inhibitWriteCoalescing = false ∧ b.Active k ∧ (b.dirQ k).tag = tag i

/-- A write is accepted in a new entry or in an entry in use. -/
theorem accepts_iff : b.accepts i = true ↔ b.allocs i = true ∨ ∃ k, b.Coalesces i k := by
  simp only [accepts, writeReady, allocs, Coalesces, Bool.and_eq_true, Bool.or_eq_true,
    Bool.not_eq_true', any_eq_true, hitState_eq_true, Active]
  constructor
  · rintro ⟨hwr, hfree | ⟨⟨k, hk⟩ | ⟨k, hk⟩, hinh⟩⟩
    · exact .inl ⟨hwr, hfree⟩
    · exact .inr ⟨k, hwr, hinh, .inl hk.2, hk.1⟩
    · exact .inr ⟨k, hwr, hinh, .inr hk.2, hk.1⟩
  · rintro (⟨hwr, hfree⟩ | ⟨k, hwr, hinh, hk | hk, ht⟩)
    · exact ⟨hwr, .inl hfree⟩
    · exact ⟨hwr, .inr ⟨.inl ⟨k, ht, hk⟩, hinh⟩⟩
    · exact ⟨hwr, .inr ⟨.inr ⟨k, ht, hk⟩, hinh⟩⟩

theorem not_coalesces_of_allocs (h : b.allocs i = true) : ¬ b.Coalesces i k := by
  rintro ⟨-, -, hk, ht⟩
  simp only [allocs, Bool.and_eq_true] at h
  exact not_active_of_writeFree h.2 hk ht

theorem Wf.coalesces_unique (hw : b.Wf) (hj : b.Coalesces i j) (hk : b.Coalesces i k) : j = k :=
  hw.tag_inj j k hj.2.2.1 hk.2.2.1 (hj.2.2.2.trans hk.2.2.2.symm)

/-- The entry that the loop over the directory picks is the only one with the tag. -/
theorem Wf.coalesces_iff (hw : b.Wf) {s : WbufState} (hs : s = .opened ∨ s = .pend)
    (hk : b.stateQ k = s) : b.coalesces i s k = true ↔ b.Coalesces i k := by
  have hact : ∀ j, b.hitState s (tag i) j = true → b.Active j := by
    intro j hj
    rw [hitState_eq_true] at hj
    rcases hs with rfl | rfl
    · exact .inl hj.2
    · exact .inr hj.2
  have hone : OneHot (b.hitState s (tag i)) := by
    intro j l hj hl
    refine hw.tag_inj j l (hact j hj) (hact l hl) ?_
    rw [hitState_eq_true] at hj hl
    rw [hj.1, hl.1]
  have hactk : b.Active k := by
    rcases hs with rfl | rfl
    · exact .inl hk
    · exact .inr hk
  simp only [coalesces, Coalesces, Bool.and_eq_true, Bool.not_eq_true', decide_eq_true_eq,
    any_eq_true]
  constructor
  · rintro ⟨⟨⟨hwr, j, hj⟩, hlast⟩, hinh⟩
    have hjk : k = j := hlast.trans (hone.toBinary _ hj)
    refine ⟨hwr, hinh, hactk, ?_⟩
    rw [hjk]
    exact (hitState_eq_true.1 hj).1
  · rintro ⟨hwr, hinh, -, ht⟩
    have hhit : b.hitState s (tag i) k = true := hitState_eq_true.2 ⟨ht, hk⟩
    exact ⟨⟨⟨hwr, k, hhit⟩, (hone.toBinary _ hhit).symm⟩, hinh⟩

/-- A position of the loop over the directory with no part in the write. -/
theorem Wf.dataWrite_idle (hw : b.Wf) (ht : b.takes i j = false) (hc : ¬ b.Coalesces i j)
    (acc : Option (Fin c.wbufDataEntries × Bool)) : b.dataWriteAt i acc j = acc := by
  unfold dataWriteAt
  cases hs : b.stateQ j with
  | free => simp [ht]
  | opened => simp [mt (hw.coalesces_iff (.inl rfl) hs).1 hc]
  | pend => simp [mt (hw.coalesces_iff (.inr rfl) hs).1 hc]
  | sent => rfl

/-- A write that takes a new entry goes to the free data slot. -/
theorem Wf.dataWrite_allocs (hw : b.Wf) (h : b.allocs i = true) :
    b.dataWrite i = some (b.dataFreePtr, true) := by
  obtain ⟨k, hk⟩ := hw.exists_takes h
  have hidle : ∀ j, j ≠ k → b.takes i j = false := by
    intro j hj
    by_contra ht
    exact hj (hw.takes_unique (by simpa using ht) hk)
  unfold dataWrite
  rw [foldl_finRange_eq fun j hj => hw.dataWrite_idle (hidle j hj) (not_coalesces_of_allocs h)]
  simp [dataWriteAt, hw.stateQ_of_takes hk, hk]

/-- A write that coalesces goes to the data slot of its entry. -/
theorem Wf.dataWrite_coalesces (hw : b.Wf) (h : b.Coalesces i k) :
    b.dataWrite i = some ((b.dirQ k).ptr, false) := by
  have htakes : ∀ j, b.takes i j = false := by
    intro j
    by_contra ht
    exact not_coalesces_of_allocs (allocs_of_takes (by simpa using ht)) h
  have hidle : ∀ j, j ≠ k → ¬ b.Coalesces i j := fun j hj hc => hj (hw.coalesces_unique hc h)
  unfold dataWrite
  rw [foldl_finRange_eq fun j hj => hw.dataWrite_idle (htakes j) (hidle j hj)]
  rcases h.2.2.1 with hs | hs
  · simp [dataWriteAt, hs, (hw.coalesces_iff (.inl rfl) hs).2 h]
  · simp [dataWriteAt, hs, (hw.coalesces_iff (.inr rfl) hs).2 h]

theorem Wf.dataWrite_none (hw : b.Wf) (h : b.accepts i = false) : b.dataWrite i = none := by
  have hno : ¬ (b.allocs i = true ∨ ∃ k, b.Coalesces i k) := by
    rw [← accepts_iff, h]
    exact Bool.false_ne_true
  refine foldl_eq_of_forall fun j _ => hw.dataWrite_idle ?_ (fun hc => hno (.inr ⟨j, hc⟩)) _
  by_contra ht
  exact hno (.inl (allocs_of_takes (by simpa using ht)))

/-- The data of a slot after a cycle. -/
theorem dataNext_of_some {p q : Fin c.wbufDataEntries} {init : Bool}
    (h : b.dataWrite i = some (q, init)) :
    b.dataNext i p = if q = p then mergeData i init (b.dataQ p) else b.dataQ p := by
  simp [dataNext, h]

/-! ## What a cycle does to the memory channels -/

/-- The slots to send that are left after the memory has taken one. -/
def keptData (b : Wbuf c) (i : WbufIn c) : List (WbufSendData c) :=
  if i.memDataReady then b.dataPtrFifo.tail else b.dataPtrFifo

def keptMeta (b : Wbuf c) (i : WbufIn c) : List (WbufMeta c) :=
  if i.memReqReady then b.metaFifo.tail else b.metaFifo

/-- Both channels get the entry that is sent, or none. -/
theorem Wf.fifo_step (hw : b.Wf) :
    (∃ k, b.sends k = true ∧
      (b.step i).dataPtrFifo = b.keptData i ++ [⟨(b.dirQ k).ptr, (b.dirQ k).tag⟩] ∧
      (b.step i).metaFifo = b.keptMeta i ++ [⟨(b.dirQ k).tag, k, (b.dirQ k).uc⟩]) ∨
    ((∀ k, b.sends k = false) ∧ (b.step i).dataPtrFifo = b.keptData i ∧
      (b.step i).metaFifo = b.keptMeta i) := by
  have hdata : Fifo.wok c.wbufDataEntries false b.dataPtrFifo i.memDataReady = b.sendDataReady := by
    simp [Fifo.wok, sendDataReady]
  have hmeta : Fifo.wok c.wbufDataEntries false b.metaFifo i.memReqReady = b.sendMetaReady := by
    simp [Fifo.wok, sendMetaReady]
  simp only [Wbuf.step, Fifo.step_eq, Fifo.accepted, hdata, hmeta, keptData, keptMeta]
  cases hr : b.sendReady with
  | false =>
    refine .inr ⟨fun k => by simp [sends, hr], ?_⟩
    rcases Bool.and_eq_false_iff.1 hr with h | h <;> simp [h]
  | true =>
    obtain ⟨hd, hm⟩ := Bool.and_eq_true_iff.1 hr
    cases hp : any (b.inState .pend) with
    | false =>
      refine .inr ⟨fun k => hw.sends_eq_false ?_, by simp, by simp⟩
      simpa [inState] using any_eq_false.1 hp k
    | true =>
      rw [← hw.pend_held.any_gnt] at hp
      obtain ⟨k, hk⟩ := any_eq_true.1 hp
      refine .inl ⟨k, by simp [sends, sendGrant, hk, hr], ?_⟩
      have hone : OneHot b.sendGrant := hw.pend_held.oneHot_gnt
      simp [hd, hm, metaSendDataPtr, metaSend, hone.mux hk]

theorem mem_keptData {s : WbufSendData c} (h : s ∈ b.keptData i) : s ∈ b.dataPtrFifo := by
  unfold keptData at h
  split_ifs at h
  · exact List.mem_of_mem_tail h
  · exact h

/-- A slot that is still to be sent was not sent in this cycle. -/
theorem Wf.dataSent_ne (hw : b.Wf) {s : WbufSendData c} (h : s ∈ b.keptData i) :
    b.dataSent i ≠ some s.ptr := by
  have hnd := hw.fifo_nodup
  unfold dataSent
  unfold keptData at h
  split_ifs at h ⊢ with hr
  · cases hq : b.dataPtrFifo with
    | nil => simp
    | cons x q =>
      rw [hq] at hnd h
      simp only [List.map_cons, List.nodup_cons] at hnd
      simp only [List.head?_cons, Option.map_some, ne_eq, Option.some.injEq]
      intro hx
      exact hnd.1 (hx ▸ List.mem_map_of_mem h)
  · simp

/-- A slot sent in this cycle is at the head of the slots to send. -/
theorem mem_of_dataSent {p : Fin c.wbufDataEntries} (h : b.dataSent i = some p) :
    ∃ s ∈ b.dataPtrFifo, s.ptr = p := by
  unfold dataSent at h
  split_ifs at h
  obtain ⟨s, hs, hp⟩ := Option.map_eq_some_iff.1 h
  exact ⟨s, List.mem_of_mem_head? hs, hp⟩

/-! ## The entries in use keep their slots -/

theorem dataValidQ_step {p : Fin c.wbufDataEntries} (h : b.dataValidQ p = true)
    (hs : b.dataSent i ≠ some p) : (b.step i).dataValidQ p = true := by
  simp [step, h, hs]

/-- An entry in use has its data slot for itself. -/
theorem Wf.dataSent_ne_ptr (hw : b.Wf) (hk : b.Active k) :
    b.dataSent i ≠ some (b.dirQ k).ptr := by
  intro h
  obtain ⟨s, hs, hp⟩ := mem_of_dataSent h
  exact hw.fifo_ne s hs k hk hp

/-- The slot of a new entry is neither in use nor to be sent. -/
theorem Wf.dataFreePtr_ne (hw : b.Wf) (h : b.allocs i = true) {p : Fin c.wbufDataEntries}
    (hp : b.dataValidQ p = true) : p ≠ b.dataFreePtr := by
  rintro rfl
  rw [hw.dataFreePtr_free h] at hp
  contradiction

theorem Wf.ptr_valid_step (hw : b.Wf) (hk : (b.step i).Active k) :
    (b.step i).dataValidQ ((b.step i).dirQ k).ptr = true := by
  rcases hw.active_cases hk with ⟨hact, -, -, hptr⟩ | ⟨ht, -, hptr⟩
  · rw [hptr]
    exact dataValidQ_step (hw.ptr_valid k hact) (hw.dataSent_ne_ptr hact)
  · have halloc := allocs_of_takes ht
    have hsent : b.dataSent i ≠ some b.dataFreePtr := by
      intro h
      obtain ⟨s, hs, hp⟩ := mem_of_dataSent h
      exact hw.dataFreePtr_ne halloc (hw.fifo_valid s hs) hp
    simp only [allocs, Bool.and_eq_true] at halloc
    rw [hptr]
    simp [Wbuf.step, halloc, hsent]

/-- A slot to send after the cycle was one before, or it is the slot of the entry that is sent. -/
theorem Wf.mem_fifo_step (hw : b.Wf) {s : WbufSendData c} (h : s ∈ (b.step i).dataPtrFifo) :
    s ∈ b.keptData i ∨
      ∃ k, b.sends k = true ∧ s = ⟨(b.dirQ k).ptr, (b.dirQ k).tag⟩ := by
  rcases hw.fifo_step (i := i) with ⟨k, hk, hd, -⟩ | ⟨-, hd, -⟩
  · rw [hd, List.mem_append, List.mem_singleton] at h
    exact h.imp_right fun h => ⟨k, hk, h⟩
  · rw [hd] at h
    exact .inl h

theorem Wf.active_of_sends (hw : b.Wf) (h : b.sends k = true) : b.Active k :=
  .inr (hw.stateQ_of_sends h)

theorem Wf.fifo_valid_step (hw : b.Wf) {s : WbufSendData c} (h : s ∈ (b.step i).dataPtrFifo) :
    (b.step i).dataValidQ s.ptr = true := by
  rcases hw.mem_fifo_step h with h | ⟨k, hk, rfl⟩
  · exact dataValidQ_step (hw.fifo_valid s (mem_keptData h)) (hw.dataSent_ne h)
  · have hact := hw.active_of_sends hk
    exact dataValidQ_step (hw.ptr_valid k hact) (hw.dataSent_ne_ptr hact)

/-- The entries that are in use after the cycle have slots of their own. -/
theorem Wf.fifo_ne_step (hw : b.Wf) {s : WbufSendData c} (h : s ∈ (b.step i).dataPtrFifo)
    (hk : (b.step i).Active k) : s.ptr ≠ ((b.step i).dirQ k).ptr := by
  have hvalid : b.dataValidQ s.ptr = true := by
    rcases hw.mem_fifo_step h with h | ⟨j, hj, rfl⟩
    · exact hw.fifo_valid s (mem_keptData h)
    · exact hw.ptr_valid j (hw.active_of_sends hj)
  rcases hw.active_cases hk with ⟨hact, hsend, -, hptr⟩ | ⟨ht, -, hptr⟩
  · rw [hptr]
    rcases hw.mem_fifo_step h with h | ⟨j, hj, rfl⟩
    · exact hw.fifo_ne s (mem_keptData h) k hact
    · intro hp
      rw [hw.ptr_inj j k (hw.active_of_sends hj) hact hp, hsend] at hj
      contradiction
  · rw [hptr]
    exact hw.dataFreePtr_ne (allocs_of_takes ht) hvalid

theorem Wf.fifo_nodup_step (hw : b.Wf) :
    ((b.step i).dataPtrFifo.map WbufSendData.ptr).Nodup := by
  have hkept : ((b.keptData i).map WbufSendData.ptr).Nodup := by
    unfold keptData
    split_ifs
    · rw [List.map_tail]
      exact hw.fifo_nodup.sublist (List.tail_sublist _)
    · exact hw.fifo_nodup
  rcases hw.fifo_step (i := i) with ⟨k, hk, hd, -⟩ | ⟨-, hd, -⟩
  · rw [hd, List.map_append, List.map_singleton, List.nodup_append]
    refine ⟨hkept, List.nodup_singleton _, ?_⟩
    intro p hp q hq
    obtain ⟨s, hs, rfl⟩ := List.mem_map.1 hp
    rw [List.mem_singleton.1 hq]
    exact hw.fifo_ne s (mem_keptData hs) k (hw.active_of_sends hk)
  · rw [hd]
    exact hkept

/-- A new entry has a tag that no entry in use has. -/
theorem tag_ne_of_takes (ht : b.takes i j = true) (hk : b.Active k) :
    tag i ≠ (b.dirQ k).tag := by
  have halloc := allocs_of_takes ht
  simp only [allocs, Bool.and_eq_true] at halloc
  exact (not_active_of_writeFree halloc.2 hk).symm

theorem Wf.tag_inj_step (hw : b.Wf) (hj : (b.step i).Active j) (hk : (b.step i).Active k)
    (h : ((b.step i).dirQ j).tag = ((b.step i).dirQ k).tag) : j = k := by
  rcases hw.active_cases hj with ⟨hj, -, htj, -⟩ | ⟨hj, htj, -⟩ <;>
    rcases hw.active_cases hk with ⟨hk, -, htk, -⟩ | ⟨hk, htk, -⟩ <;> rw [htj, htk] at h
  · exact hw.tag_inj j k hj hk h
  · exact absurd h.symm (tag_ne_of_takes hk hj)
  · exact absurd h (tag_ne_of_takes hj hk)
  · exact hw.takes_unique hj hk

theorem Wf.ptr_inj_step (hw : b.Wf) (hj : (b.step i).Active j) (hk : (b.step i).Active k)
    (h : ((b.step i).dirQ j).ptr = ((b.step i).dirQ k).ptr) : j = k := by
  rcases hw.active_cases hj with ⟨hj, -, -, hpj⟩ | ⟨hj, -, hpj⟩ <;>
    rcases hw.active_cases hk with ⟨hk, -, -, hpk⟩ | ⟨hk, -, hpk⟩ <;> rw [hpj, hpk] at h
  · exact hw.ptr_inj j k hj hk h
  · exact absurd h (hw.dataFreePtr_ne (allocs_of_takes hk) (hw.ptr_valid j hj))
  · exact absurd h.symm (hw.dataFreePtr_ne (allocs_of_takes hj) (hw.ptr_valid k hk))
  · exact hw.takes_unique hj hk

theorem Wf.step (hw : b.Wf) (i : WbufIn c) : (b.step i).Wf where
  dir_held := by
    refine hw.dir_held.step fun hready k hk => ?_
    have hfree : b.stateQ k = .free := by simpa using hw.dir_held.gnt_mem hk
    have ht : b.takes i k = false := by
      by_contra ht
      have halloc := allocs_of_takes (by simpa using ht)
      rw [allocs, hready] at halloc
      contradiction
    simp [Wbuf.step, inState, stateNext, hfree, ht]
  data_held := by
    refine hw.data_held.step fun hready p hp => ?_
    have hfree : b.dataValidQ p = false := by simpa using hw.data_held.gnt_mem hp
    simp [Wbuf.step, hfree, hready]
  pend_held := by
    refine hw.pend_held.step fun hready k hk => ?_
    have hpend : b.stateQ k = .pend := by simpa using hw.pend_held.gnt_mem hk
    simp [Wbuf.step, inState, stateNext, hpend, hready]
  tag_inj := fun j k hj hk h => hw.tag_inj_step hj hk h
  ptr_inj := fun j k hj hk h => hw.ptr_inj_step hj hk h
  ptr_valid := fun k hk => hw.ptr_valid_step hk
  fifo_nodup := hw.fifo_nodup_step
  fifo_valid := fun s hs => hw.fifo_valid_step hs
  fifo_ne := fun s hs k hk => hw.fifo_ne_step hs hk

/-! ## Writes in sequence -/

/-- An entry that is sent shares its tag with no other one that is sent or in use. -/
def Sequential (b : Wbuf c) : Prop :=
  ∀ j k, b.stateQ j = .sent → b.Active k ∨ b.stateQ k = .sent →
    (b.dirQ j).tag = (b.dirQ k).tag → j = k

/-- With the writes of a tag in sequence, a new entry waits for the one that is sent. -/
theorem not_sent_of_takes (hseq : i.cfg.sequentialWaw = true) (ht : b.takes i j = true)
    (hk : b.stateQ k = .sent) : tag i ≠ (b.dirQ k).tag := by
  intro heq
  have halloc := allocs_of_takes ht
  have hhit : any (b.hitState .sent (tag i)) = true :=
    any_eq_true.2 ⟨k, hitState_eq_true.2 ⟨heq.symm, hk⟩⟩
  simp [allocs, writeFree, hseq, hhit] at halloc

/-- An entry sent after the cycle was sent or waited, and has kept its tag. -/
theorem Wf.sent_cases (hw : b.Wf) (hk : (b.step i).stateQ k = .sent) :
    (b.Active k ∨ b.stateQ k = .sent) ∧ ((b.step i).dirQ k).tag = (b.dirQ k).tag := by
  have hused : b.Active k ∨ b.stateQ k = .sent := by
    rcases hw.sent_step_iff.1 hk with ⟨hs, -⟩ | hs
    · exact .inr hs
    · exact .inl (hw.active_of_sends hs)
  have ht : b.takes i k = false :=
    hw.takes_eq_false (by rcases hused with (h | h) | h <;> simp [h])
  obtain ⟨htag, -⟩ := @Wf.dirQ_step _ _ i k hw
  exact ⟨hused, by simpa [ht] using htag⟩

theorem Sequential.step (hs : b.Sequential) (hw : b.Wf) (hseq : i.cfg.sequentialWaw = true) :
    (b.step i).Sequential := by
  -- two entries that are sent or in use before the cycle have different tags
  have hold : ∀ j k, b.Active j ∨ b.stateQ j = .sent → b.Active k ∨ b.stateQ k = .sent →
      (b.dirQ j).tag = (b.dirQ k).tag → j = k := by
    intro j k hj hk heq
    rcases hj with hj | hj
    · rcases hk with hk | hk
      · exact hw.tag_inj j k hj hk heq
      · exact (hs k j hk (.inl hj) heq.symm).symm
    · exact hs j k hj hk heq
  intro j k hj hk heq
  obtain ⟨hjold, hjtag⟩ := hw.sent_cases hj
  rw [hjtag] at heq
  rcases hk with hk | hk
  · rcases hw.active_cases hk with ⟨hact, -, htag, -⟩ | ⟨ht, htag, -⟩
    · exact hold j k hjold (.inl hact) (heq.trans htag)
    · rw [htag] at heq
      rcases hjold with hact | hsent
      · exact absurd heq.symm (tag_ne_of_takes ht hact)
      · exact absurd heq.symm (not_sent_of_takes hseq ht hsent)
  · obtain ⟨hkold, hktag⟩ := hw.sent_cases hk
    exact hold j k hjold hkold (heq.trans hktag)

end Wbuf

end Hpdcache
