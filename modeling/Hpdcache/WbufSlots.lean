import Hpdcache.WbufRefine
import Hpdcache.Lib.System

/-!
# Slots and transactions of the write buffer

A data slot is taken with its directory entry, handed over to the queue of the data when the entry
is sent, and freed when the memory takes the beat; the entry itself waits for the acknowledge. The
buffer is run with the entries that it has sent, in order, as a history.

* `Wbuf.Owned.step` — the slots in use are those of the entries that wait and of the queue.
* `Wbuf.Handover.Lockstep.step` — the two queues and what has left them are the history.
* `Wbuf.Handover.Counted.step` — an entry is sent once more often than it is acknowledged exactly
  when it is in the state SENT.
* `Wbuf.Handover.ownership_run` — all of it, for every run.
-/

namespace Hpdcache

open Hw

namespace Wbuf

variable {c : Cfg} {b : Wbuf c} {i : WbufIn c} {k : Fin c.wbufDirEntries}
  {p : Fin c.wbufDataEntries}

/-! ## The slots in use -/

/-- Every slot in use belongs to an entry that waits or is to be sent. -/
def Owned (b : Wbuf c) : Prop :=
  ∀ p, b.dataValidQ p = true →
    (∃ k, b.Active k ∧ (b.dirQ k).ptr = p) ∨ ∃ s ∈ b.dataPtrFifo, s.ptr = p

theorem owned_reset (b : Wbuf c) : b.reset.Owned := by
  intro p hp
  have hno : b.reset.dataValidQ p = false := rfl
  rw [hno] at hp
  contradiction

/-- A slot to send stays in the queue until its beat is taken. -/
theorem mem_keptData_of_ne {s : WbufSendData c} (hs : s ∈ b.dataPtrFifo)
    (hne : b.dataSent i ≠ some s.ptr) : s ∈ b.keptData i := by
  unfold keptData
  unfold dataSent at hne
  cases hr : i.memDataReady with
  | false => exact hs
  | true =>
    cases hq : b.dataPtrFifo with
    | nil =>
      rw [hq] at hs
      contradiction
    | cons x q =>
      rw [hq] at hs
      obtain rfl | hs := List.mem_cons.1 hs
      · simp [hr, hq] at hne
      · exact hs

theorem Wf.mem_step_of_kept (hw : b.Wf) {s : WbufSendData c} (hs : s ∈ b.keptData i) :
    s ∈ (b.step i).dataPtrFifo := by
  obtain ⟨k, -, hd, -⟩ | ⟨-, hd, -⟩ := hw.fifo_step (i := i)
  · rw [hd]
    exact List.mem_append_left _ hs
  · rw [hd]
    exact hs

/-- The slot of an entry that is sent goes to the queue. -/
theorem Wf.mem_step_of_sends (hw : b.Wf) (hk : b.sends k = true) :
    ⟨(b.dirQ k).ptr, (b.dirQ k).tag⟩ ∈ (b.step i).dataPtrFifo := by
  obtain ⟨j, hj, hd, -⟩ | ⟨hno, -⟩ := hw.fifo_step (i := i)
  · rw [hd, hw.sends_unique hk hj]
    exact List.mem_append_right _ (List.mem_singleton.2 rfl)
  · rw [hno k] at hk
    contradiction

/-- A slot in use after the cycle was in use, or is the one of a new entry. -/
theorem dataValidQ_cases (hp : (b.step i).dataValidQ p = true) :
    b.dataSent i ≠ some p ∧
      (b.dataValidQ p = true ∨ (b.allocs i = true ∧ p = b.dataFreePtr)) := by
  have hnext : (b.step i).dataValidQ p =
      ((b.dataValidQ p || (b.allocs i && decide (p = b.dataFreePtr))) &&
        !decide (b.dataSent i = some p)) := rfl
  rw [hnext] at hp
  simp only [Bool.and_eq_true, Bool.or_eq_true, Bool.not_eq_true', decide_eq_true_eq,
    decide_eq_false_iff_not] at hp
  exact ⟨hp.2, hp.1⟩

/-- The slots in use are handed over, never dropped. -/
theorem Owned.step (ho : b.Owned) (hw : b.Wf) (i : WbufIn c) : (b.step i).Owned := by
  intro p hp
  obtain ⟨hsent, hold | ⟨halloc, rfl⟩⟩ := dataValidQ_cases hp
  · obtain ⟨k, hk, rfl⟩ | ⟨s, hs, rfl⟩ := ho p hold
    · cases hsend : b.sends k with
      | true => exact Or.inr ⟨_, hw.mem_step_of_sends hsend, rfl⟩
      | false =>
        have ht : b.takes i k = false :=
          hw.takes_eq_false (by rcases hk with h | h <;> simp [h])
        refine Or.inl ⟨k, hw.active_step_iff.2 (Or.inl ⟨hk, hsend⟩), ?_⟩
        rw [(hw.dirQ_step (i := i)).2, ht]
        rfl
    · exact Or.inr ⟨s, hw.mem_step_of_kept (mem_keptData_of_ne hs hsent), rfl⟩
  · obtain ⟨k, hk⟩ := hw.exists_takes halloc
    refine Or.inl ⟨k, hw.active_step_iff.2 (Or.inr hk), ?_⟩
    rw [(hw.dirQ_step (i := i)).2, hk]
    rfl

/-- The slots of the entries that wait and of the queue are distinct, and are those in use. -/
structure OwnsSlots (b : Wbuf c) : Prop where
  valid_iff : ∀ p, b.dataValidQ p = true ↔
    (∃ k, b.Active k ∧ (b.dirQ k).ptr = p) ∨ ∃ s ∈ b.dataPtrFifo, s.ptr = p
  entries : ∀ j k, b.Active j → b.Active k → (b.dirQ j).ptr = (b.dirQ k).ptr → j = k
  queue : (b.dataPtrFifo.map WbufSendData.ptr).Nodup
  apart : ∀ s ∈ b.dataPtrFifo, ∀ k, b.Active k → s.ptr ≠ (b.dirQ k).ptr

theorem Owned.ownsSlots (ho : b.Owned) (hw : b.Wf) : b.OwnsSlots where
  valid_iff p := by
    refine ⟨ho p, ?_⟩
    intro h
    obtain ⟨k, hk, rfl⟩ | ⟨s, hs, rfl⟩ := h
    · exact hw.ptr_valid k hk
    · exact hw.fifo_valid s hs
  entries := hw.ptr_inj
  queue := hw.fifo_nodup
  apart := hw.fifo_ne

/-- A grant of a free entry or of a free slot that is held is one of a free entry or slot. -/
structure HoldsFree (b : Wbuf c) : Prop where
  dir : b.dirFreeArb.waitQ = true → ∃ k, b.dirFreeArb.gntQ = ofIndex k ∧ b.stateQ k = .free
  data : b.dataFreeArb.waitQ = true →
    ∃ p, b.dataFreeArb.gntQ = ofIndex p ∧ b.dataValidQ p = false

theorem Wf.holdsFree (hw : b.Wf) : b.HoldsFree where
  dir hwait := by
    obtain ⟨k, hk, hreq⟩ := hw.dir_held.2 hwait
    exact ⟨k, hw.dir_held.1.eq_ofIndex hk, inState_eq_true.1 hreq⟩
  data hwait := by
    obtain ⟨p, hp, hreq⟩ := hw.data_held.2 hwait
    exact ⟨p, hw.data_held.1.eq_ofIndex hp, by simpa using hreq⟩

/-! ## The history of the entries that are sent -/

/-- The request of an entry. -/
def metaOf (x : Fin c.wbufDirEntries × WbufDirEntry c) : WbufMeta c := ⟨x.2.tag, x.1, x.2.uc⟩

/-- The data of an entry. -/
def dataOf (x : Fin c.wbufDirEntries × WbufDirEntry c) : WbufSendData c := ⟨x.2.ptr, x.2.tag⟩

/-- The entry that is sent in the cycle. -/
def sentEntry (b : Wbuf c) : Option (Fin c.wbufDirEntries × WbufDirEntry c) :=
  (first? b.sends).map fun k => (k, b.dirQ k)

/-- The slot of the beat that the memory takes in the cycle. -/
def beatOut (b : Wbuf c) (i : WbufIn c) : Option (WbufSendData c) :=
  Fifo.popped false b.dataPtrFifo none i.memDataReady

theorem Wf.sentEntry_of_sends (hw : b.Wf) (hk : b.sends k = true) :
    b.sentEntry = some (k, b.dirQ k) := by
  have hfirst : first? b.sends = some k :=
    first?_of_forall fun j => ⟨fun hj => hw.sends_unique hj hk, fun hj => hj ▸ hk⟩
  rw [sentEntry, hfirst]
  rfl

theorem sentEntry_of_forall (h : ∀ k, b.sends k = false) : b.sentEntry = none := by
  rw [sentEntry, first?_eq_none_iff.2 h]
  rfl

/-- Both queues get the entry that is sent. -/
theorem Wf.queues_step (hw : b.Wf) :
    (b.step i).metaFifo = b.keptMeta i ++ b.sentEntry.toList.map metaOf ∧
      (b.step i).dataPtrFifo = b.keptData i ++ b.sentEntry.toList.map dataOf := by
  obtain ⟨k, hk, hd, hm⟩ | ⟨hno, hd, hm⟩ := hw.fifo_step (i := i)
  · rw [hd, hm, hw.sentEntry_of_sends hk]
    exact ⟨rfl, rfl⟩
  · rw [hd, hm, sentEntry_of_forall hno]
    exact ⟨(List.append_nil _).symm, (List.append_nil _).symm⟩

/-- The buffer with what it has sent, what the memory has taken of it, and the acknowledges. -/
structure Handover (c : Cfg) where
  buf : Wbuf c
  sent : List (Fin c.wbufDirEntries × WbufDirEntry c)
  reqs : List (WbufMeta c)
  beats : List (WbufSendData c)
  acks : List (Fin c.wbufDirEntries)

namespace Handover

def init (b : Wbuf c) : Handover c := ⟨b, [], [], [], []⟩

def step (h : Handover c) (i : WbufIn c) : Handover c where
  buf := h.buf.step i
  sent := h.sent ++ h.buf.sentEntry.toList
  reqs := h.reqs ++ (h.buf.metaOut i).toList
  beats := h.beats ++ (h.buf.beatOut i).toList
  acks := h.acks ++ i.ack.toList

/-- The transactions whose data the memory has taken, by their identifiers. -/
def delivered (h : Handover c) : List (Fin c.wbufDirEntries) :=
  (h.sent.take h.beats.length).map Prod.fst

/-- The memory acknowledges a transaction whose data it has taken, and which it has not acknowledged
yet. -/
def AckPromise (h : Handover c) (i : WbufIn c) : Prop :=
  ∀ k, i.ack = some k → h.acks.count k < (h.step i).delivered.count k

/-- What has left each queue and what is in it is what was sent, in order. -/
structure Lockstep (h : Handover c) : Prop where
  reqs : h.reqs ++ h.buf.metaFifo = h.sent.map metaOf
  beats : h.beats ++ h.buf.dataPtrFifo = h.sent.map dataOf

variable {h : Handover c}

theorem Lockstep.step (hl : h.Lockstep) (hw : h.buf.Wf) (i : WbufIn c) : (h.step i).Lockstep := by
  obtain ⟨hm, hd⟩ := hw.queues_step (i := i)
  constructor
  · show h.reqs ++ (h.buf.metaOut i).toList ++ (h.buf.step i).metaFifo =
      (h.sent ++ h.buf.sentEntry.toList).map metaOf
    rw [hm, List.map_append, ← hl.reqs, ← Hist.metaOut_append_kept (i := i)]
    simp only [List.append_assoc]
  · show h.beats ++ (h.buf.beatOut i).toList ++ (h.buf.step i).dataPtrFifo =
      (h.sent ++ h.buf.sentEntry.toList).map dataOf
    have hkept : (h.buf.beatOut i).toList ++ h.buf.keptData i = h.buf.dataPtrFifo :=
      Fifo.popped_append_tail
    rw [hd, List.map_append, ← hl.beats, ← hkept]
    simp only [List.append_assoc]

/-- The beat of a rank belongs to the request of the same rank. -/
theorem Lockstep.paired (hl : h.Lockstep) {n : Nat} {m : WbufMeta c} {d : WbufSendData c}
    (hm : h.reqs[n]? = some m) (hd : h.beats[n]? = some d) :
    ∃ x, h.sent[n]? = some x ∧ m = metaOf x ∧ d = dataOf x := by
  have hreq : (h.sent.map metaOf)[n]? = some m := by
    rw [← hl.reqs]
    exact List.getElem?_append_left (List.getElem?_eq_some_iff.1 hm).1 ▸ hm
  have hbeat : (h.sent.map dataOf)[n]? = some d := by
    rw [← hl.beats]
    exact List.getElem?_append_left (List.getElem?_eq_some_iff.1 hd).1 ▸ hd
  rw [List.getElem?_map] at hreq hbeat
  obtain ⟨x, hx, rfl⟩ := Option.map_eq_some_iff.1 hreq
  rw [hx] at hbeat
  exact ⟨x, hx, rfl, (Option.some.inj hbeat).symm⟩

/-- The beats that the memory takes in the cycle were sent before it. -/
theorem Lockstep.beats_le (hl : h.Lockstep) (i : WbufIn c) :
    (h.step i).beats.length ≤ h.sent.length := by
  have hlen := congrArg List.length hl.beats
  have hkept : (h.buf.beatOut i).toList ++ h.buf.keptData i = h.buf.dataPtrFifo :=
    Fifo.popped_append_tail
  rw [← hkept] at hlen
  simp only [List.length_append, List.length_map] at hlen
  simp only [Handover.step, List.length_append]
  omega

/-! ## Acknowledges -/

/-- An entry was sent as often as it was acknowledged, and once more in the state SENT. -/
def Counted (h : Handover c) : Prop :=
  ∀ k, (h.sent.map Prod.fst).count k =
    h.acks.count k + if h.buf.stateQ k = .sent then 1 else 0

/-- An acknowledge that the memory may give finds its entry sent. -/
theorem Counted.sent_of_ack (hc : h.Counted) (hl : h.Lockstep) (hp : h.AckPromise i)
    (hk : i.ack = some k) : h.buf.stateQ k = .sent := by
  have hdel : (h.step i).delivered.count k ≤ (h.sent.map Prod.fst).count k := by
    have htake : (h.step i).delivered =
        (h.sent.map Prod.fst).take (h.step i).beats.length := by
      have hsent : (h.step i).sent = h.sent ++ h.buf.sentEntry.toList := rfl
      rw [delivered, hsent, List.take_append_of_le_length (hl.beats_le i), List.map_take]
    rw [htake]
    exact (List.take_sublist _ _).count_le k
  have hlt := hp k hk
  have hcount := hc k
  by_contra hne
  rw [if_neg hne] at hcount
  omega

/-- The entry that is sent adds one to its count. -/
theorem count_sent_step (hw : h.buf.Wf) :
    ((h.step i).sent.map Prod.fst).count k =
      (h.sent.map Prod.fst).count k + if h.buf.sends k = true then 1 else 0 := by
  have hsent : (h.step i).sent = h.sent ++ h.buf.sentEntry.toList := rfl
  rw [hsent, List.map_append, List.count_append]
  by_cases hk : h.buf.sends k = true
  · rw [hw.sentEntry_of_sends hk, if_pos hk]
    simp
  · rw [if_neg hk]
    cases hs : h.buf.sentEntry with
    | none => rfl
    | some x =>
      obtain ⟨j, hj, rfl⟩ := Option.map_eq_some_iff.1 hs
      have hne : j ≠ k := fun hjk => hk (hjk ▸ first?_mem hj)
      simp [hne]

/-- An acknowledge takes one from what an entry owes. -/
theorem Counted.step (hc : h.Counted) (hl : h.Lockstep) (hw : h.buf.Wf) (hp : h.AckPromise i) :
    (h.step i).Counted := by
  intro k
  have hacks : (h.step i).acks.count k =
      h.acks.count k + if i.ack = some k then 1 else 0 := by
    have hstep : (h.step i).acks = h.acks ++ i.ack.toList := rfl
    rw [hstep, List.count_append]
    cases ha : i.ack with
    | none => simp
    | some j => by_cases hj : j = k <;> simp [hj]
  have hstate : (h.step i).buf.stateQ k = .sent ↔
      (h.buf.stateQ k = .sent ∧ i.ack ≠ some k) ∨ h.buf.sends k = true := hw.sent_step_iff
  have hcount := hc k
  rw [count_sent_step hw, hacks, hcount]
  by_cases ha : i.ack = some k
  · -- The entry is freed: it was sent before, and it is not the one that is sent now.
    have hsent := hc.sent_of_ack hl hp ha
    have hno : h.buf.sends k = false := hw.sends_eq_false (by simp [hsent])
    have hfree : (h.step i).buf.stateQ k ≠ .sent := by
      rw [ne_eq, hstate]
      simp [ha, hno]
    simp [ha, hsent, hno, hfree]
  · by_cases hk : h.buf.sends k = true
    · have hpend : h.buf.stateQ k = .pend := hw.stateQ_of_sends hk
      have hnext : (h.step i).buf.stateQ k = .sent := hstate.2 (Or.inr hk)
      simp [ha, hk, hpend, hnext]
    · have hsame : (h.step i).buf.stateQ k = .sent ↔ h.buf.stateQ k = .sent := by
        rw [hstate]
        simp [ha, hk]
      simp [ha, hk, hsame]

/-! ## Runs -/

/-- What every cycle keeps. -/
structure Inv (h : Handover c) : Prop where
  wf : h.buf.Wf
  owned : h.buf.Owned
  lockstep : h.Lockstep

theorem inv_init (b : Wbuf c) : (init b.reset).Inv where
  wf := wf_reset b
  owned := owned_reset b
  lockstep := ⟨rfl, rfl⟩

theorem Inv.step (hi : h.Inv) (i : WbufIn c) : (h.step i).Inv where
  wf := hi.wf.step i
  owned := hi.owned.step hi.wf i
  lockstep := hi.lockstep.step hi.wf i

theorem inv_run (b : Wbuf c) (is : List (WbufIn c)) : (run step (init b.reset) is).Inv :=
  run_invariant (inv_init b) fun _ i hi => hi.step i

/-- What a run keeps when the memory acknowledges only what it has taken. -/
def Kept (h : Handover c) : Prop :=
  h.Inv ∧ h.Counted

theorem counted_run (b : Wbuf c) {is : List (WbufIn c)}
    (hp : Along step AckPromise (init b.reset) is) : (run step (init b.reset) is).Counted := by
  have hinit : (init b.reset).Kept := by
    refine ⟨inv_init b, ?_⟩
    intro k
    rfl
  have hkept : (run step (init b.reset) is).Kept := by
    apply hp.invariant hinit
    intro h i hi hpr
    exact ⟨hi.1.step i, hi.2.step hi.1.lockstep hi.1.wf hpr⟩
  exact hkept.2

/-- **Ownership.** After every run, the slots in use belong to one entry that waits or to one item
of the queue; a free grant that is held is one of a free entry or slot; the beats and the requests
are those of the same entries, in the same order; and when the memory acknowledges only what it has
taken, every acknowledge finds its entry sent. -/
theorem ownership_run (b : Wbuf c) (is : List (WbufIn c)) :
    let h := run step (init b.reset) is
    h.buf.OwnsSlots ∧ h.buf.HoldsFree ∧ h.Lockstep ∧
      (∀ (n : Nat) m d, h.reqs[n]? = some m → h.beats[n]? = some d →
        ∃ x, h.sent[n]? = some x ∧ m = metaOf x ∧ d = dataOf x) ∧
      (Along step AckPromise (init b.reset) is → ∀ i k, h.AckPromise i → i.ack = some k →
        h.buf.stateQ k = .sent) := by
  intro h
  have hi : h.Inv := inv_run b is
  refine ⟨hi.owned.ownsSlots hi.wf, hi.wf.holdsFree, hi.lockstep, ?_, ?_⟩
  · intro n m d hm hd
    exact hi.lockstep.paired hm hd
  · intro hp i k hpr hk
    exact (counted_run b hp).sent_of_ack hi.lockstep hpr hk

/-- A write of the line 6 of the same set. -/
def writeSix : WbufIn wtCfg := { writeIn true with nline := ⟨6, (writeIn true).nline.set⟩ }

/-- Two lines are written, and the memory takes both requests and both beats. -/
def twoWrites : List (WbufIn wtCfg) :=
  [writeIn true, writeSix, writeIn false, writeIn false, writeIn false]

instance (h : Handover c) (i : WbufIn c) : Decidable (h.AckPromise i) :=
  inferInstanceAs (Decidable (∀ k, i.ack = some k → h.acks.count k < (h.step i).delivered.count k))

/-- Both entries are in flight, and the memory may acknowledge either first. Each beat comes with
the request of its line. -/
theorem ownership_twoWrites :
    let h := run step (init (blank wtCfg).reset) twoWrites
    (∀ k, h.buf.stateQ k = .sent) ∧ h.reqs.length = 2 ∧ h.beats.length = 2 ∧
      ∀ (n : Nat) m d, h.reqs[n]? = some m → h.beats[n]? = some d → m.tag = d.tag := by
  intro h
  obtain ⟨-, -, -, hpaired, hacked⟩ := ownership_run (blank wtCfg) twoWrites
  refine ⟨?_, by decide +kernel, by decide +kernel, ?_⟩
  · intro k
    have hpromise : ∀ k, h.AckPromise { writeIn false with ack := some k } := by decide +kernel
    exact hacked (by decide +kernel) _ k (hpromise k) rfl
  · intro n m d hm hd
    obtain ⟨x, -, rfl, rfl⟩ := hpaired n m d hm hd
    rfl

end Handover

end Wbuf

end Hpdcache
