import Hpdcache.Fences
import Hpdcache.Lib.System
import Hpdcache.Indexing

/-!
# Runs of the cache

What holds after every run from reset. The invariants of the previous files rest on each other: the
lists of the replay table on the requests that enter in program order, these on the ways reserved by
the misses, and all of them on the ownership of the pipeline.

**Requirements.** The memory acknowledges a line after it has been sent it. Three situations in
which the controller loses track of a request are left out (`Cache.Regular`).

* `Cache.Inv.step` — a regular cycle keeps the invariants.
* `Cache.inv_run` — they hold after every regular run from reset.
* `Cache.lists_run` — the replay table as linked lists.
-/

namespace Hpdcache

open Hw

variable {c : Cfg}

namespace Cache

variable {s : Cache c} {i : CacheIn c} {S : Set (List (Fin c.rtabEntries))}
  {front : List (Fin c.rtabEntries)} {is : List (CacheIn c)}

/-- A cycle that keeps the invariants: the memory behaves, a replayed request that finds an
uncorrectable error is not answered, a request is not looked up with an attribute that changes, and
a request recorded as cacheable is not replayed with the cache disabled. -/
structure Regular (s : Cache c) (i : CacheIn c) : Prop where
  answers : s.Answers i
  not_leak : s.leaks i = false
  not_late : s.lateLookup i = false
  not_disabled : s.disabledReplay i = false

/-- The invariants of the cache. -/
structure Inv (s : Cache c) : Prop where
  owned : s.Owned
  tabled : ∃ S front, s.Tabled S front
  looked : s.Looked
  roomy : s.Roomy
  fetching : s.Fetching
  drains : s.flush.Drains
  fences : s.Fences

theorem inv_reset (s : Cache c) : s.reset.Inv where
  owned := owned_reset s
  tabled := ⟨∅, [], tabled_reset s⟩
  looked := looked_reset s
  roomy := nofun
  fetching := fetching_reset s
  drains := Flush.drains_reset s.flush
  fences := fences_reset s

theorem Inv.drives (h : s.Inv) (hr : s.Regular i) (ht : s.Tabled S front) :
    s.rtab.Drives s.popped (s.rtabIn i) :=
  ht.drives h.owned hr.not_leak h.fences.core

theorem Inv.owned_step (h : s.Inv) : (s.step i).Owned := by
  obtain ⟨S, front, ht⟩ := h.tabled
  exact h.owned.step ht.stored ht.valid_popTry fun hv hr =>
    ht.valid_popped (popped_eq_some.2 ⟨hv, hr, rfl⟩)

/-- A regular cycle keeps the invariants. -/
theorem Inv.step (h : s.Inv) (hr : s.Regular i) : (s.step i).Inv := by
  obtain ⟨S, front, ht⟩ := h.tabled
  have hd := h.drives hr ht
  have howned := h.owned_step (i := i)
  exact
    { owned := howned
      tabled := ht.step h.owned hd
      looked := Looked.step h.owned howned.scrub
      roomy := Roomy.step h.owned h.looked hr.not_late
      fetching := h.fetching.step h.owned h.roomy fun hamo =>
        h.fences.amo_not_fetch h.owned ht h.looked h.fetching h.drains hr.not_disabled hamo
      drains := drains_step h.drains hr.answers
      fences := h.fences.step h.owned ht hd h.looked h.fetching h.drains hr.not_disabled }

theorem inv_run (hr : Along Cache.step Regular s.reset is) :
    (run Cache.step s.reset is).Inv :=
  hr.invariant (inv_reset s) fun _ _ => Inv.step

theorem regular_of_quiet (h : (i.flushAck.isNone && !s.leaks i && !s.lateLookup i &&
    !s.disabledReplay i) = true) : s.Regular i := by
  simp only [Bool.and_eq_true, Bool.not_eq_true', Option.isNone_iff_eq_none] at h
  obtain ⟨⟨⟨hack, hleak⟩, hlate⟩, hdis⟩ := h
  refine ⟨fun _ k hk => ?_, hleak, hlate, hdis⟩
  rw [hack] at hk
  contradiction

/-! ## The replay table -/

/-- After every regular run the valid entries of the replay table are disjoint lists, each ended by
its only tail. The entries of a list have the same line. The lists of two lines that are compared,
those without fences, have different lines, and a fence is alone in its list. Every list has one
head, its first entry, but the one being popped, which has none. A pop grant that the arbiter holds
is an entry ready to be replayed. -/
theorem lists_run (s : Cache c) (is : List (CacheIn c))
    (hr : Along Cache.step Regular s.reset is) :
    let t := run Cache.step s.reset is
    let r := t.rtab
    ∃ S front, r.links.Chains S front ∧ LinkTable.Keyed r.nline r.isFence S ∧
      r.PopAt t.popped front ∧
      (∀ l ∈ S, (∃! k, k ∈ l ∧ r.tailQ k = true) ∧
        (l ≠ front → ∃! k, k ∈ l ∧ r.headQ k = true) ∧
        (l = front → ∀ k ∈ l, r.headQ k = false)) ∧
      (r.popArb.waitQ = true → ∃ k, r.popArb.gntQ = ofIndex k ∧ r.ready k = true) := by
  intro t r
  obtain ⟨S, front, ht⟩ := (inv_run hr).tabled
  have hw : r.Wf t.popped S front := ht.wf
  refine ⟨S, front, hw.chains, hw.keyed, hw.pop, fun l hl => ⟨?_, fun hne => ?_, ?_⟩, fun hwait => ?_⟩
  · have hlinked := hw.chains.linked l hl
    obtain ⟨k, hk, htail⟩ := hlinked.exists_tail
    exact ⟨k, ⟨hk, htail⟩, fun j hj => hlinked.tail_unique hj.1 hk hj.2 htail⟩
  · obtain ⟨a, m, rfl⟩ := List.exists_cons_of_ne_nil (hw.chains.linked l hl).ne_nil
    refine ⟨a, ⟨List.mem_cons_self, (hw.chains.head a).2 ⟨_, hl, hne, rfl⟩⟩, fun j hj => ?_⟩
    obtain ⟨l', hl', -, hhead⟩ := (hw.chains.head j).1 hj.2
    have hsame := hw.chains.disjoint _ hl _ hl' j hj.1 (List.mem_of_head? hhead)
    rw [← hsame] at hhead
    exact (Option.some.inj hhead).symm
  · rintro rfl k hk
    exact hw.chains.head_eq_false_of_front hk
  · obtain ⟨k, hk, hready⟩ := hw.held.2 hwait
    refine ⟨k, ?_, hready⟩
    funext j
    rw [Bool.eq_iff_iff, ofIndex_eq_true]
    exact ⟨fun hj => hw.held.1 j k hj hk, by rintro rfl; exact hk⟩

end Cache

/-! ## Two lists for one line -/

/-- An access of eight bytes, with its tag. -/
def Req.access (op : ReqOp) (tag : Nat) (uncacheable : Bool) : Req c :=
  { Req.zero c with
    op := op
    addrTag := tag
    be := fun k => decide (k < 8)
    size := 3
    needRsp := true
    physIndexed := true
    pma := ⟨uncacheable, .auto⟩ }

/-- The core asks for `q`. -/
def CacheIn.ask (q : Req c) : CacheIn c :=
  { CacheIn.idle c with coreReqValid := true, coreReq := q }

/-- A load that misses, a load that waits for the miss, and an uncacheable load of the line. -/
def sameLine : List (CacheIn lowLatencyCfg) :=
  [.idle _, .idle _, .ask (.access .load 1 false), .idle _, .idle _, .ask (.access .load 1 false),
    .idle _, .ask (.access .load 1 true), .idle _]

def sameLineRtab : Rtab lowLatencyCfg :=
  (run Cache.step (Cache.blank lowLatencyCfg).reset sameLine).rtab

def entry0 : Fin lowLatencyCfg.rtabEntries := ⟨0, by decide⟩

def entry1 : Fin lowLatencyCfg.rtabEntries := ⟨1, by decide⟩

theorem regular_sameLine :
    Along Cache.step Cache.Regular (Cache.blank lowLatencyCfg).reset sameLine :=
  Along.mono (P := fun s i => (i.flushAck.isNone && !s.leaks i && !s.lateLookup i &&
    !s.disabledReplay i) = true) (by decide +kernel) fun _ _ => Cache.regular_of_quiet

theorem lists_run_sameLine :
    let t := run Cache.step (Cache.blank lowLatencyCfg).reset sameLine
    let r := t.rtab
    ∃ S front, r.links.Chains S front ∧ LinkTable.Keyed r.nline r.isFence S ∧
      r.PopAt t.popped front ∧
      (∀ l ∈ S, (∃! k, k ∈ l ∧ r.tailQ k = true) ∧
        (l ≠ front → ∃! k, k ∈ l ∧ r.headQ k = true) ∧
        (l = front → ∀ k ∈ l, r.headQ k = false)) ∧
      (r.popArb.waitQ = true → ∃ k, r.popArb.gntQ = ofIndex k ∧ r.ready k = true) :=
  Cache.lists_run _ _ regular_sameLine

/-- The uncacheable load makes a list of its own, although its line has one. -/
theorem sameLine_not_separate : ¬ ∃ S front, sameLineRtab.links.Chains S front ∧
    LinkTable.Keyed sameLineRtab.nline (fun _ => false) S := by
  have hh : sameLineRtab.headQ entry0 = true ∧ sameLineRtab.headQ entry1 = true := by
    decide +kernel
  have h0 : sameLineRtab.nline entry0 = ⟨1, ⟨0, by decide⟩⟩ := by decide +kernel
  have h1 : sameLineRtab.nline entry1 = ⟨1, ⟨0, by decide⟩⟩ := by decide +kernel
  have hline := h0.trans h1.symm
  clear h0 h1
  generalize sameLineRtab = r at hh hline ⊢
  rintro ⟨S, front, hc, hk⟩
  obtain ⟨l, hl, -, h0⟩ := (hc.head _).1 hh.1
  obtain ⟨m, hm, -, h1⟩ := (hc.head _).1 hh.2
  refine hk.separate l hl m hm ?_ _ (List.mem_of_head? h0) _ (List.mem_of_head? h1) rfl rfl hline
  -- a list has one first entry
  rintro rfl
  rw [h0] at h1
  exact absurd (Option.some.inj h1) (by decide)

end Hpdcache
