import Hpdcache.Lib.Chains
import Hpdcache.Rtab

/-!
# The lists of the replay table

The replay table keeps its requests in disjoint lists, one for each cacheline with requests on hold.
At most one list at a time is being popped: the request that was popped last is in stage 1, and the
pop FSM points at the one that follows it.

**Fences.** A request of the core that is executed in program order whatever its address
(uncacheable or atomic) is not compared with the requests on hold: it makes a list of its own.

* `Rtab.Wf` — the table represents a family of lists.
* `Rtab.Drives` — what the controller promises on the ports of the table in a cycle.
* `Rtab.Wf.step` — a cycle keeps the representation.
-/

namespace Hpdcache

open Hw

variable {c : Cfg}

/-- The request is executed in program order, irrespectively of addresses. -/
def CtrlReq.isFence (q : CtrlReq c) : Bool := q.req.op.isAmo || q.req.pma.uncacheable

namespace RtabDeps

@[simp] theorem setRst_none (rst : RtabDeps) : setRst {} {} rst = {} := by
  simp [setRst]

theorem any_eq_false_iff {d : RtabDeps} : d.any = false ↔ d = {} := by
  cases d
  simp [any, and_assoc]

end RtabDeps

namespace Rtab

variable {r : Rtab c} {i : RtabIn c} {p : Option (Fin c.rtabEntries)}
  {S : Set (List (Fin c.rtabEntries))} {front : List (Fin c.rtabEntries)}
  {k a : Fin c.rtabEntries}

/-- The table as linked lists. -/
def links (r : Rtab c) : LinkTable (Fin c.rtabEntries) := ⟨r.nextQ, r.validQ, r.headQ, r.tailQ⟩

def isFence (r : Rtab c) (k : Fin c.rtabEntries) : Bool := (r.reqQ k).req.isFence

/-- The pop FSM follows the list `front`, whose first entry is the one in stage 1 if there is one.
-/
def PopAt (r : Rtab c) (p : Option (Fin c.rtabEntries)) (front : List (Fin c.rtabEntries)) : Prop :=
  match p, front with
  | none, [] => r.popStateQ = .head
  | none, k :: _ => r.popStateQ = .nextWait ∧ r.popNextQ = ofIndex k
  | some _, [] => False
  | some a, [b] => b = a ∧ r.popStateQ = .head
  | some a, b :: k :: _ => b = a ∧ r.popStateQ = .next ∧ r.popNextQ = ofIndex k

/-- The table represents the lists `S`, and `front` is being popped. -/
structure Wf (r : Rtab c) (p : Option (Fin c.rtabEntries)) (S : Set (List (Fin c.rtabEntries)))
    (front : List (Fin c.rtabEntries)) : Prop where
  chains : r.links.Chains S front
  keyed : LinkTable.Keyed r.nline r.isFence S
  pop : r.PopAt p front
  held : r.popArb.Held r.ready
  deps : ∀ k, r.headQ k = false → r.depsQ k = {}

/-- What the controller promises on the ports of the table, with the entry `p` in stage 1. -/
structure Drives (r : Rtab c) (p : Option (Fin c.rtabEntries)) (i : RtabIn c) : Prop where
  alloc_head : i.alloc = true ∨ i.allocAndLink = true → p = none ∧ r.popStateQ = .head
  alloc_room : i.alloc = true ∨ i.allocAndLink = true → i.popTry = false ∧ all r.validQ = false
  alloc_once : i.alloc = true → i.allocAndLink = false
  alloc_line : i.alloc = true ∨ i.allocAndLink = true → i.allocReq.req.nline = i.checkNline
  alloc_miss : i.alloc = true → i.allocReq.req.isFence = false → r.checkHit i.checkNline = false
  link_hit : i.allocAndLink = true → r.checkHit i.checkNline = true
  link_deps : i.allocAndLink = true → i.allocDeps = {}
  link_fence : i.allocAndLink = true →
    i.allocReq.req.isFence = false ∧ ∀ k, r.validQ k = true → r.isFence k = false
  commit : i.popCommit = true → p = some i.popCommitPtr
  rback : i.popRback = true → p = some i.popRbackPtr ∧ i.popTry = false
  rback_req : i.popRback = true → i.allocReq.req.nline = r.nline i.popRbackPtr ∧
    i.allocReq.req.isFence = r.isFence i.popRbackPtr
  leaves : ∀ a, p = some a → i.popCommit = !i.popRback
  tries : i.popTry = true → r.popTryValid = true

/-- The entry in stage 1 after the cycle. -/
def popped (r : Rtab c) (i : RtabIn c) : Option (Fin c.rtabEntries) :=
  if i.popTry then some r.popTryPtr else none

theorem wf_reset (r : Rtab c) : r.reset.Wf none ∅ [] where
  chains := {
    linked := nofun
    nodup := nofun
    disjoint := nofun
    valid := by simp [links, reset]
    front_mem := .inl rfl
    head := by simp [links, reset] }
  keyed := ⟨nofun, nofun, nofun⟩
  pop := rfl
  held := RrArb.held_reset
  deps := fun _ _ => rfl

/-! ## The entry to pop -/

/-- What is left of the list being popped when the entry in stage 1 leaves. -/
def leftOf (p : Option (Fin c.rtabEntries)) (front : List (Fin c.rtabEntries)) :
    List (Fin c.rtabEntries) :=
  match p with
  | none => front
  | some _ => front.tail

theorem PopAt.state_eq_head_iff (h : r.PopAt p front) :
    r.popStateQ = .head ↔ leftOf p front = [] := by
  unfold PopAt at h
  unfold leftOf
  split at h
  · simp [h]
  · simp [h.1]
  · exact absurd h id
  · simp [h.2]
  · simp [h.2.1]

theorem PopAt.popNextQ_eq (h : r.PopAt p front) {l : List (Fin c.rtabEntries)}
    (hl : leftOf p front = k :: l) : r.popNextQ = ofIndex k := by
  unfold PopAt at h
  unfold leftOf at hl
  split at h
  · simp at hl
  · obtain ⟨rfl, -⟩ : _ = k ∧ _ = l := by simpa using hl
    exact h.2
  · exact absurd h id
  · simp at hl
  · obtain ⟨rfl, -⟩ : _ = k ∧ _ = l := by simpa using hl
    exact h.2.2

theorem PopAt.front_eq (h : r.PopAt (some a) front) : front = a :: leftOf (some a) front := by
  unfold PopAt at h
  split at h
  · contradiction
  · contradiction
  · exact absurd h id
  · rename_i heq
    rw [Option.some.inj heq, h.1]
    rfl
  · rename_i heq
    rw [Option.some.inj heq, h.1]
    rfl

/-- With the pop FSM on a list, the next entry of the list is the one to pop. -/
theorem Wf.popSel_of_left (h : r.Wf p S front) {l : List (Fin c.rtabEntries)}
    (hl : leftOf p front = k :: l) : r.popSel = ofIndex k := by
  have hne : r.popStateQ ≠ .head := by
    rw [ne_eq, h.pop.state_eq_head_iff, hl]
    simp
  unfold popSel
  cases hs : r.popStateQ with
  | head => exact absurd hs hne
  | next => exact h.pop.popNextQ_eq hl
  | nextWait => exact h.pop.popNextQ_eq hl

/-- With the pop FSM on no list, a head that waits for nothing is popped. -/
theorem Wf.popSel_of_head (h : r.Wf p S front) (hs : r.popStateQ = .head)
    (hv : r.popTryValid = true) : ∃ k, r.ready k = true ∧ r.popSel = ofIndex k := by
  simp only [popTryValid, hs] at hv
  rw [← h.held.any_gnt, any_eq_true] at hv
  obtain ⟨k, hk⟩ := hv
  refine ⟨k, h.held.gnt_mem hk, ?_⟩
  funext j
  simp only [popSel, hs, popGnt]
  rw [Bool.eq_iff_iff, ofIndex_eq_true]
  constructor
  · intro hj
    exact h.held.oneHot_gnt j k hj hk
  · rintro rfl
    exact hk

theorem toIndex_ofIndex {n : Nat} (h : 0 < n) (k : Fin n) : toIndex h (ofIndex k) = k :=
  OneHot.toIndex (fun i j hi hj => by simp_all) h (by simp)

theorem popTryPtr_eq (h : r.popSel = ofIndex k) : r.popTryPtr = k := by
  rw [popTryPtr, h, toIndex_ofIndex]

/-- The entry to pop is one. -/
theorem Wf.popSel_eq (h : r.Wf p S front) (hv : r.popTryValid = true) :
    r.popSel = ofIndex r.popTryPtr := by
  obtain ⟨k, hk⟩ : ∃ k, r.popSel = ofIndex k := by
    by_cases hs : r.popStateQ = .head
    · obtain ⟨k, -, hk⟩ := h.popSel_of_head hs hv
      exact ⟨k, hk⟩
    · rw [h.pop.state_eq_head_iff] at hs
      obtain ⟨k, l, hl⟩ := List.exists_cons_of_ne_nil hs
      exact ⟨k, h.popSel_of_left hl⟩
  rw [popTryPtr_eq hk]
  exact hk

/-! ## The entry in stage 1 leaves -/

/-- The table when the entry in stage 1 has left: it was freed, or put back. -/
def leave (r : Rtab c) (p : Option (Fin c.rtabEntries)) (i : RtabIn c) :
    LinkTable (Fin c.rtabEntries) :=
  match p with
  | none => r.links
  | some a => if i.popCommit then r.links.free a else r.links.putBack a

/-- The list that is still being popped. -/
def frontLeft (p : Option (Fin c.rtabEntries)) (front : List (Fin c.rtabEntries))
    (i : RtabIn c) : List (Fin c.rtabEntries) :=
  match p with
  | none => front
  | some _ => if i.popCommit then front.tail else []

/-- The lists that are left. -/
def listsLeft (p : Option (Fin c.rtabEntries)) (S : Set (List (Fin c.rtabEntries)))
    (front : List (Fin c.rtabEntries)) (i : RtabIn c) : Set (List (Fin c.rtabEntries)) :=
  match p with
  | none => S
  | some _ =>
    if i.popCommit then {m | (m ∈ S ∧ m ≠ front) ∨ (m = front.tail ∧ front.tail ≠ [])} else S

theorem Wf.front_mem (h : r.Wf (some a) S front) : front ∈ S :=
  h.chains.front_mem.resolve_left (by rw [h.pop.front_eq]; simp)

theorem Wf.chains_leave (h : r.Wf p S front) :
    (r.leave p i).Chains (listsLeft p S front i) (frontLeft p front i) := by
  cases p with
  | none => exact h.chains
  | some a =>
    have hfront := h.pop.front_eq
    simp only [leave, listsLeft, frontLeft]
    cases i.popCommit with
    | true => exact h.chains.free hfront
    | false => exact h.chains.putBack hfront

theorem Wf.keyed_leave (h : r.Wf p S front) :
    LinkTable.Keyed r.nline r.isFence (listsLeft p S front i) := by
  cases p with
  | none => exact h.keyed
  | some a =>
    simp only [listsLeft]
    cases i.popCommit with
    | true => exact h.keyed.rest h.front_mem h.pop.front_eq
    | false => exact h.keyed

/-- The entry in stage 1 is valid and no head. -/
theorem Wf.valid_popped (h : r.Wf (some a) S front) : r.validQ a = true :=
  h.chains.valid_of_mem h.front_mem (by rw [h.pop.front_eq]; exact List.mem_cons_self)

theorem Wf.head_popped (h : r.Wf (some a) S front) : r.headQ a = false :=
  h.chains.head_eq_false_of_front (by rw [h.pop.front_eq]; exact List.mem_cons_self)

/-! ## The table after a cycle -/

/-- The bits that an allocation touches. -/
theorem freeAlloc_valid (hk : r.freeAlloc k = true) : r.validQ k = false := by
  simpa using prio_mem hk

theorem exists_freeAlloc (h : all r.validQ = false) :
    ∃ k, r.freeAlloc = ofIndex k ∧ r.validQ k = false := by
  obtain ⟨j, hj⟩ := all_eq_false.1 h
  have hany : any (fun k => !r.validQ k) = true := any_eq_true.2 ⟨j, by simp [hj]⟩
  rw [← any_prio] at hany
  obtain ⟨k, hk⟩ := any_eq_true.1 hany
  refine ⟨k, ?_, freeAlloc_valid hk⟩
  funext l
  rw [Bool.eq_iff_iff, ofIndex_eq_true]
  constructor
  · intro hl
    exact oneHot_prio _ l k hl hk
  · rintro rfl
    exact hk

/-- The entry in stage 1 leaves by the commit or by the rollback. -/
theorem Drives.leave_eq (hd : r.Drives p i) :
    r.leave p i =
      { r.links with
        valid := fun k => r.validQ k && !(i.popCommit && decide (k = i.popCommitPtr))
        head := fun k => setRst (r.headQ k) (i.popRback && decide (k = i.popRbackPtr)) false } := by
  cases p with
  | none =>
    have hcommit : i.popCommit = false := by
      by_contra hc
      exact absurd (hd.commit (by simpa using hc)) (by simp)
    have hrback : i.popRback = false := by
      by_contra hr
      exact absurd (hd.rback (by simpa using hr)).1 (by simp)
    simp [leave, links, hcommit, hrback]
  | some a =>
    have hleaves := hd.leaves a rfl
    cases hc : i.popCommit with
    | true =>
      have hrback : i.popRback = false := by simpa [hc] using hleaves
      have hptr : i.popCommitPtr = a := (Option.some.inj (hd.commit hc)).symm
      have hvalid : Function.update r.validQ a false =
          fun k => r.validQ k && !(true && decide (k = i.popCommitPtr)) := by
        funext k
        by_cases hk : k = a <;> simp [hptr, hk]
      simp [leave, LinkTable.free, links, hc, hrback, hvalid]
    | false =>
      have hrback : i.popRback = true := by simpa [hc] using hleaves
      have hptr : i.popRbackPtr = a := (Option.some.inj (hd.rback hrback).1).symm
      have hhead : Function.update r.headQ a true =
          fun k => setRst (r.headQ k) (decide (k = i.popRbackPtr)) false := by
        funext k
        by_cases hk : k = a
        · cases hh : r.headQ a <;> simp [hptr, hk, hh]
        · cases hh : r.headQ k <;> simp [hptr, hk, hh]
      simp [leave, LinkTable.putBack, links, hc, hrback, hhead]

/-- Without an allocation, the entry in stage 1 leaves and another one is taken. -/
theorem Wf.links_step (h : r.Wf p S front) (hd : r.Drives p i) (ha : i.alloc = false)
    (hl : i.allocAndLink = false) :
    (r.step i).links =
      if i.popTry then (r.leave p i).take r.popTryPtr else r.leave p i := by
  have hnext : (r.step i).links.next = r.links.next := by
    funext k
    simp [links, step, hl]
  have htail : (r.step i).links.tail = r.links.tail := by
    funext k
    simp [links, step, allocBv, ha, hl]
  have hvalid : (r.step i).links.valid =
      fun k => r.validQ k && !(i.popCommit && decide (k = i.popCommitPtr)) := by
    funext k
    cases hv : r.validQ k <;> simp [links, step, allocBv, commitBv, ha, hl, hv]
  have hhead : (r.step i).links.head =
      fun k => setRst (r.headQ k) (i.popRback && decide (k = i.popRbackPtr))
        (r.popSel k && i.popTry) := by
    funext k
    simp [links, step, rbackBv, popTryBv, ha, hl]
  rw [hd.leave_eq]
  cases ht : i.popTry with
  | false =>
    refine LinkTable.ext hnext hvalid ?_ htail
    rw [hhead, ht]
    simp
  | true =>
    have hrback : i.popRback = false := by
      by_contra hr
      rw [(hd.rback (by simpa using hr)).2] at ht
      contradiction
    refine LinkTable.ext hnext hvalid ?_ htail
    rw [hhead, h.popSel_eq (hd.tries ht)]
    funext k
    by_cases hk : k = r.popTryPtr
    · subst hk
      cases r.headQ r.popTryPtr <;> simp [LinkTable.take, hrback, ht, ofIndex]
    · cases hh : r.headQ k <;> simp [LinkTable.take, hrback, ht, hh, ofIndex, hk]

/-- No entry is in stage 1 when the controller allocates one. -/
theorem Drives.idle_of_alloc (hd : r.Drives p i) (h : i.alloc = true ∨ i.allocAndLink = true) :
    i.popCommit = false ∧ i.popRback = false ∧ i.popTry = false := by
  have hp := (hd.alloc_head h).1
  refine ⟨?_, ?_, (hd.alloc_room h).1⟩
  · by_contra hc
    have := hd.commit (by simpa using hc)
    simp [hp] at this
  · by_contra hr
    have := (hd.rback (by simpa using hr)).1
    simp [hp] at this

theorem Drives.links_step_alloc (hd : r.Drives p i) (ha : i.alloc = true)
    (hk : r.freeAlloc = ofIndex k) : (r.step i).links = r.links.alloc k := by
  obtain ⟨hc, hr, ht⟩ := hd.idle_of_alloc (.inl ha)
  have hl := hd.alloc_once ha
  have hset : ∀ (q : Fin c.rtabEntries → Bool) (j : Fin c.rtabEntries),
      setRst (q j) (ofIndex k j) false = Function.update q k true j := by
    intro q j
    by_cases hj : j = k
    · subst hj
      rw [ofIndex_self]
      cases q j <;> simp
    · rw [ofIndex_of_ne hj]
      simp [hj]
  refine LinkTable.ext ?_ ?_ ?_ ?_ <;> funext j
  · simp [links, step, LinkTable.alloc, hl]
  · simp [links, step, LinkTable.alloc, allocBv, commitBv, ha, hc, hk, hset]
  · simp [links, step, LinkTable.alloc, rbackBv, popTryBv, ha, hl, hr, ht, hk, hset]
  · simp [links, step, LinkTable.alloc, allocBv, ha, hl, hk, hset]

/-- The new entry is linked behind the tail that matches. -/
theorem Drives.links_step_link (hd : r.Drives p i) (hl : i.allocAndLink = true)
    (hk : r.freeAlloc = ofIndex k) (hv : r.validQ k = false) (hh : r.headQ k = false)
    (ht : r.matchCheckTail i.checkNline = ofIndex a) :
    (r.step i).links = r.links.link a k := by
  obtain ⟨hc, hr, htry⟩ := hd.idle_of_alloc (.inr hl)
  have ha : i.alloc = false := by
    by_contra ha
    rw [hd.alloc_once (by simpa using ha)] at hl
    contradiction
  have hak : a ≠ k := by
    rintro rfl
    have hmatch : r.matchCheckTail i.checkNline a = true := by rw [ht]; simp
    simp [matchCheckTail, checkHitBv, hv] at hmatch
  refine LinkTable.ext ?_ ?_ ?_ ?_ <;> funext j
  · by_cases hj : j = a
    · simp [links, step, LinkTable.link, hl, ht, hj, hk, toIndex_ofIndex]
    · simp [links, step, LinkTable.link, hl, ht, hj, ofIndex]
  · by_cases hj : j = k
    · simp [links, step, LinkTable.link, allocBv, commitBv, hl, hc, hk, hj, hv]
    · cases hvj : r.validQ j <;>
        simp [links, step, LinkTable.link, allocBv, commitBv, ofIndex, hc, hk, hj, hvj]
  · by_cases hj : j = k
    · simp [links, step, LinkTable.link, rbackBv, popTryBv, ha, hr, hj, hh]
    · cases hhj : r.headQ j <;>
        simp [links, step, LinkTable.link, rbackBv, popTryBv, ofIndex, ha, hr, htry, hk, hj, hhj]
  · by_cases hj : j = k
    · have hka : k ≠ a := hak.symm
      cases htj : r.tailQ k <;>
        simp [links, step, LinkTable.link, allocBv, ofIndex, hl, hk, ht, hj, hka, htj]
    · by_cases hja : j = a
      · have hta : r.tailQ a = true := by
          have hmatch : r.matchCheckTail i.checkNline a = true := by rw [ht]; simp
          simp only [matchCheckTail, Bool.and_eq_true] at hmatch
          exact hmatch.2
        simp [links, step, LinkTable.link, allocBv, ofIndex, hl, hk, ht, hja, hak, hta]
      · cases htj : r.tailQ j <;>
          simp [links, step, LinkTable.link, allocBv, ofIndex, hl, hk, ht, hj, hja, htj]

/-- A valid entry keeps its line, and stays a fence or not. -/
theorem Drives.req_step (hd : r.Drives p i) (hv : r.validQ k = true) :
    (r.step i).nline k = r.nline k ∧ (r.step i).isFence k = r.isFence k := by
  have ha : r.allocBv i k = false := by
    cases hf : r.freeAlloc k with
    | false => simp [allocBv, hf]
    | true =>
      rw [freeAlloc_valid hf] at hv
      contradiction
  cases hr : rbackBv i k with
  | false => simp [nline, isFence, step, ha, hr]
  | true =>
    simp only [rbackBv, Bool.and_eq_true, decide_eq_true_eq] at hr
    obtain ⟨hrback, hptr⟩ := hr
    obtain ⟨hline, hfence⟩ := hd.rback_req hrback
    subst hptr
    simp only [nline, isFence] at hline hfence ⊢
    simp [step, rbackBv, hrback, hline, hfence]

/-! ## The pop FSM after a cycle -/

/-- Nothing is popped: the FSM waits on the list that is left. -/
theorem Wf.popAt_step_idle (h : r.Wf p S front) (hd : r.Drives p i) (ht : i.popTry = false) :
    (r.step i).PopAt none (frontLeft p front i) := by
  have hhead : r.popHead i = false := by simp [popHead, ht]
  have hadv : r.popAdvance i = false := by
    unfold popAdvance
    cases r.popStateQ <;> simp [hhead, ht]
  have hnext : (r.step i).popNextQ = r.popNextQ := by simp [step, hadv]
  have hidle : r.popStateQ = .head → (r.step i).popStateQ = .head := by
    intro hs
    simp [step, popStateD, hs, hhead]
  have hwait : r.popStateQ = .nextWait → (r.step i).popStateQ = .nextWait := by
    intro hs
    simp [step, popStateD, hs, ht]
  have hgoes : r.popStateQ = .next →
      (r.step i).popStateQ = if i.popRback then .head else .nextWait := by
    intro hs
    simp [step, popStateD, hs, ht]
  have hpop := h.pop
  unfold PopAt at hpop
  unfold frontLeft PopAt
  split at hpop
  · simp [hidle hpop]
  · simp [hwait hpop.1, hnext, hpop.2]
  · exact absurd hpop id
  · cases i.popCommit <;> simp [hidle hpop.2]
  · rename_i a b k l
    have hleaves := hd.leaves a rfl
    cases hc : i.popCommit with
    | true =>
      have hrback : i.popRback = false := by simpa [hc] using hleaves
      simp [hgoes hpop.2.1, hnext, hpop.2.2, hrback]
    | false =>
      have hrback : i.popRback = true := by simpa [hc] using hleaves
      simp [hgoes hpop.2.1, hrback]

/-- An entry is popped: the FSM points at the one behind it, if any. -/
theorem Wf.popAt_step_try (h : r.Wf p S front) (hd : r.Drives p i) (ht : i.popTry = true)
    {l : List (Fin c.rtabEntries)} (hl : r.links.Linked (r.popTryPtr :: l)) :
    (r.step i).PopAt (some r.popTryPtr) (r.popTryPtr :: l) := by
  have hvalid := hd.tries ht
  have hrback : i.popRback = false := by
    by_contra hr
    rw [(hd.rback (by simpa using hr)).2] at ht
    contradiction
  have hmore : r.popMore = !r.tailQ r.popTryPtr := by
    unfold popMore
    rw [h.popSel_eq hvalid, Bool.eq_iff_iff, any_eq_true]
    simp
  have hstate : (r.step i).popStateQ = if r.popMore then .next else .head := by
    have hd : (r.step i).popStateQ = r.popStateD i := rfl
    rw [hd]
    unfold popStateD popHead
    split <;> rename_i hs <;> simp [hs, ht, hrback, hvalid]
  have hadv : r.popAdvance i = r.popMore := by
    unfold popAdvance popHead
    split <;> rename_i hs <;> simp [hs, ht, hrback, hvalid]
  have htail := hl.tail_head
  have hlinks : r.links.tail r.popTryPtr = r.tailQ r.popTryPtr := rfl
  rw [hlinks] at htail
  cases l with
  | nil =>
    have hmore' : r.popMore = false := by simp [hmore, htail]
    exact ⟨rfl, by rw [hstate, hmore']; rfl⟩
  | cons k l =>
    have hmore' : r.popMore = true := by
      rw [hmore]
      simpa using htail
    have hnext : r.nextQ r.popTryPtr = k := hl.next_head
    exact ⟨rfl, by rw [hstate, hmore']; rfl, by simp [step, hadv, hmore', hnext]⟩

/-! ## Heads and dependencies after a cycle -/

theorem allocBv_of_valid (hv : r.validQ k = true) : r.allocBv i k = false := by
  cases hf : r.freeAlloc k with
  | false => simp [allocBv, hf]
  | true =>
    rw [freeAlloc_valid hf] at hv
    contradiction

theorem depsQ_step_of_idle (ha : r.allocBv i k = false) (hr : rbackBv i k = false)
    (hq : r.depsQ k = {}) : (r.step i).depsQ k = {} := by
  have hset : r.depsSet i k = {} := by simp [depsSet, ha, hr]
  have hstep : (r.step i).depsQ k = RtabDeps.setRst (r.depsQ k) (r.depsSet i k) (r.depsRst i k) :=
    rfl
  rw [hstep, hq, hset, RtabDeps.setRst_none]

/-- The entry in stage 1 is no head, so that a head is neither freed nor put back. -/
theorem Wf.not_leaves (h : r.Wf p S front) (hd : r.Drives p i) (hk : r.headQ k = true) :
    commitBv i k = false ∧ rbackBv i k = false := by
  have hne : p ≠ some k := by
    rintro rfl
    rw [h.head_popped] at hk
    contradiction
  constructor
  · by_contra hc
    simp only [commitBv, Bool.not_eq_false, Bool.and_eq_true, decide_eq_true_eq] at hc
    exact hne (hc.2 ▸ hd.commit hc.1)
  · by_contra hr
    simp only [rbackBv, Bool.not_eq_false, Bool.and_eq_true, decide_eq_true_eq] at hr
    exact hne (hr.2 ▸ (hd.rback hr.1).1)

/-- A head is popped when the arbiter grants it, and has nothing to wait for. -/
theorem Wf.popped_head (h : r.Wf p S front) (hd : r.Drives p i) (ht : i.popTry = true)
    (hk : r.headQ k = true) (hs : r.popSel k = true) :
    r.popStateQ = .head ∧ r.ready k = true := by
  by_cases hstate : r.popStateQ = .head
  · obtain ⟨j, hj, hsel⟩ := h.popSel_of_head hstate (hd.tries ht)
    rw [hsel, ofIndex_eq_true] at hs
    exact ⟨hstate, hs ▸ hj⟩
  · exfalso
    have hne := hstate
    rw [h.pop.state_eq_head_iff] at hne
    obtain ⟨j, l, hl⟩ := List.exists_cons_of_ne_nil hne
    rw [h.popSel_of_left hl, ofIndex_eq_true] at hs
    subst hs
    have hmem : k ∈ front := by
      cases p with
      | none =>
        have hfront : front = k :: l := hl
        rw [hfront]
        exact List.mem_cons_self
      | some a =>
        rw [h.pop.front_eq, hl]
        simp
    have hfalse : r.headQ k = false := h.chains.head_eq_false_of_front hmem
    rw [hfalse] at hk
    contradiction

/-- A head stays one until it is popped. -/
theorem Wf.headQ_step (h : r.Wf p S front) (hk : r.headQ k = true) :
    (r.step i).headQ k = !(r.popSel k && i.popTry) := by
  have hvalid : r.validQ k = true := h.chains.valid_of_head hk
  have hfree : r.freeAlloc k = false := by
    by_contra hf
    rw [freeAlloc_valid (by simpa using hf)] at hvalid
    contradiction
  simp [step, popTryBv, hk, hfree]

/-- A head that waits for nothing is ready until it is popped. -/
theorem Wf.ready_step (h : r.Wf p S front) (hd : r.Drives p i) (hk : r.ready k = true) :
    (r.step i).ready k = true ∨ r.popSel k = true ∧ i.popTry = true := by
  simp only [ready, Bool.and_eq_true, Bool.not_eq_true'] at hk
  obtain ⟨⟨hvalid, hhead⟩, hdeps⟩ := hk
  by_cases hpop : r.popSel k = true ∧ i.popTry = true
  · exact .inr hpop
  · left
    obtain ⟨hcommit, hrback⟩ := h.not_leaves hd hhead
    have hpop' : (r.popSel k && i.popTry) = false := by simpa using hpop
    have hv : (r.step i).validQ k = true := by simp [step, hvalid, hcommit]
    have hh : (r.step i).headQ k = true := by rw [h.headQ_step hhead, hpop']; rfl
    have hdep : (r.step i).depsQ k = {} :=
      depsQ_step_of_idle (allocBv_of_valid hvalid) hrback (RtabDeps.any_eq_false_iff.1 hdeps)
    simp only [ready, hv, hh, Bool.and_self, Bool.true_and, Bool.not_eq_true']
    exact RtabDeps.any_eq_false_iff.2 hdep

theorem Wf.held_step (h : r.Wf p S front) (hd : r.Drives p i) :
    (r.step i).popArb.Held (r.step i).ready := by
  refine h.held.step fun hready k hk => ?_
  refine (h.ready_step hd (h.held.gnt_mem hk)).resolve_right ?_
  rintro ⟨hs, ht⟩
  have hhead : r.headQ k = true := by
    have hk' := h.held.gnt_mem hk
    simp only [ready, Bool.and_eq_true] at hk'
    exact hk'.1.2
  have hstate := (h.popped_head hd ht hhead hs).1
  have hrback : i.popRback = false := by
    by_contra hr
    rw [(hd.rback (by simpa using hr)).2] at ht
    contradiction
  rw [popHead, hstate, ht, hd.tries ht, hrback] at hready
  simp at hready

/-- Only heads wait. -/
theorem Wf.deps_step (h : r.Wf p S front) (hd : r.Drives p i)
    (hk : (r.step i).headQ k = false) : (r.step i).depsQ k = {} := by
  cases hr : rbackBv i k with
  | true =>
    -- the entry that is put back is a head again
    simp only [rbackBv, Bool.and_eq_true, decide_eq_true_eq] at hr
    obtain ⟨hrback, rfl⟩ := hr
    obtain ⟨hp, -⟩ := hd.rback hrback
    subst hp
    have hfalse : r.headQ i.popRbackPtr = false := h.head_popped
    simp [step, rbackBv, hrback, hfalse] at hk
  | false =>
    cases ha : r.allocBv i k with
    | true =>
      have hfree : r.freeAlloc k = true := by
        simp only [allocBv, Bool.and_eq_true] at ha
        exact ha.1
      have hfalse : r.headQ k = false := h.chains.head_eq_false (freeAlloc_valid hfree)
      have halloc : i.alloc = false := by
        by_contra hal
        simp [step, hfalse, hfree, hal] at hk
      have hlink : i.allocAndLink = true := by
        simpa [allocBv, hfree, halloc] using ha
      have hset : r.depsSet i k = {} := by simp [depsSet, ha, hr, hd.link_deps hlink]
      have hstep : (r.step i).depsQ k =
        RtabDeps.setRst (r.depsQ k) (r.depsSet i k) (r.depsRst i k) := rfl
      rw [hstep, h.deps k hfalse, hset, RtabDeps.setRst_none]
    | false =>
      refine depsQ_step_of_idle ha hr ?_
      cases hhead : r.headQ k with
      | false => exact h.deps k hhead
      | true =>
        have hpop : r.popSel k = true ∧ i.popTry = true := by
          simpa [h.headQ_step hhead] using hk
        have hready := (h.popped_head hd hpop.2 hhead hpop.1).2
        simp only [ready, Bool.and_eq_true, Bool.not_eq_true'] at hready
        exact RtabDeps.any_eq_false_iff.1 hready.2

/-! ## One cycle -/

theorem Wf.valid_of_mem_left (h : r.Wf p S front) {l : List (Fin c.rtabEntries)}
    (hl : l ∈ listsLeft p S front i) (ha : a ∈ l) : r.validQ a = true := by
  cases p with
  | none => exact h.chains.valid_of_mem hl ha
  | some b =>
    simp only [listsLeft] at hl
    split_ifs at hl
    · rcases hl with ⟨hl, -⟩ | ⟨rfl, -⟩
      · exact h.chains.valid_of_mem hl ha
      · exact h.chains.valid_of_mem h.front_mem (List.mem_of_mem_tail ha)
    · exact h.chains.valid_of_mem hl ha

/-- The entries that stay keep their lines. -/
theorem Wf.keyed_step (h : r.Wf p S front) (hd : r.Drives p i) :
    LinkTable.Keyed (r.step i).nline (r.step i).isFence (listsLeft p S front i) :=
  (h.keyed_leave (i := i)).congr
    (fun _ hl _ ha => (hd.req_step (h.valid_of_mem_left hl ha)).1)
    fun _ hl _ ha => (hd.req_step (h.valid_of_mem_left hl ha)).2

/-- A new list for a line with no request on hold, or for a fence. -/
theorem Wf.alloc_step (h : r.Wf p S front) (hd : r.Drives p i) (ha : i.alloc = true) :
    ∃ k, (r.step i).links.Chains (insert [k] S) front ∧
      LinkTable.Keyed (r.step i).nline (r.step i).isFence (insert [k] S) := by
  obtain ⟨k, hk, hv⟩ := exists_freeAlloc (hd.alloc_room (.inl ha)).2
  refine ⟨k, ?_, ?_⟩
  · rw [hd.links_step_alloc ha hk]
    exact h.chains.alloc hv
  · obtain ⟨rfl, -⟩ := hd.alloc_head (.inl ha)
    refine (h.keyed_step hd).alloc fun hfence l hl b hb _ => ?_
    have hreq : ((r.step i).reqQ k) = i.allocReq := by
      simp [Rtab.step, allocBv, hk, ha]
    have hvb := h.valid_of_mem_left (i := i) hl hb
    have hmiss := hd.alloc_miss ha (by simpa only [isFence, hreq] using hfence)
    have hnew : (r.step i).nline k = i.checkNline := by
      simp only [nline, hreq]
      exact hd.alloc_line (.inl ha)
    rw [(hd.req_step hvb).1, hnew]
    intro heq
    rw [checkHit, any_eq_false] at hmiss
    have hb := hmiss b
    simp [checkHitBv, hvb, heq] at hb

/-- A new entry behind the requests on hold for its line. -/
theorem Wf.link_step (h : r.Wf p S front) (hd : r.Drives p i) (hl : i.allocAndLink = true) :
    ∃ S', (r.step i).links.Chains S' [] ∧
      LinkTable.Keyed (r.step i).nline (r.step i).isFence S' := by
  obtain ⟨k, hk, hv⟩ := exists_freeAlloc (hd.alloc_room (.inr hl)).2
  obtain ⟨rfl, hhead⟩ := hd.alloc_head (.inr hl)
  have hfront : front = [] := h.pop.state_eq_head_iff.1 hhead
  obtain ⟨hfk, hnone⟩ := hd.link_fence hl
  have hfence : ∀ m ∈ S, ∀ b ∈ m, r.isFence b = false := fun m hm b hb =>
    hnone b (h.chains.valid_of_mem hm hb)
  obtain ⟨a, hhit⟩ := any_eq_true.1 (hd.link_hit hl)
  simp only [checkHitBv, Bool.and_eq_true, decide_eq_true_eq] at hhit
  obtain ⟨hva, hline⟩ := hhit
  obtain ⟨l, hlS, hal⟩ := h.chains.exists_list hva
  obtain ⟨t, htl, htail⟩ := (h.chains.linked l hlS).exists_tail
  have htline : r.nline t = i.checkNline := (h.keyed.same l hlS t htl a hal).trans hline.symm
  -- the list of the line is the only one with it, and its tail the only one in it
  have hmatch : r.matchCheckTail i.checkNline = ofIndex t := by
    funext b
    rw [Bool.eq_iff_iff, ofIndex_eq_true]
    simp only [matchCheckTail, checkHitBv, Bool.and_eq_true, decide_eq_true_eq]
    constructor
    · rintro ⟨⟨hvb, hbline⟩, hbtail⟩
      obtain ⟨m, hmS, hbm⟩ := h.chains.exists_list hvb
      have hml : m = l := by
        by_contra hne
        exact h.keyed.separate m hmS l hlS hne b hbm t htl (hfence m hmS b hbm)
          (hfence l hlS t htl) (hbline.symm.trans htline.symm)
      subst hml
      exact (h.chains.linked m hmS).tail_unique hbm htl hbtail htail
    · rintro rfl
      exact ⟨⟨h.chains.valid_of_mem hlS htl, htline.symm⟩, htail⟩
  have hheadk : r.headQ k = false := h.chains.head_eq_false hv
  have hlne : l ≠ front := by
    rw [hfront]
    exact (h.chains.linked l hlS).ne_nil
  have hreq : (r.step i).reqQ k = i.allocReq := by
    simp [Rtab.step, allocBv, hk, hl]
  refine ⟨insert (l ++ [k]) (S \ {l}), ?_, ?_⟩
  · rw [hd.links_step_link hl hk hv hheadk hmatch]
    have hlink := h.chains.link hlS hlne htl htail hv
    rwa [hfront] at hlink
  · have hkeyed := h.keyed_step hd
    refine hkeyed.link hlS htl ?_ ?_ fun m hm b hb => ?_
    · rw [(hd.req_step (h.chains.valid_of_mem hlS htl)).1, htline]
      simp only [nline, hreq]
      exact (hd.alloc_line (.inr hl)).symm
    · simp only [isFence, hreq]
      exact hfk
    · rw [(hd.req_step (h.chains.valid_of_mem hm hb)).2]
      exact hfence m hm b hb

/-- The list of the entry that is popped. -/
theorem Wf.take_step (h : r.Wf p S front) (hd : r.Drives p i) (ht : i.popTry = true) :
    ∃ l, ((r.leave p i).take r.popTryPtr).Chains (listsLeft p S front i) (r.popTryPtr :: l) := by
  have hchains := h.chains_leave (i := i)
  have hrback : i.popRback = false := by
    by_contra hr
    rw [(hd.rback (by simpa using hr)).2] at ht
    contradiction
  have hleft : frontLeft p front i = leftOf p front := by
    cases p with
    | none => rfl
    | some b =>
      have hcommit : i.popCommit = true := by simpa [hrback] using hd.leaves b rfl
      simp [frontLeft, leftOf, hcommit]
  have hheads : (r.leave p i).head = r.headQ := by
    rw [hd.leave_eq]
    funext k
    simp [hrback]
  cases hl : leftOf p front with
  | nil =>
    have hstate := h.pop.state_eq_head_iff.2 hl
    obtain ⟨k, hk, hsel⟩ := h.popSel_of_head hstate (hd.tries ht)
    rw [popTryPtr_eq hsel]
    have hhead : (r.leave p i).head k = true := by
      rw [hheads]
      simp only [ready, Bool.and_eq_true] at hk
      exact hk.1.2
    obtain ⟨l, hmem, -⟩ := hchains.list_of_head hhead
    exact ⟨l, hchains.take (hleft.trans hl) hmem⟩
  | cons k l =>
    rw [popTryPtr_eq (h.popSel_of_left hl)]
    rw [hleft, hl] at hchains
    have hhead : (r.leave p i).head k = false :=
      hchains.head_eq_false_of_front List.mem_cons_self
    have htake : (r.leave p i).take k = r.leave p i := by
      rw [LinkTable.take, ← hhead, Function.update_eq_self]
    exact ⟨l, by rw [htake]; exact hchains⟩

/-- A cycle keeps the lists. -/
theorem Wf.step (h : r.Wf p S front) (hd : r.Drives p i) :
    ∃ S' front', (r.step i).Wf (r.popped i) S' front' := by
  have hrest : ∀ S' front', (r.step i).links.Chains S' front' →
      LinkTable.Keyed (r.step i).nline (r.step i).isFence S' →
      (r.step i).PopAt (r.popped i) front' → (r.step i).Wf (r.popped i) S' front' :=
    fun S' front' hc hk hp => ⟨hc, hk, hp, h.held_step hd, fun k hk => h.deps_step hd hk⟩
  by_cases halloc : i.alloc = true ∨ i.allocAndLink = true
  · obtain ⟨-, -, ht⟩ := hd.idle_of_alloc halloc
    obtain ⟨rfl, hhead⟩ := hd.alloc_head halloc
    have hfront : front = [] := h.pop.state_eq_head_iff.1 hhead
    have hpop := h.popAt_step_idle hd ht
    rw [frontLeft, hfront] at hpop
    have hpopped : r.popped i = none := by simp [popped, ht]
    rcases halloc with ha | hl
    · obtain ⟨k, hc, hk⟩ := h.alloc_step hd ha
      exact ⟨_, [], hrest _ _ (hfront ▸ hc) hk (hpopped ▸ hpop)⟩
    · obtain ⟨S', hc, hk⟩ := h.link_step hd hl
      exact ⟨S', [], hrest _ _ hc hk (hpopped ▸ hpop)⟩
  · obtain ⟨ha, hl⟩ : i.alloc = false ∧ i.allocAndLink = false := by simpa using halloc
    have hlinks := h.links_step hd ha hl
    cases ht : i.popTry with
    | false =>
      rw [ht] at hlinks
      have hchains := h.chains_leave (i := i)
      refine ⟨_, _, hrest _ _ (by rw [hlinks]; exact hchains) (h.keyed_step hd) ?_⟩
      rw [popped, ht]
      exact h.popAt_step_idle hd ht
    | true =>
      rw [ht, if_pos rfl] at hlinks
      obtain ⟨l, hchains⟩ := h.take_step hd ht
      rw [← hlinks] at hchains
      refine ⟨_, _, hrest _ _ hchains (h.keyed_step hd) ?_⟩
      rw [popped, ht]
      have hmem := hchains.front_mem.resolve_left (by simp)
      refine h.popAt_step_try hd ht ((hchains.linked _ hmem).congr (fun b _ => ?_) fun b _ => ?_)
      · simp [links, Rtab.step, hl]
      · simp [links, Rtab.step, allocBv, ha, hl]

end Rtab

end Hpdcache
