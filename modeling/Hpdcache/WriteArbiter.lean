import Hpdcache.Channels

/-!
# The arbiter of the writes

The arbiter of the write channels, for any number of requesters. A request goes through a buffer of
one word, and its grant through a second buffer, whose head selects the requester that sends its
data. The grant leaves the buffer with the last beat of the burst.

**The order.** The arbiter is run with the requests in the order in which the requesters hand them
over, and with the beats in theirs. The grants that are left in the buffer are those of the requests
whose burst is not over, so that the open burst is always that of the first of them.

* `WriteArbRun.Inv.step` — one cycle, with any readies, keeps the order.
* `WriteArbRun.ordered` — the beats come in bursts, in the order of the requests, each from the
  requester of its request; nothing is lost or repeated.
* `Channels.writeArbiter_step` — the arbiter of the cache is the one of three requesters.
-/

namespace Hpdcache

open Hw

variable {n : Nat} {α ρ δ : Type*}

/-- Registers of the arbiter. -/
structure WriteArb (n : Nat) (ρ : Type*) where
  arb : FxArb n
  reqFifo : List ρ
  gntFifo : List (Bits n)

/-- What the requesters offer, and what the memory is ready to take. -/
structure WriteArbIn (n : Nat) (ρ δ : Type*) where
  memReqWrite : Fin n → Option ρ
  memReqWriteData : Fin n → Option δ
  memReqWriteReady : Bool
  memReqWriteDataReady : Bool

namespace WriteArb

def reset (n : Nat) (ρ : Type*) : WriteArb n ρ := ⟨FxArb.reset n, [], []⟩

variable (last : δ → Bool) (w : WriteArb n ρ) (i : WriteArbIn n ρ δ)

def gnt : Bits n := w.arb.gnt (FxArb.valid i.memReqWrite)

def gntWok : Bool := Fifo.wok 2 false w.gntFifo false

def reqWok : Bool := Fifo.wok 1 true w.reqFifo i.memReqWriteReady

/-- A request is accepted when the buffer of the grants is not full and that of the requests can
take it. -/
def arbReady : Bool := w.gntWok && w.reqWok i

def reqValid : Bool := any fun j => w.gnt i j && FxArb.valid i.memReqWrite j

/-- The request that is written in the buffer. -/
def reqW : Option ρ := if w.gntWok then granted (w.gnt i) i.memReqWrite else none

/-- The grant that is written in the buffer. -/
def gntW : Option (Bits n) := if w.reqValid i && w.reqWok i then some (w.gnt i) else none

def memReqWriteReady : Bits n := fun j => w.gnt i j && w.arbReady i

/-- The request that the memory takes. -/
def reqOut : Option ρ := Fifo.popped true w.reqFifo (w.reqW i) i.memReqWriteReady

/-- The grant at the head of the buffer, none when it is empty. -/
def dataGnt : Bits n := w.gntFifo.headD fun _ => false

/-- The beat that is offered to the memory. -/
def memReqWriteData : Option δ := granted w.dataGnt i.memReqWriteData

def memReqWriteDataReady : Bits n := fun j => w.dataGnt j && i.memReqWriteDataReady

/-- The beat that the memory takes. -/
def dataOut : Option δ := if i.memReqWriteDataReady then w.memReqWriteData i else none

/-- The grant is over with the last beat. -/
def gntR : Bool := i.memReqWriteDataReady && (w.memReqWriteData i).elim false last

def step : WriteArb n ρ where
  arb := w.arb.step (FxArb.valid i.memReqWrite) (w.arbReady i)
  reqFifo := Fifo.step 1 true w.reqFifo (w.reqW i) i.memReqWriteReady
  gntFifo := Fifo.step 2 false w.gntFifo (w.gntW i) (w.gntR last i)

end WriteArb

/-! ## What the requesters hand over -/

/-- The words that are valid and taken in a cycle, with their sources. -/
def handshakes (ready : Bits n) (src : Fin n → Option α) : List (Fin n × α) :=
  (List.finRange n).filterMap fun j => if ready j then (src j).map (Prod.mk j) else none

/-- The words of one source. -/
def part (j : Fin n) (l : List (Fin n × α)) : List α :=
  (l.filter fun x => decide (x.1 = j)).map Prod.snd

theorem part_append (j : Fin n) (l m : List (Fin n × α)) :
    part j (l ++ m) = part j l ++ part j m := by
  rw [part, List.filter_append, List.map_append]
  rfl

section Handshakes

variable {ready : Bits n} {src : Fin n → Option α} {j : Fin n}

/-- Without a ready nothing is taken. -/
theorem handshakes_of_not_ready (h : ∀ j, ready j = false) : handshakes ready src = [] := by
  rw [handshakes, List.filterMap_eq_nil_iff]
  intro j _
  rw [h j]
  rfl

/-- With one ready, the word of its source is taken. -/
theorem handshakes_of_ready (h : OneHot ready) (hj : ready j = true) :
    handshakes ready src = ((src j).map (Prod.mk j)).toList := by
  obtain ⟨l, r, hl⟩ := List.append_of_mem (List.mem_finRange j)
  have hnd : (l ++ j :: r).Nodup := hl ▸ List.nodup_finRange n
  have hother : ∀ k, k ≠ j → ready k = false := by
    intro k hk
    by_contra hr
    exact hk (h k j (by simpa using hr) hj)
  have hnone : ∀ m : List (Fin n), (∀ k ∈ m, k ≠ j) →
      m.filterMap (fun k => if ready k then (src k).map (Prod.mk k) else none) = [] := by
    intro m hm
    rw [List.filterMap_eq_nil_iff]
    intro k hk
    rw [hother k (hm k hk)]
    rfl
  have hleft : ∀ k ∈ l, k ≠ j := by
    intro k hk hkj
    exact (List.nodup_append.1 hnd).2.2 k hk j List.mem_cons_self hkj
  have hright : ∀ k ∈ r, k ≠ j := by
    intro k hk hkj
    exact (List.nodup_cons.1 (List.nodup_append.1 hnd).2.1).1 (hkj ▸ hk)
  rw [handshakes, hl, List.filterMap_append, hnone l hleft, List.nil_append, List.filterMap_cons, hj]
  cases hs : src j <;> simp [hnone r hright]

/-- The words taken from a source are its part of those taken. -/
theorem part_handshakes (h : OneHot ready) :
    part j (handshakes ready src) = if ready j then (src j).toList else [] := by
  cases ha : any ready with
  | false =>
    rw [handshakes_of_not_ready (any_eq_false.1 ha), any_eq_false.1 ha j]
    rfl
  | true =>
    obtain ⟨k, hk⟩ := any_eq_true.1 ha
    rw [handshakes_of_ready h hk]
    by_cases hj : k = j
    · subst hj
      rw [if_pos hk]
      cases src k <;> simp [part]
    · have hno : ready j = false := by
        by_contra hr
        exact hj (h k j hk (by simpa using hr))
      rw [hno]
      cases src k <;> simp [part, hj]

theorem granted_ofIndex : granted (ofIndex j) src = src j := by
  cases hs : src j with
  | some x => exact (granted_eq_some (oneHot_ofIndex j)).2 ⟨j, ofIndex_self j, hs⟩
  | none =>
    cases hg : granted (ofIndex j) src with
    | none => rfl
    | some x =>
      obtain ⟨k, hk, hx⟩ := (granted_eq_some (oneHot_ofIndex j)).1 hg
      rw [ofIndex_eq_true.1 hk, hs] at hx
      contradiction

theorem granted_of_not_any {gnt : Bits n} (h : ∀ j, gnt j = false) : granted gnt src = none := by
  unfold granted
  rw [if_neg]
  rw [any_eq_true]
  rintro ⟨j, hj⟩
  rw [h j] at hj
  contradiction

/-- The word that is granted is the one that is taken. -/
theorem granted_handshakes {gnt : Bits n} (src : Fin n → Option α) (h : OneHot gnt) (r : Bool) :
    (if r then (granted gnt src).toList else []) =
      (handshakes (fun j => gnt j && r) src).map Prod.snd := by
  cases r with
  | false =>
    rw [handshakes_of_not_ready fun j => Bool.and_false _]
    rfl
  | true =>
    simp only [Bool.and_true, if_true]
    cases ha : any gnt with
    | false =>
      rw [handshakes_of_not_ready (any_eq_false.1 ha), granted_of_not_any (any_eq_false.1 ha)]
      rfl
    | true =>
      obtain ⟨j, hj⟩ := any_eq_true.1 ha
      rw [handshakes_of_ready h hj, h.eq_ofIndex hj, granted_ofIndex]
      cases src j <;> rfl

theorem oneHot_and {gnt : Bits n} (h : OneHot gnt) (r : Bool) : OneHot fun j => gnt j && r := by
  intro j k hj hk
  rw [Bool.and_eq_true] at hj hk
  exact h j k hj.1 hk.1

end Handshakes

/-! ## Runs -/

/-- The arbiter with what each port has handed over, the same in one order, and what the memory has
taken. -/
structure WriteArbRun (n : Nat) (ρ δ : Type*) where
  arb : WriteArb n ρ
  taken : Fin n → List ρ
  sent : Fin n → List δ
  order : List (Fin n × ρ)
  src : List (Fin n × δ)
  reqs : List ρ
  beats : List δ

namespace WriteArbRun

def start (n : Nat) (ρ δ : Type*) : WriteArbRun n ρ δ :=
  ⟨WriteArb.reset n ρ, fun _ => [], fun _ => [], [], [], [], []⟩

variable (last : δ → Bool)

def step (s : WriteArbRun n ρ δ) (i : WriteArbIn n ρ δ) : WriteArbRun n ρ δ where
  arb := s.arb.step last i
  taken := fun j => s.taken j ++
    if s.arb.memReqWriteReady i j then (i.memReqWrite j).toList else []
  sent := fun j => s.sent j ++
    if s.arb.memReqWriteDataReady i j then (i.memReqWriteData j).toList else []
  order := s.order ++ handshakes (s.arb.memReqWriteReady i) i.memReqWrite
  src := s.src ++ handshakes (s.arb.memReqWriteDataReady i) i.memReqWriteData
  reqs := s.reqs ++ (s.arb.reqOut i).toList
  beats := s.beats ++ (s.arb.dataOut i).toList

/-- The bursts that are over in a list of beats. -/
def bursts (l : List (Fin n × δ)) : Nat := l.countP fun x => last x.2

/-- The beats of a burst are those of the requester of the request of the same rank. -/
def InOrder (order : List (Fin n × ρ)) (src : List (Fin n × δ)) : Prop :=
  ∀ m x, src[m]? = some x → ∃ q, order[bursts last (src.take m)]? = some q ∧ q.1 = x.1

/-- The requests that the memory has taken and the one in the buffer are those handed over, in
order; the grants in the buffer are those of the requests whose burst is not over. -/
structure Inv (s : WriteArbRun n ρ δ) : Prop where
  oneHot : OneHot s.arb.arb.gntQ
  reqs : s.reqs ++ s.arb.reqFifo = s.order.map Prod.snd
  le : bursts last s.src ≤ s.order.length
  grants : s.arb.gntFifo = (s.order.map fun q => ofIndex q.1).drop (bursts last s.src)
  beats : s.beats = s.src.map Prod.snd
  taken : ∀ j, s.taken j = part j s.order
  sent : ∀ j, s.sent j = part j s.src
  inOrder : InOrder last s.order s.src

variable {last} {s : WriteArbRun n ρ δ} {i : WriteArbIn n ρ δ}

theorem inv_start : (start n ρ δ).Inv last where
  oneHot := nofun
  reqs := rfl
  le := Nat.le_refl 0
  grants := rfl
  beats := rfl
  taken _ := rfl
  sent _ := rfl
  inOrder := by
    intro m x hx
    contradiction

theorem Inv.oneHot_gnt (h : s.Inv last) : OneHot (s.arb.gnt i) := FxArb.oneHot_gnt h.oneHot

/-- The grant at the head of the buffer is that of the request whose burst is open. -/
theorem Inv.head (h : s.Inv last) :
    (∀ j, s.arb.dataGnt j = false) ∨
      ∃ q, s.order[bursts last s.src]? = some q ∧ s.arb.dataGnt = ofIndex q.1 := by
  unfold WriteArb.dataGnt
  rw [h.grants, ← List.map_drop]
  cases hq : s.order[bursts last s.src]? with
  | none =>
    rw [List.drop_eq_nil_of_le (List.getElem?_eq_none_iff.1 hq)]
    exact Or.inl fun _ => rfl
  | some q =>
    obtain ⟨hlt, hget⟩ := List.getElem?_eq_some_iff.1 hq
    rw [List.drop_eq_getElem_cons hlt, hget]
    exact Or.inr ⟨q, rfl, rfl⟩

theorem Inv.oneHot_dataGnt (h : s.Inv last) : OneHot s.arb.dataGnt := by
  obtain hno | ⟨q, -, hg⟩ := h.head
  · intro j k hj
    rw [hno j] at hj
    contradiction
  · rw [hg]
    exact oneHot_ofIndex q.1

/-- The request that enters its buffer is the one handed over. -/
theorem Inv.accepted_req (h : s.Inv last) :
    (Fifo.accepted 1 true s.arb.reqFifo (s.arb.reqW i) i.memReqWriteReady).toList =
      (handshakes (s.arb.memReqWriteReady i) i.memReqWrite).map Prod.snd := by
  have hacc : Fifo.accepted 1 true s.arb.reqFifo (s.arb.reqW i) i.memReqWriteReady =
      if s.arb.arbReady i then granted (s.arb.gnt i) i.memReqWrite else none := by
    show (if s.arb.reqWok i then s.arb.reqW i else none) = _
    unfold WriteArb.reqW WriteArb.arbReady
    cases s.arb.gntWok <;> cases s.arb.reqWok i <;> rfl
  have hlist := granted_handshakes i.memReqWrite (h.oneHot_gnt (i := i)) (s.arb.arbReady i)
  rw [hacc, show s.arb.memReqWriteReady i = fun j => s.arb.gnt i j && s.arb.arbReady i from rfl,
    ← hlist]
  cases s.arb.arbReady i <;> rfl

/-- Its grant enters with it. -/
theorem Inv.accepted_gnt (h : s.Inv last) :
    (Fifo.accepted 2 false s.arb.gntFifo (s.arb.gntW i) (s.arb.gntR last i)).toList =
      (handshakes (s.arb.memReqWriteReady i) i.memReqWrite).map fun q => ofIndex q.1 := by
  have hacc : Fifo.accepted 2 false s.arb.gntFifo (s.arb.gntW i) (s.arb.gntR last i) =
      if s.arb.arbReady i && s.arb.reqValid i then some (s.arb.gnt i) else none := by
    have hwok : Fifo.wok 2 false s.arb.gntFifo (s.arb.gntR last i) = s.arb.gntWok := by
      simp [Fifo.wok, WriteArb.gntWok]
    unfold Fifo.accepted
    rw [hwok]
    unfold WriteArb.gntW WriteArb.arbReady
    cases s.arb.gntWok <;> cases s.arb.reqWok i <;> cases s.arb.reqValid i <;> rfl
  have hready : s.arb.memReqWriteReady i = fun j => s.arb.gnt i j && s.arb.arbReady i := rfl
  rw [hacc, hready]
  cases s.arb.arbReady i with
  | false =>
    rw [handshakes_of_not_ready fun j => Bool.and_false _]
    rfl
  | true =>
    simp only [Bool.and_true, Bool.true_and]
    cases ha : any (s.arb.gnt i) with
    | false =>
      have hno : s.arb.reqValid i = false := by
        rw [WriteArb.reqValid, any_eq_false]
        intro j
        rw [any_eq_false.1 ha j, Bool.false_and]
      rw [handshakes_of_not_ready (any_eq_false.1 ha), hno]
      rfl
    | true =>
      obtain ⟨j, hj⟩ := any_eq_true.1 ha
      have hone := h.oneHot_gnt (i := i)
      have hvalid : s.arb.reqValid i = (i.memReqWrite j).isSome := by
        rw [WriteArb.reqValid, Bool.eq_iff_iff, any_eq_true]
        constructor
        · rintro ⟨k, hk⟩
          rw [Bool.and_eq_true] at hk
          rw [← hone k j hk.1 hj]
          exact hk.2
        · intro hs
          exact ⟨j, by rw [hj, FxArb.valid, hs]; rfl⟩
      rw [handshakes_of_ready hone hj, hvalid, hone.eq_ofIndex hj]
      cases i.memReqWrite j <;> rfl

/-- The beat that is taken is one of the open burst, and the burst is over with the last one. -/
theorem Inv.beat (h : s.Inv last) :
    (handshakes (s.arb.memReqWriteDataReady i) i.memReqWriteData = [] ∧
        s.arb.gntR last i = false) ∨
      ∃ q d, s.order[bursts last s.src]? = some q ∧
        handshakes (s.arb.memReqWriteDataReady i) i.memReqWriteData = [(q.1, d)] ∧
        s.arb.gntR last i = last d := by
  have hready : s.arb.memReqWriteDataReady i =
      fun j => s.arb.dataGnt j && i.memReqWriteDataReady := rfl
  rw [hready, WriteArb.gntR, WriteArb.memReqWriteData]
  obtain hno | ⟨q, hq, hg⟩ := h.head
  · rw [granted_of_not_any hno, handshakes_of_not_ready fun j => by rw [hno j, Bool.false_and]]
    exact Or.inl ⟨rfl, Bool.and_false _⟩
  · rw [hg, granted_ofIndex]
    cases i.memReqWriteDataReady with
    | false =>
      rw [handshakes_of_not_ready fun j => Bool.and_false _]
      exact Or.inl ⟨rfl, rfl⟩
    | true =>
      simp only [Bool.and_true, Bool.true_and]
      rw [handshakes_of_ready (oneHot_ofIndex q.1) (ofIndex_self q.1)]
      cases hd : i.memReqWriteData q.1 with
      | none => exact Or.inl ⟨rfl, rfl⟩
      | some d => exact Or.inr ⟨q, d, hq, rfl, rfl⟩

/-- The bursts that are over after the cycle are those of requests handed over before, and their
grants have left the buffer. -/
theorem Inv.bursts_step (h : s.Inv last) :
    bursts last (s.step last i).src ≤ s.order.length ∧
      (if s.arb.gntR last i then s.arb.gntFifo.tail else s.arb.gntFifo) =
        (s.order.map fun q => ofIndex q.1).drop (bursts last (s.step last i).src) := by
  have hsrc : (s.step last i).src =
      s.src ++ handshakes (s.arb.memReqWriteDataReady i) i.memReqWriteData := rfl
  rw [hsrc, bursts, List.countP_append]
  obtain ⟨hno, hr⟩ | ⟨q, d, hq, hbeat, hr⟩ := h.beat (i := i)
  · rw [hno, hr]
    exact ⟨h.le, h.grants⟩
  · obtain ⟨hlt, -⟩ := List.getElem?_eq_some_iff.1 hq
    have hone : List.countP (fun x => last x.2) [(q.1, d)] = if last d then 1 else 0 := by simp
    rw [hbeat, hr, hone, h.grants]
    cases last d with
    | false => exact ⟨h.le, rfl⟩
    | true => exact ⟨hlt, by rw [if_pos rfl, List.tail_drop]; rfl⟩

/-- The beat that is taken belongs to the open burst. -/
theorem Inv.inOrder_step (h : s.Inv last) :
    InOrder last (s.step last i).order (s.step last i).src := by
  intro m x hx
  have hsrc : (s.step last i).src =
      s.src ++ handshakes (s.arb.memReqWriteDataReady i) i.memReqWriteData := rfl
  have horder : (s.step last i).order =
      s.order ++ handshakes (s.arb.memReqWriteReady i) i.memReqWrite := rfl
  have hkeep : ∀ (b : Nat) q, s.order[b]? = some q → (s.step last i).order[b]? = some q := by
    intro b q hq
    rw [horder, List.getElem?_append_left (List.getElem?_eq_some_iff.1 hq).1]
    exact hq
  rw [hsrc] at hx ⊢
  by_cases hm : m < s.src.length
  · rw [List.getElem?_append_left hm] at hx
    obtain ⟨q, hq, he⟩ := h.inOrder m x hx
    refine ⟨q, ?_, he⟩
    rw [List.take_append_of_le_length hm.le]
    exact hkeep _ q hq
  · have hge : s.src.length ≤ m := Nat.le_of_not_lt hm
    rw [List.getElem?_append_right hge] at hx
    obtain ⟨hno, -⟩ | ⟨q, d, hq, hbeat, -⟩ := h.beat (i := i)
    · rw [hno] at hx
      contradiction
    · rw [hbeat, List.getElem?_singleton] at hx
      split_ifs at hx with hz
      have hlen : m = s.src.length := by omega
      refine ⟨q, ?_, by rw [← Option.some.inj hx]⟩
      rw [hlen, List.take_left]
      exact hkeep _ q hq

theorem Inv.step (h : s.Inv last) : (s.step last i).Inv last where
  oneHot := FxArb.oneHot_step h.oneHot
  reqs := by
    show s.reqs ++ (s.arb.reqOut i).toList ++ Fifo.step 1 true s.arb.reqFifo (s.arb.reqW i)
        i.memReqWriteReady =
      (s.order ++ handshakes (s.arb.memReqWriteReady i) i.memReqWrite).map Prod.snd
    have hcons : (s.arb.reqOut i).toList ++
        Fifo.step 1 true s.arb.reqFifo (s.arb.reqW i) i.memReqWriteReady = _ := Fifo.step_conserve
    rw [List.append_assoc, hcons, h.accepted_req, List.map_append, ← h.reqs, List.append_assoc]
  le := by
    show _ ≤ (s.order ++ handshakes (s.arb.memReqWriteReady i) i.memReqWrite).length
    rw [List.length_append]
    exact Nat.le_add_right_of_le h.bursts_step.1
  grants := by
    obtain ⟨hle, htail⟩ := h.bursts_step (i := i)
    show Fifo.step 2 false s.arb.gntFifo (s.arb.gntW i) (s.arb.gntR last i) =
      ((s.order ++ handshakes (s.arb.memReqWriteReady i) i.memReqWrite).map
        fun q => ofIndex q.1).drop _
    rw [Fifo.step_eq, htail, h.accepted_gnt, List.map_append,
      List.drop_append_of_le_length (by rw [List.length_map]; exact hle)]
  beats := by
    show s.beats ++ (s.arb.dataOut i).toList =
      (s.src ++ handshakes (s.arb.memReqWriteDataReady i) i.memReqWriteData).map Prod.snd
    have hlist := granted_handshakes i.memReqWriteData h.oneHot_dataGnt i.memReqWriteDataReady
    have hready : s.arb.memReqWriteDataReady i =
        fun j => s.arb.dataGnt j && i.memReqWriteDataReady := rfl
    rw [List.map_append, ← h.beats, hready, ← hlist, WriteArb.dataOut, WriteArb.memReqWriteData]
    cases i.memReqWriteDataReady <;> rfl
  taken j := by
    show s.taken j ++ _ = part j (s.order ++ _)
    have hone : OneHot (s.arb.memReqWriteReady i) := oneHot_and h.oneHot_gnt _
    rw [part_append, ← h.taken j, part_handshakes hone]
  sent j := by
    show s.sent j ++ _ = part j (s.src ++ _)
    have hone : OneHot (s.arb.memReqWriteDataReady i) := oneHot_and h.oneHot_dataGnt _
    rw [part_append, ← h.sent j, part_handshakes hone]
  inOrder := h.inOrder_step

/-- **The order of the writes.** For any number of requesters, any bursts and any stalls: the
requests that the memory has taken, and the one that waits, are those handed over, each port's in
its order; the beats are those handed over, each port's in its order; and the beats of each burst
come from the requester of the request of the same rank. -/
theorem ordered (last : δ → Bool) (is : List (WriteArbIn n ρ δ)) :
    let s := run (step last) (start n ρ δ) is
    s.reqs ++ s.arb.reqFifo = s.order.map Prod.snd ∧ (∀ j, s.taken j = part j s.order) ∧
      s.beats = s.src.map Prod.snd ∧ (∀ j, s.sent j = part j s.src) ∧
      InOrder last s.order s.src := by
  intro s
  have h : s.Inv last := run_invariant inv_start fun _ _ h => h.step
  exact ⟨h.reqs, h.taken, h.beats, h.sent, h.inOrder⟩

end WriteArbRun

/-! ## The arbiter of the cache -/

namespace Channels

variable {k : MemCfg}

/-- The arbiter between the write buffer, the flush controller and the uncacheable requests. -/
def writeArbiter (s : Channels k) : WriteArb 3 (MemReq k) := ⟨s.writeArb, s.reqFifo, s.gntFifo⟩

/-- What the units offer to it. -/
def writeArbIn (s : Channels k) (i : ChannelsIn k) : WriteArbIn 3 (MemReq k) MemReqW :=
  ⟨s.writes, s.datas, i.memReqWriteReady, i.memReqWriteDataReady⟩

theorem writeArbiter_step (s : Channels k) (i : ChannelsIn k) :
    (s.step i).writeArbiter = s.writeArbiter.step MemReqW.last (s.writeArbIn i) := rfl

/-- The arbiter of the cache runs on what the units offer. -/
theorem writeArbiter_run (s : Channels k) (is : List (ChannelsIn k)) :
    (run step s is).writeArbiter =
      run (WriteArb.step MemReqW.last) s.writeArbiter
        (trace step (fun s i => [s.writeArbIn i]) s is) := by
  induction is generalizing s with
  | nil => rfl
  | cons i is ih => exact ih (s.step i)

end Channels

end Hpdcache
