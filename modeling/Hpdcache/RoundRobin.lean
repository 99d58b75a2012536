import Hpdcache.Lib.Arbiter
import Hpdcache.Lib.System

/-!
# The round-robin arbiter

The arbiter that the replay table, the write buffer and the prefetcher share, with the wires of its
source: the register is rotated, the thermometer mask hides the requests up to the last grant, and
two priority encoders choose. The grant is locked in the register until it is taken.

**The requests are free.** A requester may withdraw its request at any time, also when its grant is
locked. The bound on the grants before that of a requester only asks that it keeps its own request.

* `Rrarb.toArb_step` — the wires compute what the arbiter of the library does.
* `Rrarb.fair` — what holds of the grants in every run.
-/

namespace Hpdcache

open Hw

variable {n : Nat}

/-- The lowest bit that is set: each bit hides those above it. -/
def prio1hotEncoder (val : Bits n) : Bits n :=
  fun i => val i && !decide (∃ j < i, val j = true)

/-- Registers of the arbiter. -/
structure Rrarb (n : Nat) where
  gntQ : Bits n
  waitQ : Bool

structure RrarbIn (n : Nat) where
  req : Bits n
  ready : Bool

namespace Rrarb

/-- The position before, and the last one before the first. -/
def before (i : Fin n) : Fin n :=
  if i.val = 0 then ⟨n - 1, Nat.sub_lt i.pos Nat.one_pos⟩
  else ⟨i.val - 1, Nat.lt_of_le_of_lt (Nat.sub_le _ _) i.isLt⟩

def reset (n : Nat) : Rrarb n where
  gntQ := fun i => decide (i.val = n - 1)
  waitQ := false

variable (a : Rrarb n) (req : Bits n)

/-- The register, rotated by one position. -/
def nxt : Bits n := fun i => a.gntQ (before i)

/-- The thermometer mask. -/
def mask : Bits n := fun i => decide (∃ j ≤ i, a.nxt j = true)

def gntMsk : Bits n := prio1hotEncoder fun i => req i && a.mask i

def gntNomsk : Bits n := prio1hotEncoder req

def gnt : Bits n := if any (a.gntMsk req) then a.gntMsk req else gntNomsk req

/-- The output grant. -/
def gntO : Bits n := if a.waitQ then a.gntQ else a.gnt req

def pending : Bool := any req

def step (i : RrarbIn n) : Rrarb n where
  waitQ := !i.ready && (a.waitQ || pending i.req)
  gntQ := if !a.waitQ && pending i.req then a.gnt i.req else a.gntQ

/-- The grant that is taken in a cycle, if any. -/
def completed (i : RrarbIn n) : List (Fin n) :=
  if i.ready then (first? (a.gntO i.req)).toList else []

end Rrarb

/-! ## The wires -/

theorem prio1hotEncoder_eq (val : Bits n) : prio1hotEncoder val = prio val := by
  funext i
  rw [Bool.eq_iff_iff, prio_eq_true, first?_eq_some_iff]
  simp [prio1hotEncoder]

namespace Rrarb

variable {a : Rrarb n} {req : Bits n}

/-- The arbiter of the library, with the same registers. -/
def toArb (a : Rrarb n) : RrArb n := ⟨a.waitQ, a.gntQ⟩

/-- The position before `k` is `j` when `k` is after `j`, around. -/
theorem before_eq_iff {j k : Fin n} : before k = j ↔ k.val = (j.val + 1) % n := by
  have hj := j.isLt
  have hk := k.isLt
  rw [Fin.ext_iff]
  unfold before
  by_cases hlast : j.val + 1 = n
  · rw [hlast, Nat.mod_self]
    split_ifs with h0
    · show n - 1 = j.val ↔ _
      omega
    · show k.val - 1 = j.val ↔ _
      omega
  · rw [Nat.mod_eq_of_lt (by omega)]
    split_ifs with h0
    · show n - 1 = j.val ↔ _
      omega
    · show k.val - 1 = j.val ↔ _
      omega

theorem mask_eq : a.mask = a.toArb.mask := by
  funext i
  apply decide_eq_decide.2
  constructor
  · rintro ⟨k, hle, hk⟩
    exact ⟨before k, k, hk, before_eq_iff.1 rfl, hle⟩
  · rintro ⟨j, k, hj, hk, hle⟩
    refine ⟨k, hle, ?_⟩
    show a.gntQ (before k) = true
    rw [before_eq_iff.2 hk]
    exact hj

theorem gnt_eq : a.gnt req = a.toArb.next req := by
  unfold gnt gntMsk gntNomsk RrArb.next RrArb.gntMsk
  rw [prio1hotEncoder_eq, prio1hotEncoder_eq, mask_eq]

theorem gntO_eq : a.gntO req = a.toArb.gnt req := by
  unfold gntO
  rw [gnt_eq]
  rfl

theorem toArb_step (i : RrarbIn n) : (a.step i).toArb = a.toArb.step i.req i.ready := by
  unfold step
  rw [gnt_eq]
  rfl

/-! ## The grants -/

/-- The register holds one grant. -/
def Rotation (a : Rrarb n) : Prop := ∃ j, a.gntQ = ofIndex j

theorem rotation_reset (hn : 0 < n) : (reset n).Rotation := by
  refine ⟨⟨n - 1, Nat.sub_lt hn Nat.one_pos⟩, ?_⟩
  funext i
  simp [reset, ofIndex, Fin.ext_iff]

theorem gnt_cases (h : a.waitQ = false) :
    a.gntO req = (fun _ => false) ∨ ∃ j, a.gntO req = ofIndex j ∧ req j = true := by
  have hgnt : a.gntO req = a.toArb.next req := by rw [gntO_eq, RrArb.gnt_of_free h]
  rw [hgnt]
  cases hany : any (a.toArb.next req) with
  | false => exact Or.inl (funext (any_eq_false.1 hany))
  | true =>
    obtain ⟨j, hj⟩ := any_eq_true.1 hany
    exact Or.inr ⟨j, RrArb.oneHot_next.eq_ofIndex hj, RrArb.next_mem hj⟩

theorem Rotation.gntO (h : a.Rotation) :
    a.gntO req = (fun _ => false) ∨ ∃ j, a.gntO req = ofIndex j := by
  cases hw : a.waitQ with
  | true =>
    obtain ⟨j, hj⟩ := h
    exact Or.inr ⟨j, by simp [Rrarb.gntO, hw, hj]⟩
  | false =>
    obtain hz | ⟨j, hj, -⟩ := @gnt_cases _ a req hw
    · exact Or.inl hz
    · exact Or.inr ⟨j, hj⟩

theorem Rotation.step (h : a.Rotation) (i : RrarbIn n) : (a.step i).Rotation := by
  obtain ⟨j, hj⟩ := h
  by_cases hpend : (!a.waitQ && pending i.req) = true
  · have hfree : a.waitQ = false := by
      rw [Bool.and_eq_true, Bool.not_eq_true'] at hpend
      exact hpend.1
    have hany : any (a.toArb.next i.req) = true := by
      rw [RrArb.any_next]
      rw [Bool.and_eq_true] at hpend
      exact hpend.2
    obtain ⟨g, hg⟩ := any_eq_true.1 hany
    refine ⟨g, ?_⟩
    show (if !a.waitQ && pending i.req then a.gnt i.req else a.gntQ) = ofIndex g
    rw [if_pos hpend, gnt_eq]
    exact RrArb.oneHot_next.eq_ofIndex hg
  · refine ⟨j, ?_⟩
    show (if !a.waitQ && pending i.req then a.gnt i.req else a.gntQ) = ofIndex j
    rw [if_neg hpend, hj]

/-! ## Turns -/

theorem completed_ofIndex {i : RrarbIn n} {g : Fin n} (h : a.gntO i.req = ofIndex g) :
    a.completed i = if i.ready then [g] else [] := by
  have hfirst : first? (ofIndex g) = some g := (oneHot_ofIndex g).first? (ofIndex_self g)
  rw [completed, h, hfirst]
  rfl

/-- A requester that keeps its request is granted, or has a grant less before it for every grant
that is taken. -/
theorem turns_run {js : List (RrarbIn n)} {r j : Fin n} (hj : a.gntQ = ofIndex j)
    (hr : ∀ i ∈ js, i.req r = true) (hnot : r ∉ trace step completed a js) :
    (trace step completed a js).length < a.toArb.turns j r := by
  induction js generalizing a j with
  | nil => exact RrArb.turns_pos j r
  | cons i js ih =>
    have hreq : i.req r = true := hr i List.mem_cons_self
    obtain ⟨g, hgnt, hq, hturn, hwait⟩ := RrArb.turns_step (a := a.toArb) hj hreq i.ready
    have hcompleted := completed_ofIndex (a := a) (gntO_eq.trans hgnt)
    rw [trace, List.mem_append, not_or] at hnot
    rw [← toArb_step] at hq hturn hwait
    have hrest := ih hq (fun k hk => hr k (List.mem_cons_of_mem i hk)) hnot.2
    rw [trace, List.length_append, hcompleted]
    rw [hcompleted] at hnot
    cases hready : i.ready with
    | true =>
      rw [hready, if_pos rfl, List.mem_singleton] at hnot
      obtain hgr | hless := hturn
      · exact absurd hgr.symm hnot.1
      · rw [hready, if_pos rfl] at hless
        simp only [if_true, List.length_singleton]
        omega
    | false =>
      have hle := hwait hready
      simp only [Bool.false_eq_true, if_false, List.length_nil]
      omega

/-- Every cycle with a ready completes a grant, as long as someone asks. -/
theorem length_completed {js : List (RrarbIn n)} {r : Fin n} (h : a.Rotation)
    (hr : ∀ i ∈ js, i.req r = true) :
    (trace step completed a js).length = (js.filter fun i => i.ready).length := by
  induction js generalizing a with
  | nil => rfl
  | cons i js ih =>
    obtain ⟨j, hj⟩ := h
    have hreq : i.req r = true := hr i List.mem_cons_self
    obtain ⟨g, hgnt, -⟩ := RrArb.turns_step (a := a.toArb) hj hreq i.ready
    have hrest := ih (Rotation.step ⟨j, hj⟩ i) fun k hk => hr k (List.mem_cons_of_mem i hk)
    rw [trace, List.length_append, hrest, completed_ofIndex (gntO_eq.trans hgnt), List.filter_cons]
    cases i.ready with
    | true => exact Nat.add_comm _ _
    | false => exact Nat.zero_add _

/-- **Round robin.** In every run the grant is zero or one-hot, the register is one-hot, and a grant
that is not locked is that of a current requester. A requester that keeps its request has its grant
among any `n` grants that are taken meanwhile, and each cycle with a ready is one of them. -/
theorem fair (hn : 0 < n) (is : List (RrarbIn n)) :
    let a := run step (reset n) is
    (∀ req, a.gntO req = (fun _ => false) ∨ ∃ j, a.gntO req = ofIndex j) ∧
      (∃ j, a.gntQ = ofIndex j) ∧
      (a.waitQ = false → ∀ req j, a.gntO req j = true → req j = true) ∧
      ∀ r js, (∀ i ∈ js, i.req r = true) →
        (n ≤ (trace step completed a js).length → r ∈ trace step completed a js) ∧
          (trace step completed a js).length = (js.filter fun i => i.ready).length := by
  intro a
  have hrot : a.Rotation := run_invariant (rotation_reset hn) fun _ i h => h.step i
  refine ⟨fun req => hrot.gntO, hrot, ?_, ?_⟩
  · intro hw req j hj
    rw [gntO_eq] at hj
    exact RrArb.gnt_mem hw hj
  · intro r js hr
    obtain ⟨j, hj⟩ := hrot
    refine ⟨?_, length_completed ⟨j, hj⟩ hr⟩
    intro hlen
    by_contra hnot
    have hlt := turns_run hj hr hnot
    have hle := RrArb.turns_le (a := a.toArb) j r
    omega

/-- Two requesters that keep their requests take turns. -/
theorem fair_two :
    let both : RrarbIn 2 := ⟨fun _ => true, true⟩
    (0 : Fin 2) ∈ trace step completed (run step (reset 2) [both]) [both, both] ∧
      (1 : Fin 2) ∈ trace step completed (run step (reset 2) [both]) [both, both] := by
  intro both
  obtain ⟨-, -, -, hturns⟩ := fair (n := 2) (by decide) [both]
  have hasked : ∀ r, ∀ i ∈ [both, both], i.req r = true := by
    intro r i hi
    simp only [List.mem_cons, List.not_mem_nil, or_false, or_self] at hi
    rw [hi]
  exact ⟨(hturns 0 _ (hasked 0)).1 (by decide), (hturns 1 _ (hasked 1)).1 (by decide)⟩

end Rrarb

end Hpdcache
