import Hpdcache.Pkg
import Hpdcache.Lib.Select
import Mathlib.Data.Nat.Log
import Mathlib.Tactic.SplitIfs

/-!
# Victim selection

The choice of the way that a miss replaces. A way that is reserved by a pending miss is never
chosen; a free way comes first, then a way given by the policy, then a clean one, then a dirty one.

* `selVictimWay_not_fetch` — the victim is not reserved.
* `oneHot_selVictimWay` — there is at most one victim.
* `any_selVictimWay` — there is a victim as soon as one way is not reserved.
* `selVictimWay_priority` — the victim is the lowest way of the first class that is not empty.
-/

namespace Hpdcache

open Hw

/-- Width of the index of a way. -/
def Cfg.wayIndexWidth (c : Cfg) : Nat := if 1 < c.ways then Nat.clog 2 c.ways else 1

/-- Registers of the victim selection policies. -/
structure Victim (c : Cfg) where
  plruQ : Fin c.sets → Bits c.ways
  lfsrQ : BitVec 8

namespace Victim

variable {c : Cfg}

def reset (c : Cfg) : Victim c where
  plruQ := fun _ _ => false
  lfsrQ := BitVec.allOnes 8

/-- Directory state of the ways of a set, as the policies see it. -/
structure Dir (c : Cfg) where
  valid : Bits c.ways
  wback : Bits c.ways
  dirty : Bits c.ways
  fetch : Bits c.ways

def unusedWays (d : Dir c) : Bits c.ways := fun w => !d.fetch w && !d.valid w

def cleanWays (d : Dir c) : Bits c.ways := fun w => !d.fetch w && d.valid w && !d.dirty w

def dirtyWays (d : Dir c) : Bits c.ways := fun w => !d.fetch w && d.valid w && d.dirty w

/-- Ways that were not used recently. -/
def plruWays (v : Victim c) (set : Fin c.sets) (d : Dir c) : Bits c.ways :=
  fun w => !d.fetch w && d.valid w && !v.plruQ set w

/-- The way of the low bits of the shift register, if there is one. An index wider than the
register has bits that are unknown, and equals that of no way. -/
def randVictimWay (v : Victim c) : Bits c.ways :=
  fun w => decide (c.wayIndexWidth ≤ 8 ∧ v.lfsrQ.toNat % 2 ^ c.wayIndexWidth = w.val)

def randWays (v : Victim c) (d : Dir c) : Bits c.ways :=
  fun w => !d.fetch w && d.valid w && v.randVictimWay w

/-- The selection, given the ways that the policy allows and the one that it chooses of them. -/
def selWay (d : Dir c) (policy choice : Bits c.ways) : Bits c.ways :=
  if any (unusedWays d) then prio (unusedWays d)
  else if any policy then choice
  else if any (cleanWays d) then prio (cleanWays d)
  else if any (dirtyWays d) then prio (dirtyWays d)
  else fun _ => false

def selVictimWay (v : Victim c) (set : Fin c.sets) (d : Dir c) : Bits c.ways :=
  if c.ways = 1 then fun w => !d.fetch w
  else match c.victimSel with
    | .plru => selWay d (v.plruWays set d) (prio (v.plruWays set d))
    | .random => selWay d (v.randWays d) v.randVictimWay

/-- One step of the shift register, with the polynomial for eight bits. -/
def lfsrNext (q : BitVec 8) : BitVec 8 :=
  if q.getLsbD 0 then (q >>> 1) ^^^ 0xE1#8 else q >>> 1

def lfsrShift (v : Victim c) (sel : Bool) (d : Dir c) : Bool :=
  sel && !any (unusedWays d) && any (v.randWays d)

/-- The used bits of a set after an access. Once all are set, only the accessed way stays so. -/
def updtPlru (q way : Bits c.ways) : Bits c.ways :=
  let q' : Bits c.ways := fun w => q w || way w
  if all q' then way else q'

/-- Update of the policy, with the selection `sel` and the access `updt`. -/
def step (v : Victim c) (sel : Bool) (d : Dir c) (updt : Bool) (updtSet : Fin c.sets)
    (updtWay : Bits c.ways) : Victim c where
  plruQ := if updt then Function.update v.plruQ updtSet (updtPlru (v.plruQ updtSet) updtWay)
    else v.plruQ
  lfsrQ := if v.lfsrShift sel d then lfsrNext v.lfsrQ else v.lfsrQ

/-! ## What a victim is -/

variable {v : Victim c} {set : Fin c.sets} {d : Dir c} {w : Fin c.ways}

/-- The way of the shift register is the only one that the random policy can allow. -/
theorem oneHot_randVictimWay : OneHot v.randVictimWay := by
  intro i j hi hj
  simp only [randVictimWay, decide_eq_true_eq] at hi hj
  exact Fin.ext (hi.2.symm.trans hj.2)

/-- The ways that the policy of the configuration allows. -/
def policyWays (v : Victim c) (set : Fin c.sets) (d : Dir c) : Bits c.ways :=
  match c.victimSel with
  | .plru => v.plruWays set d
  | .random => v.randWays d

/-- The candidates of each class, in the order of their priority. -/
def classes (v : Victim c) (set : Fin c.sets) (d : Dir c) : List (Bits c.ways) :=
  [unusedWays d, v.policyWays set d, cleanWays d, dirtyWays d]

/-- The random way is the lowest of the ways that the random policy allows. -/
theorem randVictimWay_eq_prio (h : any (v.randWays d) = true) :
    v.randVictimWay = prio (v.randWays d) := by
  obtain ⟨w, hw⟩ := any_eq_true.1 h
  have hmem : ∀ j, v.randWays d j = true → v.randVictimWay j = true := by
    intro j hj
    simp only [randWays, Bool.and_eq_true] at hj
    exact hj.2
  have hprio : prio (v.randWays d) w = true := by
    rw [prio_eq_true]
    exact first?_of_forall fun j =>
      ⟨fun hj => oneHot_randVictimWay j w (hmem j hj) (hmem w hw), fun hj => hj ▸ hw⟩
  rw [oneHot_randVictimWay.eq_ofIndex (hmem w hw), (oneHot_prio _).eq_ofIndex hprio]

theorem selWay_eq_prioFirst {policy choice : Bits c.ways}
    (h : any policy = true → choice = prio policy) :
    selWay d policy choice = prioFirst [unusedWays d, policy, cleanWays d, dirtyWays d] := by
  simp only [selWay, prioFirst]
  by_cases hp : any policy = true
  · rw [h hp]
  · simp only [Bool.not_eq_true] at hp
    simp only [hp, Bool.false_eq_true, if_false]

/-- A class holds no way that is reserved. -/
theorem classes_not_fetch {m : Bits c.ways} (hm : m ∈ v.classes set d) (hw : m w = true) :
    d.fetch w = false := by
  have hpolicy : v.policyWays set d w = true → d.fetch w = false := by
    intro hw
    unfold policyWays at hw
    cases hp : c.victimSel with
    | plru =>
      simp only [hp, plruWays, Bool.and_eq_true, Bool.not_eq_true'] at hw
      exact hw.1.1
    | random =>
      simp only [hp, randWays, Bool.and_eq_true, Bool.not_eq_true'] at hw
      exact hw.1.1
  simp only [classes, List.mem_cons, List.not_mem_nil, or_false] at hm
  obtain rfl | rfl | rfl | rfl := hm
  · simp only [unusedWays, Bool.and_eq_true, Bool.not_eq_true'] at hw
    exact hw.1
  · exact hpolicy hw
  · simp only [cleanWays, Bool.and_eq_true, Bool.not_eq_true'] at hw
    exact hw.1.1
  · simp only [dirtyWays, Bool.and_eq_true, Bool.not_eq_true'] at hw
    exact hw.1.1

/-- A way that is not reserved is free, clean or dirty, whatever the policy says of it. -/
theorem exists_picks_classes (v : Victim c) (set : Fin c.sets) (hw : d.fetch w = false) :
    ∃ w, Picks (v.classes set d) w := by
  have hsome : ∀ m : Bits c.ways, m ∈ v.classes set d → m w = true →
      ∃ w, Picks (v.classes set d) w := fun m hm hmw => exists_picks hm hmw
  cases hv : d.valid w with
  | false => exact hsome (unusedWays d) (by simp [classes]) (by simp [unusedWays, hw, hv])
  | true =>
    cases hd : d.dirty w with
    | false => exact hsome (cleanWays d) (by simp [classes]) (by simp [cleanWays, hw, hv, hd])
    | true => exact hsome (dirtyWays d) (by simp [classes]) (by simp [dirtyWays, hw, hv, hd])

/-- The selection is a chain of priority encoders over the classes. -/
theorem selVictimWay_eq_prioFirst : v.selVictimWay set d = prioFirst (v.classes set d) := by
  unfold selVictimWay
  by_cases h1 : c.ways = 1
  · -- With one way a class is empty unless the way is not reserved.
    rw [if_pos h1]
    have hsub : ∀ i j : Fin c.ways, i = j := by
      intro i j
      have := i.isLt
      have := j.isLt
      exact Fin.ext (by omega)
    funext w
    rw [Bool.eq_iff_iff, prioFirst_eq_true, Bool.not_eq_true']
    constructor
    · intro hw
      obtain ⟨j, hj⟩ := exists_picks_classes v set hw
      exact hsub j w ▸ hj
    · intro hw
      obtain ⟨m, hm, hmw⟩ := hw.mem
      exact classes_not_fetch hm hmw
  · rw [if_neg h1, classes, policyWays]
    cases hp : c.victimSel with
    | plru => exact selWay_eq_prioFirst fun _ => rfl
    | random => exact selWay_eq_prioFirst randVictimWay_eq_prio

theorem selVictimWay_eq_true : v.selVictimWay set d w = true ↔ Picks (v.classes set d) w := by
  rw [selVictimWay_eq_prioFirst, prioFirst_eq_true]

/-- The victim is not reserved by a pending miss. -/
theorem selVictimWay_not_fetch (h : v.selVictimWay set d w = true) : d.fetch w = false := by
  obtain ⟨m, hm, hw⟩ := (selVictimWay_eq_true.1 h).mem
  exact classes_not_fetch hm hw

theorem oneHot_selVictimWay : OneHot (v.selVictimWay set d) := by
  rw [selVictimWay_eq_prioFirst]
  exact oneHot_prioFirst _

/-- There is a victim unless all the ways of the set are reserved. -/
theorem any_selVictimWay (hw : d.fetch w = false) : any (v.selVictimWay set d) = true := by
  obtain ⟨j, hj⟩ := exists_picks_classes v set hw
  exact any_eq_true.2 ⟨j, selVictimWay_eq_true.2 hj⟩

/-- **The victim follows the order of the classes.** There is none when all the ways are reserved;
otherwise it is one way, not reserved, the lowest of the first class that is not empty. -/
theorem selVictimWay_priority (v : Victim c) (set : Fin c.sets) (d : Dir c) :
    (v.selVictimWay set d = (fun _ => false) ↔ ∀ w, d.fetch w = true) ∧
    (v.selVictimWay set d = (fun _ => false) ∨ ∃ w, v.selVictimWay set d = ofIndex w ∧
      d.fetch w = false ∧
      Picks [unusedWays d, v.policyWays set d, cleanWays d, dirtyWays d] w) := by
  have hzero : v.selVictimWay set d = (fun _ => false) ∨
      ∃ w, v.selVictimWay set d = ofIndex w ∧ v.selVictimWay set d w = true := by
    cases ha : any (v.selVictimWay set d) with
    | false => exact Or.inl (funext (any_eq_false.1 ha))
    | true =>
      obtain ⟨w, hw⟩ := any_eq_true.1 ha
      exact Or.inr ⟨w, oneHot_selVictimWay.eq_ofIndex hw, hw⟩
  refine ⟨⟨?_, ?_⟩, ?_⟩
  · intro h w
    by_contra hw
    have hany : any (v.selVictimWay set d) = true := any_selVictimWay (Bool.not_eq_true _ ▸ hw)
    rw [h, any_eq_true] at hany
    obtain ⟨_, hj⟩ := hany
    contradiction
  · intro h
    obtain hz | ⟨w, _, hw⟩ := hzero
    · exact hz
    · have hf := selVictimWay_not_fetch hw
      rw [h w] at hf
      contradiction
  · obtain hz | ⟨w, he, hw⟩ := hzero
    · exact Or.inl hz
    · exact Or.inr ⟨w, he, selVictimWay_not_fetch hw, selVictimWay_eq_true.1 hw⟩

end Victim

end Hpdcache
