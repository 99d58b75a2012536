import Hpdcache.Victim
import Hpdcache.Lib.System
import Mathlib.Data.List.Iterate

/-!
# Replacement over runs

The two policies of the victim selection, run with any selections and any accesses.

**Recency.** An access sets the bit of one way, and the bits of the others are reset once all would
be set. With two ways or more a bit is always left unset, and the way of the last access has its bit
set: a victim is taken among the others while one of them can be.

**The shift register.** A selection shifts the register only when the way that the register
designates can be chosen. When the number of ways is not a power of two the register can designate a
way that does not exist, as it does from reset: it is then never shifted again.

* `Victim.recency` — the bits of the pseudo-LRU policy in every run.
* `Victim.lfsrQ_run` — a register that designates no way keeps its value.
* `Victim.neverFreezes_iff` — the random policy goes on choosing other ways exactly when the number
  of ways is a power of two and its index fits in the register.
-/

namespace Hpdcache

open Hw

/-- What the memory controller gives to the policies in a cycle. -/
structure VictimIn (c : Cfg) where
  sel : Bool
  set : Fin c.sets
  dir : Victim.Dir c
  updt : Bool
  updtSet : Fin c.sets
  updtWay : Bits c.ways

namespace Victim

variable {c : Cfg} {v : Victim c} {i : VictimIn c} {set : Fin c.sets} {d : Dir c} {w : Fin c.ways}

def cycle (v : Victim c) (i : VictimIn c) : Victim c :=
  v.step i.sel i.dir i.updt i.updtSet i.updtWay

/-! ## Recency -/

/-- The cycle accesses the set. -/
def Accesses (set : Fin c.sets) (i : VictimIn c) : Prop := i.updt = true ∧ i.updtSet = set

/-- An access is one to a single way. -/
def OneHotUpdt (i : VictimIn c) : Prop := i.updt = true → ∃ w, i.updtWay = ofIndex w

/-- The last access of the set is one to the way. -/
def LastAccess (set : Fin c.sets) (w : Fin c.ways) (is : List (VictimIn c)) : Prop :=
  ∃ js i ks, is = js ++ i :: ks ∧ Accesses set i ∧ i.updtWay = ofIndex w ∧
    ∀ k ∈ ks, ¬ Accesses set k

/-- Some way is not marked as used. -/
def Spare (v : Victim c) : Prop := ∀ set, all (v.plruQ set) = false

theorem plruQ_of_access (h : Accesses set i) :
    (v.cycle i).plruQ set = updtPlru (v.plruQ set) i.updtWay := by
  obtain ⟨hu, rfl⟩ := h
  simp [cycle, step, hu]

theorem plruQ_of_not_access (h : ¬ Accesses set i) : (v.cycle i).plruQ set = v.plruQ set := by
  cases hu : i.updt with
  | false => simp [cycle, step, hu]
  | true =>
    have hne : set ≠ i.updtSet := fun he => h ⟨hu, he.symm⟩
    simp [cycle, step, hu, hne]

/-- With two ways or more, an access leaves a bit unset. -/
theorem all_updtPlru (hways : 2 ≤ c.ways) (q : Bits c.ways) (w : Fin c.ways) :
    all (updtPlru q (ofIndex w)) = false := by
  show all (if all (fun u => q u || ofIndex w u) = true then ofIndex w else _) = false
  split_ifs with h
  · -- another way than the one accessed
    obtain ⟨u, hu⟩ : ∃ u : Fin c.ways, u ≠ w := by
      by_cases h0 : w.val = 0
      · exact ⟨⟨1, hways⟩, fun he => by rw [← he] at h0; contradiction⟩
      · exact ⟨⟨0, c.ways_pos⟩, fun he => h0 (by rw [← he])⟩
    rw [all_eq_false]
    exact ⟨u, ofIndex_of_ne hu⟩
  · exact Bool.not_eq_true _ ▸ h

/-- The bit of the way that is accessed is set. -/
theorem updtPlru_self (q : Bits c.ways) (w : Fin c.ways) : updtPlru q (ofIndex w) w = true := by
  unfold updtPlru
  split_ifs <;> simp

theorem spare_reset : (reset c).Spare := by
  intro set
  rw [all_eq_false]
  exact ⟨⟨0, c.ways_pos⟩, rfl⟩

theorem Spare.cycle (hways : 2 ≤ c.ways) (h : v.Spare) (hi : OneHotUpdt i) :
    (v.cycle i).Spare := by
  intro set
  by_cases ha : Accesses set i
  · obtain ⟨w, hw⟩ := hi ha.1
    rw [plruQ_of_access ha, hw]
    exact all_updtPlru hways _ w
  · rw [plruQ_of_not_access ha]
    exact h set

theorem plruQ_run_of_not_access {ks : List (VictimIn c)} (h : ∀ k ∈ ks, ¬ Accesses set k) :
    (run cycle v ks).plruQ set = v.plruQ set := by
  induction ks generalizing v with
  | nil => rfl
  | cons k ks ih =>
    rw [run_cons, ih fun l hl => h l (List.mem_cons_of_mem k hl)]
    exact plruQ_of_not_access (h k List.mem_cons_self)

/-- The way of the last access of a set has its bit set. -/
theorem LastAccess.plruQ {is : List (VictimIn c)} (h : LastAccess set w is) :
    (run Victim.cycle v is).plruQ set w = true := by
  obtain ⟨js, i, ks, rfl, ha, hw, hks⟩ := h
  rw [run_append, run_cons, plruQ_run_of_not_access hks, plruQ_of_access ha, hw]
  exact updtPlru_self _ w

/-- A way whose bit is set is not chosen while another one is valid, not fetched and unset. -/
theorem selVictimWay_of_used (hsel : c.victimSel = .plru) (hq : v.plruQ set w = true)
    (hvalid : ∀ u, d.valid u = true)
    (hother : ∃ u, d.fetch u = false ∧ v.plruQ set u = false) :
    v.selVictimWay set d w = false := by
  obtain ⟨u, hf, hu⟩ := hother
  rw [← Bool.not_eq_true, selVictimWay_eq_true]
  have hpolicy : v.policyWays set d = v.plruWays set d := by rw [policyWays, hsel]
  rw [classes, hpolicy]
  rintro (⟨hw, -⟩ | ⟨-, hw | ⟨hnone, -⟩⟩)
  · simp [unusedWays, hvalid] at hw
  · have hw' := hw.1
    simp [plruWays, hq] at hw'
  · have hw' := hnone u
    simp [plruWays, hf, hvalid, hu] at hw'

/-- **Recency.** With two ways or more, after any accesses, each to one way: the bits of a set are
never all set, the way of the last access of a set has its bit set, and in a set without an invalid
way it is not the victim while another way is valid, not fetched, and has its bit unset. -/
theorem recency (hways : 2 ≤ c.ways) (hsel : c.victimSel = .plru) (is : List (VictimIn c))
    (hone : ∀ i ∈ is, OneHotUpdt i) :
    let v := run cycle (reset c) is
    (∀ set, all (v.plruQ set) = false) ∧
      ∀ set w, LastAccess set w is → v.plruQ set w = true ∧
        ∀ d : Dir c, (∀ u, d.valid u = true) →
          (∃ u, u ≠ w ∧ d.valid u = true ∧ d.fetch u = false ∧ v.plruQ set u = false) →
            v.selVictimWay set d w = false := by
  intro v
  have hone' : Along cycle (fun _ i => OneHotUpdt i) (reset c) is := along_of_mem hone
  have hspare : v.Spare := hone'.invariant spare_reset fun _ _ h hi => h.cycle hways hi
  refine ⟨hspare, ?_⟩
  intro set w hlast
  have hq : v.plruQ set w = true := hlast.plruQ
  refine ⟨hq, ?_⟩
  intro d hvalid hother
  obtain ⟨u, -, -, hf, hu⟩ := hother
  exact selVictimWay_of_used hsel hq hvalid ⟨u, hf, hu⟩

def plruCfg : Cfg := Cfg.small true true true false (by decide) (by decide)

/-- A cycle that accesses a way of the set 0. -/
def access (w : Fin plruCfg.ways) : VictimIn plruCfg where
  sel := false
  set := ⟨0, by decide⟩
  dir := ⟨fun _ => true, fun _ => false, fun _ => false, fun _ => false⟩
  updt := true
  updtSet := ⟨0, by decide⟩
  updtWay := ofIndex w

/-- The way 1 and then the way 0 are accessed: the bit of the way 1 is reset, and that of the way 0
is set. -/
theorem recency_twoAccesses :
    let w₀ : Fin plruCfg.ways := ⟨0, by decide⟩
    let w₁ : Fin plruCfg.ways := ⟨1, by decide⟩
    let v := run cycle (reset plruCfg) [access w₁, access w₀]
    all (v.plruQ ⟨0, by decide⟩) = false ∧ v.plruQ ⟨0, by decide⟩ w₀ = true ∧
      v.selVictimWay ⟨0, by decide⟩ (access w₀).dir w₀ = false := by
  intro w₀ w₁ v
  have hone : ∀ i ∈ [access w₁, access w₀], OneHotUpdt i := by
    intro i hi _
    simp only [List.mem_cons, List.not_mem_nil, or_false] at hi
    obtain rfl | rfl := hi
    · exact ⟨w₁, rfl⟩
    · exact ⟨w₀, rfl⟩
  obtain ⟨hspare, hlast⟩ := recency (c := plruCfg) (by decide) rfl _ hone
  obtain ⟨hq, hvictim⟩ := hlast ⟨0, by decide⟩ w₀
    ⟨[access w₁], access w₀, [], rfl, ⟨rfl, rfl⟩, rfl, nofun⟩
  exact ⟨hspare _, hq, hvictim _ (fun _ => rfl) ⟨w₁, by decide, rfl, rfl, by decide⟩⟩

/-! ## The shift register -/

/-- All the ways of the set are valid, and none is being fetched. -/
def Full (d : Dir c) : Prop := ∀ w, d.valid w = true ∧ d.fetch w = false

/-- The way that the value of the register designates. -/
def designated (c : Cfg) (q : BitVec 8) : Bits c.ways :=
  fun w => decide (c.wayIndexWidth ≤ 8 ∧ q.toNat % 2 ^ c.wayIndexWidth = w.val)

/-- The victim that is chosen in a cycle, if any is asked for. -/
def picks (v : Victim c) (i : VictimIn c) : List (Bits c.ways) :=
  if i.sel then [v.selVictimWay i.set i.dir] else []

/-- The random policy goes on: the register is not zero, a selection in a full set takes the way
that it designates or shifts it, and nine selections in full sets do not all pick the same way. -/
structure Rolls (v : Victim c) : Prop where
  nonzero : v.lfsrQ ≠ 0
  shifts : ∀ i : VictimIn c, i.sel = true → Full i.dir →
    (∃ w, v.randVictimWay = ofIndex w ∧ v.selVictimWay i.set i.dir = ofIndex w) ∨
      (v.cycle i).lfsrQ ≠ v.lfsrQ
  moves : ∀ is, (∀ i ∈ is, i.sel = true → Full i.dir) → 9 ≤ (trace cycle picks v is).length →
    ∃ x ∈ trace cycle picks v is, ∃ y ∈ trace cycle picks v is, x ≠ y

def NeverFreezes (c : Cfg) : Prop :=
  ∀ is : List (VictimIn c), (run cycle (reset c) is).Rolls

theorem lfsrNext_ne_zero : ∀ q : BitVec 8, q ≠ 0 → lfsrNext q ≠ 0 := by
  decide +kernel

/-- The low bit of the register changes in nine values. -/
theorem exists_lowBit_ne : ∀ q : BitVec 8, q ≠ 0 →
    ∃ j < 9, (lfsrNext^[j] q).toNat % 2 ≠ q.toNat % 2 := by
  decide +kernel

theorem lfsrQ_cycle :
    (v.cycle i).lfsrQ = if v.lfsrShift i.sel i.dir then lfsrNext v.lfsrQ else v.lfsrQ := rfl

theorem nonzero_run (is : List (VictimIn c)) : (run cycle (reset c) is).lfsrQ ≠ 0 := by
  refine @run_invariant _ _ _ (fun v : Victim c => v.lfsrQ ≠ 0) _ _ ?_ ?_
  · show BitVec.allOnes 8 ≠ 0
    decide
  · intro v i h
    rw [lfsrQ_cycle]
    split_ifs
    · exact lfsrNext_ne_zero _ h
    · exact h

/-! ### A power of two -/

section
variable {k : Nat}

theorem wayIndexWidth_pow (hways : 2 ≤ c.ways) (h : c.ways = 2 ^ k) : c.wayIndexWidth = k := by
  rw [Cfg.wayIndexWidth, if_pos (show 1 < c.ways from hways), h]
  exact Nat.clog_pow 2 k (by decide)

/-- The register designates a way. -/
theorem designated_pow (hways : 2 ≤ c.ways) (h : c.ways = 2 ^ k) (hk : k ≤ 8) (q : BitVec 8) :
    ∃ w, designated c q = ofIndex w ∧ w.val = q.toNat % 2 ^ k := by
  have hlt : q.toNat % 2 ^ k < c.ways := by
    rw [h]
    exact Nat.mod_lt _ (Nat.two_pow_pos k)
  refine ⟨⟨q.toNat % 2 ^ k, hlt⟩, ?_, rfl⟩
  funext u
  rw [Bool.eq_iff_iff, ofIndex_eq_true, Fin.ext_iff, designated, decide_eq_true_eq,
    wayIndexWidth_pow hways h]
  exact ⟨fun hu => hu.2.symm, fun hu => ⟨hk, hu.symm⟩⟩

/-- Values with another low bit designate another way. -/
theorem designated_ne (hways : 2 ≤ c.ways) (h : c.ways = 2 ^ k) (hk : k ≤ 8) {q q' : BitVec 8}
    (hne : q'.toNat % 2 ≠ q.toNat % 2) : designated c q' ≠ designated c q := by
  obtain ⟨w, hw, hval⟩ := designated_pow hways h hk q
  obtain ⟨w', hw', hval'⟩ := designated_pow hways h hk q'
  have hpos : 1 ≤ k := by
    by_contra h0
    rw [Nat.lt_one_iff.1 (Nat.lt_of_not_le h0)] at h
    omega
  have hdvd : 2 ∣ 2 ^ k := Nat.pow_dvd_pow 2 hpos
  intro he
  rw [hw, hw'] at he
  have heq : w' = w := by
    rw [← ofIndex_eq_true, ← he]
    exact ofIndex_self w'
  apply hne
  rw [← Nat.mod_mod_of_dvd _ hdvd, ← Nat.mod_mod_of_dvd q.toNat hdvd, ← hval, ← hval', heq]

end

theorem unusedWays_of_full (hd : Full d) : unusedWays d w = false := by
  simp [unusedWays, (hd w).1]

theorem randWays_of_full (hd : Full d) : v.randWays d = v.randVictimWay := by
  funext u
  simp [randWays, (hd u).1, (hd u).2]

/-- In a full set the way that is designated is chosen. -/
theorem selVictimWay_of_full (hsel : c.victimSel = .random) (hd : Full d)
    (hw : v.randVictimWay = ofIndex w) : v.selVictimWay set d = ofIndex w := by
  apply oneHot_selVictimWay.eq_ofIndex
  rw [selVictimWay_eq_true, classes, policyWays, hsel]
  refine Or.inr ⟨fun u => unusedWays_of_full hd, Or.inl ?_⟩
  show v.randWays d w = true ∧ ∀ u < w, v.randWays d u = false
  rw [randWays_of_full hd, hw]
  exact ⟨ofIndex_self w, fun u hu => ofIndex_of_ne (ne_of_lt hu)⟩

/-- A selection in a full set shifts the register when it designates a way. -/
theorem lfsrShift_of_full (hd : Full d) (hw : v.randVictimWay = ofIndex w) :
    v.lfsrShift true d = true := by
  have hunused : any (unusedWays d) = false := any_eq_false.2 fun u => unusedWays_of_full hd
  have hrand : any (v.randWays d) = true := by
    rw [randWays_of_full hd, hw]
    exact any_eq_true.2 ⟨w, ofIndex_self w⟩
  rw [lfsrShift, hunused, hrand]
  rfl

/-- The ways picked in full sets are those that the values of the register designate, in turn. -/
theorem picks_run (hsel : c.victimSel = .random)
    (hdes : ∀ q, ∃ w, designated c q = ofIndex w) {is : List (VictimIn c)}
    (hfull : ∀ i ∈ is, i.sel = true → Full i.dir) :
    trace cycle picks v is =
      (List.iterate lfsrNext v.lfsrQ (trace cycle picks v is).length).map (designated c) := by
  induction is generalizing v with
  | nil => rfl
  | cons i is ih =>
    have hrest := ih (v := v.cycle i) fun j hj => hfull j (List.mem_cons_of_mem i hj)
    obtain ⟨w, hw⟩ := hdes v.lfsrQ
    cases hs : i.sel with
    | false =>
      have hq : (v.cycle i).lfsrQ = v.lfsrQ := by simp [lfsrQ_cycle, lfsrShift, hs]
      have hnone : picks v i = [] := by simp [picks, hs]
      rw [trace, hnone, List.nil_append]
      rwa [hq] at hrest
    | true =>
      have hd := hfull i List.mem_cons_self hs
      have hq : (v.cycle i).lfsrQ = lfsrNext v.lfsrQ := by
        rw [lfsrQ_cycle, hs, lfsrShift_of_full hd hw, if_pos rfl]
      have hone : picks v i = [designated c v.lfsrQ] := by
        rw [picks, if_pos hs, selVictimWay_of_full hsel hd hw, hw]
      rw [hq] at hrest
      rw [trace, hone, List.singleton_append, List.length_cons, List.iterate, List.map_cons,
        ← hrest]

theorem rolls_of_pow {k : Nat} (hways : 2 ≤ c.ways) (hsel : c.victimSel = .random)
    (h : c.ways = 2 ^ k) (hk : k ≤ 8) (hq : v.lfsrQ ≠ 0) : v.Rolls := by
  have hdes : ∀ q, ∃ w, designated c q = ofIndex w := by
    intro q
    obtain ⟨w, hw, -⟩ := designated_pow hways h hk q
    exact ⟨w, hw⟩
  refine ⟨hq, ?_, ?_⟩
  · intro i _ hd
    obtain ⟨w, hw⟩ := hdes v.lfsrQ
    exact Or.inl ⟨w, hw, selVictimWay_of_full hsel hd hw⟩
  · intro is hfull hlen
    obtain ⟨j, hj, hne⟩ := exists_lowBit_ne v.lfsrQ hq
    have hmem : ∀ m < 9, designated c (lfsrNext^[m] v.lfsrQ) ∈ trace cycle picks v is := by
      intro m hm
      rw [picks_run hsel hdes hfull]
      exact List.mem_map_of_mem (List.mem_iterate.2 ⟨m, by omega, rfl⟩)
    exact ⟨_, hmem j hj, _, hmem 0 (by decide), designated_ne hways h hk hne⟩

/-! ### Any other number of ways -/

/-- From reset no way is designated. -/
theorem designated_reset (hpow : ¬ ∃ k ≤ 8, c.ways = 2 ^ k) (hways : 2 ≤ c.ways) :
    designated c (BitVec.allOnes 8) = fun _ => false := by
  have hones : ∀ k ≤ 8, 255 % 2 ^ k = 2 ^ k - 1 := by decide
  have hle : c.ways ≤ 2 ^ c.wayIndexWidth := by
    rw [Cfg.wayIndexWidth, if_pos (show 1 < c.ways from hways)]
    exact Nat.le_pow_clog (by decide) _
  funext w
  rw [designated, decide_eq_false_iff_not]
  rintro ⟨hk, hw⟩
  have hw' : 255 % 2 ^ c.wayIndexWidth = w.val := hw
  rw [hones _ hk] at hw'
  have hlt := w.isLt
  exact hpow ⟨c.wayIndexWidth, hk, by omega⟩

/-- A register that designates no way is not shifted. -/
theorem lfsrQ_stays (h : v.randVictimWay = fun _ => false) : (v.cycle i).lfsrQ = v.lfsrQ := by
  have hnone : any (v.randWays i.dir) = false := by
    rw [any_eq_false]
    intro u
    simp [randWays, h]
  rw [lfsrQ_cycle, lfsrShift, hnone, Bool.and_false, if_neg Bool.false_ne_true]

/-- **The register is frozen from reset.** -/
theorem lfsrQ_run (hpow : ¬ ∃ k ≤ 8, c.ways = 2 ^ k) (hways : 2 ≤ c.ways)
    (is : List (VictimIn c)) : (run cycle (reset c) is).lfsrQ = BitVec.allOnes 8 := by
  refine @run_invariant _ _ _ (fun v : Victim c => v.lfsrQ = BitVec.allOnes 8) _ _ rfl ?_
  intro v i h
  rw [lfsrQ_stays, h]
  show designated c v.lfsrQ = _
  rw [h]
  exact designated_reset hpow hways

/-- A selection in a full set of clean ways, without an access. -/
def selClean (c : Cfg) : VictimIn c where
  sel := true
  set := ⟨0, c.sets_pos⟩
  dir := ⟨fun _ => true, fun _ => false, fun _ => false, fun _ => false⟩
  updt := false
  updtSet := ⟨0, c.sets_pos⟩
  updtWay := fun _ => false

/-- The selection in a full set of clean ways takes none that is designated, and shifts nothing. -/
theorem not_rolls_reset (hpow : ¬ ∃ k ≤ 8, c.ways = 2 ^ k) (hways : 2 ≤ c.ways) :
    ¬ (reset c).Rolls := by
  have hnone : (reset c).randVictimWay = fun _ => false := designated_reset hpow hways
  intro h
  obtain ⟨w, hw, -⟩ | hne := h.shifts (selClean c) rfl fun _ => ⟨rfl, rfl⟩
  · have hself := ofIndex_self w
    rw [← hw, hnone] at hself
    contradiction
  · exact hne (lfsrQ_stays hnone)

/-- **The random policy never freezes** exactly when the number of ways is a power of two, and the
index of a way has at most the eight bits of the register. -/
theorem neverFreezes_iff (hways : 2 ≤ c.ways) (hsel : c.victimSel = .random) :
    NeverFreezes c ↔ ∃ k ≤ 8, c.ways = 2 ^ k := by
  constructor
  · intro h
    by_contra hpow
    exact not_rolls_reset hpow hways (h [])
  · rintro ⟨k, hk, hpow⟩ is
    exact rolls_of_pow hways hsel hpow hk (nonzero_run is)

/-- Two ways, and the random policy. -/
def randomCfg : Cfg := { plruCfg with victimSel := .random }

theorem neverFreezes_twoWays : NeverFreezes randomCfg :=
  (neverFreezes_iff (by decide) rfl).2 ⟨1, by decide, rfl⟩

/-- Three ways. -/
def threeWays : Cfg :=
  { randomCfg with
    ways := 3
    ways_pos := by decide
    dataWaysPerRamWord_dvd := by decide }

/-- With three ways the register designates the way 3, that does not exist, in every run: it keeps
its value of reset. -/
theorem threeWays_freezes : ¬ NeverFreezes threeWays ∧
    ∀ is, (run cycle (reset threeWays) is).lfsrQ = BitVec.allOnes 8 ∧
      (run cycle (reset threeWays) is).selVictimWay (selClean threeWays).set
        (selClean threeWays).dir = ofIndex ⟨0, by decide⟩ := by
  have hpow : ¬ ∃ k ≤ 8, threeWays.ways = 2 ^ k := by decide
  have hways : 2 ≤ threeWays.ways := by decide
  refine ⟨fun h => not_rolls_reset hpow hways (h []), ?_⟩
  intro is
  have hq := lfsrQ_run hpow hways is
  refine ⟨hq, ?_⟩
  apply oneHot_selVictimWay.eq_ofIndex
  have hnone : (run cycle (reset threeWays) is).randVictimWay = fun _ => false := by
    show designated threeWays (run cycle (reset threeWays) is).lfsrQ = _
    rw [hq]
    exact designated_reset hpow hways
  rw [selVictimWay_eq_true, classes]
  refine Or.inr ⟨fun _ => rfl, Or.inr ⟨fun u => ?_, Or.inl ⟨rfl, ?_⟩⟩⟩
  · show (run cycle (reset threeWays) is).randWays _ u = false
    simp [randWays, hnone]
  · intro u hu
    exact absurd hu (Nat.not_lt_zero _)

end Victim

end Hpdcache
