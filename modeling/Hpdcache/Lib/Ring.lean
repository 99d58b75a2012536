import Hpdcache.Lib.Fifo
import Mathlib.Data.Nat.ModEq

/-!
# A buffer in a ring of registers

The first-in first-out buffer of `n` registers with a read and a write pointer. The flag
`crossover` tells a full ring from an empty one: it is set when the write pointer has wrapped and
the read pointer has not. The registers have a value after reset: the ring is full then.

* `Ring.contents` — what the ring holds, oldest first.
* `Ring.contents_step` — a step of the ring is a step of the list buffer.
* `Ring.WF.step` — the read pointer never overtakes the write pointer.
-/

namespace Hw

variable {α : Type*} {n : Nat}

structure Ring (α : Type*) (n : Nat) where
  mem : Fin n → α
  rptr : Fin n
  wptr : Fin n
  crossover : Bool

namespace Ring

/-- The pointer of the next register, around the ring. -/
def next (i : Fin n) : Fin n :=
  if h : i.val + 1 < n then ⟨i.val + 1, h⟩ else ⟨0, i.pos⟩

def ptrMax (i : Fin n) : Bool :=
  decide (i.val + 1 = n)

def rok (r : Ring α n) : Bool :=
  if r.wptr = r.rptr then r.crossover else true

def wok (r : Ring α n) : Bool :=
  if r.wptr = r.rptr then !r.crossover else true

/-- The word at the read pointer, which is stale when there is none to read. -/
def rdata (r : Ring α n) : α :=
  r.mem r.rptr

def rexec (r : Ring α n) (rd : Bool) : Bool :=
  r.rok && rd

def wexec (r : Ring α n) (w : Option α) : Bool :=
  r.wok && w.isSome

/-- After reset the ring holds the initial value. -/
def reset (hn : 0 < n) (init : Fin n → α) : Ring α n where
  mem := init
  rptr := ⟨0, hn⟩
  wptr := ⟨0, hn⟩
  crossover := true

def step (r : Ring α n) (w : Option α) (rd : Bool) : Ring α n where
  mem := fun i => if r.wok = true ∧ i = r.wptr then w.getD (r.mem i) else r.mem i
  rptr := if r.rexec rd then next r.rptr else r.rptr
  wptr := if r.wexec w then next r.wptr else r.wptr
  crossover :=
    if r.rexec rd && ptrMax r.rptr then false
    else if r.wexec w && ptrMax r.wptr then true
    else r.crossover

/-! ## The content -/

/-- The number of words held. -/
def count (r : Ring α n) : Nat :=
  if r.crossover then n - r.rptr.val + r.wptr.val else r.wptr.val - r.rptr.val

/-- The register at `k` places from `i`. -/
def shift (i : Fin n) (k : Nat) : Fin n :=
  ⟨(i.val + k) % n, Nat.mod_lt _ i.pos⟩

/-- What the ring holds, oldest first. -/
def contents (r : Ring α n) : List α :=
  (List.range r.count).map fun k => r.mem (shift r.rptr k)

/-- The read pointer is not ahead of the write pointer. -/
structure WF (r : Ring α n) : Prop where
  crossed : r.crossover = true → r.wptr.val ≤ r.rptr.val
  level : r.crossover = false → r.rptr.val ≤ r.wptr.val

variable {r : Ring α n} {w : Option α} {rd : Bool} {i : Fin n} {k : Nat}

@[simp] theorem length_contents : r.contents.length = r.count := by
  simp [contents]

@[simp] theorem shift_zero : shift i 0 = i :=
  Fin.ext (Nat.mod_eq_of_lt i.isLt)

theorem shift_next : shift (next i) k = shift i (k + 1) := by
  apply Fin.ext
  show ((next i).val + k) % n = (i.val + (k + 1)) % n
  unfold next
  by_cases h : i.val + 1 < n
  · have hi : i.val + 1 + k = i.val + (k + 1) := by omega
    rw [dif_pos h, ← hi]
  · rw [dif_neg h]
    have hi : i.val + (k + 1) = k + n := by have := i.isLt; omega
    rw [hi, Nat.add_mod_right, Nat.zero_add]

theorem next_shift : next (shift i k) = shift i (k + 1) := by
  apply Fin.ext
  show (next (shift i k)).val = (i.val + (k + 1)) % n
  have hlt := (shift i k).isLt
  have hval : (shift i k).val = (i.val + k) % n := rfl
  have hadd : (i.val + (k + 1)) % n = ((shift i k).val + 1) % n := by
    rw [hval, Nat.mod_add_mod, Nat.add_assoc]
  rw [hadd]
  unfold next
  by_cases h : (shift i k).val + 1 < n
  · rw [dif_pos h, Nat.mod_eq_of_lt h]
  · have hn : (shift i k).val + 1 = n := by omega
    rw [dif_neg h, hn, Nat.mod_self]

/-- A whole turn comes back to the same register. -/
theorem shift_self : shift i n = i := by
  apply Fin.ext
  show (i.val + n) % n = i.val
  rw [Nat.add_mod_right, Nat.mod_eq_of_lt i.isLt]

/-- Less than a turn, other places are other registers. -/
theorem shift_inj {m : Nat} (hk : k < n) (hm : m < n) (h : shift i k = shift i m) : k = m := by
  have hmod : (i.val + k) % n = (i.val + m) % n := congrArg Fin.val h
  have hcancel : k % n = m % n := Nat.ModEq.add_left_cancel rfl hmod
  rwa [Nat.mod_eq_of_lt hk, Nat.mod_eq_of_lt hm] at hcancel

theorem next_val : (next i).val = if ptrMax i then 0 else i.val + 1 := by
  have hlt := i.isLt
  unfold next ptrMax
  by_cases h : i.val + 1 < n
  · rw [dif_pos h, if_neg]
    simp only [decide_eq_true_eq]
    omega
  · rw [dif_neg h, if_pos]
    simp only [decide_eq_true_eq]
    omega

theorem WF.count_le (h : r.WF) : r.count ≤ n := by
  have hr := r.rptr.isLt
  have hw := r.wptr.isLt
  unfold count
  cases hc : r.crossover with
  | true =>
    have hle := h.crossed hc
    simp only [if_true]
    omega
  | false =>
    simp only [Bool.false_eq_true, if_false]
    omega

theorem WF.rok_iff (h : r.WF) : r.rok = true ↔ 0 < r.count := by
  have hr := r.rptr.isLt
  unfold rok count
  by_cases hp : r.wptr = r.rptr
  · rw [if_pos hp, hp]
    cases r.crossover with
    | true =>
      simp only [if_true, true_iff]
      omega
    | false => simp
  · have hne : r.wptr.val ≠ r.rptr.val := fun he => hp (Fin.ext he)
    rw [if_neg hp]
    cases hc : r.crossover with
    | true =>
      simp only [if_true, true_iff]
      omega
    | false =>
      have hle := h.level hc
      simp only [Bool.false_eq_true, if_false, true_iff]
      omega

theorem WF.wok_iff (h : r.WF) : r.wok = true ↔ r.count < n := by
  have hr := r.rptr.isLt
  have hw := r.wptr.isLt
  unfold wok count
  by_cases hp : r.wptr = r.rptr
  · rw [if_pos hp, hp]
    cases r.crossover with
    | true =>
      simp only [Bool.not_true, Bool.false_eq_true, if_true, false_iff]
      omega
    | false =>
      simp only [Bool.not_false, Bool.false_eq_true, if_false, true_iff]
      omega
  · have hne : r.wptr.val ≠ r.rptr.val := fun he => hp (Fin.ext he)
    rw [if_neg hp]
    cases hc : r.crossover with
    | true =>
      have hle := h.crossed hc
      simp only [if_true, true_iff]
      omega
    | false =>
      simp only [Bool.false_eq_true, if_false, true_iff]
      omega

/-- The write pointer is past the words held. -/
theorem WF.shift_count (h : r.WF) : shift r.rptr r.count = r.wptr := by
  have hr := r.rptr.isLt
  have hw := r.wptr.isLt
  apply Fin.ext
  show (r.rptr.val + r.count) % n = r.wptr.val
  unfold count
  cases hc : r.crossover with
  | true =>
    have hsum : r.rptr.val + (n - r.rptr.val + r.wptr.val) = r.wptr.val + n := by omega
    simp only [if_true]
    rw [hsum, Nat.add_mod_right, Nat.mod_eq_of_lt hw]
  | false =>
    have hle := h.level hc
    have hsum : r.rptr.val + (r.wptr.val - r.rptr.val) = r.wptr.val := by omega
    simp only [Bool.false_eq_true, if_false]
    rw [hsum, Nat.mod_eq_of_lt hw]

/-- The words held are not at the write pointer of a ring that is not full. -/
theorem WF.shift_ne (h : r.WF) (hn : r.count < n) (hk : k < r.count) :
    shift r.rptr k ≠ r.wptr := by
  rw [← h.shift_count]
  intro he
  have heq := shift_inj (Nat.lt_trans hk hn) hn he
  omega

theorem WF.head?_contents (h : r.WF) :
    r.contents.head? = if r.rok then some r.rdata else none := by
  unfold contents rdata
  by_cases hr : r.rok = true
  · have hpos := h.rok_iff.1 hr
    obtain ⟨c, hc⟩ := Nat.exists_eq_succ_of_ne_zero (Nat.ne_of_gt hpos)
    rw [if_pos hr, hc, List.range_succ_eq_map]
    simp
  · have hzero : r.count = 0 := by
      have hnot : ¬ 0 < r.count := fun hpos => hr (h.rok_iff.2 hpos)
      omega
    rw [if_neg hr, hzero]
    rfl

/-! ## Reading and writing -/

def pop (r : Ring α n) : Ring α n :=
  { r with
    rptr := next r.rptr
    crossover := if ptrMax r.rptr then false else r.crossover }

def push (r : Ring α n) (x : α) : Ring α n :=
  { r with
    mem := Function.update r.mem r.wptr x
    wptr := next r.wptr
    crossover := if ptrMax r.wptr then true else r.crossover }

theorem ptrMax_eq_true : ptrMax i = true ↔ i.val + 1 = n := decide_eq_true_iff

theorem ptrMax_eq_false : ptrMax i = false ↔ i.val + 1 < n := by
  have hlt := i.isLt
  rw [ptrMax, decide_eq_false_iff_not]
  omega

theorem WF.count_pop (h : r.WF) (hr : r.rok = true) : r.pop.count + 1 = r.count := by
  have hpos := h.rok_iff.1 hr
  have hlt := r.rptr.isLt
  have hw := r.wptr.isLt
  have hcross := h.crossed
  have hlevel := h.level
  unfold count at hpos ⊢
  simp only [pop, next_val]
  cases hm : ptrMax r.rptr with
  | true =>
    have hmax := ptrMax_eq_true.1 hm
    cases hc : r.crossover with
    | true =>
      simp only [if_true, Bool.false_eq_true, if_false]
      omega
    | false =>
      rw [hc] at hpos
      simp only [Bool.false_eq_true, if_false] at hpos
      omega
  | false =>
    have hmax := ptrMax_eq_false.1 hm
    cases hc : r.crossover with
    | true =>
      simp only [if_true, Bool.false_eq_true, if_false]
      omega
    | false =>
      rw [hc] at hpos
      simp only [Bool.false_eq_true, if_false] at hpos ⊢
      omega

theorem WF.pop (h : r.WF) (hr : r.rok = true) : r.pop.WF := by
  have hpos := h.rok_iff.1 hr
  have hcross := h.crossed
  have hlevel := h.level
  unfold count at hpos
  constructor
  · simp only [Ring.pop, next_val]
    cases hm : ptrMax r.rptr with
    | true => exact nofun
    | false =>
      simp only [Bool.false_eq_true, if_false]
      intro hc
      have hle := hcross hc
      omega
  · simp only [Ring.pop, next_val]
    cases hm : ptrMax r.rptr with
    | true =>
      simp only [if_true]
      omega
    | false =>
      simp only [Bool.false_eq_true, if_false]
      intro hc
      rw [hc] at hpos
      simp only [Bool.false_eq_true, if_false] at hpos
      omega

/-- Reading takes the oldest word. -/
theorem WF.contents_pop (h : r.WF) (hr : r.rok = true) : r.pop.contents = r.contents.tail := by
  have hcount := h.count_pop hr
  unfold contents
  rw [← hcount, List.range_succ_eq_map, List.map_cons, List.tail_cons, List.map_map]
  apply List.map_congr_left
  intro k _
  show r.mem (shift (next r.rptr) k) = r.mem (shift r.rptr (k + 1))
  rw [shift_next]

theorem WF.count_push (h : r.WF) (hw : r.wok = true) (x : α) :
    (r.push x).count = r.count + 1 := by
  have hlt := h.wok_iff.1 hw
  have hr := r.rptr.isLt
  have hwp := r.wptr.isLt
  have hcross := h.crossed
  have hlevel := h.level
  unfold count at hlt ⊢
  simp only [push, next_val]
  cases hm : ptrMax r.wptr with
  | true =>
    have hmax := ptrMax_eq_true.1 hm
    cases hc : r.crossover with
    | true =>
      have hle := hcross hc
      rw [hc] at hlt
      simp only [if_true] at hlt
      omega
    | false =>
      simp only [if_true, Bool.false_eq_true, if_false]
      have hle := hlevel hc
      omega
  | false =>
    cases hc : r.crossover with
    | true =>
      simp only [if_true, Bool.false_eq_true, if_false]
      omega
    | false =>
      have hle := hlevel hc
      simp only [Bool.false_eq_true, if_false]
      omega

theorem WF.push (h : r.WF) (hw : r.wok = true) (x : α) : (r.push x).WF := by
  have hlt := h.wok_iff.1 hw
  have hcross := h.crossed
  have hlevel := h.level
  unfold count at hlt
  constructor
  · simp only [Ring.push, next_val]
    cases hm : ptrMax r.wptr with
    | true =>
      simp only [if_true]
      omega
    | false =>
      simp only [Bool.false_eq_true, if_false]
      intro hc
      have hle := hcross hc
      rw [hc] at hlt
      simp only [if_true] at hlt
      omega
  · simp only [Ring.push, next_val]
    cases hm : ptrMax r.wptr with
    | true => exact nofun
    | false =>
      simp only [Bool.false_eq_true, if_false]
      intro hc
      have hle := hlevel hc
      omega

/-- Writing adds the word at the end. -/
theorem WF.contents_push (h : r.WF) (hw : r.wok = true) (x : α) :
    (r.push x).contents = r.contents ++ [x] := by
  have hlt := h.wok_iff.1 hw
  unfold contents
  rw [h.count_push hw, List.range_succ, List.map_append, List.map_singleton]
  congr 1
  · apply List.map_congr_left
    intro k hk
    show Function.update r.mem r.wptr x (shift r.rptr k) = r.mem (shift r.rptr k)
    rw [Function.update_of_ne (h.shift_ne hlt (List.mem_range.1 hk))]
  · show [Function.update r.mem r.wptr x (shift r.rptr r.count)] = [x]
    rw [h.shift_count, Function.update_self]

/-! ## A step -/

/-- The word that a step reads, taken out. -/
def afterRead (r : Ring α n) (rd : Bool) : Ring α n :=
  if r.rexec rd then r.pop else r

theorem WF.afterRead (h : r.WF) : (r.afterRead rd).WF := by
  unfold Ring.afterRead
  by_cases hre : r.rexec rd = true
  · rw [if_pos hre]
    rw [rexec, Bool.and_eq_true] at hre
    exact h.pop hre.1
  · rw [if_neg hre]
    exact h

theorem WF.contents_afterRead (h : r.WF) :
    (r.afterRead rd).contents = if rd then r.contents.tail else r.contents := by
  unfold Ring.afterRead rexec
  cases rd with
  | false => simp
  | true =>
    cases hr : r.rok with
    | true => simpa using h.contents_pop hr
    | false =>
      -- an empty ring has nothing to read
      have hhead := h.head?_contents
      rw [hr] at hhead
      have hnil : r.contents = [] := by simpa using hhead
      simp [hnil]

theorem WF.wok_afterRead (h : r.WF) (hw : r.wok = true) : (r.afterRead rd).wok = true := by
  have hlt := h.wok_iff.1 hw
  rw [h.afterRead.wok_iff, ← length_contents, h.contents_afterRead]
  rw [← length_contents] at hlt
  cases rd with
  | false => exact hlt
  | true =>
    simp only [if_true, List.length_tail]
    omega

/-- A ring that is read and written in one step is neither empty nor full: its pointers differ. -/
theorem not_both_max (hr : r.rok = true) (hw : r.wok = true) (hrm : ptrMax r.rptr = true) :
    ptrMax r.wptr = false := by
  by_contra hwm
  rw [Bool.not_eq_false] at hwm
  have hrv := ptrMax_eq_true.1 hrm
  have hwv := ptrMax_eq_true.1 hwm
  have hp : r.wptr = r.rptr := Fin.ext (by omega)
  rw [rok, if_pos hp] at hr
  rw [wok, if_pos hp, hr] at hw
  exact Bool.false_ne_true hw

/-- A step reads first and then writes. The two pointers do not wrap in one step, so the order of
the two updates of the flag does not matter. -/
theorem step_eq : r.step w rd =
    if r.wok then w.elim (r.afterRead rd) (r.afterRead rd).push else r.afterRead rd := by
  unfold Ring.step Ring.afterRead wexec
  cases hw : r.wok with
  | false =>
    by_cases hre : r.rexec rd = true
    · simp [hre, Ring.pop]
    · simp [hre]
  | true =>
    cases w with
    | none =>
      by_cases hre : r.rexec rd = true
      · simp [hre, Ring.pop]
      · simp [hre]
    | some x =>
      have hmem : (fun i => if i = r.wptr then x else r.mem i) = Function.update r.mem r.wptr x := by
        funext i
        rw [Function.update_apply]
      by_cases hre : r.rexec rd = true
      · cases hrm : ptrMax r.rptr with
        | true =>
          rw [rexec, Bool.and_eq_true] at hre
          have hwm := not_both_max hre.1 hw hrm
          simp [rexec, hre, Ring.pop, Ring.push, hrm, hwm, hmem]
        | false => simp [hre, Ring.pop, Ring.push, hrm, hmem]
      · simp [hre, Ring.push, hmem]

theorem WF.step (h : r.WF) : (r.step w rd).WF := by
  rw [step_eq]
  cases hw : r.wok with
  | false => exact h.afterRead
  | true =>
    cases w with
    | none => exact h.afterRead
    | some x => exact h.afterRead.push (h.wok_afterRead hw) x

theorem WF.accepted_eq (h : r.WF) :
    Fifo.accepted n false r.contents w rd = if r.wok then w else none := by
  have hwok : Fifo.wok n false r.contents rd = r.wok := by
    rw [Fifo.wok, length_contents, Bool.false_and, Bool.or_false, Bool.eq_iff_iff,
      decide_eq_true_iff]
    exact h.wok_iff.symm
  rw [Fifo.accepted, hwok]

/-- A step of the ring is a step of the list buffer. -/
theorem WF.contents_step (h : r.WF) :
    (r.step w rd).contents = Fifo.step n false r.contents w rd := by
  rw [step_eq, Fifo.step_eq, h.accepted_eq, ← h.contents_afterRead]
  cases hw : r.wok with
  | false => simp
  | true =>
    cases w with
    | none => simp
    | some x => simpa using h.afterRead.contents_push (h.wok_afterRead hw) x

variable {hn : 0 < n} {init : Fin n → α}

theorem wf_reset : (reset hn init).WF :=
  ⟨fun _ => Nat.le_refl _, nofun⟩

/-- After reset the ring holds the initial value, in order. -/
theorem contents_reset : (reset hn init).contents = List.ofFn init := by
  have hcount : (reset hn init).count = n := by simp [reset, count]
  apply List.ext_getElem
  · rw [length_contents, hcount, List.length_ofFn]
  · intro k hk hk'
    rw [length_contents, hcount] at hk
    have hshift : shift ⟨0, hn⟩ k = ⟨k, hk⟩ := by
      apply Fin.ext
      show (0 + k) % n = k
      rw [Nat.zero_add, Nat.mod_eq_of_lt hk]
    simp [contents, reset, hshift]

end Ring

end Hw
