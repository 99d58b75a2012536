import Hpdcache.Lib.Groups
import Hpdcache.Lib.Ring
import Mathlib.Data.Nat.Log

/-!
# The upsizer

`hpdcache_data_upsize` stands between a writer of narrow words and a reader of wide ones. It writes
some words in a slot and reads the slot as one word.

**Words.** The unit is the narrow word. The wide one is an array of units, the first in the low
bits.

**Last marks.** A word that is marked as the last closes its slot. The lanes above it keep what they
had.

* `DataUpsize.step_eq` — a cycle reads and then writes, in another slot.
* `DataUpsize.Holds.put`, `DataUpsize.Holds.pop` — the slots hold groups.
* `DataUpsize.Holds.step` — a cycle delivers the group that is read.
-/

namespace Hpdcache

open Hw

variable {ω : Type*} {depth words : Nat}

/-- The registers of the upsizer and of the downsizer: slots of units, with a count in each. -/
structure ResizeRegs (ω : Type*) (depth words : Nat) where
  bufQ : Fin depth → Fin words → ω
  wrptrQ : Fin depth
  rdptrQ : Fin depth
  usedQ : BitVec (Nat.clog 2 depth + 1)
  wordsQ : Fin depth → BitVec (Nat.clog 2 words)

/-- The inputs, for a writer of words `ν`. -/
structure ResizeIn (ν : Type*) where
  w : Bool
  wdata : ν
  wlast : Bool
  r : Bool

namespace ResizeRegs

variable (s : ResizeRegs ω depth words)

def reset (hd : 0 < depth) (zero : ω) : ResizeRegs ω depth words where
  bufQ := fun _ _ => zero
  wrptrQ := ⟨0, hd⟩
  rdptrQ := ⟨0, hd⟩
  usedQ := 0
  wordsQ := fun _ => 0

def full : Bool := decide (s.usedQ.toNat = depth)

def empty : Bool := decide (s.usedQ = 0)

def wok : Bool := !s.full

def rok : Bool := !s.empty

/-- The occupancy after a cycle. -/
def usedD (inc dec : Bool) : BitVec (Nat.clog 2 depth + 1) :=
  match inc, dec with
  | true, false => s.usedQ + 1
  | false, true => s.usedQ - 1
  | _, _ => s.usedQ

/-- The slots in use are those from the read pointer to the write pointer. -/
structure WF : Prop where
  used : s.usedQ.toNat ≤ depth
  wrptr : s.wrptrQ = Ring.shift s.rdptrQ s.usedQ.toNat
  words : ∀ j, (s.wordsQ j).toNat < words

variable {s}

theorem wf_reset (hd : 0 < depth) (hw : 0 < words) (zero : ω) :
    (reset hd zero : ResizeRegs ω depth words).WF :=
  ⟨Nat.zero_le _, Ring.shift_zero.symm, fun _ => hw⟩

theorem rok_iff : s.rok = true ↔ 0 < s.usedQ.toNat := by
  rw [rok, empty, Bool.not_eq_true', decide_eq_false_iff_not, Nat.pos_iff_ne_zero, ne_eq, not_iff_not]
  constructor
  · intro h
    rw [h]
    rfl
  · intro h
    exact BitVec.eq_of_toNat_eq h

theorem WF.wok_iff (h : s.WF) : s.wok = true ↔ s.usedQ.toNat < depth := by
  have hle := h.used
  rw [wok, full, Bool.not_eq_true', decide_eq_false_iff_not]
  omega

/-- The occupancy does not wrap. -/
theorem depth_lt : depth < 2 ^ (Nat.clog 2 depth + 1) := by
  have hle := Nat.le_pow_clog Nat.one_lt_two depth
  have hpos := Nat.two_pow_pos (Nat.clog 2 depth)
  rw [Nat.pow_succ]
  omega

/-- The count of a slot does not wrap. -/
theorem words_le : words ≤ 2 ^ Nat.clog 2 words := Nat.le_pow_clog Nat.one_lt_two words

theorem toNat_succ {w m : Nat} {x : BitVec w} (h : x.toNat < m) (hm : m < 2 ^ w) :
    (x + 1).toNat = x.toNat + 1 := by
  have hone : (1 : BitVec w).toNat = 1 % 2 ^ w := BitVec.toNat_ofNat 1 w
  rw [BitVec.toNat_add, hone, Nat.add_mod_mod, Nat.mod_eq_of_lt (by omega)]

theorem toNat_pred {w : Nat} {x : BitVec w} (h : 0 < x.toNat) : (x - 1).toNat + 1 = x.toNat := by
  have hlt := x.isLt
  have hone : (1 : BitVec w).toNat = 1 := by
    show 1 % 2 ^ w = 1
    exact Nat.mod_eq_of_lt (by omega)
  rw [BitVec.toNat_sub_of_le (by rw [BitVec.le_def, hone]; exact h), hone]
  omega

/-- The occupancy counts what comes in and what goes out. -/
theorem toNat_usedD {inc dec : Bool} (hinc : inc = true → s.usedQ.toNat < depth)
    (hdec : dec = true → 0 < s.usedQ.toNat) :
    (s.usedD inc dec).toNat + dec.toNat = s.usedQ.toNat + inc.toNat := by
  cases inc with
  | false =>
    cases dec with
    | false => rfl
    | true => exact toNat_pred (hdec rfl)
  | true =>
    cases dec with
    | false => exact toNat_succ (hinc rfl) depth_lt
    | true => rfl

/-- A slot that is free is not the one that is read. -/
theorem WF.wrptr_ne (h : s.WF) (hw : s.wok = true) (hr : s.rok = true) : s.wrptrQ ≠ s.rdptrQ := by
  have hlt := h.wok_iff.1 hw
  have hpos := rok_iff.1 hr
  intro heq
  have hzero : Ring.shift s.rdptrQ s.usedQ.toNat = Ring.shift s.rdptrQ 0 := by
    rw [← h.wrptr, heq, Ring.shift_zero]
  have := Ring.shift_inj hlt (by omega) hzero
  omega

end ResizeRegs

/-! ## The circuit -/

namespace DataUpsize

variable (s : ResizeRegs ω depth words) (i : ResizeIn ω)

/-- A word is written. -/
def shift : Bool := i.w && s.wok

/-- The word that is written closes its slot. -/
def usedInc : Bool :=
  shift s i && (decide ((s.wordsQ s.wrptrQ).toNat = words - 1) || i.wlast)

def wordsInc : Bool := shift s i && decide ((s.wordsQ s.wrptrQ).toNat < words - 1)

/-- A slot is read. -/
def usedDec : Bool := i.r && s.rok

def rdata : Fin words → ω := s.bufQ s.rdptrQ

/-- The slot `j` with the unit `x` in the lane of its count. -/
def write (j : Fin depth) (x : ω) : Fin words → ω :=
  fun l => if l.val = (s.wordsQ j).toNat then x else s.bufQ j l

def step : ResizeRegs ω depth words where
  bufQ := if shift s i then Function.update s.bufQ s.wrptrQ (write s s.wrptrQ i.wdata) else s.bufQ
  wrptrQ := if usedInc s i then Ring.next s.wrptrQ else s.wrptrQ
  rdptrQ := if usedDec s i then Ring.next s.rdptrQ else s.rdptrQ
  usedQ := s.usedD (usedInc s i) (usedDec s i)
  wordsQ :=
    let wordsD := if wordsInc s i
      then Function.update s.wordsQ s.wrptrQ (s.wordsQ s.wrptrQ + 1) else s.wordsQ
    if usedDec s i then Function.update wordsD s.rdptrQ 0 else wordsD

/-! ## Reading and writing -/

/-- A read on its own. -/
def pop : ResizeRegs ω depth words :=
  { s with
    rdptrQ := Ring.next s.rdptrQ
    usedQ := s.usedQ - 1
    wordsQ := Function.update s.wordsQ s.rdptrQ 0 }

/-- The counts after a write. -/
def putWords : Fin depth → BitVec (Nat.clog 2 words) :=
  if (s.wordsQ s.wrptrQ).toNat < words - 1
    then Function.update s.wordsQ s.wrptrQ (s.wordsQ s.wrptrQ + 1) else s.wordsQ

/-- A write on its own. -/
def put (x : ω) (last : Bool) : ResizeRegs ω depth words :=
  let closes := decide ((s.wordsQ s.wrptrQ).toNat = words - 1) || last
  { s with
    bufQ := Function.update s.bufQ s.wrptrQ (write s s.wrptrQ x)
    wrptrQ := if closes then Ring.next s.wrptrQ else s.wrptrQ
    usedQ := if closes then s.usedQ + 1 else s.usedQ
    wordsQ := putWords s }

variable {s i}

/-- A cycle reads a slot and then writes in another one. -/
theorem step_eq (h : s.WF) : step s i =
    (if shift s i then put (if usedDec s i then pop s else s) i.wdata i.wlast
      else if usedDec s i then pop s else s) := by
  cases hw : shift s i with
  | false => cases hr : usedDec s i <;> simp [step, usedInc, wordsInc, ResizeRegs.usedD, pop, hw, hr]
  | true =>
    cases hr : usedDec s i with
    | false =>
      cases hc : decide ((s.wordsQ s.wrptrQ).toNat = words - 1) || i.wlast <;>
        simp [step, usedInc, wordsInc, ResizeRegs.usedD, put, putWords, hw, hr, hc]
    | true =>
      have hne : s.wrptrQ ≠ s.rdptrQ := by
        rw [shift, Bool.and_eq_true] at hw
        rw [usedDec, Bool.and_eq_true] at hr
        exact h.wrptr_ne hw.2 hr.2
      have hcomm := Function.update_comm (f := s.wordsQ) hne (s.wordsQ s.wrptrQ + 1) 0
      have hword : (pop s).wordsQ s.wrptrQ = s.wordsQ s.wrptrQ := Function.update_of_ne hne _ _
      have hwrite : write (pop s) s.wrptrQ i.wdata = write s s.wrptrQ i.wdata := by
        unfold write
        rw [hword]
        rfl
      have hused : s.usedQ = s.usedQ - 1 + 1 := (BitVec.sub_add_cancel _ _).symm
      have hptr : (pop s).wrptrQ = s.wrptrQ := rfl
      simp only [if_true, put, putWords, hptr, hword, hwrite]
      cases hc : decide ((s.wordsQ s.wrptrQ).toNat = words - 1) || i.wlast <;>
        by_cases hlt : (s.wordsQ s.wrptrQ).toNat < words - 1 <;>
        simp only [step, usedInc, wordsInc, ResizeRegs.usedD, pop, hw, hr, hc, hlt, hcomm,
          Bool.and_self, decide_true, decide_false, if_true, if_false,
          Bool.false_eq_true, Bool.and_false] <;>
        rw [← hused]

/-! ## The groups in the slots -/

/-- The lanes of a word that is read. -/
def lanes (r : Fin words → ω) : List ω := List.ofFn r

/-- Slot after slot, from the read pointer, the upsizer holds the closed groups, and at the write
pointer the group being filled. The count of a slot that is free is zero. -/
structure Holds (s : ResizeRegs ω depth words) (g : Groups ω) : Prop where
  wf : s.WF
  groups : g.WF words
  used : g.closed.length = s.usedQ.toNat
  closed : ∀ k x, g.closed[k]? = some x → Carries lanes (s.bufQ (Ring.shift s.rdptrQ k)) x
  part : g.closed.length < depth →
    Carries lanes (s.bufQ s.wrptrQ) g.part ∧ (s.wordsQ s.wrptrQ).toNat = g.part.length
  full : g.closed.length = depth → g.part = []
  free : ∀ k, g.closed.length < k → k < depth → s.wordsQ (Ring.shift s.rdptrQ k) = 0

variable {g : Groups ω}

theorem holds_reset (hd : 0 < depth) (hw : 0 < words) (zero : ω) :
    Holds (ResizeRegs.reset hd zero : ResizeRegs ω depth words) Groups.nil where
  wf := ResizeRegs.wf_reset hd hw zero
  groups := Groups.wf_nil hw
  used := rfl
  closed := nofun
  part := fun _ => ⟨rfl, rfl⟩
  full := fun _ => rfl
  free := fun _ _ _ => rfl

theorem Holds.wrptr (h : Holds s g) : s.wrptrQ = Ring.shift s.rdptrQ g.closed.length := by
  rw [h.used]
  exact h.wf.wrptr

theorem Holds.le (h : Holds s g) : g.closed.length ≤ depth := by
  rw [h.used]
  exact h.wf.used

theorem Holds.wok_iff (h : Holds s g) : s.wok = true ↔ g.closed.length < depth := by
  rw [h.used]
  exact h.wf.wok_iff

theorem Holds.rok_iff (h : Holds s g) : s.rok = true ↔ g.closed ≠ [] := by
  rw [ResizeRegs.rok_iff, ← h.used, List.length_pos_iff]

/-- The slot that is read carries the oldest group. -/
theorem Holds.rdata {x : List ω} {xs : List (List ω)} (h : Holds s g) (hg : g.closed = x :: xs) :
    Carries lanes (DataUpsize.rdata s) x := by
  have hx := h.closed 0 x (by rw [hg]; rfl)
  rwa [Ring.shift_zero] at hx

theorem Holds.pop {x : List ω} {xs : List (List ω)} {p : List ω} (h : Holds s ⟨x :: xs, p⟩) :
    Holds (pop s) ⟨xs, p⟩ := by
  have hused : xs.length + 1 = s.usedQ.toNat := h.used
  have hle : xs.length + 1 ≤ depth := h.le
  have hpred := ResizeRegs.toNat_pred (x := s.usedQ) (by omega)
  have hnew : xs.length = (s.usedQ - 1).toNat := by omega
  have hwrptr : s.wrptrQ = Ring.shift s.rdptrQ (xs.length + 1) := h.wrptr
  have hwords : ∀ j, (Function.update s.wordsQ s.rdptrQ 0 j).toNat < words := by
    intro j
    have hj := h.wf.words j
    rw [Function.update_apply]
    split_ifs
    · exact Nat.lt_of_le_of_lt (Nat.zero_le _) hj
    · exact hj
  refine ⟨⟨?_, ?_, hwords⟩, ⟨?_, ?_, h.groups.part⟩, hnew, ?_, ?_, ?_, ?_⟩
  · show (s.usedQ - 1).toNat ≤ depth
    omega
  · show s.wrptrQ = Ring.shift (Ring.next s.rdptrQ) (s.usedQ - 1).toNat
    rw [← hnew, Ring.shift_next]
    exact hwrptr
  · exact fun y hy => h.groups.pos y (List.mem_cons_of_mem x hy)
  · exact fun y hy => h.groups.le y (List.mem_cons_of_mem x hy)
  · intro k y hy
    show Carries lanes (s.bufQ (Ring.shift (Ring.next s.rdptrQ) k)) y
    rw [Ring.shift_next]
    exact h.closed (k + 1) y hy
  · intro _
    show Carries lanes (s.bufQ s.wrptrQ) p ∧
      (Function.update s.wordsQ s.rdptrQ 0 s.wrptrQ).toNat = p.length
    by_cases hfull : xs.length + 1 = depth
    · -- the slot that is read is the next one to be filled
      have hp : p = [] := h.full hfull
      have hsame : s.wrptrQ = s.rdptrQ := by rw [hwrptr, hfull, Ring.shift_self]
      rw [hp, hsame, Function.update_self]
      exact ⟨rfl, rfl⟩
    · have hlt : xs.length + 1 < depth := by omega
      have hne : s.wrptrQ ≠ s.rdptrQ :=
        h.wf.wrptr_ne (h.wok_iff.2 hlt) (h.rok_iff.2 (List.cons_ne_nil x xs))
      rw [Function.update_of_ne hne]
      exact h.part hlt
  · intro hlen
    have hlen : xs.length = depth := hlen
    omega
  · intro k hk hkd
    have hk : xs.length < k := hk
    show Function.update s.wordsQ s.rdptrQ 0 (Ring.shift (Ring.next s.rdptrQ) k) = 0
    rw [Ring.shift_next, Function.update_apply]
    split_ifs with heq
    · rfl
    · refine h.free (k + 1) (Nat.succ_lt_succ hk) ?_
      by_contra hge
      have hlast : k + 1 = depth := by omega
      rw [hlast, Ring.shift_self] at heq
      exact heq rfl

/-- A unit that is written after those of a group follows them. -/
theorem carries_write {row : Fin words → ω} {p : List ω} {x : ω} (h : Carries lanes row p)
    (hp : p.length < words) :
    Carries lanes (fun l => if l.val = p.length then x else row l) (p ++ [x]) := by
  have hlast : (lanes fun l => if l.val = p.length then x else row l)[p.length]? = some x := by
    rw [lanes, List.getElem?_ofFn, dif_pos hp, if_pos rfl]
  have hinit : (lanes fun l => if l.val = p.length then x else row l).take p.length = p := by
    rw [Carries] at h
    rw [← h]
    apply List.ext_getElem?
    intro k
    have hlen : ((lanes row).take p.length).length = p.length := by rw [h]
    rw [hlen]
    by_cases hk : k < p.length
    · rw [List.getElem?_take_of_lt hk, List.getElem?_take_of_lt hk]
      unfold lanes
      rw [List.getElem?_ofFn, List.getElem?_ofFn, dif_pos (by omega), dif_pos (by omega),
        if_neg (Nat.ne_of_lt hk)]
    · rw [List.getElem?_take_eq_none (by omega), List.getElem?_take_eq_none (by omega)]
  rw [Carries, List.length_append, List.length_singleton, List.take_add_one, hlast, hinit]
  rfl

theorem putWords_of_ne {j : Fin depth} (h : j ≠ s.wrptrQ) : putWords s j = s.wordsQ j := by
  unfold putWords
  split_ifs
  · exact Function.update_of_ne h _ _
  · rfl

theorem toNat_putWords (h : (s.wordsQ s.wrptrQ).toNat < words - 1) :
    (putWords s s.wrptrQ).toNat = (s.wordsQ s.wrptrQ).toNat + 1 := by
  have hle : words ≤ _ := ResizeRegs.words_le
  rw [putWords, if_pos h, Function.update_self]
  exact ResizeRegs.toNat_succ h (by omega)

theorem putWords_lt (h : ∀ j, (s.wordsQ j).toNat < words) (j : Fin depth) :
    (putWords s j).toNat < words := by
  by_cases hj : j = s.wrptrQ
  · subst hj
    by_cases hlt : (s.wordsQ s.wrptrQ).toNat < words - 1
    · rw [toNat_putWords hlt]
      omega
    · rw [putWords, if_neg hlt]
      exact h _
  · rw [putWords_of_ne hj]
    exact h j

theorem Holds.put (h : Holds s g) (hlt : g.closed.length < depth) (x : ω) (last : Bool) :
    Holds (put s x last) (g.put words (x, last)) := by
  obtain ⟨hcarry, hcount⟩ := h.part hlt
  have hp := h.groups.part
  have hgroups := h.groups.put (x, last)
  have hused := h.used
  have hwrptr := h.wrptr
  have hwords := putWords_lt h.wf.words
  have hwrite : Carries lanes (write s s.wrptrQ x) (g.part ++ [x]) := by
    unfold write
    rw [hcount]
    exact carries_write hcarry hp
  -- the slots of the closed groups are other ones
  have hne : ∀ k, k < depth → k ≠ g.closed.length → Ring.shift s.rdptrQ k ≠ s.wrptrQ := by
    intro k hk hkg heq
    rw [hwrptr] at heq
    exact hkg (Ring.shift_inj hk hlt heq)
  have hclosed : ∀ k y, g.closed[k]? = some y →
      Carries lanes (Function.update s.bufQ s.wrptrQ (write s s.wrptrQ x)
        (Ring.shift s.rdptrQ k)) y := by
    intro k y hy
    have hk : k < g.closed.length := by
      by_contra hge
      rw [List.getElem?_eq_none (Nat.le_of_not_lt hge)] at hy
      contradiction
    rw [Function.update_of_ne (hne k (by omega) (by omega))]
    exact h.closed k y hy
  have hfree : ∀ k, g.closed.length < k → k < depth →
      putWords s (Ring.shift s.rdptrQ k) = 0 := by
    intro k hk hkd
    rw [putWords_of_ne (hne k hkd (by omega))]
    exact h.free k hk hkd
  unfold Groups.put at hgroups ⊢
  by_cases hc : g.part.length + 1 = words ∨ last = true
  · have hcs : (decide ((s.wordsQ s.wrptrQ).toNat = words - 1) || last) = true := by
      rw [Bool.or_eq_true, decide_eq_true_eq, hcount]
      exact hc.imp_left fun hfull => by omega
    rw [if_pos hc] at hgroups ⊢
    have hsucc : (s.usedQ + 1).toNat = s.usedQ.toNat + 1 :=
      ResizeRegs.toNat_succ (by omega) ResizeRegs.depth_lt
    have hlen : (g.closed ++ [g.part ++ [x]]).length = g.closed.length + 1 := List.length_append
    have hnext : Ring.next s.wrptrQ = Ring.shift s.rdptrQ (g.closed.length + 1) := by
      rw [hwrptr, Ring.next_shift]
    unfold DataUpsize.put
    rw [hcs]
    refine ⟨⟨?_, ?_, hwords⟩, hgroups, ?_, ?_, ?_, fun _ => rfl, ?_⟩
    · show (s.usedQ + 1).toNat ≤ depth
      omega
    · show Ring.next s.wrptrQ = Ring.shift s.rdptrQ (s.usedQ + 1).toNat
      rw [hnext, hsucc, hused]
    · show (g.closed ++ [g.part ++ [x]]).length = (s.usedQ + 1).toNat
      omega
    · intro k y hy
      have hy : (g.closed ++ [g.part ++ [x]])[k]? = some y := hy
      by_cases hk : k < g.closed.length
      · rw [List.getElem?_append_left hk] at hy
        exact hclosed k y hy
      · -- the group that is closed is in the slot that is written
        rw [List.getElem?_append_right (Nat.le_of_not_lt hk), List.getElem?_singleton] at hy
        split_ifs at hy with hk0
        have hkg : k = g.closed.length := by omega
        show Carries lanes (Function.update s.bufQ s.wrptrQ (write s s.wrptrQ x)
          (Ring.shift s.rdptrQ k)) y
        rw [hkg, ← hwrptr, Function.update_self, ← Option.some.inj hy]
        exact hwrite
    · intro hroom
      have hroom : (g.closed ++ [g.part ++ [x]]).length < depth := hroom
      refine ⟨rfl, ?_⟩
      show (putWords s (Ring.next s.wrptrQ)).toNat = 0
      rw [hnext, hfree _ (Nat.lt_succ_self _) (by omega)]
      rfl
    · intro k hk hkd
      have hk : (g.closed ++ [g.part ++ [x]]).length < k := hk
      exact hfree k (by omega) hkd
  · have hcs : (decide ((s.wordsQ s.wrptrQ).toNat = words - 1) || last) = false := by
      rw [← Bool.not_eq_true, Bool.or_eq_true, decide_eq_true_eq, hcount]
      intro hor
      exact hc (hor.imp_left fun hfull => by omega)
    rw [if_neg hc] at hgroups ⊢
    rw [not_or] at hc
    unfold DataUpsize.put
    rw [hcs]
    refine ⟨⟨h.wf.used, h.wf.wrptr, hwords⟩, hgroups, hused, hclosed, ?_, ?_, hfree⟩
    · intro _
      constructor
      · show Carries lanes (Function.update s.bufQ s.wrptrQ (write s s.wrptrQ x) s.wrptrQ)
          (g.part ++ [x])
        rw [Function.update_self]
        exact hwrite
      · show (putWords s s.wrptrQ).toNat = (g.part ++ [x]).length
        rw [toNat_putWords (by omega), hcount, List.length_append, List.length_singleton]
    · intro hfull
      have hfull : g.closed.length = depth := hfull
      omega

/-- The word that is written, with its mark. -/
def written (s : ResizeRegs ω depth words) (i : ResizeIn ω) : List (ω × Bool) :=
  if shift s i then [(i.wdata, i.wlast)] else []

/-- The word that is read. -/
def read (s : ResizeRegs ω depth words) (i : ResizeIn ω) : List (Fin words → ω) :=
  if usedDec s i then [rdata s] else []

/-- A cycle delivers the group that is read, and takes in the unit that is written. -/
theorem Holds.step (h : Holds s g) (i : ResizeIn ω) :
    ∃ g', Holds (step s i) g' ∧ Delivers words lanes g (written s i) (read s i) g' := by
  have hread : ∃ g₁, Holds (if usedDec s i then DataUpsize.pop s else s) g₁ ∧
      g₁.closed.length ≤ g.closed.length ∧ Delivers words lanes g [] (read s i) g₁ := by
    unfold read
    cases hr : usedDec s i with
    | false => exact ⟨g, h, Nat.le_refl _, delivers_refl⟩
    | true =>
      rw [usedDec, Bool.and_eq_true] at hr
      have hnil := h.rok_iff.1 hr.2
      obtain ⟨closed, p⟩ := g
      cases closed with
      | nil => exact absurd rfl hnil
      | cons x xs => exact ⟨⟨xs, p⟩, h.pop, Nat.le_succ _, delivers_pop (h.rdata rfl)⟩
  obtain ⟨g₁, h₁, hle, hd₁⟩ := hread
  rw [step_eq h.wf, written]
  cases hw : shift s i with
  | false => exact ⟨g₁, h₁, hd₁⟩
  | true =>
    rw [shift, Bool.and_eq_true] at hw
    have hlt := h.wok_iff.1 hw.2
    have hd := hd₁.trans (delivers_put (i.wdata, i.wlast))
    rw [List.append_nil] at hd
    exact ⟨_, h₁.put (by omega) i.wdata i.wlast, hd⟩

/-- **The counters of the upsizer do not wrap.** -/
theorem counts (h : s.WF) :
    (step s i).usedQ.toNat + (usedDec s i).toNat = s.usedQ.toNat + (usedInc s i).toNat ∧
      ∀ j, ((step s i).wordsQ j).toNat =
        if usedDec s i = true ∧ j = s.rdptrQ then 0
        else (s.wordsQ j).toNat + (wordsInc s i && decide (j = s.wrptrQ)).toNat := by
  constructor
  · apply ResizeRegs.toNat_usedD
    · intro hinc
      simp only [usedInc, shift, Bool.and_eq_true] at hinc
      exact h.wok_iff.1 hinc.1.2
    · intro hdec
      rw [usedDec, Bool.and_eq_true] at hdec
      exact ResizeRegs.rok_iff.1 hdec.2
  · intro j
    have hsucc : wordsInc s i = true → (s.wordsQ s.wrptrQ + 1).toNat =
        (s.wordsQ s.wrptrQ).toNat + 1 := by
      intro hinc
      rw [wordsInc, Bool.and_eq_true, decide_eq_true_eq] at hinc
      have hle : words ≤ _ := ResizeRegs.words_le
      exact ResizeRegs.toNat_succ hinc.2 (by omega)
    have hinc : ((if wordsInc s i then Function.update s.wordsQ s.wrptrQ (s.wordsQ s.wrptrQ + 1)
        else s.wordsQ) j).toNat =
        (s.wordsQ j).toNat + (wordsInc s i && decide (j = s.wrptrQ)).toNat := by
      cases hw : wordsInc s i with
      | false => rfl
      | true =>
        by_cases hj : j = s.wrptrQ
        · subst hj
          simpa using hsucc hw
        · simp [hj]
    unfold step
    cases hd : usedDec s i with
    | false =>
      have hnot : ¬ (false = true ∧ j = s.rdptrQ) := fun h => Bool.false_ne_true h.1
      rw [if_neg hnot]
      exact hinc
    | true =>
      by_cases hj : j = s.rdptrQ
      · simp [hj]
      · have hnot : ¬ (true = true ∧ j = s.rdptrQ) := fun h => hj h.2
        rw [if_neg hnot, ← hinc]
        simp [hj]

end DataUpsize

end Hpdcache
