import Hpdcache.DataRams
import Hpdcache.Secded

/-!
# RAMs with error correction

A RAM with ECC encodes each word of an access before it writes it and decodes each word that it has
read. A word of the RAM is wider than the data, and the enables of an access, by byte or by bit, are
extended to the check bits with the last one. Bits of the memory flip between the accesses.

* `EccSram.step` — a cycle of a RAM, with the macro as a parameter.
* `hpdcacheSramEcc1rw`, `hpdcacheSramWmaskEcc1rw`, `hpdcacheSramWbyteenableEcc1rw` — the macros.
* `EccSram.Holds.step` — a written word is in the memory, up to the bits flipped since.
* `EccSram.run_rdata` — what the ports read after any sequence of accesses and flips.
-/

namespace Hpdcache

open Hw

/-! ## Accesses to a memory -/

section Access

variable {κ α : Type*} {m : Sram κ α} {p : SramPort κ α} {a : Nat} {l : κ}

theorem Sram.mem_of_write (h : p.cs = true ∧ p.we = true ∧ a = p.addr)
    (hen : p.wbyteenable l = true) : (m.step p).mem a l = p.wdata l := by
  simp [Sram.step, h, hen]

theorem Sram.mem_of_not
    (h : ¬((p.cs = true ∧ p.we = true ∧ a = p.addr) ∧ p.wbyteenable l = true)) :
    (m.step p).mem a l = m.mem a l := by
  apply if_neg
  simp only [Bool.and_eq_true, decide_eq_true_eq, and_assoc] at h ⊢
  exact h

theorem Sram.rdata_of_read (h : (p.cs && !p.we) = true) :
    (m.step p).rdata l = m.mem p.addr l :=
  if_pos h

theorem Sram.rdata_of_not (h : ¬(p.cs && !p.we) = true) : (m.step p).rdata l = m.rdata l :=
  if_neg h

end Access

/-! ## The macros -/

/-- What the macros differ in: the width of a word in the memory, and the enable of each of its
bits, if there are enables. -/
structure EccMacro (k r : Nat) where
  width : Nat
  full_le : k + r ≤ width
  wenWidth : Nat
  lane : Fin width → Option (Fin wenWidth)
  lane_none : ∀ j, lane j = none → wenWidth = 0

section Macros

variable (k r : Nat)

def hpdcacheSramEcc1rw : EccMacro k r where
  width := k + r
  full_le := Nat.le_refl _
  wenWidth := 0
  lane _ := none
  lane_none _ _ := rfl

/-- The check bits take the mask of the last bit of data. -/
def hpdcacheSramWmaskEcc1rw (hk : 0 < k) : EccMacro k r where
  width := k + r
  full_le := Nat.le_refl _
  wenWidth := k
  lane j := some (if h : j.val < k then ⟨j, h⟩ else ⟨k - 1, Nat.sub_lt hk Nat.one_pos⟩)
  lane_none _ h := nomatch h

/-- The word is completed to a whole number of bytes, and the bytes of the check bits take the
enable of the last byte of data. -/
def hpdcacheSramWbyteenableEcc1rw (hk : 0 < k / 8) : EccMacro k r where
  width := (k + r + 7) / 8 * 8
  full_le := by omega
  wenWidth := k / 8
  lane j :=
    some (if h : j.val / 8 < k / 8 then ⟨j.val / 8, h⟩ else ⟨k / 8 - 1, Nat.sub_lt hk Nat.one_pos⟩)
  lane_none _ h := nomatch h

end Macros

/-- An access to a RAM. -/
structure EccPort (ndata k wenWidth : Nat) where
  cs : Bool
  we : Bool
  addr : Nat
  wdata : Fin ndata → Bits k
  wen : Fin ndata → Bits wenWidth

/-- A clock edge with an access, or a flip of the bits of an address under a mask. -/
inductive EccEvent (ndata k wenWidth width : Nat)
  | access (p : EccPort ndata k wenWidth)
  | setMask (index : Nat) (mask : Fin ndata → Bits width)

namespace EccSram

variable {k r ndata : Nat} (C : HsiaoCode k r) (M : EccMacro k r)

/-- The access to the memory. The bits above the check bits are zeros. -/
def port (p : EccPort ndata k M.wenWidth) : SramPort (Fin ndata × Fin M.width) Bool where
  cs := p.cs
  we := p.we
  addr := p.addr
  wdata := fun (i, j) => if h : j.val < k + r then C.encode (p.wdata i) ⟨j, h⟩ else false
  wbyteenable := fun (i, j) => ((M.lane j).map (p.wen i)).getD true

abbrev State (ndata : Nat) : Type := Sram (Fin ndata × Fin M.width) Bool

def step (s : State M ndata) : EccEvent ndata k M.wenWidth M.width → State M ndata
  | .access p => Sram.step s (port C M p)
  | .setMask index mask =>
    { s with mem := fun a (i, j) => if a = index then s.mem a (i, j) ^^ mask i j else s.mem a (i, j) }

def run (s : State M ndata) (evs : List (EccEvent ndata k M.wenWidth M.width)) : State M ndata :=
  evs.foldl (step C M) s

variable {M}

/-- The word that the decoder of a port sees. -/
def word (s : State M ndata) (i : Fin ndata) : Bits (k + r) :=
  fun j => s.rdata (i, j.castLE M.full_le)

def rdata (s : State M ndata) (i : Fin ndata) : Bits k := (C.decode (word s i)).data
def errCor (s : State M ndata) (i : Fin ndata) : Bool := (C.decode (word s i)).cor
def errUnc (s : State M ndata) (i : Fin ndata) : Bool := (C.decode (word s i)).unc

/-! ## A RAM without ECC, and the bits flipped -/

/-- The same access to a RAM of words without ECC. -/
def plainPort (p : EccPort ndata k M.wenWidth) : SramPort (Fin ndata) (Bits k) where
  cs := p.cs
  we := p.we
  addr := p.addr
  wdata := p.wdata
  wbyteenable i := all (p.wen i)

/-- A RAM of words without ECC, whose bits do not flip. -/
def plainStep (s : Sram (Fin ndata) (Bits k)) :
    EccEvent ndata k M.wenWidth M.width → Sram (Fin ndata) (Bits k)
  | .access p => Sram.step s (plainPort p)
  | .setMask _ _ => s

/-- The bits flipped in each word since it was written, none for a word that was not written yet.
The words that the ports have read last have theirs. -/
abbrev Flips (ndata w : Nat) : Type := Sram (Fin ndata) (Option (Bits w))

namespace Flips

def reset : Flips ndata (k + r) where
  mem _ _ := none
  rdata _ := none

def port (p : EccPort ndata k M.wenWidth) : SramPort (Fin ndata) (Option (Bits (k + r))) where
  cs := p.cs
  we := p.we
  addr := p.addr
  wdata _ := some fun _ => false
  wbyteenable i := all (p.wen i)

def step (f : Flips ndata (k + r)) :
    EccEvent ndata k M.wenWidth M.width → Flips ndata (k + r)
  | .access p => Sram.step f (port p)
  | .setMask index mask =>
    { f with
      mem := fun a i =>
        if a = index then (f.mem a i).map fun e j => e j ^^ mask i (j.castLE M.full_le)
        else f.mem a i }

end Flips

/-- Number of bits flipped. -/
def weight {w : Nat} (e : Bits w) : Nat :=
  hammingDist (fun _ => false) e

theorem hammingDist_xor {w : Nat} (v e : Bits w) :
    hammingDist v (fun j => v j ^^ e j) = weight e := by
  unfold weight hammingDist
  congr 1
  ext j
  cases hv : v j <;> simp [hv]

/-! ## The memory -/

variable {C}

/-- A written word is in the memory and in the read register, up to the bits flipped since. -/
structure Holds (C : HsiaoCode k r) (s : State M ndata) (p : Sram (Fin ndata) (Bits k))
    (f : Flips ndata (k + r)) : Prop where
  mem : ∀ a i e, f.mem a i = some e →
    ∀ j : Fin (k + r), s.mem a (i, j.castLE M.full_le) = (C.encode (p.mem a i) j ^^ e j)
  rdata : ∀ i e, f.rdata i = some e →
    ∀ j : Fin (k + r), s.rdata (i, j.castLE M.full_le) = (C.encode (p.rdata i) j ^^ e j)

theorem Holds.reset (s : State M ndata) (p : Sram (Fin ndata) (Bits k)) :
    Holds C s p Flips.reset where
  mem _ _ _ h := nomatch h
  rdata _ _ h := nomatch h

/-- The enables of a word are all set or all clear. -/
def AllOrNone : EccEvent ndata k M.wenWidth M.width → Prop
  | .access p => p.cs = true → p.we = true → ∀ i, all (p.wen i) = true ∨ any (p.wen i) = false
  | .setMask _ _ => True

/-- The bits of a word follow its enable. -/
theorem port_wbyteenable {p : EccPort ndata k M.wenWidth} {i : Fin ndata}
    (h : all (p.wen i) = true ∨ any (p.wen i) = false) (j : Fin M.width) :
    (port C M p).wbyteenable (i, j) = all (p.wen i) := by
  show ((M.lane j).map (p.wen i)).getD true = _
  cases hl : M.lane j with
  | none =>
    have hall : all (p.wen i) = true := by
      rw [all_eq_true]
      intro l
      have hpos := l.pos
      have hzero := M.lane_none j hl
      omega
    rw [hall]
    rfl
  | some l =>
    show p.wen i l = _
    rcases h with hall | hnone
    · rw [hall, all_eq_true.1 hall l]
    · rw [any_eq_false.1 hnone l, eq_comm, all_eq_false]
      exact ⟨l, any_eq_false.1 hnone l⟩

theorem port_wdata (p : EccPort ndata k M.wenWidth) (i : Fin ndata) (j : Fin (k + r)) :
    (port C M p).wdata (i, j.castLE M.full_le) = C.encode (p.wdata i) j :=
  dif_pos j.isLt

theorem Holds.access {s : State M ndata} {p : Sram (Fin ndata) (Bits k)}
    {f : Flips ndata (k + r)} (h : Holds C s p f) {q : EccPort ndata k M.wenWidth}
    (hq : AllOrNone (.access q)) :
    Holds C (Sram.step s (EccSram.port C M q)) (Sram.step p (plainPort q))
      (Sram.step f (Flips.port q)) where
  mem a i e he j := by
    by_cases hwr : (q.cs = true ∧ q.we = true ∧ a = q.addr) ∧ all (q.wen i) = true
    · have hen : (EccSram.port C M q).wbyteenable (i, j.castLE M.full_le) = true := by
        rw [port_wbyteenable (.inl hwr.2), hwr.2]
      rw [Sram.mem_of_write hwr.1 hwr.2] at he
      cases he
      rw [Sram.mem_of_write hwr.1 hen, Sram.mem_of_write hwr.1 hwr.2, port_wdata, Bool.xor_false]
      rfl
    · have hen : ¬((q.cs = true ∧ q.we = true ∧ a = q.addr) ∧
          (EccSram.port C M q).wbyteenable (i, j.castLE M.full_le) = true) := by
        rintro ⟨hadd, hbit⟩
        rw [port_wbyteenable (hq hadd.1 hadd.2.1 i)] at hbit
        exact hwr ⟨hadd, hbit⟩
      rw [Sram.mem_of_not hwr] at he
      rw [Sram.mem_of_not hen, Sram.mem_of_not hwr]
      exact h.mem a i e he j
  rdata i e he j := by
    by_cases hrd : (q.cs && !q.we) = true
    · rw [Sram.rdata_of_read hrd] at he
      rw [Sram.rdata_of_read hrd, Sram.rdata_of_read hrd]
      exact h.mem q.addr i e he j
    · rw [Sram.rdata_of_not hrd] at he
      rw [Sram.rdata_of_not hrd, Sram.rdata_of_not hrd]
      exact h.rdata i e he j

theorem Holds.setMask {s : State M ndata} {p : Sram (Fin ndata) (Bits k)}
    {f : Flips ndata (k + r)} (h : Holds C s p f) (index : Nat) (mask : Fin ndata → Bits M.width) :
    Holds C (EccSram.step C M s (.setMask index mask)) p (f.step (M := M) (.setMask index mask)) where
  mem a i e he j := by
    simp only [EccSram.step, Flips.step] at he ⊢
    by_cases ha : a = index
    · rw [if_pos ha, Option.map_eq_some_iff] at he
      obtain ⟨e', he', rfl⟩ := he
      rw [if_pos ha, h.mem a i e' he' j, Bool.xor_assoc]
    · rw [if_neg ha] at he
      rw [if_neg ha]
      exact h.mem a i e he j
  rdata := h.rdata

/-- An access and a flip keep what is held. -/
theorem Holds.step {s : State M ndata} {p : Sram (Fin ndata) (Bits k)} {f : Flips ndata (k + r)}
    (h : Holds C s p f) {ev : EccEvent ndata k M.wenWidth M.width} (hev : AllOrNone ev) :
    Holds C (EccSram.step C M s ev) (plainStep p ev) (f.step ev) := by
  cases ev with
  | access q => exact h.access hev
  | setMask index mask => exact h.setMask index mask

theorem Holds.run {s : State M ndata} {p : Sram (Fin ndata) (Bits k)} {f : Flips ndata (k + r)}
    (h : Holds C s p f) (evs : List (EccEvent ndata k M.wenWidth M.width))
    (hevs : ∀ ev ∈ evs, AllOrNone ev) :
    Holds C (EccSram.run C M s evs) (evs.foldl plainStep p) (evs.foldl Flips.step f) := by
  induction evs generalizing s p f with
  | nil => exact h
  | cons ev evs ih =>
    exact ih (h.step (hevs ev List.mem_cons_self)) fun e he => hevs e (List.mem_cons_of_mem _ he)

/-- **What a port reads.** After any accesses to whole words and any flips, from any content: a word
that was written has had `e` flipped when it was read last. Up to one flip the port has what a RAM
without ECC has. One flip sets the first flag, and two set the second one. -/
theorem run_rdata (s : State M ndata) (p : Sram (Fin ndata) (Bits k))
    (evs : List (EccEvent ndata k M.wenWidth M.width)) (hevs : ∀ ev ∈ evs, AllOrNone ev)
    (i : Fin ndata) (e : Bits (k + r)) (he : (evs.foldl Flips.step Flips.reset).rdata i = some e) :
    (weight e ≤ 1 → rdata C (run C M s evs) i = (evs.foldl plainStep p).rdata i) ∧
      (errCor C (run C M s evs) i = true ↔ Odd (weight e)) ∧
      (weight e < 4 → (errUnc C (run C M s evs) i = true ↔ weight e = 2)) := by
  have hword : word (run C M s evs) i =
      fun j => C.encode ((evs.foldl plainStep p).rdata i) j ^^ e j :=
    funext (((Holds.reset s p).run evs hevs).rdata i e he)
  have hdist : hammingDist (C.encode ((evs.foldl plainStep p).rdata i))
      (word (run C M s evs) i) = weight e := by
    rw [hword, hammingDist_xor]
  rw [← hdist]
  exact ⟨HsiaoCode.decode_data, HsiaoCode.decode_cor _ _, HsiaoCode.decode_unc⟩

/-- A word is written, its bit 3 flips, and it is read. -/
def flippedRun : List (EccEvent 1 32 (hpdcacheSramWbyteenableEcc1rw 32 7 (by decide)).wenWidth
    (hpdcacheSramWbyteenableEcc1rw 32 7 (by decide)).width) :=
  [.access { cs := true, we := true, addr := 5, wdata := fun _ j => j.val % 3 == 0
             wen := fun _ _ => true },
    .setMask 5 fun _ j => j.val == 3,
    .access { cs := true, we := false, addr := 5, wdata := fun _ _ => false
              wen := fun _ _ => false }]

theorem run_rdata_flipped :
    rdata secded3932 (run secded3932 _ ⟨fun _ _ => false, fun _ => false⟩ flippedRun) 0 =
        (flippedRun.foldl plainStep ⟨fun _ _ _ => false, fun _ _ => false⟩).rdata 0 ∧
      errCor secded3932 (run secded3932 _ ⟨fun _ _ => false, fun _ => false⟩ flippedRun) 0 =
        true := by
  obtain ⟨hdata, hcor, -⟩ := run_rdata (C := secded3932) ⟨fun _ _ => false, fun _ => false⟩
    ⟨fun _ _ _ => false, fun _ _ => false⟩ flippedRun
    (by
      intro ev hev
      simp only [flippedRun, List.mem_cons, List.not_mem_nil, or_false] at hev
      rcases hev with rfl | rfl | rfl
      · exact fun _ _ _ => .inl rfl
      · trivial
      · exact fun _ h => nomatch h)
    0 (fun j => false ^^ (j.val == 3)) rfl
  exact ⟨hdata (by decide), hcor.2 (by decide)⟩

end EccSram

end Hpdcache
