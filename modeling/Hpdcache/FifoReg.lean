import Hpdcache.Lib.Ring
import Hpdcache.Lib.System

/-!
# The buffers of the cache

The register buffer `hpdcache_fifo_reg`. Its depth chooses one of three circuits: wires only for a
depth of zero, the synchronization buffer for a depth of one, and a ring of registers with a
crossover flag for any other.

**Feedthrough.** With the parameter set a word that is written in an empty buffer can be read in the
same cycle, and a full buffer accepts a word while it is read. Wires are feedthrough whatever the
parameter.

* `SyncBuffer.contents_step`, `FifoRing.contents_step` — a cycle of each circuit is one of the list
  buffer.
* `FifoReg.queue_run` — the buffer is a bounded queue, whatever its depth.
-/

namespace Hpdcache

open Hw

variable {α : Type*} {n : Nat}

/-- The inputs of a buffer: what its writer and its reader ask for. -/
structure FifoIn (α : Type*) where
  w : Bool
  wdata : α
  r : Bool

/-- The word that is written, if any. -/
def FifoIn.word (i : FifoIn α) : Option α := if i.w then some i.wdata else none

@[simp] theorem isSome_word (i : FifoIn α) : i.word.isSome = i.w := by
  cases hw : i.w <;> simp [FifoIn.word, hw]

@[simp] theorem getD_word (i : FifoIn α) : i.word.getD i.wdata = i.wdata := by
  cases hw : i.w <;> simp [FifoIn.word, hw]

/-! ## The synchronization buffer -/

structure SyncBuffer (α : Type*) where
  validQ : Bool
  bufQ : α

namespace SyncBuffer

/-- The data have no reset. -/
def reset (b : SyncBuffer α) : SyncBuffer α := { b with validQ := false }

variable (ft : Bool) (b : SyncBuffer α) (i : FifoIn α)

def rok : Bool := b.validQ || (ft && i.w)

def wok : Bool := !b.validQ || (ft && i.r)

def bufWe : Bool := i.w && ((ft && !(b.validQ ^^ i.r)) || (!ft && !b.validQ))

def rdata : α := if ft && !b.validQ then i.wdata else b.bufQ

def step : SyncBuffer α where
  validQ := b.bufWe ft i || (b.validQ && !i.r)
  bufQ := if b.bufWe ft i then i.wdata else b.bufQ

/-- What the buffer holds. -/
def contents : List α := if b.validQ then [b.bufQ] else []

theorem contents_step :
    (b.step ft i).contents = Fifo.step 1 ft b.contents i.word i.r := by
  cases hv : b.validQ with
  | false =>
    cases hw : i.w <;> cases hr : i.r <;> cases ft <;>
      simp [contents, step, bufWe, FifoIn.word, Fifo.step_nil, Fifo.accepted, Fifo.wok, hv, hw, hr]
  | true =>
    cases hw : i.w <;> cases hr : i.r <;> cases ft <;>
      simp [contents, step, bufWe, FifoIn.word, Fifo.step_cons, Fifo.accepted, Fifo.wok, hv, hw, hr]

variable {ft b i}

theorem wok_eq : b.wok ft i = Fifo.wok 1 ft b.contents i.r := by
  cases hv : b.validQ <;> simp [wok, Fifo.wok, contents, hv]

theorem rok_eq : b.rok ft i = Fifo.rok ft b.contents i.word := by
  cases hv : b.validQ <;> cases hw : i.w <;> cases ft <;>
    simp [rok, Fifo.rok, Fifo.rdata, contents, FifoIn.word, hv, hw]

theorem rdata_eq {x : α} (hx : Fifo.rdata ft b.contents i.word = some x) : b.rdata ft i = x := by
  cases hv : b.validQ <;> cases hw : i.w <;> cases ft <;>
    simp_all [rdata, Fifo.rdata, contents, FifoIn.word]

end SyncBuffer

/-! ## The ring of registers -/

namespace FifoRing

/-- The registers have no reset: the ring is empty then. -/
def reset (hn : 0 < n) (q : Ring α n) : Ring α n :=
  { q with rptr := ⟨0, hn⟩, wptr := ⟨0, hn⟩, crossover := false }

variable (ft : Bool) (q : Ring α n) (i : FifoIn α)

def matchPtr : Bool := decide (q.wptr = q.rptr)

def empty : Bool := matchPtr q && !q.crossover

def full : Bool := matchPtr q && q.crossover

def rok : Bool := !empty q || (ft && i.w)

def wok : Bool := !full q || (ft && i.r)

def rexec : Bool := i.r && !empty q

def wexec : Bool :=
  i.w && ((ft && ((empty q && !i.r) || (full q && i.r) || (!full q && !empty q))) ||
    (!ft && !full q))

def rdata : α := if ft && empty q then i.wdata else q.mem q.rptr

def step : Ring α n where
  mem := if wexec ft q i then Function.update q.mem q.wptr i.wdata else q.mem
  rptr := if rexec q i then Ring.next q.rptr else q.rptr
  wptr := if wexec ft q i then Ring.next q.wptr else q.wptr
  crossover :=
    if wexec ft q i && Ring.ptrMax q.wptr then true
    else if rexec q i && Ring.ptrMax q.rptr then false
    else q.crossover

/-- A cycle reads first and then writes: a ring that is full at its last register stays so. -/
theorem step_eq : step ft q i =
    (if wexec ft q i then (if rexec q i then q.pop else q).push i.wdata
      else if rexec q i then q.pop else q) := by
  unfold step
  cases wexec ft q i <;> cases rexec q i <;> simp [Ring.pop, Ring.push]

variable {ft q i}

theorem ring_rok : q.rok = !empty q := by
  unfold Ring.rok empty matchPtr
  by_cases hp : q.wptr = q.rptr <;> simp [hp]

theorem ring_wok : q.wok = !full q := by
  unfold Ring.wok full matchPtr
  by_cases hp : q.wptr = q.rptr <;> simp [hp]

theorem empty_eq_true (h : q.WF) : empty q = true ↔ q.contents = [] := by
  have hrok := h.rok_iff
  rw [ring_rok, ← Ring.length_contents, List.length_pos_iff] at hrok
  cases he : empty q <;> simp_all

theorem full_eq_true (h : q.WF) : full q = true ↔ q.contents.length = n := by
  have hwok := h.wok_iff
  have hle := h.count_le
  rw [ring_wok] at hwok
  rw [Ring.length_contents]
  cases hf : full q with
  | true =>
    rw [hf] at hwok
    have hnot : ¬ q.count < n := fun hlt => Bool.false_ne_true (hwok.2 hlt)
    simp only [true_iff]
    omega
  | false =>
    rw [hf] at hwok
    have hlt := hwok.1 rfl
    simp only [Bool.false_eq_true, false_iff]
    omega

theorem full_eq (h : q.WF) : full q = !decide (q.contents.length < n) := by
  have hle := h.count_le
  rw [← Ring.length_contents] at hle
  rw [Bool.eq_iff_iff, full_eq_true h, Bool.not_eq_true', decide_eq_false_iff_not]
  omega

theorem wok_eq (h : q.WF) : wok ft q i = Fifo.wok n ft q.contents i.r := by
  rw [wok, Fifo.wok, full_eq h, Bool.not_not]

theorem rok_eq (h : q.WF) : rok ft q i = Fifo.rok ft q.contents i.word := by
  have hempty := empty_eq_true h
  rw [Fifo.rok, rok]
  cases hc : q.contents with
  | nil =>
    rw [hempty.2 hc]
    cases ft <;> cases hw : i.w <;> simp [Fifo.rdata, FifoIn.word, hw]
  | cons x xs =>
    have he : empty q = false := by
      rw [← Bool.not_eq_true, hempty, hc]
      exact List.cons_ne_nil x xs
    rw [he]
    rfl

theorem rdata_eq (h : q.WF) {x : α} (hx : Fifo.rdata ft q.contents i.word = some x) :
    rdata ft q i = x := by
  have hempty := empty_eq_true h
  cases hc : q.contents with
  | nil =>
    rw [hc] at hx
    rw [rdata, hempty.2 hc]
    cases ft <;> cases hw : i.w <;> simp_all [Fifo.rdata, FifoIn.word]
  | cons y ys =>
    have he : empty q = false := by
      rw [← Bool.not_eq_true, hempty, hc]
      exact List.cons_ne_nil y ys
    have hrok : q.rok = true := by rw [ring_rok, he]; rfl
    have hhead := h.head?_contents
    rw [hrok, if_pos rfl, hc] at hhead
    rw [hc] at hx
    rw [rdata, he, Bool.and_false]
    exact (Option.some.inj hhead).symm.trans (Option.some.inj hx)

/-- A word enters a ring that has room for it, or the place of the word that is read. -/
theorem wok_of_wexec (h : q.WF) (hn : 0 < n) (hw : wexec ft q i = true) :
    (if rexec q i then q.pop else q).wok = true := by
  have hempty := empty_eq_true h
  have hfull := full_eq_true h
  cases hf : full q with
  | false =>
    have hwok : q.wok = true := by rw [ring_wok, hf]; rfl
    have hread : (q.afterRead i.r).wok = true := h.wok_afterRead hwok
    have heq : q.afterRead i.r = if rexec q i then q.pop else q := by
      rw [Ring.afterRead, Ring.rexec, ring_rok, rexec, Bool.and_comm]
    rw [← heq]
    exact hread
  | true =>
    have hlen := hfull.1 hf
    have hnot : empty q = false := by
      rw [← Bool.not_eq_true, hempty]
      intro hnil
      rw [hnil] at hlen
      simp only [List.length_nil] at hlen
      omega
    -- a full ring accepts a word only while it is read
    have hr : i.r = true := by
      simp only [wexec, hf, hnot, Bool.and_eq_true] at hw
      have hft : ft = true ∧ i.r = true := by simpa using hw.2
      exact hft.2
    have hrok : q.rok = true := by rw [ring_rok, hnot]; rfl
    have hpop := h.count_pop hrok
    have hre : rexec q i = true := by rw [rexec, hr, hnot]; rfl
    rw [if_pos hre, (h.pop hrok).wok_iff]
    rw [Ring.length_contents] at hlen
    omega

theorem wf_afterRead (h : q.WF) : (if rexec q i then q.pop else q).WF := by
  by_cases hre : rexec q i = true
  · rw [if_pos hre]
    rw [rexec, Bool.and_eq_true, ← ring_rok] at hre
    exact h.pop hre.2
  · rw [if_neg hre]
    exact h

theorem contents_afterRead (h : q.WF) :
    (if rexec q i then q.pop else q).contents = if i.r then q.contents.tail else q.contents := by
  have hread : (q.afterRead i.r).contents = if i.r then q.contents.tail else q.contents :=
    h.contents_afterRead
  rw [Ring.afterRead, Ring.rexec, ring_rok, Bool.and_comm] at hread
  exact hread

theorem wf_step (h : q.WF) (hn : 0 < n) : (step ft q i).WF := by
  rw [step_eq]
  cases hw : wexec ft q i with
  | false => exact wf_afterRead h
  | true => exact (wf_afterRead h).push (wok_of_wexec h hn hw) i.wdata

theorem contents_step (h : q.WF) (hn : 0 < n) :
    (step ft q i).contents = Fifo.step n ft q.contents i.word i.r := by
  have hafter := contents_afterRead (i := i) h
  have hstep : (step ft q i).contents = (if i.r then q.contents.tail else q.contents) ++
      (if wexec ft q i then [i.wdata] else []) := by
    rw [step_eq, ← hafter]
    cases hw : wexec ft q i with
    | false => exact (List.append_nil _).symm
    | true => exact (wf_afterRead h).contents_push (wok_of_wexec h hn hw) i.wdata
  have hempty := empty_eq_true h
  have hfull := full_eq_true h
  rw [hstep]
  cases hc : q.contents with
  | nil =>
    have he : empty q = true := hempty.2 hc
    have hf : full q = false := by
      rw [← Bool.not_eq_true, hfull, hc]
      exact Nat.ne_of_lt hn
    rw [Fifo.step_nil]
    cases hw : i.w <;> cases hr : i.r <;> cases ft <;>
      simp [wexec, FifoIn.word, Fifo.accepted, Fifo.wok, he, hf, hw, hr, hn]
  | cons x xs =>
    have he : empty q = false := by
      rw [← Bool.not_eq_true, hempty, hc]
      exact List.cons_ne_nil x xs
    have hlen := full_eq h
    rw [hc] at hlen
    rw [Fifo.step_cons]
    cases hf : full q <;> rw [hf] at hlen <;>
      cases hw : i.w <;> cases hr : i.r <;> cases ft <;>
      simp_all [wexec, FifoIn.word, Fifo.accepted, Fifo.wok]

theorem wf_reset (hn : 0 < n) : (reset hn q).WF :=
  ⟨nofun, fun _ => Nat.le_refl _⟩

theorem contents_reset (hn : 0 < n) : (reset hn q).contents = [] := by
  simp [reset, Ring.contents, Ring.count]

end FifoRing

/-! ## The buffer of a depth -/

/-- The registers of a buffer: none, one word, or a ring. -/
def FifoReg (α : Type*) : Nat → Type _
  | 0 => PUnit
  | 1 => SyncBuffer α
  | n + 2 => Ring α (n + 2)

namespace FifoReg

def reset : (depth : Nat) → FifoReg α depth → FifoReg α depth
  | 0, _ => PUnit.unit
  | 1, b => SyncBuffer.reset b
  | n + 2, q => FifoRing.reset (Nat.succ_pos (n + 1)) q

def rok (ft : Bool) : (depth : Nat) → FifoReg α depth → FifoIn α → Bool
  | 0, _, i => i.w
  | 1, b, i => SyncBuffer.rok ft b i
  | _ + 2, q, i => FifoRing.rok ft q i

def wok (ft : Bool) : (depth : Nat) → FifoReg α depth → FifoIn α → Bool
  | 0, _, i => i.r
  | 1, b, i => SyncBuffer.wok ft b i
  | _ + 2, q, i => FifoRing.wok ft q i

def rdata (ft : Bool) : (depth : Nat) → FifoReg α depth → FifoIn α → α
  | 0, _, i => i.wdata
  | 1, b, i => SyncBuffer.rdata ft b i
  | _ + 2, q, i => FifoRing.rdata ft q i

def step (ft : Bool) : (depth : Nat) → FifoReg α depth → FifoIn α → FifoReg α depth
  | 0, _, _ => PUnit.unit
  | 1, b, i => SyncBuffer.step ft b i
  | _ + 2, q, i => FifoRing.step ft q i

variable (ft : Bool) (depth : Nat) (s : FifoReg α depth) (i : FifoIn α)

/-- The word that enters in a cycle. -/
def written : List α := if i.w && wok ft depth s i then [i.wdata] else []

/-- The word that leaves in a cycle. -/
def read : List α := if i.r && rok ft depth s i then [rdata ft depth s i] else []

/-! ## The queue -/

/-- The words held, oldest first. -/
def contents : (depth : Nat) → FifoReg α depth → List α
  | 0, _ => []
  | 1, b => SyncBuffer.contents b
  | _ + 2, q => Ring.contents q

/-- The read pointer of a ring is not ahead of its write pointer. -/
def WF : (depth : Nat) → FifoReg α depth → Prop
  | 0, _ => True
  | 1, _ => True
  | _ + 2, q => Ring.WF q

variable {ft depth s i}

theorem wf_reset : WF depth (reset depth s) := by
  match depth, s with
  | 0, _ => exact trivial
  | 1, _ => exact trivial
  | _ + 2, _ => exact FifoRing.wf_reset _

theorem contents_reset : contents depth (reset depth s) = [] := by
  match depth, s with
  | 0, _ => rfl
  | 1, _ => rfl
  | _ + 2, _ => exact FifoRing.contents_reset _

theorem WF.step (h : WF depth s) : WF depth (step ft depth s i) := by
  match depth, s, h with
  | 0, _, _ => exact trivial
  | 1, _, _ => exact trivial
  | n + 2, _, h => exact FifoRing.wf_step h (Nat.succ_pos (n + 1))

/-- A cycle of the circuit is a cycle of the list buffer. -/
theorem contents_step (h : WF depth s) : contents depth (step ft depth s i) =
    Fifo.step depth (ft || decide (depth = 0)) (contents depth s) i.word i.r := by
  match depth, s, h with
  | 0, _, _ =>
    show [] = Fifo.step 0 _ [] i.word i.r
    cases hw : i.w <;> cases hr : i.r <;>
      simp [Fifo.step_nil, Fifo.accepted, Fifo.wok, FifoIn.word, hw]
  | 1, b, _ =>
    rw [decide_eq_false (by decide), Bool.or_false]
    exact SyncBuffer.contents_step ft b i
  | n + 2, q, h =>
    rw [decide_eq_false (Nat.succ_ne_zero _), Bool.or_false]
    exact FifoRing.contents_step h (Nat.succ_pos (n + 1))

theorem wok_eq (h : WF depth s) : wok ft depth s i =
    Fifo.wok depth (ft || decide (depth = 0)) (contents depth s) i.r := by
  match depth, s, h with
  | 0, _, _ => simp [wok, Fifo.wok]
  | 1, b, _ =>
    rw [decide_eq_false (by decide), Bool.or_false]
    exact SyncBuffer.wok_eq
  | n + 2, q, h =>
    rw [decide_eq_false (Nat.succ_ne_zero _), Bool.or_false]
    exact FifoRing.wok_eq h

theorem rok_eq (h : WF depth s) : rok ft depth s i =
    Fifo.rok (ft || decide (depth = 0)) (contents depth s) i.word := by
  match depth, s, h with
  | 0, _, _ => cases hw : i.w <;> simp [rok, Fifo.rok, Fifo.rdata, contents, FifoIn.word, hw]
  | 1, b, _ =>
    rw [decide_eq_false (by decide), Bool.or_false]
    exact SyncBuffer.rok_eq
  | n + 2, q, h =>
    rw [decide_eq_false (Nat.succ_ne_zero _), Bool.or_false]
    exact FifoRing.rok_eq h

theorem rdata_eq (h : WF depth s) {x : α}
    (hx : Fifo.rdata (ft || decide (depth = 0)) (contents depth s) i.word = some x) :
    rdata ft depth s i = x := by
  match depth, s, h with
  | 0, _, _ => cases hw : i.w <;> simp_all [rdata, Fifo.rdata, contents, FifoIn.word]
  | 1, b, _ =>
    rw [decide_eq_false (by decide), Bool.or_false] at hx
    exact SyncBuffer.rdata_eq hx
  | n + 2, q, h =>
    rw [decide_eq_false (Nat.succ_ne_zero _), Bool.or_false] at hx
    exact FifoRing.rdata_eq h hx

theorem written_eq (h : WF depth s) : written ft depth s i =
    (Fifo.accepted depth (ft || decide (depth = 0)) (contents depth s) i.word i.r).toList := by
  rw [written, wok_eq h, Fifo.accepted, FifoIn.word]
  cases i.w <;> cases Fifo.wok depth (ft || decide (depth = 0)) (contents depth s) i.r <;> rfl

theorem read_eq (h : WF depth s) : read ft depth s i =
    (Fifo.popped (ft || decide (depth = 0)) (contents depth s) i.word i.r).toList := by
  rw [read, rok_eq h, Fifo.rok, Fifo.popped]
  cases hx : Fifo.rdata (ft || decide (depth = 0)) (contents depth s) i.word with
  | none => cases i.r <;> rfl
  | some x =>
    rw [rdata_eq h hx]
    cases i.r <;> rfl

/-- What is read and what is held is what was held and what is written. -/
theorem balance (h : WF depth s) : read ft depth s i ++ contents depth (step ft depth s i) =
    contents depth s ++ written ft depth s i := by
  rw [read_eq h, written_eq h, contents_step h]
  exact Fifo.step_conserve

theorem wf_run (is : List (FifoIn α)) : WF depth (run (step ft depth) (reset depth s) is) :=
  run_invariant wf_reset fun _ _ h => h.step

/-- A run of the circuit is a run of the list buffer. -/
theorem contents_run (h : WF depth s) (is : List (FifoIn α)) :
    contents depth (run (step ft depth) s is) =
      run (fun q i => Fifo.step depth (ft || decide (depth = 0)) q i.word i.r) (contents depth s)
        is := by
  induction is generalizing s with
  | nil => rfl
  | cons i is ih => rw [run_cons, run_cons, ih h.step, contents_step h]

theorem length_contents_run (is : List (FifoIn α)) :
    (contents depth (run (step ft depth) (reset depth s) is)).length ≤ depth := by
  rw [contents_run wf_reset, contents_reset]
  refine @run_invariant _ _ _ (fun q : List α => q.length ≤ depth) _ _ (Nat.zero_le depth) ?_
  intro q i hq
  exact Fifo.length_step_le hq

/-- **The buffer is a queue.** For every depth and both settings of the parameter, after any
attempts to write and to read, the words read and those that wait are the words written, in their
order. The queue of those that wait is that of the list buffer. It accepts a word when it is not
full, and, as feedthrough, when it is read; it gives its oldest word, and, as feedthrough, the one
that is written. -/
theorem queue_run (ft : Bool) (depth : Nat) (s : FifoReg α depth) (is : List (FifoIn α)) :
    let t := run (step ft depth) (reset depth s) is
    let through := ft || decide (depth = 0)
    ∃ q : List α,
      q = run (fun q i => Fifo.step depth through q i.word i.r) [] is ∧ q.length ≤ depth ∧
      trace (step ft depth) (read ft depth) (reset depth s) is ++ q =
        trace (step ft depth) (written ft depth) (reset depth s) is ∧
      ∀ i, (wok ft depth t i = true ↔ q.length < depth ∨ through = true ∧ i.r = true) ∧
        (rok ft depth t i = true ↔ q ≠ [] ∨ through = true ∧ i.w = true) ∧
        (rok ft depth t i = true → rdata ft depth t i = q.headD i.wdata) := by
  intro t through
  have hwf : WF depth t := wf_run is
  refine ⟨contents depth t, ?_, length_contents_run is, ?_, ?_⟩
  · have hrun : contents depth t = _ := contents_run (wf_reset (s := s)) is
    rwa [contents_reset] at hrun
  · have hwfs : Along (step ft depth) (fun s _ => WF depth s) (reset depth s) is :=
      along_invariant wf_reset fun _ _ h => h.step
    have hall := hwfs.balanced fun s i (h : WF depth s) => balance (i := i) h
    rwa [contents_reset, List.nil_append] at hall
  · intro i
    rw [wok_eq hwf, rok_eq hwf, Fifo.rok_iff, isSome_word, Fifo.wok, Bool.or_eq_true,
      Bool.and_eq_true, decide_eq_true_eq]
    refine ⟨Iff.rfl, Iff.rfl, ?_⟩
    intro hr
    rw [← isSome_word, ← Fifo.rok_iff] at hr
    obtain ⟨x, hx⟩ := Option.isSome_iff_exists.1 hr
    have hhead := Fifo.eq_headD (d := i.wdata) hx
    rw [getD_word] at hhead
    rw [rdata_eq hwf hx, hhead]

end FifoReg

end Hpdcache
