import Hpdcache.Lib.Arbiter
import Hpdcache.Lib.Fifo
import Hpdcache.Lib.System

/-!
# Channels with valid and ready

In a cycle a channel offers a word, or none. A word that is offered and not taken has to be offered
again.

* `Fifo.rdata_stays` — the output of a buffer stays.
* `FxArb.granted_stays` — an arbiter that holds its grant keeps what its sources keep.
* `Holds.of_step` — what stays in every cycle holds until it is taken.
* `Spends.trace` — a word that is offered until it is taken, and not again, is taken once at most.
-/

namespace Hw

variable {n : Nat} {α β σ ι : Type*}

/-- A word that is offered and not taken is offered again. -/
def Stays (now : Option α) (ready : Bool) (next : Option α) : Prop :=
  ready = false → ∀ x, now = some x → next = some x

/-- From the state `s`, a word that is offered is offered as long as it is not taken. -/
def Holds (step : σ → ι → σ) (out : σ → Option α) (ready : ι → Bool) (s : σ) : Prop :=
  ∀ is x, out s = some x → (∀ i ∈ is, ready i = false) → out (run step s is) = some x

/-- The word that is offered is offered until it is taken, and no word after it. -/
def Spends (now : Option α) (ready : Bool) (next : Option α) : Prop :=
  next = if ready then none else now

/-- The word that is taken in a cycle. -/
def taken (now : Option α) (ready : Bool) : List α := if ready then now.toList else []

section
variable {now next : Option α} {r r' : Bool}

theorem Stays.none : Stays (none : Option α) r next := by
  intro _ x hx
  contradiction

/-- A source that is ready in the same cycles only. -/
theorem Stays.of_ready (h : Stays now r next) (hr : r' = false → r = false) :
    Stays now r' next := by
  intro hready
  exact h (hr hready)

theorem Stays.map (f : α → β) (h : Stays now r next) : Stays (now.map f) r (next.map f) := by
  intro hready y hy
  obtain ⟨x, hx, rfl⟩ := Option.map_eq_some_iff.1 hy
  rw [h hready x hx]
  rfl

end

section
variable {step : σ → ι → σ} {out : σ → Option α} {ready : ι → Bool} {Inv : σ → Prop} {s : σ}

/-- What stays in every cycle of a system in which an invariant holds is held. -/
theorem Holds.of_step (hs : Inv s) (hstep : ∀ s i, Inv s → Inv (step s i))
    (hstay : ∀ s i, Inv s → Stays (out s) (ready i) (out (step s i))) :
    Holds step out ready s := by
  intro is
  induction is generalizing s with
  | nil =>
    intro x hx _
    exact hx
  | cons i is ih =>
    intro x hx hr
    have hnext := hstay s i hs (hr i List.mem_cons_self) x hx
    exact ih (hstep s i hs) x hnext fun j hj => hr j (List.mem_cons_of_mem i hj)

end

section
variable {step : σ → ι → σ} {P : σ → ι → Prop} {out : σ → Option α} {ready : ι → Bool} {s : σ}
  {is : List ι}

/-- What is taken in a run, and then what is still offered, is what was offered. -/
theorem Spends.trace (h : Along step P s is)
    (hstep : ∀ s i, P s i → Spends (out s) (ready i) (out (step s i))) :
    trace step (fun s i => taken (out s) (ready i)) s is ++ (out (run step s is)).toList =
      (out s).toList := by
  have hleft : ∀ s i, P s i →
      taken (out s) (ready i) ++ (out (step s i)).toList = (out s).toList := by
    intro s i hp
    rw [hstep s i hp, taken]
    cases ready i with
    | true => exact List.append_nil _
    | false => rfl
  exact @Along.conserved σ ι α step P s is _ (fun s => (out s).toList) h hleft

end

/-! ## Buffers -/

/-- The word at the output of a buffer stays. -/
theorem Fifo.rdata_stays {depth : Nat} {ft r : Bool} {q : List α} {w w' : Option α}
    (hd : 0 < depth) : Stays (Fifo.rdata ft q w) r (Fifo.rdata ft (Fifo.step depth ft q w r) w') := by
  intro hr x hx
  subst hr
  cases q with
  | cons y q =>
    have hy : y = x := Option.some.inj hx
    rw [hy]
    rfl
  | nil =>
    cases ft with
    | false => contradiction
    | true =>
      -- the word that is written is kept
      have hw : w = some x := hx
      have hok : Fifo.accepted depth true [] w false = some x := by
        simp [Fifo.accepted, Fifo.wok, hd, hw]
      simp [Fifo.step, hok, Fifo.rdata]

/-- The head of a buffer that is not feedthrough. -/
theorem Fifo.head?_stays {depth : Nat} {r : Bool} {q : List α} {w : Option α} (hd : 0 < depth) :
    Stays q.head? r (Fifo.step depth false q w r).head? := by
  have h : Stays (Fifo.rdata false q w) r (Fifo.rdata false (Fifo.step depth false q w r) none) :=
    Fifo.rdata_stays hd
  rwa [Fifo.rdata_eq, Fifo.rdata_eq] at h

/-! ## Multiplexers and arbiters -/

/-- The word of the source that is granted, if it offers one. -/
def granted (gnt : Bits n) (src : Fin n → Option α) : Option α :=
  if any fun i => gnt i && (src i).isSome then mux gnt src none else none

variable {gnt : Bits n} {src src' : Fin n → Option α} {ready : Bool}

theorem granted_eq_some (h : OneHot gnt) {x : α} :
    granted gnt src = some x ↔ ∃ i, gnt i = true ∧ src i = some x := by
  unfold granted
  constructor
  · intro hx
    split_ifs at hx with hany
    obtain ⟨i, hi⟩ := any_eq_true.1 hany
    rw [Bool.and_eq_true] at hi
    rw [h.mux hi.1] at hx
    exact ⟨i, hi.1, hx⟩
  · rintro ⟨i, hi, hx⟩
    have hany : any (fun i => gnt i && (src i).isSome) = true :=
      any_eq_true.2 ⟨i, by rw [hi, hx]; rfl⟩
    rw [if_pos hany, h.mux hi, hx]

/-- With the same grant, what the sources keep stays. -/
theorem granted_stays (h : OneHot gnt)
    (hsrc : ∀ i, gnt i = true → Stays (src i) ready (src' i)) :
    Stays (granted gnt src) ready (granted gnt src') := by
  intro hr x hx
  obtain ⟨i, hi, hx⟩ := (granted_eq_some h).1 hx
  exact (granted_eq_some h).2 ⟨i, hi, hsrc i hi hr x hx⟩

namespace FxArb

variable {a : FxArb n}

/-- A grant that is not taken is kept. -/
theorem gnt_step {req req' : Bits n} (h : any req = true) :
    (a.step req false).gnt req' = a.gnt req := by
  cases hw : a.waitQ with
  | true => simp [gnt, step, hw]
  | false => simp [gnt, step, hw, h]

/-- The requests of the sources. -/
def valid (src : Fin n → Option α) : Bits n := fun i => (src i).isSome

/-- The word that leaves an arbiter stays when its sources keep what is not taken. -/
theorem granted_stays (h : OneHot a.gntQ) (hsrc : ∀ i, Stays (src i) ready (src' i)) :
    Stays (granted (a.gnt (valid src)) src) ready
      (granted ((a.step (valid src) ready).gnt (valid src')) src') := by
  intro hr x hx
  obtain ⟨i, hi, hsome⟩ := (granted_eq_some (oneHot_gnt h)).1 hx
  have hany : any (valid src) = true := any_eq_true.2 ⟨i, by rw [valid, hsome]; rfl⟩
  subst hr
  rw [gnt_step hany]
  exact Hw.granted_stays (oneHot_gnt h) (fun j _ => hsrc j) rfl x hx

end FxArb

end Hw
