import Hpdcache.Lib.System
import Mathlib.Data.List.Forall2

/-!
# Streams cut in groups

A stream of units is cut in groups of `n`. A unit that is marked as the last of its packet closes
its group before that. A reader that takes one group at a time may find more lanes than the group
has units: the units come first.

* `Groups.units_cut` — the groups are the stream.
* `Groups.closed_cut` — a closed group is full, or closed by a mark.
* `Delivers.trans` — what two parts of a run deliver, the whole delivers.
* `delivers_run` — a circuit each of whose steps delivers groups delivers them in order.
-/

namespace Hw

variable {α ρ : Type*}

/-- A stream that is being cut: the groups that are closed, and the one being filled. -/
structure Groups (α : Type*) where
  closed : List (List α)
  part : List α

namespace Groups

def nil : Groups α := ⟨[], []⟩

/-- A unit closes its group when it fills it, and when it is marked. -/
def put (n : Nat) (g : Groups α) (u : α × Bool) : Groups α :=
  if g.part.length + 1 = n ∨ u.2 = true then ⟨g.closed ++ [g.part ++ [u.1]], []⟩
  else ⟨g.closed, g.part ++ [u.1]⟩

def cut (n : Nat) (g : Groups α) (us : List (α × Bool)) : Groups α := us.foldl (put n) g

/-- The units of the groups. -/
def units (g : Groups α) : List α := g.closed.flatten ++ g.part

variable {n : Nat} {g : Groups α} {us : List (α × Bool)} {u : α × Bool}

theorem cut_append (vs : List (α × Bool)) : g.cut n (us ++ vs) = (g.cut n us).cut n vs :=
  List.foldl_append

theorem units_put : (g.put n u).units = g.units ++ [u.1] := by
  unfold put
  split_ifs <;> simp [units]

/-- Nothing is lost in the cut. -/
theorem units_cut : (g.cut n us).units = g.units ++ us.map Prod.fst := by
  induction us generalizing g with
  | nil => exact (List.append_nil _).symm
  | cons u us ih =>
    have hcut : g.cut n (u :: us) = (g.put n u).cut n us := rfl
    rw [hcut, ih, units_put, List.map_cons, List.append_assoc]
    rfl

/-- The groups that are closed do not matter for those that follow. -/
theorem put_closed (c : List (List α)) :
    put n ⟨c ++ g.closed, g.part⟩ u = ⟨c ++ (g.put n u).closed, (g.put n u).part⟩ := by
  unfold put
  split_ifs <;> simp

theorem cut_closed (c : List (List α)) :
    cut n ⟨c ++ g.closed, g.part⟩ us = ⟨c ++ (g.cut n us).closed, (g.cut n us).part⟩ := by
  induction us generalizing g with
  | nil => rfl
  | cons u us ih =>
    have hcut : cut n ⟨c ++ g.closed, g.part⟩ (u :: us) =
        cut n (put n ⟨c ++ g.closed, g.part⟩ u) us := rfl
    rw [hcut, put_closed, ih]
    rfl

/-- A group of one unit is closed at once. -/
theorem cut_one (q : List α) :
    cut 1 ⟨q.map fun x => [x], []⟩ us = ⟨(q ++ us.map Prod.fst).map fun x => [x], []⟩ := by
  induction us generalizing q with
  | nil => rw [List.map_nil, List.append_nil]; rfl
  | cons u us ih =>
    have hput : put 1 ⟨q.map fun x => [x], []⟩ u = ⟨(q ++ [u.1]).map fun x => [x], []⟩ := by
      simp [put]
    have hcut : cut 1 ⟨q.map fun x => [x], []⟩ (u :: us) =
        cut 1 (put 1 ⟨q.map fun x => [x], []⟩ u) us := rfl
    rw [hcut, hput, ih, List.append_assoc]
    rfl

/-- The groups are not empty and not too large, and the one being filled is not full. -/
structure WF (n : Nat) (g : Groups α) : Prop where
  pos : ∀ x ∈ g.closed, 0 < x.length
  le : ∀ x ∈ g.closed, x.length ≤ n
  part : g.part.length < n

theorem wf_nil (hn : 0 < n) : (nil : Groups α).WF n :=
  ⟨nofun, nofun, hn⟩

theorem WF.put (h : g.WF n) (u : α × Bool) : (g.put n u).WF n := by
  obtain ⟨hpos, hle, hpart⟩ := h
  unfold Groups.put
  split_ifs with hc
  · refine ⟨?_, ?_, Nat.lt_of_le_of_lt (Nat.zero_le _) hpart⟩
    · intro x hx
      rcases List.mem_append.1 hx with hx | hx
      · exact hpos x hx
      · rw [List.mem_singleton.1 hx, List.length_append]
        exact Nat.succ_pos _
    · intro x hx
      rcases List.mem_append.1 hx with hx | hx
      · exact hle x hx
      · rw [List.mem_singleton.1 hx, List.length_append]
        exact hpart
  · rw [not_or] at hc
    refine ⟨hpos, hle, ?_⟩
    simp only [List.length_append, List.length_singleton]
    omega

/-- Without a mark every closed group is full. -/
theorem full_cut (hg : ∀ x ∈ g.closed, x.length = n) (hu : ∀ u ∈ us, u.2 = false) :
    ∀ x ∈ (g.cut n us).closed, x.length = n := by
  induction us generalizing g with
  | nil => exact hg
  | cons u us ih =>
    refine @ih (g.put n u) ?_ fun v hv => hu v (List.mem_cons_of_mem u hv)
    unfold put
    split_ifs with hc
    · have hfull : g.part.length + 1 = n := by simpa [hu u List.mem_cons_self] using hc
      intro x hx
      rcases List.mem_append.1 hx with hx | hx
      · exact hg x hx
      · rw [List.mem_singleton.1 hx, List.length_append]
        exact hfull
    · exact hg

end Groups

/-! ## Delivery -/

/-- The lanes of a word that is read begin with the units of a group. -/
def Carries (lanes : ρ → List α) (r : ρ) (x : List α) : Prop := (lanes r).take x.length = x

/-- With the groups `g`, the units `us` come in and the words `rs` go out: they carry the first
groups, and the others are left in `g'`. -/
def Delivers (n : Nat) (lanes : ρ → List α) (g : Groups α) (us : List (α × Bool)) (rs : List ρ)
    (g' : Groups α) : Prop :=
  ∃ gone, g.cut n us = ⟨gone ++ g'.closed, g'.part⟩ ∧ List.Forall₂ (Carries lanes) rs gone

section
variable {n : Nat} {lanes : ρ → List α} {g g' g'' : Groups α} {us vs : List (α × Bool)}
  {rs ts : List ρ}

theorem delivers_refl : Delivers n lanes g [] [] g :=
  ⟨[], rfl, .nil⟩

theorem delivers_put (u : α × Bool) : Delivers n lanes g [u] [] (g.put n u) :=
  ⟨[], rfl, .nil⟩

theorem delivers_pop {x : List α} {xs : List (List α)} {p : List α} {r : ρ}
    (h : Carries lanes r x) : Delivers n lanes ⟨x :: xs, p⟩ [] [r] ⟨xs, p⟩ :=
  ⟨[x], rfl, .cons h .nil⟩

theorem Delivers.trans (h : Delivers n lanes g us rs g') (h' : Delivers n lanes g' vs ts g'') :
    Delivers n lanes g (us ++ vs) (rs ++ ts) g'' := by
  obtain ⟨gone, hcut, hall⟩ := h
  obtain ⟨gone', hcut', hall'⟩ := h'
  refine ⟨gone ++ gone', ?_, List.rel_append hall hall'⟩
  rw [Groups.cut_append, hcut, Groups.cut_closed, hcut', List.append_assoc]

/-- Groups of one unit are a queue. -/
theorem delivers_one {q q' rs : List α} (h : rs ++ q' = q ++ us.map Prod.fst) :
    Delivers 1 (fun r => [r]) ⟨q.map fun x => [x], []⟩ us rs ⟨q'.map fun x => [x], []⟩ := by
  refine ⟨rs.map fun x => [x], ?_, ?_⟩
  · rw [Groups.cut_one, ← h, List.map_append]
  · rw [List.forall₂_map_right_iff, List.forall₂_same]
    exact fun _ _ => rfl

/-- What is read is the beginning of the stream, when no group was closed by a mark. -/
theorem Delivers.flatten_lanes (h : Delivers n lanes g us rs g') (hu : ∀ u ∈ us, u.2 = false)
    (hg : ∀ x ∈ g.closed, x.length = n) (hl : ∀ r ∈ rs, (lanes r).length = n) :
    rs.flatMap lanes ++ g'.units = g.units ++ us.map Prod.fst := by
  obtain ⟨gone, hcut, hall⟩ := h
  have hfull := Groups.full_cut hg hu
  have hunits : (g.cut n us).units = g.units ++ us.map Prod.fst := Groups.units_cut
  rw [hcut] at hfull hunits
  have hgone : rs.map lanes = gone := by
    have hlen : ∀ x ∈ gone, x.length = n := fun x hx => hfull x (List.mem_append_left _ hx)
    clear hcut hfull hunits
    induction hall with
    | nil => rfl
    | @cons r x rs gone hr _ ih =>
      have hx := hlen x List.mem_cons_self
      have hrl := hl r List.mem_cons_self
      have hrx : lanes r = x := by rwa [Carries, List.take_of_length_le (by omega)] at hr
      rw [List.map_cons, hrx, ih (fun t ht => hl t (List.mem_cons_of_mem r ht))
        fun t ht => hlen t (List.mem_cons_of_mem x ht)]
  rw [← hunits, List.flatMap_def, hgone]
  simp [Groups.units]

end

variable {σ ι : Type*} {step : σ → ι → σ} {inp : σ → ι → List (α × Bool)} {out : σ → ι → List ρ}
  {lanes : ρ → List α} {n : Nat} {Holds : σ → Groups α → Prop}

/-- A circuit that holds groups, and that delivers some of them in each step, delivers them in a
run. -/
theorem delivers_run (hstep : ∀ s i g, Holds s g →
      ∃ g', Holds (step s i) g' ∧ Delivers n lanes g (inp s i) (out s i) g')
    {s : σ} {g : Groups α} (h : Holds s g) (is : List ι) :
    ∃ g', Holds (run step s is) g' ∧
      Delivers n lanes g (trace step inp s is) (trace step out s is) g' := by
  induction is generalizing s g with
  | nil => exact ⟨g, h, delivers_refl⟩
  | cons i is ih =>
    obtain ⟨g₁, h₁, hd₁⟩ := hstep s i g h
    obtain ⟨g₂, h₂, hd₂⟩ := ih h₁
    exact ⟨g₂, h₂, hd₁.trans hd₂⟩

end Hw
