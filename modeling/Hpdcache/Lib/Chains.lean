import Mathlib.Data.Set.Insert
import Mathlib.Data.List.Nodup
import Mathlib.Logic.Function.Basic
import Mathlib.Tactic.Common

/-!
# Linked lists in a table

A table whose entries are linked by a pointer to the next one. An entry is valid or not; flags mark
the first and the last entries of the lists. One of the lists at a time may have lost the flag of
its first entry: this entry has been taken, and is then freed or put back.

**The state** (`Chains`). The valid entries are the disjoint lists of a family `S`, each ended by
its tail. Every list but `front` has its head flag set; `front` is empty when no entry is taken.

**Operations.** A new list, a new entry behind a tail, and on the first entry of a list: take it,
put it back, free it.

* `Chains.alloc`, `Chains.link`, `Chains.take`, `Chains.putBack`, `Chains.free` — each operation
  keeps the lists.
-/

namespace Hw

variable {α : Type*}

/-- The pointers and the flags of a table of linked lists. -/
@[ext] structure LinkTable (α : Type*) where
  next : α → α
  valid : α → Bool
  head : α → Bool
  tail : α → Bool

namespace LinkTable

/-- The entries follow each other, up to a tail. -/
def Linked (T : LinkTable α) : List α → Prop
  | [] => False
  | [a] => T.tail a = true
  | a :: b :: l => T.tail a = false ∧ T.next a = b ∧ T.Linked (b :: l)

variable {T T' : LinkTable α} {l : List α} {a b k t : α}

theorem Linked.ne_nil (h : T.Linked l) : l ≠ [] := by
  rintro rfl
  exact h

theorem linked_singleton : T.Linked [a] ↔ T.tail a = true := Iff.rfl

/-- What is left of a list without its first entry. -/
theorem Linked.rest (h : T.Linked (a :: l)) (hl : l ≠ []) : T.Linked l := by
  cases l with
  | nil => exact absurd rfl hl
  | cons b l => exact h.2.2

theorem Linked.tail_head (h : T.Linked (a :: l)) : T.tail a = true ↔ l = [] := by
  cases l with
  | nil => exact ⟨fun _ => rfl, fun _ => h⟩
  | cons b l => simp [h.1]

theorem Linked.next_head (h : T.Linked (a :: b :: l)) : T.next a = b := h.2.1

/-- The lists are the same in a table with the same pointers and tails on their entries. -/
theorem Linked.congr (h : T.Linked l) (hnext : ∀ a ∈ l, T'.next a = T.next a)
    (htail : ∀ a ∈ l, T'.tail a = T.tail a) : T'.Linked l := by
  induction l with
  | nil => exact h
  | cons a l ih =>
    cases l with
    | nil => exact (htail a List.mem_cons_self).trans h
    | cons b l =>
      refine ⟨(htail a List.mem_cons_self).trans h.1, (hnext a List.mem_cons_self).trans h.2.1, ?_⟩
      exact ih h.2.2 (fun x hx => hnext x (List.mem_cons_of_mem a hx))
        fun x hx => htail x (List.mem_cons_of_mem a hx)

/-- A list has a tail. -/
theorem Linked.exists_tail (h : T.Linked l) : ∃ t ∈ l, T.tail t = true := by
  induction l with
  | nil => exact absurd h id
  | cons a l ih =>
    cases l with
    | nil => exact ⟨a, List.mem_cons_self, h⟩
    | cons b l =>
      obtain ⟨t, ht, htail⟩ := ih h.2.2
      exact ⟨t, List.mem_cons_of_mem a ht, htail⟩

/-- The tail of a list is its last entry. -/
theorem Linked.eq_getLast (h : T.Linked l) (ht : t ∈ l) (htail : T.tail t = true) :
    l.getLast? = some t := by
  induction l with
  | nil => exact absurd h id
  | cons a l ih =>
    cases l with
    | nil => simpa [eq_comm] using ht
    | cons b l =>
      rcases List.mem_cons.1 ht with rfl | ht
      · rw [h.1] at htail
        contradiction
      · rw [List.getLast?_cons_cons]
        exact ih h.2.2 ht

/-- A list has one tail only. -/
theorem Linked.tail_unique (h : T.Linked l) (ha : a ∈ l) (hb : b ∈ l) (hta : T.tail a = true)
    (htb : T.tail b = true) : a = b := by
  have hlast := h.eq_getLast ha hta
  rw [h.eq_getLast hb htb] at hlast
  exact (Option.some.inj hlast).symm

/-- An entry is added behind the tail. -/
theorem Linked.append [DecidableEq α] (h : T.Linked l) (hl : l.Nodup) (ht : t ∈ l) (htail : T.tail t = true)
    (hnext : ∀ a ∈ l, T'.next a = if a = t then k else T.next a)
    (htails : ∀ a ∈ l, T'.tail a = if a = t then false else T.tail a) (hk : T'.tail k = true) :
    T'.Linked (l ++ [k]) := by
  induction l with
  | nil => exact absurd h id
  | cons a l ih =>
    cases l with
    | nil =>
      obtain rfl : t = a := by simpa using ht
      have hn := hnext t List.mem_cons_self
      have htl := htails t List.mem_cons_self
      rw [if_pos rfl] at hn htl
      exact ⟨htl, hn, hk⟩
    | cons b l =>
      have hta : t ≠ a := by
        rintro rfl
        rw [h.1] at htail
        contradiction
      have ht' : t ∈ b :: l := (List.mem_cons.1 ht).resolve_left hta
      have hn := hnext a List.mem_cons_self
      have htl := htails a List.mem_cons_self
      rw [if_neg (Ne.symm hta)] at hn htl
      refine ⟨htl.trans h.1, hn.trans h.2.1, ?_⟩
      exact ih h.2.2 (List.nodup_cons.1 hl).2 ht'
        (fun x hx => hnext x (List.mem_cons_of_mem a hx))
        fun x hx => htails x (List.mem_cons_of_mem a hx)

/-! ## The lists of a table -/

/-- The valid entries are the lists of `S`, and all of them but `front` have their head flag. -/
structure Chains (T : LinkTable α) (S : Set (List α)) (front : List α) : Prop where
  linked : ∀ l ∈ S, T.Linked l
  nodup : ∀ l ∈ S, l.Nodup
  disjoint : ∀ l ∈ S, ∀ m ∈ S, ∀ a, a ∈ l → a ∈ m → l = m
  valid : ∀ a, T.valid a = true ↔ ∃ l ∈ S, a ∈ l
  front_mem : front = [] ∨ front ∈ S
  head : ∀ a, T.head a = true ↔ ∃ l ∈ S, l ≠ front ∧ l.head? = some a

namespace Chains

variable {S : Set (List α)} {front rest : List α} (h : T.Chains S front)
include h

/-- The list of a valid entry. -/
theorem exists_list (ha : T.valid a = true) : ∃ l ∈ S, a ∈ l := (h.valid a).1 ha

theorem valid_of_mem (hl : l ∈ S) (ha : a ∈ l) : T.valid a = true := (h.valid a).2 ⟨l, hl, ha⟩

theorem not_mem (ha : T.valid a = false) (hl : l ∈ S) : a ∉ l := by
  intro hmem
  rw [h.valid_of_mem hl hmem] at ha
  contradiction

/-- A head starts a list that is not being popped. -/
theorem list_of_head (ha : T.head a = true) : ∃ l, a :: l ∈ S ∧ a :: l ≠ front := by
  obtain ⟨l, hl, hne, hhead⟩ := (h.head a).1 ha
  cases l with
  | nil => exact absurd hhead (by simp)
  | cons b l =>
    obtain rfl : b = a := by simpa using hhead
    exact ⟨l, hl, hne⟩

theorem valid_of_head (ha : T.head a = true) : T.valid a = true := by
  obtain ⟨l, hl, -⟩ := h.list_of_head ha
  exact h.valid_of_mem hl List.mem_cons_self

theorem head_eq_false (ha : T.valid a = false) : T.head a = false := by
  by_contra hh
  rw [h.valid_of_head (by simpa using hh)] at ha
  contradiction

/-- An entry of the list being popped is not a head. -/
theorem head_eq_false_of_front (ha : a ∈ front) : T.head a = false := by
  by_contra hh
  obtain ⟨l, hl, hne⟩ := h.list_of_head (by simpa using hh)
  have hfront : front ∈ S := h.front_mem.resolve_left (by rintro rfl; simp at ha)
  exact hne (h.disjoint _ hl _ hfront a List.mem_cons_self ha)

end Chains

/-! ## Operations -/

/-- The lists with `m` in the place of `l`. -/
theorem mem_replace {S : Set (List α)} {l m x : List α} :
    x ∈ insert m (S \ {l}) ↔ x = m ∨ x ∈ S ∧ x ≠ l := by
  simp

section
variable [DecidableEq α]

/-- A new list with a single entry. -/
def alloc (T : LinkTable α) (k : α) : LinkTable α :=
  { T with
    valid := Function.update T.valid k true
    head := Function.update T.head k true
    tail := Function.update T.tail k true }

/-- A new entry behind the tail `t`. -/
def link (T : LinkTable α) (t k : α) : LinkTable α where
  next := Function.update T.next t k
  valid := Function.update T.valid k true
  head := T.head
  tail := Function.update (Function.update T.tail t false) k true

/-- The first entry of a list is taken. -/
def take (T : LinkTable α) (a : α) : LinkTable α :=
  { T with head := Function.update T.head a false }

/-- The entry that was taken is put back. -/
def putBack (T : LinkTable α) (a : α) : LinkTable α :=
  { T with head := Function.update T.head a true }

/-- The entry that was taken is freed. -/
def free (T : LinkTable α) (a : α) : LinkTable α :=
  { T with valid := Function.update T.valid a false }

namespace Chains

variable {S : Set (List α)} {front rest : List α} (h : T.Chains S front)
include h

theorem alloc (hk : T.valid k = false) : (T.alloc k).Chains (insert [k] S) front := by
  have hne : ∀ l ∈ S, ∀ a ∈ l, a ≠ k := by
    rintro l hl a ha rfl
    exact h.not_mem hk hl ha
  have htail : ∀ a, a ≠ k → (T.alloc k).tail a = T.tail a := fun a ha => by
    simp [LinkTable.alloc, ha]
  have hsingle : ∀ l ∈ S, k ∉ l := fun l hl hkl => hne l hl k hkl rfl
  constructor
  · rintro l (rfl | hl)
    · simp [LinkTable.alloc, linked_singleton]
    · exact (h.linked l hl).congr (fun _ _ => rfl) fun a ha => htail a (hne l hl a ha)
  · rintro l (rfl | hl)
    · exact List.nodup_singleton k
    · exact h.nodup l hl
  · rintro l (rfl | hl) m (rfl | hm) a ha hb
    · rfl
    · rw [List.mem_singleton] at ha
      exact absurd (ha ▸ hb) (hsingle m hm)
    · rw [List.mem_singleton] at hb
      exact absurd (hb ▸ ha) (hsingle l hl)
    · exact h.disjoint l hl m hm a ha hb
  · intro a
    by_cases ha : a = k
    · simp [LinkTable.alloc, ha]
    · simp [LinkTable.alloc, ha, h.valid]
  · exact h.front_mem.imp_right fun hf => Set.mem_insert_of_mem _ hf
  · intro a
    by_cases ha : a = k
    · subst ha
      have hfront : [a] ≠ front := by
        rintro rfl
        exact (h.front_mem.resolve_left (by simp)) |> fun hf => hsingle _ hf List.mem_cons_self
      simp only [LinkTable.alloc, Function.update_self, true_iff]
      exact ⟨[a], Set.mem_insert _ _, hfront, rfl⟩
    · simp only [LinkTable.alloc, Function.update_of_ne ha, h.head]
      constructor
      · rintro ⟨l, hl, hr⟩
        exact ⟨l, Set.mem_insert_of_mem _ hl, hr⟩
      · rintro ⟨l, rfl | hl, hne, hhead⟩
        · exact absurd hhead (by simpa using fun hka => ha hka.symm)
        · exact ⟨l, hl, hne, hhead⟩

theorem link (hl : l ∈ S) (hfront : l ≠ front) (ht : t ∈ l) (htail : T.tail t = true)
    (hk : T.valid k = false) : (T.link t k).Chains (insert (l ++ [k]) (S \ {l})) front := by
  have hne : ∀ m ∈ S, ∀ a ∈ m, a ≠ k := by
    rintro m hm a ha rfl
    exact h.not_mem hk hm ha
  have hother : ∀ m ∈ S, m ≠ l → ∀ a ∈ m, a ≠ t := by
    rintro m hm hml a ha rfl
    exact hml (h.disjoint m hm l hl a ha ht)
  constructor
  · intro m hm
    rcases mem_replace.1 hm with rfl | ⟨hm, hml⟩
    · refine (h.linked l hl).append (h.nodup l hl) ht htail (fun a _ => ?_) (fun a ha => ?_) ?_
      · simp [LinkTable.link, Function.update_apply]
      · simp [LinkTable.link, Function.update_apply, hne l hl a ha]
      · simp [LinkTable.link]
    · refine (h.linked m hm).congr (fun a ha => ?_) fun a ha => ?_
      · simp [LinkTable.link, hother m hm hml a ha]
      · simp [LinkTable.link, hother m hm hml a ha, hne m hm a ha]
  · intro m hm
    rcases mem_replace.1 hm with rfl | ⟨hm, -⟩
    · rw [List.nodup_append]
      refine ⟨h.nodup l hl, List.nodup_singleton k, fun a ha b hb => ?_⟩
      rw [List.mem_singleton.1 hb]
      exact hne l hl a ha
    · exact h.nodup m hm
  · intro m hm n hn a ha hb
    have hmem : ∀ x ∈ l ++ [k], x ∈ l ∨ x = k := fun x hx => by simpa using hx
    rcases mem_replace.1 hm with rfl | ⟨hmS, hml⟩ <;> rcases mem_replace.1 hn with rfl | ⟨hnS, hnl⟩
    · rfl
    · rcases hmem a ha with ha | rfl
      · exact absurd (h.disjoint n hnS l hl a hb ha) hnl
      · exact absurd rfl (hne n hnS a hb)
    · rcases hmem a hb with hb | rfl
      · exact absurd (h.disjoint m hmS l hl a ha hb) hml
      · exact absurd rfl (hne m hmS a ha)
    · exact h.disjoint m hmS n hnS a ha hb
  · intro a
    by_cases ha : a = k
    · subst ha
      simp only [LinkTable.link, Function.update_self, true_iff]
      exact ⟨l ++ [a], Set.mem_insert _ _, by simp⟩
    · simp only [LinkTable.link, Function.update_of_ne ha, h.valid]
      constructor
      · rintro ⟨m, hm, ham⟩
        by_cases hml : m = l
        · exact ⟨l ++ [k], Set.mem_insert _ _, by simp [← hml, ham]⟩
        · exact ⟨m, mem_replace.2 (.inr ⟨hm, hml⟩), ham⟩
      · rintro ⟨m, hm, ham⟩
        rcases mem_replace.1 hm with rfl | ⟨hm, -⟩
        · exact ⟨l, hl, by simpa [ha] using ham⟩
        · exact ⟨m, hm, ham⟩
  · exact h.front_mem.imp_right fun hf => mem_replace.2 (.inr ⟨hf, Ne.symm hfront⟩)
  · intro a
    have hhead : (l ++ [k]).head? = l.head? := by
      cases l with
      | nil => exact absurd (h.linked _ hl) id
      | cons b l => rfl
    have hfk : l ++ [k] ≠ front := by
      rintro rfl
      rcases h.front_mem with hnil | hf
      · simp at hnil
      · exact h.not_mem hk hf (by simp)
    have hT : (T.link t k).head a = T.head a := rfl
    rw [hT, h.head]
    constructor
    · rintro ⟨m, hm, hmf, ham⟩
      by_cases hml : m = l
      · exact ⟨l ++ [k], Set.mem_insert _ _, hfk, by rw [hhead, ← hml, ham]⟩
      · exact ⟨m, mem_replace.2 (.inr ⟨hm, hml⟩), hmf, ham⟩
    · rintro ⟨m, hm, hmf, ham⟩
      rcases mem_replace.1 hm with rfl | ⟨hm, -⟩
      · exact ⟨l, hl, hfront, by rw [← hhead, ham]⟩
      · exact ⟨m, hm, hmf, ham⟩

/-- The first entry of a list is taken, when none was. -/
theorem take (hfront : front = []) (hl : a :: l ∈ S) : (T.take a).Chains S (a :: l) := by
  refine ⟨?_, h.nodup, h.disjoint, h.valid, .inr hl, ?_⟩
  · exact fun m hm => (h.linked m hm).congr (fun _ _ => rfl) fun _ _ => rfl
  · intro b
    by_cases hb : b = a
    · subst hb
      simp only [LinkTable.take, Function.update_self, Bool.false_eq_true, false_iff]
      rintro ⟨m, hm, hne, hhead⟩
      exact hne (h.disjoint m hm _ hl b (List.mem_of_head? hhead) List.mem_cons_self)
    · simp only [LinkTable.take, Function.update_of_ne hb, h.head]
      constructor
      · rintro ⟨m, hm, -, hhead⟩
        refine ⟨m, hm, ?_, hhead⟩
        rintro rfl
        exact hb (by simpa [eq_comm] using hhead)
      · rintro ⟨m, hm, -, hhead⟩
        refine ⟨m, hm, ?_, hhead⟩
        rw [hfront]
        exact (h.linked m hm).ne_nil

/-- The list of the entry that was taken is a list like the others again. -/
theorem putBack (hfront : front = a :: l) : (T.putBack a).Chains S [] := by
  have hl : a :: l ∈ S := hfront ▸ h.front_mem.resolve_left (by simp [hfront])
  refine ⟨?_, h.nodup, h.disjoint, h.valid, .inl rfl, ?_⟩
  · exact fun m hm => (h.linked m hm).congr (fun _ _ => rfl) fun _ _ => rfl
  · intro b
    by_cases hb : b = a
    · subst hb
      simp only [LinkTable.putBack, Function.update_self, true_iff]
      exact ⟨b :: l, hl, by simp, rfl⟩
    · simp only [LinkTable.putBack, Function.update_of_ne hb, h.head]
      constructor
      · rintro ⟨m, hm, -, hhead⟩
        exact ⟨m, hm, (h.linked m hm).ne_nil, hhead⟩
      · rintro ⟨m, hm, -, hhead⟩
        refine ⟨m, hm, ?_, hhead⟩
        rintro rfl
        rw [hfront] at hhead
        exact hb (by simpa [eq_comm] using hhead)

/-- The entry that was taken is freed: the rest of its list is what is left. -/
theorem free (hfront : front = a :: rest) :
    (T.free a).Chains {m | (m ∈ S ∧ m ≠ front) ∨ (m = rest ∧ rest ≠ [])} rest := by
  have hl : front ∈ S := h.front_mem.resolve_left (by simp [hfront])
  have hnodup : (a :: rest).Nodup := hfront ▸ h.nodup front hl
  have ha_rest : a ∉ rest := (List.nodup_cons.1 hnodup).1
  have hsub : ∀ b ∈ rest, b ∈ front := fun b hb => hfront ▸ List.mem_cons_of_mem a hb
  have hother : ∀ m ∈ S, m ≠ front → ∀ b ∈ m, b ∉ front := fun m hm hne b hb hbf =>
    hne (h.disjoint m hm front hl b hb hbf)
  constructor
  · rintro m (⟨hm, -⟩ | ⟨rfl, hne⟩)
    · exact (h.linked m hm).congr (fun _ _ => rfl) fun _ _ => rfl
    · have hlink : T.Linked (a :: m) := hfront ▸ h.linked front hl
      exact (hlink.rest hne).congr (fun _ _ => rfl) fun _ _ => rfl
  · rintro m (⟨hm, -⟩ | ⟨rfl, -⟩)
    · exact h.nodup m hm
    · exact (List.nodup_cons.1 hnodup).2
  · rintro m (⟨hm, hmf⟩ | ⟨rfl, -⟩) n (⟨hn, hnf⟩ | ⟨rfl, -⟩) b hb hb'
    · exact h.disjoint m hm n hn b hb hb'
    · exact absurd (hsub b hb') (hother m hm hmf b hb)
    · exact absurd (hsub b hb) (hother n hn hnf b hb')
    · rfl
  · intro b
    by_cases hb : b = a
    · subst hb
      simp only [LinkTable.free, Function.update_self, Bool.false_eq_true, false_iff]
      rintro ⟨m, ⟨hm, hmf⟩ | ⟨rfl, -⟩, hbm⟩
      · exact hother m hm hmf b hbm (hfront ▸ List.mem_cons_self)
      · exact ha_rest hbm
    · simp only [LinkTable.free, Function.update_of_ne hb, h.valid]
      constructor
      · rintro ⟨m, hm, hbm⟩
        by_cases hmf : m = front
        · have hrest : b ∈ rest := by
            rw [hmf, hfront] at hbm
            exact (List.mem_cons.1 hbm).resolve_left hb
          exact ⟨rest, .inr ⟨rfl, List.ne_nil_of_mem hrest⟩, hrest⟩
        · exact ⟨m, .inl ⟨hm, hmf⟩, hbm⟩
      · rintro ⟨m, ⟨hm, -⟩ | ⟨rfl, -⟩, hbm⟩
        · exact ⟨m, hm, hbm⟩
        · exact ⟨front, hl, hsub b hbm⟩
  · by_cases hrest : rest = []
    · exact .inl hrest
    · exact .inr (.inr ⟨rfl, hrest⟩)
  · intro b
    have hT : (T.free a).head b = T.head b := rfl
    rw [hT, h.head]
    constructor
    · rintro ⟨m, hm, hmf, hhead⟩
      refine ⟨m, .inl ⟨hm, hmf⟩, ?_, hhead⟩
      rintro rfl
      exact hother m hm hmf b (List.mem_of_head? hhead) (hsub b (List.mem_of_head? hhead))
    · rintro ⟨m, ⟨hm, hmf⟩ | ⟨rfl, -⟩, hne, hhead⟩
      · exact ⟨m, hm, hmf, hhead⟩
      · exact absurd rfl hne

end Chains

end

/-! ## Lists by key

The entries of a list have the same key. Two lists have different keys, but for entries which stand
alone whatever their key. -/

structure Keyed {β : Type*} (key : α → β) (alone : α → Bool) (S : Set (List α)) : Prop where
  same : ∀ l ∈ S, ∀ a ∈ l, ∀ b ∈ l, key a = key b
  separate : ∀ l ∈ S, ∀ m ∈ S, l ≠ m → ∀ a ∈ l, ∀ b ∈ m, alone a = false → alone b = false →
    key a ≠ key b
  single : ∀ l ∈ S, ∀ a ∈ l, alone a = true → l = [a]

namespace Keyed

variable {β : Type*} {key key' : α → β} {alone alone' : α → Bool} {S : Set (List α)}

theorem congr (h : Keyed key alone S) (hkey : ∀ l ∈ S, ∀ a ∈ l, key' a = key a)
    (halone : ∀ l ∈ S, ∀ a ∈ l, alone' a = alone a) : Keyed key' alone' S := by
  refine ⟨fun l hl a ha b hb => ?_, fun l hl m hm hne a ha b hb hfa hfb => ?_, fun l hl a ha hf => ?_⟩
  · rw [hkey l hl a ha, hkey l hl b hb]
    exact h.same l hl a ha b hb
  · rw [halone l hl a ha] at hfa
    rw [halone m hm b hb] at hfb
    rw [hkey l hl a ha, hkey m hm b hb]
    exact h.separate l hl m hm hne a ha b hb hfa hfb
  · rw [halone l hl a ha] at hf
    exact h.single l hl a ha hf

/-- A new list with a key that no list has, or that stands alone. -/
theorem alloc (h : Keyed key alone S)
    (hnew : alone k = false → ∀ l ∈ S, ∀ a ∈ l, alone a = false → key a ≠ key k) :
    Keyed key alone (insert [k] S) := by
  constructor
  · rintro l (rfl | hl) a ha b hb
    · rw [List.mem_singleton.1 ha, List.mem_singleton.1 hb]
    · exact h.same l hl a ha b hb
  · rintro l (rfl | hl) m (rfl | hm) hne a ha b hb hfa hfb
    · exact absurd rfl hne
    · rw [List.mem_singleton] at ha
      subst ha
      exact (hnew hfa m hm b hb hfb).symm
    · rw [List.mem_singleton] at hb
      subst hb
      exact hnew hfb l hl a ha hfa
    · exact h.separate l hl m hm hne a ha b hb hfa hfb
  · rintro l (rfl | hl) a ha hf
    · rw [List.mem_singleton.1 ha]
    · exact h.single l hl a ha hf

/-- A new entry behind those with its key, when none stands alone. -/
theorem link (h : Keyed key alone S) (hl : l ∈ S) (ht : t ∈ l) (hkey : key t = key k)
    (hk : alone k = false) (hnone : ∀ m ∈ S, ∀ a ∈ m, alone a = false) :
    Keyed key alone (insert (l ++ [k]) (S \ {l})) := by
  have hmem : ∀ x ∈ l ++ [k], key x = key k ∧ alone x = false := by
    intro x hx
    rcases List.mem_append.1 hx with hx | hx
    · exact ⟨(h.same l hl x hx t ht).trans hkey, hnone l hl x hx⟩
    · rw [List.mem_singleton.1 hx]
      exact ⟨rfl, hk⟩
  have hother : ∀ m ∈ S, m ≠ l → ∀ b ∈ m, key b ≠ key k := by
    intro m hm hml b hb
    rw [← hkey]
    exact h.separate m hm l hl hml b hb t ht (hnone m hm b hb) (hnone l hl t ht)
  constructor
  · intro m hm a ha b hb
    rcases mem_replace.1 hm with rfl | ⟨hm, -⟩
    · rw [(hmem a ha).1, (hmem b hb).1]
    · exact h.same m hm a ha b hb
  · intro m hm n hn hne a ha b hb hfa hfb
    rcases mem_replace.1 hm with rfl | ⟨hmS, hml⟩ <;> rcases mem_replace.1 hn with rfl | ⟨hnS, hnl⟩
    · exact absurd rfl hne
    · rw [(hmem a ha).1]
      exact (hother n hnS hnl b hb).symm
    · rw [(hmem b hb).1]
      exact hother m hmS hml a ha
    · exact h.separate m hmS n hnS hne a ha b hb hfa hfb
  · intro m hm a ha hf
    rcases mem_replace.1 hm with rfl | ⟨hm, -⟩
    · rw [(hmem a ha).2] at hf
      contradiction
    · exact h.single m hm a ha hf

/-- The rest of a list keeps its key. -/
theorem rest {front rest : List α} (h : Keyed key alone S) (hfront : front ∈ S)
    (hcons : front = a :: rest) :
    Keyed key alone {m | (m ∈ S ∧ m ≠ front) ∨ (m = rest ∧ rest ≠ [])} := by
  have hsub : ∀ b ∈ rest, b ∈ front := fun b hb => hcons ▸ List.mem_cons_of_mem a hb
  constructor
  · rintro m (⟨hm, -⟩ | ⟨rfl, -⟩) b hb d hd
    · exact h.same m hm b hb d hd
    · exact h.same front hfront b (hsub b hb) d (hsub d hd)
  · rintro m (⟨hm, hmf⟩ | ⟨rfl, -⟩) n (⟨hn, hnf⟩ | ⟨rfl, -⟩) hne b hb d hd hfb hfd
    · exact h.separate m hm n hn hne b hb d hd hfb hfd
    · exact h.separate m hm front hfront hmf b hb d (hsub d hd) hfb hfd
    · exact h.separate front hfront n hn hnf.symm b (hsub b hb) d hd hfb hfd
    · exact absurd rfl hne
  · rintro m (⟨hm, -⟩ | ⟨rfl, hne⟩) b hb hf
    · exact h.single m hm b hb hf
    · have hsing := h.single front hfront b (hsub b hb) hf
      rw [hcons, List.cons.injEq] at hsing
      exact absurd hsing.2 hne

end Keyed

end LinkTable

end Hw
