import Mathlib.Data.List.Basic
import Mathlib.Tactic.Common

/-!
# Width-converting buffers

A buffer between a producer of words of one width and a consumer of words of another. A slot is
filled by some writes and emptied by some reads; one of the two numbers is one. What the buffer
holds is a stream of units, which both sides cut in words.

* `Resize.content_step` — a write adds its units at the end of the stream, and a read takes the
  first ones.
* `Resize.rdata_eq` — what is read is the beginning of the stream.
* `Resize.wok_of_le` — the buffer accepts a word when the stream leaves room for one.
-/

namespace Hw

variable {α : Type*}

/-- The units of a word. -/
def units (n : Nat) (f : Nat → α) : List α := (List.range n).map f

/-- Words of `n` units one after the other. -/
def concat [Inhabited α] (n : Nat) (ws : List (Nat → α)) (a : Nat) : α :=
  ws.getD (a / n) (fun _ => default) (a % n)

/-- The parameters of a buffer: its slots, the words that are written in a slot and read from it,
and the units of these words. -/
structure ResizeCfg where
  depth : Nat
  wr : Nat
  rd : Nat
  wrWidth : Nat
  rdWidth : Nat
  wr_pos : 0 < wr
  rd_pos : 0 < rd
  wrWidth_pos : 0 < wrWidth
  rdWidth_pos : 0 < rdWidth
  slot_eq : wr * wrWidth = rd * rdWidth
  one : wr = 1 ∨ rd = 1

/-- A slot, with the reads left after the next one. -/
structure Slot (α : Type*) where
  words : List (Nat → α)
  left : Nat

structure Resize (α : Type*) where
  slots : List (Slot α)
  /-- The words of the slot being filled. -/
  part : List (Nat → α)

section
variable {n : Nat}

@[simp] theorem length_units (f : Nat → α) : (units n f).length = n := by
  simp [units]

theorem units_getElem? {f : Nat → α} {a : Nat} (h : a < n) : (units n f)[a]? = some (f a) := by
  simp [units, h]

theorem units_congr {f g : Nat → α} (h : ∀ a < n, f a = g a) : units n f = units n g := by
  apply List.map_congr_left
  intro a ha
  exact h a (List.mem_range.1 ha)

theorem units_add (m : Nat) (f : Nat → α) :
    units (n + m) f = units n f ++ units m fun a => f (n + a) := by
  simp [units, List.range_add, Function.comp_def]

theorem units_mul (m k : Nat) (f : Nat → α) :
    units (m * k) f = (List.range m).flatMap fun j => units k fun b => f (j * k + b) := by
  induction m with
  | zero => rw [Nat.zero_mul]; rfl
  | succ m ih =>
    rw [List.range_succ, List.flatMap_append, ← ih, List.flatMap_singleton, Nat.add_mul, Nat.one_mul,
      units_add]

/-- Words of one width that begin a stream are the first ones of it. -/
theorem prefix_of_flatten {l l' : List (List α)} (hn : 0 < n) (hl : ∀ x ∈ l, x.length = n)
    (hl' : ∀ x ∈ l', x.length = n) (h : l.flatten <+: l'.flatten) : l <+: l' := by
  induction l generalizing l' with
  | nil => exact List.nil_prefix
  | cons x l ih =>
    obtain ⟨rest, hrest⟩ := h
    have hx := hl x List.mem_cons_self
    cases l' with
    | nil =>
      have hlen := congrArg List.length hrest
      simp only [List.flatten_cons, List.flatten_nil, List.length_append, List.length_nil, hx] at hlen
      omega
    | cons y l' =>
      have hy := hl' y List.mem_cons_self
      rw [List.flatten_cons, List.flatten_cons, List.append_assoc] at hrest
      obtain ⟨hxy, htail⟩ := List.append_inj hrest (hx.trans hy.symm)
      rw [hxy, List.prefix_cons_inj]
      exact ih (fun z hz => hl z (List.mem_cons_of_mem x hz))
        (fun z hz => hl' z (List.mem_cons_of_mem y hz)) ⟨rest, htail⟩

theorem length_flatMap_units (ws : List (Nat → α)) :
    (ws.flatMap (units n)).length = ws.length * n := by
  induction ws with
  | nil => simp
  | cons w ws ih => rw [List.flatMap_cons, List.length_append, ih, length_units, List.length_cons,
      Nat.add_mul, Nat.one_mul, Nat.add_comm]

/-- A list of words is the units of their concatenation. -/
theorem units_concat [Inhabited α] (hn : 0 < n) (ws : List (Nat → α)) :
    units (ws.length * n) (concat n ws) = ws.flatMap (units n) := by
  induction ws with
  | nil => simp [units]
  | cons w ws ih =>
    have hlen : (w :: ws).length * n = n + ws.length * n := by
      rw [List.length_cons, Nat.add_mul, Nat.one_mul, Nat.add_comm]
    rw [hlen, units_add, List.flatMap_cons, ← ih]
    congr 1
    · apply units_congr
      intro a ha
      simp [concat, Nat.div_eq_of_lt ha, Nat.mod_eq_of_lt ha]
    · apply units_congr
      intro a _
      simp [concat, Nat.add_div_left a hn]

end

namespace Slot

variable [Inhabited α] (k : ResizeCfg) (s : Slot α)

/-- The next word to read. -/
def data : Nat → α := fun b => concat k.wrWidth s.words ((k.rd - 1 - s.left) * k.rdWidth + b)

/-- The units left in the slot. -/
def content : List α := units ((s.left + 1) * k.rdWidth) (s.data k)

variable {k s}

theorem content_of_full (hw : s.words.length = k.wr) (hl : s.left = k.rd - 1) :
    s.content k = s.words.flatMap (units k.wrWidth) := by
  have hsize : (s.left + 1) * k.rdWidth = s.words.length * k.wrWidth := by
    rw [hl, hw, k.slot_eq, Nat.sub_add_cancel k.rd_pos]
  rw [← units_concat k.wrWidth_pos, content, hsize]
  apply units_congr
  intro a _
  simp [data, hl]

theorem content_last (hl : s.left = 0) : s.content k = units k.rdWidth (s.data k) := by
  simp [content, hl]

/-- A read that is not the last of the slot takes its first units. -/
theorem content_next (h0 : s.left ≠ 0) (hlt : s.left < k.rd) :
    s.content k = units k.rdWidth (s.data k) ++ content k { s with left := s.left - 1 } := by
  have hsize : (s.left + 1) * k.rdWidth = k.rdWidth + (s.left - 1 + 1) * k.rdWidth := by
    rw [Nat.sub_add_cancel (Nat.pos_of_ne_zero h0), Nat.add_mul, Nat.one_mul, Nat.add_comm]
  rw [content, hsize, units_add]
  congr 1
  apply units_congr
  intro a _
  have hidx : k.rd - 1 - (s.left - 1) = k.rd - 1 - s.left + 1 := by omega
  simp only [data, hidx, Nat.add_mul, Nat.one_mul]
  rw [Nat.add_assoc]

theorem length_content : (s.content k).length = (s.left + 1) * k.rdWidth := length_units _

end Slot

namespace Resize

variable (k : ResizeCfg) (q : Resize α)

def empty : Resize α := ⟨[], []⟩

def wok : Bool := decide (q.slots.length < k.depth)

def rok : Bool := !q.slots.isEmpty

/-- The slots after a read. -/
def read (slots : List (Slot α)) (r : Bool) : List (Slot α) :=
  match slots with
  | [] => []
  | s :: rest =>
    if r then (if s.left = 0 then rest else { s with left := s.left - 1 } :: rest) else s :: rest

/-- A slot is ready to be read when it is full, or with the last word of a packet. -/
def step (w wlast : Bool) (data : Nat → α) (r : Bool) : Resize α :=
  let last := decide (q.part.length + 1 = k.wr) || wlast
  if w && q.wok k then
    if last then ⟨read q.slots r ++ [⟨q.part ++ [data], k.rd - 1⟩], []⟩
    else ⟨read q.slots r, q.part ++ [data]⟩
  else ⟨read q.slots r, q.part⟩

/-- Every slot is full, the one being filled is not, and only the first one has been read. -/
structure Wf : Prop where
  words : ∀ s ∈ q.slots, s.words.length = k.wr
  left : ∀ s ∈ q.slots, s.left < k.rd
  unread : ∀ s ∈ q.slots.tail, s.left = k.rd - 1
  part : q.part.length < k.wr

/-- The words written in the slots and in the one being filled. -/
def written : Nat := q.slots.length * k.wr + q.part.length

variable {k q} {w l r : Bool} {x : Nat → α}

theorem wf_empty : (empty : Resize α).Wf k := ⟨nofun, nofun, nofun, k.wr_pos⟩

theorem mem_read {slots : List (Slot α)} {s : Slot α} (h : s ∈ read slots r) :
    ∃ t ∈ slots, s.words = t.words ∧ s.left ≤ t.left := by
  cases slots with
  | nil => exact absurd h List.not_mem_nil
  | cons t rest =>
    have hkeep : s ∈ rest → ∃ u ∈ t :: rest, s.words = u.words ∧ s.left ≤ u.left :=
      fun hs => ⟨s, List.mem_cons_of_mem t hs, rfl, Nat.le_refl _⟩
    cases r with
    | false => exact ⟨s, h, rfl, Nat.le_refl _⟩
    | true =>
      simp only [read, if_true] at h
      by_cases h0 : t.left = 0
      · rw [if_pos h0] at h
        exact hkeep h
      · rw [if_neg h0] at h
        rcases List.mem_cons.1 h with rfl | hs
        · exact ⟨t, List.mem_cons_self, rfl, Nat.sub_le _ _⟩
        · exact hkeep hs

theorem mem_tail_read {slots : List (Slot α)} {s : Slot α} (h : s ∈ (read slots r).tail) :
    s ∈ slots.tail := by
  cases slots with
  | nil => exact h
  | cons t rest =>
    cases r with
    | false => exact h
    | true =>
      simp only [read, if_true] at h
      by_cases h0 : t.left = 0
      · rw [if_pos h0] at h
        exact List.mem_of_mem_tail h
      · rw [if_neg h0] at h
        exact h

/-- A slot that is closed is full. -/
theorem length_closed (hlast : l = true → q.part.length + 1 = k.wr)
    (hl : (decide (q.part.length + 1 = k.wr) || l) = true) : (q.part ++ [x]).length = k.wr := by
  rw [List.length_append, List.length_singleton]
  simp only [Bool.or_eq_true, decide_eq_true_eq] at hl
  exact hl.elim id hlast

theorem Wf.step (h : q.Wf k) (hlast : w = true → l = true → q.part.length + 1 = k.wr) :
    (q.step k w l x r).Wf k := by
  have hwords : ∀ s ∈ read q.slots r, s.words.length = k.wr := by
    intro s hs
    obtain ⟨t, ht, heq, -⟩ := mem_read hs
    rw [heq]
    exact h.words t ht
  have hleft : ∀ s ∈ read q.slots r, s.left < k.rd := by
    intro s hs
    obtain ⟨t, ht, -, hle⟩ := mem_read hs
    exact Nat.lt_of_le_of_lt hle (h.left t ht)
  have hunread : ∀ s ∈ (read q.slots r).tail, s.left = k.rd - 1 :=
    fun s hs => h.unread s (mem_tail_read hs)
  unfold Resize.step
  by_cases hw : (w && q.wok k) = true
  · rw [if_pos hw]
    by_cases hl : (decide (q.part.length + 1 = k.wr) || l) = true
    · rw [if_pos hl]
      refine ⟨?_, ?_, ?_, k.wr_pos⟩
      · intro s hs
        rcases List.mem_append.1 hs with hs | hs
        · exact hwords s hs
        · rw [List.mem_singleton.1 hs]
          exact length_closed (hlast (Bool.and_eq_true_iff.1 hw).1) hl
      · intro s hs
        rcases List.mem_append.1 hs with hs | hs
        · exact hleft s hs
        · rw [List.mem_singleton.1 hs]
          exact Nat.sub_lt k.rd_pos Nat.one_pos
      · intro s hs
        have hs' : s ∈ (read q.slots r).tail ∨ s = ⟨q.part ++ [x], k.rd - 1⟩ := by
          cases hread : read q.slots r with
          | nil => simp [hread] at hs
          | cons t rest => simpa [hread] using hs
        rcases hs' with hs' | rfl
        · exact hunread s hs'
        · rfl
    · rw [if_neg hl]
      refine ⟨hwords, hleft, hunread, ?_⟩
      simp only [Bool.or_eq_true, decide_eq_true_eq, not_or] at hl
      have := h.part
      simp only [List.length_append, List.length_singleton]
      omega
  · rw [if_neg hw]
    exact ⟨hwords, hleft, hunread, h.part⟩

/-- The words in the slot being filled. -/
theorem part_step (h : q.Wf k) (hlast : w = true → l = true → q.part.length + 1 = k.wr) :
    (q.step k w l x r).part.length =
      if w && q.wok k then (q.part.length + 1) % k.wr else q.part.length := by
  unfold step
  by_cases hw : (w && q.wok k) = true
  · rw [if_pos hw, if_pos hw]
    by_cases hl : (decide (q.part.length + 1 = k.wr) || l) = true
    · have hfull : q.part.length + 1 = k.wr := by
        simpa using length_closed (x := x) (hlast (Bool.and_eq_true_iff.1 hw).1) hl
      rw [if_pos hl, hfull, Nat.mod_self]
      rfl
    · rw [if_neg hl]
      simp only [Bool.or_eq_true, decide_eq_true_eq, not_or] at hl
      have := h.part
      rw [List.length_append, List.length_singleton, Nat.mod_eq_of_lt (by omega)]
  · rw [if_neg hw, if_neg hw]

/-- A write that is accepted counts for one. -/
theorem written_step (hlast : l = true → q.part.length + 1 = k.wr) (hw : w = true)
    (hok : q.wok k = true) : (q.step k w l x false).written k = q.written k + 1 := by
  have hread : read q.slots false = q.slots := by cases q.slots <;> rfl
  unfold step
  rw [hw, hok, Bool.and_self, if_pos rfl, hread]
  by_cases hl : (decide (q.part.length + 1 = k.wr) || l) = true
  · have hfull : q.part.length + 1 = k.wr := by simpa using length_closed (x := x) hlast hl
    rw [if_pos hl]
    simp only [written, List.length_append, List.length_singleton, List.length_nil, Nat.add_mul,
      Nat.one_mul]
    omega
  · rw [if_neg hl]
    simp only [written, List.length_append, List.length_singleton]
    omega

/-- The buffer that has taken as many words as it has room for refuses the next one. -/
theorem wok_iff_written (h : q.Wf k) (hle : q.written k ≤ k.depth * k.wr) :
    q.wok k = true ↔ q.written k < k.depth * k.wr := by
  have hpart := h.part
  rw [wok, decide_eq_true_eq]
  unfold written at hle ⊢
  constructor
  · intro hlt
    have hmul : (q.slots.length + 1) * k.wr ≤ k.depth * k.wr := Nat.mul_le_mul_right _ hlt
    rw [Nat.add_mul, Nat.one_mul] at hmul
    omega
  · intro hlt
    by_contra hge
    have hmul : k.depth * k.wr ≤ q.slots.length * k.wr := Nat.mul_le_mul_right _ (Nat.le_of_not_lt hge)
    omega

variable [Inhabited α]

/-- The word to read, arbitrary when there is none. -/
def rdata (k : ResizeCfg) (q : Resize α) : Nat → α :=
  match q.slots with
  | [] => fun _ => default
  | s :: _ => s.data k

/-- The units held, oldest first. -/
def content (k : ResizeCfg) (q : Resize α) : List α :=
  q.slots.flatMap (Slot.content k) ++ q.part.flatMap (units k.wrWidth)

@[simp] theorem content_empty : (empty : Resize α).content k = [] := rfl

/-- A read takes the first units. -/
theorem content_read (h : q.Wf k) :
    (read q.slots r).flatMap (Slot.content k) =
      (q.slots.flatMap (Slot.content k)).drop (if r && q.rok then k.rdWidth else 0) := by
  cases hs : q.slots with
  | nil => simp [read]
  | cons s rest =>
    have hrok : q.rok = true := by simp [rok, hs]
    have hlt : s.left < k.rd := h.left s (by simp [hs])
    cases r with
    | false => simp [read]
    | true =>
      have hlen : (units k.rdWidth (s.data k)).length = k.rdWidth := length_units _
      simp only [read, hrok, Bool.and_self, if_true, List.flatMap_cons]
      by_cases h0 : s.left = 0
      · rw [if_pos h0, Slot.content_last h0, List.drop_append_of_le_length (by omega)]
        simp [hlen]
      · rw [if_neg h0, List.flatMap_cons, Slot.content_next h0 hlt, List.append_assoc,
          List.drop_append_of_le_length (by omega)]
        simp [hlen]

theorem rdWidth_le_length (hr : q.rok = true) :
    k.rdWidth ≤ (q.slots.flatMap (Slot.content k)).length := by
  cases hs : q.slots with
  | nil => simp [rok, hs] at hr
  | cons s rest =>
    rw [List.flatMap_cons, List.length_append, Slot.length_content, Nat.add_mul, Nat.one_mul]
    omega

/-- **Writes and reads on the stream.** -/
theorem content_step (h : q.Wf k)
    (hlast : w = true → l = true → q.part.length + 1 = k.wr) :
    (q.step k w l x r).content k =
      (q.content k).drop (if r && q.rok then k.rdWidth else 0) ++
        (if w && q.wok k then units k.wrWidth x else []) := by
  have hdrop : (q.content k).drop (if r && q.rok then k.rdWidth else 0) =
      (read q.slots r).flatMap (Slot.content k) ++ q.part.flatMap (units k.wrWidth) := by
    rw [content_read h, content, List.drop_append_of_le_length]
    split_ifs with hr
    · rw [Bool.and_eq_true] at hr
      exact rdWidth_le_length hr.2
    · exact Nat.zero_le _
  rw [hdrop]
  unfold step
  by_cases hw : (w && q.wok k) = true
  · rw [if_pos hw, if_pos hw]
    by_cases hl : (decide (q.part.length + 1 = k.wr) || l) = true
    · have hslot : Slot.content k ⟨q.part ++ [x], k.rd - 1⟩ =
          (q.part ++ [x]).flatMap (units k.wrWidth) :=
        Slot.content_of_full (length_closed (hlast (Bool.and_eq_true_iff.1 hw).1) hl) rfl
      rw [if_pos hl]
      simp [content, hslot]
    · rw [if_neg hl]
      simp [content]
  · rw [if_neg hw, if_neg hw]
    simp [content]

/-- What is read is the beginning of the stream. -/
theorem rdata_eq {b : Nat} (hr : q.rok = true) (hb : b < k.rdWidth) :
    (q.content k)[b]? = some (q.rdata k b) := by
  cases hs : q.slots with
  | nil => simp [rok, hs] at hr
  | cons s rest =>
    have hlt : b < (s.content k).length := by
      rw [Slot.length_content, Nat.add_mul, Nat.one_mul]
      omega
    simp only [content, rdata, hs, List.flatMap_cons, List.append_assoc]
    rw [List.getElem?_append_left hlt, Slot.content, units_getElem?]
    rwa [Slot.length_content] at hlt

/-! ## Occupancy -/

/-- The slots but the first one are whole. -/
theorem slots_le (h : q.Wf k) (hr : q.rok = true) :
    (q.slots.length - 1) * (k.wr * k.wrWidth) + k.rdWidth + q.part.length * k.wrWidth ≤
      (q.content k).length := by
  have hlen : ∀ slots : List (Slot α), (∀ s ∈ slots, s.left = k.rd - 1) →
      (slots.flatMap (Slot.content k)).length = slots.length * (k.wr * k.wrWidth) := by
    intro slots hs
    induction slots with
    | nil => simp
    | cons s rest ih =>
      have hsize : (s.left + 1) * k.rdWidth = k.wr * k.wrWidth := by
        rw [hs s List.mem_cons_self, Nat.sub_add_cancel k.rd_pos, k.slot_eq]
      rw [List.flatMap_cons, List.length_append, Slot.length_content, hsize,
        ih fun t ht => hs t (List.mem_cons_of_mem s ht), List.length_cons, Nat.add_mul, Nat.one_mul,
        Nat.add_comm]
  cases hs : q.slots with
  | nil => simp [rok, hs] at hr
  | cons s rest =>
    have htail : ∀ t ∈ rest, t.left = k.rd - 1 := by
      intro t ht
      exact h.unread t (by simpa [hs] using ht)
    rw [content, hs, List.length_append, length_flatMap_units, List.flatMap_cons,
      List.length_append, hlen rest htail, Slot.length_content, List.length_cons,
      Nat.add_sub_cancel, Nat.add_mul, Nat.one_mul]
    omega

/-- A stream with a whole word to read has a slot. -/
theorem rok_of_le (h : q.Wf k) (hle : k.rdWidth ≤ (q.content k).length) : q.rok = true := by
  by_contra hr
  have hnil : q.slots = [] := by
    cases hs : q.slots with
    | nil => rfl
    | cons s rest => simp [rok, hs] at hr
  have hlen : (q.content k).length = q.part.length * k.wrWidth := by
    rw [content, hnil, List.flatMap_nil, List.nil_append, length_flatMap_units]
  have hpart := h.part
  have hrd := k.rdWidth_pos
  rcases k.one with hone | hone
  · have hzero : q.part.length = 0 := by omega
    rw [hlen, hzero] at hle
    omega
  · have hslot : k.rdWidth = k.wr * k.wrWidth := by rw [k.slot_eq, hone, Nat.one_mul]
    have hlt : q.part.length * k.wrWidth < k.wr * k.wrWidth :=
      Nat.mul_lt_mul_of_pos_right hpart k.wrWidth_pos
    omega

/-- The buffer accepts a word when the stream leaves room for one. -/
theorem wok_of_le (h : q.Wf k)
    (hle : (q.content k).length + k.wrWidth ≤ k.depth * (k.wr * k.wrWidth)) : q.wok k = true := by
  have hpos := k.wrWidth_pos
  have hslot : 0 < k.wr * k.wrWidth := Nat.mul_pos k.wr_pos hpos
  rw [wok, decide_eq_true_eq]
  by_cases hr : q.rok = true
  · have hslots := slots_le h hr
    have hlen : 0 < q.slots.length := by
      rw [List.length_pos_iff]
      intro hnil
      simp [rok, hnil] at hr
    by_contra hge
    have hmul : k.depth * (k.wr * k.wrWidth) ≤ q.slots.length * (k.wr * k.wrWidth) :=
      Nat.mul_le_mul_right _ (Nat.le_of_not_lt hge)
    have hpred : (q.slots.length - 1) * (k.wr * k.wrWidth) + k.wr * k.wrWidth =
        q.slots.length * (k.wr * k.wrWidth) := by
      rw [← Nat.succ_mul, Nat.succ_eq_add_one, Nat.sub_add_cancel hlen]
    have hrd := k.rdWidth_pos
    rcases k.one with hone | hone
    · have hw : k.wr * k.wrWidth = k.wrWidth := by rw [hone, Nat.one_mul]
      omega
    · have hw : k.rdWidth = k.wr * k.wrWidth := by rw [k.slot_eq, hone, Nat.one_mul]
      omega
  · have hnil : q.slots = [] := by
      cases hs : q.slots with
      | nil => rfl
      | cons s rest => simp [rok, hs] at hr
    rw [hnil, List.length_nil]
    by_contra hzero
    have hdepth : k.depth = 0 := by omega
    rw [hdepth, Nat.zero_mul] at hle
    omega

end Resize

end Hw
