import Hpdcache.HwpfStream

/-!
# The prefetches in flight

The counter of the requests of an engine of `hwpf_stride` that wait for their response, and the
limit that the throttle puts on it.

**The limit.** It is tested on the register, in the cycle of a grant, before the request of that
cycle is counted. Without a wait between the requests an engine that reaches the limit sends one
request more, unless a response comes in the same cycle.

* `Stride.Overruns` — the engine sends a request at the limit, and no response comes.
* `Flight.Inv.step` — but for that, the counter is the number of requests in flight, and in the
  limit.
* `Flight.inflight_iff` — it is so in a run exactly when the engine never overruns.
* `Flight.not_overruns_of_nwait` — an engine that waits between its requests never does.
-/

namespace Hpdcache

open Hw

namespace Stride

variable {h : HwpfCfg}

/-- A request is taken at the limit, and no response comes. -/
def Overruns (e : Stride h) (i : StrideIn) : Prop :=
  e.stateQ = .sendReq ∧ i.reqReady = true ∧ e.isInflightMax = true ∧ i.rspValid = false

instance (e : Stride h) (i : StrideIn) : Decidable (e.Overruns i) :=
  inferInstanceAs (Decidable (_ ∧ _))

/-- The engine ends its requests. -/
def ending (e : Stride h) : Bool := decide (e.stateQ = .done ∨ e.stateQ = .abort)

/-! ## The cycles -/

section
variable {e : Stride h} {i : StrideIn}

/-- The engine is not enabled, or has seen no match. -/
def resting (s : StrideFsm) : Prop := s = .idle ∨ s = .snoop

/-- The transitions of the engine, with what their guards say of the requests in flight. -/
inductive Moves (e : Stride h) (i : StrideIn) : StrideFsm → StrideFsm → Prop
  | rest : Moves e i .idle .idle
  | enable : Moves e i .idle .snoop
  | watch : Moves e i .snoop .snoop
  | disable : Moves e i .snoop .idle
  | start : Moves e i .snoop .sendReq
  | hold (hr : i.reqReady = false) : Moves e i .sendReq .sendReq
  | next (hn : e.shadowThrottleQ.nwait = 0) : Moves e i .sendReq .sendReq
  | throttle : Moves e i .sendReq .wait
  | last : Moves e i .sendReq .done
  | cut : Moves e i .sendReq .abort
  | wait : Moves e i .wait .wait
  | resume (hm : e.isInflightMax = false) : Moves e i .wait .sendReq
  | giveUp : Moves e i .wait .abort
  | drain : Moves e i .done .done
  | rearm (h0 : e.inflightCntQ = 0) : Moves e i .done .snoop
  | complete (h0 : e.inflightCntQ = 0) : Moves e i .done .idle
  | stop : Moves e i .done .abort
  | flush : Moves e i .abort .abort
  | aborted (h0 : e.inflightCntQ = 0) : Moves e i .abort .idle

theorem moves_step : Moves e i e.stateQ (e.step i).stateQ := by
  show Moves e i e.stateQ (e.comb i).stateD
  cases hs : e.stateQ with
  | idle =>
    simp only [comb, hs, combIdle, default]
    split_ifs
    · exact .enable
    · exact .rest
    · exact .rest
  | snoop =>
    simp only [comb, hs, combSnoop, default]
    split_ifs
    · exact .start
    · exact .start
    · exact .watch
    · exact .disable
  | sendReq =>
    simp only [comb, hs, combSendReq, default]
    cases hr : i.reqReady with
    | false => exact .hold hr
    | true =>
      cases hen : e.csrBaseQ.enable with
      | false => exact .cut
      | true =>
        by_cases hl : e.nblocksCntQ = 0 ∧ e.nlinesCntQ = 0
        · simp only [if_pos hl]
          exact .last
        · by_cases hn : e.shadowThrottleQ.nwait = 0
          · simp only [if_neg hl, if_pos hn]
            cases hm : e.isInflightMax with
            | true => exact .throttle
            | false => exact .next hn
          · simp only [if_neg hl, if_neg hn]
            exact .throttle
  | wait =>
    simp only [comb, hs, combWait, default]
    split_ifs with hen hm
    · rw [Bool.and_eq_true, Bool.not_eq_true'] at hm
      exact .resume hm.1
    · exact .wait
    · exact .giveUp
  | done =>
    simp only [comb, hs, combDone, default]
    cases hen : e.csrBaseQ.enable with
    | false => exact .stop
    | true =>
      cases hd : (decide (e.inflightCntQ = 0) && !e.isInflightMax && decide (e.nwaitCntQ = 0)) with
      | false => exact .drain
      | true =>
        rw [Bool.and_eq_true, Bool.and_eq_true, decide_eq_true_eq] at hd
        obtain ⟨⟨h0, -⟩, -⟩ := hd
        cases hb : e.shadowBaseQ with
        | mk base cycle rearm enable =>
          cases rearm with
          | true => exact .rearm h0
          | false => exact .complete h0
  | abort =>
    simp only [comb, hs, combAbort, default]
    split_ifs with h0
    · exact .aborted h0
    · exact .flush

theorem inflightCntQ_step : (e.step i).inflightCntQ =
    e.inflightD (decide (e.stateQ = .sendReq) && i.reqReady) i := by
  rw [← (signals_comb e i).inflightInc]
  rfl

/-- The throttle is read when the engine starts to look for a match. -/
theorem throttle_step (hs : e.stateQ ≠ .idle) : (e.step i).shadowThrottleQ = e.shadowThrottleQ := by
  show (e.comb i).shadowThrottleD = _
  cases hse : e.stateQ with
  | idle => exact absurd hse hs
  | snoop => simp only [comb, hse, combSnoop]; split_ifs <;> rfl
  | sendReq => simp only [comb, hse, combSendReq]; split_ifs <;> rfl
  | wait => simp only [comb, hse, combWait]; split_ifs <;> rfl
  | done => simp only [comb, hse, combDone]; split_ifs <;> rfl
  | abort => simp only [comb, hse, combAbort]; split_ifs <;> rfl

theorem idle_step (hs : e.stateQ = .idle) :
    (e.step i).stateQ = .idle ∨
      (e.step i).stateQ = .snoop ∧ (e.step i).shadowThrottleQ = e.csrThrottleQ := by
  show (e.comb i).stateD = _ ∨ (e.comb i).stateD = _ ∧ (e.comb i).shadowThrottleD = _
  simp only [comb, hs, combIdle]
  split_ifs
  · exact Or.inr ⟨rfl, rfl⟩
  · exact Or.inl hs
  · exact Or.inl hs

/-- The engine rests again when no request is in flight. -/
theorem resting_step (hw : resting (e.step i).stateQ) :
    resting e.stateQ ∨ e.ending = true ∧ e.inflightCntQ = 0 := by
  have hm := moves_step (e := e) (i := i)
  unfold ending
  generalize e.stateQ = s, (e.step i).stateQ = s' at hm hw ⊢
  cases hm with
  | rest | enable => exact Or.inl (Or.inl rfl)
  | watch | disable | start => exact Or.inl (Or.inr rfl)
  | rearm h0 | complete h0 | aborted h0 => exact Or.inr ⟨rfl, h0⟩
  -- no other transition ends at rest
  | _ => rcases hw with hw | hw <;> contradiction

theorem ending_step (he : e.ending = true) :
    (e.step i).ending = true ∨ resting (e.step i).stateQ := by
  have hm := moves_step (e := e) (i := i)
  unfold ending at he ⊢
  generalize e.stateQ = s, (e.step i).stateQ = s' at hm he ⊢
  cases hm with
  | drain | stop | flush => exact Or.inl rfl
  | rearm => exact Or.inr (Or.inr rfl)
  | complete | aborted => exact Or.inr (Or.inl rfl)
  | _ => contradiction

/-- With a wait between the requests an engine asks again only below the limit. -/
theorem sendReq_step (hs : (e.step i).stateQ = .sendReq) (hn : e.shadowThrottleQ.nwait ≠ 0) :
    e.stateQ = .snoop ∨ e.stateQ = .wait ∧ e.isInflightMax = false ∨
      e.stateQ = .sendReq ∧ i.reqReady = false := by
  have hm := moves_step (e := e) (i := i)
  generalize e.stateQ = s, (e.step i).stateQ = s' at hm hs ⊢
  cases hm with
  | start => exact Or.inl rfl
  | resume hm => exact Or.inr (Or.inl ⟨rfl, hm⟩)
  | hold hr => exact Or.inr (Or.inr ⟨rfl, hr⟩)
  | next h0 => exact absurd h0 hn
  | _ => contradiction

end

end Stride

/-! ## The requests in flight -/

/-- An engine with the number of its requests that were taken and not answered. -/
structure Flight (h : HwpfCfg) where
  engine : Stride h
  unanswered : Nat

namespace Flight

variable {h : HwpfCfg}

def reset (e : Stride h) : Flight h := ⟨e.reset, 0⟩

def step (f : Flight h) (i : StrideIn) : Flight h where
  engine := f.engine.step i
  unanswered := f.unanswered + (f.engine.sent i).length - if i.rspValid then 1 else 0

/-- A response answers a request of an earlier cycle, and the throttle is written with a limit. -/
structure Promise (f : Flight h) (i : StrideIn) : Prop where
  rsp : i.rspValid = true → 0 < f.unanswered
  throttle : ∀ t ∈ i.csrThrottle, t.ninflight ≠ 0

instance (f : Flight h) (i : StrideIn) : Decidable (f.Promise i) :=
  decidable_of_iff ((i.rspValid = true → 0 < f.unanswered) ∧
    ∀ t ∈ i.csrThrottle, t.ninflight ≠ 0) ⟨fun hp => ⟨hp.1, hp.2⟩, fun hp => ⟨hp.1, hp.2⟩⟩

/-- The counter is the number of requests in flight, and they are no more than the limit. -/
structure Bounded (f : Flight h) : Prop where
  limit : f.unanswered ≤ f.engine.shadowThrottleQ.ninflight.toNat
  counter : f.engine.inflightCntQ.toNat = f.unanswered

/-- The engine leaves the states in which it ends its requests. -/
def Leaves (f : Flight h) (i : StrideIn) : Prop :=
  f.engine.ending = true ∧ (f.engine.step i).ending = false

/-- What holds in a run from reset: an engine that rests has no request in flight, and one that
does not has a limit. -/
structure Inv (f : Flight h) : Prop where
  bounded : f.Bounded
  rest : Stride.resting f.engine.stateQ → f.unanswered = 0
  limited : f.engine.stateQ ≠ .idle → f.engine.shadowThrottleQ.ninflight ≠ 0
  throttle : f.engine.csrThrottleQ.ninflight ≠ 0

variable {f : Flight h} {i : StrideIn}

theorem inv_reset (e : Stride h) (h0 : e.csrThrottleQ.ninflight ≠ 0) : (reset e).Inv where
  bounded := ⟨Nat.zero_le _, rfl⟩
  rest := fun _ => rfl
  limited := fun hs => absurd rfl hs
  throttle := h0

/-- The number of requests that are sent in a cycle. -/
theorem length_sent : (f.engine.sent i).length =
    if f.engine.stateQ = .sendReq ∧ i.reqReady = true then 1 else 0 := by
  rw [Stride.sent_eq]
  split_ifs <;> rfl

theorem isInflightMax_iff (h0 : f.engine.shadowThrottleQ.ninflight ≠ 0) :
    f.engine.isInflightMax = true ↔
      f.engine.shadowThrottleQ.ninflight.toNat ≤ f.engine.inflightCntQ.toNat := by
  rw [Stride.isInflightMax, decide_eq_false h0, Bool.not_false, Bool.true_and, decide_eq_true_eq,
    BitVec.le_def]

/-- The counter follows the requests in flight, as long as it has room for one more or a response
comes. -/
theorem counter_step (hc : f.engine.inflightCntQ.toNat = f.unanswered) (hp : f.Promise i)
    (hroom : f.engine.stateQ = .sendReq → i.reqReady = true → i.rspValid = false →
      f.unanswered + 1 < 2 ^ 16) :
    (f.step i).engine.inflightCntQ.toNat = (f.step i).unanswered := by
  have hlen := length_sent (f := f) (i := i)
  show (f.engine.step i).inflightCntQ.toNat =
    f.unanswered + (f.engine.sent i).length - if i.rspValid then 1 else 0
  rw [Stride.inflightCntQ_step, hlen]
  cases hr : i.rspValid with
  | true =>
    have hpos := hp.rsp hr
    have h0 : f.engine.inflightCntQ ≠ 0 := by
      intro h0
      rw [h0] at hc
      have hzero : 0 = f.unanswered := hc
      omega
    by_cases hs : f.engine.stateQ = .sendReq ∧ i.reqReady = true
    · -- a request and a response leave the counter as it is
      rw [if_pos hs, decide_eq_true hs.1, hs.2]
      unfold Stride.inflightD
      rw [hr, decide_eq_true h0]
      show (f.engine.inflightCntQ + 1 - 1).toNat = _
      rw [BitVec.add_sub_cancel, hc]
      rfl
    · have hrsp := Stride.inflightD_of_rsp hr h0
      have hnot : (decide (f.engine.stateQ = .sendReq) && i.reqReady) = false := by
        rw [← Bool.not_eq_true, Bool.and_eq_true, decide_eq_true_eq]
        exact hs
      rw [if_neg hs, hnot, if_pos rfl]
      omega
  | false =>
    by_cases hs : f.engine.stateQ = .sendReq ∧ i.reqReady = true
    · have hroom := hroom hs.1 hs.2 hr
      have hone : (1 : BitVec 16).toNat = 1 := rfl
      rw [if_pos hs, decide_eq_true hs.1, hs.2]
      unfold Stride.inflightD
      rw [hr]
      show (f.engine.inflightCntQ + 1).toNat = _
      rw [BitVec.toNat_add, hc, hone, Nat.mod_eq_of_lt hroom]
      rfl
    · have hnot : (decide (f.engine.stateQ = .sendReq) && i.reqReady) = false := by
        rw [← Bool.not_eq_true, Bool.and_eq_true, decide_eq_true_eq]
        exact hs
      rw [if_neg hs, hnot]
      unfold Stride.inflightD
      rw [hr]
      exact hc

/-- A request that is sent without overrunning leaves the number in the limit. -/
theorem Inv.unanswered_step (hf : f.Inv) (hn : ¬ f.engine.Overruns i) :
    (f.step i).unanswered ≤ f.engine.shadowThrottleQ.ninflight.toNat := by
  have hlimit := hf.bounded.limit
  have hlen := length_sent (f := f) (i := i)
  show f.unanswered + (f.engine.sent i).length - (if i.rspValid then 1 else 0) ≤ _
  rw [hlen]
  by_cases hs : f.engine.stateQ = .sendReq ∧ i.reqReady = true
  · have hlimited := hf.limited (by rw [hs.1]; decide)
    have hmax := isInflightMax_iff hlimited
    have hcounter := hf.bounded.counter
    rw [if_pos hs]
    cases hr : i.rspValid with
    | true =>
      rw [if_pos rfl]
      omega
    | false =>
      have hnot : ¬ f.engine.isInflightMax = true := fun hm => hn ⟨hs.1, hs.2, hm, hr⟩
      rw [hmax] at hnot
      simp only [Bool.false_eq_true, if_false]
      omega
  · rw [if_neg hs]
    omega

/-- An engine that rests sends nothing. -/
theorem Inv.rest_step (hf : f.Inv)
    (hw : Stride.resting (f.engine.step i).stateQ) : (f.step i).unanswered = 0 := by
  have hzero : f.unanswered = 0 ∧ f.engine.stateQ ≠ .sendReq := by
    obtain hw | ⟨he, h0⟩ := Stride.resting_step hw
    · refine ⟨hf.rest hw, ?_⟩
      intro hs
      rcases hw with hw | hw <;> rw [hs] at hw <;> contradiction
    · have hcounter := hf.bounded.counter
      rw [h0] at hcounter
      refine ⟨hcounter.symm, ?_⟩
      intro hs
      rw [Stride.ending, hs] at he
      contradiction
  have hlen := length_sent (f := f) (i := i)
  rw [if_neg fun hs => hzero.2 hs.1] at hlen
  show f.unanswered + (f.engine.sent i).length - _ = 0
  rw [hzero.1, hlen]
  exact Nat.zero_sub _

theorem Inv.step (hf : f.Inv) (hp : f.Promise i) (hn : ¬ f.engine.Overruns i) : (f.step i).Inv := by
  have hrest := hf.rest_step (i := i)
  have hcsr : (f.engine.step i).csrThrottleQ.ninflight ≠ 0 := by
    show (i.csrThrottle.getD f.engine.csrThrottleQ).ninflight ≠ 0
    cases ht : i.csrThrottle with
    | none => exact hf.throttle
    | some t => exact hp.throttle t ht
  have hcounter : (f.step i).engine.inflightCntQ.toNat = (f.step i).unanswered := by
    refine counter_step hf.bounded.counter hp ?_
    intro hs hr hv
    have hlt := f.engine.shadowThrottleQ.ninflight.isLt
    have hle := hf.unanswered_step hn
    have hlen := length_sent (f := f) (i := i)
    rw [if_pos ⟨hs, hr⟩] at hlen
    have hsum : (f.step i).unanswered = f.unanswered + 1 := by
      show f.unanswered + (f.engine.sent i).length - (if i.rspValid then 1 else 0) = _
      rw [hlen, hv]
      rfl
    omega
  by_cases hs : f.engine.stateQ = .idle
  · have hidle := Stride.idle_step (i := i) hs
    have hzero : (f.step i).unanswered = 0 := by
      refine hrest ?_
      exact hidle.imp id fun hsn => hsn.1
    refine ⟨⟨by rw [hzero]; exact Nat.zero_le _, hcounter⟩, hrest, ?_, hcsr⟩
    intro hne
    obtain hse | ⟨-, ht⟩ := hidle
    · exact absurd hse hne
    · show (f.engine.step i).shadowThrottleQ.ninflight ≠ 0
      rw [ht]
      exact hf.throttle
  · have ht := Stride.throttle_step (i := i) hs
    refine ⟨⟨?_, hcounter⟩, hrest, ?_, hcsr⟩
    · show _ ≤ (f.engine.step i).shadowThrottleQ.ninflight.toNat
      rw [ht]
      exact hf.unanswered_step hn
    · intro _
      show (f.engine.step i).shadowThrottleQ.ninflight ≠ 0
      rw [ht]
      exact hf.limited hs

/-- An engine that ends its requests leaves when none is in flight. -/
theorem Bounded.leaves (hf : f.Bounded) (hl : f.Leaves i) : f.unanswered = 0 := by
  obtain ⟨he, hne⟩ := hl
  have hcounter := hf.counter
  obtain hend | hrest := Stride.ending_step (i := i) he
  · rw [hne] at hend
    contradiction
  · obtain hw | ⟨-, h0⟩ := Stride.resting_step hrest
    · rcases hw with hw | hw <;> rw [Stride.ending, hw] at he <;> contradiction
    · rw [h0] at hcounter
      exact hcounter.symm

/-- An engine that overruns has one request too many in flight. -/
theorem Bounded.not_step (hf : f.Bounded) (ho : f.engine.Overruns i) : ¬ (f.step i).Bounded := by
  obtain ⟨hs, hr, hm, hv⟩ := ho
  intro hb
  have hlimit := hb.limit
  have hcounter := hf.counter
  have hlen := length_sent (f := f) (i := i)
  have h0 : f.engine.shadowThrottleQ.ninflight ≠ 0 := by
    intro h0
    rw [Stride.isInflightMax, h0] at hm
    contradiction
  have hmax := (isInflightMax_iff h0).1 hm
  have ht := Stride.throttle_step (e := f.engine) (i := i) (by rw [hs]; decide)
  have hsum : (f.step i).unanswered = f.unanswered + 1 := by
    show f.unanswered + (f.engine.sent i).length - (if i.rspValid then 1 else 0) = _
    rw [hlen, if_pos ⟨hs, hr⟩, hv]
    rfl
  have hlim : (f.step i).engine.shadowThrottleQ.ninflight = f.engine.shadowThrottleQ.ninflight := by
    show (f.engine.step i).shadowThrottleQ.ninflight = _
    rw [ht]
  rw [hsum, hlim] at hlimit
  omega

/-! ## Runs -/

section
variable {e : Stride h} {is : List StrideIn}

theorem inv_run (h0 : e.csrThrottleQ.ninflight ≠ 0)
    (hp : Along step Promise (reset e) is)
    (hn : Along step (fun f i => ¬ f.engine.Overruns i) (reset e) is) :
    (run step (reset e) is).Inv :=
  (hp.and hn).invariant (inv_reset e h0) fun _ _ hf hi => hf.step hi.1 hi.2

/-- An engine that waits between its requests, and asks below the limit. -/
structure Paced (f : Flight h) : Prop where
  inv : f.Inv
  csr : f.engine.csrThrottleQ.nwait ≠ 0
  shadow : f.engine.stateQ ≠ .idle → f.engine.shadowThrottleQ.nwait ≠ 0
  below : f.engine.stateQ = .sendReq → f.engine.isInflightMax = false

theorem Paced.not_overruns {f : Flight h} {i : StrideIn} (hf : f.Paced) : ¬ f.engine.Overruns i := by
  rintro ⟨hs, -, hm, -⟩
  rw [hf.below hs] at hm
  contradiction

theorem Paced.below_step {f : Flight h} {i : StrideIn} (hf : f.Paced)
    (hs : (f.engine.step i).stateQ = .sendReq) : (f.engine.step i).isInflightMax = false := by
  have hne : f.engine.stateQ ≠ .idle := by
    intro hse
    obtain hidle | ⟨hsnoop, -⟩ := Stride.idle_step (i := i) hse
    · rw [hs] at hidle
      contradiction
    · rw [hs] at hsnoop
      contradiction
  have hlimited := hf.inv.limited hne
  have ht := Stride.throttle_step (i := i) hne
  have hlimited' : (f.engine.step i).shadowThrottleQ.ninflight ≠ 0 := by rw [ht]; exact hlimited
  -- the counter was below the limit, and nothing is sent
  have hbelow : f.engine.inflightCntQ.toNat < f.engine.shadowThrottleQ.ninflight.toNat ∧
      (decide (f.engine.stateQ = .sendReq) && i.reqReady) = false := by
    have hmax := isInflightMax_iff hlimited
    obtain hse | ⟨hse, hm⟩ | ⟨hse, hr⟩ := Stride.sendReq_step hs (hf.shadow hne)
    · have hzero := hf.inv.rest (Or.inr hse)
      have hcounter := hf.inv.bounded.counter
      have hpos : f.engine.shadowThrottleQ.ninflight.toNat ≠ 0 :=
        fun h0 => hlimited (BitVec.eq_of_toNat_eq h0)
      exact ⟨by omega, by rw [hse]; rfl⟩
    · rw [← Bool.not_eq_true, hmax] at hm
      exact ⟨by omega, by rw [hse]; rfl⟩
    · have hm := hf.below hse
      rw [← Bool.not_eq_true, hmax] at hm
      exact ⟨by omega, by rw [hr, Bool.and_false]⟩
  have hle := Stride.inflightD_le (e := f.engine) (i := i)
  have hmax' := isInflightMax_iff (f := f.step i) hlimited'
  rw [← Bool.not_eq_true]
  intro hm
  have hge : (f.engine.step i).shadowThrottleQ.ninflight.toNat ≤
      (f.engine.step i).inflightCntQ.toNat := hmax'.1 hm
  rw [Stride.inflightCntQ_step, hbelow.2, ht] at hge
  omega

theorem Paced.step {f : Flight h} {i : StrideIn} (hf : f.Paced) (hp : f.Promise i)
    (hw : ∀ t ∈ i.csrThrottle, t.nwait ≠ 0) : (f.step i).Paced where
  inv := hf.inv.step hp hf.not_overruns
  csr := by
    show (i.csrThrottle.getD f.engine.csrThrottleQ).nwait ≠ 0
    cases ht : i.csrThrottle with
    | none => exact hf.csr
    | some t => exact hw t ht
  shadow := by
    intro hne
    show (f.engine.step i).shadowThrottleQ.nwait ≠ 0
    by_cases hs : f.engine.stateQ = .idle
    · obtain hse | ⟨-, ht⟩ := Stride.idle_step (i := i) hs
      · exact absurd hse hne
      · rw [ht]
        exact hf.csr
    · rw [Stride.throttle_step hs]
      exact hf.shadow hs
  below := hf.below_step

/-- An engine that waits between its requests does not ask at the limit. -/
theorem not_overruns_of_nwait (h0 : e.csrThrottleQ.ninflight ≠ 0)
    (hw0 : e.csrThrottleQ.nwait ≠ 0) (hp : Along step Promise (reset e) is)
    (hw : ∀ i ∈ is, ∀ t ∈ i.csrThrottle, t.nwait ≠ 0) :
    Along step (fun f i => ¬ f.engine.Overruns i) (reset e) is := by
  have hstart : (reset e).Paced := ⟨inv_reset e h0, hw0, fun hs => absurd rfl hs, nofun⟩
  have hwrites : Along step (fun _ i => ∀ t ∈ i.csrThrottle, t.nwait ≠ 0) (reset e) is :=
    along_of_mem hw
  have hpaced := (hp.and hwrites).strengthen hstart fun _ _ hf hi => hf.step hi.1 hi.2
  exact hpaced.mono fun _ _ hf => hf.1.not_overruns

/-- **The prefetches in flight.** In a run from reset with a limit in the throttle, whatever the
order of the grants, the responses, the disables and the restarts, the requests in flight are within
the limit in every state, the counter is their number, and the engine ends when there is none, if
and only if it never sends a request at the limit in a cycle without a response. -/
theorem inflight_iff (e : Stride h) (is : List StrideIn) (h0 : e.csrThrottleQ.ninflight ≠ 0)
    (hp : Along step Promise (reset e) is) :
    ((∀ m, (run step (reset e) (is.take m)).Bounded) ∧
        Along step (fun f i => f.Leaves i → f.unanswered = 0) (reset e) is) ↔
      Along step (fun f i => ¬ f.engine.Overruns i) (reset e) is := by
  constructor
  · rintro ⟨hb, -⟩
    refine hp.of_states hb ?_
    intro f i hf hf' _ ho
    exact hf.not_step ho hf'
  · intro hn
    have hall := (hp.and hn).strengthen (inv_reset e h0) fun _ _ hf hi => hf.step hi.1 hi.2
    refine ⟨?_, hall.mono fun f i hf hl => hf.1.bounded.leaves hl⟩
    intro m
    exact (inv_run h0 (hp.take m) (hn.take m)).bounded

end

/-! ## An engine with a limit of one request -/

/-- The engine before reset, with the limit in the throttle. -/
def oneAtATime : Stride Hwpf.prefetchCfg :=
  { Stride.armedAt Hwpf.prefetchCfg 0 ⟨0, 3, 0⟩ with csrThrottleQ := ⟨1, 0⟩ }

/-- The engine is set to prefetch three lines, and then the base line is seen. -/
def threeLines : List StrideIn :=
  [{ Stride.cycle false false false with
      csrBase := some ⟨0, false, false, true⟩
      csrParam := some ⟨0, 3, 0⟩ },
    Stride.cycle false false false, Stride.seen]

/-- The first request is answered in the cycle in which the second one is taken, and the others
after that. -/
def answered : List StrideIn :=
  threeLines ++ [Stride.cycle false true false, Stride.cycle false true true,
    Stride.cycle false false true, Stride.cycle false false false, Stride.cycle false true false,
    Stride.cycle false false true, Stride.cycle false false false]

theorem inflight_answered :
    (∀ m, (run step (reset oneAtATime) (answered.take m)).Bounded) ∧
      Along step (fun f i => f.Leaves i → f.unanswered = 0) (reset oneAtATime) answered :=
  (inflight_iff oneAtATime answered (by decide) (by decide +kernel)).2 (by decide +kernel)

/-- Two requests are taken in a row. The second one is sent when the counter is at the limit. -/
theorem backToBack_not_bounded :
    let is := threeLines ++ [Stride.cycle false true false, Stride.cycle false true false]
    oneAtATime.csrThrottleQ.ninflight ≠ 0 ∧ Along step Promise (reset oneAtATime) is ∧
      (run step (reset oneAtATime) is).engine.shadowThrottleQ.ninflight = 1 ∧
      (run step (reset oneAtATime) is).unanswered = 2 ∧
      ¬ ∀ m, (run step (reset oneAtATime) (is.take m)).Bounded := by
  intro is
  have htwo : (run step (reset oneAtATime) is).unanswered = 2 := by decide +kernel
  have hone : (run step (reset oneAtATime) is).engine.shadowThrottleQ.ninflight = 1 := by
    decide +kernel
  refine ⟨by decide, by decide +kernel, hone, htwo, ?_⟩
  intro hb
  have hlimit := (hb is.length).limit
  rw [List.take_length, htwo, hone] at hlimit
  exact absurd hlimit (by decide)

end Flight

end Hpdcache
