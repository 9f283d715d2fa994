import Mathlib.Data.List.Chain
import Mathlib.Algebra.Order.Ring.Rat
import WhaleIntelligence.Lib.Bucket

/- The weighted bucket of the market data client.

   A pause keeps the tokens from coming in, and does not keep the ones that are there from
   being handed out. What is handed out in a pause is made up for by the time of the pause
   itself, as soon as it is over. Where nothing is asked for in a pause, every window has
   the capacity and the rate at most (`payments_calls`). The first cost that is asked for
   in one is granted as long as there are tokens, whatever came before, so that calls keep
   the bound and the silence, with these costs or smaller ones, exactly where no pause is
   asked (`bound_and_silence_iff`). -/
namespace WhaleIntelligence.Gmgn
open WhaleIntelligence Bucket Relation

abbrev Instant := ℚ
abbrev Duration := NNRat

structure WeightedBucket where
  capacity : ℚ
  refillPerSecond : ℚ
  tokens : ℚ
  lastRefill : Instant
  pauseUntil : Option Instant
  tokens_le : tokens ≤ capacity

namespace WeightedBucket

def new (capacity refillPerSecond : UInt32) (now : Instant) : WeightedBucket where
  capacity := capacity.toNat
  refillPerSecond := refillPerSecond.toNat
  tokens := capacity.toNat
  lastRefill := now
  pauseUntil := none
  tokens_le := le_rfl

def isPaused (b : WeightedBucket) (now : Instant) : Bool := b.pauseUntil.any (now < ·)

def refill (b : WeightedBucket) (now : Instant) : WeightedBucket :=
  if b.isPaused now then b
  else if 0 < now - b.lastRefill then
    { b with
      pauseUntil := none
      tokens := min (b.tokens + (now - b.lastRefill) * b.refillPerSecond) b.capacity
      lastRefill := now
      tokens_le := min_le_right _ _ }
  else { b with pauseUntil := none }

theorem spend_le (b : WeightedBucket) (cost : UInt32) : b.tokens - cost.toNat ≤ b.capacity :=
  (sub_le_self _ (Nat.cast_nonneg _)).trans b.tokens_le

def spend (b : WeightedBucket) (cost : UInt32) : WeightedBucket :=
  { b with tokens := b.tokens - cost.toNat, tokens_le := b.spend_le cost }

/-- How long to wait, where the cost is not granted. -/
def tryAcquire (b : WeightedBucket) (cost : UInt32) (now : Instant) : Option ℚ × WeightedBucket :=
  let b := b.refill now
  if (cost.toNat : ℚ) ≤ b.tokens then (none, b.spend cost)
  else
    let wait := (cost.toNat - b.tokens) / max b.refillPerSecond (1 / 1000)
    match b.pauseUntil with
    | some pause => (some (max wait (max 0 (pause - now))), b)
    | none => (some wait, b)

def pauseFor (b : WeightedBucket) (duration : Duration) (now : Instant) : WeightedBucket :=
  { b with pauseUntil := some (now + duration) }

end WeightedBucket

inductive Call
  | tryAcquire (cost : UInt32)
  | pauseFor (duration : Duration)
  deriving DecidableEq

/-- The bucket of the client, with the costs that were granted from it. -/
structure RouteQueue where
  bucket : WeightedBucket
  granted : List (Instant × ℚ)

def RouteQueue.call (q : RouteQueue) (e : Instant × Call) : RouteQueue :=
  match e.2 with
  | .tryAcquire cost =>
    let (wait, bucket) := q.bucket.tryAcquire cost e.1
    ⟨bucket, q.granted ++ if wait = none then [(e.1, (cost.toNat : ℚ))] else []⟩
  | .pauseFor duration => ⟨q.bucket.pauseFor duration e.1, q.granted⟩

/-- A new bucket after the calls. -/
def queueAfter (capacity refillPerSecond : UInt32) (start : Instant) (calls : List (Instant × Call)) : RouteQueue :=
  calls.foldl RouteQueue.call ⟨.new capacity refillPerSecond start, []⟩

/-- When the pauses end that the calls set. -/
def pauseEnds (calls : List (Instant × Call)) : List Instant :=
  calls.filterMap fun e =>
    match e.2 with
    | .tryAcquire _ => none
    | .pauseFor duration => some (e.1 + duration)

/-- Every window grants the capacity and the rate at most. -/
def Bounded (capacity refillPerSecond : UInt32) (start : Instant) (calls : List (Instant × Call)) : Prop :=
  ∀ a b : Instant, a ≤ b →
    paid a b (queueAfter capacity refillPerSecond start calls).granted ≤
      capacity.toNat + refillPerSecond.toNat * (b - a)

/-- No cost is granted before the end of a pause that was set earlier. -/
def Silent (capacity refillPerSecond : UInt32) (start : Instant) (calls : List (Instant × Call)) : Prop :=
  ∀ before now cost after, calls = before ++ (now, .tryAcquire cost) :: after → 0 < cost →
    ((queueAfter capacity refillPerSecond start before).bucket.tryAcquire cost now).1 = none →
    ∀ pause ∈ pauseEnds before, pause ≤ now

/-- No cost is asked for before the end of a pause that was set earlier. -/
def Spaced (calls : List (Instant × Call)) : Prop :=
  ∀ before now cost after, calls = before ++ (now, .tryAcquire cost) :: after → 0 < cost →
    ∀ pause ∈ pauseEnds before, pause ≤ now

/-- The same call with the same cost or a smaller one. -/
inductive Call.AtMost : Call → Call → Prop
  | tryAcquire {cost cost' : UInt32} (h : cost ≤ cost') : AtMost (.tryAcquire cost) (.tryAcquire cost')
  | pauseFor (duration : Duration) : AtMost (.pauseFor duration) (.pauseFor duration)

/-- The same calls at the same times, with the same costs or smaller ones. -/
def AtMost (calls calls' : List (Instant × Call)) : Prop :=
  List.Forall₂ (fun e e' => e.1 = e'.1 ∧ e.2.AtMost e'.2) calls calls'

/-- What there is to hand out at the time. -/
def WeightedBucket.available (b : WeightedBucket) (now : Instant) : ℚ :=
  if b.isPaused now then b.tokens
  else min (b.tokens + max 0 (now - b.lastRefill) * b.refillPerSecond) b.capacity

section
variable {b : WeightedBucket} {q : RouteQueue} {now clock : Instant} {cost : UInt32} {calls : List (Instant × Call)}

theorem refill_paused (h : b.isPaused now = true) : b.refill now = b := if_pos h

theorem pause_of_isPaused (h : b.isPaused now = true) : ∃ pause, b.pauseUntil = some pause ∧ now < pause := by
  unfold WeightedBucket.isPaused at h
  cases hpause : b.pauseUntil with
  | none => simp [hpause] at h
  | some pause => exact ⟨pause, rfl, by simpa [hpause] using h⟩

theorem refill_tokens (b : WeightedBucket) (now : Instant) : (b.refill now).tokens = b.available now := by
  unfold WeightedBucket.refill WeightedBucket.available
  by_cases hpaused : b.isPaused now = true
  · rw [if_pos hpaused, if_pos hpaused]
  · rw [if_neg hpaused, if_neg hpaused]
    by_cases helapsed : 0 < now - b.lastRefill
    · rw [if_pos helapsed, max_eq_right helapsed.le]
    · rw [if_neg helapsed, max_eq_left (not_lt.mp helapsed), zero_mul, add_zero, min_eq_left b.tokens_le]

theorem refill_rate (b : WeightedBucket) (now : Instant) :
    (b.refill now).capacity = b.capacity ∧ (b.refill now).refillPerSecond = b.refillPerSecond := by
  unfold WeightedBucket.refill
  split_ifs <;> exact ⟨rfl, rfl⟩

theorem tryAcquire_granted (h : (cost.toNat : ℚ) ≤ b.available now) :
    b.tryAcquire cost now = (none, (b.refill now).spend cost) := by
  rw [← refill_tokens] at h
  exact if_pos h

/-- A cost that is not granted leaves the bucket as the refill left it. -/
theorem tryAcquire_refused (h : ¬(cost.toNat : ℚ) ≤ b.available now) :
    ∃ wait, b.tryAcquire cost now = (some wait, b.refill now) := by
  rw [← refill_tokens] at h
  unfold WeightedBucket.tryAcquire
  dsimp only
  rw [if_neg h]
  cases (b.refill now).pauseUntil with
  | none => exact ⟨_, rfl⟩
  | some pause => exact ⟨_, rfl⟩

theorem granted_iff (b : WeightedBucket) (cost : UInt32) (now : Instant) :
    (b.tryAcquire cost now).1 = none ↔ (cost.toNat : ℚ) ≤ b.available now := by
  by_cases h : (cost.toNat : ℚ) ≤ b.available now
  · simp [tryAcquire_granted h, h]
  · obtain ⟨wait, hwait⟩ := tryAcquire_refused h
    simp [hwait, h]

theorem call_granted (h : (cost.toNat : ℚ) ≤ q.bucket.available now) :
    q.call (now, .tryAcquire cost) = ⟨(q.bucket.refill now).spend cost, q.granted ++ [(now, (cost.toNat : ℚ))]⟩ := by
  simp [RouteQueue.call, tryAcquire_granted h]

theorem call_refused (h : ¬(cost.toNat : ℚ) ≤ q.bucket.available now) :
    q.call (now, .tryAcquire cost) = ⟨q.bucket.refill now, q.granted⟩ := by
  obtain ⟨wait, hwait⟩ := tryAcquire_refused h
  simp [RouteQueue.call, hwait]

theorem call_rate (q : RouteQueue) (e : Instant × Call) :
    (q.call e).bucket.capacity = q.bucket.capacity ∧
      (q.call e).bucket.refillPerSecond = q.bucket.refillPerSecond := by
  obtain ⟨now, cost | duration⟩ := e
  · have hrate := refill_rate q.bucket now
    by_cases h : (cost.toNat : ℚ) ≤ q.bucket.available now
    · rw [call_granted h]
      exact hrate
    · rw [call_refused h]
      exact hrate
  · exact ⟨rfl, rfl⟩

/-! ## The bound -/

/-- What the library sees of the queue: what is granted for nothing is no payment. -/
def RouteQueue.account (q : RouteQueue) (clock : Instant) : Account ℚ :=
  ⟨clock, q.bucket.tokens, q.bucket.lastRefill, q.granted.filter fun e => e.2 ≠ 0⟩

variable (clock) in
/-- A call that grants nothing, or for nothing, is the refill alone. -/
theorem call_free (h : cost = 0 ∨ ¬(cost.toNat : ℚ) ≤ q.bucket.available now) :
    (q.call (now, .tryAcquire cost)).account clock =
      ⟨clock, (q.bucket.refill now).tokens, (q.bucket.refill now).lastRefill, q.granted.filter fun e => e.2 ≠ 0⟩ ∧
      (q.call (now, .tryAcquire cost)).bucket.lastRefill = (q.bucket.refill now).lastRefill := by
  by_cases hgranted : (cost.toNat : ℚ) ≤ q.bucket.available now
  · obtain rfl := h.resolve_right (not_not_intro hgranted)
    rw [call_granted hgranted]
    refine ⟨?_, rfl⟩
    simp [RouteQueue.account, WeightedBucket.spend]
  · rw [call_refused hgranted]
    exact ⟨rfl, rfl⟩

/-- Outside of a pause the refill brings the bucket to its level. -/
theorem refill_level (hfilled : b.lastRefill ≤ now) (h : b.isPaused now = false) (payments : List (Instant × ℚ)) :
    (b.refill now).lastRefill = now ∧
      (b.refill now).tokens =
        (⟨now, b.tokens, b.lastRefill, payments⟩ : Account ℚ).level b.capacity b.refillPerSecond := by
  constructor
  · unfold WeightedBucket.refill
    rw [if_neg (by simp [h])]
    split_ifs with helapsed
    · rfl
    · show b.lastRefill = now
      linarith
  · rw [refill_tokens, WeightedBucket.available, if_neg (by simp [h]), max_eq_right (sub_nonneg.mpr hfilled)]
    rfl

theorem refill_filled (hfilled : b.lastRefill ≤ now) : (b.refill now).lastRefill ≤ now := by
  unfold WeightedBucket.refill
  split_ifs
  · exact hfilled
  · exact le_rfl
  · exact hfilled

/-- A call that grants no cost in a pause is a payment, or no payment. -/
theorem payments_call (hfilled : q.bucket.lastRefill ≤ clock) (hclock : clock ≤ now) {c : Call}
    (hquiet : ∀ cost, c = .tryAcquire cost → 0 < cost → (cost.toNat : ℚ) ≤ q.bucket.available now →
      q.bucket.isPaused now = false) :
    ReflTransGen (Payment q.bucket.capacity q.bucket.refillPerSecond) (q.account clock)
        ((q.call (now, c)).account now) ∧
      (q.call (now, c)).bucket.lastRefill ≤ now := by
  have hnow := hfilled.trans hclock
  have hwait : ReflTransGen (Payment q.bucket.capacity q.bucket.refillPerSecond) (q.account clock) (q.account now) :=
    .single (.wait (q.account clock) now hclock)
  cases c with
  | pauseFor duration => exact ⟨hwait, hnow⟩
  | tryAcquire cost =>
    by_cases hpays : 0 < cost ∧ (cost.toNat : ℚ) ≤ q.bucket.available now
    · obtain ⟨hpos, hgranted⟩ := hpays
      obtain ⟨hlast, htokens⟩ := refill_level hnow (hquiet cost rfl hpos hgranted) (q.account now).payments
      rw [call_granted hgranted]
      refine ⟨hwait.tail ?_, hlast.le⟩
      have hless : (cost.toNat : ℚ) ≤ (q.account now).level q.bucket.capacity q.bucket.refillPerSecond := by
        rwa [← refill_tokens, htokens] at hgranted
      have hpay : Payment q.bucket.capacity q.bucket.refillPerSecond (q.account now) _ :=
        .pay (q.account now) cost.toNat (Nat.cast_nonneg _) hless
      have hcost : (cost.toNat : ℚ) ≠ 0 := Nat.cast_ne_zero.mpr (UInt32.lt_iff_toNat_lt.mp hpos).ne'
      have hkept : (q.granted ++ [(now, (cost.toNat : ℚ))]).filter (fun e => e.2 ≠ 0) =
          q.granted.filter (fun e => e.2 ≠ 0) ++ [(now, (cost.toNat : ℚ))] := by
        rw [List.filter_append, List.filter_singleton]
        simp [hcost]
      unfold RouteQueue.account WeightedBucket.spend
      dsimp only
      rw [hlast, htokens, hkept]
      exact hpay
    · have hfree : cost = 0 ∨ ¬(cost.toNat : ℚ) ≤ q.bucket.available now := by
        rcases not_and_or.mp hpays with hzero | hrefused
        · exact Or.inl (UInt32.le_zero_iff.mp (UInt32.not_lt.mp hzero))
        · exact Or.inr hrefused
      obtain ⟨haccount, hlast⟩ := call_free now hfree
      rw [haccount, hlast]
      refine ⟨?_, refill_filled hnow⟩
      cases hpaused : q.bucket.isPaused now with
      | true =>
        rw [refill_paused hpaused]
        exact hwait
      | false =>
        obtain ⟨hlast, htokens⟩ := refill_level hnow hpaused (q.account now).payments
        apply hwait.tail
        rw [hlast, htokens]
        exact .fill (q.account now)

theorem payments_calls (hfilled : q.bucket.lastRefill ≤ clock)
    (htimes : (clock :: calls.map Prod.fst).IsChain (· ≤ ·))
    (hquiet : ∀ before now cost after, calls = before ++ (now, .tryAcquire cost) :: after → 0 < cost →
      (cost.toNat : ℚ) ≤ (before.foldl RouteQueue.call q).bucket.available now →
      (before.foldl RouteQueue.call q).bucket.isPaused now = false) :
    ∃ t, ReflTransGen (Payment q.bucket.capacity q.bucket.refillPerSecond) (q.account clock)
      ((calls.foldl RouteQueue.call q).account t) := by
  induction calls generalizing q clock with
  | nil => exact ⟨clock, .refl⟩
  | cons e calls ih =>
    obtain ⟨now, c⟩ := e
    obtain ⟨hclock, htimes⟩ := List.isChain_cons_cons.mp htimes
    have hhead : ∀ cost, c = .tryAcquire cost → 0 < cost → (cost.toNat : ℚ) ≤ q.bucket.available now →
        q.bucket.isPaused now = false := by
      rintro cost rfl
      exact hquiet [] now cost calls rfl
    obtain ⟨hcall, hlast⟩ := payments_call hfilled hclock hhead
    obtain ⟨t, hcalls⟩ := ih hlast htimes fun before at' cost after h => hquiet ((now, c) :: before) at' cost after
      (congrArg ((now, c) :: ·) h)
    obtain ⟨hcapacity, hrate⟩ := call_rate q (now, c)
    rw [hcapacity, hrate] at hcalls
    exact ⟨t, hcall.trans hcalls⟩

end

/-! ## The pauses -/

section
variable {capacity refillPerSecond : UInt32} {start now pause : Instant} {calls : List (Instant × Call)}

theorem queueAfter_append (e : Instant × Call) : queueAfter capacity refillPerSecond start (calls ++ [e]) =
    (queueAfter capacity refillPerSecond start calls).call e := by
  rw [queueAfter, List.foldl_append]
  rfl

theorem refill_pause {b : WeightedBucket} (h : (b.refill now).pauseUntil = some pause) :
    b.pauseUntil = some pause := by
  unfold WeightedBucket.refill at h
  split_ifs at h
  exact h

/-- The pause of the bucket is one that was set. -/
theorem pause_mem (h : (queueAfter capacity refillPerSecond start calls).bucket.pauseUntil = some pause) :
    pause ∈ pauseEnds calls := by
  induction calls using List.reverseRecOn with
  | nil => cases h
  | append_singleton calls e ih =>
    obtain ⟨now, cost | duration⟩ := e
    · rw [queueAfter_append] at h
      apply List.mem_filterMap.mpr
      obtain ⟨e, he, hend⟩ : ∃ e ∈ calls, _ := List.mem_filterMap.mp <| ih <| by
        by_cases hgranted : (cost.toNat : ℚ) ≤
            (queueAfter capacity refillPerSecond start calls).bucket.available now
        · rw [call_granted hgranted] at h
          exact refill_pause h
        · rw [call_refused hgranted] at h
          exact refill_pause h
      exact ⟨e, List.mem_append_left _ he, hend⟩
    · rw [queueAfter_append] at h
      obtain rfl : now + duration = pause := Option.some.inj h
      simp [pauseEnds]

theorem bounded_of_silent (htimes : (start :: calls.map Prod.fst).IsChain (· ≤ ·))
    (hsilent : Silent capacity refillPerSecond start calls) : Bounded capacity refillPerSecond start calls := by
  intro a b hab
  have hquiet : ∀ before now cost after, calls = before ++ (now, .tryAcquire cost) :: after → 0 < cost →
      (cost.toNat : ℚ) ≤ (queueAfter capacity refillPerSecond start before).bucket.available now →
      (queueAfter capacity refillPerSecond start before).bucket.isPaused now = false := by
    intro before now cost after hcalls hpos hgranted
    by_contra hpaused
    obtain ⟨pause, hpause, hnow⟩ := pause_of_isPaused (Bool.eq_true_of_not_eq_false hpaused)
    have hend := hsilent before now cost after hcalls hpos ((granted_iff _ _ _).mpr hgranted) pause (pause_mem hpause)
    exact absurd hnow (not_lt.mpr hend)
  have hfilled : (RouteQueue.mk (.new capacity refillPerSecond start) []).bucket.lastRefill ≤ start := le_rfl
  obtain ⟨t, hpayments⟩ := payments_calls hfilled htimes hquiet
  have hpaid := paid_le (Nat.cast_nonneg _) (Nat.cast_nonneg _) hpayments rfl le_rfl rfl hab
  rwa [RouteQueue.account, paid_filter] at hpaid

/-! ## The costs -/

theorem available_le (b : WeightedBucket) (now : Instant) : b.available now ≤ b.capacity := by
  rw [← refill_tokens, ← (refill_rate b now).1]
  exact (b.refill now).tokens_le

variable (capacity refillPerSecond start calls) in
theorem queueAfter_rate : (queueAfter capacity refillPerSecond start calls).bucket.capacity = capacity.toNat ∧
    (queueAfter capacity refillPerSecond start calls).bucket.refillPerSecond = refillPerSecond.toNat := by
  induction calls using List.reverseRecOn with
  | nil => exact ⟨rfl, rfl⟩
  | append_singleton calls e ih =>
    obtain ⟨hcapacity, hrate⟩ := call_rate (queueAfter capacity refillPerSecond start calls) e
    rw [queueAfter_append]
    exact ⟨hcapacity.trans ih.1, hrate.trans ih.2⟩

/-- A bucket without capacity grants no cost. -/
theorem silent_of_empty : Silent 0 refillPerSecond start calls := by
  intro before now cost after _ hpos hgranted
  have hless := ((granted_iff _ _ _).mp hgranted).trans (available_le _ _)
  rw [(queueAfter_rate _ _ _ _).1] at hless
  have hzero : cost.toNat ≤ 0 := Nat.cast_le.mp hless
  exact absurd (UInt32.lt_iff_toNat_lt.mp hpos) (Nat.not_lt.mpr hzero)

theorem times_atMost {calls' : List (Instant × Call)} (h : AtMost calls calls') :
    calls.map Prod.fst = calls'.map Prod.fst := by
  induction h with
  | nil => rfl
  | cons he _ ih => rw [List.map_cons, List.map_cons, he.1, ih]

theorem pauseEnds_atMost {calls' : List (Instant × Call)} (h : AtMost calls calls') :
    pauseEnds calls = pauseEnds calls' := by
  induction h with
  | nil => rfl
  | @cons e e' _ _ he _ ih =>
    obtain ⟨now, c⟩ := e
    obtain ⟨now', c'⟩ := e'
    obtain ⟨htime, hcall⟩ := he
    dsimp only at htime hcall
    rw [pauseEnds, pauseEnds] at ih ⊢
    rw [List.filterMap_cons, List.filterMap_cons, ih, htime]
    cases hcall with
    | tryAcquire => rfl
    | pauseFor => rfl

theorem atMost_append {before rest calls' : List (Instant × Call)} (h : AtMost (before ++ rest) calls') :
    ∃ before' rest', AtMost before before' ∧ AtMost rest rest' ∧ calls' = before' ++ rest' := by
  induction before generalizing calls' with
  | nil => exact ⟨[], calls', .nil, h, rfl⟩
  | cons e before ih =>
    obtain ⟨e', calls', he, hrest, rfl⟩ := List.forall₂_cons_left_iff.mp h
    obtain ⟨before', rest', hbefore, hafter, rfl⟩ := ih hrest
    exact ⟨e' :: before', rest', .cons he hbefore, hafter, rfl⟩

theorem one_le_of_pos {n : UInt32} (h : 0 < n) : 1 ≤ n :=
  UInt32.le_iff_toNat_le.mpr (Nat.succ_le_of_lt (UInt32.lt_iff_toNat_lt.mp h))

/-- Calls with smaller costs ask no pause that the calls do not ask. -/
theorem Spaced.atMost {calls' : List (Instant × Call)} (h : Spaced calls') (hcalls : AtMost calls calls') :
    Spaced calls := by
  rintro before now cost after rfl hpos pause hpause
  obtain ⟨before', rest', hbefore, hrest, rfl⟩ := atMost_append hcalls
  cases hrest with
  | @cons _ e' _ after' he hafter =>
    obtain ⟨now', c'⟩ := e'
    obtain ⟨rfl, hcall⟩ := he
    cases hcall with
    | tryAcquire hle =>
      rw [pauseEnds_atMost hbefore] at hpause
      exact h before' now _ after' rfl (UInt32.lt_of_lt_of_le hpos hle) pause hpause

/-- The calls, asking for nothing. -/
def free (calls : List (Instant × Call)) : List (Instant × Call) :=
  calls.map fun e =>
    match e.2 with
    | .tryAcquire _ => (e.1, .tryAcquire 0)
    | .pauseFor duration => (e.1, .pauseFor duration)

theorem free_atMost (calls : List (Instant × Call)) : AtMost (free calls) calls := by
  induction calls with
  | nil => exact .nil
  | cons e calls ih =>
    obtain ⟨now, cost | duration⟩ := e
    · exact .cons ⟨rfl, .tryAcquire UInt32.zero_le⟩ ih
    · exact .cons ⟨rfl, .pauseFor duration⟩ ih

/-- A full bucket has its capacity to hand out at any time. -/
theorem available_full {b : WeightedBucket} (hrate : 0 ≤ b.refillPerSecond) (hfull : b.tokens = b.capacity)
    (now : Instant) : b.available now = b.capacity := by
  rw [WeightedBucket.available, hfull]
  split
  · rfl
  · exact min_eq_right (le_add_of_nonneg_right (mul_nonneg (le_max_left _ _) hrate))

/-- Calls that ask for nothing leave the bucket full. -/
theorem free_full : (queueAfter capacity refillPerSecond start (free calls)).bucket.tokens = capacity.toNat := by
  induction calls using List.reverseRecOn with
  | nil => rfl
  | append_singleton calls e ih =>
    obtain ⟨hcapacity, hrate⟩ := queueAfter_rate capacity refillPerSecond start (free calls)
    rw [free, List.map_append, List.map_singleton, ← free, queueAfter_append]
    obtain ⟨now, cost | duration⟩ := e
    · have hfull : (queueAfter capacity refillPerSecond start (free calls)).bucket.available now = capacity.toNat :=
        (available_full (hrate ▸ Nat.cast_nonneg _) (ih.trans hcapacity.symm) now).trans hcapacity
      have hfree : (0 : UInt32) = 0 ∨
          ¬ ((0 : UInt32).toNat : ℚ) ≤ (queueAfter capacity refillPerSecond start (free calls)).bucket.available now :=
        Or.inl rfl
      have htokens := congrArg Account.tokens (call_free now hfree).1
      exact htokens.trans ((refill_tokens _ _).trans hfull)
    · exact ih

/-- The first cost of a pause is granted, if nothing was asked for before it. -/
theorem spaced_of_silent (hcapacity : capacity ≠ 0)
    (h : ∀ calls', AtMost calls' calls → Silent capacity refillPerSecond start calls') : Spaced calls := by
  rintro before now cost after rfl hpos pause hpause
  have hone : AtMost (free before ++ (now, .tryAcquire 1) :: free after) (before ++ (now, .tryAcquire cost) :: after) :=
    List.rel_append (free_atMost before) (.cons ⟨rfl, .tryAcquire (one_le_of_pos hpos)⟩ (free_atMost after))
  rw [← pauseEnds_atMost (free_atMost before)] at hpause
  refine h _ hone (free before) now 1 (free after) rfl (by decide) ((granted_iff _ _ _).mpr ?_) pause hpause
  obtain ⟨hsize, hrate⟩ := queueAfter_rate capacity refillPerSecond start (free before)
  rw [available_full (hrate ▸ Nat.cast_nonneg _) (free_full.trans hsize.symm), hsize]
  exact Nat.cast_le.mpr (UInt32.le_iff_toNat_le.mp (one_le_of_pos (UInt32.pos_iff_ne_zero.mpr hcapacity)))

/-- The calls keep the bound and the silence, with their costs or smaller ones, exactly where none asks for a cost in a
pause, or the bucket has no capacity. -/
theorem bound_and_silence_iff (capacity refillPerSecond : UInt32) (start : Instant) (calls : List (Instant × Call))
    (htimes : (start :: calls.map Prod.fst).IsChain (· ≤ ·)) :
    (∀ calls', AtMost calls' calls →
        Bounded capacity refillPerSecond start calls' ∧ Silent capacity refillPerSecond start calls') ↔
      capacity = 0 ∨ Spaced calls := by
  constructor
  · intro h
    by_cases hcapacity : capacity = 0
    · exact Or.inl hcapacity
    · exact Or.inr (spaced_of_silent hcapacity fun calls' hcalls => (h calls' hcalls).2)
  · intro h calls' hcalls
    have hsilent : Silent capacity refillPerSecond start calls' := by
      rcases h with rfl | hspaced
      · exact silent_of_empty
      · intro before now cost after hsplit hpos _
        exact hspaced.atMost hcalls before now cost after hsplit hpos
    refine ⟨bounded_of_silent ?_ hsilent, hsilent⟩
    rw [times_atMost hcalls]
    exact htimes

/-- A token that is spent before a pause, and asked for again behind it. -/
def oneToken : List (Instant × Call) := [(0, .tryAcquire 1), (0, .pauseFor 2), (2, .tryAcquire 1), (2, .tryAcquire 1)]

theorem oneToken_spaced : Spaced oneToken := by
  intro before now cost after h _ pause hpause
  have hends : pauseEnds before ⊆ [2] := fun p hp => by
    have hall : p ∈ pauseEnds (before ++ (now, .tryAcquire cost) :: after) := by
      rw [pauseEnds, List.filterMap_append]
      exact List.mem_append_left _ hp
    rw [← h] at hall
    simpa [oneToken, pauseEnds] using hall
  obtain rfl := List.mem_singleton.mp (hends hpause)
  -- the first call comes before any pause
  cases before with
  | nil => cases hpause
  | cons e before =>
    have hcall : (now, Call.tryAcquire cost) ∈ [(0, .pauseFor 2), (2, .tryAcquire 1), (2, .tryAcquire 1)] := by
      rw [(List.cons.inj h).2]
      exact List.mem_append_right _ List.mem_cons_self
    simp at hcall
    exact hcall.1.ge

theorem spent_before_pause : Spaced oneToken ∧
    ∀ calls', AtMost calls' oneToken → Bounded 1 1 0 calls' ∧ Silent 1 1 0 calls' :=
  ⟨oneToken_spaced, (bound_and_silence_iff 1 1 0 oneToken (by simp [oneToken])).mpr (Or.inr oneToken_spaced)⟩

/-- A full bucket that is emptied at the end of a pause, and once more behind it. -/
def emptiedTwice : List (Instant × Call) :=
  (0, .pauseFor 100) :: (List.replicate 4 (99, .tryAcquire 5) ++ List.replicate 4 (100, .tryAcquire 5))

theorem pause_granted_twice : ((0 : Instant) :: emptiedTwice.map Prod.fst).IsChain (· ≤ ·) ∧
    ¬Bounded 20 1 0 emptiedTwice ∧ ¬Silent 20 1 0 emptiedTwice := by
  refine ⟨by decide +kernel, ?_, ?_⟩
  · intro hbounded
    have hsecond := hbounded 99 100 (by norm_num)
    revert hsecond
    decide +kernel
  · intro hsilent
    have hend := hsilent [(0, .pauseFor 100)] 99 5 _ rfl (by decide) (by decide +kernel) 100 (by decide +kernel)
    norm_num at hend

end

end WhaleIntelligence.Gmgn
