import Mathlib.Algebra.BigOperators.Group.List.Basic
import Mathlib.Algebra.Order.BigOperators.Group.List
import Mathlib.Algebra.Order.Field.Basic
import Mathlib.Logic.Relation
import Mathlib.Tactic.Linarith
import Mathlib.Tactic.Ring

/- Token buckets.

   A bucket fills at a rate up to its capacity, and a cost is paid where there are tokens
   for it. What is paid from a time on, and what the bucket holds, come to at most its
   capacity and what it was filled with since (`Balanced.room`): so a window of any length
   has at most the capacity and what the bucket is filled with in it (`paid_le`). With one
   token for each cost that counts the tokens that are taken (`taken_le`). -/
namespace Bucket
open Relation

section
variable {K : Type} [LinearOrder K]

/-- How many of the times are in the window. -/
def within (a b : K) (times : List K) : Nat := times.countP fun t => a ≤ t && t ≤ b

end

/-- The clock, the tokens when the bucket was last filled, when that was, and the times
at which tokens were taken. -/
@[ext]
structure State (K : Type) where
  clock : K
  tokens : K
  filled : K
  taken : List K
  deriving DecidableEq, Repr

section
variable {K : Type} [Field K] [LinearOrder K]

/-- What the bucket holds by the clock. -/
def State.level (capacity rate : K) (s : State K) : K := min (s.tokens + (s.clock - s.filled) * rate) capacity

inductive Step (capacity rate : K) : State K → State K → Prop
  | wait (s : State K) (now : K) : s.clock ≤ now → Step capacity rate s { s with clock := now }
  | fill (s : State K) : Step capacity rate s { s with tokens := s.level capacity rate, filled := s.clock }
  | take (s : State K) : 1 ≤ s.level capacity rate → Step capacity rate s
      { s with tokens := s.level capacity rate - 1, filled := s.clock, taken := s.taken ++ [s.clock] }

/-! ## Costs -/

/-- What the payments of the window come to. -/
def paid (a b : K) (payments : List (K × K)) : K :=
  (payments.map fun e => if a ≤ e.1 ∧ e.1 ≤ b then e.2 else 0).sum

/-- What the payments not before `a` come to. -/
def paidSince (a : K) (payments : List (K × K)) : K := (payments.map fun e => if a ≤ e.1 then e.2 else 0).sum

/-- A bucket with the times and costs that were paid from it. -/
@[ext]
structure Account (K : Type) where
  clock : K
  tokens : K
  filled : K
  payments : List (K × K)
  deriving DecidableEq, Repr

def Account.level (capacity rate : K) (s : Account K) : K := min (s.tokens + (s.clock - s.filled) * rate) capacity

inductive Payment (capacity rate : K) : Account K → Account K → Prop
  | wait (s : Account K) (now : K) : s.clock ≤ now → Payment capacity rate s { s with clock := now }
  | fill (s : Account K) : Payment capacity rate s { s with tokens := s.level capacity rate, filled := s.clock }
  | pay (s : Account K) (cost : K) : 0 ≤ cost → cost ≤ s.level capacity rate → Payment capacity rate s
      { s with
        tokens := s.level capacity rate - cost
        filled := s.clock
        payments := s.payments ++ [(s.clock, cost)] }

theorem paid_append (a b : K) (l l' : List (K × K)) : paid a b (l ++ l') = paid a b l + paid a b l' := by
  rw [paid, List.map_append, List.sum_append]
  rfl

/-- What costs nothing pays nothing. -/
theorem paid_filter (a b : K) (l : List (K × K)) : paid a b (l.filter fun e => e.2 ≠ 0) = paid a b l := by
  induction l with
  | nil => rfl
  | cons e l ih =>
    by_cases he : e.2 = 0
    · have hzero : paid a b [e] = 0 := by simp [paid, he]
      rw [List.filter_cons_of_neg (by simpa using he), ih, ← List.singleton_append, paid_append, hzero, zero_add]
    · rw [List.filter_cons_of_pos (by simpa using he), ← List.singleton_append, paid_append, ih, ← paid_append,
        List.singleton_append]

theorem paidSince_append (a : K) (l l' : List (K × K)) : paidSince a (l ++ l') = paidSince a l + paidSince a l' := by
  rw [paidSince, List.map_append, List.sum_append]
  rfl

variable {capacity rate : K} {s t : Account K}

theorem level_filled (tokens : K) (payments : List (K × K)) :
    Account.level capacity rate ⟨s.clock, tokens, s.clock, payments⟩ = min tokens capacity := by
  rw [Account.level, sub_self, zero_mul, add_zero]

variable [IsStrictOrderedRing K]

theorem paid_le_since (a b : K) {l : List (K × K)} (hcost : ∀ e ∈ l, 0 ≤ e.2) : paid a b l ≤ paidSince a l := by
  apply List.sum_le_sum
  intro e he
  by_cases ha : a ≤ e.1
  · rw [if_pos ha]
    split
    · exact le_rfl
    · exact hcost e he
  · rw [if_neg ha, if_neg fun h => ha h.1]

omit [IsStrictOrderedRing K] in
theorem paidSince_eq_zero {a : K} {l : List (K × K)} (h : ∀ e ∈ l, e.1 < a) : paidSince a l = 0 := by
  apply List.sum_eq_zero
  intro x hx
  obtain ⟨e, he, rfl⟩ := List.mem_map.mp hx
  exact if_neg (not_le.mpr (h e he))

/-! ## The invariant -/

structure Balanced (capacity rate : K) (s : Account K) : Prop where
  past : ∀ e ∈ s.payments, e.1 ≤ s.clock
  costs : ∀ e ∈ s.payments, 0 ≤ e.2
  filled : s.filled ≤ s.clock
  nonneg : 0 ≤ s.tokens
  /-- What was paid since `a` and what is there: at most what was there and came in. -/
  room : ∀ a, a ≤ s.clock → paidSince a s.payments + s.level capacity rate ≤ capacity + rate * (s.clock - a)
  bounded : ∀ a b, a ≤ b → paid a b s.payments ≤ capacity + rate * (b - a)

theorem level_nonneg (hrate : 0 ≤ rate) (hcapacity : 0 ≤ capacity) (hs : Balanced capacity rate s) :
    0 ≤ s.level capacity rate := by
  apply le_min _ hcapacity
  have hcame : 0 ≤ (s.clock - s.filled) * rate := mul_nonneg (sub_nonneg.mpr hs.filled) hrate
  exact add_nonneg hs.nonneg hcame

variable (capacity s) in
/-- Waiting fills the bucket by no more than the rate gives. -/
theorem level_wait (hrate : 0 ≤ rate) {now : K} (hnow : s.clock ≤ now) :
    Account.level capacity rate { s with clock := now } ≤ s.level capacity rate + rate * (now - s.clock) := by
  have hcame : 0 ≤ rate * (now - s.clock) := mul_nonneg hrate (sub_nonneg.mpr hnow)
  have hsum : s.tokens + (now - s.filled) * rate =
    s.tokens + (s.clock - s.filled) * rate + rate * (now - s.clock) := by ring
  rw [Account.level, Account.level, hsum, min_add]
  exact min_le_min_left _ (le_add_of_nonneg_right hcame)

theorem balanced_wait (hrate : 0 ≤ rate) (hs : Balanced capacity rate s) {now : K} (hnow : s.clock ≤ now) :
    Balanced capacity rate { s with clock := now } := by
  refine ⟨fun e he => (hs.past e he).trans hnow, hs.costs, hs.filled.trans hnow, hs.nonneg, fun a ha => ?_, hs.bounded⟩
  have hwait := level_wait capacity s hrate hnow
  show paidSince a s.payments + _ ≤ capacity + rate * (now - a)
  rcases le_or_gt a s.clock with h | h
  · have hroom := hs.room a h
    have hsum : capacity + rate * (now - a) = capacity + rate * (s.clock - a) + rate * (now - s.clock) := by ring
    linarith
  · -- nothing was paid after the clock
    have hzero : paidSince a s.payments = 0 := paidSince_eq_zero fun e he => (hs.past e he).trans_lt h
    have hcame : 0 ≤ rate * (now - a) := mul_nonneg hrate (sub_nonneg.mpr ha)
    have hle : Account.level capacity rate { s with clock := now } ≤ capacity := min_le_right _ _
    rw [hzero]
    linarith

/-- A payment in the window is paid from what is left of the room since its start. -/
theorem bounded_pay (hrate : 0 ≤ rate) (hs : Balanced capacity rate s) {cost : K}
    (hpay : cost ≤ s.level capacity rate) {a b : K} (hab : a ≤ b) :
    paid a b (s.payments ++ [(s.clock, cost)]) ≤ capacity + rate * (b - a) := by
  rw [paid_append]
  by_cases hin : a ≤ s.clock ∧ s.clock ≤ b
  · have hroom := hs.room a hin.1
    have hcount : paid a b s.payments ≤ paidSince a s.payments := paid_le_since a b hs.costs
    have hnew : paid a b [(s.clock, cost)] = cost := by simp [paid, hin]
    have hmono : rate * (s.clock - a) ≤ rate * (b - a) := mul_le_mul_of_nonneg_left (by linarith [hin.2]) hrate
    rw [hnew]
    linarith
  · -- the payment is outside of the window
    have hnew : paid a b [(s.clock, cost)] = 0 := by simp [paid, hin]
    rw [hnew, add_zero]
    exact hs.bounded a b hab

theorem balanced_step (hrate : 0 ≤ rate) (hcapacity : 0 ≤ capacity) (hs : Balanced capacity rate s)
    (h : Payment capacity rate s t) : Balanced capacity rate t := by
  have hlevel := level_nonneg hrate hcapacity hs
  have hle : s.level capacity rate ≤ capacity := min_le_right _ _
  cases h with
  | wait now hnow => exact balanced_wait hrate hs hnow
  | fill =>
    refine ⟨hs.past, hs.costs, le_rfl, hlevel, fun a ha => ?_, hs.bounded⟩
    rw [level_filled, min_eq_left hle]
    exact hs.room a ha
  | pay cost hcost hpay =>
    refine ⟨fun e he => ?_, fun e he => ?_, le_rfl, sub_nonneg.mpr hpay, fun a ha => ?_,
      fun a b hab => bounded_pay hrate hs hpay hab⟩
    · obtain he | he := List.mem_append.mp he
      · exact hs.past e he
      · rw [List.mem_singleton.mp he]
    · obtain he | he := List.mem_append.mp he
      · exact hs.costs e he
      · rw [List.mem_singleton.mp he]
        exact hcost
    · have hroom := hs.room a ha
      have hnew : paidSince a [(s.clock, cost)] = cost := by
        rw [paidSince, List.map_singleton, List.sum_singleton]
        exact if_pos ha
      show paidSince a (s.payments ++ [(s.clock, cost)]) + _ ≤ capacity + rate * (s.clock - a)
      rw [paidSince_append, hnew, level_filled, min_eq_left (by linarith)]
      linarith

/-- From a full bucket, every window has at most the capacity and what comes in with it. -/
theorem paid_le (hrate : 0 ≤ rate) (hcapacity : 0 ≤ capacity) (hrun : ReflTransGen (Payment capacity rate) s t)
    (hfull : s.tokens = capacity) (hfilled : s.filled ≤ s.clock) (hpayments : s.payments = []) {a b : K} (hab : a ≤ b) :
    paid a b t.payments ≤ capacity + rate * (b - a) := by
  have hcame : ∀ a b : K, a ≤ b → 0 ≤ rate * (b - a) := fun a b h => mul_nonneg hrate (sub_nonneg.mpr h)
  have hs : Balanced capacity rate s := by
    refine ⟨by simp [hpayments], by simp [hpayments], hfilled, hfull ▸ hcapacity, fun a ha => ?_, fun a b h => ?_⟩
    · have hle : s.level capacity rate ≤ capacity := min_le_right _ _
      have hzero : paidSince a s.payments = 0 := by rw [hpayments]; rfl
      rw [hzero]
      linarith [hcame a s.clock ha]
    · have hzero : paid a b s.payments = 0 := by rw [hpayments]; rfl
      rw [hzero]
      linarith [hcame a b h]
  have ht : Balanced capacity rate t := by
    induction hrun with
    | refl => exact hs
    | tail _ hstep ih => exact balanced_step hrate hcapacity ih hstep
  exact ht.bounded a b hab

/-! ## One token for each -/

/-- The bucket with a cost of one for each token that was taken. -/
def State.account (s : State K) : Account K := ⟨s.clock, s.tokens, s.filled, s.taken.map fun t => (t, 1)⟩

theorem payment_of_step {s t : State K} (h : Step capacity rate s t) : Payment capacity rate s.account t.account := by
  cases h with
  | wait now hnow => exact .wait s.account now hnow
  | fill => exact .fill s.account
  | take hone =>
    have hpay : Payment capacity rate s.account _ := .pay s.account 1 zero_le_one hone
    show Payment capacity rate s.account ⟨s.clock, s.level capacity rate - 1, s.clock, (s.taken ++ [s.clock]).map _⟩
    rw [List.map_append]
    exact hpay

omit [IsStrictOrderedRing K] in
theorem paid_times (a b : K) (times : List K) : paid a b (times.map fun t => (t, 1)) = within a b times := by
  induction times with
  | nil => simp [paid, within]
  | cons t times ih =>
    rw [within, List.countP_cons, Nat.cast_add, ← within, ← ih, paid, paid, List.map_cons, List.map_cons,
      List.sum_cons, add_comm]
    by_cases h : a ≤ t ∧ t ≤ b
    · simp [h]
    · simp [h]

/-- From a full bucket, every window has at most as many tokens as its capacity and what comes in with it. -/
theorem taken_le (hrate : 0 ≤ rate) (hcapacity : 0 ≤ capacity) {s t : State K}
    (hrun : ReflTransGen (Step capacity rate) s t) (hfull : s.tokens = capacity) (hfilled : s.filled ≤ s.clock)
    (htaken : s.taken = []) {a b : K} (hab : a ≤ b) : (within a b t.taken : K) ≤ capacity + rate * (b - a) := by
  have hpaid : ReflTransGen (Payment capacity rate) s.account t.account :=
    hrun.lift State.account fun _ _ h => payment_of_step h
  rw [← paid_times]
  refine paid_le hrate hcapacity hpaid hfull hfilled ?_ hab
  rw [State.account, htaken]
  rfl

end

end Bucket
