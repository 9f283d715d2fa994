import Mathlib.Algebra.Order.Ring.Rat
import WhaleIntelligence.Lib.FifoLots
import WhaleIntelligence.Lib.HashGroup
import WhaleIntelligence.Rust

/- `fifo_match`: matching the sells of a wallet with its buys, first in, first out.

   The swaps are grouped by chain, wallet and token, and each group is replayed
   in the order of its timestamps: a buy opens a lot, a sell runs the loop over
   the open lots and closes a position. Amounts are exact rationals. The groups
   come in the iteration order of a hash map, which is a parameter.

   The loop of a sell is modelled as it runs, one lot at a time
   (`sellStep`), and always ends (`sellLoop_exits`). It computes the draw of the
   library (`sellLoop_draw`), so the accounting of a group is that of its draws. -/
namespace WhaleIntelligence.Wallet
open WhaleIntelligence FifoLots HashGroup

/-! ## Swaps -/

inductive SwapDirection where
  | buy | sell
  deriving DecidableEq, Repr

/-- A swap. The amounts are decimal texts. -/
structure Swap where
  chain : String
  wallet : String
  token : String
  direction : SwapDirection
  amountIn : String
  amountOut : String
  timestamp : String
  deriving DecidableEq, Repr

/-- A swap with its value in dollars. -/
structure ScoredSwap where
  swap : Swap
  usdValue : Rat
  deriving DecidableEq, Repr

/-- A realized position. `roi` is absent when the cost is zero, and
`holdSeconds` when one of the two times is unknown. -/
structure MatchedPosition where
  token : String
  realizedPnl : Rat
  roi : Option Rat
  holdSeconds : Option Int
  unmatchedSellAmount : Rat
  deriving DecidableEq, Repr

/-- Chain, wallet and token. -/
abbrev SwapKey := String × String × String

/-- The open amount and the open cost of each key. -/
structure CostBasisResidual where
  perToken : Map SwapKey (Rat × Rat)

def ScoredSwap.key (s : ScoredSwap) : SwapKey := (s.swap.chain, s.swap.wallet, s.swap.token)

/-- A text that does not parse counts as zero. -/
def parseDecimal (x : Crates) (s : String) : Rat := (x.parseDecimal s).getD 0

/-- The Unix seconds of the swap, if its timestamp parses. -/
def Swap.timestampSecs (x : Crates) (s : Swap) : Option Int :=
  (x.parseDateTime s.timestamp).map WhaleIntelligence.timestamp

/-- The amount of token that a buy receives. -/
def ScoredSwap.bought (x : Crates) (s : ScoredSwap) : Rat := parseDecimal x s.swap.amountOut

/-- The amount of token that a sell gives. -/
def ScoredSwap.sold (x : Crates) (s : ScoredSwap) : Rat := parseDecimal x s.swap.amountIn

/-! ## A sell -/

abbrev OpenLot := Lot Rat Int

/-- The accumulators of the loop of a sell. -/
structure SellState where
  remaining : Rat
  cost : Rat
  openTime : Option Int
  matchedAmount : Rat
  deriving DecidableEq, Repr

/-- One round of the loop, `none` when it has ended. -/
def sellStep : List OpenLot × SellState → Option (List OpenLot × SellState)
  | ([], _) => none
  | (lot :: rest, st) =>
    if 0 < st.remaining then
      let take := min st.remaining lot.amount
      -- an empty lot charges nothing; it is removed below, and its cost with it
      let takenCost := if lot.amount ≠ 0 then lot.cost * (take / lot.amount) else 0
      let lot' : OpenLot := ⟨lot.amount - take, lot.cost - takenCost, lot.time⟩
      let st' : SellState := ⟨st.remaining - take, st.cost + takenCost,
        if st.openTime.isNone then lot.time else st.openTime, st.matchedAmount + take⟩
      some (if lot'.amount = 0 then rest else lot' :: rest, st')
    else none

def sellRounds : Nat → List OpenLot × SellState → List OpenLot × SellState
  | 0, st => st
  | n + 1, st =>
    match sellStep st with
    | none => st
    | some st' => sellRounds n st'

/-- The loop of a sell. Every round but the last removes a lot. -/
def sellLoop (lots : List OpenLot) (st : SellState) : List OpenLot × SellState :=
  sellRounds (lots.length + 1) (lots, st)

/-! ## A group of swaps -/

/-- The position a sell closes once its loop has ended. -/
def closePosition (x : Crates) (token : String) (s : ScoredSwap) (st : SellState) : MatchedPosition :=
  -- only the part that lots backed has proceeds
  let matchedProceeds := if s.sold x ≠ 0 then s.usdValue * (st.matchedAmount / s.sold x) else 0
  let pnl := matchedProceeds - st.cost
  { token := token
    realizedPnl := pnl
    roi := if st.cost ≠ 0 then some (pnl / st.cost) else none
    holdSeconds := match st.openTime, s.swap.timestampSecs x with
      | some o, some c => some (max (c - o) 0)
      | _, _ => none
    unmatchedSellAmount := st.remaining }

/-- One swap of a group: the open lots and the positions closed so far. -/
def matchSwap (x : Crates) (token : String) (st : List OpenLot × List MatchedPosition) (s : ScoredSwap) :
    List OpenLot × List MatchedPosition :=
  match s.swap.direction with
  | .buy => (st.1 ++ [⟨s.bought x, s.usdValue, s.swap.timestampSecs x⟩], st.2)
  | .sell =>
    let sold := sellLoop st.1 ⟨s.sold x, 0, none, 0⟩
    (sold.1, st.2 ++ [closePosition x token s sold.2])

def matchGroup (x : Crates) (token : String) (swaps : List ScoredSwap) : List OpenLot × List MatchedPosition :=
  swaps.foldl (matchSwap x token) ([], [])

/-- The time that orders a group; an unknown one comes first. -/
def sortTime (x : Crates) (s : ScoredSwap) : Int := (s.swap.timestampSecs x).getD 0

/-- The stable sort of a group. -/
def chronological (x : Crates) (swaps : List ScoredSwap) : List ScoredSwap :=
  swaps.insertionSort fun a b => sortTime x a ≤ sortTime x b

/-- The open amount and the open cost. -/
def openTotals (lots : List OpenLot) : Rat × Rat :=
  lots.foldl (fun t l => (t.1 + l.amount, t.2 + l.cost)) (0, 0)

/-- Match the swaps of all keys, in the iteration order `order` of the groups. -/
def fifoMatch (x : Crates) (order : Order SwapKey (List ScoredSwap)) (swaps : List ScoredSwap) :
    List MatchedPosition × CostBasisResidual :=
  (order.iterate (groupBy ScoredSwap.key swaps)).foldl
    (fun out group =>
      let matched := matchGroup x group.1.2.2 (chronological x group.2)
      (out.1 ++ matched.2, ⟨out.2.perToken.insert group.1 (openTotals matched.1)⟩))
    ([], ⟨∅⟩)

/-! ## The loop ends -/

/-- A round ends the loop or removes a lot. -/
theorem sellStep_progress {lots lots' : List OpenLot} {st st' : SellState}
    (h : sellStep (lots, st) = some (lots', st')) : lots'.length < lots.length ∨ st'.remaining = 0 := by
  cases lots with
  | nil => cases h
  | cons lot rest =>
    rw [sellStep] at h
    split at h
    · simp only [Option.some.injEq, Prod.mk.injEq] at h
      obtain ⟨rfl, rfl⟩ := h
      rcases le_total st.remaining lot.amount with hle | hle
      · exact Or.inr (by rw [min_eq_left hle, sub_self])
      · rw [min_eq_right hle, sub_self, if_pos rfl]
        exact Or.inl (Nat.lt_succ_self _)
    · cases h

theorem sellStep_done (lots : List OpenLot) {st : SellState} (h : st.remaining ≤ 0) : sellStep (lots, st) = none := by
  cases lots with
  | nil => rfl
  | cons lot rest => rw [sellStep, if_neg (not_lt.mpr h)]

theorem sellRounds_done {st : List OpenLot × SellState} (h : sellStep st = none) (n : Nat) :
    sellRounds n st = st := by
  cases n with
  | zero => rfl
  | succ n => rw [sellRounds, h]

theorem sellRounds_exits : ∀ (n : Nat) (lots : List OpenLot) (st : SellState), lots.length < n →
    sellStep (sellRounds n (lots, st)) = none
  | 0, _, _, hn => absurd hn (Nat.not_lt_zero _)
  | n + 1, lots, st, hn => by
    cases hstep : sellStep (lots, st) with
    | none => rw [sellRounds_done hstep]; exact hstep
    | some next =>
      obtain ⟨lots', st'⟩ := next
      rw [sellRounds, hstep]
      -- either a lot less for the rounds left, or the loop is over
      rcases sellStep_progress hstep with hlt | hzero
      · exact sellRounds_exits n lots' st' (by omega)
      · have hdone : sellStep (lots', st') = none := sellStep_done lots' hzero.le
        show sellStep (sellRounds n (lots', st')) = none
        rw [sellRounds_done hdone]
        exact hdone

/-- The loop of a sell always ends, whatever the amounts are. -/
theorem sellLoop_exits (lots : List OpenLot) (st : SellState) : sellStep (sellLoop lots st) = none :=
  sellRounds_exits _ lots st (Nat.lt_succ_self _)

/-! ## The loop is a draw -/

section
variable {lot : OpenLot} {rest : List OpenLot} {st : SellState}

theorem sellStep_whole (hr : 0 < st.remaining) (hl : lot.amount ≤ st.remaining) :
    sellStep (lot :: rest, st) = some (rest, ⟨st.remaining - lot.amount, st.cost + lot.share lot.amount,
      st.openTime.or lot.time, st.matchedAmount + lot.amount⟩) := by
  have hcost : (if lot.amount ≠ 0 then lot.cost * (lot.amount / lot.amount) else 0) = lot.share lot.amount := by
    split
    · rfl
    · rename_i h
      rw [share_empty (not_not.mp h)]
  have htime : (if st.openTime.isNone then lot.time else st.openTime) = st.openTime.or lot.time := by
    cases st.openTime <;> rfl
  rw [sellStep, if_pos hr]
  simp only [min_eq_right hl, hcost, htime, sub_self, if_true]

theorem sellStep_part (hr : 0 < st.remaining) (hl : st.remaining < lot.amount) :
    sellStep (lot :: rest, st) = some (lot.rest st.remaining :: rest, ⟨0, st.cost + lot.share st.remaining,
      st.openTime.or lot.time, st.matchedAmount + st.remaining⟩) := by
  have hne : lot.amount ≠ 0 := (hr.trans hl).ne'
  have hleft : lot.amount - st.remaining ≠ 0 := (sub_pos.mpr hl).ne'
  have htime : (if st.openTime.isNone then lot.time else st.openTime) = st.openTime.or lot.time := by
    cases st.openTime <;> rfl
  rw [sellStep, if_pos hr]
  simp only [min_eq_left hl.le, if_pos hne, htime, sub_self, if_neg hleft]
  rfl

/-- The rounds compute the draw of what remains, whatever the amounts of the lots are. -/
theorem sellRounds_eq : ∀ (lots : List OpenLot) (n : Nat) (st : SellState), lots.length < n →
    sellRounds n (lots, st) =
      ((draw lots st.remaining).left, ⟨short lots st.remaining, st.cost + (draw lots st.remaining).cost,
        st.openTime.or (draw lots st.remaining).since,
        st.matchedAmount + (st.remaining - short lots st.remaining)⟩)
  | [], n, st, _ => by
    rw [sellRounds_done rfl, draw, short, sub_self, add_zero, add_zero, Option.or_none]
  | lot :: rest, 0, st, hn => absurd hn (Nat.not_lt_zero _)
  | lot :: rest, n + 1, st, hn => by
    rcases le_or_gt st.remaining 0 with hdone | hpos
    · rw [sellRounds_done (sellStep_done _ hdone), draw_idle hdone, short_idle hdone, sub_self, add_zero, add_zero,
        Option.or_none]
    · rcases le_or_gt lot.amount st.remaining with hle | hlt
      · -- the lot is taken whole and the rest is drawn from the lots behind it
        have hlen : rest.length < n := Nat.lt_of_succ_lt_succ hn
        rw [sellRounds, sellStep_whole hpos hle]
        simp only
        rw [sellRounds_eq rest n _ hlen, draw_whole hpos hle, short_whole hpos hle]
        simp only [Option.or_assoc, add_assoc, Prod.mk.injEq, SellState.mk.injEq, true_and]
        ring
      · -- the lot covers what remains and keeps the rest
        have hdone : sellStep (lot.rest st.remaining :: rest, (⟨0, st.cost + lot.share st.remaining,
            st.openTime.or lot.time, st.matchedAmount + st.remaining⟩ : SellState)) = none :=
          sellStep_done _ le_rfl
        rw [sellRounds, sellStep_part hpos hlt]
        simp only
        rw [sellRounds_done hdone, draw_part hpos hlt, short_part hpos hlt, sub_zero]

end

/-- The loop of a sell. -/
theorem sellLoop_draw (lots : List OpenLot) (q : Rat) :
    sellLoop lots ⟨q, 0, none, 0⟩ =
      ((draw lots q).left, ⟨short lots q, (draw lots q).cost, (draw lots q).since, q - short lots q⟩) := by
  rw [sellLoop, sellRounds_eq lots _ _ (Nat.lt_succ_self _), zero_add, zero_add, Option.none_or]

theorem sub_max_zero (q r : Rat) : q - max 0 (q - r) = min q r := by
  rcases le_total q r with h | h
  · rw [max_eq_left (sub_nonpos.mpr h), sub_zero, min_eq_left h]
  · rw [max_eq_right (sub_nonneg.mpr h), min_eq_right h, sub_sub_cancel]

/-- The loop of a sell on a stocked inventory. -/
theorem sellLoop_eq {lots : List OpenLot} {q : Rat} (hs : Stocked lots) (hq : 0 ≤ q) :
    sellLoop lots ⟨q, 0, none, 0⟩ = ((draw lots q).left,
      ⟨max 0 (q - supply lots), (draw lots q).cost, (draw lots q).since, min q (supply lots)⟩) := by
  rw [sellLoop_draw, short_eq hq hs, sub_max_zero]

end WhaleIntelligence.Wallet
