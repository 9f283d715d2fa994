import Mathlib.Algebra.Order.Ring.Rat
import WhaleIntelligence.Lib.HashGroup
import WhaleIntelligence.Lib.LotRuns
import WhaleIntelligence.Lib.Loop
import WhaleIntelligence.Rust

/- The `fifo_match` of the wallet scoring, the older of the two.

   The trades come in one list, and the open lots of each mint are in a hash map.
   A buy opens a lot, a sell runs the loop over the open lots of its mint and
   closes a position. Amounts are exact rationals.

   The loop takes amount off a lot but no cost. On lots of non-negative amount it
   computes the draw that keeps the cost (`sellLoop_eq`), so a mint is charged what
   such draws charge over its trades alone (`positionsOf_eq`, `realized_eq`). -/
namespace WhaleIntelligence.Wallet.Scoring
open WhaleIntelligence FifoLots HashGroup

/-! ## Trades -/

inductive TradeSide where
  | buy | sell
  deriving DecidableEq, Repr

structure ScoredTrade where
  mint : String
  side : TradeSide
  tokenAmount : Rat
  usdValue : Option Rat
  blockTime : Option DateTime
  deriving DecidableEq, Repr

/-- A realized position. -/
structure MatchedPosition where
  mint : String
  realizedPnlUsd : Option Rat
  roi : Option Rat
  holdSeconds : Option Int
  deriving DecidableEq, Repr

/-- The dollars that a buy without a value opens its lot with are none. -/
def ScoredTrade.paid (t : ScoredTrade) : Rat := (t.usdValue.or (some (t.tokenAmount * 0))).getD 0

def ScoredTrade.proceeds (t : ScoredTrade) : Rat := t.usdValue.getD 0

theorem paid_eq (t : ScoredTrade) : t.paid = t.usdValue.getD 0 := by
  rw [ScoredTrade.paid, mul_zero]
  cases t.usdValue <;> rfl

/-! ## A sell -/

abbrev OpenLot := Lot Rat DateTime

/-- The accumulators of the loop of a sell. -/
structure SellState where
  remaining : Rat
  cost : Rat
  openTime : Option DateTime
  deriving DecidableEq, Repr

/-- One round of the loop, `none` when it has ended. -/
def sellStep : List OpenLot × SellState → Option (List OpenLot × SellState)
  | ([], _) => none
  | (lot :: rest, st) =>
    if 0 < st.remaining then
      let take := min st.remaining lot.amount
      let cost := if lot.cost ≠ 0 ∧ lot.amount ≠ 0 then st.cost + lot.cost * (take / lot.amount) else st.cost
      -- the lot keeps its whole cost
      let lot' : OpenLot := ⟨lot.amount - take, lot.cost, lot.time⟩
      let st' : SellState :=
        ⟨st.remaining - take, cost, if st.openTime.isNone then lot.time else st.openTime⟩
      some (if lot'.amount = 0 then rest else lot' :: rest, st')
    else none

/-- The loop of a sell. Every round but the last removes a lot. -/
def sellLoop (lots : List OpenLot) (st : SellState) : List OpenLot × SellState :=
  Loop.rounds sellStep (lots.length + 1) (lots, st)

/-! ## A list of trades -/

/-- The position a sell closes once its loop has ended. -/
def closePosition (t : ScoredTrade) (st : SellState) : MatchedPosition where
  mint := t.mint
  realizedPnlUsd := some (t.proceeds - st.cost)
  roi := if st.cost ≠ 0 then some ((t.proceeds - st.cost) / st.cost) else none
  holdSeconds := match st.openTime, t.blockTime with
    | some opened, some closed => some (max (numSeconds (closed - opened)) 0)
    | _, _ => none

def openLots (m : Map String (List OpenLot)) (mint : String) : List OpenLot := (m.lookup mint).getD []

/-- One trade: the open lots of each mint and the positions closed so far. -/
def matchTrade (st : Map String (List OpenLot) × List MatchedPosition) (t : ScoredTrade) :
    Map String (List OpenLot) × List MatchedPosition :=
  match t.side with
  | .buy => (st.1.insert t.mint (openLots st.1 t.mint ++ [⟨t.tokenAmount, t.paid, t.blockTime⟩]), st.2)
  | .sell =>
    let sold := sellLoop (openLots st.1 t.mint) ⟨t.tokenAmount, 0, none⟩
    (st.1.insert t.mint sold.1, st.2 ++ [closePosition t sold.2])

def fifoMatch (trades : List ScoredTrade) : List MatchedPosition := (trades.foldl matchTrade (∅, [])).2

/-! ## The loop ends -/

/-- A bound on the rounds that are left. -/
def roundsLeft (st : List OpenLot × SellState) : Nat := if 0 < st.2.remaining then st.1.length + 1 else 0

/-- A round ends the loop or removes a lot. -/
theorem sellStep_progress (st st' : List OpenLot × SellState) (h : sellStep st = some st') :
    roundsLeft st' < roundsLeft st := by
  obtain ⟨lots, st⟩ := st
  cases lots with
  | nil => cases h
  | cons lot rest =>
    rw [sellStep] at h
    split at h
    · rename_i hr
      obtain rfl := Option.some.inj h
      rw [roundsLeft, roundsLeft, if_pos hr]
      rcases le_total st.remaining lot.amount with hle | hle
      · rw [min_eq_left hle, sub_self, if_neg (lt_irrefl _)]
        exact Nat.succ_pos _
      · simp only [min_eq_right hle, sub_self, if_true, List.length_cons]
        split <;> omega
    · cases h

theorem roundsLeft_le (lots : List OpenLot) (st : SellState) : roundsLeft (lots, st) ≤ lots.length + 1 := by
  rw [roundsLeft]
  split
  · exact le_rfl
  · exact Nat.zero_le _

/-- The loop of a sell always ends, whatever the amounts are. -/
theorem sellLoop_exits (lots : List OpenLot) (st : SellState) : sellStep (sellLoop lots st) = none :=
  Loop.rounds_exits sellStep_progress _ _ (roundsLeft_le lots st)

/-! ## The loop is a draw -/

section
variable {lot : OpenLot} {rest : List OpenLot} {st : SellState}

theorem sellStep_done (lots : List OpenLot) (h : st.remaining ≤ 0) : sellStep (lots, st) = none := by
  cases lots with
  | nil => rfl
  | cons lot rest => rw [sellStep, if_neg (not_lt.mpr h)]

/-- What a round charges is the share of the lot, whether or not the code asks first. -/
theorem charge_eq (c take : Rat) : (if lot.cost ≠ 0 ∧ lot.amount ≠ 0 then c + lot.cost * (take / lot.amount) else c) =
    c + lot.share take := by
  split
  · rfl
  · rename_i h
    rw [Lot.share]
    by_cases hc : lot.cost = 0
    · rw [hc, zero_mul, add_zero]
    · rw [show lot.amount = 0 from not_not.mp fun ha => h ⟨hc, ha⟩, div_zero, mul_zero, add_zero]

theorem first_time : (if st.openTime.isNone then lot.time else st.openTime) = st.openTime.or lot.time := by
  cases st.openTime <;> rfl

theorem sellStep_whole (hr : 0 < st.remaining) (hl : lot.amount ≤ st.remaining) :
    sellStep (lot :: rest, st) = some (rest,
      ⟨st.remaining - lot.amount, st.cost + lot.share lot.amount, st.openTime.or lot.time⟩) := by
  rw [sellStep, if_pos hr]
  simp only [min_eq_right hl, sub_self, if_true, charge_eq, first_time]

theorem sellStep_part (hr : 0 < st.remaining) (hl : st.remaining < lot.amount) :
    sellStep (lot :: rest, st) = some (lot.keep st.remaining :: rest,
      ⟨0, st.cost + lot.share st.remaining, st.openTime.or lot.time⟩) := by
  have hleft : lot.amount - st.remaining ≠ 0 := (sub_pos.mpr hl).ne'
  rw [sellStep, if_pos hr]
  simp only [min_eq_left hl.le, sub_self, if_neg hleft, charge_eq, first_time]
  rfl

/-- Where the rounds of a sell lead. -/
def sellEnd (lots : List OpenLot) (st : SellState) : List OpenLot × SellState :=
  ((drawKeeping lots st.remaining).left, ⟨max 0 (st.remaining - supply lots),
    st.cost + (drawKeeping lots st.remaining).cost, st.openTime.or (drawKeeping lots st.remaining).since⟩)

theorem sellEnd_idle {lots : List OpenLot} (hs : Stocked lots) (hr : st.remaining = 0) :
    sellEnd lots st = (lots, st) := by
  obtain ⟨r, c, o⟩ := st
  obtain rfl : r = 0 := hr
  rw [sellEnd, drawKeeping_idle le_rfl, zero_sub, max_eq_left (neg_nonpos.mpr (supply_nonneg hs)), add_zero,
    Option.or_none]

/-- On a stocked inventory the rounds lead to the draw of what remains, where they end. -/
theorem sellSteps (lots : List OpenLot) (st : SellState) (hs : Stocked lots) (hr : 0 ≤ st.remaining) :
    Relation.ReflTransGen (Loop.Next sellStep) (lots, st) (sellEnd lots st) ∧
      sellStep (sellEnd lots st) = none := by
  induction lots generalizing st with
  | nil =>
    refine ⟨?_, rfl⟩
    rw [sellEnd, drawKeeping, supply_nil, sub_zero, max_eq_right hr, add_zero, Option.or_none]
  | cons lot rest ih =>
    have hrest : Stocked rest := fun l hl => hs l (List.mem_cons_of_mem _ hl)
    rcases hr.eq_or_lt with hzero | hpos
    · rw [sellEnd_idle hs hzero.symm]
      exact ⟨Relation.ReflTransGen.refl, sellStep_done _ hzero.ge⟩
    · rcases le_or_gt lot.amount st.remaining with hle | hlt
      · -- the lot is taken whole and the rest is drawn from the lots behind it
        have hend : sellEnd (lot :: rest) st = sellEnd rest
            ⟨st.remaining - lot.amount, st.cost + lot.share lot.amount, st.openTime.or lot.time⟩ := by
          rw [sellEnd, sellEnd, drawKeeping_whole hpos hle, supply_cons]
          simp only [Option.or_assoc, add_assoc, sub_sub]
        obtain ⟨hsteps, hdone⟩ := ih ⟨st.remaining - lot.amount, st.cost + lot.share lot.amount,
          st.openTime.or lot.time⟩ hrest (sub_nonneg.mpr hle)
        rw [hend]
        exact ⟨Relation.ReflTransGen.head (sellStep_whole hpos hle) hsteps, hdone⟩
      · -- the lot covers what remains and keeps the rest
        have hshort : st.remaining - supply (lot :: rest) ≤ 0 := by
          have := supply_nonneg hrest
          rw [supply_cons]
          linarith
        have hend : sellEnd (lot :: rest) st = (lot.keep st.remaining :: rest,
            ⟨0, st.cost + lot.share st.remaining, st.openTime.or lot.time⟩) := by
          rw [sellEnd, drawKeeping_part hpos hlt, max_eq_left hshort]
        rw [hend]
        exact ⟨Relation.ReflTransGen.single (sellStep_part hpos hlt), sellStep_done _ le_rfl⟩

end

/-- The loop of a sell on a stocked inventory. -/
theorem sellLoop_eq {lots : List OpenLot} {q : Rat} (hs : Stocked lots) (hq : 0 ≤ q) :
    sellLoop lots ⟨q, 0, none⟩ = ((drawKeeping lots q).left,
      ⟨max 0 (q - supply lots), (drawKeeping lots q).cost, (drawKeeping lots q).since⟩) := by
  obtain ⟨hsteps, hdone⟩ := sellSteps lots ⟨q, 0, none⟩ hs hq
  rw [sellLoop, Loop.rounds_eq sellStep_progress hsteps hdone _ (roundsLeft_le _ _), sellEnd]
  simp only [zero_add, Option.none_or]

/-! ## The trades of one mint -/

/-- The trades of a mint, in the order of the list. -/
def ofMint (trades : List ScoredTrade) (mint : String) : List ScoredTrade :=
  trades.filter fun t => t.mint = mint

def buys (trades : List ScoredTrade) : List ScoredTrade := trades.filter fun t => t.side = .buy

def sells (trades : List ScoredTrade) : List ScoredTrade := trades.filter fun t => t.side = .sell

/-- The positions of a mint. -/
def positionsOf (trades : List ScoredTrade) (mint : String) : List MatchedPosition :=
  (fifoMatch trades).filter fun p => p.mint = mint

/-- No amount and no value is negative. -/
def NonNegative (trades : List ScoredTrade) : Prop :=
  ∀ t ∈ trades, 0 ≤ t.tokenAmount ∧ 0 ≤ t.usdValue.getD 0

/-- What a trade does to the inventory of its mint. -/
def ScoredTrade.op (t : ScoredTrade) : Op Rat DateTime :=
  match t.side with
  | .buy => .add ⟨t.tokenAmount, t.paid, t.blockTime⟩
  | .sell => .take t.tokenAmount

/-- The open lots after the trades of one mint, and the positions they close. -/
def replay : List OpenLot → List ScoredTrade → List OpenLot × List MatchedPosition
  | lots, [] => (lots, [])
  | lots, t :: later =>
    match t.side with
    | .buy => replay (lots ++ [⟨t.tokenAmount, t.paid, t.blockTime⟩]) later
    | .sell =>
      let sold := sellLoop lots ⟨t.tokenAmount, 0, none⟩
      let rest := replay sold.1 later
      (rest.1, closePosition t sold.2 :: rest.2)

section
variable {t : ScoredTrade} {trades : List ScoredTrade} {lots : List OpenLot} {mint : String}

theorem side_cases (t : ScoredTrade) : t.side = .buy ∨ t.side = .sell := by
  cases t.side with
  | buy => exact Or.inl rfl
  | sell => exact Or.inr rfl

theorem sells_cons_buy (h : t.side = .buy) : sells (t :: trades) = sells trades := by
  simp [sells, h]

theorem sells_cons_sell (h : t.side = .sell) : sells (t :: trades) = t :: sells trades := by
  simp [sells, h]

theorem buys_cons_buy (h : t.side = .buy) : buys (t :: trades) = t :: buys trades := by
  simp [buys, h]

theorem buys_cons_sell (h : t.side = .sell) : buys (t :: trades) = buys trades := by
  simp [buys, h]

theorem op_buy (h : t.side = .buy) : t.op = .add ⟨t.tokenAmount, t.paid, t.blockTime⟩ := by
  rw [ScoredTrade.op, h]

theorem op_sell (h : t.side = .sell) : t.op = .take t.tokenAmount := by
  rw [ScoredTrade.op, h]

theorem replay_buy (h : t.side = .buy) :
    replay lots (t :: trades) = replay (lots ++ [⟨t.tokenAmount, t.paid, t.blockTime⟩]) trades := by
  rw [replay, h]

theorem replay_sell (h : t.side = .sell) :
    replay lots (t :: trades) = ((replay (sellLoop lots ⟨t.tokenAmount, 0, none⟩).1 trades).1,
      closePosition t (sellLoop lots ⟨t.tokenAmount, 0, none⟩).2 ::
        (replay (sellLoop lots ⟨t.tokenAmount, 0, none⟩).1 trades).2) := by
  rw [replay, h]

theorem ofMint_cons_self : ofMint (t :: trades) t.mint = t :: ofMint trades t.mint := by
  simp [ofMint]

theorem ofMint_cons_ne (h : t.mint ≠ mint) : ofMint (t :: trades) mint = ofMint trades mint := by
  simp [ofMint, h]

theorem openLots_insert_self (m : Map String (List OpenLot)) (mint : String) (lots : List OpenLot) :
    openLots (m.insert mint lots) mint = lots := by
  rw [openLots, AList.lookup_insert, Option.getD_some]

theorem openLots_insert_ne (m : Map String (List OpenLot)) {mint other : String} (h : other ≠ mint)
    (lots : List OpenLot) : openLots (m.insert other lots) mint = openLots m mint := by
  rw [openLots, AList.lookup_insert_ne h.symm, openLots]

/-- The positions of a mint are those of its trades alone. -/
theorem foldl_matchTrade (mint : String) (trades : List ScoredTrade) :
    ∀ (m : Map String (List OpenLot)) (ps : List MatchedPosition),
    (trades.foldl matchTrade (m, ps)).2.filter (fun p => p.mint = mint) =
      ps.filter (fun p => p.mint = mint) ++ (replay (openLots m mint) (ofMint trades mint)).2 := by
  induction trades with
  | nil => intro m ps; simp [ofMint, replay]
  | cons t later ih =>
    intro m ps
    rw [List.foldl_cons, matchTrade]
    rcases side_cases t with hside | hside
    · rw [hside]
      simp only
      rw [ih]
      by_cases hm : t.mint = mint
      · subst hm
        rw [openLots_insert_self, ofMint_cons_self, replay_buy hside]
      · rw [openLots_insert_ne m hm, ofMint_cons_ne hm]
    · rw [hside]
      simp only
      rw [ih, List.filter_append]
      by_cases hm : t.mint = mint
      · subst hm
        rw [openLots_insert_self, ofMint_cons_self, replay_sell hside]
        simp [closePosition]
      · rw [openLots_insert_ne m hm, ofMint_cons_ne hm]
        simp [closePosition, hm]

theorem positionsOf_eq (trades : List ScoredTrade) (mint : String) :
    positionsOf trades mint = (replay [] (ofMint trades mint)).2 := by
  rw [positionsOf, fifoMatch, foldl_matchTrade, List.filter_nil, List.nil_append]
  rfl

theorem NonNegative.tail (h : NonNegative (t :: trades)) : NonNegative trades :=
  fun s hs => h s (List.mem_cons_of_mem _ hs)

theorem NonNegative.ofMint (h : NonNegative trades) (mint : String) : NonNegative (ofMint trades mint) :=
  fun s hs => h s (List.mem_of_mem_filter hs)

theorem NonNegative.sound (h : NonNegative trades) : Sound (trades.map ScoredTrade.op) := by
  intro op hop
  obtain ⟨t, ht, rfl⟩ := List.mem_map.mp hop
  rcases side_cases t with hside | hside
  · rw [op_buy hside]
    exact ⟨(h t ht).1, (paid_eq t).symm ▸ (h t ht).2⟩
  · rw [op_sell hside]
    exact (h t ht).1

/-- The PnL of each sell is its value less what the keeping draw charges to it. -/
theorem realized_eq (trades : List ScoredTrade) : ∀ (lots : List OpenLot), Stocked lots → NonNegative trades →
    (replay lots trades).2.map MatchedPosition.realizedPnlUsd =
      List.zipWith (fun t c => some (t.proceeds - c)) (sells trades)
        (charges drawKeeping lots (trades.map ScoredTrade.op)) := by
  induction trades with
  | nil => exact fun lots _ _ => rfl
  | cons t later ih =>
    intro lots hs hn
    obtain ⟨hamount, -⟩ := hn t List.mem_cons_self
    rcases side_cases t with hside | hside
    · rw [replay_buy hside, sells_cons_buy hside, List.map_cons, op_buy hside, charges]
      exact ih _ (stocked_concat hs hamount) hn.tail
    · have hops : (t :: later).map ScoredTrade.op = .take t.tokenAmount :: later.map ScoredTrade.op := by
        rw [List.map_cons, op_sell hside]
      rw [replay_sell hside, sells_cons_sell hside, hops, charges, sellLoop_eq hs hamount, List.map_cons,
        List.zipWith_cons_cons, ih _ (stocked_drawKeeping hs) hn.tail]
      rfl

end

end WhaleIntelligence.Wallet.Scoring
