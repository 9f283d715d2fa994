import Mathlib.Data.List.Forall2
import WhaleIntelligence.Wallet.CostBasis

/- What `fifo_match` conserves, for each key.

   The accounting of a group is an induction on its swaps, from any stocked
   inventory: `replay_balance` for the amounts and `replay_cost` for the costs.
   Amounts balance always (`fifoMatch_quantity`). Costs do not: a buy whose amount
   is zero opens an empty lot, and a sell that comes to the lot removes it with
   its cost. `strandedCost` adds up these buys from the swaps alone, and the costs
   balance exactly when the sum is zero (`fifoMatch_cost`). -/
namespace WhaleIntelligence.Wallet
open WhaleIntelligence FifoLots HashGroup

/-! ## The swaps of a key -/

def buys (swaps : List ScoredSwap) : List ScoredSwap := swaps.filter fun s => s.swap.direction = .buy

def sells (swaps : List ScoredSwap) : List ScoredSwap := swaps.filter fun s => s.swap.direction = .sell

/-- The swaps of a key, in the order of the list. -/
def ofKey (swaps : List ScoredSwap) (k : SwapKey) : List ScoredSwap := swaps.filter fun s => s.key = k

/-- The swaps of a key, in the order in which they are matched. -/
def history (x : Crates) (swaps : List ScoredSwap) (k : SwapKey) : List ScoredSwap :=
  chronological x (ofKey swaps k)

/-- The positions that the sells of a key close. -/
def closedOf (x : Crates) (swaps : List ScoredSwap) (k : SwapKey) : List MatchedPosition :=
  (matchGroup x k.2.2 (history x swaps k)).2

def boughtIn (x : Crates) (swaps : List ScoredSwap) : Rat := ((buys swaps).map (ScoredSwap.bought x)).sum

def soldIn (x : Crates) (swaps : List ScoredSwap) : Rat := ((sells swaps).map (ScoredSwap.sold x)).sum

/-- The dollars paid for the buys. -/
def paidIn (swaps : List ScoredSwap) : Rat := ((buys swaps).map ScoredSwap.usdValue).sum

/-- The part of a sell that open lots backed. -/
def backed (x : Crates) (s : ScoredSwap) (p : MatchedPosition) : Rat := s.sold x - p.unmatchedSellAmount

/-- The cost charged to a sell: its matched proceeds less its realized PnL. -/
def charged (x : Crates) (s : ScoredSwap) (p : MatchedPosition) : Rat :=
  (if s.sold x ≠ 0 then s.usdValue * (backed x s p / s.sold x) else 0) - p.realizedPnl

/-- The dollars of the zero-amount buys after which more is sold than was held
at the buy. The first argument is the amount held before the list. -/
def strandedCost (x : Crates) : Rat → List ScoredSwap → Rat
  | _, [] => 0
  | held, s :: later =>
    match s.swap.direction with
    | .buy => (if s.bought x = 0 ∧ held < soldIn x later then s.usdValue else 0) +
        strandedCost x (held + s.bought x) later
    | .sell => strandedCost x (max 0 (held - s.sold x)) later

/-- The amounts of the swaps are not negative. -/
def NonNegative (x : Crates) (swaps : List ScoredSwap) : Prop := ∀ s ∈ swaps, 0 ≤ s.bought x ∧ 0 ≤ s.sold x

section
variable {x : Crates} {token : String} {s : ScoredSwap} {swaps : List ScoredSwap} {lots : List OpenLot}

theorem buys_cons_buy (h : s.swap.direction = .buy) : buys (s :: swaps) = s :: buys swaps := by
  simp [buys, h]

theorem buys_cons_sell (h : s.swap.direction = .sell) : buys (s :: swaps) = buys swaps := by
  simp [buys, h]

theorem sells_cons_buy (h : s.swap.direction = .buy) : sells (s :: swaps) = sells swaps := by
  simp [sells, h]

theorem sells_cons_sell (h : s.swap.direction = .sell) : sells (s :: swaps) = s :: sells swaps := by
  simp [sells, h]

theorem soldIn_nonneg (hn : NonNegative x swaps) : 0 ≤ soldIn x swaps := by
  apply List.sum_nonneg
  intro a ha
  obtain ⟨s, hs, rfl⟩ := List.mem_map.mp ha
  exact (hn s (List.mem_of_mem_filter hs)).2

theorem direction_cases (s : ScoredSwap) : s.swap.direction = .buy ∨ s.swap.direction = .sell := by
  cases s.swap.direction with
  | buy => exact Or.inl rfl
  | sell => exact Or.inr rfl

/-! ## Replaying swaps from an inventory -/

/-- The open lots after the swaps, and the positions they close. -/
def replay (x : Crates) (token : String) (lots : List OpenLot) (swaps : List ScoredSwap) :
    List OpenLot × List MatchedPosition := swaps.foldl (matchSwap x token) (lots, [])

theorem foldl_matchSwap (swaps : List ScoredSwap) : ∀ (lots : List OpenLot) (ps : List MatchedPosition),
    swaps.foldl (matchSwap x token) (lots, ps) =
      ((replay x token lots swaps).1, ps ++ (replay x token lots swaps).2) := by
  induction swaps with
  | nil => intro lots ps; simp [replay]
  | cons s later ih =>
    intro lots ps
    have hsplit : ∀ qs, matchSwap x token (lots, qs) s =
        ((matchSwap x token (lots, []) s).1, qs ++ (matchSwap x token (lots, []) s).2) := fun qs => by
      unfold matchSwap
      cases s.swap.direction with
      | buy => simp
      | sell => simp
    have hcons : replay x token lots (s :: later) = later.foldl (matchSwap x token)
        ((matchSwap x token (lots, []) s).1, (matchSwap x token (lots, []) s).2) := rfl
    rw [List.foldl_cons, hsplit, ih, hcons, ih, List.append_assoc]

theorem replay_buy (hdir : s.swap.direction = .buy) (later : List ScoredSwap) :
    replay x token lots (s :: later) =
      replay x token (lots ++ [⟨s.bought x, s.usdValue, s.swap.timestampSecs x⟩]) later := by
  rw [replay, List.foldl_cons, matchSwap, hdir, replay]

theorem replay_sell (hdir : s.swap.direction = .sell) (hs : Stocked lots) (hq : 0 ≤ s.sold x)
    (later : List ScoredSwap) :
    replay x token lots (s :: later) =
      ((replay x token (draw lots (s.sold x)).left later).1,
        closePosition x token s ⟨max 0 (s.sold x - supply lots), (draw lots (s.sold x)).cost,
          (draw lots (s.sold x)).since, min (s.sold x) (supply lots)⟩ ::
        (replay x token (draw lots (s.sold x)).left later).2) := by
  rw [replay, List.foldl_cons, matchSwap, hdir]
  simp only
  rw [foldl_matchSwap, sellLoop_eq hs hq, List.nil_append, List.singleton_append]

theorem stocked_push (hs : Stocked lots) (lot : OpenLot) (hl : 0 ≤ lot.amount) : Stocked (lots ++ [lot]) := by
  intro l hl'
  rcases List.mem_append.mp hl' with h | h
  · exact hs l h
  · rw [List.mem_singleton.mp h]; exact hl

/-- A sell is charged what its draw costs. -/
theorem charged_closePosition {q c : Rat} {o : Option Int} (h : q = s.sold x) (r : Rat) :
    charged x s (closePosition x token s ⟨max 0 (q - r), c, o, min q r⟩) = c := by
  subst h
  simp only [charged, backed, closePosition, sub_max_zero, sub_sub_cancel]

theorem replay_stocked (swaps : List ScoredSwap) : ∀ (lots : List OpenLot), Stocked lots → NonNegative x swaps →
    Stocked (replay x token lots swaps).1 := by
  induction swaps with
  | nil => exact fun lots hs _ => hs
  | cons s later ih =>
    intro lots hs hn
    have hlater : NonNegative x later := fun r hr => hn r (List.mem_cons_of_mem _ hr)
    obtain ⟨hb, hq⟩ := hn s List.mem_cons_self
    rcases direction_cases s with hdir | hdir
    · rw [replay_buy hdir]
      exact ih _ (stocked_push hs _ hb) hlater
    · rw [replay_sell hdir hs hq]
      exact ih _ (stocked_draw hs) hlater

/-- Every sell closes one position, and what it leaves unmatched is a part of it. -/
theorem replay_paired (swaps : List ScoredSwap) : ∀ (lots : List OpenLot), Stocked lots → NonNegative x swaps →
    List.Forall₂ (fun s p => 0 ≤ p.unmatchedSellAmount ∧ p.unmatchedSellAmount ≤ s.sold x) (sells swaps)
      (replay x token lots swaps).2 := by
  induction swaps with
  | nil => exact fun lots _ _ => List.Forall₂.nil
  | cons s later ih =>
    intro lots hs hn
    have hlater : NonNegative x later := fun r hr => hn r (List.mem_cons_of_mem _ hr)
    obtain ⟨hb, hq⟩ := hn s List.mem_cons_self
    rcases direction_cases s with hdir | hdir
    · rw [replay_buy hdir, sells_cons_buy hdir]
      exact ih _ (stocked_push hs _ hb) hlater
    · rw [replay_sell hdir hs hq, sells_cons_sell hdir]
      refine List.Forall₂.cons ⟨le_max_left _ _, max_le hq ?_⟩ (ih _ (stocked_draw hs) hlater)
      have := supply_nonneg hs
      linarith

variable (token) in
/-- What was held and what is bought is held at the end or backed a sell. -/
theorem replay_balance (swaps : List ScoredSwap) : ∀ (lots : List OpenLot), Stocked lots → NonNegative x swaps →
    supply lots + boughtIn x swaps = supply (replay x token lots swaps).1 +
      (List.zipWith (backed x) (sells swaps) (replay x token lots swaps).2).sum := by
  induction swaps with
  | nil => exact fun lots _ _ => by simp [boughtIn, buys, sells, replay]
  | cons s later ih =>
    intro lots hs hn
    have hlater : NonNegative x later := fun r hr => hn r (List.mem_cons_of_mem _ hr)
    obtain ⟨hb, hq⟩ := hn s List.mem_cons_self
    rcases direction_cases s with hdir | hdir
    · have hstep := ih _ (stocked_push hs ⟨s.bought x, s.usdValue, s.swap.timestampSecs x⟩ hb) hlater
      rw [replay_buy hdir, sells_cons_buy hdir, ← hstep, boughtIn, buys_cons_buy hdir, List.map_cons,
        List.sum_cons, boughtIn, supply_append, supply_cons, supply_nil]
      ring
    · -- the inventory shrinks by what backed the sell
      have hstep := ih _ (stocked_draw (q := s.sold x) hs) hlater
      have hmatched : backed x s (closePosition x token s ⟨max 0 (s.sold x - supply lots),
          (draw lots (s.sold x)).cost, (draw lots (s.sold x)).since, min (s.sold x) (supply lots)⟩) =
          supply lots - max 0 (supply lots - s.sold x) := by
        show s.sold x - max 0 (s.sold x - supply lots) = _
        rw [sub_max_zero, sub_max_zero, min_comm]
      rw [replay_sell hdir hs hq, sells_cons_sell hdir, boughtIn, buys_cons_sell hdir, ← boughtIn,
        List.zipWith_cons_cons, List.sum_cons, hmatched]
      rw [supply_draw hq hs] at hstep
      linarith

variable (token) in
/-- What the lots cost and the buys paid is in the open lots, was charged to a
sell, or was stranded with an empty lot. -/
theorem replay_cost (swaps : List ScoredSwap) : ∀ (lots : List OpenLot), Stocked lots → NonNegative x swaps →
    worth lots + paidIn swaps = worth (replay x token lots swaps).1 +
      (List.zipWith (charged x) (sells swaps) (replay x token lots swaps).2).sum +
      (stranded lots (soldIn x swaps) + strandedCost x (supply lots) swaps) := by
  induction swaps with
  | nil =>
    intro lots hs _
    have hidle : stranded lots (soldIn x []) = 0 := stranded_idle hs le_rfl
    simp [hidle, paidIn, buys, sells, replay, strandedCost]
  | cons s later ih =>
    intro lots hs hn
    have hlater : NonNegative x later := fun r hr => hn r (List.mem_cons_of_mem _ hr)
    obtain ⟨hb, hq⟩ := hn s List.mem_cons_self
    rcases direction_cases s with hdir | hdir
    · -- the new lot is stranded when the sells after it exceed the supply before it
      have hstep := ih _ (stocked_push hs ⟨s.bought x, s.usdValue, s.swap.timestampSecs x⟩ hb) hlater
      rw [stranded_push, supply_append, supply_cons, supply_nil, add_zero, worth_append, worth_cons, worth_nil,
        add_zero] at hstep
      have hsold : soldIn x (s :: later) = soldIn x later := by rw [soldIn, sells_cons_buy hdir, soldIn]
      rw [replay_buy hdir, sells_cons_buy hdir, hsold, strandedCost, hdir, paidIn, buys_cons_buy hdir,
        List.map_cons, List.sum_cons, ← paidIn]
      simp only at hstep ⊢
      linarith
    · -- what this sell and the later ones strand is what their sum would
      have hstep := ih _ (stocked_draw (q := s.sold x) hs) hlater
      rw [supply_draw hq hs] at hstep
      have hsold : soldIn x (s :: later) = s.sold x + soldIn x later := by
        rw [soldIn, sells_cons_sell hdir, List.map_cons, List.sum_cons, soldIn]
      have hdraw := worth_draw (q := s.sold x) hs
      rw [replay_sell hdir hs hq, sells_cons_sell hdir, hsold, strandedCost, hdir, paidIn, buys_cons_sell hdir,
        ← paidIn, List.zipWith_cons_cons, List.sum_cons, charged_closePosition rfl,
        stranded_add hs hq (soldIn_nonneg hlater)]
      simp only
      linarith

/-! ## The groups -/

theorem matchGroup_eq (swaps : List ScoredSwap) : matchGroup x token swaps = replay x token [] swaps := rfl

theorem stocked_nil : Stocked ([] : List OpenLot) := fun _ hl => nomatch hl

theorem openTotals_eq (lots : List OpenLot) : openTotals lots = (supply lots, worth lots) := by
  have hfold : ∀ (ls : List OpenLot) (a c : Rat),
      ls.foldl (fun t l => (t.1 + l.amount, t.2 + l.cost)) (a, c) = (a + supply ls, c + worth ls) := by
    intro ls
    induction ls with
    | nil => intro a c; simp
    | cons l ls ih => intro a c; simp [ih, add_assoc]
  rw [openTotals, hfold, zero_add, zero_add]

theorem history_perm (x : Crates) (swaps : List ScoredSwap) (k : SwapKey) :
    (history x swaps k).Perm (ofKey swaps k) := List.perm_insertionSort _ _

theorem history_nonNegative (hn : NonNegative x swaps) (k : SwapKey) : NonNegative x (history x swaps k) :=
  fun s hs => hn s (List.mem_of_mem_filter ((history_perm x swaps k).mem_iff.mp hs))

/-- What a sell closes, and what it does to the inventory open at it. -/
theorem matchGroup_sell {before : List ScoredSwap} (hn : NonNegative x (before ++ [s]))
    (hdir : s.swap.direction = .sell) :
    ∃ p, (matchGroup x token (before ++ [s])).2 = (matchGroup x token before).2 ++ [p] ∧
      (0 < p.unmatchedSellAmount → (matchGroup x token (before ++ [s])).1 = []) := by
  have hs : Stocked (matchGroup x token before).1 :=
    replay_stocked before [] stocked_nil fun r hr => hn r (List.mem_append_left _ hr)
  have hq : 0 ≤ s.sold x := (hn s (by simp)).2
  have hstep : matchGroup x token (before ++ [s]) = matchSwap x token (matchGroup x token before) s := by
    rw [matchGroup, List.foldl_concat, matchGroup]
  rw [hstep, matchSwap, hdir]
  simp only
  rw [sellLoop_eq hs hq]
  refine ⟨_, rfl, fun hpos => draw_short hs ?_⟩
  rcases lt_max_iff.mp (show 0 < max 0 (s.sold x - supply (matchGroup x token before).1) from hpos) with h | h
  · exact absurd h (lt_irrefl 0)
  · exact sub_pos.mp h

end

/-! ## All keys -/

section
variable {x : Crates} {order : Order SwapKey (List ScoredSwap)} {swaps : List ScoredSwap}

/-- The keys of the input, in the order in which their groups are matched, and
what the output of `fifo_match` has for each of them. -/
structure Grouped (x : Crates) (order : Order SwapKey (List ScoredSwap)) (swaps : List ScoredSwap)
    (keys : List SwapKey) : Prop where
  nodup : keys.Nodup
  mem_iff : ∀ k, k ∈ keys ↔ ∃ s ∈ swaps, s.key = k
  positions : (fifoMatch x order swaps).1 = keys.flatMap (closedOf x swaps)
  residual : ∀ k, (fifoMatch x order swaps).2.perToken.lookup k =
    if k ∈ keys then some (openTotals (matchGroup x k.2.2 (history x swaps k)).1) else none

/-- The two accumulators of the loop over the groups. -/
theorem fifoMatch_eq (x : Crates) (order : Order SwapKey (List ScoredSwap)) (swaps : List ScoredSwap) :
    fifoMatch x order swaps =
      ((order.iterate (groupBy ScoredSwap.key swaps)).flatMap fun g =>
          (matchGroup x g.1.2.2 (chronological x g.2)).2,
        ⟨(order.iterate (groupBy ScoredSwap.key swaps)).foldl (fun m g =>
          m.insert g.1 (openTotals (matchGroup x g.1.2.2 (chronological x g.2)).1)) ∅⟩) := by
  have hfold : ∀ (gs : List (Σ _ : SwapKey, List ScoredSwap)) (ps : List MatchedPosition)
      (m : Map SwapKey (Rat × Rat)),
      gs.foldl (fun out group =>
        let matched := matchGroup x group.1.2.2 (chronological x group.2)
        (out.1 ++ matched.2, (⟨out.2.perToken.insert group.1 (openTotals matched.1)⟩ : CostBasisResidual)))
        (ps, ⟨m⟩) =
      (ps ++ gs.flatMap fun g => (matchGroup x g.1.2.2 (chronological x g.2)).2,
        ⟨gs.foldl (fun m g => m.insert g.1 (openTotals (matchGroup x g.1.2.2 (chronological x g.2)).1)) m⟩) := by
    intro gs
    induction gs with
    | nil => intro ps m; simp
    | cons g gs ih => intro ps m; rw [List.foldl_cons, ih]; simp [List.flatMap_cons, List.append_assoc]
  rw [fifoMatch, hfold, List.nil_append]

theorem lookup_group (k : SwapKey) {group : List ScoredSwap}
    (h : (groupBy ScoredSwap.key swaps).lookup k = some group) : group = ofKey swaps k := by
  rw [lookup_groupBy] at h
  split at h
  · cases h
  · exact (Option.some.inj h).symm

theorem grouped (x : Crates) (order : Order SwapKey (List ScoredSwap)) (swaps : List ScoredSwap) :
    Grouped x order swaps (order.iterate (groupBy ScoredSwap.key swaps)).keys := by
  have hmem : ∀ k, k ∈ (order.iterate (groupBy ScoredSwap.key swaps)).keys ↔ ∃ s ∈ swaps, s.key = k := fun k => by
    rw [← mem_groupBy, ← AList.lookup_isSome, ← order.dlookup_iterate, List.dlookup_isSome]
  refine ⟨order.nodupKeys _, hmem, ?_, fun k => ?_⟩
  · rw [fifoMatch_eq, List.keys, List.flatMap_map]
    apply List.flatMap_congr
    intro g hg
    have hgroup : g.2 = ofKey swaps g.1 := lookup_group g.1 (order.mem_iterate.mp hg)
    rw [closedOf, history, hgroup]
  · rw [fifoMatch_eq]
    rw [lookup_foldl_insert (fun k g => openTotals (matchGroup x k.2.2 (chronological x g)).1) k _ _
      (order.nodupKeys _), AList.lookup_empty, Option.or_none, order.dlookup_iterate]
    cases hl : (groupBy ScoredSwap.key swaps).lookup k with
    | none =>
      rw [if_neg, Option.map_none]
      rw [hmem, ← mem_groupBy, ← AList.lookup_isSome, hl]
      decide
    | some group =>
      rw [if_pos, Option.map_some, lookup_group k hl, history]
      rw [hmem, ← mem_groupBy, ← AList.lookup_isSome, hl]
      rfl

end

/-! ## Two swaps of one token -/

def swapKey : SwapKey := ("solana", "A", "TOKEN")

/-- A buy of `amountOut` for 50 dollars, and an hour later a sell of 10 for 100. -/
def buyThenSell (amountOut : String) : List ScoredSwap :=
  [⟨⟨"solana", "A", "TOKEN", .buy, "50", amountOut, "2026-01-01T00:00:00Z"⟩, 50⟩,
    ⟨⟨"solana", "A", "TOKEN", .sell, "10", "100", "2026-01-01T01:00:00Z"⟩, 100⟩]

def decimalCrates : Crates :=
  tableCrates [("2026-01-01T00:00:00Z", 1767225600000000000), ("2026-01-01T01:00:00Z", 1767229200000000000)]
    [("5", 5), ("10", 10), ("50", 50), ("100", 100)] []

/-! ## Quantity -/

section
variable {x : Crates} {order : Order SwapKey (List ScoredSwap)} {swaps : List ScoredSwap}

/-- The quantities of one key and its open amount at the end. -/
structure QuantityConserved (x : Crates) (swaps : List ScoredSwap) (k : SwapKey) (openAmount : Rat) : Prop where
  /-- One position for each sell, in their order. -/
  paired : List.Forall₂ (fun s p => 0 ≤ p.unmatchedSellAmount ∧ p.unmatchedSellAmount ≤ s.sold x)
    (sells (history x swaps k)) (closedOf x swaps k)
  balance : boughtIn x (ofKey swaps k) =
    openAmount + (List.zipWith (backed x) (sells (history x swaps k)) (closedOf x swaps k)).sum
  openNonneg : 0 ≤ openAmount
  /-- At no time does a lot hold less than nothing. -/
  stocked : ∀ before, before <+: history x swaps k → Stocked (matchGroup x k.2.2 before).1
  /-- A sell that is not matched in full leaves no lot open. -/
  exhausted : ∀ before s, before ++ [s] <+: history x swaps k → s.swap.direction = .sell →
    ∃ p, (matchGroup x k.2.2 (before ++ [s])).2 = (matchGroup x k.2.2 before).2 ++ [p] ∧
      (0 < p.unmatchedSellAmount → (matchGroup x k.2.2 (before ++ [s])).1 = [])

/-- In every iteration order, the positions and the residual of each key conserve
its quantity. -/
theorem fifoMatch_quantity (x : Crates) (order : Order SwapKey (List ScoredSwap)) (swaps : List ScoredSwap)
    (hn : NonNegative x swaps) :
    ∃ keys, Grouped x order swaps keys ∧ ∀ k ∈ keys, ∃ amount cost,
      (fifoMatch x order swaps).2.perToken.lookup k = some (amount, cost) ∧ QuantityConserved x swaps k amount := by
  refine ⟨_, grouped x order swaps, fun k hk => ?_⟩
  have hh := history_nonNegative hn k
  have hbought : boughtIn x (history x swaps k) = boughtIn x (ofKey swaps k) :=
    (((history_perm x swaps k).filter _).map _).sum_eq
  refine ⟨_, _, by rw [(grouped x order swaps).residual, if_pos hk, openTotals_eq], ?_, ?_, ?_, ?_, ?_⟩
  · exact replay_paired _ [] stocked_nil hh
  · have hbalance := replay_balance k.2.2 _ [] stocked_nil hh
    rw [supply_nil, zero_add, hbought] at hbalance
    exact hbalance
  · exact supply_nonneg (replay_stocked _ [] stocked_nil hh)
  · intro before hb
    exact replay_stocked _ [] stocked_nil fun s hs => hh s (hb.subset hs)
  · intro before s hb hdir
    exact matchGroup_sell (fun r hr => hh r (hb.subset hr)) hdir

/-- Of a sell of ten with five open, five are matched. -/
theorem fifoMatch_quantity_oversell : ∃ amount cost,
    (fifoMatch decimalCrates (Order.stored _ _) (buyThenSell "5")).2.perToken.lookup swapKey = some (amount, cost) ∧
      QuantityConserved decimalCrates (buyThenSell "5") swapKey amount := by
  obtain ⟨keys, hkeys, hall⟩ := fifoMatch_quantity decimalCrates (Order.stored _ _) (buyThenSell "5")
    (by unfold NonNegative; decide +kernel)
  exact hall swapKey ((hkeys.mem_iff swapKey).mpr (by decide))

/-! ## Cost -/

/-- The dollars paid for the buys of a key are charged to its sells or still open. -/
def CostConserved (x : Crates) (swaps : List ScoredSwap) (k : SwapKey) (openCost : Rat) : Prop :=
  paidIn (ofKey swaps k) =
    (List.zipWith (charged x) (sells (history x swaps k)) (closedOf x swaps k)).sum + openCost

/-- In every iteration order, the cost of a key is conserved exactly when its
stranded buys add up to nothing. -/
theorem fifoMatch_cost (x : Crates) (order : Order SwapKey (List ScoredSwap)) (swaps : List ScoredSwap)
    (hn : NonNegative x swaps) :
    ∃ keys, Grouped x order swaps keys ∧ ∀ k ∈ keys, ∃ amount cost,
      (fifoMatch x order swaps).2.perToken.lookup k = some (amount, cost) ∧
      (CostConserved x swaps k cost ↔ strandedCost x 0 (history x swaps k) = 0) := by
  refine ⟨_, grouped x order swaps, fun k hk => ?_⟩
  have hcost := replay_cost k.2.2 _ [] stocked_nil (history_nonNegative hn k)
  have hpaid : paidIn (history x swaps k) = paidIn (ofKey swaps k) :=
    (((history_perm x swaps k).filter _).map _).sum_eq
  rw [worth_nil, zero_add, hpaid, stranded, zero_add, supply_nil] at hcost
  refine ⟨_, _, by rw [(grouped x order swaps).residual, if_pos hk, openTotals_eq], ?_⟩
  rw [CostConserved, closedOf, matchGroup_eq]
  refine ⟨fun h => ?_, fun h => ?_⟩
  · linarith
  · linarith

end

/-- The dollars of a buy of five are charged to the sell. -/
theorem fifoMatch_cost_oversell : ∃ amount cost,
    (fifoMatch decimalCrates (Order.stored _ _) (buyThenSell "5")).2.perToken.lookup swapKey = some (amount, cost) ∧
      CostConserved decimalCrates (buyThenSell "5") swapKey cost := by
  obtain ⟨keys, hkeys, hall⟩ := fifoMatch_cost decimalCrates (Order.stored _ _) (buyThenSell "5")
    (by unfold NonNegative; decide +kernel)
  obtain ⟨amount, cost, hlookup, hiff⟩ := hall swapKey ((hkeys.mem_iff swapKey).mpr (by decide))
  exact ⟨amount, cost, hlookup, hiff.mpr (by decide +kernel)⟩

/-- The dollars of a buy without an amount are lost: the sell is charged nothing
and no cost is open. -/
theorem fifoMatch_cost_lost :
    (fifoMatch decimalCrates (Order.stored _ _) (buyThenSell "")).1 = [⟨"TOKEN", 0, none, some 3600, 10⟩] ∧
      (fifoMatch decimalCrates (Order.stored _ _) (buyThenSell "")).2.perToken.lookup swapKey = some (0, 0) ∧
      paidIn (ofKey (buyThenSell "") swapKey) = 50 ∧
      ¬ CostConserved decimalCrates (buyThenSell "") swapKey 0 := by
  unfold CostConserved
  decide +kernel

end WhaleIntelligence.Wallet
