import WhaleIntelligence.Wallet.FifoConservation

/- `fifo_match` does not see whether a sell comes in one piece or in two.

   The loop of a sell takes from the front of the inventory what it sells, so two
   sells in a row take what one sell of the sum does (`FifoLots.draw_add`), whether
   the first ends inside a lot, at its end or beyond the inventory. The proceeds
   are in proportion to the part that lots backed, so they add up as well
   (`sell_halves`). No bound on the amounts of the other swaps is needed. -/
namespace WhaleIntelligence.Wallet
open WhaleIntelligence FifoLots HashGroup

/-- The realized PnL of all positions of a key. -/
def realizedIn (x : Crates) (swaps : List ScoredSwap) (k : SwapKey) : Rat :=
  ((closedOf x swaps k).map MatchedPosition.realizedPnl).sum

/-- The quantity of the sells of a key that open lots backed. -/
def matchedIn (x : Crates) (swaps : List ScoredSwap) (k : SwapKey) : Rat :=
  (List.zipWith (backed x) (sells (history x swaps k)) (closedOf x swaps k)).sum

/-- Two sells that make up the sell `s`, each with its share of the dollars. -/
structure Halves (x : Crates) (s s₁ s₂ : ScoredSwap) : Prop where
  sell : s.swap.direction = .sell
  first : s₁.swap.direction = .sell
  second : s₂.swap.direction = .sell
  firstPos : 0 < s₁.sold x
  secondPos : 0 < s₂.sold x
  amount : s.sold x = s₁.sold x + s₂.sold x
  firstValue : s₁.usdValue = s.usdValue * s₁.sold x / s.sold x
  secondValue : s₂.usdValue = s.usdValue * s₂.sold x / s.sold x

/-- In the chronological order of the key `k`, the two sells stand in `swaps'`
where `s` stands in `swaps`. Nothing else differs. -/
structure Replaced (x : Crates) (k : SwapKey) (s s₁ s₂ : ScoredSwap) (swaps swaps' : List ScoredSwap) : Prop where
  place : ∃ before after, history x swaps k = before ++ s :: after ∧
    history x swaps' k = before ++ s₁ :: s₂ :: after
  others : ∀ j, j ≠ k → history x swaps' j = history x swaps j

/-! ## The two sells -/

section
variable {x : Crates} {token : String} {s s₁ s₂ : ScoredSwap}

/-- The position of a sell that meets the open lots `lots`. -/
def soldPosition (x : Crates) (token : String) (lots : List OpenLot) (s : ScoredSwap) : MatchedPosition :=
  closePosition x token s ⟨short lots (s.sold x), (draw lots (s.sold x)).cost, (draw lots (s.sold x)).since,
    s.sold x - short lots (s.sold x)⟩

theorem replay_draw (hdir : s.swap.direction = .sell) (lots : List OpenLot) (later : List ScoredSwap) :
    replay x token lots (s :: later) =
      ((replay x token (draw lots (s.sold x)).left later).1,
        soldPosition x token lots s :: (replay x token (draw lots (s.sold x)).left later).2) := by
  rw [replay, List.foldl_cons, matchSwap, hdir]
  simp only
  rw [foldl_matchSwap, sellLoop_draw, List.nil_append, List.singleton_append, soldPosition]

theorem backed_soldPosition (lots : List OpenLot) (s : ScoredSwap) :
    backed x s (soldPosition x token lots s) = s.sold x - short lots (s.sold x) := rfl

theorem realizedPnl_soldPosition (lots : List OpenLot) (h : 0 < s.sold x) :
    (soldPosition x token lots s).realizedPnl =
      s.usdValue * ((s.sold x - short lots (s.sold x)) / s.sold x) - (draw lots (s.sold x)).cost := by
  rw [soldPosition, closePosition]
  simp only
  rw [if_pos h.ne']

variable (token) in
/-- What the two sells leave open is what the sell leaves, and their matched
quantities and their PnL add up to its own. -/
theorem sell_halves (hs : Halves x s s₁ s₂) (lots : List OpenLot) :
    (draw (draw lots (s₁.sold x)).left (s₂.sold x)).left = (draw lots (s.sold x)).left ∧
      (soldPosition x token lots s₁).realizedPnl +
          (soldPosition x token (draw lots (s₁.sold x)).left s₂).realizedPnl =
        (soldPosition x token lots s).realizedPnl ∧
      backed x s₁ (soldPosition x token lots s₁) +
          backed x s₂ (soldPosition x token (draw lots (s₁.sold x)).left s₂) =
        backed x s (soldPosition x token lots s) := by
  obtain ⟨hleft, hcost, hshort⟩ := draw_add lots hs.firstPos.le hs.secondPos
  have hpos : 0 < s.sold x := by rw [hs.amount]; exact add_pos hs.firstPos hs.secondPos
  have hfirst := hs.firstPos.ne'
  have hsecond := hs.secondPos.ne'
  refine ⟨by rw [hleft, hs.amount], ?_, ?_⟩
  · rw [realizedPnl_soldPosition lots hs.firstPos, realizedPnl_soldPosition _ hs.secondPos,
      realizedPnl_soldPosition lots hpos, hs.firstValue, hs.secondValue]
    have hproceeds : s.usdValue * s₁.sold x / s.sold x * ((s₁.sold x - short lots (s₁.sold x)) / s₁.sold x) +
        s.usdValue * s₂.sold x / s.sold x *
          ((s₂.sold x - short (draw lots (s₁.sold x)).left (s₂.sold x)) / s₂.sold x) =
        s.usdValue * ((s.sold x - short lots (s.sold x)) / s.sold x) := by
      have hmatched : s.sold x - short lots (s.sold x) = s₁.sold x - short lots (s₁.sold x) +
          (s₂.sold x - short (draw lots (s₁.sold x)).left (s₂.sold x)) := by
        rw [hs.amount, ← hshort]
        ring
      rw [hmatched]
      field_simp
    rw [← hproceeds, hs.amount, ← hcost]
    ring
  · rw [backed_soldPosition, backed_soldPosition, backed_soldPosition, hs.amount, ← hshort]
    ring

/-! ## The swaps around them -/

/-- From every inventory, the swaps with the sell and the swaps with the two sells
end with the same lots and the same totals. -/
theorem replay_halves (hs : Halves x s s₁ s₂) (after : List ScoredSwap) : ∀ (before : List ScoredSwap)
    (lots : List OpenLot),
    (replay x token lots (before ++ s₁ :: s₂ :: after)).1 = (replay x token lots (before ++ s :: after)).1 ∧
      ((replay x token lots (before ++ s₁ :: s₂ :: after)).2.map MatchedPosition.realizedPnl).sum =
        ((replay x token lots (before ++ s :: after)).2.map MatchedPosition.realizedPnl).sum ∧
      (List.zipWith (backed x) (sells (before ++ s₁ :: s₂ :: after))
          (replay x token lots (before ++ s₁ :: s₂ :: after)).2).sum =
        (List.zipWith (backed x) (sells (before ++ s :: after))
          (replay x token lots (before ++ s :: after)).2).sum
  | [], lots => by
    obtain ⟨hleft, hpnl, hbacked⟩ := sell_halves token hs lots
    simp only [List.nil_append, sells_cons_sell hs.first, sells_cons_sell hs.second, sells_cons_sell hs.sell,
      replay_draw hs.first, replay_draw hs.second, replay_draw hs.sell, List.map_cons, List.sum_cons,
      List.zipWith_cons_cons, hleft, ← hpnl, ← hbacked, add_assoc, and_self]
  | r :: before, lots => by
    rw [List.cons_append, List.cons_append]
    rcases direction_cases r with hdir | hdir
    · rw [replay_buy hdir, replay_buy hdir, sells_cons_buy hdir, sells_cons_buy hdir]
      exact replay_halves hs after before _
    · obtain ⟨hleft, hpnl, hbacked⟩ := replay_halves hs after before (draw lots (r.sold x)).left
      simp only [replay_draw hdir, sells_cons_sell hdir, List.map_cons, List.sum_cons, List.zipWith_cons_cons,
        hleft, hpnl, hbacked, and_self]

/-! ## All keys -/

variable {k : SwapKey} {swaps swaps' : List ScoredSwap}

/-- A key has a group where it has a history. -/
theorem Grouped.mem_iff_history {order : Order SwapKey (List ScoredSwap)} {keys : List SwapKey}
    (h : Grouped x order swaps keys) (j : SwapKey) : j ∈ keys ↔ history x swaps j ≠ [] := by
  have hmem : (∃ r ∈ swaps, r.key = j) ↔ ofKey swaps j ≠ [] := by
    simp [ofKey, List.filter_eq_nil_iff]
  have hperm := history_perm x swaps j
  rw [h.mem_iff, hmem, ne_eq, ne_eq, ← List.length_eq_zero_iff, ← List.length_eq_zero_iff, hperm.length_eq]

theorem Replaced.history_ne_nil (h : Replaced x k s s₁ s₂ swaps swaps') (j : SwapKey) :
    history x swaps' j ≠ [] ↔ history x swaps j ≠ [] := by
  by_cases hj : j = k
  · obtain ⟨before, after, hone, htwo⟩ := h.place
    rw [hj, hone, htwo]
    simp
  · rw [h.others j hj]

/-- What a key keeps open and its two totals, on both sides. -/
theorem Replaced.totals (h : Replaced x k s s₁ s₂ swaps swaps') (hs : Halves x s s₁ s₂) (j : SwapKey) :
    (matchGroup x j.2.2 (history x swaps' j)).1 = (matchGroup x j.2.2 (history x swaps j)).1 ∧
      realizedIn x swaps' j = realizedIn x swaps j ∧ matchedIn x swaps' j = matchedIn x swaps j := by
  rw [realizedIn, realizedIn, matchedIn, matchedIn, closedOf, closedOf]
  by_cases hj : j = k
  · obtain ⟨before, after, hone, htwo⟩ := h.place
    rw [hj, hone, htwo, matchGroup_eq, matchGroup_eq]
    exact replay_halves hs after before []
  · rw [h.others j hj]
    exact ⟨rfl, rfl, rfl⟩

/-- A sell and the two sells that make it up lead to one residual, and to the
same realized PnL and the same matched quantity of every key. -/
theorem fifoMatch_split (x : Crates) (order order' : Order SwapKey (List ScoredSwap)) (k : SwapKey)
    (s s₁ s₂ : ScoredSwap) (swaps swaps' : List ScoredSwap) (hs : Halves x s s₁ s₂)
    (h : Replaced x k s s₁ s₂ swaps swaps') :
    ∃ keys keys', Grouped x order swaps keys ∧ Grouped x order' swaps' keys' ∧ keys.Perm keys' ∧
      (∀ j, (fifoMatch x order swaps).2.perToken.lookup j = (fifoMatch x order' swaps').2.perToken.lookup j) ∧
      ∀ j, realizedIn x swaps j = realizedIn x swaps' j ∧ matchedIn x swaps j = matchedIn x swaps' j := by
  have hg := grouped x order swaps
  have hg' := grouped x order' swaps'
  have hkeys : ∀ j, j ∈ (order.iterate (groupBy ScoredSwap.key swaps)).keys ↔
      j ∈ (order'.iterate (groupBy ScoredSwap.key swaps')).keys := by
    intro j
    rw [hg.mem_iff_history, hg'.mem_iff_history, h.history_ne_nil]
  refine ⟨_, _, hg, hg', (List.perm_ext_iff_of_nodup hg.nodup hg'.nodup).mpr hkeys, fun j => ?_, fun j => ?_⟩
  · rw [hg.residual, hg'.residual, (h.totals hs j).1]
    simp only [hkeys]
  · exact ⟨(h.totals hs j).2.1.symm, (h.totals hs j).2.2.symm⟩

end

/-! ## Replacing a sell in the list -/

section
variable {x : Crates} {s s₁ s₂ : ScoredSwap}

/-- The order of a group. -/
abbrev Earlier (x : Crates) (a b : ScoredSwap) : Prop := sortTime x a ≤ sortTime x b

/-- A swap is inserted before the pieces exactly where it is inserted before the sell. -/
theorem orderedInsert_replaced (c : ScoredSwap) (hfirst : sortTime x s₁ = sortTime x s)
    (hsecond : sortTime x s₂ = sortTime x s) : ∀ before after, ∃ before' after',
    (before ++ s :: after).orderedInsert (Earlier x) c = before' ++ s :: after' ∧
      (before ++ s₁ :: s₂ :: after).orderedInsert (Earlier x) c = before' ++ s₁ :: s₂ :: after'
  | [], after => by
    by_cases h : Earlier x c s
    · refine ⟨[c], after, ?_, ?_⟩
      · simp [h]
      · have h₁ : Earlier x c s₁ := by rwa [Earlier, hfirst]
        simp [h₁]
    · refine ⟨[], after.orderedInsert (Earlier x) c, ?_, ?_⟩
      · simp [h]
      · have h₁ : ¬ Earlier x c s₁ := by rwa [Earlier, hfirst]
        have h₂ : ¬ Earlier x c s₂ := by rwa [Earlier, hsecond]
        simp [h₁, h₂]
  | b :: before, after => by
    by_cases h : Earlier x c b
    · exact ⟨c :: b :: before, after, by simp [h], by simp [h]⟩
    · obtain ⟨before', after', hone, htwo⟩ := orderedInsert_replaced c hfirst hsecond before after
      refine ⟨b :: before', after', ?_, ?_⟩
      · rw [List.cons_append, List.orderedInsert_of_not_le _ _ h, hone, List.cons_append]
      · rw [List.cons_append, List.orderedInsert_of_not_le _ _ h, htwo, List.cons_append]

/-- The pieces are inserted side by side. -/
theorem orderedInsert_pieces (hfirst : sortTime x s₁ = sortTime x s) (hsecond : sortTime x s₂ = sortTime x s) :
    ∀ swaps, ∃ before after, List.orderedInsert (Earlier x) s swaps = before ++ s :: after ∧
      List.orderedInsert (Earlier x) s₁ (List.orderedInsert (Earlier x) s₂ swaps) = before ++ s₁ :: s₂ :: after
  | [] => ⟨[], [], rfl, by simp [Earlier, hfirst, hsecond]⟩
  | b :: swaps => by
    by_cases h : Earlier x s b
    · have h₂ : Earlier x s₂ b := by rwa [Earlier, hsecond]
      have h₁ : Earlier x s₁ s₂ := by rw [Earlier, hfirst, hsecond]
      exact ⟨[], b :: swaps, by simp [h], by simp [h₂, h₁]⟩
    · obtain ⟨before, after, hone, htwo⟩ := orderedInsert_pieces hfirst hsecond swaps
      have h₁ : ¬ Earlier x s₁ b := by rwa [Earlier, hfirst]
      have h₂ : ¬ Earlier x s₂ b := by rwa [Earlier, hsecond]
      refine ⟨b :: before, after, ?_, ?_⟩
      · rw [List.orderedInsert_of_not_le _ _ h, hone, List.cons_append]
      · rw [List.orderedInsert_of_not_le _ _ h₂, List.orderedInsert_of_not_le _ _ h₁, htwo, List.cons_append]

/-- Sorting keeps the two pieces together, where the sell would be. -/
theorem chronological_replaced (hfirst : sortTime x s₁ = sortTime x s) (hsecond : sortTime x s₂ = sortTime x s)
    (right : List ScoredSwap) : ∀ left, ∃ before after,
    chronological x (left ++ s :: right) = before ++ s :: after ∧
      chronological x (left ++ s₁ :: s₂ :: right) = before ++ s₁ :: s₂ :: after
  | [] => orderedInsert_pieces hfirst hsecond _
  | c :: left => by
    obtain ⟨before, after, hone, htwo⟩ := chronological_replaced hfirst hsecond right left
    obtain ⟨before', after', hone', htwo'⟩ := orderedInsert_replaced c hfirst hsecond before after
    refine ⟨before', after', ?_, ?_⟩
    · rw [List.cons_append, chronological, List.insertionSort_cons, ← chronological, hone, hone']
    · rw [List.cons_append, chronological, List.insertionSort_cons, ← chronological, htwo, htwo']

/-- Two sells of the same key and time, written where the sell is in the list,
replace it in the order of its key. -/
theorem replaced_inPlace (hkey₁ : s₁.key = s.key) (hkey₂ : s₂.key = s.key) (hfirst : sortTime x s₁ = sortTime x s)
    (hsecond : sortTime x s₂ = sortTime x s) (left right : List ScoredSwap) :
    Replaced x s.key s s₁ s₂ (left ++ s :: right) (left ++ s₁ :: s₂ :: right) := by
  refine ⟨?_, fun j hj => ?_⟩
  · have hone : ofKey (left ++ s :: right) s.key = ofKey left s.key ++ s :: ofKey right s.key := by simp [ofKey]
    have htwo : ofKey (left ++ s₁ :: s₂ :: right) s.key = ofKey left s.key ++ s₁ :: s₂ :: ofKey right s.key := by
      simp [ofKey, hkey₁, hkey₂]
    rw [history, history, hone, htwo]
    exact chronological_replaced hfirst hsecond _ _
  · have hsame : ofKey (left ++ s₁ :: s₂ :: right) j = ofKey (left ++ s :: right) j := by
      simp [ofKey, hkey₁, hkey₂, hj.symm]
    rw [history, history, hsame]

end

/-! ## A sell of ten, in two -/

/-- The sell of ten for a hundred dollars, as sells of four and six. With five
bought, the first ends inside the lot and the second exceeds what is open. -/
def sellPieces : List ScoredSwap :=
  [⟨⟨"solana", "A", "TOKEN", .buy, "50", "5", "2026-01-01T00:00:00Z"⟩, 50⟩,
    ⟨⟨"solana", "A", "TOKEN", .sell, "4", "40", "2026-01-01T01:00:00Z"⟩, 40⟩,
    ⟨⟨"solana", "A", "TOKEN", .sell, "6", "60", "2026-01-01T01:00:00Z"⟩, 60⟩]

def pieceCrates : Crates :=
  tableCrates [("2026-01-01T00:00:00Z", 1767225600000000000), ("2026-01-01T01:00:00Z", 1767229200000000000)]
    [("4", 4), ("5", 5), ("6", 6), ("10", 10)] []

theorem fifoMatch_split_oversell :
    (∀ j, (fifoMatch pieceCrates (Order.stored _ _) (buyThenSell "5")).2.perToken.lookup j =
        (fifoMatch pieceCrates (Order.stored _ _) sellPieces).2.perToken.lookup j) ∧
      realizedIn pieceCrates (buyThenSell "5") swapKey = realizedIn pieceCrates sellPieces swapKey ∧
      matchedIn pieceCrates (buyThenSell "5") swapKey = matchedIn pieceCrates sellPieces swapKey := by
  have hs : Halves pieceCrates (buyThenSell "5")[1] sellPieces[1] sellPieces[2] := by
    constructor <;> decide +kernel
  have hkey₁ : sellPieces[1].key = (buyThenSell "5")[1].key := by decide
  have hkey₂ : sellPieces[2].key = (buyThenSell "5")[1].key := by decide
  have hfirst : sortTime pieceCrates sellPieces[1] = sortTime pieceCrates (buyThenSell "5")[1] := by decide +kernel
  have hsecond : sortTime pieceCrates sellPieces[2] = sortTime pieceCrates (buyThenSell "5")[1] := by decide +kernel
  have h : Replaced pieceCrates swapKey (buyThenSell "5")[1] sellPieces[1] sellPieces[2] (buyThenSell "5")
      sellPieces := replaced_inPlace hkey₁ hkey₂ hfirst hsecond [(buyThenSell "5")[0]] []
  obtain ⟨_, _, _, _, _, hresidual, htotals⟩ := fifoMatch_split pieceCrates (Order.stored _ _) (Order.stored _ _)
    swapKey _ _ _ _ _ hs h
  exact ⟨hresidual, htotals swapKey⟩

end WhaleIntelligence.Wallet
