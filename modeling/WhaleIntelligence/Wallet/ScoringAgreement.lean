import WhaleIntelligence.Wallet.FifoConservation
import WhaleIntelligence.Wallet.Scoring

/- The two `fifo_match` on the trades of one wallet.

   On the same inventory and the same sells one draws with the cost and the other
   leaves it (`realized_eq`, `realized_swaps`), so they agree exactly when the two
   draws charge the same, up to the sells without an amount: those have proceeds in
   the older matching and none in the newer (`realized_agree_iff`). -/
namespace WhaleIntelligence.Wallet.Scoring
open WhaleIntelligence FifoLots HashGroup

/-! ## The same trades in two forms -/

/-- A swap with the key, the amount, the value and the time of a trade of the wallet. -/
structure Represents (x : Crates) (chain wallet : String) (t : ScoredTrade) (s : ScoredSwap) : Prop where
  key : s.key = (chain, wallet, t.mint)
  direction : s.swap.direction = match t.side with
    | .buy => .buy
    | .sell => .sell
  amount : t.tokenAmount = match t.side with
    | .buy => s.bought x
    | .sell => s.sold x
  value : s.usdValue = t.usdValue.getD 0
  time : s.swap.timestampSecs x = t.blockTime.map timestamp

/-- The whole seconds that order a trade; an unknown time comes first. -/
def ScoredTrade.secs (t : ScoredTrade) : Int := (t.blockTime.map timestamp).getD 0

/-- The list is in chronological order. -/
def InOrder (trades : List ScoredTrade) : Prop := trades.Pairwise fun a b => a.secs ≤ b.secs

/-- No sell exceeds what is held at it. The first argument is the amount held. -/
def Covered : Rat → List ScoredTrade → Prop
  | _, [] => True
  | held, t :: later =>
    match t.side with
    | .buy => Covered (held + t.tokenAmount) later
    | .sell => t.tokenAmount ≤ held ∧ Covered (held - t.tokenAmount) later

instance decidableCovered : ∀ (held : Rat) (trades : List ScoredTrade), Decidable (Covered held trades)
  | _, [] => inferInstanceAs (Decidable True)
  | held, ⟨_, .buy, amount, _, _⟩ :: later => decidableCovered (held + amount) later
  | held, ⟨_, .sell, amount, _, _⟩ :: later =>
    have := decidableCovered (held - amount) later
    inferInstanceAs (Decidable (amount ≤ held ∧ Covered (held - amount) later))

def NoOversell (trades : List ScoredTrade) : Prop := ∀ mint, Covered 0 (ofMint trades mint)

/-- The cost charged to the sells of a mint: their proceeds less their PnL. -/
def chargedTo (trades : List ScoredTrade) (mint : String) : Rat :=
  (List.zipWith (fun t p => t.proceeds - p.realizedPnlUsd.getD 0) (sells (ofMint trades mint))
    (positionsOf trades mint)).sum

/-- The dollars paid for the buys of a mint. -/
def paidFor (trades : List ScoredTrade) (mint : String) : Rat :=
  ((buys (ofMint trades mint)).map fun t => t.usdValue.getD 0).sum

/-- The PnL of the sells of each mint is the same in both matchings. -/
def SameRealized (trades : List ScoredTrade) (positions : List Wallet.MatchedPosition) : Prop :=
  ∀ mint, (positionsOf trades mint).map MatchedPosition.realizedPnlUsd =
    (positions.filter fun p => p.token = mint).map fun p => some p.realizedPnl

/-- No mint is charged more than it cost, and sells that were covered are charged
what the newer matching charges. -/
def ConservesAndAgrees (trades : List ScoredTrade) (positions : List Wallet.MatchedPosition) : Prop :=
  (∀ mint, chargedTo trades mint ≤ paidFor trades mint) ∧
    (InOrder trades → NoOversell trades → SameRealized trades positions)

/-- Sells without an amount bring nothing. -/
def EmptySellsFree (trades : List ScoredTrade) : Prop := ∀ t ∈ sells trades, t.tokenAmount = 0 → t.proceeds = 0

/-- No lot with a cost is sold in pieces. -/
def Uncut (trades : List ScoredTrade) : Prop :=
  ∀ mint, Unpieced 0 ((ofMint trades mint).map ScoredTrade.op)

section
variable {x : Crates} {chain wallet token mint : String} {t : ScoredTrade} {s : ScoredSwap}
variable {trades : List ScoredTrade} {swaps : List ScoredSwap} {lots : List OpenLot}

theorem Represents.buy (h : Represents x chain wallet t s) (hside : t.side = .buy) :
    s.swap.direction = .buy ∧ s.bought x = t.tokenAmount := by
  have hd := h.direction
  have ha := h.amount
  rw [hside] at hd ha
  exact ⟨hd, ha.symm⟩

theorem Represents.sell (h : Represents x chain wallet t s) (hside : t.side = .sell) :
    s.swap.direction = .sell ∧ s.sold x = t.tokenAmount := by
  have hd := h.direction
  have ha := h.amount
  rw [hside] at hd ha
  exact ⟨hd, ha.symm⟩

theorem covered_buy (h : t.side = .buy) {held : Rat} :
    Covered held (t :: trades) ↔ Covered (held + t.tokenAmount) trades := by
  rw [Covered, h]

theorem covered_sell (h : t.side = .sell) {held : Rat} :
    Covered held (t :: trades) ↔ t.tokenAmount ≤ held ∧ Covered (held - t.tokenAmount) trades := by
  rw [Covered, h]

/-! ## The charges of a list of trades -/

/-- A sell without an amount is charged nothing, and every sell is charged once. -/
theorem charges_paired {d : List OpenLot → Rat → Drawn Rat DateTime} (hd : ∀ lots, (d lots 0).cost = 0)
    (trades : List ScoredTrade) : ∀ lots, List.Forall₂ (fun t c => t.tokenAmount = 0 → c = 0) (sells trades)
      (charges d lots (trades.map ScoredTrade.op)) := by
  induction trades with
  | nil => exact fun _ => List.Forall₂.nil
  | cons t later ih =>
    intro lots
    rcases side_cases t with hside | hside
    · rw [sells_cons_buy hside, List.map_cons, op_buy hside]
      exact ih _
    · rw [sells_cons_sell hside, List.map_cons, op_sell hside, charges]
      exact List.Forall₂.cons (fun h => h ▸ hd lots) (ih _)

theorem added_ops (trades : List ScoredTrade) :
    added (trades.map ScoredTrade.op) = ((buys trades).map fun t => t.usdValue.getD 0).sum := by
  induction trades with
  | nil => rfl
  | cons t later ih =>
    rcases side_cases t with hside | hside
    · rw [List.map_cons, op_buy hside, added, ih, buys_cons_buy hside, List.map_cons, List.sum_cons, paid_eq]
    · rw [List.map_cons, op_sell hside, added, ih, buys_cons_sell hside]

/-- Taking the PnL from the proceeds gives the charges back. -/
theorem sum_charged : ∀ {ts : List ScoredTrade} {cs : List Rat} {ps : List MatchedPosition},
    ts.length = cs.length →
    ps.map MatchedPosition.realizedPnlUsd = List.zipWith (fun t c => some (t.proceeds - c)) ts cs →
    (List.zipWith (fun t p => t.proceeds - p.realizedPnlUsd.getD 0) ts ps).sum = cs.sum
  | [], [], _, _, _ => by rw [List.zipWith_nil_left]
  | t :: ts, c :: cs, [], _, h => by cases h
  | t :: ts, c :: cs, p :: ps, hlen, h => by
    rw [List.map_cons, List.zipWith_cons_cons, List.cons.injEq] at h
    rw [List.zipWith_cons_cons, List.sum_cons, List.sum_cons, sum_charged (Nat.succ.inj hlen) h.2, h.1,
      Option.getD_some, sub_sub_cancel]

theorem chargedTo_eq (hn : NonNegative trades) (mint : String) :
    chargedTo trades mint = (charges drawKeeping [] ((ofMint trades mint).map ScoredTrade.op)).sum := by
  have hidle : ∀ lots : List OpenLot, (drawKeeping lots 0).cost = 0 := fun lots => by
    rw [drawKeeping_idle le_rfl]
  rw [chargedTo, positionsOf_eq]
  exact sum_charged (charges_paired hidle _ _).length_eq
    (realized_eq _ [] (fun _ hl => absurd hl List.not_mem_nil) (hn.ofMint mint))

/-! ## The newer matching of the same trades -/

theorem supply_mapTime (lots : List OpenLot) : supply (lots.map (Lot.mapTime timestamp)) = supply lots := by
  rw [supply, supply, List.map_map]
  rfl

theorem stocked_mapTime (h : Stocked lots) : Stocked (lots.map (Lot.mapTime timestamp)) := by
  intro l hl
  obtain ⟨m, hm, rfl⟩ := List.mem_map.mp hl
  exact h m hm

variable (token) in
/-- The PnL of each covered sell is its value, if it has an amount, less what the
draw charges to it. -/
theorem realized_swaps (h : List.Forall₂ (Represents x chain wallet) trades swaps) :
    ∀ lots : List OpenLot, Stocked lots → NonNegative trades → Covered (supply lots) trades →
    (Wallet.replay x token (lots.map (Lot.mapTime timestamp)) swaps).2.map (fun p => some p.realizedPnl) =
      List.zipWith (fun t c => some ((if t.tokenAmount ≠ 0 then t.proceeds else 0) - c)) (sells trades)
        (charges draw lots (trades.map ScoredTrade.op)) := by
  induction h with
  | nil => exact fun _ _ _ _ => rfl
  | @cons t s later swaps hts _ ih =>
    intro lots hs hn hc
    obtain ⟨hamount, -⟩ := hn t List.mem_cons_self
    rcases side_cases t with hside | hside
    · obtain ⟨hdir, hbought⟩ := hts.buy hside
      have hlot : (⟨s.bought x, s.usdValue, s.swap.timestampSecs x⟩ : Wallet.OpenLot) =
          Lot.mapTime timestamp ⟨t.tokenAmount, t.paid, t.blockTime⟩ := by
        rw [hbought, hts.value, hts.time, Lot.mapTime, paid_eq]
      rw [Wallet.replay_buy hdir, hlot, sells_cons_buy hside, List.map_cons, op_buy hside, charges]
      have hpush := ih (lots ++ [⟨t.tokenAmount, t.paid, t.blockTime⟩]) (stocked_concat hs hamount) hn.tail (by
        rw [supply_append, supply_cons, supply_nil, add_zero]
        exact (covered_buy hside).mp hc)
      rw [List.map_append] at hpush
      exact hpush
    · obtain ⟨hdir, hsold⟩ := hts.sell hside
      obtain ⟨hheld, hlater⟩ := (covered_sell hside).mp hc
      have hops : (t :: later).map ScoredTrade.op = .take t.tokenAmount :: later.map ScoredTrade.op := by
        rw [List.map_cons, op_sell hside]
      -- all of the sell is matched
      have hproceeds : (if t.tokenAmount ≠ 0 then t.usdValue.getD 0 * (t.tokenAmount / t.tokenAmount) else 0) =
          if t.tokenAmount ≠ 0 then t.proceeds else 0 := by
        by_cases hzero : t.tokenAmount = 0
        · rw [if_neg (not_not.mpr hzero), if_neg (not_not.mpr hzero)]
        · rw [if_pos hzero, if_pos hzero, div_self hzero, mul_one, ScoredTrade.proceeds]
      have hdrawn := draw_mapTime timestamp lots t.tokenAmount
      have hrest := ih (draw lots t.tokenAmount).left (stocked_draw hs) hn.tail (by
        rw [supply_draw hamount hs, max_eq_right (sub_nonneg.mpr hheld)]
        exact hlater)
      rw [Wallet.replay_sell hdir (stocked_mapTime hs) (hsold ▸ hamount), sells_cons_sell hside, hops, charges,
        List.map_cons, List.zipWith_cons_cons, hsold, hdrawn, hrest, Wallet.closePosition, hsold, hts.value,
          supply_mapTime,
        min_eq_left hheld, hproceeds]

/-- The swaps of the wallet that have a token are those of one key. -/
theorem represented_ofKey (h : List.Forall₂ (Represents x chain wallet) trades swaps) (mint : String) :
    List.Forall₂ (Represents x chain wallet) (ofMint trades mint) (ofKey swaps (chain, wallet, mint)) := by
  induction h with
  | nil => exact List.Forall₂.nil
  | @cons t s later swaps hts _ ih =>
    by_cases hm : t.mint = mint
    · rw [ofMint, ofKey, List.filter_cons_of_pos (by simpa using hm),
        List.filter_cons_of_pos (by simpa [hts.key] using hm)]
      exact List.Forall₂.cons hts ih
    · rw [ofMint, ofKey, List.filter_cons_of_neg (by simpa using hm),
        List.filter_cons_of_neg (by simpa [hts.key] using hm)]
      exact ih

theorem represented_key (h : List.Forall₂ (Represents x chain wallet) trades swaps) (hs : s ∈ swaps) :
    ∃ mint, s.key = (chain, wallet, mint) := by
  induction h with
  | nil => exact absurd hs List.not_mem_nil
  | cons hts _ ih =>
    rcases List.mem_cons.mp hs with rfl | hs
    · exact ⟨_, hts.key⟩
    · exact ih hs

theorem sortTime_map (h : List.Forall₂ (Represents x chain wallet) trades swaps) :
    swaps.map (sortTime x) = trades.map ScoredTrade.secs := by
  induction h with
  | nil => rfl
  | cons hts _ ih => rw [List.map_cons, List.map_cons, ih, sortTime, hts.time, ScoredTrade.secs]

/-- The sort leaves swaps that come in chronological order. -/
theorem history_inOrder (h : List.Forall₂ (Represents x chain wallet) trades swaps) (ho : InOrder trades)
    (k : SwapKey) : history x swaps k = ofKey swaps k := by
  have hsorted : swaps.Pairwise fun a b => sortTime x a ≤ sortTime x b := by
    apply List.pairwise_map.mp
    rw [sortTime_map h]
    exact List.pairwise_map.mpr ho
  exact (hsorted.filter _).insertionSort_eq

theorem replay_token (swaps : List ScoredSwap) : ∀ (st : List Wallet.OpenLot × List Wallet.MatchedPosition),
    (∀ p ∈ st.2, p.token = token) → ∀ p ∈ (swaps.foldl (matchSwap x token) st).2, p.token = token := by
  induction swaps with
  | nil => exact fun st h => h
  | cons s later ih =>
    intro st h
    apply ih
    intro p hp
    rw [matchSwap] at hp
    rcases direction_cases s with hdir | hdir
    · rw [hdir] at hp
      exact h p hp
    · rw [hdir] at hp
      rcases List.mem_append.mp hp with hp | hp
      · exact h p hp
      · rw [List.mem_singleton.mp hp]
        rfl

theorem closedOf_token (k : SwapKey) : ∀ p ∈ closedOf x swaps k, p.token = k.2.2 :=
  replay_token _ _ fun _ hp => absurd hp List.not_mem_nil

end

/-- Of a list of groups without repetition a filter that keeps one keeps that one. -/
theorem flatMap_single {κ β : Type} [DecidableEq κ] {f : κ → List β} {k : κ} :
    ∀ {keys : List κ}, keys.Nodup → (k ∉ keys → f k = []) → keys.flatMap (fun j => if j = k then f j else []) = f k
  | [], _, h => (h List.not_mem_nil).symm
  | j :: keys, hnd, h => by
    obtain ⟨hj, hkeys⟩ := List.nodup_cons.mp hnd
    rw [List.flatMap_cons]
    by_cases hjk : j = k
    · have hnone : keys.flatMap (fun j => if j = k then f j else []) = [] := by
        apply List.flatMap_eq_nil_iff.mpr
        intro i hi
        rw [if_neg fun hik : i = k => hj (hjk.trans hik.symm ▸ hi)]
      rw [if_pos hjk, hnone, List.append_nil, hjk]
    · rw [if_neg hjk, List.nil_append]
      apply flatMap_single hkeys
      intro hk
      apply h
      intro hmem
      rcases List.mem_cons.mp hmem with hmem | hmem
      · exact hjk hmem.symm
      · exact hk hmem

section
variable {x : Crates} {chain wallet : String} {trades : List ScoredTrade} {swaps : List ScoredSwap}
variable {order : Order SwapKey (List ScoredSwap)}

/-- The positions of a token are those of its group. -/
theorem fifoMatch_ofToken (h : List.Forall₂ (Represents x chain wallet) trades swaps) (mint : String) :
    (Wallet.fifoMatch x order swaps).1.filter (fun p => p.token = mint) =
      closedOf x swaps (chain, wallet, mint) := by
  have hg := grouped x order swaps
  rw [hg.positions, List.filter_flatMap]
  have hone : ∀ k ∈ (order.iterate (groupBy ScoredSwap.key swaps)).keys,
      (closedOf x swaps k).filter (fun p => p.token = mint) =
        if k = (chain, wallet, mint) then closedOf x swaps k else [] := by
    intro k hk
    obtain ⟨s, hs, rfl⟩ := (hg.mem_iff k).mp hk
    obtain ⟨m, hm⟩ := represented_key h hs
    by_cases hkm : s.key = (chain, wallet, mint)
    · rw [if_pos hkm, List.filter_eq_self.mpr]
      intro p hp
      rw [closedOf_token _ p hp, hkm]
      simp
    · rw [if_neg hkm, List.filter_eq_nil_iff.mpr]
      intro p hp
      rw [closedOf_token _ p hp]
      intro heq
      apply hkm
      rw [hm] at heq ⊢
      simpa using heq
  rw [List.flatMap_congr hone]
  apply flatMap_single hg.nodup
  intro hnot
  have hempty : ofKey swaps (chain, wallet, mint) = [] := by
    apply List.filter_eq_nil_iff.mpr
    intro s hs hk
    exact hnot ((hg.mem_iff _).mpr ⟨s, hs, by simpa using hk⟩)
  rw [closedOf, history, hempty]
  rfl

/-! ## When the two agree -/

/-- Two lists of PnLs are the same when the empty sells bring nothing and the charges are the same. -/
theorem realized_agree_iff {ts : List ScoredTrade} {cs ds : List Rat}
    (hc : List.Forall₂ (fun t c => t.tokenAmount = 0 → c = 0) ts cs)
    (hd : List.Forall₂ (fun t d => t.tokenAmount = 0 → d = 0) ts ds) :
    List.zipWith (fun t c => some (t.proceeds - c)) ts cs =
        List.zipWith (fun t d => some ((if t.tokenAmount ≠ 0 then t.proceeds else 0) - d)) ts ds ↔
      (∀ t ∈ ts, t.tokenAmount = 0 → t.proceeds = 0) ∧ ds = cs := by
  induction hc generalizing ds with
  | nil =>
    cases hd
    simp
  | @cons t c ts cs htc _ ih =>
    cases hd with
    | @cons _ d _ ds htd hrest =>
      rw [List.zipWith_cons_cons, List.zipWith_cons_cons, List.cons.injEq, ih hrest, List.forall_mem_cons,
        List.cons.injEq, Option.some.injEq]
      by_cases hzero : t.tokenAmount = 0
      · rw [if_neg (not_not.mpr hzero), htc hzero, htd hzero, sub_zero, sub_zero]
        simp [hzero, and_assoc]
      · rw [if_pos hzero, sub_right_inj]
        simp [hzero, eq_comm, and_left_comm]

/-- The two matchings report the same for a mint exactly when its empty sells bring
nothing and none of its lots with a cost is sold in pieces. -/
theorem sameRealized_iff (h : List.Forall₂ (Represents x chain wallet) trades swaps) (hn : NonNegative trades)
    (ho : InOrder trades) (hc : NoOversell trades) (mint : String) :
    (positionsOf trades mint).map MatchedPosition.realizedPnlUsd =
        ((Wallet.fifoMatch x order swaps).1.filter fun p => p.token = mint).map (fun p => some p.realizedPnl) ↔
      (∀ t ∈ sells (ofMint trades mint), t.tokenAmount = 0 → t.proceeds = 0) ∧
        Unpieced 0 ((ofMint trades mint).map ScoredTrade.op) := by
  have hnil : Stocked ([] : List OpenLot) := fun _ hl => absurd hl List.not_mem_nil
  have hfree : Priced ([] : List OpenLot) := fun _ hl => absurd hl List.not_mem_nil
  have hkeep : ∀ lots : List OpenLot, (drawKeeping lots 0).cost = 0 := fun lots => by
    rw [drawKeeping_idle le_rfl]
  have hdraw : ∀ lots : List OpenLot, (draw lots 0).cost = 0 := fun lots => by rw [draw_idle le_rfl]
  have hmint := hn.ofMint mint
  have hnewer := realized_swaps (chain, wallet, mint).2.2 (represented_ofKey h mint) [] hnil hmint (hc mint)
  rw [List.map_nil] at hnewer
  rw [fifoMatch_ofToken h, closedOf, history_inOrder h ho, matchGroup_eq, positionsOf_eq,
    realized_eq _ [] hnil hmint, hnewer,
    realized_agree_iff (charges_paired hkeep _ _) (charges_paired hdraw _ _),
    charges_eq_iff hmint.sound hnil hfree, supply_nil, LotsUnpieced, true_and]

/-- Where no lot with a cost is sold in pieces, no mint is charged more than it cost. -/
theorem chargedTo_le (hn : NonNegative trades) (hu : Uncut trades) (mint : String) :
    chargedTo trades mint ≤ paidFor trades mint := by
  have hnil : Stocked ([] : List OpenLot) := fun _ hl => absurd hl List.not_mem_nil
  have hfree : Priced ([] : List OpenLot) := fun _ hl => absurd hl List.not_mem_nil
  have hsound := (hn.ofMint mint).sound
  have hsame := (charges_eq_iff hsound hnil hfree).mpr ⟨trivial, hu mint⟩
  have hsum := charges_sum_le hsound hnil hfree
  rw [hsame, worth_nil, zero_add, added_ops] at hsum
  rw [chargedTo_eq hn]
  exact hsum

theorem emptySellsFree_iff : EmptySellsFree trades ↔
    ∀ mint, ∀ t ∈ sells (ofMint trades mint), t.tokenAmount = 0 → t.proceeds = 0 := by
  refine ⟨fun h mint t ht => h t ?_, fun h t ht => h t.mint t ?_⟩
  · rw [sells, ofMint, List.filter_filter] at ht
    rw [sells, List.mem_filter] at *
    exact ⟨ht.1, by simpa using (Bool.and_eq_true_iff.mp ht.2).1⟩
  · rw [sells, List.mem_filter] at ht
    rw [sells, ofMint, List.mem_filter, List.mem_filter]
    exact ⟨⟨ht.1, by simp⟩, ht.2⟩

/-- The older matching conserves the cost and agrees with the newer wherever no lot
with a cost is sold in pieces and, when the sells are covered and in order, the
empty ones bring nothing; on trades in order whose sells are covered it does so
only there. -/
theorem fifoMatch_conserves_agrees (x : Crates) (order : Order SwapKey (List ScoredSwap)) (chain wallet : String)
    (trades : List ScoredTrade) (swaps : List ScoredSwap) (hn : NonNegative trades)
    (h : List.Forall₂ (Represents x chain wallet) trades swaps) :
    (Uncut trades ∧ (InOrder trades → NoOversell trades → EmptySellsFree trades) →
      ConservesAndAgrees trades (Wallet.fifoMatch x order swaps).1) ∧
    (InOrder trades → NoOversell trades →
      (ConservesAndAgrees trades (Wallet.fifoMatch x order swaps).1 ↔ Uncut trades ∧ EmptySellsFree trades)) := by
  have henough : Uncut trades ∧ (InOrder trades → NoOversell trades → EmptySellsFree trades) →
      ConservesAndAgrees trades (Wallet.fifoMatch x order swaps).1 := by
    intro hcond
    obtain ⟨hu, hfree⟩ := hcond
    refine ⟨chargedTo_le hn hu, fun ho hc mint => ?_⟩
    exact (sameRealized_iff h hn ho hc mint).mpr ⟨emptySellsFree_iff.mp (hfree ho hc) mint, hu mint⟩
  refine ⟨henough, fun ho hc => ⟨fun hp => ?_, fun hcond => henough ⟨hcond.1, fun _ _ => hcond.2⟩⟩⟩
  have hmint := fun mint => (sameRealized_iff h hn ho hc mint).mp (hp.2 ho hc mint)
  exact ⟨fun mint => (hmint mint).2, emptySellsFree_iff.mpr fun mint => (hmint mint).1⟩

end

/-! ## One lot in one piece and in two -/

/-- A buy of ten for 100 dollars. -/
def lotBought : ScoredTrade := ⟨"TOKEN", .buy, 10, some 100, some 1767225600000000000⟩

/-- A sell of `amount` for 60 dollars, an hour later. -/
def lotSold (amount : Rat) : ScoredTrade := ⟨"TOKEN", .sell, amount, some 60, some 1767229200000000000⟩

def lotBoughtSwap : ScoredSwap := ⟨⟨"solana", "A", "TOKEN", .buy, "100", "10", "2026-01-01T00:00:00Z"⟩, 100⟩

def lotSoldSwap (amount : String) : ScoredSwap :=
  ⟨⟨"solana", "A", "TOKEN", .sell, amount, "60", "2026-01-01T01:00:00Z"⟩, 60⟩

theorem represents_bought : Represents decimalCrates "solana" "A" lotBought lotBoughtSwap :=
  ⟨rfl, rfl, by decide +kernel, rfl, by decide +kernel⟩

theorem represents_sold {amount : Rat} {text : String} (h : parseDecimal decimalCrates text = amount) :
    Represents decimalCrates "solana" "A" (lotSold amount) (lotSoldSwap text) := by
  have htime : (decimalCrates.parseDateTime "2026-01-01T01:00:00Z").map timestamp =
      (some 1767229200000000000 : Option DateTime).map timestamp := by decide +kernel
  exact ⟨rfl, rfl, h.symm, rfl, htime⟩

/-- A lot sold whole is charged once. -/
theorem fifoMatch_conserves_agrees_whole :
    ConservesAndAgrees [lotBought, lotSold 10]
      (Wallet.fifoMatch decimalCrates (Order.stored _ _) [lotBoughtSwap, lotSoldSwap "10"]).1 := by
  have huncut : Uncut [lotBought, lotSold 10] := by
    intro mint
    by_cases hm : "TOKEN" = mint
    · subst hm
      decide +kernel
    · simp [ofMint, lotBought, lotSold, hm, Unpieced]
  have hfree : EmptySellsFree [lotBought, lotSold 10] := by unfold EmptySellsFree; decide +kernel
  have h := fifoMatch_conserves_agrees decimalCrates (Order.stored _ _) "solana" "A" [lotBought, lotSold 10]
    [lotBoughtSwap, lotSoldSwap "10"] (by unfold NonNegative; decide +kernel)
    (.cons represents_bought (.cons (represents_sold (by decide +kernel)) .nil))
  exact h.1 ⟨huncut, fun _ _ => hfree⟩

/-- A lot of 100 dollars sold in two halves is charged 50 dollars for the first and
100 for the second. -/
theorem fifoMatch_overcharges :
    NonNegative [lotBought, lotSold 5, lotSold 5] ∧
      List.Forall₂ (Represents decimalCrates "solana" "A") [lotBought, lotSold 5, lotSold 5]
        [lotBoughtSwap, lotSoldSwap "5", lotSoldSwap "5"] ∧
      InOrder [lotBought, lotSold 5, lotSold 5] ∧ NoOversell [lotBought, lotSold 5, lotSold 5] ∧
      paidFor [lotBought, lotSold 5, lotSold 5] "TOKEN" = 100 ∧
      chargedTo [lotBought, lotSold 5, lotSold 5] "TOKEN" = 150 ∧
      (fifoMatch [lotBought, lotSold 5, lotSold 5]).map MatchedPosition.realizedPnlUsd = [some 10, some (-40)] ∧
      (Wallet.fifoMatch decimalCrates (Order.stored _ _) [lotBoughtSwap, lotSoldSwap "5", lotSoldSwap "5"]).1.map
        Wallet.MatchedPosition.realizedPnl = [10, 10] ∧
      ¬ ConservesAndAgrees [lotBought, lotSold 5, lotSold 5]
        (Wallet.fifoMatch decimalCrates (Order.stored _ _) [lotBoughtSwap, lotSoldSwap "5", lotSoldSwap "5"]).1 := by
  have hfive : parseDecimal decimalCrates "5" = 5 := by decide +kernel
  have hcharged : chargedTo [lotBought, lotSold 5, lotSold 5] "TOKEN" = 150 := by decide +kernel
  have hpaid : paidFor [lotBought, lotSold 5, lotSold 5] "TOKEN" = 100 := by decide +kernel
  have hcovered : NoOversell [lotBought, lotSold 5, lotSold 5] := by
    intro mint
    by_cases hm : "TOKEN" = mint
    · subst hm
      decide +kernel
    · simp [ofMint, lotBought, lotSold, hm, Covered]
  refine ⟨by unfold NonNegative; decide +kernel,
    .cons represents_bought (.cons (represents_sold hfive) (.cons (represents_sold hfive) .nil)),
    by unfold InOrder; decide +kernel, hcovered, hpaid, hcharged, by decide +kernel, by decide +kernel, fun h => ?_⟩
  have hle := h.1 "TOKEN"
  rw [hcharged, hpaid] at hle
  norm_num at hle

end WhaleIntelligence.Wallet.Scoring
