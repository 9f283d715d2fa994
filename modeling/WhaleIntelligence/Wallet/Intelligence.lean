import Mathlib.Data.List.Dedup
import WhaleIntelligence.Lib.Ranking
import WhaleIntelligence.Wallet.FifoIsolation

/- The figures of a wallet: `build_wallet_intelligence`.

   The swaps of the wallet are matched first in, first out; the positions and the open
   lots are summed, per token and in total, and the cost basis is that of the token with
   the most swaps. Three hash maps are iterated on the way, each in an order of its own.

   Sums do not see these orders, nor that of the swaps (`reconstructSwaps_same`). The
   token with the most swaps does: of several, the one that the hash map comes to last
   is reported. So the figures are the same for every order exactly where one token
   alone has the most swaps (`intelligence_iff`). -/
namespace WhaleIntelligence.Wallet
open WhaleIntelligence FifoLots HashGroup Ranking

structure PricedSwap where
  swap : Swap
  usdValue : Rat
  deriving DecidableEq, Repr

structure SwapReconstruction where
  averageCost : Map String Rat
  realizedPnl : Rat
  realizedPnlByToken : Map String Rat
  unrealizedPnl : Rat
  tokensTraded : UInt32
  distinctClusters : UInt32

structure Recurrence where
  tokensTraded : UInt32
  distinctClusters : UInt32
  deriving DecidableEq, Repr

/-- The amounts are decimal texts. -/
structure CostBasis where
  token : String
  averageCost : String
  realizedPnl : Option String
  deriving DecidableEq, Repr

structure WalletIntelligence where
  chain : String
  address : String
  clusterId : Option String
  costBasis : Option CostBasis
  realizedOutcome : Option String
  unrealizedOutcome : Option String
  recurrence : Option Recurrence
  deriving DecidableEq, Repr

/-- The iteration orders of the hash maps: the groups of `fifo_match`, the open lots, the average costs. -/
structure Orders where
  byKey : Order SwapKey (List ScoredSwap)
  perToken : Order SwapKey (Rat × Rat)
  averageCost : Order String Rat

def toScored (swaps : List PricedSwap) : List ScoredSwap := swaps.map fun p => ⟨p.swap, p.usdValue⟩

/-- The size of a hash set of the texts, cast with `as u32`. -/
def distinctCount (l : List String) : UInt32 := UInt32.ofNat l.dedup.length

def averageOf (open_ : Rat × Rat) : Rat := if open_.1 ≠ 0 then open_.2 / open_.1 else 0

def markOf (markUsd : Option (Map String Rat)) (token : String) : Rat := (markUsd.bind fun m => m.lookup token).getD 0

def averageCosts (perToken : List (Σ _ : SwapKey, Rat × Rat)) : Map String Rat :=
  perToken.foldl (fun m e => m.insert e.1.2.2 (averageOf e.2)) ∅

def unrealized (markUsd : Option (Map String Rat)) (perToken : List (Σ _ : SwapKey, Rat × Rat)) : Rat :=
  perToken.foldl (fun sum e => sum + (markOf markUsd e.1.2.2 - e.2.2)) 0

def reconstructSwaps (x : Crates) (orders : Orders) (swaps : List PricedSwap) (markUsd : Option (Map String Rat)) :
    SwapReconstruction :=
  let matched := fifoMatch x orders.byKey (toScored swaps)
  { averageCost := averageCosts (orders.perToken.iterate matched.2.perToken)
    realizedPnl := (matched.1.map MatchedPosition.realizedPnl).sum
    realizedPnlByToken := tally MatchedPosition.token MatchedPosition.realizedPnl matched.1
    unrealizedPnl := unrealized markUsd (orders.perToken.iterate matched.2.perToken)
    tokensTraded := distinctCount (swaps.map fun p => p.swap.token)
    distinctClusters := 0 }

def computeRecurrence (swaps : List PricedSwap) (clusters : Map String String) : Recurrence where
  tokensTraded := distinctCount (swaps.map fun p => p.swap.token)
  distinctClusters := distinctCount (swaps.filterMap fun p => clusters.lookup p.swap.wallet)

/-- The swaps of the wallet. -/
def own (chain address : String) (swaps : List PricedSwap) : List PricedSwap :=
  swaps.filter fun p => p.swap.chain == chain && p.swap.wallet == address

def swapCount (swaps : List PricedSwap) (token : String) : Nat :=
  (swaps.filter fun p => p.swap.token == token).length

/-- The cost basis of the token with the most swaps, of several the last one. -/
def costBasisOf (text : Rat → String) (order : Order String Rat) (swaps : List PricedSwap) (rec_ : SwapReconstruction) :
    Option CostBasis :=
  (lastMax (fun e : Σ _ : String, Rat => swapCount swaps e.1) (order.iterate rec_.averageCost)).map fun e =>
    ⟨e.1, text e.2, (rec_.realizedPnlByToken.lookup e.1).map text⟩

/-- `text` is `Decimal::to_string`. -/
def buildWalletIntelligence (x : Crates) (text : Rat → String) (orders : Orders) (chain address : String)
    (clusterId : Option String) (swaps : List PricedSwap) (markUsd : Option (Map String Rat))
    (clusters : Map String String) : WalletIntelligence :=
  let mine := own chain address swaps
  let rec_ := reconstructSwaps x orders mine markUsd
  { chain := chain
    address := address
    clusterId := clusterId
    costBasis := costBasisOf text orders.averageCost mine rec_
    realizedOutcome := some (text rec_.realizedPnl)
    unrealizedOutcome := some (text rec_.unrealizedPnl)
    recurrence := some (computeRecurrence mine clusters) }

/-! ## Sums over the open lots -/

theorem unrealized_perm (markUsd : Option (Map String Rat)) {es es' : List (Σ _ : SwapKey, Rat × Rat)}
    (h : es.Perm es') : unrealized markUsd es = unrealized markUsd es' := by
  apply h.foldl_eq'
  intro a _ b _ sum
  rw [add_right_comm]

/-- Of keys with distinct tokens each token has the average of its key. -/
theorem lookup_averageCosts {es : List (Σ _ : SwapKey, Rat × Rat)} (h : (es.map fun e => e.1.2.2).Nodup)
    (token : String) :
    (averageCosts es).lookup token =
      (es.map fun e => (⟨e.1.2.2, averageOf e.2⟩ : Σ _ : String, Rat)).dlookup token := by
  have hfold : averageCosts es = (es.map fun e => (⟨e.1.2.2, averageOf e.2⟩ : Σ _ : String, Rat)).foldl
      (fun m e => m.insert e.1 (id e.2)) ∅ := by
    rw [List.foldl_map]
    rfl
  have hkeys : (es.map fun e => (⟨e.1.2.2, averageOf e.2⟩ : Σ _ : String, Rat)).NodupKeys := by
    rw [List.NodupKeys, List.keys, List.map_map]
    exact h
  rw [hfold, lookup_foldl_insert (fun _ v => id v) token _ _ hkeys]
  simp

/-! ## The keys of one wallet -/

section
variable {x : Crates} {order : Order SwapKey (List ScoredSwap)} {chain address : String}
  {swaps mine mine' : List PricedSwap}

/-- All swaps are of the wallet. -/
def Owned (chain address : String) (mine : List PricedSwap) : Prop :=
  ∀ p ∈ mine, p.swap.chain = chain ∧ p.swap.wallet = address

theorem mem_own {p : PricedSwap} :
    p ∈ own chain address swaps ↔ p ∈ swaps ∧ p.swap.chain = chain ∧ p.swap.wallet = address := by
  simp [own]

theorem owned_own (chain address : String) (swaps : List PricedSwap) : Owned chain address (own chain address swaps) :=
  fun _ hp => (mem_own.mp hp).2

/-- The open lots have a key for each token the wallet swapped. -/
theorem isSome_perToken (x : Crates) (order : Order SwapKey (List ScoredSwap)) (h : Owned chain address mine)
    (k : SwapKey) :
    ((fifoMatch x order (toScored mine)).2.perToken.lookup k).isSome = true ↔
      ∃ p ∈ mine, k = (chain, address, p.swap.token) := by
  have hg := grouped x order (toScored mine)
  have hkey : k ∈ (order.iterate (groupBy ScoredSwap.key (toScored mine))).keys ↔
      ∃ p ∈ mine, k = (chain, address, p.swap.token) := by
    rw [hg.mem_iff]
    constructor
    · rintro ⟨s, hs, rfl⟩
      obtain ⟨p, hp, rfl⟩ := List.mem_map.mp hs
      exact ⟨p, hp, by rw [ScoredSwap.key, (h p hp).1, (h p hp).2]⟩
    · rintro ⟨p, hp, rfl⟩
      refine ⟨⟨p.swap, p.usdValue⟩, List.mem_map.mpr ⟨p, hp, rfl⟩, ?_⟩
      rw [ScoredSwap.key, (h p hp).1, (h p hp).2]
  rw [hg.residual, ← hkey]
  split <;> simp_all

variable {perToken : Order SwapKey (Rat × Rat)}

theorem tokens_nodup (h : Owned chain address mine) :
    ((perToken.iterate (fifoMatch x order (toScored mine)).2.perToken).map fun e => e.1.2.2).Nodup := by
  have hkeys := perToken.nodupKeys (fifoMatch x order (toScored mine)).2.perToken
  have hmap : ((perToken.iterate (fifoMatch x order (toScored mine)).2.perToken).keys.map fun k => k.2.2).Nodup := by
    apply List.Nodup.map_on _ hkeys
    intro j hj k hk htoken
    have hone : ∀ k ∈ (perToken.iterate (fifoMatch x order (toScored mine)).2.perToken).keys,
        ∃ token, k = (chain, address, token) := by
      intro k hk
      rw [← List.dlookup_isSome, perToken.dlookup_iterate] at hk
      obtain ⟨p, -, hp⟩ := (isSome_perToken x order h k).mp hk
      exact ⟨p.swap.token, hp⟩
    obtain ⟨t, rfl⟩ := hone j hj
    obtain ⟨u, rfl⟩ := hone k hk
    have htu : t = u := htoken
    rw [htu]
  rw [List.keys, List.map_map] at hmap
  exact hmap

/-- The average costs are those of the tokens the wallet swapped. -/
theorem mem_averageCosts (h : Owned chain address mine) (token : String) :
    token ∈ averageCosts (perToken.iterate (fifoMatch x order (toScored mine)).2.perToken) ↔
      ∃ p ∈ mine, p.swap.token = token := by
  rw [← AList.lookup_isSome, lookup_averageCosts (tokens_nodup h), List.dlookup_isSome]
  constructor
  · intro hmem
    obtain ⟨e, he, htoken⟩ := List.mem_map.mp hmem
    obtain ⟨g, hg, rfl⟩ := List.mem_map.mp he
    have hsome : ((fifoMatch x order (toScored mine)).2.perToken.lookup g.1).isSome = true := by
      rw [perToken.mem_iterate.mp hg]
      rfl
    obtain ⟨p, hp, hkey⟩ := (isSome_perToken x order h g.1).mp hsome
    refine ⟨p, hp, ?_⟩
    rw [← htoken]
    simp only [hkey]
  · rintro ⟨p, hp, rfl⟩
    obtain ⟨v, hv⟩ := Option.isSome_iff_exists.mp ((isSome_perToken x order h _).mpr ⟨p, hp, rfl⟩)
    have hmem := perToken.mem_iterate.mpr hv
    exact List.mem_map.mpr ⟨_, List.mem_map.mpr ⟨_, hmem, rfl⟩, rfl⟩

end

/-! ## The orders -/

/-- The figures are the same, the maps up to their order. -/
structure Agree (r r' : SwapReconstruction) : Prop where
  averageCost : ∀ token, r.averageCost.lookup token = r'.averageCost.lookup token
  realizedPnl : r.realizedPnl = r'.realizedPnl
  realizedPnlByToken : ∀ token, r.realizedPnlByToken.lookup token = r'.realizedPnlByToken.lookup token
  unrealizedPnl : r.unrealizedPnl = r'.unrealizedPnl

section
variable {x : Crates} {chain address : String} {mine mine' : List PricedSwap} {markUsd : Option (Map String Rat)}

theorem distinctCount_perm {l l' : List String} (h : l.Perm l') : distinctCount l = distinctCount l' := by
  rw [distinctCount, distinctCount, h.dedup.length_eq]

/-- No order is seen by the sums. -/
theorem reconstructSwaps_same (markUsd : Option (Map String Rat)) (hd : DistinctSeconds x (toScored mine))
    (howned : Owned chain address mine)
    (h : mine.Perm mine') (orders orders' : Orders) :
    Agree (reconstructSwaps x orders mine markUsd) (reconstructSwaps x orders' mine' markUsd) := by
  have howned' : Owned chain address mine' := fun p hp => howned p (h.mem_iff.mpr hp)
  obtain ⟨hpositions, hresidual⟩ := fifoMatch_perm hd (h.map _) orders.byKey orders'.byKey
  have hperm := Order.iterate_perm hresidual orders.perToken orders'.perToken
  refine ⟨?_, (hpositions.map _).sum_eq, tally_perm _ _ hpositions, unrealized_perm markUsd hperm⟩
  intro token
  rw [reconstructSwaps, reconstructSwaps]
  simp only
  rw [lookup_averageCosts (tokens_nodup howned), lookup_averageCosts (tokens_nodup howned')]
  apply List.perm_dlookup token _ (hperm.map _)
  rw [List.NodupKeys, List.keys, List.map_map]
  exact tokens_nodup howned

end

/-! ## The token with the most swaps -/

/-- A token of the wallet that no other has more swaps than. -/
def Primary (mine : List PricedSwap) (token : String) : Prop :=
  (∃ p ∈ mine, p.swap.token = token) ∧ ∀ other, swapCount mine other ≤ swapCount mine token

section
variable {x : Crates} {text : Rat → String} {orders orders' : Orders} {chain address : String}
  {mine mine' : List PricedSwap} {markUsd : Option (Map String Rat)}

theorem swapCount_perm (h : mine.Perm mine') : swapCount mine = swapCount mine' :=
  funext fun _ => (h.filter _).length_eq

theorem swapCount_eq_zero {token : String} (h : ¬∃ p ∈ mine, p.swap.token = token) : swapCount mine token = 0 := by
  rw [swapCount, List.length_eq_zero_iff, List.filter_eq_nil_iff]
  intro p hp htoken
  exact h ⟨p, hp, by simpa using htoken⟩

/-- The entries of the average costs that may be selected are those of primary tokens. -/
theorem primary_of_greatest {rec_ : SwapReconstruction}
    (htokens : ∀ token, token ∈ rec_.averageCost ↔ ∃ p ∈ mine, p.swap.token = token) (order : Order String Rat)
    {e : Σ _ : String, Rat} (he : e ∈ order.iterate rec_.averageCost)
    (hmax : ∀ d ∈ order.iterate rec_.averageCost, swapCount mine d.1 ≤ swapCount mine e.1) : Primary mine e.1 := by
  have hmem : e.1 ∈ rec_.averageCost := by
    rw [← AList.lookup_isSome, order.mem_iterate.mp he]
    rfl
  refine ⟨(htokens e.1).mp hmem, fun other => ?_⟩
  by_cases hother : ∃ p ∈ mine, p.swap.token = other
  · obtain ⟨v, hv⟩ := Option.isSome_iff_exists.mp (AList.lookup_isSome.mpr ((htokens other).mpr hother))
    exact hmax ⟨other, v⟩ (order.mem_iterate.mpr hv)
  · rw [swapCount_eq_zero hother]
    exact Nat.zero_le _

/-- A primary token is reported when the hash map comes to it last. -/
theorem costBasisOf_last (text : Rat → String) {rec_ : SwapReconstruction}
    (htokens : ∀ token, token ∈ rec_.averageCost ↔ ∃ p ∈ mine, p.swap.token = token) {token : String}
    (h : Primary mine token) :
    ((costBasisOf text (Order.last Rat token) mine rec_).map CostBasis.token) = some token := by
  obtain ⟨v, hv⟩ := Option.isSome_iff_exists.mp (AList.lookup_isSome.mpr ((htokens token).mpr h.1))
  rw [costBasisOf, Order.iterate_last hv, lastMax_last fun d _ => h.2 d.1]
  rfl

/-- Where one token alone is primary, the cost basis does not see the orders. -/
theorem costBasisOf_eq (text : Rat → String) {r r' : SwapReconstruction} (hagree : Agree r r') (h : mine.Perm mine')
    (htokens : ∀ token, token ∈ r.averageCost ↔ ∃ p ∈ mine, p.swap.token = token)
    (hone : ∀ t u, Primary mine t → Primary mine u → t = u) (order order' : Order String Rat) :
    costBasisOf text order mine r = costBasisOf text order' mine' r' := by
  have hperm := Order.iterate_perm hagree.averageCost order order'
  have hselect := lastMax_perm (f := fun e : Σ _ : String, Rat => swapCount mine e.1) hperm (by
    intro b hb c hc hbmax hcmax
    have hkey : b.1 = c.1 :=
      hone b.1 c.1 (primary_of_greatest htokens order hb hbmax) (primary_of_greatest htokens order hc hcmax)
    have hval : some b.2 = some c.2 := by
      rw [← order.mem_iterate.mp hb, ← order.mem_iterate.mp hc, hkey]
    exact Sigma.ext hkey (heq_of_eq (Option.some.inj hval)))
  rw [costBasisOf, costBasisOf, ← swapCount_perm h, hselect]
  simp only [hagree.realizedPnlByToken]

end

/-! ## The figures -/

section
variable {x : Crates} {text : Rat → String} {chain address : String} {swaps swaps' : List PricedSwap}

/-- The list in any order, with swaps of other wallets or chains added. -/
def Rearranged (chain address : String) (swaps swaps' : List PricedSwap) : Prop :=
  ∃ others, (∀ p ∈ others, ¬(p.swap.chain = chain ∧ p.swap.wallet = address)) ∧ swaps'.Perm (swaps ++ others)

theorem Rearranged.own_perm (h : Rearranged chain address swaps swaps') :
    (own chain address swaps).Perm (own chain address swaps') := by
  obtain ⟨others, hothers, hperm⟩ := h
  have hnil : own chain address others = [] := by
    apply List.eq_nil_iff_forall_not_mem.mpr
    intro p hp
    exact hothers p (mem_own.mp hp).1 (mem_own.mp hp).2
  have hown : own chain address (swaps ++ others) = own chain address swaps := by
    rw [own, List.filter_append, ← own, ← own, hnil, List.append_nil]
  exact hown ▸ (hperm.filter _).symm

theorem distinctSeconds_own (hd : DistinctSeconds x (toScored swaps)) (chain address : String) :
    DistinctSeconds x (toScored (own chain address swaps)) :=
  hd.sublist (List.filter_sublist.map _)

theorem computeRecurrence_perm {mine mine' : List PricedSwap} (h : mine.Perm mine') (clusters : Map String String) :
    computeRecurrence mine clusters = computeRecurrence mine' clusters := by
  rw [computeRecurrence, computeRecurrence, distinctCount_perm (h.map _), distinctCount_perm (h.filterMap _)]

/-- Where no two swaps of a token share a second, the figures of the wallet are the same in every order, of
    the swaps and of the hash maps, and with other swaps added, exactly where one token alone has the most
    swaps. -/
theorem intelligence_iff (x : Crates) (text : Rat → String) (chain address : String) (clusterId : Option String)
    (swaps : List PricedSwap) (markUsd : Option (Map String Rat)) (clusters : Map String String)
    (hd : DistinctSeconds x (toScored swaps)) :
    (∀ orders orders' swaps', Rearranged chain address swaps swaps' →
      buildWalletIntelligence x text orders chain address clusterId swaps markUsd clusters =
        buildWalletIntelligence x text orders' chain address clusterId swaps' markUsd clusters) ↔
      ∀ t u, Primary (own chain address swaps) t → Primary (own chain address swaps) u → t = u := by
  have howned := owned_own chain address swaps
  have htokens : ∀ (orders : Orders) token,
      token ∈ (reconstructSwaps x orders (own chain address swaps) markUsd).averageCost ↔
        ∃ p ∈ own chain address swaps, p.swap.token = token := fun orders => mem_averageCosts howned
  constructor
  · intro h t u ht hu
    -- the hash map may come to either token last
    let ending := fun token => (⟨Order.stored _ _, Order.stored _ _, Order.last Rat token⟩ : Orders)
    have hsame : Rearranged chain address swaps swaps := ⟨[], by simp, by simp⟩
    have hbasis := congrArg (fun w => w.costBasis.map CostBasis.token) (h (ending t) (ending u) swaps hsame)
    have ht' := costBasisOf_last text (htokens (ending t)) ht
    have hu' := costBasisOf_last text (htokens (ending u)) hu
    exact Option.some.inj ((ht'.symm.trans hbasis).trans hu')
  · intro hone orders orders' swaps' hre
    have hperm := hre.own_perm
    have hagree := reconstructSwaps_same markUsd (distinctSeconds_own hd chain address) howned hperm
      orders orders'
    have hbasis := costBasisOf_eq text hagree hperm (htokens orders) hone orders.averageCost
      orders'.averageCost
    simp only [buildWalletIntelligence, hbasis, hagree.realizedPnl, hagree.unrealizedPnl,
      computeRecurrence_perm hperm]

end

/-- A buy of the token for ten dollars. -/
def pricedBuy (token timestamp : String) : PricedSwap :=
  ⟨⟨"solana", "W", token, .buy, "10", "5", timestamp⟩, 10⟩

def ordersEnding (token : String) : Orders := ⟨Order.stored _ _, Order.stored _ _, Order.last Rat token⟩

/-- The cost basis of the wallet, by the token it is reported for. -/
def basisToken (orders : Orders) (swaps : List PricedSwap) : Option String :=
  (buildWalletIntelligence decimalCrates (fun _ => "") orders "solana" "W" none swaps none ∅).costBasis.map
    CostBasis.token

def tied : List PricedSwap := [pricedBuy "A" "2026-01-01T00:00:00Z", pricedBuy "B" "2026-01-01T01:00:00Z"]

/-- One swap of each of two tokens: either of them is reported. -/
theorem tied_tokens_differ : DistinctSeconds decimalCrates (toScored tied) ∧
    basisToken (ordersEnding "A") tied = some "A" ∧ basisToken (ordersEnding "B") tied = some "B" := by
  refine ⟨?_, by decide +kernel, by decide +kernel⟩
  unfold DistinctSeconds
  decide +kernel

def untied : List PricedSwap := pricedBuy "A" "2026-01-01T02:00:00Z" :: tied

theorem primary_untied {t : String} (h : Primary (own "solana" "W" untied) t) : t = "A" := by
  obtain ⟨⟨p, hp, rfl⟩, hmax⟩ := h
  have hcases : p = pricedBuy "A" "2026-01-01T02:00:00Z" ∨ p = pricedBuy "A" "2026-01-01T00:00:00Z" ∨
      p = pricedBuy "B" "2026-01-01T01:00:00Z" := by
    simpa [untied, tied] using (mem_own.mp hp).1
  obtain rfl | rfl | rfl := hcases
  · rfl
  · rfl
  · exact absurd (hmax "A") (by decide)

/-- With more swaps of one token than of the other, the figures are the same. -/
theorem untied_tokens_same :
    buildWalletIntelligence decimalCrates (fun _ => "") (ordersEnding "A") "solana" "W" none untied none ∅ =
      buildWalletIntelligence decimalCrates (fun _ => "")
        (ordersEnding "B") "solana" "W" none untied.reverse none ∅ := by
  apply (intelligence_iff decimalCrates (fun _ => "") "solana" "W" none untied none ∅ ?_).mpr
  · intro t u ht hu
    rw [primary_untied ht, primary_untied hu]
  · refine ⟨[], by simp, ?_⟩
    rw [List.append_nil]
    exact List.reverse_perm untied
  · unfold DistinctSeconds
    decide +kernel

end WhaleIntelligence.Wallet
