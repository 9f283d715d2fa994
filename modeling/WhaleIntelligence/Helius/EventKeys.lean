import WhaleIntelligence.Chains.Panics
import WhaleIntelligence.Helius.History
import WhaleIntelligence.Helius.Inserts

/- The keys of the events of one payload.

   A native transfer has the index of its place, a token transfer has a million more, and
   every trade has the index zero. So the keys of transfers meet only in lists that are
   as long, while the two sides of one swap always share a key (`event_keys_iff`). The
   transfers of a block are told apart by the pairs that its loops have seen. -/
namespace WhaleIntelligence.Helius
open WhaleIntelligence Chains Fallible FirstWins

/-! ## Storing -/

def tradeKey (t : NormalizedTrade) : String × Int × String := (t.signature, t.eventIndex, t.wallet)

def transferKey (t : NormalizedTransfer) : String × Int × String × String :=
  (t.signature, t.eventIndex, t.fromAddress, t.toAddress)

/-- Which rows the columns of the tables take. -/
structure Accepts where
  transfer : NormalizedTransfer → Bool
  trade : NormalizedTrade → Bool

/-- The events are stored; a row that the columns do not take is an error of its statement alone. -/
def storeEvents (accepts : Accepts) (events : NormalizedEvents) (db : Store) : Store :=
  let db := (events.transfers.filter accepts.transfer).foldl storeTransfer db
  (events.trades.filter accepts.trade).foldl storeTrade db

/-- The store has no event under a signature of these. -/
structure Unstored (events : NormalizedEvents) (db : Store) : Prop where
  transfers : ∀ t ∈ events.transfers, ∀ row ∈ db.transfers, row.signature ≠ t.signature
  trades : ∀ t ∈ events.trades, ∀ row ∈ db.trades, row.signature ≠ t.signature

/-- The keys are distinct, and a store without the signatures keeps every event. -/
structure KeysDistinct (events : NormalizedEvents) : Prop where
  trades : (events.trades.map tradeKey).Nodup
  transfers : (events.transfers.map transferKey).Nodup
  kept : ∀ accepts db, Unstored events db →
    (storeEvents accepts events db).transfers = db.transfers ++ events.transfers.filter accepts.transfer ∧
    (storeEvents accepts events db).trades = db.trades ++ events.trades.filter accepts.trade

section
variable {events : NormalizedEvents} {db : Store}

theorem foldl_storeTransfer (l : List NormalizedTransfer) : l.foldl storeTransfer db =
    { db with transfers := l.foldl (insertNew fun t =>
      (t.chain, t.signature, t.eventIndex, t.fromAddress, t.toAddress)) db.transfers } := by
  induction l generalizing db with
  | nil => rfl
  | cons t l ih => exact ih

theorem foldl_storeTrade (l : List NormalizedTrade) : l.foldl storeTrade db =
    { db with trades := l.foldl (insertNew fun t => (t.chain, t.signature, t.eventIndex, t.wallet)) db.trades } := by
  induction l generalizing db with
  | nil => rfl
  | cons t l ih => exact ih

/-- Rows with distinct keys under new signatures are all added. -/
theorem foldl_insertNew_distinct {ρ κ : Type} [DecidableEq κ] {key : ρ → κ} {rows l : List ρ} {p : ρ → Bool}
    (hkeys : (l.map key).Nodup) (hnew : ∀ row ∈ l, key row ∉ rows.map key) :
    (l.filter p).foldl (insertNew key) rows = rows ++ l.filter p := by
  have hsub : ((l.filter p).map key).Sublist (l.map key) := List.filter_sublist.map key
  rw [foldl_insertNew, (fresh_eq_self_iff key _ _).mpr]
  exact ⟨hkeys.sublist hsub, fun row hrow => hnew row (List.mem_of_mem_filter hrow)⟩

/-- Distinct keys are enough for every event to be kept. -/
theorem keysDistinct_iff : KeysDistinct events ↔
    (events.trades.map tradeKey).Nodup ∧ (events.transfers.map transferKey).Nodup := by
  refine ⟨fun h => ⟨h.trades, h.transfers⟩, fun h => ⟨h.1, h.2, fun accepts db hunstored => ?_⟩⟩
  rw [storeEvents, foldl_storeTrade, foldl_storeTransfer]
  constructor
  · apply foldl_insertNew_distinct
    · apply List.Nodup.of_map Prod.snd
      rw [List.map_map]
      exact h.2
    · intro t ht hmem
      obtain ⟨row, hrow, hkey⟩ := List.mem_map.mp hmem
      exact hunstored.transfers t ht row hrow (congrArg (fun k : _ × _ × _ × _ => k.2.1) hkey)
  · apply foldl_insertNew_distinct
    · apply List.Nodup.of_map Prod.snd
      rw [List.map_map]
      exact h.1
    · intro t ht hmem
      obtain ⟨row, hrow, hkey⟩ := List.mem_map.mp hmem
      exact hunstored.trades t ht row hrow (congrArg (fun k : _ × _ × _ => k.2.1) hkey)

end

/-! ## What a payload says of the keys -/

section
variable (x : ChainCrates)

/-- The two accounts of a native transfer that is taken. -/
def nativeEnds (transfer : Json) : Option (String × String) := do
  let sender ← transfer.strAt "fromUserAccount"
  let receiver ← transfer.strAt "toUserAccount"
  let lamports ← (transfer.get "amount").bind Json.asU64
  if lamports = 0 || isErr (validateSolanaAddress x sender) || isErr (validateSolanaAddress x receiver) then none
  else some (sender, receiver)

/-- The two accounts of a token transfer that is taken. -/
def tokenEnds (transfer : Json) : Option (String × String) :=
  (admitted x transfer).map fun _ =>
    ((transfer.strAt "fromUserAccount").getD "", (transfer.strAt "toUserAccount").getD "")

/-- The accounts of the transfer at a place of a list. -/
def endsAt (ends : Json → Option (String × String)) (transfers : List Json) (i : Nat) : Option (String × String) :=
  transfers[i]?.bind ends

def nativesOf (raw : Json) : List Json := (raw.arrayAt "nativeTransfers").getD []
def tokensOf (raw : Json) : List Json := (raw.arrayAt "tokenTransfers").getD []

/-- No two transfers that are taken between the same accounts have one index. -/
structure IndicesApart (raw : Json) : Prop where
  natives : ∀ i j e, i < j → endsAt (nativeEnds x) (nativesOf raw) i = some e →
    endsAt (nativeEnds x) (nativesOf raw) j = some e → asI32 i ≠ asI32 j
  tokens : ∀ i j e, i < j → endsAt (tokenEnds x) (tokensOf raw) i = some e →
    endsAt (tokenEnds x) (tokensOf raw) j = some e → asI32 i ≠ asI32 j
  across : ∀ i j e, endsAt (nativeEnds x) (nativesOf raw) i = some e →
    endsAt (tokenEnds x) (tokensOf raw) j = some e → asI32 i ≠ 1000000 + asI32 j

/-- A side of a swap makes a trade: its fee payer is an address, and it has a native amount
and a first token leg that trade. -/
def tradesSide (raw : Json) (native : Option String) (tokens : Option (List Json)) : Bool :=
  walletValid x ((raw.strAt "feePayer").getD "") &&
    native.any fun nativeRaw => tokens.any fun legs => legs.head?.any (legTrades x nativeRaw)

/-- Both sides of the swap make a trade. -/
def BothSides (raw : Json) : Prop :=
  ∃ swap, swapOf raw = some swap ∧
    tradesSide x raw ((swap.get "nativeInput").bind fun n => n.strAt "amount") (swap.arrayAt "tokenOutputs") = true ∧
    tradesSide x raw ((swap.get "nativeOutput").bind fun n => n.strAt "amount") (swap.arrayAt "tokenInputs") = true

end

section
variable {x : ChainCrates} {o : Observation} {raw : Json}

/-! ## Transfers -/

theorem nativeTransfer_key {index : Nat} {transfer : Json} {r : Option NormalizedTransfer}
    (h : nativeTransfer x o index transfer = .ok r) :
    r.map transferKey = (nativeEnds x transfer).map fun e => (o.signature, asI32 index, e) := by
  revert h
  rw [nativeTransfer, nativeEnds]
  cases transfer.strAt "fromUserAccount" with
  | none =>
    intro h
    cases h
    rfl
  | some sender =>
    cases transfer.strAt "toUserAccount" with
    | none =>
      intro h
      cases h
      rfl
    | some receiver =>
      cases (transfer.get "amount").bind Json.asU64 with
      | none =>
        intro h
        cases h
        rfl
      | some lamports =>
        dsimp only
        intro h
        by_cases hzero : lamports = 0
        · rw [if_pos hzero] at h
          cases h
          simp [hzero]
        · rw [if_neg hzero] at h
          cases hs : isErr (validateSolanaAddress x sender) with
          | true =>
            rw [hs, Bool.true_or, if_pos rfl] at h
            cases h
            simp [hs]
          | false =>
            cases hr : isErr (validateSolanaAddress x receiver) with
            | true =>
              rw [hs, hr, Bool.or_true, if_pos rfl] at h
              cases h
              simp [hr]
            | false =>
              rw [hs, hr, Bool.or_false, if_neg Bool.false_ne_true] at h
              obtain ⟨amount, -, h⟩ := bind_eq_ok.mp h
              cases h
              simp [hzero, hs, hr, transferKey]

theorem laterIndex_some {index : Nat} {n : Int} (h : laterIndex index = some n) : n = 1000000 + asI32 index := by
  rw [laterIndex] at h
  split at h
  · exact (Option.some.inj h).symm
  · cases h

theorem orPanic_eq_ok {ε α : Type} {v : Option α} {a : α} (h : (orPanic v : Except (Abort ε) α) = .ok a) :
    v = some a := by
  cases v with
  | none => cases h
  | some b =>
    cases h
    rfl

theorem tokenTransfer_key {offset : Nat} {transfer : Json} {r : Option NormalizedTransfer}
    (h : tokenTransfer x o offset transfer = .ok r) :
    r.map transferKey = (tokenEnds x transfer).map fun e => (o.signature, 1000000 + asI32 offset, e) := by
  rw [tokenEnds]
  cases hadmitted : admitted x transfer with
  | none =>
    rw [tokenTransfer_none hadmitted] at h
    cases h
    rfl
  | some p =>
    obtain ⟨t, ht, hkey⟩ := tokenTransfer_some o offset hadmitted
    rw [ht] at h
    obtain ⟨amount, -, h⟩ := bind_eq_ok.mp h
    obtain ⟨eventIndex, hindex, h⟩ := bind_eq_ok.mp h
    cases h
    obtain ⟨hsignature, hevent, hfrom, hto⟩ := hkey amount eventIndex
    rw [← laterIndex_some (orPanic_eq_ok hindex), Option.map_some, transferKey, hsignature, hevent, hfrom, hto]
    rfl

/-- The keys that a list of transfers makes. -/
def keysOf (signature : String) (ends : Json → Option (String × String)) (index : Nat → Int) (transfers : List Json) :
    List (String × Int × String × String) :=
  transfers.zipIdx.filterMap fun p => (ends p.1).map fun e => (signature, index p.2, e)

theorem mem_keysOf {signature : String} {ends : Json → Option (String × String)} {index : Nat → Int}
    {transfers : List Json} {k : String × Int × String × String} :
    k ∈ keysOf signature ends index transfers ↔ ∃ i e, endsAt ends transfers i = some e ∧
      k = (signature, index i, e) := by
  simp only [keysOf, List.mem_filterMap, List.mem_zipIdx_iff_getElem?, Option.map_eq_some_iff, endsAt,
    Option.bind_eq_some_iff, Prod.exists]
  constructor
  · rintro ⟨t, i, ht, a, b, he, rfl⟩
    exact ⟨i, a, b, ⟨t, ht, he⟩, rfl⟩
  · rintro ⟨i, a, b, ⟨t, ht, he⟩, rfl⟩
    exact ⟨t, i, ht, a, b, he, rfl⟩

/-- The keys of a list are distinct where no two of its transfers share accounts and an index. -/
theorem keysOf_nodup {signature : String} {ends : Json → Option (String × String)} {index : Nat → Int}
    {transfers : List Json} : (keysOf signature ends index transfers).Nodup ↔
      ∀ i j e, i < j → endsAt ends transfers i = some e → endsAt ends transfers j = some e → index i ≠ index j := by
  rw [keysOf, List.Nodup, List.pairwise_filterMap, List.pairwise_iff_getElem]
  constructor
  · intro h i j e hij hi hj heq
    obtain ⟨t, ht, he⟩ := Option.bind_eq_some_iff.mp hi
    obtain ⟨u, hu, he'⟩ := Option.bind_eq_some_iff.mp hj
    obtain ⟨hi', rfl⟩ := List.getElem?_eq_some_iff.mp ht
    obtain ⟨hj', rfl⟩ := List.getElem?_eq_some_iff.mp hu
    refine h i j (by simpa using hi') (by simpa using hj') hij (signature, index i, e) ?_ (signature, index j, e) ?_ ?_
    · simp [he]
    · simp [he']
    · rw [heq]
  · intro h i j hi hj hij k hk k' hk' heq
    rw [List.length_zipIdx] at hi hj
    simp only [List.getElem_zipIdx, Nat.zero_add, Option.map_eq_some_iff] at hk hk'
    obtain ⟨e, he, rfl⟩ := hk
    obtain ⟨e', he', rfl⟩ := hk'
    simp only [Prod.mk.injEq, true_and] at heq
    obtain ⟨hindex, rfl⟩ := heq
    refine h i j e hij ?_ ?_ hindex
    · rw [endsAt, List.getElem?_eq_getElem hi]
      exact he
    · rw [endsAt, List.getElem?_eq_getElem hj]
      exact he'

/-- Where the indices are apart, so are the keys of both lists together. -/
theorem indicesApart_iff (signature : String) : IndicesApart x raw ↔
    (keysOf signature (nativeEnds x) (fun i => asI32 i) (nativesOf raw) ++
      keysOf signature (tokenEnds x) (fun j => 1000000 + asI32 j) (tokensOf raw)).Nodup := by
  rw [List.nodup_append, keysOf_nodup, keysOf_nodup]
  constructor
  · intro h
    refine ⟨h.natives, fun i j e hij hi hj heq => h.tokens i j e hij hi hj (by omega), ?_⟩
    rintro k hk k' hk' rfl
    obtain ⟨i, e, hi, rfl⟩ := mem_keysOf.mp hk
    obtain ⟨j, e', hj, heq⟩ := mem_keysOf.mp hk'
    simp only [Prod.mk.injEq, true_and] at heq
    obtain ⟨hindex, rfl⟩ := heq
    exact h.across i j e hi hj hindex
  · rintro ⟨hnatives, htokens, hacross⟩
    refine ⟨hnatives, fun i j e hij hi hj heq => htokens i j e hij hi hj (by omega), fun i j e hi hj heq => ?_⟩
    refine hacross _ (mem_keysOf.mpr ⟨i, e, hi, rfl⟩) _ (mem_keysOf.mpr ⟨j, e, hj, rfl⟩) ?_
    rw [heq]

/-! ## Trades -/

/-- A trade has the index zero, whatever its side. -/
theorem buildTrade_key {signature wallet nativeRaw : String} {side : TradeSide} {tokenLeg : Option Json}
    {dex : Option String} {slot : Option Nat} {blockTime : Option DateTime} {observedAt : DateTime}
    {r : Option NormalizedTrade}
    (h : buildTrade x signature wallet side nativeRaw tokenLeg dex slot blockTime observedAt = .ok r) :
    r.map tradeKey = if walletValid x wallet && tokenLeg.any (legTrades x nativeRaw) then some (signature, 0, wallet)
      else none := by
  obtain ⟨hno, -, heq⟩ | ⟨-, -, heq⟩ | ⟨hyes, -, t, heq, hsignature, hindex, hwallet⟩ := buildTrade_cases h
  · cases heq
    rw [hno]
    rfl
  · cases heq
  · cases heq
    rw [hyes, if_pos rfl, Option.map_some, tradeKey, hsignature, hindex, hwallet]

theorem swapTrade_key {side : TradeSide} {native : Option String} {tokens : Option (List Json)}
    {r : Option NormalizedTrade} (h : swapTrade x o raw side native tokens = .ok r) :
    r.map tradeKey = if tradesSide x raw native tokens then some (o.signature, 0, (raw.strAt "feePayer").getD "")
      else none := by
  unfold swapTrade at h
  rw [tradesSide]
  cases native with
  | none =>
    cases h
    simp
  | some nativeRaw =>
    cases tokens with
    | none =>
      cases h
      simp
    | some legs => exact buildTrade_key h

/-- The trades of a swap have distinct keys where not both of its sides make one. -/
theorem swapTrades_keys {trades : List NormalizedTrade} (h : swapTrades x o raw = .ok trades) :
    (trades.map tradeKey).Nodup ↔ ¬ BothSides x raw := by
  rw [swapTrades] at h
  unfold BothSides
  cases hswap : swapOf raw with
  | none =>
    rw [hswap] at h
    cases h
    simp
  | some swap =>
    rw [hswap] at h
    obtain ⟨buy, hbuy, h⟩ := bind_eq_ok.mp h
    obtain ⟨sell, hsell, h⟩ := bind_eq_ok.mp h
    cases h
    have hbuy := swapTrade_key hbuy
    have hsell := swapTrade_key hsell
    simp only [Option.some.injEq, exists_eq_left']
    revert hbuy hsell
    generalize tradesSide x raw ((swap.get "nativeInput").bind fun n => n.strAt "amount")
      (swap.arrayAt "tokenOutputs") = b
    generalize tradesSide x raw ((swap.get "nativeOutput").bind fun n => n.strAt "amount")
      (swap.arrayAt "tokenInputs") = s
    intro hbuy hsell
    have hkeys : (buy.toList ++ sell.toList).map tradeKey = (buy.map tradeKey).toList ++
      (sell.map tradeKey).toList := by
      cases buy <;> cases sell <;> rfl
    rw [hkeys, hbuy, hsell]
    cases b <;> cases s <;> simp

/-! ## The keys of a payload -/

/-- The keys of a payload's transfers are those of its two lists. -/
theorem normalizeHelius_keys {observedAt : DateTime} {events : NormalizedEvents}
    (h : normalizeHeliusTransaction x raw observedAt = .ok events) : ∃ signature,
    events.transfers.map transferKey = keysOf signature (nativeEnds x) (fun i => asI32 i) (nativesOf raw) ++
      keysOf signature (tokenEnds x) (fun j => 1000000 + asI32 j) (tokensOf raw) ∧
    ((events.trades.map tradeKey).Nodup ↔ ¬ BothSides x raw) := by
  rw [normalizeHeliusTransaction] at h
  cases hsignature : Chains.signatureOf raw with
  | none =>
    rw [hsignature] at h
    cases h
  | some signature =>
    rw [hsignature] at h
    obtain ⟨natives, hnatives, h⟩ := bind_eq_ok.mp h
    obtain ⟨tokens, htokens, h⟩ := bind_eq_ok.mp h
    obtain ⟨trades, htrades, h⟩ := bind_eq_ok.mp h
    cases h
    refine ⟨signature, ?_, swapTrades_keys htrades⟩
    rw [List.map_append, map_reduceOption_mapM (fun p _ _ h => nativeTransfer_key h) hnatives,
      map_reduceOption_mapM (fun p _ _ h => tokenTransfer_key h) htokens]
    rfl

/-- The keys of a payload's events are distinct where its indices are apart and not both
sides of its swap make a trade. -/
theorem normalizeHelius_keysDistinct {observedAt : DateTime} {events : NormalizedEvents}
    (h : normalizeHeliusTransaction x raw observedAt = .ok events) :
    KeysDistinct events ↔ IndicesApart x raw ∧ ¬ BothSides x raw := by
  obtain ⟨signature, htransfers, htrades⟩ := normalizeHelius_keys h
  rw [keysDistinct_iff, htrades, htransfers, ← indicesApart_iff, and_comm]

/-- The pairs that the loops have seen keep the transfers of a block apart. -/
theorem normalizeBlock_keysDistinct {block : Json} {receipts : List Json} {observedAt : DateTime}
    {events : NormalizedEvents} (h : normalizeBlock x block receipts observedAt = .ok events) :
      KeysDistinct events := by
  cases hnumber : blockNumber block with
  | none =>
    rw [normalizeBlock_none x receipts observedAt hnumber] at h
    cases h
  | some slot =>
    rw [normalizeBlock_eq x block receipts hnumber] at h
    obtain ⟨natives, -, h⟩ := bind_eq_ok.mp h
    obtain ⟨logs, -, h⟩ := bind_eq_ok.mp h
    cases h
    rw [keysDistinct_iff]
    constructor
    · exact List.nodup_nil
    · -- the pair that is seen is part of the key
      have hseen := firstWins_keys_nodup NormalizedTransfer.seenKey (natives ++ logs).reduceOption
      refine List.Nodup.of_map (fun k : String × Int × String × String => (k.1, k.2.1)) ?_
      rw [List.map_map]
      exact hseen

/-- Arrays below the limits of the indices keep the keys of the transfers apart. -/
theorem indicesApart_of_length (hnatives : (nativesOf raw).length ≤ 1000000)
    (htokens : (tokensOf raw).length < 2 ^ 31) : IndicesApart x raw := by
  have hplace : ∀ {ends : Json → Option (String × String)} {l : List Json} {i : Nat} {e : String × String},
      endsAt ends l i = some e → i < l.length := by
    intro ends l i e h
    obtain ⟨t, ht, -⟩ := Option.bind_eq_some_iff.mp h
    exact (List.getElem?_eq_some_iff.mp ht).1
  have hcast : ∀ n : Nat, n < 2 ^ 31 → asI32 n = n := by
    intro n hn
    rw [asI32, Int.bmod_eq_of_le (by omega) (by omega)]
  constructor
  · intro i j e hij hi hj
    have := hplace hi
    have := hplace hj
    rw [hcast i (by omega), hcast j (by omega)]
    omega
  · intro i j e hij hi hj
    have := hplace hi
    have := hplace hj
    rw [hcast i (by omega), hcast j (by omega)]
    omega
  · intro i j e hi hj
    have := hplace hi
    have := hplace hj
    rw [hcast i (by omega), hcast j (by omega)]
    omega

/-- The keys of a payload's events are distinct where no two of its transfers share accounts
and an index and not both sides of its swap make a trade; a block's always are. -/
theorem event_keys_iff (x : ChainCrates) :
    (∀ raw observedAt events, normalizeHeliusTransaction x raw observedAt = .ok events →
      (KeysDistinct events ↔ IndicesApart x raw ∧ ¬ BothSides x raw)) ∧
    ∀ block receipts observedAt events, normalizeBlock x block receipts observedAt = .ok events →
      KeysDistinct events :=
  ⟨fun _ _ _ => normalizeHelius_keysDistinct, fun _ _ _ _ => normalizeBlock_keysDistinct⟩

/-- A swap of SOL and a token for SOL and a token, paid by the system program. -/
def twoSidedSwap : Json :=
  let native : Json := .object [("amount", .string "1")]
  let legs : Json := .array [.object [("mint", .string "mint"), ("rawTokenAmount", .object [
    ("tokenAmount", .string "1"), ("decimals", .number (.int 0))])]]
  .object [("signature", .string "sig"), ("feePayer", .string "11111111111111111111111111111111"),
    ("events", .object [("swap", .object [("nativeInput", native), ("tokenOutputs", legs),
      ("nativeOutput", native), ("tokenInputs", legs)])])]

def acceptsAll : Accepts := ⟨fun _ => true, fun _ => true⟩

/-- Its buy and its sell have one key, and the sell is not stored. -/
theorem twoSidedSwap_sides : (normalizeHeliusTransaction systemCrates twoSidedSwap 0).map (fun events =>
      (events.trades.map (fun t => (t.side, tradeKey t)),
        (storeEvents acceptsAll events emptyStore).trades.map fun t => t.side)) =
    .ok ([(.buy, "sig", 0, "11111111111111111111111111111111"), (.sell, "sig", 0, "11111111111111111111111111111111")],
      [.buy]) := by
  decide +kernel

theorem sell_dropped : ∃ events, normalizeHeliusTransaction systemCrates twoSidedSwap 0 = .ok events ∧
    ¬ (events.trades.map tradeKey).Nodup ∧ events.trades.length = 2 ∧
    (storeEvents acceptsAll events emptyStore).trades.map (fun t => t.side) = [.buy] := by
  obtain ⟨events, hevents, hsides⟩ := map_eq_ok.mp twoSidedSwap_sides
  obtain ⟨htrades, hstored⟩ := Prod.mk.inj hsides
  have hkeys := congrArg (List.map Prod.snd) htrades
  rw [List.map_map] at hkeys
  refine ⟨events, hevents, fun hnodup => ?_, ?_, hstored⟩
  · have hkeys : events.trades.map tradeKey = _ := hkeys
    rw [hkeys] at hnodup
    simp at hnodup
  · have hlength := congrArg List.length htrades
    rwa [List.length_map] at hlength

end

end WhaleIntelligence.Helius
