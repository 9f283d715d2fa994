import WhaleIntelligence.Helius.History
import WhaleIntelligence.Radar.Model

/- The age of a wallet, by when it was first seen.

   A wallet keeps the time of the first upsert that touches it, whatever the times of the
   later ones. So after a run `first_seen` is the first time of the first transaction that
   touches the wallet (`firstSeen_ingestAll`), and any of them can come first: the age
   depends on the order unless they all begin with the same time (`wallet_age_iff`). -/
namespace WhaleIntelligence.Helius
open WhaleIntelligence Chains Fallible Radar

/-! ## Ages -/

def firstSeen (db : Store) (chain : ChainKind) (address : String) : Option DateTime :=
  (db.wallets.find? fun w => w.chain == chain && w.address == address).map (·.firstSeen)

def walletAgeSeconds (db : Store) (chain : ChainKind) (address : String) (now : DateTime) : Option Int :=
  (firstSeen db chain address).map fun t => max (numSeconds (now - t)) 0

/-- The value of a decimal. -/
def decimalValue (d : Decimal) : Rat := d.coefficient / 10 ^ d.scale

/-- `transfer_to_funding_event`, `none` where the product overflows. -/
def transferToFundingEvent (transfer : NormalizedTransfer) (nativeUsdPrice : Option Decimal)
    (recipientAgeSeconds : Option Int) (sourceKind : Option WalletLabelKind) : Option FundingEvent := do
  let amountUsd ← match transfer.assetKind, nativeUsdPrice with
    | .native, some price => (transfer.amount.mul price).map some
    | _, _ => some none
  some {
    chain := transfer.chain
    signature := transfer.signature
    slot := transfer.slot
    observedAt := transfer.observedAt
    commitment := transfer.commitment
    fromAddress := transfer.fromAddress
    toAddress := transfer.toAddress
    assetKind := transfer.assetKind
    mint := transfer.mint
    rawAmount := transfer.rawAmount
    nativeAmount := if transfer.assetKind = .native then decimalValue transfer.amount else 0
    amountUsd := amountUsd.map decimalValue
    nativeUsdPrice := nativeUsdPrice.map decimalValue
    recipientAgeSeconds := recipientAgeSeconds
    sourceKind := sourceKind }

/-- The event that `ingest_funding_transfer` hands to the radar. -/
def fundingTransferEvent (db : Store) (transfer : NormalizedTransfer) (nativeUsdPrice : Option Decimal) :
    Option FundingEvent :=
  let recipientAge := walletAgeSeconds db transfer.chain transfer.toAddress transfer.observedAt
  (transferToFundingEvent transfer nativeUsdPrice recipientAge none).map fun event =>
    { event with commitment := if transfer.commitment.rank ≤ Commitment.processed.rank then .processed
        else transfer.commitment }

/-- Whether the radar finds the recipient of a transfer fresh. -/
def fundingTransferIsFresh (db : Store) (transfer : NormalizedTransfer) (nativeUsdPrice : Option Decimal)
    (config : FundingRadarConfig) : Option Bool :=
  (fundingTransferEvent db transfer nativeUsdPrice).map (recipientIsFresh · config)

/-! ## Runs -/

/-- A provider transaction with all that it is ingested with. -/
structure ProviderTransaction where
  adapter : Adapter
  chain : ChainKind
  source : String
  observedAt : DateTime
  raw : Json

namespace ProviderTransaction

def ingest (tx : ProviderTransaction) (db : Store) : Except Failure Store :=
  (ingestTransaction tx.adapter tx.chain tx.source tx.observedAt db tx.raw).map Prod.fst

def events (tx : ProviderTransaction) : NormalizedEvents :=
  match tx.adapter tx.raw tx.observedAt with
  | .ok events => events
  | .error _ => ⟨[], []⟩

/-- The counts of its events do not overflow. -/
def Countable (tx : ProviderTransaction) : Prop :=
  tx.events.transfers.length < 2 ^ 32 ∧ tx.events.trades.length < 2 ^ 32

end ProviderTransaction

def ingestAll (txs : List ProviderTransaction) (db : Store) : Except Failure Store :=
  txs.foldlM (fun db tx => tx.ingest db) db

/-! ## When a transaction touches a wallet -/

/-- `block_time`, or `observed_at` where it is absent, of a transfer that touches the wallet, as a column keeps it. -/
def transferTimes (chain : ChainKind) (address : String) (t : NormalizedTransfer) : List DateTime :=
  if t.chain = chain ∧ (t.fromAddress = address ∨ t.toAddress = address) then
    [pgTime (t.blockTime.getD t.observedAt)]
  else []

namespace ProviderTransaction

def transferTimes (tx : ProviderTransaction) (chain : ChainKind) (address : String) : List DateTime :=
  tx.events.transfers.flatMap (Helius.transferTimes chain address)

def tradeTimes (tx : ProviderTransaction) (chain : ChainKind) (address : String) : List DateTime :=
  tx.events.trades.flatMap fun t => if tx.chain = chain ∧ t.wallet = address then [pgTime tx.observedAt] else []

/-- The times at which the transaction touches the wallet, in the order of its upserts. -/
def touchTimes (tx : ProviderTransaction) (chain : ChainKind) (address : String) : List DateTime :=
  tx.transferTimes chain address ++ tx.tradeTimes chain address

end ProviderTransaction

/-- The age after any run over the transactions is that of any other, it counts from the
earliest transfer, and the radar decides on it the same. -/
def AgeOrderFree (txs : List ProviderTransaction) (chain : ChainKind) (address : String) : Prop :=
  ∀ db, firstSeen db chain address = none → ∀ order, order.Perm txs → ∀ after, ingestAll order db = .ok after →
    (∀ order', order'.Perm txs → ∀ after', ingestAll order' db = .ok after' →
      (∀ now, walletAgeSeconds after chain address now = walletAgeSeconds after' chain address now) ∧
      ∀ (transfer : NormalizedTransfer) (nativeUsdPrice : Option Decimal) (config : FundingRadarConfig),
        transfer.chain = chain → transfer.toAddress = address →
          fundingTransferIsFresh after transfer nativeUsdPrice config =
            fundingTransferIsFresh after' transfer nativeUsdPrice config) ∧
    ∀ m, IsLeast {t | ∃ tx ∈ txs, t ∈ tx.transferTimes chain address} m → ∀ now,
      walletAgeSeconds after chain address now = some (max 0 (numSeconds (now - m)))

/-- The transactions that touch the wallet all begin with one time, and no transfer of
theirs touches it earlier. -/
def TouchedAt (txs : List ProviderTransaction) (chain : ChainKind) (address : String) (m : DateTime) : Prop :=
  ∀ tx ∈ txs, (∀ t, (tx.touchTimes chain address).head? = some t → t = m) ∧ ∀ t ∈ tx.transferTimes chain address, m ≤ t

section
variable {db db' : Store} {chain kind : ChainKind} {address other source : String} {t seenAt : DateTime}
  {tx : ProviderTransaction} {txs : List ProviderTransaction}

/-! ## What one upsert keeps -/

/-- A wallet that was seen stays as old as it is. -/
theorem firstSeen_upsertWallet : firstSeen (upsertWallet db kind other seenAt source) chain address =
    (firstSeen db chain address).or (if kind = chain ∧ other = address then some (pgTime seenAt) else none) := by
  unfold upsertWallet
  dsimp only
  split
  · rename_i hany
    have hkept : firstSeen { db with wallets := db.wallets.map fun w =>
        if w.chain = kind ∧ w.address = other then w.seen (pgTime seenAt) source else w } chain address =
          firstSeen db chain address := by
      rw [firstSeen, firstSeen, List.find?_map, Option.map_map]
      congr 1
      · funext w
        rw [Function.comp_apply]
        split <;> rfl
      · congr 1
        funext w
        rw [Function.comp_apply]
        split <;> rfl
    rw [hkept]
    split
    · rename_i hsame
      obtain ⟨rfl, rfl⟩ := hsame
      obtain ⟨w, hw, hwk⟩ := List.any_eq_true.mp hany
      have hsome : (db.wallets.find? fun w => w.chain == kind && w.address == other).isSome :=
        List.find?_isSome.mpr ⟨w, hw, hwk⟩
      obtain ⟨w', hw'⟩ := Option.isSome_iff_exists.mp hsome
      rw [firstSeen, hw']
      rfl
    · rw [Option.or_none]
  · rename_i hany
    rw [firstSeen, firstSeen, List.find?_append, Option.map_or]
    congr 1
    by_cases hsame : kind = chain ∧ other = address
    · rw [if_pos hsame]
      simp [hsame.1, hsame.2]
    · rw [if_neg hsame]
      simpa using hsame

/-! ## What a transaction keeps -/

theorem firstSeen_ingestTransfer {s s' : Store × Nat} {transfer : NormalizedTransfer}
    (h : ingestTransfer source s transfer = .ok s') : firstSeen s'.1 chain address =
      (firstSeen s.1 chain address).or (transferTimes chain address transfer).head? := by
  obtain ⟨n, -, h⟩ := bind_eq_ok.mp h
  obtain rfl := Except.ok.inj h
  -- The statements after the upserts leave the wallets alone.
  show firstSeen (upsertWalletsForTransfer s.1 transfer source) chain address = _
  rw [upsertWalletsForTransfer, firstSeen_upsertWallet, firstSeen_upsertWallet, Option.or_assoc, transferTimes]
  congr 1
  by_cases hchain : transfer.chain = chain
  · by_cases hfrom : transfer.fromAddress = address <;> by_cases hto : transfer.toAddress = address <;>
      simp [hchain, hfrom, hto]
  · simp [hchain]

theorem firstSeen_ingestTrade {s s' : Store × Nat} {trade : NormalizedTrade}
    (h : ingestTrade kind source seenAt s trade = .ok s') : firstSeen s'.1 chain address =
      (firstSeen s.1 chain address).or
        (if kind = chain ∧ trade.wallet = address then [pgTime seenAt] else []).head? := by
  obtain ⟨n, -, h⟩ := bind_eq_ok.mp h
  obtain rfl := Except.ok.inj h
  show firstSeen (upsertWallet s.1 kind trade.wallet seenAt source) chain address = _
  rw [firstSeen_upsertWallet]
  congr 1
  split <;> rfl

theorem storeRaw_wallets {raw : Json} : (storeRaw db kind source raw seenAt).1.wallets = db.wallets := by
  rw [storeRaw]
  split
  · rfl
  · simp only [storeRawEvent]
    split <;> rfl

/-- A transaction ages a wallet that was not seen before by the first of its times. -/
theorem firstSeen_ingest (h : tx.ingest db = .ok db') : firstSeen db' chain address =
    (firstSeen db chain address).or (tx.touchTimes chain address).head? := by
  obtain ⟨r, hr, rfl⟩ := map_eq_ok.mp h
  have hraw : firstSeen (storeRaw db tx.chain tx.source tx.raw tx.observedAt).1 chain address =
      firstSeen db chain address := by rw [firstSeen, firstSeen, storeRaw_wallets]
  rw [ingestTransaction] at hr
  rw [ProviderTransaction.touchTimes, ProviderTransaction.transferTimes, ProviderTransaction.tradeTimes,
    ProviderTransaction.events, ← hraw]
  cases hadapter : tx.adapter tx.raw tx.observedAt with
  | error e =>
    simp only [hadapter] at hr
    obtain rfl := Except.ok.inj hr
    simp
  | ok events =>
    simp only [hadapter] at hr
    obtain ⟨s, hs, hr⟩ := bind_eq_ok.mp hr
    obtain ⟨s', hs', hr⟩ := bind_eq_ok.mp hr
    obtain rfl := Except.ok.inj hr
    have hround : ∀ u t u', ingestTransfer tx.source u t = .ok u' → firstSeen u'.1 chain address =
        (firstSeen u.1 chain address).or (transferTimes chain address t).head? := fun _ _ _ => firstSeen_ingestTransfer
    have hround' : ∀ u t u', ingestTrade tx.chain tx.source tx.observedAt u t = .ok u' →
        firstSeen u'.1 chain address = (firstSeen u.1 chain address).or
          (if tx.chain = chain ∧ t.wallet = address then [pgTime tx.observedAt] else []).head? :=
      fun _ _ _ => firstSeen_ingestTrade
    have htransfers := foldlM_first hround hs
    have htrades := foldlM_first hround' hs'
    rw [htrades, htransfers, List.head?_append, Option.or_assoc]

/-- Of a run, the first transaction that touches the wallet settles when it was first seen. -/
theorem firstSeen_ingestAll (h : ingestAll txs db = .ok db') : firstSeen db' chain address =
    (firstSeen db chain address).or (txs.flatMap (ProviderTransaction.touchTimes · chain address)).head? := by
  have hround : ∀ (u : Store) (tx : ProviderTransaction) u', tx.ingest u = .ok u' → firstSeen u' chain address =
      (firstSeen u chain address).or (tx.touchTimes chain address).head? := fun _ _ _ => firstSeen_ingest
  exact foldlM_first hround h

/-! ## What can be ingested -/

/-- A loop that counts its rounds returns where the count does not overflow. -/
theorem foldlM_counts {α : Type} {body : Store × Nat → α → Except Failure (Store × Nat)}
    (hbody : ∀ s a, (body s a).map Prod.snd = addU32 s.2 1) (l : List α) {s : Store × Nat} (hs : s.2 < 2 ^ 32) :
    (∃ s', l.foldlM body s = .ok s') ↔ s.2 + l.length < 2 ^ 32 := by
  induction l generalizing s with
  | nil => exact ⟨fun _ => hs, fun _ => ⟨s, rfl⟩⟩
  | cons a l ih =>
    rw [List.foldlM_cons, List.length_cons]
    have hround := hbody s a
    cases hr : body s a with
    | error e =>
      rw [hr, addU32] at hround
      constructor
      · rintro ⟨s', hs'⟩
        cases hs'
      · intro hlt
        rw [if_pos (by omega)] at hround
        cases hround
    | ok u =>
      rw [hr, addU32] at hround
      split at hround
      · have hcount : u.2 = s.2 + 1 := Except.ok.inj hround
        rw [ok_bind, ih (by omega), hcount]
        omega
      · cases hround

theorem ingestTransfer_counts (source : String) (s : Store × Nat) (transfer : NormalizedTransfer) :
    (ingestTransfer source s transfer).map Prod.snd = addU32 s.2 1 := by
  rw [ingestTransfer]
  cases addU32 s.2 1 <;> rfl

theorem ingestTrade_counts (chain : ChainKind) (source : String) (seenAt : DateTime) (s : Store × Nat)
    (trade : NormalizedTrade) : (ingestTrade chain source seenAt s trade).map Prod.snd = addU32 s.2 1 := by
  rw [ingestTrade]
  cases addU32 s.2 1 <;> rfl

theorem ingestTransfers_isOk {transfers : List NormalizedTransfer} :
    (∃ s, transfers.foldlM (ingestTransfer source) (db, 0) = .ok s) ↔ transfers.length < 2 ^ 32 := by
  have hcounts := foldlM_counts (ingestTransfer_counts source) transfers (s := (db, 0)) (by norm_num)
  rwa [Nat.zero_add] at hcounts

theorem ingestTrades_isOk {trades : List NormalizedTrade} :
    (∃ s, trades.foldlM (ingestTrade kind source seenAt) (db, 0) = .ok s) ↔ trades.length < 2 ^ 32 := by
  have hcounts := foldlM_counts (ingestTrade_counts kind source seenAt) trades (s := (db, 0)) (by norm_num)
  rwa [Nat.zero_add] at hcounts

/-- Whether a transaction can be ingested does not depend on the store. -/
theorem ingest_isOk : (∃ after, tx.ingest db = .ok after) ↔ tx.Countable := by
  rw [ProviderTransaction.Countable, ProviderTransaction.events, ProviderTransaction.ingest, ingestTransaction]
  cases tx.adapter tx.raw tx.observedAt with
  | error e => exact ⟨fun _ => ⟨by norm_num, by norm_num⟩, fun _ => ⟨_, rfl⟩⟩
  | ok events =>
    constructor
    · rintro ⟨after, h⟩
      obtain ⟨r, hr, -⟩ := map_eq_ok.mp h
      obtain ⟨s, hs, hr⟩ := bind_eq_ok.mp hr
      obtain ⟨s', hs', -⟩ := bind_eq_ok.mp hr
      exact ⟨ingestTransfers_isOk.mp ⟨s, hs⟩, ingestTrades_isOk.mp ⟨s', hs'⟩⟩
    · rintro ⟨htransfers, htrades⟩
      obtain ⟨s, hs⟩ := ingestTransfers_isOk.mpr htransfers
      obtain ⟨s', hs'⟩ := ingestTrades_isOk.mpr htrades
      exact ⟨s'.1, map_eq_ok.mpr ⟨_, bind_eq_ok.mpr ⟨s, hs, bind_eq_ok.mpr ⟨s', hs', rfl⟩⟩, rfl⟩⟩

theorem ingestAll_isOk : (∃ after, ingestAll txs db = .ok after) ↔ ∀ tx ∈ txs, tx.Countable := by
  induction txs generalizing db with
  | nil => exact ⟨fun _ _ h => absurd h List.not_mem_nil, fun _ => ⟨db, rfl⟩⟩
  | cons tx txs ih =>
    have htx : (∃ after, tx.ingest db = .ok after) ↔ tx.Countable := ingest_isOk
    rw [List.forall_mem_cons, ← htx, ingestAll, List.foldlM_cons]
    constructor
    · rintro ⟨after, h⟩
      obtain ⟨u, hu, h⟩ := bind_eq_ok.mp h
      exact ⟨⟨u, hu⟩, ih.mp ⟨after, h⟩⟩
    · rintro ⟨⟨u, hu⟩, hall⟩
      rw [hu, ok_bind]
      exact ih.mpr hall

/-! ## Orders -/

variable {m : DateTime} {order order' : List ProviderTransaction}

/-- A second after the earlier of two times, less than a second has passed since the later. -/
theorem numSeconds_second {f f' : Int} (h : f < f') : numSeconds (f + 1000000000 - f) = 1 ∧
    numSeconds (f + 1000000000 - f') ≤ 0 := by
  rw [add_sub_cancel_left, numSeconds, numSeconds]
  refine ⟨rfl, ?_⟩
  have hle : f + 1000000000 - f' ≤ 999999999 := by omega
  exact Int.tdiv_le_tdiv (by decide) hle

/-- Two times give the same age at every time only where they are the same. -/
theorem age_injective {f f' : DateTime}
    (h : ∀ now, max (numSeconds (now - f)) 0 = max (numSeconds (now - f')) 0) : f = f' := by
  have hle : ∀ {f f' : DateTime}, (∀ now, max (numSeconds (now - f)) 0 = max (numSeconds (now - f')) 0) → f' ≤ f := by
    intro f f' h
    by_contra hlt
    obtain ⟨hone, hnone⟩ := numSeconds_second (not_le.mp hlt)
    have hsecond := h (f + 1000000000)
    rw [hone, max_eq_right hnone] at hsecond
    exact absurd hsecond (by decide)
  exact le_antisymm (hle fun now => (h now).symm) (hle h)

/-- Where all transactions begin with one time, so does any order of them. -/
theorem head?_touchTimes (h : TouchedAt txs chain address m) (horder : order.Perm txs) {f : DateTime}
    (hf : (order.flatMap (ProviderTransaction.touchTimes · chain address)).head? = some f) : f = m := by
  rw [List.head?_flatMap] at hf
  obtain ⟨tx, htx, hhead⟩ := List.exists_of_findSome?_eq_some hf
  exact (h tx (horder.mem_iff.mp htx)).1 f hhead

theorem head?_touchTimes_congr (h : TouchedAt txs chain address m) (horder : order.Perm txs)
    (horder' : order'.Perm txs) :
    (order.flatMap (ProviderTransaction.touchTimes · chain address)).head? =
      (order'.flatMap (ProviderTransaction.touchTimes · chain address)).head? := by
  have hperm := (horder.trans horder'.symm).flatMap_right (ProviderTransaction.touchTimes · chain address)
  cases hf : (order.flatMap (ProviderTransaction.touchTimes · chain address)).head? with
  | none =>
    rw [List.head?_eq_none_iff] at hf
    rw [hf] at hperm
    rw [← hperm.nil_eq, List.head?_nil]
  | some f =>
    cases hf' : (order'.flatMap (ProviderTransaction.touchTimes · chain address)).head? with
    | none =>
      rw [List.head?_eq_none_iff] at hf'
      rw [hf'] at hperm
      rw [hperm.eq_nil] at hf
      cases hf
    | some f' => rw [head?_touchTimes h horder hf, head?_touchTimes h horder' hf']

/-- The earliest transfer is the time that all transactions begin with. -/
theorem TouchedAt.eq_least {least : DateTime} (h : TouchedAt txs chain address m)
    (hleast : IsLeast {t | ∃ tx ∈ txs, t ∈ tx.transferTimes chain address} least) : m = least := by
  obtain ⟨⟨tx, htx, hmem⟩, hlower⟩ := hleast
  apply le_antisymm ((h tx htx).2 least hmem)
  -- The transfers of a transaction come before its trades.
  obtain ⟨t, rest, htimes⟩ := List.exists_cons_of_ne_nil (List.ne_nil_of_mem hmem)
  have hhead : (tx.touchTimes chain address).head? = some t := by
    rw [ProviderTransaction.touchTimes, htimes]
    rfl
  obtain rfl := (h tx htx).1 t hhead
  exact hlower ⟨tx, htx, htimes ▸ List.mem_cons_self⟩

theorem exists_order (h : tx ∈ txs) : ∃ rest, (tx :: rest).Perm txs := by
  obtain ⟨pre, post, rfl⟩ := List.append_of_mem h
  exact ⟨pre ++ post, List.perm_middle.symm⟩

theorem walletAge_of_firstSeen {f : DateTime} (h : firstSeen db chain address = some f) (now : DateTime) :
    walletAgeSeconds db chain address now = some (max (numSeconds (now - f)) 0) := by
  rw [walletAgeSeconds, h, Option.map_some]

theorem walletAge_congr (h : firstSeen db chain address = firstSeen db' chain address) (now : DateTime) :
    walletAgeSeconds db chain address now = walletAgeSeconds db' chain address now := by
  rw [walletAgeSeconds, walletAgeSeconds, h]

theorem ageOrderFree_of_touchedAt (h : (∀ tx ∈ txs, tx.Countable) → ∃ m, TouchedAt txs chain address m) :
    AgeOrderFree txs chain address := by
  intro db hdb order horder after hafter
  have hcountable : ∀ tx ∈ txs, tx.Countable := by
    intro tx htx
    exact ingestAll_isOk.mp ⟨after, hafter⟩ tx (horder.mem_iff.mpr htx)
  obtain ⟨m, hm⟩ := h hcountable
  have hseen : firstSeen after chain address = _ := firstSeen_ingestAll hafter
  rw [hdb, Option.none_or] at hseen
  constructor
  · intro order' horder' after' hafter'
    have hsame : firstSeen after chain address = firstSeen after' chain address := by
      rw [hseen, firstSeen_ingestAll hafter', hdb, Option.none_or]
      exact head?_touchTimes_congr hm horder horder'
    refine ⟨walletAge_congr hsame, ?_⟩
    rintro transfer price config rfl rfl
    rw [fundingTransferIsFresh, fundingTransferIsFresh, fundingTransferEvent, fundingTransferEvent,
      walletAge_congr hsame]
  · intro least hleast now
    obtain rfl := hm.eq_least hleast
    obtain ⟨tx, htx, hmem⟩ := hleast.1
    have hne : order.flatMap (ProviderTransaction.touchTimes · chain address) ≠ [] := by
      apply List.ne_nil_of_mem
      exact List.mem_flatMap.mpr ⟨tx, horder.mem_iff.mpr htx, List.mem_append_left _ hmem⟩
    obtain ⟨f, rest, hf⟩ := List.exists_cons_of_ne_nil hne
    rw [hf, List.head?_cons] at hseen
    obtain rfl := head?_touchTimes hm horder (by rw [hf]; rfl)
    rw [walletAge_of_firstSeen hseen, max_comm]

/-- Any transaction that touches the wallet can come first. -/
theorem age_of_first (hcountable : ∀ tx ∈ txs, tx.Countable) (htx : tx ∈ txs)
    (ht : (tx.touchTimes chain address).head? = some t) : ∃ order after, order.Perm txs ∧
      ingestAll order emptyStore = .ok after ∧
      ∀ now, walletAgeSeconds after chain address now = some (max (numSeconds (now - t)) 0) := by
  obtain ⟨rest, horder⟩ := exists_order htx
  obtain ⟨after, hafter⟩ := ingestAll_isOk.mpr fun tx htx => hcountable tx (horder.mem_iff.mp htx)
  refine ⟨_, after, horder, hafter, walletAge_of_firstSeen ?_⟩
  rw [firstSeen_ingestAll hafter, List.flatMap_cons, List.head?_append, ht]
  rfl

theorem touchedAt_of_ageOrderFree (h : AgeOrderFree txs chain address) (hcountable : ∀ tx ∈ txs, tx.Countable) :
    ∃ m, TouchedAt txs chain address m := by
  by_cases hnone : ∀ tx ∈ txs, tx.touchTimes chain address = []
  · refine ⟨0, fun tx htx => ?_⟩
    have hnil := hnone tx htx
    rw [hnil]
    rw [ProviderTransaction.touchTimes, List.append_eq_nil_iff] at hnil
    rw [hnil.1]
    simp
  · obtain ⟨tx, htx, hne⟩ : ∃ tx ∈ txs, tx.touchTimes chain address ≠ [] := by simpa using hnone
    obtain ⟨m, rest, hm⟩ := List.exists_cons_of_ne_nil hne
    obtain ⟨order, after, horder, hafter, hage⟩ := age_of_first hcountable htx (by rw [hm]; rfl)
    obtain ⟨hsame, hleast⟩ := h emptyStore rfl order horder after hafter
    refine ⟨m, fun tx' htx' => ⟨fun t ht => ?_, fun t ht => ?_⟩⟩
    · obtain ⟨order', after', horder', hafter', hage'⟩ := age_of_first hcountable htx' ht
      apply age_injective
      intro now
      have hnow := (hsame order' horder' after' hafter').1 now
      rw [hage, hage'] at hnow
      exact (Option.some.inj hnow).symm
    · have hne' : txs.flatMap (ProviderTransaction.transferTimes · chain address) ≠ [] :=
        List.ne_nil_of_mem (List.mem_flatMap.mpr ⟨tx', htx', ht⟩)
      obtain ⟨least, heq⟩ := Query.least_isSome id hne'
      obtain ⟨⟨t', ht', rfl⟩, hlower⟩ := Query.least_spec heq
      have hisLeast : IsLeast {t | ∃ tx ∈ txs, t ∈ tx.transferTimes chain address} (id t') := by
        constructor
        · exact List.mem_flatMap.mp ht'
        · intro u hu
          exact hlower u (List.mem_flatMap.mpr hu)
      have heq : m = t' := by
        apply age_injective
        intro now
        have hnow := hleast t' hisLeast now
        rw [hage, max_comm 0] at hnow
        exact Option.some.inj hnow
      rw [heq]
      exact hlower t (List.mem_flatMap.mpr ⟨tx', htx', ht⟩)

/-- The age of a wallet does not depend on the order of ingestion exactly where all
transactions that touch it begin with the earliest time of its transfers. -/
theorem wallet_age_iff (txs : List ProviderTransaction) (chain : ChainKind) (address : String) :
    AgeOrderFree txs chain address ↔ ((∀ tx ∈ txs, tx.Countable) → ∃ m, TouchedAt txs chain address m) :=
  ⟨touchedAt_of_ageOrderFree, ageOrderFree_of_touchedAt⟩

end

/-! ## Two payments -/

def systemProgram : String := "11111111111111111111111111111111"

def clockCrates : ChainCrates where
  decodeBase58 s :=
    if s = systemProgram then .ok (List.replicate 32 0) else .error "provided string contained invalid character"
  fromStrExact _ := .error "Invalid decimal: unknown character"
  fromTimestamp n := some (seconds n)
  displayF64 _ := ""

/-- The Helius adapter, where the payload does not panic. -/
def heliusAdapter (x : ChainCrates) : Adapter := fun raw observedAt =>
  (normalizeHeliusTransaction x raw observedAt).mapError fun _ => "malformed"

/-- A payment of one lamport at a time in seconds. -/
def payment (signature : String) (time : Int) : ProviderTransaction where
  adapter := heliusAdapter clockCrates
  chain := .solana
  source := "helius_history"
  observedAt := seconds 300
  raw := .object [("signature", .string signature), ("timestamp", .number (.int time)),
    ("nativeTransfers", .array [.object [("fromUserAccount", .string systemProgram),
      ("toUserAccount", .string systemProgram), ("amount", .number (.int 1))]])]

/-- Where the newer of two payments is ingested first, the wallet looks younger than it is. -/
theorem age_depends_on_order : ¬ AgeOrderFree [payment "old" 100, payment "new" 200] .solana systemProgram := by
  intro h
  have hcountable : ∀ tx ∈ [payment "old" 100, payment "new" 200], tx.Countable := by
    simp only [List.forall_mem_cons, ProviderTransaction.Countable]
    refine ⟨by decide +kernel, by decide +kernel, ?_⟩
    simp
  obtain ⟨m, hm⟩ := touchedAt_of_ageOrderFree h hcountable
  have hold : ((payment "old" 100).touchTimes .solana systemProgram).head? = some (seconds 100) := by decide +kernel
  have hnew : ((payment "new" 200).touchTimes .solana systemProgram).head? = some (seconds 200) := by decide +kernel
  have heq := ((hm _ (by simp)).1 _ hold).trans ((hm _ (by simp)).1 _ hnew).symm
  exact absurd heq (by decide)

end WhaleIntelligence.Helius
