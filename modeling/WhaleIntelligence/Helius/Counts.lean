import WhaleIntelligence.Helius.Inserts
import WhaleIntelligence.Helius.WalletAge

/- What the counts of an ingestion count.

   Here a statement may fail. What is stored raw is counted by the rows that were affected,
   and a transfer or a trade by whether its statement failed, which one that does nothing
   does not. So the counts are those of the new rows where no event is stored again
   (`ingest_counts_iff`). -/
namespace WhaleIntelligence.Helius
open WhaleIntelligence Chains Fallible FirstWins

/-- The error of the statement with a number, if it fails. -/
abbrev Faults := Nat → Option String

/-- The store, and how many statements it was sent. -/
structure Session where
  db : Store
  sent : Nat

namespace Session

/-! ## Statements -/

section
variable (faults : Faults)

/-- A statement whose error is returned. -/
def execute (s : Session) (change : Store → Store) : Except Failure Session :=
  match faults s.sent with
  | some text => .error (.error text)
  | none => .ok ⟨change s.db, s.sent + 1⟩

/-- A statement whose error is dropped, and whether it had none. One that fails changes nothing. -/
def executeIsOk (s : Session) (change : Store → Store) : Session × Bool :=
  match faults s.sent with
  | some _ => (⟨s.db, s.sent + 1⟩, false)
  | none => (⟨change s.db, s.sent + 1⟩, true)

/-- `if … .is_ok() { count += 1 }`. -/
def countOk (count : Nat) (isOk : Bool) : Except Failure Nat := if isOk then addU32 count 1 else .ok count

def storeRaw (s : Session) (chain : ChainKind) (source : String) (raw : Json) (observedAt : DateTime) :
    Except Failure (Session × Nat) :=
  match signatureOf raw with
  | none => .ok (s, 0)
  | some signature => do
    let row : RawEvent := ⟨chain, source, signature, raw, observedAt⟩
    let session ← s.execute faults fun db => (storeRawEvent db row).1
    .ok (session, if (storeRawEvent s.db row).2 then 1 else 0)

def upsertWalletsForTransfer (s : Session) (t : NormalizedTransfer) (source : String) : Except Failure Session := do
  let seenAt := t.blockTime.getD t.observedAt
  let session ← s.execute faults fun db => upsertWallet db t.chain t.fromAddress seenAt source
  session.execute faults fun db => upsertWallet db t.chain t.toAddress seenAt source

def ingestTransfer (source : String) (s : Session × Nat) (t : NormalizedTransfer) :
    Except Failure (Session × Nat) := do
  let session ← s.1.upsertWalletsForTransfer faults t source
  let stored := session.executeIsOk faults fun db => storeTransfer db t
  let transfersNew ← countOk s.2 stored.2
  let session ← stored.1.execute faults fun db => updateFundingEdges db t
  .ok (session, transfersNew)

def ingestTrade (chain : ChainKind) (source : String) (observedAt : DateTime) (s : Session × Nat)
    (t : NormalizedTrade) : Except Failure (Session × Nat) := do
  let session ← s.1.execute faults fun db => upsertWallet db chain t.wallet observedAt source
  let stored := session.executeIsOk faults fun db => storeTrade db t
  let tradesNew ← countOk s.2 stored.2
  .ok (stored.1, tradesNew)

def ingestTransaction (adapter : Adapter) (chain : ChainKind) (source : String) (observedAt : DateTime) (s : Session)
    (raw : Json) : Except Failure (Session × IngestCounts) := do
  let (session, rawNew) ← s.storeRaw faults chain source raw observedAt
  match adapter raw observedAt with
  | .ok events =>
    let (session, transfersNew) ← events.transfers.foldlM (ingestTransfer faults source) (session, 0)
    let (session, tradesNew) ← events.trades.foldlM (ingestTrade faults chain source observedAt) (session, 0)
    .ok (session, ⟨rawNew, transfersNew, tradesNew, 0⟩)
  | .error _ => .ok (session, ⟨rawNew, 0, 0, 1⟩)

def ingestDelivery (adapter : Adapter) (source : String) (observedAt : DateTime) (s : Session × IngestCounts)
    (raw : Json) : Except Failure (Session × IngestCounts) := do
  let (session, single) ← ingestTransaction faults adapter .solana source observedAt s.1 raw
  let rawNew ← addU32 s.2.rawNew single.rawNew
  let transfersNew ← addU32 s.2.transfersNew single.transfersNew
  let tradesNew ← addU32 s.2.tradesNew single.tradesNew
  let malformed ← addU32 s.2.malformed single.malformed
  .ok (session, ⟨rawNew, transfersNew, tradesNew, malformed⟩)

def ingestWebhook (adapter : Adapter) (source : String) (observedAt : DateTime) (s : Session) (payload : List Json) :
    Except Failure (Session × IngestCounts) :=
  payload.foldlM (ingestDelivery faults adapter source observedAt) (s, ⟨0, 0, 0, 0⟩)

end

end Session

/-! ## What the counts should be -/

/-- So many rows were added to a table. -/
def AddedRows {ρ : Type} (before after : List ρ) (n : Nat) : Prop := ∃ added, after = before ++ added ∧ added.length = n

structure Truthful (before after : Store) (counts : IngestCounts) : Prop where
  rawEvents : AddedRows before.rawEvents after.rawEvents counts.rawNew
  transfers : AddedRows before.transfers after.transfers counts.transfersNew
  trades : AddedRows before.trades after.trades counts.tradesNew

/-- The test by which a sync takes the history for exhausted. -/
def IngestCounts.FullyDeduplicated (counts : IngestCounts) : Prop :=
  counts.rawNew = 0 ∧ counts.transfersNew = 0 ∧ counts.tradesNew = 0

/-- The tables of events are as they were. -/
structure AddsNothing (before after : Store) : Prop where
  rawEvents : after.rawEvents = before.rawEvents
  transfers : after.transfers = before.transfers
  trades : after.trades = before.trades

/-! ## What is sent -/

def RawEvent.key (r : RawEvent) : ChainKind × String × String := (r.chain, r.source, r.signature)

def transferRowKey (t : NormalizedTransfer) : ChainKind × String × Int × String × String :=
  (t.chain, t.signature, t.eventIndex, t.fromAddress, t.toAddress)

def tradeRowKey (t : NormalizedTrade) : ChainKind × String × Int × String :=
  (t.chain, t.signature, t.eventIndex, t.wallet)

/-- The rows of the inserts that do not fail. -/
structure Rows where
  raws : List RawEvent
  transfers : List NormalizedTransfer
  trades : List NormalizedTrade

namespace Rows

def nil : Rows := ⟨[], [], []⟩

def append (a b : Rows) : Rows := ⟨a.raws ++ b.raws, a.transfers ++ b.transfers, a.trades ++ b.trades⟩

/-- Every row is stored already. -/
structure AllStored (rows : Rows) (db : Store) : Prop where
  raws : ∀ row ∈ rows.raws, row.key ∈ db.rawEvents.map RawEvent.key
  transfers : ∀ row ∈ rows.transfers, transferRowKey row ∈ db.transfers.map transferRowKey
  trades : ∀ row ∈ rows.trades, tradeRowKey row ∈ db.trades.map tradeRowKey

/-- No transfer and no trade is stored again. -/
structure EventsNew (rows : Rows) (db : Store) : Prop where
  transfers : (rows.transfers.map transferRowKey).Nodup ∧
    ∀ row ∈ rows.transfers, transferRowKey row ∉ db.transfers.map transferRowKey
  trades : (rows.trades.map tradeRowKey).Nodup ∧ ∀ row ∈ rows.trades, tradeRowKey row ∉ db.trades.map tradeRowKey

/-- No event is sent. -/
def NoEvents (rows : Rows) : Prop := rows.transfers = [] ∧ rows.trades = []

end Rows

section
variable (faults : Faults)

/-- The row of an insert, if the statement with this number does not fail. -/
def acceptedAt {ρ : Type} (n : Nat) (row : ρ) : List ρ := if faults n = none then [row] else []

/-- The rows of a list whose inserts do not fail: each row has so many statements, and its
insert has an offset among them. -/
def accepted {ρ : Type} (statements offset : Nat) : Nat → List ρ → List ρ
  | _, [] => []
  | n, row :: rows => acceptedAt faults (n + offset) row ++ accepted statements offset (n + statements) rows

variable (adapter : Adapter) (chain : ChainKind) (source : String) (observedAt : DateTime)

/-- The payload's own row. -/
def rawRows (raw : Json) : List RawEvent :=
  (signatureOf raw).toList.map fun signature => ⟨chain, source, signature, raw, observedAt⟩

/-- How many statements a transaction takes. -/
def statementsOf (raw : Json) : Nat :=
  (rawRows chain source observedAt raw).length +
    match adapter raw observedAt with
    | .ok events => 4 * events.transfers.length + 2 * events.trades.length
    | .error _ => 0

/-- The rows of a transaction whose statements begin with a number. -/
def acceptedRows (n : Nat) (raw : Json) : Rows :=
  let raws := rawRows chain source observedAt raw
  match adapter raw observedAt with
  | .ok events => {
    raws
    transfers := accepted faults 4 2 (n + raws.length) events.transfers
    trades := accepted faults 2 1 (n + raws.length + 4 * events.transfers.length) events.trades }
  | .error _ => { raws, transfers := [], trades := [] }

/-- The rows of the transactions of a page. -/
def acceptedOfPage : Nat → List Json → Rows
  | _, [] => .nil
  | n, raw :: page => (acceptedRows faults adapter chain source observedAt n raw).append
      (acceptedOfPage (n + statementsOf adapter chain source observedAt raw) page)

end

/-! ## What the loops do -/

section
variable {ρ κ σ : Type} [DecidableEq κ] {key : ρ → κ} {tableOf : Store → List ρ} {othersOf : Store → σ}
  {faults : Faults} {s t u : Session × Nat} {rows rows' : List ρ} {m n : Nat}

/-- A table has the rows too, they are counted, and the other tables are as they were. -/
structure Inserted (key : ρ → κ) (tableOf : Store → List ρ) (othersOf : Store → σ) (s t : Session × Nat)
    (rows : List ρ) (sent : Nat) : Prop where
  table : tableOf t.1.db = rows.foldl (insertNew key) (tableOf s.1.db)
  count : t.2 = s.2 + rows.length
  others : othersOf t.1.db = othersOf s.1.db
  sent : t.1.sent = s.1.sent + sent

theorem Inserted.append (h : Inserted key tableOf othersOf s t rows m)
    (h' : Inserted key tableOf othersOf t u rows' n) :
    Inserted key tableOf othersOf s u (rows ++ rows') (m + n) where
  table := by rw [List.foldl_append, ← h.table, h'.table]
  count := by rw [h'.count, h.count, List.length_append, Nat.add_assoc]
  others := h'.others.trans h.others
  sent := by rw [h'.sent, h.sent, Nat.add_assoc]

/-- A loop inserts the rows whose statements do not fail. -/
theorem foldlM_inserted {body : Session × Nat → ρ → Except Failure (Session × Nat)} {statements offset : Nat}
    (hbody : ∀ s row t, body s row = .ok t →
      Inserted key tableOf othersOf s t (acceptedAt faults (s.1.sent + offset) row) statements) (l : List ρ)
    (h : l.foldlM body s = .ok t) :
    Inserted key tableOf othersOf s t (accepted faults statements offset s.1.sent l) (statements * l.length) := by
  induction l generalizing s with
  | nil =>
    cases h
    exact ⟨rfl, rfl, rfl, rfl⟩
  | cons row l ih =>
    rw [List.foldlM_cons] at h
    obtain ⟨u, hu, h⟩ := bind_eq_ok.mp h
    have hround := hbody s row u hu
    have hrest := ih h
    rw [hround.sent] at hrest
    rw [accepted, List.length_cons, Nat.mul_succ, Nat.add_comm (statements * l.length)]
    exact hround.append hrest

end

/-- An upsert leaves the tables of events alone. -/
theorem upsertWallet_events (db : Store) (chain : ChainKind) (address : String) (seenAt : DateTime) (source : String) :
    (upsertWallet db chain address seenAt source).rawEvents = db.rawEvents ∧
      (upsertWallet db chain address seenAt source).transfers = db.transfers ∧
      (upsertWallet db chain address seenAt source).trades = db.trades := by
  rw [upsertWallet]
  split <;> exact ⟨rfl, rfl, rfl⟩

namespace Session
section
variable {faults : Faults} {s t : Session} {change : Store → Store} {chain : ChainKind} {source : String}
  {observedAt : DateTime}

theorem execute_eq_ok : s.execute faults change = .ok t ↔ faults s.sent = none ∧ t = ⟨change s.db, s.sent + 1⟩ := by
  rw [execute]
  cases faults s.sent with
  | none => simp [eq_comm]
  | some text => simp

/-- An insert whose error is dropped is counted where it does not fail. -/
theorem executeIsOk_counts {ρ : Type} {a b : Nat} (row : ρ)
    (h : countOk a (s.executeIsOk faults change).2 = .ok b) :
    (s.executeIsOk faults change).1 = ⟨if faults s.sent = none then change s.db else s.db, s.sent + 1⟩ ∧
      b = a + (acceptedAt faults s.sent row).length := by
  revert h
  rw [executeIsOk, acceptedAt]
  cases faults s.sent with
  | none =>
    intro h
    exact ⟨rfl, addU32_eq h⟩
  | some text =>
    intro h
    exact ⟨rfl, (Except.ok.inj h).symm⟩

theorem upsertWalletsForTransfer_ok {transfer : NormalizedTransfer}
    (h : s.upsertWalletsForTransfer faults transfer source = .ok t) : t.db.rawEvents = s.db.rawEvents ∧
      t.db.transfers = s.db.transfers ∧ t.db.trades = s.db.trades ∧ t.sent = s.sent + 2 := by
  obtain ⟨u, hu, h⟩ := bind_eq_ok.mp h
  obtain ⟨-, rfl⟩ := execute_eq_ok.mp hu
  obtain ⟨-, rfl⟩ := execute_eq_ok.mp h
  obtain ⟨hraws, htransfers, htrades⟩ := upsertWallet_events s.db transfer.chain transfer.fromAddress
    (transfer.blockTime.getD transfer.observedAt) source
  refine ⟨?_, ?_, ?_, rfl⟩
  · rw [(upsertWallet_events _ _ _ _ _).1, hraws]
  · rw [(upsertWallet_events _ _ _ _ _).2.1, htransfers]
  · rw [(upsertWallet_events _ _ _ _ _).2.2, htrades]

theorem ingestTransfer_inserted {s t : Session × Nat} {transfer : NormalizedTransfer}
    (h : ingestTransfer faults source s transfer = .ok t) :
    Inserted transferRowKey Store.transfers (fun db => (db.rawEvents, db.trades)) s t
      (acceptedAt faults (s.1.sent + 2) transfer) 4 := by
  obtain ⟨u, hu, h⟩ := bind_eq_ok.mp h
  obtain ⟨transfersNew, hcount, h⟩ := bind_eq_ok.mp h
  obtain ⟨v, hv, h⟩ := bind_eq_ok.mp h
  obtain ⟨-, rfl⟩ := execute_eq_ok.mp hv
  obtain rfl := Except.ok.inj h
  obtain ⟨hraws, htransfers, htrades, hsent⟩ := upsertWalletsForTransfer_ok hu
  obtain ⟨hsession, hcount⟩ := executeIsOk_counts transfer hcount
  rw [hsession, hsent]
  rw [hsent] at hcount
  refine ⟨?_, hcount, ?_, rfl⟩
  · show (if faults (s.1.sent + 2) = none then storeTransfer u.db transfer else u.db).transfers = _
    rw [acceptedAt, ← htransfers]
    split <;> rfl
  · show ((if faults (s.1.sent + 2) = none then storeTransfer u.db transfer else u.db).rawEvents,
      (if faults (s.1.sent + 2) = none then storeTransfer u.db transfer else u.db).trades) = _
    rw [← hraws, ← htrades]
    split <;> rfl

theorem ingestTrade_inserted {s t : Session × Nat} {trade : NormalizedTrade}
    (h : ingestTrade faults chain source observedAt s trade = .ok t) :
    Inserted tradeRowKey Store.trades (fun db => (db.rawEvents, db.transfers)) s t
      (acceptedAt faults (s.1.sent + 1) trade) 2 := by
  obtain ⟨u, hu, h⟩ := bind_eq_ok.mp h
  obtain ⟨-, rfl⟩ := execute_eq_ok.mp hu
  obtain ⟨tradesNew, hcount, h⟩ := bind_eq_ok.mp h
  obtain rfl := Except.ok.inj h
  obtain ⟨hraws, htransfers, htrades⟩ := upsertWallet_events s.1.db chain trade.wallet observedAt source
  obtain ⟨hsession, hcount⟩ := executeIsOk_counts trade hcount
  rw [hsession]
  refine ⟨?_, hcount, ?_, rfl⟩
  · rw [acceptedAt, ← htrades]
    split <;> rfl
  · rw [← hraws, ← htransfers]
    split <;> rfl

end
end Session

/-! ## What an ingestion does -/

/-- The tables of events have the rows too; the raw rows are counted by what was added, and
the events by their inserts. -/
structure Ingested (before after : Store) (counts : IngestCounts) (rows : Rows) : Prop where
  rawEvents : after.rawEvents = rows.raws.foldl (insertNew RawEvent.key) before.rawEvents
  transfers : after.transfers = rows.transfers.foldl (insertNew transferRowKey) before.transfers
  trades : after.trades = rows.trades.foldl (insertNew tradeRowKey) before.trades
  rawNew : after.rawEvents.length = before.rawEvents.length + counts.rawNew
  transfersNew : counts.transfersNew = rows.transfers.length
  tradesNew : counts.tradesNew = rows.trades.length

section
variable {faults : Faults} {adapter : Adapter} {chain : ChainKind} {source : String} {observedAt : DateTime}
  {raw : Json} {page : List Json} {before between after : Store} {counts counts' : IngestCounts} {rows rows' : Rows}

/-- The counts of both, whatever they have of malformed payloads. -/
theorem Ingested.append {total : IngestCounts} (h : Ingested before between counts rows)
    (h' : Ingested between after counts' rows') (hraw : total.rawNew = counts.rawNew + counts'.rawNew)
    (htransfers : total.transfersNew = counts.transfersNew + counts'.transfersNew)
    (htrades : total.tradesNew = counts.tradesNew + counts'.tradesNew) :
    Ingested before after total (rows.append rows') where
  rawEvents := by rw [Rows.append, List.foldl_append, ← h.rawEvents, h'.rawEvents]
  transfers := by rw [Rows.append, List.foldl_append, ← h.transfers, h'.transfers]
  trades := by rw [Rows.append, List.foldl_append, ← h.trades, h'.trades]
  rawNew := by rw [h'.rawNew, h.rawNew, hraw, Nat.add_assoc]
  transfersNew := by rw [htransfers, h.transfersNew, h'.transfersNew, Rows.append, List.length_append]
  tradesNew := by rw [htrades, h.tradesNew, h'.tradesNew, Rows.append, List.length_append]

/-- What is stored raw is counted where its key was not taken. -/
theorem storeRawEvent_eq (db : Store) (row : RawEvent) :
    (storeRawEvent db row).1 = { db with rawEvents := insertNew RawEvent.key db.rawEvents row } ∧
      (insertNew RawEvent.key db.rawEvents row).length =
        db.rawEvents.length + if (storeRawEvent db row).2 then 1 else 0 := by
  have htest : (db.rawEvents.any fun r =>
      r.chain == row.chain && r.source == row.source && r.signature == row.signature) =
        db.rawEvents.any fun r => RawEvent.key r = RawEvent.key row := by
    congr 1
    funext r
    simp only [RawEvent.key, Prod.mk.injEq, Bool.decide_and, beq_eq_decide, Bool.and_assoc]
  rw [storeRawEvent, insertNew, htest]
  split
  · exact ⟨rfl, rfl⟩
  · exact ⟨rfl, List.length_append⟩

namespace Session

theorem storeRaw_ok {s : Session} {t : Session × Nat} (h : s.storeRaw faults chain source raw observedAt = .ok t) :
    t.1.db = { s.db with
      rawEvents := (rawRows chain source observedAt raw).foldl (insertNew RawEvent.key) s.db.rawEvents } ∧
    t.1.db.rawEvents.length = s.db.rawEvents.length + t.2 ∧
    t.1.sent = s.sent + (rawRows chain source observedAt raw).length := by
  rw [storeRaw] at h
  rw [rawRows]
  cases hsignature : signatureOf raw with
  | none =>
    rw [hsignature] at h
    obtain rfl := Except.ok.inj h
    exact ⟨rfl, rfl, rfl⟩
  | some signature =>
    rw [hsignature] at h
    obtain ⟨u, hu, h⟩ := bind_eq_ok.mp h
    obtain ⟨-, rfl⟩ := execute_eq_ok.mp hu
    obtain rfl := Except.ok.inj h
    obtain ⟨hdb, hlength⟩ := storeRawEvent_eq s.db ⟨chain, source, signature, raw, observedAt⟩
    dsimp only
    rw [hdb]
    exact ⟨rfl, hlength, rfl⟩

theorem ingestTransaction_ingested {s : Session} {r : Session × IngestCounts}
    (h : ingestTransaction faults adapter chain source observedAt s raw = .ok r) :
    Ingested s.db r.1.db r.2 (acceptedRows faults adapter chain source observedAt s.sent raw) ∧
      r.1.sent = s.sent + statementsOf adapter chain source observedAt raw := by
  obtain ⟨⟨t, rawNew⟩, ht, h⟩ := bind_eq_ok.mp h
  obtain ⟨hdb, hlength, hsent⟩ := storeRaw_ok ht
  dsimp only at hdb hlength hsent h
  rw [acceptedRows, statementsOf, ← Nat.add_assoc, ← hsent]
  cases hadapter : adapter raw observedAt with
  | error text =>
    rw [hadapter] at h
    obtain rfl := Except.ok.inj h
    refine ⟨⟨?_, ?_, ?_, hlength, rfl, rfl⟩, rfl⟩
    · rw [hdb]
    · rw [hdb]
      rfl
    · rw [hdb]
      rfl
  | ok events =>
    rw [hadapter] at h
    obtain ⟨u, hu, h⟩ := bind_eq_ok.mp h
    obtain ⟨v, hv, h⟩ := bind_eq_ok.mp h
    obtain rfl := Except.ok.inj h
    have htransfers := foldlM_inserted (fun _ _ _ => ingestTransfer_inserted) events.transfers hu
    have htrades := foldlM_inserted (fun _ _ _ => ingestTrade_inserted) events.trades hv
    obtain ⟨hraws, htradesKept⟩ := Prod.mk.inj htransfers.others
    obtain ⟨hraws', htransfersKept⟩ := Prod.mk.inj htrades.others
    dsimp only at hraws htradesKept hraws' htransfersKept
    have hsentTransfers := htransfers.sent
    dsimp only at hsentTransfers
    refine ⟨⟨?_, ?_, ?_, ?_, ?_, ?_⟩, ?_⟩
    · rw [hraws', hraws, hdb]
    · rw [htransfersKept, htransfers.table, hdb]
    · rw [htrades.table, htradesKept, hdb, hsentTransfers]
    · rw [hraws', hraws, hlength]
    · rw [htransfers.count, Nat.zero_add]
    · rw [htrades.count, Nat.zero_add, hsentTransfers]
    · rw [htrades.sent, hsentTransfers, Nat.add_assoc]

/-- The deliveries of a page add up. -/
theorem foldlM_ingestDelivery {s r : Session × IngestCounts}
    (h : page.foldlM (ingestDelivery faults adapter source observedAt) s = .ok r) : ∃ total,
      Ingested s.1.db r.1.db total (acceptedOfPage faults adapter .solana source observedAt s.1.sent page) ∧
      r.2.rawNew = s.2.rawNew + total.rawNew ∧ r.2.transfersNew = s.2.transfersNew + total.transfersNew ∧
      r.2.tradesNew = s.2.tradesNew + total.tradesNew := by
  induction page generalizing s with
  | nil =>
    obtain rfl := Except.ok.inj h
    exact ⟨⟨0, 0, 0, 0⟩, ⟨rfl, rfl, rfl, rfl, rfl, rfl⟩, rfl, rfl, rfl⟩
  | cons raw page ih =>
    rw [List.foldlM_cons] at h
    obtain ⟨u, hu, h⟩ := bind_eq_ok.mp h
    obtain ⟨single, hsingle, hu⟩ := bind_eq_ok.mp hu
    obtain ⟨rawNew, hraw, hu⟩ := bind_eq_ok.mp hu
    obtain ⟨transfersNew, htransfers, hu⟩ := bind_eq_ok.mp hu
    obtain ⟨tradesNew, htrades, hu⟩ := bind_eq_ok.mp hu
    obtain ⟨malformed, -, hu⟩ := bind_eq_ok.mp hu
    obtain rfl := Except.ok.inj hu
    obtain ⟨hfirst, hsent⟩ := ingestTransaction_ingested hsingle
    obtain ⟨rest, hrest, hrestRaw, hrestTransfers, hrestTrades⟩ := ih h
    dsimp only at hrest hrestRaw hrestTransfers hrestTrades
    rw [hsent] at hrest
    refine ⟨⟨single.2.rawNew + rest.rawNew, single.2.transfersNew + rest.transfersNew,
      single.2.tradesNew + rest.tradesNew, 0⟩, hfirst.append hrest rfl rfl rfl, ?_, ?_, ?_⟩
    · rw [hrestRaw, addU32_eq hraw, Nat.add_assoc]
    · rw [hrestTransfers, addU32_eq htransfers, Nat.add_assoc]
    · rw [hrestTrades, addU32_eq htrades, Nat.add_assoc]

theorem ingestWebhook_ingested {s : Session} {r : Session × IngestCounts}
    (h : ingestWebhook faults adapter source observedAt s page = .ok r) :
    Ingested s.db r.1.db r.2 (acceptedOfPage faults adapter .solana source observedAt s.sent page) := by
  obtain ⟨total, hi, hraw, htransfers, htrades⟩ := foldlM_ingestDelivery h
  rw [Nat.zero_add] at hraw htransfers htrades
  exact ⟨hi.rawEvents, hi.transfers, hi.trades, by rw [hraw, hi.rawNew], by rw [htransfers, hi.transfersNew],
    by rw [htrades, hi.tradesNew]⟩

end Session

/-! ## Where the counts are right -/

theorem addedRows_append {ρ : Type} {rows added : List ρ} {n : Nat} :
    AddedRows rows (rows ++ added) n ↔ added.length = n := by
  constructor
  · rintro ⟨added', heq, hlength⟩
    rwa [List.append_cancel_left heq]
  · exact fun h => ⟨added, rfl, h⟩

/-- A run of inserts adds as many rows as it has where none of them is skipped. -/
theorem addedRows_foldl_iff {ρ κ : Type} [DecidableEq κ] (key : ρ → κ) (l rows : List ρ) :
    AddedRows rows (l.foldl (insertNew key) rows) l.length ↔
      (l.map key).Nodup ∧ ∀ row ∈ l, key row ∉ rows.map key := by
  rw [foldl_insertNew, addedRows_append, length_fresh_eq_iff]

namespace Ingested

/-- The counts of the events are right where nothing of them is skipped. -/
theorem truthful_iff (h : Ingested before after counts rows) :
    Truthful before after counts ↔ rows.EventsNew before := by
  have htransfers := addedRows_foldl_iff transferRowKey rows.transfers before.transfers
  have htrades := addedRows_foldl_iff tradeRowKey rows.trades before.trades
  rw [← h.transfers, ← h.transfersNew] at htransfers
  rw [← h.trades, ← h.tradesNew] at htrades
  constructor
  · intro ht
    exact ⟨htransfers.mp ht.transfers, htrades.mp ht.trades⟩
  · intro hnew
    refine ⟨?_, htransfers.mpr hnew.transfers, htrades.mpr hnew.trades⟩
    have hlength := h.rawNew
    rw [h.rawEvents, foldl_insertNew, List.length_append] at hlength
    rw [h.rawEvents, foldl_insertNew, addedRows_append]
    omega

theorem addsNothing_iff (h : Ingested before after counts rows) : AddsNothing before after ↔ rows.AllStored before := by
  have hraws := foldl_insertNew_eq_self_iff RawEvent.key rows.raws before.rawEvents
  have htransfers := foldl_insertNew_eq_self_iff transferRowKey rows.transfers before.transfers
  have htrades := foldl_insertNew_eq_self_iff tradeRowKey rows.trades before.trades
  rw [← h.rawEvents] at hraws
  rw [← h.transfers] at htransfers
  rw [← h.trades] at htrades
  constructor
  · intro ha
    exact ⟨hraws.mp ha.rawEvents, htransfers.mp ha.transfers, htrades.mp ha.trades⟩
  · intro hs
    exact ⟨hraws.mpr hs.raws, htransfers.mpr hs.transfers, htrades.mpr hs.trades⟩

/-- The test asks for more than that nothing is added: no event may have been sent. -/
theorem fullyDeduplicated_iff (h : Ingested before after counts rows) :
    counts.FullyDeduplicated ↔ rows.AllStored before ∧ rows.NoEvents := by
  have hraws : counts.rawNew = 0 ↔ ∀ row ∈ rows.raws, row.key ∈ before.rawEvents.map RawEvent.key := by
    have hlength := h.rawNew
    rw [h.rawEvents, foldl_insertNew, List.length_append] at hlength
    rw [← fresh_eq_nil_iff, ← List.length_eq_zero_iff]
    omega
  rw [IngestCounts.FullyDeduplicated, h.transfersNew, h.tradesNew, List.length_eq_zero_iff, List.length_eq_zero_iff,
    hraws]
  constructor
  · rintro ⟨hstored, hnone⟩
    refine ⟨⟨hstored, ?_, ?_⟩, hnone⟩
    · simp [hnone.1]
    · simp [hnone.2]
  · rintro ⟨hstored, hnone⟩
    exact ⟨hstored.raws, hnone⟩

/-- The test fires exactly where nothing is added, unless what is stored is sent again. -/
theorem test_iff (h : Ingested before after counts rows) :
    (counts.FullyDeduplicated ↔ AddsNothing before after) ↔ (rows.AllStored before → rows.NoEvents) := by
  rw [h.fullyDeduplicated_iff, h.addsNothing_iff]
  exact and_iff_left_iff_imp

/-- What was ingested is stored. -/
theorem allStored (h : Ingested before after counts rows) : rows.AllStored after := by
  constructor
  · rw [h.rawEvents]
    exact fun row hrow => mem_foldl_insertNew RawEvent.key hrow
  · rw [h.transfers]
    exact fun row hrow => mem_foldl_insertNew transferRowKey hrow
  · rw [h.trades]
    exact fun row hrow => mem_foldl_insertNew tradeRowKey hrow

end Ingested

/-! ## Without a fault -/

def noFaults : Faults := fun _ => none

theorem accepted_noFaults {ρ : Type} (statements offset : Nat) (l : List ρ) (n : Nat) :
    accepted noFaults statements offset n l = l := by
  induction l generalizing n with
  | nil => rfl
  | cons row l ih =>
    rw [accepted, ih]
    rfl

/-- The part of a session that the ingestion without faults has. -/
def Session.stored {α : Type} (s : Session × α) : Store × α := (s.1.db, s.2)

namespace Session

theorem storeRaw_noFaults (s : Session) : (s.storeRaw noFaults chain source raw observedAt).map stored =
    .ok (Helius.storeRaw s.db chain source raw observedAt) := by
  rw [storeRaw, Helius.storeRaw]
  cases signatureOf raw <;> rfl

theorem ingestTransfer_noFaults (s : Session × Nat) (t : NormalizedTransfer) :
    (ingestTransfer noFaults source s t).map stored = Helius.ingestTransfer source (stored s) t :=
  map_bind_self (r := addU32 s.2 1) fun _ => rfl

theorem ingestTrade_noFaults (s : Session × Nat) (t : NormalizedTrade) :
    (ingestTrade noFaults chain source observedAt s t).map stored =
      Helius.ingestTrade chain source observedAt (stored s) t :=
  map_bind_self (r := addU32 s.2 1) fun _ => rfl

/-- Where no statement fails, this is the ingestion of a store that does not fail. -/
theorem ingestTransaction_noFaults (s : Session) :
    (ingestTransaction noFaults adapter chain source observedAt s raw).map stored =
      Helius.ingestTransaction adapter chain source observedAt s.db raw := by
  obtain ⟨⟨t, rawNew⟩, ht, hstored⟩ := map_eq_ok.mp (storeRaw_noFaults s)
  rw [ingestTransaction, Helius.ingestTransaction, ht, ok_bind, ← hstored]
  cases adapter raw observedAt with
  | error text => rfl
  | ok events =>
    have htransfers : (events.transfers.foldlM (ingestTransfer noFaults source) (t, 0)).map stored =
        events.transfers.foldlM (Helius.ingestTransfer source) (t.db, 0) := map_foldlM ingestTransfer_noFaults _ _
    refine map_bind htransfers fun u => ?_
    have htrades : (events.trades.foldlM (ingestTrade noFaults chain source observedAt) (u.1, 0)).map stored =
        events.trades.foldlM (Helius.ingestTrade chain source observedAt) (u.1.db, 0) :=
      map_foldlM ingestTrade_noFaults _ _
    exact map_bind htrades fun v => rfl

theorem ingestDelivery_noFaults (s : Session × IngestCounts) (raw : Json) :
    (ingestDelivery noFaults adapter source observedAt s raw).map stored =
      Helius.ingestDelivery adapter source observedAt (stored s) raw := by
  refine map_bind (ingestTransaction_noFaults s.1) fun single => ?_
  -- the counts are added up alike
  exact map_bind_self fun _ => map_bind_self fun _ => map_bind_self fun _ => map_bind_self fun _ => rfl

theorem ingestWebhook_noFaults (s : Session) : (ingestWebhook noFaults adapter source observedAt s page).map stored =
    Helius.ingestWebhook adapter source observedAt s.db page :=
  map_foldlM ingestDelivery_noFaults page (s, ⟨0, 0, 0, 0⟩)

end Session

/-- A transaction that is delivered again, and normalized to the same keys, adds nothing,
and its events are counted once more. -/
theorem redelivery_counts {observedAt' : DateTime} {events events' : NormalizedEvents} {s : Session}
    {r r' : Session × IngestCounts}
    (h : Session.ingestTransaction noFaults adapter chain source observedAt s raw = .ok r)
    (h' : Session.ingestTransaction noFaults adapter chain source observedAt' r.1 raw = .ok r')
    (hevents : adapter raw observedAt = .ok events) (hevents' : adapter raw observedAt' = .ok events')
    (htransfers : events'.transfers.map transferRowKey = events.transfers.map transferRowKey)
    (htrades : events'.trades.map tradeRowKey = events.trades.map tradeRowKey) :
    AddsNothing r.1.db r'.1.db ∧ r'.2.rawNew = 0 ∧ r'.2.transfersNew = events.transfers.length ∧
      r'.2.tradesNew = events.trades.length := by
  have hfirst := (Session.ingestTransaction_ingested h).1.allStored
  have hsecond := (Session.ingestTransaction_ingested h').1
  simp only [acceptedRows, hevents, accepted_noFaults] at hfirst
  simp only [acceptedRows, hevents', accepted_noFaults] at hsecond
  have hadds : AddsNothing r.1.db r'.1.db := by
    refine hsecond.addsNothing_iff.mpr ⟨?_, ?_, ?_⟩
    · intro row hrow
      obtain ⟨signature, hsignature, rfl⟩ := List.mem_map.mp hrow
      exact hfirst.raws ⟨chain, source, signature, raw, observedAt⟩ (List.mem_map.mpr ⟨signature, hsignature, rfl⟩)
    · rw [← List.forall_mem_map (P := (· ∈ r.1.db.transfers.map transferRowKey)), htransfers, List.forall_mem_map]
      exact hfirst.transfers
    · rw [← List.forall_mem_map (P := (· ∈ r.1.db.trades.map tradeRowKey)), htrades, List.forall_mem_map]
      exact hfirst.trades
  have hraw := hsecond.rawNew
  rw [hadds.rawEvents] at hraw
  refine ⟨hadds, by omega, ?_, ?_⟩
  · rw [hsecond.transfersNew, ← List.length_map transferRowKey, htransfers, List.length_map]
  · rw [hsecond.tradesNew, ← List.length_map tradeRowKey, htrades, List.length_map]

end

/-- The counts of a transaction are those of its new rows where none of its events is stored
again, and the test on a page fires exactly where nothing was added unless a page that is
stored has events. -/
theorem ingest_counts_iff (faults : Faults) (adapter : Adapter) (source : String) (observedAt : DateTime) :
    (∀ chain s raw r, Session.ingestTransaction faults adapter chain source observedAt s raw = .ok r →
      (Truthful s.db r.1.db r.2 ↔ (acceptedRows faults adapter chain source observedAt s.sent raw).EventsNew s.db)) ∧
    ∀ s page r, Session.ingestWebhook faults adapter source observedAt s page = .ok r →
      let rows := acceptedOfPage faults adapter .solana source observedAt s.sent page
      (r.2.FullyDeduplicated ↔ AddsNothing s.db r.1.db) ↔ (rows.AllStored s.db → rows.NoEvents) :=
  ⟨fun _ _ _ _ h => (Session.ingestTransaction_ingested h).1.truthful_iff,
    fun _ _ _ h => (Session.ingestWebhook_ingested h).test_iff⟩

/-! A payment that is delivered twice. -/

def deliverPayment (s : Session) : Except Failure (Session × IngestCounts) :=
  Session.ingestTransaction noFaults (heliusAdapter clockCrates) .solana "helius_history" (seconds 300) s
    (payment "old" 100).raw

theorem payment_delivered_twice : (do
      let first ← deliverPayment ⟨emptyStore, 0⟩
      let second ← deliverPayment first.1
      .ok (first.2, second.2, first.1.db.transfers.length, second.1.db.transfers.length)) =
    (.ok (⟨1, 1, 0, 0⟩, ⟨0, 1, 0, 0⟩, 1, 1) : Except Failure _) := by
  decide +kernel

/-- The second delivery counts a new transfer and stores none. -/
theorem redelivery_counted : ∃ first second, deliverPayment ⟨emptyStore, 0⟩ = .ok first ∧
    deliverPayment first.1 = .ok second ∧ second.2.transfersNew = 1 ∧ ¬ Truthful first.1.db second.1.db second.2 := by
  obtain ⟨first, hfirst, h⟩ := bind_eq_ok.mp payment_delivered_twice
  obtain ⟨second, hsecond, h⟩ := bind_eq_ok.mp h
  obtain ⟨-, hcounts, hbefore, hafter⟩ := by simpa using h
  refine ⟨first, second, hfirst, hsecond, by rw [hcounts], fun ht => ?_⟩
  obtain ⟨added, hadded, hlength⟩ := ht.transfers
  have hlength' := congrArg List.length hadded
  rw [List.length_append, hlength, hcounts, hbefore, hafter] at hlength'
  exact absurd hlength' (by decide)

end WhaleIntelligence.Helius
