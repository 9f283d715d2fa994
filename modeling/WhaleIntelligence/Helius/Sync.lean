import WhaleIntelligence.Chains.Normalize
import WhaleIntelligence.Lib.Fallible
import WhaleIntelligence.Signals.Alpha

/- The sync of a wallet's history (src/src/ingest.rs, src/src/helius.rs).

   A page is fetched, stored raw and normalized, and the cursor for the next page is taken
   from it. The store does not fail, so what it fails with is left out, and so is what a
   funding edge says of its confidence. `pages` is a ghost of the answers. -/
namespace WhaleIntelligence.Helius
open WhaleIntelligence Chains Fallible

/-- An error with its text, or a panic. -/
inductive Failure where
  | error (text : String)
  | panic
  deriving DecidableEq, Repr

/-- `+=` on a `u32`, in a build that checks overflows. -/
def addU32 (a b : Nat) : Except Failure Nat := if a + b < 2 ^ 32 then .ok (a + b) else .error .panic

/-! ## Requests -/

/-- `v[key] = x`: `null` becomes an object, and what is no object panics. -/
def setKey (key : String) (x : Json) : Json → Except Failure Json
  | .null => .ok (.object [(key, x)])
  | .object members => .ok (.object (members.filter (·.1 ≠ key) ++ [(key, x)]))
  | _ => .error .panic

/-- The parameters that are built for an address. -/
def historyParams (address : String) (before : Option String) : Except Failure Json :=
  match before with
  | none => .ok (.array [.string address])
  | some before => do
    let first ← setKey "before" (.string before) (.string address)
    .ok (.array [first])

/-- `request` answers `getTransactionsForAddress` with its parameters. -/
def getTransactionsForAddress (request : Json → Except String Json) (address : String) (before : Option String) :
    Except Failure Json := do
  let params ← historyParams address before
  match request params with
  | .ok page => .ok page
  | .error text => .error (.error text)

/-! ## The store -/

structure RawEvent where
  chain : ChainKind
  source : String
  signature : String
  payload : Json
  observedAt : DateTime

structure WalletRow where
  chain : ChainKind
  address : String
  firstSeen : DateTime
  lastSeen : DateTime
  source : String
  deriving DecidableEq, Repr

structure FundingEdge where
  chain : ChainKind
  fromAddress : String
  toAddress : String
  signature : String
  edgeKind : String
  rawAmount : String
  blockTime : Option DateTime
  assetKind : AssetKind
  mint : String
  deriving DecidableEq, Repr

structure Store where
  dbNow : DateTime
  labels : List Signals.LabelRow
  rawEvents : List RawEvent
  wallets : List WalletRow
  transfers : List NormalizedTransfer
  edges : List FundingEdge
  trades : List NormalizedTrade

/-- `INSERT … ON CONFLICT (key) DO NOTHING`. -/
def insertNew {ρ κ : Type} [DecidableEq κ] (key : ρ → κ) (rows : List ρ) (row : ρ) : List ρ :=
  if rows.any (fun r => key r = key row) then rows else rows ++ [row]

/-- Whether the event is new. -/
def storeRawEvent (db : Store) (row : RawEvent) : Store × Bool :=
  if db.rawEvents.any fun r => r.chain == row.chain && r.source == row.source && r.signature == row.signature then
    (db, false)
  else ({ db with rawEvents := db.rawEvents ++ [row] }, true)

def WalletRow.seen (w : WalletRow) (at_ : DateTime) (source : String) : WalletRow :=
  { w with lastSeen := max w.lastSeen at_, source := source }

def upsertWallet (db : Store) (chain : ChainKind) (address : String) (seenAt : DateTime) (source : String) : Store :=
  let seenAt := pgTime seenAt
  if db.wallets.any fun w => w.chain == chain && w.address == address then
    let wallets := db.wallets.map fun w => if w.chain = chain ∧ w.address = address then w.seen seenAt source else w
    { db with wallets := wallets }
  else { db with wallets := db.wallets ++ [⟨chain, address, seenAt, seenAt, source⟩] }

def storeTransfer (db : Store) (t : NormalizedTransfer) : Store :=
  { db with
    transfers := insertNew (fun t => (t.chain, t.signature, t.eventIndex, t.fromAddress, t.toAddress)) db.transfers t }

def storeTrade (db : Store) (t : NormalizedTrade) : Store :=
  { db with trades := insertNew (fun t => (t.chain, t.signature, t.eventIndex, t.wallet)) db.trades t }

/-- The edge of a transfer. -/
def FundingEdge.of (t : NormalizedTransfer) : FundingEdge where
  chain := t.chain
  fromAddress := t.fromAddress
  toAddress := t.toAddress
  signature := t.signature
  edgeKind := if t.assetKind = .native then "funding" else "token_funding"
  rawAmount := t.rawAmount
  blockTime := t.blockTime
  assetKind := t.assetKind
  mint := t.mint

def updateFundingEdges (db : Store) (t : NormalizedTransfer) : Store :=
  { db with
    edges := insertNew (fun e => (e.chain, e.fromAddress, e.toAddress, e.signature, e.edgeKind)) db.edges (.of t) }

def upsertWalletsForTransfer (db : Store) (t : NormalizedTransfer) (source : String) : Store :=
  let seenAt := t.blockTime.getD t.observedAt
  upsertWallet (upsertWallet db t.chain t.fromAddress seenAt source) t.chain t.toAddress seenAt source

/-! ## Ingestion -/

structure IngestCounts where
  rawNew : Nat
  transfersNew : Nat
  tradesNew : Nat
  malformed : Nat
  deriving DecidableEq, Repr

/-- What a chain's adapter makes of a payload, or the text of its error. -/
abbrev Adapter := Json → DateTime → Except String NormalizedEvents

def ingestTransfer (source : String) (s : Store × Nat) (t : NormalizedTransfer) : Except Failure (Store × Nat) := do
  let transfersNew ← addU32 s.2 1
  .ok (updateFundingEdges (storeTransfer (upsertWalletsForTransfer s.1 t source) t) t, transfersNew)

def ingestTrade (chain : ChainKind) (source : String) (observedAt : DateTime) (s : Store × Nat) (t : NormalizedTrade) :
    Except Failure (Store × Nat) := do
  let tradesNew ← addU32 s.2 1
  .ok (storeTrade (upsertWallet s.1 chain t.wallet observedAt source) t, tradesNew)

/-- The signature of a provider transaction. -/
def signatureOf (raw : Json) : Option String :=
  raw.strAt "signature" <|> raw.strAt "transactionHash" <|> raw.strAt "hash"

/-- The payload is stored before it is normalized. -/
def storeRaw (db : Store) (chain : ChainKind) (source : String) (raw : Json) (observedAt : DateTime) : Store × Nat :=
  match signatureOf raw with
  | none => (db, 0)
  | some signature =>
    let (db, inserted) := storeRawEvent db ⟨chain, source, signature, raw, observedAt⟩
    (db, if inserted then 1 else 0)

def ingestTransaction (adapter : Adapter) (chain : ChainKind) (source : String) (observedAt : DateTime) (db : Store)
    (raw : Json) :
    Except Failure (Store × IngestCounts) := do
  let (db, rawNew) := storeRaw db chain source raw observedAt
  match adapter raw observedAt with
  | .ok events =>
    let (db, transfersNew) ← events.transfers.foldlM (ingestTransfer source) (db, 0)
    let (db, tradesNew) ← events.trades.foldlM (ingestTrade chain source observedAt) (db, 0)
    .ok (db, ⟨rawNew, transfersNew, tradesNew, 0⟩)
  | .error _ => .ok (db, ⟨rawNew, 0, 0, 1⟩)

def ingestDelivery (adapter : Adapter) (source : String) (observedAt : DateTime) (s : Store × IngestCounts)
    (raw : Json) :
    Except Failure (Store × IngestCounts) := do
  let (db, single) ← ingestTransaction adapter .solana source observedAt s.1 raw
  let rawNew ← addU32 s.2.rawNew single.rawNew
  let transfersNew ← addU32 s.2.transfersNew single.transfersNew
  let tradesNew ← addU32 s.2.tradesNew single.tradesNew
  let malformed ← addU32 s.2.malformed single.malformed
  .ok (db, ⟨rawNew, transfersNew, tradesNew, malformed⟩)

def ingestWebhook (adapter : Adapter) (source : String) (observedAt : DateTime) (db : Store) (payload : List Json) :
    Except Failure (Store × IngestCounts) :=
  payload.foldlM (ingestDelivery adapter source observedAt) (db, ⟨0, 0, 0, 0⟩)

/-! ## The sync -/

structure WalletSyncOutcome where
  pagesFetched : Nat
  transfersNew : Nat
  tradesNew : Nat
  completed : Bool
  skippedByPolicy : Bool
  deriving DecidableEq, Repr

structure Progress where
  db : Store
  pages : List (List Json)
  outcome : WalletSyncOutcome

/-- The cursor: the first signature of the page. -/
def cursorOf (transactions : List Json) : Option String := transactions.findSome? (·.strAt "signature")

section
variable (adapter : Adapter) (request : Json → Except String Json) (now : Nat → DateTime) (address : String)

/-- The loop, with so many rounds left. `now` gives the clock after so many pages. -/
def syncPages : Nat → Option String → Progress → Except Failure Progress
  | 0, _, s => .ok s
  | rounds + 1, before, s => do
    let page ← getTransactionsForAddress request address before
    let transactions := page.asArray.getD []
    let s := { s with pages := s.pages ++ [transactions] }
    if transactions = [] then .ok { s with outcome := { s.outcome with completed := true } }
    else
      let (db, counts) ← ingestWebhook adapter "helius_history" (now s.outcome.pagesFetched) s.db transactions
      let pagesFetched ← addU32 s.outcome.pagesFetched 1
      let transfersNew ← addU32 s.outcome.transfersNew counts.transfersNew
      let tradesNew ← addU32 s.outcome.tradesNew counts.tradesNew
      let s := { s with
        db := db
        outcome := { s.outcome with
          pagesFetched := pagesFetched
          transfersNew := transfersNew
          tradesNew := tradesNew } }
      let before := cursorOf transactions
      if before = none ∨ (counts.rawNew = 0 ∧ counts.transfersNew = 0 ∧ counts.tradesNew = 0) then
        .ok { s with outcome := { s.outcome with completed := true } }
      else syncPages rounds before s

def syncWallet (db : Store) (workspaceId : Int) (chain : ChainKind) (maxPages : UInt32) : Except Failure Progress :=
  match Signals.effectiveDisposition db.dbNow db.labels workspaceId chain address with
  | .error text => .error (.error text)
  | .ok disposition =>
    if !disposition.allowsDeepSync then .ok ⟨db, [], ⟨0, 0, 0, true, true⟩⟩
    else syncPages adapter request now address maxPages.toNat none ⟨db, [], ⟨0, 0, 0, false, false⟩⟩

end

end WhaleIntelligence.Helius
