import WhaleIntelligence.Helius.Sync

/- Whether a sync fetches the whole history of a wallet.

   The parameters of every page but the first are built by assigning to a key of a
   string, which panics, so what has a page has no second request (`synced_iff`). -/
namespace WhaleIntelligence.Helius
open WhaleIntelligence Chains Fallible

/-- The page of so many transactions that are older than the cursor; the newest come first. -/
def pageOf (history : List Json) (size : Nat) (before : Option String) : List Json :=
  match before with
  | none => history.take size
  | some b => ((history.dropWhile fun t => t.strAt "signature" ≠ some b).drop 1).take size

def pagesOf (history : List Json) (size : Nat) : List (List Json) :=
  (List.range ((history.length + size - 1) / size)).map fun k => (history.drop (k * size)).take size

/-- A history that can be fetched: its transactions have signatures of their own, can be
normalized and are not stored, the provider answers with its pages, and the wallet may be synced. -/
structure Fetchable (adapter : Adapter) (request : Json → Except String Json) (db : Store) (workspaceId : Int)
    (chain : ChainKind) (address : String) (history : List Json) (size : Nat) (maxPages : UInt32) : Prop where
  signed : ∀ t ∈ history, (t.strAt "signature").isSome = true
  distinct : (history.map (·.strAt "signature")).Nodup
  normalizable : ∀ t ∈ history, ∀ observedAt, ∃ events, adapter t observedAt = .ok events
  unstored : ∀ t ∈ history, ∀ row ∈ db.rawEvents, t.strAt "signature" ≠ some row.signature
  size_pos : 1 ≤ size
  answers : ∀ before params, historyParams address before = .ok params →
    request params = .ok (.array (pageOf history size before))
  enough : (pagesOf history size).length < maxPages.toNat
  allowed : ∃ d, Signals.effectiveDisposition db.dbNow db.labels workspaceId chain address = .ok d ∧
    d.allowsDeepSync = true

/-- The sync returns, each page was requested once, and every transaction is stored. -/
def Synced (history : List Json) (size : Nat) (r : Except Failure Progress) : Prop :=
  ∃ s, r = .ok s ∧ s.outcome.completed = true ∧ (s.pages.filter (·.length ≠ 0)).Perm (pagesOf history size) ∧
    ∀ t ∈ history, ∃ row ∈ s.db.rawEvents, row.payload = t ∧ t.strAt "signature" = some row.signature

section
variable {adapter : Adapter} {request : Json → Except String Json} {now : Nat → DateTime} {address source : String}
  {db db' : Store} {observedAt : DateTime} {counts counts' : IngestCounts} {raw : Json}
    {payload : List Json} {a b c : Nat}

theorem addU32_eq (h : addU32 a b = .ok c) : c = a + b := by
  rw [addU32] at h
  split at h
  · exact (Except.ok.inj h).symm
  · cases h

theorem ingestTransaction_rawNew {t : Store × IngestCounts}
    (h : ingestTransaction adapter .solana source observedAt db raw = .ok t) :
    t.2.rawNew = (storeRaw db .solana source raw observedAt).2 := by
  rw [ingestTransaction] at h
  dsimp only at h
  split at h
  · obtain ⟨transfers, -, h⟩ := bind_eq_ok.mp h
    obtain ⟨trades, -, h⟩ := bind_eq_ok.mp h
    obtain rfl := Except.ok.inj h
    rfl
  · obtain rfl := Except.ok.inj h
    rfl

theorem ingestDelivery_rawNew {s t : Store × IngestCounts}
    (h : ingestDelivery adapter source observedAt s raw = .ok t) :
    t.2.rawNew = s.2.rawNew + (storeRaw s.1 .solana source raw observedAt).2 := by
  obtain ⟨single, hsingle, h⟩ := bind_eq_ok.mp h
  obtain ⟨rawNew, hraw, h⟩ := bind_eq_ok.mp h
  obtain ⟨transfersNew, -, h⟩ := bind_eq_ok.mp h
  obtain ⟨tradesNew, -, h⟩ := bind_eq_ok.mp h
  obtain ⟨malformed, -, h⟩ := bind_eq_ok.mp h
  obtain rfl := Except.ok.inj h
  rw [← ingestTransaction_rawNew hsingle]
  exact addU32_eq hraw

/-- The count of what is new does not go down. -/
theorem ingestWebhook_rawNew {s t : Store × IngestCounts}
    (h : payload.foldlM (ingestDelivery adapter source observedAt) s = .ok t) : s.2.rawNew ≤ t.2.rawNew := by
  induction payload generalizing s with
  | nil =>
    obtain rfl := Except.ok.inj h
    exact le_rfl
  | cons raw payload ih =>
    rw [List.foldlM_cons] at h
    obtain ⟨u, hu, h⟩ := bind_eq_ok.mp h
    have hdelivery := ingestDelivery_rawNew hu
    have hrest := ih h
    omega

/-- A page that begins with a new transaction has something new. -/
theorem ingestWebhook_new {t : Store × IngestCounts} {signature : String}
    (hsigned : raw.strAt "signature" = some signature) (hunstored : ∀ row ∈ db.rawEvents, signature ≠ row.signature)
    (h : ingestWebhook adapter source observedAt db (raw :: payload) = .ok t) : 1 ≤ t.2.rawNew := by
  rw [ingestWebhook, List.foldlM_cons] at h
  obtain ⟨u, hu, h⟩ := bind_eq_ok.mp h
  have hnew : (storeRaw db .solana source raw observedAt).2 = 1 := by
    have hstored : (db.rawEvents.any fun r => r.chain == .solana && r.source == source && r.signature == signature) =
      false := by
      rw [List.any_eq_false]
      intro row hrow
      simp [Ne.symm (hunstored row hrow)]
    simp [storeRaw, signatureOf, hsigned, storeRawEvent, hstored]
  have hdelivery := ingestDelivery_rawNew hu
  have hrest := ingestWebhook_rawNew h
  rw [hnew] at hdelivery
  omega

variable {workspaceId : Int} {chain : ChainKind} {history : List Json} {size : Nat} {maxPages : UInt32}

theorem length_pagesOf : (pagesOf history size).length = (history.length + size - 1) / size := by
  rw [pagesOf, List.length_map, List.length_range]

theorem getTransactions_newest (hanswers : ∀ before params, historyParams address before = .ok params →
    request params = .ok (.array (pageOf history size before))) :
    getTransactionsForAddress request address none = .ok (.array (history.take size)) := by
  have hanswer := hanswers none _ rfl
  simp only [getTransactionsForAddress, historyParams, ok_bind, hanswer]
  rfl

/-- Where there is a page, the sync does not return. -/
theorem syncWallet_page (hf : Fetchable adapter request db workspaceId chain address history size maxPages)
    (hhistory : history ≠ []) (s : Progress) :
    syncWallet adapter request now address db workspaceId chain maxPages ≠ .ok s := by
  obtain ⟨d, hd, hallowed⟩ := hf.allowed
  obtain ⟨raw, history, rfl⟩ := List.exists_cons_of_ne_nil hhistory
  obtain ⟨size, rfl⟩ := Nat.exists_eq_add_of_le' hf.size_pos
  -- the loop has a second round
  have hpages : 1 ≤ (pagesOf (raw :: history) (size + 1)).length := by
    rw [length_pagesOf, Nat.one_le_div_iff (Nat.succ_pos _), List.length_cons]
    omega
  obtain ⟨rounds, hrounds⟩ := Nat.exists_eq_add_of_le' (show 2 ≤ maxPages.toNat by have := hf.enough; omega)
  obtain ⟨signature, hsigned⟩ := Option.isSome_iff_exists.mp (hf.signed raw List.mem_cons_self)
  have hpage := getTransactions_newest hf.answers
  rw [List.take_succ_cons] at hpage
  have hcursor : cursorOf (raw :: history.take size) = some signature := by
    rw [cursorOf, List.findSome?_cons, hsigned]
  intro h
  rw [syncWallet, hd, hrounds] at h
  simp only [hallowed, Bool.not_true, Bool.false_eq_true, if_false, syncPages, hpage, ok_bind, Json.asArray,
    Option.getD_some, reduceCtorEq, hcursor, false_or] at h
  obtain ⟨⟨db', counts⟩, hcounts, h⟩ := bind_eq_ok.mp h
  obtain ⟨pagesFetched, -, h⟩ := bind_eq_ok.mp h
  obtain ⟨transfersNew, -, h⟩ := bind_eq_ok.mp h
  obtain ⟨tradesNew, -, h⟩ := bind_eq_ok.mp h
  have hnew := ingestWebhook_new hsigned (fun row hrow heq =>
    hf.unstored raw List.mem_cons_self row hrow (hsigned.trans (congrArg some heq))) hcounts
  dsimp only at h hnew
  rw [if_neg (by omega)] at h
  cases h

/-- Of the histories that can be fetched, those without a transaction are. -/
theorem synced_iff (hf : Fetchable adapter request db workspaceId chain address history size maxPages) :
    Synced history size (syncWallet adapter request now address db workspaceId chain maxPages) ↔ history = [] := by
  refine ⟨fun h => ?_, fun h => ?_⟩
  · by_contra hhistory
    obtain ⟨s, hs, -⟩ := h
    exact syncWallet_page hf hhistory s hs
  · subst h
    obtain ⟨d, hd, hallowed⟩ := hf.allowed
    have hpages : pagesOf [] size = [] := by
      have hzero : (0 + size - 1) / size = 0 := Nat.div_eq_of_lt (by have := hf.size_pos; omega)
      rw [pagesOf, List.length_nil, hzero, List.range_zero, List.map_nil]
    have hpage := getTransactions_newest hf.answers
    rw [List.take_nil] at hpage
    obtain ⟨rounds, hrounds⟩ := Nat.exists_eq_add_of_le' (show 1 ≤ maxPages.toNat by have := hf.enough; omega)
    refine ⟨⟨db, [[]], ⟨0, 0, 0, true, false⟩⟩, ?_, rfl, ?_, fun t ht => absurd ht List.not_mem_nil⟩
    · rw [syncWallet, hd, hrounds]
      simp [hallowed, syncPages, hpage, ok_bind, Json.asArray]
    · rw [hpages]
      exact List.Perm.nil

end

/-! Two transactions, on a page each, of a wallet without a label. -/

def tx (signature : String) : Json := .object [("signature", .string signature)]
def emptyStore : Store := ⟨0, [], [], [], [], [], []⟩
def plainAdapter : Adapter := fun _ _ => .ok ⟨[], []⟩
def onePage : Json → Except String Json := fun _ => .ok (.array [tx "b"])

theorem twoPages_fetchable : Fetchable plainAdapter onePage emptyStore 1 .solana "wallet" [tx "b", tx "a"] 1 3 where
  signed := by simp [tx, Json.strAt, Json.get, Json.asStr]
  distinct := by simp [tx, Json.strAt, Json.get, Json.asStr]
  normalizable := fun _ _ _ => ⟨_, rfl⟩
  unstored := fun _ _ row hrow => absurd hrow List.not_mem_nil
  size_pos := le_rfl
  answers := fun before params h => by
    cases before with
    | none => rfl
    | some before => cases h
  enough := by decide
  allowed := ⟨.watch, rfl, rfl⟩

theorem twoPages_synced_iff : Synced [tx "b", tx "a"] 1
    (syncWallet plainAdapter onePage (fun _ => 0) "wallet" emptyStore 1 .solana 3) ↔ [tx "b", tx "a"] = [] :=
  synced_iff twoPages_fetchable

theorem sync_panics : ¬ ∀ (adapter : Adapter) (request : Json → Except String Json) (now : Nat → DateTime)
    (address : String)
    (db : Store) (workspaceId : Int) (chain : ChainKind) (history : List Json) (size : Nat) (maxPages : UInt32),
    Fetchable adapter request db workspaceId chain address history size maxPages →
      Synced history size (syncWallet adapter request now address db workspaceId chain maxPages) := by
  intro h
  obtain ⟨s, hs, -⟩ := h plainAdapter onePage (fun _ => 0) "wallet" emptyStore 1 .solana
    [tx "b", tx "a"] 1 3 twoPages_fetchable
  exact syncWallet_page twoPages_fetchable (List.cons_ne_nil _ _) s hs

end WhaleIntelligence.Helius
