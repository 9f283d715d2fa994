import WhaleIntelligence.Chains.Panics

/- Whether a block's transfers are all there.

   A value is read as a `u64`, and one that does not fit counts as nothing, so a
   transaction or a log of `2^64` wei or more leaves no transfer. Everything below is
   kept: the pairs of a hash and an index tell the transactions and logs apart
   (`native_kept`, `erc20_kept`). -/
namespace WhaleIntelligence.Chains
open WhaleIntelligence FirstWins Fallible

/-! ## What should be there -/

/-- The transactions of a block. -/
def transactionsOf (block : Json) : List Json := (block.arrayAt "transactions").getD []

/-- A transaction of the block with a hash of its own, two addresses, and a value of
so many wei. -/
structure NativeTx (block tx : Json) (v : Nat) : Prop where
  distinct : ∃ pre post, transactionsOf block = pre ++ tx :: post ∧
    ∀ other ∈ pre ++ post, textAt other "hash" ≠ textAt tx "hash"
  hash : textAt tx "hash" ≠ ""
  sender : isErr (validateEvmAddress (textAt tx "from")) = false
  receiver : isErr (validateEvmAddress (textAt tx "to")) = false
  value : ∃ s, tx.strAt "value" = some s ∧ Quantity s v
  pos : 0 < v
  bounded : v < 2 ^ 256

/-- A log, at an index of a receipt with a hash of its own, that transfers so many units. -/
structure Erc20Log (receipts : List Json) (receipt log : Json) (index v : Nat) : Prop where
  distinct : ∃ pre post, receipts = pre ++ receipt :: post ∧
    ∀ other ∈ pre ++ post, textAt other "transactionHash" ≠ textAt receipt "transactionHash"
  hash : textAt receipt "transactionHash" ≠ ""
  listed : ∃ logs, receipt.arrayAt "logs" = some logs ∧ logs[index]? = some log
  topics : ∃ t0 t1 t2, log.arrayAt "topics" = some [t0, t1, t2] ∧
    toAsciiLowercase (t0.asStr.getD "") = ERC20_TRANSFER_TOPIC ∧
    (∃ sender, decodeTopicAddress (t1.asStr.getD "") = .ok (some sender)) ∧
    ∃ receiver, decodeTopicAddress (t2.asStr.getD "") = .ok (some receiver)
  address : textAt log "address" ≠ ""
  data : ∃ s, log.strAt "data" = some s ∧ Quantity s v ∧ s.toList.length = 66
  pos : 0 < v
  bounded : v < 2 ^ 256

/-- The transfer of a transaction. -/
structure IsNative (tx : Json) (v : Nat) (t : NormalizedTransfer) : Prop where
  chain : t.chain = .robinhood
  signature : t.signature = textAt tx "hash"
  eventIndex : t.eventIndex = 0
  sender : t.fromAddress = toAsciiLowercase (textAt tx "from")
  receiver : t.toAddress = toAsciiLowercase (textAt tx "to")
  kind : t.assetKind = .native
  rawAmount : t.rawAmount = toString v

/-- The text of a topic of a log. -/
def topicAt (log : Json) (n : Nat) : String := ((((log.arrayAt "topics").getD [])[n]?).bind Json.asStr).getD ""

/-- The transfer of a log, at its index of the receipt with this hash. -/
structure IsErc20 (hash : String) (log : Json) (index v : Nat) (t : NormalizedTransfer) : Prop where
  chain : t.chain = .robinhood
  signature : t.signature = hash
  eventIndex : laterIndex index = some t.eventIndex
  sender : t.fromAddress = topicAddress (topicAt log 1)
  receiver : t.toAddress = topicAddress (topicAt log 2)
  kind : t.assetKind = .erc20
  mint : t.mint = toAsciiLowercase (textAt log "address")
  rawAmount : t.rawAmount = toString v

/-- The text of a value is read as so many units, and not as nothing. -/
def ReadAs (text : Option String) (v : Nat) : Prop := (∃ s, text = some s ∧ parseHexQuantity s = some v) ∧ 0 < v

/-- The block normalizes to one transfer for each of its transactions and logs, and to no
other: no two transfers have the same hash and index, and each is the transfer of a
transaction, at its hash and zero, or of a log, at its hash and index, of its own value. -/
structure Lossless (block : Json) (receipts : List Json) (events : NormalizedEvents) : Prop where
  natives : ∀ tx v, NativeTx block tx v → ∃ t,
    (events.transfers.filter fun u => u.seenKey = (textAt tx "hash", 0)) = [t] ∧ IsNative tx v t
  erc20s : ∀ receipt log index v, Erc20Log receipts receipt log index v → ∃ t,
    (events.transfers.filter fun u => u.seenKey = (textAt receipt "transactionHash", 1000000 + (index : Int))) = [t] ∧
      IsErc20 (textAt receipt "transactionHash") log index v t
  keys : (events.transfers.map NormalizedTransfer.seenKey).Nodup
  others : ∀ t ∈ events.transfers,
    (∃ tx ∈ transactionsOf block, ∃ v, ReadAs (tx.strAt "value") v ∧ IsNative tx v t) ∨
    ∃ log ∈ logsOf receipts, ∃ v, ReadAs (log.2.1.strAt "data") v ∧ IsErc20 log.1 log.2.1 log.2.2 v t

/-! ## What a round returns -/

section
variable {slot : Nat} {blockTime : Option DateTime} {observedAt : DateTime}

theorem added_pushNew_isSome {v : Nat} (hv : v < 2 ^ 64) {key : String × Int}
    {transfer : Decimal → NormalizedTransfer} :
    ∃ t, added (pushNew ([], []) key (toString v) transfer) = .ok (some t) := by
  obtain ⟨d, hd⟩ := rawToDecimal_toString hv
  refine ⟨transfer d, ?_⟩
  rw [pushNew, if_neg List.not_mem_nil, hd]
  rfl

theorem eq_of_added_pushNew {v : Nat} (hv : v < 2 ^ 64) {key : String × Int} {transfer : Decimal → NormalizedTransfer}
    {t : NormalizedTransfer} (h : added (pushNew ([], []) key (toString v) transfer) = .ok (some t)) :
    ∃ d, t = transfer d := by
  obtain ⟨d, hd⟩ := rawToDecimal_toString hv
  rw [pushNew, if_neg List.not_mem_nil, hd] at h
  exact ⟨d, (Option.some.inj (Except.ok.inj h)).symm⟩

/-- The value that a transaction transfers. -/
def valueOf (tx : Json) : Nat := (parseHexQuantity ((tx.strAt "value").getD "0x0")).getD 0

theorem valueOf_lt (tx : Json) : valueOf tx < 2 ^ 64 := quantityOrZero_lt _

/-- What a transaction returns is its transfer. -/
theorem nativeOf_some {tx : Json} {t : NormalizedTransfer} (h : nativeOf slot blockTime observedAt tx = .ok (some t)) :
    IsNative tx (valueOf tx) t := by
  rw [nativeOf, pushNative, ← valueOf] at h
  split at h
  · cases h
  · split at h
    · cases h
    · obtain ⟨d, rfl⟩ := eq_of_added_pushNew (valueOf_lt tx) h
      exact ⟨rfl, rfl, rfl, rfl, rfl, rfl, rfl⟩

/-- What reads as more than nothing is a text that is read so. -/
theorem readAs_of_pos {text : Option String} (h : 0 < (parseHexQuantity (text.getD "0x0")).getD 0) :
    ReadAs text ((parseHexQuantity (text.getD "0x0")).getD 0) := by
  refine ⟨?_, h⟩
  cases text with
  | none => exact absurd h (by decide)
  | some s =>
    refine ⟨s, rfl, ?_⟩
    rw [Option.getD_some] at h ⊢
    cases hread : parseHexQuantity s with
    | none =>
      rw [hread] at h
      cases h
    | some v => rfl

theorem nativeOf_readAs {tx : Json} {t : NormalizedTransfer}
    (h : nativeOf slot blockTime observedAt tx = .ok (some t)) : ReadAs (tx.strAt "value") (valueOf tx) := by
  have hpos : 0 < valueOf tx := by
    rw [nativeOf, pushNative, ← valueOf] at h
    split at h
    · cases h
    · rename_i hgo
      exact Nat.pos_of_ne_zero fun hzero => hgo (by simp [hzero])
  exact readAs_of_pos hpos

theorem nativeOf_isSome {tx : Json} (hhash : textAt tx "hash" ≠ "")
    (hsender : isErr (validateEvmAddress (textAt tx "from")) = false)
    (hreceiver : isErr (validateEvmAddress (textAt tx "to")) = false) (hpos : 0 < valueOf tx) :
    ∃ t, nativeOf slot blockTime observedAt tx = .ok (some t) := by
  have hvalid : ∀ address, isErr (validateEvmAddress address) = false → address ≠ "" := by
    rintro _ h rfl
    revert h
    decide
  have hempty : ¬ ((textAt tx "hash").isEmpty || (textAt tx "from").isEmpty || (textAt tx "to").isEmpty ||
      valueOf tx == 0) = true := by
    simp [hhash, hvalid _ hsender, hvalid _ hreceiver, hpos.ne']
  rw [nativeOf, pushNative, ← valueOf, if_neg hempty, if_neg (by simp [hsender, hreceiver])]
  exact added_pushNew_isSome (valueOf_lt tx)

/-- What a log returns is its transfer, at the index of the log. -/
theorem erc20Of_some {log : String × Json × Nat} {t : NormalizedTransfer}
    (h : erc20Of slot blockTime observedAt log = .ok (some t)) :
    IsErc20 log.1 log.2.1 log.2.2 (logValue log.2.1) t ∧ ReadAs (log.2.1.strAt "data") (logValue log.2.1) := by
  rw [erc20Of, pushErc20] at h
  split at h
  · rename_i t0 t1 t2 rest htopics
    have hsecond : topicAt log.2.1 1 = t1.asStr.getD "" := by rw [topicAt, htopics]; rfl
    have hthird : topicAt log.2.1 2 = t2.asStr.getD "" := by rw [topicAt, htopics]; rfl
    split at h
    · cases h
    · rw [← hsecond, ← hthird, ← logValue] at h
      cases hs : decodeTopicAddress (topicAt log.2.1 1) with
      | error e =>
        rw [hs] at h
        cases h
      | ok sender =>
        cases sender with
        | none =>
          rw [hs] at h
          cases h
        | some sender =>
          cases hr : decodeTopicAddress (topicAt log.2.1 2) with
          | error e =>
            rw [hs, hr] at h
            cases h
          | ok receiver =>
            cases receiver with
            | none =>
              rw [hs, hr] at h
              cases h
            | some receiver =>
              rw [hs, hr, ok_bind] at h
              dsimp only at h
              rw [ok_bind] at h
              dsimp only at h
              split at h
              · cases h
              · rename_i hgo
                have hpos : 0 < logValue log.2.1 := Nat.pos_of_ne_zero fun hzero => hgo (by simp [hzero])
                cases hindex : laterIndex log.2.2 with
                | none =>
                  rw [hindex, orPanic, error_bind] at h
                  cases h
                | some index =>
                  rw [hindex, orPanic, ok_bind] at h
                  obtain ⟨d, rfl⟩ := eq_of_added_pushNew (logValue_lt log.2.1) h
                  exact ⟨⟨rfl, rfl, hindex, eq_topicAddress hs, eq_topicAddress hr, rfl, rfl, rfl⟩,
                    readAs_of_pos hpos⟩
  · cases h

theorem erc20Of_isSome {log : String × Json × Nat} {t0 t1 t2 : Json} {rest : List Json} {sender receiver : String}
    (htopics : log.2.1.arrayAt "topics" = some (t0 :: t1 :: t2 :: rest))
    (htopic : toAsciiLowercase (t0.asStr.getD "") = ERC20_TRANSFER_TOPIC)
    (hsender : decodeTopicAddress (t1.asStr.getD "") = .ok (some sender))
    (hreceiver : decodeTopicAddress (t2.asStr.getD "") = .ok (some receiver)) (haddress : textAt log.2.1 "address" ≠ "")
    (hpos : 0 < logValue log.2.1) (hindex : laterIndex log.2.2 ≠ none) :
    ∃ t, erc20Of slot blockTime observedAt log = .ok (some t) := by
  have hempty : ¬ (logValue log.2.1 == 0 || (toAsciiLowercase (textAt log.2.1 "address")).isEmpty) = true := by
    rw [Bool.or_eq_true, beq_iff_eq, isEmpty_toAsciiLowercase]
    exact fun h => h.elim hpos.ne' haddress
  obtain ⟨index, hindex⟩ := Option.ne_none_iff_exists'.mp hindex
  rw [erc20Of, pushErc20, htopics]
  dsimp only
  rw [if_neg (not_not.mpr htopic), hsender, ok_bind, hreceiver]
  dsimp only
  rw [ok_bind, ← logValue]
  dsimp only
  rw [if_neg hempty, hindex, orPanic, ok_bind]
  exact added_pushNew_isSome (logValue_lt log.2.1)

/-! ## Indices -/

theorem laterIndex_eq {index : Nat} (h : index < 2 ^ 31 - 1000000) :
    laterIndex index = some (1000000 + (index : Int)) := by
  have hcast : asI32 index = index := by
    rw [asI32, Int.bmod_def]
    split <;> omega
  rw [laterIndex, hcast, if_pos (by omega)]

theorem laterIndex_lt {index : Nat} {n : Int} (h : laterIndex index = some n) : n < 2 ^ 31 := by
  rw [laterIndex] at h
  split at h
  · obtain rfl := Option.some.inj h
    omega
  · cases h

/-! ## What is kept -/

/-- The transfers of a transaction with a hash of its own start with its transfer. -/
theorem native_kept {block tx : Json} {v : Nat} {natives : List (Option NormalizedTransfer)}
    (hnatives : (transactionsOf block).mapM (nativeOf slot blockTime observedAt) = .ok natives)
    (h : NativeTx block tx v) (hv : v < 2 ^ 64) : ∃ t, IsNative tx v t ∧
      natives.reduceOption.find? (fun u => u.seenKey = (textAt tx "hash", 0)) = some t := by
  obtain ⟨s, hs, hquantity⟩ := h.value
  have hvalue : valueOf tx = v := by
    rw [valueOf, hs, Option.getD_some, parseHexQuantity_quantity hquantity, if_pos hv, Option.getD_some]
  have hsome : ∃ t, nativeOf slot blockTime observedAt tx = .ok (some t) :=
    nativeOf_isSome h.hash h.sender h.receiver (hvalue ▸ h.pos)
  obtain ⟨t, ht⟩ := hsome
  have hnative := hvalue ▸ nativeOf_some ht
  obtain ⟨pre, post, hsplit, hothers⟩ := h.distinct
  rw [hsplit] at hnatives
  refine ⟨t, hnative, find?_reduceOption_mapM hnatives ht ?_ fun other hother u hu => ?_⟩
  · rw [decide_eq_true_eq, NormalizedTransfer.seenKey, hnative.signature, hnative.eventIndex]
  · have hne := hothers other (List.mem_append_left _ hother)
    rw [decide_eq_false_iff_not, NormalizedTransfer.seenKey, (nativeOf_some hu).signature]
    exact fun heq => hne (Prod.mk.inj heq).1

/-- The logs before a log are of other receipts, or at smaller indices of its own. -/
theorem logsOf_split {receipts : List Json} {receipt log : Json} {index v : Nat}
    (h : Erc20Log receipts receipt log index v) : ∃ pre post,
      logsOf receipts = pre ++ (textAt receipt "transactionHash", log, index) :: post ∧
      ∀ l ∈ pre, l.1 = textAt receipt "transactionHash" → l.2.2 < index := by
  obtain ⟨pre, post, rfl, hothers⟩ := h.distinct
  obtain ⟨logs, hlogs, hlog⟩ := h.listed
  have hlt : index < logs.length := (List.getElem?_eq_some_iff.mp hlog).1
  have hsplit : logs = logs.take index ++ log :: logs.drop (index + 1) := by
    rw [← (List.getElem?_eq_some_iff.mp hlog).2, ← List.drop_eq_getElem_cons hlt, List.take_append_drop]
  have hempty : ¬ (textAt receipt "transactionHash").isEmpty = true := by
    rw [String.isEmpty_iff]
    exact h.hash
  have hown : receiptLogs receipt = (logs.take index).zipIdx.map (fun l => (textAt receipt "transactionHash", l)) ++
      (textAt receipt "transactionHash", log, index) ::
        ((logs.drop (index + 1)).zipIdx (index + 1)).map (fun l => (textAt receipt "transactionHash", l)) := by
    rw [receiptLogs, if_neg hempty, hlogs, Option.getD_some]
    conv_lhs => rw [hsplit]
    rw [List.zipIdx_append, List.zipIdx_cons, List.length_take_of_le hlt.le, Nat.zero_add, List.map_append,
      List.map_cons]
  refine ⟨logsOf pre ++ (logs.take index).zipIdx.map (fun l => (textAt receipt "transactionHash", l)),
    ((logs.drop (index + 1)).zipIdx (index + 1)).map (fun l => (textAt receipt "transactionHash", l)) ++ logsOf post,
    ?_, fun l hl hhash => ?_⟩
  · rw [logsOf, List.flatMap_append, List.flatMap_cons, hown, ← logsOf, ← logsOf]
    simp only [List.append_assoc, List.cons_append]
  · obtain hl | hl := List.mem_append.mp hl
    · -- a log of another receipt has another hash
      obtain ⟨other, hother, hl⟩ := List.mem_flatMap.mp hl
      rw [receiptLogs] at hl
      split at hl
      · cases hl
      · obtain ⟨l', -, rfl⟩ := List.mem_map.mp hl
        exact absurd hhash (hothers other (List.mem_append_left _ hother))
    · obtain ⟨l', hl', rfl⟩ := List.mem_map.mp hl
      have hrange := (List.mem_zipIdx' hl').1
      rw [List.length_take_of_le hlt.le] at hrange
      exact hrange

theorem erc20_kept {receipts : List Json} {receipt log : Json} {index v : Nat} {logs : List (Option NormalizedTransfer)}
    (hlogs : (logsOf receipts).mapM (erc20Of slot blockTime observedAt) = .ok logs)
    (h : Erc20Log receipts receipt log index v) (hv : v < 2 ^ 64) (hindex : index < 2 ^ 31 - 1000000) : ∃ t,
      IsErc20 (textAt receipt "transactionHash") log index v t ∧
      logs.reduceOption.find? (fun u => u.seenKey = (textAt receipt "transactionHash", 1000000 + (index : Int))) =
        some t := by
  obtain ⟨s, hs, hquantity, -⟩ := h.data
  obtain ⟨t0, t1, t2, htopics, htopic, ⟨sender, hsender⟩, receiver, hreceiver⟩ := h.topics
  have hvalue : logValue log = v := by
    rw [logValue, hs, Option.getD_some, parseHexQuantity_quantity hquantity, if_pos hv, Option.getD_some]
  have hlater := laterIndex_eq hindex
  have hsome : ∃ t, erc20Of slot blockTime observedAt (textAt receipt "transactionHash", log, index) = .ok (some t) :=
    erc20Of_isSome htopics htopic hsender hreceiver h.address (hvalue ▸ h.pos)
      (by rw [hlater]; exact Option.some_ne_none _)
  obtain ⟨t, ht⟩ := hsome
  have herc20 := (erc20Of_some ht).1
  obtain ⟨pre, post, hsplit, hbefore⟩ := logsOf_split h
  rw [hsplit] at hlogs
  refine ⟨t, hvalue ▸ herc20, find?_reduceOption_mapM hlogs ht ?_ fun l hl u hu => ?_⟩
  · have heventIndex := herc20.eventIndex
    rw [hlater, Option.some.injEq] at heventIndex
    rw [decide_eq_true_eq, NormalizedTransfer.seenKey, herc20.signature, ← heventIndex]
  · -- an earlier log of the receipt has an earlier index
    have hother := (erc20Of_some hu).1
    have hindex' := hother.eventIndex
    rw [decide_eq_false_iff_not, NormalizedTransfer.seenKey, hother.signature]
    intro heq
    have hlt := hbefore l hl (Prod.mk.inj heq).1
    rw [laterIndex_eq (by omega), Option.some.injEq] at hindex'
    have hsame := (Prod.mk.inj heq).2
    omega

/-- What a block normalizes to, and the transfers that its loops return. -/
theorem normalizeBlock_ok {x : ChainCrates} {block : Json} {receipts : List Json} {events : NormalizedEvents}
    (hnumber : blockNumber block = some slot) (h : normalizeBlock x block receipts observedAt = .ok events) :
    ∃ natives logs, (transactionsOf block).mapM (nativeOf slot (timeOf x block) observedAt) = .ok natives ∧
      (logsOf receipts).mapM (erc20Of slot (timeOf x block) observedAt) = .ok logs ∧
      events.transfers = firstWins NormalizedTransfer.seenKey (natives.reduceOption ++ logs.reduceOption) := by
  rw [normalizeBlock_eq x block receipts hnumber, ← transactionsOf] at h
  cases hnatives : (transactionsOf block).mapM (nativeOf slot (timeOf x block) observedAt) with
  | error e =>
    rw [hnatives, error_bind] at h
    cases h
  | ok natives =>
    rw [hnatives, ok_bind] at h
    cases hlogs : (logsOf receipts).mapM (erc20Of slot (timeOf x block) observedAt) with
    | error e =>
      rw [hlogs, error_bind] at h
      cases h
    | ok logs =>
      rw [hlogs, ok_bind] at h
      refine ⟨natives, logs, rfl, rfl, ?_⟩
      rw [← Except.ok.inj h, List.reduceOption_append]

end

section
variable {x : ChainCrates} {block : Json} {receipts : List Json} {observedAt : DateTime}

/-- What is kept without a loss has been read as `u64`, and its index as `i32`. -/
theorem Lossless.bounded {events : NormalizedEvents} (hlossless : Lossless block receipts events)
    (hevents : normalizeBlock x block receipts observedAt = .ok events) (hnumber : (blockNumber block).isSome) :
    (∀ tx v, NativeTx block tx v → v < 2 ^ 64) ∧
      ∀ receipt log index v, Erc20Log receipts receipt log index v → v < 2 ^ 64 ∧ index < 2 ^ 31 - 1000000 := by
  obtain ⟨slot, hslot⟩ := Option.isSome_iff_exists.mp hnumber
  obtain ⟨natives, logs, hnatives, hlogs, htransfers⟩ := normalizeBlock_ok hslot hevents
  -- each transfer is of a transaction or of a log
  have hmem : ∀ {k t}, (events.transfers.filter fun u => u.seenKey = k) = [t] → t.seenKey = k ∧
      (t ∈ natives.reduceOption ∨ t ∈ logs.reduceOption) := by
    intro k t hfilter
    have ht : t ∈ events.transfers.filter fun u => u.seenKey = k := by rw [hfilter]; exact List.mem_cons_self
    obtain ⟨ht, hkey⟩ := List.mem_filter.mp ht
    rw [htransfers] at ht
    exact ⟨of_decide_eq_true hkey, List.mem_append.mp (mem_of_mem_firstWins _ ht)⟩
  refine ⟨fun tx v htx => ?_, fun receipt log index v hlog => ?_⟩
  · obtain ⟨t, hfilter, hnative⟩ := hlossless.natives tx v htx
    obtain ⟨-, ht | ht⟩ := hmem hfilter
    · obtain ⟨tx', -, htx'⟩ := (mem_reduceOption_mapM hnatives).mp ht
      have hvalue : v = valueOf tx' := repr_injective (hnative.rawAmount.symm.trans (nativeOf_some htx').rawAmount)
      exact hvalue ▸ valueOf_lt tx'
    · obtain ⟨log, -, hlog⟩ := (mem_reduceOption_mapM hlogs).mp ht
      have hkind := hnative.kind.symm.trans (erc20Of_some hlog).1.kind
      cases hkind
  · obtain ⟨t, hfilter, herc20⟩ := hlossless.erc20s receipt log index v hlog
    obtain ⟨hkey, ht | ht⟩ := hmem hfilter
    · obtain ⟨tx', -, htx'⟩ := (mem_reduceOption_mapM hnatives).mp ht
      have hkind := herc20.kind.symm.trans (nativeOf_some htx').kind
      cases hkind
    · obtain ⟨log', -, hlog'⟩ := (mem_reduceOption_mapM hlogs).mp ht
      have hother := (erc20Of_some hlog').1
      have hvalue : v = logValue log'.2.1 := repr_injective (herc20.rawAmount.symm.trans hother.rawAmount)
      have hlt := laterIndex_lt hother.eventIndex
      have hsame : t.eventIndex = 1000000 + (index : Int) := (Prod.mk.inj hkey).2
      exact ⟨hvalue ▸ logValue_lt log'.2.1, by omega⟩

/-- A block none of whose logs panics is the transfers that the rounds of its loops return. -/
theorem normalizeBlock_isOk {slot : Nat} (hnumber : blockNumber block = some slot)
    (hpanics : ∀ log ∈ logsOf receipts, ¬ LogPanics log) :
    ∃ natives logs, (transactionsOf block).mapM (nativeOf slot (timeOf x block) observedAt) = .ok natives ∧
      (logsOf receipts).mapM (erc20Of slot (timeOf x block) observedAt) = .ok logs ∧
      normalizeBlock x block receipts observedAt = .ok
        { transfers := firstWins NormalizedTransfer.seenKey (natives.reduceOption ++ logs.reduceOption),
          trades := [] } := by
  have hnative : ∀ tx ∈ transactionsOf block, ∃ o, nativeOf slot (timeOf x block) observedAt tx = .ok o :=
    fun tx _ => nativeOf_ok tx
  have herc20 : ∀ log ∈ logsOf receipts, ∃ o, erc20Of slot (timeOf x block) observedAt log = .ok o :=
    fun log hlog => (erc20Of_panic_iff log).isOk (hpanics log hlog)
  obtain ⟨natives, hnatives⟩ := mapM_ok_of_forall hnative
  obtain ⟨logs, hlogs⟩ := mapM_ok_of_forall herc20
  refine ⟨natives, logs, hnatives, hlogs, ?_⟩
  rw [normalizeBlock_eq x block receipts hnumber, ← transactionsOf, hnatives, ok_bind, hlogs, ok_bind,
    List.reduceOption_append]
  rfl

/-- The transfers of the loops have every transaction and every log whose values can be read. -/
theorem lossless_of_bounded {slot : Nat} {natives logs : List (Option NormalizedTransfer)}
    (hnatives : (transactionsOf block).mapM (nativeOf slot (timeOf x block) observedAt) = .ok natives)
    (hlogs : (logsOf receipts).mapM (erc20Of slot (timeOf x block) observedAt) = .ok logs)
    (hnativeValues : ∀ tx v, NativeTx block tx v → v < 2 ^ 64)
    (hlogValues : ∀ receipt log index v, Erc20Log receipts receipt log index v →
      v < 2 ^ 64 ∧ index < 2 ^ 31 - 1000000) : Lossless block receipts
        { transfers := firstWins NormalizedTransfer.seenKey (natives.reduceOption ++ logs.reduceOption),
          trades := [] } := by
  refine ⟨fun tx v htx => ?_, fun receipt log index v hlog => ?_, firstWins_keys_nodup _ _, fun t ht => ?_⟩
  · obtain ⟨t, hnative, hfind⟩ := native_kept hnatives htx (hnativeValues tx v htx)
    refine ⟨t, ?_, hnative⟩
    rw [filter_firstWins, List.find?_append, hfind, Option.some_or, Option.toList_some]
  · obtain ⟨hv, hindex⟩ := hlogValues receipt log index v hlog
    obtain ⟨t, herc20, hfind⟩ := erc20_kept hlogs hlog hv hindex
    -- the index of a transaction is zero
    have hnone : natives.reduceOption.find?
        (fun u => u.seenKey = (textAt receipt "transactionHash", 1000000 + (index : Int))) = none := by
      rw [List.find?_eq_none]
      intro u hu hkey
      obtain ⟨tx, -, htx⟩ := (mem_reduceOption_mapM hnatives).mp hu
      have hzero := (nativeOf_some htx).eventIndex
      have hsame : u.eventIndex = 1000000 + (index : Int) := (Prod.mk.inj (of_decide_eq_true hkey)).2
      omega
    refine ⟨t, ?_, herc20⟩
    rw [filter_firstWins, List.find?_append, hnone, Option.none_or, hfind, Option.toList_some]
  · obtain ht | ht := List.mem_append.mp (mem_of_mem_firstWins _ ht)
    · obtain ⟨tx, hmem, htx⟩ := (mem_reduceOption_mapM hnatives).mp ht
      exact Or.inl ⟨tx, hmem, _, nativeOf_readAs htx, nativeOf_some htx⟩
    · obtain ⟨log, hmem, hlog⟩ := (mem_reduceOption_mapM hlogs).mp ht
      obtain ⟨herc20, hread⟩ := erc20Of_some hlog
      exact Or.inr ⟨log, hmem, _, hread, herc20⟩

end

/-- A block is normalized without a loss exactly where no log panics, and the values of its transactions
and logs are below `2^64`, and the indices of its logs are not too large. -/
theorem normalizeBlock_lossless_iff (x : ChainCrates) (block : Json) (receipts : List Json) (observedAt : DateTime)
    (hnumber : (blockNumber block).isSome) :
    (∃ events, normalizeBlock x block receipts observedAt = .ok events ∧ Lossless block receipts events) ↔
      (∀ log ∈ logsOf receipts, ¬ LogPanics log) ∧ (∀ tx v, NativeTx block tx v → v < 2 ^ 64) ∧
        ∀ receipt log index v, Erc20Log receipts receipt log index v → v < 2 ^ 64 ∧ index < 2 ^ 31 - 1000000 := by
  refine ⟨fun h => ?_, fun h => ?_⟩
  · obtain ⟨events, hevents, hlossless⟩ := h
    have hreturns : normalizeBlock x block receipts observedAt ≠ .error .panic := by
      rw [hevents]
      exact fun h => by cases h
    exact ⟨(normalizeBlock_panic_iff x block receipts observedAt).mp hreturns hnumber,
      hlossless.bounded hevents hnumber⟩
  · obtain ⟨hpanics, hnativeValues, hlogValues⟩ := h
    obtain ⟨slot, hslot⟩ := Option.isSome_iff_exists.mp hnumber
    obtain ⟨natives, logs, hnatives, hlogs, hevents⟩ := normalizeBlock_isOk hslot hpanics
    exact ⟨_, hevents, lossless_of_bounded hnatives hlogs hnativeValues hlogValues⟩

/-! ## A block of one transaction -/

def oneTx (value : String) : Json := .object [("hash", .string "0xh"),
  ("from", .string "0x00000000000000000000000000000000000000Aa"),
  ("to", .string "0x00000000000000000000000000000000000000Bb"), ("value", .string value)]

def oneTxBlock (value : String) : Json := .object [("number", .string "0x1"), ("transactions", .array [oneTx value])]

theorem oneTx_lossless : ∃ events, normalizeBlock systemCrates (oneTxBlock "0x5") [] 0 = .ok events ∧
    Lossless (oneTxBlock "0x5") [] events := by
  refine (normalizeBlock_lossless_iff systemCrates (oneTxBlock "0x5") [] 0 rfl).mpr
    ⟨fun log hlog => absurd hlog List.not_mem_nil, fun tx v htx => ?_, fun receipt log index v hlog => ?_⟩
  · -- the only transaction is of five wei
    obtain ⟨pre, post, hsplit, -⟩ := htx.distinct
    have hmem : tx ∈ transactionsOf (oneTxBlock "0x5") := by
      rw [hsplit]
      exact List.mem_append_right _ List.mem_cons_self
    have htx' : tx = oneTx "0x5" := List.mem_singleton.mp hmem
    obtain ⟨s, hs, hquantity⟩ := htx.value
    rw [htx'] at hs
    obtain rfl : "0x5" = s := Option.some.inj hs
    have hread := parseHexQuantity_quantity hquantity
    by_contra hlarge
    rw [if_neg hlarge] at hread
    revert hread
    decide
  · obtain ⟨pre, post, hsplit, -⟩ := hlog.distinct
    exact absurd hsplit.symm (List.append_ne_nil_of_right_ne_nil _ (List.cons_ne_nil _ _))

/-- A transaction of `2^64` wei is lost. -/
theorem largeTx_lost : NativeTx (oneTxBlock "0x10000000000000000") (oneTx "0x10000000000000000") (2 ^ 64) ∧
    normalizeBlock systemCrates (oneTxBlock "0x10000000000000000") [] 0 = .ok ⟨[], []⟩ ∧
    ¬ Lossless (oneTxBlock "0x10000000000000000") [] ⟨[], []⟩ := by
  have htx : NativeTx (oneTxBlock "0x10000000000000000") (oneTx "0x10000000000000000") (2 ^ 64) := by
    refine ⟨⟨[], [], rfl, fun other hother => absurd hother List.not_mem_nil⟩, by decide, by decide, by decide,
      ⟨_, rfl, "10000000000000000".toList, Or.inl rfl, by decide, by decide⟩, by decide, by decide⟩
  refine ⟨htx, by decide +kernel, fun h => ?_⟩
  obtain ⟨t, hfilter, -⟩ := h.natives _ _ htx
  cases hfilter

end WhaleIntelligence.Chains
