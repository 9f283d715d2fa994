import Mathlib.Data.List.ReduceOption
import WhaleIntelligence.Chains.Amounts
import WhaleIntelligence.Lib.Fallible

/- What the loops of `normalize_block` push.

   A round of a loop adds at most one transfer, and which one does not depend on the
   transfers before it: only whether it is pushed does, through the set of seen pairs
   (`pushNative_eq`, `pushErc20_eq`). So the transfers of a block are the first of each
   pair among those of its transactions and then of its logs (`normalizeBlock_eq`). -/
namespace WhaleIntelligence.Chains
open WhaleIntelligence FirstWins Fallible

/-! ## A round -/

/-- The transfer that a round adds, if it adds one. -/
def collect (st : Seen) (o : Option NormalizedTransfer) : Seen := o.elim st (step NormalizedTransfer.seenKey st)

/-- What a round adds when nothing is seen. -/
def added (r : Except (Abort String) Seen) : Except (Abort String) (Option NormalizedTransfer) :=
  r.map fun st => st.1.head?

theorem pushNew_eq (st : Seen) {v : Nat} (hv : v < 2 ^ 64) {key : String × Int}
    {transfer : Decimal → NormalizedTransfer} (hkey : ∀ d, (transfer d).seenKey = key) :
    ∃ d, rawToDecimal (toString v) 18 = .ok d ∧
      pushNew st key (toString v) transfer = .ok (collect st (some (transfer d))) := by
  obtain ⟨d, hd⟩ := rawToDecimal_toString hv
  refine ⟨d, hd, ?_⟩
  rw [pushNew, collect, Option.elim_some, step, hkey]
  split
  · rfl
  · rw [hd]
    rfl

theorem pushNew_ok (st : Seen) {v : Nat} (hv : v < 2 ^ 64) {key : String × Int}
    {transfer : Decimal → NormalizedTransfer}
    (hkey : ∀ d, (transfer d).seenKey = key) : ∃ st', pushNew st key (toString v) transfer = .ok st' := by
  obtain ⟨d, -, hpush⟩ := pushNew_eq st hv hkey
  exact ⟨_, hpush⟩

/-- A new transfer is added to every state as it is to the empty one. -/
theorem pushNew_added (st : Seen) {v : Nat} (hv : v < 2 ^ 64) {key : String × Int}
    {transfer : Decimal → NormalizedTransfer} (hkey : ∀ d, (transfer d).seenKey = key) :
    pushNew st key (toString v) transfer = (added (pushNew ([], []) key (toString v) transfer)).map (collect st) := by
  obtain ⟨d, hd, hpush⟩ := pushNew_eq st hv hkey
  obtain ⟨d', hd', hempty⟩ := pushNew_eq ([], []) hv hkey
  obtain rfl : d = d' := Except.ok.inj (hd.symm.trans hd')
  rw [hpush, hempty]
  rfl

section
variable {slot : Nat} {blockTime : Option DateTime} {observedAt : DateTime}

variable (slot blockTime observedAt) in
/-- The transfer of a transaction. -/
def nativeOf (tx : Json) : Except (Abort String) (Option NormalizedTransfer) :=
  added (pushNative slot blockTime observedAt ([], []) tx)

variable (slot blockTime observedAt) in
/-- The transfer of a log of the receipt with this hash. -/
def erc20Of (log : String × Json × Nat) : Except (Abort String) (Option NormalizedTransfer) :=
  added (pushErc20 slot blockTime observedAt log.1 ([], []) log.2)

theorem pushNative_eq (st : Seen) (tx : Json) :
    pushNative slot blockTime observedAt st tx = (nativeOf slot blockTime observedAt tx).map (collect st) := by
  have hv := quantityOrZero_lt ((tx.strAt "value").getD "0x0")
  rw [nativeOf, pushNative, pushNative]
  split
  · rfl
  · split
    · rfl
    · exact pushNew_added st hv fun d => rfl

theorem pushErc20_eq (hash : String) (st : Seen) (log : Json × Nat) :
    pushErc20 slot blockTime observedAt hash st log =
      (erc20Of slot blockTime observedAt (hash, log)).map (collect st) := by
  have hv := quantityOrZero_lt ((log.1.strAt "data").getD "0x0")
  rw [erc20Of, pushErc20, pushErc20]
  dsimp only
  generalize (parseHexQuantity ((log.1.strAt "data").getD "0x0")).getD 0 = rawValue at hv ⊢
  split
  · split
    · rfl
    · rename_i t0 t1 t2 rest htopics htopic
      cases decodeTopicAddress (t1.asStr.getD "") with
      | error e => rfl
      | ok sender =>
        cases sender with
        | none => rfl
        | some sender =>
          cases decodeTopicAddress (t2.asStr.getD "") with
          | error e => rfl
          | ok receiver =>
            cases receiver with
            | none => rfl
            | some receiver =>
              show (if _ then _ else _) = Except.map (collect st) (added (if _ then _ else _))
              split
              · rfl
              · cases laterIndex log.2 with
                | none => rfl
                | some eventIndex =>
                  rw [orPanic, ok_bind, ok_bind]
                  apply pushNew_added st hv
                  intro d
                  rfl
  · rfl

/-! ## A block -/

/-- The logs of a receipt that has a transaction hash, each with that hash and its index. -/
def receiptLogs (receipt : Json) : List (String × Json × Nat) :=
  if (textAt receipt "transactionHash").isEmpty then []
  else ((receipt.arrayAt "logs").getD []).zipIdx.map fun log => (textAt receipt "transactionHash", log)

def logsOf (receipts : List Json) : List (String × Json × Nat) := receipts.flatMap receiptLogs

variable (slot blockTime observedAt) in
/-- A round of the loops over the receipts and their logs. -/
def pushLog (st : Seen) (log : String × Json × Nat) : Except (Abort String) Seen :=
  pushErc20 slot blockTime observedAt log.1 st log.2

theorem pushReceipt_eq (st : Seen) (receipt : Json) : pushReceipt slot blockTime observedAt st receipt =
    (receiptLogs receipt).foldlM (pushLog slot blockTime observedAt) st := by
  rw [pushReceipt, receiptLogs]
  by_cases hhash : (textAt receipt "transactionHash").isEmpty = true
  · rw [if_pos hhash, if_pos hhash]
    rfl
  · rw [if_neg hhash, if_neg hhash]
    cases receipt.arrayAt "logs" with
    | none => rfl
    | some logs =>
      rw [List.foldlM_map]
      rfl

/-- The two loops are one loop over all logs. -/
theorem foldlM_pushReceipt (receipts : List Json) (st : Seen) :
    receipts.foldlM (pushReceipt slot blockTime observedAt) st =
    (logsOf receipts).foldlM (pushLog slot blockTime observedAt) st := by
  induction receipts generalizing st with
  | nil => rfl
  | cons receipt receipts ih =>
    have hrest : (receipts.foldlM (pushReceipt slot blockTime observedAt) ·) =
        ((logsOf receipts).foldlM (pushLog slot blockTime observedAt) ·) := funext ih
    rw [List.foldlM_cons, pushReceipt_eq, logsOf, List.flatMap_cons, List.foldlM_append, ← logsOf, hrest]

/-- What the rounds add is what has a new pair. -/
theorem foldl_collect (os : List (Option NormalizedTransfer)) (st : Seen) :
    os.foldl collect st = os.reduceOption.foldl (step NormalizedTransfer.seenKey) st := by
  induction os generalizing st with
  | nil => rfl
  | cons o os ih =>
    cases o with
    | none => exact ih st
    | some t =>
      exact ih _

/-- The time of a block. -/
def timeOf (x : ChainCrates) (block : Json) : Option DateTime :=
  ((block.strAt "timestamp").bind parseHexQuantity).bind fun ts =>
    x.fromTimestamp ((ts : Int).bmod 18446744073709551616)

/-- The transfers of a block with a number: what its rounds add, without those
whose pair was seen before. -/
theorem normalizeBlock_eq (x : ChainCrates) (block : Json) (receipts : List Json) (h : blockNumber block = some slot) :
    normalizeBlock x block receipts observedAt = (do
      let natives ← ((block.arrayAt "transactions").getD []).mapM (nativeOf slot (timeOf x block) observedAt)
      let logs ← (logsOf receipts).mapM (erc20Of slot (timeOf x block) observedAt)
      return { transfers := firstWins NormalizedTransfer.seenKey (natives ++ logs).reduceOption, trades := [] }) := by
  have hlog : ∀ st log, pushLog slot (timeOf x block) observedAt st log =
      (erc20Of slot (timeOf x block) observedAt log).map (collect st) := fun st log => pushErc20_eq log.1 st log.2
  rw [normalizeBlock, h]
  show (do
    let natives ← ((block.arrayAt "transactions").getD []).foldlM (pushNative slot (timeOf x block) observedAt) ([], [])
    let all ← receipts.foldlM (pushReceipt slot (timeOf x block) observedAt) natives
    return ({ transfers := all.1, trades := [] } : NormalizedEvents)) = _
  simp only [foldlM_pushReceipt, foldlM_eq_mapM pushNative_eq, foldlM_eq_mapM hlog]
  cases ((block.arrayAt "transactions").getD []).mapM (nativeOf slot (timeOf x block) observedAt) with
  | error e => rfl
  | ok natives =>
    cases (logsOf receipts).mapM (erc20Of slot (timeOf x block) observedAt) with
    | error e => rfl
    | ok logs =>
      show Except.ok _ = Except.ok _
      rw [firstWins, List.reduceOption_append, List.foldl_append, ← foldl_collect, ← foldl_collect]

end

end WhaleIntelligence.Chains
