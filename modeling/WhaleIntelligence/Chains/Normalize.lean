import WhaleIntelligence.Chains.Hex
import WhaleIntelligence.Json
import WhaleIntelligence.Lib.FirstWins
import WhaleIntelligence.Models

/- `chains`: the normalizers of provider payloads.

   A payload is any JSON value. What is malformed in it is skipped, an error, or, where
   the code multiplies, adds or slices without a check, a panic. An addition of `i32`
   panics where it overflows, as it does in a build that checks; a cast wraps in every
   build. -/
namespace WhaleIntelligence.Chains
open WhaleIntelligence FixedPoint Framing FirstWins

/-! ## Decimals -/

/-- `rust_decimal::Decimal`: a coefficient of 96 bits, a scale up to 28. -/
abbrev Decimal : Type := Fixed (2 ^ 96) 28

def Decimal.one : Decimal := ⟨1, 0, by decide, by decide⟩
def Decimal.ten : Decimal := ⟨10, 0, by decide, by decide⟩

/-- `ten_pow`, `none` where a multiplication overflows. -/
def tenPow : Nat → Option Decimal
  | 0 => some Decimal.one
  | decimals + 1 => (tenPow decimals).bind fun result => result.mul Decimal.ten

/-- What panics has no value. -/
def orPanic {ε α : Type} : Option α → Except (Abort ε) α
  | some a => .ok a
  | none => .error .panic

/-- `1_000_000 + index as i32`. -/
def laterIndex (index : Nat) : Option Int :=
  if 1000000 + asI32 index < 2147483648 then some (1000000 + asI32 index) else none

/-! ## Events -/

structure NormalizedTransfer where
  chain : ChainKind
  signature : String
  eventIndex : Int
  fromAddress : String
  toAddress : String
  assetKind : AssetKind
  mint : String
  rawAmount : String
  amount : Decimal
  slot : Option Nat
  blockTime : Option DateTime
  observedAt : DateTime
  source : String
  commitment : Commitment
  deriving DecidableEq, Repr

inductive TradeSide
  | buy | sell
  deriving DecidableEq, Repr

structure NormalizedTrade where
  chain : ChainKind
  signature : String
  eventIndex : Int
  wallet : String
  mint : String
  side : TradeSide
  rawNativeAmount : String
  rawTokenAmount : String
  nativeAmount : Decimal
  tokenAmount : Decimal
  usdValue : Option Decimal
  slot : Option Nat
  blockTime : Option DateTime
  observedAt : DateTime
  dexId : Option String
  source : String
  deriving DecidableEq, Repr

structure NormalizedEvents where
  transfers : List NormalizedTransfer
  trades : List NormalizedTrade
  deriving DecidableEq, Repr

/-- What the normalizers take from outside the repository. -/
structure ChainCrates where
  /-- `bs58`: `bs58::decode(address).into_vec()`, with the text of its error. -/
  decodeBase58 : String → Except String Bytes
  /-- `rust_decimal`: `Decimal::from_str_exact(s)`, with the text of its error. -/
  fromStrExact : String → Except String Decimal
  /-- `chrono`: `DateTime::from_timestamp(seconds, 0)`. -/
  fromTimestamp : Int → Option DateTime
  /-- `{}` of an `f64` that is not an integer. -/
  displayF64 : Rat → String

/-- `Result::is_err`. -/
def isErr {ε α : Type} : Except ε α → Bool
  | .error _ => true
  | .ok _ => false

/-! ## Solana -/

def LAMPORTS_PER_SOL : Nat := 1000000000

section
variable (x : ChainCrates)

def validateSolanaAddress (address : String) : Except String Unit :=
  let len := byteLen address.toList
  if len < 32 || 44 < len then .error ("solana address length " ++ toString len ++ " outside 32..=44")
  else
    match x.decodeBase58 address with
    | .error e => .error ("invalid base58 solana address: " ++ e)
    | .ok decoded =>
      if decoded.length ≠ 32 then
        .error ("solana address decodes to " ++ toString decoded.length ++ " bytes, expected 32")
      else .ok ()

def lamportsToSol (lamports : Nat) : Option Decimal := do
  let lamports ← Fixed.ofInt lamports
  let scale ← Fixed.ofInt LAMPORTS_PER_SOL
  Fixed.div lamports scale

def rawTokenToAmount (raw : String) (decimals : Nat) : Except (Abort String) Decimal :=
  match x.fromStrExact (trim raw) with
  | .error e => .error (.error ("bad token amount: " ++ e))
  | .ok raw => orPanic do
    let scale ← tenPow decimals
    Fixed.div raw scale

/-- `format_amount_string`; the cast of an `f64` to `i64` saturates. -/
def formatAmountString (value : Rat) : String :=
  if value.den = 1 then toString (max (-9223372036854775808) (min value.num 9223372036854775807))
  else x.displayF64 value

/-- The fields that all events of a transaction share. -/
structure Observation where
  signature : String
  slot : Option Nat
  blockTime : Option DateTime
  observedAt : DateTime
  commitment : Commitment

def nativeTransfer (o : Observation) (index : Nat) (transfer : Json) :
    Except (Abort String) (Option NormalizedTransfer) := do
  let some sender := transfer.strAt "fromUserAccount" | return none
  let some receiver := transfer.strAt "toUserAccount" | return none
  let some lamports := (transfer.get "amount").bind Json.asU64 | return none
  if lamports = 0 then return none
  if isErr (validateSolanaAddress x sender) || isErr (validateSolanaAddress x receiver) then return none
  let amount ← orPanic (lamportsToSol lamports)
  return some {
    chain := .solana
    signature := o.signature
    eventIndex := asI32 index
    fromAddress := sender
    toAddress := receiver
    assetKind := .native
    mint := ""
    rawAmount := toString lamports
    amount
    slot := o.slot
    blockTime := o.blockTime
    observedAt := o.observedAt
    source := "helius"
    commitment := o.commitment }

/-- `decimals` of a token leg or transfer: `unwrap_or(6) as u32`. -/
def decimalsOf (decimals : Option Json) : Nat := ((decimals.bind Json.asU64).getD 6) % 4294967296

def tokenTransfer (o : Observation) (offset : Nat) (transfer : Json) :
    Except (Abort String) (Option NormalizedTransfer) := do
  let sender := (transfer.strAt "fromUserAccount").getD ""
  let receiver := (transfer.strAt "toUserAccount").getD ""
  let mint := (transfer.strAt "mint").getD ""
  let rawAmount := ((transfer.get "tokenAmount").bind Json.asF64).or ((transfer.get "rawTokenAmount").bind Json.asF64)
  let decimals := decimalsOf ((transfer.get "decimals").or
    ((transfer.get "rawTokenAmount").bind fun r => r.get "decimals"))
  if sender.isEmpty || receiver.isEmpty || mint.isEmpty then return none
  if isErr (validateSolanaAddress x sender) || isErr (validateSolanaAddress x receiver) ||
      isErr (validateSolanaAddress x mint) then return none
  let some amountRaw := rawAmount | return none
  let amountStr := formatAmountString x amountRaw
  let amount ← rawTokenToAmount x amountStr decimals
  let eventIndex ← orPanic (laterIndex offset)
  return some {
    chain := .solana
    signature := o.signature
    eventIndex
    fromAddress := sender
    toAddress := receiver
    assetKind := .splToken
    mint
    rawAmount := amountStr
    amount
    slot := o.slot
    blockTime := o.blockTime
    observedAt := o.observedAt
    source := "helius"
    commitment := o.commitment }

/-- `Result::ok`. -/
def okOrPanic {α : Type} : Except (Abort String) α → Except (Abort String) (Option α)
  | .ok a => .ok (some a)
  | .error (.error _) => .ok none
  | .error .panic => .error .panic

def buildTrade (signature wallet : String) (side : TradeSide) (nativeRaw : String) (tokenLeg : Option Json)
    (dex : Option String) (slot : Option Nat) (blockTime : Option DateTime) (observedAt : DateTime) :
    Except (Abort String) (Option NormalizedTrade) := do
  if wallet.isEmpty || isErr (validateSolanaAddress x wallet) then return none
  let some leg := tokenLeg | return none
  let some mint := leg.strAt "mint" | return none
  let rawToken := (leg.get "rawTokenAmount").bind fun r => r.strAt "tokenAmount"
  let decimals := decimalsOf ((leg.get "rawTokenAmount").bind fun r => r.get "decimals")
  let some rawToken := rawToken | return none
  let some tokenAmount ← okOrPanic (rawTokenToAmount x rawToken decimals) | return none
  let some nativeAmount ← okOrPanic (rawTokenToAmount x nativeRaw 9) | return none
  return some {
    chain := .solana
    signature
    eventIndex := 0
    wallet
    mint
    side
    rawNativeAmount := nativeRaw
    rawTokenAmount := rawToken
    nativeAmount
    tokenAmount
    usdValue := none
    slot
    blockTime
    observedAt
    dexId := dex
    source := "helius" }

/-- One side of a swap, where the payload has both its native amount and its token legs. -/
def swapTrade (o : Observation) (raw : Json) (side : TradeSide) (native : Option String) (tokens : Option (List Json)) :
    Except (Abort String) (Option NormalizedTrade) :=
  match native, tokens with
  | some native, some tokens =>
    buildTrade x o.signature ((raw.strAt "feePayer").getD "") side native tokens.head? (raw.strAt "dexId") o.slot
      o.blockTime o.observedAt
  | _, _ => .ok none

/-- The swap of a payload. -/
def swapOf (raw : Json) : Option Json := ((raw.get "events").bind fun e => e.get "swap").filter Json.isObject

def swapTrades (o : Observation) (raw : Json) : Except (Abort String) (List NormalizedTrade) :=
  match swapOf raw with
  | none => .ok []
  | some swap => do
    let buy ← swapTrade x o raw .buy ((swap.get "nativeInput").bind fun n => n.strAt "amount")
      (swap.arrayAt "tokenOutputs")
    let sell ← swapTrade x o raw .sell ((swap.get "nativeOutput").bind fun n => n.strAt "amount")
      (swap.arrayAt "tokenInputs")
    return buy.toList ++ sell.toList

/-- The signature of a payload. -/
def signatureOf (raw : Json) : Option String := (raw.strAt "signature").or (raw.strAt "transactionHash")

def normalizeHeliusTransaction (raw : Json) (observedAt : DateTime) : Except (Abort String) NormalizedEvents := do
  let some signature := signatureOf raw | .error (.error "helius payload missing signature")
  let o : Observation := {
    signature
    slot := (raw.get "slot").bind Json.asU64
    blockTime := ((raw.get "timestamp").bind Json.asI64).bind x.fromTimestamp
    observedAt
    commitment := ((raw.strAt "commitment").bind Commitment.parse).getD .confirmed }
  let natives ← ((raw.arrayAt "nativeTransfers").getD []).zipIdx.mapM fun p => nativeTransfer x o p.2 p.1
  let tokens ← ((raw.arrayAt "tokenTransfers").getD []).zipIdx.mapM fun p => tokenTransfer x o p.2 p.1
  let trades ← swapTrades x o raw
  return { transfers := natives.reduceOption ++ tokens.reduceOption, trades }

end

/-! ## Robinhood Chain -/

def ERC20_TRANSFER_TOPIC : String := "0xddf252ad1be2c89b69c2b068fc378daa952ba7f163c4a11628f55a4df523b3ef"

def rawToDecimal (raw : String) (decimals : Nat) : Except (Abort String) Decimal := do
  let trimmed := trim raw
  let value ←
    match stripPrefix "0x" trimmed with
    | some hex => (fromStrRadix 16 (2 ^ 128) hex.toList).mapError fun e => Abort.error ("bad hex amount: " ++ e)
    | none => (fromStrRadix 10 (2 ^ 128) trimmed.toList).mapError fun e => Abort.error ("bad decimal amount: " ++ e)
  orPanic do
    let scale ← tenPow decimals
    let value ← Fixed.ofInt value
    Fixed.div value scale

/-- The pair that the set of seen transfers holds. -/
def NormalizedTransfer.seenKey (t : NormalizedTransfer) : String × Int := (t.signature, t.eventIndex)

/-- The transfers so far, and the pairs that were seen. -/
abbrev Seen := List NormalizedTransfer × List (String × Int)

/-- `if seen.insert(..) { events.transfers.push(..) }`, with the amount of eighteen decimals. -/
def pushNew (st : Seen) (key : String × Int) (rawAmount : String) (transfer : Decimal → NormalizedTransfer) :
    Except (Abort String) Seen :=
  if key ∈ st.2 then .ok st
  else do
    let amount ← rawToDecimal rawAmount 18
    return (st.1 ++ [transfer amount], key :: st.2)

/-- `v.get(key).and_then(|v| v.as_str()).unwrap_or_default()`. -/
def textAt (v : Json) (key : String) : String := (v.strAt key).getD ""

section
variable (slot : Nat) (blockTime : Option DateTime) (observedAt : DateTime)

/-- The loop over the transactions of a block. -/
def pushNative (st : Seen) (tx : Json) : Except (Abort String) Seen :=
  let hash := textAt tx "hash"
  let sender := textAt tx "from"
  let receiver := textAt tx "to"
  let value := (parseHexQuantity ((tx.strAt "value").getD "0x0")).getD 0
  if hash.isEmpty || sender.isEmpty || receiver.isEmpty || value == 0 then .ok st
  else if isErr (validateEvmAddress sender) || isErr (validateEvmAddress receiver) then .ok st
  else
    pushNew st (hash, 0) (toString value) fun amount => {
      chain := .robinhood
      signature := hash
      eventIndex := 0
      fromAddress := toAsciiLowercase sender
      toAddress := toAsciiLowercase receiver
      assetKind := .native
      mint := ""
      rawAmount := toString value
      amount
      slot := some slot
      blockTime
      observedAt
      source := "robinhood_rpc"
      commitment := .confirmed }

/-- The loop over the logs of a receipt. -/
def pushErc20 (hash : String) (st : Seen) (log : Json × Nat) : Except (Abort String) Seen :=
  match log.1.arrayAt "topics" with
  | some (t0 :: t1 :: t2 :: _) =>
    if toAsciiLowercase (t0.asStr.getD "") ≠ ERC20_TRANSFER_TOPIC then .ok st
    else do
      let some sender ← decodeTopicAddress (t1.asStr.getD "") | return st
      let some receiver ← decodeTopicAddress (t2.asStr.getD "") | return st
      let mint := toAsciiLowercase (textAt log.1 "address")
      let rawValue := (parseHexQuantity ((log.1.strAt "data").getD "0x0")).getD 0
      if rawValue == 0 || mint.isEmpty then return st
      let eventIndex ← orPanic (laterIndex log.2)
      pushNew st (hash, eventIndex) (toString rawValue) fun amount => {
        chain := .robinhood
        signature := hash
        eventIndex
        fromAddress := sender
        toAddress := receiver
        assetKind := .erc20
        mint
        rawAmount := toString rawValue
        amount
        slot := some slot
        blockTime
        observedAt
        source := "robinhood_rpc"
        commitment := .confirmed }
  | _ => .ok st

/-- The loop over the receipts. -/
def pushReceipt (st : Seen) (receipt : Json) : Except (Abort String) Seen :=
  let hash := textAt receipt "transactionHash"
  if hash.isEmpty then .ok st
  else
    match receipt.arrayAt "logs" with
    | none => .ok st
    | some logs => logs.zipIdx.foldlM (pushErc20 slot blockTime observedAt hash) st

end

/-- The number of a block. -/
def blockNumber (block : Json) : Option Nat := (block.strAt "number").bind parseHexQuantity

def normalizeBlock (x : ChainCrates) (block : Json) (receipts : List Json) (observedAt : DateTime) :
    Except (Abort String) NormalizedEvents := do
  let some slot := blockNumber block | .error (.error "block missing number")
  -- `ts as i64`
  let blockTime := ((block.strAt "timestamp").bind parseHexQuantity).bind fun ts =>
    x.fromTimestamp ((ts : Int).bmod 18446744073709551616)
  let natives ← ((block.arrayAt "transactions").getD []).foldlM (pushNative slot blockTime observedAt) ([], [])
  let all ← receipts.foldlM (pushReceipt slot blockTime observedAt) natives
  return { transfers := all.1, trades := [] }

end WhaleIntelligence.Chains
