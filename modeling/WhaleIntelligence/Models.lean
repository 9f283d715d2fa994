import WhaleIntelligence.Rust

/- The domain types that the signals, the radar and the admin reads share.

   The database stores their texts. A text is parsed after trimming it and folding
   its case, and every text that is stored parses back. -/
namespace WhaleIntelligence

/-- What `parse` matches a text by. -/
def normalized (value : String) : String := toAsciiLowercase (trim value)

/-! ## Chains -/

inductive ChainKind where
  | solana | robinhood
  deriving DecidableEq, Repr

def ChainKind.asStr : ChainKind → String
  | .solana => "solana"
  | .robinhood => "robinhood"

/-- `{:?}`. -/
def ChainKind.debug : ChainKind → String
  | .solana => "Solana"
  | .robinhood => "Robinhood"

def ChainKind.parse (value : String) : Option ChainKind :=
  match normalized value with
  | "solana" | "sol" => some .solana
  | "robinhood" | "rh" => some .robinhood
  | _ => none

/-! ## Wallet policy -/

/-- How a wallet participates in analysis. -/
inductive Disposition where
  | score | watch | flowOnly | skip
  deriving DecidableEq, Repr

def Disposition.asStr : Disposition → String
  | .score => "score"
  | .watch => "watch"
  | .flowOnly => "flow_only"
  | .skip => "skip"

def Disposition.parse (value : String) : Option Disposition :=
  match normalized value with
  | "score" => some .score
  | "watch" => some .watch
  | "flow_only" | "flow-only" => some .flowOnly
  | "skip" | "block" => some .skip
  | _ => none

/-- `skip` is excluded from the deep sync. -/
def Disposition.allowsDeepSync (d : Disposition) : Bool := d != .skip

/-- Only `score` contributes to alpha. -/
def Disposition.allowsScoring : Disposition → Bool
  | .score => true
  | _ => false

/-! ## Token lifecycle -/

inductive LifecycleState where
  | newCreation | bondingCurve | nearGraduation | graduated | postMigration | unsupported
  deriving DecidableEq, Repr

def LifecycleState.asStr : LifecycleState → String
  | .newCreation => "new_creation"
  | .bondingCurve => "bonding_curve"
  | .nearGraduation => "near_graduation"
  | .graduated => "graduated"
  | .postMigration => "post_migration"
  | .unsupported => "unsupported"

def LifecycleState.parse (value : String) : Option LifecycleState :=
  match normalized value with
  | "new_creation" => some .newCreation
  | "bonding_curve" => some .bondingCurve
  | "near_graduation" => some .nearGraduation
  | "graduated" => some .graduated
  | "post_migration" => some .postMigration
  | _ => none

def LifecycleState.entrySupported : LifecycleState → Bool
  | .newCreation | .bondingCurve | .nearGraduation | .graduated | .postMigration => true
  | .unsupported => false

/-! ## Radar stages -/

inductive RadarStage where
  | funded | preparation | deployed | dismissed
  deriving DecidableEq, Repr

def RadarStage.asStr : RadarStage → String
  | .funded => "funded"
  | .preparation => "preparation"
  | .deployed => "deployed"
  | .dismissed => "dismissed"

def RadarStage.parse (value : String) : Option RadarStage :=
  match normalized value with
  | "funded" => some .funded
  | "preparation" => some .preparation
  | "deployed" => some .deployed
  | "dismissed" => some .dismissed
  | _ => none

inductive Commitment where
  | processed | confirmed | finalized
  deriving DecidableEq, Repr

def Commitment.asStr : Commitment → String
  | .processed => "processed"
  | .confirmed => "confirmed"
  | .finalized => "finalized"

def Commitment.parse (value : String) : Option Commitment :=
  match normalized value with
  | "processed" => some .processed
  | "confirmed" => some .confirmed
  | "finalized" => some .finalized
  | _ => none

/-- The order of the levels. -/
def Commitment.rank : Commitment → Nat
  | .processed => 0
  | .confirmed => 1
  | .finalized => 2

/-! ## Funding -/

inductive AssetKind where
  | native | splToken | erc20
  deriving DecidableEq, Repr

def AssetKind.asStr : AssetKind → String
  | .native => "native"
  | .splToken => "spl_token"
  | .erc20 => "erc20"

inductive WalletLabelKind where
  | smartDegen | sniper | bundler | ratTrader | dexBot | mevBot | freshWallet | dev | insider | arbitrage
  | copyTrader | marketMaker | exchange | bridge | kuiperExchange | project
  deriving DecidableEq, Repr

def WalletLabelKind.asStr : WalletLabelKind → String
  | .smartDegen => "smart_degen"
  | .sniper => "sniper"
  | .bundler => "bundler"
  | .ratTrader => "rat_trader"
  | .dexBot => "dex_bot"
  | .mevBot => "mev_bot"
  | .freshWallet => "fresh_wallet"
  | .dev => "dev"
  | .insider => "insider"
  | .arbitrage => "arbitrage"
  | .copyTrader => "copy_trader"
  | .marketMaker => "market_maker"
  | .exchange => "exchange"
  | .bridge => "bridge"
  | .kuiperExchange => "kuiper_exchange"
  | .project => "project"

def WalletLabelKind.parse (value : String) : Option WalletLabelKind :=
  match normalized value with
  | "smart_degen" | "smartdegen" => some .smartDegen
  | "sniper" => some .sniper
  | "bundler" => some .bundler
  | "rat_trader" | "rattrader" => some .ratTrader
  | "dex_bot" | "dexbot" => some .dexBot
  | "mev_bot" | "mevbot" | "mev" => some .mevBot
  | "fresh_wallet" | "freshwallet" => some .freshWallet
  | "dev" | "developer" | "creator" => some .dev
  | "insider" => some .insider
  | "arbitrage" => some .arbitrage
  | "copy_trader" | "copytrader" => some .copyTrader
  | "market_maker" | "marketmaker" => some .marketMaker
  | "exchange" | "cex" => some .exchange
  | "bridge" => some .bridge
  | "kuiper_exchange" | "kuiper" => some .kuiperExchange
  | "project" => some .project
  | _ => none

/-- The first five and the last four characters of a long address. -/
def shortAddr (address : String) : String :=
  if address.toList.length ≤ 10 then address
  else String.ofList (address.toList.take 5) ++ "…" ++ String.ofList (address.toList.drop (address.toList.length - 4))

/-! ## Texts that are stored parse back -/

theorem ChainKind.parse_asStr (c : ChainKind) : ChainKind.parse c.asStr = some c := by
  cases c <;> decide +kernel

theorem Disposition.parse_asStr (d : Disposition) : Disposition.parse d.asStr = some d := by
  cases d <;> decide +kernel

theorem RadarStage.parse_asStr (s : RadarStage) : RadarStage.parse s.asStr = some s := by
  cases s <;> decide +kernel

theorem Commitment.parse_asStr (c : Commitment) : Commitment.parse c.asStr = some c := by
  cases c <;> decide +kernel

theorem WalletLabelKind.parse_asStr (k : WalletLabelKind) : WalletLabelKind.parse k.asStr = some k := by
  cases k <;> decide +kernel

/-- The state that a token without support has is the one that no text is parsed to. -/
theorem LifecycleState.parse_asStr (s : LifecycleState) :
    LifecycleState.parse s.asStr = if s = .unsupported then none else some s := by
  cases s <;> decide +kernel

end WhaleIntelligence
