import WhaleIntelligence.Rust

/- The data of Token Recent: graph nodes and edges, the actors extracted for an
   anchor token, candidate relations, and recent events.

   The wire forms (`asStr`, and the text columns of `recent_events`) are the
   source's own strings. They are injective, and every text column parses back
   to the value it was written from. -/
namespace WhaleIntelligence.Recent
open WhaleIntelligence

/-! ## Graph -/

/-- The node types of the entity graph. -/
inductive NodeType where
  | token | contract | tokenFamily | wallet | walletCluster | caller | sourceAccount | post | message
  | externalEvent | narrative | pool | position | strategy | policy | decision | intent | execution
  deriving DecidableEq, Repr

/-- The edge types of the entity graph. -/
inductive EdgeType where
  | deployedBy | fundedBy | calledBy | amplifiedBy | derivedFrom | officiallyAdoptedBy | firstLiquidOn
  | holds | swapped | lpProvided | sameFamilyAs | evidencedBy | resultedIn
  | sameDeployer | sameAuthority | sameFeePayer | sameFunder | sameSocialAccount | reusedSocialLink
  | officialCaAnnouncement | crossChainDeployment | suspectedCopycat | liquidityAttentionRotatedTo
  deriving DecidableEq, Repr

/-- The truth status of an observation or an edge. -/
inductive TruthStatus where
  | unknown | confirmed | disputed | superseded | erroneous
  deriving DecidableEq, Repr

/-- An entity node, identified by its chain-qualified key. -/
structure EntityNode where
  entityKey : String
  nodeType : NodeType
  deriving DecidableEq, Repr

/-- An entity edge with its evidence and its window of validity. -/
structure EntityEdge where
  fromEntityKey : String
  toEntityKey : String
  edgeType : EdgeType
  occurredAt : String
  truthStatus : TruthStatus
  validFrom : String
  validUntil : Option String
  evidenceRefs : List String
  deriving DecidableEq, Repr

/-! ## Relations and identities -/

/-- The twelve relations between an anchor token and another identity. -/
inductive RecentRelation where
  | sameDeployer | sameAuthority | sameFeePayer | sameFunder | fundedByKnownDeployer | sameSocialAccount
  | reusedSocialLink | officialCaAnnouncement | crossChainDeployment | derivativeOf | suspectedCopycat
  | liquidityAttentionRotatedTo
  deriving DecidableEq, Repr

def RecentRelation.asStr : RecentRelation → String
  | .sameDeployer => "same_deployer"
  | .sameAuthority => "same_authority"
  | .sameFeePayer => "same_fee_payer"
  | .sameFunder => "same_funder"
  | .fundedByKnownDeployer => "funded_by_known_deployer"
  | .sameSocialAccount => "same_social_account"
  | .reusedSocialLink => "reused_social_link"
  | .officialCaAnnouncement => "official_ca_announcement"
  | .crossChainDeployment => "cross_chain_deployment"
  | .derivativeOf => "derivative_of"
  | .suspectedCopycat => "suspected_copycat"
  | .liquidityAttentionRotatedTo => "liquidity_attention_rotated_to"

/-- How well a relation is established. -/
inductive RecentConfidence where
  | exact | reconstructed | estimated | insufficient
  deriving DecidableEq, Repr

def RecentConfidence.asStr : RecentConfidence → String
  | .exact => "exact"
  | .reconstructed => "reconstructed"
  | .estimated => "estimated"
  | .insufficient => "insufficient"

/-- Higher is more authoritative. -/
def RecentConfidence.rank : RecentConfidence → Nat
  | .exact => 3
  | .reconstructed => 2
  | .estimated => 1
  | .insufficient => 0

inductive IdentityKind where
  | token | wallet | social | website | telegram
  deriving DecidableEq, Repr

def IdentityKind.asStr : IdentityKind → String
  | .token => "token"
  | .wallet => "wallet"
  | .social => "social"
  | .website => "website"
  | .telegram => "telegram"

/-- A chain-qualified identity. -/
structure IdentityKey where
  kind : IdentityKind
  value : String
  deriving DecidableEq, Repr

/-- The on-chain actors and the social identities of an anchor token. -/
structure ActorExtraction where
  token : String
  deployer : Option String
  authority : Option String
  feePayer : Option String
  factory : Option String
  initialFunder : Option String
  socialIdentities : List String
  deriving DecidableEq, Repr

/-- A social account as the store knows it: its immutable id and the mutable
handles observed for it. -/
structure SocialIdentityRecord where
  platform : String
  immutableUserId : String
  handles : List String
  deriving DecidableEq, Repr

/-- A relation the resolver found. -/
structure CandidateRelation where
  toIdentity : IdentityKey
  relation : RecentRelation
  confidence : RecentConfidence
  evidenceRefs : List String
  deriving DecidableEq, Repr

/-! ## Events -/

inductive Coverage where
  | full | degraded | onDemand | unavailable
  deriving DecidableEq, Repr

inductive CapabilityStatus where
  | available | insufficient | unavailable
  deriving DecidableEq, Repr

structure Freshness where
  checkedAt : DateTime
  ageSeconds : Nat
  deriving DecidableEq, Repr

/-- A retraction names the event it retracts; it is a row of its own. -/
structure Retraction where
  targetEventId : String
  retractedAt : DateTime
  truthStatus : TruthStatus
  deriving DecidableEq, Repr

/-- A recent event. `confidence` is the optional numeric component. -/
structure RecentEvent where
  eventId : String
  eventType : String
  anchorIdentity : String
  relatedIdentities : List IdentityKey
  chainQualifiedContract : String
  occurredAt : DateTime
  observedAt : DateTime
  relation : Option RecentRelation
  truthStatus : TruthStatus
  confidence : Option Rat
  confidenceLevel : RecentConfidence
  evidenceRefs : List String
  dependencyGroup : Option String
  freshness : Option Freshness
  coverage : Coverage
  capabilityStatus : CapabilityStatus
  missingInputs : List String
  retraction : Option Retraction
  isCurrentCoverage : Bool
  deriving DecidableEq, Repr

/-! ## Text columns -/

def truthStatusStr : TruthStatus → String
  | .unknown => "unknown"
  | .confirmed => "confirmed"
  | .disputed => "disputed"
  | .superseded => "superseded"
  | .erroneous => "erroneous"

def truthStatusFromStr (s : String) : TruthStatus :=
  match s with
  | "confirmed" => .confirmed
  | "disputed" => .disputed
  | "superseded" => .superseded
  | "erroneous" => .erroneous
  | _ => .unknown

def confidenceFromStr (s : String) : RecentConfidence :=
  match s with
  | "exact" => .exact
  | "reconstructed" => .reconstructed
  | "estimated" => .estimated
  | _ => .insufficient

def coverageStr : Coverage → String
  | .full => "full"
  | .degraded => "degraded"
  | .onDemand => "on_demand"
  | .unavailable => "unavailable"

def coverageFromStr (s : String) : Coverage :=
  match s with
  | "full" => .full
  | "degraded" => .degraded
  | "on_demand" => .onDemand
  | _ => .unavailable

def capabilityStr : CapabilityStatus → String
  | .available => "available"
  | .insufficient => "insufficient"
  | .unavailable => "unavailable"

def capabilityFromStr (s : String) : CapabilityStatus :=
  match s with
  | "available" => .available
  | "insufficient" => .insufficient
  | _ => .unavailable

@[simp] theorem truthStatusFromStr_str (t : TruthStatus) : truthStatusFromStr (truthStatusStr t) = t := by
  cases t <;> rfl

@[simp] theorem confidenceFromStr_asStr (c : RecentConfidence) : confidenceFromStr c.asStr = c := by
  cases c <;> rfl

@[simp] theorem coverageFromStr_str (c : Coverage) : coverageFromStr (coverageStr c) = c := by
  cases c <;> rfl

@[simp] theorem capabilityFromStr_str (c : CapabilityStatus) : capabilityFromStr (capabilityStr c) = c := by
  cases c <;> rfl

theorem confidence_asStr_injective {c d : RecentConfidence} (h : c.asStr = d.asStr) : c = d := by
  rw [← confidenceFromStr_asStr c, h, confidenceFromStr_asStr]

theorem relation_asStr_injective {r s : RecentRelation} (h : r.asStr = s.asStr) : r = s := by
  cases r <;> cases s <;> first | rfl | exact absurd h (by decide)

theorem kind_asStr_injective {k l : IdentityKind} (h : k.asStr = l.asStr) : k = l := by
  cases k <;> cases l <;> first | rfl | exact absurd h (by decide)

end WhaleIntelligence.Recent
