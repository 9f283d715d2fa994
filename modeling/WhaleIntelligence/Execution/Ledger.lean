import WhaleIntelligence.Lib.Checks
import WhaleIntelligence.Lib.KeyedTable
import WhaleIntelligence.Execution.Intent

/- The ledger of intents: the tables that `transition_intent` reads and writes, the
   function, and the trigger that guards the status of an intent.

   The function runs as the role `swi_transition_owner`, which nobody can log in as
   and no role is a member of, and the trigger refuses every other role a change of
   a status. The tables of edges, purposes, reservation actions and action classes
   are the ones that the migrations write. -/
namespace WhaleIntelligence.Execution
open KeyedTable Checks

/-! ## Frozen tables -/

/-- `intent_transition_edges`. -/
def intentTransitionEdges : List (String × String) :=
  [("proposed", "approved"), ("approved", "reserved"), ("reserved", "built"), ("built", "simulated"),
    ("simulated", "signed"), ("signed", "submitted"), ("submitted", "confirmed"),
    ("proposed", "cancelled"), ("approved", "cancelled"),
    ("reserved", "failed_safe"), ("built", "failed_safe"), ("simulated", "failed_safe"),
    ("signed", "failed_safe"), ("submitted", "failed_safe"),
    ("submitted", "unknown_reconciliation"), ("unknown_reconciliation", "confirmed"),
    ("unknown_reconciliation", "failed_safe"), ("unknown_reconciliation", "cancelled")]

/-- `intent_transition_purposes`. -/
def intentTransitionPurposes : List ((String × String) × String) :=
  [(("proposed", "approved"), "entry"), (("approved", "reserved"), "entry"), (("reserved", "built"), "entry"),
    (("built", "simulated"), "entry"), (("simulated", "signed"), "entry"), (("signed", "submitted"), "entry"),
    (("submitted", "confirmed"), "settlement"), (("submitted", "unknown_reconciliation"), "settlement"),
    (("unknown_reconciliation", "confirmed"), "settlement"),
    (("proposed", "cancelled"), "unwind"), (("approved", "cancelled"), "unwind"),
    (("reserved", "failed_safe"), "unwind"), (("built", "failed_safe"), "unwind"),
    (("simulated", "failed_safe"), "unwind"), (("signed", "failed_safe"), "unwind"),
    (("submitted", "failed_safe"), "unwind"), (("unknown_reconciliation", "failed_safe"), "unwind"),
    (("unknown_reconciliation", "cancelled"), "unwind")]

/-- `intent_reservation_actions`. -/
def intentReservationActions : List (String × String) :=
  [("confirmed", "release"), ("failed_safe", "release"), ("cancelled", "release"),
    ("unknown_reconciliation", "hold"), ("proposed", "hold"), ("approved", "hold"), ("reserved", "hold"),
    ("built", "hold"), ("simulated", "hold"), ("signed", "hold"), ("submitted", "hold")]

/-- `intent_action_classes`. -/
def intentActionClasses : List (String × String) :=
  [("sell", "reducing"), ("partial_sell", "reducing"), ("close", "reducing"), ("emergency_exit", "reducing"),
    ("claim_fees", "reducing"), ("partial_withdraw", "reducing"), ("close_position", "reducing"),
    ("swap_residuals", "reducing"), ("lp_emergency_exit", "reducing"),
    ("buy", "adding"), ("open_position", "adding"), ("add_liquidity", "adding"), ("compound_fees", "adding"),
    ("reseed_position", "adding")]

/-! ## Rows -/

/-- A row of `trade_intents`, with the columns that the function reads. The CHECK on the status is its type. -/
structure TradeIntent where
  workspaceId : Option Int
  automationPolicyVersionId : Option Int
  chain : String
  walletAddressId : Option Int
  action : String
  status : IntentState
  deriving DecidableEq, Repr

/-- A row of `intent_transitions`. -/
structure IntentTransition where
  intentId : Int
  fromState : String
  toState : String
  reservationAction : String
  reason : Option String
  actorRole : String
  deriving DecidableEq, Repr

/-- A row of `automation_policies`. -/
structure AutomationPolicy where
  id : Int
  workspaceId : Option Int
  status : String
  currentVersionId : Option Int
  deriving DecidableEq, Repr

/-- A row of `automation_policy_versions`. -/
structure AutomationPolicyVersion where
  id : Int
  policyId : Int
  deriving DecidableEq, Repr

/-- A row of `kill_switches`. The CHECK on the mode is its type. -/
structure KillSwitchRow where
  workspaceId : Option Int
  scope : String
  scopeKey : Option String
  mode : KillSwitchMode
  active : Bool
  systemScope : Bool
  deriving DecidableEq, Repr

/-- The tables that no call of the function writes. -/
structure Controls where
  /-- `execution_role_workspaces`. -/
  roleWorkspaces : List (String × Int)
  policies : List AutomationPolicy
  versions : List AutomationPolicyVersion
  killSwitches : List KillSwitchRow
  /-- `wallet_addresses`: the address under each id. -/
  walletAddress : Table Int String

/-- The intents, and their audit in the order of its ids. The foreign key of the audit is a field. -/
structure Ledger where
  intents : Table Int TradeIntent
  transitions : List IntentTransition
  controls : Controls
  intentId_fk : ∀ r ∈ transitions, (intents r.intentId).isSome = true

/-! ## Errors -/

/-- What `transition_intent` raises. -/
inductive Refusal where
  | notFound (id : Int)
  | noWorkspace (id : Int)
  | notAuthorized (role : String) (workspace id : Int)
  | illegal (fromState toState : String)
  | noPurpose (fromState toState : String)
  | noPolicy (id : Int)
  | policyNotCurrent (version workspace id : Int)
  | policyNotOwned (version workspace id : Int)
  | halted (fromState toState : String) (id : Int)
  | unclassified (id : Int) (action : String)
  | exitOnly (action : String) (id : Int)
  | noReservationAction (toState : String)
  | statusCheck (toState : String)
  deriving DecidableEq, Repr

def Refusal.message : Refusal → String
  | notFound id => s!"intent {id} not found"
  | noWorkspace id => s!"intent {id} has no workspace; cannot authorize transition"
  | notAuthorized role workspace id => s!"role {role} is not authorized for workspace {workspace} (intent {id})"
  | illegal fromState toState => s!"illegal intent transition {fromState} -> {toState}"
  | noPurpose fromState toState =>
    s!"transition {fromState} -> {toState} has no frozen purpose; refusing transition"
  | noPolicy id => s!"intent {id} carries no automation policy version; refusing transition"
  | policyNotCurrent version workspace id =>
    s!"automation policy version {version} is not the active current version for workspace {workspace} (intent {id})"
  | policyNotOwned version workspace id =>
    s!"automation policy version {version} does not belong to workspace {workspace} (intent {id})"
  | halted fromState toState id =>
    s!"an active kill switch (halt) blocks entry transition {fromState} -> {toState} for intent {id}"
  | unclassified id action => s!"intent {id} carries unclassified action {action}; refusing transition"
  | exitOnly action id => s!"EXIT_ONLY is active: risk-adding action {action} is not permitted (intent {id})"
  | noReservationAction toState => s!"no frozen reservation action for state {toState}"
  | statusCheck _ => "new row for relation \"trade_intents\" violates check constraint \"trade_intents_status_check\""

/-! ## The function -/

/-- The version is the current one of an active policy of the workspace. -/
def policyInForce (c : Controls) (version workspace : Int) : Bool :=
  c.versions.any fun apv => apv.id == version && c.policies.any fun ap =>
    ap.id == apv.policyId && ap.status == "active" && ap.workspaceId == some workspace &&
      ap.currentVersionId == some apv.id

/-- The version is one of a policy of the workspace. -/
def policyOwned (c : Controls) (version workspace : Int) : Bool :=
  c.versions.any fun apv => apv.id == version && c.policies.any fun ap =>
    ap.id == apv.policyId && ap.workspaceId == some workspace

/-- The switch reaches the intent: it is system-wide or one of the workspace, and its scope is global, the
chain of the intent, or the address of its wallet. -/
def KillSwitchRow.reaches (ks : KillSwitchRow) (c : Controls) (workspace : Int) (intent : TradeIntent) : Bool :=
  (ks.systemScope || ks.workspaceId == some workspace) &&
    (ks.scope == "global" || (ks.scope == "chain" && ks.scopeKey == some intent.chain) ||
      (ks.scope == "wallet" && ks.scopeKey.isSome && ks.scopeKey == intent.walletAddressId.bind c.walletAddress))

def killSwitchActive (c : Controls) (mode : KillSwitchMode) (workspace : Int) (intent : TradeIntent) : Bool :=
  c.killSwitches.any fun ks => ks.active && ks.mode == mode && ks.reaches c workspace intent

/-- An entry needs the policy in force now; settlement and unwind need one of the workspace. -/
def checkPolicy (c : Controls) (id : Int) (purpose : String) (version workspace : Int) : Except Refusal Unit :=
  if purpose == "entry" then ensure (.policyNotCurrent version workspace id) (policyInForce c version workspace)
  else ensure (.policyNotOwned version workspace id) (policyOwned c version workspace)

/-- The kill switches gate the entries. -/
def checkKillSwitches (c : Controls) (id : Int) (intent : TradeIntent) (workspace : Int) (purpose toState : String) :
    Except Refusal Unit :=
  if purpose == "entry" then do
    ensure (.halted intent.status.asStr toState id) !killSwitchActive c .halt workspace intent
    let riskClass ← demand (.unclassified id intent.action) (intentActionClasses.lookup intent.action)
    ensure (.exitOnly intent.action id) !(riskClass == "adding" && killSwitchActive c .exitOnly workspace intent)
  else .ok ()

/-- The checks of a transition, in their order, and the reservation action that the audit records. -/
def authorizeTransition (c : Controls) (caller : String) (id : Int) (intent : TradeIntent) (toState : String) :
    Except Refusal String := do
  let edge := (intent.status.asStr, toState)
  let workspace ← demand (.noWorkspace id) intent.workspaceId
  ensure (.notAuthorized caller workspace id) (c.roleWorkspaces.contains (caller, workspace))
  ensure (.illegal edge.1 edge.2) (intentTransitionEdges.contains edge)
  let purpose ← demand (.noPurpose edge.1 edge.2) (intentTransitionPurposes.lookup edge)
  let version ← demand (.noPolicy id) intent.automationPolicyVersionId
  checkPolicy c id purpose version workspace
  checkKillSwitches c id intent workspace purpose toState
  demand (.noReservationAction toState) (intentReservationActions.lookup toState)

theorem isSome_set {t : Table Int TradeIntent} {id j : Int} {intent : TradeIntent} (h : (t j).isSome = true) :
    (t.set id (some intent) j).isSome = true := by
  by_cases hj : j = id
  · rw [hj, set_self]
    rfl
  · rw [set_ne _ hj]
    exact h

/-- The ledger with the audit row and the status that it records. -/
def Ledger.record (l : Ledger) (intent : TradeIntent) (state : IntentState) (row : IntentTransition) : Ledger where
  intents := l.intents.set row.intentId (some { intent with status := state })
  transitions := l.transitions ++ [row]
  controls := l.controls
  intentId_fk := by
    intro r hr
    rcases List.mem_append.mp hr with hr | hr
    · exact isSome_set (l.intentId_fk r hr)
    · rw [List.mem_singleton.mp hr, set_self]
      rfl

/-- `transition_intent(p_intent_id, p_to_state, p_reason)`, as called by the connected role. -/
def transitionIntent (l : Ledger) (sessionUser : String) (id : Int) (toState : String) (reason : Option String) :
    Except Refusal Ledger :=
  match l.intents id with
  | none => .error (.notFound id)
  | some intent =>
    match authorizeTransition l.controls sessionUser id intent toState with
    | .error e => .error e
    | .ok reservation =>
      match IntentState.parse toState with
      | none => .error (.statusCheck toState)
      | some state =>
        .ok (l.record intent state ⟨id, intent.status.asStr, toState, reservation, reason, sessionUser⟩)

/-! ## Statements -/

def transitionOwner : String := "swi_transition_owner"

/-- A role that a session runs statements as. The owner of the function is not one: it has no login and no
members. -/
structure SessionRole where
  name : String
  not_owner : name ≠ transitionOwner

/-- The trigger on updates of `trade_intents`. -/
def guardIntentStatus (currentUser : String) (old new : TradeIntent) : Bool :=
  new.status == old.status || currentUser == transitionOwner

/-- The statements of the sessions on the ledger. -/
inductive Statement where
  | insertIntent (id : Int) (intent : TradeIntent)
  | updateIntent (role : SessionRole) (id : Int) (intent : TradeIntent)
  | call (role : SessionRole) (id : Int) (toState : String) (reason : Option String)
  | administer (controls : Controls)

/-- The ledger with another row under the id. -/
def Ledger.setIntent (l : Ledger) (id : Int) (intent : TradeIntent) : Ledger where
  intents := l.intents.set id (some intent)
  transitions := l.transitions
  controls := l.controls
  intentId_fk := fun r hr => isSome_set (l.intentId_fk r hr)

/-- A statement that fails leaves the ledger as it is. -/
def exec (l : Ledger) : Statement → Ledger
  | .insertIntent id intent =>
    match l.intents id with
    | none => l.setIntent id intent
    | some _ => l
  | .updateIntent role id intent =>
    match l.intents id with
    | none => l
    | some old => if guardIntentStatus role.name old intent then l.setIntent id intent else l
  | .call role id toState reason =>
    match transitionIntent l role.name id toState reason with
    | .ok l' => l'
    | .error _ => l
  | .administer controls => { l with controls := controls }

/-- The statements one after another. -/
def execAll (l : Ledger) (run : List Statement) : Ledger := run.foldl exec l

/-- The audit of an intent. -/
def Ledger.audit (l : Ledger) (id : Int) : List IntentTransition := l.transitions.filter (·.intentId == id)

/-! ## A halted ledger -/

/-- A buy of workspace 7 that is signed and not submitted. -/
def signedBuy : TradeIntent := ⟨some 7, some 40, "solana", some 3, "buy", .signed⟩

/-- The executor acts for workspace 7. Its policy is in force, and its chain is halted. -/
def haltedControls : Controls where
  roleWorkspaces := [("executor", 7)]
  policies := [⟨4, some 7, "active", some 40⟩]
  versions := [⟨40, 4⟩]
  killSwitches := [⟨some 7, "chain", some "solana", .halt, true, false⟩]
  walletAddress := fun _ => none

def haltedLedger : Ledger where
  intents := fun id => if id = 1 then some signedBuy else none
  transitions := []
  controls := haltedControls
  intentId_fk := by simp

def executor : SessionRole := ⟨"executor", by decide⟩

example : authorizeTransition haltedControls "executor" 1 signedBuy "submitted" =
    .error (.halted "signed" "submitted" 1) := by decide

end WhaleIntelligence.Execution
