import WhaleIntelligence.Execution.History

/- What one workspace is to the intents of another.

   The checks of a transition read the rows that the workspace of the intent owns, the
   system-wide switches, the address of its wallet, and the frozen tables: two states of
   the controls that agree on these let through the same calls, and refuse the others with the same error
   (`authorize_own`).

   While only calls are made the controls stay as they are, and so does every column
   of an intent but its status (`calls_permitted`). So roles of another workspace get
   nothing done to it, and nothing but settlements and unwinds happens to it under a
   switch that halts it (`calls_confined`). -/
namespace WhaleIntelligence.Execution
open IntentState KeyedTable Runs Tenancy

section
variable {c c' : Controls} {w v : Int} {intent : TradeIntent} {id : Int}

/-! ## Controls of other workspaces -/

/-- A version of a policy that the workspace owns. -/
def ownVersions (c : Controls) (w : Int) : List AutomationPolicyVersion :=
  c.versions.filter fun apv => (own (·.workspaceId) (some w) c.policies).any fun ap => ap.id == apv.policyId

/-- The controls are the same to the workspace: its roles, its policies and their versions, and the switches that
are its own or system-wide. -/
structure SameFor (w : Int) (c c' : Controls) : Prop where
  roles : ∀ user, (user, w) ∈ c.roleWorkspaces ↔ (user, w) ∈ c'.roleWorkspaces
  policies : own (·.workspaceId) (some w) c.policies = own (·.workspaceId) (some w) c'.policies
  versions : ownVersions c w = ownVersions c' w
  switches : c.killSwitches.filter (fun ks => ks.systemScope || ks.workspaceId == some w) =
    c'.killSwitches.filter fun ks => ks.systemScope || ks.workspaceId == some w

/-- A query for a version of a policy of the workspace looks at those alone. -/
theorem any_ownVersions {p : AutomationPolicyVersion → AutomationPolicy → Bool}
    (hp : ∀ apv ap, p apv ap = true → ap.id = apv.policyId ∧ ap.workspaceId = some w) :
    (c.versions.any fun apv => apv.id == v && c.policies.any (p apv)) =
      (ownVersions c w).any fun apv => apv.id == v && (own (·.workspaceId) (some w) c.policies).any (p apv) := by
  rw [Bool.eq_iff_iff]
  simp only [ownVersions, own, List.any_eq_true, List.mem_filter, Bool.and_eq_true, beq_iff_eq, decide_eq_true_eq]
  constructor
  · rintro ⟨apv, hapv, hid, ap, hap, hpap⟩
    obtain ⟨hpolicy, hworkspace⟩ := hp apv ap hpap
    exact ⟨apv, ⟨hapv, ap, ⟨hap, hworkspace⟩, hpolicy⟩, hid, ap, ⟨hap, hworkspace⟩, hpap⟩
  · rintro ⟨apv, ⟨hapv, -⟩, hid, ap, ⟨hap, -⟩, hpap⟩
    exact ⟨apv, hapv, hid, ap, hap, hpap⟩

theorem policyInForce_own (h : SameFor w c c') : policyInForce c v w = policyInForce c' v w := by
  have hp : ∀ (apv : AutomationPolicyVersion) (ap : AutomationPolicy),
      (ap.id == apv.policyId && ap.status == "active" && ap.workspaceId == some w &&
        ap.currentVersionId == some apv.id) = true → ap.id = apv.policyId ∧ ap.workspaceId = some w := by
    intro apv ap hap
    simp only [Bool.and_eq_true, beq_iff_eq] at hap
    exact ⟨hap.1.1.1, hap.1.2⟩
  unfold policyInForce
  rw [any_ownVersions hp, any_ownVersions hp, h.policies, h.versions]

theorem policyOwned_own (h : SameFor w c c') : policyOwned c v w = policyOwned c' v w := by
  have hp : ∀ (apv : AutomationPolicyVersion) (ap : AutomationPolicy),
      (ap.id == apv.policyId && ap.workspaceId == some w) = true →
        ap.id = apv.policyId ∧ ap.workspaceId = some w := by
    intro apv ap hap
    simpa only [Bool.and_eq_true, beq_iff_eq] using hap
  unfold policyOwned
  rw [any_ownVersions hp, any_ownVersions hp, h.policies, h.versions]

theorem killSwitchActive_own (h : SameFor w c c')
    (hwallet : intent.walletAddressId.bind c.walletAddress = intent.walletAddressId.bind c'.walletAddress)
    (mode : KillSwitchMode) :
    killSwitchActive c mode w intent = killSwitchActive c' mode w intent := by
  have hquery : ∀ d : Controls, killSwitchActive d mode w intent =
      (d.killSwitches.filter fun ks => ks.systemScope || ks.workspaceId == some w).any fun ks =>
        ks.active && ks.mode == mode && ks.reaches d w intent := by
    intro d
    rw [List.any_filter]
    unfold killSwitchActive KillSwitchRow.reaches
    congr 1
    funext ks
    cases ks.systemScope || ks.workspaceId == some w <;> simp
  have hreaches : ∀ ks : KillSwitchRow, ks.reaches c w intent = ks.reaches c' w intent := by
    intro ks
    unfold KillSwitchRow.reaches
    rw [hwallet]
  rw [hquery c, hquery c', h.switches]
  simp only [hreaches]

/-- What other workspaces have, and the addresses of other wallets, do not show in the checks of a transition, nor in
their errors. -/
theorem authorize_own (h : SameFor w c c') (hw : intent.workspaceId = some w)
    (hwallet : intent.walletAddressId.bind c.walletAddress = intent.walletAddressId.bind c'.walletAddress)
    (user n : String) :
    authorizeTransition c user id intent n = authorizeTransition c' user id intent n := by
  have hroles : c.roleWorkspaces.contains (user, w) = c'.roleWorkspaces.contains (user, w) := by
    rw [Bool.eq_iff_iff, List.contains_iff_mem, List.contains_iff_mem]
    exact h.roles user
  unfold authorizeTransition checkPolicy checkKillSwitches
  simp only [hw, Checks.demand, Fallible.ok_bind, hroles, policyInForce_own h, policyOwned_own h,
    killSwitchActive_own h hwallet]

/-- The same controls beside those of workspace 8, which has a switch, a role, a policy and a wallet of its own. -/
def crowdedControls : Controls :=
  { haltedControls with
    roleWorkspaces := ("intruder", 8) :: haltedControls.roleWorkspaces
    policies := haltedControls.policies ++ [⟨5, some 8, "active", some 50⟩]
    versions := haltedControls.versions ++ [⟨50, 5⟩]
    killSwitches := haltedControls.killSwitches ++ [⟨some 8, "global", none, .exitOnly, true, false⟩]
    walletAddress := haltedControls.walletAddress.set 88 (some "intruder") }

theorem authorize_own_crowded : authorizeTransition haltedControls "executor" 1 signedBuy "submitted" =
    authorizeTransition crowdedControls "executor" 1 signedBuy "submitted" := by
  refine authorize_own (w := 7) ⟨fun user => ?_, by decide, by decide, by decide⟩ rfl rfl "executor" "submitted"
  simp [haltedControls]

/-! ## Runs of calls -/

/-- A call of the function. -/
structure Call where
  role : SessionRole
  id : Int
  toState : String
  reason : Option String

def Call.statement (call : Call) : Statement := .call call.role call.id call.toState call.reason

variable {l : Ledger} {rows : List IntentTransition} {s t : IntentState}

/-- The row records a move that the controls permit the role that it names. -/
def PermittedMove (c : Controls) (intent : TradeIntent) (a : IntentState) (r : IntentTransition) (b : IntentState) :
    Prop :=
  Recorded a r b ∧ Permitted c r.actorRole { intent with status := a } b

/-- A call leaves an intent alone, or it makes a move that is permitted. -/
theorem call_effect (h : l.intents id = some intent) (call : Call) :
    (exec l call.statement).controls = l.controls ∧ ∃ status,
      (exec l call.statement).intents id = some { intent with status := status } ∧ ∃ rows,
        (exec l call.statement).audit id = l.audit id ++ rows ∧
          Run (PermittedMove l.controls intent) intent.status rows status := by
  have hsame : exec l call.statement = l → (exec l call.statement).controls = l.controls ∧ ∃ status,
      (exec l call.statement).intents id = some { intent with status := status } ∧ ∃ rows,
        (exec l call.statement).audit id = l.audit id ++ rows ∧
          Run (PermittedMove l.controls intent) intent.status rows status := by
    intro heq
    rw [heq]
    exact ⟨rfl, intent.status, h, [], (List.append_nil _).symm, rfl⟩
  cases hcall : transitionIntent l call.role.name call.id call.toState call.reason with
  | error e => exact hsame (by simp only [Call.statement, exec, hcall])
  | ok l' =>
    have hdone : exec l call.statement = l' := by simp only [Call.statement, exec, hcall]
    obtain ⟨old, state, hold, -, hpermitted, rfl⟩ := transitionIntent_ok.mp hcall
    rw [hdone]
    refine ⟨rfl, ?_⟩
    by_cases hid : call.id = id
    · rw [hid] at hold
      obtain rfl : old = intent := Option.some.inj (hold.symm.trans h)
      rw [hid]
      refine ⟨state, set_self _ _ _, [_], audit_record_self rfl, run_singleton.mpr ?_⟩
      exact ⟨⟨rfl, rfl, hpermitted.1, rfl⟩, hpermitted⟩
    · refine ⟨intent.status, (set_ne _ (Ne.symm hid) _).trans h, [], ?_, rfl⟩
      rw [List.append_nil]
      exact audit_record_ne hid

/-- A run of calls changes nothing of an intent but its status, by moves that the controls permit. -/
theorem calls_permitted (h : l.intents id = some intent) (calls : List Call) : ∃ status,
    (execAll l (calls.map Call.statement)).intents id = some { intent with status := status } ∧ ∃ rows,
      (execAll l (calls.map Call.statement)).audit id = l.audit id ++ rows ∧
        Run (PermittedMove l.controls intent) intent.status rows status := by
  induction calls generalizing l intent with
  | nil => exact ⟨intent.status, h, [], (List.append_nil _).symm, rfl⟩
  | cons call calls ih =>
    obtain ⟨hcontrols, mid, hmid, before, haudit, hbefore⟩ := call_effect h call
    obtain ⟨status, hlast, after, haudit', hafter⟩ := ih hmid
    refine ⟨status, hlast, before ++ after, ?_, run_append.mpr ⟨mid, hbefore, ?_⟩⟩
    · rw [haudit, List.append_assoc] at haudit'
      exact haudit'
    · rw [hcontrols] at hafter
      exact hafter

theorem forall_of_run {P : IntentTransition → Prop} {step : IntentState → IntentTransition → IntentState → Prop}
    (h : Run step s rows t) (hstep : ∀ a r b, step a r b → P r) : ∀ r ∈ rows, P r := by
  induction rows generalizing s with
  | nil => simp
  | cons r rows ih =>
    obtain ⟨u, hr, hrest⟩ := h
    exact List.forall_mem_cons.mpr ⟨hstep s r u hr, ih hrest⟩

/-- Over a run of calls only roles of its workspace get anything done to an intent, and under an active switch
that halts it they get it no further towards a commitment. -/
theorem calls_confined (h : l.intents id = some intent) (calls : List Call) : ∃ rows,
    (execAll l (calls.map Call.statement)).audit id = l.audit id ++ rows ∧ ∀ r ∈ rows, ∃ w,
      intent.workspaceId = some w ∧ (r.actorRole, w) ∈ l.controls.roleWorkspaces ∧
        ∀ ks ∈ reaching l.controls w intent, ks.mode = .halt →
          r.toState ∉ (forward.drop 1).map asStr := by
  obtain ⟨status, -, rows, haudit, hrows⟩ := calls_permitted h calls
  refine ⟨rows, haudit, forall_of_run hrows ?_⟩
  rintro a r b ⟨hrecord, -, w, v, hcaller, hcommit⟩
  refine ⟨w, hcaller.workspace, hcaller.role, fun ks hks hhalt hname => ?_⟩
  have hentry : b.isEntry = true := by
    rw [hrecord.toState] at hname
    obtain ⟨b', hb', heq⟩ := List.mem_map.mp hname
    obtain rfl := asStr_injective heq
    have hall : ∀ x ∈ forward.drop 1, x.isEntry = true := by decide
    exact hall b' hb'
  exact (hcommit hentry).unhalted ks hks hhalt

/-- An intruder's call and a submission, which are refused, and a release. -/
def haltedCalls : List Call :=
  [⟨⟨"intruder", by decide⟩, 1, "failed_safe", none⟩, ⟨executor, 1, "submitted", none⟩,
    ⟨executor, 1, "failed_safe", some "halted"⟩]

theorem calls_confined_halted : ∃ rows,
    (execAll haltedLedger (haltedCalls.map Call.statement)).audit 1 = haltedLedger.audit 1 ++ rows ∧
      ∀ r ∈ rows, ∃ w, signedBuy.workspaceId = some w ∧ (r.actorRole, w) ∈ haltedControls.roleWorkspaces ∧
        ∀ ks ∈ reaching haltedControls w signedBuy, ks.mode = .halt → r.toState ∉ (forward.drop 1).map asStr :=
  calls_confined (show haltedLedger.intents 1 = some signedBuy from rfl) haltedCalls

end

end WhaleIntelligence.Execution
