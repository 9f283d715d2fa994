import WhaleIntelligence.Execution.Ledger

/- When a transition is let through.

   The tables of the database say what the types of the domain say: the edges are those
   of `canTransitionTo` (`edge_iff`), an edge has a purpose, and it is an entry where it
   leads towards a commitment (`purpose_of_edge`), the reservation actions are those of
   `reservationAction` (`reservation_lookup`), and the classes are those of the fourteen
   actions under their one canonical text (`class_iff`). So the function lets a
   transition through just where the domain permits it (`transitionIntent_ok`). -/
namespace WhaleIntelligence.Execution
open IntentState Checks

/-! ## What the tables say -/

section
variable {a b : IntentState} {n : String}

/-- A state that leads towards a new commitment of funds: neither an outcome nor its reconciliation. -/
def IntentState.isEntry : IntentState → Bool
  | proposed | approved | reserved | built | simulated | signed | submitted => true
  | confirmed | failedSafe | unknownReconciliation | cancelled => false

/-- Every row of the table of edges is a legal transition. -/
theorem edges_legal : ∀ e ∈ intentTransitionEdges,
    ∃ a b : IntentState, e = (a.asStr, b.asStr) ∧ a.canTransitionTo b = true := by
  simp only [intentTransitionEdges, List.forall_mem_cons]
  exact ⟨⟨proposed, approved, rfl, rfl⟩, ⟨approved, reserved, rfl, rfl⟩, ⟨reserved, built, rfl, rfl⟩,
    ⟨built, simulated, rfl, rfl⟩, ⟨simulated, signed, rfl, rfl⟩, ⟨signed, submitted, rfl, rfl⟩,
    ⟨submitted, confirmed, rfl, rfl⟩, ⟨proposed, cancelled, rfl, rfl⟩, ⟨approved, cancelled, rfl, rfl⟩,
    ⟨reserved, failedSafe, rfl, rfl⟩, ⟨built, failedSafe, rfl, rfl⟩, ⟨simulated, failedSafe, rfl, rfl⟩,
    ⟨signed, failedSafe, rfl, rfl⟩, ⟨submitted, failedSafe, rfl, rfl⟩,
    ⟨submitted, unknownReconciliation, rfl, rfl⟩, ⟨unknownReconciliation, confirmed, rfl, rfl⟩,
    ⟨unknownReconciliation, failedSafe, rfl, rfl⟩, ⟨unknownReconciliation, cancelled, rfl, rfl⟩,
    fun _ h => absurd h List.not_mem_nil⟩

/-- The edges of the table are the legal transitions. -/
theorem edge_iff : intentTransitionEdges.contains (a.asStr, n) = true ↔
    ∃ b : IntentState, n = b.asStr ∧ a.canTransitionTo b = true := by
  rw [List.contains_iff_mem]
  refine ⟨fun h => ?_, ?_⟩
  · obtain ⟨a', b, he, hlegal⟩ := edges_legal _ h
    obtain ⟨hfrom, hto⟩ := Prod.mk.inj he
    rw [asStr_injective hfrom]
    exact ⟨b, hto, hlegal⟩
  · rintro ⟨b, rfl, hlegal⟩
    cases a <;> cases b <;> first | exact absurd hlegal (by decide) | simp [intentTransitionEdges, asStr]

/-- Every edge has a purpose, and the entries are the edges to the states that lead towards a commitment. -/
theorem purpose_of_edge (h : a.canTransitionTo b = true) :
    ∃ p, intentTransitionPurposes.lookup (a.asStr, b.asStr) = some p ∧ ((p == "entry") = b.isEntry) := by
  cases a <;> cases b <;> first | exact absurd h (by decide) | exact ⟨_, rfl, by decide⟩

theorem reservation_lookup (b : IntentState) :
    intentReservationActions.lookup b.asStr = some (reservationAction b).asStr := by
  cases b <;> rfl

/-- The text of an action in the database. -/
def Action.asStr : Action → String
  | .trade .buy => "buy"
  | .trade .sell => "sell"
  | .trade .partialSell => "partial_sell"
  | .trade .close => "close"
  | .trade .emergencyExit => "emergency_exit"
  | .lp .openPosition => "open_position"
  | .lp .addLiquidity => "add_liquidity"
  | .lp .claimFees => "claim_fees"
  | .lp .compoundFees => "compound_fees"
  | .lp .partialWithdraw => "partial_withdraw"
  | .lp .closePosition => "close_position"
  | .lp .reseedPosition => "reseed_position"
  | .lp .swapResiduals => "swap_residuals"
  | .lp .emergencyExit => "lp_emergency_exit"

theorem parseAction_asStr (x : Action) : parseAction x.asStr = some x := by
  obtain t | t := x <;> cases t <;> rfl

/-- The class of an action. -/
def Action.riskClass (x : Action) : String := if x.reducing then "reducing" else "adding"

theorem class_lookup (x : Action) : intentActionClasses.lookup x.asStr = some x.riskClass := by
  obtain t | t := x <;> cases t <;> rfl

theorem classes_known : ∀ r ∈ intentActionClasses, ∃ x : Action, r.1 = x.asStr := by
  simp only [intentActionClasses, List.forall_mem_cons]
  exact ⟨⟨.trade .sell, rfl⟩, ⟨.trade .partialSell, rfl⟩, ⟨.trade .close, rfl⟩, ⟨.trade .emergencyExit, rfl⟩,
    ⟨.lp .claimFees, rfl⟩, ⟨.lp .partialWithdraw, rfl⟩, ⟨.lp .closePosition, rfl⟩, ⟨.lp .swapResiduals, rfl⟩,
    ⟨.lp .emergencyExit, rfl⟩, ⟨.trade .buy, rfl⟩, ⟨.lp .openPosition, rfl⟩, ⟨.lp .addLiquidity, rfl⟩,
    ⟨.lp .compoundFees, rfl⟩, ⟨.lp .reseedPosition, rfl⟩, fun _ h => absurd h List.not_mem_nil⟩

/-- The classified texts are those of the actions. -/
theorem class_iff {c : String} :
    intentActionClasses.lookup n = some c ↔ ∃ x : Action, n = x.asStr ∧ c = x.riskClass := by
  refine ⟨fun h => ?_, ?_⟩
  · obtain ⟨before, after, hrows, -⟩ := List.lookup_eq_some_iff.mp h
    have hmem : (n, c) ∈ intentActionClasses := by
      rw [hrows]
      simp
    obtain ⟨x, hx⟩ := classes_known _ hmem
    obtain rfl : n = x.asStr := hx
    rw [class_lookup] at h
    exact ⟨x, rfl, (Option.some.inj h).symm⟩
  · rintro ⟨x, rfl, rfl⟩
    exact class_lookup x

theorem adding_iff {x : Action} : (x.riskClass == "adding") = true ↔ x.reducing = false := by
  unfold Action.riskClass
  cases x.reducing <;> decide

end

/-! ## Permitted transitions -/

section
variable {c : Controls} {user : String} {id w v : Int} {intent : TradeIntent} {state : IntentState}

/-- The caller may act for the intent: the role is mapped to its workspace, which owns its policy. -/
structure Entitled (c : Controls) (user : String) (intent : TradeIntent) (w v : Int) : Prop where
  workspace : intent.workspaceId = some w
  role : (user, w) ∈ c.roleWorkspaces
  version : intent.automationPolicyVersionId = some v
  owned : policyOwned c v w = true

/-- The switches that are on and reach the intent. -/
def reaching (c : Controls) (w : Int) (intent : TradeIntent) : List KillSwitchRow :=
  c.killSwitches.filter fun ks => ks.active && ks.reaches c w intent

/-- A new commitment is let through: its policy is in force, its action is one of the domain, no switch halts
it, and any switch asks that it reduces what is at risk. -/
structure Committable (c : Controls) (intent : TradeIntent) (w v : Int) : Prop where
  inForce : policyInForce c v w = true
  unhalted : ∀ ks ∈ reaching c w intent, ks.mode ≠ .halt
  action : ∃ x : Action, intent.action = x.asStr ∧ (reaching c w intent ≠ [] → x.reducing = true)

/-- The transition is legal, the caller may act for the intent, and a new commitment is let through. -/
def Permitted (c : Controls) (user : String) (intent : TradeIntent) (state : IntentState) : Prop :=
  intent.status.canTransitionTo state = true ∧
    ∃ w v, Entitled c user intent w v ∧ (state.isEntry = true → Committable c intent w v)

theorem policyOwned_of_inForce (h : policyInForce c v w = true) : policyOwned c v w = true := by
  simp only [policyInForce, policyOwned, List.any_eq_true, Bool.and_eq_true, beq_iff_eq] at h ⊢
  obtain ⟨apv, happ, hid, ap, hap, ⟨⟨hpolicy, -⟩, hworkspace⟩, -⟩ := h
  exact ⟨apv, happ, hid, ap, hap, hpolicy, hworkspace⟩

theorem killSwitchActive_eq_false {mode : KillSwitchMode} :
    killSwitchActive c mode w intent = false ↔ ∀ ks ∈ reaching c w intent, ks.mode ≠ mode := by
  simp only [killSwitchActive, reaching, List.any_eq_false, List.mem_filter, Bool.and_eq_true, beq_iff_eq]
  refine forall_congr' fun ks => ⟨fun h hks hmode => ?_, fun h hks hall => ?_⟩
  · exact h hks.1 ⟨⟨hks.2.1, hmode⟩, hks.2.2⟩
  · exact h ⟨hks, hall.1.1, hall.2⟩ hall.1.2

/-- Where no switch halts, those of the other mode are all that there are. -/
theorem exitOnly_active_iff (h : ∀ ks ∈ reaching c w intent, ks.mode ≠ .halt) :
    killSwitchActive c .exitOnly w intent = true ↔ reaching c w intent ≠ [] := by
  rw [← Bool.not_eq_false, killSwitchActive_eq_false, not_iff_not, List.eq_nil_iff_forall_not_mem]
  refine forall_congr' fun ks => ⟨fun hmode hks => ?_, fun hks hmem => absurd hmem hks⟩
  cases hm : ks.mode with
  | halt => exact h ks hks hm
  | exitOnly => exact hmode hks hm

/-- What the checks of an entry come to. -/
theorem committable_iff : Committable c intent w v ↔
    policyInForce c v w = true ∧ killSwitchActive c .halt w intent = false ∧
      ∃ r, intentActionClasses.lookup intent.action = some r ∧
        ¬ ((r == "adding") = true ∧ killSwitchActive c .exitOnly w intent = true) := by
  constructor
  · rintro ⟨hforce, hhalt, x, hx, hreduces⟩
    refine ⟨hforce, killSwitchActive_eq_false.mpr hhalt, x.riskClass, class_iff.mpr ⟨x, hx, rfl⟩, ?_⟩
    rw [adding_iff, exitOnly_active_iff hhalt]
    rintro ⟨hadding, hany⟩
    rw [hreduces hany] at hadding
    exact Bool.noConfusion hadding
  · rintro ⟨hforce, hhalt, r, hr, hexit⟩
    rw [killSwitchActive_eq_false] at hhalt
    obtain ⟨x, hx, rfl⟩ := class_iff.mp hr
    refine ⟨hforce, hhalt, x, hx, fun hany => ?_⟩
    rw [adding_iff, exitOnly_active_iff hhalt] at hexit
    by_contra hadding
    exact hexit ⟨by simpa using hadding, hany⟩

/-- The policy and the kill switches let an entry through where it is committable, and anything else where
the policy is one of the workspace. -/
theorem gates_ok_iff (id : Int) {p n : String} (hp : (p == "entry") = state.isEntry) :
    (checkPolicy c id p v w = .ok () ∧ checkKillSwitches c id intent w p n = .ok ()) ↔
      policyOwned c v w = true ∧ (state.isEntry = true → Committable c intent w v) := by
  unfold checkPolicy checkKillSwitches
  rw [hp]
  cases state.isEntry with
  | true =>
    simp only [if_true, ensure_ok, check_bind, demand_bind, forall_const, committable_iff, Bool.not_eq_true',
      Bool.and_eq_false_imp]
    constructor
    · rintro ⟨hforce, hhalt, r, hr, hexit⟩
      refine ⟨policyOwned_of_inForce hforce, hforce, hhalt, r, hr, fun hboth => ?_⟩
      rw [hexit hboth.1] at hboth
      exact Bool.noConfusion hboth.2
    · rintro ⟨-, hforce, hhalt, r, hr, hexit⟩
      refine ⟨hforce, hhalt, r, hr, fun hadding => ?_⟩
      by_contra hactive
      exact hexit ⟨hadding, by simpa using hactive⟩
  | false => simp

/-- The checks let through what is permitted, and the audit records the reservation action of the state. -/
theorem authorize_ok_iff (id : Int) {n r : String} : authorizeTransition c user id intent n = .ok r ↔
    ∃ state : IntentState, n = state.asStr ∧ Permitted c user intent state ∧ r = (reservationAction state).asStr := by
  simp only [authorizeTransition, demand_bind, check_bind, ensure_ok, demand_ok, List.contains_iff_mem]
  constructor
  · rintro ⟨w, hw, hrole, hedge, p, hp, v, hv, hpolicy, hswitches, hr⟩
    obtain ⟨state, rfl, hlegal⟩ := edge_iff.mp (List.contains_iff_mem.mpr hedge)
    obtain ⟨p', hp', hentry⟩ := purpose_of_edge hlegal
    obtain rfl : p' = p := Option.some.inj (hp'.symm.trans hp)
    obtain ⟨howned, hcommit⟩ := (gates_ok_iff id hentry).mp ⟨hpolicy, hswitches⟩
    rw [reservation_lookup] at hr
    exact ⟨state, rfl, ⟨hlegal, w, v, ⟨hw, hrole, hv, howned⟩, hcommit⟩, (Option.some.inj hr).symm⟩
  · rintro ⟨state, rfl, ⟨hlegal, w, v, ⟨hw, hrole, hv, howned⟩, hcommit⟩, rfl⟩
    obtain ⟨p, hp, hentry⟩ := purpose_of_edge hlegal
    obtain ⟨hpolicy, hswitches⟩ := (gates_ok_iff id hentry).mpr ⟨howned, hcommit⟩
    have hedge := List.contains_iff_mem.mp (edge_iff.mpr ⟨state, rfl, hlegal⟩)
    exact ⟨w, hw, hrole, hedge, p, hp, v, hv, hpolicy, hswitches, reservation_lookup state⟩

/-- A call lets a transition through just where the domain permits it, and then records it. -/
theorem transitionIntent_ok {l l' : Ledger} {n : String} {reason : Option String} :
    transitionIntent l user id n reason = .ok l' ↔
      ∃ intent state, l.intents id = some intent ∧ n = state.asStr ∧ Permitted l.controls user intent state ∧
        l' = l.record intent state
          ⟨id, intent.status.asStr, state.asStr, (reservationAction state).asStr, reason, user⟩ := by
  unfold transitionIntent
  cases hid : l.intents id with
  | none => simp
  | some intent =>
    dsimp only
    cases hchecks : authorizeTransition l.controls user id intent n with
    | error e =>
      refine ⟨fun h => absurd h (by simp), ?_⟩
      rintro ⟨intent', state, hintent, rfl, hpermitted, -⟩
      obtain rfl := Option.some.inj hintent
      have hok := (authorize_ok_iff id).mpr ⟨state, rfl, hpermitted, rfl⟩
      rw [hchecks] at hok
      cases hok
    | ok r =>
      obtain ⟨state, rfl, hpermitted, rfl⟩ := (authorize_ok_iff id).mp hchecks
      dsimp only
      rw [parse_eq_some.mpr rfl]
      constructor
      · intro h
        exact ⟨intent, state, rfl, rfl, hpermitted, (Except.ok.inj h).symm⟩
      · rintro ⟨intent', state', hintent, hname, -, rfl⟩
        obtain rfl := Option.some.inj hintent
        obtain rfl := asStr_injective hname
        rfl

/-! ## The gate of the domain -/

/-- The scope of a name. -/
def KillSwitchScope.parse : String → Option KillSwitchScope
  | "global" => some .global
  | "chain" => some .chain
  | "wallet" => some .wallet
  | "strategy" => some .strategy
  | "protocol" => some .protocol
  | "sourcehealth" => some .sourceHealth
  | "dailyloss" => some .dailyLoss
  | "signerlocal" => some .signerLocal
  | _ => none

/-- The row as a value of the domain. -/
def KillSwitchRow.toKillSwitch (ks : KillSwitchRow) : Option KillSwitch :=
  (KillSwitchScope.parse ks.scope).map fun scope => ⟨scope, ks.scopeKey, ks.mode, ks.active⟩

/-- The switches that reach the intent, as the domain has them. -/
def switchesOf (c : Controls) (w : Int) (intent : TradeIntent) : List KillSwitch :=
  (c.killSwitches.filter fun ks => ks.reaches c w intent).filterMap KillSwitchRow.toKillSwitch

/-- A switch that reaches an intent is one of the domain. -/
theorem toKillSwitch_of_reaches {ks : KillSwitchRow} (h : ks.reaches c w intent = true) :
    ∃ s, ks.toKillSwitch = some s ∧ s.mode = ks.mode ∧ s.active = ks.active := by
  have hscope : ks.scope = "global" ∨ ks.scope = "chain" ∨ ks.scope = "wallet" := by
    simp only [KillSwitchRow.reaches, Bool.and_eq_true, Bool.or_eq_true, beq_iff_eq] at h
    obtain ⟨-, (hglobal | ⟨hchain, -⟩) | ⟨⟨hwallet, -⟩, -⟩⟩ := h
    · exact Or.inl hglobal
    · exact Or.inr (Or.inl hchain)
    · exact Or.inr (Or.inr hwallet)
  obtain ⟨scope, hs⟩ : ∃ scope, KillSwitchScope.parse ks.scope = some scope := by
    rcases hscope with hs | hs | hs <;> rw [hs] <;> exact ⟨_, rfl⟩
  exact ⟨⟨scope, ks.scopeKey, ks.mode, ks.active⟩, by rw [KillSwitchRow.toKillSwitch, hs]; rfl, rfl, rfl⟩

theorem mem_switchesOf {s : KillSwitch} : s ∈ switchesOf c w intent ↔
    ∃ ks ∈ c.killSwitches, ks.reaches c w intent = true ∧ ks.toKillSwitch = some s := by
  simp [switchesOf, and_assoc]

/-- The two gates agree on trades. -/
theorem actionPermitted_switchesOf {x : TradeAction} : actionPermitted (switchesOf c w intent) x = true ↔
    (∀ ks ∈ reaching c w intent, ks.mode ≠ .halt) ∧ (reaching c w intent ≠ [] → isRiskReducing x = true) := by
  have hhalted : isHalted (switchesOf c w intent) = true ↔ reaching c w intent ≠ [] := by
    rw [isHalted, List.any_eq_true]
    constructor
    · rintro ⟨s, hs, hon⟩
      obtain ⟨ks, hks, hreach, hdomain⟩ := mem_switchesOf.mp hs
      obtain ⟨s', hs', -, hactive⟩ := toKillSwitch_of_reaches hreach
      obtain rfl : s = s' := Option.some.inj (hdomain.symm.trans hs')
      exact List.ne_nil_of_mem (List.mem_filter.mpr ⟨hks, by rw [← hactive, hon, hreach]; rfl⟩)
    · intro hne
      obtain ⟨ks, hks⟩ := List.exists_mem_of_ne_nil _ hne
      obtain ⟨hmem, hboth⟩ := List.mem_filter.mp hks
      obtain ⟨hon, hreach⟩ := Bool.and_eq_true_iff.mp hboth
      obtain ⟨s, hs, -, hactive⟩ := toKillSwitch_of_reaches hreach
      exact ⟨s, mem_switchesOf.mpr ⟨ks, hmem, hreach, hs⟩, hactive.trans hon⟩
  rw [actionPermitted_iff, hhalted]
  refine and_congr_left fun _ => ⟨fun h ks hks => ?_, fun h s hs hon => ?_⟩
  · obtain ⟨hmem, hboth⟩ := List.mem_filter.mp hks
    obtain ⟨hon, hreach⟩ := Bool.and_eq_true_iff.mp hboth
    obtain ⟨s, hs, hmode, hactive⟩ := toKillSwitch_of_reaches hreach
    rw [← hmode]
    exact h s (mem_switchesOf.mpr ⟨ks, hmem, hreach, hs⟩) (hactive.trans hon)
  · obtain ⟨ks, hks, hreach, hdomain⟩ := mem_switchesOf.mp hs
    obtain ⟨s', hs', hmode, hactive⟩ := toKillSwitch_of_reaches hreach
    obtain rfl : s = s' := Option.some.inj (hdomain.symm.trans hs')
    rw [hmode]
    exact h ks (List.mem_filter.mpr ⟨hks, by rw [← hactive, hon, hreach]; rfl⟩)

/-- The text of an action is the one that the intent carries. -/
theorem asStr_inj {x y : Action} (h : x.asStr = y.asStr) : x = y := by
  have hx := parseAction_asStr x
  rw [h, parseAction_asStr y] at hx
  exact (Option.some.inj hx).symm

/-- A new commitment of a trade is let through just where the policy is in force and the gate of the domain
permits its action under the switches that reach the intent. -/
theorem committable_trade_iff {x : TradeAction} (hx : intent.action = (Action.trade x).asStr) :
    Committable c intent w v ↔ policyInForce c v w = true ∧ actionPermitted (switchesOf c w intent) x = true := by
  rw [actionPermitted_switchesOf]
  constructor
  · rintro ⟨hforce, hhalt, y, hy, hreduces⟩
    obtain rfl : Action.trade x = y := asStr_inj (hx.symm.trans hy)
    exact ⟨hforce, hhalt, hreduces⟩
  · rintro ⟨hforce, hhalt, hreduces⟩
    exact ⟨hforce, hhalt, .trade x, hx, hreduces⟩

/-- A call moves a trade towards a commitment just where the move is legal, the caller may act for the intent,
its policy is in force, and the gate of the domain permits the trade. -/
theorem trade_entry_iff {l : Ledger} {x : TradeAction} {user : String} {reason : Option String}
    (hid : l.intents id = some intent) (hx : intent.action = (Action.trade x).asStr)
    (hentry : state.isEntry = true) :
    (∃ l', transitionIntent l user id state.asStr reason = .ok l') ↔
      intent.status.canTransitionTo state = true ∧ ∃ w v, Entitled l.controls user intent w v ∧
        policyInForce l.controls v w = true ∧ actionPermitted (switchesOf l.controls w intent) x = true := by
  constructor
  · rintro ⟨l', hok⟩
    obtain ⟨old, state', hold, hname, ⟨hlegal, w, v, hcaller, hcommit⟩, -⟩ := transitionIntent_ok.mp hok
    obtain rfl : old = intent := Option.some.inj (hold.symm.trans hid)
    obtain rfl : state = state' := asStr_injective hname
    exact ⟨hlegal, w, v, hcaller, (committable_trade_iff hx).mp (hcommit hentry)⟩
  · rintro ⟨hlegal, w, v, hcaller, hgate⟩
    refine ⟨_, transitionIntent_ok.mpr ⟨intent, state, hid, rfl, ⟨hlegal, w, v, hcaller, fun _ => ?_⟩, rfl⟩⟩
    exact (committable_trade_iff hx).mpr hgate

theorem trade_entry_halted :
    (∃ l', transitionIntent haltedLedger "executor" 1 submitted.asStr none = .ok l') ↔
      signedBuy.status.canTransitionTo submitted = true ∧ ∃ w v,
        Entitled haltedLedger.controls "executor" signedBuy w v ∧ policyInForce haltedLedger.controls v w = true ∧
          actionPermitted (switchesOf haltedLedger.controls w signedBuy) .buy = true :=
  trade_entry_iff rfl rfl rfl

end

end WhaleIntelligence.Execution
