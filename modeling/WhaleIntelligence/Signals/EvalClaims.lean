import WhaleIntelligence.Lib.Runs
import WhaleIntelligence.Signals.Alpha

/- The claims of the signal evaluation, as a system of concurrent passes.

   A pass of `evaluate_due_signals` reads its clock, selects the tokens that are due,
   and then for each of them claims the token, evaluates it under the claim, and
   releases the claim when the evaluation failed. Each of these is a step of its own,
   and the steps of any number of passes interleave. What the gates are asked about is
   arbitrary, and any evaluation may fail. -/
namespace WhaleIntelligence.Signals.Claims
open WhaleIntelligence KeyedTable Runs

def signalEvalReevalSeconds : Int := 300

def evalLeaseSeconds : Int := 600

def batchLimit : Nat := 20

/-! ## State -/

/-- A row of `signal_evaluations` and when it was committed. -/
structure Commit where
  time : DateTime
  row : EvaluationRow
  deriving DecidableEq, Repr

/-- Where a pass is in its loop. -/
inductive Stage where
  | begun
  | next (due : List (String × String))
  | claimed (chainStr : String) (chain : ChainKind) (mint token : String) (due : List (String × String))
  | failed (chainStr : String) (mint token : String) (due : List (String × String))
  deriving DecidableEq, Repr

structure Pass where
  startedAt : DateTime
  config : SignalsConfig
  stage : Stage
  deriving DecidableEq, Repr

structure EvalState where
  now : DateTime
  claims : EvalClaims
  evaluations : List Commit
  signals : List SignalRow
  passes : Table Nat Pass
  /-- The claim tokens made so far. -/
  minted : List String

/-- The token under which the pass holds or held a claim. -/
def Stage.token : Stage → Option String
  | .claimed _ _ _ token _ => some token
  | .failed _ _ token _ => some token
  | _ => none

/-! ## Statements -/

def supportedStates : List String :=
  ["new_creation", "bonding_curve", "near_graduation", "graduated", "post_migration"]

/-- No evaluation of the token by the workspace is in the last five minutes. -/
def notEvaluated (dbNow : DateTime) (workspaceId : Int) (evaluations : List Commit) (token : TokenRow) : Bool :=
  !evaluations.any fun e => e.row.workspaceId == workspaceId && e.row.chain == token.chain &&
    e.row.mint == token.mint && dbNow - seconds signalEvalReevalSeconds < e.row.evaluatedAt

def isDue (dbNow : DateTime) (workspaceId : Int) (config : SignalsConfig) (evaluations : List Commit)
    (token : TokenRow) : Bool :=
  (token.chain == "solana" || token.chain == "robinhood") && supportedStates.contains token.lifecycleState &&
    token.firstSeenAt.any (fun t => dbNow - seconds (config.entryMaxTokenAgeHours * 3600) < t) &&
    notEvaluated dbNow workspaceId evaluations token

/-- `ORDER BY first_seen_at, mint`. -/
def seenBefore (a b : TokenRow) : Bool :=
  a.firstSeenAt.getD 0 < b.firstSeenAt.getD 0 || (a.firstSeenAt == b.firstSeenAt && a.mint ≤ b.mint)

/-- The tokens that are due, oldest first. -/
def dueTokens (dbNow : DateTime) (workspaceId : Int) (config : SignalsConfig) (tokens : List TokenRow)
    (evaluations : List Commit) : List (String × String) :=
  (((tokens.filter (isDue dbNow workspaceId config evaluations)).insertionSort fun a b => seenBefore a b).take
    batchLimit).map fun t => (t.chain, t.mint)

def newClaim (now : DateTime) (token : String) : EvalClaim := ⟨token, now, now + seconds evalLeaseSeconds⟩

/-- The claim is inserted, or it takes over one that has run out. -/
def claimToken (claims : EvalClaims) (now : DateTime) (key : EvalKey) (token : String) : EvalClaims :=
  claims.upsert key (newClaim now token) (EvalClaim.expired · now) fun _ => newClaim now token

/-- The statement of the claim returns a row. -/
def claimTaken (claims : EvalClaims) (now : DateTime) (key : EvalKey) (token : String) : Bool :=
  (claims.upserted key (newClaim now token) (EvalClaim.expired · now) fun _ => newClaim now token).isSome

/-! ## Steps -/

inductive Event where
  | tick (now : DateTime)
  | start (p : Nat) (config : SignalsConfig)
  | select (p : Nat) (tokens : List TokenRow)
  /-- A chain that does not parse is passed over. -/
  | pass (p : Nat)
  | claim (p : Nat) (key : EvalKey) (token : String) (now : DateTime) (taken : Bool)
  | write (p : Nat) (key : EvalKey) (token : String) (now : DateTime) (inputs : AlphaInputs) (id : Int)
  /-- The evaluation fails: a read, a write, the fence, or the commit. -/
  | fail (p : Nat)
  | release (p : Nat) (key : EvalKey) (token : String) (done : Bool)
  deriving DecidableEq, Repr

def EvalState.setStage (s : EvalState) (p : Nat) (pass : Pass) (stage : Stage) : EvalState :=
  { s with passes := s.passes.set p (some { pass with stage := stage }) }

def signalRows (out : Evaluated) (id : Int) : List SignalRow := (out.signal.map fun n => ⟨n, id⟩).toList

/-- What a step of the workspace's passes does. -/
def Step (workspaceId : Int) (s : EvalState) (e : Event) (s' : EvalState) : Prop :=
  match e with
  | .tick now => s.now ≤ now ∧ s' = { s with now := now }
  | .start p config =>
    s.passes p = none ∧ s' = { s with passes := s.passes.set p (some ⟨s.now, config, .begun⟩) }
  | .select p tokens =>
    ∃ pass, s.passes p = some pass ∧ pass.stage = .begun ∧
      s' = s.setStage p pass (.next (dueTokens s.now workspaceId pass.config tokens s.evaluations))
  | .pass p =>
    ∃ pass chainStr mint due, s.passes p = some pass ∧ pass.stage = .next ((chainStr, mint) :: due) ∧
      ChainKind.parse chainStr = none ∧ s' = s.setStage p pass (.next due)
  | .claim p key token now taken =>
    ∃ pass chainStr chain mint due, s.passes p = some pass ∧ pass.stage = .next ((chainStr, mint) :: due) ∧
      ChainKind.parse chainStr = some chain ∧ key = (workspaceId, chainStr, mint) ∧ token ∉ s.minted ∧ now = s.now ∧
      taken = claimTaken s.claims s.now key token ∧
      s' = { s.setStage p pass (if taken then .claimed chainStr chain mint token due else .next due) with
        claims := claimToken s.claims s.now key token
        minted := token :: s.minted }
  | .write p key token now inputs id =>
    ∃ pass chainStr chain mint due out claims, s.passes p = some pass ∧
      pass.stage = .claimed chainStr chain mint token due ∧ key = (workspaceId, chain.asStr, mint) ∧ now = s.now ∧
      evaluateTokenFenced s.claims s.now s.signals workspaceId chain mint pass.startedAt pass.config inputs.token
        inputs.market inputs.clusters inputs.wallets none token = .ok (out, claims) ∧
      s' = { s.setStage p pass (.next due) with
        claims := claims
        evaluations := s.evaluations ++ [⟨s.now, out.evaluation⟩]
        signals := s.signals ++ signalRows out id }
  | .fail p =>
    ∃ pass chainStr chain mint token due, s.passes p = some pass ∧
      pass.stage = .claimed chainStr chain mint token due ∧ s' = s.setStage p pass (.failed chainStr mint token due)
  | .release p key token done =>
    ∃ pass chainStr mint due, s.passes p = some pass ∧ pass.stage = .failed chainStr mint token due ∧
      key = (workspaceId, chainStr, mint) ∧
      s' = { s.setStage p pass (.next due) with
        claims := if done then releaseEvalClaim s.claims key token else s.claims }

/-! ## What a step does to the claims -/

/-- The key that a claim takes. -/
def Event.takes : Event → Option EvalKey
  | .claim _ key _ _ true => some key
  | _ => none

/-- The claim that the event deletes, if it is still there. -/
def Event.releases : Event → Option (EvalKey × String)
  | .write _ key token _ _ _ => some (key, token)
  | .release _ key token true => some (key, token)
  | _ => none

/-- The claim under which the event writes, and when. -/
def Event.writes : Event → Option (EvalKey × String × DateTime)
  | .write _ key token now _ _ => some (key, token, now)
  | _ => none

section
variable {workspaceId : Int} {s s' s₀ t : EvalState} {e : Event} {es : List Event} {key : EvalKey} {c : EvalClaim}

/-- The evaluation writes exactly when its claim is held and the gates come to an end. -/
theorem evaluateTokenFenced_ok_iff {claims claims' : EvalClaims} {dbNow now : DateTime} {signals : List SignalRow}
    {chain : ChainKind} {mint token : String} {config : SignalsConfig} {gate : TokenGate} {market : MarketGate}
    {clusters : ClusterSummary} {wallets : WalletEligibility} {narrative : Option Nat} {out : Evaluated} :
    evaluateTokenFenced claims dbNow signals workspaceId chain mint now config gate market clusters wallets
      narrative token = .ok (out, claims') ↔
    claims.affects (workspaceId, chain.asStr, mint) (EvalClaim.heldBy · token dbNow) = true ∧
      evaluateTokenOn signals workspaceId chain mint now config gate market clusters wallets narrative = .ok out ∧
      releaseEvalClaim claims (workspaceId, chain.asStr, mint) token = claims' := by
  unfold evaluateTokenFenced
  simp only
  by_cases hheld : claims.affects (workspaceId, chain.asStr, mint) (EvalClaim.heldBy · token dbNow) = true
  · rw [if_pos hheld, iff_true_intro hheld, true_and]
    cases evaluateTokenOn signals workspaceId chain mint now config gate market clusters wallets narrative with
    | error err => exact ⟨fun h => (by cases h), fun h => (by cases h.1)⟩
    | ok out' =>
      show Except.ok (out', _) = Except.ok (out, claims') ↔ _
      rw [Except.ok.injEq, Except.ok.injEq, Prod.mk.injEq]
  · rw [if_neg hheld]
    exact ⟨fun h => (by cases h), fun h => absurd h.1 hheld⟩

/-- A release removes the claim of its key and token and nothing else. -/
theorem release_cases (claims : EvalClaims) (key : EvalKey) (token : String) (j : EvalKey) :
    (releaseEvalClaim claims key token j = claims j ∧
      ∀ c, claims j = some c → (key, token) ≠ (j, c.claimedBy)) ∨
      (j = key ∧ releaseEvalClaim claims key token j = none) := by
  rw [releaseEvalClaim]
  rcases deleteWhere_cases claims key (fun claim => claim.claimedBy == token) j with ⟨heq, hno⟩ | ⟨hj, -, heq⟩
  · refine Or.inl ⟨heq, fun c hc hkey => ?_⟩
    obtain ⟨rfl, rfl⟩ := Prod.mk.inj hkey
    have hfalse := hno rfl
    rw [Table.affects, hc] at hfalse
    simp at hfalse
  · exact Or.inr ⟨hj, heq⟩

/-- A step leaves a claim that it neither takes nor releases, takes one that has run
out, or releases one. -/
theorem step_claims (h : Step workspaceId s e s') (key : EvalKey) :
    (s'.claims key = s.claims key ∧ e.takes ≠ some key ∧
      ∀ c, s.claims key = some c → e.releases ≠ some (key, c.claimedBy)) ∨
      (∃ p token, e = .claim p key token s.now true ∧ s'.claims key = some (newClaim s.now token)) ∨
      s'.claims key = none := by
  have hnone : ∀ (f : Event), f.takes = none → f.releases = none → f.takes ≠ some key ∧
      ∀ c, s.claims key = some c → f.releases ≠ some (key, c.claimedBy) := by
    intro f htakes hreleases
    rw [htakes, hreleases]
    exact ⟨by simp, by simp⟩
  cases e with
  | tick now => obtain ⟨-, rfl⟩ := h; exact Or.inl ⟨rfl, hnone _ rfl rfl⟩
  | start p config => obtain ⟨-, rfl⟩ := h; exact Or.inl ⟨rfl, hnone _ rfl rfl⟩
  | select p tokens => obtain ⟨pass, -, -, rfl⟩ := h; exact Or.inl ⟨rfl, hnone _ rfl rfl⟩
  | pass p => obtain ⟨pass, chainStr, mint, due, -, -, -, rfl⟩ := h; exact Or.inl ⟨rfl, hnone _ rfl rfl⟩
  | fail p => obtain ⟨pass, chainStr, chain, mint, token, due, -, -, rfl⟩ := h; exact Or.inl ⟨rfl, hnone _ rfl rfl⟩
  | claim p k token now taken =>
    obtain ⟨pass, chainStr, chain, mint, due, -, -, -, -, -, rfl, htaken, rfl⟩ := h
    show (claimToken s.claims s.now k token key = _ ∧ _) ∨ _ ∨ _
    rw [claimTaken] at htaken
    rw [claimToken]
    rcases upsert_cases s.claims k (newClaim s.now token) (EvalClaim.expired · s.now)
      (fun _ => newClaim s.now token) key
      with ⟨heq, hno⟩ | ⟨rfl, -, hw, heq⟩ | ⟨r, rfl, -, -, hw, heq⟩
    · refine Or.inl ⟨heq, ?_, by simp [Event.releases]⟩
      cases taken with
      | false => simp [Event.takes]
      | true =>
        intro hkey
        rw [hno (Option.some.inj hkey).symm] at htaken
        cases htaken
    · rw [hw] at htaken
      exact Or.inr (Or.inl ⟨p, token, by rw [htaken]; rfl, heq⟩)
    · rw [hw] at htaken
      exact Or.inr (Or.inl ⟨p, token, by rw [htaken]; rfl, heq⟩)
  | write p k token now inputs id =>
    obtain ⟨pass, chainStr, chain, mint, due, out, claims, -, -, rfl, rfl, hok, rfl⟩ := h
    obtain ⟨-, -, rfl⟩ := evaluateTokenFenced_ok_iff.mp hok
    rcases release_cases s.claims (workspaceId, chain.asStr, mint) token key with ⟨heq, hno⟩ | ⟨-, heq⟩
    · exact Or.inl ⟨heq, by simp [Event.takes], fun c hc heq' => hno c hc (Option.some.inj heq')⟩
    · exact Or.inr (Or.inr heq)
  | release p k token done =>
    obtain ⟨pass, chainStr, mint, due, -, -, rfl, rfl⟩ := h
    cases done with
    | false => exact Or.inl ⟨rfl, hnone _ rfl rfl⟩
    | true =>
      rcases release_cases s.claims (workspaceId, chainStr, mint) token key with ⟨heq, hno⟩ | ⟨-, heq⟩
      · exact Or.inl ⟨heq, by simp [Event.takes], fun c hc heq' => hno c hc (Option.some.inj heq')⟩
      · exact Or.inr (Or.inr heq)

/-- The clock does not go back, no token is made twice, and only a write adds rows. -/
theorem step_frame (h : Step workspaceId s e s') :
    s.now ≤ s'.now ∧ (∀ token ∈ s.minted, token ∈ s'.minted) ∧
      (e.writes = none → s'.evaluations = s.evaluations ∧ s'.signals = s.signals) := by
  cases e with
  | tick now => obtain ⟨hle, rfl⟩ := h; exact ⟨hle, fun _ ht => ht, fun _ => ⟨rfl, rfl⟩⟩
  | start p config => obtain ⟨-, rfl⟩ := h; exact ⟨le_rfl, fun _ ht => ht, fun _ => ⟨rfl, rfl⟩⟩
  | select p tokens => obtain ⟨pass, -, -, rfl⟩ := h; exact ⟨le_rfl, fun _ ht => ht, fun _ => ⟨rfl, rfl⟩⟩
  | pass p =>
    obtain ⟨pass, chainStr, mint, due, -, -, -, rfl⟩ := h
    exact ⟨le_rfl, fun _ ht => ht, fun _ => ⟨rfl, rfl⟩⟩
  | claim p k token now taken =>
    obtain ⟨pass, chainStr, chain, mint, due, -, -, -, -, -, -, -, rfl⟩ := h
    exact ⟨le_rfl, fun _ ht => List.mem_cons_of_mem _ ht, fun _ => ⟨rfl, rfl⟩⟩
  | write p k token now inputs id =>
    obtain ⟨pass, chainStr, chain, mint, due, out, claims, -, -, -, -, -, rfl⟩ := h
    exact ⟨le_rfl, fun _ ht => ht, fun hw => by cases hw⟩
  | fail p =>
    obtain ⟨pass, chainStr, chain, mint, token, due, -, -, rfl⟩ := h
    exact ⟨le_rfl, fun _ ht => ht, fun _ => ⟨rfl, rfl⟩⟩
  | release p k token done =>
    obtain ⟨pass, chainStr, mint, due, -, -, -, rfl⟩ := h
    exact ⟨le_rfl, fun _ ht => ht, fun _ => ⟨rfl, rfl⟩⟩

/-- What a write finds and adds: the claim of its token, still running, and one row. -/
theorem step_write {p : Nat} {token : String} {now : DateTime} {inputs : AlphaInputs} {id : Int}
    (h : Step workspaceId s (.write p key token now inputs id) s') :
    now = s.now ∧ (∃ pass, s.passes p = some pass ∧ pass.stage.token = some token) ∧
      (∃ c, s.claims key = some c ∧ c.claimedBy = token ∧ s.now < c.expiresAt) ∧
      ∃ row : EvaluationRow, row.key = key ∧ s'.evaluations = s.evaluations ++ [⟨s.now, row⟩] := by
  obtain ⟨pass, chainStr, chain, mint, due, out, claims, hpass, hstage, rfl, rfl, hok, rfl⟩ := h
  obtain ⟨hheld, hout, -⟩ := evaluateTokenFenced_ok_iff.mp hok
  obtain ⟨c, hc, hby⟩ := affects_iff.mp hheld
  simp only [EvalClaim.heldBy, Bool.and_eq_true, beq_iff_eq, decide_eq_true_eq] at hby
  obtain ⟨hrow, -⟩ := evaluateTokenOn_rows hout
  refine ⟨rfl, ⟨pass, hpass, by rw [hstage]; rfl⟩, ⟨c, hc, hby⟩, out.evaluation, ?_, rfl⟩
  rw [EvaluationRow.key, hrow.1, hrow.2.1, hrow.2.2.1]

/-! ## Who holds a claim -/

/-- No pass is under way, and the tokens of the claims that are there are known. -/
structure Idle (s : EvalState) : Prop where
  passes : ∀ p, s.passes p = none
  minted : ∀ key c, s.claims key = some c → c.claimedBy ∈ s.minted

/-- The claim was taken at its time, for the length of the lease, and since then the
key was not taken again and the claim not released. -/
def HeldSince (es : List Event) (key : EvalKey) (c : EvalClaim) : Prop :=
  ∃ before p between, es = before ++ .claim p key c.claimedBy c.claimedAt true :: between ∧
    c.expiresAt = c.claimedAt + seconds evalLeaseSeconds ∧
    ∀ f ∈ between, f.takes ≠ some key ∧ f.releases ≠ some (key, c.claimedBy)

structure Known (s₀ : EvalState) (es : List Event) (s : EvalState) : Prop where
  minted : ∀ token ∈ s₀.minted, token ∈ s.minted
  own : ∀ p pass token, s.passes p = some pass → pass.stage.token = some token → token ∈ s.minted ∧ token ∉ s₀.minted
  held : ∀ key c, s.claims key = some c → c.claimedBy ∈ s₀.minted ∨ HeldSince es key c

theorem HeldSince.concat (h : HeldSince es key c) (htakes : e.takes ≠ some key)
    (hreleases : e.releases ≠ some (key, c.claimedBy)) : HeldSince (es ++ [e]) key c := by
  obtain ⟨before, p, between, rfl, hexpires, hbetween⟩ := h
  refine ⟨before, p, between ++ [e], by simp, hexpires, fun f hf => ?_⟩
  rcases List.mem_append.mp hf with hf | hf
  · exact hbetween f hf
  · obtain rfl := List.mem_singleton.mp hf
    exact ⟨htakes, hreleases⟩

/-- A pass holds the token it held before, or one made in this step. -/
theorem step_token {p : Nat} {pass : Pass} {token : String} (h : Step workspaceId s e s')
    (hpass : s'.passes p = some pass) (htoken : pass.stage.token = some token) :
    (∃ old, s.passes p = some old ∧ old.stage.token = some token) ∨ token ∈ s'.minted ∧ token ∉ s.minted := by
  have hset : ∀ (q : Nat) (old new : Pass), s.passes q = some old →
      (new.stage.token = none ∨ new.stage.token = old.stage.token) → s.passes.set q (some new) p = some pass →
      ∃ old, s.passes p = some old ∧ old.stage.token = some token := by
    intro q old new hold hnew hset
    by_cases hq : p = q
    · subst hq
      obtain rfl := Option.some.inj ((set_self s.passes p _).symm.trans hset)
      rcases hnew with hnew | hnew
      · rw [hnew] at htoken; cases htoken
      · exact ⟨old, hold, hnew ▸ htoken⟩
    · exact ⟨pass, (set_ne s.passes hq _).symm.trans hset, htoken⟩
  cases e with
  | tick now => obtain ⟨-, rfl⟩ := h; exact Or.inl ⟨pass, hpass, htoken⟩
  | start q config =>
    obtain ⟨hnone, rfl⟩ := h
    by_cases hq : p = q
    · subst hq
      obtain rfl := Option.some.inj ((set_self s.passes p _).symm.trans hpass)
      cases htoken
    · exact Or.inl ⟨pass, (set_ne s.passes hq _).symm.trans hpass, htoken⟩
  | select q tokens =>
    obtain ⟨old, hold, -, rfl⟩ := h
    exact Or.inl (hset q old _ hold (Or.inl rfl) hpass)
  | pass q =>
    obtain ⟨old, chainStr, mint, due, hold, -, -, rfl⟩ := h
    exact Or.inl (hset q old _ hold (Or.inl rfl) hpass)
  | claim q k token' now taken =>
    obtain ⟨old, chainStr, chain, mint, due, hold, -, -, -, hfresh, -, -, rfl⟩ := h
    cases taken with
    | false => exact Or.inl (hset q old _ hold (Or.inl rfl) hpass)
    | true =>
      by_cases hq : p = q
      · subst hq
        obtain rfl := Option.some.inj ((set_self s.passes p _).symm.trans hpass)
        obtain rfl := Option.some.inj htoken
        exact Or.inr ⟨List.mem_cons_self, hfresh⟩
      · exact Or.inl ⟨pass, (set_ne s.passes hq _).symm.trans hpass, htoken⟩
  | write q k token' now inputs id =>
    obtain ⟨old, chainStr, chain, mint, due, out, claims, hold, -, -, -, -, rfl⟩ := h
    exact Or.inl (hset q old _ hold (Or.inl rfl) hpass)
  | fail q =>
    obtain ⟨old, chainStr, chain, mint, token', due, hold, hstage, rfl⟩ := h
    exact Or.inl (hset q old _ hold (Or.inr (by rw [hstage]; rfl)) hpass)
  | release q k token' done =>
    obtain ⟨old, chainStr, mint, due, hold, -, -, rfl⟩ := h
    exact Or.inl (hset q old _ hold (Or.inl rfl) hpass)

theorem Known.step (hk : Known s₀ es s) (h : Step workspaceId s e s') : Known s₀ (es ++ [e]) s' := by
  refine ⟨fun token ht => (step_frame h).2.1 token (hk.minted token ht), fun p pass token hpass htoken => ?_,
    fun key c hc => ?_⟩
  · rcases step_token h hpass htoken with ⟨old, hold, htoken⟩ | ⟨hnew, hfresh⟩
    · obtain ⟨hm, hn⟩ := hk.own p old token hold htoken
      exact ⟨(step_frame h).2.1 token hm, hn⟩
    · exact ⟨hnew, fun ht => hfresh (hk.minted token ht)⟩
  · rcases step_claims h key with ⟨heq, htakes, hreleases⟩ | ⟨p, token, rfl, hnew⟩ | hnone
    · rw [heq] at hc
      exact (hk.held key c hc).imp_right fun hheld => hheld.concat htakes (hreleases c hc)
    · obtain rfl := Option.some.inj (hnew.symm.trans hc)
      exact Or.inr ⟨es, p, [], rfl, rfl, fun f hf => by cases hf⟩
    · rw [hnone] at hc
      cases hc

theorem Idle.known (h : Idle s₀) : Known s₀ [] s₀ := by
  refine ⟨fun _ ht => ht, fun p pass token hpass _ => ?_, fun key c hc => Or.inl (h.minted key c hc)⟩
  rw [h.passes p] at hpass
  cases hpass

theorem run_known (h₀ : Idle s₀) (h : Run (Step workspaceId) s₀ es s) : Known s₀ es s := by
  have hrun : Known s₀ ([] ++ es) s := h.history h₀.known fun es s e t hk hstep => hk.step hstep
  exact hrun

/-! ## Writes under a claim -/

/-- Every write is under a claim of its token that was neither taken over nor
released, at a time within its lease. -/
def WritesHeld (es : List Event) : Prop :=
  ∀ before e after key token now, es = before ++ e :: after → e.writes = some (key, token, now) →
    ∃ earlier p time between, before = earlier ++ .claim p key token time true :: between ∧
      now < time + seconds evalLeaseSeconds ∧ ∀ f ∈ between, f.takes ≠ some key ∧ f.releases ≠ some (key, token)

theorem run_writesHeld (h₀ : Idle s₀) (h : Run (Step workspaceId) s₀ es s) : WritesHeld es := by
  intro before e after key token now hes he
  subst hes
  obtain ⟨u, hbefore, v, hstep, -⟩ := run_append.mp h
  have hk := run_known h₀ hbefore
  cases e with
  | write p k token' now' inputs id =>
    obtain ⟨rfl, rfl, rfl⟩ : k = key ∧ token' = token ∧ now' = now := by simpa [Event.writes] using he
    obtain ⟨rfl, ⟨pass, hpass, htoken⟩, ⟨c, hc, rfl, hrunning⟩, -⟩ := step_write hstep
    rcases hk.held k c hc with hold | ⟨earlier, q, between, hsplit, hexpires, hbetween⟩
    · exact absurd hold (hk.own p pass _ hpass htoken).2
    · exact ⟨earlier, q, c.claimedAt, between, hsplit, hexpires ▸ hrunning, hbetween⟩
  | tick => cases he
  | start => cases he
  | select => cases he
  | pass => cases he
  | claim => cases he
  | fail => cases he
  | release => cases he

/-! ## Rows apart -/

abbrev isEntry (c : Commit) : Prop := c.row.signalKind = "entry"

/-- Two entry evaluations of one token are committed at least five minutes apart. -/
def Spaced (log : List Commit) : Prop :=
  log.Pairwise fun a b => a.row.key = b.row.key → isEntry a → isEntry b →
    a.time + seconds signalEvalReevalSeconds ≤ b.time

instance (log : List Commit) : Decidable (Spaced log) :=
  inferInstanceAs (Decidable (log.Pairwise fun a b => a.row.key = b.row.key → isEntry a → isEntry b →
    a.time + seconds signalEvalReevalSeconds ≤ b.time))

/-- No entry evaluation under the key was committed in the five minutes before `now`. -/
def Clear (now : DateTime) (log : List Commit) (key : EvalKey) : Prop :=
  ∀ c ∈ log, c.row.key = key → isEntry c → c.time + seconds signalEvalReevalSeconds ≤ now

instance (now : DateTime) (log : List Commit) (key : EvalKey) : Decidable (Clear now log key) :=
  inferInstanceAs (Decidable (∀ c ∈ log, c.row.key = key → isEntry c →
    c.time + seconds signalEvalReevalSeconds ≤ now))

/-- A step in which a claim that is taken finds its token clear. -/
def ClearStep (workspaceId : Int) (s : EvalState) (e : Event) (s' : EvalState) : Prop :=
  Step workspaceId s e s' ∧ ∀ key, e.takes = some key → Clear s.now s.evaluations key

structure Apart (s₀ s : EvalState) : Prop where
  spaced : Spaced s.evaluations
  clear : ∀ key c, s.claims key = some c → c.claimedBy ∈ s₀.minted ∨
    c.claimedAt ≤ s.now ∧ Clear c.claimedAt s.evaluations key

theorem Clear.concat {log : List Commit} {now : DateTime} {new : Commit} (h : Clear now log key)
    (hkey : new.row.key ≠ key) : Clear now (log ++ [new]) key := by
  intro c hc hrow
  rcases List.mem_append.mp hc with hc | hc
  · exact h c hc hrow
  · obtain rfl := List.mem_singleton.mp hc
    exact absurd hrow hkey

/-- A write comes five minutes after every row of its token, because the token was clear
when the claim was taken and nobody else could write since. -/
theorem Apart.write {p : Nat} {token : String} {now : DateTime} {inputs : AlphaInputs} {id : Int}
    (ha : Apart s₀ s) (hk : Known s₀ es s) (h : Step workspaceId s (.write p key token now inputs id) s') :
    Apart s₀ s' := by
  have hclaims := step_claims h
  obtain ⟨-, ⟨pass, hpass, htoken⟩, ⟨c, hc, rfl, hrunning⟩, row, hrow, hlog⟩ := step_write h
  obtain ⟨hnow, -, -⟩ := step_frame h
  obtain ⟨hat, hclear⟩ := (ha.clear key c hc).resolve_left (hk.own p pass _ hpass htoken).2
  refine ⟨?_, fun j c' hc' => ?_⟩
  · rw [hlog, Spaced, List.pairwise_append]
    refine ⟨ha.spaced, List.pairwise_singleton _ _, fun a hmem b hb hab hentry _ => ?_⟩
    obtain rfl := List.mem_singleton.mp hb
    exact (hclear a hmem (hab.trans hrow) hentry).trans hat
  · rcases hclaims j with ⟨heq, -, hreleases⟩ | ⟨q, token', he, -⟩ | hnone
    · rw [heq] at hc'
      refine (ha.clear j c' hc').imp_right fun hj => ⟨hj.1.trans hnow, ?_⟩
      rw [hlog]
      refine hj.2.concat fun hj' => ?_
      obtain rfl : key = j := hrow.symm.trans hj'
      obtain rfl := Option.some.inj (hc.symm.trans hc')
      exact hreleases c hc' rfl
    · cases he
    · rw [hnone] at hc'
      cases hc'

theorem Apart.step (ha : Apart s₀ s) (hk : Known s₀ es s) (h : ClearStep workspaceId s e s') : Apart s₀ s' := by
  obtain ⟨hstep, hclear⟩ := h
  by_cases hw : e.writes = none
  · obtain ⟨hnow, -, hrows⟩ := step_frame hstep
    have hlog := (hrows hw).1
    refine ⟨hlog ▸ ha.spaced, fun key c hc => ?_⟩
    rw [hlog]
    rcases step_claims hstep key with ⟨heq, -, -⟩ | ⟨p, token, rfl, hnew⟩ | hnone
    · rw [heq] at hc
      exact (ha.clear key c hc).imp_right fun hj => ⟨hj.1.trans hnow, hj.2⟩
    · obtain rfl := Option.some.inj (hnew.symm.trans hc)
      exact Or.inr ⟨hnow, hclear key rfl⟩
    · rw [hnone] at hc
      cases hc
  · cases e with
    | write => exact ha.write hk hstep
    | tick => exact absurd rfl hw
    | start => exact absurd rfl hw
    | select => exact absurd rfl hw
    | pass => exact absurd rfl hw
    | claim => exact absurd rfl hw
    | fail => exact absurd rfl hw
    | release => exact absurd rfl hw

theorem run_apart (h₀ : Idle s₀) (hs : Spaced s₀.evaluations) (h : Run (ClearStep workspaceId) s₀ es s) :
    Apart s₀ s := by
  have hstart : Known s₀ [] s₀ ∧ Apart s₀ s₀ := ⟨h₀.known, hs, fun key c hc => Or.inl (h₀.minted key c hc)⟩
  have hrun : Known s₀ ([] ++ es) s ∧ Apart s₀ s :=
    Run.history (I := fun es s => Known s₀ es s ∧ Apart s₀ s) h hstart fun es s e t hi hstep =>
      ⟨hi.1.step hstep.1, hi.2.step hi.1 hstep⟩
  exact hrun.2

/-- In every run every write is under a claim that is still held, and nothing else
adds a row; and where every claim that is taken finds its token clear, the entry
evaluations of a token are at least five minutes apart. -/
theorem evaluateDueSignals_exclusive (workspaceId : Int) (s₀ : EvalState) (h₀ : Idle s₀) :
    (∀ es s, Run (Step workspaceId) s₀ es s → WritesHeld es) ∧
    (∀ s e s', Step workspaceId s e s' → e.writes = none →
      s'.evaluations = s.evaluations ∧ s'.signals = s.signals) ∧
    (∀ es s, Spaced s₀.evaluations → Run (ClearStep workspaceId) s₀ es s → Spaced s.evaluations) :=
  ⟨fun _ _ => run_writesHeld h₀, fun _ _ _ h hw => (step_frame h).2.2 hw, fun _ _ hs h => (run_apart h₀ hs h).spaced⟩

end

/-! ## Two passes -/

def idleState : EvalState := ⟨0, fun _ => none, [], [], fun _ => none, []⟩

theorem idleState_idle : Idle idleState := ⟨fun _ => rfl, fun key c h => by cases h⟩

def trackedToken : TokenRow := ⟨"solana", "mint", "graduated", some 0, some []⟩

def someConfig : SignalsConfig := ⟨24, 20000, 300⟩

def noInputs : AlphaInputs := ⟨⟨.graduated, some 0, []⟩, ⟨none, none⟩, ⟨0, 0⟩, ⟨0, 0, 0, 0⟩⟩

def tokenKey : EvalKey := (1, "solana", "mint")

/-- Two passes select the token, and the second claims it `delay` after the first has
released it. -/
def twoPasses (delay : Int) : List Event :=
  [.start 1 someConfig, .start 2 someConfig, .select 1 [trackedToken], .select 2 [trackedToken],
    .claim 1 tokenKey "a" 0 true, .write 1 tokenKey "a" 0 noInputs 1, .tick delay,
    .claim 2 tokenKey "b" delay true, .write 2 tokenKey "b" delay noInputs 2]

def rejectedRow (now : DateTime) : EvaluationRow :=
  ⟨1, "solana", "mint", "entry", now, "rejected", some "insufficient_clusters",
    ⟨0, 0, "graduated", some 0, none, none, [], 0, 0, 0, none⟩⟩

/-- The second pass takes the token a second after its row was written, since the
claim of the first is gone and nobody looks at the rows again. -/
theorem evaluateDueSignals_repeats : Idle idleState ∧ Spaced idleState.evaluations ∧
    ∃ s, Run (Step 1) idleState (twoPasses (seconds 1)) s ∧ ¬ Spaced s.evaluations := by
  refine ⟨idleState_idle, by decide, _, ⟨_, ⟨rfl, rfl⟩, _, ⟨rfl, rfl⟩, _, ⟨_, rfl, rfl, rfl⟩, _, ⟨_, rfl, rfl, rfl⟩,
    _, ⟨_, "solana", .solana, "mint", [], rfl, ?_, ?_, rfl, ?_, rfl, ?_, rfl⟩,
    _, ⟨_, "solana", .solana, "mint", [], ⟨rejectedRow 0, none⟩, _, rfl, rfl, rfl, rfl,
      evaluateTokenFenced_ok_iff.mpr ⟨?_, ?_, rfl⟩, rfl⟩,
    _, ⟨?_, rfl⟩,
    _, ⟨_, "solana", .solana, "mint", [], rfl, ?_, ?_, rfl, ?_, rfl, ?_, rfl⟩,
    _, ⟨_, "solana", .solana, "mint", [], ⟨rejectedRow 0, none⟩, _, rfl, rfl, rfl, rfl,
      evaluateTokenFenced_ok_iff.mpr ⟨?_, ?_, rfl⟩, rfl⟩, rfl⟩, ?_⟩
  all_goals decide +kernel

theorem Step.clear {s s' : EvalState} {e : Event} (h : Step 1 s e s') (he : e.takes = none) : ClearStep 1 s e s' := by
  refine ⟨h, fun key hkey => ?_⟩
  rw [he] at hkey
  cases hkey

/-- Five minutes later the second row is one that should be there. -/
theorem evaluateDueSignals_exclusive_later :
    ∃ s, Run (ClearStep 1) idleState (twoPasses (seconds 301)) s ∧ Spaced s.evaluations := by
  have hrun : ∃ s, Run (ClearStep 1) idleState (twoPasses (seconds 301)) s := by
    refine ⟨_, _, Step.clear ⟨rfl, rfl⟩ rfl, _, Step.clear ⟨rfl, rfl⟩ rfl, _, Step.clear ⟨_, rfl, rfl, rfl⟩ rfl,
      _, Step.clear ⟨_, rfl, rfl, rfl⟩ rfl,
      _, ⟨⟨_, "solana", .solana, "mint", [], rfl, ?_, ?_, rfl, ?_, rfl, ?_, rfl⟩, fun key hkey => ?_⟩,
      _, Step.clear ⟨_, "solana", .solana, "mint", [], ⟨rejectedRow 0, none⟩, _, rfl, rfl, rfl, rfl,
        evaluateTokenFenced_ok_iff.mpr ⟨?_, ?_, rfl⟩, rfl⟩ rfl,
      _, Step.clear ⟨?_, rfl⟩ rfl,
      _, ⟨⟨_, "solana", .solana, "mint", [], rfl, ?_, ?_, rfl, ?_, rfl, ?_, rfl⟩, fun key hkey => ?_⟩,
      _, Step.clear ⟨_, "solana", .solana, "mint", [], ⟨rejectedRow 0, none⟩, _, rfl, rfl, rfl, rfl,
        evaluateTokenFenced_ok_iff.mpr ⟨?_, ?_, rfl⟩, rfl⟩ rfl, rfl⟩
    -- The two claims find their token clear; what is left are facts about the states.
    case refine_5 => obtain rfl := Option.some.inj hkey; decide +kernel
    case refine_13 => obtain rfl := Option.some.inj hkey; decide +kernel
    all_goals decide +kernel
  obtain ⟨s, hs⟩ := hrun
  exact ⟨s, hs, (evaluateDueSignals_exclusive 1 idleState idleState_idle).2.2 _ s List.Pairwise.nil hs⟩

end WhaleIntelligence.Signals.Claims
