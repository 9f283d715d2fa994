import Mathlib.Data.Prod.Lex
import Mathlib.Data.String.Basic
import WhaleIntelligence.Lib.Backlog
import WhaleIntelligence.Signals.EvalClaims

/- The tokens that one worker's passes of `evaluate_due_signals` come to.

   A pass selects the first twenty tokens that are due, and each is claimed, evaluated
   and, when the evaluation fails, released. A failure writes no row, so the token stays
   due and takes its place among the twenty again. A token comes to be evaluated exactly
   when a pass finds fewer than twenty due tokens before it; where no token comes due
   while the passes last, that is when fewer than twenty of those before it fail
   (`evaluateDueSignals_reaches_iff`). -/
namespace WhaleIntelligence.Signals.Due
open WhaleIntelligence KeyedTable Claims Backlog

/-! ## Passes -/

def tokenKey (t : TokenRow) : String × String := (t.chain, t.mint)

/-- The tables of the evaluations, with the key that the schema keeps unique. -/
structure Store extends Db where
  evaluations : List Commit
  keys_nodup : (tokens.map tokenKey).Nodup

/-- What an attempt on a token comes with: its claimant, the clock of the database when it
claims, reads and writes, the id of a signal, and whether the claim of a failed
evaluation gets released. -/
structure Attempt where
  claimant : String
  claimedAt : DateTime
  readAt : DateTime
  writtenAt : DateTime
  signalId : Int
  released : Bool
  deriving DecidableEq, Repr

/-- A pass by its own clock, the clock of the database at its selection, and its attempts. -/
structure WorkerPass where
  now : DateTime
  selectedAt : DateTime
  attempt : String × String → Attempt

/-- The claims after the attempt on the token has asked for one. -/
def Store.claimed (s : Store) (workspaceId : Int) (due : String × String) (a : Attempt) : EvalClaims :=
  claimToken s.claims a.claimedAt (workspaceId, due.1, due.2) a.claimant

/-- `evaluate_token_signals_fenced` under the claim. -/
def evaluation (workspaceId : Int) (config : SignalsConfig) (pass : WorkerPass) (s : Store) (chain : ChainKind)
    (due : String × String) : Except String (Evaluated × EvalClaims) :=
  let a := pass.attempt due
  evaluateTokenSignalsImpl { s.toDb with dbNow := a.readAt, claims := s.claimed workspaceId due a } workspaceId chain
    due.2 pass.now a.writtenAt config (some a.claimant)

/-- A round of the loop of `evaluate_due_signals`, and whether it evaluated the token. -/
def attemptToken (workspaceId : Int) (config : SignalsConfig) (pass : WorkerPass) (s : Store) (due : String × String) :
    Store × Bool :=
  let a := pass.attempt due
  let key := (workspaceId, due.1, due.2)
  match ChainKind.parse due.1 with
  | none => (s, false)
  | some chain =>
    let claims := s.claimed workspaceId due a
    if claimTaken s.claims a.claimedAt key a.claimant then
      match evaluation workspaceId config pass s chain due with
      | .ok (out, claims) =>
        ({ s with
          claims := claims
          signals := s.signals ++ signalRows out a.signalId
          evaluations := s.evaluations ++ [⟨a.writtenAt, out.evaluation⟩] }, true)
      -- the release within the evaluation was rolled back with it
      | .error _ => ({ s with claims := if a.released then releaseEvalClaim claims key a.claimant else claims }, false)
    -- another worker holds the token
    else ({ s with claims := claims }, false)

/-- The loop of `evaluate_due_signals`, and the tokens it evaluated. -/
def attemptEach (workspaceId : Int) (config : SignalsConfig) (pass : WorkerPass) :
    Store → List (String × String) → Store × List (String × String)
  | s, [] => (s, [])
  | s, due :: rest =>
    let one := attemptToken workspaceId config pass s due
    let others := attemptEach workspaceId config pass one.1 rest
    (others.1, if one.2 then due :: others.2 else others.2)

/-- `evaluate_due_signals`. -/
def evaluateDueSignals (workspaceId : Int) (config : SignalsConfig) (s : Store) (pass : WorkerPass) :
    Store × List (String × String) :=
  attemptEach workspaceId config pass s (dueTokens pass.selectedAt workspaceId config s.tokens s.evaluations)

/-- The tokens that consecutive passes evaluate. -/
def evaluatedIn (workspaceId : Int) (config : SignalsConfig) : Store → List WorkerPass → List (String × String)
  | _, [] => []
  | s, pass :: passes => (evaluateDueSignals workspaceId config s pass).2 ++
    evaluatedIn workspaceId config (evaluateDueSignals workspaceId config s pass).1 passes

/-- A property of every pass and the state it finds. -/
def Throughout (workspaceId : Int) (config : SignalsConfig) (P : Store → WorkerPass → Prop) :
    Store → List WorkerPass → Prop
  | _, [] => True
  | s, pass :: passes => P s pass ∧ Throughout workspaceId config P
      (evaluateDueSignals workspaceId config s pass).1 passes

instance decidableThroughout {workspaceId : Int} {config : SignalsConfig} {P : Store → WorkerPass → Prop}
    [h : ∀ s pass, Decidable (P s pass)] :
    (s : Store) → (passes : List WorkerPass) → Decidable (Throughout workspaceId config P s passes)
  | _, [] => .isTrue trivial
  | s, pass :: passes => @instDecidableAnd _ _ (h s pass) (decidableThroughout _ passes)

/-- A property of some pass and the state it finds. -/
def Sometime (workspaceId : Int) (config : SignalsConfig) (P : Store → WorkerPass → Prop) :
    Store → List WorkerPass → Prop
  | _, [] => False
  | s, pass :: passes => P s pass ∨ Sometime workspaceId config P
      (evaluateDueSignals workspaceId config s pass).1 passes

/-! ## The line of the tokens that are due -/

/-- An attempt on the token would evaluate it. -/
def succeeds (workspaceId : Int) (config : SignalsConfig) (s : Store) (pass : WorkerPass) (t : TokenRow) : Bool :=
  (attemptToken workspaceId config pass s (tokenKey t)).2

/-- All tokens that are due when the pass selects. -/
def dueLine (workspaceId : Int) (config : SignalsConfig) (s : Store) (pass : WorkerPass) : List TokenRow :=
  (s.tokens.filter (isDue pass.selectedAt workspaceId config s.evaluations)).insertionSort fun a b => seenBefore a b

theorem dueTokens_eq (workspaceId : Int) (config : SignalsConfig) (s : Store) (pass : WorkerPass) :
    dueTokens pass.selectedAt workspaceId config s.tokens s.evaluations =
      ((dueLine workspaceId config s pass).take batchLimit).map tokenKey := rfl

/-- The token is young enough for an entry. -/
def inWindow (dbNow : DateTime) (config : SignalsConfig) (t : TokenRow) : Bool :=
  t.firstSeenAt.any fun seen => dbNow - seconds (config.entryMaxTokenAgeHours * 3600) < seen

/-- Consecutive passes of one worker with no other change: the clock of the database does not
go back, and no token leaves the window. -/
structure Quiet (config : SignalsConfig) (s : Store) (pass : WorkerPass) (passes : List WorkerPass) : Prop where
  clock : (pass :: passes).Pairwise fun p q => p.selectedAt ≤ q.selectedAt
  window : ∀ q ∈ passes, ∀ t ∈ s.tokens, inWindow pass.selectedAt config t = true →
    inWindow q.selectedAt config t = true

/-- Nothing changes but by the passes: no token comes due while they last, neither one that
was not due at the beginning nor one that a pass has evaluated, and what becomes of an
attempt on a token is always the same. -/
structure Settled (workspaceId : Int) (config : SignalsConfig) (s : Store) (pass : WorkerPass)
    (passes : List WorkerPass) : Prop where
  early : ∀ q ∈ passes, ∀ t ∈ s.tokens, isDue q.selectedAt workspaceId config s.evaluations t = true →
    isDue pass.selectedAt workspaceId config s.evaluations t = true
  soon : (pass :: passes).Pairwise fun p q => q.selectedAt < p.now + seconds signalEvalReevalSeconds
  steady : ∀ t ∈ dueLine workspaceId config s pass, Throughout workspaceId config (fun s' q =>
    succeeds workspaceId config s' q t = succeeds workspaceId config s pass t) s (pass :: passes)

/-- Every attempt on the token would evaluate it. -/
def Sound (workspaceId : Int) (config : SignalsConfig) (s : Store) (passes : List WorkerPass) (t : TokenRow) : Prop :=
  Throughout workspaceId config (fun s' q => succeeds workspaceId config s' q t = true) s passes

/-- Every token that is due at the beginning and whose evaluation succeeds gets evaluated. -/
def Reaches (workspaceId : Int) (config : SignalsConfig) (s : Store) (pass : WorkerPass)
    (passes : List WorkerPass) : Prop :=
  ∀ t ∈ dueLine workspaceId config s pass, Sound workspaceId config s (pass :: passes) t →
    tokenKey t ∈ evaluatedIn workspaceId config s (pass :: passes)

/-! ## One attempt -/

section
variable {workspaceId : Int} {config : SignalsConfig} {s : Store} {pass : WorkerPass} {passes : List WorkerPass}
variable {due other : String × String} {t : TokenRow} {chain : ChainKind}

/-- A new signal is of the workspace and the token of the evaluation. -/
theorem evaluateTokenOn_signal {signals : List SignalRow} {mint : String} {now : DateTime} {token : TokenGate}
    {market : MarketGate} {clusters : ClusterSummary} {wallets : WalletEligibility} {out : Evaluated} {n : NewSignal}
    (h : evaluateTokenOn signals workspaceId chain mint now config token market clusters wallets none = .ok out)
    (hn : out.signal = some n) : n.workspaceId = workspaceId ∧ n.chain = chain.asStr ∧ n.mint = mint := by
  unfold evaluateTokenOn at h
  simp only at h
  split at h
  · obtain rfl := Except.ok.inj h
    cases hn
  · split at h
    · cases h
    · obtain rfl := Except.ok.inj h
      obtain rfl := Option.some.inj hn
      exact ⟨rfl, rfl, rfl⟩

/-- Signals of other tokens play no part in an evaluation. -/
theorem evaluateTokenOn_append {signals more : List SignalRow} {mint : String} {now : DateTime} {token : TokenGate}
    {market : MarketGate} {clusters : ClusterSummary} {wallets : WalletEligibility}
    (h : ∀ n ∈ more, (n.workspaceId, n.chain, n.mint) ≠ (workspaceId, chain.asStr, mint)) :
    evaluateTokenOn (signals ++ more) workspaceId chain mint now config token market clusters wallets none =
      evaluateTokenOn signals workspaceId chain mint now config token market clusters wallets none := by
  have hnone : ∀ new : NewSignal, new.workspaceId = workspaceId → new.chain = chain.asStr → new.mint = mint →
      (signals ++ more).any (fun s => s.key == new.key) = signals.any fun s => s.key == new.key := by
    rintro new rfl hchain rfl
    rw [List.any_append, Bool.or_eq_left_iff_imp]
    intro hmore
    obtain ⟨n, hn, hkey⟩ := List.any_eq_true.mp hmore
    refine absurd ?_ (h n hn)
    simp only [NewSignal.key, beq_iff_eq, Prod.mk.injEq] at hkey
    rw [hkey.1, hkey.2.1, hkey.2.2.1, hchain]
  unfold evaluateTokenOn
  simp only
  rw [hnone _ rfl rfl rfl]

theorem released_ne {claims : EvalClaims} {key j : EvalKey} {claimant : String} (hj : j ≠ key) :
    releaseEvalClaim claims key claimant j = claims j := set_ne _ hj _

/-- What a successful evaluation writes is of its token, at the time of the pass, and it
releases no other claim. -/
theorem evaluation_ok {out : Evaluated} {claims : EvalClaims} (hchain : due.1 = chain.asStr)
    (h : evaluation workspaceId config pass s chain due = .ok (out, claims)) :
    (out.evaluation.key = (workspaceId, due.1, due.2) ∧ out.evaluation.evaluatedAt = pass.now) ∧
    (∀ n, out.signal = some n → (n.workspaceId, n.chain, n.mint) = (workspaceId, due.1, due.2)) ∧
    ∀ j, j ≠ (workspaceId, due.1, due.2) → claims j = s.claimed workspaceId due (pass.attempt due) j := by
  unfold evaluation evaluateTokenSignalsImpl at h
  simp only at h
  cases hi : alphaInputs { s.toDb with
      dbNow := (pass.attempt due).readAt
      claims := s.claimed workspaceId due (pass.attempt due) } workspaceId chain due.2 pass.now with
  | error e => rw [hi] at h; cases h
  | ok i =>
    rw [hi] at h
    obtain ⟨-, hout, rfl⟩ := evaluateTokenFenced_ok_iff.mp h
    obtain ⟨hrow, -⟩ := evaluateTokenOn_rows hout
    refine ⟨⟨?_, hrow.2.2.2.2⟩, fun n hn => ?_, fun j hj => ?_⟩
    · rw [EvaluationRow.key, hrow.1, hrow.2.1, hrow.2.2.1, hchain]
    · obtain ⟨hworkspace, hsignal, hmint⟩ := evaluateTokenOn_signal hout hn
      rw [hworkspace, hsignal, hmint, hchain]
    · rw [← hchain]
      exact released_ne hj

theorem claimed_ne {a : Attempt} {j : EvalKey} (hj : j ≠ (workspaceId, due.1, due.2)) :
    s.claimed workspaceId due a j = s.claims j := set_ne _ hj _

/-- What an attempt leaves: it adds rows of its token, exactly when it succeeds, and touches no
other claim. -/
structure Leaves (workspaceId : Int) (pass : WorkerPass) (s : Store) (due : String × String) (s' : Store) (done : Bool)
    (newSignals : List SignalRow) (newRows : List Commit) : Prop where
  store : s' = { s with
    claims := s'.claims
    signals := s.signals ++ newSignals
    evaluations := s.evaluations ++ newRows }
  claims : ∀ j, j ≠ (workspaceId, due.1, due.2) → s'.claims j = s.claims j
  signals : ∀ n ∈ newSignals, (n.workspaceId, n.chain, n.mint) = (workspaceId, due.1, due.2)
  rows : ∀ e ∈ newRows, e.row.key = (workspaceId, due.1, due.2) ∧ e.row.evaluatedAt = pass.now
  done : done = true ↔ newRows ≠ []

theorem Leaves.tokens {s' : Store} {done : Bool} {newSignals : List SignalRow} {newRows : List Commit}
    (h : Leaves workspaceId pass s due s' done newSignals newRows) : s'.tokens = s.tokens := by rw [h.store]

theorem Leaves.evaluations {s' : Store} {done : Bool} {newSignals : List SignalRow} {newRows : List Commit}
    (h : Leaves workspaceId pass s due s' done newSignals newRows) : s'.evaluations = s.evaluations ++ newRows := by
  rw [h.store]

theorem attemptToken_leaves (workspaceId : Int) (config : SignalsConfig) (pass : WorkerPass) (s : Store)
    (hchain : due.1 = chain.asStr) : ∃ newSignals newRows,
    Leaves workspaceId pass s due (attemptToken workspaceId config pass s due).1
      (attemptToken workspaceId config pass s due).2 newSignals newRows := by
  have hsame : ∀ claims : EvalClaims, (∀ j, j ≠ (workspaceId, due.1, due.2) → claims j = s.claims j) →
      Leaves workspaceId pass s due { s with claims := claims } false [] [] := fun claims hclaims =>
    ⟨by simp, hclaims, by simp, by simp, by simp⟩
  have hparse : ChainKind.parse due.1 = some chain := by rw [hchain, ChainKind.parse_asStr]
  unfold attemptToken
  simp only [hparse]
  split
  · cases h : evaluation workspaceId config pass s chain due with
    | error e =>
      refine ⟨[], [], hsame _ fun j hj => ?_⟩
      split
      · exact (released_ne hj).trans (claimed_ne hj)
      · exact claimed_ne hj
    | ok r =>
      obtain ⟨out, claims⟩ := r
      obtain ⟨hrow, hsignal, hclaims⟩ := evaluation_ok hchain h
      refine ⟨_, _, rfl, fun j hj => (hclaims j hj).trans (claimed_ne hj), fun n hn => ?_, fun e he => ?_, by simp⟩
      · obtain ⟨new, hnew, rfl⟩ := Option.map_eq_some_iff.mp (Option.mem_toList.mp hn)
        exact hsignal new hnew
      · obtain rfl := List.mem_singleton.mp he
        exact hrow
  · exact ⟨[], [], hsame _ fun j hj => claimed_ne hj⟩

theorem attemptToken_snd (hchain : other.1 = chain.asStr) : (attemptToken workspaceId config pass s other).2 =
    (claimTaken s.claims (pass.attempt other).claimedAt (workspaceId, other.1, other.2) (pass.attempt other).claimant &&
      (evaluation workspaceId config pass s chain other).isOk) := by
  have hparse : ChainKind.parse other.1 = some chain := by rw [hchain, ChainKind.parse_asStr]
  unfold attemptToken
  simp only [hparse]
  split
  next htaken =>
    rw [htaken, Bool.true_and]
    cases h : evaluation workspaceId config pass s chain other with
    | error e => rfl
    | ok r => rfl
  next htaken => rw [Bool.eq_false_iff.mpr htaken, Bool.false_and]

theorem isOk_bind {ε α β : Type} {x x' : Except ε α} {f f' : α → Except ε β} (hx : x = x')
    (hf : ∀ a, (f a).isOk = (f' a).isOk) : (x >>= f).isOk = (x' >>= f').isOk := by
  subst hx
  cases x with
  | error e => rfl
  | ok a => exact hf a

theorem evaluateTokenFenced_isOk {claims : EvalClaims} {dbNow now : DateTime} {signals : List SignalRow} {mint : String}
    {gate : TokenGate} {market : MarketGate} {clusters : ClusterSummary} {wallets : WalletEligibility}
    {token : String} :
    (evaluateTokenFenced claims dbNow signals workspaceId chain mint now config gate market clusters wallets none
      token).isOk =
    (claims.affects (workspaceId, chain.asStr, mint) (EvalClaim.heldBy · token dbNow) &&
      (evaluateTokenOn signals workspaceId chain mint now config gate market clusters wallets none).isOk) := by
  unfold evaluateTokenFenced
  simp only
  split
  next hheld =>
    rw [hheld, Bool.true_and]
    cases evaluateTokenOn signals workspaceId chain mint now config gate market clusters wallets none <;> rfl
  next hheld =>
    rw [Bool.eq_false_iff.mpr hheld, Bool.false_and]
    rfl

/-- What becomes of an attempt depends on the claim and the signals of its token only. -/
theorem attemptToken_same {s' : Store} (newSignals : List SignalRow) (hchain : other.1 = chain.asStr)
    (hstore : s' = { s with
      claims := s'.claims
      signals := s.signals ++ newSignals
      evaluations := s'.evaluations })
    (hclaims : s'.claims (workspaceId, other.1, other.2) = s.claims (workspaceId, other.1, other.2))
    (hsignals : ∀ n ∈ newSignals, (n.workspaceId, n.chain, n.mint) ≠ (workspaceId, other.1, other.2)) :
    (attemptToken workspaceId config pass s' other).2 = (attemptToken workspaceId config pass s other).2 := by
  have hclaimed : s'.claimed workspaceId other (pass.attempt other) (workspaceId, other.1, other.2) =
      s.claimed workspaceId other (pass.attempt other) (workspaceId, other.1, other.2) := by
    unfold Store.claimed claimToken Table.upsert
    rw [set_self, set_self, hclaims]
  -- the claim is taken alike, and so is the evaluation under it
  rw [attemptToken_snd hchain, attemptToken_snd hchain]
  congr 1
  · rw [claimTaken, claimTaken, Table.upserted, Table.upserted, hclaims]
  · unfold evaluation evaluateTokenSignalsImpl
    refine isOk_bind (by rw [hstore]; rfl) fun i => ?_
    rw [evaluateTokenFenced_isOk, evaluateTokenFenced_isOk, ← hchain, Table.affects, Table.affects]
    congr 1
    · exact congrArg _ hclaimed
    · rw [hstore]
      exact congrArg _ (evaluateTokenOn_append (by rwa [← hchain]))

/-! ## One pass -/

/-- An attempt on one token does not change what becomes of another one's. -/
theorem attemptToken_other {chain' : ChainKind} (hdue : due.1 = chain.asStr) (hother : other.1 = chain'.asStr)
    (hne : other ≠ due) : (attemptToken workspaceId config pass
      (attemptToken workspaceId config pass s due).1 other).2 =
      (attemptToken workspaceId config pass s other).2 := by
  obtain ⟨newSignals, newRows, hleaves⟩ := attemptToken_leaves workspaceId config pass s hdue
  have hkey : (workspaceId, other.1, other.2) ≠ (workspaceId, due.1, due.2) := by
    intro heq
    simp only [Prod.mk.injEq, true_and] at heq
    exact hne (Prod.ext heq.1 heq.2)
  refine attemptToken_same newSignals hother ?_ (hleaves.claims _ hkey) fun n hn heq => ?_
  · rw [hleaves.store]
  · exact hkey (heq.symm.trans (hleaves.signals n hn))

/-- What a pass leaves: rows of the tokens it evaluated, at its time, and nothing else in the
tables that selections read. -/
structure PassLeaves (workspaceId : Int) (pass : WorkerPass) (s s' : Store) (done : List (String × String))
    (newRows : List Commit) : Prop where
  tokens : s'.tokens = s.tokens
  evaluations : s'.evaluations = s.evaluations ++ newRows
  rows : ∀ e ∈ newRows, e.row.evaluatedAt = pass.now ∧ ∃ k ∈ done, e.row.key = (workspaceId, k.1, k.2)
  each : ∀ k ∈ done, ∃ e ∈ newRows, e.row.key = (workspaceId, k.1, k.2)

theorem attemptEach_fst {l : List (String × String)} : (attemptEach workspaceId config pass s (due :: l)).1 =
    (attemptEach workspaceId config pass (attemptToken workspaceId config pass s due).1 l).1 := by rw [attemptEach]

theorem attemptEach_snd {l : List (String × String)} : (attemptEach workspaceId config pass s (due :: l)).2 =
    if (attemptToken workspaceId config pass s due).2 then
      due :: (attemptEach workspaceId config pass (attemptToken workspaceId config pass s due).1 l).2
    else (attemptEach workspaceId config pass (attemptToken workspaceId config pass s due).1 l).2 := by rw [attemptEach]

/-- An attempt before the others of its pass. -/
theorem PassLeaves.cons {s' s'' : Store} {made : Bool} {done : List (String × String)} {newSignals : List SignalRow}
    {rows newRows : List Commit} (hone : Leaves workspaceId pass s due s' made newSignals rows)
    (hrest : PassLeaves workspaceId pass s' s'' done newRows) :
    PassLeaves workspaceId pass s s'' (if made then due :: done else done) (rows ++ newRows) where
  tokens := hrest.tokens.trans hone.tokens
  evaluations := by rw [hrest.evaluations, hone.evaluations, List.append_assoc]
  rows e he := by
    rcases List.mem_append.mp he with he | he
    · obtain ⟨hkey, hnow⟩ := hone.rows e he
      have hmade : made = true := hone.done.mpr (List.ne_nil_of_mem he)
      exact ⟨hnow, due, by rw [if_pos hmade]; exact List.mem_cons_self, hkey⟩
    · obtain ⟨hnow, k, hk, hkey⟩ := hrest.rows e he
      refine ⟨hnow, k, ?_, hkey⟩
      split
      · exact List.mem_cons_of_mem _ hk
      · exact hk
  each k hk := by
    have hlater : k ∈ done → ∃ e ∈ rows ++ newRows, e.row.key = (workspaceId, k.1, k.2) := by
      intro hdone
      obtain ⟨e, he, hkey⟩ := hrest.each k hdone
      exact ⟨e, List.mem_append_right _ he, hkey⟩
    split at hk
    next hmade =>
      rcases List.mem_cons.mp hk with rfl | hk
      · obtain ⟨e, he⟩ := List.exists_mem_of_ne_nil _ (hone.done.mp hmade)
        exact ⟨e, List.mem_append_left _ he, (hone.rows e he).1⟩
      · exact hlater hk
    next => exact hlater hk

theorem attemptEach_leaves (config : SignalsConfig) (pass : WorkerPass) {l : List (String × String)}
    (hchains : ∀ k ∈ l, ∃ chain : ChainKind, k.1 = chain.asStr)
    (hnodup : l.Nodup) :
    (attemptEach workspaceId config pass s l).2 = l.filter (fun k => (attemptToken workspaceId config pass s k).2) ∧
    ∃ newRows, PassLeaves workspaceId pass s (attemptEach workspaceId config pass s l).1
      (attemptEach workspaceId config pass s l).2 newRows := by
  induction l generalizing s with
  | nil => exact ⟨rfl, [], rfl, (List.append_nil _).symm, by simp, by simp [attemptEach]⟩
  | cons k l ih =>
    obtain ⟨chain, hchain⟩ := hchains k List.mem_cons_self
    obtain ⟨hk, hl⟩ := List.nodup_cons.mp hnodup
    obtain ⟨hdone, newRows, hrest⟩ := ih (s := (attemptToken workspaceId config pass s k).1)
      (fun k' hk' => hchains k' (List.mem_cons_of_mem _ hk')) hl
    obtain ⟨newSignals, rows, hone⟩ := attemptToken_leaves workspaceId config pass s hchain
    have hsame : l.filter (fun k' => (attemptToken workspaceId config pass (attemptToken workspaceId config pass s k).1
        k').2) = l.filter fun k' => (attemptToken workspaceId config pass s k').2 := by
      refine List.filter_congr fun k' hk' => ?_
      obtain ⟨chain', hchain'⟩ := hchains k' (List.mem_cons_of_mem _ hk')
      exact attemptToken_other hchain hchain' fun heq => hk (heq ▸ hk')
    rw [attemptEach_fst, attemptEach_snd, List.filter_cons, ← hsame, ← hdone]
    exact ⟨rfl, rows ++ newRows, .cons hone hrest⟩

/-! ## The line -/

/-- The order of the line. -/
def seen (t : TokenRow) : DateTime ×ₗ String := toLex (t.firstSeenAt.getD 0, t.mint)

theorem isDue_iff {dbNow : DateTime} {evaluations : List Commit} :
    isDue dbNow workspaceId config evaluations t = true ↔
      ((t.chain = "solana" ∨ t.chain = "robinhood") ∧ supportedStates.contains t.lifecycleState = true) ∧
        inWindow dbNow config t = true ∧ notEvaluated dbNow workspaceId evaluations t = true := by
  simp only [isDue, inWindow, Bool.and_eq_true, Bool.or_eq_true, beq_iff_eq, and_assoc]

theorem notEvaluated_iff {dbNow : DateTime} {evaluations : List Commit} :
    notEvaluated dbNow workspaceId evaluations t = true ↔
      ∀ e ∈ evaluations, e.row.key = (workspaceId, t.chain, t.mint) →
        e.row.evaluatedAt ≤ dbNow - seconds signalEvalReevalSeconds := by
  rw [notEvaluated, Bool.not_eq_true', List.any_eq_false]
  refine forall₂_congr fun e _ => ?_
  simp only [EvaluationRow.key, Bool.and_eq_true, beq_iff_eq, decide_eq_true_eq, Prod.mk.injEq, not_and,
    not_lt, and_imp]

theorem isDue_chain {dbNow : DateTime} {evaluations : List Commit}
    (h : isDue dbNow workspaceId config evaluations t = true) : ∃ chain : ChainKind, t.chain = chain.asStr := by
  rcases (isDue_iff.mp h).1.1 with hchain | hchain
  · exact ⟨.solana, hchain⟩
  · exact ⟨.robinhood, hchain⟩

/-- Tokens in the window have a time at which they were seen, so the order of the selection
is that of the times and mints. -/
theorem seenBefore_iff {dbNow : DateTime} {a b : TokenRow} (ha : inWindow dbNow config a = true)
    (hb : inWindow dbNow config b = true) : seenBefore a b = true ↔ seen a ≤ seen b := by
  rw [inWindow, Option.any_eq_true] at ha hb
  obtain ⟨x, hx, -⟩ := ha
  obtain ⟨y, hy, -⟩ := hb
  rw [seen, seen, Prod.Lex.toLex_le_toLex, seenBefore, hx, hy]
  simp

/-- The tokens in their order. -/
def oldestFirst (tokens : List TokenRow) : List TokenRow := tokens.insertionSort fun a b => seen a ≤ seen b

theorem dueLine_eq : dueLine workspaceId config s pass =
    (oldestFirst s.tokens).filter (isDue pass.selectedAt workspaceId config s.evaluations) := by
  rw [oldestFirst, filter_oldest, dueLine]
  have hsort := List.map_insertionSort (r := fun a b => seenBefore a b = true) (s := fun a b => seen a ≤ seen b) id
    (s.tokens.filter (isDue pass.selectedAt workspaceId config s.evaluations)) fun a ha b hb =>
      seenBefore_iff (isDue_iff.mp (List.mem_filter.mp ha).2).2.1 (isDue_iff.mp (List.mem_filter.mp hb).2).2.1
  rwa [List.map_id, List.map_id] at hsort

theorem mem_dueLine : t ∈ dueLine workspaceId config s pass ↔
    t ∈ s.tokens ∧ isDue pass.selectedAt workspaceId config s.evaluations t = true := by
  rw [dueLine, List.mem_insertionSort, List.mem_filter]

theorem dueLine_keys : ((dueLine workspaceId config s pass).map tokenKey).Nodup := by
  have hperm : (dueLine workspaceId config s pass).Perm
      (s.tokens.filter (isDue pass.selectedAt workspaceId config s.evaluations)) := List.perm_insertionSort _ _
  rw [(hperm.map tokenKey).nodup_iff]
  exact s.keys_nodup.sublist (List.filter_sublist.map _)

theorem dueLine_nodup : (dueLine workspaceId config s pass).Nodup := dueLine_keys.of_map

/-- A token that is due stays so while it is in the window. -/
theorem isDue_later {dbNow later : DateTime} {evaluations : List Commit}
    (h : isDue dbNow workspaceId config evaluations t = true) (hle : dbNow ≤ later)
    (hwindow : inWindow later config t = true) : isDue later workspaceId config evaluations t = true := by
  obtain ⟨hkind, -, hnot⟩ := isDue_iff.mp h
  refine isDue_iff.mpr ⟨hkind, hwindow, notEvaluated_iff.mpr fun e he hkey => ?_⟩
  exact (notEvaluated_iff.mp hnot e he hkey).trans (Int.sub_le_sub_right hle _)

theorem inWindow_earlier {dbNow earlier : DateTime} (h : inWindow dbNow config t = true) (hle : earlier ≤ dbNow) :
    inWindow earlier config t = true := by
  rw [inWindow, Option.any_eq_true] at h ⊢
  obtain ⟨x, hx, hin⟩ := h
  refine ⟨x, hx, ?_⟩
  rw [decide_eq_true_eq] at hin ⊢
  exact (Int.sub_le_sub_right hle _).trans_lt hin

/-- After a pass those are due that were due before it, but for what it evaluated within the
cadence. -/
theorem isDue_after {s' : Store} {done : List (String × String)} {newRows : List Commit} {dbNow : DateTime}
    (h : PassLeaves workspaceId pass s s' done newRows) :
    isDue dbNow workspaceId config s'.evaluations t = true ↔
      isDue dbNow workspaceId config s.evaluations t = true ∧
        (tokenKey t ∈ done → pass.now ≤ dbNow - seconds signalEvalReevalSeconds) := by
  have hrows : notEvaluated dbNow workspaceId s'.evaluations t = true ↔
      notEvaluated dbNow workspaceId s.evaluations t = true ∧
        (tokenKey t ∈ done → pass.now ≤ dbNow - seconds signalEvalReevalSeconds) := by
    rw [notEvaluated_iff, notEvaluated_iff, h.evaluations]
    constructor
    · intro hall
      refine ⟨fun e he => hall e (List.mem_append_left _ he), fun hdone => ?_⟩
      obtain ⟨e, he, hkey⟩ := h.each _ hdone
      rw [← (h.rows e he).1]
      exact hall e (List.mem_append_right _ he) hkey
    · rintro ⟨hold, hnew⟩ e he hkey
      rcases List.mem_append.mp he with he | he
      · exact hold e he hkey
      · obtain ⟨hnow, k, hk, hrow⟩ := h.rows e he
        rw [hkey] at hrow
        simp only [Prod.mk.injEq, true_and] at hrow
        rw [hnow]
        exact hnew (by rw [tokenKey, hrow.1, hrow.2]; exact hk)
  rw [isDue_iff, isDue_iff, hrows]
  tauto

/-- A pass evaluates those of the first twenty whose evaluation succeeds. -/
theorem evaluateDueSignals_leaves (workspaceId : Int) (config : SignalsConfig) (s : Store) (pass : WorkerPass) :
    (evaluateDueSignals workspaceId config s pass).2 =
        (((dueLine workspaceId config s pass).take batchLimit).filter
          (succeeds workspaceId config s pass)).map tokenKey ∧
      ∃ newRows, PassLeaves workspaceId pass s (evaluateDueSignals workspaceId config s pass).1
        (evaluateDueSignals workspaceId config s pass).2 newRows := by
  have hchains : ∀ k ∈ dueTokens pass.selectedAt workspaceId config s.tokens s.evaluations,
      ∃ chain : ChainKind, k.1 = chain.asStr := by
    intro k hk
    rw [dueTokens_eq, List.mem_map] at hk
    obtain ⟨t, ht, rfl⟩ := hk
    exact isDue_chain (mem_dueLine.mp (List.mem_of_mem_take ht)).2
  have hnodup : (dueTokens pass.selectedAt workspaceId config s.tokens s.evaluations).Nodup := by
    rw [dueTokens_eq]
    exact dueLine_keys.sublist ((List.take_sublist _ _).map _)
  obtain ⟨hdone, hleaves⟩ := attemptEach_leaves config pass hchains hnodup
  refine ⟨?_, hleaves⟩
  rw [evaluateDueSignals, hdone, dueTokens_eq, List.filter_map]
  rfl

theorem evaluateDueSignals_tokens :
    (evaluateDueSignals workspaceId config s pass).1.tokens = s.tokens := by
  obtain ⟨-, newRows, hleaves⟩ := evaluateDueSignals_leaves workspaceId config s pass
  exact hleaves.tokens

theorem mem_done (workspaceId : Int) (config : SignalsConfig) (pass : WorkerPass) (ht : t ∈ s.tokens) :
    tokenKey t ∈ (evaluateDueSignals workspaceId config s pass).2 ↔
      t ∈ (dueLine workspaceId config s pass).take batchLimit ∧ succeeds workspaceId config s pass t = true := by
  rw [(evaluateDueSignals_leaves workspaceId config s pass).1, List.mem_map]
  constructor
  · rintro ⟨u, hu, hkey⟩
    have hmem := List.mem_filter.mp hu
    have htokens := (mem_dueLine.mp (List.mem_of_mem_take hmem.1)).1
    obtain rfl := List.inj_on_of_nodup_map s.keys_nodup htokens ht hkey
    exact hmem
  · exact fun h => ⟨t, List.mem_filter.mpr h, rfl⟩

/-! ## Many passes -/

/-- A sound token is evaluated exactly when a pass finds it among the first twenty. -/
theorem evaluatedIn_iff (ht : t ∈ s.tokens)
    (hsound : Sound workspaceId config s passes t) : tokenKey t ∈ evaluatedIn workspaceId config s passes ↔
      Sometime workspaceId config (fun s' q => t ∈ (dueLine workspaceId config s' q).take batchLimit) s passes := by
  induction passes generalizing s with
  | nil => simp [evaluatedIn, Sometime]
  | cons pass passes ih =>
    have hrest := ih (by rw [evaluateDueSignals_tokens]; exact ht) hsound.2
    rw [evaluatedIn, List.mem_append, mem_done _ _ _ ht, and_iff_left hsound.1, hrest, Sometime]

/-- A token that is due is among the first twenty of some pass exactly when some pass finds
fewer than twenty due tokens before it. -/
theorem sometime_iff (ht : t ∈ dueLine workspaceId config s pass)
    (hclock : (pass :: passes).Pairwise fun p q => p.selectedAt ≤ q.selectedAt)
    (hwindow : ∀ q ∈ passes, inWindow q.selectedAt config t = true) :
    Sometime workspaceId config (fun s' q => t ∈ (dueLine workspaceId config s' q).take batchLimit) s (pass :: passes) ↔
      Sometime workspaceId config (fun s' q => (ahead (dueLine workspaceId config s' q) t).length < batchLimit) s
        (pass :: passes) := by
  induction passes generalizing s pass with
  | nil => simp [Sometime, mem_take_iff dueLine_nodup ht]
  | cons next passes ih =>
    have hfirst := mem_take_iff (b := batchLimit) dueLine_nodup ht
    refine Iff.trans (or_congr hfirst Iff.rfl) (or_congr_right' fun hnot => ?_)
    -- A token that the pass does not come to is due when the next one selects.
    obtain ⟨-, newRows, hleaves⟩ := evaluateDueSignals_leaves workspaceId config s pass
    obtain ⟨htokens, hdue⟩ := mem_dueLine.mp ht
    have hundone : tokenKey t ∉ (evaluateDueSignals workspaceId config s pass).2 := fun hdone =>
      hnot (hfirst.mp ((mem_done _ _ _ htokens).mp hdone).1)
    obtain ⟨hpass, hrest⟩ := List.pairwise_cons.mp hclock
    have hstill : t ∈ dueLine workspaceId config (evaluateDueSignals workspaceId config s pass).1 next := by
      refine mem_dueLine.mpr ⟨by rw [hleaves.tokens]; exact htokens, ?_⟩
      refine (isDue_after hleaves).mpr ⟨?_, fun hdone => absurd hdone hundone⟩
      exact isDue_later hdue (hpass next List.mem_cons_self) (hwindow next List.mem_cons_self)
    exact ih hstill hrest fun q hq => hwindow q (List.mem_cons_of_mem _ hq)

/-! ## Passes as rounds -/

variable {next : WorkerPass}

theorem Quiet.after (h : Quiet config s pass (next :: passes)) :
    Quiet config (evaluateDueSignals workspaceId config s pass).1 next passes := by
  obtain ⟨hpass, hrest⟩ := List.pairwise_cons.mp h.clock
  refine ⟨hrest, fun q hq t ht hin => ?_⟩
  rw [evaluateDueSignals_tokens] at ht
  exact h.window q (List.mem_cons_of_mem _ hq) t ht (inWindow_earlier hin (hpass next List.mem_cons_self))

/-- What is due at the next pass is what this one leaves of its line. -/
theorem dueLine_next (hq : Quiet config s pass (next :: passes))
    (hs : Settled workspaceId config s pass (next :: passes)) :
    dueLine workspaceId config (evaluateDueSignals workspaceId config s pass).1 next =
      ((dueLine workspaceId config s pass).take batchLimit).filter (fun t => !succeeds workspaceId config s pass t) ++
        (dueLine workspaceId config s pass).drop batchLimit := by
  obtain ⟨-, newRows, hleaves⟩ := evaluateDueSignals_leaves workspaceId config s pass
  have hclock := (List.pairwise_cons.mp hq.clock).1 next List.mem_cons_self
  have hsoon := (List.pairwise_cons.mp hs.soon).1 next List.mem_cons_self
  have hdue : ∀ t ∈ oldestFirst s.tokens,
      isDue next.selectedAt workspaceId config (evaluateDueSignals workspaceId config s pass).1.evaluations t =
        (!(evaluateDueSignals workspaceId config s pass).2.contains (tokenKey t) &&
          isDue pass.selectedAt workspaceId config s.evaluations t) := by
    intro t ht
    rw [oldestFirst, List.mem_insertionSort] at ht
    have hsame : isDue next.selectedAt workspaceId config s.evaluations t = true ↔
        isDue pass.selectedAt workspaceId config s.evaluations t = true := by
      refine ⟨hs.early next List.mem_cons_self t ht, fun hin => isDue_later hin hclock ?_⟩
      exact hq.window next List.mem_cons_self t ht (isDue_iff.mp hin).2.1
    -- what this pass evaluates is not due again yet
    have hrecent : ¬pass.now ≤ next.selectedAt - seconds signalEvalReevalSeconds := by
      rw [not_le]
      exact sub_lt_iff_lt_add.mpr hsoon
    rw [Bool.eq_iff_iff, isDue_after hleaves, hsame]
    simp [hrecent, and_comm]
  rw [dueLine_eq, hleaves.tokens, List.filter_congr hdue, ← List.filter_filter, ← dueLine_eq,
    front_append_rest dueLine_nodup]
  refine List.filter_congr fun t ht => ?_
  have hdone := mem_done workspaceId config pass (mem_dueLine.mp ht).1
  rw [Bool.not_not, Bool.not_inj_iff, Bool.eq_iff_iff, List.contains_iff_mem, hdone]
  simp

theorem dueLine_next_subset (hq : Quiet config s pass (next :: passes))
    (hs : Settled workspaceId config s pass (next :: passes)) :
    ∀ t ∈ dueLine workspaceId config (evaluateDueSignals workspaceId config s pass).1 next,
      t ∈ dueLine workspaceId config s pass := by
  intro t ht
  rw [dueLine_next hq hs, List.mem_append] at ht
  rcases ht with ht | ht
  · exact List.mem_of_mem_take (List.mem_of_mem_filter ht)
  · exact List.mem_of_mem_drop ht

theorem Settled.after (hq : Quiet config s pass (next :: passes))
    (hs : Settled workspaceId config s pass (next :: passes)) :
    Settled workspaceId config (evaluateDueSignals workspaceId config s pass).1 next passes := by
  obtain ⟨hpass, hrest⟩ := List.pairwise_cons.mp hq.clock
  obtain ⟨hsoon, hlater⟩ := List.pairwise_cons.mp hs.soon
  obtain ⟨-, newRows, hleaves⟩ := evaluateDueSignals_leaves workspaceId config s pass
  refine ⟨fun q hq' t ht hin => ?_, hlater, fun t ht => ?_⟩
  · rw [hleaves.tokens] at ht
    obtain ⟨hold, hdone⟩ := (isDue_after hleaves).mp hin
    have hfirst := hs.early q (List.mem_cons_of_mem _ hq') t ht hold
    have hwindow : inWindow next.selectedAt config t = true :=
      inWindow_earlier (isDue_iff.mp hin).2.1 ((List.pairwise_cons.mp hrest).1 q hq')
    refine (isDue_after hleaves).mpr ⟨isDue_later hfirst (hpass next List.mem_cons_self) hwindow, fun hevaluated => ?_⟩
    -- a token that the pass evaluated would come due while the passes last
    have hlate := sub_lt_iff_lt_add.mpr (hsoon q (List.mem_cons_of_mem _ hq'))
    exact absurd (hdone hevaluated) (not_le.mpr hlate)
  · have hsteady := (hs.steady t (dueLine_next_subset hq hs t ht)).2
    rw [hsteady.1]
    exact hsteady

/-- The passes as rounds in which some tokens keep their place. -/
def roundsOf (workspaceId : Int) (config : SignalsConfig) (stays : TokenRow → Bool) :
    Store → List WorkerPass → List (Round TokenRow)
  | _, [] => []
  | s, pass :: passes => ⟨dueLine workspaceId config s pass, [], stays, dueLine_nodup⟩ ::
    roundsOf workspaceId config stays (evaluateDueSignals workspaceId config s pass).1 passes

variable {stays : TokenRow → Bool}

theorem roundsOf_length : (roundsOf workspaceId config stays s passes).length = passes.length := by
  induction passes generalizing s with
  | nil => rfl
  | cons pass passes ih => rw [roundsOf, List.length_cons, List.length_cons, ih]

theorem roundsOf_stays : ∀ r ∈ roundsOf workspaceId config stays s passes, r.stays = stays := by
  induction passes generalizing s with
  | nil => intro r hr; cases hr
  | cons pass passes ih =>
    intro r hr
    rcases List.mem_cons.mp hr with rfl | hr
    · rfl
    · exact ih r hr

theorem roundsOf_chain (stays : TokenRow → Bool) (hq : Quiet config s pass passes)
    (hs : Settled workspaceId config s pass passes)
    (hstays : ∀ t ∈ dueLine workspaceId config s pass, stays t = !succeeds workspaceId config s pass t) :
    Rounds batchLimit (roundsOf workspaceId config stays s (pass :: passes)) := by
  induction passes generalizing s pass with
  | nil => exact List.IsChain.singleton _
  | cons next passes ih =>
    refine List.isChain_cons_cons.mpr ⟨?_, ih hq.after (hs.after hq) fun t ht => ?_⟩
    · refine (dueLine_next hq hs).trans (congrArg (· ++ _) (List.filter_congr fun t ht => ?_))
      exact (hstays t (List.mem_of_mem_take ht)).symm
    · have hline := dueLine_next_subset hq hs t ht
      rw [(hs.steady t hline).2.1]
      exact hstays t hline

theorem mem_served_roundsOf : t ∈ served batchLimit (roundsOf workspaceId config stays s passes) ↔
    Sometime workspaceId config (fun s' q => t ∈ (dueLine workspaceId config s' q).take batchLimit) s passes := by
  induction passes generalizing s with
  | nil => simp [roundsOf, served, Sometime]
  | cons pass passes ih => rw [roundsOf, mem_served_cons, Round.batch, List.append_nil, ih, Sometime]

theorem Settled.sound_iff (hs : Settled workspaceId config s pass passes) (ht : t ∈ dueLine workspaceId config s pass) :
    Sound workspaceId config s (pass :: passes) t ↔ succeeds workspaceId config s pass t = true := by
  refine ⟨fun h => h.1, fun h => ?_⟩
  have hsteady := hs.steady t ht
  rwa [h] at hsteady

/-- Where nothing comes due, a sound token is evaluated exactly when fewer than twenty of those
before it fail. -/
theorem Settled.evaluated_iff (hq : Quiet config s pass passes) (hs : Settled workspaceId config s pass passes)
    (hpasses : ((dueLine workspaceId config s pass).filter (succeeds workspaceId config s pass)).length ≤
      passes.length + 1)
    (ht : t ∈ dueLine workspaceId config s pass) (hsucceeds : succeeds workspaceId config s pass t = true) :
    tokenKey t ∈ evaluatedIn workspaceId config s (pass :: passes) ↔
      ((ahead (dueLine workspaceId config s pass) t).filter fun u => !succeeds workspaceId config s pass u).length <
        batchLimit := by
  obtain ⟨after, hline⟩ := ahead_append ht
  have hchain := roundsOf_chain (fun u => !succeeds workspaceId config s pass u) hq hs fun _ _ => rfl
  rw [evaluatedIn_iff (mem_dueLine.mp ht).1 ((hs.sound_iff ht).mpr hsucceeds), ← mem_served_roundsOf]
  have hstays : ∀ r ∈ roundsOf workspaceId config (fun u => !succeeds workspaceId config s pass u) s (pass :: passes),
      r.stays = fun u => !succeeds workspaceId config s pass u := roundsOf_stays
  refine reached_iff hchain hstays hline ?_
  have hcount := congrArg (fun l => (l.filter (succeeds workspaceId config s pass)).length) hline
  simp only [List.filter_append, List.filter_cons_of_pos hsucceeds, List.length_append, List.length_cons] at hcount
  rw [roundsOf_length]
  simp only [Bool.not_not]
  show ((ahead (dueLine workspaceId config s pass) t).filter (succeeds workspaceId config s pass)).length ≤ _
  omega

end

section
variable {workspaceId : Int} {config : SignalsConfig} {s : Store} {pass : WorkerPass} {passes : List WorkerPass}
variable {due : String × String} {chain : ChainKind}

/-- An attempt that fails and is released leaves the tables as they were. -/
theorem attemptToken_fails (hchain : ChainKind.parse due.1 = some chain)
    (hfree : s.claims (workspaceId, due.1, due.2) = none) (hreleased : (pass.attempt due).released = true)
    (hfails : (evaluation workspaceId config pass s chain due).isOk = false) :
    (attemptToken workspaceId config pass s due).1 = s := by
  have hback : releaseEvalClaim (s.claimed workspaceId due (pass.attempt due)) (workspaceId, due.1, due.2)
      (pass.attempt due).claimant = s.claims := by
    funext j
    by_cases hj : j = (workspaceId, due.1, due.2)
    · subst hj
      simp [releaseEvalClaim, Table.deleteWhere, Store.claimed, claimToken, Table.upsert, set_self, hfree, newClaim]
    · rw [released_ne hj, claimed_ne hj]
  unfold attemptToken
  simp only [hchain]
  split
  · cases h : evaluation workspaceId config pass s chain due with
    | error e => simp only [hback]
    | ok r => rw [h] at hfails; cases hfails
  next htaken =>
    rw [claimTaken, Table.upserted, hfree] at htaken
    exact absurd rfl htaken

theorem evaluateDueSignals_same (h : ∀ k ∈ dueTokens pass.selectedAt workspaceId config s.tokens s.evaluations,
    (attemptToken workspaceId config pass s k).1 = s) : (evaluateDueSignals workspaceId config s pass).1 = s := by
  rw [evaluateDueSignals]
  generalize dueTokens pass.selectedAt workspaceId config s.tokens s.evaluations = l at h
  induction l with
  | nil => rfl
  | cons k l ih =>
    rw [attemptEach_fst, h k List.mem_cons_self]
    exact ih fun k' hk' => h k' (List.mem_cons_of_mem _ hk')

variable {P : Store → WorkerPass → Prop}

theorem throughout_same (h : ∀ q ∈ passes, (evaluateDueSignals workspaceId config s q).1 = s)
    (hP : ∀ q ∈ passes, P s q) : Throughout workspaceId config P s passes := by
  induction passes with
  | nil => trivial
  | cons pass passes ih =>
    refine ⟨hP pass List.mem_cons_self, ?_⟩
    rw [h pass List.mem_cons_self]
    exact ih (fun q hq => h q (List.mem_cons_of_mem _ hq)) fun q hq => hP q (List.mem_cons_of_mem _ hq)

theorem not_sometime_same (h : ∀ q ∈ passes, (evaluateDueSignals workspaceId config s q).1 = s)
    (hP : ∀ q ∈ passes, ¬P s q) : ¬Sometime workspaceId config P s passes := by
  induction passes with
  | nil => exact id
  | cons pass passes ih =>
    refine not_or.mpr ⟨hP pass List.mem_cons_self, ?_⟩
    rw [h pass List.mem_cons_self]
    exact ih (fun q hq => h q (List.mem_cons_of_mem _ hq)) fun q hq => hP q (List.mem_cons_of_mem _ hq)

end

def mintOf (n : Nat) : String := String.ofList [Char.ofNat (65 + n)]

def token (n : Nat) : TokenRow := ⟨"solana", mintOf n, "graduated", some n, some []⟩

/-- The first tokens have a buyer whose label no policy knows, and the last has none. -/
def poisonedStore : Store where
  dbNow := 100
  labels := [⟨1, "solana", "buyer", "unknown", true, none, none⟩]
  tokens := (List.range 21).map token
  snapshots := []
  trades := (List.range 20).map fun n => ⟨"solana", "buyer", mintOf n, "buy", some 5⟩
  members := []
  scores := []
  signals := []
  claims := fun _ => none
  evaluations := []
  keys_nodup := by decide +kernel

/-- A pass in the minute, with a claim for each token that is released when its evaluation fails. -/
def minutePass (n : Nat) : WorkerPass where
  now := seconds (60 * n) + 100
  selectedAt := seconds (60 * n) + 100
  attempt due := {
    claimant := "worker-" ++ toString n ++ "-" ++ due.2
    claimedAt := seconds (60 * n) + 100
    readAt := seconds (60 * n) + 100
    writtenAt := seconds (60 * n) + 100
    signalId := n
    released := true }

def laterPasses (n : Nat) : List WorkerPass := (List.range n).map fun i => minutePass (i + 1)

theorem poisoned_fails : ∀ n < 21, ∀ k ∈ dueTokens (minutePass n).selectedAt 1 someConfig poisonedStore.tokens
    poisonedStore.evaluations, k.1 = "solana" ∧
      (evaluation 1 someConfig (minutePass n) poisonedStore .solana k).isOk = false := by decide +kernel

theorem poisoned_same {n : Nat} (hn : n < 21) :
    (evaluateDueSignals 1 someConfig poisonedStore (minutePass n)).1 = poisonedStore := by
  refine evaluateDueSignals_same fun k hk => ?_
  obtain ⟨hsolana, hfails⟩ := poisoned_fails n hn k hk
  exact attemptToken_fails (by rw [hsolana]; rfl) rfl rfl hfails

/-- The first of three tokens has the buyer, and the others have none. -/
def mixedStore : Store where
  dbNow := 100
  labels := poisonedStore.labels
  tokens := (List.range 3).map token
  snapshots := []
  trades := [⟨"solana", "buyer", mintOf 0, "buy", some 5⟩]
  members := []
  scores := []
  signals := []
  claims := fun _ => none
  evaluations := []
  keys_nodup := by decide +kernel

example : (dueLine 1 someConfig mixedStore (minutePass 0)).map (succeeds 1 someConfig mixedStore (minutePass 0)) =
    [false, true, true] := by decide +kernel

end WhaleIntelligence.Signals.Due
