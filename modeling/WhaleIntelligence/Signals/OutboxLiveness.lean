import WhaleIntelligence.Admin.Reads
import WhaleIntelligence.Signals.OutboxSafety

/- Nothing is stranded in the alert outbox.

   The selections and the claim ask different things of a row, and a crash can leave a
   row at the cap. In every state of a run, a delivery that waits is selected once, and
   its next claim takes it or finds it exhausted (`never_stranded`).

   The claim asks who owns a funding case and not who owns a signal, and the selection of
   the signals goes by the signal and the destination alone. So a signal waits only when
   all the rows for the two do, those of other workspaces too. -/
namespace WhaleIntelligence.Signals
open WhaleIntelligence KeyedTable Runs

/-! ## The selections, without their limits -/

/-- The rows of the table, in some order. -/
structure RowsOf (rows : List (String × AlertRow)) (alerts : Alerts) : Prop where
  keys : (rows.map (·.1)).Nodup
  mem : ∀ key r, (key, r) ∈ rows ↔ alerts key = some r

def selectedSignals (db : Admin.Database) (workspaceId : Int64) (destination : String) : List SignalRow :=
  Admin.oldestOf (·.createdAt) (db.signals.filter fun s => s.workspaceId == workspaceId.toInt && s.status == "active" &&
    !db.alerts.any (Admin.holdsBack db s destination))

theorem pendingSignalAlerts_eq (db : Admin.Database) (workspaceId : Int64) (destination : String) :
    Admin.pendingSignalAlerts db workspaceId destination =
      ((selectedSignals db workspaceId destination).take 20).map Admin.SignalSummary.of := rfl

/-- A case of `pending_funding_alerts`, its text and what it is ordered by. -/
structure FundingAlert where
  caseId : Int
  text : String
  ord : String
  deriving DecidableEq, Repr

def fundingText (c : Radar.CaseRow) : String :=
  c.chain ++ " wallet " ++ c.recipient ++ " confidence " ++ toString c.confidence ++ ": possible project preparation"

/-- A failed delivery is due again. -/
def outboxDue (now : DateTime) (workspaceId : Int) (destination : String) (r : AlertRow) : Bool :=
  r.subjectKind == "funding" && r.workspaceId == workspaceId && r.destination == destination && r.state == .pending &&
    r.due now && r.unleased now

/-- An alert was claimed for the case. -/
def hasAlert (workspaceId : Int) (destination : String) (c : Radar.CaseRow) (r : AlertRow) : Bool :=
  r.subjectKind == "funding" && r.fundingCaseId == some c.id && r.workspaceId == workspaceId &&
    r.destination == destination

def dueFunding (db : Admin.Database) (rows : List (String × AlertRow)) (workspaceId : Int64) (destination : String) :
    List FundingAlert :=
  (rows.filter fun row => outboxDue db.dbNow workspaceId.toInt destination row.2).flatMap fun row =>
    (db.cases.filter fun c => row.2.fundingCaseId == some c.id && c.workspaceId == row.2.workspaceId).map fun c =>
      ⟨c.id, fundingText c, row.1⟩

def derivedFunding (db : Admin.Database) (rows : List (String × AlertRow)) (workspaceId : Int64) (destination : String)
    (minConfidence : UInt32) : List FundingAlert :=
  (db.cases.filter fun c => c.workspaceId == workspaceId.toInt && c.stage == .preparation &&
    decide (asI32 minConfidence.toNat ≤ c.confidence) &&
    !rows.any fun row => hasAlert workspaceId.toInt destination c row.2).map
      fun c => ⟨c.id, fundingText c, "derived:" ++ toString c.id⟩

def selectedFunding (db : Admin.Database) (rows : List (String × AlertRow)) (workspaceId : Int64) (destination : String)
    (minConfidence : UInt32) : List FundingAlert :=
  (dueFunding db rows workspaceId destination ++
    derivedFunding db rows workspaceId destination minConfidence).insertionSort
    fun a b => a.ord ≤ b.ord

def pendingFundingAlerts (db : Admin.Database) (rows : List (String × AlertRow)) (workspaceId : Int64)
    (destination : String) (minConfidence : UInt32) : List (Int × String) :=
  ((selectedFunding db rows workspaceId destination minConfidence).take 20).map fun a => (a.caseId, a.text)

/-! ## What is waited for -/

/-- The row is due and not held. -/
def AlertRow.waits (r : AlertRow) (now : DateTime) : Prop :=
  r.state = .pending ∧ r.unleased now = true ∧ r.due now = true

/-- No row, or one that waits. -/
def Waiting (s : Outbox) (d : Delivery) : Prop := ∀ r, s.alerts d.key = some r → r.waits s.now

/-- No row for the signal and the destination, of whichever workspace, or only ones that wait. -/
def SignalWaiting (s : Outbox) (signalId : Int) (destination : String) : Prop :=
  ∀ key r, s.alerts key = some r → r.signalId = some signalId → r.destination = destination → r.waits s.now

/-- `claim_alert` by a sole dispatcher: its statements at three times. -/
def soleClaim (d : Delivery) (token : String) (owned : Bool) (n₁ n₂ n₃ : DateTime)
    (attempt : Option Int) : List Event :=
  [.tick n₁, .sweep d token, .tick n₂, .check token owned, .tick n₃, .claim d token n₃ attempt]

/-- The claim can be made, and it returns a claim or leaves the row exhausted. -/
def NextClaim (s : Outbox) (d : Delivery) (owned : Bool) : Prop :=
  ∀ token n₁ n₂ n₃, s.calls token = none → s.now ≤ n₁ → n₁ ≤ n₂ → n₂ ≤ n₃ →
    (∃ attempt t, Run Step s (soleClaim d token owned n₁ n₂ n₃ attempt) t) ∧
    ∀ attempt t, Run Step s (soleClaim d token owned n₁ n₂ n₃ attempt) t → attempt.isSome = true ∨
      ∃ r, t.alerts d.key = some r ∧ r.state = .dead ∧ r.attemptCount = alertMaxAttempts

/-- A claim or a recorded failure of the row. -/
def Event.touches (key : String) : Event → Bool
  | .claim d _ _ (some _) => d.key == key
  | .failed d _ _ _ _ _ true => d.key == key
  | _ => false

/-- The row is tried again within an hour of the last claim or failure. -/
def Retried (s₀ : Outbox) (es : List Event) (key : String) (r : AlertRow) : Prop :=
  ∃ before e after u, es = before ++ e :: after ∧ Run Step s₀ before u ∧ e.touches key = true ∧
    (∀ f ∈ after, f.touches key = false) ∧ ∃ next, r.nextAttemptAt = some next ∧ next ≤ u.now + seconds 3600

/-- What holds after the events `es` of a run from `s₀`. -/
structure NeverStranded (s₀ : Outbox) (es : List Event) (s : Outbox) (db : Admin.Database)
    (rows : List (String × AlertRow)) : Prop where
  signals : ∀ (w : Int64) destination sig, sig ∈ db.signals → sig.workspaceId = w.toInt → sig.status = "active" →
    SignalWaiting s sig.id destination →
    ((selectedSignals db w destination).map (·.id)).count sig.id = 1 ∧
      ∀ owned, NextClaim s ⟨"signal", w.toInt, sig.id, destination⟩ owned
  funding : ∀ (w : Int64) destination (minConfidence : UInt32) c, c ∈ db.cases → c.workspaceId = w.toInt →
    c.stage = .preparation → (minConfidence.toNat : Int) ≤ c.confidence →
      Waiting s ⟨"funding", w.toInt, c.id, destination⟩ →
    ((selectedFunding db rows w destination minConfidence).map (·.caseId)).count c.id = 1 ∧
      NextClaim s ⟨"funding", w.toInt, c.id, destination⟩ true
  retried : ∀ key r, s.alerts key = some r → r.state = .pending → Retried s₀ es key r

section
variable {s s' t s₀ : Outbox} {e : Event} {es : List Event} {key token : String} {r : AlertRow} {d : Delivery}

/-! ## Whose rows there are -/

/-- The row is of the delivery. -/
structure RowFor (d : Delivery) (r : AlertRow) : Prop where
  subjectKind : r.subjectKind = d.kind
  workspaceId : r.workspaceId = d.workspaceId
  destination : r.destination = d.destination
  subject : (d.kind = "signal" ∧ r.signalId = some d.subjectId ∧ r.fundingCaseId = none) ∨
    (d.kind = "funding" ∧ r.signalId = none ∧ r.fundingCaseId = some d.subjectId)

/-- Every call and every row comes from a call for its delivery. -/
structure Sourced (es : List Event) (s : Outbox) : Prop where
  calls : ∀ token call, s.calls token = some call → .sweep call.delivery token ∈ es
  checked : ∀ token d signalId caseId, s.calls token = some ⟨d, .checked signalId caseId⟩ →
    (d.kind = "signal" ∧ signalId = some d.subjectId ∧ caseId = none) ∨
    (d.kind = "funding" ∧ signalId = none ∧ caseId = some d.subjectId)
  rows : ∀ key r, s.alerts key = some r → ∃ d token, .sweep d token ∈ es ∧ d.key = key ∧ RowFor d r

theorem RowFor.fundingCase (h : RowFor d r) (hkind : d.kind = "funding") : r.fundingCaseId = some d.subjectId := by
  obtain ⟨hsignal, -⟩ | ⟨-, -, hsubject⟩ := h.subject
  · exact absurd (hkind.symm.trans hsignal) (by decide)
  · exact hsubject

theorem RowFor.exhaust (h : RowFor d r) : RowFor d r.exhaust := ⟨h.1, h.2, h.3, h.4⟩

theorem RowFor.claim (h : RowFor d r) (now : DateTime) : RowFor d (r.claim now token) := ⟨h.1, h.2, h.3, h.4⟩

theorem RowFor.markSent (h : RowFor d r) (now : DateTime) : RowFor d (r.markSent now) := ⟨h.1, h.2, h.3, h.4⟩

theorem RowFor.markFailed (h : RowFor d r) (now : DateTime) (attempt : Int) (error : String) (permanent : Bool)
    (retryAfter : Option Nat) : RowFor d (r.markFailed now attempt error permanent retryAfter) := ⟨h.1, h.2, h.3, h.4⟩

theorem checkedStage_columns {owned : Bool} {signalId caseId : Option Int}
    (h : checkedStage d owned = .checked signalId caseId) :
    (d.kind = "signal" ∧ signalId = some d.subjectId ∧ caseId = none) ∨
    (d.kind = "funding" ∧ signalId = none ∧ caseId = some d.subjectId) := by
  rw [checkedStage, subjectColumns] at h
  by_cases hsignal : d.kind = "signal"
  · rw [if_pos hsignal] at h
    cases h
    exact .inl ⟨hsignal, rfl, rfl⟩
  · by_cases hfunding : d.kind = "funding"
    · rw [if_neg hsignal, if_pos hfunding] at h
      cases owned with
      | false => cases h
      | true =>
        cases h
        exact .inr ⟨hfunding, rfl, rfl⟩
    · rw [if_neg hsignal, if_neg hfunding] at h
      cases h

/-- A row that is inserted is the one of a claim's delivery. -/
theorem step_inserted (h : Step s e s') (hnone : s.alerts key = none) (hr : s'.alerts key = some r) :
    ∃ d token signalId caseId, s.calls token = some ⟨d, .checked signalId caseId⟩ ∧ d.key = key ∧
      r = newRow s.now d signalId caseId token := by
  have hchange := step_row h key
  rw [hnone, hr] at hchange
  cases hchange with
  | inserted d token signalId caseId hkey he =>
    subst he
    obtain ⟨signalId', caseId', hchecked, -, -, rfl⟩ := h
    have hrow : claimRow s.now d signalId' caseId' token s.alerts key =
      some (newRow s.now d signalId' caseId' token) := by
      rw [claimRow, Table.upsert, hkey, set_self, hnone]
    exact ⟨d, token, signalId', caseId', hchecked, hkey, Option.some.inj (hr.symm.trans hrow)⟩

theorem Sourced.step (hi : Sourced es s) (h : Step s e s') : Sourced (es ++ [e]) s' := by
  refine ⟨fun token call hc => ?_, fun token d signalId caseId hc => ?_, fun key r hr => ?_⟩
  · have hold : ∀ stage, s.calls token = some ⟨call.delivery, stage⟩ → Event.sweep call.delivery token ∈ es ++ [e] :=
      fun stage hs => List.mem_append_left _ (hi.calls token ⟨call.delivery, stage⟩ hs)
    obtain hsame | ⟨d, rfl, -, hnew⟩ | ⟨d, owned, hswept, hnew⟩ | ⟨d, signalId, caseId, hchecked, hnew⟩ :=
      call_cases token h
    · exact hold call.stage (hsame.symm.trans hc)
    · obtain rfl := Option.some.inj (hnew.symm.trans hc)
      exact List.mem_append_right _ (List.mem_singleton.mpr rfl)
    · obtain rfl := Option.some.inj (hnew.symm.trans hc)
      exact hold _ hswept
    · obtain rfl := Option.some.inj (hnew.symm.trans hc)
      exact hold _ hchecked
  · rcases step_checked h hc with hold | ⟨owned, hchecked⟩
    · exact hi.checked token d signalId caseId hold
    · exact checkedStage_columns hchecked
  · cases hrow : s.alerts key with
    | none =>
      obtain ⟨d, token, signalId, caseId, hchecked, hkey, rfl⟩ := step_inserted h hrow hr
      have hcall := hi.calls token _ hchecked
      exact ⟨d, token, List.mem_append_left _ hcall, hkey, rfl, rfl, rfl, hi.checked token d signalId caseId hchecked⟩
    | some old =>
      obtain ⟨d, token, hsweep, hkey, hfor⟩ := hi.rows key old hrow
      refine ⟨d, token, List.mem_append_left _ hsweep, hkey, ?_⟩
      have hchange := step_row h key
      rw [hrow, hr] at hchange
      cases hchange with
      | kept => exact hfor
      | swept => exact hfor.exhaust
      | reclaimed => exact hfor.claim _
      | sent => exact hfor.markSent _
      | failed => exact hfor.markFailed _ _ _ _ _

/-! ## Retries -/

theorem Retried.step (hr : Retried s₀ es key r) (h : e.touches key = false) : Retried s₀ (es ++ [e]) key r := by
  obtain ⟨before, f, after, u, rfl, hrun, hf, hafter, hnext⟩ := hr
  refine ⟨before, f, after ++ [e], u, ?_, hrun, hf, fun g hg => ?_, hnext⟩
  · rw [List.append_assoc, List.cons_append]
  · rcases mem_concat hg with hg | rfl
    · exact hafter g hg
    · exact h

theorem Retried.last {u : Outbox} {next : DateTime} (hrun : Run Step s₀ es u) (he : e.touches key = true)
    (hnext : r.nextAttemptAt = some next) (hle : next ≤ u.now + seconds 3600) : Retried s₀ (es ++ [e]) key r :=
  ⟨es, e, [], u, rfl, hrun, he, fun _ hf => absurd hf List.not_mem_nil, next, hnext, hle⟩

theorem touches_kept (hclaim : e.claimOf key = none) (hdone : ∀ token, e.completion ≠ some (key, token)) :
    e.touches key = false := by
  cases e with
  | claim d token now attempt =>
    cases attempt with
    | none => rfl
    | some n =>
      rw [Event.claimOf] at hclaim
      split at hclaim
      · cases hclaim
      · rename_i hkey
        exact beq_eq_false_iff_ne.mpr hkey
  | failed d token attempt error permanent retryAfter recorded =>
    cases recorded with
    | false => rfl
    | true =>
      refine beq_eq_false_iff_ne.mpr fun hkey => hdone token ?_
      rw [Event.completion, hkey]
  | tick now => rfl
  | sweep d token => rfl
  | check token owned => rfl
  | sent d token recorded => rfl

theorem backoffSeconds_le (attempt : Int) (retryAfter : Option Nat) : backoffSeconds attempt retryAfter ≤ 3600 := by
  cases retryAfter with
  | none => exact Nat.min_le_right _ _
  | some n =>
    have h : backoffSeconds attempt (some n) ≤ alertMaxRetryAfterSeconds := Nat.min_le_right _ _
    exact h.trans (by decide)

theorem seconds_mono {m n : Int} (h : m ≤ n) : seconds m ≤ seconds n := Int.mul_le_mul_of_nonneg_right h (by decide)

/-- Every pending row is tried again, in every state of a run from the empty outbox. -/
theorem retried_step (hrun : Run Step s₀ es s)
    (hi : ∀ key r, s.alerts key = some r → r.state = .pending → Retried s₀ es key r)
    (h : Step s e s') (hr : s'.alerts key = some r) (hpending : r.state = .pending) : Retried s₀ (es ++ [e]) key r := by
  have hchange := step_row h key
  rw [hr] at hchange
  generalize hold : s.alerts key = old at hchange
  cases hchange with
  | kept _ hclaim hdone => exact (hi key r hold hpending).step (touches_kept hclaim hdone)
  | swept => cases hpending
  | inserted d token signalId caseId hkey he =>
    subst he
    exact .last hrun (beq_iff_eq.mpr hkey) rfl (Int.add_le_add_left (seconds_mono (by decide)) _)
  | reclaimed d token _ hkey hg he =>
    subst he
    exact .last hrun (beq_iff_eq.mpr hkey) rfl (Int.add_le_add_left (seconds_mono (by decide)) _)
  | sent => cases hpending
  | failed d token attempt error permanent retryAfter _ hkey hg he =>
    subst he
    -- a failure that leaves the row pending sets the backoff
    by_cases hdead : (permanent || decide (alertMaxAttempts ≤ attempt)) = true
    · simp [AlertRow.markFailed, hdead] at hpending
    · have hle := Int.ofNat_le.mpr (backoffSeconds_le attempt retryAfter)
      exact .last hrun (beq_iff_eq.mpr hkey) (if_neg hdead) (Int.add_le_add_left (seconds_mono hle) _)

/-! ## The next claim -/

section
variable {owned : Bool} {signalId caseId : Option Int} {n₁ n₂ n₃ : DateTime} {attempt : Option Int}

theorem soleClaim_runs (hfree : s.calls token = none) (hchecked : checkedStage d owned = .checked signalId caseId)
    (h₁ : s.now ≤ n₁) (h₂ : n₁ ≤ n₂) (h₃ : n₂ ≤ n₃) :
    ∃ attempt t, Run Step s (soleClaim d token owned n₁ n₂ n₃ attempt) t := by
  refine ⟨_, _, _, ⟨h₁, rfl⟩, _, ⟨hfree, rfl⟩, _, ⟨h₂, rfl⟩, _, ⟨d, set_self _ _ _, rfl⟩, _, ⟨h₃, rfl⟩, _,
    ⟨signalId, caseId, ?_, rfl, rfl, rfl⟩, rfl⟩
  rw [← hchecked]
  exact set_self _ _ _

theorem soleClaim_eq (hchecked : checkedStage d owned = .checked signalId caseId)
    (h : Run Step s (soleClaim d token owned n₁ n₂ n₃ attempt) t) :
    attempt = claimedAttempt n₃ d signalId caseId token (sweepExhausted n₁ d.key s.alerts) ∧
      t.alerts = claimRow n₃ d signalId caseId token (sweepExhausted n₁ d.key s.alerts) := by
  obtain ⟨_, ⟨-, rfl⟩, _, ⟨-, rfl⟩, _, ⟨-, rfl⟩, _, ⟨d', hd', rfl⟩, _, ⟨-, rfl⟩, _,
    ⟨signalId', caseId', hcall, -, hattempt, rfl⟩, rfl⟩ := h
  obtain rfl : d = d' := congrArg Call.delivery (Option.some.inj ((set_self _ _ _).symm.trans hd'))
  have hstage := congrArg Call.stage (Option.some.inj ((set_self _ _ _).symm.trans hcall))
  obtain ⟨rfl, rfl⟩ := Stage.checked.inj (hchecked.symm.trans hstage)
  exact ⟨hattempt, rfl⟩

theorem unleased_mono (h : r.unleased n₁ = true) (hn : n₁ ≤ n₂) : r.unleased n₂ = true := by
  cases hexpires : r.claimExpiresAt with
  | none => rw [AlertRow.unleased, hexpires]
  | some expires =>
    rw [AlertRow.unleased, hexpires, decide_eq_true_eq] at h ⊢
    exact h.trans hn

theorem due_mono (h : r.due n₁ = true) (hn : n₁ ≤ n₂) : r.due n₂ = true := by
  cases hnext : r.nextAttemptAt with
  | none =>
    rw [AlertRow.due, hnext] at h
    cases h
  | some next =>
    rw [AlertRow.due, hnext, decide_eq_true_eq] at h ⊢
    exact h.trans hn

/-- What waits is claimed next, or found at the cap. -/
theorem nextClaim (hcapped : Capped s) (hwaiting : Waiting s d)
    (hchecked : checkedStage d owned = .checked signalId caseId) : NextClaim s d owned := by
  intro token n₁ n₂ n₃ hfree h₁ h₂ h₃
  refine ⟨soleClaim_runs hfree hchecked h₁ h₂ h₃, fun attempt t hrun => ?_⟩
  obtain ⟨rfl, halerts⟩ := soleClaim_eq hchecked hrun
  rw [halerts, claimedAttempt, claimRow, Table.upserted, Table.upsert, set_self, sweepExhausted,
    Table.updateWhere, set_self]
  cases hrow : s.alerts d.key with
  | none => exact .inl rfl
  | some r =>
    -- What the row waits for stays over, however late the statements come.
    obtain ⟨hpending, hunleased, hdue⟩ := hwaiting r hrow
    have hle := hcapped d.key r hrow
    rw [Option.map_some]
    by_cases hcap : alertMaxAttempts ≤ r.attemptCount
    · -- the sweep ends it
      have hsweep : (r.state == .pending && decide (alertMaxAttempts ≤ r.attemptCount) && r.unleased n₁) = true := by
        simp [hpending, hcap, unleased_mono hunleased h₁]
      have hdead : r.exhaust.claimable n₃ = false := rfl
      rw [if_pos hsweep]
      dsimp only
      rw [hdead, if_neg Bool.false_ne_true, if_neg Bool.false_ne_true]
      exact .inr ⟨r.exhaust, rfl, rfl, le_antisymm hle hcap⟩
    · have hsweep : ¬ (r.state == .pending && decide (alertMaxAttempts ≤ r.attemptCount) && r.unleased n₁) = true := by
        simp [hcap]
      have hclaim : r.claimable n₃ = true := by
        have hlt := not_le.mp hcap
        have hn := h₁.trans (h₂.trans h₃)
        exact claimable_iff.mpr ⟨hpending, due_mono hdue hn, unleased_mono hunleased hn, hlt⟩
      rw [if_neg hsweep]
      dsimp only
      rw [if_pos hclaim]
      exact .inl rfl

end

/-! ## What is selected -/

section
variable {db : Admin.Database} {rows rows' : List (String × AlertRow)} {w : Int64} {workspaceId : Int}
  {destination : String} {sig : SignalRow} {c : Radar.CaseRow} {minConfidence : UInt32}

theorem not_any_of_due {now : DateTime} (h : r.due now = true) : (r.nextAttemptAt.any fun t => now < t) = false := by
  cases hnext : r.nextAttemptAt with
  | none => rfl
  | some next =>
    rw [AlertRow.due, hnext, decide_eq_true_eq] at h
    rw [Option.any_some, decide_eq_false_iff_not, not_lt]
    exact h

theorem not_any_of_unleased {now : DateTime} (h : r.unleased now = true) :
    (r.claimExpiresAt.any fun t => now < t) = false := by
  cases hexpires : r.claimExpiresAt with
  | none => rfl
  | some expires =>
    rw [AlertRow.unleased, hexpires, decide_eq_true_eq] at h
    rw [Option.any_some, decide_eq_false_iff_not, not_lt]
    exact h

/-- A row that waits holds nothing back. -/
theorem holdsBack_waiting (hrow : s.alerts key = some r) (hnow : db.dbNow = s.now)
    (hwaiting : SignalWaiting s sig.id destination) : Admin.holdsBack db sig destination r = false := by
  by_cases hthis : r.signalId = some sig.id ∧ r.destination = destination
  · obtain ⟨hpending, hunleased, hdue⟩ := hwaiting key r hrow hthis.1 hthis.2
    rw [Admin.holdsBack, hnow, not_any_of_due hdue, not_any_of_unleased hunleased, hpending, Bool.and_false,
      Bool.or_false]
    exact Bool.and_false _
  · rw [Admin.holdsBack]
    simp only [beq_iff_eq, Bool.and_eq_false_imp, Bool.and_eq_true]
    exact fun h => absurd h hthis

theorem count_selectedSignals (hrows : RowsOf rows s.alerts) (hdb : db.alerts = rows.map (·.2))
    (hnow : db.dbNow = s.now) (hids : (db.signals.map (·.id)).Nodup) (hsig : sig ∈ db.signals)
    (hworkspace : sig.workspaceId = w.toInt) (hactive : sig.status = "active")
    (hwaiting : SignalWaiting s sig.id destination) :
    ((selectedSignals db w destination).map (·.id)).count sig.id = 1 := by
  have hfree : (db.alerts.any (Admin.holdsBack db sig destination)) = false := by
    rw [hdb, List.any_map, List.any_eq_false]
    intro row hrow
    have hheld := holdsBack_waiting ((hrows.mem row.1 row.2).mp hrow) hnow hwaiting
    simpa using hheld
  have hperm := (List.perm_insertionSort (fun a b : SignalRow => a.createdAt ≤ b.createdAt) (db.signals.filter fun s =>
    s.workspaceId == w.toInt && s.status == "active" && !db.alerts.any (Admin.holdsBack db s destination))).map (·.id)
  rw [selectedSignals, Admin.oldestOf, hperm.count_eq]
  apply List.count_eq_one_of_mem
  · exact (List.filter_sublist.map _).nodup hids
  · refine List.mem_map_of_mem (List.mem_filter.mpr ⟨hsig, ?_⟩)
    simp [hworkspace, hactive, hfree]

/-- The row of a funding case is the one of its delivery. -/
theorem fundingRow_key (hrow : s.alerts key = some r) (hsourced : Sourced es s) (hkind : r.subjectKind = "funding")
    (hworkspace : r.workspaceId = workspaceId) (hdest : r.destination = destination) {caseId : Int}
    (hcase : r.fundingCaseId = some caseId) : key = Delivery.key ⟨"funding", workspaceId, caseId, destination⟩ := by
  obtain ⟨⟨kind, wd, subject, dest⟩, token, -, rfl, hfor⟩ := hsourced.rows key r hrow
  obtain rfl : kind = "funding" := hfor.subjectKind.symm.trans hkind
  obtain rfl : wd = workspaceId := hfor.workspaceId.symm.trans hworkspace
  obtain rfl : dest = destination := hfor.destination.symm.trans hdest
  obtain rfl : subject = caseId := Option.some.inj ((hfor.fundingCase rfl).symm.trans hcase)
  rfl

theorem mem_dueFunding {a : FundingAlert} (h : a ∈ dueFunding db rows w destination) :
    ∃ row ∈ rows, outboxDue db.dbNow w.toInt destination row.2 = true ∧ row.2.fundingCaseId = some a.caseId := by
  obtain ⟨row, hrow, ha⟩ := List.mem_flatMap.mp h
  obtain ⟨hmem, hdue⟩ := List.mem_filter.mp hrow
  obtain ⟨c, hc, rfl⟩ := List.mem_map.mp ha
  rw [List.mem_filter, Bool.and_eq_true, beq_iff_eq] at hc
  exact ⟨row, hmem, hdue, hc.2.1⟩

theorem outboxDue_iff {now : DateTime} : outboxDue now workspaceId destination r = true ↔
    r.subjectKind = "funding" ∧ r.workspaceId = workspaceId ∧ r.destination = destination ∧ r.state = .pending ∧
      r.due now = true ∧ r.unleased now = true := by
  simp [outboxDue, and_assoc]

theorem hasAlert_iff : hasAlert workspaceId destination c r = true ↔
    r.subjectKind = "funding" ∧ r.fundingCaseId = some c.id ∧ r.workspaceId = workspaceId ∧
      r.destination = destination := by
  simp [hasAlert, and_assoc]

variable (db) in
/-- Rows under other keys do not have the case due. -/
theorem count_dueFunding_zero {caseId : Int} (hrows : ∀ row ∈ rows, s.alerts row.1 = some row.2)
    (hsourced : Sourced es s) (hkeys : ∀ row ∈ rows, row.1 ≠ Delivery.key ⟨"funding", w.toInt, caseId, destination⟩) :
    ((dueFunding db rows w destination).map (·.caseId)).count caseId = 0 := by
  rw [List.count_eq_zero]
  intro hmem
  obtain ⟨a, ha, rfl⟩ := List.mem_map.mp hmem
  obtain ⟨row, hrow, hdue, hcase⟩ := mem_dueFunding ha
  obtain ⟨hkind, hworkspace, hdest, -⟩ := outboxDue_iff.mp hdue
  exact hkeys row hrow (fundingRow_key (hrows row hrow) hsourced hkind hworkspace hdest hcase)

theorem dueFunding_append (rows rows' : List (String × AlertRow)) : dueFunding db (rows ++ rows') w destination =
    dueFunding db rows w destination ++ dueFunding db rows' w destination := by
  rw [dueFunding, List.filter_append, List.flatMap_append]
  rfl

/-- The row of the case has it due once. -/
theorem count_dueFunding_row (hdue : outboxDue db.dbNow w.toInt destination r = true)
    (hcase : r.fundingCaseId = some c.id) (hc : c ∈ db.cases) (hworkspace : c.workspaceId = w.toInt)
    (hids : (db.cases.map (·.id)).Nodup) :
    ((dueFunding db [(key, r)] w destination).map (·.caseId)).count c.id = 1 := by
  have hrow : dueFunding db [(key, r)] w destination =
      (db.cases.filter fun c' => r.fundingCaseId == some c'.id && c'.workspaceId == r.workspaceId).map fun c' =>
        ⟨c'.id, fundingText c', key⟩ := by
    rw [dueFunding, List.filter_singleton, hdue, cond_true, List.flatMap_singleton]
  rw [hrow, List.map_map]
  apply List.count_eq_one_of_mem
  · exact (List.filter_sublist.map _).nodup hids
  · refine List.mem_map.mpr ⟨c, List.mem_filter.mpr ⟨hc, ?_⟩, rfl⟩
    simp [hcase, hworkspace, (outboxDue_iff.mp hdue).2.1]

theorem asI32_le {n : Int} (h : 0 ≤ n) : asI32 n ≤ n := by
  rw [asI32, Int.bmod]
  have hmod := Int.emod_add_mul_ediv n 4294967296
  have hdiv := Int.ediv_nonneg h (show (0 : Int) ≤ 4294967296 by decide)
  split <;> omega

/-- Without a row the case is derived, and with one it is not. -/
theorem count_derivedFunding (hids : (db.cases.map (·.id)).Nodup) (hc : c ∈ db.cases)
    (hworkspace : c.workspaceId = w.toInt) (hstage : c.stage = .preparation)
    (hconfidence : (minConfidence.toNat : Int) ≤ c.confidence) :
    ((derivedFunding db rows w destination minConfidence).map (·.caseId)).count c.id =
      if rows.any (fun row => hasAlert w.toInt destination c row.2) then 0 else 1 := by
  have hle : asI32 minConfidence.toNat ≤ c.confidence := (asI32_le (Int.natCast_nonneg _)).trans hconfidence
  rw [derivedFunding, List.map_map]
  split
  · rename_i hany
    rw [List.count_eq_zero]
    intro hmem
    obtain ⟨c', hc', hid⟩ := List.mem_map.mp hmem
    obtain ⟨hc', hguard⟩ := List.mem_filter.mp hc'
    obtain rfl : c' = c := List.inj_on_of_nodup_map hids hc' hc hid
    simp [hany] at hguard
  · rename_i hnone
    apply List.count_eq_one_of_mem
    · exact (List.filter_sublist.map _).nodup hids
    · refine List.mem_map.mpr ⟨c, List.mem_filter.mpr ⟨hc, ?_⟩, rfl⟩
      simp only [Bool.not_eq_true] at hnone
      simp [hworkspace, hstage, hle, hnone]

/-- The row under the key of a signal is for that signal, so it is one of those that wait. -/
theorem Sourced.signal {signalId : Int} (hsourced : Sourced es s) (hwaiting : SignalWaiting s signalId destination) :
    Waiting s ⟨"signal", workspaceId, signalId, destination⟩ := by
  intro r halert
  obtain ⟨d, token, -, hkey, hfor⟩ := hsourced.rows _ r halert
  have hd : d = ⟨"signal", workspaceId, signalId, destination⟩ := by
    refine alertDedupKey_inj ?_ (.inl rfl) hkey
    exact hfor.subject.imp And.left And.left
  subst hd
  obtain ⟨-, hsubject, -⟩ | ⟨hfunding, -⟩ := hfor.subject
  · exact hwaiting _ r halert hsubject hfor.destination
  · exact absurd hfunding (show "signal" ≠ "funding" by decide)

/-- The row under the key of a funding case holds that case. -/
theorem Sourced.funding {caseId : Int} (hsourced : Sourced es s)
    (halert : s.alerts (Delivery.key ⟨"funding", workspaceId, caseId, destination⟩) = some r) :
    RowFor ⟨"funding", workspaceId, caseId, destination⟩ r := by
  obtain ⟨d, token, -, hkey, hfor⟩ := hsourced.rows _ r halert
  have hd : d = ⟨"funding", workspaceId, caseId, destination⟩ := by
    refine alertDedupKey_inj ?_ (.inr rfl) hkey
    exact hfor.subject.imp And.left And.left
  exact hd ▸ hfor

/-- A row of the case that is due is the only one that has it due. -/
theorem count_dueFunding_one (hrows : RowsOf rows s.alerts) (hsourced : Sourced es s)
    (halert : s.alerts (Delivery.key ⟨"funding", w.toInt, c.id, destination⟩) = some r)
    (hdue : outboxDue db.dbNow w.toInt destination r = true) (hcase : r.fundingCaseId = some c.id) (hc : c ∈ db.cases)
    (hworkspace : c.workspaceId = w.toInt) (hids : (db.cases.map (·.id)).Nodup) :
    ((dueFunding db rows w destination).map (·.caseId)).count c.id = 1 := by
  have hrow : ∀ row ∈ rows, s.alerts row.1 = some row.2 := fun row h => (hrows.mem row.1 row.2).mp h
  obtain ⟨pre, post, rfl⟩ := List.append_of_mem ((hrows.mem _ r).mpr halert)
  have hkeys := hrows.keys
  rw [List.map_append, List.map_cons, List.nodup_middle, List.nodup_cons, ← List.map_append, List.mem_map] at hkeys
  have hother : ∀ row ∈ pre ++ post, row.1 ≠ Delivery.key ⟨"funding", w.toInt, c.id, destination⟩ :=
    fun row h heq => hkeys.1 ⟨row, h, heq⟩
  have hpre := count_dueFunding_zero db (fun row h => hrow row (List.mem_append_left _ h)) hsourced
    fun row h => hother row (List.mem_append_left _ h)
  have hpost := count_dueFunding_zero db (fun row h =>
    hrow row (List.mem_append_right _ (List.mem_cons_of_mem _ h))) hsourced
    fun row h => hother row (List.mem_append_right _ h)
  rw [List.append_cons, dueFunding_append, dueFunding_append, List.map_append, List.map_append, List.count_append,
    List.count_append, hpre, hpost, count_dueFunding_row hdue hcase hc hworkspace hids]

variable (db) in
/-- Without a row under the key of the case none has it due or holds it back. -/
theorem noAlert_of_none (hrow : ∀ row ∈ rows, s.alerts row.1 = some row.2) (hsourced : Sourced es s)
    (hnone : s.alerts (Delivery.key ⟨"funding", w.toInt, c.id, destination⟩) = none) :
    ((dueFunding db rows w destination).map (·.caseId)).count c.id = 0 ∧
      rows.any (fun row => hasAlert w.toInt destination c row.2) = false := by
  have hother : ∀ row ∈ rows, row.1 ≠ Delivery.key ⟨"funding", w.toInt, c.id, destination⟩ := by
    intro row h heq
    have hsome := hrow row h
    rw [heq, hnone] at hsome
    cases hsome
  refine ⟨count_dueFunding_zero db hrow hsourced hother, ?_⟩
  rw [List.any_eq_false]
  intro row h hhas
  obtain ⟨hkind, hcase, hws, hdest⟩ := hasAlert_iff.mp hhas
  exact hother row h (fundingRow_key (hrow row h) hsourced hkind hws hdest hcase)

theorem count_selectedFunding (hrows : RowsOf rows s.alerts) (hsourced : Sourced es s) (hnow : db.dbNow = s.now)
    (hids : (db.cases.map (·.id)).Nodup) (hc : c ∈ db.cases) (hworkspace : c.workspaceId = w.toInt)
    (hstage : c.stage = .preparation) (hconfidence : (minConfidence.toNat : Int) ≤ c.confidence)
    (hwaiting : Waiting s ⟨"funding", w.toInt, c.id, destination⟩) :
    ((selectedFunding db rows w destination minConfidence).map (·.caseId)).count c.id = 1 := by
  have hperm := (List.perm_insertionSort (fun a b : FundingAlert => a.ord ≤ b.ord)
    (dueFunding db rows w destination ++ derivedFunding db rows w destination minConfidence)).map (·.caseId)
  rw [selectedFunding, hperm.count_eq, List.map_append, List.count_append,
    count_derivedFunding hids hc hworkspace hstage hconfidence]
  cases halert : s.alerts (Delivery.key ⟨"funding", w.toInt, c.id, destination⟩) with
  | none =>
    obtain ⟨hcount, hany⟩ := noAlert_of_none db (fun row h => (hrows.mem row.1 row.2).mp h) hsourced halert
    rw [hcount, hany]
    rfl
  | some r =>
    have hfor := hsourced.funding halert
    have hcase : r.fundingCaseId = some c.id := hfor.fundingCase rfl
    obtain ⟨hpending, hunleased, hdue⟩ := hwaiting r halert
    have hout : outboxDue db.dbNow w.toInt destination r = true := by
      rw [hnow]
      exact outboxDue_iff.mpr ⟨hfor.subjectKind, hfor.workspaceId, hfor.destination, hpending, hdue, hunleased⟩
    have hany : rows.any (fun row => hasAlert w.toInt destination c row.2) = true :=
      List.any_eq_true.mpr ⟨_, (hrows.mem _ r).mpr halert,
        hasAlert_iff.mpr ⟨hfor.subjectKind, hcase, hfor.workspaceId, hfor.destination⟩⟩
    rw [hany, if_pos rfl, count_dueFunding_one hrows hsourced halert hout hcase hc hworkspace hids]

end

/-! ## Nothing is stranded -/

theorem sourced_run (hcalls : ∀ token, s₀.calls token = none) (halerts : ∀ key, s₀.alerts key = none)
    (hrun : Run Step s₀ es s) : Sourced es s := by
  have hstart : Sourced [] s₀ := by
    refine ⟨fun token call hc => ?_, fun token d signalId caseId hc => ?_, fun key r hr => ?_⟩
    · rw [hcalls token] at hc
      cases hc
    · rw [hcalls token] at hc
      cases hc
    · rw [halerts key] at hr
      cases hr
  exact hrun.history hstart fun es s e t hi h => hi.step h

theorem retried_run (halerts : ∀ key, s₀.alerts key = none) (hrun : Run Step s₀ es s) :
    Run Step s₀ es s ∧ ∀ key r, s.alerts key = some r → r.state = .pending → Retried s₀ es key r := by
  have hstart : Run Step s₀ [] s₀ ∧ ∀ key r, s₀.alerts key = some r → r.state = .pending → Retried s₀ [] key r := by
    refine ⟨rfl, fun key r hr => ?_⟩
    rw [halerts key] at hr
    cases hr
  apply Run.history (I := fun es s => Run Step s₀ es s ∧
    ∀ key r, s.alerts key = some r → r.state = .pending → Retried s₀ es key r) hrun hstart
  intro es s e t hi h
  exact ⟨run_append.mpr ⟨s, hi.1, run_singleton.mpr h⟩, fun key r => retried_step hi.1 hi.2 h⟩

/-- In every state of a run from the empty outbox. -/
theorem never_stranded {db : Admin.Database} {rows : List (String × AlertRow)} (hcalls : ∀ token, s₀.calls token = none)
    (halerts : ∀ key, s₀.alerts key = none) (hrun : Run Step s₀ es s)
    (hrows : RowsOf rows s.alerts) (hdb : db.alerts = rows.map (·.2)) (hnow : db.dbNow = s.now)
    (hsignals : (db.signals.map (·.id)).Nodup) : NeverStranded s₀ es s db rows := by
  have hsourced := sourced_run hcalls halerts hrun
  have hcapped : Capped s := by
    have hquiet : Quiet s₀ := by
      refine ⟨hcalls, fun key r hr => ?_, fun key r hr => ?_⟩
      · rw [halerts key] at hr
        cases hr
      · rw [halerts key] at hr
        cases hr
    exact (run_inv hquiet hrun).2.2
  refine ⟨fun w destination sig hsig hworkspace hactive hwaiting => ⟨?_, fun owned => ?_⟩,
    fun w destination minConfidence c hc hworkspace hstage hconfidence hwaiting => ⟨?_, ?_⟩,
    (retried_run halerts hrun).2⟩
  · exact count_selectedSignals hrows hdb hnow hsignals hsig hworkspace hactive hwaiting
  · have hchecked : checkedStage ⟨"signal", w.toInt, sig.id, destination⟩ owned = .checked (some sig.id) none := rfl
    exact nextClaim hcapped (hsourced.signal hwaiting) hchecked
  · exact count_selectedFunding hrows hsourced hnow db.ids_nodup hc hworkspace hstage hconfidence hwaiting
  · have hchecked : checkedStage ⟨"funding", w.toInt, c.id, destination⟩ true = .checked none (some c.id) := rfl
    exact nextClaim hcapped hwaiting hchecked

end

/-! ## A dispatcher that crashed -/

/-- It claimed the delivery, and its lease has run out. -/
def crashed : List Event :=
  [.sweep someDelivery "a", .check "a" false, .claim someDelivery "a" 0 (some 1), .tick (seconds 121)]

def crashedRow : AlertRow := newRow 0 someDelivery (some 42) none "a"

def crashedDb : Admin.Database where
  toRadarDb := { Radar.emptyDb with dbNow := seconds 121 }
  sessions := []
  labels := []
  signals := [⟨⟨7, "solana", "mint", "entry", 0, 80, "active",
    ⟨2, 2, "bonding_curve", some 1, none, none, [], 80, 80, 1, none⟩⟩, 42⟩]
  evaluations := []
  recentEvents := SerialTable.Table.empty
  alerts := [crashedRow]
  tokens := []
  clusters := []
  transfers := []
  caseIds_pos := by decide

theorem crashed_run : ∃ s, Run Step emptyOutbox crashed s ∧ s.now = seconds 121 ∧
    ∀ key, s.alerts key = if key = someDelivery.key then some crashedRow else none := by
  refine ⟨_, ⟨_, ⟨rfl, rfl⟩, _, ⟨_, rfl, rfl⟩, _, ⟨_, _, rfl, rfl, ?_, rfl⟩, _, ⟨?_, rfl⟩, rfl⟩, rfl, fun key => ?_⟩
  · decide +kernel
  · decide +kernel
  · by_cases hkey : key = someDelivery.key
    · subst hkey
      rw [if_pos rfl]
      rfl
    · rw [if_neg hkey]
      exact (set_ne _ hkey _).trans (set_ne _ hkey _)

theorem never_stranded_crashed : ∃ s, NeverStranded emptyOutbox crashed s crashedDb
    [(someDelivery.key, crashedRow)] := by
  obtain ⟨s, hrun, hnow, halerts⟩ := crashed_run
  refine ⟨s, never_stranded (fun _ => rfl) (fun _ => rfl) hrun ⟨List.nodup_singleton _, fun key r => ?_⟩ rfl
    hnow.symm (List.nodup_singleton _)⟩
  rw [halerts key, List.mem_singleton, Prod.mk.injEq]
  by_cases hkey : key = someDelivery.key
  · simp [hkey, eq_comm]
  · simp [hkey]

end WhaleIntelligence.Signals
