import WhaleIntelligence.Signals.Outbox

/- Safety of the alert outbox, for every interleaving.

   A step changes a row in one of five ways, which `step_row` lists with what each
   asks of the row. The invariant says who holds a row: the token in it is that of
   its last claim, for the time of the lease, and no completion was recorded under
   it; and a claim that does not hold its row any more was completed or ran out. -/
namespace WhaleIntelligence.Signals
open WhaleIntelligence KeyedTable Runs

/-! ## Claims and completions -/

/-- The token and the time of a claim that takes the row under `key`. -/
def Event.claimOf (key : String) : Event → Option (String × DateTime)
  | .claim d token now (some _) => if d.key = key then some (token, now) else none
  | _ => none

/-- The key and the token of a completion that returns true. -/
def Event.completion : Event → Option (String × String)
  | .sent d token true => some (d.key, token)
  | .failed d token _ _ _ _ true => some (d.key, token)
  | _ => none

/-- The last claim that took the row. -/
def lastClaim (es : List Event) (key : String) : Option (String × DateTime) :=
  (es.filterMap (Event.claimOf key)).getLast?

def completions (es : List Event) : List (String × String) := es.filterMap Event.completion

/-- A completion under the token returned true. -/
def Completed (es : List Event) (token : String) : Prop := token ∈ (completions es).map Prod.snd

/-! ## What a step does to a row -/

/-- The changes of the row under `key` in a step at `now`. -/
inductive RowChange (now : DateTime) (e : Event) (key : String) : Option AlertRow → Option AlertRow → Prop where
  | kept (r : Option AlertRow) : e.claimOf key = none → (∀ token, e.completion ≠ some (key, token)) →
      RowChange now e key r r
  | swept (d : Delivery) (token : String) (r : AlertRow) : r.state = .pending →
      alertMaxAttempts ≤ r.attemptCount → r.unleased now = true → e = .sweep d token →
      RowChange now e key (some r) (some r.exhaust)
  | inserted (d : Delivery) (token : String) (signalId caseId : Option Int) : d.key = key →
      e = .claim d token now (some 1) → RowChange now e key none (some (newRow now d signalId caseId token))
  | reclaimed (d : Delivery) (token : String) (r : AlertRow) : d.key = key → r.claimable now = true →
      e = .claim d token now (some (r.attemptCount + 1)) → RowChange now e key (some r) (some (r.claim now token))
  | sent (d : Delivery) (token : String) (r : AlertRow) : d.key = key → r.heldBy token = true →
      e = .sent d token true → RowChange now e key (some r) (some (r.markSent now))
  | failed (d : Delivery) (token : String) (attempt : Int) (error : String) (permanent : Bool)
      (retryAfter : Option Nat) (r : AlertRow) : d.key = key → r.heldBy token = true →
      e = .failed d token attempt error permanent retryAfter true →
      RowChange now e key (some r) (some (r.markFailed now attempt error permanent retryAfter))

section
variable {s s' t : Outbox} {e : Event} {es fs : List Event} {key token : String} {r : AlertRow} {now : DateTime}

theorem sweep_row (now : DateTime) (d : Delivery) (token : String) (alerts : Alerts) (key : String) :
    RowChange now (.sweep d token) key (alerts key) (sweepExhausted now d.key alerts key) := by
  rw [sweepExhausted]
  rcases updateWhere_cases alerts d.key (fun r => r.state == .pending &&
    decide (alertMaxAttempts ≤ r.attemptCount) && r.unleased now) AlertRow.exhaust key with
    ⟨heq, -⟩ | ⟨r, rfl, hr, hg, heq⟩
  · rw [heq]
    exact .kept _ rfl fun _ hc => by cases hc
  · rw [heq, hr]
    simp only [Bool.and_eq_true, beq_iff_eq, decide_eq_true_eq] at hg
    exact .swept d token r hg.1.1 hg.1.2 hg.2 rfl

theorem claim_row {now : DateTime} {d : Delivery} {signalId caseId attempt : Option Int} {alerts : Alerts}
    (hattempt : attempt = claimedAttempt now d signalId caseId token alerts) (key : String) :
    RowChange now (.claim d token now attempt) key (alerts key) (claimRow now d signalId caseId token alerts key) := by
  rw [claimedAttempt] at hattempt
  rw [claimRow]
  rcases upsert_cases alerts d.key (newRow now d signalId caseId token) (AlertRow.claimable · now)
    (AlertRow.claim · now token) key with ⟨heq, hno⟩ | ⟨rfl, hr, hw, heq⟩ | ⟨r, rfl, hr, hg, hw, heq⟩
  · rw [heq]
    refine .kept _ ?_ fun _ hc => by cases hc
    cases attempt with
    | none => rfl
    | some n =>
      refine if_neg fun hkey => ?_
      rw [hno hkey.symm] at hattempt
      cases hattempt
  · rw [hw] at hattempt
    rw [heq, hr]
    exact .inserted d token signalId caseId rfl (by rw [hattempt]; rfl)
  · rw [hw] at hattempt
    rw [heq, hr]
    exact .reclaimed d token r rfl hg (by rw [hattempt]; rfl)

/-- A completion changes the row under its key, which the token holds, or it records nothing there. -/
theorem completion_cases {d : Delivery} {alerts : Alerts} {recorded : Bool}
    (hrecorded : recorded = completes d token alerts) (change : AlertRow → AlertRow) (key : String) :
    (alerts.updateWhere d.key (AlertRow.heldBy · token) change key = alerts key ∧ ¬ (recorded = true ∧ d.key = key)) ∨
      ∃ r, d.key = key ∧ alerts key = some r ∧ r.heldBy token = true ∧ recorded = true ∧
        alerts.updateWhere d.key (AlertRow.heldBy · token) change key = some (change r) := by
  rw [completes] at hrecorded
  rcases updateWhere_cases alerts d.key (AlertRow.heldBy · token) change key with ⟨heq, hno⟩ | ⟨r, rfl, hr, hg, heq⟩
  · refine Or.inl ⟨heq, ?_⟩
    rintro ⟨rfl, hkey⟩
    rw [hno hkey.symm] at hrecorded
    cases hrecorded
  · exact Or.inr ⟨r, rfl, hr, hg, hrecorded.trans (affects_iff.mpr ⟨r, hr, hg⟩), heq⟩

/-- Every step changes every row in one of these ways. -/
theorem step_row (h : Step s e s') (key : String) : RowChange s.now e key (s.alerts key) (s'.alerts key) := by
  cases e with
  | tick now =>
    obtain ⟨-, rfl⟩ := h
    exact .kept _ rfl fun _ hc => by cases hc
  | check token owned =>
    obtain ⟨d, -, rfl⟩ := h
    exact .kept _ rfl fun _ hc => by cases hc
  | sweep d token =>
    obtain ⟨-, rfl⟩ := h
    exact sweep_row s.now d token s.alerts key
  | claim d token now attempt =>
    obtain ⟨signalId, caseId, -, rfl, hattempt, rfl⟩ := h
    exact claim_row hattempt key
  | sent d token recorded =>
    obtain ⟨hrecorded, rfl⟩ := h
    show RowChange _ _ _ _ (markAlertSent s.now d token s.alerts key)
    rw [markAlertSent]
    obtain ⟨heq, hno⟩ | ⟨r, hkey, hr, hheld, rfl, heq⟩ := completion_cases hrecorded (AlertRow.markSent · s.now) key
    · rw [heq]
      refine .kept _ rfl fun t hc => ?_
      cases recorded with
      | false => cases hc
      | true => exact hno ⟨rfl, congrArg Prod.fst (Option.some.inj hc)⟩
    · rw [heq, hr]
      exact .sent d token r hkey hheld rfl
  | failed d token attempt error permanent retryAfter recorded =>
    obtain ⟨hrecorded, rfl⟩ := h
    show RowChange _ _ _ _ (markAlertFailed s.now d token attempt error permanent retryAfter s.alerts key)
    rw [markAlertFailed]
    obtain ⟨heq, hno⟩ | ⟨r, hkey, hr, hheld, rfl, heq⟩ := completion_cases hrecorded
      (AlertRow.markFailed · s.now attempt error permanent retryAfter) key
    · rw [heq]
      refine .kept _ rfl fun t hc => ?_
      cases recorded with
      | false => cases hc
      | true => exact hno ⟨rfl, congrArg Prod.fst (Option.some.inj hc)⟩
    · rw [heq, hr]
      exact .failed d token attempt error permanent retryAfter r hkey hheld rfl

theorem step_now (h : Step s e s') : s.now ≤ s'.now := by
  cases e with
  | tick now => obtain ⟨hle, rfl⟩ := h; exact hle
  | sweep d token => obtain ⟨-, rfl⟩ := h; exact le_rfl
  | check token owned => obtain ⟨d, -, rfl⟩ := h; exact le_rfl
  | claim d token now attempt => obtain ⟨_, _, -, -, -, rfl⟩ := h; exact le_rfl
  | sent d token recorded => obtain ⟨-, rfl⟩ := h; exact le_rfl
  | failed d token attempt error permanent retryAfter recorded => obtain ⟨-, rfl⟩ := h; exact le_rfl

theorem heldBy_iff : r.heldBy token = true ↔ r.state = .pending ∧ r.claimToken = some token := by
  simp [AlertRow.heldBy]

theorem claimable_iff : r.claimable now = true ↔
    r.state = .pending ∧ r.due now = true ∧ r.unleased now = true ∧ r.attemptCount < alertMaxAttempts := by
  simp [AlertRow.claimable, and_assoc]

/-- A lease that lets another claim pass has run out. -/
theorem unleased_expires {expires : DateTime} (h : r.unleased now = true) (he : r.claimExpiresAt = some expires) :
    expires ≤ now := by
  simpa [AlertRow.unleased, he] using h

/-! ## Attempts, and the end of a row -/

/-- A row stays, its attempts do not go down, and once sent or dead it does not change. -/
def Kept (old new : Option AlertRow) : Prop :=
  ∀ r, old = some r → ∃ r', new = some r' ∧ r.attemptCount ≤ r'.attemptCount ∧ (r.state ≠ .pending → r' = r)

theorem Kept.refl (r : Option AlertRow) : Kept r r := fun r h => ⟨r, h, le_rfl, fun _ => rfl⟩

theorem Kept.trans {a b c : Option AlertRow} (h : Kept a b) (h' : Kept b c) : Kept a c := by
  intro r hr
  obtain ⟨r', hr', hle, hend⟩ := h r hr
  obtain ⟨r'', hr'', hle', hend'⟩ := h' r' hr'
  refine ⟨r'', hr'', hle.trans hle', fun hne => ?_⟩
  rw [hend' (by rw [hend hne]; exact hne), hend hne]

theorem RowChange.kept_row {old new : Option AlertRow} (h : RowChange now e key old new) : Kept old new := by
  intro r hr
  cases h with
  | kept => exact ⟨r, hr, le_rfl, fun _ => rfl⟩
  | swept d token r' hp _ _ _ =>
    obtain rfl := Option.some.inj hr
    exact ⟨_, rfl, le_rfl, fun hne => absurd hp hne⟩
  | inserted => cases hr
  | reclaimed d token r' _ hg _ =>
    obtain rfl := Option.some.inj hr
    refine ⟨_, rfl, ?_, fun hne => absurd (claimable_iff.mp hg).1 hne⟩
    show r'.attemptCount ≤ r'.attemptCount + 1
    omega
  | sent d token r' _ hg _ =>
    obtain rfl := Option.some.inj hr
    exact ⟨_, rfl, le_rfl, fun hne => absurd (heldBy_iff.mp hg).1 hne⟩
  | failed d token attempt error permanent retryAfter r' _ hg _ =>
    obtain rfl := Option.some.inj hr
    exact ⟨_, rfl, le_rfl, fun hne => absurd (heldBy_iff.mp hg).1 hne⟩

theorem run_kept (h : Run Step s es t) (key : String) : Kept (s.alerts key) (t.alerts key) := by
  apply Run.invariant (I := fun t => Kept (s.alerts key) (t.alerts key)) h (Kept.refl _)
  intro u e v hu hstep
  exact hu.trans (step_row hstep key).kept_row

/-- No row has more attempts than the cap. -/
def Capped (s : Outbox) : Prop := ∀ key r, s.alerts key = some r → r.attemptCount ≤ alertMaxAttempts

theorem Capped.step (hc : Capped s) (h : Step s e s') : Capped s' := by
  intro key r hr
  have hold := hc key
  have hchange := step_row h key
  rw [hr] at hchange
  cases hrow : s.alerts key with
  | none =>
    rw [hrow] at hchange
    cases hchange with
    | inserted => exact (by decide : (1 : Int) ≤ 8)
  | some old =>
    rw [hrow] at hchange
    have hle := hold old hrow
    cases hchange with
    | kept => exact hle
    | swept => exact hle
    | reclaimed d token _ _ hg _ => exact Int.add_one_le_of_lt (claimable_iff.mp hg).2.2.2
    | sent => exact hle
    | failed => exact hle

/-! ## Calls -/

theorem mem_concat {a : Event} (h : a ∈ es ++ [e]) : a ∈ es ∨ e = a := by
  rcases List.mem_append.mp h with h | h
  · exact Or.inl h
  · exact Or.inr (List.mem_singleton.mp h).symm

theorem checkedStage_kind {d : Delivery} {owned : Bool} {signalId caseId : Option Int}
    (h : checkedStage d owned = .checked signalId caseId) : d.kind = "signal" ∨ d.kind = "funding" := by
  rw [checkedStage, subjectColumns] at h
  by_cases hsignal : d.kind = "signal"
  · exact Or.inl hsignal
  · by_cases hfunding : d.kind = "funding"
    · exact Or.inr hfunding
    · rw [if_neg hsignal, if_neg hfunding] at h
      cases h

variable (token) in
/-- What a step does to the call under a token. -/
theorem call_cases (h : Step s e s') :
    s'.calls token = s.calls token ∨
    (∃ d, e = .sweep d token ∧ s.calls token = none ∧ s'.calls token = some ⟨d, .swept⟩) ∨
    (∃ d owned, s.calls token = some ⟨d, .swept⟩ ∧ s'.calls token = some ⟨d, checkedStage d owned⟩) ∨
    ∃ d signalId caseId, s.calls token = some ⟨d, .checked signalId caseId⟩ ∧ s'.calls token = some ⟨d, .ended⟩ := by
  cases e with
  | tick now => obtain ⟨-, rfl⟩ := h; exact .inl rfl
  | sent d token recorded => obtain ⟨-, rfl⟩ := h; exact .inl rfl
  | failed d token attempt error permanent retryAfter recorded => obtain ⟨-, rfl⟩ := h; exact .inl rfl
  | sweep d token' =>
    obtain ⟨hfree, rfl⟩ := h
    by_cases heq : token = token'
    · subst heq
      exact .inr (.inl ⟨d, rfl, hfree, set_self _ _ _⟩)
    · exact .inl (set_ne _ heq _)
  | check token' owned =>
    obtain ⟨d, hswept, rfl⟩ := h
    by_cases heq : token = token'
    · subst heq
      exact .inr (.inr (.inl ⟨d, owned, hswept, set_self _ _ _⟩))
    · exact .inl (set_ne _ heq _)
  | claim d token' now attempt =>
    obtain ⟨signalId, caseId, hchecked, -, -, rfl⟩ := h
    by_cases heq : token = token'
    · subst heq
      exact .inr (.inr (.inr ⟨d, signalId, caseId, hchecked, set_self _ _ _⟩))
    · exact .inl (set_ne _ heq _)

theorem step_ended {d : Delivery} (h : Step s e s') (hc : s.calls token = some ⟨d, .ended⟩) :
    s'.calls token = some ⟨d, .ended⟩ := by
  obtain hsame | ⟨d', -, hfree, -⟩ | ⟨d', owned, hswept, -⟩ | ⟨d', signalId, caseId, hchecked, -⟩ := call_cases token h
  · rw [hsame, hc]
  · rw [hc] at hfree
    cases hfree
  · rw [hc] at hswept
    cases hswept
  · rw [hc] at hchecked
    cases hchecked

/-- A subject passes the check when its kind is one of the two. -/
theorem step_checked {d : Delivery} {signalId caseId : Option Int} (h : Step s e s')
    (hc : s'.calls token = some ⟨d, .checked signalId caseId⟩) :
    s.calls token = some ⟨d, .checked signalId caseId⟩ ∨ ∃ owned, checkedStage d owned = .checked signalId caseId := by
  obtain hsame | ⟨d', -, -, hnew⟩ | ⟨d', owned, -, hnew⟩ | ⟨d', signalId', caseId', -, hnew⟩ := call_cases token h
  · exact .inl (hsame.symm.trans hc)
  · cases hnew.symm.trans hc
  · have hcall := Option.some.inj (hnew.symm.trans hc)
    obtain rfl : d' = d := congrArg Call.delivery hcall
    exact .inr ⟨owned, congrArg Call.stage hcall⟩
  · cases hnew.symm.trans hc

/-- What the calls of `claim_alert` say about the claims made so far. -/
structure CallsKnown (es : List Event) (s : Outbox) : Prop where
  /-- A token claims once, for the delivery of its call. -/
  ended : ∀ d token time attempt, .claim d token time attempt ∈ es → s.calls token = some ⟨d, .ended⟩
  checked : ∀ d token signalId caseId, s.calls token = some ⟨d, .checked signalId caseId⟩ →
    d.kind = "signal" ∨ d.kind = "funding"
  kinds : ∀ d token time attempt, .claim d token time attempt ∈ es → d.kind = "signal" ∨ d.kind = "funding"

theorem CallsKnown.step (hi : CallsKnown es s) (h : Step s e s') : CallsKnown (es ++ [e]) s' := by
  refine ⟨fun d token time attempt hm => ?_, fun d token signalId caseId hc => ?_, fun d token time attempt hm => ?_⟩
  · rcases mem_concat hm with hm | rfl
    · exact step_ended h (hi.ended d token time attempt hm)
    · obtain ⟨_, _, -, -, -, rfl⟩ := h
      exact set_self _ _ _
  · rcases step_checked h hc with hold | ⟨owned, hchecked⟩
    · exact hi.checked d token signalId caseId hold
    · exact checkedStage_kind hchecked
  · rcases mem_concat hm with hm | rfl
    · exact hi.kinds d token time attempt hm
    · obtain ⟨signalId, caseId, hchecked, -⟩ := h
      exact hi.checked d token signalId caseId hchecked

/-! ## Who holds a row -/

theorem lastClaim_concat (es : List Event) (e : Event) (key : String) :
    lastClaim (es ++ [e]) key = (e.claimOf key).or (lastClaim es key) := by
  rw [lastClaim, List.filterMap_append, List.getLast?_append]
  cases hc : e.claimOf key with
  | none => simp [hc, lastClaim]
  | some c => simp [hc]

theorem completions_concat (es : List Event) (e : Event) :
    completions (es ++ [e]) = completions es ++ e.completion.toList := by
  rw [completions, List.filterMap_append, completions]
  cases hc : e.completion <;> simp [hc]

theorem completed_concat : Completed (es ++ [e]) token ↔
    Completed es token ∨ ∃ key, e.completion = some (key, token) := by
  rw [Completed, completions_concat, List.map_append, List.mem_append, Completed]
  cases hc : e.completion with
  | none => simp
  | some c =>
    obtain ⟨key, t⟩ := c
    simp [eq_comm]

/-- A claim that took a row is among the claims of the run. -/
theorem lastClaim_mem {time : DateTime} (h : lastClaim es key = some (token, time)) :
    ∃ d n, d.key = key ∧ Event.claim d token time (some n) ∈ es := by
  have hmem := List.mem_of_getLast? h
  obtain ⟨e, he, hc⟩ := List.mem_filterMap.mp hmem
  cases e with
  | claim d token' time' attempt =>
    cases attempt with
    | none => cases hc
    | some n =>
      rw [Event.claimOf] at hc
      split at hc
      · rename_i hkey
        cases hc
        exact ⟨d, n, hkey, he⟩
      · cases hc
  | tick now => cases hc
  | sweep d token => cases hc
  | check token owned => cases hc
  | sent d token recorded => cases hc
  | failed d token attempt error permanent retryAfter recorded => cases hc

/-- A completion that returns true finds its row held by its token. -/
theorem step_completion (h : Step s e s') (hc : e.completion = some (key, token)) :
    ∃ r, s.alerts key = some r ∧ r.heldBy token = true := by
  cases e with
  | sent d token' recorded =>
    cases recorded with
    | false => cases hc
    | true =>
      obtain ⟨hrecorded, -⟩ := h
      cases hc
      exact affects_iff.mp hrecorded.symm
  | failed d token' attempt error permanent retryAfter recorded =>
    cases recorded with
    | false => cases hc
    | true =>
      obtain ⟨hrecorded, -⟩ := h
      cases hc
      exact affects_iff.mp hrecorded.symm
  | tick now => cases hc
  | sweep d token => cases hc
  | check token owned => cases hc
  | claim d token now attempt => cases hc

/-- The lease of a claim made at `time`. -/
def leaseEnd (time : DateTime) : DateTime := time + seconds alertClaimLeaseSeconds

structure Owned (es : List Event) (s : Outbox) : Prop where
  /-- The token in a row is that of its last claim, and nothing was completed under it. -/
  held : ∀ key r token, s.alerts key = some r → r.claimToken = some token →
    ¬ Completed es token ∧ ∃ time, lastClaim es key = some (token, time) ∧ r.claimExpiresAt = some (leaseEnd time)
  /-- A claim that does not hold its row was completed or ran out. -/
  settled : ∀ d token time n, .claim d token time (some n) ∈ es →
    Completed es token ∨ leaseEnd time ≤ s.now ∨
      ∃ r, s.alerts d.key = some r ∧ r.claimToken = some token ∧ r.claimExpiresAt = some (leaseEnd time)
  /-- A token completes once. -/
  once : ((completions es).map Prod.snd).Nodup
  claimed : ∀ token, Completed es token → ∃ d time n, .claim d token time (some n) ∈ es

theorem Owned.of_completion (hi : Owned es s) (h : Step s e s') (hc : e.completion = some (key, token)) :
    ¬ Completed es token ∧ ∃ time, lastClaim es key = some (token, time) := by
  obtain ⟨r, hr, hheld⟩ := step_completion h hc
  obtain ⟨hnot, time, hlast, -⟩ := hi.held key r token hr (heldBy_iff.mp hheld).2
  exact ⟨hnot, time, hlast⟩

/-- The call of a claim has not claimed before, so nothing is completed under its token. -/
theorem Owned.fresh (hi : Owned es s) (hk : CallsKnown es s) {d : Delivery} {time : DateTime} {attempt : Option Int}
    (h : Step s (.claim d token time attempt) s') : ¬ Completed es token := by
  intro hdone
  obtain ⟨d', time', n, hm⟩ := hi.claimed token hdone
  obtain ⟨_, _, hchecked, -⟩ := h
  rw [hk.ended d' token time' _ hm] at hchecked
  cases hchecked

/-- Two rows do not hold one token. -/
theorem Owned.key_eq (hk : CallsKnown es s) {key' : String} {time time' : DateTime}
    (h : lastClaim es key = some (token, time)) (h' : lastClaim es key' = some (token, time')) : key = key' := by
  obtain ⟨d, n, hkey, hm⟩ := lastClaim_mem h
  obtain ⟨d', n', hkey', hm'⟩ := lastClaim_mem h'
  have hcall := (hk.ended d token time _ hm).symm.trans (hk.ended d' token time' _ hm')
  have hd : d = d' := congrArg Call.delivery (Option.some.inj hcall)
  rw [← hkey, ← hkey', hd]

theorem Owned.held_step (hi : Owned es s) (hk : CallsKnown es s) (h : Step s e s') (hr : s'.alerts key = some r)
    (htoken : r.claimToken = some token) : ¬ Completed (es ++ [e]) token ∧
      ∃ time, lastClaim (es ++ [e]) key = some (token, time) ∧ r.claimExpiresAt = some (leaseEnd time) := by
  have hchange := step_row h key
  rw [hr] at hchange
  rw [completed_concat, lastClaim_concat]
  generalize hold : s.alerts key = old at hchange
  cases hchange with
  | kept _ hclaim hcompletion =>
    obtain ⟨hnot, time, hlast, hexpires⟩ := hi.held key r token hold htoken
    refine ⟨fun hdone => ?_, time, by rw [hclaim, Option.none_or, hlast], hexpires⟩
    rcases hdone with hdone | ⟨key', hdone⟩
    · exact hnot hdone
    · obtain ⟨-, time', hlast'⟩ := hi.of_completion h hdone
      have hkey : key = key' := Owned.key_eq hk hlast hlast'
      exact hcompletion token (hkey ▸ hdone)
  | swept => cases htoken
  | inserted d token' signalId caseId hkey he =>
    subst he
    obtain rfl : token' = token := Option.some.inj htoken
    refine ⟨fun hdone => ?_, s.now, by rw [Event.claimOf, if_pos hkey, Option.some_or], rfl⟩
    rcases hdone with hdone | ⟨key', hdone⟩
    · exact hi.fresh hk h hdone
    · cases hdone
  | reclaimed d token' r' hkey hg he =>
    subst he
    obtain rfl : token' = token := Option.some.inj htoken
    refine ⟨fun hdone => ?_, s.now, by rw [Event.claimOf, if_pos hkey, Option.some_or], rfl⟩
    rcases hdone with hdone | ⟨key', hdone⟩
    · exact hi.fresh hk h hdone
    · cases hdone
  | sent => cases htoken
  | failed => cases htoken

theorem Owned.settled_step (hi : Owned es s) (h : Step s e s') {d : Delivery} {time : DateTime} {n : Int}
    (hm : .claim d token time (some n) ∈ es ++ [e]) : Completed (es ++ [e]) token ∨ leaseEnd time ≤ s'.now ∨
      ∃ r, s'.alerts d.key = some r ∧ r.claimToken = some token ∧ r.claimExpiresAt = some (leaseEnd time) := by
  have hchange := step_row h d.key
  rw [completed_concat]
  rcases mem_concat hm with hm | rfl
  · rcases hi.settled d token time n hm with hdone | hover | ⟨r, hr, htoken, hexpires⟩
    · exact Or.inl (Or.inl hdone)
    · exact Or.inr (Or.inl (hover.trans (step_now h)))
    · -- the claim holds its row before the step
      rw [hr] at hchange
      generalize hnew : s'.alerts d.key = new at hchange
      cases hchange with
      | kept => exact Or.inr (Or.inr ⟨r, rfl, htoken, hexpires⟩)
      | swept _ _ _ _ _ hover _ => exact Or.inr (Or.inl ((unleased_expires hover hexpires).trans (step_now h)))
      | reclaimed _ _ _ _ hg _ =>
        exact Or.inr (Or.inl ((unleased_expires (claimable_iff.mp hg).2.2.1 hexpires).trans (step_now h)))
      | sent d' token' _ _ hheld he =>
        subst he
        obtain rfl : token' = token := Option.some.inj ((heldBy_iff.mp hheld).2.symm.trans htoken)
        exact Or.inl (Or.inr ⟨d'.key, rfl⟩)
      | failed d' token' _ _ _ _ _ _ hheld he =>
        subst he
        obtain rfl : token' = token := Option.some.inj ((heldBy_iff.mp hheld).2.symm.trans htoken)
        exact Or.inl (Or.inr ⟨d'.key, rfl⟩)
  · -- the claim takes its row in the step
    have htime : time = s.now := by
      obtain ⟨_, _, -, htime, -⟩ := h
      exact htime
    generalize hold : s.alerts d.key = old at hchange
    generalize hnew : s'.alerts d.key = new at hchange
    cases hchange with
    | kept _ hclaim _ => rw [Event.claimOf, if_pos rfl] at hclaim; cases hclaim
    | swept _ _ _ _ _ _ he => cases he
    | inserted d' token' signalId caseId _ he =>
      cases he
      exact Or.inr (Or.inr ⟨_, rfl, rfl, rfl⟩)
    | reclaimed d' token' r' _ _ he =>
      cases he
      exact Or.inr (Or.inr ⟨_, rfl, rfl, rfl⟩)
    | sent _ _ _ _ _ he => cases he
    | failed _ _ _ _ _ _ _ _ _ he => cases he

theorem Owned.step (hi : Owned es s) (hk : CallsKnown es s) (h : Step s e s') : Owned (es ++ [e]) s' := by
  refine ⟨fun key r token hr htoken => hi.held_step hk h hr htoken,
    fun d token time n hm => hi.settled_step h hm, ?_, fun token hdone => ?_⟩
  · rw [completions_concat, List.map_append]
    cases hc : e.completion with
    | none => simpa using hi.once
    | some c =>
      obtain ⟨key, token⟩ := c
      have hnot := (hi.of_completion h hc).1
      show (List.map Prod.snd (completions es) ++ [token]).Nodup
      exact List.nodup_append.mpr ⟨hi.once, List.nodup_singleton token, fun a ha b hb hab =>
        hnot (List.mem_singleton.mp hb ▸ hab ▸ ha)⟩
  · rcases completed_concat.mp hdone with hdone | ⟨key, hdone⟩
    · obtain ⟨d, time, n, hm⟩ := hi.claimed token hdone
      exact ⟨d, time, n, List.mem_append_left _ hm⟩
    · obtain ⟨-, time, hlast⟩ := hi.of_completion h hdone
      obtain ⟨d, n, -, hm⟩ := lastClaim_mem hlast
      exact ⟨d, time, n, List.mem_append_left _ hm⟩

/-! ## Runs -/

/-- Nothing is claimed and nothing is over the cap, as in an empty outbox. -/
structure Quiet (s : Outbox) : Prop where
  idle : ∀ token, s.calls token = none
  unclaimed : ∀ key r, s.alerts key = some r → r.claimToken = none
  capped : Capped s

variable {s₀ : Outbox}

theorem run_inv (h₀ : Quiet s₀) (h : Run Step s₀ es s) : CallsKnown es s ∧ Owned es s ∧ Capped s := by
  have hstart : CallsKnown [] s₀ ∧ Owned [] s₀ ∧ Capped s₀ := by
    refine ⟨⟨fun d token time attempt hm => absurd hm List.not_mem_nil, fun d token signalId caseId hc => ?_,
      fun d token time attempt hm => absurd hm List.not_mem_nil⟩, ⟨fun key r token hr htoken => ?_,
      fun d token time n hm => absurd hm List.not_mem_nil, List.nodup_nil,
      fun token hdone => absurd hdone List.not_mem_nil⟩, h₀.capped⟩
    · rw [h₀.idle token] at hc
      cases hc
    · rw [h₀.unclaimed key r hr] at htoken
      cases htoken
  have hrun : CallsKnown ([] ++ es) s ∧ Owned ([] ++ es) s ∧ Capped s := by
    apply Run.history (I := fun es s => CallsKnown es s ∧ Owned es s ∧ Capped s) h hstart
    intro es s e t hi hstep
    obtain ⟨hk, ho, hc⟩ := hi
    exact ⟨hk.step hstep, ho.step hk hstep, hc.step hstep⟩
  exact hrun

/-- A claim that takes a row finds it missing or claimable, and at the time it says. -/
theorem claim_takes {d : Delivery} {time : DateTime} {n : Int} (h : Step s (.claim d token time (some n)) s') :
    time = s.now ∧ ∀ r, s.alerts d.key = some r → r.claimable s.now = true := by
  have htime : time = s.now := by
    obtain ⟨_, _, -, htime, -⟩ := h
    exact htime
  refine ⟨htime, fun r hr => ?_⟩
  have hchange := step_row h d.key
  rw [hr] at hchange
  generalize s'.alerts d.key = new at hchange
  cases hchange with
  | kept _ hclaim _ => rw [Event.claimOf, if_pos rfl] at hclaim; cases hclaim
  | swept _ _ _ _ _ _ he => cases he
  | reclaimed _ _ _ _ hg _ => exact hg
  | sent _ _ _ _ _ he => cases he
  | failed _ _ _ _ _ _ _ _ _ he => cases he

/-- A row that is sent or dead stays as it is and is not claimed again. -/
theorem run_terminal (h : Run Step s es t) (hr : s.alerts key = some r) (hend : r.state ≠ .pending) :
    t.alerts key = some r ∧ ∀ d token time n, d.key = key → .claim d token time (some n) ∉ es := by
  have hstays : ∀ {fs u}, Run Step s fs u → u.alerts key = some r := fun hrun => by
    obtain ⟨r', hr', -, hsame⟩ := run_kept hrun key r hr
    rw [hr', hsame hend]
  refine ⟨hstays h, fun d token time n hkey hm => ?_⟩
  obtain ⟨before, after, rfl⟩ := List.append_of_mem hm
  obtain ⟨u, hbefore, v, hclaim, -⟩ := run_append.mp h
  have hu := hstays hbefore
  subst hkey
  exact hend (claimable_iff.mp ((claim_takes hclaim).2 r hu)).1

theorem alertDedupKey_inj {d d' : Delivery} (hd : d.kind = "signal" ∨ d.kind = "funding")
    (hd' : d'.kind = "signal" ∨ d'.kind = "funding") (h : d.key = d'.key) : d = d' := by
  have hkind : ∀ {d : Delivery}, d.kind = "signal" ∨ d.kind = "funding" → ':' ∉ d.kind.toList := fun h => by
    rcases h with h | h
    · rw [h]; decide
    · rw [h]; decide
  have hlist : ∀ d : Delivery, d.key.toList = d.kind.toList ++ ':' :: ((toString d.workspaceId).toList ++
      ':' :: ((toString d.subjectId).toList ++ ':' :: d.destination.toList)) := fun d => by
    simp [Delivery.key, alertDedupKey]
  have hall := congrArg String.toList h
  rw [hlist, hlist] at hall
  obtain ⟨h1, hall⟩ := append_cons_inj (hkind hd) (hkind hd') hall
  obtain ⟨h2, hall⟩ := append_cons_inj (colon_not_mem_intText _) (colon_not_mem_intText _) hall
  obtain ⟨h3, h4⟩ := append_cons_inj (colon_not_mem_intText _) (colon_not_mem_intText _) hall
  obtain ⟨kind, workspaceId, subjectId, destination⟩ := d
  obtain ⟨kind', workspaceId', subjectId', destination'⟩ := d'
  obtain rfl : kind = kind' := String.toList_injective h1
  obtain rfl : workspaceId = workspaceId' := intText_injective (String.toList_injective h2)
  obtain rfl : subjectId = subjectId' := intText_injective (String.toList_injective h3)
  obtain rfl : destination = destination' := String.toList_injective h4
  rfl

theorem completed_append : Completed (es ++ fs) token ↔ Completed es token ∨ Completed fs token := by
  rw [Completed, completions, List.filterMap_append, List.map_append, List.mem_append]
  exact Iff.rfl

/-- What holds of the events `es` of a run from `s₀`. -/
structure OutboxSafe (s₀ : Outbox) (es : List Event) : Prop where
  /-- Two deliveries do not share a row. -/
  separate : ∀ d token time n d' token' time' n', .claim d token time (some n) ∈ es →
    .claim d' token' time' (some n') ∈ es → d.key = d'.key → d = d'
  /-- Attempts do not go down, and not over the cap. -/
  attempts : ∀ before between after t u, es = before ++ between ++ after → Run Step s₀ before t →
    Run Step t between u → ∀ key r, t.alerts key = some r → ∃ r', u.alerts key = some r' ∧
      r.attemptCount ≤ r'.attemptCount ∧ r'.attemptCount ≤ alertMaxAttempts
  /-- A row that is sent or dead stays so and is not claimed again. -/
  terminal : ∀ before between after t u, es = before ++ between ++ after → Run Step s₀ before t →
    Run Step t between u → ∀ key r, t.alerts key = some r → r.state ≠ .pending → u.alerts key = some r ∧
      ∀ d token time n, d.key = key → .claim d token time (some n) ∉ between
  /-- Before a row is claimed again the claim before it is completed under its token or has run out. -/
  exclusive : ∀ before between after d token time n d' token' time' n',
    es = before ++ .claim d token time (some n) :: (between ++ .claim d' token' time' (some n') :: after) →
    d.key = d'.key → Completed between token ∨ leaseEnd time ≤ time'
  /-- A completion that returns true is that of the last claim of its row. -/
  fenced : ∀ before e after key token, es = before ++ e :: after → e.completion = some (key, token) →
    ∃ time, lastClaim before key = some (token, time)
  /-- At most one completion under a token returns true. -/
  once : ((completions es).map Prod.snd).Nodup
  /-- A row under an unexpired lease is moved to dead by the holder of its token only. -/
  deadByHolder : ∀ before e after t u, es = before ++ e :: after → Run Step s₀ before t → Step t e u →
    ∀ key r r' expires, t.alerts key = some r → u.alerts key = some r' → r.state ≠ .dead → r'.state = .dead →
      r.claimExpiresAt = some expires → t.now < expires →
      ∃ token, r.claimToken = some token ∧ e.completion = some (key, token)

theorem step_dead {r r' : AlertRow} {expires : DateTime} (h : Step s e s') (hr : s.alerts key = some r)
    (hr' : s'.alerts key = some r') (halive : r.state ≠ .dead) (hdead : r'.state = .dead)
    (hexpires : r.claimExpiresAt = some expires) (hlease : s.now < expires) :
    ∃ token, r.claimToken = some token ∧ e.completion = some (key, token) := by
  have hchange := step_row h key
  rw [hr, hr'] at hchange
  cases hchange with
  | kept => exact absurd hdead halive
  | swept _ _ _ _ _ hover _ => exact absurd (unleased_expires hover hexpires) (not_le.mpr hlease)
  | reclaimed _ _ _ _ _ _ => exact absurd hdead halive
  | sent _ _ _ _ _ _ => cases hdead
  | failed d token _ _ _ _ _ hkey hheld he =>
    subst he
    exact ⟨token, (heldBy_iff.mp hheld).2, by rw [Event.completion, hkey]⟩

theorem run_exclusive (h₀ : Quiet s₀) {before between after : List Event} {d d' : Delivery} {token' : String}
    {time time' : DateTime} {n n' : Int}
    (h : Run Step s₀ (before ++ .claim d token time (some n) ::
      (between ++ .claim d' token' time' (some n') :: after)) t)
    (hkey : d.key = d'.key) : Completed between token ∨ leaseEnd time ≤ time' := by
  obtain ⟨s₁, hbefore, s₂, hfirst, hrest⟩ := run_append.mp h
  obtain ⟨s₃, hbetween, s₄, hsecond, -⟩ := run_append.mp hrest
  have hmid : Run Step s₀ (before ++ .claim d token time (some n) :: between) s₃ :=
    run_append.mpr ⟨s₁, hbefore, s₂, hfirst, hbetween⟩
  obtain ⟨hk, ho, -⟩ := run_inv h₀ hbefore
  obtain ⟨-, ho', -⟩ := run_inv h₀ hmid
  obtain ⟨htime, hclaimable⟩ := claim_takes hsecond
  rcases ho'.settled d token time n (List.mem_append_right _ List.mem_cons_self) with hdone | hover |
    ⟨r, hr, -, hexpires⟩
  · rcases completed_append.mp hdone with hdone | hdone
    · exact absurd hdone (ho.fresh hk hfirst)
    · exact Or.inl hdone
  · exact Or.inr (htime ▸ hover)
  · rw [hkey] at hr
    exact Or.inr (htime ▸ unleased_expires (claimable_iff.mp (hclaimable r hr)).2.2.1 hexpires)

/-- Every run of the outbox is safe. -/
theorem outbox_safe (h₀ : Quiet s₀) (h : Run Step s₀ es s) : OutboxSafe s₀ es := by
  obtain ⟨hk, ho, hc⟩ := run_inv h₀ h
  refine ⟨fun d token time n d' token' time' n' hm hm' hkey => ?_, fun before between after t u _ ht hu key r hr => ?_,
    fun before between after t u _ ht hu key r hr hend => run_terminal hu hr hend,
    fun before between after d token time n d' token' time' n' hes hkey => ?_,
    fun before e after key token hes hcompletion => ?_, ho.once,
    fun before e after t u _ ht hu key r r' expires hr hr' halive hdead hexpires hlease =>
      step_dead hu hr hr' halive hdead hexpires hlease⟩
  · exact alertDedupKey_inj (hk.kinds d token time _ hm) (hk.kinds d' token' time' _ hm') hkey
  · obtain ⟨r', hr', hle, -⟩ := run_kept hu key r hr
    obtain ⟨-, -, hcap⟩ := run_inv h₀ (run_append.mpr ⟨t, ht, hu⟩)
    exact ⟨r', hr', hle, hcap key r' hr'⟩
  · subst hes
    exact run_exclusive h₀ h hkey
  · subst hes
    obtain ⟨t, ht, u, hu, -⟩ := run_append.mp h
    exact ((run_inv h₀ ht).2.1.of_completion hu hcompletion).2

end

/-! ## Two dispatchers -/

def emptyOutbox : Outbox := ⟨0, fun _ => none, fun _ => none⟩

def someDelivery : Delivery := ⟨"signal", 7, 42, "chat-a"⟩

/-- One dispatcher claims and is late, another claims after the lease; the completion
of the first is refused. -/
def lateDispatcher : List Event :=
  [.sweep someDelivery "a", .check "a" false, .claim someDelivery "a" 0 (some 1), .tick (seconds 121),
    .sweep someDelivery "b", .check "b" false, .claim someDelivery "b" (seconds 121) (some 2),
    .sent someDelivery "a" false, .sent someDelivery "b" true]

theorem lateDispatcher_run : ∃ s, Run Step emptyOutbox lateDispatcher s := by
  refine ⟨_, _, ⟨rfl, rfl⟩, _, ⟨_, rfl, rfl⟩, _, ⟨_, _, rfl, rfl, ?_, rfl⟩, _, ⟨?_, rfl⟩, _, ⟨?_, rfl⟩, _,
    ⟨_, rfl, rfl⟩, _, ⟨_, _, rfl, rfl, ?_, rfl⟩, _, ⟨?_, rfl⟩, _, ⟨?_, rfl⟩, rfl⟩
  all_goals decide +kernel

theorem outbox_safe_late : OutboxSafe emptyOutbox lateDispatcher := by
  obtain ⟨s, hs⟩ := lateDispatcher_run
  have hnone : ∀ key r, emptyOutbox.alerts key ≠ some r := fun key r h => by cases h
  exact outbox_safe ⟨fun _ => rfl, fun key r h => absurd h (hnone key r), fun key r h => absurd h (hnone key r)⟩ hs

end WhaleIntelligence.Signals
