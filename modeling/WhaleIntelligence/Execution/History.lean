import WhaleIntelligence.Lib.Tenancy
import WhaleIntelligence.Execution.Authority

/- What holds of an intent over any run of statements.

   A statement leaves the status and the audit of an intent alone, or it moves the
   intent along a legal edge and appends the row that records the move
   (`exec_effect`); only a permitted call moves it (`status_moves_iff`). So the audit
   that a run appends leads from the status before the run to the one after it
   (`execAll_recorded`), and everything that is true of the walks of the frozen table
   is true of the audit: how long it gets, that its release is its last row, and what
   comes before a submission (`execAll_history`).

   Kill switches and paused policies hold up new commitments only: an intent that is
   not terminal can be released in one call (`release_available`). -/
namespace WhaleIntelligence.Execution
open IntentState KeyedTable Runs Walks

section
variable {l l' : Ledger} {intent intent' : TradeIntent} {id : Int} {state a b s t : IntentState}
  {rows : List IntentTransition} {r : IntentTransition} {run : List Statement}

/-- The row records the move. -/
structure Recorded (a : IntentState) (r : IntentTransition) (b : IntentState) : Prop where
  fromState : r.fromState = a.asStr
  toState : r.toState = b.asStr
  legal : a.canTransitionTo b = true
  reservation : r.reservationAction = (reservationAction b).asStr

/-! ## Steps -/

theorem audit_record_self (hid : r.intentId = id) : (l.record intent state r).audit id = l.audit id ++ [r] := by
  simp [Ledger.audit, Ledger.record, hid]

theorem audit_record_ne (hid : r.intentId ≠ id) : (l.record intent state r).audit id = l.audit id := by
  simp [Ledger.audit, Ledger.record, hid]

/-- The trigger lets a session change anything of an intent but its status. -/
theorem guard_iff {role : SessionRole} : guardIntentStatus role.name intent intent' = true ↔
    intent'.status = intent.status := by
  simp [guardIntentStatus, role.not_owner]

/-- What a statement may do to the ledger. -/
inductive Effect (l : Ledger) : Ledger → Prop where
  | nothing : Effect l l
  | insert {id : Int} {new : TradeIntent} (absent : l.intents id = none) : Effect l (l.setIntent id new)
  | update {id : Int} {old new : TradeIntent} (present : l.intents id = some old)
      (status : new.status = old.status) : Effect l (l.setIntent id new)
  | move {user : String} {id : Int} {old : TradeIntent} {state : IntentState} {reason : Option String}
      (present : l.intents id = some old) (permitted : Permitted l.controls user old state) :
      Effect l (l.record old state
        ⟨id, old.status.asStr, state.asStr, (reservationAction state).asStr, reason, user⟩)
  | administer (c : Controls) : Effect l { l with controls := c }

theorem exec_cases (l : Ledger) (st : Statement) : Effect l (exec l st) := by
  cases st with
  | insertIntent j new =>
    cases hj : l.intents j with
    | none =>
      have hset : exec l (.insertIntent j new) = l.setIntent j new := by simp only [exec, hj]
      rw [hset]
      exact .insert hj
    | some old =>
      have hkeep : exec l (.insertIntent j new) = l := by simp only [exec, hj]
      rw [hkeep]
      exact .nothing
  | updateIntent role j new =>
    cases hj : l.intents j with
    | none =>
      have hkeep : exec l (.updateIntent role j new) = l := by simp only [exec, hj]
      rw [hkeep]
      exact .nothing
    | some old =>
      by_cases hguard : guardIntentStatus role.name old new = true
      · have hset : exec l (.updateIntent role j new) = l.setIntent j new := by simp only [exec, hj, hguard, if_true]
        rw [hset]
        exact .update hj (guard_iff.mp hguard)
      · have hkeep : exec l (.updateIntent role j new) = l := by simp only [exec, hj, if_neg hguard]
        rw [hkeep]
        exact .nothing
  | call role j n reason =>
    cases hcall : transitionIntent l role.name j n reason with
    | error e =>
      have hkeep : exec l (.call role j n reason) = l := by simp only [exec, hcall]
      rw [hkeep]
      exact .nothing
    | ok l' =>
      have hdone : exec l (.call role j n reason) = l' := by simp only [exec, hcall]
      obtain ⟨old, state, hold, rfl, hpermitted, rfl⟩ := transitionIntent_ok.mp hcall
      rw [hdone]
      exact .move hold hpermitted
  | administer c => exact .administer c

/-- A statement does nothing to the status of an intent that there is, or it moves the intent and records it. -/
theorem exec_effect (h : l.intents id = some intent) (st : Statement) : ∃ intent',
    (exec l st).intents id = some intent' ∧
      ((intent'.status = intent.status ∧ (exec l st).audit id = l.audit id) ∨
        ∃ r, (exec l st).audit id = l.audit id ++ [r] ∧ Recorded intent.status r intent'.status) := by
  have heffect := exec_cases l st
  generalize exec l st = l' at heffect
  cases heffect with
  | nothing => exact ⟨intent, h, Or.inl ⟨rfl, rfl⟩⟩
  | @insert j new absent =>
    have hj : id ≠ j := by
      rintro rfl
      rw [absent] at h
      cases h
    exact ⟨intent, (set_ne _ hj _).trans h, Or.inl ⟨rfl, rfl⟩⟩
  | @update j old new present status =>
    by_cases hj : id = j
    · subst hj
      obtain rfl : old = intent := Option.some.inj (present.symm.trans h)
      exact ⟨new, set_self _ _ _, Or.inl ⟨status, rfl⟩⟩
    · exact ⟨intent, (set_ne _ hj _).trans h, Or.inl ⟨rfl, rfl⟩⟩
  | @move user j old state reason present permitted =>
    by_cases hj : id = j
    · subst hj
      obtain rfl : old = intent := Option.some.inj (present.symm.trans h)
      refine ⟨{ old with status := state }, set_self _ _ _, Or.inr ⟨_, audit_record_self rfl, ?_⟩⟩
      exact ⟨rfl, rfl, permitted.1, rfl⟩
    · exact ⟨intent, (set_ne _ hj _).trans h, Or.inl ⟨rfl, audit_record_ne (Ne.symm hj)⟩⟩
  | administer c => exact ⟨intent, h, Or.inl ⟨rfl, rfl⟩⟩

theorem transitions_of_not_call {st : Statement} (h : ∀ role j n reason, st ≠ .call role j n reason) :
    (exec l st).transitions = l.transitions := by
  cases st with
  | call role j n reason => exact absurd rfl (h role j n reason)
  | administer c => rfl
  | insertIntent j new =>
    simp only [exec]
    split <;> rfl
  | updateIntent role j new =>
    simp only [exec]
    split
    · rfl
    · split <;> rfl

/-- A statement takes an intent to another state just where it is a call that names the state and that the domain
permits; and then it records the move, and nothing else. -/
theorem status_moves_iff (h : l.intents id = some intent) (hne : state ≠ intent.status) (st : Statement) :
    (∃ intent', (exec l st).intents id = some intent' ∧ intent'.status = state) ↔
      ∃ role reason, st = .call role id state.asStr reason ∧ Permitted l.controls role.name intent state ∧
        exec l st = l.record intent state
          ⟨id, intent.status.asStr, state.asStr, (reservationAction state).asStr, reason, role.name⟩ := by
  constructor
  · rintro ⟨intent', hlast, rfl⟩
    obtain ⟨moved, hmoved, heffect⟩ := exec_effect h st
    obtain rfl : moved = intent' := Option.some.inj (hmoved.symm.trans hlast)
    rcases heffect with ⟨hsame, -⟩ | ⟨r, haudit, -⟩
    · exact absurd hsame hne
    · cases st with
      | call role j n reason =>
        cases hcall : transitionIntent l role.name j n reason with
        | error e =>
          have hkeep : exec l (.call role j n reason) = l := by simp only [exec, hcall]
          rw [hkeep, h] at hlast
          exact absurd (congrArg TradeIntent.status (Option.some.inj hlast)).symm hne
        | ok l' =>
          have hdone : exec l (.call role j n reason) = l' := by simp only [exec, hcall]
          obtain ⟨old, target, hold, rfl, hpermitted, rfl⟩ := transitionIntent_ok.mp hcall
          rw [hdone] at hlast ⊢
          by_cases hj : id = j
          · subst hj
            obtain rfl : old = intent := Option.some.inj (hold.symm.trans h)
            obtain rfl : { old with status := target } = moved := Option.some.inj ((set_self _ _ _).symm.trans hlast)
            exact ⟨role, reason, rfl, hpermitted, rfl⟩
          · obtain rfl : moved = intent := Option.some.inj (hlast.symm.trans ((set_ne _ hj _).trans h))
            exact absurd rfl hne
      -- the other statements leave the audit
      | _ =>
        rw [Ledger.audit, transitions_of_not_call (by simp), ← Ledger.audit] at haudit
        exact absurd (List.self_eq_append_right.mp haudit) (List.cons_ne_nil _ _)
  · rintro ⟨role, reason, rfl, -, hrecord⟩
    exact ⟨{ intent with status := state }, hrecord ▸ set_self _ _ _, rfl⟩

theorem status_moves_halted :
    (∃ intent', (exec haltedLedger (.call executor 1 "failed_safe" none)).intents 1 = some intent' ∧
        intent'.status = failedSafe) ↔
      ∃ role reason, Statement.call executor 1 "failed_safe" none = .call role 1 failedSafe.asStr reason ∧
        Permitted haltedLedger.controls role.name signedBuy failedSafe ∧
        exec haltedLedger (.call executor 1 "failed_safe" none) = haltedLedger.record signedBuy failedSafe
          ⟨1, signedBuy.status.asStr, failedSafe.asStr, (reservationAction failedSafe).asStr, reason, role.name⟩ :=
  status_moves_iff (show haltedLedger.intents 1 = some signedBuy from rfl) (by decide) _

/-! ## Runs -/

/-- Over every run the audit of an intent grows by rows that lead from its status before the run to its status
after it, along legal edges, each with the reservation action of the state it enters. -/
theorem execAll_recorded (h : l.intents id = some intent) (run : List Statement) : ∃ intent' rows,
    (execAll l run).intents id = some intent' ∧ (execAll l run).audit id = l.audit id ++ rows ∧
      Run Recorded intent.status rows intent'.status := by
  induction run generalizing l intent with
  | nil => exact ⟨intent, [], h, (List.append_nil _).symm, rfl⟩
  | cons st run ih =>
    obtain ⟨mid, hmid, hstep⟩ := exec_effect h st
    obtain ⟨intent', rows, hlast, haudit, hrows⟩ := ih hmid
    rcases hstep with ⟨hstatus, hsame⟩ | ⟨r, hrow, hrecord⟩
    · refine ⟨intent', rows, hlast, ?_, hstatus ▸ hrows⟩
      rw [hsame] at haudit
      exact haudit
    · refine ⟨intent', r :: rows, hlast, ?_, mid.status, hrecord, hrows⟩
      rw [hrow, List.append_assoc, List.singleton_append] at haudit
      exact haudit

/-- The rows name the states of a walk. -/
theorem moves_of_recorded (h : Run Recorded s rows t) : ∃ path, Moves s path t ∧
    rows.map (·.toState) = path.map asStr ∧
      rows.map (·.reservationAction) = path.map fun a => (reservationAction a).asStr := by
  induction rows generalizing s with
  | nil => exact ⟨[], h, rfl, rfl⟩
  | cons r rows ih =>
    obtain ⟨u, hr, hrest⟩ := h
    obtain ⟨path, hpath, hto, hact⟩ := ih hrest
    refine ⟨u :: path, walk_cons.mpr ⟨hr.legal, hpath⟩, ?_, ?_⟩
    · rw [List.map_cons, List.map_cons, hr.toState, hto]
    · rw [List.map_cons, List.map_cons, hr.reservation, hact]

/-- An intent moves at most eight times, and never to a state that it has been in. -/
theorem audit_bounded (h : Run Recorded s rows t) :
    rows.length ≤ 8 - s.progress ∧ (s.asStr :: rows.map (·.toState)).Nodup := by
  obtain ⟨path, hpath, hto, -⟩ := moves_of_recorded h
  have hlength : rows.length = path.length := by
    rw [← List.length_map (·.toState), hto, List.length_map]
  refine ⟨?_, ?_⟩
  · have hup := moves_length hpath
    have htop := progress_le t
    omega
  · rw [hto, ← List.map_cons]
    exact (moves_nodup hpath).map asStr_injective

/-- The reservation is released by the last row or not at all, and by then the intent is terminal. -/
theorem audit_release (h : Run Recorded s rows t) :
    (∀ before r after, rows = before ++ r :: after → r.reservationAction = "release" → after = []) ∧
      ((∃ r ∈ rows, r.reservationAction = "release") ↔ s.isTerminal = false ∧ t.isTerminal = true) := by
  have hends : ∀ before r after, rows = before ++ r :: after → r.reservationAction = "release" →
      after = [] ∧ t.isTerminal = true ∧ s.isTerminal = false := by
    rintro before r after rfl hrelease
    obtain ⟨u, hbefore, hrest⟩ := run_append.mp h
    obtain ⟨v, hr, hafter⟩ := hrest
    have hv : v.isTerminal = true := by
      rw [hr.reservation] at hrelease
      rw [isTerminal_iff_release]
      cases hact : reservationAction v with
      | hold =>
        rw [hact] at hrelease
        exact absurd hrelease (by decide)
      | release => rfl
    obtain ⟨path, hpath, hto, -⟩ := moves_of_recorded hafter
    obtain ⟨rfl, rfl⟩ := hpath.stopped (stop_of_terminal hv)
    refine ⟨by simpa using hto, hv, ?_⟩
    by_contra hs
    rw [Bool.not_eq_false] at hs
    obtain ⟨path', hpath', hto', -⟩ := moves_of_recorded h
    obtain ⟨rfl, -⟩ := hpath'.stopped (stop_of_terminal hs)
    simp at hto'
  refine ⟨fun before r after hsplit hr => (hends before r after hsplit hr).1, ?_, ?_⟩
  · rintro ⟨r, hr, hrelease⟩
    obtain ⟨before, after, hsplit⟩ := List.append_of_mem hr
    obtain ⟨-, ht, hs⟩ := hends before r after hsplit hrelease
    exact ⟨hs, ht⟩
  · rintro ⟨hs, ht⟩
    rcases List.eq_nil_or_concat rows with rfl | ⟨before, r, rfl⟩
    · obtain rfl : t = s := h
      rw [hs] at ht
      exact absurd ht (by decide)
    · rw [List.concat_eq_append] at h ⊢
      obtain ⟨u, -, v, hr, rfl⟩ := run_append.mp h
      refine ⟨r, by simp, ?_⟩
      rw [hr.reservation, isTerminal_iff_release.mp ht]
      rfl

/-- An intent is submitted only after every state of the forward path that is ahead of it, in order, and only
outcomes and their reconciliation come after. -/
theorem audit_submission (h : Run Recorded s rows t) (hsubmit : ∃ r ∈ rows, r.toState = "submitted") :
    ∃ outcomes : List IntentState,
      rows.map (·.toState) = (forward.drop (s.progress + 1) ++ outcomes).map asStr ∧
        ∀ a ∈ outcomes, a.isEntry = false := by
  obtain ⟨path, hpath, hto, -⟩ := moves_of_recorded h
  obtain ⟨r, hr, hname⟩ := hsubmit
  have hmem : submitted ∈ path := by
    have hin : r.toState ∈ path.map asStr := hto ▸ List.mem_map_of_mem hr
    obtain ⟨a, ha, heq⟩ := List.mem_map.mp hin
    rw [hname] at heq
    have hsubmitted : a = submitted := asStr_injective heq
    exact hsubmitted ▸ ha
  obtain ⟨before, after, rfl⟩ := List.append_of_mem hmem
  have hcut : Walk (fun a b : IntentState => a.canTransitionTo b = true) s ((before ++ [submitted]) ++ after) t := by
    rw [List.append_assoc]
    exact hpath
  obtain ⟨u, hforward, hafter⟩ := walk_append.mp hcut
  obtain ⟨rfl, -⟩ := walk_concat.mp hforward
  refine ⟨after, ?_, fun a ha => ?_⟩
  · rw [hto, ← moves_forward hforward, List.append_assoc, List.singleton_append]
  · have hpast : a.progress > submitted.progress :=
      (List.pairwise_cons.mp (hafter.ranked fun _ _ => progress_lt)).1 a ha
    cases a <;> first | rfl | exact absurd hpast (by decide)

/-- What every run makes of an intent: the rows of a walk, at most eight moves, no state
twice, a release that is the last of them and comes just when the intent becomes terminal,
and a submission that the whole forward path precedes. -/
theorem execAll_history (h : l.intents id = some intent) (run : List Statement) : ∃ intent' rows,
    (execAll l run).intents id = some intent' ∧ (execAll l run).audit id = l.audit id ++ rows ∧
      Run Recorded intent.status rows intent'.status ∧
      rows.length ≤ 8 - intent.status.progress ∧ (intent.status.asStr :: rows.map (·.toState)).Nodup ∧
      (∀ before r after, rows = before ++ r :: after → r.reservationAction = "release" → after = []) ∧
      ((∃ r ∈ rows, r.reservationAction = "release") ↔
        intent.status.isTerminal = false ∧ intent'.status.isTerminal = true) ∧
      ((∃ r ∈ rows, r.toState = "submitted") → ∃ outcomes : List IntentState,
        rows.map (·.toState) = (forward.drop (intent.status.progress + 1) ++ outcomes).map asStr ∧
          ∀ a ∈ outcomes, a.isEntry = false) := by
  obtain ⟨intent', rows, hlast, haudit, hrows⟩ := execAll_recorded h run
  obtain ⟨hlength, hnodup⟩ := audit_bounded hrows
  obtain ⟨hend, hrelease⟩ := audit_release hrows
  exact ⟨intent', rows, hlast, haudit, hrows, hlength, hnodup, hend, hrelease, audit_submission hrows⟩

/-- A submission that the switch refuses, a direct update that the guard refuses, a release, and a submission after it
with the switch lifted. -/
def haltedStatements : List Statement :=
  [.call executor 1 "submitted" none, .updateIntent executor 1 { signedBuy with status := submitted },
    .call executor 1 "failed_safe" (some "halted"), .administer { haltedControls with killSwitches := [] },
    .call executor 1 "submitted" none]

theorem execAll_history_halted : ∃ intent' rows,
    (execAll haltedLedger haltedStatements).intents 1 = some intent' ∧
      (execAll haltedLedger haltedStatements).audit 1 = haltedLedger.audit 1 ++ rows ∧
      Run Recorded .signed rows intent'.status ∧
      rows.length ≤ 3 ∧ ("signed" :: rows.map (·.toState)).Nodup ∧
      (∀ before r after, rows = before ++ r :: after → r.reservationAction = "release" → after = []) ∧
      ((∃ r ∈ rows, r.reservationAction = "release") ↔ false = false ∧ intent'.status.isTerminal = true) ∧
      ((∃ r ∈ rows, r.toState = "submitted") → ∃ outcomes : List IntentState,
        rows.map (·.toState) = ([submitted] ++ outcomes).map asStr ∧ ∀ a ∈ outcomes, a.isEntry = false) :=
  execAll_history (show haltedLedger.intents 1 = some signedBuy from rfl) haltedStatements

example : (execAll haltedLedger haltedStatements).audit 1 =
    [⟨1, "signed", "failed_safe", "release", some "halted", "executor"⟩] := by decide

/-! ## Release -/

/-- An intent that is not terminal is released in one call, whatever switches are active and whether its policy
is still in force. -/
theorem release_available {user : String} {w v : Int} (hid : l.intents id = some intent)
    (hopen : intent.status.isTerminal = false) (hcaller : Entitled l.controls user intent w v)
    (reason : Option String) : ∃ state l', state.isTerminal = true ∧
      transitionIntent l user id state.asStr reason = .ok l' ∧
      l'.intents id = some { intent with status := state } ∧
      l'.audit id = l.audit id ++ [⟨id, intent.status.asStr, state.asStr, "release", reason, user⟩] := by
  obtain ⟨state, hlegal, hterminal, -⟩ := exists_release hopen
  have hexit : state.isEntry = true → Committable l.controls intent w v := by
    intro hentry
    cases state <;> first | exact absurd hterminal (by decide) | exact absurd hentry (by decide)
  have hok : transitionIntent l user id state.asStr reason = .ok (l.record intent state
      ⟨id, intent.status.asStr, state.asStr, (reservationAction state).asStr, reason, user⟩) :=
    transitionIntent_ok.mpr ⟨intent, state, hid, rfl, ⟨hlegal, w, v, hcaller, hexit⟩, rfl⟩
  have hrelease : (reservationAction state).asStr = "release" := by
    rw [isTerminal_iff_release.mp hterminal]
    rfl
  rw [hrelease] at hok
  exact ⟨state, _, hterminal, hok, set_self _ _ _, audit_record_self rfl⟩

theorem release_available_halted : ∃ state l', state.isTerminal = true ∧
    transitionIntent haltedLedger "executor" 1 state.asStr none = .ok l' ∧
    l'.intents 1 = some { signedBuy with status := state } ∧
    l'.audit 1 = haltedLedger.audit 1 ++ [⟨1, "signed", state.asStr, "release", none, "executor"⟩] :=
  release_available (show haltedLedger.intents 1 = some signedBuy from rfl) rfl
    ⟨rfl, by decide, rfl, by decide⟩ none

end

end WhaleIntelligence.Execution
