import WhaleIntelligence.Migrations.LegacyKeys

/- The owners of the alerts after the second preflight and 1036.

   The guard of the preflight never raises (`safeInt8Predicate_eq`), so what it reads
   and writes is described row by row. Where it lets the migration go on, every row
   that 1036 casts has a value, and the owner of a row is the one it had, or the
   workspace that its key names, or the default workspace (`ownerOf`). A default
   workspace that is inserted on the way may have the id that a key names, and then
   both are the same workspace (`Grown`). -/
namespace WhaleIntelligence.Migrations
open WhaleIntelligence Transaction Fallible

/-- The owner of an alert in the end: the one it has, or else the workspace that its
second segment denotes, or else the default one. -/
def ownerOf (bigint : List Char → Option Int) (ws : Workspaces) (default : Option Int) (a : LegacyAlert) : Option Int :=
  a.workspaceId.or (((bigint (splitPart a.dedupKey 2)).filter ws.has).or default)

/-! ## Workspaces -/

/-- What an insertion of the default workspace does to the table. -/
structure Grown (ws ws' : Workspaces) : Prop where
  keeps : ∀ n, ws.has n = true → ws'.has n = true
  new : ∀ n, ws'.has n = true → ws.has n = true ∨ ws'.default = some n
  default : ∀ d, ws.default = some d → ws'.default = some d

section
variable {ws ws' ws'' : Workspaces} {n fresh : Int} {e : CutoverError}

theorem Grown.refl (ws : Workspaces) : Grown ws ws := ⟨fun _ h => h, fun _ h => Or.inl h, fun _ h => h⟩

theorem Grown.trans (h : Grown ws ws') (h' : Grown ws' ws'') : Grown ws ws'' := by
  refine ⟨fun n hn => h'.keeps n (h.keeps n hn), fun n hn => ?_, fun d hd => h'.default d (h.default d hd)⟩
  rcases h'.new n hn with hn | hn
  · exact (h.new n hn).imp_right (h'.default n)
  · exact Or.inr hn

theorem has_iff : ws.has n = true ↔ n ∈ ws.rows.map Workspace.id := by
  simp [Workspaces.has]

theorem default_eq_none : ws.default = none ↔ "default" ∉ ws.rows.map Workspace.slug := by
  simp [Workspaces.default]

/-- The default workspace is there afterwards, and nothing else is new. -/
theorem ensureDefault_ok (h : ws.ensureDefault fresh = .ok ws') : Grown ws ws' ∧ ws'.default.isSome = true := by
  rw [Workspaces.ensureDefault] at h
  split at h
  · rename_i hsome
    obtain rfl := Except.ok.inj h
    exact ⟨Grown.refl ws, hsome⟩
  · rename_i hnone
    rw [Option.not_isSome_iff_eq_none] at hnone
    rw [Workspaces.insert] at h
    split at h
    · cases h
    split at h
    · cases h
    obtain rfl := Except.ok.inj h
    have hnew : (ws.rows ++ [(⟨fresh, "default"⟩ : Workspace)]).find? (fun w : Workspace => w.slug = "default") =
        some ⟨fresh, "default"⟩ := by
      have hno : ws.rows.find? (fun w => w.slug = "default") = none := by
        simpa [Workspaces.default] using hnone
      rw [List.find?_append, hno, Option.none_or, List.find?_cons_of_pos]
      exact decide_eq_true rfl
    refine ⟨⟨fun n hn => ?_, fun n hn => ?_, fun d hd => ?_⟩, ?_⟩
    · rw [has_iff] at hn ⊢
      rw [List.map_append]
      exact List.mem_append_left _ hn
    · rw [has_iff, List.map_append, List.mem_append, ← has_iff] at hn
      refine hn.imp_right fun hn => ?_
      rw [List.map_singleton, List.mem_singleton] at hn
      rw [Workspaces.default, hnew, hn]
      rfl
    · rw [hnone] at hd
      cases hd
    · rw [Workspaces.default, hnew]
      rfl

/-- The insertion fails only where the id is taken. -/
theorem ensureDefault_error (h : ws.ensureDefault fresh = .error e) :
    e = .uniqueViolation "workspaces_pkey" ∧ ws.has fresh = true := by
  rw [Workspaces.ensureDefault] at h
  split at h
  · cases h
  · rename_i hnone
    rw [Option.not_isSome_iff_eq_none, default_eq_none] at hnone
    rw [Workspaces.insert] at h
    split at h
    · rename_i hid
      exact ⟨(Except.error.inj h).symm, has_iff.mpr hid⟩
    · cases h

end

/-! ## The guard -/

section
variable {bigint : List Char → Option Int} {s : List Char} {n : Int} {a : LegacyAlert} {ws : Workspaces}
variable {t : AlertsTable} {rows : List LegacyAlert} {cases : List Int}

/-- A text that denotes a positive number. -/
def denotesPositive (bigint : List Char → Option Int) (s : List Char) : Bool := (bigint s).any fun n => 0 < n

/-- The guard never reaches a cast that fails. -/
theorem safeInt8Predicate_eq : safeInt8Predicate bigint s = .ok (denotesPositive bigint s) := by
  rw [safeInt8Predicate, pgInputIsValid, castBigint, denotesPositive]
  cases bigint s with
  | none => rfl
  | some n => rfl

theorem castSegment_eq (hempty : bigint [] = none) (h : denotesPositive bigint s = true) :
    castSegment bigint s = .ok (bigint s) := by
  rw [denotesPositive] at h
  rw [castSegment, castBigint]
  cases hs : bigint s with
  | none =>
    rw [hs] at h
    cases h
  | some n =>
    rw [if_neg]
    · rfl
    · rintro rfl
      rw [hempty] at hs
      cases hs

theorem unsafeSubjectSegment_eq : unsafeSubjectSegment bigint rows =
    .ok (rows.any fun a => isFunding a && !denotesPositive bigint (splitPart a.dedupKey 3)) := by
  refine anyM_eq_any fun a _ => ?_
  rw [safeInt8Predicate_eq]
  cases isFunding a with
  | true => rfl
  | false => rfl

/-- Whether the column is there or not, the rows without an owner are asked about. -/
theorem needsRepair_eq : needsRepair bigint t =
    .ok (t.rows.any fun a => a.workspaceId.isNone && !denotesPositive bigint (splitPart a.dedupKey 2)) := by
  unfold needsRepair
  split
  · refine anyM_eq_any fun a _ => ?_
    rw [safeInt8Predicate_eq]
    cases a.workspaceId.isNone with
    | true => rfl
    | false => rfl
  · rename_i hcolumn
    refine anyM_eq_any fun a ha => ?_
    rw [safeInt8Predicate_eq, t.noOwners (by simpa using hcolumn) a ha]
    rfl

/-! ## The preflight -/

/-- The row after the repair. -/
def preowned (bigint : List Char → Option Int) (default : Option Int) (a : LegacyAlert) : LegacyAlert :=
  if a.workspaceId.isNone && !denotesPositive bigint (splitPart a.dedupKey 2) then { a with workspaceId := default }
  else a

theorem assignRow_eq : assignRow bigint ws a = .ok (preowned bigint ws.default a) := by
  rw [assignRow, preowned, safeInt8Predicate_eq]
  cases a.workspaceId.isNone with
  | false => rfl
  | true =>
    cases denotesPositive bigint (splitPart a.dedupKey 2) with
    | true => rfl
    | false => rfl

/-- The rows that 1036 reads in place of those of `t`. -/
structure Prepared (bigint : List Char → Option Int) (t : AlertsTable) (db db' : LegacyDb) : Prop where
  subjects : ∀ a ∈ t.rows, isFunding a = true → denotesPositive bigint (splitPart a.dedupKey 3) = true
  grown : Grown db.workspaces db'.workspaces
  alerts : ∃ t', db'.alerts = some t' ∧ t'.rows = t.rows.map (preowned bigint db'.workspaces.default)
  unowned : ∀ a ∈ t.rows, a.workspaceId = none →
    denotesPositive bigint (splitPart a.dedupKey 2) = true ∨ db'.workspaces.default.isSome = true
  cases : db'.cases = db.cases

variable {faults : PreflightFaults} {fresh : Int} {db db' : LegacyDb} {b : Bool} {u : Unit}

theorem preflightDecision_ok (ht : db.alerts = some t) (h : preflightDecision bigint faults db = .ok b) :
    (∀ a ∈ t.rows, isFunding a = true → denotesPositive bigint (splitPart a.dedupKey 3) = true) ∧
    (t.rows.any fun a => a.workspaceId.isNone && !denotesPositive bigint (splitPart a.dedupKey 2)) = b := by
  unfold preflightDecision at h
  rw [ht] at h
  dsimp only at h
  rw [needsRepair_eq, unsafeSubjectSegment_eq] at h
  obtain ⟨-, -, h⟩ := bind_eq_ok.mp h
  obtain ⟨-, -, h⟩ := bind_eq_ok.mp h
  obtain ⟨-, -, h⟩ := bind_eq_ok.mp h
  obtain ⟨isUnsafe, hunsafe, h⟩ := bind_eq_ok.mp h
  have hunsafe := Except.ok.inj hunsafe
  cases isUnsafe with
  | true =>
    rw [if_pos rfl] at h
    cases h
  | false =>
    rw [if_neg Bool.false_ne_true] at h
    obtain ⟨-, -, h⟩ := bind_eq_ok.mp h
    refine ⟨fun a ha hfunding => ?_, Except.ok.inj h⟩
    have hno := List.any_eq_false.mp hunsafe a ha
    simpa [hfunding] using hno

theorem repairStatement_ok {which : PreflightStatement} {run : LegacyDb → Except CutoverError LegacyDb} :
    repairStatement faults which run db = .ok (u, db') ↔ faults which = none ∧ run db = .ok db' := by
  rw [repairStatement, statement_ok, Option.map_eq_none_iff, map_eq_ok]
  simp

theorem onAlerts_ok {run : AlertsTable → Except CutoverError (List LegacyAlert)} (h : db.onAlerts run = .ok db') :
    ∃ t rows, db.alerts = some t ∧ run t = .ok rows ∧ { db with alerts := some (.withRows rows) } = db' := by
  unfold LegacyDb.onAlerts at h
  split at h
  · rename_i t ht
    obtain ⟨rows, hrows, rfl⟩ := map_eq_ok.mp h
    exact ⟨t, rows, ht, hrows, rfl⟩
  · cases h

/-- The repair ensures the default workspace and gives it the rows that name none. -/
theorem repairTx_ok (ht : db.alerts = some t) (h : repairTx bigint faults fresh db = .ok (u, db')) :
    ∃ ws, db.workspaces.ensureDefault fresh = .ok ws ∧
      db' = { db with alerts := some (.withRows (t.rows.map (preowned bigint ws.default))), workspaces := ws } := by
  unfold repairTx at h
  simp only [run_bind_ok, repairStatement_ok] at h
  obtain ⟨-, _, ⟨-, hbegin⟩, -, _, ⟨-, hinsert⟩, -, _, ⟨-, hcolumn⟩, -, _, ⟨-, hassign⟩, -, hcommit⟩ := h
  obtain rfl := Except.ok.inj hbegin
  obtain rfl := Except.ok.inj hcommit
  obtain ⟨ws, hws, rfl⟩ := map_eq_ok.mp hinsert
  obtain ⟨t₁, rows₁, ht₁, hrows₁, rfl⟩ := onAlerts_ok hcolumn
  obtain rfl := Option.some.inj (ht.symm.trans ht₁)
  obtain rfl := Except.ok.inj hrows₁
  obtain ⟨t₂, rows₂, ht₂, hrows₂, rfl⟩ := onAlerts_ok hassign
  obtain rfl := Option.some.inj ht₂
  rw [mapM_eq_map fun a _ => assignRow_eq] at hrows₂
  obtain rfl := Except.ok.inj hrows₂
  exact ⟨ws, hws, rfl⟩

/-- Where the preflight ends well, every row that 1036 casts has a value. -/
theorem preflight_ok (ht : db.alerts = some t)
    (h : preflightRepairLegacyDedupKeys bigint faults fresh db = (.ok u, db')) : Prepared bigint t db db' := by
  unfold preflightRepairLegacyDedupKeys at h
  split at h
  · cases h
  · rename_i hdecision
    obtain ⟨-, rfl⟩ := Prod.mk.inj h
    obtain ⟨hsubjects, hrepair⟩ := preflightDecision_ok ht hdecision
    have hpositive : ∀ a ∈ t.rows, a.workspaceId = none → denotesPositive bigint (splitPart a.dedupKey 2) = true := by
      intro a ha hnone
      have hno := List.any_eq_false.mp hrepair a ha
      simpa [hnone] using hno
    refine ⟨hsubjects, Grown.refl _, ⟨t, ht, ?_⟩, fun a ha hnone => Or.inl (hpositive a ha hnone), rfl⟩
    rw [List.map_congr_left (g := id) fun a ha => ?_, List.map_id]
    rw [preowned, if_neg (by simpa using List.any_eq_false.mp hrepair a ha)]
    rfl
  · rename_i hdecision
    obtain ⟨hsubjects, -⟩ := preflightDecision_ok ht hdecision
    have htx := commit_ok (congrArg Prod.fst h)
    rw [congrArg Prod.snd h] at htx
    obtain ⟨ws, hws, rfl⟩ := repairTx_ok ht htx
    obtain ⟨hgrown, hdefault⟩ := ensureDefault_ok hws
    exact ⟨hsubjects, hgrown, ⟨_, rfl, rfl⟩, fun _ _ _ => Or.inr hdefault, rfl⟩

theorem preflight_error {e : CutoverError}
    (h : preflightRepairLegacyDedupKeys bigint faults fresh db = (.error e, db')) : db' = db := by
  unfold preflightRepairLegacyDedupKeys at h
  split at h
  · exact (Prod.mk.inj h).2.symm
  · cases h
  · have hrollback := commit_error (congrArg Prod.fst h)
    rw [congrArg Prod.snd h] at hrollback
    exact hrollback

/-! ## Migration 1036 -/

/-- The row after the cast of Part A. -/
def named (bigint : List Char → Option Int) (ws : Workspaces) (a : LegacyAlert) : LegacyAlert :=
  if a.workspaceId.isNone then { a with workspaceId := (bigint (splitPart a.dedupKey 2)).filter ws.has } else a

/-- The row after the cast of Part B. -/
def classified (bigint : List Char → Option Int) (cases : List Int) (a : LegacyAlert) : LegacyAlert :=
  if isFunding a && a.subjectKind == "signal" then
    match (bigint (splitPart a.dedupKey 3)).filter cases.contains with
    | some id => { a with subjectKind := "funding", fundingCaseId := some id, signalId := none }
    | none => a
  else a

/-- A row that 1036 can cast. -/
structure Castable (bigint : List Char → Option Int) (a : LegacyAlert) : Prop where
  workspace : a.workspaceId = none → denotesPositive bigint (splitPart a.dedupKey 2) = true
  subject : isFunding a = true → denotesPositive bigint (splitPart a.dedupKey 3) = true

theorem ownFromKey_eq (hempty : bigint [] = none) (h : Castable bigint a) :
    ownFromKey bigint ws a = .ok (named bigint ws a) := by
  rw [ownFromKey, named]
  cases hown : a.workspaceId with
  | some n => rfl
  | none =>
    rw [castSegment_eq hempty (h.workspace hown)]
    rfl

theorem classifySubject_eq (hempty : bigint [] = none)
    (h : isFunding a = true → denotesPositive bigint (splitPart a.dedupKey 3) = true) :
    classifySubject bigint cases a = .ok (classified bigint cases a) := by
  rw [classifySubject, classified]
  by_cases hsignal : (isFunding a && a.subjectKind == "signal") = true
  · rw [if_pos hsignal, if_pos hsignal, castSegment_eq hempty (h (Bool.and_eq_true_iff.mp hsignal).1)]
    rfl
  · rw [if_neg hsignal, if_neg hsignal]

/-- The key and the owner of a row. -/
def LegacyAlert.owned (a : LegacyAlert) : String × Option Int := (a.dedupKey, a.workspaceId)

theorem named_dedupKey : (named bigint ws a).dedupKey = a.dedupKey := by
  rw [named]
  split <;> rfl

theorem ownByDefault_dedupKey : (ownByDefault ws a).dedupKey = a.dedupKey := by
  rw [ownByDefault]
  split <;> rfl

/-- The subject of a row is not its owner. -/
theorem classified_owned : (markUnknown (classified bigint cases a)).owned = a.owned := by
  have hclassified : (classified bigint cases a).owned = a.owned := by
    rw [classified]
    split
    · split <;> rfl
    · rfl
  rw [← hclassified, markUnknown]
  split <;> rfl

/-- The row after Part A has the owner that its key names, or the default one. -/
theorem ownByDefault_named {ws' : Workspaces} : (ownByDefault ws' (named bigint ws a)).owned =
    (a.dedupKey, ownerOf bigint ws ws'.default a) := by
  rw [ownerOf, ownByDefault, named]
  cases a with
  | mk dedupKey workspaceId subjectKind signalId fundingCaseId =>
    cases workspaceId with
    | some n => rfl
    | none =>
      dsimp only [Option.isNone_none, if_true]
      cases (bigint (splitPart dedupKey 2)).filter ws.has with
      | some n => rfl
      | none => rfl

/-- On rows that it can cast, 1036 fails only where the default workspace does. -/
theorem cutover1036_eq (hempty : bigint [] = none) (ht : db.alerts = some t) (h : ∀ a ∈ t.rows, Castable bigint a) :
    cutover1036 bigint fresh db = (db.workspaces.ensureDefault fresh).map fun ws =>
      { db with
        alerts := some (.withRows (t.rows.map fun a =>
          markUnknown (classified bigint db.cases (ownByDefault ws (named bigint db.workspaces a)))))
        workspaces := ws } := by
  unfold cutover1036
  rw [ht]
  dsimp only
  rw [mapM_eq_map fun a ha => ownFromKey_eq hempty (h a ha), ok_bind]
  cases db.workspaces.ensureDefault fresh with
  | error e => rfl
  | ok ws =>
    have hsubjects : ∀ a ∈ (t.rows.map (named bigint db.workspaces)).map (ownByDefault ws),
        classifySubject bigint db.cases a = .ok (classified bigint db.cases a) := by
      rw [List.map_map]
      intro b hb
      obtain ⟨a, ha, rfl⟩ := List.mem_map.mp hb
      refine classifySubject_eq hempty fun hfunding => ?_
      have hkey : (ownByDefault ws (named bigint db.workspaces a)).dedupKey = a.dedupKey :=
        ownByDefault_dedupKey.trans named_dedupKey
      rw [isFunding, Function.comp_apply, hkey] at hfunding
      rw [Function.comp_apply, hkey]
      exact (h a ha).subject hfunding
    rw [ok_bind, mapM_eq_map hsubjects, ok_bind]
    simp only [List.map_map, Function.comp_def, Except.map]
    rfl

/-! ## Both -/

theorem preowned_dedupKey {d : Option Int} : (preowned bigint d a).dedupKey = a.dedupKey := by
  rw [preowned]
  split <;> rfl

theorem Prepared.castable (h : Prepared bigint t db db') (ha : a ∈ t.rows) :
    Castable bigint (preowned bigint db'.workspaces.default a) := by
  refine ⟨fun hnone => ?_, fun hfunding => ?_⟩
  · rw [preowned_dedupKey]
    by_contra hneg
    rw [preowned] at hnone
    split at hnone
    · rename_i hcond
      have hown : a.workspaceId = none := by simpa using (Bool.and_eq_true_iff.mp hcond).1
      have hdefault := (h.unowned a ha hown).resolve_left hneg
      have hnone : db'.workspaces.default = none := hnone
      rw [hnone] at hdefault
      cases hdefault
    · rename_i hcond
      rw [hnone] at hcond
      simp [hneg] at hcond
  · rw [isFunding, preowned_dedupKey] at hfunding
    rw [preowned_dedupKey]
    exact h.subjects a ha hfunding

/-- The repair of a row does not change whose it is in the end: what it gives to the
default workspace names no other, since a workspace has a positive id. -/
theorem Prepared.ownerOf_eq (h : Prepared bigint t db db') (ha : a ∈ t.rows)
    (hpos : ∀ n, db.workspaces.has n = true → 0 < n) (hgrown : Grown db'.workspaces ws) :
    ownerOf bigint db'.workspaces ws.default (preowned bigint db'.workspaces.default a) =
      ownerOf bigint db.workspaces ws.default a := by
  rw [ownerOf, ownerOf, preowned_dedupKey, preowned]
  cases hown : a.workspaceId with
  | some n => simp [hown]
  | none =>
    cases hnamed : denotesPositive bigint (splitPart a.dedupKey 2) with
    | true =>
      obtain ⟨n, hn, -⟩ := (Option.any_eq_true _ _).mp hnamed
      rw [hn]
      simp only [Option.isNone_none, Bool.not_true, Bool.and_false, Bool.false_eq_true, if_false, hown, Option.none_or]
      rw [Option.filter_some, Option.filter_some]
      cases hold : db.workspaces.has n with
      | true => rw [h.grown.keeps n hold]
      | false =>
        cases hnew : db'.workspaces.has n with
        | false => rfl
        | true =>
          -- the key names the default workspace that was inserted
          have hdefault := (h.grown.new n hnew).resolve_left (by rw [hold]; exact Bool.false_ne_true)
          rw [hgrown.default n hdefault]
          rfl
    | false =>
      obtain ⟨d, hd⟩ := Option.isSome_iff_exists.mp
        ((h.unowned a ha hown).resolve_left (by rw [hnamed]; exact Bool.false_ne_true))
      have hno : (bigint (splitPart a.dedupKey 2)).filter db.workspaces.has = none := by
        rw [Option.filter_eq_none_iff]
        intro n hn hhas
        have hpositive := hpos n hhas
        rw [denotesPositive, hn] at hnamed
        simp [hpositive] at hnamed
      simp only [Option.isNone_none, Bool.not_false, Bool.and_self, if_true, Option.none_or, hno, hd,
        hgrown.default d hd, Option.some_or]

end

/-- Where the preflight ends well, 1036 casts without an error, and every alert has the
owner it had, or the workspace that its key denotes, or the default one; where the
preflight fails, nothing has changed. -/
theorem preflight_cutover (bigint : List Char → Option Int) (hempty : bigint [] = none) (faults : PreflightFaults)
    (fresh fresh' : Int) (db db' : LegacyDb) (hpos : ∀ w ∈ db.workspaces.rows, 0 < w.id)
    (answer : Except CutoverError Unit)
    (h : preflightRepairLegacyDedupKeys bigint faults fresh db = (answer, db')) :
    (∀ e, answer = .error e → db' = db) ∧
    (answer = .ok () → ∀ t, db.alerts = some t →
      (∀ text, cutover1036 bigint fresh' db' ≠ .error (.invalidBigint text)) ∧
      (db'.workspaces.has fresh' = false → ∃ after, cutover1036 bigint fresh' db' = .ok after) ∧
      ∀ after, cutover1036 bigint fresh' db' = .ok after → ∃ t' d, after.alerts = some t' ∧
        after.workspaces.default = some d ∧
        t'.rows.map LegacyAlert.owned = t.rows.map fun a => (a.dedupKey, ownerOf bigint db.workspaces (some d) a)) := by
  refine ⟨fun e he => preflight_error (he ▸ h), fun hok t ht => ?_⟩
  subst hok
  have hprepared := preflight_ok ht h
  obtain ⟨t', ht', hrows⟩ := hprepared.alerts
  have hcastable : ∀ a ∈ t'.rows, Castable bigint a := by
    rw [hrows]
    intro b hb
    obtain ⟨a, ha, rfl⟩ := List.mem_map.mp hb
    exact hprepared.castable ha
  have hhas : ∀ n, db.workspaces.has n = true → 0 < n := by
    intro n hn
    obtain ⟨w, hw, rfl⟩ := List.mem_map.mp (has_iff.mp hn)
    exact hpos w hw
  rw [cutover1036_eq hempty ht' hcastable]
  cases hdefault : db'.workspaces.ensureDefault fresh' with
  | error e =>
    obtain ⟨rfl, htaken⟩ := ensureDefault_error hdefault
    refine ⟨fun text h => (by cases h), fun hfresh => ?_, fun after h => (by cases h)⟩
    rw [hfresh] at htaken
    cases htaken
  | ok ws =>
    obtain ⟨hgrown, hsome⟩ := ensureDefault_ok hdefault
    obtain ⟨d, hd⟩ := Option.isSome_iff_exists.mp hsome
    refine ⟨fun text h => (by cases h), fun _ => ⟨_, rfl⟩, fun after h => ?_⟩
    obtain rfl := Except.ok.inj h
    refine ⟨_, d, rfl, hd, ?_⟩
    show (t'.rows.map _).map LegacyAlert.owned = _
    rw [hrows, List.map_map, List.map_map]
    refine List.map_congr_left fun a ha => ?_
    show (markUnknown (classified bigint db'.cases (ownByDefault ws (named bigint db'.workspaces
      (preowned bigint db'.workspaces.default a))))).owned = _
    rw [classified_owned, ownByDefault_named, preowned_dedupKey, hprepared.ownerOf_eq ha hhas hgrown, hd]

/-! ## An upgrade -/

def legacyAlert (dedupKey : String) (workspaceId : Option Int) : LegacyAlert :=
  ⟨dedupKey, workspaceId, "signal", some 1, none⟩

/-- Alerts of a tenant, of an old format, of a number out of range, and with an owner. -/
def legacyDb : LegacyDb where
  alerts := some {
    hasWorkspaceColumn := true
    rows := [legacyAlert "signal:7:1:chat" none, legacyAlert "signal:solana:MINT:entry" none,
      legacyAlert "funding:9223372036854775808:5:chat" none, legacyAlert "signal:7:2:chat" (some 3)]
    noOwners := fun h => by cases h }
  workspaces := ⟨[⟨3, "a"⟩, ⟨7, "b"⟩], by decide, by decide⟩
  cases := [5]

def preflightDb : LegacyDb := (preflightRepairLegacyDedupKeys bigintInput (fun _ => none) 8 legacyDb).2

theorem preflight_cutover_legacyDb : ∃ after t',
    preflightRepairLegacyDedupKeys bigintInput (fun _ => none) 8 legacyDb = (.ok (), preflightDb) ∧
      cutover1036 bigintInput 9 preflightDb = .ok after ∧ after.alerts = some t' ∧
      t'.rows.map LegacyAlert.owned = [("signal:7:1:chat", some 7), ("signal:solana:MINT:entry", some 8),
        ("funding:9223372036854775808:5:chat", some 8), ("signal:7:2:chat", some 3)] := by
  have hpreflight : preflightRepairLegacyDedupKeys bigintInput (fun _ => none) 8 legacyDb = (.ok (), preflightDb) :=
    Prod.ext (by decide +kernel) rfl
  obtain ⟨-, hok⟩ := preflight_cutover bigintInput (by decide +kernel) (fun _ => none) 8 9 legacyDb preflightDb
    (by decide) _ hpreflight
  obtain ⟨-, hsome, howners⟩ := hok rfl _ rfl
  obtain ⟨after, hafter⟩ := hsome (by decide +kernel)
  obtain ⟨t', d, ht', hd, hrows⟩ := howners after hafter
  have height : (cutover1036 bigintInput 9 preflightDb).map (fun after => after.workspaces.default) = .ok (some 8) := by
    decide +kernel
  rw [hafter] at height
  obtain rfl : d = 8 := Option.some.inj (hd.symm.trans (Except.ok.inj height))
  refine ⟨after, t', hpreflight, hafter, ht', hrows.trans ?_⟩
  decide +kernel

end WhaleIntelligence.Migrations
