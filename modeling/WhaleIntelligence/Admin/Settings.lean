import WhaleIntelligence.Admin.Access
import WhaleIntelligence.Json
import WhaleIntelligence.Lib.HashGroup

/- The runtime settings of the admin panel.

   The panel shows nine settings: the rows of `admin_settings` over the values of the
   configuration. A request may save several, one statement each and without a
   transaction, so a failure keeps what was saved before it. After any run of requests a
   setting is shown with the value that was last saved, or else as it was at the start
   (`shown_after`), what is shown passes its own check, and it can be saved
   as it is (`save_shown`). -/
namespace WhaleIntelligence.Settings
open WhaleIntelligence Auth HashGroup

/-! ## Keys and values -/

def EDITABLE_KEYS : List String :=
  ["large_funding_min_sol", "large_funding_min_usd", "recipient_max_age_days", "preparation_alert_confidence",
    "entry_min_liquidity_usd", "full_skill_score", "full_copyability_score", "telegram_concurrency", "runtime_profile"]

inductive RuntimeProfile where
  | low | scale
  deriving DecidableEq, Repr

/-- What the configuration has for the settings. -/
structure AppConfig where
  largeFundingMinSol : UInt64
  largeFundingMinUsd : UInt64
  recipientMaxAgeDays : UInt32
  preparationAlertConfidence : UInt32
  entryMinLiquidityUsd : UInt64
  fullSkillScore : UInt32
  fullCopyabilityScore : UInt32
  telegramConcurrency : UInt64
  runtimeProfile : RuntimeProfile

def count (n : Nat) : Json := .number (.int n)

def RuntimeProfile.text : RuntimeProfile → String
  | .low => "low"
  | .scale => "scale"

/-- The pairs of `runtime_defaults`. -/
def defaultPairs (config : AppConfig) : List (String × Json) :=
  [("large_funding_min_sol", count config.largeFundingMinSol.toNat),
    ("large_funding_min_usd", count config.largeFundingMinUsd.toNat),
    ("recipient_max_age_days", count config.recipientMaxAgeDays.toNat),
    ("preparation_alert_confidence", count config.preparationAlertConfidence.toNat),
    ("entry_min_liquidity_usd", count config.entryMinLiquidityUsd.toNat),
    ("full_skill_score", count config.fullSkillScore.toNat),
    ("full_copyability_score", count config.fullCopyabilityScore.toNat),
    ("telegram_concurrency", count config.telegramConcurrency.toNat),
    ("runtime_profile", .string config.runtimeProfile.text)]

/-- Pairs are put into a map one by one. -/
def insertAll (m : Map String Json) (pairs : List (String × Json)) : Map String Json :=
  pairs.foldl (fun m p => m.insert p.1 p.2) m

def runtimeDefaults (config : AppConfig) : Map String Json := insertAll ∅ (defaultPairs config)

def validRuntimeValue (key : String) (value : Json) : Bool :=
  if key == "runtime_profile" then
    match value.asStr with
    | some "low" | some "scale" => true
    | _ => false
  else value.asU64.isSome

/-! ## The handlers -/

/-- The rows of `admin_settings`, of which other writers have some too. -/
abbrev SettingsTable := Map String Json

/-- The rows of the panel over the values of the configuration. -/
def effective (config : AppConfig) (table : SettingsTable) : Map String Json :=
  table.entries.foldl (fun m e => if EDITABLE_KEYS.contains e.1 then m.insert e.1 e.2 else m) (runtimeDefaults config)

/-- `settings_runtime_get`. -/
def settingsRuntimeGet (tokenHash : String → String) (config : AppConfig) (r : Request) (sessions : SessionStore)
    (table : SettingsTable) (readFault : Bool) : Except Refused (Map String Json) :=
  match requireAuth tokenHash r sessions with
  | .error e => .error e
  | .ok () => if readFault then .error .internalServerError else .ok (effective config table)

structure RuntimeSaveForm where
  key : Option String
  value : Option Json
  settings : Option (List (String × Json))

/-- Either shape, or both. -/
def RuntimeSaveForm.pairs (form : RuntimeSaveForm) : List (String × Json) :=
  (match form.key, form.value with
    | some k, some v => [(k, v)]
    | _, _ => []) ++ form.settings.getD []

/-- A request to save, with the statement that fails, if one does. -/
structure SaveRequest extends Request where
  sessions : SessionStore
  form : RuntimeSaveForm
  fault : Option Nat

def editable (p : String × Json) : Bool := EDITABLE_KEYS.contains p.1 && validRuntimeValue p.1 p.2

/-- The statement that fails is one of the request's. -/
def SaveRequest.fails (r : SaveRequest) : Bool := r.fault.any (· < r.form.pairs.length)

/-- The pairs whose statements are run. -/
def SaveRequest.applied (r : SaveRequest) : List (String × Json) :=
  match r.fault with
  | some n => r.form.pairs.take n
  | none => r.form.pairs

/-- `settings_runtime_save`: the number of the pairs, and the table after it. -/
def settingsRuntimeSave (tokenHash : String → String) (table : SettingsTable) (r : SaveRequest) :
    Except Refused Nat × SettingsTable :=
  match requireWriteAuth tokenHash r.toRequest r.sessions with
  | .error e => (.error e, table)
  | .ok () =>
    if r.form.pairs.isEmpty || !r.form.pairs.all editable then (.error .badRequest, table)
    else if r.fails then (.error .internalServerError, insertAll table r.applied)
    else (.ok r.form.pairs.length, insertAll table r.applied)

/-! ## Maps -/

section
variable {m : Map String Json} {pairs : List (String × Json)} {k : String} {v : Json} {config : AppConfig}
  {table : SettingsTable}

/-- The last pair of a key is the one that stays. -/
theorem lookup_insertAll : (insertAll m pairs).lookup k = (pairs.reverse.lookup k).or (m.lookup k) := by
  induction pairs using List.reverseRecOn with
  | nil => rfl
  | append_singleton pairs p ih =>
    have hlast : insertAll m (pairs ++ [p]) = (insertAll m pairs).insert p.1 p.2 := List.foldl_concat _ _ _ _
    rw [hlast, List.reverse_append, List.reverse_singleton, List.singleton_append]
    by_cases hk : k = p.1
    · subst hk
      rw [AList.lookup_insert, List.lookup_cons_self]
      rfl
    · rw [AList.lookup_insert_ne hk, ih, List.lookup_cons, beq_false_of_ne hk]

/-- Rows with distinct keys are laid over a map: those of the settings cover what it has. -/
theorem lookup_overlay {l : List (Σ _ : String, Json)} (hl : l.NodupKeys) :
    (l.foldl (fun m e => if EDITABLE_KEYS.contains e.1 then m.insert e.1 e.2 else m) m).lookup k =
      (if k ∈ EDITABLE_KEYS then l.dlookup k else none).or (m.lookup k) := by
  induction l generalizing m with
  | nil => simp
  | cons e l ih =>
    obtain ⟨hfresh, hl⟩ := List.nodupKeys_cons.mp hl
    rw [List.foldl_cons, ih hl]
    by_cases hk : k = e.1
    · -- no later row has the key of this one
      subst hk
      rw [List.dlookup_eq_none.mpr hfresh, List.dlookup_cons_eq]
      by_cases hmem : e.1 ∈ EDITABLE_KEYS
      · simp [hmem]
      · simp [hmem]
    · rw [List.dlookup_cons_ne _ _ hk]
      congr 1
      split
      · exact AList.lookup_insert_ne hk
      · rfl

theorem runtimeDefaults_lookup : (runtimeDefaults config).lookup k = (defaultPairs config).reverse.lookup k := by
  rw [runtimeDefaults, lookup_insertAll, AList.lookup_empty, Option.or_none]

/-- What is shown: a row of the table, or else the value of the configuration. -/
theorem effective_lookup : (effective config table).lookup k =
    (if k ∈ EDITABLE_KEYS then table.lookup k else none).or ((defaultPairs config).reverse.lookup k) := by
  rw [effective, lookup_overlay table.nodupKeys, runtimeDefaults_lookup]
  rfl

theorem asU64_count {n : Nat} (hn : n < 2 ^ 64) : (count n).asU64 = some n := by
  rw [count, Json.asU64, if_pos (by omega), Int.toNat_natCast]

/-- Every value of the configuration is of a setting, and passes the check of it. -/
theorem editable_default : ∀ p ∈ defaultPairs config, editable p = true := by
  have hcount : ∀ key ∈ EDITABLE_KEYS, key ≠ "runtime_profile" → ∀ n < 2 ^ 64,
      editable (key, count n) = true := by
    intro key hkey hne n hn
    rw [editable, validRuntimeValue, if_neg (by simpa using hne), asU64_count hn]
    simpa using hkey
  have h32 : ∀ n : UInt32, n.toNat < 2 ^ 64 := fun n => Nat.lt_trans n.toNat_lt (by decide)
  intro p hp
  simp only [defaultPairs, List.mem_cons, List.not_mem_nil, or_false] at hp
  rcases hp with rfl | rfl | rfl | rfl | rfl | rfl | rfl | rfl | rfl
  · exact hcount _ (by decide) (by decide) _ config.largeFundingMinSol.toNat_lt
  · exact hcount _ (by decide) (by decide) _ config.largeFundingMinUsd.toNat_lt
  · exact hcount _ (by decide) (by decide) _ (h32 _)
  · exact hcount _ (by decide) (by decide) _ (h32 _)
  · exact hcount _ (by decide) (by decide) _ config.entryMinLiquidityUsd.toNat_lt
  · exact hcount _ (by decide) (by decide) _ (h32 _)
  · exact hcount _ (by decide) (by decide) _ (h32 _)
  · exact hcount _ (by decide) (by decide) _ config.telegramConcurrency.toNat_lt
  · cases config.runtimeProfile <;> decide

theorem default_mem (config : AppConfig) :
    k ∈ EDITABLE_KEYS ↔ ∃ v, (defaultPairs config).reverse.lookup k = some v := by
  have hkeys : EDITABLE_KEYS = (defaultPairs config).map Prod.fst := rfl
  rw [← Option.isSome_iff_exists, List.lookup_isSome_iff, hkeys, List.mem_map]
  apply exists_congr
  intro p
  rw [List.mem_reverse, beq_iff_eq, eq_comm]

theorem pair_mem {pairs : List (String × Json)} (h : pairs.lookup k = some v) : (k, v) ∈ pairs := by
  obtain ⟨l₁, l₂, rfl, -⟩ := List.lookup_eq_some_iff.mp h
  simp

theorem shown_none (h : k ∉ EDITABLE_KEYS) : (effective config table).lookup k = none := by
  rw [effective_lookup, if_neg h, Option.none_or, Option.eq_none_iff_forall_ne_some]
  intro v hv
  exact h ((default_mem config).mpr ⟨v, hv⟩)

end

/-! ## Runs -/

/-- The table after requests to save. -/
def after (tokenHash : String → String) (table : SettingsTable) (requests : List SaveRequest) : SettingsTable :=
  requests.foldl (fun table r => (settingsRuntimeSave tokenHash table r).2) table

/-- The request gets as far as its statements. -/
def SaveRequest.accepted (tokenHash : String → String) (r : SaveRequest) : Bool :=
  (requireWriteAuth tokenHash r.toRequest r.sessions).isOk && !r.form.pairs.isEmpty && r.form.pairs.all editable

/-- What a request saves for a key. -/
def SaveRequest.saved (tokenHash : String → String) (r : SaveRequest) (k : String) : Option Json :=
  if r.accepted tokenHash then r.applied.reverse.lookup k else none

/-- What was last saved for a key. -/
def lastSaved (tokenHash : String → String) (requests : List SaveRequest) (k : String) : Option Json :=
  requests.reverse.findSome? (·.saved tokenHash k)

/-- The rows of the settings pass their checks. -/
def Valid (table : SettingsTable) : Prop :=
  ∀ k ∈ EDITABLE_KEYS, ∀ v, table.lookup k = some v → validRuntimeValue k v = true

section
variable {tokenHash : String → String} {config : AppConfig} {table : SettingsTable} {r : SaveRequest}
  {requests : List SaveRequest} {k : String} {v : Json}

theorem applied_subset {p : String × Json} (h : p ∈ r.applied) : p ∈ r.form.pairs := by
  unfold SaveRequest.applied at h
  split at h
  · exact List.mem_of_mem_take h
  · exact h

/-- What is saved has passed its check. -/
theorem editable_of_saved (h : r.saved tokenHash k = some v) : editable (k, v) = true := by
  unfold SaveRequest.saved at h
  split at h
  · next haccepted =>
    have hall : r.form.pairs.all editable = true := (Bool.and_eq_true _ _ ▸ haccepted).2
    exact List.all_eq_true.mp hall (k, v) (applied_subset (List.mem_reverse.mp (pair_mem h)))
  · cases h

/-- One request: what it saves for a key is read, and else what was there before. -/
theorem save_lookup : (settingsRuntimeSave tokenHash table r).2.lookup k =
    (r.saved tokenHash k).or (table.lookup k) := by
  unfold settingsRuntimeSave SaveRequest.saved SaveRequest.accepted
  cases requireWriteAuth tokenHash r.toRequest r.sessions with
  | error e => rfl
  | ok u =>
    cases hempty : r.form.pairs.isEmpty with
    | true => simp [Except.isOk, Except.toBool]
    | false =>
      cases hall : r.form.pairs.all editable with
      | false => simp [Except.isOk, Except.toBool]
      | true =>
        cases r.fails with
        | true => simp [Except.isOk, Except.toBool, lookup_insertAll]
        | false => simp [Except.isOk, Except.toBool, lookup_insertAll]

/-- After a run, a row is what was last saved for its key. -/
theorem after_lookup : (after tokenHash table requests).lookup k =
    (lastSaved tokenHash requests k).or (table.lookup k) := by
  induction requests using List.reverseRecOn with
  | nil => rfl
  | append_singleton requests r ih =>
    have hlast : lastSaved tokenHash (requests ++ [r]) k =
        (r.saved tokenHash k).or (lastSaved tokenHash requests k) := by
      rw [lastSaved, List.reverse_append, List.reverse_singleton, List.singleton_append, List.findSome?_cons]
      cases r.saved tokenHash k <;> rfl
    rw [after, List.foldl_concat, ← after, save_lookup, ih, hlast, Option.or_assoc]

theorem valid_after (h : Valid table) : Valid (after tokenHash table requests) := by
  intro k hk v hv
  rw [after_lookup] at hv
  cases hsaved : lastSaved tokenHash requests k with
  | none =>
    rw [hsaved] at hv
    exact h k hk v hv
  | some w =>
    rw [hsaved] at hv
    obtain rfl := Option.some.inj hv
    obtain ⟨r, -, hr⟩ := List.exists_of_findSome?_eq_some hsaved
    exact (Bool.and_eq_true _ _ ▸ editable_of_saved hr).2

/-- Each setting is shown, with a value that passes its check. -/
theorem shown_valid (config : AppConfig) (h : Valid table) (hk : k ∈ EDITABLE_KEYS) :
    ∃ v, (effective config table).lookup k = some v ∧ validRuntimeValue k v = true := by
  rw [effective_lookup, if_pos hk]
  cases hrow : table.lookup k with
  | some v => exact ⟨v, rfl, h k hk v hrow⟩
  | none =>
    obtain ⟨v, hv⟩ := (default_mem config).mp hk
    have hdefault : editable (k, v) = true := editable_default _ (List.mem_reverse.mp (pair_mem hv))
    exact ⟨v, hv, (Bool.and_eq_true _ _ ▸ hdefault).2⟩

theorem shown_of_get {reader : Request} {sessions : SessionStore} {readFault : Bool} {shown : Map String Json}
    (h : settingsRuntimeGet tokenHash config reader sessions table readFault = .ok shown) :
    effective config table = shown := by
  unfold settingsRuntimeGet at h
  split at h
  · cases h
  · split at h
    · cases h
    · exact Except.ok.inj h

/-- What the panel shows after any requests to save: of each setting the value that was last saved, or else the row or
the configuration it started with, and nothing else. -/
theorem shown_after {reader : Request} {sessions : SessionStore} {readFault : Bool} {shown : Map String Json}
    (hstart : Valid table) (hget : settingsRuntimeGet tokenHash config reader sessions
      (after tokenHash table requests) readFault = .ok shown) (k : String) :
    (k ∈ EDITABLE_KEYS → ∃ v, shown.lookup k = some v ∧ validRuntimeValue k v = true ∧
      (lastSaved tokenHash requests k).or ((effective config table).lookup k) = some v) ∧
      (k ∉ EDITABLE_KEYS → shown.lookup k = none) := by
  obtain rfl := shown_of_get hget
  refine ⟨fun hk => ?_, fun hk => shown_none hk⟩
  obtain ⟨v, hv, hvalid⟩ := shown_valid config (valid_after hstart) hk
  refine ⟨v, hv, hvalid, ?_⟩
  rw [← hv, effective_lookup, effective_lookup, if_pos hk, if_pos hk, after_lookup, Option.or_assoc]

end

/-- The shipped configuration. -/
def lowProfile : AppConfig where
  largeFundingMinSol := 100
  largeFundingMinUsd := 10000
  recipientMaxAgeDays := 7
  preparationAlertConfidence := 70
  entryMinLiquidityUsd := 20000
  fullSkillScore := 70
  fullCopyabilityScore := 60
  telegramConcurrency := 4
  runtimeProfile := .low

/-- A request of the second login to save, of which the second statement fails. -/
def halfSave (pairs : List (String × Json)) : SaveRequest where
  toRequest := secondRequest
  sessions := sessionsAfter sha256Hex [] twoLogins
  form := ⟨none, none, some pairs⟩
  fault := some 1

def halfSaved : List SaveRequest :=
  [halfSave [("full_skill_score", count 80), ("telegram_concurrency", count 32)]]

theorem valid_empty : Valid ∅ := by
  intro k _ v hv
  cases hv

theorem shown_after_half :
    ("full_skill_score" ∈ EDITABLE_KEYS → ∃ v,
      (effective lowProfile (after sha256Hex ∅ halfSaved)).lookup "full_skill_score" = some v ∧
        validRuntimeValue "full_skill_score" v = true ∧
        (lastSaved sha256Hex halfSaved "full_skill_score").or ((effective lowProfile ∅).lookup "full_skill_score") =
          some v) ∧
      ("full_skill_score" ∉ EDITABLE_KEYS →
        (effective lowProfile (after sha256Hex ∅ halfSaved)).lookup "full_skill_score" = none) := by
  have hauth : requireAuth sha256Hex secondRequest (sessionsAfter sha256Hex [] twoLogins) = .ok () := by decide
  have hget : settingsRuntimeGet sha256Hex lowProfile secondRequest (sessionsAfter sha256Hex [] twoLogins)
      (after sha256Hex ∅ halfSaved) false = .ok (effective lowProfile (after sha256Hex ∅ halfSaved)) := by
    rw [settingsRuntimeGet, hauth]
    rfl
  exact shown_after valid_empty hget "full_skill_score"

/-- The first of the two is saved, the second is not. -/
example : ["full_skill_score", "telegram_concurrency"].map (fun k =>
    ((effective lowProfile (after sha256Hex ∅ halfSaved)).lookup k).bind Json.asU64) = [some 80, some 4] := by
  decide

section
variable {tokenHash : String → String} {config : AppConfig} {table : SettingsTable} {r : SaveRequest}
  {requests : List SaveRequest} {k : String}

theorem mem_shown (config : AppConfig) (table : SettingsTable) :
    k ∈ effective config table ↔ k ∈ EDITABLE_KEYS := by
  rw [← AList.lookup_isSome]
  constructor
  · intro hshown
    by_contra hk
    simp [shown_none hk] at hshown
  · intro hk
    obtain ⟨v, hv⟩ := (default_mem config).mp hk
    rw [effective_lookup, hv, Option.isSome_or]
    simp

/-- Nine settings are shown. -/
theorem shown_length : (effective config table).entries.length = 9 := by
  have hkeys : (effective config table).keys.Perm EDITABLE_KEYS := by
    rw [List.perm_ext_iff_of_nodup (effective config table).keys_nodup (by decide)]
    intro k
    rw [← AList.mem_keys, mem_shown]
  calc (effective config table).entries.length
      = (effective config table).keys.length := by simp [AList.keys, List.keys]
    _ = 9 := hkeys.length_eq

/-- What is shown after any requests to save can be saved as it is, in whatever order its pairs come. Even where one of
the statements fails, every setting is shown as before. -/
theorem save_shown {pairs : List (String × Json)} (hstart : Valid table)
    (hauth : requireWriteAuth tokenHash r.toRequest r.sessions = .ok ()) (hform : r.form = ⟨none, none, some pairs⟩)
    (hpairs : pairs.Perm ((effective config (after tokenHash table requests)).entries.map fun e => (e.1, e.2))) :
    (settingsRuntimeSave tokenHash (after tokenHash table requests) r).1 =
        (if r.fails then .error .internalServerError else .ok 9) ∧
      ∀ k, (effective config (after tokenHash table (requests ++ [r]))).lookup k =
        (effective config (after tokenHash table requests)).lookup k := by
  have hform : r.form.pairs = pairs := by rw [hform]; rfl
  have hshown : ∀ p ∈ pairs, (effective config (after tokenHash table requests)).lookup p.1 = some p.2 := by
    intro p hp
    obtain ⟨e, he, rfl⟩ := List.mem_map.mp (hpairs.mem_iff.mp hp)
    exact AList.mem_lookup_iff.mpr he
  have hsetting : ∀ p ∈ pairs, p.1 ∈ EDITABLE_KEYS := by
    intro p hp
    rw [← mem_shown config (after tokenHash table requests), ← AList.lookup_isSome, hshown p hp]
    rfl
  constructor
  · have heditable : pairs.all editable = true := by
      rw [List.all_eq_true]
      intro p hp
      obtain ⟨v, hv, hcheck⟩ := shown_valid config (valid_after hstart) (hsetting p hp)
      obtain rfl : p.2 = v := Option.some.inj ((hshown p hp).symm.trans hv)
      rw [editable, hcheck, Bool.and_true]
      simpa using hsetting p hp
    have hlength : pairs.length = 9 := by rw [hpairs.length_eq, List.length_map, shown_length]
    have hempty : pairs.isEmpty = false := by
      rw [List.isEmpty_eq_false_iff, ← List.length_pos_iff]
      omega
    rw [settingsRuntimeSave, hauth, hform, hempty, heditable, hlength]
    cases r.fails <;> rfl
  · intro k
    rw [effective_lookup, after, List.foldl_concat, ← after, save_lookup]
    cases hsaved : r.saved tokenHash k with
    | none => exact effective_lookup.symm
    | some v =>
      -- the row is now what the setting was shown with
      have hmem : (k, v) ∈ pairs := by
        rw [SaveRequest.saved] at hsaved
        split at hsaved
        · exact hform ▸ applied_subset (List.mem_reverse.mp (pair_mem hsaved))
        · cases hsaved
      rw [if_pos (hsetting (k, v) hmem), hshown (k, v) hmem]
      rfl

end

/-- The request to save back what is shown after that. -/
def saveBack : SaveRequest :=
  halfSave ((effective lowProfile (after sha256Hex ∅ halfSaved)).entries.map fun e => (e.1, e.2))

theorem save_shown_half :
    (settingsRuntimeSave sha256Hex (after sha256Hex ∅ halfSaved) saveBack).1 =
        (if saveBack.fails then .error .internalServerError else .ok 9) ∧
      ∀ k, (effective lowProfile (after sha256Hex ∅ (halfSaved ++ [saveBack]))).lookup k =
        (effective lowProfile (after sha256Hex ∅ halfSaved)).lookup k := by
  have hauth : requireWriteAuth sha256Hex secondRequest (sessionsAfter sha256Hex [] twoLogins) = .ok () := by decide
  exact save_shown valid_empty hauth rfl (List.Perm.refl _)

end WhaleIntelligence.Settings
