import Mathlib.Data.List.Induction
import WhaleIntelligence.Json
import WhaleIntelligence.Lib.Delimited
import WhaleIntelligence.Rust

/- The ingestion pipeline and its idempotency keys: `run_pipeline` and `idempotency_key`.

   A payload is identified by its source, event id and schema version, or, without an
   event id, by its source, entity keys, event type, hour and raw hash. The key joins
   these fields with bars, and the entity keys with commas, and escapes neither. So two
   payloads that are not identified alike have one key where the bars, or the commas,
   group the same parts into other fields (`identify_iff`), and the second one is then
   taken for a duplicate. -/
namespace WhaleIntelligence.Ingest
open WhaleIntelligence Delimited

inductive Chain where
  | solana | robinhood | ethereum | base | bsc
  deriving DecidableEq, Repr

def Chain.asStr : Chain → String
  | .solana => "solana"
  | .robinhood => "robinhood"
  | .ethereum => "ethereum"
  | .base => "base"
  | .bsc => "bsc"

inductive IngestionStage where
  | fetch | rawEvidenceWrite | envelopeValidation | idempotentAppend | normalization | entityResolution
  | graphEdges | scalarProjections | triggerEvaluation | jobsOutbox
  deriving DecidableEq, Repr

inductive StageResult where
  | ok (stage : IngestionStage)
  | skipped (stage : IngestionStage) (reason : String)
  | failed (stage : IngestionStage) (reason : String)
  deriving DecidableEq, Repr

structure RawPayload where
  chain : Chain
  sourceName : String
  sourceEventId : Option String
  eventType : String
  payloadSchemaVersion : String
  rawHash : String
  observedAt : Int64
  payload : Json

structure PipelineOutcome where
  stages : List StageResult
  accepted : Bool
  deduped : Bool
  deriving DecidableEq, Repr

/-! ## Keys -/

/-- `div_euclid(3600)`. -/
def timeBucket (unixSecs : Int64) : Int := unixSecs.toInt / 3600

/-- `obj.get(first).or_else(|| obj.get(second)).and_then(|v| v.as_str())`. -/
def addressAt (members : List (String × Json)) (first second : String) : Option String :=
  ((members.lookup first).or (members.lookup second)).bind Json.asStr

def normalizeEntityKeys (raw : RawPayload) : Option (List String) := do
  let obj ← raw.payload.asObject
  let keys := ((addressAt obj "token" "mint").map fun addr => "token:" ++ raw.chain.asStr ++ ":" ++ addr).toList ++
    ((addressAt obj "wallet" "from").map fun w => "wallet:" ++ raw.chain.asStr ++ ":" ++ w).toList
  if keys.isEmpty then none else some keys

def entityKeys (raw : RawPayload) : List String := (normalizeEntityKeys raw).getD []

def idempotencyKey (raw : RawPayload) : String :=
  match raw.sourceEventId with
  | some id => raw.sourceName ++ "|" ++ id ++ "|" ++ raw.payloadSchemaVersion
  | none =>
    let entity := ",".intercalate (entityKeys raw)
    let bucket := timeBucket raw.observedAt
    raw.sourceName ++ "|" ++ entity ++ "|" ++ raw.eventType ++ "|" ++ toString bucket ++ "|" ++ raw.rawHash

/-! ## The store -/

/-- A receipt for the append of one key. -/
structure DurableAppendReceipt where
  key : String
  deriving DecidableEq, Repr

/-- `InMemoryIdempotency`. -/
structure IdempotencyStore where
  committed : List String
  deriving DecidableEq, Repr

def IdempotencyStore.contains (idem : IdempotencyStore) (key : String) : Bool := idem.committed.contains key

def IdempotencyStore.commit (idem : IdempotencyStore) (key : String) (receipt : DurableAppendReceipt) :
    IdempotencyStore :=
  if receipt.key == key then ⟨idem.committed.insert key⟩ else idem

/-! ## The pipeline -/

/-- The envelope is complete. -/
def validEnvelope (raw : RawPayload) : Bool :=
  !(trim raw.rawHash == "" || trim raw.payloadSchemaVersion == "" || trim raw.sourceName == "" ||
    trim raw.eventType == "")

def fetched : List StageResult :=
  [.ok .fetch, .skipped .rawEvidenceWrite "no raw evidence writer backend (pure logic slice)"]

/-- The stages behind the append. -/
def normalized (raw : RawPayload) : List StageResult :=
  match normalizeEntityKeys raw with
  | some _ => [.ok .normalization,
      .skipped .entityResolution "no graph backend (pure logic slice)",
      .skipped .graphEdges "no graph backend (pure logic slice)",
      .skipped .scalarProjections "no projection backend (pure logic slice)",
      .skipped .triggerEvaluation "no trigger backend (pure logic slice)",
      .skipped .jobsOutbox "no jobs/outbox backend (pure logic slice)"]
  | none => [.skipped .normalization "no entity keys derivable (malformed or empty payload)"]

def runPipeline (raw : RawPayload) (idem : IdempotencyStore) : PipelineOutcome :=
  if !validEnvelope raw then
    ⟨fetched ++ [.failed .envelopeValidation
      "incomplete envelope: raw_hash/schema_version/source_name/event_type required"], false, false⟩
  else if idem.contains (idempotencyKey raw) then
    ⟨fetched ++ [.ok .envelopeValidation,
      .skipped .idempotentAppend "duplicate committed idempotency key"], false, true⟩
  else
    ⟨fetched ++ [.ok .envelopeValidation,
      .skipped .idempotentAppend "no canonical append backend (pure logic slice)"] ++ normalized raw, false, false⟩

/-! ## What identifies a payload -/

inductive Identity where
  | event (sourceName sourceEventId payloadSchemaVersion : String)
  | content (sourceName : String) (entityKeys : List String) (eventType : String) (bucket : Int) (rawHash : String)
  deriving DecidableEq, Repr

def RawPayload.identity (raw : RawPayload) : Identity :=
  match raw.sourceEventId with
  | some id => .event raw.sourceName id raw.payloadSchemaVersion
  | none => .content raw.sourceName (entityKeys raw) raw.eventType (timeBucket raw.observedAt) raw.rawHash

/-- The entity keys of a payload without an event id. -/
def Identity.keys : Identity → List (List Char)
  | .event .. => []
  | .content _ keys .. => keys.map String.toList

/-- The fields that the key joins with bars. -/
def Identity.fields : Identity → List (List Char)
  | .event sourceName sourceEventId payloadSchemaVersion =>
    [sourceName.toList, sourceEventId.toList, payloadSchemaVersion.toList]
  | .content sourceName keys eventType bucket rawHash =>
    [sourceName.toList, join ',' (keys.map String.toList), eventType.toList, (toString bucket).toList, rawHash.toList]

/-- The parts between the bars, or those between the commas of the entity keys, do not tell the two apart:
    the same parts make up other fields, or other keys. -/
def Ambiguous (i j : Identity) : Prop :=
  Regrouped '|' i.fields j.fields ∨ (i.fields = j.fields ∧ Regrouped ',' i.keys j.keys)

section
variable {i j : Identity}

theorem Identity.fields_ne_nil (i : Identity) : i.fields ≠ [] := by
  cases i <;> simp [Identity.fields]

theorem Identity.ext_fields (hfields : i.fields = j.fields) (hkeys : i.keys = j.keys) : i = j := by
  cases i with
  | event s id v =>
    cases j with
    | event s' id' v' =>
      simp only [Identity.fields, List.cons.injEq, String.toList_inj, and_true] at hfields
      rw [hfields.1, hfields.2.1, hfields.2.2]
    | content => simp [Identity.fields] at hfields
  | content s keys t b h =>
    cases j with
    | event => simp [Identity.fields] at hfields
    | content s' keys' t' b' h' =>
      simp only [Identity.fields, List.cons.injEq, String.toList_inj, and_true] at hfields
      obtain ⟨hsource, -, htype, hbucket, hhash⟩ := hfields
      have hmap : keys = keys' := List.map_injective_iff.mpr (fun _ _ h => String.toList_inj.mp h) hkeys
      rw [hsource, hmap, htype, intText_injective hbucket, hhash]

/-- Equal fields have equal entity keys, joined. -/
theorem join_keys_eq (hfields : i.fields = j.fields) : join ',' i.keys = join ',' j.keys := by
  cases i with
  | event =>
    cases j with
    | event => rfl
    | content => simp [Identity.fields] at hfields
  | content =>
    cases j with
    | event => simp [Identity.fields] at hfields
    | content =>
      simp only [Identity.fields, List.cons.injEq] at hfields
      exact hfields.2.1

/-- Identities with nonempty entity keys have one key text only where they are one, unless they are ambiguous. -/
theorem join_fields_iff (hi : ∀ k ∈ i.keys, k ≠ []) (hj : ∀ k ∈ j.keys, k ≠ []) :
    (join '|' i.fields = join '|' j.fields ↔ i = j) ↔ ¬Ambiguous i j := by
  constructor
  · rintro hiff (⟨hne, hparts⟩ | ⟨hfields, hne, -⟩)
    · apply hne
      rw [hiff.mp ((join_eq_iff i.fields_ne_nil j.fields_ne_nil).mpr hparts)]
    · apply hne
      rw [hiff.mp (by rw [hfields])]
  · intro hamb
    constructor
    · intro hjoin
      -- the bars give the fields, and the commas then the entity keys
      have hfields : i.fields = j.fields :=
        (join_inj_iff i.fields_ne_nil j.fields_ne_nil).mpr (fun h => hamb (Or.inl h)) hjoin
      have hkeys : i.keys = j.keys :=
        eq_of_join_eq hi hj (fun h => hamb (Or.inr ⟨hfields, h⟩)) (join_keys_eq hfields)
      exact Identity.ext_fields hfields hkeys
    · rintro rfl
      rfl

/-- Fields without bars and entity keys without commas are told apart. -/
theorem not_ambiguous (hi : ∀ f ∈ i.fields, '|' ∉ f) (hj : ∀ f ∈ j.fields, '|' ∉ f)
    (hi' : ∀ k ∈ i.keys, ',' ∉ k) (hj' : ∀ k ∈ j.keys, ',' ∉ k) : ¬Ambiguous i j := by
  rintro (h | ⟨-, h⟩)
  · exact not_regrouped hi hj h
  · exact not_regrouped hi' hj' h

end

/-! ## The keys of payloads -/

section
variable {p q : RawPayload}

theorem toList_idempotencyKey (raw : RawPayload) : (idempotencyKey raw).toList = join '|' raw.identity.fields := by
  rw [idempotencyKey, RawPayload.identity]
  cases raw.sourceEventId with
  | some id => simp [join, Identity.fields, String.toList_append]
  | none => simp [join, Identity.fields, String.toList_append, String.toList_intercalate]

theorem idempotencyKey_eq_iff :
    idempotencyKey p = idempotencyKey q ↔ join '|' p.identity.fields = join '|' q.identity.fields := by
  rw [← toList_idempotencyKey, ← toList_idempotencyKey, String.toList_inj]

/-- An entity key starts with its kind. -/
theorem mem_entityKeys {raw : RawPayload} {key : String} (h : key ∈ entityKeys raw) :
    ∃ rest, key = "token:" ++ rest ∨ key = "wallet:" ++ rest := by
  rw [entityKeys, normalizeEntityKeys] at h
  cases hobj : raw.payload.asObject with
  | none => simp [hobj] at h
  | some obj =>
    have hmem : key ∈
        ((addressAt obj "token" "mint").map fun addr => "token:" ++ raw.chain.asStr ++ ":" ++ addr).toList ++
          ((addressAt obj "wallet" "from").map fun w => "wallet:" ++ raw.chain.asStr ++ ":" ++ w).toList := by
      simp only [hobj, Option.bind_eq_bind, Option.bind_some] at h
      split at h
      · cases h
      · exact h
    rw [List.mem_append, Option.mem_toList, Option.mem_toList, Option.map_eq_some_iff, Option.map_eq_some_iff] at hmem
    obtain ⟨addr, -, rfl⟩ | ⟨addr, -, rfl⟩ := hmem
    · exact ⟨_, Or.inl (by rw [String.append_assoc, String.append_assoc])⟩
    · exact ⟨_, Or.inr (by rw [String.append_assoc, String.append_assoc])⟩

theorem keys_ne (raw : RawPayload) : ∀ k ∈ raw.identity.keys, k ≠ [] := by
  intro k hk
  have hmem : ∃ key ∈ entityKeys raw, key.toList = k := by
    rw [RawPayload.identity] at hk
    cases hid : raw.sourceEventId with
    | some id => simp [hid, Identity.keys] at hk
    | none => simpa [hid, Identity.keys] using hk
  obtain ⟨key, hkey, rfl⟩ := hmem
  obtain ⟨rest, rfl | rfl⟩ := mem_entityKeys hkey
  · simp [String.toList_append]
  · simp [String.toList_append]

theorem key_identity_iff : (idempotencyKey p = idempotencyKey q ↔ p.identity = q.identity) ↔
    ¬Ambiguous p.identity q.identity := by
  rw [idempotencyKey_eq_iff]
  exact join_fields_iff (keys_ne p) (keys_ne q)

/-! ## Committed payloads -/

/-- The store once the payloads have been appended and their keys committed. -/
def committedStore (payloads : List RawPayload) : IdempotencyStore :=
  payloads.foldl (fun idem c => idem.commit (idempotencyKey c) ⟨idempotencyKey c⟩) ⟨[]⟩

theorem contains_committedStore (payloads : List RawPayload) (key : String) :
    (committedStore payloads).contains key = true ↔ ∃ c ∈ payloads, idempotencyKey c = key := by
  induction payloads using List.reverseRecOn with
  | nil => simp [committedStore, IdempotencyStore.contains]
  | append_singleton payloads c ih =>
    rw [committedStore, List.foldl_concat, ← committedStore, IdempotencyStore.commit, if_pos (beq_self_eq_true _),
      IdempotencyStore.contains, List.contains_iff_mem, List.mem_insert_iff]
    rw [IdempotencyStore.contains, List.contains_iff_mem] at ih
    simp only [ih, List.mem_append, List.mem_singleton]
    constructor
    · rintro (rfl | ⟨c', hc', hkey⟩)
      · exact ⟨c, Or.inr rfl, rfl⟩
      · exact ⟨c', Or.inl hc', hkey⟩
    · rintro ⟨c', hc' | rfl, hkey⟩
      · exact Or.inr ⟨c', hc', hkey⟩
      · exact Or.inl hkey.symm

theorem runPipeline_deduped {idem : IdempotencyStore} (h : (runPipeline p idem).deduped = true) :
    idem.contains (idempotencyKey p) = true := by
  rw [runPipeline] at h
  split at h
  · cases h
  · split at h
    · assumption
    · cases h

/-- The keys of two payloads are equal exactly where the payloads are identified alike, and a payload is only
    taken for a duplicate where one identified alike was committed, if and only if it is ambiguous with none of
    the committed payloads. -/
theorem identify_iff (p : RawPayload) (payloads : List RawPayload) :
    ((∀ q ∈ payloads, (idempotencyKey p = idempotencyKey q ↔ p.identity = q.identity)) ∧
      ((runPipeline p (committedStore payloads)).deduped = true → ∃ q ∈ payloads, p.identity = q.identity)) ↔
      ∀ q ∈ payloads, ¬Ambiguous p.identity q.identity := by
  constructor
  · rintro ⟨hkeys, -⟩ q hq
    exact key_identity_iff.mp (hkeys q hq)
  · intro hamb
    have hkeys : ∀ q ∈ payloads, (idempotencyKey p = idempotencyKey q ↔ p.identity = q.identity) :=
      fun q hq => key_identity_iff.mpr (hamb q hq)
    refine ⟨hkeys, fun hdeduped => ?_⟩
    obtain ⟨q, hq, hkey⟩ := (contains_committedStore payloads _).mp (runPipeline_deduped hdeduped)
    exact ⟨q, hq, (hkeys q hq).mp hkey.symm⟩

end

def transferOf (sourceName id : String) : RawPayload :=
  ⟨.solana, sourceName, some id, "transfer", "1", "h", 0, .null⟩

/-- An event of another source is taken for a duplicate. -/
theorem other_source_deduped :
    validEnvelope (transferOf "a" "b|c") = true ∧ validEnvelope (transferOf "a|b" "c") = true ∧
    (transferOf "a" "b|c").identity ≠ (transferOf "a|b" "c").identity ∧
    idempotencyKey (transferOf "a" "b|c") = idempotencyKey (transferOf "a|b" "c") ∧
    (runPipeline (transferOf "a" "b|c") (committedStore [transferOf "a|b" "c"])).deduped = true := by
  decide +kernel

end WhaleIntelligence.Ingest
