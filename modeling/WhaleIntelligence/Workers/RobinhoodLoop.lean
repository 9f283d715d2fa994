import Mathlib.Logic.Function.Basic
import WhaleIntelligence.Lib.Runs
import WhaleIntelligence.Rust

/- `robinhood_funding_loop`: the loop that polls blocks for the funding radar.

   An iteration reads the persisted cursor, fetches the next blocks up to the head
   or a hundred of them, ingests the transfers of each and writes the cursor. What
   it does is the list of its effects, and a run is the effects of its iterations.
   How each call ends is up to the iteration (`Tick`).

   The cursor is also written after a fetch that failed and after ingestions that
   failed. So it is sound exactly as long as those writes fail: then every block
   behind it was fetched and ingested (`robinhoodFundingLoop_sound`). -/
namespace WhaleIntelligence.Workers
open WhaleIntelligence Runs

/-! ## The persisted cursor -/

/-- A row of `chain_sync_state`. -/
structure SyncRow where
  cursor : Option String
  lastError : Option String
  deriving DecidableEq, Repr

/-- The rows by chain and stream kind. -/
abbrev SyncTable := String × String → Option SyncRow

def getSyncCursor (table : SyncTable) (chain streamKind : String) : Option String :=
  (table (chain, streamKind)).bind SyncRow.cursor

def setSyncCursor (table : SyncTable) (chain streamKind cursor : String) (lastError : Option String) : SyncTable :=
  Function.update table (chain, streamKind) (some ⟨some cursor, lastError⟩)

/-- The block that the loop takes the persisted cursor for. -/
def persisted (table : SyncTable) : Nat := ((getSyncCursor table "robinhood" "funding").bind u64FromStr).getD 0

/-! ## An iteration -/

/-- What one iteration meets: the queue policy, the head height, and how each of its
calls ends. The transfers of a block are told apart by their places. -/
structure Tick (τ : Type) where
  queueAllowed : Bool
  currentBlock : Except String Nat
  cursorReads : Bool
  fetchBlockEvents : Nat → Except String (List τ)
  ingests : Nat → Nat → Bool
  writes : Nat → Bool

/-- What an iteration does. -/
inductive Effect (τ : Type) where
  | fetched (block : Nat) (transfers : List τ)
  | fetchFailed (block : Nat) (error : String)
  | ingested (block : Nat) (transfer : τ) (ok : Bool)
  | setCursor (block : Nat) (lastError : Option String) (ok : Bool)
  deriving DecidableEq, Repr

section
variable {τ : Type}

def ingestAll (t : Tick τ) (block : Nat) (transfers : List τ) : List (Effect τ) :=
  transfers.mapIdx fun i transfer => .ingested block transfer (t.ingests block i)

/-- The loop over the blocks. A failed fetch breaks it. -/
def pollBlocks (t : Tick τ) : List Nat → List (Effect τ)
  | [] => []
  | block :: rest =>
    match t.fetchBlockEvents block with
    | .ok transfers =>
      .fetched block transfers :: ingestAll t block transfers ++ .setCursor block none (t.writes block) ::
        pollBlocks t rest
    | .error err => [.fetchFailed block err, .setCursor block (some err) (t.writes block)]

/-- `(cursor + 1)..=current.min(cursor + 100)`, in 64 bits. -/
def blockRange (cursor current : Nat) : List Nat :=
  List.range' ((cursor + 1) % 2 ^ 64) (min current ((cursor + 100) % 2 ^ 64) + 1 - (cursor + 1) % 2 ^ 64)

/-- The cursor that an iteration starts from; one that cannot be read counts as zero. -/
def cursorAt (t : Tick τ) (table : SyncTable) : Nat := if t.cursorReads then persisted table else 0

/-- The blocks that an iteration sets out to poll. -/
def tickBlocks (t : Tick τ) (table : SyncTable) : List Nat :=
  if t.queueAllowed then
    match t.currentBlock with
    | .ok current => blockRange (cursorAt t table) current
    | .error _ => []
  else []

def pollTick (t : Tick τ) (table : SyncTable) : List (Effect τ) := pollBlocks t (tickBlocks t table)

/-- The table at some moment of a run, and the effects before it. -/
structure Moment (τ : Type) where
  table : SyncTable
  seen : List (Effect τ)

def Moment.after (m : Moment τ) (e : Effect τ) : Moment τ where
  table := match e with
    | .setCursor block lastError true => setSyncCursor m.table "robinhood" "funding" block.repr lastError
    | _ => m.table
  seen := m.seen ++ [e]

/-- The effects of the iterations, each from the table that those before it left. -/
def robinhoodFundingLoop : Moment τ → List (Tick τ) → List (Effect τ)
  | _, [] => []
  | m, t :: later =>
    pollTick t m.table ++ robinhoodFundingLoop ((pollTick t m.table).foldl Moment.after m) later

/-! ## Soundness of the cursor -/

/-- The block was fetched, and everything the fetch returned was ingested. -/
def Done (block : Nat) (seen : List (Effect τ)) : Prop :=
  ∃ transfers, .fetched block transfers :: transfers.map (.ingested block · true) <:+: seen

/-- Every block from `first` up to the cursor is done. -/
def CursorSound (first : Nat) (m : Moment τ) : Prop :=
  ∀ block, first < block → block ≤ persisted m.table → Done block m.seen

/-- The fetch of the block fails, or the ingestion of a transfer of it. -/
def Tick.Fails (t : Tick τ) (block : Nat) : Prop :=
  match t.fetchBlockEvents block with
  | .ok transfers => ∃ i < transfers.length, t.ingests block i = false
  | .error _ => True

/-- The blocks that the loop comes to. -/
def Tick.reached (t : Tick τ) : List Nat → List Nat
  | [] => []
  | block :: rest =>
    match t.fetchBlockEvents block with
    | .ok _ => block :: t.reached rest
    | .error _ => [block]

/-- From a block that fails on no write succeeds. -/
def Tick.Careful (t : Tick τ) (blocks : List Nat) : Prop :=
  ∀ failed ∈ t.reached blocks, t.Fails failed → ∀ block ∈ t.reached blocks, failed ≤ block → t.writes block = false

/-- All iterations of the run are careful. -/
def Careful : Moment τ → List (Tick τ) → Prop
  | _, [] => True
  | m, t :: later =>
    t.Careful (tickBlocks t m.table) ∧ Careful ((pollTick t m.table).foldl Moment.after m) later

/-! ## Effects that leave the cursor -/

/-- A cursor write that succeeds. -/
def Effect.Writes (e : Effect τ) : Prop := ∃ block lastError, e = .setCursor block lastError true

variable {t : Tick τ} {m : Moment τ} {e : Effect τ} {es : List (Effect τ)} {first block start : Nat}
variable {blocks : List Nat} {transfers : List τ}

theorem after_table (h : ¬ e.Writes) : (m.after e).table = m.table := by
  cases e with
  | setCursor block lastError ok =>
    cases ok with
    | true => exact absurd ⟨block, lastError, rfl⟩ h
    | false => rfl
  | fetched block transfers => rfl
  | fetchFailed block error => rfl
  | ingested block transfer ok => rfl

theorem after_seen (m : Moment τ) (e : Effect τ) : (m.after e).seen = m.seen ++ [e] := rfl

theorem foldl_after_seen (m : Moment τ) (es : List (Effect τ)) : (es.foldl Moment.after m).seen = m.seen ++ es := by
  induction es generalizing m with
  | nil => rw [List.foldl_nil, List.append_nil]
  | cons e es ih => rw [List.foldl_cons, ih, after_seen, List.append_assoc, List.singleton_append]

theorem Done.append {seen : List (Effect τ)} (h : Done block seen) (es : List (Effect τ)) :
    Done block (seen ++ es) := by
  obtain ⟨transfers, hin⟩ := h
  exact ⟨transfers, hin.trans (List.prefix_append seen es).isInfix⟩

theorem CursorSound.kept (h : CursorSound first m) (he : ¬ e.Writes) : CursorSound first (m.after e) := by
  intro block hlo hhi
  rw [after_table he] at hhi
  exact (h block hlo hhi).append [e]

/-- The cursor stays sound as long as nothing is written. -/
theorem CursorSound.always (h : CursorSound first m) (hes : ∀ e ∈ es, ¬ e.Writes) :
    Always Moment.after (CursorSound first) m es :=
  always_of_kept h fun e he _ hs => hs.kept (hes e he)

theorem not_writes_ingested {seen : Effect τ} (h : seen ∈ .fetched block transfers :: ingestAll t block transfers) :
    ¬ seen.Writes := by
  intro hw
  obtain ⟨b, lastError, rfl⟩ := hw
  rcases List.mem_cons.mp h with h | h
  · cases h
  · obtain ⟨i, hi, heq⟩ := List.mem_mapIdx.mp h
    cases heq

theorem reached_subset (t : Tick τ) (blocks : List Nat) : t.reached blocks ⊆ blocks := by
  induction blocks with
  | nil => exact List.Subset.refl _
  | cons block rest ih =>
    rw [Tick.reached]
    split
    · exact List.cons_subset_cons block ih
    · exact List.cons_subset_cons block (List.nil_subset _)

/-- The cursor is written for the blocks that the loop comes to. -/
theorem setCursor_reached {lastError : Option String} {ok : Bool}
    (h : .setCursor block lastError ok ∈ pollBlocks t blocks) : block ∈ t.reached blocks ∧ ok = t.writes block := by
  induction blocks with
  | nil => exact absurd h List.not_mem_nil
  | cons first rest ih =>
    rw [pollBlocks] at h
    rw [Tick.reached]
    cases hf : t.fetchBlockEvents first with
    | ok transfers =>
      simp only [hf, ingestAll, List.cons_append, List.mem_cons, List.mem_append, List.mem_mapIdx, reduceCtorEq,
        exists_false, false_or, Effect.setCursor.injEq] at h
      rcases h with ⟨rfl, -, rfl⟩ | h
      · exact ⟨List.mem_cons_self, rfl⟩
      · exact ⟨List.mem_cons_of_mem _ (ih h).1, (ih h).2⟩
    | error err =>
      simp only [hf, List.mem_cons, reduceCtorEq, false_or, Effect.setCursor.injEq, List.not_mem_nil, or_false] at h
      obtain ⟨rfl, -, rfl⟩ := h
      exact ⟨List.mem_cons_self, rfl⟩

/-- Where no write of the blocks succeeds the cursor stays. -/
theorem not_writes_pollBlocks (h : ∀ block ∈ t.reached blocks, t.writes block = false) :
    ∀ e ∈ pollBlocks t blocks, ¬ e.Writes := by
  intro e he hw
  obtain ⟨block, lastError, rfl⟩ := hw
  obtain ⟨hreached, hok⟩ := setCursor_reached he
  rw [h block hreached] at hok
  cases hok

/-! ## One iteration -/

theorem persisted_setCursor (table : SyncTable) (lastError : Option String) (h : block < 2 ^ 64) :
    persisted (setSyncCursor table "robinhood" "funding" block.repr lastError) = block := by
  have hcursor : getSyncCursor (setSyncCursor table "robinhood" "funding" block.repr lastError) "robinhood" "funding" =
      some block.repr := by
    rw [getSyncCursor, setSyncCursor, Function.update_self]
    rfl
  rw [persisted, hcursor]
  show (u64FromStr block.repr).getD 0 = block
  rw [u64FromStr_repr h]
  rfl

/-- Where all transfers are ingested the block is done. -/
theorem ingestAll_done (h : ∀ i < transfers.length, t.ingests block i = true) (seen : List (Effect τ)) :
    Done block (seen ++ (.fetched block transfers :: ingestAll t block transfers)) := by
  have hall : ingestAll t block transfers = transfers.map (.ingested block · true) := by
    apply List.ext_getElem (by simp [ingestAll])
    intro i hi hi'
    simp only [ingestAll, List.length_mapIdx] at hi
    simp [ingestAll, h i hi]
  rw [hall]
  exact ⟨transfers, (List.suffix_append _ _).isInfix⟩

/-- The step: once a block is done its write keeps the cursor sound. -/
theorem CursorSound.write (hblock : block < 2 ^ 64) (hdone : ∀ b, first < b → b < block + 1 → Done b m.seen)
    (h : CursorSound first m) (lastError : Option String) (ok : Bool) :
    CursorSound first (m.after (.setCursor block lastError ok)) := by
  cases ok with
  | false => exact h.kept fun hw => by obtain ⟨b, err, heq⟩ := hw; cases heq
  | true =>
    intro b hlo hhi
    rw [Moment.after, persisted_setCursor m.table lastError hblock] at hhi
    exact (hdone b hlo (Nat.lt_succ_of_le hhi)).append _

/-- A block that does not fail is fetched, and all of its transfers are ingested. -/
theorem fetched_of_not_fails (h : ¬ t.Fails block) : ∃ transfers, t.fetchBlockEvents block = .ok transfers ∧
    ∀ i < transfers.length, t.ingests block i = true := by
  rw [Tick.Fails] at h
  cases hf : t.fetchBlockEvents block with
  | error err =>
    rw [hf] at h
    exact absurd trivial h
  | ok transfers =>
    rw [hf] at h
    refine ⟨transfers, rfl, fun i hi => ?_⟩
    cases hok : t.ingests block i with
    | true => rfl
    | false => exact absurd ⟨i, hi, hok⟩ h

/-- What is left of a careful iteration is careful. -/
theorem Tick.Careful.rest (hf : t.fetchBlockEvents block = .ok transfers) (hc : t.Careful (block :: blocks)) :
    t.Careful blocks := by
  have hreached : t.reached (block :: blocks) = block :: t.reached blocks := by rw [Tick.reached, hf]
  rw [Tick.Careful, hreached] at hc
  intro failed hfailed hfails b hb hle
  exact hc failed (List.mem_cons_of_mem _ hfailed) hfails b (List.mem_cons_of_mem _ hb) hle

/-- From a block that fails on a careful iteration keeps the cursor where it is. -/
theorem CursorSound.failing {n : Nat} (hs : CursorSound first m) (hc : t.Careful (List.range' start (n + 1)))
    (hfail : t.Fails start) :
    Always Moment.after (CursorSound first) m (pollBlocks t (List.range' start (n + 1))) := by
  have hhead : start ∈ t.reached (List.range' start (n + 1)) := by
    rw [List.range'_succ, Tick.reached]
    split <;> exact List.mem_cons_self
  apply hs.always
  apply not_writes_pollBlocks
  intro b hb
  exact hc start hhead hfail b hb (List.mem_range'_1.mp (reached_subset t _ hb)).1

/-- A careful iteration over consecutive blocks keeps the cursor sound, when the
blocks before them are done. -/
theorem pollBlocks_sound : ∀ (n start : Nat) (m : Moment τ), start + n ≤ 2 ^ 64 →
    (∀ b, first < b → b < start → Done b m.seen) → CursorSound first m → t.Careful (List.range' start n) →
    Always Moment.after (CursorSound first) m (pollBlocks t (List.range' start n))
  | 0, _, _, _, _, hs, _ => hs
  | n + 1, start, m, hn, hbefore, hs, hc => by
    by_cases hfail : t.Fails start
    · exact hs.failing hc hfail
    · obtain ⟨transfers, hf, hall⟩ := fetched_of_not_fails hfail
      rw [List.range'_succ] at hc ⊢
      rw [pollBlocks, hf]
      have hkept : ∀ e ∈ .fetched start transfers :: ingestAll t start transfers, ¬ Effect.Writes e :=
        fun e he => not_writes_ingested he
      simp only
      apply always_append.mpr
      refine ⟨hs.always hkept, ?_⟩
      -- the block is done before its cursor is written
      have hdone : ∀ b, first < b → b < start + 1 →
          Done b ((.fetched start transfers :: ingestAll t start transfers).foldl Moment.after m).seen := by
        intro b hlo hhi
        rw [foldl_after_seen]
        rcases Nat.lt_succ_iff_lt_or_eq.mp hhi with hlt | rfl
        · exact (hbefore b hlo hlt).append _
        · exact ingestAll_done hall _
      have hmid : CursorSound first
          ((.fetched start transfers :: ingestAll t start transfers).foldl Moment.after m) :=
        (hs.always hkept).last
      refine ⟨hmid, pollBlocks_sound n (start + 1) _ (by omega) ?_ (hmid.write (by omega) hdone none _)
        (hc.rest hf)⟩
      intro b hlo hhi
      exact (hdone b hlo hhi).append _

/-- An iteration starts behind no block that is not done. -/
theorem pollTick_sound (hs : CursorSound first m) (hc : t.Careful (tickBlocks t m.table)) :
    Always Moment.after (CursorSound first) m (pollTick t m.table) := by
  have hcursor : cursorAt t m.table ≤ persisted m.table := by
    rw [cursorAt]
    split
    · exact le_rfl
    · exact Nat.zero_le _
  rw [pollTick]
  rw [tickBlocks] at hc ⊢
  split at hc
  · rw [if_pos (by assumption)]
    cases hcur : t.currentBlock with
    | error err => exact hs
    | ok current =>
      rw [hcur] at hc
      have hstart := Nat.mod_le (cursorAt t m.table + 1) (2 ^ 64)
      have hstart' := Nat.mod_lt (cursorAt t m.table + 1) (Nat.two_pow_pos 64)
      have hend := Nat.mod_lt (cursorAt t m.table + 100) (Nat.two_pow_pos 64)
      apply pollBlocks_sound _ _ _ (by omega) _ hs hc
      intro b hlo hhi
      exact hs b hlo (by omega)
  · rw [if_neg (by assumption)]
    exact hs

/-! ## A run -/

theorem loop_sound (ticks : List (Tick τ)) : ∀ m : Moment τ, CursorSound first m → Careful m ticks →
    Always Moment.after (CursorSound first) m (robinhoodFundingLoop m ticks) := by
  induction ticks with
  | nil => exact fun m hs _ => hs
  | cons t later ih =>
    intro m hs hc
    have htick := pollTick_sound hs hc.1
    exact always_append.mpr ⟨htick, ih _ htick.last hc.2⟩

/-- At every moment of a run of careful iterations, every block between the cursor
at its start and the persisted one was fetched, and its transfers were ingested. -/
theorem robinhoodFundingLoop_sound (table : SyncTable) (ticks : List (Tick τ)) (hc : Careful ⟨table, []⟩ ticks) :
    ∀ seen, seen <+: robinhoodFundingLoop ⟨table, []⟩ ticks →
      CursorSound (persisted table) (seen.foldl Moment.after ⟨table, []⟩) :=
  always_iff.mp (loop_sound ticks _ (fun _ hlo hhi => absurd hlo (Nat.not_lt.mpr hhi)) hc)

end

/-! ## Three blocks -/

/-- An iteration that meets the head at block three, with the writes before `ends` alone. -/
def threeBlocks (fetch : Nat → Except String (List String)) (ingests : Nat → Nat → Bool) (ends : Nat) : Tick String :=
  ⟨true, .ok 3, true, fetch, ingests, (· < ends)⟩

def failingFetch : Tick String :=
  threeBlocks (fun b => if b = 1 then .ok ["tx"] else .error "timeout") (fun _ _ => true) 2

def failingIngest : Tick String := threeBlocks (fun _ => .ok ["tx", "ty"]) (fun _ i => i == 0) 2

def failingWrite : Tick String := threeBlocks (fun _ => .ok ["tx"]) (fun _ _ => true) 3

/-- The fetch of block two fails, then the ingestion of its second transfer, then the
cursor write of block three. -/
def troubled : List (Tick String) := [failingFetch, failingIngest, failingWrite]

theorem careful_of_ends {fetch : Nat → Except String (List String)} {ingests : Nat → Nat → Bool} {ends : Nat}
    {blocks : List Nat} (h : ∀ b ∈ blocks, (threeBlocks fetch ingests ends).Fails b → ends ≤ b) :
    (threeBlocks fetch ingests ends).Careful blocks := by
  intro failed hfailed hfails block _ hle
  have hends := h failed (reached_subset _ _ hfailed) hfails
  exact decide_eq_false (Nat.not_lt.mpr (hends.trans hle))

example : robinhoodFundingLoop ⟨fun _ => none, []⟩ troubled =
    [.fetched 1 ["tx"], .ingested 1 "tx" true, .setCursor 1 none true,
      .fetchFailed 2 "timeout", .setCursor 2 (some "timeout") false,
      .fetched 2 ["tx", "ty"], .ingested 2 "tx" true, .ingested 2 "ty" false, .setCursor 2 none false,
      .fetched 3 ["tx", "ty"], .ingested 3 "tx" true, .ingested 3 "ty" false, .setCursor 3 none false,
      .fetched 2 ["tx"], .ingested 2 "tx" true, .setCursor 2 none true,
      .fetched 3 ["tx"], .ingested 3 "tx" true, .setCursor 3 none false] := by decide +kernel

theorem robinhoodFundingLoop_sound_troubled :
    Always Moment.after (CursorSound 0) ⟨fun _ => none, []⟩ (robinhoodFundingLoop ⟨fun _ => none, []⟩ troubled) := by
  have hfirst : tickBlocks failingFetch (fun _ => none) = [1, 2, 3] := by decide +kernel
  have hsecond : tickBlocks failingIngest
      ((pollTick failingFetch fun _ => none).foldl Moment.after ⟨fun _ => none, []⟩).table = [2, 3] := by
    decide +kernel
  have hcareful : Careful ⟨fun _ => none, []⟩ troubled := by
    refine ⟨careful_of_ends fun b hb hfails => ?_, careful_of_ends fun b hb _ => ?_,
      careful_of_ends fun b _ hfails => ?_, trivial⟩
    · -- block one does not fail
      rw [hfirst] at hb
      have hne : b ≠ 1 := by
        rintro rfl
        obtain ⟨i, _, hno⟩ := hfails
        cases hno
      simp only [List.mem_cons, List.not_mem_nil, or_false] at hb
      omega
    · rw [hsecond] at hb
      simp only [List.mem_cons, List.not_mem_nil, or_false] at hb
      omega
    · obtain ⟨i, _, hno⟩ := hfails
      cases hno
  exact always_iff.mpr (robinhoodFundingLoop_sound _ _ hcareful)

/-! ## Two blocks -/

/-- An iteration that meets the head at block two. -/
def twoBlocks (fetch : Nat → Except String (List String)) (ingests : Bool) : Tick String :=
  ⟨true, .ok 2, true, fetch, fun _ _ => ingests, fun _ => true⟩

/-- The fetch of block one fails and its cursor is written. -/
def failedFetch : List (Tick String) := [twoBlocks (fun _ => .error "timeout") true, twoBlocks (fun _ => .ok []) true]

/-- The ingestion of a transfer fails and the cursor passes its block. -/
def failedIngest : List (Tick String) := [twoBlocks (fun _ => .ok ["tx"]) false]

/-- After the failed fetch the next iteration starts at block two, and the failed
ingestion is not repeated. -/
theorem robinhoodFundingLoop_skips :
    robinhoodFundingLoop ⟨fun _ => none, []⟩ failedFetch =
        [.fetchFailed 1 "timeout", .setCursor 1 (some "timeout") true, .fetched 2 [], .setCursor 2 none true] ∧
      ¬ CursorSound 0 ((robinhoodFundingLoop ⟨fun _ => none, []⟩ failedFetch).foldl Moment.after
        ⟨fun _ => none, []⟩) ∧
      robinhoodFundingLoop ⟨fun _ => none, []⟩ failedIngest =
        [.fetched 1 ["tx"], .ingested 1 "tx" false, .setCursor 1 none true,
          .fetched 2 ["tx"], .ingested 2 "tx" false, .setCursor 2 none true] ∧
      ¬ CursorSound 0 ((robinhoodFundingLoop ⟨fun _ => none, []⟩ failedIngest).foldl Moment.after
        ⟨fun _ => none, []⟩) := by
  have hfetch : robinhoodFundingLoop ⟨fun _ => none, []⟩ failedFetch =
      [.fetchFailed 1 "timeout", .setCursor 1 (some "timeout") true, .fetched 2 [], .setCursor 2 none true] := by
    decide +kernel
  have hingest : robinhoodFundingLoop ⟨fun _ => none, []⟩ failedIngest =
      [.fetched 1 ["tx"], .ingested 1 "tx" false, .setCursor 1 none true,
        .fetched 2 ["tx"], .ingested 2 "tx" false, .setCursor 2 none true] := by
    decide +kernel
  refine ⟨hfetch, fun h => ?_, hingest, fun h => ?_⟩
  · rw [hfetch] at h
    obtain ⟨transfers, hin⟩ := h 1 Nat.one_pos (by decide +kernel)
    rw [foldl_after_seen] at hin
    have hfetched := hin.subset List.mem_cons_self
    simp at hfetched
  · rw [hingest] at h
    obtain ⟨transfers, hin⟩ := h 1 Nat.one_pos (by decide +kernel)
    rw [foldl_after_seen] at hin
    have hfetched := hin.subset List.mem_cons_self
    simp only [List.nil_append, List.mem_cons, Effect.fetched.injEq, true_and, reduceCtorEq,
      Nat.reduceEqDiff, false_and, List.not_mem_nil, or_false] at hfetched
    subst hfetched
    have hingested := hin.subset (List.mem_cons_of_mem _ List.mem_cons_self)
    simp at hingested

end WhaleIntelligence.Workers
