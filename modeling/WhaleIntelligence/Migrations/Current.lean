import WhaleIntelligence.Migrations.Ledger

/- Whether a migration that succeeds leaves a current schema.

   What a run does to a row depends on that row and its file alone (`settled`), so a
   run succeeds exactly when no row is refused (`migrateLoop_ok_iff`), and it is
   current exactly when every row carries its file's digest and a provenance
   (`ensureSchemaCurrent_ok_iff`). The two disagree on one kind of row: a digest
   without a provenance is declared a baseline without being compared. -/
namespace WhaleIntelligence.Migrations
open WhaleIntelligence

/-! ## Rows by name -/

section
variable {l : Ledger} {name other recorded digest : String} {r : LedgerRow}

theorem Ledger.row_of_mem (h : r ∈ l.rows) : l.row r.name = some r := by
  cases hf : l.row r.name with
  | none => exact absurd (List.find?_eq_none.mp hf r h) (by simp)
  | some s =>
    have hname : s.name = r.name := by simpa using List.find?_some hf
    rw [List.inj_on_of_nodup_map l.names_nodup (List.mem_of_find?_eq_some hf) h hname]

theorem Ledger.mem_of_row (h : l.row name = some r) : r ∈ l.rows ∧ r.name = name :=
  ⟨List.mem_of_find?_eq_some h, by simpa using List.find?_some h⟩

/-- An `UPDATE` by name changes the row of that name. -/
theorem Ledger.row_declareBaseline (h : l.row name = some r) : (l.declareBaseline name recorded).row other =
    if other = name then some { r with sha256 := some recorded, digestOrigin := some .baseline }
    else l.row other := by
  obtain ⟨hr, rfl⟩ := l.mem_of_row h
  split
  · rename_i heq
    subst heq
    have hmem : { r with sha256 := some recorded, digestOrigin := some .baseline } ∈
        (l.declareBaseline r.name recorded).rows :=
      List.mem_map.mpr ⟨r, hr, if_pos rfl⟩
    exact Ledger.row_of_mem hmem
  · rename_i hne
    simp only [Ledger.row, Ledger.declareBaseline, List.find?_map]
    have hsame : ∀ s ∈ l.rows, s.name = other → (if s.name = r.name then
        { s with sha256 := some recorded, digestOrigin := some .baseline } else s) = s := by
      intro s _ hs
      rw [if_neg fun h => hne (hs.symm.trans h)]
    have hpred : (fun s : LedgerRow => decide (s.name = other)) ∘ (fun s => if s.name = r.name then
        { s with sha256 := some recorded, digestOrigin := some .baseline } else s) =
        fun s => decide (s.name = other) := by
      funext s
      show decide (LedgerRow.name (if _ then _ else _) = other) = _
      split <;> rfl
    rw [hpred]
    cases hf : l.rows.find? fun s => decide (s.name = other) with
    | none => rfl
    | some s =>
      have hs : s.name = other := by simpa using List.find?_some hf
      rw [Option.map_some, hsame s (List.mem_of_find?_eq_some hf) hs]

theorem Ledger.row_insertApplied (fresh : l.row name = none) : (l.insertApplied name digest fresh).row other =
    if other = name then some ⟨name, some digest, some .applied⟩ else l.row other := by
  simp only [Ledger.row, Ledger.insertApplied, List.find?_append]
  split
  · rename_i heq
    have hnone : (l.rows.find? fun s => decide (s.name = name)) = none := fresh
    rw [heq, hnone]
    simp
  · rename_i hne
    simp [Ne.symm hne]

/-! ## Recorded digests -/

theorem recordedDigest_baseline (d : String) : recordedDigest (baselinePrefix ++ d) = d := by
  rw [recordedDigest, stripPrefix_append, Option.getD_some]

/-- Without the prefix the recorded value is the digest itself. -/
theorem recordedDigest_self (h : ¬ isBaseline recorded = true) : recordedDigest recorded = recorded := by
  rw [isBaseline, Option.isSome_iff_ne_none, ne_eq, not_not] at h
  rw [recordedDigest, h, Option.getD_none]

/-- An observed digest has no prefix to strip: a colon is not a hexadecimal digit. -/
theorem recordedDigest_sha256 (h : isSha256 digest = true) : recordedDigest digest = digest := by
  rw [recordedDigest, stripPrefix]
  split
  · rename_i hprefix
    exfalso
    have hcolon : ':' ∈ digest.toList :=
      (List.isPrefixOf_iff_prefix.mp hprefix).subset (by decide)
    simp only [isSha256, Bool.and_eq_true, List.all_eq_true] at h
    exact absurd (h.2 ':' hcolon) (by decide)
  · rfl

end

/-! ## The verification -/

/-- The row carries the digest, behind a baseline prefix or not, and says where it comes from. -/
def RowCurrent (digest : String) (row : LedgerRow) : Prop :=
  (∃ recorded, row.sha256 = some recorded ∧ recordedDigest recorded = digest) ∧ row.digestOrigin ≠ none

section
variable {x : Crates} {bundle : MigrationBundle x} {ledger : Ledger}

/-- What the scan asks of a file. -/
def Fine (ledger : Ledger) (file : String × String) : Prop :=
  ∃ row recorded, ledger.row file.1 = some row ∧ row.sha256 = some recorded ∧ recordedDigest recorded = file.2

def Findings.Clean (f : Findings) : Prop := f.pending = [] ∧ f.mismatched = [] ∧ f.unverifiable = []

theorem Findings.not_clean_addMismatch {f g : Findings} {name r d : String} (h : f.addMismatch name r d = .ok g) :
    ¬ g.Clean := by
  rw [Findings.addMismatch] at h
  split at h
  · cases h
    simp [Findings.Clean]
  · cases h

/-- A file without a digest in the ledger is not fine. -/
theorem not_fine {name digest : String} (h : (ledger.row name).bind LedgerRow.sha256 = none) :
    ¬ Fine ledger (name, digest) := by
  intro hfine
  obtain ⟨row, recorded, hrow, hsha, -⟩ := hfine
  rw [hrow, Option.bind_some, hsha] at h
  cases h

theorem fine_iff {name digest recorded : String} {row : LedgerRow} (hrow : ledger.row name = some row)
    (hsha : row.sha256 = some recorded) : Fine ledger (name, digest) ↔ recordedDigest recorded = digest := by
  refine ⟨fun h => ?_, fun h => ⟨row, recorded, hrow, hsha, h⟩⟩
  obtain ⟨row', recorded', h, hs, hd⟩ := h
  rw [hrow] at h
  cases h
  rw [hsha] at hs
  cases hs
  exact hd

/-- A round of the scan finds something exactly where its file is not fine. -/
theorem Findings.scan_cases (f : Findings) (ledger : Ledger) (file : String × String) :
    (Fine ledger file ∧ ∃ g, f.scan ledger file = .ok g ∧ (g.Clean ↔ f.Clean)) ∨
      (¬ Fine ledger file ∧ ∀ g, f.scan ledger file = .ok g → ¬ g.Clean) := by
  obtain ⟨name, digest⟩ := file
  cases hrow : ledger.row name with
  | none =>
    refine Or.inr ⟨not_fine (by rw [hrow]; rfl), fun g hg => ?_⟩
    simp only [Findings.scan, hrow, Except.ok.injEq] at hg
    subst hg
    simp [Findings.Clean]
  | some row =>
    cases hsha : row.sha256 with
    | none =>
      refine Or.inr ⟨not_fine (by rw [hrow, Option.bind_some, hsha]), fun g hg => ?_⟩
      simp only [Findings.scan, hrow, hsha, Except.ok.injEq] at hg
      subst hg
      simp [Findings.Clean]
    | some recorded =>
      rw [fine_iff hrow hsha]
      by_cases hd : recordedDigest recorded = digest
      · refine Or.inl ⟨hd, ?_⟩
        by_cases hb : isBaseline recorded = true
        · refine ⟨{ f with baseline := f.baseline ++ [name] }, ?_, Iff.rfl⟩
          simp only [Findings.scan, hrow, hsha, hb, hd, if_true, ne_eq, not_true, if_false]
        · refine ⟨f, ?_, Iff.rfl⟩
          rw [recordedDigest_self hb] at hd
          subst hd
          simp only [Findings.scan, hrow, hsha, if_neg hb, ne_eq, not_true, if_false]
      · refine Or.inr ⟨hd, fun g hg => ?_⟩
        by_cases hb : isBaseline recorded = true
        · simp only [Findings.scan, hrow, hsha, hb, hd, if_true, ne_eq, not_false_iff] at hg
          exact not_clean_addMismatch hg
        · rw [recordedDigest_self hb] at hd
          simp only [Findings.scan, hrow, hsha, if_neg hb, hd, ne_eq, not_false_iff, if_true] at hg
          exact not_clean_addMismatch hg

theorem scans_cases (ledger : Ledger) (files : List (String × String)) (f : Findings) :
    ((∀ file ∈ files, Fine ledger file) ∧ ∃ g, files.foldlM (Findings.scan ledger) f = .ok g ∧ (g.Clean ↔ f.Clean)) ∨
      ((¬ ∀ file ∈ files, Fine ledger file) ∧
        ∀ g, files.foldlM (Findings.scan ledger) f = .ok g → ¬ g.Clean) := by
  -- once something is found it stays found
  have hkeep : ∀ (files : List (String × String)) (f g : Findings), ¬ f.Clean →
      files.foldlM (Findings.scan ledger) f = .ok g → ¬ g.Clean := by
    intro files
    induction files with
    | nil =>
      intro f g hf hg
      cases hg
      exact hf
    | cons file files ih =>
      intro f g hf hg
      rw [List.foldlM_cons] at hg
      cases hscan : f.scan ledger file with
      | error e => rw [hscan] at hg; cases hg
      | ok f' =>
        rw [hscan] at hg
        refine ih f' g ?_ hg
        obtain ⟨-, f'', hf'', hclean⟩ | ⟨-, hbad⟩ := f.scan_cases ledger file
        · rw [hscan] at hf''
          cases hf''
          exact fun h => hf (hclean.mp h)
        · exact hbad f' hscan
  induction files generalizing f with
  | nil => exact Or.inl ⟨fun _ h => absurd h List.not_mem_nil, f, rfl, Iff.rfl⟩
  | cons file files ih =>
    simp only [List.foldlM_cons, List.forall_mem_cons]
    obtain ⟨hfine, f', hscan, hclean⟩ | ⟨hnot, hbad⟩ := f.scan_cases ledger file
    · rw [hscan]
      obtain ⟨hall, g, hg, hiff⟩ | ⟨hnall, hg⟩ := ih f'
      · exact Or.inl ⟨⟨hfine, hall⟩, g, hg, hiff.trans hclean⟩
      · exact Or.inr ⟨fun h => hnall h.2, hg⟩
    · refine Or.inr ⟨fun h => hnot h.1, fun g hg => ?_⟩
      cases hscan : f.scan ledger file with
      | error e => rw [hscan] at hg; cases hg
      | ok f' =>
        rw [hscan] at hg
        exact hkeep files f' g (hbad f' hscan) hg

theorem unknown_isEmpty_iff (names : List String) :
    ((ledger.rows.map LedgerRow.name).filter fun n => !names.contains n).isEmpty = true ↔
      ∀ row ∈ ledger.rows, row.name ∈ names := by
  simp only [List.isEmpty_iff, List.filter_eq_nil_iff, List.forall_mem_map, Bool.not_eq_eq_eq_not,
    Bool.not_true, Bool.not_eq_false, List.contains_iff_mem]

theorem unprovenanced_isEmpty_iff :
    ((ledger.rows.filter fun r => r.sha256.isSome && r.digestOrigin.isNone).map LedgerRow.name).isEmpty = true ↔
      ∀ row ∈ ledger.rows, row.sha256 ≠ none → row.digestOrigin ≠ none := by
  simp only [List.isEmpty_iff, List.map_eq_nil_iff, List.filter_eq_nil_iff, Bool.and_eq_true,
    Option.isNone_iff_eq_none, not_and, Option.isSome_iff_ne_none, ne_eq]

/-- What the scan finds is reported. -/
theorem ensureSchemaCurrent_of_dirty (h : ∀ g, (bundle.entries.map fun e => (e.1, migrationSha256 x e.2)).foldlM
    (Findings.scan ledger) ⟨[], [], [], []⟩ = .ok g → ¬ g.Clean) : ensureSchemaCurrent bundle ledger ≠ .ok () := by
  rw [ensureSchemaCurrent]
  cases hg : (bundle.entries.map fun e => (e.1, migrationSha256 x e.2)).foldlM (Findings.scan ledger)
      ⟨[], [], [], []⟩ with
  | error e => simp [bind, Except.bind]
  | ok g =>
    have hdirty := h g hg
    simp only [bind, Except.bind]
    intro h
    split at h
    · cases h
    · rename_i hp
      split at h
      · cases h
      · rename_i hm
        split at h
        · cases h
        · split at h
          · cases h
          · rename_i hu
            simp only [Bool.not_eq_true', Bool.not_eq_false, List.isEmpty_iff] at hp hm hu
            exact hdirty ⟨hp, hm, hu⟩

/-- The verification passes when every file has a current row and every row has a file. -/
theorem ensureSchemaCurrent_ok_iff : ensureSchemaCurrent bundle ledger = .ok () ↔
    (∀ e ∈ bundle.entries, ∃ row, ledger.row e.1 = some row ∧ RowCurrent (migrationSha256 x e.2) row) ∧
      ∀ row ∈ ledger.rows, row.name ∈ bundle.entries.map Prod.fst := by
  have hnames : (bundle.entries.map fun e => (e.1, migrationSha256 x e.2)).map Prod.fst =
      bundle.entries.map Prod.fst := by
    rw [List.map_map]
    rfl
  obtain ⟨hfine, g, hg, hclean⟩ | ⟨hnot, hbad⟩ := scans_cases ledger
    (bundle.entries.map fun e => (e.1, migrationSha256 x e.2)) ⟨[], [], [], []⟩
  · obtain ⟨hp, hm, hu⟩ := hclean.mpr ⟨rfl, rfl, rfl⟩
    rw [ensureSchemaCurrent]
    simp only [hg, hnames, hp, hm, hu, bind, Except.bind, List.isEmpty_nil, Bool.not_true, Bool.false_eq_true,
      if_false, Bool.not_eq_true', ← Bool.not_eq_true, unknown_isEmpty_iff, unprovenanced_isEmpty_iff]
    refine ⟨fun h => ?_, fun h => ?_⟩
    · split at h
      · cases h
      · split at h
        · cases h
        · rename_i hkn hpr
          rw [not_not] at hkn hpr
          refine ⟨fun e he => ?_, hkn⟩
          obtain ⟨row, recorded, hrow, hsha, hd⟩ := hfine _ (List.mem_map_of_mem he)
          refine ⟨row, hrow, ⟨recorded, hsha, hd⟩, hpr row (ledger.mem_of_row hrow).1 ?_⟩
          rw [hsha]
          exact Option.some_ne_none _
    · rw [if_neg (not_not.mpr h.2), if_neg]
      rw [not_not]
      intro row hrow _
      obtain ⟨e, he, hname⟩ := List.mem_map.mp (h.2 row hrow)
      obtain ⟨row', hrow', hcurrent⟩ := h.1 e he
      rw [hname, ledger.row_of_mem hrow] at hrow'
      cases hrow'
      exact hcurrent.2
  · refine ⟨fun h => absurd h (ensureSchemaCurrent_of_dirty hbad), fun h => absurd (fun file hfile => ?_) hnot⟩
    obtain ⟨e, he, rfl⟩ := List.mem_map.mp hfile
    obtain ⟨row, hrow, ⟨recorded, hsha, hd⟩, -⟩ := h.1 e he
    exact ⟨row, recorded, hrow, hsha, hd⟩

end

/-! ## The loop -/

/-- What a round makes of the row of its file, `none` when it bails. -/
def settled (acceptLegacyBaseline : Bool) (name digest : String) : Option LedgerRow → Option LedgerRow
  | none => some ⟨name, some digest, some .applied⟩
  | some row =>
    match row.sha256, row.digestOrigin with
    | some recorded, none =>
      if acceptLegacyBaseline then
        some { row with
          sha256 := some (baselinePrefix ++ recordedDigest recorded), digestOrigin := some .baseline }
      else none
    | none, _ =>
      if acceptLegacyBaseline then
        some { row with sha256 := some (baselinePrefix ++ digest), digestOrigin := some .baseline }
      else none
    | some recorded, some _ => if recordedDigest recorded = digest then some row else none

section
variable {x : Crates} {bundle : MigrationBundle x} {consent : Bool} {db : Database} {e : String × String}
  {es : List (String × String)} {row row' : LedgerRow} {name digest recorded : String}

/-- A round either bails, or it settles the row of its file and leaves every other alone. -/
theorem migrateRow_cases (consent : Bool) (he : e ∈ bundle.entries) (hrow : db.ledger.row e.1 = some row) :
    (settled consent e.1 (migrationSha256 x e.2) (some row) = none ∧
        ∃ err, migrateRow bundle consent db e.1 (migrationSha256 x e.2) row = .error err) ∨
      ∃ row' db', settled consent e.1 (migrationSha256 x e.2) (some row) = some row' ∧
        migrateRow bundle consent db e.1 (migrationSha256 x e.2) row = .ok db' ∧
        ∀ name, db'.ledger.row name = if name = e.1 then some row' else db.ledger.row name := by
  have hmanifest : bundle.manifestDigest e.1 = some (migrationSha256 x e.2) := bundle.reviewed e he
  simp only [migrateRow, settled]
  cases row.sha256 with
  | none =>
    simp only [hmanifest, if_true]
    cases consent with
    | true => exact Or.inr ⟨_, _, rfl, rfl, fun name => Ledger.row_declareBaseline hrow⟩
    | false => exact Or.inl ⟨rfl, _, rfl⟩
  | some recorded =>
    cases row.digestOrigin with
    | none =>
      cases consent with
      | true => exact Or.inr ⟨_, _, rfl, rfl, fun name => Ledger.row_declareBaseline hrow⟩
      | false => exact Or.inl ⟨rfl, _, rfl⟩
    | some origin =>
      by_cases hd : recordedDigest recorded = migrationSha256 x e.2
      · simp only [hd, if_true, ne_eq, not_true, if_false]
        refine Or.inr ⟨row, db, rfl, rfl, fun name => ?_⟩
        split
        · rename_i hname
          rw [hname, hrow]
        · rfl
      · simp only [hd, if_false, ne_eq, not_false_iff, if_true]
        exact Or.inl ⟨trivial, _, rfl⟩

theorem migrateEntry_cases (consent : Bool) (db : Database) (he : e ∈ bundle.entries) :
    (settled consent e.1 (migrationSha256 x e.2) (db.ledger.row e.1) = none ∧
        ∃ err, migrateEntry bundle consent db e = .error err) ∨
      ∃ row' db', settled consent e.1 (migrationSha256 x e.2) (db.ledger.row e.1) = some row' ∧
        migrateEntry bundle consent db e = .ok db' ∧
        ∀ name, db'.ledger.row name = if name = e.1 then some row' else db.ledger.row name := by
  rw [migrateEntry]
  split
  · rename_i row hrow
    have hcases := migrateRow_cases consent he hrow
    rw [hrow]
    exact hcases
  · rename_i hrow
    refine Or.inr ⟨_, _, ?_, rfl, fun name => Ledger.row_insertApplied hrow⟩
    rw [hrow, settled]

/-- The loop succeeds when no row is refused. -/
theorem migrateLoop_ok_iff (hes : ∀ e ∈ es, e ∈ bundle.entries) (hd : (es.map Prod.fst).Nodup) :
    (migrateLoop bundle consent es db).1 = .ok () ↔
      ∀ e ∈ es, settled consent e.1 (migrationSha256 x e.2) (db.ledger.row e.1) ≠ none := by
  induction es generalizing db with
  | nil => exact ⟨fun _ e he => absurd he List.not_mem_nil, fun _ => rfl⟩
  | cons e es ih =>
    have hes' : ∀ e' ∈ es, e' ∈ bundle.entries := fun e' he' => hes e' (List.mem_cons_of_mem _ he')
    obtain ⟨hfirst, hd'⟩ := List.nodup_cons.mp hd
    rw [migrateLoop, List.forall_mem_cons]
    obtain ⟨hnone, err, herr⟩ | ⟨row', db', hsome, hok, hrows⟩ :=
      migrateEntry_cases consent db (hes e List.mem_cons_self)
    · rw [herr]
      exact ⟨fun h => (by cases h), fun h => absurd hnone h.1⟩
    · rw [hok]
      dsimp only
      rw [ih hes' hd', hsome]
      have hsame : ∀ e' ∈ es, db'.ledger.row e'.1 = db.ledger.row e'.1 := by
        intro e' he'
        rw [hrows, if_neg]
        intro heq
        exact hfirst (heq ▸ List.mem_map_of_mem he')
      refine ⟨fun h => ⟨Option.some_ne_none _, fun e' he' => ?_⟩, fun h e' he' => ?_⟩
      · rw [← hsame e' he']
        exact h e' he'
      · rw [hsame e' he']
        exact h.2 e' he'

/-- What a run that succeeds leaves at the names it went through. -/
theorem migrateLoop_row (hes : ∀ e ∈ es, e ∈ bundle.entries) (hd : (es.map Prod.fst).Nodup)
    (hok : (migrateLoop bundle consent es db).1 = .ok ()) :
    (∀ e ∈ es, (migrateLoop bundle consent es db).2.ledger.row e.1 =
      settled consent e.1 (migrationSha256 x e.2) (db.ledger.row e.1)) ∧
    ∀ name, name ∉ es.map Prod.fst → (migrateLoop bundle consent es db).2.ledger.row name = db.ledger.row name := by
  induction es generalizing db with
  | nil => exact ⟨fun e he => absurd he List.not_mem_nil, fun _ _ => rfl⟩
  | cons e es ih =>
    have hes' : ∀ e' ∈ es, e' ∈ bundle.entries := fun e' he' => hes e' (List.mem_cons_of_mem _ he')
    obtain ⟨hfirst, hd'⟩ := List.nodup_cons.mp hd
    rw [migrateLoop] at hok ⊢
    obtain ⟨hnone, err, herr⟩ | ⟨row', db', hsome, hentry, hrows⟩ :=
      migrateEntry_cases consent db (hes e List.mem_cons_self)
    · rw [herr] at hok
      cases hok
    · rw [hentry] at hok ⊢
      obtain ⟨hin, hout⟩ := ih hes' hd' hok
      refine ⟨List.forall_mem_cons.mpr ⟨?_, fun e' he' => ?_⟩, fun name hname => ?_⟩
      · rw [hout e.1 hfirst, hrows, if_pos rfl, hsome]
      · have hne : e'.1 ≠ e.1 := fun h => hfirst (h ▸ List.mem_map_of_mem he')
        rw [hin e' he', hrows, if_neg hne]
      · rw [List.map_cons, List.mem_cons, not_or] at hname
        rw [hout name hname.2, hrows, if_neg hname.1]

/-- A recorded digest stays, or a consented baseline takes its place. -/
def Kept (consent : Bool) (recorded : String) (row : Option LedgerRow) : Prop :=
  ∃ r, row = some r ∧ (r.sha256 = some recorded ∨
    (consent = true ∧ ∃ d, r.sha256 = some (baselinePrefix ++ d)))

theorem settled_kept (h : Kept consent recorded (some row))
    (hs : settled consent name digest (some row) = some row') : Kept consent recorded (some row') := by
  obtain ⟨r, hr, hsha⟩ := h
  cases hr
  simp only [settled] at hs
  split at hs
  · split at hs
    · rename_i hconsent
      cases hs
      exact ⟨_, rfl, Or.inr ⟨hconsent, _, rfl⟩⟩
    · cases hs
  · split at hs
    · rename_i hconsent
      cases hs
      exact ⟨_, rfl, Or.inr ⟨hconsent, _, rfl⟩⟩
    · cases hs
  · split at hs
    · cases hs
      exact ⟨_, rfl, hsha⟩
    · cases hs

/-- Whether it succeeds or not, a run keeps every recorded digest that no consented baseline replaces. -/
theorem migrateLoop_kept (hes : ∀ e ∈ es, e ∈ bundle.entries) (h : Kept consent recorded (db.ledger.row name)) :
    Kept consent recorded ((migrateLoop bundle consent es db).2.ledger.row name) := by
  induction es generalizing db with
  | nil => exact h
  | cons e es ih =>
    have hes' : ∀ e' ∈ es, e' ∈ bundle.entries := fun e' he' => hes e' (List.mem_cons_of_mem _ he')
    rw [migrateLoop]
    obtain ⟨-, err, herr⟩ | ⟨row', db', hsome, hentry, hrows⟩ :=
      migrateEntry_cases consent db (hes e List.mem_cons_self)
    · rw [herr]
      exact h
    · rw [hentry]
      refine ih hes' ?_
      rw [hrows]
      split
      · rename_i hname
        obtain ⟨r, hr, hsha⟩ := h
        rw [hname] at hr
        rw [hr] at hsome
        exact settled_kept ⟨r, rfl, hsha⟩ hsome
      · exact h

/-- A run over current rows does nothing. -/
theorem migrateLoop_current
    (h : ∀ e ∈ es, ∃ row, db.ledger.row e.1 = some row ∧ RowCurrent (migrationSha256 x e.2) row) :
    migrateLoop bundle consent es db = (.ok (), db) := by
  induction es with
  | nil => rfl
  | cons e es ih =>
    obtain ⟨row, hrow, ⟨recorded, hsha, hd⟩, horigin⟩ := h e List.mem_cons_self
    obtain ⟨origin, horigin⟩ := Option.ne_none_iff_exists'.mp horigin
    have hround : migrateEntry bundle consent db e = .ok db := by
      rw [migrateEntry]
      split
      · rename_i row' hrow'
        rw [hrow] at hrow'
        cases hrow'
        simp only [migrateRow, hsha, horigin, hd, ne_eq, not_true, if_false]
      · rename_i hnone
        rw [hrow] at hnone
        cases hnone
    rw [migrateLoop, hround]
    exact ih fun e' he' => h e' (List.mem_cons_of_mem _ he')

/-- A settled row is current, unless it had a digest of unknown history that is not its file's. -/
theorem settled_current_iff {old : Option LedgerRow} (hdigest : isSha256 digest = true)
    (hs : settled consent name digest old = some row') : RowCurrent digest row' ↔
      ∀ row recorded, old = some row → row.sha256 = some recorded → row.digestOrigin = none →
        recordedDigest recorded = digest := by
  cases old with
  | none =>
    cases hs
    refine ⟨fun _ row recorded h => (by cases h), fun _ => ?_⟩
    exact ⟨⟨digest, rfl, recordedDigest_sha256 hdigest⟩, Option.some_ne_none _⟩
  | some row =>
    simp only [settled] at hs
    split at hs
    · rename_i recorded hsha horigin
      split at hs
      · cases hs
        refine ⟨fun h row'' r hrow hr _ => ?_, fun h => ?_⟩
        · obtain ⟨⟨recorded', hsha', hd⟩, -⟩ := h
          cases hrow
          cases hsha'
          rw [hsha] at hr
          cases hr
          rw [recordedDigest_baseline] at hd
          exact hd
        · have hd := h row recorded rfl hsha horigin
          exact ⟨⟨_, rfl, by rw [recordedDigest_baseline, hd]⟩, Option.some_ne_none _⟩
      · cases hs
    · rename_i hsha
      split at hs
      · cases hs
        refine ⟨fun _ row'' r hrow hr => ?_, fun _ => ?_⟩
        · cases hrow
          rw [hsha] at hr
          cases hr
        · exact ⟨⟨_, rfl, recordedDigest_baseline _⟩, Option.some_ne_none _⟩
      · cases hs
    · rename_i recorded origin hsha horigin
      split at hs
      · rename_i hd
        cases hs
        refine ⟨fun _ row'' r hrow _ ho => ?_, fun _ => ⟨⟨recorded, hsha, hd⟩, ?_⟩⟩
        · cases hrow
          rw [horigin] at ho
          cases ho
        · rw [horigin]
          exact Option.some_ne_none _
      · cases hs

end

/-! ## `migrate` and `ensure_schema_current` -/

section
variable {x : Crates} (bundle : MigrationBundle x) (consent : Bool) (db : Database)

/-- A run that succeeds leaves a current ledger, on which another run does nothing; and no run changes a
    recorded digest but to a baseline that was consented to. -/
def MigrateImpliesCurrent : Prop :=
  ((migrateBundleWith bundle consent db).1 = .ok () →
    ensureSchemaCurrent bundle (migrateBundleWith bundle consent db).2.ledger = .ok () ∧
    ∀ consent', migrateBundleWith bundle consent' (migrateBundleWith bundle consent db).2 =
      (.ok (), (migrateBundleWith bundle consent db).2)) ∧
  ∀ name row recorded, db.ledger.row name = some row → row.sha256 = some recorded →
    ∃ row', (migrateBundleWith bundle consent db).2.ledger.row name = some row' ∧
      (row'.sha256 = some recorded ∨ (consent = true ∧ ∃ d, row'.sha256 = some (baselinePrefix ++ d)))

/-- A row with a provenance has another digest than its file. -/
def Edited : Prop :=
  ∃ e ∈ bundle.entries, ∃ row recorded, db.ledger.row e.1 = some row ∧ row.sha256 = some recorded ∧
    row.digestOrigin ≠ none ∧ recordedDigest recorded ≠ migrationSha256 x e.2

/-- Every digest without a provenance is the one of its file. -/
def ProvenancelessAgree : Prop :=
  ∀ e ∈ bundle.entries, ∀ row recorded, db.ledger.row e.1 = some row → row.sha256 = some recorded →
    row.digestOrigin = none → recordedDigest recorded = migrationSha256 x e.2

variable {bundle consent db}

theorem migrateBundleWith_ok_iff : (migrateBundleWith bundle consent db).1 = .ok () ↔
    ∀ e ∈ bundle.entries, settled consent e.1 (migrationSha256 x e.2) (db.ledger.row e.1) ≠ none :=
  migrateLoop_ok_iff (fun _ h => h) bundle.distinct

theorem migrateBundleWith_current (hagree : ProvenancelessAgree bundle db)
    (hok : (migrateBundleWith bundle consent db).1 = .ok ()) : ∀ e ∈ bundle.entries,
      ∃ row, (migrateBundleWith bundle consent db).2.ledger.row e.1 = some row ∧
        RowCurrent (migrationSha256 x e.2) row := by
  intro e he
  obtain ⟨row, hrow⟩ := Option.ne_none_iff_exists'.mp (migrateBundleWith_ok_iff.mp hok e he)
  refine ⟨row, ?_, (settled_current_iff (bundle.isSha256_entry he) hrow).mpr (hagree e he)⟩
  rw [← hrow]
  exact (migrateLoop_row (fun _ h => h) bundle.distinct hok).1 e he

/-- A run that succeeds adds no names but those of its files. -/
theorem migrateBundleWith_names (hnames : ∀ row ∈ db.ledger.rows, row.name ∈ bundle.entries.map Prod.fst)
    (hok : (migrateBundleWith bundle consent db).1 = .ok ()) :
    ∀ row ∈ (migrateBundleWith bundle consent db).2.ledger.rows, row.name ∈ bundle.entries.map Prod.fst := by
  intro row hrow
  by_contra hout
  have hsame := (migrateLoop_row (fun _ h => h) bundle.distinct hok).2 row.name hout
  have hold : db.ledger.row row.name = some row := hsame.symm.trans (Ledger.row_of_mem hrow)
  exact hout (hnames row (Ledger.mem_of_row hold).1)

/-- With the consent only an edited file is refused. -/
theorem consented_ok (hedited : ¬ Edited bundle db) : (migrateBundleWith bundle true db).1 = .ok () := by
  refine migrateBundleWith_ok_iff.mpr fun e he hnone => ?_
  cases hrow : db.ledger.row e.1 with
  | none =>
    rw [hrow] at hnone
    cases hnone
  | some row =>
    rw [hrow] at hnone
    simp only [settled, if_true] at hnone
    split at hnone
    · cases hnone
    · cases hnone
    · rename_i recorded origin hsha horigin
      split at hnone
      · cases hnone
      · rename_i hd
        exact hedited ⟨e, he, row, recorded, hrow, hsha, by rw [horigin]; exact Option.some_ne_none _, hd⟩

/-- A run that succeeds has refused no row, so it met no edited file, nor a digest of unknown history without the
consent. -/
theorem agree_of_ok (h : consent = false ∨ Edited bundle db ∨ ProvenancelessAgree bundle db)
    (hok : (migrateBundleWith bundle consent db).1 = .ok ()) : ProvenancelessAgree bundle db := by
  obtain rfl | hedited | hagree := h
  · intro e he row recorded hrow hsha horigin
    have hsettled := migrateBundleWith_ok_iff.mp hok e he
    rw [hrow] at hsettled
    simp [settled, hsha, horigin] at hsettled
  · obtain ⟨e, he, row, recorded, hrow, hsha, horigin, hd⟩ := hedited
    obtain ⟨origin, horigin⟩ := Option.ne_none_iff_exists'.mp horigin
    have hsettled := migrateBundleWith_ok_iff.mp hok e he
    rw [hrow] at hsettled
    simp [settled, hsha, horigin, hd] at hsettled
  · exact hagree

/-- Exactly when a run that succeeds is a run that leaves the schema current: without the consent, where a
    row is refused, and where every digest of unknown history is the one of its file. -/
theorem migrateImpliesCurrent_iff (hnames : ∀ row ∈ db.ledger.rows, row.name ∈ bundle.entries.map Prod.fst) :
    MigrateImpliesCurrent bundle consent db ↔
      consent = false ∨ Edited bundle db ∨ ProvenancelessAgree bundle db := by
  refine ⟨fun h => ?_, fun h => ⟨fun hok => ?_, fun name row recorded hrow hsha => ?_⟩⟩
  · -- with consent and without a refusal the run succeeds, so it has to be current
    by_contra hno
    simp only [not_or, Bool.not_eq_false] at hno
    obtain ⟨rfl, hedited, hdisagree⟩ := hno
    have hok := consented_ok hedited
    obtain ⟨hcurrent, -⟩ := ensureSchemaCurrent_ok_iff.mp (h.1 hok).1
    refine hdisagree fun e he => ?_
    obtain ⟨row', hrow', hrc⟩ := hcurrent e he
    have hsettled := (migrateLoop_row (fun _ h => h) bundle.distinct hok).1 e he
    rw [show (migrateLoop bundle true bundle.entries db).2.ledger.row e.1 = some row' from hrow'] at hsettled
    exact (settled_current_iff (bundle.isSha256_entry he) hsettled.symm).mp hrc
  · have hcurrent := migrateBundleWith_current (agree_of_ok h hok) hok
    exact ⟨ensureSchemaCurrent_ok_iff.mpr ⟨hcurrent, migrateBundleWith_names hnames hok⟩,
      fun consent' => migrateLoop_current hcurrent⟩
  · exact migrateLoop_kept (fun _ h => h) ⟨row, hrow, Or.inl hsha⟩

end

/-! ## A bundle of one file -/

def oneFileCrates : Crates :=
  tableCrates [] [] [(utf8 "SELECT 1;", "17db4fd369edb9244b9f91d9aeed145c3d04ad8ba6e95d06247f07a63527d11a")]

def oneFileBundle : MigrationBundle oneFileCrates where
  source := "migrations"
  entries := [("0001_initial.sql", "SELECT 1;")]
  manifest := [("0001_initial.sql", "17db4fd369edb9244b9f91d9aeed145c3d04ad8ba6e95d06247f07a63527d11a")]
  sorted := List.pairwise_singleton _ _
  distinct := List.nodup_singleton _
  reviewed := by decide +kernel
  present := by decide +kernel
  digests := by decide +kernel

/-- The row an earlier build left, with this digest and no provenance. -/
def backfilled (digest : String) : Database where
  ledger := ⟨[⟨"0001_initial.sql", some digest, none⟩], List.nodup_singleton _⟩
  executed := []

/-- The digest of the file itself is declared a baseline and verifies. -/
theorem backfilled_current : MigrateImpliesCurrent oneFileBundle true
    (backfilled "17db4fd369edb9244b9f91d9aeed145c3d04ad8ba6e95d06247f07a63527d11a") := by
  refine (migrateImpliesCurrent_iff (by decide +kernel)).mpr (Or.inr (Or.inr ?_))
  intro e he row recorded hrow hsha _
  rw [List.mem_singleton.mp he] at hrow ⊢
  cases hrow
  cases hsha
  decide +kernel

/-- The digest of another text is declared a baseline too, and every start then refuses it. -/
theorem backfilled_stale : ¬ MigrateImpliesCurrent oneFileBundle true
    (backfilled "8e7003d62f9d8cbd28da2f243bb0d215bfd4622c716be09be89a8764d9f4c7cb") := by
  intro h
  have hok : (migrateBundleWith oneFileBundle true
      (backfilled "8e7003d62f9d8cbd28da2f243bb0d215bfd4622c716be09be89a8764d9f4c7cb")).1 = .ok () := by
    decide +kernel
  have hcurrent := (h.1 hok).1
  revert hcurrent
  decide +kernel

end WhaleIntelligence.Migrations
