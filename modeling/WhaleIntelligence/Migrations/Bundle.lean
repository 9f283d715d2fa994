import Mathlib.Data.String.Basic
import WhaleIntelligence.Lib.Canon
import WhaleIntelligence.Rust

/- The migration bundle: `parse_migration_manifest` and `MigrationBundle::build`.

   A bundle is the SQL files with the manifest of their reviewed digests, and `build`
   checks that the two agree file by file. What it checked is in the type, so that
   a bundle with an unreviewed file cannot be built. An error carries the values that
   its message prints.

   A manifest parses exactly where its lines are well formed and list no name twice
   (`parseMigrationManifest_ok_iff`), and `build` accepts exactly the files that the
   lines review (`build_reviews_iff`). -/
namespace WhaleIntelligence.Migrations
open WhaleIntelligence

/-! ## Digests -/

def migrationManifest : String := "MANIFEST.sha256"

/-- `body.replace("\r\n", "\n")`. -/
def normalizeLineEndings : List Char → List Char
  | '\r' :: '\n' :: l => '\n' :: normalizeLineEndings l
  | c :: l => c :: normalizeLineEndings l
  | [] => []

/-- `migration_sha256`: the digest does not depend on how the lines end. -/
def migrationSha256 (x : Crates) (body : String) : String :=
  x.sha256Hex (utf8 (String.ofList (normalizeLineEndings body.toList)))

/-- `short_digest`: the first twelve bytes; a panic where the twelfth is inside a character. -/
def shortDigest (d : String) : Option String :=
  (splitAtByte d.toList (min d.utf8ByteSize 12)).map fun p => String.ofList p.1

/-- 64 hexadecimal characters, which are as many bytes. -/
def isSha256 (d : String) : Bool := d.toList.length = 64 && d.toList.all isAsciiHexdigit

theorem isAsciiHexdigit_toLower {c : Char} (h : isAsciiHexdigit c = true) : isAsciiHexdigit c.toLower = true := by
  obtain hsame | ⟨hlo, hhi, hlower⟩ := toLower_cases c
  · rw [hsame, h]
  · -- a capital letter is none of the digits and none of the small letters
    simp only [isAsciiHexdigit, Bool.or_eq_true, Bool.and_eq_true, decide_eq_true_eq, Char.le_def,
      UInt32.le_iff_toNat_le] at h ⊢
    have hc : c.toNat = c.val.toNat := rfl
    have hl : c.toLower.toNat = c.toLower.val.toNat := rfl
    have hconst : ('0'.val.toNat = 48 ∧ '9'.val.toNat = 57) ∧ ('a'.val.toNat = 97 ∧ 'f'.val.toNat = 102) ∧
        'A'.val.toNat = 65 ∧ 'F'.val.toNat = 70 := ⟨⟨rfl, rfl⟩, ⟨rfl, rfl⟩, rfl, rfl⟩
    omega

theorem isSha256_toAsciiLowercase {d : String} (h : isSha256 d = true) : isSha256 (toAsciiLowercase d) = true := by
  simp only [isSha256, Bool.and_eq_true, decide_eq_true_eq] at h ⊢
  rw [toAsciiLowercase, String.toList_ofList, List.length_map]
  refine ⟨h.1, List.all_eq_true.mpr fun c hc => ?_⟩
  obtain ⟨b, hb, rfl⟩ := List.mem_map.mp hc
  exact isAsciiHexdigit_toLower (List.all_eq_true.mp h.2 b hb)

/-! ## The manifest -/

inductive BundleError
  | malformed (source : String) (lineno fields : Nat) (line : String)
  | notSha256 (source : String) (lineno : Nat) (digest : String)
  | notSql (source : String) (lineno : Nat) (name : String)
  | listedTwice (source name previous : String) (lineno : Nat)
  | unlisted (source : String) (names : List String)
  | absent (source : String) (names : List String)
  | notReviewed (source name : String) (got want : Option String)
  deriving DecidableEq, Repr

/-- One line of the manifest, with the entries before it. -/
def parseManifestLine (source : String) (recorded : List (String × String)) (numbered : String × Nat) :
    Except BundleError (List (String × String)) :=
  let line := trim numbered.1
  let lineno := numbered.2 + 1
  if line.isEmpty || (stripPrefix "#" line).isSome then .ok recorded
  else
    match splitWhitespace line with
    | [digest, name] =>
      if !isSha256 digest then .error (.notSha256 source lineno digest)
      else if !".sql".toList.isSuffixOf name.toList then .error (.notSql source lineno name)
      else
        match recorded.lookup name with
        | some previous => .error (.listedTwice source name previous lineno)
        | none => .ok (recorded ++ [(name, toAsciiLowercase digest)])
    | fields => .error (.malformed source lineno fields.length line)

/-- `parse_migration_manifest`. The lines of the source also lose a final `\r`, which `trim` takes anyway. -/
def parseMigrationManifest (body source : String) : Except BundleError (List (String × String)) :=
  (((splitWhere (· = '\n') body.toList).map String.ofList).zipIdx).foldlM (parseManifestLine source) []

/-! ## What a manifest lists -/

def manifestLines (body : String) : List String := (splitWhere (· = '\n') body.toList).map String.ofList

/-- A line that is neither blank nor a comment. -/
def significant (line : String) : Bool := !((trim line).isEmpty || (stripPrefix "#" (trim line)).isSome)

/-- The name and the digest of a line with two fields. -/
def listing (line : String) : Option (String × String) :=
  match splitWhitespace (trim line) with
  | [digest, name] => some (name, digest)
  | _ => none

/-- The names that the lines list, with the digests as they are written. -/
def listings (lines : List String) : List (String × String) := (lines.filter significant).filterMap listing

/-- The line is a digest and the name of an SQL file. -/
def WellFormedLine (line : String) : Prop := ∃ digest name, splitWhitespace (trim line) = [digest, name] ∧
  isSha256 digest = true ∧ ".sql".toList.isSuffixOf name.toList = true

/-- The entry of a listing: a digest is kept in small letters. -/
def recordedEntry (l : String × String) : String × String := (l.1, toAsciiLowercase l.2)

section
variable {source line : String} {lineno : Nat} {recorded next : List (String × String)}

theorem parseManifestLine_skip (h : significant line = false) :
    parseManifestLine source recorded (line, lineno) = .ok recorded := by
  rw [significant, Bool.not_eq_false'] at h
  rw [parseManifestLine]
  exact if_pos h

/-- A line of two fields is taken where it is well formed and its name is new. -/
theorem parseManifestLine_fields (h : significant line = true) {digest name : String}
    (hfields : splitWhitespace (trim line) = [digest, name]) :
    parseManifestLine source recorded (line, lineno) = .ok next ↔
      (isSha256 digest = true ∧ ".sql".toList.isSuffixOf name.toList = true) ∧ recorded.lookup name = none ∧
        next = recorded ++ [recordedEntry (name, digest)] := by
  rw [significant, Bool.not_eq_true'] at h
  rw [parseManifestLine, recordedEntry]
  simp only [h, Bool.false_eq_true, if_false, hfields]
  generalize ".sql".toList.isSuffixOf name.toList = sql
  cases isSha256 digest with
  | false => simp
  | true =>
    cases sql with
    | false => simp
    | true =>
      cases recorded.lookup name with
      | some previous => simp
      | none => simp [eq_comm]

/-- A line that counts is taken where it is well formed and its name is new. -/
theorem parseManifestLine_ok_iff (h : significant line = true) :
    parseManifestLine source recorded (line, lineno) = .ok next ↔ WellFormedLine line ∧
      ∃ l, listing line = some l ∧ l.1 ∉ recorded.map Prod.fst ∧ next = recorded ++ [recordedEntry l] := by
  have hnew : ∀ name, recorded.lookup name = none ↔ name ∉ recorded.map Prod.fst := by
    intro name
    rw [List.lookup_eq_none_iff]
    simp only [List.mem_map, not_exists, not_and, bne_iff_ne, ne_eq]
    exact ⟨fun h p hp heq => h p hp heq.symm, fun h p hp heq => h p hp heq.symm⟩
  by_cases htwo : ∃ digest name, splitWhitespace (trim line) = [digest, name]
  · obtain ⟨digest, name, hfields⟩ := htwo
    rw [parseManifestLine_fields h hfields, hnew, WellFormedLine, listing, hfields]
    simp
  · have hmalformed : ∃ e, parseManifestLine source recorded (line, lineno) = .error e := by
      rw [significant, Bool.not_eq_true'] at h
      rw [parseManifestLine]
      simp only [h, Bool.false_eq_true, if_false]
      split
      · rename_i digest name hfields
        exact absurd ⟨digest, name, hfields⟩ htwo
      · exact ⟨_, rfl⟩
    obtain ⟨e, he⟩ := hmalformed
    rw [he]
    refine ⟨fun hok => (by cases hok), fun hok => ?_⟩
    obtain ⟨⟨digest, name, hfields, -⟩, -⟩ := hok
    exact absurd ⟨digest, name, hfields⟩ htwo

theorem listings_skip (h : significant line = false) (lines : List String) :
    listings (line :: lines) = listings lines := by
  rw [listings, listings, List.filter_cons_of_neg (by rw [h]; decide)]

theorem listings_cons (h : significant line = true) {l : String × String} (hl : listing line = some l)
    (lines : List String) : listings (line :: lines) = l :: listings lines := by
  rw [listings, listings, List.filter_cons_of_pos h, List.filterMap_cons_some hl]

theorem WellFormedLine.listing (h : WellFormedLine line) : ∃ l, listing line = some l ∧ isSha256 l.2 = true := by
  obtain ⟨digest, name, hfields, hdigest, -⟩ := h
  exact ⟨(name, digest), by rw [Migrations.listing, hfields], hdigest⟩

/-- A new name keeps the names distinct. -/
theorem nodup_record {l : String × String} (hrecorded : (recorded.map Prod.fst).Nodup)
    (hnew : l.1 ∉ recorded.map Prod.fst) : ((recorded ++ [recordedEntry l]).map Prod.fst).Nodup := by
  rw [List.map_append, List.map_singleton, ← List.concat_eq_append]
  exact List.Nodup.concat hnew hrecorded

/-- From any entries on, the lines are taken where they are well formed and list new names. -/
theorem parseManifestLines_ok_iff {lines : List (String × Nat)} (hrecorded : (recorded.map Prod.fst).Nodup) :
    lines.foldlM (parseManifestLine source) recorded = .ok next ↔
      (∀ l ∈ lines, significant l.1 = true → WellFormedLine l.1) ∧
      (recorded.map Prod.fst ++ (listings (lines.map Prod.fst)).map Prod.fst).Nodup ∧
      next = recorded ++ (listings (lines.map Prod.fst)).map recordedEntry := by
  induction lines generalizing recorded with
  | nil =>
    show (Except.ok recorded = .ok next) ↔ _
    rw [Except.ok.injEq]
    simp only [listings, List.map_nil, List.filter_nil, List.filterMap_nil, List.append_nil, hrecorded, true_and]
    exact ⟨fun h => ⟨fun l hl => absurd hl List.not_mem_nil, h.symm⟩, fun h => h.2.symm⟩
  | cons numbered lines ih =>
    obtain ⟨line, lineno⟩ := numbered
    rw [List.foldlM_cons, List.map_cons, List.forall_mem_cons]
    cases hsig : significant line with
    | false =>
      have hskip : (parseManifestLine source recorded (line, lineno) >>= fun r =>
        lines.foldlM (parseManifestLine source) r) =
          lines.foldlM (parseManifestLine source) recorded := by rw [parseManifestLine_skip hsig]; rfl
      rw [hskip, ih hrecorded, listings_skip hsig]
      simp
    | true =>
      refine ⟨fun hok => ?_, fun hok => ?_⟩
      · cases hline : parseManifestLine source recorded (line, lineno) with
        | error e => rw [hline] at hok; cases hok
        | ok r =>
          obtain ⟨hwell, l, hl, hnew, rfl⟩ := (parseManifestLine_ok_iff hsig).mp hline
          rw [hline] at hok
          obtain ⟨hrest, hnodup, hnext⟩ := (ih (nodup_record hrecorded hnew)).mp hok
          rw [listings_cons hsig hl]
          refine ⟨⟨fun _ => hwell, hrest⟩, ?_, ?_⟩
          · simpa [recordedEntry, List.append_assoc] using hnodup
          · simpa [List.append_assoc] using hnext
      · obtain ⟨⟨hwell, hrest⟩, hnodup, hnext⟩ := hok
        obtain ⟨l, hl, -⟩ := (hwell rfl).listing
        rw [listings_cons hsig hl] at hnodup hnext
        have hnew : l.1 ∉ recorded.map Prod.fst := fun hmem =>
          (List.nodup_append.mp hnodup).2.2 l.1 hmem l.1 (by simp) rfl
        have hline : parseManifestLine source recorded (line, lineno) = .ok (recorded ++ [recordedEntry l]) :=
          (parseManifestLine_ok_iff hsig).mpr ⟨hwell rfl, l, hl, hnew, rfl⟩
        rw [hline]
        refine (ih (nodup_record hrecorded hnew)).mpr ⟨hrest, ?_, ?_⟩
        · simpa [recordedEntry, List.append_assoc] using hnodup
        · simpa [List.append_assoc] using hnext

/-- A manifest parses exactly where its lines are well formed and list no name twice. -/
theorem parseMigrationManifest_ok_iff {body : String} :
    parseMigrationManifest body source = .ok next ↔
      (∀ line ∈ manifestLines body, significant line = true → WellFormedLine line) ∧
      ((listings (manifestLines body)).map Prod.fst).Nodup ∧
      next = (listings (manifestLines body)).map recordedEntry := by
  have hlines : (manifestLines body).zipIdx.map Prod.fst = manifestLines body := List.zipIdx_map_fst _ _
  have hmem : (∀ l ∈ (manifestLines body).zipIdx, significant l.1 = true → WellFormedLine l.1) ↔
      ∀ line ∈ manifestLines body, significant line = true → WellFormedLine line := by
    conv_rhs => rw [← hlines]
    simp only [List.forall_mem_map]
  have hempty : (([] : List (String × String)).map Prod.fst).Nodup := List.nodup_nil
  show (manifestLines body).zipIdx.foldlM (parseManifestLine source) [] = .ok next ↔ _
  rw [parseManifestLines_ok_iff hempty, hlines, hmem, List.map_nil, List.nil_append, List.nil_append]

/-- Every digest of a manifest that parses is a digest. -/
theorem parseMigrationManifest_digests {body : String} (h : parseMigrationManifest body source = .ok recorded) :
    ∀ m ∈ recorded, isSha256 m.2 = true := by
  obtain ⟨hwell, -, rfl⟩ := parseMigrationManifest_ok_iff.mp h
  intro m hm
  obtain ⟨l, hl, rfl⟩ := List.mem_map.mp hm
  obtain ⟨line, hline, hl⟩ := List.mem_filterMap.mp hl
  obtain ⟨hline, hsig⟩ := List.mem_filter.mp hline
  obtain ⟨l', hl', hdigest⟩ := (hwell line hline hsig).listing
  obtain rfl : l = l' := Option.some.inj (hl.symm.trans hl')
  exact isSha256_toAsciiLowercase hdigest

end

/-! ## The bundle -/

/-- The SQL files in the order of their names, with their reviewed digests. -/
structure MigrationBundle (x : Crates) where
  source : String
  entries : List (String × String)
  manifest : List (String × String)
  sorted : entries.Pairwise fun a b => a.1 ≤ b.1
  /-- A directory has one file of a name, and `from_dir` refuses a second. -/
  distinct : (entries.map Prod.fst).Nodup
  reviewed : ∀ e ∈ entries, manifest.lookup e.1 = some (migrationSha256 x e.2)
  present : ∀ m ∈ manifest, m.1 ∈ entries.map Prod.fst
  digests : ∀ m ∈ manifest, isSha256 m.2 = true

/-- The names of `l` that are not in `l'`, as the difference of two `BTreeSet`s lists them. -/
def difference (l l' : List String) : List String := (Canon.canon (· ≤ ·) l).filter fun n => !l'.contains n

theorem difference_isEmpty {l l' : List String} : (difference l l').isEmpty = true ↔ ∀ n ∈ l, n ∈ l' := by
  simp only [difference, List.isEmpty_iff, List.filter_eq_nil_iff, Canon.mem_canon, Bool.not_eq_false,
    List.contains_iff_mem, Bool.not_eq_eq_eq_not, Bool.not_true]

def nameLe (a b : String × String) : Prop := a.1 ≤ b.1

instance : DecidableRel nameLe := fun a b => inferInstanceAs (Decidable (a.1 ≤ b.1))

/-- `MigrationBundle::build`, for files whose names are distinct. -/
def MigrationBundle.build (x : Crates) (source : String) (files : List (String × String))
    (distinct : (files.map Prod.fst).Nodup) (manifestBody : String) : Except BundleError (MigrationBundle x) :=
  let entries := files.insertionSort nameLe
  match hm : parseMigrationManifest manifestBody source with
  | .error e => .error e
  | .ok manifest =>
    let names := entries.map Prod.fst
    let listed := manifest.map Prod.fst
    if hu : (difference names listed).isEmpty then
      if ha : (difference listed names).isEmpty then
        match hf : entries.find? fun e => manifest.lookup e.1 ≠ some (migrationSha256 x e.2) with
        | some e =>
          .error (.notReviewed source e.1 (shortDigest (migrationSha256 x e.2))
            ((manifest.lookup e.1).bind shortDigest))
        | none => .ok {
            source, entries, manifest
            sorted := by
              have : Std.Total nameLe := ⟨fun a b => le_total a.1 b.1⟩
              have : IsTrans (String × String) nameLe := ⟨fun a b c h h' => le_trans (α := String) h h'⟩
              exact List.pairwise_insertionSort nameLe files
            distinct := (((List.perm_insertionSort nameLe files).map Prod.fst).nodup_iff).mpr distinct
            reviewed := by simpa using hf
            present := fun m hmem => difference_isEmpty.mp ha m.1 (List.mem_map_of_mem hmem)
            digests := parseMigrationManifest_digests hm }
      else .error (.absent source (difference listed names))
    else .error (.unlisted source (difference names listed))

namespace MigrationBundle
variable {x : Crates} (bundle : MigrationBundle x)

/-- `manifest_digest`. -/
def manifestDigest (name : String) : Option String := bundle.manifest.lookup name

/-- The digest of a file of the bundle is 64 hexadecimal characters. -/
theorem isSha256_entry {e : String × String} (he : e ∈ bundle.entries) : isSha256 (migrationSha256 x e.2) = true := by
  obtain ⟨l, l', hm, -⟩ := List.lookup_eq_some_iff.mp (bundle.reviewed e he)
  exact bundle.digests (e.1, migrationSha256 x e.2) (by rw [hm]; simp)

end MigrationBundle

/-! ## What is accepted -/

/-- The manifest lines review exactly the files. -/
structure Reviews (x : Crates) (lines : List String) (files : List (String × String)) : Prop where
  wellFormed : ∀ line ∈ lines, significant line = true → WellFormedLine line
  once : ((listings lines).map Prod.fst).Nodup
  names : ∀ name, name ∈ (listings lines).map Prod.fst ↔ name ∈ files.map Prod.fst
  digests : ∀ e ∈ files, ∀ digest, (e.1, digest) ∈ listings lines → toAsciiLowercase digest = migrationSha256 x e.2

section
variable {x : Crates} {source body : String} {files manifest : List (String × String)}
  {distinct : (files.map Prod.fst).Nodup} {bundle : MigrationBundle x}

theorem build_ok (h : MigrationBundle.build x source files distinct body = .ok bundle) :
    parseMigrationManifest body source = .ok bundle.manifest ∧ bundle.entries = files.insertionSort nameLe := by
  unfold MigrationBundle.build at h
  dsimp only at h
  split at h
  · cases h
  · rename_i manifest hm
    split at h
    · split at h
      · split at h
        · cases h
        · obtain rfl := Except.ok.inj h
          exact ⟨hm, rfl⟩
      · cases h
    · cases h

theorem build_of_reviewed (hm : parseMigrationManifest body source = .ok manifest)
    (hnames : ∀ name, name ∈ manifest.map Prod.fst ↔ name ∈ files.map Prod.fst)
    (hdigests : ∀ e ∈ files, manifest.lookup e.1 = some (migrationSha256 x e.2)) :
    ∃ bundle, MigrationBundle.build x source files distinct body = .ok bundle := by
  have hmem : ∀ e, e ∈ files.insertionSort nameLe ↔ e ∈ files := fun e => (List.perm_insertionSort nameLe files).mem_iff
  have hlisted : ∀ name, name ∈ (files.insertionSort nameLe).map Prod.fst ↔ name ∈ manifest.map Prod.fst := by
    intro name
    rw [hnames, ((List.perm_insertionSort nameLe files).map Prod.fst).mem_iff]
  cases hb : MigrationBundle.build x source files distinct body with
  | ok bundle => exact ⟨bundle, rfl⟩
  | error e =>
    -- each of the four errors contradicts what is given
    exfalso
    unfold MigrationBundle.build at hb
    dsimp only at hb
    split at hb
    · rename_i hparse
      rw [hm] at hparse
      cases hparse
    · rename_i manifest' hparse
      obtain rfl : manifest = manifest' := Except.ok.inj (hm.symm.trans hparse)
      split at hb
      · split at hb
        · split at hb
          · rename_i f hf
            have hne := List.find?_some hf
            rw [decide_eq_true_eq] at hne
            exact hne (hdigests f ((hmem f).mp (List.mem_of_find?_eq_some hf)))
          · cases hb
        · rename_i habsent
          exact habsent (difference_isEmpty.mpr fun name hname => (hlisted name).mpr hname)
      · rename_i hunlisted
        exact hunlisted (difference_isEmpty.mpr fun name hname => (hlisted name).mp hname)

theorem map_fst_recorded (l : List (String × String)) : (l.map recordedEntry).map Prod.fst = l.map Prod.fst := by
  rw [List.map_map]
  rfl

/-- With distinct names, the recorded digest of a name is that of its listing. -/
theorem lookup_recorded {l : List (String × String)} (hl : (l.map Prod.fst).Nodup) {name want : String} :
    (l.map recordedEntry).lookup name = some want ↔ ∃ digest, (name, digest) ∈ l ∧ toAsciiLowercase digest = want := by
  induction l with
  | nil => simp
  | cons m l ih =>
    obtain ⟨first, digest⟩ := m
    obtain ⟨hnew, hl⟩ := List.nodup_cons.mp hl
    rw [List.map_cons, recordedEntry, List.lookup_cons]
    by_cases hname : name = first
    · subst hname
      have hother : ∀ d, (name, d) ∉ l := fun d hd => hnew (List.mem_map.mpr ⟨(name, d), hd, rfl⟩)
      simp [hother]
    · have hbeq : (name == first) = false := beq_eq_false_iff_ne.mpr hname
      simp only [hbeq, ih hl]
      simp [hname]

/-- A bundle is built exactly where the manifest reviews the files, and holds the
files in the order of their names. -/
theorem build_reviews_iff (x : Crates) (source : String) (files : List (String × String))
    (distinct : (files.map Prod.fst).Nodup) (manifestBody : String) :
    ((∃ bundle, MigrationBundle.build x source files distinct manifestBody = .ok bundle) ↔
      Reviews x (manifestLines manifestBody) files) ∧
    ∀ bundle, MigrationBundle.build x source files distinct manifestBody = .ok bundle →
      bundle.entries.Perm files ∧ bundle.entries.Pairwise fun a b => a.1 < b.1 := by
  refine ⟨⟨fun h => ?_, fun h => ?_⟩, fun bundle h => ?_⟩
  · obtain ⟨bundle, hbuild⟩ := h
    obtain ⟨hparse, hentries⟩ := build_ok hbuild
    obtain ⟨hwell, hnodup, hmanifest⟩ := parseMigrationManifest_ok_iff.mp hparse
    have hmem : ∀ e, e ∈ bundle.entries ↔ e ∈ files := by
      intro e
      rw [hentries, (List.perm_insertionSort nameLe files).mem_iff]
    have hreviewed : ∀ e ∈ files, ∃ digest, (e.1, digest) ∈ listings (manifestLines manifestBody) ∧
        toAsciiLowercase digest = migrationSha256 x e.2 := by
      intro e he
      rw [← lookup_recorded hnodup, ← hmanifest]
      exact bundle.reviewed e ((hmem e).mpr he)
    refine ⟨hwell, hnodup, fun name => ⟨fun hname => ?_, fun hname => ?_⟩, fun e he digest hdigest => ?_⟩
    · rw [← map_fst_recorded, ← hmanifest] at hname
      obtain ⟨m, hm, rfl⟩ := List.mem_map.mp hname
      obtain ⟨e, he, heq⟩ := List.mem_map.mp (bundle.present m hm)
      exact heq ▸ List.mem_map_of_mem ((hmem e).mp he)
    · obtain ⟨e, he, rfl⟩ := List.mem_map.mp hname
      obtain ⟨digest, hlisted, -⟩ := hreviewed e he
      exact List.mem_map.mpr ⟨(e.1, digest), hlisted, rfl⟩
    · obtain ⟨digest', hlisted, hsha⟩ := hreviewed e he
      have hsame : (e.1, digest) = (e.1, digest') := List.inj_on_of_nodup_map hnodup hdigest hlisted rfl
      rw [(Prod.mk.inj hsame).2, hsha]
  · refine build_of_reviewed (parseMigrationManifest_ok_iff.mpr ⟨h.wellFormed, h.once, rfl⟩)
      (fun name => ?_) fun e he => ?_
    · rw [map_fst_recorded]
      exact h.names name
    · obtain ⟨l, hl, hname⟩ := List.mem_map.mp ((h.names e.1).mpr (List.mem_map_of_mem he))
      have hlisted : (e.1, l.2) ∈ listings (manifestLines manifestBody) := hname ▸ hl
      exact (lookup_recorded h.once).mpr ⟨l.2, hlisted, h.digests e he l.2 hlisted⟩
  · obtain ⟨-, hentries⟩ := build_ok h
    refine ⟨hentries ▸ List.perm_insertionSort nameLe files, ?_⟩
    have hne : bundle.entries.Pairwise fun a b => a.1 ≠ b.1 := List.pairwise_map.mp bundle.distinct
    exact (bundle.sorted.and hne).imp fun h => lt_of_le_of_ne h.1 h.2

end

/-- A file whose line ends with a carriage return, as some checkouts have it. -/
def crlfFile : List (String × String) := [("1001_init.sql", "SELECT 1;\r\n")]

def crlfManifest : String :=
  "# reviewed\n\nB4E0497804E46E0A0B0B8C31975B062152D551BAC49C3C2E80932567B4085DCD  1001_init.sql\r\n"

def crlfCrates : Crates := tableCrates [] []
  [(utf8 "SELECT 1;\n", "b4e0497804e46e0a0b0b8c31975b062152d551bac49c3c2e80932567b4085dcd")]

theorem crlfFile_reviews : Reviews crlfCrates (manifestLines crlfManifest) crlfFile := by
  have hbuilt : (MigrationBundle.build crlfCrates "dir" crlfFile (by decide) crlfManifest).toOption.isSome := by
    decide +kernel
  apply (build_reviews_iff crlfCrates "dir" crlfFile (by decide) crlfManifest).1.mp
  cases hb : MigrationBundle.build crlfCrates "dir" crlfFile (by decide) crlfManifest with
  | ok bundle => exact ⟨bundle, rfl⟩
  | error e =>
    rw [hb] at hbuilt
    cases hbuilt

end WhaleIntelligence.Migrations
