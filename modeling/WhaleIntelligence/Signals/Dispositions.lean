import Mathlib.Data.List.MinMax
import Mathlib.Data.Prod.Lex
import WhaleIntelligence.Lib.Fallible
import WhaleIntelligence.Signals.Alpha

/- Who decides about a wallet: `active_disposition` and its readers.

   A reader folds the active labels of the wallet and keeps the better of two: a manual
   label before an automatic one, then the more restrictive one. That is a minimum of a
   priority (`foldlM_mergeLabel`), and the value of a minimum does not depend on the
   order of the rows, because no two values are equally restrictive. A value that is not
   in the vocabulary ends the fold wherever it stands. -/
namespace WhaleIntelligence.Signals
open WhaleIntelligence Fallible

/-! ## The readers -/

/-- `manual_disposition`. -/
def manualDisposition (dbNow : DateTime) (labels : List LabelRow) (workspaceId : Int) (chain : ChainKind)
    (address : String) : Except String (Option String) := do
  let rows := labels.filter fun row =>
    row.workspaceId == workspaceId && row.chain == chain.asStr && row.address == address && row.manual &&
      row.active dbNow
  let best ← rows.foldlM mergeLabel none
  return best.map fun b => b.2.2

/-- `disposition_stops_traversal`. -/
def dispositionStopsTraversal (disposition : String) : Except String Bool := do
  let rank ← restrictivenessRank disposition
  let flowOnly ← restrictivenessRank "flow_only"
  return decide (rank ≤ flowOnly)

/-! ## The authority -/

/-- The values of a disposition, the most restrictive first. -/
def vocabulary : List String := ["skip", "flow_only", "watch", "score"]

def LabelRow.isOf (row : LabelRow) (workspaceId : Int) (chain : ChainKind) (address : String) : Bool :=
  row.workspaceId == workspaceId && row.chain == chain.asStr && row.address == address

/-- The active labels of a wallet. -/
def activeLabels (dbNow : DateTime) (labels : List LabelRow) (workspaceId : Int) (chain : ChainKind)
    (address : String) : List LabelRow :=
  labels.filter fun row => row.isOf workspaceId chain address && row.active dbNow

/-- The labels that decide: the manual ones, or all where none is manual. -/
def deciding (rows : List LabelRow) : List LabelRow :=
  if rows.any (·.manual) then rows.filter (·.manual) else rows

/-- The value is that of some row, and no row has a more restrictive one. -/
def MostRestrictive (rows : List LabelRow) : Option String → Prop
  | none => rows = []
  | some v => (∃ row ∈ rows, row.disposition = v) ∧
    ∀ row ∈ rows, vocabulary.idxOf v ≤ vocabulary.idxOf row.disposition

/-! ## The fold as a minimum -/

section
variable {rows rows' labels labels' : List LabelRow} {row : LabelRow} {d d' : Option String} {v w : String}
  {dbNow : DateTime} {ws : Int} {chain : ChainKind} {address : String}

theorem restrictivenessRank_known (h : v ∈ vocabulary) : restrictivenessRank v = .ok (vocabulary.idxOf v) := by
  simp only [vocabulary, List.mem_cons, List.not_mem_nil, or_false] at h
  rcases h with rfl | rfl | rfl | rfl
  · rfl
  · rfl
  · rfl
  · rfl

theorem restrictivenessRank_unknown (h : v ∉ vocabulary) : restrictivenessRank v = .error (unknownDisposition v) := by
  simp only [vocabulary, List.mem_cons, List.not_mem_nil, or_false, not_or] at h
  obtain ⟨hskip, hflow, hwatch, hscore⟩ := h
  unfold restrictivenessRank
  split
  · exact absurd rfl hskip
  · exact absurd rfl hflow
  · exact absurd rfl hwatch
  · exact absurd rfl hscore
  · rfl

/-- A label as the fold compares it. -/
def LabelRow.candidate (row : LabelRow) : Bool × Nat × String :=
  (row.manual, vocabulary.idxOf row.disposition, row.disposition)

/-- The order in which candidates are preferred. -/
def priority (c : Bool × Nat × String) : Bool ×ₗ Nat := toLex (!c.1, c.2.1)

theorem overrides_iff (c b : Bool × Nat × String) : overrides c b = true ↔ priority c < priority b := by
  obtain ⟨cm, cr, cv⟩ := c
  obtain ⟨bm, br, bv⟩ := b
  rw [priority, priority, Prod.Lex.toLex_lt_toLex]
  cases cm <;> cases bm <;> simp [overrides]

/-- The fold over labels of the vocabulary. -/
theorem foldlM_mergeLabel (h : ∀ row ∈ rows, row.disposition ∈ vocabulary) :
    rows.foldlM mergeLabel none = .ok ((rows.map LabelRow.candidate).argmin priority) := by
  have hbody : ∀ best row, mergeLabel best row =
      ((restrictivenessRank row.disposition).map fun r => (row.manual, r, row.disposition)).map
        (List.argAux (fun c b => priority c < priority b) best) := by
    intro best row
    rw [mergeLabel]
    cases restrictivenessRank row.disposition with
    | error e => rfl
    | ok r =>
      cases best with
      | none => rfl
      | some b =>
        show Except.ok (some (if overrides _ b = true then _ else _)) = Except.ok (if _ then _ else _)
        simp only [overrides_iff, apply_ite some]
  have hread : ∀ row ∈ rows, ((restrictivenessRank row.disposition).map fun r =>
      (row.manual, r, row.disposition)) = .ok row.candidate := by
    intro row hrow
    rw [restrictivenessRank_known (h row hrow)]
    rfl
  rw [foldlM_eq_mapM hbody, mapM_eq_map hread]
  rfl

theorem foldlM_mergeLabel_unknown (h : ∃ row ∈ rows, row.disposition ∉ vocabulary) :
    ∃ e, rows.foldlM mergeLabel none = .error e := by
  obtain ⟨row, hrow, hunknown⟩ := h
  have hfails : ∀ (rows : List LabelRow) (best : Option (Bool × Nat × String)), row ∈ rows →
      ∃ e, rows.foldlM mergeLabel best = .error e := by
    intro rows
    induction rows with
    | nil => exact fun _ hmem => absurd hmem List.not_mem_nil
    | cons r rows ih =>
      intro best hmem
      rw [List.foldlM_cons]
      cases hr : mergeLabel best r with
      | error e => exact ⟨e, rfl⟩
      | ok best' =>
        rcases List.mem_cons.mp hmem with rfl | hmem
        · rw [mergeLabel, restrictivenessRank_unknown hunknown] at hr
          cases hr
        · exact ih best' hmem
  exact hfails rows none hrow

/-! ## The value of the minimum -/

/-- The minimum is the most restrictive of the labels that decide. -/
theorem mostRestrictive_argmin (rows : List LabelRow) :
    MostRestrictive (deciding rows) (((rows.map LabelRow.candidate).argmin priority).map fun b => b.2.2) := by
  cases hbest : (rows.map LabelRow.candidate).argmin priority with
  | none =>
    rw [List.argmin_eq_none, List.map_eq_nil_iff] at hbest
    rw [hbest]
    rfl
  | some b =>
    obtain ⟨row, hrow, rfl⟩ := List.mem_map.mp (List.argmin_mem hbest)
    have hleast : ∀ r ∈ rows, priority row.candidate ≤ priority r.candidate := fun r hr =>
      List.le_of_mem_argmin (List.mem_map_of_mem hr) hbest
    -- a manual label is not behind an automatic one
    have hmanual : ∀ r ∈ rows, r.manual = true → row.manual = true := by
      intro r hr hm
      have hle := hleast r hr
      rw [priority, priority, Prod.Lex.toLex_le_toLex] at hle
      cases hrow' : row.manual with
      | true => rfl
      | false =>
        have hlt : (true : Bool) < false := by simpa [LabelRow.candidate, hm, hrow'] using hle
        exact absurd hlt (by decide)
    have hrank : ∀ r ∈ rows, r.manual = row.manual →
        vocabulary.idxOf row.disposition ≤ vocabulary.idxOf r.disposition := by
      intro r hr hm
      have hle := hleast r hr
      rw [priority, priority, Prod.Lex.toLex_le_toLex] at hle
      simpa [LabelRow.candidate, hm] using hle
    rw [deciding]
    split
    · rename_i hany
      obtain ⟨r, hr, hm⟩ := List.any_eq_true.mp hany
      have hrow' := hmanual r hr hm
      refine ⟨⟨row, List.mem_filter.mpr ⟨hrow, hrow'⟩, rfl⟩, fun r hr => ?_⟩
      obtain ⟨hr, hm⟩ := List.mem_filter.mp hr
      exact hrank r hr (hm.trans hrow'.symm)
    · rename_i hany
      have hnone : ∀ r ∈ rows, r.manual = false := by
        intro r hr
        rw [← Bool.not_eq_true]
        exact fun hm => hany (List.any_eq_true.mpr ⟨r, hr, hm⟩)
      exact ⟨⟨row, hrow, rfl⟩, fun r hr => hrank r hr ((hnone r hr).trans (hnone row hrow).symm)⟩

/-- There is one most restrictive value. -/
theorem MostRestrictive.unique (hd : MostRestrictive rows d) (hd' : MostRestrictive rows' d')
    (hmem : ∀ row, row ∈ rows' ↔ row ∈ rows) (h : ∀ row ∈ rows, row.disposition ∈ vocabulary) : d = d' := by
  cases d with
  | none =>
    obtain rfl : rows = [] := hd
    cases d' with
    | none => rfl
    | some w =>
      obtain ⟨⟨row, hrow, -⟩, -⟩ := hd'
      exact absurd ((hmem row).mp hrow) List.not_mem_nil
  | some v =>
    obtain ⟨⟨row, hrow, rfl⟩, hleast⟩ := hd
    cases d' with
    | none =>
      obtain rfl : rows' = [] := hd'
      exact absurd ((hmem row).mpr hrow) List.not_mem_nil
    | some w =>
      obtain ⟨⟨row', hrow', rfl⟩, hleast'⟩ := hd'
      have hle := hleast row' ((hmem row').mp hrow')
      have hge := hleast' row ((hmem row).mpr hrow)
      rw [Option.some.injEq]
      exact (List.idxOf_inj (h row hrow)).mp (le_antisymm hle hge)

theorem mem_deciding_perm (h : rows'.Perm rows) (row : LabelRow) : row ∈ deciding rows' ↔ row ∈ deciding rows := by
  have hany : rows'.any (·.manual) = rows.any (·.manual) := h.any_eq
  rw [deciding, deciding, hany]
  split
  · exact (h.filter _).mem_iff
  · exact h.mem_iff

theorem mem_of_mem_deciding (h : row ∈ deciding rows) : row ∈ rows := by
  rw [deciding] at h
  split at h
  · exact (List.mem_filter.mp h).1
  · exact h

/-- A fold in any order gives the most restrictive value of the labels that decide. -/
theorem foldlM_mergeLabel_perm (h : ∀ row ∈ rows, row.disposition ∈ vocabulary)
    (hd : MostRestrictive (deciding rows) d) (hp : rows'.Perm rows) :
    (rows'.foldlM mergeLabel none).map (fun best => best.map fun b => b.2.2) = .ok d := by
  rw [foldlM_mergeLabel fun row hrow => h row (hp.mem_iff.mp hrow)]
  exact congrArg Except.ok (hd.unique (mostRestrictive_argmin rows') (mem_deciding_perm hp)
    fun row hrow => h row (mem_of_mem_deciding hrow)).symm

/-! ## The readers agree -/

theorem activeDisposition_eq : activeDisposition dbNow labels ws chain address =
    ((activeLabels dbNow labels ws chain address).foldlM mergeLabel none).map fun best => best.map fun b => b.2.2 := by
  rw [activeDisposition]
  show (List.foldlM mergeLabel none (activeLabels dbNow labels ws chain address) >>= _) = _
  cases (activeLabels dbNow labels ws chain address).foldlM mergeLabel none with
  | error e => rfl
  | ok best => rfl

theorem manualDisposition_eq : manualDisposition dbNow labels ws chain address =
    (((activeLabels dbNow labels ws chain address).filter (·.manual)).foldlM mergeLabel none).map
      fun best => best.map fun b => b.2.2 := by
  have hrows : (labels.filter fun row => row.workspaceId == ws && row.chain == chain.asStr &&
      row.address == address && row.manual && row.active dbNow) =
      (activeLabels dbNow labels ws chain address).filter (·.manual) := by
    rw [activeLabels, List.filter_filter]
    apply List.filter_congr
    intro row _
    rw [LabelRow.isOf]
    cases row.manual <;> simp
  rw [manualDisposition, hrows]
  cases ((activeLabels dbNow labels ws chain address).filter (·.manual)).foldlM mergeLabel none with
  | error e => rfl
  | ok best => rfl

theorem activeLabels_perm (hp : labels'.Perm labels) :
    (activeLabels dbNow labels' ws chain address).Perm (activeLabels dbNow labels ws chain address) := hp.filter _

/-- The reader fails exactly at a value that is not in the vocabulary. -/
theorem activeDisposition_error : (∃ e, activeDisposition dbNow labels ws chain address = .error e) ↔
    ∃ row ∈ activeLabels dbNow labels ws chain address, row.disposition ∉ vocabulary := by
  rw [activeDisposition_eq]
  simp only [map_eq_error]
  refine ⟨fun h => ?_, foldlM_mergeLabel_unknown⟩
  by_contra hall
  push Not at hall
  obtain ⟨e, he⟩ := h
  rw [foldlM_mergeLabel hall] at he
  cases he

theorem activeDisposition_perm (h : ∀ row ∈ activeLabels dbNow labels ws chain address, row.disposition ∈ vocabulary)
    (hd : MostRestrictive (deciding (activeLabels dbNow labels ws chain address)) d) (hp : labels'.Perm labels) :
    activeDisposition dbNow labels' ws chain address = .ok d := by
  rw [activeDisposition_eq]
  exact foldlM_mergeLabel_perm h hd (activeLabels_perm hp)

/-- The labels that decide decide by themselves. -/
theorem deciding_manual (h : ∃ row ∈ rows, row.manual = true) : deciding (rows.filter (·.manual)) = deciding rows := by
  obtain ⟨row, hrow, hm⟩ := h
  have hany : rows.any (·.manual) = true := List.any_eq_true.mpr ⟨row, hrow, hm⟩
  have hany' : (rows.filter (·.manual)).any (·.manual) = true :=
    List.any_eq_true.mpr ⟨row, List.mem_filter.mpr ⟨hrow, hm⟩, hm⟩
  rw [deciding, deciding, if_pos hany, if_pos hany', List.filter_filter]
  simp

theorem manualDisposition_perm (h : ∀ row ∈ activeLabels dbNow labels ws chain address, row.disposition ∈ vocabulary)
    (hd : MostRestrictive (deciding (activeLabels dbNow labels ws chain address)) d) (hp : labels'.Perm labels)
    (hm : ∃ row ∈ activeLabels dbNow labels ws chain address, row.manual = true) :
    manualDisposition dbNow labels' ws chain address = .ok d := by
  rw [manualDisposition_eq]
  rw [← deciding_manual hm] at hd
  apply foldlM_mergeLabel_perm _ hd ((activeLabels_perm hp).filter _)
  exact fun row hrow => h row (List.mem_filter.mp hrow).1

/-- The value that is read back is the one of the label, and none is read as `watch`. -/
theorem effectiveDisposition_of_ok (h : activeDisposition dbNow labels ws chain address = .ok d)
    (hd : ∀ v ∈ d, v ∈ vocabulary) :
    ∃ k : Disposition, effectiveDisposition dbNow labels ws chain address = .ok k ∧ k.asStr = d.getD "watch" := by
  have hparse : ∀ v ∈ vocabulary, ∃ k : Disposition, k.asStr = v := by
    intro v hv
    simp only [vocabulary, List.mem_cons, List.not_mem_nil, or_false] at hv
    rcases hv with rfl | rfl | rfl | rfl
    · exact ⟨.skip, rfl⟩
    · exact ⟨.flowOnly, rfl⟩
    · exact ⟨.watch, rfl⟩
    · exact ⟨.score, rfl⟩
  rw [effectiveDisposition, h]
  cases d with
  | none => exact ⟨.watch, rfl, rfl⟩
  | some v =>
    obtain ⟨k, rfl⟩ := hparse v (hd v rfl)
    refine ⟨k, ?_, rfl⟩
    rw [ok_bind]
    dsimp only
    rw [Disposition.parse_asStr]
    rfl

theorem effectiveDisposition_of_error {e : String} (h : activeDisposition dbNow labels ws chain address = .error e) :
    effectiveDisposition dbNow labels ws chain address = .error e := by
  rw [effectiveDisposition, h]
  rfl

theorem MostRestrictive.known (hd : MostRestrictive (deciding rows) d)
    (h : ∀ row ∈ rows, row.disposition ∈ vocabulary) : ∀ v ∈ d, v ∈ vocabulary := by
  intro v hv
  obtain rfl : d = some v := hv
  obtain ⟨⟨row, hrow, rfl⟩, -⟩ := hd
  exact h row (mem_of_mem_deciding hrow)

/-- A manual label bounds the result. -/
theorem restrictive_of_manual (hrow : row ∈ activeLabels dbNow labels ws chain address) (hm : row.manual = true)
    (h : activeDisposition dbNow labels ws chain address = .ok d) :
    ∃ v, d = some v ∧ vocabulary.idxOf v ≤ vocabulary.idxOf row.disposition := by
  have hknown : ∀ r ∈ activeLabels dbNow labels ws chain address, r.disposition ∈ vocabulary := by
    intro r hr
    by_contra hunknown
    obtain ⟨e, he⟩ := activeDisposition_error.mpr ⟨r, hr, hunknown⟩
    rw [h] at he
    cases he
  have hd := mostRestrictive_argmin (activeLabels dbNow labels ws chain address)
  rw [activeDisposition_perm hknown hd (List.Perm.refl labels), Except.ok.injEq] at h
  rw [h] at hd
  have hdeciding : row ∈ deciding (activeLabels dbNow labels ws chain address) := by
    rw [deciding, if_pos (List.any_eq_true.mpr ⟨row, hrow, hm⟩)]
    exact List.mem_filter.mpr ⟨hrow, hm⟩
  cases d with
  | none =>
    rw [show deciding (activeLabels dbNow labels ws chain address) = [] from hd] at hdeciding
    exact absurd hdeciding List.not_mem_nil
  | some v => exact ⟨v, rfl, hd.2 row hdeciding⟩

theorem stopsTraversal_mono (hv : v ∈ vocabulary) (hw : w ∈ vocabulary)
    (hle : vocabulary.idxOf v ≤ vocabulary.idxOf w) (h : dispositionStopsTraversal w = .ok true) :
    dispositionStopsTraversal v = .ok true := by
  have hstops : ∀ u ∈ vocabulary, dispositionStopsTraversal u = .ok (decide (vocabulary.idxOf u ≤ 1)) := by
    intro u hu
    rw [dispositionStopsTraversal, restrictivenessRank_known hu]
    rfl
  rw [hstops w hw, Except.ok.injEq, decide_eq_true_eq] at h
  rw [hstops v hv, Except.ok.injEq, decide_eq_true_eq]
  omega

end

/-- The disposition of a wallet is the most restrictive one of its manual labels, or of all where none is
manual, for every reader and in every order of the rows; a value outside the vocabulary is an error. -/
theorem disposition_authority (dbNow : DateTime) (labels : List LabelRow) (workspaceId : Int) (chain : ChainKind)
    (address : String) :
    ((∃ e, activeDisposition dbNow labels workspaceId chain address = .error e) ↔
      ∃ row ∈ activeLabels dbNow labels workspaceId chain address, row.disposition ∉ vocabulary) ∧
    ((∃ e, effectiveDisposition dbNow labels workspaceId chain address = .error e) ↔
      ∃ e, activeDisposition dbNow labels workspaceId chain address = .error e) ∧
    ((∀ row ∈ activeLabels dbNow labels workspaceId chain address, row.disposition ∈ vocabulary) →
      ∃ d, MostRestrictive (deciding (activeLabels dbNow labels workspaceId chain address)) d ∧
        ∀ labels' : List LabelRow, labels'.Perm labels →
          activeDisposition dbNow labels' workspaceId chain address = .ok d ∧
          ((∃ row ∈ activeLabels dbNow labels workspaceId chain address, row.manual = true) →
            manualDisposition dbNow labels' workspaceId chain address = .ok d) ∧
          ∃ k : Disposition, effectiveDisposition dbNow labels' workspaceId chain address = .ok k ∧
            k.asStr = d.getD "watch") ∧
    (∀ row labels', row.isOf workspaceId chain address = true → row.active dbNow = true → row.manual = true →
      row.disposition ∈ vocabulary → labels'.Perm (row :: labels) →
        ∀ d, activeDisposition dbNow labels' workspaceId chain address = .ok d →
          ∃ v, d = some v ∧ vocabulary.idxOf v ≤ vocabulary.idxOf row.disposition) ∧
    ∀ v ∈ vocabulary, ∀ w ∈ vocabulary, vocabulary.idxOf v ≤ vocabulary.idxOf w →
      dispositionStopsTraversal w = .ok true → dispositionStopsTraversal v = .ok true := by
  refine ⟨activeDisposition_error, ⟨fun h => ?_, fun h => ?_⟩, fun hknown => ?_, ?_, ?_⟩
  · by_contra hok
    have hknown : ∀ row ∈ activeLabels dbNow labels workspaceId chain address, row.disposition ∈ vocabulary := by
      intro row hrow
      by_contra hunknown
      exact hok (activeDisposition_error.mpr ⟨row, hrow, hunknown⟩)
    have hd := mostRestrictive_argmin (activeLabels dbNow labels workspaceId chain address)
    obtain ⟨k, hk, -⟩ := effectiveDisposition_of_ok (activeDisposition_perm hknown hd (List.Perm.refl labels))
      (hd.known hknown)
    obtain ⟨e, he⟩ := h
    rw [hk] at he
    cases he
  · obtain ⟨e, he⟩ := h
    exact ⟨e, effectiveDisposition_of_error he⟩
  · have hd := mostRestrictive_argmin (activeLabels dbNow labels workspaceId chain address)
    refine ⟨_, hd, fun labels' hp => ?_⟩
    have hactive := activeDisposition_perm hknown hd hp
    exact ⟨hactive, manualDisposition_perm hknown hd hp, effectiveDisposition_of_ok hactive (hd.known hknown)⟩
  · intro row labels' hof hactive hm _ hp d hd
    have hrow : row ∈ activeLabels dbNow labels' workspaceId chain address := by
      apply List.mem_filter.mpr
      exact ⟨hp.mem_iff.mpr List.mem_cons_self, by rw [hof, hactive]; rfl⟩
    exact restrictive_of_manual hrow hm hd
  · intro v hv w hw hle h
    exact stopsTraversal_mono hv hw hle h

/-- A manual `skip` beside a manual `watch` that is newer and an automatic `score`. -/
theorem disposition_authority_masked :
    let label (value : String) (manual : Bool) : LabelRow := ⟨1, "solana", "W", value, manual, none, none⟩
    let labels := [label "watch" true, label "skip" true, label "score" false]
    (∃ d, MostRestrictive (deciding (activeLabels 0 labels 1 .solana "W")) d ∧
      ∀ labels' : List LabelRow, labels'.Perm labels → activeDisposition 0 labels' 1 .solana "W" = .ok d ∧
        manualDisposition 0 labels' 1 .solana "W" = .ok d) ∧
    dispositionStopsTraversal "skip" = .ok true := by
  intro label labels
  obtain ⟨-, -, hauthority, -, hstops⟩ := disposition_authority 0 labels 1 .solana "W"
  refine ⟨?_, hstops "skip" (by decide) "flow_only" (by decide) (by decide) (by decide)⟩
  obtain ⟨d, hd, hall⟩ := hauthority (by decide)
  refine ⟨d, hd, fun labels' hp => ?_⟩
  obtain ⟨hactive, hmanual, -⟩ := hall labels' hp
  exact ⟨hactive, hmanual ⟨label "watch" true, by decide, rfl⟩⟩

end WhaleIntelligence.Signals
