import WhaleIntelligence.Migrations.CaseMerge

/- The cases that the third preflight leaves.

   In every group one case is kept, the one with the smallest id, and it has the
   merged columns of the group (`mem_mergedCases`). What the statements do to a group
   is read off `swi_case_merge`, which pairs the cases that are merged away with the
   kept id of their group (`lookup_swiCaseMerge`). -/
namespace WhaleIntelligence.Migrations
open WhaleIntelligence Signals

/-- The value is one of the column's, and bounds the others. -/
def Greatest {τ : Type} [LE τ] (column : CaseRow → τ) (grp : List CaseRow) (v : τ) : Prop :=
  (∃ r ∈ grp, column r = v) ∧ ∀ r ∈ grp, column r ≤ v

/-- The case has the merged columns of the group. -/
structure MergedFrom (grp : List CaseRow) (x : CaseRow) : Prop where
  firstFunding : ∃ r ∈ grp, (∀ s ∈ grp, r.firstFundedAt ≤ s.firstFundedAt) ∧
    x.firstFundedAt = r.firstFundedAt ∧ x.firstFundingUsd = r.firstFundingUsd ∧
    x.firstFundingNative = r.firstFundingNative ∧ x.sourceAddress = r.sourceAddress ∧ x.sourceKind = r.sourceKind
  confidence : Greatest CaseRow.confidence grp x.confidence
  fanoutCount : Greatest CaseRow.fanoutCount grp x.fanoutCount
  deployWindowEndsAt : Greatest CaseRow.deployWindowEndsAt grp x.deployWindowEndsAt
  updatedAt : Greatest CaseRow.updatedAt grp x.updatedAt
  stage : Greatest (fun r => stageRank r.stage) grp (stageRank x.stage)

section
variable {cases grp : List CaseRow} {c r k x : CaseRow} {i : Int}

theorem greatest_merged {column : CaseRow → Int} (hne : grp ≠ []) (d : Int) :
    Greatest column grp ((Query.greatest column grp).getD d) := by
  obtain ⟨v, hv⟩ := Query.greatest_isSome column hne
  rw [hv]
  exact Query.greatest_spec hv

/-- The merged survivor has the merged columns. -/
theorem mergedFrom_merge (hne : grp ≠ []) : MergedFrom grp (c.merge grp) := by
  obtain ⟨first, hfirst⟩ := Query.latest_isSome
    (fun r : CaseRow => OrderDual.toDual (toLex (r.firstFundedAt, r.id))) hne
  obtain ⟨hmem, hle⟩ := Query.latest_spec hfirst
  have hmin : ∀ s ∈ grp, first.firstFundedAt ≤ s.firstFundedAt := by
    intro s hs
    have hlex : toLex (first.firstFundedAt, first.id) ≤ toLex (s.firstFundedAt, s.id) := hle s hs
    rw [Prod.Lex.toLex_le_toLex] at hlex
    obtain hlt | heq := hlex
    · exact hlt.le
    · exact heq.1.le
  obtain ⟨least, hleast⟩ := Query.least_isSome CaseRow.firstFundedAt hne
  obtain ⟨⟨s, hs, hsv⟩, hbound⟩ := Query.least_spec hleast
  have hsame : least = first.firstFundedAt := le_antisymm (hbound first hmem) (hsv ▸ hmin s hs)
  obtain ⟨top, htop⟩ := Query.latest_isSome (fun r : CaseRow => toLex (stageRank r.stage, r.id)) hne
  obtain ⟨htmem, htle⟩ := Query.latest_spec htop
  refine ⟨⟨first, hmem, hmin, ?_, ?_, ?_, ?_, ?_⟩, greatest_merged hne _, greatest_merged hne _,
    greatest_merged hne _, greatest_merged hne _, ?_⟩
  · simp only [CaseRow.merge, hleast, Option.getD_some, hsame]
  · simp only [CaseRow.merge, hfirst, Option.getD_some]
  · simp only [CaseRow.merge, hfirst, Option.getD_some]
  · simp only [CaseRow.merge, hfirst, Option.getD_some]
  · simp only [CaseRow.merge, hfirst, Option.getD_some]
  · simp only [CaseRow.merge, htop, Option.getD_some]
    refine ⟨⟨top, htmem, rfl⟩, fun r hr => ?_⟩
    have hlex := htle r hr
    rw [Prod.Lex.toLex_le_toLex] at hlex
    obtain hlt | heq := hlex
    · exact hlt.le
    · exact heq.1.le

/-- A case that is alone in its group has the merged columns as it is. -/
theorem mergedFrom_self (hc : c ∈ grp) (hall : ∀ r ∈ grp, r = c) : MergedFrom grp c := by
  have hgreatest : ∀ column : CaseRow → Int, Greatest column grp (column c) :=
    fun column => ⟨⟨c, hc, rfl⟩, fun r hr => (hall r hr) ▸ le_refl _⟩
  refine ⟨⟨c, hc, fun s hs => (hall s hs) ▸ le_refl _, rfl, rfl, rfl, rfl, rfl⟩, hgreatest _, hgreatest _,
    hgreatest _, hgreatest _, ⟨c, hc, rfl⟩, fun r hr => (hall r hr) ▸ le_refl _⟩

/-! ## The kept ids -/

theorem mem_groupOf : r ∈ groupOf cases c ↔ r ∈ cases ∧ r.group = c.group := by
  rw [groupOf, List.mem_filter, decide_eq_true_eq]

/-- The kept id is the smallest id of the group. -/
theorem keepId_spec (hc : c ∈ cases) : (∃ k ∈ cases, k.group = c.group ∧ k.id = keepId cases c) ∧
    ∀ r ∈ cases, r.group = c.group → keepId cases c ≤ r.id := by
  have hne : groupOf cases c ≠ [] := List.ne_nil_of_mem (mem_groupOf.mpr ⟨hc, rfl⟩)
  obtain ⟨v, hv⟩ := Query.least_isSome CaseRow.id hne
  have hkeep : keepId cases c = v := by rw [keepId, hv, Option.getD_some]
  obtain ⟨⟨k, hk, hkv⟩, hle⟩ := Query.least_spec hv
  rw [hkeep]
  refine ⟨⟨k, (mem_groupOf.mp hk).1, (mem_groupOf.mp hk).2, hkv⟩, fun r hr hg => ?_⟩
  exact hle r (mem_groupOf.mpr ⟨hr, hg⟩)

theorem keepId_congr (hc : c ∈ cases) (hr : r ∈ cases) (hg : r.group = c.group) : keepId cases r = keepId cases c := by
  obtain ⟨⟨k, hk, hkg, hkid⟩, hle⟩ := keepId_spec hc
  obtain ⟨⟨k', hk', hkg', hkid'⟩, hle'⟩ := keepId_spec hr
  apply le_antisymm
  · rw [← hkid]
    exact hle' k hk (hkg.trans hg.symm)
  · rw [← hkid']
    exact hle k' hk' (hkg'.trans hg)

theorem keepId_normalize : keepId (cases.map CaseRow.normalizeEvidence) c.normalizeEvidence = keepId cases c := by
  have hgroup : groupOf (cases.map CaseRow.normalizeEvidence) c.normalizeEvidence =
      (groupOf cases c).map CaseRow.normalizeEvidence := List.filter_map
  rw [keepId, hgroup, Query.least, List.map_map]
  rfl

/-- The id of a survivor. -/
def KeptCase (cases : List CaseRow) (c : CaseRow) : Prop := keepId cases c = c.id

/-- Every group has a case that is kept. -/
theorem exists_kept (hc : c ∈ cases) : ∃ k ∈ cases, k.group = c.group ∧ k.id = keepId cases c ∧ KeptCase cases k := by
  obtain ⟨⟨k, hk, hg, hid⟩, -⟩ := keepId_spec hc
  exact ⟨k, hk, hg, hid, (keepId_congr hc hk hg).trans hid.symm⟩

theorem eq_of_id_eq (hids : (cases.map CaseRow.id).Nodup) (hc : c ∈ cases) (hr : r ∈ cases) (h : c.id = r.id) : c = r :=
  List.inj_on_of_nodup_map hids hc hr h

/-- The one case of a group that is kept is the one with the kept id. -/
theorem kept_iff (hids : (cases.map CaseRow.id).Nodup) (hc : c ∈ cases) (hk : k ∈ cases) (hkept : KeptCase cases k) :
    k.id = keepId cases c ↔ k.group = c.group := by
  refine ⟨fun h => ?_, fun h => ?_⟩
  · obtain ⟨k', hk', hg', hid', -⟩ := exists_kept hc
    rw [eq_of_id_eq hids hk hk' (h.trans hid'.symm)]
    exact hg'
  · rw [← keepId_congr hc hk h]
    exact hkept.symm

/-! ## `swi_case_merge` -/

theorem mem_swiCaseMerge {n : Int} : (i, n) ∈ swiCaseMerge cases ↔
    ∃ c ∈ cases, c.id = i ∧ keepId cases c = n ∧ ¬ KeptCase cases c := by
  simp only [swiCaseMerge, List.mem_filter, List.mem_map, Prod.mk.injEq, decide_eq_true_eq, ne_eq]
  refine ⟨fun h => ?_, fun h => ?_⟩
  · obtain ⟨⟨c, hc, rfl, rfl⟩, hne⟩ := h
    exact ⟨c, hc, rfl, rfl, fun hk => hne hk.symm⟩
  · obtain ⟨c, hc, rfl, rfl, hne⟩ := h
    exact ⟨⟨c, hc, rfl, rfl⟩, fun hk => hne hk.symm⟩

theorem lookup_swiCaseMerge (hids : (cases.map CaseRow.id).Nodup) {n : Int} :
    (swiCaseMerge cases).lookup i = some n ↔ ∃ c ∈ cases, c.id = i ∧ keepId cases c = n ∧ ¬ KeptCase cases c := by
  rw [← mem_swiCaseMerge]
  refine ⟨fun h => ?_, fun h => ?_⟩
  · obtain ⟨l, l', hl, -⟩ := List.lookup_eq_some_iff.mp h
    rw [hl]
    exact List.mem_append_right _ List.mem_cons_self
  · cases hl : (swiCaseMerge cases).lookup i with
    | none =>
      have hnone := List.lookup_eq_none_iff.mp hl (i, n) h
      simp at hnone
    | some m =>
      obtain ⟨l, l', hsplit, -⟩ := List.lookup_eq_some_iff.mp hl
      have hm : (i, m) ∈ swiCaseMerge cases := hsplit ▸ List.mem_append_right _ List.mem_cons_self
      obtain ⟨c, hc, hci, rfl, -⟩ := mem_swiCaseMerge.mp h
      obtain ⟨c', hc', hci', rfl, -⟩ := mem_swiCaseMerge.mp hm
      rw [eq_of_id_eq hids hc hc' (hci.trans hci'.symm)]

theorem lookup_kept (hids : (cases.map CaseRow.id).Nodup) (hc : c ∈ cases) (hk : KeptCase cases c) :
    (swiCaseMerge cases).lookup c.id = none := by
  cases hl : (swiCaseMerge cases).lookup c.id with
  | none => rfl
  | some n =>
    obtain ⟨c', hc', hid, -, hne⟩ := (lookup_swiCaseMerge hids).mp hl
    rw [eq_of_id_eq hids hc' hc hid] at hne
    exact absurd hk hne

/-- A reference to a case becomes one to the kept case of its group. -/
theorem repoint_swiCaseMerge (hids : (cases.map CaseRow.id).Nodup) (hc : c ∈ cases) :
    repoint (swiCaseMerge cases) c.id = keepId cases c := by
  by_cases hk : KeptCase cases c
  · rw [repoint, lookup_kept hids hc hk, Option.getD_none]
    exact hk.symm
  · rw [repoint, (lookup_swiCaseMerge hids).mpr ⟨c, hc, rfl, rfl, hk⟩, Option.getD_some]

/-- The removed ids are those of the cases that are not kept. -/
theorem mem_gone (hids : (cases.map CaseRow.id).Nodup) (hc : c ∈ cases) :
    c.id ∈ (swiCaseMerge cases).map Prod.fst ↔ ¬ KeptCase cases c := by
  rw [List.mem_map]
  refine ⟨fun h => ?_, fun h => ⟨(c.id, keepId cases c), mem_swiCaseMerge.mpr ⟨c, hc, rfl, rfl, h⟩, rfl⟩⟩
  obtain ⟨⟨i, n⟩, hm, hi⟩ := h
  obtain ⟨c', hc', hid, -, hne⟩ := mem_swiCaseMerge.mp hm
  rw [eq_of_id_eq hids hc' hc (hid.trans hi)] at hne
  exact hne

/-! ## The merged cases -/

theorem mergeGroup_kept (hids : (cases.map CaseRow.id).Nodup) (hk : k ∈ cases) (hkept : KeptCase cases k) :
    mergeGroup cases (swiCaseMerge cases) k.id = groupOf cases k := by
  refine List.filter_congr fun r hr => ?_
  rw [Bool.eq_iff_iff, Bool.or_eq_true, List.contains_iff_mem, decide_eq_true_eq, decide_eq_true_eq,
    eq_comm (a := r.group), ← kept_iff hids hr hk hkept]
  refine ⟨fun h => ?_, fun h => ?_⟩
  · obtain hm | hid := h
    · obtain ⟨r', hr', hid, hkeep, -⟩ := mem_swiCaseMerge.mp hm
      rw [← eq_of_id_eq hids hr' hr hid]
      exact hkeep.symm
    · rw [eq_of_id_eq hids hr hk hid]
      exact hkept.symm
  · by_cases hkr : KeptCase cases r
    · exact Or.inr (hkr.symm.trans h.symm)
    · exact Or.inl (mem_swiCaseMerge.mpr ⟨r, hr, rfl, h.symm, hkr⟩)

theorem mergedRow_id (merge : List (Int × Int)) (c : CaseRow) : (mergedRow merge cases c).id = c.id := by
  rw [mergedRow]
  split <;> rfl

theorem mergedRow_group (merge : List (Int × Int)) (c : CaseRow) : (mergedRow merge cases c).group = c.group := by
  rw [mergedRow]
  split <;> rfl

/-- A case that is kept gets the merged columns of its group. -/
theorem mergedFrom_mergedRow (hids : (cases.map CaseRow.id).Nodup) (hk : k ∈ cases) (hkept : KeptCase cases k) :
    MergedFrom (groupOf cases k) (mergedRow (swiCaseMerge cases) cases k) := by
  have hself : k ∈ groupOf cases k := mem_groupOf.mpr ⟨hk, rfl⟩
  rw [mergedRow]
  split
  · rw [mergeGroup_kept hids hk hkept]
    exact mergedFrom_merge (List.ne_nil_of_mem hself)
  · rename_i hno
    -- nothing was merged into the case, so it is alone in its group
    refine mergedFrom_self hself fun r hr => ?_
    obtain ⟨hr, hg⟩ := mem_groupOf.mp hr
    have hkeep : k.id = keepId cases r := (kept_iff hids hr hk hkept).mpr hg.symm
    by_contra hne
    refine hno (List.any_eq_true.mpr ⟨(r.id, keepId cases r), ?_, by simp [hkeep]⟩)
    refine mem_swiCaseMerge.mpr ⟨r, hr, rfl, rfl, fun hkr => hne ?_⟩
    exact eq_of_id_eq hids hr hk (hkr.symm.trans hkeep.symm)

/-- The cases that are left are those that are kept, with their merged columns. -/
theorem mem_mergedCases (hids : (cases.map CaseRow.id).Nodup) :
    (x ∈ (mergeCases (swiCaseMerge cases) cases).filter fun c =>
      !((swiCaseMerge cases).map Prod.fst).contains c.id) ↔
    ∃ k ∈ cases, KeptCase cases k ∧ x = mergedRow (swiCaseMerge cases) cases k := by
  have hgone : ∀ k ∈ cases, (!((swiCaseMerge cases).map Prod.fst).contains k.id) = true ↔ KeptCase cases k := by
    intro k hk
    rw [Bool.not_eq_true', ← Bool.not_eq_true, List.contains_iff_mem, mem_gone hids hk, not_not]
  rw [List.mem_filter, mergeCases, List.mem_map]
  refine ⟨fun h => ?_, fun h => ?_⟩
  · obtain ⟨⟨k, hk, rfl⟩, hkeep⟩ := h
    rw [mergedRow_id, hgone k hk] at hkeep
    exact ⟨k, hk, hkeep, rfl⟩
  · obtain ⟨k, hk, hkept, rfl⟩ := h
    refine ⟨⟨k, hk, rfl⟩, ?_⟩
    rw [mergedRow_id, hgone k hk]
    exact hkept

end

end WhaleIntelligence.Migrations
