import WhaleIntelligence.Migrations.AlertKeys
import WhaleIntelligence.Migrations.CaseGroups

/- The alerts that the third preflight leaves.

   Where the funding keys are the ones `alert_dedup_key` makes, the keys that are
   renamed are those of the cases that are merged away, and each becomes the key of
   the kept case for the same destination (`lookup_rekey_iff`). So the renaming goes
   through exactly when no two of a group's stale alerts want a key of the survivor
   that no alert holds yet (`rekeyAlerts_ok_iff`). -/
namespace WhaleIntelligence.Migrations
open WhaleIntelligence Signals

/-- Every funding key was made by `alert_dedup_key`, with the workspace that owns its case. -/
structure Owned (owner : Option Int × String × String → Int) (t : Tables) : Prop where
  workspace : ∀ c ∈ t.cases, ∀ w, c.workspaceId = some w → owner c.group = w
  canonical : ∀ a ∈ t.alerts, splitPart a.dedupKey 1 = "funding".toList → ∃ w n d,
    a.dedupKey = alertDedupKey "funding" w n d ∧ ∀ c ∈ t.cases, c.id = n → w = owner c.group

/-- The key of a case for a destination. -/
def caseKey (owner : Option Int × String × String → Int) (c : CaseRow) (d : String) : String :=
  alertDedupKey "funding" (owner c.group) c.id d

/-! ## The rekey table -/

section
variable {merge : List (Int × Int)} {alerts : List AlertRow} {key new : String} {a t y : AlertRow}

theorem mem_swiAlertRekey : (key, new) ∈ swiAlertRekey merge alerts ↔
    key ∈ alerts.map AlertRow.dedupKey ∧ newKey merge key = some new ∧ key ≠ new := by
  simp only [swiAlertRekey, List.mem_filter, List.mem_filterMap, Option.map_eq_some_iff, Prod.mk.injEq,
    decide_eq_true_eq, List.mem_map, ne_eq]
  refine ⟨fun h => ?_, fun h => ?_⟩
  · obtain ⟨⟨a, ha, n, hn, rfl, rfl⟩, hne⟩ := h
    exact ⟨⟨a, ha, rfl⟩, hn, hne⟩
  · obtain ⟨⟨a, ha, rfl⟩, hn, hne⟩ := h
    exact ⟨⟨a, ha, new, hn, rfl, rfl⟩, hne⟩

theorem lookup_swiAlertRekey : (swiAlertRekey merge alerts).lookup key = some new ↔
    key ∈ alerts.map AlertRow.dedupKey ∧ newKey merge key = some new ∧ key ≠ new := by
  rw [← mem_swiAlertRekey]
  refine ⟨fun h => ?_, fun h => ?_⟩
  · obtain ⟨l, l', hl, -⟩ := List.lookup_eq_some_iff.mp h
    rw [hl]
    exact List.mem_append_right _ List.mem_cons_self
  · cases hl : (swiAlertRekey merge alerts).lookup key with
    | none =>
      have hnone := List.lookup_eq_none_iff.mp hl (key, new) h
      simp at hnone
    | some n =>
      obtain ⟨l, l', hsplit, -⟩ := List.lookup_eq_some_iff.mp hl
      have hn : (key, n) ∈ swiAlertRekey merge alerts := hsplit ▸ List.mem_append_right _ List.mem_cons_self
      rw [← (mem_swiAlertRekey.mp hn).2.1, (mem_swiAlertRekey.mp h).2.1]

/-! ## The fold -/

theorem foldedAlert_key (rekey : List (String × String)) (t : AlertRow) :
    (foldedAlert rekey alerts t).dedupKey = t.dedupKey := by
  rw [foldedAlert]
  split
  · split <;> rfl
  · rfl

/-- After the fold an alert is sent that was, or whose key replaces the key of one that was. -/
theorem foldedAlert_sent (rekey : List (String × String)) (t : AlertRow) :
    (foldedAlert rekey alerts t).state = .sent ↔
      t.state = .sent ∨ ∃ s ∈ alerts, s.state = .sent ∧ (s.dedupKey, t.dedupKey) ∈ rekey := by
  rw [foldedAlert]
  split
  · rename_i s hs
    have hp := List.find?_some hs
    simp only [Bool.and_eq_true, decide_eq_true_eq, List.contains_iff_mem] at hp
    have hright : ∃ s ∈ alerts, s.state = .sent ∧ (s.dedupKey, t.dedupKey) ∈ rekey :=
      ⟨s, List.mem_of_find?_eq_some hs, hp⟩
    split
    · rename_i hsent
      exact ⟨fun _ => Or.inl hsent, fun _ => hsent⟩
    · exact ⟨fun _ => Or.inr hright, fun _ => rfl⟩
  · rename_i hnone
    refine ⟨Or.inl, fun h => ?_⟩
    obtain hsent | ⟨s, hs, hstate, hmem⟩ := h
    · exact hsent
    · have hp := List.find?_eq_none.mp hnone s hs
      simp [hstate, hmem] at hp

/-! ## The renaming -/

theorem foldedAlerts_keys : (foldedAlerts merge true alerts).map AlertRow.dedupKey = alerts.map AlertRow.dedupKey := by
  rw [foldedAlerts, if_pos rfl, List.map_map]
  exact List.map_congr_left fun t _ => foldedAlert_key _ t

/-- The `UPDATE` goes through when no two alerts want a key that nobody holds. -/
theorem rekeyAlerts_ok_iff (hkeys : (alerts.map AlertRow.dedupKey).Nodup) :
    (∃ l, rekeyAlerts merge true alerts = .ok l) ↔
      Rekey.Uncontested (fun k => (swiAlertRekey merge alerts).lookup k) (alerts.map AlertRow.dedupKey) := by
  have hfolded : ((foldedAlerts merge true alerts).map AlertRow.dedupKey).Nodup := by
    rw [foldedAlerts_keys]
    exact hkeys
  have hset : ∀ a k, (AlertRow.setKey a k).dedupKey = k := fun _ _ => rfl
  have hiff := Rekey.rekeyed_nodup_iff (fun k => (swiAlertRekey merge alerts).lookup k) hset hfolded
  rw [foldedAlerts_keys] at hiff
  rw [← hiff]
  simp only [rekeyAlerts]
  split
  · rename_i hnodup
    exact ⟨fun _ => hnodup, fun _ => ⟨_, rfl⟩⟩
  · rename_i hdup
    refine ⟨fun h => ?_, fun h => absurd h hdup⟩
    obtain ⟨l, hl⟩ := h
    cases hl

/-- What is left: every alert that keeps its key, and every one whose new key was free, folded. -/
theorem mem_rekeyAlerts {l : List AlertRow} (h : rekeyAlerts merge true alerts = .ok l) :
    (l.map AlertRow.dedupKey).Nodup ∧ ∀ y, y ∈ l ↔ ∃ a ∈ alerts,
      ((swiAlertRekey merge alerts).lookup a.dedupKey = none ∧
          y = foldedAlert (swiAlertRekey merge alerts) alerts a) ∨
        ∃ n, (swiAlertRekey merge alerts).lookup a.dedupKey = some n ∧ n ∉ alerts.map AlertRow.dedupKey ∧
          y = (foldedAlert (swiAlertRekey merge alerts) alerts a).setKey n := by
  simp only [rekeyAlerts] at h
  split at h
  · rename_i hnodup
    cases h
    refine ⟨hnodup, fun y => ?_⟩
    rw [Rekey.mem_rekeyed, foldedAlerts_keys, foldedAlerts, if_pos rfl]
    simp only [List.mem_map]
    refine ⟨fun h => ?_, fun h => ?_⟩
    · obtain ⟨⟨a, ha, rfl⟩, hn⟩ | ⟨-, ⟨a, ha, rfl⟩, n, hn, hfree, rfl⟩ := h
      · rw [foldedAlert_key] at hn
        exact ⟨a, ha, Or.inl ⟨hn, rfl⟩⟩
      · rw [foldedAlert_key] at hn
        exact ⟨a, ha, Or.inr ⟨n, hn, hfree, rfl⟩⟩
    · obtain ⟨a, ha, ⟨hn, rfl⟩ | ⟨n, hn, hfree, rfl⟩⟩ := h
      · exact Or.inl ⟨⟨a, ha, rfl⟩, by rw [foldedAlert_key]; exact hn⟩
      · exact Or.inr ⟨_, ⟨a, ha, rfl⟩, n, by rw [foldedAlert_key]; exact hn, hfree, rfl⟩
  · cases h

end

/-! ## The keys of owned alerts -/

section
variable {owner : Option Int × String × String → Int} {db : RadarDb} {a : AlertRow} {c k : CaseRow} {d new : String}

theorem caseKey_inj {c c' : CaseRow} {d d' : String} (h : caseKey owner c d = caseKey owner c' d') :
    c.id = c'.id ∧ d = d' :=
  (fundingKey_inj h).2

/-- An alert is renamed when its case is merged away and has a positive id, to the key of the kept case. -/
theorem lookup_rekey_iff (ho : Owned owner db.toTables) (ha : a ∈ db.alerts) :
    (swiAlertRekey (swiCaseMerge db.cases) db.alerts).lookup a.dedupKey = some new ↔
      ∃ c ∈ db.cases, ∃ k ∈ db.cases, ∃ d, ¬ KeptCase db.cases c ∧ 0 < c.id ∧ KeptCase db.cases k ∧ k.group = c.group ∧
        a.dedupKey = caseKey owner c d ∧ new = caseKey owner k d := by
  rw [lookup_swiAlertRekey]
  refine ⟨fun h => ?_, fun h => ?_⟩
  · obtain ⟨-, hnew, -⟩ := h
    simp only [newKey, Option.bind_eq_bind, Option.bind_eq_some_iff, Option.pure_def, Option.some.injEq] at hnew
    obtain ⟨subject, hsubject, keep, hkeep, rfl⟩ := hnew
    have hfunding : splitPart a.dedupKey 1 = "funding".toList := by
      by_contra hno
      rw [keySubject, if_neg hno] at hsubject
      cases hsubject
    obtain ⟨w, n, d, hkey, howned⟩ := ho.canonical a ha hfunding
    rw [hkey] at hsubject
    obtain ⟨rfl, hpos, -⟩ := keySubject_fundingKey.mp hsubject
    obtain ⟨c, hc, hid, rfl, hnot⟩ := (lookup_swiCaseMerge db.caseIds).mp hkeep
    obtain ⟨k, hk, hg, hkid, hkept⟩ := exists_kept hc
    have hw := howned c hc hid
    refine ⟨c, hc, k, hk, d, hnot, hid ▸ hpos, hkept, hg, ?_, ?_⟩
    · rw [hkey, caseKey, hid, hw]
    · rw [hkey, rewriteSubject_fundingKey, caseKey, hg, hkid, hw]
  · obtain ⟨c, hc, k, hk, d, hnot, hpos, hkept, hg, hkey, rfl⟩ := h
    have hkid : k.id = keepId db.cases c := (kept_iff db.caseIds hc hk hkept).mpr hg
    have hsubject : keySubject a.dedupKey = some c.id := by
      rw [hkey]
      exact keySubject_fundingKey.mpr ⟨rfl, hpos, (db.caseIdRange c hc).2⟩
    refine ⟨List.mem_map_of_mem ha, ?_, ?_⟩
    · simp only [newKey, hsubject, Option.bind_eq_bind, Option.bind_some,
        (lookup_swiCaseMerge db.caseIds).mpr ⟨c, hc, rfl, rfl, hnot⟩, Option.pure_def]
      rw [hkey, caseKey, rewriteSubject_fundingKey, caseKey, hg, hkid]
    · rw [hkey]
      intro heq
      exact hnot (hkid.symm.trans (caseKey_inj heq).1.symm)

/-- An alert of the group of a case, for a destination. -/
def ForGroup (owner : Option Int × String × String → Int) (cases : List CaseRow) (k : CaseRow) (d : String)
    (a : AlertRow) : Prop :=
  ∃ c ∈ cases, c.group = k.group ∧ a.dedupKey = caseKey owner c d

/-- The stale alerts of a group can be settled: they belong to cases with positive ids, and where the kept case
    has no alert for a destination only one other case has. -/
structure OneHeir (owner : Option Int × String × String → Int) (t : Tables) : Prop where
  positive : ∀ c ∈ t.cases, ¬ KeptCase t.cases c → ∀ d, caseKey owner c d ∈ t.alerts.map AlertRow.dedupKey → 0 < c.id
  single : ∀ k ∈ t.cases, KeptCase t.cases k → ∀ d, caseKey owner k d ∉ t.alerts.map AlertRow.dedupKey →
    ∀ c ∈ t.cases, ∀ c' ∈ t.cases, c.group = k.group → c'.group = k.group →
      caseKey owner c d ∈ t.alerts.map AlertRow.dedupKey → caseKey owner c' d ∈ t.alerts.map AlertRow.dedupKey →
        c.id = c'.id

/-- Where the ids are positive, the alerts are uncontested when a group has one heir for each destination. -/
theorem uncontested_iff (ho : Owned owner db.toTables)
    (hpos : ∀ c ∈ db.cases, ¬ KeptCase db.cases c → ∀ d,
      caseKey owner c d ∈ db.alerts.map AlertRow.dedupKey → 0 < c.id) :
    Rekey.Uncontested (fun key => (swiAlertRekey (swiCaseMerge db.cases) db.alerts).lookup key)
      (db.alerts.map AlertRow.dedupKey) ↔ OneHeir owner db.toTables := by
  refine ⟨fun h => ⟨hpos, ?_⟩, fun h => ?_⟩
  · intro k hk hkept d hfree c hc c' hc' hg hg' hkey hkey'
    -- neither case is the kept one, which has no alert for the destination
    have hstale : ∀ r ∈ db.cases, r.group = k.group → caseKey owner r d ∈ db.alerts.map AlertRow.dedupKey →
        ¬ KeptCase db.cases r := by
      intro r hr hrg hrkey hrkept
      have hid : k.id = r.id := ((kept_iff db.caseIds hr hk hkept).mpr hrg.symm).trans hrkept
      rw [← eq_of_id_eq db.caseIds hk hr hid] at hrkey
      exact hfree hrkey
    have hlookup : ∀ r ∈ db.cases, r.group = k.group → caseKey owner r d ∈ db.alerts.map AlertRow.dedupKey →
        (swiAlertRekey (swiCaseMerge db.cases) db.alerts).lookup (caseKey owner r d) = some (caseKey owner k d) := by
      intro r hr hrg hrkey
      have hnot := hstale r hr hrg hrkey
      obtain ⟨a, ha, hak⟩ := List.mem_map.mp hrkey
      rw [← hak]
      refine (lookup_rekey_iff ho ha).mpr ⟨r, hr, k, hk, d, hnot, ?_, hkept, hrg.symm, hak, rfl⟩
      exact hpos r hr hnot d hrkey
    have hsame := h _ hkey _ hkey' _ (hlookup c hc hg hkey) (hlookup c' hc' hg' hkey') hfree
    exact (caseKey_inj hsame).1
  · intro key hkey key' hkey' n hn hn' hfree
    obtain ⟨a, ha, rfl⟩ := List.mem_map.mp hkey
    obtain ⟨b, hb, rfl⟩ := List.mem_map.mp hkey'
    obtain ⟨c, hc, k, hk, d, -, -, hkept, hg, hak, rfl⟩ := (lookup_rekey_iff ho ha).mp hn
    obtain ⟨c', hc', k', hk', d', -, -, -, hg', hbk, heq⟩ := (lookup_rekey_iff ho hb).mp hn'
    obtain ⟨hid, rfl⟩ := caseKey_inj heq
    obtain rfl := eq_of_id_eq db.caseIds hk hk' hid
    have hcc := h.single k hk hkept d hfree c hc c' hc' hg.symm hg'.symm (hak ▸ hkey) (hbk ▸ hkey')
    rw [hak, hbk, eq_of_id_eq db.caseIds hc hc' hcc]

end

/-! ## The settled alerts -/

section
variable {owner : Option Int × String × String → Int} {db : RadarDb} {a y : AlertRow} {c k : CaseRow} {d : String}
  {l : List AlertRow}

/-- A case with the group of a kept case is that case, or one that is merged away. -/
theorem eq_or_not_kept (hc : c ∈ db.cases) (hk : k ∈ db.cases) (hkept : KeptCase db.cases k) (hg : c.group = k.group) :
    c = k ∨ ¬ KeptCase db.cases c := by
  by_cases hkc : KeptCase db.cases c
  · have hid : k.id = c.id := ((kept_iff db.caseIds hc hk hkept).mpr hg.symm).trans hkc
    exact Or.inl (eq_of_id_eq db.caseIds hc hk hid.symm)
  · exact Or.inr hkc

theorem eq_of_key_eq {b : AlertRow} (ha : a ∈ db.alerts) (hb : b ∈ db.alerts) (h : a.dedupKey = b.dedupKey) : a = b :=
  List.inj_on_of_nodup_map db.alertKeys ha hb h

/-- An alert of a kept case is not renamed. -/
theorem lookup_rekey_kept (ho : Owned owner db.toTables) (ha : a ∈ db.alerts) (hk : k ∈ db.cases)
    (hkept : KeptCase db.cases k) (hkey : a.dedupKey = caseKey owner k d) :
    (swiAlertRekey (swiCaseMerge db.cases) db.alerts).lookup a.dedupKey = none := by
  rw [Option.eq_none_iff_forall_ne_some]
  intro n hn
  obtain ⟨c, hc, -, -, d', hnot, -, -, -, hkey', -⟩ := (lookup_rekey_iff ho ha).mp hn
  have hid := (caseKey_inj (hkey'.symm.trans hkey)).1
  rw [eq_of_id_eq db.caseIds hc hk hid] at hnot
  exact hnot hkept

/-- An alert of a case that is merged away is renamed to the key of the kept case. -/
theorem lookup_rekey_stale (ho : Owned owner db.toTables) (hheir : OneHeir owner db.toTables) (ha : a ∈ db.alerts)
    (hc : c ∈ db.cases) (hk : k ∈ db.cases) (hnot : ¬ KeptCase db.cases c) (hkept : KeptCase db.cases k)
    (hg : c.group = k.group) (hkey : a.dedupKey = caseKey owner c d) :
    (swiAlertRekey (swiCaseMerge db.cases) db.alerts).lookup a.dedupKey = some (caseKey owner k d) := by
  have hpos := hheir.positive c hc hnot d (hkey ▸ List.mem_map_of_mem ha)
  exact (lookup_rekey_iff ho ha).mpr ⟨c, hc, k, hk, d, hnot, hpos, hkept, hg.symm, hkey, rfl⟩

/-- What is left of a group's alerts bears the key of the kept case. -/
theorem key_of_left (ho : Owned owner db.toTables) (hheir : OneHeir owner db.toTables)
    (hl : rekeyAlerts (swiCaseMerge db.cases) true db.alerts = .ok l) (hk : k ∈ db.cases)
    (hkept : KeptCase db.cases k) (hy : y ∈ l) (hgroup : ForGroup owner db.cases k d y) :
    y.dedupKey = caseKey owner k d := by
  obtain ⟨c, hc, hg, hkey⟩ := hgroup
  obtain rfl | hnot := eq_or_not_kept hc hk hkept hg
  · exact hkey
  · exfalso
    obtain ⟨a, ha, ⟨hnone, rfl⟩ | ⟨n, hn, -, rfl⟩⟩ := ((mem_rekeyAlerts hl).2 y).mp hy
    · rw [foldedAlert_key] at hkey
      rw [lookup_rekey_stale ho hheir ha hc hk hnot hkept hg hkey] at hnone
      cases hnone
    · -- a new key is that of a kept case
      obtain ⟨-, -, k', hk', d', -, -, hkept', -, -, rfl⟩ := (lookup_rekey_iff ho ha).mp hn
      have hid := (caseKey_inj (hkey.symm.trans rfl)).1
      rw [eq_of_id_eq db.caseIds hc hk' hid] at hnot
      exact hnot hkept'

/-- The alert of the kept case stays and is sent when one of the group's was. -/
theorem settled_own (ho : Owned owner db.toTables) (hheir : OneHeir owner db.toTables)
    (hl : rekeyAlerts (swiCaseMerge db.cases) true db.alerts = .ok l) (hk : k ∈ db.cases)
    (hkept : KeptCase db.cases k) (ha : a ∈ db.alerts) (hkey : a.dedupKey = caseKey owner k d) :
    ∃ x ∈ l, x.dedupKey = caseKey owner k d ∧
      (x.state = .sent ↔ ∃ b ∈ db.alerts, ForGroup owner db.cases k d b ∧ b.state = .sent) := by
  have hnone := lookup_rekey_kept ho ha hk hkept hkey
  refine ⟨_, ((mem_rekeyAlerts hl).2 _).mpr ⟨a, ha, Or.inl ⟨hnone, rfl⟩⟩, ?_, ?_⟩
  · rw [foldedAlert_key]
    exact hkey
  rw [foldedAlert_sent]
  refine ⟨fun h => ?_, fun h => ?_⟩
  · obtain hsent | ⟨s, hs, hsent, hmem⟩ := h
    · exact ⟨a, ha, ⟨k, hk, rfl, hkey⟩, hsent⟩
    · rw [mem_swiAlertRekey, ← lookup_swiAlertRekey, lookup_rekey_iff ho hs] at hmem
      obtain ⟨c, hc, k', hk', d', -, -, -, hg, hskey, hnew⟩ := hmem
      obtain ⟨hid, rfl⟩ := caseKey_inj (hkey.symm.trans hnew)
      rw [← eq_of_id_eq db.caseIds hk hk' hid] at hg
      exact ⟨s, hs, ⟨c, hc, hg.symm, hskey⟩, hsent⟩
  · obtain ⟨b, hb, ⟨c, hc, hg, hbkey⟩, hsent⟩ := h
    obtain rfl | hnot := eq_or_not_kept hc hk hkept hg
    · rw [eq_of_key_eq ha hb (hkey.trans hbkey.symm)]
      exact Or.inl hsent
    · refine Or.inr ⟨b, hb, hsent, ?_⟩
      rw [mem_swiAlertRekey, ← lookup_swiAlertRekey, hkey]
      exact lookup_rekey_stale ho hheir hb hc hk hnot hkept hg hbkey

/-- Where the kept case has no alert for the destination, the one other alert takes its key. -/
theorem settled_heir (ho : Owned owner db.toTables) (hheir : OneHeir owner db.toTables)
    (hl : rekeyAlerts (swiCaseMerge db.cases) true db.alerts = .ok l) (hk : k ∈ db.cases)
    (hkept : KeptCase db.cases k) (hfree : caseKey owner k d ∉ db.alerts.map AlertRow.dedupKey) (ha : a ∈ db.alerts)
    (hc : c ∈ db.cases) (hg : c.group = k.group) (hkey : a.dedupKey = caseKey owner c d) :
    ∃ x ∈ l, x.dedupKey = caseKey owner k d ∧
      (x.state = .sent ↔ ∃ b ∈ db.alerts, ForGroup owner db.cases k d b ∧ b.state = .sent) := by
  have hnot : ¬ KeptCase db.cases c := by
    obtain rfl | hnot := eq_or_not_kept hc hk hkept hg
    · exact absurd (hkey ▸ List.mem_map_of_mem ha) hfree
    · exact hnot
  have hn := lookup_rekey_stale ho hheir ha hc hk hnot hkept hg hkey
  refine ⟨_, ((mem_rekeyAlerts hl).2 _).mpr ⟨a, ha, Or.inr ⟨_, hn, hfree, rfl⟩⟩, rfl, ?_⟩
  show (foldedAlert (swiAlertRekey (swiCaseMerge db.cases) db.alerts) db.alerts a).state = .sent ↔ _
  rw [foldedAlert_sent]
  refine ⟨fun h => ?_, fun h => ?_⟩
  · obtain hsent | ⟨s, hs, -, hmem⟩ := h
    · exact ⟨a, ha, ⟨c, hc, hg, hkey⟩, hsent⟩
    · -- nothing is folded into the alert, because its key is not that of a kept case
      rw [mem_swiAlertRekey, ← lookup_swiAlertRekey, lookup_rekey_iff ho hs] at hmem
      obtain ⟨-, -, k', hk', d', -, -, hkept', -, -, hnew⟩ := hmem
      have hid := (caseKey_inj (hkey.symm.trans hnew)).1
      rw [eq_of_id_eq db.caseIds hc hk' hid] at hnot
      exact absurd hkept' hnot
  · obtain ⟨b, hb, ⟨c', hc', hg', hbkey⟩, hsent⟩ := h
    have hid := hheir.single k hk hkept d hfree c hc c' hc' hg hg' (hkey ▸ List.mem_map_of_mem ha)
      (hbkey ▸ List.mem_map_of_mem hb)
    rw [← eq_of_id_eq db.caseIds hc hc' hid, ← hkey] at hbkey
    rw [eq_of_key_eq ha hb hbkey.symm]
    exact Or.inl hsent

/-- After the renaming every destination that the group alerted has one alert, under the key of the kept case,
    and it is sent when one of the group's was. -/
theorem settled_alert (ho : Owned owner db.toTables) (hheir : OneHeir owner db.toTables)
    (hl : rekeyAlerts (swiCaseMerge db.cases) true db.alerts = .ok l) (hk : k ∈ db.cases)
    (hkept : KeptCase db.cases k) (hsome : ∃ a ∈ db.alerts, ForGroup owner db.cases k d a) :
    ∃ x, (∀ y, y ∈ l ∧ ForGroup owner db.cases k d y ↔ y = x) ∧ x.dedupKey = caseKey owner k d ∧
      (x.state = .sent ↔ ∃ a ∈ db.alerts, ForGroup owner db.cases k d a ∧ a.state = .sent) := by
  have hsettled : ∃ x ∈ l, x.dedupKey = caseKey owner k d ∧
      (x.state = .sent ↔ ∃ b ∈ db.alerts, ForGroup owner db.cases k d b ∧ b.state = .sent) := by
    by_cases hown : caseKey owner k d ∈ db.alerts.map AlertRow.dedupKey
    · obtain ⟨a, ha, hkey⟩ := List.mem_map.mp hown
      exact settled_own ho hheir hl hk hkept ha hkey
    · obtain ⟨a, ha, c, hc, hg, hkey⟩ := hsome
      exact settled_heir ho hheir hl hk hkept hown ha hc hg hkey
  obtain ⟨x, hx, hkey, hsent⟩ := hsettled
  refine ⟨x, fun y => ⟨fun h => ?_, fun h => ?_⟩, hkey, hsent⟩
  · have hykey := key_of_left ho hheir hl hk hkept h.1 h.2
    exact List.inj_on_of_nodup_map (mem_rekeyAlerts hl).1 h.1 hx (hykey.trans hkey.symm)
  · rw [h]
    exact ⟨hx, k, hk, rfl, hkey⟩

end

end WhaleIntelligence.Migrations
