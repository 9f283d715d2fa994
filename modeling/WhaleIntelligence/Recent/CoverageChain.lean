import WhaleIntelligence.Recent.Pipeline

/- The coverage disclosures of one anchor as a state machine.

   The disclosures form a chain: the key of each one folds in the event id of
   the one before it. So the key of a disclosure that is due is new, whatever the
   sets and the refresh buckets of the history were (`Chain.fresh`), and no due
   disclosure is lost as a duplicate.

   `CoverageInv` is the invariant of a run, `runPass_coverage` the step and
   `runPasses_coverage` the run. `coverage_disclosure_run` reads off what holds
   after every pass. -/
namespace WhaleIntelligence.Recent
open WhaleIntelligence Framing SerialTable

section
variable {x : Crates} {workspace : WorkspaceScope} {token : String}

/-! ## Keys -/

/-- The missing inputs are three names at most, so their set field is small. -/
theorem fits_missing (anchor : ActorExtraction) :
    Fits (setBytes ((missingActorInputs anchor).map utf8)) := by
  unfold missingActorInputs
  cases anchor.deployer.isNone <;> cases anchor.authority.isNone <;> cases anchor.initialFunder.isNone <;> decide

/-- The id of a disclosure, from what the pass lacked and the id before it. -/
def disclosureId (x : Crates) (workspace : WorkspaceScope) (token : String) (p : ActorExtraction × Int64)
    (predecessor : String) : String :=
  coverageEventKey x workspace token (missingActorInputs p.1) p.2 predecessor

theorem disclosureId_predecessor (hsha : Function.Injective x.sha256Hex) (p q : ActorExtraction × Int64)
    (a b : String) (h : disclosureId x workspace token p a = disclosureId x workspace token q b) : a = b :=
  utf8_injective (coveragePreimage_predecessor (fits_missing p.1) (fits_missing q.1) (tagged_injective hsha h))

theorem disclosureId_ne_empty (p : ActorExtraction × Int64) (a : String) :
    disclosureId x workspace token p a ≠ "" := by
  intro h
  have hl := congrArg String.toList h
  rw [disclosureId, coverageEventKey, String.toList_append] at hl
  exact absurd hl (by simp)

/-- A current id is none of the superseded ids of any state. -/
theorem disclosureId_not_legacy (hsha : Function.Injective x.sha256Hex) (p : ActorExtraction × Int64)
    (a : String) (missing : List String) (bucket : Int64) (b : String) :
    disclosureId x workspace token p a ∉ legacyCoverageEventKeys x workspace token missing bucket b := by
  simp only [legacyCoverageEventKeys, List.mem_cons, List.not_mem_nil, or_false, not_or]
  exact ⟨fun h => coveragePreimage_ne_rev065 _ _ (tagged_injective hsha h),
    fun h => coveragePreimage_ne_rev063 _ _ (tagged_injective hsha h)⟩

/-! ## The invariant -/

/-- What holds of the table after the passes `done` of one anchor. -/
structure CoverageInv (x : Crates) (workspace : WorkspaceScope) (token : String) (done : List Pass)
    (t : RecentEvents) : Prop where
  /-- Every row of the workspace is a relation row or a disclosure of the anchor. -/
  owned : ∀ r ∈ t.rows, r.2.workspaceId = workspace.id →
    (∃ b, r.2.eventId = "rel:" ++ b) ∨ r ∈ disclosures t workspace.id token
  chain : Chain (disclosureId x workspace token) ""
    ((disclosures t workspace.id token).reverse.map (·.2.eventId))
  chronological : (disclosures t workspace.id token).Pairwise fun a b => a.2.occurredAt ≤ b.2.occurredAt
  past : ∀ r ∈ disclosures t workspace.id token, ∃ p ∈ done, r.2.occurredAt = pgTime p.now
  level : ∀ r ∈ disclosures t workspace.id token, r.2.coverage = coverageStr (coverageOf r.2.missingInputs)
  silent : disclosures t workspace.id token = [] → ∀ p ∈ done, missingActorInputs p.anchor = []

variable {done : List Pass} {t t' : RecentEvents}

theorem coverageInv_new (h : ∀ r ∈ t.rows, r.2.workspaceId ≠ workspace.id) :
    CoverageInv x workspace token [] t := by
  have hnone : disclosures t workspace.id token = [] := by
    apply List.filter_eq_nil_iff.mpr
    intro r hr
    simp [h r hr]
  refine ⟨fun r hr hw => absurd hw (h r hr), ?_, ?_, ?_, ?_, fun _ p hp => nomatch hp⟩
  · rw [hnone]; exact .nil
  · rw [hnone]; exact List.Pairwise.nil
  · rw [hnone]; exact fun r hr => nomatch hr
  · rw [hnone]; exact fun r hr => nomatch hr

theorem disclosures_ids_ascending (t : RecentEvents) (ws : Int64) (token : String) :
    (disclosures t ws token).Pairwise fun a b => a.1 < b.1 :=
  t.ids_ascending.sublist List.filter_sublist

/-- The state in force is the disclosure inserted last. -/
theorem latestDisclosure_eq (h : (disclosures t workspace.id token).Pairwise
      fun a b => a.2.occurredAt ≤ b.2.occurredAt) :
    latestDisclosure t workspace.id token = (disclosures t workspace.id token).getLast? := by
  rw [latestDisclosure, newestFirst_eq_reverse (disclosures_ids_ascending t _ _) h, List.head?_reverse]

theorem disclosures_append {added : List (Nat × RecentEventRow)} (h : t'.rows = t.rows ++ added) :
    disclosures t' workspace.id token = disclosures t workspace.id token ++
      added.filter fun r => r.2.workspaceId == workspace.id && r.2.anchorIdentity == token &&
        r.2.eventType == "coverage_disclosure" := by
  rw [disclosures, h, List.filter_append, disclosures]

/-- Relation rows leave the disclosures alone. -/
theorem coverageInv_publish {anchor : ActorExtraction} {now : DateTime} {cs : List CandidateRelation}
    {added : List (Nat × RecentEventRow)} (hinv : CoverageInv x workspace token done t)
    (hrows : t'.rows = t.rows ++ added)
    (hadded : ∀ r ∈ added, ∃ c ∈ cs, r.2 = relationRow x workspace anchor now c) :
    CoverageInv x workspace token done t' ∧ disclosures t' workspace.id token = disclosures t workspace.id token := by
  have hsame : disclosures t' workspace.id token = disclosures t workspace.id token := by
    rw [disclosures_append hrows, List.filter_eq_nil_iff.mpr, List.append_nil]
    intro r hr
    obtain ⟨c, -, hc⟩ := hadded r hr
    rw [hc]
    simp [relationRow, relationEvent, RecentEvent.toRow]
  refine ⟨⟨?_, ?_, ?_, ?_, ?_, ?_⟩, hsame⟩
  · intro r hr hw
    rw [hsame]
    rw [hrows] at hr
    rcases List.mem_append.mp hr with hr | hr
    · exact hinv.owned r hr hw
    · obtain ⟨c, -, hc⟩ := hadded r hr
      exact Or.inl ⟨_, congrArg RecentEventRow.eventId hc⟩
  all_goals rw [hsame]
  · exact hinv.chain
  · exact hinv.chronological
  · exact hinv.past
  · exact hinv.level
  · exact hinv.silent

theorem exists_disclosureId {l : List String} (h : Chain (disclosureId x workspace token) "" l) :
    ∀ s ∈ l, ∃ p a, s = disclosureId x workspace token p a := by
  induction h with
  | nil => exact fun s hs => nomatch hs
  | cons p l _ ih =>
    intro s hs
    rcases List.mem_cons.mp hs with rfl | hs
    · exact ⟨p, _, rfl⟩
    · exact ih s hs

theorem predecessorId_eq {anchor : ActorExtraction} (hinv : CoverageInv x workspace anchor.token done t) :
    predecessorId workspace anchor t =
      ((disclosures t workspace.id anchor.token).reverse.map (·.2.eventId)).headD "" := by
  rw [predecessorId, latestDisclosure_eq hinv.chronological, List.headD_eq_head?_getD, List.head?_map,
    List.head?_reverse]

/-- The disclosure of a pass has no row that stands for it. -/
theorem not_disclosureStored (hsha : Function.Injective x.sha256Hex) {anchor : ActorExtraction} {now : DateTime}
    (hinv : CoverageInv x workspace anchor.token done t) : ¬ DisclosureStored x workspace anchor now t := by
  have hids : ∀ r ∈ disclosures t workspace.id anchor.token,
      r.2.eventId ∈ (disclosures t workspace.id anchor.token).reverse.map (·.2.eventId) := fun r hr =>
    List.mem_map.mpr ⟨r, List.mem_reverse.mpr hr, rfl⟩
  intro h
  rcases h with h | h
  · -- no row of the workspace has a superseded key
    obtain ⟨r, hr, hw, hkey, -⟩ := legacyRow_iff.mp h
    rcases hinv.owned r hr hw with ⟨b, hb⟩ | hr
    · rw [hb] at hkey
      simp only [legacyCoverageEventKeys, List.mem_cons, List.not_mem_nil, or_false] at hkey
      rcases hkey with hkey | hkey
      · exact rel_ne_cov _ _ hkey
      · exact rel_ne_cov _ _ hkey
    · obtain ⟨p, a, hp⟩ := exists_disclosureId hinv.chain _ (hids r hr)
      rw [hp] at hkey
      exact disclosureId_not_legacy hsha p a _ _ _ hkey
  · -- and none has the new key
    obtain ⟨r, hr, hkey⟩ := Table.mem_keys.mp h
    obtain ⟨hw, hid⟩ := Prod.mk.inj hkey
    rcases hinv.owned r hr hw with ⟨b, hb⟩ | hr
    · rw [hb] at hid
      exact rel_ne_cov _ _ hid
    · refine hinv.chain.fresh (disclosureId_predecessor hsha) disclosureId_ne_empty
        (anchor, refreshBucket now) ?_
      rw [← predecessorId_eq hinv,
        ← show r.2.eventId = disclosureId x workspace anchor.token (anchor, refreshBucket now) _ from hid]
      exact hids r hr

/-! ## One pass -/

/-- What holds right after the pass `p`. -/
def CoverageState (workspace : WorkspaceScope) (token : String) (done : List Pass) (p : Pass) (t : RecentEvents) :
    Prop :=
  (latestDisclosure t workspace.id token = none ∧ ∀ q ∈ done ++ [p], missingActorInputs q.anchor = []) ∨
  ∃ r, latestDisclosure t workspace.id token = some r ∧ r.2.missingInputs = missingActorInputs p.anchor ∧
    r.2.coverage = coverageStr (coverageOf (missingActorInputs p.anchor)) ∧
    numSeconds (p.now - r.2.occurredAt) < coverageRefreshSeconds

/-- A disclosure joins the chain, newer than all the others. -/
theorem coverageInv_disclose {p : Pass} (htoken : p.anchor.token = token)
    (hclock : ∀ q ∈ done, q.now ≤ p.now) (hinv : CoverageInv x workspace token done t)
    (hrows : t'.rows = t.rows ++
      [(t.nextId, coverageRow x workspace p.anchor p.now (predecessorId workspace p.anchor t))]) :
    CoverageInv x workspace token (done ++ [p]) t' ∧
      disclosures t' workspace.id token = disclosures t workspace.id token ++
        [(t.nextId, coverageRow x workspace p.anchor p.now (predecessorId workspace p.anchor t))] := by
  subst htoken
  have hsame : disclosures t' workspace.id p.anchor.token = disclosures t workspace.id p.anchor.token ++
      [(t.nextId, coverageRow x workspace p.anchor p.now (predecessorId workspace p.anchor t))] := by
    rw [disclosures_append hrows, List.filter_singleton]
    simp [coverageRow, coverageEvent, RecentEvent.toRow]
  have hpast : ∀ r ∈ disclosures t workspace.id p.anchor.token, r.2.occurredAt ≤ pgTime p.now := by
    intro r hr
    obtain ⟨q, hq, hqr⟩ := hinv.past r hr
    rw [hqr]
    exact pgTime_mono (hclock q hq)
  refine ⟨⟨?_, ?_, ?_, ?_, ?_, ?_⟩, hsame⟩
  · rw [hrows, hsame]
    refine List.forall_mem_append.mpr ⟨fun r hr hw => ?_, fun r hr _ => Or.inr (List.mem_append_right _ hr)⟩
    exact (hinv.owned r hr hw).imp_right (List.mem_append_left _)
  · rw [hsame, List.reverse_append, List.reverse_singleton, List.singleton_append, List.map_cons]
    have hcons := Chain.cons (p.anchor, refreshBucket p.now) _ hinv.chain
    rw [← predecessorId_eq hinv] at hcons
    exact hcons
  · rw [hsame, List.pairwise_append]
    exact ⟨hinv.chronological, List.pairwise_singleton _ _,
      fun a ha => List.forall_mem_singleton.mpr (hpast a ha)⟩
  · rw [hsame]
    refine List.forall_mem_append.mpr ⟨fun r hr => ?_, List.forall_mem_singleton.mpr ⟨p, by simp, rfl⟩⟩
    obtain ⟨q, hq, hqr⟩ := hinv.past r hr
    exact ⟨q, List.mem_append_left _ hq, hqr⟩
  · rw [hsame]
    exact List.forall_mem_append.mpr ⟨hinv.level, List.forall_mem_singleton.mpr rfl⟩
  · simp [hsame]

theorem mustDisclose_none (anchor : ActorExtraction) (now : DateTime) :
    mustDisclose anchor now none = !(missingActorInputs anchor).isEmpty := by
  simp [mustDisclose, coverageChanged, firstAndFull]

theorem mustDisclose_some (anchor : ActorExtraction) (now : DateTime) (r : Nat × RecentEventRow) :
    mustDisclose anchor now (some r) = (coverageChanged anchor (some r) || coverageStale now (some r)) := by
  simp [mustDisclose, firstAndFull]

/-- Without a due disclosure the state in force is already that of the pass. -/
theorem coverageState_of_not_due {p : Pass} (hinv : CoverageInv x workspace token done t)
    (hm : mustDisclose p.anchor p.now (latestDisclosure t workspace.id token) = false) :
    CoverageState workspace token done p t := by
  cases hl : latestDisclosure t workspace.id token with
  | none =>
    rw [hl, mustDisclose_none, Bool.not_eq_false', List.isEmpty_iff] at hm
    have hnil : disclosures t workspace.id token = [] := by
      rw [latestDisclosure_eq hinv.chronological] at hl
      exact List.getLast?_eq_none_iff.mp hl
    refine Or.inl ⟨hl, fun q hq => ?_⟩
    rcases List.mem_append.mp hq with hq | hq
    · exact hinv.silent hnil q hq
    · rw [List.mem_singleton.mp hq, hm]
  | some r =>
    have hr : r ∈ disclosures t workspace.id token := by
      rw [latestDisclosure_eq hinv.chronological] at hl
      exact List.mem_of_getLast? hl
    rw [hl, mustDisclose_some, Bool.or_eq_false_iff] at hm
    have hset : r.2.missingInputs = missingActorInputs p.anchor := by simpa [coverageChanged] using hm.1
    have hage : numSeconds (p.now - r.2.occurredAt) < coverageRefreshSeconds := by
      simpa [coverageStale] using hm.2
    exact Or.inr ⟨r, hl, hset, by rw [hinv.level r hr, hset], hage⟩

/-- A pass without a due disclosure keeps the invariant. -/
theorem coverageInv_not_due {p : Pass} (hinv : CoverageInv x workspace token done t)
    (hm : mustDisclose p.anchor p.now (latestDisclosure t workspace.id token) = false)
    (hrows : t'.rows = t.rows) :
    CoverageInv x workspace token (done ++ [p]) t' ∧
      disclosures t' workspace.id token = disclosures t workspace.id token := by
  have hsame : disclosures t' workspace.id token = disclosures t workspace.id token := by
    rw [disclosures, hrows, disclosures]
  refine ⟨⟨?_, ?_, ?_, ?_, ?_, ?_⟩, hsame⟩
  all_goals rw [hsame]
  · rw [hrows]; exact hinv.owned
  · exact hinv.chain
  · exact hinv.chronological
  · intro r hr
    obtain ⟨q, hq, hqr⟩ := hinv.past r hr
    exact ⟨q, List.mem_append_left _ hq, hqr⟩
  · exact hinv.level
  · intro hnil
    rcases coverageState_of_not_due hinv hm with ⟨-, hfull⟩ | ⟨r, hr, -⟩
    · exact hfull
    · rw [latestDisclosure_eq hinv.chronological, hnil] at hr
      cases hr

/-- One pass: it never fails, the invariant holds after it, the state in force is
its own, and the disclosures grow by one exactly when one is due. -/
theorem runPass_coverage (hsha : Function.Injective x.sha256Hex) {p : Pass} (htoken : p.anchor.token = token)
    (htrig : p.Triggered) (hclock : ∀ q ∈ done, q.now ≤ p.now) (hinv : CoverageInv x workspace token done t) :
    ∃ t' o, runPass x workspace t p = .ok (t', o) ∧ CoverageInv x workspace token (done ++ [p]) t' ∧
      CoverageState workspace token done p t' ∧
      (mustDisclose p.anchor p.now (latestDisclosure t workspace.id token) = true →
        ∃ r, disclosures t' workspace.id token = disclosures t workspace.id token ++ [r]) ∧
      (mustDisclose p.anchor p.now (latestDisclosure t workspace.id token) = false →
        disclosures t' workspace.id token = disclosures t workspace.id token) := by
  subst htoken
  obtain ⟨t₁, o₁, added, hpub, hrows₁, hadded⟩ := publishAll_ok x workspace p.anchor p.now
    (p.candidates x workspace) t (p.outcome x workspace)
  obtain ⟨hinv₁, hsame₁⟩ := coverageInv_publish hinv hrows₁ hadded
  have hlatest : latestDisclosure t₁ workspace.id p.anchor.token =
      latestDisclosure t workspace.id p.anchor.token := by
    rw [latestDisclosure, latestDisclosure, hsame₁]
  obtain ⟨t₂, o₂, hdis, hstep⟩ := disclose_step x workspace p.anchor p.now t₁ o₁
  refine ⟨t₂, o₂, by rw [runPass_eq htrig, hpub]; exact hdis, ?_⟩
  rw [hlatest] at hstep
  rcases hstep with ⟨hm, -, hrows₂⟩ | ⟨hm, hrows₂⟩
  · obtain ⟨hinv₂, hsame₂⟩ := coverageInv_disclose rfl hclock hinv₁ hrows₂
    refine ⟨hinv₂, Or.inr ⟨(t₁.nextId, coverageRow x workspace p.anchor p.now (predecessorId workspace p.anchor t₁)),
      ?_, rfl, rfl, ?_⟩, fun _ => ⟨_, by rw [hsame₂, hsame₁]⟩, fun h => ?_⟩
    · rw [latestDisclosure_eq hinv₂.chronological, hsame₂, List.getLast?_concat]
    · show numSeconds (p.now - pgTime p.now) < coverageRefreshSeconds
      rw [pgTime_near]
      decide
    · rw [hm] at h; cases h
  · have hm : mustDisclose p.anchor p.now (latestDisclosure t workspace.id p.anchor.token) = false :=
      hm.resolve_right (not_disclosureStored hsha hinv₁)
    rw [← hlatest] at hm
    obtain ⟨hinv₂, hsame₂⟩ := coverageInv_not_due hinv₁ hm hrows₂
    have hstate := coverageState_of_not_due hinv₁ hm
    refine ⟨hinv₂, ?_, fun h => ?_, fun _ => by rw [hsame₂, hsame₁]⟩
    · unfold CoverageState at hstate ⊢
      rwa [latestDisclosure, hsame₂, ← latestDisclosure]
    · rw [← hlatest, hm] at h; cases h

/-! ## Runs -/

theorem runPasses_coverage (hsha : Function.Injective x.sha256Hex) : ∀ (passes : List Pass) (done : List Pass)
    (t : RecentEvents), CoverageInv x workspace token done t →
    (∀ p ∈ passes, p.anchor.token = token ∧ p.Triggered) →
    (done ++ passes).Pairwise (fun p q => p.now ≤ q.now) →
    ∃ t', runPasses x workspace t passes = .ok t' ∧ CoverageInv x workspace token (done ++ passes) t'
  | [], done, t, hinv, _, _ => ⟨t, rfl, by rwa [List.append_nil]⟩
  | p :: passes, done, t, hinv, hp, hclock => by
    obtain ⟨htoken, htrig⟩ := hp p List.mem_cons_self
    have hbefore : ∀ q ∈ done, q.now ≤ p.now := fun q hq =>
      (List.pairwise_append.mp hclock).2.2 q hq p List.mem_cons_self
    obtain ⟨t₁, o, hrun, hinv₁, -⟩ := runPass_coverage hsha htoken htrig hbefore hinv
    obtain ⟨t', hrest, hinv'⟩ := runPasses_coverage hsha passes (done ++ [p]) t₁ hinv₁
      (fun q hq => hp q (List.mem_cons_of_mem _ hq)) (by rwa [List.append_assoc])
    exact ⟨t', by rw [runPasses_cons hrun, hrest], by rwa [List.append_assoc] at hinv'⟩

variable (workspace token)

/-- After every pass of every run the coverage in force is that of the pass, no
due disclosure is lost, and an unchanged, fresh state adds none. -/
theorem coverage_disclosure_run (hsha : Function.Injective x.sha256Hex) (t₀ : RecentEvents)
    (hnew : ∀ r ∈ t₀.rows, r.2.workspaceId ≠ workspace.id) (passes : List Pass) (p : Pass)
    (hpasses : ∀ q ∈ passes ++ [p], q.anchor.token = token ∧ q.Triggered)
    (hclock : (passes ++ [p]).Pairwise fun q r => q.now ≤ r.now) :
    ∃ t t' o, runPasses x workspace t₀ passes = .ok t ∧ runPass x workspace t p = .ok (t', o) ∧
      CoverageState workspace token passes p t' ∧
      ((coverageChanged p.anchor (latestDisclosure t workspace.id token) = true ∨
          coverageStale p.now (latestDisclosure t workspace.id token) = true) →
        firstAndFull p.anchor (latestDisclosure t workspace.id token) = false →
        ∃ r, disclosures t' workspace.id token = disclosures t workspace.id token ++ [r]) ∧
      (coverageChanged p.anchor (latestDisclosure t workspace.id token) = false →
        coverageStale p.now (latestDisclosure t workspace.id token) = false →
        disclosures t' workspace.id token = disclosures t workspace.id token) := by
  obtain ⟨t, hrun, hinv⟩ := runPasses_coverage hsha passes [] t₀ (coverageInv_new hnew)
    (fun q hq => hpasses q (List.mem_append_left _ hq)) (List.pairwise_append.mp hclock).1
  obtain ⟨htoken, htrig⟩ := hpasses p (by simp)
  obtain ⟨t', o, hpass, -, hstate, hdue, hsame⟩ := runPass_coverage hsha htoken htrig
    (fun q hq => (List.pairwise_append.mp hclock).2.2 q hq p (by simp)) hinv
  refine ⟨t, t', o, hrun, hpass, hstate, fun h hf => hdue ?_, fun hc hs => hsame ?_⟩
  · rw [mustDisclose, hf, Bool.not_false, Bool.and_true, Bool.or_eq_true]
    exact h
  · rw [mustDisclose, hc, hs, Bool.or_self, Bool.false_and]

end

/-- The SHA-256 digests of the keys that two disclosures in one bucket compute,
each current one followed by its two superseded ones. -/
def twoDisclosureDigests : List (Bytes × String) :=
  let first := coverageKeyInput sampleWorkspace "solana:AAA" ["deployer", "authority", "initial_funder"] 0 ""
  let second := coverageKeyInput sampleWorkspace "solana:AAA" ["authority", "initial_funder"] 0
    "cov:4630ae44bac5dee22803accb1c7993b652553e04b8388c5ddcb3f7ef1a6cf8cb"
  [(coveragePreimage first, "4630ae44bac5dee22803accb1c7993b652553e04b8388c5ddcb3f7ef1a6cf8cb"),
    (coveragePreimageRev065 first, "ea08844c176b783c0541893be8c496ab843269cefe6ec0a8eb2d52a05d31c999"),
    (coveragePreimageRev063 first, "962bcf779405f1221c3205a67c4b1fc444ade7a8a703723f085c8b47344a0658"),
    (coveragePreimage second, "8b016675720818522acf7f58723ace8b33d53d8aa83ac3391df2de04bfdae9d5"),
    (coveragePreimageRev065 second, "ef634607a1b1b4cf145263430f894dd6b8bedc8dc374d667aef8c65f1df114c9"),
    (coveragePreimageRev063 second, "59e96f50433acba1914dbc1d5ae53fb6cfd72e298abe774499147400cf009c8e")]

/-- A pass over an empty graph, with or without the deployer. -/
def gapPass (deployer : Option String) (now : DateTime) : Pass :=
  ⟨.active, some .migration, ⟨"solana:AAA", deployer, none, none, none, none, []⟩, [], [], [], now⟩

/-- A gap of three inputs and, ten seconds later, one of two. -/
theorem coverage_disclosure_run_two :
    ∃ t t' o, runPasses (tableCrates [] [] twoDisclosureDigests) sampleWorkspace Table.empty [gapPass none 0] =
        .ok t ∧
      runPass (tableCrates [] [] twoDisclosureDigests) sampleWorkspace t (gapPass (some "solana:D") 10000000000) =
        .ok (t', o) ∧
      CoverageState sampleWorkspace "solana:AAA" [gapPass none 0] (gapPass (some "solana:D") 10000000000) t' := by
  have hsha : Function.Injective (tableCrates [] [] twoDisclosureDigests).sha256Hex :=
    tableCrates_injective (by decide +kernel) (by decide +kernel)
  obtain ⟨t, t', o, hrun, hpass, hstate, -⟩ := coverage_disclosure_run sampleWorkspace "solana:AAA" hsha Table.empty
    (fun r hr => nomatch hr) [gapPass none 0] (gapPass (some "solana:D") 10000000000)
    (by
      intro q hq
      simp only [List.cons_append, List.nil_append, List.mem_cons, List.not_mem_nil, or_false] at hq
      rcases hq with rfl | rfl <;> exact ⟨rfl, rfl⟩)
    (by simp [gapPass])
  exact ⟨t, t', o, hrun, hpass, hstate⟩

end WhaleIntelligence.Recent
