import WhaleIntelligence.Recent.Publication

/- The current view of the relations after each pass of a run.

   The store decides by content whether a candidate is new, and the view decides
   by time which row is in force. The two disagree when a relation goes back to
   a tuple it had before: the pass appends nothing, and the view keeps the row
   written in between. `fetchRelations_run` says exactly when the view shows what
   the pass resolved: the row in force before the pass is for the same tuple, or
   the tuple was never published. `fetchRelations_stale` is a run of three passes
   that ends in the other case. -/
namespace WhaleIntelligence.Recent
open WhaleIntelligence Framing FirstWins SerialTable

/-! ## What is claimed of the view -/

/-- The relation rows of a token, in insertion order. -/
def relationRows (t : RecentEvents) (workspaceId : Int64) (token : String) : List (Nat × RecentEventRow) :=
  t.rows.filter fun r => r.2.workspaceId == workspaceId && r.2.tokenIdentity == token && r.2.relation.isSome

/-- The view has exactly one row for the relation and target of `c`, with its
confidence and its evidence set. -/
def Reflects (view : List CandidateRelation) (c : CandidateRelation) : Prop :=
  ∃ d, view.filter (fun e => e.key = c.key) = [d] ∧ d.confidence = c.confidence ∧
    ∀ e, e ∈ d.evidenceRefs ↔ e ∈ c.evidenceRefs

/-- The row published last for the relation and target of `c` is for the tuple of `c`. -/
def InForce (workspace : WorkspaceScope) (t : RecentEvents) (anchor : String) (c : CandidateRelation) : Prop :=
  ∃ r ∈ t.rows, r.2.workspaceId = workspace.id ∧ Publishes r.2 anchor c ∧
    ∀ s ∈ t.rows, s.2.workspaceId = workspace.id → ∀ d, Publishes s.2 anchor d → d.key = c.key → s.1 ≤ r.1

/-- The candidates a pass resolves: none when it is not triggered. -/
def Pass.resolved (x : Crates) (workspace : WorkspaceScope) (p : Pass) : List CandidateRelation :=
  if shouldTriggerLookup p.lifecycle p.trigger then p.candidates x workspace else []

/-- What holds of the table before the passes `todo` of one anchor. -/
structure ProjectionInv (x : Crates) (workspace : WorkspaceScope) (token : String) (todo : List Pass)
    (t : RecentEvents) : Prop where
  history : History x workspace t
  /-- A row of the token with a relation is a confirmed relation event. -/
  confirmed : ∀ r ∈ relationRows t workspace.id token,
    r.2.eventType = "relation_resolved" ∧ r.2.truthStatus = "confirmed"
  unretracted : ∀ r ∈ t.rows, r.2.workspaceId = workspace.id → r.2.retraction = none
  chronological : (relationRows t workspace.id token).Pairwise fun a b => a.2.occurredAt ≤ b.2.occurredAt
  past : ∀ r ∈ relationRows t workspace.id token, ∀ p ∈ todo, r.2.occurredAt ≤ pgTime p.now

section
variable {x : Crates} {workspace : WorkspaceScope} {token : String} {todo : List Pass} {t t' : RecentEvents}
  {c d : CandidateRelation}

theorem mem_relationRows {r : Nat × RecentEventRow} : r ∈ relationRows t workspace.id token ↔
    r ∈ t.rows ∧ r.2.workspaceId = workspace.id ∧ r.2.tokenIdentity = token ∧ r.2.relation.isSome = true := by
  simp only [relationRows, List.mem_filter, Bool.and_eq_true, beq_iff_eq, and_assoc]

theorem projectionInv_new (h : ∀ r ∈ t.rows, r.2.workspaceId ≠ workspace.id) :
    ProjectionInv x workspace token todo t := by
  have hnone : relationRows t workspace.id token = [] :=
    List.filter_eq_nil_iff.mpr fun r hr => by simp [h r hr]
  refine ⟨fun r hr hw => absurd hw (h r hr), ?_, fun r hr hw => absurd hw (h r hr), ?_, ?_⟩
  · rw [hnone]; exact fun r hr => nomatch hr
  · rw [hnone]; exact List.Pairwise.nil
  · rw [hnone]; exact fun r hr => nomatch hr

/-! ## The view is the newest row of each key -/

/-- The candidates of a row published for a tuple: that tuple. -/
theorem candidates_of_publishes {r : RecentEventRow} (h : Publishes r token d) :
    r.candidates = [⟨d.toIdentity, d.relation, d.confidence, r.evidenceRefs⟩] := by
  rw [RecentEventRow.candidates, h.relation, h.target, h.confidence, confidenceFromStr_asStr]
  rfl

/-- Searching a stream that takes one element from each source is searching the sources. -/
theorem find?_flatMap_singleton {α β : Type} {f : α → List β} {p : β → Bool} (l : List α)
    (h : ∀ a ∈ l, ∃ b, f a = [b]) :
    (l.flatMap f).find? p = (l.find? fun a => (f a).any p).bind fun a => (f a).head? := by
  induction l with
  | nil => rfl
  | cons a l ih =>
    obtain ⟨b, hb⟩ := h a List.mem_cons_self
    have hrest := ih fun a' ha' => h a' (List.mem_cons_of_mem _ ha')
    rw [List.flatMap_cons, hb, List.singleton_append, List.find?_cons, List.find?_cons, hb]
    cases hp : p b
    · simp [hp, hrest]
    · simp [hp, hb]

/-- A relation row of the token was published for some tuple. -/
theorem ProjectionInv.publishes (hinv : ProjectionInv x workspace token todo t) {r : Nat × RecentEventRow}
    (hr : r ∈ relationRows t workspace.id token) : ∃ d, Publishes r.2 token d := by
  obtain ⟨hmem, hw, htok, -⟩ := mem_relationRows.mp hr
  rcases hinv.history r hmem hw with ⟨anchor, d, enc, hrel⟩ | ⟨htype, -⟩
  · have hanchor : anchor = token := by
      have hcheck := (t.checked r hmem).anchorInvariant
      rw [← htok, ← hcheck.2, ← hcheck.1, hrel.publishes.anchor]
    exact ⟨d, hanchor ▸ hrel.publishes⟩
  · exact absurd (hinv.confirmed r hr).1 htype

/-- A row of the workspace published for a tuple of the token is one of its relation rows. -/
theorem mem_relationRows_of_publishes {r : Nat × RecentEventRow} (hr : r ∈ t.rows)
    (hw : r.2.workspaceId = workspace.id) (h : Publishes r.2 token d) : r ∈ relationRows t workspace.id token := by
  have hcheck := (t.checked r hr).anchorInvariant
  refine mem_relationRows.mpr ⟨hr, hw, ?_, by rw [h.relation]; rfl⟩
  rw [← hcheck.2, ← hcheck.1, h.anchor]

/-- Without retractions the view reads the relation rows backwards. -/
theorem fetchRelations_eq (hinv : ProjectionInv x workspace token todo t) :
    fetchRelations t workspace.id token = firstWins CandidateRelation.key
      ((relationRows t workspace.id token).reverse.flatMap fun r => r.2.candidates) := by
  have hrows : (t.rows.filter fun r => inCurrentView t workspace.id token r.2) =
      relationRows t workspace.id token := by
    apply List.filter_congr
    intro r hr
    by_cases hrel : r ∈ relationRows t workspace.id token
    · obtain ⟨-, hw, htok, hsome⟩ := mem_relationRows.mp hrel
      have hno : (t.rows.any fun s => retracts s.2 r.2) = false := by
        apply List.any_eq_false.mpr
        intro s hs
        by_cases hsw : s.2.workspaceId = r.2.workspaceId
        · rw [retracts, hinv.unretracted s hs (hsw.trans hw)]
          simp
        · simp [retracts, hsw]
      simp [inCurrentView, hw, htok, hsome, hno, (hinv.confirmed r hrel).2]
    · have hout : (r.2.workspaceId == workspace.id && r.2.tokenIdentity == token && r.2.relation.isSome) = false :=
        Bool.not_eq_true _ ▸ fun h => hrel (List.mem_filter.mpr ⟨hr, h⟩)
      rw [inCurrentView, hout, Bool.false_and, Bool.false_and]
  rw [fetchRelations, hrows, newestFirst_eq_reverse _ hinv.chronological]
  exact t.ids_ascending.sublist List.filter_sublist

/-- The relation row inserted last for the key of `c`. -/
def newestRow (t : RecentEvents) (workspaceId : Int64) (token : String) (c : CandidateRelation) :
    Option (Nat × RecentEventRow) :=
  (relationRows t workspaceId token).reverse.find? fun r => r.2.candidates.any fun e => e.key = c.key

theorem filter_fetchRelations (hinv : ProjectionInv x workspace token todo t) (c : CandidateRelation) :
    (fetchRelations t workspace.id token).filter (fun e => e.key = c.key) =
      ((newestRow t workspace.id token c).bind fun r => r.2.candidates.head?).toList := by
  rw [fetchRelations_eq hinv, filter_firstWins, find?_flatMap_singleton, newestRow]
  intro r hr
  obtain ⟨d, hd⟩ := hinv.publishes (List.mem_reverse.mp hr)
  exact ⟨_, candidates_of_publishes hd⟩

theorem any_key_iff {r : RecentEventRow} (hd : Publishes r token d) :
    (r.candidates.any fun e => e.key = c.key) = true ↔ d.key = c.key := by
  rw [candidates_of_publishes hd]
  simp [CandidateRelation.key]

/-- The newest row of a key: a row published for it, and no later row is. -/
theorem newestRow_eq_some (hinv : ProjectionInv x workspace token todo t) {r : Nat × RecentEventRow} :
    newestRow t workspace.id token c = some r ↔
      r ∈ t.rows ∧ r.2.workspaceId = workspace.id ∧ (∃ d, Publishes r.2 token d ∧ d.key = c.key) ∧
        ∀ s ∈ t.rows, s.2.workspaceId = workspace.id → ∀ d, Publishes s.2 token d → d.key = c.key → s.1 ≤ r.1 := by
  have hids : (relationRows t workspace.id token).Pairwise fun a b => a.1 < b.1 :=
    t.ids_ascending.sublist List.filter_sublist
  rw [newestRow, find?_reverse_eq_some_iff hids]
  refine ⟨fun h => ?_, fun h => ?_⟩
  · obtain ⟨hr, hany, hmax⟩ := h
    obtain ⟨d, hd⟩ := hinv.publishes hr
    obtain ⟨hmem, hw, -⟩ := mem_relationRows.mp hr
    refine ⟨hmem, hw, ⟨d, hd, (any_key_iff hd).mp hany⟩, fun s hs hsw d' hd' hk => ?_⟩
    exact hmax s (mem_relationRows_of_publishes hs hsw hd') ((any_key_iff hd').mpr hk)
  · obtain ⟨hmem, hw, ⟨d, hd, hk⟩, hmax⟩ := h
    refine ⟨mem_relationRows_of_publishes hmem hw hd, (any_key_iff hd).mpr hk, fun s hs hany => ?_⟩
    obtain ⟨d', hd'⟩ := hinv.publishes hs
    obtain ⟨hsmem, hsw, -⟩ := mem_relationRows.mp hs
    exact hmax s hsmem hsw d' hd' ((any_key_iff hd').mp hany)

/-- The view shows `c` exactly when the row in force for its key is for its tuple. -/
theorem reflects_iff_inForce (hinv : ProjectionInv x workspace token todo t) :
    Reflects (fetchRelations t workspace.id token) c ↔ InForce workspace t token c := by
  rw [Reflects, filter_fetchRelations hinv]
  refine ⟨fun h => ?_, fun h => ?_⟩
  · obtain ⟨e, hfilter, hconf, hev⟩ := h
    cases hf : newestRow t workspace.id token c with
    | none => rw [hf] at hfilter; cases hfilter
    | some r =>
      obtain ⟨hmem, hw, ⟨d, hd, hk⟩, hmax⟩ := (newestRow_eq_some hinv).mp hf
      rw [hf, Option.bind_some, candidates_of_publishes hd] at hfilter
      have he : e = ⟨d.toIdentity, d.relation, d.confidence, r.2.evidenceRefs⟩ :=
        (List.singleton_inj.mp hfilter).symm
      obtain ⟨hto, hrel⟩ := key_eq_iff.mp hk
      have htuple : SameTuple d c :=
        ⟨hto, hrel, by rw [← hconf, he], fun s => by rw [← hev, he, hd.evidence]⟩
      exact ⟨r, hmem, hw, publishes_of_sameTuple htuple hd, hmax⟩
  · obtain ⟨r, hmem, hw, hpub, hmax⟩ := h
    have hf := (newestRow_eq_some hinv).mpr ⟨hmem, hw, ⟨c, hpub, rfl⟩, hmax⟩
    refine ⟨⟨c.toIdentity, c.relation, c.confidence, r.2.evidenceRefs⟩, ?_, rfl, hpub.evidence⟩
    rw [hf, Option.bind_some, candidates_of_publishes hpub]
    rfl

/-! ## One pass -/

/-- The relation rows that a pass adds are those of its candidates. -/
structure PassRows (x : Crates) (workspace : WorkspaceScope) (p : Pass) (t t' : RecentEvents)
    (added : List (Nat × RecentEventRow)) : Prop where
  rows : t'.rows = t.rows ++ added
  history : History x workspace t'
  origin : ∀ r ∈ added, (∃ c ∈ p.resolved x workspace, r.2 = relationRow x workspace p.anchor p.now c) ∨
    ∃ predecessor, r.2 = coverageRow x workspace p.anchor p.now predecessor
  appended : ∀ c ∈ p.resolved x workspace, (∃ r ∈ added, r.2 = relationRow x workspace p.anchor p.now c) ↔
    ¬ Published workspace t p.anchor.token c

/-- A pass never fails, triggered or not. -/
theorem runPass_rows (hsha : Function.Injective x.sha256Hex) {p : Pass} (hist : History x workspace t)
    (hfit : ∀ c ∈ p.resolved x workspace, (candidateInput workspace p.anchor.token c).Fit) :
    ∃ t' o added, runPass x workspace t p = .ok (t', o) ∧ PassRows x workspace p t t' added := by
  by_cases htrig : p.Triggered
  · have hres : p.resolved x workspace = p.candidates x workspace := if_pos htrig
    rw [hres] at hfit
    obtain ⟨t', o, added, coverage, hrun, hrows, hist', hof, hiff, hcov⟩ := runPass_step hsha htrig hist hfit
    refine ⟨t', o, added ++ coverage, hrun, hrows, hist', ?_, ?_⟩
    · intro r hr
      rw [hres]
      rcases List.mem_append.mp hr with hr | hr
      · exact Or.inl (hof r hr)
      · exact Or.inr (hcov r hr)
    · intro c hc
      rw [hres] at hc
      rw [← hiff c hc]
      refine ⟨fun h => ?_, fun h => ?_⟩
      · obtain ⟨r, hr, hrc⟩ := h
        rcases List.mem_append.mp hr with hr | hr
        · exact ⟨r, hr, hrc⟩
        · obtain ⟨pre, hpre⟩ := hcov r hr
          have htype := (coverageRow_no_relation x workspace p.anchor p.now pre).1
          rw [← hpre, hrc] at htype
          exact absurd rfl htype
      · obtain ⟨r, hr, hrc⟩ := h
        exact ⟨r, List.mem_append_left _ hr, hrc⟩
  · have hres : p.resolved x workspace = [] := if_neg htrig
    have hidle : runPass x workspace t p = .ok (t, { PipelineOutcome.default with skippedNotTriggered := true }) := by
      unfold Pass.Triggered at htrig
      rw [Bool.not_eq_true] at htrig
      rw [runPass, runForAnchor, htrig]
      rfl
    refine ⟨t, _, [], hidle, by rw [List.append_nil], hist, by simp, ?_⟩
    simp [hres]

theorem resolved_keys_nodup (x : Crates) (workspace : WorkspaceScope) (p : Pass) :
    ((p.resolved x workspace).map CandidateRelation.key).Nodup := by
  unfold Pass.resolved
  split
  · exact candidates_keys_nodup x workspace p
  · exact List.nodup_nil

variable {p : Pass} {added : List (Nat × RecentEventRow)}

/-- A row that the pass adds for the key of one of its candidates is the candidate's row. -/
theorem PassRows.row_eq (h : PassRows x workspace p t t' added) (hc : c ∈ p.resolved x workspace)
    {r : Nat × RecentEventRow} (hr : r ∈ added) (hpub : Publishes r.2 p.anchor.token d) (hkey : d.key = c.key) :
    r.2 = relationRow x workspace p.anchor p.now c := by
  rcases h.origin r hr with ⟨e, he, hre⟩ | ⟨pre, hpre⟩
  · have hed : e.key = d.key := key_of_publishes_row (hre ▸ hpub)
    rw [hre, List.inj_on_of_nodup_map (resolved_keys_nodup x workspace p) he hc (hed.trans hkey)]
  · exact absurd hpub.eventType (hpre ▸ (coverageRow_no_relation x workspace p.anchor p.now pre).1)

/-- After the pass the tuple of a candidate is in force exactly when it was in
force before or is new. -/
theorem PassRows.inForce_iff (h : PassRows x workspace p t t' added) (hc : c ∈ p.resolved x workspace) :
    InForce workspace t' p.anchor.token c ↔
      (Published workspace t p.anchor.token c → InForce workspace t p.anchor.token c) := by
  by_cases hpub : Published workspace t p.anchor.token c
  · -- the pass adds no row for the key
    have hnone : ∀ r ∈ added, ∀ d, Publishes r.2 p.anchor.token d → d.key ≠ c.key := fun r hr d hd hkey =>
      (h.appended c hc).mp ⟨r, hr, h.row_eq hc hr hd hkey⟩ hpub
    simp only [hpub, true_implies]
    refine ⟨fun h => ?_, fun h => ?_⟩
    · obtain ⟨r, hr, hw, hrc, hmax⟩ := h
      rw [h.rows] at hr hmax
      rcases List.mem_append.mp hr with hr | hr
      · exact ⟨r, hr, hw, hrc, fun s hs => hmax s (List.mem_append_left _ hs)⟩
      · exact absurd rfl (hnone r hr c hrc)
    · obtain ⟨r, hr, hw, hrc, hmax⟩ := h
      refine ⟨r, h.rows ▸ List.mem_append_left _ hr, hw, hrc, fun s hs hsw d hd hkey => ?_⟩
      rw [h.rows] at hs
      rcases List.mem_append.mp hs with hs | hs
      · exact hmax s hs hsw d hd hkey
      · exact absurd hkey (hnone s hs d hd)
  · -- the pass adds the row of the candidate, with an id above all the old ones
    refine iff_of_true ?_ fun hp => absurd hp hpub
    obtain ⟨r, hr, hrow⟩ := (h.appended c hc).mpr hpub
    have hmem : r ∈ t'.rows := h.rows ▸ List.mem_append_right _ hr
    refine ⟨r, hmem, by rw [hrow]; rfl, hrow ▸ relationRow_publishes c, fun s hs hsw d hd hkey => ?_⟩
    have hs' := hs
    rw [h.rows] at hs'
    rcases List.mem_append.mp hs' with hold | hnew
    · have hasc := t'.ids_ascending
      rw [h.rows] at hasc
      exact Nat.le_of_lt ((List.pairwise_append.mp hasc).2.2 s hold r hr)
    · have heq : s = r := List.inj_on_of_nodup_map t'.keys_nodup hs hmem
        (by rw [h.row_eq hc hnew hd hkey, hrow])
      exact Nat.le_of_eq (congrArg Prod.fst heq)

/-- A pass keeps the invariant for the passes after it. -/
theorem PassRows.inv (h : PassRows x workspace p t t' added) (htoken : p.anchor.token = token)
    (hclock : ∀ q ∈ todo, p.now ≤ q.now) (hinv : ProjectionInv x workspace token (p :: todo) t) :
    ProjectionInv x workspace token todo t' := by
  subst htoken
  have hrows : relationRows t' workspace.id p.anchor.token = relationRows t workspace.id p.anchor.token ++
      added.filter fun r => r.2.workspaceId == workspace.id && r.2.tokenIdentity == p.anchor.token &&
        r.2.relation.isSome := by
    rw [relationRows, h.rows, List.filter_append, relationRows]
  -- a new relation row is the row of a candidate
  have hnew : ∀ r ∈ added.filter fun r => r.2.workspaceId == workspace.id &&
      r.2.tokenIdentity == p.anchor.token && r.2.relation.isSome,
      ∃ c, r.2 = relationRow x workspace p.anchor p.now c := fun r hr => by
    obtain ⟨hr, hcond⟩ := List.mem_filter.mp hr
    rcases h.origin r hr with ⟨c, -, hrc⟩ | ⟨pre, hpre⟩
    · exact ⟨c, hrc⟩
    · rw [hpre, Bool.and_eq_true] at hcond
      exact absurd hcond.2 (by simp [coverageRow, coverageEvent, RecentEvent.toRow])
  -- and has the time of the pass
  have htime : ∀ r ∈ added.filter fun r => r.2.workspaceId == workspace.id &&
      r.2.tokenIdentity == p.anchor.token && r.2.relation.isSome, r.2.occurredAt = pgTime p.now := fun r hr => by
    obtain ⟨c, hrc⟩ := hnew r hr
    rw [hrc]
    rfl
  refine ⟨h.history, ?_, ?_, ?_, ?_⟩
  · rw [hrows]
    refine List.forall_mem_append.mpr ⟨hinv.confirmed, fun r hr => ?_⟩
    obtain ⟨c, hrc⟩ := hnew r hr
    rw [hrc]
    exact ⟨rfl, rfl⟩
  · rw [h.rows]
    refine List.forall_mem_append.mpr ⟨hinv.unretracted, fun r hr _ => ?_⟩
    rcases h.origin r hr with ⟨c, -, hrc⟩ | ⟨pre, hpre⟩
    · rw [hrc]; rfl
    · rw [hpre]; rfl
  · rw [hrows, List.pairwise_append]
    refine ⟨hinv.chronological, List.pairwise_of_forall_mem_list ?_, ?_⟩
    · intro a ha b hb
      rw [htime a ha, htime b hb]
    · intro a ha b hb
      rw [htime b hb]
      exact hinv.past a ha p List.mem_cons_self
  · rw [hrows]
    refine List.forall_mem_append.mpr ⟨fun r hr q hq => hinv.past r hr q (List.mem_cons_of_mem _ hq), ?_⟩
    intro r hr q hq
    rw [htime r hr]
    exact pgTime_mono (hclock q hq)

/-! ## Runs -/

theorem runPasses_projection (hsha : Function.Injective x.sha256Hex) : ∀ (passes rest : List Pass)
    (t : RecentEvents), ProjectionInv x workspace token (passes ++ rest) t →
    (∀ p ∈ passes, p.anchor.token = token ∧
      ∀ c ∈ p.resolved x workspace, (candidateInput workspace token c).Fit) →
    (passes ++ rest).Pairwise (fun p q => p.now ≤ q.now) →
    ∃ t', runPasses x workspace t passes = .ok t' ∧ ProjectionInv x workspace token rest t'
  | [], rest, t, hinv, _, _ => ⟨t, rfl, hinv⟩
  | p :: passes, rest, t, hinv, hp, hclock => by
    obtain ⟨htoken, hfit⟩ := hp p List.mem_cons_self
    obtain ⟨t₁, o, added, hrun, hstep⟩ := runPass_rows hsha hinv.history (by rw [htoken]; exact hfit)
    obtain ⟨hbefore, hclock⟩ := List.pairwise_cons.mp hclock
    obtain ⟨t', hrest, hinv'⟩ := runPasses_projection hsha passes rest t₁ (hstep.inv htoken hbefore hinv)
      (fun q hq => hp q (List.mem_cons_of_mem _ hq)) hclock
    exact ⟨t', by rw [runPasses_cons hrun, hrest], hinv'⟩

variable (workspace token)

/-- After a pass of a run the view shows every candidate of the pass exactly when
each of them was new, or was in force already. -/
theorem fetchRelations_run (hsha : Function.Injective x.sha256Hex) (t₀ : RecentEvents) (passes : List Pass)
    (p : Pass) (hinv : ProjectionInv x workspace token (passes ++ [p]) t₀)
    (hpasses : ∀ q ∈ passes ++ [p], q.anchor.token = token ∧
      ∀ c ∈ q.resolved x workspace, (candidateInput workspace token c).Fit)
    (hclock : (passes ++ [p]).Pairwise fun q r => q.now ≤ r.now) :
    ∃ t t' o, runPasses x workspace t₀ passes = .ok t ∧ runPass x workspace t p = .ok (t', o) ∧
      ((∀ c ∈ p.resolved x workspace, Reflects (fetchRelations t' workspace.id token) c) ↔
        ∀ c ∈ p.resolved x workspace, Published workspace t token c → InForce workspace t token c) := by
  obtain ⟨t, hrun, hinv⟩ := runPasses_projection hsha passes [p] t₀ hinv
    (fun q hq => hpasses q (List.mem_append_left _ hq)) hclock
  obtain ⟨rfl, hfit⟩ := hpasses p (by simp)
  obtain ⟨t', o, added, hpass, hstep⟩ := runPass_rows hsha hinv.history hfit
  have hinv' := hstep.inv rfl (by simp) hinv
  refine ⟨t, t', o, hrun, hpass, forall_congr' fun c => forall_congr' fun hc => ?_⟩
  rw [reflects_iff_inForce hinv', hstep.inForce_iff hc]

end

/-- The SHA-256 digests of the keys that the passes below compute: the relation
at its two confidences and the disclosure, each under the three encodings. -/
def flappingDigests : List (Bytes × String) :=
  let exact := candidateInput sampleWorkspace "solana:AAA" (deployerRelation "solana:BBB" .exact "tx1")
  let weak := candidateInput sampleWorkspace "solana:AAA"
    (deployerRelation "solana:BBB" .insufficient "tx1")
  let coverage := coverageKeyInput sampleWorkspace "solana:AAA" ["authority", "initial_funder"] 0 ""
  [(relationPreimage exact, "3b13a26f088dcca0588a031e1559a81355229edb07126c98550e2b96d7b508f9"),
    (relationPreimageRev065 exact, "ae79b7396319ace577656b2809ef659e1db5e700f34f1cff5bd5ded564d8f92d"),
    (relationPreimageRev063 exact, "f43b7c8bd4c500c136ffcecae6c93e1a1206b0bbe6cdc828fbeeb7a4a38bfc2c"),
    (relationPreimage weak, "ba7a16b948c44316b002b752c73ecfed91e7597cb9da71e50b35950db5ec19fb"),
    (relationPreimageRev065 weak, "e8fdea1fa12bc3760d49d6829b820648e36e2fb7d9e36662548e59aa4d2a4ca3"),
    (relationPreimageRev063 weak, "d5c654e9891c70dc91070cbb2cd4f962c68cd4824132ab2d3bf3a0274dc71f2a"),
    (coveragePreimage coverage, "f873527e813344757357803b85fd3f237e0274c6a36c5e6756ca409b5666c97b"),
    (coveragePreimageRev065 coverage, "b7941e43d45cd7396c04e47b1c276384256c0ea0655ee7a60b1cf8847d1e384a"),
    (coveragePreimageRev063 coverage, "441691edc6082a7f3eba98b694eb13253c673048830e9a004648f5252457d967")]

def flappingCrates : Crates := tableCrates [("1970-01-01T00:00:00Z", 0)] [] flappingDigests

/-- A pass over one other token of the deployer, its edge with the given truth status. -/
def deployerPass (truth : TruthStatus) (now : DateTime) : Pass :=
  ⟨.active, some .migration, sampleAnchor,
    [⟨"solana:BBB", .token⟩],
    [⟨"solana:D", "solana:BBB", .deployedBy, "1970-01-01T00:00:00Z", truth, "1970-01-01T00:00:00Z", none, ["tx1"]⟩],
    [], now⟩

/-- The view follows a relation that loses its confirmation. -/
theorem fetchRelations_run_downgrade :
    ∃ t t' o, runPasses flappingCrates sampleWorkspace Table.empty [deployerPass .confirmed 1000000000] = .ok t ∧
      runPass flappingCrates sampleWorkspace t (deployerPass .unknown 2000000000) = .ok (t', o) ∧
      Reflects (fetchRelations t' sampleWorkspace.id "solana:AAA")
        (deployerRelation "solana:BBB" .insufficient "tx1") := by
  have hres : (deployerPass .unknown 2000000000).resolved flappingCrates sampleWorkspace =
      [deployerRelation "solana:BBB" .insufficient "tx1"] := by decide +kernel
  obtain ⟨t, t', o, hrun, hpass, hiff⟩ := fetchRelations_run (x := flappingCrates) sampleWorkspace
    "solana:AAA" (tableCrates_injective (by decide +kernel) (by decide +kernel)) Table.empty
    [deployerPass .confirmed 1000000000] (deployerPass .unknown 2000000000)
    (projectionInv_new fun r hr => nomatch hr)
    (by
      intro q hq
      simp only [List.cons_append, List.nil_append, List.mem_cons, List.not_mem_nil, or_false] at hq
      rcases hq with rfl | rfl
      · exact ⟨rfl, by decide +kernel⟩
      · exact ⟨rfl, by decide +kernel⟩)
    (by simp [deployerPass])
  refine ⟨t, t', o, hrun, hpass, hiff.mpr ?_ _ (by rw [hres]; exact List.mem_singleton_self _)⟩
  -- the rows of the first pass are its relation, with another confidence, and its disclosure
  have hrows : ((runPasses flappingCrates sampleWorkspace Table.empty [deployerPass .confirmed 1000000000]).map
      fun t => t.rows.map fun r => (r.2.eventType, r.2.confidenceLevel)) =
      .ok [("relation_resolved", "exact"), ("coverage_disclosure", "insufficient")] := by decide +kernel
  rw [hrun] at hrows
  have hrows : t.rows.map (fun r => (r.2.eventType, r.2.confidenceLevel)) =
      [("relation_resolved", "exact"), ("coverage_disclosure", "insufficient")] := Except.ok.inj hrows
  intro c hc
  rw [hres, List.mem_singleton] at hc
  intro h
  obtain ⟨r, hr, -, hpub⟩ := h
  have hmem := List.mem_map_of_mem (f := fun r : Nat × RecentEventRow => (r.2.eventType, r.2.confidenceLevel)) hr
  rw [hrows, hpub.eventType, hpub.confidence, hc] at hmem
  exact absurd hmem (by decide)

/-- A relation that is confirmed, loses its confirmation and is confirmed again:
the third pass resolves it as exact and the view keeps the row of the second. -/
theorem fetchRelations_stale :
    ∃ t t' o, runPasses flappingCrates sampleWorkspace Table.empty
        [deployerPass .confirmed 1000000000, deployerPass .unknown 2000000000] = .ok t ∧
      runPass flappingCrates sampleWorkspace t (deployerPass .confirmed 3000000000) = .ok (t', o) ∧
      (deployerPass .confirmed 3000000000).resolved flappingCrates sampleWorkspace =
        [deployerRelation "solana:BBB" .exact "tx1"] ∧
      fetchRelations t' sampleWorkspace.id "solana:AAA" = [deployerRelation "solana:BBB" .insufficient "tx1"] ∧
      ¬ Reflects (fetchRelations t' sampleWorkspace.id "solana:AAA")
        (deployerRelation "solana:BBB" .exact "tx1") := by
  have hview : (runPasses flappingCrates sampleWorkspace Table.empty
      ([deployerPass .confirmed 1000000000, deployerPass .unknown 2000000000] ++
        [deployerPass .confirmed 3000000000])).map (fun t => fetchRelations t sampleWorkspace.id "solana:AAA") =
      .ok [deployerRelation "solana:BBB" .insufficient "tx1"] := by decide +kernel
  rw [runPasses_append] at hview
  cases hrun : runPasses flappingCrates sampleWorkspace Table.empty
      [deployerPass .confirmed 1000000000, deployerPass .unknown 2000000000] with
  | error e => rw [hrun] at hview; cases hview
  | ok t =>
    rw [hrun] at hview
    change (runPasses flappingCrates sampleWorkspace t [deployerPass .confirmed 3000000000]).map _ = _ at hview
    cases hpass : runPass flappingCrates sampleWorkspace t (deployerPass .confirmed 3000000000) with
    | error e => rw [runPasses, List.foldlM_cons, hpass] at hview; cases hview
    | ok st =>
      rw [runPasses_cons hpass] at hview
      have hfinal : fetchRelations st.1 sampleWorkspace.id "solana:AAA" =
          [deployerRelation "solana:BBB" .insufficient "tx1"] := Except.ok.inj hview
      refine ⟨t, st.1, st.2, rfl, hpass, by decide +kernel, hfinal, ?_⟩
      intro h
      obtain ⟨d, hd, hconf, -⟩ := h
      have hrow : d ∈ fetchRelations st.1 sampleWorkspace.id "solana:AAA" :=
        List.mem_of_mem_filter (hd ▸ List.mem_singleton_self d)
      rw [hfinal, List.mem_singleton] at hrow
      rw [hrow] at hconf
      cases hconf

end WhaleIntelligence.Recent
