import WhaleIntelligence.Graph.Clusters

/- Any sequence of cluster rebuilds.

   Seen through the active memberships, a rebuild that succeeds merges the star of
   its wallet and one that fails does nothing, so a sequence of rebuilds is a run of
   star merges (`rebuilds_run`) and inherits what such runs have: one active cluster
   for each wallet, clusters inside the components, and the components themselves
   once every wallet with an edge was rebuilt. -/
namespace WhaleIntelligence.Graph
open WhaleIntelligence Runs Clusters Relation

section
variable {chain : ChainKind} {address x y : String} {now : DateTime} {db tx : GraphDb} {k : Int}

/-! ## One rebuild -/

theorem insertCluster_ok (h : db.insertCluster = (.ok k, tx)) : k ∉ db.walletClusters ∧ k ∈ tx.walletClusters ∧
    tx.members = db.members ∧ tx.fundingEdges = db.fundingEdges := by
  rw [GraphDb.insertCluster] at h
  split at h
  · dsimp only at h
    split at h
    · cases h
    · rename_i hnew
      cases h
      exact ⟨hnew, List.mem_cons_self, rfl, rfl⟩
  · cases h

/-- The canonical cluster holds only wallets that the rebuild gathers: it is one of theirs, or it is new. -/
theorem openCluster_ok {members : List String} (h : db.openCluster (db.existing chain members) = (.ok k, tx)) :
    k ∈ tx.walletClusters ∧ tx.members = db.members ∧ tx.fundingEdges = db.fundingEdges ∧
      ∀ x, clustering db.members chain.asStr x k → k ∈ db.existing chain members := by
  rw [GraphDb.openCluster] at h
  split at h
  · rename_i id hid
    cases h
    have hmem : k ∈ db.existing chain members := List.mem_of_mem_head? hid
    obtain ⟨x, -, m, hm, rfl, -⟩ := mem_existing.mp hmem
    exact ⟨db.references m hm, rfl, rfl, fun _ _ => hmem⟩
  · obtain ⟨hnew, hmem, hmembers, hedges⟩ := insertCluster_ok h
    refine ⟨hmem, hmembers, hedges, fun x hx => ?_⟩
    -- no membership can refer to a cluster that did not exist
    obtain ⟨m, hm, rfl, -⟩ := hx
    exact absurd (db.references m hm) hnew

/-- What a rebuild does: nothing, a failed `INSERT` of a new cluster, or the merge of the star. -/
theorem rebuildClusterFor_cases (chain : ChainKind) (address : String) (now : DateTime) (db : GraphDb) :
    (rebuildClusterFor chain address now db = (.ok none, db) ∧ ¬ ∃ y, Linked db.fundingEdges chain address y) ∨
    (∃ e tx, rebuildClusterFor chain address now db = (.error e, { db with clusterSeq := tx.clusterSeq }) ∧
      db.insertCluster = (.error e, tx)) ∨
    ∃ k tx, rebuildClusterFor chain address now db = (.ok (some k), tx) ∧ tx.fundingEdges = db.fundingEdges ∧
      (∃ y, Linked db.fundingEdges chain address y) ∧
      Merged (db.clusters chain) (StarOf (Linked db.fundingEdges chain) address) k (tx.clusters chain) := by
  cases hrows : (db.strongEdges chain address).isEmpty with
  | true =>
    refine Or.inl ⟨?_, strongEdges_isEmpty.mp hrows⟩
    simp only [rebuildClusterFor, hrows, if_true]
  | false =>
    right
    have hlinked : ∃ y, Linked db.fundingEdges chain address y := by
      by_contra hno
      rw [strongEdges_isEmpty.mpr hno] at hrows
      cases hrows
    have hstar : (fun x => x ∈ clusterMembers address (db.strongEdges chain address)) =
        StarOf (Linked db.fundingEdges chain) address := by
      funext x
      exact propext mem_clusterMembers
    simp only [rebuildClusterFor, hrows, Bool.false_eq_true, if_false]
    generalize hmembers : clusterMembers address (db.strongEdges chain address) = members at hstar ⊢
    rcases hopen : db.openCluster (db.existing chain members) with ⟨opened, tx⟩
    cases opened with
    | error e =>
      refine Or.inl ⟨e, tx, rfl, ?_⟩
      rw [GraphDb.openCluster] at hopen
      split at hopen
      · cases hopen
      · exact hopen
    | ok k =>
      obtain ⟨hk, htx, hedges, hcanon⟩ := openCluster_ok hopen
      have hexisting : db.existing chain members = tx.existing chain members := by
        rw [GraphDb.existing, GraphDb.existing, htx]
      have hcl : db.clusters chain = tx.clusters chain := by
        rw [GraphDb.clusters, GraphDb.clusters, htx]
      rw [← htx, hexisting] at hcanon
      obtain ⟨tx', hfold, hframe, hmerged⟩ := foldComponent_ok chain now members hk hcanon
      refine Or.inr ⟨k, tx', ?_, hframe.fundingEdges.trans hedges, hlinked, ?_⟩
      · simp only [hexisting, hfold]
      · rw [← hstar, hcl]
        exact hmerged

/-! ## Sequences of rebuilds -/

/-- A rebuild is a step of the clustering, or it failed and left it alone. -/
theorem rebuildClusterFor_step (chain : ChainKind) (address : String) (now : DateTime) (db : GraphDb) :
    (rebuildClusterFor chain address now db).2.fundingEdges = db.fundingEdges ∧
      (Step (Linked db.fundingEdges chain) (db.clusters chain) address
          ((rebuildClusterFor chain address now db).2.clusters chain) ∨
        (∃ e, (rebuildClusterFor chain address now db).1 = .error e) ∧
          (rebuildClusterFor chain address now db).2.clusters chain = db.clusters chain) := by
  obtain ⟨h, hno⟩ | ⟨e, tx, h, -⟩ | ⟨k, tx, h, hedges, hy, hm⟩ := rebuildClusterFor_cases chain address now db
  · rw [h]
    exact ⟨rfl, Or.inl (Or.inr ⟨hno, rfl⟩)⟩
  · rw [h]
    exact ⟨rfl, Or.inr ⟨⟨e, rfl⟩, rfl⟩⟩
  · rw [h]
    exact ⟨hedges, Or.inl (Or.inl ⟨hy, k, hm⟩)⟩

/-- The wallet was rebuilt: one of the calls was for it and returned `Ok`. -/
def Rebuilt (chain : ChainKind) (db : GraphDb) (calls : List (String × DateTime)) (w : String) : Prop :=
  ∃ done now later, calls = done ++ (w, now) :: later ∧
    ∃ r, (rebuildClusterFor chain w now (rebuilds chain db done)).1 = .ok r

/-- A sequence of rebuilds is a run of star merges, with a step for every wallet that was rebuilt. -/
theorem rebuilds_run (chain : ChainKind) (db : GraphDb) (calls : List (String × DateTime)) :
    (rebuilds chain db calls).fundingEdges = db.fundingEdges ∧
      ∃ ws, Run (Step (Linked db.fundingEdges chain)) (db.clusters chain) ws
          ((rebuilds chain db calls).clusters chain) ∧ ∀ w, Rebuilt chain db calls w → w ∈ ws := by
  induction calls generalizing db with
  | nil =>
    refine ⟨rfl, [], rfl, fun w hw => ?_⟩
    obtain ⟨done, now, later, hcalls, -⟩ := hw
    cases done <;> cases hcalls
  | cons call calls ih =>
    obtain ⟨address, now⟩ := call
    obtain ⟨hedges, hstep⟩ := rebuildClusterFor_step chain address now db
    obtain ⟨hedges', ws, hrun, hws⟩ := ih (rebuildClusterFor chain address now db).2
    rw [hedges] at hedges' hrun
    -- a wallet is rebuilt by this call or by a later one
    have hcases : ∀ w, Rebuilt chain db ((address, now) :: calls) w →
        (w = address ∧ ∃ r, (rebuildClusterFor chain address now db).1 = .ok r) ∨ w ∈ ws := by
      intro w hw
      obtain ⟨done, now', later, hcalls, hok⟩ := hw
      cases done with
      | nil => cases hcalls; exact Or.inl ⟨rfl, hok⟩
      | cons first done =>
        rw [List.cons_append] at hcalls
        cases hcalls
        exact Or.inr (hws w ⟨done, now', later, rfl, hok⟩)
    refine ⟨hedges', ?_⟩
    obtain hstep | ⟨⟨e, herr⟩, hsame⟩ := hstep
    · refine ⟨address :: ws, ⟨_, hstep, hrun⟩, fun w hw => ?_⟩
      obtain ⟨rfl, -⟩ | hlater := hcases w hw
      · exact List.mem_cons_self
      · exact List.mem_cons_of_mem _ hlater
    · rw [hsame] at hrun
      refine ⟨ws, hrun, fun w hw => ?_⟩
      obtain ⟨-, r, hok⟩ | hlater := hcases w hw
      · rw [herr] at hok
        cases hok
      · exact hlater

/-- From no memberships, any sequence of rebuilds keeps one active membership for each wallet and clusters
    inside the components of the strong edges; wallets that share a cluster share one ever after; and once
    every wallet with a strong edge was rebuilt the clusters are the components. Only the `INSERT` of a new
    cluster can fail. -/
theorem rebuilds_components (chain : ChainKind) (start : GraphDb) (hempty : start.members = [])
    (calls : List (String × DateTime)) :
    let db := rebuilds chain start calls
    let edges := start.fundingEdges
    (∀ m ∈ db.members, ∀ m' ∈ db.members, m.revokedAt = none → m'.revokedAt = none →
      m.chain = m'.chain → m.address = m'.address → m = m') ∧
    (∀ x y, Share (db.clusters chain) x y → TransGen (Linked edges chain) x y) ∧
    (∀ x y later, Share (db.clusters chain) x y → Share ((rebuilds chain db later).clusters chain) x y) ∧
    ((∀ w, (∃ y, Linked edges chain w y) → Rebuilt chain start calls w) →
      ∀ x y, Share (db.clusters chain) x y ↔ TransGen (Linked edges chain) x y) ∧
    ∀ address now e, (rebuildClusterFor chain address now db).1 = .error e → db.insertCluster.1 = .error e := by
  have hstart : ∀ x k, ¬ start.clusters chain x k := by
    intro x k h
    obtain ⟨m, hm, -⟩ := h
    rw [hempty] at hm
    cases hm
  obtain ⟨hedges, ws, hrun, hws⟩ := rebuilds_run chain start calls
  refine ⟨?_, ?_, ?_, ?_, ?_⟩
  · intro m hm m' hm' ha ha' hc hx
    have hid : m.clusterId = m'.clusterId := (rebuilds chain start calls).clustering_single m.chain m.address _ _
      ⟨m, hm, rfl, rfl, rfl, by rw [ClusterMember.active, ha]; rfl⟩
      ⟨m', hm', rfl, hc.symm, hx.symm, by rw [ClusterMember.active, ha']; rfl⟩
    exact List.inj_on_of_nodup_map (rebuilds chain start calls).unique hm hm'
      (by simp only [ClusterMember.key, hid, hc, hx])
  · exact (run_progress hstart hrun).within
  · intro x y later hxy
    obtain ⟨-, ws', hrun', -⟩ := rebuilds_run chain (rebuilds chain start calls) later
    exact run_keeps (GraphDb.clustering_single _ _) hrun' hxy
  · intro hall x y
    exact run_exact hstart hrun fun w y hwy => hws w (hall w ⟨y, hwy⟩)
  · intro address now e he
    obtain ⟨h, -⟩ | ⟨e', tx, h, hins⟩ | ⟨k, tx, h, -⟩ :=
      rebuildClusterFor_cases chain address now (rebuilds chain start calls)
    · rw [h] at he
      cases he
    · rw [h] at he
      cases he
      rw [hins]
    · rw [h] at he
      cases he

end

/-! ## Three wallets in a row -/

/-- No memberships, and two strong edges that meet in the second wallet. -/
def threeInARow : GraphDb where
  fundingEdges := [⟨"solana", "A", "B", 7 / 10⟩, ⟨"solana", "B", "C", 9 / 10⟩]
  walletClusters := []
  clusterSeq := 0
  members := []
  unique := List.nodup_nil
  oneActive := List.nodup_nil
  references := fun _ h => absurd h List.not_mem_nil

/-- The ends are rebuilt first, and the middle joins their two clusters. -/
theorem threeInARow_components :
    Share ((rebuilds .solana threeInARow [("A", 0), ("C", 0), ("B", 0)]).clusters .solana) "A" "C" := by
  obtain ⟨-, -, -, hiff, -⟩ := rebuilds_components .solana threeInARow rfl [("A", 0), ("C", 0), ("B", 0)]
  have hA : Rebuilt .solana threeInARow [("A", 0), ("C", 0), ("B", 0)] "A" :=
    ⟨[], 0, [("C", 0), ("B", 0)], rfl, some 1, by decide +kernel⟩
  have hC : Rebuilt .solana threeInARow [("A", 0), ("C", 0), ("B", 0)] "C" :=
    ⟨[("A", 0)], 0, [("B", 0)], rfl, some 1, by decide +kernel⟩
  have hB : Rebuilt .solana threeInARow [("A", 0), ("C", 0), ("B", 0)] "B" :=
    ⟨[("A", 0), ("C", 0)], 0, [], rfl, some 1, by decide +kernel⟩
  have hedges : ∀ w, (∃ y, Linked threeInARow.fundingEdges .solana w y) →
      Rebuilt .solana threeInARow [("A", 0), ("C", 0), ("B", 0)] w := by
    intro w h
    obtain ⟨y, e, he, -, -, hends⟩ := h
    simp only [threeInARow, List.mem_cons, List.not_mem_nil, or_false] at he
    obtain rfl | rfl := he
    · obtain ⟨rfl, -⟩ | ⟨-, rfl⟩ := hends
      · exact hA
      · exact hB
    · obtain ⟨rfl, -⟩ | ⟨-, rfl⟩ := hends
      · exact hB
      · exact hC
  have hAB : Linked threeInARow.fundingEdges .solana "A" "B" :=
    ⟨⟨"solana", "A", "B", 7 / 10⟩, by simp [threeInARow], rfl, by decide +kernel, Or.inl ⟨rfl, rfl⟩⟩
  have hBC : Linked threeInARow.fundingEdges .solana "B" "C" :=
    ⟨⟨"solana", "B", "C", 9 / 10⟩, by simp [threeInARow], rfl, by decide +kernel, Or.inl ⟨rfl, rfl⟩⟩
  exact (hiff hedges "A" "C").mpr ((TransGen.single hAB).tail hBC)

end WhaleIntelligence.Graph
