import Mathlib.Algebra.Order.Ring.Rat
import WhaleIntelligence.Lib.Canon
import WhaleIntelligence.Lib.Clusters
import WhaleIntelligence.Models

/- Soft wallet clusters: `rebuild_cluster_for`.

   A rebuild reads the edges of one wallet that reach the threshold, puts the wallet
   and its neighbours in one cluster, and folds every other cluster that one of them
   is active in into it. The tables carry their constraints, and a write that breaks
   one is an error that rolls the transaction back; only a sequence keeps what it
   gave out. -/
namespace WhaleIntelligence.Graph
open WhaleIntelligence Runs Clusters Relation

/-! ## Tables -/

/-- A row of `funding_edges`, by the columns that a rebuild reads. -/
structure FundingEdge where
  chain : String
  fromAddress : String
  toAddress : String
  confidence : Rat
  deriving DecidableEq, Repr

/-- A row of `wallet_cluster_members`. -/
structure ClusterMember where
  clusterId : Int
  chain : String
  address : String
  membershipKind : String
  confidence : Rat
  revokedAt : Option DateTime
  deriving DecidableEq, Repr

def ClusterMember.key (m : ClusterMember) : Int × String × String := (m.clusterId, m.chain, m.address)

def ClusterMember.active (m : ClusterMember) : Bool := m.revokedAt.isNone

def ClusterMember.wallet (m : ClusterMember) : String × String := (m.chain, m.address)

inductive DbError
  | uniqueViolation (index : String)
  | foreignKeyViolation (table : String)
  | sequenceLimit
  deriving DecidableEq, Repr

structure GraphDb where
  fundingEdges : List FundingEdge
  /-- The ids in `wallet_clusters`. -/
  walletClusters : List Int
  /-- The value that the `bigserial` of `wallet_clusters` gave out last. -/
  clusterSeq : Nat
  members : List ClusterMember
  /-- `UNIQUE (cluster_id, chain, address)`. -/
  unique : (members.map ClusterMember.key).Nodup
  /-- `wallet_cluster_members_one_active_idx`. -/
  oneActive : ((members.filter ClusterMember.active).map ClusterMember.wallet).Nodup
  /-- `cluster_id REFERENCES wallet_clusters`. -/
  references : ∀ m ∈ members, m.clusterId ∈ walletClusters

/-- The statement writes these rows, unless a constraint forbids it. -/
def GraphDb.writeMembers (db : GraphDb) (rows : List ClusterMember) : Except DbError GraphDb :=
  if unique : (rows.map ClusterMember.key).Nodup then
    if oneActive : ((rows.filter ClusterMember.active).map ClusterMember.wallet).Nodup then
      if references : ∀ m ∈ rows, m.clusterId ∈ db.walletClusters then
        .ok { db with members := rows, unique, oneActive, references }
      else .error (.foreignKeyViolation "wallet_clusters")
    else .error (.uniqueViolation "wallet_cluster_members_one_active_idx")
  else .error (.uniqueViolation "wallet_cluster_members_cluster_id_chain_address_key")

/-- The last value of a `bigserial`. -/
def maxSerial : Nat := 9223372036854775807

/-- `INSERT INTO wallet_clusters DEFAULT VALUES RETURNING cluster_id`. -/
def GraphDb.insertCluster (db : GraphDb) : Except DbError Int × GraphDb :=
  if db.clusterSeq < maxSerial then
    let id : Int := db.clusterSeq + 1
    let db := { db with clusterSeq := db.clusterSeq + 1 }
    if id ∈ db.walletClusters then (.error (.uniqueViolation "wallet_clusters_pkey"), db)
    else
      (.ok id, { db with
        walletClusters := id :: db.walletClusters
        references := fun m hm => List.mem_cons_of_mem _ (db.references m hm) })
  else (.error .sequenceLimit, db)

/-! ## The rebuild -/

/-- `MEMBERSHIP_THRESHOLD`. -/
def membershipThreshold : Rat := 7 / 10

def upsertedRows (rows : List ClusterMember) (clusterId : Int) (chain : ChainKind) (address : String) :
    List ClusterMember :=
  if rows.any fun m => m.key = (clusterId, chain.asStr, address) then
    rows.map fun m =>
      if m.key = (clusterId, chain.asStr, address) then
        { m with confidence := membershipThreshold, revokedAt := none }
      else m
  else rows ++ [⟨clusterId, chain.asStr, address, "soft", membershipThreshold, none⟩]

/-- Activates one membership in the canonical cluster. -/
def upsertMembership (clusterId : Int) (chain : ChainKind) (db : GraphDb) (address : String) :
    Except DbError GraphDb :=
  db.writeMembers (upsertedRows db.members clusterId chain address)

/-- The active rows of a cluster on the chain, `WHERE cluster_id = $1 AND chain = $2 AND revoked_at IS NULL`. -/
def ClusterMember.activeIn (clusterId : Int) (chain : ChainKind) (m : ClusterMember) : Bool :=
  m.clusterId = clusterId && m.chain = chain.asStr && m.active

def revokedRows (rows : List ClusterMember) (clusterId : Int) (chain : ChainKind) (now : DateTime) :
    List ClusterMember :=
  rows.map fun m => if m.activeIn clusterId chain then { m with revokedAt := some now } else m

/-- One round of the loop over the superseded clusters. -/
def foldCluster (clusterId : Int) (chain : ChainKind) (now : DateTime) (db : GraphDb) (superseded : Int) :
    Except DbError GraphDb := do
  let moved := (db.members.filter (ClusterMember.activeIn superseded chain)).map ClusterMember.address
  let db ← db.writeMembers (revokedRows db.members superseded chain now)
  moved.foldlM (upsertMembership clusterId chain) db

/-- The edges of the wallet that reach the threshold. -/
def GraphDb.strongEdges (db : GraphDb) (chain : ChainKind) (address : String) : List FundingEdge :=
  db.fundingEdges.filter fun e =>
    e.chain = chain.asStr && (e.fromAddress = address || e.toAddress = address) &&
      membershipThreshold ≤ e.confidence

/-- The members as the `BTreeSet` lists them. -/
def clusterMembers (address : String) (rows : List FundingEdge) : List String :=
  Canon.canon (· ≤ ·) (address :: rows.flatMap fun e => [e.fromAddress, e.toAddress])

/-- Every cluster that a member is active in, the smallest id first. -/
def GraphDb.existing (db : GraphDb) (chain : ChainKind) (members : List String) : List Int :=
  Canon.canon (· ≤ ·)
    ((db.members.filter fun m => m.chain = chain.asStr && members.contains m.address && m.active).map
      ClusterMember.clusterId)

/-- The smallest existing cluster, or a new one. -/
def GraphDb.openCluster (db : GraphDb) (existing : List Int) : Except DbError Int × GraphDb :=
  match existing.head? with
  | some id => (.ok id, db)
  | none => db.insertCluster

/-- Folds the superseded clusters in, then activates the members. -/
def foldComponent (clusterId : Int) (chain : ChainKind) (now : DateTime) (members : List String)
    (existing : List Int) (tx : GraphDb) : Except DbError GraphDb := do
  let tx ← (existing.filter fun id => id ≠ clusterId).foldlM (foldCluster clusterId chain now) tx
  members.foldlM (upsertMembership clusterId chain) tx

/-- `rebuild_cluster_for`; `now` is the time of the transaction. -/
def rebuildClusterFor (chain : ChainKind) (address : String) (now : DateTime) (db : GraphDb) :
    Except DbError (Option Int) × GraphDb :=
  let rows := db.strongEdges chain address
  if rows.isEmpty then (.ok none, db)
  else
    let members := clusterMembers address rows
    let existing := db.existing chain members
    let (opened, tx) := db.openCluster existing
    -- a rollback leaves the sequence where it is
    let rolledBack := { db with clusterSeq := tx.clusterSeq }
    match opened with
    | .error e => (.error e, rolledBack)
    | .ok clusterId =>
      match foldComponent clusterId chain now members existing tx with
      | .error e => (.error e, rolledBack)
      | .ok tx => (.ok (some clusterId), tx)

/-- The rebuilds of a list of wallets, one after another. -/
def rebuilds (chain : ChainKind) (db : GraphDb) (calls : List (String × DateTime)) : GraphDb :=
  calls.foldl (fun db call => (rebuildClusterFor chain call.1 call.2 db).2) db

/-! ## Who is active where -/

/-- The active memberships on a chain. -/
def clustering (rows : List ClusterMember) (chain : String) : Clustering String Int := fun address id =>
  ∃ m ∈ rows, m.clusterId = id ∧ m.chain = chain ∧ m.address = address ∧ m.active = true

def GraphDb.clusters (db : GraphDb) (chain : ChainKind) : Clustering String Int :=
  clustering db.members chain.asStr

section
variable {rows : List ClusterMember} {chain : ChainKind} {c address x : String} {now : DateTime} {j k s : Int}
  {db tx : GraphDb}

/-- Under the key, the partial index says that no wallet is active in two clusters. -/
theorem oneActive_iff (hu : (rows.map ClusterMember.key).Nodup) :
    ((rows.filter ClusterMember.active).map ClusterMember.wallet).Nodup ↔ ∀ c, Single (clustering rows c) := by
  have hnodup : (rows.filter ClusterMember.active).Nodup := hu.of_map.filter _
  rw [List.nodup_map_iff_inj_on hnodup]
  refine ⟨fun h c x j k hj hk => ?_, fun h m hm m' hm' hw => ?_⟩
  · obtain ⟨m, hm, rfl, hc, hx, ha⟩ := hj
    obtain ⟨m', hm', rfl, hc', hx', ha'⟩ := hk
    have heq : m = m' := h m (List.mem_filter.mpr ⟨hm, ha⟩) m' (List.mem_filter.mpr ⟨hm', ha'⟩)
      (by simp only [ClusterMember.wallet, hc, hc', hx, hx'])
    rw [heq]
  · obtain ⟨hm, ha⟩ := List.mem_filter.mp hm
    obtain ⟨hm', ha'⟩ := List.mem_filter.mp hm'
    obtain ⟨hc, hx⟩ := Prod.mk.inj hw
    have hid : m.clusterId = m'.clusterId :=
      h m.chain m.address _ _ ⟨m, hm, rfl, rfl, rfl, ha⟩ ⟨m', hm', rfl, hc.symm, hx.symm, ha'⟩
    exact List.inj_on_of_nodup_map hu hm hm' (by simp only [ClusterMember.key, hid, hc, hx])

theorem GraphDb.clustering_single (db : GraphDb) (c : String) : Single (clustering db.members c) :=
  (oneActive_iff db.unique).mp db.oneActive c

theorem clustering_append (l l' : List ClusterMember) :
    clustering (l ++ l') c x j ↔ clustering l c x j ∨ clustering l' c x j := by
  simp only [clustering, List.mem_append, or_and_right, exists_or]

theorem revokedRows_keys : (revokedRows rows s chain now).map ClusterMember.key = rows.map ClusterMember.key := by
  rw [revokedRows, List.map_map]
  refine List.map_congr_left fun m _ => ?_
  show ClusterMember.key (if _ then _ else _) = _
  split <;> rfl

/-- A revocation ends the memberships of one cluster on the chain. -/
theorem clustering_revokedRows : clustering (revokedRows rows s chain now) c x j ↔
    clustering rows c x j ∧ ¬ (c = chain.asStr ∧ j = s) := by
  refine ⟨fun h => ?_, fun h => ?_⟩
  · obtain ⟨m', hm', rfl, rfl, rfl, ha⟩ := h
    obtain ⟨m, hm, rfl⟩ := List.mem_map.mp hm'
    by_cases hr : m.activeIn s chain = true
    · simp [hr, ClusterMember.active] at ha
    · simp only [if_neg hr] at ha ⊢
      refine ⟨⟨m, hm, rfl, rfl, rfl, ha⟩, fun hcs => hr ?_⟩
      simp [ClusterMember.activeIn, hcs.1, hcs.2, ha]
  · obtain ⟨⟨m, hm, rfl, rfl, rfl, ha⟩, hcs⟩ := h
    have hr : ¬ m.activeIn s chain = true := by
      intro hr
      simp only [ClusterMember.activeIn, Bool.and_eq_true, decide_eq_true_eq] at hr
      exact hcs ⟨hr.1.2, hr.1.1⟩
    exact ⟨m, List.mem_map.mpr ⟨m, hm, if_neg hr⟩, rfl, rfl, rfl, ha⟩

theorem upsertedRows_keys : ((upsertedRows rows k chain address).map ClusterMember.key).Nodup ↔
    (rows.map ClusterMember.key).Nodup := by
  rw [upsertedRows]
  split
  · rename_i h
    rw [List.map_map]
    have hkeys : rows.map (ClusterMember.key ∘ fun m =>
        if m.key = (k, chain.asStr, address) then
          { m with confidence := membershipThreshold, revokedAt := none }
        else m) = rows.map ClusterMember.key := by
      refine List.map_congr_left fun m _ => ?_
      show ClusterMember.key (if _ then _ else _) = _
      split <;> rfl
    rw [hkeys]
  · rename_i h
    rw [List.map_append, List.nodup_append]
    refine ⟨fun hn => hn.1, fun hn => ⟨hn, List.nodup_singleton _, ?_⟩⟩
    intro a ha b hb hab
    obtain ⟨m, hm, hkey⟩ := List.mem_map.mp ha
    have hb := List.mem_singleton.mp hb
    refine h (List.any_eq_true.mpr ⟨m, hm, ?_⟩)
    rw [decide_eq_true_eq, hkey, hab, hb]
    rfl

/-- An upsert activates one membership. -/
theorem clustering_upsertedRows : clustering (upsertedRows rows k chain address) c x j ↔
    clustering rows c x j ∨ (c = chain.asStr ∧ x = address ∧ j = k) := by
  rw [upsertedRows]
  split
  · rename_i h
    obtain ⟨r, hr, hkey⟩ := List.any_eq_true.mp h
    rw [decide_eq_true_eq] at hkey
    refine ⟨fun h => ?_, fun h => ?_⟩
    · obtain ⟨m', hm', rfl, rfl, rfl, ha⟩ := h
      obtain ⟨m, hm, rfl⟩ := List.mem_map.mp hm'
      by_cases hm'' : m.key = (k, chain.asStr, address)
      · simp only [hm'', if_true]
        simp only [ClusterMember.key, Prod.mk.injEq] at hm''
        exact Or.inr ⟨hm''.2.1, hm''.2.2, hm''.1⟩
      · simp only [hm'', if_false] at ha ⊢
        exact Or.inl ⟨m, hm, rfl, rfl, rfl, ha⟩
    · obtain ⟨m, hm, rfl, rfl, rfl, ha⟩ | ⟨rfl, rfl, rfl⟩ := h
      · refine ⟨_, List.mem_map.mpr ⟨m, hm, rfl⟩, ?_⟩
        split
        · exact ⟨rfl, rfl, rfl, rfl⟩
        · exact ⟨rfl, rfl, rfl, ha⟩
      · refine ⟨_, List.mem_map.mpr ⟨r, hr, rfl⟩, ?_⟩
        rw [if_pos hkey]
        simp only [ClusterMember.key, Prod.mk.injEq] at hkey
        exact ⟨hkey.1, hkey.2.1, hkey.2.2, rfl⟩
  · rw [clustering_append]
    refine or_congr_right ⟨fun h => ?_, fun h => ?_⟩
    · obtain ⟨m, hm, rfl, rfl, rfl, -⟩ := h
      rw [List.mem_singleton.mp hm]
      exact ⟨rfl, rfl, rfl⟩
    · obtain ⟨rfl, rfl, rfl⟩ := h
      exact ⟨_, List.mem_singleton_self _, rfl, rfl, rfl, rfl⟩

/-! ## One rebuild -/

/-- Two states of the tables between which memberships alone were written. -/
structure Frame (db tx : GraphDb) : Prop where
  fundingEdges : tx.fundingEdges = db.fundingEdges
  walletClusters : tx.walletClusters = db.walletClusters

theorem Frame.trans {db tx tx' : GraphDb} (h : Frame db tx) (h' : Frame tx tx') : Frame db tx' :=
  ⟨h'.fundingEdges.trans h.fundingEdges, h'.walletClusters.trans h.walletClusters⟩

theorem writeMembers_ok (db : GraphDb) (rows : List ClusterMember) (hu : (rows.map ClusterMember.key).Nodup)
    (hs : ∀ c, Single (clustering rows c)) (hf : ∀ m ∈ rows, m.clusterId ∈ db.walletClusters) :
    ∃ tx, db.writeMembers rows = .ok tx ∧ tx.members = rows ∧ Frame db tx := by
  have ho := (oneActive_iff hu).mpr hs
  refine ⟨{ db with members := rows, unique := hu, oneActive := ho, references := hf }, ?_, rfl, rfl, rfl⟩
  rw [GraphDb.writeMembers, dif_pos hu, dif_pos ho, dif_pos hf]

/-- A wallet that is active nowhere else can be activated. -/
theorem upsertMembership_ok (address : String) (hk : k ∈ db.walletClusters)
    (hx : ∀ j, clustering db.members chain.asStr address j → j = k) :
    ∃ tx, upsertMembership k chain db address = .ok tx ∧ Frame db tx ∧
      ∀ c x j, clustering tx.members c x j ↔
        clustering db.members c x j ∨ (c = chain.asStr ∧ x = address ∧ j = k) := by
  obtain ⟨tx, htx, hmem, hframe⟩ := writeMembers_ok db (upsertedRows db.members k chain address)
    (upsertedRows_keys.mpr db.unique)
    (by
      intro c x i j hi hj
      rw [clustering_upsertedRows] at hi hj
      obtain hi | ⟨rfl, rfl, rfl⟩ := hi
      · obtain hj | ⟨rfl, rfl, rfl⟩ := hj
        · exact db.clustering_single c x i j hi hj
        · exact hx i hi
      · obtain hj | hj := hj
        · exact (hx j hj).symm
        · exact hj.2.2.symm)
    (by
      intro m hm
      rw [upsertedRows] at hm
      split at hm
      · obtain ⟨r, hr, rfl⟩ := List.mem_map.mp hm
        have hid := db.references r hr
        split <;> exact hid
      · cases List.mem_append.mp hm with
        | inl hm => exact db.references m hm
        | inr hm => rw [List.mem_singleton.mp hm]; exact hk)
  refine ⟨tx, htx, hframe, fun c x j => ?_⟩
  rw [hmem]
  exact clustering_upsertedRows

/-- The members of a list are activated one after another. -/
theorem upserts_ok (chain : ChainKind) (members : List String) (hk : k ∈ db.walletClusters)
    (hx : ∀ x ∈ members, ∀ j, clustering db.members chain.asStr x j → j = k) :
    ∃ tx, members.foldlM (upsertMembership k chain) db = .ok tx ∧ Frame db tx ∧
      ∀ c x j, clustering tx.members c x j ↔
        clustering db.members c x j ∨ (c = chain.asStr ∧ x ∈ members ∧ j = k) := by
  refine foldlM_ok (fun done tx => Frame db tx ∧ ∀ c x j, clustering tx.members c x j ↔
      clustering db.members c x j ∨ (c = chain.asStr ∧ x ∈ done ∧ j = k)) ?_ ?_
  · exact ⟨⟨rfl, rfl⟩, fun c x j => by simp⟩
  · intro done e tx he hI
    obtain ⟨hframe, hcl⟩ := hI
    have hk' : k ∈ tx.walletClusters := hframe.walletClusters ▸ hk
    have hx' : ∀ j, clustering tx.members chain.asStr e j → j = k := by
      intro j hj
      rw [hcl] at hj
      obtain hj | hj := hj
      · exact hx e he j hj
      · exact hj.2.2
    obtain ⟨tx', htx', hframe', hcl'⟩ := upsertMembership_ok e hk' hx'
    refine ⟨tx', htx', hframe.trans hframe', fun c x j => ?_⟩
    rw [hcl', hcl, List.mem_append, List.mem_singleton]
    grind

theorem mem_moved : x ∈ (db.members.filter (ClusterMember.activeIn s chain)).map ClusterMember.address ↔
    clustering db.members chain.asStr x s := by
  simp only [clustering, List.mem_map, List.mem_filter, ClusterMember.activeIn, Bool.and_eq_true,
    decide_eq_true_eq]
  grind

/-- One superseded cluster moves into the canonical one. -/
theorem foldCluster_ok (chain : ChainKind) (now : DateTime) (s : Int) (hk : k ∈ db.walletClusters) :
    ∃ tx, foldCluster k chain now db s = .ok tx ∧ Frame db tx ∧
      ∀ c x j, clustering tx.members c x j ↔
        (clustering db.members c x j ∧ ¬ (c = chain.asStr ∧ j = s)) ∨
          (c = chain.asStr ∧ clustering db.members chain.asStr x s ∧ j = k) := by
  obtain ⟨tx, htx, hmem, hframe⟩ := writeMembers_ok db (revokedRows db.members s chain now)
    (by rw [revokedRows_keys]; exact db.unique)
    (by
      intro c x i j hi hj
      rw [clustering_revokedRows] at hi hj
      exact db.clustering_single c x i j hi.1 hj.1)
    (by
      intro m hm
      obtain ⟨r, hr, rfl⟩ := List.mem_map.mp hm
      have hid := db.references r hr
      split <;> exact hid)
  have hcl : ∀ c x j, clustering tx.members c x j ↔
      clustering db.members c x j ∧ ¬ (c = chain.asStr ∧ j = s) := by
    intro c x j
    rw [hmem]
    exact clustering_revokedRows
  -- whoever was in the superseded cluster was in no other, and is in none now
  obtain ⟨tx', htx', hframe', hcl'⟩ :=
    upserts_ok chain ((db.members.filter (ClusterMember.activeIn s chain)).map ClusterMember.address)
      (show k ∈ tx.walletClusters from hframe.walletClusters ▸ hk) (by
        intro x hx j hj
        rw [mem_moved] at hx
        rw [hcl] at hj
        exact absurd ⟨rfl, db.clustering_single _ x j s hj.1 hx⟩ hj.2)
  refine ⟨tx', ?_, hframe.trans hframe', fun c x j => ?_⟩
  · rw [foldCluster, htx]
    exact htx'
  · rw [hcl', hcl, mem_moved]

/-- All superseded clusters move into the canonical one. -/
theorem foldClusters_ok (chain : ChainKind) (now : DateTime) (superseded : List Int)
    (hk : k ∈ db.walletClusters) (hks : k ∉ superseded) :
    ∃ tx, superseded.foldlM (foldCluster k chain now) db = .ok tx ∧ Frame db tx ∧
      ∀ c x j, clustering tx.members c x j ↔
        (clustering db.members c x j ∧ ¬ (c = chain.asStr ∧ j ∈ superseded)) ∨
          (c = chain.asStr ∧ (∃ s ∈ superseded, clustering db.members chain.asStr x s) ∧ j = k) := by
  refine foldlM_ok (fun done tx => Frame db tx ∧ ∀ c x j, clustering tx.members c x j ↔
      (clustering db.members c x j ∧ ¬ (c = chain.asStr ∧ j ∈ done)) ∨
        (c = chain.asStr ∧ (∃ s ∈ done, clustering db.members chain.asStr x s) ∧ j = k)) ?_ ?_
  · exact ⟨⟨rfl, rfl⟩, fun c x j => by simp⟩
  · intro done s tx hs hI
    obtain ⟨hframe, hcl⟩ := hI
    have hk' : k ∈ tx.walletClusters := hframe.walletClusters ▸ hk
    obtain ⟨tx', htx', hframe', hcl'⟩ := foldCluster_ok chain now s hk'
    have hsk : s ≠ k := fun h => hks (h ▸ hs)
    refine ⟨tx', htx', hframe.trans hframe', fun c x j => ?_⟩
    rw [hcl', hcl, hcl]
    simp only [List.mem_append, List.mem_singleton]
    grind

theorem mem_existing {members : List String} : j ∈ db.existing chain members ↔
    ∃ x ∈ members, clustering db.members chain.asStr x j := by
  simp only [GraphDb.existing, Canon.mem_canon, List.mem_map, List.mem_filter, clustering, Bool.and_eq_true,
    decide_eq_true_eq, List.contains_iff_mem]
  grind

/-- What a rebuild gathers: the members and all that is active in an existing cluster. -/
theorem gathered_iff {members : List String} : Gathered (db.clusters chain) (fun x => x ∈ members) x ↔
    x ∈ members ∨ ∃ s ∈ db.existing chain members, clustering db.members chain.asStr x s := by
  refine or_congr_right ⟨fun h => ?_, fun h => ?_⟩
  · obtain ⟨m, hm, s, hms, hxs⟩ := h
    exact ⟨s, mem_existing.mpr ⟨m, hm, hms⟩, hxs⟩
  · obtain ⟨s, hs, hxs⟩ := h
    obtain ⟨m, hm, hms⟩ := mem_existing.mp hs
    exact ⟨m, hm, s, hms, hxs⟩

/-- Once the canonical cluster is known, the members are merged into it. -/
theorem foldComponent_ok (chain : ChainKind) (now : DateTime) (members : List String) (hk : k ∈ db.walletClusters)
    (hcanon : ∀ x, clustering db.members chain.asStr x k → k ∈ db.existing chain members) :
    ∃ tx, foldComponent k chain now members (db.existing chain members) db = .ok tx ∧ Frame db tx ∧
      Merged (db.clusters chain) (fun x => x ∈ members) k (tx.clusters chain) := by
  have hsingle := db.clustering_single chain.asStr
  have hsup : ∀ s, s ∈ (db.existing chain members).filter (fun id => id ≠ k) ↔
      s ∈ db.existing chain members ∧ s ≠ k := by simp
  have hown : ∀ x ∈ members, ∀ j, clustering db.members chain.asStr x j → j ∈ db.existing chain members :=
    fun x hx j hj => mem_existing.mpr ⟨x, hx, hj⟩
  obtain ⟨tx, htx, hframe, hcl⟩ := foldClusters_ok chain now
    ((db.existing chain members).filter fun id => id ≠ k) hk (by simp)
  obtain ⟨tx', htx', hframe', hcl'⟩ := upserts_ok chain members
    (show k ∈ tx.walletClusters from hframe.walletClusters ▸ hk) (by
      intro x hx j hj
      rw [hcl, hsup] at hj
      obtain hj | hj := hj
      · by_contra hjk
        exact hj.2 ⟨rfl, hown x hx j hj.1, hjk⟩
      · exact hj.2.2)
  refine ⟨tx', ?_, hframe.trans hframe', fun x j => ?_, fun x hx => ?_⟩
  · rw [foldComponent, htx]
    exact htx'
  · show clustering tx'.members chain.asStr x j ↔ _
    rw [hcl', hcl, gathered_iff]
    simp only [hsup]
    show _ ↔ _ ∨ _ ∧ clustering db.members chain.asStr x j
    refine ⟨fun h => ?_, fun h => ?_⟩
    · obtain (⟨hj, hns⟩ | ⟨-, ⟨s, hs, hxs⟩, rfl⟩) | ⟨-, hx, rfl⟩ := h
      · by_cases hjk : j = k
        · exact Or.inl ⟨Or.inr ⟨j, hjk ▸ hcanon x (hjk ▸ hj), hj⟩, hjk⟩
        · -- the wallet is in none of the existing clusters, and no other is touched
          have hne : j ∉ db.existing chain members := fun hj => hns ⟨trivial, hj, hjk⟩
          refine Or.inr ⟨fun hg => ?_, hj⟩
          obtain hx | ⟨s, hs, hxs⟩ := hg
          · exact hne (hown x hx j hj)
          · exact hne (hsingle x s j hxs hj ▸ hs)
      · exact Or.inl ⟨Or.inr ⟨s, hs.1, hxs⟩, rfl⟩
      · exact Or.inl ⟨Or.inl hx, rfl⟩
    · obtain ⟨hx | ⟨s, hs, hxs⟩, rfl⟩ | ⟨hg, hj⟩ := h
      · exact Or.inr ⟨trivial, hx, rfl⟩
      · by_cases hsj : s = j
        · subst hsj
          exact Or.inl (Or.inl ⟨hxs, fun h => h.2.2 rfl⟩)
        · exact Or.inl (Or.inr ⟨trivial, ⟨s, ⟨hs, hsj⟩, hxs⟩, rfl⟩)
      · exact Or.inl (Or.inl ⟨hj, fun h => hg (Or.inr ⟨j, h.2.1, hj⟩)⟩)
  · exact gathered_iff.mpr (Or.inr ⟨k, hcanon x hx, hx⟩)

/-! ## Edges and stars -/

/-- An edge of the threshold joins the two wallets, in either direction. -/
def Linked (edges : List FundingEdge) (chain : ChainKind) (x y : String) : Prop :=
  ∃ e ∈ edges, e.chain = chain.asStr ∧ membershipThreshold ≤ e.confidence ∧
    ((e.fromAddress = x ∧ e.toAddress = y) ∨ (e.fromAddress = y ∧ e.toAddress = x))

instance (edges : List FundingEdge) (chain : ChainKind) : Std.Symm (Linked edges chain) := by
  refine ⟨fun x y h => ?_⟩
  obtain ⟨e, he, hc, ht, hends⟩ := h
  exact ⟨e, he, hc, ht, hends.symm⟩

theorem linked_iff {y : String} : Linked db.fundingEdges chain address y ↔
    ∃ e ∈ db.strongEdges chain address, (e.fromAddress = address ∧ e.toAddress = y) ∨
      (e.fromAddress = y ∧ e.toAddress = address) := by
  simp only [Linked, GraphDb.strongEdges, List.mem_filter, Bool.and_eq_true, Bool.or_eq_true, decide_eq_true_eq]
  grind

/-- A wallet has an edge when the query finds a row. -/
theorem strongEdges_isEmpty :
    (db.strongEdges chain address).isEmpty = true ↔ ¬ ∃ y, Linked db.fundingEdges chain address y := by
  simp only [linked_iff, List.isEmpty_iff, List.eq_nil_iff_forall_not_mem]
  refine ⟨fun h hy => ?_, fun h e he => h ?_⟩
  · obtain ⟨y, e, he, -⟩ := hy
    exact h e he
  · have hends := (List.mem_filter.mp he).2
    simp only [Bool.and_eq_true, Bool.or_eq_true, decide_eq_true_eq] at hends
    obtain hfrom | hto := hends.1.2
    · exact ⟨e.toAddress, e, he, Or.inl ⟨hfrom, rfl⟩⟩
    · exact ⟨e.fromAddress, e, he, Or.inr ⟨rfl, hto⟩⟩

/-- The members of a rebuild are the star of its wallet. -/
theorem mem_clusterMembers : x ∈ clusterMembers address (db.strongEdges chain address) ↔
    StarOf (Linked db.fundingEdges chain) address x := by
  have hends : ∀ e ∈ db.strongEdges chain address, e.fromAddress = address ∨ e.toAddress = address := by
    intro e he
    have h := (List.mem_filter.mp he).2
    simp only [Bool.and_eq_true, Bool.or_eq_true, decide_eq_true_eq] at h
    exact h.1.2
  simp only [clusterMembers, Canon.mem_canon, List.mem_cons, List.mem_flatMap, List.not_mem_nil, or_false, StarOf,
    linked_iff]
  grind

end

end WhaleIntelligence.Graph
