import WhaleIntelligence.Graph.ClusterRuns
import WhaleIntelligence.Helius.Inserts

/- Evidence on a pair of wallets: `update_funding_edges` and `record_edge_evidence`.

   Each call scores its own kinds of evidence and stores them as a row of its own, and
   a rebuild compares the rows one by one with the threshold. So evidence is not added
   up over the calls: the pair is connected where one call that was stored reaches the
   threshold alone, or other wallets put it together (`evidence_accumulates_iff`). The
   column rounds to four digits, which are those of the exact sum. -/
namespace WhaleIntelligence.Graph
open WhaleIntelligence Chains Clusters FirstWins

/-! ## Components -/

structure EdgeComponents where
  funding : Bool
  tokenAccountCreation : Bool
  repeatedFunding : Bool
  closeTimeSameToken : Bool
  tradeStyleMatch : Bool
  deriving DecidableEq, Repr

def weightFunding : Rat := 35 / 100
def weightTokenAccount : Rat := 25 / 100
def weightRepeatedFunding : Rat := 15 / 100
def weightCloseTimeActivity : Rat := 15 / 100
def weightTradeStyle : Rat := 10 / 100

namespace EdgeComponents

def confidence (components : EdgeComponents) : Rat :=
  min ((if components.funding then weightFunding else 0) +
    (if components.tokenAccountCreation then weightTokenAccount else 0) +
    (if components.repeatedFunding then weightRepeatedFunding else 0) +
    (if components.closeTimeSameToken then weightCloseTimeActivity else 0) +
    (if components.tradeStyleMatch then weightTradeStyle else 0)) 1

/-- `EdgeComponents::default()`. -/
def none : EdgeComponents := ⟨false, false, false, false, false⟩

def union (a b : EdgeComponents) : EdgeComponents where
  funding := a.funding || b.funding
  tokenAccountCreation := a.tokenAccountCreation || b.tokenAccountCreation
  repeatedFunding := a.repeatedFunding || b.repeatedFunding
  closeTimeSameToken := a.closeTimeSameToken || b.closeTimeSameToken
  tradeStyleMatch := a.tradeStyleMatch || b.tradeStyleMatch

end EdgeComponents

/-! ## Rows and calls -/

/-- A row of `funding_edges`, by its key and what a rebuild reads of it. -/
structure EdgeRow where
  chain : String
  fromAddress : String
  toAddress : String
  signature : String
  edgeKind : String
  confidence : Rat
  deriving DecidableEq, Repr

def EdgeRow.key (r : EdgeRow) : String × String × String × String × String :=
  (r.chain, r.fromAddress, r.toAddress, r.signature, r.edgeKind)

def EdgeRow.edge (r : EdgeRow) : FundingEdge := ⟨r.chain, r.fromAddress, r.toAddress, r.confidence⟩

/-- A call with what it is given, and the clock where it reads it. -/
inductive EvidenceCall
  | updateFundingEdges (transfer : NormalizedTransfer)
  | recordEdgeEvidence (nanos : Option Int) (chain : ChainKind) (fromAddress toAddress : String)
      (components : EdgeComponents)

namespace EvidenceCall

/-- The kinds of evidence that the call records. -/
def components : EvidenceCall → EdgeComponents
  | updateFundingEdges _ => { EdgeComponents.none with funding := true }
  | recordEdgeEvidence _ _ _ _ components => components

/-- The row that the call inserts. -/
def row : EvidenceCall → EdgeRow
  | updateFundingEdges t =>
    ⟨t.chain.asStr, t.fromAddress, t.toAddress, t.signature,
      if t.assetKind.asStr = "native" then "funding" else "token_funding",
      EdgeComponents.confidence { EdgeComponents.none with funding := true }⟩
  | recordEdgeEvidence nanos chain fromAddress toAddress components =>
    ⟨chain.asStr, fromAddress, toAddress, "evidence-" ++ toString (nanos.getD 0), "evidence", components.confidence⟩

end EvidenceCall

/-- `ON CONFLICT … DO NOTHING`. -/
def recordEvidence (rows : List EdgeRow) (call : EvidenceCall) : List EdgeRow :=
  Helius.insertNew EdgeRow.key rows call.row

/-- The tables with these rows in `funding_edges`. -/
def GraphDb.withRows (db : GraphDb) (rows : List EdgeRow) : GraphDb :=
  { db with fundingEdges := rows.map EdgeRow.edge }

/-! ## Pairs -/

/-- The row is on the pair, in either direction. -/
def EdgeRow.OnPair (chain : ChainKind) (a b : String) (r : EdgeRow) : Prop :=
  r.chain = chain.asStr ∧ ((r.fromAddress = a ∧ r.toAddress = b) ∨ (r.fromAddress = b ∧ r.toAddress = a))

/-- A rebuild of the wallet puts both wallets of the pair in one active cluster. -/
def Connects (db : GraphDb) (chain : ChainKind) (a b address : String) : Prop :=
  ∀ now, Share ((rebuildClusterFor chain address now db).2.clusters chain) a b

/-- The kinds of evidence of all calls together. -/
def recordedKinds (calls : List EvidenceCall) : EdgeComponents :=
  calls.foldl (fun kinds call => kinds.union call.components) EdgeComponents.none

/-- The rows of the pair begin with the calls, and a cluster can be opened. -/
structure Begins (chain : ChainKind) (a b : String) (rows : List EdgeRow) (db : GraphDb) : Prop where
  distinct : a ≠ b
  apart : ∀ r ∈ rows, ¬ r.OnPair chain a b
  sequence : db.clusterSeq < maxSerial ∧ ((db.clusterSeq : Int) + 1) ∉ db.walletClusters

/-- A rebuild of the wallet `a` puts the pair together without a row of its own. -/
def Together (chain : ChainKind) (a b : String) (rows : List EdgeRow) (db : GraphDb) : Prop :=
  Gathered (db.clusters chain) (StarOf (Linked (db.withRows rows).fundingEdges chain) a) b

/-- A rebuild of either wallet connects the pair where its kinds of evidence reach the
threshold together, and only there. -/
def Accumulates (chain : ChainKind) (a b : String) (rows : List EdgeRow) (db : GraphDb) (calls : List EvidenceCall) :
    Prop :=
  ∀ address, address = a ∨ address = b →
    (Connects (db.withRows (calls.foldl recordEvidence rows)) chain a b address ↔
      membershipThreshold ≤ (recordedKinds calls).confidence)

/-- One call reaches the threshold alone, and its row is stored: no call before it has its key. -/
def OneSuffices (calls : List EvidenceCall) : Prop :=
  ∃ call ∈ firstWins (fun call => call.row.key) calls, membershipThreshold ≤ call.components.confidence

section
variable {chain : ChainKind} {a b x y : String} {rows new : List EdgeRow} {db : GraphDb} {calls : List EvidenceCall}
  {now : DateTime}

/-! ## One rebuild -/

/-- What a rebuild does not gather it does not put together. -/
theorem not_share_of_not_gathered
    (h : ¬ Gathered (db.clusters chain) (StarOf (Linked db.fundingEdges chain) a) b) :
    ¬ Share ((rebuildClusterFor chain a now db).2.clusters chain) a b := by
  have hbefore : ¬ Share (db.clusters chain) a b := fun hshare => h (Or.inr ⟨a, Or.inl rfl, hshare⟩)
  obtain ⟨heq, -⟩ | ⟨e, tx, heq, -⟩ | ⟨k, tx, heq, -, -, hmerged⟩ := rebuildClusterFor_cases chain a now db
  · rw [heq]
    exact hbefore
  · rw [heq]
    exact hbefore
  · rw [heq]
    intro hshare
    obtain hshare | ⟨-, hgathered⟩ := hmerged.share hshare
    · exact hbefore hshare
    · exact h hgathered

/-- What it gathers comes together where a cluster can be opened. -/
theorem share_of_gathered (h : Gathered (db.clusters chain) (StarOf (Linked db.fundingEdges chain) a) b)
    (hne : a ≠ b) (hseq : db.clusterSeq < maxSerial ∧ ((db.clusterSeq : Int) + 1) ∉ db.walletClusters) :
    Share ((rebuildClusterFor chain a now db).2.clusters chain) a b := by
  obtain ⟨heq, hnone⟩ | ⟨e, tx, -, hinsert⟩ | ⟨k, tx, heq, -, -, hmerged⟩ := rebuildClusterFor_cases chain a now db
  · -- without an edge the wallet gathers its own cluster alone
    rw [heq]
    obtain (rfl | hlinked) | ⟨m, rfl | hlinked, hshare⟩ := h
    · exact absurd rfl hne
    · exact absurd ⟨b, hlinked⟩ hnone
    · exact hshare
    · exact absurd ⟨m, hlinked⟩ hnone
  · rw [GraphDb.insertCluster, if_pos hseq.1] at hinsert
    dsimp only at hinsert
    rw [if_neg hseq.2] at hinsert
    cases hinsert
  · rw [heq]
    exact hmerged.joins (Or.inl (Or.inl rfl)) h

/-! ## The rows of a pair -/

theorem EdgeRow.OnPair.symm {r : EdgeRow} (h : r.OnPair chain a b) : r.OnPair chain b a := ⟨h.1, h.2.symm⟩

theorem Begins.symm (h : Begins chain a b rows db) : Begins chain b a rows db :=
  ⟨h.distinct.symm, fun r hr hpair => h.apart r hr hpair.symm, h.sequence⟩

theorem linked_append {edges edges' : List FundingEdge} :
    Linked (edges ++ edges') chain x y ↔ Linked edges chain x y ∨ Linked edges' chain x y := by
  simp only [Linked, List.mem_append, or_and_right, exists_or]

/-- Rows below the threshold link nothing. -/
theorem not_linked_of_weak (h : ∀ r ∈ new, ¬ membershipThreshold ≤ r.confidence) :
    ¬ Linked (new.map EdgeRow.edge) chain x y := by
  rintro ⟨e, he, -, hstrong, -⟩
  obtain ⟨r, hr, rfl⟩ := List.mem_map.mp he
  exact h r hr hstrong

/-- Rows of the pair connect it where one of them reaches the threshold, unless it is
together without them. -/
theorem connects_iff (h : Begins chain a b rows db) (hnew : ∀ r ∈ new, r.OnPair chain a b) :
    Connects (db.withRows (rows ++ new)) chain a b a ↔
      (∃ r ∈ new, membershipThreshold ≤ r.confidence) ∨ Together chain a b rows db := by
  have hgathered : Connects (db.withRows (rows ++ new)) chain a b a ↔ Together chain a b (rows ++ new) db := by
    constructor
    · intro hconnects
      by_contra hapart
      exact not_share_of_not_gathered hapart (hconnects 0)
    · exact fun htogether now => share_of_gathered htogether h.distinct h.sequence
  have hedges : (db.withRows (rows ++ new)).fundingEdges = (db.withRows rows).fundingEdges ++ new.map EdgeRow.edge :=
    List.map_append
  rw [hgathered]
  by_cases hstrong : ∃ r ∈ new, membershipThreshold ≤ r.confidence
  · refine iff_of_true ?_ (Or.inl hstrong)
    obtain ⟨r, hr, hstrong⟩ := hstrong
    obtain ⟨hchain, hends⟩ := hnew r hr
    refine Or.inl (Or.inr ?_)
    rw [hedges, linked_append]
    exact Or.inr ⟨r.edge, List.mem_map_of_mem hr, hchain, hstrong, hends⟩
  · have hsame : Linked (db.withRows (rows ++ new)).fundingEdges chain =
        Linked (db.withRows rows).fundingEdges chain := by
      simp only [not_exists, not_and] at hstrong
      funext x y
      rw [hedges, linked_append, or_iff_left (not_linked_of_weak hstrong)]
    rw [or_iff_right hstrong, Together, Together, hsame]

/-! ## Calls -/

theorem row_confidence (call : EvidenceCall) : call.row.confidence = call.components.confidence := by
  cases call <;> rfl

/-- The calls on a pair store the first row under each key. -/
theorem recordEvidence_rows (h : Begins chain a b rows db) (hcalls : ∀ call ∈ calls, call.row.OnPair chain a b) :
    calls.foldl recordEvidence rows = rows ++ firstWins EdgeRow.key (calls.map EvidenceCall.row) := by
  have hfold : calls.foldl recordEvidence rows =
    (calls.map EvidenceCall.row).foldl (Helius.insertNew EdgeRow.key) rows := by
    rw [List.foldl_map]
    rfl
  rw [hfold]
  apply Helius.foldl_insertNew_apart
  intro r hr hmem
  obtain ⟨call, hcall, rfl⟩ := List.mem_map.mp hr
  obtain ⟨r, hr, hkey⟩ := List.mem_map.mp hmem
  simp only [EdgeRow.key, Prod.mk.injEq] at hkey
  obtain ⟨hchain, hfrom, hto, -⟩ := hkey
  refine h.apart r hr ?_
  rw [EdgeRow.OnPair, hchain, hfrom, hto]
  exact hcalls call hcall

/-- One call suffices where a row of its own does. -/
theorem oneSuffices_iff : OneSuffices calls ↔
    ∃ r ∈ firstWins EdgeRow.key (calls.map EvidenceCall.row), membershipThreshold ≤ r.confidence := by
  rw [firstWins_map, OneSuffices]
  simp only [List.mem_map, exists_exists_and_eq_and, row_confidence]

theorem connects_calls_iff (h : Begins chain a b rows db) (hcalls : ∀ call ∈ calls, call.row.OnPair chain a b) :
    Connects (db.withRows (calls.foldl recordEvidence rows)) chain a b a ↔
      OneSuffices calls ∨ Together chain a b rows db := by
  rw [recordEvidence_rows h hcalls, oneSuffices_iff]
  apply connects_iff h
  intro r hr
  obtain ⟨call, hcall, rfl⟩ := List.mem_map.mp (mem_of_mem_firstWins _ hr)
  exact hcalls call hcall

theorem connects_symm {address : String} : Connects db chain a b address ↔ Connects db chain b a address :=
  ⟨fun h now => (h now).symm, fun h now => (h now).symm⟩

/-! ## Kinds -/

/-- The kinds of the one are among those of the other. -/
def EdgeComponents.Within (k k' : EdgeComponents) : Prop := k.union k' = k'

theorem confidence_mono {k k' : EdgeComponents} (h : k.Within k') : k.confidence ≤ k'.confidence := by
  obtain ⟨f, t, r, c, s⟩ := k
  obtain ⟨f', t', r', c', s'⟩ := k'
  rw [EdgeComponents.Within] at h
  revert f t r c s f' t' r' c' s'
  decide +kernel

theorem union_assoc (k k' k'' : EdgeComponents) : (k.union k').union k'' = k.union (k'.union k'') := by
  simp only [EdgeComponents.union, Bool.or_assoc]

theorem within_union_left (k k' : EdgeComponents) : k.Within (k.union k') := by
  simp [EdgeComponents.Within, EdgeComponents.union]

theorem within_union_right (k k' : EdgeComponents) : k'.Within (k.union k') := by
  simp [EdgeComponents.Within, EdgeComponents.union, Bool.or_left_comm]

theorem Within.trans {k k' k'' : EdgeComponents} (h : k.Within k') (h' : k'.Within k'') : k.Within k'' := by
  rw [EdgeComponents.Within] at *
  rw [← h', ← union_assoc, h]

/-- More calls record more kinds. -/
theorem within_foldl (k : EdgeComponents) :
    k.Within (calls.foldl (fun kinds call => kinds.union call.components) k) := by
  induction calls generalizing k with
  | nil => simp [EdgeComponents.Within, EdgeComponents.union]
  | cons call calls ih => exact Within.trans (within_union_left k call.components) (ih _)

/-- The kinds of one call are among those of all. -/
theorem confidence_le_recorded {call : EvidenceCall} (h : call ∈ calls) :
    call.components.confidence ≤ (recordedKinds calls).confidence := by
  obtain ⟨pre, post, rfl⟩ := List.append_of_mem h
  apply confidence_mono
  rw [recordedKinds, List.foldl_append, List.foldl_cons]
  exact Within.trans (within_union_right _ call.components) (within_foldl _)

/-- Evidence on a pair accumulates over the calls exactly where, if they reach the threshold
together, one of the stored calls does alone or other wallets put the pair together from
both sides, and if they do not, other wallets put it together from neither. -/
theorem evidence_accumulates_iff (chain : ChainKind) (a b : String) (rows : List EdgeRow) (db : GraphDb)
    (calls : List EvidenceCall) (h : Begins chain a b rows db) (hcalls : ∀ call ∈ calls, call.row.OnPair chain a b) :
    Accumulates chain a b rows db calls ↔
      (membershipThreshold ≤ (recordedKinds calls).confidence →
        OneSuffices calls ∨ (Together chain a b rows db ∧ Together chain b a rows db)) ∧
      (¬ membershipThreshold ≤ (recordedKinds calls).confidence →
        ¬ Together chain a b rows db ∧ ¬ Together chain b a rows db) := by
  have hleft := connects_calls_iff h hcalls
  have hright := connects_symm.trans (connects_calls_iff h.symm fun call hcall => (hcalls call hcall).symm)
  have hsuffices : OneSuffices calls → membershipThreshold ≤ (recordedKinds calls).confidence := by
    rintro ⟨call, hcall, hstrong⟩
    exact hstrong.trans (confidence_le_recorded (mem_of_mem_firstWins _ hcall))
  have hboth : Accumulates chain a b rows db calls ↔
      (OneSuffices calls ∨ Together chain a b rows db ↔ membershipThreshold ≤ (recordedKinds calls).confidence) ∧
      (OneSuffices calls ∨ Together chain b a rows db ↔
        membershipThreshold ≤ (recordedKinds calls).confidence) := by
    rw [Accumulates, forall_eq_or_imp, forall_eq, hleft, hright]
  rw [hboth]
  by_cases hstrong : membershipThreshold ≤ (recordedKinds calls).confidence
  · simp only [hstrong, iff_true, true_implies, not_true_eq_false, false_implies, and_true, ← or_and_left]
  · have hno : ¬ OneSuffices calls := fun h => hstrong (hsuffices h)
    simp only [hstrong, hno, false_or, iff_false, false_implies, not_false_eq_true, true_implies, true_and]

end

/-! ## A transfer and a token account -/

/-- No edges, no clusters. -/
def emptyGraph : GraphDb := { threeInARow with fundingEdges := [] }

theorem emptyGraph_begins : Begins .solana "A" "B" [] emptyGraph :=
  ⟨by decide, fun r hr => absurd hr List.not_mem_nil, by decide⟩

theorem emptyGraph_apart : ¬ Together .solana "A" "B" [] emptyGraph := by
  rintro (hstar | ⟨m, -, k, ⟨r, hr, -⟩, -⟩)
  · obtain heq | ⟨e, he, -⟩ := hstar
    · exact absurd heq (by decide)
    · cases he
  · cases hr

/-- A transfer, then half of the threshold in other kinds. -/
def splitCalls : List EvidenceCall :=
  [.updateFundingEdges {
      chain := .solana, signature := "tx", eventIndex := 0, fromAddress := "A", toAddress := "B", assetKind := .native
      mint := "", rawAmount := "1", amount := Decimal.one, slot := none, blockTime := none, observedAt := 0
      source := "helius", commitment := .confirmed },
    .recordEdgeEvidence (some 1) .solana "A" "B"
      { EdgeComponents.none with tokenAccountCreation := true, tradeStyleMatch := true }]

theorem splitCalls_onPair : ∀ call ∈ splitCalls, call.row.OnPair .solana "A" "B" := by
  intro call hcall
  simp only [splitCalls, List.mem_cons, List.not_mem_nil, or_false] at hcall
  obtain rfl | rfl := hcall <;> exact ⟨rfl, Or.inl ⟨rfl, rfl⟩⟩

theorem splitCalls_accumulates_iff : Accumulates .solana "A" "B" [] emptyGraph splitCalls ↔
    (membershipThreshold ≤ (recordedKinds splitCalls).confidence →
      OneSuffices splitCalls ∨ (Together .solana "A" "B" [] emptyGraph ∧ Together .solana "B" "A" [] emptyGraph)) ∧
    (¬ membershipThreshold ≤ (recordedKinds splitCalls).confidence →
      ¬ Together .solana "A" "B" [] emptyGraph ∧ ¬ Together .solana "B" "A" [] emptyGraph) :=
  evidence_accumulates_iff .solana "A" "B" [] emptyGraph splitCalls emptyGraph_begins splitCalls_onPair

/-- The two calls reach the threshold together, and the pair is not connected. -/
theorem evidence_not_accumulated : (recordedKinds splitCalls).confidence = 7 / 10 ∧
    ¬ Accumulates .solana "A" "B" [] emptyGraph splitCalls := by
  have hkinds : (recordedKinds splitCalls).confidence = 7 / 10 := by decide +kernel
  refine ⟨hkinds, fun hacc => ?_⟩
  have hconnects : OneSuffices splitCalls ∨ Together .solana "A" "B" [] emptyGraph := by
    rw [← connects_calls_iff emptyGraph_begins splitCalls_onPair, hacc "A" (Or.inl rfl), hkinds]
    exact le_rfl
  have hnone : ¬ OneSuffices splitCalls := by
    rw [OneSuffices]
    decide +kernel
  exact hconnects.elim hnone emptyGraph_apart

end WhaleIntelligence.Graph
