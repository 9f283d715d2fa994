import Mathlib.Data.List.MinMax
import Mathlib.Data.Prod.Lex
import Mathlib.Data.String.Basic
import WhaleIntelligence.Helius.History
import WhaleIntelligence.Helius.Inserts

/- Which mint owns a funding edge.

   The key of `funding_edges` leaves out the asset, so that of the transfers of one
   transaction between two wallets the first becomes the edge, with its mint. Whether the
   edge of another mint is there then depends on the order, and with it who funded that
   mint first (`edge_ownership_iff`). -/
namespace WhaleIntelligence.Helius
open WhaleIntelligence Chains FirstWins

/-! ## Reads -/

/-- The order in which the database sorts texts. No two texts are at one place. -/
structure Collation (κ : Type) [LinearOrder κ] where
  rank : String → κ
  injective : Function.Injective rank

def FundingEdge.key (e : FundingEdge) : ChainKind × String × String × String × String :=
  (e.chain, e.fromAddress, e.toAddress, e.signature, e.edgeKind)

/-- The rows that the reads of a mint select. -/
def ownedBy (chain : ChainKind) (mint : String) (edges : List FundingEdge) : List FundingEdge :=
  edges.filter fun e => e.chain == chain && e.mint == mint && e.blockTime.isSome

/-- `edge_kind = 'funding' OR edge_kind = 'token_funding'`. -/
def FundingEdge.isFunding (e : FundingEdge) : Bool := e.edgeKind == "funding" || e.edgeKind == "token_funding"

/-- A time and four texts, the time first. -/
def Place (κ : Type) : Type := Int ×ₗ κ ×ₗ κ ×ₗ κ ×ₗ κ

section
variable {κ : Type} [LinearOrder κ] (c : Collation κ)

instance : LinearOrder (Place κ) :=
  @Prod.Lex.instLinearOrder Int (κ ×ₗ κ ×ₗ κ ×ₗ κ) Int.instLinearOrder inferInstance

/-- `ORDER BY block_time, signature, from_address, to_address, edge_kind`. -/
def FundingEdge.place (e : FundingEdge) : Place κ :=
  toLex (e.blockTime.getD 0, toLex (c.rank e.signature, toLex (c.rank e.fromAddress,
    toLex (c.rank e.toAddress, c.rank e.edgeKind))))

def earliestTokenFunder (db : Store) (chain : ChainKind) (mint : String) : Option String :=
  (((ownedBy chain mint db.edges).filter (·.isFunding)).argmin (FundingEdge.place c)).map (·.fromAddress)

/-! ## Runs -/

def updateAll (transfers : List NormalizedTransfer) (db : Store) : Store := transfers.foldl updateFundingEdges db

/-- What an edge says of its transfer, the amount and the signature apart. -/
def FundingEdge.owner (e : FundingEdge) : ChainKind × String × String × String × Option DateTime :=
  (e.chain, e.fromAddress, e.toAddress, e.mint, e.blockTime)

/-- After any run over the transfers, in any order and with any repetitions, the edges are
those of the transfers, and each mint has the same earliest funder. -/
def OwnershipHolds (transfers : List NormalizedTransfer) : Prop :=
  ∀ run, (∀ t, t ∈ run ↔ t ∈ transfers) → ∀ db, db.edges = [] →
    (∀ t ∈ transfers, ∃ e ∈ (updateAll run db).edges, e.owner = (FundingEdge.of t).owner) ∧
    (∀ e ∈ (updateAll run db).edges, ∃ t ∈ transfers, e = .of t) ∧
    ∀ run', (∀ t, t ∈ run' ↔ t ∈ transfers) → ∀ chain mint,
      earliestTokenFunder c (updateAll run db) chain mint = earliestTokenFunder c (updateAll run' db) chain mint

/-! ## What does not depend on the order -/

variable (edges : List FundingEdge)

/-- Every edge under the key of this one has its mint and its block time. -/
def Settled (u : FundingEdge) : Prop := ∀ v ∈ edges, v.key = u.key → v.mint = u.mint ∧ v.blockTime = u.blockTime

/-- Every edge has an owner in common with a settled one. -/
def Covered : Prop := ∀ e ∈ edges, ∃ u ∈ edges, u.owner = e.owner ∧ Settled edges u

/-- No edge that can be lost comes before the first settled edge of its mint, unless it
has the same funder. -/
def FunderSettled : Prop :=
  ∀ chain mint, ∀ e ∈ ownedBy chain mint edges, ∀ u ∈ ownedBy chain mint edges, Settled edges u →
    (∀ u' ∈ ownedBy chain mint edges, Settled edges u' → u.place c ≤ u'.place c) →
      u.place c ≤ e.place c ∨ u.fromAddress = e.fromAddress

end

section
variable {κ : Type} [LinearOrder κ] {c : Collation κ} {edges : List FundingEdge} {e u v : FundingEdge}
  {chain : ChainKind} {mint : String} {db : Store} {run transfers : List NormalizedTransfer}

/-! ## Rows -/

theorem mem_ownedBy : e ∈ ownedBy chain mint edges ↔
    e ∈ edges ∧ e.chain = chain ∧ e.mint = mint ∧ e.blockTime.isSome = true := by
  rw [ownedBy, List.mem_filter]
  simp only [Bool.and_eq_true, beq_iff_eq, and_assoc]

theorem place_injective (h : e.place c = u.place c) : e.signature = u.signature ∧ e.fromAddress = u.fromAddress ∧
    e.toAddress = u.toAddress ∧ e.edgeKind = u.edgeKind := by
  have h := Prod.mk.inj (toLex_inj.mp h)
  simp only [EmbeddingLike.apply_eq_iff_eq, Prod.mk.injEq] at h
  obtain ⟨-, hsignature, hfrom, hto, hkind⟩ := h
  exact ⟨c.injective hsignature, c.injective hfrom, c.injective hto, c.injective hkind⟩

/-- An edge at an earlier time comes earlier. -/
theorem place_lt (h : e.blockTime.getD 0 < u.blockTime.getD 0) : e.place c < u.place c := by
  exact Prod.Lex.toLex_lt_toLex.mpr (Or.inl h)

theorem blockTime_le (h : e.place c ≤ u.place c) : e.blockTime.getD 0 ≤ u.blockTime.getD 0 := by
  by_contra hlt
  exact absurd h (not_le.mpr (place_lt (not_le.mp hlt)))

/-- Edges with one key, mint and block time differ in the amount alone. -/
theorem place_congr (hkey : e.key = u.key) (hmint : e.mint = u.mint) (htime : e.blockTime = u.blockTime) :
    e.owner = u.owner ∧ e.place c = u.place c := by
  simp only [FundingEdge.key, Prod.mk.injEq] at hkey
  obtain ⟨hchain, hfrom, hto, hsignature, hkind⟩ := hkey
  constructor
  · rw [FundingEdge.owner, FundingEdge.owner, hchain, hfrom, hto, hmint, htime]
  · rw [FundingEdge.place, FundingEdge.place, htime, hsignature, hfrom, hto, hkind]

theorem isFunding_of (t : NormalizedTransfer) : (FundingEdge.of t).isFunding = true := by
  rw [FundingEdge.isFunding, FundingEdge.of]
  split <;> rfl

theorem updateAll_edges : (updateAll run db).edges = (run.map FundingEdge.of).foldl
    (insertNew FundingEdge.key) db.edges := by
  induction run generalizing db with
  | nil => rfl
  | cons t run ih =>
    show (updateAll run (updateFundingEdges db t)).edges = _
    rw [ih]
    rfl

/-- An empty table keeps the first edge under each key. -/
theorem updateAll_empty (h : db.edges = []) : (updateAll run db).edges = firstWins FundingEdge.key (run.map .of) := by
  rw [updateAll_edges, h, foldl_insertNew_nil]

/-- The funder of a mint is that of the first of its rows. -/
theorem funder_spec (hfunding : ∀ e ∈ db.edges, e.isFunding = true) (he : e ∈ ownedBy chain mint db.edges) :
    ∃ m ∈ ownedBy chain mint db.edges, (∀ u ∈ ownedBy chain mint db.edges, m.place c ≤ u.place c) ∧
      earliestTokenFunder c db chain mint = some m.fromAddress := by
  have hall : (ownedBy chain mint db.edges).filter (·.isFunding) = ownedBy chain mint db.edges := by
    rw [List.filter_eq_self]
    exact fun u hu => hfunding u (mem_ownedBy.mp hu).1
  rw [earliestTokenFunder, hall]
  cases hmin : (ownedBy chain mint db.edges).argmin (FundingEdge.place c) with
  | none =>
    rw [List.argmin_eq_none.mp hmin] at he
    cases he
  | some m => exact ⟨m, List.argmin_mem hmin, fun u hu => List.le_of_mem_argmin hu hmin, rfl⟩

theorem funder_of_first (hfunding : ∀ e ∈ db.edges, e.isFunding = true) (he : e ∈ ownedBy chain mint db.edges)
    (hfirst : ∀ u ∈ ownedBy chain mint db.edges, e.place c ≤ u.place c) :
    earliestTokenFunder c db chain mint = some e.fromAddress := by
  obtain ⟨m, hm, hle, hfunder⟩ := funder_spec (c := c) hfunding he
  rw [hfunder, (place_injective (le_antisymm (hfirst m hm) (hle e he))).2.1]

theorem updateAll_isFunding (h : db.edges = []) : ∀ e ∈ (updateAll run db).edges, e.isFunding = true := by
  intro e he
  rw [updateAll_empty h] at he
  obtain ⟨t, -, rfl⟩ := List.mem_map.mp (mem_of_mem_firstWins _ he)
  exact isFunding_of t

/-! ## Where the edges are settled -/

theorem mem_edges_iff (h : ∀ t, t ∈ run ↔ t ∈ transfers) : e ∈ run.map FundingEdge.of ↔
    e ∈ transfers.map FundingEdge.of := by
  rw [List.mem_map, List.mem_map]
  exact exists_congr fun t => and_congr_left fun _ => h t

/-- A settled edge is there, perhaps with another amount. -/
theorem row_of_settled (hrun : ∀ t, t ∈ run ↔ t ∈ transfers) (hu : u ∈ transfers.map FundingEdge.of)
    (hsettled : Settled (transfers.map .of) u) : ∃ e ∈ firstWins FundingEdge.key (run.map .of),
      e.owner = u.owner ∧ e.place c = u.place c := by
  obtain ⟨e, he, hkey⟩ := exists_of_mem FundingEdge.key ((mem_edges_iff hrun).mpr hu)
  have hmem := (mem_edges_iff hrun).mp (mem_of_mem_firstWins _ he)
  obtain ⟨hmint, htime⟩ := hsettled e hmem hkey
  exact ⟨e, he, place_congr hkey hmint htime⟩

theorem owner_mem_ownedBy (he : e ∈ edges) (howner : e.owner = u.owner) (hu : u.chain = chain ∧ u.mint = mint ∧
    u.blockTime.isSome = true) : e ∈ ownedBy chain mint edges := by
  simp only [FundingEdge.owner, Prod.mk.injEq] at howner
  obtain ⟨hchain, -, -, hmint, htime⟩ := howner
  rw [mem_ownedBy, hchain, hmint, htime]
  exact ⟨he, hu⟩

/-- A mint with an edge has a first settled edge, at the time of its earliest. -/
theorem exists_first (hcovered : Covered edges) (he : e ∈ ownedBy chain mint edges) :
    ∃ u ∈ ownedBy chain mint edges, Settled edges u ∧
      (∀ u' ∈ ownedBy chain mint edges, Settled edges u' → u.place c ≤ u'.place c) ∧
      ∀ v ∈ ownedBy chain mint edges, u.blockTime.getD 0 ≤ v.blockTime.getD 0 := by
  classical
  have hcover : ∀ v ∈ ownedBy chain mint edges, ∃ u ∈ ownedBy chain mint edges, u.owner = v.owner ∧
    Settled edges u := by
    intro v hv
    obtain ⟨hmem, hof⟩ := mem_ownedBy.mp hv
    obtain ⟨u, hu, howner, hsettled⟩ := hcovered v hmem
    exact ⟨u, owner_mem_ownedBy hu howner hof, howner, hsettled⟩
  obtain ⟨s, hs, -, hsettled⟩ := hcover e he
  cases hmin : ((ownedBy chain mint edges).filter fun u => Settled edges u).argmin (FundingEdge.place c) with
  | none =>
    have hnil := List.argmin_eq_none.mp hmin
    have hmem : s ∈ (ownedBy chain mint edges).filter fun u => Settled edges u :=
      List.mem_filter.mpr ⟨hs, decide_eq_true hsettled⟩
    rw [hnil] at hmem
    cases hmem
  | some u =>
    obtain ⟨hu, hsettledU⟩ := List.mem_filter.mp (List.argmin_mem hmin)
    have hfirst : ∀ u' ∈ ownedBy chain mint edges, Settled edges u' → u.place c ≤ u'.place c := by
      intro u' hu' hs'
      exact List.le_of_mem_argmin (List.mem_filter.mpr ⟨hu', decide_eq_true hs'⟩) hmin
    refine ⟨u, hu, of_decide_eq_true hsettledU, hfirst, fun v hv => ?_⟩
    obtain ⟨w, hw, howner, hsettledW⟩ := hcover v hv
    have htime : w.blockTime = v.blockTime := congrArg (fun o : _ × _ × _ × _ × _ => o.2.2.2.2) howner
    rw [← htime]
    exact blockTime_le (hfirst w hw hsettledW)

theorem ownedBy_subset (hdb : db.edges = []) (hrun : ∀ t, t ∈ run ↔ t ∈ transfers)
    (he : e ∈ ownedBy chain mint (updateAll run db).edges) : e ∈ ownedBy chain mint (transfers.map .of) := by
  rw [updateAll_empty hdb] at he
  obtain ⟨hmem, hof⟩ := mem_ownedBy.mp he
  exact mem_ownedBy.mpr ⟨(mem_edges_iff hrun).mp (mem_of_mem_firstWins _ hmem), hof⟩

/-- After any run the funder of a mint is that of its first settled edge. -/
theorem funder_settled (hdb : db.edges = []) (hrun : ∀ t, t ∈ run ↔ t ∈ transfers)
    (hfunder : FunderSettled c (transfers.map .of)) (hu : u ∈ ownedBy chain mint (transfers.map .of))
    (hsettled : Settled (transfers.map .of) u)
    (hfirst : ∀ u' ∈ ownedBy chain mint (transfers.map .of), Settled (transfers.map .of) u' → u.place c ≤ u'.place c) :
    earliestTokenFunder c (updateAll run db) chain mint = some u.fromAddress := by
  obtain ⟨r, hr, howner, hplace⟩ := row_of_settled (c := c) hrun (mem_ownedBy.mp hu).1 hsettled
  have hmem : r ∈ ownedBy chain mint (updateAll run db).edges := by
    rw [updateAll_empty hdb]
    exact owner_mem_ownedBy hr howner (mem_ownedBy.mp hu).2
  obtain ⟨m, hm, hle, heq⟩ := funder_spec (c := c) (updateAll_isFunding hdb) hmem
  rw [heq]
  have hbefore : m.place c ≤ u.place c := hplace ▸ hle r hmem
  obtain hafter | hsame := hfunder chain mint m (ownedBy_subset hdb hrun hm) u hu hsettled hfirst
  · rw [(place_injective (le_antisymm hbefore hafter)).2.1]
  · rw [hsame]

theorem ownership_of_settled (hcovered : Covered (transfers.map .of)) (hfunder : FunderSettled c (transfers.map .of)) :
    OwnershipHolds c transfers := by
  intro run hrun db hdb
  refine ⟨?_, ?_, ?_⟩
  · intro t ht
    obtain ⟨u, hu, howner, hsettled⟩ := hcovered _ (List.mem_map_of_mem ht)
    obtain ⟨r, hr, hsame, -⟩ := row_of_settled (c := c) hrun hu hsettled
    rw [updateAll_empty hdb]
    exact ⟨r, hr, hsame.trans howner⟩
  · intro e he
    rw [updateAll_empty hdb] at he
    obtain ⟨t, ht, rfl⟩ := List.mem_map.mp ((mem_edges_iff hrun).mp (mem_of_mem_firstWins _ he))
    exact ⟨t, ht, rfl⟩
  · intro run' hrun' chain mint
    by_cases hnone : ownedBy chain mint (transfers.map .of) = []
    · have hrows : ∀ run : List NormalizedTransfer, (∀ t, t ∈ run ↔ t ∈ transfers) →
          ownedBy chain mint (updateAll run db).edges = [] := by
        intro run hrun
        rw [List.eq_nil_iff_forall_not_mem]
        intro e he
        have hmem := ownedBy_subset hdb hrun he
        rw [hnone] at hmem
        cases hmem
      rw [earliestTokenFunder, earliestTokenFunder, hrows run hrun, hrows run' hrun']
    · obtain ⟨e, he⟩ := List.exists_mem_of_ne_nil _ hnone
      obtain ⟨u, hu, hsettled, hfirst, -⟩ := exists_first (c := c) hcovered he
      rw [funder_settled hdb hrun hfunder hu hsettled hfirst, funder_settled hdb hrun' hfunder hu hsettled hfirst]

/-! ## Where they are not -/

/-- The run in which the transfers of some edges come last. -/
def runLast (q : FundingEdge → Bool) (transfers : List NormalizedTransfer) : List NormalizedTransfer :=
  transfers.filter (fun t => !q (.of t)) ++ transfers.filter fun t => q (.of t)

variable {q : FundingEdge → Bool}

theorem mem_runLast (t : NormalizedTransfer) : t ∈ runLast q transfers ↔ t ∈ transfers := by
  rw [runLast, List.mem_append, List.mem_filter, List.mem_filter]
  cases q (.of t) <;> simp

/-- What is kept of the edges that come last is the first of its key only where no other
edge has the key. -/
theorem kept_last (he : e ∈ firstWins FundingEdge.key ((runLast q transfers).map .of)) (hq : q e = true) :
    ∀ v ∈ transfers.map FundingEdge.of, v.key = e.key → q v = true := by
  intro v hv hkey
  by_contra hnot
  rw [mem_firstWins, runLast, List.map_append, List.find?_append] at he
  obtain ⟨t, ht, rfl⟩ := List.mem_map.mp hv
  have hfirst : FundingEdge.of t ∈ (transfers.filter fun t => !q (.of t)).map FundingEdge.of :=
    List.mem_map_of_mem (List.mem_filter.mpr ⟨ht, by simpa using hnot⟩)
  cases hfind : ((transfers.filter fun t => !q (.of t)).map FundingEdge.of).find? fun b => b.key = e.key with
  | none => exact absurd (decide_eq_true hkey) (List.find?_eq_none.mp hfind _ hfirst)
  | some w =>
    rw [hfind, Option.some_or, Option.some.injEq] at he
    obtain ⟨t', ht', rfl⟩ := List.mem_map.mp (List.mem_of_find?_eq_some hfind)
    have hnot' := (List.mem_filter.mp ht').2
    rw [he, hq] at hnot'
    cases hnot'

theorem covered_of_ownership (h : OwnershipHolds c transfers) : Covered (transfers.map .of) := by
  intro e he
  obtain ⟨t, ht, rfl⟩ := List.mem_map.mp he
  -- The transfers with this owner come last.
  obtain ⟨hrows, -⟩ := h (runLast (fun v => v.owner = (FundingEdge.of t).owner) transfers) mem_runLast emptyStore rfl
  obtain ⟨r, hr, howner⟩ := hrows t ht
  rw [updateAll_empty rfl] at hr
  refine ⟨r, (mem_edges_iff mem_runLast).mp (mem_of_mem_firstWins _ hr), howner, fun v hv hkey => ?_⟩
  have hsame := of_decide_eq_true (kept_last hr (decide_eq_true howner) v hv hkey)
  rw [← howner] at hsame
  simp only [FundingEdge.owner, Prod.mk.injEq] at hsame
  exact ⟨hsame.2.2.2.1, hsame.2.2.2.2⟩

/-- The edges of a mint at one time. -/
def atTime (u v : FundingEdge) : Bool := v.chain = u.chain ∧ v.mint = u.mint ∧ v.blockTime = u.blockTime

/-- Where the edges at the time of the first settled edge come last, no row of its mint
is before it. -/
theorem first_of_last (hcovered : Covered (transfers.map .of)) (hu : u ∈ ownedBy chain mint (transfers.map .of))
    (hfirst : ∀ u' ∈ ownedBy chain mint (transfers.map .of), Settled (transfers.map .of) u' → u.place c ≤ u'.place c)
    {r : FundingEdge} (hr : r ∈ ownedBy chain mint (updateAll (runLast (atTime u) transfers) emptyStore).edges) :
    u.place c ≤ r.place c := by
  have hmem := ownedBy_subset rfl mem_runLast hr
  obtain ⟨-, rfl, rfl, hutime⟩ := mem_ownedBy.mp hu
  obtain ⟨hrow, hchain, hmint, hsome⟩ := mem_ownedBy.mp hr
  by_cases hsame : r.blockTime = u.blockTime
  · apply hfirst r hmem
    intro v hv hkey
    rw [updateAll_empty rfl] at hrow
    have hv' := kept_last hrow (decide_eq_true ⟨hchain, hmint, hsame⟩) v hv hkey
    obtain ⟨-, hvmint, hvtime⟩ := of_decide_eq_true hv'
    exact ⟨hvmint.trans hmint.symm, hvtime.trans hsame.symm⟩
  · obtain ⟨u₁, hu₁, hsettled₁, -, hleast⟩ := exists_first (c := c) hcovered hu
    have hle : u.blockTime.getD 0 ≤ r.blockTime.getD 0 := (blockTime_le (hfirst u₁ hu₁ hsettled₁)).trans (hleast r hmem)
    apply le_of_lt
    apply place_lt
    apply lt_of_le_of_ne hle
    obtain ⟨b, hb⟩ := Option.isSome_iff_exists.mp hsome
    obtain ⟨b', hb'⟩ := Option.isSome_iff_exists.mp hutime
    rw [hb, hb'] at hsame ⊢
    exact fun heq => hsame (congrArg some heq.symm)

/-- A transfer that comes first keeps its edge, and the others leave what they leave without it. -/
theorem updateAll_cons (t : NormalizedTransfer) (run : List NormalizedTransfer) :
    FundingEdge.of t ∈ (updateAll (t :: run) emptyStore).edges ∧
    ∀ r ∈ (updateAll (t :: run) emptyStore).edges, r = .of t ∨ r ∈ (updateAll run emptyStore).edges := by
  rw [updateAll_empty rfl, updateAll_empty rfl]
  constructor
  · rw [mem_firstWins, List.map_cons, List.find?_cons_of_pos (by simp)]
  · intro r hr
    rw [mem_firstWins, List.map_cons, List.find?_cons] at hr
    split at hr
    · exact Or.inl (Option.some.inj hr).symm
    · rw [mem_firstWins]
      exact Or.inr hr

theorem funderSettled_of_ownership (h : OwnershipHolds c transfers) : FunderSettled c (transfers.map .of) := by
  intro chain mint e he u hu hsettled hfirst
  by_contra hnot
  obtain ⟨hbefore, hfrom⟩ := not_or.mp hnot
  rw [not_le] at hbefore
  have hlast : ∀ r ∈ ownedBy chain mint (updateAll (runLast (atTime u) transfers) emptyStore).edges,
      u.place c ≤ r.place c := fun r hr => first_of_last (covered_of_ownership h) hu hfirst hr
  -- Where the edges of the mint at this time come last, the settled one names the funder.
  have hfunder : earliestTokenFunder c (updateAll (runLast (atTime u) transfers) emptyStore) chain mint =
      some u.fromAddress := by
    obtain ⟨r, hr, howner, hplace⟩ := row_of_settled (c := c) mem_runLast (mem_ownedBy.mp hu).1 hsettled
    rw [← (place_injective hplace).2.1]
    apply funder_of_first (updateAll_isFunding rfl)
    · rw [updateAll_empty rfl]
      exact owner_mem_ownedBy hr howner (mem_ownedBy.mp hu).2
    · rw [hplace]
      exact hlast
  -- Where the other edge comes first of all, it is before the settled one.
  obtain ⟨hmem, hof⟩ := mem_ownedBy.mp he
  obtain ⟨t, ht, rfl⟩ := List.mem_map.mp hmem
  obtain ⟨hrow, hrows⟩ := updateAll_cons t (runLast (atTime u) transfers)
  have hfunder' : earliestTokenFunder c (updateAll (t :: runLast (atTime u) transfers) emptyStore) chain mint =
      some (FundingEdge.of t).fromAddress := by
    apply funder_of_first (updateAll_isFunding rfl) (mem_ownedBy.mpr ⟨hrow, hof⟩)
    intro r hr
    obtain ⟨hr, hrof⟩ := mem_ownedBy.mp hr
    obtain rfl | hr := hrows r hr
    · exact le_rfl
    · exact hbefore.le.trans (hlast r (mem_ownedBy.mpr ⟨hr, hrof⟩))
  have hrun : ∀ t', t' ∈ t :: runLast (atTime u) transfers ↔ t' ∈ transfers := by
    intro t'
    rw [List.mem_cons, mem_runLast, or_iff_right_iff_imp]
    rintro rfl
    exact ht
  obtain ⟨-, -, hsame⟩ := h _ hrun emptyStore rfl
  have heq := hsame (runLast (atTime u) transfers) mem_runLast chain mint
  rw [hfunder, hfunder'] at heq
  exact hfrom (Option.some.inj heq).symm

/-- The edges of every mint, and its earliest funder, are the same in every order exactly
where each edge has an owner in common with a settled one, and no edge that can be lost
comes before the first settled edge of its mint. -/
theorem edge_ownership_iff (c : Collation κ) (transfers : List NormalizedTransfer) :
    OwnershipHolds c transfers ↔ Covered (transfers.map .of) ∧ FunderSettled c (transfers.map .of) :=
  ⟨fun h => ⟨covered_of_ownership h, funderSettled_of_ownership h⟩, fun h => ownership_of_settled h.1 h.2⟩

end

/-! ## Two mints in one transaction -/

/-- A transfer of a token between two wallets. -/
def tokenPayment (mint : String) (eventIndex : Int) : NormalizedTransfer where
  chain := .solana
  signature := "tx"
  eventIndex := eventIndex
  fromAddress := "funder"
  toAddress := "wallet"
  assetKind := .splToken
  mint := mint
  rawAmount := "1"
  amount := Decimal.one
  slot := none
  blockTime := some 0
  observedAt := 0
  source := "helius"
  commitment := .confirmed

def twoMints : List NormalizedTransfer := [tokenPayment "first" 1000000, tokenPayment "second" 1000001]

/-- The edge of the second mint is dropped, and the mint has no funder. -/
theorem second_mint_lost : (∀ t ∈ twoMints, t.assetKind = .splToken ∧ t.blockTime.isSome) ∧
    earliestTokenFunder (⟨id, Function.injective_id⟩ : Collation String) (updateAll twoMints emptyStore) .solana
      "second" = none ∧
    ¬ OwnershipHolds (⟨id, Function.injective_id⟩ : Collation String) twoMints := by
  refine ⟨by decide, by decide +kernel, fun h => ?_⟩
  obtain ⟨hrows, -⟩ := h twoMints (fun _ => Iff.rfl) emptyStore rfl
  have hlost : ¬ ∃ e ∈ (updateAll twoMints emptyStore).edges,
    e.owner = (FundingEdge.of (tokenPayment "second" 1000001)).owner := by
    decide +kernel
  exact hlost (hrows _ (by decide))

end WhaleIntelligence.Helius
