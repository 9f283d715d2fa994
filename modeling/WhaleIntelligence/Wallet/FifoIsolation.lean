import WhaleIntelligence.Wallet.FifoConservation

/- What `fifo_match` does not depend on: the order of its input, and for each key
   the swaps of all other keys.

   A group is sorted by whole seconds before it is matched. Where no two swaps of
   a key share a second the sorted group is one list (`history_perm_eq`), so the
   input may come in any order. The swaps of a key are matched as they would be
   alone (`fifoMatch_ofKey`), whatever the others are. -/
namespace WhaleIntelligence.Wallet
open WhaleIntelligence FifoLots HashGroup

/-- All timestamps parse, and no two swaps of a key share a second. -/
structure DistinctTimes (x : Crates) (swaps : List ScoredSwap) : Prop where
  known : ∀ s ∈ swaps, (s.swap.timestampSecs x).isSome
  distinct : swaps.Pairwise fun s t => s.key = t.key → s.swap.timestampSecs x ≠ t.swap.timestampSecs x

/-- No two swaps of a key share the second that orders them, an unknown time being the second zero. -/
def DistinctSeconds (x : Crates) (swaps : List ScoredSwap) : Prop :=
  swaps.Pairwise fun s t => s.key = t.key → sortTime x s ≠ sortTime x t

section
variable {x : Crates} {swaps swaps' : List ScoredSwap}

theorem DistinctTimes.seconds (hd : DistinctTimes x swaps) : DistinctSeconds x swaps := by
  apply hd.distinct.imp_of_mem
  intro s t hs ht h hk htime
  apply h hk
  obtain ⟨a, ha⟩ := Option.isSome_iff_exists.mp (hd.known s hs)
  obtain ⟨b, hb⟩ := Option.isSome_iff_exists.mp (hd.known t ht)
  simp only [sortTime, ha, hb, Option.getD_some] at htime ⊢
  rw [htime]

/-- The time that orders a group tells its swaps apart. -/
theorem DistinctSeconds.eq_of_sortTime (hd : DistinctSeconds x swaps) {s t : ScoredSwap} (hs : s ∈ swaps)
    (ht : t ∈ swaps) (hk : s.key = t.key) (htime : sortTime x s = sortTime x t) : s = t := by
  by_contra hne
  have : Std.Symm fun s t : ScoredSwap => s.key = t.key → sortTime x s ≠ sortTime x t :=
    ⟨fun _ _ h hk => (h hk.symm).symm⟩
  exact List.Pairwise.forall hd hs ht hne hk htime

theorem chronological_pairwise (x : Crates) (swaps : List ScoredSwap) :
    (chronological x swaps).Pairwise fun a b => sortTime x a ≤ sortTime x b := by
  have : Std.Total fun a b : ScoredSwap => sortTime x a ≤ sortTime x b := ⟨fun a b => le_total _ _⟩
  have : IsTrans ScoredSwap fun a b => sortTime x a ≤ sortTime x b := ⟨fun _ _ _ => le_trans⟩
  exact List.pairwise_insertionSort _ _

theorem mem_ofKey {k : SwapKey} {s : ScoredSwap} : s ∈ ofKey swaps k ↔ s ∈ swaps ∧ s.key = k := by
  simp [ofKey]

/-- The swaps of a key are matched in one order, however the input was ordered. -/
theorem history_perm_eq (hd : DistinctSeconds x swaps) (h : swaps.Perm swaps') (k : SwapKey) :
    history x swaps k = history x swaps' k := by
  have hperm : (history x swaps k).Perm (history x swaps' k) :=
    ((history_perm x swaps k).trans (h.filter _)).trans (history_perm x swaps' k).symm
  apply List.Perm.eq_of_pairwise _ (chronological_pairwise x _) (chronological_pairwise x _) hperm
  intro a b ha hb hab hba
  obtain ⟨ha, hka⟩ := mem_ofKey.mp ((history_perm x swaps k).mem_iff.mp ha)
  obtain ⟨hb, hkb⟩ := mem_ofKey.mp ((history_perm x swaps' k).mem_iff.mp hb)
  exact hd.eq_of_sortTime ha (h.mem_iff.mpr hb) (hka.trans hkb.symm) (le_antisymm hab hba)

theorem closedOf_congr {k : SwapKey} (h : history x swaps k = history x swaps' k) :
    closedOf x swaps k = closedOf x swaps' k := by
  rw [closedOf, closedOf, h]

/-! ## A key alone -/

@[simp] theorem ofKey_ofKey (swaps : List ScoredSwap) (k : SwapKey) : ofKey (ofKey swaps k) k = ofKey swaps k := by
  simp [ofKey]

/-- The swaps of one key make one group. -/
theorem Grouped.keys_ofKey {order : Order SwapKey (List ScoredSwap)} {keys : List SwapKey} {k : SwapKey}
    (h : Grouped x order (ofKey swaps k) keys) (hk : ∃ s ∈ swaps, s.key = k) : keys = [k] := by
  have hmem : ∀ j, j ∈ keys ↔ j = k := by
    intro j
    rw [h.mem_iff]
    refine ⟨fun hj => ?_, fun hj => ?_⟩
    · obtain ⟨s, hs, hsj⟩ := hj
      exact hsj ▸ (mem_ofKey.mp hs).2
    · obtain ⟨s, hs, hsk⟩ := hk
      exact ⟨s, mem_ofKey.mpr ⟨hs, hsk⟩, hj ▸ hsk⟩
  apply List.perm_singleton.mp
  apply (List.perm_ext_iff_of_nodup h.nodup (List.nodup_singleton k)).mpr
  intro j
  rw [hmem, List.mem_singleton]

/-- What a key closes and keeps open is what its swaps close and keep open when
they are matched alone. -/
theorem fifoMatch_ofKey (x : Crates) (order : Order SwapKey (List ScoredSwap)) {k : SwapKey}
    (hk : ∃ s ∈ swaps, s.key = k) :
    (fifoMatch x order (ofKey swaps k)).1 = closedOf x swaps k ∧
      (fifoMatch x order (ofKey swaps k)).2.perToken.lookup k =
        some (openTotals (matchGroup x k.2.2 (history x swaps k)).1) := by
  have h := grouped x order (ofKey swaps k)
  have hkeys := h.keys_ofKey hk
  have hhistory : history x (ofKey swaps k) k = history x swaps k := by rw [history, ofKey_ofKey, history]
  refine ⟨?_, ?_⟩
  · rw [h.positions, hkeys, List.flatMap_singleton, closedOf_congr hhistory]
  · rw [h.residual, hkeys, if_pos List.mem_cons_self, hhistory]

end

/-! ## Order and isolation -/

/-- Two outputs with the same positions, in any order, and the same residual. -/
def SameOutput (out out' : List MatchedPosition × CostBasisResidual) : Prop :=
  out.1.Perm out'.1 ∧ ∀ k, out.2.perToken.lookup k = out'.2.perToken.lookup k

/-- The output of `fifo_match`, put together from its outputs on the swaps of each key. -/
structure Isolated (x : Crates) (order : Order SwapKey (List ScoredSwap)) (swaps : List ScoredSwap)
    (keys : List SwapKey) : Prop where
  nodup : keys.Nodup
  mem_iff : ∀ k, k ∈ keys ↔ ∃ s ∈ swaps, s.key = k
  positions : ∀ order', (fifoMatch x order swaps).1 =
    keys.flatMap fun k => (fifoMatch x order' (ofKey swaps k)).1
  residual : ∀ order' k, (fifoMatch x order swaps).2.perToken.lookup k =
    (fifoMatch x order' (ofKey swaps k)).2.perToken.lookup k

section
variable {x : Crates} {swaps swaps' : List ScoredSwap}

theorem fifoMatch_perm (hd : DistinctSeconds x swaps) (h : swaps.Perm swaps')
    (order order' : Order SwapKey (List ScoredSwap)) :
    SameOutput (fifoMatch x order swaps) (fifoMatch x order' swaps') := by
  have hg := grouped x order swaps
  have hg' := grouped x order' swaps'
  have hmem : ∀ k, k ∈ (order.iterate (groupBy ScoredSwap.key swaps)).keys ↔
      k ∈ (order'.iterate (groupBy ScoredSwap.key swaps')).keys := by
    intro k
    rw [hg.mem_iff, hg'.mem_iff]
    simp only [h.mem_iff]
  refine ⟨?_, fun k => ?_⟩
  · rw [hg.positions, hg'.positions]
    apply List.Perm.flatMap ((List.perm_ext_iff_of_nodup hg.nodup hg'.nodup).mpr hmem)
    intro k _
    rw [closedOf_congr (history_perm_eq hd h k)]
  · rw [hg.residual, hg'.residual, history_perm_eq hd h k]
    simp only [hmem]

theorem fifoMatch_isolated (x : Crates) (order : Order SwapKey (List ScoredSwap)) (swaps : List ScoredSwap) :
    ∃ keys, Isolated x order swaps keys := by
  have hg := grouped x order swaps
  refine ⟨_, hg.nodup, hg.mem_iff, fun order' => ?_, fun order' k => ?_⟩
  · rw [hg.positions]
    apply List.flatMap_congr
    intro k hk
    rw [(fifoMatch_ofKey x order' ((hg.mem_iff k).mp hk)).1]
  · rw [hg.residual]
    by_cases hk : k ∈ (order.iterate (groupBy ScoredSwap.key swaps)).keys
    · rw [if_pos hk, (fifoMatch_ofKey x order' ((hg.mem_iff k).mp hk)).2]
    · -- neither run has a group for the key
      have hno : ¬ ∃ s ∈ ofKey swaps k, s.key = k := by
        intro h
        obtain ⟨s, hs, hsk⟩ := h
        exact hk ((hg.mem_iff k).mpr ⟨s, (mem_ofKey.mp hs).1, hsk⟩)
      have hg' := grouped x order' (ofKey swaps k)
      rw [if_neg hk, hg'.residual, if_neg (fun h => hno ((hg'.mem_iff k).mp h))]

/-- Where no two swaps of a key share a second, every permutation of the input
gives the same output, and every key is matched as if it were alone. -/
theorem fifoMatch_order_isolation (x : Crates) (swaps : List ScoredSwap) (hd : DistinctTimes x swaps) :
    (∀ swaps' order order', swaps.Perm swaps' →
      SameOutput (fifoMatch x order swaps) (fifoMatch x order' swaps')) ∧
    ∀ order, ∃ keys, Isolated x order swaps keys :=
  ⟨fun _ order order' h => fifoMatch_perm hd.seconds h order order', fun order => fifoMatch_isolated x order swaps⟩

end

/-- The two swaps of one token match to one output in either order. -/
theorem fifoMatch_order_isolation_swapped :
    SameOutput (fifoMatch decimalCrates (Order.stored _ _) (buyThenSell "5"))
        (fifoMatch decimalCrates (Order.stored _ _) (buyThenSell "5").reverse) ∧
      ∃ keys, Isolated decimalCrates (Order.stored _ _) (buyThenSell "5") keys := by
  have h := fifoMatch_order_isolation decimalCrates (buyThenSell "5")
    ⟨by decide +kernel, by unfold buyThenSell; decide +kernel⟩
  exact ⟨h.1 _ _ _ (List.reverse_perm _).symm, h.2 _⟩

end WhaleIntelligence.Wallet
