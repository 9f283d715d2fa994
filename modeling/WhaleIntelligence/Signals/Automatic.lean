import WhaleIntelligence.Signals.Dispositions

/- Dispositions that are set automatically: `apply_automatic_disposition`.

   A manual label decides for the writer as it does for every reader. Without one, a
   classification that skips adds a label that no automatic one is more restrictive than,
   and any other classification is reported as `score` although it adds nothing: so it is
   what a reader finds only where the labels that are there say it (`automatic_effective_iff`). -/
namespace WhaleIntelligence.Signals
open WhaleIntelligence Fallible

/-! ## Classification -/

inductive F64
  | nan
  | infinite (negative : Bool)
  | finite (value : Rat)
  deriving DecidableEq, Repr

/-- `x >= q`. -/
def F64.ge (x : F64) (q : Rat) : Bool :=
  match x with
  | .nan => false
  | .infinite negative => !negative
  | .finite value => q ≤ value

structure BotClassification where
  kind : Option WalletLabelKind
  likelihood : F64
  swapCount : UInt32
  autoSkip : Bool
  annotations : List WalletLabelKind
  deriving DecidableEq, Repr

def autoLabelMinSwaps : UInt32 := 100

/-- `0.90`, in 53 binary digits. -/
def autoSkipLikelihood : Rat := 8106479329266893 / 2 ^ 53

def WalletLabelKind.isAnnotation : WalletLabelKind → Bool
  | .sniper | .bundler | .ratTrader | .arbitrage | .copyTrader | .marketMaker => true
  | _ => false

def classifyBot (labels : List WalletLabelKind) (likelihood : F64) (swapCount : UInt32) : BotClassification :=
  let kind : Option WalletLabelKind :=
    if labels.contains .mevBot then some .mevBot
    else if labels.contains .dexBot then some .dexBot
    else none
  { kind, likelihood, swapCount
    autoSkip := kind.isSome && likelihood.ge autoSkipLikelihood && autoLabelMinSwaps ≤ swapCount
    annotations := labels.filter WalletLabelKind.isAnnotation }

/-! ## The store -/

/-- A row of `wallet_labels`, with what no policy reads. -/
structure WalletLabel extends LabelRow where
  kind : String
  source : String
  deriving DecidableEq, Repr

structure LabelStore where
  workspaces : List Int
  wallets : List (String × String)
  labels : List WalletLabel
  deriving DecidableEq, Repr

def LabelStore.rows (s : LabelStore) : List LabelRow := s.labels.map WalletLabel.toLabelRow

def foreignKeyViolation : String := "insert or update on table \"wallet_labels\" violates foreign key constraint"

def addWalletLabel (s : LabelStore) (label : WalletLabel) : Except String LabelStore :=
  if s.workspaces.contains label.workspaceId && s.wallets.contains (label.chain, label.address) then
    .ok { s with labels := s.labels ++ [label] }
  else .error foreignKeyViolation

/-- The label that an automatic skip adds. -/
def autoLabel (workspaceId : Int) (chain : ChainKind) (address : String) (kind : WalletLabelKind) : WalletLabel where
  workspaceId
  chain := chain.asStr
  address
  disposition := "skip"
  manual := false
  expiresAt := none
  revokedAt := none
  kind := kind.asStr
  source := "auto"

def applyAutomaticDisposition (dbNow : DateTime) (s : LabelStore) (workspaceId : Int) (chain : ChainKind)
    (address : String) (classification : BotClassification) : Except String (Disposition × LabelStore) := do
  let manual ← manualDisposition dbNow s.rows workspaceId chain address
  match manual.bind Disposition.parse with
  | some disposition => return (disposition, s)
  | none =>
    if !classification.autoSkip then return (.score, s)
    match classification.kind with
    | none => throw "auto_skip implies kind"
    | some kind =>
      let s ← addWalletLabel s (autoLabel workspaceId chain address kind)
      return (.skip, s)

/-! ## What the writer reports -/

section
variable {dbNow : DateTime} {s s' : LabelStore} {ws : Int} {chain : ChainKind} {address : String} {rows : List LabelRow}
  {c : BotClassification} {d : Disposition} {kind : WalletLabelKind}

theorem classifyBot_kind {labels : List WalletLabelKind} {likelihood : F64} {swapCount : UInt32}
    (h : (classifyBot labels likelihood swapCount).autoSkip = true) :
    ∃ kind, (classifyBot labels likelihood swapCount).kind = some kind := by
  simp only [classifyBot, Bool.and_eq_true] at h
  exact Option.isSome_iff_exists.mp h.1.1

/-- A manual label is reported as every reader finds it. -/
theorem automatic_manual (hknown : ∀ row ∈ activeLabels dbNow s.rows ws chain address, row.disposition ∈ vocabulary)
    (hm : ∃ row ∈ activeLabels dbNow s.rows ws chain address, row.manual = true) :
    ∃ d, applyAutomaticDisposition dbNow s ws chain address c = .ok (d, s) ∧
      effectiveDisposition dbNow s.rows ws chain address = .ok d := by
  have hd := mostRestrictive_argmin (activeLabels dbNow s.rows ws chain address)
  obtain ⟨k, hk, hvalue⟩ := effectiveDisposition_of_ok (activeDisposition_perm hknown hd (List.Perm.refl _))
    (hd.known hknown)
  have hmanual := manualDisposition_perm hknown hd (List.Perm.refl _) hm
  refine ⟨k, ?_, hk⟩
  rw [applyAutomaticDisposition, hmanual, ok_bind]
  cases hbest : ((activeLabels dbNow s.rows ws chain address).map LabelRow.candidate).argmin priority with
  | none =>
    obtain ⟨row, hrow, -⟩ := hm
    rw [List.argmin_eq_none, List.map_eq_nil_iff] at hbest
    rw [hbest] at hrow
    exact absurd hrow List.not_mem_nil
  | some b =>
    rw [hbest] at hvalue
    have hparse : Disposition.parse b.2.2 = some k := by
      rw [← show k.asStr = b.2.2 from hvalue]
      exact Disposition.parse_asStr k
    simp only [Option.map_some, Option.bind_some, hparse]
    rfl

theorem manualDisposition_none (hm : ∀ row ∈ activeLabels dbNow rows ws chain address, row.manual = false) :
    manualDisposition dbNow rows ws chain address = .ok none := by
  have hnone : (activeLabels dbNow rows ws chain address).filter (·.manual) = [] := by
    apply List.filter_eq_nil_iff.mpr
    intro row hrow
    simp [hm row hrow]
  rw [manualDisposition_eq, hnone]
  rfl

theorem automatic_score (hm : ∀ row ∈ activeLabels dbNow s.rows ws chain address, row.manual = false)
    (hc : c.autoSkip = false) : applyAutomaticDisposition dbNow s ws chain address c = .ok (.score, s) := by
  rw [applyAutomaticDisposition, manualDisposition_none hm, ok_bind]
  simp only [Option.bind_none, hc]
  rfl

/-- A skip that is reported has been added. -/
theorem automatic_skip (hm : ∀ row ∈ activeLabels dbNow s.rows ws chain address, row.manual = false)
    (hc : c.autoSkip = true) (hkind : c.kind = some kind)
    (h : applyAutomaticDisposition dbNow s ws chain address c = .ok (d, s')) :
    d = .skip ∧ s'.rows = s.rows ++ [(autoLabel ws chain address kind).toLabelRow] := by
  rw [applyAutomaticDisposition, manualDisposition_none hm, ok_bind] at h
  simp only [Option.bind_none, hc, hkind] at h
  obtain ⟨added, hadded, hreturn⟩ := bind_eq_ok.mp h
  obtain ⟨rfl, rfl⟩ := Prod.mk.inj (Except.ok.inj hreturn)
  unfold addWalletLabel at hadded
  split at hadded
  · obtain rfl := Except.ok.inj hadded
    exact ⟨rfl, List.map_append ..⟩
  · cases hadded

/-! ## What a reader finds afterwards -/

theorem deciding_automatic (hm : ∀ row ∈ rows, row.manual = false) : deciding rows = rows := by
  apply if_neg
  rw [List.any_eq_true]
  rintro ⟨row, hrow, hmanual⟩
  simp [hm row hrow] at hmanual

theorem activeLabels_auto :
    activeLabels dbNow (rows ++ [(autoLabel ws chain address kind).toLabelRow]) ws chain address =
    activeLabels dbNow rows ws chain address ++ [(autoLabel ws chain address kind).toLabelRow] := by
  rw [activeLabels, List.filter_append]
  congr 1
  simp [autoLabel, LabelRow.isOf, LabelRow.active]

/-- An automatic skip decides where no label is manual. -/
theorem effective_auto (hknown : ∀ row ∈ activeLabels dbNow rows ws chain address, row.disposition ∈ vocabulary)
    (hm : ∀ row ∈ activeLabels dbNow rows ws chain address, row.manual = false) :
    effectiveDisposition dbNow (rows ++ [(autoLabel ws chain address kind).toLabelRow]) ws chain address =
      .ok .skip := by
  have hknown' : ∀ row ∈ activeLabels dbNow (rows ++ [(autoLabel ws chain address kind).toLabelRow]) ws chain address,
      row.disposition ∈ vocabulary := by
    intro row hrow
    rw [activeLabels_auto, List.mem_append, List.mem_singleton] at hrow
    obtain hrow | rfl := hrow
    · exact hknown row hrow
    · show "skip" ∈ vocabulary
      decide
  have hskip : MostRestrictive (deciding
      (activeLabels dbNow (rows ++ [(autoLabel ws chain address kind).toLabelRow]) ws chain address))
      (some "skip") := by
    have hm' : ∀ row ∈ activeLabels dbNow rows ws chain address ++ [(autoLabel ws chain address kind).toLabelRow],
        row.manual = false := by
      intro row hrow
      rw [List.mem_append, List.mem_singleton] at hrow
      obtain hrow | rfl := hrow
      · exact hm row hrow
      · rfl
    rw [activeLabels_auto, deciding_automatic hm']
    refine ⟨⟨_, List.mem_append_right _ (List.mem_singleton_self _), rfl⟩, fun row _ => ?_⟩
    exact Nat.zero_le _
  obtain ⟨k, hk, hvalue⟩ := effectiveDisposition_of_ok (activeDisposition_perm hknown' hskip (List.Perm.refl _))
    (hskip.known hknown')
  have hparse := Disposition.parse_asStr k
  rw [hvalue] at hparse
  rw [hk, ← Option.some.inj hparse]

/-- A reader finds `score` where every label says it, and there is one. -/
theorem effective_score_iff (hknown : ∀ row ∈ activeLabels dbNow rows ws chain address, row.disposition ∈ vocabulary)
    (hm : ∀ row ∈ activeLabels dbNow rows ws chain address, row.manual = false) :
    effectiveDisposition dbNow rows ws chain address = .ok .score ↔
      activeLabels dbNow rows ws chain address ≠ [] ∧
        ∀ row ∈ activeLabels dbNow rows ws chain address, row.disposition = "score" := by
  have hd := mostRestrictive_argmin (activeLabels dbNow rows ws chain address)
  obtain ⟨k, hk, hvalue⟩ := effectiveDisposition_of_ok (activeDisposition_perm hknown hd (List.Perm.refl _))
    (hd.known hknown)
  rw [deciding_automatic hm] at hd
  have hscore : effectiveDisposition dbNow rows ws chain address = .ok .score ↔ k.asStr = "score" := by
    rw [hk]
    cases k <;> simp [Disposition.asStr]
  rw [hscore, hvalue]
  cases hbest : (((activeLabels dbNow rows ws chain address).map LabelRow.candidate).argmin priority).map
      fun b => b.2.2 with
  | none =>
    rw [hbest] at hd
    have hempty : activeLabels dbNow rows ws chain address = [] := hd
    simp [hempty]
  | some v =>
    rw [hbest] at hd
    obtain ⟨⟨row, hrow, hv⟩, hleast⟩ := hd
    constructor
    · rintro rfl
      refine ⟨List.ne_nil_of_mem hrow, fun other hother => ?_⟩
      -- `score` is the last of the vocabulary
      have hle := hleast other hother
      have hin := hknown other hother
      simp only [vocabulary, List.mem_cons, List.not_mem_nil, or_false] at hin
      rcases hin with h | h | h | h
      · rw [h] at hle
        exact absurd hle (by decide)
      · rw [h] at hle
        exact absurd hle (by decide)
      · rw [h] at hle
        exact absurd hle (by decide)
      · exact h
    · rintro ⟨-, hall⟩
      exact hv.symm.trans (hall row hrow)

end

theorem automatic_effective_iff (dbNow : DateTime) (s : LabelStore) (workspaceId : Int) (chain : ChainKind)
    (address : String) (labels : List WalletLabelKind) (likelihood : F64) (swapCount : UInt32)
    (hknown : ∀ row ∈ activeLabels dbNow s.rows workspaceId chain address, row.disposition ∈ vocabulary) :
    (∀ d s', applyAutomaticDisposition dbNow s workspaceId chain address (classifyBot labels likelihood swapCount) =
        .ok (d, s') → effectiveDisposition dbNow s'.rows workspaceId chain address = .ok d) ↔
      (∃ row ∈ activeLabels dbNow s.rows workspaceId chain address, row.manual = true) ∨
      (classifyBot labels likelihood swapCount).autoSkip = true ∨
      activeLabels dbNow s.rows workspaceId chain address ≠ [] ∧
        ∀ row ∈ activeLabels dbNow s.rows workspaceId chain address, row.disposition = "score" := by
  by_cases hmanual : ∃ row ∈ activeLabels dbNow s.rows workspaceId chain address, row.manual = true
  · obtain ⟨d, happly, hread⟩ := automatic_manual (c := classifyBot labels likelihood swapCount) hknown hmanual
    refine iff_of_true (fun d' s' h => ?_) (.inl hmanual)
    rw [happly] at h
    obtain ⟨rfl, rfl⟩ := Prod.mk.inj (Except.ok.inj h)
    exact hread
  · have hm : ∀ row ∈ activeLabels dbNow s.rows workspaceId chain address, row.manual = false := fun row hrow =>
      Bool.eq_false_of_not_eq_true fun h => hmanual ⟨row, hrow, h⟩
    cases hskip : (classifyBot labels likelihood swapCount).autoSkip with
    | true =>
      obtain ⟨kind, hkind⟩ := classifyBot_kind hskip
      refine iff_of_true (fun d s' h => ?_) (.inr (.inl rfl))
      obtain ⟨rfl, hrows⟩ := automatic_skip hm hskip hkind h
      rw [hrows]
      exact effective_auto hknown hm
    | false =>
      have happly := automatic_score hm hskip
      constructor
      · intro h
        exact .inr (.inr ((effective_score_iff hknown hm).mp (h .score s happly)))
      · rintro (h | h | h)
        · exact absurd h hmanual
        · cases h
        · intro d s' hreturn
          rw [happly] at hreturn
          obtain ⟨rfl, rfl⟩ := Prod.mk.inj (Except.ok.inj hreturn)
          exact (effective_score_iff hknown hm).mpr h

/-- A wallet that a skip is added for, under an automatic `watch` that has been revoked. -/
theorem skip_effective :
    let s : LabelStore :=
      ⟨[1], [("solana", "W")], [⟨⟨1, "solana", "W", "watch", false, none, some 3⟩, "dex_bot", "auto"⟩]⟩
    (∀ d s', applyAutomaticDisposition 5 s 1 .solana "W" (classifyBot [.mevBot] (.finite 1) 100) = .ok (d, s') →
        effectiveDisposition 5 s'.rows 1 .solana "W" = .ok d) ↔
      (∃ row ∈ activeLabels 5 s.rows 1 .solana "W", row.manual = true) ∨
      (classifyBot [.mevBot] (.finite 1) 100).autoSkip = true ∨
      activeLabels 5 s.rows 1 .solana "W" ≠ [] ∧
        ∀ row ∈ activeLabels 5 s.rows 1 .solana "W", row.disposition = "score" := by
  intro s
  exact automatic_effective_iff 5 s 1 .solana "W" [.mevBot] (.finite 1) 100 (by decide +kernel)

/-- A wallet without a label is reported as `score`, and read as `watch`. -/
theorem unlabelled_not_effective :
    ¬∀ d s', applyAutomaticDisposition 0 ⟨[1], [("solana", "W")], []⟩ 1 .solana "W" (classifyBot [] (.finite 0) 0) =
      .ok (d, s') → effectiveDisposition 0 s'.rows 1 .solana "W" = .ok d := by
  intro h
  have hread := h .score ⟨[1], [("solana", "W")], []⟩ (by decide +kernel)
  revert hread
  decide +kernel

end WhaleIntelligence.Signals
