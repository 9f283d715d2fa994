import WhaleIntelligence.Telegram.ClaimContexts

/- The mint mentions of a message.

   The parser mentions the address runs of the whole text (`base58Runs`), those inside of
   a URL too: it keeps no URL spans. What is due are the runs outside the URLs, each
   value once. The two are one list exactly where an address that is new in a URL stands
   outside again before any other new address does (`mintMentions_iff`). -/
namespace WhaleIntelligence.Telegram
open WhaleIntelligence FirstWins

/-- The values of the mint mentions, in their order. -/
def mintMentions (parsed : ParsedMessage) : List String :=
  (parsed.mentions.filter fun m => m.kind = .mint).map ParsedMention.extractedValue

/-- The two finds have no character of the text in common. -/
def apart (m u : List Char × List Char) : Bool :=
  m.1.length + m.2.length ≤ u.1.length || u.1.length + u.2.length ≤ m.1.length

/-- The find lies outside every URL that is extracted. -/
def outsideUrls (text : List Char) (m : List Char × List Char) : Bool := (urlPlaces text).all (apart m)

/-- The runs that are addresses, from left to right. -/
def addressRuns (x : TextCrates) (text : List Char) : List (List Char × List Char) :=
  (base58Runs text).filter fun m => isValidSolanaAddress x m.2

/-- The addresses that stand outside the URLs, in order of first occurrence there. -/
def mintsOutside (x : TextCrates) (text : List Char) : List String :=
  (firstWins Prod.snd ((addressRuns x text).filter (outsideUrls text))).map fun m => String.ofList m.2

/-- Each address that is new in a URL stands outside of the URLs behind that, and no other new one does before. -/
def RepeatedOutside (x : TextCrates) (text : List Char) : Prop :=
  ∀ pre m post, addressRuns x text = pre ++ m :: post → outsideUrls text m = false → (∀ d ∈ pre, d.2 ≠ m.2) →
    ∃ mid m' rest, post = mid ++ m' :: rest ∧ outsideUrls text m' = true ∧ m'.2 = m.2 ∧
      ∀ c ∈ mid, outsideUrls text c = true → ∃ d ∈ pre, d.2 = c.2

/-- Where the leftmost occurrence of the keyword in the lower case has so many bytes before it, these many bytes of
    the text end between characters, and the bytes for the keyword after them do too. -/
def Sliceable (u : LowerCase) (kw t : List Char) : Prop :=
  ∀ A B, BoundedAt (u.toLowercase t) kw A B →
    (∀ A' B', BoundedAt (u.toLowercase t) kw A' B' → A.length ≤ A'.length) →
      ∃ a w b, t = a ++ w ++ b ∧ byteLen a = byteLen A ∧ byteLen w = byteLen kw

/-- The part is a maximal run of base58 characters. -/
structure MaximalRun (text a w b : List Char) : Prop where
  split : text = a ++ w ++ b
  nonempty : w ≠ []
  chars : ∀ c ∈ w, isBase58Char c = true
  left : a.getLast?.any isBase58Char = false
  right : b.head?.any isBase58Char = false

section
variable {x : TextCrates} {text before current l a w b : List Char}

/-! ## Runs -/

/-- A maximal run that starts in a run is the whole of it. -/
theorem MaximalRun.eq_of_in (h : MaximalRun text a w b) (hcurrent : ∀ c ∈ current, isBase58Char c = true)
    {x y : List Char}
    (ha : a = before ++ x) (hb : b = y ++ l) (hin : current = x ++ w ++ y) : a = before ∧ w = current ∧ b = l := by
  have hx : x = [] := by
    by_contra hne
    have hleft := h.left
    rw [ha, List.getLast?_append_of_ne_nil _ hne, List.getLast?_eq_some_getLast hne, Option.any_some,
      hcurrent _ (by rw [hin]; simp [List.getLast_mem hne])] at hleft
    cases hleft
  have hy : y = [] := by
    cases y with
    | nil => rfl
    | cons c y =>
      have hright := h.right
      rw [hb, List.cons_append, List.head?_cons, Option.any_some, hcurrent c (by rw [hin]; simp)] at hright
      cases hright
  rw [ha, hb, hin, hx, hy]
  simp

theorem mem_openRun : (a, w) ∈ openRun before current ↔ current ≠ [] ∧ a = before ∧ w = current := by
  rw [openRun]
  by_cases hempty : current = []
  · simp [hempty]
  · simp [hempty]

/-- The current run ends where no base58 character follows. -/
theorem mem_openRun_iff (hbefore : before.getLast?.any isBase58Char = false)
    (hcurrent : ∀ c ∈ current, isBase58Char c = true) (hl : l.head?.any isBase58Char = false) :
    (a, w) ∈ openRun before current ↔ before.length ≤ a.length ∧ a.length ≤ (before ++ current).length ∧
      ∃ b, MaximalRun (before ++ current ++ l) a w b := by
  rw [mem_openRun]
  refine ⟨fun h => ?_, fun h => ?_⟩
  · obtain ⟨hne, rfl, rfl⟩ := h
    refine ⟨le_refl _, ?_, l, rfl, hne, hcurrent, hbefore, hl⟩
    rw [List.length_append]
    omega
  · obtain ⟨hlow, hhigh, b, hrun⟩ := h
    have hsplit := hrun.split
    rw [List.append_assoc, List.append_assoc] at hsplit
    obtain ⟨x, hx, hin⟩ := behind_of_length_le hsplit hlow
    rw [hx] at hhigh
    simp only [List.length_append] at hhigh
    rw [← List.append_assoc] at hin
    have hwhole : ∃ y, b = y ++ l ∧ current = x ++ w ++ y := by
      obtain ⟨z, hz, hl'⟩ | ⟨y, hy, hb⟩ := List.append_eq_append_iff.mp hin
      · cases z with
        | nil => exact ⟨[], by rw [hl']; rfl, by rw [hz]; simp⟩
        | cons c z =>
          -- what follows the current run would be in the other one
          exfalso
          obtain ⟨w', hw', -⟩ := behind_of_length_le (P := x) (R := w) (A := current) (S := c :: z) hz (by omega)
          rw [hw', List.append_assoc, List.append_cancel_left_eq] at hz
          have hc := hrun.chars c (by rw [hz]; simp)
          rw [hl', List.cons_append, List.head?_cons, Option.any_some, hc] at hl
          cases hl
      · exact ⟨y, hb, hy⟩
    obtain ⟨y, hb, hcur⟩ := hwhole
    obtain ⟨ha, hw, -⟩ := hrun.eq_of_in hcurrent hx hb hcur
    refine ⟨?_, ha, hw⟩
    rw [← hw]
    exact hrun.nonempty

/-- The runs still to come are the maximal ones that start with the current run or behind it. -/
theorem mem_base58RunsFrom (hbefore : before.getLast?.any isBase58Char = false)
    (hcurrent : ∀ c ∈ current, isBase58Char c = true) : (a, w) ∈ base58RunsFrom before current l ↔
      before.length ≤ a.length ∧ ∃ b, MaximalRun (before ++ current ++ l) a w b := by
  induction l generalizing before current with
  | nil =>
    rw [base58RunsFrom, mem_openRun_iff hbefore hcurrent (l := []) rfl]
    refine and_congr_right fun _ => ⟨fun h => h.2, fun h => ⟨?_, h⟩⟩
    obtain ⟨b, hrun⟩ := h
    have hlen := congrArg List.length hrun.split
    simp only [List.length_append, List.length_nil] at hlen ⊢
    omega
  | cons c l ih =>
    rw [base58RunsFrom]
    split
    · rename_i hc
      have hcurrent' : ∀ d ∈ current ++ [c], isBase58Char d = true := by
        intro d hd
        obtain hd | hd := List.mem_append.mp hd
        · exact hcurrent d hd
        · rw [List.mem_singleton.mp hd]
          exact hc
      rw [ih hbefore hcurrent']
      simp only [List.append_assoc, List.singleton_append]
    · rename_i hc
      have hno : isBase58Char c = false := Bool.eq_false_iff.mpr hc
      have hbefore' : (before ++ current ++ [c]).getLast?.any isBase58Char = false := by
        rw [List.getLast?_concat, Option.any_some, hno]
      have hnil : ∀ d ∈ ([] : List Char), isBase58Char d = true := fun d hd => absurd hd List.not_mem_nil
      rw [List.mem_append, mem_openRun_iff hbefore hcurrent (l := c :: l) hno, ih hbefore' hnil]
      simp only [List.append_nil, List.append_assoc, List.singleton_append, List.length_append, List.length_singleton]
      constructor
      · rintro (⟨hlow, -, hrun⟩ | ⟨hlow, hrun⟩)
        · exact ⟨hlow, hrun⟩
        · exact ⟨by omega, hrun⟩
      · rintro ⟨hlow, hrun⟩
        by_cases hhigh : a.length ≤ before.length + current.length
        · exact Or.inl ⟨hlow, hhigh, hrun⟩
        · exact Or.inr ⟨by omega, hrun⟩

/-- The runs of the loop are the maximal ones of the text. -/
theorem mem_base58Runs : (a, w) ∈ base58Runs text ↔ ∃ b, MaximalRun text a w b := by
  rw [base58Runs, mem_base58RunsFrom rfl fun d hd => absurd hd List.not_mem_nil]
  simp

/-! ## Mentions -/

/-- The mention of a find. -/
def mentionOf (kind : MentionKind) (text : List Char) (m : List Char × List Char) : ParsedMention :=
  ⟨kind, (placed text m).1, (placed text m).2⟩

/-- The mint mentions among the mentions of a text are its address runs, each once. -/
theorem mintMentions_eq (urls runs : List (List Char × List Char)) (claims : List ParsedClaim) :
    mintMentions ⟨firstWins ParsedMention.seenKey (urls.map (mentionOf .url text) ++ runs.map (mentionOf .mint text)),
      claims, false⟩ = (firstWins Prod.snd runs).map fun m => String.ofList m.2 := by
  have hinj : Function.Injective fun v : List Char => (MentionKind.mint, String.ofList v) := by
    intro v v' h
    exact String.ofList_injective (Prod.mk.inj h).2
  have hmints : (urls.map (mentionOf .url text) ++ runs.map (mentionOf .mint text)).filter
      (fun m => decide (m.seenKey.1 = .mint)) = runs.map (mentionOf .mint text) := by
    rw [List.filter_append, List.filter_eq_nil_iff.mpr, List.nil_append, List.filter_eq_self.mpr]
    · intro m hm
      obtain ⟨r, -, rfl⟩ := List.mem_map.mp hm
      rfl
    · intro m hm
      obtain ⟨r, -, rfl⟩ := List.mem_map.mp hm
      simp [ParsedMention.seenKey, mentionOf]
  have hkept := filter_firstWins_keys ParsedMention.seenKey (fun k => decide (k.1 = .mint))
    (urls.map (mentionOf .url text) ++ runs.map (mentionOf .mint text))
  rw [hmints, firstWins_map] at hkept
  have hkeys := firstWins_comp Prod.snd hinj runs
  calc _ = ((firstWins (fun m => (mentionOf .mint text m).seenKey) runs).map (mentionOf .mint text)).map
        ParsedMention.extractedValue := congrArg (List.map ParsedMention.extractedValue) hkept
    _ = ((firstWins Prod.snd runs).map (mentionOf .mint text)).map ParsedMention.extractedValue := by rw [← hkeys]; rfl
    _ = _ := List.map_map ..

/-- These are the ones outside the URLs exactly where the addresses in URLs are repeated. -/
theorem mintsOutside_eq_iff : (firstWins Prod.snd (addressRuns x text)).map (fun m => String.ofList m.2) =
    mintsOutside x text ↔ RepeatedOutside x text := by
  have hinj : Function.Injective (List.map String.ofList) :=
    List.map_injective_iff.mpr fun _ _ => String.ofList_injective
  have hfilter := keys_fresh_filter_iff Prod.snd (outsideUrls text) (addressRuns x text) []
  rw [← firstWins_eq_fresh, ← firstWins_eq_fresh, RepeatsFirst] at hfilter
  simp only [List.not_mem_nil, not_false_eq_true, true_imp_iff, false_or] at hfilter
  rw [RepeatedOutside, ← hfilter, eq_comm, mintsOutside, ← hinj.eq_iff, List.map_map, List.map_map]
  rfl

/-! ## Messages -/

theorem sliceable_nil (u : LowerCase) {kw : List Char} (hkw : kw ≠ []) : Sliceable u kw [] := by
  intro A B h
  obtain ⟨rfl, rfl⟩ := List.append_eq_nil_iff.mp (List.append_eq_nil_iff.mp h.1.symm).1
  exact absurd rfl hkw

/-- The search for a keyword returns exactly where its offset can be cut in the text. -/
theorem findClaim_returns_iff {u : LowerCase} {keyword claimType : String} (hkw : Keyword keyword.toList) :
    (∃ r, findClaim text (u.toLowercase text) keyword claimType ((u.toLowercase text).length + 1) 0 = some r) ↔
      Sliceable u keyword.toList text := by
  have hspec := @findClaim_spec text (u.toLowercase text) keyword claimType _ hkw.nonempty hkw.word []
    (u.toLowercase text) rfl (Nat.lt_succ_self _) fun _ _ _ => Nat.zero_le _
  rw [byteLen_nil, Nat.succ_eq_add_one] at hspec
  obtain ⟨hnone, hresult⟩ | ⟨A, B, hbounded, hmin, hresult⟩ := hspec
  · exact iff_of_true ⟨none, hresult⟩ fun A B h => absurd h (hnone A B)
  · rw [hresult]
    refine ⟨fun h A' B' hbounded' hmin' => ?_, fun h => ?_⟩
    · obtain ⟨r, hr⟩ := h
      obtain ⟨context, hcontext, -⟩ := Option.map_eq_some_iff.mp hr
      obtain ⟨a, w, b, ht, ha, hw, -⟩ := contextAround_iff.mp hcontext
      -- both are the leftmost one
      have hlen : A.length = A'.length := le_antisymm (hmin A' B' hbounded') (hmin' A B hbounded)
      have hsame := hbounded.1.symm.trans hbounded'.1
      rw [List.append_assoc, List.append_assoc] at hsame
      rw [← (List.append_inj hsame hlen).1]
      exact ⟨a, w, b, ht, ha, hw⟩
    · obtain ⟨a, w, b, ht, ha, hw⟩ := h A B hbounded hmin
      rw [contextAround_iff.mpr ⟨a, w, b, ht, ha, hw, rfl⟩]
      exact ⟨_, rfl⟩

end

/-- The parser returns, and its mint mentions are the addresses outside the URLs, exactly where the keywords' offsets
    can be cut in the text and the addresses in URLs are repeated outside. -/
theorem mintMentions_iff (x : TextCrates) (text : String) :
    (∃ parsed, parseMessageText x (some text) = some parsed ∧
        mintMentions parsed = mintsOutside x (trim text).toList) ↔
      (∀ k ∈ CLAIM_KEYWORDS, Sliceable x.toLowerCase k.1.toList (trim text).toList) ∧
        RepeatedOutside x (trim text).toList := by
  rw [parseMessageText]
  by_cases hempty : (trim text).toList.isEmpty = true
  · have hnil := List.isEmpty_iff.mp hempty
    rw [if_pos hempty, hnil]
    refine iff_of_true ⟨_, rfl, rfl⟩ ⟨fun k hk => sliceable_nil _ (keyword_of_mem hk).nonempty, fun pre m post h => ?_⟩
    cases pre <;> cases h
  · have hrounds : ∀ k ∈ CLAIM_KEYWORDS, _ := fun k hk =>
      @findClaim_returns_iff (trim text).toList x.toLowerCase k.1 k.2 (keyword_of_mem hk)
    have hloop := mapM_reduceOption_iff (P := fun _ => True)
      (f := fun k => findClaim (trim text).toList (x.toLowercase (trim text).toList) k.1 k.2
        ((x.toLowercase (trim text).toList).length + 1) 0) CLAIM_KEYWORDS
    simp only [implies_true, and_true] at hloop
    rw [if_neg hempty, extractUrls_eq, extractBase58Candidates_eq, ← forall₂_congr hrounds, ← hloop,
      ← mintsOutside_eq_iff]
    simp only [Option.bind_eq_bind, Option.bind_some, Option.bind_eq_some_iff, Option.pure_def, Option.some.injEq,
      List.map_map]
    have hmints := @mintMentions_eq (trim text).toList (urlPlaces (trim text).toList)
      (addressRuns x (trim text).toList)
    refine ⟨fun h => ?_, fun h => ?_⟩
    · obtain ⟨parsed, ⟨claims, hclaims, rfl⟩, hparsed⟩ := h
      exact ⟨⟨claims, hclaims⟩, (hmints claims.reduceOption).symm.trans hparsed⟩
    · obtain ⟨⟨claims, hclaims⟩, houtside⟩ := h
      exact ⟨_, ⟨claims, hclaims, rfl⟩, (hmints claims.reduceOption).trans houtside⟩

/-- The zero address is the only base58 text that decodes. -/
def zeroAddress : List Char := List.replicate 32 '1'

def zeroCrates : TextCrates :=
  { latin with decodeBase58 := fun v => if v = zeroAddress then some (List.replicate 32 0) else none }

/-- An address in a link is a mint mention. -/
theorem link_body_mentioned :
    (parseMessageText zeroCrates (some ("https://a.b/" ++ String.ofList zeroAddress))).map mintMentions =
        some [String.ofList zeroAddress] ∧
      mintsOutside zeroCrates (trim ("https://a.b/" ++ String.ofList zeroAddress)).toList = [] := by
  decide +kernel

end WhaleIntelligence.Telegram
