import WhaleIntelligence.Migrations.CaseMerge

/- The keys of funding alerts, taken apart and put together again.

   A key that `alert_dedup_key` made has its workspace and its subject in the second
   and third segment, whatever colons its destination has. Its subject reads back as
   the case it was made for, provided the id is positive (`keySubject_fundingKey`),
   and rewriting the subject gives the key of the other case (`rewriteSubject_fundingKey`). -/
namespace WhaleIntelligence.Migrations
open WhaleIntelligence Signals

section
variable {w n w' n' keep : Int} {d d' : String}

theorem toList_fundingKey (w n : Int) (d : String) : (alertDedupKey "funding" w n d).toList =
    "funding".toList ++ ':' :: ((toString w).toList ++ ':' :: ((toString n).toList ++ ':' :: d.toList)) := by
  simp [alertDedupKey]

theorem fundingKey_inj (h : alertDedupKey "funding" w n d = alertDedupKey "funding" w' n' d') :
    w = w' ∧ n = n' ∧ d = d' := by
  have hall := congrArg String.toList h
  rw [toList_fundingKey, toList_fundingKey] at hall
  obtain ⟨-, hall⟩ := append_cons_inj (by decide) (by decide) hall
  obtain ⟨hw, hall⟩ := append_cons_inj (colon_not_mem_intText _) (colon_not_mem_intText _) hall
  obtain ⟨hn, hd⟩ := append_cons_inj (colon_not_mem_intText _) (colon_not_mem_intText _) hall
  exact ⟨intText_injective (String.toList_injective hw), intText_injective (String.toList_injective hn),
    String.toList_injective hd⟩

theorem splitWhere_fundingKey (w n : Int) (d : String) : splitWhere (· = ':') (alertDedupKey "funding" w n d).toList =
    "funding".toList :: (toString w).toList :: (toString n).toList :: splitWhere (· = ':') d.toList := by
  have hno : ∀ m : Int, ∀ b ∈ (toString m).toList, decide (b = ':') = false := by
    intro m b hb
    rw [decide_eq_false_iff_not]
    intro heq
    exact colon_not_mem_intText m (heq ▸ hb)
  have hword : ∀ b ∈ "funding".toList, decide (b = ':') = false := by
    have hany : ("funding".toList.any fun b => b = ':') = false := by decide
    intro b hb
    exact Bool.eq_false_iff.mpr (List.any_eq_false.mp hany b hb)
  rw [toList_fundingKey, splitWhere_append hword (by decide), splitWhere_append (hno w) (by decide),
    splitWhere_append (hno n) (by decide)]

theorem splitPart_fundingKey (w n : Int) (d : String) :
    splitPart (alertDedupKey "funding" w n d) 1 = "funding".toList ∧
      splitPart (alertDedupKey "funding" w n d) 2 = (toString w).toList ∧
      splitPart (alertDedupKey "funding" w n d) 3 = (toString n).toList := by
  simp only [splitPart, splitWhere_fundingKey]
  exact ⟨rfl, rfl, rfl⟩

/-- The text of an integer has no spaces to trim. -/
theorem trim_intText (n : Int) :
    (((toString n).toList.dropWhile isSpace).reverse.dropWhile isSpace).reverse = (toString n).toList := by
  have hdrop : ∀ l : List Char, (∀ c ∈ l, isSpace c = false) → l.dropWhile isSpace = l := by
    intro l hl
    cases l with
    | nil => rfl
    | cons c l => rw [List.dropWhile_cons_of_neg]; rw [hl c List.mem_cons_self]; exact Bool.false_ne_true
  have hspace : ∀ c ∈ (toString n).toList, isSpace c = false := by
    intro c hc
    rw [toList_intText, List.mem_append] at hc
    obtain hminus | hdigit := hc
    · split at hminus
      · rw [List.mem_singleton.mp hminus]
        decide
      · exact absurd hminus List.not_mem_nil
    · have hd := isDigit_of_mem_repr hdigit
      simp only [Char.isDigit, Bool.and_eq_true, decide_eq_true_eq, UInt32.le_iff_toNat_le] at hd
      simp only [isSpace, Bool.or_eq_false_iff, decide_eq_false_iff_not, Bool.and_eq_false_iff, Char.le_def,
        UInt32.le_iff_toNat_le, not_le]
      have hlow : (48 : Nat) ≤ c.val.toNat := hd.1
      refine ⟨fun heq => ?_, Or.inr ?_⟩
      · rw [heq] at hlow
        exact absurd hlow (by decide)
      · show (13 : Nat) < c.val.toNat
        omega
  rw [hdrop _ hspace, hdrop _ fun c hc => hspace c (List.mem_reverse.mp hc), List.reverse_reverse]

theorem underscored_digits {l : List Char} (h : ∀ c ∈ l, c.isDigit = true) :
    underscored Char.isDigit l = some l := by
  induction l with
  | nil => rfl
  | cons c l ih =>
    obtain ⟨hc, hl⟩ := List.forall_mem_cons.mp h
    rw [underscored]
    · rw [if_pos hc, ih hl, Option.map_some]
    · rintro d l' rfl -
      exact absurd hc (by decide)

/-- The decimal digits of a number are read as it, whatever it begins with. -/
theorem unsignedInput_repr (m : Nat) : unsignedInput m.repr.toList = some m := by
  have hdigits : ∀ c ∈ m.repr.toList, c.isDigit = true := fun c hc => isDigit_of_mem_repr hc
  have hvalue : m.repr.toList.foldl (fun n c => 10 * n + digitValue c) 0 = m := by
    have hsame : m.repr.toList.foldl (fun n c => 10 * n + digitValue c) 0 = Nat.ofDigitChars 10 m.repr.toList 0 := by
      rw [Nat.ofDigitChars_eq_foldl]
      refine List.foldl_ext _ _ 0 fun n c hc => ?_
      rw [digitValue, if_pos (hdigits c hc)]
      rfl
    rw [hsame, Nat.toList_repr]
    exact Nat.ofDigitChars_toDigits (by decide) (by decide)
  have hdecimal : digitsInput Char.isDigit 10 m.repr.toList = some m := by
    rw [digitsInput, underscored_digits hdigits]
    cases hl : m.repr.toList with
    | nil => exact absurd (Nat.toList_repr ▸ hl) Nat.toDigits_ne_nil
    | cons c digits =>
      rw [hl] at hvalue
      exact congrArg some hvalue
  -- no digit is one of the letters
  unfold unsignedInput
  split
  · rename_i x l hl
    have hx : x.isDigit = true := hdigits x (hl ▸ List.mem_cons_of_mem _ List.mem_cons_self)
    have hletter : ∀ a b : Char, a.isDigit = false → b.isDigit = false → ¬(x = a ∨ x = b) := by
      rintro a b ha hb (rfl | rfl)
      · exact absurd hx (by rw [ha]; exact Bool.false_ne_true)
      · exact absurd hx (by rw [hb]; exact Bool.false_ne_true)
    rw [if_neg (hletter 'x' 'X' rfl rfl), if_neg (hletter 'o' 'O' rfl rfl), if_neg (hletter 'b' 'B' rfl rfl), ← hl]
    exact hdecimal
  · rename_i l hl
    exact absurd (hdigits '_' (hl ▸ List.mem_cons_self)) (by decide)
  · exact hdecimal

/-- The text of an integer reads back as it, where it is in range. -/
theorem bigintInput_intText (n : Int) : bigintInput (toString n).toList =
    if -9223372036854775808 ≤ n ∧ n ≤ 9223372036854775807 then some n else none := by
  simp only [bigintInput, trim_intText]
  rw [toList_intText]
  by_cases hneg : n < 0
  · simp only [if_pos hneg, List.cons_append, List.nil_append, unsignedInput_repr, Option.map_some]
    have habs : -(n.natAbs : Int) = n := by omega
    rw [habs, Option.filter_some]
    simp only [decide_eq_true_eq]
  · rw [if_neg hneg, List.nil_append]
    -- the first character is a digit, so no sign is stripped
    split
    · rename_i l hl
      exact absurd (isDigit_of_mem_repr (c := '-') (hl ▸ List.mem_cons_self)) (by decide)
    · rename_i l hl
      exact absurd (isDigit_of_mem_repr (c := '+') (hl ▸ List.mem_cons_self)) (by decide)
    · have habs : Int.ofNat n.natAbs = n := Int.natAbs_of_nonneg (Int.not_lt.mp hneg)
      rw [unsignedInput_repr, Option.map_some, habs, Option.filter_some]
      simp only [decide_eq_true_eq]

/-- The subject of a funding key reads back as the case, where the id is positive. -/
theorem keySubject_fundingKey {i : Int} : keySubject (alertDedupKey "funding" w n d) = some i ↔
    i = n ∧ 0 < n ∧ n ≤ 9223372036854775807 := by
  obtain ⟨h1, -, h3⟩ := splitPart_fundingKey w n d
  rw [keySubject, if_pos h1, h3, bigintInput_intText]
  split
  · rename_i hrange
    rw [Option.filter_some]
    simp only [decide_eq_true_eq]
    split
    · rename_i hpos
      rw [Option.some.injEq]
      exact ⟨fun h => ⟨h.symm, hpos, hrange.2⟩, fun h => h.1.symm⟩
    · rename_i hpos
      exact ⟨fun h => (by cases h), fun h => absurd h.2.1 hpos⟩
  · rename_i hrange
    refine ⟨fun h => (by cases h), fun h => absurd ⟨?_, h.2.2⟩ hrange⟩
    omega

theorem rewriteSubject_fundingKey : rewriteSubject (alertDedupKey "funding" w n d) keep =
    alertDedupKey "funding" w keep d := by
  obtain ⟨h1, h2, h3⟩ := splitPart_fundingKey w n d
  have hdrop : (alertDedupKey "funding" w n d).toList.drop ("funding".toList.length + (toString w).toList.length +
      (toString n).toList.length + 3) = d.toList := by
    have hsplit : (alertDedupKey "funding" w n d).toList = ("funding".toList ++ ':' :: ((toString w).toList ++
        ':' :: ((toString n).toList ++ [':']))) ++ d.toList := by
      rw [toList_fundingKey]
      simp
    rw [hsplit]
    apply List.drop_left'
    simp only [List.length_append, List.length_cons, List.length_nil]
    omega
  simp only [rewriteSubject, h1, h2, h3, hdrop, String.ofList_toList]
  rfl

end

end WhaleIntelligence.Migrations
