import Mathlib.Data.List.TakeWhile
import WhaleIntelligence.Chains.Normalize

/- The amounts of transfers and trades.

   A power of ten fits a decimal up to the exponent 28 and overflows from 29 on
   (`tenPow_eq_none_iff`), and a decimal divided by one that fits is a decimal. So an
   amount overflows only through its decimals, which for the amounts of a block are
   always eighteen (`rawToDecimal_toString`). -/
namespace WhaleIntelligence.Chains
open WhaleIntelligence FixedPoint

/-! ## Powers of ten -/

theorem ten_pow_fits {n : Nat} (h : n ≤ 28) : ((10 : Int) ^ n).natAbs < 2 ^ 96 := by
  have hle : 10 ^ n ≤ 10 ^ 28 := Nat.pow_le_pow_right (by decide) h
  rw [Int.natAbs_pow]
  exact hle.trans_lt (by decide)

theorem tenPow_eq {n : Nat} (h : n ≤ 28) : tenPow n = some ⟨10 ^ n, 0, ten_pow_fits h, Nat.zero_le _⟩ := by
  induction n with
  | zero => rfl
  | succ n ih =>
    rw [tenPow, ih (by omega), Option.bind_some, Fixed.mul_integers rfl rfl]
    show Fixed.ofInt ((10 : Int) ^ n * 10) = _
    rw [← pow_succ]
    exact dif_pos (ten_pow_fits h)

theorem tenPow_eq_none_iff {n : Nat} : tenPow n = none ↔ 28 < n := by
  have hlarge : ∀ m, tenPow (m + 29) = none := by
    intro m
    induction m with
    | zero =>
      rw [tenPow, tenPow_eq (le_refl _), Option.bind_some, Fixed.mul_integers rfl rfl]
      decide
    | succ m ih => rw [show m + 1 + 29 = m + 29 + 1 by omega, tenPow, ih, Option.bind_none]
  refine ⟨fun h => ?_, fun h => ?_⟩
  · by_contra hle
    rw [tenPow_eq (by omega)] at h
    cases h
  · obtain ⟨m, rfl⟩ := Nat.exists_eq_add_of_le' h
    exact hlarge m

/-- A decimal over a power of ten is a decimal. -/
theorem div_tenPow (a : Decimal) {n : Nat} (h : n ≤ 28) : ∃ d, (tenPow n).bind (Fixed.div a) = some d := by
  rw [tenPow_eq h, Option.bind_some]
  apply Option.isSome_iff_exists.mp
  apply Fixed.div_isSome
  have hpos : (0 : Int) < 10 ^ n := by positivity
  rw [pow_zero]
  exact hpos

/-! ## Amounts -/

theorem lamportsToSol_isSome {lamports : Nat} (h : lamports < 2 ^ 64) : ∃ d, lamportsToSol lamports = some d := by
  have hfits : (Fixed.ofInt lamports : Option Decimal) = some ⟨lamports, 0, by omega, Nat.zero_le _⟩ :=
    dif_pos (by omega)
  have hone : (10 : Int) ^ 0 ≤ (LAMPORTS_PER_SOL : Int) := by
    rw [pow_zero, LAMPORTS_PER_SOL]
    omega
  have hlimit : (LAMPORTS_PER_SOL : Int).natAbs < 2 ^ 96 := by
    rw [LAMPORTS_PER_SOL]
    omega
  have hscale : (Fixed.ofInt LAMPORTS_PER_SOL : Option Decimal) = some ⟨LAMPORTS_PER_SOL, 0, hlimit, Nat.zero_le _⟩ :=
    dif_pos hlimit
  obtain ⟨d, hd⟩ := Option.isSome_iff_exists.mp (Fixed.div_isSome
    (⟨lamports, 0, by omega, Nat.zero_le _⟩ : Decimal) ⟨LAMPORTS_PER_SOL, 0, hlimit, Nat.zero_le _⟩ hone)
  refine ⟨d, ?_⟩
  rw [lamportsToSol, hfits, hscale, Option.bind_eq_bind, Option.bind_some, Option.bind_some, hd]

/-- The amount of a token is an error where its text is no decimal, and overflows
where the text is one and its decimals are too many. -/
theorem rawTokenToAmount_cases (x : ChainCrates) (raw : String) (decimals : Nat) :
    (isErr (x.fromStrExact (trim raw)) = true ∧ ∃ e, rawTokenToAmount x raw decimals = .error (.error e)) ∨
    (isErr (x.fromStrExact (trim raw)) = false ∧ 28 < decimals ∧ rawTokenToAmount x raw decimals = .error .panic) ∨
    (isErr (x.fromStrExact (trim raw)) = false ∧ decimals ≤ 28 ∧ ∃ d, rawTokenToAmount x raw decimals = .ok d) := by
  rw [rawTokenToAmount]
  cases x.fromStrExact (trim raw) with
  | error e => exact Or.inl ⟨rfl, _, rfl⟩
  | ok a =>
    right
    show _ ∧ _ ∧ orPanic ((tenPow decimals).bind (Fixed.div a)) = _ ∨
      _ ∧ _ ∧ ∃ d, orPanic ((tenPow decimals).bind (Fixed.div a)) = .ok d
    rcases Nat.lt_or_ge 28 decimals with hlarge | hle
    · rw [tenPow_eq_none_iff.mpr hlarge]
      exact Or.inl ⟨rfl, hlarge, rfl⟩
    · obtain ⟨d, hd⟩ := div_tenPow a hle
      rw [hd]
      exact Or.inr ⟨rfl, hle, d, rfl⟩

/-- The text of a number is read as it is. -/
theorem trim_toString (v : Nat) : trim (toString v) = toString v := by
  have hdigit : ∀ c ∈ (toString v).toList, isWhitespace c = false := by
    intro c hc
    have hlow : 48 ≤ c.toNat := (Char.isDigit_iff_toNat.mp (isDigit_of_mem_repr hc)).1
    have hhigh : c.toNat ≤ 57 := (Char.isDigit_iff_toNat.mp (isDigit_of_mem_repr hc)).2
    rw [isWhitespace, whitespaceCode]
    simp only [Bool.or_eq_false_iff, Bool.and_eq_false_iff, decide_eq_false_iff_not, beq_eq_false_iff_ne]
    omega
  have hkeep : ∀ l : List Char, (∀ c ∈ l, isWhitespace c = false) → l.dropWhile isWhitespace = l := by
    intro l hl
    rw [List.dropWhile_eq_self_iff]
    intro hne hspace
    rw [hl _ (List.getElem_mem hne)] at hspace
    cases hspace
  rw [trim, trimStart, hkeep _ hdigit, trimEnd, hkeep _ fun c hc => hdigit c (List.mem_reverse.mp hc),
    List.reverse_reverse, String.ofList_toList]

theorem rawToDecimal_toString {v : Nat} (h : v < 2 ^ 64) : ∃ d, rawToDecimal (toString v) 18 = .ok d := by
  have hprefix : stripPrefix "0x" (toString v) = none := by
    rw [stripPrefix, if_neg]
    intro hpre
    -- the second character would be a digit
    have hx : 'x' ∈ (toString v).toList := (List.isPrefixOf_iff_prefix.mp hpre).subset (by decide)
    exact absurd (isDigit_of_mem_repr hx) (by decide)
  have hvalue : fromStrRadix 10 (2 ^ 128) (toString v).toList = .ok v := fromStrRadix_repr (by omega)
  have hfits : (Fixed.ofInt v : Option Decimal) = some ⟨v, 0, by omega, Nat.zero_le _⟩ := dif_pos (by omega)
  obtain ⟨d, hd⟩ := div_tenPow ⟨v, 0, by omega, Nat.zero_le _⟩ (by decide : 18 ≤ 28)
  refine ⟨d, ?_⟩
  rw [rawToDecimal, trim_toString, hprefix]
  simp only [hvalue]
  show orPanic ((tenPow 18).bind fun scale => (Fixed.ofInt v).bind fun value => value.div scale) = .ok d
  simp only [hfits, Option.bind_some]
  rw [hd, orPanic]

end WhaleIntelligence.Chains
