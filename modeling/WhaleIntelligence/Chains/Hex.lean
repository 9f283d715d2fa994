import WhaleIntelligence.Text

/- Quantities and addresses in hexadecimal.

   `fromStrRadix` reads a text into an integer of so many bits, and fails where the
   value does not fit. `digitsValue` has no such bound: a text that does not fit still
   has a value. -/
namespace WhaleIntelligence.Chains
open WhaleIntelligence

/-! ## Integers of a radix -/

/-- `char::to_digit`. -/
def toDigit (radix : Nat) (c : Char) : Option Nat :=
  (if '0' ≤ c && c ≤ '9' then some (c.toNat - 48)
    else if 'a' ≤ c && c ≤ 'z' then some (c.toNat - 87)
    else if 'A' ≤ c && c ≤ 'Z' then some (c.toNat - 55)
    else none).filter (· < radix)

/-- The loop of `from_str_radix`, with the texts of its errors. -/
def fromDigits (radix limit : Nat) : Nat → List Char → Except String Nat
  | acc, [] => .ok acc
  | acc, c :: l =>
    match toDigit radix c with
    | none => .error "invalid digit found in string"
    | some d =>
      if limit ≤ acc * radix + d then .error "number too large to fit in target type"
      else fromDigits radix limit (acc * radix + d) l

/-- `from_str_radix` of the unsigned integers below the limit. -/
def fromStrRadix (radix limit : Nat) : List Char → Except String Nat
  | [] => .error "cannot parse integer from empty string"
  | ['+'] | ['-'] => .error "invalid digit found in string"
  | '+' :: l => fromDigits radix limit 0 l
  | l => fromDigits radix limit 0 l

/-- `parse_hex_quantity`. -/
def parseHexQuantity (value : String) : Option Nat := do
  let hex ← (stripPrefix "0x" value).or (stripPrefix "0X" value)
  if hex.isEmpty then some 0 else (fromStrRadix 16 (2 ^ 64) hex.toList).toOption

/-! ## Addresses -/

/-- `decode_topic_address`. -/
def decodeTopicAddress (topic : String) : Except (Abort String) (Option String) :=
  if byteLen topic.toList ≠ 66 then .ok none
  else
    match splitAtByte topic.toList 26 with
    | none => .error .panic
    | some (_, address) =>
      if !address.all isAsciiHexdigit then .ok none
      else .ok (some ("0x" ++ toAsciiLowercase (String.ofList address)))

/-- `validate_evm_address`. -/
def validateEvmAddress (address : String) : Except String Unit :=
  if !"0x".toList.isPrefixOf address.toList || byteLen address.toList ≠ 42 then
    .error "evm address must be 0x + 40 hex characters"
  else if !(address.toList.drop 2).all isAsciiHexdigit then .error "evm address contains non-hex characters"
  else .ok ()

/-! ## Values -/

/-- The value of the digits, after digits of the value `acc`. -/
def digitsValue (radix : Nat) : Nat → List Char → Option Nat
  | acc, [] => some acc
  | acc, c :: l => (toDigit radix c).bind fun d => digitsValue radix (acc * radix + d) l

section
variable {radix limit acc n v : Nat} {l : List Char} {c : Char}

theorem le_of_digitsValue (hradix : 0 < radix) (h : digitsValue radix acc l = some n) : acc ≤ n := by
  induction l generalizing acc with
  | nil =>
    cases h
    exact le_refl _
  | cons c l ih =>
    obtain ⟨d, -, hrest⟩ := Option.bind_eq_some_iff.mp h
    have hle := ih hrest
    have hmul := Nat.le_mul_of_pos_right acc hradix
    omega

/-- The loop returns the value where it fits. -/
theorem fromDigits_ok_iff (hradix : 0 < radix) (hacc : acc < limit) :
    fromDigits radix limit acc l = .ok n ↔ digitsValue radix acc l = some n ∧ n < limit := by
  induction l generalizing acc with
  | nil =>
    simp only [fromDigits, digitsValue, Except.ok.injEq, Option.some.injEq]
    refine ⟨fun h => ⟨h, h ▸ hacc⟩, fun h => h.1⟩
  | cons c l ih =>
    rw [fromDigits, digitsValue]
    cases toDigit radix c with
    | none => simp
    | some d =>
      simp only [Option.bind_some]
      split
      · rename_i hlarge
        refine ⟨fun h => (by cases h), fun h => ?_⟩
        have hle := le_of_digitsValue hradix h.1
        omega
      · exact ih (by omega)

theorem fromStrRadix_of_digit (hc : toDigit radix c ≠ none)
    (hsign : toDigit radix '+' = none ∧ toDigit radix '-' = none) :
    fromStrRadix radix limit (c :: l) = fromDigits radix limit 0 (c :: l) := by
  have hplus : c ≠ '+' := fun h => hc (h ▸ hsign.1)
  have hminus : c ≠ '-' := fun h => hc (h ▸ hsign.2)
  rw [fromStrRadix]
  · intro h
    cases h
  · intro h
    cases h
    exact hplus rfl
  · intro h
    cases h
    exact hminus rfl
  · intro l' h
    cases h
    exact hplus rfl

/-- A text is read as its value where that fits. -/
theorem fromStrRadix_ok_iff (hradix : 0 < radix) (hlimit : 0 < limit)
    (hsign : toDigit radix '+' = none ∧ toDigit radix '-' = none) (hl : l ≠ [])
    (hv : digitsValue radix 0 l = some v) : fromStrRadix radix limit l = .ok n ↔ n = v ∧ v < limit := by
  cases l with
  | nil => exact absurd rfl hl
  | cons c l =>
    have hc : toDigit radix c ≠ none := by
      intro hnone
      rw [digitsValue, hnone] at hv
      cases hv
    rw [fromStrRadix_of_digit hc hsign, fromDigits_ok_iff hradix hlimit, hv, Option.some.injEq]
    refine ⟨fun h => ⟨h.1.symm, h.1.symm ▸ h.2⟩, fun h => ⟨h.1.symm, h.1 ▸ h.2⟩⟩

theorem fromStrRadix_lt (hradix : 0 < radix) (hlimit : 0 < limit) (h : fromStrRadix radix limit l = .ok n) :
    n < limit := by
  rw [fromStrRadix.eq_def] at h
  split at h
  · cases h
  · cases h
  · cases h
  · exact ((fromDigits_ok_iff hradix hlimit).mp h).2
  · exact ((fromDigits_ok_iff hradix hlimit).mp h).2

/-- What is read is a `u64`. -/
theorem parseHexQuantity_lt {s : String} (h : parseHexQuantity s = some v) : v < 2 ^ 64 := by
  rw [parseHexQuantity, Option.bind_eq_bind, Option.bind_eq_some_iff] at h
  obtain ⟨hex, -, hread⟩ := h
  split at hread
  · cases hread
    decide
  · cases hr : fromStrRadix 16 (2 ^ 64) hex.toList with
    | error e =>
      rw [hr] at hread
      cases hread
    | ok n =>
      rw [hr] at hread
      obtain rfl : n = v := Option.some.inj hread
      exact fromStrRadix_lt (by decide) (by decide) hr

/-- So is what a quantity that does not read is replaced by. -/
theorem quantityOrZero_lt (s : String) : (parseHexQuantity s).getD 0 < 2 ^ 64 := by
  cases h : parseHexQuantity s with
  | none => decide
  | some v => exact parseHexQuantity_lt h

/-- The text is `0x` and hexadecimal digits, at least one, of this value. -/
def Quantity (s : String) (v : Nat) : Prop :=
  ∃ digits, (s.toList = '0' :: 'x' :: digits ∨ s.toList = '0' :: 'X' :: digits) ∧ digits ≠ [] ∧
    digitsValue 16 0 digits = some v

theorem stripPrefix_of_toList (pre : String) {s : String} {rest : List Char} (h : s.toList = pre.toList ++ rest) :
    stripPrefix pre s = some (String.ofList rest) := by
  have hs : s = pre ++ String.ofList rest := by
    apply String.toList_injective
    rw [h, String.toList_append, String.toList_ofList]
  rw [hs, stripPrefix_append]

/-- A quantity is read as its value below `2^64`, and not at all from there on. -/
theorem parseHexQuantity_quantity {s : String} (h : Quantity s v) :
    parseHexQuantity s = if v < 2 ^ 64 then some v else none := by
  obtain ⟨digits, hs, hne, hv⟩ := h
  have hstrip : (stripPrefix "0x" s).or (stripPrefix "0X" s) = some (String.ofList digits) := by
    obtain hs | hs := hs
    · rw [stripPrefix_of_toList "0x" hs, Option.some_or]
    · have hno : stripPrefix "0x" s = none := by
        rw [stripPrefix, hs]
        rfl
      rw [hno, Option.none_or, stripPrefix_of_toList "0X" hs]
  have hempty : (String.ofList digits).isEmpty = false := by
    rw [Bool.eq_false_iff, ne_eq, String.isEmpty_iff]
    intro hnil
    exact hne (by rw [← String.toList_ofList (l := digits), hnil]; rfl)
  have hread : ∀ n, fromStrRadix 16 (2 ^ 64) digits = .ok n ↔ n = v ∧ v < 2 ^ 64 :=
    fun n => fromStrRadix_ok_iff (by decide) (by decide) (by decide) hne hv
  rw [parseHexQuantity, hstrip]
  simp only [Option.bind_eq_bind, Option.bind_some, hempty, Bool.false_eq_true, if_false, String.toList_ofList]
  cases hr : fromStrRadix 16 (2 ^ 64) digits with
  | ok n =>
    obtain ⟨rfl, hlt⟩ := (hread n).mp hr
    rw [if_pos hlt]
    rfl
  | error e =>
    rw [if_neg]
    · rfl
    · intro hlt
      rw [(hread v).mpr ⟨rfl, hlt⟩] at hr
      cases hr

/-! ## The address in a topic -/

/-- The last forty characters of a topic, lowercased behind `0x`. -/
def topicAddress (topic : String) : String :=
  "0x" ++ toAsciiLowercase (String.ofList (topic.toList.drop (topic.toList.length - 40)))

theorem byteLen_of_hexdigits (hl : ∀ c ∈ l, isAsciiHexdigit c = true) : byteLen l = l.length := by
  induction l with
  | nil => rfl
  | cons c l ih =>
    have hc := hl c List.mem_cons_self
    have hsize : c.utf8Size = 1 := by
      rw [Char.utf8Size_eq_one_iff]
      simp only [isAsciiHexdigit, Bool.or_eq_true, Bool.and_eq_true, decide_eq_true_eq] at hc
      obtain (⟨-, hle⟩ | ⟨-, hle⟩) | ⟨-, hle⟩ := hc
      · exact UInt32.le_trans hle (by decide)
      · exact UInt32.le_trans hle (by decide)
      · exact UInt32.le_trans hle (by decide)
    rw [byteLen_cons, hsize, ih fun d hd => hl d (List.mem_cons_of_mem _ hd), List.length_cons, Nat.add_comm]

theorem eq_topicAddress {topic address : String} (h : decodeTopicAddress topic = .ok (some address)) :
    address = topicAddress topic := by
  rw [decodeTopicAddress] at h
  split at h
  · cases h
  · rename_i hlen
    split at h
    · cases h
    · rename_i pre rest hsplit
      split at h
      · cases h
      · rename_i hall
        have hhex : ∀ c ∈ rest, isAsciiHexdigit c = true := by
          simpa using hall
        obtain ⟨htopic, hpre⟩ := splitAtByte_iff.mp hsplit
        have hrest : rest.length = 40 := by
          have hbytes := byteLen_of_hexdigits hhex
          rw [htopic, byteLen_append, hpre] at hlen
          omega
        have hdrop : topic.toList.drop (topic.toList.length - 40) = rest := by
          rw [htopic, List.length_append, hrest, Nat.add_sub_cancel, List.drop_left]
        cases h
        rw [topicAddress, hdrop]

/-! ## The text of a number -/

theorem toDigit_isDigit (hc : c.isDigit = true) : toDigit 10 c = some (c.toNat - 48) := by
  have hrange : ('0' ≤ c && c ≤ '9') = true := hc
  have hlow : 48 ≤ c.toNat := (Char.isDigit_iff_toNat.mp hc).1
  have hhigh : c.toNat ≤ 57 := (Char.isDigit_iff_toNat.mp hc).2
  rw [toDigit, if_pos hrange, Option.filter_some, if_pos]
  rw [decide_eq_true_eq]
  omega

theorem digitsValue_decimal (hl : ∀ c ∈ l, c.isDigit = true) :
    digitsValue 10 acc l = some (Nat.ofDigitChars 10 l acc) := by
  induction l generalizing acc with
  | nil => rfl
  | cons c l ih =>
    have hc := hl c List.mem_cons_self
    rw [digitsValue, toDigit_isDigit hc, Option.bind_some, ih fun d hd => hl d (List.mem_cons_of_mem _ hd),
      Nat.ofDigitChars_cons, Nat.mul_comm]
    rfl

/-- `n.to_string()` is read as `n`. -/
theorem fromStrRadix_repr (h : n < limit) : fromStrRadix 10 limit n.repr.toList = .ok n := by
  have hdigits : ∀ c ∈ n.repr.toList, c.isDigit = true := fun c hc => isDigit_of_mem_repr hc
  have hvalue : digitsValue 10 0 n.repr.toList = some n := by
    rw [digitsValue_decimal hdigits, Nat.toList_repr, Nat.ofDigitChars_toDigits (by decide) (by decide)]
  refine (fromStrRadix_ok_iff (by decide) (by omega) (by decide) ?_ hvalue).mpr ⟨rfl, h⟩
  rw [Nat.toList_repr]
  exact Nat.toDigits_ne_nil

end

end WhaleIntelligence.Chains
