import WhaleIntelligence.Lib.Framing

/- What the modelled code takes from Rust and from the crates it links.

   Strings are Lean strings and the `str` methods are defined on their
   characters: `trim` strips the Unicode `White_Space` characters at both ends,
   `to_ascii_lowercase` folds the 26 Latin letters and leaves every other
   character, `split_once` cuts at the first occurrence. A `DateTime<Utc>` is
   its count of nanoseconds since the Unix epoch.

   `Crates` gathers the four functions of third-party crates whose code is not
   in the repository: the timestamp parser of `chrono`, the host of a URL, the
   decimal parser of `rust_decimal`, and SHA-256 in lower-case hexadecimal. The
   model is parametric in them. -/
namespace WhaleIntelligence
open Framing

/-! ## Strings -/

/-- The code points with the Unicode `White_Space` property. -/
def whitespaceCode (n : Nat) : Bool :=
  (9 ≤ n && n ≤ 13) || n == 0x20 || n == 0x85 || n == 0xA0 || n == 0x1680 ||
    (0x2000 ≤ n && n ≤ 0x200A) || n == 0x2028 || n == 0x2029 || n == 0x202F || n == 0x205F || n == 0x3000

def isWhitespace (c : Char) : Bool := whitespaceCode c.toNat

def trimStart (l : List Char) : List Char := l.dropWhile isWhitespace
def trimEnd (l : List Char) : List Char := (l.reverse.dropWhile isWhitespace).reverse

/-- `str::trim`. -/
def trim (s : String) : String := String.ofList (trimEnd (trimStart s.toList))

/-- `str::to_ascii_lowercase`. -/
def toAsciiLowercase (s : String) : String := String.ofList (s.toList.map Char.toLower)

/-- `str::eq_ignore_ascii_case`. -/
def eqIgnoreAsciiCase (a b : String) : Bool := toAsciiLowercase a == toAsciiLowercase b

/-- `char::is_ascii_hexdigit`. -/
def isAsciiHexdigit (c : Char) : Bool := ('0' ≤ c && c ≤ '9') || ('a' ≤ c && c ≤ 'f') || ('A' ≤ c && c ≤ 'F')

/-- `str::split_once` at a character. -/
def splitOnce (c : Char) (s : String) : Option (String × String) :=
  match s.toList.dropWhile (· != c) with
  | [] => none
  | _ :: rest => some (String.ofList (s.toList.takeWhile (· != c)), String.ofList rest)

/-- Cuts after so many bytes, `none` inside a character or past the end: the slices `&s[..n]` and
    `&s[n..]`, which panic there. -/
def splitAtByte : List Char → Nat → Option (List Char × List Char)
  | [], n => if n = 0 then some ([], []) else none
  | c :: l, n =>
    if n = 0 then some ([], c :: l)
    else if c.utf8Size ≤ n then (splitAtByte l (n - c.utf8Size)).map fun p => (c :: p.1, p.2)
    else none

/-- `str::strip_prefix`. -/
def stripPrefix (pre s : String) : Option String :=
  if pre.toList.isPrefixOf s.toList then some (String.ofList (s.toList.drop pre.toList.length)) else none

theorem stripPrefix_append (pre s : String) : stripPrefix pre (pre ++ s) = some s := by
  have hprefix : pre.toList.isPrefixOf (pre.toList ++ s.toList) = true :=
    List.isPrefixOf_iff_prefix.mpr (List.prefix_append _ _)
  rw [stripPrefix, String.toList_append, if_pos hprefix, List.drop_left, String.ofList_toList]

/-- The parts between the characters that satisfy the predicate, `str::split`. -/
def splitWhere (p : Char → Bool) : List Char → List (List Char)
  | [] => [[]]
  | c :: l =>
    if p c then [] :: splitWhere p l
    else
      match splitWhere p l with
      | [] => [[c]]
      | part :: parts => (c :: part) :: parts

theorem splitWhere_append {p : Char → Bool} {l : List Char} {a : Char} (hl : ∀ b ∈ l, p b = false)
    (ha : p a = true) (rest : List Char) : splitWhere p (l ++ a :: rest) = l :: splitWhere p rest := by
  induction l with
  | nil => rw [List.nil_append, splitWhere, if_pos ha]
  | cons b l ih =>
    have hb : p b = false := hl b List.mem_cons_self
    rw [List.cons_append, splitWhere, ih fun c hc => hl c (List.mem_cons_of_mem _ hc), hb]
    rfl

/-- `str::split_whitespace`. -/
def splitWhitespace (s : String) : List String :=
  ((splitWhere isWhitespace s.toList).filter fun part => !part.isEmpty).map String.ofList

/-- The UTF-8 bytes of a string, `str::as_bytes`. -/
def utf8 (s : String) : Bytes := s.toByteArray.data.toList

theorem utf8_injective {s t : String} (h : utf8 s = utf8 t) : s = t := by
  apply String.toByteArray_inj.mp
  apply ByteArray.ext
  exact Array.toList_inj.mp h

theorem whitespaceCode_letter {n : Nat} (h : 65 ≤ n) (h' : n ≤ 122) : whitespaceCode n = false := by
  simp only [whitespaceCode, Bool.or_eq_false_iff, Bool.and_eq_false_iff, decide_eq_false_iff_not,
    beq_eq_false_iff_ne]
  omega

theorem toLower_cases (c : Char) :
    c.toLower = c ∨ (65 ≤ c.toNat ∧ c.toNat ≤ 90 ∧ c.toLower.toNat = c.toNat + 32) := by
  unfold Char.toLower
  split
  · rename_i h
    have h1 : 65 ≤ c.toNat := h.1
    have h2 : c.toNat ≤ 90 := h.2
    refine Or.inr ⟨h1, h2, ?_⟩
    show (c.val + 32).toNat = c.val.toNat + 32
    rw [UInt32.toNat_add]
    exact Nat.mod_eq_of_lt (by have : c.val.toNat ≤ 90 := h2; simp; omega)
  · exact Or.inl rfl

theorem isWhitespace_toLower (c : Char) : isWhitespace c.toLower = isWhitespace c := by
  rcases toLower_cases c with h | ⟨h1, h2, h⟩
  · rw [h]
  · rw [isWhitespace, isWhitespace, h, whitespaceCode_letter (by omega) (by omega),
      whitespaceCode_letter h1 (by omega)]

theorem toLower_eq_colon {c : Char} (h : c.toLower = ':') : c = ':' := by
  rcases toLower_cases c with hc | ⟨h1, h2, hc⟩
  · rw [← hc, h]
  · rw [h] at hc
    have : ':'.toNat = 58 := rfl
    omega

/-- A character that stops `dropWhile` keeps everything after it. -/
theorem dropWhile_append_cons {α : Type} {p : α → Bool} {a : α} (ha : p a = false) (rest : List α) :
    ∀ l : List α, (l ++ a :: rest).dropWhile p = l.dropWhile p ++ a :: rest
  | [] => by simp [ha]
  | b :: l => by
    by_cases hb : p b = true
    · simp [hb, dropWhile_append_cons ha rest l]
    · simp [hb]

theorem trimStart_append_cons {a : Char} (ha : isWhitespace a = false) (l rest : List Char) :
    trimStart (l ++ a :: rest) = trimStart l ++ a :: rest := dropWhile_append_cons ha rest l

theorem trimEnd_append_cons {a : Char} (ha : isWhitespace a = false) (l rest : List Char) :
    trimEnd (l ++ a :: rest) = l ++ a :: trimEnd rest := by
  simp only [trimEnd, List.reverse_append, List.reverse_cons, List.append_assoc, List.singleton_append]
  rw [dropWhile_append_cons ha]
  simp

theorem trimStart_map_toLower (l : List Char) :
    trimStart (l.map Char.toLower) = (trimStart l).map Char.toLower := by
  induction l with
  | nil => rfl
  | cons c l ih =>
    simp only [trimStart, List.map_cons, List.dropWhile_cons, isWhitespace_toLower] at ih ⊢
    split
    · exact ih
    · rw [List.map_cons]

theorem takeWhile_append_stop {α : Type} (p : α → Bool) (l : List α) (a : α) (rest : List α)
    (hl : ∀ b ∈ l, p b = true) (ha : p a = false) : (l ++ a :: rest).takeWhile p = l := by
  induction l with
  | nil => simp [ha]
  | cons b l ih =>
    have hb : p b = true := hl b List.mem_cons_self
    simp [hb, ih fun c hc => hl c (List.mem_cons_of_mem _ hc)]

theorem dropWhile_append_stop {α : Type} (p : α → Bool) (l : List α) (a : α) (rest : List α)
    (hl : ∀ b ∈ l, p b = true) (ha : p a = false) : (l ++ a :: rest).dropWhile p = a :: rest := by
  induction l with
  | nil => simp [ha]
  | cons b l ih =>
    have hb : p b = true := hl b List.mem_cons_self
    simp [hb, ih fun c hc => hl c (List.mem_cons_of_mem _ hc)]

/-- A prefix without the separator is what `split_once` cuts off. -/
theorem splitOnce_ofList {c : Char} {p : List Char} (hp : c ∉ p) (rest : List Char) :
    splitOnce c (String.ofList (p ++ c :: rest)) = some (String.ofList p, String.ofList rest) := by
  have hne : ∀ b ∈ p, (b != c) = true := fun b hb => by
    rw [bne_iff_ne]
    intro hbc
    exact hp (hbc ▸ hb)
  have hc : (c != c) = false := by simp
  simp only [splitOnce, String.toList_ofList, dropWhile_append_stop _ _ _ _ hne hc,
    takeWhile_append_stop _ _ _ _ hne hc]

/-- What `split_once` returns is a prefix without the separator and the rest after it. -/
theorem eq_of_splitOnce {c : Char} {s a b : String} (h : splitOnce c s = some (a, b)) :
    s = String.ofList (a.toList ++ c :: b.toList) ∧ c ∉ a.toList := by
  unfold splitOnce at h
  split at h
  · cases h
  · rename_i d rest hd
    simp only [Option.some.injEq, Prod.mk.injEq] at h
    obtain ⟨rfl, rfl⟩ := h
    have hdc : d = c := by
      have := List.head?_dropWhile_not (· != c) s.toList
      rw [hd] at this
      simpa using this
    subst hdc
    rw [String.toList_ofList, String.toList_ofList]
    refine ⟨?_, ?_⟩
    · rw [← hd, List.takeWhile_append_dropWhile, String.ofList_toList]
    · intro hmem
      have := List.all_eq_true.mp List.all_takeWhile _ hmem
      simp at this

/-- A separator cuts a text at its first occurrence only. -/
theorem append_cons_inj {c : Char} {p q r s : List Char} (hp : c ∉ p) (hq : c ∉ q) (h : p ++ c :: r = q ++ c :: s) :
    p = q ∧ r = s := by
  have hsplit : splitOnce c (String.ofList (p ++ c :: r)) = splitOnce c (String.ofList (q ++ c :: s)) := by rw [h]
  rw [splitOnce_ofList hp, splitOnce_ofList hq, Option.some.injEq, Prod.mk.injEq, String.ofList_inj,
    String.ofList_inj] at hsplit
  exact hsplit

/-! ## Times -/

/-- A `DateTime<Utc>`: nanoseconds since the Unix epoch. -/
abbrev DateTime := Int

/-- `DateTime::timestamp`: whole seconds, rounded down. -/
def timestamp (t : DateTime) : Int := t / 1000000000

/-- An interval of so many seconds. -/
def seconds (n : Int) : Int := n * 1000000000

/-- `TimeDelta::num_seconds`: whole seconds of a difference, rounded towards zero. -/
def numSeconds (d : Int) : Int := d.tdiv 1000000000

/-- 2000-01-01T00:00:00Z, from which PostgreSQL counts. -/
def pgEpoch : Int := 946684800 * 1000000000

/-- A `DateTime` as a `timestamptz` column keeps it: the microseconds, truncated. -/
def pgTime (t : Int) : Int := pgEpoch + (t - pgEpoch).tdiv 1000 * 1000

/-! ## Integers -/

/-- `n as u32`. -/
def asU32 (n : Int) : Nat := (n % 4294967296).toNat

/-- `n as i32`. -/
def asI32 (n : Int) : Int := n.bmod 4294967296

/-! ## Integers as bytes -/

/-- `i64::to_le_bytes`. -/
def i64LeBytes (n : Int64) : Bytes := leBytes 8 n.toBitVec.toNat

/-- `u32::to_le_bytes`. -/
def u32LeBytes (n : UInt32) : Bytes := leBytes 4 n.toNat

theorem i64LeBytes_injective {m n : Int64} (h : i64LeBytes m = i64LeBytes n) : m = n := by
  have := leBytes_injective (by have := m.toBitVec.isLt; omega) (by have := n.toBitVec.isLt; omega) h
  exact Int64.toBitVec_inj.mp (BitVec.eq_of_toNat_eq this)

/-! ## Integers as text -/

/-- `u64::from_str`: decimal digits, with at most a `+` before them, below `2^64`. -/
def u64FromStr (s : String) : Option Nat :=
  let digits := match s.toList with
    | '+' :: rest => rest
    | l => l
  if digits ≠ [] ∧ digits.all Char.isDigit ∧ Nat.ofDigitChars 10 digits 0 < 2 ^ 64 then
    some (Nat.ofDigitChars 10 digits 0)
  else none

/-- `u64::to_string` and back. -/
theorem u64FromStr_repr {n : Nat} (h : n < 2 ^ 64) : u64FromStr n.repr = some n := by
  have hdigits : ∀ c ∈ Nat.toDigits 10 n, c.isDigit := fun c hc =>
    Nat.isDigit_of_mem_toDigits (by decide) (by decide) hc
  have hsign : (match Nat.toDigits 10 n with
      | '+' :: rest => rest
      | l => l) = Nat.toDigits 10 n := by
    split
    · rename_i rest heq
      have := hdigits '+' (heq ▸ List.mem_cons_self)
      exact absurd this (by decide)
    · rfl
  have hvalue : Nat.ofDigitChars 10 (Nat.toDigits 10 n) 0 = n := Nat.ofDigitChars_toDigits (by decide) (by decide)
  simp only [u64FromStr, Nat.toList_repr, hsign, hvalue]
  exact if_pos ⟨Nat.toDigits_ne_nil, List.all_eq_true.mpr hdigits, h⟩

theorem isDigit_of_mem_repr {n : Nat} {c : Char} (h : c ∈ n.repr.toList) : c.isDigit := by
  rw [Nat.toList_repr] at h
  exact Nat.isDigit_of_mem_toDigits (by decide) (by decide) h

theorem repr_injective {m n : Nat} (h : m.repr = n.repr) : m = n := by
  have hlist := congrArg String.toList h
  rw [Nat.toList_repr, Nat.toList_repr] at hlist
  have hvalue := congrArg (Nat.ofDigitChars 10 · 0) hlist
  rw [Nat.ofDigitChars_toDigits (by decide) (by decide), Nat.ofDigitChars_toDigits (by decide) (by decide)] at hvalue
  exact hvalue

/-- `i64::to_string`: a minus sign, if any, and digits. -/
theorem toList_intText (n : Int) :
    (toString n).toList = (if n < 0 then ['-'] else []) ++ n.natAbs.repr.toList := by
  cases n with
  | ofNat m => simp [toString, Int.repr]
  | negSucc m => simp [toString, Int.repr, Int.negSucc_lt_zero]

theorem colon_not_mem_intText (n : Int) : ':' ∉ (toString n).toList := by
  rw [toList_intText, List.mem_append]
  intro h
  rcases h with h | h
  · split at h
    · exact absurd h (by decide)
    · exact absurd h List.not_mem_nil
  · exact absurd (isDigit_of_mem_repr h) (by decide)

theorem intText_injective {m n : Int} (h : toString m = toString n) : m = n := by
  have hminus : ∀ (a b : Nat), '-' :: a.repr.toList ≠ b.repr.toList := by
    intro a b heq
    have hdigit : '-'.isDigit := isDigit_of_mem_repr (n := b) (heq ▸ List.mem_cons_self)
    exact absurd hdigit (by decide)
  have hlist := congrArg String.toList h
  rw [toList_intText, toList_intText] at hlist
  by_cases hm : m < 0
  · by_cases hn : n < 0
    · rw [if_pos hm, if_pos hn] at hlist
      have := repr_injective (String.toList_injective (List.append_cancel_left hlist))
      omega
    · rw [if_pos hm, if_neg hn] at hlist
      exact absurd hlist (hminus _ _)
  · by_cases hn : n < 0
    · rw [if_neg hm, if_pos hn] at hlist
      exact absurd hlist.symm (hminus _ _)
    · rw [if_neg hm, if_neg hn] at hlist
      have := repr_injective (String.toList_injective hlist)
      omega

/-- `i32::to_le_bytes`. -/
def i32LeBytes (n : Int32) : Bytes := leBytes 4 n.toBitVec.toNat

/-! ## How a call ends -/

/-- A call that does not return its value returns an error, or it panics. -/
inductive Abort (ε : Type)
  | error (e : ε)
  | panic
  deriving DecidableEq, Repr

def panicked {ε α : Type} : Except (Abort ε) α → Bool
  | .error .panic => true
  | _ => false

/-! ## Crates -/

/-- The third-party functions the code calls. -/
structure Crates where
  /-- `chrono`: `s.parse::<DateTime<Utc>>().ok()`. -/
  parseDateTime : String → Option DateTime
  /-- `url`: `Url::parse(s).ok()?.host_str()`. -/
  urlHost : String → Option String
  /-- `rust_decimal`: `s.parse::<Decimal>().ok()`, as an exact rational. -/
  parseDecimal : String → Option Rat
  /-- `sha2`: the SHA-256 digest, in lower-case hexadecimal. -/
  sha256Hex : Bytes → String

/-- Crates given by tables. A text outside the tables does not parse, and a
preimage outside the table stands for its own digest behind a question mark. -/
def tableCrates (times : List (String × DateTime)) (decimals : List (String × Rat))
    (digests : List (Bytes × String)) : Crates where
  parseDateTime s := times.lookup s
  urlHost _ := none
  parseDecimal s := decimals.lookup s
  sha256Hex b := match digests.lookup b with
    | some d => d
    | none => String.ofList ('?' :: b.map Char.ofUInt8)

theorem ofUInt8_injective : Function.Injective Char.ofUInt8 := by
  intro u v h
  have hval : u.toUInt32 = v.toUInt32 := congrArg Char.val h
  exact UInt8.toUInt32_inj.mp hval

/-- A table of distinct digests, none of them behind a question mark, stays
injective with the preimages outside it. -/
theorem tableCrates_injective {times : List (String × DateTime)} {decimals : List (String × Rat)}
    {digests : List (Bytes × String)} (hd : (digests.map Prod.snd).Nodup)
    (hq : ∀ d ∈ digests, d.2.toList.head? ≠ some '?') :
    Function.Injective (tableCrates times decimals digests).sha256Hex := by
  have hmem : ∀ {b d}, digests.lookup b = some d → (b, d) ∈ digests := fun {b d} h => by
    obtain ⟨l₁, l₂, rfl, -⟩ := List.lookup_eq_some_iff.mp h
    simp
  have hout : ∀ {b : Bytes} {d : String} {l : List Char}, digests.lookup b = some d →
      d ≠ String.ofList ('?' :: l) := fun h heq => by
    apply hq _ (hmem h)
    rw [heq, String.toList_ofList, List.head?_cons]
  intro a b h
  simp only [tableCrates] at h
  cases ha : digests.lookup a with
  | some d =>
    cases hb : digests.lookup b with
    | some e =>
      rw [ha, hb] at h
      have he : (a, d) = (b, e) := List.inj_on_of_nodup_map hd (hmem ha) (hmem hb) h
      exact congrArg Prod.fst he
    | none => rw [ha, hb] at h; exact absurd h (hout ha)
  | none =>
    cases hb : digests.lookup b with
    | some e => rw [ha, hb] at h; exact absurd h.symm (hout hb)
    | none =>
      rw [ha, hb] at h
      dsimp only at h
      rw [String.ofList_inj, List.cons.injEq] at h
      exact List.map_injective_iff.mpr ofUInt8_injective h.2

end WhaleIntelligence
