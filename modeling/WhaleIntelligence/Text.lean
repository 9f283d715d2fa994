import WhaleIntelligence.Rust

/- Texts that are cut and searched by byte offsets.

   A Rust string is its characters, and an offset into it counts UTF-8 bytes. A slice
   is a cut of the characters, and it panics unless the offset is the byte length of
   some of them (`splitAtByte_iff`). `str::find` returns the offset of the leftmost
   occurrence (`find_iff`), so a slice at an offset that was found in the same text
   never panics. `str::to_lowercase` replaces every character on its own, and an
   offset that was found in the lower-case text says nothing of the text itself. -/
namespace WhaleIntelligence

/-! ## Byte offsets -/

/-- `str::len`. -/
def byteLen : List Char → Nat
  | [] => 0
  | c :: l => c.utf8Size + byteLen l

@[simp] theorem byteLen_nil : byteLen [] = 0 := rfl

@[simp] theorem byteLen_cons (c : Char) (l : List Char) : byteLen (c :: l) = c.utf8Size + byteLen l := rfl

@[simp] theorem byteLen_append (a b : List Char) : byteLen (a ++ b) = byteLen a + byteLen b := by
  induction a with
  | nil => simp
  | cons c a ih => simp [ih, Nat.add_assoc]

theorem eq_nil_of_byteLen {l : List Char} (h : byteLen l = 0) : l = [] := by
  cases l with
  | nil => rfl
  | cons c l =>
    have hpos := c.utf8Size_pos
    simp only [byteLen_cons] at h
    omega

theorem length_le_byteLen (l : List Char) : l.length ≤ byteLen l := by
  induction l with
  | nil => exact le_refl _
  | cons c l ih =>
    have hpos := c.utf8Size_pos
    simp only [List.length_cons, byteLen_cons]
    omega

/-- Characters that are not empty start with the first one of the text. -/
theorem eq_cons_of_byteLen {l a b : List Char} {c : Char} (hl : c :: l = a ++ b) (ha : byteLen a ≠ 0) :
    ∃ a', a = c :: a' ∧ l = a' ++ b := by
  cases a with
  | nil => exact absurd rfl ha
  | cons d a =>
    rw [List.cons_append, List.cons.injEq] at hl
    obtain ⟨rfl, hl⟩ := hl
    exact ⟨a, rfl, hl⟩

/-- A slice does not panic when its offset is the length of some characters of the text. -/
theorem splitAtByte_iff {l a b : List Char} {n : Nat} : splitAtByte l n = some (a, b) ↔ l = a ++ b ∧ byteLen a = n := by
  induction l generalizing n a with
  | nil =>
    simp only [splitAtByte]
    split
    · rename_i hn
      refine ⟨fun h => ?_, fun h => ?_⟩
      · cases h
        exact ⟨rfl, hn.symm⟩
      · obtain ⟨rfl, rfl⟩ := List.append_eq_nil_iff.mp h.1.symm
        rfl
    · rename_i hn
      refine ⟨fun h => (by cases h), fun h => ?_⟩
      obtain ⟨rfl, rfl⟩ := List.append_eq_nil_iff.mp h.1.symm
      exact absurd h.2.symm hn
  | cons c l ih =>
    have hpos := c.utf8Size_pos
    rw [splitAtByte]
    split
    · rename_i hn
      refine ⟨fun h => ?_, fun h => ?_⟩
      · cases h
        exact ⟨rfl, hn.symm⟩
      · obtain ⟨hl, ha⟩ := h
        obtain rfl := eq_nil_of_byteLen (ha.trans hn)
        rw [hl, List.nil_append]
    · rename_i hn
      split
      · rename_i hle
        simp only [Option.map_eq_some_iff, Prod.mk.injEq, Prod.exists]
        refine ⟨fun h => ?_, fun h => ?_⟩
        · obtain ⟨a', b', hsplit, rfl, rfl⟩ := h
          obtain ⟨rfl, hlen⟩ := ih.mp hsplit
          refine ⟨rfl, ?_⟩
          rw [byteLen_cons]
          omega
        · obtain ⟨hl, ha⟩ := h
          obtain ⟨a, rfl, rfl⟩ := eq_cons_of_byteLen hl (ha ▸ hn)
          rw [byteLen_cons] at ha
          exact ⟨a, b, ih.mpr ⟨rfl, by omega⟩, rfl, rfl⟩
      · rename_i hlt
        refine ⟨fun h => (by cases h), fun h => ?_⟩
        obtain ⟨hl, ha⟩ := h
        obtain ⟨a, rfl, rfl⟩ := eq_cons_of_byteLen hl (ha ▸ hn)
        rw [byteLen_cons] at ha
        omega

theorem splitAtByte_append (a b : List Char) : splitAtByte (a ++ b) (byteLen a) = some (a, b) :=
  splitAtByte_iff.mpr ⟨rfl, rfl⟩

/-! ## Searching -/

/-- `str::find` of a text. -/
def find (pat : List Char) : List Char → Option Nat
  | [] => if pat.isPrefixOf [] then some 0 else none
  | c :: l => if pat.isPrefixOf (c :: l) then some 0 else (find pat l).map fun n => c.utf8Size + n

/-- `str::find` of a predicate. -/
def findWhere (p : Char → Bool) : List Char → Option Nat
  | [] => none
  | c :: l => if p c then some 0 else (findWhere p l).map fun n => c.utf8Size + n

/-- Where a text does not start with another one, no occurrence is at the first character. -/
theorem eq_cons_of_not_prefix {pat l a b : List Char} {c : Char} (hpre : ¬pat.isPrefixOf (c :: l) = true)
    (hl : c :: l = a ++ pat ++ b) : ∃ a', a = c :: a' ∧ l = a' ++ pat ++ b := by
  cases a with
  | nil => exact absurd (List.isPrefixOf_iff_prefix.mpr ⟨b, hl.symm⟩) hpre
  | cons d a =>
    rw [List.cons_append, List.cons_append, List.cons.injEq] at hl
    obtain ⟨rfl, hl⟩ := hl
    exact ⟨a, rfl, hl⟩

/-- The leftmost occurrence of a text is behind the characters before it. -/
theorem find_iff {pat l : List Char} {n : Nat} : find pat l = some n ↔ ∃ a b, l = a ++ pat ++ b ∧ byteLen a = n ∧
    ∀ a' b', l = a' ++ pat ++ b' → a.length ≤ a'.length := by
  induction l generalizing n with
  | nil =>
    simp only [find]
    split
    · rename_i hpre
      obtain rfl := List.prefix_nil.mp (List.isPrefixOf_iff_prefix.mp hpre)
      refine ⟨fun h => ?_, fun h => ?_⟩
      · cases h
        exact ⟨[], [], rfl, rfl, fun _ _ _ => Nat.zero_le _⟩
      · obtain ⟨a, b, hl, rfl, -⟩ := h
        obtain ⟨hab, rfl⟩ := List.append_eq_nil_iff.mp hl.symm
        obtain ⟨rfl, -⟩ := List.append_eq_nil_iff.mp hab
        rfl
    · rename_i hpre
      refine ⟨fun h => (by cases h), fun h => ?_⟩
      obtain ⟨a, b, hl, -, -⟩ := h
      obtain ⟨hab, rfl⟩ := List.append_eq_nil_iff.mp hl.symm
      obtain ⟨rfl, rfl⟩ := List.append_eq_nil_iff.mp hab
      exact absurd rfl hpre
  | cons c l ih =>
    rw [find]
    split
    · rename_i hpre
      obtain ⟨b, hb⟩ := List.isPrefixOf_iff_prefix.mp hpre
      refine ⟨fun h => ?_, fun h => ?_⟩
      · cases h
        exact ⟨[], b, hb.symm, rfl, fun _ _ _ => Nat.zero_le _⟩
      · obtain ⟨a, b', hl, rfl, hmin⟩ := h
        have hzero := hmin [] b hb.symm
        obtain rfl := List.length_eq_zero_iff.mp (Nat.le_zero.mp hzero)
        rfl
    · rename_i hpre
      simp only [Option.map_eq_some_iff]
      refine ⟨fun h => ?_, fun h => ?_⟩
      · obtain ⟨m, hm, rfl⟩ := h
        obtain ⟨a, b, rfl, rfl, hmin⟩ := ih.mp hm
        refine ⟨c :: a, b, rfl, rfl, fun a' b' hl => ?_⟩
        obtain ⟨a'', rfl, htail⟩ := eq_cons_of_not_prefix hpre hl
        exact Nat.succ_le_succ (hmin a'' b' htail)
      · obtain ⟨a, b, hl, rfl, hmin⟩ := h
        obtain ⟨a'', rfl, htail⟩ := eq_cons_of_not_prefix hpre hl
        refine ⟨byteLen a'', ih.mpr ⟨a'', b, htail, rfl, fun a' b' hl' => ?_⟩, rfl⟩
        exact Nat.le_of_succ_le_succ (hmin (c :: a') b' (by rw [hl']; rfl))

theorem find_eq_none {pat l : List Char} (h : find pat l = none) (a b : List Char) : l ≠ a ++ pat ++ b := by
  induction l generalizing a with
  | nil =>
    intro hl
    obtain ⟨hab, rfl⟩ := List.append_eq_nil_iff.mp hl.symm
    obtain ⟨rfl, rfl⟩ := List.append_eq_nil_iff.mp hab
    cases h
  | cons c l ih =>
    intro hl
    rw [find] at h
    split at h
    · cases h
    · rename_i hpre
      obtain ⟨a, rfl, htail⟩ := eq_cons_of_not_prefix hpre hl
      exact ih (Option.map_eq_none_iff.mp h) a htail

/-! ## Lower case -/

/-- The lower case of the Unicode tables, by the facts that every version of them has: the 26 Latin letters are
    folded, and only two other characters have a lower case with a letter of them. -/
structure LowerCase where
  /-- `char::to_lowercase`. -/
  lower : Char → List Char
  /-- A capital sigma between these two texts ends a word. -/
  finalSigma : List Char → List Char → Bool
  ascii : ∀ c : Char, c.toNat < 128 → lower c = [c.toLower]
  kelvin : lower '\u212A' = ['k']
  dottedI : lower '\u0130' = ['i', '\u0307']
  other : ∀ c : Char, 128 ≤ c.toNat → c ≠ '\u212A' → c ≠ '\u0130' → lower c ≠ [] ∧ ∀ d ∈ lower c, 128 ≤ d.toNat

/-- What each character of a text becomes. -/
def LowerCase.pieces (u : LowerCase) (before : List Char) : List Char → List (List Char)
  | [] => []
  | c :: l =>
    (if c = 'Σ' then [if u.finalSigma before l then 'ς' else 'σ'] else u.lower c) :: u.pieces (before ++ [c]) l

/-- `str::to_lowercase`. -/
def LowerCase.toLowercase (u : LowerCase) (l : List Char) : List Char := (u.pieces [] l).flatten

section
variable {u : LowerCase} {before a b t kw A B p : List Char} {c d : Char}

/-- What a character becomes, wherever it stands. -/
def LowerCase.LowersTo (u : LowerCase) (c : Char) (p : List Char) : Prop :=
  if c = 'Σ' then p = ['ς'] ∨ p = ['σ'] else p = u.lower c

theorem LowerCase.pieces_cons (u : LowerCase) (before : List Char) (c : Char) (l : List Char) :
    ∃ p, u.LowersTo c p ∧ u.pieces before (c :: l) = p :: u.pieces (before ++ [c]) l := by
  refine ⟨_, ?_, rfl⟩
  rw [LowerCase.LowersTo]
  split
  · split
    · exact Or.inl rfl
    · exact Or.inr rfl
  · rfl

/-- A piece is not empty, and a letter of ASCII stands only at its start. It is the letter of an ASCII character, or
    of one of the two others. -/
theorem LowerCase.LowersTo.piece (h : u.LowersTo c p) : ∃ d q, p = d :: q ∧ (∀ e ∈ q, 128 ≤ e.toNat) ∧
    (d.toNat < 128 → c.toNat < 128 ∧ d = c.toLower ∧ q = [] ∨ d = 'k' ∨ d = 'i' ∧ q ≠ []) := by
  rw [LowerCase.LowersTo] at h
  split at h
  · obtain rfl | rfl := h
    · exact ⟨_, [], rfl, fun e he => absurd he List.not_mem_nil, fun hd => absurd hd (by decide)⟩
    · exact ⟨_, [], rfl, fun e he => absurd he List.not_mem_nil, fun hd => absurd hd (by decide)⟩
  · rw [h]
    by_cases hascii : c.toNat < 128
    · rw [u.ascii c hascii]
      exact ⟨_, [], rfl, fun e he => absurd he List.not_mem_nil, fun _ => Or.inl ⟨hascii, rfl, rfl⟩⟩
    · by_cases hk : c = '\u212A'
      · rw [hk, u.kelvin]
        exact ⟨_, [], rfl, fun e he => absurd he List.not_mem_nil, fun _ => Or.inr (Or.inl rfl)⟩
      · by_cases hi : c = '\u0130'
        · rw [hi, u.dottedI]
          refine ⟨_, _, rfl, fun e he => ?_, fun _ => Or.inr (Or.inr ⟨rfl, List.cons_ne_nil _ _⟩)⟩
          rw [List.mem_singleton.mp he]
          decide
        · obtain ⟨hne, hall⟩ := u.other c (Nat.le_of_not_lt hascii) hk hi
          obtain ⟨d, q, hdq⟩ := List.exists_cons_of_ne_nil hne
          rw [hdq] at hall ⊢
          refine ⟨d, q, rfl, fun e he => hall e (List.mem_cons_of_mem _ he), fun hd => ?_⟩
          have hge := hall d List.mem_cons_self
          omega

/-- The text is what the characters of the other become. -/
def LowerCase.Lowered (u : LowerCase) (l low : List Char) : Prop :=
  ∃ ps, List.Forall₂ u.LowersTo l ps ∧ low = ps.flatten

theorem LowerCase.lowered_toLowercase (u : LowerCase) (l : List Char) : u.Lowered l (u.toLowercase l) := by
  have hpieces : ∀ before, List.Forall₂ u.LowersTo l (u.pieces before l) := by
    induction l with
    | nil => exact fun _ => List.Forall₂.nil
    | cons c l ih =>
      intro before
      obtain ⟨p, hp, hpieces⟩ := u.pieces_cons before c l
      rw [hpieces]
      exact List.Forall₂.cons hp (ih _)
  exact ⟨_, hpieces [], rfl⟩

theorem lowered_cons {l low : List Char} : u.Lowered (c :: l) low ↔
    ∃ p rest, u.LowersTo c p ∧ u.Lowered l rest ∧ low = p ++ rest := by
  refine ⟨fun h => ?_, fun h => ?_⟩
  · obtain ⟨ps, hps, rfl⟩ := h
    obtain ⟨p, qs, hp, hqs, rfl⟩ := List.forall₂_cons_left_iff.mp hps
    exact ⟨p, _, hp, ⟨qs, hqs, rfl⟩, rfl⟩
  · obtain ⟨p, rest, hp, ⟨ps, hps, rfl⟩, rfl⟩ := h
    exact ⟨p :: ps, List.Forall₂.cons hp hps, rfl⟩

theorem lowered_nil {low : List Char} : u.Lowered [] low ↔ low = [] := by
  refine ⟨fun h => ?_, fun h => ⟨[], List.Forall₂.nil, h⟩⟩
  obtain ⟨ps, hps, rfl⟩ := h
  rw [List.forall₂_nil_left_iff.mp hps]
  rfl

theorem lowered_append {low : List Char} (h : u.Lowered (a ++ b) low) :
    ∃ A B, low = A ++ B ∧ u.Lowered a A ∧ u.Lowered b B := by
  induction a generalizing low with
  | nil => exact ⟨[], low, rfl, lowered_nil.mpr rfl, h⟩
  | cons c a ih =>
    obtain ⟨p, rest, hp, hrest, rfl⟩ := lowered_cons.mp h
    obtain ⟨A, B, rfl, hA, hB⟩ := ih hrest
    exact ⟨p ++ A, B, (List.append_assoc ..).symm, lowered_cons.mpr ⟨p, A, hp, hA, rfl⟩, hB⟩

theorem lowered_length {low : List Char} (h : u.Lowered a low) : a.length ≤ low.length := by
  induction a generalizing low with
  | nil => exact Nat.zero_le _
  | cons c a ih =>
    obtain ⟨p, rest, hp, hrest, rfl⟩ := lowered_cons.mp h
    obtain ⟨d, q, rfl, -⟩ := hp.piece
    have hle := ih hrest
    simp only [List.length_cons, List.length_append]
    omega

/-- A text of ASCII is folded letter by letter. -/
theorem lowered_ascii {low : List Char} (hascii : ∀ c ∈ a, c.toNat < 128) (h : u.Lowered a low) :
    low = a.map Char.toLower := by
  induction a generalizing low with
  | nil => exact lowered_nil.mp h
  | cons c a ih =>
    obtain ⟨p, rest, hp, hrest, rfl⟩ := lowered_cons.mp h
    rw [ih (fun d hd => hascii d (List.mem_cons_of_mem _ hd)) hrest]
    have hc := hascii c List.mem_cons_self
    have hsigma : c ≠ 'Σ' := by
      intro heq
      rw [heq] at hc
      exact absurd hc (by decide)
    rw [LowerCase.LowersTo, if_neg hsigma, u.ascii c hc] at hp
    rw [hp]
    rfl

/-! ### Words in the lower case -/

/-- A text of ASCII that no other characters lower to: it has no `k`, and does not end with an `i`. -/
structure LatinWord (kw : List Char) : Prop where
  ascii : ∀ d ∈ kw, d.toNat < 128 ∧ d ≠ 'k'
  noDotted : kw.getLast? ≠ some 'i'

theorem LatinWord.tail (h : LatinWord (d :: kw)) : LatinWord kw := by
  refine ⟨fun e he => h.ascii e (List.mem_cons_of_mem _ he), fun hlast => ?_⟩
  cases kw with
  | nil => cases hlast
  | cons e kw =>
    apply h.noDotted
    rw [List.getLast?_cons_cons]
    exact hlast

/-- A word at the start of the lower case is one at the start of the text. -/
theorem lowered_word_start (hkw : LatinWord kw) (h : u.Lowered t (kw ++ B)) :
    ∃ w b, t = w ++ b ∧ w.map Char.toLower = kw ∧ u.Lowered b B := by
  induction kw generalizing t with
  | nil => exact ⟨[], t, rfl, rfl, h⟩
  | cons d kw ih =>
    cases t with
    | nil => cases lowered_nil.mp h
    | cons c t =>
      obtain ⟨p, rest, hp, hrest, hlow⟩ := lowered_cons.mp h
      obtain ⟨e, q, rfl, hq, hhead⟩ := hp.piece
      rw [List.cons_append, List.cons_append, List.cons.injEq] at hlow
      obtain ⟨rfl, hlow⟩ := hlow
      obtain ⟨hd, hnotk⟩ := hkw.ascii d List.mem_cons_self
      obtain ⟨-, hc, rfl⟩ | hk | ⟨rfl, hne⟩ := hhead hd
      · rw [List.nil_append] at hlow
        obtain ⟨w, b, rfl, hw, hb⟩ := ih hkw.tail (hlow ▸ hrest)
        exact ⟨c :: w, b, rfl, by rw [List.map_cons, hw, hc], hb⟩
      · exact absurd hk hnotk
      · -- what follows the dotless letter is no letter of the word
        exfalso
        cases kw with
        | nil => exact hkw.noDotted rfl
        | cons f kw =>
          obtain ⟨g, q, rfl⟩ := List.exists_cons_of_ne_nil hne
          rw [List.cons_append, List.cons_append, List.cons.injEq] at hlow
          have hf := (hkw.ascii f (List.mem_cons_of_mem _ List.mem_cons_self)).1
          have hg := hq g List.mem_cons_self
          rw [hlow.1] at hf
          omega

/-- A word in the lower case is one in the text. -/
theorem lowered_word (hkw : LatinWord kw) (hne : kw ≠ []) (h : u.Lowered t (A ++ kw ++ B)) :
    ∃ a w b, t = a ++ w ++ b ∧ u.Lowered a A ∧ w.map Char.toLower = kw ∧ u.Lowered b B := by
  induction t generalizing A with
  | nil =>
    have hnil := lowered_nil.mp h
    exact absurd (List.append_eq_nil_iff.mp (List.append_eq_nil_iff.mp hnil).1).2 hne
  | cons c t ih =>
    cases A with
    | nil =>
      obtain ⟨w, b, ht, hw, hb⟩ := lowered_word_start hkw h
      exact ⟨[], w, b, ht, lowered_nil.mpr rfl, hw, hb⟩
    | cons d A =>
      obtain ⟨p, rest, hp, hrest, hlow⟩ := lowered_cons.mp h
      obtain ⟨e, q, rfl, hq, -⟩ := hp.piece
      rw [List.cons_append, List.cons_append, List.cons_append, List.cons.injEq, List.append_assoc] at hlow
      obtain ⟨rfl, hlow⟩ := hlow
      -- the rest of the text before the word
      have hbefore : ∃ A', A = q ++ A' ∧ rest = A' ++ kw ++ B := by
        obtain ⟨q', rfl, hword⟩ | ⟨A', rfl, hrest'⟩ := List.append_eq_append_iff.mp hlow
        · cases q' with
          | nil => exact ⟨[], by simp only [List.append_nil], hword.symm⟩
          | cons f q' =>
            obtain ⟨g, kw, rfl⟩ := List.exists_cons_of_ne_nil hne
            rw [List.cons_append, List.cons_append, List.cons.injEq] at hword
            have hg := (hkw.ascii g List.mem_cons_self).1
            have hf := hq f (List.mem_append_right _ List.mem_cons_self)
            rw [hword.1] at hg
            omega
        · exact ⟨A', rfl, by rw [List.append_assoc]; exact hrest'⟩
      obtain ⟨A', rfl, rfl⟩ := hbefore
      obtain ⟨a, w, b, rfl, ha, hw, hb⟩ := ih hrest
      exact ⟨c :: a, w, b, rfl, lowered_cons.mpr ⟨_, A', hp, ha, rfl⟩, hw, hb⟩

/-! ### What does not depend on the place -/

/-- The sizes of the characters, and a property of each. -/
def shape (f : Char → Bool) (l : List Char) : List (Nat × Bool) := l.map fun c => (c.utf8Size, f c)

theorem byteLen_of_shape {f : Char → Bool} (h : shape f a = shape f b) : byteLen a = byteLen b := by
  induction a generalizing b with
  | nil =>
    rw [List.map_eq_nil_iff.mp h.symm]
  | cons c a ih =>
    cases b with
    | nil => cases h
    | cons d b =>
      simp only [shape, List.map_cons, List.cons.injEq, Prod.mk.injEq] at h
      rw [byteLen_cons, byteLen_cons, h.1.1, ih h.2]

theorem length_of_shape {f : Char → Bool} (h : shape f a = shape f b) : a.length = b.length := by
  have hlen := congrArg List.length h
  simpa [shape] using hlen

/-- Two lower cases of a text have one shape: a sigma has the same at the end of a word. -/
theorem lowered_shape {f : Char → Bool} (hf : f 'ς' = f 'σ') (ha : u.Lowered t A) (hb : u.Lowered t B) :
    shape f A = shape f B := by
  induction t generalizing A B with
  | nil => rw [lowered_nil.mp ha, lowered_nil.mp hb]
  | cons c t ih =>
    obtain ⟨p, A, hp, hA, rfl⟩ := lowered_cons.mp ha
    obtain ⟨q, B, hq, hB, rfl⟩ := lowered_cons.mp hb
    have hpq : shape f p = shape f q := by
      have hsigma : shape f ['ς'] = shape f ['σ'] := by
        rw [shape, shape, List.map_singleton, List.map_singleton, hf]
        rfl
      rw [LowerCase.LowersTo] at hp hq
      split at hp
      · rename_i hc
        rw [if_pos hc] at hq
        obtain rfl | rfl := hp
        · obtain rfl | rfl := hq
          · rfl
          · exact hsigma
        · obtain rfl | rfl := hq
          · exact hsigma.symm
          · rfl
      · rename_i hc
        rw [if_neg hc] at hq
        rw [hp, hq]
    have htail := ih hA hB
    simp only [shape, List.map_append] at hpq htail ⊢
    rw [hpq, htail]

theorem ends_of_shape {f : Char → Bool} (h : shape f a = shape f b) :
    a.getLast?.any f = b.getLast?.any f ∧ a.head?.any f = b.head?.any f := by
  have hf := congrArg (List.map Prod.snd) h
  simp only [shape, List.map_map] at hf
  have hlast := congrArg (fun l : List Bool => l.getLast?.any id) hf
  have hhead := congrArg (fun l : List Bool => l.head?.any id) hf
  simp only [List.getLast?_map, List.head?_map, Option.any_map] at hlast hhead
  exact ⟨hlast, hhead⟩

end

/-- The lower case of ASCII, with the two other characters that reach into it. -/
def latin : LowerCase where
  lower c := if c = '\u212A' then ['k'] else if c = '\u0130' then ['i', '\u0307'] else [c.toLower]
  finalSigma _ _ := false
  ascii c hc := by
    have hne : c ≠ '\u212A' ∧ c ≠ '\u0130' := by
      refine ⟨fun h => ?_, fun h => ?_⟩
      · rw [h] at hc
        exact absurd hc (by decide)
      · rw [h] at hc
        exact absurd hc (by decide)
    rw [if_neg hne.1, if_neg hne.2]
  kelvin := rfl
  dottedI := rfl
  other c hc h h' := by
    rw [if_neg h, if_neg h']
    refine ⟨List.cons_ne_nil _ _, fun d hd => ?_⟩
    rw [List.mem_singleton.mp hd]
    obtain hsame | hlatin := toLower_cases c
    · rw [hsame]
      exact hc
    · omega

end WhaleIntelligence
