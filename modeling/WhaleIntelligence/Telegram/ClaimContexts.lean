import Mathlib.Data.List.ReduceOption
import WhaleIntelligence.Telegram.Offsets

/- The contexts of claims.

   `findClaim` finds the leftmost word-bounded occurrence of a keyword in the
   lower-case text (`findClaim_spec`), and that is the lower case of an occurrence in
   the text (`lowered_word`). But it cuts the context at the byte offset that the
   occurrence has in the lower case. So the parser returns, with faithful contexts,
   exactly where the same bytes of the text are characters of it, near enough to the
   keyword (`Tolerable`). -/
namespace WhaleIntelligence.Telegram
open WhaleIntelligence

/-- No word goes on to either side. -/
def Bounded (before after : List Char) : Prop :=
  before.getLast?.any isWordChar = false ∧ after.head?.any isWordChar = false

instance (before after : List Char) : Decidable (Bounded before after) := inferInstanceAs (Decidable (_ ∧ _))

/-- Between the two parts of the text stands the keyword, in any case and as a word. -/
def Occurs (u : LowerCase) (kw t a b : List Char) : Prop :=
  ∃ w, t = a ++ w ++ b ∧ w.map Char.toLower = kw ∧ Bounded (u.toLowercase a) (u.toLowercase b)

/-- The context is a part of the text with the keyword in it. -/
def Faithful (u : LowerCase) (t : List Char) (claim : ParsedClaim) : Prop :=
  claim.context.toList <:+: t ∧ ∃ a b, Occurs u claim.keyword.toList claim.context.toList a b

/-- Where the leftmost occurrence of the keyword has so many bytes of lower-case text before it, these many bytes of
    the text itself end between characters, the bytes for the keyword after them do too, and the keyword occurs
    within thirty characters of these. -/
def Tolerable (u : LowerCase) (kw t : List Char) : Prop :=
  ∀ a b, Occurs u kw t a b → (∀ a' b', Occurs u kw t a' b' → a.length ≤ a'.length) →
    ∃ a₂ w₂ b₂, t = a₂ ++ w₂ ++ b₂ ∧ byteLen a₂ = byteLen (u.toLowercase a) ∧ byteLen w₂ = byteLen kw ∧
      ∃ a' b', Occurs u kw (window a₂ w₂ b₂) a' b'

/-! ## The search for a keyword -/

section
variable {trimmed lower : List Char} {keyword claimType : String} {n : Nat}

/-- The word-bounded occurrences in the lower-case text. -/
def BoundedAt (lower kw A B : List Char) : Prop := lower = A ++ kw ++ B ∧ Bounded A B

/-- The shorter of two beginnings of a text is a beginning of the longer. -/
theorem behind_of_length_le {P R A S : List Char} (h : P ++ R = A ++ S) (hle : P.length ≤ A.length) :
    ∃ A', A = P ++ A' ∧ R = A' ++ S := by
  obtain ⟨A', rfl⟩ := List.prefix_of_prefix_length_le ⟨R, h⟩ (List.prefix_append A S) hle
  rw [List.append_assoc] at h
  exact ⟨A', rfl, List.append_cancel_left h⟩

theorem getLast?_append_of_ne_nil {A w : List Char} (hw : w ≠ []) : (A ++ w).getLast? = w.getLast? := by
  rw [List.getLast?_append]
  cases hlast : w.getLast? with
  | none => exact absurd (List.getLast?_eq_none_iff.mp hlast) hw
  | some c => rfl

/-- A word-bounded occurrence does not start inside an occurrence of the keyword. -/
theorem not_bounded_inside {kw P a b A' B : List Char} (hword : ∀ c ∈ kw, isWordChar c = true)
    (hsame : a ++ kw ++ b = A' ++ kw ++ B) (hlow : a.length < A'.length) (hhigh : A'.length < (a ++ kw).length) :
    ¬ Bounded (P ++ A') B := by
  intro hbounded
  rw [List.append_assoc, List.append_assoc] at hsame
  obtain ⟨w, rfl, hrest⟩ := behind_of_length_le hsame hlow.le
  simp only [List.length_append] at hlow hhigh
  obtain ⟨v, hv, -⟩ := behind_of_length_le hrest.symm (by omega : w.length ≤ kw.length)
  have hw : w ≠ [] := by
    rintro rfl
    simp at hlow
  obtain ⟨c, hc⟩ := Option.ne_none_iff_exists'.mp fun hnone => hw (List.getLast?_eq_none_iff.mp hnone)
  have hin : c ∈ kw := hv ▸ List.mem_append_left _ (List.mem_of_getLast? hc)
  have hlast := hbounded.1
  rw [← List.append_assoc, getLast?_append_of_ne_nil hw, hc, Option.any_some, hword c hin] at hlast
  cases hlast

/-- After an occurrence that is not bounded, the next bounded one comes behind it. -/
theorem boundedAt_behind {kw P a b A' B : List Char} (hword : ∀ c ∈ kw, isWordChar c = true)
    (hunbounded : ¬ Bounded (P ++ a) b) (hR : a ++ kw ++ b = A' ++ kw ++ B) (hle : a.length ≤ A'.length)
    (h : Bounded (P ++ A') B) : (P ++ a ++ kw).length ≤ (P ++ A').length := by
  by_contra hshort
  simp only [List.length_append, not_le] at hshort
  by_cases hsame : A'.length = a.length
  · have hcut : a ++ (kw ++ b) = A' ++ (kw ++ B) := by
      rw [List.append_assoc, List.append_assoc] at hR
      exact hR
    obtain ⟨rfl, hB⟩ := List.append_inj hcut hsame.symm
    obtain rfl := List.append_cancel_left hB
    exact hunbounded h
  · refine not_bounded_inside hword hR (by omega) ?_ h
    simp only [List.length_append]
    omega

section
variable {P a b : List Char} (hlower : lower = P ++ (a ++ keyword.toList ++ b))
  (hfind : find keyword.toList (a ++ keyword.toList ++ b) = some (byteLen a))
include hlower

theorem splitAtByte_found :
    splitAtByte lower (byteLen P) = some (P, a ++ keyword.toList ++ b) ∧
      splitAtByte lower (byteLen P + byteLen a) = some (P ++ a, keyword.toList ++ b) := by
  rw [hlower]
  refine ⟨splitAtByte_append P _, ?_⟩
  rw [← byteLen_append, splitAtByte_iff]
  exact ⟨by simp, rfl⟩

include hfind

/-- A round that finds a bounded occurrence returns its context. -/
theorem findClaim_bounded (hbounded : Bounded (P ++ a) b) :
    findClaim trimmed lower keyword claimType (n + 1) (byteLen P) =
      (contextAround trimmed (byteLen (P ++ a)) (byteLen keyword.toList)).map fun context =>
        some ⟨claimType, keyword, context⟩ := by
  obtain ⟨hsplit, hfound⟩ := splitAtByte_found hlower
  obtain ⟨hbefore, hafter⟩ := hbounded
  simp only [findClaim, hsplit, Option.bind_eq_bind, Option.bind_some, hfind, hfound, splitAtByte_append, hbefore,
    hafter, Bool.not_false, Bool.and_self, if_true, byteLen_append]
  cases contextAround trimmed (byteLen P + byteLen a) (byteLen keyword.toList) <;> rfl

/-- A round that finds another occurrence goes on behind it. -/
theorem findClaim_unbounded (hunbounded : ¬ Bounded (P ++ a) b) :
    findClaim trimmed lower keyword claimType (n + 1) (byteLen P) =
      findClaim trimmed lower keyword claimType n (byteLen (P ++ a ++ keyword.toList)) := by
  obtain ⟨hsplit, hfound⟩ := splitAtByte_found hlower
  have hno : (!(P ++ a).getLast?.any isWordChar && !b.head?.any isWordChar) = false := by
    rw [Bounded, ← Bool.not_eq_true', ← Bool.not_eq_true', ← Bool.and_eq_true] at hunbounded
    exact Bool.eq_false_iff.mpr hunbounded
  simp only [findClaim, hsplit, Option.bind_eq_bind, Option.bind_some, hfind, hfound, splitAtByte_append, hno,
    Bool.false_eq_true, if_false, byteLen_append]

end

/-- From an offset that no word-bounded occurrence is before, the loop finds the leftmost one if there is any. -/
theorem findClaim_spec (hkw : keyword.toList ≠ []) (hword : ∀ c ∈ keyword.toList, isWordChar c = true) (P R : List Char)
    (hlower : lower = P ++ R) (hrounds : R.length < n)
    (hbehind : ∀ A B, BoundedAt lower keyword.toList A B → P.length ≤ A.length) :
    ((∀ A B, ¬ BoundedAt lower keyword.toList A B) ∧
        findClaim trimmed lower keyword claimType n (byteLen P) = some none) ∨
      ∃ A B, BoundedAt lower keyword.toList A B ∧
        (∀ A' B', BoundedAt lower keyword.toList A' B' → A.length ≤ A'.length) ∧
        findClaim trimmed lower keyword claimType n (byteLen P) =
          (contextAround trimmed (byteLen A) (byteLen keyword.toList)).map fun context =>
            some ⟨claimType, keyword, context⟩ := by
  induction n generalizing P R with
  | zero => exact absurd hrounds (Nat.not_lt_zero _)
  | succ n ih =>
    -- an occurrence that is not before the offset is one in the rest
    have hrest : ∀ A B, BoundedAt lower keyword.toList A B → ∃ A', A = P ++ A' ∧ R = A' ++ keyword.toList ++ B := by
      intro A B h
      have hle := hbehind A B h
      have hsame := h.1
      rw [hlower, List.append_assoc] at hsame
      obtain ⟨A', hA, hR⟩ := behind_of_length_le hsame hle
      exact ⟨A', hA, by rw [hR, List.append_assoc]⟩
    cases hfind : find keyword.toList R with
    | none =>
      refine Or.inl ⟨fun A B h => ?_, ?_⟩
      · obtain ⟨A', -, hR⟩ := hrest A B h
        exact find_eq_none hfind A' B hR
      · have hsplit : splitAtByte lower (byteLen P) = some (P, R) := by
          rw [hlower]
          exact splitAtByte_append P R
        simp [findClaim, hsplit, hfind]
    | some pos =>
      obtain ⟨a, b, rfl, rfl, hmin⟩ := find_iff.mp hfind
      by_cases hbounded : Bounded (P ++ a) b
      · refine Or.inr ⟨P ++ a, b, ⟨by rw [hlower]; simp, hbounded⟩, fun A B h => ?_,
          findClaim_bounded hlower hfind hbounded⟩
        obtain ⟨A', rfl, hR⟩ := hrest A B h
        have hle := hmin A' B hR
        simp only [List.length_append]
        omega
      · rw [findClaim_unbounded hlower hfind hbounded]
        refine ih (P ++ a ++ keyword.toList) b (by rw [hlower]; simp) ?_ ?_
        · have hpos := List.length_pos_of_ne_nil hkw
          simp only [List.length_append] at hrounds
          omega
        · intro A B h
          obtain ⟨A', rfl, hR⟩ := hrest A B h
          exact boundedAt_behind hword hbounded hR (hmin A' B hR) h.2

end

/-! ## Occurrences in the text and in its lower case -/

section
variable {u : LowerCase} {t kw a b a' b' A B A' B' : List Char}

theorem bounded_of_lowered {a b A A' B B' : List Char} (hA : u.Lowered a A) (hA' : u.Lowered a A')
    (hB : u.Lowered b B) (hB' : u.Lowered b B') (h : Bounded A B) : Bounded A' B' := by
  have hf : isWordChar 'ς' = isWordChar 'σ' := by decide
  obtain ⟨hlast, -⟩ := ends_of_shape (lowered_shape hf hA hA')
  obtain ⟨-, hhead⟩ := ends_of_shape (lowered_shape hf hB hB')
  exact ⟨hlast ▸ h.1, hhead ▸ h.2⟩

/-- Characters that fold to a word of ASCII are of ASCII. -/
theorem ascii_of_folds {w : List Char} (hkw : LatinWord kw) (hw : w.map Char.toLower = kw) :
    ∀ c ∈ w, c.toNat < 128 := by
  intro c hc
  have hlow := (hkw.ascii c.toLower (hw ▸ List.mem_map_of_mem hc)).1
  obtain hsame | ⟨-, hhigh, -⟩ := toLower_cases c
  · rw [hsame] at hlow
    exact hlow
  · omega

/-- An occurrence in the lower case is the lower case of one in the text. -/
theorem occurs_of_boundedAt (hkw : LatinWord kw) (hne : kw ≠ []) (h : BoundedAt (u.toLowercase t) kw A B) :
    ∃ a b, Occurs u kw t a b ∧ u.Lowered a A := by
  obtain ⟨hlow, hbounded⟩ := h
  obtain ⟨a, w, b, rfl, ha, hw, hb⟩ := lowered_word hkw hne (hlow ▸ u.lowered_toLowercase t)
  exact ⟨a, b, ⟨w, rfl, hw, bounded_of_lowered ha (u.lowered_toLowercase a) hb (u.lowered_toLowercase b) hbounded⟩, ha⟩

theorem boundedAt_of_occurs (hkw : LatinWord kw) (h : Occurs u kw t a b) :
    ∃ A B, BoundedAt (u.toLowercase t) kw A B ∧ u.Lowered a A := by
  obtain ⟨w, rfl, hw, hbounded⟩ := h
  obtain ⟨AW, B, hlow, hAW, hB⟩ := lowered_append (u.lowered_toLowercase (a ++ w ++ b))
  obtain ⟨A, W, rfl, hA, hW⟩ := lowered_append hAW
  obtain rfl : W = kw := (lowered_ascii (ascii_of_folds hkw hw) hW).trans hw
  exact ⟨A, B, ⟨hlow, bounded_of_lowered (u.lowered_toLowercase a) hA (u.lowered_toLowercase b) hB hbounded⟩, hA⟩

/-- A longer beginning of a text has a longer lower case. -/
theorem lowered_length_lt (ha : a <+: t) (ha' : a' <+: t) (hA : u.Lowered a A) (hA' : u.Lowered a' A')
    (hlt : a.length < a'.length) : A.length < A'.length := by
  obtain ⟨v, rfl⟩ := List.prefix_of_prefix_length_le ha ha' hlt.le
  obtain ⟨X, V, rfl, hX, hV⟩ := lowered_append hA'
  have hsame : X.length = A.length := length_of_shape (f := isWordChar) (lowered_shape (by decide) hX hA)
  have hv := lowered_length hV
  simp only [List.length_append] at hlt ⊢
  omega

/-- The leftmost occurrence in the lower case is that of the leftmost one in the text. -/
theorem leftmost_of_boundedAt (hkw : LatinWord kw) (h : Occurs u kw t a b) (hA : u.Lowered a A)
    (hmin : ∀ A' B', BoundedAt (u.toLowercase t) kw A' B' → A.length ≤ A'.length) :
    ∀ a' b', Occurs u kw t a' b' → a.length ≤ a'.length := by
  have hbegin : ∀ {a b}, Occurs u kw t a b → a <+: t := by
    intro a b h
    obtain ⟨w, rfl, -⟩ := h
    exact ⟨w ++ b, (List.append_assoc ..).symm⟩
  intro a' b' h'
  obtain ⟨A', B', hbounded, hA'⟩ := boundedAt_of_occurs hkw h'
  by_contra hlt
  have hle := hmin A' B' hbounded
  have hgt := lowered_length_lt (hbegin h') (hbegin h) hA' hA (Nat.lt_of_not_le hlt)
  omega

/-- A keyword that the parser looks for. -/
structure Keyword (kw : List Char) : Prop extends LatinWord kw where
  nonempty : kw ≠ []
  word : ∀ c ∈ kw, isWordChar c = true

/-- Two leftmost occurrences of a keyword start at one place. -/
theorem occurs_inj (h : Occurs u kw t a b) (h' : Occurs u kw t a' b') (hle : a.length ≤ a'.length)
    (hge : a'.length ≤ a.length) : a = a' := by
  obtain ⟨w, rfl, -⟩ := h
  obtain ⟨w', hsame, -⟩ := h'
  rw [List.append_assoc, List.append_assoc] at hsame
  exact (List.append_inj hsame (by omega)).1

theorem window_infix (a w b : List Char) : window a w b <:+: a ++ w ++ b := by
  refine ⟨a.take (a.length - 30), b.drop 30, ?_⟩
  have ha := List.take_append_drop (a.length - 30) a
  have hb := List.take_append_drop 30 b
  calc a.take (a.length - 30) ++ window a w b ++ b.drop 30
      = (a.take (a.length - 30) ++ a.drop (a.length - 30)) ++ w ++ (b.take 30 ++ b.drop 30) := by
        simp only [window, List.append_assoc]
    _ = a ++ w ++ b := by rw [ha, hb]

/-- What the parser returns for a keyword is a faithful context, if any, exactly where the offset is tolerable. -/
theorem findClaim_faithful_iff {keyword claimType : String} (hkw : Keyword keyword.toList) :
    (∃ r, findClaim t (u.toLowercase t) keyword claimType ((u.toLowercase t).length + 1) 0 = some r ∧
        ∀ claim, r = some claim → Faithful u t claim) ↔ Tolerable u keyword.toList t := by
  have hspec := @findClaim_spec t (u.toLowercase t) keyword claimType _ hkw.nonempty hkw.word [] (u.toLowercase t) rfl
    (Nat.lt_succ_self _) fun _ _ _ => Nat.zero_le _
  rw [byteLen_nil, Nat.succ_eq_add_one] at hspec
  obtain ⟨hnone, hresult⟩ | ⟨A, B, hbounded, hmin, hresult⟩ := hspec
  · refine ⟨fun _ a b h _ => ?_, fun _ => ⟨none, hresult, fun claim h => (by cases h)⟩⟩
    obtain ⟨A, B, hAB, -⟩ := boundedAt_of_occurs hkw.toLatinWord h
    exact absurd hAB (hnone A B)
  · obtain ⟨a, b, hoccurs, hA⟩ := occurs_of_boundedAt hkw.toLatinWord hkw.nonempty hbounded
    have hleft := leftmost_of_boundedAt hkw.toLatinWord hoccurs hA hmin
    have hbytes : byteLen (u.toLowercase a) = byteLen A :=
      byteLen_of_shape (f := isWordChar) (lowered_shape (by decide) (u.lowered_toLowercase a) hA)
    rw [hresult]
    refine ⟨fun h a' b' hoccurs' hleft' => ?_, fun h => ?_⟩
    · have hsame : a = a' := occurs_inj hoccurs hoccurs' (hleft a' b' hoccurs') (hleft' a b hoccurs)
      obtain ⟨r, hr, hfaithful⟩ := h
      obtain ⟨context, hcontext, rfl⟩ := Option.map_eq_some_iff.mp hr
      obtain ⟨a₂, w₂, b₂, ht, ha₂, hw₂, rfl⟩ := contextAround_iff.mp hcontext
      have hin := (hfaithful _ rfl).2
      simp only [String.toList_ofList] at hin
      exact ⟨a₂, w₂, b₂, ht, by rw [ha₂, ← hsame, hbytes], hw₂, hin⟩
    · obtain ⟨a₂, w₂, b₂, ht, ha₂, hw₂, hin⟩ := h a b hoccurs hleft
      have hcontext := contextAround_iff.mpr ⟨a₂, w₂, b₂, ht, ha₂.trans hbytes, hw₂, rfl⟩
      refine ⟨_, by rw [hcontext]; rfl, fun claim hclaim => ?_⟩
      obtain rfl := Option.some.inj hclaim
      refine ⟨?_, ?_⟩
      · rw [String.toList_ofList, ht]
        exact window_infix a₂ w₂ b₂
      · rw [String.toList_ofList]
        exact hin

end

/-! ## Messages -/

/-- Every keyword of the table is a word of ASCII letters without a `k`, and none ends with an `i`. -/
theorem keyword_of_mem {k : String × String} (hk : k ∈ CLAIM_KEYWORDS) : Keyword k.1.toList := by
  have hall : CLAIM_KEYWORDS.all (fun k => k.1.toList.all
    (fun c => decide (c.toNat < 128) && c != 'k' && isWordChar c) &&
      !k.1.toList.isEmpty && k.1.toList.getLast? != some 'i') = true := by
    decide +kernel
  have h := List.all_eq_true.mp hall k hk
  simp only [Bool.and_eq_true, List.all_eq_true, decide_eq_true_eq, bne_iff_ne, Bool.not_eq_true',
    List.isEmpty_eq_false_iff] at h
  obtain ⟨⟨hchars, hne⟩, hlast⟩ := h
  exact ⟨⟨fun d hd => (hchars d hd).1, hlast⟩, hne, fun c hc => (hchars c hc).2⟩

section
variable {α β : Type} {f : α → Option (Option β)} {P : β → Prop}

/-- A loop over a list returns, and what it finds is good, exactly where each round does and is. -/
theorem mapM_reduceOption_iff (l : List α) : (∃ found, l.mapM f = some found ∧ ∀ y ∈ found.reduceOption, P y) ↔
    ∀ x ∈ l, ∃ r, f x = some r ∧ ∀ y, r = some y → P y := by
  induction l with
  | nil => simp [List.reduceOption_nil]
  | cons x l ih =>
    rw [List.forall_mem_cons, ← ih]
    simp only [List.mapM_cons, Option.bind_eq_bind, Option.bind_eq_some_iff, Option.pure_def, Option.some.injEq]
    refine ⟨fun h => ?_, fun h => ?_⟩
    · obtain ⟨found, ⟨r, hr, rest, hrest, rfl⟩, hgood⟩ := h
      refine ⟨⟨r, hr, ?_⟩, rest, hrest, fun y hy => hgood y ?_⟩
      · rintro y rfl
        exact hgood y (List.reduceOption_mem_iff.mpr List.mem_cons_self)
      · rw [List.reduceOption_mem_iff] at hy ⊢
        exact List.mem_cons_of_mem _ hy
    · obtain ⟨⟨r, hr, hgood⟩, rest, hrest, hgoods⟩ := h
      refine ⟨r :: rest, ⟨r, hr, rest, hrest, rfl⟩, fun y hy => ?_⟩
      rw [List.reduceOption_mem_iff] at hy
      obtain hhead | htail := List.mem_cons.mp hy
      · exact hgood y hhead.symm
      · exact hgoods y (List.reduceOption_mem_iff.mpr htail)

end

/-- A text of no characters has no occurrence of a keyword. -/
theorem tolerable_nil (u : LowerCase) {kw : List Char} (hkw : kw ≠ []) : Tolerable u kw [] := by
  intro a b h
  obtain ⟨w, hw, rfl, -⟩ := h
  obtain ⟨rfl, rfl⟩ := List.append_eq_nil_iff.mp (List.append_eq_nil_iff.mp hw.symm).1
  exact absurd rfl hkw

/-- The parser returns, and every context is a part of the trimmed text with the keyword in it, exactly where each
    keyword's offset is tolerable. -/
theorem parseMessageText_faithful_iff (x : TextCrates) (text : String) :
    (∃ parsed, parseMessageText x (some text) = some parsed ∧
        ∀ claim ∈ parsed.claims, Faithful x.toLowerCase (trim text).toList claim) ↔
      ∀ k ∈ CLAIM_KEYWORDS, Tolerable x.toLowerCase k.1.toList (trim text).toList := by
  rw [parseMessageText]
  by_cases hempty : (trim text).toList.isEmpty = true
  · have hnil := List.isEmpty_iff.mp hempty
    rw [if_pos hempty, hnil]
    refine ⟨fun _ k hk => tolerable_nil _ (keyword_of_mem hk).nonempty, fun _ => ⟨_, rfl, fun claim h => ?_⟩⟩
    cases h
  · rw [if_neg hempty, extractUrls_eq, extractBase58Candidates_eq]
    have hloop := mapM_reduceOption_iff (P := Faithful x.toLowerCase (trim text).toList)
      (f := fun k => findClaim (trim text).toList (x.toLowercase (trim text).toList) k.1 k.2
        ((x.toLowercase (trim text).toList).length + 1) 0) CLAIM_KEYWORDS
    have hrounds : ∀ k ∈ CLAIM_KEYWORDS, _ := fun k hk =>
      @findClaim_faithful_iff x.toLowerCase (trim text).toList k.1 k.2 (keyword_of_mem hk)
    rw [← forall₂_congr hrounds, ← hloop]
    simp only [Option.bind_eq_bind, Option.bind_some, Option.bind_eq_some_iff, Option.pure_def, Option.some.injEq]
    refine ⟨fun h => ?_, fun h => ?_⟩
    · obtain ⟨parsed, ⟨claims, hclaims, rfl⟩, hfaithful⟩ := h
      exact ⟨claims, hclaims, hfaithful⟩
    · obtain ⟨claims, hclaims, hfaithful⟩ := h
      exact ⟨_, ⟨claims, hclaims, rfl⟩, hfaithful⟩

/-- The lower case of the dotted capital I is a byte longer, so the offset of the keyword is past its first letter and
    the bytes from there on run out: the parser panics. -/
theorem dottedI_panics : parseMessageText latinCrates (some "\u0130 buy") = none := by
  decide +kernel

end WhaleIntelligence.Telegram
