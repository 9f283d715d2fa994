import Mathlib.Data.List.Infix
import Mathlib.Data.List.TakeWhile
import WhaleIntelligence.Telegram.Offsets

/- The URLs of a text.

   `extract_urls` looks for `http://` in the whole remainder, and for `https://` only
   where there is none. `scanUrls` is the scan that takes whichever comes first. A round
   of the code is a step of it unless the code skips an `https://` that way, and then the
   two disagree on this very URL. So the code is complete exactly where an `https://`
   with an `http://` behind it is always inside of an `http://` URL
   (`extractUrls_complete_iff`). -/
namespace WhaleIntelligence.Telegram
open WhaleIntelligence

def http : List Char := "http://".toList

def https : List Char := "https://".toList

/-- A URL starts at the beginning of the text. -/
def startsUrl (l : List Char) : Bool := http.isPrefixOf l || https.isPrefixOf l

/-- The URLs of a text from left to right, by the next occurrence of either scheme. -/
def scanUrls : List Char → List (List Char)
  | [] => []
  | c :: l => if startsUrl (c :: l) then (c :: urlRun l) :: scanUrls (behindRun l) else scanUrls l
termination_by l => l.length
decreasing_by
  · have hle := (List.dropWhile_sublist (l := l) fun c => !endsUrl c).length_le
    simp only [behindRun, List.length_cons]
    omega
  · simp

/-- A URL that starts with `http://` goes on behind these characters. -/
def InHttpUrl (a : List Char) : Prop := ∃ w, w <:+ a ∧ http <+: w ∧ ∀ c ∈ w, endsUrl c = false

/-- An `https://` with an `http://` behind it is inside of an `http://` URL. -/
def SchemesApart (l : List Char) : Prop := ∀ a b, l = a ++ https ++ b → http <:+: b → InHttpUrl a

section
variable {a b l r s x y : List Char} {n : Nat}

/-! ## Schemes -/

theorem startsUrl_iff : startsUrl l = true ↔ http <+: l ∨ https <+: l := by
  simp [startsUrl]

/-- Two schemes do not overlap. -/
theorem scheme_apart {p q : List Char} (hpq : p = http ∧ q = https ∨ p = https ∧ q = http)
    (h : p ++ b = x ++ (q ++ y)) : p <+: x := by
  have htails : ∀ z ∈ p.tails, z ≠ [] → q.isPrefixOf z = false ∧ z.isPrefixOf q = false := by
    obtain ⟨rfl, rfl⟩ | ⟨rfl, rfl⟩ := hpq
    · decide
    · decide
  obtain ⟨z, hx, -⟩ | ⟨z, hp, hz⟩ := List.append_eq_append_iff.mp h
  · exact ⟨z, hx.symm⟩
  · by_cases hnil : z = []
    · rw [hp, hnil, List.append_nil]
    · exfalso
      obtain ⟨hqz, hzq⟩ := htails z ((List.mem_tails z p).mpr ⟨x, hp.symm⟩) hnil
      obtain hle | hle := List.prefix_or_prefix_of_prefix (List.prefix_append q y) ⟨b, hz.symm⟩
      · rw [List.isPrefixOf_iff_prefix.mpr hle] at hqz
        cases hqz
      · rw [List.isPrefixOf_iff_prefix.mpr hle] at hzq
        cases hzq

/-- No URL starts in the first part. -/
def NoScheme (a s : List Char) : Prop := ∀ x y, a = x ++ y → y ≠ [] → startsUrl (y ++ s) = false

/-- No URL starts before the leftmost schemes. -/
theorem noScheme_of_le (hr : r = a ++ s) (hhttp : ∀ x t, r = x ++ http ++ t → a.length ≤ x.length)
    (hhttps : ∀ x t, r = x ++ https ++ t → a.length ≤ x.length) : NoScheme a s := by
  intro x y hxy hy
  have hlt : x.length < a.length := by
    have hpos := List.length_pos_of_ne_nil hy
    rw [hxy, List.length_append]
    omega
  rw [← Bool.not_eq_true, startsUrl_iff]
  rintro (⟨t, ht⟩ | ⟨t, ht⟩)
  · have hle := hhttp x t (by rw [hr, hxy, List.append_assoc, List.append_assoc, ht])
    omega
  · have hle := hhttps x t (by rw [hr, hxy, List.append_assoc, List.append_assoc, ht])
    omega

/-! ## Steps of the scan -/

/-- The scan passes over characters that no URL starts in. -/
theorem scanUrls_skip (h : NoScheme a s) : scanUrls (a ++ s) = scanUrls s := by
  induction a with
  | nil => rfl
  | cons c a ih =>
    have hno := h [] (c :: a) rfl (List.cons_ne_nil _ _)
    rw [List.cons_append] at hno ⊢
    rw [scanUrls, hno, if_neg Bool.false_ne_true]
    apply ih
    intro x y hxy hy
    exact h (c :: x) y (by rw [hxy, List.cons_append]) hy

theorem urlRun_append_of_ends {p : List Char} (hp : ∀ c ∈ p, endsUrl c = false) (l : List Char) :
    urlRun (p ++ l) = p ++ urlRun l :=
  List.takeWhile_append_of_pos fun c hc => by rw [hp c hc]; rfl

theorem startsUrl_cons (h : startsUrl s = true) : ∃ t, s = 'h' :: t := by
  obtain ⟨t, rfl⟩ | ⟨t, rfl⟩ := startsUrl_iff.mp h
  · exact ⟨_, rfl⟩
  · exact ⟨_, rfl⟩

theorem scanUrls_start (h : startsUrl s = true) : scanUrls s = urlRun s :: scanUrls (behindRun s) := by
  obtain ⟨t, rfl⟩ := startsUrl_cons h
  have hend : endsUrl 'h' = false := by decide
  rw [scanUrls, if_pos h, urlRun, urlRun, behindRun, behindRun, List.takeWhile_cons_of_pos (by rw [hend]; rfl),
    List.dropWhile_cons_of_pos (by rw [hend]; rfl)]

theorem not_endsUrl_of_mem_run {c : Char} (h : c ∈ urlRun l) : endsUrl c = false := by
  simpa using List.mem_takeWhile_imp h

/-- A run goes on to an end of a URL, if not to that of the text. -/
theorem endsUrl_behind {c : Char} (h : behindRun l = c :: r) : endsUrl c = true := by
  have hhead := List.head?_dropWhile_not (fun c => !endsUrl c) l
  rw [behindRun] at h
  rw [h] at hhead
  simpa using hhead

/-! ## Where the schemes are apart -/

/-- Behind an `http://` URL the schemes are apart exactly where they are from its start on. -/
theorem schemesApart_http (hno : NoScheme a s) (hs : http <+: s) :
    SchemesApart (a ++ s) ↔ SchemesApart (behindRun s) := by
  have hsplit := urlRun_append s
  refine ⟨fun h A B hA hB => ?_, fun h A B hA hB => ?_⟩
  · have hall : a ++ s = (a ++ urlRun s ++ A) ++ https ++ B := by
      calc a ++ s = a ++ (urlRun s ++ behindRun s) := by rw [hsplit]
        _ = (a ++ urlRun s ++ A) ++ https ++ B := by rw [hA]; simp
    obtain ⟨w, hw, hhttp, hends⟩ := h _ B hall hB
    -- the end of the run stands between, so the other URL starts behind it
    cases A with
    | nil => exact absurd (endsUrl_behind hA) (by decide)
    | cons c A =>
      obtain hle | ⟨v, rfl⟩ := List.suffix_or_suffix_of_suffix hw (List.suffix_append (a ++ urlRun s) (c :: A))
      · exact ⟨w, hle, hhttp, hends⟩
      · have hc := hends c (List.mem_append_right _ List.mem_cons_self)
        rw [endsUrl_behind hA] at hc
        cases hc
  · rw [List.append_assoc] at hA
    obtain ⟨A', rfl, hA'⟩ | ⟨y, rfl, hy⟩ := List.append_eq_append_iff.mp hA
    · rw [← hsplit] at hA'
      obtain ⟨A'', rfl, hrest⟩ | ⟨z, hz, hrest⟩ := List.append_eq_append_iff.mp hA'
      · obtain ⟨w, hw, hgo⟩ := h A'' B (by rw [hrest, List.append_assoc]) hB
        exact ⟨w, hw.trans ⟨a ++ urlRun s, by simp⟩, hgo⟩
      · -- the `https://` starts in the run
        refine ⟨A', List.suffix_append a A', ?_, ?_⟩
        · obtain ⟨t, ht⟩ := hs
          refine scheme_apart (Or.inl ⟨rfl, rfl⟩) (b := t) (y := B) ?_
          rw [ht, ← hsplit, ← hA']
        · intro c hc
          apply not_endsUrl_of_mem_run (l := s)
          rw [hz]
          exact List.mem_append_left _ hc
    · by_cases hnil : y = []
      · obtain ⟨t, ht⟩ := hs
        have hpre : http <+: [] := by
          refine scheme_apart (Or.inl ⟨rfl, rfl⟩) (b := t) (y := B) ?_
          rw [ht, hy, hnil]
          rfl
        exact absurd hpre (by decide)
      · have hstart := hno A y rfl hnil
        rw [← hy, startsUrl, List.isPrefixOf_iff_prefix.mpr (List.prefix_append _ _), Bool.or_true] at hstart
        cases hstart

/-- Without an `http://` the schemes are apart. -/
theorem schemesApart_of_no_http (h : ∀ x t, l ≠ x ++ http ++ t) : SchemesApart l := by
  rintro A B hl ⟨x, t, rfl⟩
  refine absurd ?_ (h (A ++ https ++ x) t)
  rw [hl]
  simp

/-! ## The two scans -/

/-- A round of the code that finds a URL. -/
theorem urlPlacesFrom_found {before : List Char}
    (h : (find http (a ++ s)).or (find https (a ++ s)) = some (byteLen a)) : urlPlacesFrom (n + 1) before (a ++ s) =
      (before ++ a, urlRun s) :: urlPlacesFrom n (before ++ a ++ urlRun s) (behindRun s) := by
  have hsplit := splitAtByte_append a s
  unfold http https at h
  rw [urlPlacesFrom, h, Option.bind_some, hsplit]

/-- A round that finds the next URL goes on as the scan does. -/
theorem places_step {before : List Char} (h : (find http (a ++ s)).or (find https (a ++ s)) = some (byteLen a))
    (hno : NoScheme a s) (hstart : startsUrl s = true) :
    (urlPlacesFrom (n + 1) before (a ++ s)).map Prod.snd = scanUrls (a ++ s) ↔
      (urlPlacesFrom n (before ++ a ++ urlRun s) (behindRun s)).map Prod.snd = scanUrls (behindRun s) := by
  rw [urlPlacesFrom_found h, scanUrls_skip hno, scanUrls_start hstart, List.map_cons, List.cons.injEq]
  exact and_iff_right rfl

theorem length_behind_lt (hstart : startsUrl s = true) (h : (a ++ s).length < n + 1) : (behindRun s).length < n := by
  obtain ⟨t, rfl⟩ := startsUrl_cons hstart
  have hle := (List.dropWhile_sublist (l := t) fun c => !endsUrl c).length_le
  rw [behindRun, List.dropWhile_cons_of_pos (by decide)]
  simp only [List.length_append, List.length_cons] at h
  omega

theorem http_not_endsUrl : ∀ c ∈ http, endsUrl c = false := by
  have hall : http.all (fun c => !endsUrl c) = true := by decide
  simpa only [List.all_eq_true, Bool.not_eq_true'] using hall

theorem https_not_endsUrl : ∀ c ∈ https, endsUrl c = false := by
  have hall : https.all (fun c => !endsUrl c) = true := by decide
  simpa only [List.all_eq_true, Bool.not_eq_true'] using hall

theorem urlRun_ne (b y : List Char) : urlRun (http ++ b) ≠ urlRun (https ++ y) := by
  rw [urlRun_append_of_ends http_not_endsUrl, urlRun_append_of_ends https_not_endsUrl]
  intro h
  have hfifth := congrArg (List.take 5) h
  rw [List.take_append_of_le_length (by decide), List.take_append_of_le_length (by decide)] at hfifth
  exact absurd hfifth (by decide)

/-- A round that skips an `https://` finds another URL than the scan does. -/
theorem places_skipped {before : List Char} (hr : r = a ++ http ++ b) (hr' : r = x ++ https ++ y)
    (hlt : x.length < a.length) (hmin : ∀ x' t, r = x' ++ http ++ t → a.length ≤ x'.length)
    (hmin' : ∀ x' t, r = x' ++ https ++ t → x.length ≤ x'.length) :
    (urlPlacesFrom (n + 1) before r).map Prod.snd ≠ scanUrls r := by
  have hfound : (find http (a ++ (http ++ b))).or (find https (a ++ (http ++ b))) = some (byteLen a) := by
    rw [← List.append_assoc, ← hr, find_iff.mpr ⟨a, b, hr, rfl, hmin⟩, Option.some_or]
  have hno : NoScheme x (https ++ y) := by
    refine noScheme_of_le (by rw [hr', List.append_assoc]) (fun x' t h => ?_) hmin'
    have hle := hmin x' t h
    omega
  have hscan : scanUrls r = urlRun (https ++ y) :: scanUrls (behindRun (https ++ y)) := by
    rw [hr', List.append_assoc, scanUrls_skip hno,
      scanUrls_start (startsUrl_iff.mpr (Or.inr (List.prefix_append https y)))]
  rw [hscan, hr, List.append_assoc, urlPlacesFrom_found hfound, List.map_cons]
  intro h
  exact urlRun_ne b y (List.cons.inj h).1

/-- There the schemes are not apart: no `http://` URL is before the `https://`. -/
theorem not_schemesApart (hr : r = a ++ http ++ b) (hr' : r = x ++ https ++ y) (hlt : x.length < a.length)
    (hmin : ∀ x' t, r = x' ++ http ++ t → a.length ≤ x'.length) : ¬ SchemesApart r := by
  intro hapart
  have hsame : x ++ (https ++ y) = a ++ (http ++ b) := by
    rw [← List.append_assoc, ← hr', hr, List.append_assoc]
  have hbehind : http <:+: y := by
    obtain ⟨z, rfl, hz⟩ | ⟨z, rfl, -⟩ := List.append_eq_append_iff.mp hsame
    · obtain ⟨z', rfl⟩ := scheme_apart (Or.inr ⟨rfl, rfl⟩) hz
      rw [List.append_assoc] at hz
      exact ⟨z', b, by rw [List.append_cancel_left hz, List.append_assoc]⟩
    · simp only [List.length_append] at hlt
      omega
  obtain ⟨w, ⟨u, rfl⟩, ⟨v, rfl⟩, -⟩ := hapart x y hr' hbehind
  have hle := hmin u (v ++ https ++ y) (by rw [hr']; simp)
  simp only [List.length_append] at hlt
  omega

/-- The places of the code's loop are those of the scan exactly where the schemes are apart. -/
theorem places_iff (before : List Char) (hrounds : r.length < n) :
    (urlPlacesFrom n before r).map Prod.snd = scanUrls r ↔ SchemesApart r := by
  induction n generalizing before r with
  | zero => exact absurd hrounds (Nat.not_lt_zero _)
  | succ n ih =>
    cases hhttp : find http r with
    | none =>
      have hnone : ∀ x t, r ≠ x ++ http ++ t := find_eq_none hhttp
      refine (iff_true_right (schemesApart_of_no_http hnone)).mpr ?_
      cases hhttps : find https r with
      | none =>
        have hno : NoScheme r [] := noScheme_of_le (List.append_nil r).symm (fun x t h => absurd h (hnone x t))
          fun x t h => absurd h (find_eq_none hhttps x t)
        have hscan : scanUrls (r ++ []) = scanUrls [] := scanUrls_skip hno
        rw [List.append_nil] at hscan
        unfold http at hhttp
        unfold https at hhttps
        rw [hscan, urlPlacesFrom, hhttp, hhttps]
        simp [scanUrls]
      | some pos =>
        obtain ⟨a, b, rfl, rfl, hmin⟩ := find_iff.mp hhttps
        have hno : NoScheme a (https ++ b) := noScheme_of_le (List.append_assoc ..)
          (fun x t h => absurd h (hnone x t)) hmin
        have hstart : startsUrl (https ++ b) = true := startsUrl_iff.mpr (Or.inr (List.prefix_append https b))
        rw [List.append_assoc] at hhttp hhttps hrounds hnone ⊢
        refine (places_step (by rw [hhttp, hhttps]; rfl) hno hstart).mpr ?_
        refine (ih _ (length_behind_lt hstart hrounds)).mpr (schemesApart_of_no_http fun x t h => ?_)
        refine hnone (a ++ urlRun (https ++ b) ++ x) t ?_
        calc a ++ (https ++ b) = a ++ (urlRun (https ++ b) ++ behindRun (https ++ b)) := by rw [urlRun_append]
          _ = a ++ urlRun (https ++ b) ++ x ++ http ++ t := by rw [h]; simp
    | some pos =>
      obtain ⟨a, b, hr, rfl, hmin⟩ := find_iff.mp hhttp
      by_cases hfirst : ∀ x t, r = x ++ https ++ t → a.length ≤ x.length
      · have hno : NoScheme a (http ++ b) := noScheme_of_le (by rw [hr, List.append_assoc]) hmin hfirst
        have hstart : startsUrl (http ++ b) = true := startsUrl_iff.mpr (Or.inl (List.prefix_append http b))
        rw [hr, List.append_assoc] at hhttp hrounds ⊢
        rw [places_step (by rw [hhttp]; rfl) hno hstart, schemesApart_http hno (List.prefix_append http b)]
        exact ih _ (length_behind_lt hstart hrounds)
      · simp only [not_forall, not_le] at hfirst
        obtain ⟨x, t, ht, hlt⟩ := hfirst
        cases hhttps : find https r with
        | none => exact absurd ht (find_eq_none hhttps x t)
        | some pos =>
          obtain ⟨a', b', hr', rfl, hmin'⟩ := find_iff.mp hhttps
          have hle := hmin' x t ht
          have hlt' : a'.length < a.length := Nat.lt_of_le_of_lt hle hlt
          exact iff_of_false (places_skipped hr hr' hlt' hmin hmin') (not_schemesApart hr hr' hlt' hmin)

end

/-- The URLs of a text are those that a scan for the next occurrence of either scheme finds, exactly where every
    `https://` with an `http://` behind it is inside of an `http://` URL. -/
theorem extractUrls_complete_iff (text : List Char) :
    (extractUrls text).map (List.map Prod.fst) = some ((scanUrls text).map String.ofList) ↔
      ∀ a b, text = a ++ https ++ b → http <:+: b → InHttpUrl a := by
  have hplaces := places_iff [] (Nat.lt_succ_self text.length)
  have hfst : Prod.fst ∘ placed text = String.ofList ∘ Prod.snd := rfl
  have hinj : Function.Injective (List.map String.ofList) :=
    List.map_injective_iff.mpr fun _ _ => String.ofList_injective
  rw [extractUrls_eq, Option.map_some, List.map_map, hfst, ← List.map_map, Option.some.injEq, hinj.eq_iff]
  exact hplaces

/-- An `https://` URL before an `http://` one is skipped. -/
theorem https_skipped :
    (extractUrls "https://a http://b".toList).map (List.map Prod.fst) ≠
        some ((scanUrls "https://a http://b".toList).map String.ofList) ∧
      (extractUrls "https://a http://b".toList).map (List.map Prod.fst) = some ["http://b"] := by
  decide +kernel

end WhaleIntelligence.Telegram
