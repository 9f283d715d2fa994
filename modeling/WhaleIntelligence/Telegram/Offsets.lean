import WhaleIntelligence.Telegram.Parse

/- The offsets of the mentions.

   The loops over the trimmed text keep an offset that is the byte length of what is
   behind them, so every slice they take is between characters of it and none panics.
   What they return is their finds with the characters before each (`extractUrls_eq`,
   `extractBase58Candidates_eq`). A context is cut the same way (`contextAround_iff`). -/
namespace WhaleIntelligence.Telegram
open WhaleIntelligence

section
variable {x : TextCrates} {text before current l a w b : List Char} {n offset start length : Nat} {context : String}

/-- The thirty characters to either side of a match, and the match. -/
def window (a w b : List Char) : List Char := a.drop (a.length - 30) ++ w ++ b.take 30

theorem window_eq (a w b : List Char) :
    ((a ++ w ++ b).take (min (a.length + w.length + 30) (a ++ w ++ b).length)).drop (a.length - 30) = window a w b := by
  have htake : (a ++ w ++ b).take (min (a.length + w.length + 30) (a ++ w ++ b).length) = a ++ w ++ b.take 30 := by
    rw [← List.take_eq_take_min, ← List.length_append, List.take_length_add_append]
  rw [htake, window, List.append_assoc, List.append_assoc, List.drop_append_of_le_length (Nat.sub_le _ _)]

/-- A context is cut where the bytes of the match are characters of the text. -/
theorem contextAround_iff : contextAround text start length = some context ↔
    ∃ a w b, text = a ++ w ++ b ∧ byteLen a = start ∧ byteLen w = length ∧ context = String.ofList (window a w b) := by
  simp only [contextAround, Option.bind_eq_bind, Option.bind_eq_some_iff, Prod.exists, Option.pure_def,
    Option.some.injEq]
  refine ⟨fun h => ?_, fun h => ?_⟩
  · obtain ⟨a, rest, hrest, w, b, hw, rfl⟩ := h
    obtain ⟨rfl, ha⟩ := splitAtByte_iff.mp hrest
    obtain ⟨rfl, hlen⟩ := splitAtByte_iff.mp hw
    refine ⟨a, w, b, (List.append_assoc ..).symm, ha, hlen, ?_⟩
    rw [← List.append_assoc, window_eq]
  · obtain ⟨a, w, b, rfl, rfl, rfl, rfl⟩ := h
    refine ⟨a, w ++ b, ?_, w, b, splitAtByte_append w b, ?_⟩
    · rw [List.append_assoc]
      exact splitAtByte_append a (w ++ b)
    · rw [window_eq]

/-- A find of a text, which is the characters before it and its own, with the context. -/
def placed (text : List Char) (p : List Char × List Char) : String × String :=
  (String.ofList p.2, String.ofList (window p.1 p.2 (text.drop (p.1 ++ p.2).length)))

theorem contextAround_placed (htext : text = a ++ w ++ b) :
    contextAround text (byteLen a) (byteLen w) = some (placed text (a, w)).2 := by
  refine contextAround_iff.mpr ⟨a, w, b, htext, rfl, rfl, ?_⟩
  rw [placed, htext, List.drop_left]

/-! ## Addresses -/

/-- The run that is being read, if there is one. -/
def openRun (before current : List Char) : List (List Char × List Char) :=
  if current.isEmpty then [] else [(before, current)]

/-- The maximal runs of base58 characters with the characters before each, where `current` is being read. -/
def base58RunsFrom (before current : List Char) : List Char → List (List Char × List Char)
  | [] => openRun before current
  | c :: l =>
    if isBase58Char c then base58RunsFrom before (current ++ [c]) l
    else openRun before current ++ base58RunsFrom (before ++ current ++ [c]) [] l

def base58Runs (text : List Char) : List (List Char × List Char) := base58RunsFrom [] [] text

theorem completeCandidate_eq (htext : text = before ++ current ++ l)
    (hstart : current ≠ [] → start = byteLen before) : completeCandidate x text current start =
      some (((openRun before current).filter fun p => isValidSolanaAddress x p.2).map (placed text)) := by
  rw [completeCandidate, openRun]
  by_cases hempty : current.isEmpty = true
  · simp [hempty]
  · have hne : current ≠ [] := by simpa using hempty
    rw [if_neg hempty, hstart hne, contextAround_placed htext]
    by_cases hvalid : isValidSolanaAddress x current = true
    · simp [hempty, hvalid, placed]
    · simp [hvalid]

/-- The loop is at the end of the current candidate, which starts at `start`. -/
theorem base58From_eq (before current : List Char) (htext : text = before ++ current ++ l)
    (hoffset : offset = byteLen (before ++ current)) (hstart : current ≠ [] → start = byteLen before) :
    base58From x text offset current start l =
      some (((base58RunsFrom before current l).filter fun p => isValidSolanaAddress x p.2).map (placed text)) := by
  induction l generalizing before current offset start with
  | nil => exact completeCandidate_eq htext hstart
  | cons c l ih =>
    rw [base58From, base58RunsFrom]
    split
    · refine ih before (current ++ [c]) ?_ ?_ ?_
      · rw [htext]
        simp
      · rw [hoffset]
        simp [Nat.add_assoc]
      · intro _
        cases current with
        | nil => simpa using hoffset
        | cons d current => exact hstart (List.cons_ne_nil _ _)
    · have hoffset' : offset + c.utf8Size = byteLen (before ++ current ++ [c] ++ []) := by
        rw [hoffset]
        simp [Nat.add_assoc]
      have hrest : base58From x text (offset + c.utf8Size) [] start l = _ :=
        ih (before ++ current ++ [c]) [] (by rw [htext]; simp) hoffset' fun h => absurd rfl h
      rw [completeCandidate_eq htext hstart, hrest, List.filter_append, List.map_append]
      rfl

theorem extractBase58Candidates_eq (x : TextCrates) (text : List Char) : extractBase58Candidates x text =
    some (((base58Runs text).filter fun p => isValidSolanaAddress x p.2).map (placed text)) :=
  base58From_eq [] [] rfl rfl fun h => absurd rfl h

/-! ## URLs -/

/-- The run up to the next end of a URL. -/
def urlRun (l : List Char) : List Char := l.takeWhile fun c => !endsUrl c

/-- What is behind that run. -/
def behindRun (l : List Char) : List Char := l.dropWhile fun c => !endsUrl c

/-- The URLs that the loop of `extract_urls` finds, with the characters before each. -/
def urlPlacesFrom : Nat → List Char → List Char → List (List Char × List Char)
  | 0, _, _ => []
  | n + 1, before, remainder =>
    match ((find "http://".toList remainder).or (find "https://".toList remainder)).bind (splitAtByte remainder) with
    | none => []
    | some (a, after) => (before ++ a, urlRun after) :: urlPlacesFrom n (before ++ a ++ urlRun after) (behindRun after)

def urlPlaces (text : List Char) : List (List Char × List Char) := urlPlacesFrom (text.length + 1) [] text

theorem urlRun_append (l : List Char) : urlRun l ++ behindRun l = l := List.takeWhile_append_dropWhile

/-- A match of either scheme starts with a letter, which is no end of a URL. -/
theorem find_scheme {remainder : List Char} {pos : Nat}
    (h : (find "http://".toList remainder).or (find "https://".toList remainder) = some pos) :
    ∃ a after, remainder = a ++ 'h' :: after ∧ byteLen a = pos := by
  obtain hfind | ⟨-, hfind⟩ := Option.or_eq_some_iff.mp h
  · obtain ⟨a, b, rfl, rfl, -⟩ := find_iff.mp hfind
    exact ⟨a, "ttp://".toList ++ b, by simp, rfl⟩
  · obtain ⟨a, b, rfl, rfl, -⟩ := find_iff.mp hfind
    exact ⟨a, "ttps://".toList ++ b, by simp, rfl⟩

/-- The bytes that the loop takes are those of the run. -/
theorem findWhere_run (l : List Char) : (findWhere endsUrl l).getD (byteLen l) = byteLen (urlRun l) := by
  induction l with
  | nil => rfl
  | cons c l ih =>
    rw [findWhere, urlRun, List.takeWhile_cons]
    by_cases hc : endsUrl c = true
    · simp [hc]
    · rw [if_neg hc, if_pos (by simpa using hc), byteLen_cons, ← urlRun, byteLen_cons, ← ih]
      cases findWhere endsUrl l with
      | none => rfl
      | some stop => rfl

/-- A URL has at least its first letter. -/
theorem urlRun_scheme (after : List Char) : urlRun ('h' :: after) ≠ [] := by
  rw [urlRun, List.takeWhile_cons_of_pos (by decide)]
  exact List.cons_ne_nil _ _

theorem extractUrlsFrom_eq {remainder : List Char} (before : List Char) (htext : text = before ++ remainder)
    (hoffset : offset = byteLen before) (hrounds : remainder.length < n) :
    extractUrlsFrom text n remainder offset = some ((urlPlacesFrom n before remainder).map (placed text)) := by
  induction n generalizing before remainder offset with
  | zero => exact absurd hrounds (Nat.not_lt_zero _)
  | succ n ih =>
    rw [extractUrlsFrom, urlPlacesFrom]
    split
    · rename_i hnone
      rw [hnone]
      rfl
    · rename_i pos hpos
      obtain ⟨a, after, rfl, rfl⟩ := find_scheme hpos
      have hfound : splitAtByte (a ++ 'h' :: after) (byteLen a) = some (a, 'h' :: after) := splitAtByte_append a _
      have hstop := findWhere_run ('h' :: after)
      have hsplit := urlRun_append ('h' :: after)
      have hne := urlRun_scheme after
      rw [hpos, Option.bind_some, hfound]
      simp only [Option.bind_eq_bind, Option.bind_some, hstop]
      generalize urlRun ('h' :: after) = url, behindRun ('h' :: after) = rest at hsplit hne ⊢
      have hbytes : 1 ≤ byteLen url := by
        have hle := length_le_byteLen url
        have hpos := List.length_pos_of_ne_nil hne
        omega
      have hskip : byteLen a + max (byteLen url) 1 = byteLen (a ++ url) := by
        rw [byteLen_append]
        omega
      have htext' : text = (before ++ a) ++ url ++ rest := by
        rw [htext, ← hsplit]
        simp
      have hmore : extractUrlsFrom text n rest (offset + byteLen (a ++ url)) =
          some ((urlPlacesFrom n (before ++ a ++ url) rest).map (placed text)) := by
        refine ih (before ++ a ++ url) htext' ?_ ?_
        · rw [hoffset, List.append_assoc, byteLen_append before]
        · have hlength := List.length_pos_of_ne_nil hne
          rw [← hsplit] at hrounds
          simp only [List.length_append] at hrounds
          omega
      have hplace : contextAround text (offset + byteLen a) (byteLen url) =
        some (placed text (before ++ a, url)).2 := by
        rw [hoffset, ← byteLen_append]
        exact contextAround_placed htext'
      have hrest : splitAtByte (a ++ (url ++ rest)) (byteLen (a ++ url)) = some (a ++ url, rest) := by
        rw [← List.append_assoc]
        exact splitAtByte_append _ _
      have hempty : url.isEmpty = false := by simpa using hne
      rw [hskip, ← hsplit, splitAtByte_append, hrest]
      simp only [Option.bind_some, hempty, Bool.false_eq_true, if_false, hplace, hmore, Option.map_some,
        Option.pure_def]
      rfl

theorem extractUrls_eq (text : List Char) : extractUrls text = some ((urlPlaces text).map (placed text)) :=
  extractUrlsFrom_eq [] rfl rfl (Nat.lt_succ_self _)

end

end WhaleIntelligence.Telegram
