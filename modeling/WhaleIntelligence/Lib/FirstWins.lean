import Mathlib.Data.List.Forall2
import Mathlib.Data.List.Nodup

/- First-wins deduplication of a stream. A reader keeps a set of the keys it has
   seen and an output list, and appends an element only when its key is new:
   the `if !seen.insert(key) { continue }` loop of imperative code.

   `mem_firstWins` says what survives: an element is kept exactly when it is the
   first of its key in the stream. Every other fact about a deduplicated stream
   follows from that one and from `firstWins_keys_nodup`. -/
namespace FirstWins

section
variable {α κ : Type} [DecidableEq κ] (key : α → κ)

/-- One element of the stream: kept and its key recorded, or skipped. -/
def step (st : List α × List κ) (a : α) : List α × List κ :=
  if key a ∈ st.2 then st else (st.1 ++ [a], key a :: st.2)

/-- The deduplicated stream, in stream order. -/
def firstWins (l : List α) : List α := (l.foldl (step key) ([], [])).1

/-- What a stream adds to the output once the keys `seen` are recorded. -/
def fresh : List κ → List α → List α
  | _, [] => []
  | seen, a :: l => if key a ∈ seen then fresh seen l else a :: fresh (key a :: seen) l

theorem foldl_step (l : List α) : ∀ (out : List α) (seen : List κ),
    (l.foldl (step key) (out, seen)).1 = out ++ fresh key seen l := by
  induction l with
  | nil => intro out seen; simp [fresh]
  | cons a l ih =>
    intro out seen
    by_cases h : key a ∈ seen
    · simp only [List.foldl_cons, step, h, if_true, fresh]
      exact ih out seen
    · simp only [List.foldl_cons, step, h, if_false, fresh]
      rw [ih, List.append_assoc, List.singleton_append]

theorem firstWins_eq_fresh (l : List α) : firstWins key l = fresh key [] l := by
  rw [firstWins, foldl_step, List.nil_append]

theorem mem_fresh (l : List α) : ∀ (seen : List κ) (a : α),
    a ∈ fresh key seen l ↔ key a ∉ seen ∧ l.find? (fun b => key b = key a) = some a := by
  induction l with
  | nil => intro seen a; simp [fresh]
  | cons b l ih =>
    intro seen a
    by_cases hb : key b ∈ seen
    · simp only [fresh, hb, if_true, ih]
      by_cases hk : key b = key a
      · simp [hk ▸ hb]
      · simp [hk]
    · simp only [fresh, hb, if_false, List.mem_cons, ih, not_or]
      by_cases hk : key b = key a
      · simp only [List.find?_cons, hk, decide_true, Option.some.injEq]
        refine ⟨fun h => ?_, fun h => ?_⟩
        · rcases h with rfl | ⟨⟨hne, _⟩, _⟩
          · exact ⟨hb, rfl⟩
          · exact absurd trivial hne
        · obtain ⟨_, rfl⟩ := h
          exact Or.inl rfl
      · have hne : a ≠ b := fun h => hk (by rw [h])
        have hka : key a ≠ key b := fun h => hk h.symm
        simp [hk, hne, hka]

/-- An element is kept exactly when it is the first of its key. -/
theorem mem_firstWins {l : List α} {a : α} :
    a ∈ firstWins key l ↔ l.find? (fun b => key b = key a) = some a := by
  rw [firstWins_eq_fresh, mem_fresh]
  simp

theorem mem_of_mem_firstWins {l : List α} {a : α} (h : a ∈ firstWins key l) : a ∈ l :=
  List.mem_of_find?_eq_some ((mem_firstWins key).mp h)

theorem fresh_keys_nodup (l : List α) : ∀ seen : List κ, ((fresh key seen l).map key).Nodup := by
  induction l with
  | nil => intro seen; simp [fresh]
  | cons b l ih =>
    intro seen
    by_cases hb : key b ∈ seen
    · simp only [fresh, hb, if_true]
      exact ih seen
    · simp only [fresh, hb, if_false, List.map_cons, List.nodup_cons]
      refine ⟨?_, ih _⟩
      intro hmem
      obtain ⟨a, ha, hk⟩ := List.mem_map.mp hmem
      exact ((mem_fresh key l _ a).mp ha).1 (by rw [hk]; exact List.mem_cons_self)

/-- No key is kept twice. -/
theorem firstWins_keys_nodup (l : List α) : ((firstWins key l).map key).Nodup := by
  rw [firstWins_eq_fresh]
  exact fresh_keys_nodup key l []

/-- Two kept elements of one key are one element. -/
theorem eq_of_key_eq {l : List α} {a b : α} (ha : a ∈ firstWins key l)
    (hb : b ∈ firstWins key l) (h : key a = key b) : a = b := by
  rw [mem_firstWins] at ha hb
  rw [h] at ha
  exact Option.some.inj (ha.symm.trans hb)

/-- Every key of the stream is kept. -/
theorem exists_of_mem {l : List α} {a : α} (h : a ∈ l) : ∃ b ∈ firstWins key l, key b = key a := by
  cases hf : l.find? (fun b => key b = key a) with
  | none =>
    have := List.find?_eq_none.mp hf a h
    simp at this
  | some b =>
    have hk : key b = key a := by simpa using List.find?_some hf
    refine ⟨b, (mem_firstWins key).mpr ?_, hk⟩
    rw [hk]
    exact hf

/-- Where equal keys carry equal values, the kept pairs of key and value are
those of the whole stream. -/
theorem mem_map_firstWins {β : Type} (val : α → β) {l : List α}
    (h : ∀ a ∈ l, ∀ b ∈ l, key a = key b → val a = val b) {p : κ × β} :
    p ∈ (firstWins key l).map (fun a => (key a, val a)) ↔ p ∈ l.map (fun a => (key a, val a)) := by
  simp only [List.mem_map]
  refine ⟨fun h => ?_, fun h => ?_⟩
  · obtain ⟨a, ha, rfl⟩ := h
    exact ⟨a, mem_of_mem_firstWins key ha, rfl⟩
  · obtain ⟨a, ha, rfl⟩ := h
    obtain ⟨b, hb, hk⟩ := exists_of_mem key ha
    exact ⟨b, hb, by rw [hk, h b (mem_of_mem_firstWins key hb) a ha hk]⟩

theorem filter_fresh (k : κ) (l : List α) : ∀ seen : List κ, (fresh key seen l).filter (fun a => key a = k) =
    if k ∈ seen then [] else (l.find? fun a => key a = k).toList := by
  induction l with
  | nil => intro seen; simp [fresh]
  | cons b l ih =>
    intro seen
    by_cases hb : key b ∈ seen
    · rw [fresh, if_pos hb, ih, List.find?_cons]
      by_cases hk : key b = k
      · rw [if_pos (hk ▸ hb), if_pos (hk ▸ hb)]
      · simp [hk]
    · rw [fresh, if_neg hb, List.filter_cons, List.find?_cons, ih]
      by_cases hk : key b = k
      · have hs : k ∉ seen := hk ▸ hb
        simp [hk, hs]
      · have hne : k ≠ key b := fun h => hk h.symm
        simp [hk, hne]

/-- The kept elements of one key: the first of the stream, if there is one. -/
theorem filter_firstWins (k : κ) (l : List α) :
    (firstWins key l).filter (fun a => key a = k) = (l.find? fun a => key a = k).toList := by
  rw [firstWins_eq_fresh, filter_fresh, if_neg List.not_mem_nil]

/-- What a stream adds depends on which of its keys are recorded, and not on how. -/
theorem fresh_congr {seen seen' : List κ} {l : List α} (h : ∀ a ∈ l, key a ∈ seen ↔ key a ∈ seen') :
    fresh key seen l = fresh key seen' l := by
  induction l generalizing seen seen' with
  | nil => rfl
  | cons a l ih =>
    rw [List.forall_mem_cons] at h
    by_cases ha : key a ∈ seen
    · rw [fresh, fresh, if_pos ha, if_pos (h.1.mp ha), ih h.2]
    · have hrest : ∀ b ∈ l, key b ∈ key a :: seen ↔ key b ∈ key a :: seen' := fun b hb => by simp [h.2 b hb]
      rw [fresh, fresh, if_neg ha, if_neg fun ha' => ha (h.1.mpr ha'), ih hrest]

theorem fresh_map {β : Type} (f : β → α) (l : List β) : ∀ seen : List κ,
    fresh key seen (l.map f) = (fresh (fun b => key (f b)) seen l).map f := by
  induction l with
  | nil => exact fun _ => rfl
  | cons b l ih =>
    intro seen
    rw [List.map_cons, fresh, fresh]
    split
    · exact ih seen
    · rw [ih, List.map_cons]

theorem firstWins_map {β : Type} (f : β → α) (l : List β) :
    firstWins key (l.map f) = (firstWins (fun b => key (f b)) l).map f := by
  rw [firstWins_eq_fresh, firstWins_eq_fresh, fresh_map]

theorem fresh_comp {μ : Type} [DecidableEq μ] {g : κ → μ} (hg : Function.Injective g) (l : List α) : ∀ seen : List κ,
    fresh (fun a => g (key a)) (seen.map g) l = fresh key seen l := by
  induction l with
  | nil => exact fun _ => rfl
  | cons a l ih =>
    intro seen
    have hrest := ih (key a :: seen)
    rw [List.map_cons] at hrest
    rw [fresh, fresh, hrest, ih seen]
    simp only [List.mem_map_of_injective hg]

/-- Keys that are renamed one to one keep the same elements. -/
theorem firstWins_comp {μ : Type} [DecidableEq μ] {g : κ → μ} (hg : Function.Injective g) (l : List α) :
    firstWins (fun a => g (key a)) l = firstWins key l := by
  rw [firstWins_eq_fresh, firstWins_eq_fresh]
  exact fresh_comp key hg l []

theorem fresh_sublist (l : List α) : ∀ seen : List κ, (fresh key seen l).Sublist l := by
  induction l with
  | nil => exact fun _ => .slnil
  | cons a l ih =>
    intro seen
    rw [fresh]
    split
    · exact (ih seen).cons a
    · exact (ih _).cons_cons a

/-- Nothing of a stream is skipped where its keys are new and distinct. -/
theorem fresh_eq_self_iff (l : List α) : ∀ seen : List κ,
    fresh key seen l = l ↔ (l.map key).Nodup ∧ ∀ a ∈ l, key a ∉ seen := by
  induction l with
  | nil => simp [fresh]
  | cons a l ih =>
    intro seen
    rw [fresh, List.map_cons, List.nodup_cons, List.forall_mem_cons]
    split
    · rename_i ha
      constructor
      · intro heq
        have hlen := (fresh_sublist key l seen).length_le
        rw [heq, List.length_cons] at hlen
        omega
      · exact fun h => absurd ha h.2.1
    · rename_i ha
      rw [List.cons.injEq, ih, List.mem_map]
      simp only [true_and, List.mem_cons, not_or]
      constructor
      · rintro ⟨hnodup, hnew⟩
        refine ⟨⟨?_, hnodup⟩, ha, fun b hb => (hnew b hb).2⟩
        rintro ⟨b, hb, heq⟩
        exact (hnew b hb).1 heq
      · rintro ⟨⟨hne, hnodup⟩, -, hnew⟩
        exact ⟨hnodup, fun b hb => ⟨fun heq => hne ⟨b, hb, heq⟩, hnew b hb⟩⟩

/-- A stream is skipped whole where all its keys are seen. -/
theorem fresh_eq_nil_iff (l : List α) (seen : List κ) : fresh key seen l = [] ↔ ∀ a ∈ l, key a ∈ seen := by
  induction l with
  | nil => simp [fresh]
  | cons a l ih =>
    rw [fresh, List.forall_mem_cons]
    split
    · rename_i ha
      rw [ih]
      exact (and_iff_right ha).symm
    · rename_i ha
      simp [ha]

theorem length_fresh_eq_iff (l : List α) (seen : List κ) :
    (fresh key seen l).length = l.length ↔ (l.map key).Nodup ∧ ∀ a ∈ l, key a ∉ seen := by
  rw [← fresh_eq_self_iff]
  constructor
  · exact fun h => (fresh_sublist key l seen).eq_of_length h
  · intro h
    rw [h]

/-! ## Part of a stream -/

/-- What is kept of the elements of some keys is what their stream keeps. -/
theorem filter_fresh_keys (q : κ → Bool) (l : List α) : ∀ seen : List κ,
    (fresh key seen l).filter (fun a => q (key a)) = fresh key seen (l.filter fun a => q (key a)) := by
  induction l with
  | nil => exact fun _ => rfl
  | cons a l ih =>
    intro seen
    by_cases ha : key a ∈ seen
    · rw [fresh, if_pos ha, ih, List.filter_cons]
      split
      · rw [fresh, if_pos ha]
      · rfl
    · rw [fresh, if_neg ha, List.filter_cons, List.filter_cons, ih]
      split
      · rw [fresh, if_neg ha]
      · rename_i hq
        -- the key is none of those that are left
        refine fresh_congr key fun b hb => ?_
        have hne : key b ≠ key a := by
          intro heq
          have hqb := (List.mem_filter.mp hb).2
          rw [heq] at hqb
          exact hq hqb
        simp [hne]

theorem filter_firstWins_keys (q : κ → Bool) (l : List α) :
    (firstWins key l).filter (fun a => q (key a)) = firstWins key (l.filter fun a => q (key a)) := by
  rw [firstWins_eq_fresh, firstWins_eq_fresh, filter_fresh_keys]

/-- A stream adds its first new element, and then what it adds to that. -/
theorem fresh_eq_find (l : List α) (seen : List κ) : fresh key seen l =
    (l.find? fun b => key b ∉ seen).elim [] fun b => b :: fresh key (key b :: seen) l := by
  induction l with
  | nil => rfl
  | cons a l ih =>
    rw [fresh, List.find?_cons]
    by_cases ha : key a ∈ seen
    · rw [if_pos ha, ih]
      simp only [ha, not_true_eq_false, decide_false]
      cases l.find? fun b => key b ∉ seen with
      | none => rfl
      | some b => simp [fresh, ha]
    · simp [fresh, ha]

/-- Each new element that is not of the part is repeated in the part before any other new one of it. -/
def RepeatsFirst (p : α → Bool) (seen : List κ) (l : List α) : Prop :=
  ∀ pre a post, l = pre ++ a :: post → p a = false → key a ∉ seen → (∀ d ∈ pre, key d ≠ key a) →
    ∃ mid b rest, post = mid ++ b :: rest ∧ p b = true ∧ key b = key a ∧
      ∀ c ∈ mid, p c = true → key c ∈ seen ∨ ∃ d ∈ pre, key d = key c

section
variable {key : α → κ} {p : α → Bool} {seen : List κ} {a : α} {l : List α}

omit [DecidableEq κ] in
theorem repeatsFirst_cons : RepeatsFirst key p seen (a :: l) ↔
    (p a = false → key a ∉ seen →
        ∃ mid b rest, l = mid ++ b :: rest ∧ p b = true ∧ key b = key a ∧ ∀ c ∈ mid, p c = true → key c ∈ seen) ∧
      RepeatsFirst key p (key a :: seen) l := by
  refine ⟨fun h => ⟨fun hp ha => ?_, fun pre b post hl hb hnew hpre => ?_⟩, fun ⟨hhead, h⟩ => ?_⟩
  · obtain ⟨mid, b, rest, hl, hb, hkey, hmid⟩ := h [] a l rfl hp ha fun d hd => absurd hd List.not_mem_nil
    refine ⟨mid, b, rest, hl, hb, hkey, fun c hc hpc => ?_⟩
    obtain hseen | ⟨d, hd, -⟩ := hmid c hc hpc
    · exact hseen
    · exact absurd hd List.not_mem_nil
  · rw [List.mem_cons, not_or] at hnew
    have hpre' : ∀ d ∈ a :: pre, key d ≠ key b := List.forall_mem_cons.mpr ⟨Ne.symm hnew.1, hpre⟩
    obtain ⟨mid, c, rest, hpost, hc, hkey, hmid⟩ := h (a :: pre) b post (by rw [hl]; rfl) hb hnew.2 hpre'
    refine ⟨mid, c, rest, hpost, hc, hkey, fun e he hpe => ?_⟩
    obtain hseen | ⟨d, hd, hde⟩ := hmid e he hpe
    · exact Or.inl (List.mem_cons_of_mem _ hseen)
    · obtain rfl | hd := List.mem_cons.mp hd
      · exact Or.inl (List.mem_cons.mpr (Or.inl hde.symm))
      · exact Or.inr ⟨d, hd, hde⟩
  · intro pre b post hl hb hnew hpre
    cases pre with
    | nil =>
      rw [List.nil_append, List.cons.injEq] at hl
      obtain ⟨rfl, rfl⟩ := hl
      obtain ⟨mid, c, rest, hpost, hc, hkey, hmid⟩ := hhead hb hnew
      exact ⟨mid, c, rest, hpost, hc, hkey, fun e he hpe => Or.inl (hmid e he hpe)⟩
    | cons c pre =>
      rw [List.cons_append, List.cons.injEq] at hl
      obtain ⟨rfl, hl⟩ := hl
      rw [List.forall_mem_cons] at hpre
      have hnew' : key b ∉ key a :: seen := by
        rw [List.mem_cons, not_or]
        exact ⟨Ne.symm hpre.1, hnew⟩
      obtain ⟨mid, c, rest, hpost, hc, hkey, hmid⟩ := h pre b post hl hb hnew' hpre.2
      refine ⟨mid, c, rest, hpost, hc, hkey, fun e he hpe => ?_⟩
      obtain hseen | ⟨d, hd, hde⟩ := hmid e he hpe
      · obtain heq | hseen := List.mem_cons.mp hseen
        · exact Or.inr ⟨a, List.mem_cons_self, heq.symm⟩
        · exact Or.inl hseen
      · exact Or.inr ⟨d, List.mem_cons_of_mem _ hd, hde⟩

/-- The first new element of the part has the key. -/
theorem find_filter_key_iff (ha : key a ∉ seen) :
    ((l.filter p).find? fun b => key b ∉ seen).map key = some (key a) ↔
      ∃ mid b rest, l = mid ++ b :: rest ∧ p b = true ∧ key b = key a ∧ ∀ c ∈ mid, p c = true → key c ∈ seen := by
  rw [List.find?_filter]
  simp only [Option.map_eq_some_iff, List.find?_eq_some_iff_append, Bool.decide_and, Bool.decide_eq_true,
    Bool.and_eq_true, decide_eq_true_eq, Bool.not_eq_true', Bool.and_eq_false_iff, decide_eq_false_iff_not, not_not]
  refine ⟨fun h => ?_, fun h => ?_⟩
  · obtain ⟨b, ⟨⟨hb, -⟩, mid, rest, hl, hmid⟩, hkey⟩ := h
    refine ⟨mid, b, rest, hl, hb, hkey, fun c hc hpc => ?_⟩
    obtain hno | hseen := hmid c hc
    · rw [hpc] at hno
      cases hno
    · exact hseen
  · obtain ⟨mid, b, rest, hl, hb, hkey, hmid⟩ := h
    refine ⟨b, ⟨⟨hb, by rw [hkey]; exact ha⟩, mid, rest, hl, fun c hc => ?_⟩, hkey⟩
    cases hpc : p c with
    | true => exact Or.inr (hmid c hc hpc)
    | false => exact Or.inl rfl

theorem repeatsFirst_new (ha : key a ∉ seen) (hp : p a = false) : RepeatsFirst key p seen (a :: l) ↔
    ((l.filter p).find? fun b => key b ∉ seen).map key = some (key a) ∧ RepeatsFirst key p (key a :: seen) l := by
  rw [repeatsFirst_cons, find_filter_key_iff ha]
  exact and_congr_left' ⟨fun h => h hp ha, fun h _ _ => h⟩

end

/-- A part of a stream adds the keys of the whole exactly where each new one is repeated in the part first. -/
theorem keys_fresh_filter_iff (p : α → Bool) (l : List α) : ∀ seen : List κ,
    (fresh key seen (l.filter p)).map key = (fresh key seen l).map key ↔ RepeatsFirst key p seen l := by
  induction l with
  | nil => simp [fresh, RepeatsFirst]
  | cons a l ih =>
    intro seen
    by_cases ha : key a ∈ seen
    · have hseen : ∀ m, fresh key (key a :: seen) m = fresh key seen m := by
        intro m
        exact fresh_congr key fun b _ => by simp +contextual [ha]
      have hskip : fresh key seen ((a :: l).filter p) = fresh key seen (l.filter p) := by
        rw [List.filter_cons]
        split
        · rw [fresh, if_pos ha]
        · rfl
      rw [repeatsFirst_cons, ← ih, hseen, hseen, hskip, fresh, if_pos ha]
      exact (and_iff_right fun _ hnew => absurd ha hnew).symm
    · rw [fresh, if_neg ha]
      cases hp : p a with
      | true =>
        rw [repeatsFirst_cons, hp, ← ih, List.filter_cons_of_pos hp, fresh, if_neg ha, List.map_cons, List.map_cons,
          List.cons.injEq]
        simp
      | false =>
        rw [repeatsFirst_new ha hp, ← ih, List.filter_cons_of_neg (by rw [hp]; exact Bool.false_ne_true),
          fresh_eq_find key (l.filter p), List.map_cons]
        cases (l.filter p).find? fun b => key b ∉ seen with
        | none => simp
        | some b =>
          simp only [Option.elim_some, List.map_cons, List.cons.injEq, Option.map_some, Option.some.injEq]
          exact and_congr_right fun hb => by rw [hb]

/-! ## Two streams -/

section
variable {β : Type} {R : α → β → Prop} {key : α → κ} {key' : β → κ} {l : List α} {l' : List β}

theorem exists_of_forall₂ (h : List.Forall₂ R l l') {a : α} (ha : a ∈ l) : ∃ b ∈ l', R a b := by
  induction h with
  | nil => exact absurd ha List.not_mem_nil
  | @cons a' b l l' hab _ ih =>
    rcases List.mem_cons.mp ha with rfl | ha
    · exact ⟨b, List.mem_cons_self, hab⟩
    · obtain ⟨c, hc, hac⟩ := ih ha
      exact ⟨c, List.mem_cons_of_mem _ hc, hac⟩

theorem forall₂_fresh (hkey : ∀ a b, R a b → key a = key' b) (h : List.Forall₂ R l l') :
    ∀ seen : List κ, List.Forall₂ R (fresh key seen l) (fresh key' seen l') := by
  induction h with
  | nil => exact fun _ => .nil
  | @cons a b l l' hab _ ih =>
    intro seen
    have hk := hkey a b hab
    by_cases ha : key a ∈ seen
    · simpa only [fresh, if_pos ha, if_pos (hk ▸ ha)] using ih seen
    · simpa only [fresh, if_neg ha, if_neg (hk ▸ ha), hk] using List.Forall₂.cons hab (ih (key' b :: seen))

/-- Streams that are related element by element keep related elements, where related
elements have one key. -/
theorem forall₂_firstWins (hkey : ∀ a b, R a b → key a = key' b) (h : List.Forall₂ R l l') :
    List.Forall₂ R (firstWins key l) (firstWins key' l') := by
  rw [firstWins_eq_fresh, firstWins_eq_fresh]
  exact forall₂_fresh hkey h []

end

end

end FirstWins
