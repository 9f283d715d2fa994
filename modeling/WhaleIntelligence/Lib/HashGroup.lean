import Mathlib.Algebra.BigOperators.Group.List.Basic
import Mathlib.Data.List.AList
import Mathlib.Data.List.Induction

/- Hash maps whose iteration order is not specified.

   A map is an association list with distinct keys. Its entries come in an order
   that the hashing decides: `Order` is any function to a permutation of them, so
   what holds for every `Order` holds whatever the hasher does.

   `groupBy` is the `entry(key).or_default().push(element)` loop; a group is the
   elements of its key, in their order in the stream (`lookup_groupBy`). `tally` is
   the loop that adds instead (`lookup_tally`, `sum_tally`). -/
namespace HashGroup

abbrev Map (κ ν : Type) := AList fun _ : κ => ν

/-- An iteration order. -/
structure Order (κ ν : Type) where
  iterate : Map κ ν → List (Σ _ : κ, ν)
  perm : ∀ m, (iterate m).Perm m.entries

def Order.stored (κ ν : Type) : Order κ ν := ⟨AList.entries, fun _ => List.Perm.refl _⟩

/-- The order that comes to a key last. -/
def Order.last {κ : Type} [DecidableEq κ] (ν : Type) (k : κ) : Order κ ν where
  iterate m := m.entries.filter (fun e => decide (e.1 ≠ k)) ++ m.entries.filter fun e => !decide (e.1 ≠ k)
  perm m := List.filter_append_perm (fun e => decide (e.1 ≠ k)) m.entries

theorem Order.nodupKeys {κ ν : Type} (order : Order κ ν) (m : Map κ ν) : (order.iterate m).NodupKeys :=
  (List.perm_nodupKeys (order.perm m)).mpr m.nodupKeys

section
variable {α κ ν μ : Type} [DecidableEq κ] (key : α → κ)

/-- The elements of a stream, by their keys. -/
def groupBy (l : List α) : Map κ (List α) :=
  l.foldl (fun m a => m.insert (key a) ((m.lookup (key a)).getD [] ++ [a])) ∅

theorem groupBy_concat (l : List α) (a : α) :
    groupBy key (l ++ [a]) = (groupBy key l).insert (key a) (((groupBy key l).lookup (key a)).getD [] ++ [a]) := by
  rw [groupBy, List.foldl_concat, groupBy]

theorem lookup_groupBy (l : List α) (k : κ) :
    (groupBy key l).lookup k =
      if l.filter (fun a => key a = k) = [] then none else some (l.filter fun a => key a = k) := by
  induction l using List.reverseRecOn with
  | nil => rfl
  | append_singleton l a ih =>
    rw [groupBy_concat, List.filter_append, List.filter_singleton]
    by_cases hk : key a = k
    · subst hk
      rw [AList.lookup_insert, ih]
      by_cases hnil : l.filter (fun b => key b = key a) = []
      · simp [hnil]
      · simp [hnil]
    · rw [AList.lookup_insert_ne fun h => hk h.symm, ih]
      simp [hk]

theorem mem_groupBy {l : List α} {k : κ} : k ∈ groupBy key l ↔ ∃ a ∈ l, key a = k := by
  rw [← AList.lookup_isSome, lookup_groupBy]
  by_cases hnil : l.filter (fun a => key a = k) = []
  · rw [if_pos hnil]
    apply iff_of_false (by simp)
    intro h
    obtain ⟨a, ha, hk⟩ := h
    have := List.filter_eq_nil_iff.mp hnil a ha
    simp [hk] at this
  · rw [if_neg hnil]
    apply iff_of_true rfl
    obtain ⟨a, ha⟩ := List.exists_mem_of_ne_nil _ hnil
    exact ⟨a, (List.mem_filter.mp ha).1, by simpa using (List.mem_filter.mp ha).2⟩

theorem Order.mem_iterate (order : Order κ ν) {m : Map κ ν} {k : κ} {v : ν} :
    ⟨k, v⟩ ∈ order.iterate m ↔ m.lookup k = some v := by
  rw [(order.perm m).mem_iff]
  exact (List.mem_dlookup_iff m.nodupKeys).symm

theorem filter_key (k : κ) : ∀ {es : List (Σ _ : κ, ν)} {v : ν}, es.NodupKeys → es.dlookup k = some v →
    (es.filter fun e => !decide (e.1 ≠ k)) = [⟨k, v⟩]
  | [], _, _, hv => by cases hv
  | e :: es, v, h, hv => by
    obtain ⟨hnot, hes⟩ := List.nodupKeys_cons.mp h
    by_cases hk : k = e.1
    · subst hk
      have hev : e.2 = v := Option.some.inj ((List.dlookup_cons_eq es e.1 e.2).symm.trans hv)
      have hnil : (es.filter fun e' => !decide (e'.1 ≠ e.1)) = [] := by
        apply List.filter_eq_nil_iff.mpr
        intro e' he' hkey
        apply hnot
        have heq : e'.1 = e.1 := by simpa using hkey
        exact heq ▸ List.mem_map.mpr ⟨e', he', rfl⟩
      rw [List.filter_cons, if_pos (by simp), hnil, ← hev]
    · have hne : e.1 ≠ k := fun heq => hk heq.symm
      rw [List.dlookup_cons_ne es e hk] at hv
      rw [List.filter_cons, if_neg (by simp [hne])]
      exact filter_key k hes hv

theorem Order.iterate_last {m : Map κ ν} {k : κ} {v : ν} (h : m.lookup k = some v) :
    (Order.last ν k).iterate m = (m.entries.filter fun e => decide (e.1 ≠ k)) ++ [⟨k, v⟩] := by
  have hkey := filter_key k m.nodupKeys h
  simp only [Order.last, hkey]

/-- A loop that computes one value for each key it meets. -/
theorem lookup_foldl_insert (f : κ → ν → μ) (k : κ) : ∀ (es : List (Σ _ : κ, ν)) (m : Map κ μ), es.NodupKeys →
    (es.foldl (fun m e => m.insert e.1 (f e.1 e.2)) m).lookup k = ((es.dlookup k).map (f k)).or (m.lookup k)
  | [], m, _ => rfl
  | e :: es, m, h => by
    obtain ⟨hnot, hes⟩ := List.nodupKeys_cons.mp h
    rw [List.foldl_cons, lookup_foldl_insert f k es _ hes]
    by_cases hk : k = e.1
    · subst hk
      rw [List.dlookup_eq_none.mpr hnot, AList.lookup_insert]
      rw [show List.dlookup e.1 (e :: es) = some e.2 from List.dlookup_cons_eq es e.1 e.2]
      rfl
    · rw [AList.lookup_insert_ne hk, List.dlookup_cons_ne es e hk]

theorem perm_of_lookup {m m' : Map κ ν} (h : ∀ k, m.lookup k = m'.lookup k) : m.entries.Perm m'.entries := by
  apply List.lookup_ext m.nodupKeys m'.nodupKeys
  intro k v
  have hk : List.dlookup k m.entries = List.dlookup k m'.entries := h k
  rw [hk]

/-- Maps with the same entries are iterated alike up to the order. -/
theorem Order.iterate_perm {m m' : Map κ ν} (h : ∀ k, m.lookup k = m'.lookup k) (order order' : Order κ ν) :
    (order.iterate m).Perm (order'.iterate m') :=
  ((order.perm m).trans (perm_of_lookup h)).trans (order'.perm m').symm

theorem Order.dlookup_iterate (order : Order κ ν) (m : Map κ ν) (k : κ) :
    (order.iterate m).dlookup k = m.lookup k :=
  List.perm_dlookup k (order.nodupKeys m) (order.perm m)

end

/-! ## Sums -/

section
variable {α κ ν : Type} [DecidableEq κ] [AddCommMonoid ν]

/-- `*entry(k).or_default() += v`. -/
def addTo (m : Map κ ν) (k : κ) (v : ν) : Map κ ν := m.insert k ((m.lookup k).getD 0 + v)

def sum (m : Map κ ν) : ν := (m.entries.map Sigma.snd).sum

theorem sum_kerase (k : κ) : ∀ {es : List (Σ _ : κ, ν)}, es.NodupKeys →
    (es.dlookup k).getD 0 + ((es.kerase k).map Sigma.snd).sum = (es.map Sigma.snd).sum
  | [], _ => by simp
  | e :: es, h => by
    obtain ⟨hnot, hes⟩ := List.nodupKeys_cons.mp h
    by_cases hk : k = e.1
    · subst hk
      rw [List.kerase_cons_eq rfl, show List.dlookup e.1 (e :: es) = some e.2 from List.dlookup_cons_eq es e.1 e.2]
      rw [List.map_cons, List.sum_cons, Option.getD_some]
    · rw [List.kerase_cons_ne hk, List.dlookup_cons_ne es e hk, List.map_cons, List.sum_cons, List.map_cons,
        List.sum_cons, ← sum_kerase k hes, add_left_comm]

theorem sum_addTo (m : Map κ ν) (k : κ) (v : ν) : sum (addTo m k v) = sum m + v := by
  rw [sum, addTo, AList.entries_insert, List.map_cons, List.sum_cons, sum, ← sum_kerase k m.nodupKeys,
    add_right_comm]
  rfl

theorem lookup_addTo (m : Map κ ν) (k k' : κ) (v : ν) :
    (addTo m k v).lookup k' = if k' = k then some ((m.lookup k).getD 0 + v) else m.lookup k' := by
  by_cases hk : k' = k
  · subst hk
    rw [if_pos rfl, addTo, AList.lookup_insert]
  · rw [if_neg hk, addTo, AList.lookup_insert_ne hk]

omit [DecidableEq κ] in
/-- The sum comes out the same in every iteration order. -/
theorem Order.foldl_sum (order : Order κ ν) (m : Map κ ν) :
    (order.iterate m).foldl (fun total e => total + e.2) 0 = sum m := by
  calc (order.iterate m).foldl (fun total e => total + e.2) 0
      = ((order.iterate m).map Sigma.snd).foldl (fun a b => a + b) 0 := List.foldl_map.symm
    _ = ((order.iterate m).map Sigma.snd).sum := List.sum_eq_foldl.symm
    _ = sum m := ((order.perm m).map Sigma.snd).sum_eq

variable (key : α → κ) (value : α → ν)

/-- The values of a stream, added up by their keys. -/
def tally (l : List α) : Map κ ν := l.foldl (fun m a => addTo m (key a) (value a)) ∅

theorem tally_concat (l : List α) (a : α) :
    tally key value (l ++ [a]) = addTo (tally key value l) (key a) (value a) := by
  rw [tally, List.foldl_concat, tally]

theorem sum_tally (l : List α) : sum (tally key value l) = (l.map value).sum := by
  induction l using List.reverseRecOn with
  | nil => rfl
  | append_singleton l a ih =>
    rw [tally_concat, sum_addTo, ih, List.map_append, List.sum_append, List.map_singleton, List.sum_singleton]

theorem lookup_tally (l : List α) (k : κ) :
    (tally key value l).lookup k =
      if l.filter (fun a => key a = k) = [] then none
      else some ((l.filter fun a => key a = k).map value).sum := by
  induction l using List.reverseRecOn with
  | nil => rfl
  | append_singleton l a ih =>
    rw [tally_concat, lookup_addTo, List.filter_append, List.filter_singleton]
    by_cases hk : key a = k
    · subst hk
      rw [if_pos rfl, ih]
      by_cases hnil : l.filter (fun b => key b = key a) = []
      · simp [hnil]
      · simp [hnil]
    · rw [if_neg fun h => hk h.symm, ih]
      simp [hk]

theorem tally_perm {l l' : List α} (h : l.Perm l') (k : κ) :
    (tally key value l).lookup k = (tally key value l').lookup k := by
  have hfilter := h.filter fun a => decide (key a = k)
  have hnil : l.filter (fun a => key a = k) = [] ↔ l'.filter (fun a => key a = k) = [] := by
    constructor
    · intro hnil
      exact List.nil_perm.mp (hnil ▸ hfilter)
    · intro hnil
      exact List.perm_nil.mp (hnil ▸ hfilter)
  rw [lookup_tally, lookup_tally, (hfilter.map value).sum_eq]
  simp only [hnil]

theorem mem_tally {l : List α} {k : κ} : k ∈ tally key value l ↔ ∃ a ∈ l, key a = k := by
  rw [← AList.lookup_isSome, lookup_tally]
  by_cases hnil : l.filter (fun a => key a = k) = []
  · rw [if_pos hnil]
    apply iff_of_false (by simp)
    rintro ⟨a, ha, hk⟩
    have := List.filter_eq_nil_iff.mp hnil a ha
    simp [hk] at this
  · rw [if_neg hnil]
    apply iff_of_true rfl
    obtain ⟨a, ha⟩ := List.exists_mem_of_ne_nil _ hnil
    exact ⟨a, (List.mem_filter.mp ha).1, by simpa using (List.mem_filter.mp ha).2⟩

end

end HashGroup
