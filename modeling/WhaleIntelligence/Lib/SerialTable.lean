import Mathlib.Data.List.Sort

/- Append-only tables with a serial id and a unique key, as a relational store
   keeps them: `INSERT … ON CONFLICT DO NOTHING RETURNING id` is the only write,
   and every row satisfies the table's check.

   The table carries its invariants, so what is read from it needs no argument
   about how it was built: ids ascend in insertion order and keys are distinct.
   `newestFirst` is the reading `ORDER BY time DESC, id DESC`; where the rows were
   inserted in the order of their times it is the reverse of insertion
   (`newestFirst_eq_reverse`).

   A chain of ids, each computed from a payload and the id before it, never
   returns to an id it holds (`Chain.fresh`), provided the id determines its
   predecessor. -/
namespace SerialTable

/-! ## The table -/

section
variable {ρ κ : Type}

/-- Rows with their serial ids, in insertion order. -/
structure Table (key : ρ → κ) (check : ρ → Prop) where
  rows : List (Nat × ρ)
  nextId : Nat
  keys_nodup : (rows.map fun r => key r.2).Nodup
  ids_ascending : rows.Pairwise fun a b => a.1 < b.1
  ids_lt : ∀ r ∈ rows, r.1 < nextId
  checked : ∀ r ∈ rows, check r.2

namespace Table
variable {key : ρ → κ} {check : ρ → Prop}

def empty : Table key check :=
  ⟨[], 1, List.nodup_nil, List.Pairwise.nil, (fun _ h => nomatch h), (fun _ h => nomatch h)⟩

def keys (t : Table key check) : List κ := t.rows.map fun r => key r.2

theorem mem_keys {t : Table key check} {k : κ} : k ∈ t.keys ↔ ∃ r ∈ t.rows, key r.2 = k := List.mem_map

/-- The next serial id is used up. -/
def skip (t : Table key check) : Table key check :=
  { t with nextId := t.nextId + 1, ids_lt := fun r hr => Nat.lt_succ_of_lt (t.ids_lt r hr) }

/-- A row with a new key goes to the end. -/
def push (t : Table key check) (r : ρ) (hk : key r ∉ t.keys) (hc : check r) : Table key check where
  rows := t.rows ++ [(t.nextId, r)]
  nextId := t.nextId + 1
  keys_nodup := by
    rw [List.map_append, List.map_singleton, List.nodup_append]
    refine ⟨t.keys_nodup, List.nodup_singleton _, ?_⟩
    rintro a ha b hb rfl
    rw [List.mem_singleton] at hb
    exact hk (hb ▸ ha)
  ids_ascending := by
    rw [List.pairwise_append]
    refine ⟨t.ids_ascending, List.pairwise_singleton _ _, ?_⟩
    intro a ha b hb
    rw [List.mem_singleton] at hb
    subst hb
    exact t.ids_lt a ha
  ids_lt := by
    intro a ha
    rcases List.mem_append.mp ha with ha | ha
    · exact Nat.lt_succ_of_lt (t.ids_lt a ha)
    · rw [List.mem_singleton] at ha
      subst ha
      exact Nat.lt_succ_self _
  checked := by
    intro a ha
    rcases List.mem_append.mp ha with ha | ha
    · exact t.checked a ha
    · rw [List.mem_singleton] at ha
      subst ha
      exact hc

/-- `INSERT … ON CONFLICT DO NOTHING RETURNING id`. A conflict uses up an id too. -/
def insert [DecidableEq κ] (t : Table key check) (r : ρ) (hc : check r) : Table key check × Option Nat :=
  if hk : key r ∈ t.keys then (t.skip, none) else (t.push r hk hc, some t.nextId)

variable [DecidableEq κ] {t : Table key check} {r : ρ} {hc : check r}

theorem insert_conflict (hk : key r ∈ t.keys) : t.insert r hc = (t.skip, none) := by
  rw [insert, dif_pos hk]

theorem insert_new (hk : key r ∉ t.keys) : t.insert r hc = (t.push r hk hc, some t.nextId) := by
  rw [insert, dif_neg hk]

end Table

/-! ## The newest row first -/

/-- `ORDER BY time DESC, id DESC`. -/
def newer (time : ρ → Int) (a b : Nat × ρ) : Prop :=
  time b.2 < time a.2 ∨ (time b.2 = time a.2 ∧ b.1 ≤ a.1)

instance (time : ρ → Int) : DecidableRel (newer time) := fun _ _ => inferInstanceAs (Decidable (_ ∨ _))

def newestFirst (time : ρ → Int) (l : List (Nat × ρ)) : List (Nat × ρ) := l.reverse.insertionSort (newer time)

/-- Rows inserted in the order of their times are read backwards. -/
theorem newestFirst_eq_reverse {time : ρ → Int} {l : List (Nat × ρ)} (hid : l.Pairwise fun a b => a.1 < b.1)
    (htime : l.Pairwise fun a b => time a.2 ≤ time b.2) : newestFirst time l = l.reverse := by
  apply List.Pairwise.insertionSort_eq
  rw [List.pairwise_reverse]
  apply (hid.and htime).imp
  intro a b h
  obtain ⟨h1, h2⟩ := h
  rcases lt_or_eq_of_le h2 with h2 | h2
  · exact Or.inl h2
  · exact Or.inr ⟨h2, Nat.le_of_lt h1⟩

theorem eq_of_id_eq {l : List (Nat × ρ)} (hid : l.Pairwise fun a b => a.1 < b.1) {a b : Nat × ρ}
    (ha : a ∈ l) (hb : b ∈ l) (h : a.1 = b.1) : a = b := by
  have hnodup : (l.map Prod.fst).Nodup := List.pairwise_map.mpr (hid.imp fun h => Nat.ne_of_lt h)
  exact List.inj_on_of_nodup_map hnodup ha hb h

/-- Read backwards, the first row of a kind is the one with the highest id. -/
theorem find?_reverse_eq_some_iff {l : List (Nat × ρ)} (hid : l.Pairwise fun a b => a.1 < b.1)
    {p : Nat × ρ → Bool} {r : Nat × ρ} :
    l.reverse.find? p = some r ↔ r ∈ l ∧ p r = true ∧ ∀ s ∈ l, p s = true → s.1 ≤ r.1 := by
  have hfound : ∀ b, l.reverse.find? p = some b → b ∈ l ∧ p b = true ∧ ∀ s ∈ l, p s = true → s.1 ≤ b.1 := by
    intro b hb
    obtain ⟨hpb, front, back, hl, hfront⟩ := List.find?_eq_some_iff_append.mp hb
    refine ⟨List.mem_reverse.mp (List.mem_of_find?_eq_some hb), hpb, fun s hs hps => ?_⟩
    have hdesc := List.pairwise_reverse.mpr hid
    rw [hl] at hdesc
    rw [← List.mem_reverse, hl] at hs
    rcases List.mem_append.mp hs with hs | hs
    · have hno := hfront s hs
      rw [hps] at hno
      cases hno
    · rcases List.mem_cons.mp hs with rfl | hs
      · exact Nat.le_refl _
      · exact Nat.le_of_lt ((List.pairwise_cons.mp (List.pairwise_append.mp hdesc).2.1).1 s hs)
  refine ⟨hfound r, ?_⟩
  intro h
  obtain ⟨hr, hpr, hmax⟩ := h
  cases hf : l.reverse.find? p with
  | none => exact absurd hpr (List.find?_eq_none.mp hf r (List.mem_reverse.mpr hr))
  | some b =>
    obtain ⟨hb, hpb, hbmax⟩ := hfound b hf
    rw [eq_of_id_eq hid hr hb (Nat.le_antisymm (hbmax r hr hpr) (hmax b hb hpb))]

end

/-! ## Chains of ids -/

section
variable {π ι : Type} (next : π → ι → ι) (start : ι)

/-- Ids, the newest first, each computed from the one before it. -/
inductive Chain : List ι → Prop
  | nil : Chain []
  | cons (p : π) (l : List ι) : Chain l → Chain (next p (l.headD start) :: l)

variable {next start}

/-- The next id of a chain is none of its ids. -/
theorem Chain.fresh (hinj : ∀ p q a b, next p a = next q b → a = b) (hstart : ∀ p a, next p a ≠ start)
    {l : List ι} (hl : Chain next start l) : ∀ p, next p (l.headD start) ∉ l := by
  induction hl with
  | nil => intro p; simp
  | cons q l hl ih =>
    intro p hmem
    rw [List.headD_cons] at hmem
    rcases List.mem_cons.mp hmem with heq | hmem
    · -- the id before the head would be the head itself
      have hhead : next q (l.headD start) = l.headD start := hinj _ _ _ _ heq
      cases l with
      | nil => exact hstart q _ hhead
      | cons a l =>
        apply ih q
        rw [hhead]
        exact List.mem_cons_self
    · -- an older id has an older predecessor, and the head is newer than that
      have hold : ∀ m, Chain next start m → next p (next q (l.headD start)) ∈ m →
          next q (l.headD start) ∈ m := by
        intro m hm
        induction hm with
        | nil => intro h; cases h
        | cons q' m hm' ihm =>
          intro h
          rcases List.mem_cons.mp h with heq | h
          · have hpre : next q (l.headD start) = m.headD start := hinj _ _ _ _ heq
            cases m with
            | nil => exact absurd hpre (hstart q _)
            | cons a m => exact List.mem_cons_of_mem _ (hpre ▸ List.mem_cons_self)
          · exact List.mem_cons_of_mem _ (ihm h)
      exact ih q (hold l hl hmem)

end

end SerialTable
