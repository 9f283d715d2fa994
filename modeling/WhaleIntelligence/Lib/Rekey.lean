import Mathlib.Data.List.Nodup

/- Renaming some keys of a table with distinct keys.

   A row whose new key is taken is dropped, and then every other row that is renamed
   takes its new key. The keys stay distinct exactly when no two of the rows compete
   for a key that nobody holds (`rekeyed_nodup_iff`): dropping the rows whose key is
   taken says nothing about rows that want the same free key. -/
namespace Rekey

section
variable {ρ κ : Type} [DecidableEq κ] (key : ρ → κ) (setKey : ρ → κ → ρ) (rename : κ → Option κ)

/-- Drops the rows whose new key is taken. -/
def dropStale (rows : List ρ) : List ρ :=
  rows.filter fun r => !(rename (key r)).any fun n => rows.any fun t => key t = n

/-- Gives the rows that are renamed their new keys. -/
def rekeyed (rows : List ρ) : List ρ :=
  rows.map fun r =>
    match rename (key r) with
    | some n => setKey r n
    | none => r

/-- No two of the keys compete for a key that nobody holds. -/
def Uncontested (keys : List κ) : Prop :=
  ∀ k ∈ keys, ∀ k' ∈ keys, ∀ n, rename k = some n → rename k' = some n → n ∉ keys → k = k'

variable {key setKey rename} {rows : List ρ} {a b r : ρ} {n : κ}

theorem mem_dropStale : r ∈ dropStale key rename rows ↔
    r ∈ rows ∧ ∀ n, rename (key r) = some n → n ∉ rows.map key := by
  rw [dropStale, List.mem_filter]
  refine and_congr_right fun _ => ?_
  cases rename (key r) with
  | none => simp
  | some m => simp

/-- What is left after the renaming: the rows that keep their keys, and the rows whose new key was free. -/
theorem mem_rekeyed : r ∈ rekeyed key setKey rename (dropStale key rename rows) ↔
    (r ∈ rows ∧ rename (key r) = none) ∨
      ∃ s ∈ rows, ∃ n, rename (key s) = some n ∧ n ∉ rows.map key ∧ r = setKey s n := by
  rw [rekeyed, List.mem_map]
  refine ⟨fun h => ?_, fun h => ?_⟩
  · obtain ⟨s, hs, rfl⟩ := h
    obtain ⟨hs, hfree⟩ := mem_dropStale.mp hs
    cases hn : rename (key s) with
    | none => exact Or.inl ⟨hs, hn⟩
    | some n => exact Or.inr ⟨s, hs, n, hn, hfree n hn, rfl⟩
  · obtain ⟨hr, hn⟩ | ⟨s, hs, n, hn, hfree, rfl⟩ := h
    · refine ⟨r, mem_dropStale.mpr ⟨hr, fun n h => ?_⟩, by rw [hn]⟩
      rw [hn] at h
      cases h
    · refine ⟨s, mem_dropStale.mpr ⟨hs, fun m hm => ?_⟩, by rw [hn]⟩
      rw [hn] at hm
      cases hm
      exact hfree

theorem rekeyed_nodup_iff (rename : κ → Option κ) (hset : ∀ r n, key (setKey r n) = n) (hkeys : (rows.map key).Nodup) :
    ((rekeyed key setKey rename (dropStale key rename rows)).map key).Nodup ↔ Uncontested rename (rows.map key) := by
  have hdrop : (dropStale key rename rows).Nodup := hkeys.of_map.filter _
  rw [rekeyed, List.map_map, List.nodup_map_iff_inj_on hdrop]
  have hnew : ∀ r, (key ∘ fun r => match rename (key r) with | some n => setKey r n | none => r) r =
      (rename (key r)).getD (key r) := by
    intro r
    show key (match rename (key r) with | some n => setKey r n | none => r) = _
    cases rename (key r) with
    | none => rfl
    | some n => exact hset r n
  simp only [hnew]
  refine ⟨fun h k hk k' hk' n hn hn' hfree => ?_, fun h a ha b hb heq => ?_⟩
  · obtain ⟨a, ha, rfl⟩ := List.mem_map.mp hk
    obtain ⟨b, hb, rfl⟩ := List.mem_map.mp hk'
    have hmem : ∀ r ∈ rows, rename (key r) = some n → r ∈ dropStale key rename rows := by
      intro r hr hn
      refine mem_dropStale.mpr ⟨hr, fun m hm => ?_⟩
      rw [hn] at hm
      cases hm
      exact hfree
    rw [h a (hmem a ha hn) b (hmem b hb hn') (by rw [hn, hn']; rfl)]
  · obtain ⟨ha, hfa⟩ := mem_dropStale.mp ha
    obtain ⟨hb, hfb⟩ := mem_dropStale.mp hb
    have hkey : key a = key b := by
      cases hna : rename (key a) with
      | none =>
        cases hnb : rename (key b) with
        | none => rw [hna, hnb] at heq; exact heq
        | some n =>
          -- `b` takes the key of `a`, which was not free
          rw [hna, hnb] at heq
          obtain rfl : key a = n := heq
          exact absurd (List.mem_map_of_mem ha) (hfb _ hnb)
      | some m =>
        cases hnb : rename (key b) with
        | none =>
          rw [hna, hnb] at heq
          obtain rfl : m = key b := heq
          exact absurd (List.mem_map_of_mem hb) (hfa _ hna)
        | some n =>
          rw [hna, hnb] at heq
          obtain rfl : m = n := heq
          exact h _ (List.mem_map_of_mem ha) _ (List.mem_map_of_mem hb) m hna hnb (hfa m hna)
    exact List.inj_on_of_nodup_map hkeys ha hb hkey

end

end Rekey
