import Mathlib.Data.List.Basic

/- Parties of a system, counted by what they are at.

   A step of one party moves it from the counts that it was in to those it is in. -/
namespace Parties

variable {α : Type} {parties : List α} {i : Nat} {party : α}

theorem countP_set (h : parties[i]? = some party) (p : α → Bool) (new : α) :
    (parties.set i new).countP p + (if p party then 1 else 0) = parties.countP p + if p new then 1 else 0 := by
  obtain ⟨hi, hget⟩ := List.getElem?_eq_some_iff.mp h
  have hset := List.countP_set (p := p) (a := new) hi
  rw [hget] at hset
  have hpos : p party = true → 0 < parties.countP p := fun hp =>
    List.countP_pos_iff.mpr ⟨party, List.mem_of_getElem? h, hp⟩
  by_cases hp : p party = true
  · have hone := hpos hp
    rw [if_pos hp] at hset ⊢
    omega
  · rw [if_neg hp] at hset ⊢
    omega

/-- The step stays in the count, or out of it. -/
theorem countP_set_of_eq (h : parties[i]? = some party) {p : α → Bool} {new : α} (hp : p new = p party) :
    (parties.set i new).countP p = parties.countP p := by
  have hset := countP_set h p new
  rw [hp] at hset
  omega

end Parties
