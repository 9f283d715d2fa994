import Mathlib.Data.List.Nodup
import Mathlib.Data.List.Chain
import WhaleIntelligence.Lib.Runs

/- Walks in a transition table.

   A walk enters states one after another along the edges of the table. Where every
   edge raises a rank, no walk enters a state twice and none is longer than the rank
   it gains (`Walk.ranked`, `Walk.length_le`). A state without an edge out of it ends
   the walk that enters it (`Walk.stop_last`). A walk into a region of the table
   enters a gate of the region first (`Walk.gate`). -/
namespace Walks

section
variable {σ : Type}

/-- The walk leads from the one state through those of the list to the other. -/
def Walk (edge : σ → σ → Prop) : σ → List σ → σ → Prop :=
  Runs.Run fun s e t => t = e ∧ edge s e

variable {edge edge' : σ → σ → Prop} {s t u : σ} {path path' : List σ}

theorem walk_nil : Walk edge s [] t ↔ t = s := Iff.rfl

theorem walk_cons : Walk edge s (u :: path) t ↔ edge s u ∧ Walk edge u path t := by
  constructor
  · rintro ⟨r, ⟨rfl, hedge⟩, hrest⟩
    exact ⟨hedge, hrest⟩
  · rintro ⟨hedge, hrest⟩
    exact ⟨u, ⟨rfl, hedge⟩, hrest⟩

theorem walk_append : Walk edge s (path ++ path') u ↔ ∃ t, Walk edge s path t ∧ Walk edge t path' u :=
  Runs.run_append

theorem walk_concat : Walk edge s (path ++ [u]) t ↔ t = u ∧ ∃ r, Walk edge s path r ∧ edge r u := by
  rw [walk_append]
  constructor
  · rintro ⟨r, hr, hu⟩
    obtain ⟨hedge, ht⟩ := walk_cons.mp hu
    exact ⟨walk_nil.mp ht, r, hr, hedge⟩
  · rintro ⟨rfl, r, hr, hedge⟩
    exact ⟨r, hr, walk_cons.mpr ⟨hedge, rfl⟩⟩

theorem Walk.mono (h : Walk edge s path t) (hedge : ∀ a b, edge a b → edge' a b) : Walk edge' s path t :=
  Runs.Run.mono h fun a e _ hstep => ⟨hstep.1, hedge a e hstep.2⟩

/-- Where every edge is kept inside a set of states, so is the walk. -/
theorem Walk.all {P : σ → Prop} (h : Walk edge s path t) (hs : P s) (hedge : ∀ a b, P a → edge a b → P b) :
    ∀ a ∈ path, P a := by
  induction path generalizing s with
  | nil => simp
  | cons u path ih =>
    obtain ⟨hfirst, hrest⟩ := walk_cons.mp h
    have hu := hedge s u hs hfirst
    intro a ha
    rcases List.mem_cons.mp ha with rfl | ha
    · exact hu
    · exact ih hrest hu a ha

/-! ## Ranks -/

section
variable {rank : σ → Nat}

/-- Where every edge raises the rank, so does the walk all the way. -/
theorem Walk.ranked (h : Walk edge s path t) (hrank : ∀ a b, edge a b → rank a < rank b) :
    (s :: path).Pairwise fun a b => rank a < rank b := by
  induction path generalizing s with
  | nil => exact List.pairwise_singleton _ _
  | cons u path ih =>
    obtain ⟨hedge, hrest⟩ := walk_cons.mp h
    have hpath := ih hrest
    have hlt := hrank s u hedge
    refine List.pairwise_cons.mpr ⟨fun b hb => ?_, hpath⟩
    rcases List.mem_cons.mp hb with rfl | hb
    · exact hlt
    · have := (List.pairwise_cons.mp hpath).1 b hb
      omega

/-- Such a walk enters no state twice. -/
theorem Walk.nodup (h : Walk edge s path t) (hrank : ∀ a b, edge a b → rank a < rank b) : (s :: path).Nodup :=
  (h.ranked hrank).imp fun {a b} hlt heq => by
    rw [heq] at hlt
    exact Nat.lt_irrefl _ hlt

/-- Such a walk is no longer than the rank it gains. -/
theorem Walk.length_le (h : Walk edge s path t) (hrank : ∀ a b, edge a b → rank a < rank b) :
    path.length + rank s ≤ rank t := by
  induction path generalizing s with
  | nil =>
    obtain rfl := walk_nil.mp h
    simp
  | cons u path ih =>
    obtain ⟨hedge, hrest⟩ := walk_cons.mp h
    have hgain := ih hrest
    have hlt := hrank s u hedge
    rw [List.length_cons]
    omega

end

/-! ## Stops -/

/-- No edge leads out of the state. -/
def Stop (edge : σ → σ → Prop) (s : σ) : Prop := ∀ t, ¬ edge s t

theorem Walk.stopped (h : Walk edge s path t) (hs : Stop edge s) : path = [] ∧ t = s := by
  cases path with
  | nil => exact ⟨rfl, walk_nil.mp h⟩
  | cons u path => exact absurd (walk_cons.mp h).1 (hs u)

/-- A stop ends the walk that enters it. -/
theorem Walk.stop_last (h : Walk edge s (path ++ u :: path') t) (hu : Stop edge u) : path' = [] ∧ t = u := by
  obtain ⟨r, -, hrest⟩ := walk_append.mp h
  exact (walk_cons.mp hrest).2.stopped hu

/-! ## Gates -/

/-- A walk from outside of a region into it enters the region through a gate, and has been outside of it
all the way there. -/
theorem Walk.gate {region gate : σ → Prop} (h : Walk edge s path t) (hs : ¬ region s) (ht : region t)
    (hgate : ∀ a b, edge a b → ¬ region a → region b → gate b) :
    ∃ before g after, path = before ++ g :: after ∧ gate g ∧ region g ∧ (∀ a ∈ before, ¬ region a) ∧
      Walk edge s (before ++ [g]) g ∧ Walk edge g after t := by
  induction path generalizing s with
  | nil =>
    obtain rfl := walk_nil.mp h
    exact absurd ht hs
  | cons u path ih =>
    obtain ⟨hedge, hrest⟩ := walk_cons.mp h
    by_cases hu : region u
    · refine ⟨[], u, path, rfl, hgate s u hedge hs hu, hu, by simp, ?_, hrest⟩
      exact walk_cons.mpr ⟨hedge, rfl⟩
    · obtain ⟨before, g, after, rfl, hg, hregion, hbefore, hto, hfrom⟩ := ih hrest hu
      refine ⟨u :: before, g, after, rfl, hg, hregion, ?_, walk_cons.mpr ⟨hedge, hto⟩, hfrom⟩
      intro a ha
      rcases List.mem_cons.mp ha with rfl | ha
      · exact hu
      · exact hbefore a ha

/-- In a table of numbered stages whose every edge either goes to the next stage or stays at or above the
limit, a walk from below the limit up to it enters every stage on the way, in order. -/
theorem Walk.climbs {stage : σ → Nat} {limit : Nat} (h : Walk edge s path t)
    (hedge : ∀ a b, edge a b → stage b = stage a + 1 ∨ (limit ≤ stage a ∧ limit ≤ stage b))
    (ht : limit ≤ stage t) (hs : stage s ≤ limit) :
    ∃ before after, path = before ++ after ∧ before.map stage = List.range' (stage s + 1) (limit - stage s) ∧
      ∀ a ∈ after, limit ≤ stage a := by
  induction path generalizing s with
  | nil =>
    obtain rfl := walk_nil.mp h
    have hzero : limit - stage t = 0 := by omega
    exact ⟨[], [], rfl, by rw [hzero]; rfl, by simp⟩
  | cons u path ih =>
    obtain ⟨hfirst, hrest⟩ := walk_cons.mp h
    by_cases hlt : stage s < limit
    · have hu : stage u = stage s + 1 := by
        rcases hedge s u hfirst with hnext | ⟨habove, -⟩
        · exact hnext
        · omega
      obtain ⟨before, after, rfl, hbefore, hafter⟩ := ih hrest (by omega)
      refine ⟨u :: before, after, rfl, ?_, hafter⟩
      have hcount : limit - stage s = limit - stage u + 1 := by omega
      rw [List.map_cons, hbefore, hcount, List.range'_succ, hu]
    · have hzero : limit - stage s = 0 := by omega
      refine ⟨[], u :: path, rfl, by rw [hzero]; rfl, ?_⟩
      refine h.all (show limit ≤ stage s by omega) fun a b ha hab => ?_
      rcases hedge a b hab with hnext | ⟨-, hb⟩
      · omega
      · exact hb

/-- States that are numbered from one stage on are those of the ladder of all stages from there on. -/
theorem eq_of_stages {stage : σ → Nat} {ladder l : List σ} {i n : Nat} (hstages : l.map stage = List.range' i n)
    (hladder : ∀ a ∈ l, ladder[stage a]? = some a) : l = (ladder.drop i).take n := by
  have hlength : l.length = n := by
    rw [← List.length_map stage, hstages, List.length_range']
  refine List.ext_getElem? fun k => ?_
  rw [List.getElem?_take, List.getElem?_drop]
  split
  · next hk =>
    have hkl : k < l.length := by omega
    have hstage : stage l[k] = i + k := by
      have hget : (l.map stage)[k]? = (List.range' i n)[k]? := by rw [hstages]
      rw [List.getElem?_map, List.getElem?_eq_getElem hkl, List.getElem?_range' hk] at hget
      simpa using hget
    rw [← hstage, hladder _ (List.getElem_mem hkl), List.getElem?_eq_getElem hkl]
  · next hk =>
    rw [List.getElem?_eq_none (by omega)]

end

end Walks
