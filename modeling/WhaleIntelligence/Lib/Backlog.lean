import Mathlib.Data.List.Nodup
import Mathlib.Data.List.Perm.Subperm
import Mathlib.Data.List.Sort

/- Batches from the front of a backlog.

   A round serves the first elements of a line. Some of them keep their place, and the
   others leave it. Who keeps a place takes it from the others in every later round, so
   whether all of a line have been served after some rounds is a matter of how many places
   were kept before the last of them (`served_iff`). Where it is settled beforehand who keeps
   a place, an element comes to be served exactly when fewer of those before it do than a
   round serves (`reached_iff`).

   A line in the order of some times comes apart at every time (`sorted_split`), and what
   has no two elements at one time stands in one order only (`sorted_eq`). -/
namespace Backlog

/-! ## What is before an element -/

section
variable {α : Type} {l before after : List α} {a : α} {b : Nat}

theorem mem_take_of_lt (h : before.length < b) : a ∈ (before ++ a :: after).take b := by
  obtain ⟨n, rfl⟩ := Nat.exists_eq_add_of_lt h
  rw [List.take_append, Nat.add_assoc, Nat.add_sub_cancel_left]
  exact List.mem_append_right _ List.mem_cons_self

theorem not_mem_take_of_le (hl : (before ++ a :: after).Nodup) (h : b ≤ before.length) :
    a ∉ (before ++ a :: after).take b := by
  rw [List.take_append_of_le_length h]
  intro ha
  exact List.disjoint_of_nodup_append hl (List.mem_of_mem_take ha) List.mem_cons_self

variable [DecidableEq α]

/-- The elements before one. -/
def ahead (l : List α) (a : α) : List α := l.takeWhile (· != a)

theorem ahead_append (h : a ∈ l) : ∃ after, l = ahead l a ++ a :: after := by
  induction l with
  | nil => cases h
  | cons c l ih =>
    by_cases hca : c = a
    · subst hca
      exact ⟨l, by simp [ahead]⟩
    · obtain ⟨after, hl⟩ := ih ((List.mem_cons.mp h).resolve_left (Ne.symm hca))
      refine ⟨after, ?_⟩
      rw [ahead, List.takeWhile_cons_of_pos (by simpa using hca), List.cons_append]
      exact congrArg (c :: ·) hl

/-- An element is among the first exactly when there are fewer than so many before it. -/
theorem mem_take_iff (hl : l.Nodup) (h : a ∈ l) : a ∈ l.take b ↔ (ahead l a).length < b := by
  obtain ⟨after, heq⟩ := ahead_append h
  rw [heq] at hl
  nth_rewrite 1 [heq]
  refine ⟨fun ha => ?_, mem_take_of_lt⟩
  by_contra hle
  exact not_mem_take_of_le hl (not_lt.mp hle) ha

/-- Those of the first that keep their place, and the rest: the line without the others. -/
theorem front_append_rest (hl : l.Nodup) (b : Nat) (stays : α → Bool) :
    (l.take b).filter stays ++ l.drop b = l.filter fun a => !(decide (a ∈ l.take b) && !stays a) := by
  have hfront : (l.take b).filter stays = (l.take b).filter fun a => !(decide (a ∈ l.take b) && !stays a) :=
    List.filter_congr fun a ha => by simp [ha]
  have hrest : (l.drop b).filter (fun a => !(decide (a ∈ l.take b) && !stays a)) = l.drop b := by
    refine List.filter_eq_self.mpr fun a ha => ?_
    have hnot : a ∉ l.take b := fun htake => List.disjoint_take_drop hl le_rfl htake ha
    simp [hnot]
  calc (l.take b).filter stays ++ l.drop b
      = (l.take b ++ l.drop b).filter fun a => !(decide (a ∈ l.take b) && !stays a) := by
        rw [List.filter_append, ← hfront, hrest]
    _ = l.filter fun a => !(decide (a ∈ l.take b) && !stays a) := by rw [List.take_append_drop]

end

/-! ## Rounds -/

section
variable {α : Type}

/-- A round: the line it finds, what stands behind that line, and which elements keep
their place when they are served. -/
structure Round (α : Type) where
  line : List α
  behind : List α
  stays : α → Bool
  nodup : line.Nodup

variable (b : Nat)

def Round.batch (r : Round α) : List α := (r.line ++ r.behind).take b

/-- Those that were served and keep their place. -/
def Round.kept (r : Round α) : List α := (r.batch b).filter r.stays

/-- The line after the round. -/
def Round.left (r : Round α) : List α := (r.line.take b).filter r.stays ++ r.line.drop b

/-- Each round finds the line that the one before it left. -/
def Rounds : List (Round α) → Prop := List.IsChain fun r s => s.line = r.left b

def served (rs : List (Round α)) : List α := rs.flatMap (Round.batch b)

/-- The places that are kept in all the rounds. -/
def taken (rs : List (Round α)) : Nat := (rs.flatMap (Round.kept b)).length

variable {b} {r : Round α} {rs : List (Round α)} {w u : List α}

theorem kept_le (r : Round α) : (r.kept b).length ≤ b := by
  refine (List.length_filter_le _ _).trans ?_
  rw [Round.batch, List.length_take]
  exact Nat.min_le_left _ _

theorem taken_cons (r : Round α) (rs : List (Round α)) : taken b (r :: rs) = (r.kept b).length + taken b rs := by
  rw [taken, List.flatMap_cons, List.length_append, ← taken]

theorem taken_le (rs : List (Round α)) : taken b rs ≤ b * rs.length := by
  induction rs with
  | nil => exact Nat.zero_le _
  | cons r rs ih =>
    rw [taken_cons, List.length_cons, Nat.mul_succ, Nat.add_comm]
    exact Nat.add_le_add ih (kept_le r)

theorem mem_served_cons {a : α} : a ∈ served b (r :: rs) ↔ a ∈ r.batch b ∨ a ∈ served b rs := by
  rw [served, List.flatMap_cons, List.mem_append]
  exact Iff.rfl

/-- The batch when the line is not at its end yet. -/
theorem batch_of_le (h : b ≤ r.line.length) : r.batch b = r.line.take b := List.take_append_of_le_length h

/-- The front of the line is served when there are places enough for it. -/
theorem subset_batch (hline : r.line = w ++ u) (h : w.length + u.length ≤ b) : ∀ a ∈ u, a ∈ r.batch b := by
  intro a ha
  rw [Round.batch, hline, List.take_append, List.take_of_length_le (by rw [List.length_append]; exact h)]
  exact List.mem_append_left _ (List.mem_append_right _ ha)

/-- What a full round leaves of a line: those in front that keep their place, and the rest. -/
theorem left_eq (hline : r.line = w ++ u) (hw : w.length ≤ b) (hlen : b < w.length + u.length) :
    r.left b = r.kept b ++ u.drop (b - w.length) := by
  have hle : b ≤ r.line.length := by rw [hline, List.length_append]; exact hlen.le
  rw [Round.left, Round.kept, batch_of_le hle, hline, List.drop_append, List.drop_eq_nil_of_le hw, List.nil_append]

/-- What a full round does not reach it does not serve. -/
theorem not_mem_batch (hline : r.line = w ++ u) (hw : w.length ≤ b) (hlen : b < w.length + u.length) :
    ∀ a ∈ u.drop (b - w.length), a ∉ r.batch b := by
  have hle : b ≤ r.line.length := by rw [hline, List.length_append]; exact hlen.le
  intro a ha hbatch
  rw [batch_of_le hle] at hbatch
  have hdrop : a ∈ r.line.drop b := by
    rw [hline, List.drop_append, List.drop_eq_nil_of_le hw, List.nil_append]
    exact ha
  exact List.disjoint_take_drop r.nodup le_rfl hbatch hdrop

/-- The rounds serve all of the line from some place on exactly when that, the places taken
before it, and those kept in all but the last round are no more than they can serve. -/
theorem served_from_iff (h : Rounds b (r :: rs)) (hline : r.line = w ++ u) (hw : w.length ≤ b) :
    (∀ a ∈ u, a ∈ served b (r :: rs)) ↔ u.length + w.length + taken b (r :: rs).dropLast ≤ b * (r :: rs).length := by
  induction rs generalizing r w u with
  | nil =>
    have hnone : taken b [r].dropLast = 0 := rfl
    rw [hnone, List.length_singleton, Nat.mul_one, Nat.add_zero]
    refine ⟨fun hall => ?_, fun hle a ha => ?_⟩
    · by_contra hlen
      have hdrop : u.drop (b - w.length) ≠ [] := by
        rw [Ne, List.drop_eq_nil_iff]
        omega
      obtain ⟨a, ha⟩ := List.exists_mem_of_ne_nil _ hdrop
      refine not_mem_batch hline hw (by omega) a ha ?_
      simpa [served] using hall a (List.mem_of_mem_drop ha)
    · simpa [served] using subset_batch hline (by omega) a ha
  | cons s rs ih =>
    obtain ⟨hnext, hrest⟩ := List.isChain_cons_cons.mp h
    have hdropLast : taken b (r :: s :: rs).dropLast = (r.kept b).length + taken b (s :: rs).dropLast := by
      rw [List.dropLast_cons_cons, taken_cons]
    have hrounds : b * (r :: s :: rs).length = b + b * (s :: rs).length := by
      rw [List.length_cons, Nat.mul_succ, Nat.add_comm]
    have htaken : taken b (s :: rs).dropLast ≤ b * rs.length := by
      have hle := taken_le (b := b) (s :: rs).dropLast
      rwa [List.length_dropLast, List.length_cons, Nat.add_sub_cancel] at hle
    have hkept := kept_le (b := b) r
    rw [hdropLast, hrounds]
    rcases Nat.lt_or_ge b (w.length + u.length) with hlen | hlen
    · -- The round is full: what it leaves is the line of the others.
      have hfresh : (∀ a ∈ u, a ∈ served b (r :: s :: rs)) ↔
          ∀ a ∈ u.drop (b - w.length), a ∈ served b (s :: rs) := by
        refine ⟨fun hall a ha => ?_, fun hall a ha => ?_⟩
        · exact (mem_served_cons.mp (hall a (List.mem_of_mem_drop ha))).resolve_left
            (not_mem_batch hline hw hlen a ha)
        · rw [mem_served_cons]
          rw [← List.take_append_drop (b - w.length) u, List.mem_append] at ha
          refine ha.imp (fun ha => ?_) (hall a)
          rw [batch_of_le (by rw [hline, List.length_append]; exact hlen.le), hline, List.take_append]
          exact List.mem_append_right _ ha
      rw [hfresh, ih hrest (hnext.trans (left_eq hline hw hlen)) hkept, List.length_drop]
      omega
    · -- The round serves all, and the kept places are never more than the rounds can serve.
      have hmul : b * (s :: rs).length = b * rs.length + b := by rw [List.length_cons, Nat.mul_succ]
      refine ⟨fun _ => by omega, fun _ a ha => ?_⟩
      exact mem_served_cons.mpr (Or.inl (subset_batch hline hlen a ha))

/-- The rounds serve all of the line exactly when they have places enough for it and for
those that keep one before the last round. -/
theorem served_iff (h : Rounds b (r :: rs)) :
    (∀ a ∈ r.line, a ∈ served b (r :: rs)) ↔
      r.line.length + taken b (r :: rs).dropLast ≤ b * (r :: rs).length := by
  have hiff := served_from_iff (w := []) h (List.nil_append r.line).symm (Nat.zero_le _)
  rwa [List.length_nil, Nat.add_zero] at hiff

end

/-! ## Elements that always keep their place -/

section
variable {α : Type} {b : Nat} {r : Round α} {rs : List (Round α)} {stays : α → Bool} {a : α} {before after : List α}

/-- What is before an element after a round that does not reach it. -/
def passedBy (b : Nat) (stays : α → Bool) (before : List α) : List α :=
  (before.take b).filter stays ++ before.drop b

theorem left_of_le (hstays : r.stays = stays) (hline : r.line = before ++ a :: after) (hle : b ≤ before.length) :
    r.left b = passedBy b stays before ++ a :: after := by
  rw [Round.left, passedBy, hstays, hline, List.take_append_of_le_length hle, List.drop_append_of_le_length hle,
    List.append_assoc]

/-- The elements that keep their place stay before it. -/
theorem passedBy_filter (before : List α) : (passedBy b stays before).filter stays = before.filter stays := by
  rw [passedBy, List.filter_append, List.filter_filter]
  simp only [Bool.and_self]
  rw [← List.filter_append, List.take_append_drop]

/-- Where not all of a batch keep their place, fewer that do not are left. -/
theorem passedBy_lt (hfew : (before.filter stays).length < b) (hle : b ≤ before.length) :
    ((passedBy b stays before).filter fun a => !stays a).length < (before.filter fun a => !stays a).length := by
  have hnone : ((before.take b).filter stays).filter (fun a => !stays a) = [] := by
    rw [List.filter_filter, List.filter_eq_nil_iff]
    simp
  have hsplit := congrArg List.length (congrArg (List.filter fun a => !stays a) (List.take_append_drop b before))
  rw [List.filter_append, List.length_append] at hsplit
  have hkept : ((before.take b).filter stays).length ≤ (before.filter stays).length :=
    ((List.take_sublist b before).filter stays).length_le
  have htake : (before.take b).length =
      ((before.take b).filter stays).length + ((before.take b).filter fun a => !stays a).length :=
    List.length_eq_length_filter_add stays
  rw [List.length_take, Nat.min_eq_left hle] at htake
  rw [passedBy, List.filter_append, hnone, List.nil_append]
  omega

theorem mem_batch_of_lt (hline : r.line = before ++ a :: after) (hlt : before.length < b) : a ∈ r.batch b := by
  rw [Round.batch, hline, List.append_assoc]
  exact mem_take_of_lt hlt

theorem not_mem_batch_of_le (hline : r.line = before ++ a :: after) (hle : b ≤ before.length) : a ∉ r.batch b := by
  have hlen : b ≤ r.line.length := by
    rw [hline, List.length_append]
    omega
  rw [batch_of_le hlen, hline]
  exact not_mem_take_of_le (hline ▸ r.nodup) hle

/-- An element is not served while a whole batch before it keeps its places. -/
theorem not_reached (h : Rounds b (r :: rs)) (hstays : ∀ s ∈ r :: rs, s.stays = stays)
    (hline : r.line = before ++ a :: after) (hmany : b ≤ (before.filter stays).length) : a ∉ served b (r :: rs) := by
  have hle : b ≤ before.length := hmany.trans (List.length_filter_le _ _)
  induction rs generalizing r before with
  | nil => simpa [served] using not_mem_batch_of_le hline hle
  | cons s rs ih =>
    obtain ⟨hnext, hrest⟩ := List.isChain_cons_cons.mp h
    have hafter := hnext.trans (left_of_le (hstays r List.mem_cons_self) hline hle)
    have hstill : b ≤ ((passedBy b stays before).filter stays).length := by rwa [passedBy_filter]
    rw [mem_served_cons, not_or]
    exact ⟨not_mem_batch_of_le hline hle, ih hrest (fun t ht => hstays t (List.mem_cons_of_mem _ ht)) hafter hstill
      (hstill.trans (List.length_filter_le _ _))⟩

/-- With fewer than a batch that keep their places before it, an element comes nearer in
every round until it is served. -/
theorem reached (h : Rounds b (r :: rs)) (hstays : ∀ s ∈ r :: rs, s.stays = stays)
    (hline : r.line = before ++ a :: after) (hfew : (before.filter stays).length < b)
    (hrounds : (before.filter fun a => !stays a).length ≤ rs.length) : a ∈ served b (r :: rs) := by
  induction rs generalizing r before with
  | nil =>
    have hall : before.length = (before.filter stays).length + (before.filter fun a => !stays a).length :=
      List.length_eq_length_filter_add stays
    rw [List.length_nil] at hrounds
    exact mem_served_cons.mpr (Or.inl (mem_batch_of_lt hline (by omega)))
  | cons s rs ih =>
    rcases Nat.lt_or_ge before.length b with hlt | hle
    · exact mem_served_cons.mpr (Or.inl (mem_batch_of_lt hline hlt))
    · obtain ⟨hnext, hrest⟩ := List.isChain_cons_cons.mp h
      have hafter := hnext.trans (left_of_le (hstays r List.mem_cons_self) hline hle)
      have hnearer := passedBy_lt hfew hle
      rw [List.length_cons] at hrounds
      refine mem_served_cons.mpr (Or.inr (ih hrest (fun t ht => hstays t (List.mem_cons_of_mem _ ht)) hafter ?_ ?_))
      · rwa [passedBy_filter]
      · omega

/-- An element is served within one round for each element before it that leaves its place,
and one for itself, exactly when fewer than a batch of those before it keep theirs. -/
theorem reached_iff (h : Rounds b (r :: rs)) (hstays : ∀ s ∈ r :: rs, s.stays = stays)
    (hline : r.line = before ++ a :: after) (hrounds : (before.filter fun a => !stays a).length ≤ rs.length) :
    a ∈ served b (r :: rs) ↔ (before.filter stays).length < b := by
  refine ⟨fun hserved => ?_, fun hfew => reached h hstays hline hfew hrounds⟩
  by_contra hmany
  exact not_reached h hstays hline (not_lt.mp hmany) hserved

end

/-! ## Lines in the order of times -/

section
variable {ρ τ : Type} [LinearOrder τ] {time : ρ → τ} {l l' : List ρ}

theorem sorted_oldest (time : ρ → τ) (l : List ρ) :
    (l.insertionSort fun a b => time a ≤ time b).Pairwise fun a b => time a ≤ time b := by
  have : Std.Total fun a b : ρ => time a ≤ time b := ⟨fun a b => le_total _ _⟩
  have : IsTrans ρ fun a b => time a ≤ time b := ⟨fun _ _ _ h h' => h.trans h'⟩
  exact List.pairwise_insertionSort _ _

/-- A line in the order of times comes apart at every time. -/
theorem sorted_split (h : l.Pairwise fun a b => time a ≤ time b) (t : τ) :
    l = l.filter (fun a => time a ≤ t) ++ l.filter fun a => !decide (time a ≤ t) := by
  induction l with
  | nil => rfl
  | cons a l ih =>
    obtain ⟨ha, hl⟩ := List.pairwise_cons.mp h
    by_cases hat : time a ≤ t
    · rw [List.filter_cons_of_pos (by simpa using hat), List.filter_cons_of_neg (by simpa using hat), List.cons_append,
        ← ih hl]
    · have hnone : ∀ c ∈ a :: l, ¬time c ≤ t := by
        intro c hc hct
        rcases List.mem_cons.mp hc with rfl | hc
        · exact hat hct
        · exact hat ((ha c hc).trans hct)
      rw [List.filter_eq_nil_iff.mpr (by simpa using hnone), List.nil_append, List.filter_eq_self.mpr]
      simpa using hnone

/-- Elements with no two at one time have one order of the times. -/
theorem sorted_eq (h : l'.Pairwise fun a b => time a ≤ time b) (hl : l.Pairwise fun a b => time a < time b)
    (hperm : l'.Perm l) : l' = l := by
  have htimes : (l.map time).Nodup := List.pairwise_map.mpr (hl.imp fun hac => hac.ne)
  refine hperm.eq_of_pairwise (fun a c ha hc hac hca => ?_) h (hl.imp fun hac => hac.le)
  exact List.inj_on_of_nodup_map htimes (hperm.mem_iff.mp ha) hc (le_antisymm hac hca)

/-- Where an element is put does not depend on those that are left out. -/
theorem filter_orderedInsert (h : l.Pairwise fun a b => time a ≤ time b) (p : ρ → Bool) (a : ρ) :
    (l.orderedInsert (fun a b => time a ≤ time b) a).filter p =
      if p a then (l.filter p).orderedInsert (fun a b => time a ≤ time b) a else l.filter p := by
  induction l with
  | nil => cases hp : p a <;> simp [hp]
  | cons c l ih =>
    obtain ⟨hc, hl⟩ := List.pairwise_cons.mp h
    by_cases hac : time a ≤ time c
    · rw [List.orderedInsert_cons, if_pos hac, List.filter_cons]
      split
      · cases hfilter : (c :: l).filter p with
        | nil => rfl
        | cons d rest =>
          have hd : d ∈ c :: l := List.mem_of_mem_filter (hfilter ▸ List.mem_cons_self : d ∈ (c :: l).filter p)
          have had : time a ≤ time d := by
            rcases List.mem_cons.mp hd with rfl | hd
            · exact hac
            · exact hac.trans (hc d hd)
          rw [List.orderedInsert_cons, if_pos had]
      · rfl
    · rw [List.orderedInsert_cons, if_neg hac, List.filter_cons, List.filter_cons, ih hl]
      cases p c <;> cases p a <;> simp [hac]

/-- Those that are left in a line stand in it as they stood. -/
theorem filter_oldest (p : ρ → Bool) (l : List ρ) :
    (l.insertionSort fun a b => time a ≤ time b).filter p =
      (l.filter p).insertionSort fun a b => time a ≤ time b := by
  induction l with
  | nil => rfl
  | cons a l ih =>
    rw [List.insertionSort_cons, filter_orderedInsert (sorted_oldest time l), ih, List.filter_cons]
    split
    · rw [List.insertionSort_cons]
    · rfl

end

end Backlog
