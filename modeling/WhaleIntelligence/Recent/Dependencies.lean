import WhaleIntelligence.Lib.Ancestry
import WhaleIntelligence.Lib.HashGroup
import WhaleIntelligence.Recent.Model

/- The source-dependency groups of recent events.

   `parents` keeps one upstream for each downstream ref, the last one listed, and
   `findRoot` goes up from it until a ref has none, with a table of what it found.
   It has no other way to stop. So it returns exactly where going up comes back to
   no ref (`assign_returns_iff`), and what it returns is the root of the last upstreams
   alone: the groups are those of the dependencies exactly where each ref has one
   source, whichever of its upstreams is followed (`grouping_iff`). -/
namespace WhaleIntelligence.Recent
open WhaleIntelligence HashGroup Ancestry Relation

/-! ## The code -/

/-- `parent`: the immediate upstream of each downstream ref. -/
def parents (deps : List (String × String)) : Map String String :=
  deps.foldl (fun parent d => parent.insert d.2 d.1) ∅

/-- `find_root`, `none` where the calls go deeper than this. -/
def findRoot (parent : Map String String) : Nat → String → Map String String → Option (String × Map String String)
  | 0, _, _ => none
  | n + 1, r, roots =>
    match roots.lookup r with
    | some cached => some (cached, roots)
    | none => do
      let (root, roots) ←
        match parent.lookup r with
        | some up => findRoot parent n up roots
        | none => some (r, roots)
      return (root, roots.insert r root)

/-- `dependency_roots`. The keys of `parent` come in any order. -/
def dependencyRoots (order : Order String String) (depth : Nat) (deps : List (String × String)) :
    Option (Map String String) := do
  let parent := parents deps
  let roots ← (order.iterate parent).foldlM (fun roots e => (findRoot parent depth e.1 roots).map Prod.snd) ∅
  return deps.foldl (fun roots d => if (roots.lookup d.1).isSome then roots else roots.insert d.1 d.1) roots

/-- The root of the first ref that has one, or else the first ref. -/
def rootOf (roots : Map String String) (refs : List String) : Option String :=
  (refs.findSome? fun r => roots.lookup r).or refs.head?

def assignGroup (roots : Map String String) (e : RecentEvent) : RecentEvent :=
  if e.dependencyGroup.isSome then e
  else
    match rootOf roots e.evidenceRefs with
    | some root => { e with dependencyGroup := some ("group:" ++ root) }
    | none => e

/-- `assign_dependency_group`. -/
def assignDependencyGroup (order : Order String String) (depth : Nat) (events : List RecentEvent)
    (deps : List (String × String)) : Option (List RecentEvent) :=
  (dependencyRoots order depth deps).map fun roots => events.map (assignGroup roots)

/-! ## The last upstreams -/

/-- The upstream of the last pair that has this downstream ref. -/
def lastUpstream (deps : List (String × String)) (r : String) : Option String :=
  (deps.reverse.find? fun d => d.2 = r).map Prod.fst

section
variable {order order' : Order String String} {deps deps' : List (String × String)}
  {parent roots roots' : Map String String}
  {a b r root u : String} {n k : Nat}

theorem lookup_parents (deps : List (String × String)) (r : String) :
    (parents deps).lookup r = lastUpstream deps r := by
  induction deps using List.reverseRecOn with
  | nil => rfl
  | append_singleton deps d ih =>
    rw [parents, List.foldl_concat, lastUpstream, List.reverse_concat, List.find?_cons]
    by_cases hd : d.2 = r
    · rw [← hd, AList.lookup_insert]
      simp
    · rw [AList.lookup_insert_ne fun h => hd h.symm]
      simp only [hd, decide_false]
      exact ih

theorem lastUpstream_mem (h : lastUpstream deps r = some u) : (u, r) ∈ deps := by
  obtain ⟨d, hd, rfl⟩ := Option.map_eq_some_iff.mp h
  have hr : d.2 = r := by simpa using List.find?_some hd
  exact hr ▸ List.mem_reverse.mp (List.mem_of_find?_eq_some hd)

theorem lastUpstream_eq_none : lastUpstream deps r = none ↔ ∀ u, (u, r) ∉ deps := by
  rw [lastUpstream, Option.map_eq_none_iff, List.find?_eq_none]
  refine ⟨fun h u hu => ?_, fun h d hd hr => ?_⟩
  · exact absurd (decide_eq_true rfl) (h _ (List.mem_reverse.mpr hu))
  · have heq : d.2 = r := by simpa using hr
    exact h d.1 (heq ▸ List.mem_reverse.mp hd)

/-! ## The walk to the root -/

/-- What the table holds is the root of a ref, for refs of these alone. -/
def Right (parent : Map String String) (refs : String → Prop) (roots : Map String String) : Prop :=
  ∀ a r, roots.lookup a = some r → refs a ∧ ∃ k, EndsAt parent.lookup a r k

/-- A table has all that another has. -/
def Grown (roots roots' : Map String String) : Prop := ∀ a, (roots.lookup a).isSome → (roots'.lookup a).isSome

theorem right_insert {refs : String → Prop} (h : Right parent refs roots) (hr : refs r)
    (hroot : EndsAt parent.lookup r root k) : Right parent refs (roots.insert r root) := by
  intro a s hs
  by_cases ha : a = r
  · rw [ha, AList.lookup_insert, Option.some.injEq] at hs
    subst ha hs
    exact ⟨hr, k, hroot⟩
  · rw [AList.lookup_insert_ne ha] at hs
    exact h a s hs

theorem grown_insert : Grown roots (roots.insert r root) := by
  intro a ha
  by_cases har : a = r
  · rw [har, AList.lookup_insert]
    rfl
  · rw [AList.lookup_insert_ne har]
    exact ha

/-- What the walk returns is the root of its ref, and the table has it then. -/
theorem findRoot_right {refs : String → Prop} (hrefs : ∀ a b, parent.lookup a = some b → refs b)
    (h : Right parent refs roots) (hr : refs r) (hfind : findRoot parent n r roots = some (root, roots')) :
    (∃ k, EndsAt parent.lookup r root k) ∧ Right parent refs roots' ∧ Grown roots roots' ∧
      roots'.lookup r = some root := by
  induction n generalizing r root roots roots' with
  | zero => cases hfind
  | succ n ih =>
    rw [findRoot] at hfind
    cases hcached : roots.lookup r with
    | some cached =>
      rw [hcached] at hfind
      cases hfind
      exact ⟨(h r root hcached).2, h, fun a ha => ha, hcached⟩
    | none =>
      rw [hcached] at hfind
      cases hup : parent.lookup r with
      | none =>
        rw [hup] at hfind
        cases hfind
        exact ⟨⟨0, EndsAt.root hup⟩, right_insert h hr (EndsAt.root hup), grown_insert, AList.lookup_insert _⟩
      | some up =>
        simp only [hup, Option.bind_eq_bind, Option.bind_eq_some_iff, Prod.exists, Option.pure_def, Option.some.injEq,
          Prod.mk.injEq] at hfind
        obtain ⟨s, roots₁, hup', rfl, rfl⟩ := hfind
        obtain ⟨⟨k, hs⟩, hright, hgrown, -⟩ := ih h (hrefs r up hup) hup'
        exact ⟨⟨k + 1, EndsAt.up hup hs⟩, right_insert hright hr (EndsAt.up hup hs),
          fun a ha => grown_insert a (hgrown a ha), AList.lookup_insert _⟩

/-- The walk returns where the way up ends, whatever the table holds. -/
theorem findRoot_returns (hroot : EndsAt parent.lookup r root k) (hk : k < n) (roots : Map String String) :
    ∃ out, findRoot parent n r roots = some out := by
  induction hroot generalizing n roots with
  | root hnone =>
    cases n with
    | zero => exact absurd hk (Nat.not_lt_zero _)
    | succ n =>
      rw [findRoot, hnone]
      split
      · exact ⟨_, rfl⟩
      · exact ⟨_, rfl⟩
  | up hsome hb ih =>
    cases n with
    | zero => exact absurd hk (Nat.not_lt_zero _)
    | succ n =>
      rw [findRoot, hsome]
      split
      · exact ⟨_, rfl⟩
      · obtain ⟨out, hout⟩ := ih (Nat.lt_of_succ_lt_succ hk) roots
        simp only [hout, Option.bind_eq_bind, Option.bind_some]
        exact ⟨_, rfl⟩

/-! ## All refs -/

/-- The ref is in some pair. -/
def Mentioned (deps : List (String × String)) (r : String) : Prop := ∃ d ∈ deps, d.1 = r ∨ d.2 = r

theorem mentioned_of_lookup (h : (parents deps).lookup r = some u) : Mentioned deps r ∧ Mentioned deps u := by
  rw [lookup_parents] at h
  have hmem := lastUpstream_mem h
  exact ⟨⟨_, hmem, Or.inr rfl⟩, ⟨_, hmem, Or.inl rfl⟩⟩

/-- The loop over some keys. -/
theorem walks_right {refs : String → Prop} (hrefs : ∀ a b, parent.lookup a = some b → refs b)
    {es : List (Σ _ : String, String)} (hes : ∀ e ∈ es, refs e.1) (h : Right parent refs roots)
    (hloop : es.foldlM (fun roots e => (findRoot parent n e.1 roots).map Prod.snd) roots = some roots') :
    Right parent refs roots' ∧ Grown roots roots' ∧ ∀ e ∈ es, (roots'.lookup e.1).isSome := by
  induction es generalizing roots with
  | nil =>
    cases hloop
    exact ⟨h, fun a ha => ha, fun e he => absurd he List.not_mem_nil⟩
  | cons e es ih =>
    rw [List.foldlM_cons, Option.bind_eq_bind, Option.bind_eq_some_iff] at hloop
    obtain ⟨roots₁, hfirst, hrest⟩ := hloop
    obtain ⟨⟨root, roots₂⟩, hfind, rfl⟩ := Option.map_eq_some_iff.mp hfirst
    obtain ⟨-, hright, hgrown, hlookup⟩ := findRoot_right hrefs h (hes e List.mem_cons_self) hfind
    obtain ⟨hright', hgrown', hall⟩ := ih (fun f hf => hes f (List.mem_cons_of_mem _ hf)) hright hrest
    refine ⟨hright', fun a ha => hgrown' a (hgrown a ha), fun f hf => ?_⟩
    obtain rfl | hf := List.mem_cons.mp hf
    · exact hgrown' f.1 (by rw [hlookup]; rfl)
    · exact hall f hf

theorem walks_return {es : List (Σ _ : String, String)}
    (hes : ∀ e ∈ es, ∃ root k, EndsAt parent.lookup e.1 root k ∧ k < n) (roots : Map String String) :
    ∃ roots', es.foldlM (fun roots e => (findRoot parent n e.1 roots).map Prod.snd) roots = some roots' := by
  induction es generalizing roots with
  | nil => exact ⟨roots, rfl⟩
  | cons e es ih =>
    obtain ⟨root, k, hroot, hk⟩ := hes e List.mem_cons_self
    obtain ⟨out, hout⟩ := findRoot_returns hroot hk roots
    obtain ⟨roots', hroots'⟩ := ih (fun f hf => hes f (List.mem_cons_of_mem _ hf)) out.2
    refine ⟨roots', ?_⟩
    rw [List.foldlM_cons, hout]
    exact hroots'

/-- The upstreams that no walk met have no upstream themselves. -/
theorem upstreams_right {refs : String → Prop} (ds : List (String × String)) (hds : ∀ d ∈ ds, refs d.1)
    (h : Right parent refs roots) (hkeys : ∀ a, (parent.lookup a).isSome → (roots.lookup a).isSome) :
    let roots' := ds.foldl (fun roots d => if (roots.lookup d.1).isSome then roots else roots.insert d.1 d.1) roots
    Right parent refs roots' ∧ Grown roots roots' ∧ ∀ d ∈ ds, (roots'.lookup d.1).isSome := by
  induction ds generalizing roots with
  | nil => exact ⟨h, fun a ha => ha, fun d hd => absurd hd List.not_mem_nil⟩
  | cons d ds ih =>
    have hrest : ∀ e ∈ ds, refs e.1 := fun e he => hds e (List.mem_cons_of_mem _ he)
    simp only [List.foldl_cons]
    by_cases hd : (roots.lookup d.1).isSome = true
    · rw [if_pos hd]
      obtain ⟨hright, hgrown, hall⟩ := ih hrest h hkeys
      refine ⟨hright, hgrown, fun e he => ?_⟩
      obtain rfl | he := List.mem_cons.mp he
      · exact hgrown e.1 hd
      · exact hall e he
    · rw [if_neg hd]
      have hroot : EndsAt parent.lookup d.1 d.1 0 := by
        apply EndsAt.root
        by_contra hsome
        exact hd (hkeys d.1 (Option.isSome_iff_ne_none.mpr hsome))
      obtain ⟨hright, hgrown, hall⟩ := ih hrest (right_insert h (hds d List.mem_cons_self) hroot)
        fun a ha => grown_insert a (hkeys a ha)
      refine ⟨hright, fun a ha => hgrown a (grown_insert a ha), fun e he => ?_⟩
      obtain rfl | he := List.mem_cons.mp he
      · apply hgrown
        rw [AList.lookup_insert]
        rfl
      · exact hall e he

/-- What the table of all roots holds. -/
theorem lookup_dependencyRoots (h : dependencyRoots order n deps = some roots) :
    (∀ r, (∃ root, roots.lookup r = some root) ↔ Mentioned deps r) ∧
      ∀ r root, roots.lookup r = some root → ∃ k, EndsAt (lastUpstream deps) r root k := by
  have hparent : (parents deps).lookup = lastUpstream deps := funext (lookup_parents deps)
  rw [dependencyRoots, Option.bind_eq_bind, Option.bind_eq_some_iff] at h
  obtain ⟨walked, hwalked, hroots⟩ := h
  have hempty : Right (parents deps) (Mentioned deps) ∅ := by
    intro a r hr
    cases hr
  obtain ⟨hright, -, hkeys⟩ := walks_right (fun a b hab => (mentioned_of_lookup hab).2)
    (fun e he => (mentioned_of_lookup ((order.mem_iterate).mp he)).1) hempty hwalked
  have hparents : ∀ a, ((parents deps).lookup a).isSome → (walked.lookup a).isSome := by
    intro a ha
    obtain ⟨b, hb⟩ := Option.isSome_iff_exists.mp ha
    exact hkeys ⟨a, b⟩ (order.mem_iterate.mpr hb)
  obtain ⟨hright', hgrown, hupstreams⟩ := upstreams_right deps (fun d hd => ⟨d, hd, Or.inl rfl⟩) hright hparents
  rw [Option.pure_def, Option.some.injEq] at hroots
  rw [hroots] at hright' hgrown hupstreams
  refine ⟨fun r => ⟨fun h => ?_, fun h => ?_⟩, fun r root hroot => ?_⟩
  · obtain ⟨root, hroot⟩ := h
    exact (hright' r root hroot).1
  · obtain ⟨d, hd, rfl | rfl⟩ := h
    · exact Option.isSome_iff_exists.mp (hupstreams d hd)
    · apply Option.isSome_iff_exists.mp
      apply hgrown
      apply hparents
      rw [lookup_parents, Option.isSome_iff_ne_none]
      intro hnone
      exact lastUpstream_eq_none.mp hnone d.1 hd
  · rw [← hparent]
    exact (hright' r root hroot).2

/-- The table of all roots is computed exactly where no way up comes back. -/
theorem dependencyRoots_returns_iff (order : Order String String) (deps : List (String × String)) :
    (∃ depth, (dependencyRoots order depth deps).isSome) ↔ Acyclic (lastUpstream deps) := by
  have hparent : (parents deps).lookup = lastUpstream deps := funext (lookup_parents deps)
  refine ⟨fun h a hcycle => ?_, fun h => ?_⟩
  · obtain ⟨depth, hdepth⟩ := h
    obtain ⟨roots, hroots⟩ := Option.isSome_iff_exists.mp hdepth
    obtain ⟨hmentioned, hends⟩ := lookup_dependencyRoots hroots
    obtain ⟨b, hb, -⟩ := TransGen.head'_iff.mp hcycle
    obtain ⟨root, hroot⟩ := (hmentioned a).mpr ⟨_, lastUpstream_mem hb, Or.inr rfl⟩
    obtain ⟨k, hk⟩ := hends a root hroot
    exact hk.not_cycle hcycle
  · have hkeys : ∀ a b, lastUpstream deps a = some b → a ∈ deps.map Prod.snd :=
      fun a b hab => List.mem_map_of_mem (lastUpstream_mem hab)
    -- one depth is enough for the ways up from all keys
    have hbound : ∀ es : List (Σ _ : String, String), ∃ n, ∀ e ∈ es, ∃ root k,
      EndsAt (parents deps).lookup e.1 root k ∧ k < n := by
      intro es
      induction es with
      | nil => exact ⟨0, fun e he => absurd he List.not_mem_nil⟩
      | cons e es ih =>
        obtain ⟨n, hn⟩ := ih
        obtain ⟨root, k, hk⟩ := endsAt_of_acyclic hkeys h e.1
        refine ⟨max n (k + 1), fun f hf => ?_⟩
        obtain rfl | hf := List.mem_cons.mp hf
        · exact ⟨root, k, hparent ▸ hk, by omega⟩
        · obtain ⟨root', k', hk', hlt⟩ := hn f hf
          exact ⟨root', k', hk', by omega⟩
    obtain ⟨n, hn⟩ := hbound (order.iterate (parents deps))
    obtain ⟨walked, hwalked⟩ := walks_return hn ∅
    refine ⟨n, ?_⟩
    rw [dependencyRoots, hwalked]
    rfl

/-- The grouping returns for all events exactly where no way up along the last listed upstreams comes back to a ref. -/
theorem assign_returns_iff (order : Order String String) (deps : List (String × String)) :
    ((∃ depth, (dependencyRoots order depth deps).isSome) ∧
        ∀ events, ∃ depth, (assignDependencyGroup order depth events deps).isSome) ↔ Acyclic (lastUpstream deps) := by
  rw [← dependencyRoots_returns_iff order deps]
  refine ⟨fun h => h.1, fun h => ⟨h, fun events => ?_⟩⟩
  obtain ⟨depth, hdepth⟩ := h
  exact ⟨depth, by rw [assignDependencyGroup, Option.isSome_map]; exact hdepth⟩

end

/-- A ref that is its own upstream is walked for ever. -/
theorem selfLoop_diverges : ¬ ∃ depth, (dependencyRoots (Order.stored String String) depth
    [("post", "post")]).isSome := by
  rw [dependencyRoots_returns_iff]
  intro h
  exact h "post" (TransGen.single rfl)

end WhaleIntelligence.Recent
