import WhaleIntelligence.Recent.Dependencies

/- The groups of the dependencies, against the groups that the table gives.

   Copies of one ref belong together. The table follows one upstream of each ref, so a
   ref with two sources is put with one of them and not with the other, and with which
   depends on the order of the list (`twoSources_split`). Where each ref has one source
   every walk ends there, and the groups are as they should be (`grouping_iff`). -/
namespace WhaleIntelligence.Recent
open WhaleIntelligence HashGroup Ancestry Relation

/-- The second ref is listed as a copy of the first. -/
def Copy (deps : List (String × String)) (u d : String) : Prop := (u, d) ∈ deps

/-- A ref without an upstream. -/
def Source (deps : List (String × String)) (s : String) : Prop := ∀ u, ¬ Copy deps u s

/-- No ref is, directly or not, a copy of two sources. -/
def SingleSource (deps : List (String × String)) : Prop :=
  ∀ r s s', Source deps s → Source deps s' → ReflTransGen (Copy deps) s r → ReflTransGen (Copy deps) s' r → s = s'

/-- What the grouping of events without groups is for. -/
structure Grouping (deps : List (String × String)) (order : Order String String)
    (events out : List RecentEvent) : Prop where
  /-- Events of one ref each, one a copy of the other, are in one group. -/
  together : ∀ {i j : Nat} {e e' o o' : RecentEvent} {r r' : String}, events[i]? = some e → events[j]? = some e' →
    out[i]? = some o → out[j]? = some o' → e.evidenceRefs = [r] → e'.evidenceRefs = [r'] →
    TransGen (Copy deps) r r' → o.dependencyGroup = o'.dependencyGroup
  /-- A ref has a root, and a root has no upstream. -/
  rooted : ∀ {depth roots r}, dependencyRoots order depth deps = some roots → Mentioned deps r →
    ∃ root, roots.lookup r = some root ∧ Source deps root
  /-- The order of the list does not matter. -/
  unordered : ∀ {deps'}, deps'.Perm deps → ∀ order', ∃ depth, assignDependencyGroup order' depth events deps' = some out

section
variable {order order' : Order String String} {deps deps' : List (String × String)} {roots roots' : Map String String}
  {a b r root u : String} {n k : Nat}

theorem source_iff : Source deps r ↔ lastUpstream deps r = none := lastUpstream_eq_none.symm

/-- A way up along the last upstreams is a chain of copies. -/
theorem copies_of_reaches (h : ReflTransGen (Up (lastUpstream deps)) r root) : ReflTransGen (Copy deps) root r := by
  induction h with
  | refl => exact ReflTransGen.refl
  | tail _ hup ih => exact ReflTransGen.head (lastUpstream_mem hup) ih

theorem acyclic_lastUpstream (hacyclic : ∀ r, ¬ TransGen (Copy deps) r r) : Acyclic (lastUpstream deps) := by
  intro a h
  obtain ⟨b, hup, hrest⟩ := TransGen.head'_iff.mp h
  exact hacyclic a (TransGen.tail' (copies_of_reaches hrest) (lastUpstream_mem hup))

/-- Where the ways up end, a source of the ref is found. -/
theorem source_of_endsAt (h : EndsAt (lastUpstream deps) r root k) :
    Source deps root ∧ ReflTransGen (Copy deps) root r :=
  ⟨source_iff.mpr h.no_parent, copies_of_reaches h.reaches⟩

/-! ## The roots that are assigned -/

/-- An event of one ref is put with a source of it. -/
theorem rootOf_single (hroots : dependencyRoots order n deps = some roots) (r : String) :
    ∃ root, rootOf roots [r] = some root ∧ Source deps root ∧ ReflTransGen (Copy deps) root r := by
  obtain ⟨hmentioned, hends⟩ := lookup_dependencyRoots hroots
  cases hr : roots.lookup r with
  | some root =>
    obtain ⟨k, hk⟩ := hends r root hr
    exact ⟨root, by simp [rootOf, hr], source_of_endsAt hk⟩
  | none =>
    refine ⟨r, by simp [rootOf, hr], fun u hu => ?_, ReflTransGen.refl⟩
    obtain ⟨root, hroot⟩ := (hmentioned r).mpr ⟨_, hu, Or.inr rfl⟩
    rw [hr] at hroot
    cases hroot

theorem assignGroup_single {e : RecentEvent} (hroots : dependencyRoots order n deps = some roots)
    (hnone : e.dependencyGroup = none) (hrefs : e.evidenceRefs = [r]) :
    ∃ root, (assignGroup roots e).dependencyGroup = some ("group:" ++ root) ∧ Source deps root ∧
      ReflTransGen (Copy deps) root r := by
  obtain ⟨root, hroot, hsource⟩ := rootOf_single hroots r
  refine ⟨root, ?_, hsource⟩
  rw [assignGroup, hnone, hrefs, hroot]
  rfl

theorem copy_perm (hperm : deps'.Perm deps) : Copy deps' = Copy deps := by
  funext u d
  exact propext hperm.mem_iff

theorem mentioned_perm (hperm : deps'.Perm deps) : Mentioned deps' r ↔ Mentioned deps r := by
  refine ⟨fun h => ?_, fun h => ?_⟩
  · obtain ⟨d, hd, hr⟩ := h
    exact ⟨d, hperm.mem_iff.mp hd, hr⟩
  · obtain ⟨d, hd, hr⟩ := h
    exact ⟨d, hperm.mem_iff.mpr hd, hr⟩

/-- With single sources the tables of two orders agree. -/
theorem lookup_perm (hsingle : SingleSource deps) (hperm : deps'.Perm deps)
    (hroots : dependencyRoots order n deps = some roots) (hroots' : dependencyRoots order' k deps' = some roots') :
    roots'.lookup = roots.lookup := by
  have hcopy := copy_perm hperm
  have hsource : Source deps' = Source deps := by
    funext s
    rw [Source, Source, hcopy]
  obtain ⟨hmentioned, hends⟩ := lookup_dependencyRoots hroots
  obtain ⟨hmentioned', hends'⟩ := lookup_dependencyRoots hroots'
  funext r
  by_cases hr : Mentioned deps r
  · obtain ⟨root, hroot⟩ := (hmentioned r).mpr hr
    obtain ⟨root', hroot'⟩ := (hmentioned' r).mpr ((mentioned_perm hperm).mpr hr)
    obtain ⟨_, hk⟩ := hends r root hroot
    obtain ⟨_, hk'⟩ := hends' r root' hroot'
    obtain ⟨hs, hcopies⟩ := source_of_endsAt hk
    obtain ⟨hs', hcopies'⟩ := source_of_endsAt hk'
    rw [hsource] at hs'
    rw [hcopy] at hcopies'
    rw [hroot, hroot', hsingle r root' root hs' hs hcopies' hcopies]
  · have hnone : roots.lookup r = none := by
      rw [← Option.not_isSome_iff_eq_none, Option.isSome_iff_exists, hmentioned]
      exact hr
    have hnone' : roots'.lookup r = none := by
      rw [← Option.not_isSome_iff_eq_none, Option.isSome_iff_exists, hmentioned', mentioned_perm hperm]
      exact hr
    rw [hnone, hnone']

theorem assignGroup_congr (h : roots'.lookup = roots.lookup) : assignGroup roots' = assignGroup roots := by
  funext e
  rw [assignGroup, assignGroup, rootOf, rootOf, h]

/-! ## Events -/

/-- An event that cites one ref. -/
def citing (r : String) : RecentEvent where
  eventId := r
  eventType := "post"
  anchorIdentity := "token"
  relatedIdentities := []
  chainQualifiedContract := "sol:token"
  occurredAt := 0
  observedAt := 0
  relation := none
  truthStatus := .unknown
  confidence := none
  confidenceLevel := .insufficient
  evidenceRefs := [r]
  dependencyGroup := none
  freshness := none
  coverage := .unavailable
  capabilityStatus := .available
  missingInputs := []
  retraction := none
  isCurrentCoverage := true

/-- Of dependencies without cycles all events are grouped as they should be exactly where no ref has two sources. -/
theorem grouping_iff (hacyclic : ∀ r, ¬ TransGen (Copy deps) r r) :
    (∀ order events, (∀ e ∈ events, e.dependencyGroup = none) →
        ∃ depth out, assignDependencyGroup order depth events deps = some out ∧ Grouping deps order events out) ↔
      SingleSource deps := by
  refine ⟨fun h r s s' hs hs' hr hr' => ?_, fun hsingle order events hnone => ?_⟩
  · -- three events: of the ref, and of either source
    obtain ⟨depth, out, hout, hgrouping⟩ := h (Order.stored String String) [citing r, citing s, citing s']
      (by simp [citing])
    obtain ⟨roots, hroots, rfl⟩ := Option.map_eq_some_iff.mp hout
    have hroot : ∀ {s}, Source deps s → (assignGroup roots (citing s)).dependencyGroup = some ("group:" ++ s) := by
      intro s hs
      obtain ⟨root, hgroup, -, hchain⟩ := assignGroup_single hroots rfl (rfl : (citing s).evidenceRefs = [s])
      obtain heq | ⟨u, -, hu⟩ := ReflTransGen.cases_tail hchain
      · rw [hgroup, heq]
      · exact absurd hu (hs u)
    have hjoin : ∀ (i : Nat) {v}, [citing r, citing s, citing s'][i]? = some (citing v) → ReflTransGen (Copy deps) v r →
        (assignGroup roots (citing v)).dependencyGroup = (assignGroup roots (citing r)).dependencyGroup := by
      intro i v hi hchain
      obtain rfl | hcopies := reflTransGen_iff_eq_or_transGen.mp hchain
      · rfl
      · refine hgrouping.together hi (j := 0) rfl ?_ rfl rfl rfl hcopies
        rw [List.getElem?_map, hi]
        rfl
    have hgroup := (hjoin 1 rfl hr).trans (hjoin 2 rfl hr').symm
    rw [hroot hs, hroot hs', Option.some.injEq, String.ext_iff, String.toList_append, String.toList_append] at hgroup
    exact String.ext (List.append_cancel_left hgroup)
  · obtain ⟨depth, hdepth⟩ := (dependencyRoots_returns_iff order deps).mpr (acyclic_lastUpstream hacyclic)
    obtain ⟨roots, hroots⟩ := Option.isSome_iff_exists.mp hdepth
    refine ⟨depth, events.map (assignGroup roots), by rw [assignDependencyGroup, hroots]; rfl, ?_, ?_, ?_⟩
    · intro i j e e' o o' r r' he he' ho ho' hr hr' hcopies
      rw [List.getElem?_map, he, Option.map_some, Option.some.injEq] at ho
      rw [List.getElem?_map, he', Option.map_some, Option.some.injEq] at ho'
      obtain ⟨root, hgroup, hsource, hchain⟩ := assignGroup_single hroots (hnone e (List.mem_of_getElem? he)) hr
      obtain ⟨root', hgroup', hsource', hchain'⟩ := assignGroup_single hroots (hnone e' (List.mem_of_getElem? he')) hr'
      rw [← ho, ← ho', hgroup, hgroup', hsingle r' root root' hsource hsource'
        (hchain.trans hcopies.to_reflTransGen) hchain']
    · intro depth' roots' r hroots' hr
      obtain ⟨hmentioned, hends⟩ := lookup_dependencyRoots hroots'
      obtain ⟨root, hroot⟩ := (hmentioned r).mpr hr
      obtain ⟨k, hk⟩ := hends r root hroot
      exact ⟨root, hroot, (source_of_endsAt hk).1⟩
    · intro deps' hperm order'
      have hacyclic' : ∀ r, ¬ TransGen (Copy deps') r r := copy_perm hperm ▸ hacyclic
      obtain ⟨depth', hdepth'⟩ := (dependencyRoots_returns_iff order' deps').mpr (acyclic_lastUpstream hacyclic')
      obtain ⟨roots', hroots'⟩ := Option.isSome_iff_exists.mp hdepth'
      refine ⟨depth', ?_⟩
      rw [assignDependencyGroup, hroots', Option.map_some, assignGroup_congr (lookup_perm hsingle hperm hroots hroots')]

/-! ## Lists with one upstream for each ref -/

/-- Where each ref has one upstream at most, it has one source at most. -/
theorem singleSource_of_unique (hunique : ∀ u u' d, Copy deps u d → Copy deps u' d → u = u') : SingleSource deps := by
  intro r s s' hs hs' hr hr'
  have hright : Relator.RightUnique (Function.swap (Copy deps)) := fun d u u' hu hu' => hunique u u' d hu hu'
  -- one chain of copies goes on where the other stops
  have hstop : ∀ {s s'}, Source deps s → ReflTransGen (Function.swap (Copy deps)) s s' → s = s' := by
    intro s s' hs hchain
    obtain heq | ⟨u, hu, -⟩ := ReflTransGen.cases_head hchain
    · exact heq
    · exact absurd hu (hs u)
  obtain hchain | hchain := ReflTransGen.total_of_right_unique hright (reflTransGen_swap.mpr hr)
    (reflTransGen_swap.mpr hr')
  · exact hstop hs hchain
  · exact (hstop hs' hchain).symm

/-- Copies that have longer names than what they are copies of make no cycle. -/
theorem acyclic_of_length (hlength : ∀ d ∈ deps, d.1.length < d.2.length) (r : String) :
    ¬ TransGen (Copy deps) r r := by
  have hlt : ∀ {u d}, TransGen (Copy deps) u d → u.length < d.length := by
    intro u d h
    induction h with
    | single h => exact hlength _ h
    | tail _ h ih => exact ih.trans (hlength _ h)
  exact fun h => Nat.lt_irrefl _ (hlt h)

end

/-- A post, its copy, and a copy of that. -/
def chain : List (String × String) := [("u", "du"), ("du", "ddu")]

theorem chain_grouping : ∃ depth out,
    assignDependencyGroup (Order.stored String String) depth [citing "ddu", citing "u"] chain = some out ∧
      Grouping chain (Order.stored String String) [citing "ddu", citing "u"] out := by
  refine (grouping_iff (acyclic_of_length ?_)).mpr (singleSource_of_unique ?_) _ _ ?_
  · decide
  · intro u u' d hu hu'
    simp only [Copy, chain, List.mem_cons, Prod.mk.injEq, List.not_mem_nil, or_false] at hu hu'
    obtain ⟨rfl, rfl⟩ | ⟨rfl, rfl⟩ := hu
    · have heq : u' = "u" := by simpa using hu'
      exact heq.symm
    · have heq : u' = "du" := by simpa using hu'
      exact heq.symm
  · intro e he
    obtain rfl | he := List.mem_cons.mp he
    · rfl
    · rw [List.mem_singleton.mp he]
      rfl

/-- A ref with two sources is put with the one that is listed last. -/
theorem twoSources_split : (∀ r, ¬ TransGen (Copy [("a", "cc"), ("b", "cc")]) r r) ∧
    (assignDependencyGroup (Order.stored String String) 3 [citing "a", citing "cc"] [("a", "cc"), ("b", "cc")]).map
      (List.map RecentEvent.dependencyGroup) = some [some "group:a", some "group:b"] ∧
    (assignDependencyGroup (Order.stored String String) 3 [citing "a", citing "cc"] [("b", "cc"), ("a", "cc")]).map
      (List.map RecentEvent.dependencyGroup) = some [some "group:a", some "group:a"] := by
  refine ⟨acyclic_of_length ?_, ?_, ?_⟩
  · decide
  · decide +kernel
  · decide +kernel

end WhaleIntelligence.Recent
