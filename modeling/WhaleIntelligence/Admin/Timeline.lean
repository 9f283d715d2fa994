import Mathlib.Data.List.Perm.Subperm
import WhaleIntelligence.Admin.Reads
import WhaleIntelligence.Recent.Pipeline

/- The windows of a token's recent timeline.

   Both queries of `fetch_recent_timeline` pin the newest coverage disclosure, by time and
   then by id, and a bounded window shows no other one. The pipeline reads its state in the
   same order, by the anchor where the timeline reads by the token; the check of the table
   keeps the two equal. So every window flags the row that the pipeline takes as the state
   in force, and a wider window shows what a narrower one does (`timeline_consistent`). -/
namespace WhaleIntelligence.Admin
open WhaleIntelligence SerialTable

section
variable {db : Database} {workspaceId : Int64} {token window window' : String}

/-- A row of the token that the window shows. -/
def shows (db : Database) (current : Option Nat) (window : String) (r : Nat × Recent.RecentEventRow) : Bool :=
  match windowHours window with
  | some hours => some r.1 == current || (hoursAgo db hours ≤ r.2.occurredAt && !isCoverage r)
  | none => true

theorem fetchRecentTimeline_eq (db : Database) (workspaceId : Int64) (token window : String) :
    fetchRecentTimeline db workspaceId token window =
      (oldestOf (·.2.occurredAt) ((recentRows db workspaceId token).filter
        (shows db (currentCoverage (recentRows db workspaceId token)) window))).map fun r =>
          r.2.intoEvent (some r.1 == currentCoverage (recentRows db workspaceId token)) := by
  unfold fetchRecentTimeline shows
  cases windowHours window with
  | some hours => rfl
  | none => rw [List.filter_true]

/-! ## The coverage in force -/

/-- The disclosures of the timeline are those of the pipeline: the token is the anchor. -/
theorem filter_isCoverage : (recentRows db workspaceId token).filter isCoverage =
    Recent.disclosures db.recentEvents workspaceId token := by
  rw [recentRows, List.filter_filter, Recent.disclosures]
  apply List.filter_congr
  intro r hr
  have hcheck := (db.recentEvents.checked r hr).anchorInvariant
  rw [isCoverage, ← hcheck.2, ← hcheck.1, Bool.and_comm]

theorem currentCoverage_eq : currentCoverage (recentRows db workspaceId token) =
    (Recent.latestDisclosure db.recentEvents workspaceId token).map Prod.fst := by
  rw [currentCoverage, filter_isCoverage, Recent.latestDisclosure]

theorem mem_of_latestDisclosure {r : Nat × Recent.RecentEventRow}
    (h : Recent.latestDisclosure db.recentEvents workspaceId token = some r) :
    r ∈ recentRows db workspaceId token ∧ isCoverage r = true := by
  have hmem : r ∈ newestFirst Recent.RecentEventRow.occurredAt
      (Recent.disclosures db.recentEvents workspaceId token) := List.mem_of_mem_head? h
  rw [newestFirst, List.mem_insertionSort, List.mem_reverse, ← filter_isCoverage] at hmem
  exact List.mem_filter.mp hmem

/-- There is a state in force where the token has a disclosure. -/
theorem latestDisclosure_isSome_iff : (Recent.latestDisclosure db.recentEvents workspaceId token).isSome = true ↔
    ∃ r ∈ recentRows db workspaceId token, isCoverage r = true := by
  constructor
  · intro h
    obtain ⟨r, hr⟩ := Option.isSome_iff_exists.mp h
    exact ⟨r, mem_of_latestDisclosure hr⟩
  · rintro ⟨r, hr, hcov⟩
    have hmem : r ∈ newestFirst Recent.RecentEventRow.occurredAt
        (Recent.disclosures db.recentEvents workspaceId token) := by
      rw [newestFirst, List.mem_insertionSort, List.mem_reverse, ← filter_isCoverage]
      exact List.mem_filter.mpr ⟨hr, hcov⟩
    rw [Recent.latestDisclosure, List.isSome_head?]
    exact List.ne_nil_of_mem hmem

/-- One row has the id of the state in force. -/
theorem filter_current : (recentRows db workspaceId token).filter
      (fun r => some r.1 == currentCoverage (recentRows db workspaceId token)) =
    (Recent.latestDisclosure db.recentEvents workspaceId token).toList := by
  rw [currentCoverage_eq]
  cases h : Recent.latestDisclosure db.recentEvents workspaceId token with
  | none => simp
  | some r =>
    have hids : ((recentRows db workspaceId token).map Prod.fst).Nodup := by
      apply List.pairwise_map.mpr
      apply (db.recentEvents.ids_ascending.sublist List.filter_sublist).imp
      intro a b hlt
      exact Nat.ne_of_lt hlt
    have hone := Query.filter_unique hids (mem_of_latestDisclosure h).1
    rw [Option.toList_some, ← hone]
    apply List.filter_congr
    intro s _
    simp [beq_eq_decide]

/-- The row in force is shown in every window. -/
theorem filter_shown (window : String) : ((recentRows db workspaceId token).filter
      (shows db (currentCoverage (recentRows db workspaceId token)) window)).filter
      (fun r => some r.1 == currentCoverage (recentRows db workspaceId token)) =
    (Recent.latestDisclosure db.recentEvents workspaceId token).toList := by
  rw [List.filter_filter, ← filter_current]
  apply List.filter_congr
  intro r _
  cases hr : some r.1 == currentCoverage (recentRows db workspaceId token) with
  | false => rfl
  | true =>
    rw [Bool.true_and, shows]
    cases windowHours window with
    | some hours => simp only [hr, Bool.true_or]
    | none => rfl

theorem eq_of_perm_toList {α : Type} {o : Option α} {l : List α} (h : l.Perm o.toList) : l = o.toList := by
  cases o with
  | none => exact List.perm_nil.mp h
  | some a => exact List.perm_singleton.mp h

/-- Every window flags the row in force, and no other. -/
theorem filter_flagged (db : Database) (workspaceId : Int64) (token window : String) :
    (fetchRecentTimeline db workspaceId token window).filter (·.isCurrentCoverage) =
      ((Recent.latestDisclosure db.recentEvents workspaceId token).map fun r => r.2.intoEvent true).toList := by
  have hsorted : (oldestOf (fun r : Nat × Recent.RecentEventRow => r.2.occurredAt)
      ((recentRows db workspaceId token).filter
        (shows db (currentCoverage (recentRows db workspaceId token)) window))).filter
      (fun r => some r.1 == currentCoverage (recentRows db workspaceId token)) =
      (Recent.latestDisclosure db.recentEvents workspaceId token).toList := by
    -- one row at most is left, so the order plays no part
    apply eq_of_perm_toList
    rw [← filter_shown window]
    exact (List.perm_insertionSort _ _).filter _
  have hflag : ((·.isCurrentCoverage) ∘ fun r : Nat × Recent.RecentEventRow =>
      r.2.intoEvent (some r.1 == currentCoverage (recentRows db workspaceId token))) =
      fun r => some r.1 == currentCoverage (recentRows db workspaceId token) := rfl
  rw [fetchRecentTimeline_eq, List.filter_map, hflag, hsorted, currentCoverage_eq]
  cases Recent.latestDisclosure db.recentEvents workspaceId token with
  | none => rfl
  | some r => simp

/-! ## What the windows show -/

theorem mem_fetchRecentTimeline {e : Recent.RecentEvent} : e ∈ fetchRecentTimeline db workspaceId token window ↔
    ∃ r ∈ recentRows db workspaceId token,
      shows db (currentCoverage (recentRows db workspaceId token)) window r = true ∧
      r.2.intoEvent (some r.1 == currentCoverage (recentRows db workspaceId token)) = e := by
  rw [fetchRecentTimeline_eq]
  simp only [List.mem_map, oldestOf, List.mem_insertionSort, List.mem_filter, and_assoc]

/-- A bounded window shows no disclosure but the one in force. -/
theorem bounded_coverage {hours : Int} (hw : windowHours window = some hours) {e : Recent.RecentEvent}
    (he : e ∈ fetchRecentTimeline db workspaceId token window) (hcov : e.eventType = "coverage_disclosure") :
    e.isCurrentCoverage = true := by
  obtain ⟨r, -, hshows, rfl⟩ := mem_fetchRecentTimeline.mp he
  have hr : isCoverage r = true := beq_iff_eq.mpr hcov
  rw [shows, hw] at hshows
  have hcurrent : (some r.1 == currentCoverage (recentRows db workspaceId token)) = true := by simpa [hr] using hshows
  exact hcurrent

/-- The second window has no bound, or one further back. -/
def Wider (window window' : String) : Prop :=
  ∀ hours', windowHours window' = some hours' → ∃ hours, windowHours window = some hours ∧ hours ≤ hours'

theorem hoursAgo_le (db : Database) {hours hours' : Int} (h : hours ≤ hours') :
    hoursAgo db hours' ≤ hoursAgo db hours := by
  have hseconds : seconds (hours * 3600) ≤ seconds (hours' * 3600) := by
    unfold seconds
    omega
  exact Int.sub_le_sub_left hseconds _

theorem shows_of_wider (h : Wider window window') {current : Option Nat} {r : Nat × Recent.RecentEventRow}
    (hr : shows db current window r = true) : shows db current window' r = true := by
  rw [shows]
  cases hw' : windowHours window' with
  | none => rfl
  | some hours' =>
    obtain ⟨hours, hw, hle⟩ := h hours' hw'
    rw [shows, hw] at hr
    have := hoursAgo_le db hle
    simp only [Bool.or_eq_true, Bool.and_eq_true, decide_eq_true_eq] at hr ⊢
    exact hr.imp id (And.imp (le_trans this) id)

/-- What a window shows, a wider one shows too. -/
theorem fetchRecentTimeline_subperm (h : Wider window window') :
    (fetchRecentTimeline db workspaceId token window).Subperm (fetchRecentTimeline db workspaceId token window') := by
  have hshown : ((recentRows db workspaceId token).filter
        (shows db (currentCoverage (recentRows db workspaceId token)) window)).Sublist
      ((recentRows db workspaceId token).filter
        (shows db (currentCoverage (recentRows db workspaceId token)) window')) := by
    apply List.monotone_filter_right
    intro r
    exact shows_of_wider h
  rw [fetchRecentTimeline_eq, fetchRecentTimeline_eq]
  apply ((List.perm_insertionSort _ _).map _).subperm.trans
  apply (hshown.map _).subperm.trans
  exact ((List.perm_insertionSort _ _).map _).symm.subperm

end

/-- What the windows say about coverage, and how they nest. -/
structure Consistent (db : Database) (workspaceId : Int64) (token : String) : Prop where
  inForce : (Recent.latestDisclosure db.recentEvents workspaceId token).isSome = true ↔
    ∃ r ∈ db.recentEvents.rows, r.2.workspaceId = workspaceId ∧ r.2.tokenIdentity = token ∧
      r.2.eventType = "coverage_disclosure"
  flagged : ∀ window, (fetchRecentTimeline db workspaceId token window).filter (·.isCurrentCoverage) =
    ((Recent.latestDisclosure db.recentEvents workspaceId token).map fun r => r.2.intoEvent true).toList
  noOther : ∀ window ∈ ["1h", "24h", "7d", "30d"], ∀ e ∈ fetchRecentTimeline db workspaceId token window,
    e.eventType = "coverage_disclosure" → e.isCurrentCoverage = true
  nested : List.IsChain (fun window window' => (fetchRecentTimeline db workspaceId token window).Subperm
    (fetchRecentTimeline db workspaceId token window')) ["1h", "24h", "7d", "30d", "all"]

theorem windowHours_isSome : ∀ window ∈ ["1h", "24h", "7d", "30d"], (windowHours window).isSome = true := by decide

theorem wider_windows : List.IsChain Wider ["1h", "24h", "7d", "30d", "all"] := by
  simp [List.isChain_cons_cons, Wider, windowHours]

/-- For every table of events and every clock. -/
theorem timeline_consistent (db : Database) (workspaceId : Int64) (token : String) :
    Consistent db workspaceId token where
  inForce := by
    rw [latestDisclosure_isSome_iff]
    simp [recentRows, isCoverage, and_assoc]
  flagged window := filter_flagged db workspaceId token window
  noOther window hw e he hcov := by
    obtain ⟨hours, hhours⟩ := Option.isSome_iff_exists.mp (windowHours_isSome window hw)
    exact bounded_coverage hhours he hcov
  nested := wider_windows.imp fun _ _ h => fetchRecentTimeline_subperm h

end WhaleIntelligence.Admin
