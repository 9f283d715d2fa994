import WhaleIntelligence.Admin.Reads
import WhaleIntelligence.Lib.Tenancy

/- What the reads show a workspace of the others.

   A read for a workspace is noninterfering when it answers alike in every two states
   that differ in rows of other workspaces only. The queries that ask for the workspace
   are (`respond_same`, `select_same`). The reads of the radar cases do not ask for it,
   and the selection of pending signals does not ask it of the alerts. -/
namespace WhaleIntelligence.Admin
open WhaleIntelligence Query Tenancy

/-! ## States that are the same to a workspace -/

/-- The case of the event is the workspace's. -/
def ownsEvent (db : Database) (w : Int64) (e : Radar.CaseEvent) : Bool :=
  db.cases.any fun c => c.id == e.caseId && c.workspaceId == w.toInt

/-- The states differ in rows of other workspaces only. -/
structure SameFor (w : Int64) (db db' : Database) : Prop where
  dbNow : db.dbNow = db'.dbNow
  sessions : db.sessions = db'.sessions
  observations : db.observations = db'.observations
  wallets : db.wallets = db'.wallets
  tokens : db.tokens = db'.tokens
  clusters : db.clusters = db'.clusters
  transfers : db.transfers = db'.transfers
  labels : own (·.workspaceId) w.toInt db.labels = own (·.workspaceId) w.toInt db'.labels
  signals : own (·.workspaceId) w.toInt db.signals = own (·.workspaceId) w.toInt db'.signals
  evaluations : own (·.row.workspaceId) w.toInt db.evaluations = own (·.row.workspaceId) w.toInt db'.evaluations
  recentEvents : own (·.2.workspaceId) w db.recentEvents.rows = own (·.2.workspaceId) w db'.recentEvents.rows
  cases : own (·.workspaceId) w.toInt db.cases = own (·.workspaceId) w.toInt db'.cases
  caseEvents : db.events.filter (ownsEvent db w) = db'.events.filter (ownsEvent db' w)
  alerts : own (·.workspaceId) w.toInt db.alerts = own (·.workspaceId) w.toInt db'.alerts

/-! ## Reads -/

inductive Read where
  | endpoint (request : Request)
  | selection (selection : Selection)
  deriving DecidableEq, Repr

inductive Answer where
  | response (r : Except StatusCode Body)
  | selected (rows : Selected)

/-- What a read for the workspace gives; an endpoint is asked by the caller. -/
def Read.answer (c : Caller) (w : Int64) (r : Read) (db : Database) : Answer :=
  match r with
  | .endpoint request => .response (handle c db request)
  | .selection s => .selected (select db w s)

/-- A session of the workspace is answered alike in states that are the same to it, as
long as these meet the condition. -/
def Read.NoninterferingOn (P : Int64 → Database → Prop) (r : Read) : Prop :=
  ∀ c w, Noninterfering (fun db db' => requireWorkspace c db = .ok w ∧ SameFor w db db' ∧ P w db ∧ P w db')
    (r.answer c w)

/-- The read asks for the workspace wherever it looks, or finds nothing at all. -/
def Read.scoped : Read → Bool
  | .endpoint (.metricsRadarTrend _) | .endpoint .metricsOverview | .endpoint (.radarCases _) => false
  | .endpoint (.radarCase id) => id ≤ 0
  | .selection (.pendingSignalAlerts _) => false
  | _ => true

/-- What a read looks at without asking for the workspace is the workspace's all the same. -/
def Read.OwnedBy (r : Read) (w : Int64) (db : Database) : Prop :=
  match r with
  | .endpoint (.metricsRadarTrend _) | .endpoint .metricsOverview | .endpoint (.radarCases _) =>
    ∀ case ∈ db.cases, case.workspaceId = w.toInt
  | .endpoint (.radarCase id) => ∀ case ∈ db.cases, case.id = id → case.workspaceId = w.toInt
  | .selection (.pendingSignalAlerts _) => ∀ a ∈ db.alerts, ∀ s ∈ db.signals, s.workspaceId = w.toInt →
      a.signalId = some s.id → a.workspaceId = w.toInt
  | _ => True

section
variable {c : Caller} {w : Int64} {db db' : Database}

/-! ## Sessions -/

theorem requireWorkspace_same (h : SameFor w db db') : requireWorkspace c db = requireWorkspace c db' := by
  unfold requireWorkspace workspaceForSession
  rw [h.sessions, h.dbNow]

/-- A session that is bound to a workspace is valid. -/
theorem requireAuth_of_workspace (h : requireWorkspace c db = .ok w) : requireAuth c db = .ok () := by
  rw [requireWorkspace] at h
  rw [requireAuth]
  cases htoken : c.sessionToken with
  | none => rw [htoken] at h; cases h
  | some token =>
    rw [htoken] at h
    simp only at h ⊢
    have hvalid : validateSession c db token = true := by
      rw [workspaceForSession] at h
      by_cases hempty : token = ""
      · rw [if_pos hempty] at h
        cases h
      · rw [if_neg hempty] at h
        cases hfind : db.sessions.find? (fun s =>
            s.tokenHash == c.tokenHash token && db.dbNow < s.expiresAt && s.workspaceId.isSome) with
        | none => rw [hfind] at h; cases h
        | some s =>
          have hs := List.find?_some hfind
          rw [Bool.and_eq_true] at hs
          rw [validateSession, Bool.and_eq_true, bne_iff_ne, List.any_eq_true]
          exact ⟨hempty, s, List.mem_of_find?_eq_some hfind, hs.1⟩
    rw [hvalid]
    simp

/-- What the endpoint answers a session of the workspace. -/
def respond (w : Int64) (db : Database) : Request → Except StatusCode Body
  | .metricsSignalsTimeline hours => .ok (.signalsTimeline (signalsTimeline db w (clampHours hours 24)))
  | .metricsRadarTrend hours => .ok (.radarTrend (radarTrend db (clampHours hours 48)))
  | .metricsOverview => .ok (.overview (overview db w))
  | .listLabels chain address =>
    match ChainKind.parse chain with
    | some chain => .ok (.labels (labelsOf db w chain address))
    | none => .error .badRequest
  | .radarCases limit => .ok (.cases (caseList db (clampLimit limit)))
  | .radarCase id =>
    match caseOf db id with
    | some answer => .ok (.case answer)
    | none => .error .notFound
  | .listSignals limit => .ok (.signals (signalList db w (clampLimit limit)))
  | .signalRejections limit => .ok (.rejections (rejectionList db w (clampLimit limit)))
  | .tokenRecent chain mint window => do
    let identity ← tokenIdentity chain mint
    if ["1h", "24h", "7d", "30d", "all"].contains (window.getD "24h") then
      .ok (.recent (fetchRecentTimeline db w identity (window.getD "24h")))
    else .error .badRequest
  | .tokenRelations chain mint => do
    let identity ← tokenIdentity chain mint
    .ok (.relations (Recent.fetchRelations db.recentEvents w identity))

theorem handle_eq (h : requireWorkspace c db = .ok w) (request : Request) :
    handle c db request = respond w db request := by
  have hauth : requireAuth c db = .ok () := requireAuth_of_workspace h
  cases request with
  | metricsSignalsTimeline hours => rw [handle, metricsSignalsTimeline, h]; rfl
  | metricsRadarTrend hours => rw [handle, metricsRadarTrend, hauth]; rfl
  | metricsOverview => rw [handle, metricsOverview, h]; rfl
  | listLabels chain address =>
    cases hchain : ChainKind.parse chain with
    | none => simp only [handle, listLabels, hauth, h, hchain, respond, bind, Except.bind]
    | some chain => simp only [handle, listLabels, hauth, h, hchain, respond, bind, Except.bind]
  | radarCases limit => rw [handle, radarCases, hauth]; rfl
  | radarCase id => rw [handle, radarCase, hauth]; rfl
  | listSignals limit => rw [handle, listSignals, h]; rfl
  | signalRejections limit => rw [handle, signalRejections, h]; rfl
  | tokenRecent chain mint window =>
    simp only [handle, tokenRecent, hauth, h, respond, bind, Except.bind]
  | tokenRelations chain mint =>
    simp only [handle, tokenRelations, hauth, h, respond, bind, Except.bind]

/-! ## Queries that ask for the workspace -/

theorem hoursAgo_same (h : SameFor w db db') (hours : Int) : hoursAgo db hours = hoursAgo db' hours := by
  rw [hoursAgo, hoursAgo, h.dbNow]

theorem signalsTimeline_same (h : SameFor w db db') (hours : Int) :
    signalsTimeline db w hours = signalsTimeline db' w hours := by
  rw [signalsTimeline, signalsTimeline, hoursAgo_same h]
  congr 1
  exact filter_asking h.evaluations fun e _ _ _ => rfl

theorem labelsOf_same (h : SameFor w db db') (chain : ChainKind) (address : String) :
    labelsOf db w chain address = labelsOf db' w chain address := by
  have hrows : db.labels.filter (fun l => l.workspaceId == w.toInt && l.chain == chain.asStr && l.address == address) =
      db'.labels.filter fun l => l.workspaceId == w.toInt && l.chain == chain.asStr && l.address == address := by
    simp only [Bool.and_assoc]
    exact filter_asking h.labels fun l _ _ _ => rfl
  rw [labelsOf, labelsOf, hrows, h.dbNow]

theorem signalList_same (h : SameFor w db db') (limit : Nat) : signalList db w limit = signalList db' w limit := by
  have hrows : db.signals.filter (fun s => s.workspaceId == w.toInt) =
      db'.signals.filter fun s => s.workspaceId == w.toInt :=
    h.signals
  rw [signalList, signalList, hrows]

theorem rejectionList_same (h : SameFor w db db') (limit : Nat) :
    rejectionList db w limit = rejectionList db' w limit := by
  rw [rejectionList, rejectionList]
  congr 3
  exact filter_asking h.evaluations fun e _ _ _ => rfl

theorem fetchRecentTimeline_same (h : SameFor w db db') (tokenIdentity window : String) :
    fetchRecentTimeline db w tokenIdentity window = fetchRecentTimeline db' w tokenIdentity window := by
  have hrows : recentRows db w tokenIdentity = recentRows db' w tokenIdentity :=
    filter_asking h.recentEvents fun r _ _ _ => rfl
  rw [fetchRecentTimeline, fetchRecentTimeline, hrows]
  simp only [hoursAgo_same h]

/-- A retraction is looked for among the rows of the workspace. -/
theorem fetchRelations_same (h : SameFor w db db') (tokenIdentity : String) :
    Recent.fetchRelations db.recentEvents w tokenIdentity = Recent.fetchRelations db'.recentEvents w tokenIdentity := by
  have hretracts : ∀ e : Recent.RecentEventRow, e.workspaceId = w →
      (db.recentEvents.rows.any fun r => Recent.retracts r.2 e) =
        db'.recentEvents.rows.any fun r => Recent.retracts r.2 e := by
    intro e he
    have hown : ∀ r : Nat × Recent.RecentEventRow, Recent.retracts r.2 e = true → r.2.workspaceId = w := by
      intro r hr
      rw [Recent.retracts, Bool.and_eq_true, Bool.and_eq_true, Bool.and_eq_true, beq_iff_eq] at hr
      exact hr.1.1.1.trans he
    exact any_congr h.recentEvents (fun r _ => hown r) (fun r _ => hown r) fun r _ _ _ => rfl
  have hrows : db.recentEvents.rows.filter (fun r => Recent.inCurrentView db.recentEvents w tokenIdentity r.2) =
      db'.recentEvents.rows.filter fun r => Recent.inCurrentView db'.recentEvents w tokenIdentity r.2 := by
    simp only [Recent.inCurrentView, Bool.and_assoc]
    apply filter_asking h.recentEvents
    intro r _ _ hr
    rw [hretracts r.2 hr]
  rw [Recent.fetchRelations, Recent.fetchRelations, hrows]

theorem openRadarCases_same (h : SameFor w db db') : openRadarCases db w = openRadarCases db' w := by
  have hrows : db.cases.filter (fun c => isOpen c && c.workspaceId == w.toInt) =
      db'.cases.filter fun c => isOpen c && c.workspaceId == w.toInt := by
    simp only [Bool.and_comm (isOpen _)]
    exact filter_asking h.cases fun c _ _ _ => rfl
  rw [openRadarCases, openRadarCases, hrows]

theorem dueSignals_same (h : SameFor w db db') (config : Signals.SignalsConfig) :
    dueSignals db w config = dueSignals db' w config := by
  have hevaluated : ∀ token, Signals.Claims.notEvaluated db.dbNow w.toInt db.evaluations token =
      Signals.Claims.notEvaluated db.dbNow w.toInt db'.evaluations token := by
    intro token
    rw [Signals.Claims.notEvaluated, Signals.Claims.notEvaluated]
    congr 1
    have hown : ∀ e : Signals.Claims.Commit, (e.row.workspaceId == w.toInt && e.row.chain == token.chain &&
        e.row.mint == token.mint && db.dbNow - seconds Signals.Claims.signalEvalReevalSeconds < e.row.evaluatedAt) =
          true → e.row.workspaceId = w.toInt := by
      intro e he
      rw [Bool.and_eq_true, Bool.and_eq_true, Bool.and_eq_true, beq_iff_eq] at he
      exact he.1.1.1
    exact any_congr h.evaluations (fun e _ => hown e) (fun e _ => hown e) fun e _ _ _ => rfl
  rw [dueSignals, dueSignals, ← h.dbNow, ← h.tokens, Signals.Claims.dueTokens, Signals.Claims.dueTokens]
  congr 3
  refine List.filter_congr fun token _ => ?_
  rw [Signals.Claims.isDue, Signals.Claims.isDue, hevaluated]

/-! ## Queries that do not -/

theorem cases_of_owned (h : SameFor w db db') (ho : ∀ case ∈ db.cases, case.workspaceId = w.toInt)
    (ho' : ∀ case ∈ db'.cases, case.workspaceId = w.toInt) : db.cases = db'.cases := eq_of_all h.cases ho ho'

theorem caseOf_same (h : SameFor w db db') {id : Int}
    (ho : ∀ case ∈ db.cases, case.id = id → case.workspaceId = w.toInt)
    (ho' : ∀ case ∈ db'.cases, case.id = id → case.workspaceId = w.toInt) : caseOf db id = caseOf db' id := by
  have hid : ∀ (cases : List Radar.CaseRow), (∀ case ∈ cases, case.id = id → case.workspaceId = w.toInt) →
      ∀ case ∈ cases, (case.id == id) = true → case.workspaceId = w.toInt := by
    intro cases howned case hcase heq
    exact howned case hcase (beq_iff_eq.mp heq)
  have hrows : db.cases.filter (fun c => c.id == id) = db'.cases.filter fun c => c.id == id :=
    filter_congr h.cases (hid _ ho) (hid _ ho') fun c _ _ _ => rfl
  rw [caseOf, caseOf, ← List.head?_filter, ← List.head?_filter, hrows]

theorem pendingSignalAlerts_same (h : SameFor w db db') (destination : String)
    (ho : ∀ a ∈ db.alerts, ∀ s ∈ db.signals, s.workspaceId = w.toInt → a.signalId = some s.id → a.workspaceId = w.toInt)
    (ho' : ∀ a ∈ db'.alerts, ∀ s ∈ db'.signals, s.workspaceId = w.toInt → a.signalId = some s.id →
      a.workspaceId = w.toInt) :
    pendingSignalAlerts db w destination = pendingSignalAlerts db' w destination := by
  have hnames : ∀ (db : Database) (s : Signals.SignalRow) (a : Signals.AlertRow), holdsBack db s destination a = true →
      a.signalId = some s.id := by
    intro db s a ha
    rw [holdsBack, Bool.and_eq_true, Bool.and_eq_true, beq_iff_eq] at ha
    exact ha.1.1
  have hrows : db.signals.filter (fun s => s.workspaceId == w.toInt && (s.status == "active" &&
      !db.alerts.any (holdsBack db s destination))) =
      db'.signals.filter fun s => s.workspaceId == w.toInt && (s.status == "active" &&
        !db'.alerts.any (holdsBack db' s destination)) := by
    apply filter_asking h.signals
    intro s hs hs' howner
    have halerts : db.alerts.any (holdsBack db s destination) = db'.alerts.any (holdsBack db' s destination) := by
      apply any_congr h.alerts
      · intro a ha hback
        exact ho a ha s hs howner (hnames db s a hback)
      · intro a ha hback
        exact ho' a ha s hs' howner (hnames db' s a hback)
      · intro a _ _ _
        rw [holdsBack, holdsBack, h.dbNow]
    rw [halerts]
  simp only [← Bool.and_assoc] at hrows
  rw [pendingSignalAlerts, pendingSignalAlerts, hrows]

/-! ## Every read -/

theorem respond_same (h : SameFor w db db') (request : Request) (ho : (Read.endpoint request).OwnedBy w db)
    (ho' : (Read.endpoint request).OwnedBy w db') : respond w db request = respond w db' request := by
  cases request with
  | metricsSignalsTimeline hours => rw [respond, respond, signalsTimeline_same h]
  | metricsRadarTrend hours => rw [respond, respond, radarTrend, radarTrend, cases_of_owned h ho ho', hoursAgo_same h]
  | metricsOverview =>
    have hsignals : db.signals.filter (fun s => s.workspaceId == w.toInt && hoursAgo db 24 < s.createdAt) =
        db'.signals.filter fun s => s.workspaceId == w.toInt && hoursAgo db 24 < s.createdAt :=
      filter_asking h.signals fun s _ _ _ => rfl
    rw [respond, respond, overview, overview, hsignals, cases_of_owned h ho ho', h.wallets, h.tokens, h.clusters,
      h.transfers, hoursAgo_same h]
  | listLabels chain address => simp only [respond, labelsOf_same h]
  | radarCases limit => rw [respond, respond, caseList, caseList, cases_of_owned h ho ho']
  | radarCase id => rw [respond, respond, caseOf_same h ho ho']
  | listSignals limit => rw [respond, respond, signalList_same h]
  | signalRejections limit => rw [respond, respond, rejectionList_same h]
  | tokenRecent chain mint window => simp only [respond, fetchRecentTimeline_same h]
  | tokenRelations chain mint => simp only [respond, fetchRelations_same h]

theorem select_same (h : SameFor w db db') (s : Selection) (ho : (Read.selection s).OwnedBy w db)
    (ho' : (Read.selection s).OwnedBy w db') : select db w s = select db' w s := by
  cases s with
  | evaluateRadarCases => rw [select, select, openRadarCases_same h]
  | pendingSignalAlerts destination => rw [select, select, pendingSignalAlerts_same h destination ho ho']
  | evaluateDueSignals config => rw [select, select, dueSignals_same h]

theorem answer_same (hsession : requireWorkspace c db = .ok w) (h : SameFor w db db') (r : Read) (ho : r.OwnedBy w db)
    (ho' : r.OwnedBy w db') : r.answer c w db = r.answer c w db' := by
  cases r with
  | endpoint request =>
    have hsession' : requireWorkspace c db' = .ok w := (requireWorkspace_same h).symm.trans hsession
    rw [Read.answer, Read.answer, handle_eq hsession, handle_eq hsession', respond_same h request ho ho']
  | selection s =>
    rw [Read.answer, Read.answer, select_same h s ho ho']

/-- What is the workspace's is no question for a scoped read. -/
theorem owned_of_scoped {r : Read} (hr : r.scoped = true) (db : Database) : r.OwnedBy w db := by
  cases r with
  | endpoint request =>
    cases request with
    | radarCase id =>
      intro case hcase hid
      have hpos := db.caseIds_pos case hcase
      have hle : id ≤ 0 := of_decide_eq_true hr
      omega
    | metricsRadarTrend hours => cases hr
    | metricsOverview => cases hr
    | radarCases limit => cases hr
    | metricsSignalsTimeline hours => trivial
    | listLabels chain address => trivial
    | listSignals limit => trivial
    | signalRejections limit => trivial
    | tokenRecent chain mint window => trivial
    | tokenRelations chain mint => trivial
  | selection s =>
    cases s with
    | pendingSignalAlerts destination => cases hr
    | evaluateRadarCases => trivial
    | evaluateDueSignals config => trivial

end

/-! ## A case and an alert of another workspace -/

def entrySignal : Signals.SignalRow :=
  ⟨⟨1, "solana", "mint", "entry", 0, 80, "active", ⟨2, 2, "bonding_curve", some 1, none, none, [], 80, 80, 1, none⟩⟩, 1⟩

/-- A workspace with a session and a signal. -/
def ownDb : Database where
  toRadarDb := Radar.emptyDb
  sessions := [⟨"token", 1, some 1⟩]
  labels := []
  signals := [entrySignal]
  evaluations := []
  recentEvents := SerialTable.Table.empty
  alerts := []
  tokens := []
  clusters := []
  transfers := []
  caseIds_pos := by decide

def otherCase (id : Int) : Radar.CaseRow :=
  ⟨id, 2, "solana", "wallet", 0, none, 150, "source", none, 0, Radar.days 7, .funded, 55, none, 0, none⟩

/-- Another workspace has a case. -/
def withOtherCase (id : Int) (hpos : 0 < id) : Database :=
  { ownDb with
    cases := [otherCase id]
    nextCaseId := id + 1
    keys_nodup := List.nodup_singleton _
    ids_nodup := List.nodup_singleton _
    ids_lt := by
      intro c hc
      obtain rfl := List.mem_singleton.mp hc
      exact Int.lt_succ id
    events_case := by
      intro e he
      cases he
    caseIds_pos := by
      intro c hc
      obtain rfl := List.mem_singleton.mp hc
      exact hpos }

/-- Another workspace has an alert that names the signal. -/
def withOtherAlert (destination : String) : Database :=
  { ownDb with
    alerts := [⟨"signal", 2, some 1, none, destination, .sent, 1, none, none, none, some 0, none⟩] }

def caller : Caller := ⟨true, id, some "token"⟩

theorem ownDb_session : requireWorkspace caller ownDb = .ok 1 := rfl

theorem sameFor_otherCase (id : Int) (hpos : 0 < id) : SameFor 1 ownDb (withOtherCase id hpos) :=
  ⟨rfl, rfl, rfl, rfl, rfl, rfl, rfl, rfl, rfl, rfl, rfl, rfl, rfl, rfl⟩

theorem sameFor_otherAlert (destination : String) : SameFor 1 ownDb (withOtherAlert destination) :=
  ⟨rfl, rfl, rfl, rfl, rfl, rfl, rfl, rfl, rfl, rfl, rfl, rfl, rfl, rfl⟩

/-- Any rows make an hour. -/
theorem byHour_ne_nil {ρ α : Type} {time : ρ → DateTime} {counts : List ρ → α} {rows : List ρ} {r : ρ} (hr : r ∈ rows) :
    byHour time counts rows ≠ [] := by
  have hhour : dateTruncHour (time r) ∈ (distinct (fun r => dateTruncHour (time r)) rows).insertionSort (· ≤ ·) :=
    (List.mem_insertionSort _).mpr (mem_distinct.mpr ⟨r, hr, rfl⟩)
  intro hnil
  rw [byHour, List.map_eq_nil_iff] at hnil
  rw [hnil] at hhour
  cases hhour

theorem radarTrend_otherCase (hours : Option Int) :
    radarTrend ownDb (clampHours hours 48) ≠ radarTrend (withOtherCase 1 (by decide)) (clampHours hours 48) := by
  have hempty : radarTrend ownDb (clampHours hours 48) = [] := rfl
  have hrecent : hoursAgo (withOtherCase 1 (by decide)) (clampHours hours 48) < 0 := by
    have hpos : 1 ≤ clampHours hours 48 := le_max_left _ _
    show 0 - seconds (clampHours hours 48 * 3600) < 0
    rw [seconds]
    omega
  rw [hempty, radarTrend]
  apply Ne.symm
  apply byHour_ne_nil (r := otherCase 1)
  exact List.mem_filter.mpr ⟨List.mem_cons_self, decide_eq_true hrecent⟩

theorem caseList_otherCase (limit : Option Int) :
    caseList ownDb (clampLimit limit) ≠ caseList (withOtherCase 1 (by decide)) (clampLimit limit) := by
  obtain ⟨n, hn⟩ : ∃ n, clampLimit limit = n + 1 := by
    apply Nat.exists_eq_succ_of_ne_zero
    have hpos : 1 ≤ max 1 (min 500 (limit.getD 50)) := le_max_left _ _
    rw [clampLimit]
    omega
  have hempty : caseList ownDb (n + 1) = [] := rfl
  rw [hn, hempty]
  exact (List.cons_ne_nil _ _).symm

/-- A read that is not scoped tells apart two states that are the same to the workspace. -/
theorem tells_apart {r : Read} (hr : r.scoped = false) :
    ∃ db, SameFor 1 ownDb db ∧ r.answer caller 1 ownDb ≠ r.answer caller 1 db := by
  have hresponds : ∀ (request : Request) (db : Database), SameFor 1 ownDb db →
      respond 1 ownDb request ≠ respond 1 db request →
        (Read.endpoint request).answer caller 1 ownDb ≠ (Read.endpoint request).answer caller 1 db := by
    intro request db hsame hne heq
    have hsession : requireWorkspace caller db = .ok 1 := (requireWorkspace_same hsame).symm.trans ownDb_session
    rw [Read.answer, Read.answer, handle_eq ownDb_session, handle_eq hsession] at heq
    exact hne (Answer.response.inj heq)
  have hcase : SameFor 1 ownDb (withOtherCase 1 (by decide)) := sameFor_otherCase 1 (by decide)
  cases r with
  | endpoint request =>
    cases request with
    | metricsRadarTrend hours =>
      refine ⟨_, hcase, hresponds _ _ hcase fun heq => radarTrend_otherCase hours ?_⟩
      exact Body.radarTrend.inj (Except.ok.inj heq)
    | metricsOverview =>
      refine ⟨_, hcase, hresponds _ _ hcase fun heq => ?_⟩
      have hopen := congrArg Overview.radarOpen (Body.overview.inj (Except.ok.inj heq))
      exact absurd hopen (by decide)
    | radarCases limit =>
      refine ⟨_, hcase, hresponds _ _ hcase fun heq => caseList_otherCase limit ?_⟩
      exact Body.cases.inj (Except.ok.inj heq)
    | radarCase id =>
      have hpos : 0 < id := not_le.mp (of_decide_eq_false hr)
      refine ⟨_, sameFor_otherCase id hpos, hresponds _ _ (sameFor_otherCase id hpos) fun heq => ?_⟩
      have hfound : caseOf (withOtherCase id hpos) id = some ⟨id, "solana", "wallet", .funded, 55, none⟩ := by
        simp [caseOf, withOtherCase, otherCase]
      rw [respond, respond, hfound] at heq
      cases heq
    | metricsSignalsTimeline hours => cases hr
    | listLabels chain address => cases hr
    | listSignals limit => cases hr
    | signalRejections limit => cases hr
    | tokenRecent chain mint window => cases hr
    | tokenRelations chain mint => cases hr
  | selection s =>
    cases s with
    | pendingSignalAlerts destination =>
      refine ⟨_, sameFor_otherAlert destination, fun heq => ?_⟩
      have hpending := Selected.signals.inj (Answer.selected.inj heq)
      have hheld : pendingSignalAlerts (withOtherAlert destination) 1 destination = [] := by
        simp [pendingSignalAlerts, withOtherAlert, ownDb, entrySignal, holdsBack, oldestOf]
      rw [hheld] at hpending
      exact absurd hpending (List.cons_ne_nil _ _)
    | evaluateRadarCases => cases hr
    | evaluateDueSignals config => cases hr

/-- A read answers a workspace alike whatever the others have exactly when it is scoped,
and an unscoped one does so where all that it looks at is the workspace's. -/
theorem reads_noninterfering_iff (r : Read) :
    (r.NoninterferingOn (fun _ _ => True) ↔ r.scoped = true) ∧ r.NoninterferingOn r.OwnedBy := by
  refine ⟨⟨fun h => ?_, fun h c w db db' hs => ?_⟩, fun c w db db' hs => ?_⟩
  · rw [← Bool.not_eq_false]
    intro hr
    obtain ⟨db, hsame, hne⟩ := tells_apart hr
    exact not_noninterfering ⟨ownDb_session, hsame, trivial, trivial⟩ hne (h caller 1)
  · obtain ⟨hsession, hsame, -, -⟩ := hs
    exact answer_same hsession hsame r (owned_of_scoped h db) (owned_of_scoped h db')
  · obtain ⟨hsession, hsame, ho, ho'⟩ := hs
    exact answer_same hsession hsame r ho ho'

/-- A session of the one workspace is shown a case of the other, in the list, by its id,
and in the counts, and an alert of the other keeps the workspace's signal from being
selected. -/
theorem radarCases_leaks :
    SameFor 1 ownDb (withOtherCase 1 (by decide)) ∧ SameFor 1 ownDb (withOtherAlert "chat") ∧
      handle caller ownDb (.radarCases none) = .ok (.cases []) ∧
      handle caller (withOtherCase 1 (by decide)) (.radarCases none) =
        .ok (.cases [⟨1, "solana", "wallet", .funded, 55, 150, 0⟩]) ∧
      handle caller ownDb (.radarCase 1) = .error .notFound ∧
      handle caller (withOtherCase 1 (by decide)) (.radarCase 1) =
        .ok (.case ⟨1, "solana", "wallet", .funded, 55, none⟩) ∧
      handle caller ownDb (.metricsRadarTrend none) = .ok (.radarTrend []) ∧
      handle caller (withOtherCase 1 (by decide)) (.metricsRadarTrend none) = .ok (.radarTrend [(0, ⟨1, 0, 0⟩)]) ∧
      handle caller ownDb .metricsOverview = .ok (.overview ⟨0, 0, 0, 1, 0, 0⟩) ∧
      handle caller (withOtherCase 1 (by decide)) .metricsOverview = .ok (.overview ⟨0, 0, 0, 1, 1, 0⟩) ∧
      select ownDb 1 (.pendingSignalAlerts "chat") = .signals [⟨1, "solana", "mint", "entry", 80, 0⟩] ∧
      select (withOtherAlert "chat") 1 (.pendingSignalAlerts "chat") = .signals [] := by
  have hsession : requireWorkspace caller (withOtherCase 1 (by decide)) = .ok 1 := rfl
  refine ⟨sameFor_otherCase 1 (by decide), sameFor_otherAlert "chat", ?_⟩
  simp only [handle_eq ownDb_session, handle_eq hsession]
  decide +kernel

end WhaleIntelligence.Admin
