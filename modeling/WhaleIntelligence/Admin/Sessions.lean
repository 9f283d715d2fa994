import Mathlib.Data.List.Induction
import WhaleIntelligence.Lib.Episodes
import WhaleIntelligence.Lib.KeyedTable
import WhaleIntelligence.Admin.Login

/- The sessions of the admin panel, from the login that creates one to its end.

   A session is a row under the hash of its token. It is bound to a workspace when it is
   created, and it ends by logout, by expiry, or by the pruning of what has expired. A
   token is valid just while the login that issued it is less than a day old and no
   logout has followed it, and its workspace is the one that was selected at the login
   (`sessions_answer`, `workspaceForSession_iff`): pruning does not show, and neither do
   later changes of the workspaces. -/
namespace WhaleIntelligence.Auth
open WhaleIntelligence KeyedTable Episodes

/-! ## Tables -/

/-- A row of `admin_sessions` without its address and user agent. -/
structure SessionRow where
  expiresAt : DateTime
  lastSeenAt : Option DateTime
  workspaceId : Option Int
  deriving DecidableEq, Repr

/-- A row of `workspaces`. -/
structure WorkspaceRow where
  id : Int
  slug : String
  status : String
  deriving DecidableEq, Repr

/-- `admin_sessions`, by its primary key, and `workspaces`. -/
structure SessionStore where
  sessions : Table String SessionRow
  workspaces : List WorkspaceRow

def SESSION_TTL_HOURS : Int := 24

/-! ## Functions -/

def selectWorkspace (defaultId : Option Int) (activeIds : List Int) : Option Int :=
  match defaultId with
  | some id => some id
  | none =>
    match activeIds with
    | [only] => some only
    | _ => none

/-- The two queries, the second one for two rows at most, and the selection. -/
def workspaceForNewSession (workspaces : List WorkspaceRow) : Option Int :=
  let active := workspaces.filter (·.status == "active")
  let defaultId := (active.find? (·.slug == "default")).map (·.id)
  let activeIds := ((active.map (·.id)).insertionSort (· ≤ ·)).take 2
  selectWorkspace defaultId activeIds

section
variable (tokenHash : String → String)

/-- The statements of `create_session_in` that depend on the token. The hash is the primary key. -/
def createSession (s : SessionStore) (token : String) (now : DateTime) : Except String SessionStore :=
  match s.sessions (tokenHash token) with
  | some _ => .error "duplicate key value violates unique constraint \"admin_sessions_pkey\""
  | none =>
    let row : SessionRow := ⟨now + seconds (SESSION_TTL_HOURS * 3600), none, workspaceForNewSession s.workspaces⟩
    .ok { s with sessions := s.sessions.set (tokenHash token) (some row) }

/-- Whether the token is valid, and the store with the time that it was last seen. -/
def validateSession (s : SessionStore) (token : String) (now : DateTime) : Bool × SessionStore :=
  if token = "" then (false, s)
  else
    let alive := fun row : SessionRow => decide (now < row.expiresAt)
    (s.sessions.affects (tokenHash token) alive,
      { s with
        sessions := s.sessions.updateWhere (tokenHash token) alive fun row => { row with lastSeenAt := some now } })

def workspaceForSession (s : SessionStore) (token : String) (now : DateTime) : Option Int :=
  if token = "" then none
  else ((s.sessions (tokenHash token)).filter fun row => decide (now < row.expiresAt)).bind (·.workspaceId)

def destroySession (s : SessionStore) (token : String) : SessionStore :=
  { s with sessions := s.sessions.set (tokenHash token) none }

end

def pruneSessions (s : SessionStore) (now : DateTime) : SessionStore :=
  { s with sessions := fun hash => (s.sessions hash).filter fun row => !decide (row.expiresAt ≤ now) }

/-! ## Which workspace a session gets -/

section
variable {rows : List WorkspaceRow} {w : Int}

theorem eq_of_two_rows {l : List Int} (h : (l.insertionSort (· ≤ ·)).take 2 = [w]) : l = [w] := by
  have hlength := congrArg List.length h
  rw [List.length_take, List.length_insertionSort, List.length_singleton] at hlength
  have hone : l.length = 1 := by omega
  obtain ⟨a, rfl⟩ := List.length_eq_one_iff.mp hone
  simpa using h

/-- The workspace is the active one with the slug `default`, or, where there is none, the only active one. -/
def Selected (rows : List WorkspaceRow) (w : Int) : Prop :=
  (∃ r ∈ rows, r.status = "active" ∧ r.slug = "default" ∧ r.id = w) ∨
    ((∀ r ∈ rows, r.status = "active" → r.slug ≠ "default") ∧
      (rows.filter (·.status == "active")).map (·.id) = [w])

/-- A session is bound to the workspace that is selected, and stays unbound where none is. -/
theorem workspaceForNewSession_iff (hslug : (rows.map (·.slug)).Nodup) :
    workspaceForNewSession rows = some w ↔ Selected rows w := by
  have hactive : ∀ r, r ∈ rows.filter (·.status == "active") ↔ r ∈ rows ∧ r.status = "active" := by
    intro r
    rw [List.mem_filter, beq_iff_eq]
  unfold workspaceForNewSession selectWorkspace
  dsimp only
  cases hfind : (rows.filter (·.status == "active")).find? (·.slug == "default") with
  | some r =>
    obtain ⟨hr, hstatus⟩ := (hactive r).mp (List.mem_of_find?_eq_some hfind)
    have hdefault : r.slug = "default" := by simpa using List.find?_some hfind
    dsimp only [Option.map_some]
    constructor
    · intro h
      exact Or.inl ⟨r, hr, hstatus, hdefault, Option.some.inj h⟩
    · rintro (⟨r', hr', -, hslug', rfl⟩ | ⟨hnone, -⟩)
      · rw [List.inj_on_of_nodup_map hslug hr hr' (hdefault.trans hslug'.symm)]
      · exact absurd hdefault (hnone r hr hstatus)
  | none =>
    have hnone : ∀ r ∈ rows, r.status = "active" → r.slug ≠ "default" := by
      intro r hr hstatus hdefault
      exact List.find?_eq_none.mp hfind r ((hactive r).mpr ⟨hr, hstatus⟩) (beq_iff_eq.mpr hdefault)
    dsimp only [Option.map_none]
    constructor
    · intro h
      refine Or.inr ⟨hnone, eq_of_two_rows ?_⟩
      split at h
      · next only honly =>
        rw [honly, Option.some.inj h]
      · cases h
    · rintro (⟨r, hr, hstatus, hdefault, -⟩ | ⟨-, hone⟩)
      · exact absurd hdefault (hnone r hr hstatus)
      · rw [hone]
        rfl

end

/-! ## Runs -/

/-- What happens to the sessions. A login issues a token; where the store fails, its transaction is rolled back. -/
inductive SessionEvent where
  | login (token : String) (now : DateTime) (fault : Bool)
  | logout (token : String) (fault : Bool)
  | validate (token : String) (now : DateTime)
  | prune (now : DateTime)
  | workspaces (rows : List WorkspaceRow)
  deriving DecidableEq, Repr

section
variable (tokenHash : String → String)

def handle (s : SessionStore) : SessionEvent → SessionStore
  | .login token now fault =>
    if fault then s
    else match createSession tokenHash s token now with
      | .ok t => t
      | .error _ => s
  | .logout token fault => if fault then s else destroySession tokenHash s token
  | .validate token now => (validateSession tokenHash s token now).2
  | .prune now => pruneSessions s now
  | .workspaces rows => { s with workspaces := rows }

/-- The store after the events, from one without sessions. -/
def sessionsAfter (workspaces : List WorkspaceRow) (events : List SessionEvent) : SessionStore :=
  events.foldl (handle tokenHash) ⟨fun _ => none, workspaces⟩

end

/-- The workspaces as the events leave them. -/
def workspacesAfter (workspaces : List WorkspaceRow) (events : List SessionEvent) : List WorkspaceRow :=
  events.foldl (fun rows e => match e with
    | .workspaces rows' => rows'
    | _ => rows) workspaces

/-- The slugs of workspaces are unique, at the start and after every change. -/
def SlugsUnique (workspaces : List WorkspaceRow) (events : List SessionEvent) : Prop :=
  (workspaces.map (·.slug)).Nodup ∧ ∀ rows, .workspaces rows ∈ events → (rows.map (·.slug)).Nodup

/-- The token that an event issues. -/
def SessionEvent.issued : SessionEvent → Option String
  | .login token _ false => some token
  | _ => none

/-- The token that an event creates or destroys a session of. -/
def SessionEvent.token : SessionEvent → Option String
  | .login token _ _ => some token
  | .logout token _ => some token
  | _ => none

/-- The time of a pruning. -/
def SessionEvent.pruned : SessionEvent → Option DateTime
  | .prune now => some now
  | _ => none

/-- A login has issued the token, which expires and is bound as the pair says, and no logout has followed it. -/
def Granted (workspaces : List WorkspaceRow) (token : String) (g : DateTime × Option Int) : List SessionEvent → Prop :=
  Since (fun before e => ∃ now, e = .login token now false ∧
      g = (now + seconds (24 * 3600), workspaceForNewSession (workspacesAfter workspaces before)))
    fun e => e = .logout token false

/-- What a row says of its session to the end. -/
def SessionRow.grant (row : SessionRow) : DateTime × Option Int := (row.expiresAt, row.workspaceId)

section
variable {tokenHash : String → String} {workspaces : List WorkspaceRow} {events : List SessionEvent} {e : SessionEvent}
  {token : String} {g : DateTime × Option Int} {s t : SessionStore} {tokens : Set String}

theorem workspacesAfter_concat : workspacesAfter workspaces (events ++ [e]) = match e with
    | .workspaces rows => rows
    | _ => workspacesAfter workspaces events := by
  rw [workspacesAfter, List.foldl_concat]
  rfl

theorem SlugsUnique.after (h : SlugsUnique workspaces events) :
    ((workspacesAfter workspaces events).map (·.slug)).Nodup := by
  induction events using List.reverseRecOn with
  | nil => exact h.1
  | append_singleton events e ih =>
    rw [workspacesAfter_concat]
    split
    · next rows => exact h.2 rows (by simp)
    · exact ih ⟨h.1, fun rows hrows => h.2 rows (List.mem_append_left _ hrows)⟩

theorem granted_concat : Granted workspaces token g (events ++ [e]) ↔
    (∃ now, e = .login token now false ∧
      g = (now + seconds (24 * 3600), workspaceForNewSession (workspacesAfter workspaces events))) ∨
    (Granted workspaces token g events ∧ e ≠ .logout token false) :=
  since_concat

/-- An event that neither issues the token nor ends its session changes nothing for it. -/
theorem granted_concat_of_other (hin : ∀ now, e ≠ .login token now false) (hout : e ≠ .logout token false) :
    Granted workspaces token g (events ++ [e]) ↔ Granted workspaces token g events := by
  rw [granted_concat, and_iff_left hout, or_iff_right]
  rintro ⟨now, he, -⟩
  exact hin now he

theorem issued_of_granted (h : Granted workspaces token g events) : token ∈ events.filterMap SessionEvent.issued := by
  obtain ⟨before, e, after, rfl, ⟨now, rfl, -⟩, -⟩ := h
  simp [SessionEvent.issued]

/-- The table agrees with what has been granted, but for rows that a pruning has taken when they had expired. -/
structure Agrees (tokenHash : String → String) (tokens : Set String) (workspaces : List WorkspaceRow)
    (events : List SessionEvent) (s : SessionStore) : Prop where
  sound : ∀ token ∈ tokens, ∀ row, s.sessions (tokenHash token) = some row → Granted workspaces token row.grant events
  complete : ∀ token ∈ tokens, ∀ g, Granted workspaces token g events →
    (∃ row, s.sessions (tokenHash token) = some row ∧ row.grant = g) ∨
      ∃ p ∈ events.filterMap SessionEvent.pruned, g.1 ≤ p
  workspaces : s.workspaces = workspacesAfter workspaces events

/-- Where one event leaves what is granted to a token and what its row says, its part of the agreement stays. -/
theorem Agrees.sound_of_row (h : Agrees tokenHash tokens workspaces events s) (htoken : token ∈ tokens)
    (hin : ∀ now, e ≠ .login token now false) (hout : e ≠ .logout token false)
    (hrow : ∀ row, t.sessions (tokenHash token) = some row →
      ∃ old, s.sessions (tokenHash token) = some old ∧ old.grant = row.grant) :
    ∀ row, t.sessions (tokenHash token) = some row → Granted workspaces token row.grant (events ++ [e]) := by
  intro row hnew
  obtain ⟨old, hold, hsame⟩ := hrow row hnew
  rw [granted_concat_of_other hin hout, ← hsame]
  exact h.sound token htoken old hold

theorem Agrees.complete_of_row (h : Agrees tokenHash tokens workspaces events s) (htoken : token ∈ tokens)
    (hin : ∀ now, e ≠ .login token now false)
    (hrow : e ≠ .logout token false → ∀ row, s.sessions (tokenHash token) = some row →
      (∃ new, t.sessions (tokenHash token) = some new ∧ new.grant = row.grant) ∨
        ∃ p, e.pruned = some p ∧ row.expiresAt ≤ p) :
    ∀ g, Granted workspaces token g (events ++ [e]) →
      (∃ row, t.sessions (tokenHash token) = some row ∧ row.grant = g) ∨
        ∃ p ∈ (events ++ [e]).filterMap SessionEvent.pruned, g.1 ≤ p := by
  intro g hg
  obtain ⟨now, he, -⟩ | ⟨hg, hout⟩ := granted_concat.mp hg
  · exact absurd he (hin now)
  rw [List.filterMap_append]
  rcases h.complete token htoken g hg with ⟨row, hold, rfl⟩ | ⟨p, hp, hle⟩
  · rcases hrow hout row hold with hnew | ⟨p, hp, hle⟩
    · exact Or.inl hnew
    · exact Or.inr ⟨p, List.mem_append_right _ (by simp [hp]), hle⟩
  · exact Or.inr ⟨p, List.mem_append_left _ hp, hle⟩

/-- A login issues a token that has no row yet. -/
theorem agrees_login (hinj : Set.InjOn tokenHash tokens) (htoken : token ∈ tokens)
    (h : Agrees tokenHash tokens workspaces events s) (hfresh : token ∉ events.filterMap SessionEvent.issued)
    (now : DateTime) :
    Agrees tokenHash tokens workspaces (events ++ [.login token now false])
      (handle tokenHash s (.login token now false)) := by
  have habsent : s.sessions (tokenHash token) = none := by
    cases hrow : s.sessions (tokenHash token) with
    | none => rfl
    | some row => exact absurd (issued_of_granted (h.sound token htoken row hrow)) hfresh
  have hstore : handle tokenHash s (.login token now false) = { s with
      sessions := s.sessions.set (tokenHash token)
        (some ⟨now + seconds (24 * 3600), none, workspaceForNewSession s.workspaces⟩) } := by
    simp [handle, createSession, habsent, SESSION_TTL_HOURS]
  rw [hstore, h.workspaces]
  have hrow : ∀ token' ∈ tokens, token' ≠ token → ∀ r,
      (s.sessions.set (tokenHash token) r) (tokenHash token') = s.sessions (tokenHash token') :=
    fun token' htoken' hne r => set_ne _ (hinj.ne htoken' htoken hne) r
  have hin : ∀ token' ≠ token, ∀ now', SessionEvent.login token now false ≠ .login token' now' false :=
    fun token' hne now' he => hne (SessionEvent.login.inj he).1.symm
  refine ⟨fun token' htoken' => ?_, fun token' htoken' => ?_, ?_⟩
  · by_cases hne : token' = token
    · intro row hnew
      obtain rfl : _ = row := Option.some.inj ((set_self _ _ _).symm.trans (hne ▸ hnew))
      exact granted_concat.mpr (Or.inl ⟨now, by rw [hne], rfl⟩)
    · refine h.sound_of_row htoken' (hin token' hne) (by simp) fun row hnew => ⟨row, ?_, rfl⟩
      rw [← hrow token' htoken' hne]
      exact hnew
  · by_cases hne : token' = token
    · intro g hg
      rw [hne] at hg ⊢
      rcases granted_concat.mp hg with ⟨now', he, rfl⟩ | ⟨hold, -⟩
      · obtain rfl : now = now' := (SessionEvent.login.inj he).2.1
        exact Or.inl ⟨_, set_self _ _ _, rfl⟩
      · exact absurd (issued_of_granted hold) hfresh
    · refine h.complete_of_row htoken' (hin token' hne) fun _ row hold => Or.inl ⟨row, ?_, rfl⟩
      exact (hrow token' htoken' hne _).trans hold
  · rw [workspacesAfter_concat]

theorem agrees_logout (hinj : Set.InjOn tokenHash tokens) (htoken : token ∈ tokens)
    (h : Agrees tokenHash tokens workspaces events s) :
    Agrees tokenHash tokens workspaces (events ++ [.logout token false]) (destroySession tokenHash s token) := by
  have hrow : ∀ token' ∈ tokens, token' ≠ token →
      (destroySession tokenHash s token).sessions (tokenHash token') = s.sessions (tokenHash token') :=
    fun token' htoken' hne => set_ne _ (hinj.ne htoken' htoken hne) _
  refine ⟨fun token' htoken' => ?_, fun token' htoken' => ?_, ?_⟩
  · by_cases hne : token' = token
    · intro row hnew
      rw [hne] at hnew
      exact absurd ((set_self _ _ _).symm.trans hnew) (by simp)
    · refine h.sound_of_row htoken' (by simp) (by simpa using Ne.symm hne) fun row hnew => ⟨row, ?_, rfl⟩
      rw [← hrow token' htoken' hne]
      exact hnew
  · refine h.complete_of_row htoken' (by simp) fun hout row hold => Or.inl ⟨row, ?_, rfl⟩
    have hne : token' ≠ token := fun heq => hout (by rw [heq])
    rw [hrow token' htoken' hne]
    exact hold
  · rw [workspacesAfter_concat]
    exact h.workspaces

theorem agrees_validate (h : Agrees tokenHash tokens workspaces events s) (token : String) (now : DateTime) :
    Agrees tokenHash tokens workspaces (events ++ [.validate token now]) (validateSession tokenHash s token now).2 := by
  unfold validateSession
  split
  · exact ⟨fun token' htoken' => h.sound_of_row htoken' (by simp) (by simp) fun row hnew => ⟨row, hnew, rfl⟩,
      fun token' htoken' => h.complete_of_row htoken' (by simp) fun _ row hold => Or.inl ⟨row, hold, rfl⟩,
      by rw [workspacesAfter_concat]; exact h.workspaces⟩
  refine ⟨fun token' htoken' => h.sound_of_row htoken' (by simp) (by simp) fun row hnew => ?_,
    fun token' htoken' => h.complete_of_row htoken' (by simp) fun _ row hold => Or.inl ?_, ?_⟩
  · dsimp only at hnew
    rcases updateWhere_cases s.sessions (tokenHash token) (fun row => decide (now < row.expiresAt))
        (fun row => { row with lastSeenAt := some now }) (tokenHash token') with ⟨hsame, -⟩ | ⟨old, heq, hold, -, hset⟩
    · exact ⟨row, hsame.symm.trans hnew, rfl⟩
    · rw [hset] at hnew
      obtain rfl := Option.some.inj hnew
      exact ⟨old, heq ▸ hold, rfl⟩
  · dsimp only
    rcases updateWhere_cases s.sessions (tokenHash token) (fun row => decide (now < row.expiresAt))
        (fun row => { row with lastSeenAt := some now }) (tokenHash token') with ⟨hsame, -⟩ | ⟨old, heq, hold', -, hset⟩
    · exact ⟨row, hsame.trans hold, rfl⟩
    · rw [heq, hold'] at hold
      obtain rfl := Option.some.inj hold
      exact ⟨_, hset, rfl⟩
  · rw [workspacesAfter_concat]
    exact h.workspaces

theorem agrees_prune (h : Agrees tokenHash tokens workspaces events s) (now : DateTime) :
    Agrees tokenHash tokens workspaces (events ++ [.prune now]) (pruneSessions s now) := by
  refine ⟨fun token htoken => h.sound_of_row htoken (by simp) (by simp) fun row hnew => ?_,
    fun token htoken => h.complete_of_row htoken (by simp) fun _ row hold => ?_, ?_⟩
  · exact ⟨row, (Option.filter_eq_some_iff.mp hnew).1, rfl⟩
  · by_cases hgone : row.expiresAt ≤ now
    · exact Or.inr ⟨now, rfl, hgone⟩
    · refine Or.inl ⟨row, ?_, rfl⟩
      exact Option.filter_eq_some_iff.mpr ⟨hold, by simpa using hgone⟩
  · rw [workspacesAfter_concat]
    exact h.workspaces

/-- An event that leaves every session as it is. -/
theorem agrees_idle (h : Agrees tokenHash tokens workspaces events s) (hin : ∀ token now, e ≠ .login token now false)
    (hout : ∀ token, e ≠ .logout token false) (hsessions : t.sessions = s.sessions)
    (hworkspaces : t.workspaces = workspacesAfter workspaces (events ++ [e])) :
    Agrees tokenHash tokens workspaces (events ++ [e]) t := by
  refine ⟨fun token htoken => h.sound_of_row htoken (hin token) (hout token) fun row hnew => ⟨row, ?_, rfl⟩,
    fun token htoken => h.complete_of_row htoken (hin token) fun _ row hold => Or.inl ⟨row, ?_, rfl⟩, hworkspaces⟩
  · rw [← hsessions]
    exact hnew
  · rw [hsessions]
    exact hold

/-- One event keeps the agreement, where a login issues a new token. -/
theorem agrees_step (hinj : Set.InjOn tokenHash tokens) (htokens : ∀ token, e.token = some token → token ∈ tokens)
    (hfresh : ∀ token, e.issued = some token → token ∉ events.filterMap SessionEvent.issued)
    (h : Agrees tokenHash tokens workspaces events s) :
    Agrees tokenHash tokens workspaces (events ++ [e]) (handle tokenHash s e) := by
  have hsame : (∀ rows, e ≠ .workspaces rows) → s.workspaces = workspacesAfter workspaces (events ++ [e]) := by
    intro hne
    rw [workspacesAfter_concat, h.workspaces]
    split
    · next rows => exact absurd rfl (hne rows)
    · rfl
  cases e with
  | login token now fault =>
    cases fault with
    | true => exact agrees_idle h (by simp) (by simp) rfl (hsame (by simp))
    | false => exact agrees_login hinj (htokens token rfl) h (hfresh token rfl) now
  | logout token fault =>
    cases fault with
    | true => exact agrees_idle h (by simp) (by simp) rfl (hsame (by simp))
    | false => exact agrees_logout hinj (htokens token rfl) h
  | validate token now => exact agrees_validate h token now
  | prune now => exact agrees_prune h now
  | workspaces rows =>
    refine agrees_idle h (by simp) (by simp) rfl ?_
    rw [workspacesAfter_concat]
    rfl

theorem agrees_after (hinj : Set.InjOn tokenHash tokens)
    (htokens : ∀ e ∈ events, ∀ token, e.token = some token → token ∈ tokens)
    (hfresh : (events.filterMap SessionEvent.issued).Nodup) :
    Agrees tokenHash tokens workspaces events (sessionsAfter tokenHash workspaces events) := by
  induction events using List.reverseRecOn with
  | nil => exact ⟨fun _ _ _ h => absurd h (by simp [sessionsAfter]), fun _ _ _ h => absurd h not_since_nil, rfl⟩
  | append_singleton events e ih =>
    rw [List.filterMap_append, List.nodup_append] at hfresh
    rw [sessionsAfter, List.foldl_concat]
    refine agrees_step hinj (htokens e (by simp)) (fun token htoken hmem => ?_)
      (ih (fun f hf => htokens f (List.mem_append_left _ hf)) hfresh.1)
    exact hfresh.2.2 token hmem token (by simp [htoken]) rfl

/-- A row answers for the token just while its grant has time left. -/
theorem Agrees.row_iff (h : Agrees tokenHash tokens workspaces events s) (htoken : token ∈ tokens) {now : DateTime}
    (hpruned : ∀ p ∈ events.filterMap SessionEvent.pruned, p ≤ now) {P : DateTime × Option Int → Prop} :
    (∃ row, s.sessions (tokenHash token) = some row ∧ now < row.expiresAt ∧ P row.grant) ↔
      ∃ g, Granted workspaces token g events ∧ now < g.1 ∧ P g := by
  constructor
  · rintro ⟨row, hrow, hlive, hP⟩
    exact ⟨row.grant, h.sound token htoken row hrow, hlive, hP⟩
  · rintro ⟨g, hg, hlive, hP⟩
    rcases h.complete token htoken g hg with ⟨row, hrow, rfl⟩ | ⟨p, hp, hle⟩
    · exact ⟨row, hrow, hlive, hP⟩
    · exact absurd (Int.lt_of_lt_of_le hlive (Int.le_trans hle (hpruned p hp))) (Int.lt_irrefl now)

theorem Agrees.validate_iff (h : Agrees tokenHash tokens workspaces events s) (htoken : token ∈ tokens) {now : DateTime}
    (hpruned : ∀ p ∈ events.filterMap SessionEvent.pruned, p ≤ now) :
    (validateSession tokenHash s token now).1 = true ↔
      token ≠ "" ∧ ∃ g, Granted workspaces token g events ∧ now < g.1 := by
  unfold validateSession
  by_cases hempty : token = ""
  · simp [hempty]
  · rw [if_neg hempty, and_iff_right hempty, affects_iff]
    simpa using h.row_iff htoken hpruned (P := fun _ => True)

theorem Agrees.workspace_iff (h : Agrees tokenHash tokens workspaces events s) (htoken : token ∈ tokens)
    {now : DateTime} (hpruned : ∀ p ∈ events.filterMap SessionEvent.pruned, p ≤ now) {w : Int} :
    workspaceForSession tokenHash s token now = some w ↔
      token ≠ "" ∧ ∃ g, Granted workspaces token g events ∧ now < g.1 ∧ g.2 = some w := by
  unfold workspaceForSession
  by_cases hempty : token = ""
  · simp [hempty]
  · rw [if_neg hempty, and_iff_right hempty, ← h.row_iff htoken hpruned (P := fun g => g.2 = some w),
      Option.bind_eq_some_iff]
    simp only [Option.filter_eq_some_iff, decide_eq_true_eq, and_assoc, SessionRow.grant]

/-- After any events, a token is valid just while the login that issued it is less than a day old and has not been
followed by a logout, and it stands for the workspace that was selected at that login. -/
theorem sessions_answer (token : String) (now : DateTime)
    (hinj : Set.InjOn tokenHash {t | t = token ∨ ∃ e ∈ events, e.token = some t})
    (hfresh : (events.filterMap SessionEvent.issued).Nodup)
    (hpruned : ∀ p ∈ events.filterMap SessionEvent.pruned, p ≤ now) :
    ((validateSession tokenHash (sessionsAfter tokenHash workspaces events) token now).1 = true ↔
        token ≠ "" ∧ ∃ g, Granted workspaces token g events ∧ now < g.1) ∧
      ∀ w, workspaceForSession tokenHash (sessionsAfter tokenHash workspaces events) token now = some w ↔
        token ≠ "" ∧ ∃ g, Granted workspaces token g events ∧ now < g.1 ∧ g.2 = some w := by
  have hagrees : Agrees tokenHash {t | t = token ∨ ∃ e ∈ events, e.token = some t} workspaces events
      (sessionsAfter tokenHash workspaces events) :=
    agrees_after hinj (fun e he t ht => Or.inr ⟨e, he, ht⟩) hfresh
  exact ⟨hagrees.validate_iff (Or.inl rfl) hpruned, fun w => hagrees.workspace_iff (Or.inl rfl) hpruned⟩

/-- After any events, a token stands for the workspace that was selected among those that were there at the login that
issued it, as long as that lasts. -/
theorem workspaceForSession_iff (token : String) (now : DateTime) (w : Int) (hslug : SlugsUnique workspaces events)
    (hinj : Set.InjOn tokenHash {t | t = token ∨ ∃ e ∈ events, e.token = some t})
    (hfresh : (events.filterMap SessionEvent.issued).Nodup)
    (hpruned : ∀ p ∈ events.filterMap SessionEvent.pruned, p ≤ now) :
    workspaceForSession tokenHash (sessionsAfter tokenHash workspaces events) token now = some w ↔
      token ≠ "" ∧ ∃ before opened after, events = before ++ .login token opened false :: after ∧
        .logout token false ∉ after ∧ now < opened + seconds (24 * 3600) ∧
        Selected (workspacesAfter workspaces before) w := by
  have hagrees : Agrees tokenHash {t | t = token ∨ ∃ e ∈ events, e.token = some t} workspaces events
      (sessionsAfter tokenHash workspaces events) :=
    agrees_after hinj (fun e he t ht => Or.inr ⟨e, he, ht⟩) hfresh
  have hunique : ∀ before rest, events = before ++ rest → ((workspacesAfter workspaces before).map (·.slug)).Nodup := by
    rintro before rest rfl
    exact SlugsUnique.after ⟨hslug.1, fun rows hrows => hslug.2 rows (List.mem_append_left _ hrows)⟩
  rw [hagrees.workspace_iff (Or.inl rfl) hpruned]
  refine and_congr_right fun _ => ?_
  constructor
  · rintro ⟨g, ⟨before, e, after, hsplit, ⟨opened, rfl, rfl⟩, hafter⟩, hlive, hw⟩
    exact ⟨before, opened, after, hsplit, fun hout => hafter _ hout rfl, hlive,
      (workspaceForNewSession_iff (hunique before _ hsplit)).mp hw⟩
  · rintro ⟨before, opened, after, hsplit, hout, hlive, hw⟩
    refine ⟨_, ⟨before, _, after, hsplit, ⟨opened, rfl, rfl⟩, fun f hf heq => hout (heq ▸ hf)⟩, hlive, ?_⟩
    exact (workspaceForNewSession_iff (hunique before _ hsplit)).mpr hw

end

/-- The SHA-256 of two tokens, in hex. -/
def sha256Hex (token : String) : String :=
  if token = "first" then "a7937b64b8caa58f03721bb6bacf5c78cb235febe0e70b1b84cd99541461a08e"
  else if token = "second" then "16367aacb67a4a017c8da8ab95682ccb390863780f7114dda0a0e0c55644c7c4"
  else token

/-- Two logins, a pruning and the logout of the first, with a workspace that comes in between. -/
def twoLogins : List SessionEvent :=
  [.login "first" 0 false, .workspaces [⟨7, "acme", "active"⟩], .login "second" (seconds 3600) false,
    .prune (seconds 7200), .logout "first" false]

theorem twoLogins_injOn :
    Set.InjOn sha256Hex {t | t = "second" ∨ ∃ e ∈ twoLogins, e.token = some t} := by
  have hnamed : ∀ t, (t = "second" ∨ ∃ e ∈ twoLogins, e.token = some t) → t = "first" ∨ t = "second" := by
    rintro t (rfl | ⟨e, he, htoken⟩)
    · exact Or.inr rfl
    · simp only [twoLogins, List.mem_cons, List.not_mem_nil, or_false] at he
      rcases he with rfl | rfl | rfl | rfl | rfl <;> simp_all [SessionEvent.token]
  intro a ha b hb hab
  rcases hnamed a ha with rfl | rfl <;> rcases hnamed b hb with rfl | rfl
  · rfl
  · exact absurd hab (by decide)
  · exact absurd hab (by decide)
  · rfl

theorem twoLogins_pruned : ∀ p ∈ twoLogins.filterMap SessionEvent.pruned, p ≤ seconds 7200 := by
  simp [twoLogins, SessionEvent.pruned]

theorem sessions_answer_second :
    ((validateSession sha256Hex (sessionsAfter sha256Hex [] twoLogins) "second" (seconds 7200)).1 = true ↔
        "second" ≠ "" ∧ ∃ g, Granted [] "second" g twoLogins ∧ seconds 7200 < g.1) ∧
      ∀ w, workspaceForSession sha256Hex (sessionsAfter sha256Hex [] twoLogins) "second" (seconds 7200) = some w ↔
        "second" ≠ "" ∧ ∃ g, Granted [] "second" g twoLogins ∧ seconds 7200 < g.1 ∧ g.2 = some w :=
  sessions_answer "second" (seconds 7200) twoLogins_injOn (by decide) twoLogins_pruned

theorem workspaceForSession_iff_second :
    workspaceForSession sha256Hex (sessionsAfter sha256Hex [] twoLogins) "second" (seconds 7200) = some 7 ↔
      "second" ≠ "" ∧ ∃ before opened after, twoLogins = before ++ .login "second" opened false :: after ∧
        .logout "second" false ∉ after ∧ seconds 7200 < opened + seconds (24 * 3600) ∧
        Selected (workspacesAfter [] before) 7 := by
  refine workspaceForSession_iff "second" (seconds 7200) 7 ⟨List.nodup_nil, fun rows hrows => ?_⟩ twoLogins_injOn
    (by decide) twoLogins_pruned
  have hacme : rows = [⟨7, "acme", "active"⟩] := by simpa [twoLogins] using hrows
  rw [hacme]
  decide

/-- The second login answers for the workspace that was there by then. -/
example : workspaceForSession sha256Hex (sessionsAfter sha256Hex [] twoLogins) "second" (seconds 7200) = some 7 := by
  decide

end WhaleIntelligence.Auth
