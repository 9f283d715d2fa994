import WhaleIntelligence.Admin.Reads
import WhaleIntelligence.Admin.Sessions

/- Who may use the admin panel: the session cookie, and the guards of its handlers.

   A login answers with a `Set-Cookie` value. A client keeps the pair before its first
   semicolon and sends it among its other cookies, and the guard finds it there
   (`sessionToken_header`). So a request is let through just while its session lasts
   (`requireAuth_iff`), and a store that fails is never reported as a bad session. -/
namespace WhaleIntelligence.Auth
open WhaleIntelligence

/-! ## Cookies -/

def SESSION_COOKIE : String := "swi_session"

def sessionCookieValue (token : String) : String :=
  SESSION_COOKIE ++ "=" ++ token ++ "; Path=/; HttpOnly; SameSite=Lax; Max-Age=" ++ toString (SESSION_TTL_HOURS * 3600)

def clearCookieValue : String := SESSION_COOKIE ++ "=; Path=/; HttpOnly; SameSite=Lax; Max-Age=0"

/-- One part of the header: its value, where it is the session cookie. -/
def readPart (part : List Char) : Option String :=
  match splitOnce '=' (trim (String.ofList part)) with
  | some (k, v) => if k == SESSION_COOKIE then some v else none
  | none => none

/-- `session_token` of the `Cookie` header, `none` where there is none or it is not text. -/
def sessionToken (cookie : Option String) : Option String :=
  cookie.bind fun cookie => (splitWhere (· == ';') cookie.toList).findSome? readPart

/-! ## Guards -/

/-- The answers of a handler that is not served. -/
inductive Refused where
  | badRequest | unauthorized | forbidden | notFound | internalServerError
  deriving DecidableEq, Repr

/-- What a request comes with, the time, and whether each of its two lookups of the session fails. -/
structure Request where
  authConfigured : Bool
  cookie : Option String
  now : DateTime
  sessionFault : Bool
  workspaceFault : Bool

section
variable (tokenHash : String → String)

def requireAuth (r : Request) (s : SessionStore) : Except Refused Unit :=
  if r.authConfigured then
    match sessionToken r.cookie with
    | none => .error .unauthorized
    | some token =>
      if r.sessionFault then .error .internalServerError
      else if (validateSession tokenHash s token r.now).1 then .ok ()
      else .error .unauthorized
  else .ok ()

def requireWriteAuth (r : Request) (s : SessionStore) : Except Refused Unit :=
  if r.authConfigured then requireAuth tokenHash r s else .error .forbidden

def requireWorkspace (r : Request) (s : SessionStore) : Except Refused Int :=
  match sessionToken r.cookie with
  | none => .error .unauthorized
  | some token =>
    if r.workspaceFault then .error .internalServerError
    else match workspaceForSession tokenHash s token r.now with
      | some id => .ok id
      | none => .error .unauthorized

end

/-! ## The guards of the reads

The reads take the table as a list of rows, and a request as the token that it comes with. -/

/-- The rows of the table are those of the list. -/
def Lists (db : Admin.Database) (s : SessionStore) : Prop :=
  ∀ hash grant, (∃ row, s.sessions hash = some row ∧ row.grant = grant) ↔
    ∃ row ∈ db.sessions, row.tokenHash = hash ∧ (row.expiresAt, row.workspaceId.map Int64.toInt) = grant

/-- The request is the caller's, and its lookups do not fail. -/
structure Request.IsOf (r : Request) (c : Admin.Caller) (db : Admin.Database) : Prop where
  authConfigured : r.authConfigured = c.authConfigured
  token : sessionToken r.cookie = c.sessionToken
  now : r.now = db.dbNow
  sessionFault : r.sessionFault = false
  workspaceFault : r.workspaceFault = false

def refused : Admin.StatusCode → Refused
  | .badRequest => .badRequest
  | .unauthorized => .unauthorized
  | .notFound => .notFound

section
variable {c : Admin.Caller} {db : Admin.Database} {s : SessionStore} {r : Request}

theorem validateSession_rows (h : Lists db s) (token : String) :
    Admin.validateSession c db token = (validateSession c.tokenHash s token db.dbNow).1 := by
  rw [Bool.eq_iff_iff]
  unfold Admin.validateSession validateSession
  by_cases hempty : token = ""
  · simp [hempty]
  · rw [if_neg hempty, KeyedTable.affects_iff]
    constructor
    · intro hany
      obtain ⟨row, hmem, hhash, hlive⟩ : ∃ row ∈ db.sessions, row.tokenHash = c.tokenHash token ∧
          db.dbNow < row.expiresAt := by simpa [hempty] using hany
      obtain ⟨row', hrow', hgrant⟩ := (h _ _).mpr ⟨row, hmem, hhash, rfl⟩
      have hexpires : row'.expiresAt = row.expiresAt := congrArg Prod.fst hgrant
      exact ⟨row', hrow', by simpa [hexpires] using hlive⟩
    · rintro ⟨row, hrow, hlive⟩
      obtain ⟨row', hmem, hhash, hgrant⟩ := (h _ _).mp ⟨row, hrow, rfl⟩
      have hexpires : row'.expiresAt = row.expiresAt := congrArg Prod.fst hgrant
      simp only [bne_iff_ne, Bool.and_eq_true, List.any_eq_true, beq_iff_eq, decide_eq_true_eq]
      exact ⟨hempty, row', hmem, hhash, hexpires ▸ of_decide_eq_true hlive⟩

theorem workspaceForSession_rows (h : Lists db s) (token : String) :
    (Admin.workspaceForSession c db token).map Int64.toInt = workspaceForSession c.tokenHash s token db.dbNow := by
  unfold Admin.workspaceForSession workspaceForSession
  by_cases hempty : token = ""
  · rw [if_pos hempty, if_pos hempty, Option.map_none]
  rw [if_neg hempty, if_neg hempty]
  cases hfind : db.sessions.find? fun s =>
      s.tokenHash == c.tokenHash token && db.dbNow < s.expiresAt && s.workspaceId.isSome with
  | some row =>
    have hrow := List.find?_some hfind
    simp only [Bool.and_eq_true, beq_iff_eq, decide_eq_true_eq] at hrow
    obtain ⟨row', hrow', hgrant⟩ := (h _ _).mpr ⟨row, List.mem_of_find?_eq_some hfind, hrow.1.1, rfl⟩
    have hexpires : row'.expiresAt = row.expiresAt := congrArg Prod.fst hgrant
    have hworkspace : row'.workspaceId = row.workspaceId.map Int64.toInt := congrArg Prod.snd hgrant
    rw [hrow', Option.filter_some, if_pos (decide_eq_true (hexpires ▸ hrow.1.2)), Option.bind_some, Option.bind_some,
      hworkspace]
  | none =>
    rw [Option.bind_none, Option.map_none, eq_comm, Option.bind_eq_none_iff]
    intro row hrow
    obtain ⟨hrow, hlive⟩ := Option.filter_eq_some_iff.mp hrow
    obtain ⟨row', hmem, hhash, hgrant⟩ := (h _ _).mp ⟨row, hrow, rfl⟩
    have hexpires : row'.expiresAt = row.expiresAt := congrArg Prod.fst hgrant
    have hworkspace : row'.workspaceId.map Int64.toInt = row.workspaceId := congrArg Prod.snd hgrant
    -- a row that is bound would have been found
    have hunbound : row'.workspaceId = none := by
      have hnot := List.find?_eq_none.mp hfind row' hmem
      rw [hhash, hexpires, hlive] at hnot
      simpa using hnot
    rw [← hworkspace, hunbound, Option.map_none]

theorem requireAuth_rows (h : Lists db s) (hr : r.IsOf c db) :
    (Admin.requireAuth c db).mapError refused = requireAuth c.tokenHash r s := by
  unfold Admin.requireAuth requireAuth
  rw [hr.authConfigured, hr.token, hr.sessionFault, hr.now]
  cases c.authConfigured with
  | false => rfl
  | true =>
    cases c.sessionToken with
    | none => rfl
    | some token =>
      simp only [if_true, validateSession_rows h]
      cases (validateSession c.tokenHash s token db.dbNow).1 <;> rfl

theorem requireWorkspace_rows (h : Lists db s) (hr : r.IsOf c db) :
    ((Admin.requireWorkspace c db).mapError refused).map Int64.toInt = requireWorkspace c.tokenHash r s := by
  unfold Admin.requireWorkspace requireWorkspace
  rw [hr.token, hr.workspaceFault, hr.now]
  cases c.sessionToken with
  | none => rfl
  | some token =>
    simp only [← workspaceForSession_rows h]
    cases Admin.workspaceForSession c db token <;> rfl

end

/-! ## The client -/

/-- What a client keeps of a `Set-Cookie` value. -/
def cookiePair (setCookie : String) : String := String.ofList (setCookie.toList.takeWhile (· != ';'))

/-- The `Cookie` header with the pairs. -/
def cookieHeader : List String → List Char
  | [] => []
  | [p] => p.toList
  | p :: q :: ps => p.toList ++ ';' :: ' ' :: cookieHeader (q :: ps)

theorem cookiePair_append {p rest : List Char} (hp : ';' ∉ p) :
    cookiePair (String.ofList (p ++ ';' :: rest)) = String.ofList p := by
  rw [cookiePair, String.toList_ofList, takeWhile_append_stop (· != ';') p ';' rest]
  · intro b hb
    rw [bne_iff_ne]
    rintro rfl
    exact hp hb
  · rfl

theorem readPart_space (part : List Char) : readPart (' ' :: part) = readPart part := by
  have htrim : trim (String.ofList (' ' :: part)) = trim (String.ofList part) := by
    rw [trim, trim, String.toList_ofList, String.toList_ofList]
    rfl
  rw [readPart, readPart, htrim]

/-- The value of the session cookie is its text after the name, where the name is trimmed already. -/
theorem readPart_session {token : List Char} (htoken : ∀ c ∈ token, isWhitespace c = false) :
    readPart (SESSION_COOKIE.toList ++ '=' :: token) = some (String.ofList token) := by
  have htrim : trim (String.ofList (SESSION_COOKIE.toList ++ '=' :: token)) =
      String.ofList (SESSION_COOKIE.toList ++ '=' :: token) := by
    have hend : trimEnd token = token := by
      rw [trimEnd, List.dropWhile_eq_self_iff.mpr, List.reverse_reverse]
      intro hlen
      simpa using htoken _ (List.mem_reverse.mp (List.getElem_mem hlen))
    rw [trim, String.toList_ofList, show trimStart (SESSION_COOKIE.toList ++ '=' :: token) =
      SESSION_COOKIE.toList ++ '=' :: token from rfl, trimEnd_append_cons (by decide), hend]
  rw [readPart, htrim, splitOnce_ofList (by decide), String.ofList_toList]
  exact if_pos (beq_self_eq_true _)

theorem splitWhere_eq_self {p : Char → Bool} {l : List Char} (h : ∀ c ∈ l, p c = false) : splitWhere p l = [l] := by
  induction l with
  | nil => rfl
  | cons c l ih =>
    rw [splitWhere, h c List.mem_cons_self, ih fun d hd => h d (List.mem_cons_of_mem _ hd)]
    rfl

/-- Without semicolons in the pairs, the header is split into them again. -/
theorem splitWhere_header {p : String} {ps : List String} (h : ∀ q ∈ p :: ps, ';' ∉ q.toList) :
    splitWhere (· == ';') (cookieHeader (p :: ps)) = p.toList :: ps.map fun q => ' ' :: q.toList := by
  have hplain : ∀ q ∈ p :: ps, ∀ c ∈ q.toList, (c == ';') = false := by
    intro q hq c hc
    rw [beq_eq_false_iff_ne]
    rintro rfl
    exact h q hq hc
  induction ps generalizing p with
  | nil =>
    rw [cookieHeader, splitWhere_eq_self (hplain p (by simp))]
    rfl
  | cons q ps ih =>
    have htail : splitWhere (· == ';') (' ' :: cookieHeader (q :: ps)) =
        (' ' :: q.toList) :: ps.map fun q => ' ' :: q.toList := by
      rw [splitWhere, if_neg (by decide), ih (fun r hr => h r (by simp [hr])) fun r hr => hplain r (by simp [hr])]
    rw [cookieHeader, splitWhere_append (hplain p (by simp)) (by decide), htail]
    rfl

/-- The token is what the first of the pairs says that is a session cookie. -/
theorem sessionToken_header {pairs : List String} (h : ∀ p ∈ pairs, ';' ∉ p.toList) :
    sessionToken (some (String.ofList (cookieHeader pairs))) = pairs.findSome? fun p => readPart p.toList := by
  cases pairs with
  | nil => rfl
  | cons p ps =>
    rw [sessionToken, Option.bind_some, String.toList_ofList, splitWhere_header h, List.findSome?_cons,
      List.findSome?_cons, List.findSome?_map]
    have hrest : (readPart ∘ fun q : String => ' ' :: q.toList) = fun q => readPart q.toList := by
      funext q
      rw [Function.comp_apply, readPart_space]
    rw [hrest]

section
variable {tokenHash : String → String} {workspaces : List WorkspaceRow} {events : List SessionEvent}
  {r : Request} {s : SessionStore} {token : String}

/-- A client that has been given a token sends it back, whatever other cookies it has. -/
theorem sessionToken_client (before after : List String)
    (htoken : ∀ c ∈ token.toList, c ≠ ';' ∧ isWhitespace c = false)
    (hpairs : ∀ p ∈ before ++ after, ';' ∉ p.toList) (hbefore : ∀ p ∈ before, readPart p.toList = none) :
    sessionToken (some (String.ofList (cookieHeader (before ++ cookiePair (sessionCookieValue token) :: after)))) =
      some token := by
  have hpair : cookiePair (sessionCookieValue token) =
      String.ofList (SESSION_COOKIE.toList ++ '=' :: token.toList) := by
    have hattributes : "; Path=/; HttpOnly; SameSite=Lax; Max-Age=".toList =
        ';' :: " Path=/; HttpOnly; SameSite=Lax; Max-Age=".toList := rfl
    have hvalue : (sessionCookieValue token).toList = (SESSION_COOKIE.toList ++ '=' :: token.toList) ++
        ';' :: (" Path=/; HttpOnly; SameSite=Lax; Max-Age=".toList ++
          (toString (SESSION_TTL_HOURS * 3600)).toList) := by
      rw [sessionCookieValue, String.toList_append, String.toList_append, String.toList_append, String.toList_append,
        hattributes, show "=".toList = ['='] from rfl]
      simp only [List.append_assoc, List.cons_append, List.nil_append]
    rw [← String.ofList_toList (s := sessionCookieValue token), hvalue, cookiePair_append]
    intro hmem
    rcases List.mem_append.mp hmem with hmem | hmem
    · exact absurd hmem (by decide)
    · rcases List.mem_cons.mp hmem with heq | hmem
      · exact absurd heq (by decide)
      · exact (htoken ';' hmem).1 rfl
  have hclean : ∀ p ∈ before ++ cookiePair (sessionCookieValue token) :: after, ';' ∉ p.toList := by
    intro p hp
    rcases List.mem_append.mp hp with hp | hp
    · exact hpairs p (List.mem_append_left _ hp)
    · rcases List.mem_cons.mp hp with rfl | hp
      · rw [cookiePair, String.toList_ofList]
        intro hmem
        simpa using List.all_eq_true.mp List.all_takeWhile _ hmem
      · exact hpairs p (List.mem_append_right _ hp)
  rw [sessionToken_header hclean, List.findSome?_append, List.findSome?_eq_none_iff.mpr hbefore, Option.none_or,
    List.findSome?_cons, hpair, String.toList_ofList, readPart_session fun c hc => (htoken c hc).2,
    String.ofList_toList]

/-- A request with a token is let through just where the session store, if it answers, says that it is valid. -/
theorem requireAuth_token (hconf : r.authConfigured = true) (hcookie : sessionToken r.cookie = some token) :
    requireAuth tokenHash r s = if r.sessionFault then .error .internalServerError
      else if (validateSession tokenHash s token r.now).1 then .ok () else .error .unauthorized := by
  rw [requireAuth, if_pos hconf, hcookie]

/-- The guard of a client that was given a token: it fails with the store, and else lets it through just while the
session lasts. -/
theorem requireAuth_iff (before after : List String) (hconf : r.authConfigured = true)
    (hcookie : r.cookie =
      some (String.ofList (cookieHeader (before ++ cookiePair (sessionCookieValue token) :: after))))
    (htoken : ∀ c ∈ token.toList, c ≠ ';' ∧ isWhitespace c = false) (hne : token ≠ "")
    (hpairs : ∀ p ∈ before ++ after, ';' ∉ p.toList) (hbefore : ∀ p ∈ before, readPart p.toList = none)
    (hinj : Set.InjOn tokenHash {t | t = token ∨ ∃ e ∈ events, e.token = some t})
    (hfresh : (events.filterMap SessionEvent.issued).Nodup)
    (hpruned : ∀ p ∈ events.filterMap SessionEvent.pruned, p ≤ r.now) :
    requireAuth tokenHash r (sessionsAfter tokenHash workspaces events) = .ok () ↔
      r.sessionFault = false ∧ ∃ g, Granted workspaces token g events ∧ r.now < g.1 := by
  have hagrees : Agrees tokenHash {t | t = token ∨ ∃ e ∈ events, e.token = some t} workspaces events
      (sessionsAfter tokenHash workspaces events) :=
    agrees_after hinj (fun e he t ht => Or.inr ⟨e, he, ht⟩) hfresh
  have hvalid := hagrees.validate_iff (Or.inl rfl) hpruned
  rw [and_iff_right hne] at hvalid
  rw [requireAuth_token hconf (hcookie ▸ sessionToken_client before after htoken hpairs hbefore), ← hvalid]
  cases r.sessionFault <;> simp

/-- The cookie that a logout leaves is no session. -/
theorem requireAuth_cleared (hconf : r.authConfigured = true) (hfault : r.sessionFault = false)
    (hcookie : r.cookie = some (String.ofList (cookieHeader [cookiePair clearCookieValue]))) :
    requireAuth tokenHash r s = .error .unauthorized := by
  have htoken : sessionToken r.cookie = some "" := by
    rw [hcookie]
    decide
  rw [requireAuth_token hconf htoken, hfault]
  rfl

end

/-- A request with the cookie of the second login among two others. -/
def secondRequest : Request where
  authConfigured := true
  cookie := some (String.ofList (cookieHeader ["theme=dark", cookiePair (sessionCookieValue "second"), "lang=en"]))
  now := seconds 7200
  sessionFault := false
  workspaceFault := false

theorem requireAuth_iff_second :
    requireAuth sha256Hex secondRequest (sessionsAfter sha256Hex [] twoLogins) = .ok () ↔
      secondRequest.sessionFault = false ∧ ∃ g, Granted [] "second" g twoLogins ∧ secondRequest.now < g.1 := by
  have hplain : ("second".toList.all fun c => c != ';' && !isWhitespace c) = true := by decide
  exact requireAuth_iff ["theme=dark"] ["lang=en"] rfl rfl (by simpa [List.all_eq_true] using hplain) (by decide)
    (by decide) (by decide) twoLogins_injOn (by decide) twoLogins_pruned

end WhaleIntelligence.Auth
