import WhaleIntelligence.Lib.Limiter
import WhaleIntelligence.Lib.Parties
import WhaleIntelligence.Lib.Runs
import WhaleIntelligence.Rust
import Mathlib.Algebra.Order.Ring.Int

/- The login handler and its rate limit (src/src/admin.rs, src/src/auth.rs).

   A request is checked against the failures of its key, its password is verified, and
   the outcome is recorded. These are three steps: the steps of other requests come
   between them. `verified` is a ghost of the verifications. The session that a login
   creates and the texts of the pages are left out, and the store does not fail. -/
namespace WhaleIntelligence.Auth
open WhaleIntelligence Limiter Parties Runs Relation

def maxFailures : Nat := 5
def windowMinutes : Int := 15

/-- What the environment and bcrypt say: the hash of the password where one is
configured, and whether a password has a hash, or an error. -/
structure AuthConfig where
  passwordHash : Option String
  bcryptVerify : String → String → Option Bool

def authConfigured (c : AuthConfig) : Bool := c.passwordHash.isSome

def verifyPassword (c : AuthConfig) (password hash : String) : Bool := (c.bcryptVerify password hash).getD false

/-- The header is as `to_str` gives it. -/
structure LoginForm where
  forwardedFor : Option String
  password : String
  deriving DecidableEq, Repr

/-- The first entry of the header. -/
def clientIp (form : LoginForm) : String :=
  match form.forwardedFor with
  | none => "unknown"
  | some v => trim (String.ofList ((splitWhere (· == ',') v.toList).headD []))

def rateLimitKey : Option String → String
  | some ip => if trim ip = "" then "global" else "ip:" ++ trim ip
  | none => "global"

def LoginForm.key (form : LoginForm) : String := rateLimitKey (some (clientIp form))

/-! ## The rows -/

/-- A row of `login_attempts`. -/
structure LoginAttempt where
  key : String
  success : Bool
  attemptedAt : DateTime
  deriving DecidableEq, Repr

def LoginAttempt.isFailure (key : String) (row : LoginAttempt) : Bool := row.key == key && !row.success

def rateWindow : Int := seconds (windowMinutes * 60)

/-- The count of `is_rate_limited`. -/
def failures (attempts : List LoginAttempt) (key : String) (now : DateTime) : Nat :=
  attempts.countP fun row => row.isFailure key && now - rateWindow < row.attemptedAt

def thresholdReached (failures : Nat) : Bool := maxFailures ≤ failures

/-- The count is a bigint, cast with `as u32`. -/
def isRateLimited (attempts : List LoginAttempt) (key : String) (now : DateTime) : Bool :=
  thresholdReached (asU32 (failures attempts key now))

def recordAttempt (attempts : List LoginAttempt) (key : String) (success : Bool) (now : DateTime) : List LoginAttempt :=
  attempts ++ [⟨key, success, now⟩]

def clearAttempts (attempts : List LoginAttempt) (key : String) : List LoginAttempt :=
  attempts.filter fun row => !row.isFailure key

/-- One transaction: the success is recorded and the failures are deleted. -/
def establishSession (attempts : List LoginAttempt) (key : String) (now : DateTime) : List LoginAttempt :=
  clearAttempts (recordAttempt attempts key true now) key

/-! ## The requests -/

inductive LoginResponse where
  | forbidden | tooManyRequests | wrongPassword | session
  deriving DecidableEq, Repr

/-- How far a request is. -/
inductive Phase where
  | arrived | admitted | refused | accepted
  | responded (r : LoginResponse)
  deriving DecidableEq, Repr

/-- The next step of `login_submit` and what it makes of the rows. -/
def loginSubmit (c : AuthConfig) (form : LoginForm) (attempts : List LoginAttempt) (now : DateTime) :
    Phase → Option (Phase × List LoginAttempt)
  | .arrived =>
    if !authConfigured c then some (.responded .forbidden, attempts)
    else if isRateLimited attempts form.key now then some (.responded .tooManyRequests, attempts)
    else some (.admitted, attempts)
  | .admitted =>
    if verifyPassword c (trim form.password) (c.passwordHash.getD "") then some (.accepted, attempts)
    else some (.refused, attempts)
  | .refused => some (.responded .wrongPassword, recordAttempt attempts form.key false now)
  | .accepted => some (.responded .session, establishSession attempts form.key now)
  | .responded _ => none

structure Login where
  form : LoginForm
  phase : Phase
  deriving DecidableEq, Repr

structure Site where
  clock : DateTime
  attempts : List LoginAttempt
  logins : List Login
  verified : List (String × DateTime)
  deriving DecidableEq, Repr

/-- A request arrives, or the request at the index takes its next step. -/
inductive Action where
  | arrive (form : LoginForm)
  | serve (i : Nat) (now : DateTime)
  deriving DecidableEq, Repr

def serve (c : AuthConfig) (s : Site) (i : Nat) (now : DateTime) : Option Site := do
  let login ← s.logins[i]?
  let (phase, attempts) ← loginSubmit c login.form s.attempts now login.phase
  some {
    clock := now
    attempts := attempts
    logins := s.logins.set i { login with phase := phase }
    verified := if login.phase = .admitted then s.verified ++ [(login.form.key, now)] else s.verified }

def next (c : AuthConfig) (s : Site) : Action → Option Site
  | .arrive form => some { s with logins := s.logins ++ [⟨form, .arrived⟩] }
  | .serve i now => if s.clock ≤ now then serve c s i now else none

/-! ## What the limit counts -/

def Login.isAt (key : String) (phase : Phase) (login : Login) : Bool := login.form.key == key && login.phase == phase

/-- How many requests of the key are in the phase. -/
def Site.waiting (s : Site) (key : String) (phase : Phase) : Nat := s.logins.countP (Login.isAt key phase)

/-- How many verifications for the key are in the window that ends with `u`. -/
def Site.verifications (s : Site) (key : String) (u : DateTime) : Nat :=
  within rateWindow u ((s.verified.filter (·.1 == key)).map (·.2))

/-- No login of the key has succeeded. -/
def Site.NoSuccess (s : Site) (key : String) : Prop :=
  ∀ login ∈ s.logins, login.form.key = key → login.phase ≠ .accepted ∧ login.phase ≠ .responded .session

/-- A check that lets a request of the key on finds room for it, also where the requests
that were let on before and are not recorded yet are counted as failures. -/
def Roomy (c : AuthConfig) (key : String) (s : Site) : Action → Prop
  | .arrive _ => True
  | .serve i now => ∀ form, s.logins[i]? = some ⟨form, .arrived⟩ → form.key = key → authConfigured c = true →
      isRateLimited s.attempts key now = false →
      failures s.attempts key now + s.waiting key .refused + s.waiting key .admitted < maxFailures

/-- What a limiter sees of a key. -/
def Site.view (s : Site) (key : String) : Limiter.State DateTime where
  clock := s.clock
  admitted := s.waiting key .admitted
  unrecorded := s.waiting key .refused
  recorded := (s.attempts.filter (·.isFailure key)).map (·.attemptedAt)
  performed := (s.verified.filter (·.1 == key)).map (·.2)

section
variable {c : AuthConfig} {key : String} {s t : Site} {form : LoginForm} {attempts attempts' : List LoginAttempt}
  {now : DateTime} {phase phase' : Phase} {login : Login} {a : Action} {i : Nat} {actions : List Action}

theorem failures_view (s : Site) (key : String) (now : DateTime) :
    after (now - rateWindow) (s.view key).recorded = failures s.attempts key now := by
  rw [after, Site.view, List.countP_map, List.countP_filter]
  apply List.countP_congr
  intro row _
  simp [and_comm]

/-- The steps of a request that does not succeed. -/
theorem submit_cases (h : loginSubmit c form attempts now phase = some (phase', attempts')) (hfail : phase' ≠ .accepted)
    (hfail' : phase' ≠ .responded .session) :
    (phase = .arrived ∧ ∃ r, phase' = .responded r) ∨
    (phase = .arrived ∧ authConfigured c = true ∧ isRateLimited attempts form.key now = false ∧ phase' = .admitted) ∨
    (phase = .admitted ∧ phase' = .refused) ∨
    (phase = .refused ∧ ∃ r, phase' = .responded r) := by
  cases phase with
  | arrived =>
    simp only [loginSubmit] at h
    grind
  | admitted =>
    simp only [loginSubmit] at h
    grind
  | refused =>
    obtain ⟨rfl, -⟩ := Prod.mk.inj (Option.some.inj h)
    exact .inr (.inr (.inr ⟨rfl, _, rfl⟩))
  | accepted =>
    obtain ⟨rfl, -⟩ := Prod.mk.inj (Option.some.inj h)
    exact absurd rfl hfail'
  | responded r => cases h

variable (key) in
/-- The recorded failures of a key after a step of a request. -/
theorem recorded_submit (h : loginSubmit c form attempts now phase = some (phase', attempts'))
    (hkey : form.key = key → phase ≠ .accepted) :
    (attempts'.filter (·.isFailure key)).map (·.attemptedAt) =
      (attempts.filter (·.isFailure key)).map (·.attemptedAt) ++
        if form.key = key ∧ phase = .refused then [now] else [] := by
  cases phase with
  | arrived =>
    simp only [loginSubmit] at h
    grind
  | admitted =>
    simp only [loginSubmit] at h
    grind
  | refused =>
    obtain ⟨-, rfl⟩ := Prod.mk.inj (Option.some.inj h)
    by_cases hk : form.key = key
    · simp [recordAttempt, LoginAttempt.isFailure, hk]
    · simp [recordAttempt, LoginAttempt.isFailure, hk]
  | accepted =>
    obtain ⟨-, rfl⟩ := Prod.mk.inj (Option.some.inj h)
    have hk : form.key ≠ key := fun hk => hkey hk rfl
    -- what it deletes are failures of its own key
    have hkeep : ∀ row : LoginAttempt, (row.isFailure key && !row.isFailure form.key) = row.isFailure key := by
      intro row
      by_cases hrow : row.key = key
      · simp [LoginAttempt.isFailure, hrow, Ne.symm hk]
      · simp [LoginAttempt.isFailure, hrow]
    have hsuccess : LoginAttempt.isFailure key ⟨form.key, true, now⟩ = false := Bool.and_false _
    simp [establishSession, clearAttempts, recordAttempt, List.filter_filter, hkeep, hsuccess]
  | responded r => cases h

/-- What a step of a request does to the counts of a key. -/
theorem serve_counts (h : serve c s i now = some t) (key : String) :
    ∃ form phase phase', s.logins[i]? = some ⟨form, phase⟩ ∧
      loginSubmit c form s.attempts now phase = some (phase', t.attempts) ∧ t.clock = now ∧ ⟨form, phase'⟩ ∈ t.logins ∧
      (∀ p, t.waiting key p + (if form.key = key ∧ phase = p then 1 else 0) =
        s.waiting key p + if form.key = key ∧ phase' = p then 1 else 0) ∧
      (t.view key).performed = (s.view key).performed ++ if form.key = key ∧ phase = .admitted then [now] else [] := by
  rw [serve] at h
  obtain ⟨⟨form, phase⟩, hlogin, h⟩ := Option.bind_eq_some_iff.mp h
  obtain ⟨⟨phase', attempts⟩, hsubmit, h⟩ := Option.bind_eq_some_iff.mp h
  obtain rfl := Option.some.inj h
  refine ⟨form, phase, phase', hlogin, hsubmit, rfl, ?_, fun p => ?_, ?_⟩
  · exact List.mem_set (List.getElem?_eq_some_iff.mp hlogin).1 _
  · have hset := countP_set hlogin (Login.isAt key p) ⟨form, phase'⟩
    simpa only [Login.isAt, Bool.and_eq_true, beq_iff_eq, Site.waiting] using hset
  · by_cases hkey : form.key = key
    · by_cases hphase : phase = .admitted <;> simp [Site.view, hkey, hphase]
    · by_cases hphase : phase = .admitted <;> simp [Site.view, hkey, hphase]

theorem view_arrive (form : LoginForm) :
    Site.view { s with logins := s.logins ++ [⟨form, .arrived⟩] } key = s.view key := by
  have hsame : ∀ p : Phase, p ≠ .arrived →
      (s.logins ++ [Login.mk form .arrived]).countP (Login.isAt key p) = s.waiting key p := by
    intro p hp
    simp [Login.isAt, Site.waiting, hp.symm]
  exact State.ext rfl (hsame .admitted (by decide)) (hsame .refused (by decide)) rfl rfl

/-- A step of a request is one of the limiter, where its clock is the site's. -/
theorem view_serve (h : serve c s i now = some t) (hroomy : Roomy c key s (.serve i now)) (hfail : t.NoSuccess key) :
    t.view key = { s.view key with clock := now } ∨
      Step maxFailures rateWindow { s.view key with clock := now } (t.view key) := by
  obtain ⟨form, phase, phase', hlogin, hsubmit, hclock, hmem, hwaiting, hperformed⟩ := serve_counts h key
  have hadmitted := hwaiting .admitted
  have hrefused := hwaiting .refused
  by_cases hkey : form.key = key
  · subst hkey
    obtain ⟨hfail, hfail'⟩ := hfail _ hmem rfl
    have hcases := submit_cases hsubmit hfail hfail'
    have hrecorded := recorded_submit form.key hsubmit fun _ hphase => by simp_all
    simp only [true_and] at hadmitted hrefused hperformed hrecorded
    obtain ⟨rfl, r, rfl⟩ | ⟨rfl, hconfigured, hlimited, rfl⟩ | ⟨rfl, rfl⟩ | ⟨rfl, r, rfl⟩ := hcases
    all_goals
      simp only [reduceCtorEq, if_false, if_true, Nat.add_zero,
        List.append_nil] at hadmitted hrefused hperformed hrecorded
    · exact .inl (State.ext hclock hadmitted hrefused hrecorded hperformed)
    · have hroom := hroomy form hlogin rfl hconfigured hlimited
      rw [← failures_view] at hroom
      have hview : t.view form.key =
          { s.view form.key with clock := now, admitted := s.waiting form.key .admitted + 1 } :=
        State.ext hclock hadmitted hrefused hrecorded hperformed
      rw [hview]
      exact .inr (.enter _ hroom)
    · have hview : t.view form.key =
          { s.view form.key with
            clock := now
            admitted := t.waiting form.key .admitted
            unrecorded := s.waiting form.key .refused + 1
            performed := (s.view form.key).performed ++ [now] } :=
        State.ext hclock rfl hrefused hrecorded hperformed
      rw [hview]
      exact .inr (.perform _ _ hadmitted.symm)
    · have hview : t.view form.key =
          { s.view form.key with
            clock := now
            unrecorded := t.waiting form.key .refused
            recorded := (s.view form.key).recorded ++ [now] } :=
        State.ext hclock hadmitted rfl hrecorded hperformed
      rw [hview]
      exact .inr (.record _ _ hrefused.symm)
  · have hrecorded := recorded_submit key hsubmit fun hk => absurd hk hkey
    simp only [hkey, false_and, if_false, Nat.add_zero, List.append_nil] at hadmitted hrefused hperformed hrecorded
    exact .inl (State.ext hclock hadmitted hrefused hrecorded hperformed)

/-- A step of the site is, for the limiter of a key, some of its steps. -/
theorem view_next (h : next c s a = some t) (hroomy : Roomy c key s a) (hfail : t.NoSuccess key) :
    ReflTransGen (Step maxFailures rateWindow) (s.view key) (t.view key) := by
  cases a with
  | arrive form =>
    obtain rfl := Option.some.inj h
    rw [view_arrive]
  | serve i now =>
    rw [next] at h
    split at h
    case isFalse => cases h
    case isTrue hnow =>
    have hwait : Step maxFailures rateWindow (s.view key) { s.view key with clock := now } := .wait _ now hnow
    obtain hsame | hstep := view_serve h hroomy hfail
    · rw [hsame]
      exact .single hwait
    · exact .tail (.single hwait) hstep

theorem noSuccess_iff : s.NoSuccess key ↔ s.waiting key .accepted = 0 ∧ s.waiting key (.responded .session) = 0 := by
  simp only [Site.waiting, List.countP_eq_zero, Login.isAt, Bool.and_eq_true, beq_iff_eq, ← forall_and, Site.NoSuccess]
  grind

/-- A login that has succeeded stays. -/
theorem noSuccess_of_next (h : next c s a = some t) (hfail : t.NoSuccess key) : s.NoSuccess key := by
  cases a with
  | arrive form =>
    obtain rfl := Option.some.inj h
    exact fun login hlogin => hfail login (List.mem_append_left _ hlogin)
  | serve i now =>
    rw [next] at h
    split at h
    case isFalse => cases h
    case isTrue hnow =>
    obtain ⟨form, phase, phase', -, hsubmit, -, -, hwaiting, -⟩ := serve_counts h key
    have haccepted := hwaiting .accepted
    have hsession := hwaiting (.responded .session)
    rw [noSuccess_iff] at hfail ⊢
    -- the step from `accepted` is to the session
    have hnext : phase = .accepted → phase' = .responded .session := by
      rintro rfl
      exact (Prod.mk.inj (Option.some.inj hsubmit)).1.symm
    have hlast : phase ≠ .responded .session := by
      rintro rfl
      cases hsubmit
    grind

/-! ## The bound -/

/-- In a run whose checks of the key all find room, and in which no login of the key
succeeds, no window has more verifications for the key than the failures it may have. -/
theorem verifications_le (hlogins : s.logins = []) (hverified : s.verified = [])
    (hrun : Run (fun s a t => next c s a = some t ∧ Roomy c key s a) s actions t) (hfail : t.NoSuccess key)
    (u : DateTime) : t.verifications key u ≤ maxFailures := by
  have hview : ReflTransGen (Step maxFailures rateWindow) (s.view key) (t.view key) ∧ s.NoSuccess key := by
    clear hlogins hverified
    induction actions generalizing s with
    | nil =>
      obtain rfl := hrun
      exact ⟨.refl, hfail⟩
    | cons a actions ih =>
      obtain ⟨r, ⟨hnext, hroomy⟩, hrest⟩ := hrun
      obtain ⟨hsteps, hr⟩ := ih hrest
      exact ⟨(view_next hnext hroomy hr).trans hsteps, noSuccess_of_next hnext hr⟩
  apply performed_le hview.1
  · simp [Site.view, Site.waiting, hlogins]
  · simp [Site.view, hverified]

end

/-! A password that bcrypt refuses, tried by requests whose steps interleave, and by six that are all checked first. -/

def refusing : AuthConfig := ⟨some "hash", fun _ _ => none⟩
def attempt : LoginForm := ⟨none, "guess"⟩
def proxied : LoginForm := ⟨some "10.0.0.2, 10.0.0.1", "guess"⟩
def newSite : Site := ⟨0, [], [], []⟩

/-- `Roomy` for the key of the request. -/
def room (c : AuthConfig) (s : Site) : Action → Bool
  | .arrive _ => true
  | .serve i now =>
    match s.logins[i]? with
    | some ⟨form, .arrived⟩ => !authConfigured c || isRateLimited s.attempts form.key now ||
        failures s.attempts form.key now + s.waiting form.key .refused + s.waiting form.key .admitted < maxFailures
    | _ => true

theorem roomy_of_room {c : AuthConfig} {s : Site} {a : Action} (h : room c s a = true) (key : String) :
    Roomy c key s a := by
  cases a with
  | arrive form => trivial
  | serve i now =>
    intro form hlogin hkey hconfigured hlimited
    subst hkey
    simpa [room, hlogin, hconfigured, hlimited] using h

/-- Two pairs of requests of one address overlap, and a request of another address comes
between them. The last of the six finds the limit reached. -/
def overlapping : List Action :=
  [.arrive attempt, .arrive attempt, .arrive proxied, .serve 0 0, .serve 1 0, .serve 2 1, .serve 1 1, .serve 0 2,
    .serve 2 2, .serve 1 3, .serve 0 3, .serve 2 4, .arrive attempt, .arrive attempt, .serve 3 5, .serve 4 5,
    .serve 4 6, .serve 3 6, .serve 3 7, .serve 4 7, .arrive attempt, .arrive attempt, .serve 5 8, .serve 5 8,
    .serve 5 9, .serve 6 9]

def overlapped : Site :=
  (overlapping.foldlM (fun s a => if room refusing s a then next refusing s a else none) newSite).get
    (by decide +kernel)

example : overlapped.logins.map Login.phase = List.replicate 6 (.responded .wrongPassword) ++
    [.responded .tooManyRequests] := by decide +kernel

theorem overlapped_verifications_le : overlapped.verifications "ip:unknown" 9 ≤ maxFailures := by
  have hsome : overlapping.foldlM (fun s a => if room refusing s a then next refusing s a else none) newSite =
      some overlapped := (Option.some_get _).symm
  have hrun : Run (fun s a t => next refusing s a = some t ∧ Roomy refusing "ip:unknown" s a) newSite overlapping
      overlapped :=
    (run_checked_iff.mpr hsome).mono fun _ _ _ h => ⟨h.1, roomy_of_room h.2 _⟩
  have hfail : overlapped.NoSuccess "ip:unknown" := by
    rw [noSuccess_iff]
    decide +kernel
  exact verifications_le rfl rfl hrun hfail 9

def sixAttempts : List Action :=
  List.replicate 6 (.arrive attempt) ++ (List.range 6).map (.serve · 0) ++ (List.range 6).map (.serve · 0)

def sixVerified : Site :=
  ⟨0, [], List.replicate 6 ⟨attempt, .refused⟩, List.replicate 6 ("ip:unknown", 0)⟩

/-- All six are checked before the first is recorded. -/
theorem concurrent_verifications : ¬ ∀ (c : AuthConfig) (key : String) (s t : Site) (actions : List Action),
    s.logins = [] → s.verified = [] → Run (fun s a t => next c s a = some t) s actions t → t.NoSuccess key →
      ∀ u, t.verifications key u ≤ maxFailures := by
  intro h
  have hrun : sixAttempts.foldlM (next refusing) newSite = some sixVerified := by decide +kernel
  have hfail : sixVerified.NoSuccess "ip:unknown" := by
    rw [noSuccess_iff]
    decide +kernel
  have hbound := h refusing "ip:unknown" newSite sixVerified sixAttempts rfl rfl
    ((run_iff_foldlM fun _ _ _ => Iff.rfl).mpr hrun) hfail 0
  exact absurd hbound (by decide +kernel)

end WhaleIntelligence.Auth
