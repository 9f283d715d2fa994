import Mathlib.Algebra.Order.Ring.Int
import Mathlib.Data.List.Induction
import Mathlib.Data.Option.Basic

/- `sf::source_health_runtime`: the health of a source.

   A signal that is on time makes a source that was silent, degraded or down recover, and
   is taken for a steady stream in every other state: in `disabled` too, which the signal
   before it brought about. Apart from that, and from a success so far in the future that
   the difference wraps, `up` is two good signals in a row (`steady_iff`). -/
namespace WhaleIntelligence.Sources

inductive SourceHealthState
  | up | silent | degraded | down | recovering | disabled
  deriving DecidableEq, Repr

/-- Higher is preferred. -/
def SourceHealthState.healthRank : SourceHealthState → Nat
  | .up => 4
  | .recovering => 3
  | .degraded => 2
  | .silent => 1
  | .down => 0
  | .disabled => 0

structure ProviderHealth where
  state : SourceHealthState
  lastRequestAt : Option String
  lastEventAt : Option String
  lastSuccessAt : Option String
  expectedCadence : Option String
  parserSuccessRate : Option Rat
  schemaStale : Bool
  consecutiveFailures : UInt32
  deriving DecidableEq, Repr

def ProviderHealth.default : ProviderHealth := ⟨.silent, none, none, none, none, none, false, 0⟩

structure HealthSignal where
  lastSuccessSecs : Option Int64
  lastRequestSecs : Option Int64
  expectedCadenceSecs : Option Int64
  parserSuccessRate : Option Rat
  schemaStale : Bool
  consecutiveFailures : UInt32
  disabled : Bool
  nowSecs : Int64
  deriving DecidableEq, Repr

/-- `a - b`: in a build that checks an overflow is a panic, `none` here, and otherwise it wraps. -/
def minus (checks : Bool) (a b : Int64) : Option Int64 :=
  if checks && (a - b).toInt ≠ a.toInt - b.toInt then none else some (a - b)

def cadenceOk (checks : Bool) (signal : HealthSignal) (success : Int64) : Option Bool :=
  match signal.expectedCadenceSecs with
  | some c => (minus checks signal.nowSecs success).map fun delta => decide (0 ≤ delta) && decide (delta ≤ c)
  | none => some false

def transition (checks : Bool) (current : ProviderHealth) (signal : HealthSignal) : Option SourceHealthState :=
  if signal.disabled then some .disabled
  else if 3 ≤ signal.consecutiveFailures then some .down
  else
    match signal.lastSuccessSecs with
    | some success => do
      let ok ← cadenceOk checks signal success
      if ok && !signal.schemaStale then
        match current.state with
        | .degraded | .down | .silent => return .recovering
        | _ => return .up
      else if signal.schemaStale then return .degraded
      else return .silent
    | none => if signal.schemaStale then some .degraded else some .silent

def apply (checks : Bool) (health : ProviderHealth) (signal : HealthSignal) : Option ProviderHealth := do
  let health := { health with
    lastSuccessAt := (signal.lastSuccessSecs.map fun s => toString s.toInt).or health.lastSuccessAt
    consecutiveFailures := signal.consecutiveFailures
    lastRequestAt := (signal.lastRequestSecs.map fun r => toString r.toInt).or health.lastRequestAt
    parserSuccessRate := signal.parserSuccessRate.or health.parserSuccessRate
    schemaStale := signal.schemaStale }
  let next ← transition checks health signal
  return { health with state := next }

/-- The default provider after the signals. -/
def applied (checks : Bool) (signals : List HealthSignal) : Option ProviderHealth :=
  signals.foldlM (apply checks) .default

/-! ## Good signals -/

/-- The success is neither missing nor in the future nor late. -/
def HealthSignal.OnTime (s : HealthSignal) : Prop :=
  ∃ success ∈ s.lastSuccessSecs, ∃ c ∈ s.expectedCadenceSecs,
    0 ≤ s.nowSecs.toInt - success.toInt ∧ s.nowSecs.toInt - success.toInt ≤ c.toInt

/-- Nothing but the time of its success speaks against the signal. -/
def HealthSignal.Clean (s : HealthSignal) : Prop :=
  s.disabled = false ∧ s.consecutiveFailures < 3 ∧ s.schemaStale = false

def HealthSignal.Good (s : HealthSignal) : Prop := s.Clean ∧ s.OnTime

/-- The success is so far in the future that the difference wraps into the cadence. -/
def HealthSignal.Wraps (s : HealthSignal) : Prop :=
  ∃ success ∈ s.lastSuccessSecs, ∃ c ∈ s.expectedCadenceSecs,
    s.nowSecs.toInt - success.toInt < -2 ^ 63 ∧ s.nowSecs.toInt - success.toInt + 2 ^ 64 ≤ c.toInt

/-- What a source that is up is meant to be, after each of the signals. -/
def Steady (checks : Bool) (signals : List HealthSignal) : Prop :=
  ∀ seen last rest, signals = seen ++ last :: rest → ∀ h, applied checks (seen ++ [last]) = some h →
    (h.state = .up → (∃ prev ∈ seen.getLast?, prev.Good) ∧ last.Good) ∧
    (3 ≤ last.consecutiveFailures ∨ ¬last.OnTime → h.state ≠ .up ∧ h.state ≠ .recovering) ∧
    (last.disabled = true → h.state = .disabled)

/-- No signal that is reached wraps, and none that is good comes next to one that is disabled. -/
def Separate (checks : Bool) (signals : List HealthSignal) : Prop :=
  ∀ seen last rest, signals = seen ++ last :: rest → (applied checks seen).isSome →
    (checks = false → last.Clean → ¬last.Wraps) ∧ ∀ prev ∈ seen.getLast?, prev.disabled = true → ¬last.Good

section
variable {checks : Bool} {a b c : Int64} {s last : HealthSignal} {h h' : ProviderHealth}
  {seen signals : List HealthSignal}
  {success : Int64}

/-- A difference is exact, or wraps once. -/
theorem toInt_sub_cases (a b : Int64) :
    (-2 ^ 63 ≤ a.toInt - b.toInt ∧ (a - b).toInt = a.toInt - b.toInt) ∨
      (-2 ^ 64 < a.toInt - b.toInt ∧ a.toInt - b.toInt < -2 ^ 63 ∧ (a - b).toInt = a.toInt - b.toInt + 2 ^ 64) ∨
      2 ^ 63 ≤ a.toInt - b.toInt ∧ (a - b).toInt < 0 := by
  have ha := a.toInt_lt
  have ha' := a.le_toInt
  have hb := b.toInt_lt
  have hb' := b.le_toInt
  rw [Int64.toInt_sub, Int.bmod_def]
  omega

theorem minus_within (checks : Bool) (a b c : Int64) :
    (minus checks a b).map (fun delta => decide (0 ≤ delta) && decide (delta ≤ c)) = some true ↔
      (0 ≤ a.toInt - b.toInt ∧ a.toInt - b.toInt ≤ c.toInt) ∨
        checks = false ∧ a.toInt - b.toInt < -2 ^ 63 ∧ a.toInt - b.toInt + 2 ^ 64 ≤ c.toInt := by
  have hcases := toInt_sub_cases a b
  have hc := c.toInt_lt
  have hiff : (decide (0 ≤ a - b) && decide (a - b ≤ c)) = true ↔ 0 ≤ (a - b).toInt ∧ (a - b).toInt ≤ c.toInt := by
    rw [Bool.and_eq_true, decide_eq_true_eq, decide_eq_true_eq, Int64.le_iff_toInt_le, Int64.le_iff_toInt_le]
    exact Iff.rfl
  have hsome : Option.map (fun delta => decide (0 ≤ delta) && decide (delta ≤ c)) (some (a - b)) = some true ↔
      0 ≤ (a - b).toInt ∧ (a - b).toInt ≤ c.toInt := by
    rw [Option.map_some, Option.some.injEq, hiff]
  unfold minus
  cases checks with
  | true =>
    simp only [Bool.true_and, decide_eq_true_eq, reduceCtorEq, false_and, or_false]
    by_cases hexact : (a - b).toInt = a.toInt - b.toInt
    · rw [if_neg (not_not_intro hexact), hsome, hexact]
    · rw [if_pos hexact]
      simp only [Option.map_none, reduceCtorEq, false_iff]
      omega
  | false =>
    rw [Bool.false_and, if_neg Bool.false_ne_true, hsome]
    simp only [true_and]
    omega

/-- The cadence is kept by a success on time, and by one that wraps into it where that is not checked. -/
theorem cadenceOk_iff (hsuccess : s.lastSuccessSecs = some success) :
    cadenceOk checks s success = some true ↔ s.OnTime ∨ checks = false ∧ s.Wraps := by
  unfold cadenceOk HealthSignal.OnTime HealthSignal.Wraps
  rw [hsuccess]
  cases s.expectedCadenceSecs with
  | none => simp
  | some c =>
    simp only [minus_within, Option.mem_def, Option.some.injEq, exists_eq_left']

/-- The signal is taken for one on time. -/
def HealthSignal.Passes (checks : Bool) (s : HealthSignal) : Prop :=
  s.Clean ∧ (s.OnTime ∨ checks = false ∧ s.Wraps)

/-- Where a signal that is taken for one on time leads to. -/
def SourceHealthState.improved : SourceHealthState → SourceHealthState
  | .degraded | .down | .silent => .recovering
  | .up | .recovering | .disabled => .up

theorem transition_passes (hs : s.Passes checks) : transition checks h s = some h.state.improved := by
  obtain ⟨⟨hdisabled, hfailures, hstale⟩, htime⟩ := hs
  have hfew : ¬3 ≤ s.consecutiveFailures := UInt32.not_le.mpr hfailures
  unfold transition
  rw [hdisabled, if_neg Bool.false_ne_true, if_neg hfew, hstale]
  cases hsuccess : s.lastSuccessSecs with
  | none =>
    obtain ⟨success, hs, -⟩ | ⟨-, success, hs, -⟩ := htime
    · rw [hsuccess] at hs
      cases hs
    · rw [hsuccess] at hs
      cases hs
  | some success =>
    dsimp only
    rw [(cadenceOk_iff hsuccess).mpr htime]
    cases h.state <;> rfl

/-- What a signal leads to that is not taken for one on time. -/
theorem transition_other (hs : ¬s.Passes checks) {next : SourceHealthState} (ht : transition checks h s = some next) :
    next ≠ .up ∧ next ≠ .recovering ∧ (s.disabled = true → next = .disabled) ∧
      (next = .disabled → s.disabled = true) := by
  unfold transition at ht
  split at ht
  · rename_i hdisabled
    obtain rfl := Option.some.inj ht
    simp [hdisabled]
  · rename_i hdisabled
    split at ht
    · obtain rfl := Option.some.inj ht
      simp [hdisabled]
    · rename_i hfailures
      split at ht
      · rename_i success hsuccess
        obtain ⟨ok, hok, ht⟩ := Option.bind_eq_some_iff.mp ht
        split at ht
        · -- such a signal is taken for one on time
          rename_i hgood
          rw [Bool.and_eq_true, Bool.not_eq_true'] at hgood
          rw [hgood.1] at hok
          have hclean : s.Clean := ⟨Bool.not_eq_true _ ▸ hdisabled, UInt32.not_le.mp hfailures, hgood.2⟩
          exact absurd ⟨hclean, (cadenceOk_iff hsuccess).mp hok⟩ hs
        · split at ht
          · obtain rfl := Option.some.inj ht
            simp [hdisabled]
          · obtain rfl := Option.some.inj ht
            simp [hdisabled]
      · split at ht
        · obtain rfl := Option.some.inj ht
          simp [hdisabled]
        · obtain rfl := Option.some.inj ht
          simp [hdisabled]

/-! ## Runs -/

/-- The state that a signal brings about. -/
theorem apply_state (happly : apply checks h s = some h') :
    (s.Passes checks ∧ h'.state = h.state.improved) ∨
      ¬s.Passes checks ∧ h'.state ≠ .up ∧ h'.state ≠ .recovering ∧ (s.disabled = true ↔ h'.state = .disabled) := by
  obtain ⟨next, hnext, hreturn⟩ := Option.bind_eq_some_iff.mp happly
  obtain rfl := Option.some.inj hreturn
  by_cases hs : s.Passes checks
  · rw [transition_passes hs] at hnext
    exact .inl ⟨hs, (Option.some.inj hnext).symm⟩
  · obtain ⟨hup, hrecovering, hdisabled, hdisabled'⟩ := transition_other hs hnext
    exact .inr ⟨hs, hup, hrecovering, hdisabled, hdisabled'⟩

theorem apply_passes (h : ProviderHealth) (hs : s.Passes checks) : ∃ h', apply checks h s = some h' := by
  unfold apply
  simp only [transition_passes hs]
  exact ⟨_, rfl⟩

theorem applied_append : applied checks (seen ++ [last]) = (applied checks seen).bind fun h => apply checks h last := by
  rw [applied, List.foldlM_append]
  cases hseen : List.foldlM (apply checks) ProviderHealth.default seen with
  | none => simp [applied, hseen]
  | some h => simp [applied, hseen]

/-- What the state of a run says about its last signal. -/
theorem applied_state (happlied : applied checks seen = some h) :
    (h.state = .up ∨ h.state = .recovering → ∃ prev ∈ seen.getLast?, prev.Passes checks) ∧
      (h.state = .disabled ↔ ∃ prev ∈ seen.getLast?, prev.disabled = true) := by
  induction seen using List.reverseRecOn with
  | nil =>
    obtain rfl := Option.some.inj happlied
    simp [ProviderHealth.default]
  | append_singleton seen last ih =>
    rw [applied_append] at happlied
    obtain ⟨before, -, happly⟩ := Option.bind_eq_some_iff.mp happlied
    simp only [List.getLast?_concat, Option.mem_def, Option.some.injEq, exists_eq_left']
    obtain ⟨hs, hstate⟩ | ⟨hs, hup, hrecovering, hdisabled⟩ := apply_state happly
    · have hclean := hs.1.1
      refine ⟨fun _ => hs, ?_⟩
      rw [hstate, hclean]
      cases before.state <;> simp [SourceHealthState.improved]
    · exact ⟨fun h => absurd h (by simp [hup, hrecovering]), hdisabled.symm⟩

theorem passes_good (hs : s.Good) : s.Passes checks := ⟨hs.1, .inl hs.2⟩

theorem separate_of_steady (hsteady : Steady checks signals) : Separate checks signals := by
  intro seen last rest hsignals hreached
  obtain ⟨before, hbefore⟩ := Option.isSome_iff_exists.mp hreached
  -- a signal that passes is applied
  have hstate : last.Passes checks →
      ∃ h, applied checks (seen ++ [last]) = some h ∧ h.state = before.state.improved := by
    intro hpasses
    obtain ⟨h, happly⟩ := apply_passes before hpasses
    refine ⟨h, by rw [applied_append, hbefore]; exact happly, ?_⟩
    obtain ⟨-, hstate⟩ | ⟨hno, -⟩ := apply_state happly
    · exact hstate
    · exact absurd hpasses hno
  refine ⟨fun hchecks hclean hwraps => ?_, fun prev hprev hdisabled hgood => ?_⟩
  · obtain ⟨h, happlied, hstate⟩ := hstate ⟨hclean, .inr ⟨hchecks, hwraps⟩⟩
    have hlate : ¬last.OnTime := by
      rintro ⟨success, hsuccess, c, -, hge, -⟩
      obtain ⟨success', hsuccess', c', -, hlt, -⟩ := hwraps
      obtain rfl := Option.some.inj (hsuccess.symm.trans hsuccess')
      omega
    obtain ⟨hup, hrecovering⟩ := (hsteady seen last rest hsignals h happlied).2.1 (.inr hlate)
    rw [hstate] at hup hrecovering
    cases hb : before.state <;> rw [hb] at hup hrecovering <;> simp [SourceHealthState.improved] at hup hrecovering
  · obtain ⟨h, happlied, hstate⟩ := hstate (passes_good hgood)
    have hbefore' : before.state = .disabled := (applied_state hbefore).2.mpr ⟨prev, hprev, hdisabled⟩
    rw [hbefore'] at hstate
    obtain ⟨⟨prev', hprev', hgood'⟩, -⟩ := (hsteady seen last rest hsignals h happlied).1 hstate
    obtain rfl := Option.some.inj (hprev.symm.trans hprev')
    rw [hgood'.1.1] at hdisabled
    cases hdisabled

theorem steady_of_separate (hseparate : Separate checks signals) : Steady checks signals := by
  intro seen last rest hsignals h happlied
  -- what passes is good, at every signal that is reached
  have hpasses : ∀ seen last rest, signals = seen ++ last :: rest → (applied checks seen).isSome →
      last.Passes checks → last.Good := by
    intro seen last rest hsignals hreached hs
    obtain ⟨hclean, htime | ⟨hchecks, hwraps⟩⟩ := hs
    · exact ⟨hclean, htime⟩
    · exact absurd hwraps ((hseparate seen last rest hsignals hreached).1 hchecks hclean)
  rw [applied_append] at happlied
  obtain ⟨before, hbefore, happly⟩ := Option.bind_eq_some_iff.mp happlied
  have hreached : (applied checks seen).isSome := by rw [hbefore]; rfl
  obtain ⟨hs, hstate⟩ | ⟨-, hup, hrecovering, hdisabled⟩ := apply_state happly
  · have hgood := hpasses seen last rest hsignals hreached hs
    obtain ⟨hup', hdisabled'⟩ := applied_state hbefore
    refine ⟨fun hup => ⟨?_, hgood⟩, fun hlate => ?_, fun hdisabled => ?_⟩
    · have hbefore' : before.state = .up ∨ before.state = .recovering := by
        rw [hstate] at hup
        cases hb : before.state with
        | up => exact .inl rfl
        | recovering => exact .inr rfl
        | disabled =>
          obtain ⟨prev, hprev, hdisabled⟩ := hdisabled'.mp hb
          exact absurd hgood ((hseparate seen last rest hsignals hreached).2 prev hprev hdisabled)
        | degraded | down | silent =>
          rw [hb] at hup
          cases hup
      obtain ⟨prev, hprev, hpassed⟩ := hup' hbefore'
      obtain ⟨earlier, rfl⟩ := List.getLast?_eq_some_iff.mp hprev
      have hearlier : (applied checks earlier).isSome := by
        rw [applied_append] at hbefore
        obtain ⟨_, h, -⟩ := Option.bind_eq_some_iff.mp hbefore
        rw [h]
        rfl
      exact ⟨prev, hprev,
        hpasses earlier prev (last :: rest) (by rw [hsignals, List.append_assoc]; rfl) hearlier hpassed⟩
    · obtain hmany | hlate := hlate
      · exact absurd hs.1.2.1 (UInt32.not_lt.mpr hmany)
      · exact absurd hgood.2 hlate
    · rw [hs.1.1] at hdisabled
      cases hdisabled
  · exact ⟨fun h => absurd h hup, fun _ => ⟨hup, hrecovering⟩, hdisabled.mp⟩

end

/-- A source is what it is meant to be after every signal exactly where no signal wraps, and none that is good comes
next to one that is disabled. -/
theorem steady_iff (checks : Bool) (signals : List HealthSignal) : Steady checks signals ↔ Separate checks signals :=
  ⟨separate_of_steady, steady_of_separate⟩

def goodSignal : HealthSignal where
  lastSuccessSecs := some 1000
  lastRequestSecs := some 1000
  expectedCadenceSecs := some 60
  parserSuccessRate := some 1
  schemaStale := false
  consecutiveFailures := 0
  disabled := false
  nowSecs := 1000

/-- A source that is enabled again is up at its first good signal. -/
theorem enabled_up_at_once : ¬Steady true [{ goodSignal with disabled := true }, goodSignal] := by
  intro hsteady
  have hup : applied true [{ goodSignal with disabled := true }, goodSignal] =
      some ⟨.up, some "1000", none, some "1000", none, some 1, false, 0⟩ := by decide +kernel
  obtain ⟨⟨prev, hprev, hgood⟩, -⟩ := (hsteady [{ goodSignal with disabled := true }] goodSignal [] rfl _ hup).1 rfl
  obtain rfl := Option.some.inj hprev
  cases hgood.1.1

/-- A success so far in the future that the difference wraps into the cadence. -/
example : (applied false
    [{ goodSignal with nowSecs := Int64.minValue, expectedCadenceSecs := some Int64.maxValue }]).map
    ProviderHealth.state = some .recovering := by
  decide +kernel

end WhaleIntelligence.Sources
