import WhaleIntelligence.Helius.Pool

/- The circuit breaker of a provider key.

   The outcomes of a key are handled one after another, the sections of each without
   another one between them (`settle`). A failure that reaches the threshold opens the
   breaker for sixty seconds and counts from zero again, so the count is that of the
   failures since the last opening (`outcomes_spread`). Of as many failures in a row as
   the threshold says, one opens the breaker: the last of them, if nothing was counted
   before (`breaker_opens`). -/
namespace WhaleIntelligence.Helius
open WhaleIntelligence

/-- How many sections a section leads to at most, with itself. -/
def Section.weight : Section → Nat
  | .addFailure _ => 4
  | .openAfter _ | .coolAfter _ => 2
  | .storeFailures | .clearOpen | .setOpen _ | .setCooldown _ => 1

/-- All that is left to do to the key, at one time. -/
def settle (now : Instant) (p : ProviderKey) : List Section → ProviderKey
  | [] => p
  | sec :: sections => settle now (sec.run now p).1 ((sec.run now p).2 ++ sections)
termination_by sections => (sections.map Section.weight).sum
decreasing_by
  cases sec with
  | addFailure threshold =>
    simp only [Section.run]
    split
    · simp only [List.cons_append, List.nil_append, List.map_cons, List.sum_cons, Section.weight]
      omega
    · simp [Section.weight]
  | storeFailures | clearOpen | openAfter | setOpen | coolAfter | setCooldown => simp [Section.run, Section.weight]

/-- The key after the response. -/
def outcome (c : HeliusConfig) (p : ProviderKey) (o : Instant × Response) : ProviderKey :=
  settle o.1 p (handled c o.2).1

def outcomes (c : HeliusConfig) (p : ProviderKey) (os : List (Instant × Response)) : ProviderKey :=
  os.foldl (outcome c) p

/-- The breaker is open at the time. -/
def ProviderKey.breakerOpen (p : ProviderKey) (now : Instant) : Bool := (p.openUntil.filter (now < ·)).isSome

def ProviderKey.isAvailable (p : ProviderKey) (now : Instant) : Bool :=
  !(p.cooldownUntil.filter (now < ·)).isSome && !p.breakerOpen now

/-- The request fails in the network or in the server. -/
def Response.retryFailure : Response → Bool
  | .failed => true
  | .received status retryAfter _ =>
    HttpOutcome.fromStatus status retryAfter = .serverError || HttpOutcome.fromStatus status retryAfter = .networkError

section
variable {c : HeliusConfig} {p : ProviderKey} {o : Instant × Response} {os : List (Instant × Response)} {now : Instant}
  {r : Response}

theorem handled_retryFailure (h : r.retryFailure = true) : (handled c r).1 = recordFailure c.maxRetries.toNat := by
  cases r with
  | failed => rfl
  | received status retryAfter payload =>
    simp only [Response.retryFailure, Bool.or_eq_true, decide_eq_true_eq] at h
    obtain h | h := h
    · simp only [handled, h]
    · simp only [handled, h]

/-- A failure that reaches the threshold opens the breaker, another one is counted. -/
theorem settle_recordFailure (now : Instant) (p : ProviderKey) (threshold : Nat) :
    settle now p (recordFailure threshold) =
      if threshold ≤ p.consecutiveFailures + 1 then { p with consecutiveFailures := 0, openUntil := some (now + 60) }
      else { p with consecutiveFailures := p.consecutiveFailures + 1 } := by
  rw [recordFailure, settle]
  simp only [Section.run]
  split
  · simp [settle, Section.run]
  · simp [settle]

theorem outcome_retryFailure (h : o.2.retryFailure = true) : outcome c p o =
    if c.maxRetries.toNat ≤ p.consecutiveFailures + 1 then
      { p with consecutiveFailures := 0, openUntil := some (o.1 + 60) }
    else { p with consecutiveFailures := p.consecutiveFailures + 1 } := by
  rw [outcome, handled_retryFailure h, settle_recordFailure]

/-- Failures that stay below the threshold are counted. -/
theorem outcomes_counted (p : ProviderKey) (os : List (Instant × Response)) (hfail : ∀ o ∈ os, o.2.retryFailure = true)
    (hbelow : p.consecutiveFailures + os.length < c.maxRetries.toNat) :
    outcomes c p os = { p with consecutiveFailures := p.consecutiveFailures + os.length } := by
  induction os generalizing p with
  | nil => rfl
  | cons o os ih =>
    rw [List.forall_mem_cons] at hfail
    rw [List.length_cons] at hbelow ⊢
    have hfirst : outcome c p o = { p with consecutiveFailures := p.consecutiveFailures + 1 } := by
      rw [outcome_retryFailure hfail.1, if_neg (by omega)]
    rw [outcomes, List.foldl_cons, hfirst, ← outcomes, ih _ hfail.2 (by show p.consecutiveFailures + 1 + _ < _; omega)]
    simp only [Nat.add_assoc, Nat.add_comm 1]

/-- The failure that reaches the threshold opens the breaker, and those behind it are counted from zero. -/
theorem outcomes_spread (hfail : ∀ o ∈ os, o.2.retryFailure = true) (hlen : os.length = c.maxRetries.toNat)
    (hpos : 1 ≤ c.maxRetries.toNat) : ∃ pre o post, os = pre ++ o :: post ∧
      post.length = min p.consecutiveFailures (c.maxRetries.toNat - 1) ∧
      ∀ seen, seen <+: post → outcomes c p (pre ++ o :: seen) =
        { p with consecutiveFailures := seen.length, openUntil := some (o.1 + 60) } := by
  obtain ⟨n, hn⟩ : ∃ n, n = c.maxRetries.toNat - 1 - min p.consecutiveFailures (c.maxRetries.toNat - 1) := ⟨_, rfl⟩
  have hlt : n < os.length := by omega
  refine ⟨os.take n, os[n], os.drop (n + 1), ?_, ?_, fun seen hseen => ?_⟩
  · rw [List.getElem_cons_drop, List.take_append_drop]
  · rw [List.length_drop]
    omega
  · have hbefore : outcomes c p (os.take n) = { p with consecutiveFailures := p.consecutiveFailures + n } := by
      by_cases hzero : n = 0
      · rw [hzero, List.take_zero]
        rfl
      · have hcounted := outcomes_counted (c := c) p (os.take n)
          (fun o ho => hfail o (List.mem_of_mem_take ho)) (by rw [List.length_take]; omega)
        rw [hcounted, List.length_take, Nat.min_eq_left hlt.le]
    have hopen : outcome c (outcomes c p (os.take n)) os[n] =
        { p with consecutiveFailures := 0, openUntil := some (os[n].1 + 60) } := by
      have hreach : c.maxRetries.toNat ≤ p.consecutiveFailures + n + 1 := by omega
      rw [outcome_retryFailure (hfail _ (List.getElem_mem hlt)), hbefore]
      exact if_pos hreach
    have hfew := hseen.length_le
    rw [List.length_drop] at hfew
    have hbehind := outcomes_counted (c := c) (outcome c (outcomes c p (os.take n)) os[n]) seen
      (fun o ho => hfail o (List.mem_of_mem_drop (hseen.subset ho))) (by rw [hopen]; dsimp only; omega)
    calc outcomes c p (os.take n ++ os[n] :: seen)
        = outcomes c (outcome c (outcomes c p (os.take n)) os[n]) seen := List.foldl_append ..
      _ = _ := by
        rw [hbehind, hopen]
        simp only [Nat.zero_add]

theorem not_available {until_ : Instant} (h : p.openUntil = some until_) (hlt : now < until_) :
    p.breakerOpen now = true ∧ p.isAvailable now = false := by
  have hopen : p.breakerOpen now = true := by simp [ProviderKey.breakerOpen, h, hlt]
  exact ⟨hopen, by rw [ProviderKey.isAvailable, hopen, Bool.not_true, Bool.and_false]⟩

end

/-- Of as many failures in a row as the threshold says, one opens the breaker for the sixty seconds behind it, whatever
    comes of the others: the last of them, if no failure was counted before. -/
theorem breaker_opens (c : HeliusConfig) (p : ProviderKey) (os : List (Instant × Response))
    (hpos : 1 ≤ c.maxRetries.toNat) (hlen : os.length = c.maxRetries.toNat)
    (hfail : ∀ o ∈ os, o.2.retryFailure = true) :
    ∃ pre o post, os = pre ++ o :: post ∧ (p.consecutiveFailures = 0 → post = []) ∧
      ∀ seen, seen <+: post → ∀ now, now < o.1 + 60 →
        (outcomes c p (pre ++ o :: seen)).breakerOpen now = true ∧
          (outcomes c p (pre ++ o :: seen)).isAvailable now = false := by
  obtain ⟨pre, o, post, hos, hpost, hstates⟩ := outcomes_spread (p := p) hfail hlen hpos
  refine ⟨pre, o, post, hos, fun hzero => ?_, fun seen hseen now hlt => ?_⟩
  · rw [hzero, Nat.zero_min] at hpost
    exact List.length_eq_zero_iff.mp hpost
  · apply not_available ?_ hlt
    rw [hstates seen hseen]

/-- A threshold of three. -/
def threeRetries : HeliusConfig := ⟨10, 2, 2, 3⟩

/-- Three failures of a new key. -/
theorem three_failures_open : ∃ pre o post,
    [((0 : Instant), Response.failed), (1, .failed), (2, .failed)] = pre ++ o :: post ∧
      ((ProviderKey.new threeRetries 0 "key").consecutiveFailures = 0 → post = []) ∧
      ∀ seen, seen <+: post → ∀ now, now < o.1 + 60 →
        (outcomes threeRetries (.new threeRetries 0 "key") (pre ++ o :: seen)).breakerOpen now = true ∧
          (outcomes threeRetries (.new threeRetries 0 "key") (pre ++ o :: seen)).isAvailable now = false :=
  breaker_opens threeRetries (.new threeRetries 0 "key") _ (by decide) rfl (by decide)

/-- The third of three failures opens the breaker. Where the key is available again a fourth one fails too, and the
    breaker is not open right behind it: it counts from the opening. -/
theorem fourth_failure_closed :
    (outcomes threeRetries (.new threeRetries 0 "key") [(0, .failed), (1, .failed), (2, .failed)]).isAvailable 62 =
        true ∧
      (∀ o ∈ [((1 : Instant), Response.failed), (2, .failed), (62, .failed)], o.2.retryFailure = true) ∧
      (outcomes threeRetries (.new threeRetries 0 "key")
        [(0, .failed), (1, .failed), (2, .failed), (62, .failed)]).breakerOpen 62 = false := by
  decide +kernel

end WhaleIntelligence.Helius
