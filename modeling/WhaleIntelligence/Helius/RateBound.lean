import WhaleIntelligence.Helius.Pool
import WhaleIntelligence.Lib.Bucket
import WhaleIntelligence.Lib.Parties
import WhaleIntelligence.Lib.Runs

/- How many requests are sent with a provider key.

   A bucket hands out no more tokens than its rate allows. A caller that is told to wait
   sends without a token, and one that has a token may send it late: where neither happens,
   the requests of a window are tokens of the window (`requests_le`). -/
namespace WhaleIntelligence.Helius
open WhaleIntelligence Parties Runs Relation

/-- The times of a provider and a class. -/
def times (provider : Nat) (apiClass : ApiClass) (stamps : List Stamp) : List Instant :=
  (stamps.filter fun st => st.provider == provider && st.apiClass == apiClass).map (·.time)

/-- How many requests were sent with the provider key for the class from `a` to `b`. -/
def HeliusPool.requests (s : HeliusPool) (provider : Nat) (apiClass : ApiClass) (a b : Instant) : Nat :=
  Bucket.within a b (times provider apiClass s.sent)

/-- A request is sent with a token that was taken at the same time. -/
def prompt (s : HeliusPool) : Action → Bool
  | .step i =>
    match s.callers[i]? with
    | some ⟨_, _, .send _ token⟩ => token == some s.clock
    | _ => true
  | _ => true

/-- The caller has a token of the provider, from a time that satisfies the predicate. -/
def Pc.holds (provider : Nat) (q : Instant → Bool) : Pc → Bool
  | .recordUsage p (some t) | .send p (some t) => p == provider && q t
  | _ => false

def Caller.holds (provider : Nat) (apiClass : ApiClass) (q : Instant → Bool) (caller : Caller) : Bool :=
  caller.apiClass == apiClass && caller.pc.holds provider q

def HeliusPool.bucket (s : HeliusPool) (provider : Nat) (apiClass : ApiClass) : Option TokenBucket :=
  s.providers[provider]?.map (·.buckets apiClass)

/-- What the library sees of a bucket. -/
def HeliusPool.view (s : HeliusPool) (provider : Nat) (apiClass : ApiClass) (b : TokenBucket) : Bucket.State ℚ :=
  ⟨s.clock, b.tokens, b.lastRefill, times provider apiClass s.taken⟩

section
variable {c : HeliusConfig} {s t : HeliusPool} {a : Action} {i n provider : Nat} {apiClass : ApiClass} {caller : Caller}
  {scan : Scan} {now : Instant} {q : Instant → Bool} {actions : List Action}

theorem times_append (stamps : List Stamp) (st : Stamp) : times provider apiClass (stamps ++ [st]) =
    times provider apiClass stamps ++ if st.provider = provider ∧ st.apiClass = apiClass then [st.time] else [] := by
  by_cases h : st.provider = provider ∧ st.apiClass = apiClass
  · simp [times, h]
  · simp only [times, List.filter_append, List.map_append, if_neg h]
    simp_all

/-! ## What a step does -/

theorem holds_skip (scan : Scan) : (scan.skip n).holds provider q = false := by
  cases scan with
  | fair start offset bestWait =>
    unfold Scan.skip
    dsimp only
    split
    · rfl
    · cases bestWait <;> rfl
  | shortest index best =>
    unfold Scan.skip
    dsimp only
    split <;> rfl

theorem holds_tried_some (scan : Scan) (wait : ℚ) : (scan.tried n now (some wait)).holds provider q = false := by
  cases scan with
  | fair start offset bestWait =>
    unfold Scan.tried
    cases bestWait with
    | none => exact holds_skip _
    | some best => dsimp only; split <;> exact holds_skip _
  | shortest index best =>
    unfold Scan.tried
    cases best with
    | none => exact holds_skip _
    | some best => dsimp only; split <;> exact holds_skip _

theorem holds_compared (check : Check) (until_ : Option Instant) (scan : Scan) :
    (compared n now check until_ scan).holds provider q = false := by
  unfold compared
  split <;> first | exact holds_skip scan | exact holds_tried_some scan _ | rfl

/-- The step of a caller leaves the buckets and the tokens as they are. -/
structure Quiet (s : HeliusPool) (i : Nat) (caller : Caller) (t : HeliusPool) : Prop where
  clock : t.clock = s.clock
  buckets : t.providers.map (·.buckets) = s.providers.map (·.buckets)
  taken : t.taken = s.taken
  sent : t.sent = s.sent
  callers : ∃ new, t.callers = s.callers.set i new ∧
    ∀ provider apiClass q, new.holds provider apiClass q = caller.holds provider apiClass q

theorem quiet_goto {pc : Pc} (hpc : ∀ provider q, pc.holds provider q = caller.pc.holds provider q) :
    Quiet s i caller (s.goto i caller pc) := by
  refine ⟨rfl, rfl, rfl, rfl, _, rfl, fun provider apiClass q => ?_⟩
  rw [Caller.holds, Caller.holds, hpc]

theorem buckets_run (p : ProviderKey) (sec : Section) : (sec.run now p).1.buckets = p.buckets := by
  cases sec <;> rfl

/-- A section changes what the key says, not its buckets. -/
theorem buckets_set_run {p : ProviderKey} (hp : s.providers[provider]? = some p) (sec : Section) :
    (s.providers.set provider (sec.run now p).1).map (·.buckets) = s.providers.map (·.buckets) := by
  obtain ⟨hlt, rfl⟩ := List.getElem?_eq_some_iff.mp hp
  have hlt' : provider < (s.providers.map (·.buckets)).length := by simpa using hlt
  have hget : (s.providers.map (·.buckets))[provider] = s.providers[provider].buckets := List.getElem_map _
  rw [List.map_set, buckets_run, ← hget, List.set_getElem_self]

/-- A step of a caller is quiet, or takes a token, or sends. -/
theorem step_cases (h : s.step c i caller = some t) :
    Quiet s i caller t ∨ (∃ scan, caller.pc = .bucket scan ∧ s.acquire i caller scan = some t) ∨
    ∃ provider token, caller.pc = .send provider token ∧
      t = { s with sent := s.sent ++ [Stamp.mk provider caller.apiClass s.clock] }.goto i caller
        (.response provider) := by
  obtain ⟨apiClass, attempt, pc⟩ := caller
  cases pc with
  | pick =>
    simp only [HeliusPool.step] at h
    split at h
    · obtain rfl := Option.some.inj h
      exact .inl (quiet_goto fun _ _ => rfl)
    · obtain rfl := Option.some.inj h
      exact .inl ⟨rfl, rfl, rfl, rfl, _, rfl, fun _ _ _ => rfl⟩
  | read check scan =>
    obtain ⟨p, -, h⟩ := Option.bind_eq_some_iff.mp h
    obtain rfl := Option.some.inj h
    exact .inl (quiet_goto fun _ _ => rfl)
  | compare check until_ scan =>
    obtain rfl := Option.some.inj h
    exact .inl (quiet_goto fun _ _ => holds_compared check until_ scan)
  | bucket scan => exact .inr (.inl ⟨scan, rfl, h⟩)
  | told provider wait =>
    obtain rfl := Option.some.inj h
    exact .inl (quiet_goto fun _ _ => rfl)
  | sleep provider until_ =>
    simp only [HeliusPool.step] at h
    split at h
    · obtain rfl := Option.some.inj h
      exact .inl (quiet_goto fun _ _ => rfl)
    · cases h
  | recordUsage provider token =>
    obtain rfl := Option.some.inj h
    exact .inl (quiet_goto fun _ _ => by cases token <;> rfl)
  | send provider token => exact .inr (.inr ⟨provider, token, rfl, (Option.some.inj h).symm⟩)
  | response provider => cases h
  | book provider sections retry =>
    cases sections with
    | nil =>
      simp only [HeliusPool.step] at h
      split at h
      · obtain rfl := Option.some.inj h
        exact .inl ⟨rfl, rfl, rfl, rfl, _, rfl, fun _ _ _ => rfl⟩
      · obtain rfl := Option.some.inj h
        exact .inl (quiet_goto fun _ _ => rfl)
    | cons sec sections =>
      obtain ⟨p, hp, h⟩ := Option.bind_eq_some_iff.mp h
      obtain rfl := Option.some.inj h
      exact .inl ⟨rfl, buckets_set_run hp sec, rfl, rfl, _, rfl, fun _ _ _ => rfl⟩
  | done => cases h

/-! ## Tokens -/

/-- A bucket that is not over its capacity and not filled in the future. -/
structure TokenBucket.Sound (b : TokenBucket) (now : Instant) : Prop where
  past : b.lastRefill ≤ now
  le : b.tokens ≤ b.capacity

variable (provider apiClass) in
/-- The bucket of a provider holds what one of the library does. -/
theorem view_refill {b : TokenBucket} (hb : b.Sound s.clock) : s.view provider apiClass (b.refill s.clock) =
    { s.view provider apiClass b with
      tokens := (s.view provider apiClass b).level b.capacity b.capacity
      filled := s.clock } := by
  have helapsed : max 0 (s.clock - b.lastRefill) = s.clock - b.lastRefill := max_eq_right (sub_nonneg.mpr hb.past)
  rw [TokenBucket.refill, helapsed]
  dsimp only
  split
  · rfl
  · rename_i hzero
    have hclock : s.clock = b.lastRefill := by linarith [hb.past]
    refine Bucket.State.ext rfl ?_ hclock.symm rfl
    show b.tokens = min (b.tokens + (s.clock - b.lastRefill) * b.capacity) b.capacity
    rw [hclock, sub_self, zero_mul, add_zero, min_eq_left hb.le]

theorem refill_capacity (b : TokenBucket) (now : Instant) : (b.refill now).capacity = b.capacity := by
  unfold TokenBucket.refill
  dsimp only
  split <;> rfl

theorem tryAcquire_capacity (b : TokenBucket) (now : Instant) : (b.tryAcquire now).2.capacity = b.capacity := by
  unfold TokenBucket.tryAcquire
  dsimp only
  split <;> exact refill_capacity b now

variable (provider apiClass) in
/-- Asking for a token is a step of the bucket. -/
theorem step_tryAcquire {b : TokenBucket} (hb : b.Sound s.clock) : Bucket.Step b.capacity b.capacity
    (s.view provider apiClass b)
    { clock := s.clock
      tokens := (b.tryAcquire s.clock).2.tokens
      filled := (b.tryAcquire s.clock).2.lastRefill
      taken := times provider apiClass s.taken ++ if (b.tryAcquire s.clock).1 = none then [s.clock] else [] } := by
  have hview := view_refill provider apiClass hb
  have htokens : (b.refill s.clock).tokens = (s.view provider apiClass b).level b.capacity b.capacity :=
    congrArg Bucket.State.tokens hview
  have hfilled : (b.refill s.clock).lastRefill = s.clock := congrArg Bucket.State.filled hview
  by_cases hone : 1 ≤ (b.refill s.clock).tokens
  · have htry : b.tryAcquire s.clock = (none, { b.refill s.clock with tokens := (b.refill s.clock).tokens - 1 }) :=
      if_pos hone
    rw [htry, if_pos rfl]
    dsimp only
    rw [hfilled, htokens]
    exact .take _ (htokens ▸ hone)
  · have htry : b.tryAcquire s.clock =
        (some ((1 - (b.refill s.clock).tokens) / max (b.refill s.clock).capacity (1 / 1000)), b.refill s.clock) :=
      if_neg hone
    rw [htry, if_neg (Option.some_ne_none _), List.append_nil]
    dsimp only
    rw [hfilled, htokens]
    exact .fill _

theorem sound_tryAcquire {b : TokenBucket} (hb : b.Sound s.clock) : (b.tryAcquire s.clock).2.Sound s.clock := by
  have hview := view_refill 0 .rpc hb
  have htokens : (b.refill s.clock).tokens = (s.view 0 .rpc b).level b.capacity b.capacity :=
    congrArg Bucket.State.tokens hview
  have hfilled : (b.refill s.clock).lastRefill = s.clock := congrArg Bucket.State.filled hview
  have hle : (b.refill s.clock).tokens ≤ (b.refill s.clock).capacity := by
    rw [htokens, refill_capacity]
    exact min_le_right _ _
  unfold TokenBucket.tryAcquire
  dsimp only
  split
  · exact ⟨hfilled.le, by linarith⟩
  · exact ⟨hfilled.le, hle⟩

theorem acquire_eq (h : s.acquire i caller scan = some t) :
    ∃ p, s.providers[scan.index s.providers.length]? = some p ∧
      t = { s with
        providers := s.providers.set (scan.index s.providers.length) { p with
          buckets := Function.update p.buckets caller.apiClass ((p.buckets caller.apiClass).tryAcquire s.clock).2 }
        taken := s.taken ++ if ((p.buckets caller.apiClass).tryAcquire s.clock).1 = none then
          [Stamp.mk (scan.index s.providers.length) caller.apiClass s.clock] else [] }.goto i caller
        (scan.tried s.providers.length s.clock ((p.buckets caller.apiClass).tryAcquire s.clock).1) := by
  obtain ⟨p, hp, h⟩ := Option.bind_eq_some_iff.mp h
  refine ⟨p, hp, ?_⟩
  generalize (p.buckets caller.apiClass).tryAcquire s.clock = tried at h ⊢
  obtain ⟨wait, b⟩ := tried
  obtain rfl := Option.some.inj h
  by_cases hwait : wait = none
  · simp only [if_pos hwait]
  · simp only [if_neg hwait, List.append_nil]

/-- A provider's bucket, as a state of the library, and what is known of it. -/
def HeliusPool.Reaches (s : HeliusPool) (provider : Nat) (apiClass : ApiClass) (capacity : ℚ)
    (from_ : Bucket.State ℚ) : Prop :=
  ∃ b, s.bucket provider apiClass = some b ∧ b.Sound s.clock ∧ b.capacity = capacity ∧
    ReflTransGen (Bucket.Step capacity capacity) from_ (s.view provider apiClass b)

theorem reaches_quiet {capacity : ℚ} {from_ : Bucket.State ℚ} (h : Quiet s i caller t)
    (hs : s.Reaches provider apiClass capacity from_) : t.Reaches provider apiClass capacity from_ := by
  obtain ⟨b, hb, hsound, hcapacity, hreach⟩ := hs
  have hbucket : t.bucket provider apiClass = s.bucket provider apiClass := by
    have hget := congrArg (fun l => (l[provider]?).map (· apiClass)) h.buckets
    simpa [HeliusPool.bucket, Function.comp_def] using hget
  refine ⟨b, hbucket.trans hb, h.clock ▸ hsound, hcapacity, ?_⟩
  rw [HeliusPool.view, h.clock, h.taken]
  exact hreach

theorem reaches_acquire {capacity : ℚ} {from_ : Bucket.State ℚ} (h : s.acquire i caller scan = some t)
    (hs : s.Reaches provider apiClass capacity from_) : t.Reaches provider apiClass capacity from_ := by
  obtain ⟨b, hb, hsound, rfl, hreach⟩ := hs
  obtain ⟨p, hp, rfl⟩ := acquire_eq h
  have hlt := (List.getElem?_eq_some_iff.mp hp).1
  have htimes (wait : Option ℚ) : times provider apiClass
      (s.taken ++ if wait = none then [Stamp.mk (scan.index s.providers.length) caller.apiClass s.clock] else []) =
        times provider apiClass s.taken ++ if wait = none ∧ scan.index s.providers.length = provider ∧
          caller.apiClass = apiClass then [s.clock] else [] := by
    cases wait with
    | none => simp only [if_true, times_append, true_and]
    | some wait => simp only [reduceCtorEq, if_false, false_and, List.append_nil]
  by_cases hown : scan.index s.providers.length = provider ∧ caller.apiClass = apiClass
  · obtain ⟨hindex, rfl⟩ := hown
    rw [hindex] at hp hlt
    obtain rfl : p.buckets caller.apiClass = b := by
      simpa [HeliusPool.bucket, hp] using hb
    refine ⟨_, ?_, sound_tryAcquire hsound, tryAcquire_capacity _ _, hreach.tail ?_⟩
    · simp [HeliusPool.bucket, HeliusPool.goto, hindex, hlt]
    · have hstep := step_tryAcquire provider caller.apiClass hsound
      simp only [HeliusPool.view, HeliusPool.goto, htimes]
      simp only [hindex, and_true]
      exact hstep
  · -- another bucket
    refine ⟨b, ?_, hsound, rfl, ?_⟩
    · rw [← hb]
      simp only [HeliusPool.bucket, HeliusPool.goto, List.getElem?_set]
      split
      · rename_i hindex
        rw [hindex] at hp hlt
        have hclass : apiClass ≠ caller.apiClass := fun hclass => hown ⟨hindex, hclass.symm⟩
        rw [hp]
        exact congrArg some (Function.update_of_ne hclass _ _)
      · rfl
    · simp only [HeliusPool.view, HeliusPool.goto, htimes, hown, and_false, if_false, List.append_nil]
      exact hreach

theorem reaches_next {capacity : ℚ} {from_ : Bucket.State ℚ} (h : next c s a = some t)
    (hs : s.Reaches provider apiClass capacity from_) : t.Reaches provider apiClass capacity from_ := by
  cases a with
  | call class_ =>
    obtain rfl := Option.some.inj h
    exact hs
  | wait now =>
    rw [next] at h
    split at h
    case isFalse => cases h
    case isTrue hnow =>
    obtain rfl := Option.some.inj h
    obtain ⟨b, hb, hsound, hcapacity, hreach⟩ := hs
    exact ⟨b, hb, ⟨hsound.past.trans hnow, hsound.le⟩, hcapacity, hreach.tail (.wait _ now hnow)⟩
  | step i =>
    obtain ⟨caller, -, h⟩ := Option.bind_eq_some_iff.mp h
    obtain hquiet | ⟨scan, -, hacquire⟩ | ⟨p, token, -, rfl⟩ := step_cases h
    · exact reaches_quiet hquiet hs
    · exact reaches_acquire hacquire hs
    · exact hs
  | respond i r =>
    obtain ⟨caller, -, h⟩ := Option.bind_eq_some_iff.mp h
    split at h
    · obtain rfl := Option.some.inj h
      exact hs
    · cases h

/-! ## Requests -/

/-- What was sent and what is held: no more than what was taken. -/
def HeliusPool.Covered (s : HeliusPool) (provider : Nat) (apiClass : ApiClass) (q : Instant → Bool) : Prop :=
  (times provider apiClass s.sent).countP q + s.callers.countP (Caller.holds provider apiClass q) ≤
    (times provider apiClass s.taken).countP q

theorem covered_quiet (h : Quiet s i caller t) (hcaller : s.callers[i]? = some caller)
    (hs : s.Covered provider apiClass q) : t.Covered provider apiClass q := by
  obtain ⟨new, hcallers, hnew⟩ := h.callers
  rw [HeliusPool.Covered, h.sent, h.taken, hcallers, countP_set_of_eq hcaller (hnew provider apiClass q)]
  exact hs

theorem holds_tried_none (scan : Scan) : (scan.tried n now none).holds provider q = true →
    scan.index n = provider ∧ q now = true := by
  cases scan with
  | fair start offset bestWait => simp [Scan.tried, Pc.holds]
  | shortest index best =>
    intro h
    rw [show Scan.tried n now (.shortest index best) none = Scan.skip n (.shortest index best) by cases best <;> rfl,
      holds_skip] at h
    cases h

theorem covered_acquire (h : s.acquire i caller scan = some t) (hcaller : s.callers[i]? = some caller)
    (hpc : caller.pc = .bucket scan) (hs : s.Covered provider apiClass q) : t.Covered provider apiClass q := by
  obtain ⟨p, -, rfl⟩ := acquire_eq h
  generalize ((p.buckets caller.apiClass).tryAcquire s.clock).1 = wait
  have hset := countP_set hcaller (Caller.holds provider apiClass q)
    { caller with pc := scan.tried s.providers.length s.clock wait }
  have hold : caller.holds provider apiClass q = false := by
    rw [Caller.holds, hpc]
    exact Bool.and_false _
  rw [hold, if_neg Bool.false_ne_true] at hset
  rw [HeliusPool.Covered] at hs
  simp only [HeliusPool.Covered, HeliusPool.goto]
  cases wait with
  | some wait =>
    have hnew : Caller.holds provider apiClass q
        { caller with pc := scan.tried s.providers.length s.clock (some wait) } = false := by
      rw [Caller.holds, holds_tried_some]
      exact Bool.and_false _
    rw [hnew, if_neg Bool.false_ne_true] at hset
    rw [if_neg (Option.some_ne_none _), List.append_nil]
    omega
  | none =>
    rw [if_pos rfl, times_append, List.countP_append]
    split at hset
    · rename_i hnew
      rw [Caller.holds, Bool.and_eq_true, beq_iff_eq] at hnew
      obtain ⟨hindex, hq⟩ := holds_tried_none scan hnew.2
      rw [if_pos ⟨hindex, hnew.1⟩]
      simp only [List.countP_singleton, hq, if_true]
      omega
    · omega

theorem covered_send {p : Nat} {token : Option Instant} (hcaller : s.callers[i]? = some caller)
    (hpc : caller.pc = .send p token) (htoken : token = some s.clock) (hs : s.Covered provider apiClass q) :
    HeliusPool.Covered ({ s with sent := s.sent ++ [Stamp.mk p caller.apiClass s.clock] }.goto i caller (.response p))
      provider apiClass q := by
  have hset := countP_set hcaller (Caller.holds provider apiClass q) { caller with pc := .response p }
  have hnew : Caller.holds provider apiClass q { caller with pc := .response p } = false := Bool.and_false _
  have hold : caller.holds provider apiClass q = (caller.apiClass == apiClass && (p == provider && q s.clock)) := by
    rw [Caller.holds, hpc, htoken, Pc.holds]
  rw [hnew, hold, if_neg Bool.false_ne_true] at hset
  rw [HeliusPool.Covered] at hs
  simp only [HeliusPool.Covered, HeliusPool.goto, times_append, List.countP_append]
  by_cases hown : p = provider ∧ caller.apiClass = apiClass
  · -- the token goes from the caller to the request
    obtain ⟨rfl, rfl⟩ := hown
    simp only [beq_self_eq_true, Bool.true_and] at hset
    rw [if_pos ⟨rfl, rfl⟩, List.countP_singleton]
    omega
  · rw [if_neg hown, List.countP_nil]
    omega

theorem covered_next (h : next c s a = some t) (hprompt : prompt s a = true) (hs : s.Covered provider apiClass q) :
    t.Covered provider apiClass q := by
  cases a with
  | call class_ =>
    obtain rfl := Option.some.inj h
    have hnone : Caller.holds provider apiClass q ⟨class_, 0, .pick⟩ = false := Bool.and_false _
    simpa [HeliusPool.Covered, hnone] using hs
  | wait now =>
    rw [next] at h
    split at h
    · obtain rfl := Option.some.inj h
      exact hs
    · cases h
  | step i =>
    obtain ⟨caller, hcaller, h⟩ := Option.bind_eq_some_iff.mp h
    obtain hquiet | ⟨scan, hpc, hacquire⟩ | ⟨p, token, hpc, rfl⟩ := step_cases h
    · exact covered_quiet hquiet hcaller hs
    · exact covered_acquire hacquire hcaller hpc hs
    · have htoken : token = some s.clock := by
        obtain ⟨class_, attempt, pc⟩ := caller
        obtain rfl : pc = .send p token := hpc
        simpa [prompt, hcaller] using hprompt
      exact covered_send hcaller hpc htoken hs
  | respond i r =>
    obtain ⟨caller, hcaller, h⟩ := Option.bind_eq_some_iff.mp h
    split at h
    · rename_i p hpc
      obtain rfl := Option.some.inj h
      exact covered_quiet (quiet_goto fun _ _ => by rw [hpc]; rfl) hcaller hs
    · cases h

/-- In a run whose requests are sent with tokens that were taken at that time, every window
has at most the requests that the rate allows. -/
theorem requests_le (keys : List String) (start : Instant)
    (hrun : Run (fun s a t => next c s a = some t ∧ prompt s a = true) (.new keys c start) actions t)
    (hprovider : provider < keys.length) {a b : Instant} (hab : a ≤ b) :
    (t.requests provider apiClass a b : ℚ) ≤ (c.rate apiClass).toNat + (c.rate apiClass).toNat * (b - a) := by
  have hnew : (HeliusPool.new keys c start).bucket provider apiClass = some (.new (c.rate apiClass) start) := by
    rw [HeliusPool.bucket, HeliusPool.new, List.getElem?_map, List.getElem?_eq_getElem hprovider]
    rfl
  have hreaches : t.Reaches provider apiClass (c.rate apiClass).toNat
      ((HeliusPool.new keys c start).view provider apiClass (.new (c.rate apiClass) start)) :=
    hrun.invariant ⟨_, hnew, ⟨le_rfl, le_rfl⟩, rfl, .refl⟩ fun _ _ _ hs h => reaches_next h.1 hs
  have hstart : (HeliusPool.new keys c start).Covered provider apiClass fun time => a ≤ time && time ≤ b :=
    Nat.zero_le _
  have hcovered : t.Covered provider apiClass fun time => a ≤ time && time ≤ b :=
    hrun.invariant hstart fun _ _ _ hs h => covered_next h.1 h.2 hs
  obtain ⟨bucket, -, -, -, hreach⟩ := hreaches
  have hrate : (0 : ℚ) ≤ (c.rate apiClass).toNat := Nat.cast_nonneg _
  have htaken := Bucket.taken_le hrate hrate hreach rfl le_rfl rfl hab
  have hle : t.requests provider apiClass a b ≤ Bucket.within a b (times provider apiClass t.taken) :=
    (Nat.le_add_right _ _).trans hcovered
  calc (t.requests provider apiClass a b : ℚ)
      ≤ Bucket.within a b (times provider apiClass t.taken) := by exact_mod_cast hle
    _ ≤ _ := htaken

end

/-! Five callers who send in time, and four callers of whom three are told to wait. -/

/-- The callers take steps in turn. -/
def rounds (n : Nat) (callers : List Nat) : List Action := (List.range n).flatMap fun _ => callers.map .step

def brisk : HeliusConfig := ⟨2, 1, 1, 3⟩

/-- Two of three `rpc` callers find a token, beside one of another class. The key is rate
limited for one of them, who tries again while a fifth caller comes. -/
def fiveCallers : List Action :=
  [.call .rpc, .call .rpc, .call .rpc, .call .enhanced] ++ rounds 11 [0, 1, 2, 3] ++
    [.step 0, .step 1, .step 3, .wait (1 / 2), .respond 0 (.received 429 (some "1") .undecodable),
      .respond 1 (.received 200 none .result)] ++ rounds 3 [0, 1] ++ [.wait (3 / 2), .call .rpc] ++ rounds 12 [0, 4]

def fiveSent : HeliusPool :=
  (fiveCallers.foldlM (fun s a => if prompt s a then next brisk s a else none) (.new ["key"] brisk 0)).get
    (by decide +kernel)

example : fiveSent.callers.map Caller.attempt = [1, 0, 0, 0, 0] ∧ fiveSent.requests 0 .rpc 0 (3 / 2) = 4 := by
  decide +kernel

theorem fiveSent_requests_le : (fiveSent.requests 0 .rpc 0 (3 / 2) : ℚ) ≤
    (brisk.rate .rpc).toNat + (brisk.rate .rpc).toNat * (3 / 2 - 0) := by
  have hrun : fiveCallers.foldlM (fun s a => if prompt s a then next brisk s a else none) (.new ["key"] brisk 0) =
      some fiveSent :=
    (Option.some_get _).symm
  exact requests_le ["key"] 0 (run_checked_iff.mpr hrun) (by decide) (by decide +kernel)

def slow : HeliusConfig := ⟨1, 1, 1, 3⟩

/-- All four ask at once; a second later the three that waited send. -/
def fourCallers : List Action :=
  (List.range 4).flatMap (fun i => .call .rpc :: List.replicate 11 (.step i)) ++
    .wait 1 :: [1, 2, 3].flatMap fun i => List.replicate 3 (.step i)

def fourRequests : HeliusPool :=
  (fourCallers.foldlM (next slow) (.new ["key"] slow 0)).get (by decide +kernel)

theorem requests_exceed : ¬ ∀ (c : HeliusConfig) (keys : List String) (start : Instant) (actions : List Action)
    (t : HeliusPool) (provider : Nat) (apiClass : ApiClass), 1 ≤ (c.rate apiClass).toNat → provider < keys.length →
    Run (fun s a t => next c s a = some t) (.new keys c start) actions t →
      ∀ a b, a ≤ b → (t.requests provider apiClass a b : ℚ) ≤
        (c.rate apiClass).toNat + (c.rate apiClass).toNat * (b - a) := by
  intro h
  have hrun : fourCallers.foldlM (next slow) (.new ["key"] slow 0) = some fourRequests := (Option.some_get _).symm
  have hbound := h slow ["key"] 0 fourCallers fourRequests 0 .rpc (by decide) (by decide)
    ((run_iff_foldlM fun _ _ _ => Iff.rfl).mpr hrun) 1 1 le_rfl
  exact absurd hbound (by decide +kernel)

end WhaleIntelligence.Helius
