import WhaleIntelligence.Rust
import Mathlib.Data.Rat.Defs
import Mathlib.Algebra.Order.Field.Rat

/- The Helius provider pool (src/src/helius.rs): buckets, cooldowns, breakers and the callers
   of `request_json`.

   A step is a section of a mutex, an atomic operation, or what a caller does between two
   of them. Clocks and the f64 of the buckets are exact. The record of usage, the texts of
   the requests and of the errors are left out. `taken` and `sent` are ghosts. -/
namespace WhaleIntelligence.Helius
open WhaleIntelligence

inductive ApiClass where
  | rpc | enhanced | wallet
  deriving DecidableEq, Repr

/-- Seconds. -/
abbrev Instant := ℚ

structure HeliusConfig where
  rpcRatePerSecond : UInt32
  enhancedRatePerSecond : UInt32
  walletRatePerSecond : UInt32
  maxRetries : UInt32
  deriving DecidableEq, Repr

def HeliusConfig.rate (c : HeliusConfig) : ApiClass → UInt32
  | .rpc => c.rpcRatePerSecond
  | .enhanced => c.enhancedRatePerSecond
  | .wallet => c.walletRatePerSecond

/-! ## Buckets -/

structure TokenBucket where
  capacity : ℚ
  tokens : ℚ
  lastRefill : Instant
  deriving DecidableEq, Repr

def TokenBucket.new (ratePerSecond : UInt32) (now : Instant) : TokenBucket :=
  ⟨ratePerSecond.toNat, ratePerSecond.toNat, now⟩

def TokenBucket.refill (b : TokenBucket) (now : Instant) : TokenBucket :=
  let elapsed := max 0 (now - b.lastRefill)
  if 0 < elapsed then { b with tokens := min (b.tokens + elapsed * b.capacity) b.capacity, lastRefill := now } else b

/-- A wait where there is no token. -/
def TokenBucket.tryAcquire (b : TokenBucket) (now : Instant) : Option ℚ × TokenBucket :=
  let b := b.refill now
  if 1 ≤ b.tokens then (none, { b with tokens := b.tokens - 1 })
  else (some ((1 - b.tokens) / max b.capacity (1 / 1000)), b)

/-! ## Provider keys -/

structure ProviderKey where
  key : String
  buckets : ApiClass → TokenBucket
  cooldownUntil : Option Instant
  consecutiveFailures : Nat
  openUntil : Option Instant

def ProviderKey.new (c : HeliusConfig) (now : Instant) (key : String) : ProviderKey where
  key := key
  buckets := fun class_ => .new (c.rate class_) now
  cooldownUntil := none
  consecutiveFailures := 0
  openUntil := none

/-- What is left to do to a key after a response, section by section. `openAfter` and
`coolAfter` read the clock before the mutex is taken. -/
inductive Section where
  | storeFailures | addFailure (threshold : Nat)
  | clearOpen | openAfter (duration : ℚ) | setOpen (until_ : Instant)
  | coolAfter (duration : ℚ) | setCooldown (until_ : Instant)
  deriving DecidableEq, Repr

def recordSuccess : List Section := [.storeFailures, .clearOpen]
def recordFailure (breakerThreshold : Nat) : List Section := [.addFailure breakerThreshold]
def applyCooldown (duration : ℚ) : List Section := [.coolAfter duration]

/-- The key after the section, and what the section adds to what is left. -/
def Section.run (now : Instant) (p : ProviderKey) : Section → ProviderKey × List Section
  | .storeFailures => ({ p with consecutiveFailures := 0 }, [])
  | .addFailure threshold =>
    ({ p with consecutiveFailures := p.consecutiveFailures + 1 },
      if threshold ≤ p.consecutiveFailures + 1 then [.openAfter 60, .storeFailures] else [])
  | .clearOpen => ({ p with openUntil := none }, [])
  | .openAfter duration => (p, [.setOpen (now + duration)])
  | .setOpen until_ => ({ p with openUntil := some until_ }, [])
  | .coolAfter duration => (p, [.setCooldown (now + duration)])
  | .setCooldown until_ => ({ p with cooldownUntil := some until_ }, [])

/-! ## Responses -/

inductive HttpOutcome where
  | success | rateLimited (retryAfter : Option Nat) | authError | validationError | serverError | networkError
  deriving DecidableEq, Repr

def HttpOutcome.fromStatus (status : Nat) (retryAfter : Option String) : HttpOutcome :=
  if 200 ≤ status ∧ status < 300 then .success
  else if status = 429 then .rateLimited (retryAfter.bind fun v => u64FromStr (trim v))
  else if status = 401 ∨ status = 403 then .authError
  else if 400 ≤ status ∧ status < 500 then .validationError
  else .serverError

inductive Payload where
  | undecodable | error | result
  deriving DecidableEq, Repr

/-- A failure to send, or a response with its status, its `retry-after` header and its payload. -/
inductive Response where
  | failed
  | received (status : Nat) (retryAfter : Option String) (payload : Payload)
  deriving DecidableEq, Repr

/-- What is left to do to the key, and whether the caller tries again. -/
def handled (c : HeliusConfig) : Response → List Section × Bool
  | .failed => (recordFailure c.maxRetries.toNat, true)
  | .received status retryAfter payload =>
    match HttpOutcome.fromStatus status retryAfter with
    | .success =>
      match payload with
      | .undecodable | .result => (recordSuccess, false)
      | .error => (recordSuccess ++ recordFailure c.maxRetries.toNat, false)
    | .rateLimited retryAfter => (applyCooldown (min (retryAfter.getD 1 : Nat) 60), true)
    | .authError | .validationError => (recordFailure 3, false)
    | .serverError | .networkError => (recordFailure c.maxRetries.toNat, true)

/-! ## Callers -/

/-- A loop of `pick_provider`: the fair one with its best wait, or the one for the shortest wait. -/
inductive Scan where
  | fair (start offset : Nat) (bestWait : Option (Nat × ℚ))
  | shortest (index : Nat) (shortest : Option ℚ)
  deriving DecidableEq, Repr

/-- What is looked at before a bucket: `is_available`, then `try_acquire`. -/
inductive Check where
  | availableCooldown | availableOpen | acquireCooldown | acquireOpen
  deriving DecidableEq, Repr

def Check.value (p : ProviderKey) : Check → Option Instant
  | .availableCooldown | .acquireCooldown => p.cooldownUntil
  | .availableOpen | .acquireOpen => p.openUntil

/-- Where a caller is. `token` is when its token was taken, a ghost. -/
inductive Pc where
  | pick
  | read (check : Check) (scan : Scan)
  | compare (check : Check) (until_ : Option Instant) (scan : Scan)
  | bucket (scan : Scan)
  | told (provider : Nat) (wait : ℚ)
  | sleep (provider : Nat) (until_ : Instant)
  | recordUsage (provider : Nat) (token : Option Instant)
  | send (provider : Nat) (token : Option Instant)
  | response (provider : Nat)
  | book (provider : Nat) (sections : List Section) (retry : Bool)
  | done
  deriving DecidableEq, Repr

structure Caller where
  apiClass : ApiClass
  attempt : Nat
  pc : Pc
  deriving DecidableEq, Repr

def Scan.index (count : Nat) : Scan → Nat
  | .fair start offset _ => (start + offset) % count
  | .shortest index _ => index

/-- On to the next provider, or to the end of the loop. -/
def Scan.skip (count : Nat) : Scan → Pc
  | .fair start offset bestWait =>
    if offset + 1 < count then .read .availableCooldown (.fair start (offset + 1) bestWait)
    else
      match bestWait with
      | some (provider, wait) => .told provider wait
      | none => .read .acquireCooldown (.shortest 0 none)
  | .shortest index best => if index + 1 < count then .read .acquireCooldown (.shortest (index + 1) best) else .done

/-- What `try_acquire` answers: a wait or a token. -/
def Scan.tried (count : Nat) (now : Instant) (scan : Scan) (wait : Option ℚ) : Pc :=
  match scan, wait with
  | .fair _ _ _, none => .recordUsage (scan.index count) (some now)
  | .fair start offset bestWait, some wait =>
    match bestWait with
    | none => Scan.skip count (.fair start offset (some (scan.index count, wait)))
    | some (provider, w) =>
      if wait < w then Scan.skip count (.fair start offset (some (scan.index count, wait)))
      else Scan.skip count (.fair start offset (some (provider, w)))
  | .shortest _ _, none => scan.skip count
  | .shortest index best, some w =>
    match best with
    | none => Scan.skip count (.shortest index (some w))
    | some s => if w < s then Scan.skip count (.shortest index (some w)) else Scan.skip count (.shortest index (some s))

/-- What follows from the time that was read. -/
def compared (count : Nat) (now : Instant) (check : Check) (until_ : Option Instant) (scan : Scan) : Pc :=
  match until_.filter (now < ·), check with
  | some _, .availableCooldown | some _, .availableOpen => scan.skip count
  | some until_, .acquireCooldown | some until_, .acquireOpen => scan.tried count now (some (until_ - now))
  | none, .availableCooldown => .read .availableOpen scan
  | none, .availableOpen => .read .acquireCooldown scan
  | none, .acquireCooldown => .read .acquireOpen scan
  | none, .acquireOpen => .bucket scan

/-! ## The pool -/

/-- A token or a request: its provider, its class and its time. -/
structure Stamp where
  provider : Nat
  apiClass : ApiClass
  time : Instant
  deriving DecidableEq, Repr

structure HeliusPool where
  clock : Instant
  providers : List ProviderKey
  next : Nat
  callers : List Caller
  taken : List Stamp
  sent : List Stamp

def HeliusPool.new (keys : List String) (c : HeliusConfig) (now : Instant) : HeliusPool :=
  ⟨now, keys.map (.new c now), 0, [], [], []⟩

/-- The caller at the index goes on to another place. -/
def HeliusPool.goto (s : HeliusPool) (i : Nat) (caller : Caller) (pc : Pc) : HeliusPool :=
  { s with callers := s.callers.set i { caller with pc := pc } }

/-- The bucket of the scanned provider is asked for a token. -/
def HeliusPool.acquire (s : HeliusPool) (i : Nat) (caller : Caller) (scan : Scan) : Option HeliusPool := do
  let index := scan.index s.providers.length
  let p ← s.providers[index]?
  let (wait, b) := (p.buckets caller.apiClass).tryAcquire s.clock
  let s' := { s with
    providers := s.providers.set index { p with buckets := Function.update p.buckets caller.apiClass b }
    taken := if wait = none then s.taken ++ [Stamp.mk index caller.apiClass s.clock] else s.taken }
  some (s'.goto i caller (scan.tried s.providers.length s.clock wait))

/-- The next step of the caller at the index. -/
def HeliusPool.step (c : HeliusConfig) (s : HeliusPool) (i : Nat) (caller : Caller) : Option HeliusPool :=
  match caller.pc with
  | .pick =>
    if s.providers = [] then some (s.goto i caller .done)
    else some ({ s with next := (s.next + 1) % 2 ^ 64 }.goto i caller (.read .availableCooldown (.fair s.next 0 none)))
  | .read check scan => do
    let p ← s.providers[scan.index s.providers.length]?
    some (s.goto i caller (.compare check (check.value p) scan))
  | .compare check until_ scan => some (s.goto i caller (compared s.providers.length s.clock check until_ scan))
  | .bucket scan => s.acquire i caller scan
  | .told provider wait => some (s.goto i caller (.sleep provider (s.clock + min wait 2)))
  | .sleep provider until_ => if until_ ≤ s.clock then some (s.goto i caller (.recordUsage provider none)) else none
  | .recordUsage provider token => some (s.goto i caller (.send provider token))
  | .send provider _ =>
    some ({ s with sent := s.sent ++ [Stamp.mk provider caller.apiClass s.clock] }.goto i caller (.response provider))
  | .response _ => none
  | .book provider (sec :: sections) retry => do
    let p ← s.providers[provider]?
    let (p, more) := sec.run s.clock p
    some ({ s with providers := s.providers.set provider p }.goto i caller (.book provider (more ++ sections) retry))
  | .book _ [] retry =>
    if retry ∧ caller.attempt + 1 ≤ c.maxRetries.toNat then
      some (s.goto i { caller with attempt := caller.attempt + 1 } .pick)
    else some (s.goto i caller .done)
  | .done => none

inductive Action where
  | call (apiClass : ApiClass)
  | wait (now : Instant)
  | step (i : Nat)
  | respond (i : Nat) (r : Response)
  deriving DecidableEq, Repr

def next (c : HeliusConfig) (s : HeliusPool) : Action → Option HeliusPool
  | .call apiClass => some { s with callers := s.callers ++ [Caller.mk apiClass 0 .pick] }
  | .wait now => if s.clock ≤ now then some { s with clock := now } else none
  | .step i => do
    let caller ← s.callers[i]?
    s.step c i caller
  | .respond i r => do
    let caller ← s.callers[i]?
    match caller.pc with
    | .response provider => some (s.goto i caller (.book provider (handled c r).1 (handled c r).2))
    | _ => none

end WhaleIntelligence.Helius
