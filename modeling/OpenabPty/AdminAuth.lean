import OpenabPty.Token
import OpenabPty.Verifier
import OpenabPty.Core.Threads

/-!
# Admin authentication (`admin_auth.rs`)

The failure throttle is kept per source under one lock; the semaphore bounds the credential
hashes in flight. `verify` holds a permit from before it hashes until it returns, and takes
the lock once or twice on the way. SHA-256 is a parameter.
-/

namespace OpenabPty

/-- `MAX_ADMIN_CREDENTIAL_BYTES`. -/
def maxAdminCredentialBytes : Nat := 1024

/-- `DEFAULT_MAX_INFLIGHT_VERIFICATIONS`. -/
def defaultMaxInflightVerifications : Nat := 4

/-- `DEFAULT_ADMIN_FAILURE_BACKOFF`. -/
def defaultAdminFailureBackoff : Duration := .fromMillis 100

/-- `MAX_ADMIN_FAILURE_BACKOFF`. -/
def maxAdminFailureBackoff : Duration := .fromSecs 5

/-- `MAX_TRACKED_ADMIN_SOURCES`. -/
def maxTrackedAdminSources : Nat := 256

/-- `ADMIN_FAILURE_MEMORY`. -/
def adminFailureMemory : Duration := .fromSecs 60

/-- `AdminAuthFailure`. -/
inductive AdminAuthFailure where
  | invalid
  | throttled (retryAfter : Duration)
  | busy
  | tooLarge
  deriving DecidableEq, Repr

/-- `FailureState`. -/
structure FailureState where
  consecutiveFailures : Nat
  blockedUntil : Option Instant
  lastSeen : Instant
  deriving DecidableEq, Repr

/-- `is_blocked`. -/
def FailureState.isBlocked (entry : FailureState) (now : Instant) : Bool :=
  entry.blockedUntil.any fun deadline => now < deadline

/-- `HashMap<String, FailureState>`, in the order of its iteration. -/
abbrev Failures := List (Text × FailureState)

namespace Failures

/-- `insert` of a value under a key. -/
def put (entries : Failures) (key : Text) (entry : FailureState) : Failures :=
  if (entries.lookup key).isSome then
    entries.map fun e => if e.1 = key then (key, entry) else e
  else entries ++ [(key, entry)]

/-- `remove`. -/
def remove (entries : Failures) (key : Text) : Failures := entries.filter fun e => e.1 ≠ key

/-- `prune`. -/
def prune (entries : Failures) (now : Instant) : Failures :=
  entries.filter fun e => e.2.isBlocked now || now - e.2.lastSeen < adminFailureMemory

/-- `min_by_key` on `last_seen`: the first of the least. -/
def leastRecentlySeen : Failures → Option (Text × FailureState)
  | [] => none
  | e :: rest =>
    match leastRecentlySeen rest with
    | none => some e
    | some least => if least.2.lastSeen < e.2.lastSeen then some least else some e

/-- `make_room`. -/
def makeRoom (entries : Failures) (now : Instant) : Failures :=
  if entries.length < maxTrackedAdminSources then entries
  else
    match leastRecentlySeen (entries.filter fun e => !e.2.isBlocked now) with
    | some victim => entries.remove victim.1
    | none => entries

end Failures

/-- `source_key`. -/
def sourceKey (source : Option Text) : Text := source.getD "unknown".toList

/-- `hash_fingerprint`: `h:` and the first eight bytes of the hash's hash. -/
def hashFingerprint (sha256 : List UInt8 → Digest) (hash : List UInt8) : List UInt8 :=
  0x68 :: 0x3a :: hexEncode ((sha256 hash).take 8)

/-- An `AdminAuthFailure` audit event. -/
structure AdminAuditEvent where
  fingerprint : List UInt8
  source : Text
  detail : String
  deriving DecidableEq, Repr

/-- `AdminAuthenticator`: `available` permits of the semaphore are left; `now` is the clock. -/
structure AdminAuthenticator where
  verifier : List UInt8
  fingerprint : List UInt8
  failures : Failures
  available : Nat
  baseBackoff : Duration
  audit : List AdminAuditEvent
  now : Instant
  deriving DecidableEq

namespace AdminAuthenticator

/-- An authenticator for a verifier that is already parsed. -/
def new (sha256 : List UInt8 → Digest) (verifier : List UInt8) (maxInflight : Nat)
    (baseBackoff : Duration) (now : Instant) : AdminAuthenticator :=
  { verifier, fingerprint := hashFingerprint sha256 verifier, failures := [],
    available := maxInflight, baseBackoff, audit := [], now }

/-- `from_verifier_hash`. -/
def fromVerifierHash (sha256 : List UInt8 → Digest) (verifierHash : Text) (now : Instant) :
    Except Error AdminAuthenticator := do
  let verifier ← parseVerifierHash verifierHash
  return new sha256 verifier defaultMaxInflightVerifications defaultAdminFailureBackoff now

/-- `audit_failure`. -/
def auditFailure (a : AdminAuthenticator) (source : Option Text) (detail : String) :
    AdminAuthenticator :=
  { a with audit := a.audit ++
      [{ fingerprint := a.fingerprint, source := source.getD "unknown".toList, detail }] }

/-- `blocked_for`, with the lock held; the clock was read at `now`. -/
def blockedFor (a : AdminAuthenticator) (source : Option Text) (now : Instant) :
    AdminAuthenticator × Option Duration :=
  match a.failures.lookup (sourceKey source) with
  | none => (a, none)
  | some entry =>
    ({ a with failures := a.failures.put (sourceKey source) { entry with lastSeen := now } },
      (entry.blockedUntil.filter fun deadline => now < deadline).map fun deadline => deadline - now)

/-- The delay that the `n`-th failure in a row arms. -/
def backoff (baseBackoff : Duration) (n : Nat) : Duration :=
  min (baseBackoff * 2 ^ min (n - 1) 10) maxAdminFailureBackoff

/-- `record_failure`, with the lock held; the clock was read at `now`. -/
def recordFailure (a : AdminAuthenticator) (source : Option Text) (detail : String)
    (now : Instant) : AdminAuthenticator :=
  let key := sourceKey source
  let entries := a.failures.prune now
  let entries := if (entries.lookup key).isSome then entries else entries.makeRoom now
  if (entries.lookup key).isNone ∧ maxTrackedAdminSources ≤ entries.length then
    -- Every tracked source is under an active block: this one is not tracked.
    { a with failures := entries }.auditFailure source
      s!"{detail}; untracked: all {maxTrackedAdminSources} slots blocked"
  else
    let entry := (entries.lookup key).getD
      { consecutiveFailures := 0, blockedUntil := none, lastSeen := now }
    let count := min (entry.consecutiveFailures + 1) (2 ^ 32 - 1)
    let delay := backoff a.baseBackoff count
    let entry := { consecutiveFailures := count, blockedUntil := some (now + delay), lastSeen := now }
    let millis := delay.asMillis
    { a with failures := entries.put key entry }.auditFailure source
      s!"{detail}; retry_after_ms={millis}"

end AdminAuthenticator

/-! ## Calls in flight -/

/-- Where a call of `verify` or `reject_unauthenticated` is. `held` says whether it holds a
permit. -/
inductive AdminPc where
  | start
  | acquire
  | digest
  | clear
  | readClock (detail : String) (failure : AdminAuthFailure) (held : Bool)
  | blockedFor (detail : String) (failure : AdminAuthFailure) (held : Bool) (now : Instant)
  | countClock (detail : String) (failure : AdminAuthFailure) (held : Bool)
  | record (detail : String) (failure : AdminAuthFailure) (held : Bool) (now : Instant)
  | release (result : Except AdminAuthFailure Unit)
  | returned (result : Except AdminAuthFailure Unit)
  deriving DecidableEq

/-- A call: `verify` presents a credential, `reject_unauthenticated` none. -/
structure AdminCall where
  credential : Option (List UInt8)
  source : Option Text
  pc : AdminPc
  deriving DecidableEq

namespace AdminCall

/-- The call goes on at `pc`. -/
def goto (call : AdminCall) (pc : AdminPc) : AdminCall := { call with pc }

/-- The call is over, but for a permit it still holds. -/
def leave (call : AdminCall) (held : Bool) (result : Except AdminAuthFailure Unit) : AdminCall :=
  if held then call.goto (.release result) else call.goto (.returned result)

/-- The call holds a permit. -/
def holdsPermit (call : AdminCall) : Bool :=
  match call.pc with
  | .digest | .clear | .release _ => true
  | .readClock _ _ held | .blockedFor _ _ held _ | .countClock _ _ held | .record _ _ held _ => held
  | .start | .acquire | .returned _ => false

/-- The next step of a call. -/
def step (sha256 : List UInt8 → Digest) (a : AdminAuthenticator) (call : AdminCall) :
    Option (AdminAuthenticator × AdminCall) :=
  match call.pc with
  | .start =>
    match call.credential with
    | none =>
      some (a, call.goto (.readClock "missing_or_malformed_authorization_header" .invalid false))
    | some presented =>
      if maxAdminCredentialBytes < presented.length then
        some (a, call.goto (.readClock "credential_too_large" .tooLarge false))
      else some (a, call.goto .acquire)
  | .acquire =>
    if a.available = 0 then
      some (a.auditFailure call.source "verification_concurrency_cap",
        call.goto (.returned (.error .busy)))
    else some ({ a with available := a.available - 1 }, call.goto .digest)
  | .digest =>
    if call.credential.map sha256 = some a.verifier then some (a, call.goto .clear)
    else some (a, call.goto (.readClock "invalid_credential" .invalid true))
  | .clear =>
    some ({ a with failures := a.failures.remove (sourceKey call.source) },
      call.goto (.release (.ok ())))
  | .readClock detail failure held =>
    some (a, call.goto (.blockedFor detail failure held a.now))
  | .blockedFor detail failure held now =>
    match a.blockedFor call.source now with
    | (a, some retryAfter) =>
      let millis := Duration.asMillis retryAfter
      some (a.auditFailure call.source s!"{detail}; throttled; retry_after_ms={millis}",
        call.leave held (.error (.throttled retryAfter)))
    | (a, none) => some (a, call.goto (.countClock detail failure held))
  | .countClock detail failure held => some (a, call.goto (.record detail failure held a.now))
  | .record detail failure held now =>
    some (a.recordFailure call.source detail now, call.leave held (.error failure))
  | .release result =>
    some ({ a with available := a.available + 1 }, call.goto (.returned result))
  | .returned _ => none

end AdminCall

/-- Any number of calls over one authenticator; time passes between their steps. -/
def adminCalls (sha256 : List UInt8 → Digest) :
    Threads AdminAuthenticator AdminCall Unit Duration where
  entry call := call.pc == .start
  step a call _ := (call.step sha256 a).map fun r => (r.1, r.2, [])
  env a d := { a with now := a.now + d }

/-! ## What a step changes -/

namespace AdminAuthenticator

variable (a : AdminAuthenticator) (source : Option Text) (detail : String) (now : Instant)

@[simp] theorem auditFailure_verifier : (a.auditFailure source detail).verifier = a.verifier := rfl

@[simp] theorem auditFailure_available :
    (a.auditFailure source detail).available = a.available := rfl

@[simp] theorem auditFailure_failures :
    (a.auditFailure source detail).failures = a.failures := rfl

@[simp] theorem blockedFor_verifier : (a.blockedFor source now).1.verifier = a.verifier := by
  unfold blockedFor
  split <;> rfl

@[simp] theorem blockedFor_available : (a.blockedFor source now).1.available = a.available := by
  unfold blockedFor
  split <;> rfl

@[simp] theorem recordFailure_verifier :
    (a.recordFailure source detail now).verifier = a.verifier := by
  unfold recordFailure
  dsimp only
  split_ifs <;> rfl

@[simp] theorem recordFailure_available :
    (a.recordFailure source detail now).available = a.available := by
  unfold recordFailure
  dsimp only
  split_ifs <;> rfl

end AdminAuthenticator

end OpenabPty
