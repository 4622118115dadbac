import OpenabPty.Verifier
import Mathlib.Data.List.Infix

/-!
# The delivered projection (`config.rs`)

`validate_projection` parses the text, rejects what must not have leaked into it, expands
`${VAR}` in the strings of `[pty]`, reads the knobs and checks them against each other.
Durations are whole seconds.
-/

namespace OpenabPty

namespace Config

/-! ## Values -/

/-- `toml::Value`, without the payloads nothing here reads. A table lists its entries in the
order of its keys, each key once. -/
inductive Value where
  | string (text : Text)
  | integer (n : Int)
  | float
  | boolean (b : Bool)
  | datetime
  | array (values : List Value)
  | table (entries : List (String × Value))

/-- The entries of a table. -/
abbrev Table := List (String × Value)

/-- `Map::get`. -/
def Table.get (table : Table) (key : String) : Option Value := table.lookup key

/-- What validation takes from outside the crate. -/
structure Host where
  /-- `toml::from_str`, with the text of its error. -/
  fromStr : Text → Except String Value
  /-- `std::env::var`: nothing when the variable is unset or not Unicode. -/
  var : Text → Option Text
  /-- How a string is shown by `{:?}`. -/
  debug : String → String

/-- `str::contains`. -/
def contains (text : Text) (pattern : String) : Bool := decide (pattern.toList <:+: text)

/-- A check with the message of the error it fails with. -/
def ensure (holds : Bool) (message : String) : Except Error Unit :=
  if holds then .ok () else .error (.config message)

/-- A value, or the message of the error for the want of it. -/
def orElse {α : Type} (value : Option α) (message : String) : Except Error α :=
  match value with
  | some a => .ok a
  | none => .error (.config message)

mutual

/-- `reject_unsafe_values`. -/
def rejectUnsafeValues : Value → Except Error Unit
  | .string text => do
    ensure (!contains text "$\x7bsecrets.")
      "$\x7bsecrets.*\x7d interpolation is forbidden in a PTY projection"
    ensure (!contains text "://")
      "remote/cloud URI references are forbidden in a PTY projection"
  | .array values => rejectUnsafeArray values
  | .table entries => rejectUnsafeTable entries
  | _ => .ok ()

def rejectUnsafeArray : List Value → Except Error Unit
  | [] => .ok ()
  | value :: rest => do
    rejectUnsafeValues value
    rejectUnsafeArray rest

def rejectUnsafeTable : List (String × Value) → Except Error Unit
  | [] => .ok ()
  | entry :: rest => do
    rejectUnsafeEntry entry
    rejectUnsafeTable rest

def rejectUnsafeEntry : String × Value → Except Error Unit
  | (_, value) => rejectUnsafeValues value

end

/-! ## Interpolation -/

/-- `is_env_name`. -/
def isEnvName : Text → Bool
  | [] => false
  | c :: rest => (c.isAlpha || c == '_') && rest.all fun c => c.isAlphanum || c == '_'

/-- `str::find` with a two-character pattern: what stands before it and after it. -/
def splitAtPair (x y : Char) : Text → Option (Text × Text)
  | [] => none
  | c :: rest =>
    if c = x ∧ rest.head? = some y then some ([], rest.drop 1)
    else (splitAtPair x y rest).map fun r => (c :: r.1, r.2)

/-- `str::find` with a character. -/
def splitAtChar (x : Char) : Text → Option (Text × Text)
  | [] => none
  | c :: rest =>
    if c = x then some ([], rest)
    else (splitAtChar x rest).map fun r => (c :: r.1, r.2)

/-- The value that one `${name}` stands for. -/
def resolve (host : Host) (name : Text) : Except Error Text := do
  ensure (isEnvName name) ("invalid interpolation $\x7b" ++ String.ofList name ++
    "\x7d; only $\x7bVAR\x7d environment values are allowed")
  let value ← orElse (host.var name) ("environment variable " ++
    host.debug (String.ofList name) ++ " required by PTY projection is unset")
  ensure (!contains value "://" && !contains value "$\x7bsecrets.") ("environment value " ++
    host.debug (String.ofList name) ++ " resolves to a forbidden remote/cloud reference")
  return value

/-- The loop of `interpolate_env`. Every turn takes characters off the remainder, so as many
turns as it has characters are enough. -/
def interpolateLoop (host : Host) : Nat → Text → Text → Except Error Text
  | 0, output, remainder => .ok (output ++ remainder)
  | turns + 1, output, remainder =>
    match splitAtPair '$' '{' remainder with
    | none => .ok (output ++ remainder)
    | some (literal, afterOpen) => do
      let (name, rest) ← orElse (splitAtChar '}' afterOpen)
        "unterminated $\x7bVAR\x7d interpolation"
      let value ← resolve host name
      interpolateLoop host turns (output ++ literal ++ value) rest

/-- `interpolate_env`. -/
def interpolateEnv (host : Host) (input : Text) : Except Error Text :=
  interpolateLoop host input.length [] input

/-- The body of the loop of `interpolate_table`: strings only, and the verifier not at all. -/
def interpolateEntry (host : Host) (key : String) (value : Value) : Except Error Value :=
  if key = "admin_credential_hash" then .ok value
  else
    match value with
    | .string text => (interpolateEnv host text).map .string
    | _ => .ok value

/-- `interpolate_table`. -/
def interpolateTable (host : Host) : Table → Except Error Table
  | [] => .ok []
  | (key, value) :: rest => do
    let value ← interpolateEntry host key value
    let rest ← interpolateTable host rest
    return (key, value) :: rest

/-! ## Reading the knobs -/

/-- `required_string`. -/
def requiredString (table : Table) (key : String) : Except Error Text :=
  match table.get key with
  | some (.string text) => .ok text
  | _ => .error (.config s!"[pty].{key} must be a string and is required")

/-- `string_with_default`. -/
def stringWithDefault (table : Table) (key : String) (default : String) : Except Error Text :=
  match table.get key with
  | none => .ok default.toList
  | some (.string text) => .ok text
  | some _ => .error (.config s!"[pty].{key} must be a string")

/-- `bool_with_default`. -/
def boolWithDefault (table : Table) (key : String) (default : Bool) : Except Error Bool :=
  match table.get key with
  | none => .ok default
  | some (.boolean b) => .ok b
  | some _ => .error (.config s!"[pty].{key} must be a boolean")

/-- `usize_with_default`; `usize` has 64 bits. -/
def usizeWithDefault (table : Table) (key : String) (default : Nat) : Except Error Nat :=
  match table.get key with
  | none => .ok default
  | some (.integer n) =>
    if n < 0 then .error (.config s!"[pty].{key} must be a non-negative integer")
    else if n.toNat < 2 ^ 64 then .ok n.toNat
    else .error (.config s!"[pty].{key} is too large")
  | some _ => .error (.config s!"[pty].{key} must be a non-negative integer")

/-- The number that a run of digits writes. -/
def decimalValue (digits : Text) : Nat :=
  digits.foldl (fun n c => n * 10 + (c.toNat - 0x30)) 0

/-- `u64::from_str` of a run of digits. -/
def parseU64 (digits : Text) : Option Nat :=
  if digits ≠ [] ∧ decimalValue digits < 2 ^ 64 then some (decimalValue digits) else none

/-- `u64::checked_mul`. -/
def checkedMul (a b : Nat) : Option Nat := if a * b < 2 ^ 64 then some (a * b) else none

/-- `parse_duration`. -/
def parseDuration (key : String) (value : Text) : Except Error Nat := do
  let number := value.takeWhile Char.isDigit
  let unit := value.dropWhile Char.isDigit
  ensure (unit ≠ []) s!"{key} needs a unit (s, m, h, d)"
  let amount ← orElse (parseU64 number) s!"{key} must be a positive integer duration"
  ensure (amount ≠ 0) s!"{key} must be greater than zero"
  let seconds ←
    if unit = "s".toList then .ok (some amount)
    else if unit = "m".toList then .ok (checkedMul amount 60)
    else if unit = "h".toList then .ok (checkedMul amount (60 * 60))
    else if unit = "d".toList then .ok (checkedMul amount (24 * 60 * 60))
    else .error (.config s!"{key} unit must be s, m, h, or d")
  orElse seconds s!"{key} overflows"

/-- `duration_with_default`. -/
def durationWithDefault (table : Table) (key : String) (default : String) :
    Except Error Nat := do
  let value ← stringWithDefault table key default
  parseDuration key value

/-- `KillDomainRequirement`. -/
inductive KillDomainRequirement where
  | tier1Allowed
  | tier2Required
  deriving DecidableEq, Repr

/-- `parse_kill_domain`. -/
def parseKillDomain (value : Text) : Except Error KillDomainRequirement :=
  if value = "tier1".toList then .ok .tier1Allowed
  else if value = "tier2-required".toList then .ok .tier2Required
  else .error (.config "kill_domain_tier must be tier1 or tier2-required")

/-- `PtyConfig`. -/
structure PtyConfig where
  enabled : Bool
  listen : Text
  tlsTerminatedUpstream : Bool
  command : Text
  maxSessions : Nat
  absoluteSessionTtl : Nat
  attachTokenTtl : Nat
  detachedIdleTtl : Nat
  scrollbackKib : Nat
  scrollbackReplay : Bool
  filterTerminalResponses : Bool
  adminCredentialHash : Text
  killDomainRequirement : KillDomainRequirement
  seedDir : Text
  toolsListen : Text
  toolsAttachTtl : Nat
  deriving DecidableEq

/-! ## Loopback addresses (`server.rs`) -/

section IpAddr

/-- A digit in base ten or sixteen. -/
def digitOf (radix : Nat) (c : Char) : Option Nat := (hexDigitValue c).filter (· < radix)

/-- `read_number` of the standard library's address parser. -/
def readNumber (radix maxDigits : Nat) (allowZeroPrefix : Bool) (s : Text) :
    Option (Nat × Text) :=
  let digits := s.takeWhile fun c => (digitOf radix c).isSome
  if digits = [] ∨ maxDigits < digits.length then none
  else if !allowZeroPrefix && s.head? == some '0' && digits.length ≠ 1 then none
  else some ((digits.filterMap (digitOf radix)).foldl (fun n d => n * radix + d) 0,
    s.drop digits.length)

/-- `read_separator`: none before the first group. -/
def readSeparator (separator : Char) (first : Bool) (s : Text) : Option Text :=
  if first then some s
  else match s with
    | c :: rest => if c = separator then some rest else none
    | [] => none

/-- `read_ipv4_addr`, from the group that is read next. -/
def readIpv4Groups : Nat → Bool → Text → Option (List Nat × Text)
  | 0, _, s => some ([], s)
  | groups + 1, first, s => do
    let s ← readSeparator '.' first s
    let (group, s) ← readNumber 10 3 false s
    if 255 < group then none
    let (rest, s) ← readIpv4Groups groups false s
    return (group :: rest, s)

def readIpv4 (s : Text) : Option (List Nat × Text) := readIpv4Groups 4 true s

/-- `read_groups`: up to `limit` groups of sixteen bits, whether they end in an embedded IPv4
address, and what is left. -/
def readGroups : Nat → Bool → Text → List Nat × Bool × Text
  | 0, _, s => ([], false, s)
  | limit + 1, first, s =>
    let embedded := if limit = 0 then none else (readSeparator ':' first s).bind readIpv4
    match embedded with
    | some ([a, b, c, d], s) => ([a * 256 + b, c * 256 + d], true, s)
    | _ =>
      match (readSeparator ':' first s).bind (readNumber 16 4 true) with
      | none => ([], false, s)
      | some (group, s) =>
        let (groups, ipv4, s) := readGroups limit false s
        (group :: groups, ipv4, s)

/-- `read_ipv6_addr`. -/
def readIpv6 (s : Text) : Option (List Nat × Text) :=
  let (head, headIpv4, s) := readGroups 8 true s
  if head.length = 8 then some (head, s)
  else if headIpv4 then none
  else match s with
    | ':' :: ':' :: s =>
      let (tail, _, s) := readGroups (8 - (head.length + 1)) true s
      some (head ++ List.replicate (8 - head.length - tail.length) 0 ++ tail, s)
    | _ => none

/-- `IpAddr::from_str(..).is_ok_and(is_loopback)`. -/
def isLoopbackIp (s : Text) : Bool :=
  match readIpv4 s with
  | some (octets, rest) => rest = [] && octets.head? == some 127
  | none =>
    match readIpv6 s with
    | some (groups, rest) => rest = [] && groups == [0, 0, 0, 0, 0, 0, 0, 1]
    | none => false

/-- `bind_is_loopback`. -/
def bindIsLoopback (listenAddr : Text) : Bool :=
  let host :=
    if ':' ∈ listenAddr then (listenAddr.reverse.dropWhile (· ≠ ':')).drop 1 |>.reverse
    else listenAddr
  let bracket := fun c : Char => c == '[' || c == ']'
  let host := ((host.dropWhile bracket).reverse.dropWhile bracket).reverse
  host.map Char.toLower = "localhost".toList || isLoopbackIp host

example : bindIsLoopback "[0:0::0.0.0.1]:8091".toList = true := by decide

example : bindIsLoopback "127.0.0.01:8091".toList = false := by decide

end IpAddr

/-! ## The validator -/

/-- `PING_INTERVAL`. -/
def pingInterval : Nat := 20

/-- `MISSED_PINGS_BEFORE_DETACHED`. -/
def missedPingsBeforeDetached : Nat := 3

/-- `TTL_WARNING_LEAD`. -/
def ttlWarningLead : Nat := 30

/-- `DEFAULT_TOOLS_ATTACH_MAX_TTL`. -/
def defaultToolsAttachMaxTtl : Nat := 24 * 60 * 60

/-- `validate_lifecycle`. A duration of whole seconds is shown as its number and an `s`. -/
def validateLifecycle (config : PtyConfig) : Except Error Unit := do
  let toolsListen := String.ofList config.toolsListen
  ensure (pingInterval * missedPingsBeforeDetached < config.detachedIdleTtl)
    ("detached_idle_ttl must be longer than the fixed ping interval × missed-ping budget " ++
      "so half-open sockets detach before idle teardown")
  ensure (ttlWarningLead < config.detachedIdleTtl)
    ("detached_idle_ttl must be longer than the fixed TTL warning lead so the expiry " ++
      "warning precedes teardown")
  ensure (config.attachTokenTtl ≤ config.absoluteSessionTtl)
    (s!"attach_token_ttl ({config.attachTokenTtl}s) must not exceed absolute_session_ttl " ++
      s!"({config.absoluteSessionTtl}s): a token that outlives every session it could attach to " ++
      "only widens theft exposure")
  ensure (config.detachedIdleTtl ≤ config.absoluteSessionTtl)
    "absolute_session_ttl must not be shorter than detached_idle_ttl"
  ensure (config.toolsAttachTtl ≠ 0) "tools_attach_ttl must be non-zero"
  ensure (config.toolsAttachTtl ≤ defaultToolsAttachMaxTtl)
    s!"tools_attach_ttl must not exceed the hard 24h lease maximum ({defaultToolsAttachMaxTtl}s)"
  ensure (config.toolsListen = [] || bindIsLoopback config.toolsListen)
    (s!"tools_listen ({toolsListen}) must bind loopback: the tools MCP " ++
      "surface is unauthenticated and may only be reachable from inside the pod")

/-- `validate_admission`. -/
def validateAdmission (config : PtyConfig) : Except Error Unit := do
  ensure (config.maxSessions ≠ 0) "max_sessions must be non-zero"
  ensure (config.command.head? = some '/') "command must be a non-empty absolute local path"

/-- `PTY_KEYS`. -/
def ptyKeys : List String :=
  ["enabled", "listen", "tls_terminated_upstream", "command", "max_sessions",
    "absolute_session_ttl", "attach_token_ttl", "detached_idle_ttl", "scrollback_kib",
    "scrollback_replay", "filter_terminal_responses", "admin_credential_hash",
    "kill_domain_tier", "seed_dir", "tools_listen", "tools_attach_ttl"]

/-- The knobs, read in the order of the fields. -/
def readKnobs (pty : Table) (rawHash : Text) : Except Error PtyConfig := do
  let enabled ← boolWithDefault pty "enabled" false
  let listen ← stringWithDefault pty "listen" "0.0.0.0:8090"
  let tlsTerminatedUpstream ← boolWithDefault pty "tls_terminated_upstream" true
  let command ← stringWithDefault pty "command" "/bin/bash"
  let maxSessions ← usizeWithDefault pty "max_sessions" 4
  let absoluteSessionTtl ← durationWithDefault pty "absolute_session_ttl" "12h"
  let attachTokenTtl ← durationWithDefault pty "attach_token_ttl" "15m"
  let detachedIdleTtl ← durationWithDefault pty "detached_idle_ttl" "30m"
  let scrollbackKib ← usizeWithDefault pty "scrollback_kib" 1024
  let scrollbackReplay ← boolWithDefault pty "scrollback_replay" false
  let filterTerminalResponses ← boolWithDefault pty "filter_terminal_responses" true
  let seedDir ← stringWithDefault pty "seed_dir" ""
  let toolsListen ← stringWithDefault pty "tools_listen" ""
  let toolsAttachTtl ← durationWithDefault pty "tools_attach_ttl" "24h"
  let tier ← stringWithDefault pty "kill_domain_tier" "tier1"
  let killDomainRequirement ← parseKillDomain tier
  return { enabled, listen, tlsTerminatedUpstream, command, maxSessions, absoluteSessionTtl,
           attachTokenTtl, detachedIdleTtl, scrollbackKib, scrollbackReplay,
           filterTerminalResponses, adminCredentialHash := rawHash, killDomainRequirement,
           seedDir, toolsListen, toolsAttachTtl }

/-- The projection as a value. -/
def parse (host : Host) (input : Text) : Except Error Value :=
  match host.fromStr input with
  | .ok root => .ok root
  | .error error => .error (.config s!"invalid TOML projection: {error}")

/-- The `[pty]` table of a projection that holds nothing else and nothing unsafe. -/
def ptyTable (host : Host) (input : Text) : Except Error Table := do
  let root ← parse host input
  rejectUnsafeValues root
  match root with
  | .table rootTable =>
    ensure (Table.get rootTable "secrets").isNone
      "[secrets.refs] is forbidden in a delivered PTY projection"
    let sections := rootTable.map Prod.fst
    let found := ", ".intercalate sections
    ensure (sections = ["pty"])
      (s!"PTY projection may contain only [pty], found [{found}]; " ++
        "broker sections and shared source config are forbidden")
    match Table.get rootTable "pty" with
    | some (.table pty) => .ok pty
    | _ => .error (.config "[pty] must be a table")
  | _ => .error (.config "PTY projection root must be a TOML table")

/-- `validate_projection`. -/
def validateProjection (host : Host) (input : Text) : Except Error PtyConfig := do
  let pty ← ptyTable host input
  match (pty.map Prod.fst).find? fun key => !ptyKeys.contains key with
  | some key => .error (.config s!"unknown [pty] key {host.debug key}")
  | none =>
    -- The verifier is checked before interpolation, and never interpolated.
    let rawHash ← requiredString pty "admin_credential_hash"
    ensure (rawHash ≠ [] && !contains rawHash "$\x7b")
      ("admin_credential_hash must be a non-empty literal verifier hash; interpolation is " ++
        "forbidden")
    let _ ← parseVerifierHash rawHash
    let pty ← interpolateTable host pty
    let config ← readKnobs pty rawHash
    validateLifecycle config
    validateAdmission config
    return config

end Config

end OpenabPty
