import OpenabPty.Core.Journal
import OpenabPty.Deadlines
import OpenabPty.ChildEnv
import OpenabPty.Upgrades

/-!
# The boot (`main.rs`, `containment.rs`, and `bind`, `bind_tools` of `server.rs`)

What the binary does before it serves, in the order in which it does it: the barrier against reads
of its memory, the projection, the tier, the seed, the listeners, the startup hook. Each stage may
refuse. `Effect.Due` says how far a boot has to come for each thing that it does to the outside.
-/

namespace OpenabPty

/-- `IpAddr::is_loopback`. -/
def IpAddr.isLoopback : IpAddr → Bool
  | .v4 bits => bits.toNat / 2 ^ 24 = 127
  | .v6 bits => bits = 1

/-- `SocketAddr`. -/
structure SocketAddr where
  ip : IpAddr
  port : Nat

/-- `KillDomainTier`. -/
inductive KillDomainTier where
  | tier1BestEffortProcessGroup
  deriving DecidableEq, Repr

/-- `ContainmentStatus`. -/
inductive ContainmentStatus where
  | active
  | unsupported
  deriving DecidableEq, Repr

/-- `TOOLS_LISTEN_ENV`. -/
def toolsListenEnv : Text := "OPENAB_PTY_TOOLS_LISTEN".toList

/-- `hook_env`. -/
def hookEnv (source : Environ) (toolsListen : Option Text) : Environ :=
  source.filter (fun e => allowlisted e.1) ++
    (toolsListen.map fun listen => (toolsListenEnv, listen)).toList

namespace Boot

open Config

/-- `resolve_tier`. -/
def resolveTier : KillDomainRequirement → Except Error KillDomainTier
  | .tier1Allowed => .ok .tier1BestEffortProcessGroup
  | .tier2Required => .error (.config
      ("kill_domain_tier = tier2-required, but Tier 2 (one cgroup per session, teardown via " ++
      "cgroup.kill) is NOT IMPLEMENTED in Phase 1: the PTY spawner cannot join a cgroup " ++
      "before execv, so the hard guarantee cannot be provided. Refusing to start rather " ++
      "than serving best-effort teardown under the name of a guarantee. Use " ++
      "kill_domain_tier = tier1 to accept best-effort teardown explicitly."))

/-- `listener_guard`. -/
def listenerGuard (listenAddr adminCredentialHash : Text) (tlsTerminatedUpstream : Bool) :
    Except String Unit :=
  let addr := String.ofList listenAddr
  if bindIsLoopback listenAddr then .ok ()
  else if adminCredentialHash = [] then
    .error (s!"refusing to bind {addr}: no admin credential hash configured; an " ++
      "unauthenticated admin plane must never be exposed off-loopback")
  else if !tlsTerminatedUpstream then
    .error (s!"refusing to bind {addr}: tls_terminated_upstream = false and this runtime " ++
      "holds no TLS key (the same-UID MVP forbids one), so an off-loopback bind would " ++
      "serve plain WS without a trusted terminator")
  else .ok ()

/-- `Cli`. -/
structure Cli where
  config : Text
  validateProjection : Option Text
  generateAdminCredential : Bool
  startupHook : Option Text

/-- One entry of a chain of errors: a text, an error of the crate, or one of the system. -/
inductive Cause where
  | text (message : String)
  | crate (error : Error)
  | io (message : String)

/-- `Error::Io`, as it is shown. -/
def Cause.ofIo (message : String) : Cause := .text s!"io error: {message}"

/-- What the binary does to the outside; the log is left out. -/
inductive Effect where
  | setDumpable
  | getDumpable
  | generate
  | read (path : Text)
  | subreaper
  | seed (dir home : Text)
  | bind (addr : Text)
  | bindTools (addr : Text)
  | hook (path : Text) (env : Environ)
  | serve (config : Config.PtyConfig) (tools : Option SocketAddr)

/-- What comes of it: of `prctl`, of a file, of the Tokio runtime, of `apply_dir`, of the two
listeners and of the server. The tools listener is bound beside the other, and comes with what
`local_addr` says of it. `vars` is `utf8_env`. -/
structure Host where
  config : Config.Host
  linux : Bool
  setDumpable : Except String Unit
  dumpable : Int
  osError : String
  readToString : Text → Except String Text
  buildRuntime : Except String Unit
  applyDir : Text → Text → Except (List Cause) (List Text)
  bind : Text → Except String Unit
  bindTools : Text → Except String (Except String SocketAddr)
  display : SocketAddr → Text
  vars : Environ
  serve : Except Cause Unit

abbrev Program := Journal Effect (List Cause)

/-- `with_context`. -/
def withContext {α : Type} (context : String) : Except (List Cause) α → Except (List Cause) α :=
  Except.mapError fun causes => .text context :: causes

/-- `map_err(|error| anyhow!("{error}"))`. -/
def ofError {α : Type} : Except Error α → Except (List Cause) α :=
  Except.mapError fun error => [.crate error]

/-- The same of `Error::Io`. -/
def ofIo {α : Type} : Except String α → Except (List Cause) α :=
  Except.mapError fun message => [.ofIo message]

section Program

variable (host : Host)

/-- `establish_transient_secret_barrier`. -/
def establishTransientSecretBarrier : Journal Effect String ContainmentStatus :=
  if host.linux then do
    .act .setDumpable (host.setDumpable.mapError fun error => s!"io error: {error}")
    .act .getDumpable
      (if host.dumpable = 0 then .ok ()
      else if host.dumpable < 0 then .error s!"io error: {host.osError}"
      else .error (s!"PR_GET_DUMPABLE returned {host.dumpable}; refusing to handle transient " ++
        "secrets"))
    return .active
  else return .unsupported

/-- `validate_projection_file`. -/
def validateProjectionFile (path : Text) : Program Config.PtyConfig := do
  let content ← .act (.read path) (ofIo (host.readToString path))
  .check (ofError (validateProjection host.config content))

/-- `validate_only`; a rejection exits with 1. -/
def validateOnly (path : Text) : Program Unit := do
  let projection ← validateProjectionFile host path
  let _ ← .check (ofError (resolveTier projection.killDomainRequirement))
  return ()

/-- `server::bind`. -/
def bind (listen adminCredentialHash : Text) (tlsTerminatedUpstream : Bool) : Program Unit := do
  .check ((listenerGuard listen adminCredentialHash tlsTerminatedUpstream).mapError fun message =>
    [.crate (.config message)])
  .act (.bind listen) (ofIo (host.bind listen))

/-- `bind_tools`: the address that the kernel gave. -/
def bindTools (listen : Text) : Program SocketAddr := do
  let localAddr ← .act (.bindTools listen) (ofIo (host.bindTools listen))
  let addr ← .check (ofIo localAddr)
  let shown := String.ofList (host.display addr)
  if !addr.ip.isLoopback then
    .check (.error [.crate (.config (s!"refusing to serve tools on {shown}: the tools MCP " ++
      "listener must be loopback"))])
  else return addr

/-- The seed in `run`. -/
def seed (config : Config.PtyConfig) : Program Unit :=
  if config.seedDir ≠ [] then do
    let home := (host.config.var "HOME".toList).getD "/workspace".toList
    let _ ← .act (.seed config.seedDir home)
      (withContext "refusing to serve: seeded state could not be applied"
        (host.applyDir config.seedDir home))
    return ()
  else return ()

/-- The tools listener in `run`. -/
def toolsListener (config : Config.PtyConfig) : Program (Option SocketAddr) :=
  if config.toolsListen = [] then return none
  else do
    let addr ← bindTools host config.toolsListen
    return some addr

/-- The startup hook in `run`: what comes of it does not matter. -/
def runStartupHook (startupHook : Option Text) (tools : Option SocketAddr) : Program Unit :=
  match startupHook with
  | some hook => .act (.hook hook (hookEnv host.vars (tools.map host.display))) (.ok ())
  | none => return ()

/-- `run`. -/
def run (config : Config.PtyConfig) (startupHook : Option Text) : Program Unit := do
  .act .subreaper (.ok ())
  let _ ← .check (withContext "kill-domain tier selection"
    (ofError (resolveTier config.killDomainRequirement)))
  -- `KillDomain::new`.
  .act .subreaper (.ok ())
  seed host config
  let _ ← .check (withContext "admin verifier"
    (ofError (parseVerifierHash config.adminCredentialHash)))
  .check (withContext "session manager" (ofError config.sessionPolicy.validate))
  bind host config.listen config.adminCredentialHash config.tlsTerminatedUpstream
  let tools ← toolsListener host config
  runStartupHook host startupHook tools
  .act (.serve config tools) (host.serve.mapError fun cause => [cause])

/-- `main`. -/
def main (cli : Cli) : Program Unit := do
  let _ ← (establishTransientSecretBarrier host).mapError fun error =>
    [.text s!"refusing to start: could not establish PR_SET_DUMPABLE=0 ({error})"]
  if cli.generateAdminCredential then .act .generate (.ok ())
  else
    match cli.validateProjection with
    | some path => validateOnly host path
    | none => do
      let projection ← (validateProjectionFile host cli.config).mapError fun causes =>
        .text s!"invalid PTY projection at {String.ofList cli.config}" :: causes
      if !projection.enabled then
        .check (.error [.text (s!"[pty].enabled is false in {String.ofList cli.config}: " ++
          "refusing to serve a disabled runtime")])
      else do
        .check (host.buildRuntime.mapError fun message =>
          [.text "building the Tokio runtime", .io message])
        run host projection cli.startupHook

end Program

/-! ## How far a boot comes -/

section Due

variable (host : Host) (cli : Cli) (config : Config.PtyConfig)

/-- Nothing of the same user reads the memory of the process, as far as this platform can tell. -/
def Contained : Prop :=
  host.linux = true → host.setDumpable = .ok () ∧ host.dumpable = 0

/-- The file holds a projection, and this is what it says. -/
def Delivered (path : Text) : Prop :=
  ∃ content, host.readToString path = .ok content ∧
    validateProjection host.config content = .ok config

/-- The boot comes as far as `run`. -/
structure Entered : Prop where
  contained : Contained host
  generates : cli.generateAdminCredential = false
  validates : cli.validateProjection = none
  delivered : Delivered host config cli.config
  enabled : config.enabled = true
  runtime : host.buildRuntime = .ok ()

/-- `run` comes past the seed. -/
structure Seeded : Prop where
  tier : config.killDomainRequirement = .tier1Allowed
  applied : config.seedDir ≠ [] → ∃ archives, host.applyDir config.seedDir
    ((host.config.var "HOME".toList).getD "/workspace".toList) = .ok archives

/-- The guard lets the listener be bound. -/
def Guarded : Prop :=
  bindIsLoopback config.listen = true ∨ config.tlsTerminatedUpstream = true

/-- `run` comes past the listener of the clients. -/
structure Bound : Prop extends Seeded host config where
  guarded : Guarded config
  bound : host.bind config.listen = .ok ()

/-- The address of the tools listener: none where no projection asks for it. -/
inductive ToolsBound : Option SocketAddr → Prop
  | off : config.toolsListen = [] → ToolsBound none
  | on {addr : SocketAddr} : config.toolsListen ≠ [] →
      host.bindTools config.toolsListen = .ok (.ok addr) → addr.ip.isLoopback = true →
      ToolsBound (some addr)

/-- What `run` has to come past before it has an effect. -/
inductive RunDue (startupHook : Option Text) : Effect → Prop
  | subreaper : RunDue startupHook .subreaper
  | seed : config.killDomainRequirement = .tier1Allowed → config.seedDir ≠ [] →
      RunDue startupHook (.seed config.seedDir
        ((host.config.var "HOME".toList).getD "/workspace".toList))
  | bind : Seeded host config → Guarded config → RunDue startupHook (.bind config.listen)
  | bindTools : Bound host config → config.toolsListen ≠ [] →
      RunDue startupHook (.bindTools config.toolsListen)
  | hook {path : Text} {tools : Option SocketAddr} : Bound host config →
      ToolsBound host config tools → startupHook = some path →
      RunDue startupHook (.hook path (hookEnv host.vars (tools.map host.display)))
  | serve {tools : Option SocketAddr} : Bound host config → ToolsBound host config tools →
      RunDue startupHook (.serve config tools)

/-- What a boot has to come past before it has an effect. -/
inductive Due : Effect → Prop
  | setDumpable : host.linux = true → Due .setDumpable
  | getDumpable : host.linux = true → host.setDumpable = .ok () → Due .getDumpable
  | generate : Contained host → cli.generateAdminCredential = true → Due .generate
  | read : Contained host → cli.generateAdminCredential = false →
      Due (.read (cli.validateProjection.getD cli.config))
  | run {config : Config.PtyConfig} {e : Effect} : Entered host cli config →
      RunDue host config cli.startupHook e → Due e

end Due

/-- The stages of the boot, in their order. -/
def Effect.stage : Effect → Nat
  | .setDumpable | .getDumpable => 1
  | .generate | .read _ => 2
  | .subreaper => 3
  | .seed _ _ => 4
  | .bind _ => 5
  | .bindTools _ => 6
  | .hook _ _ => 7
  | .serve _ _ => 8

/-! ## What each stage refuses -/

section Stages

variable {host : Host} {cli : Cli} {config : Config.PtyConfig} {path listen hash content : Text}
  {tls : Bool} {startupHook : Option Text} {e : Effect} {addr : SocketAddr}
  {tools : Option SocketAddr}

theorem resolveTier_eq_ok {requirement : KillDomainRequirement} {tier : KillDomainTier} :
    resolveTier requirement = .ok tier ↔ requirement = .tier1Allowed := by
  cases requirement with
  | tier1Allowed => exact ⟨fun _ => rfl, fun _ => by cases tier; rfl⟩
  | tier2Required => exact ⟨fun h => (by cases h), fun h => (by cases h)⟩

/-- What the guard lets through. -/
theorem listenerGuard_eq_ok :
    listenerGuard listen hash tls = .ok () ↔
      bindIsLoopback listen = true ∨ hash ≠ [] ∧ tls = true := by
  unfold listenerGuard
  split
  · exact ⟨fun _ => .inl ‹_›, fun _ => rfl⟩
  · split
    · exact ⟨fun h => (by cases h), fun h => h.elim (absurd · ‹_›) fun h => absurd ‹_› h.1⟩
    · cases tls with
      | false => exact ⟨fun h => (by cases h), fun h => h.elim (absurd · ‹_›) fun h => by cases h.2⟩
      | true => exact ⟨fun _ => .inr ⟨‹_›, rfl⟩, fun _ => rfl⟩

/-- The verifier of a validated projection has been parsed already. -/
theorem parseVerifierHash_of_validateProjection
    (h : validateProjection host.config content = .ok config) :
    ∃ digest, parseVerifierHash config.adminCredentialHash = .ok digest := by
  rw [validateProjection, bind_eq_ok] at h
  obtain ⟨pty, -, h⟩ := h
  split at h
  · cases h
  · simp only [bind_eq_ok] at h
    obtain ⟨rawHash, -, _, -, digest, hdigest, pty', -, config', hknobs, _, -, _, -, h⟩ := h
    obtain rfl := Except.ok.inj h
    exact ⟨digest, (readKnobs_eq_ok hknobs).2.2.2.2 ▸ hdigest⟩

/-- No verifier is empty. -/
theorem ne_nil_of_parseVerifierHash {digest : List UInt8}
    (h : parseVerifierHash hash = .ok digest) : hash ≠ [] := by
  rintro rfl
  cases h

/-- A validated projection asks for its tools on a loopback address or not at all. -/
theorem toolsListen_of_validateProjection
    (h : validateProjection host.config content = .ok config) :
    config.toolsListen = [] ∨ bindIsLoopback config.toolsListen = true := by
  rw [validateProjection, bind_eq_ok] at h
  obtain ⟨pty, -, h⟩ := h
  split at h
  · cases h
  · simp only [bind_eq_ok] at h
    obtain ⟨rawHash, -, _, -, _, -, pty', -, config', -, _, hlifecycle, _, -, h⟩ := h
    obtain rfl := Except.ok.inj h
    simp only [validateLifecycle, bind_eq_ok, ensure_eq_ok] at hlifecycle
    obtain ⟨_, -, _, -, _, -, _, -, _, -, _, -, htools⟩ := hlifecycle
    simpa using htools

theorem result_barrier :
    (∃ status, (establishTransientSecretBarrier host).result = .ok status) ↔ Contained host := by
  unfold establishTransientSecretBarrier Contained
  cases host.linux with
  | false => exact ⟨fun _ h => (by cases h), fun _ => ⟨_, rfl⟩⟩
  | true =>
    simp only [if_true, Journal.result_bind_eq_ok, Journal.result_act, Except.mapError_eq_ok,
      Journal.result_pure, forall_const]
    split
    · exact ⟨fun ⟨_, _, hset, _⟩ => ⟨hset, ‹_›⟩, fun h => ⟨_, (), h.1, (), rfl, rfl⟩⟩
    · refine ⟨fun ⟨_, _, _, _, hget, _⟩ => ?_, fun h => absurd h.2 ‹_›⟩
      split at hget <;> cases hget

theorem mem_barrier :
    e ∈ (establishTransientSecretBarrier host).effects ↔
      host.linux = true ∧
        (e = .setDumpable ∨ host.setDumpable = .ok () ∧ e = .getDumpable) := by
  unfold establishTransientSecretBarrier
  cases host.linux with
  | false => exact ⟨fun h => absurd h List.not_mem_nil, fun h => by cases h.1⟩
  | true =>
    simp [Journal.mem_effects_bind, Except.mapError_eq_ok, Unique.exists_iff]

theorem result_validateProjectionFile :
    (validateProjectionFile host path).result = .ok config ↔ Delivered host config path := by
  simp only [validateProjectionFile, Delivered, Journal.result_bind_eq_ok, Journal.result_act,
    Journal.result_check, ofIo, ofError, Except.mapError_eq_ok]

theorem mem_validateProjectionFile :
    e ∈ (validateProjectionFile host path).effects ↔ e = .read path := by
  simp [validateProjectionFile, Journal.mem_effects_bind]

/-- What the validator passes. -/
theorem result_validateOnly :
    (validateOnly host path).result = .ok () ↔
      ∃ config, Delivered host config path ∧
        config.killDomainRequirement = .tier1Allowed := by
  simp only [validateOnly, Journal.result_bind_eq_ok, result_validateProjectionFile,
    Journal.result_check, Journal.result_pure, ofError, Except.mapError_eq_ok, resolveTier_eq_ok]
  exact ⟨fun ⟨config, hread, _, htier, _⟩ => ⟨config, hread, htier⟩,
    fun ⟨config, hread, htier⟩ => ⟨config, hread, .tier1BestEffortProcessGroup, htier, trivial⟩⟩

theorem mem_validateOnly : e ∈ (validateOnly host path).effects ↔ e = .read path := by
  simp [validateOnly, Journal.mem_effects_bind, mem_validateProjectionFile]

theorem result_seed :
    (seed host config).result = .ok () ↔ (config.seedDir ≠ [] → ∃ archives,
      host.applyDir config.seedDir
        ((host.config.var "HOME".toList).getD "/workspace".toList) = .ok archives) := by
  unfold seed
  split
  · simp only [Journal.result_bind_eq_ok, Journal.result_act, withContext, Except.mapError_eq_ok,
      Journal.result_pure]
    exact ⟨fun ⟨archives, h, _⟩ _ => ⟨archives, h⟩, fun h => (h ‹_›).imp fun _ h => ⟨h, trivial⟩⟩
  · exact ⟨fun _ h => absurd h ‹_›, fun _ => rfl⟩

theorem mem_seed :
    e ∈ (seed host config).effects ↔ config.seedDir ≠ [] ∧ e = .seed config.seedDir
      ((host.config.var "HOME".toList).getD "/workspace".toList) := by
  unfold seed
  split <;> simp_all [Journal.mem_effects_bind]

theorem result_bind :
    (bind host listen hash tls).result = .ok () ↔
      listenerGuard listen hash tls = .ok () ∧ host.bind listen = .ok () := by
  simp only [bind, Journal.result_bind_eq_ok, Journal.result_check, Journal.result_act, ofIo,
    Except.mapError_eq_ok]
  exact ⟨fun ⟨_, hguard, hbind⟩ => ⟨hguard, hbind⟩, fun ⟨hguard, hbind⟩ => ⟨(), hguard, hbind⟩⟩

theorem mem_bind :
    e ∈ (bind host listen hash tls).effects ↔
      listenerGuard listen hash tls = .ok () ∧ e = .bind listen := by
  simp [bind, Journal.mem_effects_bind, Except.mapError_eq_ok, Unique.exists_iff]

theorem result_bindTools :
    (bindTools host listen).result = .ok addr ↔
      host.bindTools listen = .ok (.ok addr) ∧ addr.ip.isLoopback = true := by
  simp only [bindTools, Journal.result_bind_eq_ok, Journal.result_act, Journal.result_check, ofIo,
    Except.mapError_eq_ok]
  constructor
  · rintro ⟨localAddr, hbind, addr', rfl, h⟩
    cases hloopback : addr'.ip.isLoopback with
    | false =>
      rw [hloopback] at h
      cases h
    | true =>
      rw [hloopback] at h
      cases Except.ok.inj h
      exact ⟨hbind, hloopback⟩
  · rintro ⟨hbind, hloopback⟩
    refine ⟨.ok addr, hbind, addr, rfl, ?_⟩
    rw [hloopback]
    rfl

theorem mem_bindTools : e ∈ (bindTools host listen).effects ↔ e = .bindTools listen := by
  simp only [bindTools, Journal.mem_effects_bind, Journal.effects_act, Journal.effects_check,
    List.mem_singleton, List.not_mem_nil, false_or]
  refine or_iff_left_of_imp ?_
  rintro ⟨localAddr, -, addr, -, h⟩
  split at h
  · cases h
  · cases h

theorem result_toolsListener :
    (toolsListener host config).result = .ok tools ↔ ToolsBound host config tools := by
  unfold toolsListener
  split
  · exact ⟨fun h => Except.ok.inj h ▸ .off ‹_›, fun h => by cases h <;> [rfl; contradiction]⟩
  · simp only [Journal.result_bind_eq_ok, result_bindTools, Journal.result_pure, Except.ok.injEq]
    constructor
    · rintro ⟨addr, ⟨hbind, hloopback⟩, rfl⟩
      exact .on ‹_› hbind hloopback
    · rintro (h | ⟨-, hbind, hloopback⟩)
      · contradiction
      · exact ⟨_, ⟨hbind, hloopback⟩, rfl⟩

theorem mem_toolsListener :
    e ∈ (toolsListener host config).effects ↔
      config.toolsListen ≠ [] ∧ e = .bindTools config.toolsListen := by
  unfold toolsListener
  split <;> simp_all [Journal.mem_effects_bind, mem_bindTools]

theorem result_runStartupHook : (runStartupHook host startupHook tools).result = .ok () := by
  cases startupHook <;> rfl

theorem mem_runStartupHook :
    e ∈ (runStartupHook host startupHook tools).effects ↔
      ∃ path, startupHook = some path ∧
        e = .hook path (hookEnv host.vars (tools.map host.display)) := by
  cases startupHook <;> simp [runStartupHook]

theorem listenerGuard_of_validateProjection
    (h : validateProjection host.config content = .ok config) :
    listenerGuard config.listen config.adminCredentialHash config.tlsTerminatedUpstream = .ok () ↔
      Guarded config := by
  obtain ⟨digest, hdigest⟩ := parseVerifierHash_of_validateProjection h
  rw [listenerGuard_eq_ok, Guarded, and_iff_right (ne_nil_of_parseVerifierHash hdigest)]

/-- Of a validated projection neither the verifier nor the policy is refused. -/
theorem mem_run (h : validateProjection host.config content = .ok config) :
    e ∈ (run host config startupHook).effects ↔ RunDue host config startupHook e := by
  obtain ⟨digest, hdigest⟩ := parseVerifierHash_of_validateProjection h
  have hpolicy := validate_sessionPolicy (ordered_of_validateProjection h)
  simp only [run, Journal.mem_effects_bind, Journal.effects_act, Journal.effects_check,
    Journal.result_act, Journal.result_check, withContext, ofError, Except.mapError_eq_ok,
    resolveTier_eq_ok, mem_seed, result_seed, mem_bind, result_bind, mem_toolsListener,
    result_toolsListener, mem_runStartupHook, result_runStartupHook, hdigest, hpolicy,
    listenerGuard_of_validateProjection h, List.mem_singleton, List.not_mem_nil, false_or,
    Unique.exists_iff, PUnit.default_eq_unit, true_and]
  constructor
  · rintro (rfl | ⟨_, htier, rfl | ⟨hseed, rfl⟩ | ⟨happlied, _, -, ⟨hguard, rfl⟩ |
      ⟨⟨hguard, hbound⟩, ⟨hlisten, rfl⟩ | ⟨tools, htools, ⟨path, hpath, rfl⟩ | rfl⟩⟩⟩⟩)
    · exact .subreaper
    · exact .subreaper
    · exact .seed htier hseed
    · exact .bind ⟨htier, happlied⟩ hguard
    · exact .bindTools ⟨⟨htier, happlied⟩, hguard, hbound⟩ hlisten
    · exact .hook ⟨⟨htier, happlied⟩, hguard, hbound⟩ htools hpath
    · exact .serve ⟨⟨htier, happlied⟩, hguard, hbound⟩ htools
  · rintro (_ | ⟨htier, hseed⟩ | ⟨hseeded, hguard⟩ | ⟨hbound, hlisten⟩ | ⟨hbound, htools, hpath⟩ |
      ⟨hbound, htools⟩)
    · exact .inl rfl
    · exact .inr ⟨.tier1BestEffortProcessGroup, htier, .inr (.inl ⟨hseed, rfl⟩)⟩
    · exact .inr ⟨.tier1BestEffortProcessGroup, hseeded.tier,
        .inr (.inr ⟨hseeded.applied, digest, rfl, .inl ⟨hguard, rfl⟩⟩)⟩
    all_goals
      refine .inr ⟨.tier1BestEffortProcessGroup, hbound.tier,
        .inr (.inr ⟨hbound.applied, digest, rfl, .inr ⟨⟨hbound.guarded, hbound.bound⟩, ?_⟩⟩)⟩
    · exact .inl ⟨hlisten, rfl⟩
    · exact .inr ⟨_, htools, .inl ⟨_, hpath, rfl⟩⟩
    · exact .inr ⟨_, htools, .inr rfl⟩

/-- The rest of `main` when it is to serve. -/
theorem mem_serving {invalid : List Cause → List Cause} {disabled : List Cause}
    {unbuilt : String → List Cause} :
    e ∈ ((validateProjectionFile host path).mapError invalid >>= fun projection =>
        if !projection.enabled then (.check (.error disabled) : Program Unit)
        else .check (host.buildRuntime.mapError unbuilt) >>= fun _ =>
          run host projection startupHook).effects ↔
      e = .read path ∨ ∃ config, Delivered host config path ∧ config.enabled = true ∧
        host.buildRuntime = .ok () ∧ e ∈ (run host config startupHook).effects := by
  simp only [Journal.mem_effects_bind, Journal.effects_mapError, Journal.result_mapError,
    Except.mapError_eq_ok, mem_validateProjectionFile, result_validateProjectionFile]
  refine or_congr_right (exists_congr fun config => and_congr_right fun _ => ?_)
  cases config.enabled with
  | false => exact ⟨fun h => absurd h List.not_mem_nil, fun h => by cases h.1⟩
  | true =>
    simp [Journal.mem_effects_bind, Except.mapError_eq_ok, Unique.exists_iff]

/-- A boot has an effect exactly when it has come past all that the effect has to wait for. -/
theorem mem_main : e ∈ (main host cli).effects ↔ Due host cli e := by
  simp only [main, Journal.mem_effects_bind, Journal.effects_mapError, Journal.result_mapError,
    Except.mapError_eq_ok, mem_barrier, exists_and_right, result_barrier]
  constructor
  · rintro (⟨hlinux, rfl | ⟨hset, rfl⟩⟩ | ⟨hcontained, h⟩)
    · exact .setDumpable hlinux
    · exact .getDumpable hlinux hset
    · cases hgenerates : cli.generateAdminCredential with
      | true =>
        rw [hgenerates, if_pos rfl, Journal.effects_act, List.mem_singleton] at h
        exact h ▸ .generate hcontained hgenerates
      | false =>
        have hread := Due.read hcontained hgenerates
        rw [hgenerates, if_neg Bool.false_ne_true] at h
        cases hvalidates : cli.validateProjection with
        | some path =>
          rw [hvalidates] at h hread
          exact mem_validateOnly.mp h ▸ hread
        | none =>
          rw [hvalidates] at h hread
          dsimp only at h
          rcases mem_serving.mp h with rfl | ⟨config, hdelivered, henabled, hruntime, hrun⟩
          · exact hread
          · obtain ⟨content, -, hvalid⟩ := id hdelivered
            exact .run ⟨hcontained, hgenerates, hvalidates, hdelivered, henabled, hruntime⟩
              ((mem_run hvalid).mp hrun)
  · rintro (hlinux | ⟨hlinux, hset⟩ | ⟨hcontained, hgenerates⟩ | ⟨hcontained, hgenerates⟩ |
      ⟨hentered, hrun⟩)
    · exact .inl ⟨hlinux, .inl rfl⟩
    · exact .inl ⟨hlinux, .inr ⟨hset, rfl⟩⟩
    · refine .inr ⟨hcontained, ?_⟩
      rw [if_pos hgenerates]
      exact List.mem_singleton_self _
    · refine .inr ⟨hcontained, ?_⟩
      rw [hgenerates, if_neg Bool.false_ne_true]
      cases hvalidates : cli.validateProjection with
      | some path => exact mem_validateOnly.mpr rfl
      | none =>
        dsimp only
        exact mem_serving.mpr (.inl rfl)
    · refine .inr ⟨hentered.contained, ?_⟩
      obtain ⟨content, -, hvalid⟩ := id hentered.delivered
      rw [hentered.generates, if_neg Bool.false_ne_true, hentered.validates]
      exact mem_serving.mpr (.inr ⟨_, hentered.delivered, hentered.enabled, hentered.runtime,
        (mem_run hvalid).mpr hrun⟩)

theorem staged_act {α : Type} {r : Except (List Cause) α} {n : Nat} (h : e.stage = n) :
    (Journal.act e r).Staged Effect.stage n n :=
  .act ⟨h.ge, h.le⟩

theorem staged_barrier : (establishTransientSecretBarrier host).Staged Effect.stage 1 1 := by
  unfold establishTransientSecretBarrier
  split
  · exact .bind (.act ⟨le_rfl, le_rfl⟩) (fun _ => .bind (.act ⟨le_rfl, le_rfl⟩)
      (fun _ => .pure) le_rfl le_rfl le_rfl) le_rfl le_rfl le_rfl
  · exact .pure

theorem staged_validateProjectionFile :
    (validateProjectionFile host path).Staged Effect.stage 2 2 :=
  .bind (staged_act rfl) (fun _ => .check _) le_rfl le_rfl le_rfl

theorem staged_validateOnly : (validateOnly host path).Staged Effect.stage 2 2 :=
  .bind staged_validateProjectionFile (fun _ => .check_bind fun _ => .pure) le_rfl le_rfl le_rfl

theorem staged_seed : (seed host config).Staged Effect.stage 4 4 := by
  unfold seed
  split
  · exact .bind (staged_act rfl) (fun _ => .pure) le_rfl le_rfl le_rfl
  · exact .pure

theorem staged_bind : (bind host listen hash tls).Staged Effect.stage 5 5 :=
  .check_bind fun _ => staged_act rfl

theorem staged_bindTools : (bindTools host listen).Staged Effect.stage 6 6 := by
  refine .bind (staged_act rfl) (fun _ => .check_bind fun addr => ?_) le_rfl le_rfl le_rfl
  dsimp only
  split
  · exact .check _
  · exact .pure

theorem staged_toolsListener : (toolsListener host config).Staged Effect.stage 6 6 := by
  unfold toolsListener
  split
  · exact .pure
  · exact .bind staged_bindTools (fun _ => .pure) le_rfl le_rfl le_rfl

theorem staged_runStartupHook :
    (runStartupHook host startupHook tools).Staged Effect.stage 7 7 := by
  cases startupHook with
  | some _ => exact staged_act rfl
  | none => exact .pure

theorem staged_run : (run host config startupHook).Staged Effect.stage 3 8 := by
  have hsubreaper : (Journal.act .subreaper (.ok ()) : Program Unit).Staged Effect.stage 3 3 :=
    staged_act rfl
  have hhook (tools : Option SocketAddr) : (runStartupHook host startupHook tools >>= fun _ =>
      (.act (.serve config tools) (host.serve.mapError fun cause => [cause]) : Program Unit)).Staged
        Effect.stage 7 8 :=
    .bind staged_runStartupHook (fun _ => staged_act rfl) (by decide) (by decide) (by decide)
  refine .bind hsubreaper (fun _ => .check_bind fun _ => .bind hsubreaper (fun _ =>
    .bind staged_seed (fun _ => .check_bind fun _ => .check_bind fun _ =>
      .bind staged_bind (fun _ => .bind staged_toolsListener hhook ?_ ?_ ?_) ?_ ?_ ?_)
      ?_ ?_ ?_) ?_ ?_ ?_) ?_ ?_ ?_
  all_goals decide

/-- Nothing of a stage is done after anything of a later one. -/
theorem staged_main : (main host cli).Staged Effect.stage 1 8 := by
  have hserving (config : Config.PtyConfig) : (Journal.check (host.buildRuntime.mapError
      fun message => [.text "building the Tokio runtime", .io message]) >>= fun _ =>
        run host config cli.startupHook).Staged Effect.stage 3 8 :=
    .check_bind fun _ => staged_run
  refine .bind (.mapError staged_barrier) (fun _ => ?_) (by decide : 1 ≤ 2) (by decide) (by decide)
  split
  · exact .mono (staged_act rfl) le_rfl (by decide : 2 ≤ 8)
  · split
    · exact .mono staged_validateOnly le_rfl (by decide)
    · refine .bind (.mapError staged_validateProjectionFile) (fun config => ?_)
        (by decide : 2 ≤ 3) (by decide) (by decide)
      split
      · exact .check _
      · exact hserving config

/-- The hook has what a session has, and an address that was bound. -/
theorem of_mem_hookEnv {source : Environ} {v : Text × Text} (htools : ToolsBound host config tools)
    (hv : v ∈ hookEnv source (tools.map host.display)) :
    v ∈ source ∧ allowlisted v.1 = true ∨
      ∃ addr, host.bindTools config.toolsListen = .ok (.ok addr) ∧ addr.ip.isLoopback = true ∧
        v = (toolsListenEnv, host.display addr) := by
  rcases List.mem_append.mp hv with hsource | hlisten
  · exact .inl (List.mem_filter.mp hsource)
  · cases htools with
    | off => exact absurd hlisten List.not_mem_nil
    | on _ hbind hloopback => exact .inr ⟨_, hbind, hloopback, List.mem_singleton.mp hlisten⟩

/-- The boot does nothing to the outside before its time: an effect is there exactly when the boot
has come past all that the effect waits for, and the effects are in the order of their stages. What
the hook is handed is the variables of the allowlist and the loopback address of the tools. -/
theorem boots_in_order :
    (∀ e, e ∈ (main host cli).effects ↔ Due host cli e) ∧
      ((main host cli).effects.Pairwise fun e e' => e.stage ≤ e'.stage) ∧
      ∀ path env, .hook path env ∈ (main host cli).effects → ∀ v ∈ env,
        v ∈ host.vars ∧ allowlisted v.1 = true ∨
          ∃ addr : SocketAddr, addr.ip.isLoopback = true ∧
            v = (toolsListenEnv, host.display addr) := by
  refine ⟨fun _ => mem_main, staged_main.sorted, fun path env he v hv => ?_⟩
  cases mem_main.mp he with
  | run hentered hrun =>
    cases hrun with
    | hook hbound htools hpath =>
      refine (of_mem_hookEnv htools hv).imp_right fun ⟨addr, _, hloopback, hv⟩ => ?_
      exact ⟨addr, hloopback, hv⟩

/-! ## What the validator leaves to the boot -/

/-- Nothing of the host's stands in the way of a boot with this projection: its seed is applied and
its addresses are bound. So they are addresses with a port and not the same twice, which the
validator does not ask for. The tools address, when it names the loopback, resolves to it. -/
structure Willing (host : Host) (config : Config.PtyConfig) : Prop where
  runtime : host.buildRuntime = .ok ()
  applies : config.seedDir ≠ [] → ∃ archives, host.applyDir config.seedDir
    ((host.config.var "HOME".toList).getD "/workspace".toList) = .ok archives
  binds : host.bind config.listen = .ok ()
  bindsTools : config.toolsListen ≠ [] → ∃ addr,
    host.bindTools config.toolsListen = .ok (.ok addr) ∧
      (bindIsLoopback config.toolsListen = true → addr.ip.isLoopback = true)

theorem Delivered.unique {config' : Config.PtyConfig} (h : Delivered host config path)
    (h' : Delivered host config' path) : config = config' := by
  obtain ⟨content, hread, hvalid⟩ := h
  obtain ⟨content', hread', hvalid'⟩ := h'
  cases Except.ok.inj (hread.symm.trans hread')
  exact Except.ok.inj (hvalid.symm.trans hvalid')

/-- Behind the barrier the binary that is to validate does nothing else. -/
theorem result_main_validate (hcontained : Contained host)
    (hgenerates : cli.generateAdminCredential = false) :
    (main host { cli with validateProjection := some path }).result =
      (validateOnly host path).result := by
  obtain ⟨status, hbarrier⟩ := result_barrier.mpr hcontained
  rw [main, Journal.bind_of_ok (Except.mapError_eq_ok.mpr hbarrier), hgenerates]
  rfl

theorem Willing.toolsBound (h : Willing host config) (hdelivered : Delivered host config path) :
    ∃ tools, ToolsBound host config tools := by
  obtain ⟨content, -, hvalid⟩ := hdelivered
  by_cases hlisten : config.toolsListen = []
  · exact ⟨none, .off hlisten⟩
  · obtain ⟨addr, hbind, hloopback⟩ := h.bindsTools hlisten
    exact ⟨some addr, .on hlisten hbind
      (hloopback ((toolsListen_of_validateProjection hvalid).resolve_left hlisten))⟩

/-- On a host that is willing to boot with it, a projection that the validator passes is served
unless it is not enabled or the guard refuses its address; these two the validator does not look
at. -/
theorem serves_iff_validateOnly (hcontained : Contained host)
    (hwilling : ∀ config, Delivered host config cli.config → Willing host config)
    (hgenerates : cli.generateAdminCredential = false)
    (hvalidates : cli.validateProjection = none) :
    (∃ config tools, .serve config tools ∈ (main host cli).effects) ↔
      (main host { cli with validateProjection := some cli.config }).result = .ok () ∧
        ∃ config, Delivered host config cli.config ∧ config.enabled = true ∧ Guarded config := by
  rw [result_main_validate hcontained hgenerates, result_validateOnly]
  constructor
  · rintro ⟨config, tools, he⟩
    cases mem_main.mp he with
    | run hentered hrun =>
      cases hrun with
      | serve hbound htools =>
        exact ⟨⟨_, hentered.delivered, hbound.tier⟩, _, hentered.delivered, hentered.enabled,
          hbound.guarded⟩
  · rintro ⟨⟨config', hdelivered', htier⟩, config, hdelivered, henabled, hguarded⟩
    rw [hdelivered'.unique hdelivered] at htier
    have hhost := hwilling config hdelivered
    obtain ⟨tools, htools⟩ := hhost.toolsBound hdelivered
    exact ⟨config, tools, mem_main.mpr (.run
      ⟨hcontained, hgenerates, hvalidates, hdelivered, henabled, hhost.runtime⟩
      (.serve ⟨⟨htier, hhost.applies⟩, hguarded, hhost.binds⟩ htools))⟩

/-- A projection that listens on loopback addresses and has a seed. -/
def willingText : Text :=
  ("[pty]\nadmin_credential_hash = \"sha256:" ++
    "0000000000000000000000000000000000000000000000000000000000000000\"\n" ++
    "enabled = true\nlisten = \"127.0.0.1:8090\"\nseed_dir = \"/seed\"\n" ++
    "tools_listen = \"localhost:8091\"\n").toList

/-- A host with this projection, a seed of one archive and both ports free. -/
def willingHost : Host where
  config := {
    fromStr := fun text => if text = willingText then .ok (.table [("pty", .table
        [("admin_credential_hash", .string ("sha256:".toList ++ List.replicate 64 '0')),
          ("enabled", .boolean true), ("listen", .string "127.0.0.1:8090".toList),
          ("seed_dir", .string "/seed".toList),
          ("tools_listen", .string "localhost:8091".toList)])])
      else .error "expected `=`"
    var := fun _ => none
    debug := fun s => "\"" ++ s ++ "\"" }
  linux := true
  setDumpable := .ok ()
  dumpable := 0
  osError := ""
  readToString path :=
    if path = "/etc/openab-pty/config.toml".toList then .ok willingText
    else .error "No such file or directory (os error 2)"
  buildRuntime := .ok ()
  applyDir dir home :=
    if dir = "/seed".toList ∧ home = "/workspace".toList then .ok ["agent.tar.gz".toList]
    else .ok []
  bind addr :=
    if addr = "127.0.0.1:8090".toList then .ok () else .error "invalid socket address"
  bindTools addr :=
    if addr = "localhost:8091".toList then .ok (.ok { ip := .v4 0x7f000001#32, port := 8091 })
    else .error "invalid socket address"
  display _ := "127.0.0.1:8091".toList
  vars := []
  serve := .ok ()

/-- What the projection says. -/
def willingConfig : Config.PtyConfig where
  enabled := true
  listen := "127.0.0.1:8090".toList
  tlsTerminatedUpstream := true
  command := "/bin/bash".toList
  maxSessions := 4
  absoluteSessionTtl := 12 * 60 * 60
  attachTokenTtl := 15 * 60
  detachedIdleTtl := 30 * 60
  scrollbackKib := 1024
  scrollbackReplay := false
  filterTerminalResponses := true
  adminCredentialHash := "sha256:".toList ++ List.replicate 64 '0'
  killDomainRequirement := .tier1Allowed
  seedDir := "/seed".toList
  toolsListen := "localhost:8091".toList
  toolsAttachTtl := 24 * 60 * 60

theorem willing_willingHost : Willing willingHost willingConfig where
  runtime := rfl
  applies _ := ⟨_, rfl⟩
  binds := rfl
  bindsTools _ := ⟨_, rfl, fun _ => by decide⟩

theorem serves_willingHost :
    ∃ config tools, .serve config tools ∈ (main willingHost
      { config := "/etc/openab-pty/config.toml".toList, validateProjection := none,
        generateAdminCredential := false, startupHook := none }).effects := by
  have hdelivered : Delivered willingHost willingConfig "/etc/openab-pty/config.toml".toList :=
    ⟨willingText, rfl, by decide +kernel⟩
  have hcontained : Contained willingHost := fun _ => ⟨rfl, rfl⟩
  refine (serves_iff_validateOnly hcontained ?_ rfl rfl).mpr
    ⟨?_, willingConfig, hdelivered, rfl, .inl (by decide)⟩
  · intro config hconfig
    rw [hconfig.unique hdelivered]
    exact willing_willingHost
  · rw [result_main_validate hcontained rfl, result_validateOnly]
    exact ⟨willingConfig, hdelivered, rfl⟩

end Stages

end Boot

end OpenabPty
