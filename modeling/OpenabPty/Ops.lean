import OpenabPty.Manager

/-!
# The operations of the manager (`session.rs`)

`create`, `restart_in_place`, `renew`, `kill`, `tick`, `shutdown` and what the end of a PTY
stream starts, cut at their critical sections and awaits. `Op` is what one call still has to
do and `Op.step` its next section. Between two sections every other task may run; the kill of
a process tree is such a gap, between the close of the client and the clear of the buffer.
-/

namespace OpenabPty

/-- What the environment returns to a step. -/
structure Choice where
  /-- `KillDomain::open_session` and `PtySpawner::spawn`. -/
  spawned : Except Error Unit := .ok ()
  /-- The OS RNG. -/
  raw : Option (List UInt8) := some []

/-- Who asked for a spawn: `create`, or a restart that read generation `base`. -/
inductive Origin where
  | create
  | restart (base : Generation)
  deriving DecidableEq

/-- The generation `create` and `restart_in_place` pass to `spawn_session`. -/
def Origin.generation : Origin → Generation
  | .create => ⟨1⟩
  | .restart base => base.succ

/-- The arguments of `spawn_session`. -/
structure Spawn where
  name : SessionName
  size : WindowSize
  origin : Origin
  deriving DecidableEq

def Spawn.generation (sp : Spawn) : Generation := sp.origin.generation

/-- `SessionCredential`, and the session it was issued for. -/
structure Issued where
  sid : Sid
  session : SessionName
  generation : Generation
  token : MintedAttachToken
  deriving DecidableEq

/-- `TeardownReport`, without the outcome of the kill domain. -/
structure TeardownReport where
  session : SessionName
  generation : Generation
  cls : TerminationClass
  closeCode : Nat
  deriving DecidableEq

/-- `TtlAction`. -/
inductive TtlAction where
  | warned (session : SessionName) (absolute : Bool)
  | expired (session : SessionName) (absolute : Bool)
  deriving DecidableEq

/-- Where `tick` is in its loop. -/
structure TickLoop where
  now : Instant
  rest : List Sid
  actions : List TtlAction
  deriving DecidableEq

/-- Where `shutdown` is in its loop. -/
structure ShutdownLoop where
  rest : List Sid
  reports : List TeardownReport
  deriving DecidableEq

/-- Who called `teardown`. -/
inductive Caller where
  | restart (base : Generation)
  | kill
  | selfExit
  | tick (loop : TickLoop) (absolute : Bool)
  | shutdown (loop : ShutdownLoop)
  | displaced
  deriving DecidableEq

/-- The arguments of `teardown`, with the name its caller works on. -/
structure Teardown where
  name : SessionName
  sid : Sid
  cls : TerminationClass
  code : Nat
  caller : Caller
  deriving DecidableEq

/-- What a finished operation returned. -/
inductive Reply where
  | issued (issued : Issued)
  | report (report : TeardownReport)
  | ticked (actions : List TtlAction)
  | shutdown (reports : List TeardownReport)
  | error (error : Error)
  | draining
  | done
  deriving DecidableEq

/-- What one call of an operation still has to do. -/
inductive Op where
  -- `admin_create`, `spawn_session`
  | adminCreate (name : SessionName) (size : WindowSize)
  | claimName (sp : Spawn)
  | spawn (sp : Spawn)
  | mint (sp : Spawn) (sid : Sid)
  | publish (sp : Spawn) (sid : Sid) (token : MintedAttachToken)
  | dropClaim (name : SessionName) (reply : Reply)
  -- `restart_in_place`
  | restartGet (name : SessionName)
  | restartGeneration (name : SessionName) (sid : Sid)
  | restartIsAlive (name : SessionName) (sid : Sid) (base : Generation)
  | restartForget (name : SessionName) (base : Generation)
  | restartTombstone (name : SessionName)
  -- `teardown` and what its callers do after it
  | teardownLock (td : Teardown)
  | teardownRevoke (td : Teardown) (report : TeardownReport) (subscriber : Option ConnGeneration)
  | teardownClose (td : Teardown) (report : TeardownReport) (subscriber : Option ConnGeneration)
  | teardownClear (td : Teardown) (report : TeardownReport)
  | forget (td : Teardown) (report : TeardownReport)
  | deadGeneration (td : Teardown) (report : TeardownReport)
  | rememberDead (td : Teardown) (report : TeardownReport) (generation : Generation)
  -- `kill`, `handle_self_exit`
  | killGet (name : SessionName)
  | streamEnded (sid : Sid)
  | selfExitGet (name : SessionName)
  | selfExitIsAlive (name : SessionName) (sid : Sid)
  -- `renew`
  | renewGet (name : SessionName)
  | renewIsAlive (name : SessionName) (sid : Sid)
  | renewLock (name : SessionName) (sid : Sid)
  | renewClose (name : SessionName) (sid : Sid) (generation : Generation)
      (subscriber : Option ConnGeneration)
  | renewMint (name : SessionName) (sid : Sid) (generation : Generation)
  -- `tick`
  | tick
  | tickSnapshot (now : Instant)
  | tickNext (loop : TickLoop)
  | tickWarn (loop : TickLoop) (sid : Sid) (name : SessionName) (absolute : Bool) (seconds : Nat)
  | tickPush (loop : TickLoop) (sid : Sid) (name : SessionName) (absolute : Bool) (seconds : Nat)
      (subscriber : Option ConnGeneration)
  -- the drain: `begin_drain`, `notify_shutdown`, `shutdown`
  | beginDrain (grace : Duration)
  | notifySnapshot (grace : Duration)
  | notifyNext (grace : Duration) (rest : List Sid)
  | notifyPush (grace : Duration) (rest : List Sid) (sid : Sid)
      (subscriber : Option ConnGeneration)
  | shutdownSnapshot
  | shutdownNext (loop : ShutdownLoop)
  | returned (reply : Reply)
  deriving DecidableEq

namespace Op

/-- `push_control` on the `Outbound` a subscriber lookup returned, if any. -/
def pushControl (sh : Shared) (sid : Sid) (subscriber : Option ConnGeneration)
    (event : ControlEvent) : Shared :=
  match subscriber with
  | some conn => sh.modify sid fun s => s.onOutbound conn (·.pushControl event)
  | none => sh

/-- `close` on the `Outbound` that was taken out of the subscriber slot, if any. -/
def closeOutbound (sh : Shared) (sid : Sid) (subscriber : Option ConnGeneration) (code : Nat) :
    Shared :=
  match subscriber with
  | some conn => sh.modify sid fun s => s.onOutbound conn (·.close code)
  | none => sh

/-- What the caller does when `teardown` returns. -/
def afterTeardown (td : Teardown) (report : TeardownReport) : Op :=
  match td.caller with
  | .restart base => .restartForget td.name base
  | .displaced => .returned .done
  | _ => .forget td report

/-- What the caller does when `forget` returns. -/
def afterForget (td : Teardown) (report : TeardownReport) : Op :=
  match td.caller with
  | .selfExit => .rememberDead td report report.generation
  | .shutdown loop => .shutdownNext { loop with reports := loop.reports ++ [report] }
  | _ => .deadGeneration td report

/-- What the caller does when `remember_dead` returns. -/
def afterRememberDead (td : Teardown) (report : TeardownReport) : Op :=
  match td.caller with
  | .kill => .returned (.report report)
  | .tick loop absolute =>
    .tickNext { loop with actions := loop.actions ++ [.expired td.name absolute] }
  | _ => .returned .done

/-- The next critical section of an operation: the shared state after it, what is left of the
operation, and the sessions and operations it started. -/
def step (env : Env) (sh : Shared) (c : Choice) : Op → Option (Shared × Op × List Op × List Sid)
  | .adminCreate name size =>
    if sh.draining then some (sh, .returned .draining, [], [])
    else some (sh, .claimName { name := name, size := size, origin := .create }, [], [])
  | .claimName sp =>
    match sh.claimName env.config.maxSessions sp.name with
    | (sh, .error error) => some (sh, .returned (.error error), [], [])
    | (sh, .ok ()) => some (sh, .spawn sp, [], [])
  | .spawn sp =>
    match c.spawned with
    | .error error => some (sh, .dropClaim sp.name (.error error), [], [])
    | .ok () =>
      let allocated := sh.allocate env sp.name sp.generation sp.size
      some (allocated.1, .mint sp allocated.2, [], [allocated.2])
  | .mint sp sid =>
    match sh.tokens.mintForSession env.sha256 env.config.attachTokenTtl sp.name sp.generation
        c.raw sh.now with
    | (_, .error error) => some (sh, .dropClaim sp.name (.error error), [], [])
    | (tokens, .ok minted) =>
      some (({ sh with tokens := tokens }).note (.minted sp.name sid (minted.stored env.sha256)),
        .publish sp sid minted, [], [])
  | .publish sp sid token =>
    let published := sh.publish sp.name sid
    -- A displaced session is torn down by a task of its own.
    let displaced := published.2.toList.map fun old =>
      Op.teardownLock { name := sp.name, sid := old, cls := .runtimeShutdown,
                        code := CloseCode.runtimeReplaced, caller := .displaced }
    some (published.1.note (.published sp.name sid sp.generation),
      .dropClaim sp.name (.issued { sid := sid, session := sp.name, generation := sp.generation,
                                    token := token }), displaced, [])
  | .dropClaim name reply => some (sh.dropClaim name, .returned reply, [], [])
  | .restartGet name =>
    match sh.sessions[name]? with
    | some sid => some (sh, .restartGeneration name sid, [], [])
    | none => some (sh, .restartTombstone name, [], [])
  | .restartGeneration name sid =>
    sh.heap[sid]?.map fun s => (sh, .restartIsAlive name sid s.state.generation, [], [])
  | .restartIsAlive name sid base =>
    if sh.isAlive sid then
      some (sh, .teardownLock { name := name, sid := sid, cls := .adminKill,
                                code := CloseCode.sessionEnded, caller := .restart base }, [], [])
    else some (sh, .restartForget name base, [], [])
  | .restartForget name base =>
    some (sh.forget name,
      .claimName { name := name, size := .default, origin := .restart base }, [], [])
  | .restartTombstone name =>
    match sh.takeTombstone name with
    | (sh, some dead) =>
      some (sh, .claimName { name := name, size := .default, origin := .restart dead.generation },
        [], [])
    | (sh, none) => some (sh, .returned (.error (.notFound name)), [], [])
  | .teardownLock td =>
    sh.heap[td.sid]?.map fun s =>
      let locked := s.teardownLocked td.cls
      let report := { session := s.name, generation := locked.2.1, cls := td.cls,
                      closeCode := td.code }
      (sh.modify td.sid fun s => (s.teardownLocked td.cls).1,
       if locked.2.2.2 then .teardownClose td report locked.2.2.1
       else .teardownRevoke td report locked.2.2.1, [], [])
  | .teardownRevoke td report subscriber =>
    some ({ sh with tokens := sh.tokens.revokeSession report.session },
      .teardownClose td report subscriber, [], [])
  | .teardownClose td report subscriber =>
    some (closeOutbound sh td.sid subscriber td.code, .teardownClear td report, [], [])
  | .teardownClear td report =>
    some ((sh.modify td.sid Session.clearBuffer).note (.cleared td.sid), afterTeardown td report,
      [], [])
  | .forget td report => some (sh.forget td.name, afterForget td report, [], [])
  | .deadGeneration td report =>
    sh.heap[td.sid]?.map fun s => (sh, .rememberDead td report s.state.generation, [], [])
  | .rememberDead td report generation =>
    some (sh.rememberDead td.name generation td.cls, afterRememberDead td report, [], [])
  | .killGet name =>
    match sh.sessions[name]? with
    | some sid =>
      some (sh, .teardownLock { name := name, sid := sid, cls := .adminKill,
                                code := CloseCode.adminKill, caller := .kill }, [], [])
    | none => some (sh, .returned (.error (.notFound name)), [], [])
  | .streamEnded sid =>
    sh.heap[sid]?.map fun s =>
      if s.io.alive then (sh, .selfExitGet s.name, [], []) else (sh, .returned .done, [], [])
  | .selfExitGet name =>
    match sh.sessions[name]? with
    | some sid => some (sh, .selfExitIsAlive name sid, [], [])
    | none => some (sh, .returned .done, [], [])
  | .selfExitIsAlive name sid =>
    if sh.isAlive sid then
      some (sh, .teardownLock { name := name, sid := sid, cls := .selfExit,
                                code := CloseCode.sessionEnded, caller := .selfExit }, [], [])
    else some (sh, .returned .done, [], [])
  | .renewGet name =>
    match sh.sessions[name]? with
    | some sid => some (sh, .renewIsAlive name sid, [], [])
    | none => some (sh, .returned (.error (.notFound name)), [], [])
  | .renewIsAlive name sid =>
    if sh.isAlive sid then some (sh, .renewLock name sid, [], [])
    else some (sh, .returned (.error (.sessionDead name)), [], [])
  | .renewLock name sid =>
    sh.heap[sid]?.map fun s =>
      let locked := s.renewLocked
      -- `revoke_session` is nested in the session lock.
      (({ sh.modify sid (fun s => s.renewLocked.1) with
            tokens := sh.tokens.revokeSession name }).note (.renewed name sid locked.2.1),
       .renewClose name sid locked.2.1 locked.2.2, [], [])
  | .renewClose name sid generation subscriber =>
    some (closeOutbound sh sid subscriber CloseCode.renewed, .renewMint name sid generation, [], [])
  | .renewMint name sid generation =>
    match sh.tokens.mintForSession env.sha256 env.config.attachTokenTtl name generation
        c.raw sh.now with
    | (_, .error error) => some (sh, .returned (.error error), [], [])
    | (tokens, .ok minted) =>
      some ((({ sh with tokens := tokens }).note
          (.minted name sid (minted.stored env.sha256))).note (.renewReturned sid (sh.isAlive sid)),
        .returned (.issued { sid := sid, session := name, generation := generation,
                             token := minted }), [], [])
  | .tick => some (sh, .tickSnapshot sh.now, [], [])
  | .tickSnapshot now =>
    some (sh, .tickNext { now := now, rest := sh.sessionValues, actions := [] }, [], [])
  | .tickNext { rest := [], actions := actions, .. } =>
    some (sh, .returned (.ticked actions), [], [])
  | .tickNext { now := now, rest := sid :: rest, actions := actions } =>
    let loop := { now := now, rest := rest, actions := actions }
    sh.heap[sid]?.map fun s =>
      (sh.modify sid fun s => (s.tickLocked env.policy now).1,
       match (s.tickLocked env.policy now).2 with
       | none => .tickNext loop
       | some (.warn absolute seconds) => .tickWarn loop sid s.name absolute seconds
       | some (.expire absolute) =>
         .teardownLock { name := s.name, sid := sid, cls := .ttlExpired,
                         code := CloseCode.ttlExpired, caller := .tick loop absolute }, [], [])
  | .tickWarn loop sid name absolute seconds =>
    sh.heap[sid]?.map fun s =>
      (sh, .tickPush loop sid name absolute seconds s.io.subscriber, [], [])
  | .tickPush loop sid name absolute seconds subscriber =>
    some (pushControl sh sid subscriber (.ttlWarning seconds absolute),
      .tickNext { loop with actions := loop.actions ++ [.warned name absolute] }, [], [])
  | .beginDrain grace => some ({ sh with draining := true }, .notifySnapshot grace, [], [])
  | .notifySnapshot grace => some (sh, .notifyNext grace sh.sessionValues, [], [])
  | .notifyNext _ [] => some (sh, .shutdownSnapshot, [], [])
  | .notifyNext grace (sid :: rest) =>
    sh.heap[sid]?.map fun s => (sh, .notifyPush grace rest sid s.io.subscriber, [], [])
  | .notifyPush grace rest sid subscriber =>
    some (pushControl sh sid subscriber (.shuttingDown (Duration.asSecs grace) true),
      .notifyNext grace rest, [], [])
  | .shutdownSnapshot =>
    some (sh, .shutdownNext { rest := sh.sessionValues, reports := [] }, [], [])
  | .shutdownNext { rest := [], reports := reports } =>
    some (sh, .returned (.shutdown reports), [], [])
  | .shutdownNext { rest := sid :: rest, reports := reports } =>
    sh.heap[sid]?.map fun s =>
      (sh, .teardownLock { name := s.name, sid := sid, cls := .runtimeShutdown,
                           code := CloseCode.runtimeReplaced,
                           caller := .shutdown { rest := rest, reports := reports } }, [], [])
  | .returned _ => none

/-- The calls an administrator, the timer or the end of a PTY stream may make. -/
def entry : Op → Bool
  | .adminCreate .. | .restartGet _ | .killGet _ | .renewGet _ | .tick | .beginDrain _
  | .shutdownSnapshot => true
  | .claimName sp => sp.origin = .create
  | _ => false

end Op

end OpenabPty
