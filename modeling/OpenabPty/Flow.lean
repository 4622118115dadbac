import OpenabPty.Ops

/-!
# Where an operation goes

The control flow of `Op.step`, taken apart once. `Op.Goes` has a constructor for each way a
section can leave an operation, with what it read to get there, and `Op.flow_step` says that
there is no other way; what a section does to the shared state is not its subject. A fact
about what an operation still has to do is then a case analysis of `Op.Goes`, under the names
of the branches.
-/

namespace OpenabPty

/-- The way of an operation from one section to the next. -/
inductive Op.Goes (env : Env) (sh : Shared) : Op → Op → Prop where
  -- `admin_create`, `spawn_session`
  | createDraining (name : SessionName) (size : WindowSize) (hdrain : sh.draining = true) :
      Goes env sh (.adminCreate name size) (.returned .draining)
  | create (name : SessionName) (size : WindowSize) (hdrain : sh.draining = false) :
      Goes env sh (.adminCreate name size)
        (.claimName { name := name, size := size, origin := .create })
  | claimRefused (sp : Spawn) (error : Error)
      (hclaim : (sh.claimName env.config.maxSessions sp.name).2 = .error error) :
      Goes env sh (.claimName sp) (.returned (.error error))
  | claimed (sp : Spawn) (hclaim : (sh.claimName env.config.maxSessions sp.name).2 = .ok ()) :
      Goes env sh (.claimName sp) (.spawn sp)
  | spawnFailed (sp : Spawn) (error : Error) :
      Goes env sh (.spawn sp) (.dropClaim sp.name (.error error))
  | spawned (sp : Spawn) : Goes env sh (.spawn sp) (.mint sp sh.heap.length)
  | mintFailed (sp : Spawn) (sid : Sid) (error : Error) :
      Goes env sh (.mint sp sid) (.dropClaim sp.name (.error error))
  | minted (sp : Spawn) (sid : Sid) (token : MintedAttachToken) :
      Goes env sh (.mint sp sid) (.publish sp sid token)
  | published (sp : Spawn) (sid : Sid) (token : MintedAttachToken) :
      Goes env sh (.publish sp sid token)
        (.dropClaim sp.name (.issued { sid := sid, session := sp.name, generation := sp.generation,
                                       token := token }))
  | claimDropped (name : SessionName) (reply : Reply) :
      Goes env sh (.dropClaim name reply) (.returned reply)
  -- `restart_in_place`
  | restart (name : SessionName) (sid : Sid) (hm : sh.sessions[name]? = some sid) :
      Goes env sh (.restartGet name) (.restartGeneration name sid)
  | restartAbsent (name : SessionName) (hm : sh.sessions[name]? = none) :
      Goes env sh (.restartGet name) (.restartTombstone name)
  | restartGeneration (name : SessionName) (sid : Sid) (s : Session)
      (hs : sh.heap[sid]? = some s) :
      Goes env sh (.restartGeneration name sid) (.restartIsAlive name sid s.state.generation)
  | restartAlive (name : SessionName) (sid : Sid) (base : Generation)
      (halive : sh.isAlive sid = true) :
      Goes env sh (.restartIsAlive name sid base)
        (.teardownLock { name := name, sid := sid, cls := .adminKill,
                         code := CloseCode.sessionEnded, caller := .restart base })
  | restartDead (name : SessionName) (sid : Sid) (base : Generation)
      (halive : sh.isAlive sid = false) :
      Goes env sh (.restartIsAlive name sid base) (.restartForget name base)
  | restartForgotten (name : SessionName) (base : Generation) :
      Goes env sh (.restartForget name base)
        (.claimName { name := name, size := .default, origin := .restart base })
  | tombstoneTaken (name : SessionName) (dead : Tombstone)
      (htake : (sh.takeTombstone name).2 = some dead) :
      Goes env sh (.restartTombstone name)
        (.claimName { name := name, size := .default, origin := .restart dead.generation })
  | tombstoneAbsent (name : SessionName) (htake : (sh.takeTombstone name).2 = none) :
      Goes env sh (.restartTombstone name) (.returned (.error (.notFound name)))
  -- `teardown` and what its callers do after it
  | markedDead (td : Teardown) (s : Session) (hs : sh.heap[td.sid]? = some s)
      (halive : s.state.alive = true) :
      Goes env sh (.teardownLock td)
        (.teardownRevoke td { session := s.name, generation := s.state.generation, cls := td.cls,
                              closeCode := td.code } s.io.subscriber)
  | deadAlready (td : Teardown) (s : Session) (hs : sh.heap[td.sid]? = some s)
      (halive : s.state.alive = false) :
      Goes env sh (.teardownLock td)
        (.teardownClose td { session := s.name, generation := s.state.generation, cls := td.cls,
                             closeCode := td.code } s.io.subscriber)
  | revoked (td : Teardown) (report : TeardownReport) (subscriber : Option ConnGeneration) :
      Goes env sh (.teardownRevoke td report subscriber) (.teardownClose td report subscriber)
  | closed (td : Teardown) (report : TeardownReport) (subscriber : Option ConnGeneration) :
      Goes env sh (.teardownClose td report subscriber) (.teardownClear td report)
  | tornForRestart (td : Teardown) (report : TeardownReport) (base : Generation)
      (hcaller : td.caller = .restart base) :
      Goes env sh (.teardownClear td report) (.restartForget td.name base)
  | tornDisplaced (td : Teardown) (report : TeardownReport) (hcaller : td.caller = .displaced) :
      Goes env sh (.teardownClear td report) (.returned .done)
  | torn (td : Teardown) (report : TeardownReport)
      (hrestart : ∀ base, td.caller ≠ .restart base) (hdisplaced : td.caller ≠ .displaced) :
      Goes env sh (.teardownClear td report) (.forget td report)
  | forgottenBySelfExit (td : Teardown) (report : TeardownReport)
      (hcaller : td.caller = .selfExit) :
      Goes env sh (.forget td report) (.rememberDead td report report.generation)
  | forgottenByShutdown (td : Teardown) (report : TeardownReport) (loop : ShutdownLoop)
      (hcaller : td.caller = .shutdown loop) :
      Goes env sh (.forget td report)
        (.shutdownNext { loop with reports := loop.reports ++ [report] })
  | forgotten (td : Teardown) (report : TeardownReport) (hselfExit : td.caller ≠ .selfExit)
      (hshutdown : ∀ loop, td.caller ≠ .shutdown loop) :
      Goes env sh (.forget td report) (.deadGeneration td report)
  | deadGeneration (td : Teardown) (report : TeardownReport) (s : Session)
      (hs : sh.heap[td.sid]? = some s) :
      Goes env sh (.deadGeneration td report) (.rememberDead td report s.state.generation)
  | rememberedByKill (td : Teardown) (report : TeardownReport) (generation : Generation)
      (hcaller : td.caller = .kill) :
      Goes env sh (.rememberDead td report generation) (.returned (.report report))
  | rememberedByTick (td : Teardown) (report : TeardownReport) (generation : Generation)
      (loop : TickLoop) (absolute : Bool) (hcaller : td.caller = .tick loop absolute) :
      Goes env sh (.rememberDead td report generation)
        (.tickNext { loop with actions := loop.actions ++ [.expired td.name absolute] })
  | remembered (td : Teardown) (report : TeardownReport) (generation : Generation)
      (hkill : td.caller ≠ .kill) (htick : ∀ loop absolute, td.caller ≠ .tick loop absolute) :
      Goes env sh (.rememberDead td report generation) (.returned .done)
  -- `kill`, `handle_self_exit`
  | kill (name : SessionName) (sid : Sid) (hm : sh.sessions[name]? = some sid) :
      Goes env sh (.killGet name)
        (.teardownLock { name := name, sid := sid, cls := .adminKill, code := CloseCode.adminKill,
                         caller := .kill })
  | killAbsent (name : SessionName) (hm : sh.sessions[name]? = none) :
      Goes env sh (.killGet name) (.returned (.error (.notFound name)))
  | streamEnded (sid : Sid) (s : Session) (hs : sh.heap[sid]? = some s)
      (halive : s.io.alive = true) :
      Goes env sh (.streamEnded sid) (.selfExitGet s.name)
  | streamEndedDead (sid : Sid) (s : Session) (hs : sh.heap[sid]? = some s)
      (halive : s.io.alive = false) :
      Goes env sh (.streamEnded sid) (.returned .done)
  | selfExit (name : SessionName) (sid : Sid) (hm : sh.sessions[name]? = some sid) :
      Goes env sh (.selfExitGet name) (.selfExitIsAlive name sid)
  | selfExitAbsent (name : SessionName) (hm : sh.sessions[name]? = none) :
      Goes env sh (.selfExitGet name) (.returned .done)
  | selfExitAlive (name : SessionName) (sid : Sid) (halive : sh.isAlive sid = true) :
      Goes env sh (.selfExitIsAlive name sid)
        (.teardownLock { name := name, sid := sid, cls := .selfExit,
                         code := CloseCode.sessionEnded, caller := .selfExit })
  | selfExitDead (name : SessionName) (sid : Sid) (halive : sh.isAlive sid = false) :
      Goes env sh (.selfExitIsAlive name sid) (.returned .done)
  -- `renew`
  | renew (name : SessionName) (sid : Sid) (hm : sh.sessions[name]? = some sid) :
      Goes env sh (.renewGet name) (.renewIsAlive name sid)
  | renewAbsent (name : SessionName) (hm : sh.sessions[name]? = none) :
      Goes env sh (.renewGet name) (.returned (.error (.notFound name)))
  | renewAlive (name : SessionName) (sid : Sid) (halive : sh.isAlive sid = true) :
      Goes env sh (.renewIsAlive name sid) (.renewLock name sid)
  | renewDead (name : SessionName) (sid : Sid) (halive : sh.isAlive sid = false) :
      Goes env sh (.renewIsAlive name sid) (.returned (.error (.sessionDead name)))
  | renewLocked (name : SessionName) (sid : Sid) (s : Session) (hs : sh.heap[sid]? = some s) :
      Goes env sh (.renewLock name sid)
        (.renewClose name sid s.state.generation.succ s.io.subscriber)
  | renewClosed (name : SessionName) (sid : Sid) (generation : Generation)
      (subscriber : Option ConnGeneration) :
      Goes env sh (.renewClose name sid generation subscriber) (.renewMint name sid generation)
  | renewFailed (name : SessionName) (sid : Sid) (generation : Generation) (error : Error) :
      Goes env sh (.renewMint name sid generation) (.returned (.error error))
  | renewMinted (name : SessionName) (sid : Sid) (generation : Generation)
      (token : MintedAttachToken) :
      Goes env sh (.renewMint name sid generation)
        (.returned (.issued { sid := sid, session := name, generation := generation,
                              token := token }))
  -- `tick`
  | tick : Goes env sh .tick (.tickSnapshot sh.now)
  | tickSnapshot (now : Instant) :
      Goes env sh (.tickSnapshot now)
        (.tickNext { now := now, rest := sh.sessionValues, actions := [] })
  | tickDone (now : Instant) (actions : List TtlAction) :
      Goes env sh (.tickNext { now := now, rest := [], actions := actions })
        (.returned (.ticked actions))
  | tickPassed (now : Instant) (sid : Sid) (rest : List Sid) (actions : List TtlAction)
      (s : Session) (hs : sh.heap[sid]? = some s) (hlock : (s.tickLocked env.policy now).2 = none) :
      Goes env sh (.tickNext { now := now, rest := sid :: rest, actions := actions })
        (.tickNext { now := now, rest := rest, actions := actions })
  | tickWarned (now : Instant) (sid : Sid) (rest : List Sid) (actions : List TtlAction)
      (s : Session) (absolute : Bool) (seconds : Nat) (hs : sh.heap[sid]? = some s)
      (hlock : (s.tickLocked env.policy now).2 = some (.warn absolute seconds)) :
      Goes env sh (.tickNext { now := now, rest := sid :: rest, actions := actions })
        (.tickWarn { now := now, rest := rest, actions := actions } sid s.name absolute seconds)
  | tickExpired (now : Instant) (sid : Sid) (rest : List Sid) (actions : List TtlAction)
      (s : Session) (absolute : Bool) (hs : sh.heap[sid]? = some s)
      (hlock : (s.tickLocked env.policy now).2 = some (.expire absolute)) :
      Goes env sh (.tickNext { now := now, rest := sid :: rest, actions := actions })
        (.teardownLock { name := s.name, sid := sid, cls := .ttlExpired,
                         code := CloseCode.ttlExpired,
                         caller := .tick { now := now, rest := rest, actions := actions } absolute })
  | tickSubscriber (loop : TickLoop) (sid : Sid) (name : SessionName) (absolute : Bool)
      (seconds : Nat) (s : Session) (hs : sh.heap[sid]? = some s) :
      Goes env sh (.tickWarn loop sid name absolute seconds)
        (.tickPush loop sid name absolute seconds s.io.subscriber)
  | tickPushed (loop : TickLoop) (sid : Sid) (name : SessionName) (absolute : Bool)
      (seconds : Nat) (subscriber : Option ConnGeneration) :
      Goes env sh (.tickPush loop sid name absolute seconds subscriber)
        (.tickNext { loop with actions := loop.actions ++ [.warned name absolute] })
  -- the drain
  | drainBegun (grace : Duration) : Goes env sh (.beginDrain grace) (.notifySnapshot grace)
  | notifySnapshot (grace : Duration) :
      Goes env sh (.notifySnapshot grace) (.notifyNext grace sh.sessionValues)
  | notifyDone (grace : Duration) : Goes env sh (.notifyNext grace []) .shutdownSnapshot
  | notifySubscriber (grace : Duration) (sid : Sid) (rest : List Sid) (s : Session)
      (hs : sh.heap[sid]? = some s) :
      Goes env sh (.notifyNext grace (sid :: rest))
        (.notifyPush grace rest sid s.io.subscriber)
  | notified (grace : Duration) (rest : List Sid) (sid : Sid)
      (subscriber : Option ConnGeneration) :
      Goes env sh (.notifyPush grace rest sid subscriber) (.notifyNext grace rest)
  | shutdownSnapshot :
      Goes env sh .shutdownSnapshot (.shutdownNext { rest := sh.sessionValues, reports := [] })
  | shutdownDone (reports : List TeardownReport) :
      Goes env sh (.shutdownNext { rest := [], reports := reports })
        (.returned (.shutdown reports))
  | shutdownNext (sid : Sid) (rest : List Sid) (reports : List TeardownReport) (s : Session)
      (hs : sh.heap[sid]? = some s) :
      Goes env sh (.shutdownNext { rest := sid :: rest, reports := reports })
        (.teardownLock { name := s.name, sid := sid, cls := .runtimeShutdown,
                         code := CloseCode.runtimeReplaced,
                         caller := .shutdown { rest := rest, reports := reports } })

/-- The task that tears down the session `publish` displaced. -/
def Shared.Displaced (sh : Shared) (o : Op) : Prop :=
  ∃ name sid, sh.sessions[name]? = some sid ∧
    o = .teardownLock { name := name, sid := sid, cls := .runtimeShutdown,
                        code := CloseCode.runtimeReplaced, caller := .displaced }

/-- The next section of an operation: where it goes, and that it starts nothing but the
teardown of a displaced session. -/
theorem Op.flow_step {env : Env} {sh sh' : Shared} {c : Choice} {op op' : Op} {ops : List Op}
    {sids : List Sid} (h : op.step env sh c = some (sh', op', ops, sids)) :
    op.Goes env sh op' ∧ ∀ o ∈ ops, sh.Displaced o := by
  have alone (hops : ops = []) (hg : op.Goes env sh op') :
      op.Goes env sh op' ∧ ∀ o ∈ ops, sh.Displaced o := by
    subst hops
    exact ⟨hg, fun _ ho => absurd ho List.not_mem_nil⟩
  cases op <;> simp only [step] at h
  case dropClaim | restartForget | teardownRevoke | teardownClose | renewClose | tick | tickSnapshot
      | tickPush | beginDrain | notifySnapshot | notifyPush | shutdownSnapshot =>
    cases h
    exact alone rfl (by constructor)
  case returned => cases h
  -- Sections that branch on the shared state alone.
  case adminCreate name size =>
    split at h <;> cases h
    · exact alone rfl (.createDraining name size ‹_›)
    · exact alone rfl (.create name size (Bool.eq_false_iff.mpr ‹_›))
  case restartGet name =>
    split at h <;> cases h
    · exact alone rfl (.restart name _ ‹_›)
    · exact alone rfl (.restartAbsent name ‹_›)
  case restartIsAlive name sid base =>
    split at h <;> cases h
    · exact alone rfl (.restartAlive name sid base ‹_›)
    · exact alone rfl (.restartDead name sid base (Bool.eq_false_iff.mpr ‹_›))
  case killGet name =>
    split at h <;> cases h
    · exact alone rfl (.kill name _ ‹_›)
    · exact alone rfl (.killAbsent name ‹_›)
  case selfExitGet name =>
    split at h <;> cases h
    · exact alone rfl (.selfExit name _ ‹_›)
    · exact alone rfl (.selfExitAbsent name ‹_›)
  case selfExitIsAlive name sid =>
    split at h <;> cases h
    · exact alone rfl (.selfExitAlive name sid ‹_›)
    · exact alone rfl (.selfExitDead name sid (Bool.eq_false_iff.mpr ‹_›))
  case renewGet name =>
    split at h <;> cases h
    · exact alone rfl (.renew name _ ‹_›)
    · exact alone rfl (.renewAbsent name ‹_›)
  case renewIsAlive name sid =>
    split at h <;> cases h
    · exact alone rfl (.renewAlive name sid ‹_›)
    · exact alone rfl (.renewDead name sid (Bool.eq_false_iff.mpr ‹_›))
  -- Sections that call a function of the manager or of the environment.
  case claimName sp =>
    split at h <;> rename_i heq <;> cases h
    · exact alone rfl (.claimRefused sp _ (congrArg Prod.snd heq))
    · exact alone rfl (.claimed sp (congrArg Prod.snd heq))
  case spawn sp =>
    split at h <;> cases h
    · exact alone rfl (.spawnFailed sp _)
    · exact alone rfl (.spawned sp)
  case mint sp sid =>
    split at h <;> cases h
    · exact alone rfl (.mintFailed sp sid _)
    · exact alone rfl (.minted sp sid _)
  case restartTombstone name =>
    split at h <;> rename_i heq <;> cases h
    · exact alone rfl (.tombstoneTaken name _ (congrArg Prod.snd heq))
    · exact alone rfl (.tombstoneAbsent name (congrArg Prod.snd heq))
  case renewMint name sid generation =>
    split at h <;> cases h
    · exact alone rfl (.renewFailed name sid generation _)
    · exact alone rfl (.renewMinted name sid generation _)
  case publish sp sid token =>
    cases h
    refine ⟨.published sp sid token, fun o ho => ?_⟩
    obtain ⟨old, hold, rfl⟩ := List.mem_map.mp ho
    exact ⟨sp.name, old, Option.mem_toList.mp hold, rfl⟩
  -- Sections that lock a session.
  case restartGeneration name sid =>
    obtain ⟨s, hs, heq⟩ := Option.map_eq_some_iff.mp h
    cases heq
    exact alone rfl (.restartGeneration name sid s hs)
  case deadGeneration td report =>
    obtain ⟨s, hs, heq⟩ := Option.map_eq_some_iff.mp h
    cases heq
    exact alone rfl (.deadGeneration td report s hs)
  case renewLock name sid =>
    obtain ⟨s, hs, heq⟩ := Option.map_eq_some_iff.mp h
    cases heq
    exact alone rfl (.renewLocked name sid s hs)
  case tickWarn loop sid name absolute seconds =>
    obtain ⟨s, hs, heq⟩ := Option.map_eq_some_iff.mp h
    cases heq
    exact alone rfl (.tickSubscriber loop sid name absolute seconds s hs)
  case streamEnded sid =>
    obtain ⟨s, hs, heq⟩ := Option.map_eq_some_iff.mp h
    split at heq <;> cases heq
    · exact alone rfl (.streamEnded sid s hs ‹_›)
    · exact alone rfl (.streamEndedDead sid s hs (Bool.eq_false_iff.mpr ‹_›))
  case teardownLock td =>
    obtain ⟨s, hs, heq⟩ := Option.map_eq_some_iff.mp h
    cases halive : s.state.alive <;> simp only [Session.teardownLocked, halive] at heq <;> cases heq
    · exact alone rfl (.deadAlready td s hs halive)
    · exact alone rfl (.markedDead td s hs halive)
  -- What the callers of a teardown do next.
  case teardownClear td report =>
    cases h
    refine alone rfl ?_
    unfold afterTeardown
    split
    · exact .tornForRestart td report _ ‹_›
    · exact .tornDisplaced td report ‹_›
    · exact .torn td report ‹_› ‹_›
  case forget td report =>
    cases h
    refine alone rfl ?_
    unfold afterForget
    split
    · exact .forgottenBySelfExit td report ‹_›
    · exact .forgottenByShutdown td report _ ‹_›
    · exact .forgotten td report ‹_› ‹_›
  case rememberDead td report generation =>
    cases h
    refine alone rfl ?_
    unfold afterRememberDead
    split
    · exact .rememberedByKill td report generation ‹_›
    · exact .rememberedByTick td report generation _ _ ‹_›
    · exact .remembered td report generation ‹_› ‹_›
  -- The loops.
  case tickNext loop =>
    obtain ⟨now, rest, actions⟩ := loop
    cases rest with
    | nil =>
      cases h
      exact alone rfl (.tickDone now actions)
    | cons sid rest =>
      obtain ⟨s, hs, heq⟩ := Option.map_eq_some_iff.mp h
      cases heq
      refine alone rfl ?_
      split
      · exact .tickPassed now sid rest actions s hs ‹_›
      · exact .tickWarned now sid rest actions s _ _ hs ‹_›
      · exact .tickExpired now sid rest actions s _ hs ‹_›
  case notifyNext grace rest =>
    cases rest with
    | nil =>
      cases h
      exact alone rfl (.notifyDone grace)
    | cons sid rest =>
      obtain ⟨s, hs, heq⟩ := Option.map_eq_some_iff.mp h
      cases heq
      exact alone rfl (.notifySubscriber grace sid rest s hs)
  case shutdownNext loop =>
    obtain ⟨rest, reports⟩ := loop
    cases rest with
    | nil =>
      cases h
      exact alone rfl (.shutdownDone reports)
    | cons sid rest =>
      obtain ⟨s, hs, heq⟩ := Option.map_eq_some_iff.mp h
      cases heq
      exact alone rfl (.shutdownNext sid rest reports s hs)

end OpenabPty
