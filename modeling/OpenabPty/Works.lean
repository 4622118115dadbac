import OpenabPty.Sections

/-!
# What a step does to the sessions

A step of a task leaves the sessions alone, adds one to them, or works on one of them by a section
of `session.rs`. What is true of every session, or of some part of each, is followed through these
sections; the program counters are gone through here, once.
-/

namespace OpenabPty

/-! ## The sizes on their way -/

/-- The size that an operation carries. -/
def Op.size : Op → Option WindowSize
  | .adminCreate _ size => some size
  | .claimName sp | .spawn sp | .mint sp _ | .publish sp _ _ => some sp.size
  | _ => none

/-- The size of a `resize` under way. -/
def ReaderPc.size : ReaderPc → Option WindowSize
  | .resizeFence size | .resizeState size | .resizeControl size => some size
  | _ => none

/-- The size of an attach under way. -/
def Conn.attachSize : Conn → Option WindowSize
  | .get a | .peekTombstone a | .isAlive a _ | .lock a _ _ | .closePrevious a _ _ _
  | .subscriberFor a _ _ | .notice a _ _ | .replayGap a _ _ _ _ | .replayBytes a _ _ _
  | .attachResize a _ _ => some a.size
  | _ => none

/-- The size that a connection carries. -/
def Conn.size : Conn → Option WindowSize
  | .reading _ _ pc => pc.size
  | conn => conn.attachSize

def Task.size : Task → Option WindowSize
  | .op o => o.size
  | .conn o => o.size
  | .pump _ => none

/-! ## Sections -/

/-- What a task that carries a size may do to a session while the clock shows `now`. -/
inductive Session.Section (env : Env) (now : Instant) (carried : Option WindowSize) :
    (Session → Session) → Prop where
  | attachLocked {size : WindowSize} (hsize : carried = some size) (generation : Generation)
      (since : Option Nat) (asked : Instant) :
      Section env now carried fun s =>
        (s.attachLocked env.policy env.config.scrollbackReplay generation size since asked).1
  | setSize {size : WindowSize} (hsize : carried = some size) :
      Section env now carried (·.setSize size)
  | controlResize {size : WindowSize} (hsize : carried = some size) :
      Section env now carried (·.controlResize size)
  | touch : Section env now carried (·.touch now)
  | onOutbound (conn : ConnGeneration) (f : Session → Outbound → Outbound) :
      Section env now carried fun s => s.onOutbound conn (f s)
  | onPongLocked (conn : ConnGeneration) : Section env now carried (·.onPongLocked conn)
  | onMissedPingLocked (conn : ConnGeneration) :
      Section env now carried fun s => (s.onMissedPingLocked conn).1
  | detach (conn : ConnGeneration) : Section env now carried (·.detach conn)
  | renewLocked : Section env now carried fun s => s.renewLocked.1
  | teardownLocked (cls : TerminationClass) :
      Section env now carried fun s => (s.teardownLocked cls).1
  | tickLocked (read : Instant) : Section env now carried fun s => (s.tickLocked env.policy read).1
  | writeBuffer (bytes : List UInt8) : Section env now carried (·.writeBuffer bytes)
  | clearBuffer : Section env now carried Session.clearBuffer

/-- What a step does to the sessions. -/
inductive Shared.Works (env : Env) (carried : Option WindowSize) (sh sh' : Shared) : Prop where
  | idle (hheap : sh'.heap = sh.heap)
  | spawned {size : WindowSize} (hsize : carried = some size) (name : SessionName)
      (generation : Generation) (hheap : sh'.heap = (sh.allocate env name generation size).1.heap)
  | worked (sid : Sid) {f : Session → Session} (hf : Session.Section env sh.now carried f)
      (hheap : sh'.heap = (sh.modify sid f).heap)

open Shared

section Step

variable {env : Env} {carried : Option WindowSize} {sh sh' : Shared}

theorem Op.works_closeOutbound (sid : Sid) (subscriber : Option ConnGeneration) (code : Nat) :
    sh.Works env carried (Op.closeOutbound sh sid subscriber code) := by
  cases subscriber with
  | none => exact .idle rfl
  | some conn => exact .worked sid (.onOutbound conn _) rfl

theorem Op.works_pushControl (sid : Sid) (subscriber : Option ConnGeneration)
    (event : ControlEvent) : sh.Works env carried (Op.pushControl sh sid subscriber event) := by
  cases subscriber with
  | none => exact .idle rfl
  | some conn => exact .worked sid (.onOutbound conn _) rfl

theorem Reader.works_step {e : Arrival} {r : Reader} {pc : ReaderPc}
    {next : (Reader × ReaderPc) ⊕ ReadExit} (h : r.step sh e pc = some (sh', next)) :
    sh.Works env pc.size sh' := by
  cases pc <;> simp only [step] at h
  case select =>
    repeat' split at h
    all_goals
      cases h
      exact .idle rfl
  case writeFence | resizeFence =>
    obtain ⟨s, -, heq⟩ := Option.map_eq_some_iff.mp h
    cases heq
    exact .idle rfl
  case writeSend | sendPing =>
    split at h <;> cases h <;> exact .idle rfl
  case sendPong =>
    cases h
    exact .idle rfl
  case writeTouch | pongTouch =>
    cases h
    exact .worked r.sid .touch rfl
  case resizeState size =>
    cases h
    exact .worked r.sid (.setSize rfl) rfl
  case resizeControl size =>
    split at h <;> cases h
    · exact .worked r.sid (.controlResize rfl) rfl
    · exact .idle rfl
  case pongLock =>
    cases h
    exact .worked r.sid (.onPongLocked r.conn) rfl
  case missedPing =>
    obtain ⟨s, -, heq⟩ := Option.map_eq_some_iff.mp h
    cases heq
    exact .worked r.sid (.onMissedPingLocked r.conn) rfl
  case missedClose subscriber =>
    cases subscriber with
    | some conn =>
      cases h
      exact .worked r.sid (.onOutbound conn _) rfl
    | none =>
      cases h
      exact .idle rfl

theorem Conn.works_step {e : Arrival} {conn conn' : Conn}
    (h : conn.step env sh e = some (sh', conn')) : sh.Works env conn.size sh' := by
  cases conn <;> simp only [step] at h
  case request | handlerVerify =>
    repeat' split at h
    all_goals
      cases h
      exact .idle rfl
  case handlerGet | get | peekTombstone | isAlive =>
    split at h <;> cases h <;> exact .idle rfl
  case handlerGeneration | subscriberFor =>
    obtain ⟨s, -, heq⟩ := Option.map_eq_some_iff.mp h
    cases heq
    exact .idle rfl
  case lock a sid now =>
    obtain ⟨s, -, heq⟩ := Option.map_eq_some_iff.mp h
    cases heq
    exact .worked sid (.attachLocked rfl a.generation a.since now) rfl
  case closePrevious | notice | replayGap | replayBytes =>
    cases h
    exact .worked _ (.onOutbound _ _) rfl
  case attachResize a sid reg =>
    cases h
    split
    · exact .worked sid (.controlResize rfl) rfl
    · exact .idle rfl
  case touch a sid reg =>
    cases h
    exact .worked sid .touch rfl
  case reading a r pc =>
    obtain ⟨⟨sh₁, next⟩, hr, heq⟩ := Option.map_eq_some_iff.mp h
    obtain rfl : sh₁ = sh' := by
      cases next <;> exact (Prod.mk.inj heq).1
    exact Reader.works_step hr
  case exiting a sid conn exit =>
    cases exit <;> cases h
    · exact .worked sid (.detach conn) rfl
    · exact .worked sid (.detach conn) rfl
    · exact .idle rfl
    · exact .idle rfl
  case closing a sid conn exit =>
    cases h
    exact .worked sid (.onOutbound conn _) rfl
  case awaiting =>
    cases h
    exact .idle rfl
  case returned | refused | rejected => cases h

theorem Pump.works_step {chunk : Option (List UInt8)} {pump : Pump} {t : Task}
    (h : pump.step sh chunk = some (sh', t)) : sh.Works env carried sh' := by
  cases pump <;> simp only [step] at h
  case idle =>
    split at h <;> cases h <;> exact .idle rfl
  case write sid bytes =>
    cases h
    exact .worked sid (.writeBuffer bytes) rfl
  case touch sid bytes =>
    cases h
    exact .worked sid .touch rfl
  case subscriber =>
    obtain ⟨s, -, heq⟩ := Option.map_eq_some_iff.mp h
    cases heq
    exact .idle rfl
  case push sid bytes current =>
    cases current with
    | some conn =>
      cases h
      exact .worked sid (.onOutbound conn _) rfl
    | none =>
      cases h
      exact .idle rfl

theorem Op.works_step {c : Choice} {op op' : Op} {ops : List Op} {sids : List Sid}
    (h : op.step env sh c = some (sh', op', ops, sids)) : sh.Works env op.size sh' := by
  cases op <;> simp only [step] at h
  case returned => cases h
  -- Sections that only change the maps.
  case adminCreate | restartGet | restartIsAlive | killGet | selfExitGet | selfExitIsAlive
      | renewGet | renewIsAlive | mint | renewMint =>
    split at h <;> cases h <;> exact .idle rfl
  case dropClaim | publish | restartForget | teardownRevoke | forget | rememberDead | tick
      | tickSnapshot | beginDrain | notifySnapshot | shutdownSnapshot =>
    cases h
    exact .idle rfl
  case claimName sp =>
    have hclaim : (sh.claimName env.config.maxSessions sp.name).1.heap = sh.heap := by
      unfold Shared.claimName
      dsimp only
      split_ifs <;> rfl
    split at h <;> rename_i heq <;> rw [heq] at hclaim <;> cases h <;> exact .idle hclaim
  case restartTombstone name =>
    have htake : (sh.takeTombstone name).1.heap = sh.heap := by
      unfold Shared.takeTombstone
      split <;> rfl
    split at h <;> rename_i heq <;> rw [heq] at htake <;> cases h <;> exact .idle htake
  case spawn sp =>
    split at h <;> cases h
    · exact .idle rfl
    · exact .spawned rfl _ _ rfl
  -- Sections that lock a session.
  case restartGeneration | deadGeneration | streamEnded | tickWarn =>
    obtain ⟨s, -, heq⟩ := Option.map_eq_some_iff.mp h
    first
      | cases heq; exact .idle rfl
      | split at heq <;> cases heq <;> exact .idle rfl
  case teardownLock td =>
    obtain ⟨s, -, heq⟩ := Option.map_eq_some_iff.mp h
    cases heq
    exact .worked td.sid (.teardownLocked td.cls) rfl
  case teardownClear td report =>
    cases h
    exact .worked td.sid .clearBuffer rfl
  case renewLock name sid =>
    obtain ⟨s, -, heq⟩ := Option.map_eq_some_iff.mp h
    cases heq
    exact .worked sid .renewLocked rfl
  case teardownClose | renewClose =>
    cases h
    exact works_closeOutbound _ _ _
  case tickPush | notifyPush =>
    cases h
    exact works_pushControl _ _ _
  -- The loops over the sessions.
  case tickNext loop =>
    obtain ⟨now, rest, actions⟩ := loop
    cases rest with
    | nil =>
      cases h
      exact .idle rfl
    | cons sid rest =>
      obtain ⟨s, -, heq⟩ := Option.map_eq_some_iff.mp h
      cases heq
      exact .worked sid (.tickLocked now) rfl
  case notifyNext grace rest =>
    cases rest with
    | nil =>
      cases h
      exact .idle rfl
    | cons sid rest =>
      obtain ⟨s, -, heq⟩ := Option.map_eq_some_iff.mp h
      cases heq
      exact .idle rfl
  case shutdownNext loop =>
    obtain ⟨rest, reports⟩ := loop
    cases rest with
    | nil =>
      cases h
      exact .idle rfl
    | cons sid rest =>
      obtain ⟨s, -, heq⟩ := Option.map_eq_some_iff.mp h
      cases heq
      exact .idle rfl

/-- What a step of a task does to the sessions. -/
theorem Task.works_step {c : Input} {t t' : Task} {new : List Task}
    (h : Task.step env sh t c = some (sh', t', new)) : sh.Works env t.size sh' := by
  rcases step_cases h with ⟨op, op', ops, sids, rfl, hop, -⟩ | ⟨conn, conn', rfl, hconn, -⟩ |
    ⟨pump, rfl, hpump, -⟩
  · exact Op.works_step hop
  · exact Conn.works_step hconn
  · exact Pump.works_step hpump

end Step

end OpenabPty
