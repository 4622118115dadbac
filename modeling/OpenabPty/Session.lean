import OpenabPty.Outbound

/-!
# One session and its critical sections (`session.rs`)

`Session` is the shared object behind `Arc<Session>`: the state under the session lock, the
I/O-side mirror, and the outbound queues handed to its connections. Each function below is
one critical section of the source, or one lock-free access of the I/O path.
-/

namespace OpenabPty

/-- `SessionPolicy`. -/
structure SessionPolicy where
  detachedIdleTtl : Duration
  absoluteTtl : Duration
  pingInterval : Duration
  missedPingsBeforeDetached : Nat
  ttlWarningLead : Duration
  maxTakeoversPerWindow : Nat
  takeoverWindow : Duration
  teardownGrace : Duration

/-- `SessionPolicy::default`. -/
def SessionPolicy.default : SessionPolicy where
  detachedIdleTtl := .fromSecs (30 * 60)
  absoluteTtl := .fromSecs (12 * 60 * 60)
  pingInterval := .fromSecs 20
  missedPingsBeforeDetached := 3
  ttlWarningLead := .fromSecs 30
  maxTakeoversPerWindow := 3
  takeoverWindow := .fromSecs 60
  teardownGrace := .fromSecs 5

/-- `SessionPolicy::validate`. -/
def SessionPolicy.validate (p : SessionPolicy) : Except Error Unit :=
  if p.pingInterval < .fromSecs 15 ∨ p.pingInterval > .fromSecs 30 then
    .error (.config "ping_interval must be between 15s and 30s")
  else if ¬ (2 ≤ p.missedPingsBeforeDetached ∧ p.missedPingsBeforeDetached ≤ 3) then
    .error (.config "missed_pings_before_detached must be 2 or 3")
  else if p.detachedIdleTtl = 0 ∨ p.absoluteTtl = 0 then
    .error (.config "TTLs must be non-zero")
  else if p.maxTakeoversPerWindow = 0 ∨ p.takeoverWindow = 0 then
    .error (.config "takeover rate limit must permit at least one takeover per window")
  else .ok ()

/-- `TakeoverLimiter`. -/
structure TakeoverLimiter where
  generation : Generation
  windowStart : Instant
  count : Nat
  firstAttachOfGeneration : Bool
  deriving DecidableEq, Repr

namespace TakeoverLimiter

def new (generation : Generation) (now : Instant) : TakeoverLimiter :=
  { generation := generation, windowStart := now, count := 0, firstAttachOfGeneration := true }

def allow (l : TakeoverLimiter) (generation : Generation) (now : Instant)
    (policy : SessionPolicy) : TakeoverLimiter × Bool :=
  let l := if l.generation ≠ generation then new generation now else l
  if l.firstAttachOfGeneration then
    ({ l with firstAttachOfGeneration := false }, true)
  else
    let l :=
      if now - l.windowStart ≥ policy.takeoverWindow then { l with windowStart := now, count := 0 }
      else l
    if l.count ≥ policy.maxTakeoversPerWindow then (l, false)
    else ({ l with count := l.count + 1 }, true)

end TakeoverLimiter

/-- `SessionState`: what the session lock protects. -/
structure SessionState where
  generation : Generation
  ownerConn : ConnGeneration
  nextConn : Nat
  createdAt : Instant
  attachedSince : Option Instant
  missedPings : Nat
  alive : Bool
  termination : Option TerminationClass
  warnedAbsolute : Bool
  warnedIdle : Bool
  size : WindowSize
  takeovers : TakeoverLimiter
  deriving DecidableEq, Repr

/-- `SessionIo`: the I/O side. The subscriber slot holds an `Arc<Outbound>`, here named by
the connection the `Outbound` was made for. -/
structure SessionIo where
  ownerConn : ConnGeneration
  lastActivityMs : Nat
  subscriber : Option ConnGeneration
  buffer : RingBuffer
  alive : Bool
  deriving DecidableEq, Repr

/-- `Session`. `outbounds` are the queues its attaches made, `control` is the size last
passed to `PtyControl::resize`. -/
structure Session where
  name : SessionName
  state : SessionState
  io : SessionIo
  outbounds : List Outbound
  control : Option WindowSize
  tierBestEffort : Bool
  missedPingLimit : Nat
  deriving DecidableEq

/-- `TtlDecision`. -/
inductive TtlDecision where
  | warn (absolute : Bool) (secondsRemaining : Nat)
  | expire (absolute : Bool)
  deriving DecidableEq, Repr

/-- What `attach_with_replay` copies out of its locked section. -/
structure Registration where
  conn : ConnGeneration
  evicted : Option ConnGeneration
  replay : Option Replay
  streamOffset : Nat
  deriving DecidableEq, Repr

namespace Session

/-- The session `spawn_claimed` builds. -/
def new (name : SessionName) (generation : Generation) (size : WindowSize) (now : Instant)
    (scrollbackKib : Nat) (tierBestEffort : Bool) (policy : SessionPolicy) : Session where
  name := name
  state :=
    { generation := generation
      ownerConn := ⟨0⟩
      nextConn := 1
      createdAt := now
      attachedSince := none
      missedPings := 0
      alive := true
      termination := none
      warnedAbsolute := false
      warnedIdle := false
      size := size
      takeovers := .new generation now }
  io :=
    { ownerConn := ⟨0⟩
      lastActivityMs := Duration.asMillis now
      subscriber := none
      buffer := .withScrollbackKib scrollbackKib
      alive := true }
  outbounds := []
  control := none
  tierBestEffort := tierBestEffort
  missedPingLimit := policy.missedPingsBeforeDetached

/-- `SessionIo::touch`. -/
def touch (s : Session) (now : Instant) : Session :=
  { s with io := { s.io with lastActivityMs := Duration.asMillis now } }

/-- Run `f` on the `Outbound` of `conn`. -/
def onOutbound (s : Session) (conn : ConnGeneration) (f : Outbound → Outbound) : Session :=
  { s with outbounds := s.outbounds.map fun o => if o.conn = conn then f o else o }

/-- `SessionIo::subscriber_for`. -/
def subscriberFor (s : Session) (conn : ConnGeneration) : Option ConnGeneration :=
  s.io.subscriber.filter (· = conn)

/-- The generation check, the takeover decision and the attach CAS of `attach_with_replay`. -/
def attachCas (s : Session) (policy : SessionPolicy) (generation : Generation)
    (size : WindowSize) (now : Instant) : Session × Except Error ConnGeneration :=
  if s.state.generation ≠ generation then (s, .error .unauthorized)
  else
    let wasTakeover := s.state.ownerConn ≠ ⟨0⟩
    -- Both kinds of attach consult the limiter; only a takeover can be refused by it.
    let allowed := s.state.takeovers.allow generation now policy
    let s := { s with state := { s.state with takeovers := allowed.1 } }
    if wasTakeover ∧ allowed.2 = false then
      (s, .error (.capacityExceeded policy.maxTakeoversPerWindow))
    else
      let conn : ConnGeneration := ⟨s.state.nextConn⟩
      ({ s with
          state :=
            { s.state with
                nextConn := s.state.nextConn + 1
                ownerConn := conn
                attachedSince := some now
                missedPings := 0
                size := size }
          io := { s.io with ownerConn := conn } }, .ok conn)

/-- The replay registration under the buffer lock: the stream offset and the replay. -/
def registerReplay (s : Session) (scrollbackReplay : Bool) (since : Option Nat) :
    Nat × Option Replay :=
  let buffer := s.io.buffer
  (buffer.totalWritten,
    match since with
    | some offset => some (buffer.readSince offset)
    | none =>
      if scrollbackReplay && buffer.retentionEnabled then some (buffer.readSince 0) else none)

/-- `subscriber.lock().replace(Outbound::new(conn, backlog_bounds))`. -/
def replaceSubscriber (s : Session) (conn : ConnGeneration) : Session × Option ConnGeneration :=
  ({ s with
      io := { s.io with subscriber := some conn }
      outbounds := s.outbounds ++ [Outbound.new conn backlogBounds] }, s.io.subscriber)

/-- The locked section of `attach_with_replay`. -/
def attachLocked (s : Session) (policy : SessionPolicy) (scrollbackReplay : Bool)
    (generation : Generation) (size : WindowSize) (since : Option Nat) (now : Instant) :
    Session × Except Error Registration :=
  match s.attachCas policy generation size now with
  | (s, .error error) => (s, .error error)
  | (s, .ok conn) =>
    let registered := s.registerReplay scrollbackReplay since
    let replaced := s.replaceSubscriber conn
    (replaced.1, .ok { conn := conn, evicted := replaced.2, replay := registered.2,
                       streamOffset := registered.1 })

/-- The attach notice of `attach_with_replay`. -/
def attachNotice (s : Session) : ControlEvent :=
  .attachNotice true s.tierBestEffort "git push (lifecycle hooks are backup, not primary)"

/-- `Session::resize`, the owner check on the atomic mirror. -/
def resizeAllowed (s : Session) (conn : ConnGeneration) : Bool := s.io.ownerConn = conn

def setSize (s : Session) (size : WindowSize) : Session :=
  { s with state := { s.state with size := size } }

/-- `PtyControl::resize`. -/
def controlResize (s : Session) (size : WindowSize) : Session := { s with control := some size }

/-- The locked section of `Session::on_pong`. -/
def onPongLocked (s : Session) (conn : ConnGeneration) : Session :=
  if s.state.ownerConn = conn then { s with state := { s.state with missedPings := 0 } } else s

/-- Hand the session back: nobody owns it and nobody is subscribed. -/
def release (s : Session) : Session :=
  { s with
      state := { s.state with ownerConn := ⟨0⟩, attachedSince := none }
      io := { s.io with ownerConn := ⟨0⟩, subscriber := none } }

/-- The locked section of `Session::on_missed_ping`: whether the connection counts as
detached, and the `Outbound` to close. -/
def onMissedPingLocked (s : Session) (conn : ConnGeneration) :
    Session × Bool × Option ConnGeneration :=
  if s.state.ownerConn ≠ conn then (s, true, none)
  else
    let s := { s with state := { s.state with missedPings := s.state.missedPings + 1 } }
    if s.state.missedPings < s.missedPingLimit then (s, false, none)
    else (s.release, true, s.io.subscriber)

/-- `Session::detach`. -/
def detach (s : Session) (conn : ConnGeneration) : Session :=
  if s.state.ownerConn ≠ conn then s
  else { s.release with state := { s.release.state with missedPings := 0 } }

/-- The locked section of `renew`: the new generation and the evicted `Outbound`. The
revocation nested in it is the caller's. -/
def renewLocked (s : Session) : Session × Generation × Option ConnGeneration :=
  let generation := s.state.generation.succ
  let released := s.release
  ({ released with
      state := { released.state with generation := generation, missedPings := 0 } },
   generation, s.io.subscriber)

/-- The first critical section of `teardown`: the generation, the `Outbound` to close and
whether the session was dead already. -/
def teardownLocked (s : Session) (cls : TerminationClass) :
    Session × Generation × Option ConnGeneration × Bool :=
  ({ s with
      state := { s.state with alive := false, termination := some cls, ownerConn := ⟨0⟩ }
      io := { s.io with alive := false, ownerConn := ⟨0⟩, subscriber := none } },
   s.state.generation, s.io.subscriber, !s.state.alive)

/-- `SessionManager::last_activity`. -/
def lastActivity (s : Session) : Instant := Duration.fromMillis s.io.lastActivityMs

/-- The decision `tick` copies out of the session lock; `none` for a dead session too. -/
def tickLocked (s : Session) (policy : SessionPolicy) (now : Instant) :
    Session × Option TtlDecision :=
  if !s.state.alive then (s, none)
  else
    let absoluteDeadline := s.state.createdAt + policy.absoluteTtl
    let idleDeadline :=
      if s.state.ownerConn = ⟨0⟩ then some (s.lastActivity + policy.detachedIdleTtl) else none
    if now ≥ absoluteDeadline then (s, some (.expire true))
    else if idleDeadline.any (fun deadline => now ≥ deadline) then (s, some (.expire false))
    else if !s.state.warnedAbsolute && now + policy.ttlWarningLead ≥ absoluteDeadline then
      ({ s with state := { s.state with warnedAbsolute := true } },
       some (.warn true (Duration.asSecs (absoluteDeadline - now))))
    else if !s.state.warnedIdle &&
        idleDeadline.any (fun deadline => now + policy.ttlWarningLead ≥ deadline) then
      ({ s with state := { s.state with warnedIdle := true } },
       idleDeadline.map fun deadline => .warn false (Duration.asSecs (deadline - now)))
    else (s, none)

/-- The ring write of `on_output`. -/
def writeBuffer (s : Session) (bytes : List UInt8) : Session :=
  { s with io := { s.io with buffer := (s.io.buffer.write bytes).1 } }

/-- The buffer clear at the end of `teardown`. -/
def clearBuffer (s : Session) : Session :=
  { s with io := { s.io with buffer := s.io.buffer.clear } }

/-! ## What a section does to the lifecycle and to the fence -/

/-- The lifecycle of a session: what it is called, which fence its tokens need, whether it
is alive under the lock and on the I/O side. -/
structure Life where
  name : SessionName
  generation : Generation
  alive : Bool
  ioAlive : Bool

def life (s : Session) : Life :=
  { name := s.name, generation := s.state.generation, alive := s.state.alive,
    ioAlive := s.io.alive }

/-- Who owns a session: under the lock, in the mirror, in the subscriber slot, and the next
connection number. -/
structure Fence where
  ownerConn : ConnGeneration
  mirror : ConnGeneration
  subscriber : Option ConnGeneration
  nextConn : Nat

def fence (s : Session) : Fence :=
  { ownerConn := s.state.ownerConn, mirror := s.io.ownerConn, subscriber := s.io.subscriber,
    nextConn := s.state.nextConn }

/-- Nobody owns the session and nobody is subscribed. -/
def Fence.released (f : Fence) : Fence :=
  { ownerConn := ⟨0⟩, mirror := ⟨0⟩, subscriber := none, nextConn := f.nextConn }

/-- The fence an attach CAS leaves behind. -/
def Fence.taken (f : Fence) : Fence :=
  { ownerConn := ⟨f.nextConn⟩, mirror := ⟨f.nextConn⟩, subscriber := some ⟨f.nextConn⟩,
    nextConn := f.nextConn + 1 }

variable (s : Session) (conn : ConnGeneration) (now : Instant) (policy : SessionPolicy)
  (bytes : List UInt8) (size : WindowSize)

@[simp] theorem life_touch : (s.touch now).life = s.life := rfl
@[simp] theorem fence_touch : (s.touch now).fence = s.fence := rfl
@[simp] theorem life_onOutbound (f : Outbound → Outbound) : (s.onOutbound conn f).life = s.life := rfl
@[simp] theorem fence_onOutbound (f : Outbound → Outbound) :
    (s.onOutbound conn f).fence = s.fence := rfl
@[simp] theorem life_setSize : (s.setSize size).life = s.life := rfl
@[simp] theorem fence_setSize : (s.setSize size).fence = s.fence := rfl
@[simp] theorem life_controlResize : (s.controlResize size).life = s.life := rfl
@[simp] theorem fence_controlResize : (s.controlResize size).fence = s.fence := rfl
@[simp] theorem life_writeBuffer : (s.writeBuffer bytes).life = s.life := rfl
@[simp] theorem fence_writeBuffer : (s.writeBuffer bytes).fence = s.fence := rfl
@[simp] theorem life_clearBuffer : s.clearBuffer.life = s.life := rfl
@[simp] theorem fence_clearBuffer : s.clearBuffer.fence = s.fence := rfl
@[simp] theorem life_release : s.release.life = s.life := rfl
@[simp] theorem fence_release : s.release.fence = s.fence.released := rfl

@[simp] theorem life_onPongLocked : (s.onPongLocked conn).life = s.life := by
  unfold onPongLocked
  split <;> rfl

@[simp] theorem fence_onPongLocked : (s.onPongLocked conn).fence = s.fence := by
  unfold onPongLocked
  split <;> rfl

@[simp] theorem life_detach : (s.detach conn).life = s.life := by
  unfold detach
  split <;> rfl

theorem fence_detach :
    (s.detach conn).fence = if s.fence.ownerConn = conn then s.fence.released else s.fence := by
  unfold detach
  by_cases h : s.state.ownerConn = conn <;> simp [fence, release, Fence.released, h]

@[simp] theorem life_onMissedPingLocked : (s.onMissedPingLocked conn).1.life = s.life := by
  unfold onMissedPingLocked
  split
  · rfl
  · dsimp only
    split <;> rfl

/-- A missed ping leaves the fence alone or, past the limit, gives the session back. -/
theorem fence_onMissedPingLocked :
    ((s.onMissedPingLocked conn).1.fence = s.fence ∧
        (s.fence.ownerConn = conn → (s.onMissedPingLocked conn).2.1 = false)) ∨
      s.fence.ownerConn = conn ∧ (s.onMissedPingLocked conn).1.fence = s.fence.released := by
  unfold onMissedPingLocked
  by_cases h : s.state.ownerConn = conn
  · rw [if_neg (not_not.mpr h)]
    dsimp only
    split
    · exact .inl ⟨rfl, fun _ => rfl⟩
    · exact .inr ⟨h, rfl⟩
  · rw [if_pos h]
    exact .inl ⟨rfl, fun h' => absurd h' h⟩

@[simp] theorem life_tickLocked : (s.tickLocked policy now).1.life = s.life := by
  unfold tickLocked
  split
  · rfl
  · dsimp only
    split_ifs <;> rfl

@[simp] theorem fence_tickLocked : (s.tickLocked policy now).1.fence = s.fence := by
  unfold tickLocked
  split
  · rfl
  · dsimp only
    split_ifs <;> rfl

/-! The scrollback changes in `writeBuffer` and in `clearBuffer` only. -/

@[simp] theorem buffer_onPongLocked : (s.onPongLocked conn).io.buffer = s.io.buffer := by
  unfold onPongLocked
  split <;> rfl

@[simp] theorem buffer_detach : (s.detach conn).io.buffer = s.io.buffer := by
  unfold detach
  split <;> rfl

@[simp] theorem buffer_onMissedPingLocked :
    (s.onMissedPingLocked conn).1.io.buffer = s.io.buffer := by
  unfold onMissedPingLocked
  split
  · rfl
  · dsimp only
    split <;> rfl

@[simp] theorem buffer_tickLocked : (s.tickLocked policy now).1.io.buffer = s.io.buffer := by
  unfold tickLocked
  split
  · rfl
  · dsimp only
    split_ifs <;> rfl

@[simp] theorem buffer_attachCas (generation : Generation) :
    (s.attachCas policy generation size now).1.io.buffer = s.io.buffer := by
  unfold attachCas
  split
  · rfl
  · dsimp only
    split <;> rfl

@[simp] theorem buffer_attachLocked (scrollbackReplay : Bool) (generation : Generation)
    (since : Option Nat) :
    (s.attachLocked policy scrollbackReplay generation size since now).1.io.buffer =
      s.io.buffer := by
  have hcas := s.buffer_attachCas now policy size generation
  unfold attachLocked
  split <;> rename_i heq <;> rw [heq] at hcas <;> exact hcas

@[simp] theorem life_renewLocked :
    s.renewLocked.1.life = { s.life with generation := s.life.generation.succ } := rfl
@[simp] theorem fence_renewLocked : s.renewLocked.1.fence = s.fence.released := rfl
@[simp] theorem renewLocked_generation : s.renewLocked.2.1 = s.life.generation.succ := rfl

@[simp] theorem life_teardownLocked (cls : TerminationClass) :
    (s.teardownLocked cls).1.life = { s.life with alive := false, ioAlive := false } := rfl
@[simp] theorem fence_teardownLocked (cls : TerminationClass) :
    (s.teardownLocked cls).1.fence = s.fence.released := rfl
@[simp] theorem teardownLocked_generation (cls : TerminationClass) :
    (s.teardownLocked cls).2.1 = s.life.generation := rfl

/-- The attach CAS refuses and leaves lifecycle and fence alone, or takes the next
connection number for the generation it was asked for. -/
theorem attachCas_cases (generation : Generation) :
    (∃ s' error, s.attachCas policy generation size now = (s', .error error) ∧
      s'.life = s.life ∧ s'.fence = s.fence) ∨
    (∃ s', s.attachCas policy generation size now = (s', .ok ⟨s.fence.nextConn⟩) ∧
      s'.life = s.life ∧ s.life.generation = generation ∧
      s'.fence = { s.fence.taken with subscriber := s.fence.subscriber }) := by
  unfold attachCas
  by_cases hgen : s.state.generation = generation
  · rw [if_neg (not_not.mpr hgen)]
    dsimp only
    split
    · exact .inl ⟨_, _, rfl, rfl, rfl⟩
    · exact .inr ⟨_, rfl, rfl, hgen, rfl⟩
  · rw [if_pos hgen]
    exact .inl ⟨_, _, rfl, rfl, rfl⟩

/-- An attach that is refused leaves the fence alone; one that is admitted takes the next
connection number, for the generation it was asked for. -/
theorem attachLocked_cases (scrollbackReplay : Bool) (generation : Generation)
    (since : Option Nat) :
    (∃ s' error, s.attachLocked policy scrollbackReplay generation size since now =
        (s', .error error) ∧ s'.life = s.life ∧ s'.fence = s.fence) ∨
    (∃ s' reg, s.attachLocked policy scrollbackReplay generation size since now = (s', .ok reg) ∧
      s'.life = s.life ∧ s.life.generation = generation ∧ s'.fence = s.fence.taken ∧
      reg.conn = ⟨s.fence.nextConn⟩) := by
  unfold attachLocked
  rcases s.attachCas_cases now policy size generation with
    ⟨s', error, heq, hlife, hfence⟩ | ⟨s', heq, hlife, hgen, hfence⟩
  · rw [heq]
    exact .inl ⟨s', error, rfl, hlife, hfence⟩
  · rw [heq]
    refine .inr ⟨_, _, rfl, hlife, hgen, ?_, rfl⟩
    show { s'.fence with subscriber := some ⟨s.fence.nextConn⟩ } = s.fence.taken
    rw [hfence]
    rfl

@[simp] theorem life_attachLocked (scrollbackReplay : Bool) (generation : Generation)
    (since : Option Nat) :
    (s.attachLocked policy scrollbackReplay generation size since now).1.life = s.life := by
  rcases s.attachLocked_cases now policy size scrollbackReplay generation since with
    ⟨s', error, heq, hlife, -⟩ | ⟨s', reg, heq, hlife, -⟩ <;> rw [heq] <;> exact hlife

end Session

end OpenabPty
