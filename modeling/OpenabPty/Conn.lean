import OpenabPty.Manager

/-!
# Connections: the attach handler and the read loop (`server.rs`, `session.rs`)

What one upgrade request goes through: the checks of `attach`, `attach_with_replay`, the read
loop of `serve_attached` with its frames, pings and input queue, and what `serve_attached`
does when the loop ends. Its critical sections are the steps of `Conn.step`. The upgrade
limiter, the audit log and the task that drains the `Outbound` are left out.
-/

namespace OpenabPty

def maxInputFrameBytes : Nat := 64 * 1024
def maxControlFrameBytes : Nat := 4 * 1024
def maxMalformedFrames : Nat := 3
def maxAttachTokenBytes : Nat := 512
def wsNormalClosure : Nat := 1000
def wsPolicyViolation : Nat := 1008

/-- `WindowSize::validated`. -/
def WindowSize.validated (rows cols : Nat) : Option WindowSize :=
  if 1 ≤ rows ∧ rows ≤ 1000 ∧ 1 ≤ cols ∧ cols ≤ 1000 then some { rows := rows, cols := cols }
  else none

/-- An upgrade request: its bearer token, its path and its query. -/
structure AttachRequest where
  token : List UInt8
  session : List UInt8
  since : Option Nat
  rows : Option Nat
  cols : Option Nat
  deriving DecidableEq

/-- `ClientControl`. -/
inductive ClientControl where
  | resize (size : WindowSize)
  | ping
  | detach
  deriving DecidableEq, Repr

/-- What `try_send` on the input channel returns. -/
inductive TrySend where
  | sent
  | full
  | closed
  deriving DecidableEq, Repr

/-- What `select!` in the read loop wakes up with. A binary frame comes with what the terminal
filter leaves of it, a text frame with what `parse_client_control` makes of it. -/
inductive Incoming where
  | gone
  | binary (bytes filtered : List UInt8)
  | text (length : Nat) (parsed : Option ClientControl)
  | pong
  | ping
  | close
  | tick
  deriving DecidableEq

/-- `ReadExit`. -/
inductive ReadExit where
  | detached
  | socketGone
  | backpressure
  | frameAbuse
  deriving DecidableEq, Repr

/-- `ReadExit::close_code`. -/
def ReadExit.closeCode : ReadExit → Nat
  | .detached | .socketGone => wsNormalClosure
  | .backpressure => CloseCode.capacity
  | .frameAbuse => wsPolicyViolation

/-- What the environment returns to a step of a connection. -/
structure Arrival where
  incoming : Incoming := .gone
  queue : TrySend := .sent
  /-- `frames.send`, and `PtyControl::resize`. -/
  ok : Bool := true

/-- The arguments of `attach_with_replay`; `verifiedAt` is how many sessions had been spawned
when the handler verified the token. -/
structure Attach where
  name : SessionName
  generation : Generation
  size : WindowSize
  since : Option Nat
  verifiedAt : Nat
  deriving DecidableEq

/-- The loop variables of `read_loop`, and the connection it serves. -/
structure Reader where
  sid : Sid
  conn : ConnGeneration
  malformed : Nat
  awaitingPong : Bool
  deriving DecidableEq

/-- Where a read loop is. -/
inductive ReaderPc where
  | select
  | writeFence (filtered : List UInt8)
  | writeSend
  | writeTouch
  | resizeFence (size : WindowSize)
  | resizeState (size : WindowSize)
  | resizeControl (size : WindowSize)
  | pongLock (reply : Bool)
  | pongTouch (reply : Bool)
  | sendPong
  | missedPing
  | missedClose (subscriber : Option ConnGeneration)
  | sendPing
  deriving DecidableEq

/-- What one connection still has to do. -/
inductive Conn where
  -- the handler `attach`
  | request (r : AttachRequest)
  | handlerGet (r : AttachRequest) (name : SessionName)
  | handlerGeneration (r : AttachRequest) (name : SessionName) (sid : Sid)
  | handlerVerify (r : AttachRequest) (name : SessionName) (generation : Generation)
  -- `attach_with_replay`
  | get (a : Attach)
  | peekTombstone (a : Attach)
  | isAlive (a : Attach) (sid : Sid)
  | lock (a : Attach) (sid : Sid) (now : Instant)
  | closePrevious (a : Attach) (sid : Sid) (reg : Registration) (previous : ConnGeneration)
  | subscriberFor (a : Attach) (sid : Sid) (reg : Registration)
  | notice (a : Attach) (sid : Sid) (reg : Registration)
  | replayGap (a : Attach) (sid : Sid) (reg : Registration) (dropped : Nat) (bytes : List UInt8)
  | replayBytes (a : Attach) (sid : Sid) (reg : Registration) (bytes : List UInt8)
  | attachResize (a : Attach) (sid : Sid) (reg : Registration)
  | touch (a : Attach) (sid : Sid) (reg : Registration)
  -- `serve_attached`
  | reading (a : Attach) (r : Reader) (pc : ReaderPc)
  | exiting (a : Attach) (sid : Sid) (conn : ConnGeneration) (exit : ReadExit)
  | closing (a : Attach) (sid : Sid) (conn : ConnGeneration) (exit : ReadExit)
  | awaiting (a : Attach) (sid : Sid) (conn : ConnGeneration) (exit : ReadExit)
  | returned (a : Attach) (sid : Sid) (conn : ConnGeneration) (exit : ReadExit)
  | refused (error : Error)
  | rejected
  deriving DecidableEq

namespace Reader

/-- One step of the read loop: where it goes on, or why it ends. -/
def step (sh : Shared) (e : Arrival) (r : Reader) :
    ReaderPc → Option (Shared × ((Reader × ReaderPc) ⊕ ReadExit))
  | .select =>
    match e.incoming with
    | .gone => some (sh, .inr .socketGone)
    | .binary bytes filtered =>
      if bytes.length > maxInputFrameBytes then some (sh, .inr .frameAbuse)
      else some (sh, .inl (r, .writeFence filtered))
    | .text length parsed =>
      if length > maxControlFrameBytes then some (sh, .inr .frameAbuse)
      else
        match parsed with
        | some (.resize size) => some (sh, .inl (r, .resizeFence size))
        | some .ping => some (sh, .inl (r, .pongLock true))
        | some .detach => some (sh, .inr .detached)
        | none =>
          let r := { r with malformed := r.malformed + 1 }
          if r.malformed ≥ maxMalformedFrames then some (sh, .inr .frameAbuse)
          else some (sh, .inl (r, .select))
    | .pong => some (sh, .inl ({ r with awaitingPong := false }, .pongLock false))
    | .ping => some (sh, .inl (r, .pongLock false))
    | .close => some (sh, .inr .detached)
    | .tick => some (sh, .inl (r, if r.awaitingPong then .missedPing else .sendPing))
  | .writeFence filtered =>
    sh.heap[r.sid]?.map fun s =>
      (sh, if !s.io.alive || s.io.ownerConn ≠ r.conn then .inr .socketGone
           else if filtered = [] then .inl (r, .select)
           else .inl (r, .writeSend))
  | .writeSend =>
    match e.queue with
    | .sent => some (sh, .inl (r, .writeTouch))
    | .full => some (sh, .inr .backpressure)
    | .closed => some (sh, .inr .socketGone)
  | .writeTouch => some (sh.modify r.sid (·.touch sh.now), .inl (r, .select))
  | .resizeFence size =>
    sh.heap[r.sid]?.map fun s =>
      (sh, if s.resizeAllowed r.conn then .inl (r, .resizeState size) else .inr .socketGone)
  | .resizeState size => some (sh.modify r.sid (·.setSize size), .inl (r, .resizeControl size))
  | .resizeControl size =>
    if e.ok then some (sh.modify r.sid (·.controlResize size), .inl (r, .select))
    else some (sh, .inr .socketGone)
  | .pongLock reply => some (sh.modify r.sid (·.onPongLocked r.conn), .inl (r, .pongTouch reply))
  | .pongTouch reply =>
    some (sh.modify r.sid (·.touch sh.now), .inl (r, if reply then .sendPong else .select))
  | .sendPong => some (sh, if e.ok then .inl (r, .select) else .inr .socketGone)
  | .missedPing =>
    sh.heap[r.sid]?.map fun s =>
      let missed := s.onMissedPingLocked r.conn
      (sh.modify r.sid fun s => (s.onMissedPingLocked r.conn).1,
       .inl (r, if missed.2.1 then .missedClose missed.2.2 else .sendPing))
  | .missedClose subscriber =>
    match subscriber with
    | some conn =>
      some (sh.modify r.sid fun s => s.onOutbound conn (·.close CloseCode.takeover),
        .inr .socketGone)
    | none => some (sh, .inr .socketGone)
  | .sendPing =>
    if e.ok then some (sh, .inl ({ r with awaitingPong := true }, .select))
    else some (sh, .inr .socketGone)

end Reader

namespace Conn

/-- The step after the attach notice: the gap frame of a gap replay comes before its bytes. -/
def afterNotice (a : Attach) (sid : Sid) (reg : Registration) : Conn :=
  match reg.replay with
  | none => .attachResize a sid reg
  | some (.contiguous bytes _) => .replayBytes a sid reg bytes
  | some (.gap dropped bytes _) => .replayGap a sid reg dropped bytes

/-- The next critical section of a connection. -/
def step (env : Env) (sh : Shared) (e : Arrival) : Conn → Option (Shared × Conn)
  | .request r =>
    if sh.draining then some (sh, .rejected)
    else if r.token = [] ∨ r.token.length > maxAttachTokenBytes then some (sh, .rejected)
    else
      match SessionName.parse r.session with
      | .error _ => some (sh, .rejected)
      | .ok name => some (sh, .handlerGet r name)
  | .handlerGet r name =>
    match sh.sessions[name]? with
    | none => some (sh, .rejected)
    | some sid => some (sh, .handlerGeneration r name sid)
  | .handlerGeneration r name sid =>
    sh.heap[sid]?.map fun s => (sh, .handlerVerify r name s.state.generation)
  | .handlerVerify r name generation =>
    let verified := sh.verifyToken env name generation r.token
    match verified.2 with
    | .error _ => some (verified.1, .rejected)
    | .ok _ =>
      match WindowSize.validated (r.rows.getD 24) (r.cols.getD 80) with
      | none => some (verified.1, .rejected)
      | some size =>
        some (verified.1, .get { name := name, generation := generation, size := size,
                                 since := r.since, verifiedAt := sh.heap.length })
  | .get a =>
    match sh.sessions[a.name]? with
    | some sid => some (sh, .isAlive a sid)
    | none => some (sh, .peekTombstone a)
  | .peekTombstone a =>
    match sh.peekTombstone a.name with
    | some _ => some (sh, .refused (.sessionDead a.name))
    | none => some (sh, .refused (.notFound a.name))
  | .isAlive a sid =>
    if sh.isAlive sid then some (sh, .lock a sid sh.now)
    else some (sh, .refused (.sessionDead a.name))
  | .lock a sid now =>
    sh.heap[sid]?.map fun s =>
      (sh.modify sid fun s =>
        (s.attachLocked env.policy env.config.scrollbackReplay a.generation a.size a.since now).1,
       match (s.attachLocked env.policy env.config.scrollbackReplay a.generation a.size a.since
          now).2 with
       | .error error => .refused error
       | .ok reg =>
         match reg.evicted with
         | some previous => .closePrevious a sid reg previous
         | none => .subscriberFor a sid reg)
  | .closePrevious a sid reg previous =>
    some (sh.modify sid fun s => s.onOutbound previous (·.close CloseCode.takeover),
      .subscriberFor a sid reg)
  | .subscriberFor a sid reg =>
    sh.heap[sid]?.map fun s =>
      (sh, match s.subscriberFor reg.conn with
           | some _ => .notice a sid reg
           | none => .refused (.other "attach lost the CAS immediately"))
  | .notice a sid reg =>
    some (sh.modify sid fun s => s.onOutbound reg.conn (·.pushControl s.attachNotice),
      afterNotice a sid reg)
  | .replayGap a sid reg dropped bytes =>
    some (sh.modify sid fun s => s.onOutbound reg.conn (·.pushControl (.gap dropped)),
      .replayBytes a sid reg bytes)
  | .replayBytes a sid reg bytes =>
    some (sh.modify sid fun s => s.onOutbound reg.conn (·.pushBytes bytes), .attachResize a sid reg)
  | .attachResize a sid reg =>
    -- A resize that fails is ignored here.
    some (if e.ok then sh.modify sid (·.controlResize a.size) else sh, .touch a sid reg)
  | .touch a sid reg =>
    -- `attach_with_replay` returns `Ok` here.
    some ((sh.modify sid (·.touch sh.now)).note (.attached sid (sh.isAlive sid)),
      .reading a { sid := sid, conn := reg.conn, malformed := 0, awaitingPong := false } .select)
  | .reading a r pc =>
    (r.step sh e pc).map fun
      | (sh, .inl (r, pc)) => (sh, .reading a r pc)
      | (sh, .inr exit) => (sh, .exiting a r.sid r.conn exit)
  | .exiting a sid conn exit =>
    match exit with
    | .detached | .socketGone => some (sh.modify sid (·.detach conn), .closing a sid conn exit)
    | .backpressure | .frameAbuse => some (sh, .closing a sid conn exit)
  | .closing a sid conn exit =>
    some (sh.modify sid fun s => s.onOutbound conn (·.close exit.closeCode), .awaiting a sid conn exit)
  | .awaiting a sid conn exit => some (sh, .returned a sid conn exit)
  | .returned .. | .refused _ | .rejected => none

/-- A connection starts with an upgrade request. -/
def entry : Conn → Bool
  | .request _ => true
  | _ => false

end Conn

end OpenabPty
