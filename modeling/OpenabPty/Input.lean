import OpenabPty.Core.Fifo
import OpenabPty.Core.History
import OpenabPty.TermFilter
import OpenabPty.Wires

/-!
# The input path of a session (`session.rs`)

`write_input` checks the fence against the mirror, filters, and sends the chunk to a FIFO channel;
the writer thread takes it out and checks the fence again before it writes. In between the session
may change hands any number of times.
-/

namespace OpenabPty

/-- `INPUT_QUEUE_CHUNKS`. -/
def inputQueueChunks : Nat := 64

/-- `InputChunk`. -/
structure InputChunk where
  conn : ConnGeneration
  bytes : List UInt8
  runtimeOriginated : Bool
  deriving DecidableEq, Repr

/-- `InputError`. -/
inductive InputError where
  | evicted
  | backpressure
  deriving DecidableEq, Repr

/-- Where the writer thread is. -/
inductive Writer where
  | recv
  | check (chunk : InputChunk)
  | write (chunk : InputChunk)
  | ended
  deriving DecidableEq

/-- A call of `write_input` or of `answer_child`. -/
inductive InputCall where
  -- `write_input`
  | alive (conn : ConnGeneration) (bytes : List UInt8)
  | fence (conn : ConnGeneration) (bytes : List UInt8)
  | filter (conn : ConnGeneration) (bytes : List UInt8)
  | send (conn : ConnGeneration) (filtered : List UInt8)
  | touch
  | returned (result : Except InputError Unit)
  -- `answer_child`
  | answerOwner (bytes : List UInt8)
  | answerSend (conn : ConnGeneration) (bytes : List UInt8)
  | answered
  deriving DecidableEq

/-- One session with its input channel, its writer thread and the calls in flight; `pty` is what
has been written to the PTY master. -/
structure InputPath where
  now : Instant
  session : Session
  filter : Option TermFilter
  queue : List InputChunk
  writer : Writer
  pty : List InputChunk
  calls : List InputCall

/-- What happens next: an operation of the session runs its locked section, a call starts or goes
on, the writer goes on, or time passes. -/
inductive InputLabel where
  | attach (generation : Generation) (size : WindowSize) (since : Option Nat)
  | detach (conn : ConnGeneration)
  | missedPing (conn : ConnGeneration)
  | pong (conn : ConnGeneration)
  | renew
  | teardown (cls : TerminationClass)
  | writeInput (conn : ConnGeneration) (bytes : List UInt8)
  | answerChild (bytes : List UInt8)
  | call (i : Nat)
  | writer (ok : Bool)
  | elapse (d : Duration)
  deriving DecidableEq

/-- The connection number has been handed out. -/
def Session.issued (s : Session) (conn : ConnGeneration) : Bool :=
  0 < conn.val && conn.val < s.state.nextConn

namespace InputPath

/-- A session that was just spawned. -/
def init (policy : SessionPolicy) (name : SessionName) (generation : Generation) (size : WindowSize)
    (now : Instant) (scrollbackKib : Nat) (tierBestEffort : Bool) (filter : Option TermFilter) :
    InputPath :=
  { now := now
    session := .new name generation size now scrollbackKib tierBestEffort policy
    filter := filter
    queue := []
    writer := .recv
    pty := []
    calls := [] }

/-- `try_send`. -/
def trySend (p : InputPath) (chunk : InputChunk) : InputPath × TrySend :=
  if p.writer = .ended then (p, .closed)
  else if inputQueueChunks ≤ p.queue.length then (p, .full)
  else ({ p with queue := p.queue ++ [chunk] }, .sent)

/-- What the terminal filter, if there is one, leaves of a chunk. -/
def filtered (p : InputPath) (bytes : List UInt8) : Option TermFilter × List UInt8 :=
  match p.filter with
  | some filter => (some (filter.filter bytes).1, (filter.filter bytes).2)
  | none => (none, bytes)

/-- The next section of a call. -/
def callStep (p : InputPath) : InputCall → Option (InputPath × InputCall)
  | .alive conn bytes =>
    some (p, if p.session.io.alive then .fence conn bytes else .returned (.error .evicted))
  | .fence conn bytes =>
    some (p, if p.session.io.ownerConn ≠ conn then .returned (.error .evicted)
             else .filter conn bytes)
  | .filter conn bytes =>
    let filtered := p.filtered bytes
    some ({ p with filter := filtered.1 },
      if filtered.2 = [] then .returned (.ok ()) else .send conn filtered.2)
  | .send conn filtered =>
    match p.trySend { conn := conn, bytes := filtered, runtimeOriginated := false } with
    | (p, .sent) => some (p, .touch)
    | (p, .full) => some (p, .returned (.error .backpressure))
    | (p, .closed) => some (p, .returned (.error .evicted))
  | .touch => some ({ p with session := p.session.touch p.now }, .returned (.ok ()))
  | .answerOwner bytes => some (p, .answerSend p.session.io.ownerConn bytes)
  | .answerSend conn bytes =>
    -- An answer that does not fit is dropped.
    some ((p.trySend { conn := conn, bytes := bytes, runtimeOriginated := true }).1, .answered)
  | .returned _ | .answered => none

/-- The next section of the writer thread; `ok` is what `write_all` returns. -/
def writerStep (p : InputPath) (ok : Bool) : Option InputPath :=
  match p.writer with
  | .recv =>
    match p.queue with
    | [] => none
    | chunk :: rest => some { p with queue := rest, writer := .check chunk }
  | .check chunk =>
    some { p with
      writer := if !chunk.runtimeOriginated && p.session.io.ownerConn ≠ chunk.conn then .recv
                else .write chunk }
  | .write chunk =>
    if ok then some { p with pty := p.pty ++ [chunk], writer := .recv }
    else some { p with writer := .ended }
  | .ended => none

/-- One atomic step. -/
def step (policy : SessionPolicy) (scrollbackReplay : Bool) (p : InputPath) :
    InputLabel → Option InputPath
  | .attach generation size since =>
    some { p with session :=
      (p.session.attachLocked policy scrollbackReplay generation size since p.now).1 }
  | .detach conn =>
    if p.session.issued conn then some { p with session := p.session.detach conn } else none
  | .missedPing conn =>
    if p.session.issued conn then
      some { p with session := (p.session.onMissedPingLocked conn).1 }
    else none
  | .pong conn =>
    if p.session.issued conn then some { p with session := p.session.onPongLocked conn } else none
  | .renew => some { p with session := p.session.renewLocked.1 }
  | .teardown cls => some { p with session := (p.session.teardownLocked cls).1 }
  | .writeInput conn bytes =>
    if p.session.issued conn then some { p with calls := p.calls ++ [.alive conn bytes] } else none
  | .answerChild bytes => some { p with calls := p.calls ++ [.answerOwner bytes] }
  | .call i =>
    p.calls[i]?.bind fun call =>
      (p.callStep call).map fun r => { r.1 with calls := r.1.calls.set i r.2 }
  | .writer ok => p.writerStep ok
  | .elapse d => some { p with now := p.now + d }

end InputPath

/-! ## The claim -/

/-- What the writer made of a chunk: who owned the session when it checked, whether the chunk's
connection had lost the session when it was dequeued, and whether it goes on to the PTY. -/
structure Verdict where
  chunk : InputChunk
  owner : ConnGeneration
  stale : Bool
  forwarded : Bool
  deriving DecidableEq

/-- The connections that attached, the filtered chunks that `write_input` returned `Ok` for, and
the verdicts of the writer, all in order; `stale` is about the chunk dequeued last. -/
structure InputLog where
  assigned : List ConnGeneration
  accepted : List InputChunk
  stale : Bool
  verdicts : List Verdict
  deriving DecidableEq

namespace InputLog

/-- What a section of a call adds to the accepted chunks. An empty chunk is accepted, and not
sent. -/
def accepts (p : InputPath) : InputCall → List InputChunk
  | .filter conn bytes =>
    if (p.filtered bytes).2 = [] then [{ conn := conn, bytes := [], runtimeOriginated := false }] else []
  | .send conn filtered =>
    let chunk := { conn := conn, bytes := filtered, runtimeOriginated := false }
    match (p.trySend chunk).2 with
    | .sent => [chunk]
    | _ => []
  | _ => []

/-- What a step adds to the log. -/
def note (policy : SessionPolicy) (scrollbackReplay : Bool) (p : InputPath) (l : InputLabel)
    (_ : InputPath) (log : InputLog) : InputLog :=
  match l with
  | .attach generation size since =>
    match (p.session.attachLocked policy scrollbackReplay generation size since p.now).2 with
    | .ok reg => { log with assigned := log.assigned ++ [reg.conn] }
    | .error _ => log
  | .call i => { log with accepted := log.accepted ++ (p.calls[i]?.toList.flatMap (accepts p)) }
  | .writer _ =>
    match p.writer with
    | .recv => { log with stale := p.queue.head?.any (p.session.state.ownerConn ≠ ·.conn) }
    | .check chunk =>
      { log with
        verdicts := log.verdicts ++
          [{ chunk := chunk, owner := p.session.state.ownerConn, stale := log.stale,
             forwarded := chunk.runtimeOriginated || p.session.io.ownerConn = chunk.conn }] }
    | _ => log
  | _ => log

theorem client_of_accepts {p : InputPath} {call : InputCall} {chunk : InputChunk}
    (h : chunk ∈ accepts p call) : chunk.runtimeOriginated = false := by
  unfold accepts at h
  split at h
  · split at h
    · obtain rfl := List.mem_singleton.mp h
      rfl
    · cases h
  · dsimp only at h
    split at h
    · obtain rfl := List.mem_singleton.mp h
      rfl
    · cases h
  · cases h

end InputLog

/-- The input path with the log. -/
abbrev InputRun := Trace.Noted InputPath InputLog

namespace InputRun

def next (policy : SessionPolicy) (scrollbackReplay : Bool) : InputRun → InputLabel → Option InputRun :=
  Trace.noted (InputPath.step policy scrollbackReplay) (InputLog.note policy scrollbackReplay)

def init (p : InputPath) : InputRun :=
  { state := p, log := { assigned := [], accepted := [], stale := false, verdicts := [] } }

/-- The chunks of a client that came from one connection. -/
def ofConn (c : ConnGeneration) (chunks : List InputChunk) : List InputChunk :=
  chunks.filter fun chunk => !chunk.runtimeOriginated && chunk.conn = c

/-- The input fence. -/
structure Fenced (w : InputRun) : Prop where
  /-- Connection numbers are never reused. -/
  assigned : w.log.assigned.Nodup
  /-- What reaches the PTY was judged by the writer, in this order. -/
  judged : w.state.pty <+: (w.log.verdicts.filter (·.forwarded)).map (·.chunk)
  /-- A client chunk is only forwarded when its connection owned the session at the check. -/
  checked : ∀ v ∈ w.log.verdicts, v.chunk.runtimeOriginated = false → v.forwarded = true →
    v.owner = v.chunk.conn
  /-- A client chunk dequeued after its connection lost the session is discarded. -/
  discarded : ∀ v ∈ w.log.verdicts, v.chunk.runtimeOriginated = false → v.stale = true →
    v.forwarded = false
  /-- What reaches the PTY from a connection is a prefix of what it was told `Ok` for. -/
  order : ∀ c, ofConn c w.state.pty <+: (ofConn c w.log.accepted).filter (·.bytes ≠ [])
  bytes : ∀ c, (ofConn c w.state.pty).flatMap (·.bytes) <+:
    (ofConn c w.log.accepted).flatMap (·.bytes)

end InputRun

/-! ## The invariant -/

/-- The connection a call of `write_input` is for. -/
def InputCall.conn : InputCall → Option ConnGeneration
  | .alive c _ | .fence c _ | .filter c _ | .send c _ => some c
  | _ => none

/-- The chunk that was dequeued and is not judged yet. -/
def Writer.held : Writer → List InputChunk
  | .check chunk => [chunk]
  | _ => []

/-- The chunk that is on its way to the PTY. -/
def Writer.writing : Writer → List InputChunk
  | .write chunk => [chunk]
  | _ => []

/-- The chunks of clients. -/
def fromClients (chunks : List InputChunk) : List InputChunk := chunks.filter fun c => !c.runtimeOriginated

/-- The chunks that hold something. -/
def nonempty (chunks : List InputChunk) : List InputChunk := chunks.filter fun c => c.bytes ≠ []

/-- What the invariant says of the session, its connections and their calls. -/
structure InputRun.Attached (w : InputRun) : Prop where
  wire : w.state.session.wire.Valid
  nodup : w.log.assigned.Nodup
  assigned : ∀ c ∈ w.log.assigned, c.val < w.state.session.state.nextConn
  calls : ∀ call ∈ w.state.calls, ∀ c, call.conn = some c → w.state.session.issued c = true
  sends : ∀ c filtered, .send c filtered ∈ w.state.calls → filtered ≠ []

/-- What the invariant says of the chunks: none is lost or reordered on its way, and a
connection that was refused once does not own the session any more. -/
structure InputRun.Flows (w : InputRun) : Prop where
  chunks : ∀ chunk ∈ w.log.verdicts.map (·.chunk) ++ w.state.writer.held ++ w.state.queue,
    chunk.runtimeOriginated = false →
      w.state.session.issued chunk.conn = true ∧ chunk.bytes ≠ []
  running : w.state.writer ≠ .ended → nonempty w.log.accepted =
    fromClients (w.log.verdicts.map (·.chunk) ++ w.state.writer.held ++ w.state.queue)
  accepted : fromClients (w.log.verdicts.map (·.chunk)) <+: nonempty w.log.accepted
  clients : ∀ chunk ∈ w.log.accepted, chunk.runtimeOriginated = false
  writing : w.state.writer ≠ .ended → w.state.pty ++ w.state.writer.writing =
    (w.log.verdicts.filter (·.forwarded)).map (·.chunk)
  judged : w.state.pty <+: (w.log.verdicts.filter (·.forwarded)).map (·.chunk)
  refused : ∀ v ∈ w.log.verdicts, v.chunk.runtimeOriginated = false → v.forwarded = false →
    w.state.session.state.ownerConn ≠ v.chunk.conn
  checked : ∀ v ∈ w.log.verdicts, v.chunk.runtimeOriginated = false → v.forwarded = true →
    v.owner = v.chunk.conn
  stale : ∀ chunk ∈ w.state.writer.held, chunk.runtimeOriginated = false → w.log.stale = true →
    w.state.session.state.ownerConn ≠ chunk.conn
  discarded : ∀ v ∈ w.log.verdicts, v.chunk.runtimeOriginated = false → v.stale = true →
    v.forwarded = false
  final : Fifo.Final (·.forwarded) (·.chunk.conn)
    (w.log.verdicts.filter fun v => !v.chunk.runtimeOriginated)

namespace InputRun

variable {w w' : InputRun}

theorem ofConn_eq (c : ConnGeneration) (chunks : List InputChunk) :
    ofConn c chunks = (fromClients chunks).filter (·.conn = c) := by
  rw [ofConn, fromClients, List.filter_filter]
  exact List.filter_congr fun _ _ => Bool.and_comm _ _

theorem flatMap_nonempty (chunks : List InputChunk) :
    (nonempty chunks).flatMap (·.bytes) = chunks.flatMap (·.bytes) := by
  induction chunks with
  | nil => rfl
  | cons chunk chunks ih =>
    by_cases h : chunk.bytes = []
    · rw [nonempty, List.filter_cons_of_neg (by simpa using h), List.flatMap_cons, h,
        List.nil_append]
      exact ih
    · rw [nonempty, List.filter_cons_of_pos (by simpa using h), List.flatMap_cons,
        List.flatMap_cons]
      exact congrArg (chunk.bytes ++ ·) ih

/-- What reaches the PTY from a connection is a prefix of what the writer judged of it. -/
theorem Flows.order (h : w.Flows) (c : ConnGeneration) :
    ofConn c w.state.pty <+: (ofConn c w.log.accepted).filter (·.bytes ≠ []) := by
  have hjudged : ofConn c w.state.pty <+:
      ofConn c ((w.log.verdicts.filter (·.forwarded)).map (·.chunk)) := h.judged.filter _
  have hpassed : ofConn c ((w.log.verdicts.filter (·.forwarded)).map (·.chunk)) <+:
      ofConn c (w.log.verdicts.map (·.chunk)) := by
    have hofConn : ∀ l : List Verdict, ofConn c (l.map (·.chunk)) =
        ((l.filter fun v => !v.chunk.runtimeOriginated).filter (·.chunk.conn = c)).map (·.chunk) := by
      intro l
      rw [ofConn_eq, fromClients, List.filter_map, List.filter_map]
      rfl
    rw [hofConn, hofConn, List.filter_comm (fun v : Verdict => !v.chunk.runtimeOriginated)]
    exact (h.final.isPrefix c).map (·.chunk)
  have haccepted : ofConn c (w.log.verdicts.map (·.chunk)) <+:
      (ofConn c w.log.accepted).filter (·.bytes ≠ []) := by
    have hall : fromClients w.log.accepted = w.log.accepted := by
      refine List.filter_eq_self.mpr fun chunk hchunk => ?_
      rw [h.clients chunk hchunk]
      rfl
    rw [ofConn_eq, ofConn_eq, hall, List.filter_comm]
    exact h.accepted.filter _
  exact hjudged.trans (hpassed.trans haccepted)

theorem Flows.bytes (h : w.Flows) (c : ConnGeneration) :
    (ofConn c w.state.pty).flatMap (·.bytes) <+: (ofConn c w.log.accepted).flatMap (·.bytes) := by
  rw [← flatMap_nonempty (ofConn c w.log.accepted)]
  obtain ⟨rest, hrest⟩ := h.order c
  refine ⟨rest.flatMap (·.bytes), ?_⟩
  rw [← List.flatMap_append, hrest]
  rfl

/-! ## What one step does -/

theorem issued_act {s s' : Session} {a : WireAction} (h : s'.wire = s.wire.act a)
    {c : ConnGeneration} (hc : s.issued c = true) : s'.issued c = true := by
  have hle : s.state.nextConn ≤ s'.state.nextConn := by
    show s.wire.fence.nextConn ≤ s'.wire.fence.nextConn
    rw [h]
    exact s.wire.nextConn_act a
  simp only [Session.issued, Bool.and_eq_true, decide_eq_true_eq] at hc ⊢
  exact ⟨hc.1, Nat.lt_of_lt_of_le hc.2 hle⟩

/-- A connection number that was handed out never owns the session again once it does not. -/
theorem not_owner_act {s s' : Session} {a : WireAction} (h : s'.wire = s.wire.act a)
    {c : ConnGeneration} (hc : s.issued c = true) (hne : s.state.ownerConn ≠ c) :
    s'.state.ownerConn ≠ c := by
  simp only [Session.issued, Bool.and_eq_true, decide_eq_true_eq] at hc
  show s'.wire.fence.ownerConn ≠ c
  rw [h]
  exact Session.Wire.not_owner_act (w := s.wire) hc.1 hc.2 hne a

end InputRun

namespace InputPath

variable {policy : SessionPolicy} {scrollbackReplay : Bool} {p p' : InputPath} {l : InputLabel}

/-- A send leaves everything but the queue alone. -/
theorem trySend_cases (p : InputPath) (chunk : InputChunk) :
    (p.writer ≠ .ended ∧ p.trySend chunk = ({ p with queue := p.queue ++ [chunk] }, .sent)) ∨
      ∃ result, result ≠ .sent ∧ p.trySend chunk = (p, result) := by
  unfold trySend
  split
  · exact .inr ⟨.closed, nofun, rfl⟩
  · split
    · exact .inr ⟨.full, nofun, rfl⟩
    · exact .inl ⟨‹_›, rfl⟩

/-- What a step of a call does to the channel. -/
inductive Sends (p p' : InputPath) (call : InputCall) : Prop
  | none (hqueue : p'.queue = p.queue) (haccepts : nonempty (InputLog.accepts p call) = [])
  | one (chunk : InputChunk) (hrunning : p.writer ≠ .ended)
      (hqueue : p'.queue = p.queue ++ [chunk])
      (haccepts : InputLog.accepts p call = fromClients [chunk])
      (hcall : chunk.runtimeOriginated = false → call = .send chunk.conn chunk.bytes)

/-- A step of a call leaves the fence alone, and sends one chunk at most. -/
theorem callStep_cases {call call' : InputCall} (h : p.callStep call = some (p', call')) :
    (∀ c, call'.conn = some c → call.conn = some c) ∧
    (∀ c filtered, call' = .send c filtered → filtered ≠ []) ∧
    (p'.session.wire = p.session.wire ∧ p'.writer = p.writer ∧ p'.pty = p.pty ∧
      p'.calls = p.calls) ∧ p.Sends p' call := by
  cases call with
  | alive conn bytes =>
    cases h
    refine ⟨fun c hc => ?_, fun c filtered hsend => ?_, ⟨rfl, rfl, rfl, rfl⟩, .none rfl rfl⟩
    · split at hc <;> cases hc
      rfl
    · split at hsend <;> cases hsend
  | fence conn bytes =>
    cases h
    refine ⟨fun c hc => ?_, fun c filtered hsend => ?_, ⟨rfl, rfl, rfl, rfl⟩, .none rfl rfl⟩
    · split at hc <;> cases hc
      rfl
    · split at hsend <;> cases hsend
  | filter conn bytes =>
    cases h
    refine ⟨fun c hc => ?_, fun c filtered hsend => ?_, ⟨rfl, rfl, rfl, rfl⟩, .none rfl ?_⟩
    · split at hc <;> cases hc
      rfl
    · split at hsend
      · cases hsend
      · rename_i hne
        cases hsend
        exact hne
    · rw [InputLog.accepts]
      split <;> rfl
  | send conn filtered =>
    rcases p.trySend_cases { conn := conn, bytes := filtered, runtimeOriginated := false } with
      ⟨hrunning, heq⟩ | ⟨result, hresult, heq⟩
    · simp only [callStep] at h
      rw [heq] at h
      cases h
      refine ⟨nofun, nofun, ⟨rfl, rfl, rfl, rfl⟩, .one _ hrunning rfl ?_ fun _ => rfl⟩
      simp only [InputLog.accepts]
      rw [heq]
      rfl
    · simp only [callStep] at h
      rw [heq] at h
      have haccepts : InputLog.accepts p (.send conn filtered) = [] := by
        simp only [InputLog.accepts]
        rw [heq]
        cases result <;> first | rfl | exact absurd rfl hresult
      have hnone : nonempty (InputLog.accepts p (.send conn filtered)) = [] := by
        rw [haccepts]
        rfl
      cases result with
      | sent => exact absurd rfl hresult
      | full | closed =>
        cases h
        exact ⟨nofun, nofun, ⟨rfl, rfl, rfl, rfl⟩, .none rfl hnone⟩
  | touch =>
    cases h
    exact ⟨nofun, nofun, ⟨rfl, rfl, rfl, rfl⟩, .none rfl rfl⟩
  | answerOwner bytes =>
    cases h
    exact ⟨nofun, nofun, ⟨rfl, rfl, rfl, rfl⟩, .none rfl rfl⟩
  | answerSend conn bytes =>
    rcases p.trySend_cases { conn := conn, bytes := bytes, runtimeOriginated := true } with
      ⟨hrunning, heq⟩ | ⟨result, -, heq⟩ <;>
      simp only [callStep] at h <;> rw [heq] at h <;> cases h
    · exact ⟨nofun, nofun, ⟨rfl, rfl, rfl, rfl⟩, .one _ hrunning rfl rfl nofun⟩
    · exact ⟨nofun, nofun, ⟨rfl, rfl, rfl, rfl⟩, .none rfl rfl⟩
  | returned result => cases h
  | answered => cases h

/-- What the locked sections do to the fence. -/
theorem wire_step (h : p.step policy scrollbackReplay l = some p') :
    ∃ a, p'.session.wire = p.session.wire.act a := by
  cases l with
  | attach generation size since =>
    cases h
    exact ⟨_, p.session.wire_attachLocked policy scrollbackReplay generation size since p.now⟩
  | detach conn =>
    simp only [step] at h
    split at h <;> cases h
    exact ⟨_, p.session.wire_detach conn⟩
  | missedPing conn =>
    simp only [step] at h
    split at h <;> cases h
    exact ⟨_, p.session.wire_onMissedPingLocked conn⟩
  | pong conn =>
    simp only [step] at h
    split at h <;> cases h
    exact ⟨.none, p.session.wire_onPongLocked conn⟩
  | renew | teardown cls =>
    cases h
    exact ⟨.release, rfl⟩
  | writeInput conn bytes =>
    simp only [step] at h
    split at h <;> cases h
    exact ⟨.none, rfl⟩
  | answerChild bytes | elapse d =>
    cases h
    exact ⟨.none, rfl⟩
  | call i =>
    obtain ⟨call, -, h⟩ := Option.bind_eq_some_iff.mp h
    obtain ⟨⟨p₁, call'⟩, hcall, heq⟩ := Option.map_eq_some_iff.mp h
    cases heq
    exact ⟨.none, (callStep_cases hcall).2.2.1.1⟩
  | writer ok =>
    simp only [step, writerStep] at h
    split at h
    · split at h <;> cases h
      exact ⟨.none, rfl⟩
    · cases h
      exact ⟨.none, rfl⟩
    · split at h <;> cases h <;> exact ⟨.none, rfl⟩
    · cases h

end InputPath

namespace InputRun

variable {policy : SessionPolicy} {scrollbackReplay : Bool} {w w' : InputRun} {l : InputLabel}

/-- A step that leaves the channel alone keeps the flow, whatever it does to the fence. -/
theorem Flows.frame (h : w.Flows)
    (hwire : ∃ a, w'.state.session.wire = w.state.session.wire.act a)
    (hqueue : w'.state.queue = w.state.queue) (hwriter : w'.state.writer = w.state.writer)
    (hpty : w'.state.pty = w.state.pty) (hverdicts : w'.log.verdicts = w.log.verdicts)
    (hstale : w'.log.stale = w.log.stale)
    (haccepted : nonempty w'.log.accepted = nonempty w.log.accepted)
    (hclients : ∀ chunk ∈ w'.log.accepted, chunk.runtimeOriginated = false) : w'.Flows := by
  obtain ⟨a, hwire⟩ := hwire
  have hissued : ∀ chunk ∈ w.log.verdicts.map (·.chunk) ++ w.state.writer.held ++ w.state.queue,
      chunk.runtimeOriginated = false → w.state.session.state.ownerConn ≠ chunk.conn →
      w'.state.session.state.ownerConn ≠ chunk.conn := fun chunk hchunk hclient =>
    not_owner_act hwire (h.chunks chunk hchunk hclient).1
  constructor
  · rw [hverdicts, hwriter, hqueue]
    exact fun chunk hchunk hclient =>
      ⟨issued_act hwire (h.chunks chunk hchunk hclient).1, (h.chunks chunk hchunk hclient).2⟩
  · rw [hverdicts, hwriter, hqueue, haccepted]
    exact h.running
  · rw [hverdicts, haccepted]
    exact h.accepted
  · exact hclients
  · rw [hverdicts, hwriter, hpty]
    exact h.writing
  · rw [hverdicts, hpty]
    exact h.judged
  · rw [hverdicts]
    intro v hv hclient hrefused
    refine hissued v.chunk ?_ hclient (h.refused v hv hclient hrefused)
    exact List.mem_append_left _ (List.mem_append_left _ (List.mem_map_of_mem hv))
  · rw [hverdicts]
    exact h.checked
  · rw [hwriter, hstale]
    intro chunk hchunk hclient hstale
    refine hissued chunk ?_ hclient (h.stale chunk hchunk hclient hstale)
    exact List.mem_append_left _ (List.mem_append_right _ hchunk)
  · rw [hverdicts]
    exact h.discarded
  · rw [hverdicts]
    exact h.final

/-- A chunk is sent. -/
theorem Flows.send (h : w.Flows) {chunk : InputChunk} (hrunning : w.state.writer ≠ .ended)
    (hwire : w'.state.session.wire = w.state.session.wire)
    (hqueue : w'.state.queue = w.state.queue ++ [chunk]) (hwriter : w'.state.writer = w.state.writer)
    (hpty : w'.state.pty = w.state.pty) (hverdicts : w'.log.verdicts = w.log.verdicts)
    (hstale : w'.log.stale = w.log.stale)
    (haccepted : w'.log.accepted = w.log.accepted ++ fromClients [chunk])
    (hchunk : chunk.runtimeOriginated = false →
      w.state.session.issued chunk.conn = true ∧ chunk.bytes ≠ []) : w'.Flows := by
  have howner : w'.state.session.state.ownerConn = w.state.session.state.ownerConn :=
    congrArg (fun x : Session.Wire => x.fence.ownerConn) hwire
  have hissued : ∀ c, w.state.session.issued c = true → w'.state.session.issued c = true :=
    fun c hc => issued_act (a := .none) hwire hc
  have hnonempty : nonempty (fromClients [chunk]) = fromClients [chunk] := by
    refine List.filter_eq_self.mpr fun c hc => ?_
    obtain ⟨hmem, hclient⟩ := List.mem_filter.mp hc
    obtain rfl := List.mem_singleton.mp hmem
    simpa using (hchunk (by simpa using hclient)).2
  have happend : nonempty w'.log.accepted = nonempty w.log.accepted ++ fromClients [chunk] := by
    rw [haccepted, nonempty, List.filter_append]
    exact congrArg _ hnonempty
  constructor
  · rw [hverdicts, hwriter, hqueue, ← List.append_assoc]
    intro c hc hclient
    rcases List.mem_append.mp hc with hc | hc
    · exact ⟨hissued _ (h.chunks c hc hclient).1, (h.chunks c hc hclient).2⟩
    · obtain rfl := List.mem_singleton.mp hc
      exact ⟨hissued _ (hchunk hclient).1, (hchunk hclient).2⟩
  · intro _
    rw [hverdicts, hwriter, hqueue, happend, h.running hrunning, ← List.append_assoc]
    exact (List.filter_append _ _).symm
  · rw [hverdicts, happend]
    exact h.accepted.trans (List.prefix_append _ _)
  · rw [haccepted]
    intro c hc
    rcases List.mem_append.mp hc with hc | hc
    · exact h.clients c hc
    · simpa using (List.mem_filter.mp hc).2
  · rw [hverdicts, hwriter, hpty]
    exact h.writing
  · rw [hverdicts, hpty]
    exact h.judged
  · rw [hverdicts, howner]
    exact h.refused
  · rw [hverdicts]
    exact h.checked
  · rw [hwriter, hstale, howner]
    exact h.stale
  · rw [hverdicts]
    exact h.discarded
  · rw [hverdicts]
    exact h.final

/-- The writer takes the next chunk out. -/
theorem Flows.recv (h : w.Flows) {chunk : InputChunk} {rest : List InputChunk}
    (hwriter : w.state.writer = .recv) (hqueue : w.state.queue = chunk :: rest)
    (hstate : w'.state = { w.state with queue := rest, writer := .check chunk })
    (hlog : w'.log = { w.log with stale := decide (w.state.session.state.ownerConn ≠ chunk.conn) }) :
    w'.Flows := by
  have hnext : w.log.verdicts.map (·.chunk) ++ w.state.writer.held ++ w.state.queue =
      w.log.verdicts.map (·.chunk) ++ Writer.held (.check chunk) ++ rest := by
    rw [hwriter, hqueue]
    simp [Writer.held]
  have hne : w.state.writer ≠ .ended := by
    rw [hwriter]
    exact nofun
  have hwriting := h.writing hne
  rw [hwriter] at hwriting
  obtain ⟨state, log⟩ := w'
  cases hstate
  cases hlog
  refine ⟨hnext ▸ h.chunks, fun _ => hnext ▸ h.running hne, h.accepted, h.clients, fun _ => hwriting,
    h.judged, h.refused, h.checked, fun c hc _ hstale => ?_, h.discarded, h.final⟩
  obtain rfl := List.mem_singleton.mp hc
  exact of_decide_eq_true hstale

/-- The writer checks the chunk it has taken out. -/
theorem Flows.check (h : w.Flows) (hvalid : w.state.session.wire.Valid) {chunk : InputChunk}
    (hwriter : w.state.writer = .check chunk) {forwarded : Bool}
    (hforwarded : forwarded =
      (chunk.runtimeOriginated || decide (w.state.session.io.ownerConn = chunk.conn)))
    (hstate : w'.state =
      { w.state with writer := if forwarded = true then .write chunk else .recv })
    (hlog : w'.log = { w.log with
      verdicts := w.log.verdicts ++ [{ chunk := chunk, owner := w.state.session.state.ownerConn,
                                       stale := w.log.stale, forwarded := forwarded }] }) :
    w'.Flows := by
  have hmirror : w.state.session.io.ownerConn = w.state.session.state.ownerConn :=
    hvalid.fence.mirror
  rw [hmirror] at hforwarded
  have hne : w.state.writer ≠ .ended := by
    rw [hwriter]
    exact nofun
  have hheld : chunk ∈ w.state.writer.held := by
    rw [hwriter]
    exact List.mem_singleton_self _
  have hwriting := h.writing hne
  have hrunning := h.running hne
  have hchunks := h.chunks
  rw [hwriter] at hwriting hrunning hchunks
  have howner : chunk.runtimeOriginated = false → (forwarded = true ↔
      w.state.session.state.ownerConn = chunk.conn) := by
    intro hclient
    rw [hforwarded, hclient, Bool.false_or, decide_eq_true_iff]
  -- The chunk that was held is the last one judged now.
  have hheld' : ∀ (v : Verdict) (writer : Writer), v.chunk = chunk → writer.held = [] →
      (w.log.verdicts ++ [v]).map (·.chunk) ++ writer.held ++ w.state.queue =
        w.log.verdicts.map (·.chunk) ++ Writer.held (.check chunk) ++ w.state.queue := by
    rintro v writer rfl hnil
    rw [hnil, List.map_append, List.append_nil]
    rfl
  have hnil : Writer.held (if forwarded = true then .write chunk else .recv) = [] := by
    split <;> rfl
  obtain ⟨state, log⟩ := w'
  cases hstate
  cases hlog
  refine ⟨?_, fun _ => ?_, ?_, h.clients, fun _ => ?_, ?_, fun v hv hclient hrefused => ?_,
    fun v hv hclient hpassed => ?_, fun c hc => ?_, fun v hv hclient hstale => ?_, ?_⟩
  · dsimp only
    rw [hheld' _ _ rfl hnil]
    exact hchunks
  · dsimp only
    rw [hheld' _ _ rfl hnil]
    exact hrunning
  · dsimp only
    rw [hrunning, List.map_append]
    exact (List.prefix_append _ _).filter _
  · dsimp only
    rw [List.filter_append, List.map_append, ← hwriting]
    cases forwarded <;> simp [Writer.writing]
  · dsimp only
    rw [List.filter_append, List.map_append]
    exact h.judged.trans (List.prefix_append _ _)
  · rcases List.mem_append.mp hv with hv | hv
    · exact h.refused v hv hclient hrefused
    · obtain rfl := List.mem_singleton.mp hv
      intro heq
      rw [(howner hclient).mpr heq] at hrefused
      cases hrefused
  · rcases List.mem_append.mp hv with hv | hv
    · exact h.checked v hv hclient hpassed
    · obtain rfl := List.mem_singleton.mp hv
      exact (howner hclient).mp hpassed
  · dsimp only at hc
    rw [hnil] at hc
    cases hc
  · rcases List.mem_append.mp hv with hv | hv
    · exact h.discarded v hv hclient hstale
    · obtain rfl := List.mem_singleton.mp hv
      refine Bool.eq_false_iff.mpr fun hpassed => ?_
      exact h.stale chunk hheld hclient hstale ((howner hclient).mp hpassed)
  · dsimp only
    rw [List.filter_append]
    by_cases hclient : chunk.runtimeOriginated = false
    · rw [List.filter_cons_of_pos (by simpa using hclient), List.filter_nil]
      refine h.final.concat fun hpassed v hv hconn => ?_
      obtain ⟨hv, hvclient⟩ := List.mem_filter.mp hv
      by_contra hrefused
      refine h.refused v hv (by simpa using hvclient) (by simpa using hrefused) ?_
      exact ((howner hclient).mp hpassed).trans hconn.symm
    · rw [List.filter_cons_of_neg (by simpa using hclient), List.filter_nil, List.append_nil]
      exact h.final

/-- The writer writes the chunk it has checked, or fails and ends. -/
theorem Flows.write (h : w.Flows) {chunk : InputChunk} (hwriter : w.state.writer = .write chunk)
    (hlog : w'.log = w.log)
    (hstate : w'.state = { w.state with pty := w.state.pty ++ [chunk], writer := .recv } ∨
      w'.state = { w.state with writer := .ended }) : w'.Flows := by
  have hne : w.state.writer ≠ .ended := by
    rw [hwriter]
    exact nofun
  have hwriting := h.writing hne
  have hrunning := h.running hne
  have hchunks := h.chunks
  rw [hwriter] at hwriting hrunning hchunks
  obtain ⟨state, log⟩ := w'
  cases hlog
  rcases hstate with hstate | hstate <;> cases hstate
  · refine ⟨hchunks, fun _ => hrunning, h.accepted, h.clients, fun _ => ?_, ?_, h.refused, h.checked,
      fun c hc => absurd hc List.not_mem_nil, h.discarded, h.final⟩
    · dsimp only
      rw [← hwriting]
      exact List.append_nil _
    · dsimp only
      rw [← hwriting]
      exact List.prefix_refl _
  · exact ⟨hchunks, fun h => absurd rfl h, h.accepted, h.clients, fun h => absurd rfl h, h.judged,
      h.refused, h.checked, fun c hc => absurd hc List.not_mem_nil, h.discarded, h.final⟩

/-! ## Runs -/

/-- A step of a call. -/
theorem Flows.call (h : w.Flows) (ha : w.Attached) {i : Nat} {call call' : InputCall}
    {p : InputPath} (hi : w.state.calls[i]? = some call) (hcall : w.state.callStep call = some (p, call'))
    (hstate : w'.state = { p with calls := p.calls.set i call' })
    (hlog : w'.log =
      { w.log with accepted := w.log.accepted ++ (some call).toList.flatMap (InputLog.accepts w.state) }) :
    w'.Flows := by
  obtain ⟨-, -, ⟨hwire, hwriter, hpty, -⟩, heffect⟩ := InputPath.callStep_cases hcall
  have hmem : call ∈ w.state.calls := List.mem_of_getElem? hi
  have haccepts : w'.log.accepted = w.log.accepted ++ InputLog.accepts w.state call := by
    rw [hlog]
    simp
  have hwire' : w'.state.session.wire = w.state.session.wire := by
    rw [hstate]
    exact hwire
  cases heffect with
  | none hqueue hnone =>
    refine h.frame ⟨.none, hwire'⟩ (by rw [hstate]; exact hqueue) (by rw [hstate]; exact hwriter)
      (by rw [hstate]; exact hpty) (by rw [hlog]) (by rw [hlog]) ?_ fun chunk hchunk => ?_
    · rw [haccepts, nonempty, List.filter_append]
      exact (congrArg _ hnone).trans (List.append_nil _)
    · rw [haccepts] at hchunk
      rcases List.mem_append.mp hchunk with hold | hnew
      · exact h.clients chunk hold
      · exact InputLog.client_of_accepts hnew
  | one chunk hrunning hqueue hone hsend =>
    refine h.send hrunning hwire' (by rw [hstate]; exact hqueue) (by rw [hstate]; exact hwriter)
      (by rw [hstate]; exact hpty) (by rw [hlog]) (by rw [hlog]) (haccepts.trans (by rw [hone]))
      fun hclient => ?_
    have heq := hsend hclient
    exact ⟨ha.calls call hmem chunk.conn (by rw [heq]; rfl), ha.sends _ _ (heq ▸ hmem)⟩

theorem flows_next (h : w.Flows) (ha : w.Attached) (hs : next policy scrollbackReplay w l = some w') :
    w'.Flows := by
  obtain ⟨hstep, hlog⟩ := Trace.noted_eq_some hs
  have hwire := InputPath.wire_step hstep
  cases l with
  | attach generation size since =>
    obtain ⟨state, log⟩ := w'
    cases hstep
    have hsame : log.accepted = w.log.accepted ∧ log.verdicts = w.log.verdicts ∧
        log.stale = w.log.stale := by
      rw [show log = _ from hlog, InputLog.note]
      split <;> exact ⟨rfl, rfl, rfl⟩
    obtain ⟨haccepted, hverdicts, hstale⟩ := hsame
    refine h.frame hwire rfl rfl rfl hverdicts hstale (congrArg nonempty haccepted) ?_
    dsimp only
    rw [haccepted]
    exact h.clients
  | detach conn | missedPing conn | pong conn | writeInput conn bytes =>
    obtain ⟨state, log⟩ := w'
    simp only [InputPath.step] at hstep
    split at hstep <;> cases hstep
    exact h.frame hwire rfl rfl rfl (congrArg InputLog.verdicts hlog) (congrArg InputLog.stale hlog)
      (congrArg nonempty (congrArg InputLog.accepted hlog))
      (congrArg InputLog.accepted hlog ▸ h.clients)
  | renew | teardown cls | answerChild bytes | elapse d =>
    obtain ⟨state, log⟩ := w'
    cases hstep
    exact h.frame hwire rfl rfl rfl (congrArg InputLog.verdicts hlog) (congrArg InputLog.stale hlog)
      (congrArg nonempty (congrArg InputLog.accepted hlog))
      (congrArg InputLog.accepted hlog ▸ h.clients)
  | call i =>
    obtain ⟨call, hi, hstep⟩ := Option.bind_eq_some_iff.mp hstep
    obtain ⟨⟨p, call'⟩, hcall, heq⟩ := Option.map_eq_some_iff.mp hstep
    rw [InputLog.note, hi] at hlog
    exact h.call ha hi hcall heq.symm hlog
  | writer ok =>
    simp only [InputPath.step, InputPath.writerStep] at hstep
    simp only [InputLog.note] at hlog
    split at hstep
    · rename_i hwriter
      split at hstep
      · cases hstep
      · rename_i chunk rest hqueue
        rw [hwriter, hqueue] at hlog
        exact h.recv hwriter hqueue (Option.some.inj hstep).symm hlog
    · rename_i chunk hwriter
      rw [hwriter] at hlog
      refine h.check ha.wire hwriter rfl ((Option.some.inj hstep).symm.trans ?_) hlog
      cases chunk.runtimeOriginated <;> simp
    · rename_i chunk hwriter
      rw [hwriter] at hlog
      refine h.write hwriter hlog ?_
      split at hstep
      · exact .inl (Option.some.inj hstep).symm
      · exact .inr (Option.some.inj hstep).symm
    · cases hstep

/-- A step that hands out no number and adds no call. -/
theorem Attached.frame (h : w.Attached)
    (hwire : ∃ a, w'.state.session.wire = w.state.session.wire.act a)
    (hassigned : w'.log.assigned = w.log.assigned)
    (hcalls : ∀ call ∈ w'.state.calls, call ∈ w.state.calls ∨
      (∀ c, call.conn = some c → w.state.session.issued c = true) ∧
        ∀ c filtered, call = .send c filtered → filtered ≠ []) : w'.Attached := by
  obtain ⟨a, hwire⟩ := hwire
  refine ⟨hwire ▸ h.wire.act a, hassigned ▸ h.nodup, fun c hc => ?_, fun call hcall c hconn => ?_,
    fun c filtered hsend => ?_⟩
  · rw [hassigned] at hc
    refine Nat.lt_of_lt_of_le (h.assigned c hc) ?_
    show w.state.session.wire.fence.nextConn ≤ w'.state.session.wire.fence.nextConn
    rw [hwire]
    exact w.state.session.wire.nextConn_act a
  · refine issued_act hwire ?_
    rcases hcalls call hcall with hold | ⟨hissued, -⟩
    · exact h.calls call hold c hconn
    · exact hissued c hconn
  · rcases hcalls _ hsend with hold | ⟨-, hne⟩
    · exact h.sends c filtered hold
    · exact hne c filtered rfl

/-- An attach that is admitted hands out the next connection number. -/
theorem Attached.attach (h : w.Attached) {generation : Generation} {size : WindowSize}
    {since : Option Nat} (hs : next policy scrollbackReplay w (.attach generation size since) = some w') :
    w'.Attached := by
  obtain ⟨hstep, hlog⟩ := Trace.noted_eq_some hs
  have hwire := InputPath.wire_step hstep
  obtain ⟨state, log⟩ := w'
  cases hstep
  rcases w.state.session.attachLocked_cases w.state.now policy size scrollbackReplay generation since
    with ⟨s', error, heq, -⟩ | ⟨s', reg, heq, -, -, hfence, hconn⟩
  · refine h.frame hwire ?_ fun call hcall => .inl hcall
    dsimp only at hlog ⊢
    rw [hlog, InputLog.note, heq]
  · have hassigned : log.assigned = w.log.assigned ++ [reg.conn] := by
      dsimp only at hlog
      rw [hlog, InputLog.note, heq]
    obtain ⟨a, hwire⟩ := hwire
    have hnext : s'.state.nextConn = w.state.session.state.nextConn + 1 :=
      congrArg Session.Fence.nextConn hfence
    have hconn : reg.conn.val = w.state.session.state.nextConn := congrArg ConnGeneration.val hconn
    have hissued : ∀ c, w.state.session.issued c = true → s'.issued c = true := by
      intro c hc
      rw [heq] at hwire
      exact issued_act hwire hc
    have hvalid := h.wire.act a
    rw [← hwire] at hvalid
    refine ⟨hvalid, ?_, fun c hc => ?_, fun call hcall c hc => ?_, h.sends⟩
    · dsimp only
      rw [hassigned]
      refine List.nodup_append.mpr ⟨h.nodup, List.nodup_singleton _, fun c hc d hd heq => ?_⟩
      have hlt := h.assigned c hc
      rw [heq, List.mem_singleton.mp hd, hconn] at hlt
      exact Nat.lt_irrefl _ hlt
    · dsimp only at hc ⊢
      rw [hassigned] at hc
      rw [heq, hnext]
      rcases List.mem_append.mp hc with hc | hc
      · exact Nat.lt_succ_of_lt (h.assigned c hc)
      · obtain rfl := List.mem_singleton.mp hc
        rw [hconn]
        exact Nat.lt_succ_self _
    · dsimp only
      rw [heq]
      exact hissued c (h.calls call hcall c hc)

theorem attached_next (h : w.Attached) (hs : next policy scrollbackReplay w l = some w') :
    w'.Attached := by
  obtain ⟨hstep, hlog⟩ := Trace.noted_eq_some hs
  have hwire := InputPath.wire_step hstep
  cases l with
  | attach generation size since => exact h.attach hs
  | detach conn | missedPing conn | pong conn =>
    obtain ⟨state, log⟩ := w'
    simp only [InputPath.step] at hstep
    split at hstep <;> cases hstep
    exact h.frame hwire (congrArg InputLog.assigned hlog) fun call hcall => .inl hcall
  | renew | teardown cls | elapse d =>
    obtain ⟨state, log⟩ := w'
    cases hstep
    exact h.frame hwire (congrArg InputLog.assigned hlog) fun call hcall => .inl hcall
  | writeInput conn bytes =>
    obtain ⟨state, log⟩ := w'
    simp only [InputPath.step] at hstep
    split at hstep <;> cases hstep
    rename_i hissued
    refine h.frame hwire (congrArg InputLog.assigned hlog) fun call hcall => ?_
    rcases List.mem_append.mp hcall with hcall | hcall
    · exact .inl hcall
    · obtain rfl := List.mem_singleton.mp hcall
      exact .inr ⟨fun c hc => Option.some.inj hc ▸ hissued, nofun⟩
  | answerChild bytes =>
    obtain ⟨state, log⟩ := w'
    cases hstep
    refine h.frame hwire (congrArg InputLog.assigned hlog) fun call hcall => ?_
    rcases List.mem_append.mp hcall with hcall | hcall
    · exact .inl hcall
    · obtain rfl := List.mem_singleton.mp hcall
      exact .inr ⟨nofun, nofun⟩
  | call i =>
    obtain ⟨call, hi, hstep⟩ := Option.bind_eq_some_iff.mp hstep
    obtain ⟨⟨p, call'⟩, hcall, heq⟩ := Option.map_eq_some_iff.mp hstep
    obtain ⟨state, log⟩ := w'
    cases heq
    obtain ⟨hconn, hsend, ⟨-, -, -, hcalls⟩, -⟩ := InputPath.callStep_cases hcall
    have hassigned : log.assigned = w.log.assigned := by
      dsimp only at hlog
      rw [hlog]
      rfl
    refine h.frame hwire hassigned fun other hother => ?_
    rcases List.mem_or_eq_of_mem_set hother with hold | rfl
    · exact .inl (hcalls ▸ hold)
    · exact .inr ⟨fun c hc => h.calls call (List.mem_of_getElem? hi) c (hconn c hc), hsend⟩
  | writer ok =>
    have hassigned : w'.log.assigned = w.log.assigned := by
      rw [hlog, InputLog.note]
      split <;> rfl
    refine h.frame hwire hassigned fun call hcall => .inl ?_
    simp only [InputPath.step, InputPath.writerStep] at hstep
    obtain ⟨state, log⟩ := w'
    repeat' split at hstep
    all_goals cases hstep
    all_goals exact hcall

theorem attached_init (policy : SessionPolicy) (name : SessionName) (generation : Generation)
    (size : WindowSize) (now : Instant) (scrollbackKib : Nat) (tierBestEffort : Bool)
    (filter : Option TermFilter) :
    (init (.init policy name generation size now scrollbackKib tierBestEffort filter)).Attached where
  wire := Session.Wire.valid_fresh
  nodup := List.nodup_nil
  assigned _ h := absurd h List.not_mem_nil
  calls _ h := absurd h List.not_mem_nil
  sends _ _ h := absurd h List.not_mem_nil

theorem flows_init (policy : SessionPolicy) (name : SessionName) (generation : Generation)
    (size : WindowSize) (now : Instant) (scrollbackKib : Nat) (tierBestEffort : Bool)
    (filter : Option TermFilter) :
    (init (.init policy name generation size now scrollbackKib tierBestEffort filter)).Flows where
  chunks _ h := absurd h List.not_mem_nil
  running _ := rfl
  accepted := List.nil_prefix
  clients _ h := absurd h List.not_mem_nil
  writing _ := rfl
  judged := List.nil_prefix
  refused _ h := absurd h List.not_mem_nil
  checked _ h := absurd h List.not_mem_nil
  stale _ h := absurd h List.not_mem_nil
  discarded _ h := absurd h List.not_mem_nil
  final := Fifo.Final.nil

/-- Along every run, the input fence holds. -/
theorem fenced_run (policy : SessionPolicy) (scrollbackReplay : Bool) (name : SessionName)
    (generation : Generation) (size : WindowSize) (now : Instant) (scrollbackKib : Nat)
    (tierBestEffort : Bool) (filter : Option TermFilter) (run : List InputLabel) :
    Trace.AllStates (next policy scrollbackReplay) Fenced
      (init (.init policy name generation size now scrollbackKib tierBestEffort filter)) run := by
  have hinvariant : Trace.AllStates (next policy scrollbackReplay)
      (fun w : InputRun => w.Attached ∧ w.Flows)
      (init (.init policy name generation size now scrollbackKib tierBestEffort filter)) run :=
    Trace.AllStates.of_next (fun _ _ _ h hs => ⟨attached_next h.1 hs, flows_next h.2 h.1 hs⟩)
    ⟨attached_init policy name generation size now scrollbackKib tierBestEffort filter,
      flows_init policy name generation size now scrollbackKib tierBestEffort filter⟩
  refine hinvariant.imp fun w h => ?_
  exact ⟨h.1.nodup, h.2.judged, h.2.checked, h.2.discarded, h.2.order, h.2.bytes⟩

/-- A chunk that is in the queue when its connection is taken over is discarded. -/
example :
    (Trace.run (next .default false)
      (init (.init .default .sh ⟨1⟩ .default 0 0 false (some .new)))
      [.attach ⟨1⟩ .default none, .writeInput ⟨1⟩ [97], .call 0, .call 0, .call 0, .call 0,
       .attach ⟨1⟩ .default none, .writer true, .writer true]).map
      (fun w => (w.state.pty, w.log.verdicts.map fun v => (v.chunk.bytes, v.stale, v.forwarded))) =
      some ([], [([97], true, false)]) := by
  decide

end InputRun

end OpenabPty
