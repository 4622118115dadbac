import OpenabPty.Attaching
import OpenabPty.Stream

/-!
# The handoff from replay to live output

`on_output` writes the ring under the buffer lock, then copies the subscriber out of its own
lock, then pushes. `attach_with_replay` reads the ring under the buffer lock, gives it back,
replaces the subscriber under the other lock and pushes the replay when all locks are gone. The
two only exclude each other lock by lock: here each of these steps is a step of its own.
-/

namespace OpenabPty

/-- The arguments of `attach_with_replay`, and what it reads of the configuration and the
clock. -/
structure AttachCall where
  policy : SessionPolicy
  scrollbackReplay : Bool
  generation : Generation
  size : WindowSize
  since : Option Nat
  now : Instant

/-- Where `on_output` is: between two chunks, after the ring write, after the copy of the
subscriber. -/
inductive OutputPc where
  | idle
  | subscriber (bytes : List UInt8)
  | push (bytes : List UInt8) (subscriber : Option ConnGeneration)
  deriving DecidableEq, Repr

/-- Where `attach_with_replay` is, from its locked section on. -/
inductive AttachPc where
  | cas
  | register (conn : ConnGeneration)
  | replace (conn : ConnGeneration) (streamOffset : Nat) (replay : Option Replay)
  | closePrevious (reg : Registration) (previous : ConnGeneration)
  | subscriberFor (reg : Registration)
  | notice (reg : Registration)
  | replayGap (reg : Registration) (dropped : Nat) (bytes : List UInt8)
  | replayBytes (reg : Registration) (bytes : List UInt8)
  | resize (reg : Registration)
  | returned (reg : Registration)
  | refused (error : Error)
  deriving DecidableEq

namespace AttachPc

/-- The step after the attach notice. -/
def afterNotice (reg : Registration) : AttachPc :=
  match reg.replay with
  | none => .resize reg
  | some (.contiguous bytes _) => .replayBytes reg bytes
  | some (.gap dropped bytes _) => .replayGap reg dropped bytes

/-- The next step of `attach_with_replay`. The first three run under the state lock, which
`on_output` never takes. -/
def step (call : AttachCall) (s : Session) : AttachPc → Option (Session × AttachPc)
  | .cas =>
    match s.attachCas call.policy call.generation call.size call.now with
    | (s, .error error) => some (s, .refused error)
    | (s, .ok conn) => some (s, .register conn)
  | .register conn =>
    let registered := s.registerReplay call.scrollbackReplay call.since
    some (s, .replace conn registered.1 registered.2)
  | .replace conn streamOffset replay =>
    let replaced := s.replaceSubscriber conn
    let reg : Registration :=
      { conn := conn, evicted := replaced.2, replay := replay, streamOffset := streamOffset }
    some (replaced.1,
      match reg.evicted with
      | some previous => .closePrevious reg previous
      | none => .subscriberFor reg)
  | .closePrevious reg previous =>
    some (s.onOutbound previous (·.close CloseCode.takeover), .subscriberFor reg)
  | .subscriberFor reg =>
    some (s, match s.subscriberFor reg.conn with
      | some _ => .notice reg
      | none => .refused (.other "attach lost the CAS immediately"))
  | .notice reg =>
    some (s.onOutbound reg.conn (·.pushControl s.attachNotice), afterNotice reg)
  | .replayGap reg dropped bytes =>
    some (s.onOutbound reg.conn (·.pushControl (.gap dropped)), .replayBytes reg bytes)
  | .replayBytes reg bytes =>
    some (s.onOutbound reg.conn (·.pushBytes bytes), .resize reg)
  | .resize reg => some ((s.controlResize call.size).touch call.now, .returned reg)
  | .returned _ | .refused _ => none

end AttachPc

/-- One session with its output pump, one attach to it and the task that drains the new
connection. `stream` is everything the pump has written to the ring so far, `received` what was
drained. -/
structure Handoff where
  session : Session
  stream : List UInt8
  output : OutputPc
  attach : AttachPc
  received : List OutboundItem
  deriving DecidableEq

namespace Handoff

/-- What may happen next: a step of `on_output`, of the attach or of the drain, or a control
frame or a close code for one of the connections. -/
inductive Label where
  | write (bytes : List UInt8)
  | subscriber (now : Instant)
  | push
  | attach
  | control (conn : ConnGeneration) (event : ControlEvent)
  | close (conn : ConnGeneration) (code : Nat)
  | drain
  deriving DecidableEq

/-- Before the attach, between two chunks. -/
def start (s : Session) (stream : List UInt8) : Handoff :=
  { session := s, stream := stream, output := .idle, attach := .cas, received := [] }

def next (call : AttachCall) (h : Handoff) : Label → Option Handoff
  | .write bytes =>
    match h.output with
    | .idle =>
      some { h with session := h.session.writeBuffer bytes, stream := h.stream ++ bytes,
                    output := .subscriber bytes }
    | _ => none
  | .subscriber now =>
    match h.output with
    | .subscriber bytes =>
      some { h with session := h.session.touch now,
                    output := .push bytes h.session.io.subscriber }
    | _ => none
  | .push =>
    match h.output with
    | .push bytes (some conn) =>
      some { h with session := h.session.onOutbound conn (·.pushBytes bytes), output := .idle }
    | .push _ none => some { h with output := .idle }
    | _ => none
  | .attach =>
    (h.attach.step call h.session).map fun p => { h with session := p.1, attach := p.2 }
  | .control conn event =>
    -- The notice and the gap of a replay are the attach's own.
    match event with
    | .ttlWarning .. | .shuttingDown .. =>
      some { h with session := h.session.onOutbound conn (·.pushControl event) }
    | _ => none
  | .close conn code => some { h with session := h.session.onOutbound conn (·.close code) }
  | .drain =>
    match h.attach, h.session.newest.bind (·.tryNext.2) with
    | .returned reg, some item =>
      some { h with session := h.session.onOutbound reg.conn (·.tryNext.1),
                    received := h.received ++ [item] }
    | _, _ => none

end Handoff

/-- The PTY bytes of a sequence of items. -/
def payload (items : List OutboundItem) : List UInt8 :=
  items.flatMap fun
    | .bytes bytes => bytes
    | _ => []

/-- The bytes of the replay that was registered. -/
def Registration.replayed (reg : Registration) : List UInt8 := reg.replay.elim [] Replay.bytes

/-- The offset of the first byte that the connection is handed. -/
def Registration.start (reg : Registration) : Nat := reg.streamOffset - reg.replayed.length

/-- Once the subscriber is replaced: the registration, and what is left to push of the
replay. -/
def AttachPc.joined : AttachPc → Option (Registration × List UInt8)
  | .closePrevious reg _ | .subscriberFor reg | .notice reg => some (reg, reg.replayed)
  | .replayGap reg _ bytes | .replayBytes reg bytes => some (reg, bytes)
  | .resize reg | .returned reg => some (reg, [])
  | _ => none

def AttachPc.hasReturned : AttachPc → Bool
  | .returned _ => true
  | _ => false

/-- The chunk that is in the ring and not yet on its way to a subscriber. -/
def OutputPc.pending : OutputPc → List UInt8
  | .subscriber bytes => bytes
  | _ => []

namespace Handoff

/-- The PTY bytes that were pushed to the new connection: what was drained of them and what is
queued. -/
def handed (h : Handoff) : List UInt8 :=
  payload h.received ++ (h.session.newest.elim [] (·.queue.buf))

/-- The new connection is handed the stream from `since` on: never anything else, and all of it
when the attach has returned and the pump is between two chunks. -/
def Exact (since : Nat) (h : Handoff) : Prop :=
  (∀ p ∈ h.attach.joined, h.handed <+: h.stream.drop since) ∧
  (h.attach.hasReturned = true → h.output = .idle → h.handed = h.stream.drop since)

instance (since : Nat) (h : Handoff) : Decidable (h.Exact since) := by
  unfold Exact
  infer_instance

/-- The push of `bytes` to `conn` does not overflow the new connection's backlog. -/
def Fits (h : Handoff) (conn : ConnGeneration) (bytes : List UInt8) : Prop :=
  ∀ o ∈ h.session.newest, o.conn = conn →
    o.queue.buf.length + bytes.length ≤ outboundBacklogKib * 1024

/-- No push overflows the backlog. -/
def NoOverflow (h : Handoff) : Label → Prop
  | .push =>
    match h.output with
    | .push bytes (some conn) => ∀ p ∈ h.attach.joined, h.Fits conn bytes
    | _ => True
  | .attach =>
    match h.attach with
    | .replayBytes reg bytes => h.Fits reg.conn bytes
    | _ => True
  | _ => True

/-- The cursor is within retention when the ring is read. -/
def Retained (since : Nat) (h : Handoff) : Label → Prop
  | .attach =>
    match h.attach with
    | .register _ =>
      0 < h.session.io.buffer.capacity ∧ h.session.io.buffer.earliestOffset ≤ since ∧
        since ≤ h.session.io.buffer.totalWritten
    | _ => True
  | _ => True

/-- The seam between replay and live output is kept: when the subscriber is replaced, the ring has
grown since it was read by the chunk that waits for its subscriber and by nothing else, and no
live chunk is pushed to the new connection before its replay. When the ring is read, its counter
has not saturated. -/
def Seamless (h : Handoff) : Label → Prop
  | .attach =>
    match h.attach with
    | .register _ => h.stream.length ≤ u64Max
    | .replace _ streamOffset _ => h.stream.length = streamOffset + h.output.pending.length
    | _ => True
  | .push =>
    match h.output with
    | .push bytes (some conn) =>
      ∀ p ∈ h.attach.joined, p.1.conn = conn → p.2 = [] ∨ bytes = []
    | _ => True
  | _ => True

instance (h : Handoff) (conn : ConnGeneration) (bytes : List UInt8) :
    Decidable (h.Fits conn bytes) := by
  unfold Fits
  infer_instance

instance (h : Handoff) (l : Label) : Decidable (h.NoOverflow l) := by
  unfold NoOverflow
  split
  · split <;> infer_instance
  · split <;> infer_instance
  · infer_instance

instance (since : Nat) (h : Handoff) (l : Label) : Decidable (h.Retained since l) := by
  unfold Retained
  split
  · split <;> infer_instance
  · infer_instance

instance (h : Handoff) (l : Label) : Decidable (h.Seamless l) := by
  unfold Seamless
  split
  · split <;> infer_instance
  · split <;> infer_instance
  · infer_instance

/-! ## Undisturbed: `on_output` and `attach_with_replay` -/

section Alone

variable {call : AttachCall} {s s' : Session} {stream : List UInt8} {conn : ConnGeneration}
  {offset : Nat}

/-- A chunk that is handed on without an attach in between goes through `on_output`. -/
theorem run_output (call : AttachCall) {h : Handoff} (hidle : h.output = .idle)
    (bytes : List UInt8) (now : Instant) :
    Trace.run (next call) h [.write bytes, .subscriber now, .push] =
      some { h with session := h.session.onOutput bytes now, stream := h.stream ++ bytes } := by
  obtain ⟨session, stream, output, attach, received⟩ := h
  obtain rfl : output = .idle := hidle
  simp only [Trace.run, next, Option.bind_some, Session.onOutput]
  cases hsub : (session.writeBuffer bytes).io.subscriber with
  | none =>
    rw [show ((session.writeBuffer bytes).touch now).io.subscriber = none from hsub]
    rfl
  | some conn =>
    rw [show ((session.writeBuffer bytes).touch now).io.subscriber = some conn from hsub]
    rfl

/-- An attach that takes steps while nothing else runs. -/
def Alone (call : AttachCall) : Handoff → Handoff → Prop :=
  Relation.ReflTransGen fun h h' => h.next call .attach = some h'

/-- The state of an attach on its own. -/
def only (s : Session) (stream : List UInt8) (pc : AttachPc) : Handoff :=
  { start s stream with attach := pc }

theorem Alone.step {h : Handoff} {s s' : Session} {pc pc' : AttachPc} (h₁ : Alone call h (only s stream pc))
    (hstep : pc.step call s = some (s', pc')) : Alone call h (only s' stream pc') := by
  refine h₁.tail ?_
  show (pc.step call s).map _ = _
  rw [hstep]
  rfl

/-- From the replacement of the subscriber to the lookup of the new queue. -/
theorem Alone.evict {h : Handoff} {reg : Registration}
    (h₁ : Alone call h (only s stream (match reg.evicted with
      | some previous => .closePrevious reg previous
      | none => .subscriberFor reg))) :
    Alone call h (only (match reg.evicted with
      | some previous => s.onOutbound previous (·.close CloseCode.takeover)
      | none => s) stream (.subscriberFor reg)) := by
  cases hevicted : reg.evicted with
  | none =>
    rw [hevicted] at h₁
    exact h₁
  | some previous =>
    rw [hevicted] at h₁
    exact h₁.step rfl

/-- From the lookup to the resize: the notice and the replay are pushed. -/
theorem Alone.push {h : Handoff} {reg : Registration} {c : ConnGeneration}
    (h₁ : Alone call h (only s stream (.subscriberFor reg)))
    (hfor : s.subscriberFor reg.conn = some c) :
    Alone call h (only (match reg.replay with
      | none => s.onOutbound reg.conn (·.pushControl s.attachNotice)
      | some (.contiguous bytes _) =>
        (s.onOutbound reg.conn (·.pushControl s.attachNotice)).onOutbound reg.conn
          (·.pushBytes bytes)
      | some (.gap dropped bytes _) =>
        ((s.onOutbound reg.conn (·.pushControl s.attachNotice)).onOutbound reg.conn
          (·.pushControl (.gap dropped))).onOutbound reg.conn (·.pushBytes bytes))
      stream (.resize reg)) := by
  have hfound : Alone call h (only s stream (.notice reg)) :=
    h₁.step (by simp only [AttachPc.step, hfor])
  have hnoticed : Alone call h (only (s.onOutbound reg.conn (·.pushControl s.attachNotice)) stream
      (AttachPc.afterNotice reg)) := hfound.step rfl
  unfold AttachPc.afterNotice at hnoticed
  split at hnoticed
  · exact hnoticed
  · exact hnoticed.step rfl
  · rename_i dropped bytes toOffset hreplay
    have hgap : Alone call h (only ((s.onOutbound reg.conn (·.pushControl s.attachNotice)).onOutbound
        reg.conn (·.pushControl (.gap dropped))) stream (.replayBytes reg bytes)) :=
      hnoticed.step rfl
    exact hgap.step rfl

/-- The state lock to the replacement of the subscriber: the locked section. -/
theorem alone_locked (stream : List UInt8) {s₁ : Session} {reg : Registration}
    (h : s.attachLocked call.policy call.scrollbackReplay call.generation call.size call.since
      call.now = (s₁, .ok reg)) :
    Alone call (start s stream) (only s₁ stream (match reg.evicted with
      | some previous => .closePrevious reg previous
      | none => .subscriberFor reg)) := by
  have hstart : Alone call (start s stream) (only s stream .cas) := .refl
  unfold Session.attachLocked at h
  split at h
  · cases (Prod.mk.inj h).2
  · rename_i s₂ conn hcas
    have hregister : Alone call (start s stream) (only s₂ stream (.register conn)) :=
      hstart.step (by simp only [AttachPc.step, hcas])
    have hreplace : Alone call (start s stream) (only s₂ stream (.replace conn
        (s₂.registerReplay call.scrollbackReplay call.since).1
        (s₂.registerReplay call.scrollbackReplay call.since).2)) := hregister.step rfl
    obtain ⟨rfl, hreg⟩ := Prod.mk.inj h
    obtain rfl := Except.ok.inj hreg
    exact hreplace.step rfl

/-- An attach that is not interrupted does to the session what `attachWithReplay` does. -/
theorem alone_attach (stream : List UInt8)
    (h : s.attachWithReplay call.policy call.scrollbackReplay call.generation call.size call.since
      call.now = (s', .ok (conn, offset))) :
    ∃ reg, reg.conn = conn ∧ reg.streamOffset = offset ∧
      Alone call (start s stream) (only s' stream (.returned reg)) := by
  unfold Session.attachWithReplay at h
  split at h
  · cases (Prod.mk.inj h).2
  · rename_i s₁ reg hlocked
    have hevicted := (alone_locked stream hlocked).evict
    dsimp only at h
    split at h
    · cases (Prod.mk.inj h).2
    · rename_i c hfor
      have hpushed := hevicted.push hfor
      obtain ⟨rfl, hok⟩ := Prod.mk.inj h
      obtain ⟨rfl, rfl⟩ := Prod.mk.inj (Except.ok.inj hok)
      exact ⟨reg, rfl, rfl, hpushed.step rfl⟩

end Alone

end Handoff

end OpenabPty
