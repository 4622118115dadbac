import OpenabPty.Input
import Mathlib.Logic.Relation

/-!
# What a replaced connection can do to the session

The five calls a connection makes check its generation by themselves, against the mirror or
under the lock. `on_pong` checks it for the missed pings and not for the activity clock.
-/

namespace OpenabPty

/-- `Session::resize`; `outcome` is what `PtyControl::resize` returns. -/
def Session.resize (s : Session) (conn : ConnGeneration) (size : WindowSize)
    (outcome : Except Error Unit) : Session × Except Error Unit :=
  if s.resizeAllowed conn then ((s.setSize size).controlResize size, outcome)
  else (s, .error .unauthorized)

/-- `Session::on_pong`. -/
def Session.onPong (s : Session) (conn : ConnGeneration) (now : Instant) : Session :=
  (s.onPongLocked conn).touch now

/-- `Session::on_missed_ping`. -/
def Session.onMissedPing (s : Session) (conn : ConnGeneration) : Session × Bool :=
  match s.onMissedPingLocked conn with
  | (s, detached, some outbound) =>
    (s.onOutbound outbound (·.close CloseCode.takeover), detached)
  | (s, detached, none) => (s, detached)

/-- `Session::write_input`. -/
def InputPath.writeInput (p : InputPath) (conn : ConnGeneration) (bytes : List UInt8) :
    InputPath × Except InputError Unit :=
  if !p.session.io.alive || p.session.io.ownerConn ≠ conn then (p, .error .evicted)
  else
    let filtered := p.filtered bytes
    let p := { p with filter := filtered.1 }
    if filtered.2 = [] then (p, .ok ())
    else
      match p.trySend { conn := conn, bytes := filtered.2, runtimeOriginated := false } with
      | (p, .sent) => ({ p with session := p.session.touch p.now }, .ok ())
      | (p, .full) => (p, .error .backpressure)
      | (p, .closed) => (p, .error .evicted)

/-- What a connection can call. -/
inductive ClientCall where
  | writeInput (bytes : List UInt8)
  | resize (size : WindowSize) (outcome : Except Error Unit)
  | onPong
  | onMissedPing
  | detach
  deriving DecidableEq

namespace InputPath

variable {p : InputPath} {conn : ConnGeneration}

/-- The call as one step. -/
def clientCall (p : InputPath) (conn : ConnGeneration) : ClientCall → InputPath
  | .writeInput bytes => (p.writeInput conn bytes).1
  | .resize size outcome => { p with session := (p.session.resize conn size outcome).1 }
  | .onPong => { p with session := p.session.onPong conn p.now }
  | .onMissedPing => { p with session := (p.session.onMissedPing conn).1 }
  | .detach => { p with session := p.session.detach conn }

/-- A call of `write_input` takes steps while nothing else does. -/
def Calls : InputPath × InputCall → InputPath × InputCall → Prop :=
  Relation.ReflTransGen fun a b => a.1.callStep a.2 = some b

/-- `write_input` on its own. -/
theorem writeInput_alone (p : InputPath) (conn : ConnGeneration) (bytes : List UInt8) :
    Calls (p, .alive conn bytes)
      ((p.writeInput conn bytes).1, .returned (p.writeInput conn bytes).2) := by
  cases halive : p.session.io.alive with
  | false =>
    rw [writeInput, if_pos (by simp [halive])]
    exact .single (by simp [callStep, halive])
  | true =>
    have h₁ : p.callStep (.alive conn bytes) = some (p, .fence conn bytes) := by
      simp [callStep, halive]
    by_cases hfence : p.session.io.ownerConn = conn
    · have h₂ : p.callStep (.fence conn bytes) = some (p, .filter conn bytes) := by
        simp [callStep, hfence]
      rw [writeInput, if_neg (by simp [halive, hfence])]
      dsimp only
      by_cases hempty : (p.filtered bytes).2 = []
      · rw [if_pos hempty]
        refine .head h₁ (.head h₂ (.single ?_))
        simp [callStep, hempty]
      · have h₃ : p.callStep (.filter conn bytes) =
            some ({ p with filter := (p.filtered bytes).1 }, .send conn (p.filtered bytes).2) := by
          simp [callStep, hempty]
        rw [if_neg hempty]
        refine .head h₁ (.head h₂ (.head h₃ ?_))
        rcases hsend : InputPath.trySend { p with filter := (p.filtered bytes).1 }
          { conn := conn, bytes := (p.filtered bytes).2, runtimeOriginated := false } with ⟨p', result⟩
        cases result with
        | sent => exact .head (b := (p', .touch)) (by simp only [callStep, hsend]) (.single rfl)
        | full | closed => exact .single (by simp only [callStep, hsend])
    · rw [writeInput, if_pos (by simp [hfence])]
      refine .head h₁ (.single ?_)
      simp [callStep, hfence]

/-- **A replaced connection cannot touch its successor's session**, exactly but for the activity
clock in `on_pong`. -/
theorem clientCall_eq_self_iff (hstate : conn ≠ p.session.state.ownerConn)
    (hmirror : conn ≠ p.session.io.ownerConn) (call : ClientCall) :
    p.clientCall conn call = p ↔
      (call = .onPong → p.session.io.lastActivityMs = Duration.asMillis p.now) := by
  cases call with
  | writeInput bytes =>
    refine iff_of_true ?_ (fun h => by cases h)
    rw [clientCall, writeInput, if_pos (by simp [hmirror.symm])]
  | resize size outcome =>
    refine iff_of_true ?_ (fun h => by cases h)
    have hrefused : p.session.resizeAllowed conn = false := decide_eq_false hmirror.symm
    rw [clientCall, Session.resize, hrefused]
    rfl
  | onPong =>
    have hlocked : p.session.onPongLocked conn = p.session := if_neg hstate.symm
    rw [clientCall, Session.onPong, hlocked]
    constructor
    · intro h _
      exact (congrArg (·.session.io.lastActivityMs) h).symm
    · intro h
      rw [Session.touch, ← h rfl]
  | onMissedPing =>
    refine iff_of_true ?_ (fun h => by cases h)
    have hlocked : p.session.onMissedPingLocked conn = (p.session, true, none) :=
      if_pos hstate.symm
    rw [clientCall, Session.onMissedPing, hlocked]
  | detach =>
    refine iff_of_true ?_ (fun h => by cases h)
    rw [clientCall, Session.detach, if_pos hstate.symm]

/-- A takeover, and five seconds later the replaced connection is still there. -/
def takenOver : List InputLabel :=
  [.attach ⟨1⟩ .default none, .attach ⟨1⟩ .default none, .elapse (.fromSecs 5)]

theorem observed_takenOver :
    (Trace.run (step .default true) (init .default .sh ⟨1⟩ .default 0 0 false none) takenOver).map
      (fun p => (p.session.state.ownerConn, p.session.io.ownerConn, p.session.io.lastActivityMs,
        p.now)) = some (⟨2⟩, ⟨2⟩, 0, Duration.fromSecs 5) := rfl

/-- The replaced connection calls. -/
theorem clientCall_takenOver :
    ∃ p, Trace.run (step .default true) (init .default .sh ⟨1⟩ .default 0 0 false none) takenOver =
        some p ∧ p.session.state.ownerConn = ⟨2⟩ ∧
      p.clientCall ⟨1⟩ (.writeInput [3]) = p ∧
      p.clientCall ⟨1⟩ (.resize { rows := 1, cols := 1 } (.ok ())) = p ∧
      p.clientCall ⟨1⟩ .onMissedPing = p ∧ p.clientCall ⟨1⟩ .detach = p := by
  obtain ⟨p, hrun, hobserved⟩ := Option.map_eq_some_iff.mp observed_takenOver
  obtain ⟨hstate, hobserved⟩ := Prod.mk.inj hobserved
  obtain ⟨hmirror, -⟩ := Prod.mk.inj hobserved
  have hsame : ∀ call, call ≠ .onPong → p.clientCall ⟨1⟩ call = p := fun call hne =>
    (clientCall_eq_self_iff (by rw [hstate]; decide) (by rw [hmirror]; decide) call).mpr
      fun h => absurd h hne
  exact ⟨p, hrun, hstate, hsame _ (by decide), hsame _ (by decide), hsame _ (by decide),
    hsame _ (by decide)⟩

/-- A pong of the replaced connection moves the clock. -/
theorem stalePong_touches : ¬ ∀ p conn call,
    Trace.run (step .default true) (init .default .sh ⟨1⟩ .default 0 0 false none) takenOver = some p →
      conn ≠ p.session.state.ownerConn → conn ≠ p.session.io.ownerConn →
        p.clientCall conn call = p := by
  intro hall
  obtain ⟨p, hrun, hobserved⟩ := Option.map_eq_some_iff.mp observed_takenOver
  obtain ⟨hstate, hobserved⟩ := Prod.mk.inj hobserved
  obtain ⟨hmirror, hobserved⟩ := Prod.mk.inj hobserved
  obtain ⟨hclock, hnow⟩ := Prod.mk.inj hobserved
  have hsame := hall p ⟨1⟩ .onPong hrun (by rw [hstate]; decide) (by rw [hmirror]; decide)
  have htouched : Duration.asMillis p.now = p.session.io.lastActivityMs :=
    congrArg (·.session.io.lastActivityMs) hsame
  rw [hnow, hclock] at htouched
  exact absurd htouched (by decide)

end InputPath

end OpenabPty
