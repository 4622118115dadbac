import OpenabPty.Conn
import OpenabPty.Core.Trace

/-!
# Half-open connections (`read_loop`, `on_pong`, `on_missed_ping`)

The read loop of one connection from its attach on, while the rest of the runtime does whatever
it does to the shared state but for a takeover, a renewal, a teardown or a detach of this session.
Two counters in two modules decide when the loop ends for want of a pong: a flag of the loop, which
a tick sets and a pong clears, and the missed pings of the session, which a ping of the client
clears, too.
-/

namespace OpenabPty

/-- What the half-open detection sees: a ping tick, with the flag it finds, or a sign of life. -/
inductive Beat where
  | tick (awaiting : Bool)
  | live
  deriving DecidableEq, Repr

namespace Beat

/-- A tick that finds a ping unanswered. -/
def missed : Beat → Bool
  | .tick awaiting => awaiting
  | .live => false

def isTick : Beat → Bool
  | .tick _ => true
  | .live => false

end Beat

/-- The missed ticks at the head of a history, which has the newest first. -/
def misses (beats : List Beat) : Nat := (beats.takeWhile Beat.missed).length

/-- The ticks since the last sign of life. -/
def ticksSinceLive (beats : List Beat) : Nat := (beats.takeWhile Beat.isTick).length

/-- The beat of a read-loop event: a pong, a ping, a text ping, or a tick. -/
def Reader.beat (r : Reader) : Incoming → Option Beat
  | .pong | .ping => some .live
  | .text length (some .ping) => if length > maxControlFrameBytes then none else some .live
  | .tick => some (.tick r.awaitingPong)
  | _ => none

/-- The read loop of a connection, with what the half-open detection has seen, and whether the
loop has left through `on_missed_ping`. -/
structure Vigil where
  shared : Shared
  loop : (Reader × ReaderPc) ⊕ ReadExit
  beats : List Beat
  evicted : Bool

/-- What a takeover, a renewal, a teardown or a detach of a session changes of what the detection
reads. -/
def Session.vitals (s : Session) : ConnGeneration × Nat × Nat :=
  (s.state.ownerConn, s.state.missedPings, s.missedPingLimit)

namespace Vigil

inductive Label where
  | step (e : Arrival)
  | elsewhere (shared : Shared)

/-- The session's vitals. -/
def vitals (shared : Shared) (sid : Sid) : Option (ConnGeneration × Nat × Nat) :=
  shared.heap[sid]?.map Session.vitals

/-- What the next step of the loop adds to the history. -/
def beatsOf (r : Reader) (pc : ReaderPc) (e : Arrival) : List Beat :=
  match pc with
  | .select => (r.beat e.incoming).toList
  | _ => []

/-- The loop leaves through `on_missed_ping`. -/
def leaves (pc : ReaderPc) (loop : (Reader × ReaderPc) ⊕ ReadExit) : Bool :=
  match pc, loop with
  | .missedPing, .inl (_, .missedClose _) => true
  | _, _ => false

/-- A step of the loop, or of the rest of the runtime, which keeps the vitals. -/
def next (sid : Sid) (w : Vigil) : Label → Option Vigil
  | .elsewhere shared =>
    if vitals shared sid = vitals w.shared sid then some { w with shared } else none
  | .step e =>
    match w.loop with
    | .inr _ => none
    | .inl (r, pc) =>
      (r.step w.shared e pc).map fun (shared, loop) =>
        { shared, loop, beats := beatsOf r pc e ++ w.beats, evicted := w.evicted || leaves pc loop }

/-- The loop right after the attach. -/
def start (shared : Shared) (sid : Sid) (conn : ConnGeneration) : Vigil :=
  { shared
    loop := .inl ({ sid, conn, malformed := 0, awaitingPong := false }, .select)
    beats := []
    evicted := false }

end Vigil

/-! ## Histories -/

section Beats

variable {beats : List Beat} {b : Beat} {m : Nat}

@[simp] theorem misses_nil : misses [] = 0 := rfl
@[simp] theorem ticksSinceLive_nil : ticksSinceLive [] = 0 := rfl
@[simp] theorem misses_live : misses (.live :: beats) = 0 := rfl
@[simp] theorem ticksSinceLive_live : ticksSinceLive (.live :: beats) = 0 := rfl
@[simp] theorem misses_tick_false : misses (.tick false :: beats) = 0 := rfl
@[simp] theorem misses_tick_true : misses (.tick true :: beats) = misses beats + 1 := rfl
@[simp] theorem ticksSinceLive_tick (awaiting : Bool) :
    ticksSinceLive (.tick awaiting :: beats) = ticksSinceLive beats + 1 := rfl

/-- A missed tick is a tick. -/
theorem misses_le_ticksSinceLive (beats : List Beat) : misses beats ≤ ticksSinceLive beats := by
  induction beats with
  | nil => exact Nat.le_refl _
  | cons b beats ih =>
    cases b with
    | live => exact Nat.le_refl _
    | tick awaiting =>
      cases awaiting
      · exact Nat.zero_le _
      · simpa using ih

/-- The last `m` beats are missed ticks exactly if that many stand at the head. -/
theorem take_eq_replicate_iff :
    beats.take m = List.replicate m (.tick true) ↔ m ≤ misses beats := by
  induction m generalizing beats with
  | zero => simp
  | succ m ih =>
    cases beats with
    | nil => simp
    | cons b beats =>
      rw [List.take_succ_cons, List.replicate_succ, List.cons.injEq, ih]
      match b with
      | .live => simp
      | .tick false => simp
      | .tick true => simp

/-- Two missed ticks at the head follow each other. -/
theorem not_chain_of_misses (h : 2 ≤ misses beats) :
    ¬ beats.IsChain fun newer older => ¬ (newer.isTick = true ∧ older.isTick = true) := by
  match beats, h with
  | .tick true :: .tick true :: rest, _ => simp [Beat.isTick]

end Beats

/-! ## What the loop keeps -/

namespace Vigil

/-- The points of the loop at which the two counters agree: nothing is on its way from one to the
other. -/
def agrees : ReaderPc → Bool
  | .pongLock _ | .missedPing | .missedClose _ | .sendPing => false
  | _ => true

/-- The two counters at a point of the loop that has not left it: `m` is the limit. -/
inductive Pending (m missed : Nat) (beats : List Beat) (r : Reader) : ReaderPc → Prop where
  -- The client gave a sign of life, and the session is about to hear of it.
  | pong (reply : Bool) (hmisses : misses beats = 0) (hticks : ticksSinceLive beats = 0) :
      Pending m missed beats r (.pongLock reply)
  -- A tick found the flag set, and the session is about to count it.
  | tick (hmisses : misses beats = missed + 1) (hlimit : missed < m)
      (hticks : ticksSinceLive beats ≤ misses beats + 1) (hflag : r.awaitingPong = true) :
      Pending m missed beats r .missedPing
  -- A ping is about to be sent.
  | ping (hmisses : misses beats = missed) (hlimit : missed < m)
      (hticks : ticksSinceLive beats ≤ misses beats + 1) : Pending m missed beats r .sendPing
  -- The counters agree.
  | settled (pc : ReaderPc) (hpc : agrees pc = true) (hmisses : misses beats = missed)
      (hlimit : missed < m)
      (hticks : ticksSinceLive beats ≤ misses beats + 1)
      (hflag : r.awaitingPong = false → ticksSinceLive beats = 0) :
      Pending m missed beats r pc

/-- The invariant of a vigil. -/
structure Ok (sid : Sid) (conn : ConnGeneration) (m : Nat) (w : Vigil) : Prop where
  running : ∀ r pc, w.loop = .inl (r, pc) → r.sid = sid ∧ r.conn = conn ∧
    (w.evicted = false → ∃ missed, vitals w.shared sid = some (conn, missed, m) ∧
      Pending m missed w.beats r pc)
  left : ∀ exit, w.loop = .inr exit → w.evicted = false → misses w.beats < m ∧
    ticksSinceLive w.beats ≤ misses w.beats + 1
  evicted : w.evicted = true → misses w.beats = m ∧ ticksSinceLive w.beats ≤ m + 1 ∧
    ∀ r pc, w.loop = .inl (r, pc) → ∃ subscriber, pc = .missedClose subscriber

section Step

variable {sid : Sid} {conn : ConnGeneration} {m missed : Nat} {sh : Shared} {r : Reader}
  {beats : List Beat}

theorem vitals_modify {f : Session → Session} (hf : ∀ s, (f s).vitals = s.vitals) :
    vitals (sh.modify sid f) sid = vitals sh sid := by
  unfold vitals
  rw [Shared.heap_modify, if_pos rfl, Option.map_map]
  congr 1
  exact funext hf

theorem vitals_onPong (h : vitals sh sid = some (conn, missed, m)) :
    vitals (sh.modify sid (·.onPongLocked conn)) sid = some (conn, 0, m) := by
  obtain ⟨s, hs, hv⟩ := Option.map_eq_some_iff.mp h
  obtain ⟨howner, hv⟩ := Prod.mk.inj hv
  obtain ⟨-, hlimit⟩ := Prod.mk.inj hv
  simp [vitals, Shared.heap_modify, hs, Session.onPongLocked, howner, Session.vitals, hlimit]

/-- The session of the loop misses a ping. -/
theorem onMissedPing_cases (h : vitals sh sid = some (conn, missed, m)) :
    ∃ s, sh.heap[sid]? = some s ∧
      (missed + 1 < m → (s.onMissedPingLocked conn).2.1 = false ∧
        vitals (sh.modify sid fun s => (s.onMissedPingLocked conn).1) sid =
          some (conn, missed + 1, m)) ∧
      (m ≤ missed + 1 → (s.onMissedPingLocked conn).2.1 = true) := by
  obtain ⟨s, hs, hv⟩ := Option.map_eq_some_iff.mp h
  obtain ⟨howner, hv⟩ := Prod.mk.inj hv
  obtain ⟨hmissed, hlimit⟩ := Prod.mk.inj hv
  refine ⟨s, hs, fun hlt => ?_, fun hle => ?_⟩
  · simp [vitals, Shared.heap_modify, hs, Session.onMissedPingLocked, howner, hmissed, hlimit, hlt,
      Session.vitals]
  · have hfull : ¬ missed + 1 < m := Nat.not_lt.mpr hle
    simp [Session.onMissedPingLocked, howner, hmissed, hlimit, hfull]

/-- The loop goes on. -/
theorem Ok.inl {w : Vigil} {pc : ReaderPc} (hloop : w.loop = .inl (r, pc)) (hsid : r.sid = sid)
    (hconn : r.conn = conn) (hevicted : w.evicted = false)
    (hvitals : vitals w.shared sid = some (conn, missed, m))
    (hpending : Pending m missed w.beats r pc) : w.Ok sid conn m := by
  refine ⟨fun r' pc' h => ?_, fun exit h => ?_, fun h => ?_⟩
  · obtain ⟨rfl, rfl⟩ := Prod.mk.inj (Sum.inl.inj (hloop.symm.trans h))
    exact ⟨hsid, hconn, fun _ => ⟨missed, hvitals, hpending⟩⟩
  · simp [hloop] at h
  · simp [hevicted] at h

/-- The loop leaves, and not for want of a pong. -/
theorem Ok.inr {w : Vigil} {exit : ReadExit} (hloop : w.loop = .inr exit)
    (hevicted : w.evicted = false) (hmisses : misses w.beats < m)
    (hticks : ticksSinceLive w.beats ≤ misses w.beats + 1) : w.Ok sid conn m := by
  refine ⟨fun r' pc' h => ?_, fun _ _ _ => ⟨hmisses, hticks⟩, fun h => ?_⟩
  · simp [hloop] at h
  · simp [hevicted] at h

/-- The loop leaves for want of a pong. -/
theorem Ok.out {w : Vigil} (hloop : (∃ exit, w.loop = .inr exit) ∨
      ∃ subscriber, w.loop = .inl (r, .missedClose subscriber))
    (hsid : r.sid = sid) (hconn : r.conn = conn) (hevicted : w.evicted = true)
    (hmisses : misses w.beats = m) (hticks : ticksSinceLive w.beats ≤ m + 1) :
    w.Ok sid conn m := by
  refine ⟨fun r' pc' h => ?_, fun _ _ h => ?_, fun _ => ⟨hmisses, hticks, fun r' pc' h => ?_⟩⟩
  · rcases hloop with ⟨exit, hexit⟩ | ⟨subscriber, hclose⟩
    · simp [hexit] at h
    · obtain ⟨rfl, rfl⟩ := Prod.mk.inj (Sum.inl.inj (hclose.symm.trans h))
      exact ⟨hsid, hconn, fun hno => by simp [hevicted] at hno⟩
  · simp [hevicted] at h
  · rcases hloop with ⟨exit, hexit⟩ | ⟨subscriber, hclose⟩
    · simp [hexit] at h
    · obtain ⟨rfl, rfl⟩ := Prod.mk.inj (Sum.inl.inj (hclose.symm.trans h))
      exact ⟨subscriber, rfl⟩

/-- A step of the loop, taken apart. -/
theorem next_step {w w' : Vigil} {e : Arrival} {pc : ReaderPc} (hloop : w.loop = .inl (r, pc))
    (h : w.next sid (.step e) = some w') :
    ∃ sh' loop', r.step w.shared e pc = some (sh', loop') ∧
      w' = { shared := sh', loop := loop', beats := beatsOf r pc e ++ w.beats,
             evicted := w.evicted || leaves pc loop' } := by
  simp only [next, hloop] at h
  obtain ⟨⟨sh', loop'⟩, hstep, rfl⟩ := Option.map_eq_some_iff.mp h
  exact ⟨sh', loop', hstep, rfl⟩

/-- The loop has not been told to leave unless it is on its way out. -/
theorem Ok.not_evicted {w : Vigil} {pc : ReaderPc} (hw : w.Ok sid conn m)
    (hloop : w.loop = .inl (r, pc)) (hpc : ∀ subscriber, pc ≠ .missedClose subscriber) :
    w.evicted = false := by
  by_contra hevicted
  obtain ⟨subscriber, hclose⟩ := (hw.evicted (by simpa using hevicted)).2.2 r pc hloop
  exact hpc subscriber hclose

/-- What is known at a point of the loop that is not on its way out. -/
theorem Ok.inside {w : Vigil} {pc : ReaderPc} (hw : w.Ok sid conn m)
    (hloop : w.loop = .inl (r, pc)) (hpc : ∀ subscriber, pc ≠ .missedClose subscriber) :
    w.evicted = false ∧ r.sid = sid ∧ r.conn = conn ∧
      ∃ missed, vitals w.shared sid = some (conn, missed, m) ∧ Pending m missed w.beats r pc := by
  have hevicted : w.evicted = false := hw.not_evicted hloop hpc
  obtain ⟨hsid, hconn, hrunning⟩ := hw.running r pc hloop
  exact ⟨hevicted, hsid, hconn, hrunning hevicted⟩

/-- What is known where the counters agree. -/
structure Agrees (m missed : Nat) (beats : List Beat) (r : Reader) : Prop where
  misses : misses beats = missed
  limit : missed < m
  ticks : ticksSinceLive beats ≤ missed + 1
  flag : r.awaitingPong = false → ticksSinceLive beats = 0

theorem Pending.agrees {pc : ReaderPc} (h : Pending m missed beats r pc)
    (hpc : agrees pc = true) : Agrees m missed beats r := by
  cases h with
  | pong reply => cases hpc
  | tick => cases hpc
  | ping => cases hpc
  | settled _ _ hmisses hlimit hticks hflag => exact ⟨hmisses, hlimit, hmisses ▸ hticks, hflag⟩

/-- A step without a beat that keeps the vitals: the loop goes on or leaves. -/
theorem Agrees.keep {w : Vigil} (h : Agrees m missed beats r) (hbeats : w.beats = beats)
    (hsid : r.sid = sid) (hconn : r.conn = conn) (hevicted : w.evicted = false)
    (hvitals : vitals w.shared sid = some (conn, missed, m))
    (hloop : (∃ exit, w.loop = .inr exit) ∨
      ∃ r' pc, w.loop = .inl (r', pc) ∧ agrees pc = true ∧ r'.sid = r.sid ∧ r'.conn = r.conn ∧
        r'.awaitingPong = r.awaitingPong) : w.Ok sid conn m := by
  subst hbeats
  have hticks : ticksSinceLive w.beats ≤ OpenabPty.misses w.beats + 1 := h.misses ▸ h.ticks
  rcases hloop with ⟨exit, hexit⟩ | ⟨r', pc, hinl, hpc, hsid', hconn', hflag⟩
  · exact .inr hexit hevicted (h.misses ▸ h.limit) hticks
  · refine .inl hinl (hsid'.trans hsid) (hconn'.trans hconn) hevicted hvitals ?_
    exact .settled pc hpc h.misses h.limit hticks fun hf => h.flag (hflag ▸ hf)

/-- The step lemma at `select!`. -/
theorem ok_select {w w' : Vigil} {e : Arrival} (hw : w.Ok sid conn m)
    (hloop : w.loop = .inl (r, .select)) (h : w.next sid (.step e) = some w') :
    w'.Ok sid conn m := by
  obtain ⟨hevicted, hsid, hconn, missed, hvitals, hpending⟩ := hw.inside hloop nofun
  have hagrees := hpending.agrees rfl
  obtain ⟨sh', loop', hstep, rfl⟩ := next_step hloop h
  simp only [Reader.step] at hstep
  -- Frames that are no beat.
  have hquiet : r.beat e.incoming = none → w.shared = sh' →
      ((∃ exit, loop' = .inr exit) ∨ ∃ r' pc, loop' = .inl (r', pc) ∧ agrees pc = true ∧
        r'.sid = r.sid ∧ r'.conn = r.conn ∧ r'.awaitingPong = r.awaitingPong) →
      Ok sid conn m { shared := sh', loop := loop', beats := beatsOf r .select e ++ w.beats,
                      evicted := w.evicted || leaves .select loop' } := by
    rintro hbeat rfl hnext
    have hbeats : beatsOf r .select e ++ w.beats = w.beats := by simp [beatsOf, hbeat]
    exact hagrees.keep hbeats hsid hconn (by simp [hevicted, leaves]) hvitals hnext
  cases hincoming : e.incoming with
  | gone | close =>
    simp only [hincoming, Option.some.injEq, Prod.mk.injEq] at hstep
    obtain ⟨rfl, rfl⟩ := hstep
    exact hquiet (by rw [hincoming]; rfl) rfl (.inl ⟨_, rfl⟩)
  | binary bytes filtered =>
    simp only [hincoming] at hstep
    split_ifs at hstep
    · obtain ⟨rfl, rfl⟩ := Prod.mk.inj (Option.some.inj hstep)
      exact hquiet (by rw [hincoming]; rfl) rfl (.inl ⟨_, rfl⟩)
    · obtain ⟨rfl, rfl⟩ := Prod.mk.inj (Option.some.inj hstep)
      exact hquiet (by rw [hincoming]; rfl) rfl (.inr ⟨_, _, rfl, rfl, rfl, rfl, rfl⟩)
  | pong | ping =>
    simp only [hincoming, Option.some.injEq, Prod.mk.injEq] at hstep
    obtain ⟨rfl, rfl⟩ := hstep
    refine .inl rfl hsid hconn (by simp [hevicted, leaves]) hvitals (.pong false ?_ ?_)
    all_goals simp [beatsOf, hincoming, Reader.beat]
  | tick =>
    simp only [hincoming, Option.some.injEq, Prod.mk.injEq] at hstep
    obtain ⟨rfl, rfl⟩ := hstep
    have hmisses := hagrees.misses
    have hticks := hagrees.ticks
    have hle := misses_le_ticksSinceLive w.beats
    cases hawaiting : r.awaitingPong with
    | true =>
      refine .inl rfl hsid hconn (by simp [hevicted, leaves]) hvitals ?_
      rw [if_pos rfl]
      refine .tick ?_ hagrees.limit ?_ hawaiting
      all_goals simp [beatsOf, hincoming, Reader.beat, hawaiting]; omega
    | false =>
      have hquiet := hagrees.flag hawaiting
      refine .inl rfl hsid hconn (by simp [hevicted, leaves]) hvitals ?_
      rw [if_neg nofun]
      refine .ping ?_ hagrees.limit ?_
      all_goals simp [beatsOf, hincoming, Reader.beat, hawaiting]; omega
  | text length parsed =>
    simp only [hincoming] at hstep
    by_cases hlong : length > maxControlFrameBytes
    · rw [if_pos hlong] at hstep
      obtain ⟨rfl, rfl⟩ := Prod.mk.inj (Option.some.inj hstep)
      refine hquiet ?_ rfl (.inl ⟨_, rfl⟩)
      rw [hincoming]
      cases parsed with
      | none => rfl
      | some control => cases control <;> simp [Reader.beat, hlong]
    · rw [if_neg hlong] at hstep
      match parsed, hincoming with
      | some .ping, hincoming =>
        obtain ⟨rfl, rfl⟩ := Prod.mk.inj (Option.some.inj hstep)
        refine .inl rfl hsid hconn (by simp [hevicted, leaves]) hvitals (.pong true ?_ ?_)
        all_goals simp [beatsOf, hincoming, Reader.beat, hlong]
      | some (.resize size), hincoming =>
        obtain ⟨rfl, rfl⟩ := Prod.mk.inj (Option.some.inj hstep)
        exact hquiet (by rw [hincoming]; rfl) rfl (.inr ⟨_, _, rfl, rfl, rfl, rfl, rfl⟩)
      | some .detach, hincoming =>
        obtain ⟨rfl, rfl⟩ := Prod.mk.inj (Option.some.inj hstep)
        exact hquiet (by rw [hincoming]; rfl) rfl (.inl ⟨_, rfl⟩)
      | none, hincoming =>
        dsimp only at hstep
        split_ifs at hstep
        · obtain ⟨rfl, rfl⟩ := Prod.mk.inj (Option.some.inj hstep)
          exact hquiet (by rw [hincoming]; rfl) rfl (.inl ⟨_, rfl⟩)
        · obtain ⟨rfl, rfl⟩ := Prod.mk.inj (Option.some.inj hstep)
          exact hquiet (by rw [hincoming]; rfl) rfl (.inr ⟨_, _, rfl, rfl, rfl, rfl, rfl⟩)

/-- The steps that neither see a beat nor are on the way of one keep the vitals and the flag. -/
theorem quiet_step {sh' : Shared} {e : Arrival} {pc : ReaderPc}
    {loop' : (Reader × ReaderPc) ⊕ ReadExit} (hpc : agrees pc = true) (hselect : pc ≠ .select)
    (h : r.step sh e pc = some (sh', loop')) :
    vitals sh' r.sid = vitals sh r.sid ∧
      ((∃ exit, loop' = .inr exit) ∨ ∃ r' pc', loop' = .inl (r', pc') ∧ agrees pc' = true ∧
        r'.sid = r.sid ∧ r'.conn = r.conn ∧ r'.awaitingPong = r.awaitingPong) := by
  have hgo : ∀ pc', agrees pc' = true → loop' = .inl (r, pc') →
      (∃ exit, loop' = .inr exit) ∨ ∃ r' pc', loop' = .inl (r', pc') ∧ agrees pc' = true ∧
        r'.sid = r.sid ∧ r'.conn = r.conn ∧ r'.awaitingPong = r.awaitingPong :=
    fun pc' hpc' hloop => .inr ⟨r, pc', hloop, hpc', rfl, rfl, rfl⟩
  cases pc <;> simp only [Reader.step] at h
  case select => exact absurd rfl hselect
  case pongLock | missedPing | missedClose | sendPing => cases hpc
  case writeFence | resizeFence =>
    obtain ⟨s, -, heq⟩ := Option.map_eq_some_iff.mp h
    obtain ⟨rfl, hloop⟩ := Prod.mk.inj heq
    refine ⟨rfl, ?_⟩
    split_ifs at hloop
    all_goals first
      | exact .inl ⟨_, hloop.symm⟩
      | exact hgo _ rfl hloop.symm
  case writeSend =>
    split at h <;> obtain ⟨rfl, rfl⟩ := Prod.mk.inj (Option.some.inj h)
    · exact ⟨rfl, hgo _ rfl rfl⟩
    · exact ⟨rfl, .inl ⟨_, rfl⟩⟩
    · exact ⟨rfl, .inl ⟨_, rfl⟩⟩
  case writeTouch | resizeState =>
    obtain ⟨rfl, rfl⟩ := Prod.mk.inj (Option.some.inj h)
    exact ⟨vitals_modify fun _ => rfl, hgo _ rfl rfl⟩
  case resizeControl =>
    split_ifs at h <;> obtain ⟨rfl, rfl⟩ := Prod.mk.inj (Option.some.inj h)
    · exact ⟨vitals_modify fun _ => rfl, hgo _ rfl rfl⟩
    · exact ⟨rfl, .inl ⟨_, rfl⟩⟩
  case pongTouch reply =>
    obtain ⟨rfl, rfl⟩ := Prod.mk.inj (Option.some.inj h)
    exact ⟨vitals_modify fun _ => rfl, by cases reply <;> exact hgo _ rfl rfl⟩
  case sendPong =>
    obtain ⟨rfl, hloop⟩ := Prod.mk.inj (Option.some.inj h)
    refine ⟨rfl, ?_⟩
    split_ifs at hloop
    · exact hgo _ rfl hloop.symm
    · exact .inl ⟨_, hloop.symm⟩

/-- The client gave a sign of life: the session hears of it. -/
theorem ok_pongLock {w w' : Vigil} {e : Arrival} {reply : Bool} (hm : 0 < m) (hw : w.Ok sid conn m)
    (hloop : w.loop = .inl (r, .pongLock reply)) (h : w.next sid (.step e) = some w') :
    w'.Ok sid conn m := by
  obtain ⟨hevicted, hsid, hconn, missed, hvitals, hpending⟩ := hw.inside hloop nofun
  obtain ⟨sh', loop', hstep, rfl⟩ := next_step hloop h
  obtain ⟨rfl, rfl⟩ := Prod.mk.inj (Option.some.inj hstep)
  cases hpending with
  | settled _ hpc => cases hpc
  | pong _ hmisses hticks =>
    have hheard : vitals (w.shared.modify r.sid (·.onPongLocked r.conn)) sid =
        some (conn, 0, m) := by
      rw [hsid, hconn]
      exact vitals_onPong hvitals
    refine .inl rfl hsid hconn (by simp [hevicted, leaves]) hheard ?_
    exact .settled _ rfl hmisses hm (by simp [beatsOf, hticks]) fun _ => hticks

/-- A tick found the flag set: the session counts it, and evicts the connection at the `m`-th. -/
theorem ok_missedPing {w w' : Vigil} {e : Arrival} (hw : w.Ok sid conn m)
    (hloop : w.loop = .inl (r, .missedPing)) (h : w.next sid (.step e) = some w') :
    w'.Ok sid conn m := by
  obtain ⟨hevicted, hsid, hconn, missed, hvitals, hpending⟩ := hw.inside hloop nofun
  obtain ⟨sh', loop', hstep, rfl⟩ := next_step hloop h
  cases hpending with
  | settled _ hpc => cases hpc
  | tick hmisses hlimit hticks hflag =>
    obtain ⟨s, hs, hcounts, hfull⟩ := onMissedPing_cases hvitals
    obtain ⟨s', hs', hnext⟩ := Option.map_eq_some_iff.mp hstep
    rw [hsid] at hs' hnext
    obtain rfl := Option.some.inj (hs.symm.trans hs')
    obtain ⟨rfl, rfl⟩ := Prod.mk.inj hnext
    by_cases hlt : missed + 1 < m
    · obtain ⟨hstays, hvitals'⟩ := hcounts hlt
      rw [hconn, hstays]
      refine .inl rfl hsid hconn (by simp [hevicted, leaves]) hvitals' ?_
      exact .ping hmisses hlt hticks
    · have hleaves := hfull (Nat.not_lt.mp hlt)
      rw [hconn, hleaves]
      refine .out (.inr ⟨_, rfl⟩) hsid hconn (by simp [leaves]) ?_ ?_
      · show misses w.beats = m
        omega
      · show ticksSinceLive w.beats ≤ m + 1
        omega

theorem ok_missedClose {w w' : Vigil} {e : Arrival} {subscriber : Option ConnGeneration}
    (hw : w.Ok sid conn m) (hloop : w.loop = .inl (r, .missedClose subscriber))
    (h : w.next sid (.step e) = some w') : w'.Ok sid conn m := by
  obtain ⟨hsid, hconn, hrunning⟩ := hw.running r _ hloop
  obtain ⟨sh', loop', hstep, rfl⟩ := next_step hloop h
  have hexit : ∃ exit, loop' = .inr exit := by
    cases subscriber <;>
      · obtain ⟨-, rfl⟩ := Prod.mk.inj (Option.some.inj hstep)
        exact ⟨_, rfl⟩
  cases hevicted : w.evicted with
  | true =>
    obtain ⟨hmisses, hticks, -⟩ := hw.evicted hevicted
    exact .out (.inl hexit) hsid hconn (by simp) hmisses hticks
  | false =>
    obtain ⟨missed, -, hpending⟩ := hrunning hevicted
    cases hpending with
    | settled _ hpc => cases hpc

theorem ok_sendPing {w w' : Vigil} {e : Arrival} (hw : w.Ok sid conn m)
    (hloop : w.loop = .inl (r, .sendPing)) (h : w.next sid (.step e) = some w') :
    w'.Ok sid conn m := by
  obtain ⟨hevicted, hsid, hconn, missed, hvitals, hpending⟩ := hw.inside hloop nofun
  obtain ⟨sh', loop', hstep, rfl⟩ := next_step hloop h
  cases hpending with
  | settled _ hpc => cases hpc
  | ping hmisses hlimit hticks =>
    simp only [Reader.step] at hstep
    split_ifs at hstep
    · obtain ⟨rfl, rfl⟩ := Prod.mk.inj (Option.some.inj hstep)
      refine .inl rfl hsid hconn (by simp [hevicted, leaves]) hvitals ?_
      exact .settled _ rfl hmisses hlimit hticks fun hflag => by simp at hflag
    · obtain ⟨rfl, rfl⟩ := Prod.mk.inj (Option.some.inj hstep)
      exact .inr rfl (by simp [hevicted, leaves]) (hmisses ▸ hlimit) hticks

/-- The other steps do nothing that the detection reads. -/
theorem ok_quiet {w w' : Vigil} {e : Arrival} {pc : ReaderPc} (hw : w.Ok sid conn m)
    (hloop : w.loop = .inl (r, pc)) (hpc : agrees pc = true) (hselect : pc ≠ .select)
    (h : w.next sid (.step e) = some w') : w'.Ok sid conn m := by
  have hinside : ∀ subscriber, pc ≠ .missedClose subscriber := by
    rintro subscriber rfl
    cases hpc
  obtain ⟨hevicted, hsid, hconn, missed, hvitals, hpending⟩ := hw.inside hloop hinside
  have hagrees := hpending.agrees hpc
  obtain ⟨sh', loop', hstep, rfl⟩ := next_step hloop h
  have hbeats : beatsOf r pc e = [] := by
    cases pc with
    | select => exact absurd rfl hselect
    | _ => rfl
  have hstays : leaves pc loop' = false := by
    cases pc with
    | missedPing => cases hpc
    | _ => rfl
  obtain ⟨hkept, hnext⟩ := quiet_step hpc hselect hstep
  refine hagrees.keep (by rw [hbeats]; rfl) hsid hconn (by simp [hevicted, hstays]) ?_ hnext
  rw [← hvitals]
  exact hsid ▸ hkept

/-- The step lemma of the loop. -/
theorem ok_step {w w' : Vigil} {e : Arrival} {pc : ReaderPc} (hm : 0 < m) (hw : w.Ok sid conn m)
    (hloop : w.loop = .inl (r, pc)) (h : w.next sid (.step e) = some w') : w'.Ok sid conn m := by
  cases pc with
  | select => exact ok_select hw hloop h
  | pongLock reply => exact ok_pongLock hm hw hloop h
  | missedPing => exact ok_missedPing hw hloop h
  | missedClose subscriber => exact ok_missedClose hw hloop h
  | sendPing => exact ok_sendPing hw hloop h
  | writeFence | writeSend | writeTouch | resizeFence | resizeState | resizeControl | pongTouch
  | sendPong => exact ok_quiet hw hloop rfl (by simp) h

/-- What the rest of the runtime does keeps the two counters. -/
theorem ok_elsewhere {w w' : Vigil} {shared : Shared} (hw : w.Ok sid conn m)
    (h : w.next sid (.elsewhere shared) = some w') : w'.Ok sid conn m := by
  simp only [next] at h
  split_ifs at h with hkeeps
  obtain rfl := Option.some.inj h
  refine ⟨fun r pc hloop => ?_, hw.left, hw.evicted⟩
  rw [hkeeps]
  exact hw.running r pc hloop

theorem ok_next {w w' : Vigil} {l : Label} (hm : 0 < m) (hw : w.Ok sid conn m)
    (h : w.next sid l = some w') : w'.Ok sid conn m := by
  cases l with
  | elsewhere shared => exact ok_elsewhere hw h
  | step e =>
    cases hloop : w.loop with
    | inl at' =>
      obtain ⟨r, pc⟩ := at'
      exact ok_step hm hw hloop h
    | inr exit => simp [next, hloop] at h

/-- The connection that an attach admits owns the session, and has missed nothing. -/
theorem vitals_attachLocked {s s' : Session} {policy : SessionPolicy} {replay : Bool}
    {generation : Generation} {size : WindowSize} {since : Option Nat} {now : Instant}
    {reg : Registration}
    (h : s.attachLocked policy replay generation size since now = (s', .ok reg)) :
    s'.vitals = (reg.conn, 0, s.missedPingLimit) := by
  unfold Session.attachLocked at h
  split at h
  · cases h
  · rename_i cas conn hcas
    obtain ⟨rfl, hreg⟩ := Prod.mk.inj h
    obtain rfl := Except.ok.inj hreg
    unfold Session.attachCas at hcas
    split_ifs at hcas
    · cases hcas
    · dsimp only at hcas
      split_ifs at hcas
      · cases hcas
      · obtain ⟨rfl, hconn⟩ := Prod.mk.inj hcas
        obtain rfl := Except.ok.inj hconn
        rfl

/-- `validate` asks for a limit of 2 or 3. -/
theorem two_le_of_validate {policy : SessionPolicy} (h : policy.validate = .ok ()) :
    2 ≤ policy.missedPingsBeforeDetached := by
  unfold SessionPolicy.validate at h
  split_ifs at h
  omega

/-- Right after the attach the counters agree. -/
theorem ok_start (hm : 0 < m) (h : vitals sh sid = some (conn, 0, m)) :
    (start sh sid conn).Ok sid conn m := by
  refine .inl rfl rfl rfl rfl h ?_
  exact .settled _ rfl rfl hm (Nat.zero_le _) fun _ => rfl

/-- A loop that has not left for want of a pong has missed less than `m` in a row, unless it is
about to count the last one. -/
theorem Ok.misses_lt {w : Vigil} (hm : 0 < m) (hw : w.Ok sid conn m) (hevicted : w.evicted = false)
    (hcounted : ∀ r, w.loop ≠ .inl (r, .missedPing)) :
    misses w.beats < m ∧ ticksSinceLive w.beats ≤ misses w.beats + 1 := by
  cases hloop : w.loop with
  | inr exit => exact hw.left exit hloop hevicted
  | inl at' =>
    obtain ⟨r, pc⟩ := at'
    obtain ⟨-, -, hrunning⟩ := hw.running r pc hloop
    obtain ⟨missed, -, hpending⟩ := hrunning hevicted
    cases hpending with
    | pong reply hmisses hticks => omega
    | tick => exact absurd hloop (hcounted r)
    | ping hmisses hlimit hticks => exact ⟨hmisses ▸ hlimit, hticks⟩
    | settled _ _ hmisses hlimit hticks => exact ⟨hmisses ▸ hlimit, hticks⟩

/-- **Half-open detection is neither early nor late.** From an attach on, the loop has left through
`on_missed_ping` exactly if the last `m` ticks, that one included, all found the flag set with no
sign of life between them. A sign of life between every two ticks keeps it; without one it ends at
the `m`-th tick at the earliest and at the next one at the latest. -/
theorem evicted_iff {policy : SessionPolicy} (hpolicy : policy.validate = .ok ()) {s s' : Session}
    (hlimit : s.missedPingLimit = policy.missedPingsBeforeDetached) {replay : Bool}
    {generation : Generation} {size : WindowSize} {since : Option Nat} {now : Instant}
    {reg : Registration}
    (hattach : s.attachLocked policy replay generation size since now = (s', .ok reg))
    {shared : Shared} {sid : Sid} (hs : shared.heap[sid]? = some s') {ls : List Label} {w : Vigil}
    (hrun : Trace.run (next sid) (start shared sid reg.conn) ls = some w) :
    let m := policy.missedPingsBeforeDetached
    -- A tick that was received and not yet counted is the next step's.
    ((∀ r, w.loop ≠ .inl (r, .missedPing)) →
      (w.evicted = true ↔ w.beats.take m = List.replicate m (.tick true))) ∧
    (w.beats.IsChain (fun newer older => ¬ (newer.isTick = true ∧ older.isTick = true)) →
      w.evicted = false) ∧
    (w.evicted = true → m ≤ ticksSinceLive w.beats ∧ ticksSinceLive w.beats ≤ m + 1) ∧
    ((∀ r, w.loop ≠ .inl (r, .missedPing)) → m + 1 ≤ ticksSinceLive w.beats →
      w.evicted = true) := by
  intro m
  have hm : 2 ≤ m := two_le_of_validate hpolicy
  have hpos : 0 < m := by omega
  have hvitals : vitals shared sid = some (reg.conn, 0, m) := by
    simp [vitals, hs, vitals_attachLocked hattach, hlimit, m]
  have hall : Trace.AllStates (next sid) (Ok sid reg.conn m) (start shared sid reg.conn) ls :=
    Trace.AllStates.of_next (fun _ _ _ => ok_next hpos) (ok_start hpos hvitals)
  have hw : w.Ok sid reg.conn m := hall.last hrun
  refine ⟨fun hcounted => ?_, fun hbetween => ?_, fun hevicted => ?_, fun hcounted hticks => ?_⟩
  · rw [take_eq_replicate_iff]
    constructor
    · intro hevicted
      exact Nat.le_of_eq (hw.evicted hevicted).1.symm
    · intro hmisses
      by_contra hevicted
      have hlt := (hw.misses_lt hpos (by simpa using hevicted) hcounted).1
      omega
  · by_contra hevicted
    have hmisses := (hw.evicted (by simpa using hevicted)).1
    exact not_chain_of_misses (hmisses ▸ hm) hbetween
  · obtain ⟨hmisses, hticks, -⟩ := hw.evicted hevicted
    exact ⟨hmisses ▸ misses_le_ticksSinceLive w.beats, hticks⟩
  · by_contra hevicted
    have hlt := hw.misses_lt hpos (by simpa using hevicted) hcounted
    omega

/-- A session spawned under the default policy. -/
def silentSession : Session := .new .sh ⟨1⟩ { rows := 24, cols := 80 } 0 256 true .default

/-- That session attached, alone in the heap. -/
def silentShared : Shared :=
  { Shared.init with
    heap := [(silentSession.attachLocked .default true ⟨1⟩ silentSession.state.size none 0).1] }

/-- Four ticks, the first of which sends the first ping. -/
def silentRun : List Label :=
  [.step { incoming := .tick }, .step {}, .step { incoming := .tick }, .step {}, .step {},
   .step { incoming := .tick }, .step {}, .step {}, .step { incoming := .tick }, .step {}]

/-- A client that says nothing is gone after the fourth tick. -/
theorem evicted_silent :
    ∃ w, Trace.run (next 0) (start silentShared 0 ⟨1⟩) silentRun = some w ∧ w.evicted = true := by
  have hpolicy : SessionPolicy.default.validate = .ok () := rfl
  have hlimit : silentSession.missedPingLimit = SessionPolicy.default.missedPingsBeforeDetached :=
    rfl
  obtain ⟨s', reg, hattach, hconn, hs⟩ : ∃ s' reg,
      silentSession.attachLocked .default true ⟨1⟩ silentSession.state.size none 0 =
        (s', .ok reg) ∧ reg.conn = ⟨1⟩ ∧ silentShared.heap[0]? = some s' := ⟨_, _, rfl, rfl, rfl⟩
  obtain ⟨w, hrun, hticks, hcounted⟩ : ∃ w,
      Trace.run (next 0) (start silentShared 0 ⟨1⟩) silentRun = some w ∧
        ticksSinceLive w.beats = 4 ∧ ∀ r, w.loop ≠ .inl (r, .missedPing) :=
    ⟨_, rfl, rfl, fun r h => ReaderPc.noConfusion (Prod.mk.inj (Sum.inl.inj h)).2⟩
  refine ⟨w, hrun, ?_⟩
  rw [← hconn] at hrun
  exact (evicted_iff hpolicy hlimit hattach hs hrun).2.2.2 hcounted (Nat.le_of_eq hticks.symm)

end Step

end Vigil

end OpenabPty
