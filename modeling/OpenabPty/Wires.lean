import OpenabPty.Base
import OpenabPty.Ownership

/-!
# The wires of a session

The fence of a session, its subscriber slot and the queues of its connections change together.
`Task.wires` says what the next section of a task does to them, in the six ways there are, and
`Task.wire_step` that no section does anything else.
-/

namespace OpenabPty

/-- The fence and the queues of a session. -/
structure Session.Wire where
  fence : Session.Fence
  outbounds : List Outbound

def Session.wire (s : Session) : Session.Wire := { fence := s.fence, outbounds := s.outbounds }

/-- What a section does to the wires of one session. -/
inductive WireAction where
  | none
  | pushBytes (conn : ConnGeneration) (bytes : List UInt8)
  | pushControl (conn : ConnGeneration) (event : ControlEvent)
  | close (conn : ConnGeneration) (code : Nat)
  | release
  | take
  deriving DecidableEq

namespace Session.Wire

/-- The wires of a session that was just spawned. -/
def fresh : Wire := { fence := .fresh, outbounds := [] }

/-- Run `f` on the `Outbound` of `conn`. -/
def onOutbound (w : Wire) (conn : ConnGeneration) (f : Outbound → Outbound) : Wire :=
  { w with outbounds := w.outbounds.map fun o => if o.conn = conn then f o else o }

/-- The wires after an action. -/
def act (w : Wire) : WireAction → Wire
  | .none => w
  | .pushBytes conn bytes => w.onOutbound conn (·.pushBytes bytes)
  | .pushControl conn event => w.onOutbound conn (·.pushControl event)
  | .close conn code => w.onOutbound conn (·.close code)
  | .release => { w with fence := w.fence.released }
  | .take => { fence := w.fence.taken
               outbounds := w.outbounds ++ [Outbound.new ⟨w.fence.nextConn⟩ backlogBounds] }

end Session.Wire

/-! ## What the sections of the session do -/

namespace Session

variable (s : Session)

theorem wire_eq {s s' : Session} (hfence : s'.fence = s.fence)
    (houtbounds : s'.outbounds = s.outbounds) : s'.wire = s.wire := by
  rw [wire, wire, hfence, houtbounds]

/-- What the locked section of an attach does. -/
def attachAction (s : Session) (policy : SessionPolicy) (scrollbackReplay : Bool)
    (generation : Generation) (size : WindowSize) (since : Option Nat) (now : Instant) :
    WireAction :=
  match (s.attachLocked policy scrollbackReplay generation size since now).2 with
  | .ok _ => .take
  | .error _ => .none

theorem wire_attachLocked (policy : SessionPolicy) (scrollbackReplay : Bool)
    (generation : Generation) (size : WindowSize) (since : Option Nat) (now : Instant) :
    (s.attachLocked policy scrollbackReplay generation size since now).1.wire =
      s.wire.act (s.attachAction policy scrollbackReplay generation size since now) := by
  have hcas : (s.attachCas policy generation size now).1.outbounds = s.outbounds := by
    unfold attachCas
    dsimp only
    split_ifs <;> rfl
  unfold attachAction
  rcases s.attachLocked_cases now policy size scrollbackReplay generation since with
    ⟨s', error, heq, -, hfence⟩ | ⟨s', reg, heq, -, -, hfence, hconn⟩
  · rw [heq]
    refine wire_eq hfence ?_
    rw [attachLocked] at heq
    cases hc : s.attachCas policy generation size now with
    | mk t r =>
      rw [hc] at heq hcas
      cases r with
      | error e =>
        cases heq
        exact hcas
      | ok conn => cases heq
  · rw [heq]
    rw [attachLocked] at heq
    cases hc : s.attachCas policy generation size now with
    | mk t r =>
      rw [hc] at heq hcas
      cases r with
      | error e => cases heq
      | ok conn =>
        cases heq
        have hcas : t.outbounds = s.outbounds := hcas
        have hconn : conn = ⟨s.fence.nextConn⟩ := hconn
        show Wire.mk _ (t.outbounds ++ [Outbound.new conn backlogBounds]) = Wire.mk _ _
        rw [hfence, hcas, hconn]
        rfl

theorem attachAction_cases (policy : SessionPolicy) (scrollbackReplay : Bool)
    (generation : Generation) (size : WindowSize) (since : Option Nat) (now : Instant) :
    s.attachAction policy scrollbackReplay generation size since now = .none ∨
      s.attachAction policy scrollbackReplay generation size since now = .take := by
  unfold attachAction
  split
  · exact .inr rfl
  · exact .inl rfl

/-- What a missed ping does. -/
def missedPingAction (s : Session) (conn : ConnGeneration) : WireAction :=
  if s.state.ownerConn = conn ∧ s.missedPingLimit ≤ s.state.missedPings + 1 then .release else .none

theorem wire_onMissedPingLocked (conn : ConnGeneration) :
    (s.onMissedPingLocked conn).1.wire = s.wire.act (s.missedPingAction conn) := by
  unfold onMissedPingLocked missedPingAction
  by_cases howner : s.state.ownerConn = conn
  · rw [if_neg (not_not.mpr howner)]
    dsimp only
    by_cases hlimit : s.missedPingLimit ≤ s.state.missedPings + 1
    · rw [if_neg (Nat.not_lt.mpr hlimit), if_pos ⟨howner, hlimit⟩]
      rfl
    · rw [if_pos (Nat.lt_of_not_le hlimit), if_neg fun h => hlimit h.2]
      rfl
  · rw [if_pos howner, if_neg fun h => howner h.1]
    rfl

theorem missedPingAction_cases (conn : ConnGeneration) :
    s.missedPingAction conn = .none ∨ s.missedPingAction conn = .release := by
  unfold missedPingAction
  split
  · exact .inr rfl
  · exact .inl rfl

/-- What a detach does. -/
def detachAction (s : Session) (conn : ConnGeneration) : WireAction :=
  if s.state.ownerConn = conn then .release else .none

theorem wire_detach (conn : ConnGeneration) :
    (s.detach conn).wire = s.wire.act (s.detachAction conn) := by
  unfold detach detachAction
  by_cases howner : s.state.ownerConn = conn
  · rw [if_neg (not_not.mpr howner), if_pos howner]
    rfl
  · rw [if_pos howner, if_neg howner]
    rfl

theorem detachAction_cases (conn : ConnGeneration) :
    s.detachAction conn = .none ∨ s.detachAction conn = .release := by
  unfold detachAction
  split
  · exact .inr rfl
  · exact .inl rfl

theorem wire_onPongLocked (conn : ConnGeneration) : (s.onPongLocked conn).wire = s.wire := by
  unfold onPongLocked
  split <;> rfl

theorem wire_tickLocked (policy : SessionPolicy) (now : Instant) :
    (s.tickLocked policy now).1.wire = s.wire := by
  unfold tickLocked
  split
  · rfl
  · dsimp only
    split_ifs <;> rfl

end Session

/-- What the next section of a task does, and to the wires of which session. -/
def Task.wires (env : Env) : Task → Option (Sid × (Session → WireAction))
  | .op (.teardownLock td) => some (td.sid, fun _ => .release)
  | .op (.teardownClose td _ (some c)) => some (td.sid, fun _ => .close c td.code)
  | .op (.renewLock _ sid) => some (sid, fun _ => .release)
  | .op (.renewClose _ sid _ (some c)) => some (sid, fun _ => .close c CloseCode.renewed)
  | .op (.tickPush _ sid _ absolute seconds (some c)) =>
    some (sid, fun _ => .pushControl c (.ttlWarning seconds absolute))
  | .op (.notifyPush grace _ sid (some c)) =>
    some (sid, fun _ => .pushControl c (.shuttingDown (Duration.asSecs grace) true))
  | .conn (.lock a sid now) =>
    some (sid, fun s => s.attachAction env.policy env.config.scrollbackReplay a.generation a.size
      a.since now)
  | .conn (.closePrevious _ sid _ previous) => some (sid, fun _ => .close previous CloseCode.takeover)
  | .conn (.notice _ sid reg) => some (sid, fun s => .pushControl reg.conn s.attachNotice)
  | .conn (.replayGap _ sid reg dropped _) => some (sid, fun _ => .pushControl reg.conn (.gap dropped))
  | .conn (.replayBytes _ sid reg bytes) => some (sid, fun _ => .pushBytes reg.conn bytes)
  | .conn (.reading _ r .missedPing) => some (r.sid, fun s => s.missedPingAction r.conn)
  | .conn (.reading _ r (.missedClose (some c))) =>
    some (r.sid, fun _ => .close c CloseCode.takeover)
  | .conn (.exiting _ sid c .detached) | .conn (.exiting _ sid c .socketGone) =>
    some (sid, fun s => s.detachAction c)
  | .conn (.closing _ sid c exit) => some (sid, fun _ => .close c exit.closeCode)
  | .pump (.push sid bytes (some c)) => some (sid, fun _ => .pushBytes c bytes)
  | _ => none

namespace Shared

/-- The wires of a session of the heap. -/
def wire? (sh : Shared) (sid : Sid) : Option Session.Wire := sh.heap[sid]?.map Session.wire

/-- The part of an action that concerns a session. -/
def actionAt (a : Option (Sid × (Session → WireAction))) (sid : Sid) (s : Session) : WireAction :=
  ((a.filter (·.1 = sid)).map (·.2 s)).getD .none

theorem actionAt_self (sid : Sid) (f : Session → WireAction) (s : Session) :
    actionAt (some (sid, f)) sid s = f s := by
  rw [actionAt, Option.filter_some, if_pos (decide_eq_true rfl)]
  rfl

theorem actionAt_of_ne {sid t : Sid} (h : sid ≠ t) (f : Session → WireAction) (s : Session) :
    actionAt (some (sid, f)) t s = .none := by
  rw [actionAt, Option.filter_some, if_neg (by simpa using h)]
  rfl

/-- An action that changes the wires of a session is meant for it. -/
theorem eq_some_of_actionAt {a : Option (Sid × (Session → WireAction))} {sid : Sid} {s : Session}
    (h : actionAt a sid s ≠ .none) : ∃ f, a = some (sid, f) ∧ f s = actionAt a sid s := by
  cases a with
  | none => exact absurd rfl h
  | some p =>
    obtain ⟨t, f⟩ := p
    by_cases ht : t = sid
    · subst ht
      exact ⟨f, rfl, (actionAt_self t f s).symm⟩
    · exact absurd (actionAt_of_ne ht f s) h

/-- What a step makes of the wires: those of one session change by an action, and a new session
has fresh ones. -/
structure Rewires (sh sh' : Shared) (a : Option (Sid × (Session → WireAction))) : Prop where
  old : ∀ sid s, sh.heap[sid]? = some s → sh'.wire? sid = some (s.wire.act (actionAt a sid s))
  new : ∀ sid wire, sh.heap[sid]? = none → sh'.wire? sid = some wire → wire = .fresh

variable {sh sh' : Shared}

theorem rewires_of_heap (h : sh'.heap = sh.heap) : sh.Rewires sh' none where
  old sid s hs := by
    rw [wire?, h, hs]
    rfl
  new sid wire hs hw := by
    rw [wire?, h, hs] at hw
    cases hw

/-- Only the heap matters. -/
theorem Rewires.of_heap {sh'' : Shared} {a : Option (Sid × (Session → WireAction))}
    (h : sh.Rewires sh' a) (hheap : sh''.heap = sh'.heap) : sh.Rewires sh'' a where
  old sid s hs := by
    rw [wire?, hheap]
    exact h.old sid s hs
  new sid wire hs hw := by
    rw [wire?, hheap] at hw
    exact h.new sid wire hs hw

theorem rewires_modify (sh : Shared) (sid : Sid) {f : Session → Session} {g : Session → WireAction}
    (h : ∀ s : Session, (f s).wire = s.wire.act (g s)) :
    sh.Rewires (sh.modify sid f) (some (sid, g)) where
  old t s hs := by
    rw [wire?, heap_modify]
    by_cases ht : sid = t
    · subst ht
      rw [if_pos rfl, hs, actionAt_self]
      exact congrArg some (h s)
    · rw [if_neg ht, hs, actionAt_of_ne ht]
      rfl
  new t wire hs hw := by
    rw [wire?, heap_modify, hs] at hw
    split at hw <;> cases hw

theorem rewires_modify_of_eq (sh : Shared) (sid : Sid) {f : Session → Session}
    (h : ∀ s : Session, (f s).wire = s.wire) : sh.Rewires (sh.modify sid f) none where
  old t s hs := by
    rw [wire?, heap_modify]
    split
    · rw [hs]
      exact congrArg some (h s)
    · rw [hs]
      rfl
  new t wire hs hw := by
    rw [wire?, heap_modify, hs] at hw
    split at hw <;> cases hw

theorem rewires_allocate (env : Env) (name : SessionName) (generation : Generation)
    (size : WindowSize) : sh.Rewires (sh.allocate env name generation size).1 none where
  old t s hs := by
    rw [wire?, heap_allocate, if_neg (Nat.ne_of_lt (List.getElem?_eq_some_iff.mp hs).1), hs]
    rfl
  new t wire hs hw := by
    rw [wire?, heap_allocate] at hw
    split at hw
    · cases hw
      rfl
    · rw [hs] at hw
      cases hw

/-- The session of the heap after a step: what it was, changed by the action, or a new one. -/
theorem Rewires.heap {a : Option (Sid × (Session → WireAction))} (h : sh.Rewires sh' a) {sid : Sid}
    {s' : Session} (hs' : sh'.heap[sid]? = some s') :
    (∃ s, sh.heap[sid]? = some s ∧ s'.wire = s.wire.act (actionAt a sid s)) ∨
      sh.heap[sid]? = none ∧ s'.wire = .fresh := by
  have hw : sh'.wire? sid = some s'.wire := by
    rw [wire?, hs']
    rfl
  cases hs : sh.heap[sid]? with
  | none => exact .inr ⟨rfl, h.new sid _ hs hw⟩
  | some s => exact .inl ⟨s, rfl, Option.some.inj (hw.symm.trans (h.old sid s hs))⟩

end Shared

open Shared

section Step

variable {env : Env} {sh sh' : Shared}

/-- The sections of an operation that touch a session. -/
theorem Op.wire_step {c : Choice} {op op' : Op} {ops : List Op} {sids : List Sid}
    (h : op.step env sh c = some (sh', op', ops, sids)) :
    sh.Rewires sh' (Task.wires env (.op op)) := by
  cases op <;> simp only [step] at h
  case adminCreate | restartGet | restartIsAlive | killGet | selfExitGet | selfExitIsAlive
      | renewGet | renewIsAlive =>
    split at h <;> cases h <;> exact rewires_of_heap rfl
  case tick | tickSnapshot | notifySnapshot | shutdownSnapshot | publish | dropClaim
      | restartForget | forget | teardownRevoke | rememberDead | beginDrain =>
    cases h
    exact rewires_of_heap rfl
  case restartGeneration | deadGeneration | tickWarn =>
    obtain ⟨s, -, heq⟩ := Option.map_eq_some_iff.mp h
    cases heq
    exact rewires_of_heap rfl
  case streamEnded =>
    obtain ⟨s, -, heq⟩ := Option.map_eq_some_iff.mp h
    split at heq <;> cases heq <;> exact rewires_of_heap rfl
  case claimName sp =>
    rcases sh.claimName_cases env.config.maxSessions sp.name with
      ⟨claimed, error, heq, -⟩ | ⟨heq, -⟩ <;> rw [heq] at h <;> cases h <;>
      exact rewires_of_heap rfl
  case spawn sp =>
    split at h <;> cases h
    · exact rewires_of_heap rfl
    · exact rewires_allocate env _ _ _
  case mint | renewMint =>
    split at h <;> cases h <;> exact rewires_of_heap rfl
  case restartTombstone name =>
    rcases sh.takeTombstone_cases name with heq | ⟨dead, -, heq⟩ <;> rw [heq] at h <;> cases h <;>
      exact rewires_of_heap rfl
  case notifyNext grace rest =>
    cases rest with
    | nil =>
      cases h
      exact rewires_of_heap rfl
    | cons sid rest =>
      obtain ⟨s, -, heq⟩ := Option.map_eq_some_iff.mp h
      cases heq
      exact rewires_of_heap rfl
  case shutdownNext loop =>
    obtain ⟨rest, reports⟩ := loop
    cases rest with
    | nil =>
      cases h
      exact rewires_of_heap rfl
    | cons sid rest =>
      obtain ⟨s, -, heq⟩ := Option.map_eq_some_iff.mp h
      cases heq
      exact rewires_of_heap rfl
  case tickNext loop =>
    obtain ⟨now, rest, actions⟩ := loop
    cases rest with
    | nil =>
      cases h
      exact rewires_of_heap rfl
    | cons sid rest =>
      obtain ⟨s, -, heq⟩ := Option.map_eq_some_iff.mp h
      cases heq
      exact sh.rewires_modify_of_eq sid fun s => s.wire_tickLocked env.policy now
  case teardownLock td =>
    obtain ⟨s, -, heq⟩ := Option.map_eq_some_iff.mp h
    cases heq
    exact sh.rewires_modify td.sid fun _ => rfl
  case renewLock name sid =>
    obtain ⟨s, -, heq⟩ := Option.map_eq_some_iff.mp h
    cases heq
    have hmod := sh.rewires_modify (f := fun s => s.renewLocked.1) (g := fun _ => .release) sid
      fun _ => rfl
    exact hmod.of_heap rfl
  case teardownClear td report =>
    cases h
    have hmod := sh.rewires_modify_of_eq (f := Session.clearBuffer) td.sid fun _ => rfl
    exact hmod.of_heap rfl
  case teardownClose td report subscriber =>
    cases h
    cases subscriber with
    | none => exact rewires_of_heap rfl
    | some conn => exact sh.rewires_modify td.sid fun _ => rfl
  case renewClose name sid generation subscriber =>
    cases h
    cases subscriber with
    | none => exact rewires_of_heap rfl
    | some conn => exact sh.rewires_modify sid fun _ => rfl
  case tickPush loop sid name absolute seconds subscriber =>
    cases h
    cases subscriber with
    | none => exact rewires_of_heap rfl
    | some conn => exact sh.rewires_modify sid fun _ => rfl
  case notifyPush grace rest sid subscriber =>
    cases h
    cases subscriber with
    | none => exact rewires_of_heap rfl
    | some conn => exact sh.rewires_modify sid fun _ => rfl
  case returned => cases h

theorem Reader.wire_step {e : Arrival} {a : Attach} {r : Reader} {pc : ReaderPc}
    {next : (Reader × ReaderPc) ⊕ ReadExit} (h : r.step sh e pc = some (sh', next)) :
    sh.Rewires sh' (Task.wires env (.conn (.reading a r pc))) := by
  cases pc <;> simp only [step] at h
  case select =>
    repeat' split at h
    all_goals
      cases h
      exact rewires_of_heap rfl
  case writeFence | resizeFence =>
    obtain ⟨s, -, heq⟩ := Option.map_eq_some_iff.mp h
    cases heq
    exact rewires_of_heap rfl
  case writeSend | sendPing =>
    split at h <;> cases h <;> exact rewires_of_heap rfl
  case sendPong =>
    cases h
    exact rewires_of_heap rfl
  case writeTouch | resizeState | pongTouch =>
    cases h
    exact sh.rewires_modify_of_eq r.sid fun _ => rfl
  case resizeControl =>
    split at h <;> cases h
    · exact sh.rewires_modify_of_eq r.sid fun _ => rfl
    · exact rewires_of_heap rfl
  case pongLock =>
    cases h
    exact sh.rewires_modify_of_eq r.sid fun s => s.wire_onPongLocked r.conn
  case missedPing =>
    obtain ⟨s, -, heq⟩ := Option.map_eq_some_iff.mp h
    cases heq
    exact sh.rewires_modify r.sid fun s => s.wire_onMissedPingLocked r.conn
  case missedClose subscriber =>
    cases subscriber with
    | some conn =>
      cases h
      exact sh.rewires_modify r.sid fun _ => rfl
    | none =>
      cases h
      exact rewires_of_heap rfl

theorem Conn.wire_step {e : Arrival} {o o' : Conn} (h : o.step env sh e = some (sh', o')) :
    sh.Rewires sh' (Task.wires env (.conn o)) := by
  cases o <;> simp only [step] at h
  case request | handlerVerify =>
    repeat' split at h
    all_goals
      cases h
      exact rewires_of_heap rfl
  case handlerGet | get | peekTombstone | isAlive =>
    split at h <;> cases h <;> exact rewires_of_heap rfl
  case handlerGeneration | subscriberFor =>
    obtain ⟨s, -, heq⟩ := Option.map_eq_some_iff.mp h
    cases heq
    exact rewires_of_heap rfl
  case lock a sid now =>
    obtain ⟨s, -, heq⟩ := Option.map_eq_some_iff.mp h
    cases heq
    exact sh.rewires_modify sid fun s => s.wire_attachLocked _ _ _ _ _ _
  case closePrevious a sid reg previous | replayGap a sid reg dropped bytes
      | replayBytes a sid reg bytes | notice a sid reg =>
    cases h
    exact sh.rewires_modify sid fun _ => rfl
  case attachResize a sid reg =>
    cases h
    split
    · exact sh.rewires_modify_of_eq sid fun _ => rfl
    · exact rewires_of_heap rfl
  case touch a sid reg =>
    cases h
    have hmod := sh.rewires_modify_of_eq (f := (·.touch sh.now)) sid fun _ => rfl
    exact hmod.of_heap rfl
  case reading a r pc =>
    obtain ⟨⟨sh₁, next⟩, hr, heq⟩ := Option.map_eq_some_iff.mp h
    obtain rfl : sh₁ = sh' := by
      cases next <;> exact (Prod.mk.inj heq).1
    exact Reader.wire_step hr
  case exiting a sid conn exit =>
    cases exit <;> cases h
    · exact sh.rewires_modify sid fun s => s.wire_detach conn
    · exact sh.rewires_modify sid fun s => s.wire_detach conn
    · exact rewires_of_heap rfl
    · exact rewires_of_heap rfl
  case closing a sid conn exit =>
    cases h
    exact sh.rewires_modify sid fun _ => rfl
  case awaiting =>
    cases h
    exact rewires_of_heap rfl
  case returned | refused | rejected => cases h

theorem Pump.wire_step {chunk : Option (List UInt8)} {pump : Pump} {t : Task}
    (h : pump.step sh chunk = some (sh', t)) : sh.Rewires sh' (Task.wires env (.pump pump)) := by
  cases pump <;> simp only [step] at h
  case idle =>
    split at h <;> cases h <;> exact rewires_of_heap rfl
  case write sid bytes | touch sid bytes =>
    cases h
    exact sh.rewires_modify_of_eq sid fun _ => rfl
  case subscriber =>
    obtain ⟨s, -, heq⟩ := Option.map_eq_some_iff.mp h
    cases heq
    exact rewires_of_heap rfl
  case push sid bytes current =>
    cases current with
    | some conn =>
      cases h
      exact sh.rewires_modify sid fun _ => rfl
    | none =>
      cases h
      exact rewires_of_heap rfl

/-- What a step of any task does to the wires. -/
theorem Task.wire_step {t t' : Task} {c : Input} {new : List Task}
    (h : Task.step env sh t c = some (sh', t', new)) : sh.Rewires sh' (t.wires env) := by
  rcases step_cases h with ⟨op, op', ops, sids, rfl, hop, -, -⟩ | ⟨o, o', rfl, hconn, -, -⟩ |
    ⟨pump, rfl, hpump, -⟩
  · exact Op.wire_step hop
  · exact Conn.wire_step hconn
  · exact Pump.wire_step hpump

end Step

/-! ## The numbers of the connections -/

namespace Session.Wire

/-- The fence is valid, and there is one queue for every connection number issued so far. -/
structure Valid (w : Wire) : Prop where
  fence : w.fence.Valid
  conns : w.outbounds.map (·.conn.val) = List.range' 1 (w.fence.nextConn - 1)

theorem valid_fresh : fresh.Valid := ⟨Session.Fence.valid_fresh, rfl⟩

variable {w : Wire}

theorem conns_onOutbound (w : Wire) (conn : ConnGeneration) {f : Outbound → Outbound}
    (hf : ∀ o, (f o).conn = o.conn) :
    (w.onOutbound conn f).outbounds.map (·.conn.val) = w.outbounds.map (·.conn.val) := by
  simp only [onOutbound, List.map_map]
  refine List.map_congr_left fun o _ => ?_
  simp only [Function.comp_apply]
  split
  · rw [hf]
  · rfl

theorem Valid.act (h : w.Valid) (a : WireAction) : (w.act a).Valid := by
  have hqueue : ∀ conn (f : Outbound → Outbound), (∀ o, (f o).conn = o.conn) →
      (w.onOutbound conn f).Valid := fun conn f hf =>
    ⟨h.fence, (w.conns_onOutbound conn hf).trans h.conns⟩
  cases a with
  | none => exact h
  | pushBytes conn bytes => exact hqueue conn _ fun o => o.pushBytes_conn bytes
  | pushControl conn event => exact hqueue conn _ fun o => o.pushControl_conn event
  | close conn code => exact hqueue conn _ fun o => o.close_conn code
  | release => exact ⟨h.fence.released, h.conns⟩
  | take =>
    refine ⟨h.fence.taken, ?_⟩
    have hpos : 0 < w.fence.nextConn := Nat.zero_lt_of_lt h.fence.next
    obtain ⟨n, hn⟩ : ∃ n, w.fence.nextConn = n + 1 := ⟨_, (Nat.succ_pred_eq_of_pos hpos).symm⟩
    simp only [Wire.act, List.map_append, h.conns, Session.Fence.taken, hn, Nat.add_sub_cancel,
      List.map_cons, List.map_nil]
    rw [List.range'_concat]
    simp [Outbound.new, Nat.add_comm]

/-- No two queues are for the same connection. -/
theorem Valid.eq_of_conn (h : w.Valid) {o o' : Outbound} (ho : o ∈ w.outbounds)
    (ho' : o' ∈ w.outbounds) (hconn : o.conn = o'.conn) : o = o' := by
  have hnodup : (w.outbounds.map (·.conn.val)).Nodup := by
    rw [h.conns]
    exact List.nodup_range'
  exact List.inj_on_of_nodup_map hnodup ho ho' (congrArg ConnGeneration.val hconn)

theorem Valid.exists_of_lt (h : w.Valid) {c : ConnGeneration} (hpos : 0 < c.val)
    (hlt : c.val < w.fence.nextConn) : ∃ o ∈ w.outbounds, o.conn = c := by
  have hmem : c.val ∈ w.outbounds.map (·.conn.val) := by
    rw [h.conns, List.mem_range'_1]
    omega
  obtain ⟨o, ho, hconn⟩ := List.mem_map.mp hmem
  refine ⟨o, ho, ?_⟩
  cases hc : o.conn
  cases c
  simp_all

/-! ### One queue under an action -/

/-- What an action makes of one queue. -/
def queue (a : WireAction) (o : Outbound) : Outbound :=
  match a with
  | .pushBytes conn bytes => if o.conn = conn then o.pushBytes bytes else o
  | .pushControl conn event => if o.conn = conn then o.pushControl event else o
  | .close conn code => if o.conn = conn then o.close code else o
  | .none | .release | .take => o

@[simp] theorem queue_conn (a : WireAction) (o : Outbound) : (queue a o).conn = o.conn := by
  unfold queue
  split
  case h_1 => split <;> simp
  case h_2 => split <;> simp
  case h_3 => split <;> simp
  all_goals rfl

/-- The queues after an action: those there were, and the one that an attach makes. -/
theorem mem_outbounds_act {a : WireAction} {o' : Outbound} (h : o' ∈ (w.act a).outbounds) :
    (∃ o ∈ w.outbounds, o' = queue a o) ∨
      a = .take ∧ o' = Outbound.new ⟨w.fence.nextConn⟩ backlogBounds := by
  have hmap : ∀ conn (f : Outbound → Outbound), o' ∈ (w.onOutbound conn f).outbounds →
      ∃ o ∈ w.outbounds, o' = if o.conn = conn then f o else o := by
    intro conn f ho'
    obtain ⟨o, ho, rfl⟩ := List.mem_map.mp ho'
    exact ⟨o, ho, rfl⟩
  cases a with
  | none => exact .inl ⟨o', h, rfl⟩
  | release => exact .inl ⟨o', h, rfl⟩
  | pushBytes conn bytes => exact .inl (hmap conn _ h)
  | pushControl conn event => exact .inl (hmap conn _ h)
  | close conn code => exact .inl (hmap conn _ h)
  | take =>
    rcases List.mem_append.mp h with h | h
    · exact .inl ⟨o', h, rfl⟩
    · exact .inr ⟨rfl, List.mem_singleton.mp h⟩

/-- The subscriber changes with `release` and `take` only. -/
theorem subscriber_act (w : Wire) (a : WireAction) : (w.act a).fence.subscriber =
    match a with
    | .release => none
    | .take => some ⟨w.fence.nextConn⟩
    | _ => w.fence.subscriber := by
  cases a <;> rfl

/-- The owner changes with `release` and `take` only. -/
theorem ownerConn_act (w : Wire) (a : WireAction) : (w.act a).fence.ownerConn =
    match a with
    | .release => ⟨0⟩
    | .take => ⟨w.fence.nextConn⟩
    | _ => w.fence.ownerConn := by
  cases a <;> rfl

/-- A connection that does not own the session never does again. -/
theorem not_owner_act {c : ConnGeneration} (hpos : 0 < c.val) (hlt : c.val < w.fence.nextConn)
    (hne : w.fence.ownerConn ≠ c) (a : WireAction) : (w.act a).fence.ownerConn ≠ c := by
  rw [ownerConn_act]
  split
  · rintro rfl
    exact Nat.lt_irrefl _ hpos
  · rintro rfl
    exact Nat.lt_irrefl _ hlt
  · exact hne

/-- A connection loses the slot by `release` or `take`. -/
theorem moved_of_subscriber {w w' : Wire} {a : WireAction} {c : ConnGeneration} (h : w' = w.act a)
    (hsub : w.fence.subscriber = some c) (hlost : w'.fence.subscriber ≠ some c) :
    a = .release ∨ a = .take := by
  rw [h, subscriber_act] at hlost
  cases a with
  | release => exact .inl rfl
  | take => exact .inr rfl
  | _ => exact absurd hsub hlost

/-- Connection numbers are only issued. -/
theorem nextConn_act (w : Wire) (a : WireAction) : w.fence.nextConn ≤ (w.act a).fence.nextConn := by
  cases a with
  | take => exact Nat.le_succ _
  | _ => exact Nat.le_refl _

end Session.Wire

/-- The first code wins. -/
theorem Outbound.closeCode_close (o : Outbound) (code : Nat) :
    (o.close code).closeCode = o.closeCode.or (some code) := by
  unfold close
  cases h : o.closeCode with
  | none => rfl
  | some k => exact h

/-- A push past the hard watermark closes the queue. -/
theorem Outbound.closeCode_pushBytes (o : Outbound) (bytes : List UInt8) :
    (o.pushBytes bytes).closeCode = o.closeCode.or
      (match (o.queue.push bytes).2 with
       | .hardWatermark _ => some CloseCode.slowClient
       | _ => none) := by
  unfold pushBytes
  dsimp only
  cases (o.queue.push bytes).2 with
  | hardWatermark dropped => exact closeCode_close _ _
  | _ => exact (Option.or_none).symm

/-- A queue that is closed stays closed. -/
theorem Session.Wire.queue_closed (a : WireAction) {o : Outbound} (h : o.closeCode ≠ none) :
    (queue a o).closeCode ≠ none := by
  obtain ⟨code, hcode⟩ := Option.ne_none_iff_exists'.mp h
  unfold queue
  split
  case h_1 =>
    split
    · rw [Outbound.closeCode_pushBytes, hcode]
      exact nofun
    · exact h
  case h_2 => split <;> exact h
  case h_3 =>
    split
    · rw [Outbound.closeCode_close, hcode]
      exact nofun
    · exact h
  all_goals exact h

/-- The wires of every session are valid. -/
def Shared.WiresValid (sh : Shared) : Prop :=
  ∀ (sid : Sid) (s : Session), sh.heap[sid]? = some s → s.wire.Valid

theorem Shared.WiresValid.fences {sh : Shared} (h : sh.WiresValid) : sh.FencesValid := by
  intro sid f hf
  obtain ⟨s, hs, rfl⟩ := Option.map_eq_some_iff.mp hf
  exact (h sid s hs).fence

theorem Shared.WiresValid.step {sh sh' : Shared} {a : Option (Sid × (Session → WireAction))}
    (h : sh.WiresValid) (hr : sh.Rewires sh' a) : sh'.WiresValid := by
  intro sid s' hs'
  rcases hr.heap hs' with ⟨s, hs, heq⟩ | ⟨-, heq⟩
  · rw [heq]
    exact (h sid s hs).act _
  · rw [heq]
    exact Session.Wire.valid_fresh

end OpenabPty
