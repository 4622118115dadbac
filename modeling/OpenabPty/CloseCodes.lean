import OpenabPty.SingleAttach

/-!
# The close code names the cause

The task that takes a connection's session away moves the fence under the lock and closes the
connection's queue after it; the first code that is set stays. In between, the connection's own
loop may end and set its fallback code, or a full backlog set its own. A connection that missed
its pings is closed with the code of a takeover.
-/

namespace OpenabPty

/-- The code that a lifecycle operation chooses for the connection it takes the session from. -/
def Cause.lifecycleCode : Cause → Option Nat
  | .takeover => some CloseCode.takeover
  | .renewed => some CloseCode.renewed
  | .teardown code => some code
  | .missedPings | .detached _ => none

/-- The connection was evicted by a lifecycle operation before its client asked to detach. -/
def Loss.evicts (loss : Loss) (sid : Sid) (c : ConnGeneration) : Bool :=
  loss.sid = sid && loss.conn = c && !loss.asked && loss.cause.lifecycleCode.isSome

/-- A code of 4002 means that another connection has won the CAS, and a connection that was
evicted by a lifecycle operation has the code of that operation. -/
def Logged.CodesTrue (w : Logged) : Prop :=
  ∀ (sid : Sid) (s : Session), w.state.shared.heap[sid]? = some s → ∀ o ∈ s.outbounds, ∀ code,
    o.closeCode = some code →
      (code = CloseCode.takeover →
        ∃ loss ∈ w.log, loss.sid = sid ∧ loss.conn = o.conn ∧ loss.cause = .takeover) ∧
      ∀ loss ∈ w.log, loss.evicts sid o.conn = true → loss.cause.lifecycleCode = some code

/-- The code of a connection's queue. -/
def Shared.code? (sh : Shared) (sid : Sid) (c : ConnGeneration) : Option Nat :=
  sh.heap[sid]?.bind fun s => (s.outbounds.find? (·.conn = c)).bind (·.closeCode)

/-- The connection was evicted. -/
def Logged.evicted (w : Logged) (sid : Sid) (c : ConnGeneration) : Bool :=
  w.log.any (·.evicts sid c)

/-- The push is past the hard watermark of the connection's queue. -/
def Shared.overflows (sh : Shared) (sid : Sid) (c : ConnGeneration) (bytes : List UInt8) : Bool :=
  sh.heap[sid]?.any fun s => s.outbounds.any fun o => o.conn = c &&
    match (o.queue.push bytes).2 with
    | .hardWatermark _ => true
    | _ => false

/-- The connection whose session the next section of a task takes away, and why. -/
def Shared.evicts (env : Env) (sh : Shared) (t : Task) : Option (Sid × ConnGeneration × Cause) :=
  t.removes.bind fun p => sh.heap[p.1]?.bind fun s =>
    if Shared.actionAt (t.wires env) p.1 s = .release ∨ Shared.actionAt (t.wires env) p.1 s = .take
    then s.io.subscriber.map fun c => (p.1, c, p.2) else none

/-- A fallback code is only set on a connection that was not evicted, a lifecycle operation
only evicts one that has no code yet, and missed pings only one that has. -/
def Logged.Orderly (env : Env) (w : Logged) (l : World.Label) : Prop :=
  match w.state.acting l with
  | none => True
  | some t =>
    (∀ p ∈ w.state.shared.evicts env t, p.2.2.lifecycleCode.isSome = true →
      w.state.shared.code? p.1 p.2.1 = none ∨ w.state.tasks.any (Task.asks p.1 p.2.1) = true) ∧
    match t with
    | .conn (.closing _ sid c _) =>
      w.state.shared.code? sid c = none → w.evicted sid c = false
    | .conn (.replayBytes _ sid reg bytes) =>
      w.state.shared.code? sid reg.conn = none →
        w.state.shared.overflows sid reg.conn bytes = true → w.evicted sid reg.conn = false
    | .pump (.push sid bytes (some c)) =>
      w.state.shared.code? sid c = none → w.state.shared.overflows sid c bytes = true →
        w.evicted sid c = false
    | .conn (.reading _ r (.missedClose (some c))) => w.state.shared.code? r.sid c ≠ none
    | _ => True

instance (env : Env) (w : Logged) (l : World.Label) : Decidable (w.Orderly env l) := by
  unfold Logged.Orderly
  split
  · infer_instance
  · refine @instDecidableAnd _ _ inferInstance ?_
    split <;> infer_instance

/-! ## Which code a step sets -/

section Step

open Shared

variable {env : Env} {sh sh' : Shared} {t t' : Task} {c : Input} {new : List Task}

/-- The code of the teardown an operation is in, up to its close. -/
def Op.tears : Op → Option Nat
  | .teardownLock td | .teardownRevoke td _ _ | .teardownClose td _ _ => some td.code
  | _ => none

def Task.tears : Task → Option Nat := Task.onOp Op.tears

/-- No teardown closes with the code of a takeover. -/
theorem Op.tears_step {ch : Choice} {op op' : Op} {ops : List Op} {sids : List Sid}
    (h : op.step env sh ch = some (sh', op', ops, sids)) :
    (∀ o ∈ ops, ∀ code, o.tears = some code → code ≠ CloseCode.takeover) ∧
    ∀ code, op'.tears = some code → op.tears = some code ∨ code ≠ CloseCode.takeover := by
  obtain ⟨hgo, hops⟩ := flow_step h
  clear h
  refine ⟨fun o ho code hcode => ?_, fun code hcode => ?_⟩
  · obtain ⟨name, old, -, rfl⟩ := hops o ho
    cases hcode
    show CloseCode.runtimeReplaced ≠ CloseCode.takeover
    decide
  cases hgo with
  | restartAlive | selfExitAlive =>
    cases hcode
    exact .inr (show CloseCode.sessionEnded ≠ CloseCode.takeover by decide)
  | kill =>
    cases hcode
    exact .inr (show CloseCode.adminKill ≠ CloseCode.takeover by decide)
  | tickExpired =>
    cases hcode
    exact .inr (show CloseCode.ttlExpired ≠ CloseCode.takeover by decide)
  | shutdownNext =>
    cases hcode
    exact .inr (show CloseCode.runtimeReplaced ≠ CloseCode.takeover by decide)
  | markedDead | deadAlready | revoked => exact .inl hcode
  | _ => cases hcode

theorem Task.tears_step (h : Task.step env sh t c = some (sh', t', new)) :
    (∀ u ∈ new, ∀ code, u.tears = some code → code ≠ CloseCode.takeover) ∧
    ∀ code, t'.tears = some code → t.tears = some code ∨ code ≠ CloseCode.takeover := by
  rcases step_cases h with ⟨op, op', ops, sids, rfl, hop, rfl, rfl⟩ | ⟨o, o', rfl, hconn, rfl, rfl⟩ |
    ⟨pump, rfl, hpump, rfl⟩
  · obtain ⟨hnew, htears⟩ := Op.tears_step hop
    refine ⟨fun u hu code hcode => ?_, htears⟩
    rcases List.mem_append.mp hu with hu | hu
    · obtain ⟨o, ho, rfl⟩ := List.mem_map.mp hu
      exact hnew o ho code hcode
    · obtain ⟨sid, -, rfl⟩ := List.mem_map.mp hu
      cases hcode
  · exact ⟨fun u hu => absurd hu List.not_mem_nil, fun _ hcode => (nomatch hcode)⟩
  · refine ⟨fun u hu => absurd hu List.not_mem_nil, fun code hcode => ?_⟩
    rcases Pump.step_task hpump with ⟨pump', rfl⟩ | ⟨sid', rfl⟩ <;> cases hcode

theorem Task.tears_entry (h : t.entry = true) : t.tears = none := by
  cases t with
  | op o => cases o <;> first | rfl | cases h
  | conn o => rfl
  | pump o => rfl

/-- The task that closes the queue of a connection that missed its pings. -/
def Task.missed : Task → Bool
  | .conn (.reading _ _ (.missedClose _)) => true
  | _ => false

theorem Task.missed_of_removes (h : Task.step env sh t c = some (sh', t', new)) {sid : Sid}
    (hr : t.removes = some (sid, .missedPings)) {p : Sid × ConnGeneration × Nat}
    (hcloses : t'.closes = some p) : t'.missed = true := by
  unfold removes at hr
  split at hr <;> cases hr
  obtain ⟨⟨sh₁, o'⟩, hconn, heq⟩ := Option.map_eq_some_iff.mp h
  cases heq
  obtain ⟨⟨sh₂, next⟩, hread, heq⟩ := Option.map_eq_some_iff.mp hconn
  obtain ⟨s, hs, heq'⟩ := Option.map_eq_some_iff.mp hread
  cases heq'
  cases heq
  dsimp only at hcloses ⊢
  rename_i a r
  by_cases hmissed : (s.onMissedPingLocked r.conn).2.1 = true
  · rw [if_pos hmissed]
    rfl
  · rw [if_neg hmissed] at hcloses
    cases hcloses

theorem Task.closes_of_missed (h : Task.step env sh t c = some (sh', t', new))
    (hmissed : t.missed = true) : t'.closes = none := by
  unfold missed at hmissed
  split at hmissed
  · rename_i a r subscriber
    cases subscriber <;> cases h <;> rfl
  · cases hmissed

theorem Task.tears_of_removes {sid : Sid} {code : Nat}
    (hr : t.removes = some (sid, .teardown code)) : t.tears = some code := by
  unfold removes at hr
  split at hr <;> cases hr
  rfl

/-- The tasks that move the fence of a session do not touch its queues. -/
theorem Task.wires_queue {sid : Sid} {s : Session} {a : WireAction}
    (h : actionAt (t.wires env) sid s = a)
    (ha : a ≠ .none ∧ a ≠ .release ∧ a ≠ .take) :
    t.removes = none ∧ ∃ f, t.wires env = some (sid, f) ∧ f s = a := by
  subst h
  obtain ⟨f, hw, hf⟩ := eq_some_of_actionAt ha.1
  refine ⟨?_, f, hw, hf⟩
  rw [← hf] at ha
  unfold wires at hw
  split at hw <;> cases hw
  case h_7 attach now =>
    rcases s.attachAction_cases env.policy env.config.scrollbackReplay attach.generation attach.size
      attach.since now with hnone | htake
    · exact absurd hnone ha.1
    · exact absurd htake ha.2.2
  case h_12 attach r =>
    rcases s.missedPingAction_cases r.conn with hnone | hrelease
    · exact absurd hnone ha.1
    · exact absurd hrelease ha.2.1
  case h_14 x | h_15 x =>
    rcases s.detachAction_cases x with hnone | hrelease
    · exact absurd hnone ha.1
    · exact absurd hrelease ha.2.1
  all_goals first | rfl | exact absurd rfl ha.2.1

/-- The tasks that close a queue. -/
theorem Task.close_cases {sid : Sid} {s : Session} {x : ConnGeneration} {code : Nat}
    (h : actionAt (t.wires env) sid s = .close x code) :
    t.closes = some (sid, x, code) ∨
      ∃ a exit, t = .conn (.closing a sid x exit) ∧ code = exit.closeCode := by
  obtain ⟨hremoves, f, hw, hf⟩ := wires_queue h ⟨nofun, nofun, nofun⟩
  unfold wires at hw
  split at hw <;> cases hw
  all_goals first
    | (cases hf; exact .inl rfl)
    | (cases hf; exact .inr ⟨_, _, rfl, rfl⟩)
    | exact absurd hremoves (Option.some_ne_none _)
    | exact WireAction.noConfusion hf

/-- The tasks that push bytes to a queue. -/
theorem Task.pushBytes_cases {sid : Sid} {s : Session} {x : ConnGeneration} {bytes : List UInt8}
    (h : actionAt (t.wires env) sid s = .pushBytes x bytes) :
    (∃ a reg, t = .conn (.replayBytes a sid reg bytes) ∧ x = reg.conn) ∨
      t = .pump (.push sid bytes (some x)) := by
  obtain ⟨hremoves, f, hw, hf⟩ := wires_queue h ⟨nofun, nofun, nofun⟩
  unfold wires at hw
  split at hw <;> cases hw
  all_goals first
    | (cases hf; exact .inl ⟨_, _, rfl, rfl⟩)
    | (cases hf; exact .inr rfl)
    | exact absurd hremoves (Option.some_ne_none _)
    | exact WireAction.noConfusion hf

end Step

/-- An action that sets a code closes the queue, or overflows it. -/
theorem Session.Wire.queue_sets {a : WireAction} {o : Outbound} {code : Nat}
    (hnone : o.closeCode = none) (hcode : (queue a o).closeCode = some code) :
    a = .close o.conn code ∨ ∃ bytes, a = .pushBytes o.conn bytes ∧ code = CloseCode.slowClient ∧
      ∃ dropped, (o.queue.push bytes).2 = .hardWatermark dropped := by
  unfold queue at hcode
  split at hcode
  · rename_i conn bytes
    split at hcode
    · rename_i hconn
      subst hconn
      rw [Outbound.closeCode_pushBytes, hnone, Option.none_or] at hcode
      split at hcode
      · rename_i dropped hpush
        exact .inr ⟨bytes, rfl, (Option.some.inj hcode).symm, dropped, hpush⟩
      · cases hcode
    · rw [hnone] at hcode
      cases hcode
  · split at hcode <;> exact absurd (hnone.symm.trans hcode) nofun
  · rename_i conn k
    split at hcode
    · rename_i hconn
      subst hconn
      rw [Outbound.closeCode_close, hnone, Option.none_or] at hcode
      rw [Option.some.inj hcode]
      exact .inl rfl
    · rw [hnone] at hcode
      cases hcode
  all_goals
    rw [hnone] at hcode
    cases hcode

/-- A code that is set stays. -/
theorem Session.Wire.queue_keeps (a : WireAction) {o : Outbound} {code : Nat}
    (h : o.closeCode = some code) : (queue a o).closeCode = some code := by
  unfold queue
  split
  · split
    · rw [Outbound.closeCode_pushBytes, h, Option.some_or]
    · exact h
  · split <;> exact h
  · split
    · rw [Outbound.closeCode_close, h, Option.some_or]
    · exact h
  all_goals exact h

/-! ## Runs -/

variable {env : Env} {w w' : Logged} {l : World.Label}

/-- The code of a queue, looked up by its connection. -/
theorem Shared.code?_eq {sh : Shared} {sid : Sid} {s : Session} (hs : sh.heap[sid]? = some s)
    (hvalid : s.wire.Valid) {o : Outbound} (ho : o ∈ s.outbounds) :
    sh.code? sid o.conn = o.closeCode := by
  have hfind : s.outbounds.find? (·.conn = o.conn) = some o := by
    obtain ⟨o', ho'⟩ := Option.isSome_iff_exists.mp
      (List.find?_isSome.mpr ⟨o, ho, decide_eq_true rfl⟩ : (s.outbounds.find? (·.conn = o.conn)).isSome)
    have hconn : o'.conn = o.conn := by simpa using List.find?_some ho'
    rw [ho', hvalid.eq_of_conn (List.mem_of_find?_eq_some ho') ho hconn]
  rw [code?, hs, Option.bind_some, hfind]
  rfl

/-- The invariant of the close codes. A loss is for good and happens once, no teardown closes
with the code of a takeover, and who closes the queue it has removed does so with the code of
the loss. -/
structure Logged.Coded (w : Logged) : Prop where
  sound : w.Sound
  codes : w.CodesTrue
  past : ∀ loss ∈ w.log, w.state.shared.Past loss.sid loss.conn
  unique : ∀ loss ∈ w.log, ∀ loss' ∈ w.log, loss.sid = loss'.sid → loss.conn = loss'.conn →
    loss = loss'
  torn : ∀ loss ∈ w.log, loss.cause ≠ .teardown CloseCode.takeover
  tears : ∀ t ∈ w.state.tasks, ∀ code, t.tears = some code → code ≠ CloseCode.takeover
  closers : ∀ t ∈ w.state.tasks, ∀ sid c code, t.closes = some (sid, c, code) →
    t.missed = false → ∃ loss ∈ w.log, loss.sid = sid ∧ loss.conn = c ∧
      loss.cause.lifecycleCode = some code

/-- A step that changes neither a queue nor the record. -/
theorem Logged.Coded.quiet (h : w.Coded) (hsound : w'.Sound)
    (hheap : w'.state.shared.heap = w.state.shared.heap) (hlog : w'.log = w.log)
    (htasks : ∀ t ∈ w'.state.tasks, t ∈ w.state.tasks ∨ t.tears = none ∧ t.closes = none) :
    w'.Coded where
  sound := hsound
  codes := by
    unfold CodesTrue
    rw [hheap, hlog]
    exact h.codes
  past := by
    unfold Shared.Past
    rw [hheap, hlog]
    exact h.past
  unique := by
    rw [hlog]
    exact h.unique
  torn := by
    rw [hlog]
    exact h.torn
  tears t ht code hcode := by
    rcases htasks t ht with ht | ⟨hnone, -⟩
    · exact h.tears t ht code hcode
    · rw [hnone] at hcode
      cases hcode
  closers t ht sid c code hcode hmissed := by
    rw [hlog]
    rcases htasks t ht with ht | ⟨-, hnone⟩
    · exact h.closers t ht sid c code hcode hmissed
    · rw [hnone] at hcode
      cases hcode

theorem Logged.coded_init : Logged.init.Coded where
  sound := Logged.sound_init
  codes sid s hs := by cases hs
  past _ h := absurd h List.not_mem_nil
  unique _ h := absurd h List.not_mem_nil
  torn _ h := absurd h List.not_mem_nil
  tears _ h := absurd h List.not_mem_nil
  closers _ h := absurd h List.not_mem_nil

section Step

variable {i : Nat} {c : Input} {t t' : Task} {sh' : Shared} {new : List Task} {log : List Loss}

/-- In an orderly run a connection is evicted before it has a code, or after its client asked. -/
theorem Logged.Orderly.evicts (hc : w.Orderly env (.step i c)) (ht : w.state.tasks[i]? = some t)
    {sid : Sid} {x : ConnGeneration} {cause : Cause}
    (hevicts : w.state.shared.evicts env t = some (sid, x, cause))
    (hcode : cause.lifecycleCode.isSome = true) :
    w.state.shared.code? sid x = none ∨ w.state.tasks.any (Task.asks sid x) = true := by
  unfold Orderly at hc
  rw [show w.state.acting (.step i c : World.Label) = some t from ht] at hc
  exact hc.1 _ hevicts hcode

/-- Missed pings close a queue that has its code. -/
theorem Logged.Orderly.not_missed (hc : w.Orderly env (.step i c))
    (ht : w.state.tasks[i]? = some t) {sid : Sid} {x : ConnGeneration} {code : Nat}
    (hcloses : t.closes = some (sid, x, code)) (hnone : w.state.shared.code? sid x = none) :
    t.missed = false := by
  unfold Orderly at hc
  rw [show w.state.acting (.step i c : World.Label) = some t from ht] at hc
  by_contra hm
  unfold Task.missed at hm
  split at hm
  · rename_i a r subscriber
    cases subscriber with
    | none => cases hcloses
    | some y =>
      cases hcloses
      exact hc.2 hnone
  · exact hm rfl

/-- A connection that ends with a fallback code was not evicted. -/
theorem Logged.Orderly.closing (hc : w.Orderly env (.step i c)) {a : Attach} {sid : Sid}
    {x : ConnGeneration} {exit : ReadExit}
    (ht : w.state.tasks[i]? = some (.conn (.closing a sid x exit)))
    (hnone : w.state.shared.code? sid x = none) : w.evicted sid x = false := by
  unfold Orderly at hc
  rw [show w.state.acting (.step i c : World.Label) = _ from ht] at hc
  exact hc.2 hnone

/-- Neither was one whose backlog overflows. -/
theorem Logged.Orderly.overflowing (hc : w.Orderly env (.step i c))
    (ht : w.state.tasks[i]? = some t) {sid : Sid} {s : Session} {x : ConnGeneration}
    {bytes : List UInt8} (hact : Shared.actionAt (t.wires env) sid s = .pushBytes x bytes)
    (hnone : w.state.shared.code? sid x = none)
    (hover : w.state.shared.overflows sid x bytes = true) : w.evicted sid x = false := by
  unfold Orderly at hc
  rw [show w.state.acting (.step i c : World.Label) = some t from ht] at hc
  rcases Task.pushBytes_cases hact with ⟨a, reg, rfl, rfl⟩ | rfl
  · exact hc.2 hnone hover
  · exact hc.2 hnone hover

/-- A loss is the eviction of the task that moved. -/
theorem World.evicts_of_loss {w : World} {tasks : List Task} {loss : Loss}
    (ht : w.tasks[i]? = some t) (hstep : Task.step env w.shared t c = some (sh', t', new))
    (hloss : loss ∈ w.losses (.step i c) { shared := sh', tasks := tasks }) :
    w.shared.evicts env t = some (loss.sid, loss.conn, loss.cause) ∧
      loss.asked = w.tasks.any (Task.asks loss.sid loss.conn) := by
  obtain ⟨t₁, hacting, hremoves, hsub, hlost, hasked⟩ := World.mem_losses.mp hloss
  obtain rfl : t = t₁ := Option.some.inj (ht.symm.trans hacting)
  obtain ⟨s, hs, hsub⟩ := Option.bind_eq_some_iff.mp hsub
  obtain ⟨s', hs', hwire⟩ := Option.map_eq_some_iff.mp ((Task.wire_step hstep).old loss.sid s hs)
  rw [Shared.subscriber?_eq hs'] at hlost
  have hmoved := Session.Wire.moved_of_subscriber hwire hsub hlost
  refine ⟨?_, hasked⟩
  rw [Shared.evicts, hremoves, Option.bind_some]
  dsimp only
  rw [hs, Option.bind_some, if_pos hmoved, hsub]
  rfl

/-- What the record tells of a connection whose queue has the code. -/
def Loss.Explains (log : List Loss) (sid : Sid) (x : ConnGeneration) (code : Nat) : Prop :=
  (code = CloseCode.takeover → ∃ loss ∈ log, loss.sid = sid ∧ loss.conn = x ∧
    loss.cause = .takeover) ∧
  ∀ loss ∈ log, loss.evicts sid x = true → loss.cause.lifecycleCode = some code

theorem Loss.Explains.append {losses : List Loss} {sid : Sid} {x : ConnGeneration} {code : Nat}
    (h : Loss.Explains log sid x code) (hnew : ∀ loss ∈ losses, loss.evicts sid x = false) :
    Loss.Explains (losses ++ log) sid x code := by
  refine ⟨fun hk => ?_, fun loss hloss hevicts => ?_⟩
  · obtain ⟨loss, hloss, hrest⟩ := h.1 hk
    exact ⟨loss, List.mem_append_right _ hloss, hrest⟩
  · rcases List.mem_append.mp hloss with hloss | hloss
    · rw [hnew loss hloss] at hevicts
      cases hevicts
    · exact h.2 loss hloss hevicts

/-- A code that is not the one of a takeover is true of a connection that was not evicted. -/
theorem Logged.explains_of_unevicted {sid : Sid} {x : ConnGeneration} {code : Nat}
    (hne : code ≠ CloseCode.takeover) (h : w.evicted sid x = false) :
    Loss.Explains w.log sid x code :=
  ⟨fun hk => absurd hk hne,
    fun loss hloss hevicts => absurd hevicts (List.any_eq_false.mp h loss hloss)⟩

/-- The code of the task that has removed a connection is true. -/
theorem Logged.Coded.explains_closer (h : w.Coded) (ht : t ∈ w.state.tasks) {sid : Sid}
    {x : ConnGeneration} {code : Nat} (hcloses : t.closes = some (sid, x, code))
    (hmissed : t.missed = false) : Loss.Explains w.log sid x code := by
  obtain ⟨loss, hloss, hsid, hconn, hlifecycle⟩ := h.closers t ht sid x code hcloses hmissed
  refine ⟨fun hk => ⟨loss, hloss, hsid, hconn, ?_⟩, fun loss' hloss' hevicts => ?_⟩
  · subst hk
    have htorn := h.torn loss hloss
    cases hcause : loss.cause with
    | takeover => rfl
    | teardown k =>
      rw [hcause] at hlifecycle htorn
      exact absurd (congrArg Cause.teardown (Option.some.inj hlifecycle)) htorn
    | missedPings | renewed | detached x =>
      rw [hcause] at hlifecycle
      cases hlifecycle
  · simp only [Loss.evicts, Bool.and_eq_true, decide_eq_true_eq] at hevicts
    obtain ⟨⟨⟨hsid', hconn'⟩, -⟩, -⟩ := hevicts
    rw [h.unique loss' hloss' loss hloss (hsid'.trans hsid.symm) (hconn'.trans hconn.symm)]
    exact hlifecycle

/-- A connection that has its code already is not evicted by the step. -/
theorem Logged.Orderly.not_evicted (hc : w.Orderly env (.step i c))
    (ht : w.state.tasks[i]? = some t)
    (hstep : Task.step env w.state.shared t c = some (sh', t', new)) {tasks : List Task}
    {sid : Sid} {x : ConnGeneration} (hcode : w.state.shared.code? sid x ≠ none) :
    ∀ loss ∈ w.state.losses (.step i c) { shared := sh', tasks := tasks },
      loss.evicts sid x = false := by
  intro loss hloss
  obtain ⟨hevicts, hasked⟩ := World.evicts_of_loss ht hstep hloss
  by_contra hb
  simp only [Loss.evicts, Bool.not_eq_false, Bool.and_eq_true, decide_eq_true_eq,
    Bool.not_eq_true'] at hb
  obtain ⟨⟨⟨rfl, rfl⟩, hunasked⟩, hlifecycle⟩ := hb
  rcases hc.evicts ht hevicts hlifecycle with hnone | hany
  · exact hcode hnone
  · rw [hasked, hany] at hunasked
    cases hunasked

/-- The code that a step sets is true: the task that has removed a connection sets its own, a
connection that ends or overflows was not evicted. -/
theorem Logged.Coded.explains_set (h : w.Coded) (ht : w.state.tasks[i]? = some t)
    (hc : w.Orderly env (.step i c)) {sid : Sid} {s : Session}
    (hs : w.state.shared.heap[sid]? = some s) {o : Outbound} (ho : o ∈ s.outbounds)
    (hnone : o.closeCode = none) {code : Nat}
    (hcode : (Session.Wire.queue (Shared.actionAt (t.wires env) sid s) o).closeCode = some code) :
    t.removes = none ∧ Loss.Explains w.log sid o.conn code := by
  have hcode? : w.state.shared.code? sid o.conn = none :=
    (Shared.code?_eq hs (h.sound.wires sid s hs) ho).trans hnone
  rcases Session.Wire.queue_sets hnone hcode with hact | ⟨bytes, hact, rfl, dropped, hpush⟩
  · refine ⟨(Task.wires_queue hact ⟨nofun, nofun, nofun⟩).1, ?_⟩
    rcases Task.close_cases hact with hcloses | ⟨a, exit, rfl, rfl⟩
    · exact h.explains_closer (List.mem_of_getElem? ht) hcloses (hc.not_missed ht hcloses hcode?)
    · refine explains_of_unevicted ?_ (hc.closing ht hcode?)
      cases exit <;> decide
  · refine ⟨(Task.wires_queue hact ⟨nofun, nofun, nofun⟩).1, ?_⟩
    have hoverflows : w.state.shared.overflows sid o.conn bytes = true := by
      rw [Shared.overflows, hs, Option.any_some]
      refine List.any_eq_true.mpr ⟨o, ho, ?_⟩
      rw [hpush, decide_eq_true rfl]
      rfl
    exact explains_of_unevicted (by decide) (hc.overflowing ht hact hcode? hoverflows)

/-- Codes stay true: a queue keeps the code it has, and a code that is set is true. -/
theorem Logged.Coded.codes_step (h : w.Coded) (ht : w.state.tasks[i]? = some t)
    (hc : w.Orderly env (.step i c))
    (hstep : Task.step env w.state.shared t c = some (sh', t', new))
    (hlog : log = w.state.losses (.step i c)
      { shared := sh', tasks := w.state.tasks.set i t' ++ new } ++ w.log) :
    Logged.CodesTrue { state := { shared := sh', tasks := w.state.tasks.set i t' ++ new },
                       log := log } := by
  intro sid s' hs' o' ho' code hcode
  show Loss.Explains log sid o'.conn code
  rcases (Task.wire_step hstep).heap hs' with ⟨s, hs, hwire⟩ | ⟨-, hwire⟩
  swap
  · have hnil : s'.outbounds = [] := congrArg Session.Wire.outbounds hwire
    rw [hnil] at ho'
    cases ho'
  have ho'' : o' ∈ (s.wire.act (Shared.actionAt (t.wires env) sid s)).outbounds := hwire ▸ ho'
  rcases Session.Wire.mem_outbounds_act ho'' with ⟨o, ho, rfl⟩ | ⟨-, rfl⟩
  swap
  · cases hcode
  rw [hlog, Session.Wire.queue_conn]
  cases hold : o.closeCode with
  | some k =>
    rw [Session.Wire.queue_keeps _ hold] at hcode
    obtain rfl := Option.some.inj hcode
    have hcode? : w.state.shared.code? sid o.conn = some k :=
      (Shared.code?_eq hs (h.sound.wires sid s hs) ho).trans hold
    have hexplains : Loss.Explains w.log sid o.conn k := h.codes sid s hs o ho k hold
    exact hexplains.append (hc.not_evicted ht hstep (hcode? ▸ Option.some_ne_none k))
  | none =>
    obtain ⟨hremoves, hexplains⟩ := h.explains_set ht hc hs ho hold hcode
    have hnil : w.state.losses (.step i c)
        { shared := sh', tasks := w.state.tasks.set i t' ++ new } = [] := by
      rw [World.losses, show w.state.acting (.step i c : World.Label) = some t from ht,
        Option.bind_some, hremoves]
    rw [hnil]
    exact hexplains

/-- Who has a queue to close after a step, with a code of its own, has removed its connection. -/
theorem Logged.Coded.closers_step (h : w.Coded) (ht : w.state.tasks[i]? = some t)
    (hstep : Task.step env w.state.shared t c = some (sh', t', new))
    (hlog : log = w.state.losses (.step i c)
      { shared := sh', tasks := w.state.tasks.set i t' ++ new } ++ w.log) :
    ∀ u ∈ w.state.tasks.set i t' ++ new, ∀ sid x code, u.closes = some (sid, x, code) →
      u.missed = false → ∃ loss ∈ log, loss.sid = sid ∧ loss.conn = x ∧
        loss.cause.lifecycleCode = some code := by
  intro u hu sid x code hcloses hmissed
  have hacting : w.state.acting (.step i c : World.Label) = some t := ht
  have hold : ∀ v ∈ w.state.tasks, v.closes = some (sid, x, code) → v.missed = false →
      ∃ loss ∈ log, loss.sid = sid ∧ loss.conn = x ∧ loss.cause.lifecycleCode = some code := by
    intro v hv hcloses hmissed
    obtain ⟨loss, hloss, hrest⟩ := h.closers v hv sid x code hcloses hmissed
    rw [hlog]
    exact ⟨loss, List.mem_append_right _ hloss, hrest⟩
  obtain ⟨hnew, hnext⟩ := Task.closes_new hstep h.sound.wires.fences
  rcases List.mem_append.mp hu with hu | hu
  · rcases List.mem_or_eq_of_mem_set hu with hu | rfl
    · exact hold u hu hcloses hmissed
    · rcases hnext sid x code hcloses with hkeep | ⟨cause, hremoves, hcode, hsub, hlost⟩
      · refine hold t (List.mem_of_getElem? ht) hkeep ?_
        by_contra hm
        rw [Task.closes_of_missed hstep (by simpa using hm)] at hcloses
        cases hcloses
      · refine ⟨{ sid := sid, conn := x, cause := cause,
                  asked := w.state.tasks.any (Task.asks sid x) }, ?_, rfl, rfl, ?_⟩
        · rw [hlog]
          exact List.mem_append_left _
            (World.mem_losses.mpr ⟨t, hacting, hremoves, hsub, hlost, rfl⟩)
        · cases cause with
          | missedPings =>
            rw [Task.missed_of_removes hstep hremoves hcloses] at hmissed
            cases hmissed
          | detached y => cases hcode
          | takeover | renewed | teardown k => exact hcode
  · rw [hnew u hu] at hcloses
    cases hcloses

end Step

theorem Logged.coded_next (h : w.Coded) (hc : w.Orderly env l) (hs : w.next env l = some w') :
    w'.Coded := by
  have hsound := Logged.sound_next h.sound hs
  obtain ⟨hnext, hlog⟩ := Trace.noted_eq_some hs
  obtain ⟨⟨shared, tasks⟩, log⟩ := w'
  dsimp only at hnext hlog hsound ⊢
  cases l with
  | call t =>
    obtain ⟨hentry, heq⟩ := Threads.next_call hnext
    cases heq
    refine h.quiet hsound rfl hlog fun u hu => ?_
    rcases List.mem_append.mp hu with hu | hu
    · exact .inl hu
    · obtain rfl := List.mem_singleton.mp hu
      exact .inr ⟨Task.tears_entry hentry, Task.closes_entry hentry⟩
  | env d =>
    cases Threads.next_env hnext
    exact h.quiet hsound rfl hlog fun u hu => .inl hu
  | step i c =>
    obtain ⟨t, sh', t', new, ht, hstep, heq⟩ := Threads.next_step hnext
    cases heq
    have hmem : t ∈ w.state.tasks := List.mem_of_getElem? ht
    have hloss : ∀ loss ∈ log, loss ∈ w.log ∨ t.removes = some (loss.sid, loss.cause) ∧
        w.state.shared.subscriber? loss.sid = some loss.conn ∧
        shared.subscriber? loss.sid ≠ some loss.conn ∧
        loss.asked = w.state.tasks.any (Task.asks loss.sid loss.conn) := by
      intro loss hl
      rcases List.mem_append.mp (hlog ▸ hl) with hl | hl
      · obtain ⟨t₁, hacting, hrest⟩ := World.mem_losses.mp hl
        have hacting' : w.state.acting (.step i c : World.Label) = some t := ht
        cases hacting.symm.trans hacting'
        exact .inr hrest
      · exact .inl hl
    obtain ⟨hnewTears, htears⟩ := Task.tears_step hstep
    refine ⟨hsound, h.codes_step ht hc hstep hlog, fun loss hl => ?_, fun loss hl loss' hl' hsid
      hconn => ?_, fun loss hl hcause => ?_, fun u hu code hcode => ?_, h.closers_step ht hstep hlog⟩
    · rcases hloss loss hl with hl | ⟨-, hsub, hlost, -⟩
      · exact (h.past loss hl).step hstep
      · exact .of_lost h.sound.wires.fences hstep hsub hlost
    · have hfirst : ∀ a ∈ w.log, ∀ b : Loss, a.sid = b.sid → a.conn = b.conn →
          w.state.shared.subscriber? b.sid ≠ some b.conn := by
        intro a ha b hsid hconn
        rw [← hsid, ← hconn]
        exact (h.past a ha).not_subscriber
      rcases hloss loss hl with hl | ⟨hremoves, hsub, -, hasked⟩ <;>
        rcases hloss loss' hl' with hl' | ⟨hremoves', hsub', -, hasked'⟩
      · exact h.unique loss hl loss' hl' hsid hconn
      · exact absurd hsub' (hfirst loss hl loss' hsid hconn)
      · exact absurd hsub (hfirst loss' hl' loss hsid.symm hconn.symm)
      · obtain ⟨sid, conn, cause, asked⟩ := loss
        obtain ⟨sid', conn', cause', asked'⟩ := loss'
        dsimp only at hsid hconn hremoves hremoves' hasked hasked'
        subst hsid hconn hasked hasked'
        rw [hremoves] at hremoves'
        cases hremoves'
        rfl
    · rcases hloss loss hl with hl | ⟨hremoves, -⟩
      · exact h.torn loss hl hcause
      · rw [hcause] at hremoves
        exact h.tears t hmem _ (Task.tears_of_removes hremoves) rfl
    · rcases List.mem_append.mp hu with hu | hu
      · rcases List.mem_or_eq_of_mem_set hu with hu | rfl
        · exact h.tears u hu code hcode
        · rcases htears code hcode with hkeep | hne
          · exact h.tears t hmem code hkeep
          · exact hne
      · exact hnewTears u hu code hcode

/-- Along every run whose closes and evictions are orderly, close codes name the real cause. -/
theorem codesTrue_of_orderly (env : Env) (run : List World.Label)
    (h : Trace.AllSteps (Logged.next env) (Logged.Orderly env) Logged.init run) :
    Trace.AllStates (Logged.next env) Logged.CodesTrue Logged.init run :=
  (Trace.AllStates.of_invariant (fun _ _ _ hi hc hs => Logged.coded_next hi hc hs)
    Logged.coded_init h).imp fun _ hw => hw.codes

/-- A client is attached to `sh`; a second one with the same token has just won the CAS. -/
def takeoverWon : List World.Label :=
  [.call (.op (.claimName { name := .sh, size := .default, origin := .create })),
   .step 0 {}, .step 0 {}, .step 0 { choice := { raw := some [7] } }, .step 0 {}, .step 0 {},
   .call (.conn (.request { token := [48, 55], session := [115, 104], since := none,
                            rows := none, cols := none })),
   .step 2 {}, .step 2 {}, .step 2 {}, .step 2 {}, .step 2 {}, .step 2 {}, .step 2 {},
   .step 2 {}, .step 2 {}, .step 2 {}, .step 2 {},
   .call (.conn (.request { token := [48, 55], session := [115, 104], since := none,
                            rows := none, cols := none })),
   .step 3 {}, .step 3 {}, .step 3 {}, .step 3 {}, .step 3 {}, .step 3 {}, .step 3 {}]

/-- The first client types, finds itself evicted, detaches and is closed. -/
def evictedWrite : List World.Label :=
  [.step 2 { arrival := { incoming := .binary [97] [97] } }, .step 2 {}, .step 2 {}, .step 2 {}]

theorem codesTrue_takeover :
    Trace.AllStates (Logged.next .default) Logged.CodesTrue Logged.init
      (takeoverWon ++ [.step 3 {}] ++ evictedWrite) :=
  codesTrue_of_orderly .default _ (by decide)

/-- The client that typed before the winner of the CAS closed it is closed with 1000. -/
theorem evictedWrite_generic :
    ¬ Trace.AllStates (Logged.next .default) Logged.CodesTrue Logged.init
      (takeoverWon ++ evictedWrite) := by
  intro h
  obtain ⟨w, htrue, hw⟩ := h.observe
    (f := fun w => (w.log, w.state.shared.heap[0]?.map fun s =>
      s.outbounds.map fun o => (o.conn, o.closeCode)))
    (show _ = some ([{ sid := 0, conn := ⟨1⟩, cause := .takeover, asked := false }],
      some [(⟨1⟩, some 1000), (⟨2⟩, none)]) from by decide)
  obtain ⟨hlog, hcodes⟩ := Prod.mk.inj hw
  obtain ⟨s, hs, hcodes⟩ := Option.map_eq_some_iff.mp hcodes
  have hmem : ((⟨1⟩, some 1000) : ConnGeneration × Option Nat) ∈
      s.outbounds.map fun o => (o.conn, o.closeCode) := by
    rw [hcodes]
    exact List.mem_cons_self
  obtain ⟨o, ho, heq⟩ := List.mem_map.mp hmem
  obtain ⟨hconn, hcode⟩ := Prod.mk.inj heq
  have hlost := (htrue 0 s hs o ho 1000 hcode).2 _ (hlog ▸ List.mem_singleton_self _)
    (by rw [hconn]; decide)
  cases hlost

end OpenabPty
