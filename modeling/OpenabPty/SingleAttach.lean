import OpenabPty.Core.History
import OpenabPty.Wires

/-!
# One connection at a time

A session has at most one connection: the owner under the lock, its mirror, and the subscriber
slot name the same one, whatever moved them last. Every connection that was subscribed and is
no more was removed for a cause that is on record, and unless it detached by itself the task
that removed it has closed it or is about to.
-/

namespace OpenabPty

/-! ## Losses -/

/-- Why a connection lost the subscriber slot. -/
inductive Cause where
  | takeover
  | missedPings
  | renewed
  | teardown (code : Nat)
  | detached (conn : ConnGeneration)
  deriving DecidableEq

/-- The code the connection is closed with by the task that removed it. -/
def Cause.closeCode : Cause → Option Nat
  | .takeover | .missedPings => some CloseCode.takeover
  | .renewed => some CloseCode.renewed
  | .teardown code => some code
  | .detached _ => none

/-- A connection that lost the subscriber slot of its session; `asked` says that its client had
asked to detach by then. -/
structure Loss where
  sid : Sid
  conn : ConnGeneration
  cause : Cause
  asked : Bool
  deriving DecidableEq

/-- The session whose subscriber the next section of a task may remove, and why. -/
def Task.removes : Task → Option (Sid × Cause)
  | .op (.teardownLock td) => some (td.sid, .teardown td.code)
  | .op (.renewLock _ sid) => some (sid, .renewed)
  | .conn (.lock _ sid _) => some (sid, .takeover)
  | .conn (.reading _ r .missedPing) => some (r.sid, .missedPings)
  | .conn (.exiting _ sid c _) => some (sid, .detached c)
  | _ => none

/-- The client of the connection has asked to detach. -/
def Task.asks (sid : Sid) (c : ConnGeneration) : Task → Bool
  | .conn (.exiting _ sid' c' .detached) => sid' = sid && c' = c
  | _ => false

/-- The `Outbound` a task is about to close because it has removed it. -/
def Task.closes : Task → Option (Sid × ConnGeneration × Nat)
  | .op (.teardownRevoke td _ (some c)) | .op (.teardownClose td _ (some c)) =>
    some (td.sid, c, td.code)
  | .op (.renewClose _ sid _ (some c)) => some (sid, c, CloseCode.renewed)
  | .conn (.closePrevious _ sid _ previous) => some (sid, previous, CloseCode.takeover)
  | .conn (.reading _ r (.missedClose (some c))) => some (r.sid, c, CloseCode.takeover)
  | _ => none

/-- The subscriber of a session. -/
def Shared.subscriber? (sh : Shared) (sid : Sid) : Option ConnGeneration :=
  sh.heap[sid]?.bind (·.io.subscriber)

/-- What a step removes from a subscriber slot. -/
def World.losses (w : World) (l : World.Label) (w' : World) : List Loss :=
  match (w.acting l).bind Task.removes with
  | none => []
  | some (sid, cause) =>
    match w.shared.subscriber? sid with
    | none => []
    | some c =>
      if w'.shared.subscriber? sid = some c then []
      else [{ sid := sid, conn := c, cause := cause, asked := w.tasks.any (Task.asks sid c) }]

/-- The runtime with a record of every loss, newest first. -/
abbrev Logged := Trace.Noted World (List Loss)

def Logged.init : Logged := { state := World.init, log := [] }

def Logged.next (env : Env) : Logged → World.Label → Option Logged :=
  Trace.noted (World.next env) fun w l w' log => w.losses l w' ++ log

/-! ## The claim -/

/-- The mirror, the flags and the subscriber slot of a session agree with its state. -/
structure Session.SingleAttach (s : Session) : Prop where
  mirror : s.io.ownerConn = s.state.ownerConn
  alive : s.io.alive = s.state.alive
  next : s.state.ownerConn.val < s.state.nextConn
  detached : s.io.subscriber = none ↔ s.state.ownerConn = ⟨0⟩
  attached : ∀ c, s.io.subscriber = some c → c = s.state.ownerConn ∧
    ∃ o ∈ s.outbounds, o.conn = c ∧ ∀ o' ∈ s.outbounds, o'.conn = c → o' = o

/-- The `Outbound` of a connection that lost the slot is accounted for: the connection detached
by itself, or the task that removed it has closed it or will. -/
def Logged.Accounts (w : Logged) (sid : Sid) (o : Outbound) : Prop :=
  ∃ loss ∈ w.log, loss.sid = sid ∧ loss.conn = o.conn ∧
    match loss.cause.closeCode with
    | none => loss.cause = .detached o.conn
    | some code => o.closeCode ≠ none ∨ ∃ t ∈ w.state.tasks, t.closes = some (sid, o.conn, code)

/-- Every session has one connection at most, and every other one it had is accounted for. -/
def Logged.SingleAttach (w : Logged) : Prop :=
  ∀ (sid : Sid) (s : Session), w.state.shared.heap[sid]? = some s → s.SingleAttach ∧
    ∀ o ∈ s.outbounds, s.io.subscriber ≠ some o.conn → w.Accounts sid o

/-! ## Who removes and who closes -/

/-- What the locked section of an attach returns as evicted was subscribed before it. -/
theorem Session.evicted_attachLocked {s s' : Session} {policy : SessionPolicy}
    {scrollbackReplay : Bool} {generation : Generation} {size : WindowSize} {since : Option Nat}
    {now : Instant} {reg : Registration}
    (h : s.attachLocked policy scrollbackReplay generation size since now = (s', .ok reg)) :
    reg.evicted = s.io.subscriber ∧ s'.io.subscriber = some reg.conn := by
  have hcas : (s.attachCas policy generation size now).1.io.subscriber = s.io.subscriber := by
    unfold attachCas
    dsimp only
    split_ifs <;> rfl
  unfold attachLocked at h
  split at h
  · cases h
  · rename_i t conn heq
    rw [heq] at hcas
    cases h
    exact ⟨hcas, rfl⟩

section Step

open Shared

variable {env : Env} {sh sh' : Shared} {t t' : Task} {c : Input} {new : List Task}

theorem Shared.subscriber?_eq {sid : Sid} {s : Session} (hs : sh.heap[sid]? = some s) :
    sh.subscriber? sid = s.io.subscriber := by rw [subscriber?, hs]; rfl

theorem Shared.subscriber?_modify {sid : Sid} {s : Session} (hs : sh.heap[sid]? = some s)
    (f : Session → Session) : (sh.modify sid f).subscriber? sid = (f s).io.subscriber := by
  rw [subscriber?, heap_modify, if_pos rfl, hs]
  rfl

/-- Only a task that may remove a subscriber moves the fence of a session. -/
theorem Task.removes_of_action {sid : Sid} {s : Session}
    (h : actionAt (t.wires env) sid s = .release ∨ actionAt (t.wires env) sid s = .take) :
    ∃ cause, t.removes = some (sid, cause) := by
  have hacts : actionAt (t.wires env) sid s ≠ .none := by
    rcases h with h | h <;> rw [h] <;> exact nofun
  obtain ⟨f, hw, hf⟩ := eq_some_of_actionAt hacts
  rw [← hf] at h
  unfold wires at hw
  split at hw <;> cases hw
  all_goals first | exact ⟨_, rfl⟩ | (rcases h with h | h <;> cases h)

/-- A teardown goes on with the subscriber it has removed. -/
theorem Task.closes_teardown (td : Teardown) (report : TeardownReport)
    (subscriber : Option ConnGeneration) (dead : Bool) :
    (Task.op (if dead = true then .teardownClose td report subscriber
      else .teardownRevoke td report subscriber)).closes =
        subscriber.map fun x => (td.sid, x, td.code) := by
  cases dead <;> cases subscriber <;> rfl

/-- The task that removes a subscriber for anything but a detach goes on to close it. -/
theorem Task.closes_of_removed (h : Task.step env sh t c = some (sh', t', new)) {sid : Sid}
    {cause : Cause} {x : ConnGeneration} {code : Nat} (hr : t.removes = some (sid, cause))
    (hsub : sh.subscriber? sid = some x) (hlost : sh'.subscriber? sid ≠ some x)
    (hcode : cause.closeCode = some code) : t'.closes = some (sid, x, code) := by
  unfold removes at hr
  split at hr
  · rename_i td
    cases hr
    cases hcode
    obtain ⟨⟨sh₁, op', ops, sids⟩, hop, heq⟩ := Option.map_eq_some_iff.mp h
    cases heq
    obtain ⟨s, hs, heq⟩ := Option.map_eq_some_iff.mp hop
    cases heq
    rw [subscriber?_eq hs] at hsub
    dsimp only
    rw [closes_teardown, show (s.teardownLocked td.cls).2.2.1 = some x from hsub]
    rfl
  · cases hr
    cases hcode
    obtain ⟨⟨sh₁, op', ops, sids⟩, hop, heq⟩ := Option.map_eq_some_iff.mp h
    cases heq
    obtain ⟨s, hs, heq⟩ := Option.map_eq_some_iff.mp hop
    cases heq
    rw [subscriber?_eq hs] at hsub
    rw [show s.renewLocked.2.2 = some x from hsub]
    rfl
  · rename_i a sid₀ now
    cases hr
    cases hcode
    obtain ⟨⟨sh₁, o'⟩, hconn, heq⟩ := Option.map_eq_some_iff.mp h
    cases heq
    obtain ⟨s, hs, heq⟩ := Option.map_eq_some_iff.mp hconn
    cases heq
    rw [subscriber?_modify hs] at hlost
    rw [subscriber?_eq hs] at hsub
    cases hl : s.attachLocked env.policy env.config.scrollbackReplay a.generation a.size a.since now with
    | mk s' r =>
      rw [hl] at hlost
      cases r with
      | error e =>
        have hkeep := s.wire_attachLocked env.policy env.config.scrollbackReplay a.generation a.size
          a.since now
        rw [hl, Session.attachAction, hl] at hkeep
        have hfence : s'.fence = s.fence := congrArg Session.Wire.fence hkeep
        exact absurd ((congrArg Session.Fence.subscriber hfence).trans hsub) hlost
      | ok reg =>
        obtain ⟨hevicted, -⟩ := Session.evicted_attachLocked hl
        dsimp only
        rw [hevicted, hsub]
        rfl
  · rename_i a r
    cases hr
    cases hcode
    obtain ⟨⟨sh₁, o'⟩, hconn, heq⟩ := Option.map_eq_some_iff.mp h
    cases heq
    obtain ⟨⟨sh₂, next⟩, hread, heq⟩ := Option.map_eq_some_iff.mp hconn
    obtain ⟨s, hs, heq'⟩ := Option.map_eq_some_iff.mp hread
    cases heq'
    cases heq
    rw [subscriber?_modify hs] at hlost
    rw [subscriber?_eq hs] at hsub
    unfold Session.onMissedPingLocked at hlost ⊢
    by_cases howner : s.state.ownerConn = r.conn
    · rw [if_neg (not_not.mpr howner)] at hlost ⊢
      dsimp only at hlost ⊢
      by_cases hlimit : s.state.missedPings + 1 < s.missedPingLimit
      · rw [if_pos hlimit] at hlost
        exact absurd hsub hlost
      · rw [if_neg hlimit, if_pos rfl]
        dsimp only
        rw [hsub]
        rfl
    · rw [if_pos howner] at hlost
      exact absurd hsub hlost
  · cases hr
    cases hcode
  · cases hr

/-- A task that has a queue to close goes on having it, or closes it. -/
theorem Task.closes_step (h : Task.step env sh t c = some (sh', t', new)) {sid : Sid}
    {x : ConnGeneration} {code : Nat} (hcloses : t.closes = some (sid, x, code)) :
    t'.closes = some (sid, x, code) ∨ t.wires env = some (sid, fun _ => .close x code) := by
  unfold closes at hcloses
  split at hcloses <;> cases hcloses
  · cases h
    exact .inl rfl
  all_goals exact .inr rfl

/-- The first section of a teardown empties the slot. -/
theorem Op.subscriber?_teardownLock {ch : Choice} {td : Teardown} {op' : Op} {ops : List Op}
    {sids : List Sid} (h : (Op.teardownLock td).step env sh ch = some (sh', op', ops, sids)) :
    sh'.subscriber? td.sid = none := by
  obtain ⟨s, hs, heq⟩ := Option.map_eq_some_iff.mp h
  cases heq
  rw [subscriber?_modify hs]
  rfl

/-- So does the locked section of a renew. -/
theorem Op.subscriber?_renewLock {ch : Choice} {name : SessionName} {sid : Sid} {op' : Op}
    {ops : List Op} {sids : List Sid}
    (h : (Op.renewLock name sid).step env sh ch = some (sh', op', ops, sids)) :
    sh'.subscriber? sid = none := by
  obtain ⟨s, hs, heq⟩ := Option.map_eq_some_iff.mp h
  cases heq
  exact subscriber?_modify (f := fun s => s.renewLocked.1) hs

/-- An operation has a queue to close only if it has removed its connection. -/
theorem Op.closes_new {ch : Choice} {op op' : Op} {ops : List Op} {sids : List Sid}
    (h : op.step env sh ch = some (sh', op', ops, sids)) :
    (∀ o ∈ ops, (Task.op o).closes = none) ∧
    ∀ sid x code, (Task.op op').closes = some (sid, x, code) →
      (Task.op op).closes = some (sid, x, code) ∨
      ∃ cause, (Task.op op).removes = some (sid, cause) ∧ cause.closeCode = some code ∧
        sh.subscriber? sid = some x ∧ sh'.subscriber? sid = none := by
  obtain ⟨hgo, hops⟩ := flow_step h
  refine ⟨fun o ho => ?_, fun sid x code hcloses => ?_⟩
  · obtain ⟨name, old, -, rfl⟩ := hops o ho
    rfl
  cases hgo with
  | markedDead td s hs | deadAlready td s hs =>
    have hempty := subscriber?_teardownLock h
    cases hsub : s.io.subscriber with
    | none =>
      rw [hsub] at hcloses
      cases hcloses
    | some y =>
      rw [hsub] at hcloses
      cases hcloses
      exact .inr ⟨.teardown td.code, rfl, rfl, (subscriber?_eq hs).trans hsub, hempty⟩
  | renewLocked name sid₀ s hs =>
    have hempty := subscriber?_renewLock h
    cases hsub : s.io.subscriber with
    | none =>
      rw [hsub] at hcloses
      cases hcloses
    | some y =>
      rw [hsub] at hcloses
      cases hcloses
      exact .inr ⟨.renewed, rfl, rfl, (subscriber?_eq hs).trans hsub, hempty⟩
  | revoked td report subscriber =>
    left
    cases subscriber <;> exact hcloses
  | _ => cases hcloses

/-- A read loop has a queue to close only if it has removed its connection. -/
theorem Reader.closes_new {e : Arrival} {a : Attach} {r r' : Reader} {pc pc' : ReaderPc}
    (h : r.step sh e pc = some (sh', .inl (r', pc'))) {sid : Sid} {x : ConnGeneration} {code : Nat}
    (hcloses : (Task.conn (.reading a r' pc')).closes = some (sid, x, code)) :
    ∃ cause, (Task.conn (.reading a r pc)).removes = some (sid, cause) ∧
      cause.closeCode = some code ∧ sh.subscriber? sid = some x ∧ sh'.subscriber? sid = none := by
  cases pc
  case missedPing =>
    obtain ⟨s, hs, heq⟩ := Option.map_eq_some_iff.mp h
    cases heq
    unfold Session.onMissedPingLocked at hcloses ⊢
    by_cases howner : s.state.ownerConn = r.conn
    · rw [if_neg (not_not.mpr howner)] at hcloses
      dsimp only at hcloses
      split at hcloses
      · cases hcloses
      · rename_i hlimit
        rw [if_pos rfl] at hcloses
        dsimp only at hcloses
        cases hsub : s.io.subscriber with
        | none =>
          rw [hsub] at hcloses
          cases hcloses
        | some y =>
          rw [hsub] at hcloses
          cases hcloses
          refine ⟨.missedPings, rfl, rfl, (subscriber?_eq hs).trans hsub, ?_⟩
          rw [subscriber?_modify hs, if_neg (not_not.mpr howner)]
          dsimp only
          rw [if_neg hlimit]
          rfl
    · rw [if_pos howner, if_pos rfl] at hcloses
      cases hcloses
  case missedClose subscriber => cases subscriber <;> cases h
  all_goals
    obtain ⟨y, rfl⟩ : ∃ y, pc' = .missedClose (some y) := by
      cases pc' with
      | missedClose subscriber =>
        cases subscriber with
        | none => cases hcloses
        | some y => exact ⟨y, rfl⟩
      | _ => cases hcloses
    grind [step]

/-- A connection has a queue to close in two places. -/
theorem Conn.closes_cases {o : Conn} {p : Sid × ConnGeneration × Nat}
    (h : (Task.conn o).closes = some p) :
    (∃ a sid reg previous, o = .closePrevious a sid reg previous) ∨
      ∃ a r x, o = .reading a r (.missedClose (some x)) := by
  cases o with
  | closePrevious a sid reg previous => exact .inl ⟨a, sid, reg, previous, rfl⟩
  | reading a r pc =>
    cases pc with
    | missedClose subscriber =>
      cases subscriber with
      | none => cases h
      | some x => exact .inr ⟨a, r, x, rfl⟩
    | _ => cases h
  | _ => cases h

/-- A connection has a queue to close only if it has removed its connection. -/
theorem Conn.closes_new {e : Arrival} {o o' : Conn} (h : o.step env sh e = some (sh', o'))
    (hI : sh.FencesValid) {sid : Sid} {x : ConnGeneration} {code : Nat}
    (hcloses : (Task.conn o').closes = some (sid, x, code)) :
    ∃ cause, (Task.conn o).removes = some (sid, cause) ∧ cause.closeCode = some code ∧
      sh.subscriber? sid = some x ∧ sh'.subscriber? sid ≠ some x := by
  cases o
  case lock a sid₀ now =>
    obtain ⟨s, hs, heq⟩ := Option.map_eq_some_iff.mp h
    cases heq
    cases hl : s.attachLocked env.policy env.config.scrollbackReplay a.generation a.size a.since now with
    | mk s' result =>
      rw [hl] at hcloses
      cases result with
      | error error => cases hcloses
      | ok reg =>
        obtain ⟨hevicted, hsub⟩ := Session.evicted_attachLocked hl
        cases hprevious : reg.evicted with
        | none =>
          dsimp only at hcloses
          rw [hprevious] at hcloses
          cases hcloses
        | some previous =>
          dsimp only at hcloses
          rw [hprevious] at hcloses
          cases hcloses
          rw [hprevious] at hevicted
          have hvalid := hI _ s.fence (fence?_eq hs)
          refine ⟨.takeover, rfl, rfl, (subscriber?_eq hs).trans hevicted.symm, ?_⟩
          rw [subscriber?_modify hs, hl]
          show s'.io.subscriber ≠ some x
          rw [hsub]
          rcases s.attachLocked_cases now env.policy a.size env.config.scrollbackReplay a.generation
            a.since with ⟨s₁, error, heq, -⟩ | ⟨s₁, reg₁, heq, -, -, -, hconn⟩
          · rw [hl] at heq
            cases heq
          · rw [hl] at heq
            cases heq
            rw [hconn]
            intro hsame
            have hlost := hvalid.next
            have howner : s.fence.subscriber = some x := hevicted.symm
            rw [hvalid.subscriber] at howner
            split at howner
            · cases howner
            · cases Option.some.inj hsame
              rw [Option.some.inj howner] at hlost
              exact Nat.lt_irrefl _ hlost
  case reading a r pc =>
    obtain ⟨⟨sh₁, next⟩, hr, heq⟩ := Option.map_eq_some_iff.mp h
    cases next with
    | inl rp =>
      obtain ⟨r', pc'⟩ := rp
      cases heq
      obtain ⟨cause, hremoves, hcode, hsub, hnone⟩ := Reader.closes_new hr hcloses
      exact ⟨cause, hremoves, hcode, hsub, by rw [hnone]; exact nofun⟩
    | inr exit =>
      cases heq
      cases hcloses
  case notice a sid₀ reg =>
    cases h
    unfold afterNotice at hcloses
    repeat' split at hcloses
    all_goals cases hcloses
  case exiting a sid₀ conn exit => cases exit <;> cases h <;> cases hcloses
  all_goals
    rcases closes_cases hcloses with ⟨a, sid, reg, previous, rfl⟩ | ⟨a, r, x, rfl⟩ <;> grind [step]

theorem Task.closes_new (h : Task.step env sh t c = some (sh', t', new)) (hI : sh.FencesValid) :
    (∀ u ∈ new, u.closes = none) ∧
    ∀ sid x code, t'.closes = some (sid, x, code) → t.closes = some (sid, x, code) ∨
      ∃ cause, t.removes = some (sid, cause) ∧ cause.closeCode = some code ∧
        sh.subscriber? sid = some x ∧ sh'.subscriber? sid ≠ some x := by
  rcases step_cases h with ⟨op, op', ops, sids, rfl, hop, rfl, rfl⟩ | ⟨o, o', rfl, hconn, rfl, rfl⟩ |
    ⟨pump, rfl, hpump, rfl⟩
  · obtain ⟨hnew, hcloses⟩ := Op.closes_new hop
    refine ⟨fun u hu => ?_, fun sid x code hx => ?_⟩
    · rcases List.mem_append.mp hu with hu | hu
      · obtain ⟨o, ho, rfl⟩ := List.mem_map.mp hu
        exact hnew o ho
      · obtain ⟨sid, -, rfl⟩ := List.mem_map.mp hu
        rfl
    · rcases hcloses sid x code hx with hold | ⟨cause, hremoves, hcode, hsub, hnone⟩
      · exact .inl hold
      · exact .inr ⟨cause, hremoves, hcode, hsub, by rw [hnone]; exact nofun⟩
  · exact ⟨fun u hu => absurd hu List.not_mem_nil,
      fun sid x code hx => .inr (Conn.closes_new hconn hI hx)⟩
  · refine ⟨fun u hu => absurd hu List.not_mem_nil, fun sid x code hx => ?_⟩
    rcases Pump.step_task hpump with ⟨pump', rfl⟩ | ⟨sid', rfl⟩ <;> cases hx

theorem Task.closes_entry (h : t.entry = true) : t.closes = none := by
  cases t with
  | op o => cases o <;> first | rfl | cases h
  | conn o => cases o <;> first | rfl | cases h
  | pump o => rfl

/-- A connection that had the slot of its session and has it no more. -/
def Shared.Past (sh : Shared) (sid : Sid) (x : ConnGeneration) : Prop :=
  ∃ s : Session, sh.heap[sid]? = some s ∧ s.io.subscriber ≠ some x ∧ x.val < s.state.nextConn

theorem Shared.Past.not_subscriber {sid : Sid} {x : ConnGeneration} (h : sh.Past sid x) :
    sh.subscriber? sid ≠ some x := by
  obtain ⟨s, hs, hne, -⟩ := h
  rw [subscriber?_eq hs]
  exact hne

/-- A connection never gets the slot back. -/
theorem Shared.Past.step {sid : Sid} {x : ConnGeneration} (h : sh.Past sid x)
    (hstep : Task.step env sh t c = some (sh', t', new)) : sh'.Past sid x := by
  obtain ⟨s, hs, hsub, hlt⟩ := h
  obtain ⟨s', hs', hwire⟩ := Option.map_eq_some_iff.mp ((Task.wire_step hstep).old sid s hs)
  refine ⟨s', hs', fun hsub' => ?_, ?_⟩
  · have hact : (s.wire.act (actionAt (t.wires env) sid s)).fence.subscriber = some x :=
      hwire ▸ hsub'
    rw [Session.Wire.subscriber_act] at hact
    split at hact
    · cases hact
    · have hnext : s.state.nextConn = x.val :=
        congrArg ConnGeneration.val (Option.some.inj hact)
      exact absurd hlt (by omega)
    · exact hsub hact
  · refine Nat.lt_of_lt_of_le hlt ?_
    show s.wire.fence.nextConn ≤ s'.wire.fence.nextConn
    rw [hwire]
    exact s.wire.nextConn_act _

/-- What a step removes from the slot is past. -/
theorem Shared.Past.of_lost {sid : Sid} {x : ConnGeneration} (hI : sh.FencesValid)
    (hstep : Task.step env sh t c = some (sh', t', new)) (hsub : sh.subscriber? sid = some x)
    (hlost : sh'.subscriber? sid ≠ some x) : sh'.Past sid x := by
  obtain ⟨s, hs, hsub⟩ := Option.bind_eq_some_iff.mp hsub
  obtain ⟨s', hs', hwire⟩ := Option.map_eq_some_iff.mp ((Task.wire_step hstep).old sid s hs)
  rw [subscriber?_eq hs'] at hlost
  refine ⟨s', hs', hlost, ?_⟩
  have hvalid := hI sid s.fence (fence?_eq hs)
  have hfence : s.fence.subscriber = some x := hsub
  have hlt : x.val < s.wire.fence.nextConn := by
    rw [hvalid.subscriber] at hfence
    split at hfence
    · cases hfence
    · rw [← Option.some.inj hfence]
      exact hvalid.next
  refine Nat.lt_of_lt_of_le hlt ?_
  show s.wire.fence.nextConn ≤ s'.wire.fence.nextConn
  rw [hwire]
  exact s.wire.nextConn_act _

/-- A detach removes its own connection. -/
theorem Task.detaches_own {sid : Sid} {s : Session} {x y : ConnGeneration}
    (hr : t.removes = some (sid, .detached x)) (hvalid : s.fence.Valid)
    (hsub : s.io.subscriber = some y)
    (ha : actionAt (t.wires env) sid s = .release ∨ actionAt (t.wires env) sid s = .take) :
    x = y := by
  have howner : s.state.ownerConn = y := by
    have hsub : s.fence.subscriber = some y := hsub
    rw [hvalid.subscriber] at hsub
    split at hsub
    · cases hsub
    · exact Option.some.inj hsub
  unfold removes at hr
  split at hr <;> cases hr
  rename_i a exit
  have hdetach : ∀ exit, exit = ReadExit.detached ∨ exit = ReadExit.socketGone →
      actionAt ((Task.conn (.exiting a sid x exit)).wires env) sid s = s.detachAction x := by
    rintro exit (rfl | rfl) <;> exact actionAt_self _ _ _
  have hnone : ∀ exit, exit = ReadExit.backpressure ∨ exit = ReadExit.frameAbuse →
      actionAt ((Task.conn (.exiting a sid x exit)).wires env) sid s = .none := by
    rintro exit (rfl | rfl) <;> rfl
  have hown : s.detachAction x = .release ∨ s.detachAction x = .take → x = y := by
    unfold Session.detachAction
    intro h
    split at h
    · rename_i hx
      exact hx.symm.trans howner
    · rcases h with h | h <;> cases h
  cases exit
  · exact hown (hdetach _ (.inl rfl) ▸ ha)
  · exact hown (hdetach _ (.inr rfl) ▸ ha)
  · rw [hnone _ (.inl rfl)] at ha
    rcases ha with ha | ha <;> cases ha
  · rw [hnone _ (.inr rfl)] at ha
    rcases ha with ha | ha <;> cases ha

end Step

/-! ## Runs -/

variable {env : Env} {w w' : Logged} {l : World.Label}

theorem World.mem_losses {w w' : World} {loss : Loss} : loss ∈ w.losses l w' ↔
    ∃ t, w.acting l = some t ∧ t.removes = some (loss.sid, loss.cause) ∧
      w.shared.subscriber? loss.sid = some loss.conn ∧
      w'.shared.subscriber? loss.sid ≠ some loss.conn ∧
      loss.asked = w.tasks.any (Task.asks loss.sid loss.conn) := by
  unfold losses
  constructor
  · intro h
    split at h
    · cases h
    · rename_i sid cause hr
      obtain ⟨t, ht, hr⟩ := Option.bind_eq_some_iff.mp hr
      split at h
      · cases h
      · rename_i x hx
        split at h
        · cases h
        · obtain rfl := List.mem_singleton.mp h
          exact ⟨t, ht, hr, hx, ‹_›, rfl⟩
  · rintro ⟨t, ht, hr, hsub, hlost, hasked⟩
    obtain ⟨sid, conn, cause, asked⟩ := loss
    rw [ht, Option.bind_some, hr]
    dsimp only at hsub hlost hasked ⊢
    rw [hsub]
    dsimp only
    rw [if_neg hlost, hasked]
    exact List.mem_singleton_self _

/-- An account stays when the record grows, the queue stays closed, and who has it to close
still has or does. -/
theorem Logged.Accounts.mono {sid : Sid} {o o' : Outbound} (h : w.Accounts sid o)
    (hlog : ∀ loss ∈ w.log, loss ∈ w'.log) (hconn : o'.conn = o.conn)
    (hclosed : o.closeCode ≠ none → o'.closeCode ≠ none)
    (htasks : ∀ t ∈ w.state.tasks, ∀ code, t.closes = some (sid, o.conn, code) →
      o'.closeCode ≠ none ∨ ∃ u ∈ w'.state.tasks, u.closes = some (sid, o.conn, code)) :
    w'.Accounts sid o' := by
  obtain ⟨loss, hloss, hsid, hlc, hmatch⟩ := h
  refine ⟨loss, hlog loss hloss, hsid, hlc.trans hconn.symm, ?_⟩
  rw [hconn]
  split at hmatch
  · exact hmatch
  · rcases hmatch with hc | ⟨t, ht, htc⟩
    · exact .inl (hclosed hc)
    · exact htasks t ht _ htc

/-- The invariant of the attach protocol. -/
structure Logged.Sound (w : Logged) : Prop where
  base : w.state.Base
  wires : w.state.shared.WiresValid
  accounts : ∀ (sid : Sid) (s : Session), w.state.shared.heap[sid]? = some s →
    ∀ o ∈ s.outbounds, s.io.subscriber ≠ some o.conn → w.Accounts sid o

theorem Logged.Sound.singleAttach (h : w.Sound) : w.SingleAttach := by
  intro sid s hs
  have hvalid := h.wires sid s hs
  have hsub : s.io.subscriber = if s.state.ownerConn = ⟨0⟩ then none else some s.state.ownerConn :=
    hvalid.fence.subscriber
  refine ⟨⟨hvalid.fence.mirror, (h.base.shared.alive_eq hs).symm, hvalid.fence.next, ?_,
    fun c hc => ?_⟩, h.accounts sid s hs⟩
  · rw [hsub]
    split
    · exact iff_of_true rfl ‹_›
    · exact iff_of_false nofun ‹_›
  · rw [hsub] at hc
    split at hc
    · cases hc
    · rename_i hne
      obtain rfl := Option.some.inj hc
      have hpos : 0 < s.state.ownerConn.val := by
        refine Nat.pos_of_ne_zero fun h0 => hne ?_
        cases hx : s.state.ownerConn
        rw [hx] at h0
        exact congrArg ConnGeneration.mk h0
      obtain ⟨o, ho, hconn⟩ := hvalid.exists_of_lt hpos hvalid.fence.next
      exact ⟨rfl, o, ho, hconn, fun o' ho' hc' => hvalid.eq_of_conn ho' ho (hc'.trans hconn.symm)⟩

theorem Logged.sound_init : Logged.init.Sound := by
  refine ⟨World.base_init, ?_, ?_⟩
  · intro sid s hs
    cases hs
  · intro sid s hs
    cases hs

/-- A connection that has just lost the slot detached by itself, or is about to be closed. -/
theorem Logged.Sound.accounts_lost (h : w.Sound) {i : Nat} {c : Input} {t t' : Task}
    {sh' : Shared} {new : List Task} (ht : w.state.tasks[i]? = some t)
    (hstep : Task.step env w.state.shared t c = some (sh', t', new)) {log : List Loss}
    (hlog : log = w.state.losses (.step i c)
      { shared := sh', tasks := w.state.tasks.set i t' ++ new } ++ w.log)
    {sid : Sid} {s s' : Session} (hs : w.state.shared.heap[sid]? = some s)
    (hs' : sh'.heap[sid]? = some s')
    (hwire : s'.wire = s.wire.act (Shared.actionAt (t.wires env) sid s)) {o' : Outbound}
    (hsub : s.io.subscriber = some o'.conn) (hlost : s'.io.subscriber ≠ some o'.conn) :
    Logged.Accounts { state := { shared := sh', tasks := w.state.tasks.set i t' ++ new },
                      log := log } sid o' := by
  have hmoved := Session.Wire.moved_of_subscriber hwire hsub hlost
  obtain ⟨cause, hremoves⟩ := Task.removes_of_action hmoved
  have hbefore : w.state.shared.subscriber? sid = some o'.conn :=
    (Shared.subscriber?_eq hs).trans hsub
  have hafter : sh'.subscriber? sid ≠ some o'.conn := by
    rw [Shared.subscriber?_eq hs']
    exact hlost
  refine ⟨{ sid := sid, conn := o'.conn, cause := cause,
            asked := w.state.tasks.any (Task.asks sid o'.conn) }, ?_, rfl, rfl, ?_⟩
  · rw [hlog]
    exact List.mem_append_left _ (World.mem_losses.mpr ⟨t, ht, hremoves, hbefore, hafter, rfl⟩)
  · dsimp only
    split
    · rename_i hcode
      cases cause <;> cases hcode
      rw [Task.detaches_own hremoves (h.wires sid s hs).fence hsub hmoved]
    · rename_i code hcode
      exact .inr ⟨t', List.mem_append_left _ (List.mem_set (List.getElem?_eq_some_iff.mp ht).1 t'),
        Task.closes_of_removed hstep hremoves hbefore hafter hcode⟩

/-- One step of a task keeps every account. -/
theorem Logged.Sound.accounts_step (h : w.Sound) {i : Nat} {c : Input} {t t' : Task}
    {sh' : Shared} {new : List Task} (ht : w.state.tasks[i]? = some t)
    (hstep : Task.step env w.state.shared t c = some (sh', t', new)) {log : List Loss}
    (hlog : log = w.state.losses (.step i c)
      { shared := sh', tasks := w.state.tasks.set i t' ++ new } ++ w.log)
    {sid : Sid} {s' : Session} (hs' : sh'.heap[sid]? = some s') {o' : Outbound}
    (ho' : o' ∈ s'.outbounds) (hlost : s'.io.subscriber ≠ some o'.conn) :
    Logged.Accounts { state := { shared := sh', tasks := w.state.tasks.set i t' ++ new },
                      log := log } sid o' := by
  rcases (Task.wire_step hstep).heap hs' with ⟨s, hs, hwire⟩ | ⟨-, hwire⟩
  swap
  · have hnil : s'.outbounds = [] := congrArg Session.Wire.outbounds hwire
    rw [hnil] at ho'
    cases ho'
  have hlosing (hsub : s.io.subscriber = some o'.conn) :=
    h.accounts_lost ht hstep hlog hs hs' hwire hsub hlost
  generalize ha : Shared.actionAt (t.wires env) sid s = a at hwire
  have ho'' : o' ∈ (s.wire.act a).outbounds := hwire ▸ ho'
  rcases Session.Wire.mem_outbounds_act ho'' with ⟨o, ho, rfl⟩ | ⟨rfl, rfl⟩
  swap
  · exact absurd (congrArg (fun w : Session.Wire => w.fence.subscriber) hwire) hlost
  by_cases hsub : s.io.subscriber = some o.conn
  · exact hlosing (by rw [Session.Wire.queue_conn]; exact hsub)
  · -- It had lost the slot before.
    refine (h.accounts sid s hs o ho hsub).mono (fun loss hl => ?_) (Session.Wire.queue_conn a o)
      (Session.Wire.queue_closed a) fun u hu code hcode => ?_
    · rw [hlog]
      exact List.mem_append_right _ hl
    · by_cases hut : u = t
      · subst hut
        rcases Task.closes_step hstep hcode with hkeep | hclose
        · exact .inr ⟨t', List.mem_append_left _
            (List.mem_set (List.getElem?_eq_some_iff.mp ht).1 t'), hkeep⟩
        · rw [hclose, Shared.actionAt_self] at ha
          subst ha
          left
          rw [Session.Wire.queue, if_pos rfl, Outbound.closeCode_close]
          cases o.closeCode <;> exact nofun
      · exact .inr ⟨u, Threads.mem_step_of_ne ht hu hut, hcode⟩

theorem Logged.sound_next (h : w.Sound) (hs : w.next env l = some w') : w'.Sound := by
  obtain ⟨hnext, hlog⟩ := Trace.noted_eq_some hs
  have hbase := World.base_next h.base hnext
  obtain ⟨⟨shared, tasks⟩, log⟩ := w'
  dsimp only at hnext hlog hbase ⊢
  cases l with
  | call t =>
    obtain ⟨-, heq⟩ := Threads.next_call hnext
    cases heq
    refine ⟨hbase, h.wires, fun sid s hs o ho hsub => ?_⟩
    refine (h.accounts sid s hs o ho hsub).mono (fun loss hl => ?_) rfl id
      fun u hu code hcode => .inr ⟨u, List.mem_append_left _ hu, hcode⟩
    rw [hlog]
    exact List.mem_append_right _ hl
  | step i c =>
    obtain ⟨t, s', t', new, ht, hstep, heq⟩ := Threads.next_step hnext
    cases heq
    exact ⟨hbase, h.wires.step (Task.wire_step hstep),
      fun sid s hs o ho hsub => h.accounts_step ht hstep hlog hs ho hsub⟩
  | env d =>
    cases Threads.next_env hnext
    refine ⟨hbase, h.wires, fun sid s hs o ho hsub => ?_⟩
    refine (h.accounts sid s hs o ho hsub).mono (fun loss hl => ?_) rfl id
      fun u hu code hcode => .inr ⟨u, hu, hcode⟩
    rw [hlog]
    exact List.mem_append_right _ hl

/-- Along every run, every session has one connection at most, and every other one it had is
accounted for. -/
theorem singleAttach_run (env : Env) (run : List World.Label) :
    Trace.AllStates (Logged.next env) Logged.SingleAttach Logged.init run :=
  (Trace.AllStates.of_next (fun _ _ _ h hs => Logged.sound_next h hs) Logged.sound_init).imp
    fun _ h => h.singleAttach

end OpenabPty
