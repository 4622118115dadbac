import OpenabPty.Dates
import OpenabPty.SingleAttach

/-!
# The detached-idle TTL

A tick expires a session that nobody owns when its last activity is old enough. A detach is no
activity, so the clock may have run while the session was attached; and the session is torn down
after the lock of the decision is released, so an attach may come in between.
-/

namespace OpenabPty

/-- Nobody owns the session. -/
def Shared.vacant (sh : Shared) (sid : Sid) : Bool :=
  sh.heap[sid]?.any (·.state.ownerConn = ⟨0⟩)

/-- The runtime with a record, for each session, of since when nobody has owned it. -/
abbrev Vacancies := Trace.Noted World (Sid → Option Instant)

def Vacancies.init : Vacancies := { state := World.init, log := fun _ => none }

def Vacancies.next (env : Env) : Vacancies → World.Label → Option Vacancies :=
  Trace.noted (World.next env) fun w _ w' since sid =>
    if w'.shared.vacant sid then
      if w.shared.vacant sid then since sid else some w'.shared.now
    else none

/-- The session an idle tick has decided to tear down. -/
def Op.idles : Op → Option Sid
  | .teardownLock td =>
    match td.caller with
    | .tick _ false => some td.sid
    | _ => none
  | _ => none

def Task.idles : Task → Option Sid := Task.onOp Op.idles

/-- When a tick tears a live session down because it is idle, nobody has owned the session for
the detached-idle TTL. -/
def Vacancies.SparesAttached (policy : SessionPolicy) (w : Vacancies) (l : World.Label) : Prop :=
  ∀ t sid s, w.state.acting l = some t → t.idles = some sid →
    w.state.shared.heap[sid]? = some s → s.state.alive = true → s.state.ownerConn = ⟨0⟩ ∧
      ∃ since, w.log sid = some since ∧ since + policy.detachedIdleTtl ≤ w.state.shared.now

/-- The idle deadline of a session has passed, and the absolute one has not. -/
def Session.idleDue (s : Session) (policy : SessionPolicy) (now : Instant) : Bool :=
  s.state.alive && s.state.ownerConn = ⟨0⟩ && now < s.state.createdAt + policy.absoluteTtl &&
    s.lastActivity + policy.detachedIdleTtl ≤ now

/-- If a section gives a live session up, the session was last active no earlier than now. -/
def Shared.GivenUpActive (sh : Shared) (sid : Sid) (a : Session → WireAction) : Prop :=
  ∀ s ∈ sh.heap[sid]?, s.state.alive = true → s.state.ownerConn ≠ ⟨0⟩ → a s = .release →
    sh.now ≤ s.lastActivity

instance (sh : Shared) (sid : Sid) (a : Session → WireAction) :
    Decidable (sh.GivenUpActive sid a) := by
  unfold Shared.GivenUpActive
  infer_instance

/-- A live session is left without an owner (by its spawn, a renew, the last missed ping or a
detach) only when its activity clock, which counts whole milliseconds, shows the present; and no
attach takes a live session that a tick is about to tear down as idle. -/
def Vacancies.Patient (env : Env) (w : Vacancies) (l : World.Label) : Prop :=
  match w.state.acting l with
  | some (.op (.spawn _)) =>
    w.state.shared.now ≤ Duration.fromMillis (Duration.asMillis w.state.shared.now)
  | some (.op (.renewLock _ sid)) => w.state.shared.GivenUpActive sid fun _ => .release
  | some (.conn (.reading _ r .missedPing)) =>
    w.state.shared.GivenUpActive r.sid (·.missedPingAction r.conn)
  | some (.conn (.exiting _ sid conn .detached)) | some (.conn (.exiting _ sid conn .socketGone)) =>
    w.state.shared.GivenUpActive sid (·.detachAction conn)
  | some (.conn (.lock a sid now)) =>
    ∀ s ∈ w.state.shared.heap[sid]?, s.state.alive = true →
      s.attachAction env.policy env.config.scrollbackReplay a.generation a.size a.since now =
        .take →
      w.state.tasks.any (·.idles = some sid) = false
  | _ => True

instance (env : Env) (w : Vacancies) (l : World.Label) : Decidable (w.Patient env l) := by
  unfold Vacancies.Patient
  split <;> infer_instance

/-! ## What one step does to an idle teardown -/

theorem Session.idleDue_of_tickLocked {s : Session} {policy : SessionPolicy} {now : Instant}
    (h : (s.tickLocked policy now).2 = some (.expire false)) : s.idleDue policy now = true := by
  unfold tickLocked at h
  split at h
  · cases h
  · rename_i halive
    dsimp only at h
    split at h
    · cases h
    · rename_i habsolute
      by_cases howner : s.state.ownerConn = ⟨0⟩
      · rw [if_pos howner, Option.any_some] at h
        split at h
        · rename_i hidle
          simp only [idleDue, Bool.and_eq_true, decide_eq_true_eq]
          exact ⟨⟨⟨by simpa using halive, howner⟩, Nat.lt_of_not_le habsolute⟩,
            of_decide_eq_true hidle⟩
        · split_ifs at h <;> cases h
      · rw [if_neg howner, Option.any_none, if_neg nofun] at h
        split_ifs at h <;> cases h

section Step

open Shared

variable {env : Env} {sh sh' : Shared} {t t' : Task} {c : Input} {new : List Task}

theorem Op.idles_step {ch : Choice} {op op' : Op} {ops : List Op} {sids : List Sid}
    (h : op.step env sh ch = some (sh', op', ops, sids)) :
    (∀ o ∈ ops, o.idles = none) ∧ ∀ sid, op'.idles = some sid →
      ∃ now rest actions, op = .tickNext { now := now, rest := sid :: rest, actions := actions } ∧
        ∃ s, sh.heap[sid]? = some s ∧ s.idleDue env.policy now = true := by
  obtain ⟨hgo, hops⟩ := flow_step h
  clear h
  refine ⟨fun o ho => ?_, fun sid hidles => ?_⟩
  · obtain ⟨name, old, -, rfl⟩ := hops o ho
    rfl
  cases hgo with
  | tickExpired now sid rest actions s absolute hs hlock =>
    cases absolute with
    | true => cases hidles
    | false =>
      cases hidles
      exact ⟨now, rest, actions, rfl, s, hs, Session.idleDue_of_tickLocked hlock⟩
  | _ => cases hidles

theorem Task.idles_step (h : Task.step env sh t c = some (sh', t', new)) :
    (∀ u ∈ new, u.idles = none) ∧ ∀ sid, t'.idles = some sid →
      ∃ now rest actions, t = .op (.tickNext { now := now, rest := sid :: rest, actions := actions }) ∧
        ∃ s, sh.heap[sid]? = some s ∧ s.idleDue env.policy now = true := by
  refine onOp_step h (fun _ => rfl) fun op op' ops sids ht hop => ?_
  obtain ⟨hnew, hidles⟩ := Op.idles_step hop
  refine ⟨hnew, fun sid hsid => ?_⟩
  obtain ⟨now, rest, actions, rfl, hdue⟩ := hidles sid hsid
  exact ⟨now, rest, actions, ht, hdue⟩

/-- Only the locked section of an attach takes a session. -/
theorem Task.take_cases {sid : Sid} {s : Session} (h : actionAt (t.wires env) sid s = .take) :
    ∃ a now, t = .conn (.lock a sid now) ∧
      s.attachAction env.policy env.config.scrollbackReplay a.generation a.size a.since now =
        .take := by
  have hacts : actionAt (t.wires env) sid s ≠ .none := by
    rw [h]
    exact nofun
  obtain ⟨f, hw, hf⟩ := eq_some_of_actionAt hacts
  rw [h] at hf
  unfold wires at hw
  split at hw <;> cases hw
  case h_7 a now => exact ⟨a, now, rfl, hf⟩
  case h_12 a r =>
    rcases s.missedPingAction_cases r.conn with hnone | hrelease
    · exact absurd (hnone.symm.trans hf) nofun
    · exact absurd (hrelease.symm.trans hf) nofun
  case h_14 x | h_15 x =>
    rcases s.detachAction_cases x with hnone | hrelease
    · exact absurd (hnone.symm.trans hf) nofun
    · exact absurd (hrelease.symm.trans hf) nofun
  all_goals cases hf

/-- The sections that hand a session back. -/
theorem Task.release_cases {sid : Sid} {s : Session}
    (h : actionAt (t.wires env) sid s = .release) :
    (∃ td, t = .op (.teardownLock td) ∧ td.sid = sid) ∨
    (∃ name, t = .op (.renewLock name sid)) ∨
    (∃ a r, t = .conn (.reading a r .missedPing) ∧ r.sid = sid ∧
      s.missedPingAction r.conn = .release) ∨
    ∃ a conn exit, t = .conn (.exiting a sid conn exit) ∧
      (exit = .detached ∨ exit = .socketGone) ∧ s.detachAction conn = .release := by
  have hacts : actionAt (t.wires env) sid s ≠ .none := by
    rw [h]
    exact nofun
  obtain ⟨f, hw, hf⟩ := eq_some_of_actionAt hacts
  rw [h] at hf
  unfold wires at hw
  split at hw <;> cases hw
  case h_1 td => exact .inl ⟨td, rfl, rfl⟩
  case h_3 name => exact .inr (.inl ⟨name, rfl⟩)
  case h_7 a now =>
    rcases s.attachAction_cases env.policy env.config.scrollbackReplay a.generation a.size a.since
      now with hnone | htake
    · exact absurd (hnone.symm.trans hf) nofun
    · exact absurd (htake.symm.trans hf) nofun
  case h_12 a r => exact .inr (.inr (.inl ⟨a, r, rfl, rfl, hf⟩))
  case h_14 a conn => exact .inr (.inr (.inr ⟨a, conn, _, rfl, .inl rfl, hf⟩))
  case h_15 a conn => exact .inr (.inr (.inr ⟨a, conn, _, rfl, .inr rfl, hf⟩))
  all_goals cases hf

/-- The first section of a teardown leaves the session dead. -/
theorem Task.dead_of_teardownLock {td : Teardown} {s' : Session}
    (h : Task.step env sh (.op (.teardownLock td)) c = some (sh', t', new))
    (hs' : sh'.heap[td.sid]? = some s') : s'.state.alive = false := by
  obtain ⟨⟨sh₁, op', ops, sids⟩, hop, heq⟩ := Option.map_eq_some_iff.mp h
  cases heq
  obtain ⟨s, hs, heq⟩ := Option.map_eq_some_iff.mp hop
  cases heq
  rw [heap_modify, if_pos rfl, hs] at hs'
  obtain rfl := Option.some.inj hs'
  rfl

theorem Shared.vacant_eq_true {sid : Sid} :
    sh.vacant sid = true ↔ ∃ s, sh.heap[sid]? = some s ∧ s.state.ownerConn = ⟨0⟩ := by
  rw [vacant, Option.any_eq_true]
  exact exists_congr fun s => and_congr_right fun _ => decide_eq_true_iff

/-- A session stays vacant until an attach takes it. -/
theorem Shared.vacant_step {sid : Sid} (h : Task.step env sh t c = some (sh', t', new))
    (hvacant : sh.vacant sid = true)
    (htake : ∀ s, sh.heap[sid]? = some s → actionAt (t.wires env) sid s ≠ .take) :
    sh'.vacant sid = true := by
  obtain ⟨s, hs, howner⟩ := vacant_eq_true.mp hvacant
  obtain ⟨s', hs', hwire⟩ := Option.map_eq_some_iff.mp ((Task.wire_step h).old sid s hs)
  refine vacant_eq_true.mpr ⟨s', hs', ?_⟩
  show s'.wire.fence.ownerConn = ⟨0⟩
  rw [hwire, Session.Wire.ownerConn_act]
  split
  · rfl
  · exact absurd ‹_› (htake s hs)
  · exact howner

/-- A teardown works on a session that was allocated. -/
theorem Task.lt_of_idles {sid : Sid} (hA : sh.Sound t) (h : t.idles = some sid) :
    sid < sh.heap.length := by
  cases t with
  | op o =>
    cases o with
    | teardownLock td =>
      have hname := (hA.named (td.name, td.sid) (List.mem_singleton_self _)).2
      have hsid : td.sid = sid := by
        unfold idles onOp Op.idles at h
        dsimp only at h
        split at h <;> cases h
        rfl
      exact hsid ▸ lt_of_name? hname
    | _ => cases h
  | _ => cases h

end Step

/-! ## Runs -/

variable {env : Env} {w w' : Vacancies} {l : World.Label}

/-- The invariant of the idle teardowns: nobody has owned a live session since its last activity,
and a teardown that is pending is due. -/
structure Vacancies.Idle (policy : SessionPolicy) (w : Vacancies) : Prop where
  base : w.state.Base
  dated : w.state.Dated
  wires : w.state.shared.WiresValid
  noted : ∀ sid, (w.log sid).isSome = w.state.shared.vacant sid
  active : ∀ sid since s, w.log sid = some since → w.state.shared.heap[sid]? = some s →
    s.state.alive = true → since ≤ s.lastActivity
  pending : ∀ t ∈ w.state.tasks, ∀ sid, t.idles = some sid →
    w.state.shared.isAlive sid = true →
      ∃ since, w.log sid = some since ∧ since + policy.detachedIdleTtl ≤ w.state.shared.now

theorem Vacancies.idle_init (policy : SessionPolicy) : Vacancies.init.Idle policy where
  base := World.base_init
  dated := World.dated_init
  wires _ _ hs := nomatch hs
  noted _ := rfl
  active _ _ _ h := nomatch h
  pending _ h := absurd h List.not_mem_nil

theorem Vacancies.log_next (h : w.next env l = some w') (sid : Sid) : w'.log sid =
    if w'.state.shared.vacant sid then
      if w.state.shared.vacant sid then w.log sid else some w'.state.shared.now
    else none :=
  congrFun (Trace.noted_eq_some h).2 sid

/-- The record says of every session whether somebody owns it. -/
theorem Vacancies.noted_next (hnoted : ∀ sid, (w.log sid).isSome = w.state.shared.vacant sid)
    (h : w.next env l = some w') (sid : Sid) :
    (w'.log sid).isSome = w'.state.shared.vacant sid := by
  rw [log_next h]
  cases hafter : w'.state.shared.vacant sid with
  | false => rfl
  | true =>
    cases hbefore : w.state.shared.vacant sid with
    | false => rfl
    | true => exact (hnoted sid).trans hbefore

theorem Vacancies.Idle.vacant {policy : SessionPolicy} (hI : w.Idle policy) {sid : Sid} {since : Instant}
    (hlog : w.log sid = some since) : w.state.shared.vacant sid = true := by
  rw [← hI.noted, hlog]
  rfl

/-- The record changes with the heap only. -/
theorem Vacancies.Idle.log_same (hI : w.Idle env.policy) (h : w.next env l = some w')
    (hheap : w'.state.shared.heap = w.state.shared.heap) (sid : Sid) : w'.log sid = w.log sid := by
  have hnoted := hI.noted sid
  have hvacant : w'.state.shared.vacant sid = w.state.shared.vacant sid := by
    rw [Shared.vacant, Shared.vacant, hheap]
  rw [log_next h, hvacant]
  cases hbefore : w.state.shared.vacant sid with
  | true => rfl
  | false =>
    rw [hbefore, Option.isSome_eq_false_iff, Option.isNone_iff_eq_none] at hnoted
    exact hnoted.symm

/-- A step that leaves a session vacant leaves the record of since when it is. -/
theorem Vacancies.Idle.log_keep (hI : w.Idle env.policy) (h : w.next env l = some w') {sid : Sid}
    {since : Instant} (hlog : w.log sid = some since) (hvacant : w'.state.shared.vacant sid = true) :
    w'.log sid = some since := by
  rw [log_next h, if_pos hvacant, if_pos (hI.vacant hlog), hlog]

section Step

variable {i : Nat} {c : Input} {t t' : Task} {sh' : Shared} {new : List Task}

/-- A live session was alive before the step. -/
theorem Vacancies.Idle.alive_of_step (hI : w.Idle env.policy)
    (h : w.next env (.step i c) = some w') (ht : w.state.tasks[i]? = some t)
    (hstep : Task.step env w.state.shared t c = some (w'.state.shared, t', new)) {sid : Sid}
    {s s' : Session} (hs : w.state.shared.heap[sid]? = some s)
    (hs' : w'.state.shared.heap[sid]? = some s') (halive : s'.state.alive = true) :
    s.state.alive = true := by
  have hbase' := World.base_next hI.base (Trace.noted_eq_some h).1
  have hio' : w'.state.shared.isAlive sid = true := by
    rw [Shared.isAlive, hs']
    exact (hbase'.shared.alive_eq hs').symm.trans halive
  have hio := Task.isAlive_of_step hstep hI.base.shared
    (hI.base.tasks t (List.mem_of_getElem? ht)) (List.getElem?_eq_some_iff.mp hs).1 hio'
  rw [hI.base.shared.alive_eq hs]
  rw [Shared.isAlive, hs] at hio
  exact hio

/-- A teardown that is pending stays due, since no attach takes a session it is pending for. -/
theorem Vacancies.Idle.pending_step (hI : w.Idle env.policy) (hc : w.Patient env (.step i c))
    (h : w.next env (.step i c) = some w') (ht : w.state.tasks[i]? = some t)
    (hstep : Task.step env w.state.shared t c = some (w'.state.shared, t', new)) {u : Task}
    (hu : u ∈ w.state.tasks) {sid : Sid} (hidles : u.idles = some sid)
    (halive : w'.state.shared.isAlive sid = true) :
    ∃ since, w'.log sid = some since ∧
      since + env.policy.detachedIdleTtl ≤ w'.state.shared.now := by
  have hacting : w.state.acting (.step i c : World.Label) = some t := ht
  have hlt := Task.lt_of_idles (hI.base.tasks u hu) hidles
  have halive' := Task.isAlive_of_step hstep hI.base.shared
    (hI.base.tasks t (List.mem_of_getElem? ht)) hlt halive
  obtain ⟨since, hlog, hle⟩ := hI.pending u hu sid hidles halive'
  refine ⟨since, hI.log_keep h hlog ?_, (Task.now_step hstep).symm ▸ hle⟩
  refine Shared.vacant_step hstep (hI.vacant hlog) fun s hs htake => ?_
  obtain ⟨a, now, rfl, hattach⟩ := Task.take_cases htake
  have hsAlive : s.state.alive = true := by
    rw [hI.base.shared.alive_eq hs]
    rw [Shared.isAlive, hs] at halive'
    exact halive'
  unfold Patient at hc
  rw [hacting] at hc
  have hnone := hc s hs hsAlive hattach
  have hany : w.state.tasks.any (·.idles = some sid) = true :=
    List.any_eq_true.mpr ⟨u, hu, decide_eq_true hidles⟩
  rw [hnone] at hany
  cases hany

/-- A tick decides to tear a session down that was left no later than its last activity. -/
theorem Vacancies.Idle.pending_new (hI : w.Idle env.policy) (h : w.next env (.step i c) = some w')
    (ht : w.state.tasks[i]? = some t)
    (hstep : Task.step env w.state.shared t c = some (w'.state.shared, t', new)) {sid : Sid}
    (hidles : t'.idles = some sid) :
    ∃ since, w'.log sid = some since ∧
      since + env.policy.detachedIdleTtl ≤ w'.state.shared.now := by
  obtain ⟨now, rest, actions, rfl, s, hs, hdue⟩ := (Task.idles_step hstep).2 sid hidles
  simp only [Session.idleDue, Bool.and_eq_true, decide_eq_true_eq] at hdue
  obtain ⟨⟨⟨halive, howner⟩, -⟩, hdeadline⟩ := hdue
  have hvacant : w.state.shared.vacant sid = true := Shared.vacant_eq_true.mpr ⟨s, hs, howner⟩
  obtain ⟨since, hlog⟩ := Option.isSome_iff_exists.mp ((hI.noted sid).trans hvacant)
  have hnow : now ≤ w.state.shared.now := hI.dated.ticks _ (List.mem_of_getElem? ht) now rfl
  refine ⟨since, hI.log_keep h hlog ?_, ?_⟩
  · refine Shared.vacant_step hstep hvacant fun s' hs' htake => ?_
    obtain ⟨a, now', hlock, -⟩ := Task.take_cases htake
    cases hlock
  · rw [Task.now_step hstep]
    calc since + env.policy.detachedIdleTtl
        ≤ s.lastActivity + env.policy.detachedIdleTtl :=
          Nat.add_le_add_right (hI.active sid since s hlog hs halive) _
      _ ≤ now := hdeadline
      _ ≤ w.state.shared.now := hnow

/-- A live session that a step leaves without an owner is active at that very time. -/
theorem Vacancies.Patient.active (hc : w.Patient env (.step i c)) (hI : w.Idle env.policy)
    (h : w.next env (.step i c) = some w') (ht : w.state.tasks[i]? = some t)
    (hstep : Task.step env w.state.shared t c = some (w'.state.shared, t', new)) {sid : Sid}
    {s' : Session} (hs' : w'.state.shared.heap[sid]? = some s') (halive : s'.state.alive = true)
    (howner : s'.state.ownerConn = ⟨0⟩) (hvacant : w.state.shared.vacant sid = false) :
    w.state.shared.now ≤ s'.lastActivity := by
  have hacting : w.state.acting (.step i c : World.Label) = some t := ht
  unfold Patient at hc
  rw [hacting] at hc
  have hdates := Task.redates_step hstep
  cases hs : w.state.shared.heap[sid]? with
  | none =>
    -- The session is a new one.
    have hspawned : ∃ sp, t = .op (.spawn sp) := by
      by_contra hother
      have hlen := Task.length_step hstep fun sp hsp => hother ⟨sp, hsp⟩
      exact absurd (List.getElem?_eq_some_iff.mp hs').1
        (hlen ▸ Nat.not_lt.mpr (List.getElem?_eq_none_iff.mp hs))
    obtain ⟨sp, rfl⟩ := hspawned
    have hactive : s'.io.lastActivityMs = Duration.asMillis w.state.shared.now :=
      congrArg Prod.snd (hdates.new sid s' hs hs')
    rw [Session.lastActivity, hactive]
    exact hc
  | some s =>
    have hle := hdates.lastActivity_le hI.dated.shared hs hs'
    have hlost : s.state.ownerConn ≠ ⟨0⟩ := fun hzero => by
      rw [Shared.vacant_eq_true.mpr ⟨s, hs, hzero⟩] at hvacant
      cases hvacant
    have hsAlive := hI.alive_of_step h ht hstep hs hs' halive
    have hrelease : Shared.actionAt (t.wires env) sid s = .release := by
      obtain ⟨s'', hs'', hwire⟩ := Option.map_eq_some_iff.mp ((Task.wire_step hstep).old sid s hs)
      obtain rfl := Option.some.inj (hs'.symm.trans hs'')
      have howner' : s'.wire.fence.ownerConn = ⟨0⟩ := howner
      rw [hwire, Session.Wire.ownerConn_act] at howner'
      split at howner'
      · assumption
      · have hpos := Nat.zero_lt_of_lt (hI.wires sid s hs).fence.next
        exact absurd (ConnGeneration.mk.inj howner') (Nat.ne_of_gt hpos)
      · exact absurd howner' hlost
    refine Nat.le_trans ?_ hle
    rcases Task.release_cases hrelease with ⟨td, rfl, rfl⟩ | ⟨name, rfl⟩ |
      ⟨a, r, rfl, rfl, hmissed⟩ | ⟨a, conn, exit, rfl, rfl | rfl, hdetach⟩
    · rw [Task.dead_of_teardownLock hstep hs'] at halive
      cases halive
    · exact hc s hs hsAlive hlost rfl
    · exact hc s hs hsAlive hlost hmissed
    · exact hc s hs hsAlive hlost hdetach
    · exact hc s hs hsAlive hlost hdetach

/-- Where nobody owns a live session after a step, nobody has since its last activity. -/
theorem Vacancies.Idle.active_step (hI : w.Idle env.policy) (hc : w.Patient env (.step i c))
    (h : w.next env (.step i c) = some w') (ht : w.state.tasks[i]? = some t)
    (hstep : Task.step env w.state.shared t c = some (w'.state.shared, t', new)) {sid : Sid}
    {since : Instant} {s' : Session} (hlog : w'.log sid = some since)
    (hs' : w'.state.shared.heap[sid]? = some s') (halive : s'.state.alive = true) :
    since ≤ s'.lastActivity := by
  rw [log_next h] at hlog
  split at hlog
  · rename_i hafter
    obtain ⟨s'', hs'', howner⟩ := Shared.vacant_eq_true.mp hafter
    obtain rfl := Option.some.inj (hs'.symm.trans hs'')
    split at hlog
    · rename_i hbefore
      obtain ⟨s, hs, -⟩ := Shared.vacant_eq_true.mp hbefore
      have hsAlive := hI.alive_of_step h ht hstep hs hs' halive
      exact Nat.le_trans (hI.active sid since s hlog hs hsAlive)
        ((Task.redates_step hstep).lastActivity_le hI.dated.shared hs hs')
    · rename_i hbefore
      obtain rfl := Option.some.inj hlog
      rw [Task.now_step hstep]
      exact hc.active hI h ht hstep hs' halive howner (Bool.eq_false_iff.mpr hbefore)
  · cases hlog

end Step

theorem Vacancies.idle_next (hI : w.Idle env.policy) (hc : w.Patient env l)
    (h : w.next env l = some w') : w'.Idle env.policy := by
  have hnext := (Trace.noted_eq_some h).1
  have hbase := World.base_next hI.base hnext
  have hdated := World.dated_next hI.dated hnext
  have hnoted := noted_next hI.noted h
  cases l with
  | call t =>
    obtain ⟨hentry, heq⟩ := Threads.next_call hnext
    have hnone : t.idles = none := by
      cases t with
      | op o => cases o <;> first | rfl | cases hentry
      | conn o => rfl
      | pump o => rfl
    have hshared : w'.state.shared = w.state.shared := by rw [heq]
    have htasks : w'.state.tasks = w.state.tasks ++ [t] := by rw [heq]
    have hlog := hI.log_same h (congrArg Shared.heap hshared)
    refine ⟨hbase, hdated, hshared ▸ hI.wires, hnoted, fun sid since s hsince hs halive => ?_,
      fun u hu sid hidles halive => ?_⟩
    · rw [hshared] at hs
      exact hI.active sid since s (hlog sid ▸ hsince) hs halive
    · rw [htasks] at hu
      rw [hshared] at halive ⊢
      rcases List.mem_append.mp hu with hu | hu
      · rw [hlog]
        exact hI.pending u hu sid hidles halive
      · obtain rfl := List.mem_singleton.mp hu
        rw [hnone] at hidles
        cases hidles
  | env d =>
    have heq := Threads.next_env hnext
    have hshared : w'.state.shared = { w.state.shared with now := w.state.shared.now + d } := by
      rw [heq]
      rfl
    have htasks : w'.state.tasks = w.state.tasks := by rw [heq]
    have hheap : w'.state.shared.heap = w.state.shared.heap := by rw [hshared]
    have hlog := hI.log_same h hheap
    refine ⟨hbase, hdated, fun sid s hs => hI.wires sid s (hheap ▸ hs), hnoted,
      fun sid since s hsince hs halive => ?_,
      fun u hu sid hidles halive => ?_⟩
    · rw [hshared] at hs
      exact hI.active sid since s (hlog sid ▸ hsince) hs halive
    · rw [htasks] at hu
      rw [hshared] at halive
      obtain ⟨since, hsince, hle⟩ := hI.pending u hu sid hidles halive
      refine ⟨since, (hlog sid).trans hsince, ?_⟩
      rw [hshared]
      exact Nat.le_trans hle (Nat.le_add_right _ _)
  | step i c =>
    obtain ⟨t, sh', t', new, ht, hstep, heq⟩ := Threads.next_step hnext
    have hshared : w'.state.shared = sh' := by rw [heq]
    have htasks : w'.state.tasks = w.state.tasks.set i t' ++ new := by rw [heq]
    subst hshared
    refine ⟨hbase, hdated, hI.wires.step (Task.wire_step hstep), hnoted,
      fun sid since s hsince hs halive => hI.active_step hc h ht hstep hsince hs halive,
      fun u hu sid hidles halive => ?_⟩
    rw [htasks] at hu
    rcases List.mem_append.mp hu with hu | hu
    · rcases List.mem_or_eq_of_mem_set hu with hu | rfl
      · exact hI.pending_step hc h ht hstep hu hidles halive
      · exact hI.pending_new h ht hstep hidles
    · rw [(Task.idles_step hstep).1 u hu] at hidles
      cases hidles

/-- Along every run in which a live session is only left at its last activity, and is not attached
to under a pending teardown, the detached-idle TTL only runs while detached. -/
theorem sparesAttached_of_patient (env : Env) (run : List World.Label)
    (h : Trace.AllSteps (Vacancies.next env) (Vacancies.Patient env) Vacancies.init run) :
    Trace.AllSteps (Vacancies.next env) (Vacancies.SparesAttached env.policy) Vacancies.init run := by
  have hidle : Trace.AllStates (Vacancies.next env) (Vacancies.Idle env.policy)
      Vacancies.init run :=
    Trace.AllStates.of_invariant (fun _ _ _ hI hc hs => Vacancies.idle_next hI hc hs)
      (Vacancies.idle_init env.policy) h
  refine Trace.AllSteps.of_invariant (fun w l _ hI _ t sid s hacting hidles hs halive => ?_) hidle
  have hmem : t ∈ w.state.tasks := by
    cases l with
    | step i c => exact List.mem_of_getElem? hacting
    | call _ | env _ => cases hacting
  have hio : w.state.shared.isAlive sid = true := by
    rw [Shared.isAlive, hs]
    exact (hI.base.shared.alive_eq hs).symm.trans halive
  obtain ⟨since, hlog, hle⟩ := hI.pending t hmem sid hidles hio
  obtain ⟨s', hs', howner⟩ := Shared.vacant_eq_true.mp (hI.vacant hlog)
  obtain rfl := Option.some.inj (hs.symm.trans hs')
  exact ⟨howner, since, hlog, hle⟩

/-- A client attaches to `sh`, and the first ping is sent to it twenty seconds later. -/
def idleClient : List World.Label :=
  [.call (.op (.claimName { name := .sh, size := .default, origin := .create })),
   .step 0 {}, .step 0 {}, .step 0 { choice := { raw := some [7] } }, .step 0 {}, .step 0 {},
   .call (.conn (.request { token := [48, 55], session := [115, 104], since := none,
                            rows := none, cols := none })),
   .step 2 {}, .step 2 {}, .step 2 {}, .step 2 {}, .step 2 {}, .step 2 {}, .step 2 {},
   .step 2 {}, .step 2 {}, .step 2 {}, .step 2 {}, .env (.fromSecs 20),
   .step 2 { arrival := { incoming := .tick } }, .step 2 {}]

/-- The client detaches. -/
def leaves : List World.Label :=
  [.step 2 { arrival := { incoming := .close } }, .step 2 {}]

/-- A tick, up to the teardown it decides on. -/
def idleTick : List World.Label := [.call (.op .tick), .step 3 {}, .step 3 {}, .step 3 {}]

/-- The client answers the ping and leaves, and the tick comes half an hour after that. -/
theorem sparesAttached_leaves :
    Trace.AllSteps (Vacancies.next .default) (Vacancies.SparesAttached Env.default.policy)
      Vacancies.init (idleClient ++ [.step 2 { arrival := { incoming := .pong } }, .step 2 {},
        .step 2 {}] ++ leaves ++ [.env (.fromSecs 1800)] ++ idleTick ++
        [.step 3 {}]) :=
  sparesAttached_of_patient .default _ (by decide)

/-- The client leaves 19 seconds after the ping, which it has not answered. Half an hour after it
came, a tick tears the session down. -/
theorem leaves_expired :
    ¬ Trace.AllSteps (Vacancies.next .default) (Vacancies.SparesAttached Env.default.policy)
      Vacancies.init (idleClient ++ [.env (.fromSecs 19)] ++ leaves ++ [.env (.fromSecs 1761)] ++
        idleTick ++ [.step 3 {}]) := by
  intro h
  obtain ⟨w, hspares, hw⟩ := h.observe
    (f := fun w => (w.state.tasks[3]?.map Task.idles, w.state.shared.heap[0]?.map (·.state.alive),
      w.log 0, w.state.shared.now))
    (show _ = some (some (some 0), some true, some (Duration.fromSecs 39), Duration.fromSecs 1800)
      from by decide) (by decide)
  simp only [Prod.mk.injEq, Option.map_eq_some_iff] at hw
  obtain ⟨⟨t, ht, hidles⟩, ⟨s, hs, halive⟩, hlog, hnow⟩ := hw
  obtain ⟨-, since, hsince, hle⟩ := hspares t 0 s ht hidles hs halive
  rw [hlog] at hsince
  rw [← Option.some.inj hsince, hnow] at hle
  revert hle
  decide

end OpenabPty
