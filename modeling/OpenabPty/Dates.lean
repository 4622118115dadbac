import OpenabPty.Credentials
import OpenabPty.Works

/-!
# The dates of the sessions

What the runtime remembers of the clock: when a session was created and last active, and the time
that a tick has read. A section keeps the dates of a session or notes the present as its last
activity, so they never lie in the future and the last activity never goes back.
-/

namespace OpenabPty

theorem fromMillis_asMillis_le (t : Instant) : Duration.fromMillis (Duration.asMillis t) ≤ t :=
  Nat.div_mul_le_self t 1000000

namespace Session

/-- What a session remembers of the clock. -/
def dates (s : Session) : Instant × Nat := (s.state.createdAt, s.io.lastActivityMs)

/-- What a session remembers of the clock lies in the past. -/
structure DatedBy (s : Session) (now : Instant) : Prop where
  createdAt : s.state.createdAt ≤ now
  lastActivity : s.lastActivity ≤ now

variable {s s' : Session} {now : Instant}

theorem createdAt_of_dates (h : s'.dates = s.dates) : s'.state.createdAt = s.state.createdAt :=
  congrArg Prod.fst h

theorem lastActivity_of_dates (h : s'.dates = s.dates) : s'.lastActivity = s.lastActivity := by
  have hactive : s'.io.lastActivityMs = s.io.lastActivityMs := congrArg Prod.snd h
  rw [lastActivity, hactive, lastActivity]

theorem DatedBy.of_dates (h : s.DatedBy now) (hdates : s'.dates = s.dates) : s'.DatedBy now where
  createdAt := by
    rw [createdAt_of_dates hdates]
    exact h.createdAt
  lastActivity := by
    rw [lastActivity_of_dates hdates]
    exact h.lastActivity

theorem DatedBy.mono {later : Instant} (h : s.DatedBy now) (hle : now ≤ later) :
    s.DatedBy later :=
  ⟨Nat.le_trans h.createdAt hle, Nat.le_trans h.lastActivity hle⟩

theorem DatedBy.touch (h : s.DatedBy now) : (s.touch now).DatedBy now :=
  ⟨h.createdAt, fromMillis_asMillis_le now⟩

/-- Noting the present does not take the last activity back. -/
theorem DatedBy.lastActivity_touch (h : s.DatedBy now) :
    s.lastActivity ≤ (s.touch now).lastActivity := by
  have hle : s.io.lastActivityMs * 1000000 ≤ now := h.lastActivity
  exact Nat.mul_le_mul_right _ ((Nat.le_div_iff_mul_le (by decide)).mpr hle)

section Dates

variable (s : Session) (conn : ConnGeneration) (policy : SessionPolicy) (now : Instant)

@[simp] theorem dates_attachLocked (scrollbackReplay : Bool) (generation : Generation)
    (size : WindowSize) (since : Option Nat) :
    (s.attachLocked policy scrollbackReplay generation size since now).1.dates = s.dates := by
  have hcas : (s.attachCas policy generation size now).1.dates = s.dates := by
    unfold attachCas
    split
    · rfl
    · dsimp only
      split <;> rfl
  unfold attachLocked
  split <;> rename_i heq <;> rw [heq] at hcas <;> exact hcas

@[simp] theorem dates_onPongLocked : (s.onPongLocked conn).dates = s.dates := by
  unfold onPongLocked
  split <;> rfl

@[simp] theorem dates_onMissedPingLocked : (s.onMissedPingLocked conn).1.dates = s.dates := by
  unfold onMissedPingLocked
  split
  · rfl
  · dsimp only
    split <;> rfl

@[simp] theorem dates_detach : (s.detach conn).dates = s.dates := by
  unfold detach
  split <;> rfl

@[simp] theorem dates_tickLocked : (s.tickLocked policy now).1.dates = s.dates := by
  unfold tickLocked
  split
  · rfl
  · dsimp only
    split_ifs <;> rfl

end Dates

end Session

namespace Shared

/-- Every session's dates lie in the past. -/
def Dated (sh : Shared) : Prop := ∀ s ∈ sh.heap, s.DatedBy sh.now

/-- What a step makes of the dates: a session keeps them or notes the present as its last
activity, and a new session is dated by the present. -/
structure Redates (sh sh' : Shared) : Prop where
  old : ∀ (sid : Sid) (s s' : Session), sh.heap[sid]? = some s → sh'.heap[sid]? = some s' →
    s'.dates = s.dates ∨ s'.dates = (s.touch sh.now).dates
  new : ∀ (sid : Sid) (s' : Session), sh.heap[sid]? = none → sh'.heap[sid]? = some s' →
    s'.dates = (sh.now, Duration.asMillis sh.now)

variable {sh sh' : Shared} {sid : Sid} {f : Session → Session}

theorem redates_of_heap (h : sh'.heap = sh.heap) : sh.Redates sh' where
  old sid s s' hs hs' := .inl (congrArg _ (Option.some.inj ((h ▸ hs').symm.trans hs)))
  new sid s' hs hs' := by
    rw [h, hs] at hs'
    cases hs'

/-- Only the heap matters. -/
theorem Redates.of_heap {sh'' : Shared} (h : sh.Redates sh') (hheap : sh''.heap = sh'.heap) :
    sh.Redates sh'' where
  old sid s s' hs hs' := h.old sid s s' hs (hheap ▸ hs')
  new sid s' hs hs' := h.new sid s' hs (hheap ▸ hs')

theorem redates_modify
    (hf : ∀ s : Session, (f s).dates = s.dates ∨ (f s).dates = (s.touch sh.now).dates) :
    sh.Redates (sh.modify sid f) where
  old t s s' hs hs' := by
    rw [heap_modify, hs] at hs'
    split at hs'
    · obtain rfl := Option.some.inj hs'
      exact hf s
    · obtain rfl := Option.some.inj hs'
      exact .inl rfl
  new t s' hs hs' := by
    rw [heap_modify, hs] at hs'
    split at hs' <;> cases hs'

theorem redates_allocate (env : Env) (name : SessionName) (generation : Generation)
    (size : WindowSize) : sh.Redates (sh.allocate env name generation size).1 where
  old t s s' hs hs' := by
    rw [heap_allocate_of_lt _ _ _ _ _ (List.getElem?_eq_some_iff.mp hs).1, hs] at hs'
    exact .inl (congrArg _ (Option.some.inj hs').symm)
  new t s' hs hs' := by
    rw [heap_allocate] at hs'
    split at hs'
    · obtain rfl := Option.some.inj hs'
      rfl
    · rw [hs] at hs'
      cases hs'

/-- The last activity of a session does not go back. -/
theorem Redates.lastActivity_le (h : sh.Redates sh') (hd : sh.Dated) {s s' : Session}
    (hs : sh.heap[sid]? = some s) (hs' : sh'.heap[sid]? = some s') :
    s.lastActivity ≤ s'.lastActivity := by
  rcases h.old sid s s' hs hs' with hkept | htouched
  · exact Nat.le_of_eq (Session.lastActivity_of_dates hkept).symm
  · rw [Session.lastActivity_of_dates htouched]
    exact (hd s (List.mem_of_getElem? hs)).lastActivity_touch

theorem Dated.later (h : sh.Dated) (hheap : sh'.heap = sh.heap) (hnow : sh.now ≤ sh'.now) :
    sh'.Dated := by
  intro s hs
  rw [hheap] at hs
  exact (h s hs).mono hnow

theorem Dated.step (hd : sh.Dated) (h : sh.Redates sh') (hnow : sh'.now = sh.now) : sh'.Dated := by
  intro s' hmem
  rw [hnow]
  obtain ⟨sid, hs'⟩ := List.mem_iff_getElem?.mp hmem
  cases hs : sh.heap[sid]? with
  | none =>
    have hdates := h.new sid s' hs hs'
    refine ⟨Nat.le_of_eq (congrArg Prod.fst hdates), ?_⟩
    have hactive : s'.io.lastActivityMs = Duration.asMillis sh.now := congrArg Prod.snd hdates
    rw [Session.lastActivity, hactive]
    exact fromMillis_asMillis_le sh.now
  | some s =>
    have hdated := hd s (List.mem_of_getElem? hs)
    rcases h.old sid s s' hs hs' with hkept | htouched
    · exact hdated.of_dates hkept
    · exact hdated.touch.of_dates htouched

end Shared

open Shared

section Step

variable {env : Env} {sh sh' : Shared}

/-- A section keeps the dates of its session, or notes the present. -/
theorem Session.Section.dates {now : Instant} {carried : Option WindowSize} {f : Session → Session}
    (h : Session.Section env now carried f) (s : Session) :
    (f s).dates = s.dates ∨ (f s).dates = (s.touch now).dates := by
  cases h with
  | touch => exact .inr rfl
  | attachLocked hsize generation since asked =>
    exact .inl (s.dates_attachLocked env.policy asked _ generation _ since)
  | onPongLocked conn => exact .inl (s.dates_onPongLocked conn)
  | onMissedPingLocked conn => exact .inl (s.dates_onMissedPingLocked conn)
  | detach conn => exact .inl (s.dates_detach conn)
  | tickLocked read => exact .inl (s.dates_tickLocked env.policy read)
  | setSize | controlResize | onOutbound | renewLocked | teardownLocked | writeBuffer
  | clearBuffer => exact .inl rfl

theorem Shared.Works.redates {carried : Option WindowSize} (h : sh.Works env carried sh') :
    sh.Redates sh' := by
  cases h with
  | idle hheap => exact redates_of_heap hheap
  | spawned hsize name generation hheap =>
    exact (redates_allocate env name generation _).of_heap hheap
  | worked sid hf hheap => exact (redates_modify hf.dates).of_heap hheap

theorem Task.redates_step {c : Input} {t t' : Task} {new : List Task}
    (h : Task.step env sh t c = some (sh', t', new)) : sh.Redates sh' :=
  (Task.works_step h).redates

theorem Task.now_step {c : Input} {t t' : Task} {new : List Task}
    (h : Task.step env sh t c = some (sh', t', new)) : sh'.now = sh.now := by
  rcases step_cases h with ⟨op, op', ops, sids, rfl, hop, -⟩ | ⟨o, o', rfl, hconn, -⟩ |
    ⟨pump, rfl, hpump, -⟩
  · exact Op.now_step hop
  · exact (Conn.step_steady hconn).now
  · exact (Pump.step_steady hpump).now

/-- The time a tick has read from the clock, also while it tears a session down. -/
def Op.tickTime : Op → Option Instant
  | .tickSnapshot now => some now
  | .tickNext loop | .tickWarn loop _ _ _ _ | .tickPush loop _ _ _ _ _ => some loop.now
  | .teardownLock td | .teardownRevoke td _ _ | .teardownClose td _ _ | .teardownClear td _
  | .forget td _ | .deadGeneration td _ | .rememberDead td _ _ =>
    match td.caller with
    | .tick loop _ => some loop.now
    | _ => none
  | _ => none

def Task.tickTime : Task → Option Instant := Task.onOp Op.tickTime

/-- A tick keeps the time it started with. -/
theorem Op.tickTime_step {c : Choice} {op op' : Op} {ops : List Op} {sids : List Sid}
    (h : op.step env sh c = some (sh', op', ops, sids)) :
    (∀ o ∈ ops, o.tickTime = none) ∧
      (op'.tickTime = none ∨ op'.tickTime = op.tickTime ∨ op'.tickTime = some sh.now) := by
  obtain ⟨hgo, hops⟩ := flow_step h
  clear h
  refine ⟨fun o ho => ?_, ?_⟩
  · obtain ⟨name, old, -, rfl⟩ := hops o ho
    rfl
  · cases hgo <;> simp_all [tickTime]

theorem Task.tickTime_step {c : Input} {t t' : Task} {new : List Task}
    (h : Task.step env sh t c = some (sh', t', new)) :
    (∀ u ∈ new, u.tickTime = none) ∧
      ∀ now, t'.tickTime = some now → t.tickTime = some now ∨ now = sh.now := by
  refine onOp_step h (fun sid => rfl) fun op op' ops sids ht hstep => ?_
  obtain ⟨hops, hop⟩ := Op.tickTime_step hstep
  refine ⟨hops, fun now hnow => ?_⟩
  rw [ht]
  rcases hop with hnone | hsame | hread
  · simp [hnone] at hnow
  · exact .inl (hsame.symm.trans hnow)
  · exact .inr (Option.some.inj (hnow.symm.trans hread))

/-- A request has not read the clock. -/
theorem Task.tickTime_entry {t : Task} (h : t.entry = true) : t.tickTime = none := by
  cases t with
  | op op => cases op <;> first | rfl | cases h
  | conn conn => rfl
  | pump pump => rfl

/-- What the runtime remembers of the clock lies in the past. -/
structure World.Dated (w : World) : Prop where
  shared : w.shared.Dated
  ticks : ∀ t ∈ w.tasks, ∀ now, t.tickTime = some now → now ≤ w.shared.now

theorem World.dated_init : World.init.Dated :=
  ⟨fun _ hs => absurd hs List.not_mem_nil, fun _ ht => absurd ht List.not_mem_nil⟩

theorem World.dated_next {w w' : World} {l : World.Label} (hd : w.Dated)
    (h : World.next env w l = some w') : w'.Dated := by
  cases l with
  | call t =>
    obtain ⟨hentry, rfl⟩ := Threads.next_call h
    refine ⟨hd.shared, fun u hu now hnow => ?_⟩
    rcases List.mem_append.mp hu with hold | hcalled
    · exact hd.ticks u hold now hnow
    · rw [List.mem_singleton.mp hcalled, Task.tickTime_entry hentry] at hnow
      cases hnow
  | step i c =>
    obtain ⟨t, s', t', new, ht, hs, rfl⟩ := Threads.next_step h
    have hmem : t ∈ w.tasks := List.mem_of_getElem? ht
    have hnow : s'.now = w.shared.now := Task.now_step hs
    obtain ⟨hnew, ht'⟩ := Task.tickTime_step hs
    refine ⟨hd.shared.step (Task.redates_step hs) hnow, fun u hu now htime => ?_⟩
    show now ≤ s'.now
    rw [hnow]
    rcases List.mem_append.mp hu with hold | hstarted
    · rcases List.mem_or_eq_of_mem_set hold with hold | rfl
      · exact hd.ticks u hold now htime
      · rcases ht' now htime with hkept | rfl
        · exact hd.ticks t hmem now hkept
        · exact Nat.le_refl _
    · rw [hnew u hstarted] at htime
      cases htime
  | env d =>
    obtain rfl := Threads.next_env h
    have hle : w.shared.now ≤ w.shared.now + d := Nat.le_add_right _ _
    exact ⟨hd.shared.later rfl hle, fun u hu now hnow => Nat.le_trans (hd.ticks u hu now hnow) hle⟩

theorem World.dated_run {ls : List World.Label} {w : World}
    (h : Trace.run (World.next env) World.init ls = some w) : w.Dated :=
  (Trace.AllStates.of_next (fun _ _ _ => World.dated_next) World.dated_init).last h

end Step

end OpenabPty
