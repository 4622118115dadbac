import OpenabPty.Drain
import OpenabPty.Ownership
import Mathlib.Logic.Relation

/-!
# One attach, undisturbed

`attach_with_replay` and `on_output` as the plain functions they are when nothing else runs
on the session, and what an attach leaves in the new connection's queue.
-/

namespace OpenabPty

/-- `attach_with_replay` on the session it found, with the resize of the PTY going through. -/
def Session.attachWithReplay (s : Session) (policy : SessionPolicy) (scrollbackReplay : Bool)
    (generation : Generation) (size : WindowSize) (since : Option Nat) (now : Instant) :
    Session × Except Error (ConnGeneration × Nat) :=
  match s.attachLocked policy scrollbackReplay generation size since now with
  | (s, .error error) => (s, .error error)
  | (s, .ok reg) =>
    let s :=
      match reg.evicted with
      | some previous => s.onOutbound previous (·.close CloseCode.takeover)
      | none => s
    match s.subscriberFor reg.conn with
    | none => (s, .error (.other "attach lost the CAS immediately"))
    | some _ =>
      let s := s.onOutbound reg.conn (·.pushControl s.attachNotice)
      let s :=
        match reg.replay with
        | none => s
        | some (.contiguous bytes _) => s.onOutbound reg.conn (·.pushBytes bytes)
        | some (.gap dropped bytes _) =>
          (s.onOutbound reg.conn (·.pushControl (.gap dropped))).onOutbound reg.conn
            (·.pushBytes bytes)
      ((s.controlResize size).touch now, .ok (reg.conn, reg.streamOffset))

/-- `on_output`, after the capability proxy. -/
def Session.onOutput (s : Session) (bytes : List UInt8) (now : Instant) : Session :=
  let s := (s.writeBuffer bytes).touch now
  match s.io.subscriber with
  | some conn => s.onOutbound conn (·.pushBytes bytes)
  | none => s

/-- The queue of the newest connection. -/
def Session.newest (s : Session) : Option Outbound := s.outbounds.getLast?

/-- What an attach pushes to its new queue. -/
def Outbound.greet (o : Outbound) (notice : ControlEvent) (replay : Option Replay) : Outbound :=
  let o := o.pushControl notice
  match replay with
  | none => o
  | some (.contiguous bytes _) => o.pushBytes bytes
  | some (.gap dropped bytes _) => (o.pushControl (.gap dropped)).pushBytes bytes

namespace Session

variable {s s' : Session} {policy : SessionPolicy} {scrollbackReplay : Bool}
  {generation : Generation} {size : WindowSize} {since : Option Nat} {now : Instant}
  {conn : ConnGeneration} {offset : Nat}

theorem newest_onOutbound (s : Session) (c : ConnGeneration) (f : Outbound → Outbound) :
    (s.onOutbound c f).newest = s.newest.map fun o => if o.conn = c then f o else o := by
  rw [newest, newest, onOutbound, List.getLast?_map]

/-- A push to the newest queue. -/
theorem newest_push {o : Outbound} (h : s.newest = some o) (f : Outbound → Outbound) :
    (s.onOutbound o.conn f).newest = some (f o) := by
  rw [newest_onOutbound, h, Option.map_some, if_pos rfl]

/-- A push to another queue. -/
theorem newest_other {o : Outbound} (h : s.newest = some o) {c : ConnGeneration}
    (hc : o.conn ≠ c) (f : Outbound → Outbound) : (s.onOutbound c f).newest = some o := by
  rw [newest_onOutbound, h, Option.map_some, if_neg hc]

/-- A change of any queue leaves of the newest one what it leaves of every queue. -/
theorem newest_keeps {α : Type} (view : Outbound → α) (s : Session) (c : ConnGeneration)
    {f : Outbound → Outbound} (hf : ∀ o : Outbound, (f o).conn = o.conn ∧ view (f o) = view o)
    {o : Outbound} (h : s.newest = some o) :
    ∃ o', (s.onOutbound c f).newest = some o' ∧ o'.conn = o.conn ∧ view o' = view o := by
  by_cases hc : o.conn = c
  · subst hc
    exact ⟨f o, newest_push h f, hf o⟩
  · exact ⟨o, newest_other h hc f, rfl, rfl⟩

theorem newest_replaceSubscriber (s : Session) (c : ConnGeneration) :
    (s.replaceSubscriber c).1.newest = some (.new c backlogBounds) := by
  rw [newest, replaceSubscriber, List.getLast?_append, List.getLast?_singleton, Option.some_or]

/-- The locked section of an attach that is admitted. -/
theorem attachLocked_ok {reg : Registration}
    (h : s.attachLocked policy scrollbackReplay generation size since now = (s', .ok reg)) :
    reg.conn = ⟨s.fence.nextConn⟩ ∧ reg.streamOffset = s.io.buffer.totalWritten ∧
    reg.replay = (s.registerReplay scrollbackReplay since).2 ∧ reg.evicted = s.io.subscriber ∧
    s'.io.buffer = s.io.buffer ∧ s'.io.subscriber = some reg.conn ∧
    s'.newest = some (.new reg.conn backlogBounds) ∧ s'.attachNotice = s.attachNotice := by
  unfold attachLocked at h
  rcases s.attachCas_cases now policy size generation with
    ⟨s₁, error, heq, -⟩ | ⟨s₁, heq, -, hgen, -⟩
  · rw [heq] at h
    cases h
  · have hsame : s₁.io = { s.io with ownerConn := ⟨s.fence.nextConn⟩ } ∧
        s₁.tierBestEffort = s.tierBestEffort ∧ s₁.outbounds = s.outbounds := by
      have heq' := heq
      unfold attachCas at heq'
      split at heq'
      · cases heq'
      · dsimp only at heq'
        split at heq'
        · cases heq'
        · obtain rfl := (Prod.mk.inj heq').1
          exact ⟨rfl, rfl, rfl⟩
    obtain ⟨hio, htier, -⟩ := hsame
    rw [heq] at h
    obtain ⟨rfl, hreg⟩ := Prod.mk.inj h
    obtain rfl := Except.ok.inj hreg
    refine ⟨rfl, ?_, ?_, ?_, ?_, rfl, ?_, ?_⟩
    · simp only [registerReplay, hio]
    · simp only [registerReplay, hio]
    · simp only [replaceSubscriber, hio]
    · simp only [replaceSubscriber, hio]
    · exact newest_replaceSubscriber _ _
    · simp only [attachNotice, replaceSubscriber, htier]

/-- The queue that an attach evicts is not the one it makes. -/
theorem closeEvicted_spec (hv : s.fence.Valid) {reg : Registration}
    (hconn : reg.conn = ⟨s.fence.nextConn⟩) (hevicted : reg.evicted = s.io.subscriber)
    {s₁ : Session} {o : Outbound} (ho : s₁.newest = some o) (hoc : o.conn = reg.conn) :
    ∃ s₂, (match reg.evicted with
      | some previous => s₁.onOutbound previous (·.close CloseCode.takeover)
      | none => s₁) = s₂ ∧ s₂.io = s₁.io ∧ s₂.newest = some o ∧ s₂.attachNotice = s₁.attachNotice := by
  cases he : reg.evicted with
  | none => exact ⟨s₁, rfl, rfl, ho, rfl⟩
  | some previous =>
    refine ⟨_, rfl, rfl, ?_, rfl⟩
    refine newest_other ho ?_ _
    rw [hoc, hconn]
    intro heq
    have hsub : s.fence.subscriber = some previous := hevicted.symm.trans he
    rw [hv.subscriber] at hsub
    split at hsub
    · cases hsub
    · rw [← heq] at hsub
      exact Nat.ne_of_lt hv.next (congrArg ConnGeneration.val (Option.some.inj hsub))

/-- What a successful attach leaves: the buffer as it was, and a new queue with the notice and
the replay. -/
theorem attachWithReplay_ok (hv : s.fence.Valid)
    (h : s.attachWithReplay policy scrollbackReplay generation size since now =
      (s', .ok (conn, offset))) :
    offset = s.io.buffer.totalWritten ∧ s'.io.buffer = s.io.buffer ∧
    s'.io.subscriber = some conn ∧ s'.attachNotice = s.attachNotice ∧
    s'.newest = some ((Outbound.new conn backlogBounds).greet s.attachNotice
      (s.registerReplay scrollbackReplay since).2) := by
  unfold attachWithReplay at h
  split at h
  · cases (Prod.mk.inj h).2
  · rename_i s₁ reg hl
    obtain ⟨hconn, hoffset, hreplay, hevicted, hbuffer, hsub, hnewest, hnotice⟩ := attachLocked_ok hl
    obtain ⟨s₂, heq, hio, hnewest, hnotice₂⟩ := closeEvicted_spec hv hconn hevicted hnewest rfl
    simp only [heq] at h
    have hfor : s₂.subscriberFor reg.conn = some reg.conn := by
      rw [subscriberFor, hio, hsub]
      simp
    rw [hfor] at h
    dsimp only at h
    have hgreeted := newest_push hnewest (·.pushControl s₂.attachNotice)
    rw [hnotice₂, hnotice] at hgreeted h
    rw [← hreplay]
    cases hr : reg.replay with
    | none =>
      rw [hr] at h
      obtain ⟨rfl, hok⟩ := Prod.mk.inj h
      obtain ⟨rfl, rfl⟩ := Prod.mk.inj (Except.ok.inj hok)
      exact ⟨hoffset, by rw [← hbuffer, ← hio]; rfl, by rw [← hsub, ← hio]; rfl,
        hnotice₂.trans hnotice, hgreeted⟩
    | some replay =>
      rw [hr] at h
      cases replay with
      | contiguous bytes toOffset =>
        obtain ⟨rfl, hok⟩ := Prod.mk.inj h
        obtain ⟨rfl, rfl⟩ := Prod.mk.inj (Except.ok.inj hok)
        exact ⟨hoffset, by rw [← hbuffer, ← hio]; rfl, by rw [← hsub, ← hio]; rfl,
          hnotice₂.trans hnotice, newest_push hgreeted (·.pushBytes bytes)⟩
      | gap dropped bytes toOffset =>
        obtain ⟨rfl, hok⟩ := Prod.mk.inj h
        obtain ⟨rfl, rfl⟩ := Prod.mk.inj (Except.ok.inj hok)
        exact ⟨hoffset, by rw [← hbuffer, ← hio]; rfl, by rw [← hsub, ← hio]; rfl,
          hnotice₂.trans hnotice,
          newest_push (newest_push hgreeted (·.pushControl (.gap dropped))) (·.pushBytes bytes)⟩

/-- An attach to a session that nobody owns succeeds. -/
theorem attachWithReplay_of_free (policy : SessionPolicy) (scrollbackReplay : Bool)
    (size : WindowSize) (since : Option Nat) (now : Instant) (hv : s.fence.Valid) (hgen : s.state.generation = generation)
    (howner : s.state.ownerConn = ⟨0⟩) : ∃ s' conn offset,
      s.attachWithReplay policy scrollbackReplay generation size since now =
        (s', .ok (conn, offset)) := by
  obtain ⟨s₁, reg, hl⟩ : ∃ s₁ reg,
      s.attachLocked policy scrollbackReplay generation size since now = (s₁, .ok reg) := by
    unfold attachLocked attachCas
    rw [if_neg (not_not.mpr hgen)]
    dsimp only
    rw [if_neg fun h => h.1 howner]
    exact ⟨_, _, rfl⟩
  obtain ⟨hconn, -, -, hevicted, -, hsub, hnewest, -⟩ := attachLocked_ok hl
  obtain ⟨s₂, heq, hio, -⟩ := closeEvicted_spec hv hconn hevicted hnewest rfl
  have hfor : s₂.subscriberFor reg.conn = some reg.conn := by
    rw [subscriberFor, hio, hsub]
    simp
  simp only [attachWithReplay, hl, heq, hfor]
  exact ⟨_, _, _, rfl⟩

end Session

/-! ## The sections, one after the other -/

open Shared

theorem Shared.heap_modify_self {sh : Shared} {sid : Sid} {s : Session}
    (hs : sh.heap[sid]? = some s) (f : Session → Session) :
    (sh.modify sid f).heap[sid]? = some (f s) := by
  rw [heap_modify, if_pos rfl, hs, Option.map_some]

/-- A connection that takes steps while nothing else runs. -/
def Conn.Alone (env : Env) : Shared × Conn → Shared × Conn → Prop :=
  Relation.ReflTransGen fun p q => ∃ e, p.2.step env p.1 e = some q

section Alone

variable {env : Env} {sh : Shared} {a : Attach} {sid : Sid} {s s₁ : Session} {reg : Registration}

/-- From the lock to the lookup of its own queue. -/
theorem Conn.alone_lock (hs : sh.heap[sid]? = some s)
    (hl : s.attachLocked env.policy env.config.scrollbackReplay a.generation a.size a.since sh.now =
      (s₁, .ok reg)) :
    ∃ sh₁, sh₁.heap[sid]? = some (match reg.evicted with
        | some previous => s₁.onOutbound previous (·.close CloseCode.takeover)
        | none => s₁) ∧ sh₁.now = sh.now ∧
      Alone env (sh, .lock a sid sh.now) (sh₁, .subscriberFor a sid reg) := by
  have hheap := heap_modify_self hs fun s => (s.attachLocked env.policy env.config.scrollbackReplay
    a.generation a.size a.since sh.now).1
  rw [hl] at hheap
  cases he : reg.evicted with
  | none =>
    refine ⟨_, hheap, rfl, .single ⟨{}, ?_⟩⟩
    simp only [step, hs, Option.map_some, hl, he]
  | some previous =>
    have hlocked : Alone env (sh, .lock a sid sh.now) (sh.modify sid fun s =>
        (s.attachLocked env.policy env.config.scrollbackReplay a.generation a.size a.since sh.now).1,
        .closePrevious a sid reg previous) := by
      refine .single ⟨{}, ?_⟩
      simp only [step, hs, Option.map_some, hl, he]
    exact ⟨_, heap_modify_self hheap (·.onOutbound previous (·.close CloseCode.takeover)), rfl,
      hlocked.tail ⟨{}, rfl⟩⟩

/-- From the lookup to the resize: the notice and the replay are pushed. -/
theorem Conn.alone_push (env : Env) (a : Attach) (hs : sh.heap[sid]? = some s) {c : ConnGeneration}
    (hfor : s.subscriberFor reg.conn = some c) :
    ∃ sh₁, sh₁.heap[sid]? = some (match reg.replay with
        | none => s.onOutbound reg.conn (·.pushControl s.attachNotice)
        | some (.contiguous bytes _) =>
          (s.onOutbound reg.conn (·.pushControl s.attachNotice)).onOutbound reg.conn
            (·.pushBytes bytes)
        | some (.gap dropped bytes _) =>
          ((s.onOutbound reg.conn (·.pushControl s.attachNotice)).onOutbound reg.conn
            (·.pushControl (.gap dropped))).onOutbound reg.conn (·.pushBytes bytes)) ∧
      sh₁.now = sh.now ∧
      Alone env (sh, .subscriberFor a sid reg) (sh₁, .attachResize a sid reg) := by
  have hfound : Alone env (sh, .subscriberFor a sid reg) (sh, .notice a sid reg) := by
    refine .single ⟨{}, ?_⟩
    simp only [step, hs, Option.map_some, hfor]
  have hnoticed := heap_modify_self hs fun s => s.onOutbound reg.conn (·.pushControl s.attachNotice)
  -- The notice, and where the connection goes on after it.
  have hnotice : Alone env (sh, .subscriberFor a sid reg)
      (sh.modify sid fun s => s.onOutbound reg.conn (·.pushControl s.attachNotice),
        afterNotice a sid reg) := hfound.tail ⟨{}, rfl⟩
  cases hr : reg.replay with
  | none =>
    rw [afterNotice, hr] at hnotice
    exact ⟨_, hnoticed, rfl, hnotice⟩
  | some replay =>
    cases replay with
    | contiguous bytes toOffset =>
      rw [afterNotice, hr] at hnotice
      exact ⟨_, heap_modify_self hnoticed (·.onOutbound reg.conn (·.pushBytes bytes)), rfl,
        hnotice.tail ⟨{}, rfl⟩⟩
    | gap dropped bytes toOffset =>
      rw [afterNotice, hr] at hnotice
      have hgap := heap_modify_self hnoticed (·.onOutbound reg.conn (·.pushControl (.gap dropped)))
      exact ⟨_, heap_modify_self hgap (·.onOutbound reg.conn (·.pushBytes bytes)), rfl,
        (hnotice.tail ⟨{}, rfl⟩).tail ⟨{}, rfl⟩⟩

/-- A connection that takes the lock and is not interrupted does to the session what
`attachWithReplay` does. -/
theorem Conn.alone_attach {s' : Session} {conn : ConnGeneration} {offset : Nat}
    (hs : sh.heap[sid]? = some s)
    (h : s.attachWithReplay env.policy env.config.scrollbackReplay a.generation a.size a.since
      sh.now = (s', .ok (conn, offset))) :
    ∃ sh' r, sh'.heap[sid]? = some s' ∧ r.sid = sid ∧ r.conn = conn ∧
      Alone env (sh, .lock a sid sh.now) (sh', .reading a r .select) := by
  unfold Session.attachWithReplay at h
  split at h
  · cases (Prod.mk.inj h).2
  · rename_i s₁ reg hl
    obtain ⟨sh₁, hs₁, hnow₁, hlock⟩ := alone_lock hs hl
    dsimp only at h
    split at h
    · cases (Prod.mk.inj h).2
    · rename_i c hfor
      obtain ⟨sh₂, hs₂, hnow₂, hpush⟩ := alone_push env a hs₁ hfor
      obtain ⟨rfl, hok⟩ := Prod.mk.inj h
      obtain ⟨rfl, rfl⟩ := Prod.mk.inj (Except.ok.inj hok)
      have hnow : sh₂.now = sh.now := hnow₂.trans hnow₁
      have hresized := heap_modify_self hs₂ (·.controlResize a.size)
      have htouched := heap_modify_self hresized (·.touch sh₂.now)
      rw [hnow] at htouched
      have hresize : Alone env (sh, .lock a sid sh.now)
          (sh₂.modify sid (·.controlResize a.size), .touch a sid reg) :=
        (hlock.trans hpush).tail ⟨{}, rfl⟩
      refine ⟨_, _, ?_, ?_, ?_, hresize.tail ⟨{}, rfl⟩⟩
      · show ((sh₂.modify sid (·.controlResize a.size)).modify sid (·.touch sh₂.now)).heap[sid]? = _
        rw [hnow]
        exact htouched
      · rfl
      · rfl

end Alone

/-- A pump that forwards one chunk. -/
def outputLabels (i : Nat) (bytes : List UInt8) : List World.Label :=
  [.step i { chunk := some bytes }, .step i {}, .step i {}, .step i {}, .step i {}]

theorem World.next_pump {env : Env} {w : World} {i : Nat} {c : Input} {pump : Pump} {sh : Shared}
    {t : Task} (ht : w.tasks[i]? = some (.pump pump))
    (hp : pump.step w.shared c.chunk = some (sh, t)) :
    World.next env w (.step i c) = some { shared := sh, tasks := w.tasks.set i t } := by
  simp only [World.next, Threads.next, ht, runtime, Task.step, hp, Option.map_some, List.append_nil]

/-- A pump that is not interrupted does to its session what `onOutput` does. -/
theorem World.run_output (env : Env) {w : World} {i : Nat} {sid : Sid} {s : Session}
    (ht : w.tasks[i]? = some (.pump (.idle sid))) (hs : w.shared.heap[sid]? = some s)
    (bytes : List UInt8) :
    ∃ w', Trace.run (World.next env) w (outputLabels i bytes) = some w' ∧
      w'.tasks[i]? = some (.pump (.idle sid)) ∧
      w'.shared.heap[sid]? = some (s.onOutput bytes w.shared.now) := by
  have hlt : i < w.tasks.length := (List.getElem?_eq_some_iff.mp ht).1
  have hset : ∀ t : Task, (w.tasks.set i t)[i]? = some t := fun t => List.getElem?_set_self hlt
  have hwritten := heap_modify_self hs (·.writeBuffer bytes)
  have htouched := heap_modify_self hwritten (·.touch w.shared.now)
  simp only [outputLabels, Trace.run]
  rw [next_pump ht rfl, Option.bind_some, next_pump (hset _) rfl, Option.bind_some, List.set_set,
    next_pump (hset _) rfl, Option.bind_some, List.set_set]
  -- The pump reads the subscriber slot of the session it has written to.
  rw [next_pump (hset _) (c := {}) (t := .pump (.push sid bytes s.io.subscriber))
    (by rw [Pump.step]; exact congrArg _ htouched), Option.bind_some, List.set_set]
  cases hsub : s.io.subscriber with
  | none =>
    rw [next_pump (hset _) rfl, Option.bind_some, List.set_set]
    refine ⟨_, rfl, hset _, ?_⟩
    have heq : s.onOutput bytes w.shared.now = (s.writeBuffer bytes).touch w.shared.now := by
      simp only [Session.onOutput]
      rw [show ((s.writeBuffer bytes).touch w.shared.now).io.subscriber = none from hsub]
    rw [heq]
    exact htouched
  | some conn =>
    rw [next_pump (hset _) rfl, Option.bind_some, List.set_set]
    refine ⟨_, rfl, hset _, ?_⟩
    have heq : s.onOutput bytes w.shared.now =
        ((s.writeBuffer bytes).touch w.shared.now).onOutbound conn (·.pushBytes bytes) := by
      simp only [Session.onOutput]
      rw [show ((s.writeBuffer bytes).touch w.shared.now).io.subscriber = some conn from hsub]
    rw [heq]
    exact heap_modify_self htouched (·.onOutbound conn (·.pushBytes bytes))

end OpenabPty
