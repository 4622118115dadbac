import OpenabPty.Flow
import OpenabPty.Runtime

/-!
# What the sections do to the shared state

Most sections leave the maps, the token store, the history, and the lifecycle and the fence of
every session as they are (`Shared.Same`); what a connection or a pump does is invisible to
the maps and the lifecycles (`Shared.Steady`); and only a spawn, a `forget` and `publish`
change the map (`Shared.KeepsMap`). The invariants of the runtime are stated in these terms.
-/

namespace OpenabPty

/-- Nothing changed but queues, sizes, activity stamps and warnings. -/
structure Shared.Same (sh sh' : Shared) : Prop where
  now : sh'.now = sh.now
  sessions : sh'.sessions = sh.sessions
  claimed : sh'.claimed = sh.claimed
  tombstones : sh'.tombstones = sh.tombstones
  tokens : sh'.tokens = sh.tokens
  draining : sh'.draining = sh.draining
  history : sh'.history = sh.history
  length : sh'.heap.length = sh.heap.length
  life : ∀ sid, sh'.life? sid = sh.life? sid
  fence : ∀ sid, sh'.fence? sid = sh.fence? sid
  buffer : ∀ sid, sh'.buffer? sid = sh.buffer? sid

namespace Shared

theorem Same.refl (sh : Shared) : sh.Same sh :=
  ⟨rfl, rfl, rfl, rfl, rfl, rfl, rfl, rfl, fun _ => rfl, fun _ => rfl, fun _ => rfl⟩

/-- A change of one session that keeps its lifecycle, its fence and its buffer. -/
theorem same_modify (sh : Shared) (sid : Sid) {f : Session → Session}
    (hlife : ∀ s, (f s).life = s.life) (hfence : ∀ s, (f s).fence = s.fence)
    (hbuffer : ∀ s, (f s).io.buffer = s.io.buffer) : sh.Same (sh.modify sid f) :=
  ⟨rfl, rfl, rfl, rfl, rfl, rfl, rfl, sh.modify_heap_length sid f, sh.life_modify_of_eq sid hlife,
    sh.fence_modify_of_eq sid hfence, sh.buffer_modify_of_eq sid hbuffer⟩

theorem Same.isAlive {sh sh' : Shared} (h : sh.Same sh') (sid : Sid) :
    sh'.isAlive sid = sh.isAlive sid := by
  rw [isAlive_eq_life, isAlive_eq_life, h.life]

end Shared

/-- What a connection, a pump or a quiet section of an operation leaves as it is: everything
but fences and queues. A connection may remove the expired entry it verified against and note
its own attach. -/
structure Shared.Steady (sh sh' : Shared) : Prop where
  now : sh'.now = sh.now
  sessions : sh'.sessions = sh.sessions
  claimed : sh'.claimed = sh.claimed
  tombstones : sh'.tombstones = sh.tombstones
  draining : sh'.draining = sh.draining
  length : sh'.heap.length = sh.heap.length
  life : ∀ sid, sh'.life? sid = sh.life? sid
  tokens : sh'.tokens = sh.tokens ∨
    ∃ name stored, sh.tokens[name]? = some stored ∧ stored.expiresAt ≤ sh.now ∧
      sh'.tokens = sh.tokens.erase name
  history : sh'.history = sh.history ∨
    ∃ sid alive, sh'.history = Event.attached sid alive :: sh.history

/-- What a connection leaves as it is: the scrollback, too. -/
structure Shared.Calm (sh sh' : Shared) : Prop extends sh.Steady sh' where
  buffer : ∀ sid, sh'.buffer? sid = sh.buffer? sid

namespace Shared

theorem Same.steady {sh sh' : Shared} (h : sh.Same sh') : sh.Steady sh' :=
  ⟨h.now, h.sessions, h.claimed, h.tombstones, h.draining, h.length, h.life, .inl h.tokens,
    .inl h.history⟩

theorem Steady.refl (sh : Shared) : sh.Steady sh := (Same.refl sh).steady

theorem steady_modify (sh : Shared) (sid : Sid) {f : Session → Session}
    (hlife : ∀ s, (f s).life = s.life) : sh.Steady (sh.modify sid f) :=
  ⟨rfl, rfl, rfl, rfl, rfl, sh.modify_heap_length sid f, sh.life_modify_of_eq sid hlife,
    .inl rfl, .inl rfl⟩

theorem Calm.refl (sh : Shared) : sh.Calm sh := ⟨.refl sh, fun _ => rfl⟩

theorem calm_modify (sh : Shared) (sid : Sid) {f : Session → Session}
    (hlife : ∀ s, (f s).life = s.life) (hbuffer : ∀ s, (f s).io.buffer = s.io.buffer) :
    sh.Calm (sh.modify sid f) :=
  ⟨sh.steady_modify sid hlife, sh.buffer_modify_of_eq sid hbuffer⟩

theorem Steady.isAlive {sh sh' : Shared} (h : sh.Steady sh') (sid : Sid) :
    sh'.isAlive sid = sh.isAlive sid := by
  rw [isAlive_eq_life, isAlive_eq_life, h.life]

end Shared

namespace Op

theorem same_pushControl (sh : Shared) (sid : Sid) (subscriber : Option ConnGeneration)
    (event : ControlEvent) : sh.Same (pushControl sh sid subscriber event) := by
  cases subscriber with
  | none => exact .refl sh
  | some conn => exact sh.same_modify sid (fun _ => rfl) (fun _ => rfl) (fun _ => rfl)

theorem same_closeOutbound (sh : Shared) (sid : Sid) (subscriber : Option ConnGeneration)
    (code : Nat) : sh.Same (closeOutbound sh sid subscriber code) := by
  cases subscriber with
  | none => exact .refl sh
  | some conn => exact sh.same_modify sid (fun _ => rfl) (fun _ => rfl) (fun _ => rfl)

/-- The sections that only read, or only touch queues and warnings. -/
def quiet : Op → Bool
  | .adminCreate .. | .restartGet _ | .restartGeneration .. | .restartIsAlive ..
  | .teardownClose .. | .deadGeneration .. | .killGet _ | .streamEnded _ | .selfExitGet _
  | .selfExitIsAlive .. | .renewGet _ | .renewIsAlive .. | .renewClose .. | .tick
  | .tickSnapshot _ | .tickNext _ | .tickWarn .. | .tickPush .. | .notifySnapshot _
  | .notifyNext .. | .notifyPush .. | .shutdownSnapshot | .shutdownNext _ => true
  | _ => false

variable {env : Env} {sh sh' : Shared} {c : Choice} {op op' : Op} {ops : List Op}
  {sids : List Sid}

theorem step_quiet (hq : op.quiet = true) (h : op.step env sh c = some (sh', op', ops, sids)) :
    sh.Same sh' ∧ ops = [] ∧ sids = [] := by
  cases op <;> simp only [quiet, Bool.false_eq_true] at hq <;> simp only [step] at h
  -- One read of the maps or of an atomic decides where the operation goes on.
  case adminCreate | restartGet | restartIsAlive | killGet | selfExitGet | selfExitIsAlive
      | renewGet | renewIsAlive =>
    split at h <;> cases h <;> exact ⟨.refl _, rfl, rfl⟩
  case tick | tickSnapshot | notifySnapshot | shutdownSnapshot =>
    cases h
    exact ⟨.refl _, rfl, rfl⟩
  -- One read of the session.
  case restartGeneration | deadGeneration | tickWarn =>
    obtain ⟨s, -, heq⟩ := Option.map_eq_some_iff.mp h
    cases heq
    exact ⟨.refl _, rfl, rfl⟩
  case streamEnded =>
    obtain ⟨s, -, heq⟩ := Option.map_eq_some_iff.mp h
    split at heq <;> cases heq <;> exact ⟨.refl _, rfl, rfl⟩
  -- The loops over a snapshot of the map.
  case notifyNext grace rest =>
    cases rest with
    | nil =>
      cases h
      exact ⟨.refl _, rfl, rfl⟩
    | cons sid rest =>
      obtain ⟨s, -, heq⟩ := Option.map_eq_some_iff.mp h
      cases heq
      exact ⟨.refl _, rfl, rfl⟩
  case shutdownNext loop =>
    obtain ⟨rest, reports⟩ := loop
    cases rest with
    | nil =>
      cases h
      exact ⟨.refl _, rfl, rfl⟩
    | cons sid rest =>
      obtain ⟨s, -, heq⟩ := Option.map_eq_some_iff.mp h
      cases heq
      exact ⟨.refl _, rfl, rfl⟩
  case tickNext loop =>
    obtain ⟨now, rest, actions⟩ := loop
    cases rest with
    | nil =>
      cases h
      exact ⟨.refl _, rfl, rfl⟩
    | cons sid rest =>
      obtain ⟨s, -, heq⟩ := Option.map_eq_some_iff.mp h
      cases heq
      exact ⟨sh.same_modify sid (fun s => s.life_tickLocked now env.policy)
        (fun s => s.fence_tickLocked now env.policy)
        (fun s => s.buffer_tickLocked now env.policy), rfl, rfl⟩
  -- Pushes to a queue.
  case teardownClose td report subscriber =>
    cases h
    exact ⟨same_closeOutbound sh td.sid subscriber td.code, rfl, rfl⟩
  case renewClose name sid generation subscriber =>
    cases h
    exact ⟨same_closeOutbound sh sid subscriber _, rfl, rfl⟩
  case tickPush loop sid name absolute seconds subscriber =>
    cases h
    exact ⟨same_pushControl sh sid subscriber _, rfl, rfl⟩
  case notifyPush grace rest sid subscriber =>
    cases h
    exact ⟨same_pushControl sh sid subscriber _, rfl, rfl⟩

end Op

/-- The read loop of a connection leaves the maps and the lifecycles alone. -/
theorem Reader.step_calm {sh sh' : Shared} {e : Arrival} {r : Reader} {pc : ReaderPc}
    {next : (Reader × ReaderPc) ⊕ ReadExit} (h : r.step sh e pc = some (sh', next)) :
    sh.Calm sh' := by
  cases pc <;> simp only [step] at h
  case select =>
    repeat' split at h
    all_goals
      cases h
      exact .refl _
  case writeFence | resizeFence =>
    obtain ⟨s, -, heq⟩ := Option.map_eq_some_iff.mp h
    cases heq
    exact .refl _
  case writeSend | sendPing =>
    split at h <;> cases h <;> exact .refl _
  case sendPong =>
    cases h
    exact .refl _
  case writeTouch | resizeState | pongTouch =>
    cases h
    exact sh.calm_modify r.sid (fun _ => rfl) fun _ => rfl
  case resizeControl =>
    split at h <;> cases h
    · exact sh.calm_modify r.sid (fun _ => rfl) fun _ => rfl
    · exact .refl _
  case pongLock =>
    cases h
    exact sh.calm_modify r.sid (fun s => s.life_onPongLocked r.conn)
      fun s => s.buffer_onPongLocked r.conn
  case missedPing =>
    obtain ⟨s, -, heq⟩ := Option.map_eq_some_iff.mp h
    cases heq
    exact sh.calm_modify r.sid (fun s => s.life_onMissedPingLocked r.conn)
      fun s => s.buffer_onMissedPingLocked r.conn
  case missedClose subscriber =>
    cases subscriber with
    | some conn =>
      cases h
      exact sh.calm_modify r.sid (fun _ => rfl) fun _ => rfl
    | none =>
      cases h
      exact .refl _

/-- So does a whole connection, up to the expired entry it may find. -/
theorem Conn.step_calm {env : Env} {sh sh' : Shared} {e : Arrival} {conn conn' : Conn}
    (h : conn.step env sh e = some (sh', conn')) : sh.Calm sh' := by
  cases conn <;> simp only [step] at h
  case request =>
    repeat' split at h
    all_goals
      cases h
      exact .refl _
  case handlerGet | get | peekTombstone | isAlive =>
    split at h <;> cases h <;> exact .refl _
  case handlerGeneration | subscriberFor =>
    obtain ⟨s, -, heq⟩ := Option.map_eq_some_iff.mp h
    cases heq
    exact .refl _
  case handlerVerify r name generation =>
    have hverify : sh.Calm (sh.verifyToken env name generation r.token).1 := by
      refine ⟨⟨rfl, rfl, rfl, rfl, rfl, rfl, fun _ => rfl, ?_, .inl rfl⟩, fun _ => rfl⟩
      rcases sh.tokens.verify_entries env.sha256 name generation r.token sh.now with
        heq | ⟨stored, hstored, hexp, heq⟩
      · exact .inl heq
      · exact .inr ⟨name, stored, hstored, hexp, heq⟩
    repeat' split at h
    all_goals
      cases h
      exact hverify
  case lock a sid now =>
    obtain ⟨s, -, heq⟩ := Option.map_eq_some_iff.mp h
    cases heq
    exact sh.calm_modify sid (fun s => s.life_attachLocked now env.policy a.size _ _ _)
      fun s => s.buffer_attachLocked now env.policy a.size _ _ _
  case closePrevious a sid reg previous | notice a sid reg | replayGap a sid reg dropped bytes
      | replayBytes a sid reg bytes =>
    cases h
    exact sh.calm_modify sid (fun _ => rfl) fun _ => rfl
  case attachResize a sid reg =>
    cases h
    split
    · exact sh.calm_modify sid (fun _ => rfl) fun _ => rfl
    · exact .refl _
  case touch a sid reg =>
    cases h
    have hcalm := sh.calm_modify sid (f := (·.touch sh.now)) (fun _ => rfl) fun _ => rfl
    exact { hcalm with history := .inr ⟨sid, sh.isAlive sid, rfl⟩ }
  case reading a r pc =>
    obtain ⟨⟨sh₁, next⟩, hr, heq⟩ := Option.map_eq_some_iff.mp h
    obtain rfl : sh₁ = sh' := by
      cases next <;> exact (Prod.mk.inj heq).1
    exact Reader.step_calm hr
  case exiting a sid conn exit =>
    cases exit <;> cases h
    · exact sh.calm_modify sid (fun s => s.life_detach conn) fun s => s.buffer_detach conn
    · exact sh.calm_modify sid (fun s => s.life_detach conn) fun s => s.buffer_detach conn
    · exact .refl _
    · exact .refl _
  case closing a sid conn exit =>
    cases h
    exact sh.calm_modify sid (fun _ => rfl) fun _ => rfl
  case awaiting =>
    cases h
    exact .refl _
  case returned | refused | rejected => cases h

theorem Conn.step_steady {env : Env} {sh sh' : Shared} {e : Arrival} {conn conn' : Conn}
    (h : conn.step env sh e = some (sh', conn')) : sh.Steady sh' := (step_calm h).toSteady

theorem Pump.step_steady {sh sh' : Shared} {chunk : Option (List UInt8)} {pump : Pump} {t : Task}
    (h : pump.step sh chunk = some (sh', t)) : sh.Steady sh' := by
  cases pump <;> simp only [step] at h
  case idle =>
    split at h <;> cases h <;> exact .refl _
  case write sid bytes | touch sid bytes =>
    cases h
    exact sh.steady_modify sid fun _ => rfl
  case subscriber =>
    obtain ⟨s, -, heq⟩ := Option.map_eq_some_iff.mp h
    cases heq
    exact .refl _
  case push sid bytes current =>
    cases current with
    | some conn =>
      cases h
      exact sh.steady_modify sid fun _ => rfl
    | none =>
      cases h
      exact .refl _

/-- A pump goes on pumping, or its stream ends. -/
theorem Pump.step_task {sh sh' : Shared} {chunk : Option (List UInt8)} {pump : Pump} {t : Task}
    (h : pump.step sh chunk = some (sh', t)) :
    (∃ pump', t = .pump pump') ∨ ∃ sid, t = .op (.streamEnded sid) := by
  cases pump <;> simp only [step] at h
  case idle =>
    split at h <;> cases h
    · exact .inl ⟨_, rfl⟩
    · exact .inr ⟨_, rfl⟩
  case write | touch =>
    cases h
    exact .inl ⟨_, rfl⟩
  case subscriber =>
    obtain ⟨s, -, heq⟩ := Option.map_eq_some_iff.mp h
    cases heq
    exact .inl ⟨_, rfl⟩
  case push =>
    split at h <;> cases h <;> exact .inl ⟨_, rfl⟩

/-- What a step of a task is: a section of an operation, or a step of a connection or of a
pump, which leaves the maps and the lifecycles alone. -/
theorem Task.step_cases {env : Env} {sh sh' : Shared} {t t' : Task} {c : Input}
    {new : List Task} (h : Task.step env sh t c = some (sh', t', new)) :
    (∃ op op' ops sids, t = .op op ∧ op.step env sh c.choice = some (sh', op', ops, sids) ∧
      t' = .op op' ∧ new = ops.map Task.op ++ sids.map fun sid => .pump (.idle sid)) ∨
    (∃ conn conn', t = .conn conn ∧ conn.step env sh c.arrival = some (sh', conn') ∧
      t' = .conn conn' ∧ new = []) ∨
    (∃ pump, t = .pump pump ∧ pump.step sh c.chunk = some (sh', t') ∧ new = []) := by
  cases t with
  | op op =>
    obtain ⟨⟨sh₁, op', ops, sids⟩, hr, heq⟩ := Option.map_eq_some_iff.mp h
    cases heq
    exact .inl ⟨op, op', ops, sids, rfl, hr, rfl, rfl⟩
  | conn conn =>
    obtain ⟨⟨sh₁, conn'⟩, hr, heq⟩ := Option.map_eq_some_iff.mp h
    cases heq
    exact .inr (.inl ⟨conn, conn', rfl, hr, rfl, rfl⟩)
  | pump pump =>
    obtain ⟨⟨sh₁, t₁⟩, hr, heq⟩ := Option.map_eq_some_iff.mp h
    cases heq
    exact .inr (.inr ⟨pump, rfl, hr, rfl⟩)

/-- What an operation knows, as what a task knows. -/
def Task.onOp {α : Type} (f : Op → Option α) : Task → Option α
  | .op o => f o
  | _ => none

/-- What the tasks of a step know is what its operation knows. -/
theorem Task.onOp_step {α : Type} {f : Op → Option α} {P : α → Prop} {env : Env}
    {sh sh' : Shared} {c : Input} {t t' : Task} {new : List Task}
    (h : Task.step env sh t c = some (sh', t', new)) (hended : ∀ sid, f (.streamEnded sid) = none)
    (hop : ∀ op op' ops sids, t = .op op → op.step env sh c.choice = some (sh', op', ops, sids) →
      (∀ o ∈ ops, f o = none) ∧ ∀ a, f op' = some a → P a) :
    (∀ u ∈ new, u.onOp f = none) ∧ ∀ a, t'.onOp f = some a → P a := by
  rcases step_cases h with ⟨op, op', ops, sids, rfl, hstep, rfl, rfl⟩ |
    ⟨conn, conn', rfl, -, rfl, rfl⟩ | ⟨pump, rfl, hpump, rfl⟩
  · obtain ⟨hops, hop'⟩ := hop op op' ops sids rfl hstep
    refine ⟨fun u hu => ?_, hop'⟩
    rcases List.mem_append.mp hu with hu | hu
    · obtain ⟨o, ho, rfl⟩ := List.mem_map.mp hu
      exact hops o ho
    · obtain ⟨sid, -, rfl⟩ := List.mem_map.mp hu
      rfl
  · exact ⟨fun u hu => absurd hu List.not_mem_nil, fun a ha => nomatch ha⟩
  · refine ⟨fun u hu => absurd hu List.not_mem_nil, fun a ha => ?_⟩
    rcases Pump.step_task hpump with ⟨pump', rfl⟩ | ⟨sid, rfl⟩
    · cases ha
    · exact absurd ha (by rw [onOp, hended]; exact nofun)

/-! ## Spawns

A spawn is the only task that knows its session between the allocation and `publish`. -/

/-- The spawn an operation is busy with, once its session is allocated and until it is
published. -/
def Op.spawning : Op → Option (Spawn × Sid)
  | .mint sp sid => some (sp, sid)
  | .publish sp sid _ => some (sp, sid)
  | _ => none

def Task.spawning : Task → Option (Spawn × Sid) := Task.onOp Op.spawning

theorem Op.spawning_step {env : Env} {sh sh' : Shared} {c : Choice} {op op' : Op} {ops : List Op}
    {sids : List Sid} (h : op.step env sh c = some (sh', op', ops, sids)) :
    (∀ o ∈ ops, o.spawning = none) ∧
    ∀ sp sid, op'.spawning = some (sp, sid) →
      op.spawning = some (sp, sid) ∨ op = .spawn sp ∧ sid = sh.heap.length := by
  obtain ⟨hgo, hops⟩ := flow_step h
  clear h
  refine ⟨fun o ho => ?_, fun sp sid hs => ?_⟩
  · obtain ⟨name, old, -, rfl⟩ := hops o ho
    rfl
  cases hgo with
  | spawned sp =>
    cases hs
    exact .inr ⟨rfl, rfl⟩
  | minted => exact .inl hs
  | _ => cases hs

/-- Only a spawn that has just allocated its session, or went on from there, is spawning. -/
theorem Task.spawning_step {env : Env} {sh sh' : Shared} {c : Input} {t t' : Task}
    {new : List Task} (h : Task.step env sh t c = some (sh', t', new)) :
    (∀ u ∈ new, u.spawning = none) ∧
    ∀ a, t'.spawning = some a →
      t.spawning = some a ∨ t = .op (.spawn a.1) ∧ a.2 = sh.heap.length := by
  refine onOp_step h (fun _ => rfl) fun op op' ops sids ht hop => ?_
  obtain ⟨hops, hop'⟩ := Op.spawning_step hop
  refine ⟨hops, fun a ha => ?_⟩
  subst ht
  rcases hop' a.1 a.2 ha with hkeep | ⟨rfl, hsid⟩
  · exact .inl hkeep
  · exact .inr ⟨rfl, hsid⟩

/-- No request is a spawn that has its session already. -/
theorem Task.spawning_entry {t : Task} (h : t.entry = true) : t.spawning = none := by
  cases t with
  | op o => cases o <;> first | rfl | cases h
  | conn o => rfl
  | pump o => rfl

/-! ## Sections that keep the map -/

/-- The name whose map entry a section removes or replaces. -/
def Op.replaces : Op → Option SessionName
  | .publish sp _ _ => some sp.name
  | .restartForget name _ => some name
  | .forget td _ => some td.name
  | _ => none

namespace Shared

/-- A step that leaves the map alone and publishes nothing; sessions may die. -/
structure KeepsMap (sh sh' : Shared) : Prop where
  sessions : sh'.sessions = sh.sessions
  length : sh'.heap.length = sh.heap.length
  name : ∀ sid, sh'.name? sid = sh.name? sid
  published : ∀ sid, sh'.published sid = sh.published sid
  alive : ∀ sid, sh'.isAlive sid = true → sh.isAlive sid = true

variable {sh sh' : Shared}

theorem Steady.keepsMap (h : sh.Steady sh') : sh.KeepsMap sh' where
  sessions := h.sessions
  length := h.length
  name sid := by rw [name?_eq_life, name?_eq_life, h.life]
  published sid := by
    rcases h.history with heq | ⟨t, alive, heq⟩ <;> rw [published, heq] <;> rfl
  alive sid ha := by rwa [← h.isAlive]

/-- A change of one session that keeps its name and wakes nobody from the dead. -/
theorem keepsMap_modify (sh : Shared) (sid : Sid) {f : Session → Session}
    (hname : ∀ s, (f s).name = s.name) (halive : ∀ s, (f s).io.alive = true → s.io.alive = true) :
    sh.KeepsMap (sh.modify sid f) where
  sessions := rfl
  length := sh.modify_heap_length sid f
  name t := by
    simp only [name?, heap_modify]
    split
    · cases sh.heap[t]? with
      | none => rfl
      | some s => exact congrArg some (hname s)
    · rfl
  published _ := rfl
  alive t ha := by
    simp only [isAlive, heap_modify] at ha ⊢
    split at ha
    · cases hs : sh.heap[t]? with
      | none => simp [hs] at ha
      | some s =>
        rw [hs] at ha
        exact halive s ha
    · exact ha

theorem keepsMap_of_eq (hsessions : sh'.sessions = sh.sessions) (hheap : sh'.heap = sh.heap)
    (hpublished : ∀ sid, sh'.published sid = sh.published sid) : sh.KeepsMap sh' where
  sessions := hsessions
  length := by rw [hheap]
  name sid := by rw [name?, name?, hheap]
  published := hpublished
  alive sid ha := by rwa [isAlive, ← hheap]

theorem KeepsMap.trans {sh'' : Shared} (h : sh.KeepsMap sh') (h' : sh'.KeepsMap sh'') :
    sh.KeepsMap sh'' where
  sessions := h'.sessions.trans h.sessions
  length := h'.length.trans h.length
  name sid := (h'.name sid).trans (h.name sid)
  published sid := (h'.published sid).trans (h.published sid)
  alive sid ha := h.alive sid (h'.alive sid ha)

end Shared

/-- Only a spawn, a `forget` and `publish` change what the map and the history say. -/
theorem Op.step_keepsMap {env : Env} {sh sh' : Shared} {c : Choice} {op op' : Op} {ops : List Op}
    {sids : List Sid} (h : op.step env sh c = some (sh', op', ops, sids))
    (hreplaces : op.replaces = none) (hspawn : ∀ sp, op ≠ .spawn sp) : sh.KeepsMap sh' := by
  by_cases hq : op.quiet = true
  · exact (step_quiet hq h).1.steady.keepsMap
  cases op <;> simp only [quiet, not_true_eq_false] at hq <;>
    simp only [replaces, reduceCtorEq] at hreplaces <;> simp only [step] at h
  case spawn sp => exact absurd rfl (hspawn sp)
  case claimName sp =>
    rcases sh.claimName_cases env.config.maxSessions sp.name with
      ⟨claimed, error, heq, -⟩ | ⟨heq, -⟩ <;> rw [heq] at h <;> cases h <;>
      exact Shared.keepsMap_of_eq rfl rfl fun _ => rfl
  case mint | renewMint =>
    split at h <;> cases h <;> exact Shared.keepsMap_of_eq rfl rfl fun _ => rfl
  case dropClaim | teardownRevoke | rememberDead | beginDrain =>
    cases h
    exact Shared.keepsMap_of_eq rfl rfl fun _ => rfl
  case restartTombstone name =>
    rcases sh.takeTombstone_cases name with heq | ⟨dead, -, heq⟩ <;> rw [heq] at h <;> cases h
    · exact (Shared.Steady.refl sh).keepsMap
    · exact Shared.keepsMap_of_eq rfl rfl fun _ => rfl
  case teardownLock td =>
    obtain ⟨s, -, heq⟩ := Option.map_eq_some_iff.mp h
    cases heq
    exact sh.keepsMap_modify td.sid (fun _ => rfl) fun _ ha => absurd ha Bool.false_ne_true
  case teardownClear td report =>
    cases h
    exact (sh.keepsMap_modify td.sid (f := Session.clearBuffer) (fun _ => rfl) fun _ ha => ha).trans
      (Shared.keepsMap_of_eq rfl rfl fun _ => rfl)
  case renewLock name sid =>
    obtain ⟨s, -, heq⟩ := Option.map_eq_some_iff.mp h
    cases heq
    exact (sh.keepsMap_modify sid (f := fun s => s.renewLocked.1) (fun _ => rfl)
      fun _ ha => ha).trans
      (Shared.keepsMap_of_eq rfl rfl fun _ => rfl)
  case returned => cases h

/-! ## The sections that change the map -/

namespace Shared

variable (sh : Shared) (sp : Spawn) (sid t : Sid) (name other : SessionName)

/-- The state after `publish`. -/
def publishNoted (sh : Shared) (sp : Spawn) (sid : Sid) : Shared :=
  (sh.publish sp.name sid).1.note (.published sp.name sid sp.generation)

@[simp] theorem published_publishNoted :
    (sh.publishNoted sp sid).published t = (decide (sid = t) || sh.published t) := rfl

theorem sessions_publishNoted :
    (sh.publishNoted sp sid).sessions[name]? =
      if sp.name = name then some sid else sh.sessions[name]? := by
  show (sh.sessions.insert sp.name sid)[name]? = _
  rw [Std.TreeMap.getElem?_insert]
  by_cases h : sp.name = name
  · rw [if_pos h, if_pos (h ▸ Std.ReflOrd.compare_self)]
  · rw [if_neg h, if_neg fun heq => h (Std.LawfulEqOrd.eq_of_compare heq)]

theorem sessions_forget :
    (sh.forget name).sessions[other]? = if name = other then none else sh.sessions[other]? := by
  show (sh.sessions.erase name)[other]? = _
  rw [Std.TreeMap.getElem?_erase]
  by_cases h : name = other
  · rw [if_pos h, if_pos (h ▸ Std.ReflOrd.compare_self)]
  · rw [if_neg h, if_neg fun heq => h (Std.LawfulEqOrd.eq_of_compare heq)]

end Shared

end OpenabPty
