import OpenabPty.Sections

/-!
# Facts of every run

What holds whatever the schedule is: the map holds published sessions under their names, the
two alive flags agree, events name their sessions right, and every section works on a session
that was published under the name the section has, except for the spawn, which alone knows
its session until `publish`.
-/

namespace OpenabPty

/-! ## The sessions a task works on -/

/-- The sessions an operation works on, with the name it has for them. -/
def Op.named : Op → List (SessionName × Sid)
  | .restartGeneration name sid | .restartIsAlive name sid _ | .selfExitIsAlive name sid
  | .renewIsAlive name sid | .renewLock name sid | .renewClose name sid _ _
  | .renewMint name sid _ => [(name, sid)]
  | .teardownLock td => [(td.name, td.sid)]
  | .teardownRevoke td report _ | .teardownClose td report _ | .teardownClear td report
  | .forget td report | .deadGeneration td report | .rememberDead td report _ =>
    [(td.name, td.sid), (report.session, td.sid)]
  | _ => []

/-- What is left of the snapshot a loop over the sessions works on. -/
def Caller.rest : Caller → List Sid
  | .tick loop _ => loop.rest
  | .shutdown loop => loop.rest
  | _ => []

/-- The sessions an operation has yet to look at. -/
def Op.rest : Op → List Sid
  | .teardownLock td | .teardownRevoke td _ _ | .teardownClose td _ _ | .teardownClear td _
  | .forget td _ | .deadGeneration td _ | .rememberDead td _ _ => td.caller.rest
  | .tickNext loop | .tickWarn loop _ _ _ _ | .tickPush loop _ _ _ _ _ => loop.rest
  | .shutdownNext loop => loop.rest
  | _ => []

/-- The session a connection works on before it holds it. -/
def Conn.named : Conn → List (SessionName × Sid)
  | .handlerGeneration _ name sid => [(name, sid)]
  | .isAlive a sid | .lock a sid _ => [(a.name, sid)]
  | _ => []

def Task.named : Task → List (SessionName × Sid)
  | .op o => o.named
  | .conn o => o.named
  | .pump _ => []

def Task.rest : Task → List Sid
  | .op o => o.rest
  | _ => []

/-- The session that a teardown has marked dead. -/
def Op.torn : Op → Option Sid
  | .teardownRevoke td _ _ | .teardownClose td _ _ | .teardownClear td _ | .forget td _
  | .deadGeneration td _ | .rememberDead td _ _ => some td.sid
  | _ => none

def Task.torn : Task → Option Sid := Task.onOp Op.torn

/-- The session a task is spawning. -/
def Task.spawningSid (t : Task) : Option Sid := t.spawning.map (·.2)

theorem Shared.mem_sessionValues {sh : Shared} {sid : Sid} (h : sid ∈ sh.sessionValues) :
    ∃ name : SessionName, sh.sessions[name]? = some sid := by
  obtain ⟨⟨name, sid⟩, hmem, rfl⟩ := List.mem_map.mp h
  exact ⟨name, Std.TreeMap.mem_toList_iff_getElem?_eq_some.mp hmem⟩

theorem Shared.name?_eq {sh : Shared} {sid : Sid} {s : Session} (hs : sh.heap[sid]? = some s) :
    sh.name? sid = some s.name := by rw [name?, hs]; rfl

section Op

variable {env : Env} {sh sh' : Shared} {c : Choice} {op op' : Op} {ops : List Op}
  {sids : List Sid}

/-- A loop only looks at sessions of its snapshot of the map. -/
theorem Op.rest_step (h : op.step env sh c = some (sh', op', ops, sids)) :
    (∀ o ∈ ops, o.rest = []) ∧
    ∀ sid ∈ op'.rest, sid ∈ op.rest ∨ ∃ name : SessionName, sh.sessions[name]? = some sid := by
  obtain ⟨hgo, hops⟩ := flow_step h
  clear h
  refine ⟨fun o ho => ?_, fun sid hsid => ?_⟩
  · obtain ⟨name, old, -, rfl⟩ := hops o ho
    rfl
  cases hgo with
  | tickSnapshot | shutdownSnapshot => exact .inr (Shared.mem_sessionValues hsid)
  | tickPassed | tickWarned | tickExpired | shutdownNext => exact .inl (List.mem_cons_of_mem _ hsid)
  | tickSubscriber | tickPushed | markedDead | deadAlready | revoked | closed | torn | forgotten
  | forgottenBySelfExit | deadGeneration => exact .inl hsid
  | forgottenByShutdown td report loop hcaller | rememberedByTick td report _ loop _ hcaller =>
    left
    show sid ∈ td.caller.rest
    rw [hcaller]
    exact hsid
  | _ => cases hsid

/-- An operation gets at a session through the map, or through its snapshot of it. -/
theorem Op.named_step (h : op.step env sh c = some (sh', op', ops, sids)) :
    (∀ o ∈ ops, ∀ p ∈ o.named, sh.sessions[p.1]? = some p.2) ∧
    ∀ p ∈ op'.named, p ∈ op.named ∨ sh.sessions[p.1]? = some p.2 ∨
      (p.2 ∈ op.rest ∨ ∃ name, (name, p.2) ∈ op.named) ∧ sh.name? p.2 = some p.1 := by
  obtain ⟨hgo, hops⟩ := flow_step h
  clear h
  refine ⟨fun o ho p hp => ?_, fun p hp => ?_⟩
  · obtain ⟨name, old, hold, rfl⟩ := hops o ho
    obtain rfl := List.mem_singleton.mp hp
    exact hold
  cases hgo with
  | restart name sid hm | kill name sid hm | selfExit name sid hm | renew name sid hm =>
    obtain rfl := List.mem_singleton.mp hp
    exact .inr (.inl hm)
  | markedDead td s hs | deadAlready td s hs =>
    rcases List.mem_cons.mp hp with rfl | hp
    · exact .inl List.mem_cons_self
    · obtain rfl := List.mem_singleton.mp hp
      exact .inr (.inr ⟨.inr ⟨td.name, List.mem_cons_self⟩, Shared.name?_eq hs⟩)
  | tickExpired now sid rest actions s _ hs | shutdownNext sid rest reports s hs =>
    obtain rfl := List.mem_singleton.mp hp
    exact .inr (.inr ⟨.inl List.mem_cons_self, Shared.name?_eq hs⟩)
  | restartGeneration | restartAlive | selfExitAlive | renewAlive | renewLocked | renewClosed
  | revoked | closed | torn | forgotten | forgottenBySelfExit | deadGeneration => exact .inl hp
  | _ => exact absurd hp List.not_mem_nil

/-- A session is marked dead by the first section of a teardown. -/
theorem Op.torn_step (h : op.step env sh c = some (sh', op', ops, sids)) :
    (∀ o ∈ ops, o.torn = none) ∧
    ∀ sid, op'.torn = some sid → op.torn = some sid ∨ ∃ td, op = .teardownLock td ∧ sid = td.sid := by
  obtain ⟨hgo, hops⟩ := flow_step h
  clear h
  refine ⟨fun o ho => ?_, fun sid hs => ?_⟩
  · obtain ⟨name, old, -, rfl⟩ := hops o ho
    rfl
  cases hgo with
  | markedDead td | deadAlready td =>
    cases hs
    exact .inr ⟨td, rfl, rfl⟩
  | revoked | closed | torn | forgotten | forgottenBySelfExit | deadGeneration => exact .inl hs
  | _ => cases hs

end Op

theorem Conn.named_step {env : Env} {sh sh' : Shared} {e : Arrival} {o o' : Conn}
    (h : o.step env sh e = some (sh', o')) :
    ∀ p ∈ o'.named, p ∈ o.named ∨ sh.sessions[p.1]? = some p.2 := by
  cases o
  case reading a r pc =>
    obtain ⟨⟨sh₁, next⟩, -, heq⟩ := Option.map_eq_some_iff.mp h
    cases next <;> cases heq <;> exact fun p hp => absurd hp List.not_mem_nil
  case exiting a sid conn exit => cases exit <;> grind [step, named]
  all_goals grind [step, named, afterNotice]

/-- What the tasks of a step work on. -/
theorem Task.named_step {env : Env} {sh sh' : Shared} {t t' : Task} {c : Input} {new : List Task}
    (h : Task.step env sh t c = some (sh', t', new)) :
    (∀ u ∈ new, u.rest = [] ∧ ∀ p ∈ u.named, sh.sessions[p.1]? = some p.2) ∧
    (∀ sid ∈ t'.rest, sid ∈ t.rest ∨ ∃ name : SessionName, sh.sessions[name]? = some sid) ∧
    ∀ p ∈ t'.named, p ∈ t.named ∨ sh.sessions[p.1]? = some p.2 ∨
      (p.2 ∈ t.rest ∨ ∃ name, (name, p.2) ∈ t.named) ∧ sh.name? p.2 = some p.1 := by
  rcases step_cases h with ⟨op, op', ops, sids, rfl, hop, rfl, rfl⟩ | ⟨o, o', rfl, hconn, rfl, rfl⟩ |
    ⟨pump, rfl, hpump, rfl⟩
  · obtain ⟨hnew, hnamed⟩ := Op.named_step hop
    obtain ⟨hnew', hrest⟩ := Op.rest_step hop
    refine ⟨fun u hu => ?_, hrest, hnamed⟩
    rcases List.mem_append.mp hu with hu | hu
    · obtain ⟨o, ho, rfl⟩ := List.mem_map.mp hu
      exact ⟨hnew' o ho, hnew o ho⟩
    · obtain ⟨sid, -, rfl⟩ := List.mem_map.mp hu
      exact ⟨rfl, fun p hp => absurd hp List.not_mem_nil⟩
  · refine ⟨fun u hu => absurd hu List.not_mem_nil, fun sid hs => absurd hs List.not_mem_nil,
      fun p hp => ?_⟩
    rcases Conn.named_step hconn p hp with hsame | hm
    · exact .inl hsame
    · exact .inr (.inl hm)
  · refine ⟨fun u hu => absurd hu List.not_mem_nil, fun sid hs => ?_, fun p hp => ?_⟩ <;>
      rcases Pump.step_task hpump with ⟨pump', rfl⟩ | ⟨sid', rfl⟩
    · exact absurd hs List.not_mem_nil
    · exact absurd hs List.not_mem_nil
    · exact absurd hp List.not_mem_nil
    · exact absurd hp List.not_mem_nil

theorem Task.torn_step {env : Env} {sh sh' : Shared} {t t' : Task} {c : Input} {new : List Task}
    (h : Task.step env sh t c = some (sh', t', new)) :
    (∀ u ∈ new, u.torn = none) ∧
    ∀ sid, t'.torn = some sid →
      t.torn = some sid ∨ ∃ td, t = .op (.teardownLock td) ∧ sid = td.sid := by
  refine onOp_step h (fun _ => rfl) fun op op' ops sids ht hop => ?_
  obtain ⟨hnew, htorn⟩ := Op.torn_step hop
  subst ht
  refine ⟨hnew, fun sid hs => ?_⟩
  rcases htorn sid hs with hsame | ⟨td, rfl, hsid⟩
  · exact .inl hsame
  · exact .inr ⟨td, rfl, hsid⟩

/-- A teardown knows the name of the session it has marked dead. -/
theorem Task.named_of_torn {t : Task} {sid : Sid} (h : t.torn = some sid) :
    ∃ name, (name, sid) ∈ t.named := by
  cases t with
  | op o =>
    cases o <;> cases h <;> exact ⟨_, List.mem_cons_self⟩
  | conn o => cases h
  | pump o => cases h

/-- A request works on no session yet. -/
theorem Task.named_entry {t : Task} (h : t.entry = true) :
    t.named = [] ∧ t.rest = [] ∧ t.torn = none := by
  cases t with
  | op o => cases o <;> first | exact ⟨rfl, rfl, rfl⟩ | cases h
  | conn o => cases o <;> first | exact ⟨rfl, rfl, rfl⟩ | cases h
  | pump o => exact ⟨rfl, rfl, rfl⟩

/-! ## The invariant -/

namespace Shared

/-- The life of a session until it is published. -/
def unborn (sp : Spawn) : Session.Life :=
  { name := sp.name, generation := sp.generation, alive := true, ioAlive := true }

/-- The map, the flags and the history agree with the heap. -/
structure Registered (sh : Shared) : Prop where
  allocated : ∀ sid, sh.published sid = true → sid < sh.heap.length
  mapped : ∀ (name : SessionName) sid, sh.sessions[name]? = some sid →
    sh.published sid = true ∧ sh.name? sid = some name
  minted : ∀ name sid stored, .minted name sid stored ∈ sh.history → sh.name? sid = some name
  lives : ∀ sid life, sh.life? sid = some life → life.alive = life.ioAlive
  cleared : ∀ sid, .cleared sid ∈ sh.history →
    sh.published sid = true ∧ sh.isAlive sid = false

theorem Registered.alive_eq {sh : Shared} (h : sh.Registered) {sid : Sid} {s : Session}
    (hs : sh.heap[sid]? = some s) : s.state.alive = s.io.alive := by
  refine h.lives sid s.life ?_
  rw [life?, hs]
  rfl

/-- A task works on published sessions under their names, but for the one it is spawning, and
a teardown past its first section on a dead one. -/
structure Sound (sh : Shared) (t : Task) : Prop where
  spawning : ∀ sp sid, t.spawning = some (sp, sid) →
    sh.life? sid = some (unborn sp) ∧ sh.published sid = false
  named : ∀ p ∈ t.named, sh.published p.2 = true ∧ sh.name? p.2 = some p.1
  rest : ∀ sid ∈ t.rest, sh.published sid = true
  torn : ∀ sid, t.torn = some sid → sh.isAlive sid = false

/-- What any step does to the sessions: they keep their names, dead ones stay dead, and one
that is not published yet is left alone; `born` is published. -/
structure Evolves (sh sh' : Shared) (born : Option Sid) : Prop where
  name : ∀ sid n, sh.name? sid = some n → sh'.name? sid = some n
  published : ∀ sid, sh.published sid = true → sh'.published sid = true
  born : ∀ sid, sh'.published sid = true → sh.published sid = true ∨ born = some sid
  unborn : ∀ sid life, sh.published sid = false → sh.life? sid = some life →
    sh'.life? sid = some life
  dead : ∀ sid, sid < sh.heap.length → sh'.isAlive sid = true → sh.isAlive sid = true

theorem Evolves.dead_of_named {sh sh' : Shared} {born : Option Sid} (h : sh.Evolves sh' born)
    {sid : Sid} {name : SessionName} (hn : sh.name? sid = some name)
    (hdead : sh.isAlive sid = false) : sh'.isAlive sid = false := by
  obtain ⟨life, hlife, -⟩ := Option.map_eq_some_iff.mp (name?_eq_life sh sid ▸ hn)
  exact Bool.eq_false_iff.mpr fun ha =>
    absurd (h.dead sid (lt_of_life? hlife) ha) (Bool.eq_false_iff.mp hdead)

/-- A step under which no session is published. -/
theorem Evolves.childless {sh sh' : Shared} {p : Sid → Prop} (h : sh.Evolves sh' none) :
    ∃ born, sh.Evolves sh' born ∧ ∀ sid, born = some sid → p sid :=
  ⟨none, h, fun sid e => absurd e (Option.some_ne_none sid).symm⟩

/-- A step that leaves the map and the lifecycles alone, and notes no more than an attach. -/
structure SameLives (sh sh' : Shared) : Prop where
  sessions : sh'.sessions = sh.sessions
  length : sh'.heap.length = sh.heap.length
  life : ∀ sid, sh'.life? sid = sh.life? sid
  history : sh'.history = sh.history ∨
    ∃ sid alive, sh'.history = Event.attached sid alive :: sh.history

variable {sh sh' : Shared} {t : Task}

theorem Steady.sameLives (h : sh.Steady sh') : sh.SameLives sh' :=
  ⟨h.sessions, h.length, h.life, h.history⟩

namespace SameLives

theorem name (h : sh.SameLives sh') (sid : Sid) : sh'.name? sid = sh.name? sid := by
  rw [name?_eq_life, name?_eq_life, h.life]

theorem alive (h : sh.SameLives sh') (sid : Sid) : sh'.isAlive sid = sh.isAlive sid := by
  rw [isAlive_eq_life, isAlive_eq_life, h.life]

theorem published (h : sh.SameLives sh') (sid : Sid) : sh'.published sid = sh.published sid := by
  rcases h.history with heq | ⟨t, alive, heq⟩ <;> rw [Shared.published, heq] <;> rfl

theorem mem_history (h : sh.SameLives sh') {e : Event} (he : ∀ sid alive, e ≠ .attached sid alive) :
    e ∈ sh'.history ↔ e ∈ sh.history := by
  rcases h.history with heq | ⟨t, alive, heq⟩ <;> rw [heq]
  exact ⟨fun hm => (List.mem_cons.mp hm).resolve_left (he t alive), List.mem_cons_of_mem _⟩

theorem evolves (h : sh.SameLives sh') : sh.Evolves sh' none where
  name sid _ hn := (h.name sid).trans hn
  published sid hp := (h.published sid).trans hp
  born sid hp := .inl (h.published sid ▸ hp)
  unborn sid _ _ hl := (h.life sid).trans hl
  dead sid _ ha := h.alive sid ▸ ha

end SameLives

theorem Registered.same (h : sh.Registered) (hs : sh.SameLives sh') : sh'.Registered where
  allocated sid hp := by
    rw [hs.length]
    exact h.allocated sid (hs.published sid ▸ hp)
  mapped name sid hm := by
    rw [hs.sessions] at hm
    rw [hs.published, hs.name]
    exact h.mapped name sid hm
  minted name sid stored hm := by
    rw [hs.mem_history fun _ _ => Event.noConfusion] at hm
    rw [hs.name]
    exact h.minted name sid stored hm
  lives sid life hl := h.lives sid life (hs.life sid ▸ hl)
  cleared sid hm := by
    rw [hs.mem_history fun _ _ => Event.noConfusion] at hm
    rw [hs.published, hs.alive]
    exact h.cleared sid hm

theorem Sound.same (h : sh.Sound t) (hs : sh.SameLives sh') : sh'.Sound t where
  spawning sp sid ht := by
    rw [hs.life, hs.published]
    exact h.spawning sp sid ht
  named p hp := by
    rw [hs.published, hs.name]
    exact h.named p hp
  rest sid hr := by
    rw [hs.published]
    exact h.rest sid hr
  torn sid ht := by
    rw [hs.alive]
    exact h.torn sid ht

theorem lt_of_name? {sid : Sid} {name : SessionName} (h : sh.name? sid = some name) :
    sid < sh.heap.length := by
  obtain ⟨life, hlife, -⟩ := Option.map_eq_some_iff.mp (name?_eq_life sh sid ▸ h)
  exact lt_of_life? hlife

/-- The task that moved is left sound by a step that evolves the sessions, up to its spawn and
its teardown. -/
theorem sound_named (hI : sh.Registered) (hA : sh.Sound t) {born : Option Sid}
    (hev : sh.Evolves sh' born) {p : SessionName × Sid}
    (hp : p ∈ t.named ∨ sh.sessions[p.1]? = some p.2 ∨
      (p.2 ∈ t.rest ∨ ∃ name, (name, p.2) ∈ t.named) ∧ sh.name? p.2 = some p.1) :
    sh'.published p.2 = true ∧ sh'.name? p.2 = some p.1 := by
  rcases hp with hp | hm | ⟨hold, hn⟩
  · obtain ⟨hpub, hn⟩ := hA.named p hp
    exact ⟨hev.published _ hpub, hev.name _ _ hn⟩
  · obtain ⟨hpub, hn⟩ := hI.mapped p.1 p.2 hm
    exact ⟨hev.published _ hpub, hev.name _ _ hn⟩
  · refine ⟨hev.published _ ?_, hev.name _ _ hn⟩
    rcases hold with hr | ⟨name, hp⟩
    · exact hA.rest _ hr
    · exact (hA.named _ hp).1

/-- A task that did not move stays sound, unless its session was published. -/
theorem Sound.evolve (hA : sh.Sound t) (hI : sh.Registered) {born : Option Sid}
    (hev : sh.Evolves sh' born) (hborn : ∀ sid, born = some sid → t.spawningSid ≠ some sid) :
    sh'.Sound t where
  spawning sp sid ht := by
    obtain ⟨hlife, hp⟩ := hA.spawning sp sid ht
    refine ⟨hev.unborn sid _ hp hlife, Bool.eq_false_iff.mpr fun hp' => ?_⟩
    rcases hev.born sid hp' with hold | hb
    · rw [hp] at hold
      cases hold
    · exact hborn sid hb (by rw [Task.spawningSid, ht]; rfl)
  named p hp := sound_named hI hA hev (.inl hp)
  rest sid hr := hev.published sid (hA.rest sid hr)
  torn sid ht := by
    obtain ⟨name, hp⟩ := Task.named_of_torn ht
    exact hev.dead_of_named (hA.named _ hp).2 (hA.torn sid ht)

end Shared

/-! ## One step -/

namespace Shared

variable {sh sh' : Shared} {sid : Sid} {f : Session → Session}

theorem evolves_of_heap (hheap : sh'.heap = sh.heap)
    (hpublished : ∀ sid, sh'.published sid = sh.published sid) : sh.Evolves sh' none where
  name sid _ hn := by rw [name?, hheap]; exact hn
  published sid hp := (hpublished sid).trans hp
  born sid hp := .inl (hpublished sid ▸ hp)
  unborn sid _ _ hl := by rw [life?, hheap]; exact hl
  dead sid _ ha := by rwa [isAlive, hheap] at ha

/-- A change of a published session that keeps its name and wakes nobody from the dead. -/
theorem evolves_modify (hp : sh.published sid = true) (hname : ∀ s, (f s).name = s.name)
    (halive : ∀ s, (f s).io.alive = true → s.io.alive = true) :
    sh.Evolves (sh.modify sid f) none where
  name t n hn := ((sh.keepsMap_modify sid hname halive).name t).trans hn
  published _ hp := hp
  born _ hp := .inl hp
  unborn t life ht hl := by
    rw [life_modify, if_neg, hl]
    rintro rfl
    rw [hp] at ht
    cases ht
  dead t _ ha := (sh.keepsMap_modify sid hname halive).alive t ha

theorem Registered.modify (h : sh.Registered) (sid : Sid) (hname : ∀ s, (f s).name = s.name)
    (halive : ∀ s, (f s).io.alive = true → s.io.alive = true)
    (hlives : ∀ s : Session, s.life.alive = s.life.ioAlive → (f s).life.alive = (f s).life.ioAlive) :
    (sh.modify sid f).Registered where
  allocated t hp := by
    rw [modify_heap_length]
    exact h.allocated t hp
  mapped name t hm := by
    obtain ⟨hp, hn⟩ := h.mapped name t hm
    exact ⟨hp, ((sh.keepsMap_modify sid hname halive).name t).trans hn⟩
  minted name t stored hm :=
    ((sh.keepsMap_modify sid hname halive).name t).trans (h.minted name t stored hm)
  lives t life hl := by
    rw [life_modify] at hl
    split at hl
    · obtain ⟨s, hs, rfl⟩ := Option.map_eq_some_iff.mp hl
      exact hlives s (h.lives t _ (by rw [life?, hs]; rfl))
    · exact h.lives t life hl
  cleared t hm := by
    obtain ⟨hp, hdead⟩ := h.cleared t hm
    exact ⟨hp, Bool.eq_false_iff.mpr fun ha => absurd
      ((sh.keepsMap_modify sid hname halive).alive t ha) (Bool.eq_false_iff.mp hdead)⟩

theorem Registered.note_minted (h : sh.Registered) {name : SessionName} (tokens : TokenEntries)
    (stored : StoredAttachToken) (hn : sh.name? sid = some name) :
    (({ sh with tokens := tokens }).note (.minted name sid stored)).Registered where
  allocated := h.allocated
  mapped := h.mapped
  minted n t st hm := by
    rcases List.mem_cons.mp hm with heq | hm
    · cases heq
      exact hn
    · exact h.minted n t st hm
  lives := h.lives
  cleared t hm := by
    rcases List.mem_cons.mp hm with heq | hm
    · cases heq
    · exact h.cleared t hm

/-- An event that says nothing about mints, publications and clears. -/
theorem Registered.note (h : sh.Registered) {e : Event}
    (hpublished : ∀ sid, (sh.note e).published sid = sh.published sid)
    (hminted : ∀ name sid stored, e ≠ .minted name sid stored)
    (hcleared : ∀ sid, e = .cleared sid → sh.published sid = true ∧ sh.isAlive sid = false) :
    (sh.note e).Registered where
  allocated t hp := h.allocated t (hpublished t ▸ hp)
  mapped name t hm := by
    rw [hpublished]
    exact h.mapped name t hm
  minted n t st hm := by
    rcases List.mem_cons.mp hm with heq | hm
    · exact absurd heq.symm (hminted n t st)
    · exact h.minted n t st hm
  lives := h.lives
  cleared t hm := by
    rw [hpublished]
    rcases List.mem_cons.mp hm with heq | hm
    · exact hcleared t heq.symm
    · exact h.cleared t hm

/-! ### The sections that change the map -/

theorem heap_allocate_of_lt (sh : Shared) (env : Env) (name : SessionName) (generation : Generation)
    (size : WindowSize) {sid : Sid} (h : sid < sh.heap.length) :
    (sh.allocate env name generation size).1.heap[sid]? = sh.heap[sid]? := by
  rw [heap_allocate, if_neg (Nat.ne_of_lt h)]

theorem evolves_allocate (sh : Shared) (env : Env) (name : SessionName)
    (generation : Generation) (size : WindowSize) :
    sh.Evolves (sh.allocate env name generation size).1 none where
  name sid n hn := by
    rw [name?, heap_allocate_of_lt sh env _ _ _ (lt_of_name? hn)]
    exact hn
  published _ hp := hp
  born _ hp := .inl hp
  unborn sid life _ hl := by
    rw [life?, heap_allocate_of_lt sh env _ _ _ (lt_of_life? hl)]
    exact hl
  dead sid hlt ha := by rwa [isAlive, heap_allocate_of_lt sh env _ _ _ hlt] at ha

theorem Registered.allocate (h : sh.Registered) (env : Env) (name : SessionName)
    (generation : Generation) (size : WindowSize) :
    (sh.allocate env name generation size).1.Registered := by
  have hev := sh.evolves_allocate env name generation size
  refine ⟨fun sid hp => ?_, fun n sid hm => ?_, fun n sid st hm => hev.name _ _ (h.minted n sid st hm),
    fun sid life hl => ?_, fun sid hm => ?_⟩
  · have hlt := h.allocated sid hp
    simp only [Shared.allocate, List.length_append, List.length_singleton]
    exact Nat.lt_succ_of_lt hlt
  · obtain ⟨hp, hn⟩ := h.mapped n sid hm
    exact ⟨hp, hev.name _ _ hn⟩
  · rw [life_allocate] at hl
    split at hl
    · cases hl
      rfl
    · exact h.lives sid life hl
  · obtain ⟨hp, hdead⟩ := h.cleared sid hm
    exact ⟨hp, Bool.eq_false_iff.mpr fun ha =>
      absurd (hev.dead sid (h.allocated sid hp) ha) (Bool.eq_false_iff.mp hdead)⟩

/-- A removal from the map. -/
theorem Registered.forget (h : sh.Registered) (name : SessionName) :
    (sh.forget name).Registered where
  allocated := h.allocated
  mapped n sid hm := by
    rw [sessions_forget] at hm
    split at hm
    · cases hm
    · exact h.mapped n sid hm
  minted := h.minted
  lives := h.lives
  cleared := h.cleared

/-- `publish` of a session under its name. -/
theorem Registered.publish (h : sh.Registered) {sp : Spawn} (hname : sh.name? sid = some sp.name) :
    (sh.publishNoted sp sid).Registered where
  allocated t hp := by
    rw [published_publishNoted, Bool.or_eq_true, decide_eq_true_eq] at hp
    rcases hp with rfl | hp
    · exact lt_of_name? hname
    · exact h.allocated t hp
  mapped n t hm := by
    rw [sessions_publishNoted] at hm
    rw [published_publishNoted]
    split at hm
    · rename_i heq
      obtain rfl := Option.some.inj hm
      exact ⟨by simp, heq ▸ hname⟩
    · obtain ⟨hp, hn⟩ := h.mapped n t hm
      exact ⟨by simp [hp], hn⟩
  minted n t st hm := by
    rcases List.mem_cons.mp hm with heq | hm
    · cases heq
    · exact h.minted n t st hm
  lives := h.lives
  cleared t hm := by
    rcases List.mem_cons.mp hm with heq | hm
    · cases heq
    · obtain ⟨hp, hdead⟩ := h.cleared t hm
      exact ⟨by rw [published_publishNoted, hp, Bool.or_true], hdead⟩

end Shared

section Step

open Shared

variable {env : Env} {sh sh' : Shared} {t t' : Task} {c : Input} {new : List Task}

/-- What one step of an operation does to the sessions. -/
theorem Op.registered_step {c : Choice} {op op' : Op} {ops : List Op} {sids : List Sid}
    (h : op.step env sh c = some (sh', op', ops, sids)) (hI : sh.Registered)
    (hA : sh.Sound (.op op)) :
    sh'.Registered ∧ ∃ born, sh.Evolves sh' born ∧
      ∀ sid, born = some sid → ∃ sp token, op = .publish sp sid token := by
  have hsame : sh.SameLives sh' → sh'.Registered ∧ ∃ born, sh.Evolves sh' born ∧
      ∀ sid, born = some sid → ∃ sp token, op = .publish sp sid token := fun hs =>
    ⟨hI.same hs, hs.evolves.childless⟩
  by_cases hq : op.quiet = true
  · exact hsame (step_quiet hq h).1.steady.sameLives
  cases op <;> simp only [quiet, not_true_eq_false] at hq <;> simp only [step] at h
  case claimName sp =>
    rcases sh.claimName_cases env.config.maxSessions sp.name with
      ⟨claimed, error, heq, -⟩ | ⟨heq, -⟩ <;> rw [heq] at h <;> cases h <;>
      exact hsame ⟨rfl, rfl, fun _ => rfl, .inl rfl⟩
  case restartTombstone name =>
    rcases sh.takeTombstone_cases name with heq | ⟨dead, -, heq⟩ <;> rw [heq] at h <;> cases h <;>
      exact hsame ⟨rfl, rfl, fun _ => rfl, .inl rfl⟩
  case dropClaim | teardownRevoke | rememberDead | beginDrain =>
    cases h
    exact hsame ⟨rfl, rfl, fun _ => rfl, .inl rfl⟩
  case returned => cases h
  case mint sp sid =>
    obtain ⟨hlife, -⟩ := hA.spawning sp sid rfl
    split at h <;> cases h
    · exact hsame ⟨rfl, rfl, fun _ => rfl, .inl rfl⟩
    · exact ⟨hI.note_minted _ _ (by rw [name?_eq_life, hlife]; rfl),
        Evolves.childless (evolves_of_heap rfl fun _ => rfl)⟩
  case renewMint name sid generation =>
    obtain ⟨-, hn⟩ := hA.named (name, sid) List.mem_cons_self
    split at h <;> cases h
    · exact hsame ⟨rfl, rfl, fun _ => rfl, .inl rfl⟩
    · exact ⟨(hI.note_minted _ _ hn).note (fun _ => rfl) (fun _ _ _ => Event.noConfusion)
        fun _ => Event.noConfusion, Evolves.childless (evolves_of_heap rfl fun _ => rfl)⟩
  case teardownLock td =>
    obtain ⟨hp, -⟩ := hA.named (td.name, td.sid) List.mem_cons_self
    obtain ⟨s, -, heq⟩ := Option.map_eq_some_iff.mp h
    cases heq
    exact ⟨hI.modify td.sid (fun _ => rfl) (fun _ ha => absurd ha Bool.false_ne_true) fun _ _ => rfl,
      Evolves.childless (evolves_modify hp (fun _ => rfl) fun _ ha => absurd ha Bool.false_ne_true)⟩
  case renewLock name sid =>
    obtain ⟨hp, -⟩ := hA.named (name, sid) List.mem_cons_self
    obtain ⟨s, -, heq⟩ := Option.map_eq_some_iff.mp h
    cases heq
    have hmod : (sh.modify sid fun s => s.renewLocked.1).Registered :=
      hI.modify sid (fun _ => rfl) (fun _ ha => ha) fun _ hl => hl
    have hrev : ({ sh.modify sid (fun s => s.renewLocked.1) with
        tokens := sh.tokens.revokeSession name }).Registered :=
      hmod.same ⟨rfl, rfl, fun _ => rfl, .inl rfl⟩
    have hev := evolves_modify (f := fun s => s.renewLocked.1) hp (fun _ => rfl) fun _ ha => ha
    exact ⟨hrev.note (fun _ => rfl) (fun _ _ _ => Event.noConfusion)
        fun _ => Event.noConfusion,
      Evolves.childless ⟨hev.name, hev.published, hev.born, hev.unborn, hev.dead⟩⟩
  case teardownClear td report =>
    obtain ⟨hp, -⟩ := hA.named (td.name, td.sid) List.mem_cons_self
    have hev := evolves_modify (f := Session.clearBuffer) hp (fun _ => rfl) fun _ ha => ha
    have hdead := hev.dead_of_named (hA.named (td.name, td.sid) List.mem_cons_self).2
      (hA.torn td.sid rfl)
    have hmod : (sh.modify td.sid Session.clearBuffer).Registered :=
      hI.modify td.sid (fun _ => rfl) (fun _ ha => ha) fun _ hl => hl
    cases h
    refine ⟨hmod.note (fun _ => rfl) (fun _ _ _ => Event.noConfusion) fun sid e => ?_,
      Evolves.childless ⟨hev.name, hev.published, hev.born, hev.unborn, hev.dead⟩⟩
    cases e
    exact ⟨hp, hdead⟩
  case spawn sp =>
    split at h <;> cases h
    · exact hsame ⟨rfl, rfl, fun _ => rfl, .inl rfl⟩
    · exact ⟨hI.allocate env _ _ _, (sh.evolves_allocate env _ _ _).childless⟩
  case publish sp sid token =>
    obtain ⟨hlife, -⟩ := hA.spawning sp sid rfl
    cases h
    refine ⟨hI.publish (by rw [name?_eq_life, hlife]; rfl), some sid, ?_,
      fun t e => ⟨sp, token, by rw [Option.some.inj e]⟩⟩
    exact ⟨fun _ _ hn => hn, fun t hp => by
        show (sh.publishNoted sp sid).published t = true
        rw [published_publishNoted, hp, Bool.or_true],
      fun t hp => by
        have hp : (sh.publishNoted sp sid).published t = true := hp
        rw [published_publishNoted, Bool.or_eq_true, decide_eq_true_eq] at hp
        exact hp.symm.imp_right (congrArg some), fun _ _ _ hl => hl, fun _ _ ha => ha⟩
  case restartForget name base =>
    cases h
    exact ⟨hI.forget name, Evolves.childless (evolves_of_heap rfl fun _ => rfl)⟩
  case forget td report =>
    cases h
    exact ⟨hI.forget td.name, Evolves.childless (evolves_of_heap rfl fun _ => rfl)⟩

/-- A spawn that has just allocated its session. -/
theorem Task.spawn_sound (h : Task.step env sh t c = some (sh', t', new)) (hI : sh.Registered)
    {sp sp' : Spawn} {sid : Sid} (ht : t = .op (.spawn sp')) (hs : t'.spawning = some (sp, sid))
    (hsid : sid = sh.heap.length) : sh'.life? sid = some (unborn sp) ∧ sh'.published sid = false := by
  subst ht hsid
  obtain ⟨⟨sh₁, op', ops, sids⟩, hop, heq⟩ := Option.map_eq_some_iff.mp h
  cases heq
  simp only [Op.step] at hop
  split at hop <;> cases hop
  · cases hs
  · obtain ⟨rfl, -⟩ := Prod.mk.inj (Option.some.inj hs)
    refine ⟨?_, Bool.eq_false_iff.mpr fun hp => Nat.lt_irrefl _ (hI.allocated _ hp)⟩
    rw [life_allocate, if_pos rfl]
    rfl

/-- What one step of a task does to the sessions; it publishes no session but its own. -/
theorem Task.evolves_step (h : Task.step env sh t c = some (sh', t', new)) (hI : sh.Registered)
    (hA : sh.Sound t) :
    sh'.Registered ∧ ∃ born, sh.Evolves sh' born ∧
      ∀ sid, born = some sid → ∃ sp token, t = .op (.publish sp sid token) ∧ t'.spawning = none := by
  rcases step_cases h with ⟨op, op', ops, sids, rfl, hop, rfl, rfl⟩ | ⟨o, o', rfl, hconn, rfl, rfl⟩ |
    ⟨pump, rfl, hpump, rfl⟩
  · obtain ⟨hI', born, hev, hborn⟩ := Op.registered_step hop hI hA
    refine ⟨hI', born, hev, fun sid e => ?_⟩
    obtain ⟨sp, token, rfl⟩ := hborn sid e
    cases hop
    exact ⟨sp, token, rfl, rfl⟩
  · have hs := (Conn.step_steady hconn).sameLives
    exact ⟨hI.same hs, hs.evolves.childless⟩
  · have hs := (Pump.step_steady hpump).sameLives
    exact ⟨hI.same hs, hs.evolves.childless⟩

/-- A session that is alive after a step was alive before it, if it was there. -/
theorem Task.isAlive_of_step {sid : Sid} (h : Task.step env sh t c = some (sh', t', new))
    (hI : sh.Registered) (hA : sh.Sound t) (hlt : sid < sh.heap.length)
    (halive : sh'.isAlive sid = true) : sh.isAlive sid = true := by
  obtain ⟨-, born, hev, -⟩ := evolves_step h hI hA
  exact hev.dead sid hlt halive

/-- Only a spawn makes the heap grow. -/
theorem Task.length_step (h : Task.step env sh t c = some (sh', t', new))
    (hspawn : ∀ sp, t ≠ .op (.spawn sp)) : sh'.heap.length = sh.heap.length := by
  rcases step_cases h with ⟨op, op', ops, sids, rfl, hop, rfl, rfl⟩ |
    ⟨conn, conn', rfl, hconn, rfl, rfl⟩ | ⟨pump, rfl, hpump, rfl⟩
  · cases hr : op.replaces with
    | none => exact (Op.step_keepsMap hop hr fun sp e => hspawn sp (congrArg Task.op e)).length
    | some replaced =>
      cases op <;> simp only [Op.replaces, Option.some.injEq, reduceCtorEq] at hr <;>
        simp only [Op.step] at hop <;> cases hop <;> rfl
  · exact (Conn.step_steady hconn).length
  · exact (Pump.step_steady hpump).length

/-- A spawn either fails or allocates one session. -/
theorem Task.spawn_step {sp : Spawn} (h : Task.step env sh (.op (.spawn sp)) c = some (sh', t', new)) :
    (∃ error, c.choice.spawned = .error error ∧ sh' = sh ∧ t'.spawning = none) ∨
    (c.choice.spawned = .ok () ∧ sh'.heap.length = sh.heap.length + 1 ∧
      t'.spawning = some (sp, sh.heap.length)) := by
  obtain ⟨⟨sh₁, op', ops, sids⟩, hop, heq⟩ := Option.map_eq_some_iff.mp h
  cases heq
  simp only [Op.step] at hop
  split at hop
  · rename_i error herror
    cases hop
    exact .inl ⟨error, herror, rfl, rfl⟩
  · rename_i hok
    cases hop
    refine .inr ⟨hok, ?_, rfl⟩
    simp [Shared.allocate]

/-- One step of a task keeps the sessions registered and every task sound. -/
theorem Task.sound_step (h : Task.step env sh t c = some (sh', t', new)) (hI : sh.Registered)
    (hA : sh.Sound t) :
    sh'.Registered ∧ sh'.Sound t' ∧ (∀ u ∈ new, sh'.Sound u) ∧
    ∀ u, sh.Sound u → (∀ k, t.spawningSid = some k → u.spawningSid ≠ some k) → sh'.Sound u := by
  obtain ⟨hI', born, hev, hborn⟩ := evolves_step h hI hA
  obtain ⟨hnew, hrest, hnamed⟩ := named_step h
  obtain ⟨hnewSp, hspawning⟩ := spawning_step h
  obtain ⟨hnewTorn, htorn⟩ := torn_step h
  refine ⟨hI', ⟨fun sp sid hs => ?_, fun p hp => sound_named hI hA hev (hnamed p hp),
    fun sid hr => ?_, fun sid ht => ?_⟩, fun u hu => ⟨fun sp sid hs => ?_,
      fun p hp => sound_named hI hA hev (.inr (.inl ((hnew u hu).2 p hp))), fun sid hr => ?_,
      fun sid ht => ?_⟩, fun u hu hne => hu.evolve hI hev fun sid e => ?_⟩
  · rcases hspawning (sp, sid) hs with hsame | ⟨ht, hsid⟩
    · obtain ⟨hlife, hp⟩ := hA.spawning sp sid hsame
      refine ⟨hev.unborn sid _ hp hlife, Bool.eq_false_iff.mpr fun hp' => ?_⟩
      rcases hev.born sid hp' with hold | hb
      · rw [hp] at hold
        cases hold
      · obtain ⟨sp', token, -, hnone⟩ := hborn sid hb
        rw [hnone] at hs
        cases hs
    · exact spawn_sound h hI ht hs hsid
  · rcases hrest sid hr with hold | ⟨name, hm⟩
    · exact hev.published sid (hA.rest sid hold)
    · exact hev.published sid (hI.mapped name sid hm).1
  · rcases htorn sid ht with hold | ⟨td, ht', rfl⟩
    · obtain ⟨name, hp⟩ := named_of_torn hold
      exact hev.dead_of_named (hA.named _ hp).2 (hA.torn sid hold)
    · subst ht'
      obtain ⟨⟨sh₁, op', ops, sids⟩, hop, heq⟩ := Option.map_eq_some_iff.mp h
      cases heq
      obtain ⟨s, hs, heq⟩ := Option.map_eq_some_iff.mp hop
      cases heq
      show (sh.modify td.sid fun s => (s.teardownLocked td.cls).1).isAlive td.sid = false
      rw [isAlive, heap_modify, if_pos rfl, hs]
      rfl
  · rw [hnewSp u hu] at hs
    cases hs
  · rw [(hnew u hu).1] at hr
    cases hr
  · rw [hnewTorn u hu] at ht
    cases ht
  · obtain ⟨sp, token, rfl, -⟩ := hborn sid e
    exact hne sid rfl

end Step

/-- What holds in every state of every run. -/
abbrev World.Base (w : World) : Prop :=
  Threads.Annotated Shared.Registered Shared.Sound Task.spawningSid w

theorem World.base_init : World.init.Base := by
  refine Threads.Annotated.initial ⟨nofun, fun name sid hm => ?_, nofun, nofun, nofun⟩
  simp [Shared.init] at hm

theorem World.base_next {env : Env} {w w' : World} {l : World.Label} (hI : w.Base)
    (h : World.next env w l = some w') : w'.Base := by
  refine hI.preserved (fun s k => s.heap.length ≤ k) h (fun t _ he => ?_)
    (fun i c t s' t' new hl ht hs hA => ?_) (fun u k hu hfresh huk => ?_) fun e _ => ⟨?_, ?_⟩
  · obtain ⟨hnamed, hrest, htorn⟩ := Task.named_entry he
    refine ⟨⟨fun sp sid hs => ?_, fun p hp => ?_, fun sid hr => ?_, fun sid ht => ?_⟩,
      by rw [Task.spawningSid, Task.spawning_entry he]; rfl⟩
    · rw [Task.spawning_entry he] at hs
      cases hs
    · rw [hnamed] at hp
      cases hp
    · rw [hrest] at hr
      cases hr
    · rw [htorn] at ht
      cases ht
  · obtain ⟨hI', hA', hnew, hothers⟩ := Task.sound_step hs hI.shared hA
    obtain ⟨hnewSp, hspawning⟩ := Task.spawning_step hs
    refine ⟨hI', hA', fun u hu => ⟨hnew u hu, ?_⟩, fun k hk => ?_, fun u _ => hothers u⟩
    · rw [Task.spawningSid, hnewSp u hu]
      rfl
    · obtain ⟨⟨sp, sid⟩, hs', rfl⟩ := Option.map_eq_some_iff.mp hk
      rcases hspawning (sp, sid) hs' with hsame | ⟨-, hsid⟩
      · exact .inl (by rw [Task.spawningSid, hsame]; rfl)
      · exact .inr (Nat.le_of_eq hsid.symm)
  · obtain ⟨⟨sp, sid⟩, hs, rfl⟩ := Option.map_eq_some_iff.mp huk
    exact Nat.not_lt.mpr hfresh (Shared.lt_of_life? (hu.spawning sp sid hs).1)
  · exact hI.shared.same ⟨rfl, rfl, fun _ => rfl, .inl rfl⟩
  · exact fun u _ hu => hu.same ⟨rfl, rfl, fun _ => rfl, .inl rfl⟩

end OpenabPty
