import OpenabPty.Base
import OpenabPty.Ownership

/-!
# What a section does to lives, credentials and scrollbacks

`Op.Effect` is the inversion lemma of `Op.step` for everything that is said about one
incarnation of a session: its lifecycle, the token store, the events that were noted, and the
scrollback. Two thirds of the sections change none of these.
-/

namespace OpenabPty

/-- What the first section of a teardown makes of a lifecycle. -/
def Session.Life.killed (life : Session.Life) : Session.Life :=
  { life with alive := false, ioAlive := false }

/-- What the locked section of a renew makes of a lifecycle. -/
def Session.Life.renewed (life : Session.Life) : Session.Life :=
  { life with generation := life.generation.succ }

namespace Shared

/-- One lifecycle is changed by `g`. -/
def LifeAt (sh sh' : Shared) (sid : Sid) (g : Session.Life → Session.Life) : Prop :=
  ∀ t, sh'.life? t = if sid = t then (sh.life? t).map g else sh.life? t

variable {sh sh' : Shared}

theorem lifeAt_modify (sid : Sid) {f : Session → Session} {g : Session.Life → Session.Life}
    (h : ∀ s : Session, (f s).life = g s.life) : sh.LifeAt (sh.modify sid f) sid g := by
  intro t
  rw [life_modify]
  split
  · simp only [h, life?, Option.map_map]
    rfl
  · rfl

end Shared

/-- The sections that always have an effect; a spawn and a mint may fail. -/
def Op.acts : Op → Bool
  | .publish .. | .teardownLock _ | .teardownRevoke .. | .teardownClear .. | .renewLock .. => true
  | _ => false

theorem Op.acts_of_quiet {op : Op} (h : op.quiet = true) : op.acts = false := by
  cases op <;> first | rfl | cases h

/-- What a section of an operation does, next to what it leaves alone. -/
inductive Op.Effect (env : Env) (sh sh' : Shared) : Op → Op → Prop
  | idle {op op' : Op} (hlife : ∀ t, sh'.life? t = sh.life? t) (htokens : sh'.tokens = sh.tokens)
      (hhistory : sh'.history = sh.history) (hbuffer : ∀ t, sh'.buffer? t = sh.buffer? t)
      (hop : op.acts = false) : Effect env sh sh' op op'
  | spawn {sp : Spawn}
      (hlife : ∀ t, sh'.life? t =
        if t = sh.heap.length then some (Shared.unborn sp) else sh.life? t)
      (htokens : sh'.tokens = sh.tokens) (hhistory : sh'.history = sh.history)
      (hbuffer : ∀ t, t < sh.heap.length → sh'.buffer? t = sh.buffer? t) :
      Effect env sh sh' (.spawn sp) (.mint sp sh.heap.length)
  | mint {sp : Spawn} {sid : Sid} {minted : MintedAttachToken}
      (hlife : ∀ t, sh'.life? t = sh.life? t)
      (htokens : sh'.tokens = sh.tokens.insert sp.name (minted.stored env.sha256))
      (hhistory : sh'.history = .minted sp.name sid (minted.stored env.sha256) :: sh.history)
      (hbuffer : ∀ t, sh'.buffer? t = sh.buffer? t)
      (hgrant : minted.grant = { session := sp.name, generation := sp.generation,
                                 scope := .attachOnly,
                                 expiresAt := sh.now + env.config.attachTokenTtl }) :
      Effect env sh sh' (.mint sp sid) (.publish sp sid minted)
  | publish {sp : Spawn} {sid : Sid} {token : MintedAttachToken}
      (hlife : ∀ t, sh'.life? t = sh.life? t) (htokens : sh'.tokens = sh.tokens)
      (hhistory : sh'.history = .published sp.name sid sp.generation :: sh.history)
      (hbuffer : ∀ t, sh'.buffer? t = sh.buffer? t) :
      Effect env sh sh' (.publish sp sid token)
        (.dropClaim sp.name (.issued { sid := sid, session := sp.name,
                                       generation := sp.generation, token := token }))
  | kill {td : Teardown} {life : Session.Life} {op' : Op} (hlife : sh.life? td.sid = some life)
      (hkill : sh.LifeAt sh' td.sid Session.Life.killed) (hfence : sh.Releases sh' td.sid)
      (htokens : sh'.tokens = sh.tokens) (hhistory : sh'.history = sh.history)
      (hbuffer : ∀ t, sh'.buffer? t = sh.buffer? t)
      (hop' : ∃ report subscriber, report.session = life.name ∧
        report.generation = life.generation ∧
        op' = if life.alive then .teardownRevoke td report subscriber
              else .teardownClose td report subscriber) :
      Effect env sh sh' (.teardownLock td) op'
  | revoke {td : Teardown} {report : TeardownReport} {subscriber : Option ConnGeneration}
      (hlife : ∀ t, sh'.life? t = sh.life? t)
      (htokens : sh'.tokens = sh.tokens.erase report.session)
      (hhistory : sh'.history = sh.history) (hbuffer : ∀ t, sh'.buffer? t = sh.buffer? t) :
      Effect env sh sh' (.teardownRevoke td report subscriber) (.teardownClose td report subscriber)
  | clear {td : Teardown} {report : TeardownReport} {op' : Op}
      (hlife : ∀ t, sh'.life? t = sh.life? t)
      (htokens : sh'.tokens = sh.tokens) (hhistory : sh'.history = .cleared td.sid :: sh.history)
      (hbuffer : ∀ t, sh'.buffer? t =
        if td.sid = t then (sh.buffer? t).map RingBuffer.clear else sh.buffer? t) :
      Effect env sh sh' (.teardownClear td report) op'
  | renew {name : SessionName} {sid : Sid} {life : Session.Life}
      {subscriber : Option ConnGeneration} (hlife : sh.life? sid = some life)
      (hrenew : sh.LifeAt sh' sid Session.Life.renewed)
      (htokens : sh'.tokens = sh.tokens.erase name)
      (hhistory : sh'.history = .renewed name sid life.generation.succ :: sh.history)
      (hbuffer : ∀ t, sh'.buffer? t = sh.buffer? t) :
      Effect env sh sh' (.renewLock name sid)
        (.renewClose name sid life.generation.succ subscriber)
  | renewMint {name : SessionName} {sid : Sid} {generation : Generation}
      {minted : MintedAttachToken} (hlife : ∀ t, sh'.life? t = sh.life? t)
      (htokens : sh'.tokens = sh.tokens.insert name (minted.stored env.sha256))
      (hhistory : sh'.history = .renewReturned sid (sh.isAlive sid) ::
        .minted name sid (minted.stored env.sha256) :: sh.history)
      (hbuffer : ∀ t, sh'.buffer? t = sh.buffer? t)
      (hgrant : minted.grant = { session := name, generation := generation, scope := .attachOnly,
                                 expiresAt := sh.now + env.config.attachTokenTtl }) :
      Effect env sh sh' (.renewMint name sid generation)
        (.returned (.issued { sid := sid, session := name, generation := generation,
                              token := minted }))

open Shared

/-- A section that changes nothing of this. -/
theorem Op.Effect.same {env : Env} {sh sh' : Shared} {op op' : Op} (h : sh.Same sh')
    (hop : op.acts = false) : Effect env sh sh' op op' :=
  .idle h.life h.tokens h.history h.buffer hop

theorem Op.effect_step {env : Env} {sh sh' : Shared} {c : Choice} {op op' : Op} {ops : List Op}
    {sids : List Sid} (h : op.step env sh c = some (sh', op', ops, sids)) :
    Effect env sh sh' op op' := by
  by_cases hq : op.quiet = true
  · exact .same (step_quiet hq h).1 (acts_of_quiet hq)
  cases op <;> simp only [quiet, not_true_eq_false] at hq <;> simp only [step] at h
  case claimName sp =>
    rcases sh.claimName_cases env.config.maxSessions sp.name with
      ⟨claimed, error, heq, -⟩ | ⟨heq, -⟩ <;> rw [heq] at h <;> cases h <;>
      exact .idle (fun _ => rfl) rfl rfl (fun _ => rfl) rfl
  case spawn sp =>
    split at h <;> cases h
    · exact .idle (fun _ => rfl) rfl rfl (fun _ => rfl) rfl
    · refine .spawn (fun t => ?_) rfl rfl fun t ht => ?_
      · rw [life_allocate]
        rfl
      · rw [buffer?, heap_allocate_of_lt sh env _ _ _ ht]
        rfl
  case mint sp sid =>
    rcases sh.tokens.mintForSession_cases env.sha256 env.config.attachTokenTtl sp.name
        sp.generation c.raw sh.now with ⟨error, heq⟩ | ⟨minted, heq, hgrant, -⟩ <;>
      rw [heq] at h <;> cases h
    · exact .idle (fun _ => rfl) rfl rfl (fun _ => rfl) rfl
    · exact .mint (fun _ => rfl) rfl rfl (fun _ => rfl) hgrant
  case publish sp sid token =>
    cases h
    exact .publish (fun _ => rfl) rfl rfl fun _ => rfl
  case dropClaim | restartForget | forget | rememberDead | beginDrain =>
    cases h
    exact .idle (fun _ => rfl) rfl rfl (fun _ => rfl) rfl
  case restartTombstone name =>
    rcases sh.takeTombstone_cases name with heq | ⟨dead, -, heq⟩ <;> rw [heq] at h <;> cases h <;>
      exact .idle (fun _ => rfl) rfl rfl (fun _ => rfl) rfl
  case teardownLock td =>
    obtain ⟨s, hs, heq⟩ := Option.map_eq_some_iff.mp h
    cases heq
    refine .kill (show sh.life? td.sid = some s.life by rw [life?, hs]; rfl)
      (lifeAt_modify td.sid fun _ => rfl)
      (releases_modify td.sid fun s => s.fence_teardownLocked td.cls) rfl rfl
      (sh.buffer_modify_of_eq td.sid fun _ => rfl)
      ⟨{ session := s.name, generation := s.state.generation, cls := td.cls, closeCode := td.code },
        s.io.subscriber, rfl, rfl, ?_⟩
    show (if (!s.state.alive) = true then _ else _) = if s.state.alive = true then _ else _
    cases s.state.alive <;> rfl
  case teardownRevoke td report subscriber =>
    cases h
    exact .revoke (fun _ => rfl) rfl rfl fun _ => rfl
  case teardownClear td report =>
    cases h
    refine .clear (fun t => ?_) rfl rfl fun t => ?_
    · exact sh.life_modify_of_eq td.sid (f := Session.clearBuffer) (fun _ => rfl) t
    · show (sh.modify td.sid Session.clearBuffer).buffer? t = _
      rw [buffer_modify]
      split
      · simp only [buffer?, Option.map_map]
        rfl
      · rfl
  case renewLock name sid =>
    obtain ⟨s, hs, heq⟩ := Option.map_eq_some_iff.mp h
    cases heq
    exact .renew (show sh.life? sid = some s.life by rw [life?, hs]; rfl)
      (lifeAt_modify (f := fun s => s.renewLocked.1) sid fun _ => rfl) rfl rfl
      (sh.buffer_modify_of_eq (f := fun s => s.renewLocked.1) sid fun _ => rfl)
  case renewMint name sid generation =>
    rcases sh.tokens.mintForSession_cases env.sha256 env.config.attachTokenTtl name generation
        c.raw sh.now with ⟨error, heq⟩ | ⟨minted, heq, hgrant, -⟩ <;> rw [heq] at h <;> cases h
    · exact .idle (fun _ => rfl) rfl rfl (fun _ => rfl) rfl
    · exact .renewMint (fun _ => rfl) rfl rfl (fun _ => rfl) hgrant
  case returned => cases h

/-! ## What only grows -/

/-- What any step does to the past and to generations: nothing is forgotten, no session
disappears, and no generation goes back. -/
structure Shared.Grows (sh sh' : Shared) : Prop where
  history : ∀ e ∈ sh.history, e ∈ sh'.history
  life : ∀ sid life, sh.life? sid = some life → ∃ life', sh'.life? sid = some life' ∧
    life.generation ≤ life'.generation

theorem Shared.grows_of_life {sh sh' : Shared} (hlife : ∀ sid, sh'.life? sid = sh.life? sid)
    (hhistory : ∀ e ∈ sh.history, e ∈ sh'.history) : sh.Grows sh' :=
  ⟨hhistory, fun sid life hl => ⟨life, (hlife sid).trans hl, Nat.le_refl _⟩⟩

theorem Op.Effect.grows {env : Env} {sh sh' : Shared} {op op' : Op}
    (h : Effect env sh sh' op op') : sh.Grows sh' := by
  have hcons : ∀ es, sh'.history = es ++ sh.history → ∀ e ∈ sh.history, e ∈ sh'.history :=
    fun es hh e he => by
      rw [hh]
      exact List.mem_append_right _ he
  cases h with
  | idle hlife _ hh => exact grows_of_life hlife (hcons [] hh)
  | mint hlife _ hh => exact grows_of_life hlife (hcons [_] hh)
  | publish hlife _ hh => exact grows_of_life hlife (hcons [_] hh)
  | revoke hlife _ hh => exact grows_of_life hlife (hcons [] hh)
  | clear hlife _ hh => exact grows_of_life hlife (hcons [_] hh)
  | renewMint hlife _ hh => exact grows_of_life hlife (hcons [_, _] hh)
  | spawn hlife _ hh =>
    refine ⟨hcons [] hh, fun sid life hl => ⟨life, ?_, Nat.le_refl _⟩⟩
    rw [hlife, if_neg (Nat.ne_of_lt (lt_of_life? hl)), hl]
  | kill _ hkill _ _ hh =>
    refine ⟨hcons [] hh, fun sid life hl => ?_⟩
    rw [hkill, hl]
    split
    · exact ⟨life.killed, rfl, Nat.le_refl _⟩
    · exact ⟨life, rfl, Nat.le_refl _⟩
  | renew _ hrenew _ hh =>
    refine ⟨hcons [_] hh, fun sid life hl => ?_⟩
    rw [hrenew, hl]
    split
    · exact ⟨life.renewed, rfl, Nat.le_succ _⟩
    · exact ⟨life, rfl, Nat.le_refl _⟩

theorem Shared.Steady.grows {sh sh' : Shared} (h : sh.Steady sh') : sh.Grows sh' := by
  refine grows_of_life h.life fun e he => ?_
  rcases h.history with heq | ⟨t, alive, heq⟩ <;> rw [heq]
  · exact he
  · exact List.mem_cons_of_mem _ he

/-! ## The mints of a run -/

/-- The mint an event reports. -/
def Event.mint? : Event → Option (SessionName × Sid × StoredAttachToken)
  | .minted name sid stored => some (name, sid, stored)
  | _ => none

/-- Every mint so far, newest first. -/
def Shared.mints (sh : Shared) : List (SessionName × Sid × StoredAttachToken) :=
  sh.history.filterMap Event.mint?

theorem Shared.mem_mints {sh : Shared} {name : SessionName} {sid : Sid}
    {stored : StoredAttachToken} :
    (name, sid, stored) ∈ sh.mints ↔ .minted name sid stored ∈ sh.history := by
  rw [mints, List.mem_filterMap]
  constructor
  · rintro ⟨e, he, heq⟩
    cases e <;> cases heq
    exact he
  · exact fun h => ⟨_, h, rfl⟩

theorem Shared.mints_of_history {sh sh' : Shared} (es : List Event)
    (h : sh'.history = es ++ sh.history) : sh'.mints = es.filterMap Event.mint? ++ sh.mints := by
  rw [mints, h, List.filterMap_append, mints]

theorem Shared.Grows.mints {sh sh' : Shared} (h : sh.Grows sh')
    {m : SessionName × Sid × StoredAttachToken} (hm : m ∈ sh.mints) : m ∈ sh'.mints :=
  mem_mints.mpr (h.history _ (mem_mints.mp hm))

/-! ## Attaches that return -/

/-- The read loop notes nothing. -/
theorem Reader.history_step {sh sh' : Shared} {e : Arrival} {r : Reader} {pc : ReaderPc}
    {next : (Reader × ReaderPc) ⊕ ReadExit} (h : r.step sh e pc = some (sh', next)) :
    sh'.history = sh.history := by
  cases pc
  case missedClose subscriber => cases subscriber <;> cases h <;> rfl
  all_goals grind [step, Shared.modify_history]

/-- A connection notes nothing but the return of its attach. -/
theorem Conn.history_step {env : Env} {sh sh' : Shared} {e : Arrival} {o o' : Conn}
    (h : o.step env sh e = some (sh', o')) :
    sh'.history = sh.history ∨ ∃ a sid reg, o = .touch a sid reg ∧
      sh'.history = .attached sid (sh.isAlive sid) :: sh.history := by
  cases o
  case touch a sid reg =>
    cases h
    exact .inr ⟨a, sid, reg, rfl, rfl⟩
  case reading a r pc =>
    obtain ⟨⟨sh₁, next⟩, hr, heq⟩ := Option.map_eq_some_iff.mp h
    have hh := Reader.history_step hr
    cases next <;> cases heq <;> exact .inl hh
  case exiting a sid conn exit => cases exit <;> cases h <;> exact .inl rfl
  all_goals grind [step, Shared.modify_history, Shared.verifyToken]

/-- A pump writes to the scrollback of its own session only. -/
theorem Pump.buffer_step {sh sh' : Shared} {chunk : Option (List UInt8)} {pump : Pump} {t : Task}
    (h : pump.step sh chunk = some (sh', t)) :
    sh'.history = sh.history ∧ sh'.tokens = sh.tokens ∧
    ((∀ t, sh'.buffer? t = sh.buffer? t) ∨ ∃ sid bytes, pump = .write sid bytes ∧
      ∀ t, sh'.buffer? t =
        if sid = t then (sh.buffer? t).map fun r => (r.write bytes).1 else sh.buffer? t) := by
  cases pump <;> simp only [step] at h
  case idle =>
    split at h <;> cases h <;> exact ⟨rfl, rfl, .inl fun _ => rfl⟩
  case write sid bytes =>
    cases h
    refine ⟨rfl, rfl, .inr ⟨sid, bytes, rfl, fun t => ?_⟩⟩
    rw [buffer_modify]
    split
    · simp only [buffer?, Option.map_map]
      rfl
    · rfl
  case touch sid bytes =>
    cases h
    exact ⟨rfl, rfl, .inl (sh.buffer_modify_of_eq sid fun _ => rfl)⟩
  case subscriber =>
    obtain ⟨s, -, heq⟩ := Option.map_eq_some_iff.mp h
    cases heq
    exact ⟨rfl, rfl, .inl fun _ => rfl⟩
  case push sid bytes current =>
    cases current with
    | some conn =>
      cases h
      exact ⟨rfl, rfl, .inl (sh.buffer_modify_of_eq sid fun _ => rfl)⟩
    | none =>
      cases h
      exact ⟨rfl, rfl, .inl fun _ => rfl⟩
end OpenabPty
