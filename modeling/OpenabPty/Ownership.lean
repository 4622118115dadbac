import OpenabPty.Sections

/-!
# Who owns a session

A connection takes a session with the attach CAS and gives it back when its read loop ends:
through `detach` for two of the four exits, not at all for `Backpressure` and `FrameAbuse`.
Ownership also ends under the connection, with a takeover, a renew, a teardown or the last
missed ping. While a session is owned, its detached-idle TTL does not run.
-/

namespace OpenabPty

/-- What the three ownership fields have to do with each other when the state lock is free. -/
structure Session.Fence.Valid (f : Session.Fence) : Prop where
  mirror : f.mirror = f.ownerConn
  subscriber : f.subscriber = if f.ownerConn = ⟨0⟩ then none else some f.ownerConn
  next : f.ownerConn.val < f.nextConn

theorem Session.Fence.Valid.released {f : Session.Fence} (h : f.Valid) : f.released.Valid :=
  ⟨rfl, rfl, Nat.zero_lt_of_lt h.next⟩

theorem Session.Fence.Valid.taken {f : Session.Fence} (h : f.Valid) : f.taken.Valid := by
  refine ⟨rfl, ?_, Nat.lt_succ_self _⟩
  have hpos : (⟨f.nextConn⟩ : ConnGeneration) ≠ ⟨0⟩ := fun e =>
    absurd (ConnGeneration.mk.inj e) (Nat.ne_of_gt (Nat.zero_lt_of_lt h.next))
  exact (if_neg hpos).symm

/-- A connection that does not own the session is neither its mirror nor its subscriber. -/
theorem Session.Fence.Valid.not_subscriber {f : Session.Fence} (h : f.Valid) {c : ConnGeneration}
    (hc : f.ownerConn ≠ c) : f.mirror ≠ c ∧ f.subscriber ≠ some c := by
  refine ⟨by rw [h.mirror]; exact hc, ?_⟩
  rw [h.subscriber]
  split
  · exact nofun
  · exact fun e => hc (Option.some.inj e)

/-! ## Connections and what they hold -/

/-- The session and the connection number of a connection that won the CAS. -/
def Conn.holds : Conn → Option (Sid × ConnGeneration)
  | .closePrevious _ sid reg _ | .subscriberFor _ sid reg | .notice _ sid reg
  | .replayGap _ sid reg _ _ | .replayBytes _ sid reg _ | .attachResize _ sid reg
  | .touch _ sid reg => some (sid, reg.conn)
  | .reading _ r _ => some (r.sid, r.conn)
  | .exiting _ sid conn _ | .closing _ sid conn _ | .awaiting _ sid conn _
  | .returned _ sid conn _ => some (sid, conn)
  | _ => none

/-- `serve_attached` has returned. -/
def Conn.ended : Conn → Bool
  | .returned .. => true
  | _ => false

/-- The connection has to have given its session back: it detached, or it has returned. -/
def Conn.left : Conn → Bool
  | .closing _ _ _ exit | .awaiting _ _ _ exit => exit = .detached ∨ exit = .socketGone
  | .returned .. => true
  | _ => false

/-- What a running connection task holds. -/
def Task.running : Task → Option (Sid × ConnGeneration)
  | .conn o => if o.ended then none else o.holds
  | _ => none

def Task.holds : Task → Option (Sid × ConnGeneration)
  | .conn o => o.holds
  | _ => none

def Task.left : Task → Bool
  | .conn o => o.left
  | _ => false

namespace Shared

/-- Every fence stays. -/
def KeepsFences (sh sh' : Shared) : Prop := ∀ t, sh'.fence? t = sh.fence? t

/-- One session is given back. -/
def Releases (sh sh' : Shared) (sid : Sid) : Prop :=
  ∀ t, sh'.fence? t = if sid = t then (sh.fence? t).map Session.Fence.released else sh.fence? t

/-- One session is taken. -/
def Takes (sh sh' : Shared) (sid : Sid) : Prop :=
  ∀ t, sh'.fence? t = if sid = t then (sh.fence? t).map Session.Fence.taken else sh.fence? t

variable {sh sh' : Shared}

theorem keepsFences_modify (sid : Sid) {f : Session → Session}
    (h : ∀ s : Session, (f s).fence = s.fence) : sh.KeepsFences (sh.modify sid f) :=
  sh.fence_modify_of_eq sid h

theorem releases_modify (sid : Sid) {f : Session → Session}
    (h : ∀ s : Session, (f s).fence = s.fence.released) : sh.Releases (sh.modify sid f) sid := by
  intro t
  rw [fence_modify]
  split
  · simp only [h, fence?, Option.map_map]
    rfl
  · rfl

/-- A change of one session, by what it does to the session that is there. -/
theorem fence_modify_at {sid : Sid} {s : Session} (hs : sh.heap[sid]? = some s)
    (f : Session → Session) (t : Sid) :
    (sh.modify sid f).fence? t = if sid = t then some (f s).fence else sh.fence? t := by
  rw [fence_modify]
  split
  · rename_i heq
    rw [← heq, hs]
    rfl
  · rfl

theorem fence?_eq {sid : Sid} {s : Session} (hs : sh.heap[sid]? = some s) :
    sh.fence? sid = some s.fence := by rw [fence?, hs]; rfl

end Shared

open Shared

/-- A section of an operation keeps the fences, gives one session back, or makes a new one that
nobody owns. -/
theorem Op.fence_step {env : Env} {sh sh' : Shared} {c : Choice} {op op' : Op} {ops : List Op}
    {sids : List Sid} (h : op.step env sh c = some (sh', op', ops, sids)) :
    sh.KeepsFences sh' ∨ (∃ sid, sh.Releases sh' sid) ∨
    ∀ t, sh'.fence? t = if t = sh.heap.length
      then some { ownerConn := ⟨0⟩, mirror := ⟨0⟩, subscriber := none, nextConn := 1 }
      else sh.fence? t := by
  by_cases hq : op.quiet = true
  · exact .inl (step_quiet hq h).1.fence
  cases op <;> simp only [quiet, not_true_eq_false] at hq <;> simp only [step] at h
  case claimName sp =>
    rcases sh.claimName_cases env.config.maxSessions sp.name with
      ⟨claimed, error, heq, -⟩ | ⟨heq, -⟩ <;> rw [heq] at h <;> cases h <;>
      exact .inl fun _ => rfl
  case spawn sp =>
    split at h <;> cases h
    · exact .inl fun _ => rfl
    · refine .inr (.inr fun t => ?_)
      rw [fence?, heap_allocate]
      split <;> rfl
  case mint | renewMint => split at h <;> cases h <;> exact .inl fun _ => rfl
  case publish | dropClaim | restartForget | forget | teardownRevoke | rememberDead
      | beginDrain =>
    cases h
    exact .inl fun _ => rfl
  case restartTombstone name =>
    rcases sh.takeTombstone_cases name with heq | ⟨dead, -, heq⟩ <;> rw [heq] at h <;> cases h <;>
      exact .inl fun _ => rfl
  case teardownClear td report =>
    cases h
    exact .inl (keepsFences_modify td.sid fun s => s.fence_clearBuffer)
  case teardownLock td =>
    obtain ⟨s, -, heq⟩ := Option.map_eq_some_iff.mp h
    cases heq
    exact .inr (.inl ⟨td.sid, releases_modify td.sid fun s => s.fence_teardownLocked td.cls⟩)
  case renewLock name sid =>
    obtain ⟨s, -, heq⟩ := Option.map_eq_some_iff.mp h
    cases heq
    exact .inr (.inl ⟨sid, releases_modify sid fun s => s.fence_renewLocked⟩)
  case returned => cases h

theorem Pump.fence_step {sh sh' : Shared} {chunk : Option (List UInt8)} {pump : Pump} {t : Task}
    (h : pump.step sh chunk = some (sh', t)) : sh.KeepsFences sh' := by
  cases pump <;> simp only [step] at h
  case idle =>
    split at h <;> cases h <;> exact fun _ => rfl
  case write sid bytes | touch sid bytes =>
    cases h
    exact keepsFences_modify sid fun _ => rfl
  case subscriber =>
    obtain ⟨s, -, heq⟩ := Option.map_eq_some_iff.mp h
    cases heq
    exact fun _ => rfl
  case push sid bytes current =>
    cases current with
    | some conn =>
      cases h
      exact keepsFences_modify sid fun _ => rfl
    | none =>
      cases h
      exact fun _ => rfl

/-- A read loop keeps the fences, or gives its own session back after too many missed pings;
it goes on for the same connection. -/
theorem Reader.fence_step {sh sh' : Shared} {e : Arrival} {r : Reader} {pc : ReaderPc}
    {next : (Reader × ReaderPc) ⊕ ReadExit} (h : r.step sh e pc = some (sh', next)) :
    (sh.KeepsFences sh' ∨ sh.Releases sh' r.sid) ∧
    ∀ r' pc', next = .inl (r', pc') → r'.sid = r.sid ∧ r'.conn = r.conn := by
  cases pc <;> simp only [step] at h
  case select =>
    repeat' split at h
    all_goals
      cases h
      exact ⟨.inl fun _ => rfl, fun r' pc' e => by cases e <;> exact ⟨rfl, rfl⟩⟩
  case writeFence | resizeFence =>
    obtain ⟨s, -, heq⟩ := Option.map_eq_some_iff.mp h
    cases heq
    refine ⟨.inl fun _ => rfl, fun r' pc' e => ?_⟩
    repeat' split at e
    all_goals cases e <;> exact ⟨rfl, rfl⟩
  case writeSend | sendPing =>
    split at h <;> cases h <;>
      exact ⟨.inl fun _ => rfl, fun r' pc' e => by cases e <;> exact ⟨rfl, rfl⟩⟩
  case sendPong =>
    cases h
    refine ⟨.inl fun _ => rfl, fun r' pc' e => ?_⟩
    split at e <;> cases e
    exact ⟨rfl, rfl⟩
  case writeTouch | resizeState | pongTouch =>
    cases h
    exact ⟨.inl (keepsFences_modify r.sid fun _ => rfl),
      fun r' pc' e => by cases e; exact ⟨rfl, rfl⟩⟩
  case resizeControl =>
    split at h <;> cases h
    · exact ⟨.inl (keepsFences_modify r.sid fun _ => rfl),
        fun r' pc' e => by cases e; exact ⟨rfl, rfl⟩⟩
    · exact ⟨.inl fun _ => rfl, fun r' pc' e => by cases e⟩
  case pongLock =>
    cases h
    exact ⟨.inl (keepsFences_modify r.sid fun s => s.fence_onPongLocked r.conn),
      fun r' pc' e => by cases e; exact ⟨rfl, rfl⟩⟩
  case missedPing =>
    obtain ⟨s, hs, heq⟩ := Option.map_eq_some_iff.mp h
    cases heq
    refine ⟨?_, fun r' pc' e => by cases e; exact ⟨rfl, rfl⟩⟩
    rcases s.fence_onMissedPingLocked r.conn with ⟨hkeep, -⟩ | ⟨-, hrel⟩
    · refine .inl fun t => ?_
      rw [fence_modify_at hs]
      split
      · rename_i heq
        rw [hkeep, ← heq, fence?_eq hs]
      · rfl
    · refine .inr fun t => ?_
      rw [fence_modify_at hs]
      split
      · rename_i heq
        rw [hrel, ← heq, fence?_eq hs]
        rfl
      · rfl
  case missedClose subscriber =>
    cases subscriber with
    | some conn =>
      cases h
      exact ⟨.inl (keepsFences_modify r.sid fun _ => rfl), fun r' pc' e => by cases e⟩
    | none =>
      cases h
      exact ⟨.inl fun _ => rfl, fun r' pc' e => by cases e⟩

/-- What a step of a connection does to the fences, with what it holds afterwards:
it goes on with what it held; it gives its session back, for good when it detaches; it takes a
session with the next connection number; it finds that it has lost the subscriber slot; or
`serve_attached` returns. -/
inductive Conn.FenceStep (sh sh' : Shared) : Conn → Conn → Prop where
  | keep {o o' : Conn} (hsh : sh.KeepsFences sh') (hheld : o'.holds = o.holds)
      (hended : o'.ended = false) (hleft : o'.left = true → o.left = true) : FenceStep sh sh' o o'
  | release {o o' : Conn} {sid : Sid} {c : ConnGeneration} (hsh : sh.Releases sh' sid)
      (ho : o.holds = some (sid, c)) (hheld : o'.holds = o.holds) (hended : o'.ended = false) :
      FenceStep sh sh' o o'
  | take {a : Attach} {sid : Sid} {now : Instant} {o' : Conn} {s : Session}
      (hsh : sh.Takes sh' sid) (hs : sh.heap[sid]? = some s)
      (hgen : s.state.generation = a.generation)
      (hheld : o'.holds = some (sid, ⟨s.fence.nextConn⟩)) (hended : o'.ended = false)
      (hleft : o'.left = false) : FenceStep sh sh' (.lock a sid now) o'
  | detached {a : Attach} {sid : Sid} {c : ConnGeneration} {exit : ReadExit}
      (hsh : sh.KeepsFences sh') (hc : ∀ f, sh.fence? sid = some f → f.ownerConn ≠ c) :
      FenceStep sh sh' (.exiting a sid c exit) (.closing a sid c exit)
  | lost {o : Conn} {sid : Sid} {c : ConnGeneration} {f : Session.Fence} {error : Error}
      (hsh : sh.KeepsFences sh') (ho : o.holds = some (sid, c)) (hf : sh.fence? sid = some f)
      (hc : f.subscriber ≠ some c) : FenceStep sh sh' o (.refused error)
  | leave {a : Attach} {sid : Sid} {c : ConnGeneration} {exit : ReadExit}
      (hsh : sh.KeepsFences sh') :
      FenceStep sh sh' (.awaiting a sid c exit) (.returned a sid c exit)

/-- A step that keeps the fences, to a connection that has not left. -/
theorem Conn.FenceStep.stay {sh sh' : Shared} {o o' : Conn} (hsh : sh.KeepsFences sh')
    (hheld : o'.holds = o.holds) (hended : o'.ended = false) (hleft : o'.left = false) :
    FenceStep sh sh' o o' :=
  .keep hsh hheld hended fun hl => absurd (hleft.symm.trans hl) Bool.false_ne_true

theorem Conn.fence_step {env : Env} {sh sh' : Shared} {e : Arrival} {o o' : Conn}
    (h : o.step env sh e = some (sh', o')) : FenceStep sh sh' o o' := by
  cases o <;> simp only [step] at h
  case request =>
    repeat' split at h
    all_goals
      cases h
      exact .stay (fun _ => rfl) rfl rfl rfl
  case handlerGet | get | peekTombstone | isAlive =>
    split at h <;> cases h <;> exact .stay (fun _ => rfl) rfl rfl rfl
  case handlerGeneration =>
    obtain ⟨s, -, heq⟩ := Option.map_eq_some_iff.mp h
    cases heq
    exact .stay (fun _ => rfl) rfl rfl rfl
  case handlerVerify r name generation =>
    repeat' split at h
    all_goals
      cases h
      exact .stay (fun _ => rfl) rfl rfl rfl
  case lock a sid now =>
    obtain ⟨s, hs, heq⟩ := Option.map_eq_some_iff.mp h
    cases heq
    rcases s.attachLocked_cases now env.policy a.size env.config.scrollbackReplay a.generation
        a.since with ⟨s', error, heq, -, hkeep⟩ | ⟨s', reg, heq, -, hgen, htaken, hconn⟩
    · rw [heq]
      refine .stay (fun t => ?_) rfl rfl rfl
      rw [fence_modify_at hs]
      split
      · rename_i ht
        rw [heq, hkeep, ← ht, fence?_eq hs]
      · rfl
    · have htakes : sh.Takes (sh.modify sid fun s =>
          (s.attachLocked env.policy env.config.scrollbackReplay a.generation a.size a.since
            now).1) sid := by
        intro t
        rw [fence_modify_at hs]
        split
        · rename_i ht
          rw [heq, htaken, ← ht, fence?_eq hs]
          rfl
        · rfl
      rw [heq]
      dsimp only
      split
      · exact .take htakes hs hgen (by rw [holds, hconn]) rfl rfl
      · exact .take htakes hs hgen (by rw [holds, hconn]) rfl rfl
  case subscriberFor a sid reg =>
    obtain ⟨s, hs, heq⟩ := Option.map_eq_some_iff.mp h
    cases heq
    split
    · exact .stay (fun _ => rfl) rfl rfl rfl
    · rename_i hnone
      refine .lost (fun _ => rfl) rfl (fence?_eq hs) fun hsub => ?_
      have hsub : s.io.subscriber = some reg.conn := hsub
      simp [Session.subscriberFor, hsub] at hnone
  case closePrevious a sid reg previous | replayGap a sid reg dropped bytes
      | replayBytes a sid reg bytes =>
    cases h
    exact .stay (keepsFences_modify sid fun _ => rfl) rfl rfl rfl
  case notice a sid reg =>
    cases h
    unfold afterNotice
    repeat' split
    all_goals exact .stay (keepsFences_modify sid fun _ => rfl) rfl rfl rfl
  case attachResize a sid reg =>
    cases h
    split
    · exact .stay (keepsFences_modify sid fun _ => rfl) rfl rfl rfl
    · exact .stay (fun _ => rfl) rfl rfl rfl
  case touch a sid reg =>
    cases h
    exact .stay (keepsFences_modify sid (f := (·.touch sh.now)) fun _ => rfl) rfl rfl rfl
  case reading a r pc =>
    obtain ⟨⟨sh₁, next⟩, hr, heq⟩ := Option.map_eq_some_iff.mp h
    obtain ⟨hfence, hsame⟩ := Reader.fence_step hr
    cases next with
    | inl rp =>
      obtain ⟨r', pc'⟩ := rp
      cases heq
      obtain ⟨hsid, hconn⟩ := hsame r' pc' rfl
      have hheld : (Conn.reading a r' pc').holds = (Conn.reading a r pc).holds := by
        rw [holds, holds, hsid, hconn]
      rcases hfence with hkeep | hrel
      · exact .stay hkeep hheld rfl rfl
      · exact .release hrel rfl hheld rfl
    | inr exit =>
      cases heq
      rcases hfence with hkeep | hrel
      · exact .stay hkeep rfl rfl rfl
      · exact .release hrel rfl rfl rfl
  case exiting a sid conn exit =>
    by_cases hexit : exit = .detached ∨ exit = .socketGone
    · have hstep : some (sh.modify sid (·.detach conn), Conn.closing a sid conn exit) =
          some (sh', o') := by rcases hexit with rfl | rfl <;> exact h
      cases hstep
      by_cases howner : ∃ f, sh.fence? sid = some f ∧ f.ownerConn = conn
      · obtain ⟨f, hf, rfl⟩ := howner
        obtain ⟨s, hs, rfl⟩ := Option.map_eq_some_iff.mp hf
        refine .release (fun t => ?_) rfl rfl rfl
        rw [fence_modify_at hs]
        split
        · rename_i ht
          rw [s.fence_detach, if_pos rfl, ← ht, hf]
          rfl
        · rfl
      · have hc : ∀ f, sh.fence? sid = some f → f.ownerConn ≠ conn :=
          fun f hf hf' => howner ⟨f, hf, hf'⟩
        refine .detached (fun t => ?_) hc
        rw [fence_modify]
        split
        · rename_i ht
          subst ht
          rw [fence?]
          cases hs : sh.heap[sid]? with
          | none => rfl
          | some s =>
            rw [Option.map_some, Option.map_some, s.fence_detach, if_neg (hc _ (fence?_eq hs))]
        · rfl
    · have hstep : some (sh, Conn.closing a sid conn exit) = some (sh', o') := by
        cases exit
        case detached => exact absurd (.inl rfl) hexit
        case socketGone => exact absurd (.inr rfl) hexit
        all_goals exact h
      cases hstep
      exact .keep (fun _ => rfl) rfl rfl fun hleft => absurd (by simpa [left] using hleft) hexit
  case closing a sid conn exit =>
    cases h
    exact .keep (keepsFences_modify sid fun _ => rfl) rfl rfl id
  case awaiting =>
    cases h
    exact .leave fun _ => rfl
  case returned | refused | rejected => cases h

/-! ## What any step does to the fences -/

/-- What one step may do to one fence. -/
def Session.Fence.Moves (f f' : Session.Fence) : Prop := f' = f ∨ f' = f.released ∨ f' = f.taken

/-- The fence of a session that was just spawned. -/
def Session.Fence.fresh : Session.Fence :=
  { ownerConn := ⟨0⟩, mirror := ⟨0⟩, subscriber := none, nextConn := 1 }

theorem Session.Fence.valid_fresh : Session.Fence.fresh.Valid := ⟨rfl, rfl, Nat.one_pos⟩

namespace Shared

/-- What one step may do to all fences: move them, and add a fresh one. -/
structure FencesMove (sh sh' : Shared) : Prop where
  old : ∀ t f, sh.fence? t = some f → ∃ f', sh'.fence? t = some f' ∧ f.Moves f'
  new : ∀ t f', sh'.fence? t = some f' →
    (∃ f, sh.fence? t = some f ∧ f.Moves f') ∨ f' = .fresh

variable {sh sh' : Shared} {sid : Sid}

theorem KeepsFences.moves (h : sh.KeepsFences sh') : sh.FencesMove sh' :=
  ⟨fun t f hf => ⟨f, (h t).trans hf, .inl rfl⟩, fun t f' hf' => .inl ⟨f', (h t) ▸ hf', .inl rfl⟩⟩

/-- A change of the fence of one session to `g`. -/
theorem fencesMove_at {g : Session.Fence → Session.Fence} (hg : ∀ f : Session.Fence, f.Moves (g f))
    (h : ∀ t, sh'.fence? t = if sid = t then (sh.fence? t).map g else sh.fence? t) :
    sh.FencesMove sh' := by
  refine ⟨fun t f hf => ?_, fun t f' hf' => .inl ?_⟩
  · rw [h, hf]
    split
    · exact ⟨g f, rfl, hg f⟩
    · exact ⟨f, rfl, .inl rfl⟩
  · rw [h] at hf'
    split at hf'
    · obtain ⟨f, hf, rfl⟩ := Option.map_eq_some_iff.mp hf'
      exact ⟨f, hf, hg f⟩
    · exact ⟨f', hf', .inl rfl⟩

theorem Releases.moves (h : sh.Releases sh' sid) : sh.FencesMove sh' :=
  fencesMove_at (fun _ => .inr (.inl rfl)) h

theorem Takes.moves (h : sh.Takes sh' sid) : sh.FencesMove sh' :=
  fencesMove_at (fun _ => .inr (.inr rfl)) h

theorem fence?_length (sh : Shared) : sh.fence? sh.heap.length = none := by
  rw [fence?, List.getElem?_eq_none (Nat.le_refl _)]
  rfl

theorem fencesMove_new
    (h : ∀ t, sh'.fence? t = if t = sh.heap.length then some .fresh else sh.fence? t) :
    sh.FencesMove sh' := by
  refine ⟨fun t f hf => ⟨f, ?_, .inl rfl⟩, fun t f' hf' => ?_⟩
  · rw [h, if_neg, hf]
    rintro rfl
    rw [fence?_length] at hf
    cases hf
  · rw [h] at hf'
    split at hf'
    · exact .inr (Option.some.inj hf').symm
    · exact .inl ⟨f', hf', .inl rfl⟩

/-- Every fence is valid. -/
def FencesValid (sh : Shared) : Prop := ∀ sid f, sh.fence? sid = some f → f.Valid

theorem FencesValid.move (h : sh.FencesValid) (hm : sh.FencesMove sh') : sh'.FencesValid := by
  intro sid f' hf'
  rcases hm.new sid f' hf' with ⟨f, hf, rfl | rfl | rfl⟩ | rfl
  · exact h sid f' hf
  · exact (h sid f hf).released
  · exact (h sid f hf).taken
  · exact Session.Fence.valid_fresh

/-- What a connection knows of the session it holds: its number was issued, and once it has
left the session it is not the owner. -/
def Knows (sh : Shared) (t : Task) : Prop :=
  ∀ sid c, t.holds = some (sid, c) → ∃ f, sh.fence? sid = some f ∧ 0 < c.val ∧ c.val < f.nextConn ∧
    (t.left = true → f.ownerConn ≠ c)

/-- The number of a connection that has left never becomes the owner again. -/
theorem Knows.move {t : Task} (h : sh.Knows t) (hm : sh.FencesMove sh') : sh'.Knows t := by
  intro sid c ht
  obtain ⟨f, hf, hpos, hlt, hleft⟩ := h sid c ht
  obtain ⟨f', hf', rfl | rfl | rfl⟩ := hm.old sid f hf
  · exact ⟨f', hf', hpos, hlt, hleft⟩
  · refine ⟨_, hf', hpos, hlt, fun _ e => ?_⟩
    exact absurd (congrArg ConnGeneration.val e) (Nat.ne_of_lt hpos)
  · refine ⟨_, hf', hpos, Nat.lt_succ_of_lt hlt, fun _ e => ?_⟩
    exact absurd (congrArg ConnGeneration.val e) (Nat.ne_of_gt hlt)

end Shared

/-- The exact condition: a connection that ended with `Backpressure` or `FrameAbuse` has lost
its session by the time `serve_attached` returns. -/
def World.LostBeforeReturn (w : World) (l : World.Label) : Prop :=
  ∀ a sid c exit f, w.acting l = some (.conn (.awaiting a sid c exit)) →
    (exit = .backpressure ∨ exit = .frameAbuse) → w.shared.fence? sid = some f → f.ownerConn ≠ c

/-- Every owner of a session is a running connection. -/
def World.OwnersRun (w : World) : Prop :=
  ∀ sid f, w.shared.fence? sid = some f → f.ownerConn ≠ ⟨0⟩ →
    ∃ t ∈ w.tasks, t.running = some (sid, f.ownerConn)

/-! ## Runs -/

theorem Conn.FenceStep.moves {sh sh' : Shared} {o o' : Conn} (h : FenceStep sh sh' o o') :
    sh.FencesMove sh' := by
  cases h with
  | keep hsh => exact hsh.moves
  | release hsh => exact hsh.moves
  | take hsh => exact hsh.moves
  | detached hsh => exact hsh.moves
  | lost hsh => exact hsh.moves
  | leave hsh => exact hsh.moves

theorem Op.fencesMove {env : Env} {sh sh' : Shared} {c : Choice} {op op' : Op} {ops : List Op}
    {sids : List Sid} (h : op.step env sh c = some (sh', op', ops, sids)) : sh.FencesMove sh' := by
  rcases fence_step h with hkeep | ⟨sid, hrel⟩ | hnew
  · exact hkeep.moves
  · exact hrel.moves
  · exact fencesMove_new hnew

section Step

variable {env : Env} {sh sh' : Shared} {t t' : Task} {c : Input} {new : List Task}

/-- What a step of any task does to the fences. -/
theorem Task.fencesMove (h : Task.step env sh t c = some (sh', t', new)) : sh.FencesMove sh' := by
  rcases step_cases h with ⟨op, op', ops, sids, -, hop, -, -⟩ | ⟨o, o', -, hconn, -, -⟩ |
    ⟨pump, -, hpump, -⟩
  · exact Op.fencesMove hop
  · exact (Conn.fence_step hconn).moves
  · exact (Pump.fence_step hpump).moves

/-- Along every run, every fence is valid. -/
theorem World.fencesValid_next {w w' : World} {l : World.Label} (hI : w.shared.FencesValid)
    (h : World.next env w l = some w') : w'.shared.FencesValid := by
  cases l with
  | call t =>
    obtain ⟨-, rfl⟩ := Threads.next_call h
    exact hI
  | step i c =>
    obtain ⟨t, s', t', new, -, hs, rfl⟩ := Threads.next_step h
    exact hI.move (Task.fencesMove hs)
  | env e =>
    obtain rfl := Threads.next_env h
    exact hI

theorem World.fencesValid_run (env : Env) (run : List World.Label) :
    Trace.AllStates (World.next env) (fun w => w.shared.FencesValid) World.init run :=
  Trace.AllStates.of_next (fun _ _ _ hI h => World.fencesValid_next hI h) fun _ _ hf => nomatch hf

/-- Operations and pumps hold no connection, and start none. -/
theorem Task.holds_new (h : Task.step env sh t c = some (sh', t', new)) :
    (∀ u ∈ new, u.holds = none) ∧ ((∀ o, t ≠ .conn o) → t'.holds = none) := by
  rcases step_cases h with ⟨op, op', ops, sids, rfl, -, rfl, rfl⟩ | ⟨o, o', rfl, -, -, rfl⟩ |
    ⟨pump, rfl, hpump, rfl⟩
  · refine ⟨fun u hu => ?_, fun _ => rfl⟩
    rcases List.mem_append.mp hu with hu | hu
    · obtain ⟨o, -, rfl⟩ := List.mem_map.mp hu
      rfl
    · obtain ⟨sid, -, rfl⟩ := List.mem_map.mp hu
      rfl
  · exact ⟨fun u hu => absurd hu List.not_mem_nil, fun hne => absurd rfl (hne o)⟩
  · refine ⟨fun u hu => absurd hu List.not_mem_nil, fun _ => ?_⟩
    rcases Pump.step_task hpump with ⟨pump', rfl⟩ | ⟨sid, rfl⟩ <;> rfl

/-- The task that moves knows its session afterwards, when a return meets the condition. -/
theorem Task.knows_step (h : Task.step env sh t c = some (sh', t', new)) (hI : sh.FencesValid)
    (hA : sh.Knows t)
    (hreturn : ∀ a sid conn exit f, t = .conn (.awaiting a sid conn exit) →
      (exit = .backpressure ∨ exit = .frameAbuse) → sh.fence? sid = some f →
      f.ownerConn ≠ conn) : sh'.Knows t' := by
  by_cases hconn : ∃ o, t = .conn o
  · obtain ⟨o, rfl⟩ := hconn
    obtain ⟨⟨sh₁, o'⟩, hstep, heq⟩ := Option.map_eq_some_iff.mp h
    cases heq
    have hmove := (Conn.fence_step hstep).moves
    intro sid conn ht
    have ht : o'.holds = some (sid, conn) := ht
    cases Conn.fence_step hstep with
    | keep hsh hheld hended hleft =>
      have ho : o.holds = some (sid, conn) := hheld.symm.trans ht
      obtain ⟨f, hf, hpos, hlt, hl⟩ := hA.move hmove sid conn ho
      exact ⟨f, hf, hpos, hlt, fun hl' => hl (hleft hl')⟩
    | release hsh ho hheld hended =>
      have ho' : o.holds = some (sid, conn) := hheld.symm.trans ht
      obtain ⟨f, hf, hpos, hlt, -⟩ := hA sid conn ho'
      obtain ⟨rfl, rfl⟩ := Prod.mk.inj (Option.some.inj (ho.symm.trans ho'))
      refine ⟨f.released, by rw [hsh, if_pos rfl, hf]; rfl, hpos, hlt, fun _ e => ?_⟩
      exact absurd (congrArg ConnGeneration.val e) (Nat.ne_of_lt hpos)
    | take hsh hs hgen hheld hended hleft =>
      obtain ⟨rfl, rfl⟩ := Prod.mk.inj (Option.some.inj (hheld.symm.trans ht))
      have hf := fence?_eq hs
      refine ⟨_, by rw [hsh, if_pos rfl, hf]; rfl, Nat.zero_lt_of_lt (hI _ _ hf).next,
        Nat.lt_succ_self _, fun hl => ?_⟩
      exact absurd hl (by rw [Task.left, hleft]; exact Bool.false_ne_true)
    | detached hsh hc =>
      obtain ⟨f, hf, hpos, hlt, -⟩ := hA sid conn ht
      obtain ⟨rfl, rfl⟩ := Prod.mk.inj (Option.some.inj ht)
      exact ⟨f, (hsh _).trans hf, hpos, hlt, fun _ => hc f hf⟩
    | lost hsh ho hf hc => cases ht
    | @leave a sid' conn' exit hsh =>
      obtain ⟨f, hf, hpos, hlt, hl⟩ := hA sid conn ht
      obtain ⟨rfl, rfl⟩ := Prod.mk.inj (Option.some.inj ht)
      refine ⟨f, (hsh _).trans hf, hpos, hlt, fun _ => ?_⟩
      cases exit with
      | detached => exact hl rfl
      | socketGone => exact hl rfl
      | backpressure => exact hreturn a sid' conn' _ f rfl (.inl rfl) hf
      | frameAbuse => exact hreturn a sid' conn' _ f rfl (.inr rfl) hf
  · have hnone := (holds_new h).2 fun o e => hconn ⟨o, e⟩
    intro sid conn ht
    rw [hnone] at ht
    cases ht

/-- An owner after a step that takes nothing was the owner before it. -/
theorem Shared.KeepsFences.owner (h : sh.KeepsFences sh') {sid : Sid} {f : Session.Fence}
    (hf : sh'.fence? sid = some f) : ∃ g, sh.fence? sid = some g ∧ g.ownerConn = f.ownerConn :=
  ⟨f, (h sid) ▸ hf, rfl⟩

theorem Shared.Releases.owner {sid₀ : Sid} (h : sh.Releases sh' sid₀) {sid : Sid}
    {f : Session.Fence} (hf : sh'.fence? sid = some f) (hne : f.ownerConn ≠ ⟨0⟩) :
    ∃ g, sh.fence? sid = some g ∧ g.ownerConn = f.ownerConn := by
  rw [h] at hf
  split at hf
  · obtain ⟨g, -, rfl⟩ := Option.map_eq_some_iff.mp hf
    exact absurd rfl hne
  · exact ⟨f, hf, rfl⟩

/-- An owner after a step is the connection that moved, or was the owner before it, and the
connection that moved is not it. -/
theorem Task.running_step (h : Task.step env sh t c = some (sh', t', new)) (hI : sh.FencesValid)
    (hA' : sh'.Knows t') {sid : Sid} {f : Session.Fence} (hf : sh'.fence? sid = some f)
    (hne : f.ownerConn ≠ ⟨0⟩) :
    t'.running = some (sid, f.ownerConn) ∨
    (∃ g, sh.fence? sid = some g ∧ g.ownerConn = f.ownerConn) ∧
      t.running ≠ some (sid, f.ownerConn) := by
  -- A connection that goes on with what it holds.
  have hgoes : ∀ {o o' : Conn}, t = .conn o → t' = .conn o' → o'.holds = o.holds →
      o'.ended = false → (∃ g, sh.fence? sid = some g ∧ g.ownerConn = f.ownerConn) →
      t'.running = some (sid, f.ownerConn) ∨
      (∃ g, sh.fence? sid = some g ∧ g.ownerConn = f.ownerConn) ∧
        t.running ≠ some (sid, f.ownerConn) := by
    intro o o' ht ht' hheld hended howner
    by_cases hrun : t.running = some (sid, f.ownerConn)
    · left
      subst ht ht'
      simp only [running] at hrun ⊢
      split at hrun
      · cases hrun
      · rw [if_neg (Bool.eq_false_iff.mp hended), hheld]
        exact hrun
    · exact .inr ⟨howner, hrun⟩
  rcases step_cases h with ⟨op, op', ops, sids, rfl, hop, rfl, rfl⟩ | ⟨o, o', rfl, hconn, rfl, rfl⟩ |
    ⟨pump, rfl, hpump, rfl⟩
  · refine .inr ⟨?_, nofun⟩
    rcases Op.fence_step hop with hkeep | ⟨sid₀, hrel⟩ | hnew
    · exact hkeep.owner hf
    · exact hrel.owner hf hne
    · rw [hnew] at hf
      split at hf
      · cases hf
        exact absurd rfl hne
      · exact ⟨f, hf, rfl⟩
  · cases Conn.fence_step hconn with
    | keep hsh hheld hended => exact hgoes rfl rfl hheld hended (hsh.owner hf)
    | release hsh ho hheld hended => exact hgoes rfl rfl hheld hended (hsh.owner hf hne)
    | detached hsh => exact hgoes rfl rfl rfl rfl (hsh.owner hf)
    | take hsh hs hgen hheld hended =>
      rw [hsh] at hf
      split at hf
      · rename_i heq
        subst heq
        rw [fence?_eq hs] at hf
        cases hf
        left
        simp only [running, hended, hheld]
        rfl
      · exact .inr ⟨⟨f, hf, rfl⟩, nofun⟩
    | @lost _ sid₀ c₀ g error hsh ho hg hc =>
      refine .inr ⟨hsh.owner hf, fun hrun => ?_⟩
      simp only [running] at hrun
      split at hrun
      · cases hrun
      · obtain ⟨rfl, rfl⟩ := Prod.mk.inj (Option.some.inj (ho.symm.trans hrun))
        obtain rfl : g = f := Option.some.inj (hg.symm.trans ((hsh _) ▸ hf))
        rw [(hI _ _ hg).subscriber, if_neg hne] at hc
        exact hc rfl
    | @leave a sid₀ c₀ exit hsh =>
      refine .inr ⟨hsh.owner hf, fun hrun => ?_⟩
      obtain ⟨rfl, rfl⟩ := Prod.mk.inj (Option.some.inj hrun)
      obtain ⟨g, hg, -, -, hl⟩ := hA' _ _ rfl
      obtain rfl : g = f := Option.some.inj (hg.symm.trans hf)
      exact hl rfl rfl
  · exact .inr ⟨(Pump.fence_step hpump).owner hf, nofun⟩

/-- No request holds a connection already. -/
theorem Task.holds_entry (h : t.entry = true) : t.holds = none := by
  cases t with
  | conn o => cases o <;> first | rfl | cases h
  | op o => rfl
  | pump o => rfl

end Step

/-- The invariant of ownership along a run. -/
structure World.Ownership (w : World) : Prop where
  known : Threads.Annotated Shared.FencesValid Shared.Knows (fun _ => (none : Option Unit)) w
  run : w.OwnersRun

variable {env : Env} {w w' : World} {l : World.Label}

theorem World.ownership_init : World.init.Ownership :=
  ⟨Threads.Annotated.initial fun _ _ hf => (nomatch hf), fun _ _ hf => nomatch hf⟩

theorem World.known_next (hI : w.Ownership) (hc : w.LostBeforeReturn l)
    (h : World.next env w l = some w') :
    Threads.Annotated Shared.FencesValid Shared.Knows (fun _ => (none : Option Unit)) w' := by
  refine hI.known.preserved (fun _ _ => True) h (fun t _ he => ⟨fun sid c ht => ?_, rfl⟩)
    (fun i c t s' t' new hl ht hs hA => ?_) (fun _ _ _ _ => nofun)
    fun e _ => ⟨hI.known.shared, fun u _ hu => hu⟩
  · rw [Task.holds_entry he] at ht
    cases ht
  · have hmove := Task.fencesMove hs
    refine ⟨hI.known.shared.move hmove, Task.knows_step hs hI.known.shared hA ?_,
      fun u hu => ⟨fun sid c hus => ?_, rfl⟩, fun k hk => (nomatch hk),
      fun u _ hu _ => hu.move hmove⟩
    · subst hl
      intro a sid conn exit f ht'
      exact hc a sid conn exit f (by rw [Threads.State.acting, ht, ht'])
    · rw [(Task.holds_new hs).1 u hu] at hus
      cases hus

theorem World.ownership_next (hI : w.Ownership) (hc : w.LostBeforeReturn l)
    (h : World.next env w l = some w') : w'.Ownership := by
  have hknown := known_next hI hc h
  refine ⟨hknown, fun sid f hf hne => ?_⟩
  cases l with
  | call t =>
    obtain ⟨-, rfl⟩ := Threads.next_call h
    obtain ⟨u, hu, hrun⟩ := hI.run sid f hf hne
    exact ⟨u, List.mem_append_left _ hu, hrun⟩
  | step i c =>
    obtain ⟨t, s', t', new, ht, hs, rfl⟩ := Threads.next_step h
    have ht' : t' ∈ w.tasks.set i t' ++ new :=
      List.mem_append_left _ (List.mem_set (List.getElem?_eq_some_iff.mp ht).1 t')
    rcases Task.running_step hs hI.known.shared (hknown.tasks t' ht') hf hne with
      hrun | ⟨⟨g, hg, howner⟩, hnot⟩
    · exact ⟨t', ht', hrun⟩
    · obtain ⟨u, hu, hrun⟩ := hI.run sid g hg (howner ▸ hne)
      rw [howner] at hrun
      refine ⟨u, List.mem_append_left _ ?_, hrun⟩
      obtain ⟨j, hj⟩ := List.mem_iff_getElem?.mp hu
      have hij : i ≠ j := by
        rintro rfl
        rw [ht] at hj
        exact hnot (Option.some.inj hj ▸ hrun)
      exact List.mem_of_getElem? ((List.getElem?_set_ne hij).trans hj)
  | env e =>
    obtain rfl := Threads.next_env h
    exact hI.run sid f hf hne

/-- A detached session that is idle for long enough expires at the next tick. -/
theorem Session.expires_of_idle {s : Session} {policy : SessionPolicy} {now : Instant}
    (halive : s.state.alive = true) (howner : s.state.ownerConn = ⟨0⟩)
    (hidle : s.lastActivity + policy.detachedIdleTtl ≤ now) :
    ∃ absolute, (s.tickLocked policy now).2 = some (.expire absolute) := by
  unfold tickLocked
  generalize s.lastActivity + policy.detachedIdleTtl = deadline at hidle ⊢
  rw [if_neg (by rw [halive]; exact nofun), if_pos howner]
  dsimp only
  by_cases habs : now ≥ s.state.createdAt + policy.absoluteTtl
  · exact ⟨true, by rw [if_pos habs]⟩
  · refine ⟨false, ?_⟩
    rw [if_neg habs, if_pos (by rw [Option.any_some]; exact decide_eq_true hidle)]

/-- A connection that has ended does not own its session, and a session that no running
connection holds is detached: its idle TTL applies. -/
structure World.Disowned (policy : SessionPolicy) (w : World) : Prop where
  returned : ∀ a sid c exit s, Task.conn (.returned a sid c exit) ∈ w.tasks →
    w.shared.heap[sid]? = some s →
      s.state.ownerConn ≠ c ∧ s.io.ownerConn ≠ c ∧ s.io.subscriber ≠ some c
  detached : ∀ sid s, w.shared.heap[sid]? = some s →
    (∀ t ∈ w.tasks, ∀ c, t.running ≠ some (sid, c)) →
      s.state.ownerConn = ⟨0⟩ ∧
      ∀ now, s.state.alive = true → s.lastActivity + policy.detachedIdleTtl ≤ now →
        ∃ absolute, (s.tickLocked policy now).2 = some (.expire absolute)

theorem World.Ownership.disowned (h : w.Ownership) (policy : SessionPolicy) :
    w.Disowned policy := by
  refine ⟨fun a sid c exit s ht hs => ?_, fun sid s hs hnone => ?_⟩
  · obtain ⟨f, hf, -, -, hl⟩ := h.known.tasks _ ht sid c rfl
    rw [Shared.fence?_eq hs] at hf
    cases hf
    exact ⟨hl rfl, (h.known.shared sid _ (Shared.fence?_eq hs)).not_subscriber (hl rfl)⟩
  · have howner : s.state.ownerConn = ⟨0⟩ := by
      by_contra hne
      obtain ⟨t, ht, hrun⟩ := h.run sid s.fence (Shared.fence?_eq hs) hne
      exact hnone t ht _ hrun
    exact ⟨howner, fun now halive hidle => Session.expires_of_idle halive howner hidle⟩

/-- A return that does not meet the condition leaves a stale owner. -/
theorem World.not_disowned_next (hc : ¬ w.LostBeforeReturn l)
    (h : World.next env w l = some w') (policy : SessionPolicy) : ¬ w'.Disowned policy := by
  intro hd
  simp only [LostBeforeReturn, not_forall, not_not] at hc
  obtain ⟨a, sid, c, exit, f, hact, -, hf, howner⟩ := hc
  cases l with
  | call t => cases hact
  | env e => cases hact
  | step i e =>
    obtain ⟨t, s', t', new, ht, hs, rfl⟩ := Threads.next_step h
    obtain rfl := Option.some.inj (ht.symm.trans hact)
    cases hs
    obtain ⟨s, hs, rfl⟩ := Option.map_eq_some_iff.mp hf
    exact (hd.returned a sid c exit s
      (List.mem_append_left _ (List.mem_set (List.getElem?_eq_some_iff.mp ht).1 _)) hs).1 howner

/-- Along every run, no connection that has ended owns its session exactly when every
connection that ends with `Backpressure` or `FrameAbuse` has lost its session by the time
`serve_attached` returns. -/
theorem disowned_iff_lostBeforeReturn (env : Env) (run : List World.Label) :
    Trace.AllStates (World.next env) (World.Disowned env.policy) World.init run ↔
      Trace.AllSteps (World.next env) World.LostBeforeReturn World.init run :=
  Trace.allStates_iff_allSteps (I := World.Ownership) (fun _ hI => hI.disowned env.policy)
    (fun _ _ _ hI hc h => World.ownership_next hI hc h)
    (fun _ _ _ _ hc h => World.not_disowned_next hc h env.policy) World.ownership_init

/-- A client attaches to `sh`, sends an oversized control frame and is disconnected. -/
def oversizedFrame : List World.Label :=
  [.call (.op (.claimName { name := .sh, size := .default, origin := .create })),
   .step 0 {}, .step 0 {}, .step 0 { choice := { raw := some [7] } }, .step 0 {}, .step 0 {},
   .call (.conn (.request { token := [48, 55], session := [115, 104], since := none,
                            rows := none, cols := none })),
   .step 2 {}, .step 2 {}, .step 2 {}, .step 2 {}, .step 2 {}, .step 2 {}, .step 2 {},
   .step 2 {}, .step 2 {}, .step 2 {}, .step 2 {},
   .step 2 { arrival := { incoming := .text 5000 none } },
   .step 2 {}, .step 2 {}, .step 2 {}]

/-- The session still counts the connection that has gone as its owner. -/
theorem oversizedFrame_owned :
    ¬ Trace.AllStates (World.next .default) (World.Disowned Env.default.policy) World.init
      oversizedFrame := by
  intro h
  obtain ⟨w, hd, hw⟩ := h.observe (f := fun w => (w.tasks[2]?, w.shared.heap[0]?.map (·.state.ownerConn)))
    (show _ = some (some (Task.conn (.returned
      { name := .sh, generation := ⟨1⟩, size := .default, since := none, verifiedAt := 1 } 0 ⟨1⟩
      .frameAbuse)), some ⟨1⟩) from by decide)
  obtain ⟨ht, howner⟩ := Prod.mk.inj hw
  obtain ⟨s, hs, howner⟩ := Option.map_eq_some_iff.mp howner
  exact (hd.returned _ 0 ⟨1⟩ .frameAbuse s (List.mem_of_getElem? ht) hs).1 howner

end OpenabPty
