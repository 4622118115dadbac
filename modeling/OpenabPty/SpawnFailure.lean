import OpenabPty.Escalation
import OpenabPty.Restart

/-!
# A failed spawn

`create` and `restart_in_place` down to the steps of `PortablePtySpawner::spawn`, with the table of
processes, the tracking budget and the kill domains of the sessions. The child starts in the middle
of the ladder of fallible steps. A step that fails before it leaves nothing behind; one that fails
after it returns, or drops the domain, without a signal to the child.
-/

namespace OpenabPty

/-- What the environment returns to the steps of one call. A child comes with its pid, and whether
`process_id` tells it. -/
structure PtyHost where
  openpty : Except String Unit
  spawnCommand : Except String (Pid × Bool)
  cloneReader : Except String Unit
  takeWriter : Except String Unit
  pidfdOpened : Bool
  raw : Option (List UInt8)
  drained : Bool

/-- The runtime with the processes, the tracking budget, and the kill domain of each session. -/
structure Containment where
  shared : Shared
  kernel : Kernel
  global : GlobalTracking
  domains : List SessionKillDomain

namespace SessionKillDomain

/-- A signal to the group of the leader and to the tracked children. -/
def signalAll (d : SessionKillDomain) (k : Kernel) (signal : Signal) : Kernel :=
  d.tracked.foldl (fun k child => signalChild k child signal) (d.signalLeader k signal)

/-- `terminate`, alone: whether the first wait finds everybody gone is up to the processes. -/
def terminate (d : SessionKillDomain) (k : Kernel) (drained : Bool) : Kernel :=
  let termed := d.reapTracked (d.signalAll k .term)
  if drained then termed else d.reapTracked (d.signalAll termed .kill)

end SessionKillDomain

/-- `PortablePtySpawner::spawn`. -/
def portableSpawn (host : PtyHost) (k : Kernel) (d : SessionKillDomain) (g : GlobalTracking) :
    Kernel × SessionKillDomain × GlobalTracking × Except Error Unit :=
  match host.openpty with
  | .error error => (k, d, g, .error (.other s!"openpty failed: {error}"))
  | .ok () =>
    match host.spawnCommand with
    | .error error => (k, d, g, .error (.other s!"spawn failed: {error}"))
    | .ok (pid, known) =>
      -- The child leads a session of its own.
      let started := k.fork pid none true
      match host.cloneReader with
      | .error error => (started, d, g, .error (.other s!"clone pty reader failed: {error}"))
      | .ok () =>
        match host.takeWriter with
        | .error error => (started, d, g, .error (.other s!"take pty writer failed: {error}"))
        | .ok () =>
          if known then
            (started, d.setLeader g pid (if host.pidfdOpened then some k.processes.length else none))
          else (started, d, g, .ok ())

namespace Containment

/-- `spawn_claimed`. The session of a mint that fails stays with its threads, and with it its kill
domain. -/
def spawnClaimed (env : Env) (host : PtyHost) (w : Containment) (sp : Spawn) : Containment × Reply :=
  match KillDomain.openSession with
  | .error error => (w, .error error)
  | .ok containment =>
    match portableSpawn host w.kernel containment w.global with
    | (kernel, containment, global, .error error) =>
      ({ w with kernel, global := (containment.release global).2 }, .error error)
    | (kernel, containment, global, .ok ()) =>
      let allocated := w.shared.allocate env sp.name sp.generation sp.size
      let held := { w with shared := allocated.1, kernel, global, domains := w.domains ++ [containment] }
      match allocated.1.tokens.mintForSession env.sha256 env.config.attachTokenTtl sp.name
          sp.generation host.raw allocated.1.now with
      | (_, .error error) => (held, .error error)
      | (tokens, .ok minted) =>
        let noted := ({ allocated.1 with tokens := tokens }).note
          (.minted sp.name allocated.2 (minted.stored env.sha256))
        ({ held with
            shared := (noted.publish sp.name allocated.2).1.note
              (.published sp.name allocated.2 sp.generation) },
          .issued { sid := allocated.2, session := sp.name, generation := sp.generation,
                    token := minted })

/-- `spawn_session`: the claim is dropped at the end, however the spawn went. -/
def spawnSession (env : Env) (host : PtyHost) (w : Containment) (sp : Spawn) : Containment × Reply :=
  match w.shared.claimName env.config.maxSessions sp.name with
  | (sh, .error error) => ({ w with shared := sh }, .error error)
  | (sh, .ok ()) =>
    let spawned := spawnClaimed env host { w with shared := sh } sp
    ({ spawned.1 with shared := spawned.1.shared.dropClaim sp.name }, spawned.2)

/-- `teardown` of the session at `sid` by a restart, alone. -/
def teardown (host : PtyHost) (w : Containment) (sid : Sid) (s : Session) : Containment :=
  match w.domains[sid]? with
  | none => { w with shared := Op.restartTeardown w.shared sid s }
  | some d =>
    let released := d.release w.global
    { shared := Op.restartTeardown w.shared sid s
      kernel := d.terminate w.kernel host.drained
      global := released.2
      domains := w.domains.set sid released.1 }

/-- A call that spawns. -/
inductive SpawnCall where
  | create (name : SessionName) (size : WindowSize)
  | restartInPlace (name : SessionName)

/-- What a call does before `spawn_session`, and what it asks of it. -/
def prepare (host : PtyHost) (w : Containment) : SpawnCall → Containment × Except Error Spawn
  | .create name size => (w, .ok { name := name, size := size, origin := .create })
  | .restartInPlace name =>
    match w.shared.sessions[name]? with
    | some sid =>
      match w.shared.heap[sid]? with
      | some s =>
        let torn := if w.shared.isAlive sid then w.teardown host sid s else w
        ({ torn with shared := torn.shared.forget name },
          .ok { name := name, size := .default, origin := .restart s.state.generation })
      | none => (w, .error (.notFound name))
    | none =>
      match w.shared.takeTombstone name with
      | (sh, some dead) =>
        ({ w with shared := sh },
          .ok { name := name, size := .default, origin := .restart dead.generation })
      | (sh, none) => ({ w with shared := sh }, .error (.notFound name))

/-- `create` and `restart_in_place`, alone. -/
def run (env : Env) (host : PtyHost) (w : Containment) (call : SpawnCall) : Containment × Reply :=
  match w.prepare host call with
  | (w, .ok sp) => spawnSession env host w sp
  | (w, .error error) => (w, .error error)

/-- What the kill domain and the spawner return, as the sections of the manager see it. -/
def choice (host : PtyHost) (w : Containment) : Choice :=
  { spawned := (portableSpawn host w.kernel { leaderPgid := none, tracked := [] } w.global).2.2.2
    raw := host.raw }

variable {env : Env} {host : PtyHost} {w : Containment}

/-- On what the manager's sections share, `spawn_session` is what its sections do. -/
theorem spawnSession_shared (env : Env) (host : PtyHost) (w : Containment) (sp : Spawn) :
    ((spawnSession env host w sp).1.shared, (spawnSession env host w sp).2) =
      Op.spawnSession env (w.choice host) w.shared sp := by
  rw [spawnSession, Op.spawnSession]
  rcases w.shared.claimName env.config.maxSessions sp.name with ⟨sh, error | ok⟩
  · rfl
  · dsimp only
    rw [spawnClaimed, choice]
    dsimp only [KillDomain.openSession]
    rcases portableSpawn host w.kernel { leaderPgid := none, tracked := [] } w.global with
      ⟨kernel, containment, global, error | ok⟩
    · rfl
    · dsimp only
      rcases (sh.allocate env sp.name sp.generation sp.size).1.tokens.mintForSession env.sha256
        env.config.attachTokenTtl sp.name sp.generation host.raw
        (sh.allocate env sp.name sp.generation sp.size).1.now with ⟨tokens, error | minted⟩
      · rfl
      · rfl

theorem teardown_shared (sid : Sid) (s : Session) :
    (w.teardown host sid s).shared = Op.restartTeardown w.shared sid s := by
  rw [teardown]
  split <;> rfl

/-- On what the manager's sections share, `restart_in_place` is what its sections do. -/
theorem run_restart_shared (env : Env) (host : PtyHost) (w : Containment) (name : SessionName)
    (hheap : ∀ sid, w.shared.sessions[name]? = some sid → w.shared.heap[sid]?.isSome = true) :
    Op.restartInPlace env ((w.prepare host (.restartInPlace name)).1.choice host) w.shared name =
      some ((run env host w (.restartInPlace name)).1.shared,
        (run env host w (.restartInPlace name)).2) := by
  cases hmap : w.shared.sessions[name]? with
  | some sid =>
    obtain ⟨s, hs⟩ := Option.isSome_iff_exists.mp (hheap sid hmap)
    rw [Op.restartInPlace_mapped hmap hs]
    have hprepare : w.prepare host (.restartInPlace name) =
        ({ (if w.shared.isAlive sid then w.teardown host sid s else w) with
            shared := Op.restartForgotten w.shared name sid s },
          .ok { name := name, size := .default, origin := .restart s.state.generation }) := by
      simp only [prepare, hmap, hs, Op.restartForgotten]
      split
      · rw [teardown_shared]
      · rfl
    rw [run, hprepare]
    exact congrArg some (spawnSession_shared env host _ _).symm
  | none =>
    rw [Op.restartInPlace_unmapped hmap, run]
    cases htake : w.shared.takeTombstone name with
    | mk sh dead =>
      cases dead with
      | none => simp only [prepare, hmap, htake]
      | some dead =>
        simp only [prepare, hmap, htake]
        exact congrArg some (spawnSession_shared env host _ _).symm

/-! ## What a failed spawn leaves -/

/-- The processes that a call started were sent a signal of the kill domain, and its claim, its
name and its share of the tracking budget are given back. -/
structure Clean (before after : Containment) : Prop where
  signalled : ∀ i, before.kernel.processes.length ≤ i → i < after.kernel.processes.length →
    ∃ d ∈ after.kernel.delivered.drop before.kernel.delivered.length, d.process = i
  claimed : ∀ n, after.shared.claimed.contains n = before.shared.claimed.contains n
  claims : after.shared.claimed.size = before.shared.claimed.size
  sessions : after.shared.sessions = before.shared.sessions
  budget : after.global = before.global

/-- A spawn that ends before it has started a child: the claim is refused, or the first two steps
of the spawner fail. -/
def Childless (env : Env) (host : PtyHost) (w : Containment) (sp : Spawn) : Prop :=
  (w.shared.claimName env.config.maxSessions sp.name).2.toOption = none ∨
    host.openpty.toOption = none ∨ host.spawnCommand.toOption = none

/-- The spawner starts a child unless one of its first two steps fails, and signals nobody. -/
theorem portableSpawn_cases (host : PtyHost) (k : Kernel) (d : SessionKillDomain)
    (g : GlobalTracking) :
    ((host.openpty.toOption = none ∨ host.spawnCommand.toOption = none) ∧
        ∃ error, portableSpawn host k d g = (k, d, g, .error error)) ∨
      (host.openpty.toOption ≠ none ∧ host.spawnCommand.toOption ≠ none ∧
        (portableSpawn host k d g).1.processes.length = k.processes.length + 1 ∧
        (portableSpawn host k d g).1.delivered = k.delivered) := by
  rw [portableSpawn]
  cases hopen : host.openpty with
  | error error => exact .inl ⟨.inl rfl, _, rfl⟩
  | ok _ =>
    cases hspawn : host.spawnCommand with
    | error error => exact .inl ⟨.inr rfl, _, rfl⟩
    | ok child =>
      obtain ⟨pid, known⟩ := child
      refine .inr ⟨by simp [Except.toOption], by simp [Except.toOption], ?_⟩
      dsimp only
      split
      · simp [Kernel.fork]
      · split
        · simp [Kernel.fork]
        · split <;> simp [Kernel.fork]

/-- The processes after a spawn are those the spawner leaves. -/
theorem spawnClaimed_kernel (env : Env) (host : PtyHost) (w : Containment) (sp : Spawn) :
    (spawnClaimed env host w sp).1.kernel =
      (portableSpawn host w.kernel { leaderPgid := none, tracked := [] } w.global).1 := by
  rw [spawnClaimed]
  dsimp only [KillDomain.openSession]
  rcases portableSpawn host w.kernel { leaderPgid := none, tracked := [] } w.global with
    ⟨kernel, containment, global, error | ok⟩
  · rfl
  · dsimp only
    split <;> rfl

/-- A spawn is clean exactly when it has started no child. -/
theorem spawnSession_clean_iff (env : Env) (host : PtyHost) (w : Containment) (sp : Spawn) :
    Clean w (spawnSession env host w sp).1 ↔ Childless env host w sp := by
  rw [spawnSession]
  rcases w.shared.claimName_cases env.config.maxSessions sp.name with
    ⟨claimed, refused, hclaim, hsame, hsize⟩ | ⟨hclaim, -, hfree, -⟩
  · rw [hclaim]
    refine iff_of_true ?_ (.inl (by rw [hclaim]; rfl))
    exact ⟨fun i h h' => absurd h' (Nat.not_lt.mpr h), hsame, hsize, rfl, rfl⟩
  · rw [hclaim]
    dsimp only
    rcases portableSpawn_cases host w.kernel { leaderPgid := none, tracked := [] } w.global with
      ⟨hearly, failure, hspawn⟩ | ⟨hopen, hspawned, hlen, hdelivered⟩
    · refine iff_of_true ?_ (.inr hearly)
      rw [spawnClaimed]
      dsimp only [KillDomain.openSession]
      rw [hspawn]
      obtain ⟨hcontains, hclaims⟩ := Shared.claimed_dropClaim hfree
      exact ⟨fun i h h' => absurd h' (Nat.not_lt.mpr h), hcontains, hclaims, rfl, rfl⟩
    · refine iff_of_false ?_ ?_
      · intro hclean
        have hkernel := spawnClaimed_kernel env host
          { w with shared := { w.shared with claimed := w.shared.claimed.insert sp.name } } sp
        obtain ⟨d, hd, -⟩ := hclean.signalled w.kernel.processes.length (Nat.le_refl _) (by
          rw [hkernel, hlen]
          exact Nat.lt_succ_self _)
        rw [hkernel, hdelivered, List.drop_length] at hd
        cases hd
      · rintro (h | h | h)
        · rw [hclaim] at h
          cases h
        · exact hopen h
        · exact hspawned h

/-- The call ends before it has started a child. -/
def EndsChildless (env : Env) (host : PtyHost) (w : Containment) (call : SpawnCall) : Prop :=
  ∀ sp, (w.prepare host call).2 = .ok sp → Childless env host (w.prepare host call).1 sp

theorem run_clean_iff (env : Env) (host : PtyHost) (w : Containment) (call : SpawnCall) :
    Clean (w.prepare host call).1 (run env host w call).1 ↔ EndsChildless env host w call := by
  rw [run, EndsChildless]
  cases w.prepare host call with
  | mk prepared asked =>
    cases asked with
    | error error =>
      refine iff_of_true ?_ fun sp h => by cases h
      exact ⟨fun i h h' => absurd h' (Nat.not_lt.mpr h), fun _ => rfl, rfl, rfl, rfl⟩
    | ok sp =>
      rw [spawnSession_clean_iff]
      constructor
      · intro h sp' hsp
        obtain rfl := Except.ok.inj hsp
        exact h
      · intro h
        exact h sp rfl

/-- A failed `create` or `restart_in_place` is clean, from the state in which it came to the spawn,
exactly when the failure came before the child was started. -/
theorem failed_call_clean_iff (env : Env) (host : PtyHost) (w : Containment) (call : SpawnCall) :
    (∀ error, (run env host w call).2 = .error error →
        Clean (w.prepare host call).1 (run env host w call).1) ↔
      ∀ error, (run env host w call).2 = .error error → EndsChildless env host w call := by
  rw [run_clean_iff]

/-- The runtime before its first session. -/
def fresh : Containment :=
  { shared := .init, kernel := .init, global := .new .default none, domains := [] }

/-- The environment works, except for what is given. -/
def brokenReader : PtyHost :=
  { openpty := .ok (), spawnCommand := .ok (100, true), cloneReader := .error "EMFILE",
    takeWriter := .ok (), pidfdOpened := true, raw := some [], drained := true }

/-- The pty has no reader: the call fails, and has sent no signal to the child that it started. -/
theorem brokenReader_leaksChild :
    (run .default brokenReader fresh (.create .sh .default)).2 =
        .error (.other "clone pty reader failed: EMFILE") ∧
      ¬ Clean (fresh.prepare brokenReader (.create .sh .default)).1
        (run .default brokenReader fresh (.create .sh .default)).1 := by
  refine ⟨by decide +kernel, fun hclean => ?_⟩
  obtain ⟨d, hd, -⟩ := hclean.signalled 0 (Nat.le_refl _) (by decide +kernel)
  revert hd
  have hnil : (run .default brokenReader fresh (.create .sh .default)).1.kernel.delivered = [] := by
    decide +kernel
  rw [hnil]
  simp

end Containment

/-! ## The escalation where nobody reacts -/

namespace Surroundings

/-- No signal ends a process, and none exits by itself. -/
structure Idle (env : Surroundings) : Prop where
  ends : ∀ i signal, env.ends i signal = false
  exits : ∀ n, (env.nap n).exits = []

variable {env : Surroundings} {d : SessionKillDomain}

theorem mark_nobody {k : Kernel} {exits : Nat → Bool} (h : ∀ i, exits i = false) :
    k.mark exits = k := by
  have hkept : k.processes.mapIdx (fun i q => if exits i then { q with exited := true } else q) =
      k.processes := by
    refine List.ext_getElem? fun i => ?_
    simp [h]
  rw [Kernel.mark, hkept]

theorem Idle.call (h : env.Idle) (signals : Kernel → Kernel) (k : Kernel) :
    env.call signals k = signals k :=
  mark_nobody fun i => by simp [h.ends]

theorem Idle.signalAll (h : env.Idle) (d : SessionKillDomain) (signal : Signal) (k : Kernel) :
    env.signalAll d signal k = d.signalAll k signal := by
  simp only [Surroundings.signalAll, Surroundings.signalTracked, h.call]
  rfl

theorem Idle.sleep (h : env.Idle) (t : KillTable) : (env.sleep t).kernel = t.kernel :=
  mark_nobody fun i => by simp [h.exits]

/-- However long the poll takes, it only reaps. -/
theorem Idle.waitUntilDrained (h : env.Idle) (d : SessionKillDomain) (deadline : Instant)
    (t : KillTable) :
    (env.waitUntilDrained d deadline t).1.kernel = d.reapTracked t.kernel := by
  fun_induction env.waitUntilDrained d deadline t with
  | case1 t reaped hdrained => rfl
  | case2 t reaped halive hlate => rfl
  | case3 t reaped halive hearly ih =>
    rw [ih, h.sleep]
    exact d.reapTracked_reapTracked t.kernel

/-- Where nobody reacts, the escalation with its polls and its clock leaves the same table as
`terminate` alone. -/
theorem Idle.terminate (h : env.Idle) (d : SessionKillDomain) (grace : Duration) (t : KillTable)
    (leaked : UInt64) :
    ∃ drained, (env.terminate d grace t leaked).1.kernel = d.terminate t.kernel drained := by
  refine ⟨(env.waitUntilDrained d (t.now + grace)
    { t with kernel := env.signalAll d .term t.kernel }).2, ?_⟩
  have hterm := h.waitUntilDrained d (t.now + grace)
    { t with kernel := env.signalAll d .term t.kernel }
  unfold Surroundings.terminate Surroundings.terminateTier1 SessionKillDomain.terminate
  dsimp only
  split
  · rw [hterm, d.reapTracked_reapTracked, h.signalAll]
  · rw [h.waitUntilDrained, hterm, d.reapTracked_reapTracked, h.signalAll, h.signalAll]

end Surroundings
end OpenabPty
