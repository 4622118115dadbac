import OpenabPty.Conn
import OpenabPty.Ops

/-!
# A failed restart

`restart_in_place` from its first to its last section, with no other call in between. It gives up
what it knows about the name before the spawn that may fail: the session in the map without leaving
a tombstone, or the newest tombstone. Afterwards the name has only an older tombstone to rely on,
if there is one.
-/

namespace OpenabPty

namespace Op

variable {env : Env} {c : Choice} {sh : Shared} {name : SessionName}

/-- A call runs alone, for at most so many sections. -/
def alone (env : Env) (c : Choice) : Nat → Shared → Op → Option (Shared × Reply)
  | 0, _, _ => none
  | n + 1, sh, op =>
    match op with
    | .returned reply => some (sh, reply)
    | op => (op.step env sh c).bind fun r => alone env c n r.1 r.2.1

/-- `restart_in_place`, alone. -/
def restartInPlace (env : Env) (c : Choice) (sh : Shared) (name : SessionName) :
    Option (Shared × Reply) :=
  alone env c 14 sh (.restartGet name)

/-- `spawn_session`, alone: the state it leaves and what it returns. -/
def spawnSession (env : Env) (c : Choice) (sh : Shared) (sp : Spawn) : Shared × Reply :=
  match sh.claimName env.config.maxSessions sp.name with
  | (sh, .error error) => (sh, .error error)
  | (sh, .ok ()) =>
    match c.spawned with
    | .error error => (sh.dropClaim sp.name, .error error)
    | .ok () =>
      let allocated := sh.allocate env sp.name sp.generation sp.size
      match allocated.1.tokens.mintForSession env.sha256 env.config.attachTokenTtl sp.name
          sp.generation c.raw allocated.1.now with
      | (_, .error error) => (allocated.1.dropClaim sp.name, .error error)
      | (tokens, .ok minted) =>
        let noted := ({ allocated.1 with tokens := tokens }).note
          (.minted sp.name allocated.2 (minted.stored env.sha256))
        let published := (noted.publish sp.name allocated.2).1.note
          (.published sp.name allocated.2 sp.generation)
        (published.dropClaim sp.name,
          .issued { sid := allocated.2, session := sp.name, generation := sp.generation,
                    token := minted })

/-- One section of a call that runs alone. -/
theorem alone_step {op : Op} {r : Shared × Op × List Op × List Sid} (n : Nat)
    (h : op.step env sh c = some r) : alone env c (n + 1) sh op = alone env c n r.1 r.2.1 := by
  rw [alone, h]
  · rfl
  · rintro reply rfl
    cases h

theorem alone_returned (n : Nat) (reply : Reply) :
    alone env c (n + 1) sh (.returned reply) = some (sh, reply) := rfl

theorem alone_dropClaim (n : Nat) (reply : Reply) :
    alone env c (n + 2) sh (.dropClaim name reply) = some (sh.dropClaim name, reply) := rfl

theorem alone_mint (n : Nat) (sp : Spawn) (sid : Sid) :
    alone env c (n + 4) sh (.mint sp sid) =
      match sh.tokens.mintForSession env.sha256 env.config.attachTokenTtl sp.name sp.generation
          c.raw sh.now with
      | (_, .error error) => some (sh.dropClaim sp.name, .error error)
      | (tokens, .ok minted) =>
        let noted := ({ sh with tokens := tokens }).note (.minted sp.name sid (minted.stored env.sha256))
        let published := (noted.publish sp.name sid).1.note (.published sp.name sid sp.generation)
        some (published.dropClaim sp.name,
          .issued { sid := sid, session := sp.name, generation := sp.generation, token := minted }) := by
  cases hmint : sh.tokens.mintForSession env.sha256 env.config.attachTokenTtl sp.name
      sp.generation c.raw sh.now with
  | mk tokens minted =>
    cases minted with
    | error error =>
      rw [alone_step _ (by simp only [step, hmint]; rfl)]
      exact alone_dropClaim _ _
    | ok minted =>
      rw [alone_step _ (by simp only [step, hmint]; rfl), alone_step _ rfl]
      exact alone_dropClaim _ _

theorem alone_claimName (n : Nat) (sp : Spawn) :
    alone env c (n + 6) sh (.claimName sp) = some (spawnSession env c sh sp) := by
  cases hclaim : sh.claimName env.config.maxSessions sp.name with
  | mk claimed result =>
    cases result with
    | error error =>
      rw [alone_step _ (by simp only [step, hclaim]; rfl), spawnSession, hclaim]
      exact alone_returned _ _
    | ok _ =>
      rw [alone_step _ (by simp only [step, hclaim]; rfl), spawnSession, hclaim]
      dsimp only
      cases hspawned : c.spawned with
      | error error =>
        rw [alone_step _ (by simp only [step, hspawned]; rfl)]
        exact alone_dropClaim _ _
      | ok _ =>
        rw [alone_step _ (by simp only [step, hspawned]; rfl), alone_mint]
        dsimp only
        split <;> simp_all

/-- `teardown` of the session at `sid` by a restart, alone. -/
def restartTeardown (sh : Shared) (sid : Sid) (s : Session) : Shared :=
  let locked := s.teardownLocked .adminKill
  let dead := sh.modify sid fun s => (s.teardownLocked .adminKill).1
  let revoked :=
    if locked.2.2.2 then dead else { dead with tokens := dead.tokens.revokeSession s.name }
  ((closeOutbound revoked sid locked.2.2.1 CloseCode.sessionEnded).modify sid
    Session.clearBuffer).note (.cleared sid)

/-- What a restart of a mapped session leaves of the state before it spawns. -/
def restartForgotten (sh : Shared) (name : SessionName) (sid : Sid) (s : Session) : Shared :=
  (if sh.isAlive sid then restartTeardown sh sid s else sh).forget name

theorem alone_teardown {sid : Sid} {s : Session} {base : Generation} (n : Nat)
    (hs : sh.heap[sid]? = some s) :
    alone env c (n + 11) sh (.teardownLock
        { name := name, sid := sid, cls := .adminKill, code := CloseCode.sessionEnded,
          caller := .restart base }) =
      some (spawnSession env c ((restartTeardown sh sid s).forget name)
        { name := name, size := .default, origin := .restart base }) := by
  rw [alone_step _ (by simp only [step, hs, Option.map_some]; rfl), restartTeardown]
  cases (s.teardownLocked .adminKill).2.2.2 with
  | true =>
    dsimp only [if_true]
    rw [alone_step _ rfl, alone_step _ rfl, afterTeardown, alone_step _ rfl]
    exact alone_claimName _ _
  | false =>
    dsimp only [if_true]
    rw [alone_step _ rfl, alone_step _ rfl, alone_step _ rfl, afterTeardown, alone_step _ rfl]
    exact alone_claimName _ _

/-- A restart of a mapped session: it is torn down, forgotten, and then spawned again. -/
theorem restartInPlace_mapped {sid : Sid} {s : Session} (hmap : sh.sessions[name]? = some sid)
    (hs : sh.heap[sid]? = some s) :
    restartInPlace env c sh name = some (spawnSession env c (restartForgotten sh name sid s)
      { name := name, size := .default, origin := .restart s.state.generation }) := by
  rw [restartInPlace, alone_step _ (by simp only [step, hmap]; rfl),
    alone_step _ (by simp only [step, hs, Option.map_some]; rfl), restartForgotten]
  by_cases halive : sh.isAlive sid = true
  · rw [alone_step _ (by simp only [step, halive, if_true]; rfl), if_pos halive]
    exact alone_teardown _ hs
  · rw [alone_step _ (by simp only [step, halive]; rfl), alone_step _ rfl, if_neg halive]
    exact alone_claimName _ _

/-- A restart of a name with a tombstone: the newest one is taken before the spawn. -/
theorem restartInPlace_unmapped (hmap : sh.sessions[name]? = none) :
    restartInPlace env c sh name =
      match sh.takeTombstone name with
      | (sh', some dead) => some (spawnSession env c sh'
          { name := name, size := .default, origin := .restart dead.generation })
      | (sh', none) => some (sh', .error (.notFound name)) := by
  rw [restartInPlace, alone_step _ (by simp only [step, hmap]; rfl)]
  cases htake : sh.takeTombstone name with
  | mk sh' dead =>
    cases dead with
    | none =>
      rw [alone_step _ (by simp only [step, htake]; rfl)]
      exact alone_returned _ _
    | some dead =>
      rw [alone_step _ (by simp only [step, htake]; rfl)]
      exact alone_claimName _ _

/-! ## What a spawn leaves -/

/-- A spawn keeps the tombstones; when it fails it keeps the map, and its credential has the
generation it was asked for. -/
theorem spawnSession_cases (env : Env) (c : Choice) (sh : Shared) (sp : Spawn) :
    (spawnSession env c sh sp).1.tombstones = sh.tombstones ∧
      ((∃ error, (spawnSession env c sh sp).2 = .error error ∧
          (spawnSession env c sh sp).1.sessions = sh.sessions) ∨
        ∃ issued, (spawnSession env c sh sp).2 = .issued issued ∧
          issued.generation = sp.generation) := by
  rw [spawnSession]
  rcases sh.claimName_cases env.config.maxSessions sp.name with
    ⟨claimed, error, hclaim, -⟩ | ⟨hclaim, -⟩
  · rw [hclaim]
    exact ⟨rfl, .inl ⟨error, rfl, rfl⟩⟩
  · rw [hclaim]
    dsimp only
    cases c.spawned with
    | error error => exact ⟨rfl, .inl ⟨error, rfl, rfl⟩⟩
    | ok _ =>
      dsimp only
      split
      · exact ⟨rfl, .inl ⟨_, rfl, rfl⟩⟩
      · exact ⟨rfl, .inr ⟨_, rfl, rfl⟩⟩

/-- A name that is free, a place below the limit, and an environment that works. -/
structure CanSpawn (env : Env) (c : Choice) (sh : Shared) (name : SessionName) : Prop where
  unmapped : sh.sessions[name]? = none
  unclaimed : sh.claimed.contains name = false
  room : sh.liveSessions + (sh.claimed.insert name).size ≤ env.config.maxSessions
  spawned : c.spawned = .ok ()
  raw : c.raw.isSome = true

/-- Then the spawn succeeds. -/
theorem spawnSession_issued (httl : env.config.attachTokenTtl ≠ 0) (sp : Spawn)
    (h : CanSpawn env c sh sp.name) :
    ∃ issued, (spawnSession env c sh sp).2 = .issued issued ∧ issued.generation = sp.generation := by
  obtain ⟨raw, hraw⟩ := Option.isSome_iff_exists.mp h.raw
  have hclaim : sh.claimName env.config.maxSessions sp.name =
      ({ sh with claimed := sh.claimed.insert sp.name }, .ok ()) := by
    have hcontains : sh.sessions.contains sp.name = false := by
      rw [Std.TreeMap.contains_eq_isSome_getElem?, h.unmapped]
      rfl
    rw [Shared.claimName, hcontains, h.unclaimed, Bool.or_false, if_neg Bool.false_ne_true]
    exact if_neg (Nat.not_lt.mpr h.room)
  rw [spawnSession, hclaim]
  dsimp only
  simp only [h.spawned, TokenEntries.mintForSession, if_neg httl, hraw]
  exact ⟨_, rfl, rfl⟩

end Op

/-! ## What is left of the name -/

/-- The newest tombstone of a name. -/
def lastDead (tombstones : List (SessionName × Tombstone)) (name : SessionName) : Option Tombstone :=
  (tombstones.reverse.find? (·.1 = name)).map (·.2)

namespace Shared

variable {env : Env} {c : Choice} {sh sh' : Shared} {name : SessionName} {base : Generation}

/-- The generation that `restart_in_place` finds for a name: its session's in the map, or its
newest tombstone's. -/
def generation? (sh : Shared) (name : SessionName) : Option Generation :=
  match sh.sessions[name]? with
  | some sid => sh.heap[sid]?.map (·.state.generation)
  | none => (lastDead sh.tombstones name).map (·.generation)

/-- The tombstones that are left when `restart_in_place` comes to the spawn. -/
def spared (sh : Shared) (name : SessionName) : List (SessionName × Tombstone) :=
  match sh.sessions[name]? with
  | some _ => sh.tombstones
  | none => (sh.takeTombstone name).1.tombstones

/-- Among them is one of the name, and the newest such one is not older than the session was. -/
def HasSpare (sh : Shared) (name : SessionName) (base : Generation) : Prop :=
  ∃ dead, lastDead (sh.spared name) name = some dead ∧ base ≤ dead.generation

/-- `attach_with_replay` to the name ends in `SessionDead`. -/
def ReportsDead (env : Env) (sh : Shared) (name : SessionName) : Prop :=
  ∀ (a : Attach) (e : Arrival), a.name = name → ∃ conn, Conn.step env sh e (.get a) = some (sh, conn) ∧
    Conn.step env sh e conn = some (sh, .refused (.sessionDead name))

/-- A later restart, with the tombstones as they are and a spawn that works, succeeds with a later
generation. -/
def Restartable (env : Env) (sh : Shared) (name : SessionName) (base : Generation) : Prop :=
  ∀ (sh' : Shared) (c : Choice), sh'.tombstones = sh.tombstones → Op.CanSpawn env c sh' name →
    ∃ final issued, Op.restartInPlace env c sh' name = some (final, .issued issued) ∧
      base < issued.generation

theorem takeTombstone_snd (sh : Shared) (name : SessionName) :
    (sh.takeTombstone name).2 = lastDead sh.tombstones name := by
  rw [takeTombstone, lastDead]
  cases sh.tombstones.reverse.find? (·.1 = name) <;> rfl

theorem peekTombstone_eq (sh : Shared) (name : SessionName) :
    sh.peekTombstone name = (lastDead sh.tombstones name).map (·.cls) := by
  rw [peekTombstone, lastDead, Option.map_map]
  rfl

theorem takeTombstone_keeps (sh : Shared) (name : SessionName) :
    (sh.takeTombstone name).1.sessions = sh.sessions ∧
      (sh.takeTombstone name).1.claimed = sh.claimed ∧ (sh.takeTombstone name).1.heap = sh.heap := by
  rw [takeTombstone]
  split <;> exact ⟨rfl, rfl, rfl⟩

theorem tombstones_closeOutbound (sid : Sid) (subscriber : Option ConnGeneration) (code : Nat) :
    (Op.closeOutbound sh sid subscriber code).tombstones = sh.tombstones := by
  cases subscriber <;> rfl

theorem tombstones_restartForgotten (sid : Sid) (s : Session) :
    (Op.restartForgotten sh name sid s).tombstones = sh.tombstones := by
  rw [Op.restartForgotten]
  split
  · change (Op.closeOutbound _ sid _ _).tombstones = _
    rw [tombstones_closeOutbound]
    split <;> rfl
  · rfl

theorem sessions_restartForgotten (sid : Sid) (s : Session) :
    (Op.restartForgotten sh name sid s).sessions[name]? = none := by
  rw [Op.restartForgotten, forget, Std.TreeMap.getElem?_erase]
  simp

/-- After a failed restart the name is not mapped, and has the spared tombstones. -/
theorem failed_restart_leaves {error : Error} (hbase : sh.generation? name = some base)
    (hfail : Op.restartInPlace env c sh name = some (sh', .error error)) :
    sh'.tombstones = sh.spared name ∧ sh'.sessions[name]? = none := by
  rw [generation?] at hbase
  rw [spared]
  cases hmap : sh.sessions[name]? with
  | some sid =>
    rw [hmap] at hbase
    obtain ⟨s, hs, -⟩ := Option.map_eq_some_iff.mp hbase
    rw [Op.restartInPlace_mapped hmap hs] at hfail
    obtain ⟨htomb, ⟨_, -, hsessions⟩ | ⟨issued, hissued, -⟩⟩ := Op.spawnSession_cases env c
      (Op.restartForgotten sh name sid s)
      { name := name, size := .default, origin := .restart s.state.generation }
    · rw [Option.some.inj hfail] at htomb hsessions
      exact ⟨htomb.trans (tombstones_restartForgotten sid s),
        hsessions ▸ sessions_restartForgotten sid s⟩
    · rw [Option.some.inj hfail] at hissued
      cases hissued
  | none =>
    rw [hmap] at hbase
    obtain ⟨dead, hdead, -⟩ := Option.map_eq_some_iff.mp hbase
    rw [Op.restartInPlace_unmapped hmap] at hfail
    have hsnd := takeTombstone_snd sh name
    have hkeeps := (takeTombstone_keeps sh name).1
    rw [hdead] at hsnd
    cases htake : sh.takeTombstone name with
    | mk taken found =>
      rw [htake] at hsnd hkeeps hfail
      obtain rfl : found = some dead := hsnd
      obtain ⟨htomb, ⟨_, -, hsessions⟩ | ⟨issued, hissued, -⟩⟩ := Op.spawnSession_cases env c taken
        { name := name, size := .default, origin := .restart dead.generation }
      · rw [Option.some.inj hfail] at htomb hsessions
        refine ⟨htomb, ?_⟩
        rw [hsessions, hkeeps]
        exact hmap
      · rw [Option.some.inj hfail] at hissued
        cases hissued

/-- An attach to a name that is not mapped reports what the tombstones say. -/
theorem reportsDead_iff (hmap : sh.sessions[name]? = none) :
    ReportsDead env sh name ↔ ∃ dead, lastDead sh.tombstones name = some dead := by
  have hget : ∀ (a : Attach) (e : Arrival), a.name = name →
      Conn.step env sh e (.get a) = some (sh, .peekTombstone a) := by
    rintro a e rfl
    simp only [Conn.step, hmap]
  constructor
  · intro h
    obtain ⟨conn, hfirst, hsecond⟩ := h
      { name := name, generation := ⟨1⟩, size := .default, since := none, verifiedAt := 0 } {} rfl
    rw [hget _ _ rfl] at hfirst
    obtain rfl := (Prod.mk.inj (Option.some.inj hfirst)).2
    cases hlast : lastDead sh.tombstones name with
    | some dead => exact ⟨dead, rfl⟩
    | none => simp [Conn.step, peekTombstone_eq, hlast] at hsecond
  · rintro ⟨dead, hlast⟩ a e rfl
    refine ⟨.peekTombstone a, hget a e rfl, ?_⟩
    simp only [Conn.step, peekTombstone_eq, hlast, Option.map_some]

/-- A restart that takes a tombstone and can spawn succeeds with the next generation. -/
theorem restart_taking (httl : env.config.attachTokenTtl ≠ 0) {dead : Tombstone}
    (hlast : lastDead sh.tombstones name = some dead) (hcan : Op.CanSpawn env c sh name) :
    ∃ final issued, Op.restartInPlace env c sh name = some (final, .issued issued) ∧
      issued.generation = dead.generation.succ := by
  have hsnd := takeTombstone_snd sh name
  obtain ⟨hsessions, hclaimed, hheap⟩ := takeTombstone_keeps sh name
  rw [hlast] at hsnd
  rw [Op.restartInPlace_unmapped hcan.unmapped]
  cases htake : sh.takeTombstone name with
  | mk taken found =>
    rw [htake] at hsnd hsessions hclaimed hheap
    obtain rfl : found = some dead := hsnd
    have hcan' : Op.CanSpawn env c taken name := by
      refine ⟨hsessions ▸ hcan.unmapped, hclaimed ▸ hcan.unclaimed, ?_, hcan.spawned, hcan.raw⟩
      have hlive : taken.liveSessions = sh.liveSessions := by
        simp only [liveSessions, isAlive]
        rw [hsessions, hheap]
      rw [hlive, hclaimed]
      exact hcan.room
    obtain ⟨issued, hissued, hgen⟩ := Op.spawnSession_issued httl
      { name := name, size := .default, origin := .restart dead.generation } hcan'
    exact ⟨_, issued, congrArg some (Prod.ext rfl hissued), hgen⟩

theorem restartable_iff (hmax : 0 < env.config.maxSessions) (httl : env.config.attachTokenTtl ≠ 0)
    {dead : Tombstone} (hlast : lastDead sh.tombstones name = some dead) :
    Restartable env sh name base ↔ base ≤ dead.generation := by
  constructor
  · intro h
    -- An empty runtime with these tombstones can spawn.
    obtain ⟨sh', htomb, hcan⟩ : ∃ sh' : Shared, sh'.tombstones = sh.tombstones ∧
        Op.CanSpawn env {} sh' name :=
      ⟨{ Shared.init with tombstones := sh.tombstones }, rfl, rfl, rfl, hmax, rfl, rfl⟩
    obtain ⟨final, issued, hrun, hlt⟩ := h sh' {} htomb hcan
    obtain ⟨final', issued', hrun', hgen⟩ := restart_taking httl (htomb ▸ hlast) hcan
    rw [hrun] at hrun'
    obtain ⟨-, rfl⟩ : final = final' ∧ issued = issued' := by simpa using hrun'
    rw [hgen] at hlt
    exact Nat.le_of_lt_succ hlt
  · intro hle sh' c htomb hcan
    obtain ⟨final, issued, hrun, hgen⟩ := restart_taking httl (htomb ▸ hlast) hcan
    refine ⟨final, issued, hrun, ?_⟩
    rw [hgen]
    exact Nat.lt_succ_of_le hle

/-- A failed restart keeps the name restartable exactly when the tombstones it spares have one of
the name, the newest of which is not older than the session was. -/
theorem failed_restart_iff (hmax : 0 < env.config.maxSessions)
    (httl : env.config.attachTokenTtl ≠ 0) {error : Error}
    (hbase : sh.generation? name = some base)
    (hfail : Op.restartInPlace env c sh name = some (sh', .error error)) :
    (ReportsDead env sh' name ∧ Restartable env sh' name base) ↔ HasSpare sh name base := by
  obtain ⟨htomb, hmap⟩ := failed_restart_leaves hbase hfail
  rw [reportsDead_iff hmap, HasSpare, ← htomb]
  constructor
  · rintro ⟨⟨dead, hlast⟩, hrestart⟩
    exact ⟨dead, hlast, (restartable_iff hmax httl hlast).mp hrestart⟩
  · rintro ⟨dead, hlast, hle⟩
    exact ⟨⟨dead, hlast⟩, (restartable_iff hmax httl hlast).mpr hle⟩

/-- The spawner fails. -/
def spawnFails : Choice := { spawned := .error (.other "spawn failed") }

/-- The session `sh` was created, after its first life ended in these tombstones. -/
def recreated (tombstones : List (SessionName × Tombstone)) : Shared :=
  (Op.spawnSession .default {} { Shared.init with tombstones := tombstones }
    { name := .sh, size := .default, origin := .create }).1

theorem recreated_spare_iff : ∃ sh' error,
    Op.restartInPlace .default spawnFails (recreated [(.sh, ⟨⟨1⟩, .selfExit⟩)]) .sh =
        some (sh', .error error) ∧
      ((ReportsDead .default sh' .sh ∧ Restartable .default sh' .sh ⟨1⟩) ↔
        HasSpare (recreated [(.sh, ⟨⟨1⟩, .selfExit⟩)]) .sh ⟨1⟩) := by
  obtain ⟨⟨sh', reply⟩, hrun, hreply⟩ := Option.map_eq_some_iff.mp
    (show (Op.restartInPlace .default spawnFails (recreated [(.sh, ⟨⟨1⟩, .selfExit⟩)]) .sh).map (·.2) =
      some (.error (.other "spawn failed")) by decide +kernel)
  obtain rfl : reply = .error (.other "spawn failed") := hreply
  exact ⟨sh', _, hrun, failed_restart_iff (by decide) (by decide) (by decide +kernel) hrun⟩

/-- After its first life the session `sh` has no other record than the map: when its restart fails,
an attach reports `NotFound` and a restart that could spawn does too. -/
theorem firstLife_forgotten : ∃ sh' error,
    Op.restartInPlace .default spawnFails (recreated []) .sh = some (sh', .error error) ∧
      ¬ ReportsDead .default sh' .sh ∧ ¬ Restartable .default sh' .sh ⟨1⟩ := by
  obtain ⟨⟨sh', reply⟩, hrun, hleft⟩ := Option.map_eq_some_iff.mp
    (show (Op.restartInPlace .default spawnFails (recreated []) .sh).map
        (fun r => (r.2, r.1.tombstones, r.1.sessions[SessionName.sh]?)) =
      some (.error (.other "spawn failed"), [], none) by decide +kernel)
  simp only [Prod.mk.injEq] at hleft
  obtain ⟨rfl, htomb, hmap⟩ := hleft
  refine ⟨sh', _, hrun, ?_, ?_⟩
  · rw [reportsDead_iff hmap, htomb]
    rintro ⟨dead, hdead⟩
    cases hdead
  · intro h
    obtain ⟨final, issued, hagain, -⟩ := h Shared.init {} (by rw [htomb]; rfl)
      ⟨rfl, rfl, by decide, rfl, rfl⟩
    rw [Op.restartInPlace_unmapped (by rfl)] at hagain
    cases hagain

end Shared

end OpenabPty
