import OpenabPty.Base

/-!
# Sessions that nothing can reach

A published session that is alive should be the one the map holds under its name: `kill`, the
TTL and the shutdown only reach sessions through the map. `forget` removes by name, so a
teardown that ends late removes whatever the name holds by then, and `publish` replaces it.
-/

namespace OpenabPty

/-- Every session that was published and is alive is in the map under its own name. -/
def Shared.NoOrphan (sh : Shared) : Prop :=
  ∀ sid name, sh.name? sid = some name → sh.published sid = true → sh.isAlive sid = true →
    sh.sessions[name]? = some sid

/-- The step does not remove or replace the map entry of a live session. -/
def World.SparesLive (w : World) (l : World.Label) : Prop :=
  ∀ i c op name sid, l = .step i c → w.tasks[i]? = some (.op op) → op.replaces = some name →
    w.shared.sessions[name]? = some sid → w.shared.isAlive sid = false

namespace Shared

variable {sh sh' : Shared}

/-- Sessions may die while the map stays. -/
theorem NoOrphan.keep (h : sh.NoOrphan) (hk : sh.KeepsMap sh') : sh'.NoOrphan := by
  intro sid name hn hp ha
  rw [hk.sessions]
  exact h sid name (hk.name sid ▸ hn) (hk.published sid ▸ hp) (hk.alive sid ha)

/-- An allocation: the new session is not published yet. -/
theorem NoOrphan.allocate (h : sh.NoOrphan) (hI : sh.Registered) (env : Env) (name : SessionName)
    (generation : Generation) (size : WindowSize) :
    (sh.allocate env name generation size).1.NoOrphan := by
  intro sid n hn hp ha
  have hlt := hI.allocated sid hp
  rw [name?, heap_allocate_of_lt sh env _ _ _ hlt] at hn
  rw [isAlive, heap_allocate_of_lt sh env _ _ _ hlt] at ha
  exact h sid n hn hp ha

/-- A removal of an entry that is not alive. -/
theorem NoOrphan.forget (h : sh.NoOrphan) (name : SessionName)
    (hdead : ∀ sid, sh.sessions[name]? = some sid → sh.isAlive sid = false) :
    (sh.forget name).NoOrphan := by
  intro sid n hn hp ha
  have hm : sh.sessions[n]? = some sid := h sid n hn hp ha
  rw [sessions_forget, if_neg, hm]
  rintro rfl
  exact absurd ha (Bool.eq_false_iff.mp (hdead sid hm))

/-- A removal of a live entry leaves that session without one. -/
theorem not_noOrphan_forget (hI : sh.Registered) {name : SessionName} {sid : Sid}
    (hm : sh.sessions[name]? = some sid) (ha : sh.isAlive sid = true) :
    ¬ (sh.forget name).NoOrphan := by
  intro hno
  obtain ⟨hp, hn⟩ := hI.mapped name sid hm
  have hgone := hno sid name hn hp ha
  rw [sessions_forget, if_pos rfl] at hgone
  cases hgone

/-- `publish` over an entry that is not alive. -/
theorem NoOrphan.publish (h : sh.NoOrphan) {sp : Spawn} {sid : Sid}
    (hname : sh.name? sid = some sp.name)
    (hdead : ∀ old, sh.sessions[sp.name]? = some old → sh.isAlive old = false) :
    (sh.publishNoted sp sid).NoOrphan := by
  intro t n hn hp ha
  rw [sessions_publishNoted]
  have hn : sh.name? t = some n := hn
  have ha : sh.isAlive t = true := ha
  rw [published_publishNoted, Bool.or_eq_true, decide_eq_true_eq] at hp
  rcases hp with rfl | hp
  · rw [hname] at hn
    rw [if_pos (Option.some.inj hn)]
  · have hm := h t n hn hp ha
    rw [if_neg, hm]
    rintro rfl
    exact absurd ha (Bool.eq_false_iff.mp (hdead t hm))

/-- `publish` over a live entry leaves the displaced session without one. -/
theorem not_noOrphan_publish (hI : sh.Registered) {sp : Spawn} {sid old : Sid}
    (hnew : sh.published sid = false) (hm : sh.sessions[sp.name]? = some old)
    (ha : sh.isAlive old = true) : ¬ (sh.publishNoted sp sid).NoOrphan := by
  intro hno
  obtain ⟨hp, hn⟩ := hI.mapped sp.name old hm
  have hkept := hno old sp.name hn (by rw [published_publishNoted, hp, Bool.or_true]) ha
  rw [sessions_publishNoted, if_pos rfl] at hkept
  obtain rfl := Option.some.inj hkept
  rw [hnew] at hp
  cases hp

end Shared

/-! ## Runs -/

section Step

variable {env : Env} {sh sh' : Shared} {t t' : Task} {c : Input} {new : List Task}

/-- One step of a task that spares live sessions. -/
theorem Task.noOrphan_step (h : Task.step env sh t c = some (sh', t', new))
    (hI : sh.Registered) (hA : sh.Sound t) (hno : sh.NoOrphan)
    (hspares : ∀ op name sid, t = .op op → op.replaces = some name →
      sh.sessions[name]? = some sid → sh.isAlive sid = false) : sh'.NoOrphan := by
  rcases step_cases h with ⟨op, op', ops, sids, rfl, hop, rfl, rfl⟩ |
    ⟨conn, conn', rfl, hconn, rfl, rfl⟩ | ⟨pump, rfl, hpump, rfl⟩
  · cases hr : op.replaces with
    | none =>
      by_cases hspawn : ∃ sp, op = .spawn sp
      · obtain ⟨sp, rfl⟩ := hspawn
        simp only [Op.step] at hop
        split at hop <;> cases hop
        · exact hno
        · exact hno.allocate hI env _ _ _
      · exact hno.keep (Op.step_keepsMap hop hr fun sp e => hspawn ⟨sp, e⟩)
    | some name =>
      have hdead := fun sid => hspares op name sid rfl hr
      cases op <;> simp only [Op.replaces, Option.some.injEq, reduceCtorEq] at hr <;> subst hr <;>
        simp only [Op.step] at hop
      case publish sp sid token =>
        obtain ⟨hlife, -⟩ := hA.spawning sp sid rfl
        cases hop
        exact hno.publish (by rw [Shared.name?_eq_life, hlife]; rfl) hdead
      case restartForget name base =>
        cases hop
        exact hno.forget name hdead
      case forget td report =>
        cases hop
        exact hno.forget td.name hdead
  · exact hno.keep (Conn.step_steady hconn).keepsMap
  · exact hno.keep (Pump.step_steady hpump).keepsMap

/-- One step of a task that does not spare a live session leaves it without an entry. -/
theorem Task.not_noOrphan_step {op : Op} {name : SessionName} {sid : Sid}
    (h : Task.step env sh (.op op) c = some (sh', t', new)) (hI : sh.Registered)
    (hA : sh.Sound (.op op)) (hr : op.replaces = some name)
    (hm : sh.sessions[name]? = some sid) (ha : sh.isAlive sid = true) : ¬ sh'.NoOrphan := by
  obtain ⟨⟨sh₁, op', ops, sids⟩, hop, heq⟩ := Option.map_eq_some_iff.mp h
  cases heq
  cases op <;> simp only [Op.replaces, Option.some.injEq, reduceCtorEq] at hr <;> subst hr <;>
    simp only [Op.step] at hop
  case publish sp new token =>
    cases hop
    exact Shared.not_noOrphan_publish hI (hA.spawning sp new rfl).2 hm ha
  case restartForget name base =>
    cases hop
    exact Shared.not_noOrphan_forget hI hm ha
  case forget td report =>
    cases hop
    exact Shared.not_noOrphan_forget hI hm ha

end Step

variable {env : Env} {w w' : World} {l : World.Label}

/-- A step that spares live sessions makes no orphan. -/
theorem World.noOrphan_next (hI : w.Base) (hno : w.shared.NoOrphan) (hspares : w.SparesLive l)
    (h : World.next env w l = some w') : w'.shared.NoOrphan := by
  cases l with
  | call t =>
    obtain ⟨-, rfl⟩ := Threads.next_call h
    exact hno
  | step i c =>
    obtain ⟨t, s', t', new, ht, hs, rfl⟩ := Threads.next_step h
    exact Task.noOrphan_step hs hI.shared (hI.tasks t (List.mem_of_getElem? ht)) hno
      fun op name sid ht' => hspares i c op name sid rfl (ht' ▸ ht)
  | env e =>
    obtain rfl := Threads.next_env h
    exact hno

/-- A step that does not spare a live session makes an orphan. -/
theorem World.not_noOrphan_next (hI : w.Base) (hspares : ¬ w.SparesLive l)
    (h : World.next env w l = some w') : ¬ w'.shared.NoOrphan := by
  simp only [SparesLive, not_forall, Bool.not_eq_false] at hspares
  obtain ⟨i, c, op, name, sid, rfl, ht, hr, hm, ha⟩ := hspares
  obtain ⟨t, s', t', new, ht', hs, rfl⟩ := Threads.next_step h
  obtain rfl := Option.some.inj (ht.symm.trans ht')
  exact Task.not_noOrphan_step hs hI.shared (hI.tasks _ (List.mem_of_getElem? ht)) hr hm ha

/-- Along every run, no published live session is ever missing from the map exactly when every
`forget` and every `publish` of the run finds no live session under its name. -/
theorem noOrphan_iff_sparesLive (env : Env) (run : List World.Label) :
    Trace.AllStates (World.next env) (fun w => w.shared.NoOrphan) World.init run ↔
      Trace.AllSteps (World.next env) World.SparesLive World.init run := by
  refine Trace.allStates_iff_allSteps (I := fun w : World => w.Base ∧ w.shared.NoOrphan)
    (fun _ hI => hI.2) (fun _ _ _ hI hc h => ?_) (fun _ _ _ hI hc h => ?_)
    ⟨World.base_init, fun sid name hn => by cases hn⟩
  · exact ⟨World.base_next hI.1 h, World.noOrphan_next hI.1 hI.2 hc h⟩
  · exact World.not_noOrphan_next hI.1 hc h

/-- `sh` is created; a kill marks it dead and is preempted; a restart of `sh`, which finds the
session dead and does not wait, publishes its successor; the kill goes on to its `forget`. -/
def killOverRestart : List World.Label :=
  [.call (.op (.claimName { name := .sh, size := .default, origin := .create })),
   .step 0 {}, .step 0 {}, .step 0 {}, .step 0 {}, .step 0 {},
   .call (.op (.killGet .sh)), .step 2 {}, .step 2 {},
   .call (.op (.restartGet .sh)), .step 3 {}, .step 3 {}, .step 3 {}, .step 3 {},
   .step 3 {}, .step 3 {}, .step 3 {}, .step 3 {}, .step 3 {},
   .step 2 {}, .step 2 {}, .step 2 {}, .step 2 {}]

/-- The successor ends up alive, published, and in no map. -/
theorem killOverRestart_orphans :
    ¬ Trace.AllStates (World.next .default) (fun w => w.shared.NoOrphan) World.init
      killOverRestart := by
  intro h
  obtain ⟨w, hno, hw⟩ := h.observe
    (f := fun w => (w.shared.name? 1, w.shared.published 1, w.shared.isAlive 1,
      w.shared.sessions[SessionName.sh]?))
    (show _ = some (some SessionName.sh, true, true, none) from by decide)
  simp only [Prod.mk.injEq] at hw
  obtain ⟨hn, hp, ha, hm⟩ := hw
  rw [hno 1 .sh hn hp ha] at hm
  cases hm

end OpenabPty
