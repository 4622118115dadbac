import OpenabPty.Core.History
import OpenabPty.Base

/-!
# The shutdown sequence

`begin_drain` sets a flag that `admin_create` tests when it starts and a restart never does.
`SessionManager::shutdown` takes one snapshot of the map and tears down what is in it, while the
server goes on to serve: a spawn that publishes after the snapshot is out of its reach.
-/

namespace OpenabPty

/-- The tasks that arrived after `begin_drain`, the sessions they spawned, and the shutdowns
that took their snapshot after it. -/
structure ShutdownLog where
  late : List Nat
  spawned : List Sid
  drains : List Nat
  deriving DecidableEq

/-- What a step adds to the log. -/
def ShutdownLog.note (w : World) (l : World.Label) (log : ShutdownLog) : ShutdownLog :=
  match l with
  | .call _ => if w.shared.draining then { log with late := w.tasks.length :: log.late } else log
  | .step i c =>
    match w.tasks[i]? with
    | some (.op (.spawn _)) =>
      if c.choice.spawned.isOk && log.late.contains i then
        { log with spawned := w.shared.heap.length :: log.spawned }
      else log
    | some (.op .shutdownSnapshot) =>
      if w.shared.draining then { log with drains := i :: log.drains } else log
    | _ => log
  | .env _ => log

/-- The runtime with the log. -/
abbrev Shutdown := Trace.Noted World ShutdownLog

def Shutdown.init : Shutdown :=
  { state := World.init, log := { late := [], spawned := [], drains := [] } }

def Shutdown.next (env : Env) : Shutdown → World.Label → Option Shutdown :=
  Trace.noted (World.next env) fun w l _ => ShutdownLog.note w l

/-- Every operation has returned. -/
def World.Finished (w : World) : Prop :=
  ∀ t ∈ w.tasks, ∀ o, t = .op o → ∃ reply, o = .returned reply

/-- No request that arrived after `begin_drain` has spawned a session, and when the shutdown has
returned and nothing is in flight no session is alive. -/
structure Shutdown.Drained (w : Shutdown) : Prop where
  spawned : w.log.spawned = []
  stopped : ∀ i ∈ w.log.drains, ∀ reports,
    w.state.tasks[i]? = some (.op (.returned (.shutdown reports))) → w.state.Finished →
      ∀ (sid : Sid) (s : Session), w.state.shared.heap[sid]? = some s → s.state.alive = false

/-- After `begin_drain` no restart arrives that finds its session or a tombstone of it, and no
direct `create`; the shutdown finds every live session in the map, and nothing is spawned after
it has looked. -/
def Shutdown.Sealed (w : Shutdown) (l : World.Label) : Prop :=
  match l with
  | .call (.op (.claimName _)) => w.state.shared.draining = false
  | .step i c =>
    match w.state.tasks[i]? with
    | some (.op (.restartGet name)) => i ∈ w.log.late → w.state.shared.sessions[name]? = none
    | some (.op (.restartTombstone name)) =>
      i ∈ w.log.late → (w.state.shared.takeTombstone name).2 = none
    | some (.op (.spawn _)) => c.choice.spawned.isOk = true → w.log.drains = []
    | some (.op .shutdownSnapshot) => w.state.shared.draining = true →
      ∀ sid < w.state.shared.heap.length, w.state.shared.isAlive sid = true →
        sid ∈ w.state.shared.sessionValues
    | _ => True
  | _ => True

instance (w : Shutdown) (l : World.Label) : Decidable (w.Sealed l) := by
  unfold Shutdown.Sealed
  split
  · infer_instance
  · split <;> infer_instance
  · infer_instance

/-! ## What one step does -/

/-- The operation is on its way to a spawn. -/
def Op.spawns : Op → Bool
  | .claimName _ | .spawn _ | .restartGeneration _ _ | .restartIsAlive _ _ _
  | .restartForget _ _ => true
  | .teardownLock td | .teardownRevoke td _ _ | .teardownClose td _ _ | .teardownClear td _ =>
    match td.caller with
    | .restart _ => true
    | _ => false
  | _ => false

def Task.spawns : Task → Bool
  | .op o => o.spawns
  | _ => false

/-- The sessions a shutdown still has to mark dead. -/
def Op.stops : Op → Option (List Sid)
  | .shutdownNext loop => some loop.rest
  | .teardownLock td =>
    match td.caller with
    | .shutdown loop => some (td.sid :: loop.rest)
    | _ => none
  | .teardownRevoke td _ _ | .teardownClose td _ _ | .teardownClear td _ | .forget td _ =>
    match td.caller with
    | .shutdown loop => some loop.rest
    | _ => none
  | .returned (.shutdown _) => some []
  | _ => none

def Task.stops : Task → Option (List Sid) := Task.onOp Op.stops

section Step

open Shared

variable {env : Env} {sh sh' : Shared} {t t' : Task} {c : Input} {new : List Task}

/-- `begin_drain` is never undone. -/
theorem Op.draining_step {ch : Choice} {op op' : Op} {ops : List Op} {sids : List Sid}
    (h : op.step env sh ch = some (sh', op', ops, sids)) (hd : sh.draining = true) :
    sh'.draining = true := by
  by_cases hq : op.quiet = true
  · exact (step_quiet hq h).1.draining.trans hd
  cases op <;> simp only [quiet, not_true_eq_false] at hq <;>
    grind [step, Shared.claimName, Shared.takeTombstone, Shared.allocate, Shared.publish,
      Shared.modify, Shared.note, Shared.forget, Shared.rememberDead, Shared.dropClaim]

theorem Task.draining_step (h : Task.step env sh t c = some (sh', t', new))
    (hd : sh.draining = true) : sh'.draining = true := by
  rcases step_cases h with ⟨op, op', ops, sids, rfl, hop, -⟩ | ⟨o, o', rfl, hconn, -⟩ |
    ⟨pump, rfl, hpump, -⟩
  · exact Op.draining_step hop hd
  · exact (Conn.step_steady hconn).draining.trans hd
  · exact (Pump.step_steady hpump).draining.trans hd

/-- How an operation gets on its way to a spawn. -/
theorem Op.spawns_step {ch : Choice} {op op' : Op} {ops : List Op} {sids : List Sid}
    (h : op.step env sh ch = some (sh', op', ops, sids)) (hop : op.spawns = false)
    (hop' : op'.spawns = true) : sh.draining = false ∨
      (∃ name, op = .restartGet name ∧ sh.sessions[name]? ≠ none) ∨
      ∃ name, op = .restartTombstone name ∧ (sh.takeTombstone name).2 ≠ none := by
  have hgo := (flow_step h).1
  clear h
  cases hgo with
  | create name size hdrain => exact .inl hdrain
  | restart name sid hm =>
    refine .inr (.inl ⟨name, rfl, ?_⟩)
    rw [hm]
    exact Option.some_ne_none sid
  | tombstoneTaken name dead htake =>
    refine .inr (.inr ⟨name, rfl, ?_⟩)
    rw [htake]
    exact Option.some_ne_none dead
  | tornForRestart td report base hcaller =>
    rw [spawns, hcaller] at hop
    cases hop
  | markedDead | deadAlready | revoked | closed =>
    exact absurd (hop.symm.trans hop') Bool.false_ne_true
  | claimed | restartGeneration | restartAlive | restartDead | restartForgotten => cases hop
  | _ => cases hop'

/-- A session that a shutdown has to mark dead is still on its list, or dead. -/
theorem Op.stops_step {ch : Choice} {op op' : Op} {ops : List Op} {sids : List Sid}
    (h : op.step env sh ch = some (sh', op', ops, sids)) {pending : List Sid}
    (hop : op.stops = some pending) : ∃ pending', op'.stops = some pending' ∧
      ∀ sid ∈ pending, sid ∈ pending' ∨ sh'.isAlive sid = false := by
  obtain ⟨hgo, -⟩ := flow_step h
  have hkeep : op'.stops = some pending → ∃ pending', op'.stops = some pending' ∧
      ∀ sid ∈ pending, sid ∈ pending' ∨ sh'.isAlive sid = false :=
    fun hop' => ⟨pending, hop', fun _ hsid => .inl hsid⟩
  cases hgo with
  | shutdownNext => exact hkeep hop
  | shutdownDone =>
    cases hop
    exact hkeep rfl
  | markedDead td s hs | deadAlready td s hs =>
    obtain ⟨s', hs', heq⟩ := Option.map_eq_some_iff.mp h
    obtain rfl : _ = sh' := congrArg Prod.fst heq
    simp only [stops] at hop
    split at hop
    · rename_i loop hcaller
      cases hop
      refine ⟨loop.rest, by simp only [stops, hcaller], fun sid hsid => ?_⟩
      rcases List.mem_cons.mp hsid with rfl | hsid
      · right
        rw [isAlive, heap_modify, if_pos rfl, hs]
        rfl
      · exact .inl hsid
    · cases hop
  | revoked | closed | torn => exact hkeep hop
  | forgottenByShutdown td report loop hcaller =>
    rw [stops, hcaller] at hop
    exact hkeep hop
  | forgotten td report _ hshutdown =>
    rw [stops] at hop
    split at hop
    · exact absurd ‹_› (hshutdown _)
    · cases hop
  | tornForRestart _ _ _ hcaller | tornDisplaced _ _ hcaller | forgottenBySelfExit _ _ hcaller =>
    rw [stops, hcaller] at hop
    cases hop
  | _ => cases hop

theorem Task.stops_step (h : Task.step env sh t c = some (sh', t', new)) {pending : List Sid}
    (ht : t.stops = some pending) : ∃ pending', t'.stops = some pending' ∧
      ∀ sid ∈ pending, sid ∈ pending' ∨ sh'.isAlive sid = false := by
  rcases step_cases h with ⟨op, op', ops, sids, rfl, hop, rfl, -⟩ | ⟨o, o', rfl, -⟩ |
    ⟨pump, rfl, -⟩
  · exact Op.stops_step hop ht
  · cases ht
  · cases ht

end Step

/-! ## Runs -/

variable {env : Env} {w w' : Shutdown} {l : World.Label}

/-- The invariant of the shutdown: a late request is not on its way to a spawn, and a shutdown
that has looked has every live session on its list. -/
structure Shutdown.Closing (w : Shutdown) : Prop where
  base : w.state.Base
  spawned : w.log.spawned = []
  late : ∀ i ∈ w.log.late, w.state.shared.draining = true ∧
    ∃ t, w.state.tasks[i]? = some t ∧ t.spawns = false
  drains : ∀ i ∈ w.log.drains, ∃ t pending, w.state.tasks[i]? = some t ∧
    t.stops = some pending ∧ ∀ sid, w.state.shared.isAlive sid = true → sid ∈ pending

theorem Shutdown.closing_init : Shutdown.init.Closing where
  base := World.base_init
  spawned := rfl
  late _ h := absurd h List.not_mem_nil
  drains _ h := absurd h List.not_mem_nil

theorem Shutdown.Closing.drained (h : w.Closing) : w.Drained where
  spawned := h.spawned
  stopped i hi reports ht _ sid s hs := by
    obtain ⟨t, pending, ht', hstops, hlive⟩ := h.drains i hi
    obtain rfl := Option.some.inj (ht.symm.trans ht')
    cases hstops
    rw [h.base.shared.alive_eq hs]
    refine Bool.eq_false_iff.mpr fun halive => ?_
    refine absurd (hlive sid ?_) List.not_mem_nil
    rw [Shared.isAlive, hs]
    exact halive

theorem Task.getElem?_set_append {tasks new : List Task} {i j : Nat} {t t' u : Task}
    (hi : tasks[i]? = some t) (hj : tasks[j]? = some u) :
    (tasks.set i t' ++ new)[j]? = some (if i = j then t' else u) := by
  have hlt := (List.getElem?_eq_some_iff.mp hj).1
  rw [List.getElem?_append_left (by rwa [List.length_set])]
  split
  · subst i
    exact List.getElem?_set_self hlt
  · rw [List.getElem?_set_ne ‹_›]
    exact hj

/-- A request that has just arrived is not on its way to a spawn, if it is no direct `create`. -/
theorem Task.spawns_entry {t : Task} (he : t.entry = true)
    (hclaim : ∀ sp, t ≠ .op (.claimName sp)) : t.spawns = false := by
  cases t with
  | op o => cases o <;> first | rfl | exact absurd rfl (hclaim _) | cases he
  | conn o => rfl
  | pump o => rfl

section Step

variable {i : Nat} {c : Input} {t t' : Task} {sh' : Shared} {new : List Task}

/-- What the log says after a step of a task. -/
theorem ShutdownLog.note_step {w : World} (ht : w.tasks[i]? = some t) (log : ShutdownLog) :
    (note w (.step i c) log).late = log.late ∧
    ((note w (.step i c) log).spawned = log.spawned ∨
      (∃ sp, t = .op (.spawn sp)) ∧ i ∈ log.late) ∧
    ((note w (.step i c) log).drains = log.drains ∨ t = .op .shutdownSnapshot ∧
      w.shared.draining = true ∧ (note w (.step i c) log).drains = i :: log.drains) := by
  simp only [note]
  rw [ht]
  split
  · rename_i sp heq
    cases heq
    split
    · rename_i hlate
      rw [Bool.and_eq_true, List.contains_iff_mem] at hlate
      exact ⟨rfl, .inr ⟨⟨sp, rfl⟩, hlate.2⟩, .inl rfl⟩
    · exact ⟨rfl, .inl rfl, .inl rfl⟩
  · rename_i heq
    cases heq
    split
    · exact ⟨rfl, .inl rfl, .inr ⟨rfl, ‹_›, rfl⟩⟩
    · exact ⟨rfl, .inl rfl, .inl rfl⟩
  · exact ⟨rfl, .inl rfl, .inl rfl⟩

/-- A late request stays off the way to a spawn. -/
theorem Shutdown.Closing.spawns_step (h : w.Closing) (hc : w.Sealed (.step i c))
    (ht : w.state.tasks[i]? = some t)
    (hstep : Task.step env w.state.shared t c = some (sh', t', new)) (hi : i ∈ w.log.late) :
    t'.spawns = false := by
  obtain ⟨hdraining, u, hu, hquiet⟩ := h.late i hi
  obtain rfl := Option.some.inj (ht.symm.trans hu)
  refine Bool.eq_false_iff.mpr fun hspawns => ?_
  simp only [Sealed] at hc
  rw [ht] at hc
  rcases Task.step_cases hstep with ⟨op, op', ops, sids, rfl, hop, rfl, -⟩ |
    ⟨o, o', rfl, -, rfl, -⟩ | ⟨pump, rfl, hpump, -⟩
  · rcases Op.spawns_step hop hquiet hspawns with hnot | ⟨name, rfl, hfound⟩ | ⟨name, rfl, hfound⟩
    · rw [hdraining] at hnot
      cases hnot
    · exact hfound (hc hi)
    · exact hfound (hc hi)
  · cases hspawns
  · rcases Pump.step_task hpump with ⟨pump', rfl⟩ | ⟨sid', rfl⟩ <;> cases hspawns

/-- No session is alive after a step that was not alive before it, once a shutdown has looked. -/
theorem Shutdown.Closing.alive_step (h : w.Closing) (hc : w.Sealed (.step i c))
    (ht : w.state.tasks[i]? = some t)
    (hstep : Task.step env w.state.shared t c = some (sh', t', new)) (hdrains : w.log.drains ≠ [])
    {sid : Sid} (halive : sh'.isAlive sid = true) : w.state.shared.isAlive sid = true := by
  refine Task.isAlive_of_step hstep h.base.shared (h.base.tasks t (List.mem_of_getElem? ht)) ?_ halive
  have hlt : sid < sh'.heap.length := by
    rw [Shared.isAlive, Option.any_eq_true] at halive
    obtain ⟨s, hs, -⟩ := halive
    exact (List.getElem?_eq_some_iff.mp hs).1
  by_cases hspawn : ∃ sp, t = .op (.spawn sp)
  · obtain ⟨sp, rfl⟩ := hspawn
    simp only [Sealed] at hc
    rw [ht] at hc
    rcases Task.spawn_step hstep with ⟨error, -, rfl, -⟩ | ⟨hok, -, -⟩
    · exact hlt
    · exact absurd (hc (by rw [hok]; rfl)) hdrains
  · rw [← Task.length_step hstep fun sp heq => hspawn ⟨sp, heq⟩]
    exact hlt

end Step

theorem Shutdown.closing_next (h : w.Closing) (hc : w.Sealed l) (hs : w.next env l = some w') :
    w'.Closing := by
  obtain ⟨hnext, hlog⟩ := Trace.noted_eq_some hs
  have hbase := World.base_next h.base hnext
  obtain ⟨⟨shared, tasks⟩, log⟩ := w'
  dsimp only at hnext hlog hbase ⊢
  cases l with
  | call t =>
    obtain ⟨hentry, heq⟩ := Threads.next_call hnext
    cases heq
    have hold : ∀ (j : Nat) u, w.state.tasks[j]? = some u → (w.state.tasks ++ [t])[j]? = some u := by
      intro j u hu
      rw [List.getElem?_append_left (List.getElem?_eq_some_iff.mp hu).1]
      exact hu
    have hdrains : log.drains = w.log.drains ∧ log.spawned = w.log.spawned := by
      rw [hlog, ShutdownLog.note]
      split <;> exact ⟨rfl, rfl⟩
    refine ⟨hbase, hdrains.2.trans h.spawned, fun j hj => ?_, fun j hj => ?_⟩
    · rw [hlog, ShutdownLog.note] at hj
      have hlate : j ∈ w.log.late → w.state.shared.draining = true ∧
          ∃ u, (w.state.tasks ++ [t])[j]? = some u ∧ u.spawns = false := by
        intro hj
        obtain ⟨hdraining, u, hu, hquiet⟩ := h.late j hj
        exact ⟨hdraining, u, hold j u hu, hquiet⟩
      split at hj
      · rename_i hdraining
        rcases List.mem_cons.mp hj with rfl | hj
        · refine ⟨hdraining, t, by simp, Task.spawns_entry hentry ?_⟩
          rintro sp rfl
          have hnot : w.state.shared.draining = false := hc
          rw [hdraining] at hnot
          cases hnot
        · exact hlate hj
      · exact hlate hj
    · rw [hdrains.1] at hj
      obtain ⟨u, pending, hu, hstops⟩ := h.drains j hj
      exact ⟨u, pending, hold j u hu, hstops⟩
  | env d =>
    cases Threads.next_env hnext
    have heq : log = w.log := hlog
    subst heq
    exact ⟨hbase, h.spawned, h.late, h.drains⟩
  | step i c =>
    obtain ⟨t, sh', t', new, ht, hstep, heq⟩ := Threads.next_step hnext
    cases heq
    obtain ⟨hlate, hspawned, hdrains⟩ := ShutdownLog.note_step (c := c) ht w.log
    rw [← hlog] at hlate hspawned hdrains
    refine ⟨hbase, ?_, fun j hj => ?_, fun j hj => ?_⟩
    · rcases hspawned with hsame | ⟨⟨sp, rfl⟩, hi⟩
      · exact hsame.trans h.spawned
      · obtain ⟨-, u, hu, hquiet⟩ := h.late i hi
        obtain rfl := Option.some.inj (ht.symm.trans hu)
        cases hquiet
    · rw [hlate] at hj
      obtain ⟨hdraining, u, hu, hquiet⟩ := h.late j hj
      refine ⟨Task.draining_step hstep hdraining, _, Task.getElem?_set_append ht hu, ?_⟩
      split
      · subst i
        exact h.spawns_step hc ht hstep hj
      · exact hquiet
    · have hkeep : j ∈ w.log.drains → ∃ u pending, (w.state.tasks.set i t' ++ new)[j]? = some u ∧
          u.stops = some pending ∧ ∀ sid, shared.isAlive sid = true → sid ∈ pending := by
        intro hj
        obtain ⟨u, pending, hu, hstops, hlive⟩ := h.drains j hj
        have halive : ∀ sid, shared.isAlive sid = true → sid ∈ pending := fun sid ha =>
          hlive sid (h.alive_step hc ht hstep (List.ne_nil_of_mem hj) ha)
        by_cases hij : i = j
        · subst hij
          obtain rfl := Option.some.inj (ht.symm.trans hu)
          obtain ⟨pending', hstops', hsub⟩ := Task.stops_step hstep hstops
          refine ⟨t', pending', ?_, hstops', fun sid ha => ?_⟩
          · rw [Task.getElem?_set_append ht ht, if_pos rfl]
          · rcases hsub sid (halive sid ha) with hmem | hdead
            · exact hmem
            · rw [ha] at hdead
              cases hdead
        · refine ⟨u, pending, ?_, hstops, halive⟩
          rw [Task.getElem?_set_append ht hu, if_neg hij]
      rcases hdrains with hsame | ⟨rfl, hdraining, hcons⟩
      · exact hkeep (hsame ▸ hj)
      · rcases List.mem_cons.mp (hcons ▸ hj) with rfl | hj
        · simp only [Sealed] at hc
          rw [ht] at hc
          have hcovers := hc hdraining
          cases hstep
          refine ⟨_, _, Task.getElem?_set_append ht ht, by rw [if_pos rfl]; rfl, fun sid ha => ?_⟩
          refine hcovers sid ?_ ha
          rw [Shared.isAlive, Option.any_eq_true] at ha
          obtain ⟨s, hs, -⟩ := ha
          exact (List.getElem?_eq_some_iff.mp hs).1
        · exact hkeep hj

/-- Along every run that is sealed, the drain leaves nothing running. -/
theorem drained_of_sealed (env : Env) (run : List World.Label)
    (h : Trace.AllSteps (Shutdown.next env) Shutdown.Sealed Shutdown.init run) :
    Trace.AllStates (Shutdown.next env) Shutdown.Drained Shutdown.init run :=
  (Trace.AllStates.of_invariant (fun _ _ _ hi hc hs => Shutdown.closing_next hi hc hs)
    Shutdown.closing_init h).imp fun _ hw => hw.drained

/-- `sh` is running when the drain begins. -/
def drainBegun : List World.Label :=
  [.call (.op (.adminCreate .sh .default)), .step 0 {}, .step 0 {}, .step 0 {}, .step 0 {},
   .step 0 {}, .step 0 {}, .call (.op (.beginDrain (.fromSecs 25))), .step 2 {}]

/-- A late create is refused, and the shutdown runs to its end. -/
theorem drained_lateCreate :
    Trace.AllStates (Shutdown.next .default) Shutdown.Drained Shutdown.init
      (drainBegun ++ [.call (.op (.adminCreate .sh .default)), .step 3 {}, .step 2 {}, .step 2 {},
        .step 2 {}, .step 2 {}, .step 2 {}, .step 2 {}, .step 2 {}, .step 2 {}, .step 2 {},
        .step 2 {}, .step 2 {}, .step 2 {}]) :=
  drained_of_sealed .default _ (by decide)

/-- A restart that arrives after `begin_drain` is carried out. -/
theorem lateRestart_spawns :
    ¬ Trace.AllStates (Shutdown.next .default) Shutdown.Drained Shutdown.init
      (drainBegun ++ [.call (.op (.restartGet .sh)), .step 3 {}, .step 3 {}, .step 3 {}, .step 3 {},
        .step 3 {}, .step 3 {}, .step 3 {}, .step 3 {}, .step 3 {}, .step 3 {}]) := by
  intro h
  obtain ⟨w, hdrained, hw⟩ := h.observe (f := fun w => w.log.spawned)
    (show _ = some [1] from by decide)
  rw [hdrained.spawned] at hw
  cases hw

end OpenabPty
