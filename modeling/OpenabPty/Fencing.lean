import OpenabPty.Effects
import Mathlib.Data.List.Nodup

/-!
# Generations as a fence

The attach handler verifies a token for the generation it reads and attaches after the
WebSocket upgrade; between the two only the generation protects the connection from what
happened to the name. `create` assigns generation 1, a restart one more than the session or
the tombstone it found, a renew one more than its session has. When these assignments only
go up, no connection reaches a session that was started after its token was verified.
-/

namespace OpenabPty

open Shared

/-- The generation an event assigned to a name, and the session that got it. -/
def Event.assigned? : Event → Option (SessionName × Sid × Generation)
  | .published name sid generation | .renewed name sid generation => some (name, sid, generation)
  | _ => none

/-- Every generation assigned so far, newest first. -/
def Shared.assignments (sh : Shared) : List (SessionName × Sid × Generation) :=
  sh.history.filterMap Event.assigned?

/-- The generations assigned to a name, newest first. -/
def Shared.generations (sh : Shared) (name : SessionName) : List Generation :=
  (sh.assignments.filter (·.1 = name)).map (·.2.2)

/-- The arguments of the attach a connection has made or will make. -/
def Conn.attach? : Conn → Option Attach
  | .get a | .peekTombstone a | .isAlive a _ | .lock a _ _ | .closePrevious a _ _ _
  | .subscriberFor a _ _ | .notice a _ _ | .replayGap a _ _ _ _ | .replayBytes a _ _ _
  | .attachResize a _ _ | .touch a _ _ | .reading a _ _ | .exiting a _ _ _ | .closing a _ _ _
  | .awaiting a _ _ _ | .returned a _ _ _ => some a
  | _ => none

/-- The connection that a task is. -/
def Task.conn? : Task → Option Conn
  | .conn o => some o
  | .op _ | .pump _ => none

theorem Task.eq_conn_of_conn? {t : Task} {o : Conn} (h : t.conn? = some o) : t = .conn o := by
  cases t with
  | conn o' => exact congrArg Task.conn (Option.some.inj h)
  | op | pump => cases h

/-- The generations of every name go up, and no connection is admitted to a session that was
started after its token was verified. -/
structure World.Fenced (w : World) : Prop where
  increasing : ∀ name, (w.shared.generations name).Pairwise (· > ·)
  admitted : ∀ o a sid c, Task.conn o ∈ w.tasks → o.attach? = some a → o.holds = some (sid, c) →
    sid < a.verifiedAt

/-- The generation a spawn builds on. -/
def Origin.base : Origin → Option Generation
  | .create => none
  | .restart base => some base

/-- The section assigns a generation to a name on top of the newest one: a create to a name
that has none, a restart to one whose newest generation is the one it read, a renew to one
whose newest generation is that of its session. -/
def Op.Supersedes (sh : Shared) : Op → Prop
  | .publish sp _ _ => (sh.generations sp.name).head? = sp.origin.base
  | .renewLock name sid => (sh.generations name).head? = (sh.life? sid).map (·.generation)
  | _ => True

/-- The step assigns no generation but on top of the newest one of the name. -/
def World.Supersedes (w : World) (l : World.Label) : Prop :=
  ∀ i c op, l = .step i c → w.tasks[i]? = some (.op op) → op.Supersedes w.shared

/-! ## Lists of generations -/

/-- What is put on top of decreasing generations keeps them decreasing exactly when it is put
on the newest one. -/
theorem Generation.pairwise_cons_iff {gs : List Generation} {base : Option Generation}
    (h : gs.Pairwise (· > ·)) (hpos : ∀ g ∈ gs, 1 ≤ g.val) (hbase : ∀ g ∈ base, g ∈ gs) :
    ((base.elim ⟨1⟩ Generation.succ) :: gs).Pairwise (· > ·) ↔ gs.head? = base := by
  rw [List.pairwise_cons]
  cases gs with
  | nil =>
    cases base with
    | none => exact iff_of_true ⟨nofun, h⟩ rfl
    | some b => exact absurd (hbase b rfl) List.not_mem_nil
  | cons g gs =>
    obtain ⟨hlt, htail⟩ := List.pairwise_cons.mp h
    cases base with
    | none =>
      refine iff_of_false (fun hp => ?_) nofun
      exact absurd (hp.1 g List.mem_cons_self) (Nat.not_lt.mpr (hpos g List.mem_cons_self))
    | some b =>
      constructor
      · intro hp
        rcases List.mem_cons.mp (hbase b rfl) with rfl | hb
        · rfl
        · exact absurd (hp.1 g List.mem_cons_self) (Nat.not_lt.mpr (hlt b hb))
      · intro hhead
        obtain rfl : g = b := Option.some.inj hhead
        refine ⟨fun g' hg' => ?_, h⟩
        rcases List.mem_cons.mp hg' with rfl | hg'
        · exact Nat.lt_succ_self _
        · exact Nat.lt_succ_of_lt (hlt g' hg')

/-! ## What is known of generations -/

/-- The generation a restart read before it tore the session down. -/
def Caller.base : Caller → Option Generation
  | .restart base => some base
  | _ => none

/-- The generations an operation goes on to build on, or to leave as a tombstone. -/
def Op.bases : Op → List (SessionName × Generation)
  | .restartIsAlive name _ base | .restartForget name base => [(name, base)]
  | .claimName sp | .spawn sp | .mint sp _ | .publish sp _ _ =>
    sp.origin.base.toList.map (sp.name, ·)
  | .teardownLock td => td.caller.base.toList.map (td.name, ·)
  | .teardownRevoke td report _ | .teardownClose td report _ | .teardownClear td report
  | .forget td report | .deadGeneration td report =>
    (td.name, report.generation) :: td.caller.base.toList.map (td.name, ·)
  | .rememberDead td _ generation => [(td.name, generation)]
  | _ => []

def Task.bases : Task → List (SessionName × Generation)
  | .op o => o.bases
  | _ => []

namespace Shared

/-- A generation was assigned to the name. -/
def Assigned (sh : Shared) (name : SessionName) (generation : Generation) : Prop :=
  ∃ sid, (name, sid, generation) ∈ sh.assignments

/-- Generations start at 1, go to sessions that exist, and are what the published sessions and
the tombstones have. -/
structure Numbered (sh : Shared) : Prop where
  positive : ∀ name sid g, (name, sid, g) ∈ sh.assignments → 1 ≤ g.val
  allocated : ∀ name sid g, (name, sid, g) ∈ sh.assignments → sid < sh.heap.length
  lives : ∀ sid life, sh.published sid = true → sh.life? sid = some life →
    (life.name, sid, life.generation) ∈ sh.assignments
  dead : ∀ name dead, (name, dead) ∈ sh.tombstones → sh.Assigned name dead.generation

/-- What a task takes for a generation of a name was assigned to it; what a connection
verified was assigned before, and it only holds a session that was started before. -/
structure Vouches (sh : Shared) (t : Task) : Prop where
  bases : ∀ name g, (name, g) ∈ t.bases → sh.Assigned name g
  handler : ∀ r name g, t = .conn (.handlerVerify r name g) → sh.Assigned name g
  attach : ∀ o a, t = .conn o → o.attach? = some a →
    ∃ sid, sid < a.verifiedAt ∧ (a.name, sid, a.generation) ∈ sh.assignments
  admitted : ∀ o a sid c, t = .conn o → o.attach? = some a → o.holds = some (sid, c) →
    sid < a.verifiedAt

variable {sh sh' : Shared} {t : Task} {name : SessionName} {sid : Sid} {g : Generation}

theorem mem_assignments : (name, sid, g) ∈ sh.assignments ↔
    .published name sid g ∈ sh.history ∨ .renewed name sid g ∈ sh.history := by
  rw [assignments, List.mem_filterMap]
  constructor
  · rintro ⟨e, he, heq⟩
    cases e <;> cases heq
    · exact .inl he
    · exact .inr he
  · rintro (h | h) <;> exact ⟨_, h, rfl⟩

theorem assignments_of_history (es : List Event) (h : sh'.history = es ++ sh.history) :
    sh'.assignments = es.filterMap Event.assigned? ++ sh.assignments := by
  rw [assignments, h, List.filterMap_append, assignments]

theorem Grows.assignments (h : sh.Grows sh') {x : SessionName × Sid × Generation}
    (hx : x ∈ sh.assignments) : x ∈ sh'.assignments :=
  mem_assignments.mpr ((mem_assignments.mp hx).imp (h.history _) (h.history _))

theorem Assigned.grow (h : sh.Assigned name g) (hg : sh.Grows sh') : sh'.Assigned name g :=
  h.imp fun _ hx => hg.assignments hx

theorem Vouches.grow (h : sh.Vouches t) (hg : sh.Grows sh') : sh'.Vouches t where
  bases name g hm := (h.bases name g hm).grow hg
  handler r name g ht := (h.handler r name g ht).grow hg
  attach o a ht ha :=
    (h.attach o a ht ha).imp fun _ ⟨hlt, hx⟩ => ⟨hlt, hg.assignments hx⟩
  admitted := h.admitted

/-- An operation knows no more than the generations it builds on. -/
theorem vouches_op {o : Op} (h : ∀ name g, (name, g) ∈ o.bases → sh.Assigned name g) :
    sh.Vouches (.op o) where
  bases := h
  handler _ _ _ ht := Task.noConfusion ht
  attach _ _ ht := Task.noConfusion ht
  admitted _ _ _ _ ht := Task.noConfusion ht

/-- A pump knows of no generation. -/
theorem vouches_pump (pump : Pump) : sh.Vouches (.pump pump) where
  bases _ _ hm := absurd hm List.not_mem_nil
  handler _ _ _ ht := Task.noConfusion ht
  attach _ _ ht := Task.noConfusion ht
  admitted _ _ _ _ ht := Task.noConfusion ht

theorem Assigned.mem (h : sh.Assigned name g) : g ∈ sh.generations name := by
  obtain ⟨sid, hx⟩ := h
  exact List.mem_map.mpr ⟨_, List.mem_filter.mpr ⟨hx, decide_eq_true rfl⟩, rfl⟩

theorem assigned_of_mem (h : g ∈ sh.generations name) : sh.Assigned name g := by
  obtain ⟨⟨n, sid, g⟩, hx, rfl⟩ := List.mem_map.mp h
  obtain ⟨hmem, hn⟩ := List.mem_filter.mp hx
  obtain rfl : n = name := of_decide_eq_true hn
  exact ⟨sid, hmem⟩

/-- When the generations of a name go up, one of them tells the session it went to. -/
theorem sid_of_generation (h : (sh.generations name).Pairwise (· > ·)) {t : Sid}
    (hx : (name, sid, g) ∈ sh.assignments) (hy : (name, t, g) ∈ sh.assignments) : sid = t := by
  have hnodup : (sh.generations name).Nodup := h.imp fun {a b} (hlt : a > b) => by
    rintro rfl
    exact Nat.lt_irrefl _ hlt
  have heq := List.inj_on_of_nodup_map hnodup
    (List.mem_filter.mpr ⟨hx, decide_eq_true rfl⟩) (List.mem_filter.mpr ⟨hy, decide_eq_true rfl⟩) rfl
  exact (Prod.mk.inj (Prod.mk.inj heq).2).1

end Shared

section Step

variable {env : Env} {sh sh' : Shared} {c : Choice} {op op' : Op} {ops : List Op}
  {sids : List Sid}

/-- An operation builds on the generation it reads from a session or from a tombstone. -/
theorem Op.bases_step (h : op.step env sh c = some (sh', op', ops, sids)) :
    (∀ o ∈ ops, o.bases = []) ∧ ∀ p ∈ op'.bases, p ∈ op.bases ∨
      (∃ sid s, (p.1, sid) ∈ op.named ∧ sh.heap[sid]? = some s ∧ s.state.generation = p.2) ∨
      ∃ dead, (p.1, dead) ∈ sh.tombstones ∧ dead.generation = p.2 := by
  obtain ⟨hgo, hops⟩ := flow_step h
  clear h
  refine ⟨fun o ho => ?_, fun p hp => ?_⟩
  · obtain ⟨name, old, -, rfl⟩ := hops o ho
    rfl
  cases hgo with
  | restartGeneration name sid s hs =>
    obtain rfl := List.mem_singleton.mp hp
    exact .inr (.inl ⟨sid, s, List.mem_cons_self, hs, rfl⟩)
  | deadGeneration td report s hs =>
    obtain rfl := List.mem_singleton.mp hp
    exact .inr (.inl ⟨td.sid, s, List.mem_cons_self, hs, rfl⟩)
  | markedDead td s hs | deadAlready td s hs =>
    rcases List.mem_cons.mp hp with rfl | hp
    · exact .inr (.inl ⟨td.sid, s, List.mem_cons_self, hs, rfl⟩)
    · exact .inl hp
  | tombstoneTaken name dead htake =>
    rcases sh.takeTombstone_cases name with heq | ⟨dead', hmem, heq⟩ <;> rw [heq] at htake <;>
      cases htake
    obtain rfl := List.mem_singleton.mp hp
    exact .inr (.inr ⟨dead, hmem, rfl⟩)
  | tornForRestart td report base hcaller =>
    left
    show p ∈ (td.name, report.generation) :: td.caller.base.toList.map (td.name, ·)
    rw [hcaller]
    exact List.mem_cons_of_mem _ hp
  | forgottenBySelfExit td report =>
    obtain rfl := List.mem_singleton.mp hp
    exact .inl List.mem_cons_self
  | claimed | spawned | minted | restartAlive | restartDead | restartForgotten | revoked | closed
  | torn | forgotten => exact .inl hp
  | _ => exact absurd hp List.not_mem_nil

/-- A tombstone is left by `remember_dead` only. -/
theorem Op.tombstones_step (h : op.step env sh c = some (sh', op', ops, sids)) :
    ∀ x ∈ sh'.tombstones, x ∈ sh.tombstones ∨
      ∃ td report g, op = .rememberDead td report g ∧ x.1 = td.name ∧ x.2.generation = g := by
  by_cases hq : op.quiet = true
  · rw [(step_quiet hq h).1.tombstones]
    exact fun x hx => .inl hx
  cases op <;> simp only [quiet, not_true_eq_false] at hq
  case rememberDead td report g =>
    cases h
    intro x hx
    rcases List.mem_append.mp (List.mem_of_mem_drop hx) with hx | hx
    · exact .inl hx
    · obtain rfl := List.mem_singleton.mp hx
      exact .inr ⟨td, report, g, rfl, rfl, rfl⟩
  case restartTombstone name =>
    simp only [step] at h
    rcases sh.takeTombstone_cases name with heq | ⟨dead, -, heq⟩ <;> rw [heq] at h <;> cases h
    · exact fun x hx => .inl hx
    · exact fun x hx => .inl (List.mem_reverse.mp (List.mem_of_mem_eraseP (List.mem_reverse.mp hx)))
  all_goals grind [step, Shared.claimName, Shared.allocate, Shared.publish, Shared.modify_tombstones,
    Shared.note, Shared.forget, Shared.dropClaim]

/-- The generation of a published session was assigned to its name. -/
theorem Shared.Numbered.assigned_of_named (hN : sh.Numbered) {t : Task} (hA : sh.Sound t)
    {name : SessionName} {sid : Sid} {s : Session} (hm : (name, sid) ∈ t.named)
    (hs : sh.heap[sid]? = some s) : (name, sid, s.state.generation) ∈ sh.assignments := by
  obtain ⟨hp, hn⟩ := hA.named _ hm
  rw [name?_eq hs] at hn
  obtain rfl : s.name = name := Option.some.inj hn
  exact hN.lives sid s.life hp (by rw [life?, hs]; rfl)

theorem Shared.Grows.lt_length (h : sh.Grows sh') {sid : Sid} (hlt : sid < sh.heap.length) :
    sid < sh'.heap.length := by
  obtain ⟨s, hs⟩ : ∃ s, sh.heap[sid]? = some s := ⟨_, List.getElem?_eq_getElem hlt⟩
  obtain ⟨life', hlife', -⟩ := h.life sid s.life (by rw [life?, hs]; rfl)
  exact lt_of_life? hlife'

theorem Origin.generation_eq (o : Origin) : o.generation = o.base.elim ⟨1⟩ Generation.succ := by
  cases o <;> rfl

/-- What a section of an operation assigns. -/
theorem Op.Effect.assigns (h : Effect env sh sh' op op') :
    sh'.assignments = sh.assignments ∧ op.Supersedes sh ∨
    (∃ sp sid token, op = .publish sp sid token ∧
      sh'.assignments = (sp.name, sid, sp.generation) :: sh.assignments) ∨
    ∃ name sid life, op = .renewLock name sid ∧ sh.life? sid = some life ∧
      sh'.assignments = (name, sid, life.generation.succ) :: sh.assignments := by
  cases h with
  | idle _ _ hh _ hop =>
    refine .inl ⟨assignments_of_history [] hh, ?_⟩
    cases op <;> first | exact trivial | cases hop
  | spawn _ _ hh => exact .inl ⟨assignments_of_history [] hh, trivial⟩
  | mint _ _ hh => exact .inl ⟨assignments_of_history [_] hh, trivial⟩
  | kill _ _ _ _ hh => exact .inl ⟨assignments_of_history [] hh, trivial⟩
  | revoke _ _ hh => exact .inl ⟨assignments_of_history [] hh, trivial⟩
  | clear _ _ hh => exact .inl ⟨assignments_of_history [_] hh, trivial⟩
  | renewMint _ _ hh => exact .inl ⟨assignments_of_history [_, _] hh, trivial⟩
  | publish _ _ hh => exact .inr (.inl ⟨_, _, _, rfl, assignments_of_history [_] hh⟩)
  | renew hlife _ _ hh =>
    exact .inr (.inr ⟨_, _, _, rfl, hlife, assignments_of_history [_] hh⟩)

/-- The generation of a published session stays an assigned one. -/
theorem Op.Effect.lives (h : Effect env sh sh' op op') (hA : sh.Sound (.op op))
    (hI : sh.Registered) (hN : sh.Numbered) {sid : Sid} {life' : Session.Life}
    (hp : sh.published sid = true) (hl : sh'.life? sid = some life') :
    (life'.name, sid, life'.generation) ∈ sh'.assignments := by
  have hgrow := h.grows
  have hsame : sh'.life? sid = sh.life? sid → (life'.name, sid, life'.generation) ∈ sh'.assignments :=
    fun heq => hgrow.assignments (hN.lives sid life' hp (heq ▸ hl))
  cases h with
  | idle hlife => exact hsame (hlife sid)
  | mint hlife => exact hsame (hlife sid)
  | publish hlife => exact hsame (hlife sid)
  | revoke hlife => exact hsame (hlife sid)
  | clear hlife => exact hsame (hlife sid)
  | renewMint hlife => exact hsame (hlife sid)
  | spawn hlife =>
    refine hsame ?_
    rw [hlife, if_neg (Nat.ne_of_lt (hI.allocated sid hp))]
  | kill _ hkill =>
    rw [hkill] at hl
    split at hl
    · obtain ⟨life, hlife, rfl⟩ := Option.map_eq_some_iff.mp hl
      exact hgrow.assignments (hN.lives sid life hp hlife)
    · exact hgrow.assignments (hN.lives sid life' hp hl)
  | @renew name t life subscriber hlife hrenew _ hh =>
    rw [hrenew] at hl
    split at hl
    · rename_i heq
      subst heq
      rw [hlife] at hl
      obtain rfl := Option.some.inj hl
      -- The renew works on the session under its own name.
      have hn := (hA.named (name, t) List.mem_cons_self).2
      rw [name?_eq_life, hlife] at hn
      obtain rfl : life.name = name := Option.some.inj hn
      exact mem_assignments.mpr (.inr (hh ▸ List.mem_cons_self))
    · exact hgrow.assignments (hN.lives sid life' hp hl)

/-- Every section of an operation keeps the numbers right. -/
theorem Op.numbered_step (h : op.step env sh c = some (sh', op', ops, sids)) (hI : sh.Registered)
    (hA : sh.Sound (.op op)) (hN : sh.Numbered) (hV : sh.Vouches (.op op)) : sh'.Numbered := by
  have heffect := effect_step h
  have hgrow := heffect.grows
  refine ⟨fun name sid g hx => ?_, fun name sid g hx => ?_, fun sid life' hp hl => ?_,
    fun name dead hd => ?_⟩
  · rcases heffect.assigns with ⟨heq, -⟩ | ⟨sp, t, token, rfl, heq⟩ | ⟨n, t, life, rfl, hlife, heq⟩ <;>
      rw [heq] at hx
    · exact hN.positive name sid g hx
    · rcases List.mem_cons.mp hx with hx | hx
      · cases hx
        rw [Spawn.generation]
        cases sp.origin with
        | create => exact Nat.le_refl _
        | restart base => exact Nat.le_add_left _ _
      · exact hN.positive name sid g hx
    · rcases List.mem_cons.mp hx with hx | hx
      · cases hx
        exact Nat.le_add_left _ _
      · exact hN.positive name sid g hx
  · rcases heffect.assigns with ⟨heq, -⟩ | ⟨sp, t, token, rfl, heq⟩ | ⟨n, t, life, rfl, hlife, heq⟩ <;>
      rw [heq] at hx
    · exact hgrow.lt_length (hN.allocated name sid g hx)
    · rcases List.mem_cons.mp hx with hx | hx
      · cases hx
        exact hgrow.lt_length (lt_of_life? (hA.spawning sp sid rfl).1)
      · exact hgrow.lt_length (hN.allocated name sid g hx)
    · rcases List.mem_cons.mp hx with hx | hx
      · cases hx
        exact hgrow.lt_length (lt_of_life? hlife)
      · exact hgrow.lt_length (hN.allocated name sid g hx)
  · obtain ⟨-, born, hev, hborn⟩ := registered_step h hI hA
    rcases hev.born sid hp with hold | hb
    · exact heffect.lives hA hI hN hold hl
    · obtain ⟨sp, token, rfl⟩ := hborn sid hb
      obtain ⟨hunborn, -⟩ := hA.spawning sp sid rfl
      cases h
      have hl : sh.life? sid = some life' := hl
      obtain rfl := Option.some.inj (hunborn.symm.trans hl)
      exact mem_assignments.mpr (.inl List.mem_cons_self)
  · rcases tombstones_step h _ hd with hold | ⟨td, report, g, rfl, hname, hg⟩
    · exact (hN.dead name dead hold).grow hgrow
    · refine (hV.bases name dead.generation ?_).grow hgrow
      rw [show name = td.name from hname, show dead.generation = g from hg]
      exact List.mem_cons_self

theorem Op.vouches_step (h : op.step env sh c = some (sh', op', ops, sids))
    (hA : sh.Sound (.op op)) (hN : sh.Numbered) (hV : sh.Vouches (.op op)) :
    sh'.Vouches (.op op') := by
  have hgrow := (effect_step h).grows
  refine vouches_op fun name g hm => Assigned.grow ?_ hgrow
  rcases (bases_step h).2 (name, g) hm with hold | ⟨sid, s, hnamed, hs, rfl⟩ | ⟨dead, hd, rfl⟩
  · exact hV.bases name g hold
  · exact ⟨sid, hN.assigned_of_named hA hnamed hs⟩
  · exact hN.dead name dead hd

theorem Shared.generations_of_cons {n : SessionName} {sid : Sid} {g : Generation}
    (h : sh'.assignments = (n, sid, g) :: sh.assignments) (name : SessionName) :
    sh'.generations name = if n = name then g :: sh.generations name else sh.generations name := by
  rw [generations, h, List.filter_cons]
  by_cases hn : n = name
  · simp [hn, generations]
  · simp [hn, generations]

/-- The generations of every name still go up after a section exactly when the section builds
on the newest one. -/
theorem Op.increasing_step (h : op.step env sh c = some (sh', op', ops, sids))
    (hA : sh.Sound (.op op)) (hN : sh.Numbered) (hV : sh.Vouches (.op op))
    (hinc : ∀ name, (sh.generations name).Pairwise (· > ·)) :
    (∀ name, (sh'.generations name).Pairwise (· > ·)) ↔ op.Supersedes sh := by
  have hpos : ∀ {name}, ∀ g ∈ sh.generations name, 1 ≤ g.val := fun g hg => by
    obtain ⟨sid, hx⟩ := assigned_of_mem hg
    exact hN.positive _ sid g hx
  -- One generation is put on top of those of `n`.
  have hput : ∀ {n sid g} {base : Option Generation},
      sh'.assignments = (n, sid, g) :: sh.assignments → g = base.elim ⟨1⟩ Generation.succ →
      (∀ b ∈ base, b ∈ sh.generations n) →
      ((∀ name, (sh'.generations name).Pairwise (· > ·)) ↔ (sh.generations n).head? = base) := by
    intro n sid g base heq hg hbase
    rw [← Generation.pairwise_cons_iff (hinc n) hpos hbase, ← hg]
    constructor
    · intro hall
      have hn := hall n
      rwa [generations_of_cons heq, if_pos rfl] at hn
    · intro hn name
      rw [generations_of_cons heq]
      split
      · rename_i hname
        exact hname ▸ hn
      · exact hinc name
  rcases (effect_step h).assigns with ⟨heq, hkeep⟩ | ⟨sp, t, token, rfl, heq⟩ | ⟨n, t, life, rfl, hlife, heq⟩
  · refine iff_of_true (fun name => ?_) hkeep
    rw [generations, heq]
    exact hinc name
  · refine hput heq sp.origin.generation_eq fun b hb => (hV.bases sp.name b ?_).mem
    exact List.mem_map.mpr ⟨b, Option.mem_toList.mpr hb, rfl⟩
  · show _ ↔ (sh.generations n).head? = (sh.life? t).map (·.generation)
    rw [hlife]
    refine hput heq rfl fun b hb => ?_
    obtain rfl := Option.some.inj hb
    obtain ⟨s, hs, rfl⟩ := Option.map_eq_some_iff.mp hlife
    exact Assigned.mem ⟨t, hN.assigned_of_named hA List.mem_cons_self hs⟩

end Step

/-! ## Connections -/

section Step

variable {env : Env} {sh sh' : Shared}

/-- An attach gets its arguments from the handler that verified the token. -/
theorem Conn.attach_step {e : Arrival} {o o' : Conn} (h : o.step env sh e = some (sh', o')) :
    (∀ r name g, o' = .handlerVerify r name g →
      ∃ sid s, (name, sid) ∈ o.named ∧ sh.heap[sid]? = some s ∧ s.state.generation = g) ∧
    ∀ a, o'.attach? = some a → o.attach? = some a ∨
      ∃ r name g, o = .handlerVerify r name g ∧ a.name = name ∧ a.generation = g ∧
        a.verifiedAt = sh.heap.length := by
  cases o
  case reading a r pc =>
    obtain ⟨⟨sh₁, next⟩, -, heq⟩ := Option.map_eq_some_iff.mp h
    cases next <;> cases heq <;> exact ⟨fun _ _ _ => Conn.noConfusion, fun _ ha => .inl ha⟩
  case exiting a sid conn exit =>
    cases exit <;> cases h <;> exact ⟨fun _ _ _ => Conn.noConfusion, fun _ ha => .inl ha⟩
  all_goals grind [step, attach?, named, afterNotice]

/-- What a connection holds after a step it held before, or it has just taken it. -/
theorem Conn.holds_step {e : Arrival} {o o' : Conn} (h : o.step env sh e = some (sh', o'))
    {sid : Sid} {conn : ConnGeneration} (hh : o'.holds = some (sid, conn)) :
    o.holds = some (sid, conn) ∨ ∃ a now s, o = .lock a sid now ∧ sh.heap[sid]? = some s ∧
      s.state.generation = a.generation := by
  cases fence_step h with
  | keep hsh hheld => exact .inl (hheld ▸ hh)
  | release hsh ho hheld => exact .inl (hheld ▸ hh)
  | detached hsh hc => exact .inl hh
  | leave hsh => exact .inl hh
  | lost hsh => cases hh
  | @take a t now o' s hsh hs hgen hheld =>
    obtain ⟨rfl, -⟩ := Prod.mk.inj (Option.some.inj (hheld.symm.trans hh))
    exact .inr ⟨a, now, s, rfl, hs, hgen⟩

/-- A connection that takes a session takes one that was started before its token was
verified. -/
theorem Conn.vouches_step {e : Arrival} {o o' : Conn} (h : o.step env sh e = some (sh', o'))
    (hA : sh.Sound (.conn o)) (hN : sh.Numbered) (hV : sh.Vouches (.conn o))
    (hinc : ∀ name, (sh.generations name).Pairwise (· > ·)) : sh'.Vouches (.conn o') := by
  refine Vouches.grow ?_ (step_steady h).grows
  obtain ⟨hhandler, hattach⟩ := attach_step h
  refine ⟨fun _ _ hm => absurd hm List.not_mem_nil, fun r name g ht => ?_, fun o₁ a ht ha => ?_,
    fun o₁ a sid conn ht ha hh => ?_⟩
  · cases ht
    obtain ⟨sid, s, hnamed, hs, rfl⟩ := hhandler r name g rfl
    exact ⟨sid, hN.assigned_of_named hA hnamed hs⟩
  · cases ht
    rcases hattach a ha with hold | ⟨r, name, g, rfl, rfl, rfl, hat⟩
    · exact hV.attach o a rfl hold
    · obtain ⟨sid, hx⟩ := hV.handler r _ _ rfl
      exact ⟨sid, hat ▸ hN.allocated _ _ _ hx, hx⟩
  · cases ht
    rcases holds_step h hh with hold | ⟨a', now, s, rfl, hs, hgen⟩
    · rcases hattach a ha with hold' | ⟨r, name, g, rfl, -⟩
      · exact hV.admitted o a sid conn rfl hold' hold
      · cases hold
    · obtain rfl : a' = a := by
        rcases hattach a ha with hold' | ⟨r, name, g, ho, -⟩
        · exact Option.some.inj hold'
        · cases ho
      obtain ⟨t, hlt, hx⟩ := hV.attach _ a' rfl rfl
      have hy := hN.assigned_of_named hA (show (a'.name, sid) ∈ [(a'.name, sid)] from List.mem_cons_self) hs
      rw [hgen] at hy
      exact sid_of_generation (hinc _) hx hy ▸ hlt

/-- A connection or a pump assigns nothing. -/
theorem Shared.Steady.assignments (h : sh.Steady sh') : sh'.assignments = sh.assignments := by
  rcases h.history with heq | ⟨t, alive, heq⟩ <;> rw [Shared.assignments, Shared.assignments, heq]
  rfl

theorem Shared.Steady.numbered (h : sh.Steady sh') (hN : sh.Numbered) : sh'.Numbered where
  positive name sid g hx := hN.positive name sid g (h.assignments ▸ hx)
  allocated name sid g hx := by
    rw [h.length]
    exact hN.allocated name sid g (h.assignments ▸ hx)
  lives sid life hp hl := by
    rw [h.assignments]
    exact hN.lives sid life (h.sameLives.published sid ▸ hp) (h.life sid ▸ hl)
  dead name dead hd := (hN.dead name dead (h.tombstones ▸ hd)).grow h.grows

/-- No request knows a generation already. -/
theorem Task.vouches_entry {t : Task} (h : t.entry = true) : sh.Vouches t := by
  cases t with
  | op o =>
    refine vouches_op fun name g hm => ?_
    cases o <;> try cases hm
    case claimName sp =>
      have horigin : sp.origin = .create := of_decide_eq_true h
      rw [Op.bases, horigin] at hm
      cases hm
    all_goals cases h
  | conn o =>
    obtain ⟨r, rfl⟩ : ∃ r, o = .request r := by
      cases o with
      | request r => exact ⟨r, rfl⟩
      | _ => cases h
    refine ⟨fun _ _ hm => absurd hm List.not_mem_nil, fun r name g ht => ?_, fun o a ht ha => ?_,
      fun o a sid c ht ha => ?_⟩
    · cases ht
    · cases ht
      cases ha
    · cases ht
      cases ha
  | pump o => exact vouches_pump o

/-- One step of a task. -/
theorem Task.vouches_step {c : Input} {t t' : Task} {new : List Task}
    (h : Task.step env sh t c = some (sh', t', new)) (hI : sh.Registered) (hA : sh.Sound t)
    (hN : sh.Numbered) (hV : sh.Vouches t)
    (hinc : ∀ name, (sh.generations name).Pairwise (· > ·)) :
    sh'.Numbered ∧ sh'.Vouches t' ∧ (∀ u ∈ new, sh'.Vouches u) ∧ sh.Grows sh' ∧
    ((∀ name, (sh'.generations name).Pairwise (· > ·)) ↔
      ∀ op, t = .op op → op.Supersedes sh) := by
  have hsteady : sh.Steady sh' → (∀ op, t ≠ .op op) →
      ((∀ name, (sh'.generations name).Pairwise (· > ·)) ↔ ∀ op, t = .op op → op.Supersedes sh) := by
    intro hs hne
    refine iff_of_true (fun name => ?_) fun op e => absurd e (hne op)
    rw [generations, hs.assignments]
    exact hinc name
  rcases step_cases h with ⟨op, op', ops, sids, rfl, hop, rfl, rfl⟩ | ⟨o, o', rfl, hconn, rfl, rfl⟩ |
    ⟨pump, rfl, hpump, rfl⟩
  · refine ⟨Op.numbered_step hop hI hA hN hV, Op.vouches_step hop hA hN hV, fun u hu => ?_,
      (Op.effect_step hop).grows, ?_⟩
    · rcases List.mem_append.mp hu with hu | hu
      · obtain ⟨o, ho, rfl⟩ := List.mem_map.mp hu
        refine vouches_op fun name g hm => ?_
        rw [(Op.bases_step hop).1 o ho] at hm
        cases hm
      · obtain ⟨sid, -, rfl⟩ := List.mem_map.mp hu
        exact vouches_pump _
    · rw [Op.increasing_step hop hA hN hV hinc]
      exact ⟨fun hs op e => Task.op.inj e ▸ hs, fun hs => hs op rfl⟩
  · have hs := Conn.step_steady hconn
    exact ⟨hs.numbered hN, Conn.vouches_step hconn hA hN hV hinc,
      fun u hu => absurd hu List.not_mem_nil, hs.grows,
      hsteady hs fun _ => Task.noConfusion⟩
  · have hs := Pump.step_steady hpump
    refine ⟨hs.numbered hN, ?_, fun u hu => absurd hu List.not_mem_nil, hs.grows,
      hsteady hs fun _ => Task.noConfusion⟩
    rcases Pump.step_task hpump with ⟨pump', rfl⟩ | ⟨sid, rfl⟩
    · exact vouches_pump pump'
    · exact vouches_op fun name g hm => absurd hm List.not_mem_nil

end Step

/-! ## Runs -/

variable {env : Env} {w w' : World} {l : World.Label}

/-- The invariant behind the fence. -/
structure World.Counted (w : World) : Prop where
  base : w.Base
  vouched : Threads.Annotated Shared.Numbered Shared.Vouches (fun _ => (none : Option Unit)) w
  increasing : ∀ name, (w.shared.generations name).Pairwise (· > ·)

theorem World.Counted.fenced (h : w.Counted) : w.Fenced :=
  ⟨h.increasing, fun o a sid c ht ha hh => (h.vouched.tasks _ ht).admitted o a sid c rfl ha hh⟩

theorem World.counted_init : World.init.Counted :=
  ⟨World.base_init, Threads.Annotated.initial ⟨nofun, nofun, nofun, nofun⟩,
    fun _ => List.Pairwise.nil⟩

theorem World.vouched_next (hI : w.Counted) (h : World.next env w l = some w') :
    Threads.Annotated Shared.Numbered Shared.Vouches (fun _ => (none : Option Unit)) w' := by
  refine hI.vouched.preserved (fun _ _ => True) h
    (fun t _ he => ⟨Task.vouches_entry he, rfl⟩) (fun i c t s' t' new hl ht hs hA => ?_)
    (fun _ _ _ _ => nofun) fun e _ => ⟨?_, fun u _ hu => ⟨hu.bases, hu.handler, hu.attach, hu.admitted⟩⟩
  · obtain ⟨hN, hV, hnew, hgrow, -⟩ := Task.vouches_step hs hI.base.shared
      (hI.base.tasks t (List.mem_of_getElem? ht)) hI.vouched.shared hA hI.increasing
    exact ⟨hN, hV, fun u hu => ⟨hnew u hu, rfl⟩, fun k hk => (nomatch hk),
      fun u _ hu _ => hu.grow hgrow⟩
  · exact ⟨hI.vouched.shared.positive, hI.vouched.shared.allocated, hI.vouched.shared.lives,
      hI.vouched.shared.dead⟩

/-- One step keeps the generations of every name going up exactly when it supersedes. -/
theorem World.increasing_next (hI : w.Counted) (h : World.next env w l = some w') :
    (∀ name, (w'.shared.generations name).Pairwise (· > ·)) ↔ w.Supersedes l := by
  cases l with
  | call t =>
    obtain ⟨-, rfl⟩ := Threads.next_call h
    exact iff_of_true hI.increasing fun _ _ _ e => (nomatch e)
  | env e =>
    obtain rfl := Threads.next_env h
    exact iff_of_true hI.increasing fun _ _ _ e => (nomatch e)
  | step i c =>
    obtain ⟨t, s', t', new, ht, hs, rfl⟩ := Threads.next_step h
    have hmem := List.mem_of_getElem? ht
    obtain ⟨-, -, -, -, hiff⟩ := Task.vouches_step hs hI.base.shared (hI.base.tasks t hmem)
      hI.vouched.shared (hI.vouched.tasks t hmem) hI.increasing
    refine hiff.trans ⟨fun hs i' c' op hl ht' => ?_, fun hs op e => hs i c op rfl (e ▸ ht)⟩
    cases hl
    exact hs op (Option.some.inj (ht.symm.trans ht'))

/-- Along every run, the generations of every name go up and no connection reaches a session
that was started after its token was verified, exactly when every section of the run that
assigns a generation builds on the newest generation of the name. -/
theorem fenced_iff_supersedes (env : Env) (run : List World.Label) :
    Trace.AllStates (World.next env) World.Fenced World.init run ↔
      Trace.AllSteps (World.next env) World.Supersedes World.init run := by
  refine Trace.allStates_iff_allSteps (I := World.Counted) (fun _ hI => hI.fenced)
    (fun _ _ _ hI hc h => ?_) (fun _ _ _ hI hc h hf => ?_) World.counted_init
  · exact ⟨World.base_next hI.base h, World.vouched_next hI h, (World.increasing_next hI h).mpr hc⟩
  · exact hc ((World.increasing_next hI h).mp hf.increasing)

/-- `sh` is created and killed, and created again while a client that was verified for the
first session is in its upgrade; the client reaches the second session. -/
def createOverUpgrade : List World.Label :=
  [.call (.op (.claimName { name := .sh, size := .default, origin := .create })),
   .step 0 {}, .step 0 {}, .step 0 { choice := { raw := some [7] } }, .step 0 {}, .step 0 {},
   .call (.conn (.request { token := [48, 55], session := [115, 104], since := none,
                            rows := none, cols := none })),
   .step 2 {}, .step 2 {}, .step 2 {}, .step 2 {},
   .call (.op (.killGet .sh)), .step 3 {}, .step 3 {}, .step 3 {}, .step 3 {}, .step 3 {},
   .step 3 {}, .step 3 {}, .step 3 {},
   .call (.op (.claimName { name := .sh, size := .default, origin := .create })),
   .step 4 {}, .step 4 {}, .step 4 { choice := { raw := some [9] } }, .step 4 {}, .step 4 {},
   .step 2 {}, .step 2 {}, .step 2 {}]

/-- Generation 1 was assigned twice, and the client holds a session it was not verified for. -/
theorem createOverUpgrade_admitted :
    ¬ Trace.AllStates (World.next .default) World.Fenced World.init createOverUpgrade := by
  intro h
  obtain ⟨w, hf, hw⟩ := h.observe
    (f := fun w => (w.tasks[2]?.bind Task.conn?).map fun o => (o.attach?.map (·.verifiedAt), o.holds))
    (show _ = some (some (some 1, some (1, ⟨1⟩))) from by decide)
  obtain ⟨o, ho, heq⟩ := Option.map_eq_some_iff.mp hw
  obtain ⟨t, ht, hconn⟩ := Option.bind_eq_some_iff.mp ho
  obtain ⟨hat, hheld⟩ := Prod.mk.inj heq
  obtain ⟨a, ha, hat⟩ := Option.map_eq_some_iff.mp hat
  rw [Task.eq_conn_of_conn? hconn] at ht
  have hlt := hf.admitted o a 1 ⟨1⟩ (List.mem_of_getElem? ht) ha hheld
  rw [hat] at hlt
  exact Nat.lt_irrefl 1 hlt

end OpenabPty
