import OpenabPty.Effects

/-!
# Dead sessions

The first section of a teardown marks a session dead and gives it back; the revoke and the
clear of the scrollback come later. `attach_with_replay` and `renew` ask once whether the
session is alive, before their locked section, and `on_output` never asks: each of them may
still act on the session after its death.
-/

namespace OpenabPty

open Shared

/-- Nobody owns the session and nobody is subscribed. -/
structure Session.Fence.Free (f : Session.Fence) : Prop where
  owner : f.ownerConn = ⟨0⟩
  mirror : f.mirror = ⟨0⟩
  subscriber : f.subscriber = none

theorem Session.Fence.free_released (f : Session.Fence) : f.released.Free := ⟨rfl, rfl, rfl⟩

namespace Shared

/-- Who minted last for a name: the entry of the name in the token store is this session's. -/
def minter (sh : Shared) (name : SessionName) : Option Sid :=
  (sh.mints.find? (·.1 = name)).map (·.2.1)

/-- A dead session stays as its teardown leaves it. -/
structure Inert (sh : Shared) : Prop where
  fence : ∀ sid f, sh.fence? sid = some f → sh.isAlive sid = false → f.Free
  attached : ∀ sid, .attached sid false ∉ sh.history
  renewed : ∀ sid, .renewReturned sid false ∉ sh.history
  cleared : ∀ sid r, .cleared sid ∈ sh.history → sh.buffer? sid = some r → r.buf.toList = []

variable {sh sh' : Shared} {name n : SessionName} {sid : Sid} {stored : StoredAttachToken}

theorem minter_of_mints (h : sh'.mints = sh.mints) (name : SessionName) :
    sh'.minter name = sh.minter name := by rw [minter, minter, h]

/-- After a mint, the minter of its name is its session. -/
theorem minter_of_cons (h : sh'.mints = (n, sid, stored) :: sh.mints) (name : SessionName) :
    sh'.minter name = if n = name then some sid else sh.minter name := by
  rw [minter, h, List.find?_cons]
  by_cases hn : n = name
  · simp [hn]
  · simp [hn, minter]

/-- A minter has the name it minted for. -/
theorem Registered.name_of_minter (h : sh.Registered) (hm : sh.minter name = some sid) :
    sh.name? sid = some name := by
  obtain ⟨⟨n, t, stored⟩, hfind, rfl⟩ := Option.map_eq_some_iff.mp hm
  obtain rfl : n = name := by simpa using List.find?_some hfind
  exact h.minted n t stored (mem_mints.mp (List.mem_of_find?_eq_some hfind))

end Shared

/-- The teardown that has yet to revoke the tokens of its session. -/
def Op.revoking : Op → Option (SessionName × Sid)
  | .teardownRevoke td report _ => some (report.session, td.sid)
  | _ => none

def Task.revoking : Task → Option (SessionName × Sid) := Task.onOp Op.revoking

/-- No operation is in flight. -/
def World.Settled (w : World) : Prop :=
  ∀ op, Task.op op ∈ w.tasks → ∃ reply, op = .returned reply

/-- A dead session is inert, and once no operation is in flight, no entry of the token store
was minted for it. -/
structure World.Inert (w : World) : Prop where
  shared : w.shared.Inert
  tokens : w.Settled → ∀ name sid, w.shared.tokens.contains name = true →
    w.shared.minter name = some sid → w.shared.isAlive sid = true

/-- The section does not act on a session that died meanwhile: an attach does not win the CAS
of a dead session nor return, a renew does not mint for one, and a pump does not write to a
scrollback that was cleared. -/
def Task.SparesDead (env : Env) (sh : Shared) (c : Input) : Task → Prop
  | .conn (.lock a sid _) =>
    (sh.life? sid).any (·.generation = a.generation) = true → sh.isAlive sid = true
  | .conn (.touch _ sid _) => sh.isAlive sid = true
  | .op (.renewMint name sid generation) =>
    (sh.tokens.mintForSession env.sha256 env.config.attachTokenTtl name generation c.choice.raw
      sh.now).2.isOk = true → sh.isAlive sid = true
  | .pump (.write sid bytes) =>
    .cleared sid ∈ sh.history → bytes = [] ∨ (sh.buffer? sid).all (·.capacity = 0) = true
  | _ => True

/-- The step spares the dead. -/
def World.SparesDead (env : Env) (w : World) (l : World.Label) : Prop :=
  ∀ i c t, l = .step i c → w.tasks[i]? = some t → t.SparesDead env w.shared c

/-- The revocation of a dead session's tokens is still to come. -/
def World.Pending (w : World) : Prop :=
  ∀ name sid, w.shared.tokens.contains name = true → w.shared.minter name = some sid →
    w.shared.isAlive sid = true ∨ ∃ t ∈ w.tasks, t.revoking = some (name, sid)

/-! ## One step on the shared state -/

section Step

variable {env : Env} {sh sh' : Shared} {t t' : Task} {c : Input} {new : List Task}

/-- A section that keeps every lifecycle lets nobody die. -/
theorem Shared.isAlive_of_life (h : ∀ t, sh'.life? t = sh.life? t) (sid : Sid) :
    sh'.isAlive sid = sh.isAlive sid := by rw [isAlive_eq_life, isAlive_eq_life, h]

/-- A session that dies in a section is the one whose teardown begins. -/
theorem Op.Effect.died {op op' : Op} (h : Effect env sh sh' op op') {sid : Sid}
    (ha : sh.isAlive sid = true) (hdead : sh'.isAlive sid = false) : sh.Releases sh' sid := by
  have hsame : (∀ t, sh'.life? t = sh.life? t) → sh.Releases sh' sid := fun hlife => by
    rw [isAlive_of_life hlife, ha] at hdead
    cases hdead
  cases h with
  | idle hlife => exact hsame hlife
  | mint hlife => exact hsame hlife
  | publish hlife => exact hsame hlife
  | revoke hlife => exact hsame hlife
  | clear hlife => exact hsame hlife
  | renewMint hlife => exact hsame hlife
  | spawn hlife =>
    rw [isAlive_eq_life] at ha hdead
    rw [hlife] at hdead
    split at hdead
    · cases hdead
    · rw [ha] at hdead
      cases hdead
  | @kill td life op' hlife hkill hfence =>
    rw [isAlive_eq_life] at ha hdead
    rw [hkill] at hdead
    split at hdead
    · rename_i heq
      exact heq ▸ hfence
    · rw [ha] at hdead
      cases hdead
  | @renew name t life subscriber hlife hrenew =>
    rw [isAlive_eq_life] at ha hdead
    rw [hrenew] at hdead
    split at hdead
    · cases hl : sh.life? sid with
      | none =>
        rw [hl] at ha
        cases ha
      | some life =>
        rw [hl] at ha hdead
        exact absurd ha (Bool.eq_false_iff.mp hdead)
    · rw [ha] at hdead
      cases hdead

/-- A section of an operation gives a session back or leaves its fence as it was. -/
theorem Op.fence_old {op op' : Op} {ops : List Op} {sids : List Sid} {c : Choice}
    (h : op.step env sh c = some (sh', op', ops, sids)) {sid : Sid} {f : Session.Fence}
    (hf : sh'.fence? sid = some f) : f.Free ∨ sh.fence? sid = some f := by
  rcases fence_step h with hkeep | ⟨t, hrel⟩ | hnew
  · exact .inr (hkeep sid ▸ hf)
  · rw [hrel] at hf
    split at hf
    · obtain ⟨g, -, rfl⟩ := Option.map_eq_some_iff.mp hf
      exact .inl g.free_released
    · exact .inr hf
  · rw [hnew] at hf
    split at hf
    · cases hf
      exact .inl ⟨rfl, rfl, rfl⟩
    · exact .inr hf

/-- What the history and the scrollback of a dead session have to be after a section. -/
theorem Op.inert_step {op op' : Op} {ops : List Op} {sids : List Sid} {c : Input}
    (h : op.step env sh c.choice = some (sh', op', ops, sids)) (hI : sh.Registered)
    (hin : sh.Inert) (hspares : (Task.op op).SparesDead env sh c) : sh'.Inert := by
  have hfence : ∀ sid f, sh'.fence? sid = some f → sh'.isAlive sid = false → f.Free := by
    intro sid f hf hdead
    rcases fence_old h hf with hfree | hold
    · exact hfree
    · by_cases ha : sh.isAlive sid = true
      · rw [(effect_step h).died ha hdead, if_pos rfl, hold] at hf
        have hrel : f.released = f := Option.some.inj hf
        exact hrel ▸ f.free_released
      · exact hin.fence sid f hold (Bool.eq_false_iff.mpr ha)
  have hnote : ∀ e, sh'.history = e :: sh.history → (∀ sid alive, e ≠ .attached sid alive) →
      (∀ sid, e ≠ .renewReturned sid false) → (∀ sid, e ≠ .cleared sid) →
      (∀ t, sh'.buffer? t = sh.buffer? t) → sh'.Inert := by
    intro e hh hatt hren hclr hbuf
    refine ⟨hfence, fun sid hm => ?_, fun sid hm => ?_, fun sid r hm hr => ?_⟩ <;> rw [hh] at hm <;>
      rcases List.mem_cons.mp hm with heq | hm
    · exact hatt sid false heq.symm
    · exact hin.attached sid hm
    · exact hren sid heq.symm
    · exact hin.renewed sid hm
    · exact absurd heq.symm (hclr sid)
    · exact hin.cleared sid r hm (hbuf sid ▸ hr)
  have hquiet : sh'.history = sh.history →
      (∀ t, t < sh.heap.length → sh'.buffer? t = sh.buffer? t) → sh'.Inert := by
    intro hh hbuf
    refine ⟨hfence, fun sid => hh ▸ hin.attached sid, fun sid => hh ▸ hin.renewed sid,
      fun sid r hm hr => ?_⟩
    rw [hh] at hm
    have hlt := hI.allocated sid (hI.cleared sid hm).1
    exact hin.cleared sid r hm (hbuf sid hlt ▸ hr)
  cases effect_step h with
  | idle _ _ hh hbuf => exact hquiet hh fun t _ => hbuf t
  | spawn _ _ hh hbuf => exact hquiet hh hbuf
  | kill _ _ _ _ hh hbuf => exact hquiet hh fun t _ => hbuf t
  | revoke _ _ hh hbuf => exact hquiet hh fun t _ => hbuf t
  | mint _ _ hh hbuf => exact hnote _ hh nofun nofun nofun hbuf
  | publish _ _ hh hbuf => exact hnote _ hh nofun nofun nofun hbuf
  | renew _ _ _ hh hbuf => exact hnote _ hh nofun nofun nofun hbuf
  | clear _ _ hh hbuf =>
    refine ⟨hfence, fun sid hm => ?_, fun sid hm => ?_, fun sid r hm hr => ?_⟩
    · rw [hh] at hm
      exact hin.attached sid (List.mem_of_ne_of_mem Event.noConfusion hm)
    · rw [hh] at hm
      exact hin.renewed sid (List.mem_of_ne_of_mem Event.noConfusion hm)
    · rw [hbuf] at hr
      split at hr
      · obtain ⟨r₀, -, rfl⟩ := Option.map_eq_some_iff.mp hr
        rfl
      · rename_i hne
        rw [hh] at hm
        refine hin.cleared sid r ((List.mem_cons.mp hm).resolve_left fun e => ?_) hr
        exact hne (Event.cleared.inj e).symm
  | @renewMint name sid generation minted _ _ hh hbuf hgrant =>
    have ha : sh.isAlive sid = true := hspares (by
      obtain ⟨raw, hraw⟩ : ∃ m, (sh.tokens.mintForSession env.sha256 env.config.attachTokenTtl name
          generation c.choice.raw sh.now).2 = .ok m := by
        rcases sh.tokens.mintForSession_cases env.sha256 env.config.attachTokenTtl name generation
          c.choice.raw sh.now with ⟨error, heq⟩ | ⟨m, heq, -⟩
        · simp only [step, heq] at h
          cases h
        · exact ⟨m, by rw [heq]⟩
      rw [hraw]
      rfl)
    refine ⟨hfence, fun t hm => ?_, fun t hm => ?_, fun t r hm hr => ?_⟩ <;> rw [hh] at hm
    · exact hin.attached t (by simpa using hm)
    · rw [ha] at hm
      exact hin.renewed t (by simpa using hm)
    · exact hin.cleared t r (by simpa using hm) (hbuf t ▸ hr)

/-- A connection does not touch a dead session's fence, unless its attach does. -/
theorem Conn.inert_step {o o' : Conn} {c : Input}
    (h : o.step env sh c.arrival = some (sh', o')) (hin : sh.Inert)
    (hspares : (Task.conn o).SparesDead env sh c) : sh'.Inert := by
  have hcalm := step_calm h
  have halive := hcalm.isAlive
  refine ⟨fun sid f hf hdead => ?_, fun sid hm => ?_, fun sid hm => ?_, fun sid r hm hr => ?_⟩
  · rw [halive] at hdead
    have hkeep : sh.KeepsFences sh' → f.Free := fun hk => hin.fence sid f (hk sid ▸ hf) hdead
    cases Conn.fence_step h with
    | keep hsh => exact hkeep hsh
    | detached hsh => exact hkeep hsh
    | lost hsh => exact hkeep hsh
    | leave hsh => exact hkeep hsh
    | release hsh =>
      rw [hsh] at hf
      split at hf
      · obtain ⟨g, -, rfl⟩ := Option.map_eq_some_iff.mp hf
        exact g.free_released
      · exact hin.fence sid f hf hdead
    | @take a t now o' s hsh hs hgen =>
      rw [hsh] at hf
      split at hf
      · rename_i heq
        subst heq
        have ha : sh.isAlive t = true := hspares (by
          rw [life?, hs]
          exact decide_eq_true hgen)
        rw [hdead] at ha
        cases ha
      · exact hin.fence sid f hf hdead
  · rcases history_step h with hh | ⟨a, t, reg, rfl, hh⟩ <;> rw [hh] at hm
    · exact hin.attached sid hm
    · have ha : sh.isAlive t = true := hspares
      rw [ha] at hm
      have hne : Event.attached sid false ≠ .attached t true := fun e =>
        Bool.false_ne_true (Event.attached.inj e).2
      exact hin.attached sid (List.mem_of_ne_of_mem hne hm)
  · rcases history_step h with hh | ⟨a, t, reg, rfl, hh⟩ <;> rw [hh] at hm
    · exact hin.renewed sid hm
    · exact hin.renewed sid (List.mem_of_ne_of_mem Event.noConfusion hm)
  · rw [hcalm.buffer] at hr
    rcases history_step h with hh | ⟨a, t, reg, rfl, hh⟩ <;> rw [hh] at hm
    · exact hin.cleared sid r hm hr
    · exact hin.cleared sid r (List.mem_of_ne_of_mem Event.noConfusion hm) hr

/-- Nothing written leaves an empty scrollback empty. -/
theorem RingBuffer.toList_write_of_nothing {r : RingBuffer} {bytes : List UInt8}
    (hempty : r.buf.toList = []) (h : bytes = [] ∨ r.capacity = 0) :
    (r.write bytes).1.buf.toList = [] := by
  by_cases hcap : r.capacity = 0
  · simp [write, hcap, hempty]
  · obtain rfl := h.resolve_right hcap
    rw [toList_write _ _ (Nat.pos_of_ne_zero hcap), hempty, List.nil_append, List.drop_nil]

/-- Something written is retained, at least in part. -/
theorem RingBuffer.toList_write_ne_nil {r : RingBuffer} {bytes : List UInt8}
    (hempty : r.buf.toList = []) (hbytes : bytes ≠ []) (hcap : r.capacity ≠ 0) :
    (r.write bytes).1.buf.toList ≠ [] := by
  rw [toList_write _ _ (Nat.pos_of_ne_zero hcap), hempty, List.nil_append]
  have hpos := List.length_pos_iff.mpr hbytes
  refine List.length_pos_iff.mp ?_
  rw [List.length_drop]
  simp only [List.length_nil]
  omega

theorem Pump.inert_step {pump : Pump} {c : Input} (h : pump.step sh c.chunk = some (sh', t'))
    (hin : sh.Inert) (hspares : (Task.pump pump).SparesDead env sh c) : sh'.Inert := by
  obtain ⟨hh, -, hbuf⟩ := buffer_step h
  refine ⟨fun sid f hf hdead => ?_, fun sid => hh ▸ hin.attached sid,
    fun sid => hh ▸ hin.renewed sid, fun sid r hm hr => ?_⟩
  · rw [(step_steady h).isAlive] at hdead
    exact hin.fence sid f (fence_step h sid ▸ hf) hdead
  · rw [hh] at hm
    rcases hbuf with hkeep | ⟨t, bytes, rfl, hwrite⟩
    · exact hin.cleared sid r hm (hkeep sid ▸ hr)
    · rw [hwrite] at hr
      split at hr
      · rename_i heq
        subst heq
        obtain ⟨r₀, hr₀, rfl⟩ := Option.map_eq_some_iff.mp hr
        refine RingBuffer.toList_write_of_nothing (hin.cleared t r₀ hm hr₀) ?_
        have hnothing := hspares hm
        rw [hr₀] at hnothing
        simpa using hnothing
      · exact hin.cleared sid r hm hr

theorem Task.inert_step (h : Task.step env sh t c = some (sh', t', new)) (hI : sh.Registered)
    (hin : sh.Inert) (hspares : t.SparesDead env sh c) : sh'.Inert := by
  rcases step_cases h with ⟨op, op', ops, sids, rfl, hop, rfl, rfl⟩ | ⟨o, o', rfl, hconn, rfl, rfl⟩ |
    ⟨pump, rfl, hpump, rfl⟩
  · exact Op.inert_step hop hI hin hspares
  · exact Conn.inert_step hconn hin hspares
  · exact Pump.inert_step hpump hin hspares

/-- An attach wins the CAS of a session that nobody owns. -/
theorem Session.attachLocked_of_free {s : Session} {generation : Generation}
    (policy : SessionPolicy) (size : WindowSize) (now : Instant) (scrollbackReplay : Bool)
    (since : Option Nat)
    (hgen : s.state.generation = generation) (howner : s.state.ownerConn = ⟨0⟩) :
    (s.attachLocked policy scrollbackReplay generation size since now).1.fence = s.fence.taken := by
  unfold attachLocked attachCas
  rw [if_neg (not_not.mpr hgen)]
  dsimp only
  rw [if_neg fun h => h.1 howner]
  rfl

/-- A section that acts on a session that died meanwhile shows. -/
theorem Task.not_inert_step (h : Task.step env sh t c = some (sh', t', new))
    (hfences : sh.FencesValid) (hin : sh.Inert) (hspares : ¬ t.SparesDead env sh c) :
    ¬ sh'.Inert := by
  intro hin'
  rcases step_cases h with ⟨op, op', ops, sids, rfl, hop, rfl, rfl⟩ | ⟨o, o', rfl, hconn, rfl, rfl⟩ |
    ⟨pump, rfl, hpump, rfl⟩
  · cases op <;> try exact hspares trivial
    case renewMint name sid generation =>
      simp only [SparesDead, Classical.not_imp, Bool.not_eq_true] at hspares
      obtain ⟨hok, hdead⟩ := hspares
      simp only [Op.step] at hop
      split at hop
      · rename_i heq
        rw [heq] at hok
        cases hok
      · cases hop
        refine hin'.renewed sid ?_
        rw [← hdead]
        exact List.mem_cons_self
  · cases o <;> try exact hspares trivial
    case lock a sid now =>
      simp only [SparesDead, Classical.not_imp, Bool.not_eq_true] at hspares
      obtain ⟨hgen, hdead⟩ := hspares
      obtain ⟨s, hs, heq⟩ := Option.map_eq_some_iff.mp hconn
      have hgen : s.state.generation = a.generation := by
        rw [life?, hs] at hgen
        exact of_decide_eq_true hgen
      have howner := (hin.fence sid _ (fence?_eq hs) hdead).owner
      obtain rfl := (Prod.mk.inj heq).1
      have hfence := Session.attachLocked_of_free env.policy a.size now env.config.scrollbackReplay
        a.since hgen howner
      have hfree := hin'.fence sid _ (by rw [fence_modify_at hs, if_pos rfl])
        (by rw [(Conn.step_calm hconn).isAlive]; exact hdead)
      rw [hfence] at hfree
      exact absurd (congrArg ConnGeneration.val hfree.owner)
        (Nat.ne_of_gt (Nat.zero_lt_of_lt (hfences sid _ (fence?_eq hs)).next))
    case touch a sid reg =>
      cases hconn
      refine hin'.attached sid ?_
      rw [← Bool.eq_false_iff.mpr hspares]
      exact List.mem_cons_self
  · cases pump <;> try exact hspares trivial
    case write sid bytes =>
      simp only [SparesDead, Classical.not_imp, not_or] at hspares
      obtain ⟨hclear, hbytes, hcap⟩ := hspares
      cases hpump
      cases hr : sh.buffer? sid with
      | none =>
        rw [hr] at hcap
        exact hcap rfl
      | some r =>
        rw [hr] at hcap
        refine RingBuffer.toList_write_ne_nil (hin.cleared sid r hclear hr) hbytes (by simpa using hcap)
          (hin'.cleared sid _ hclear ?_)
        rw [buffer_modify, if_pos rfl]
        obtain ⟨s, hs, rfl⟩ := Option.map_eq_some_iff.mp hr
        rw [hs]
        rfl

/-! ## Tokens of the dead -/

/-- The entry of a name, when it was minted for a session that has died, is a session whose
revocation is still to come; `teardownRevoke` is the only section that can be it. -/
theorem Op.pending_step {op op' : Op} {ops : List Op} {sids : List Sid} {c : Input}
    (h : op.step env sh c.choice = some (sh', op', ops, sids)) (hI : sh.Registered)
    (hA : sh.Sound (.op op)) (hin' : sh'.Inert) {name : SessionName} {sid : Sid}
    (hentry : sh'.tokens.contains name = true) (hminter : sh'.minter name = some sid) :
    sh'.isAlive sid = true ∨ op'.revoking = some (name, sid) ∨
    sh.tokens.contains name = true ∧ sh.minter name = some sid ∧ sh.isAlive sid = false ∧
      op.revoking ≠ some (name, sid) := by
  -- The entry and its minter are those before the section, and the session is as alive as before.
  have hold : sh.tokens.contains name = true → sh.minter name = some sid →
      sh'.isAlive sid = sh.isAlive sid → op.revoking ≠ some (name, sid) →
      sh'.isAlive sid = true ∨ op'.revoking = some (name, sid) ∨
      sh.tokens.contains name = true ∧ sh.minter name = some sid ∧ sh.isAlive sid = false ∧
        op.revoking ≠ some (name, sid) := by
    intro he hm ha hr
    by_cases hal : sh.isAlive sid = true
    · exact .inl (ha.trans hal)
    · exact .inr (.inr ⟨he, hm, Bool.eq_false_iff.mpr hal, hr⟩)
  have herase : ∀ n, sh'.tokens = sh.tokens.erase n →
      n ≠ name ∧ sh.tokens.contains name = true := by
    intro n ht
    rw [ht, Std.TreeMap.contains_erase, Bool.and_eq_true] at hentry
    refine ⟨?_, hentry.2⟩
    rintro rfl
    rw [Std.ReflOrd.compare_self] at hentry
    exact absurd hentry.1 (by decide)
  have hmints : ∀ es : List Event, sh'.history = es ++ sh.history →
      (∀ e ∈ es, e.mint? = none) → sh.minter name = some sid := by
    intro es hh hes
    rw [← hminter]
    refine (minter_of_mints ?_ name).symm
    rw [mints_of_history _ hh, List.filterMap_eq_nil_iff.mpr hes, List.nil_append]
  cases effect_step h with
  | idle hlife htokens hh _ hop =>
    refine hold (htokens ▸ hentry) (hmints [] hh nofun) (isAlive_of_life hlife sid) fun hr => ?_
    cases op <;> cases hr
    cases hop
  | @spawn sp hlife htokens hh =>
    have hm := hmints [] hh nofun
    have hlt := lt_of_name? (hI.name_of_minter hm)
    refine hold (htokens ▸ hentry) hm ?_ nofun
    rw [isAlive_eq_life, isAlive_eq_life, hlife, if_neg (Nat.ne_of_lt hlt)]
  | publish hlife htokens hh =>
    exact hold (htokens ▸ hentry) (hmints [_] hh (by simp [Event.mint?])) (isAlive_of_life hlife sid)
      nofun
  | clear hlife htokens hh =>
    exact hold (htokens ▸ hentry) (hmints [_] hh (by simp [Event.mint?])) (isAlive_of_life hlife sid)
      nofun
  | @mint sp s minted hlife htokens hh =>
    obtain ⟨hlive, -⟩ := hA.spawning sp s rfl
    rw [minter_of_cons (mints_of_history [_] hh)] at hminter
    split at hminter
    · cases hminter
      exact .inl (by rw [isAlive_eq_life, hlife, hlive]; rfl)
    · rename_i hne
      refine hold ?_ hminter (isAlive_of_life hlife sid) nofun
      rw [htokens, Std.TreeMap.contains_insert, Bool.or_eq_true] at hentry
      exact hentry.resolve_left fun e => hne (Std.LawfulEqOrd.eq_of_compare (eq_of_beq e))
  | @renewMint n s g minted hlife htokens hh =>
    rw [minter_of_cons (mints_of_history [_, _] hh)] at hminter
    split at hminter
    · cases hminter
      refine .inl ?_
      rw [isAlive_of_life hlife]
      by_contra hdead
      refine hin'.renewed sid ?_
      rw [hh, Bool.eq_false_iff.mpr hdead]
      exact List.mem_cons_self
    · rename_i hne
      refine hold ?_ hminter (isAlive_of_life hlife sid) nofun
      rw [htokens, Std.TreeMap.contains_insert, Bool.or_eq_true] at hentry
      exact hentry.resolve_left fun e => hne (Std.LawfulEqOrd.eq_of_compare (eq_of_beq e))
  | revoke hlife htokens hh =>
    obtain ⟨hne, he⟩ := herase _ htokens
    exact hold he (hmints [] hh nofun) (isAlive_of_life hlife sid) fun hr =>
      hne (Prod.mk.inj (Option.some.inj hr)).1
  | @renew n s life subscriber hlife hrenew htokens hh =>
    refine hold (herase _ htokens).2 (hmints [_] hh (by simp [Event.mint?])) ?_ nofun
    rw [isAlive_eq_life, isAlive_eq_life, hrenew]
    split
    · cases sh.life? sid <;> rfl
    · rfl
  | @kill td life op' hlife hkill _ htokens hh _ hop' =>
    have hm := hmints [] hh nofun
    by_cases hsid : td.sid = sid
    · subst hsid
      obtain ⟨report, subscriber, hname, -, rfl⟩ := hop'
      by_cases ha : life.alive = true
      · -- The section that marks the session dead goes on to revoke its tokens.
        have hn := hI.name_of_minter hm
        rw [name?_eq_life, hlife] at hn
        rw [if_pos ha]
        have hn : life.name = name := Option.some.inj hn
        exact .inr (.inl (by rw [revoking, hname, hn]))
      · have hdead : sh.isAlive td.sid = false := by
          rw [isAlive_eq_life, hlife, Option.any_some, ← hI.lives td.sid life hlife]
          exact Bool.eq_false_iff.mpr ha
        exact .inr (.inr ⟨htokens ▸ hentry, hm, hdead, nofun⟩)
    · refine hold (htokens ▸ hentry) hm ?_ nofun
      rw [isAlive_eq_life, isAlive_eq_life, hkill, if_neg hsid]

end Step

/-! ## Runs -/

variable {env : Env} {w w' : World} {l : World.Label}

/-- A connection or a pump mints nothing and lets nobody die; the entries that remain were
there before. -/
theorem Shared.Steady.pending {sh sh' : Shared} (h : sh.Steady sh') {name : SessionName}
    {sid : Sid} (hentry : sh'.tokens.contains name = true) (hminter : sh'.minter name = some sid) :
    sh.tokens.contains name = true ∧ sh.minter name = some sid := by
  refine ⟨?_, ?_⟩
  · rcases h.tokens with heq | ⟨n, stored, -, -, heq⟩ <;> rw [heq] at hentry
    · exact hentry
    · rw [Std.TreeMap.contains_erase, Bool.and_eq_true] at hentry
      exact hentry.2
  · rw [← hminter, minter_of_mints]
    rcases h.history with heq | ⟨t, alive, heq⟩ <;> rw [mints, mints, heq]
    rfl

theorem World.pending_next (hI : w.Base) (hp : w.Pending) (hin' : w'.shared.Inert)
    (h : World.next env w l = some w') : w'.Pending := by
  intro name sid hentry hminter
  cases l with
  | call t =>
    obtain ⟨-, rfl⟩ := Threads.next_call h
    exact (hp name sid hentry hminter).imp_right fun ⟨u, hu, hr⟩ =>
      ⟨u, List.mem_append_left _ hu, hr⟩
  | env e =>
    obtain rfl := Threads.next_env h
    exact hp name sid hentry hminter
  | step i c =>
    obtain ⟨t, s', t', new, ht, hs, rfl⟩ := Threads.next_step h
    have hmem := List.mem_of_getElem? ht
    have ht' : t' ∈ w.tasks.set i t' ++ new :=
      List.mem_append_left _ (List.mem_set (List.getElem?_eq_some_iff.mp ht).1 t')
    have hsteady : w.shared.Steady s' → t.revoking = none → s'.isAlive sid = true ∨
        ∃ u ∈ w.tasks.set i t' ++ new, u.revoking = some (name, sid) := by
      intro hsteady hnone
      obtain ⟨he, hm⟩ := hsteady.pending hentry hminter
      rw [hsteady.isAlive]
      refine (hp name sid he hm).imp_right fun ⟨u, hu, hr⟩ =>
        ⟨u, Threads.mem_step_of_ne ht hu fun e => ?_, hr⟩
      rw [e, hnone] at hr
      cases hr
    rcases Task.step_cases hs with ⟨op, op', ops, sids, rfl, hop, rfl, rfl⟩ |
      ⟨o, o', rfl, hconn, rfl, rfl⟩ | ⟨pump, rfl, hpump, rfl⟩
    · rcases Op.pending_step hop hI.shared (hI.tasks _ hmem) hin' hentry hminter with
        ha | hr | ⟨he, hm, hdead, hne⟩
      · exact .inl ha
      · exact .inr ⟨_, ht', hr⟩
      · rcases hp name sid he hm with ha | ⟨u, hu, hr⟩
        · exact absurd ha (Bool.eq_false_iff.mp hdead)
        · refine .inr ⟨u, Threads.mem_step_of_ne ht hu fun e => hne ?_, hr⟩
          rw [e] at hr
          exact hr
    · exact hsteady (Conn.step_steady hconn) rfl
    · exact hsteady (Pump.step_steady hpump) rfl

/-- The invariant behind inertness. -/
structure World.Mourning (w : World) : Prop where
  base : w.Base
  fences : w.shared.FencesValid
  shared : w.shared.Inert
  pending : w.Pending

theorem World.Mourning.inert (h : w.Mourning) : w.Inert := by
  refine ⟨h.shared, fun hsettled name sid hentry hminter => ?_⟩
  rcases h.pending name sid hentry hminter with ha | ⟨t, ht, hr⟩
  · exact ha
  · cases t with
    | op op =>
      obtain ⟨reply, rfl⟩ := hsettled op ht
      cases hr
    | conn o => cases hr
    | pump o => cases hr

theorem World.mourning_init : World.init.Mourning where
  base := World.base_init
  fences _ _ hf := nomatch hf
  shared := ⟨fun _ _ hf => (nomatch hf), nofun, nofun, nofun⟩
  pending name sid he := by simp [World.init, Shared.init] at he

theorem World.mourning_next (hI : w.Mourning) (hc : w.SparesDead env l)
    (h : World.next env w l = some w') : w'.Mourning := by
  have hin : w'.shared.Inert := by
    cases l with
    | call t =>
      obtain ⟨-, rfl⟩ := Threads.next_call h
      exact hI.shared
    | env e =>
      obtain rfl := Threads.next_env h
      exact ⟨hI.shared.fence, hI.shared.attached, hI.shared.renewed, hI.shared.cleared⟩
    | step i c =>
      obtain ⟨t, s', t', new, ht, hs, rfl⟩ := Threads.next_step h
      exact Task.inert_step hs hI.base.shared hI.shared (hc i c t rfl ht)
  exact ⟨World.base_next hI.base h, World.fencesValid_next hI.fences h, hin,
    World.pending_next hI.base hI.pending hin h⟩

theorem World.not_inert_next (hI : w.Mourning) (hc : ¬ w.SparesDead env l)
    (h : World.next env w l = some w') : ¬ w'.Inert := by
  simp only [World.SparesDead, not_forall] at hc
  obtain ⟨i, c, t, rfl, ht, hbad⟩ := hc
  obtain ⟨t₀, s', t', new, ht₀, hs, rfl⟩ := Threads.next_step h
  obtain rfl := Option.some.inj (ht₀.symm.trans ht)
  exact fun hin => Task.not_inert_step hs hI.fences hI.shared hbad hin.shared

/-- Along every run, a dead session is inert in every state exactly when no section of the
run acts on a session that died since it was looked at. -/
theorem inert_iff_sparesDead (env : Env) (run : List World.Label) :
    Trace.AllStates (World.next env) World.Inert World.init run ↔
      Trace.AllSteps (World.next env) (World.SparesDead env) World.init run :=
  Trace.allStates_iff_allSteps (I := World.Mourning) (fun _ hI => hI.inert)
    (fun _ _ _ hI hc h => World.mourning_next hI hc h)
    (fun _ _ _ hI hc h => World.not_inert_next hI hc h) World.mourning_init

/-- A client finds `sh` alive; a kill marks it dead; the client takes the session. -/
def attachOverKill : List World.Label :=
  [.call (.op (.claimName { name := .sh, size := .default, origin := .create })),
   .step 0 {}, .step 0 {}, .step 0 { choice := { raw := some [7] } }, .step 0 {}, .step 0 {},
   .call (.conn (.request { token := [48, 55], session := [115, 104], since := none,
                            rows := none, cols := none })),
   .step 2 {}, .step 2 {}, .step 2 {}, .step 2 {}, .step 2 {}, .step 2 {},
   .call (.op (.killGet .sh)), .step 3 {}, .step 3 {}, .step 2 {}]

/-- The dead session has an owner and a subscriber. -/
theorem attachOverKill_owned :
    ¬ Trace.AllStates (World.next .default) World.Inert World.init attachOverKill := by
  intro h
  obtain ⟨w, hin, hw⟩ := h.observe
    (f := fun w => (w.shared.isAlive 0, (w.shared.fence? 0).map (·.ownerConn)))
    (show _ = some (false, some ⟨1⟩) from by decide)
  obtain ⟨hdead, howner⟩ := Prod.mk.inj hw
  obtain ⟨f, hf, howner⟩ := Option.map_eq_some_iff.mp howner
  have hfree := (hin.shared.fence 0 f hf hdead).owner
  rw [howner] at hfree
  cases hfree

end OpenabPty
