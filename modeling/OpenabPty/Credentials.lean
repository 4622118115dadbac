import OpenabPty.Effects

/-!
# Credentials that were handed out

`create`, `renew` and `restart_in_place` return a token for a name and a generation; the token
store keeps one entry per name. A mint replaces that entry and a teardown removes it, both
after the session lock is gone and both by name only, so what they replace or remove may be
the entry of a newer generation, or of a newer incarnation.
-/

namespace OpenabPty

open Shared

/-- What was minted for a session is current: the session is alive, its generation is still
that of the mint, and the TTL has not elapsed. -/
def Shared.current (sh : Shared) (sid : Sid) (stored : StoredAttachToken) : Bool :=
  (sh.life? sid).any (fun life => life.ioAlive && life.generation = stored.generation) &&
    sh.now < stored.expiresAt

/-- The credential in a reply. -/
def Reply.credential : Reply → Option Issued
  | .issued i => some i
  | _ => none

/-- The credential an operation is about to return, or has returned. -/
def Op.carries : Op → Option Issued
  | .publish sp sid token =>
    some { sid := sid, session := sp.name, generation := sp.generation, token := token }
  | .dropClaim _ reply | .returned reply => reply.credential
  | _ => none

def Task.carries : Task → Option Issued := Task.onOp Op.carries

/-- The session a renew works on, with the generation the renew gave it. -/
def Op.renewing : Op → Option (Sid × Generation)
  | .renewClose _ sid generation _ | .renewMint _ sid generation => some (sid, generation)
  | _ => none

def Task.renewing : Task → Option (Sid × Generation) := Task.onOp Op.renewing

/-- Every credential that was returned works: while its session is alive at its generation and
its TTL has not elapsed, it verifies. -/
def World.CredentialsWork (env : Env) (w : World) : Prop :=
  ∀ i life, Task.op (.returned (.issued i)) ∈ w.tasks → w.shared.life? i.sid = some life →
    life.ioAlive = true → life.generation = i.generation →
    w.shared.now < i.token.grant.expiresAt →
      (w.shared.verifyToken env i.session i.generation i.token.plaintext).2 = .ok i.token.grant

/-- The name whose entry a section replaces or removes; a renew means the entry of its own
session. -/
def Op.overwrites (env : Env) (sh : Shared) (c : Choice) : Op → Option (SessionName × Option Sid)
  | .mint sp _ =>
    if (sh.tokens.mintForSession env.sha256 env.config.attachTokenTtl sp.name sp.generation
      c.raw sh.now).2.isOk then some (sp.name, none) else none
  | .renewMint name _ generation =>
    if (sh.tokens.mintForSession env.sha256 env.config.attachTokenTtl name generation
      c.raw sh.now).2.isOk then some (name, none) else none
  | .teardownRevoke _ report _ => some (report.session, none)
  | .renewLock name sid => some (name, some sid)
  | _ => none

/-- The section replaces or removes no entry while a credential of the name is current, but
for the credential of the session a renew gives a new generation. -/
def Op.SparesCurrent (env : Env) (sh : Shared) (c : Choice) (op : Op) : Prop :=
  ∀ x ∈ op.overwrites env sh c, ∀ m ∈ sh.mints, m.1 = x.1 → sh.current m.2.1 m.2.2 = true →
    x.2 = some m.2.1

instance (env : Env) (sh : Shared) (c : Choice) (op : Op) : Decidable (op.SparesCurrent env sh c) :=
  inferInstanceAs (Decidable (∀ x ∈ op.overwrites env sh c, _))

/-- The step spares the current credentials. -/
def World.SparesCurrent (env : Env) (w : World) : World.Label → Prop
  | .step i c => ∀ op ∈ w.tasks[i]?.bind (Task.onOp some), op.SparesCurrent env w.shared c.choice
  | _ => True

instance (env : Env) (w : World) : ∀ l : World.Label, Decidable (w.SparesCurrent env l)
  | .step i _ => inferInstanceAs (Decidable (∀ op ∈ w.tasks[i]?.bind (Task.onOp some), _))
  | .call _ => isTrue trivial
  | .env _ => isTrue trivial

namespace Shared

/-- The store has the entry of everything that is current, and no mint is ahead of the
generation of its session. -/
structure Vault (sh : Shared) : Prop where
  entry : ∀ name sid stored, (name, sid, stored) ∈ sh.mints → sh.current sid stored = true →
    sh.tokens[name]? = some stored
  behind : ∀ name sid stored life, (name, sid, stored) ∈ sh.mints → sh.life? sid = some life →
    stored.generation ≤ life.generation

/-- A task carries a credential that was minted, and a renew works for a generation its
session has reached. -/
structure Holds (env : Env) (sh : Shared) (t : Task) : Prop where
  carried : ∀ i, t.carries = some i →
    (i.session, i.sid, i.token.stored env.sha256) ∈ sh.mints ∧
    i.token.grant = { session := i.session, generation := i.generation, scope := .attachOnly,
                      expiresAt := i.token.grant.expiresAt }
  renewing : ∀ sid generation, t.renewing = some (sid, generation) →
    ∃ life, sh.life? sid = some life ∧ generation ≤ life.generation

variable {env : Env} {sh sh' : Shared} {t : Task}

theorem Holds.grow (h : sh.Holds env t) (hg : sh.Grows sh') : sh'.Holds env t where
  carried i hi := ⟨hg.mints (h.carried i hi).1, (h.carried i hi).2⟩
  renewing sid generation hr := by
    obtain ⟨life, hlife, hle⟩ := h.renewing sid generation hr
    obtain ⟨life', hlife', hle'⟩ := hg.life sid life hlife
    exact ⟨life', hlife', Nat.le_trans hle hle'⟩

theorem current_of_life (hlife : ∀ sid, sh'.life? sid = sh.life? sid) (hnow : sh'.now = sh.now)
    (sid : Sid) (stored : StoredAttachToken) : sh'.current sid stored = sh.current sid stored := by
  rw [current, current, hlife, hnow]

/-- What it takes to be current. -/
theorem current_iff {sid : Sid} {stored : StoredAttachToken} :
    sh.current sid stored = true ↔ ∃ life, sh.life? sid = some life ∧ life.ioAlive = true ∧
      life.generation = stored.generation ∧ sh.now < stored.expiresAt := by
  simp only [current, Bool.and_eq_true, decide_eq_true_eq, Option.any_eq_true]
  constructor
  · rintro ⟨⟨life, hlife, ha, hg⟩, hnow⟩
    exact ⟨life, hlife, ha, hg, hnow⟩
  · rintro ⟨life, hlife, ha, hg, hnow⟩
    exact ⟨⟨life, hlife, ha, hg⟩, hnow⟩

/-- What carries a current credential verifies it. -/
theorem Vault.verify (h : sh.Vault) (hA : sh.Holds env t) {i : Issued} {life : Session.Life}
    (hi : t.carries = some i) (hlife : sh.life? i.sid = some life) (halive : life.ioAlive = true)
    (hgen : life.generation = i.generation) (hnow : sh.now < i.token.grant.expiresAt) :
    (sh.verifyToken env i.session i.generation i.token.plaintext).2 = .ok i.token.grant := by
  obtain ⟨hm, hgrant⟩ := hA.carried i hi
  have hgg : i.token.grant.generation = i.generation := by rw [hgrant]
  have hgs : i.token.grant.scope = .attachOnly := by rw [hgrant]
  have hentry := h.entry _ _ _ hm (current_iff.mpr ⟨life, hlife, halive, hgen.trans hgg.symm, hnow⟩)
  rw [verifyToken, TokenEntries.verify_of_entry hentry hgs hgg rfl hnow, hgrant]
  rfl

end Shared

/-! ## One section -/

section Step

variable {env : Env} {sh sh' : Shared} {c : Choice} {op op' : Op} {ops : List Op}
  {sids : List Sid}

/-- Only the environment moves the clock. -/
theorem Op.now_step (h : op.step env sh c = some (sh', op', ops, sids)) : sh'.now = sh.now := by
  by_cases hq : op.quiet = true
  · exact (step_quiet hq h).1.now
  cases op <;> simp only [quiet, not_true_eq_false] at hq <;>
    grind [step, Shared.claimName, Shared.takeTombstone, Shared.allocate, Shared.publish,
      Shared.modify_now, Shared.note, Shared.forget, Shared.rememberDead, Shared.dropClaim]

/-- A credential comes out of a mint. -/
theorem Op.carries_step (h : op.step env sh c = some (sh', op', ops, sids)) :
    (∀ o ∈ ops, o.carries = none) ∧ ∀ i, op'.carries = some i → op.carries = some i ∨
      (∃ sp sid, op = .mint sp sid) ∨ ∃ name sid generation, op = .renewMint name sid generation := by
  obtain ⟨hgo, hops⟩ := flow_step h
  clear h
  refine ⟨fun o ho => ?_, fun i hi => ?_⟩
  · obtain ⟨name, old, -, rfl⟩ := hops o ho
    rfl
  cases hgo with
  | minted sp sid => exact .inr (.inl ⟨sp, sid, rfl⟩)
  | renewMinted name sid generation => exact .inr (.inr ⟨name, sid, generation, rfl⟩)
  | published | claimDropped => exact .inl hi
  | _ => cases hi

/-- A renew gets its generation in its locked section. -/
theorem Op.renewing_step (h : op.step env sh c = some (sh', op', ops, sids)) :
    (∀ o ∈ ops, o.renewing = none) ∧ ∀ x, op'.renewing = some x → op.renewing = some x ∨
      ∃ name, op = .renewLock name x.1 := by
  obtain ⟨hgo, hops⟩ := flow_step h
  clear h
  refine ⟨fun o ho => ?_, fun x hx => ?_⟩
  · obtain ⟨name, old, -, rfl⟩ := hops o ho
    rfl
  cases hgo with
  | renewLocked name sid s =>
    cases hx
    exact .inr ⟨name, rfl⟩
  | renewClosed => exact .inl hx
  | _ => cases hx

/-- A mint for a name of which nothing is current. -/
theorem Shared.Vault.mint (h : sh.Vault) {name : SessionName} {sid : Sid}
    {stored : StoredAttachToken} (hlife : ∀ t, sh'.life? t = sh.life? t)
    (hnow : sh'.now = sh.now) (htokens : sh'.tokens = sh.tokens.insert name stored)
    (hmints : sh'.mints = (name, sid, stored) :: sh.mints)
    (hle : ∀ life, sh.life? sid = some life → stored.generation ≤ life.generation)
    (hnone : ∀ m ∈ sh.mints, m.1 = name → sh.current m.2.1 m.2.2 = false) : sh'.Vault where
  entry n t st hm hcur := by
    rw [current_of_life hlife hnow] at hcur
    rw [htokens, Std.TreeMap.getElem?_insert]
    rw [hmints] at hm
    rcases List.mem_cons.mp hm with heq | hm
    · cases heq
      rw [if_pos Std.ReflOrd.compare_self]
    · rw [if_neg, h.entry n t st hm hcur]
      intro heq
      have hne := hnone _ hm (Std.LawfulEqOrd.eq_of_compare heq).symm
      rw [hcur] at hne
      cases hne
  behind n t st life hm hl := by
    rw [hlife] at hl
    rw [hmints] at hm
    rcases List.mem_cons.mp hm with heq | hm
    · cases heq
      exact hle life hl
    · exact h.behind n t st life hm hl

/-- A mint that goes through overwrites. -/
theorem Op.overwrites_mint {sp : Spawn} {sid : Sid} {minted : MintedAttachToken}
    (h : (Op.mint sp sid).step env sh c = some (sh', .publish sp sid minted, ops, sids)) :
    (Op.mint sp sid).overwrites env sh c = some (sp.name, none) := by
  simp only [step] at h
  split at h
  · cases h
  · rename_i heq
    rw [overwrites, heq]
    rfl

theorem Op.overwrites_renewMint {name : SessionName} {sid : Sid} {generation : Generation}
    {i : Issued} (h : (Op.renewMint name sid generation).step env sh c =
      some (sh', .returned (.issued i), ops, sids)) :
    (Op.renewMint name sid generation).overwrites env sh c = some (name, none) := by
  simp only [step] at h
  split at h
  · cases h
  · rename_i heq
    rw [overwrites, heq]
    rfl

/-- A section that spares the current credentials keeps the store and the mints in step. -/
theorem Op.vault_step (h : op.step env sh c = some (sh', op', ops, sids)) (hI : sh.Registered)
    (hA : sh.Sound (.op op)) (hv : sh.Vault) (hH : sh.Holds env (.op op))
    (hspares : op.SparesCurrent env sh c) : sh'.Vault := by
  have hnow := now_step h
  have hkeep : (∀ t, sh'.life? t = sh.life? t) → sh'.tokens = sh.tokens → sh'.mints = sh.mints →
      sh'.Vault := fun hlife htokens hm =>
    ⟨fun name sid stored hmem hcur => by
        rw [current_of_life hlife hnow] at hcur
        rw [htokens]
        exact hv.entry name sid stored (hm ▸ hmem) hcur,
      fun name sid stored life hmem hl =>
        hv.behind name sid stored life (hm ▸ hmem) (hlife sid ▸ hl)⟩
  -- Nothing of the name is current when its entry is replaced or removed.
  have hnone : ∀ {name}, op.overwrites env sh c = some (name, none) →
      ∀ m ∈ sh.mints, m.1 = name → sh.current m.2.1 m.2.2 = false := by
    intro name hover m hm hn
    by_contra hcur
    exact nomatch hspares _ hover m hm hn (Bool.not_eq_false _ ▸ hcur)
  cases effect_step h with
  | idle hlife htokens hh => exact hkeep hlife htokens (mints_of_history [] hh)
  | publish hlife htokens hh => exact hkeep hlife htokens (mints_of_history [_] hh)
  | clear hlife htokens hh => exact hkeep hlife htokens (mints_of_history [_] hh)
  | @spawn sp hlife htokens hh =>
    -- The session that was just spawned has no mint yet.
    have hold : ∀ name sid stored, (name, sid, stored) ∈ sh'.mints →
        (name, sid, stored) ∈ sh.mints ∧ sh'.life? sid = sh.life? sid := by
      intro name sid stored hm
      rw [mints_of_history [] hh] at hm
      have hlt := lt_of_name? (hI.minted name sid stored (mem_mints.mp hm))
      exact ⟨hm, by rw [hlife, if_neg (Nat.ne_of_lt hlt)]⟩
    refine ⟨fun name sid stored hm hcur => ?_, fun name sid stored life hm hl => ?_⟩
    · obtain ⟨hm, hsame⟩ := hold name sid stored hm
      rw [current, hsame, hnow] at hcur
      rw [htokens]
      exact hv.entry name sid stored hm hcur
    · obtain ⟨hm, hsame⟩ := hold name sid stored hm
      exact hv.behind name sid stored life hm (hsame ▸ hl)
  | @mint sp sid minted hlife htokens hh _ hgrant =>
    refine hv.mint hlife hnow htokens (mints_of_history [_] hh) (fun life hl => ?_)
      (hnone (overwrites_mint h))
    rw [(hA.spawning sp sid rfl).1] at hl
    cases hl
    rw [MintedAttachToken.stored, hgrant]
    exact Nat.le_refl _
  | @renewMint name sid generation minted hlife htokens hh _ hgrant =>
    refine hv.mint hlife hnow htokens (mints_of_history [_, _] hh) (fun life hl => ?_)
      (hnone (overwrites_renewMint h))
    obtain ⟨life', hl', hle⟩ := hH.renewing sid generation rfl
    obtain rfl := Option.some.inj (hl.symm.trans hl')
    rw [MintedAttachToken.stored, hgrant]
    exact hle
  | @revoke td report subscriber hlife htokens hh =>
    have hm : sh'.mints = sh.mints := mints_of_history [] hh
    refine ⟨fun name sid stored hmem hcur => ?_, fun name sid stored life hmem hl =>
      hv.behind name sid stored life (hm ▸ hmem) (hlife sid ▸ hl)⟩
    rw [hm] at hmem
    rw [current_of_life hlife hnow] at hcur
    rw [htokens, Std.TreeMap.getElem?_erase, if_neg, hv.entry name sid stored hmem hcur]
    intro heq
    have hfalse := hnone rfl _ hmem (Std.LawfulEqOrd.eq_of_compare heq).symm
    rw [hcur] at hfalse
    cases hfalse
  | @kill td life op' hlife hkill _ htokens hh =>
    have hm : sh'.mints = sh.mints := mints_of_history [] hh
    refine ⟨fun name sid stored hmem hcur => ?_, fun name sid stored life' hmem hl => ?_⟩
    · rw [htokens]
      refine hv.entry name sid stored (hm ▸ hmem) ?_
      rw [current, hkill, hnow] at hcur
      split at hcur
      · cases hl : sh.life? sid <;> rw [hl] at hcur <;> cases hcur
      · exact hcur
    · rw [hkill] at hl
      split at hl
      · obtain ⟨life₀, hl₀, rfl⟩ := Option.map_eq_some_iff.mp hl
        exact hv.behind name sid stored life₀ (hm ▸ hmem) hl₀
      · exact hv.behind name sid stored life' (hm ▸ hmem) hl
  | @renew name sid life subscriber hlife hrenew htokens hh =>
    have hm : sh'.mints = sh.mints := mints_of_history [_] hh
    refine ⟨fun n t stored hmem hcur => ?_, fun n t stored life' hmem hl => ?_⟩
    · have hmem : (n, t, stored) ∈ sh.mints := hm ▸ hmem
      rw [current, hrenew, hnow] at hcur
      split at hcur
      · -- The renewed session has outrun all its mints.
        rename_i heq
        subst heq
        have hle := hv.behind n sid stored life hmem hlife
        rw [hlife] at hcur
        simp only [Option.map_some, Option.any_some, Session.Life.renewed, Bool.and_eq_true,
          decide_eq_true_eq] at hcur
        rw [← hcur.1.2] at hle
        exact absurd hle (Nat.not_succ_le_self _)
      · rename_i hne
        rw [htokens, Std.TreeMap.getElem?_erase, if_neg, hv.entry n t stored hmem hcur]
        intro heq
        have hsame := hspares (name, some sid) rfl _ hmem
          (Std.LawfulEqOrd.eq_of_compare heq).symm hcur
        exact hne (Option.some.inj hsame)
    · have hmem : (n, t, stored) ∈ sh.mints := hm ▸ hmem
      rw [hrenew] at hl
      split at hl
      · obtain ⟨life₀, hl₀, rfl⟩ := Option.map_eq_some_iff.mp hl
        exact Nat.le_succ_of_le (hv.behind n t stored life₀ hmem hl₀)
      · exact hv.behind n t stored life' hmem hl

/-- What the operation that moved carries afterwards was minted, and what it renews has reached
its generation. -/
theorem Op.holds_step (h : op.step env sh c = some (sh', op', ops, sids))
    (hH : sh.Holds env (.op op)) : sh'.Holds env (.op op') := by
  have hgrow := hH.grow (effect_step h).grows
  refine ⟨fun i hi => ?_, fun sid generation hr => ?_⟩
  · rcases (carries_step h).2 i hi with hold | ⟨sp, sid, rfl⟩ | ⟨name, sid, generation, rfl⟩
    · exact hgrow.carried i hold
    · simp only [step] at h
      rcases sh.tokens.mintForSession_cases env.sha256 env.config.attachTokenTtl sp.name
          sp.generation c.raw sh.now with ⟨error, heq⟩ | ⟨minted, heq, hgrant, -⟩ <;>
        rw [heq] at h <;> cases h <;> cases hi
      exact ⟨mem_mints.mpr List.mem_cons_self, by rw [hgrant]⟩
    · simp only [step] at h
      rcases sh.tokens.mintForSession_cases env.sha256 env.config.attachTokenTtl name generation
          c.raw sh.now with ⟨error, heq⟩ | ⟨minted, heq, hgrant, -⟩ <;>
        rw [heq] at h <;> cases h <;> cases hi
      exact ⟨mem_mints.mpr (List.mem_cons_of_mem _ List.mem_cons_self), by rw [hgrant]⟩
  · rcases (renewing_step h).2 _ hr with hold | ⟨name, rfl⟩
    · exact hgrow.renewing sid generation hold
    · obtain ⟨s, hs, heq⟩ := Option.map_eq_some_iff.mp h
      cases heq
      obtain rfl : s.renewLocked.2.1 = generation := (Prod.mk.inj (Option.some.inj hr)).2
      refine ⟨s.life.renewed, ?_, Nat.le_refl _⟩
      exact (lifeAt_modify sid (f := fun s => s.renewLocked.1) (fun _ => rfl) sid).trans (by
        rw [if_pos rfl, life?, hs]
        rfl)

/-- A connection or a pump, which removes at most an expired entry. -/
theorem Shared.Steady.vault (h : sh.Steady sh') (hv : sh.Vault) : sh'.Vault := by
  have hm : sh'.mints = sh.mints := by
    rcases h.history with heq | ⟨t, alive, heq⟩ <;> rw [mints, mints, heq]
    rfl
  refine ⟨fun name sid stored hmem hcur => ?_, fun name sid stored life hmem hl =>
    hv.behind name sid stored life (hm ▸ hmem) (h.life sid ▸ hl)⟩
  rw [current_of_life h.life h.now] at hcur
  have hentry := hv.entry name sid stored (hm ▸ hmem) hcur
  rcases h.tokens with heq | ⟨n, expired, hexpired, hle, heq⟩ <;> rw [heq]
  · exact hentry
  · rw [Std.TreeMap.getElem?_erase, if_neg, hentry]
    intro hn
    obtain rfl : n = name := Std.LawfulEqOrd.eq_of_compare hn
    obtain rfl := Option.some.inj (hexpired.symm.trans hentry)
    obtain ⟨life, -, -, -, hlt⟩ := current_iff.mp hcur
    exact absurd hle (Nat.not_le.mpr hlt)

end Step

/-! ## Runs -/

section Step

variable {env : Env} {sh sh' : Shared} {c : Input} {t t' : Task} {new : List Task}

/-- Connections and pumps carry no credential and renew nothing. -/
theorem Shared.holds_of_none (hc : t.carries = none) (hr : t.renewing = none) : sh.Holds env t where
  carried i hi := by
    rw [hc] at hi
    cases hi
  renewing sid generation h := by
    rw [hr] at h
    cases h

theorem Task.credential_entry (h : t.entry = true) : sh.Holds env t := by
  cases t with
  | op o => cases o <;> first | exact holds_of_none rfl rfl | cases h
  | conn o => exact holds_of_none rfl rfl
  | pump o => exact holds_of_none rfl rfl

/-- One step of a task that spares the current credentials. -/
theorem Task.vault_step (h : Task.step env sh t c = some (sh', t', new)) (hI : sh.Registered)
    (hA : sh.Sound t) (hv : sh.Vault) (hH : sh.Holds env t)
    (hspares : ∀ op, t = .op op → op.SparesCurrent env sh c.choice) :
    sh'.Vault ∧ sh.Grows sh' ∧ sh'.Holds env t' ∧ ∀ u ∈ new, sh'.Holds env u := by
  rcases step_cases h with ⟨op, op', ops, sids, rfl, hop, rfl, rfl⟩ | ⟨o, o', rfl, hconn, rfl, rfl⟩ |
    ⟨pump, rfl, hpump, rfl⟩
  · refine ⟨Op.vault_step hop hI hA hv hH (hspares op rfl), (Op.effect_step hop).grows,
      Op.holds_step hop hH, fun u hu => ?_⟩
    rcases List.mem_append.mp hu with hu | hu
    · obtain ⟨o, ho, rfl⟩ := List.mem_map.mp hu
      exact holds_of_none ((Op.carries_step hop).1 o ho) ((Op.renewing_step hop).1 o ho)
    · obtain ⟨sid, -, rfl⟩ := List.mem_map.mp hu
      exact holds_of_none rfl rfl
  · have hs := Conn.step_steady hconn
    exact ⟨hs.vault hv, hs.grows, holds_of_none rfl rfl, fun u hu => absurd hu List.not_mem_nil⟩
  · have hs := Pump.step_steady hpump
    refine ⟨hs.vault hv, hs.grows, ?_, fun u hu => absurd hu List.not_mem_nil⟩
    rcases Pump.step_task hpump with ⟨pump', rfl⟩ | ⟨sid, rfl⟩ <;> exact holds_of_none rfl rfl

end Step

/-- The invariant behind the credentials. -/
structure World.Keyed (env : Env) (w : World) : Prop where
  base : w.Base
  vault : Threads.Annotated Shared.Vault (Shared.Holds env) (fun _ => (none : Option Unit)) w

variable {env : Env} {w w' : World} {l : World.Label}

theorem World.keyed_init (env : Env) : World.init.Keyed env :=
  ⟨World.base_init, Threads.Annotated.initial ⟨nofun, nofun⟩⟩

theorem World.keyed_next (hI : w.Keyed env) (hc : w.SparesCurrent env l)
    (h : World.next env w l = some w') : w'.Keyed env := by
  refine ⟨World.base_next hI.base h, hI.vault.preserved (fun _ _ => True) h
    (fun t _ he => ⟨Task.credential_entry he, rfl⟩) (fun i c t s' t' new hl ht hs hA => ?_)
    (fun _ _ _ _ => nofun) fun e _ => ⟨⟨fun name sid stored hm hcur => ?_, hI.vault.shared.behind⟩,
      fun u _ hu => ⟨hu.carried, hu.renewing⟩⟩⟩
  · subst hl
    have hmem := List.mem_of_getElem? ht
    obtain ⟨hv, hgrows, hA', hnew⟩ := Task.vault_step hs hI.base.shared (hI.base.tasks t hmem)
      hI.vault.shared hA fun op e => hc op (by rw [ht, e]; rfl)
    exact ⟨hv, hA', fun u hu => ⟨hnew u hu, rfl⟩, fun k hk => (nomatch hk),
      fun u _ hu _ => hu.grow hgrows⟩
  · -- The clock moves forwards: what is current now was current before.
    refine hI.vault.shared.entry name sid stored hm ?_
    obtain ⟨life, hlife, ha, hg, hlt⟩ := current_iff.mp hcur
    exact current_iff.mpr ⟨life, hlife, ha, hg, Nat.lt_of_le_of_lt (Nat.le_add_right _ e) hlt⟩

theorem World.Keyed.credentialsWork (hI : w.Keyed env) : w.CredentialsWork env :=
  fun _ _ ht hlife halive hgen hnow =>
    hI.vault.shared.verify (hI.vault.tasks _ ht) rfl hlife halive hgen hnow

/-- Along every run in which no mint and no revoke replaces or removes an entry while a
credential of its name is current, every credential that was returned works. -/
theorem credentialsWork_of_sparesCurrent (env : Env) (run : List World.Label)
    (h : Trace.AllSteps (World.next env) (World.SparesCurrent env) World.init run) :
    Trace.AllStates (World.next env) (World.CredentialsWork env) World.init run :=
  Trace.AllStates.imp (fun _ hI => hI.credentialsWork)
    (Trace.AllStates.of_invariant (fun _ _ _ hI hc hs => World.keyed_next hI hc hs)
      (World.keyed_init env) h)

/-- `sh` is created and renewed, killed, and created again. -/
def createRenewKill : List World.Label :=
  [.call (.op (.claimName { name := .sh, size := .default, origin := .create })),
   .step 0 {}, .step 0 {}, .step 0 { choice := { raw := some [7] } }, .step 0 {}, .step 0 {},
   .call (.op (.renewGet .sh)), .step 2 {}, .step 2 {}, .step 2 {}, .step 2 {},
   .step 2 { choice := { raw := some [8] } },
   .call (.op (.killGet .sh)), .step 3 {}, .step 3 {}, .step 3 {}, .step 3 {}, .step 3 {},
   .step 3 {}, .step 3 {}, .step 3 {},
   .call (.op (.claimName { name := .sh, size := .default, origin := .create })),
   .step 4 {}, .step 4 {}, .step 4 { choice := { raw := some [9] } }, .step 4 {}, .step 4 {}]

theorem credentialsWork_createRenewKill :
    Trace.AllStates (World.next .default) (World.CredentialsWork .default) World.init
      createRenewKill :=
  credentialsWork_of_sparesCurrent .default createRenewKill (by decide)

/-- Two renews of `sh` overlap: the second one bumps the generation after the first and mints
before it. -/
def overlappingRenews : List World.Label :=
  [.call (.op (.claimName { name := .sh, size := .default, origin := .create })),
   .step 0 {}, .step 0 {}, .step 0 { choice := { raw := some [7] } }, .step 0 {}, .step 0 {},
   .call (.op (.renewGet .sh)), .step 2 {}, .step 2 {}, .step 2 {}, .step 2 {},
   .call (.op (.renewGet .sh)), .step 3 {}, .step 3 {}, .step 3 {}, .step 3 {},
   .step 3 { choice := { raw := some [9] } }, .step 2 { choice := { raw := some [8] } }]

/-- What the second renew returns. -/
def overlapped : Issued where
  sid := 0
  session := .sh
  generation := ⟨3⟩
  token := { plaintext := [48, 57]
             grant := { session := .sh, generation := ⟨3⟩, scope := .attachOnly,
                        expiresAt := Duration.fromSecs (15 * 60) } }

/-- The credential of the newer generation does not verify. -/
theorem overlappingRenews_unauthorized :
    ¬ Trace.AllStates (World.next .default) (World.CredentialsWork .default) World.init
      overlappingRenews := by
  intro h
  obtain ⟨w, hwork, hw⟩ := h.observe
    (f := fun w => (w.tasks[3]?, (w.shared.life? 0).map fun life => (life.ioAlive, life.generation),
      w.shared.now, (w.shared.verifyToken .default .sh ⟨3⟩ [48, 57]).2.isOk))
    (show _ = some (some (Task.op (.returned (.issued overlapped))), some (true, ⟨3⟩), 0, false)
      from by decide)
  simp only [Prod.mk.injEq] at hw
  obtain ⟨ht, hlife, hnow, hfails⟩ := hw
  obtain ⟨life, hlife, heq⟩ := Option.map_eq_some_iff.mp hlife
  obtain ⟨halive, hgen⟩ := Prod.mk.inj heq
  have hok := hwork overlapped life (List.mem_of_getElem? ht) hlife halive hgen
    (by rw [hnow]; decide)
  rw [show (w.shared.verifyToken .default .sh ⟨3⟩ [48, 57]).2 = _ from hok] at hfails
  cases hfails

end OpenabPty
