import OpenabPty.Core.Trace
import OpenabPty.Manager
import OpenabPty.ToolsHub

/-!
# A tools lease ends with its grant

`sweep` finds an attached Mac through its grant only: it closes the Macs whose grant has
expired. A grant that is gone before the sweep leaves its Mac attached for good.
-/

namespace OpenabPty

namespace ToolsHub

/-! ## Every attached Mac has a grant -/

variable {hub hub' : ToolsHub}

/-- The sockets of the map exist, and every session with an attached Mac has a grant, expired
or not. -/
structure Granted (hub : ToolsHub) : Prop where
  placed : hub.Placed
  granted : ∀ session, hub.isAttached session = true → ∃ grant : Grant,
    hub.grants[session]? = some grant

theorem granted_new (maxTtl : Duration) : (new maxTtl).Granted := by
  refine ⟨placed_new maxTtl, fun session h => ?_⟩
  rw [isAttached_new] at h
  cases h

/-- What shrinks a hub keeps its Macs granted. -/
theorem Granted.shrink (h : hub.Granted) (hs : hub.Shrinks hub') : hub'.Granted := by
  refine ⟨hs.placed h.placed, fun session hopen => ?_⟩
  rw [hs.grants session hopen]
  exact h.granted session (hs.attached session hopen)

/-- So does a change of the grants that leaves every attached session one. -/
theorem Granted.regrant (h : hub.Granted) {grants : Std.TreeMap SessionName Grant}
    (hg : ∀ session, hub.isAttached session = true → ∃ grant : Grant,
      grants[session]? = some grant) : ({ hub with grants := grants }).Granted :=
  ⟨h.placed, hg⟩

/-- A socket is installed for a session that has a grant. -/
theorem Granted.install (h : hub.Granted) {name : SessionName} {grant : Grant}
    (hg : hub.grants[name]? = some grant) : (hub.install name).Granted := by
  refine ⟨h.placed.install name, fun session hopen => ?_⟩
  rw [grants_install]
  by_cases hname : name = session
  · exact ⟨grant, hname ▸ hg⟩
  · exact h.granted session (isAttached_of_install h.placed hname hopen)

end ToolsHub

/-! ## Runs of the hub -/

/-- The hub, the clock, and the dials whose secret was accepted and whose socket is still to be
installed. `swept` is set by a sweep and cleared by whatever comes after it. -/
structure Lease where
  hub : ToolsHub
  now : Instant
  dials : List SessionName
  swept : Bool

namespace Lease

def init (maxTtl : Duration) : Lease :=
  { hub := .new maxTtl, now := 0, dials := [], swept := false }

inductive Label where
  | mintWithTtl (session : SessionName) (ttl : Duration) (raw : Option (List UInt8))
  | verify (session : SessionName) (presented : List UInt8)
  | install (i : Nat)
  | revoke (session : SessionName) (code : Nat)
  | forgetSession (session : SessionName)
  | sweep (sessionExists : SessionName → Bool)
  | detached (session : SessionName) (a : Nat)
  | wait (d : Duration)

/-- One operation on the hub, or the passing of time. -/
def next (sha256 : List UInt8 → Digest) (w : Lease) : Label → Option Lease
  | .mintWithTtl session ttl raw =>
    some { w with hub := (w.hub.mintWithTtl sha256 session ttl raw w.now).1, swept := false }
  | .verify session presented =>
    let verified := w.hub.verify sha256 session presented w.now
    some { w with hub := verified.1, swept := false,
                  dials := match verified.2 with
                    | .ok () => w.dials ++ [session]
                    | .error _ => w.dials }
  | .install i => w.dials[i]?.map fun session =>
    { w with hub := w.hub.install session, dials := w.dials.eraseIdx i, swept := false }
  | .revoke session code => some { w with hub := w.hub.revoke session code w.now, swept := false }
  | .forgetSession session => some { w with hub := w.hub.forgetSession session w.now, swept := false }
  | .sweep sessionExists => some { w with hub := w.hub.sweep sessionExists w.now, swept := true }
  | .detached session a => some { w with hub := w.hub.detached session a w.now, swept := false }
  | .wait d => some { w with now := w.now + d, swept := false }

/-- Right after a sweep every attached session has a grant that has not expired. -/
def TimeBounded (w : Lease) : Prop :=
  w.swept = true → ∀ session, w.hub.isAttached session = true →
    ∃ grant : Grant, w.hub.grants[session]? = some grant ∧ w.now < grant.expiresAt

/-- No attached Mac loses its grant to a verify that finds it expired, and no Mac is installed
for a session that has lost its grant meanwhile. -/
def Covers (w : Lease) : Label → Prop
  | .verify session _ =>
    w.hub.grants[session]?.any (·.expiresAt ≤ w.now) = true → w.hub.isAttached session = false
  | .install i => ∀ session ∈ w.dials[i]?, w.hub.grants[session]?.isSome = true
  | _ => True

instance (w : Lease) (l : Label) : Decidable (w.Covers l) := by
  cases l <;> unfold Covers <;> infer_instance

variable {sha256 : List UInt8 → Digest} {w w' : Lease} {l : Label}

/-- The invariant: the attached Macs have grants, and after a sweep grants that last. -/
structure Leased (w : Lease) : Prop where
  granted : w.hub.Granted
  bounded : w.TimeBounded

theorem leased_init (maxTtl : Duration) : (init maxTtl).Leased :=
  ⟨ToolsHub.granted_new maxTtl, fun h => absurd h Bool.false_ne_true⟩

/-- One step that meets the condition keeps the invariant. -/
theorem Leased.next (h : w.Leased) (hc : w.Covers l) (hs : w.next sha256 l = some w') :
    w'.Leased := by
  have hidle : ∀ {w' : Lease}, w'.hub.Granted → w'.swept = false → w'.Leased := by
    intro w' hg hswept
    exact ⟨hg, fun hs => absurd hs (by rw [hswept]; exact Bool.false_ne_true)⟩
  cases l with
  | mintWithTtl session ttl raw =>
    cases hs
    refine hidle ?_ rfl
    dsimp only
    rcases w.hub.mintWithTtl_cases sha256 session ttl raw w.now with heq | ⟨grant, heq⟩
    · rw [heq]
      exact h.granted
    · rw [heq]
      refine h.granted.regrant fun name hopen => ?_
      rw [ToolsHub.getElem?_insert_name]
      split
      · exact ⟨grant, rfl⟩
      · exact h.granted.granted name hopen
  | verify session presented =>
    cases hs
    refine hidle ?_ rfl
    dsimp only
    rcases w.hub.verify_cases sha256 session presented w.now with heq | ⟨hexpired, heq⟩
    · rw [heq]
      exact h.granted
    · rw [heq]
      refine h.granted.regrant fun name hopen => ?_
      have hne : session ≠ name := by
        rintro rfl
        rw [hc hexpired] at hopen
        cases hopen
      rw [ToolsHub.getElem?_erase_name, if_neg hne]
      exact h.granted.granted name hopen
  | install i =>
    obtain ⟨session, hd, heq⟩ := Option.map_eq_some_iff.mp hs
    cases heq
    obtain ⟨grant, hg⟩ := Option.isSome_iff_exists.mp (hc session hd)
    exact hidle (h.granted.install hg) rfl
  | revoke session code =>
    cases hs
    exact hidle (h.granted.shrink (w.hub.revoke_spec session code w.now).1) rfl
  | forgetSession session =>
    cases hs
    exact hidle (h.granted.shrink (w.hub.shrinks_forgetSession session w.now)) rfl
  | detached session a =>
    cases hs
    exact hidle (h.granted.shrink (w.hub.shrinks_detached session a w.now)) rfl
  | wait d =>
    cases hs
    exact hidle h.granted rfl
  | sweep sessionExists =>
    obtain rfl := Option.some.inj hs
    have hsweep := w.hub.sweep_spec sessionExists w.now
    generalize w.hub.sweep sessionExists w.now = swept at hsweep
    obtain ⟨hshrinks, hgone⟩ := hsweep
    refine ⟨h.granted.shrink hshrinks, fun _ session hopen => ?_⟩
    obtain ⟨grant, hg⟩ := h.granted.granted session (hshrinks.attached session hopen)
    refine ⟨grant, (hshrinks.grants session hopen).trans hg, ?_⟩
    by_contra hlate
    have hclosed := hgone session (ToolsHub.mem_expired hg (Nat.not_lt.mp hlate))
    rw [hclosed] at hopen
    cases hopen

/-- A lease ends with its grant in every run that drops no grant under an attached Mac. -/
theorem timeBounded_of_covers (sha256 : List UInt8 → Digest) (maxTtl : Duration) {ls : List Label}
    (hc : Trace.AllSteps (next sha256) Covers (init maxTtl) ls) :
    Trace.AllStates (next sha256) TimeBounded (init maxTtl) ls :=
  (Trace.AllStates.of_invariant (fun _ _ _ h hc hs => h.next hc hs) (leased_init maxTtl) hc).imp
    fun _ h => h.bounded

/-- A Mac attaches with a grant of ten seconds and is swept away after eleven. -/
theorem timeBounded_expiry :
    let ls : List Label := [.mintWithTtl .sh (.fromSecs 10) (some (List.replicate 32 0)),
      .verify .sh (List.replicate 64 48), .install 0, .wait (.fromSecs 11),
      .sweep fun _ => true]
    Trace.AllStates (next id) TimeBounded (init (.fromSecs 60)) ls ∧
      (Trace.run (next id) (init (.fromSecs 60)) ls).map (·.hub.isAttached .sh) = some false :=
  ⟨timeBounded_of_covers id (.fromSecs 60) (by decide), by decide⟩

/-- The same with a wrong secret presented between the expiry and the sweep: the Mac stays
attached without a grant. -/
theorem not_timeBounded_verify :
    ¬ ∀ (sha256 : List UInt8 → Digest) (maxTtl : Duration) (ls : List Label),
      Trace.AllStates (next sha256) TimeBounded (init maxTtl) ls := by
  intro h
  obtain ⟨w, hP, hw⟩ := (h id (.fromSecs 60) [.mintWithTtl .sh (.fromSecs 10) (some (List.replicate 32 0)),
      .verify .sh (List.replicate 64 48), .install 0,
    .wait (.fromSecs 11), .verify .sh [0], .sweep fun _ => true]).observe
    (f := fun w => (w.swept, w.hub.isAttached .sh, w.hub.grants[SessionName.sh]?))
    (show _ = some (true, true, none) from by decide)
  simp only [Prod.mk.injEq] at hw
  obtain ⟨grant, hg, -⟩ := hP hw.1 .sh hw.2.1
  rw [hw.2.2] at hg
  cases hg

end Lease

end OpenabPty
