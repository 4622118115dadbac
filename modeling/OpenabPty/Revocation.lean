import OpenabPty.Core.Trace
import OpenabPty.Manager
import OpenabPty.ToolsHub

/-!
# A revoked tools grant

The secret of a Mac is checked before the upgrade and its socket is installed after it, with no
second look at the grant. `revoke` takes the grant and the attached socket out under two locks,
so a dial that was verified before it may be installed after it.
-/

namespace OpenabPty

/-- Where a `revoke` is. -/
inductive RevokeStep where
  | removeAttached
  | close (attached : Option Nat)
  | returned
  deriving DecidableEq

/-- A call of `revoke` that has taken the grant: `minted` is how many grants of the session had
been minted by then. -/
structure Revoke where
  session : SessionName
  code : Nat
  grant : Option Grant
  minted : Nat
  pc : RevokeStep
  deriving DecidableEq

/-- The hub with its calls in flight. `dials` are the Macs whose secret was accepted and whose
socket is still to be installed, `mints` the sessions a grant was minted for. -/
structure Revocation where
  hub : ToolsHub
  now : Instant
  dials : List SessionName
  mints : List SessionName
  revokes : List Revoke

namespace Revocation

def init (maxTtl : Duration) : Revocation :=
  { hub := .new maxTtl, now := 0, dials := [], mints := [], revokes := [] }

inductive Label where
  | mintWithTtl (session : SessionName) (ttl : Duration) (raw : Option (List UInt8))
  | verify (session : SessionName) (presented : List UInt8)
  | install (i : Nat)
  | revoke (session : SessionName) (code : Nat)
  | continueRevoke (i : Nat)
  | detached (session : SessionName) (a : Nat)
  | wait (d : Duration)

/-- How often a grant was minted for the session. -/
def minted (w : Revocation) (session : SessionName) : Nat := w.mints.count session

/-- The second removal of a `revoke`, or what it does after it. -/
def stepRevoke (w : Revocation) (r : Revoke) : Option (ToolsHub × RevokeStep) :=
  match r.pc with
  | .removeAttached =>
    some (w.hub.removeAttached r.session, .close w.hub.attached[r.session]?)
  | .close attached =>
    some (w.hub.afterRemovals r.session r.grant attached r.code w.now, .returned)
  | .returned => none

/-- The next critical section of one of the calls. -/
def next (sha256 : List UInt8 → Digest) (w : Revocation) : Label → Option Revocation
  | .mintWithTtl session ttl raw =>
    let minted := w.hub.mintWithTtl sha256 session ttl raw w.now
    some { w with hub := minted.1,
                  mints := match minted.2 with
                    | .ok _ => session :: w.mints
                    | .error _ => w.mints }
  | .verify session presented =>
    let verified := w.hub.verify sha256 session presented w.now
    some { w with hub := verified.1,
                  dials := match verified.2 with
                    | .ok () => w.dials ++ [session]
                    | .error _ => w.dials }
  | .install i => w.dials[i]?.map fun session =>
    { w with hub := w.hub.install session, dials := w.dials.eraseIdx i }
  | .revoke session code =>
    some { w with
      hub := w.hub.removeGrant session
      revokes := w.revokes ++ [{ session := session, code := code,
                                 grant := w.hub.grants[session]?, minted := w.minted session,
                                 pc := .removeAttached }] }
  | .continueRevoke i => w.revokes[i]?.bind fun r => (w.stepRevoke r).map fun moved =>
    { w with hub := moved.1, revokes := w.revokes.set i { r with pc := moved.2 } }
  | .detached session a => some { w with hub := w.hub.detached session a w.now }
  | .wait d => some { w with now := w.now + d }

/-- Once a `revoke` has returned, no grant has been minted since it started and every dial has
been installed, nobody is attached. -/
def Final (w : Revocation) : Prop :=
  ∀ r ∈ w.revokes, r.pc = .returned → w.minted r.session = r.minted → r.session ∉ w.dials →
    w.hub.isAttached r.session = false

/-- The `revoke` has taken the attached socket out, and no grant has been minted since it
started. -/
def Stands (w : Revocation) (r : Revoke) : Prop :=
  r.pc ≠ .removeAttached ∧ w.minted r.session = r.minted

instance (w : Revocation) (r : Revoke) : Decidable (w.Stands r) :=
  inferInstanceAs (Decidable (_ ∧ _))

/-- No dial is installed for a session whose revocation stands. -/
def Rechecks (w : Revocation) : Label → Prop
  | .install i => ∀ r ∈ w.revokes, w.Stands r → w.dials[i]? ≠ some r.session
  | _ => True

instance (w : Revocation) (l : Label) : Decidable (w.Rechecks l) := by
  cases l <;> unfold Rechecks <;> infer_instance

/-- The invariant: nobody is attached to a session whose revocation stands. -/
structure Sealed (w : Revocation) : Prop where
  placed : w.hub.Placed
  minted : ∀ r ∈ w.revokes, r.minted ≤ w.minted r.session
  closed : ∀ r ∈ w.revokes, w.Stands r → w.hub.isAttached r.session = false

variable {sha256 : List UInt8 → Digest} {w w' : Revocation} {l : Label}

theorem sealed_init (maxTtl : Duration) : (init maxTtl).Sealed :=
  ⟨ToolsHub.placed_new maxTtl, nofun, nofun⟩

theorem Sealed.final (h : w.Sealed) : w.Final := by
  intro r hr hpc hminted _
  refine h.closed r hr ⟨?_, hminted⟩
  rw [hpc]
  exact nofun

/-- A step that attaches nobody and moves no `revoke`; grants may be minted. -/
theorem Sealed.keep (h : w.Sealed) (hplaced : w'.hub.Placed)
    (hopen : ∀ session, w'.hub.isAttached session = true → w.hub.isAttached session = true)
    (hmints : ∀ session, w.minted session ≤ w'.minted session)
    (hrevokes : w'.revokes = w.revokes) : w'.Sealed := by
  refine ⟨hplaced, fun r hr => ?_, fun r hr hstands => ?_⟩
  · rw [hrevokes] at hr
    exact Nat.le_trans (h.minted r hr) (hmints r.session)
  · rw [hrevokes] at hr
    have hle := h.minted r hr
    have hgrow := hmints r.session
    have hclosed := h.closed r hr ⟨hstands.1, by have := hstands.2; omega⟩
    by_contra hattached
    rw [hopen r.session (Bool.not_eq_false _ ▸ hattached)] at hclosed
    cases hclosed

/-- A step that shrinks the hub and moves no `revoke`. -/
theorem Sealed.shrink (h : w.Sealed) (hs : w.hub.Shrinks w'.hub)
    (hmints : w'.mints = w.mints) (hrevokes : w'.revokes = w.revokes) : w'.Sealed := by
  refine h.keep (hs.placed h.placed) hs.attached (fun session => Nat.le_of_eq ?_) hrevokes
  rw [Revocation.minted, Revocation.minted, hmints]

/-- A `revoke` moves: it takes the attached socket out of the map, then closes it. -/
theorem stepRevoke_cases {r : Revoke} {hub : ToolsHub} {pc : RevokeStep}
    (h : w.stepRevoke r = some (hub, pc)) :
    w.hub.Shrinks hub ∧ pc ≠ .removeAttached ∧
      (r.pc = .removeAttached → hub.isAttached r.session = false) := by
  unfold stepRevoke at h
  split at h
  · cases h
    refine ⟨w.hub.shrinks_removeAttached r.session, nofun, fun _ => ?_⟩
    rw [ToolsHub.isAttached_removeAttached, if_pos rfl]
  · rename_i hpc
    cases h
    refine ⟨w.hub.shrinks_afterRemovals _ _ _ _ _, nofun, fun h => ?_⟩
    rw [hpc] at h
    cases h
  · cases h

theorem Sealed.continueRevoke (h : w.Sealed) {i : Nat} {r : Revoke} (hi : w.revokes[i]? = some r)
    {hub : ToolsHub} {pc : RevokeStep} (hmove : w.stepRevoke r = some (hub, pc)) :
    ({ w with hub := hub, revokes := w.revokes.set i { r with pc := pc } } : Revocation).Sealed := by
  obtain ⟨hshrinks, -, hremoved⟩ := stepRevoke_cases hmove
  have hr : r ∈ w.revokes := List.mem_of_getElem? hi
  have hclosed : ∀ session, w.hub.isAttached session = false → hub.isAttached session = false := by
    intro session hold
    by_contra hopen
    rw [hshrinks.attached session (Bool.not_eq_false _ ▸ hopen)] at hold
    cases hold
  refine ⟨hshrinks.placed h.placed, fun u hu => ?_, fun u hu hstands => ?_⟩
  · rcases List.mem_or_eq_of_mem_set hu with hu | rfl
    · exact h.minted u hu
    · exact h.minted r hr
  · rcases List.mem_or_eq_of_mem_set hu with hu | rfl
    · exact hclosed u.session (h.closed u hu hstands)
    · by_cases hpc : r.pc = .removeAttached
      · exact hremoved hpc
      · exact hclosed r.session (h.closed r hr ⟨hpc, hstands.2⟩)

/-- A dial is installed for a session whose revocation does not stand. -/
theorem Sealed.install (h : w.Sealed) {i : Nat} {session : SessionName}
    (hdial : w.dials[i]? = some session) (hc : w.Rechecks (.install i)) :
    ({ w with hub := w.hub.install session, dials := w.dials.eraseIdx i } : Revocation).Sealed := by
  refine ⟨h.placed.install session, h.minted, fun r hr hstands => ?_⟩
  have hne : session ≠ r.session := by
    rintro rfl
    exact hc r hr hstands hdial
  have hclosed := h.closed r hr hstands
  by_contra hopen
  rw [ToolsHub.isAttached_of_install h.placed hne (Bool.not_eq_false _ ▸ hopen)] at hclosed
  cases hclosed

/-- One step that meets the condition keeps the invariant. -/
theorem Sealed.next (h : w.Sealed) (hc : w.Rechecks l) (hs : w.next sha256 l = some w') :
    w'.Sealed := by
  cases l with
  | mintWithTtl session ttl raw =>
    obtain rfl := Option.some.inj hs
    have hhub := w.hub.mintWithTtl_cases sha256 session ttl raw w.now
    generalize w.hub.mintWithTtl sha256 session ttl raw w.now = m at hhub
    refine h.keep ?_ ?_ (fun name => ?_) rfl
    · rcases hhub with heq | ⟨grant, heq⟩ <;> dsimp only <;> rw [heq] <;> exact h.placed
    · rcases hhub with heq | ⟨grant, heq⟩ <;> dsimp only <;> rw [heq] <;> exact fun _ h => h
    · simp only [Revocation.minted]
      split
      · exact List.count_le_count_cons
      · exact Nat.le_refl _
  | verify session presented =>
    obtain rfl := Option.some.inj hs
    have hhub := w.hub.verify_cases sha256 session presented w.now
    generalize w.hub.verify sha256 session presented w.now = v at hhub
    refine h.keep ?_ ?_ (fun _ => Nat.le_refl _) rfl
    · rcases hhub with heq | ⟨-, heq⟩ <;> dsimp only <;> rw [heq] <;> exact h.placed
    · rcases hhub with heq | ⟨-, heq⟩ <;> dsimp only <;> rw [heq] <;> exact fun _ h => h
  | install i =>
    obtain ⟨session, hdial, heq⟩ := Option.map_eq_some_iff.mp hs
    cases heq
    exact h.install hdial hc
  | revoke session code =>
    obtain rfl := Option.some.inj hs
    refine ⟨h.placed, fun r hr => ?_, fun r hr hstands => ?_⟩
    · rcases List.mem_append.mp hr with hr | hr
      · exact h.minted r hr
      · obtain rfl := List.mem_singleton.mp hr
        exact Nat.le_refl _
    · rcases List.mem_append.mp hr with hr | hr
      · exact h.closed r hr hstands
      · obtain rfl := List.mem_singleton.mp hr
        exact absurd rfl hstands.1
  | continueRevoke i =>
    obtain ⟨r, hi, hs⟩ := Option.bind_eq_some_iff.mp hs
    obtain ⟨⟨hub, pc⟩, hmove, heq⟩ := Option.map_eq_some_iff.mp hs
    cases heq
    exact h.continueRevoke hi hmove
  | detached session a =>
    obtain rfl := Option.some.inj hs
    exact h.shrink (w.hub.shrinks_detached session a w.now) rfl rfl
  | wait d =>
    obtain rfl := Option.some.inj hs
    exact h.shrink (.refl w.hub) rfl rfl

/-- A revocation is final in every run that installs no dial under it. -/
theorem final_of_rechecks (sha256 : List UInt8 → Digest) (maxTtl : Duration) {ls : List Label}
    (hc : Trace.AllSteps (next sha256) Rechecks (init maxTtl) ls) :
    Trace.AllStates (next sha256) Final (init maxTtl) ls :=
  (Trace.AllStates.of_invariant (fun _ _ _ h hc hs => h.next hc hs) (sealed_init maxTtl) hc).imp
    fun _ h => h.final

/-- A Mac that is installed while the `revoke` is between its removals is closed by it. -/
theorem final_attached :
    let ls : List Label := [.mintWithTtl .sh (.fromSecs 10) (some (List.replicate 32 0)),
      .verify .sh (List.replicate 64 48),
      .revoke .sh CloseCode.toolsRevoked, .install 0, .continueRevoke 0, .continueRevoke 0]
    Trace.AllStates (next id) Final (init (.fromSecs 60)) ls ∧
      (Trace.run (next id) (init (.fromSecs 60)) ls).map (·.hub.sockets) =
        some [{ session := .sh, closed := true, closeCode := 4010 }] :=
  ⟨final_of_rechecks id (.fromSecs 60) (by decide), by decide⟩

/-- A Mac that is installed after both removals stays attached. -/
theorem not_final_dialling :
    ¬ ∀ (sha256 : List UInt8 → Digest) (maxTtl : Duration) (ls : List Label),
      Trace.AllStates (next sha256) Final (init maxTtl) ls := by
  intro h
  obtain ⟨w, hP, hw⟩ := (h id (.fromSecs 60) [.mintWithTtl .sh (.fromSecs 10) (some (List.replicate 32 0)),
      .verify .sh (List.replicate 64 48),
    .revoke .sh CloseCode.toolsRevoked, .continueRevoke 0, .continueRevoke 0, .install 0]).observe
    (f := fun w => (w.revokes.map fun r => (r.session, r.pc, r.minted), w.mints, w.dials,
      w.hub.isAttached .sh))
    (show _ = some ([(.sh, .returned, 1)], [.sh], [], true) from by decide)
  simp only [Prod.mk.injEq] at hw
  obtain ⟨hrevokes, hmints, hdials, hattached⟩ := hw
  obtain ⟨r, hr, hfields⟩ := List.mem_map.mp (show (SessionName.sh, RevokeStep.returned, 1) ∈
    w.revokes.map fun r => (r.session, r.pc, r.minted) from by rw [hrevokes]; exact List.mem_singleton_self _)
  simp only [Prod.mk.injEq] at hfields
  obtain ⟨hsession, hpc, hminted⟩ := hfields
  have hclosed := hP r hr hpc (by rw [hsession, hminted, minted, hmints]; decide)
    (by rw [hdials]; exact List.not_mem_nil)
  rw [hsession, hattached] at hclosed
  cases hclosed

end Revocation

end OpenabPty
