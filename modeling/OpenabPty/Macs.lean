import OpenabPty.Core.Trace
import OpenabPty.LoopbackKeys

/-!
# One Mac for each session

`serve_attached` puts its socket into the map and closes the incumbent after that; `revoke`,
`forget_session` and `close_all` take sockets out of the map and close them after that. `sweep`
takes out a name, not a socket: the one it saw closed may have been replaced meanwhile.
-/

namespace OpenabPty

/-- One critical section of a call on the hub, or a `close` between two of them. -/
inductive MacStep where
  | hub (s : HubStep)
  | install (session : SessionName)
  | close (a : Nat) (code : Nat)
  | serve (session : SessionName) (a : Nat)
  | livenessTimeout (a : Nat)
  | exit (session : SessionName) (a : Nat)
  | unmap (session : SessionName) (a : Nat)
  | recordDetach (session : SessionName) (code : Nat)
  | drain (code : Nat)
  deriving DecidableEq

/-- What the environment decides: which sessions exist, and how the loop of `serve_attached`
ends. -/
structure MacInput where
  sessionExists : SessionName → Bool
  timedOut : Bool

namespace MacStep

/-- One section: the hub after it, and the sections that come before what is left of the call. -/
def step (hub : ToolsHub) (now : Instant) (c : MacInput) : MacStep → ToolsHub × List MacStep
  | .hub s =>
    let moved := s.step hub c.sessionExists now
    (moved.1, moved.2.map .hub)
  | .install session =>
    (hub.insertAttached session,
      (hub.attached[session]?.map (MacStep.close · CloseCode.takeover)).toList ++
        [.serve session hub.sockets.length])
  | .close a code => (hub.closeSocket a code, [])
  | .serve session a =>
    (hub, if c.timedOut then [.livenessTimeout a, .exit session a] else [.exit session a])
  | .livenessTimeout a => (hub.closeSocket a CloseCode.livenessTimeout, [])
  | .exit session a => (hub.closeSocket a 1000, [.unmap session a])
  | .unmap session a =>
    if hub.attached[session]? = some a then
      (hub.removeAttached session,
        [.recordDetach session ((hub.sockets[a]?.map (·.closeCode)).getD 1000)])
    else (hub, [])
  | .recordDetach session code => (hub.recordDetach session code now, [])
  | .drain code =>
    ({ hub with attached := ∅ }, hub.attached.toList.map fun e => .close e.2 code)

/-- The socket that a call has taken out of the map and is about to close. -/
def displaced : MacStep → Option Nat
  | .hub (.afterRemovals _ _ _ attached) => attached
  | .close a _ => some a
  | _ => none

/-- The socket that `serve_attached` takes out of the map if it is still there. -/
def unmaps : MacStep → Option Nat
  | .unmap _ a => some a
  | _ => none

end MacStep

/-- A call on the hub. -/
inductive MacCall where
  | serveAttached (session : SessionName)
  | revoke (session : SessionName) (code : Nat)
  | forgetSession (session : SessionName)
  | sweep
  | closeAll (code : Nat)

/-- The critical sections of a call. -/
def MacCall.steps : MacCall → List MacStep
  | .serveAttached session => [.install session]
  | .revoke session code => [.hub (.removeGrant session code)]
  | .forgetSession session => (HubStep.forgetSession session).map .hub
  | .sweep => HubStep.sweep.map .hub
  | .closeAll code => [.drain code]

/-- The hub with its calls in flight. -/
structure Macs where
  hub : ToolsHub
  now : Instant
  tasks : List (List MacStep)

namespace Macs

def init (maxTtl : Duration) : Macs := { hub := .new maxTtl, now := 0, tasks := [] }

inductive Label where
  | call (call : MacCall)
  | mint (session : SessionName) (grant : Grant)
  | dropGrant (session : SessionName)
  | issueLoopbackKey (session : SessionName) (raw : Option (List UInt8))
  | step (i : Nat) (c : MacInput)
  | wait (d : Duration)

/-- The next critical section of one of the calls. A grant also goes when `verify` finds it
expired. -/
def next (w : Macs) : Label → Option Macs
  | .call call => some { w with tasks := w.tasks ++ [call.steps] }
  | .mint session grant =>
    some { w with hub := { w.hub with grants := w.hub.grants.insert session grant } }
  | .dropGrant session => some { w with hub := w.hub.removeGrant session }
  | .issueLoopbackKey session raw =>
    some { w with hub := (w.hub.issueLoopbackKey session raw).1 }
  | .step i c =>
    match w.tasks[i]? with
    | some (s :: rest) =>
      let moved := s.step w.hub w.now c
      some { w with hub := moved.1, tasks := w.tasks.set i (moved.2 ++ rest) }
    | _ => none
  | .wait d => some { w with now := w.now + d }

/-- A call holds this socket and is about to close it. -/
def Displaced (w : Macs) (a : Nat) : Prop := ∃ task ∈ w.tasks, ∃ s ∈ task, s.displaced = some a

/-- Every socket that is not closed is the one of its session in the map, unless a call that
took it out is about to close it. -/
def OneMac (w : Macs) : Prop :=
  ∀ (a : Nat) (socket : Attached), w.hub.sockets[a]? = some socket → socket.closed = false →
    w.hub.attached[socket.session]? = some a ∨ w.Displaced a

/-- When the sweep drops a name it found closed, the socket under it is closed. -/
def Spares (w : Macs) : Label → Prop
  | .step i _ => ∀ name, w.tasks[i]?.bind List.head? = some (.hub (.removeStale name)) →
    ∀ a, w.hub.attached[name]? = some a → w.hub.openSocket a = false
  | _ => True

/-- Where no call is about to close anything, the open sockets of a session are one, and it is
the one that `attached_for`, `revoke` and `sweep` find. -/
def Reached (w : Macs) : Prop :=
  (∀ a, ¬ w.Displaced a) → ∀ (a : Nat) (socket : Attached), w.hub.sockets[a]? = some socket → socket.closed = false →
    w.hub.attached[socket.session]? = some a ∧ w.hub.isAttached socket.session = true ∧
      ∀ (b : Nat) (other : Attached), w.hub.sockets[b]? = some other → other.closed = false →
        other.session = socket.session → b = a

theorem OneMac.reached {w : Macs} (h : w.OneMac) : w.Reached := by
  intro hidle a socket ha hopen
  have hmapped := (h a socket ha hopen).resolve_right (hidle a)
  refine ⟨hmapped, ?_, ?_⟩
  · simp [ToolsHub.isAttached, ToolsHub.openSocket, hmapped, ha, hopen]
  · intro b other hb hother hsame
    have hmapped' := (h b other hb hother).resolve_right (hidle b)
    rw [hsame, hmapped] at hmapped'
    exact (Option.some.inj hmapped').symm

end Macs

/-! ## What a section does to the map and the sockets -/

/-- The section leaves the map and the sockets alone, or does one thing to them. -/
inductive MacStep.Goes (hub hub' : ToolsHub) : MacStep → List MacStep → Prop where
  | quiet {s new} : hub'.sockets = hub.sockets → hub'.attached = hub.attached →
      (∀ t ∈ new, t.displaced = none ∧ t.unmaps = none) → Goes hub hub' s new
  | displace {s new} (session : SessionName) : hub'.sockets = hub.sockets →
      hub'.attached = hub.attached.erase session →
      (∀ a, hub.attached[session]? = some a ↔ ∃ t ∈ new, t.displaced = some a) →
      (∀ t ∈ new, t.unmaps = none) → Goes hub hub' s new
  | drain {s new} : hub'.sockets = hub.sockets → hub'.attached = ∅ →
      (∀ a, (∃ session : SessionName, hub.attached[session]? = some a) ↔ ∃ t ∈ new, t.displaced = some a) →
      (∀ t ∈ new, t.unmaps = none) → Goes hub hub' s new
  | close {s new} (a code : Nat) : hub'.sockets = (hub.closeSocket a code).sockets →
      hub'.attached = hub.attached → (∀ b, s.displaced = some b → b = a) →
      (∀ t ∈ new, t.displaced = none ∧ ∀ b, t.unmaps = some b → b = a) → Goes hub hub' s new
  | install {new} (session : SessionName) :
      hub'.sockets = (hub.insertAttached session).sockets →
      hub'.attached = (hub.insertAttached session).attached →
      (∀ a, hub.attached[session]? = some a ↔ ∃ t ∈ new, t.displaced = some a) →
      (∀ t ∈ new, t.unmaps = none) → Goes hub hub' (.install session) new
  | unmap {new} (session : SessionName) (a : Nat) : hub.attached[session]? = some a →
      hub'.sockets = hub.sockets → hub'.attached = hub.attached.erase session →
      (∀ t ∈ new, t.displaced = none ∧ t.unmaps = none) → Goes hub hub' (.unmap session a) new
  | removeStale (name : SessionName) : hub'.sockets = hub.sockets →
      hub'.attached = hub.attached.erase name → Goes hub hub' (.hub (.removeStale name)) []

/-- What a section of the hub leaves to do. -/
theorem HubStep.quiet_new {hub : ToolsHub} {sessionExists : SessionName → Bool} {now : Instant}
    {s : HubStep} (h : ∀ name code grant, s ≠ .removeAttached name code grant) :
    ∀ t ∈ (s.step hub sessionExists now).2.map MacStep.hub,
      t.displaced = none ∧ t.unmaps = none := by
  intro t ht
  obtain ⟨u, hu, rfl⟩ := List.mem_map.mp ht
  have hplain : ∀ name code grant attached, u ≠ .afterRemovals name code grant attached := by
    rintro name code grant attached rfl
    cases s with
    | removeAttached name code grant => exact h name code grant rfl
    | expired | knownDetaches | stale => simp [HubStep.step] at hu
    | removeGrant | afterRemovals | knownGrants | knownAttached | knownKeys | removeKey
    | removeLastDetach | removeStale => simp [HubStep.step] at hu
    | sessionExists name =>
      simp only [HubStep.step] at hu
      split at hu <;> simp [HubStep.forgetSession] at hu
  refine ⟨?_, rfl⟩
  cases u with
  | afterRemovals name code grant attached => exact absurd rfl (hplain name code grant attached)
  | _ => rfl

/-- Every section is one of these. -/
theorem MacStep.goes (hub : ToolsHub) (now : Instant) (c : MacInput) (s : MacStep) :
    s.Goes hub (s.step hub now c).1 (s.step hub now c).2 := by
  cases s with
  | hub s =>
    cases s with
    | removeAttached name code grant =>
      refine .displace name rfl rfl ?_ ?_
      · intro a
        simp [step, HubStep.step, displaced]
      · simp [step, HubStep.step, unmaps]
    | afterRemovals name code grant attached =>
      have hrecord : ∀ h : ToolsHub, (h.recordDetach name code now).sockets = h.sockets ∧
          (h.recordDetach name code now).attached = h.attached := fun h => ⟨rfl, rfl⟩
      cases attached with
      | none =>
        refine .quiet ?_ ?_ (by simp [step, HubStep.step])
        all_goals
          simp only [step, HubStep.step, ToolsHub.afterRemovals]
          split <;> rfl
      | some a =>
        refine .close a code ?_ ?_ ?_ (by simp [step, HubStep.step])
        · simp only [step, HubStep.step, ToolsHub.afterRemovals]
          split <;> rfl
        · simp only [step, HubStep.step, ToolsHub.afterRemovals]
          split <;> rfl
        · intro b hb
          exact (Option.some.inj hb).symm
    | removeStale name => exact .removeStale name rfl rfl
    | expired | removeGrant | knownGrants | knownAttached | knownKeys | knownDetaches
    | sessionExists | removeKey | removeLastDetach | stale =>
      refine .quiet rfl rfl (HubStep.quiet_new ?_)
      intro name code grant heq
      cases heq
  | install session =>
    refine .install session rfl rfl ?_ ?_
    · intro a
      simp only [step, List.mem_append, List.mem_singleton, Option.mem_toList, or_and_right,
        exists_or, exists_eq_left]
      simp [displaced]
    · intro t ht
      simp only [step, List.mem_append, List.mem_singleton, Option.mem_toList,
        Option.map_eq_some_iff] at ht
      rcases ht with ⟨a, -, rfl⟩ | rfl <;> rfl
  | close a code =>
    refine .close a code rfl rfl ?_ (by simp [step])
    intro b hb
    exact (Option.some.inj hb).symm
  | serve session a =>
    refine .quiet rfl rfl ?_
    intro t ht
    simp only [step] at ht
    split at ht
    · simp only [List.mem_cons, List.not_mem_nil, or_false] at ht
      rcases ht with rfl | rfl <;> exact ⟨rfl, rfl⟩
    · obtain rfl := List.mem_singleton.mp ht
      exact ⟨rfl, rfl⟩
  | livenessTimeout a =>
    exact .close a CloseCode.livenessTimeout rfl rfl (by simp [displaced]) (by simp [step])
  | exit session a =>
    refine .close a 1000 rfl rfl (by simp [displaced]) ?_
    intro t ht
    obtain rfl := List.mem_singleton.mp ht
    refine ⟨rfl, ?_⟩
    intro b hb
    exact (Option.some.inj hb).symm
  | unmap session a =>
    simp only [step]
    split
    · rename_i hmapped
      exact .unmap session a hmapped rfl rfl (by simp [displaced, unmaps])
    · exact .quiet rfl rfl (by simp)
  | recordDetach session code => exact .quiet rfl rfl (by simp [step])
  | drain code =>
    refine .drain rfl rfl ?_ ?_
    · intro a
      constructor
      · rintro ⟨session, hmapped⟩
        refine ⟨.close a code, List.mem_map.mpr ⟨(session, a), ?_, rfl⟩, rfl⟩
        exact Std.TreeMap.mem_toList_iff_getElem?_eq_some.mpr hmapped
      · rintro ⟨t, ht, hdisplaced⟩
        obtain ⟨⟨session, b⟩, hmem, rfl⟩ := List.mem_map.mp ht
        obtain rfl := Option.some.inj hdisplaced
        exact ⟨session, Std.TreeMap.mem_toList_iff_getElem?_eq_some.mp hmem⟩
    · intro t ht
      obtain ⟨e, -, rfl⟩ := List.mem_map.mp ht
      rfl

/-- The socket that a section is about. -/
def MacStep.names : MacStep → Option Nat
  | .hub (.afterRemovals _ _ _ attached) => attached
  | .close a _ | .serve _ a | .livenessTimeout a | .exit _ a | .unmap _ a => some a
  | _ => none

/-- What a section leaves to do is about its own socket, about one of the map, or about the one
it installs. -/
theorem MacStep.names_new {hub : ToolsHub} {now : Instant} {c : MacInput} {s t : MacStep} {a : Nat}
    (ht : t ∈ (s.step hub now c).2) (hnames : t.names = some a) :
    s.names = some a ∨ (∃ session : SessionName, hub.attached[session]? = some a) ∨
      (a = hub.sockets.length ∧ ∃ session, s = .install session) := by
  cases s with
  | hub s =>
    by_cases hremove : ∃ name code grant, s = .removeAttached name code grant
    · obtain ⟨name, code, grant, rfl⟩ := hremove
      obtain rfl := List.mem_singleton.mp ht
      exact .inr (.inl ⟨name, hnames⟩)
    · have hplain : ∀ name code grant, s ≠ .removeAttached name code grant :=
        fun name code grant heq => hremove ⟨name, code, grant, heq⟩
      have hquiet := HubStep.quiet_new hplain t ht
      obtain ⟨u, -, rfl⟩ := List.mem_map.mp ht
      cases u with
      | afterRemovals => exact absurd (hquiet.1.symm.trans hnames) (by simp)
      | _ => cases hnames
  | install session =>
    simp only [step, List.mem_append, List.mem_singleton, Option.mem_toList,
      Option.map_eq_some_iff] at ht
    rcases ht with ⟨b, hb, rfl⟩ | rfl
    · obtain rfl := Option.some.inj hnames
      exact .inr (.inl ⟨session, hb⟩)
    · obtain rfl := Option.some.inj hnames
      exact .inr (.inr ⟨rfl, session, rfl⟩)
  | close | livenessTimeout | recordDetach => simp [step] at ht
  | serve session b =>
    simp only [step] at ht
    split at ht
    · simp only [List.mem_cons, List.not_mem_nil, or_false] at ht
      rcases ht with rfl | rfl <;> exact .inl hnames
    · obtain rfl := List.mem_singleton.mp ht
      exact .inl hnames
  | exit session b =>
    obtain rfl := List.mem_singleton.mp ht
    exact .inl hnames
  | unmap session b =>
    simp only [step] at ht
    split at ht
    · obtain rfl := List.mem_singleton.mp ht
      cases hnames
    · cases ht
  | drain code =>
    obtain ⟨⟨session, b⟩, hmem, rfl⟩ := List.mem_map.mp ht
    obtain rfl := Option.some.inj hnames
    exact .inr (.inl ⟨session, Std.TreeMap.mem_toList_iff_getElem?_eq_some.mp hmem⟩)

namespace ToolsHub

variable {hub hub' : ToolsHub} {s : MacStep} {new : List MacStep} {a : Nat}

/-- The sockets of the map are there, each under its own session. -/
def Filed (hub : ToolsHub) : Prop :=
  ∀ (session : SessionName) (a : Nat), hub.attached[session]? = some a →
    (hub.sockets[a]?.map (·.session)) = some session

/-- Closing a socket changes neither how many there are nor whose they are. -/
theorem closeSocket_session (b code : Nat) :
    ((hub.closeSocket b code).sockets[a]?.map (·.session)) =
      hub.sockets[a]?.map (·.session) := by
  simp only [closeSocket, List.getElem?_modify, Option.map_eq_map, Option.map_map]
  congr 1
  funext socket
  simp only [Function.comp]
  split
  · rw [Attached.close]
    split <;> rfl
  · rfl

theorem lt_of_session {session : SessionName}
    (h : hub.sockets[a]?.map (·.session) = some session) : a < hub.sockets.length := by
  obtain ⟨socket, hsocket, -⟩ := Option.map_eq_some_iff.mp h
  exact (List.getElem?_eq_some_iff.mp hsocket).1

/-- Sockets are only added, and stay where they are with their session. -/
theorem session_of_goes (h : s.Goes hub hub' new) (ha : a < hub.sockets.length) :
    hub'.sockets[a]?.map (·.session) = hub.sockets[a]?.map (·.session) := by
  cases h with
  | quiet hsockets | displace _ hsockets | drain hsockets | removeStale _ hsockets =>
    rw [hsockets]
  | unmap _ _ _ hsockets => rw [hsockets]
  | close b code hsockets => rw [hsockets, closeSocket_session]
  | install session hsockets =>
    rw [hsockets]
    simp only [insertAttached]
    rw [List.getElem?_append_left ha]

/-- A socket that is closed stays closed. -/
theorem closed_of_goes (h : s.Goes hub hub' new) (ha : a < hub.sockets.length)
    (hclosed : hub.openSocket a = false) : hub'.openSocket a = false := by
  cases h with
  | quiet hsockets | displace _ hsockets | drain hsockets | removeStale _ hsockets =>
    rwa [openSocket, hsockets]
  | unmap _ _ _ hsockets => rwa [openSocket, hsockets]
  | close b code hsockets =>
    rw [openSocket, hsockets]
    by_contra hopen
    have hopen := (openSocket_closeSocket (Bool.not_eq_false _ ▸ hopen)).2
    rw [hclosed] at hopen
    cases hopen
  | install session hsockets =>
    rw [openSocket, hsockets]
    simp only [insertAttached]
    rwa [List.getElem?_append_left ha]

/-- The map loses entries, or gains the socket that is installed. -/
theorem attached_of_goes (h : s.Goes hub hub' new) {session : SessionName}
    (hmapped : hub'.attached[session]? = some a) :
    hub.attached[session]? = some a ∨
      (a = hub.sockets.length ∧ s = .install session ∧
        hub'.sockets[a]?.map (·.session) = some session) := by
  cases h with
  | quiet _ hattached | close _ _ _ hattached =>
    rw [hattached] at hmapped
    exact .inl hmapped
  | displace name _ hattached | removeStale name _ hattached =>
    rw [hattached, getElem?_erase_name] at hmapped
    split at hmapped
    · cases hmapped
    · exact .inl hmapped
  | unmap name _ _ _ hattached =>
    rw [hattached, getElem?_erase_name] at hmapped
    split at hmapped
    · cases hmapped
    · exact .inl hmapped
  | drain _ hattached =>
    rw [hattached] at hmapped
    simp at hmapped
  | install name hsockets hattached =>
    rw [hattached] at hmapped
    simp only [insertAttached, getElem?_insert_name] at hmapped
    split at hmapped
    · rename_i hname
      subst hname
      obtain rfl := Option.some.inj hmapped
      right
      refine ⟨rfl, rfl, ?_⟩
      rw [hsockets]
      simp [insertAttached]
    · exact .inl hmapped

theorem Filed.goes (h : hub.Filed) (hgoes : s.Goes hub hub' new) : hub'.Filed := by
  intro session a hmapped
  rcases attached_of_goes hgoes hmapped with hbefore | ⟨-, -, hsession⟩
  · have hsession := h session a hbefore
    rw [session_of_goes hgoes (lt_of_session hsession)]
    exact hsession
  · exact hsession

/-- What a section displaces was in the map. -/
theorem mapped_of_displaced (h : s.Goes hub hub' new) {t : MacStep} (ht : t ∈ new)
    (hdisplaced : t.displaced = some a) :
    ∃ session : SessionName, hub.attached[session]? = some a := by
  cases h with
  | quiet _ _ hplain | unmap _ _ _ _ _ hplain =>
    rw [(hplain t ht).1] at hdisplaced
    cases hdisplaced
  | close _ _ _ _ _ hplain =>
    rw [(hplain t ht).1] at hdisplaced
    cases hdisplaced
  | displace name _ _ hiff => exact ⟨name, (hiff a).mpr ⟨t, ht, hdisplaced⟩⟩
  | drain _ _ hiff => exact (hiff a).mpr ⟨t, ht, hdisplaced⟩
  | install name _ _ hiff => exact ⟨name, (hiff a).mpr ⟨t, ht, hdisplaced⟩⟩
  | removeStale => cases ht

/-- In a filed map it was under one name, and is gone. -/
theorem Filed.unmapped_of_displaced (hfiled : hub.Filed) (h : s.Goes hub hub' new) {t : MacStep}
    (ht : t ∈ new) (hdisplaced : t.displaced = some a) (session : SessionName) :
    hub'.attached[session]? ≠ some a := by
  intro hmapped
  have hone : ∀ name : SessionName, hub.attached[name]? = some a →
      hub.attached[session]? = some a → name = session := fun name hname hbefore =>
    Option.some.inj ((hfiled name a hname).symm.trans (hfiled session a hbefore))
  obtain ⟨name, hname⟩ := mapped_of_displaced h ht hdisplaced
  have hlt := lt_of_session (hfiled name a hname)
  rcases attached_of_goes h hmapped with hbefore | ⟨rfl, -⟩
  · cases h with
    | quiet _ _ hplain | unmap _ _ _ _ _ hplain =>
      rw [(hplain t ht).1] at hdisplaced
      cases hdisplaced
    | close _ _ _ _ _ hplain =>
      rw [(hplain t ht).1] at hdisplaced
      cases hdisplaced
    | displace name _ hattached hiff =>
      obtain rfl := hone name ((hiff a).mpr ⟨t, ht, hdisplaced⟩) hbefore
      rw [hattached, getElem?_erase_name, if_pos rfl] at hmapped
      cases hmapped
    | drain _ hattached =>
      rw [hattached] at hmapped
      simp at hmapped
    | install name _ hattached hiff =>
      obtain rfl := hone name ((hiff a).mpr ⟨t, ht, hdisplaced⟩) hbefore
      rw [hattached] at hmapped
      simp only [insertAttached, getElem?_insert_name, if_true] at hmapped
      obtain rfl := Option.some.inj hmapped
      exact absurd hlt (Nat.lt_irrefl _)
    | removeStale => cases ht
  · exact absurd hlt (Nat.lt_irrefl _)

/-- A section closes what it leaves to take out by identity. -/
theorem closed_of_unmaps (h : s.Goes hub hub' new) {t : MacStep} (ht : t ∈ new)
    (hunmaps : t.unmaps = some a) : hub'.openSocket a = false := by
  cases h with
  | quiet _ _ hplain | unmap _ _ _ _ _ hplain =>
    rw [(hplain t ht).2] at hunmaps
    cases hunmaps
  | displace _ _ _ _ hplain | drain _ _ _ hplain | install _ _ _ _ hplain =>
    rw [hplain t ht] at hunmaps
    cases hunmaps
  | close b code hsockets _ _ hplain =>
    obtain rfl := (hplain t ht).2 a hunmaps
    rw [openSocket, hsockets]
    by_contra hopen
    exact (openSocket_closeSocket (Bool.not_eq_false _ ▸ hopen)).1 rfl
  | removeStale => cases ht

/-- What is in the map stays there, is displaced, or is taken out by identity or by a sweep. -/
theorem goes_of_mapped (h : s.Goes hub hub' new) {session : SessionName}
    (hmapped : hub.attached[session]? = some a) :
    hub'.attached[session]? = some a ∨ (∃ t ∈ new, t.displaced = some a) ∨
      s = .unmap session a ∨ s = .hub (.removeStale session) := by
  cases h with
  | quiet _ hattached _ | close _ _ _ hattached =>
    left
    rw [hattached]
    exact hmapped
  | displace name _ hattached hiff =>
    by_cases heq : name = session
    · subst heq
      exact .inr (.inl ((hiff a).mp hmapped))
    · left
      rw [hattached, getElem?_erase_name, if_neg heq]
      exact hmapped
  | drain _ _ hiff => exact .inr (.inl ((hiff a).mp ⟨_, hmapped⟩))
  | install name _ hattached hiff =>
    by_cases heq : name = session
    · subst heq
      exact .inr (.inl ((hiff a).mp hmapped))
    · left
      rw [hattached]
      simp only [insertAttached, getElem?_insert_name, if_neg heq]
      exact hmapped
  | unmap name b hb _ hattached =>
    by_cases heq : name = session
    · subst heq
      obtain rfl := Option.some.inj (hb.symm.trans hmapped)
      exact .inr (.inr (.inl rfl))
    · left
      rw [hattached, getElem?_erase_name, if_neg heq]
      exact hmapped
  | removeStale name _ hattached =>
    by_cases heq : name = session
    · subst heq
      exact .inr (.inr (.inr rfl))
    · left
      rw [hattached, getElem?_erase_name, if_neg heq]
      exact hmapped

/-- A socket that was not there has just been installed, and is in the map. -/
theorem installed_of_goes (h : s.Goes hub hub' new) {session : SessionName}
    (hsession : hub'.sockets[a]?.map (·.session) = some session)
    (hnew : ¬ a < hub.sockets.length) : hub'.attached[session]? = some a := by
  have ha := lt_of_session hsession
  cases h with
  | quiet hsockets | displace _ hsockets | drain hsockets | removeStale _ hsockets =>
    rw [hsockets] at ha
    exact absurd ha hnew
  | unmap _ _ _ hsockets =>
    rw [hsockets] at ha
    exact absurd ha hnew
  | close b code hsockets =>
    rw [hsockets] at ha
    simp only [closeSocket, List.length_modify] at ha
    exact absurd ha hnew
  | install name hsockets hattached =>
    rw [hsockets] at ha hsession
    simp only [insertAttached, List.length_append, List.length_singleton] at ha
    obtain rfl : a = hub.sockets.length := by omega
    simp only [insertAttached, List.getElem?_concat_length, Option.map_some] at hsession
    rw [hattached]
    simp only [insertAttached, getElem?_insert_name]
    rw [if_pos (Option.some.inj hsession)]

end ToolsHub

/-! ## Runs -/

namespace Macs

/-- A section that some call still has to run. -/
def Pending (w : Macs) (s : MacStep) : Prop := ∃ task ∈ w.tasks, s ∈ task

/-- What every run keeps: the map is filed, what the calls name exists, what they hold is not in
the map, and what they take out by identity is closed. -/
structure Sound (w : Macs) : Prop where
  filed : w.hub.Filed
  named : ∀ s a, w.Pending s → s.names = some a → a < w.hub.sockets.length
  displaced : ∀ s a, w.Pending s → s.displaced = some a →
    ∀ session : SessionName, w.hub.attached[session]? ≠ some a
  unmaps : ∀ s a, w.Pending s → s.unmaps = some a → w.hub.openSocket a = false

variable {w w' : Macs} {l : Label} {s : MacStep} {rest new : List MacStep} {i a : Nat}

theorem names_of_displaced (h : s.displaced = some a) : s.names = some a := by
  cases s with
  | hub s => cases s <;> exact h
  | close => exact h
  | _ => cases h

theorem names_of_unmaps (h : s.unmaps = some a) : s.names = some a := by
  cases s <;> first | exact h | cases h

/-- The sections after a step: those before it but the one that ran, and the new ones. -/
theorem pending_set (h : w.tasks[i]? = some (s :: rest)) {hub : ToolsHub} {t : MacStep} :
    (t ∈ new ∨ ∃ task ∈ w.tasks, t ∈ task ∧ (task = s :: rest → t ∈ rest)) →
      Pending { w with hub := hub, tasks := w.tasks.set i (new ++ rest) } t := by
  obtain ⟨hlt, -⟩ := List.getElem?_eq_some_iff.mp h
  have hself : new ++ rest ∈ w.tasks.set i (new ++ rest) := List.mem_set hlt (new ++ rest)
  rintro (hnew | ⟨task, htask, ht, hrest⟩)
  · exact ⟨_, hself, List.mem_append_left _ hnew⟩
  · by_cases heq : task = s :: rest
    · exact ⟨_, hself, List.mem_append_right _ (hrest heq)⟩
    · have hmem : task ∈ w.tasks.set i (new ++ rest) ++ [] := Threads.mem_step_of_ne h htask heq
      rw [List.append_nil] at hmem
      exact ⟨task, hmem, ht⟩

theorem pending_of_set (h : w.tasks[i]? = some (s :: rest)) {hub : ToolsHub} {t : MacStep}
    (ht : Pending { w with hub := hub, tasks := w.tasks.set i (new ++ rest) } t) :
    t ∈ new ∨ w.Pending t := by
  obtain ⟨task, htask, ht⟩ := ht
  rcases List.mem_or_eq_of_mem_set htask with htask | rfl
  · exact .inr ⟨task, htask, ht⟩
  · rcases List.mem_append.mp ht with hnew | hrest
    · exact .inl hnew
    · exact .inr ⟨_, List.mem_of_getElem? h, List.mem_cons_of_mem s hrest⟩

/-- What a call starts with is about no socket. -/
theorem names_steps {call : MacCall} (h : s ∈ call.steps) : s.names = none := by
  cases call with
  | serveAttached | revoke | closeAll =>
    obtain rfl := List.mem_singleton.mp h
    rfl
  | forgetSession | sweep =>
    simp only [MacCall.steps, HubStep.forgetSession, HubStep.sweep, List.map_cons, List.map_nil,
      List.mem_cons, List.not_mem_nil, or_false] at h
    rcases h with rfl | rfl | rfl <;> rfl

theorem sound_init (maxTtl : Duration) : (init maxTtl).Sound := by
  refine ⟨?_, ?_, ?_, ?_⟩
  · intro session a h
    simp [init, ToolsHub.new] at h
  all_goals
    rintro s a ⟨task, htask, -⟩
    cases htask

/-- A change that leaves the map and the sockets alone, and adds sections about no socket. -/
theorem Sound.quiet (h : w.Sound) (hsockets : w'.hub.sockets = w.hub.sockets)
    (hattached : w'.hub.attached = w.hub.attached)
    (hpending : ∀ s, w'.Pending s → w.Pending s ∨ s.names = none) : w'.Sound := by
  have hold : ∀ s a, w'.Pending s → s.names = some a → w.Pending s := by
    intro s a hs hnames
    rcases hpending s hs with hs | hnone
    · exact hs
    · rw [hnone] at hnames
      cases hnames
  refine ⟨?_, ?_, ?_, ?_⟩
  · intro session a hmapped
    rw [hattached] at hmapped
    rw [hsockets]
    exact h.filed session a hmapped
  · intro s a hs hnames
    rw [hsockets]
    exact h.named s a (hold s a hs hnames) hnames
  · intro s a hs hdisplaced
    rw [hattached]
    exact h.displaced s a (hold s a hs (names_of_displaced hdisplaced)) hdisplaced
  · intro s a hs hunmaps
    rw [ToolsHub.openSocket, hsockets]
    exact h.unmaps s a (hold s a hs (names_of_unmaps hunmaps)) hunmaps

/-- A section keeps the invariant. -/
theorem Sound.section (h : w.Sound) {c : MacInput} (htask : w.tasks[i]? = some (s :: rest)) :
    Sound { w with hub := (s.step w.hub w.now c).1,
                   tasks := w.tasks.set i ((s.step w.hub w.now c).2 ++ rest) } := by
  have hgoes := s.goes w.hub w.now c
  have hs : w.Pending s := ⟨_, List.mem_of_getElem? htask, List.mem_cons_self⟩
  -- What the new sections name is there.
  have hnames : ∀ t a, t ∈ (s.step w.hub w.now c).2 → t.names = some a →
      a < (s.step w.hub w.now c).1.sockets.length := by
    intro t a ht hnames
    rcases MacStep.names_new ht hnames with hown | ⟨session, hmapped⟩ | ⟨rfl, session, rfl⟩
    · have hlt := h.named s a hs hown
      have hsession := ToolsHub.session_of_goes hgoes hlt
      rw [List.getElem?_eq_getElem hlt, Option.map_some] at hsession
      exact ToolsHub.lt_of_session hsession
    · have hfiled := h.filed session a hmapped
      have hsession := ToolsHub.session_of_goes hgoes (ToolsHub.lt_of_session hfiled)
      exact ToolsHub.lt_of_session (hsession.trans hfiled)
    · simp [MacStep.step, ToolsHub.insertAttached]
  refine ⟨h.filed.goes hgoes, ?_, ?_, ?_⟩
  · intro t a ht htnames
    rcases pending_of_set htask ht with hnew | hold
    · exact hnames t a hnew htnames
    · have hlt := h.named t a hold htnames
      have hsession := ToolsHub.session_of_goes hgoes hlt
      rw [List.getElem?_eq_getElem hlt, Option.map_some] at hsession
      exact ToolsHub.lt_of_session hsession
  · intro t a ht hdisplaced session hmapped
    rcases pending_of_set htask ht with hnew | hold
    · exact h.filed.unmapped_of_displaced hgoes hnew hdisplaced session hmapped
    · rcases ToolsHub.attached_of_goes hgoes hmapped with hbefore | ⟨rfl, -⟩
      · exact h.displaced t a hold hdisplaced session hbefore
      · -- The socket that is installed is new: nobody held it.
        exact absurd (h.named t _ hold (names_of_displaced hdisplaced)) (Nat.lt_irrefl _)
  · intro t a ht hunmaps
    rcases pending_of_set htask ht with hnew | hold
    · exact ToolsHub.closed_of_unmaps hgoes hnew hunmaps
    · exact ToolsHub.closed_of_goes hgoes (h.named t a hold (names_of_unmaps hunmaps))
        (h.unmaps t a hold hunmaps)

/-- Every step keeps the invariant. -/
theorem Sound.next (h : w.Sound) (hnext : w.next l = some w') : w'.Sound := by
  cases l with
  | call call =>
    obtain rfl := Option.some.inj hnext
    refine h.quiet rfl rfl ?_
    rintro s ⟨task, htask, hs⟩
    rcases List.mem_append.mp htask with htask | htask
    · exact .inl ⟨task, htask, hs⟩
    · obtain rfl := List.mem_singleton.mp htask
      exact .inr (names_steps hs)
  | mint session grant =>
    obtain rfl := Option.some.inj hnext
    exact h.quiet rfl rfl fun s hs => .inl hs
  | dropGrant session =>
    obtain rfl := Option.some.inj hnext
    exact h.quiet rfl rfl fun s hs => .inl hs
  | issueLoopbackKey session raw =>
    obtain rfl := Option.some.inj hnext
    cases raw <;> exact h.quiet rfl rfl fun s hs => .inl hs
  | step i c =>
    simp only [Macs.next] at hnext
    split at hnext
    · rename_i s rest htask
      obtain rfl := Option.some.inj hnext
      exact h.section htask
    · cases hnext
  | wait d =>
    obtain rfl := Option.some.inj hnext
    exact h.quiet rfl rfl fun s hs => .inl hs

/-- A section that closes what its call holds leaves it closed. -/
theorem closed_of_displaced {hub : ToolsHub} {now : Instant} {c : MacInput}
    (h : s.displaced = some a) : (s.step hub now c).1.openSocket a = false := by
  have hclosed : ∀ code, (hub.closeSocket a code).openSocket a = false := by
    intro code
    by_contra hopen
    exact (ToolsHub.openSocket_closeSocket (Bool.not_eq_false _ ▸ hopen)).1 rfl
  cases s with
  | hub s =>
    cases s with
    | afterRemovals name code grant attached =>
      obtain rfl : attached = some a := h
      simp only [MacStep.step, HubStep.step, ToolsHub.afterRemovals]
      split <;> exact hclosed code
    | _ => cases h
  | close b code =>
    obtain rfl := Option.some.inj h
    exact hclosed code
  | _ => cases h

/-- A section that spares open sockets keeps each open socket in the map or in the hands of a
call. -/
theorem OneMac.section (h : w.OneMac) (hsound : w.Sound) {c : MacInput}
    (htask : w.tasks[i]? = some (s :: rest)) (hspares : w.Spares (.step i c)) :
    OneMac { w with hub := (s.step w.hub w.now c).1,
                    tasks := w.tasks.set i ((s.step w.hub w.now c).2 ++ rest) } := by
  intro a socket' hsocket' hopen'
  have hgoes := s.goes w.hub w.now c
  have hnow : (s.step w.hub w.now c).1.openSocket a = true := by
    simp only at hsocket'
    simp [ToolsHub.openSocket, hsocket', hopen']
  have hsession : (s.step w.hub w.now c).1.sockets[a]?.map (·.session) = some socket'.session := by
    simp only at hsocket'
    simp [hsocket']
  -- New sections are pending from now on.
  have hnew : (∃ t ∈ (s.step w.hub w.now c).2, t.displaced = some a) →
      Displaced { w with hub := (s.step w.hub w.now c).1,
                         tasks := w.tasks.set i ((s.step w.hub w.now c).2 ++ rest) } a := by
    rintro ⟨t, ht, hdisplaced⟩
    obtain ⟨task, hmem, ht⟩ : Pending { w with hub := (s.step w.hub w.now c).1,
                                               tasks := w.tasks.set i
                                                 ((s.step w.hub w.now c).2 ++ rest) } t :=
      pending_set htask (.inl ht)
    exact ⟨task, hmem, t, ht, hdisplaced⟩
  by_cases hlt : a < w.hub.sockets.length
  · have hwas : w.hub.openSocket a = true := by
      by_contra hclosed
      rw [Bool.not_eq_true] at hclosed
      rw [ToolsHub.closed_of_goes hgoes hlt hclosed] at hnow
      cases hnow
    have hsame := (ToolsHub.session_of_goes hgoes hlt).symm.trans hsession
    obtain ⟨socket, hsocket, hname⟩ := Option.map_eq_some_iff.mp hsame
    have hopen : socket.closed = false := by
      simpa [ToolsHub.openSocket, hsocket] using hwas
    rcases h a socket hsocket hopen with hmapped | ⟨task, hmem, t, ht, hdisplaced⟩
    · rw [hname] at hmapped
      rcases ToolsHub.goes_of_mapped hgoes hmapped with hstill | hdisplaced | rfl | rfl
      · exact .inl hstill
      · exact .inr (hnew hdisplaced)
      · -- What goes by identity is closed.
        have hs : w.Pending (.unmap socket'.session a) :=
          ⟨_, List.mem_of_getElem? htask, List.mem_cons_self⟩
        rw [hsound.unmaps _ a hs rfl] at hwas
        cases hwas
      · have hclosed := hspares socket'.session (by simp [htask]) a hmapped
        rw [hclosed] at hwas
        cases hwas
    · right
      have hne : t ≠ s := by
        rintro rfl
        rw [closed_of_displaced hdisplaced] at hnow
        cases hnow
      have hlater : task = s :: rest → t ∈ rest := by
        rintro rfl
        exact (List.mem_cons.mp ht).resolve_left hne
      obtain ⟨task', hmem', ht'⟩ : Pending { w with hub := (s.step w.hub w.now c).1,
                                                    tasks := w.tasks.set i
                                                      ((s.step w.hub w.now c).2 ++ rest) } t :=
        pending_set htask (.inr ⟨task, hmem, ht, hlater⟩)
      exact ⟨task', hmem', t, ht', hdisplaced⟩
  · exact .inl (ToolsHub.installed_of_goes hgoes hsession hlt)

/-- What leaves the hub's map and sockets and the calls' sections alone keeps it too. -/
theorem OneMac.quiet (h : w.OneMac) (hsockets : w'.hub.sockets = w.hub.sockets)
    (hattached : w'.hub.attached = w.hub.attached) (htasks : ∀ task ∈ w.tasks, task ∈ w'.tasks) :
    w'.OneMac := by
  intro a socket ha hopen
  rw [hsockets] at ha
  rw [hattached]
  rcases h a socket ha hopen with hmapped | ⟨task, htask, hs⟩
  · exact .inl hmapped
  · exact .inr ⟨task, htasks task htask, hs⟩

theorem OneMac.next (h : w.OneMac) (hsound : w.Sound) (hspares : w.Spares l)
    (hnext : w.next l = some w') : w'.OneMac := by
  cases l with
  | call call =>
    obtain rfl := Option.some.inj hnext
    exact h.quiet rfl rfl fun task htask => List.mem_append_left _ htask
  | mint session grant =>
    obtain rfl := Option.some.inj hnext
    exact h.quiet rfl rfl fun task htask => htask
  | dropGrant session =>
    obtain rfl := Option.some.inj hnext
    exact h.quiet rfl rfl fun task htask => htask
  | issueLoopbackKey session raw =>
    obtain rfl := Option.some.inj hnext
    cases raw <;> exact h.quiet rfl rfl fun task htask => htask
  | step i c =>
    simp only [Macs.next] at hnext
    split at hnext
    · rename_i s rest htask
      obtain rfl := Option.some.inj hnext
      exact h.section hsound htask hspares
    · cases hnext
  | wait d =>
    obtain rfl := Option.some.inj hnext
    exact h.quiet rfl rfl fun task htask => htask

/-- A sweep that drops the name of an open socket leaves it open, unmapped and in nobody's
hands. -/
theorem not_oneMac_of_not_spares (hsound : w.Sound) (hspares : ¬ w.Spares l)
    (hnext : w.next l = some w') : ¬ w'.OneMac := by
  cases l with
  | step i c =>
    simp only [Spares, not_forall] at hspares
    obtain ⟨name, hhead, a, hmapped, hopen⟩ := hspares
    rw [Bool.not_eq_false] at hopen
    simp only [Macs.next] at hnext
    split at hnext
    · rename_i s rest htask
      obtain rfl := Option.some.inj hnext
      obtain rfl : s = .hub (.removeStale name) := by simpa [htask] using hhead
      obtain ⟨socket, hsocket, hname⟩ := Option.map_eq_some_iff.mp (hsound.filed name a hmapped)
      have hclosed : socket.closed = false := by
        simpa [ToolsHub.openSocket, hsocket] using hopen
      intro h
      rcases h a socket hsocket hclosed with hstill | ⟨task, hmem, t, ht, hdisplaced⟩
      · rw [hname] at hstill
        have herased : (w.hub.removeAttached name).attached[name]? = some a := hstill
        simp only [ToolsHub.removeAttached, ToolsHub.getElem?_erase_name, if_true] at herased
        cases herased
      · rcases pending_of_set htask ⟨task, hmem, ht⟩ with hnew | hold
        · cases hnew
        · exact hsound.displaced t a hold hdisplaced name hmapped
    · cases hnext
  | call | mint | dropGrant | issueLoopbackKey | wait => exact absurd trivial hspares

/-- In a run each open socket stays the one Mac of its session exactly as long as the sweep
drops no name that has been taken over since it looked; and then the hub reaches every one. -/
theorem oneMac_iff_spares (maxTtl : Duration) (ls : List Label) :
    (Trace.AllStates next OneMac (init maxTtl) ls ↔
      Trace.AllSteps next Spares (init maxTtl) ls) ∧
    (Trace.AllSteps next Spares (init maxTtl) ls →
      Trace.AllStates next Reached (init maxTtl) ls) := by
  have hinit : (init maxTtl).OneMac := by
    intro a socket ha
    simp [init, ToolsHub.new] at ha
  have hiff : Trace.AllStates next OneMac (init maxTtl) ls ↔
      Trace.AllSteps next Spares (init maxTtl) ls := by
    refine Trace.allStates_iff_allSteps (I := fun w : Macs => w.Sound ∧ w.OneMac) (fun w h => h.2)
      ?_ ?_ ⟨sound_init maxTtl, hinit⟩
    · intro w l w' h hspares hnext
      exact ⟨h.1.next hnext, h.2.next h.1 hspares hnext⟩
    · intro w l w' h hspares hnext
      exact not_oneMac_of_not_spares h.1 hspares hnext
  exact ⟨hiff, fun h => (hiff.mpr h).imp fun w hw => hw.reached⟩

/-- A Mac times out; a sweep sees its socket closed; the Mac redials before the sweep drops the
name. -/
def redialed : List Label :=
  let c : MacInput := { sessionExists := fun _ => true, timedOut := true }
  [.call (.serveAttached .sh), .step 0 c, .step 0 c, .step 0 c, .call .sweep, .step 1 c, .step 1 c,
    .step 1 c, .step 1 c, .step 1 c, .step 1 c, .step 1 c, .call (.serveAttached .sh), .step 2 c,
    .step 2 c, .step 1 c]

/-- Its second socket is open, and the hub has lost it. -/
theorem redialed_unreached :
    ¬ ∀ (maxTtl : Duration) (ls : List Label), Trace.AllStates next Reached (init maxTtl) ls := by
  intro h
  obtain ⟨w, hw, hobserved⟩ := (h 0 redialed).observe
    (f := fun w => (w.tasks, w.hub.sockets[1]?, w.hub.attached[SessionName.sh]?))
    (show _ = some ([[.exit .sh 0], [], [.serve .sh 1]],
      some { session := .sh, closed := false, closeCode := 0 }, none) from by decide)
  simp only [Prod.mk.injEq] at hobserved
  obtain ⟨htasks, hsocket, hmapped⟩ := hobserved
  have hidle : ∀ a, ¬ w.Displaced a := by
    rintro a ⟨task, htask, s, hs, hdisplaced⟩
    rw [htasks] at htask
    simp only [List.mem_cons, List.not_mem_nil, or_false] at htask
    rcases htask with rfl | rfl | rfl
    · obtain rfl := List.mem_singleton.mp hs
      cases hdisplaced
    · cases hs
    · obtain rfl := List.mem_singleton.mp hs
      cases hdisplaced
  have hreached := (hw hidle 1 _ hsocket rfl).1
  rw [hmapped] at hreached
  cases hreached

end Macs

end OpenabPty
