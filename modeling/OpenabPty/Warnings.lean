import OpenabPty.SingleAttach

/-!
# The warning before the absolute deadline

The tick that finds a session within the warning lead of its absolute deadline sets a flag of
the session under the lock, and warns whoever is subscribed once the lock is free. The flag is
set once for a session, while its connections come and go.
-/

namespace OpenabPty

/-- What the ticks do to one connection: one of them examines its session inside the warning
lead, pushes it the warning, or closes it. -/
inductive Notice where
  | due (sid : Sid) (conn : ConnGeneration)
  | warned (sid : Sid) (conn : ConnGeneration)
  | expired (sid : Sid) (conn : ConnGeneration)
  deriving DecidableEq

/-- The connection that is attached while the absolute deadline is ahead, by the warning lead
at most. -/
def Session.dueConn (s : Session) (policy : SessionPolicy) (now : Instant) :
    Option ConnGeneration :=
  let absoluteDeadline := s.state.createdAt + policy.absoluteTtl
  if s.state.ownerConn ≠ ⟨0⟩ ∧ now < absoluteDeadline ∧
      absoluteDeadline ≤ now + policy.ttlWarningLead then some s.state.ownerConn else none

/-- What the next section of a task does to a connection. -/
def Task.notice (env : Env) (sh : Shared) : Task → Option Notice
  | .op (.tickNext { now := now, rest := sid :: _, .. }) =>
    (sh.heap[sid]?.bind (·.dueConn env.policy now)).map (.due sid)
  | .op (.tickPush _ sid _ true _ (some c)) => some (.warned sid c)
  | .op (.teardownClose td _ (some c)) =>
    if td.code = CloseCode.ttlExpired then some (.expired td.sid c) else none
  | _ => none

/-- The runtime with a record of what the ticks did, newest first. -/
abbrev Watched := Trace.Noted World (List Notice)

def Watched.init : Watched := { state := World.init, log := [] }

def Watched.next (env : Env) : Watched → World.Label → Option Watched :=
  Trace.noted (World.next env) fun w l _ log =>
    ((w.acting l).bind (Task.notice env w.shared)).toList ++ log

/-- A connection that was due and is closed for its TTL had been warned before that. -/
def Watched.ExpiryVisible (w : Watched) : Prop :=
  ∀ (later earlier : List Notice) (sid : Sid) (c : ConnGeneration),
    w.log = later ++ .expired sid c :: earlier → .due sid c ∈ earlier → .warned sid c ∈ earlier

/-- A tick has set the flag of the session and has not yet looked at the subscriber slot. -/
def Task.warns (sid : Sid) : Task → Bool
  | .op (.tickWarn _ sid' _ true _) => sid' = sid
  | _ => false

/-- A tick has read the connection from the slot and is about to push the warning. -/
def Task.pushes (sid : Sid) (c : ConnGeneration) : Task → Bool
  | .op (.tickPush _ sid' _ true _ (some c')) => sid' = sid && c' = c
  | _ => false

/-- The connection has its warning, or a tick is about to push it. -/
def Watched.covered (w : Watched) (sid : Sid) (c : ConnGeneration) : Bool :=
  w.log.contains (.warned sid c) || w.state.tasks.any (Task.pushes sid c)

/-- A tick that examines a session inside the warning lead finds the flag unset, or a connection
that has its warning or is about to get it; and a session is only torn down for its TTL, and a
connection closed for it, while no tick still owes that connection its warning. -/
def Watched.Punctual (env : Env) (w : Watched) (l : World.Label) : Prop :=
  match w.state.acting l with
  | some (.op (.tickNext { now := now, rest := sid :: _, .. })) =>
    ∀ s ∈ w.state.shared.heap[sid]?, ∀ c ∈ s.dueConn env.policy now,
      (s.state.alive = true ∧ s.state.warnedAbsolute = false) ∨ w.covered sid c = true ∨
        w.state.tasks.any (Task.warns sid) = true
  | some (.op (.teardownLock td)) =>
    td.code = CloseCode.ttlExpired → w.state.tasks.any (Task.warns td.sid) = true →
      ∀ c ∈ w.state.shared.subscriber? td.sid, .due td.sid c ∈ w.log → w.covered td.sid c = true
  | some (.op (.teardownClose td _ (some c))) =>
    td.code = CloseCode.ttlExpired → w.state.tasks.any (Task.pushes td.sid c) = true →
      .due td.sid c ∈ w.log → .warned td.sid c ∈ w.log
  | _ => True

instance (env : Env) (w : Watched) (l : World.Label) : Decidable (w.Punctual env l) := by
  unfold Watched.Punctual
  split <;> infer_instance

/-! ## What one step does to a warning -/

section Step

variable {env : Env} {sh sh' : Shared} {t t' : Task} {c : Input} {new : List Task}

/-- The connection that is due is the subscriber. -/
theorem Session.subscriber_of_dueConn {s : Session} {policy : SessionPolicy} {now : Instant}
    {x : ConnGeneration} (h : s.dueConn policy now = some x) (hvalid : s.fence.Valid) :
    s.io.subscriber = some x := by
  unfold dueConn at h
  dsimp only at h
  split at h
  · rename_i hdue
    cases h
    have hsub : s.io.subscriber = if s.state.ownerConn = ⟨0⟩ then none else some s.state.ownerConn :=
      hvalid.subscriber
    rw [hsub, if_neg hdue.1]
  · cases h

/-- The tick that finds a connection due and the flag unset goes on to warn. -/
theorem Session.tickLocked_of_dueConn {s : Session} {policy : SessionPolicy} {now : Instant}
    {x : ConnGeneration} (h : s.dueConn policy now = some x) (halive : s.state.alive = true)
    (hunset : s.state.warnedAbsolute = false) :
    (s.tickLocked policy now).2 =
      some (.warn true (Duration.asSecs (s.state.createdAt + policy.absoluteTtl - now))) := by
  unfold dueConn at h
  dsimp only at h
  split at h
  · rename_i hdue
    obtain ⟨howner, hbefore, hlead⟩ := hdue
    unfold tickLocked
    rw [halive, if_neg nofun]
    dsimp only
    rw [if_neg (Nat.not_le.mpr hbefore), if_neg howner, Option.any_none, if_neg nofun, hunset,
      Bool.not_false, Bool.true_and, if_pos (decide_eq_true hlead)]
  · cases h

/-- The tick that warns has the subscriber of the session, if any, as who to push to. -/
theorem Task.pushes_of_warns (h : Task.step env sh t c = some (sh', t', new)) {sid : Sid}
    {x : ConnGeneration} (hwarns : t.warns sid = true) (hsub : sh.subscriber? sid = some x) :
    t'.pushes sid x = true := by
  unfold warns at hwarns
  split at hwarns
  · obtain ⟨⟨sh₁, op', ops, sids⟩, hop, heq⟩ := Option.map_eq_some_iff.mp h
    cases heq
    obtain ⟨s, hs, heq⟩ := Option.map_eq_some_iff.mp hop
    cases heq
    rw [of_decide_eq_true hwarns] at hs
    rw [Shared.subscriber?_eq hs] at hsub
    dsimp only [pushes]
    rw [hsub]
    simpa using hwarns
  · cases hwarns

/-- The push is the warning. -/
theorem Task.notice_of_pushes {sid : Sid} {x : ConnGeneration} (h : t.pushes sid x = true) :
    t.notice env sh = some (.warned sid x) := by
  unfold pushes at h
  split at h
  · rw [Bool.and_eq_true, decide_eq_true_eq, decide_eq_true_eq] at h
    rw [← h.1, ← h.2]
    rfl
  · cases h

/-- The close of a connection for its TTL. -/
theorem Task.closes_of_notice {sid : Sid} {x : ConnGeneration}
    (h : t.notice env sh = some (.expired sid x)) : ∃ td report,
      t = .op (.teardownClose td report (some x)) ∧ td.sid = sid ∧
        td.code = CloseCode.ttlExpired := by
  unfold notice at h
  split at h
  · obtain ⟨y, -, heq⟩ := Option.map_eq_some_iff.mp h
    cases heq
  · cases h
  · split at h <;> cases h
    exact ⟨_, _, rfl, rfl, ‹_›⟩
  · cases h

/-- Who has a connection to close for its TTL had it to close before, or is the teardown that
has just removed it. -/
theorem Task.expires_new (h : Task.step env sh t c = some (sh', t', new)) (hI : sh.FencesValid)
    {sid : Sid} {x : ConnGeneration}
    (hcloses : t'.closes = some (sid, x, CloseCode.ttlExpired)) :
    t.closes = some (sid, x, CloseCode.ttlExpired) ∨
      ∃ td, t = .op (.teardownLock td) ∧ td.sid = sid ∧ td.code = CloseCode.ttlExpired ∧
        sh.subscriber? sid = some x := by
  rcases (closes_new h hI).2 sid x _ hcloses with hkeep | ⟨cause, hremoves, hcode, hsub, -⟩
  · exact .inl hkeep
  · unfold removes at hremoves
    split at hremoves <;> cases hremoves
    · exact .inr ⟨_, rfl, rfl, Option.some.inj hcode, hsub⟩
    all_goals cases hcode

end Step

/-! ## Runs -/

variable {env : Env} {w w' : Watched} {l : World.Label}

/-- A connection that was due is owed its warning at most as long as it is safe: a tick is about
to push it, or to look at the slot that the connection still has, or the connection has lost
the slot to something that does not close it for the TTL. -/
def Watched.Settled (w : Watched) (sid : Sid) (c : ConnGeneration) : Prop :=
  .warned sid c ∈ w.log ∨ (∃ t ∈ w.state.tasks, t.pushes sid c = true) ∨
    (w.state.shared.subscriber? sid = some c ∧ ∃ t ∈ w.state.tasks, t.warns sid = true) ∨
    (w.state.shared.Past sid c ∧
      ∀ t ∈ w.state.tasks, t.closes ≠ some (sid, c, CloseCode.ttlExpired))

/-- The invariant of the warnings. -/
structure Watched.Timely (w : Watched) : Prop where
  wires : w.state.shared.WiresValid
  visible : w.ExpiryVisible
  closers : ∀ t ∈ w.state.tasks, ∀ sid c code, t.closes = some (sid, c, code) →
    w.state.shared.Past sid c
  settled : ∀ sid c, .due sid c ∈ w.log → w.Settled sid c

theorem Watched.timely_init : Watched.init.Timely where
  wires sid s hs := by cases hs
  visible later earlier sid c h := by
    have hlen := congrArg List.length h
    simp [Watched.init] at hlen
  closers t ht := absurd ht List.not_mem_nil
  settled sid c h := absurd h List.not_mem_nil

theorem Watched.covered_iff {sid : Sid} {c : ConnGeneration} : w.covered sid c = true ↔
    .warned sid c ∈ w.log ∨ ∃ t ∈ w.state.tasks, t.pushes sid c = true := by
  rw [covered, Bool.or_eq_true, List.contains_iff_mem, List.any_eq_true]

/-- A step that records nothing keeps what is visible; so does one that records a close of a
connection that has its warning. -/
theorem Watched.ExpiryVisible.cons (h : w.ExpiryVisible) {notice : Option Notice}
    (hlog : w'.log = notice.toList ++ w.log)
    (hnotice : ∀ sid c, notice = some (.expired sid c) → .due sid c ∈ w.log →
      .warned sid c ∈ w.log) : w'.ExpiryVisible := by
  intro later earlier sid c heq hdue
  rw [hlog] at heq
  cases notice with
  | none => exact h later earlier sid c heq hdue
  | some n =>
    cases later with
    | nil =>
      obtain ⟨hn, hrest⟩ := List.cons.inj heq
      rw [← hrest] at hdue ⊢
      exact hnotice sid c (congrArg some hn) hdue
    | cons n' later =>
      obtain ⟨-, hrest⟩ := List.cons.inj heq
      exact h later earlier sid c hrest hdue

theorem Watched.ExpiryVisible.keep (h : w.ExpiryVisible) (hlog : w'.log = w.log) :
    w'.ExpiryVisible := by
  intro later earlier sid c heq hdue
  rw [hlog] at heq
  exact h later earlier sid c heq hdue

section Step

variable {i : Nat} {c : Input} {t t' : Task} {sh' : Shared} {new : List Task} {log : List Notice}

/-- A connection stays settled. -/
theorem Watched.Timely.settled_step (h : w.Timely) (ht : w.state.tasks[i]? = some t)
    (hc : w.Punctual env (.step i c))
    (hstep : Task.step env w.state.shared t c = some (sh', t', new))
    (hlog : log = (t.notice env w.state.shared).toList ++ w.log) {sid : Sid} {x : ConnGeneration}
    (hdue : .due sid x ∈ w.log) (hsettled : w.Settled sid x) :
    Watched.Settled { state := { shared := sh', tasks := w.state.tasks.set i t' ++ new },
                      log := log } sid x := by
  have ht' : t' ∈ w.state.tasks.set i t' ++ new :=
    List.mem_append_left _ (List.mem_set (List.getElem?_eq_some_iff.mp ht).1 t')
  have hacting : w.state.acting (.step i c : World.Label) = some t := ht
  unfold Punctual at hc
  rw [hacting] at hc
  have hwarned : .warned sid x ∈ w.log → .warned sid x ∈ log := by
    intro hw
    rw [hlog]
    exact List.mem_append_right _ hw
  have hpush : (∃ u ∈ w.state.tasks, u.pushes sid x = true) → .warned sid x ∈ log ∨
      ∃ u ∈ w.state.tasks.set i t' ++ new, u.pushes sid x = true := by
    rintro ⟨u, hu, hpushes⟩
    by_cases hut : u = t
    · subst hut
      left
      rw [hlog, Task.notice_of_pushes hpushes]
      exact List.mem_cons_self
    · exact .inr ⟨u, Threads.mem_step_of_ne ht hu hut, hpushes⟩
  -- A past connection is only closed by who had it to close.
  have hcloses : ∀ u ∈ w.state.tasks.set i t' ++ new,
      u.closes = some (sid, x, CloseCode.ttlExpired) →
      (∃ v ∈ w.state.tasks, v.closes = some (sid, x, CloseCode.ttlExpired)) ∨
        ∃ td, t = .op (.teardownLock td) ∧ td.sid = sid ∧ td.code = CloseCode.ttlExpired ∧
          w.state.shared.subscriber? sid = some x := by
    intro u hu hcl
    rcases List.mem_append.mp hu with hu | hu
    · rcases List.mem_or_eq_of_mem_set hu with hu | rfl
      · exact .inl ⟨u, hu, hcl⟩
      · rcases Task.expires_new hstep h.wires.fences hcl with hkeep | hremoved
        · exact .inl ⟨t, List.mem_of_getElem? ht, hkeep⟩
        · exact .inr hremoved
    · rw [(Task.closes_new hstep h.wires.fences).1 u hu] at hcl
      cases hcl
  rcases hsettled with hw | hp | ⟨hsub, u, hu, hwarns⟩ | ⟨hpast, hnone⟩
  · exact .inl (hwarned hw)
  · rcases hpush hp with hw | hp
    · exact .inl hw
    · exact .inr (.inl hp)
  · by_cases hut : u = t
    · subst hut
      exact .inr (.inl ⟨t', ht', Task.pushes_of_warns hstep hwarns hsub⟩)
    · by_cases hsub' : sh'.subscriber? sid = some x
      · exact .inr (.inr (.inl ⟨hsub', u, Threads.mem_step_of_ne ht hu hut, hwarns⟩))
      · by_cases htorn : ∃ td, t = .op (.teardownLock td) ∧ td.sid = sid ∧
            td.code = CloseCode.ttlExpired
        · obtain ⟨td, rfl, rfl, hcode⟩ := htorn
          have hcovered := hc hcode (List.any_eq_true.mpr ⟨u, hu, hwarns⟩) x hsub hdue
          rcases covered_iff.mp hcovered with hw | hp
          · exact .inl (hwarned hw)
          · rcases hpush hp with hw | hp
            · exact .inl hw
            · exact .inr (.inl hp)
        · refine .inr (.inr (.inr ⟨.of_lost h.wires.fences hstep hsub hsub', fun v hv hcl => ?_⟩))
          rcases hcloses v hv hcl with ⟨v, hv, hcl⟩ | ⟨td, htd, hsid, hcode, -⟩
          · exact (h.closers v hv sid x _ hcl).not_subscriber hsub
          · exact htorn ⟨td, htd, hsid, hcode⟩
  · refine .inr (.inr (.inr ⟨hpast.step hstep, fun v hv hcl => ?_⟩))
    rcases hcloses v hv hcl with ⟨v, hv, hcl⟩ | ⟨td, -, -, -, hsub⟩
    · exact hnone v hv hcl
    · exact hpast.not_subscriber hsub

/-- A connection that becomes due is settled. -/
theorem Watched.Timely.settled_due (h : w.Timely) (ht : w.state.tasks[i]? = some t)
    (hc : w.Punctual env (.step i c))
    (hstep : Task.step env w.state.shared t c = some (sh', t', new))
    (hlog : log = (t.notice env w.state.shared).toList ++ w.log) {sid : Sid} {x : ConnGeneration}
    (hnotice : t.notice env w.state.shared = some (.due sid x)) :
    Watched.Settled { state := { shared := sh', tasks := w.state.tasks.set i t' ++ new },
                      log := log } sid x := by
  have ht' : t' ∈ w.state.tasks.set i t' ++ new :=
    List.mem_append_left _ (List.mem_set (List.getElem?_eq_some_iff.mp ht).1 t')
  have hacting : w.state.acting (.step i c : World.Label) = some t := ht
  unfold Punctual at hc
  rw [hacting] at hc
  unfold Task.notice at hnotice
  split at hnotice
  · rename_i now sid₀ rest actions
    obtain ⟨y, hy, heq⟩ := Option.map_eq_some_iff.mp hnotice
    cases heq
    obtain ⟨s, hs, hdue⟩ := Option.bind_eq_some_iff.mp hy
    obtain ⟨⟨sh₁, op', ops, sids⟩, hop, heq⟩ := Option.map_eq_some_iff.mp hstep
    cases heq
    obtain ⟨s₁, hs₁, heq⟩ := Option.map_eq_some_iff.mp hop
    obtain rfl := Option.some.inj (hs.symm.trans hs₁)
    cases heq
    have hsub : s.io.subscriber = some x :=
      Session.subscriber_of_dueConn hdue (h.wires sid s hs).fence
    have hsub' : (w.state.shared.modify sid fun s =>
        (s.tickLocked env.policy now).1).subscriber? sid = some x := by
      rw [Shared.subscriber?_modify hs]
      exact (congrArg Session.Wire.fence (s.wire_tickLocked env.policy now) ▸ hsub :
        (s.tickLocked env.policy now).1.wire.fence.subscriber = some x)
    have hne : ∀ u : Task, u.warns sid = true ∨ u.pushes sid x = true →
        u ≠ .op (.tickNext { now := now, rest := sid :: rest, actions := actions }) := by
      rintro u hcase rfl
      rcases hcase with hcase | hcase <;> cases hcase
    rcases hc s hs x hdue with ⟨halive, hunset⟩ | hcovered | hany
    · refine .inr (.inr (.inl ⟨hsub', _, ht', ?_⟩))
      rw [Session.tickLocked_of_dueConn hdue halive hunset]
      exact decide_eq_true rfl
    · rcases covered_iff.mp hcovered with hw | ⟨u, hu, hp⟩
      · left
        rw [hlog]
        exact List.mem_append_right _ hw
      · exact .inr (.inl ⟨u, Threads.mem_step_of_ne ht hu (hne u (.inr hp)), hp⟩)
    · obtain ⟨u, hu, hwarns⟩ := List.any_eq_true.mp hany
      exact .inr (.inr (.inl
        ⟨hsub', u, Threads.mem_step_of_ne ht hu (hne u (.inl hwarns)), hwarns⟩))
  · cases hnotice
  · split at hnotice <;> cases hnotice
  · cases hnotice

end Step

theorem Watched.timely_next (h : w.Timely) (hc : w.Punctual env l) (hs : w.next env l = some w') :
    w'.Timely := by
  obtain ⟨hnext, hlog⟩ := Trace.noted_eq_some hs
  obtain ⟨⟨shared, tasks⟩, log⟩ := w'
  dsimp only at hnext hlog ⊢
  cases l with
  | call t =>
    obtain ⟨hentry, heq⟩ := Threads.next_call hnext
    cases heq
    refine ⟨h.wires, h.visible.keep hlog, fun u hu => ?_, fun sid c hdue => ?_⟩
    · rcases List.mem_append.mp hu with hu | hu
      · exact h.closers u hu
      · obtain rfl := List.mem_singleton.mp hu
        intro sid c code hcl
        rw [Task.closes_entry hentry] at hcl
        cases hcl
    · rw [hlog] at hdue ⊢
      rcases h.settled sid c hdue with hw | ⟨u, hu, hp⟩ | ⟨hsub, u, hu, hwarns⟩ | ⟨hpast, hnone⟩
      · exact .inl hw
      · exact .inr (.inl ⟨u, List.mem_append_left _ hu, hp⟩)
      · exact .inr (.inr (.inl ⟨hsub, u, List.mem_append_left _ hu, hwarns⟩))
      · refine .inr (.inr (.inr ⟨hpast, fun v hv hcl => ?_⟩))
        rcases List.mem_append.mp hv with hv | hv
        · exact hnone v hv hcl
        · obtain rfl := List.mem_singleton.mp hv
          rw [Task.closes_entry hentry] at hcl
          cases hcl
  | env d =>
    cases Threads.next_env hnext
    refine ⟨h.wires, h.visible.keep hlog, h.closers, fun sid c hdue => ?_⟩
    rw [hlog] at hdue ⊢
    exact h.settled sid c hdue
  | step i c =>
    obtain ⟨t, sh', t', new, ht, hstep, heq⟩ := Threads.next_step hnext
    have hacting : w.state.acting (.step i c : World.Label) = some t := ht
    rw [hacting] at hlog
    cases heq
    refine ⟨h.wires.step (Task.wire_step hstep), h.visible.cons hlog fun sid x hnotice hdue => ?_,
      fun u hu sid x code hcl => ?_, fun sid x hdue => ?_⟩
    · obtain ⟨td, report, rfl, rfl, hcode⟩ := Task.closes_of_notice hnotice
      have hmem := List.mem_of_getElem? ht
      have hcl : Task.closes (.op (.teardownClose td report (some x))) =
          some (td.sid, x, CloseCode.ttlExpired) := by
        rw [← hcode]
        rfl
      unfold Punctual at hc
      rw [hacting] at hc
      rcases h.settled td.sid x hdue with hw | ⟨u, hu, hp⟩ | ⟨hsub, -⟩ | ⟨-, hnone⟩
      · exact hw
      · exact hc hcode (List.any_eq_true.mpr ⟨u, hu, hp⟩) hdue
      · exact absurd hsub (h.closers _ hmem _ _ _ hcl).not_subscriber
      · exact absurd hcl (hnone _ hmem)
    · obtain ⟨hnew, hnext⟩ := Task.closes_new hstep h.wires.fences
      rcases List.mem_append.mp hu with hu | hu
      · rcases List.mem_or_eq_of_mem_set hu with hu | rfl
        · exact (h.closers u hu sid x code hcl).step hstep
        · rcases hnext sid x code hcl with hkeep | ⟨-, -, -, hsub, hlost⟩
          · exact (h.closers t (List.mem_of_getElem? ht) sid x code hkeep).step hstep
          · exact .of_lost h.wires.fences hstep hsub hlost
      · rw [hnew u hu] at hcl
        cases hcl
    · rcases List.mem_append.mp (hlog ▸ hdue) with hnotice | hdue
      · exact h.settled_due ht hc hstep hlog (Option.mem_toList.mp hnotice)
      · exact h.settled_step ht hc hstep hlog hdue (h.settled sid x hdue)

/-- Along every run whose ticks are punctual, expiry is visible to whoever is attached. -/
theorem expiryVisible_of_punctual (env : Env) (run : List World.Label)
    (h : Trace.AllSteps (Watched.next env) (Watched.Punctual env) Watched.init run) :
    Trace.AllStates (Watched.next env) Watched.ExpiryVisible Watched.init run :=
  (Trace.AllStates.of_invariant (fun _ _ _ hi hc hs => Watched.timely_next hi hc hs)
    Watched.timely_init h).imp fun _ hw => hw.visible

/-- A client is attached to `sh` when a tick finds it within the warning lead. -/
def warnedClient : List World.Label :=
  [.call (.op (.claimName { name := .sh, size := .default, origin := .create })),
   .step 0 {}, .step 0 {}, .step 0 { choice := { raw := some [7] } }, .step 0 {}, .step 0 {},
   .call (.conn (.request { token := [48, 55], session := [115, 104], since := none,
                            rows := none, cols := none })),
   .step 2 {}, .step 2 {}, .step 2 {}, .step 2 {}, .step 2 {}, .step 2 {}, .step 2 {},
   .step 2 {}, .step 2 {}, .step 2 {}, .step 2 {}, .env (.fromSecs 43175),
   .call (.op .tick), .step 3 {}, .step 3 {}, .step 3 {}, .step 3 {}, .step 3 {}, .step 3 {}]

/-- The session is renewed, its client comes back, and the next tick finds the flag set. -/
def renewedClient : List World.Label :=
  [.call (.op (.renewGet .sh)), .step 4 {}, .step 4 {}, .step 4 {}, .step 4 {},
   .step 4 { choice := { raw := some [8] } },
   .call (.conn (.request { token := [48, 56], session := [115, 104], since := none,
                            rows := none, cols := none })),
   .step 5 {}, .step 5 {}, .step 5 {}, .step 5 {}, .step 5 {}, .step 5 {}, .step 5 {},
   .call (.op .tick), .step 6 {}, .step 6 {}, .step 6 {}, .step 6 {}]

/-- The tick after the deadline, as task `i`. -/
def expiry (i : Nat) : List World.Label :=
  [.env (.fromSecs 25), .call (.op .tick), .step i {}, .step i {}, .step i {}, .step i {},
   .step i {}, .step i {}]

theorem expiryVisible_warnedClient :
    Trace.AllStates (Watched.next .default) Watched.ExpiryVisible Watched.init
      (warnedClient ++ expiry 4) :=
  expiryVisible_of_punctual .default _ (by decide)

/-- The client that came back is closed without a warning. -/
theorem renewedClient_unwarned :
    ¬ Trace.AllStates (Watched.next .default) Watched.ExpiryVisible Watched.init
      (warnedClient ++ renewedClient ++ expiry 7) := by
  intro h
  obtain ⟨w, hvisible, hlog⟩ := h.observe (f := fun w => w.log)
    (show _ = some [.expired 0 ⟨2⟩, .due 0 ⟨2⟩, .warned 0 ⟨1⟩, .due 0 ⟨1⟩] from by decide)
  have hwarned := hvisible [] [.due 0 ⟨2⟩, .warned 0 ⟨1⟩, .due 0 ⟨1⟩] 0 ⟨2⟩ hlog (by decide)
  revert hwarned
  decide

end OpenabPty
