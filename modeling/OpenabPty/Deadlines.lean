import OpenabPty.CloudFree
import OpenabPty.Dates

/-!
# Deadlines that an `Instant` can hold

The validator checks that a duration fits in its seconds; `tick` and `mint_for_session` add it
to a time. An `Instant` has a signed 64-bit count of seconds, and `Instant + Duration` panics
where the sum does not fit. Here both functions with these sums checked, `none` for the panic.
The model counts time from the start of the process; `epoch` is what the platform's clock
showed then.
-/

namespace OpenabPty

/-- The first nanosecond that no `Instant` can hold. -/
def instantEnd : Nat := Duration.fromSecs (2 ^ 63)

/-- The platform can hold this time of the process. -/
def Instant.fits (epoch : Nat) (t : Instant) : Bool := epoch + t < instantEnd

/-- `Instant + Duration`. -/
def Instant.add? (epoch : Nat) (t : Instant) (d : Duration) : Option Instant :=
  if Instant.fits epoch (t + d) then some (t + d) else none

/-- The decision of `tick`, with its sums checked. -/
def Session.tickLocked? (epoch : Nat) (s : Session) (policy : SessionPolicy) (now : Instant) :
    Option (Session × Option TtlDecision) :=
  if !s.state.alive then some (s, none)
  else do
    let absoluteDeadline ← Instant.add? epoch s.state.createdAt policy.absoluteTtl
    let idleDeadline ←
      if s.state.ownerConn = ⟨0⟩ then
        (Instant.add? epoch s.lastActivity policy.detachedIdleTtl).map some
      else some none
    if now ≥ absoluteDeadline then some (s, some (.expire true))
    else if idleDeadline.any (fun deadline => now ≥ deadline) then some (s, some (.expire false))
    else
      let warnsAbsolute ←
        if s.state.warnedAbsolute then some false
        else (Instant.add? epoch now policy.ttlWarningLead).map (fun t => t ≥ absoluteDeadline)
      if warnsAbsolute then
        some ({ s with state := { s.state with warnedAbsolute := true } },
          some (.warn true (Duration.asSecs (absoluteDeadline - now))))
      else
        let warnsIdle ←
          match idleDeadline with
          | some deadline =>
            if s.state.warnedIdle then some false
            else (Instant.add? epoch now policy.ttlWarningLead).map (fun t => t ≥ deadline)
          | none => some false
        if warnsIdle then
          some ({ s with state := { s.state with warnedIdle := true } },
            idleDeadline.map fun deadline => .warn false (Duration.asSecs (deadline - now)))
        else some (s, none)

/-- `mint_for_session`, with its sum checked. -/
def TokenEntries.mintForSession? (epoch : Nat) (entries : TokenEntries)
    (sha256 : List UInt8 → Digest) (ttl : Duration) (session : SessionName)
    (generation : Generation) (raw : Option (List UInt8)) (now : Instant) :
    Option (TokenEntries × Except Error MintedAttachToken) :=
  if ttl = 0 then some (entries, .error (.other "attach token TTL must be non-zero"))
  else
    match raw with
    | none => some (entries, .error (.other "OS RNG failed while minting attach token"))
    | some raw =>
      let encoded := hexEncode raw
      (Instant.add? epoch now ttl).map fun expiresAt =>
        let grant := { session := session, generation := generation, scope := .attachOnly,
                       expiresAt := expiresAt }
        (entries.insert session
          { hash := sha256 encoded, generation := grant.generation, scope := grant.scope,
            expiresAt := expiresAt }, .ok { plaintext := encoded, grant := grant })

/-! ## Where the sums fit -/

section Sums

variable {epoch : Nat} {t t' now : Instant} {d : Duration} {s : Session} {policy : SessionPolicy}

theorem Instant.add?_eq (h : Instant.fits epoch (t + d) = true) :
    Instant.add? epoch t d = some (t + d) := if_pos h

theorem Instant.fits_of_le (h : Instant.fits epoch t' = true) (hle : t ≤ t') :
    Instant.fits epoch t = true := by
  have hlt : epoch + t' < instantEnd := of_decide_eq_true h
  exact decide_eq_true (lt_of_le_of_lt (Nat.add_le_add_left hle epoch) hlt)

/-- Where every sum fits, the checked decision is the decision. -/
theorem Session.tickLocked?_eq (s : Session) (policy : SessionPolicy) (now : Instant)
    (habsolute : Instant.fits epoch (s.state.createdAt + policy.absoluteTtl) = true)
    (hidle : Instant.fits epoch (s.lastActivity + policy.detachedIdleTtl) = true)
    (hlead : Instant.fits epoch (now + policy.ttlWarningLead) = true) :
    s.tickLocked? epoch policy now = some (s.tickLocked policy now) := by
  unfold tickLocked? tickLocked
  rw [Instant.add?_eq habsolute, Instant.add?_eq hidle, Instant.add?_eq hlead]
  generalize s.state.createdAt + policy.absoluteTtl = absoluteDeadline
  generalize s.lastActivity + policy.detachedIdleTtl = deadline
  generalize now + policy.ttlWarningLead = lead
  cases s.state.alive with
  | false => rfl
  | true =>
    simp only [Bool.not_true, Bool.false_eq_true, if_false, Option.map_some, Option.bind_eq_bind,
      Option.bind_some]
    by_cases howner : s.state.ownerConn = ⟨0⟩
    · rw [if_pos howner, if_pos howner, Option.any_some, Option.any_some]
      cases s.state.warnedAbsolute <;> cases s.state.warnedIdle <;>
        simp only [if_true, Bool.false_eq_true, if_false, Bool.not_true,
          Bool.not_false, Bool.false_and, Bool.true_and] <;>
        split_ifs <;> rfl
    · rw [if_neg howner, if_neg howner, Option.any_none, Option.any_none]
      cases s.state.warnedAbsolute <;>
        simp only [if_true, Bool.false_eq_true, if_false, Bool.not_true,
          Bool.not_false, Bool.false_and, Bool.true_and, Bool.and_false] <;>
        split_ifs <;> rfl

theorem TokenEntries.mintForSession?_eq {entries : TokenEntries} {sha256 : List UInt8 → Digest}
    {ttl : Duration} {session : SessionName} {generation : Generation}
    {raw : Option (List UInt8)} (h : Instant.fits epoch (now + ttl) = true) :
    entries.mintForSession? epoch sha256 ttl session generation raw now =
      some (entries.mintForSession sha256 ttl session generation raw now) := by
  unfold mintForSession? mintForSession
  rw [Instant.add?_eq h]
  split_ifs
  · rfl
  · cases raw <;> rfl

/-- A live session whose absolute deadline does not fit stops the tick that examines it. -/
theorem Session.tickLocked?_eq_none (s : Session) (policy : SessionPolicy) (now : Instant)
    (halive : s.state.alive = true)
    (h : Instant.fits epoch (s.state.createdAt + policy.absoluteTtl) = false) :
    s.tickLocked? epoch policy now = none := by
  have hadd : Instant.add? epoch s.state.createdAt policy.absoluteTtl = none :=
    if_neg (by rw [h]; decide)
  unfold tickLocked?
  rw [halive, hadd]
  rfl

end Sums

/-! ## What an accepted projection says about its durations -/

namespace Config

/-- `SessionPolicy::from_config`. -/
def PtyConfig.sessionPolicy (config : PtyConfig) : SessionPolicy :=
  { SessionPolicy.default with
    detachedIdleTtl := .fromSecs config.detachedIdleTtl
    absoluteTtl := .fromSecs config.absoluteSessionTtl }

/-- The order of the durations of a projection. -/
structure PtyConfig.Ordered (config : PtyConfig) : Prop where
  lead : ttlWarningLead < config.detachedIdleTtl
  idle : config.detachedIdleTtl ≤ config.absoluteSessionTtl
  token : config.attachTokenTtl ≤ config.absoluteSessionTtl
  tokenPos : 0 < config.attachTokenTtl
  sessions : config.maxSessions ≠ 0

theorem parseDuration_pos {key : String} {value : Text} {seconds : Nat}
    (h : parseDuration key value = .ok seconds) : 0 < seconds := by
  simp only [parseDuration, bind_eq_ok, ensure_eq_ok] at h
  obtain ⟨_, -, amount, -, _, hne, h⟩ := h
  have hpos : 0 < amount := Nat.pos_of_ne_zero (of_decide_eq_true hne)
  have hmul : ∀ b, 0 < b → checkedMul amount b = some seconds → 0 < seconds := by
    intro b hb hmul
    unfold checkedMul at hmul
    split_ifs at hmul
    rw [← Option.some.inj hmul]
    exact Nat.mul_pos hpos hb
  split_ifs at h <;> simp only [bind_eq_ok, orElse_eq_ok, Except.ok.injEq, exists_eq_left'] at h
  · rwa [← Option.some.inj h]
  · exact hmul _ (by decide) h
  · exact hmul _ (by decide) h
  · exact hmul _ (by decide) h
  · obtain ⟨_, h, -⟩ := h
    cases h

variable {host : Host} {input : Text} {config : PtyConfig}

theorem ordered_of_validateProjection (h : validateProjection host input = .ok config) :
    config.Ordered := by
  rw [validateProjection, bind_eq_ok] at h
  obtain ⟨pty, -, h⟩ := h
  split at h
  · cases h
  · simp only [bind_eq_ok] at h
    obtain ⟨rawHash, -, _, -, _, -, pty', -, config', hknobs, _, hlifecycle, _, hadmission, h⟩ := h
    obtain rfl := Except.ok.inj h
    simp only [validateLifecycle, bind_eq_ok, ensure_eq_ok, decide_eq_true_eq] at hlifecycle
    obtain ⟨_, -, _, hlead, _, htoken, _, hidle, -⟩ := hlifecycle
    simp only [validateAdmission, bind_eq_ok, ensure_eq_ok, decide_eq_true_eq] at hadmission
    obtain ⟨_, hsessions, -⟩ := hadmission
    simp only [readKnobs, durationWithDefault, bind_eq_ok] at hknobs
    obtain ⟨_, -, _, -, _, -, _, -, _, -, _, -, attachTokenTtl, ⟨_, -, hattach⟩, _, -, _, -, _, -,
      _, -, _, -, _, -, _, -, _, -, _, -, hknobs⟩ := hknobs
    obtain rfl := Except.ok.inj hknobs
    exact ⟨hlead, hidle, htoken, parseDuration_pos hattach, hsessions⟩

/-- An accepted projection makes a policy that `SessionManager::new` accepts. -/
theorem validate_sessionPolicy (h : config.Ordered) : config.sessionPolicy.validate = .ok () := by
  have hidle : config.detachedIdleTtl ≠ 0 := (Nat.zero_le _).trans_lt h.lead |>.ne'
  have habsolute : config.absoluteSessionTtl ≠ 0 :=
    ((Nat.pos_of_ne_zero hidle).trans_le h.idle).ne'
  have hping : ¬ (SessionPolicy.default.pingInterval < .fromSecs 15 ∨
      SessionPolicy.default.pingInterval > .fromSecs 30) := by decide
  have hmissed : ¬ ¬ (2 ≤ SessionPolicy.default.missedPingsBeforeDetached ∧
      SessionPolicy.default.missedPingsBeforeDetached ≤ 3) := by decide
  have httls : ¬ (Duration.fromSecs config.detachedIdleTtl = 0 ∨
      Duration.fromSecs config.absoluteSessionTtl = 0) :=
    not_or.mpr ⟨Nat.mul_ne_zero hidle (by decide), Nat.mul_ne_zero habsolute (by decide)⟩
  have htakeovers : ¬ (SessionPolicy.default.maxTakeoversPerWindow = 0 ∨
      SessionPolicy.default.takeoverWindow = 0) := by decide
  calc config.sessionPolicy.validate = _ := if_neg hping
    _ = _ := if_neg hmissed
    _ = _ := if_neg httls
    _ = .ok () := if_neg htakeovers

/-- What `main` builds a manager with from an accepted projection. -/
def PtyConfig.env (config : PtyConfig) (h : config.Ordered) (tierBestEffort : Bool)
    (sha256 : List UInt8 → Digest) : Env where
  config :=
    { maxSessions := config.maxSessions
      scrollbackKib := config.scrollbackKib
      scrollbackReplay := config.scrollbackReplay
      attachTokenTtl := .fromSecs config.attachTokenTtl }
  policy := config.sessionPolicy
  policyValid := validate_sessionPolicy h
  tierBestEffort := tierBestEffort
  sha256 := sha256

end Config

/-! ## Runs of the runtime with its sums checked -/

/-- The next section of a task adds up a deadline that no `Instant` can hold; `raw` is what the
OS RNG returns to it. -/
def Task.panics (epoch : Nat) (env : Env) (sh : Shared) (raw : Option (List UInt8)) : Task → Bool
  | .op (.tickNext { now := now, rest := sid :: _, .. }) =>
    sh.heap[sid]?.any fun s => (s.tickLocked? epoch env.policy now).isNone
  | .op (.mint sp _) =>
    (sh.tokens.mintForSession? epoch env.sha256 env.config.attachTokenTtl sp.name sp.generation raw
      sh.now).isNone
  | .op (.renewMint name _ generation) =>
    (sh.tokens.mintForSession? epoch env.sha256 env.config.attachTokenTtl name generation raw
      sh.now).isNone
  | _ => false

/-- Until a time, no run of the runtime comes to a deadline that an `Instant` cannot hold. -/
def Env.KeepsDeadlines (env : Env) (epoch : Nat) (horizon : Instant) : Prop :=
  ∀ ls w, Trace.run (World.next env) World.init ls = some w → w.shared.now ≤ horizon →
    ∀ t ∈ w.tasks, ∀ raw, t.panics epoch env w.shared raw = false

section Runs

variable {env : Env} {epoch : Nat} {horizon : Instant}

/-- Where the longest deadline fits, every other one does. -/
theorem Env.keepsDeadlines_of_fits
    (hlead : env.policy.ttlWarningLead ≤ env.policy.absoluteTtl)
    (hidle : env.policy.detachedIdleTtl ≤ env.policy.absoluteTtl)
    (htoken : env.config.attachTokenTtl ≤ env.policy.absoluteTtl)
    (h : Instant.fits epoch (horizon + env.policy.absoluteTtl) = true) :
    env.KeepsDeadlines epoch horizon := by
  intro ls w hrun hnow t ht raw
  have hfits : ∀ t d, t ≤ horizon → d ≤ env.policy.absoluteTtl →
      Instant.fits epoch (t + d) = true :=
    fun t d ht hd => Instant.fits_of_le h (Nat.add_le_add ht hd)
  have hd := World.dated_run hrun
  unfold Task.panics
  split
  · rename_i now sid rest actions
    have hread : now ≤ horizon := (hd.ticks _ ht now rfl).trans hnow
    cases hs : w.shared.heap[sid]? with
    | none => rfl
    | some s =>
      have hdates := hd.shared s (List.mem_of_getElem? hs)
      have hsums := s.tickLocked?_eq env.policy now
        (hfits _ _ (hdates.createdAt.trans hnow) le_rfl)
        (hfits _ _ (hdates.lastActivity.trans hnow) hidle) (hfits _ _ hread hlead)
      rw [Option.any_some, hsums]
      rfl
  · rw [TokenEntries.mintForSession?_eq (hfits _ _ hnow htoken)]
    rfl
  · rw [TokenEntries.mintForSession?_eq (hfits _ _ hnow htoken)]
    rfl
  · rfl

/-- At the horizon a session is spawned, and the first tick examines it. -/
def tickAtHorizon (horizon : Duration) : List World.Label :=
  [.env horizon, .call (.op (.adminCreate .sh .default)), .step 0 {}, .step 0 {}, .step 0 {},
    .step 0 {}, .step 0 {}, .call (.op .tick), .step 2 {}, .step 2 {}]

theorem tickAtHorizon_runs (env : Env) (horizon : Duration) (hsessions : env.config.maxSessions ≠ 0)
    (htoken : env.config.attachTokenTtl ≠ 0) :
    ∃ w s, Trace.run (World.next env) World.init (tickAtHorizon horizon) = some w ∧
      w.shared.now = horizon ∧
      .op (.tickNext { now := horizon, rest := [0], actions := [] }) ∈ w.tasks ∧
      w.shared.heap[0]? = some s ∧ s.state.createdAt = horizon ∧ s.state.alive = true := by
  obtain ⟨⟨maxSessions, kib, replay, ttl⟩, policy, hvalid, tier, sha256⟩ := env
  obtain ⟨n, rfl⟩ := Nat.exists_eq_succ_of_ne_zero hsessions
  obtain ⟨m, rfl⟩ := Nat.exists_eq_succ_of_ne_zero htoken
  have hrun : (Trace.run (World.next ⟨⟨n + 1, kib, replay, m + 1⟩, policy, hvalid, tier, sha256⟩)
      World.init (tickAtHorizon horizon)).map (fun w => (w.shared.now, w.tasks[2]?,
        w.shared.heap[0]?.map fun s => (s.state.createdAt, s.state.alive))) =
      some (0 + horizon, some (.op (.tickNext { now := 0 + horizon, rest := [0], actions := [] })),
        some (0 + horizon, true)) := by
    with_unfolding_all rfl
  rw [Nat.zero_add] at hrun
  obtain ⟨w, hw, hseen⟩ := Option.map_eq_some_iff.mp hrun
  obtain ⟨hnow, hseen⟩ := Prod.mk.inj hseen
  obtain ⟨htask, hheap⟩ := Prod.mk.inj hseen
  obtain ⟨s, hs, hdates⟩ := Option.map_eq_some_iff.mp hheap
  obtain ⟨hcreated, halive⟩ := Prod.mk.inj hdates
  exact ⟨w, s, hw, hnow, List.mem_of_getElem? htask, hs, hcreated, halive⟩

/-- Where the absolute deadline does not fit, a tick panics. -/
theorem Env.not_keepsDeadlines_of_overflow (hsessions : env.config.maxSessions ≠ 0)
    (htoken : env.config.attachTokenTtl ≠ 0)
    (h : Instant.fits epoch (horizon + env.policy.absoluteTtl) = false) :
    ¬ env.KeepsDeadlines epoch horizon := by
  intro hkeeps
  obtain ⟨w, s, hrun, hnow, ht, hs, hcreated, halive⟩ :=
    tickAtHorizon_runs env horizon hsessions htoken
  have hquiet := hkeeps _ w hrun hnow.le _ ht none
  have hpanic := s.tickLocked?_eq_none env.policy horizon halive (hcreated ▸ h)
  simp [Task.panics, hs, hpanic] at hquiet

end Runs

namespace Config

/-- Under an accepted projection no deadline overflows, whatever the runtime does, exactly as
long as the absolute TTL of a session spawned last can be added to its time. -/
theorem keepsDeadlines_iff {host : Host} {input : Text} {config : PtyConfig}
    (h : validateProjection host input = .ok config) (tierBestEffort : Bool)
    (sha256 : List UInt8 → Digest) (epoch : Nat) (horizon : Instant) :
    (config.env (ordered_of_validateProjection h) tierBestEffort sha256).KeepsDeadlines
        epoch horizon ↔
      Instant.fits epoch (horizon + Duration.fromSecs config.absoluteSessionTtl) = true := by
  have ho := ordered_of_validateProjection h
  constructor
  · intro hkeeps
    by_contra hoverflow
    refine Env.not_keepsDeadlines_of_overflow ho.sessions ?_ (Bool.eq_false_iff.mpr hoverflow) hkeeps
    exact Nat.mul_ne_zero ho.tokenPos.ne' (by decide)
  · intro hfits
    refine Env.keepsDeadlines_of_fits ?_ ?_ ?_ hfits
    · exact Nat.mul_le_mul_right _ (ho.lead.le.trans ho.idle)
    · exact Nat.mul_le_mul_right _ ho.idle
    · exact Nat.mul_le_mul_right _ ho.token

/-- The text of a projection that sets `absolute_session_ttl` to `ttl`. -/
def absoluteTtlProjection (ttl : String) : Text :=
  "[pty]\nadmin_credential_hash = \"sha256:".toList ++ List.replicate 64 '0' ++
    "\"\nabsolute_session_ttl = \"".toList ++ ttl.toList ++ "\"\n".toList

/-- A host that parses this text. -/
def absoluteTtlHost (ttl : String) : Host where
  fromStr input :=
    if input = absoluteTtlProjection ttl then
      .ok (.table [("pty", .table
        [("admin_credential_hash", .string ("sha256:".toList ++ List.replicate 64 '0')),
          ("absolute_session_ttl", .string ttl.toList)])])
    else .error ""
  var _ := none
  debug s := "\"" ++ s ++ "\""

/-- The configuration with every other knob at its default. -/
def absoluteTtlConfig (seconds : Nat) : PtyConfig :=
  { splitReferenceConfig "" with absoluteSessionTtl := seconds, seedDir := [] }

/-- Sessions of twelve hours, for a year, in a process that starts one day after its host. -/
theorem keepsDeadlines_twelveHours :
    ∃ h : validateProjection (absoluteTtlHost "12h") (absoluteTtlProjection "12h") =
        .ok (absoluteTtlConfig 43200),
      ((absoluteTtlConfig 43200).env (ordered_of_validateProjection h) false id).KeepsDeadlines
        (Duration.fromSecs 86400) (Duration.fromSecs 31536000) := by
  have h : validateProjection (absoluteTtlHost "12h") (absoluteTtlProjection "12h") =
      .ok (absoluteTtlConfig 43200) := by decide +kernel
  have hfits : Instant.fits (Duration.fromSecs 86400)
      (Duration.fromSecs 31536000 + Duration.fromSecs 43200) = true := by decide
  exact ⟨h, (keepsDeadlines_iff h false id _ _).mpr hfits⟩

/-- The largest number of seconds is accepted, and the first tick adds it to a time. -/
theorem longestTtl_overflows :
    ∃ h : validateProjection (absoluteTtlHost "18446744073709551615s")
        (absoluteTtlProjection "18446744073709551615s") =
          .ok (absoluteTtlConfig 18446744073709551615),
      ¬ ((absoluteTtlConfig 18446744073709551615).env (ordered_of_validateProjection h) false
        id).KeepsDeadlines 0 0 := by
  refine ⟨by decide +kernel, ?_⟩
  exact Env.not_keepsDeadlines_of_overflow (by decide) (by decide) (by decide)

end Config

end OpenabPty
