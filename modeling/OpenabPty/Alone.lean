import OpenabPty.AdminAuth

/-!
# Admin calls with nobody beside them

`verify` and `reject_unauthenticated` as functions. A call that takes its steps without another one
in between, whenever it takes them, does what the function does at the times at which it reads the
clock.
-/

namespace OpenabPty

namespace AdminAuthenticator

/-- `count_or_throttle`; the clock was read at `begun` and, if the failure counts, at `ended`. -/
def countOrThrottle (a : AdminAuthenticator) (source : Option Text) (detail : String)
    (failure : AdminAuthFailure) (begun ended : Instant) : AdminAuthenticator × AdminAuthFailure :=
  match a.blockedFor source begun with
  | (a, some retryAfter) =>
    let millis := Duration.asMillis retryAfter
    (a.auditFailure source s!"{detail}; throttled; retry_after_ms={millis}", .throttled retryAfter)
  | (a, none) => (a.recordFailure source detail ended, failure)

/-- `verify` of a credential, or `reject_unauthenticated` without one. -/
def answer (sha256 : List UInt8 → Digest) (a : AdminAuthenticator)
    (credential : Option (List UInt8)) (source : Option Text) (begun ended : Instant) :
    AdminAuthenticator × Except AdminAuthFailure Unit :=
  match credential with
  | none =>
    let answered := a.countOrThrottle source "missing_or_malformed_authorization_header" .invalid
      begun ended
    (answered.1, .error answered.2)
  | some presented =>
    if maxAdminCredentialBytes < presented.length then
      let answered := a.countOrThrottle source "credential_too_large" .tooLarge begun ended
      (answered.1, .error answered.2)
    else if a.available = 0 then
      (a.auditFailure source "verification_concurrency_cap", .error .busy)
    else if sha256 presented = a.verifier then
      ({ a with failures := a.failures.remove (sourceKey source) }, .ok ())
    else
      let answered := a.countOrThrottle source "invalid_credential" .invalid begun ended
      (answered.1, .error answered.2)

/-- The permits and the clock make no difference to what is recorded. -/
theorem recordFailure_with (a : AdminAuthenticator) (source : Option Text) (detail : String)
    (ended : Instant) (available : Nat) (now : Instant) :
    { a with available, now }.recordFailure source detail ended =
      { a.recordFailure source detail ended with available, now } := by
  unfold recordFailure
  dsimp only
  split_ifs <;> rfl

/-- The permits and the clock make no difference to a failure. -/
theorem countOrThrottle_with (a : AdminAuthenticator) (source : Option Text) (detail : String)
    (failure : AdminAuthFailure) (begun ended : Instant) (available : Nat) (now : Instant) :
    { a with available, now }.countOrThrottle source detail failure begun ended =
      ({ (a.countOrThrottle source detail failure begun ended).1 with available, now },
        (a.countOrThrottle source detail failure begun ended).2) := by
  have hrecord := fun a => recordFailure_with a source detail ended available now
  unfold countOrThrottle blockedFor
  dsimp only
  cases a.failures.lookup (sourceKey source) with
  | none => exact congrArg (·, failure) (hrecord a)
  | some entry =>
    dsimp only
    cases entry.blockedUntil.filter fun deadline => begun < deadline with
    | none =>
      exact congrArg (·, failure) (hrecord { a with
        failures := a.failures.put (sourceKey source) { entry with lastSeen := begun } })
    | some deadline => rfl

theorem countOrThrottle_available (a : AdminAuthenticator) (source : Option Text)
    (detail : String) (failure : AdminAuthFailure) (begun ended : Instant) :
    (a.countOrThrottle source detail failure begun ended).1.available = a.available :=
  congrArg (·.1.available)
    (countOrThrottle_with a source detail failure begun ended a.available a.now)

theorem countOrThrottle_now (a : AdminAuthenticator) (source : Option Text) (detail : String)
    (failure : AdminAuthFailure) (begun ended now : Instant) :
    { a with now }.countOrThrottle source detail failure begun ended =
      ({ (a.countOrThrottle source detail failure begun ended).1 with now },
        (a.countOrThrottle source detail failure begun ended).2) := by
  rw [countOrThrottle_with a source detail failure begun ended a.available now]
  rw [← countOrThrottle_available a source detail failure begun ended]

theorem recordFailure_now (a : AdminAuthenticator) (source : Option Text) (detail : String)
    (now : Instant) : (a.recordFailure source detail now).now = a.now := by
  unfold recordFailure
  dsimp only
  split_ifs <;> rfl

theorem blockedFor_now (a : AdminAuthenticator) (source : Option Text) (now : Instant) :
    (a.blockedFor source now).1.now = a.now := by
  unfold blockedFor
  split <;> rfl

end AdminAuthenticator

namespace AdminCall

/-- The permit of a call goes back. -/
def giveBack (held : Bool) (a : AdminAuthenticator) : AdminAuthenticator :=
  if held then { a with available := a.available + 1 } else a

/-- What is still to come of a call: what it will have done to the authenticator, and its result. -/
def rest (sha256 : List UInt8 → Digest) (a : AdminAuthenticator) (call : AdminCall)
    (begun ended : Instant) : AdminAuthenticator × Except AdminAuthFailure Unit :=
  let fails (held : Bool) (detail : String) (failure : AdminAuthFailure) (begun : Instant) :
      AdminAuthenticator × Except AdminAuthFailure Unit :=
    let counted := a.countOrThrottle call.source detail failure begun ended
    (giveBack held counted.1, .error counted.2)
  let cleared := { a with failures := a.failures.remove (sourceKey call.source) }
  match call.pc with
  | .start => a.answer sha256 call.credential call.source begun ended
  | .acquire =>
    if a.available = 0 then
      (a.auditFailure call.source "verification_concurrency_cap", .error .busy)
    else if call.credential.map sha256 = some a.verifier then (cleared, .ok ())
    else fails false "invalid_credential" .invalid begun
  | .digest =>
    if call.credential.map sha256 = some a.verifier then (giveBack true cleared, .ok ())
    else fails true "invalid_credential" .invalid begun
  | .clear => (giveBack true cleared, .ok ())
  | .readClock detail failure held => fails held detail failure begun
  | .blockedFor detail failure held now => fails held detail failure now
  | .countClock detail failure held =>
    (giveBack held (a.recordFailure call.source detail ended), .error failure)
  | .record detail failure held now =>
    (giveBack held (a.recordFailure call.source detail now), .error failure)
  | .release result => (giveBack true a, result)
  | .returned result => (a, result)

variable {sha256 : List UInt8 → Digest} {a a' : AdminAuthenticator} {call call' : AdminCall}

/-- What is still to come does not depend on when it is asked. -/
theorem rest_now (begun ended now : Instant) : call.rest sha256 { a with now } begun ended =
    ({ (call.rest sha256 a begun ended).1 with now }, (call.rest sha256 a begun ended).2) := by
  obtain ⟨credential, source, pc⟩ := call
  have hcount := fun detail failure begun => a.countOrThrottle_now source detail failure begun ended
    now
  have hrecord : ∀ detail ended, { a with now }.recordFailure source detail ended =
      { a.recordFailure source detail ended with now } := by
    intro detail ended
    rw [a.recordFailure_with source detail ended a.available now]
    rw [← AdminAuthenticator.recordFailure_available a source detail ended]
  cases pc with
  | start =>
    cases credential with
    | none =>
      simp only [rest, AdminAuthenticator.answer, hcount]
    | some presented =>
      simp only [rest, AdminAuthenticator.answer, hcount]
      split_ifs <;> rfl
  | acquire =>
    simp only [rest, hcount]
    split_ifs <;> rfl
  | digest =>
    simp only [rest, hcount]
    split_ifs <;> rfl
  | clear => rfl
  | readClock detail failure held =>
    simp only [rest, hcount]
    cases held <;> rfl
  | blockedFor detail failure held now =>
    simp only [rest, hcount]
    cases held <;> rfl
  | countClock detail failure held =>
    simp only [rest, hrecord]
    cases held <;> rfl
  | record detail failure held now =>
    simp only [rest, hrecord]
    cases held <;> rfl
  | release result => rfl
  | returned result => rfl

/-- A step of a call does what was to come. -/
theorem rest_step (h : call.step sha256 a = some (a', call')) {begun' ended' : Instant}
    (hbegun : a.now ≤ begun') (hended : begun' ≤ ended') :
    a'.now = a.now ∧ ∃ begun ended, a.now ≤ begun ∧ begun ≤ ended ∧ ended ≤ ended' ∧
      call.rest sha256 a begun ended = call'.rest sha256 a' begun' ended' := by
  have hkeep : ∀ b, call.rest sha256 a begun' ended' = b →
      ∃ begun ended, a.now ≤ begun ∧ begun ≤ ended ∧ ended ≤ ended' ∧
        call.rest sha256 a begun ended = b :=
    fun b heq => ⟨begun', ended', hbegun, hended, Nat.le_refl _, heq⟩
  obtain ⟨credential, source, pc⟩ := call
  cases pc with
  | start =>
    cases credential with
    | none =>
      obtain ⟨rfl, rfl⟩ := Prod.mk.inj (Option.some.inj h)
      exact ⟨rfl, hkeep _ rfl⟩
    | some presented =>
      simp only [step] at h
      split_ifs at h with hlong
      all_goals obtain ⟨rfl, rfl⟩ := Prod.mk.inj (Option.some.inj h)
      · exact ⟨rfl, hkeep _ (if_pos hlong)⟩
      · refine ⟨rfl, hkeep _ ((if_neg hlong).trans ?_)⟩
        simp [rest, goto, giveBack]
  | acquire =>
    simp only [step] at h
    split_ifs at h with hbusy
    all_goals obtain ⟨rfl, rfl⟩ := Prod.mk.inj (Option.some.inj h)
    · exact ⟨rfl, hkeep _ (if_pos hbusy)⟩
    · refine ⟨rfl, hkeep _ ((if_neg hbusy).trans ?_)⟩
      -- The permit that it takes goes back.
      have hback : a.available - 1 + 1 = a.available := Nat.succ_pred_eq_of_ne_zero hbusy
      have hcount := a.countOrThrottle_with source "invalid_credential" .invalid begun' ended'
        (a.available - 1) a.now
      have hsame := a.countOrThrottle_with source "invalid_credential" .invalid begun' ended'
        a.available a.now
      by_cases hcorrect : credential.map sha256 = some a.verifier
      · simp [rest, goto, giveBack, hcorrect, hback]
      · simp only [rest, goto, giveBack, if_neg hcorrect, hcount, if_true, hback]
        exact congrArg (fun c => (c.1, Except.error c.2)) hsame
  | digest =>
    simp only [step] at h
    split_ifs at h with hcorrect
    all_goals obtain ⟨rfl, rfl⟩ := Prod.mk.inj (Option.some.inj h)
    · exact ⟨rfl, hkeep _ (if_pos hcorrect)⟩
    · exact ⟨rfl, hkeep _ (if_neg hcorrect)⟩
  | clear =>
    obtain ⟨rfl, rfl⟩ := Prod.mk.inj (Option.some.inj h)
    exact ⟨rfl, hkeep _ rfl⟩
  | readClock detail failure held =>
    obtain ⟨rfl, rfl⟩ := Prod.mk.inj (Option.some.inj h)
    exact ⟨rfl, a.now, ended', Nat.le_refl _, Nat.le_trans hbegun hended, Nat.le_refl _, rfl⟩
  | blockedFor detail failure held now =>
    have hnow := a.blockedFor_now source now
    have hrest : rest sha256 a ⟨credential, source, .blockedFor detail failure held now⟩ begun'
        ended' = (giveBack held (a.countOrThrottle source detail failure now ended').1,
          .error (a.countOrThrottle source detail failure now ended').2) := rfl
    unfold AdminAuthenticator.countOrThrottle at hrest
    simp only [step] at h
    generalize a.blockedFor source now = blocked at h hnow hrest
    match blocked with
    | (a₁, some retryAfter) =>
      obtain ⟨rfl, rfl⟩ := Prod.mk.inj (Option.some.inj h)
      refine ⟨hnow, hkeep _ (hrest.trans ?_)⟩
      cases held <;> rfl
    | (a₁, none) =>
      obtain ⟨rfl, rfl⟩ := Prod.mk.inj (Option.some.inj h)
      exact ⟨hnow, hkeep _ hrest⟩
  | countClock detail failure held =>
    obtain ⟨rfl, rfl⟩ := Prod.mk.inj (Option.some.inj h)
    exact ⟨rfl, a.now, a.now, Nat.le_refl _, Nat.le_refl _, Nat.le_trans hbegun hended, rfl⟩
  | record detail failure held now =>
    obtain ⟨rfl, rfl⟩ := Prod.mk.inj (Option.some.inj h)
    cases held
    · exact ⟨AdminAuthenticator.recordFailure_now a source detail now, hkeep _ rfl⟩
    · exact ⟨AdminAuthenticator.recordFailure_now a source detail now, hkeep _ rfl⟩
  | release result =>
    obtain ⟨rfl, rfl⟩ := Prod.mk.inj (Option.some.inj h)
    exact ⟨rfl, hkeep _ rfl⟩
  | returned result => cases h

/-- A call that has nobody beside it answers as `answer` does, at the times at which it reads the
clock. -/
theorem answer_alone {ls : List (Threads.Label AdminCall Unit Duration)}
    {result : Except AdminAuthFailure Unit} (hstart : call.pc = .start)
    (halone : ∀ other, .call other ∉ ls)
    (hrun : Trace.run (adminCalls sha256).next { shared := a, tasks := [call] } ls =
      some { shared := a', tasks := [call'] }) (hreturned : call'.pc = .returned result) :
    ∃ begun ended, a.now ≤ begun ∧ begun ≤ ended ∧ ended ≤ a'.now ∧
      a.answer sha256 call.credential call.source begun ended =
        ({ a' with now := a.now }, result) := by
  have hrest : ∀ {ls a call}, (∀ other, .call other ∉ ls) →
      Trace.run (adminCalls sha256).next { shared := a, tasks := [call] } ls =
        some { shared := a', tasks := [call'] } →
      ∃ begun ended, a.now ≤ begun ∧ begun ≤ ended ∧ ended ≤ a'.now ∧
        call.rest sha256 a begun ended = ({ a' with now := a.now }, result) := by
    intro ls
    induction ls with
    | nil =>
      intro a call _ hrun
      obtain ⟨rfl, htasks⟩ := Threads.State.mk.inj (Option.some.inj hrun)
      obtain ⟨rfl, -⟩ := List.cons.inj htasks
      refine ⟨a.now, a.now, Nat.le_refl _, Nat.le_refl _, Nat.le_refl _, ?_⟩
      unfold rest
      rw [hreturned]
    | cons l ls ih =>
      intro a call halone hrun
      obtain ⟨v, hv, hrun⟩ := Option.bind_eq_some_iff.mp hrun
      have hlater : ∀ other, .call other ∉ ls := fun other hmem =>
        halone other (List.mem_cons_of_mem _ hmem)
      cases l with
      | call other => exact absurd List.mem_cons_self (halone other)
      | step i c =>
        obtain ⟨t, a₁, call₁, new, ht, hstep, rfl⟩ := Threads.next_step hv
        obtain ⟨⟨a₂, call₂⟩, hcall, heq⟩ := Option.map_eq_some_iff.mp hstep
        obtain ⟨rfl, hcalls⟩ := Prod.mk.inj heq
        obtain ⟨rfl, rfl⟩ := Prod.mk.inj hcalls
        cases i with
        | succ i => simp at ht
        | zero =>
          obtain rfl := Option.some.inj ht
          have hnow := (rest_step hcall (Nat.le_refl _) (Nat.le_refl _)).1
          obtain ⟨begun', ended', hbegun', hle', hended', hrest'⟩ := ih hlater hrun
          obtain ⟨-, begun, ended, hbegun, hle, hended, hrest⟩ :=
            rest_step hcall (hnow ▸ hbegun') hle'
          refine ⟨begun, ended, hbegun, hle, Nat.le_trans hended hended', ?_⟩
          rw [hrest, hrest', hnow]
      | env d =>
        obtain rfl := Threads.next_env hv
        obtain ⟨begun, ended, hbegun, hle, hended, hrest⟩ := ih hlater hrun
        refine ⟨begun, ended, Nat.le_trans (Nat.le_add_right _ _) hbegun, hle, hended, ?_⟩
        calc call.rest sha256 a begun ended
            = ({ (call.rest sha256 a begun ended).1 with now := a.now },
                (call.rest sha256 a begun ended).2) := rest_now begun ended a.now
          _ = ({ a' with now := a.now }, result) := ?_
        have hlate := (rest_now begun ended (a.now + d)).symm.trans hrest
        exact congrArg (fun r => ({ r.1 with now := a.now }, r.2)) hlate
  obtain ⟨begun, ended, hbegun, hle, hended, heq⟩ := hrest halone hrun
  refine ⟨begun, ended, hbegun, hle, hended, ?_⟩
  unfold rest at heq
  rwa [hstart] at heq

end AdminCall

end OpenabPty
