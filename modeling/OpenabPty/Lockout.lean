import OpenabPty.AdminAuth

/-!
# The operator is not locked out

Neither a block nor the traffic of other sources refuses the correct credential. The cap on
the verifications in flight does: a call that finds every permit taken is turned away before
its credential is looked at.
-/

namespace OpenabPty

variable {sha256 : List UInt8 → Digest}

/-- The call presents the credential of this verifier, within the size bound. -/
def AdminCall.Correct (sha256 : List UInt8 → Digest) (verifier : List UInt8) (call : AdminCall) :
    Prop :=
  ∃ presented, call.credential = some presented ∧
    presented.length ≤ maxAdminCredentialBytes ∧ sha256 presented = verifier

/-- The calls that hold a permit. -/
def permitsHeld (calls : List AdminCall) : Nat := calls.countP AdminCall.holdsPermit

/-- How many steps a call of the correct credential has left at most. -/
def AdminCall.stepsLeft (call : AdminCall) : Nat :=
  match call.pc with
  | .start => 5
  | .acquire => 4
  | .digest => 3
  | .clear => 2
  | .release _ => 1
  | _ => 0

/-- Where a call of the correct credential may be: on the way to `Ok`, or turned away. -/
inductive AdminPc.Welcome : AdminPc → Prop where
  | start : Welcome .start
  | acquire : Welcome .acquire
  | digest : Welcome .digest
  | clear : Welcome .clear
  | release : Welcome (.release (.ok ()))
  | ok : Welcome (.returned (.ok ()))
  | busy : Welcome (.returned (.error .busy))

/-- What a run never loses: the verifier, the permits, and the calls of the correct
credential. -/
structure AdminSound (sha256 : List UInt8 → Digest) (verifier : List UInt8) (maxInflight : Nat)
    (w : Threads.State AdminAuthenticator AdminCall) : Prop where
  sameVerifier : w.shared.verifier = verifier
  permits : w.shared.available + permitsHeld w.tasks = maxInflight
  welcome : ∀ call ∈ w.tasks, call.Correct sha256 verifier → call.pc.Welcome

/-- A call of the correct credential has returned `Ok`, or `Busy`. While it has not returned
it can take its next step, has at most `stepsLeft` of them left, and returns `Busy` with the
next one exactly when it wants a permit and the other calls hold all of them. -/
def NotLockedOut (sha256 : List UInt8 → Digest) (verifier : List UInt8) (maxInflight : Nat)
    (w : Threads.State AdminAuthenticator AdminCall) : Prop :=
  ∀ i call, w.tasks[i]? = some call → call.Correct sha256 verifier →
    (∃ result, call.pc = .returned result ∧ (result = .ok () ∨ result = .error .busy)) ∨
      ∃ w' call', (adminCalls sha256).next w (.step i ()) = some w' ∧
        w'.tasks[i]? = some call' ∧ call'.stepsLeft < call.stepsLeft ∧
        (call'.pc = .returned (.error .busy) ↔
          call.pc = .acquire ∧ permitsHeld w.tasks = maxInflight)

/-! ## One step of one call -/

/-- A step keeps the verifier and what the call presents, and moves a permit between the
semaphore and the call. -/
theorem AdminCall.step_spec {a a' : AdminAuthenticator} {call call' : AdminCall}
    (h : call.step sha256 a = some (a', call')) :
    a'.verifier = a.verifier ∧ call'.credential = call.credential ∧
      a'.available + (if call'.holdsPermit then 1 else 0) =
        a.available + (if call.holdsPermit then 1 else 0) := by
  obtain ⟨credential, source, pc⟩ := call
  cases pc with
  | start =>
    simp only [step] at h
    cases credential with
    | none =>
      obtain ⟨rfl, rfl⟩ := Prod.mk.inj (Option.some.inj h)
      exact ⟨rfl, rfl, rfl⟩
    | some presented =>
      dsimp only at h
      split at h <;> obtain ⟨rfl, rfl⟩ := Prod.mk.inj (Option.some.inj h) <;> exact ⟨rfl, rfl, rfl⟩
  | acquire =>
    simp only [step] at h
    split at h
    · obtain ⟨rfl, rfl⟩ := Prod.mk.inj (Option.some.inj h)
      exact ⟨rfl, rfl, rfl⟩
    · rename_i hfree
      obtain ⟨rfl, rfl⟩ := Prod.mk.inj (Option.some.inj h)
      refine ⟨rfl, rfl, ?_⟩
      simp only [goto, holdsPermit, if_true, Bool.false_eq_true, if_false]
      omega
  | digest =>
    simp only [step] at h
    split at h <;> obtain ⟨rfl, rfl⟩ := Prod.mk.inj (Option.some.inj h) <;> exact ⟨rfl, rfl, rfl⟩
  | clear =>
    obtain ⟨rfl, rfl⟩ := Prod.mk.inj (Option.some.inj h)
    exact ⟨rfl, rfl, rfl⟩
  | readClock detail failure held =>
    obtain ⟨rfl, rfl⟩ := Prod.mk.inj (Option.some.inj h)
    exact ⟨rfl, rfl, rfl⟩
  | blockedFor detail failure held now =>
    have hverifier := a.blockedFor_verifier source now
    have havailable := a.blockedFor_available source now
    simp only [step] at h
    cases hblocked : a.blockedFor source now with
    | mk b retryAfter =>
      rw [hblocked] at h hverifier havailable
      dsimp only at hverifier havailable
      cases retryAfter with
      | none =>
        obtain ⟨rfl, rfl⟩ := Prod.mk.inj (Option.some.inj h)
        refine ⟨hverifier, rfl, ?_⟩
        rw [havailable]
        rfl
      | some retryAfter =>
        obtain ⟨rfl, rfl⟩ := Prod.mk.inj (Option.some.inj h)
        refine ⟨hverifier, by cases held <;> rfl, ?_⟩
        cases held <;> simp [leave, goto, holdsPermit, havailable]
  | countClock detail failure held =>
    obtain ⟨rfl, rfl⟩ := Prod.mk.inj (Option.some.inj h)
    exact ⟨rfl, rfl, rfl⟩
  | record detail failure held now =>
    obtain ⟨rfl, rfl⟩ := Prod.mk.inj (Option.some.inj h)
    refine ⟨by simp, by cases held <;> rfl, ?_⟩
    cases held <;> simp [leave, goto, holdsPermit]
  | release result =>
    obtain ⟨rfl, rfl⟩ := Prod.mk.inj (Option.some.inj h)
    exact ⟨rfl, rfl, rfl⟩
  | returned result => cases h

/-- The step of a call of the correct credential: on towards `Ok`, unless it finds no permit
left. -/
theorem AdminCall.step_of_correct {a : AdminAuthenticator} {call : AdminCall}
    (hcorrect : call.Correct sha256 a.verifier) (hwelcome : call.pc.Welcome) :
    (∃ result, call.pc = .returned result ∧ (result = .ok () ∨ result = .error .busy)) ∨
      ∃ a' call', call.step sha256 a = some (a', call') ∧ call'.pc.Welcome ∧
        call'.stepsLeft < call.stepsLeft ∧
        (call'.pc = .returned (.error .busy) ↔ call.pc = .acquire ∧ a.available = 0) := by
  obtain ⟨presented, hcredential, hlen, hsha⟩ := hcorrect
  have hsmall : ¬ maxAdminCredentialBytes < presented.length := by omega
  generalize hpc : call.pc = pc at hwelcome
  cases hwelcome with
  | start =>
    right
    refine ⟨a, call.goto .acquire, ?_, .acquire, ?_, ?_⟩
    · simp only [step, hpc, hcredential, if_neg hsmall]
    · simp [stepsLeft, goto, hpc]
    · simp [goto]
  | acquire =>
    right
    by_cases hnone : a.available = 0
    · refine ⟨a.auditFailure call.source "verification_concurrency_cap",
        call.goto (.returned (.error .busy)), ?_, .busy, ?_, ?_⟩
      · simp only [step, hpc, if_pos hnone]
      · simp [stepsLeft, goto, hpc]
      · simp [goto, hnone]
    · refine ⟨{ a with available := a.available - 1 }, call.goto .digest, ?_, .digest, ?_, ?_⟩
      · simp only [step, hpc, if_neg hnone]
      · simp [stepsLeft, goto, hpc]
      · simp [goto, hnone]
  | digest =>
    right
    refine ⟨a, call.goto .clear, ?_, .clear, ?_, ?_⟩
    · simp only [step, hpc, hcredential, Option.map_some, hsha, if_true]
    · simp [stepsLeft, goto, hpc]
    · simp [goto]
  | clear =>
    right
    refine ⟨{ a with failures := a.failures.remove (sourceKey call.source) },
      call.goto (.release (.ok ())), ?_, .release, ?_, ?_⟩
    · simp only [step, hpc]
    · simp [stepsLeft, goto, hpc]
    · simp [goto]
  | release =>
    right
    refine ⟨{ a with available := a.available + 1 }, call.goto (.returned (.ok ())), ?_, .ok, ?_, ?_⟩
    · simp only [step, hpc]
    · simp [stepsLeft, goto, hpc]
    · simp [goto]
  | ok => exact .inl ⟨_, rfl, .inl rfl⟩
  | busy => exact .inl ⟨_, rfl, .inr rfl⟩

/-- So every step such a call takes keeps it on one of the two ways. -/
theorem AdminCall.welcome_step {a a' : AdminAuthenticator} {call call' : AdminCall}
    (hcorrect : call.Correct sha256 a.verifier) (hwelcome : call.pc.Welcome)
    (h : call.step sha256 a = some (a', call')) : call'.pc.Welcome := by
  rcases AdminCall.step_of_correct hcorrect hwelcome with
    ⟨result, hpc, -⟩ | ⟨b, c, hstep, hwelcome', -⟩
  · rw [step, hpc] at h
    cases h
  · obtain ⟨-, rfl⟩ := Prod.mk.inj (Option.some.inj (hstep.symm.trans h))
    exact hwelcome'

/-! ## Runs -/

theorem permitsHeld_set {calls : List AdminCall} {i : Nat} {call : AdminCall}
    (h : calls[i]? = some call) (call' : AdminCall) :
    permitsHeld (calls.set i call') + (if call.holdsPermit then 1 else 0) =
      permitsHeld calls + (if call'.holdsPermit then 1 else 0) := by
  obtain ⟨hlt, rfl⟩ := List.getElem?_eq_some_iff.mp h
  rw [permitsHeld, permitsHeld, List.countP_set hlt]
  have hpos : (if calls[i].holdsPermit then 1 else 0) ≤ calls.countP AdminCall.holdsPermit := by
    split
    · rename_i hheld
      exact List.countP_pos_iff.mpr ⟨_, List.getElem_mem hlt, hheld⟩
    · exact Nat.zero_le _
  omega

theorem AdminSound.initial (maxInflight : Nat) (verifier : List UInt8) (baseBackoff : Duration)
    (now : Instant) : AdminSound sha256 verifier maxInflight
      { shared := .new sha256 verifier maxInflight baseBackoff now, tasks := [] } where
  sameVerifier := rfl
  permits := rfl
  welcome _ hcall := absurd hcall List.not_mem_nil

theorem AdminSound.next {verifier : List UInt8} {maxInflight : Nat}
    {w w' : Threads.State AdminAuthenticator AdminCall} {l : Threads.Label AdminCall Unit Duration}
    (h : AdminSound sha256 verifier maxInflight w) (hnext : (adminCalls sha256).next w l = some w') :
    AdminSound sha256 verifier maxInflight w' := by
  cases l with
  | call call =>
    obtain ⟨hentry, rfl⟩ := Threads.next_call hnext
    have hstart : call.pc = .start := eq_of_beq hentry
    refine ⟨h.sameVerifier, ?_, ?_⟩
    · have hheld : call.holdsPermit = false := by
        rw [AdminCall.holdsPermit, hstart]
      simpa [permitsHeld, hheld] using h.permits
    · intro other hother hcorrect
      rcases List.mem_append.mp hother with hother | hother
      · exact h.welcome other hother hcorrect
      · obtain rfl := List.mem_singleton.mp hother
        rw [hstart]
        exact .start
  | step i c =>
    obtain ⟨call, a', call', new, hcall, hstep, rfl⟩ := Threads.next_step hnext
    obtain ⟨⟨b, call''⟩, hcallstep, heq⟩ := Option.map_eq_some_iff.mp hstep
    obtain ⟨rfl, rfl, rfl⟩ : b = a' ∧ call'' = call' ∧ [] = new := by simpa using heq
    obtain ⟨hverifier, hcredential, havailable⟩ := AdminCall.step_spec hcallstep
    refine ⟨hverifier.trans h.sameVerifier, ?_, ?_⟩
    · have hset := permitsHeld_set hcall call''
      have hpermits := h.permits
      simp only [List.append_nil]
      omega
    · intro other hother hcorrect
      rw [List.append_nil] at hother
      rcases List.mem_or_eq_of_mem_set hother with hother | rfl
      · exact h.welcome other hother hcorrect
      · -- The call that moved presents what it presented before.
        have hbefore : call.Correct sha256 verifier := by
          obtain ⟨presented, hpresented, hrest⟩ := hcorrect
          exact ⟨presented, hcredential ▸ hpresented, hrest⟩
        have hwelcome := h.welcome call (List.mem_of_getElem? hcall) hbefore
        rw [← h.sameVerifier] at hbefore
        exact AdminCall.welcome_step hbefore hwelcome hcallstep
  | env d =>
    obtain rfl := Threads.next_env hnext
    exact ⟨h.sameVerifier, h.permits, h.welcome⟩

/-- No permit is left exactly when the calls hold them all. -/
theorem AdminSound.available_eq_zero_iff {verifier : List UInt8} {maxInflight : Nat}
    {w : Threads.State AdminAuthenticator AdminCall}
    (h : AdminSound sha256 verifier maxInflight w) :
    w.shared.available = 0 ↔ permitsHeld w.tasks = maxInflight := by
  have := h.permits
  omega

theorem AdminSound.notLockedOut {verifier : List UInt8} {maxInflight : Nat}
    {w : Threads.State AdminAuthenticator AdminCall}
    (h : AdminSound sha256 verifier maxInflight w) :
    NotLockedOut sha256 verifier maxInflight w := by
  intro i call hcall hcorrect
  have hwelcome := h.welcome call (List.mem_of_getElem? hcall) hcorrect
  rw [← h.sameVerifier] at hcorrect
  rcases AdminCall.step_of_correct hcorrect hwelcome with
    hdone | ⟨a', call', hstep, -, hless, hbusy⟩
  · exact .inl hdone
  · right
    obtain ⟨hlt, -⟩ := List.getElem?_eq_some_iff.mp hcall
    refine ⟨{ shared := a', tasks := w.tasks.set i call' }, call', ?_, ?_, hless, ?_⟩
    · simp [Threads.next, hcall, adminCalls, hstep]
    · exact List.getElem?_set_self hlt
    · rw [hbusy, h.available_eq_zero_iff]

/-- Along every run, a call of the correct credential is turned away only when it wants a
permit while other calls hold all of them. -/
theorem correct_notLockedOut (sha256 : List UInt8 → Digest) (verifier : List UInt8)
    (maxInflight : Nat) (baseBackoff : Duration) (now : Instant)
    (ls : List (Threads.Label AdminCall Unit Duration)) :
    Trace.AllStates (adminCalls sha256).next (NotLockedOut sha256 verifier maxInflight)
      { shared := .new sha256 verifier maxInflight baseBackoff now, tasks := [] } ls := by
  refine Trace.AllStates.imp (fun w h => AdminSound.notLockedOut h)
    (Trace.AllStates.of_next ?_ (AdminSound.initial maxInflight verifier baseBackoff now))
  intro w l w' h hnext
  exact h.next hnext

/-- A call from some source that presents some bytes. -/
def presents (source : String) (presented : List UInt8) (pc : AdminPc) : AdminCall :=
  { credential := some presented, source := some source.toList, pc }

/-- Four calls take the default permits before a fifth asks for one. -/
def crowdedOut (presented : List UInt8) : List (Threads.Label AdminCall Unit Duration) :=
  let hostile := presents "hostile" [] .start
  [.call hostile, .call hostile, .call hostile, .call hostile,
    .call (presents "operator" presented .start),
    .step 0 (), .step 0 (), .step 1 (), .step 1 (), .step 2 (), .step 2 (), .step 3 (), .step 3 (),
    .step 4 (), .step 4 ()]

/-- The fifth is turned away, whatever the hash. -/
theorem crowdedOut_run (sha256 : List UInt8 → Digest) :
    (Trace.run (adminCalls sha256).next
      { shared := .new sha256 (sha256 [1]) defaultMaxInflightVerifications
          defaultAdminFailureBackoff 0, tasks := [] } (crowdedOut [1])).map
        (fun w => w.tasks[4]?) =
      some (some (presents "operator" [1] (.returned (.error .busy)))) := by
  simp [Trace.run, Threads.next, crowdedOut, adminCalls, AdminCall.step, presents,
    AdminCall.goto, AdminAuthenticator.new, maxAdminCredentialBytes,
    defaultMaxInflightVerifications]

/-- The correct credential does not always get in. -/
theorem crowdedOut_busy :
    ¬ ∀ (sha256 : List UInt8 → Digest) (verifier : List UInt8)
        (ls : List (Threads.Label AdminCall Unit Duration)),
      Trace.AllStates (adminCalls sha256).next
        (fun w => ∀ call ∈ w.tasks, call.Correct sha256 verifier →
          ∀ result, call.pc = .returned result → result = .ok ())
        { shared := .new sha256 verifier defaultMaxInflightVerifications
            defaultAdminFailureBackoff 0, tasks := [] } ls := by
  intro h
  have hall := h id [1] (crowdedOut [1])
  obtain ⟨w, hw, hcall⟩ := hall.observe (crowdedOut_run id)
  have hok := hw _ (List.mem_of_getElem? hcall) ⟨[1], rfl, by decide, rfl⟩ _ rfl
  cases hok

end OpenabPty
