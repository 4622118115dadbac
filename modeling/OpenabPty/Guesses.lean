import OpenabPty.Core.Backoff
import OpenabPty.Throttle

/-!
# How often a source may guess

Under the default backoff, the attempts of a source that are not throttled come at most one in five
seconds, but for seven. The first six delays of a history fall short of five seconds by 23.7 in all,
and a history is forgotten after sixty seconds at the earliest.
-/

namespace OpenabPty

/-- What the delays after the first `n` failures fall short of `MAX_ADMIN_FAILURE_BACKOFF`. -/
def adminDebt : Nat → Duration
  | 0 => .fromMillis 23700
  | 1 => .fromMillis 18800
  | 2 => .fromMillis 14000
  | 3 => .fromMillis 9400
  | 4 => .fromMillis 5200
  | 5 => .fromMillis 1800
  | _ => 0

theorem backoff_of_le {n : Nat} (h : 7 ≤ n) :
    AdminAuthenticator.backoff defaultAdminFailureBackoff n = maxAdminFailureBackoff := by
  have hexp : 2 ^ 6 ≤ 2 ^ min (n - 1) 10 := Nat.pow_le_pow_right (by decide) (by omega)
  refine Nat.min_eq_right (Nat.le_trans ?_ (Nat.mul_le_mul_left defaultAdminFailureBackoff hexp))
  decide

theorem adminDebt_of_le {n : Nat} (h : 6 ≤ n) : adminDebt n = 0 := by
  obtain ⟨k, rfl⟩ := Nat.exists_eq_add_of_le' h
  rfl

/-- The delays of an authenticator with the default backoff. -/
def adminBackoff : Backoff where
  cap := maxAdminFailureBackoff
  delay := AdminAuthenticator.backoff defaultAdminFailureBackoff
  debt := adminDebt
  delay_le _ := Nat.min_le_right _ _
  pays
    | 0 | 1 | 2 | 3 | 4 | 5 => by decide
    | n + 6 => by
      rw [backoff_of_le (by omega), adminDebt_of_le (by omega), adminDebt_of_le (by omega)]

/-- The count of a `u32` that is full makes no difference. -/
theorem backoff_saturating (n : Nat) :
    adminBackoff.delay (min (n + 1) (2 ^ 32 - 1)) = adminBackoff.delay (n + 1) ∧
      adminBackoff.debt (min (n + 1) (2 ^ 32 - 1)) = adminBackoff.debt (n + 1) := by
  by_cases hfull : n + 1 ≤ 2 ^ 32 - 1
  · rw [Nat.min_eq_left hfull]
    exact ⟨rfl, rfl⟩
  · have hmin : min (n + 1) (2 ^ 32 - 1) = 2 ^ 32 - 1 := Nat.min_eq_right (by omega)
    have hmax : 7 ≤ 2 ^ 32 - 1 := by decide
    have hbig : 7 ≤ n + 1 := by omega
    rw [hmin]
    refine ⟨?_, ?_⟩
    · exact (backoff_of_le hmax).trans (backoff_of_le hbig).symm
    · exact (adminDebt_of_le (Nat.le_of_succ_le hmax)).trans
        (adminDebt_of_le (Nat.le_of_succ_le hbig)).symm

namespace Answered

/-- The answer was `Throttled`. -/
def throttled (r : Answered) : Bool :=
  match r.result with
  | .error (.throttled _) => true
  | _ => false

/-- An attempt of the source that was not throttled, and was not over before `since`. -/
def isGuess (x : Text) (since : Instant) (r : Answered) : Bool :=
  decide (r.source = x ∧ since ≤ r.ended) && !r.throttled

end Answered

/-- The attempts of a source that were not throttled, in the interval of some length that begins
at `since`: an attempt is in it if any part of the call is. -/
def guesses (x : Text) (since : Instant) (length : Duration) (log : List Answered) : Nat :=
  log.countP fun r => r.isGuess x since && decide (r.begun ≤ since + length)

namespace AdminRun

variable {sha256 : List UInt8 → Digest} {w w' : AdminRun} {l : Label} {x : Text}
  {since : Instant} {length : Duration}

/-- The entry of the source is not forgotten to make room for another source. -/
def Keeps (sha256 : List UInt8 → Digest) (x : Text) (w : AdminRun) : Label → Prop
  | .call credential source begun ended =>
    sourceKey source ≠ x → ((w.auth.failures.prune ended).lookup x).isSome = true →
      ((w.auth.answer sha256 credential source begun ended).1.failures.lookup x).isSome = true
  | .rehash _ => True

/-- A failure of the source does not go untracked, as it does when every slot is under a block. -/
def Tracks (sha256 : List UInt8 → Digest) (x : Text) (w : AdminRun) : Label → Prop
  | .call credential source begun ended =>
    sourceKey source = x →
      (w.auth.answer sha256 credential source begun ended).2 ≠ .ok () →
      ((w.auth.answer sha256 credential source begun ended).1.failures.lookup x).isSome = true
  | .rehash _ => True

instance (w : AdminRun) : ∀ l, Decidable (Succeeds sha256 x w l)
  | .call .. => inferInstanceAs (Decidable (_ ∧ _))
  | .rehash _ => inferInstanceAs (Decidable False)

instance (w : AdminRun) : ∀ l, Decidable (Keeps sha256 x w l)
  | .call .. => inferInstanceAs (Decidable (_ → _ → _))
  | .rehash _ => inferInstanceAs (Decidable True)

instance (w : AdminRun) : ∀ l, Decidable (Tracks sha256 x w l)
  | .call .. => inferInstanceAs (Decidable (_ → _ → _))
  | .rehash _ => inferInstanceAs (Decidable True)

/-- The attempts of a source are paid for. -/
structure Paying (x : Text) (since : Instant) (length : Duration) (w : AdminRun) : Prop where
  bounded : adminBackoff.cap * guesses x since length w.log ≤
    adminBackoff.cap + adminBackoff.debt 0 + length
  absent : w.slot? x = none →
    adminBackoff.Paid since (w.log.countP (·.isGuess x since)) 0 w.auth.now
  present : ∀ entry, w.slot? x = some entry → ∃ deadline, entry.blockedUntil = some deadline ∧
    deadline ≤ entry.lastSeen + adminBackoff.cap ∧ entry.lastSeen ≤ w.auth.now ∧
    adminBackoff.Paid since (w.log.countP (·.isGuess x since)) entry.consecutiveFailures deadline

/-- A call that leaves the entry of the source, and counts no attempt of it. -/
theorem Paying.keep (h : Paying x since length w) (hnow : w.auth.now ≤ w'.auth.now)
    (hentry : w'.slot? x = w.slot? x) (hguesses : guesses x since length w'.log =
      guesses x since length w.log)
    (hhits : w'.log.countP (·.isGuess x since) = w.log.countP (·.isGuess x since)) :
    Paying x since length w' := by
  refine ⟨hguesses ▸ h.bounded, fun hnone => ?_, fun entry hsome => ?_⟩
  · rw [hhits]
    exact (h.absent (hentry.symm.trans hnone)).later hnow
  · obtain ⟨deadline, hdeadline, hshort, hseen, hpaid⟩ := h.present entry (hentry.symm.trans hsome)
    exact ⟨deadline, hdeadline, hshort, Nat.le_trans hseen hnow, hhits ▸ hpaid⟩

/-- Where a history was forgotten the debt is paid. -/
theorem debt_le_memory {deadline seen ended : Instant}
    (hdeadline : deadline ≤ seen + adminBackoff.cap) (hold : adminFailureMemory ≤ ended - seen) :
    deadline + adminBackoff.debt 0 ≤ ended := by
  have hdebt : adminBackoff.cap + adminBackoff.debt 0 ≤ adminFailureMemory := by decide
  have hmemory : 0 < adminFailureMemory := by decide
  have hseen : seen ≤ ended :=
    Nat.le_of_lt (Nat.lt_of_sub_pos (Nat.lt_of_lt_of_le hmemory hold))
  calc deadline + adminBackoff.debt 0
      ≤ seen + adminBackoff.cap + adminBackoff.debt 0 := Nat.add_le_add_right hdeadline _
    _ = seen + (adminBackoff.cap + adminBackoff.debt 0) := Nat.add_assoc _ _ _
    _ ≤ seen + adminFailureMemory := Nat.add_le_add_left hdebt _
    _ ≤ ended := Nat.add_le_of_le_sub' hseen hold

theorem le_of_free {entry : FailureState} {deadline now : Instant}
    (hdeadline : entry.blockedUntil = some deadline) (hfree : entry.isBlocked now = false) :
    deadline ≤ now := by
  refine Nat.le_of_not_lt fun hlt => ?_
  rw [isBlocked_of_lt hdeadline hlt] at hfree
  cases hfree

/-- The attempts so far are paid for when the next one that is not throttled begins. -/
theorem Paying.before (h : Paying x since length w) {begun : Instant} (hbegun : w.auth.now ≤ begun)
    (hfree : ∀ entry, w.slot? x = some entry → entry.isBlocked begun = false) :
    ∃ n horizon, adminBackoff.Paid since (w.log.countP (·.isGuess x since)) n horizon ∧
      horizon ≤ begun := by
  cases hentry : w.slot? x with
  | none => exact ⟨0, w.auth.now, h.absent hentry, hbegun⟩
  | some entry =>
    obtain ⟨deadline, hdeadline, -, -, hpaid⟩ := h.present entry hentry
    exact ⟨_, deadline, hpaid, le_of_free hdeadline (hfree entry hentry)⟩

/-- They are still when it is counted, in an entry that may be new. -/
theorem Paying.counted (h : Paying x since length w) (hw : Sound w) {begun ended : Instant}
    (hbegun : w.auth.now ≤ begun) (hle : begun ≤ ended)
    (hfree : ∀ entry, w.slot? x = some entry → entry.isBlocked begun = false) :
    ∃ horizon, adminBackoff.Paid since (w.log.countP (·.isGuess x since))
      ((((AdminAuthenticator.seen w.auth.failures x begun).prune ended).lookup x).getD
        (AdminAuthenticator.fresh ended)).consecutiveFailures horizon ∧ horizon ≤ ended := by
  have hseen : (AdminAuthenticator.seen w.auth.failures x begun).lookup x =
      (w.slot? x).map fun e => { e with lastSeen := begun } :=
    AdminAuthenticator.lookup_seen.trans (if_pos rfl)
  have htidy : (AdminAuthenticator.seen w.auth.failures x begun).Tidy :=
    AdminAuthenticator.tidy_seen hw.tidy
  cases hentry : w.slot? x with
  | none =>
    have hnone :
        ((AdminAuthenticator.seen w.auth.failures x begun).prune ended).lookup x = none := by
      rw [Failures.lookup_prune htidy.distinct, hseen, hentry]
      rfl
    rw [hnone]
    exact ⟨w.auth.now, h.absent hentry, Nat.le_trans hbegun hle⟩
  | some entry =>
    obtain ⟨deadline, hdeadline, -, -, hpaid⟩ := h.present entry hentry
    have hover : deadline ≤ begun := le_of_free hdeadline (hfree entry hentry)
    rw [hentry] at hseen
    rcases AdminAuthenticator.pruned_cases htidy x ended with
      hsame | ⟨hnone, before, hbefore, -, hold⟩
    · rw [hsame, hseen]
      exact ⟨deadline, hpaid, Nat.le_trans hover hle⟩
    · -- The call took so long that the history it found was forgotten meanwhile.
      obtain rfl := Option.some.inj (hseen.symm.trans hbefore)
      rw [hnone]
      refine ⟨ended, hpaid.forget (debt_le_memory ?_ hold), Nat.le_refl _⟩
      exact Nat.le_trans hover (Nat.le_add_right _ _)

/-- A call that is no attempt of the source, or was throttled, is not counted. -/
theorem guesses_cons_of_not (length : Duration) {r : Answered} (h : r.isGuess x since = false)
    (log : List Answered) :
    guesses x since length (r :: log) = guesses x since length log ∧
      (r :: log).countP (·.isGuess x since) = log.countP (·.isGuess x since) := by
  simp [guesses, h]

/-- A new attempt that is not throttled: it is paid for, too. -/
theorem Paying.bounded_cons (h : Paying x since length w) {r : Answered}
    (hbefore : ∃ n horizon, adminBackoff.Paid since (w.log.countP (·.isGuess x since)) n horizon ∧
      horizon ≤ r.begun) :
    adminBackoff.cap * guesses x since length (r :: w.log) ≤
      adminBackoff.cap + adminBackoff.debt 0 + length := by
  by_cases hin : (r.isGuess x since && decide (r.begun ≤ since + length)) = true
  · have hwithin : r.begun ≤ since + length := by
      simp only [Bool.and_eq_true, decide_eq_true_eq] at hin
      exact hin.2
    obtain ⟨n, horizon, hpaid, hhorizon⟩ := hbefore
    have hcount : guesses x since length w.log ≤ w.log.countP (·.isGuess x since) := by
      refine List.countP_mono_left fun r _ hr => ?_
      simp only [Bool.and_eq_true] at hr
      exact hr.1
    rw [guesses, List.countP_cons, if_pos hin, ← guesses]
    calc adminBackoff.cap * (guesses x since length w.log + 1)
        ≤ adminBackoff.cap * (w.log.countP (·.isGuess x since) + 1) :=
          Nat.mul_le_mul_left _ (Nat.succ_le_succ hcount)
      _ ≤ _ := hpaid.hits_le (Nat.le_trans hhorizon hwithin)
  · rw [guesses, List.countP_cons, if_neg hin, Nat.add_zero, ← guesses]
    exact h.bounded

/-- The entry of an attempt that was counted. -/
theorem paid_counted {hits horizon : Nat} {before : FailureState} {ended : Instant}
    {guess : Bool} (hpaid : adminBackoff.Paid since hits before.consecutiveFailures horizon)
    (hhorizon : horizon ≤ ended) (hguess : guess = true → since ≤ ended) :
    adminBackoff.Paid since (hits + if guess then 1 else 0)
      (AdminAuthenticator.counted defaultAdminFailureBackoff before ended).consecutiveFailures
      (ended + adminBackoff.delay (AdminAuthenticator.counted defaultAdminFailureBackoff before
        ended).consecutiveFailures) := by
  obtain ⟨hdelay, hdebt⟩ := backoff_saturating before.consecutiveFailures
  have hpaid' : adminBackoff.Paid since (hits + if guess then 1 else 0)
      (before.consecutiveFailures + 1)
      (ended + adminBackoff.delay (before.consecutiveFailures + 1)) := by
    cases guess with
    | true => exact hpaid.hit hhorizon (hguess rfl)
    | false => exact hpaid.skip hhorizon
  show adminBackoff.Paid since _ (min (before.consecutiveFailures + 1) (2 ^ 32 - 1)) _
  unfold Backoff.Paid at hpaid' ⊢
  rw [hdebt]
  show _ ∨ _ ≤ _ + (ended + adminBackoff.delay (min (before.consecutiveFailures + 1) (2 ^ 32 - 1)))
  rw [hdelay]
  exact hpaid'

/-- A call of the source. -/
theorem paying_own (h : Paying x since length w) (hw : Sound w)
    (hbase : w.auth.baseBackoff = defaultAdminFailureBackoff) {begun ended : Instant}
    (hbegun : w.auth.now ≤ begun) (hle : begun ≤ ended) {result : Except AdminAuthFailure Unit}
    (hown : AdminAuthenticator.Own w.auth w'.auth.failures x begun ended result)
    (hnow : w'.auth.now = ended) (hlog : w'.log = { source := x, begun, ended, result } :: w.log)
    (hfails : result ≠ .ok ()) (htracks : (w'.slot? x).isSome = true) :
    Paying x since length w' := by
  cases hown with
  | cleared hafter => exact absurd rfl hfails
  | throttled entry deadline hentry hdeadline hblocked hafter =>
    have hskip : (Answered.mk x begun ended (.error (.throttled (deadline - begun)))).isGuess x
        since = false := by
      simp [Answered.isGuess, Answered.throttled]
    obtain ⟨hguesses, hhits⟩ := guesses_cons_of_not length hskip w.log
    rw [← hlog] at hguesses hhits
    refine ⟨hguesses ▸ h.bounded, fun hnone => ?_, fun entry' hentry' => ?_⟩
    · exact absurd (hafter.symm.trans hnone) nofun
    · obtain rfl := Option.some.inj (hafter.symm.trans hentry')
      obtain ⟨deadline', hdeadline', hshort, hseen, hpaid⟩ := h.present entry hentry
      refine ⟨deadline', hdeadline', ?_, hnow ▸ hle, hhits ▸ hpaid⟩
      exact Nat.le_trans hshort (Nat.add_le_add_right (Nat.le_trans hseen hbegun) _)
  | counted failure hfailure hfree hafter =>
    refine ⟨hlog ▸ h.bounded_cons (h.before hbegun hfree), fun hnone => ?_,
      fun entry' hentry' => ?_⟩
    · exact absurd (hafter.symm.trans hnone) nofun
    · obtain rfl := Option.some.inj (hafter.symm.trans hentry')
      obtain ⟨horizon, hpaid, hhorizon⟩ := h.counted hw hbegun hle hfree
      rw [hbase, hnow, hlog, List.countP_cons]
      refine ⟨_, rfl, Nat.add_le_add_left (adminBackoff.delay_le _) _, Nat.le_refl _, ?_⟩
      refine paid_counted hpaid hhorizon fun hguess => ?_
      simp only [Answered.isGuess, Bool.and_eq_true, decide_eq_true_eq] at hguess
      exact hguess.1.2
  | untracked failure hfailure hfree hbefore hafter hfull hblocked =>
    rw [show w'.slot? x = none from hafter] at htracks
    cases htracks

/-- A call of another source. -/
theorem paying_other (h : Paying x since length w) (hw : Sound w) {source : Text}
    {begun ended : Instant} (hbegun : w.auth.now ≤ begun) (hle : begun ≤ ended)
    {result : Except AdminAuthFailure Unit} (hx : source ≠ x)
    (hleaves : AdminAuthenticator.Leaves w.auth.failures w'.auth.failures x ended)
    (hnow : w'.auth.now = ended) (hlog : w'.log = { source, begun, ended, result } :: w.log)
    (hkeeps : ((w.auth.failures.prune ended).lookup x).isSome = true →
      (w'.slot? x).isSome = true) : Paying x since length w' := by
  have hskip : (Answered.mk source begun ended result).isGuess x since = false := by
    simp [Answered.isGuess, hx]
  obtain ⟨hguesses, hhits⟩ := guesses_cons_of_not length hskip w.log
  rw [← hlog] at hguesses hhits
  rcases hleaves with hsame | ⟨hnone, entry, hentry, -⟩
  · exact h.keep (hnow ▸ Nat.le_trans hbegun hle) hsame hguesses hhits
  · refine ⟨hguesses ▸ h.bounded, fun _ => ?_, fun entry' hentry' => ?_⟩
    · -- The entry was not forgotten to make room: its history was too old.
      rcases AdminAuthenticator.pruned_cases hw.tidy x ended with
        hpruned | ⟨-, before, hbefore, -, hold⟩
      · rw [hpruned, hentry, show w'.slot? x = none from hnone] at hkeeps
        cases hkeeps rfl
      · obtain ⟨deadline, -, hshort, -, hpaid⟩ := h.present before hbefore
        rw [hhits, hnow]
        exact hpaid.forget (debt_le_memory hshort hold)
    · exact absurd (hnone.symm.trans hentry') nofun

theorem paying_next (h : Paying x since length w) (hw : Sound w)
    (hbase : w.auth.baseBackoff = defaultAdminFailureBackoff) (hfails : ¬ Succeeds sha256 x w l)
    (hkeeps : Keeps sha256 x w l) (htracks : Tracks sha256 x w l)
    (hnext : w.next sha256 l = some w') : Paying x since length w' := by
  rcases next_cases hw hnext with
    ⟨credential, source, begun, ended, rfl, hbegun, hle, hnow, hlog, hafter, hanswers⟩ |
    ⟨-, hnow, hlog, -, -, -, hsame⟩
  · by_cases hx : sourceKey source = x
    · subst hx
      refine paying_own h hw hbase hbegun hle hanswers.own hnow hlog
        (fun hok => hfails ⟨rfl, hok⟩) ?_
      rw [slot?, hafter]
      exact htracks rfl fun hok => hfails ⟨rfl, hok⟩
    · refine paying_other h hw hbegun hle hx (hanswers.other x (Ne.symm hx)) hnow hlog ?_
      rw [slot?, hafter]
      exact hkeeps hx
  · exact h.keep (Nat.le_of_eq hnow.symm) (hsame x) (by rw [hlog]) (by rw [hlog])

theorem paying_init {verifier : List UInt8} {maxInflight : Nat} {now : Instant} :
    Paying x since length (init sha256 verifier maxInflight defaultAdminFailureBackoff now) where
  bounded := Nat.zero_le _
  absent _ := .inl rfl
  present _ hentry := absurd hentry nofun

theorem baseBackoff_next (hw : Sound w) (h : w.next sha256 l = some w') :
    w'.auth.baseBackoff = w.auth.baseBackoff := by
  rcases next_cases hw h with ⟨_, _, _, _, -, -, -, -, -, -, hanswers⟩ | ⟨-, -, -, -, hsame, -⟩
  · exact hanswers.baseBackoff
  · exact hsame

/-- **Guessing is bounded.** Under the default backoff, of the attempts of a source that is never
accepted, not forgotten to make room for another one and not left untracked for want of a slot, at
most `7 + length / 5` are answered other than `Throttled` in any interval of `length` seconds. -/
theorem guesses_bounded (sha256 : List UInt8 → Digest) (verifier : List UInt8) {maxInflight : Nat}
    (hpermits : 0 < maxInflight) (now : Instant) {ls : List Label}
    (hrun : Trace.run (next sha256)
      (init sha256 verifier maxInflight defaultAdminFailureBackoff now) ls = some w) (x : Text)
    (hfails : Trace.AllSteps (next sha256) (fun w l => ¬ Succeeds sha256 x w l)
      (init sha256 verifier maxInflight defaultAdminFailureBackoff now) ls)
    (hkeeps : Trace.AllSteps (next sha256) (Keeps sha256 x)
      (init sha256 verifier maxInflight defaultAdminFailureBackoff now) ls)
    (htracks : Trace.AllSteps (next sha256) (Tracks sha256 x)
      (init sha256 verifier maxInflight defaultAdminFailureBackoff now) ls)
    (since : Instant) (length : Duration) :
    Duration.fromSecs 5 * guesses x since length w.log ≤ Duration.fromSecs 35 + length := by
  have hall : Trace.AllStates (next sha256) (fun w => Sound w ∧
      w.auth.baseBackoff = defaultAdminFailureBackoff ∧ Paying x since length w)
      (init sha256 verifier maxInflight defaultAdminFailureBackoff now) ls := by
    refine Trace.AllStates.of_invariant (fun w l w' hw hstep hnext => ?_)
      ⟨sound_init hpermits verifier _ now, rfl, paying_init⟩ (hfails.and (hkeeps.and htracks))
    obtain ⟨hsound, hbase, hpaying⟩ := hw
    obtain ⟨hfail, hkeep, htrack⟩ := hstep
    exact ⟨sound_next hsound hnext, (baseBackoff_next hsound hnext).trans hbase,
      paying_next hpaying hsound hbase hfail hkeep htrack hnext⟩
  obtain ⟨-, -, hpaying⟩ := hall.last hrun
  have hslack : adminBackoff.cap + adminBackoff.debt 0 ≤ Duration.fromSecs 35 := by decide
  exact Nat.le_trans hpaying.bounded (Nat.add_le_add_right hslack length)

/-- What `b` and `c` do, of whom `c` knows the credential: `b` fails four times and is told to wait
twice, and `c` fails once and is accepted. -/
def guessing : List Label :=
  let ms := Duration.fromMillis
  [.call none (some ['b']) 0 0,
    .call (some [2]) (some ['b']) (ms 50) (ms 50),
    .call (some [2]) (some ['c']) (ms 60) (ms 61),
    .call (some [2]) (some ['b']) (ms 100) (ms 101),
    .call none (some ['b']) (ms 300) (ms 300),
    .call (some [1]) (some ['c']) (ms 400) (ms 402),
    .call none (some ['b']) (ms 699) (ms 699),
    .call (some [2]) (some ['b']) (ms 60700) (ms 60702)]

/-- Three of the guesses of `b` are in the first second, which is within the bound. -/
theorem guesses_bounded_guessing : ∃ w,
    Trace.run (next id) (init id [1] 4 defaultAdminFailureBackoff 0) guessing = some w ∧
    guesses ['b'] 0 (.fromSecs 1) w.log = 3 ∧
    Duration.fromSecs 5 * guesses ['b'] 0 (.fromSecs 1) w.log ≤
      Duration.fromSecs 35 + .fromSecs 1 := by
  have hguesses : (Trace.run (next id) (init id [1] 4 defaultAdminFailureBackoff 0) guessing).map
      (fun w => guesses ['b'] 0 (.fromSecs 1) w.log) = some 3 := by decide
  obtain ⟨w, hrun, hthree⟩ := Option.map_eq_some_iff.mp hguesses
  refine ⟨w, hrun, hthree, ?_⟩
  have hfails : Trace.AllSteps (next id) (fun w l => ¬ Succeeds id ['b'] w l)
      (init id [1] 4 defaultAdminFailureBackoff 0) guessing := by decide
  have hkeeps : Trace.AllSteps (next id) (Keeps id ['b'])
      (init id [1] 4 defaultAdminFailureBackoff 0) guessing := by decide
  have htracks : Trace.AllSteps (next id) (Tracks id ['b'])
      (init id [1] 4 defaultAdminFailureBackoff 0) guessing := by decide
  exact guesses_bounded id [1] (by decide) 0 hrun ['b'] hfails hkeeps htracks 0 (.fromSecs 1)

/-! ## When every slot is under a block -/

/-- The `n`-th of a crowd of sources. -/
def crowdSource (n : Nat) : Text := List.replicate n 'a'

/-- One failure of each of `n` sources, and then `k` of another one, all at once. -/
def crowd (n : Nat) : Nat → List Label
  | 0 => (List.range n).map fun i => .call none (some (crowdSource i)) 0 0
  | k + 1 => crowd n k ++ [.call none (some ['b']) 0 0]

/-- Every entry is under a block, and of a source of the crowd; `k` attempts of the other source
were not throttled. -/
structure Crowded (n k : Nat) (w : AdminRun) : Prop where
  sound : Sound w
  now : w.auth.now = 0
  baseBackoff : w.auth.baseBackoff = defaultAdminFailureBackoff
  length : w.auth.failures.length = n
  keys : ∀ e ∈ w.auth.failures, ∃ i < n, e.1 = crowdSource i
  blocked : ∀ e ∈ w.auth.failures, e.2.isBlocked 0 = true
  guesses : guesses ['b'] 0 0 w.log = k

/-- Nothing is pruned or forgotten where everybody is blocked. -/
theorem roomFor_of_blocked {entries : Failures} {now : Instant}
    (h : ∀ e ∈ entries, e.2.isBlocked now = true) (key : Text) :
    AdminAuthenticator.roomFor entries key now = entries := by
  have hprune : entries.prune now = entries := List.filter_eq_self.mpr fun e he => by simp [h e he]
  have hfree : (entries.filter fun e => !e.2.isBlocked now) = [] :=
    List.filter_eq_nil_iff.mpr fun e he => by simp [h e he]
  unfold AdminAuthenticator.roomFor Failures.makeRoom
  rw [hprune, hfree]
  split_ifs <;> rfl

/-- The failure of a source that has no entry. -/
theorem answer_absent (sha256 : List UInt8 → Digest) {a : AdminAuthenticator} {key : Text}
    (h : a.failures.lookup key = none) (hblocked : ∀ e ∈ a.failures, e.2.isBlocked 0 = true) :
    (a.answer sha256 none (some key) 0 0).2 = .error .invalid ∧
      (a.answer sha256 none (some key) 0 0).1.failures =
        if maxTrackedAdminSources ≤ a.failures.length then a.failures
        else a.failures ++
          [(key, AdminAuthenticator.counted a.baseBackoff (AdminAuthenticator.fresh 0) 0)] := by
  have hfree : a.blockedFor (some key) 0 = (a, none) := by
    unfold AdminAuthenticator.blockedFor
    rw [show sourceKey (some key) = key from rfl, h]
  have hrecord := AdminAuthenticator.recordFailure_failures a (some key)
    "missing_or_malformed_authorization_header" 0
  rw [show sourceKey (some key) = key from rfl] at hrecord
  simp only [roomFor_of_blocked hblocked, h, Option.isNone_none, true_and] at hrecord
  unfold AdminAuthenticator.answer AdminAuthenticator.countOrThrottle
  simp only [hfree]
  refine ⟨trivial, hrecord.trans ?_⟩
  split_ifs
  · rfl
  · rw [Failures.put, h]
    rfl

theorem lookup_crowded {n k : Nat} (h : Crowded n k w) {key : Text}
    (hkey : ∀ i < n, key ≠ crowdSource i) : w.auth.failures.lookup key = none := by
  cases hlookup : w.auth.failures.lookup key with
  | none => rfl
  | some entry =>
    obtain ⟨i, hi, heq⟩ := h.keys _ (h.sound.tidy.distinct.lookup_iff.mp hlookup)
    exact absurd heq (hkey i hi)

theorem guesser_ne (i : Nat) : (['b'] : Text) ≠ crowdSource i := by
  intro heq
  have hmem : 'b' ∈ crowdSource i := heq ▸ List.mem_singleton_self 'b'
  cases List.eq_of_mem_replicate hmem

theorem crowdSource_ne {i n : Nat} (h : i < n) : crowdSource n ≠ crowdSource i := by
  intro heq
  have hlength := congrArg List.length heq
  simp only [crowdSource, List.length_replicate] at hlength
  omega

/-- What one more failure leaves, of a source that has no entry. -/
theorem crowded_next (sha256 : List UInt8 → Digest) {n k : Nat} (h : Crowded n k w) {key : Text}
    (hkey : ∀ i < n, key ≠ crowdSource i) :
    (w.auth.answer sha256 none (some key) 0 0).2 = .error .invalid ∧
    ∃ w', w.next sha256 (.call none (some key) 0 0) = some w' ∧ Sound w' ∧ w'.auth.now = 0 ∧
      w'.auth.baseBackoff = defaultAdminFailureBackoff ∧
      w'.log = { source := key, begun := 0, ended := 0, result := .error .invalid } :: w.log ∧
      w'.auth.failures =
        if maxTrackedAdminSources ≤ n then w.auth.failures
        else w.auth.failures ++ [(key, AdminAuthenticator.counted defaultAdminFailureBackoff
          (AdminAuthenticator.fresh 0) 0)] := by
  have habsent : w.auth.failures.lookup key = none := lookup_crowded h hkey
  obtain ⟨hresult, hafter⟩ := answer_absent sha256 habsent h.blocked
  rw [h.length, h.baseBackoff] at hafter
  have hnext : w.next sha256 (.call none (some key) 0 0) = some
      { auth := { (w.auth.answer sha256 none (some key) 0 0).1 with now := 0 }
        log := { source := key, begun := 0, ended := 0, result := .error .invalid } :: w.log } := by
    simp only [next, h.now, Nat.le_refl, and_self, if_true, hresult]
    rfl
  refine ⟨hresult, _, hnext, sound_next h.sound hnext, rfl, ?_, rfl, hafter⟩
  exact (baseBackoff_next h.sound hnext).trans h.baseBackoff

/-- The next source of the crowd fails. -/
theorem Crowded.join {n k : Nat} (h : Crowded n k w) (hroom : n < maxTrackedAdminSources)
    (hnext : w.next sha256 (.call none (some (crowdSource n)) 0 0) = some w') :
    Crowded (n + 1) k w' := by
  obtain ⟨-, v, hv, hsound, hnow, hbase, hlog, hafter⟩ :=
    crowded_next sha256 h fun i hi => crowdSource_ne hi
  obtain rfl := Option.some.inj (hv.symm.trans hnext)
  rw [if_neg (Nat.not_le.mpr hroom)] at hafter
  have hmem : ∀ e ∈ v.auth.failures, e ∈ w.auth.failures ∨ e = (crowdSource n,
      AdminAuthenticator.counted defaultAdminFailureBackoff (AdminAuthenticator.fresh 0) 0) := by
    intro e he
    rw [hafter] at he
    simpa using he
  refine ⟨hsound, hnow, hbase, ?_, fun e he => ?_, fun e he => ?_, ?_⟩
  · rw [hafter, List.length_append, h.length]
    rfl
  · rcases hmem e he with hold | rfl
    · obtain ⟨i, hi, heq⟩ := h.keys e hold
      exact ⟨i, Nat.lt_succ_of_lt hi, heq⟩
    · exact ⟨n, Nat.lt_succ_self n, rfl⟩
  · rcases hmem e he with hold | rfl
    · exact h.blocked e hold
    · show FailureState.isBlocked (AdminAuthenticator.counted defaultAdminFailureBackoff
        (AdminAuthenticator.fresh 0) 0) 0 = true
      decide
  · rw [hlog]
    refine (guesses_cons_of_not 0 ?_ w.log).1.trans h.guesses
    simp [Answered.isGuess, (guesser_ne n).symm]

/-- The other source fails, and there is no slot for it. -/
theorem Crowded.guess {n k : Nat} (h : Crowded n k w) (hfull : maxTrackedAdminSources ≤ n)
    (hnext : w.next sha256 (.call none (some ['b']) 0 0) = some w') : Crowded n (k + 1) w' := by
  obtain ⟨-, v, hv, hsound, hnow, hbase, hlog, hafter⟩ :=
    crowded_next sha256 h fun i _ => guesser_ne i
  obtain rfl := Option.some.inj (hv.symm.trans hnext)
  rw [if_pos hfull] at hafter
  refine ⟨hsound, hnow, hbase, ?_, ?_, ?_, ?_⟩
  · rw [hafter]
    exact h.length
  · exact fun e he => h.keys e (hafter ▸ he)
  · exact fun e he => h.blocked e (hafter ▸ he)
  · rw [hlog, ← h.guesses]
    simp [OpenabPty.guesses, Answered.isGuess, Answered.throttled]

/-- A run to a crowd, in which the other source never succeeds and is never forgotten. -/
def Crowds (sha256 : List UInt8 → Digest) (n k : Nat) (ls : List Label) : Prop :=
  ∃ w, Trace.run (next sha256) (init sha256 [1] 4 defaultAdminFailureBackoff 0) ls = some w ∧
    Crowded n k w ∧
    Trace.AllSteps (next sha256) (fun w l => ¬ Succeeds sha256 ['b'] w l ∧ Keeps sha256 ['b'] w l)
      (init sha256 [1] 4 defaultAdminFailureBackoff 0) ls

/-- One more failure of the run. -/
theorem Crowds.concat {n k n' k' : Nat} {ls : List Label} (h : Crowds sha256 n k ls) {key : Text}
    (hkey : ∀ i < n, key ≠ crowdSource i)
    (hgrows : ∀ w w', Crowded n k w → w.next sha256 (.call none (some key) 0 0) = some w' →
      Crowded n' k' w') :
    Crowds sha256 n' k' (ls ++ [.call none (some key) 0 0]) := by
  obtain ⟨w, hrun, hcrowded, hall⟩ := h
  obtain ⟨hresult, w', hnext, -⟩ := crowded_next sha256 hcrowded hkey
  have hfails : ¬ Succeeds sha256 ['b'] w (.call none (some key) 0 0) := by
    rintro ⟨-, hok⟩
    rw [hresult] at hok
    cases hok
  have hkeeps : Keeps sha256 ['b'] w (.call none (some key) 0 0) := by
    intro _ hpruned
    have hnone : w.auth.failures.lookup ['b'] = none :=
      lookup_crowded hcrowded fun i _ => guesser_ne i
    rw [Failures.lookup_prune hcrowded.sound.tidy.distinct, hnone] at hpruned
    cases hpruned
  refine ⟨w', ?_, hgrows w w' hcrowded hnext, hall.concat hrun ⟨hfails, hkeeps⟩⟩
  rw [Trace.run_append, hrun, Option.bind_some, Trace.run, hnext]
  rfl

theorem crowds (sha256 : List UInt8 → Digest) (n : Nat) (hn : n ≤ maxTrackedAdminSources) :
    Crowds sha256 n 0 (crowd n 0) := by
  induction n with
  | zero =>
    refine ⟨_, rfl, ⟨sound_init (by decide) [1] _ 0, rfl, rfl, rfl, ?_, ?_, rfl⟩, trivial⟩
    · exact fun e he => absurd he (List.not_mem_nil)
    · exact fun e he => absurd he (List.not_mem_nil)
  | succ n ih =>
    have hcrowd : crowd (n + 1) 0 = crowd n 0 ++ [.call none (some (crowdSource n)) 0 0] := by
      simp [crowd, List.range_succ]
    have hbefore : Crowds sha256 n 0 (crowd n 0) := ih (Nat.le_of_succ_le hn)
    rw [hcrowd]
    exact hbefore.concat (fun i hi => crowdSource_ne hi) fun w w' h hnext => h.join hn hnext

theorem crowds_guesses (sha256 : List UInt8 → Digest) (k : Nat) :
    Crowds sha256 maxTrackedAdminSources k (crowd maxTrackedAdminSources k) := by
  induction k with
  | zero => exact crowds sha256 _ (Nat.le_refl _)
  | succ k ih =>
    exact ih.concat (fun i _ => guesser_ne i) fun w w' h hnext => h.guess (Nat.le_refl _) hnext

/-- A source that no slot is left for guesses as often as it likes: after one failure of each of 256
others, eight times at once. -/
theorem guesses_untracked :
    ¬ ∀ (sha256 : List UInt8 → Digest) (verifier : List UInt8) (maxInflight : Nat) (now : Instant)
        (ls : List Label) (w : AdminRun) (x : Text), 0 < maxInflight →
      Trace.run (next sha256)
        (init sha256 verifier maxInflight defaultAdminFailureBackoff now) ls = some w →
      Trace.AllSteps (next sha256) (fun w l => ¬ Succeeds sha256 x w l ∧ Keeps sha256 x w l)
        (init sha256 verifier maxInflight defaultAdminFailureBackoff now) ls →
      ∀ since length, Duration.fromSecs 5 * guesses x since length w.log ≤
        Duration.fromSecs 35 + length := by
  intro h
  obtain ⟨w, hrun, hcrowded, hall⟩ := crowds_guesses id 8
  have hbound := h id [1] 4 0 (crowd maxTrackedAdminSources 8) w ['b'] (by decide) hrun hall 0 0
  rw [hcrowded.guesses] at hbound
  exact absurd hbound (by decide)

end AdminRun

end OpenabPty
