import OpenabPty.Alone
import OpenabPty.Core.Recency
import OpenabPty.Core.Trace

/-!
# The admin throttle, one call at a time

What `verify` and `reject_unauthenticated` answer when nobody else is in them. A failure of a
source that is not blocked arms a block, and a failure of one that is blocked is only told how long
it lasts. The map is bounded, and forgets no source that is blocked.
-/

namespace OpenabPty

open Recency

/-! ## The map -/

namespace Failures

variable {entries : Failures} {key : Text} {entry : FailureState} {now : Instant}

theorem put_eq : entries.put key entry = Recency.put entries key entry := rfl

theorem leastRecentlySeen_eq (entries : Failures) :
    entries.leastRecentlySeen = leastBy FailureState.lastSeen entries := by
  induction entries with
  | nil => rfl
  | cons e entries ih =>
    unfold leastRecentlySeen leastBy
    rw [ih]
    cases leastBy FailureState.lastSeen entries with
    | none => rfl
    | some least => rfl

/-- The map has no more entries than it may have, and none twice. -/
structure Tidy (entries : Failures) : Prop where
  distinct : Distinct entries
  bounded : entries.length ≤ maxTrackedAdminSources

theorem lookup_prune (h : Distinct entries) : (entries.prune now).lookup key =
    (entries.lookup key).filter fun e => e.isBlocked now || now - e.lastSeen < adminFailureMemory :=
  h.lookup_filter fun e => e.isBlocked now || now - e.lastSeen < adminFailureMemory

theorem Tidy.prune (h : entries.Tidy) (now : Instant) : (entries.prune now).Tidy :=
  ⟨h.distinct.filter _, Nat.le_trans (List.length_filter_le _ _) h.bounded⟩

/-- Making room leaves room, or every entry is under a block. -/
theorem makeRoom_spec (h : entries.Tidy) (now : Instant) :
    Roomier (·.isBlocked now) entries (entries.makeRoom now) ∧
      (maxTrackedAdminSources ≤ (entries.makeRoom now).length →
        entries.makeRoom now = entries ∧ ∀ e ∈ entries, e.2.isBlocked now = true) := by
  unfold makeRoom
  by_cases hroom : entries.length < maxTrackedAdminSources
  · rw [if_pos hroom]
    exact ⟨.refl h.distinct, fun hfull => absurd hroom (Nat.not_lt.mpr hfull)⟩
  · rw [if_neg hroom, leastRecentlySeen_eq]
    cases hleast : leastBy FailureState.lastSeen (entries.filter fun e => !e.2.isBlocked now) with
    | none =>
      refine ⟨.refl h.distinct, fun _ => ⟨rfl, fun e he => ?_⟩⟩
      have hempty := leastBy_eq_none_iff.mp hleast
      simpa using List.filter_eq_nil_iff.mp hempty e he
    | some victim =>
      obtain ⟨hroomier, hlt⟩ := Roomier.forget h.distinct (·.isBlocked now) hleast
      refine ⟨hroomier, fun hfull => ?_⟩
      exact absurd (Nat.lt_of_lt_of_le hlt h.bounded) (Nat.not_lt.mpr hfull)

theorem Tidy.put (h : entries.Tidy)
    (hroom : (entries.lookup key).isSome ∨ entries.length < maxTrackedAdminSources) :
    (entries.put key entry).Tidy := by
  refine ⟨Distinct.put h.distinct, ?_⟩
  rw [put_eq, length_put]
  split_ifs with hpresent
  · exact h.bounded
  · exact Nat.succ_le_of_lt (hroom.resolve_left hpresent)

end Failures

/-! ## What a call does to the map -/

namespace AdminAuthenticator

variable {sha256 : List UInt8 → Digest} {a : AdminAuthenticator} {source : Option Text}
  {now : Instant}

/-- The entries after `blocked_for`. -/
def seen (entries : Failures) (key : Text) (now : Instant) : Failures :=
  match entries.lookup key with
  | none => entries
  | some entry => entries.put key { entry with lastSeen := now }

/-- The entry of a source whose failure was counted. -/
def counted (baseBackoff : Duration) (entry : FailureState) (now : Instant) : FailureState :=
  let count := min (entry.consecutiveFailures + 1) (2 ^ 32 - 1)
  { consecutiveFailures := count
    blockedUntil := some (now + backoff baseBackoff count)
    lastSeen := now }

/-- What `record_failure` inserts for a new source. -/
def fresh (now : Instant) : FailureState :=
  { consecutiveFailures := 0, blockedUntil := none, lastSeen := now }

theorem blockedFor_failures (a : AdminAuthenticator) (source : Option Text) (now : Instant) :
    (a.blockedFor source now).1.failures = seen a.failures (sourceKey source) now := by
  unfold blockedFor seen
  cases a.failures.lookup (sourceKey source) with
  | none => rfl
  | some entry => rfl

theorem blockedFor_baseBackoff (a : AdminAuthenticator) (source : Option Text) (now : Instant) :
    (a.blockedFor source now).1.baseBackoff = a.baseBackoff := by
  unfold blockedFor
  split <;> rfl

theorem blockedFor_eq_none (a : AdminAuthenticator) (source : Option Text) (now : Instant) :
    (a.blockedFor source now).2 = none ↔
      ∀ entry, a.failures.lookup (sourceKey source) = some entry → entry.isBlocked now = false := by
  unfold blockedFor
  cases a.failures.lookup (sourceKey source) with
  | none => simp
  | some entry =>
    cases hblocked : entry.blockedUntil with
    | none => simp [FailureState.isBlocked, hblocked]
    | some deadline => simp [FailureState.isBlocked, hblocked, Option.filter_some]

theorem blockedFor_eq_some {retryAfter : Duration}
    (h : (a.blockedFor source now).2 = some retryAfter) :
    ∃ entry deadline, a.failures.lookup (sourceKey source) = some entry ∧
      entry.blockedUntil = some deadline ∧ now < deadline ∧ retryAfter = deadline - now := by
  unfold blockedFor at h
  cases hentry : a.failures.lookup (sourceKey source) with
  | none => simp [hentry] at h
  | some entry =>
    rw [hentry] at h
    obtain ⟨deadline, hfilter, rfl⟩ := Option.map_eq_some_iff.mp h
    obtain ⟨hdeadline, hlt⟩ := Option.filter_eq_some_iff.mp hfilter
    exact ⟨entry, deadline, rfl, hdeadline, of_decide_eq_true hlt, rfl⟩

theorem lookup_seen {entries : Failures} {key x : Text} : (seen entries key now).lookup x =
    if x = key then (entries.lookup key).map fun e => { e with lastSeen := now }
    else entries.lookup x := by
  unfold seen
  cases hkey : entries.lookup key with
  | none =>
    by_cases hx : x = key
    · rw [if_pos hx, hx, hkey]
      rfl
    · rw [if_neg hx]
  | some entry => exact lookup_put

theorem tidy_seen {entries : Failures} {key : Text} (h : entries.Tidy) :
    (seen entries key now).Tidy := by
  unfold seen
  cases hkey : entries.lookup key with
  | none => exact h
  | some entry => exact h.put (.inl (by rw [hkey]; rfl))

/-- The entries that `record_failure` counts in: pruned, with room for a new source. -/
def roomFor (entries : Failures) (key : Text) (now : Instant) : Failures :=
  if ((entries.prune now).lookup key).isSome then entries.prune now
  else (entries.prune now).makeRoom now

theorem recordFailure_failures (a : AdminAuthenticator) (source : Option Text) (detail : String)
    (now : Instant) :
    let key := sourceKey source
    let entries := roomFor a.failures key now
    (a.recordFailure source detail now).failures =
      if (entries.lookup key).isNone ∧ maxTrackedAdminSources ≤ entries.length then entries
      else entries.put key (counted a.baseBackoff ((entries.lookup key).getD (fresh now)) now) := by
  unfold recordFailure roomFor
  dsimp only
  split_ifs
  all_goals rfl

/-- What making room for a source leaves. -/
theorem roomFor_spec {entries : Failures} (h : entries.Tidy) (key : Text) (now : Instant) :
    Roomier (·.isBlocked now) (entries.prune now) (roomFor entries key now) ∧
      (roomFor entries key now).lookup key = (entries.prune now).lookup key ∧
      (((roomFor entries key now).lookup key).isSome ∨
        (roomFor entries key now).length < maxTrackedAdminSources ∨
        roomFor entries key now = entries.prune now ∧
          ∀ e ∈ entries.prune now, e.2.isBlocked now = true) := by
  have hpruned : (entries.prune now).Tidy := h.prune now
  unfold roomFor
  by_cases hpresent : ((entries.prune now).lookup key).isSome
  · rw [if_pos hpresent]
    exact ⟨.refl hpruned.distinct, rfl, .inl hpresent⟩
  · rw [if_neg hpresent]
    obtain ⟨hroomier, hfull⟩ := Failures.makeRoom_spec hpruned now
    have hnone : (entries.prune now).lookup key = none := Option.not_isSome_iff_eq_none.mp hpresent
    refine ⟨hroomier, ?_, ?_⟩
    · rcases hroomier.lookup key with hsame | ⟨hforgotten, -⟩
      · exact hsame
      · exact hforgotten.trans hnone.symm
    · by_cases hroom : ((entries.prune now).makeRoom now).length < maxTrackedAdminSources
      · exact .inr (.inl hroom)
      · exact .inr (.inr (hfull (Nat.le_of_not_lt hroom)))

/-- What `record_failure` does to the map: it makes room and counts, or it tracks nothing since
every entry is under a block. -/
theorem recordFailure_cases (h : a.failures.Tidy) (source : Option Text) (detail : String)
    (now : Instant) :
    ((a.recordFailure source detail now).failures = (roomFor a.failures (sourceKey source) now).put
        (sourceKey source) (counted a.baseBackoff
          (((a.failures.prune now).lookup (sourceKey source)).getD (fresh now)) now) ∧
      (((roomFor a.failures (sourceKey source) now).lookup (sourceKey source)).isSome ∨
        (roomFor a.failures (sourceKey source) now).length < maxTrackedAdminSources)) ∨
    (a.failures.prune now).lookup (sourceKey source) = none ∧
      (a.recordFailure source detail now).failures = a.failures.prune now ∧
      maxTrackedAdminSources ≤ (a.failures.prune now).length ∧
      ∀ e ∈ a.failures.prune now, e.2.isBlocked now = true := by
  obtain ⟨-, hsame, hroom⟩ := roomFor_spec h (sourceKey source) now
  rw [recordFailure_failures]
  by_cases hfull : ((roomFor a.failures (sourceKey source) now).lookup (sourceKey source)).isNone ∧
      maxTrackedAdminSources ≤ (roomFor a.failures (sourceKey source) now).length
  · rw [if_pos hfull]
    have hnone := Option.isNone_iff_eq_none.mp hfull.1
    rcases hroom with hpresent | hlt | ⟨heq, hblocked⟩
    · simp [hnone] at hpresent
    · exact absurd hlt (Nat.not_lt.mpr hfull.2)
    · exact .inr ⟨hsame.symm.trans hnone, heq, heq ▸ hfull.2, hblocked⟩
  · rw [if_neg hfull, hsame]
    refine .inl ⟨rfl, ?_⟩
    by_cases hpresent :
        ((roomFor a.failures (sourceKey source) now).lookup (sourceKey source)).isSome
    · exact .inl (hsame ▸ hpresent)
    · refine .inr (Nat.lt_of_not_le fun hlong => hfull ⟨?_, hlong⟩)
      exact Option.isNone_iff_eq_none.mpr (Option.not_isSome_iff_eq_none.mp hpresent)

theorem tidy_recordFailure (h : a.failures.Tidy) (source : Option Text) (detail : String)
    (now : Instant) : (a.recordFailure source detail now).failures.Tidy := by
  obtain ⟨hroomier, -, -⟩ := roomFor_spec h (sourceKey source) now
  have hroom : (roomFor a.failures (sourceKey source) now).Tidy :=
    ⟨hroomier.distinct, Nat.le_trans hroomier.length (h.prune now).bounded⟩
  rcases recordFailure_cases h source detail now with ⟨heq, hfits⟩ | ⟨-, heq, -, -⟩
  · rw [heq]
    exact hroom.put hfits
  · rw [heq]
    exact h.prune now

/-- What `prune` does to an entry. -/
theorem pruned_cases {entries : Failures} (h : entries.Tidy) (x : Text) (now : Instant) :
    (entries.prune now).lookup x = entries.lookup x ∨
      (entries.prune now).lookup x = none ∧ ∃ entry, entries.lookup x = some entry ∧
        entry.isBlocked now = false ∧ adminFailureMemory ≤ now - entry.lastSeen := by
  rw [Failures.lookup_prune h.distinct]
  cases hentry : entries.lookup x with
  | none => exact .inl rfl
  | some entry =>
    rw [Option.filter_some]
    by_cases hkeeps : (entry.isBlocked now || now - entry.lastSeen < adminFailureMemory) = true
    · exact .inl (if_pos hkeeps)
    · rw [if_neg hkeeps]
      simp only [Bool.or_eq_true, decide_eq_true_eq, not_or, Bool.not_eq_true] at hkeeps
      exact .inr ⟨rfl, entry, rfl, hkeeps.1, Nat.le_of_not_lt hkeeps.2⟩

/-- The failure of another source leaves an entry alone, or forgets it if it is under no block. -/
theorem recordFailure_other (h : a.failures.Tidy) {source : Option Text} {x : Text}
    (hx : x ≠ sourceKey source) (detail : String) (now : Instant) :
    (a.recordFailure source detail now).failures.lookup x = a.failures.lookup x ∨
      (a.recordFailure source detail now).failures.lookup x = none ∧
        ∃ entry, a.failures.lookup x = some entry ∧ entry.isBlocked now = false := by
  have hpruned : (a.failures.prune now).lookup x = a.failures.lookup x ∨
      (a.failures.prune now).lookup x = none ∧
        ∃ entry, a.failures.lookup x = some entry ∧ entry.isBlocked now = false := by
    rcases pruned_cases h x now with hsame | ⟨hnone, entry, hentry, hfree, -⟩
    · exact .inl hsame
    · exact .inr ⟨hnone, entry, hentry, hfree⟩
  rcases recordFailure_cases h source detail now with ⟨heq, -⟩ | ⟨-, heq, -, -⟩
  · have hafter : (a.recordFailure source detail now).failures.lookup x =
        (roomFor a.failures (sourceKey source) now).lookup x := by
      rw [heq, Failures.put_eq, lookup_put, if_neg hx]
    rw [hafter]
    obtain ⟨hroomier, -, -⟩ := roomFor_spec h (sourceKey source) now
    rcases hroomier.lookup x with hkept | ⟨hnone, entry, hentry, hfree⟩
    · rw [hkept]
      exact hpruned
    · rcases pruned_cases h x now with hsame | ⟨hgone, -⟩
      · exact .inr ⟨hnone, entry, hsame.symm.trans hentry, hfree⟩
      · exact absurd (hgone.symm.trans hentry) nofun
  · rw [heq]
    exact hpruned

/-- What a call does to the entry of its own source. -/
inductive Own (a : AdminAuthenticator) (after : Failures) (x : Text) (begun ended : Instant) :
    Except AdminAuthFailure Unit → Prop where
  | cleared (hafter : after.lookup x = none) : Own a after x begun ended (.ok ())
  | throttled (entry : FailureState) (deadline : Instant)
      (hbefore : a.failures.lookup x = some entry) (hdeadline : entry.blockedUntil = some deadline)
      (hblocked : begun < deadline)
      (hafter : after.lookup x = some { entry with lastSeen := begun }) :
      Own a after x begun ended (.error (.throttled (deadline - begun)))
  | counted (failure : AdminAuthFailure) (hfailure : ∀ retryAfter, failure ≠ .throttled retryAfter)
      (hfree : ∀ entry, a.failures.lookup x = some entry → entry.isBlocked begun = false)
      (hafter : after.lookup x = some (AdminAuthenticator.counted a.baseBackoff
        ((((seen a.failures x begun).prune ended).lookup x).getD (fresh ended)) ended)) :
      Own a after x begun ended (.error failure)
  | untracked (failure : AdminAuthFailure)
      (hfailure : ∀ retryAfter, failure ≠ .throttled retryAfter)
      (hfree : ∀ entry, a.failures.lookup x = some entry → entry.isBlocked begun = false)
      (hbefore : ((seen a.failures x begun).prune ended).lookup x = none)
      (hafter : after.lookup x = none)
      (hfull : maxTrackedAdminSources ≤ after.length)
      (hblocked : ∀ e ∈ after, e.2.isBlocked ended = true) :
      Own a after x begun ended (.error failure)

/-- What a call does to the entry of another source. -/
def Leaves (before after : Failures) (x : Text) (ended : Instant) : Prop :=
  after.lookup x = before.lookup x ∨
    after.lookup x = none ∧
      ∃ entry, before.lookup x = some entry ∧ entry.isBlocked ended = false

/-- What a call does. -/
structure Answers (a : AdminAuthenticator) (source : Option Text) (begun ended : Instant)
    (answered : AdminAuthenticator × Except AdminAuthFailure Unit) : Prop where
  tidy : answered.1.failures.Tidy
  available : answered.1.available = a.available
  baseBackoff : answered.1.baseBackoff = a.baseBackoff
  verifier : answered.1.verifier = a.verifier
  own : Own a answered.1.failures (sourceKey source) begun ended answered.2
  other : ∀ x, x ≠ sourceKey source → Leaves a.failures answered.1.failures x ended

theorem recordFailure_baseBackoff (a : AdminAuthenticator) (source : Option Text) (detail : String)
    (now : Instant) : (a.recordFailure source detail now).baseBackoff = a.baseBackoff := by
  unfold recordFailure
  dsimp only
  split_ifs <;> rfl

theorem answers_countOrThrottle (h : a.failures.Tidy) (source : Option Text) (detail : String)
    {failure : AdminAuthFailure} (hfailure : ∀ retryAfter, failure ≠ .throttled retryAfter)
    {begun ended : Instant} :
    Answers a source begun ended ((a.countOrThrottle source detail failure begun ended).1,
      .error (a.countOrThrottle source detail failure begun ended).2) := by
  have hseen : (a.blockedFor source begun).1.failures.Tidy :=
    blockedFor_failures a source begun ▸ tidy_seen h
  have hfailures := blockedFor_failures a source begun
  have hbase := blockedFor_baseBackoff a source begun
  have hverifier := blockedFor_verifier a source begun
  have havailable := blockedFor_available a source begun
  have hsome := @blockedFor_eq_some a source begun
  have hnone := (blockedFor_eq_none a source begun).mp
  have hother : ∀ x, x ≠ sourceKey source →
      (a.blockedFor source begun).1.failures.lookup x = a.failures.lookup x := by
    intro x hx
    rw [hfailures, lookup_seen, if_neg hx]
  unfold countOrThrottle
  generalize a.blockedFor source begun = blocked at *
  match blocked with
  | (a₁, some retryAfter) =>
    obtain ⟨entry, deadline, hentry, hdeadline, hlt, rfl⟩ := hsome rfl
    refine ⟨hseen, havailable, hbase, hverifier, ?_, fun x hx => .inl (hother x hx)⟩
    refine .throttled entry deadline hentry hdeadline hlt ?_
    show a₁.failures.lookup _ = _
    rw [hfailures, lookup_seen, if_pos rfl, hentry]
    rfl
  | (a₁, none) =>
    refine ⟨tidy_recordFailure hseen source detail ended, ?_, ?_, ?_, ?_, fun x hx => ?_⟩
    · exact (recordFailure_available a₁ source detail ended).trans havailable
    · exact (recordFailure_baseBackoff a₁ source detail ended).trans hbase
    · exact (recordFailure_verifier a₁ source detail ended).trans hverifier
    · rcases recordFailure_cases hseen source detail ended with
        ⟨heq, -⟩ | ⟨habsent, heq, hfull, hblocked⟩
      · refine .counted failure hfailure (hnone rfl) ?_
        rw [heq, Failures.put_eq, lookup_put, if_pos rfl, hbase, hfailures]
      · refine .untracked failure hfailure (hnone rfl) (hfailures ▸ habsent) ?_ ?_ ?_
        all_goals rw [heq]
        · exact habsent
        · exact hfull
        · exact hblocked
    · rcases recordFailure_other hseen hx detail ended with hsame | ⟨hgone, entry, hentry, hfree⟩
      · exact .inl (hsame.trans (hother x hx))
      · exact .inr ⟨hgone, entry, (hother x hx).symm.trans hentry, hfree⟩

/-- Nobody else holds a permit: no call is turned away as busy. -/
theorem answers_answer (h : a.failures.Tidy) (hpermit : 0 < a.available)
    (credential : Option (List UInt8)) (source : Option Text) {begun ended : Instant} :
    Answers a source begun ended (a.answer sha256 credential source begun ended) := by
  unfold answer
  cases credential with
  | none =>
    refine answers_countOrThrottle h source _ ?_
    intro retryAfter heq
    cases heq
  | some presented =>
    dsimp only
    split_ifs with hlong hbusy hcorrect
    · refine answers_countOrThrottle h source _ ?_
      intro retryAfter heq
      cases heq
    · exact absurd hbusy (Nat.ne_of_gt hpermit)
    · refine ⟨⟨h.distinct.remove, Nat.le_trans (List.length_filter_le _ _) h.bounded⟩, rfl, rfl,
        rfl, .cleared ?_, fun x hx => .inl ?_⟩
      · exact lookup_remove.trans (if_pos rfl)
      · exact lookup_remove.trans (if_neg hx)
    · refine answers_countOrThrottle h source _ ?_
      intro retryAfter heq
      cases heq

end AdminAuthenticator

/-- A call that was answered. -/
structure Answered where
  source : Text
  begun : Instant
  ended : Instant
  result : Except AdminAuthFailure Unit

/-- An authenticator between two calls, with the calls it answered, the newest first. -/
structure AdminRun where
  auth : AdminAuthenticator
  log : List Answered

namespace AdminRun

/-- A call with what the clock says when it begins and when its failure is counted, or a change of
the order in which the map is iterated over. -/
inductive Label where
  | call (credential : Option (List UInt8)) (source : Option Text) (begun ended : Instant)
  | rehash (entries : Failures)

def init (sha256 : List UInt8 → Digest) (verifier : List UInt8) (maxInflight : Nat)
    (baseBackoff : Duration) (now : Instant) : AdminRun :=
  { auth := .new sha256 verifier maxInflight baseBackoff now, log := [] }

/-- The next call; time does not go back. -/
def next (sha256 : List UInt8 → Digest) (w : AdminRun) : Label → Option AdminRun
  | .call credential source begun ended =>
    if w.auth.now ≤ begun ∧ begun ≤ ended then
      let answered := w.auth.answer sha256 credential source begun ended
      some { auth := { answered.1 with now := ended }
             log := { source := sourceKey source, begun, ended, result := answered.2 } :: w.log }
    else none
  | .rehash entries =>
    if entries.Perm w.auth.failures then
      some { w with auth := { w.auth with failures := entries } }
    else none

variable {sha256 : List UInt8 → Digest} {w w' : AdminRun} {l : Label} {x : Text}

/-- The entry of a source. -/
def slot? (w : AdminRun) (x : Text) : Option FailureState := w.auth.failures.lookup x

/-- The call is one of the source, and accepted. -/
def Succeeds (sha256 : List UInt8 → Digest) (x : Text) (w : AdminRun) : Label → Prop
  | .call credential source begun ended =>
    sourceKey source = x ∧ (w.auth.answer sha256 credential source begun ended).2 = .ok ()
  | .rehash _ => False

/-- What a run never loses. -/
structure Sound (w : AdminRun) : Prop where
  tidy : w.auth.failures.Tidy
  permit : 0 < w.auth.available

/-- A step of the run: a call that is answered, or another order of the map. -/
theorem next_cases (hw : Sound w) (h : w.next sha256 l = some w') :
    (∃ credential source begun ended, l = .call credential source begun ended ∧
      w.auth.now ≤ begun ∧ begun ≤ ended ∧ w'.auth.now = ended ∧
      w'.log = { source := sourceKey source, begun, ended,
                 result := (w.auth.answer sha256 credential source begun ended).2 } :: w.log ∧
      w'.auth.failures = (w.auth.answer sha256 credential source begun ended).1.failures ∧
      AdminAuthenticator.Answers w.auth source begun ended
        (w'.auth, (w.auth.answer sha256 credential source begun ended).2)) ∨
    (∃ entries, l = .rehash entries) ∧ w'.auth.now = w.auth.now ∧ w'.log = w.log ∧
      w'.auth.available = w.auth.available ∧ w'.auth.baseBackoff = w.auth.baseBackoff ∧
      w'.auth.failures.Tidy ∧ ∀ x, w'.slot? x = w.slot? x := by
  cases l with
  | call credential source begun ended =>
    simp only [next] at h
    split_ifs at h with htimes
    obtain rfl := Option.some.inj h
    refine .inl ⟨_, _, _, _, rfl, htimes.1, htimes.2, rfl, rfl, rfl, ?_⟩
    have hanswers : AdminAuthenticator.Answers w.auth source begun ended
        (w.auth.answer sha256 credential source begun ended) :=
      AdminAuthenticator.answers_answer hw.tidy hw.permit credential source
    exact ⟨hanswers.tidy, hanswers.available, hanswers.baseBackoff, hanswers.verifier, hanswers.own,
      hanswers.other⟩
  | rehash entries =>
    simp only [next] at h
    split_ifs at h with hperm
    obtain rfl := Option.some.inj h
    refine .inr ⟨⟨entries, rfl⟩, rfl, rfl, rfl, rfl, ⟨?_, hperm.length_eq ▸ hw.tidy.bounded⟩,
      fun x => ?_⟩
    · exact (hw.tidy.distinct.lookup_perm (k := []) hperm).1
    · exact (hw.tidy.distinct.lookup_perm hperm).2

theorem sound_next (hw : Sound w) (h : w.next sha256 l = some w') : Sound w' := by
  rcases next_cases hw h with ⟨credential, source, begun, ended, -, -, -, -, -, -, hanswers⟩ |
    ⟨-, -, -, havailable, -, htidy, -⟩
  · exact ⟨hanswers.tidy, hanswers.available ▸ hw.permit⟩
  · exact ⟨htidy, havailable ▸ hw.permit⟩

theorem sound_init {maxInflight : Nat} (h : 0 < maxInflight) (verifier : List UInt8)
    (baseBackoff : Duration) (now : Instant) :
    Sound (init sha256 verifier maxInflight baseBackoff now) :=
  ⟨⟨List.nodup_nil, Nat.zero_le _⟩, h⟩

theorem sound_run {maxInflight : Nat} (h : 0 < maxInflight) {verifier : List UInt8}
    {baseBackoff : Duration} {now : Instant} {ls : List Label}
    (hrun : Trace.run (next sha256) (init sha256 verifier maxInflight baseBackoff now) ls =
      some w) : Sound w := by
  have hall : Trace.AllStates (next sha256) Sound
      (init sha256 verifier maxInflight baseBackoff now) ls :=
    Trace.AllStates.of_next (fun _ _ _ => sound_next) (sound_init h verifier baseBackoff now)
  exact hall.last hrun

/-! ## Blocks -/

/-- The source is blocked until `deadline`. -/
def Blocked (x : Text) (deadline : Instant) (failures : Failures) : Prop :=
  ∃ entry, failures.lookup x = some entry ∧ entry.blockedUntil = some deadline

theorem isBlocked_of_lt {deadline now : Instant} {entry : FailureState}
    (h : entry.blockedUntil = some deadline) (hnow : now < deadline) :
    entry.isBlocked now = true := by
  simp [FailureState.isBlocked, h, hnow]

/-- A call of a blocked source is accepted, or it is told how long the block lasts and leaves it as
it is. -/
theorem blocked_own {a : AdminAuthenticator} {after : Failures} {deadline begun ended : Instant}
    {result : Except AdminAuthFailure Unit} (h : Blocked x deadline a.failures)
    (hbegun : begun < deadline) (hown : AdminAuthenticator.Own a after x begun ended result) :
    result = .ok () ∧ after.lookup x = none ∨
      result = .error (.throttled (deadline - begun)) ∧ Blocked x deadline after := by
  obtain ⟨entry, hentry, hdeadline⟩ := h
  have hactive : entry.isBlocked begun = true := isBlocked_of_lt hdeadline hbegun
  cases hown with
  | cleared hafter => exact .inl ⟨rfl, hafter⟩
  | throttled before later hbefore hlater hblocked hafter =>
    obtain rfl := Option.some.inj (hbefore.symm.trans hentry)
    obtain rfl := Option.some.inj (hlater.symm.trans hdeadline)
    exact .inr ⟨rfl, _, hafter, hlater⟩
  | counted failure _ hfree _ => simp [hfree entry hentry] at hactive
  | untracked failure _ hfree _ _ _ _ => simp [hfree entry hentry] at hactive

/-- The step lemma of a block. -/
theorem blocked_next {deadline : Instant} (hw : Sound w) (h : Blocked x deadline w.auth.failures)
    (hfails : ¬ Succeeds sha256 x w l) (hnext : w.next sha256 l = some w')
    (hrunning : w'.auth.now < deadline) : Blocked x deadline w'.auth.failures := by
  rcases next_cases hw hnext with
    ⟨credential, source, begun, ended, rfl, -, hle, rfl, -, -, hanswers⟩ | ⟨-, -, -, -, -, -, hsame⟩
  · by_cases hx : x = sourceKey source
    · subst hx
      rcases blocked_own h (Nat.lt_of_le_of_lt hle hrunning) hanswers.own with
        ⟨hok, -⟩ | ⟨-, hafter⟩
      · exact absurd ⟨rfl, hok⟩ hfails
      · exact hafter
    · obtain ⟨entry, hentry, hdeadline⟩ := h
      rcases hanswers.other x hx with hkept | ⟨-, before, hbefore, hfree⟩
      · exact ⟨entry, hkept.trans hentry, hdeadline⟩
      · obtain rfl := Option.some.inj (hbefore.symm.trans hentry)
        simp [isBlocked_of_lt hdeadline hrunning] at hfree
  · obtain ⟨entry, hentry, hdeadline⟩ := h
    exact ⟨entry, (hsame x).trans hentry, hdeadline⟩

theorem now_next (hw : Sound w) (h : w.next sha256 l = some w') : w.auth.now ≤ w'.auth.now := by
  rcases next_cases hw h with ⟨_, _, begun, ended, -, hbegun, hle, rfl, -⟩ | ⟨-, hsame, -⟩
  · exact Nat.le_trans hbegun hle
  · exact Nat.le_of_eq hsame.symm

/-- The run lemma of a block. -/
theorem blocked_run {deadline : Instant} (hw : Sound w) (h : Blocked x deadline w.auth.failures)
    {ls : List Label}
    (hfails : Trace.AllSteps (next sha256) (fun w l => ¬ Succeeds sha256 x w l) w ls)
    (hrun : Trace.run (next sha256) w ls = some w') (hrunning : w'.auth.now < deadline) :
    Blocked x deadline w'.auth.failures := by
  have hall : Trace.AllStates (next sha256) (fun v => Sound v ∧
      (v.auth.now < deadline → Blocked x deadline v.auth.failures)) w ls := by
    refine Trace.AllStates.of_invariant (fun v l v' hv hfail hnext => ?_) ⟨hw, fun _ => h⟩ hfails
    obtain ⟨hsound, hblocked⟩ := hv
    refine ⟨sound_next hsound hnext, fun hrunning => ?_⟩
    have hbefore : v.auth.now < deadline := Nat.lt_of_le_of_lt (now_next hsound hnext) hrunning
    exact blocked_next hsound (hblocked hbefore) hfail hnext hrunning
  exact (hall.last hrun).2 hrunning

/-- **Blocks hold.** The map is bounded. A source that is blocked stays so until `deadline`, neither
longer nor shorter, whatever calls follow, unless one of its own is accepted; and a call of its own
is accepted, which clears it, or is told how long the block lasts and leaves it as it is. -/
theorem blocks_hold (sha256 : List UInt8 → Digest) (verifier : List UInt8) {maxInflight : Nat}
    (hpermits : 0 < maxInflight) (baseBackoff : Duration) (now : Instant) {ls : List Label}
    (hrun : Trace.run (next sha256) (init sha256 verifier maxInflight baseBackoff now) ls =
      some w) :
    w.auth.failures.length ≤ maxTrackedAdminSources ∧
    ∀ x deadline, Blocked x deadline w.auth.failures →
      ∀ ls' w', Trace.run (next sha256) w ls' = some w' →
        Trace.AllSteps (next sha256) (fun w l => ¬ Succeeds sha256 x w l) w ls' →
        w'.auth.now < deadline →
        Blocked x deadline w'.auth.failures ∧
        ∀ credential source begun ended, sourceKey source = x → begun < deadline →
          let answered := w'.auth.answer sha256 credential source begun ended
          answered.2 = .ok () ∧ answered.1.failures.lookup x = none ∨
            answered.2 = .error (.throttled (deadline - begun)) ∧
              Blocked x deadline answered.1.failures := by
  have hw : Sound w := sound_run hpermits hrun
  refine ⟨hw.tidy.bounded, fun x deadline hblocked ls' w' hrun' hfails hrunning => ?_⟩
  have hblocked' : Blocked x deadline w'.auth.failures :=
    blocked_run hw hblocked hfails hrun' hrunning
  refine ⟨hblocked', ?_⟩
  rintro credential source begun ended rfl hbegun
  have hall : Trace.AllStates (next sha256) Sound w ls' :=
    Trace.AllStates.of_next (fun _ _ _ => sound_next) hw
  have hw' : Sound w' := hall.last hrun'
  have hanswers : AdminAuthenticator.Answers w'.auth source begun ended
      (w'.auth.answer sha256 credential source begun ended) :=
    AdminAuthenticator.answers_answer hw'.tidy hw'.permit credential source
  exact blocked_own hblocked' hbegun hanswers.own

/-- One failure blocks a source for 100 ms, and the failure of another one does not change that. -/
theorem blocks_hold_sample : ∃ w',
    Trace.run (next id) (init id [1] 4 defaultAdminFailureBackoff 0)
      [.call none (some ['a']) 0 0, .call none (some ['b']) 1 1] = some w' ∧
    (w'.auth.answer id (some [2]) (some ['a']) 2 2).2 =
      .error (.throttled (.fromMillis 100 - 2)) := by
  obtain ⟨w, hrun, hblocked⟩ : ∃ w,
      Trace.run (next id) (init id [1] 4 defaultAdminFailureBackoff 0)
        [.call none (some ['a']) 0 0] = some w ∧
      Blocked ['a'] (Duration.fromMillis 100) w.auth.failures := ⟨_, rfl, _, rfl, rfl⟩
  obtain ⟨w', hrun', hboth, hnow, hother⟩ : ∃ w',
      Trace.run (next id) w [.call none (some ['b']) 1 1] = some w' ∧
      Trace.run (next id) (init id [1] 4 defaultAdminFailureBackoff 0)
        [.call none (some ['a']) 0 0, .call none (some ['b']) 1 1] = some w' ∧
      w'.auth.now < Duration.fromMillis 100 ∧
        (w'.auth.answer id (some [2]) (some ['a']) 2 2).2 ≠ .ok () := by
    obtain rfl := Option.some.inj hrun
    exact ⟨_, rfl, rfl, by decide, nofun⟩
  refine ⟨w', hboth, ?_⟩
  have hfails : Trace.AllSteps (next id) (fun w l => ¬ Succeeds id ['a'] w l) w
      [.call none (some ['b']) 1 1] := fun _ _ => ⟨by simp [Succeeds, sourceKey], trivial⟩
  have hhold := (blocks_hold id [1] (by decide) defaultAdminFailureBackoff 0 hrun).2 ['a'] _
    hblocked _ w' hrun' hfails hnow
  rcases hhold.2 (some [2]) (some ['a']) 2 2 rfl (by decide) with ⟨hok, -⟩ | ⟨hthrottled, -⟩
  · exact absurd hok hother
  · exact hthrottled

end AdminRun

end OpenabPty
