import OpenabPty.Manager
import Mathlib.Data.List.Induction
import Mathlib.Data.Set.Function

/-!
# The token store as a function of its history

The store keeps one entry per name, which `mint_for_session` overwrites, `revoke_session`
removes and `verify` deletes once it has expired. What `verify` answers is a function of the
history alone: of the last event of the session, a mint or a revocation.
-/

namespace OpenabPty

/-- A call of `TokenStore` or of its `AttachVerifier`. -/
inductive TokenRequest where
  | mintForSession (session : SessionName) (generation : Generation) (raw : Option (List UInt8))
  | revokeSession (session : SessionName)
  | verify (session : SessionName) (generation : Generation) (presented : List UInt8)
  deriving DecidableEq

/-- A call and what its clock read. -/
structure TokenCall where
  now : Instant
  request : TokenRequest
  deriving DecidableEq

/-- A call that may change what the tokens of a session are. -/
def TokenCall.changes (session : SessionName) (c : TokenCall) : Prop :=
  match c.request with
  | .mintForSession other _ _ | .revokeSession other => other = session
  | .verify .. => False

instance (session : SessionName) : ∀ c : TokenCall, Decidable (c.changes session)
  | ⟨_, .mintForSession other _ _⟩ => inferInstanceAs (Decidable (other = session))
  | ⟨_, .revokeSession other⟩ => inferInstanceAs (Decidable (other = session))
  | ⟨_, .verify ..⟩ => inferInstanceAs (Decidable False)

/-- What happened to the tokens of a session. -/
inductive TokenEvent where
  | minted (token : MintedAttachToken)
  | revoked (session : SessionName)
  deriving DecidableEq

def TokenEvent.session : TokenEvent → SessionName
  | .minted token => token.grant.session
  | .revoked session => session

/-- The store and its history, the last event first. -/
structure TokenRun where
  entries : TokenEntries
  log : List TokenEvent

namespace TokenRun

def init : TokenRun := { entries := ∅, log := [] }

/-- One call. A mint that fails is no event. -/
def call (sha256 : List UInt8 → Digest) (ttl : Duration) (w : TokenRun) (c : TokenCall) :
    TokenRun :=
  match c.request with
  | .mintForSession session generation raw =>
    let minted := w.entries.mintForSession sha256 ttl session generation raw c.now
    { entries := minted.1
      log := match minted.2 with
        | .ok token => .minted token :: w.log
        | .error _ => w.log }
  | .revokeSession session =>
    { entries := w.entries.revokeSession session, log := .revoked session :: w.log }
  | .verify session generation presented =>
    { w with entries := (w.entries.verify sha256 session generation presented c.now).1 }

def run (sha256 : List UInt8 → Digest) (ttl : Duration) (calls : List TokenCall) : TokenRun :=
  calls.foldl (call sha256 ttl) init

/-- The last mint or revocation of a session. -/
def lastEvent (w : TokenRun) (session : SessionName) : Option TokenEvent :=
  w.log.find? (·.session = session)

/-- The tokens that were minted. -/
def tokens (w : TokenRun) : Set (List UInt8) :=
  {token | ∃ minted, .minted minted ∈ w.log ∧ minted.plaintext = token}

variable {sha256 : List UInt8 → Digest} {ttl : Duration} {w : TokenRun} {c : TokenCall}
  {session : SessionName} {generation : Generation} {presented : List UInt8} {now : Instant}

theorem run_concat (calls : List TokenCall) (c : TokenCall) :
    run sha256 ttl (calls ++ [c]) = (run sha256 ttl calls).call sha256 ttl c := by
  rw [run, List.foldl_concat, run]

/-! ## The store represents the last events -/

/-- What the store has of a session whose last event is given: the hash of the token that was
minted, unless it has expired. -/
def Stores (sha256 : List UInt8 → Digest) (now : Instant) (session : SessionName)
    (stored : Option StoredAttachToken) : Option TokenEvent → Prop
  | some (.minted token) =>
    token.grant.session = session ∧ token.grant.scope = .attachOnly ∧
      (stored = some (token.stored sha256) ∨ stored = none ∧ token.grant.expiresAt ≤ now)
  | _ => stored = none

/-- The store at the instant `now`. -/
def Represents (sha256 : List UInt8 → Digest) (now : Instant) (w : TokenRun) : Prop :=
  ∀ session, Stores sha256 now session w.entries[session]? (w.lastEvent session)

theorem represents_init : Represents sha256 now init := by
  intro session
  simp [init, lastEvent, Stores]

theorem Stores.mono {stored : Option StoredAttachToken} {event : Option TokenEvent}
    {later : Instant} (h : Stores sha256 now session stored event) (hle : now ≤ later) :
    Stores sha256 later session stored event := by
  match event, h with
  | some (.minted token), ⟨hsession, hscope, hstored⟩ =>
    refine ⟨hsession, hscope, ?_⟩
    rcases hstored with hstored | ⟨hstored, hexpired⟩
    · exact .inl hstored
    · exact .inr ⟨hstored, hexpired.trans hle⟩
  | some (.revoked _), h => exact h
  | none, h => exact h

theorem Represents.mono {later : Instant} (h : w.Represents sha256 now) (hle : now ≤ later) :
    w.Represents sha256 later := fun session => (h session).mono hle

/-- An entry in the store is that of the last event, a mint. -/
theorem Stores.minted {stored : StoredAttachToken} {event : Option TokenEvent}
    (h : Stores sha256 now session (some stored) event) :
    ∃ token, event = some (.minted token) ∧ token.grant.session = session ∧
      token.grant.scope = .attachOnly ∧ stored = token.stored sha256 := by
  match event, h with
  | some (.minted token), ⟨hsession, hscope, hstored⟩ =>
    rcases hstored with hstored | ⟨hnone, -⟩
    · exact ⟨token, rfl, hsession, hscope, Option.some.inj hstored⟩
    · cases hnone

/-- The last event after a mint or a revocation. -/
theorem lastEvent_cons {entries : TokenEntries} {event : TokenEvent} {log : List TokenEvent} :
    lastEvent { entries, log := event :: log } session =
      if event.session = session then some event
      else lastEvent { entries, log } session := by
  simp only [lastEvent, List.find?_cons]
  split <;> rename_i h
  · rw [if_pos (of_decide_eq_true h)]
  · rw [if_neg (of_decide_eq_false h)]

theorem lastEvent_entries {entries : TokenEntries} :
    lastEvent { w with entries } session = w.lastEvent session := rfl

theorem Represents.mint (h : w.Represents sha256 now) (token : MintedAttachToken)
    (hscope : token.grant.scope = .attachOnly) :
    Represents sha256 now
      { entries := w.entries.insert token.grant.session (token.stored sha256)
        log := .minted token :: w.log } := by
  intro session
  rw [lastEvent_cons]
  split <;> rename_i hsession
  · have hsession : token.grant.session = session := hsession
    refine ⟨hsession, hscope, .inl ?_⟩
    rw [hsession]
    exact Std.TreeMap.getElem?_insert_self
  · have hsession : token.grant.session ≠ session := hsession
    rw [Std.TreeMap.getElem?_insert, if_neg (by simpa using hsession)]
    exact h session

theorem Represents.revoke (h : w.Represents sha256 now) (revoked : SessionName) :
    Represents sha256 now
      { entries := w.entries.revokeSession revoked, log := .revoked revoked :: w.log } := by
  intro session
  rw [lastEvent_cons, TokenEntries.revokeSession, Std.TreeMap.getElem?_erase]
  by_cases hsession : revoked = session
  · have hevent : (TokenEvent.revoked revoked).session = session := hsession
    rw [if_pos (by simpa using hsession), if_pos hevent]
    rfl
  · have hevent : ¬ (TokenEvent.revoked revoked).session = session := hsession
    rw [if_neg (by simpa using hsession), if_neg hevent]
    exact h session

/-- `verify` deletes nothing but what has expired. -/
theorem Represents.verify (h : w.Represents sha256 now) (verified : SessionName)
    (generation : Generation) (presented : List UInt8) :
    Represents sha256 now
      { w with entries := (w.entries.verify sha256 verified generation presented now).1 } := by
  rcases w.entries.verify_entries sha256 verified generation presented now with
    hsame | ⟨stored, hstored, hexpired, herased⟩
  · rw [hsame]
    exact h
  · rw [herased]
    intro session
    rw [lastEvent_entries, Std.TreeMap.getElem?_erase]
    split <;> rename_i hsession
    · obtain rfl : verified = session := by simpa using hsession
      have hstores := h verified
      rw [hstored] at hstores
      obtain ⟨token, hlast, htoken, hscope, rfl⟩ := hstores.minted
      rw [hlast]
      exact ⟨htoken, hscope, .inr ⟨rfl, hexpired⟩⟩
    · exact h session

theorem Represents.call (h : w.Represents sha256 c.now) :
    (w.call sha256 ttl c).Represents sha256 c.now := by
  obtain ⟨now, request⟩ := c
  cases request with
  | mintForSession session generation raw =>
    rcases w.entries.mintForSession_cases sha256 ttl session generation raw now with
      ⟨error, herror⟩ | ⟨token, hok, hgrant, -⟩
    · simp only [TokenRun.call, herror]
      exact h
    · simp only [TokenRun.call, hok]
      have hminted := h.mint token (by rw [hgrant])
      rw [hgrant] at hminted
      exact hminted
  | revokeSession session => exact h.revoke session
  | verify session generation presented => exact h.verify session generation presented

/-- After any calls at instants that do not decrease. -/
theorem represents_run {calls : List TokenCall}
    (htimes : (calls.map TokenCall.now ++ [now]).Pairwise (· ≤ ·)) :
    (run sha256 ttl calls).Represents sha256 now := by
  induction calls using List.reverseRecOn generalizing now with
  | nil => exact represents_init
  | append_singleton calls c ih =>
    rw [List.map_append, List.map_singleton] at htimes
    obtain ⟨hbefore, -, hafter⟩ := List.pairwise_append.mp htimes
    rw [run_concat]
    refine (ih hbefore).call.mono (hafter c.now ?_ now (List.mem_singleton_self now))
    exact List.mem_append_right _ (List.mem_singleton_self c.now)

/-! ## What `verify` answers -/

/-- The store says yes exactly to the token of the last event, when no other token has its
hash. -/
theorem Represents.verify_eq_ok_iff (h : w.Represents sha256 now)
    (hinj : ∀ token, w.lastEvent session = some (.minted token) →
      sha256 presented = sha256 token.plaintext → token.plaintext = presented)
    (generation : Generation) (grant : AttachGrant) :
    (w.entries.verify sha256 session generation presented now).2 = .ok grant ↔
      ∃ token, w.lastEvent session = some (.minted token) ∧
        token.grant.generation = generation ∧ token.plaintext = presented ∧
        now < token.grant.expiresAt ∧ token.grant = grant := by
  constructor
  · intro hok
    unfold TokenEntries.verify at hok
    split at hok
    · rename_i stored hstored
      have hstores := h session
      rw [hstored] at hstores
      obtain ⟨token, hlast, rfl, hscope, rfl⟩ := hstores.minted
      split at hok
      · rename_i haccepts
        obtain ⟨hlive, hgeneration, hhash⟩ := StoredAttachToken.accepts_iff.mp haccepts
        exact ⟨token, hlast, hgeneration, hinj token hlast hhash, hlive, Except.ok.inj hok⟩
      · split at hok <;> cases hok
    · cases hok
  · rintro ⟨token, hlast, hgeneration, hplaintext, hlive, rfl⟩
    have hstores := h session
    rw [hlast] at hstores
    obtain ⟨hsession, hscope, hstored | ⟨-, hexpired⟩⟩ := hstores
    · rw [TokenEntries.verify_of_entry hstored hscope hgeneration (by rw [← hplaintext]; rfl) hlive,
        ← hsession, ← hgeneration, ← hscope]
      rfl
    · exact absurd hlive (Nat.not_lt.mpr hexpired)

/-- What it does not say yes to is `Unauthorized`. -/
theorem verify_result (entries : TokenEntries) :
    (∃ grant, (entries.verify sha256 session generation presented now).2 = .ok grant) ∨
      (entries.verify sha256 session generation presented now).2 = .error .unauthorized := by
  unfold TokenEntries.verify
  split
  · split
    · exact .inl ⟨_, rfl⟩
    · split <;> exact .inr rfl
  · exact .inr rfl

/-- Two stores that say yes to the same answer the same. -/
theorem verify_congr {entries entries' : TokenEntries}
    (h : ∀ grant, (entries.verify sha256 session generation presented now).2 = .ok grant ↔
      (entries'.verify sha256 session generation presented now).2 = .ok grant) :
    (entries.verify sha256 session generation presented now).2 =
      (entries'.verify sha256 session generation presented now).2 := by
  rcases verify_result entries with ⟨grant, hok⟩ | herror
  · rw [hok, (h grant).mp hok]
  · rcases verify_result entries' with ⟨grant, hok⟩ | herror'
    · rw [(h grant).mpr hok] at herror
      cases herror
    · rw [herror, herror']

/-! ## Calls that do not matter -/

/-- What a mint returns does not depend on the store. -/
theorem mintForSession_result (entries other : TokenEntries) (raw : Option (List UInt8)) :
    (entries.mintForSession sha256 ttl session generation raw now).2 =
      (other.mintForSession sha256 ttl session generation raw now).2 := by
  unfold TokenEntries.mintForSession
  split
  · rfl
  · cases raw <;> rfl

/-- A call changes the last event of no other session. -/
theorem lastEvent_call_of_not_changes (h : ¬ c.changes session) :
    (w.call sha256 ttl c).lastEvent session = w.lastEvent session := by
  obtain ⟨now, request⟩ := c
  cases request with
  | mintForSession other generation raw =>
    rcases w.entries.mintForSession_cases sha256 ttl other generation raw now with
      ⟨error, herror⟩ | ⟨token, hok, hgrant, -⟩
    · simp only [call, herror]
    · simp only [call, hok]
      rw [lastEvent_cons, if_neg]
      · rfl
      · intro hsession
        refine h ?_
        have hsession : token.grant.session = session := hsession
        rw [hgrant] at hsession
        exact hsession
  | revokeSession other =>
    have hsession : ¬ (TokenEvent.revoked other).session = session := h
    simp only [call]
    rw [lastEvent_cons, if_neg hsession]
    rfl
  | verify other generation presented => rfl

/-- A call does the same to the last event whatever else the store and the history hold. -/
theorem lastEvent_call_congr {w' : TokenRun} (h : w.lastEvent session = w'.lastEvent session)
    (c : TokenCall) :
    (w.call sha256 ttl c).lastEvent session = (w'.call sha256 ttl c).lastEvent session := by
  obtain ⟨now, request⟩ := c
  cases request with
  | mintForSession other generation raw =>
    simp only [call]
    rw [mintForSession_result w.entries w'.entries raw]
    split
    · rw [lastEvent_cons, lastEvent_cons]
      split
      · rfl
      · exact h
    · exact h
  | revokeSession other =>
    simp only [call]
    rw [lastEvent_cons, lastEvent_cons]
    split
    · rfl
    · exact h
  | verify other generation presented => exact h

/-- Calls that do not change the tokens of the session may be left out of the history. -/
theorem lastEvent_run_filter (sha256 : List UInt8 → Digest) (ttl : Duration)
    {calls : List TokenCall} {keeps : TokenCall → Bool}
    (hkeeps : ∀ c ∈ calls, c.changes session → keeps c = true) :
    (run sha256 ttl (calls.filter keeps)).lastEvent session =
      (run sha256 ttl calls).lastEvent session := by
  induction calls using List.reverseRecOn with
  | nil => rfl
  | append_singleton calls c ih =>
    have ih := ih fun c' hc' => hkeeps c' (List.mem_append_left _ hc')
    have hlast := hkeeps c (List.mem_append_right _ (List.mem_singleton_self c))
    rw [List.filter_append, run_concat]
    by_cases hc : keeps c = true
    · rw [List.filter_cons_of_pos hc, List.filter_nil, run_concat]
      exact lastEvent_call_congr ih c
    · rw [List.filter_cons_of_neg hc, List.filter_nil, List.append_nil,
        lastEvent_call_of_not_changes fun hchanges => hc (hlast hchanges)]
      exact ih

/-- The instants of the calls that are kept. -/
theorem times_filter {calls : List TokenCall}
    (htimes : (calls.map TokenCall.now ++ [now]).Pairwise (· ≤ ·)) (keeps : TokenCall → Bool) :
    ((calls.filter keeps).map TokenCall.now ++ [now]).Pairwise (· ≤ ·) :=
  htimes.sublist ((List.filter_sublist.map _).append_right _)

/-- **The store is a function of its history.** After any calls, `verify` returns a grant
exactly when the last event of the session is a mint of this generation and this token that has
not expired, and the grant is that of the mint. Calls that neither mint nor revoke for the
session (every `verify`, whatever it deleted, and every call for another session) may be left
out of the history. -/
theorem verify_eq_ok_iff_lastEvent (sha256 : List UInt8 → Digest) (ttl : Duration)
    (calls : List TokenCall) (session : SessionName) (generation : Generation)
    (presented : List UInt8) (now : Instant)
    (htimes : (calls.map TokenCall.now ++ [now]).Pairwise (· ≤ ·))
    (hinj : Set.InjOn sha256 (insert presented (run sha256 ttl calls).tokens)) :
    (∀ grant, ((run sha256 ttl calls).entries.verify sha256 session generation presented now).2 =
        .ok grant ↔
      ∃ token, (run sha256 ttl calls).lastEvent session = some (.minted token) ∧
        token.grant.generation = generation ∧ token.plaintext = presented ∧
        now < token.grant.expiresAt ∧ token.grant = grant) ∧
    ∀ keeps : TokenCall → Bool, (∀ c ∈ calls, c.changes session → keeps c = true) →
      ((run sha256 ttl (calls.filter keeps)).entries.verify sha256 session generation presented
        now).2 =
      ((run sha256 ttl calls).entries.verify sha256 session generation presented now).2 := by
  have hcollision : ∀ token, (run sha256 ttl calls).lastEvent session = some (.minted token) →
      sha256 presented = sha256 token.plaintext → token.plaintext = presented := by
    intro token hlast hhash
    have hmem : token.plaintext ∈ (run sha256 ttl calls).tokens :=
      ⟨token, List.mem_of_find?_eq_some hlast, rfl⟩
    exact (hinj (Set.mem_insert _ _) (Set.mem_insert_of_mem _ hmem) hhash).symm
  have hall := (represents_run htimes).verify_eq_ok_iff hcollision generation
  refine ⟨hall, fun keeps hkeeps => ?_⟩
  have hlast := lastEvent_run_filter sha256 ttl hkeeps
  have hkept := (represents_run (times_filter htimes keeps)).verify_eq_ok_iff
    (by rw [hlast]; exact hcollision) generation
  rw [hlast] at hkept
  exact verify_congr fun grant => (hkept grant).trans (hall grant).symm

/-- The token of 32 equal bytes. -/
def evenToken (b : UInt8) : List UInt8 := hexEncode (List.replicate 32 b)

/-- SHA-256, on three of these tokens. -/
def evenSha256 (bytes : List UInt8) : Digest :=
  if bytes = evenToken 0 then
    [96, 224, 91, 209, 177, 149, 175, 47, 148, 17, 47, 167, 25, 122, 92, 136, 40, 144, 88, 132, 12,
      231, 198, 223, 150, 147, 117, 107, 198, 37, 15, 85]
  else if bytes = evenToken 1 then
    [88, 186, 221, 155, 69, 81, 69, 180, 135, 173, 36, 199, 242, 89, 204, 67, 124, 196, 255, 208,
      120, 71, 22, 132, 82, 73, 50, 31, 181, 150, 28, 252]
  else if bytes = evenToken 2 then
    [116, 159, 26, 151, 255, 108, 208, 14, 164, 108, 203, 58, 71, 187, 18, 50, 131, 254, 86, 200,
      250, 50, 75, 234, 41, 93, 146, 143, 85, 129, 97, 223]
  else []

/-- A session besides `sh`. -/
def logs : SessionName := ⟨[108, 111, 103, 115], by decide⟩

/-- The token of `sh` expires, and `verify` deletes its entry; that of `logs` is revoked; both
sessions get another one. -/
def twoSessions : List TokenCall :=
  [⟨0, .mintForSession .sh ⟨1⟩ (some (List.replicate 32 0))⟩,
    ⟨Duration.fromSecs 1, .mintForSession logs ⟨1⟩ (some (List.replicate 32 1))⟩,
    ⟨Duration.fromSecs 2, .verify logs ⟨1⟩ (evenToken 1)⟩,
    ⟨Duration.fromSecs 30, .revokeSession logs⟩,
    ⟨Duration.fromSecs 61, .verify .sh ⟨1⟩ (evenToken 0)⟩,
    ⟨Duration.fromSecs 62, .mintForSession .sh ⟨2⟩ (some (List.replicate 32 2))⟩,
    ⟨Duration.fromSecs 63, .mintForSession logs ⟨1⟩ (some (List.replicate 32 0))⟩,
    ⟨Duration.fromSecs 64, .verify .sh ⟨2⟩ (evenToken 0)⟩]

/-- A mint of one of the three tokens. -/
def evenMint (b : UInt8) (session : SessionName) (generation : Nat) (expiresAt : Instant) :
    TokenEvent :=
  .minted { plaintext := evenToken b
            grant := { session, generation := ⟨generation⟩, scope := .attachOnly, expiresAt } }

/-- No two of the tokens of the run have one digest. -/
theorem injOn_evenSha256 : Set.InjOn evenSha256
    (insert (evenToken 2) (run evenSha256 (.fromSecs 60) twoSessions).tokens) := by
  have hlog : (run evenSha256 (.fromSecs 60) twoSessions).log =
      [evenMint 0 logs 1 (Duration.fromSecs 123), evenMint 2 .sh 2 (Duration.fromSecs 122),
        .revoked logs, evenMint 1 logs 1 (Duration.fromSecs 61),
        evenMint 0 .sh 1 (Duration.fromSecs 60)] := by decide
  have htoken : ∀ token ∈ insert (evenToken 2) (run evenSha256 (.fromSecs 60) twoSessions).tokens,
      token = evenToken 0 ∨ token = evenToken 1 ∨ token = evenToken 2 := by
    rintro token (rfl | ⟨minted, hminted, rfl⟩)
    · exact .inr (.inr rfl)
    · simp only [hlog, evenMint, List.mem_cons, TokenEvent.minted.injEq, reduceCtorEq,
        List.not_mem_nil, or_false, false_or] at hminted
      rcases hminted with rfl | rfl | rfl | rfl <;> simp
  intro a ha b hb
  rcases htoken a ha with rfl | rfl | rfl <;> rcases htoken b hb with rfl | rfl | rfl <;> decide

/-- The second token of `sh` verifies, and what happened to `logs` makes no difference. -/
theorem twoSessions_verifies :
    ((run evenSha256 (.fromSecs 60) twoSessions).entries.verify evenSha256 .sh ⟨2⟩ (evenToken 2)
        (Duration.fromSecs 70)).2 =
      .ok { session := .sh, generation := ⟨2⟩, scope := .attachOnly,
            expiresAt := Duration.fromSecs 122 } ∧
    ((run evenSha256 (.fromSecs 60)
        (twoSessions.filter fun c => decide (c.changes .sh))).entries.verify evenSha256 .sh ⟨2⟩
        (evenToken 2) (Duration.fromSecs 70)).2 =
      ((run evenSha256 (.fromSecs 60) twoSessions).entries.verify evenSha256 .sh ⟨2⟩ (evenToken 2)
        (Duration.fromSecs 70)).2 := by
  obtain ⟨hverify, hfilter⟩ := verify_eq_ok_iff_lastEvent evenSha256 (.fromSecs 60) twoSessions .sh
    ⟨2⟩ (evenToken 2) (Duration.fromSecs 70) (by decide) injOn_evenSha256
  refine ⟨(hverify _).mpr ⟨⟨evenToken 2, _⟩, ?_, rfl, rfl, by decide, rfl⟩, ?_⟩
  · decide
  · exact hfilter _ fun c _ hchanges => decide_eq_true hchanges

end TokenRun

end OpenabPty
