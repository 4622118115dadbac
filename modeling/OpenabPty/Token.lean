import OpenabPty.Basic

/-!
# Attach-token storage (`token.rs`)

One entry per session name: the hash of the last minted token with its generation and its
expiry. SHA-256 is the parameter `sha256`, the bytes of the OS RNG are an argument.
-/

namespace OpenabPty

/-- A SHA-256 digest. -/
abbrev Digest := List UInt8

/-- `TokenScope`. -/
inductive TokenScope where
  | attachOnly
  deriving DecidableEq, Repr

/-- `AttachGrant`. -/
structure AttachGrant where
  session : SessionName
  generation : Generation
  scope : TokenScope
  expiresAt : Instant
  deriving DecidableEq

/-- `StoredAttachToken`. -/
structure StoredAttachToken where
  hash : Digest
  generation : Generation
  scope : TokenScope
  expiresAt : Instant
  deriving DecidableEq

/-- `MintedAttachToken`. -/
structure MintedAttachToken where
  plaintext : List UInt8
  grant : AttachGrant
  deriving DecidableEq

/-- The entry that `mint_for_session` stores for what it returns. -/
def MintedAttachToken.stored (minted : MintedAttachToken) (sha256 : List UInt8 → Digest) :
    StoredAttachToken :=
  { hash := sha256 minted.plaintext, generation := minted.grant.generation,
    scope := minted.grant.scope, expiresAt := minted.grant.expiresAt }

/-- The entries that `TokenStore` and `AttachVerifier` share. -/
abbrev TokenEntries := Std.TreeMap SessionName StoredAttachToken

/-- One lowercase hex digit. -/
def hexDigit (n : UInt8) : UInt8 := if n < 10 then 48 + n else 87 + n

/-- `hex::encode`, and the `{byte:02x}` loop of `mint_for_session`. -/
def hexEncode (raw : List UInt8) : List UInt8 :=
  raw.flatMap fun byte => [hexDigit (byte / 16), hexDigit (byte % 16)]

/-- `TokenStore::mint_for_session`: `raw` is what the OS RNG returned. -/
def TokenEntries.mintForSession (entries : TokenEntries) (sha256 : List UInt8 → Digest)
    (ttl : Duration) (session : SessionName) (generation : Generation)
    (raw : Option (List UInt8)) (now : Instant) :
    TokenEntries × Except Error MintedAttachToken :=
  if ttl = 0 then
    (entries, .error (.other "attach token TTL must be non-zero"))
  else
    match raw with
    | none => (entries, .error (.other "OS RNG failed while minting attach token"))
    | some raw =>
      let encoded := hexEncode raw
      let expiresAt := now + ttl
      let grant := { session := session, generation := generation, scope := .attachOnly,
                     expiresAt := expiresAt }
      (entries.insert session
        { hash := sha256 encoded, generation := grant.generation, scope := grant.scope,
          expiresAt := expiresAt }, .ok { plaintext := encoded, grant := grant })

/-- `TokenStore::revoke_session`. -/
def TokenEntries.revokeSession (entries : TokenEntries) (session : SessionName) : TokenEntries :=
  entries.erase session

/-- The filter of `AttachVerifier::verify`. -/
def StoredAttachToken.accepts (stored : StoredAttachToken) (generation : Generation)
    (presentedHash : Digest) (now : Instant) : Bool :=
  stored.expiresAt > now && stored.generation = generation && stored.scope = .attachOnly &&
    presentedHash = stored.hash

theorem StoredAttachToken.accepts_iff {stored : StoredAttachToken} {generation : Generation}
    {presentedHash : Digest} {now : Instant} :
    stored.accepts generation presentedHash now = true ↔
      now < stored.expiresAt ∧ stored.generation = generation ∧ presentedHash = stored.hash := by
  have hscope : stored.scope = .attachOnly := by cases stored.scope; rfl
  simp [accepts, hscope, and_assoc]

/-- `AttachVerifier::verify`: an expired entry is removed on observation. -/
def TokenEntries.verify (entries : TokenEntries) (sha256 : List UInt8 → Digest)
    (session : SessionName) (generation : Generation) (presented : List UInt8) (now : Instant) :
    TokenEntries × Except Error AttachGrant :=
  match entries[session]? with
  | some stored =>
    if stored.accepts generation (sha256 presented) now then
      (entries, .ok { session := session, generation := stored.generation, scope := stored.scope,
                      expiresAt := stored.expiresAt })
    else if stored.expiresAt ≤ now then (entries.erase session, .error .unauthorized)
    else (entries, .error .unauthorized)
  | none => (entries, .error .unauthorized)

namespace TokenEntries

variable {entries : TokenEntries} {sha256 : List UInt8 → Digest} {ttl : Duration}
  {session other : SessionName} {generation : Generation} {raw : Option (List UInt8)}
  {now : Instant}

/-- A mint either fails and leaves the store alone or stores the hash of what it returns. -/
theorem mintForSession_cases (entries : TokenEntries) (sha256 : List UInt8 → Digest)
    (ttl : Duration) (session : SessionName) (generation : Generation)
    (raw : Option (List UInt8)) (now : Instant) :
    (∃ error, entries.mintForSession sha256 ttl session generation raw now =
        (entries, .error error)) ∨
    (∃ minted : MintedAttachToken,
      entries.mintForSession sha256 ttl session generation raw now =
        (entries.insert session (minted.stored sha256), .ok minted) ∧
      minted.grant = { session := session, generation := generation, scope := .attachOnly,
                       expiresAt := now + ttl } ∧ 0 < ttl) := by
  unfold mintForSession
  by_cases h : ttl = 0
  · rw [if_pos h]
    exact .inl ⟨_, rfl⟩
  · rw [if_neg h]
    cases raw with
    | none => exact .inl ⟨_, rfl⟩
    | some raw =>
      exact .inr ⟨{ plaintext := hexEncode raw, grant := ⟨session, generation, .attachOnly, now + ttl⟩ },
        rfl, rfl, Nat.pos_of_ne_zero h⟩

/-- Verification leaves the store alone or removes the expired entry it looked at. -/
theorem verify_entries (entries : TokenEntries) (sha256 : List UInt8 → Digest)
    (session : SessionName) (generation : Generation) (presented : List UInt8) (now : Instant) :
    (entries.verify sha256 session generation presented now).1 = entries ∨
    (∃ stored, entries[session]? = some stored ∧ stored.expiresAt ≤ now ∧
      (entries.verify sha256 session generation presented now).1 = entries.erase session) := by
  unfold verify
  split
  · rename_i stored hstored
    split
    · exact .inl rfl
    · split
      · rename_i hexp
        exact .inr ⟨stored, hstored, hexp, rfl⟩
      · exact .inl rfl
  · exact .inl rfl

/-- A token whose entry is in the store, with its generation and not expired, verifies. -/
theorem verify_of_entry {stored : StoredAttachToken} {presented : List UInt8}
    (hentry : entries[session]? = some stored) (hscope : stored.scope = .attachOnly)
    (hgen : stored.generation = generation) (hhash : stored.hash = sha256 presented)
    (hexp : now < stored.expiresAt) :
    (entries.verify sha256 session generation presented now).2 =
      .ok { session := session, generation := generation, scope := .attachOnly,
            expiresAt := stored.expiresAt } := by
  simp [verify, hentry, StoredAttachToken.accepts, hscope, hgen, hhash, hexp]

end TokenEntries

end OpenabPty
