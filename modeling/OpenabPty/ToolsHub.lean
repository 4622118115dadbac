import OpenabPty.Token

/-!
# The tools hub (`tools.rs`)

Per session: the grant a Mac presents its secret for, the Mac that is attached, the key of the
loopback endpoint and the last detach. The MCP traffic over an attached socket is left out. An
`Arc<Attached>` is named by its position in `sockets`, which only grows.
-/

namespace OpenabPty

/-- `Grant`. -/
structure Grant where
  hash : Digest
  expiresAt : Instant
  deriving DecidableEq

/-- `Detach`; `instant` is its field `at`. -/
structure Detach where
  code : Nat
  instant : Instant
  deriving DecidableEq

/-- `Attached`, as far as it is closed. -/
structure Attached where
  session : SessionName
  closed : Bool
  closeCode : Nat
  deriving DecidableEq

/-- `Attached::close`: the first code wins. -/
def Attached.close (a : Attached) (code : Nat) : Attached :=
  if a.closed then a else { a with closed := true, closeCode := code }

@[simp] theorem Attached.close_closed (a : Attached) (code : Nat) :
    (a.close code).closed = true := by
  unfold close
  split
  · assumption
  · rfl

/-- `MintedToolsAttach`, without the printed verifier. -/
structure MintedToolsAttach where
  plaintext : List UInt8
  expiresAt : Instant
  deriving DecidableEq

/-- One hex digit of `hex::decode`. -/
def hexValue (c : UInt8) : Option UInt8 :=
  if 48 ≤ c ∧ c ≤ 57 then some (c - 48)
  else if 97 ≤ c ∧ c ≤ 102 then some (c - 87)
  else if 65 ≤ c ∧ c ≤ 70 then some (c - 55)
  else none

/-- `hex::decode`. -/
def hexDecode : List UInt8 → Option (List UInt8)
  | [] => some []
  | [_] => none
  | hi :: lo :: rest =>
    (hexValue hi).bind fun h => (hexValue lo).bind fun l =>
      (hexDecode rest).map fun bytes => (h * 16 + l) :: bytes

/-- `ToolsHub`. -/
structure ToolsHub where
  grants : Std.TreeMap SessionName Grant
  loopbackKeys : Std.TreeMap SessionName (List UInt8)
  attached : Std.TreeMap SessionName Nat
  lastDetach : Std.TreeMap SessionName Detach
  sockets : List Attached
  maxTtl : Duration

namespace ToolsHub

def new (maxTtl : Duration) : ToolsHub :=
  { grants := ∅, loopbackKeys := ∅, attached := ∅, lastDetach := ∅, sockets := [],
    maxTtl := maxTtl }

/-- `attached.close(code)` on the socket `a`. -/
def closeSocket (hub : ToolsHub) (a : Nat) (code : Nat) : ToolsHub :=
  { hub with sockets := hub.sockets.modify a (·.close code) }

/-- `is_closed` is false. -/
def openSocket (hub : ToolsHub) (a : Nat) : Bool := hub.sockets[a]?.any (!·.closed)

/-- `attached_for(session).is_some()`. -/
def isAttached (hub : ToolsHub) (session : SessionName) : Bool :=
  hub.attached[session]?.any hub.openSocket

/-! ## Grants -/

/-- `mint_with_ttl`: `raw` is what the OS RNG returned. -/
def mintWithTtl (hub : ToolsHub) (sha256 : List UInt8 → Digest) (session : SessionName)
    (ttl : Duration) (raw : Option (List UInt8)) (now : Instant) :
    ToolsHub × Except Error MintedToolsAttach :=
  if ttl = 0 then (hub, .error (.other "tools attach TTL must be non-zero"))
  else if ttl > hub.maxTtl then
    (hub, .error (.other ("tools attach TTL exceeds configured maximum of " ++
      toString (Duration.asSecs hub.maxTtl) ++ " seconds")))
  else
    match raw with
    | none => (hub, .error (.other "OS RNG failed while minting a tools attach secret"))
    | some raw =>
      let encoded := hexEncode raw
      let expiresAt := now + ttl
      let grant : Grant := { hash := sha256 encoded, expiresAt := expiresAt }
      ({ hub with grants := hub.grants.insert session grant },
        .ok { plaintext := encoded, expiresAt := expiresAt })

/-- The check of `verify`. -/
def Grant.accepts (grant : Grant) (presentedHash : Digest) (now : Instant) : Bool :=
  grant.expiresAt > now && presentedHash = grant.hash

/-- `verify`: an expired grant is removed on observation. -/
def verify (hub : ToolsHub) (sha256 : List UInt8 → Digest) (session : SessionName)
    (presented : List UInt8) (now : Instant) : ToolsHub × Except Error Unit :=
  if hub.grants[session]?.any (Grant.accepts · (sha256 presented) now) then (hub, .ok ())
  else
    (if hub.grants[session]?.any (·.expiresAt ≤ now) then
      { hub with grants := hub.grants.erase session } else hub, .error .unauthorized)

/-- `record_detach`. -/
def recordDetach (hub : ToolsHub) (session : SessionName) (code : Nat) (now : Instant) :
    ToolsHub :=
  { hub with lastDetach := hub.lastDetach.insert session { code := code, instant := now } }

/-- `self.grants.lock().remove(session)`. -/
def removeGrant (hub : ToolsHub) (session : SessionName) : ToolsHub :=
  { hub with grants := hub.grants.erase session }

/-- `self.attached.lock().remove(session)`. -/
def removeAttached (hub : ToolsHub) (session : SessionName) : ToolsHub :=
  { hub with attached := hub.attached.erase session }

/-- What `revoke` does after its two removals. -/
def afterRemovals (hub : ToolsHub) (session : SessionName) (grant : Option Grant)
    (attached : Option Nat) (code : Nat) (now : Instant) : ToolsHub :=
  let hub :=
    match attached with
    | some a => hub.closeSocket a code
    | none => hub
  if grant.isSome || attached.isSome then hub.recordDetach session code now else hub

/-- `revoke`: the grant and the attached socket go, and the socket is closed. -/
def revoke (hub : ToolsHub) (session : SessionName) (code : Nat) (now : Instant) : ToolsHub :=
  ((hub.removeGrant session).removeAttached session).afterRemovals session
    hub.grants[session]? hub.attached[session]? code now

/-! ## Loopback keys -/

/-- `issue_loopback_key`: the key as the child gets it, empty when the OS RNG failed. -/
def issueLoopbackKey (hub : ToolsHub) (session : SessionName) (raw : Option (List UInt8)) :
    ToolsHub × List UInt8 :=
  match raw with
  | none => ({ hub with loopbackKeys := hub.loopbackKeys.erase session }, [])
  | some raw => ({ hub with loopbackKeys := hub.loopbackKeys.insert session raw }, hexEncode raw)

/-- `check_loopback_key`. -/
def checkLoopbackKey (hub : ToolsHub) (session : SessionName) (presented : List UInt8) : Bool :=
  match hexDecode presented with
  | none => false
  | some bytes =>
    match hub.loopbackKeys[session]? with
    | none => false
    | some expected => bytes.length = expected.length && bytes = expected

/-- The first critical section of `forget_session`. -/
def removeKey (hub : ToolsHub) (session : SessionName) : ToolsHub :=
  { hub with loopbackKeys := hub.loopbackKeys.erase session }

/-- `forget_session`. -/
def forgetSession (hub : ToolsHub) (session : SessionName) (now : Instant) : ToolsHub :=
  let hub := (hub.removeKey session).revoke session CloseCode.sessionEnded now
  { hub with lastDetach := hub.lastDetach.erase session }

/-! ## Attach and maintenance -/

/-- The insert of `serve_attached`: a new socket, and the incumbent it closes. -/
def install (hub : ToolsHub) (session : SessionName) : ToolsHub :=
  let a := hub.sockets.length
  let installed := { hub with
    sockets := hub.sockets ++ [{ session := session, closed := false, closeCode := 0 }]
    attached := hub.attached.insert session a }
  match hub.attached[session]? with
  | some incumbent => installed.closeSocket incumbent CloseCode.takeover
  | none => installed

/-- The end of `serve_attached` of the socket `a`. -/
def detached (hub : ToolsHub) (session : SessionName) (a : Nat) (now : Instant) : ToolsHub :=
  let hub := hub.closeSocket a 1000
  let code := (hub.sockets[a]?.map (·.closeCode)).getD 1000
  if hub.attached[session]? = some a then
    (hub.removeAttached session).recordDetach session code now
  else hub

/-- The names `sweep` asks about. -/
def known (hub : ToolsHub) : List SessionName :=
  hub.grants.keys ++ hub.attached.keys ++ hub.loopbackKeys.keys ++ hub.lastDetach.keys

/-- The names whose grant has expired. -/
def expired (hub : ToolsHub) (now : Instant) : List SessionName :=
  (hub.grants.toList.filter (·.2.expiresAt ≤ now)).map (·.1)

/-- The names whose socket is closed but still mapped. -/
def stale (hub : ToolsHub) : List SessionName :=
  (hub.attached.toList.filter fun e => hub.sockets[e.2]?.any (·.closed)).map (·.1)

/-- `sweep`. -/
def sweep (hub : ToolsHub) (sessionExists : SessionName → Bool) (now : Instant) : ToolsHub :=
  let hub := (hub.expired now).foldl (fun hub name =>
    hub.revoke name CloseCode.ttlExpired now) hub
  let hub := (hub.known.filter (!sessionExists ·)).foldl (fun hub name =>
    hub.forgetSession name now) hub
  hub.stale.foldl removeAttached hub

/-! ## What the operations do to the maps -/

section Maps

variable {α : Type} (m : Std.TreeMap SessionName α) (k a : SessionName) (v : α)

theorem getElem?_insert_name : (m.insert k v)[a]? = if k = a then some v else m[a]? := by
  simp only [Std.TreeMap.getElem?_insert, Std.compare_eq_iff_eq]

theorem getElem?_erase_name : (m.erase k)[a]? = if k = a then none else m[a]? := by
  simp only [Std.TreeMap.getElem?_erase, Std.compare_eq_iff_eq]

end Maps

theorem hexDecode_hexEncode (raw : List UInt8) : hexDecode (hexEncode raw) = some raw := by
  have hhi : ∀ n : Fin 256, hexValue (hexDigit (UInt8.ofFin n / 16)) =
      some (UInt8.ofFin n / 16) := by decide +kernel
  have hlo : ∀ n : Fin 256, hexValue (hexDigit (UInt8.ofFin n % 16)) =
      some (UInt8.ofFin n % 16) := by decide +kernel
  have hsum : ∀ n : Fin 256, UInt8.ofFin n / 16 * 16 + UInt8.ofFin n % 16 = UInt8.ofFin n := by
    decide +kernel
  induction raw with
  | nil => rfl
  | cons b raw ih =>
    have hb : UInt8.ofFin b.toFin = b := rfl
    have hhi := hhi b.toFin
    have hlo := hlo b.toFin
    have hsum := hsum b.toFin
    rw [hb] at hhi hlo hsum
    have hcons : hexEncode (b :: raw) = hexDigit (b / 16) :: hexDigit (b % 16) :: hexEncode raw :=
      rfl
    rw [hcons, hexDecode, hhi, hlo, ih]
    simp [hsum]

/-- The key that was issued last is the one that works. -/
theorem checkLoopbackKey_hexEncode {hub : ToolsHub} {session : SessionName} {raw : List UInt8}
    (h : hub.loopbackKeys[session]? = some raw) :
    hub.checkLoopbackKey session (hexEncode raw) = true := by
  simp [checkLoopbackKey, hexDecode_hexEncode, h]

/-! ## What detaches, and whom -/

variable {hub hub' : ToolsHub} {session : SessionName} {now : Instant}

/-- Nobody is attached anew, and the grants of those that stay attached are as they were. -/
structure Shrinks (hub hub' : ToolsHub) : Prop where
  sockets : hub'.sockets.length = hub.sockets.length
  mapped : ∀ (session : SessionName) (a : Nat), hub'.attached[session]? = some a → hub.attached[session]? = some a
  attached : ∀ session, hub'.isAttached session = true → hub.isAttached session = true
  grants : ∀ session, hub'.isAttached session = true →
    hub'.grants[session]? = hub.grants[session]?

theorem Shrinks.refl (hub : ToolsHub) : hub.Shrinks hub :=
  ⟨rfl, fun _ _ h => h, fun _ h => h, fun _ _ => rfl⟩

theorem Shrinks.trans {hub'' : ToolsHub} (h : hub.Shrinks hub') (h' : hub'.Shrinks hub'') :
    hub.Shrinks hub'' :=
  ⟨h'.sockets.trans h.sockets, fun session a ha => h.mapped session a (h'.mapped session a ha),
    fun session hs => h.attached session (h'.attached session hs),
    fun session hs => (h'.grants session hs).trans (h.grants session (h'.attached session hs))⟩

theorem Shrinks.foldl {f : ToolsHub → SessionName → ToolsHub}
    (hf : ∀ hub session, Shrinks hub (f hub session)) (names : List SessionName)
    (hub : ToolsHub) : hub.Shrinks (names.foldl f hub) := by
  induction names generalizing hub with
  | nil => exact .refl hub
  | cons name names ih => exact (hf hub name).trans (ih (f hub name))

/-- An open socket was open before something was closed. -/
theorem openSocket_closeSocket {a b code : Nat}
    (h : (hub.closeSocket a code).openSocket b = true) :
    a ≠ b ∧ hub.openSocket b = true := by
  simp only [openSocket, closeSocket, List.getElem?_modify] at h ⊢
  cases hs : hub.sockets[b]? with
  | none => simp [hs] at h
  | some socket =>
    by_cases hab : a = b
    · simp [hs, hab] at h
    · simpa [hs, hab] using h

theorem shrinks_closeSocket (hub : ToolsHub) (a code : Nat) :
    hub.Shrinks (hub.closeSocket a code) := by
  refine ⟨List.length_modify .., fun _ _ h => h, fun session h => ?_, fun _ _ => rfl⟩
  simp only [isAttached] at h ⊢
  cases hb : hub.attached[session]? with
  | none =>
    have hb' : (hub.closeSocket a code).attached[session]? = none := hb
    simp [hb'] at h
  | some b =>
    have hb' : (hub.closeSocket a code).attached[session]? = some b := hb
    rw [hb', Option.any_some] at h
    exact (openSocket_closeSocket h).2

theorem isAttached_removeAttached (hub : ToolsHub) (name session : SessionName) :
    (hub.removeAttached name).isAttached session =
      if name = session then false else hub.isAttached session := by
  simp only [isAttached, removeAttached, getElem?_erase_name]
  split
  · rfl
  · rfl

theorem shrinks_removeAttached (hub : ToolsHub) (name : SessionName) :
    hub.Shrinks (hub.removeAttached name) := by
  refine ⟨rfl, fun session a h => ?_, fun session h => ?_, fun _ _ => rfl⟩
  · simp only [removeAttached, getElem?_erase_name] at h
    split at h
    · cases h
    · exact h
  · rw [isAttached_removeAttached] at h
    split at h
    · cases h
    · exact h

theorem shrinks_afterRemovals (hub : ToolsHub) (session : SessionName) (grant : Option Grant)
    (attached : Option Nat) (code : Nat) (now : Instant) :
    hub.Shrinks (hub.afterRemovals session grant attached code now) := by
  have hrecord : ∀ hub : ToolsHub, hub.Shrinks (hub.recordDetach session code now) :=
    fun hub => ⟨rfl, fun _ _ h => h, fun _ h => h, fun _ _ => rfl⟩
  unfold afterRemovals
  cases attached with
  | none =>
    dsimp only
    split
    · exact hrecord hub
    · exact .refl hub
  | some a =>
    dsimp only
    split
    · exact (shrinks_closeSocket hub a code).trans (hrecord _)
    · exact shrinks_closeSocket hub a code

/-- A revoke detaches its session and leaves the others alone. -/
theorem revoke_spec (hub : ToolsHub) (name : SessionName) (code : Nat) (now : Instant) :
    hub.Shrinks (hub.revoke name code now) ∧ (hub.revoke name code now).isAttached name = false := by
  have hafter := shrinks_afterRemovals ((hub.removeGrant name).removeAttached name) name
    hub.grants[name]? hub.attached[name]? code now
  have hgone : (hub.revoke name code now).isAttached name = false := by
    by_contra h
    have h := hafter.attached name (Bool.not_eq_false _ ▸ h)
    rw [isAttached_removeAttached, if_pos rfl] at h
    cases h
  have hremoved := shrinks_removeAttached (hub.removeGrant name) name
  refine ⟨⟨hafter.sockets.trans hremoved.sockets, fun session a h =>
    hremoved.mapped session a (hafter.mapped session a h), fun session h =>
      hremoved.attached session (hafter.attached session h), fun session h => ?_⟩, hgone⟩
  · have hne : name ≠ session := by
      rintro rfl
      rw [hgone] at h
      cases h
    rw [revoke, hafter.grants session h]
    simp only [removeAttached, removeGrant, getElem?_erase_name, if_neg hne]

theorem shrinks_forgetSession (hub : ToolsHub) (name : SessionName) (now : Instant) :
    hub.Shrinks (hub.forgetSession name now) := by
  have hrevoke := ((hub.removeKey name).revoke_spec name CloseCode.sessionEnded now).1
  exact ⟨hrevoke.sockets, hrevoke.mapped, hrevoke.attached, hrevoke.grants⟩

/-- Revoking a list of sessions detaches each of them. -/
theorem isAttached_foldl_revoke {code : Nat} {names : List SessionName} (hub : ToolsHub)
    (h : session ∈ names) :
    (names.foldl (fun hub name => hub.revoke name code now) hub).isAttached session = false := by
  induction names generalizing hub with
  | nil => cases h
  | cons name names ih =>
    rcases List.mem_cons.mp h with rfl | h
    · have hgone := (hub.revoke_spec session code now).2
      have hrest := Shrinks.foldl (fun hub name => (revoke_spec hub name code now).1) names
        (hub.revoke session code now)
      by_contra hopen
      have hopen := hrest.attached session (Bool.not_eq_false _ ▸ hopen)
      rw [hgone] at hopen
      cases hopen
    · exact ih (hub.revoke name code now) h

/-- A sweep attaches nobody, and detaches every session whose grant has expired. -/
theorem sweep_spec (hub : ToolsHub) (sessionExists : SessionName → Bool) (now : Instant) :
    hub.Shrinks (hub.sweep sessionExists now) ∧ ∀ session ∈ hub.expired now,
      (hub.sweep sessionExists now).isAttached session = false := by
  have hexpire := Shrinks.foldl
    (fun hub name => (revoke_spec hub name CloseCode.ttlExpired now).1) (hub.expired now) hub
  have hgone : ∀ session ∈ hub.expired now, ((hub.expired now).foldl
      (fun hub name => hub.revoke name CloseCode.ttlExpired now) hub).isAttached session = false :=
    fun session hs => isAttached_foldl_revoke hub hs
  rw [sweep]
  generalize (hub.expired now).foldl
    (fun hub name => hub.revoke name CloseCode.ttlExpired now) hub = revoked at hexpire hgone
  have hforget := Shrinks.foldl (fun hub name => shrinks_forgetSession hub name now)
    (revoked.known.filter (!sessionExists ·)) revoked
  generalize (revoked.known.filter (!sessionExists ·)).foldl
    (fun hub name => hub.forgetSession name now) revoked = forgotten at hforget
  have hrest := hforget.trans (Shrinks.foldl shrinks_removeAttached forgotten.stale forgotten)
  refine ⟨hexpire.trans hrest, fun session hs => ?_⟩
  by_contra hopen
  have hopen := hrest.attached session (Bool.not_eq_false _ ▸ hopen)
  rw [hgone session hs] at hopen
  cases hopen

theorem mem_expired {grant : Grant} (hg : hub.grants[session]? = some grant)
    (hnow : grant.expiresAt ≤ now) : session ∈ hub.expired now := by
  refine List.mem_map.mpr ⟨(session, grant), List.mem_filter.mpr ⟨?_, ?_⟩, rfl⟩
  · exact Std.TreeMap.mem_toList_iff_getElem?_eq_some.mpr hg
  · exact decide_eq_true hnow

/-- A verify drops the grant of its own session, if it has expired, and nothing else. -/
theorem verify_cases (hub : ToolsHub) (sha256 : List UInt8 → Digest) (session : SessionName)
    (presented : List UInt8) (now : Instant) :
    (hub.verify sha256 session presented now).1 = hub ∨
    (hub.grants[session]?.any (·.expiresAt ≤ now) = true ∧
      (hub.verify sha256 session presented now).1 =
        { hub with grants := hub.grants.erase session }) := by
  unfold verify
  split
  · exact .inl rfl
  · by_cases hexpired : hub.grants[session]?.any (·.expiresAt ≤ now) = true
    · rw [if_pos hexpired]
      exact .inr ⟨hexpired, rfl⟩
    · rw [if_neg hexpired]
      exact .inl rfl

/-- A mint that is refused changes nothing. -/
theorem mintWithTtl_cases (hub : ToolsHub) (sha256 : List UInt8 → Digest) (session : SessionName)
    (ttl : Duration) (raw : Option (List UInt8)) (now : Instant) :
    (hub.mintWithTtl sha256 session ttl raw now).1 = hub ∨
    ∃ grant, (hub.mintWithTtl sha256 session ttl raw now).1 =
      { hub with grants := hub.grants.insert session grant } := by
  unfold mintWithTtl
  repeat' split
  · exact .inl rfl
  · exact .inl rfl
  · exact .inl rfl
  · exact .inr ⟨_, rfl⟩

theorem shrinks_detached (hub : ToolsHub) (session : SessionName) (a : Nat) (now : Instant) :
    hub.Shrinks (hub.detached session a now) := by
  have hclose := shrinks_closeSocket hub a 1000
  unfold detached
  dsimp only
  split
  · have hremove := hclose.trans (shrinks_removeAttached (hub.closeSocket a 1000) session)
    exact ⟨hremove.sockets, hremove.mapped, hremove.attached, hremove.grants⟩
  · exact hclose

/-! ## Where the attached sockets are -/

/-- The sockets of the map exist. -/
def Placed (hub : ToolsHub) : Prop :=
  ∀ (session : SessionName) (a : Nat), hub.attached[session]? = some a → a < hub.sockets.length

theorem placed_new (maxTtl : Duration) : (new maxTtl).Placed := by
  intro session a h
  simp [new] at h

theorem isAttached_new (maxTtl : Duration) (session : SessionName) :
    (new maxTtl).isAttached session = false := by
  simp [isAttached, new]

theorem Shrinks.placed (h : hub.Shrinks hub') (hp : hub.Placed) : hub'.Placed := by
  intro session a ha
  rw [h.sockets]
  exact hp session a (h.mapped session a ha)

/-- `install` before it closes the incumbent. -/
def insertAttached (hub : ToolsHub) (session : SessionName) : ToolsHub :=
  { hub with
    sockets := hub.sockets ++ [{ session := session, closed := false, closeCode := 0 }]
    attached := hub.attached.insert session hub.sockets.length }

theorem shrinks_install (hub : ToolsHub) (name : SessionName) :
    (hub.insertAttached name).Shrinks (hub.install name) := by
  rw [install]
  split
  · exact shrinks_closeSocket (hub.insertAttached name) _ _
  · exact .refl (hub.insertAttached name)

theorem grants_install (hub : ToolsHub) (name : SessionName) :
    (hub.install name).grants = hub.grants := by
  rw [install]
  split
  · rfl
  · rfl

theorem Placed.install (h : hub.Placed) (name : SessionName) : (hub.install name).Placed := by
  refine (hub.shrinks_install name).placed fun session a ha => ?_
  simp only [insertAttached, getElem?_insert_name, List.length_append, List.length_singleton] at ha ⊢
  split at ha
  · obtain rfl := Option.some.inj ha
    exact Nat.lt_succ_self _
  · exact Nat.lt_succ_of_lt (h session a ha)

/-- Installing a socket attaches nobody else. -/
theorem isAttached_of_install {name : SessionName} (h : hub.Placed) (hne : name ≠ session)
    (hopen : (hub.install name).isAttached session = true) : hub.isAttached session = true := by
  have hopen := (hub.shrinks_install name).attached session hopen
  simp only [isAttached, insertAttached, getElem?_insert_name, if_neg hne] at hopen ⊢
  cases ha : hub.attached[session]? with
  | none => simp [ha] at hopen
  | some a =>
    rw [ha, Option.any_some] at hopen
    rw [Option.any_some]
    rwa [openSocket, List.getElem?_append_left (h session a ha)] at hopen

end ToolsHub

end OpenabPty
