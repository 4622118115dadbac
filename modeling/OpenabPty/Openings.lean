import OpenabPty.Admitted
import OpenabPty.ChildEnv
import OpenabPty.TokenHistory

/-!
# What the door opens to (`admin_auth.rs`, `server.rs`)

Every credential that the runtime hands out is the hexadecimal text of 32 random bytes. Here its way
back: through the header that carries it, to the verifier, grant or key that the runtime has kept.
-/

namespace OpenabPty

/-- `hex::encode`, as a string. -/
def hexString (bytes : List UInt8) : Text := (hexEncode bytes).map fun b => Char.ofNat b.toNat

/-- `GeneratedAdminCredential`. -/
structure GeneratedAdminCredential where
  plaintext : List UInt8
  verifier : Text

/-- `generate`; `raw` is what the OS RNG returned. -/
def AdminAuthenticator.generate (sha256 : List UInt8 → Digest) (raw : List UInt8) :
    GeneratedAdminCredential :=
  let encoded := hexEncode raw
  { plaintext := encoded, verifier := "sha256:".toList ++ hexString (sha256 encoded) }

/-! ## Hexadecimal text -/

section Hex

variable {bytes raw : List UInt8} {b : UInt8}

/-- What a `UInt8` satisfies if all 256 values do. -/
theorem forall_uint8 {p : UInt8 → Prop} (h : ∀ n : Fin 256, p (UInt8.ofFin n)) (b : UInt8) : p b :=
  h b.toFin

theorem hexEncode_cons :
    hexEncode (b :: raw) = hexDigit (b / 16) :: hexDigit (b % 16) :: hexEncode raw := rfl

theorem length_hexEncode : (hexEncode raw).length = 2 * raw.length := by
  induction raw with
  | nil => rfl
  | cons b raw ih =>
    rw [hexEncode_cons, List.length_cons, List.length_cons, List.length_cons, ih]
    omega

theorem mem_hexEncode (h : b ∈ hexEncode raw) : ∃ n, n < 16 ∧ b = hexDigit n := by
  have hhi : ∀ c : UInt8, c / 16 < 16 := forall_uint8 (by decide +kernel)
  have hlo : ∀ c : UInt8, c % 16 < 16 := forall_uint8 (by decide +kernel)
  obtain ⟨c, -, hc⟩ := List.mem_flatMap.mp h
  rcases List.mem_pair.mp hc with rfl | rfl
  · exact ⟨_, hhi c, rfl⟩
  · exact ⟨_, hlo c, rfl⟩

/-- A digit is visible in a header, and no blank. -/
theorem printed_of_mem_hexEncode (h : b ∈ hexEncode raw) : 32 < b ∧ b < 127 := by
  have hdigit : ∀ n : UInt8, n < 16 → 32 < hexDigit n ∧ hexDigit n < 127 :=
    forall_uint8 (by decide +kernel)
  obtain ⟨n, hn, rfl⟩ := mem_hexEncode h
  exact hdigit n hn

theorem visible_of_mem_hexEncode (h : b ∈ hexEncode raw) : 32 ≤ b ∧ b < 127 :=
  (printed_of_mem_hexEncode h).imp_left UInt8.le_of_lt

theorem isLowerHex_of_mem_hexString {c : Char} (h : c ∈ hexString bytes) : isLowerHex c = true := by
  have hdigit : ∀ n : UInt8, n < 16 → isLowerHex (Char.ofNat (hexDigit n).toNat) = true :=
    forall_uint8 (by decide +kernel)
  obtain ⟨b, hb, rfl⟩ := List.mem_map.mp h
  obtain ⟨n, hn, rfl⟩ := mem_hexEncode hb
  exact hdigit n hn

theorem decodeHex_hexString : decodeHex (hexString bytes) = some bytes := by
  have hhi : ∀ b : UInt8, hexDigitValue (Char.ofNat (hexDigit (b / 16)).toNat) =
      some (b / 16).toNat := forall_uint8 (by decide +kernel)
  have hlo : ∀ b : UInt8, hexDigitValue (Char.ofNat (hexDigit (b % 16)).toNat) =
      some (b % 16).toNat := forall_uint8 (by decide +kernel)
  have hsum : ∀ b : UInt8, UInt8.ofNat ((b / 16).toNat * 16 + (b % 16).toNat) = b :=
    forall_uint8 (by decide +kernel)
  induction bytes with
  | nil => rfl
  | cons b bytes ih =>
    have hcons : hexString (b :: bytes) = Char.ofNat (hexDigit (b / 16)).toNat ::
        Char.ofNat (hexDigit (b % 16)).toNat :: hexString bytes := rfl
    rw [hcons, decodeHex, hhi, hlo, ih]
    exact congrArg (fun c => some (c :: bytes)) (hsum b)

/-- The verifier of a generated credential is accepted, and is the hash of the credential. -/
theorem parseVerifierHash_generate {sha256 : List UInt8 → Digest}
    (hsha : ∀ bytes, (sha256 bytes).length = 32) :
    parseVerifierHash (AdminAuthenticator.generate sha256 raw).verifier =
      .ok (sha256 (AdminAuthenticator.generate sha256 raw).plaintext) := by
  have hlength : (hexString (sha256 (hexEncode raw))).length = 64 := by
    rw [hexString, List.length_map, length_hexEncode, hsha]
  have hall : (hexString (sha256 (hexEncode raw))).all isLowerHex = true :=
    List.all_eq_true.mpr fun _ => isLowerHex_of_mem_hexString
  have hstrip : stripPrefix "sha256:".toList
      ("sha256:".toList ++ hexString (sha256 (hexEncode raw))) =
        some (hexString (sha256 (hexEncode raw))) := stripPrefix_eq_some.mpr rfl
  rw [AdminAuthenticator.generate, parseVerifierHash, hstrip]
  dsimp only
  rw [if_neg (by simp [hlength, hall]), decodeHex_hexString]
  exact if_pos (hsha _)

end Hex

/-! ## Headers -/

/-- A client presents a token in `Authorization`, or, where a browser lets it set no such header,
among the subprotocols that it offers. -/
inductive HeaderMap.Carries (token : List UInt8) : HeaderMap → Prop
  | authorization {protocols : Option (List UInt8)} :
      Carries token ⟨some (ascii "Bearer " ++ token), protocols⟩
  | subprotocol {offers before after : List (List UInt8)}
      (hvisible : ∀ offer ∈ offers, ∀ b ∈ offer, 32 ≤ b ∧ b < 127 ∧ b ≠ 0x2c)
      (hoffers : offers.map trim = before ++ (bearerSubprotocolPrefix ++ token) :: after)
      (hbefore : ∀ offer ∈ before, ¬ bearerSubprotocolPrefix <+: offer) :
      Carries token ⟨none, some ([0x2c].intercalate offers)⟩

section Headers

variable {value token raw : List UInt8} {headers : HeaderMap} {protocols : Option (List UInt8)}

theorem toStr_of_visible (h : ∀ b ∈ value, 32 ≤ b ∧ b < 127) : toStr value = some value :=
  if_pos (List.all_eq_true.mpr fun b hb => by simp [h b hb])

/-- The scheme of an `Authorization` header can be written in a header. -/
theorem visible_bearer : ∀ b ∈ ascii "Bearer ", 32 ≤ b ∧ b < 127 := by
  have hall : ((ascii "Bearer ").all fun b => decide (32 ≤ b ∧ b < 127)) = true := rfl
  exact fun b hb => of_decide_eq_true (List.all_eq_true.mp hall b hb)

theorem authorizationBearer_bearer (htoken : ∀ b ∈ token, 32 ≤ b ∧ b < 127) :
    authorizationBearer ⟨some (ascii "Bearer " ++ token), protocols⟩ = some token := by
  have hvisible : toStr (ascii "Bearer " ++ token) = some (ascii "Bearer " ++ token) :=
    toStr_of_visible fun b hb => (List.mem_append.mp hb).elim (visible_bearer b) (htoken b)
  rw [authorizationBearer, Option.bind_some, hvisible, Option.bind_some]
  exact List.isPrefixOf?_eq_some_iff_append_eq.mpr rfl

theorem mem_of_mem_intercalate {x b : UInt8} {ls : List (List UInt8)}
    (h : b ∈ [x].intercalate ls) : b = x ∨ ∃ l ∈ ls, b ∈ l := by
  induction ls with
  | nil => cases h
  | cons l ls ih =>
    by_cases hls : ls = []
    · subst hls
      rw [List.intercalate_singleton] at h
      exact .inr ⟨l, List.mem_cons_self, h⟩
    · rw [List.intercalate_cons_of_ne_nil hls, List.mem_append, List.mem_append,
        List.mem_singleton] at h
      rcases h with (h | h) | h
      · exact .inr ⟨l, List.mem_cons_self, h⟩
      · exact .inl h
      · exact (ih h).imp_right fun ⟨k, hk, hb⟩ => ⟨k, List.mem_cons_of_mem l hk, hb⟩

/-- A token arrives as it was sent, by either of the two ways. -/
theorem wsBearerToken_of_carries (h : headers.Carries token)
    (htoken : ∀ b ∈ token, 32 ≤ b ∧ b < 127) : wsBearerToken headers = some token := by
  cases h with
  | authorization =>
    rw [wsBearerToken, authorizationBearer_bearer htoken]
    rfl
  | subprotocol hvisible hoffers hbefore =>
    rename_i offers before after
    have hne : offers ≠ [] := by
      rintro rfl
      cases before <;> cases hoffers
    have hvalue : toStr ([0x2c].intercalate offers) = some ([0x2c].intercalate offers) := by
      refine toStr_of_visible fun b hb => ?_
      obtain rfl | ⟨offer, ho, hb⟩ := mem_of_mem_intercalate hb
      · decide
      · exact ⟨(hvisible offer ho b hb).1, (hvisible offer ho b hb).2.1⟩
    have hsplit : ([0x2c].intercalate offers).splitOn 0x2c = offers :=
      List.splitOn_intercalate 0x2c (fun offer ho hb => (hvisible offer ho _ hb).2.2 rfl) hne
    have hfind : (before ++ (bearerSubprotocolPrefix ++ token) :: after).findSome?
        (bearerSubprotocolPrefix.isPrefixOf? ·) = some token := by
      have hnone : before.findSome? (bearerSubprotocolPrefix.isPrefixOf? ·) = none :=
        List.findSome?_eq_none_iff.mpr fun offer ho => Option.eq_none_iff_forall_ne_some.mpr
          fun rest hrest => hbefore offer ho
            ⟨rest, List.isPrefixOf?_eq_some_iff_append_eq.mp hrest⟩
      have hsome : bearerSubprotocolPrefix.isPrefixOf? (bearerSubprotocolPrefix ++ token) =
          some token := List.isPrefixOf?_eq_some_iff_append_eq.mpr rfl
      rw [List.findSome?_append, hnone, Option.none_or, List.findSome?_cons, hsome]
    rw [wsBearerToken, subprotocolToken, Option.bind_some, hvalue, Option.bind_some, hsplit,
      hoffers, hfind]
    rfl

theorem adminCredential_bearer (htoken : ∀ b ∈ token, 32 ≤ b ∧ b < 127) (hne : token ≠ [])
    (hlength : token.length ≤ maxAdminCredentialBytes) :
    adminCredential ⟨some (ascii "Bearer " ++ token), protocols⟩ = some token := by
  rw [adminCredential, authorizationBearer_bearer htoken]
  exact if_neg (not_or.mpr ⟨hne, hlength.not_gt⟩)

/-- Nothing is trimmed off where no blank is at either end. -/
theorem trim_eq_self (hhead : ∀ b ∈ value.head?, 32 < b) (hlast : ∀ b ∈ value.getLast?, 32 < b) :
    trim value = value := by
  have hblank : ∀ b : UInt8, 32 < b → (b == 32 || b == 9) = false :=
    forall_uint8 (by decide +kernel)
  have hdrop (s : List UInt8) (hs : ∀ b ∈ s.head?, 32 < b) :
      s.dropWhile (fun b => b == 32 || b == 9) = s := by
    cases s with
    | nil => rfl
    | cons b rest => rw [List.dropWhile_cons_of_neg (by simp [hblank b (hs b rfl)])]
  rw [trim, hdrop value hhead, hdrop value.reverse (by rwa [List.head?_reverse]),
    List.reverse_reverse]

/-- The same for the loopback surface. -/
theorem bearerToken_bearer (htoken : ∀ b ∈ token, 32 < b ∧ b < 127) (hne : token ≠ []) :
    bearerToken ⟨some (ascii "Bearer " ++ token), protocols⟩ = some token := by
  have hvisible : toStr (ascii "Bearer " ++ token) = some (ascii "Bearer " ++ token) :=
    toStr_of_visible fun b hb => (List.mem_append.mp hb).elim (visible_bearer b) fun hb =>
      ⟨UInt8.le_of_lt (htoken b hb).1, (htoken b hb).2⟩
  have hlast : ∀ b ∈ token.getLast?, 32 < b := fun b hb =>
    (htoken b (List.mem_of_getLast? hb)).1
  have hvalue : trim (ascii "Bearer " ++ token) = ascii "Bearer " ++ token := by
    refine trim_eq_self (fun b hb => ?_) fun b hb => hlast b ?_
    · obtain rfl := Option.some.inj hb
      decide
    · rwa [List.getLast?_append_of_ne_nil _ hne] at hb
  have hsplit : splitOnce 32 (ascii "Bearer " ++ token) = some (ascii "Bearer", token) := rfl
  have htrim : trim token = token :=
    trim_eq_self (fun b hb => (htoken b (List.mem_of_head? hb)).1) hlast
  rw [bearerToken, Option.bind_some, hvisible, Option.bind_some, hvalue, hsplit]
  dsimp only
  rw [htrim, if_neg (by decide), if_neg hne]

end Headers

/-! ## The operator -/

namespace Visit

/-- The request has a permit of the authenticator. -/
def holdsPermit (v : Visit) : Bool :=
  match v.phase with
  | .gate call => call.holdsPermit
  | _ => false

/-- The next step of the request asks for a permit. -/
def wantsPermit (v : Visit) : Bool :=
  match v.phase with
  | .gate call => call.pc = .acquire
  | _ => false

/-- The authenticator has refused a permit to the request. -/
def refused (v : Visit) : Bool :=
  match v.phase with
  | .gate call => call.pc = .returned (.error .busy)
  | _ => false

/-- How many steps a request of the operator has left at most. -/
def stepsLeft (v : Visit) : Nat :=
  match v.phase with
  | .arrived => 7
  | .gate call => call.stepsLeft + 1
  | _ => 0

/-- The request brings the credential to the gate of the admin plane. -/
def Operates (credential : List UInt8) (v : Visit) : Prop :=
  ∃ source protocols,
    v.request = .admin source ⟨some (ascii "Bearer " ++ credential), protocols⟩

end Visit

/-- Where a request of the operator may be. -/
inductive Phase.Welcome (credential : List UInt8) : Phase → Prop
  | arrived : Welcome credential .arrived
  | gate {call : AdminCall} (hcredential : call.credential = some credential)
      (hpc : call.pc.Welcome) : Welcome credential (.gate call)
  | admin : Welcome credential (.answered .admin)
  | busy : Welcome credential (.answered (.response (.ofAdminFailure .busy)))

namespace Door

section Operator

variable {env : Env} {display : IpAddr → Text} {views : Views} {d d' t : Door} {v v' : Visit}
  {credential : List UInt8} {ls : List Label} {maxInflight : Nat}

/-- The requests that hold a permit. -/
def permitsHeld (d : Door) : Nat := d.visits.countP Visit.holdsPermit

/-- Whatever the request, its step keeps the verifier, and moves a permit between the semaphore and
the request. -/
theorem step_spec (h : d.step env display views v = some (d', v')) :
    d'.visits = d.visits ∧ v'.request = v.request ∧ d'.admin.verifier = d.admin.verifier ∧
      d'.admin.available + (if v'.holdsPermit then 1 else 0) =
        d.admin.available + (if v.holdsPermit then 1 else 0) := by
  obtain ⟨request, phase⟩ := v
  cases phase with
  | arrived =>
    cases request with
    | attach source | toolsAttach source =>
      have hcheck := Option.some.inj h
      unfold check at hcheck
      split at hcheck <;> obtain ⟨rfl, rfl⟩ := Prod.mk.inj hcheck <;> exact ⟨rfl, rfl, rfl, rfl⟩
    | toolsLoopback | toolsLoopbackBearer =>
      obtain ⟨rfl, rfl⟩ := Prod.mk.inj (Option.some.inj h)
      exact ⟨rfl, rfl, rfl, rfl⟩
    | admin source headers =>
      obtain ⟨rfl, rfl⟩ := Prod.mk.inj (Option.some.inj h)
      cases hcredential : (adminCredential headers).isNone <;> exact ⟨rfl, rfl, rfl, rfl⟩
  | unbanned =>
    obtain ⟨rfl, rfl⟩ := Prod.mk.inj (Option.some.inj h)
    cases hdraining : d.draining <;> exact ⟨rfl, rfl, rfl, rfl⟩
  | admitted =>
    cases request with
    | toolsLoopback | toolsLoopbackBearer | admin => cases h
    | attach source headers session rows cols =>
      simp only [step] at h
      split at h
      · obtain ⟨rfl, rfl⟩ := Prod.mk.inj (Option.some.inj h)
        exact ⟨rfl, rfl, rfl, rfl⟩
      · obtain ⟨rfl, rfl⟩ := Prod.mk.inj (Option.some.inj h)
        split <;> exact ⟨rfl, rfl, rfl, rfl⟩
    | toolsAttach source headers session =>
      simp only [step] at h
      split at h <;> obtain ⟨rfl, rfl⟩ := Prod.mk.inj (Option.some.inj h) <;>
        exact ⟨rfl, rfl, rfl, rfl⟩
  | gate call =>
    simp only [step] at h
    split at h
    · rename_i hpc
      obtain ⟨rfl, rfl⟩ := Prod.mk.inj (Option.some.inj h)
      refine ⟨rfl, rfl, rfl, ?_⟩
      simp [Visit.holdsPermit, Visit.answer, Visit.goto, AdminCall.holdsPermit, hpc]
    · rename_i hpc
      obtain ⟨rfl, rfl⟩ := Prod.mk.inj (Option.some.inj h)
      refine ⟨?_, rfl, ?_, ?_⟩
      · split <;> rfl
      · split <;> rfl
      · split <;> simp [Visit.holdsPermit, Visit.answer, Visit.goto, AdminCall.holdsPermit, hpc,
          bumpAdminFailures]
    · obtain ⟨⟨a, call'⟩, hcall, hpair⟩ := Option.map_eq_some_iff.mp h
      obtain ⟨rfl, rfl⟩ := Prod.mk.inj hpair
      obtain ⟨hverifier, -, hpermits⟩ := AdminCall.step_spec hcall
      exact ⟨rfl, rfl, hverifier, hpermits⟩
  | answered outcome => cases request <;> cases h

theorem step_answered {outcome : Outcome} (h : v.phase = .answered outcome) :
    d.step env display views v = none := by
  obtain ⟨request, phase⟩ := v
  obtain rfl : phase = .answered outcome := h
  cases request <;> rfl

theorem step_gate {request : Request} {a : AdminAuthenticator} {call call' : AdminCall}
    (h : call.step env.sha256 d.admin = some (a, call')) :
    d.step env display views ⟨request, .gate call⟩ =
      some ({ d with admin := a }, ⟨request, .gate call'⟩) := by
  simp only [step]
  split
  · rename_i hpc
    rw [AdminCall.step, hpc] at h
    cases h
  · rename_i hpc
    rw [AdminCall.step, hpc] at h
    cases h
  · rw [h]
    rfl

/-- A request of the operator is answered, or its next step brings it closer to an answer; it is
refused when it asks for a permit and there is none. -/
theorem step_of_operates (hv : v.Operates credential) (hwelcome : v.phase.Welcome credential)
    (hcredential : ∀ b ∈ credential, 32 ≤ b ∧ b < 127) (hne : credential ≠ [])
    (hlength : credential.length ≤ maxAdminCredentialBytes)
    (hsha : env.sha256 credential = d.admin.verifier) :
    (v.phase = .answered .admin ∨ v.phase = .answered (.response (.ofAdminFailure .busy))) ∨
      ∃ d' v', d.step env display views v = some (d', v') ∧ v'.phase.Welcome credential ∧
        v'.stepsLeft < v.stepsLeft ∧
        (v'.refused = true ↔ v.wantsPermit = true ∧ d.admin.available = 0) := by
  obtain ⟨request, phase⟩ := v
  cases hwelcome with
  | arrived =>
    obtain ⟨source, protocols, hrequest⟩ := hv
    obtain rfl := hrequest
    right
    refine ⟨_, _, rfl, .gate (adminCredential_bearer hcredential hne hlength) .start,
      Nat.lt_succ_self 6, ?_⟩
    exact iff_of_false (fun h => (by cases h)) fun h => (by cases h.1)
  | admin => exact .inl (.inl rfl)
  | busy => exact .inl (.inr rfl)
  | gate hcall hpc =>
    rename_i call
    have hcorrect : call.Correct env.sha256 d.admin.verifier := ⟨credential, hcall, hlength, hsha⟩
    right
    rcases AdminCall.step_of_correct hcorrect hpc with
      ⟨result, hreturned, rfl | rfl⟩ | ⟨a, call', hstep, hpc', hless, hrefused⟩
    · refine ⟨d, ⟨request, .answered .admin⟩, by simp only [step, hreturned]; rfl, .admin,
        Nat.succ_pos _, iff_of_false (fun h => by cases h) fun h => ?_⟩
      simp [Visit.wantsPermit, hreturned] at h
    · refine ⟨d.bumpAdminFailures, ⟨request, .answered (.response (.ofAdminFailure .busy))⟩, ?_,
        .busy, Nat.succ_pos _, iff_of_false (fun h => by cases h) fun h => ?_⟩
      · simp only [step, hreturned, hcall, Option.isSome_some, if_true]
        rfl
      · simp [Visit.wantsPermit, hreturned] at h
    · refine ⟨{ d with admin := a }, ⟨request, .gate call'⟩, step_gate hstep,
        .gate ((AdminCall.step_spec hstep).2.1.trans hcall) hpc', Nat.succ_lt_succ hless, ?_⟩
      simpa [Visit.refused, Visit.wantsPermit] using hrefused

/-- What the door never loses: the verifier, the permits, and the requests of the operator. -/
structure GateSound (credential verifier : List UInt8) (maxInflight : Nat) (d : Door) : Prop where
  sameVerifier : d.admin.verifier = verifier
  permits : d.admin.available + d.permitsHeld = maxInflight
  welcome : ∀ v ∈ d.visits, v.Operates credential → v.phase.Welcome credential

/-- A request of the operator is answered, by the admin route or because all permits were taken.
While it is not, its next step brings it closer to an answer, and is refused a permit exactly when
it asks for one while other requests hold all of them. -/
def OpensToOperator (env : Env) (display : IpAddr → Text) (credential : List UInt8)
    (maxInflight : Nat) (d : Door) : Prop :=
  ∀ i v, d.visits[i]? = some v → v.Operates credential →
    (v.phase = .answered .admin ∨ v.phase = .answered (.response (.ofAdminFailure .busy))) ∨
      ∀ views, ∃ d' v', next env display d (.advance i views) = some d' ∧
        d'.visits[i]? = some v' ∧ v'.stepsLeft < v.stepsLeft ∧
        (v'.refused = true ↔ v.wantsPermit = true ∧ d.permitsHeld = maxInflight)

theorem permitsHeld_set {i : Nat} (h : d.visits[i]? = some v) (v' : Visit) :
    (d.visits.set i v').countP Visit.holdsPermit + (if v.holdsPermit then 1 else 0) =
      d.permitsHeld + (if v'.holdsPermit then 1 else 0) := by
  obtain ⟨hlt, rfl⟩ := List.getElem?_eq_some_iff.mp h
  rw [permitsHeld, List.countP_set hlt]
  have hpos : (if d.visits[i].holdsPermit then 1 else 0) ≤
      d.visits.countP Visit.holdsPermit := by
    split
    · exact List.countP_pos_iff.mpr ⟨_, List.getElem_mem hlt, ‹_›⟩
    · exact Nat.zero_le _
  omega

/-- Whatever happens at the door keeps it sound. -/
theorem GateSound.next {verifier : List UInt8} {l : Label}
    (h : d.GateSound credential verifier maxInflight)
    (hcredential : ∀ b ∈ credential, 32 ≤ b ∧ b < 127) (hne : credential ≠ [])
    (hlength : credential.length ≤ maxAdminCredentialBytes)
    (hsha : env.sha256 credential = verifier)
    (hnext : next env display d l = some d') : d'.GateSound credential verifier maxInflight := by
  cases l with
  | enter request =>
    obtain rfl := Option.some.inj hnext
    refine ⟨h.sameVerifier, ?_, fun v hv hoperates => ?_⟩
    · rw [permitsHeld, List.countP_append]
      exact h.permits
    · rcases List.mem_append.mp hv with hold | hnew
      · exact h.welcome v hold hoperates
      · obtain rfl := List.mem_singleton.mp hnew
        exact .arrived
  | advance i views =>
    obtain ⟨v, hv, hmoved⟩ := Option.bind_eq_some_iff.mp hnext
    obtain ⟨⟨s, v'⟩, hstep, rfl⟩ := Option.map_eq_some_iff.mp hmoved
    obtain ⟨hvisits, hrequest, hverifier, hpermits⟩ := step_spec hstep
    refine ⟨hverifier.trans h.sameVerifier, ?_, fun w hw hoperates => ?_⟩
    · have hset := permitsHeld_set hv v'
      have hsum := h.permits
      simp only [permitsHeld, hvisits] at *
      omega
    · rcases List.mem_or_eq_of_mem_set hw with hold | rfl
      · exact h.welcome w (hvisits ▸ hold) hoperates
      · -- The request that moved is the one that it was.
        have hbefore : v.Operates credential := by
          obtain ⟨source, protocols, hw⟩ := hoperates
          exact ⟨source, protocols, hrequest ▸ hw⟩
        have hwelcome := h.welcome v (List.mem_of_getElem? hv) hbefore
        obtain hdone | ⟨s', w', hstep', hwelcome', -⟩ :=
          (step_of_operates hbefore hwelcome hcredential hne hlength
            (hsha.trans h.sameVerifier.symm) :
            _ ∨ ∃ s' w', d.step env display views v = some (s', w') ∧ _)
        · obtain ⟨outcome, houtcome⟩ : ∃ outcome, v.phase = .answered outcome :=
            hdone.elim (fun h => ⟨_, h⟩) fun h => ⟨_, h⟩
          rw [step_answered houtcome] at hstep
          cases hstep
        · obtain ⟨-, rfl⟩ := Prod.mk.inj (Option.some.inj (hstep'.symm.trans hstep))
          exact hwelcome'
  | drain | pass elapsed =>
    obtain rfl := Option.some.inj hnext
    exact ⟨h.sameVerifier, h.permits, h.welcome⟩
  | rehash entries failures =>
    simp only [Door.next] at hnext
    split at hnext
    · obtain rfl := Option.some.inj hnext
      exact ⟨h.sameVerifier, h.permits, h.welcome⟩
    · cases hnext

theorem GateSound.opens {verifier : List UInt8} (h : d.GateSound credential verifier maxInflight)
    (hcredential : ∀ b ∈ credential, 32 ≤ b ∧ b < 127) (hne : credential ≠ [])
    (hlength : credential.length ≤ maxAdminCredentialBytes)
    (hsha : env.sha256 credential = verifier) :
    d.OpensToOperator env display credential maxInflight := by
  intro i v hv hoperates
  have hwelcome := h.welcome v (List.mem_of_getElem? hv) hoperates
  refine or_iff_not_imp_left.mpr fun hnot views => ?_
  obtain ⟨d', v', hstep, -, hless, hrefused⟩ :=
    ((step_of_operates hoperates hwelcome hcredential hne hlength
      (hsha.trans h.sameVerifier.symm) :
      _ ∨ ∃ d' v', d.step env display views v = some (d', v') ∧ _).resolve_left hnot)
  have hvisits := (step_spec hstep).1
  have hpermits := h.permits
  refine ⟨{ d' with visits := d'.visits.set i v' }, v', ?_, ?_, hless, ?_⟩
  · rw [Door.next, hv, Option.bind_some, hstep]
    rfl
  · exact List.getElem?_set_self (hvisits ▸ (List.getElem?_eq_some_iff.mp hv).1)
  · rw [hrefused]
    exact and_congr_right fun _ => ⟨fun h => by omega, fun h => by omega⟩

/-- A generated credential is the operator's way in. Its verifier is one that the runtime starts
with; and from then on, whatever else comes to the door and however the requests are interleaved,
no block, ban or drain stands between a request that brings the credential and the admin plane,
only the number of the credentials that are being hashed. -/
theorem generated_opens {raw : List UInt8} (hraw : raw.length = 32)
    (hsha : ∀ bytes, (env.sha256 bytes).length = 32) (now : Instant) :
    ∃ a, AdminAuthenticator.fromVerifierHash env.sha256
        (AdminAuthenticator.generate env.sha256 raw).verifier now = .ok a ∧
      ∀ d : Door, d.admin = a → d.visits = [] → ∀ ls,
        Trace.AllStates (next env display) (OpensToOperator env display
          (AdminAuthenticator.generate env.sha256 raw).plaintext
          defaultMaxInflightVerifications) d ls := by
  have hlength : (hexEncode raw).length = 64 := by rw [length_hexEncode, hraw]
  have hvisible : ∀ b ∈ hexEncode raw, 32 ≤ b ∧ b < 127 := fun _ => visible_of_mem_hexEncode
  have hne : hexEncode raw ≠ [] := List.ne_nil_of_length_pos (by omega)
  have hsmall : (hexEncode raw).length ≤ maxAdminCredentialBytes := hlength.trans_le (by decide)
  refine ⟨_, by rw [AdminAuthenticator.fromVerifierHash, parseVerifierHash_generate hsha]; rfl,
    fun d hd hvisits ls => ?_⟩
  have hinitial : d.GateSound (hexEncode raw) (env.sha256 (hexEncode raw))
      defaultMaxInflightVerifications := by
    refine ⟨by rw [hd]; rfl, by rw [permitsHeld, hd, hvisits]; rfl, fun v hv => ?_⟩
    rw [hvisits] at hv
    exact absurd hv List.not_mem_nil
  exact Trace.AllStates.imp (fun t h => h.opens hvisible hne hsmall rfl)
    (Trace.AllStates.of_next (fun t l t' h hnext => h.next hvisible hne hsmall rfl hnext) hinitial)

/-- SHA-256 of 64 zero digits. -/
def zerosDigest : Digest :=
  [0x60, 0xe0, 0x5b, 0xd1, 0xb1, 0x95, 0xaf, 0x2f, 0x94, 0x11, 0x2f, 0xa7, 0x19, 0x7a, 0x5c, 0x88,
    0x28, 0x90, 0x58, 0x84, 0x0c, 0xe7, 0xc6, 0xdf, 0x96, 0x93, 0x75, 0x6b, 0xc6, 0x25, 0x0f, 0x55]

theorem generated_opens_zeros :
    let env : Env := { Env.default with sha256 := fun _ => zerosDigest }
    let generated := AdminAuthenticator.generate env.sha256 (List.replicate 32 0)
    ∃ a, AdminAuthenticator.fromVerifierHash env.sha256 generated.verifier 0 = .ok a ∧
      ∀ d : Door, d.admin = a → d.visits = [] → ∀ ls,
        Trace.AllStates (next env fun _ => []) (OpensToOperator env (fun _ => [])
          generated.plaintext defaultMaxInflightVerifications) d ls :=
  generated_opens rfl (fun _ => rfl) 0

end Operator

end Door

/-! ## Tokens and keys -/

section Issued

variable {env : Env} {display : IpAddr → Text} {views : Views} {d : Door} {source : IpAddr}
  {name : SessionName} {raw : List UInt8} {headers : HeaderMap} {rows cols : Option Nat}

theorem SessionName.parse_bytes : SessionName.parse name.bytes = .ok name := dif_pos name.valid

theorem presented_of_carries (hraw : raw.length = 32) (h : headers.Carries (hexEncode raw)) :
    presented headers name.bytes = some (hexEncode raw, name) := by
  have hlength : (hexEncode raw).length = 64 := by rw [length_hexEncode, hraw]
  have hsmall : ¬ (hexEncode raw = [] ∨ (hexEncode raw).length > maxAttachTokenBytes) := by
    rw [hlength, maxAttachTokenBytes, List.eq_nil_iff_length_eq_zero, hlength]
    decide
  rw [presented, wsBearerToken_of_carries h fun _ => visible_of_mem_hexEncode]
  dsimp only
  rw [if_neg hsmall, SessionName.parse_bytes]

/-- The step at which the secrets are asked answers the request with 401. -/
def Door.refuses (env : Env) (display : IpAddr → Text) (views : Views) (d : Door)
    (request : Request) : Prop :=
  (d.step env display views ⟨request, .admitted⟩).map (·.2.phase) =
    some (.answered (.response .unauthorized))

theorem Door.refuses_attach_iff {token session : List UInt8}
    (hpresented : presented headers session = some (token, name)) :
    d.refuses env display views (.attach source headers session rows cols) ↔
      ¬ views.Accepts env d (.attach source headers session rows cols) name := by
  have hstep : d.refuses env display views (.attach source headers session rows cols) ↔
      attachName env views headers session = none := by
    simp only [refuses, step]
    cases attachName env views headers session with
    | none => exact iff_of_true rfl rfl
    | some name' =>
      refine iff_of_false (fun h => ?_) (Option.some_ne_none _)
      dsimp only [Option.map_some] at h
      split at h <;> cases h
  rw [hstep, ← attachName_eq_some]
  refine ⟨fun h => by rw [h]; exact Option.some_ne_none _ ∘ Eq.symm,
    fun h => Option.eq_none_iff_forall_ne_some.mpr fun name' hname => ?_⟩
  -- Whatever it accepts is what the request is for.
  have haccepts : views.Accepts env d (.attach source headers session rows cols) name' :=
    attachName_eq_some.mp hname
  cases haccepts with
  | attach hpresented' =>
    obtain ⟨-, rfl⟩ := Prod.mk.inj (Option.some.inj (hpresented.symm.trans hpresented'))
    exact h hname

theorem Door.refuses_toolsAttach_iff {token session : List UInt8}
    (hpresented : presented headers session = some (token, name)) :
    d.refuses env display views (.toolsAttach source headers session) ↔
      ¬ views.Accepts env d (.toolsAttach source headers session) name := by
  have hstep : d.refuses env display views (.toolsAttach source headers session) ↔
      toolsAttachName env views d.toolsHub d.now headers session = none := by
    simp only [refuses, step]
    cases toolsAttachName env views d.toolsHub d.now headers session with
    | none => exact iff_of_true rfl rfl
    | some name' => exact iff_of_false (fun h => by cases h) (Option.some_ne_none _)
  rw [hstep, ← toolsAttachName_eq_some]
  refine ⟨fun h => by rw [h]; exact Option.some_ne_none _ ∘ Eq.symm,
    fun h => Option.eq_none_iff_forall_ne_some.mpr fun name' hname => ?_⟩
  have haccepts : views.Accepts env d (.toolsAttach source headers session) name' :=
    toolsAttachName_eq_some.mp hname
  cases haccepts with
  | toolsAttach hhub hpresented' =>
    obtain ⟨-, rfl⟩ := Prod.mk.inj (Option.some.inj (hpresented.symm.trans hpresented'))
    exact h hname

/-- What is minted is the text of the random bytes, and what is stored is its hash. -/
theorem TokenEntries.mintForSession_ok {entries : TokenEntries} {ttl : Duration}
    {generation : Generation} {issuedAt : Instant} {minted : MintedAttachToken}
    (h : (entries.mintForSession env.sha256 ttl name generation (some raw) issuedAt).2 =
      .ok minted) :
    minted.plaintext = hexEncode raw ∧
      (entries.mintForSession env.sha256 ttl name generation (some raw) issuedAt).1[name]? =
        some { hash := env.sha256 (hexEncode raw), generation, scope := .attachOnly,
               expiresAt := issuedAt + ttl } := by
  unfold mintForSession at h ⊢
  split
  · rename_i httl
    rw [if_pos httl] at h
    cases h
  · rename_i httl
    rw [if_neg httl] at h
    obtain rfl := Except.ok.inj h
    exact ⟨rfl, by rw [ToolsHub.getElem?_insert_name, if_pos rfl]⟩

theorem ToolsHub.mintWithTtl_ok {hub : ToolsHub} {ttl : Duration} {issuedAt : Instant}
    {minted : MintedToolsAttach}
    (h : (hub.mintWithTtl env.sha256 name ttl (some raw) issuedAt).2 = .ok minted) :
    minted.plaintext = hexEncode raw ∧
      (hub.mintWithTtl env.sha256 name ttl (some raw) issuedAt).1.grants[name]? =
        some { hash := env.sha256 (hexEncode raw), expiresAt := issuedAt + ttl } := by
  unfold mintWithTtl at h ⊢
  split
  · rename_i hzero
    rw [if_pos hzero] at h
    cases h
  · rename_i hzero
    rw [if_neg hzero] at h
    split
    · rename_i hmax
      rw [if_pos hmax] at h
      cases h
    · rename_i hmax
      rw [if_neg hmax] at h
      obtain rfl := Except.ok.inj h
      exact ⟨rfl, by rw [getElem?_insert_name, if_pos rfl]⟩

/-- An attach token opens the session that it was minted for, in the generation that it was minted
for, until it expires. -/
theorem accepts_attach_iff {generation : Generation} {expiresAt : Instant}
    (hpresented : presented headers name.bytes = some (hexEncode raw, name))
    (hstored : views.verify.tokens[name]? =
      some { hash := env.sha256 (hexEncode raw), generation, scope := .attachOnly, expiresAt }) :
    views.Accepts env d (.attach source headers name.bytes rows cols) name ↔
      views.verify.now < expiresAt ∧ ∃ sid live, views.get.sessions[name]? = some sid ∧
        views.generation.heap[sid]? = some live ∧ live.state.generation = generation := by
  constructor
  · intro h
    cases h with
    | attach hpresented' hget hlive hstored' haccepts =>
      obtain rfl := Option.some.inj (hstored.symm.trans hstored')
      obtain ⟨hnow, hgeneration, -⟩ := StoredAttachToken.accepts_iff.mp haccepts
      exact ⟨hnow, _, _, hget, hlive, hgeneration.symm⟩
  · rintro ⟨hnow, sid, live, hget, hlive, rfl⟩
    exact .attach hpresented hget hlive hstored
      (StoredAttachToken.accepts_iff.mpr ⟨hnow, rfl, rfl⟩)

/-- A tools attach token opens the session that it was minted for until it expires. -/
theorem accepts_toolsAttach_iff {expiresAt : Instant} (hhub : d.toolsHub = true)
    (hpresented : presented headers name.bytes = some (hexEncode raw, name))
    (hgrant : views.tools.grants[name]? =
      some { hash := env.sha256 (hexEncode raw), expiresAt }) :
    views.Accepts env d (.toolsAttach source headers name.bytes) name ↔
      d.now < expiresAt ∧ (views.get.sessions[name]?).isSome = true := by
  constructor
  · intro h
    cases h with
    | toolsAttach _ hpresented' hget hgrant' haccepts =>
      obtain rfl := Option.some.inj (hgrant.symm.trans hgrant')
      simp only [ToolsHub.Grant.accepts, Bool.and_eq_true, decide_eq_true_eq] at haccepts
      exact ⟨haccepts.1, Option.isSome_iff_exists.mpr ⟨_, hget⟩⟩
  · rintro ⟨hnow, hsession⟩
    obtain ⟨sid, hget⟩ := Option.isSome_iff_exists.mp hsession
    refine .toolsAttach hhub hpresented hget hgrant ?_
    simp only [ToolsHub.Grant.accepts, Bool.and_eq_true, decide_eq_true_eq]
    exact ⟨hnow, trivial⟩

/-- The only element that meets the condition is the one that is found. -/
theorem findRev?_eq_some_of_unique {α : Type} {p : α → Bool} {a : α} {l : List α} (ha : a ∈ l)
    (hpa : p a = true) (hunique : ∀ b ∈ l, p b = true → b = a) : l.findRev? p = some a := by
  rw [List.findRev?_eq_findRev?TR, List.findRev?TR]
  cases hfind : l.reverse.find? p with
  | none => exact absurd hpa (List.find?_eq_none.mp hfind a (List.mem_reverse.mpr ha))
  | some b =>
    rw [hunique b (List.mem_reverse.mp (List.mem_of_find?_eq_some hfind))
      (List.find?_some hfind)]

theorem ToolsHub.sessionForLoopbackKey_hexEncode {hub : ToolsHub} (hraw : raw.length = 32)
    (hkey : hub.loopbackKeys[name]? = some raw)
    (hunique : ∀ other, hub.loopbackKeys[other]? = some raw → other = name) :
    hub.sessionForLoopbackKey (hexEncode raw) = some name := by
  have hfind : hub.loopbackKeys.toList.findRev? (fun e => raw == e.2) = some (name, raw) := by
    refine findRev?_eq_some_of_unique (Std.TreeMap.mem_toList_iff_getElem?_eq_some.mpr hkey)
      (beq_self_eq_true raw) fun e he hbeq => ?_
    obtain ⟨other, bytes⟩ := e
    obtain rfl : raw = bytes := eq_of_beq hbeq
    rw [hunique other (Std.TreeMap.mem_toList_iff_getElem?_eq_some.mp he)]
  rw [sessionForLoopbackKey, hexDecode_hexEncode]
  dsimp only
  rw [if_neg (not_not.mpr hraw), hfind]
  rfl

/-- What the runtime hands out is what it lets in. A token that still is the one of its session is
answered with 401 only if the session is gone or was restarted, or the token has expired, by
whichever header it comes; and so is a loopback key, by either of its routes. -/
theorem issued_opens (hraw : raw.length = 32) :
    (∀ (entries : TokenEntries) (ttl : Duration) (generation : Generation) (issuedAt : Instant)
        (minted : MintedAttachToken),
      (entries.mintForSession env.sha256 ttl name generation (some raw) issuedAt).2 = .ok minted →
      views.verify.tokens[name]? =
        (entries.mintForSession env.sha256 ttl name generation (some raw) issuedAt).1[name]? →
      headers.Carries minted.plaintext →
      (d.refuses env display views (.attach source headers name.bytes rows cols) ↔
        ¬ (views.verify.now < issuedAt + ttl ∧ ∃ sid live, views.get.sessions[name]? = some sid ∧
          views.generation.heap[sid]? = some live ∧ live.state.generation = generation))) ∧
    (∀ (hub : ToolsHub) (ttl : Duration) (issuedAt : Instant) (minted : MintedToolsAttach),
      d.toolsHub = true →
      (hub.mintWithTtl env.sha256 name ttl (some raw) issuedAt).2 = .ok minted →
      views.tools.grants[name]? =
        (hub.mintWithTtl env.sha256 name ttl (some raw) issuedAt).1.grants[name]? →
      headers.Carries minted.plaintext →
      (d.refuses env display views (.toolsAttach source headers name.bytes) ↔
        ¬ (d.now < issuedAt + ttl ∧ (views.get.sessions[name]?).isSome = true))) ∧
    ∀ (hub : ToolsHub) (protocols : Option (List UInt8)),
      views.tools.loopbackKeys[name]? =
        (hub.issueLoopbackKey name (some raw)).1.loopbackKeys[name]? →
      (toolsLoopback views name.bytes (hub.issueLoopbackKey name (some raw)).2 = .loopback name ↔
        (views.get.sessions[name]?).isSome = true) ∧
      ((∀ other, views.tools.loopbackKeys[other]? = some raw → other = name) →
        (toolsLoopbackBearer views
            ⟨some (ascii "Bearer " ++ (hub.issueLoopbackKey name (some raw)).2), protocols⟩ =
          .loopback name ↔ (views.get.sessions[name]?).isSome = true)) := by
  refine ⟨?_, ?_, fun hub protocols hkept => ?_⟩
  · intro entries ttl generation issuedAt minted hmint hkept hcarries
    obtain ⟨hplaintext, hstored⟩ := TokenEntries.mintForSession_ok hmint
    have hpresented : presented headers name.bytes = some (hexEncode raw, name) :=
      presented_of_carries hraw (hplaintext ▸ hcarries)
    rw [Door.refuses_attach_iff hpresented, accepts_attach_iff hpresented (hkept.trans hstored)]
  · intro hub ttl issuedAt minted hhub hmint hkept hcarries
    obtain ⟨hplaintext, hgrant⟩ := ToolsHub.mintWithTtl_ok hmint
    have hpresented : presented headers name.bytes = some (hexEncode raw, name) :=
      presented_of_carries hraw (hplaintext ▸ hcarries)
    rw [Door.refuses_toolsAttach_iff hpresented,
      accepts_toolsAttach_iff hhub hpresented (hkept.trans hgrant)]
  · have hkey : views.tools.loopbackKeys[name]? = some raw := by
      rw [hkept, ToolsHub.issueLoopbackKey, ToolsHub.getElem?_insert_name, if_pos rfl]
    have hne : hexEncode raw ≠ [] :=
      List.ne_nil_of_length_pos (by rw [length_hexEncode, hraw]; decide)
    refine ⟨?_, fun hunique => ?_⟩
    · show toolsLoopback views name.bytes (hexEncode raw) = _ ↔ _
      rw [toolsLoopback, SessionName.parse_bytes]
      dsimp only
      rw [ToolsHub.checkLoopbackKey_hexEncode hkey]
      cases views.get.sessions[name]? with
      | none => exact iff_of_false (fun h => by cases h) (by simp)
      | some sid => exact iff_of_true rfl rfl
    · show toolsLoopbackBearer views ⟨some (ascii "Bearer " ++ hexEncode raw), protocols⟩ = _ ↔ _
      rw [toolsLoopbackBearer, bearerToken_bearer (fun _ => printed_of_mem_hexEncode) hne]
      dsimp only
      rw [ToolsHub.sessionForLoopbackKey_hexEncode hraw hkey hunique]
      dsimp only
      cases views.get.sessions[name]? with
      | none => exact iff_of_false (fun h => by cases h) (by simp)
      | some sid => exact iff_of_true rfl rfl

/-- What `sh` is handed: an attach token by a browser's subprotocols, until the minute is over; a
tools token by `Authorization`; and a loopback key by its URL and as a bearer. -/
theorem issued_opens_sh :
    let env : Env := { Env.default with sha256 := TokenRun.evenSha256 }
    let session := ((Shared.init.allocate env .sh ⟨1⟩ .default).1.publish .sh 0).1
    let entries : TokenEntries :=
      ((∅ : TokenEntries).mintForSession env.sha256 (.fromSecs 60) .sh ⟨1⟩
        (some (List.replicate 32 0)) 0).1
    let hub := ((ToolsHub.new (.fromSecs 60)).mintWithTtl env.sha256 .sh (.fromSecs 30)
      (some (List.replicate 32 1)) 0).1.issueLoopbackKey .sh (some (List.replicate 32 2))
    let views (now : Instant) : Views :=
      { get := session, generation := session, verify := { session with tokens := entries, now }
        tools := hub.1 }
    let door : Door :=
      { toolsHub := true, upgrades := .default, admin := .new env.sha256 [] 4 100 0,
        draining := false, abuse := ⟨0, 0, 0⟩, visits := [] }
    let offers := [ascii "openab.pty.v1",
      ascii " " ++ (bearerSubprotocolPrefix ++ TokenRun.evenToken 0)]
    let browser : HeaderMap := ⟨none, some ([0x2c].intercalate offers)⟩
    let header (b : UInt8) : HeaderMap :=
      ⟨some (ascii "Bearer " ++ TokenRun.evenToken b), none⟩
    let attach : Request := .attach (.v4 1) browser SessionName.sh.bytes none none
    ¬ door.refuses env (fun _ => []) (views (Duration.fromSecs 59)) attach ∧
    door.refuses env (fun _ => []) (views (Duration.fromSecs 60)) attach ∧
    ¬ door.refuses env (fun _ => []) (views 0)
      (.toolsAttach (.v4 1) (header 1) SessionName.sh.bytes) ∧
    toolsLoopback (views 0) SessionName.sh.bytes hub.2 = .loopback .sh ∧
    toolsLoopbackBearer (views 0) (header 2) = .loopback .sh := by
  intro env session entries hub views door offers browser header attach
  have hcarries : browser.Carries (TokenRun.evenToken 0) := by
    refine @HeaderMap.Carries.subprotocol _ offers [ascii "openab.pty.v1"] [] ?_ ?_ ?_
    · have hall : (offers.all fun offer => offer.all fun b =>
          decide (32 ≤ b ∧ b < 127 ∧ b ≠ 0x2c)) = true := by decide
      simpa only [List.all_eq_true, decide_eq_true_eq] using hall
    · decide
    · simp [ascii, bearerSubprotocolPrefix]
  have hattach (now : Instant) := (@issued_opens env (fun _ => []) (views now) door (.v4 1) .sh
    (List.replicate 32 0) browser none none rfl).1 ∅ (.fromSecs 60) ⟨1⟩ 0 _ rfl rfl hcarries
  have htools := (@issued_opens env (fun _ => []) (views 0) door (.v4 1) .sh
    (List.replicate 32 1) (header 1) none none rfl).2.1 (ToolsHub.new (.fromSecs 60)) (.fromSecs 30)
    0 _ rfl rfl rfl .authorization
  have hloopback := (@issued_opens env (fun _ => []) (views 0) door (.v4 1) .sh
    (List.replicate 32 2) (header 2) none none rfl).2.2 _ none rfl
  have hsession : session.sessions[SessionName.sh]? = some 0 := by decide
  have hlive : session.heap[0]?.map (·.state.generation) = some ⟨1⟩ := by decide
  obtain ⟨live, hlive, hgeneration⟩ := Option.map_eq_some_iff.mp hlive
  refine ⟨?_, ?_, ?_, ?_, ?_⟩
  · rw [hattach, not_not]
    exact ⟨by decide, 0, live, hsession, hlive, hgeneration⟩
  · rw [hattach]
    exact fun h => absurd h.1 (by decide)
  · rw [htools, not_not]
    exact ⟨by decide, Option.isSome_iff_exists.mpr ⟨0, hsession⟩⟩
  · exact hloopback.1.mpr (Option.isSome_iff_exists.mpr ⟨0, hsession⟩)
  · refine (hloopback.2 fun other hother => ?_).mpr (Option.isSome_iff_exists.mpr ⟨0, hsession⟩)
    -- No other session has a key.
    have hkeys : (views 0).tools.loopbackKeys[other]? =
        if SessionName.sh = other then some (List.replicate 32 2) else none :=
      (ToolsHub.getElem?_insert_name _ _ _ _).trans rfl
    rw [hkeys] at hother
    exact (Option.ite_none_right_eq_some.mp hother).1.symm

end Issued

end OpenabPty
