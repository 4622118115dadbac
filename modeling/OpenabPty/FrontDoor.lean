import OpenabPty.AdminAuth
import OpenabPty.Conn
import OpenabPty.Sequences
import OpenabPty.ToolsHub
import OpenabPty.Upgrades
import OpenabPty.Core.Trace

/-!
# The front door (`server.rs`)

What the routes do until a credential has been checked: the bearer tokens of the headers, the
upgrade limiter, the drain, and the gate of the admin plane. Requests are at the door at the same
time, and while one is checked the secrets of the runtime change under it: each lock that it takes
shows them as they are then.
-/

namespace OpenabPty

/-! ## Credentials in headers -/

/-- The first value of each of the headers that are read. -/
structure HeaderMap where
  authorization : Option (List UInt8)
  secWebsocketProtocol : Option (List UInt8)
  deriving DecidableEq

/-- `HeaderValue::to_str`: visible ASCII and tabs. -/
def toStr (value : List UInt8) : Option (List UInt8) :=
  if value.all fun b => (32 ≤ b && b < 127) || b == 9 then some value else none

/-- `str::trim`, of a header. -/
def trim (s : List UInt8) : List UInt8 :=
  let blank (b : UInt8) : Bool := b == 32 || b == 9
  ((s.dropWhile blank).reverse.dropWhile blank).reverse

/-- `str::split_once`. -/
def splitOnce (separator : UInt8) (s : List UInt8) : Option (List UInt8 × List UInt8) :=
  match s.span (· != separator) with
  | (_, []) => none
  | (before, _ :: after) => some (before, after)

/-- `u8::to_ascii_lowercase`. -/
def toAsciiLowercase (b : UInt8) : UInt8 := if 65 ≤ b && b ≤ 90 then b + 32 else b

/-- `BEARER_SUBPROTOCOL_PREFIX`. -/
def bearerSubprotocolPrefix : List UInt8 := ascii "openab.bearer."

/-- `subprotocol_token`. -/
def subprotocolToken (headers : HeaderMap) : Option (List UInt8) :=
  (headers.secWebsocketProtocol.bind toStr).bind fun list =>
    ((list.splitOn 0x2c).map trim).findSome? (bearerSubprotocolPrefix.isPrefixOf? ·)

/-- The rest of `Authorization` after `Bearer`. -/
def authorizationBearer (headers : HeaderMap) : Option (List UInt8) :=
  (headers.authorization.bind toStr).bind ((ascii "Bearer ").isPrefixOf? ·)

/-- `ws_bearer_token`. -/
def wsBearerToken (headers : HeaderMap) : Option (List UInt8) :=
  (authorizationBearer headers).or (subprotocolToken headers)

/-- `admin_credential`. -/
def adminCredential (headers : HeaderMap) : Option (List UInt8) :=
  match authorizationBearer headers with
  | none => none
  | some raw => if raw = [] ∨ raw.length > maxAdminCredentialBytes then none else some raw

/-- `bearer_token`, of the loopback surface. -/
def bearerToken (headers : HeaderMap) : Option (List UInt8) :=
  (headers.authorization.bind toStr).bind fun value =>
    match splitOnce 32 (trim value) with
    | none => none
    | some (scheme, token) =>
      if scheme.map toAsciiLowercase ≠ ascii "bearer" then none
      else if trim token = [] then none
      else some (trim token)

/-- `session_for_loopback_key`. -/
def ToolsHub.sessionForLoopbackKey (hub : ToolsHub) (presented : List UInt8) :
    Option SessionName :=
  match hexDecode presented with
  | none => none
  | some bytes =>
    if bytes.length ≠ 32 then none
    else (hub.loopbackKeys.toList.findRev? fun e => bytes == e.2).map (·.1)

/-! ## Answers -/

/-- An answer that needs no credential. -/
structure Response where
  status : Nat
  headers : List (String × String)
  body : String
  deriving DecidableEq

namespace Response

/-- A status, and nothing else. -/
def ofStatus (status : Nat) : Response := { status, headers := [], body := "" }

/-- The answer to a source that has to wait. -/
def tooManyRequests (retryAfter : Duration) : Response :=
  { status := 429, headers := [("retry-after", toString (max retryAfter.asSecs 1))], body := "" }

def draining : Response :=
  { status := 503, headers := [], body := "runtime is draining for shutdown" }

def unauthorized : Response := ofStatus 401

def sizeOutOfRange : Response := { status := 400, headers := [], body := "rows/cols out of range" }

/-- The 401 of `tools_loopback_bearer`. -/
def sendBearer : Response :=
  { status := 401, headers := [("www-authenticate", "Bearer")],
    body := "send Authorization: Bearer $OPENAB_TOOLS_MCP_TOKEN" }

/-- `admin_failure_response`. -/
def ofAdminFailure : AdminAuthFailure → Response
  | .invalid => ofStatus 401
  | .tooLarge => ofStatus 413
  | .busy => ofStatus 503
  | .throttled retryAfter => tooManyRequests retryAfter

end Response

/-- What becomes of a request. -/
inductive Outcome where
  | response (r : Response)
  -- `upgrade.on_upgrade` of `attach` and of `tools_attach`
  | upgrade (name : SessionName)
  -- `serve_loopback`
  | loopback (name : SessionName)
  -- what an admin route does behind its gate
  | admin
  deriving DecidableEq

/-! ## Requests -/

/-- A request, with what the routes read of it. -/
inductive Request where
  | attach (source : IpAddr) (headers : HeaderMap) (session : List UInt8) (rows cols : Option Nat)
  | toolsAttach (source : IpAddr) (headers : HeaderMap) (session : List UInt8)
  | toolsLoopback (session key : List UInt8)
  | toolsLoopbackBearer (headers : HeaderMap)
  | admin (source : IpAddr) (headers : HeaderMap)
  deriving DecidableEq

/-- The secrets as a request sees them: what `manager.get` finds, the generation of the session,
the tokens and the grants or keys. -/
structure Views where
  get : Shared
  generation : Shared
  verify : Shared
  tools : ToolsHub

/-- The token and the name that `attach` and `tools_attach` go on with. -/
def presented (headers : HeaderMap) (session : List UInt8) : Option (List UInt8 × SessionName) :=
  match wsBearerToken headers with
  | none => none
  | some token =>
    if token = [] ∨ token.length > maxAttachTokenBytes then none
    else
      match SessionName.parse session with
      | .error _ => none
      | .ok name => some (token, name)

/-- The checks of `attach` that share one 401. -/
def attachName (env : Env) (views : Views) (headers : HeaderMap) (session : List UInt8) :
    Option SessionName :=
  match presented headers session with
  | none => none
  | some (token, name) =>
    match views.get.sessions[name]? with
    | none => none
    | some sid =>
      match views.generation.heap[sid]? with
      | none => none
      | some live =>
        match (views.verify.verifyToken env name live.state.generation token).2 with
        | .error _ => none
        | .ok _ => some name

/-- The checks of `tools_attach` that share one 401; `toolsHub` says whether there is a hub. -/
def toolsAttachName (env : Env) (views : Views) (toolsHub : Bool) (now : Instant)
    (headers : HeaderMap) (session : List UInt8) : Option SessionName :=
  if !toolsHub then none
  else
    match presented headers session with
    | none => none
    | some (token, name) =>
      match views.get.sessions[name]? with
      | none => none
      | some _ =>
        match (views.tools.verify env.sha256 name token now).2 with
        | .error _ => none
        | .ok () => some name

/-- `tools_loopback`. -/
def toolsLoopback (views : Views) (session key : List UInt8) : Outcome :=
  match SessionName.parse session with
  | .error _ => .response (.ofStatus 404)
  | .ok name =>
    if (views.get.sessions[name]?).isNone || !views.tools.checkLoopbackKey name key then
      .response (.ofStatus 404)
    else .loopback name

/-- `tools_loopback_bearer`. -/
def toolsLoopbackBearer (views : Views) (headers : HeaderMap) : Outcome :=
  match bearerToken headers with
  | none => .response .sendBearer
  | some key =>
    match views.tools.sessionForLoopbackKey key with
    | none => .response .sendBearer
    | some name =>
      match views.get.sessions[name]? with
      | none => .response .sendBearer
      | some _ => .loopback name

/-! ## The door -/

/-- `AbuseMetrics`, as far as the routes count. -/
structure AbuseMetrics where
  upgradeFailures : Nat
  upgradeBans : Nat
  adminAuthFailures : Nat
  deriving DecidableEq

/-- Where a request is. -/
inductive Phase where
  | arrived
  -- the upgrade limiter lets it pass
  | unbanned
  -- the runtime is not draining
  | admitted
  | gate (call : AdminCall)
  | answered (outcome : Outcome)
  deriving DecidableEq

/-- A request that is being handled. -/
structure Visit where
  request : Request
  phase : Phase
  deriving DecidableEq

namespace Visit

def goto (v : Visit) (phase : Phase) : Visit := { v with phase }

def answer (v : Visit) (outcome : Outcome) : Visit := v.goto (.answered outcome)

end Visit

/-- What `AppState` knows that is not a secret, and the requests so far. `toolsHub` says whether
the runtime has a hub; the clock is that of `admin`. -/
structure Door where
  toolsHub : Bool
  upgrades : UpgradeFailureLimiter
  admin : AdminAuthenticator
  draining : Bool
  abuse : AbuseMetrics
  visits : List Visit

namespace Door

def now (d : Door) : Instant := d.admin.now

/-- The ban check of `attach` and of `tools_attach`. -/
def check (d : Door) (source : IpAddr) (v : Visit) : Door × Visit :=
  match d.upgrades.checkAt source d.now with
  | (upgrades, .ok ()) => ({ d with upgrades }, v.goto .unbanned)
  | (upgrades, .error retryAfter) =>
    ({ d with upgrades, abuse.upgradeBans := d.abuse.upgradeBans + 1 },
      v.answer (.response (.tooManyRequests retryAfter)))

/-- `rejected`. -/
def rejected (d : Door) (source : IpAddr) (v : Visit) : Door × Visit :=
  let recorded := d.upgrades.recordFailureAt source d.now
  let bans := d.abuse.upgradeBans
  ({ d with
      upgrades := recorded.1
      abuse := { d.abuse with
        upgradeFailures := d.abuse.upgradeFailures + 1
        upgradeBans := if recorded.2 then bans + 1 else bans } },
    v.answer (.response .unauthorized))

/-- `on_success`. -/
def welcome (d : Door) (source : IpAddr) : Door :=
  { d with upgrades := d.upgrades.onSuccess source }

def bumpAdminFailures (d : Door) : Door :=
  { d with abuse.adminAuthFailures := d.abuse.adminAuthFailures + 1 }

/-- The start of `admin_gate`: without a credential, `reject_unauthenticated` is called. `display`
prints an address. -/
def knock (display : IpAddr → Text) (d : Door) (source : IpAddr) (headers : HeaderMap)
    (v : Visit) : Door × Visit :=
  let credential := adminCredential headers
  (if credential.isNone then d.bumpAdminFailures else d,
    v.goto (.gate { credential, source := some (display source), pc := .start }))

/-- The next step of a request, which sees the secrets as `views`. -/
def step (env : Env) (display : IpAddr → Text) (views : Views) (d : Door) (v : Visit) :
    Option (Door × Visit) :=
  match v.phase, v.request with
  | .arrived, .attach source _ _ _ _ => some (d.check source v)
  | .arrived, .toolsAttach source _ _ => some (d.check source v)
  | .arrived, .toolsLoopback session key => some (d, v.answer (toolsLoopback views session key))
  | .arrived, .toolsLoopbackBearer headers =>
    some (d, v.answer (toolsLoopbackBearer views headers))
  | .arrived, .admin source headers => some (d.knock display source headers v)
  | .unbanned, _ =>
    some (d, if d.draining then v.answer (.response .draining) else v.goto .admitted)
  | .admitted, .attach source headers session rows cols =>
    match attachName env views headers session with
    | none => some (d.rejected source v)
    | some name =>
      some (d.welcome source,
        match WindowSize.validated (rows.getD 24) (cols.getD 80) with
        | none => v.answer (.response .sizeOutOfRange)
        | some _ => v.answer (.upgrade name))
  | .admitted, .toolsAttach source headers session =>
    match toolsAttachName env views d.toolsHub d.now headers session with
    | none => some (d.rejected source v)
    | some name => some (d.welcome source, v.answer (.upgrade name))
  | .admitted, _ => none
  | .gate call, _ =>
    match call.pc with
    | .returned (.ok ()) => some (d, v.answer .admin)
    | .returned (.error failure) =>
      some (if call.credential.isSome then d.bumpAdminFailures else d,
        v.answer (.response (.ofAdminFailure failure)))
    | _ =>
      (call.step env.sha256 d.admin).map fun (admin, call) => ({ d with admin }, v.goto (.gate call))
  | .answered _, _ => none

/-- A request comes in; one of them takes a step; the drain begins; time passes; the maps of the
limiters are iterated over in another order. -/
inductive Label where
  | enter (request : Request)
  | advance (i : Nat) (views : Views)
  | drain
  | pass (d : Duration)
  | rehash (entries : List (IpAddr × FailureWindow)) (failures : Failures)

/-- What happens at the door. -/
def next (env : Env) (display : IpAddr → Text) (d : Door) : Label → Option Door
  | .enter request => some { d with visits := d.visits ++ [{ request, phase := .arrived }] }
  | .advance i views =>
    d.visits[i]?.bind fun v =>
      (d.step env display views v).map fun (d, v) => { d with visits := d.visits.set i v }
  | .drain => some { d with draining := true }
  | .pass elapsed => some { d with admin.now := d.admin.now + elapsed }
  | .rehash entries failures =>
    if entries.Perm d.upgrades.entries ∧ failures.Perm d.admin.failures then
      some { d with upgrades.entries := entries, admin.failures := failures }
    else none

end Door

/-! ## Whose credential is accepted -/

/-- The secrets accept the credential of a request, for a session. -/
inductive Views.Accepts (env : Env) (views : Views) (d : Door) : Request → SessionName → Prop where
  | attach {source headers session rows cols token name sid live stored}
      (hpresented : presented headers session = some (token, name))
      (hget : views.get.sessions[name]? = some sid)
      (hlive : views.generation.heap[sid]? = some live)
      (hstored : views.verify.tokens[name]? = some stored)
      (haccepts : stored.accepts live.state.generation (env.sha256 token) views.verify.now = true) :
      Accepts env views d (.attach source headers session rows cols) name
  | toolsAttach {source headers session token name sid grant} (hhub : d.toolsHub = true)
      (hpresented : presented headers session = some (token, name))
      (hget : views.get.sessions[name]? = some sid)
      (hgrant : views.tools.grants[name]? = some grant)
      (haccepts : ToolsHub.Grant.accepts grant (env.sha256 token) d.now = true) :
      Accepts env views d (.toolsAttach source headers session) name
  | toolsLoopback {session key name sid bytes} (hparse : SessionName.parse session = .ok name)
      (hget : views.get.sessions[name]? = some sid) (hdecode : hexDecode key = some bytes)
      (hkey : views.tools.loopbackKeys[name]? = some bytes) :
      Accepts env views d (.toolsLoopback session key) name
  | toolsLoopbackBearer {headers key name sid} (htoken : bearerToken headers = some key)
      (hkey : views.tools.sessionForLoopbackKey key = some name)
      (hget : views.get.sessions[name]? = some sid) :
      Accepts env views d (.toolsLoopbackBearer headers) name

variable {env : Env} {display : IpAddr → Text} {views views' : Views} {d : Door}
  {source : IpAddr} {headers : HeaderMap} {session key : List UInt8} {rows cols : Option Nat}
  {name : SessionName}

theorem TokenEntries.verify_eq_ok {entries : TokenEntries} {sha256 : List UInt8 → Digest}
    {generation : Generation} {token : List UInt8} {now : Instant} :
    (∃ grant, (entries.verify sha256 name generation token now).2 = .ok grant) ↔
      ∃ stored, entries[name]? = some stored ∧
        stored.accepts generation (sha256 token) now = true := by
  rw [TokenEntries.verify]
  cases hstored : entries[name]? with
  | none => simp
  | some stored =>
    by_cases haccepts : stored.accepts generation (sha256 token) now = true
    · simp [haccepts]
    · by_cases hexpired : stored.expiresAt ≤ now <;> simp [haccepts, hexpired]

theorem ToolsHub.verify_eq_ok {hub : ToolsHub} {sha256 : List UInt8 → Digest}
    {token : List UInt8} {now : Instant} :
    (hub.verify sha256 name token now).2 = .ok () ↔
      ∃ grant, hub.grants[name]? = some grant ∧ Grant.accepts grant (sha256 token) now = true := by
  rw [ToolsHub.verify]
  cases hub.grants[name]? with
  | none => simp
  | some grant => by_cases haccepts : Grant.accepts grant (sha256 token) now <;> simp [haccepts]

/-- `attach` accepts what the secrets accept. -/
theorem attachName_eq_some :
    attachName env views headers session = some name ↔
      views.Accepts env d (.attach source headers session rows cols) name := by
  constructor
  · intro h
    unfold attachName at h
    split at h
    · cases h
    rename_i token name' hpresented
    split at h
    · cases h
    rename_i sid hget
    split at h
    · cases h
    rename_i live hlive
    split at h
    · cases h
    rename_i grant hverify
    obtain rfl := Option.some.inj h
    obtain ⟨stored, hstored, haccepts⟩ := TokenEntries.verify_eq_ok.mp ⟨grant, hverify⟩
    exact .attach hpresented hget hlive hstored haccepts
  · intro h
    cases h with
    | attach hpresented hget hlive hstored haccepts =>
      obtain ⟨grant, hverify⟩ := TokenEntries.verify_eq_ok.mpr ⟨_, hstored, haccepts⟩
      simp only [attachName, hpresented, hget, hlive, Shared.verifyToken, hverify]

/-- `tools_attach` accepts what the secrets accept. -/
theorem toolsAttachName_eq_some :
    toolsAttachName env views d.toolsHub d.now headers session = some name ↔
      views.Accepts env d (.toolsAttach source headers session) name := by
  constructor
  · intro h
    unfold toolsAttachName at h
    split at h
    · cases h
    rename_i hhub
    split at h
    · cases h
    rename_i token name' hpresented
    split at h
    · cases h
    rename_i sid hget
    split at h
    · cases h
    rename_i hverify
    obtain rfl := Option.some.inj h
    obtain ⟨grant, hgrant, haccepts⟩ := ToolsHub.verify_eq_ok.mp hverify
    exact .toolsAttach (by simpa using hhub) hpresented hget hgrant haccepts
  · intro h
    cases h with
    | toolsAttach hhub hpresented hget hgrant haccepts =>
      have hverify := ToolsHub.verify_eq_ok.mpr ⟨_, hgrant, haccepts⟩
      simp [toolsAttachName, hhub, hpresented, hget, hverify]

/-- `tools_loopback` serves what the secrets accept. -/
theorem toolsLoopback_eq_loopback :
    toolsLoopback views session key = .loopback name ↔
      views.Accepts env d (.toolsLoopback session key) name := by
  constructor
  · intro h
    unfold toolsLoopback at h
    split at h
    · cases h
    rename_i name' hparse
    split at h
    · cases h
    rename_i hfound
    obtain rfl := Outcome.loopback.inj h
    simp only [Bool.or_eq_true, not_or, Bool.not_eq_true, Bool.not_eq_false',
      Option.isNone_eq_false_iff, Option.isSome_iff_exists] at hfound
    obtain ⟨⟨sid, hget⟩, hcheck⟩ := hfound
    unfold ToolsHub.checkLoopbackKey at hcheck
    split at hcheck
    · cases hcheck
    rename_i bytes hdecode
    split at hcheck
    · cases hcheck
    rename_i expected hkey
    simp only [Bool.and_eq_true, decide_eq_true_eq] at hcheck
    exact .toolsLoopback hparse hget hdecode (hcheck.2 ▸ hkey)
  · intro h
    cases h with
    | toolsLoopback hparse hget hdecode hkey =>
      simp [toolsLoopback, hparse, hget, ToolsHub.checkLoopbackKey, hdecode, hkey]

theorem toolsLoopback_cases (views : Views) (session key : List UInt8) :
    (∃ name, toolsLoopback views session key = .loopback name) ∨
      toolsLoopback views session key = .response (.ofStatus 404) := by
  unfold toolsLoopback
  split
  · exact .inr rfl
  · split
    · exact .inr rfl
    · exact .inl ⟨_, rfl⟩

/-- `tools_loopback_bearer` serves what the secrets accept. -/
theorem toolsLoopbackBearer_eq_loopback :
    toolsLoopbackBearer views headers = .loopback name ↔
      views.Accepts env d (.toolsLoopbackBearer headers) name := by
  constructor
  · intro h
    unfold toolsLoopbackBearer at h
    split at h
    · cases h
    rename_i token htoken
    split at h
    · cases h
    rename_i name' hkey
    split at h
    · cases h
    rename_i sid hget
    obtain rfl := Outcome.loopback.inj h
    exact .toolsLoopbackBearer htoken hkey hget
  · intro h
    cases h with
    | toolsLoopbackBearer htoken hkey hget => simp only [toolsLoopbackBearer, htoken, hkey, hget]

theorem toolsLoopbackBearer_cases (views : Views) (headers : HeaderMap) :
    (∃ name, toolsLoopbackBearer views headers = .loopback name) ∨
      toolsLoopbackBearer views headers = .response .sendBearer := by
  unfold toolsLoopbackBearer
  split
  · exact .inr rfl
  · split
    · exact .inr rfl
    · split
      · exact .inr rfl
      · exact .inl ⟨_, rfl⟩

/-- Two loopback answers are one if they serve alike. -/
theorem Outcome.eq_of_loopback {o o' : Outcome} {r : Response}
    (h : (∃ name, o = .loopback name) ∨ o = .response r)
    (h' : (∃ name, o' = .loopback name) ∨ o' = .response r)
    (halike : ∀ name, o = .loopback name ↔ o' = .loopback name) : o = o' := by
  obtain ⟨name, hname⟩ | hr := h
  · exact hname.trans ((halike name).mp hname).symm
  · obtain ⟨name, hname⟩ | hr' := h'
    · exact ((halike name).mpr hname).trans hname.symm
    · exact hr.trans hr'.symm

/-! ## What the door shows -/

namespace Door

/-- Secrets that accept a request for the same session let it take the same step. -/
theorem step_congr {v : Visit}
    (h : ∀ name, views.Accepts env d v.request name ↔ views'.Accepts env d v.request name) :
    d.step env display views v = d.step env display views' v := by
  obtain ⟨request, phase⟩ := v
  cases phase with
  | unbanned | gate call | answered outcome => cases request <;> rfl
  | arrived =>
    cases request with
    | attach | toolsAttach | admin => rfl
    | toolsLoopback session key =>
      have hsame : toolsLoopback views session key = toolsLoopback views' session key :=
        Outcome.eq_of_loopback (toolsLoopback_cases ..) (toolsLoopback_cases ..) fun name =>
          toolsLoopback_eq_loopback.trans ((h name).trans toolsLoopback_eq_loopback.symm)
      simp only [step, hsame]
    | toolsLoopbackBearer headers =>
      have hsame : toolsLoopbackBearer views headers = toolsLoopbackBearer views' headers :=
        Outcome.eq_of_loopback (toolsLoopbackBearer_cases ..) (toolsLoopbackBearer_cases ..)
          fun name => toolsLoopbackBearer_eq_loopback.trans
            ((h name).trans toolsLoopbackBearer_eq_loopback.symm)
      simp only [step, hsame]
  | admitted =>
    cases request with
    | toolsLoopback | toolsLoopbackBearer | admin => rfl
    | attach source headers session rows cols =>
      have hsame : attachName env views headers session = attachName env views' headers session :=
        Option.ext fun name => attachName_eq_some.trans ((h name).trans attachName_eq_some.symm)
      simp only [step, hsame]
    | toolsAttach source headers session =>
      have hsame : toolsAttachName env views d.toolsHub d.now headers session =
          toolsAttachName env views' d.toolsHub d.now headers session :=
        Option.ext fun name =>
          toolsAttachName_eq_some.trans ((h name).trans toolsAttachName_eq_some.symm)
      simp only [step, hsame]

/-- The same step, but with other secrets, which accept the request alike. -/
inductive Alike (env : Env) (d : Door) : Label → Label → Prop where
  | same (l : Label) : Alike env d l l
  | advance {i : Nat} {views views' : Views}
      (h : ∀ v, d.visits[i]? = some v → ∀ name,
        views.Accepts env d v.request name ↔ views'.Accepts env d v.request name) :
      Alike env d (.advance i views) (.advance i views')

/-- Whatever requests come in, in whatever order they are handled and whatever the secrets become
meanwhile: the answers, the bans, the throttle and the counters depend on the secrets only through
whose credential is accepted. So a client whose credential never is learns nothing about which
sessions there are. -/
theorem run_eq_of_alike {ls ls' : List Label}
    (h : Trace.Alike (next env display) (Alike env) d ls ls') :
    Trace.run (next env display) d ls = Trace.run (next env display) d ls' := by
  refine Trace.Alike.run_eq (fun d l l' hl => ?_) h
  cases hl with
  | same => rfl
  | @advance i views views' hv =>
    exact Option.bind_congr fun v hi => by rw [step_congr (hv v hi)]

/-- A client that guesses cannot tell a session called `sh` from none. -/
theorem run_eq_of_alike_guess :
    let session := ((Shared.init.allocate .default .sh ⟨1⟩ .default).1.publish .sh 0).1
    let headers : HeaderMap := ⟨some (ascii "Bearer guess"), none⟩
    let d : Door :=
      { toolsHub := true, upgrades := .default, admin := .new id [] 4 100 0, draining := false,
        abuse := ⟨0, 0, 0⟩,
        visits := [⟨.attach (.v4 1) headers [115, 104] none none, .admitted⟩] }
    session.sessions[SessionName.sh]? = some 0 ∧
      Trace.run (next .default (fun _ => [])) d
          [.advance 0 ⟨session, session, session, .new 1⟩] =
        Trace.run (next .default (fun _ => [])) d
          [.advance 0 ⟨.init, .init, .init, .new 1⟩] := by
  intro session headers d
  have hrefused : ∀ (views : Views) (name : SessionName), views.verify.tokens = ∅ →
      ¬ views.Accepts .default d (.attach (.v4 1) headers [115, 104] none none) name := by
    intro views name hnone h
    cases h with
    | attach hpresented hget hlive hstored haccepts =>
      rw [hnone] at hstored
      simp at hstored
  have halike : Alike .default d (.advance 0 ⟨session, session, session, .new 1⟩)
      (.advance 0 ⟨.init, .init, .init, .new 1⟩) := by
    refine .advance fun v hv name => ?_
    obtain rfl := Option.some.inj hv
    exact iff_of_false (hrefused _ name rfl) (hrefused _ name rfl)
  exact ⟨rfl, run_eq_of_alike ⟨halike, fun _ _ => trivial⟩⟩

end Door

end OpenabPty
