import OpenabPty.Manager
import OpenabPty.ToolsHub
import OpenabPty.Uncrossed

/-!
# The loopback surface (`handle_loopback` in `tools.rs`)

One message of the CLI and its answer. Some requests the runtime answers itself, whether a Mac is
attached or not; the others go to the Mac, whose answer comes back with the id of the request.
-/

namespace OpenabPty

/-- A Mac that `attached_for` finds, as `status` shows it; its calls are those of `mux`. -/
structure LiveMac where
  peer : String
  attachedForSecs : Nat
  server : Option Json
  mux : Mux

/-- A future that awaits one `Attached::call` at most: what it has come to, or the Mac and the
request that it calls it with, and what it makes of the result. -/
inductive Future (α : Type) where
  | ready (value : α)
  | awaits (mac : LiveMac) (request : Json) (resume : Except CallError Json → α)

def Future.map {α β : Type} (f : α → β) : Future α → Future β
  | .ready value => .ready (f value)
  | .awaits mac request resume => .awaits mac request fun result => f (resume result)

/-- `as_str`. -/
def SessionName.asStr (name : SessionName) : String :=
  String.ofList (name.bytes.map fun b => Char.ofNat b.toNat)

/-- An `Option` in `json!`. -/
def orNull (value : Option Json) : Json := value.getD .null

/-- `Attached::status`. -/
def LiveMac.status (mac : LiveMac) (session : SessionName) (expiresInSecs : Option Nat) : Json :=
  .obj [("attached", .bool true), ("session", .string session.asStr), ("peer", .string mac.peer),
    ("attached_for_secs", .number mac.attachedForSecs), ("in_flight", .number mac.mux.pending.length),
    ("server", orNull mac.server),
    ("grant_expires_in_secs", orNull (expiresInSecs.map fun secs => .number secs))]

/-- `detach_reason`. -/
def detachReason (code : Nat) : String :=
  if code = CloseCode.livenessTimeout then "liveness_timeout"
  else if code = CloseCode.toolsRevoked then "revoked"
  else if code = CloseCode.ttlExpired then "ttl_expired"
  else if code = CloseCode.takeover then "takeover"
  else if code = CloseCode.sessionEnded then "session_ended"
  else if code = CloseCode.runtimeReplaced then "runtime_replaced"
  else "closed"

/-- `REDIAL_HINT`. -/
def redialHint : String := "No Mac is attached right now, but its grant is still valid: the Mac redials on its own, normally within 30 s. Wait, call instance_status again, then retry; ask the human to lend it again only if it stays detached for several minutes."

/-- `LIVENESS_HINT`. -/
def livenessHint : String := "Liveness timeout: the Mac stopped answering pings (usually because one tool call blocked it for over a minute) and the runtime closed the socket. The grant is still valid and the Mac redials on its own, normally within 30 s. Wait, call instance_status again, then retry; keep each call short and start long work as a background job (e.g. exec_start) instead of blocking in one call."

/-- `grant_expiry`. -/
def ToolsHub.grantExpiry (hub : ToolsHub) (session : SessionName) : Option Instant :=
  hub.grants[session]?.map (·.expiresAt)

/-- `detached_status`. -/
def ToolsHub.detachedStatus (hub : ToolsHub) (session : SessionName) (now : Instant) : Json :=
  let grantPending := (hub.grantExpiry session).isSome
  let last := hub.lastDetach[session]?
  let hint :=
    if grantPending && (last.map (·.code)) == some CloseCode.livenessTimeout then livenessHint
    else if grantPending then redialHint
    else CallError.message .notAttached
  .obj [("attached", .bool false), ("session", .string session.asStr),
    ("grant_pending", .bool grantPending),
    ("last_detach_reason", orNull (last.map fun d => .string (detachReason d.code))),
    ("last_detach_close_code", orNull (last.map fun d => .number d.code)),
    ("last_detach_secs_ago",
      orNull (last.map fun d => .number (Duration.asSecs (now - d.instant)))),
    ("hint", .string hint)]

/-- `tool_error_result`. -/
def toolErrorResult (id : Json) (text : String) : Json :=
  .obj [("jsonrpc", .string "2.0"), ("id", id),
    ("result", .obj [("content", .array [.obj [("type", .string "text"), ("text", .string text)]]),
      ("isError", .bool true)])]

/-- What `initialize` is answered with, by whether a Mac is attached. -/
def instructions (attached : Bool) : String :=
  if attached then "A Mac is currently lent to this session. Its tools are listed under tools/list alongside instance_status. The grant is time-bounded; call instance_status if a tool starts failing."
  else "No Mac is attached to this session right now. Only instance_status is available; ask the human to lend a Mac from OpenAB Connect or Remote, then call tools/list again."

/-- The name of the tool that `tools/call` names. -/
def calledTool (request : Json) : String :=
  ((request.get "params").bind fun p => (p.get "name").bind Json.asStr).getD ""

section Answers

variable (version : String) (render : Json → String)

/-- `local_initialize`; `version` is the package's. -/
def localInitialize (attached : Bool) (id request : Json) : Json :=
  let offered :=
    ((request.get "params").bind fun p => (p.get "protocolVersion").bind Json.asStr).getD
      mcpProtocolVersion
  let protocol :=
    if offered = mcpProtocolVersion ∨ offered = "2025-03-26" then offered else mcpProtocolVersion
  .obj [("jsonrpc", .string "2.0"), ("id", id),
    ("result", .obj [("protocolVersion", .string protocol),
      ("capabilities", .obj [("tools", .obj [("listChanged", .bool true)])]),
      ("serverInfo", .obj [("name", .string "openab-pty-tools"), ("version", .string version)]),
      ("instructions", .string (instructions attached))])]

/-- `forward`, from its call on. -/
def LiveMac.forward (mac : LiveMac) (id request : Json) : Future Json :=
  .awaits mac request (OpenabPty.forward id)

/-- `tools_call`; `render` prints a value. -/
def toolsCall (hub : ToolsHub) (session : SessionName) (now : Instant) (mac : Option LiveMac)
    (id request : Json) : Future Json :=
  if calledTool request = statusTool then
    let status :=
      match mac with
      | some mac =>
        mac.status session
          ((hub.grantExpiry session).map fun expiry => Duration.asSecs (expiry - now))
      | none => hub.detachedStatus session now
    .ready (.obj [("jsonrpc", .string "2.0"), ("id", id),
      ("result", .obj [
        ("content", .array [.obj [("type", .string "text"), ("text", .string (render status))]]),
        ("structuredContent", status), ("isError", .bool false)])])
  else
    match mac with
    | some mac => mac.forward id request
    | none =>
      .ready (if (hub.grantExpiry session).isSome then toolErrorResult id redialHint
        else toolErrorResult id (CallError.message .notAttached))

/-- `handle_loopback`. -/
def handleLoopback (hub : ToolsHub) (session : SessionName) (now : Instant) (mac : Option LiveMac)
    (request : Json) : Future (Option Json) :=
  match request.get "id" with
  | none => .ready none
  | some id =>
    let method := ((request.get "method").bind Json.asStr).getD ""
    if method = "initialize" then .ready (some (localInitialize version mac.isSome id request))
    else if method = "ping" then
      .ready (some (.obj [("jsonrpc", .string "2.0"), ("id", id), ("result", .obj [])]))
    else if method = "tools/list" then
      match mac with
      | none => .ready (some (localToolsList id))
      | some mac => (mac.forward id request).map fun response => some (toolsList id response)
    else if method = "tools/call" then
      (toolsCall render hub session now mac id request).map some
    else
      match mac with
      | some mac => (mac.forward id request).map some
      | none =>
        .ready (some
          (rpcError id (-32601) "method not available: no Mac is attached to this session"))

end Answers

/-- A message that `serve_loopback` returns: its status, and its body. -/
structure LoopbackReply where
  status : Nat
  body : Option Json

/-- How `serve_loopback` returns what `handle_loopback` came to. -/
def LoopbackReply.ofResponse : Option Json → LoopbackReply
  | some response => { status := 200, body := some response }
  | none => { status := 202, body := none }

/-- `serve_loopback`, for what `serde_json` makes of the body. -/
def serveLoopback (version : String) (render : Json → String) (hub : ToolsHub)
    (session : SessionName) (now : Instant) (mac : Option LiveMac)
    (body : Except String Json) : Future LoopbackReply :=
  match body with
  | .ok (.object fields) =>
    (handleLoopback version render hub session now mac (.object fields)).map
      LoopbackReply.ofResponse
  | .ok _ =>
    .ready
      { status := 400, body := some (rpcError .null (-32600) "expected a single JSON-RPC object") }
  | .error error =>
    .ready { status := 400, body := some (rpcError .null (-32700) s!"parse error: {error}") }

/-! ## What a call returns -/

/-- What the call has returned. -/
def MuxCall.result (call : MuxCall) : Option (Except CallError Json) :=
  match call.pc with
  | .returned result => some result
  | _ => none

/-- What the future has come to when the state of the socket is `w` and its call is the `i`th. -/
def Future.outcome {α : Type} (w : Mux) (i : Nat) : Future α → Option α
  | .ready value => some value
  | .awaits _ _ resume => (w.calls[i]?.bind MuxCall.result).map resume

/-- A frame that a call returns is an answer: it has a result or an error. -/
def IsAnswer (result : Except CallError Json) : Prop :=
  ∀ frame, result = .ok frame → (answerId frame).isSome = true

theorem MuxCall.result_eq_some {call : MuxCall} {result : Except CallError Json} :
    call.result = some result ↔ call.pc = .returned result := by
  rw [MuxCall.result]
  cases call.pc <;> simp

namespace Mux

variable {w w' : Mux} {l : Label} {i : Nat} {call call' : MuxCall}
  {result : Except CallError Json}

/-- What a call returns in a run is an error or an answer. -/
theorem MuxInv.isAnswer (h : MuxInv w) (hi : w.calls[i]? = some call)
    (hresult : call.result = some result) : IsAnswer result := by
  rintro frame rfl
  have hpc := MuxCall.result_eq_some.mp hresult
  obtain ⟨k, -, ha⟩ := h.answered.slot i call frame hi (h.answered.returned i call frame hi hpc)
  exact Option.isSome_iff_exists.mpr ⟨k, ha⟩

/-- A call returns once. -/
theorem CallChange.keeps_result (hc : CallChange w l i call call')
    (hresult : call.result = some result) : call'.result = some result := by
  have hpc := MuxCall.result_eq_some.mp hresult
  rw [MuxCall.result_eq_some]
  cases hc with
  | kept => exact hpc
  | dropped => rw [MuxCall.dropSender_pc, hpc]
  | goto hg =>
    exfalso
    cases hg with
    | cancelled hr => simp [MuxCall.receiving, hpc] at hr
    | started h | refused h | full h | unsent h | sent h | answered h | abandoned h | expired h =>
      rw [hpc] at h
      cases h
  | registered hinsert =>
    rw [hpc] at hinsert
    cases hinsert
  | finished hends =>
    rcases hends with ⟨hfail, -⟩ | ⟨hfail, -⟩
    · rw [hpc] at hfail
      cases hfail
    · rw [hpc] at hfail
      cases hfail
  | completed => rw [MuxCall.complete_pc, hpc]

theorem MuxInv.length_le (h : MuxInv w) (hs : w.next l = some w') :
    w.calls.length ≤ w'.calls.length :=
  ((next_change hs).ids h.table).length_le

theorem MuxInv.outcome_next {α : Type} {future : Future α} {value : α} (h : MuxInv w)
    (hs : w.next l = some w') (hvalue : future.outcome w i = some value) :
    future.outcome w' i = some value := by
  cases future with
  | ready a => exact hvalue
  | awaits mac request resume =>
    obtain ⟨result, hresult, rfl⟩ := Option.map_eq_some_iff.mp hvalue
    obtain ⟨call, hi, hresult⟩ := Option.bind_eq_some_iff.mp hresult
    have hlt : i < w'.calls.length :=
      (List.getElem?_eq_some_iff.mp hi).1.trans_le (h.length_le hs)
    have hi' : w'.calls[i]? = some w'.calls[i] := List.getElem?_eq_getElem hlt
    have hsame := ((next_change hs).callChange hi hi').keeps_result hresult
    rw [Future.outcome, hi', Option.bind_some, hsame, Option.map_some]

end Mux

/-! ## Every request is answered -/

/-- The tool is called `instance_status`. -/
def isStatusTool (tool : Json) : Bool := (tool.get "name").bind Json.asStr == some statusTool

/-- An answer to a request: it has the request's id and a result or an error, and a list of tools
holds one `instance_status`. -/
structure AnswersRequest (request id response : Json) : Prop where
  id : response.get "id" = some id
  outcome : (response.get "result").isSome = true ∨ (response.get "error").isSome = true
  lists : (request.get "method").bind Json.asStr = some "tools/list" →
    ∃ tools, listedTools response = some tools ∧ tools.countP isStatusTool = 1

variable {version : String} {render : Json → String} {hub : ToolsHub} {session : SessionName}
  {now : Instant} {mac : Option LiveMac} {request id : Json}

theorem get_rpcError (code : Int) (message : String) :
    (rpcError id code message).get "id" = some id ∧
      ((rpcError id code message).get "error").isSome = true ∧
      (rpcError id code message).get "result" = none := by
  simp [rpcError, Json.get_obj, List.lookup_cons]

/-- What `forward` returns has the id of the request. -/
theorem forward_answers {result : Except CallError Json} (hresult : IsAnswer result) (id : Json) :
    (forward id result).get "id" = some id ∧
      (((forward id result).get "result").isSome = true ∨
        ((forward id result).get "error").isSome = true) := by
  cases result with
  | error error => exact ⟨(get_rpcError _ _).1, .inr (get_rpcError _ _).2.1⟩
  | ok frame =>
    obtain ⟨k, hanswer⟩ := Option.isSome_iff_exists.mp (hresult frame rfl)
    have hrestored : Restores id frame (forward id (.ok frame)) := restores_forward hanswer
    refine ⟨hrestored.id, ?_⟩
    rw [hrestored.others "result" (by decide), hrestored.others "error" (by decide)]
    rw [answerId] at hanswer
    split at hanswer
    · rename_i houtcome
      simpa using houtcome
    · cases hanswer

theorem countP_relistTools (tools : List Json) : (relistTools tools).countP isStatusTool = 1 := by
  have hrest : (tools.filter fun tool =>
      (tool.get "name").bind Json.asStr ≠ some statusTool).countP isStatusTool = 0 := by
    rw [List.countP_eq_zero]
    intro tool htool
    rw [List.mem_filter] at htool
    simpa [isStatusTool] using htool.2
  have hstatus : isStatusTool statusToolJson = true := by
    simp [isStatusTool, statusToolJson, Json.get_obj, Json.asStr, List.lookup_cons]
  rw [relistTools, List.countP_append, hrest, List.countP_singleton, hstatus]
  rfl

/-- An answer that is written out with a result. -/
theorem get_result (id result : Json) :
    (Json.obj [("jsonrpc", .string "2.0"), ("id", id), ("result", result)]).get "id" = some id ∧
      (Json.obj [("jsonrpc", .string "2.0"), ("id", id), ("result", result)]).get "result" =
        some result := by
  constructor <;> rw [Json.get_obj] <;> rfl

theorem localToolsList_answers (id : Json) :
    (localToolsList id).get "id" = some id ∧ ((localToolsList id).get "result").isSome = true ∧
      ∃ tools, listedTools (localToolsList id) = some tools ∧ tools.countP isStatusTool = 1 := by
  obtain ⟨hid, hresult⟩ := get_result id (.obj [("tools", .array [statusToolJson])])
  refine ⟨hid, by rw [localToolsList, hresult]; rfl, relistTools [], ?_, countP_relistTools []⟩
  rw [listedTools, localToolsList, hresult, Option.bind_some, Json.get_obj]
  rfl

/-- What `tools_list` returns holds one tool of the runtime, whatever the Mac answered. -/
theorem toolsList_answers {result : Except CallError Json} (hresult : IsAnswer result)
    (id : Json) :
    (toolsList id (forward id result)).get "id" = some id ∧
      ((toolsList id (forward id result)).get "result").isSome = true ∧
      ∃ tools, listedTools (toolsList id (forward id result)) = some tools ∧
        tools.countP isStatusTool = 1 := by
  cases result with
  | error error =>
    have hnone : (forward id (.error error)).get "result" = none := (get_rpcError _ _).2.2
    rw [toolsList, hnone]
    exact localToolsList_answers id
  | ok frame =>
    obtain ⟨k, hanswer⟩ := Option.isSome_iff_exists.mp (hresult frame rfl)
    have hrelists : Relists id frame (toolsList id (forward id (.ok frame))) :=
      relists_toolsList hanswer
    cases hrelists with
    | here _ hlocal =>
      rw [hlocal]
      exact localToolsList_answers id
    | @relisted _ result' tools hid _ _ hresult' _ htools' _ =>
      refine ⟨hid, by rw [hresult']; rfl, relistTools tools, ?_, countP_relistTools tools⟩
      rw [listedTools, hresult', Option.bind_some, htools']
      rfl

theorem answersRequest_of_outcome {response : Json}
    (hmethod : (request.get "method").bind Json.asStr ≠ some "tools/list")
    (hid : response.get "id" = some id)
    (houtcome : (response.get "result").isSome = true ∨ (response.get "error").isSome = true) :
    AnswersRequest request id response :=
  ⟨hid, houtcome, fun hlist => absurd hlist hmethod⟩

/-! ## One answer for each request -/

theorem calledTool_eq_statusTool :
    calledTool request = statusTool ↔
      ((request.get "params").bind fun p => (p.get "name").bind Json.asStr) = some statusTool := by
  rw [calledTool]
  cases (request.get "params").bind fun p => (p.get "name").bind Json.asStr with
  | none => exact ⟨fun h => absurd h (by decide), fun h => by cases h⟩
  | some name => rw [Option.getD_some, Option.some_inj]

/-- Without a Mac, `tools_call` answers at once; so it does to the runtime's own tool. -/
theorem toolsCall_ready (hlocal : mac = none ∨ calledTool request = statusTool) :
    ∃ response, toolsCall render hub session now mac id request = .ready response ∧
      response.get "id" = some id ∧ (response.get "result").isSome = true := by
  unfold toolsCall
  by_cases hstatus : calledTool request = statusTool
  · rw [if_pos hstatus]
    exact ⟨_, rfl, (get_result _ _).1, by rw [(get_result _ _).2]; rfl⟩
  · rw [if_neg hstatus]
    obtain rfl := hlocal.resolve_right hstatus
    refine ⟨_, rfl, ?_⟩
    split_ifs
    · exact ⟨(get_result _ _).1, by rw [toolErrorResult, (get_result _ _).2]; rfl⟩
    · exact ⟨(get_result _ _).1, by rw [toolErrorResult, (get_result _ _).2]; rfl⟩

/-- The requests that `MuxCaller.ofLoopback` names are the ones that the Mac is asked for. -/
theorem handleLoopback_forwards {m : LiveMac} {caller : MuxCaller}
    (hcaller : MuxCaller.ofLoopback request = some caller) :
    handleLoopback version render hub session now (some m) request =
      .awaits m request caller.reply := by
  obtain ⟨id, hid, hkind⟩ := Option.bind_eq_some_iff.mp hcaller
  rw [handleLoopback, hid]
  dsimp only at hkind ⊢
  split_ifs at hkind with hlocal hlist hstatus
  · obtain rfl := Option.some.inj hkind
    rw [if_neg fun h => hlocal (.inl h), if_neg fun h => hlocal (.inr h), if_pos hlist]
    rfl
  · obtain rfl := Option.some.inj hkind
    rw [if_neg fun h => hlocal (.inl h), if_neg fun h => hlocal (.inr h), if_neg hlist]
    split_ifs with hcall
    · rw [toolsCall, if_neg fun h => hstatus ⟨hcall, calledTool_eq_statusTool.mp h⟩]
      rfl
    · rfl

/-- The others are answered at once. -/
theorem handleLoopback_ready (hid : request.get "id" = some id)
    (hlocal : mac = none ∨ MuxCaller.ofLoopback request = none) :
    ∃ response, handleLoopback version render hub session now mac request =
      .ready (some response) ∧ AnswersRequest request id response := by
  rw [MuxCaller.ofLoopback, hid, Option.bind_some] at hlocal
  rw [handleLoopback, hid]
  dsimp only at hlocal ⊢
  by_cases hlist : (request.get "method").bind Json.asStr = some "tools/list"
  · rw [hlist, Option.getD_some, if_neg (by decide), if_pos rfl] at hlocal
    obtain rfl := hlocal.resolve_right (by simp)
    rw [hlist, Option.getD_some, if_neg (by decide), if_neg (by decide), if_pos rfl]
    obtain ⟨hsame, hresult, hlists⟩ := localToolsList_answers id
    exact ⟨_, rfl, hsame, .inl hresult, fun _ => hlists⟩
  · have hne : ((request.get "method").bind Json.asStr).getD "" ≠ "tools/list" := by
      intro heq
      cases hmethod : (request.get "method").bind Json.asStr with
      | none => exact absurd (hmethod ▸ heq) (by decide)
      | some method =>
        rw [hmethod, Option.getD_some] at heq
        exact hlist (by rw [hmethod, heq])
    rw [if_neg hne] at hlocal ⊢
    split_ifs with hinit hping hcall
    · exact ⟨_, rfl, answersRequest_of_outcome hlist (get_result _ _).1
        (.inl (by rw [localInitialize, (get_result _ _).2]; rfl))⟩
    · exact ⟨_, rfl, answersRequest_of_outcome hlist (get_result _ _).1
        (.inl (by rw [(get_result _ _).2]; rfl))⟩
    · rw [if_neg (by rintro (h | h); exacts [hinit h, hping h])] at hlocal
      have htool : mac = none ∨ calledTool request = statusTool := by
        refine hlocal.imp_right fun hnone => calledTool_eq_statusTool.mpr ?_
        by_contra hother
        rw [if_neg fun h => hother h.2] at hnone
        cases hnone
      obtain ⟨response, hready, hsame, hresult⟩ :
          ∃ response, toolsCall render hub session now mac id request = .ready response ∧
            response.get "id" = some id ∧ (response.get "result").isSome = true :=
        toolsCall_ready htool
      rw [hready]
      exact ⟨response, rfl, answersRequest_of_outcome hlist hsame (.inl hresult)⟩
    · rw [if_neg (by rintro (h | h); exacts [hinit h, hping h]),
        if_neg fun h => hcall h.1] at hlocal
      obtain rfl := hlocal.resolve_right (by simp)
      exact ⟨_, rfl, answersRequest_of_outcome hlist (get_rpcError _ _).1
        (.inr (get_rpcError _ _).2.1)⟩

/-- What a caller makes of a result answers the request it was made of. -/
theorem MuxCaller.reply_answers {caller : MuxCaller} {result : Except CallError Json}
    (hcaller : MuxCaller.ofLoopback request = some caller) (hid : request.get "id" = some id)
    (hresult : IsAnswer result) :
    ∃ response, caller.reply result = some response ∧ AnswersRequest request id response := by
  rw [MuxCaller.ofLoopback, hid, Option.bind_some] at hcaller
  dsimp only at hcaller
  split_ifs at hcaller with hlocal hlist hstatus
  · obtain rfl := Option.some.inj hcaller
    obtain ⟨hsame, houtcome, hlists⟩ := toolsList_answers hresult id
    exact ⟨_, rfl, hsame, .inl houtcome, fun _ => hlists⟩
  · obtain rfl := Option.some.inj hcaller
    obtain ⟨hsame, houtcome⟩ := forward_answers hresult id
    refine ⟨_, rfl, answersRequest_of_outcome ?_ hsame houtcome⟩
    intro hmethod
    rw [hmethod, Option.getD_some] at hlist
    exact hlist rfl

/-- The request has no answer before its call, the `i`th, has returned; then it has one, and no
other later. -/
structure Mux.AnswersOnce (request id : Json) (future : Future (Option Json)) (i : Nat) (w : Mux) :
    Prop where
  waits : future.outcome w i = none ↔ w.calls[i]?.bind MuxCall.result = none
  answers : ∀ outcome, future.outcome w i = some outcome →
    ∃ response, outcome = some response ∧ AnswersRequest request id response
  once : ∀ outcome l w', future.outcome w i = some outcome → w.next l = some w' →
    future.outcome w' i = some outcome

theorem Mux.MuxInv.answersOnce {w : Mux} {m : LiveMac} {caller : MuxCaller} {i : Nat}
    (h : Mux.MuxInv w) (hid : request.get "id" = some id)
    (hcaller : MuxCaller.ofLoopback request = some caller) :
    Mux.AnswersOnce request id (.awaits m request caller.reply) i w where
  waits := by rw [Future.outcome, Option.map_eq_none_iff]
  answers outcome houtcome := by
    obtain ⟨result, hresult, rfl⟩ := Option.map_eq_some_iff.mp houtcome
    obtain ⟨call, hi, hresult⟩ := Option.bind_eq_some_iff.mp hresult
    exact MuxCaller.reply_answers hcaller hid (h.isAnswer hi hresult)
  once outcome l w' houtcome hs := h.outcome_next hs houtcome

/-- A request gets one answer. Without a Mac, and to the requests that `MuxCaller.ofLoopback` does
not name, it comes at once. For the others the Mac is asked: in every run of its socket from the
call of the request on, the answer is there once the call has returned, as `MuxCaller.reply` has
it. A message without an id gets none, and a body that is no JSON object an error without an
id. -/
theorem handleLoopback_answers (body : Except String Json) (before ls : List Mux.Label) :
    (request.get "id" = none →
      handleLoopback version render hub session now mac request = .ready none) ∧
    (∀ id, request.get "id" = some id →
      (mac = none ∨ MuxCaller.ofLoopback request = none →
        ∃ response, handleLoopback version render hub session now mac request =
          .ready (some response) ∧ AnswersRequest request id response) ∧
      ∀ m caller, mac = some m → MuxCaller.ofLoopback request = some caller →
        handleLoopback version render hub session now mac request =
          .awaits m request caller.reply ∧
        ∀ started, Trace.run Mux.next Mux.init before = some m.mux →
          m.mux.next (.loopback request) = some started →
          (∃ call, started.calls[m.mux.calls.length]? = some call ∧ call.request = request) ∧
          Trace.AllStates Mux.next
            (Mux.AnswersOnce request id
              (handleLoopback version render hub session now mac request) m.mux.calls.length)
            started ls) ∧
    ((∃ fields, body = .ok (.object fields) ∧
        serveLoopback version render hub session now mac body =
          (handleLoopback version render hub session now mac (.object fields)).map
            LoopbackReply.ofResponse) ∨
      (∀ fields, body ≠ .ok (.object fields)) ∧
        ∃ response, serveLoopback version render hub session now mac body =
            .ready { status := 400, body := some response } ∧
          response.get "id" = some .null ∧ (response.get "error").isSome = true) := by
  refine ⟨fun hnone => ?_, fun id hid => ⟨handleLoopback_ready hid, ?_⟩, ?_⟩
  · rw [handleLoopback, hnone]
  · rintro m caller rfl hcaller
    have hawaits : handleLoopback version render hub session now (some m) request =
        .awaits m request caller.reply := handleLoopback_forwards hcaller
    refine ⟨hawaits, fun started hrun hstart => ⟨?_, ?_⟩⟩
    · simp only [Mux.next, hcaller, Option.map_some] at hstart
      obtain rfl := Option.some.inj hstart
      exact ⟨_, List.getElem?_concat_length, rfl⟩
    · have hmux : Mux.MuxInv m.mux :=
        (Trace.AllStates.of_next (fun _ _ _ h hs => h.next hs) Mux.MuxInv.init).last hrun
      have hall : Trace.AllStates Mux.next Mux.MuxInv started ls :=
        Trace.AllStates.of_next (fun _ _ _ h hs => h.next hs) (hmux.next hstart)
      rw [hawaits]
      exact hall.imp fun w h => h.answersOnce hid hcaller
  · rcases body with error | value
    · exact .inr ⟨fun fields h => (by cases h), _, rfl, (get_rpcError _ _).1,
        (get_rpcError _ _).2.1⟩
    · cases value with
      | object fields => exact .inl ⟨fields, rfl, rfl⟩
      | _ =>
        exact .inr ⟨fun fields h => (by cases h), _, rfl, (get_rpcError _ _).1,
          (get_rpcError _ _).2.1⟩

/-- The handshake, and its answer. -/
def Mux.greetedRun : List Mux.Label :=
  [.handshake "0.1.0", .step 0, .step 0, .step 0,
    .macFrame (.obj [("jsonrpc", .string "2.0"), ("id", .number 1), ("result", .obj [])]), .step 0,
    .initialized]

/-- A Mac after its handshake. -/
def LiveMac.greeted : LiveMac :=
  { peer := "10.0.0.2", attachedForSecs := 3, server := none,
    mux := (Trace.run Mux.next Mux.init Mux.greetedRun).getD Mux.init }

/-- The second call is sent, and the Mac answers it with a tool of its own. -/
def Mux.listedRun : List Mux.Label :=
  [.step 1, .step 1, .step 1,
    .macFrame (.obj [("jsonrpc", .string "2.0"), ("id", .number 2),
      ("result", .obj [("tools", .array [.obj [("name", .string "screenshot")]])])]), .step 1]

theorem handleLoopback_answers_toolsList :
    ∃ started w response,
      LiveMac.greeted.mux.next (.loopback Mux.toolsListRequest) = some started ∧
      Trace.run Mux.next started Mux.listedRun = some w ∧
      (handleLoopback "0.1.0" (fun _ => "") (ToolsHub.new 3600) .sh 0 (some .greeted)
        Mux.toolsListRequest).outcome w 1 = some (some response) ∧
      AnswersRequest Mux.toolsListRequest (.number 7) response := by
  obtain ⟨-, hanswers, -⟩ := @handleLoopback_answers "0.1.0" (fun _ => "") (ToolsHub.new 3600) .sh 0
    (some .greeted) Mux.toolsListRequest (.error "") Mux.greetedRun Mux.listedRun
  obtain ⟨-, hasked⟩ := hanswers (.number 7) rfl
  obtain ⟨-, hruns⟩ := hasked .greeted (.toolsList (.number 7)) rfl rfl
  have hall := (hruns (LiveMac.greeted.mux.spawn (.toolsList (.number 7)) Mux.toolsListRequest)
    rfl rfl).2
  have hrun : (Trace.run Mux.next
      (LiveMac.greeted.mux.spawn (.toolsList (.number 7)) Mux.toolsListRequest) Mux.listedRun).map
      (fun w => (w.calls[1]?.bind MuxCall.result).isSome) = some true := rfl
  obtain ⟨w, hw, hreturned⟩ := Option.map_eq_some_iff.mp hrun
  have hw' := hall.last hw
  cases houtcome : (handleLoopback "0.1.0" (fun _ => "") (ToolsHub.new 3600) .sh 0 (some .greeted)
      Mux.toolsListRequest).outcome w 1 with
  | none =>
    have hnone : w.calls[1]?.bind MuxCall.result = none := hw'.waits.mp houtcome
    rw [hnone] at hreturned
    cases hreturned
  | some outcome =>
    obtain ⟨response, rfl, hanswer⟩ := hw'.answers outcome houtcome
    exact ⟨_, w, response, rfl, hw, houtcome, hanswer⟩

end OpenabPty
