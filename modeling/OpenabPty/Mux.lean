import OpenabPty.Core.Json
import OpenabPty.Core.Trace

/-!
# The requests in flight toward a Mac (`tools.rs`)

One attached socket. A forwarded request gets an id of its own in the table of pending calls; a
frame that carries the id back completes the call through its oneshot channel. The table is
shared by the callers, the socket reader, the timeouts and `close`. A call is a future: it may be
dropped wherever it awaits.
-/

namespace OpenabPty

/-- `MAX_INFLIGHT_PER_SESSION`. -/
def maxInflightPerSession : Nat := 64

/-- `TO_MAC_QUEUE`. -/
def toMacQueue : Nat := 64

/-- `CallError`. -/
inductive CallError where
  | notAttached
  | tooManyInFlight
  | timeout
  deriving DecidableEq, Repr

/-- `rpc_code`. -/
def CallError.rpcCode : CallError → Int
  | .notAttached => -32001
  | .tooManyInFlight => -32002
  | .timeout => -32003

/-- `message`. -/
def CallError.message : CallError → String
  | .notAttached => "no Mac is attached to this session (ask the human to lend one from OpenAB Connect / Remote)"
  | .tooManyInFlight => "too many requests in flight toward the attached Mac"
  | .timeout => "the attached Mac did not answer in time"

/-- `rpc_error`. -/
def rpcError (id : Json) (code : Int) (message : String) : Json :=
  .obj [("jsonrpc", .string "2.0"), ("id", id),
    ("error", .obj [("code", .number code), ("message", .string message)])]

/-- A message to the socket writer. -/
inductive MacMessage where
  | text (value : Json)
  | ping
  | pong
  | close (code : Nat)

/-- The oneshot channel of a call: nothing yet, the answer, or its sender was dropped. -/
inductive Slot where
  | empty
  | filled (frame : Json)
  | dropped

/-- Who calls `Attached::call`: the handshake, or a loopback request with its id. -/
inductive MuxCaller where
  | handshake
  | forward (id : Json)
  | toolsList (id : Json)

/-- Where `Attached::call` is. -/
inductive CallPc where
  | start
  | insert
  | send
  | wait
  | sendFailed
  | expired
  | returned (result : Except CallError Json)
  | cancelled

/-- A call of `Attached::call`. -/
structure MuxCall where
  caller : MuxCaller
  request : Json
  pc : CallPc
  id : Option Nat
  slot : Slot

/-- How far `close` has come. -/
inductive Closing where
  | no
  | notify (code : Nat)
  | drain
  | done
  deriving DecidableEq

/-- The socket writer: taking messages, out of its loop and closing the sink, or gone with the
receiver of the channel. -/
inductive MacWriter where
  | running
  | leaving
  | gone
  deriving DecidableEq

/-- `Attached`, with its calls and the socket writer. `shut` says that a call of `close` has
returned. -/
structure Mux where
  closing : Closing
  closeCode : Nat
  shut : Bool
  nextId : Nat
  pending : List (Nat × Nat)
  toMac : List MacMessage
  writer : MacWriter
  calls : List MuxCall

/-- `STATUS_TOOL`. -/
def statusTool : String := "instance_status"

/-- The runtime's own tool, as `tools/list` shows it. -/
def statusToolJson : Json :=
  .obj [("name", .string statusTool),
    ("description", .string "Whether a Mac is attached to this PTY session through openab-pty, and for how long the grant lasts. Answered by the runtime itself; works even when nothing is attached."),
    ("inputSchema", .obj [("type", .string "object"), ("properties", .obj []),
      ("additionalProperties", .bool false)])]

/-- `MCP_PROTOCOL_VERSION`. -/
def mcpProtocolVersion : String := "2025-06-18"

/-- The request of the handshake; `version` is the package's. -/
def initializeRequest (version : String) : Json :=
  .obj [("jsonrpc", .string "2.0"), ("method", .string "initialize"),
    ("params", .obj [("protocolVersion", .string mcpProtocolVersion), ("capabilities", .obj []),
      ("clientInfo", .obj [("name", .string "openab-pty"), ("version", .string version)])])]

/-- What the handshake sends after its answer. -/
def initializedNotification : Json :=
  .obj [("jsonrpc", .string "2.0"), ("method", .string "notifications/initialized")]

/-- `forward`, for the result of its call. -/
def forward (id : Json) : Except CallError Json → Json
  | .ok response => response.insert "id" id
  | .error error => rpcError id error.rpcCode error.message

/-- The runtime's tool takes the place of any of its name. -/
def relistTools (tools : List Json) : List Json :=
  tools.filter (fun tool => (tool.get "name").bind Json.asStr ≠ some statusTool) ++
    [statusToolJson]

/-- What `tools_list` returns without a list of tools from the Mac. -/
def localToolsList (id : Json) : Json :=
  .obj [("jsonrpc", .string "2.0"), ("id", id),
    ("result", .obj [("tools", .array [statusToolJson])])]

/-- The list of tools in a response. -/
def listedTools (response : Json) : Option (List Json) :=
  ((response.get "result").bind (·.get "tools")).bind Json.asArray

/-- `tools_list`, for what `forward` returned. -/
def toolsList (id response : Json) : Json :=
  match response.get "result", listedTools response with
  | some result, some tools =>
    response.insert "result" (result.insert "tools" (.array (relistTools tools)))
  | _, _ => localToolsList id

namespace MuxCaller

/-- Which loopback requests `handle_loopback` forwards when a Mac is attached. -/
def ofLoopback (request : Json) : Option MuxCaller :=
  (request.get "id").bind fun id =>
    let method := ((request.get "method").bind Json.asStr).getD ""
    if method = "initialize" ∨ method = "ping" then none
    else if method = "tools/list" then some (.toolsList id)
    else if method = "tools/call" ∧
        ((request.get "params").bind fun p => (p.get "name").bind Json.asStr) = some statusTool then
      none
    else some (.forward id)

/-- What `handle_loopback` returns for the result of the call. -/
def reply : MuxCaller → Except CallError Json → Option Json
  | .handshake, _ => none
  | .forward id, result => some (OpenabPty.forward id result)
  | .toolsList id, result => some (OpenabPty.toolsList id (OpenabPty.forward id result))

end MuxCaller

namespace MuxCall

/-- The call awaits its answer: the receiver of its channel is alive. -/
def receiving (call : MuxCall) : Bool :=
  match call.pc with
  | .send | .wait => true
  | _ => false

/-- Its sender is dropped. -/
def dropSender (call : MuxCall) : MuxCall :=
  match call.slot with
  | .empty => { call with slot := .dropped }
  | _ => call

/-- The answer is sent to it. -/
def complete (frame : Json) (call : MuxCall) : MuxCall :=
  match call.slot, call.receiving with
  | .empty, true => { call with slot := .filled frame }
  | _, _ => call

/-- The call goes on. -/
def goto (call : MuxCall) (pc : CallPc) : MuxCall := { call with pc }

end MuxCall

/-- The id of an answer: what `on_mac_frame` looks up. -/
def answerId (frame : Json) : Option Nat :=
  if (frame.get "result").isSome || (frame.get "error").isSome then
    (frame.get "id").bind Json.asU64
  else none

/-- What `on_mac_frame` replies to a request of the Mac. -/
def macReply (frame : Json) : Option Json :=
  if (frame.get "result").isSome || (frame.get "error").isSome then none
  else
    match (frame.get "method").bind Json.asStr, frame.get "id" with
    | some method, some id =>
      some (if method = "ping" then
          .obj [("jsonrpc", .string "2.0"), ("id", id), ("result", .obj [])]
        else rpcError id (-32601) "method not supported by the openab-pty mux")
    | _, _ => none

namespace Mux

def init : Mux :=
  { closing := .no, closeCode := 0, shut := false, nextId := 1, pending := [], toMac := [],
    writer := .running, calls := [] }

inductive Label where
  | handshake (version : String)
  | initialized
  | loopback (request : Json)
  | step (i : Nat)
  | timeout (i : Nat)
  | cancel (i : Nat)
  | macFrame (frame : Json)
  | ping
  | pong
  | close (code : Nat)
  | closer
  | writer (ok : Bool)

/-- The channel to the writer takes another message. -/
def room (w : Mux) : Bool := w.writer ≠ .gone && w.toMac.length < toMacQueue

/-- `to_mac.try_send`: a message that does not fit is dropped. -/
def trySend (w : Mux) (message : MacMessage) : Mux :=
  if w.room then { w with toMac := w.toMac ++ [message] } else w

/-- A call begins. -/
def spawn (w : Mux) (caller : MuxCaller) (request : Json) : Mux :=
  { w with calls := w.calls ++ [{ caller, request, pc := .start, id := none, slot := .empty }] }

/-- The call at this index goes on. -/
def goto (w : Mux) (i : Nat) (pc : CallPc) : Mux :=
  { w with calls := w.calls.modify i (·.goto pc) }

/-- Some entries leave the table, and their senders are dropped. -/
def removeEntries (w : Mux) (leaves : Nat × Nat → Bool) : Mux :=
  { w with
    pending := w.pending.filter fun e => !leaves e
    calls := w.calls.mapIdx fun j call =>
      if w.pending.any fun e => leaves e && e.2 == j then call.dropSender else call }

/-- `pending.lock().remove(&id)`. -/
def removePending (w : Mux) (id : Option Nat) : Mux :=
  w.removeEntries fun e => some e.1 == id

/-- `fail_pending`. -/
def failPending (w : Mux) : Mux := w.removeEntries fun _ => true

/-- The call at index `i` takes the next id and enters the table. `insert` drops the sender it
replaces. -/
def register (w : Mux) (i : Nat) : Mux :=
  let w' := w.removePending (some w.nextId)
  { w' with
    nextId := (w.nextId + 1) % 2 ^ 64
    pending := (w.nextId, i) :: w'.pending
    calls := w'.calls.modify i fun call => { call with id := some w.nextId, pc := .send } }

/-- The next section of the call at index `i`. -/
def callStep (w : Mux) (i : Nat) (call : MuxCall) : Option Mux :=
  match call.pc with
  | .start =>
    some (w.goto i (if w.closing = .no then .insert else .returned (.error .notAttached)))
  | .insert =>
    some (if maxInflightPerSession ≤ w.pending.length then
        w.goto i (.returned (.error .tooManyInFlight))
      else w.register i)
  | .send =>
    if w.writer = .gone then some (w.goto i .sendFailed)
    else if w.room then
      let request := match call.id with
        | some id => call.request.insert "id" (.number id)
        | none => call.request
      some ((w.trySend (.text request)).goto i .wait)
    else none
  | .sendFailed => some ((w.removePending call.id).goto i (.returned (.error .notAttached)))
  | .wait =>
    match call.slot with
    | .empty => none
    | .filled frame => some (w.goto i (.returned (.ok frame)))
    | .dropped => some (w.goto i (.returned (.error .notAttached)))
  | .expired => some ((w.removePending call.id).goto i (.returned (.error .timeout)))
  | .returned _ | .cancelled => none

/-- The entry at index `j` leaves the table with its answer. -/
def answer (w : Mux) (id j : Nat) (frame : Json) : Mux :=
  { w with pending := w.pending.filter fun e => e.1 ≠ id, calls := w.calls.modify j (·.complete frame) }

/-- `on_mac_frame`. -/
def onMacFrame (w : Mux) (frame : Json) : Mux :=
  match answerId frame with
  | some id => (w.pending.lookup id).elim w fun j => w.answer id j frame
  | none => (macReply frame).elim w fun reply => w.trySend (.text reply)

/-- The next critical section. -/
def next (w : Mux) : Label → Option Mux
  | .handshake version => some (w.spawn .handshake (initializeRequest version))
  | .initialized => if w.room then some (w.trySend (.text initializedNotification)) else none
  | .loopback request => (MuxCaller.ofLoopback request).map (w.spawn · request)
  | .step i => w.calls[i]?.bind (w.callStep i)
  | .timeout i => w.calls[i]?.bind fun call =>
    match call.pc, call.slot with
    | .wait, .empty => some (w.goto i .expired)
    | _, _ => none
  | .cancel i => w.calls[i]?.bind fun call =>
    match call.caller with
    | .handshake => none
    | _ => if call.receiving then some (w.goto i .cancelled) else none
  | .macFrame frame => some (w.onMacFrame frame)
  | .ping => some (w.trySend .ping)
  | .pong => some (w.trySend .pong)
  | .close code =>
    -- `closed.swap`: only the first call goes on.
    if w.closing = .no then some { w with closing := .notify code } else some { w with shut := true }
  | .closer =>
    match w.closing with
    | .notify code => some { w.trySend (.close code) with closing := .drain, closeCode := code }
    | .drain => some { w.failPending with closing := .done, shut := true }
    | .no | .done => none
  | .writer ok =>
    match w.writer, w.toMac with
    | .running, .close _ :: rest => some { w with toMac := rest, writer := .leaving }
    | .running, _ :: rest => some { w with toMac := rest, writer := if ok then .running else .leaving }
    | .leaving, _ => some { w with toMac := [], writer := .gone }
    | _, _ => none

end Mux

end OpenabPty
