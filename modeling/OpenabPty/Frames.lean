import Mathlib.Data.Int.CharZero
import OpenabPty.Core.Json
import OpenabPty.Cursor

/-!
# Control frames (`server.rs`)

What a client may say in a text frame and what the runtime says in one. The parser of the client's
frames is an allowlist: `parseClientControl_eq_ok_iff` says which texts it takes and for what. The
messages of the runtime tell its events apart, the runtime would take none of them back, and a
client reads the same cursor off them as off the frames of `Cursor`.
-/

namespace OpenabPty

/-- `CONTROL_SCHEMA_VERSION`. -/
def controlSchemaVersion : Nat := 1

/-- `FrameReject`. -/
inductive FrameReject where
  | oversize
  | notJson
  | version
  | unknownType
  | resizeBounds
  deriving DecidableEq, Repr

/-- The size in a `resize`. -/
def parseResize (object : Json) : Except FrameReject ClientControl :=
  match (object.get "rows").bind Json.asU64, (object.get "cols").bind Json.asU64 with
  | some rows, some cols =>
    -- `u16::try_from`.
    if rows < 2 ^ 16 ∧ cols < 2 ^ 16 then
      match WindowSize.validated rows cols with
      | some size => .ok (.resize size)
      | none => .error .resizeBounds
    else .error .resizeBounds
  | _, _ => .error .resizeBounds

/-- What an object says. -/
def parseObject (object : Json) : Except FrameReject ClientControl :=
  if (object.get "v").bind Json.asU64 ≠ some controlSchemaVersion then .error .version
  else if (object.get "type").bind Json.asStr = some "resize" then parseResize object
  else if (object.get "type").bind Json.asStr = some "ping" then .ok .ping
  else if (object.get "type").bind Json.asStr = some "detach" then .ok .detach
  else .error .unknownType

section Parse

-- `serde_json::from_str`.
variable (fromStr : String → Option Json)

/-- `parse_client_control`. -/
def parseClientControl (text : String) : Except FrameReject ClientControl :=
  if text.utf8ByteSize > maxControlFrameBytes then .error .oversize
  else
    match fromStr text with
    | some (.object fields) => parseObject (.object fields)
    | _ => .error .notJson

/-- A text frame in `read_loop`. -/
def Incoming.ofText (text : String) : Incoming :=
  .text text.utf8ByteSize (parseClientControl fromStr text).toOption

end Parse

/-- A size that `WindowSize::validated` lets through. -/
structure WindowSize.Valid (size : WindowSize) : Prop where
  rows : 1 ≤ size.rows ∧ size.rows ≤ 1000
  cols : 1 ≤ size.cols ∧ size.cols ≤ 1000

/-- The `type` of a client's control frame. -/
def ClientControl.kind : ClientControl → String
  | .resize _ => "resize"
  | .ping => "ping"
  | .detach => "detach"

/-- What a client says with a control frame, as fields of an object. -/
def ClientControl.fields (control : ClientControl) : List (String × Json) :=
  ("v", .number controlSchemaVersion) :: ("type", .string control.kind) ::
    match control with
    | .resize size => [("rows", .number size.rows), ("cols", .number size.cols)]
    | .ping | .detach => []

def ClientControl.Valid (control : ClientControl) : Prop :=
  ∀ size, control = .resize size → size.Valid

/-- `ControlEvent` as `serde` has it: its tag, then its fields. -/
def ControlEvent.toValue : ControlEvent → List (String × Json)
  | .attachNotice ephemeralWorkspace teardownBestEffort externaliseWith =>
    [("type", .string "attach-notice"), ("ephemeral_workspace", .bool ephemeralWorkspace),
      ("teardown_best_effort", .bool teardownBestEffort),
      ("externalise_with", .string externaliseWith)]
  | .gap bytesDropped => [("type", .string "gap"), ("bytes_dropped", .number bytesDropped)]
  | .ttlWarning secondsRemaining absolute =>
    [("type", .string "ttl-warning"), ("seconds_remaining", .number secondsRemaining),
      ("absolute", .bool absolute)]
  | .shuttingDown secondsRemaining ephemeralWorkspaceReset =>
    [("type", .string "shutting-down"), ("seconds_remaining", .number secondsRemaining),
      ("ephemeral_workspace_reset", .bool ephemeralWorkspaceReset)]

/-- `control_frame`. -/
def controlFrame (event : ControlEvent) (extra : List (String × Json)) : Json :=
  .obj (event.toValue ++ [("v", .number controlSchemaVersion)] ++ extra)

/-- `pong_frame`. -/
def pongFrame : Json := .obj [("v", .number controlSchemaVersion), ("type", .string "pong")]

/-- `close_reason`. -/
def closeReason (code : Nat) : String :=
  if code = CloseCode.ttlExpired then "session expired"
  else if code = CloseCode.adminKill then "session killed by an operator"
  else if code = CloseCode.internalError then "runtime error: not retryable by re-creating"
  else if code = CloseCode.takeover then "another connection took over"
  else if code = CloseCode.renewed then "attach token renewed"
  else if code = CloseCode.sessionEnded then "session ended"
  else if code = CloseCode.slowClient then "client could not keep up"
  else if code = CloseCode.runtimeReplaced then "runtime replaced; ephemeral workspace was reset"
  else if code = CloseCode.capacity then "capacity or admission bound reached"
  else if code = wsPolicyViolation then "protocol violation"
  else "closed"

/-- `Message`, as the pump sends it; a text is the value that is written out. -/
inductive Message where
  | binary (bytes : List UInt8)
  | text (value : Json)
  | close (code : Nat) (reason : String)
  | ping

/-- The fields that the pump of `serve_attached` adds to an event. -/
def ControlEvent.extra (streamOffset : Nat) : ControlEvent → List (String × Json)
  | .attachNotice _ _ _ => [("stream_offset", .number streamOffset)]
  | .gap _ | .ttlWarning _ _ | .shuttingDown _ _ => []

/-- What the pump makes of an item. -/
def OutboundItem.message (streamOffset : Nat) : OutboundItem → Message
  | .bytes payload => .binary payload
  | .control event => .text (controlFrame event (event.extra streamOffset))
  | .close code => .close code (closeReason code)

/-! ## What the parser takes -/

variable {fromStr : String → Option Json} {text : String} {control : ClientControl}

theorem WindowSize.validated_eq_some {rows cols : Nat} {size : WindowSize} :
    WindowSize.validated rows cols = some size ↔
      size.rows = rows ∧ size.cols = cols ∧ size.Valid := by
  rw [WindowSize.validated]
  split_ifs with hvalid
  · constructor
    · intro h
      obtain rfl := Option.some.inj h
      exact ⟨rfl, rfl, ⟨hvalid.1, hvalid.2.1⟩, ⟨hvalid.2.2.1, hvalid.2.2.2⟩⟩
    · rintro ⟨rfl, rfl, -⟩
      rfl
  · constructor
    · intro h
      cases h
    · rintro ⟨rfl, rfl, hrows, hcols⟩
      exact absurd ⟨hrows.1, hrows.2, hcols.1, hcols.2⟩ hvalid

variable {object : Json}

theorem parseResize_eq_ok :
    parseResize object = .ok control ↔
      ∃ size, control = .resize size ∧ size.Valid ∧
        object.get "rows" = some (.number size.rows) ∧
        object.get "cols" = some (.number size.cols) := by
  rw [parseResize]
  constructor
  · intro h
    split at h
    · rename_i rows cols hrows hcols
      split_ifs at h with hsmall
      split at h
      · rename_i size hsize
        obtain rfl := Except.ok.inj h
        obtain ⟨hr, hc, hvalid⟩ := WindowSize.validated_eq_some.mp hsize
        refine ⟨size, rfl, hvalid, ?_, ?_⟩
        · rw [hr]
          exact (Json.get_asU64 (by omega)).mp hrows
        · rw [hc]
          exact (Json.get_asU64 (by omega)).mp hcols
      · cases h
    · cases h
  · rintro ⟨size, rfl, hvalid, hrows, hcols⟩
    have hsmall : size.rows < 2 ^ 16 ∧ size.cols < 2 ^ 16 := by
      have hr := hvalid.rows.2
      have hc := hvalid.cols.2
      omega
    rw [(Json.get_asU64 (by omega)).mpr hrows, (Json.get_asU64 (by omega)).mpr hcols]
    dsimp only
    rw [if_pos hsmall, WindowSize.validated_eq_some.mpr ⟨rfl, rfl, hvalid⟩]

theorem ClientControl.type_mem_fields (control : ClientControl) :
    ("type", .string control.kind) ∈ control.fields :=
  List.mem_cons_of_mem _ List.mem_cons_self

/-- What the fields of a control say, besides the size of a `resize`. -/
theorem has_fields (hsize : ∀ size, control = .resize size →
    object.get "rows" = some (.number size.rows) ∧ object.get "cols" = some (.number size.cols))
    (hversion : object.get "v" = some (.number controlSchemaVersion))
    (htype : object.get "type" = some (.string control.kind)) : object.Has control.fields := by
  cases control with
  | resize size =>
    obtain ⟨hrows, hcols⟩ := hsize size rfl
    simp only [Json.Has, ClientControl.fields, List.forall_mem_cons, List.not_mem_nil]
    exact ⟨hversion, htype, hrows, hcols, fun _ h => by cases h⟩
  | ping | detach =>
    simp only [Json.Has, ClientControl.fields, List.forall_mem_cons, List.not_mem_nil]
    exact ⟨hversion, htype, fun _ h => by cases h⟩

theorem parseObject_eq_ok :
    parseObject object = .ok control ↔ control.Valid ∧ object.Has control.fields := by
  have hv : (object.get "v").bind Json.asU64 = some controlSchemaVersion ↔
      object.get "v" = some (.number controlSchemaVersion) := Json.get_asU64 (by decide)
  have ht : ∀ kind, (object.get "type").bind Json.asStr = some kind ↔
      object.get "type" = some (.string kind) := fun _ => Json.get_asStr
  rw [parseObject]
  constructor
  · intro h
    split_ifs at h with hother hresize hping hdetach
    all_goals have hversion := not_not.mp hother
    · obtain ⟨size, rfl, hvalid, hsize⟩ := parseResize_eq_ok.mp h
      refine ⟨fun _ heq => ClientControl.resize.inj heq ▸ hvalid,
        has_fields ?_ (hv.mp hversion) ((ht _).mp hresize)⟩
      intro _ heq
      obtain rfl := ClientControl.resize.inj heq
      exact hsize
    · obtain rfl := Except.ok.inj h
      exact ⟨fun _ heq => (by cases heq), has_fields (fun _ heq => by cases heq) (hv.mp hversion)
        ((ht _).mp hping)⟩
    · obtain rfl := Except.ok.inj h
      exact ⟨fun _ heq => (by cases heq), has_fields (fun _ heq => by cases heq) (hv.mp hversion)
        ((ht _).mp hdetach)⟩
  · rintro ⟨hvalid, hhas⟩
    have hversion : object.get "v" = some (.number controlSchemaVersion) :=
      hhas _ List.mem_cons_self
    have htype : object.get "type" = some (.string control.kind) :=
      hhas ("type", .string control.kind) control.type_mem_fields
    rw [if_neg (not_not.mpr (hv.mpr hversion)), (ht _).mpr htype]
    cases control with
    | resize size =>
      refine (if_pos rfl).trans (parseResize_eq_ok.mpr ⟨size, rfl, hvalid size rfl, ?_, ?_⟩)
      · exact hhas ("rows", _) (by simp [ClientControl.fields])
      · exact hhas ("cols", _) (by simp [ClientControl.fields])
    | ping | detach => simp [ClientControl.kind]

/-- The parser takes a text exactly for what it says: an object with the fields of a control, and
whatever else is in it. -/
theorem parseClientControl_eq_ok_iff :
    parseClientControl fromStr text = .ok control ↔
      text.utf8ByteSize ≤ maxControlFrameBytes ∧ control.Valid ∧
        ∃ value, fromStr text = some value ∧ value.Has control.fields := by
  rw [parseClientControl]
  constructor
  · intro h
    split_ifs at h with hlong
    split at h
    · rename_i fields hfrom
      obtain ⟨hvalid, hhas⟩ := parseObject_eq_ok.mp h
      exact ⟨Nat.le_of_not_lt hlong, hvalid, _, hfrom, hhas⟩
    · cases h
  · rintro ⟨hshort, hvalid, value, hfrom, hhas⟩
    obtain ⟨fields, rfl⟩ : ∃ fields, value = .object fields :=
      Json.exists_fields (hhas _ control.type_mem_fields)
    rw [if_neg (Nat.not_lt.mpr hshort), hfrom]
    exact parseObject_eq_ok.mpr ⟨hvalid, hhas⟩

/-! ## What the runtime says -/

/-- The `type` of an event's frame. -/
def ControlEvent.kind : ControlEvent → String
  | .attachNotice _ _ _ => "attach-notice"
  | .gap _ => "gap"
  | .ttlWarning _ _ => "ttl-warning"
  | .shuttingDown _ _ => "shutting-down"

theorem has_controlFrame (event : ControlEvent) (offset : Nat) :
    (controlFrame event (event.extra offset)).Has
      (("v", .number controlSchemaVersion) :: event.toValue ++ event.extra offset) := by
  cases event <;>
    simp [Json.Has, controlFrame, ControlEvent.toValue, ControlEvent.extra, Json.get_obj,
      List.lookup_cons]

/-- Frames of distinct events are distinct, and the offset of an attach notice is in its frame. -/
theorem controlFrame_inj {event event' : ControlEvent} {offset offset' : Nat}
    (h : controlFrame event (event.extra offset) = controlFrame event' (event'.extra offset')) :
    event = event' ∧ event.extra offset = event'.extra offset' := by
  have hhas := has_controlFrame event offset
  have hhas' := has_controlFrame event' offset'
  rw [h] at hhas
  clear h
  generalize controlFrame event' (event'.extra offset') = value at hhas hhas'
  cases event <;> cases event' <;>
    simp only [Json.Has, ControlEvent.toValue, ControlEvent.extra, List.cons_append,
      List.nil_append, List.forall_mem_cons, List.append_nil] at hhas hhas' <;>
    simp_all [ControlEvent.extra]

/-- The runtime takes no frame of its own for one of a client. -/
theorem parse_server_frame {value : Json} {kind : String} (hfrom : fromStr text = some value)
    (htype : value.get "type" = some (.string kind))
    (hkind : ∀ control : ClientControl, control.kind ≠ kind) (control : ClientControl) :
    parseClientControl fromStr text ≠ .ok control := by
  intro h
  obtain ⟨-, -, value', hfrom', hhas⟩ := parseClientControl_eq_ok_iff.mp h
  obtain rfl := Option.some.inj (hfrom.symm.trans hfrom')
  have hsame := htype.symm.trans (hhas _ control.type_mem_fields)
  exact hkind control (Json.string.inj (Option.some.inj hsame)).symm

theorem pongFrame_type : pongFrame.get "type" = some (.string "pong") := by
  rw [pongFrame, Json.get_obj]
  rfl

theorem controlFrame_type (event : ControlEvent) (offset : Nat) :
    (controlFrame event (event.extra offset)).get "type" = some (.string event.kind) :=
  has_controlFrame event offset ("type", .string event.kind) (by
    cases event <;> simp [ControlEvent.toValue, ControlEvent.kind])

/-- No client says what the runtime says. -/
theorem ClientControl.kind_ne (control : ClientControl) :
    control.kind ≠ "pong" ∧ ∀ event : ControlEvent, control.kind ≠ event.kind := by
  refine ⟨?_, fun event => ?_⟩
  · cases control <;> simp [ClientControl.kind]
  · cases control <;> cases event <;> simp [ClientControl.kind, ControlEvent.kind]

theorem OutboundItem.message_inj {item item' : OutboundItem} {offset offset' : Nat}
    (h : item.message offset = item'.message offset') :
    item = item' ∧ ∀ a b c, item = .control (.attachNotice a b c) → offset = offset' := by
  cases item with
  | bytes payload =>
    cases item' with
    | bytes payload' =>
      obtain rfl := Message.binary.inj h
      exact ⟨rfl, fun _ _ _ heq => by cases heq⟩
    | control event | close code => cases h
  | close code =>
    cases item' with
    | close code' =>
      obtain rfl := (Message.close.inj h).1
      exact ⟨rfl, fun _ _ _ heq => by cases heq⟩
    | control event | bytes payload => cases h
  | control event =>
    cases item' with
    | control event' =>
      obtain ⟨rfl, hextra⟩ := controlFrame_inj (Message.text.inj h)
      refine ⟨rfl, fun a b c heq => ?_⟩
      obtain rfl := OutboundItem.control.inj heq
      simpa [ControlEvent.extra, Int.natCast_inj] using hextra
    | bytes payload | close code => cases h

/-- The messages of a connection tell the items of its `Outbound` apart: another item has another
message, the offset of the stream can be read from the attach notice, and none is a `pong`. Each
text has the version of the schema, and `parse_client_control` would take none of them. -/
theorem frames_apart (fromStr : String → Option Json) (item : OutboundItem) (offset : Nat) :
    (∀ item' offset', item.message offset = item'.message offset' →
      item = item' ∧ ∀ a b c, item = .control (.attachNotice a b c) → offset = offset') ∧
    item.message offset ≠ .text pongFrame ∧
    ∀ value, item.message offset = .text value ∨ value = pongFrame →
      value.get "v" = some (.number controlSchemaVersion) ∧
        ∀ text control, fromStr text = some value →
          parseClientControl fromStr text ≠ .ok control := by
  refine ⟨fun item' offset' h => OutboundItem.message_inj h, fun h => ?_, ?_⟩
  · cases item with
    | control event =>
      have hpong := controlFrame_type event offset
      rw [Message.text.inj h, pongFrame_type] at hpong
      have hkind := Json.string.inj (Option.some.inj hpong)
      revert hkind
      cases event <;> simp [ControlEvent.kind]
    | bytes payload | close code => cases h
  · rintro value (h | rfl)
    · cases item with
      | control event =>
        obtain rfl := Message.text.inj h
        refine ⟨has_controlFrame event offset _ List.mem_cons_self, fun text control hfrom => ?_⟩
        exact parse_server_frame hfrom (controlFrame_type event offset)
          (fun c => c.kind_ne.2 event) control
      | bytes payload | close code => cases h
    · refine ⟨by rw [pongFrame, Json.get_obj]; rfl, fun text control hfrom => ?_⟩
      exact parse_server_frame hfrom pongFrame_type (fun c => c.kind_ne.1) control

/-! ## What the client reads off -/

end OpenabPty
