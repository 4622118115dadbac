import OpenabPty.Seam

/-!
# The client's cursor

The pump of `serve_attached` puts the stream offset that `attach_with_replay` returned into the
attach notice: the offset the replay ends at. The client contract (section 4) takes it as a
starting point and adds the length of every binary frame, and the replay is sent in binary frames
after the notice. The two count the replay twice.
-/

namespace OpenabPty

/-- A frame on the wire; a text frame with the `stream_offset` that is added to an attach
notice. -/
inductive Frame where
  | binary (bytes : List UInt8)
  | text (event : ControlEvent) (streamOffset : Option Nat)
  | close (code : Nat)
  deriving DecidableEq, Repr

/-- The frame that the pump of `serve_attached` makes of an item. -/
def OutboundItem.frame (streamOffset : Nat) : OutboundItem → Frame
  | .bytes data => .binary data
  | .control event =>
    .text event (match event with
      | .attachNotice .. => some streamOffset
      | _ => none)
  | .close code => .close code

/-- The client of the contract: it keeps `stream_offset` and advances it by every payload byte
received. -/
def clientCursor (cursor : Option Nat) : Frame → Option Nat
  | .text _ (some streamOffset) => some streamOffset
  | .binary bytes => cursor.map (· + bytes.length)
  | _ => cursor

/-- The cursor of a client that was sent `items`. -/
def cursorAfter (streamOffset : Nat) (items : List OutboundItem) : Option Nat :=
  (items.map (·.frame streamOffset)).foldl clientCursor none

/-- The section of `attach_with_replay` that registers the client for the replay is next. -/
def AttachPc.isRegister : AttachPc → Bool
  | .register _ => true
  | _ => false

namespace Handoff

/-- When the client has all that was pushed for it, it knows a cursor: the length of the stream if
the pump is between two chunks, and what a reconnect from it replays, within retention, continues
what was received, without repetition or loss. -/
def CursorExact (h : Handoff) : Prop :=
  ∀ reg, h.attach = .returned reg → ∀ o, h.session.newest = some o → o.tryNext.2 = none →
    ∃ cursor, cursorAfter reg.streamOffset h.received = some cursor ∧
      (h.output = .idle → cursor = h.session.io.buffer.totalWritten) ∧
      (0 < h.session.io.buffer.capacity → h.session.io.buffer.earliestOffset ≤ cursor →
        payload h.received ++ (h.session.io.buffer.readSince cursor).bytes =
          h.stream.drop reg.start)

/-- The stream stays short enough to be counted. -/
def Countable (h : Handoff) : Label → Prop
  | .write bytes => h.stream.length + bytes.length ≤ u64Max
  | _ => True

/-- The attach replays nothing. -/
def Unreplayed (call : AttachCall) (h : Handoff) (l : Label) : Prop :=
  l = .attach → h.attach.isRegister →
    ((h.session.registerReplay call.scrollbackReplay call.since).2.elim [] Replay.bytes) = []

instance (h : Handoff) (l : Label) : Decidable (h.Countable l) := by
  unfold Countable
  split <;> infer_instance

instance (call : AttachCall) (h : Handoff) (l : Label) : Decidable (h.Unreplayed call l) := by
  unfold Unreplayed
  infer_instance

end Handoff

/-! ## What the client counts -/

def ControlEvent.isNotice : ControlEvent → Bool
  | .attachNotice .. => true
  | _ => false

theorem cursorAfter_concat (streamOffset : Nat) (items : List OutboundItem) (item : OutboundItem) :
    cursorAfter streamOffset (items ++ [item]) =
      clientCursor (cursorAfter streamOffset items) (item.frame streamOffset) := by
  rw [cursorAfter, List.map_append, List.foldl_append]
  rfl

theorem payload_concat (items : List OutboundItem) (item : OutboundItem) :
    payload (items ++ [item]) = payload items ++ payload [item] := List.flatMap_append

@[simp] theorem payload_nil : payload [] = [] := rfl
@[simp] theorem payload_control (event : ControlEvent) : payload [.control event] = [] := rfl
@[simp] theorem payload_close (code : Nat) : payload [.close code] = [] := rfl
@[simp] theorem payload_bytes (bytes : List UInt8) : payload [.bytes bytes] = bytes :=
  List.append_nil bytes

/-- A control frame that is not the notice is not counted. -/
theorem clientCursor_control {event : ControlEvent} (hevent : event.isNotice = false)
    (streamOffset : Nat) (cursor : Option Nat) :
    clientCursor cursor (OutboundItem.frame streamOffset (.control event)) = cursor := by
  cases event with
  | attachNotice => cases hevent
  | gap | ttlWarning | shuttingDown => rfl

theorem clientCursor_notice {event : ControlEvent} (hevent : event.isNotice = true)
    (streamOffset : Nat) (cursor : Option Nat) :
    clientCursor cursor (OutboundItem.frame streamOffset (.control event)) =
      some streamOffset := by
  cases event with
  | attachNotice => rfl
  | gap | ttlWarning | shuttingDown => cases hevent

/-- How many attach notices are still queued. -/
def Outbound.notices (o : Outbound) : Nat := o.controls.countP ControlEvent.isNotice

/-- The client has a cursor once the notice has reached it, and counts from there. -/
def Counts (streamOffset : Nat) (items : List OutboundItem) (o : Outbound) : Prop :=
  (o.notices = 1 ∧ cursorAfter streamOffset items = none ∧ payload items = []) ∨
  (o.notices = 0 ∧ cursorAfter streamOffset items = some (streamOffset + (payload items).length))

/-- One item further. -/
theorem Counts.yields {streamOffset : Nat} {items : List OutboundItem} {o o' : Outbound}
    {item : OutboundItem} (h : Counts streamOffset items o) (hy : o.Yields o' item) :
    Counts streamOffset (items ++ [item]) o' := by
  unfold Counts at h ⊢
  rw [cursorAfter_concat, payload_concat]
  cases hy with
  | gap =>
    rw [clientCursor_control rfl, payload_control, List.append_nil]
    exact h
  | @control event rest _ hc =>
    have hsplit : o.notices = (if event.isNotice then 1 else 0) + rest.countP ControlEvent.isNotice := by
      rw [Outbound.notices, hc, List.countP_cons, Nat.add_comm]
    have hrest : Outbound.notices { o with controls := rest } =
        rest.countP ControlEvent.isNotice := rfl
    rw [payload_control, List.append_nil, hrest]
    by_cases hevent : event.isNotice = true
    · rw [clientCursor_notice hevent]
      rw [if_pos hevent] at hsplit
      rcases h with ⟨hone, -, hpayload⟩ | ⟨hzero, -⟩
      · rw [hpayload]
        exact .inr ⟨by omega, rfl⟩
      · omega
    · rw [clientCursor_control (Bool.eq_false_iff.mpr hevent)]
      rw [if_neg hevent, Nat.zero_add] at hsplit
      rw [← hsplit]
      exact h
  | bytes _ hc =>
    -- Bytes come when no control frame is left.
    have hzero : o.notices = 0 := by
      rw [Outbound.notices, hc]
      rfl
    rcases h with ⟨hone, -⟩ | ⟨-, hcursor⟩
    · omega
    · refine .inr ⟨hzero, ?_⟩
      rw [hcursor]
      rw [payload_bytes, List.length_append, ← Nat.add_assoc]
      rfl
  | close =>
    rw [payload_close, List.append_nil]
    exact h

namespace Handoff

variable {h h' : Handoff} {reg : Registration} {call : AttachCall}

/-- What has become of the notice, where the attach is. -/
def Noticed (h : Handoff) : AttachPc → Prop
  | .cas | .register _ | .replace _ _ _ => h.received = []
  | .closePrevious reg _ | .subscriberFor reg | .notice reg =>
    h.received = [] ∧ ∃ o, h.session.newest = some o ∧ o.conn = reg.conn ∧ o.notices = 0
  | .replayGap reg _ _ | .replayBytes reg _ | .resize reg | .returned reg =>
    ∃ o, h.session.newest = some o ∧ o.conn = reg.conn ∧ Counts reg.streamOffset h.received o
  | .refused _ => True

/-- A change that neither sends an item nor queues a notice. -/
theorem Noticed.mono {pc : AttachPc} (hk : h.Noticed pc) (hreceived : h'.received = h.received)
    (hnewest : ∀ o, h.session.newest = some o →
      ∃ o', h'.session.newest = some o' ∧ o'.conn = o.conn ∧ o'.notices = o.notices) :
    h'.Noticed pc := by
  have hbefore : ∀ reg : Registration, (h.received = [] ∧ ∃ o, h.session.newest = some o ∧
      o.conn = reg.conn ∧ o.notices = 0) → h'.received = [] ∧ ∃ o, h'.session.newest = some o ∧
      o.conn = reg.conn ∧ o.notices = 0 := by
    rintro reg ⟨hnil, o, ho, hconn, hzero⟩
    obtain ⟨o', ho', hconn', hnotices⟩ := hnewest o ho
    exact ⟨hreceived.trans hnil, o', ho', hconn'.trans hconn, hnotices.trans hzero⟩
  have hafter : ∀ reg : Registration, (∃ o, h.session.newest = some o ∧ o.conn = reg.conn ∧
      Counts reg.streamOffset h.received o) → ∃ o, h'.session.newest = some o ∧
      o.conn = reg.conn ∧ Counts reg.streamOffset h'.received o := by
    rintro reg ⟨o, ho, hconn, hcounts⟩
    obtain ⟨o', ho', hconn', hnotices⟩ := hnewest o ho
    refine ⟨o', ho', hconn'.trans hconn, ?_⟩
    unfold Counts at hcounts ⊢
    rw [hnotices, hreceived]
    exact hcounts
  cases pc with
  | cas | register | replace => exact hreceived.trans hk
  | closePrevious reg | subscriberFor reg | notice reg => exact hbefore reg hk
  | replayGap reg | replayBytes reg | resize reg | returned reg => exact hafter reg hk
  | refused => trivial

theorem notices_pushControl {event : ControlEvent} (hevent : event.isNotice = false)
    (o : Outbound) : (o.pushControl event).conn = o.conn ∧
      (o.pushControl event).notices = o.notices := by
  refine ⟨rfl, ?_⟩
  show (o.controls ++ [event]).countP ControlEvent.isNotice = o.controls.countP ControlEvent.isNotice
  rw [List.countP_append, List.countP_singleton, hevent]
  rfl

theorem notices_pushBytes (bytes : List UInt8) (o : Outbound) :
    (o.pushBytes bytes).conn = o.conn ∧ (o.pushBytes bytes).notices = o.notices :=
  ⟨o.pushBytes_conn bytes, by rw [Outbound.notices, Outbound.pushBytes_controls, Outbound.notices]⟩

theorem notices_close (code : Nat) (o : Outbound) :
    (o.close code).conn = o.conn ∧ (o.close code).notices = o.notices :=
  ⟨o.close_conn code, by rw [Outbound.notices, Outbound.close_controls, Outbound.notices]⟩

/-- The attach pushes one notice. -/
theorem Noticed.attach (hk : h.Noticed h.attach)
    (hn : h.next call .attach = some h') : h'.Noticed h'.attach := by
  obtain ⟨⟨s', pc'⟩, hstep, rfl⟩ := Option.map_eq_some_iff.mp hn
  have hsame : ∀ o, h.session.newest = some o →
      ∃ o', h.session.newest = some o' ∧ o'.conn = o.conn ∧ o'.notices = o.notices :=
    fun o ho => ⟨o, ho, rfl, rfl⟩
  cases hpc : h.attach <;> rw [hpc] at hstep hk <;> simp only [AttachPc.step] at hstep
  case cas =>
    split at hstep <;> cases hstep
    · trivial
    · exact hk
  case register conn =>
    cases hstep
    exact hk
  case replace conn offset replay =>
    cases hstep
    have hnewest := h.session.newest_replaceSubscriber conn
    dsimp only [Session.replaceSubscriber]
    split <;> exact ⟨hk, _, hnewest, rfl, rfl⟩
  case closePrevious reg previous =>
    cases hstep
    have hnext : h.Noticed (.subscriberFor reg) := hk
    exact hnext.mono rfl fun o ho =>
      Session.newest_keeps (·.notices) h.session previous (notices_close _) ho
  case subscriberFor reg =>
    cases hstep
    split
    · exact hk
    · trivial
  case notice reg =>
    cases hstep
    obtain ⟨hnil, o, ho, hconn, hzero⟩ := hk
    have hnewest : (h.session.onOutbound reg.conn (·.pushControl h.session.attachNotice)).newest =
        some (o.pushControl h.session.attachNotice) := hconn ▸ Session.newest_push ho _
    have hcounts : Counts reg.streamOffset h.received (o.pushControl h.session.attachNotice) := by
      refine .inl ⟨?_, ?_, ?_⟩
      · show (o.controls ++ [h.session.attachNotice]).countP ControlEvent.isNotice = 1
        rw [List.countP_append, show o.controls.countP ControlEvent.isNotice = 0 from hzero]
        rfl
      · rw [hnil]
        rfl
      · rw [hnil]
        rfl
    unfold AttachPc.afterNotice
    split <;> exact ⟨_, hnewest, hconn, hcounts⟩
  case replayGap reg dropped bytes =>
    cases hstep
    have hnext : h.Noticed (.replayBytes reg bytes) := hk
    exact hnext.mono rfl fun o ho =>
      Session.newest_keeps (·.notices) h.session reg.conn (notices_pushControl rfl) ho
  case replayBytes reg bytes =>
    cases hstep
    have hnext : h.Noticed (.resize reg) := hk
    exact hnext.mono rfl fun o ho =>
      Session.newest_keeps (·.notices) h.session reg.conn (notices_pushBytes bytes) ho
  case resize reg =>
    cases hstep
    have hnext : h.Noticed (.returned reg) := hk
    exact hnext.mono rfl hsame
  case returned | refused => cases hstep

/-- The drain sends the notice before any byte. -/
theorem Noticed.drain (hk : h.Noticed h.attach) (hn : h.next call .drain = some h') :
    h'.Noticed h'.attach := by
  simp only [next] at hn
  split at hn
  · rename_i reg item hpc hitem
    obtain rfl := Option.some.inj hn
    rw [hpc] at hk
    obtain ⟨o, ho, hconn, hcounts⟩ := hk
    rw [ho, Option.bind_some] at hitem
    have hyields : o.Yields o.tryNext.1 item := Outbound.yields_of_tryNext (by rw [← hitem])
    have hconn' : o.tryNext.1.conn = o.conn := by
      generalize o.tryNext.1 = o' at hyields
      cases hyields <;> rfl
    show Handoff.Noticed _ h.attach
    rw [hpc]
    refine ⟨o.tryNext.1, ?_, hconn'.trans hconn, hcounts.yields hyields⟩
    exact hconn ▸ Session.newest_push ho (·.tryNext.1)
  · cases hn

theorem Noticed.next {l : Label} (hk : h.Noticed h.attach)
    (hn : h.next call l = some h') : h'.Noticed h'.attach := by
  cases l with
  | attach => exact hk.attach hn
  | drain => exact hk.drain hn
  | write bytes =>
    simp only [Handoff.next] at hn
    split at hn <;> cases hn
    exact hk.mono rfl fun o ho => ⟨o, ho, rfl, rfl⟩
  | subscriber now =>
    simp only [Handoff.next] at hn
    split at hn <;> cases hn
    exact hk.mono rfl fun o ho => ⟨o, ho, rfl, rfl⟩
  | push =>
    simp only [Handoff.next] at hn
    split at hn <;> cases hn
    · rename_i bytes conn _
      exact hk.mono rfl fun o ho =>
        Session.newest_keeps (·.notices) h.session conn (notices_pushBytes bytes) ho
    · exact hk.mono rfl fun o ho => ⟨o, ho, rfl, rfl⟩
  | control conn event =>
    simp only [Handoff.next] at hn
    split at hn <;> cases hn
    · exact hk.mono rfl fun o ho =>
        Session.newest_keeps (·.notices) h.session conn (notices_pushControl rfl) ho
    · exact hk.mono rfl fun o ho =>
        Session.newest_keeps (·.notices) h.session conn (notices_pushControl rfl) ho
  | close conn code =>
    cases hn
    exact hk.mono rfl fun o ho => Session.newest_keeps (·.notices) h.session conn (notices_close code) ho

/-! ## How far the cursor is off -/

/-- The replay is no longer than its offset, and the stream short enough to be counted. -/
def Counted (h : Handoff) (offset : Nat) (replay : Option Replay) : Prop :=
  (replay.elim [] Replay.bytes).length ≤ offset ∧ h.stream.length ≤ u64Max

/-- Nothing is replayed. -/
def Bare (_ : Nat) (replay : Option Replay) : Prop := replay.elim [] Replay.bytes = []

theorem Registers.imp {P Q : Nat → Option Replay → Prop} {pc : AttachPc} (hp : Registers P pc)
    (himp : ∀ offset replay, P offset replay → Q offset replay) : Registers Q pc := by
  cases pc
  case cas | register | refused => trivial
  all_goals exact himp _ _ hp

/-- Only a write makes the stream longer. -/
theorem stream_next {l : Label} (hn : h.next call l = some h') (hl : ∀ bytes, l ≠ .write bytes) :
    h'.stream = h.stream := by
  cases l <;> simp only [Handoff.next] at hn
  case write bytes => exact absurd rfl (hl bytes)
  case attach =>
    obtain ⟨p, -, rfl⟩ := Option.map_eq_some_iff.mp hn
    rfl
  case close => cases hn; rfl
  all_goals
    split at hn <;> cases hn <;> rfl

theorem counted_next {l : Label} (hI : h.Inv) (hp : Registers h.Counted h.attach)
    (hseam : h.Seamless l) (hcount : h.Countable l) (hn : h.next call l = some h') :
    Registers h'.Counted h'.attach := by
  have hmoved : Registers h.Counted h'.attach := by
    refine registers_next hp ?_ hn
    rintro rfl conn hpc
    simp only [Seamless, hpc] at hseam
    refine ⟨?_, hseam⟩
    have hsuffix := Session.registerReplay_suffix hI.tracks call.scrollbackReplay call.since
    show _ ≤ h.session.io.buffer.totalWritten
    rw [hI.tracks.written_eq hseam]
    exact hsuffix.length_le
  refine hmoved.imp fun offset replay hcounted => ⟨hcounted.1, ?_⟩
  by_cases hl : ∃ bytes, l = .write bytes
  · obtain ⟨bytes, rfl⟩ := hl
    simp only [Handoff.next] at hn
    split at hn <;> cases hn
    show (h.stream ++ bytes).length ≤ u64Max
    rw [List.length_append]
    exact hcount
  · rw [stream_next hn fun bytes heq => hl ⟨bytes, heq⟩]
    exact hcounted.2

theorem bare_next {l : Label} (hp : Registers Bare h.attach) (hnone : h.Unreplayed call l)
    (hn : h.next call l = some h') : Registers Bare h'.attach := by
  refine registers_next hp ?_ hn
  rintro rfl conn hpc
  refine hnone rfl ?_
  rw [hpc]
  rfl

/-- What is known of the cursor in every state of a run. -/
structure Known (h : Handoff) : Prop where
  inv : h.Inv
  noticed : h.Noticed h.attach
  counted : Registers h.Counted h.attach

theorem known_start {s : Session} {stream : List UInt8} (hs : s.Ready stream) :
    (start s stream).Known := ⟨inv_start hs, rfl, trivial⟩

theorem Known.next {l : Label} (hK : h.Known) (hfits : h.NoOverflow l) (hseam : h.Seamless l)
    (hcount : h.Countable l) (hn : h.next call l = some h') : h'.Known :=
  ⟨hK.inv.next hfits hseam hn, hK.noticed.next hn, counted_next hK.inv hK.counted hseam hcount hn⟩

/-- A client that has everything knows where it is. -/
theorem Noticed.cursor {o : Outbound} (hk : h.Noticed h.attach) (hpc : h.attach = .returned reg)
    (ho : h.session.newest = some o) (hcontrols : o.controls = []) :
    cursorAfter reg.streamOffset h.received =
      some (reg.streamOffset + (payload h.received).length) := by
  rw [hpc] at hk
  obtain ⟨o', ho', -, hcounts⟩ := hk
  obtain rfl := Option.some.inj (ho'.symm.trans ho)
  have hzero : o'.notices = 0 := by
    rw [Outbound.notices, hcontrols]
    rfl
  rcases hcounts with ⟨hone, -⟩ | ⟨-, hcursor⟩
  · omega
  · exact hcursor

/-- A client that has everything: what it received, and the cursor it keeps. Up to the chunk that
the pump holds for it, the cursor is the length of the stream and the length of the replay. -/
theorem Known.cursor (hK : h.Known) (hpc : h.attach = .returned reg) {o : Outbound}
    (ho : h.session.newest = some o) (hdrained : o.tryNext.2 = none) :
    ∃ cursor, cursorAfter reg.streamOffset h.received = some cursor ∧
      payload h.received ++ h.output.outstanding reg.conn = h.stream.drop reg.start ∧
      cursor = reg.streamOffset + (payload h.received).length ∧
      cursor + (h.output.outstanding reg.conn).length =
        h.session.io.buffer.totalWritten + reg.replayed.length := by
  have hempty : o.controls = [] ∧ o.queue.buf = [] := by
    rcases o.tryNext_cases with ⟨o', item, heq, -⟩ | ⟨-, -, hcontrols, hbuf, -⟩
    · rw [heq] at hdrained
      cases hdrained
    · exact ⟨hcontrols, hbuf⟩
  have hjoined : h.attach.joined = some (reg, []) := by
    rw [hpc]
    rfl
  have hj : h.Joined reg [] := hK.inv.phase.joined hjoined
  have hbytes := hj.bytes
  rw [handed_eq ho, hempty.2, List.append_nil, List.nil_append] at hbytes
  obtain ⟨hshort, hcount⟩ : h.Counted reg.streamOffset reg.replay := hK.counted.joined hjoined
  refine ⟨_, hK.noticed.cursor hpc ho hempty.1, hbytes, rfl, ?_⟩
  have hlen := congrArg List.length hbytes
  have hle := hj.start_le
  have hstart : reg.start + reg.replayed.length = reg.streamOffset := Nat.sub_add_cancel hshort
  rw [List.length_append, List.length_drop] at hlen
  rw [hK.inv.tracks.written_eq hcount]
  omega

/-- Without a replay the cursor is exact. -/
theorem Known.cursorExact (hK : h.Known) (hbare : Registers Bare h.attach) : h.CursorExact := by
  intro reg hpc o ho hdrained
  obtain ⟨cursor, hcursor, hbytes, heq, hoff⟩ := hK.cursor hpc ho hdrained
  have hjoined : h.attach.joined = some (reg, []) := by
    rw [hpc]
    rfl
  have hnil : reg.replayed = [] := hbare.joined hjoined
  obtain ⟨-, hcount⟩ : h.Counted reg.streamOffset reg.replay := hK.counted.joined hjoined
  rw [hnil, List.length_nil, Nat.add_zero] at hoff
  refine ⟨cursor, hcursor, fun hidle => ?_, fun hcap hret => ?_⟩
  · rw [hidle, OutputPc.outstanding, List.length_nil, Nat.add_zero] at hoff
    exact hoff
  · -- The first byte that the connection is handed is the one at the offset of the notice.
    have hstart : reg.start = reg.streamOffset := by
      rw [Registration.start, hnil]
      rfl
    have hle : cursor ≤ h.session.io.buffer.written := Nat.le.intro hoff
    have hreplay := hK.inv.tracks.readSince_bytes hcount hcap hle hret
    have hrest : h.stream.drop cursor = h.output.outstanding reg.conn := by
      rw [heq, ← List.drop_drop, ← hstart, ← hbytes, List.drop_left]
    rw [hreplay, hrest]
    exact hbytes

/-- With one it is not, once the client has everything. -/
theorem Known.not_cursorExact (hK : h.Known) (hpc : h.attach = .returned reg)
    (hreplayed : reg.replayed ≠ []) (hidle : h.output = .idle) {o : Outbound}
    (ho : h.session.newest = some o) (hdrained : o.tryNext.2 = none) : ¬ h.CursorExact := by
  intro hexact
  obtain ⟨cursor, hcursor, -, -, hoff⟩ := hK.cursor hpc ho hdrained
  obtain ⟨cursor', hcursor', htotal, -⟩ := hexact reg hpc o ho hdrained
  obtain rfl := Option.some.inj (hcursor'.symm.trans hcursor)
  have hpos := List.length_pos_iff.mpr hreplayed
  rw [hidle, OutputPc.outstanding, List.length_nil, Nat.add_zero, ← htotal hidle] at hoff
  omega

/-- Where nothing overflows and the seam is kept, the cursor of a client that has everything is
exact if and only if nothing was replayed to it. -/
theorem cursorExact_iff_bare {s : Session} {stream : List UInt8} (hs : s.Ready stream)
    (run : List Label)
    (hfits : Trace.AllSteps (next call) NoOverflow (start s stream) run)
    (hseam : Trace.AllSteps (next call) Seamless (start s stream) run)
    (hcount : Trace.AllSteps (next call) Countable (start s stream) run) :
    Trace.AllStates (next call) (fun h => ∀ reg, h.attach = .returned reg → h.output = .idle →
      ∀ o, h.session.newest = some o → o.tryNext.2 = none →
        (h.CursorExact ↔ reg.replayed = [])) (start s stream) run := by
  have hknown : Trace.AllStates (Handoff.next call) Known (start s stream) run :=
    Trace.AllStates.of_invariant (fun _ _ _ hK hc hn => hK.next hc.1 hc.2.1 hc.2.2 hn)
      (known_start hs) (hfits.and (hseam.and hcount))
  refine hknown.imp fun h hK reg hpc hidle o ho hdrained => ?_
  constructor
  · intro hexact
    by_contra hreplayed
    exact hK.not_cursorExact hpc hreplayed hidle ho hdrained hexact
  · intro hnil
    refine hK.cursorExact ?_
    rw [hpc]
    exact hnil

end Handoff

open Handoff

/-- Along every run in which nothing overflows, the seam is kept and the attach replays nothing,
the cursor of a client of the contract is exact. -/
theorem Handoff.cursorExact_of_unreplayed (call : AttachCall) {s : Session} {stream : List UInt8}
    (hs : s.Ready stream) (run : List Label)
    (hfits : Trace.AllSteps (next call) NoOverflow (start s stream) run)
    (hseam : Trace.AllSteps (next call) Seamless (start s stream) run)
    (hcount : Trace.AllSteps (next call) Countable (start s stream) run)
    (hnone : Trace.AllSteps (next call) (Unreplayed call) (start s stream) run) :
    Trace.AllStates (next call) CursorExact (start s stream) run := by
  have hinv : Trace.AllStates (next call) (fun h => h.Known ∧ Registers Bare h.attach)
      (start s stream) run := by
    refine Trace.AllStates.of_invariant ?_ ⟨known_start hs, trivial⟩
      (hfits.and (hseam.and (hcount.and hnone)))
    rintro h l h' ⟨hK, hbare⟩ ⟨hfits, hseam, hcount, hnone⟩ hn
    exact ⟨hK.next hfits hseam hcount hn, bare_next hbare hnone hn⟩
  exact hinv.imp fun h hI => hI.1.cursorExact hI.2

/-- A client resumes at the end of the stream, and gets one more chunk. -/
theorem resumed_cursorExact : Trace.AllStates (next { freshCall with since := some 5 }) CursorExact
    (start freshSession []) (wholeChunk [104, 101, 108, 108, 111] ++ attachSteps 7 ++
      wholeChunk [33] ++ [.drain, .drain]) :=
  Handoff.cursorExact_of_unreplayed { freshCall with since := some 5 } ready_fresh _ (by decide)
    (by decide) (by decide) (by decide)

/-! ## A replay that is counted twice -/

/-- Five bytes are printed, a client attaches from the start of the stream and drains all. -/
def countedTwice : List Handoff.Label :=
  wholeChunk [104, 101, 108, 108, 111] ++ attachSteps 7 ++ [.drain, .drain]

/-- The notice says 5, the replay has 5 bytes: the client's cursor is 10, and the stream has 5. -/
theorem countedTwice_inexact :
    ¬ Trace.AllStates (next freshCall) CursorExact (start freshSession []) countedTwice := by
  intro hall
  let reg : Registration :=
    { conn := ⟨1⟩, evicted := none, replay := some (.contiguous [104, 101, 108, 108, 111] 5)
      streamOffset := 5 }
  obtain ⟨h, hexact, hf⟩ := hall.observe
    (f := fun h => (h.attach, h.output, h.session.newest.map (·.tryNext.2),
      cursorAfter 5 h.received, h.session.io.buffer.totalWritten))
    (show _ = some (.returned reg, .idle, some none, some 10, 5) from rfl)
  obtain ⟨hpc, hidle, hdrained, hcursor, htotal⟩ : _ ∧ _ ∧ _ ∧ _ ∧ _ := by
    simpa only [Prod.mk.injEq] using hf
  obtain ⟨o, ho, hnone⟩ := Option.map_eq_some_iff.mp hdrained
  obtain ⟨cursor, hcursor', hexact, -⟩ := hexact reg hpc o ho hnone
  rw [hcursor] at hcursor'
  rw [← Option.some.inj hcursor', htotal] at hexact
  exact absurd (hexact hidle) (by decide)

end OpenabPty
