import OpenabPty.RingBuf

/-!
# A connection's outbound queue (`session.rs`, "Outbound path")

What the runtime has still to send to one client: PTY bytes in a bounded backlog, control
frames, and at most one close code. `tryNext` is the consumer's drain step.
-/

namespace OpenabPty

/-- `READ_CHUNK`. -/
def readChunk : Nat := 16 * 1024

/-- `OUTBOUND_BACKLOG_KIB`. -/
def outboundBacklogKib : Nat := 256

/-- `Session.backlog_bounds`. -/
def backlogBounds : QueueBounds :=
  { capacityBytes := outboundBacklogKib * 1024
    maxDroppedBytes := some (outboundBacklogKib * 1024 * 4) }

/-- `ControlEvent`. -/
inductive ControlEvent where
  | attachNotice (ephemeralWorkspace teardownBestEffort : Bool) (externaliseWith : String)
  | gap (bytesDropped : Nat)
  | ttlWarning (secondsRemaining : Nat) (absolute : Bool)
  | shuttingDown (secondsRemaining : Nat) (ephemeralWorkspaceReset : Bool)
  deriving DecidableEq, Repr

/-- `OutboundItem`. -/
inductive OutboundItem where
  | bytes (bytes : List UInt8)
  | control (event : ControlEvent)
  | close (code : Nat)
  deriving DecidableEq, Repr

/-- `Outbound`. The wakeups of `notify` carry no data and are left out. -/
structure Outbound where
  conn : ConnGeneration
  queue : ByteQueue
  controls : List ControlEvent
  closeCode : Option Nat
  closeEmitted : Bool
  deriving DecidableEq, Repr

namespace Outbound

def new (conn : ConnGeneration) (bounds : QueueBounds) : Outbound :=
  { conn := conn, queue := .new bounds, controls := [], closeCode := none, closeEmitted := false }

/-- `close`: the first code wins. -/
def close (o : Outbound) (code : Nat) : Outbound :=
  match o.closeCode with
  | none => { o with closeCode := some code }
  | some _ => o

/-- `push_bytes`: past the hard watermark the connection is closed. -/
def pushBytes (o : Outbound) (bytes : List UInt8) : Outbound :=
  let pushed := o.queue.push bytes
  let o := { o with queue := pushed.1 }
  match pushed.2 with
  | .hardWatermark _ => o.close CloseCode.slowClient
  | _ => o

def pushControl (o : Outbound) (event : ControlEvent) : Outbound :=
  { o with controls := o.controls ++ [event] }

/-- `try_next`: pending gap, control frames, bytes, then the close code, once. -/
def tryNext (o : Outbound) : Outbound × Option OutboundItem :=
  match o.queue.takeUnreportedGap with
  | (queue, some dropped) => ({ o with queue := queue }, some (.control (.gap dropped)))
  | (_, none) =>
    match o.controls with
    | control :: rest => ({ o with controls := rest }, some (.control control))
    | [] =>
      let taken := o.queue.take readChunk
      if taken.2 ≠ [] then ({ o with queue := taken.1 }, some (.bytes taken.2))
      else
        match o.closeCode with
        | none => (o, none)
        | some code =>
          if o.closeEmitted then (o, none)
          else ({ o with closeEmitted := true }, some (.close code))

@[simp] theorem close_conn (o : Outbound) (code : Nat) : (o.close code).conn = o.conn := by
  unfold close
  split <;> rfl

@[simp] theorem close_queue (o : Outbound) (code : Nat) : (o.close code).queue = o.queue := by
  unfold close
  split <;> rfl

@[simp] theorem close_controls (o : Outbound) (code : Nat) :
    (o.close code).controls = o.controls := by
  unfold close
  split <;> rfl

@[simp] theorem pushControl_conn (o : Outbound) (event : ControlEvent) :
    (o.pushControl event).conn = o.conn := rfl

@[simp] theorem new_queue (conn : ConnGeneration) (bounds : QueueBounds) :
    (new conn bounds).queue = .new bounds := rfl

@[simp] theorem pushControl_queue (o : Outbound) (event : ControlEvent) :
    (o.pushControl event).queue = o.queue := rfl

@[simp] theorem pushBytes_conn (o : Outbound) (bytes : List UInt8) :
    (o.pushBytes bytes).conn = o.conn := by
  simp only [pushBytes]
  split
  · simp
  · rfl

@[simp] theorem pushBytes_queue (o : Outbound) (bytes : List UInt8) :
    (o.pushBytes bytes).queue = (o.queue.push bytes).1 := by
  simp only [pushBytes]
  split
  · simp
  · rfl

@[simp] theorem pushBytes_controls (o : Outbound) (bytes : List UInt8) :
    (o.pushBytes bytes).controls = o.controls := by
  simp only [pushBytes]
  split
  · simp
  · rfl

end Outbound

end OpenabPty
