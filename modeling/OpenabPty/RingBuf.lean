import OpenabPty.Basic
import Mathlib.Data.List.Basic

/-!
# The bounded buffers of the output path (`ringbuf.rs`)

`RingBuffer` keeps the last `capacity` bytes of a session's stream and counts every byte
ever written, so that a client's cursor names a position of the stream. `ByteQueue` is the
bounded backlog of one connection: it drops the oldest bytes and remembers how many it still
has to report.
-/

namespace OpenabPty

/-- A `VecDeque<u8>`: its contents in the two slices `as_slices` returns. Only
`slice_from` looks at the split. -/
structure VecDeque where
  front : List UInt8
  back : List UInt8
  deriving DecidableEq, Repr

namespace VecDeque

def empty : VecDeque := { front := [], back := [] }

def toList (d : VecDeque) : List UInt8 := d.front ++ d.back

def len (d : VecDeque) : Nat := d.front.length + d.back.length

def extend (d : VecDeque) (bytes : List UInt8) : VecDeque := { d with back := d.back ++ bytes }

/-- `drain(..n)`, for its effect on the deque. -/
def drain (d : VecDeque) (n : Nat) : VecDeque :=
  if n < d.front.length then { d with front := d.front.drop n }
  else { front := d.back.drop (n - d.front.length), back := [] }

@[simp] theorem toList_empty : empty.toList = [] := rfl
@[simp] theorem len_empty : empty.len = 0 := rfl

theorem len_eq (d : VecDeque) : d.len = d.toList.length := by simp [len, toList]

@[simp] theorem toList_extend (d : VecDeque) (bytes : List UInt8) :
    (d.extend bytes).toList = d.toList ++ bytes := by simp [extend, toList]

@[simp] theorem toList_drain (d : VecDeque) (n : Nat) : (d.drain n).toList = d.toList.drop n := by
  unfold drain
  split
  · rename_i h
    simp [toList, List.drop_append_of_le_length (Nat.le_of_lt h)]
  · rename_i h
    simp [toList, List.drop_append, List.drop_eq_nil_of_le (Nat.not_lt.mp h)]

end VecDeque

/-- `RingBuffer`: retained scrollback with a monotonic total-bytes-written cursor. -/
structure RingBuffer where
  buf : VecDeque
  capacity : Nat
  written : Nat
  dropped : Nat
  deriving DecidableEq, Repr

/-- `Replay`: the result of a `since=<offset>` query. -/
inductive Replay where
  | contiguous (bytes : List UInt8) (toOffset : Nat)
  | gap (bytesDropped : Nat) (bytes : List UInt8) (toOffset : Nat)
  deriving DecidableEq, Repr

/-- The bytes a replay carries, whichever kind it is. -/
def Replay.bytes : Replay → List UInt8
  | .contiguous bytes _ => bytes
  | .gap _ bytes _ => bytes

namespace RingBuffer

def new (capacityBytes : Nat) : RingBuffer :=
  { buf := .empty, capacity := capacityBytes, written := 0, dropped := 0 }

/-- `with_scrollback_kib`; `usize` is 64 bits wide. -/
def withScrollbackKib (kib : Nat) : RingBuffer := new (min (kib * 1024) u64Max)

def retentionEnabled (r : RingBuffer) : Bool := 0 < r.capacity

/-- `write`: the buffer after it and the bytes this write evicted or discarded. -/
def write (r : RingBuffer) (bytes : List UInt8) : RingBuffer × Nat :=
  let n := bytes.length
  let r := { r with written := satAdd r.written n }
  if r.capacity = 0 then
    ({ r with dropped := satAdd r.dropped n }, n)
  else
    let overflow := r.buf.len + n - r.capacity
    if overflow = 0 then
      ({ r with buf := r.buf.extend bytes }, 0)
    else
      let fromRetained := min overflow r.buf.len
      let fromIncoming := overflow - fromRetained
      ({ r with
          buf := (r.buf.drain fromRetained).extend (bytes.drop fromIncoming)
          dropped := satAdd r.dropped overflow }, overflow)

def totalWritten (r : RingBuffer) : Nat := r.written

def totalDropped (r : RingBuffer) : Nat := r.dropped

def earliestOffset (r : RingBuffer) : Nat := r.written - r.buf.len

/-- `slice_from`, over the two slices of the deque. -/
def sliceFrom (r : RingBuffer) (start : Nat) : List UInt8 :=
  let a := r.buf.front
  let b := r.buf.back
  if start ≥ r.buf.len then []
  else if start < a.length then a.drop start ++ b
  else b.drop (start - a.length)

def snapshot (r : RingBuffer) : List UInt8 := r.sliceFrom 0

/-- `read_since`: the bytes a client with cursor `since` has not seen. -/
def readSince (r : RingBuffer) (since : Nat) : Replay :=
  if !r.retentionEnabled then
    .gap (r.written - since) [] r.written
  else if since > r.written then
    .gap 0 r.snapshot r.written
  else
    let earliest := r.earliestOffset
    if since ≥ earliest then
      .contiguous (r.sliceFrom (since - earliest)) r.written
    else
      .gap (earliest - since) r.snapshot r.written

def clear (r : RingBuffer) : RingBuffer :=
  { r with dropped := satAdd r.dropped r.buf.len, buf := .empty }

@[simp] theorem new_capacity (n : Nat) : (new n).capacity = n := rfl
@[simp] theorem new_written (n : Nat) : (new n).written = 0 := rfl
@[simp] theorem new_toList (n : Nat) : (new n).buf.toList = [] := rfl

theorem sliceFrom_eq_drop (r : RingBuffer) (start : Nat) :
    r.sliceFrom start = r.buf.toList.drop start := by
  simp only [sliceFrom]
  split
  · rename_i h
    rw [VecDeque.len_eq] at h
    rw [List.drop_eq_nil_of_le h]
  · split
    · rename_i h
      rw [VecDeque.toList, List.drop_append_of_le_length (Nat.le_of_lt h)]
    · rename_i h
      rw [VecDeque.toList, List.drop_append, List.drop_eq_nil_of_le (Nat.not_lt.mp h)]
      rfl

@[simp] theorem snapshot_eq (r : RingBuffer) : r.snapshot = r.buf.toList :=
  r.sliceFrom_eq_drop 0

/-- A cursor within retention: what follows it, without a gap. -/
theorem readSince_of_retained {r : RingBuffer} {since : Nat} (hcap : 0 < r.capacity)
    (hle : since ≤ r.written) (hret : r.earliestOffset ≤ since) :
    r.readSince since =
      .contiguous (r.buf.toList.drop (since - r.earliestOffset)) r.written := by
  simp [readSince, retentionEnabled, hcap, Nat.not_lt.mpr hle, hret, sliceFrom_eq_drop]

/-- What a write retains: the last `capacity` bytes of the old window and the new ones. -/
theorem toList_write (r : RingBuffer) (bytes : List UInt8) (hcap : 0 < r.capacity) :
    (r.write bytes).1.buf.toList =
      (r.buf.toList ++ bytes).drop (r.buf.toList.length + bytes.length - r.capacity) := by
  have hcap' : r.capacity ≠ 0 := Nat.pos_iff_ne_zero.mp hcap
  simp only [write, hcap', if_false, VecDeque.len_eq]
  split
  · rename_i h
    simp [h]
  · rename_i h
    simp only [VecDeque.toList_extend, VecDeque.toList_drain, List.drop_append]
    congr 1
    · rcases Nat.le_total (r.buf.toList.length + bytes.length - r.capacity) r.buf.toList.length with hle | hle
      · rw [Nat.min_eq_left hle]
      · rw [Nat.min_eq_right hle, List.drop_eq_nil_of_le (Nat.le_refl _), List.drop_eq_nil_of_le hle]
    · congr 1
      omega

@[simp] theorem write_capacity (r : RingBuffer) (bytes : List UInt8) :
    (r.write bytes).1.capacity = r.capacity := by
  simp only [write]
  split
  · rfl
  · split <;> rfl

@[simp] theorem write_written (r : RingBuffer) (bytes : List UInt8) :
    (r.write bytes).1.written = satAdd r.written bytes.length := by
  simp only [write]
  split
  · rfl
  · split <;> rfl

@[simp] theorem clear_toList (r : RingBuffer) : r.clear.buf.toList = [] := rfl

end RingBuffer

/-! ## The per-connection backlog -/

/-- `QueueBounds`. -/
structure QueueBounds where
  capacityBytes : Nat
  maxDroppedBytes : Option Nat
  deriving DecidableEq, Repr

/-- `Push`: the outcome of a `ByteQueue::push`. -/
inductive Push where
  | accepted
  | droppedOldest (bytesDropped : Nat)
  | hardWatermark (bytesDropped : Nat)
  deriving DecidableEq, Repr

/-- `ByteQueue`. -/
structure ByteQueue where
  buf : List UInt8
  bounds : QueueBounds
  dropped : Nat
  unreportedDropped : Nat
  deriving DecidableEq, Repr

namespace ByteQueue

def new (bounds : QueueBounds) : ByteQueue :=
  { buf := [], bounds := bounds, dropped := 0, unreportedDropped := 0 }

def accountDrop (q : ByteQueue) (n : Nat) : ByteQueue :=
  { q with
      dropped := satAdd q.dropped n
      unreportedDropped := satAdd q.unreportedDropped n }

def overflowOutcome (q : ByteQueue) (bytesDropped : Nat) : Push :=
  match q.bounds.maxDroppedBytes with
  | some limit => if q.dropped > limit then .hardWatermark bytesDropped else .droppedOldest bytesDropped
  | none => .droppedOldest bytesDropped

def push (q : ByteQueue) (bytes : List UInt8) : ByteQueue × Push :=
  let n := bytes.length
  if q.bounds.capacityBytes = 0 then
    let q := q.accountDrop n
    (q, q.overflowOutcome n)
  else
    let overflow := q.buf.length + n - q.bounds.capacityBytes
    if overflow = 0 then
      ({ q with buf := q.buf ++ bytes }, .accepted)
    else
      let fromRetained := min overflow q.buf.length
      let fromIncoming := overflow - fromRetained
      let q := { q with buf := q.buf.drop fromRetained ++ bytes.drop fromIncoming }
      let q := q.accountDrop overflow
      (q, q.overflowOutcome overflow)

/-- `take`: up to `max` bytes for the socket. -/
def take (q : ByteQueue) (max : Nat) : ByteQueue × List UInt8 :=
  ({ q with buf := q.buf.drop max }, q.buf.take max)

/-- `take_unreported_gap`. -/
def takeUnreportedGap (q : ByteQueue) : ByteQueue × Option Nat :=
  if q.unreportedDropped = 0 then (q, none)
  else ({ q with unreportedDropped := 0 }, some q.unreportedDropped)

@[simp] theorem push_bounds (q : ByteQueue) (bytes : List UInt8) :
    (q.push bytes).1.bounds = q.bounds := by
  simp only [push]
  split
  · rfl
  · split <;> rfl

@[simp] theorem take_bounds (q : ByteQueue) (max : Nat) : (q.take max).1.bounds = q.bounds := rfl

theorem push_of_fits {q : ByteQueue} {bytes : List UInt8} (hcap : q.bounds.capacityBytes ≠ 0)
    (hfit : q.buf.length + bytes.length ≤ q.bounds.capacityBytes) :
    q.push bytes = ({ q with buf := q.buf ++ bytes }, .accepted) := by
  have h0 : q.buf.length + bytes.length - q.bounds.capacityBytes = 0 := Nat.sub_eq_zero_of_le hfit
  simp [push, hcap, h0]

theorem satAdd_ne_zero {a b : Nat} (hb : b ≠ 0) : satAdd a b ≠ 0 := by
  have hmax : u64Max ≠ 0 := by decide
  simp only [satAdd]
  omega

/-- A push that does not fit leaves a gap to report. -/
theorem unreported_push_of_overflow {q : ByteQueue} {bytes : List UInt8}
    (h : q.bounds.capacityBytes < q.buf.length + bytes.length) (hbytes : bytes ≠ []) :
    (q.push bytes).1.unreportedDropped ≠ 0 := by
  have hpos := List.length_pos_iff.mpr hbytes
  simp only [push]
  split
  · exact satAdd_ne_zero (Nat.ne_of_gt hpos)
  · rw [if_neg (by omega)]
    exact satAdd_ne_zero (by omega)

end ByteQueue

end OpenabPty
