import OpenabPty.RingBuf
import OpenabPty.Core.Window
import Mathlib.Data.List.Induction

/-!
# The scrollback is a window of the stream

For any writes and clears, `RingBuffer` holds the end of everything written, as much of it as
was written since the last clear and fits, and its counters and replays are those of the whole
stream. Where the storage of the deque wraps around is not the buffer's doing: between two calls
its contents may stand in the two slices in any way.
-/

namespace OpenabPty

/-- A call of the buffer, or a move of the deque's contents within its storage. -/
inductive RingCall where
  | write (bytes : List UInt8)
  | clear
  | wrap (firstSlice : Nat)
  deriving DecidableEq, Repr

/-- The deque with its first `n` bytes in the first slice. -/
def VecDeque.wrap (d : VecDeque) (n : Nat) : VecDeque :=
  { front := d.toList.take n, back := d.toList.drop n }

@[simp] theorem VecDeque.toList_wrap (d : VecDeque) (n : Nat) : (d.wrap n).toList = d.toList :=
  List.take_append_drop n d.toList

namespace RingBuffer

def call (r : RingBuffer) : RingCall → RingBuffer
  | .write bytes => (r.write bytes).1
  | .clear => r.clear
  | .wrap n => { r with buf := r.buf.wrap n }

def run (capacity : Nat) (calls : List RingCall) : RingBuffer := calls.foldl call (new capacity)

/-! ## The same functions, with their subtractions checked -/

/-- `write`, with `overflow - from_retained` checked. -/
def write? (r : RingBuffer) (bytes : List UInt8) : Option (RingBuffer × Nat) :=
  let n := bytes.length
  let r := { r with written := satAdd r.written n }
  if r.capacity = 0 then some ({ r with dropped := satAdd r.dropped n }, n)
  else
    let overflow := r.buf.len + n - r.capacity
    if overflow = 0 then some ({ r with buf := r.buf.extend bytes }, 0)
    else
      let fromRetained := min overflow r.buf.len
      (checkedSub overflow fromRetained).map fun fromIncoming =>
        ({ r with
            buf := (r.buf.drain fromRetained).extend (bytes.drop fromIncoming)
            dropped := satAdd r.dropped overflow }, overflow)

def earliestOffset? (r : RingBuffer) : Option Nat := checkedSub r.written r.buf.len

/-- `slice_from`, with `self.buf.len() - start` and `start - a.len()` checked. -/
def sliceFrom? (r : RingBuffer) (start : Nat) : Option (List UInt8) :=
  let a := r.buf.front
  let b := r.buf.back
  if start ≥ r.buf.len then some []
  else
    (checkedSub r.buf.len start).bind fun _ =>
      if start < a.length then some (a.drop start ++ b)
      else (checkedSub start a.length).map b.drop

/-- `read_since`, with `since - earliest` and `earliest - since` checked, and what it calls. -/
def readSince? (r : RingBuffer) (since : Nat) : Option Replay :=
  if !r.retentionEnabled then some (.gap (r.written - since) [] r.written)
  else if since > r.written then
    (r.sliceFrom? 0).map fun bytes => .gap 0 bytes r.written
  else
    r.earliestOffset?.bind fun earliest =>
      if since ≥ earliest then
        (checkedSub since earliest).bind fun start =>
          (r.sliceFrom? start).map fun bytes => .contiguous bytes r.written
      else
        (checkedSub earliest since).bind fun dropped =>
          (r.sliceFrom? 0).map fun bytes => .gap dropped bytes r.written

theorem write?_eq (r : RingBuffer) (bytes : List UInt8) : r.write? bytes = some (r.write bytes) := by
  simp only [write?, write]
  split
  · rfl
  · split
    · rfl
    · rw [checkedSub_eq (Nat.min_le_left _ _)]
      rfl

theorem sliceFrom?_eq (r : RingBuffer) (start : Nat) :
    r.sliceFrom? start = some (r.sliceFrom start) := by
  simp only [sliceFrom?, sliceFrom]
  split
  · rfl
  · rename_i hstart
    rw [checkedSub_eq (Nat.le_of_lt (Nat.not_le.mp hstart)), Option.bind_some]
    split
    · rfl
    · rename_i hfront
      rw [checkedSub_eq (Nat.not_lt.mp hfront)]
      rfl

theorem earliestOffset?_eq {r : RingBuffer} (h : r.buf.len ≤ r.written) :
    r.earliestOffset? = some r.earliestOffset := checkedSub_eq h

theorem readSince?_eq {r : RingBuffer} (h : r.buf.len ≤ r.written) (since : Nat) :
    r.readSince? since = some (r.readSince since) := by
  simp only [readSince?, readSince, sliceFrom?_eq, earliestOffset?_eq h, Option.map_some,
    Option.bind_some, snapshot]
  split
  · rfl
  · split
    · rfl
    · split
      · rename_i hretained
        rw [checkedSub_eq hretained]
        rfl
      · rename_i hevicted
        rw [checkedSub_eq (Nat.le_of_lt (Nat.not_le.mp hevicted))]
        rfl

/-! ## The window -/

/-- Everything that some calls write. -/
def stream : List RingCall → List UInt8
  | [] => []
  | .write bytes :: calls => bytes ++ stream calls
  | .clear :: calls | .wrap _ :: calls => stream calls

/-- How many bytes some calls write after the last clear, `before` having been written before
them. -/
def sinceClear : Nat → List RingCall → Nat
  | before, [] => before
  | before, .write bytes :: calls => sinceClear (before + bytes.length) calls
  | _, .clear :: calls => sinceClear 0 calls
  | before, .wrap _ :: calls => sinceClear before calls

/-- The buffer is the window of `stream` that its capacity leaves of what was written since the
last clear. -/
structure Windows (r : RingBuffer) (stream : List UInt8) (fresh : Nat) : Prop where
  fresh_le : fresh ≤ stream.length
  written : r.written = stream.length
  retained : r.buf.toList = stream.rtake (min r.capacity fresh)
  dropped : r.dropped + r.buf.toList.length = stream.length

variable {r : RingBuffer} {fresh : Nat} {stream : List UInt8}

theorem windows_new (capacity : Nat) : (new capacity).Windows [] 0 :=
  ⟨Nat.le_refl 0, rfl, by simp, rfl⟩

theorem Windows.length (h : r.Windows stream fresh) :
    r.buf.toList.length = min r.capacity fresh := by
  rw [h.retained, Window.length_rtake]
  exact Nat.min_eq_left ((Nat.min_le_right _ _).trans h.fresh_le)

theorem Windows.len_le (h : r.Windows stream fresh) : r.buf.len ≤ r.written := by
  have hdropped := h.dropped
  rw [VecDeque.len_eq, h.written]
  omega

/-- A window of no bytes is empty. -/
theorem Windows.empty (h : r.Windows stream fresh) (hcap : r.capacity = 0) :
    r.buf.toList = [] := by
  rw [h.retained, hcap, Nat.zero_min, List.rtake_zero]

/-- A write puts its bytes into the window. -/
theorem toList_write_eq_push (r : RingBuffer) (bytes : List UInt8)
    (hempty : r.capacity = 0 → r.buf.toList = []) :
    (r.write bytes).1.buf.toList = Window.push r.capacity r.buf.toList bytes := by
  by_cases hcap : r.capacity = 0
  · have hnil : (r.write bytes).1.buf.toList = [] := by
      simp only [write, hcap, if_true]
      exact hempty hcap
    rw [hnil, Window.push, hcap, List.rtake_zero]
  · rw [r.toList_write bytes (Nat.pos_of_ne_zero hcap), Window.push, List.rtake, List.length_append]

/-- A write returns how much does not fit, and counts it. -/
theorem write_lost (r : RingBuffer) (bytes : List UInt8)
    (hempty : r.capacity = 0 → r.buf.toList = []) :
    (r.write bytes).2 = r.buf.toList.length + bytes.length - r.capacity ∧
      (r.write bytes).1.dropped = if (r.write bytes).2 = 0 ∧ r.capacity ≠ 0 then r.dropped
        else satAdd r.dropped (r.write bytes).2 := by
  by_cases hcap : r.capacity = 0
  · simp [write, hcap, hempty hcap]
  · simp only [write, hcap, if_false, VecDeque.len_eq]
    split
    · rename_i hfits
      exact ⟨hfits.symm, (if_pos ⟨rfl, hcap⟩).symm⟩
    · rename_i hlost
      exact ⟨rfl, (if_neg fun h => hlost h.1).symm⟩

/-- The length of the window after a write, and what the write has lost. -/
theorem Windows.write_add_length (h : r.Windows stream fresh) (bytes : List UInt8) :
    (r.write bytes).2 + (r.write bytes).1.buf.toList.length =
      r.buf.toList.length + bytes.length := by
  rw [(r.write_lost bytes h.empty).1, r.toList_write_eq_push bytes h.empty, Window.length_push]
  omega

theorem Windows.write (h : r.Windows stream fresh) {bytes : List UInt8}
    (hcount : (stream ++ bytes).length ≤ u64Max) :
    (r.write bytes).1.Windows (stream ++ bytes) (fresh + bytes.length) := by
  rw [List.length_append] at hcount
  have hfresh := h.fresh_le
  have hdropped := h.dropped
  have hlength := h.write_add_length bytes
  refine ⟨?_, ?_, ?_, ?_⟩
  · rw [List.length_append]
    omega
  · rw [write_written, h.written, List.length_append]
    exact Nat.min_eq_left hcount
  · have hpush := Window.push_rtake r.capacity stream bytes
      (n := min r.capacity fresh) (by omega)
    rw [r.toList_write_eq_push bytes h.empty, h.retained, hpush, write_capacity]
    congr 1
    omega
  · rw [(r.write_lost bytes h.empty).2, List.length_append]
    split
    · rename_i hnone
      omega
    · have hsat : satAdd r.dropped (r.write bytes).2 = r.dropped + (r.write bytes).2 :=
        Nat.min_eq_left (by omega)
      omega

theorem Windows.clear (h : r.Windows stream fresh) (hcount : stream.length ≤ u64Max) :
    r.clear.Windows stream 0 := by
  have hdropped := h.dropped
  refine ⟨Nat.zero_le _, h.written, by simp [RingBuffer.clear], ?_⟩
  have hsat : satAdd r.dropped r.buf.len = r.dropped + r.buf.len := by
    refine Nat.min_eq_left ?_
    rw [VecDeque.len_eq]
    omega
  show satAdd r.dropped r.buf.len + 0 = stream.length
  rw [hsat, VecDeque.len_eq, Nat.add_zero]
  exact hdropped

theorem Windows.wrap (h : r.Windows stream fresh) (n : Nat) :
    Windows { r with buf := r.buf.wrap n } stream fresh := by
  refine ⟨h.fresh_le, h.written, ?_, ?_⟩
  · rw [VecDeque.toList_wrap]
    exact h.retained
  · rw [VecDeque.toList_wrap]
    exact h.dropped

/-- The offset of the oldest byte retained. -/
theorem Windows.earliestOffset_eq (h : r.Windows stream fresh) :
    r.earliestOffset = stream.length - r.buf.toList.length := by
  rw [earliestOffset, VecDeque.len_eq, h.written]

/-- What is retained from the offset `offset` on is the stream from there on. -/
theorem Windows.drop_retained (h : r.Windows stream fresh) {offset : Nat}
    (hoffset : r.earliestOffset ≤ offset) :
    r.buf.toList.drop (offset - r.earliestOffset) = stream.drop offset := by
  have hretained : r.buf.toList = stream.drop r.earliestOffset := by
    have hsuffix := Window.rtake_suffix stream (min r.capacity fresh)
    rw [← h.retained] at hsuffix
    rw [h.earliestOffset_eq]
    exact List.suffix_iff_eq_drop.mp hsuffix
  rw [hretained, List.drop_drop]
  congr 1
  omega

/-! ## All calls -/

/-- The buffer and the whole stream: the statement of what `RingBuffer` is for. -/
structure Refines (r : RingBuffer) (capacity : Nat) (stream : List UInt8) (fresh : Nat) : Prop where
  totalWritten : r.totalWritten = stream.length
  snapshot : r.snapshot = stream.rtake (min capacity fresh)
  length : r.snapshot.length = min capacity fresh
  totalDropped : r.totalDropped + r.snapshot.length = stream.length
  write : ∀ bytes, (r.write bytes).2 + (r.write bytes).1.snapshot.length =
    r.snapshot.length + bytes.length
  contiguous : ∀ offset, 0 < capacity → r.earliestOffset ≤ offset → offset ≤ stream.length →
    r.readSince offset = .contiguous (stream.drop offset) stream.length
  evicted : ∀ offset, 0 < capacity → offset < r.earliestOffset →
    r.readSince offset = .gap (r.earliestOffset - offset) r.snapshot stream.length
  ahead : ∀ offset, 0 < capacity → stream.length < offset →
    r.readSince offset = .gap 0 r.snapshot stream.length
  disabled : ∀ offset, capacity = 0 →
    r.readSince offset = .gap (stream.length - offset) [] stream.length
  writeChecked : ∀ bytes, r.write? bytes = some (r.write bytes)
  earliestChecked : r.earliestOffset? = some r.earliestOffset
  readChecked : ∀ offset, r.readSince? offset = some (r.readSince offset)

theorem Windows.refines (h : r.Windows stream fresh) : r.Refines r.capacity stream fresh where
  totalWritten := h.written
  snapshot := r.snapshot_eq.trans h.retained
  length := by rw [snapshot_eq, h.length]
  totalDropped := by
    rw [snapshot_eq]
    exact h.dropped
  write := by
    intro bytes
    rw [snapshot_eq, snapshot_eq]
    exact h.write_add_length bytes
  contiguous := by
    intro offset hcap hretained hle
    rw [readSince_of_retained hcap (h.written ▸ hle) hretained, h.drop_retained hretained, h.written]
  evicted := by
    intro offset hcap hevicted
    have hearliest := h.earliestOffset_eq
    have hle : ¬ stream.length < offset := by omega
    have hret : ¬ offset ≥ r.earliestOffset := Nat.not_le.mpr hevicted
    simp [readSince, retentionEnabled, hcap, hle, hret, h.written]
  ahead := by
    intro offset hcap hahead
    simp [readSince, retentionEnabled, hcap, h.written, hahead]
  disabled := by
    intro offset hcap
    simp [readSince, retentionEnabled, hcap, h.written]
  writeChecked := r.write?_eq
  earliestChecked := earliestOffset?_eq h.len_le
  readChecked := readSince?_eq h.len_le

theorem stream_append (calls more : List RingCall) :
    RingBuffer.stream (calls ++ more) = RingBuffer.stream calls ++ RingBuffer.stream more := by
  induction calls with
  | nil => rfl
  | cons c calls ih => cases c <;> simp [RingBuffer.stream, ih]

theorem sinceClear_append (before : Nat) (calls more : List RingCall) :
    sinceClear before (calls ++ more) = sinceClear (sinceClear before calls) more := by
  induction calls generalizing before with
  | nil => rfl
  | cons c calls ih => cases c <;> simp [sinceClear, ih]

theorem windows_run (capacity : Nat) {calls : List RingCall}
    (hcount : (RingBuffer.stream calls).length ≤ u64Max) :
    (run capacity calls).capacity = capacity ∧
      (run capacity calls).Windows (RingBuffer.stream calls) (sinceClear 0 calls) := by
  induction calls using List.reverseRecOn with
  | nil => exact ⟨rfl, windows_new capacity⟩
  | append_singleton calls c ih =>
    rw [stream_append] at hcount ⊢
    rw [sinceClear_append]
    have hrun : run capacity (calls ++ [c]) = (run capacity calls).call c := List.foldl_concat _ _ _ _
    rw [hrun]
    obtain ⟨hcap, hwindows⟩ := ih (by rw [List.length_append] at hcount; omega)
    cases c with
    | write bytes =>
      rw [show RingBuffer.stream [.write bytes] = bytes from List.append_nil bytes] at hcount ⊢
      exact ⟨(write_capacity _ _).trans hcap, hwindows.write hcount⟩
    | clear =>
      rw [show RingBuffer.stream [.clear] = [] from rfl, List.append_nil] at hcount ⊢
      exact ⟨hcap, hwindows.clear hcount⟩
    | wrap n =>
      rw [show RingBuffer.stream [.wrap n] = [] from rfl, List.append_nil]
      exact ⟨hcap, hwindows.wrap n⟩

/-- **The scrollback is a window of the stream.** After any writes and clears that write fewer
than `2 ^ 64` bytes. -/
theorem refines_run (capacity : Nat) (calls : List RingCall)
    (hcount : (RingBuffer.stream calls).length < 2 ^ 64) :
    (run capacity calls).Refines capacity (RingBuffer.stream calls) (sinceClear 0 calls) := by
  obtain ⟨hcap, hwindows⟩ := windows_run capacity (Nat.le_sub_one_of_lt hcount)
  have hrefines := hwindows.refines
  rw [hcap] at hrefines
  exact hrefines

/-- Room for four bytes, and six are written. -/
theorem refines_abcdef :
    (run 4 [.write [97, 98, 99, 100], .write [101, 102]]).snapshot = [99, 100, 101, 102] ∧
    (run 4 [.write [97, 98, 99, 100], .write [101, 102]]).Refines 4 [97, 98, 99, 100, 101, 102] 6 :=
  ⟨by decide, refines_run 4 [.write [97, 98, 99, 100], .write [101, 102]] (by decide)⟩

end RingBuffer

end OpenabPty
