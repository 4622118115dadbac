import OpenabPty.RingBuf
import OpenabPty.Core.Window
import Mathlib.Data.List.Induction

/-!
# The backlog is a FIFO that drops its oldest bytes

For any calls of `push`, `take` and `take_unreported_gap`, the bytes taken out of a `ByteQueue`
are those pushed into it, in order, but for the bytes that its pushes dropped, and every byte is
accounted for: taken, queued or dropped, and dropped ones as reported or not.
-/

namespace OpenabPty

/-- The bytes that a push dropped. -/
def Push.bytesDropped : Push → Nat
  | .accepted => 0
  | .droppedOldest n | .hardWatermark n => n

namespace ByteQueue

variable {q : ByteQueue} {bytes : List UInt8}

/-- How many bytes are in the way of a push. -/
def overflow (q : ByteQueue) (bytes : List UInt8) : Nat :=
  q.buf.length + bytes.length - q.bounds.capacityBytes

/-- A push goes through without a loss or drops what is in the way. -/
theorem push_cases (hbounded : q.buf.length ≤ q.bounds.capacityBytes) (bytes : List UInt8) :
    (q.bounds.capacityBytes ≠ 0 ∧ q.overflow bytes = 0 ∧
      q.push bytes = ({ q with buf := Window.push q.bounds.capacityBytes q.buf bytes }, .accepted)) ∨
    ((q.bounds.capacityBytes = 0 ∨ 0 < q.overflow bytes) ∧
      q.push bytes =
        let q' := { q with buf := Window.push q.bounds.capacityBytes q.buf bytes }.accountDrop
          (q.overflow bytes)
        (q', q'.overflowOutcome (q.overflow bytes))) := by
  by_cases hcap : q.bounds.capacityBytes = 0
  · -- Nothing is kept.
    have hnil : q.buf = [] := by
      rw [hcap] at hbounded
      exact List.length_eq_zero_iff.mp (Nat.le_zero.mp hbounded)
    have hoverflow : q.overflow bytes = bytes.length := by simp [overflow, hnil, hcap]
    have hbuf : { q with buf := Window.push q.bounds.capacityBytes q.buf bytes } = q := by
      rw [Window.push, hcap, List.rtake_zero, ← hnil]
    refine .inr ⟨.inl hcap, ?_⟩
    rw [hoverflow, hbuf, ByteQueue.push, if_pos hcap]
  · by_cases hover : q.overflow bytes = 0
    · refine .inl ⟨hcap, hover, ?_⟩
      have hfits : q.buf.length + bytes.length ≤ q.bounds.capacityBytes :=
        Nat.sub_eq_zero_iff_le.mp hover
      rw [push_of_fits hcap hfits, Window.push_of_fits hfits]
    · refine .inr ⟨.inr (Nat.pos_of_ne_zero hover), ?_⟩
      -- What is dropped is the head of the queue, then the head of the bytes.
      have hbuf : q.buf.drop (min (q.overflow bytes) q.buf.length) ++
          bytes.drop (q.overflow bytes - min (q.overflow bytes) q.buf.length) =
            Window.push q.bounds.capacityBytes q.buf bytes := by
        rw [Window.push, List.rtake, List.length_append, List.drop_append]
        congr 1
        · rcases Nat.le_total (q.overflow bytes) q.buf.length with hle | hle
          · rw [Nat.min_eq_left hle]
            rfl
          · rw [Nat.min_eq_right hle, List.drop_length]
            exact (List.drop_eq_nil_of_le hle).symm
        · congr 1
          rw [overflow]
          omega
      have hover' : ¬ q.buf.length + bytes.length - q.bounds.capacityBytes = 0 := hover
      rw [← hbuf]
      simp only [ByteQueue.push, if_neg hcap, if_neg hover']
      rfl

/-- What a push leaves in the queue. -/
theorem push_buf (hbounded : q.buf.length ≤ q.bounds.capacityBytes) (bytes : List UInt8) :
    (q.push bytes).1.buf = Window.push q.bounds.capacityBytes q.buf bytes := by
  rcases push_cases hbounded bytes with ⟨-, -, heq⟩ | ⟨-, heq⟩
  · rw [heq]
  · rw [heq]
    rfl

/-- A push makes a gap due exactly when it drops something. -/
theorem push_unreported_eq_zero_iff (hbounded : q.buf.length ≤ q.bounds.capacityBytes) :
    (q.push bytes).1.unreportedDropped = 0 ↔ q.unreportedDropped = 0 ∧ q.overflow bytes = 0 := by
  have hmax : 0 < u64Max := by decide
  rcases push_cases hbounded bytes with ⟨-, hover, heq⟩ | ⟨-, heq⟩
  · rw [heq]
    exact (and_iff_left hover).symm
  · rw [heq]
    show min (q.unreportedDropped + q.overflow bytes) u64Max = 0 ↔ _
    omega

/-- What a push says it dropped. -/
theorem push_bytesDropped (hbounded : q.buf.length ≤ q.bounds.capacityBytes)
    (bytes : List UInt8) : (q.push bytes).2.bytesDropped = q.overflow bytes := by
  rcases push_cases hbounded bytes with ⟨-, hover, heq⟩ | ⟨-, heq⟩
  · rw [heq, hover]
    rfl
  · rw [heq]
    dsimp only
    unfold overflowOutcome
    split
    · split <;> rfl
    · rfl

/-- What a push adds to the two counters, while they have room for it. -/
theorem push_counters (hbounded : q.buf.length ≤ q.bounds.capacityBytes) (bytes : List UInt8)
    (hdropped : q.dropped + q.overflow bytes ≤ u64Max)
    (hunreported : q.unreportedDropped ≤ q.dropped) :
    (q.push bytes).1.dropped = q.dropped + q.overflow bytes ∧
      (q.push bytes).1.unreportedDropped = q.unreportedDropped + q.overflow bytes := by
  rcases push_cases hbounded bytes with ⟨-, hover, heq⟩ | ⟨-, heq⟩
  · rw [heq, hover]
    exact ⟨rfl, rfl⟩
  · rw [heq]
    have hroom : q.unreportedDropped + q.overflow bytes ≤ u64Max := by omega
    exact ⟨Nat.min_eq_left hdropped, Nat.min_eq_left hroom⟩

/-- A push says that the hard watermark is passed exactly when it drops something, or has to,
and the drops are past it. -/
theorem push_eq_hardWatermark_iff (hbounded : q.buf.length ≤ q.bounds.capacityBytes) {n : Nat} :
    (q.push bytes).2 = .hardWatermark n ↔
      n = q.overflow bytes ∧ (0 < q.overflow bytes ∨ q.bounds.capacityBytes = 0) ∧
        ∃ limit, q.bounds.maxDroppedBytes = some limit ∧ limit < (q.push bytes).1.dropped := by
  rcases push_cases hbounded bytes with ⟨hcap, hover, heq⟩ | ⟨hdrops, heq⟩
  · rw [heq, hover]
    constructor
    · intro h
      cases h
    · rintro ⟨-, hlt | hzero, -⟩
      · exact absurd hlt (Nat.lt_irrefl 0)
      · exact absurd hzero hcap
  · rw [heq]
    dsimp only
    generalize hq : ({ q with buf := Window.push q.bounds.capacityBytes q.buf bytes } :
      ByteQueue).accountDrop (q.overflow bytes) = q'
    have hbounds : q'.bounds = q.bounds := by rw [← hq]; rfl
    unfold overflowOutcome
    rw [hbounds]
    cases hlimit : q.bounds.maxDroppedBytes with
    | none =>
      constructor
      · intro h
        cases h
      · rintro ⟨-, -, limit, hsome, -⟩
        cases hsome
    | some limit =>
      dsimp only
      split
      · rename_i hpast
        constructor
        · intro h
          exact ⟨(Push.hardWatermark.inj h).symm, hdrops.symm, limit, rfl, hpast⟩
        · rintro ⟨rfl, -⟩
          rfl
      · rename_i hbelow
        constructor
        · intro h
          cases h
        · rintro ⟨-, -, limit', hsome, hpast⟩
          obtain rfl := Option.some.inj hsome
          exact absurd hpast hbelow

end ByteQueue

/-! ## All calls -/

inductive QueueCall where
  | push (bytes : List UInt8)
  | take (max : Nat)
  | takeUnreportedGap
  deriving DecidableEq, Repr

/-- A queue and what happened to it: what was pushed, what became of it in order, and the gaps
that were reported. -/
structure QueueRun where
  queue : ByteQueue
  pushed : List UInt8
  pieces : List (Window.Piece UInt8)
  reported : List Nat

namespace QueueRun

def init (bounds : QueueBounds) : QueueRun :=
  { queue := .new bounds, pushed := [], pieces := [], reported := [] }

/-- One call. The position of the bytes that are taken is that of the head of the queue, which
is the end of what was pushed. -/
def call (w : QueueRun) : QueueCall → QueueRun
  | .push bytes =>
    let r := w.queue.push bytes
    { w with
        queue := r.1
        pushed := w.pushed ++ bytes
        pieces := w.pieces ++ [.skip r.2.bytesDropped] }
  | .take max =>
    let r := w.queue.take max
    { w with
        queue := r.1
        pieces := w.pieces ++ [.out (w.pushed.length - w.queue.buf.length) r.2] }
  | .takeUnreportedGap =>
    let r := w.queue.takeUnreportedGap
    { w with queue := r.1, reported := w.reported ++ r.2.toList }

def run (bounds : QueueBounds) (calls : List QueueCall) : QueueRun :=
  calls.foldl call (init bounds)

/-- Everything that some calls push. -/
def stream : List QueueCall → List UInt8
  | [] => []
  | .push bytes :: calls => bytes ++ stream calls
  | .take _ :: calls | .takeUnreportedGap :: calls => stream calls

/-- What was taken out, in order. -/
def taken (w : QueueRun) : List UInt8 := w.pieces.flatMap Window.Piece.elements

/-- Every byte pushed is accounted for. -/
structure Accounts (w : QueueRun) : Prop where
  bounded : w.queue.buf.length ≤ w.queue.bounds.capacityBytes
  reads : Window.Reads w.pushed 0 w.pieces
  rest : w.queue.buf = w.pushed.drop (Window.width w.pieces)
  width_le : Window.width w.pieces ≤ w.pushed.length
  dropped : w.queue.dropped = (w.pieces.map Window.Piece.skipped).sum
  reported : w.reported.sum + w.queue.unreportedDropped = w.queue.dropped

variable {w : QueueRun}

theorem accounts_init (bounds : QueueBounds) : (init bounds).Accounts :=
  ⟨Nat.zero_le _, trivial, rfl, Nat.le_refl _, rfl, rfl⟩

/-- What is queued is what has neither been taken nor dropped. -/
theorem Accounts.length (h : w.Accounts) :
    Window.width w.pieces + w.queue.buf.length = w.pushed.length := by
  have hle := h.width_le
  rw [h.rest, List.length_drop]
  omega

theorem Accounts.dropped_le (h : w.Accounts) : w.queue.dropped ≤ Window.width w.pieces := by
  rw [h.dropped, Window.width_eq]
  exact Nat.le_add_left _ _

theorem Accounts.push (h : w.Accounts) {bytes : List UInt8}
    (hcount : (w.pushed ++ bytes).length ≤ u64Max) : (w.call (.push bytes)).Accounts := by
  have hlength := h.length
  have hdropped := h.dropped_le
  have hreported := h.reported
  have hover : w.queue.overflow bytes ≤ w.queue.buf.length + bytes.length := Nat.sub_le _ _
  rw [List.length_append] at hcount
  obtain ⟨hcounter, hunreported⟩ := ByteQueue.push_counters h.bounded bytes (by omega) (by omega)
  have hbuf := ByteQueue.push_buf h.bounded bytes
  have hsaid := ByteQueue.push_bytesDropped h.bounded bytes
  refine ⟨?_, ?_, ?_, ?_, ?_, ?_⟩
  · show (w.queue.push bytes).1.buf.length ≤ (w.queue.push bytes).1.bounds.capacityBytes
    rw [hbuf, ByteQueue.push_bounds, Window.length_push]
    exact Nat.min_le_left _ _
  · exact Window.reads_append.mpr ⟨h.reads.mono bytes, trivial⟩
  · show (w.queue.push bytes).1.buf = (w.pushed ++ bytes).drop (Window.width (w.pieces ++ [_]))
    rw [hbuf, Window.width_append, Window.width_singleton, Window.Piece.width, hsaid, ← List.drop_drop,
      List.drop_append_of_le_length h.width_le, ← h.rest, Window.push, List.rtake, List.length_append]
    rfl
  · show Window.width (w.pieces ++ [_]) ≤ (w.pushed ++ bytes).length
    rw [Window.width_append, Window.width_singleton, Window.Piece.width, hsaid, List.length_append]
    omega
  · show (w.queue.push bytes).1.dropped = ((w.pieces ++ [_]).map Window.Piece.skipped).sum
    rw [hcounter, h.dropped, List.map_append, List.sum_append, List.map_singleton,
      List.sum_singleton, Window.Piece.skipped, hsaid]
  · show w.reported.sum + (w.queue.push bytes).1.unreportedDropped = (w.queue.push bytes).1.dropped
    rw [hcounter, hunreported]
    omega

theorem Accounts.take (h : w.Accounts) (max : Nat) : (w.call (.take max)).Accounts := by
  have hlength := h.length
  have hhead : w.pushed.length - w.queue.buf.length = 0 + Window.width w.pieces := by omega
  refine ⟨?_, ?_, ?_, ?_, ?_, h.reported⟩
  · show (w.queue.buf.drop max).length ≤ w.queue.bounds.capacityBytes
    have hbounded := h.bounded
    rw [List.length_drop]
    omega
  · refine Window.reads_append.mpr ⟨h.reads, hhead, ?_, trivial⟩
    show w.queue.buf.take max <+: w.pushed.drop (0 + Window.width w.pieces)
    rw [Nat.zero_add, ← h.rest]
    exact List.take_prefix _ _
  · show w.queue.buf.drop max = w.pushed.drop (Window.width (w.pieces ++ [_]))
    rw [Window.width_append, Window.width_singleton, Window.Piece.width, ← List.drop_drop, ← h.rest]
    show w.queue.buf.drop max = w.queue.buf.drop (w.queue.buf.take max).length
    rw [List.length_take]
    rcases Nat.le_total max w.queue.buf.length with hle | hle
    · rw [Nat.min_eq_left hle]
    · rw [Nat.min_eq_right hle, List.drop_length, List.drop_eq_nil_of_le hle]
  · show Window.width (w.pieces ++ [_]) ≤ w.pushed.length
    rw [Window.width_append, Window.width_singleton, Window.Piece.width]
    show _ + (w.queue.buf.take max).length ≤ _
    rw [List.length_take]
    omega
  · show w.queue.dropped = ((w.pieces ++ [_]).map Window.Piece.skipped).sum
    rw [List.map_append, List.sum_append, List.map_singleton, List.sum_singleton,
      Window.Piece.skipped, Nat.add_zero]
    exact h.dropped

theorem Accounts.takeUnreportedGap (h : w.Accounts) : (w.call .takeUnreportedGap).Accounts := by
  have hreported := h.reported
  by_cases hnone : w.queue.unreportedDropped = 0
  · have hcall : w.call .takeUnreportedGap = w := by
      simp [call, ByteQueue.takeUnreportedGap, hnone]
    rw [hcall]
    exact h
  · have hgap : w.queue.takeUnreportedGap =
        ({ w.queue with unreportedDropped := 0 }, some w.queue.unreportedDropped) := if_neg hnone
    simp only [call, hgap]
    refine ⟨h.bounded, h.reads, h.rest, h.width_le, h.dropped, ?_⟩
    show (w.reported ++ [w.queue.unreportedDropped]).sum + 0 = w.queue.dropped
    rw [List.sum_append, List.sum_singleton]
    exact hreported

/-- A call keeps the bounds and pushes what it pushes. -/
theorem call_frame (c : QueueCall) :
    (w.call c).queue.bounds = w.queue.bounds ∧ (w.call c).pushed = w.pushed ++ stream [c] := by
  cases c with
  | push bytes => exact ⟨ByteQueue.push_bounds _ _, by simp [call, stream]⟩
  | take max => exact ⟨rfl, by simp [call, stream]⟩
  | takeUnreportedGap =>
    refine ⟨?_, by simp [call, stream]⟩
    simp only [call, ByteQueue.takeUnreportedGap]
    split <;> rfl

theorem Accounts.call (h : w.Accounts) {c : QueueCall}
    (hcount : (w.pushed ++ stream [c]).length ≤ u64Max) : (w.call c).Accounts := by
  cases c with
  | push bytes => exact h.push (by simpa [stream] using hcount)
  | take max => exact h.take max
  | takeUnreportedGap => exact h.takeUnreportedGap

theorem stream_append (calls more : List QueueCall) :
    stream (calls ++ more) = stream calls ++ stream more := by
  induction calls with
  | nil => rfl
  | cons c calls ih => cases c <;> simp [stream, ih]

theorem accounts_run (bounds : QueueBounds) {calls : List QueueCall}
    (hcount : (stream calls).length ≤ u64Max) :
    (run bounds calls).Accounts ∧ (run bounds calls).queue.bounds = bounds ∧
      (run bounds calls).pushed = stream calls := by
  induction calls using List.reverseRecOn with
  | nil => exact ⟨accounts_init bounds, rfl, rfl⟩
  | append_singleton calls c ih =>
    have hrun : run bounds (calls ++ [c]) = (run bounds calls).call c := List.foldl_concat _ _ _ _
    rw [stream_append] at hcount ⊢
    obtain ⟨haccounts, hbounds, hpushed⟩ := ih (by rw [List.length_append] at hcount; omega)
    obtain ⟨hsame, hmore⟩ := (run bounds calls).call_frame c
    rw [hrun, hsame, hmore, hpushed]
    exact ⟨haccounts.call (by rw [hpushed]; exact hcount), hbounds, rfl⟩

/-- What a `ByteQueue` is for. -/
structure Fifo (w : QueueRun) (bounds : QueueBounds) (pushed : List UInt8) : Prop where
  bounded : w.queue.buf.length ≤ bounds.capacityBytes
  /-- In push order, with exactly the dropped bytes missing. -/
  order : Window.Reads pushed 0 w.pieces
  queued : w.queue.buf = pushed.drop (Window.width w.pieces)
  missing : w.queue.dropped = (w.pieces.map Window.Piece.skipped).sum
  conserved : w.taken.length + w.queue.buf.length + w.queue.dropped = pushed.length
  reported : w.reported.sum + w.queue.unreportedDropped = w.queue.dropped
  watermark : ∀ bytes n, (pushed ++ bytes).length < 2 ^ 64 →
    ((w.queue.push bytes).2 = .hardWatermark n ↔
      n = (w.queue.push bytes).1.dropped - w.queue.dropped ∧
      (w.queue.dropped < (w.queue.push bytes).1.dropped ∨ bounds.capacityBytes = 0) ∧
        ∃ limit, bounds.maxDroppedBytes = some limit ∧ limit < (w.queue.push bytes).1.dropped)

theorem Accounts.fifo (h : w.Accounts) : w.Fifo w.queue.bounds w.pushed where
  bounded := h.bounded
  order := h.reads
  queued := h.rest
  missing := h.dropped
  conserved := by
    have hlength := h.length
    rw [Window.width_eq, ← h.dropped] at hlength
    rw [taken]
    omega
  reported := h.reported
  watermark := by
    intro bytes n hcount
    have hcount : (w.pushed ++ bytes).length ≤ u64Max := Nat.le_sub_one_of_lt hcount
    rw [List.length_append] at hcount
    have hlength := h.length
    have hdropped := h.dropped_le
    have hreported := h.reported
    have hover : w.queue.overflow bytes ≤ w.queue.buf.length + bytes.length := Nat.sub_le _ _
    obtain ⟨hcounter, -⟩ := ByteQueue.push_counters h.bounded bytes (by omega) (by omega)
    rw [ByteQueue.push_eq_hardWatermark_iff h.bounded, hcounter, Nat.add_sub_cancel_left]
    simp only [Nat.lt_add_right_iff_pos]

/-- **The backlog is a bounded FIFO that drops its oldest bytes.** After any calls that push
fewer than `2 ^ 64` bytes. -/
theorem fifo_run (bounds : QueueBounds) (calls : List QueueCall)
    (hcount : (stream calls).length < 2 ^ 64) :
    (run bounds calls).Fifo bounds (stream calls) := by
  obtain ⟨haccounts, hbounds, hpushed⟩ := accounts_run bounds (Nat.le_sub_one_of_lt hcount)
  have hfifo := haccounts.fifo
  rw [hbounds, hpushed] at hfifo
  exact hfifo

/-- Room for four bytes; seven are pushed, and the loss of three is reported once. -/
theorem fifo_abcdefg :
    (run { capacityBytes := 4, maxDroppedBytes := none }
      [.push [97, 98, 99, 100], .push [101, 102, 103], .takeUnreportedGap, .take 2]).pieces =
        [.skip 0, .skip 3, .out 3 [100, 101]] ∧
    (run { capacityBytes := 4, maxDroppedBytes := none }
      [.push [97, 98, 99, 100], .push [101, 102, 103], .takeUnreportedGap, .take 2]).Fifo
        { capacityBytes := 4, maxDroppedBytes := none } [97, 98, 99, 100, 101, 102, 103] :=
  ⟨by decide, fifo_run { capacityBytes := 4, maxDroppedBytes := none }
    [.push [97, 98, 99, 100], .push [101, 102, 103], .takeUnreportedGap, .take 2] (by decide)⟩

end QueueRun

end OpenabPty
