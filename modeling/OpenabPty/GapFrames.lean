import OpenabPty.Delivery

/-!
# Where the gap frames of a backlog sit

Read from left to right, what the consumer of an `Outbound` gets tells a reader where in the
stream it is: bytes are right behind the bytes before them, and a gap takes it over exactly the
bytes that are missing. `try_next` looks for a gap and takes bytes under two holds of one lock,
and a push that drops bytes in between is reported too late.
-/

namespace OpenabPty

/-- An item as a reader of the stream sees it; a gap also says where it ends. -/
def Yield.pieces : Yield → List (Window.Piece UInt8)
  | .bytes start taken => [.out start taken]
  | .gap dropped head => [.skip dropped, .out head []]
  | .control _ | .close _ => []

namespace OutboundRun

variable {w w' : OutboundRun} {l : OutboundRun.Label}

/-- What the consumer got, as a reader sees it. -/
def pieces (w : OutboundRun) : List (Window.Piece UInt8) := w.yielded.flatMap Yield.pieces

/-- Where the reader is. -/
def position (w : OutboundRun) : Nat := Window.width w.pieces

/-- Between two gaps the bytes are contiguous, at each gap exactly as many bytes are missing as
it says, and no byte behind a loss comes before the gap that reports it. -/
def Exact (w : OutboundRun) : Prop := Window.Reads w.pushed 0 w.pieces

/-- The bytes that were dropped and are not reported yet. -/
def missing (w : OutboundRun) : Nat := w.head - w.position

/-- No bytes are taken while a loss that the gap check has not seen is unreported, and no gap is
too large for its counter. -/
def ReportsFirst (w : OutboundRun) (l : Label) : Prop :=
  l = .consume →
    match w.consumer with
    | .gap _ => w.missing < 2 ^ 64
    | .bytes _ => w.outbound.queue.buf ≠ [] → w.outbound.queue.unreportedDropped = 0
    | _ => True

/-! ## The invariant -/

/-- The reader is where the last report left it, and the counter has what came after it. -/
structure Aligned (w : OutboundRun) : Prop extends w.Queued where
  exact : w.Exact
  position_le : w.position ≤ w.head
  unreported : w.outbound.queue.unreportedDropped = min w.missing u64Max

theorem aligned_init (conn : ConnGeneration) (bounds : QueueBounds) : (init conn bounds).Aligned :=
  ⟨queued_init conn bounds, trivial, Nat.le_refl 0, rfl⟩

/-- What a push adds to the counter, which saturates. -/
theorem unreported_push {q : ByteQueue} (hbounded : q.buf.length ≤ q.bounds.capacityBytes)
    (hle : q.unreportedDropped ≤ u64Max) (bytes : List UInt8) :
    (q.push bytes).1.unreportedDropped = min (q.unreportedDropped + q.overflow bytes) u64Max := by
  rcases ByteQueue.push_cases hbounded bytes with ⟨-, hover, heq⟩ | ⟨-, heq⟩
  · rw [heq, hover, Nat.add_zero, Nat.min_eq_left hle]
  · rw [heq]
    rfl

theorem pieces_yield (item : Yield) : (w.yield item).pieces = w.pieces ++ item.pieces := by
  rw [pieces, yield, List.flatMap_append]
  simp [pieces]

theorem position_yield (item : Yield) :
    (w.yield item).position = w.position + Window.width item.pieces := by
  rw [position, pieces_yield, Window.width_append, position]

/-- An item is read from where the reader is. -/
theorem exact_yield_iff (hexact : w.Exact) (item : Yield) :
    (w.yield item).Exact ↔ Window.Reads w.pushed w.position item.pieces := by
  rw [Exact, pieces_yield]
  show Window.Reads w.pushed 0 (w.pieces ++ item.pieces) ↔ _
  rw [Window.reads_append, Nat.zero_add]
  exact and_iff_right hexact

/-- The rest of the state does not matter. -/
theorem Aligned.of_eq (h : w.Aligned) (hqueue : w'.outbound.queue = w.outbound.queue)
    (hpushed : w'.pushed = w.pushed) (hpieces : w'.pieces = w.pieces) : w'.Aligned := by
  obtain ⟨hqueued, hhead⟩ := h.toQueued.of_eq hqueue hpushed
  have hposition : w'.position = w.position := by rw [position, position, hpieces]
  refine ⟨hqueued, ?_, ?_, ?_⟩
  · rw [Exact, hpushed, hpieces]
    exact h.exact
  · rw [hposition, hhead]
    exact h.position_le
  · rw [missing, hqueue, hhead, hposition]
    exact h.unreported

theorem Aligned.push (h : w.Aligned) (i : Nat) (p : ProducerPc) (bytes : List UInt8) :
    Aligned ({ w.setQueue (w.outbound.queue.push bytes).1 with
      pushed := w.pushed ++ bytes }.goto i p) := by
  obtain ⟨hqueued, hhead⟩ := h.toQueued.push i p bytes
  have hle := h.position_le
  have hunreported := h.unreported
  refine ⟨hqueued, h.exact.mono bytes, ?_, ?_⟩
  · rw [hhead]
    exact hle.trans (Nat.le_add_right _ _)
  · show (w.outbound.queue.push bytes).1.unreportedDropped = min (head _ - w.position) u64Max
    rw [hhead, unreported_push h.bounded (by rw [hunreported]; exact Nat.min_le_right _ _),
      hunreported, missing]
    omega

/-- The gap is reported. -/
theorem Aligned.gap (h : w.Aligned) (hroom : w.missing < 2 ^ 64) :
    Aligned ((w.setQueue { w.outbound.queue with unreportedDropped := 0 }).yield
      (.gap w.outbound.queue.unreportedDropped w.head)) := by
  have hle := h.position_le
  have hall : w.outbound.queue.unreportedDropped = w.missing :=
    h.unreported.trans (Nat.min_eq_left (Nat.le_sub_one_of_lt hroom))
  have hhead : w.head = w.position + w.outbound.queue.unreportedDropped := by
    rw [hall, missing]
    omega
  have hposition : position ((w.setQueue { w.outbound.queue with unreportedDropped := 0 }).yield
      (.gap w.outbound.queue.unreportedDropped w.head)) = w.head := by
    rw [position_yield]
    show w.position + (w.outbound.queue.unreportedDropped + (0 + 0)) = w.head
    omega
  refine ⟨⟨h.bounded, h.suffix⟩, ?_, ?_, ?_⟩
  · exact (exact_yield_iff (w := w.setQueue _) h.exact _).mpr ⟨hhead, List.nil_prefix, trivial⟩
  · rw [hposition]
    exact Nat.le_refl w.head
  · show 0 = min (w.head - position _) u64Max
    rw [hposition, Nat.sub_self, Nat.zero_min]

/-- Bytes are taken. -/
theorem Aligned.bytes (h : w.Aligned) (hreported : w.outbound.queue.unreportedDropped = 0) :
    Aligned ((w.setQueue (w.outbound.queue.take readChunk).1).yield
      (.bytes w.head (w.outbound.queue.buf.take readChunk))) := by
  have hle := h.position_le
  have hlength := h.head_add_length
  have hnone : w.missing = 0 := by
    have hunreported := h.unreported
    have hmax : 0 < u64Max := by decide
    omega
  have hhead : w.head = w.position := by
    rw [missing] at hnone
    omega
  have hposition : position ((w.setQueue (w.outbound.queue.take readChunk).1).yield
      (.bytes w.head (w.outbound.queue.buf.take readChunk))) =
        w.position + (w.outbound.queue.buf.take readChunk).length := by
    rw [position_yield]
    rfl
  obtain ⟨hqueued, hnewHead⟩ := h.toQueued.bytes readChunk
    (.bytes w.head (w.outbound.queue.buf.take readChunk))
  refine ⟨hqueued, ?_, ?_, ?_⟩
  · refine (exact_yield_iff (w := w.setQueue _) h.exact _).mpr ⟨hhead, ?_, trivial⟩
    show w.outbound.queue.buf.take readChunk <+: w.pushed.drop w.position
    rw [← hhead, ← h.buf_eq]
    exact List.take_prefix _ _
  · rw [hposition, hnewHead]
    omega
  · show w.outbound.queue.unreportedDropped = min (head _ - position _) u64Max
    rw [hposition, hnewHead, hreported]
    omega

/-- One step. -/
theorem Aligned.next (h : w.Aligned) (hfirst : w.ReportsFirst l) (hnext : w.next l = some w') :
    w'.Aligned := by
  cases goes_of_next hnext with
  | pushBytes bytes => exact h.push _ _ bytes
  | gap inNext hpc _ =>
    have hroom := hfirst rfl
    rw [hpc] at hroom
    exact h.gap hroom
  | bytes inNext hpc hsome =>
    have hreported := hfirst rfl
    rw [hpc] at hreported
    exact h.bytes (hreported hsome)
  | control | emits =>
    refine h.of_eq rfl rfl ?_
    rw [pieces_yield]
    exact List.append_nil _
  | spawn | pushControl | closeFirst | closeAgain | notifyWaiters | notifyOne | call | noGap
  | noControl | noBytes | «open» | closed | emittedBefore | ends | listens | creates | polls | parks
  | wakes => exact h.of_eq rfl rfl rfl

/-- A step that takes bytes before a loss is reported, or reports too little. -/
theorem Aligned.inexact (h : w.Aligned) (hlate : ¬ w.ReportsFirst l)
    (hnext : w.next l = some w') : ¬ w'.Exact := by
  have hle := h.position_le
  have hunreported := h.unreported
  have hconsume : l = .consume := by
    by_contra hl
    exact hlate fun hc => absurd hc hl
  subst hconsume
  have hlate : ¬ _ := fun hfirst => hlate fun _ => hfirst
  cases goes_of_next hnext with
  | gap inNext hpc hsome =>
    rw [hpc] at hlate
    have hlost : 2 ^ 64 ≤ w.missing := Nat.not_lt.mp hlate
    have hmax : w.outbound.queue.unreportedDropped = u64Max :=
      hunreported.trans (Nat.min_eq_right (Nat.le_trans (Nat.sub_le _ _) hlost))
    intro hexact
    obtain ⟨hhead, -⟩ := (exact_yield_iff (w := w.setQueue _) h.exact _).mp hexact
    have hhead : w.head = w.position + w.outbound.queue.unreportedDropped := hhead
    rw [missing, hhead, hmax, u64Max] at hlost
    omega
  | noGap inNext hpc hnone =>
    rw [hpc] at hlate
    have hlost : 2 ^ 64 ≤ w.missing := Nat.not_lt.mp hlate
    rw [hnone, u64Max] at hunreported
    omega
  | bytes inNext hpc hsome =>
    rw [hpc] at hlate
    have hloss : w.outbound.queue.unreportedDropped ≠ 0 := fun h0 => hlate fun _ => h0
    intro hexact
    obtain ⟨hhead, -⟩ := (exact_yield_iff (w := w.setQueue _) h.exact _).mp hexact
    have hhead : w.head = w.position := hhead
    rw [missing, hhead, Nat.sub_self, Nat.zero_min] at hunreported
    exact hloss hunreported
  | noBytes inNext hpc hempty =>
    rw [hpc] at hlate
    exact absurd hempty (fun h0 => hlate fun hsome => absurd h0 hsome)
  | spawn p _ hc => exact absurd rfl hc
  | control inNext event rest hpc | noControl inNext hpc | «open» inNext hpc
  | closed inNext code hpc | emittedBefore inNext code hpc | emits inNext code hpc | ends hpc
  | listens hpc | creates hpc | polls seen hpc | parks seen hpc | wakes hpc =>
    rw [hpc] at hlate
    exact absurd trivial hlate

/-- **Gap frames sit where bytes are missing**, in every state of a run, exactly when in none of
its steps bytes are taken while a loss is unreported that a push caused after the gap check. -/
theorem exact_iff_reportsFirst (conn : ConnGeneration) (bounds : QueueBounds) (run : List Label) :
    Trace.AllStates next Exact (init conn bounds) run ↔
      Trace.AllSteps next ReportsFirst (init conn bounds) run :=
  Trace.allStates_iff_allSteps (fun _ h => h.exact) (fun _ _ _ h hc hn => h.next hc hn)
    (fun _ _ _ h hc hn => h.inexact hc hn) (aligned_init conn bounds)

/-! ## A push between the gap check and the byte take -/

/-- The consumer looks for a gap and for control frames, then a push drops a byte of a full
backlog, then the consumer takes bytes. -/
def lateLoss (full : List UInt8) : List Label :=
  [.pushBytes full, .produce 0, .pushBytes [1], .call false, .consume, .consume, .produce 1,
    .consume]

/-- A push of one byte into a full backlog takes the oldest one out. -/
theorem push_full {q : ByteQueue} {full : List UInt8} (hfull : q.bounds.capacityBytes = full.length)
    (hsome : full ≠ []) (hq : q.buf = full) (b : UInt8) :
    (q.push [b]).1 = { q with buf := full.drop 1 ++ [b] }.accountDrop 1 := by
  have hpos : full.length ≠ 0 := fun h0 => hsome (List.length_eq_zero_iff.mp h0)
  have hover : full.length + 1 - full.length = 1 := Nat.add_sub_cancel_left _ _
  have hone : min 1 full.length = 1 := Nat.min_eq_left (Nat.pos_of_ne_zero hpos)
  simp [ByteQueue.push, hfull, hq, hpos, hover, hone]

/-- The consumer gets the second byte first. -/
theorem run_lateLoss (conn : ConnGeneration) (bounds : QueueBounds) {full : List UInt8}
    (hfull : bounds.capacityBytes = full.length) (hsome : full ≠ []) :
    (Trace.run next (init conn bounds) (lateLoss full)).map pieces =
      some [.out 1 ((full.drop 1 ++ [1]).take readChunk)] := by
  have hpos : bounds.capacityBytes ≠ 0 := by
    rw [hfull]
    exact fun h0 => hsome (List.length_eq_zero_iff.mp h0)
  obtain ⟨q₁, hq₁, hbuf₁, hbounds₁, hnone⟩ : ∃ q₁, (ByteQueue.new bounds).push full = (q₁, .accepted) ∧
      q₁.buf = full ∧ q₁.bounds = bounds ∧ q₁.unreportedDropped = 0 :=
    ⟨_, ByteQueue.push_of_fits hpos (by simp [ByteQueue.new, hfull]), rfl, rfl, rfl⟩
  have hq₂ : (q₁.push [1]).1.buf = full.drop 1 ++ [1] := by
    rw [push_full (hbounds₁ ▸ hfull) hsome hbuf₁]
    rfl
  have hlate : full.length - (full.length - 1) = 1 := by
    have hlength := List.length_pos_iff.mpr hsome
    omega
  simp [lateLoss, Trace.run, next, spawn, init, produce, setQueue, goto, Outbound.new, hq₁, afterPush,
    consumeAt, consume, ByteQueue.takeUnreportedGap, hnone, ByteQueue.take, hq₂, readChunk, yield,
    pieces, Yield.pieces, head, hlate]

/-- With a full backlog of a session. -/
theorem lateLoss_inexact : ¬ Trace.AllStates next Exact (init ⟨1⟩ backlogBounds)
    (lateLoss (List.replicate (256 * 1024) 0)) := by
  intro hall
  have hsome : List.replicate (256 * 1024) (0 : UInt8) ≠ [] :=
    List.ne_nil_of_length_pos (by rw [List.length_replicate]; decide)
  have hrun := run_lateLoss ⟨1⟩ backlogBounds
    (by rw [List.length_replicate]; rfl) hsome
  obtain ⟨w, hexact, hpieces⟩ := hall.observe hrun
  rw [Exact, hpieces] at hexact
  exact absurd hexact.1 (by decide)

end OutboundRun

end OpenabPty
