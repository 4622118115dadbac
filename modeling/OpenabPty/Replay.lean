import OpenabPty.Attaching

/-!
# What a replay delivers

The scrollback of a session and the backlog of a connection are bounded independently: 1024
KiB by default against 256 KiB. An attach pushes the whole replay at once, into a queue that
drops its oldest bytes.
-/

namespace OpenabPty

/-- The gap frame that comes before the bytes of a replay. -/
def Replay.gapFrames : Replay → List OutboundItem
  | .contiguous _ _ => []
  | .gap dropped _ _ => [.control (.gap dropped)]

/-- The attach delivers the replay: the notice, the gap frame if there is one, and the bytes
of the replay, over a connection that stays open. -/
def Session.Delivers (s : Session) (replay : Replay) : Prop :=
  ∃ (o : Outbound) (chunks : List (List UInt8)), s.newest = some o ∧ o.closeCode = none ∧
    o.drain = .control s.attachNotice :: replay.gapFrames ++ chunks.map .bytes ∧
    chunks.flatten = replay.bytes

/-- Every attach with a cursor delivers what the scrollback has from the cursor on. -/
def World.HonoursCursors (env : Env) (w : World) : Prop :=
  ∀ (sid : Sid) (s s' : Session) (generation : Generation) (size : WindowSize) (since : Nat)
    (now : Instant) (conn : ConnGeneration) (offset : Nat), w.shared.heap[sid]? = some s →
    s.attachWithReplay env.policy env.config.scrollbackReplay generation size (some since) now =
      (s', .ok (conn, offset)) → s'.Delivers (s.io.buffer.readSince since)

/-- The most a fresh connection takes in. -/
def backlogBytes : Nat := outboundBacklogKib * 1024

namespace Outbound

theorem greet_contiguous (o : Outbound) (notice : ControlEvent) (bytes : List UInt8)
    (toOffset : Nat) : o.greet notice (some (.contiguous bytes toOffset)) =
      (o.pushControl notice).pushBytes bytes := rfl

theorem greet_gap (o : Outbound) (notice : ControlEvent) (dropped : Nat) (bytes : List UInt8)
    (toOffset : Nat) : o.greet notice (some (.gap dropped bytes toOffset)) =
      ((o.pushControl notice).pushControl (.gap dropped)).pushBytes bytes := rfl

/-- A push to a fresh backlog that holds it. -/
theorem pushBytes_fresh {o : Outbound} (ho : o.queue = .new backlogBounds) {bytes : List UInt8}
    (h : bytes.length ≤ backlogBytes) :
    o.pushBytes bytes = { o with queue := { ByteQueue.new backlogBounds with buf := bytes } } := by
  have hcap : (ByteQueue.new backlogBounds).bounds.capacityBytes ≠ 0 := by decide
  have hfit : (ByteQueue.new backlogBounds).buf.length + bytes.length ≤
      (ByteQueue.new backlogBounds).bounds.capacityBytes :=
    Nat.le_trans (Nat.le_of_eq (Nat.zero_add _)) h
  simp only [pushBytes, ho, ByteQueue.push_of_fits hcap hfit]
  rfl

/-- A push that is longer than the backlog leaves a gap to report. -/
theorem unreported_pushBytes {o : Outbound} (ho : o.queue = .new backlogBounds)
    {bytes : List UInt8} (h : backlogBytes < bytes.length) :
    (o.pushBytes bytes).queue.unreportedDropped ≠ 0 := by
  rw [pushBytes_queue, ho]
  refine ByteQueue.unreported_push_of_overflow ?_ (List.length_pos_iff.mp (Nat.zero_lt_of_lt h))
  exact Nat.lt_of_lt_of_le h (Nat.le_add_left _ _)

/-- An open connection with its bytes in place drains to its control frames and the bytes. -/
theorem drain_greeted {o : Outbound} (hgap : o.queue.unreportedDropped = 0)
    (hopen : o.closeCode = none) :
    ∃ chunks : List (List UInt8),
      o.drain = o.controls.map .control ++ chunks.map .bytes ∧ chunks.flatten = o.queue.buf := by
  obtain ⟨chunks, hdrain, hflat⟩ := drain_bytes (o := { o with controls := [] }) hgap rfl hopen
  exact ⟨chunks, by rw [drain_controls hgap, hdrain], hflat⟩

/-- A replay that fits is accepted as a whole. -/
theorem greet_of_fits (conn : ConnGeneration) (notice : ControlEvent) {replay : Replay}
    (h : replay.bytes.length ≤ backlogBytes) :
    ((new conn backlogBounds).greet notice (some replay)).closeCode = none ∧
    ∃ chunks : List (List UInt8),
      ((new conn backlogBounds).greet notice (some replay)).drain =
        .control notice :: replay.gapFrames ++ chunks.map .bytes ∧
      chunks.flatten = replay.bytes := by
  cases replay with
  | contiguous bytes toOffset =>
    simp only [Replay.bytes] at h ⊢
    rw [greet_contiguous, pushBytes_fresh (by simp) h]
    exact ⟨rfl, drain_greeted rfl rfl⟩
  | gap dropped bytes toOffset =>
    simp only [Replay.bytes] at h ⊢
    rw [greet_gap, pushBytes_fresh (by simp) h]
    exact ⟨rfl, drain_greeted rfl rfl⟩

/-- A replay that does not fit loses its oldest bytes, and the client hears of it first. -/
theorem greet_of_overflow (conn : ConnGeneration) (notice : ControlEvent) {replay : Replay}
    (h : backlogBytes < replay.bytes.length) :
    ∃ dropped, ((new conn backlogBounds).greet notice (some replay)).drain.head? =
      some (.control (.gap dropped)) := by
  cases replay with
  | contiguous bytes toOffset =>
    simp only [Replay.bytes] at h
    rw [greet_contiguous]
    exact ⟨_, drain_of_gap (unreported_pushBytes (by simp) h)⟩
  | gap dropped bytes toOffset =>
    simp only [Replay.bytes] at h
    rw [greet_gap]
    exact ⟨_, drain_of_gap (unreported_pushBytes (by simp) h)⟩

end Outbound

/-- An attach delivers its replay exactly when the backlog of the connection holds it. -/
theorem Session.delivers_iff {s s' : Session} {policy : SessionPolicy} {scrollbackReplay : Bool}
    {generation : Generation} {size : WindowSize} {since : Nat} {now : Instant}
    {conn : ConnGeneration} {offset : Nat} (hv : s.fence.Valid)
    (h : s.attachWithReplay policy scrollbackReplay generation size (some since) now =
      (s', .ok (conn, offset))) :
    s'.Delivers (s.io.buffer.readSince since) ↔
      (s.io.buffer.readSince since).bytes.length ≤ backlogBytes := by
  obtain ⟨-, -, -, hnotice, hnewest⟩ := attachWithReplay_ok hv h
  rw [show (s.registerReplay scrollbackReplay (some since)).2 = some (s.io.buffer.readSince since)
    from rfl] at hnewest
  constructor
  · rintro ⟨o, chunks, ho, -, hdrain, -⟩
    by_contra hlong
    obtain ⟨dropped, hhead⟩ :=
      Outbound.greet_of_overflow conn s.attachNotice (Nat.not_le.mp hlong)
    obtain rfl := Option.some.inj (ho.symm.trans hnewest)
    rw [hdrain] at hhead
    cases hhead
  · intro hfits
    obtain ⟨hopen, chunks, hdrain, hflat⟩ := Outbound.greet_of_fits conn s.attachNotice hfits
    exact ⟨_, chunks, hnewest, hopen, by rw [hdrain, hnotice], hflat⟩

/-- In every state of every run, an attach with a cursor delivers what the scrollback has from
the cursor on exactly when that is at most what the backlog of a connection holds. -/
theorem delivers_iff_fitsBacklog (env : Env) (run : List World.Label) :
    Trace.AllStates (World.next env) (fun w => ∀ (sid : Sid) (s s' : Session)
      (generation : Generation) (size : WindowSize) (since : Nat) (now : Instant)
      (conn : ConnGeneration) (offset : Nat), w.shared.heap[sid]? = some s →
      s.attachWithReplay env.policy env.config.scrollbackReplay generation size (some since) now =
        (s', .ok (conn, offset)) →
      (s'.Delivers (s.io.buffer.readSince since) ↔
        (s.io.buffer.readSince since).bytes.length ≤ backlogBytes)) World.init run := by
  refine (World.fencesValid_run env run).imp fun w hv => ?_
  intro sid s s' generation size since now conn offset hs h
  exact Session.delivers_iff (hv sid s.fence (Shared.fence?_eq hs)) h

/-! ## A replay that is too long -/

/-- `n` chunks of `READ_CHUNK` bytes of output. -/
def fullChunks (n : Nat) : List World.Label :=
  (List.replicate n (outputLabels 1 (List.replicate readChunk 0))).flatten

/-- A session that nobody has attached to, with `n` bytes of output in its scrollback. -/
structure Session.Logged (s : Session) (n : Nat) : Prop where
  generation : s.state.generation = ⟨1⟩
  owner : s.state.ownerConn = ⟨0⟩
  subscriber : s.io.subscriber = none
  capacity : s.io.buffer.capacity = 1024 * 1024
  written : s.io.buffer.written = n
  length : s.io.buffer.buf.toList.length = n

/-- The scrollback still has the stream from its start. -/
theorem Session.Logged.readSince_zero {s : Session} {n : Nat} (h : s.Logged n) :
    (s.io.buffer.readSince 0).bytes.length = n := by
  have hcap : 0 < s.io.buffer.capacity := by
    rw [h.capacity]
    decide
  have hearliest : s.io.buffer.earliestOffset = 0 := by
    rw [RingBuffer.earliestOffset, VecDeque.len_eq, h.written, h.length, Nat.sub_self]
  rw [RingBuffer.readSince_of_retained hcap (Nat.zero_le _) (Nat.le_of_eq hearliest)]
  rw [hearliest]
  exact h.length

/-- More output, within the retention. -/
theorem Session.Logged.output {s : Session} {n : Nat} (h : s.Logged n) (bytes : List UInt8)
    (hfit : n + bytes.length ≤ 1024 * 1024) (now : Instant) :
    (s.onOutput bytes now).Logged (n + bytes.length) := by
  have heq : s.onOutput bytes now = (s.writeBuffer bytes).touch now := by
    simp only [onOutput]
    rw [show ((s.writeBuffer bytes).touch now).io.subscriber = none from h.subscriber]
  have hcap : 0 < s.io.buffer.capacity := by
    rw [h.capacity]
    decide
  rw [heq]
  refine ⟨h.generation, h.owner, h.subscriber, ?_, ?_, ?_⟩
  · exact (s.io.buffer.write_capacity bytes).trans h.capacity
  · show (s.io.buffer.write bytes).1.written = _
    have hmax : 1024 * 1024 ≤ u64Max := by decide
    rw [RingBuffer.write_written, h.written, satAdd]
    omega
  · show (s.io.buffer.write bytes).1.buf.toList.length = _
    rw [RingBuffer.toList_write _ _ hcap, List.length_drop, List.length_append, h.length, h.capacity]
    omega

/-- A pump that forwards chunk after chunk. -/
theorem World.run_fullChunks (n : Nat) {w : World} {s : Session} {m : Nat}
    (ht : w.tasks[1]? = some (.pump (.idle 0))) (hs : w.shared.heap[0]? = some s) (hl : s.Logged m)
    (hfit : m + n * readChunk ≤ 1024 * 1024) :
    ∃ w' s', Trace.run (World.next .default) w (fullChunks n) = some w' ∧
      w'.shared.heap[0]? = some s' ∧ s'.Logged (m + n * readChunk) := by
  induction n generalizing w s m with
  | zero => exact ⟨w, s, rfl, hs, by rwa [Nat.zero_mul, Nat.add_zero]⟩
  | succ n ih =>
    obtain ⟨w₁, hrun, ht₁, hs₁⟩ :=
      run_output .default ht hs (List.replicate readChunk 0)
    rw [Nat.succ_mul] at hfit
    have hl₁ := hl.output (List.replicate readChunk 0)
      (by rw [List.length_replicate]; omega) w.shared.now
    rw [List.length_replicate] at hl₁
    obtain ⟨w', s', hrun', hs', hl'⟩ := ih ht₁ hs₁ hl₁ (by omega)
    refine ⟨w', s', ?_, hs', ?_⟩
    · rw [fullChunks, List.replicate_succ, List.flatten_cons, Trace.run_append, hrun,
        Option.bind_some]
      exact hrun'
    · rw [Nat.succ_mul, Nat.add_comm (n * readChunk), ← Nat.add_assoc]
      exact hl'

/-- A create of `sh` that runs to its end. -/
def createSh : List World.Label :=
  [.call (.op (.claimName { name := .sh, size := .default, origin := .create })),
   .step 0 {}, .step 0 {}, .step 0 {}, .step 0 {}, .step 0 {}]

/-- What a create leaves: a session that nobody has attached to, and its pump. -/
theorem World.run_createSh : ∃ w s, Trace.run (World.next .default) World.init createSh = some w ∧
    w.tasks[1]? = some (.pump (.idle 0)) ∧ w.shared.heap[0]? = some s ∧ s.Logged 0 := by
  have htask : (Trace.run (World.next .default) World.init createSh).bind (·.tasks[1]?) =
      some (.pump (.idle 0)) := rfl
  have hsession : (Trace.run (World.next .default) World.init createSh).bind (fun w =>
      w.shared.heap[0]?.map fun s => (s.state.generation, s.state.ownerConn, s.io.subscriber,
        s.io.buffer)) = some (⟨1⟩, ⟨0⟩, none, .new (1024 * 1024)) := by decide +kernel
  obtain ⟨w, hrun, ht⟩ := Option.bind_eq_some_iff.mp htask
  rw [hrun, Option.bind_some] at hsession
  obtain ⟨s, hs, hf⟩ := Option.map_eq_some_iff.mp hsession
  obtain ⟨hgen, howner, hsub, hbuf⟩ : _ ∧ _ ∧ _ ∧ _ := by simpa only [Prod.mk.injEq] using hf
  exact ⟨w, s, hrun, ht, hs, hgen, howner, hsub, by rw [hbuf, RingBuffer.new_capacity],
    by rw [hbuf, RingBuffer.new_written], by rw [hbuf, RingBuffer.new_toList, List.length_nil]⟩

/-- `sh` is created and prints 17 chunks of 16 KiB. -/
def longOutput : List World.Label := createSh ++ fullChunks 17

/-- An attach from offset 0, which is retained, does not deliver what is retained. -/
theorem longOutput_undelivered :
    ¬ Trace.AllStates (World.next .default) (World.HonoursCursors .default) World.init
      longOutput := by
  intro h
  obtain ⟨w, s, hrun, ht, hs, hl⟩ := World.run_createSh
  obtain ⟨w', s', hrun', hs', hl'⟩ := World.run_fullChunks 17 ht hs hl (by decide)
  have hlast : Trace.run (World.next .default) World.init longOutput = some w' := by
    rw [longOutput, Trace.run_append, hrun, Option.bind_some, hrun']
  have hv : s'.fence.Valid :=
    (World.fencesValid_run .default longOutput).last hlast 0 s'.fence (Shared.fence?_eq hs')
  obtain ⟨s₁, conn, offset, hok⟩ := Session.attachWithReplay_of_free
    Env.default.policy Env.default.config.scrollbackReplay .default (some 0) w'.shared.now hv
    hl'.generation hl'.owner
  have hdelivers := h.last hlast 0 s' s₁ ⟨1⟩ .default 0 w'.shared.now conn offset hs' hok
  -- Everything written is retained, and that is more than the backlog holds.
  have hshort := (Session.delivers_iff hv hok).mp hdelivers
  rw [hl'.readSince_zero] at hshort
  exact absurd hshort (by decide)

end OpenabPty
