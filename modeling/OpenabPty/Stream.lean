import OpenabPty.Effects

/-!
# The stream behind a scrollback

A scrollback is a window of everything that was ever written to it. The window ends at the last
byte written or is empty, so whatever `read_since` returns is what comes right before the
current offset.
-/

namespace OpenabPty

/-- `stream` is what was written to the buffer: the buffer has its end and counts its length,
until the counter saturates. -/
structure RingBuffer.Tracks (r : RingBuffer) (stream : List UInt8) : Prop where
  written : r.written = min stream.length u64Max
  suffix : r.buf.toList <:+ stream
  bound : r.buf.toList.length ≤ r.capacity

namespace RingBuffer

variable {r : RingBuffer} {stream : List UInt8}

theorem tracks_new (capacity : Nat) : (new capacity).Tracks [] :=
  ⟨rfl, List.suffix_refl [], Nat.zero_le capacity⟩

theorem satAdd_min (a b : Nat) : satAdd (min a u64Max) b = min (a + b) u64Max := by
  simp only [satAdd]
  omega

theorem Tracks.write (h : r.Tracks stream) (bytes : List UInt8) :
    (r.write bytes).1.Tracks (stream ++ bytes) := by
  have hwritten : (r.write bytes).1.written = min (stream ++ bytes).length u64Max := by
    rw [write_written, h.written, satAdd_min, List.length_append]
  by_cases hcap : r.capacity = 0
  · -- Nothing is retained.
    have hnil : r.buf.toList = [] := by
      have hbound := h.bound
      rw [hcap] at hbound
      exact List.length_eq_zero_iff.mp (Nat.le_zero.mp hbound)
    have hbuf : (r.write bytes).1.buf.toList = [] := by
      simp only [RingBuffer.write, hcap, if_true]
      exact hnil
    refine ⟨hwritten, ?_, ?_⟩
    · rw [hbuf]
      exact List.nil_suffix
    · rw [hbuf]
      exact Nat.zero_le _
  · have hbuf := r.toList_write bytes (Nat.pos_of_ne_zero hcap)
    refine ⟨hwritten, ?_, ?_⟩
    · rw [hbuf]
      obtain ⟨before, hbefore⟩ := h.suffix
      refine (List.drop_suffix _ _).trans ⟨before, ?_⟩
      rw [← List.append_assoc, hbefore]
    · rw [hbuf, write_capacity, List.length_drop, List.length_append]
      omega

/-- The counter of a stream that is short enough to be counted. -/
theorem Tracks.written_eq (h : r.Tracks stream) (hle : stream.length ≤ u64Max) :
    r.totalWritten = stream.length := h.written.trans (Nat.min_eq_left hle)

theorem Tracks.clear (h : r.Tracks stream) : r.clear.Tracks stream :=
  ⟨h.written, List.nil_suffix, Nat.zero_le _⟩

/-- What is retained is no longer than what was counted. -/
theorem Tracks.length_le (h : r.Tracks stream) (hcount : stream.length ≤ u64Max) :
    r.buf.toList.length ≤ r.written := by
  rw [h.written, Nat.min_eq_left hcount]
  exact h.suffix.length_le

/-- Any replay is the last part of the stream. -/
theorem Tracks.readSince_suffix (h : r.Tracks stream) (since : Nat) :
    (r.readSince since).bytes <:+ stream := by
  simp only [readSince]
  split
  · exact List.nil_suffix
  · split
    · rw [snapshot_eq]
      exact h.suffix
    · split
      · rw [sliceFrom_eq_drop]
        exact (List.drop_suffix _ _).trans h.suffix
      · rw [snapshot_eq]
        exact h.suffix

/-- Within retention a replay is the stream from the cursor on. -/
theorem Tracks.readSince_bytes (h : r.Tracks stream) (hcount : stream.length ≤ u64Max)
    {since : Nat} (hcap : 0 < r.capacity) (hle : since ≤ r.written)
    (hret : r.earliestOffset ≤ since) : (r.readSince since).bytes = stream.drop since := by
  rw [readSince_of_retained hcap hle hret]
  obtain ⟨before, hbefore⟩ := h.suffix
  have hlen := congrArg List.length hbefore
  rw [List.length_append] at hlen
  have hwritten : r.written = stream.length := h.written.trans (Nat.min_eq_left hcount)
  have hearliest : r.earliestOffset = before.length := by
    rw [earliestOffset, VecDeque.len_eq, hwritten]
    omega
  have hbeforeLe : before.length ≤ since := hearliest ▸ hret
  rw [Replay.bytes, hearliest, ← hbefore, List.drop_append, List.drop_eq_nil_of_le hbeforeLe,
    List.nil_append]

end RingBuffer

/-- `register_replay` hands out the end of the stream, if anything. -/
theorem Session.registerReplay_suffix {s : Session} {stream : List UInt8}
    (h : s.io.buffer.Tracks stream) (scrollbackReplay : Bool) (since : Option Nat) :
    ((s.registerReplay scrollbackReplay since).2.elim [] Replay.bytes) <:+ stream := by
  unfold registerReplay
  cases since with
  | some offset => exact h.readSince_suffix offset
  | none =>
    dsimp only
    split
    · exact h.readSince_suffix 0
    · exact List.nil_suffix

/-! ## In every session of the running program -/

/-- Every scrollback is the window of some stream. -/
def Shared.Tracked (sh : Shared) : Prop :=
  ∀ sid r, sh.buffer? sid = some r → ∃ stream, r.Tracks stream

namespace Shared

variable {sh sh' : Shared}

theorem Tracked.of_eq (h : sh.Tracked) (heq : ∀ sid, sh'.buffer? sid = sh.buffer? sid) :
    sh'.Tracked := by
  intro sid r hr
  rw [heq] at hr
  exact h sid r hr

/-- A change of one scrollback that keeps it a window. -/
theorem Tracked.modify (h : sh.Tracked) (sid : Sid) {g : RingBuffer → RingBuffer}
    (hg : ∀ r stream, r.Tracks stream → ∃ stream', (g r).Tracks stream')
    (heq : ∀ t, sh'.buffer? t = if sid = t then (sh.buffer? t).map g else sh.buffer? t) :
    sh'.Tracked := by
  intro t r hr
  rw [heq] at hr
  split at hr
  · obtain ⟨r₀, hr₀, rfl⟩ := Option.map_eq_some_iff.mp hr
    obtain ⟨stream, hstream⟩ := h t r₀ hr₀
    exact hg r₀ stream hstream
  · exact h t r hr

theorem Tracked.allocate (h : sh.Tracked) (env : Env) (name : SessionName)
    (generation : Generation) (size : WindowSize) :
    (sh.allocate env name generation size).1.Tracked := by
  intro sid r hr
  simp only [buffer?, heap_allocate] at hr
  split at hr
  · obtain rfl := Option.some.inj hr
    exact ⟨[], RingBuffer.tracks_new _⟩
  · exact h sid r hr

end Shared

section Step

variable {env : Env} {sh sh' : Shared}

open Shared

theorem Op.tracked_step {c : Choice} {op op' : Op} {ops : List Op} {sids : List Sid}
    (hI : sh.Tracked) (h : op.step env sh c = some (sh', op', ops, sids)) : sh'.Tracked := by
  have heffect := Op.effect_step h
  cases heffect with
  | spawn =>
    simp only [Op.step] at h
    split at h
    · cases h
    · rename_i sp _ hok
      obtain rfl := (Prod.mk.inj (Option.some.inj h)).1
      exact hI.allocate env _ _ _
  | clear _ _ _ hbuffer =>
    exact hI.modify _ (fun r stream hr => ⟨stream, hr.clear⟩) hbuffer
  | idle _ _ _ hbuffer | mint _ _ _ hbuffer | publish _ _ _ hbuffer
  | kill _ _ _ _ _ hbuffer | revoke _ _ _ hbuffer | renew _ _ _ _ hbuffer
  | renewMint _ _ _ hbuffer => exact hI.of_eq hbuffer

theorem Pump.tracked_step {chunk : Option (List UInt8)} {pump : Pump} {t : Task}
    (hI : sh.Tracked) (h : pump.step sh chunk = some (sh', t)) : sh'.Tracked := by
  obtain ⟨-, -, hbuffer | ⟨sid, bytes, -, hbuffer⟩⟩ := Pump.buffer_step h
  · exact hI.of_eq hbuffer
  · exact hI.modify sid (fun r stream hr => ⟨stream ++ bytes, hr.write bytes⟩) hbuffer

theorem Task.tracked_step {t t' : Task} {c : Input} {new : List Task} (hI : sh.Tracked)
    (h : Task.step env sh t c = some (sh', t', new)) : sh'.Tracked := by
  rcases step_cases h with ⟨op, op', ops, sids, -, hop, -, -⟩ | ⟨o, o', -, hconn, -, -⟩ |
    ⟨pump, -, hpump, -⟩
  · exact Op.tracked_step hI hop
  · exact hI.of_eq (Conn.step_calm hconn).buffer
  · exact Pump.tracked_step hI hpump

end Step

theorem World.tracked_next {env : Env} {w w' : World} {l : World.Label}
    (hI : w.shared.Tracked) (h : World.next env w l = some w') : w'.shared.Tracked := by
  cases l with
  | call t =>
    obtain ⟨-, rfl⟩ := Threads.next_call h
    exact hI
  | step i c =>
    obtain ⟨t, s', t', new, -, hs, rfl⟩ := Threads.next_step h
    exact Task.tracked_step hI hs
  | env e =>
    obtain rfl := Threads.next_env h
    exact hI

/-- A session between two sections: its fence is consistent, its scrollback a window of
`stream`. -/
structure Session.Ready (s : Session) (stream : List UInt8) : Prop where
  valid : s.fence.Valid
  tracks : s.io.buffer.Tracks stream

/-- Every session of the running program is, in every state of every run. -/
theorem World.ready_run (env : Env) (run : List World.Label) :
    Trace.AllStates (World.next env) (fun w => ∀ (sid : Sid) (s : Session),
      w.shared.heap[sid]? = some s → ∃ stream, s.Ready stream) World.init run := by
  have hinit : World.init.shared.FencesValid ∧ World.init.shared.Tracked :=
    ⟨fun _ _ hf => (nomatch hf), fun _ _ hr => (nomatch hr)⟩
  have hinv : Trace.AllStates (World.next env)
      (fun w => w.shared.FencesValid ∧ w.shared.Tracked) World.init run :=
    Trace.AllStates.of_next (fun _ _ _ hI h =>
      ⟨World.fencesValid_next hI.1 h, World.tracked_next hI.2 h⟩) hinit
  refine hinv.imp fun w hI sid s hs => ?_
  obtain ⟨stream, htracks⟩ := hI.2 sid s.io.buffer (by rw [Shared.buffer?, hs, Option.map_some])
  exact ⟨stream, hI.1 sid s.fence (Shared.fence?_eq hs), htracks⟩

end OpenabPty
