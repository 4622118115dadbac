import OpenabPty.Mux
import OpenabPty.ToolsHub

/-!
# Whether a Mac is there (`serve_attached` in `tools.rs`)

The loop that reads the socket of a Mac, next to everybody else who uses the socket. Any frame is a
sign of life; ticks at which there was none are counted, whether or not a request is in flight, and
when there are too many of them in a row the loop closes the socket.
-/

namespace OpenabPty

/-- `MAX_MISSED_PINGS`. -/
def maxMissedPings : Nat := 3

/-- A frame of the Mac; of text and of bytes, what `serde_json` makes of them. -/
inductive MacFrame where
  | text (value : Option Json)
  | binary (value : Option Json)
  | ping
  | pong
  | close

/-- Why the loop has ended. -/
inductive MacExit where
  | gone
  | closeFrame
  | closed
  | silent
  deriving DecidableEq, Repr

/-- Where the loop is: at `select!`, at the test after it, about to close the socket, or past it. -/
inductive MacPhase where
  | select
  | check
  | giveUp
  | left (exit : MacExit)
  deriving DecidableEq, Repr

/-- The loop. `due` is when the next tick is, `heard` when the last frame was, or the attach. -/
structure MacLoop where
  mux : Mux
  phase : MacPhase
  missed : Nat
  due : Instant
  now : Instant
  heard : Instant

namespace MacLoop

/-- The loop right after the attach: the first tick is at once. -/
def start (pingInterval : Duration) (now : Instant) : MacLoop :=
  { mux := .init, phase := .select, missed := 0, due := now + pingInterval, now, heard := now }

/-- A frame, a stream that is over, a tick, the test after `select!`, the close of a silent socket;
a step of a caller, of the writer or of somebody who closes; time passes. -/
inductive Label where
  | frame (f : MacFrame)
  | gone
  | tick
  | check
  | giveUp
  | elsewhere (l : Mux.Label)
  | pass (d : Duration)

/-- The arm of `select!` for a frame. -/
def onFrame (w : MacLoop) (f : MacFrame) : MacLoop :=
  let w := { w with missed := 0, heard := w.now, phase := .check }
  match f with
  | .text (some value) | .binary (some value) => { w with mux := w.mux.onMacFrame value }
  | .text none | .binary none => w
  | .ping => { w with mux := w.mux.trySend .pong }
  | .pong => w
  | .close => { w with phase := .left .closeFrame }

/-- The next tick after one at `now` that was due at `due`, as `MissedTickBehavior::Delay` has it:
one that is late by more than `slack` puts off those after it. -/
def nextTick (pingInterval slack : Duration) (due now : Instant) : Instant :=
  if now ≤ due + slack then due + pingInterval else now + pingInterval

/-- The arm for a tick. -/
def onTick (pingInterval slack : Duration) (w : MacLoop) : MacLoop :=
  let w := { w with due := nextTick pingInterval slack w.due w.now }
  if w.mux.closing ≠ .no then { w with phase := .left .closed }
  else
    let w := { w with missed := w.missed + 1 }
    if w.missed > maxMissedPings then { w with phase := .giveUp }
    else { w with mux := w.mux.trySend .ping, phase := .check }

/-- The next step. -/
def next (pingInterval slack : Duration) (w : MacLoop) : Label → Option MacLoop
  | .frame f => if w.phase = .select then some (w.onFrame f) else none
  | .gone => if w.phase = .select then some { w with phase := .left .gone } else none
  | .tick =>
    if w.phase = .select ∧ w.due ≤ w.now then some (w.onTick pingInterval slack) else none
  | .check =>
    if w.phase = .check then
      some { w with phase := if w.mux.closing ≠ .no then .left .closed else .select }
    else none
  | .giveUp =>
    if w.phase = .giveUp then
      (w.mux.next (.close CloseCode.livenessTimeout)).map fun mux =>
        { w with mux, phase := .left .silent }
    else none
  | .elsewhere l => (w.mux.next l).map fun mux => { w with mux }
  | .pass d => some { w with now := w.now + d }

/-- The loop waits for frames and ticks. -/
def Waiting (w : MacLoop) : Prop := w.phase = .select ∨ w.phase = .check

/-- The loop takes its steps at most `delay` after the tick that is due. -/
def Prompt (delay : Duration) (w : MacLoop) : Prop := w.Waiting → w.now ≤ w.due + delay

/-- A socket is closed as silent only when nothing was heard for `MAX_MISSED_PINGS` intervals, is
not waited for more than one interval longer, and the loop ends as closed only if somebody
closes. -/
structure Fair (pingInterval slack delay : Duration) (w : MacLoop) : Prop where
  early : w.phase = .left .silent → w.heard + maxMissedPings * pingInterval ≤ w.now + slack
  late : w.Waiting → w.now ≤ w.heard + (maxMissedPings + 1) * (pingInterval + delay)
  closed : w.phase = .left .closed → w.mux.closing ≠ .no

variable {pingInterval slack delay : Duration} {w w' : MacLoop} {l : Label} {ls : List Label}

/-! ## What others do to the socket -/

theorem closing_trySend (m : Mux) (message : MacMessage) :
    (m.trySend message).closing = m.closing := by
  unfold Mux.trySend
  split <;> rfl

theorem closing_onMacFrame (m : Mux) (frame : Json) : (m.onMacFrame frame).closing = m.closing := by
  unfold Mux.onMacFrame
  split
  · cases m.pending.lookup _ <;> rfl
  · cases macReply frame with
    | none => rfl
    | some reply => exact closing_trySend m _

theorem closing_callStep {m m' : Mux} {i : Nat} {call : MuxCall}
    (hs : m.callStep i call = some m') : m'.closing = m.closing := by
  rw [Mux.callStep] at hs
  repeat' split at hs
  all_goals try cases hs
  all_goals simp [Mux.goto, Mux.register, Mux.removePending, Mux.removeEntries, closing_trySend]

/-- A socket that is closing stays so. -/
theorem closing_next {m m' : Mux} {l : Mux.Label} (h : m.closing ≠ .no)
    (hnext : m.next l = some m') : m'.closing ≠ .no := by
  cases l with
  | handshake version =>
    obtain rfl := Option.some.inj hnext
    exact h
  | initialized =>
    simp only [Mux.next] at hnext
    split_ifs at hnext
    obtain rfl := Option.some.inj hnext
    rwa [closing_trySend]
  | loopback request =>
    obtain ⟨caller, -, rfl⟩ := Option.map_eq_some_iff.mp hnext
    exact h
  | step i =>
    obtain ⟨call, -, hs⟩ := Option.bind_eq_some_iff.mp hnext
    rwa [closing_callStep hs]
  | timeout i =>
    obtain ⟨call, -, hs⟩ := Option.bind_eq_some_iff.mp hnext
    split at hs
    · obtain rfl := Option.some.inj hs
      exact h
    · cases hs
  | cancel i =>
    obtain ⟨call, -, hs⟩ := Option.bind_eq_some_iff.mp hnext
    repeat' split at hs
    all_goals try cases hs
    all_goals exact h
  | macFrame frame =>
    obtain rfl := Option.some.inj hnext
    rwa [closing_onMacFrame]
  | ping | pong =>
    obtain rfl := Option.some.inj hnext
    rwa [closing_trySend]
  | close code =>
    simp only [Mux.next, if_neg h] at hnext
    obtain rfl := Option.some.inj hnext
    exact h
  | closer =>
    simp only [Mux.next] at hnext
    split at hnext
    all_goals try cases hnext
    all_goals simp
  | writer ok =>
    simp only [Mux.next] at hnext
    split at hnext
    all_goals try cases hnext
    all_goals exact h

/-! ## Ticks and frames -/

/-- What the loop keeps. A tick that is missed comes an interval after the one before. -/
structure Counted (pingInterval slack delay : Duration) (w : MacLoop) : Prop where
  heard : w.heard ≤ w.now
  early : 1 ≤ w.missed → w.heard + w.missed * pingInterval ≤ w.due + slack
  late : w.Waiting → w.due ≤ w.heard + (w.missed + 1) * pingInterval + w.missed * delay
  recent : w.due ≤ w.now + pingInterval
  missed : w.Waiting → w.missed ≤ maxMissedPings
  silent : w.phase = .giveUp ∨ w.phase = .left .silent →
    w.heard + maxMissedPings * pingInterval ≤ w.now + slack
  closed : w.phase = .left .closed → w.mux.closing ≠ .no

theorem Counted.start (now : Instant) :
    (MacLoop.start pingInterval now).Counted pingInterval slack delay where
  heard := le_rfl
  early h := absurd h (by simp [MacLoop.start])
  late _ := by simp [MacLoop.start]
  recent := le_rfl
  missed _ := Nat.zero_le _
  silent h := by simp [MacLoop.start] at h
  closed h := by simp [MacLoop.start] at h

/-- A frame starts the count anew. -/
theorem Counted.frame (h : w.Counted pingInterval slack delay) (f : MacFrame) :
    (w.onFrame f).Counted pingInterval slack delay := by
  have hsame : (w.onFrame f).heard = w.now ∧ (w.onFrame f).now = w.now ∧
      (w.onFrame f).missed = 0 ∧ (w.onFrame f).due = w.due ∧
      ((w.onFrame f).phase = .check ∨ (w.onFrame f).phase = .left .closeFrame) := by
    unfold onFrame
    split <;> simp
  obtain ⟨hheard, hnow, hmissed, hdue, hafter⟩ := hsame
  refine ⟨?_, fun h => ?_, fun _ => ?_, ?_, fun _ => ?_, fun hs => ?_, fun hs => ?_⟩
  · rw [hheard, hnow]
  · omega
  · rw [hdue, hheard, hmissed, Nat.zero_mul, Nat.zero_add, Nat.one_mul]
    exact h.recent
  · rw [hdue, hnow]
    exact h.recent
  · rw [hmissed]
    exact Nat.zero_le _
  · rcases hafter with h | h <;> rw [h] at hs <;> simp at hs
  · rcases hafter with h | h <;> rw [h] at hs <;> simp at hs

theorem nextTick_le {due now : Instant} (hdue : due ≤ now) :
    nextTick pingInterval slack due now ≤ now + pingInterval := by
  unfold nextTick
  split
  · exact Nat.add_le_add_right hdue _
  · exact le_rfl

theorem le_nextTick {due now : Instant} (hdue : due ≤ now) :
    due + pingInterval ≤ nextTick pingInterval slack due now := by
  unfold nextTick
  split
  · exact le_rfl
  · exact Nat.add_le_add_right hdue _

theorem le_nextTick_add (due now : Instant) :
    now + pingInterval ≤ nextTick pingInterval slack due now + slack := by
  unfold nextTick
  split
  · rename_i hlate
    rw [Nat.add_right_comm]
    exact Nat.add_le_add_right hlate _
  · exact Nat.le_add_right _ _

/-- A tick counts what it misses. -/
theorem Counted.tick (h : w.Counted pingInterval slack delay) (hprompt : w.Prompt delay)
    (hphase : w.phase = .select) (hdue : w.due ≤ w.now) :
    (w.onTick pingInterval slack).Counted pingInterval slack delay := by
  have hle : nextTick pingInterval slack w.due w.now ≤ w.now + pingInterval := nextTick_le hdue
  have hge : w.due + pingInterval ≤ nextTick pingInterval slack w.due w.now := le_nextTick hdue
  have hadd : w.now + pingInterval ≤ nextTick pingInterval slack w.due w.now + slack :=
    le_nextTick_add w.due w.now
  have hnow : w.now ≤ w.due + delay := hprompt (.inl hphase)
  have hlate := h.late (.inl hphase)
  have hmissed := h.missed (.inl hphase)
  have hheard := h.heard
  -- One more interval without a frame.
  have hearly : w.heard + (w.missed + 1) * pingInterval ≤
      nextTick pingInterval slack w.due w.now + slack := by
    cases hm : w.missed with
    | zero =>
      dsimp only [Instant, Duration] at *
      omega
    | succ k =>
      have hbefore := h.early (by omega)
      rw [hm] at hbefore
      rw [Nat.add_one_mul (k + 1)]
      dsimp only [Instant, Duration] at *
      omega
  unfold onTick
  dsimp only
  split_ifs with hclosing hmany
  · refine ⟨hheard, fun hm => ?_, fun hw => ?_, hle, fun hw => ?_, fun hs => ?_, fun _ => hclosing⟩
    · have hbefore := h.early hm
      dsimp only [Instant, Duration] at *
      omega
    · rcases hw with hw | hw <;> cases hw
    · rcases hw with hw | hw <;> cases hw
    · rcases hs with hs | hs <;> cases hs
  · refine ⟨hheard, fun _ => hearly, fun hw => ?_, hle, fun hw => ?_, fun _ => ?_, fun hc => ?_⟩
    · rcases hw with hw | hw <;> cases hw
    · rcases hw with hw | hw <;> cases hw
    · have hthree : w.missed = maxMissedPings := le_antisymm hmissed (Nat.lt_succ_iff.mp hmany)
      have hbefore := h.early (by rw [hthree]; decide)
      rw [hthree] at hbefore
      dsimp only [Instant, Duration] at *
      omega
    · cases hc
  · refine ⟨hheard, fun _ => hearly, fun _ => ?_, hle, fun _ => ?_, fun hs => ?_, fun hc => ?_⟩
    · rw [Nat.add_one_mul] at hlate
      dsimp only
      rw [Nat.add_one_mul, Nat.add_one_mul, Nat.add_one_mul]
      dsimp only [Instant, Duration] at *
      omega
    · exact Nat.le_of_not_lt hmany
    · rcases hs with hs | hs <;> cases hs
    · cases hc

/-- A step of a prompt loop keeps the count. -/
theorem Counted.next (h : w.Counted pingInterval slack delay) (hprompt : w.Prompt delay)
    (hnext : w.next pingInterval slack l = some w') : w'.Counted pingInterval slack delay := by
  cases l with
  | frame f =>
    simp only [MacLoop.next] at hnext
    split_ifs at hnext
    obtain rfl := Option.some.inj hnext
    exact h.frame f
  | gone =>
    simp only [MacLoop.next] at hnext
    split_ifs at hnext
    obtain rfl := Option.some.inj hnext
    refine ⟨h.heard, h.early, fun hw => ?_, h.recent, fun hw => ?_, fun hs => ?_, fun hc => ?_⟩
    · rcases hw with hw | hw <;> cases hw
    · rcases hw with hw | hw <;> cases hw
    · rcases hs with hs | hs <;> cases hs
    · cases hc
  | tick =>
    simp only [MacLoop.next] at hnext
    split_ifs at hnext with hready
    obtain rfl := Option.some.inj hnext
    exact h.tick hprompt hready.1 hready.2
  | check =>
    simp only [MacLoop.next] at hnext
    split_ifs at hnext with hphase hclosing
    · obtain rfl := Option.some.inj hnext
      refine ⟨h.heard, h.early, fun hw => ?_, h.recent, fun hw => ?_, fun hs => ?_,
        fun _ => hclosing⟩
      · rcases hw with hw | hw <;> cases hw
      · rcases hw with hw | hw <;> cases hw
      · rcases hs with hs | hs <;> cases hs
    · obtain rfl := Option.some.inj hnext
      refine ⟨h.heard, h.early, fun _ => h.late (.inr hphase), h.recent,
        fun _ => h.missed (.inr hphase), fun hs => ?_, fun hc => ?_⟩
      · rcases hs with hs | hs <;> cases hs
      · cases hc
  | giveUp =>
    simp only [MacLoop.next] at hnext
    split_ifs at hnext with hphase
    obtain ⟨mux, -, rfl⟩ := Option.map_eq_some_iff.mp hnext
    refine ⟨h.heard, h.early, fun hw => ?_, h.recent, fun hw => ?_, fun _ => h.silent (.inl hphase),
      fun hc => ?_⟩
    · rcases hw with hw | hw <;> cases hw
    · rcases hw with hw | hw <;> cases hw
    · cases hc
  | elsewhere l =>
    obtain ⟨mux, hmux, rfl⟩ := Option.map_eq_some_iff.mp hnext
    exact ⟨h.heard, h.early, h.late, h.recent, h.missed, h.silent,
      fun hc => closing_next (h.closed hc) hmux⟩
  | pass d =>
    obtain rfl := Option.some.inj hnext
    exact ⟨h.heard.trans (Nat.le_add_right _ d), h.early, h.late,
      h.recent.trans (Nat.add_le_add_right (Nat.le_add_right _ d) _), h.missed,
      fun hs => (h.silent hs).trans (Nat.add_le_add_right (Nat.le_add_right _ d) _), h.closed⟩

/-- What is counted, in terms of time. -/
theorem Counted.fair (h : w.Counted pingInterval slack delay) (hprompt : w.Prompt delay) :
    w.Fair pingInterval slack delay where
  early hs := h.silent (.inr hs)
  closed := h.closed
  late hw := by
    have hnow := hprompt hw
    have hlate := h.late hw
    have hintervals : (w.missed + 1) * pingInterval ≤ (maxMissedPings + 1) * pingInterval :=
      Nat.mul_le_mul_right _ (Nat.succ_le_succ (h.missed hw))
    have hdelays : w.missed * delay ≤ maxMissedPings * delay :=
      Nat.mul_le_mul_right _ (h.missed hw)
    rw [Nat.mul_add, Nat.add_one_mul maxMissedPings delay]
    dsimp only [Instant, Duration] at *
    omega

theorem Counted.allStates_fair : ∀ {ls : List Label} {w : MacLoop},
    w.Counted pingInterval slack delay →
    Trace.AllStates (MacLoop.next pingInterval slack) (Prompt delay) w ls →
      Trace.AllStates (MacLoop.next pingInterval slack) (Fair pingInterval slack delay) w ls
  | [], _, h, hprompt => h.fair hprompt
  | _ :: _, _, h, hprompt =>
    ⟨h.fair hprompt.1, fun w' hnext => (h.next hprompt.1 hnext).allStates_fair (hprompt.2 w' hnext)⟩

/-- In every run of the loop that takes its steps promptly, whatever the Mac sends and whoever
uses or closes the socket meanwhile: a Mac is given up only when it was silent for the whole
budget, and a silent one is not waited for more than one interval longer. -/
theorem fair_of_prompt {now : Instant}
    (hprompt : Trace.AllStates (next pingInterval slack) (Prompt delay)
      (start pingInterval now) ls) :
    Trace.AllStates (next pingInterval slack) (Fair pingInterval slack delay)
      (start pingInterval now) ls :=
  (Counted.start now).allStates_fair hprompt

/-- A Mac that sends nothing, at an interval of twenty. -/
theorem fair_of_prompt_silent :
    let ls : List Label :=
      [.pass 20, .tick, .check, .pass 20, .tick, .check, .pass 20, .tick, .check, .pass 20, .tick,
        .giveUp]
    (Trace.run (next 20 0) (start 20 0) ls).map (·.phase) = some (.left .silent) ∧
      Trace.AllStates (next 20 0) (Fair 20 0 0) (start 20 0) ls := by
  intro ls
  refine ⟨rfl, fair_of_prompt ?_⟩
  simp [ls, Trace.AllStates, Prompt, Waiting, next, start, onTick, nextTick, Mux.init, Mux.trySend,
    Mux.room, maxMissedPings, toMacQueue, Mux.next]

end MacLoop

end OpenabPty
