import OpenabPty.Outbound
import OpenabPty.Backlog
import OpenabPty.Core.Notify
import OpenabPty.Core.Trace
import Mathlib.Logic.Relation

/-!
# One consumer and the producers of an `Outbound`, lock by lock

`push_bytes`, `push_control` and `close` publish under one lock and notify afterwards.
`try_next` looks into the backlog, into the control frames, into the backlog again and at the
close code, each under a lock of its own, and `next` parks when it has found nothing. Any number
of producers runs against one consumer; each of these sections is a step.
-/

namespace OpenabPty

/-- Where a producer is. A `close` by the hard watermark comes after its push. -/
inductive ProducerPc where
  | pushBytes (bytes : List UInt8)
  | pushControl (event : ControlEvent)
  | close (pushed : Bool) (code : Nat)
  | notifyWaiters
  | notifyOne
  | done
  deriving DecidableEq, Repr

/-- Where the consumer is: between two calls, in `try_next` (called by `next` or by itself), or
in what `next` does when there was nothing. -/
inductive ConsumerPc where
  | ready
  | gap (inNext : Bool)
  | controls (inNext : Bool)
  | bytes (inNext : Bool)
  | closeCode (inNext : Bool)
  | closeEmitted (inNext : Bool) (code : Nat)
  | recheck
  | listen
  | notified (seen : Nat)
  | parked
  deriving DecidableEq, Repr

/-- What the consumer got. Bytes come with their position in everything pushed, a gap of the
backlog with that of the byte behind it. -/
inductive Yield where
  | bytes (start : Nat) (bytes : List UInt8)
  | gap (dropped head : Nat)
  | control (event : ControlEvent)
  | close (code : Nat)
  deriving DecidableEq, Repr

/-- The item without its position. -/
def Yield.item : Yield → OutboundItem
  | .bytes _ taken => .bytes taken
  | .gap dropped _ => .control (.gap dropped)
  | .control event => .control event
  | .close code => .close code

/-- An `Outbound` in use. The last four fields are history: everything pushed, how many bytes
and control frames had been when the close code was set, and what the consumer got. -/
structure OutboundRun where
  outbound : Outbound
  notify : Notify
  consumer : ConsumerPc
  producers : List ProducerPc
  pushed : List UInt8
  sent : List ControlEvent
  sealed : Option (Nat × Nat)
  yielded : List Yield
  deriving DecidableEq

namespace OutboundRun

inductive Label where
  | pushBytes (bytes : List UInt8)
  | pushControl (event : ControlEvent)
  | close (code : Nat)
  | produce (i : Nat)
  | call (inNext : Bool)
  | consume
  deriving DecidableEq, Repr

def init (conn : ConnGeneration) (bounds : QueueBounds) : OutboundRun :=
  { outbound := .new conn bounds, notify := .new, consumer := .ready, producers := [],
    pushed := [], sent := [], sealed := none, yielded := [] }

/-- The position of the oldest byte that is queued. -/
def head (w : OutboundRun) : Nat := w.pushed.length - w.outbound.queue.buf.length

/-- A producer begins. -/
def spawn (w : OutboundRun) (p : ProducerPc) : OutboundRun := { w with producers := w.producers ++ [p] }

def setQueue (w : OutboundRun) (queue : ByteQueue) : OutboundRun :=
  { w with outbound := { w.outbound with queue } }

/-- The producer at index `i` goes on. -/
def goto (w : OutboundRun) (i : Nat) (p : ProducerPc) : OutboundRun :=
  { w with producers := w.producers.set i p }

/-- The consumer goes on. -/
def consumeAt (w : OutboundRun) (pc : ConsumerPc) : OutboundRun := { w with consumer := pc }

/-- The consumer gets an item. -/
def yield (w : OutboundRun) (item : Yield) : OutboundRun :=
  { w with consumer := .ready, yielded := w.yielded ++ [item] }

/-- Where a producer goes after its push. -/
def afterPush : Push → ProducerPc
  | .hardWatermark _ => .close true CloseCode.slowClient
  | _ => .notifyOne

/-- The next section of the producer at index `i`. -/
def produce (w : OutboundRun) (i : Nat) : ProducerPc → Option OutboundRun
  | .pushBytes bytes =>
    let r := w.outbound.queue.push bytes
    some ({ w.setQueue r.1 with pushed := w.pushed ++ bytes }.goto i (afterPush r.2))
  | .pushControl event =>
    some ({ w with outbound := w.outbound.pushControl event, sent := w.sent ++ [event] }.goto i
      .notifyOne)
  | .close _ code =>
    some ({ w with
      outbound := w.outbound.close code
      sealed := match w.outbound.closeCode with
        | none => some (w.pushed.length, w.sent.length)
        | some _ => w.sealed }.goto i .notifyWaiters)
  | .notifyWaiters => some ({ w with notify := w.notify.notifyWaiters }.goto i .notifyOne)
  | .notifyOne => some ({ w with notify := w.notify.notifyOne }.goto i .done)
  | .done => none

/-- `try_next` returns `None`. -/
def nothing (w : OutboundRun) (inNext : Bool) : OutboundRun :=
  w.consumeAt (if inNext then .recheck else .ready)

/-- The next section of the consumer. -/
def consume (w : OutboundRun) : Option OutboundRun :=
  match w.consumer with
  | .ready => none
  | .gap inNext =>
    some (match w.outbound.queue.takeUnreportedGap with
      | (queue, some dropped) => (w.setQueue queue).yield (.gap dropped w.head)
      | (_, none) => w.consumeAt (.controls inNext))
  | .controls inNext =>
    some (match w.outbound.controls with
      | control :: rest =>
        { w with outbound := { w.outbound with controls := rest } }.yield (.control control)
      | [] => w.consumeAt (.bytes inNext))
  | .bytes inNext =>
    let taken := w.outbound.queue.take readChunk
    some (if taken.2 ≠ [] then (w.setQueue taken.1).yield (.bytes w.head taken.2)
      else w.consumeAt (.closeCode inNext))
  | .closeCode inNext =>
    some (match w.outbound.closeCode with
      | none => w.nothing inNext
      | some code => w.consumeAt (.closeEmitted inNext code))
  | .closeEmitted inNext code =>
    some (if w.outbound.closeEmitted then w.nothing inNext
      else { w with outbound := { w.outbound with closeEmitted := true } }.yield (.close code))
  | .recheck =>
    -- `next` returns `None`, or makes a future and awaits it.
    some (w.consumeAt (if w.outbound.closeCode.isSome then .ready else .listen))
  | .listen => some (w.consumeAt (.notified w.notify.waitersCalls))
  | .notified seen =>
    let polled := w.notify.poll seen
    some ({ w with notify := polled.1 }.consumeAt (if polled.2 then .gap true else .parked))
  | .parked => if w.notify.waiting then none else some (w.consumeAt (.gap true))

/-- The next section. -/
def next (w : OutboundRun) : Label → Option OutboundRun
  | .pushBytes bytes => some (w.spawn (.pushBytes bytes))
  | .pushControl event => some (w.spawn (.pushControl event))
  | .close code => some (w.spawn (.close false code))
  | .produce i => w.producers[i]?.bind (w.produce i)
  | .call inNext =>
    match w.consumer with
    | .ready => some (w.consumeAt (.gap inNext))
    | _ => none
  | .consume => w.consume

/-! ## What a section does -/

/-- What one step can do. -/
inductive Goes : OutboundRun → Label → OutboundRun → Prop where
  | spawn {w l} (p : ProducerPc) : (∀ i, l ≠ .produce i) → l ≠ .consume → Goes w l (w.spawn p)
  | pushBytes {w i} (bytes : List UInt8) : w.producers[i]? = some (.pushBytes bytes) →
      Goes w (.produce i) ({ w.setQueue (w.outbound.queue.push bytes).1 with
        pushed := w.pushed ++ bytes }.goto i (afterPush (w.outbound.queue.push bytes).2))
  | pushControl {w i} (event : ControlEvent) : w.producers[i]? = some (.pushControl event) →
      Goes w (.produce i) ({ w with
        outbound := w.outbound.pushControl event, sent := w.sent ++ [event] }.goto i .notifyOne)
  | closeFirst {w i} (after : Bool) (code : Nat) : w.producers[i]? = some (.close after code) →
      w.outbound.closeCode = none →
      Goes w (.produce i) ({ w with
        outbound := { w.outbound with closeCode := some code }
        sealed := some (w.pushed.length, w.sent.length) }.goto i .notifyWaiters)
  | closeAgain {w i} (after : Bool) (code old : Nat) : w.producers[i]? = some (.close after code) →
      w.outbound.closeCode = some old → Goes w (.produce i) (w.goto i .notifyWaiters)
  | notifyWaiters {w i} : w.producers[i]? = some .notifyWaiters →
      Goes w (.produce i) ({ w with notify := w.notify.notifyWaiters }.goto i .notifyOne)
  | notifyOne {w i} : w.producers[i]? = some .notifyOne →
      Goes w (.produce i) ({ w with notify := w.notify.notifyOne }.goto i .done)
  | call {w} (inNext : Bool) : w.consumer = .ready →
      Goes w (.call inNext) (w.consumeAt (.gap inNext))
  | gap {w} (inNext : Bool) : w.consumer = .gap inNext →
      w.outbound.queue.unreportedDropped ≠ 0 →
      Goes w .consume ((w.setQueue { w.outbound.queue with unreportedDropped := 0 }).yield
        (.gap w.outbound.queue.unreportedDropped w.head))
  | noGap {w} (inNext : Bool) : w.consumer = .gap inNext →
      w.outbound.queue.unreportedDropped = 0 → Goes w .consume (w.consumeAt (.controls inNext))
  | control {w} (inNext : Bool) (event : ControlEvent) (rest : List ControlEvent) :
      w.consumer = .controls inNext → w.outbound.controls = event :: rest →
      Goes w .consume
        ({ w with outbound := { w.outbound with controls := rest } }.yield (.control event))
  | noControl {w} (inNext : Bool) : w.consumer = .controls inNext → w.outbound.controls = [] →
      Goes w .consume (w.consumeAt (.bytes inNext))
  | bytes {w} (inNext : Bool) : w.consumer = .bytes inNext → w.outbound.queue.buf ≠ [] →
      Goes w .consume ((w.setQueue (w.outbound.queue.take readChunk).1).yield
        (.bytes w.head (w.outbound.queue.buf.take readChunk)))
  | noBytes {w} (inNext : Bool) : w.consumer = .bytes inNext → w.outbound.queue.buf = [] →
      Goes w .consume (w.consumeAt (.closeCode inNext))
  | open {w} (inNext : Bool) : w.consumer = .closeCode inNext → w.outbound.closeCode = none →
      Goes w .consume (w.nothing inNext)
  | closed {w} (inNext : Bool) (code : Nat) : w.consumer = .closeCode inNext →
      w.outbound.closeCode = some code → Goes w .consume (w.consumeAt (.closeEmitted inNext code))
  | emittedBefore {w} (inNext : Bool) (code : Nat) : w.consumer = .closeEmitted inNext code →
      w.outbound.closeEmitted = true → Goes w .consume (w.nothing inNext)
  | emits {w} (inNext : Bool) (code : Nat) : w.consumer = .closeEmitted inNext code →
      w.outbound.closeEmitted = false →
      Goes w .consume
        ({ w with outbound := { w.outbound with closeEmitted := true } }.yield (.close code))
  | ends {w} : w.consumer = .recheck → w.outbound.closeCode.isSome = true →
      Goes w .consume (w.consumeAt .ready)
  | listens {w} : w.consumer = .recheck → w.outbound.closeCode = none →
      Goes w .consume (w.consumeAt .listen)
  | creates {w} : w.consumer = .listen →
      Goes w .consume (w.consumeAt (.notified w.notify.waitersCalls))
  | polls {w} (seen : Nat) : w.consumer = .notified seen → (w.notify.poll seen).2 = true →
      Goes w .consume ({ w with notify := (w.notify.poll seen).1 }.consumeAt (.gap true))
  | parks {w} (seen : Nat) : w.consumer = .notified seen → (w.notify.poll seen).2 = false →
      Goes w .consume ({ w with notify := (w.notify.poll seen).1 }.consumeAt .parked)
  | wakes {w} : w.consumer = .parked → w.notify.waiting = false →
      Goes w .consume (w.consumeAt (.gap true))

theorem produce_goes {w w' : OutboundRun} {i : Nat} {p : ProducerPc} (hp : w.producers[i]? = some p)
    (h : w.produce i p = some w') : w.Goes (.produce i) w' := by
  cases p with
  | pushBytes bytes =>
    obtain rfl := Option.some.inj h
    exact .pushBytes bytes hp
  | pushControl event =>
    obtain rfl := Option.some.inj h
    exact .pushControl event hp
  | close after code =>
    obtain rfl := Option.some.inj h
    cases hcode : w.outbound.closeCode with
    | none =>
      have hgoes := Goes.closeFirst after code hp hcode
      simpa only [Outbound.close, hcode] using hgoes
    | some old =>
      have hgoes := Goes.closeAgain after code old hp hcode
      simpa only [Outbound.close, hcode] using hgoes
  | notifyWaiters =>
    obtain rfl := Option.some.inj h
    exact .notifyWaiters hp
  | notifyOne =>
    obtain rfl := Option.some.inj h
    exact .notifyOne hp
  | done => cases h

theorem consume_goes {w w' : OutboundRun} (h : w.consume = some w') : w.Goes .consume w' := by
  unfold consume at h
  cases hpc : w.consumer with
  | ready =>
    rw [hpc] at h
    cases h
  | gap inNext =>
    rw [hpc] at h
    obtain rfl := Option.some.inj h
    by_cases hnone : w.outbound.queue.unreportedDropped = 0
    · simp only [ByteQueue.takeUnreportedGap, if_pos hnone]
      exact .noGap inNext hpc hnone
    · simp only [ByteQueue.takeUnreportedGap, if_neg hnone]
      exact .gap inNext hpc hnone
  | controls inNext =>
    rw [hpc] at h
    obtain rfl := Option.some.inj h
    cases hcontrols : w.outbound.controls with
    | nil => exact .noControl inNext hpc hcontrols
    | cons event rest => exact .control inNext event rest hpc hcontrols
  | bytes inNext =>
    rw [hpc] at h
    obtain rfl := Option.some.inj h
    by_cases hempty : w.outbound.queue.buf = []
    · rw [if_neg (by simp [ByteQueue.take, hempty])]
      exact .noBytes inNext hpc hempty
    · rw [if_pos (by simp [ByteQueue.take, hempty, readChunk])]
      exact .bytes inNext hpc hempty
  | closeCode inNext =>
    rw [hpc] at h
    obtain rfl := Option.some.inj h
    cases hcode : w.outbound.closeCode with
    | none => exact .open inNext hpc hcode
    | some code => exact .closed inNext code hpc hcode
  | closeEmitted inNext code =>
    rw [hpc] at h
    obtain rfl := Option.some.inj h
    cases hemitted : w.outbound.closeEmitted with
    | true => exact .emittedBefore inNext code hpc hemitted
    | false => exact .emits inNext code hpc hemitted
  | recheck =>
    rw [hpc] at h
    obtain rfl := Option.some.inj h
    cases hcode : w.outbound.closeCode with
    | none => exact .listens hpc hcode
    | some code => exact .ends hpc (by rw [hcode]; rfl)
  | listen =>
    rw [hpc] at h
    obtain rfl := Option.some.inj h
    exact .creates hpc
  | notified seen =>
    rw [hpc] at h
    obtain rfl := Option.some.inj h
    cases hpoll : (w.notify.poll seen).2 with
    | true => exact .polls seen hpc hpoll
    | false => exact .parks seen hpc hpoll
  | parked =>
    rw [hpc] at h
    dsimp only at h
    split at h
    · cases h
    · rename_i hwaiting
      obtain rfl := Option.some.inj h
      exact .wakes hpc (Bool.eq_false_iff.mpr hwaiting)

/-- Every step is one of these. -/
theorem goes_of_next {w w' : OutboundRun} {l : Label} (h : w.next l = some w') : w.Goes l w' := by
  cases l with
  | pushBytes bytes =>
    obtain rfl := Option.some.inj h
    exact .spawn _ (fun i hi => by cases hi) (fun hc => by cases hc)
  | pushControl event =>
    obtain rfl := Option.some.inj h
    exact .spawn _ (fun i hi => by cases hi) (fun hc => by cases hc)
  | close code =>
    obtain rfl := Option.some.inj h
    exact .spawn _ (fun i hi => by cases hi) (fun hc => by cases hc)
  | produce i =>
    obtain ⟨p, hp, hproduce⟩ := Option.bind_eq_some_iff.mp h
    exact produce_goes hp hproduce
  | call inNext =>
    simp only [next] at h
    split at h
    · rename_i hready
      obtain rfl := Option.some.inj h
      exact .call inNext hready
    · cases h
  | consume => exact consume_goes h

/-! ## Undisturbed -/

section Alone

variable {w : OutboundRun}

/-- The consumer takes steps while no producer does. -/
def Consumes : OutboundRun → OutboundRun → Prop := Relation.ReflTransGen fun w w' => w.consume = some w'

/-- `try_next` on its own. -/
theorem tryNext_alone (hpc : w.consumer = .gap false) :
    ∃ w', w.Consumes w' ∧ w'.consumer = .ready ∧ w'.outbound = w.outbound.tryNext.1 ∧
      w'.yielded.map Yield.item = w.yielded.map Yield.item ++ w.outbound.tryNext.2.toList := by
  have hlast : ∀ v : OutboundRun, (v.nothing false).yielded.map Yield.item =
      v.yielded.map Yield.item ++ [] := fun v => (List.append_nil _).symm
  unfold Outbound.tryNext
  by_cases hgap : w.outbound.queue.unreportedDropped = 0
  · have h₁ : w.consume = some (w.consumeAt (.controls false)) := by
      simp [consume, hpc, ByteQueue.takeUnreportedGap, hgap]
    simp only [ByteQueue.takeUnreportedGap, hgap, if_true]
    cases hcontrols : w.outbound.controls with
    | cons event rest =>
      refine ⟨{ w with outbound := { w.outbound with controls := rest } }.yield (.control event),
        .head h₁ (.single ?_), rfl, rfl, by simp [yield, Yield.item]⟩
      simp only [consume, consumeAt, hcontrols]
      rfl
    | nil =>
      have h₂ : (w.consumeAt (.controls false)).consume = some (w.consumeAt (.bytes false)) := by
        simp [consume, consumeAt, hcontrols]
      by_cases hempty : (w.outbound.queue.take readChunk).2 = []
      · have h₃ : (w.consumeAt (.bytes false)).consume = some (w.consumeAt (.closeCode false)) := by
          simp [consume, consumeAt, hempty]
        simp only [hempty, ne_eq, not_true, if_false]
        cases hcode : w.outbound.closeCode with
        | none =>
          refine ⟨w.nothing false, .head h₁ (.head h₂ (.head h₃ (.single ?_))), rfl, rfl, hlast w⟩
          simp only [consume, consumeAt, hcode]
          rfl
        | some code =>
          have h₄ : (w.consumeAt (.closeCode false)).consume =
              some (w.consumeAt (.closeEmitted false code)) := by
            simp [consume, consumeAt, hcode]
          cases hemitted : w.outbound.closeEmitted with
          | true =>
            refine ⟨w.nothing false, .head h₁ (.head h₂ (.head h₃ (.head h₄ (.single ?_)))), rfl,
              rfl, hlast w⟩
            simp only [consume, consumeAt, hemitted]
            rfl
          | false =>
            refine ⟨{ w with outbound := { w.outbound with closeEmitted := true } }.yield
              (.close code), .head h₁ (.head h₂ (.head h₃ (.head h₄ (.single ?_)))), rfl, ?_,
              by simp [yield, Yield.item]⟩
            · simp only [consume, consumeAt, hemitted]
              rfl
            · simp [yield, hcontrols, hcode]
      · simp only [hempty, ne_eq, not_false_eq_true, if_true]
        refine ⟨(w.setQueue (w.outbound.queue.take readChunk).1).yield
          (.bytes w.head (w.outbound.queue.take readChunk).2), .head h₁ (.head h₂ (.single ?_)),
          rfl, ?_, by simp [yield, setQueue, Yield.item]⟩
        · simp only [consume, consumeAt, hempty, ne_eq, not_false_eq_true, if_true]
          rfl
        · simp [yield, setQueue, hcontrols]
  · simp only [ByteQueue.takeUnreportedGap, hgap, if_false]
    refine ⟨(w.setQueue { w.outbound.queue with unreportedDropped := 0 }).yield
      (.gap w.outbound.queue.unreportedDropped w.head), .single ?_, rfl, rfl,
      by simp [yield, setQueue, Yield.item]⟩
    simp [consume, hpc, ByteQueue.takeUnreportedGap, hgap]

/-- A producer takes steps while no other task does. -/
def Produces (i : Nat) : OutboundRun → OutboundRun → Prop :=
  Relation.ReflTransGen fun w w' => w.next (.produce i) = some w'

/-- One section of a producer. -/
theorem produces_of {i : Nat} {p : ProducerPc} {w' : OutboundRun} (hp : w.producers[i]? = some p)
    (h : w.produce i p = some w') : w.next (.produce i) = some w' := by
  rw [next, hp, Option.bind_some, h]

/-- The producer that has just moved. -/
theorem moved {i : Nat} {p q : ProducerPc} {w' : OutboundRun} (hp : w.producers[i]? = some p)
    (hset : w'.producers = w.producers.set i q) : w'.producers[i]? = some q := by
  rw [hset]
  exact List.getElem?_set_self (List.getElem?_eq_some_iff.mp hp).1

/-- The notification at the end of every producer. -/
theorem notifyOne_alone {i : Nat} (hp : w.producers[i]? = some .notifyOne) :
    ∃ w', w.Produces i w' ∧ w'.producers = w.producers.set i .done ∧ w'.outbound = w.outbound :=
  ⟨_, .single (produces_of hp rfl), rfl, rfl⟩

/-- `close` on its own. -/
theorem close_alone {i code : Nat} {after : Bool}
    (hp : w.producers[i]? = some (.close after code)) :
    ∃ w', w.Produces i w' ∧ w'.producers = w.producers.set i .done ∧
      w'.outbound = w.outbound.close code := by
  obtain ⟨w₁, h₁, hset₁, hclosed⟩ : ∃ w₁, w.next (.produce i) = some w₁ ∧
      w₁.producers = w.producers.set i .notifyWaiters ∧ w₁.outbound = w.outbound.close code :=
    ⟨_, produces_of hp rfl, rfl, rfl⟩
  have hp₁ := moved hp hset₁
  obtain ⟨w₂, h₂, hset₂, hsame⟩ : ∃ w₂, w₁.next (.produce i) = some w₂ ∧
      w₂.producers = w₁.producers.set i .notifyOne ∧ w₂.outbound = w₁.outbound :=
    ⟨_, produces_of hp₁ rfl, rfl, rfl⟩
  obtain ⟨w', hsteps, hdone, houtbound⟩ := notifyOne_alone (moved hp₁ hset₂)
  refine ⟨w', .head h₁ (.head h₂ hsteps), ?_, by rw [houtbound, hsame, hclosed]⟩
  rw [hdone, hset₂, hset₁, List.set_set, List.set_set]

/-- `push_control` on its own. -/
theorem pushControl_alone {i : Nat} {event : ControlEvent}
    (hp : w.producers[i]? = some (.pushControl event)) :
    ∃ w', w.Produces i w' ∧ w'.producers = w.producers.set i .done ∧
      w'.outbound = w.outbound.pushControl event := by
  obtain ⟨w₁, h₁, hset₁, hpushed⟩ : ∃ w₁, w.next (.produce i) = some w₁ ∧
      w₁.producers = w.producers.set i .notifyOne ∧ w₁.outbound = w.outbound.pushControl event :=
    ⟨_, produces_of hp rfl, rfl, rfl⟩
  obtain ⟨w', hsteps, hdone, houtbound⟩ := notifyOne_alone (moved hp hset₁)
  refine ⟨w', .head h₁ hsteps, ?_, by rw [houtbound, hpushed]⟩
  rw [hdone, hset₁, List.set_set]

/-- `push_bytes` on its own. -/
theorem pushBytes_alone {i : Nat} {bytes : List UInt8}
    (hp : w.producers[i]? = some (.pushBytes bytes)) :
    ∃ w', w.Produces i w' ∧ w'.producers = w.producers.set i .done ∧
      w'.outbound = w.outbound.pushBytes bytes := by
  obtain ⟨w₁, h₁, hset₁, hpushed⟩ : ∃ w₁, w.next (.produce i) = some w₁ ∧
      w₁.producers = w.producers.set i (afterPush (w.outbound.queue.push bytes).2) ∧
      w₁.outbound = { w.outbound with queue := (w.outbound.queue.push bytes).1 } :=
    ⟨_, produces_of hp rfl, rfl, rfl⟩
  unfold Outbound.pushBytes
  have hp₁ := moved hp hset₁
  cases houtcome : (w.outbound.queue.push bytes).2 with
  | hardWatermark n =>
    rw [houtcome] at hp₁ hset₁
    obtain ⟨w', hsteps, hdone, houtbound⟩ := close_alone hp₁
    refine ⟨w', .head h₁ hsteps, ?_, by simp only [houtbound, hpushed, houtcome]⟩
    rw [hdone, hset₁, List.set_set]
  | accepted | droppedOldest =>
    rw [houtcome] at hp₁ hset₁
    obtain ⟨w', hsteps, hdone, houtbound⟩ := notifyOne_alone hp₁
    refine ⟨w', .head h₁ hsteps, ?_, by simp only [houtbound, hpushed, houtcome]⟩
    rw [hdone, hset₁, List.set_set]

end Alone

/-! ## The backlog in what was pushed -/

section Queued

variable {w w' : OutboundRun}

/-- The backlog is the end of what was pushed. -/
structure Queued (w : OutboundRun) : Prop where
  bounded : w.outbound.queue.buf.length ≤ w.outbound.queue.bounds.capacityBytes
  suffix : w.outbound.queue.buf <:+ w.pushed

theorem queued_init (conn : ConnGeneration) (bounds : QueueBounds) : (init conn bounds).Queued :=
  ⟨Nat.zero_le _, List.suffix_refl []⟩

/-- The backlog, from its head on. -/
theorem Queued.buf_eq (h : w.Queued) : w.outbound.queue.buf = w.pushed.drop w.head :=
  List.suffix_iff_eq_drop.mp h.suffix

theorem Queued.head_add_length (h : w.Queued) :
    w.head + w.outbound.queue.buf.length = w.pushed.length := by
  have hle := h.suffix.length_le
  rw [head]
  omega

/-- A push moves the head of the backlog over what it drops. -/
theorem Queued.push (h : w.Queued) (i : Nat) (p : ProducerPc) (bytes : List UInt8) :
    Queued ({ w.setQueue (w.outbound.queue.push bytes).1 with
      pushed := w.pushed ++ bytes }.goto i p) ∧
    head ({ w.setQueue (w.outbound.queue.push bytes).1 with
      pushed := w.pushed ++ bytes }.goto i p) = w.head + w.outbound.queue.overflow bytes := by
  have hbuf := ByteQueue.push_buf h.bounded bytes
  refine ⟨⟨?_, ?_⟩, ?_⟩
  · show (w.outbound.queue.push bytes).1.buf.length ≤ (w.outbound.queue.push bytes).1.bounds.capacityBytes
    rw [hbuf, ByteQueue.push_bounds, Window.length_push]
    exact Nat.min_le_left _ _
  · show (w.outbound.queue.push bytes).1.buf <:+ w.pushed ++ bytes
    rw [hbuf]
    obtain ⟨before, hbefore⟩ := h.suffix
    refine (Window.rtake_suffix _ _).trans ⟨before, ?_⟩
    rw [← List.append_assoc, hbefore]
  · show (w.pushed ++ bytes).length - (w.outbound.queue.push bytes).1.buf.length = _
    have hlength := h.head_add_length
    rw [hbuf, Window.length_push, List.length_append, ByteQueue.overflow]
    omega

/-- A take moves the head of the backlog over what it takes. -/
theorem Queued.bytes (h : w.Queued) (max : Nat) (item : Yield) :
    Queued ((w.setQueue (w.outbound.queue.take max).1).yield item) ∧
    head ((w.setQueue (w.outbound.queue.take max).1).yield item) =
      w.head + (w.outbound.queue.buf.take max).length := by
  have hlength := h.head_add_length
  refine ⟨⟨?_, (List.drop_suffix _ _).trans h.suffix⟩, ?_⟩
  · show (w.outbound.queue.buf.drop max).length ≤ w.outbound.queue.bounds.capacityBytes
    rw [List.length_drop]
    exact (Nat.sub_le _ _).trans h.bounded
  · show w.pushed.length - (w.outbound.queue.buf.drop max).length = _
    rw [List.length_drop, List.length_take]
    omega

/-- The rest of the state does not matter. -/
theorem Queued.of_eq (h : w.Queued) (hqueue : w'.outbound.queue = w.outbound.queue)
    (hpushed : w'.pushed = w.pushed) : w'.Queued ∧ w'.head = w.head := by
  refine ⟨⟨?_, ?_⟩, by rw [head, head, hqueue, hpushed]⟩
  · rw [hqueue]
    exact h.bounded
  · rw [hqueue, hpushed]
    exact h.suffix

end Queued

end OutboundRun

end OpenabPty
