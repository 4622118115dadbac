import OpenabPty.Delivery

/-!
# A consumer that sleeps has nothing to get

`next` looks into four containers one after the other and then awaits a notification. What comes
into a container after the look at it is announced by the producer's `notify_one`, which wakes
the consumer or leaves a permit that keeps it from going to sleep.
-/

namespace OpenabPty

/-- The producer has put something in, or set the close code, and has not notified yet. -/
def ProducerPc.Between : ProducerPc → Prop
  | .close pushed _ => pushed = true
  | .notifyWaiters | .notifyOne => True
  | .pushBytes _ | .pushControl _ | .done => False

/-- How many of the containers the consumer has found empty since it was last awake: the gap
counter, the control frames, the backlog and the close code. -/
def ConsumerPc.looked : ConsumerPc → Nat
  | .ready | .gap _ => 0
  | .controls _ => 1
  | .bytes _ => 2
  | .closeCode _ | .closeEmitted .. | .recheck => 3
  | .listen | .notified _ | .parked => 4

/-- The containers in the order the consumer looks into them. -/
def Outbound.EmptyAt (o : Outbound) : Nat → Prop
  | 0 => o.queue.unreportedDropped = 0
  | 1 => o.controls = []
  | 2 => o.queue.buf = []
  | _ => o.closeCode = none

/-- One of the first `looked` containers has something. -/
def Outbound.Holds (o : Outbound) (looked : Nat) : Prop := ∃ n < looked, ¬ o.EmptyAt n

namespace OutboundRun

variable {w w' : OutboundRun} {l : OutboundRun.Label}

/-- The consumer awaits a notification and was not woken. -/
def Sleeps (w : OutboundRun) : Prop := w.consumer = .parked ∧ w.notify.waiting = true

/-- The consumer will be, or will stay, awake. -/
def Announced (w : OutboundRun) : Prop := w.notify.permit = true ∨ ∃ p ∈ w.producers, p.Between

/-- When the consumer sleeps, with no permit and no producer on its way to notify, there is
nothing. -/
def Rests (w : OutboundRun) : Prop :=
  w.Sleeps → w.notify.permit = false → (∀ p ∈ w.producers, ¬ p.Between) →
    w.outbound.queue.buf = [] ∧ w.outbound.queue.unreportedDropped = 0 ∧
      w.outbound.controls = [] ∧ w.outbound.closeCode = none

/-- What the consumer has missed is announced, and only a consumer that awaits is registered. -/
structure Heard (w : OutboundRun) : Prop where
  registered : w.notify.waiting = true → w.consumer = .parked
  announced : (w.consumer = .parked → w.notify.waiting = true) →
    w.outbound.Holds w.consumer.looked → w.Announced

theorem heard_init (conn : ConnGeneration) (bounds : QueueBounds) : (init conn bounds).Heard where
  registered h := by cases h
  announced _ h := absurd h (fun ⟨n, hn, _⟩ => Nat.not_lt_zero n hn)

theorem Heard.rests (h : w.Heard) : w.Rests := by
  rintro ⟨hparked, hwaiting⟩ hpermit hbetween
  have hquiet : ¬ w.Announced := by
    rintro (hpermit' | ⟨p, hp, hp'⟩)
    · rw [hpermit] at hpermit'
      cases hpermit'
    · exact hbetween p hp hp'
  have hempty : ∀ n < 4, w.outbound.EmptyAt n := by
    intro n hn
    by_contra hsome
    refine hquiet (h.announced (fun _ => hwaiting) ⟨n, ?_, hsome⟩)
    rw [hparked]
    exact hn
  exact ⟨hempty 2 (by decide), hempty 0 (by decide), hempty 1 (by decide), hempty 3 (by decide)⟩

/-- A producer that is on its way to notify. -/
theorem announced_goto {i : Nat} {p q : ProducerPc} (hp : w.producers[i]? = some p)
    (hproducers : w'.producers = w.producers.set i q) (hq : q.Between) : w'.Announced := by
  have hmem := List.mem_of_getElem? (moved hp hproducers)
  exact .inr ⟨q, hmem, hq⟩

/-- Every producer is on its way to notify when it has put something in. -/
theorem between_afterPush (push : Push) : (afterPush push).Between := by
  cases push <;> trivial

theorem not_holds_zero (o : Outbound) : ¬ o.Holds 0 := fun ⟨n, hn, _⟩ => Nat.not_lt_zero n hn

/-- Past a container that is empty the consumer has missed no more than before. -/
theorem holds_of_empty {o : Outbound} {n : Nat} (hempty : o.EmptyAt n) (h : o.Holds (n + 1)) :
    o.Holds n := by
  obtain ⟨k, hk, hsome⟩ := h
  rcases Nat.lt_or_eq_of_le (Nat.le_of_lt_succ hk) with hlt | rfl
  · exact ⟨k, hlt, hsome⟩
  · exact absurd hempty hsome

/-- A consumer that does not await is not registered. -/
theorem Heard.unregistered (h : w.Heard) {pc : ConsumerPc} (hpc : w.consumer = pc)
    (hawake : pc ≠ .parked) : w.notify.waiting ≠ true :=
  fun hwaiting => hawake (hpc.symm.trans (h.registered hwaiting))

/-- The consumer goes on awake. -/
theorem Heard.look (h : w.Heard) {pc pc' : ConsumerPc} (hpc : w.consumer = pc)
    (hawake : pc ≠ .parked) (hholds : w.outbound.Holds pc'.looked → w.outbound.Holds pc.looked) :
    (w.consumeAt pc').Heard where
  registered hwaiting := absurd hwaiting (h.unregistered hpc hawake)
  announced _ hh := h.announced (fun hparked => absurd (hpc.symm.trans hparked) hawake)
    (by rw [hpc]; exact hholds hh)

/-- `try_next` has found nothing. -/
theorem Heard.nothing (h : w.Heard) {pc : ConsumerPc} (hpc : w.consumer = pc)
    (hlooked : pc.looked = 3) (inNext : Bool) : (w.nothing inNext).Heard := by
  have hawake : pc ≠ .parked := by
    rintro rfl
    cases hlooked
  cases inNext with
  | true => exact h.look hpc hawake (by rw [hlooked]; exact id)
  | false => exact h.look hpc hawake (fun hh => absurd hh (not_holds_zero _))

/-- The consumer starts over. -/
theorem heard_of_afresh (hwaiting : w'.notify.waiting ≠ true) (hlooked : w'.consumer.looked = 0) :
    w'.Heard where
  registered h := absurd h hwaiting
  announced _ hh := by
    rw [hlooked] at hh
    exact absurd hh (not_holds_zero _)

/-- A producer has put something in. -/
theorem Heard.publish (h : w.Heard) {i : Nat} {p q : ProducerPc}
    (hp : w.producers[i]? = some p) (hproducers : w'.producers = w.producers.set i q)
    (hq : q.Between) (hconsumer : w'.consumer = w.consumer)
    (hwaiting : w'.notify.waiting = true → w.notify.waiting = true) : w'.Heard where
  registered hw := hconsumer.trans (h.registered (hwaiting hw))
  announced _ _ := announced_goto hp hproducers hq

/-- One step. -/
theorem Heard.next (h : w.Heard) (hnext : w.next l = some w') : w'.Heard := by
  cases goes_of_next hnext with
  | spawn p =>
    refine ⟨h.registered, fun hawake hh => (h.announced hawake hh).imp_right ?_⟩
    rintro ⟨q, hq, hbetween⟩
    exact ⟨q, List.mem_append_left _ hq, hbetween⟩
  | pushBytes bytes hp => exact h.publish hp rfl (between_afterPush _) rfl id
  | pushControl event hp => exact h.publish hp rfl trivial rfl id
  | closeFirst after code hp => exact h.publish hp rfl trivial rfl id
  | closeAgain after code old hp => exact h.publish hp rfl trivial rfl id
  | notifyWaiters hp => exact h.publish hp rfl trivial rfl (fun hw => by cases hw)
  | notifyOne hp =>
    have hwoken : w.notify.notifyOne.waiting = false := Notify.notifyOne_wakes _
    refine ⟨fun hw => ?_, fun hawake _ => ?_⟩
    · have hw : w.notify.notifyOne.waiting = true := hw
      rw [hwoken] at hw
      cases hw
    · -- A consumer that was registered is awake now.
      have hidle : w.notify.waiting = false := by
        cases hwaiting : w.notify.waiting with
        | false => rfl
        | true => exact absurd (hwoken.symm.trans (hawake (h.registered hwaiting))) (by decide)
      exact .inl (Notify.notifyOne_permit hidle)
  | call inNext hpc => exact heard_of_afresh (h.unregistered hpc nofun) rfl
  | gap inNext hpc => exact heard_of_afresh (h.unregistered hpc nofun) rfl
  | control inNext event rest hpc => exact heard_of_afresh (h.unregistered hpc nofun) rfl
  | bytes inNext hpc => exact heard_of_afresh (h.unregistered hpc nofun) rfl
  | emits inNext code hpc => exact heard_of_afresh (h.unregistered hpc nofun) rfl
  | ends hpc => exact heard_of_afresh (h.unregistered hpc nofun) rfl
  | wakes hpc hwoken => exact heard_of_afresh (Bool.eq_false_iff.mp hwoken) rfl
  | polls seen hpc hready =>
    refine heard_of_afresh ?_ rfl
    show (w.notify.poll seen).1.waiting ≠ true
    rw [Notify.poll_eq_true hready]
    exact h.unregistered hpc nofun
  | noGap inNext hpc hnone => exact h.look hpc nofun (holds_of_empty hnone)
  | noControl inNext hpc hnone => exact h.look hpc nofun (holds_of_empty hnone)
  | noBytes inNext hpc hnone => exact h.look hpc nofun (holds_of_empty hnone)
  | listens hpc hnone => exact h.look hpc nofun (holds_of_empty hnone)
  | closed inNext code hpc => exact h.look hpc nofun id
  | creates hpc => exact h.look hpc nofun id
  | «open» inNext hpc => exact h.nothing hpc rfl inNext
  | emittedBefore inNext code hpc => exact h.nothing hpc rfl inNext
  | parks seen hpc hidle =>
    obtain ⟨hpermit, hpolled⟩ := Notify.poll_eq_false hidle
    refine ⟨fun _ => rfl, fun _ hh => ?_⟩
    have hannounced := h.announced (fun hparked => nomatch hpc.symm.trans hparked)
      (by rw [hpc]; exact hh)
    show (w.notify.poll seen).1.permit = true ∨ _
    rw [hpolled]
    exact hannounced

/-- **No lost wakeup**: in every state of every run. -/
theorem rests_run (conn : ConnGeneration) (bounds : QueueBounds) (run : List Label) :
    Trace.AllStates next Rests (init conn bounds) run :=
  (Trace.AllStates.of_next (fun _ _ _ h hn => h.next hn) (heard_init conn bounds)).imp
    fun _ h => h.rests

/-- With nothing to get the consumer goes to sleep. -/
example : (Trace.run next (init ⟨1⟩ backlogBounds) (.call true :: List.replicate 7 .consume)).map
    (fun w => (w.consumer, w.notify.waiting)) = some (.parked, true) := by decide

end OutboundRun

end OpenabPty
