import OpenabPty.Delivery

/-!
# The close code is the last item of an `Outbound`, and nothing before it is lost

`try_next` yields the close code after a look at the backlog that found it empty. A producer that
pushes and closes after that look has its bytes behind the close code, and one that pushes to a
connection whose close code was yielded has them behind it too.
-/

namespace OpenabPty

/-- `try_next` looks here before it looks at the close code. -/
structure Outbound.Drained (o : Outbound) : Prop where
  bytes : o.queue.buf = []
  gap : o.queue.unreportedDropped = 0
  controls : o.controls = []

/-- When `try_next` has nothing to give. -/
theorem Outbound.tryNext_eq_none_iff (o : Outbound) :
    o.tryNext.2 = none ↔ o.Drained ∧ (o.closeCode = none ∨ o.closeEmitted = true) := by
  unfold Outbound.tryNext
  by_cases hgap : o.queue.unreportedDropped = 0
  · simp only [ByteQueue.takeUnreportedGap, if_pos hgap]
    cases hcontrols : o.controls with
    | cons event rest =>
      refine iff_of_false (fun h => by cases h) fun h => ?_
      rw [h.1.controls] at hcontrols
      cases hcontrols
    | nil =>
      by_cases hbytes : o.queue.buf = []
      · have htaken : (o.queue.take readChunk).2 = [] := by simp [ByteQueue.take, hbytes]
        have hdrained : o.Drained := ⟨hbytes, hgap, hcontrols⟩
        simp only [htaken, ne_eq, not_true, if_false]
        cases hcode : o.closeCode with
        | none => exact iff_of_true rfl ⟨hdrained, .inl rfl⟩
        | some code => cases hemitted : o.closeEmitted <;> simp [hdrained]
      · have htaken : (o.queue.take readChunk).2 ≠ [] := by simp [ByteQueue.take, hbytes, readChunk]
        simp only [if_pos htaken]
        exact iff_of_false (fun h => by cases h) fun h => hbytes h.1.bytes
  · simp only [ByteQueue.takeUnreportedGap, if_neg hgap]
    exact iff_of_false (fun h => by cases h) fun h => hgap h.1.gap

/-- The item has the byte at this position, or it is a gap behind it: a gap takes its reader over
everything in front of the backlog. -/
def Yield.Accounts : Yield → Nat → Prop
  | .bytes start taken, q => start ≤ q ∧ q < start + taken.length
  | .gap _ head, q => q < head
  | .control _, _ | .close _, _ => False

/-- The control frame of an item. -/
def Yield.events : Yield → List ControlEvent
  | .control event => [event]
  | .bytes .. | .gap .. | .close _ => []

namespace OutboundRun

variable {w w' : OutboundRun} {l : OutboundRun.Label}

/-- The control frames in some items. -/
def events (items : List Yield) : List ControlEvent := items.flatMap Yield.events

/-- Everything pushed before the first close code was set is in these items. -/
def Complete (w : OutboundRun) (items : List Yield) : Prop :=
  ∃ bytes controls, w.sealed = some (bytes, controls) ∧
    (∀ q < bytes, ∃ item ∈ items, item.Accounts q) ∧ w.sent.take controls <+: events items

/-- The close code was yielded at most once, after everything that had been pushed before the
first `close`, and from then on there is nothing to get. -/
structure ClosesLast (w : OutboundRun) : Prop where
  last : ∀ before code after, w.yielded = before ++ .close code :: after →
    after = [] ∧ w.Complete before
  silent : ∀ code, .close code ∈ w.yielded → w.outbound.tryNext.2 = none

/-- The connection is drained when the close code is yielded, and nothing is pushed after that. -/
def ClosesDrained (w : OutboundRun) : Label → Prop
  | .consume => (∃ inNext code, w.consumer = .closeEmitted inNext code) →
      w.outbound.closeEmitted = false → w.outbound.Drained
  | .produce i => w.outbound.closeEmitted = true → ∀ p, w.producers[i]? = some p →
      match p with
      | .pushBytes bytes => bytes = []
      | .pushControl _ => False
      | _ => True
  | _ => True

/-! ## The invariant -/

/-- What has left the backlog is accounted for, or a gap is due; and the counts at the first
`close`. -/
structure Kept (w : OutboundRun) : Prop extends w.Queued where
  accounted : ∀ q < w.head, (∃ item ∈ w.yielded, item.Accounts q) ∨
    w.outbound.queue.unreportedDropped ≠ 0
  fifo : w.sent = events w.yielded ++ w.outbound.controls
  unsealed : w.outbound.closeCode = none → w.sealed = none
  sealed : w.outbound.closeCode ≠ none → ∃ bytes controls, w.sealed = some (bytes, controls) ∧
    bytes ≤ w.pushed.length ∧ controls ≤ w.sent.length
  closing : ∀ inNext code, w.consumer = .closeEmitted inNext code → w.outbound.closeCode ≠ none

/-- The close code was not yielded, or it was the last item. -/
structure Closing (w : OutboundRun) : Prop extends w.Kept where
  before : w.outbound.closeEmitted = false → ∀ code, .close code ∉ w.yielded
  after : w.outbound.closeEmitted = true → w.outbound.Drained ∧ ∃ before code,
    w.yielded = before ++ [.close code] ∧ (∀ code', .close code' ∉ before) ∧ w.Complete before

theorem closing_init (conn : ConnGeneration) (bounds : QueueBounds) : (init conn bounds).Closing where
  toQueued := queued_init conn bounds
  accounted q hq := absurd hq (Nat.not_lt_zero q)
  fifo := rfl
  unsealed _ := rfl
  sealed h := absurd rfl h
  closing inNext code h := by cases h
  before _ code h := by cases h
  after h := by cases h

theorem events_append (items : List Yield) (item : Yield) :
    events (items ++ [item]) = events items ++ item.events := by
  rw [events, List.flatMap_append]
  simp [events]

/-- The rest of the state does not matter, and the consumer knows a close code that is set. -/
theorem Kept.of_eq (h : w.Kept) (houtbound : w'.outbound = w.outbound)
    (hpushed : w'.pushed = w.pushed) (hsent : w'.sent = w.sent) (hsealed : w'.sealed = w.sealed)
    (hyielded : w'.yielded = w.yielded)
    (hclosing : ∀ inNext code, w'.consumer = .closeEmitted inNext code →
      w.outbound.closeCode ≠ none) : w'.Kept := by
  obtain ⟨hqueued, hhead⟩ := h.toQueued.of_eq (congrArg Outbound.queue houtbound) hpushed
  refine ⟨hqueued, ?_, ?_, ?_, ?_, ?_⟩
  · rw [hhead, hyielded, houtbound]
    exact h.accounted
  · rw [hsent, hyielded, houtbound]
    exact h.fifo
  · rw [hsealed, houtbound]
    exact h.unsealed
  · rw [hsealed, houtbound, hpushed, hsent]
    exact h.sealed
  · rw [houtbound]
    exact hclosing

/-- What was accounted for stays so. -/
theorem accounted_append {items : List Yield} {q : Nat} (item : Yield)
    (h : ∃ i ∈ items, i.Accounts q) : ∃ i ∈ items ++ [item], i.Accounts q := by
  obtain ⟨i, hi, haccounts⟩ := h
  exact ⟨i, List.mem_append_left _ hi, haccounts⟩

theorem accounted_last {items : List Yield} {q : Nat} {item : Yield} (h : item.Accounts q) :
    ∃ i ∈ items ++ [item], i.Accounts q :=
  ⟨item, List.mem_append_right _ (List.mem_singleton_self item), h⟩

theorem Kept.push (h : w.Kept) (i : Nat) (p : ProducerPc) (bytes : List UInt8) :
    Kept ({ w.setQueue (w.outbound.queue.push bytes).1 with
      pushed := w.pushed ++ bytes }.goto i p) := by
  obtain ⟨hqueued, hhead⟩ := h.toQueued.push i p bytes
  refine ⟨hqueued, ?_, h.fifo, h.unsealed, ?_, h.closing⟩
  · rw [hhead]
    intro q hq
    by_cases hdue : (w.outbound.queue.push bytes).1.unreportedDropped = 0
    · obtain ⟨hnone, hover⟩ := (ByteQueue.push_unreported_eq_zero_iff h.bounded).mp hdue
      rw [hover, Nat.add_zero] at hq
      exact .inl ((h.accounted q hq).resolve_right (fun hne => hne hnone))
    · exact .inr hdue
  · intro hcode
    obtain ⟨b, c, hsealed, hb, hc⟩ := h.sealed hcode
    refine ⟨b, c, hsealed, hb.trans ?_, hc⟩
    show w.pushed.length ≤ (w.pushed ++ bytes).length
    rw [List.length_append]
    exact Nat.le_add_right _ _

/-- An item that is no control frame. -/
theorem Kept.fifo_yield (h : w.Kept) {item : Yield} (hnone : item.events = []) :
    w.sent = events (w.yielded ++ [item]) ++ w.outbound.controls := by
  rw [events_append, hnone, List.append_nil]
  exact h.fifo

/-- Whatever a producer or the consumer does. -/
theorem Kept.next (h : w.Kept) (hnext : w.next l = some w') : w'.Kept := by
  cases goes_of_next hnext with
  | pushBytes bytes => exact h.push _ _ bytes
  | pushControl event =>
    refine ⟨⟨h.bounded, h.suffix⟩, h.accounted, ?_, h.unsealed, ?_, h.closing⟩
    · show w.sent ++ [event] = events w.yielded ++ (w.outbound.controls ++ [event])
      rw [h.fifo, List.append_assoc]
    · intro hcode
      obtain ⟨b, c, hsealed, hb, hc⟩ := h.sealed hcode
      refine ⟨b, c, hsealed, hb, hc.trans ?_⟩
      show w.sent.length ≤ (w.sent ++ [event]).length
      rw [List.length_append]
      exact Nat.le_add_right _ _
  | closeFirst after code _ hcode =>
    exact ⟨⟨h.bounded, h.suffix⟩, h.accounted, h.fifo, (Option.some_ne_none code).elim,
      fun _ => ⟨_, _, rfl, Nat.le_refl _, Nat.le_refl _⟩, fun _ _ _ => Option.some_ne_none code⟩
  | gap inNext hpc hsome =>
    exact ⟨⟨h.bounded, h.suffix⟩, fun q hq => .inl (accounted_last hq), h.fifo_yield rfl, h.unsealed,
      h.sealed, fun _ _ hpc => by cases hpc⟩
  | control inNext event rest hpc hcontrols =>
    refine ⟨⟨h.bounded, h.suffix⟩, fun q hq => (h.accounted q hq).imp_left (accounted_append _), ?_,
      h.unsealed, h.sealed, fun _ _ hpc => by cases hpc⟩
    show w.sent = events (w.yielded ++ [_]) ++ rest
    rw [events_append, h.fifo, hcontrols]
    simp [Yield.events]
  | bytes inNext hpc hsome =>
    obtain ⟨hqueued, hhead⟩ := h.toQueued.bytes readChunk
      (.bytes w.head (w.outbound.queue.buf.take readChunk))
    refine ⟨hqueued, ?_, h.fifo_yield rfl, h.unsealed, h.sealed, fun _ _ hpc => by cases hpc⟩
    rw [hhead]
    intro q hq
    rcases Nat.lt_or_ge q w.head with hold | hnew
    · exact (h.accounted q hold).imp_left (accounted_append _)
    · exact .inl (accounted_last ⟨hnew, hq⟩)
  | emits inNext code hpc hemitted =>
    exact ⟨⟨h.bounded, h.suffix⟩, fun q hq => (h.accounted q hq).imp_left (accounted_append _),
      h.fifo_yield rfl, h.unsealed, h.sealed, fun _ _ hpc => by cases hpc⟩
  | closed inNext code hpc hcode =>
    exact h.of_eq rfl rfl rfl rfl rfl fun _ _ _ => by rw [hcode]; exact Option.some_ne_none code
  | spawn | closeAgain | notifyWaiters | notifyOne => exact h.of_eq rfl rfl rfl rfl rfl h.closing
  | call | noGap | noControl | noBytes | listens | ends | creates | parks | wakes =>
    exact h.of_eq rfl rfl rfl rfl rfl fun _ _ hpc => by cases hpc
  | polls seen hpc hready =>
    exact h.of_eq rfl rfl rfl rfl rfl fun _ _ hpc => by cases hpc
  | «open» inNext hpc | emittedBefore inNext code hpc =>
    refine h.of_eq rfl rfl rfl rfl rfl fun _ _ hpc => ?_
    cases inNext <;> cases hpc

/-- Everything is there when the close code is yielded. -/
theorem Kept.complete (h : w.Kept) (hdrained : w.outbound.Drained)
    (hcode : w.outbound.closeCode ≠ none) : w.Complete w.yielded := by
  obtain ⟨b, c, hsealed, hb, -⟩ := h.sealed hcode
  refine ⟨b, c, hsealed, fun q hq => ?_, ?_⟩
  · have hall : w.head = w.pushed.length := by
      rw [head, hdrained.bytes]
      rfl
    exact (h.accounted q (by omega)).resolve_right (fun hne => hne hdrained.gap)
  · have hfifo := h.fifo
    rw [hdrained.controls, List.append_nil] at hfifo
    rw [← hfifo]
    exact List.take_prefix c w.sent

/-- After the close code nothing is yielded and nothing comes in. -/
theorem goes_silent (hdrained : w.outbound.Drained) (hemitted : w.outbound.closeEmitted = true)
    (hcode : w.outbound.closeCode ≠ none) (hbounded : w.Queued) (hlate : w.ClosesDrained l)
    (hnext : w.next l = some w') :
    w'.outbound.Drained ∧ w'.outbound.closeEmitted = true ∧ w'.yielded = w.yielded ∧
      w'.sealed = w.sealed ∧ w'.sent = w.sent := by
  have hsame : w.outbound.Drained ∧ w.outbound.closeEmitted = true ∧ w.yielded = w.yielded ∧
      w.sealed = w.sealed ∧ w.sent = w.sent := ⟨hdrained, hemitted, rfl, rfl, rfl⟩
  cases goes_of_next hnext with
  | pushBytes bytes hp =>
    obtain rfl : bytes = [] := hlate hemitted _ hp
    have hover : w.outbound.queue.overflow [] = 0 := by
      rw [ByteQueue.overflow, hdrained.bytes]
      exact Nat.zero_sub _
    refine ⟨⟨?_, ?_, hdrained.controls⟩, hemitted, rfl, rfl, rfl⟩
    · show (w.outbound.queue.push []).1.buf = []
      rw [ByteQueue.push_buf hbounded.bounded, hdrained.bytes]
      exact List.eq_nil_of_length_eq_zero (by rw [Window.length_push]; exact Nat.min_zero _)
    · exact (ByteQueue.push_unreported_eq_zero_iff hbounded.bounded).mpr ⟨hdrained.gap, hover⟩
  | pushControl event hp => exact (hlate hemitted _ hp).elim
  | closeFirst after code hp hnone => exact absurd hnone hcode
  | gap inNext hpc hsome => exact absurd hdrained.gap hsome
  | control inNext event rest hpc hsome =>
    rw [hdrained.controls] at hsome
    cases hsome
  | bytes inNext hpc hsome => exact absurd hdrained.bytes hsome
  | emits inNext code hpc hnot =>
    rw [hemitted] at hnot
    cases hnot
  | spawn | closeAgain | notifyWaiters | notifyOne | call | noGap | noControl | noBytes | «open»
  | closed | emittedBefore | ends | listens | creates | polls | parks | wakes => exact hsame

/-- Only one step yields the close code. -/
theorem goes_unclosed (hnot : w.outbound.closeEmitted = false) (hnext : w.next l = some w') :
    (∃ inNext code, w.consumer = .closeEmitted inNext code ∧ l = .consume ∧
      w'.yielded = w.yielded ++ [.close code] ∧ w'.outbound.closeEmitted = true ∧
      w'.outbound.queue = w.outbound.queue ∧ w'.outbound.controls = w.outbound.controls ∧
      w'.outbound.closeCode = w.outbound.closeCode ∧ w'.sealed = w.sealed ∧ w'.sent = w.sent) ∨
    (w'.outbound.closeEmitted = false ∧
      ∀ code, .close code ∈ w'.yielded → .close code ∈ w.yielded) := by
  have hsame : w.outbound.closeEmitted = false ∧
      ∀ code, Yield.close code ∈ w.yielded → .close code ∈ w.yielded := ⟨hnot, fun _ h => h⟩
  cases goes_of_next hnext with
  | emits inNext code hpc => exact .inl ⟨inNext, code, hpc, rfl, rfl, rfl, rfl, rfl, rfl, rfl, rfl⟩
  | gap | control | bytes =>
    refine .inr ⟨hnot, fun code hmem => ?_⟩
    rcases List.mem_append.mp hmem with hmem | hmem
    · exact hmem
    · cases List.mem_singleton.mp hmem
  | spawn | pushBytes | pushControl | closeFirst | closeAgain | notifyWaiters | notifyOne | call
  | noGap | noControl | noBytes | «open» | closed | emittedBefore | ends | listens | creates | polls
  | parks | wakes => exact .inr hsame

/-- One step. -/
theorem Closing.next (h : w.Closing) (hlate : w.ClosesDrained l) (hnext : w.next l = some w') :
    w'.Closing := by
  have hkept := h.toKept.next hnext
  cases hemitted : w.outbound.closeEmitted with
  | true =>
    obtain ⟨hdrained, before, code, hyielded, hbefore, hcomplete⟩ := h.after hemitted
    have hcode : w.outbound.closeCode ≠ none := by
      intro hnone
      obtain ⟨b, c, hsealed, -⟩ := hcomplete
      rw [h.unsealed hnone] at hsealed
      cases hsealed
    obtain ⟨hdrained', hemitted', hyielded', hsealed', hsent'⟩ :=
      goes_silent hdrained hemitted hcode h.toQueued hlate hnext
    refine ⟨hkept, fun hnot => ?_, fun _ => ⟨hdrained', before, code, ?_, hbefore, ?_⟩⟩
    · rw [hemitted'] at hnot
      cases hnot
    · rw [hyielded', hyielded]
    · rw [Complete, hsealed', hsent']
      exact hcomplete
  | false =>
    rcases goes_unclosed hemitted hnext with
      ⟨inNext, code, hpc, rfl, hyielded, hemitted', hqueue, hcontrols, -, hsealed, hsent⟩ |
        ⟨hemitted', hclose⟩
    · have hdrained := hlate ⟨inNext, code, hpc⟩ hemitted
      refine ⟨hkept, fun hnot => ?_, fun _ => ⟨⟨?_, ?_, ?_⟩, w.yielded, code, hyielded,
        h.before hemitted, ?_⟩⟩
      · rw [hemitted'] at hnot
        cases hnot
      · rw [hqueue, hdrained.bytes]
      · rw [hqueue, hdrained.gap]
      · rw [hcontrols, hdrained.controls]
      · rw [Complete, hsealed, hsent]
        exact h.complete hdrained (h.closing inNext code hpc)
    · refine ⟨hkept, fun _ code hmem => h.before hemitted code (hclose code hmem), fun hyes => ?_⟩
      rw [hemitted'] at hyes
      cases hyes

/-- The only close code is the last item. -/
theorem last_close {before items after : List Yield} {code code' : Nat}
    (hitems : ∀ c, .close c ∉ items)
    (h : items ++ [Yield.close code] = before ++ .close code' :: after) :
    after = [] ∧ before = items := by
  rcases List.append_eq_append_iff.mp h with ⟨rest, hbefore, hlast⟩ | ⟨rest, hitems', hlast⟩
  · cases rest with
    | nil =>
      rw [List.append_nil] at hbefore
      exact ⟨(List.cons.inj hlast).2.symm, hbefore⟩
    | cons first rest =>
      have hlength := congrArg List.length hlast
      simp at hlength
  · cases rest with
    | nil =>
      rw [List.append_nil] at hitems'
      exact ⟨(List.cons.inj hlast).2, hitems'.symm⟩
    | cons first rest =>
      obtain ⟨rfl, -⟩ := List.cons.inj hlast
      exact absurd (hitems' ▸ List.mem_append_right _ List.mem_cons_self) (hitems code')

theorem Closing.closesLast (h : w.Closing) : w.ClosesLast := by
  cases hemitted : w.outbound.closeEmitted with
  | false =>
    refine ⟨fun before code after hyielded => ?_, fun code hmem => ?_⟩
    · refine absurd ?_ (h.before hemitted code)
      rw [hyielded]
      exact List.mem_append_right _ List.mem_cons_self
    · exact absurd hmem (h.before hemitted code)
  | true =>
    obtain ⟨hdrained, items, code, hyielded, hitems, hcomplete⟩ := h.after hemitted
    refine ⟨fun before code' after hsplit => ?_, fun _ _ => ?_⟩
    · obtain ⟨hafter, rfl⟩ := last_close hitems (hyielded.symm.trans hsplit)
      exact ⟨hafter, hcomplete⟩
    · exact w.outbound.tryNext_eq_none_iff.mpr ⟨hdrained, .inr hemitted⟩

/-- A push of something leaves something. -/
theorem push_undrained {q : ByteQueue} (hbounded : q.buf.length ≤ q.bounds.capacityBytes)
    {bytes : List UInt8} (hempty : (q.push bytes).1.buf = [])
    (hnone : (q.push bytes).1.unreportedDropped = 0) : bytes = [] := by
  have hover := ((ByteQueue.push_unreported_eq_zero_iff hbounded).mp hnone).2
  have hlength := congrArg List.length (ByteQueue.push_buf hbounded bytes)
  rw [hempty, Window.length_push, List.length_nil] at hlength
  rw [ByteQueue.overflow] at hover
  exact List.eq_nil_of_length_eq_zero (by omega)

/-- A close code that comes too early, or a push that comes too late. -/
theorem Closing.not_closesLast (h : w.Closing) (hlate : ¬ w.ClosesDrained l)
    (hnext : w.next l = some w') : ¬ w'.ClosesLast := by
  -- After the close code the connection is drained in every state.
  have hdrained : ∀ code, .close code ∈ w'.yielded → w'.ClosesLast → w'.outbound.Drained :=
    fun code hmem hlast => (w'.outbound.tryNext_eq_none_iff.mp (hlast.silent code hmem)).1
  intro hlast
  cases l with
  | consume =>
    obtain ⟨⟨inNext, code, hpc⟩, hlate⟩ := Classical.not_imp.mp hlate
    obtain ⟨hemitted, hundrained⟩ := Classical.not_imp.mp hlate
    simp only [OutboundRun.next, consume, hpc, hemitted, Bool.false_eq_true, if_false,
      Option.some.injEq] at hnext
    subst hnext
    obtain ⟨hbytes, hgap, hcontrols⟩ := hdrained code
      (List.mem_append_right _ (List.mem_singleton_self _)) hlast
    exact hundrained ⟨hbytes, hgap, hcontrols⟩
  | produce i =>
    obtain ⟨hemitted, hlate⟩ := Classical.not_imp.mp hlate
    obtain ⟨p, hlate⟩ := Classical.not_forall.mp hlate
    obtain ⟨hp, hlate⟩ := Classical.not_imp.mp hlate
    obtain ⟨-, before, code, hyielded, -⟩ := h.after hemitted
    have hclosed : .close code ∈ w.yielded := by
      rw [hyielded]
      exact List.mem_append_right _ (List.mem_singleton_self _)
    rw [OutboundRun.next, hp, Option.bind_some] at hnext
    cases p with
    | pushBytes bytes =>
      obtain rfl := Option.some.inj hnext
      obtain ⟨hempty, hnone, -⟩ := hdrained code hclosed hlast
      exact hlate (push_undrained h.bounded hempty hnone)
    | pushControl event =>
      obtain rfl := Option.some.inj hnext
      exact List.append_ne_nil_of_right_ne_nil _ (List.cons_ne_nil event [])
        (hdrained code hclosed hlast).controls
    | close | notifyWaiters | notifyOne | done => exact hlate trivial
  | pushBytes | pushControl | close | call => exact hlate trivial

/-- **The close code is last and loses nothing**, in every state of a run, exactly when the
connection is drained in the step that yields the code, and nothing is pushed after it. -/
theorem closesLast_iff_closesDrained (conn : ConnGeneration) (bounds : QueueBounds)
    (run : List Label) :
    Trace.AllStates next ClosesLast (init conn bounds) run ↔
      Trace.AllSteps next ClosesDrained (init conn bounds) run :=
  Trace.allStates_iff_allSteps (fun _ h => h.closesLast) (fun _ _ _ h hc hn => h.next hc hn)
    (fun _ _ _ h hc hn => h.not_closesLast hc hn) (closing_init conn bounds)

/-- A shell prints and exits between the consumer's look at the backlog and its look at the close
code. -/
def lastWords : List Label :=
  [.call true, .consume, .consume, .consume, .pushBytes [98, 121, 101], .produce 0, .produce 0,
    .close CloseCode.sessionEnded, .produce 1, .consume, .consume]

/-- What it printed before the first `close` is not in front of the close code. -/
theorem lastWords_lost : ¬ Trace.AllStates next ClosesLast (init ⟨1⟩ backlogBounds) lastWords := by
  intro hall
  have hrun : (Trace.run next (init ⟨1⟩ backlogBounds) lastWords).map
      (fun w => (w.yielded, w.sealed)) = some ([.close CloseCode.sessionEnded], some (3, 0)) := by
    decide
  obtain ⟨w, hlast, hobserved⟩ := hall.observe hrun
  obtain ⟨hyielded, hsealed⟩ := Prod.mk.inj hobserved
  obtain ⟨-, bytes, controls, hcounts, hbytes, -⟩ := hlast.last [] _ [] hyielded
  obtain ⟨rfl, -⟩ := Prod.mk.inj (Option.some.inj (hsealed.symm.trans hcounts))
  obtain ⟨item, hnone, -⟩ := hbytes 0 (by decide)
  cases hnone

end OutboundRun

end OpenabPty
