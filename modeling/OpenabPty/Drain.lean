import OpenabPty.Outbound

/-!
# Draining a connection

`try_next` called until it returns nothing: what the pump of a connection sends when no more
is pushed meanwhile. Control frames come before bytes, and a gap report before both.
-/

namespace OpenabPty

namespace Outbound

/-- How many items are left at most. -/
def pending (o : Outbound) : Nat :=
  (if o.queue.unreportedDropped = 0 then 0 else 1) + o.controls.length + o.queue.buf.length +
    (if o.closeEmitted then 0 else 1)

/-- What one drain step does, by the item it yields. -/
inductive Yields (o : Outbound) : Outbound → OutboundItem → Prop
  | gap (h : o.queue.unreportedDropped ≠ 0) :
      Yields o { o with queue := { o.queue with unreportedDropped := 0 } }
        (.control (.gap o.queue.unreportedDropped))
  | control {event : ControlEvent} {rest : List ControlEvent}
      (h : o.queue.unreportedDropped = 0) (hc : o.controls = event :: rest) :
      Yields o { o with controls := rest } (.control event)
  | bytes (h : o.queue.unreportedDropped = 0) (hc : o.controls = []) (hb : o.queue.buf ≠ []) :
      Yields o { o with queue := { o.queue with buf := o.queue.buf.drop readChunk } }
        (.bytes (o.queue.buf.take readChunk))
  | close {code : Nat} (h : o.queue.unreportedDropped = 0) (hc : o.controls = [])
      (hb : o.queue.buf = []) (hcode : o.closeCode = some code) (he : o.closeEmitted = false) :
      Yields o { o with closeEmitted := true } (.close code)

theorem take_readChunk_ne_nil {bytes : List UInt8} : bytes.take readChunk ≠ [] ↔ bytes ≠ [] := by
  have hpos : readChunk ≠ 0 := by decide
  rw [ne_eq, List.take_eq_nil_iff, not_or]
  exact ⟨fun h => h.2, fun h => ⟨hpos, h⟩⟩

/-- A drain step yields an item, or finds nothing to send. -/
theorem tryNext_cases (o : Outbound) :
    (∃ o' item, o.tryNext = (o', some item) ∧ o.Yields o' item) ∨
    (o.tryNext.2 = none ∧ o.queue.unreportedDropped = 0 ∧ o.controls = [] ∧ o.queue.buf = [] ∧
      (o.closeCode = none ∨ o.closeEmitted = true)) := by
  generalize hr : o.tryNext = r
  by_cases hgap : o.queue.unreportedDropped = 0
  · have hnone : o.queue.takeUnreportedGap = (o.queue, none) := by
      rw [ByteQueue.takeUnreportedGap, if_pos hgap]
    simp only [tryNext, hnone] at hr
    split at hr
    · rename_i event rest hc
      exact .inl ⟨_, _, hr.symm, .control hgap hc⟩
    · rename_i hc
      split at hr
      · rename_i hb
        exact .inl ⟨_, _, hr.symm, .bytes hgap hc (take_readChunk_ne_nil.mp hb)⟩
      · rename_i hb
        have hb : o.queue.buf = [] := not_not.mp fun hne => hb (take_readChunk_ne_nil.mpr hne)
        split at hr
        · rename_i hcode
          exact .inr ⟨hr ▸ rfl, hgap, hc, hb, .inl hcode⟩
        · rename_i code hcode
          split at hr
          · rename_i he
            exact .inr ⟨hr ▸ rfl, hgap, hc, hb, .inr he⟩
          · rename_i he
            exact .inl ⟨_, _, hr.symm, .close hgap hc hb hcode (Bool.eq_false_iff.mpr he)⟩
  · simp only [tryNext, ByteQueue.takeUnreportedGap, if_neg hgap] at hr
    exact .inl ⟨_, _, hr.symm, .gap hgap⟩

theorem Yields.pending_lt {o o' : Outbound} {item : OutboundItem} (h : o.Yields o' item) :
    o'.pending < o.pending := by
  cases h with
  | gap h =>
    simp only [pending, h, if_true, if_false]
    omega
  | control h hc =>
    simp only [pending, hc, List.length_cons]
    omega
  | bytes h hc hb =>
    have hpos := List.length_pos_iff.mpr hb
    have hchunk : 0 < readChunk := by decide
    simp only [pending, List.length_drop]
    omega
  | close h hc hb hcode he =>
    simp only [pending, he, if_true, Bool.false_eq_true, if_false]
    omega

theorem yields_of_tryNext {o o' : Outbound} {item : OutboundItem}
    (h : o.tryNext = (o', some item)) : o.Yields o' item := by
  rcases o.tryNext_cases with ⟨o₁, item₁, heq, hy⟩ | ⟨hnone, -⟩
  · cases h.symm.trans heq
    exact hy
  · rw [h] at hnone
    cases hnone

/-- Drain to exhaustion. -/
def drain (o : Outbound) : List OutboundItem :=
  match _h : o.tryNext with
  | (_, none) => []
  | (o', some item) => item :: o'.drain
termination_by o.pending
decreasing_by exact (yields_of_tryNext _h).pending_lt

theorem drain_of_tryNext {o o' : Outbound} {item : OutboundItem}
    (h : o.tryNext = (o', some item)) : o.drain = item :: o'.drain := by
  rw [drain]
  split
  · rename_i heq
    cases h.symm.trans heq
  · rename_i heq
    cases h.symm.trans heq
    rfl

theorem drain_of_none {o : Outbound} (h : o.tryNext.2 = none) : o.drain = [] := by
  rw [drain]
  split
  · rfl
  · rename_i heq
    rw [heq] at h
    cases h

/-- A gap that was not reported is what the client hears first. -/
theorem drain_of_gap {o : Outbound} (h : o.queue.unreportedDropped ≠ 0) :
    o.drain.head? = some (.control (.gap o.queue.unreportedDropped)) := by
  rcases o.tryNext_cases with ⟨o', item, heq, hy⟩ | ⟨-, hzero, -⟩
  · rw [drain_of_tryNext heq]
    cases hy with
    | gap => rfl
    | control hzero => exact absurd hzero h
    | bytes hzero => exact absurd hzero h
    | close hzero => exact absurd hzero h
  · exact absurd hzero h

theorem drain_control {o : Outbound} {event : ControlEvent} {rest : List ControlEvent}
    (h : o.queue.unreportedDropped = 0) (hc : o.controls = event :: rest) :
    o.drain = .control event :: { o with controls := rest }.drain := by
  rcases o.tryNext_cases with ⟨o', item, heq, hy⟩ | ⟨-, -, hnil, -⟩
  · rw [drain_of_tryNext heq]
    cases hy with
    | gap hne => exact absurd h hne
    | control _ hc' =>
      cases hc.symm.trans hc'
      rfl
    | bytes _ hnil => cases hnil.symm.trans hc
    | close _ hnil => cases hnil.symm.trans hc
  · cases hnil.symm.trans hc

/-- Every control frame comes before the bytes. -/
theorem drain_controls {o : Outbound} (h : o.queue.unreportedDropped = 0) :
    o.drain = o.controls.map .control ++ { o with controls := [] }.drain := by
  generalize hc : o.controls = controls
  induction controls generalizing o with
  | nil =>
    have heq : { o with controls := [] } = o := by rw [← hc]
    rw [heq, List.map_nil, List.nil_append]
  | cons event rest ih =>
    rw [drain_control h hc, List.map_cons, List.cons_append]
    congr 1
    exact ih (o := { o with controls := rest }) h rfl

/-- An open connection without control frames drains to chunks of its backlog. -/
theorem drain_bytes {o : Outbound} (h : o.queue.unreportedDropped = 0) (hc : o.controls = [])
    (hopen : o.closeCode = none) :
    ∃ chunks : List (List UInt8), o.drain = chunks.map .bytes ∧ chunks.flatten = o.queue.buf := by
  generalize hn : o.queue.buf.length = n
  induction n using Nat.strongRecOn generalizing o with
  | ind n ih =>
    rcases o.tryNext_cases with ⟨o', item, heq, hy⟩ | ⟨hnone, -, -, hb, -⟩
    · rw [drain_of_tryNext heq]
      cases hy with
      | gap hne => exact absurd h hne
      | control _ hc' => cases hc.symm.trans hc'
      | close _ _ _ hcode => cases hopen.symm.trans hcode
      | bytes _ _ hb =>
        have hpos := List.length_pos_iff.mpr hb
        have hchunk : 0 < readChunk := by decide
        obtain ⟨chunks, hdrain, hflat⟩ := ih (o.queue.buf.length - readChunk) (by omega)
          (o := { o with queue := { o.queue with buf := o.queue.buf.drop readChunk } }) h hc hopen
          (List.length_drop)
        refine ⟨o.queue.buf.take readChunk :: chunks, ?_, ?_⟩
        · rw [hdrain, List.map_cons]
        · rw [List.flatten_cons, hflat, List.take_append_drop]
    · exact ⟨[], by rw [drain_of_none hnone, List.map_nil], by rw [hb, List.flatten_nil]⟩

end Outbound

end OpenabPty
