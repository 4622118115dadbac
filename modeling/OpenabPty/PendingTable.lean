import OpenabPty.Mux
import Mathlib.Data.List.Nodup
import Mathlib.Order.Basic

/-!
# The table of pending calls

What a step does to the table, the calls and the ids, and the invariant of the table: an entry
belongs to the call at its index, whose id it has and which has no answer yet; a call that waits
for an answer is in the table.

The table holds live calls only as long as no call is dropped while it is in the table, no call
enters it once `close` has returned, and no second `close` returns before the first one has
emptied it.
-/

namespace OpenabPty.Mux

open Trace

/-- The same table, calls and ids. -/
structure SameTable (v w : Mux) : Prop where
  pending : w.pending = v.pending
  calls : w.calls = v.calls
  nextId : w.nextId = v.nextId

/-- How a call may go on without the table, which has `n` entries. -/
inductive Goes (n : Nat) (call : MuxCall) : CallPc → Prop
  | started (h : call.pc = .start) : Goes n call .insert
  | refused (h : call.pc = .start) : Goes n call (.returned (.error .notAttached))
  | full (h : call.pc = .insert) (hn : maxInflightPerSession ≤ n) : Goes n call (.returned (.error .tooManyInFlight))
  | unsent (h : call.pc = .send) : Goes n call .sendFailed
  | sent (h : call.pc = .send) : Goes n call .wait
  | answered {frame : Json} (h : call.pc = .wait) (hs : call.slot = .filled frame) :
    Goes n call (.returned (.ok frame))
  | abandoned (h : call.pc = .wait) (hs : call.slot = .dropped) :
    Goes n call (.returned (.error .notAttached))
  | expired (h : call.pc = .wait) (hs : call.slot = .empty) : Goes n call .expired
  | cancelled (h : call.receiving = true) : Goes n call .cancelled

/-- What a step does to the table, the calls and the ids. -/
inductive Change (w : Mux) (l : Label) (w' : Mux) : Prop
  | none (h : SameTable w w')
  | spawn (caller : MuxCaller) (request : Json) (h : SameTable (w.spawn caller request) w')
  | goto {i : Nat} {call : MuxCall} {pc : CallPc} (hi : w.calls[i]? = some call)
    (hg : Goes w.pending.length call pc) (hl : pc = .cancelled → l = .cancel i) (h : SameTable (w.goto i pc) w')
  | register {i : Nat} {call : MuxCall} (hl : l = .step i) (hi : w.calls[i]? = some call)
    (hpc : call.pc = .insert) (hroom : w.pending.length < maxInflightPerSession)
    (h : SameTable (w.register i) w')
  | finish {i : Nat} {call : MuxCall} {error : CallError} (hi : w.calls[i]? = some call)
    (hpc : call.pc = .sendFailed ∧ error = .notAttached ∨ call.pc = .expired ∧ error = .timeout)
    (h : SameTable ((w.removePending call.id).goto i (.returned (.error error))) w')
  | answer {frame : Json} {id j : Nat} (hl : l = .macFrame frame) (ha : answerId frame = some id)
    (hj : w.pending.lookup id = some j) (h : SameTable (w.answer id j frame) w')
  | failPending (h : SameTable w.failPending w')

variable {w w' : Mux} {l : Label} {i j : Nat} {call : MuxCall}

theorem SameTable.refl : SameTable w w := ⟨rfl, rfl, rfl⟩

theorem sameTable_trySend (message : MacMessage) : SameTable w (w.trySend message) := by
  rw [trySend]
  split
  · exact ⟨rfl, rfl, rfl⟩
  · exact .refl

theorem callStep_change (hi : w.calls[i]? = some call) (hs : w.callStep i call = some w') :
    Change w (.step i) w' := by
  rw [callStep] at hs
  split at hs
  next hpc =>
    obtain rfl := Option.some.inj hs
    split
    · exact .goto hi (.started hpc) (fun h => by cases h) .refl
    · exact .goto hi (.refused hpc) (fun h => by cases h) .refl
  next hpc =>
    obtain rfl := Option.some.inj hs
    split
    next hfull => exact .goto hi (.full hpc hfull) (fun h => by cases h) .refl
    next hroom => exact .register rfl hi hpc (not_le.mp hroom) .refl
  next hpc =>
    split_ifs at hs
    · obtain rfl := Option.some.inj hs
      exact .goto hi (.unsent hpc) (fun h => by cases h) .refl
    · obtain rfl := Option.some.inj hs
      have hsame := sameTable_trySend (w := w)
      refine .goto hi (.sent hpc) (fun h => by cases h) ⟨(hsame _).pending, ?_, (hsame _).nextId⟩
      simp only [goto, (hsame _).calls]
  next hpc =>
    obtain rfl := Option.some.inj hs
    exact .finish hi (.inl ⟨hpc, rfl⟩) .refl
  next hpc =>
    split at hs
    · cases hs
    next hslot =>
      obtain rfl := Option.some.inj hs
      exact .goto hi (.answered hpc hslot) (fun h => by cases h) .refl
    next hslot =>
      obtain rfl := Option.some.inj hs
      exact .goto hi (.abandoned hpc hslot) (fun h => by cases h) .refl
  next hpc =>
    obtain rfl := Option.some.inj hs
    exact .finish hi (.inr ⟨hpc, rfl⟩) .refl
  · cases hs
  · cases hs

theorem onMacFrame_change (frame : Json) : Change w (.macFrame frame) (w.onMacFrame frame) := by
  rw [onMacFrame]
  split
  next id ha =>
    cases hj : w.pending.lookup id with
    | none => exact .none ⟨rfl, rfl, rfl⟩
    | some j => exact .answer rfl ha hj ⟨rfl, rfl, rfl⟩
  next =>
    cases macReply frame with
    | none => exact .none ⟨rfl, rfl, rfl⟩
    | some reply =>
      have hsame := sameTable_trySend (w := w) (.text reply)
      exact .none ⟨hsame.pending, hsame.calls, hsame.nextId⟩

/-- A step changes the table in one of these ways. -/
theorem next_change (hs : w.next l = some w') : Change w l w' := by
  cases l with
  | handshake version =>
    obtain rfl := Option.some.inj hs
    exact .spawn _ _ .refl
  | initialized =>
    simp only [next] at hs
    split_ifs at hs
    obtain rfl := Option.some.inj hs
    exact .none (sameTable_trySend _)
  | loopback request =>
    obtain ⟨caller, -, rfl⟩ := Option.map_eq_some_iff.mp hs
    exact .spawn _ _ .refl
  | step i =>
    obtain ⟨call, hi, hs⟩ := Option.bind_eq_some_iff.mp hs
    exact callStep_change hi hs
  | timeout i =>
    obtain ⟨call, hi, hs⟩ := Option.bind_eq_some_iff.mp hs
    split at hs
    next hpc hslot =>
      obtain rfl := Option.some.inj hs
      exact .goto hi (.expired hpc hslot) (fun h => by cases h) .refl
    · cases hs
  | cancel i =>
    obtain ⟨call, hi, hs⟩ := Option.bind_eq_some_iff.mp hs
    split at hs
    · cases hs
    · split_ifs at hs with hr
      obtain rfl := Option.some.inj hs
      exact .goto hi (.cancelled hr) (fun _ => rfl) .refl
  | macFrame frame =>
    obtain rfl := Option.some.inj hs
    exact onMacFrame_change frame
  | ping | pong =>
    obtain rfl := Option.some.inj hs
    exact .none (sameTable_trySend _)
  | close code =>
    simp only [next] at hs
    split_ifs at hs <;> obtain rfl := Option.some.inj hs <;> exact .none ⟨rfl, rfl, rfl⟩
  | closer =>
    simp only [next] at hs
    split at hs
    next code _ =>
      obtain rfl := Option.some.inj hs
      have hsame := sameTable_trySend (w := w) (.close code)
      exact .none ⟨hsame.pending, hsame.calls, hsame.nextId⟩
    next =>
      obtain rfl := Option.some.inj hs
      exact .failPending ⟨rfl, rfl, rfl⟩
    · cases hs
    · cases hs
  | writer ok =>
    simp only [next] at hs
    split at hs <;> cases hs <;> exact .none ⟨rfl, rfl, rfl⟩

/-! ## The calls after an operation on the table -/

theorem goto_call (pc : CallPc) :
    (w.goto i pc).calls[j]? = w.calls[j]?.map fun call => if i = j then call.goto pc else call := by
  simp only [goto, List.getElem?_modify]
  rfl

theorem answer_call (id : Nat) (frame : Json) :
    (w.answer id i frame).calls[j]? =
      w.calls[j]?.map fun call => if i = j then call.complete frame else call := by
  simp only [answer, List.getElem?_modify]
  rfl

theorem removeEntries_call (leaves : Nat × Nat → Bool) :
    (w.removeEntries leaves).calls[j]? = w.calls[j]?.map fun call =>
      if w.pending.any fun e => leaves e && e.2 == j then call.dropSender else call := by
  simp only [removeEntries, List.getElem?_mapIdx]

theorem register_call :
    (w.register i).calls[j]? = (w.removePending (some w.nextId)).calls[j]?.map fun call =>
      if i = j then { call with id := some w.nextId, pc := .send } else call := by
  simp only [register, List.getElem?_modify]
  rfl

end OpenabPty.Mux

namespace OpenabPty.MuxCall

variable {call : MuxCall} {frame : Json}

@[simp] theorem dropSender_pc : call.dropSender.pc = call.pc := by
  rw [dropSender]
  split <;> rfl

@[simp] theorem dropSender_id : call.dropSender.id = call.id := by
  rw [dropSender]
  split <;> rfl

@[simp] theorem dropSender_caller : call.dropSender.caller = call.caller := by
  rw [dropSender]
  split <;> rfl

theorem dropSender_slot_ne_empty : call.dropSender.slot ≠ .empty := by
  rw [dropSender]
  cases h : call.slot <;> simp [h]

theorem dropSender_slot_filled : call.dropSender.slot = .filled frame ↔ call.slot = .filled frame := by
  rw [dropSender]
  cases h : call.slot <;> simp [h]

@[simp] theorem complete_pc : (call.complete frame).pc = call.pc := by
  rw [complete]
  split <;> rfl

@[simp] theorem complete_id : (call.complete frame).id = call.id := by
  rw [complete]
  split <;> rfl

@[simp] theorem complete_caller : (call.complete frame).caller = call.caller := by
  rw [complete]
  split <;> rfl

theorem complete_receiving : (call.complete frame).receiving = call.receiving := by
  simp only [receiving, complete_pc]

/-- A call that waits has its answer afterwards. -/
theorem complete_slot_of_receiving (hr : call.receiving = true) (hs : call.slot = .empty) :
    (call.complete frame).slot = .filled frame := by
  simp only [complete, hr, hs]

theorem complete_slot_ne_empty (hr : call.receiving = true) :
    (call.complete frame).slot ≠ .empty := by
  cases hs : call.slot with
  | empty =>
    rw [complete_slot_of_receiving hr hs]
    simp
  | filled f => simp [complete, hs]
  | dropped => simp [complete, hs]

@[simp] theorem goto_pc (pc : CallPc) : (call.goto pc).pc = pc := rfl
@[simp] theorem goto_id (pc : CallPc) : (call.goto pc).id = call.id := rfl
@[simp] theorem goto_slot (pc : CallPc) : (call.goto pc).slot = call.slot := rfl
@[simp] theorem goto_caller (pc : CallPc) : (call.goto pc).caller = call.caller := rfl

/-- The call has not entered the table yet. -/
def early (call : MuxCall) : Prop := call.pc = .start ∨ call.pc = .insert

end OpenabPty.MuxCall

namespace OpenabPty.Mux

variable {w w' : Mux} {l : Label} {i j : Nat} {call : MuxCall}

/-- The invariant of the table. -/
structure Table (w : Mux) : Prop where
  owner : ∀ k j, (k, j) ∈ w.pending →
    ∃ call, w.calls[j]? = some call ∧ call.id = some k ∧ call.slot = .empty
  keys : (w.pending.map Prod.fst).Nodup
  listed : ∀ (j : Nat) (call : MuxCall), w.calls[j]? = some call → call.receiving = true →
    call.slot = .empty → ∃ k, (k, j) ∈ w.pending
  early : ∀ (j : Nat) (call : MuxCall), w.calls[j]? = some call → call.early →
    call.id = none ∧ call.slot = .empty

theorem Table.init : Table Mux.init := by
  refine ⟨?_, List.nodup_nil, ?_, ?_⟩
  · intro k j h
    cases h
  · intro j call h
    simp [Mux.init] at h
  · intro j call h
    simp [Mux.init] at h

theorem Table.same (h : Table w) (hsame : SameTable w w') : Table w' := by
  obtain ⟨howner, hkeys, hlisted, hearly⟩ := h
  refine ⟨?_, ?_, ?_, ?_⟩
  · rw [hsame.pending, hsame.calls]
    exact howner
  · rw [hsame.pending]
    exact hkeys
  · rw [hsame.pending, hsame.calls]
    exact hlisted
  · rw [hsame.calls]
    exact hearly

theorem mem_of_lookup {id : Nat} (h : w.pending.lookup id = some j) : (id, j) ∈ w.pending := by
  obtain ⟨before, after, heq, -⟩ := List.lookup_eq_some_iff.mp h
  simp [heq]

/-- An index has one id in the table. -/
theorem Table.unique (h : Table w) {k k' : Nat} (hk : (k, j) ∈ w.pending)
    (hk' : (k', j) ∈ w.pending) : k = k' := by
  obtain ⟨call, hj, hid, -⟩ := h.owner k j hk
  obtain ⟨call', hj', hid', -⟩ := h.owner k' j hk'
  obtain rfl := Option.some.inj (hj.symm.trans hj')
  exact Option.some.inj (hid.symm.trans hid')

theorem Table.spawn (h : Table w) (caller : MuxCaller) (request : Json) :
    Table (w.spawn caller request) := by
  have hcases : ∀ (j : Nat) (call : MuxCall), (w.spawn caller request).calls[j]? = some call →
      w.calls[j]? = some call ∨ (call.pc = .start ∧ call.id = none ∧ call.slot = .empty) := by
    intro j call hj
    simp only [Mux.spawn] at hj
    by_cases hlt : j < w.calls.length
    · exact .inl (by rwa [List.getElem?_append_left hlt] at hj)
    · obtain rfl := List.mem_singleton.mp
        (List.mem_of_getElem? (by rwa [List.getElem?_append_right (by omega)] at hj))
      exact .inr ⟨rfl, rfl, rfl⟩
  refine ⟨?_, h.keys, ?_, ?_⟩
  · intro k j hk
    obtain ⟨call, hj, hrest⟩ := h.owner k j hk
    exact ⟨call, by simp [Mux.spawn, List.getElem?_append_left (List.getElem?_eq_some_iff.mp hj).1, hj], hrest⟩
  · intro j call hj hr hs
    rcases hcases j call hj with hold | ⟨hpc, -, -⟩
    · exact h.listed j call hold hr hs
    · simp [MuxCall.receiving, hpc] at hr
  · intro j call hj hearly
    rcases hcases j call hj with hold | ⟨-, hrest⟩
    · exact h.early j call hold hearly
    · exact hrest

/-- A call goes on: it may not start to wait, nor come back to where it began. -/
theorem Table.goto (h : Table w) {pc : CallPc} (hi : w.calls[i]? = some call)
    (hr : (call.goto pc).receiving = true → call.receiving = true)
    (he : (call.goto pc).early → call.early) : Table (w.goto i pc) := by
  refine ⟨?_, h.keys, ?_, ?_⟩
  · intro k j hk
    obtain ⟨c, hj, hid, hs⟩ := h.owner k j hk
    refine ⟨_, by rw [goto_call, hj]; rfl, ?_, ?_⟩
    · split_ifs
      · exact hid
      · exact hid
    · split_ifs
      · exact hs
      · exact hs
  · intro j call' hj hrec hs
    rw [goto_call] at hj
    obtain ⟨c, hc, rfl⟩ := Option.map_eq_some_iff.mp hj
    split_ifs at hrec hs with hij
    · subst hij
      obtain rfl := Option.some.inj (hi.symm.trans hc)
      exact h.listed i call hi (hr hrec) hs
    · exact h.listed j c hc hrec hs
  · intro j call' hj hearly
    rw [goto_call] at hj
    obtain ⟨c, hc, rfl⟩ := Option.map_eq_some_iff.mp hj
    split_ifs at hearly ⊢ with hij
    · subst hij
      obtain rfl := Option.some.inj (hi.symm.trans hc)
      exact h.early i call hi (he hearly)
    · exact h.early j c hc hearly

theorem Table.removeEntries (h : Table w) (leaves : Nat × Nat → Bool) :
    Table (w.removeEntries leaves) := by
  refine ⟨?_, ?_, ?_, ?_⟩
  · intro k j hk
    obtain ⟨hk, hstays⟩ := List.mem_filter.mp hk
    obtain ⟨c, hj, hid, hs⟩ := h.owner k j hk
    refine ⟨c, ?_, hid, hs⟩
    -- The entries of one call have one id, so none of them leaves.
    have hnone : (w.pending.any fun e => leaves e && e.2 == j) = false := by
      rw [List.any_eq_false]
      rintro ⟨k', j'⟩ hk' hleaves
      simp only [Bool.and_eq_true, beq_iff_eq] at hleaves
      obtain ⟨hleaves, rfl⟩ := hleaves
      obtain rfl := h.unique hk hk'
      simp [hleaves] at hstays
    rw [removeEntries_call, hj, Option.map_some, hnone]
    rfl
  · exact h.keys.sublist ((List.filter_sublist).map _)
  · intro j call' hj hrec hs
    rw [removeEntries_call] at hj
    obtain ⟨c, hc, rfl⟩ := Option.map_eq_some_iff.mp hj
    split_ifs at hrec hs with hany
    · exact absurd hs MuxCall.dropSender_slot_ne_empty
    · obtain ⟨k, hk⟩ := h.listed j c hc hrec hs
      refine ⟨k, List.mem_filter.mpr ⟨hk, ?_⟩⟩
      by_contra hleaves
      exact hany (List.any_eq_true.mpr ⟨(k, j), hk, by simpa using hleaves⟩)
  · intro j call' hj hearly
    rw [removeEntries_call] at hj
    obtain ⟨c, hc, rfl⟩ := Option.map_eq_some_iff.mp hj
    split_ifs at hearly ⊢ with hany
    · -- A call that has not entered the table has no entry.
      obtain ⟨⟨k, j'⟩, hk, hleaves⟩ := List.any_eq_true.mp hany
      simp only [Bool.and_eq_true, beq_iff_eq] at hleaves
      obtain ⟨-, rfl⟩ := hleaves
      obtain ⟨c', hc', hid, -⟩ := h.owner k j' hk
      obtain rfl := Option.some.inj (hc.symm.trans hc')
      have hnone := (h.early j' c hc (by simpa [MuxCall.early] using hearly)).1
      rw [hid] at hnone
      cases hnone
    · exact h.early j c hc hearly

theorem Table.answer (h : Table w) {id : Nat} (hj : w.pending.lookup id = some i) (frame : Json) :
    Table (w.answer id i frame) := by
  have hmem := mem_of_lookup hj
  refine ⟨?_, ?_, ?_, ?_⟩
  · intro k j hk
    obtain ⟨hk, hne⟩ := List.mem_filter.mp hk
    obtain ⟨c, hc, hrest⟩ := h.owner k j hk
    refine ⟨c, ?_, hrest⟩
    have hij : i ≠ j := by
      rintro rfl
      simp [h.unique hk hmem] at hne
    simp [answer_call, hc, hij]
  · exact h.keys.sublist ((List.filter_sublist).map _)
  · intro j call' hc' hrec hs
    rw [answer_call] at hc'
    obtain ⟨c, hc, rfl⟩ := Option.map_eq_some_iff.mp hc'
    split_ifs at hrec hs with hij
    · exact absurd hs (MuxCall.complete_slot_ne_empty (MuxCall.complete_receiving.symm.trans hrec))
    · obtain ⟨k, hk⟩ := h.listed j c hc hrec hs
      refine ⟨k, List.mem_filter.mpr ⟨hk, ?_⟩⟩
      have hne : k ≠ id := by
        rintro rfl
        exact hij (congrArg Prod.snd (List.inj_on_of_nodup_map h.keys hmem hk rfl))
      simpa using hne
  · intro j call' hc' hearly
    rw [answer_call] at hc'
    obtain ⟨c, hc, rfl⟩ := Option.map_eq_some_iff.mp hc'
    split_ifs at hearly ⊢ with hij
    · subst hij
      have hearly' : c.early := by simpa [MuxCall.early] using hearly
      obtain ⟨c', hc'', hid, -⟩ := h.owner id i hmem
      obtain rfl := Option.some.inj (hc.symm.trans hc'')
      have hnone := (h.early i c hc hearly').1
      rw [hid] at hnone
      cases hnone
    · exact h.early j c hc hearly

/-- The keys that are left after `removePending`. -/
theorem removePending_pending (id : Nat) :
    (w.removePending (some id)).pending = w.pending.filter fun e => e.1 ≠ id := by
  refine List.filter_congr ?_
  rintro ⟨k, j⟩ -
  by_cases hk : k = id <;> simp [hk]

theorem Table.register (h : Table w) (hi : w.calls[i]? = some call) (hpc : call.pc = .insert) :
    Table (w.register i) := by
  have hr := h.removeEntries fun e => some e.1 == some w.nextId
  obtain ⟨hid, hslot⟩ := h.early i call hi (.inr hpc)
  -- The call itself loses nothing: it has no entry yet.
  have hi' : (w.removePending (some w.nextId)).calls[i]? = some call := by
    have hnone : (w.pending.any fun e => some e.1 == some w.nextId && e.2 == i) = false := by
      rw [List.any_eq_false]
      rintro ⟨k, j⟩ hk hleaves
      simp only [Bool.and_eq_true, beq_iff_eq] at hleaves
      obtain ⟨-, rfl⟩ := hleaves
      obtain ⟨c, hc, hid', -⟩ := h.owner k j hk
      obtain rfl := Option.some.inj (hi.symm.trans hc)
      rw [hid] at hid'
      cases hid'
    rw [removePending, removeEntries_call, hi, Option.map_some, hnone]
    rfl
  refine ⟨?_, ?_, ?_, ?_⟩
  · intro k j hk
    rcases List.mem_cons.mp hk with heq | hk
    · cases heq
      refine ⟨{ call with id := some w.nextId, pc := .send }, ?_, rfl, hslot⟩
      rw [register_call, hi', Option.map_some, if_pos rfl]
    · obtain ⟨c, hc, hid', hs⟩ := hr.owner k j hk
      have hij : i ≠ j := by
        rintro rfl
        obtain rfl := Option.some.inj (hi'.symm.trans hc)
        rw [hid] at hid'
        cases hid'
      refine ⟨c, ?_, hid', hs⟩
      rw [register_call, removePending, hc, Option.map_some, if_neg hij]
  · rw [Mux.register, List.map_cons, List.nodup_cons, removePending_pending]
    refine ⟨?_, h.keys.sublist ((List.filter_sublist).map _)⟩
    simp
  · intro j call' hc' hrec hs
    rw [register_call] at hc'
    obtain ⟨c, hc, rfl⟩ := Option.map_eq_some_iff.mp hc'
    by_cases hij : i = j
    · subst hij
      exact ⟨w.nextId, List.mem_cons_self⟩
    · rw [if_neg hij] at hrec hs
      obtain ⟨k, hk⟩ := hr.listed j c hc hrec hs
      exact ⟨k, List.mem_cons_of_mem _ hk⟩
  · intro j call' hc' hearly
    rw [register_call] at hc'
    obtain ⟨c, hc, rfl⟩ := Option.map_eq_some_iff.mp hc'
    split_ifs at hearly ⊢ with hij
    · rcases hearly with h | h <;> cases h
    · exact hr.early j c hc hearly

/-- A call that goes on without the table neither starts to wait nor begins again. -/
theorem Goes.frame {n : Nat} {pc : CallPc} (hg : Goes n call pc) :
    ((call.goto pc).receiving = true → call.receiving = true) ∧
      ((call.goto pc).early → call.early) := by
  constructor
  · intro hr
    cases hg with
    | sent h => simp [MuxCall.receiving, h]
    | _ => cases hr
  · intro he
    cases hg with
    | started h => exact .inl h
    | _ => rcases he with he | he <;> cases he

/-- Every step keeps the invariant of the table. -/
theorem Table.change (h : Table w) (hc : Change w l w') : Table w' := by
  cases hc with
  | none hsame => exact h.same hsame
  | spawn caller request hsame => exact (h.spawn caller request).same hsame
  | goto hi hg _ hsame => exact (h.goto hi hg.frame.1 hg.frame.2).same hsame
  | register _ hi hpc _ hsame => exact (h.register hi hpc).same hsame
  | @finish i call error hi hpc hsame =>
    have hi' : (w.removePending call.id).calls[i]? =
        some (if w.pending.any fun e => some e.1 == call.id && e.2 == i then call.dropSender else call) := by
      rw [removePending, removeEntries_call, hi]
      rfl
    refine Table.same ((h.removeEntries _).goto hi' ?_ ?_) hsame
    · intro hr
      cases hr
    · rintro (he | he) <;> cases he
  | answer _ _ hj hsame => exact (h.answer hj _).same hsame
  | failPending hsame => exact (h.removeEntries _).same hsame

theorem Table.next (h : Table w) (hs : w.next l = some w') : Table w' := h.change (next_change hs)

/-! ## What a step makes of one call, and of the entries -/

/-- What a step may make of the call at `i`. -/
inductive CallChange (w : Mux) (l : Label) (i : Nat) (call : MuxCall) : MuxCall → Prop
  | kept : CallChange w l i call call
  | dropped : CallChange w l i call call.dropSender
  | goto {pc : CallPc} (hg : Goes w.pending.length call pc) : CallChange w l i call (call.goto pc)
  | registered {c : MuxCall} (hpc : call.pc = .insert) (hc : c = call ∨ c = call.dropSender) :
      CallChange w l i call { c with id := some w.nextId, pc := .send }
  | finished {c : MuxCall} {error : CallError}
      (hpc : call.pc = .sendFailed ∧ error = .notAttached ∨ call.pc = .expired ∧ error = .timeout)
      (hc : c = call ∨ c = call.dropSender) :
      CallChange w l i call (c.goto (.returned (.error error)))
  | completed {frame : Json} {id : Nat} (hl : l = .macFrame frame) (ha : answerId frame = some id)
      (hj : w.pending.lookup id = some i) : CallChange w l i call (call.complete frame)

theorem removeEntries_cases (hi : w.calls[i]? = some call) (leaves : Nat × Nat → Bool) :
    ∃ c, (w.removeEntries leaves).calls[i]? = some c ∧ (c = call ∨ c = call.dropSender) := by
  refine ⟨_, by rw [removeEntries_call, hi]; rfl, ?_⟩
  split_ifs
  · exact .inr rfl
  · exact .inl rfl

theorem Change.callChange {call' : MuxCall} (hc : Change w l w') (hi : w.calls[i]? = some call)
    (hi' : w'.calls[i]? = some call') : CallChange w l i call call' := by
  cases hc with
  | none hs =>
    rw [hs.calls, hi] at hi'
    obtain rfl := Option.some.inj hi'
    exact .kept
  | spawn caller request hs =>
    have hlt := (List.getElem?_eq_some_iff.mp hi).1
    rw [hs.calls, Mux.spawn, List.getElem?_append_left hlt, hi] at hi'
    obtain rfl := Option.some.inj hi'
    exact .kept
  | @goto k c pc hk hg _ hs =>
    rw [hs.calls, goto_call, hi, Option.map_some] at hi'
    obtain rfl := Option.some.inj hi'
    by_cases hki : k = i
    · subst hki
      obtain rfl := Option.some.inj (hi.symm.trans hk)
      rw [if_pos rfl]
      exact .goto hg
    · rw [if_neg hki]
      exact .kept
  | @register k c _ hk hpc _ hs =>
    obtain ⟨c', hc', hcases⟩ := removeEntries_cases hi fun e => some e.1 == some w.nextId
    rw [hs.calls, register_call, removePending, hc', Option.map_some] at hi'
    obtain rfl := Option.some.inj hi'
    by_cases hki : k = i
    · subst hki
      obtain rfl := Option.some.inj (hi.symm.trans hk)
      rw [if_pos rfl]
      exact .registered hpc hcases
    · rw [if_neg hki]
      rcases hcases with rfl | rfl
      · exact .kept
      · exact .dropped
  | @finish k c error hk hpc hs =>
    obtain ⟨c', hc', hcases⟩ := removeEntries_cases hi fun e => some e.1 == c.id
    rw [hs.calls, goto_call, removePending, hc', Option.map_some] at hi'
    obtain rfl := Option.some.inj hi'
    by_cases hki : k = i
    · subst hki
      obtain rfl := Option.some.inj (hi.symm.trans hk)
      rw [if_pos rfl]
      exact .finished hpc hcases
    · rw [if_neg hki]
      rcases hcases with rfl | rfl
      · exact .kept
      · exact .dropped
  | @answer frame id j hl ha hj hs =>
    rw [hs.calls, answer_call, hi, Option.map_some] at hi'
    obtain rfl := Option.some.inj hi'
    by_cases hji : j = i
    · subst hji
      rw [if_pos rfl]
      exact .completed hl ha hj
    · rw [if_neg hji]
      exact .kept
  | failPending hs =>
    obtain ⟨c', hc', hcases⟩ := removeEntries_cases hi fun _ => true
    rw [hs.calls, Mux.failPending, hc'] at hi'
    obtain rfl := Option.some.inj hi'
    rcases hcases with rfl | rfl
    · exact .kept
    · exact .dropped

/-- Entries leave the table, or one enters it. -/
theorem Change.pending (hc : Change w l w') :
    (∃ stays : Nat × Nat → Bool, w'.pending = w.pending.filter stays) ∨
    ∃ i call, l = .step i ∧ w.calls[i]? = some call ∧ call.pc = .insert ∧
      w.pending.length < maxInflightPerSession ∧
      w'.pending = (w.nextId, i) :: w.pending.filter fun e => e.1 ≠ w.nextId := by
  have hall : w.pending.filter (fun _ => true) = w.pending := by simp
  cases hc with
  | none hs => exact .inl ⟨_, hs.pending.trans hall.symm⟩
  | spawn caller request hs => exact .inl ⟨_, hs.pending.trans hall.symm⟩
  | goto _ _ _ hs => exact .inl ⟨_, hs.pending.trans hall.symm⟩
  | @register i call hl hi hpc hroom hs =>
    refine .inr ⟨i, call, hl, hi, hpc, hroom, ?_⟩
    rw [hs.pending, Mux.register, removePending_pending]
  | finish _ _ hs => exact .inl ⟨_, hs.pending⟩
  | answer _ _ _ hs => exact .inl ⟨_, hs.pending⟩
  | failPending hs => exact .inl ⟨_, hs.pending⟩

/-! ## Live entries -/

end OpenabPty.Mux

namespace OpenabPty.MuxCall

/-- The call is in the table or about to leave it: its caller still waits for it. -/
def awaited (call : MuxCall) : Bool :=
  match call.pc with
  | .send | .wait | .sendFailed | .expired => true
  | _ => false

/-- The call is over. -/
def ended (call : MuxCall) : Bool :=
  match call.pc with
  | .returned _ | .cancelled => true
  | _ => false

end OpenabPty.MuxCall

namespace OpenabPty.Mux

open Trace

variable {w w' : Mux} {l : Label} {i j : Nat} {call : MuxCall}

/-- Every id in the table belongs to a call that is still awaited. -/
def Awaited (w : Mux) : Prop :=
  ∀ k j, (k, j) ∈ w.pending →
    ∃ call, w.calls[j]? = some call ∧ call.id = some k ∧ call.awaited = true

/-- Every id in the table belongs to a call that is still awaited; once `close` has returned the
table is empty, and no call is left that waits for an answer. -/
structure Live (w : Mux) : Prop where
  awaited : w.Awaited
  empty : w.shut = true → w.pending = []
  answered : w.shut = true → ∀ (j : Nat) (call : MuxCall), w.calls[j]? = some call →
    call.receiving = true → call.slot ≠ .empty

/-- No call is dropped while it is in the table; none enters it once `close` has returned; a
second `close` does not return before the first has emptied it. -/
def Spares (w : Mux) : Label → Prop
  | .cancel i => ∀ k, (k, i) ∉ w.pending
  | .step i => w.shut = true → ∀ call, w.calls[i]? = some call → call.pc ≠ .insert
  | .close _ => w.closing ≠ .no → w.pending = []
  | _ => True

/-- A call that ends once `close` has returned gives `NotAttached`, unless it had its answer or had
expired before; the request timeout ends no call any more. -/
def EndsUnattached (w : Mux) (l : Label) : Prop :=
  w.shut = true → (∀ i, l ≠ .timeout i) ∧
    ∀ w', w.next l = some w' → ∀ (i : Nat) (call call' : MuxCall) (result : Except CallError Json),
      w.calls[i]? = some call → w'.calls[i]? = some call' → call.ended = false →
      call'.pc = .returned result →
        result = .error .notAttached ∨ (∃ frame, call.slot = .filled frame ∧ result = .ok frame) ∨
          call.pc = .expired

/-- Once `close` has returned, a call goes on by itself, or waits for room toward the socket
writer. -/
def GoesOn (w : Mux) : Prop :=
  w.shut = true → ∀ (i : Nat) (call : MuxCall), w.calls[i]? = some call → call.ended = false →
    (w.next (.step i)).isSome = true ∨ (call.pc = .send ∧ w.room = false)

/-- An entry that is left after a step was there before, unless the step registers a call. -/
theorem Change.pending_subset (hc : Change w l w')
    (hl : ∀ i call, l = .step i → w.calls[i]? = some call → call.pc ≠ .insert) :
    ∀ e ∈ w'.pending, e ∈ w.pending := by
  intro e he
  rcases hc.pending with ⟨stays, hpending⟩ | ⟨i, call, hstep, hi, hpc, -⟩
  · rw [hpending] at he
    exact (List.mem_filter.mp he).1
  · exact absurd hpc (hl i call hstep hi)

/-- A call that goes on without the table stays awaited if it is in the table, unless its future
is dropped. -/
theorem Goes.awaited {n : Nat} {pc : CallPc} (hg : Goes n call pc) (hne : pc ≠ .cancelled)
    (hid : call.id ≠ none) (hslot : call.slot = .empty) (hearly : call.early → call.id = none) :
    (call.goto pc).awaited = true := by
  cases hg with
  | started h => exact absurd (hearly (.inl h)) hid
  | refused h => exact absurd (hearly (.inl h)) hid
  | full h => exact absurd (hearly (.inr h)) hid
  | answered _ hs =>
    rw [hslot] at hs
    cases hs
  | abandoned _ hs =>
    rw [hslot] at hs
    cases hs
  | cancelled => exact absurd rfl hne
  | _ => rfl

theorem Awaited.same (h : Awaited w) (hsame : SameTable w w') : Awaited w' := by
  rw [Awaited, hsame.pending, hsame.calls]
  exact h

theorem Awaited.spawn (h : Awaited w) (caller : MuxCaller) (request : Json) :
    Awaited (w.spawn caller request) := by
  intro k j hk
  obtain ⟨call, hj, hrest⟩ := h k j hk
  have hlt := (List.getElem?_eq_some_iff.mp hj).1
  exact ⟨call, (List.getElem?_append_left hlt).trans hj, hrest⟩

/-- A call goes on: if it is in the table, it is still awaited. -/
theorem Awaited.goto (h : Awaited w) {pc : CallPc}
    (haw : ∀ k call, (k, i) ∈ w.pending → w.calls[i]? = some call → (call.goto pc).awaited = true) :
    Awaited (w.goto i pc) := by
  intro k j hk
  obtain ⟨c, hj, hid, hold⟩ := h k j hk
  refine ⟨_, by rw [goto_call, hj]; rfl, ?_, ?_⟩
  · split_ifs
    · exact hid
    · exact hid
  · split_ifs with hij
    · subst hij
      exact haw k c hk hj
    · exact hold

theorem Awaited.removeEntries (h : Awaited w) (leaves : Nat × Nat → Bool) :
    Awaited (w.removeEntries leaves) := by
  intro k j hk
  obtain ⟨c, hj, hid, haw⟩ := h k j (List.mem_filter.mp hk).1
  refine ⟨_, by rw [removeEntries_call, hj]; rfl, ?_, ?_⟩
  · split_ifs
    · simpa using hid
    · exact hid
  · split_ifs
    · simpa [MuxCall.awaited] using haw
    · exact haw

theorem Awaited.answer (h : Awaited w) (id : Nat) (frame : Json) : Awaited (w.answer id i frame) := by
  intro k j hk
  obtain ⟨c, hj, hid, haw⟩ := h k j (List.mem_filter.mp hk).1
  refine ⟨_, by rw [answer_call, hj]; rfl, ?_, ?_⟩
  · split_ifs
    · simpa using hid
    · exact hid
  · split_ifs
    · simpa [MuxCall.awaited] using haw
    · exact haw

theorem Awaited.register (h : Awaited w) (ht : Table w) (hi : w.calls[i]? = some call)
    (hpc : call.pc = .insert) : Awaited (w.register i) := by
  intro k j hk
  obtain ⟨c, hj, hid, -⟩ := (ht.register hi hpc).owner k j hk
  refine ⟨c, hj, hid, ?_⟩
  rw [register_call] at hj
  obtain ⟨c', hj', rfl⟩ := Option.map_eq_some_iff.mp hj
  split_ifs with hij
  · rfl
  · rcases List.mem_cons.mp hk with heq | hk
    · cases heq
      exact absurd rfl hij
    · obtain ⟨old, hold, -, haw⟩ := h.removeEntries (fun e => some e.1 == some w.nextId) k j hk
      obtain rfl := Option.some.inj (hj'.symm.trans hold)
      exact haw

/-- The entries that are left belong to calls that are still awaited. -/
theorem Awaited.change (h : Awaited w) (ht : Table w)
    (hl : ∀ i, l = .cancel i → ∀ k, (k, i) ∉ w.pending) (hc : Change w l w') : Awaited w' := by
  cases hc with
  | none hsame => exact h.same hsame
  | spawn caller request hsame => exact (h.spawn caller request).same hsame
  | @goto i call pc hi hg hcancel hsame =>
    refine Awaited.same (h.goto fun k c hk hj => ?_) hsame
    obtain ⟨c', hj', hid, hslot⟩ := ht.owner k i hk
    obtain rfl := Option.some.inj (hi.symm.trans hj)
    obtain rfl := Option.some.inj (hi.symm.trans hj')
    refine hg.awaited ?_ (by simp [hid]) hslot fun he => (ht.early i call hi he).1
    rintro rfl
    exact hl i (hcancel rfl) k hk
  | register _ hi hpc _ hsame => exact (h.register ht hi hpc).same hsame
  | @finish i call error hi _ hsame =>
    refine Awaited.same ((h.removeEntries _).goto fun k c hk _ => ?_) hsame
    -- The entry of the call that ends has left.
    obtain ⟨hk, hstays⟩ := List.mem_filter.mp hk
    obtain ⟨c', hj', hid, -⟩ := ht.owner k i hk
    obtain rfl := Option.some.inj (hi.symm.trans hj')
    simp [hid] at hstays
  | @answer frame id i _ _ _ hsame => exact (h.answer id frame).same hsame
  | failPending hsame => exact (h.removeEntries _).same hsame

@[simp] theorem trySend_shut (message : MacMessage) : (w.trySend message).shut = w.shut := by
  rw [trySend]
  split <;> rfl

theorem callStep_shut (hs : w.callStep i call = some w') : w'.shut = w.shut := by
  rw [callStep] at hs
  repeat' split at hs
  all_goals try cases hs
  all_goals simp [goto, register, removePending, removeEntries, trySend_shut]

theorem onMacFrame_shut (frame : Json) : (w.onMacFrame frame).shut = w.shut := by
  rw [onMacFrame]
  split
  · cases w.pending.lookup _ <;> rfl
  · cases macReply frame with
    | none => rfl
    | some reply => exact trySend_shut _

/-- `close` returns: a second call of it at once, the first when it has emptied the table. -/
theorem shut_cases (hs : w.next l = some w') (hshut : w'.shut = true) :
    w.shut = true ∨ (∃ code, l = .close code ∧ w.closing ≠ .no ∧ w'.pending = w.pending) ∨
      w'.pending = [] := by
  cases l with
  | close code =>
    simp only [next] at hs
    split_ifs at hs with hno
    · obtain rfl := Option.some.inj hs
      exact .inl hshut
    · obtain rfl := Option.some.inj hs
      exact .inr (.inl ⟨code, rfl, hno, rfl⟩)
  | closer =>
    simp only [next] at hs
    split at hs
    · obtain rfl := Option.some.inj hs
      exact .inl ((trySend_shut _).symm.trans hshut)
    · obtain rfl := Option.some.inj hs
      exact .inr (.inr (by simp [failPending, removeEntries]))
    · cases hs
    · cases hs
  | step i =>
    obtain ⟨call, -, hs⟩ := Option.bind_eq_some_iff.mp hs
    exact .inl ((callStep_shut hs).symm.trans hshut)
  | macFrame frame =>
    obtain rfl := Option.some.inj hs
    exact .inl ((onMacFrame_shut frame).symm.trans hshut)
  | handshake version =>
    obtain rfl := Option.some.inj hs
    exact .inl hshut
  | loopback request =>
    obtain ⟨caller, -, rfl⟩ := Option.map_eq_some_iff.mp hs
    exact .inl hshut
  | initialized =>
    simp only [next] at hs
    split_ifs at hs
    obtain rfl := Option.some.inj hs
    exact .inl ((trySend_shut _).symm.trans hshut)
  | timeout i =>
    obtain ⟨call, -, hs⟩ := Option.bind_eq_some_iff.mp hs
    split at hs <;> cases hs
    exact .inl hshut
  | cancel i =>
    obtain ⟨call, -, hs⟩ := Option.bind_eq_some_iff.mp hs
    split at hs
    · cases hs
    · split_ifs at hs
      obtain rfl := Option.some.inj hs
      exact .inl hshut
  | ping | pong =>
    obtain rfl := Option.some.inj hs
    exact .inl ((trySend_shut _).symm.trans hshut)
  | writer ok =>
    simp only [next] at hs
    split at hs <;> cases hs <;> exact .inl hshut

theorem Live.next (ht : Table w) (h : Live w) (hsp : Spares w l) (hs : w.next l = some w') :
    Live w' := by
  have hchange := next_change hs
  have hempty : w'.shut = true → w'.pending = [] := by
    intro hshut
    rcases shut_cases hs hshut with hold | ⟨code, rfl, hclosing, hp⟩ | hp
    · have hsub := hchange.pending_subset fun i call hl hi => by
        subst hl
        exact hsp hold call hi
      rw [h.empty hold] at hsub
      exact List.eq_nil_iff_forall_not_mem.mpr fun e he => by cases hsub e he
    · rw [hp]
      exact hsp hclosing
    · exact hp
  refine ⟨h.awaited.change ht ?_ hchange, hempty, ?_⟩
  · rintro i rfl
    exact hsp
  · intro hshut j call hj hr hslot
    obtain ⟨k, hk⟩ := (ht.next hs).listed j call hj hr hslot
    rw [hempty hshut] at hk
    cases hk

/-- A step that `Spares` excludes ends in a state where the table holds a dead entry. -/
theorem not_live_of_not_spares (h : Live w) (hsp : ¬ Spares w l)
    (hs : w.next l = some w') : ¬ Live w' := by
  intro hlive
  cases l with
  | cancel i =>
    simp only [Spares, not_forall, not_not] at hsp
    obtain ⟨k, hk⟩ := hsp
    obtain ⟨call, hi, hs⟩ := Option.bind_eq_some_iff.mp hs
    split at hs
    · cases hs
    · split_ifs at hs
      obtain rfl := Option.some.inj hs
      obtain ⟨c, hc, -, haw⟩ := hlive.awaited k i hk
      rw [goto_call, hi] at hc
      obtain rfl := Option.some.inj hc
      simp [MuxCall.awaited, MuxCall.goto] at haw
  | step i =>
    simp only [Spares, not_forall, not_not] at hsp
    obtain ⟨hshut, call, hi, hpc⟩ := hsp
    obtain ⟨c, hc, hs⟩ := Option.bind_eq_some_iff.mp hs
    obtain rfl := Option.some.inj (hi.symm.trans hc)
    have hempty := h.empty hshut
    have hreg : w' = w.register i := by
      simp only [callStep, hpc, hempty, List.length_nil] at hs
      simpa [maxInflightPerSession] using hs.symm
    have hnil := hlive.empty ((callStep_shut hs).trans hshut)
    simp [hreg, register] at hnil
  | close code =>
    simp only [Spares, not_forall] at hsp
    obtain ⟨hclosing, hpending⟩ := hsp
    simp only [next, if_neg hclosing] at hs
    obtain rfl := Option.some.inj hs
    exact hpending (hlive.empty rfl)
  | _ => exact hsp trivial

theorem Live.init : Live Mux.init := by
  refine ⟨?_, fun _ => rfl, ?_⟩
  · intro k j hk
    cases hk
  · intro _ j call hj
    simp [Mux.init] at hj

/-- Exactly the runs that spare the table keep it live. -/
theorem allStates_live_iff (ls : List Label) :
    AllStates next Live Mux.init ls ↔ AllSteps next Spares Mux.init ls :=
  allStates_iff_allSteps (I := fun w => Table w ∧ Live w) (fun _ h => h.2)
    (fun _ _ _ h hsp hs => ⟨h.1.next hs, h.2.next h.1 hsp hs⟩)
    (fun _ _ _ h hsp hs => not_live_of_not_spares h.2 hsp hs) ⟨Table.init, Live.init⟩

/-- How the step of a call may end, other than in going on without the table. -/
theorem Change.pc {call' : MuxCall} (hc : Change w l w') (hi : w.calls[i]? = some call)
    (hi' : w'.calls[i]? = some call') :
    call'.pc = call.pc ∨ Goes w.pending.length call call'.pc ∨
      (call.pc = .insert ∧ call'.pc = .send) ∨
        (call.pc = .sendFailed ∧ call'.pc = .returned (.error .notAttached)) ∨
          (call.pc = .expired ∧ call'.pc = .returned (.error .timeout)) := by
  cases hc.callChange hi hi' with
  | kept => exact .inl rfl
  | dropped => exact .inl MuxCall.dropSender_pc
  | goto hg => exact .inr (.inl hg)
  | registered hpc => exact .inr (.inr (.inl ⟨hpc, rfl⟩))
  | finished hpc =>
    right; right; right
    rcases hpc with ⟨hpc, rfl⟩ | ⟨hpc, rfl⟩
    · exact .inl ⟨hpc, rfl⟩
    · exact .inr ⟨hpc, rfl⟩
  | completed => exact .inl MuxCall.complete_pc

theorem Live.endsUnattached (h : Live w) (hs : w.next l = some w') : EndsUnattached w l := by
  intro hshut
  constructor
  · rintro i rfl
    obtain ⟨call, hi, hs⟩ := Option.bind_eq_some_iff.mp hs
    split at hs
    next hpc hslot => exact h.answered hshut i call hi (by simp [MuxCall.receiving, hpc]) hslot
    · cases hs
  · intro w' hs i call call' result hi hi' hended hr
    have hpc := (next_change hs).pc hi hi'
    rw [hr] at hpc
    rcases hpc with heq | hg | ⟨-, hsend⟩ | ⟨-, hfail⟩ | ⟨hpc, -⟩
    · simp [MuxCall.ended, ← heq] at hended
    · cases hg with
      | refused => exact .inl rfl
      | full _ hfull => simp [h.empty hshut, maxInflightPerSession] at hfull
      | answered _ hslot => exact .inr (.inl ⟨_, hslot, rfl⟩)
      | abandoned => exact .inl rfl
    · cases hsend
    · exact .inl (CallPc.returned.inj hfail)
    · exact .inr (.inr hpc)

theorem Live.goesOn (h : Live w) : GoesOn w := by
  intro hshut i call hi hended
  have hnext : w.next (.step i) = w.callStep i call := by
    simp only [Mux.next, hi, Option.bind_some]
  rw [hnext]
  cases hpc : call.pc with
  | send =>
    by_cases hgone : w.writer = .gone
    · simp [callStep, hpc, hgone]
    · by_cases hroom : w.room = true
      · simp [callStep, hpc, hgone, hroom]
      · exact .inr ⟨rfl, by simpa using hroom⟩
  | wait =>
    cases hslot : call.slot with
    | empty => exact absurd hslot (h.answered hshut i call hi (by simp [MuxCall.receiving, hpc]))
    | filled frame => simp [callStep, hpc, hslot]
    | dropped => simp [callStep, hpc, hslot]
  | returned result => simp [MuxCall.ended, hpc] at hended
  | cancelled => simp [MuxCall.ended, hpc] at hended
  | _ => simp [callStep, hpc]

/-- The pending table holds live calls only, in exactly the runs that drop no call out of it, let
none in once `close` has returned, and have no `close` return before the table is empty. In these
runs a call that ends after `close` was not left to the request timeout. -/
theorem pending_live_iff_spares (ls : List Label) :
    (AllStates next Live Mux.init ls ↔ AllSteps next Spares Mux.init ls) ∧
      (AllSteps next Spares Mux.init ls →
        AllStates next GoesOn Mux.init ls ∧ AllSteps next EndsUnattached Mux.init ls) := by
  refine ⟨allStates_live_iff ls, fun hsp => ?_⟩
  have hlive := (allStates_live_iff ls).mpr hsp
  exact ⟨hlive.imp fun _ h => h.goesOn, AllSteps.of_invariant (fun _ _ _ h hs => h.endsUnattached hs) hlive⟩

/-- A loopback request that is forwarded. -/
def toolsCallRequest : Json :=
  .obj [("jsonrpc", .string "2.0"), ("id", .number 7), ("method", .string "tools/call")]

/-- The client of a forwarded request goes away while the Mac has the request. -/
def abandonedRun : List Label :=
  [.loopback toolsCallRequest, .step 0, .step 0, .step 0, .cancel 0]

/-- `close` runs between the look at `closed` and the table. -/
def lateRun : List Label :=
  [.loopback toolsCallRequest, .step 0, .close 1000, .closer, .closer, .step 0]

/-- The entry of the abandoned call stays in the table; the late call enters it after `close` has
returned, and waits. -/
theorem abandoned_keepsEntry :
    ¬ AllStates next Live Mux.init abandonedRun ∧ ¬ AllStates next Live Mux.init lateRun := by
  constructor
  · intro h
    have hrun : (run next Mux.init abandonedRun).map
        (fun w => (w.pending, w.calls.map (·.awaited))) = some ([(1, 0)], [false]) := by
      decide +kernel
    obtain ⟨w, hlive, heq⟩ := h.observe hrun
    obtain ⟨hp, hc⟩ := Prod.mk.inj heq
    obtain ⟨call, hcall, -, haw⟩ := hlive.awaited 1 0 (by simp [hp])
    have hfalse : (w.calls.map (·.awaited))[0]? = some true := by
      rw [List.getElem?_map, hcall, Option.map_some, haw]
    simp [hc] at hfalse
  · intro h
    have hrun : (run next Mux.init lateRun).map (fun w => (w.shut, w.pending)) =
        some (true, [(1, 0)]) := by
      decide +kernel
    obtain ⟨w, hlive, heq⟩ := h.observe hrun
    obtain ⟨hshut, hp⟩ := Prod.mk.inj heq
    simp [hlive.empty hshut] at hp

end OpenabPty.Mux
