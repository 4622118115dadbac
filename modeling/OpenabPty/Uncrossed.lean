import OpenabPty.PendingTable

/-!
# Answers do not cross

Every call that enters the table takes an id that no call had before. A frame of the Mac with this
id is the only thing that gives the call an answer, and it does so once. `forward` returns the
answer with the id of its caller; of the loopback requests, only `tools/list` edits it further.
-/

namespace OpenabPty

/-- What `forward` returns is the frame with the id of its caller. -/
structure Restores (id frame response : Json) : Prop where
  id : response.get "id" = some id
  others : ∀ key, key ≠ "id" → response.get key = frame.get key

/-- What `tools_list` returns is the frame with the id of its caller and the runtime's own tool
among the tools of its result; without a list of tools in the frame, the runtime's own tool. -/
inductive Relists (id frame response : Json) : Prop
  | here (hnone : listedTools frame = none) (hlocal : response = localToolsList id)
  | relisted {result result' : Json} {tools : List Json}
    (hid : response.get "id" = some id)
    (hothers : ∀ key, key ≠ "id" → key ≠ "result" → response.get key = frame.get key)
    (hresult : frame.get "result" = some result) (hresult' : response.get "result" = some result')
    (htools : result.get "tools" = some (.array tools))
    (htools' : result'.get "tools" = some (.array (relistTools tools)))
    (hrest : ∀ key, key ≠ "tools" → result'.get key = result.get key)

/-- What the caller gets for an answer. -/
def MuxCaller.Receives (frame : Json) : MuxCaller → Prop
  | .handshake => True
  | .forward id => Restores id frame (OpenabPty.forward id (.ok frame)) ∧
    MuxCaller.reply (.forward id) (.ok frame) = some (OpenabPty.forward id (.ok frame))
  | .toolsList id => Restores id frame (OpenabPty.forward id (.ok frame)) ∧
    ∃ response, MuxCaller.reply (.toolsList id) (.ok frame) = some response ∧
      Relists id frame response

variable {frame id : Json} {k : Nat}

/-- An answer is an object. -/
theorem get_of_answerId (h : answerId frame = some k) : ∃ key value, frame.get key = some value := by
  rw [answerId] at h
  split_ifs at h
  obtain ⟨value, hid, -⟩ := Option.bind_eq_some_iff.mp h
  exact ⟨_, value, hid⟩

theorem restores_forward (h : answerId frame = some k) :
    Restores id frame (forward id (.ok frame)) :=
  ⟨Json.get_insert_self (get_of_answerId h), fun _ hne => Json.get_insert_of_ne hne⟩

theorem listedTools_eq_some {tools : List Json} (h : listedTools frame = some tools) :
    ∃ result, frame.get "result" = some result ∧ result.get "tools" = some (.array tools) := by
  obtain ⟨list, hlist, harray⟩ := Option.bind_eq_some_iff.mp h
  obtain ⟨result, hresult, htools⟩ := Option.bind_eq_some_iff.mp hlist
  refine ⟨result, hresult, ?_⟩
  cases list with
  | array items =>
    obtain rfl := Option.some.inj harray
    exact htools
  | _ => cases harray

theorem relists_toolsList (h : answerId frame = some k) :
    Relists id frame (toolsList id (forward id (.ok frame))) := by
  have hforward : Restores id frame (forward id (.ok frame)) := restores_forward h
  have hresult : (forward id (.ok frame)).get "result" = frame.get "result" :=
    hforward.others _ (by decide)
  have hlisted : listedTools (forward id (.ok frame)) = listedTools frame := by
    rw [listedTools, hresult]
    rfl
  rw [toolsList, hresult, hlisted]
  cases htools : listedTools frame with
  | none => cases frame.get "result" <;> exact .here htools rfl
  | some tools =>
    obtain ⟨result, hr, hlist⟩ := listedTools_eq_some htools
    rw [hr]
    refine .relisted ?_ ?_ hr (Json.get_insert_self ⟨_, _, hforward.id⟩) hlist
      (Json.get_insert_self ⟨_, _, hlist⟩) ?_
    · rw [Json.get_insert_of_ne (by decide)]
      exact hforward.id
    · intro key hid hne
      rw [Json.get_insert_of_ne hne]
      exact hforward.others key hid
    · intro key hne
      exact Json.get_insert_of_ne hne

theorem MuxCaller.receives (h : answerId frame = some k) (caller : MuxCaller) :
    caller.Receives frame := by
  cases caller with
  | handshake => trivial
  | forward id => exact ⟨restores_forward h, rfl⟩
  | toolsList id => exact ⟨restores_forward h, _, rfl, relists_toolsList h⟩

end OpenabPty

namespace OpenabPty.Mux

open Trace

variable {w w' : Mux} {l : Label} {i j k : Nat} {call call' : MuxCall} {frame : Json}

/-! ## Fresh ids -/

/-- The ids of the calls, in the order in which the calls began. -/
def ids (w : Mux) : List (Option Nat) := w.calls.map (·.id)

/-- How many ids were given out. -/
def issued (w : Mux) : Nat := w.ids.countP Option.isSome

theorem ids_getElem? (hi : w.calls[i]? = some call) : w.ids[i]? = some call.id := by
  rw [ids, List.getElem?_map, hi]
  rfl

/-- How a step changes the ids. -/
inductive IdChange (w w' : Mux) : Prop
  | none (hids : w'.ids = w.ids) (hnext : w'.nextId = w.nextId)
  | spawn (hids : w'.ids = w.ids ++ [Option.none]) (hnext : w'.nextId = w.nextId)
  | register {i : Nat} (hi : w.ids[i]? = some Option.none) (hids : w'.ids = w.ids.set i (some w.nextId))
    (hnext : w'.nextId = (w.nextId + 1) % 2 ^ 64)

theorem goto_ids (pc : CallPc) : (w.goto i pc).ids = w.ids := by
  refine List.ext_getElem? fun j => ?_
  simp only [ids, List.getElem?_map, goto_call, Option.map_map]
  congr 1
  funext call
  by_cases hij : i = j <;> simp [hij]

theorem removeEntries_ids (leaves : Nat × Nat → Bool) : (w.removeEntries leaves).ids = w.ids := by
  refine List.ext_getElem? fun j => ?_
  simp only [ids, List.getElem?_map, removeEntries_call, Option.map_map]
  congr 1
  funext call
  by_cases h : (w.pending.any fun e => leaves e && e.2 == j) = true <;> simp [h]

theorem answer_ids (id : Nat) (frame : Json) : (w.answer id i frame).ids = w.ids := by
  refine List.ext_getElem? fun j => ?_
  simp only [ids, List.getElem?_map, answer_call, Option.map_map]
  congr 1
  funext call
  by_cases hij : i = j <;> simp [hij]

theorem register_ids : (w.register i).ids = w.ids.set i (some w.nextId) := by
  refine List.ext_getElem? fun j => ?_
  have hold := congrArg (·[j]?) (removeEntries_ids (w := w) fun e => some e.1 == some w.nextId)
  simp only [ids, List.getElem?_map] at hold
  rw [List.getElem?_set]
  simp only [ids, List.getElem?_map, register_call, Option.map_map, List.length_map]
  by_cases hij : i = j
  · subst hij
    by_cases hlt : i < w.calls.length
    · simp [removePending, removeEntries_call, hlt]
    · simp [removePending, removeEntries_call, hlt]
  · simp only [hij, if_false]
    rw [← hold]
    congr 1

theorem SameTable.ids (h : SameTable w w') : w'.ids = w.ids := by
  rw [Mux.ids, h.calls]
  rfl

theorem Change.ids (ht : Table w) (hc : Change w l w') : IdChange w w' := by
  cases hc with
  | none hs => exact .none hs.ids hs.nextId
  | spawn caller request hs =>
    refine .spawn (hs.ids.trans ?_) hs.nextId
    simp [Mux.ids, Mux.spawn]
  | goto _ _ _ hs => exact .none (hs.ids.trans (goto_ids _)) hs.nextId
  | register _ hi hpc _ hs =>
    refine .register ?_ (hs.ids.trans register_ids) hs.nextId
    rw [ids_getElem? hi, (ht.early _ _ hi (.inr hpc)).1]
  | finish _ _ hs =>
    exact .none (hs.ids.trans ((goto_ids _).trans (removeEntries_ids _))) hs.nextId
  | answer _ _ _ hs => exact .none (hs.ids.trans (answer_ids _ _)) hs.nextId
  | failPending hs => exact .none (hs.ids.trans (removeEntries_ids _)) hs.nextId

/-- The ids are those that the counter went through. -/
structure Fresh (w : Mux) : Prop where
  counter : w.nextId = (w.issued + 1) % 2 ^ 64
  below : ∀ (i k : Nat), w.ids[i]? = some (some k) → k ≤ w.issued
  distinct : ∀ (i j k : Nat), w.ids[i]? = some (some k) → w.ids[j]? = some (some k) → i = j

theorem Fresh.init : Fresh Mux.init := by
  refine ⟨rfl, ?_, ?_⟩
  · intro i k h
    simp [Mux.ids, Mux.init] at h
  · intro i j k h
    simp [Mux.ids, Mux.init] at h

theorem issued_register (hi : w.ids[i]? = some none) (hids : w'.ids = w.ids.set i (some k)) :
    w'.issued = w.issued + 1 := by
  obtain ⟨hlt, hget⟩ := List.getElem?_eq_some_iff.mp hi
  rw [issued, hids, List.countP_set hlt, hget]
  simp [issued]

/-- A call that has no id yet is not counted. -/
theorem issued_lt (hi : w.ids[i]? = some none) : w.issued < w.calls.length := by
  have hlen : w.ids.length = w.calls.length := by simp [ids]
  refine lt_of_le_of_ne (hlen ▸ List.countP_le_length) fun heq => ?_
  have hall := List.countP_eq_length.mp (heq.trans hlen.symm) none (List.mem_of_getElem? hi)
  cases hall

theorem Fresh.next (h : Fresh w) (hc : IdChange w w') (hlt : w.calls.length < 2 ^ 64) :
    Fresh w' := by
  cases hc with
  | none hids hnext =>
    have hissued : w'.issued = w.issued := by rw [issued, hids]; rfl
    exact ⟨by rw [hnext, hissued, h.counter], by rw [hids, hissued]; exact h.below,
      by rw [hids]; exact h.distinct⟩
  | spawn hids hnext =>
    have hissued : w'.issued = w.issued := by
      rw [issued, hids, List.countP_append]
      rfl
    have hcases : ∀ (i k : Nat), w'.ids[i]? = some (some k) → w.ids[i]? = some (some k) := by
      intro i k hi
      rw [hids] at hi
      by_cases hlt : i < w.ids.length
      · rwa [List.getElem?_append_left hlt] at hi
      · rw [List.getElem?_append_right (by omega)] at hi
        have := List.mem_of_getElem? hi
        simp at this
    refine ⟨by rw [hnext, hissued, h.counter], ?_, ?_⟩
    · intro i k hi
      rw [hissued]
      exact h.below i k (hcases i k hi)
    · intro i j k hi hj
      exact h.distinct i j k (hcases i k hi) (hcases j k hj)
  | @register m hm hids hnext =>
    have hissued := issued_register hm hids
    have hnextId : w.nextId = w.issued + 1 := by
      have := issued_lt hm
      rw [h.counter, Nat.mod_eq_of_lt (by omega)]
    have hcases : ∀ (i k : Nat), w'.ids[i]? = some (some k) →
        (i = m ∧ k = w.issued + 1) ∨ w.ids[i]? = some (some k) := by
      intro i k hi
      rw [hids, List.getElem?_set] at hi
      split_ifs at hi with hmi
      · exact .inl ⟨hmi.symm, by simpa [hnextId] using (Option.some.inj (Option.some.inj hi)).symm⟩
      · exact .inr hi
    refine ⟨by rw [hnext, hissued, hnextId], ?_, ?_⟩
    · intro i k hi
      rcases hcases i k hi with ⟨-, rfl⟩ | hold
      · omega
      · have := h.below i k hold
        omega
    · intro i j k hi hj
      rcases hcases i k hi with ⟨rfl, rfl⟩ | hi
      · rcases hcases j _ hj with ⟨rfl, -⟩ | hj
        · rfl
        · have := h.below j _ hj
          omega
      · rcases hcases j k hj with ⟨rfl, rfl⟩ | hj
        · have := h.below i _ hi
          omega
        · exact h.distinct i j k hi hj

/-! ## Answers -/

/-- How a call comes by an answer: from the frame of this step, which has the id of the call. -/
theorem Change.filled (ht : Table w) (hc : Change w l w') (hi : w.calls[i]? = some call)
    (hi' : w'.calls[i]? = some call') :
    (∀ f, call.slot = .filled f → call'.slot = .filled f) ∧
      ∀ f, call'.slot = .filled f → call.slot = .filled f ∨
        (l = .macFrame f ∧ call.slot = .empty ∧
          ∃ k, answerId f = some k ∧ call.id = some k ∧ (k, i) ∈ w.pending) := by
  -- Every change but an answer leaves the slot, or takes the sender out of it.
  have hkeep : ∀ c, c = call ∨ c = call.dropSender →
      (∀ f, call.slot = .filled f → c.slot = .filled f) ∧
        ∀ f, c.slot = .filled f → call.slot = .filled f ∨ (l = .macFrame f ∧ call.slot = .empty ∧
          ∃ k, answerId f = some k ∧ call.id = some k ∧ (k, i) ∈ w.pending) := by
    rintro c (rfl | rfl)
    · exact ⟨fun _ h => h, fun _ h => .inl h⟩
    · exact ⟨fun _ h => MuxCall.dropSender_slot_filled.mpr h,
        fun _ h => .inl (MuxCall.dropSender_slot_filled.mp h)⟩
  cases hc.callChange hi hi' with
  | kept => exact hkeep _ (.inl rfl)
  | dropped => exact hkeep _ (.inr rfl)
  | goto hg => exact hkeep call (.inl rfl)
  | @registered c _ hcases => exact hkeep c hcases
  | @finished c _ _ hcases => exact hkeep c hcases
  | @completed frame id hl ha hj =>
    have hmem := mem_of_lookup hj
    obtain ⟨c, hc, hid, hempty⟩ := ht.owner id i hmem
    obtain rfl := Option.some.inj (hi.symm.trans hc)
    refine ⟨fun g hg => ?_, fun g hg => .inr ?_⟩
    · rw [hempty] at hg
      cases hg
    · cases hr : call.receiving with
      | true =>
        rw [MuxCall.complete_slot_of_receiving hr hempty] at hg
        obtain rfl := Slot.filled.inj hg
        exact ⟨hl, hempty, id, ha, hid, hmem⟩
      | false => simp [MuxCall.complete, hr, hempty] at hg

/-- A frame with the id of a call that waits is its answer. -/
theorem macFrame_fills (ht : Table w) (hs : w.next (.macFrame frame) = some w')
    (hi : w.calls[i]? = some call) (hr : call.receiving = true) (hslot : call.slot = .empty)
    (ha : answerId frame = some k) (hid : call.id = some k) :
    w'.calls[i]? = some { call with slot := .filled frame } := by
  obtain ⟨k', hmem⟩ := ht.listed i call hi hr hslot
  obtain ⟨c, hc, hid', -⟩ := ht.owner k' i hmem
  obtain rfl := Option.some.inj (hi.symm.trans hc)
  obtain rfl := Option.some.inj (hid.symm.trans hid')
  have hlookup : w.pending.lookup k = some i := by
    cases hj : w.pending.lookup k with
    | none =>
      have hne := List.lookup_eq_none_iff.mp hj (k, i) hmem
      simp at hne
    | some j =>
      exact congrArg some (congrArg Prod.snd
        (List.inj_on_of_nodup_map ht.keys (mem_of_lookup hj) hmem rfl))
  obtain rfl := Option.some.inj hs
  rw [onMacFrame, ha]
  simp only [hlookup, Option.elim_some]
  rw [answer_call, hi, Option.map_some, if_pos rfl, MuxCall.complete]
  simp only [hslot, hr]

/-- Where a call that answers comes from. -/
structure Answered (w : Mux) : Prop where
  slot : ∀ (i : Nat) (call : MuxCall) (f : Json), w.calls[i]? = some call → call.slot = .filled f →
    ∃ k, call.id = some k ∧ answerId f = some k
  returned : ∀ (i : Nat) (call : MuxCall) (f : Json), w.calls[i]? = some call →
    call.pc = .returned (.ok f) → call.slot = .filled f

/-- A call of the state after a step was there before, or it has just begun. -/
theorem Change.before (hc : Change w l w') (hi' : w'.calls[i]? = some call') :
    (∃ call, w.calls[i]? = some call) ∨ (call'.pc = .start ∧ call'.slot = .empty) := by
  cases hc with
  | none hs =>
    rw [hs.calls] at hi'
    exact .inl ⟨_, hi'⟩
  | spawn caller request hs =>
    rw [hs.calls] at hi'
    by_cases hlt : i < w.calls.length
    · exact .inl ⟨_, List.getElem?_eq_getElem hlt⟩
    · simp only [Mux.spawn] at hi'
      rw [List.getElem?_append_right (by omega)] at hi'
      obtain rfl := List.mem_singleton.mp (List.mem_of_getElem? hi')
      exact .inr ⟨rfl, rfl⟩
  | goto _ _ _ hs =>
    rw [hs.calls, goto_call] at hi'
    obtain ⟨call, hi, -⟩ := Option.map_eq_some_iff.mp hi'
    exact .inl ⟨call, hi⟩
  | register _ _ _ _ hs =>
    rw [hs.calls, register_call, removePending, removeEntries_call, Option.map_map] at hi'
    obtain ⟨call, hi, -⟩ := Option.map_eq_some_iff.mp hi'
    exact .inl ⟨call, hi⟩
  | finish _ _ hs =>
    rw [hs.calls, goto_call, removePending, removeEntries_call, Option.map_map] at hi'
    obtain ⟨call, hi, -⟩ := Option.map_eq_some_iff.mp hi'
    exact .inl ⟨call, hi⟩
  | answer _ _ _ hs =>
    rw [hs.calls, answer_call] at hi'
    obtain ⟨call, hi, -⟩ := Option.map_eq_some_iff.mp hi'
    exact .inl ⟨call, hi⟩
  | failPending hs =>
    rw [hs.calls, Mux.failPending, removeEntries_call] at hi'
    obtain ⟨call, hi, -⟩ := Option.map_eq_some_iff.mp hi'
    exact .inl ⟨call, hi⟩

/-- The id of a call that has one stays. -/
theorem IdChange.keeps (hc : IdChange w w') (hi : w.calls[i]? = some call)
    (hi' : w'.calls[i]? = some call') (hid : call.id = some k) : call'.id = some k := by
  have hold := ids_getElem? hi
  have hnew := ids_getElem? hi'
  cases hc with
  | none hids =>
    rw [hids, hold] at hnew
    exact (Option.some.inj hnew).symm.trans hid
  | spawn hids =>
    rw [hids, List.getElem?_append_left (List.getElem?_eq_some_iff.mp hold).1, hold] at hnew
    exact (Option.some.inj hnew).symm.trans hid
  | @register m hm hids =>
    have hne : m ≠ i := by
      rintro rfl
      rw [hold, hid] at hm
      cases hm
    rw [hids, List.getElem?_set_ne hne, hold] at hnew
    exact (Option.some.inj hnew).symm.trans hid

theorem Answered.init : Answered Mux.init := by
  constructor <;> intro i call f hi <;> simp [Mux.init] at hi

theorem Answered.next (h : Answered w) (ht : Table w) (hc : Change w l w') : Answered w' := by
  constructor
  · intro i call' f hi' hslot
    rcases hc.before hi' with ⟨call, hi⟩ | ⟨-, hempty⟩
    · obtain ⟨k, hid, ha⟩ : ∃ k, call.id = some k ∧ answerId f = some k := by
        rcases (hc.filled ht hi hi').2 f hslot with hold | ⟨-, -, k, ha, hid, -⟩
        · exact h.slot i call f hi hold
        · exact ⟨k, hid, ha⟩
      exact ⟨k, (hc.ids ht).keeps hi hi' hid, ha⟩
    · rw [hempty] at hslot
      cases hslot
  · intro i call' f hi' hpc
    rcases hc.before hi' with ⟨call, hi⟩ | ⟨hstart, -⟩
    · refine (hc.filled ht hi hi').1 f ?_
      have hgo := hc.pc hi hi'
      rw [hpc] at hgo
      rcases hgo with heq | hg | ⟨-, hgo⟩ | ⟨-, hgo⟩ | ⟨-, hgo⟩
      · exact h.returned i call f hi heq.symm
      · cases hg with
        | answered _ hslot => exact hslot
      · cases hgo
      · cases hgo
      · cases hgo
    · rw [hpc] at hstart
      cases hstart

/-- The table has room for a bounded number of calls. -/
theorem Change.bounded (hc : Change w l w') (h : w.pending.length ≤ maxInflightPerSession) :
    w'.pending.length ≤ maxInflightPerSession := by
  rcases hc.pending with ⟨stays, hpending⟩ | ⟨i, call, -, -, -, hroom, hpending⟩
  · rw [hpending]
    exact (List.length_filter_le _ _).trans h
  · rw [hpending, List.length_cons]
    exact Nat.succ_le_of_lt (Nat.lt_of_le_of_lt (List.length_filter_le _ _) hroom)

/-! ## Runs -/

/-- Calls have distinct ids, the table is bounded, and what a call has returned is a frame with its
id, as its caller gets it. -/
structure Uncrossed (w : Mux) : Prop where
  distinct : ∀ (i j k : Nat) (call call' : MuxCall), w.calls[i]? = some call →
    w.calls[j]? = some call' → call.id = some k → call'.id = some k → i = j
  bounded : w.pending.length ≤ maxInflightPerSession
  received : ∀ (i : Nat) (call : MuxCall) (f : Json), w.calls[i]? = some call →
    call.pc = .returned (.ok f) →
      ∃ k, call.id = some k ∧ answerId f = some k ∧ call.caller.Receives f

/-- A call gets its answer from a frame with its id, and only once; a frame with the id of a call
that waits is its answer. -/
structure Delivers (w : Mux) (l : Label) (w' : Mux) : Prop where
  once : ∀ (i : Nat) (call call' : MuxCall) (f : Json), w.calls[i]? = some call →
    w'.calls[i]? = some call' → call.slot = .filled f → call'.slot = .filled f
  own : ∀ (i : Nat) (call call' : MuxCall) (f : Json), w.calls[i]? = some call →
    w'.calls[i]? = some call' → call'.slot = .filled f → call.slot ≠ .filled f →
      l = .macFrame f ∧ call.slot = .empty ∧ ∃ k, answerId f = some k ∧ call.id = some k
  answers : ∀ (i k : Nat) (call : MuxCall) (f : Json), w.calls[i]? = some call →
    call.receiving = true → call.slot = .empty → call.id = some k → answerId f = some k →
      l = .macFrame f → w'.calls[i]? = some { call with slot := .filled f }

theorem delivers (ht : Table w) (hs : w.next l = some w') : Delivers w l w' := by
  have hc := next_change hs
  refine ⟨?_, ?_, ?_⟩
  · intro i call call' f hi hi' hslot
    exact (hc.filled ht hi hi').1 f hslot
  · intro i call call' f hi hi' hslot hne
    rcases (hc.filled ht hi hi').2 f hslot with hold | ⟨hl, hempty, k, ha, hid, -⟩
    · exact absurd hold hne
    · exact ⟨hl, hempty, k, ha, hid⟩
  · rintro i k call f hi hr hslot hid ha rfl
    exact macFrame_fills ht hs hi hr hslot ha hid

/-- The invariant of the runs with fewer than `2 ^ 64` calls. -/
structure MuxInv (w : Mux) : Prop where
  table : Table w
  fresh : w.calls.length < 2 ^ 64 → Fresh w
  answered : Answered w
  bounded : w.pending.length ≤ maxInflightPerSession

/-- No call goes away. -/
theorem IdChange.length_le (hc : IdChange w w') : w.calls.length ≤ w'.calls.length := by
  have hlen : ∀ v : Mux, v.ids.length = v.calls.length := fun v => by simp [Mux.ids]
  rw [← hlen w, ← hlen w']
  cases hc with
  | none hids => rw [hids]
  | spawn hids => simp [hids]
  | register _ hids => simp [hids]

theorem MuxInv.next (h : MuxInv w) (hs : w.next l = some w') : MuxInv w' := by
  have hc := next_change hs
  refine ⟨h.table.next hs, ?_, h.answered.next h.table hc, hc.bounded h.bounded⟩
  intro hlt
  have hle := (hc.ids h.table).length_le
  exact (h.fresh (by omega)).next (hc.ids h.table) (by omega)

theorem MuxInv.uncrossed (h : MuxInv w) (hlt : w.calls.length < 2 ^ 64) : Uncrossed w := by
  refine ⟨?_, h.bounded, ?_⟩
  · intro i j k call call' hi hj hid hid'
    have hik := ids_getElem? hi
    have hjk := ids_getElem? hj
    rw [hid] at hik
    rw [hid'] at hjk
    exact (h.fresh hlt).distinct i j k hik hjk
  · intro i call f hi hpc
    obtain ⟨k, hid, ha⟩ := h.answered.slot i call f hi (h.answered.returned i call f hi hpc)
    exact ⟨k, hid, ha, MuxCaller.receives ha _⟩

theorem MuxInv.init : MuxInv Mux.init :=
  ⟨Table.init, fun _ => Fresh.init, Answered.init, Nat.zero_le _⟩

/-- In every run with fewer than `2 ^ 64` calls the answers do not cross. -/
theorem mux_uncrossed (ls : List Label) :
    AllStates next (fun w => w.calls.length < 2 ^ 64 → Uncrossed w) Mux.init ls ∧
      AllSteps next (fun w l => ∀ w', w.next l = some w' → Delivers w l w') Mux.init ls := by
  have hinv : AllStates next MuxInv Mux.init ls :=
    AllStates.of_next (fun _ _ _ h hs => h.next hs) MuxInv.init
  refine ⟨hinv.imp fun _ h hlt => h.uncrossed hlt, ?_⟩
  exact AllSteps.of_invariant (fun _ _ _ h _ _ hs => delivers h.table hs) hinv

/-- Every loopback request gets the frame of its answer with nothing but the id changed. -/
def Verbatim (w : Mux) : Prop :=
  ∀ (i : Nat) (call : MuxCall) (f response : Json), w.calls[i]? = some call →
    call.pc = .returned (.ok f) → call.caller.reply (.ok f) = some response →
      ∀ key, key ≠ "id" → response.get key = f.get key

def toolsListRequest : Json :=
  .obj [("jsonrpc", .string "2.0"), ("id", .number 7), ("method", .string "tools/list")]

/-- The Mac has no tools. -/
def emptyListFrame : Json :=
  .obj [("jsonrpc", .string "2.0"), ("id", .number 1), ("result", .obj [("tools", .array [])])]

def relistRun : List Label :=
  [.loopback toolsListRequest, .step 0, .step 0, .step 0, .macFrame emptyListFrame, .step 0]

/-- `tools/list` adds the runtime's own tool to the answer of the Mac. -/
theorem relisted_notVerbatim : ¬ AllStates next Verbatim Mux.init relistRun := by
  intro h
  have hrun : (run next Mux.init relistRun).map
      (fun w => w.calls[0]?.map fun call => (call.caller, call.pc)) =
        some (some (.toolsList (.number 7), .returned (.ok emptyListFrame))) := by
    rfl
  obtain ⟨w, hverb, heq⟩ := h.observe hrun
  obtain ⟨call, hi, hcall⟩ := Option.map_eq_some_iff.mp heq
  obtain ⟨hcaller, hpc⟩ := Prod.mk.inj hcall
  have hsame := hverb 0 call emptyListFrame _ hi hpc (by rw [hcaller]; rfl) "result" (by decide)
  have htools : (listedTools (toolsList (.number 7)
      (forward (.number 7) (.ok emptyListFrame)))).map List.length =
        (listedTools emptyListFrame).map List.length := by
    rw [listedTools, hsame]
    rfl
  revert htools
  decide +kernel

end OpenabPty.Mux
