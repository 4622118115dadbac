import OpenabPty.CapProxy

/-!
# What stripping joins

Stripping a query joins the bytes on either side of it. The output is clean when no escape
byte that the proxy left behind starts a query in what is left, and what it starts there
moves the kitty model no differently.
-/

namespace OpenabPty

open Scanner

namespace CapabilityProxy

/-- The two proxies report the same kitty state: flags, stacks and active screen. -/
def Agrees (p q : CapabilityProxy) : Prop := p.kitty = q.kitty ∧ p.altActive = q.altActive

instance (p q : CapabilityProxy) : Decidable (Agrees p q) := inferInstanceAs (Decidable (_ ∧ _))

/-- How many bytes the proxy strips at the front of `s`, if it is a query. -/
def query? (s : List UInt8) : Option Nat :=
  match (new.examine s).2 with
  | .strip n _ => some n
  | .pass _ => none

/-- The chunk without its queries; `skip` bytes of it belong to a query. -/
def left : Nat → List UInt8 → List UInt8
  | _, [] => []
  | skip + 1, _ :: rest => left skip rest
  | 0, b :: rest =>
    match query? (b :: rest) with
    | some n => left (n - 1) rest
    | none => b :: left 0 rest

/-- For each byte that is left: the chunk from there on, and what is left of it from there on. -/
def survivors : Nat → List UInt8 → List (List UInt8 × List UInt8)
  | _, [] => []
  | skip + 1, _ :: rest => survivors skip rest
  | 0, b :: rest =>
    match query? (b :: rest) with
    | some n => survivors (n - 1) rest
    | none => (b :: rest, b :: left 0 rest) :: survivors 0 rest

/-- The proxy after the state changes that each of `inputs` starts with. -/
def observe (p : CapabilityProxy) (inputs : List (List UInt8)) : CapabilityProxy :=
  inputs.foldl (fun p s => (p.examine s).1) p

/-- Nothing that is left starts a query, and it moves the kitty model as the chunk did. -/
def Seamless (p : CapabilityProxy) (chunk : List UInt8) : Prop :=
  (∀ x ∈ survivors 0 chunk, query? x.2 = none) ∧
    Agrees (p.observe ((survivors 0 chunk).map Prod.snd))
      (p.observe ((survivors 0 chunk).map Prod.fst))

/-- What is kept of the chunk goes through the proxy unanswered and unchanged, and leaves it
with the same kitty state. -/
def Settles (p : CapabilityProxy) (chunk : List UInt8) : Prop :=
  let first := p.process chunk
  let second := p.process first.2.1
  second.2.2 = [] ∧ second.2.1 = first.2.1 ∧ second.1.answered = p.answered ∧
    Agrees second.1 first.1

instance (p : CapabilityProxy) (chunk : List UInt8) : Decidable (p.Settles chunk) :=
  inferInstanceAs (Decidable (_ ∧ _ ∧ _ ∧ _))

/-! ## The decision at a position -/

/-- An inspection without its response. -/
def shape : Inspection → Inspection
  | .answer consume _ => .answer consume []
  | .observed len => .observed len
  | .unknown => .unknown

/-- The decision at a position does not depend on the state. -/
theorem shape_dispatchCsi (p q : CapabilityProxy) (marker : Option UInt8) (params : List UInt8)
    (final : UInt8) (len : Nat) :
    shape (p.dispatchCsi marker params final len).2 =
      shape (q.dispatchCsi marker params final len).2 := by
  unfold dispatchCsi
  split
  · rfl
  · dsimp only
    split <;> (try split_ifs) <;> rfl

theorem shape_inspect (p q : CapabilityProxy) (s : List UInt8) :
    shape (p.inspect s).2 = shape (q.inspect s).2 := by
  unfold inspect
  split
  · rcases inspectCsi_cases s with hunknown | ⟨i, b, -, hdispatch⟩
    · rw [hunknown, hunknown]
    · rw [hdispatch, hdispatch]
      exact shape_dispatchCsi p q _ _ b (i + 1)
  · rfl
  · rfl
  · rfl

/-- A sequence that is dispatched is answered, without a change of state, or observed. -/
theorem dispatchCsi_cases (p : CapabilityProxy) (marker : Option UInt8) (params : List UInt8)
    (final : UInt8) (len : Nat) :
    (∃ response, p.dispatchCsi marker params final len = (p, .answer len response)) ∨
      (p.dispatchCsi marker params final len).2 = .observed len := by
  have hdsr : ∀ pars, (∃ response, dsrPrivate pars len = .answer len response) ∨
      dsrPrivate pars len = .observed len := by
    intro pars
    unfold dsrPrivate
    split <;> simp
  unfold dispatchCsi
  split
  · exact .inr rfl
  · rename_i pars hpars
    dsimp only
    split <;> (try split_ifs) <;> try simp
    exact hdsr pars

/-- What the proxy answers leaves its state alone. -/
theorem inspect_of_answer {p : CapabilityProxy} {s : List UInt8} {consume : Nat}
    {response : List UInt8} (h : (p.inspect s).2 = .answer consume response) :
    (p.inspect s).1 = p := by
  unfold inspect at h ⊢
  split at h
  · rcases inspectCsi_cases s with hunknown | ⟨i, b, -, hdispatch⟩
    · rw [hunknown]
    · rw [hdispatch] at h ⊢
      rcases p.dispatchCsi_cases (csiMarker s) _ b (i + 1) with ⟨answer, heq⟩ | hobserved
      · rw [heq]
      · rw [hobserved] at h
        cases h
  · rfl
  · cases h
  · rfl

/-! The number of answers plays no part in a decision or a state change. -/

section Answered

variable (p : CapabilityProxy) (n : Nat)

theorem kittySet_answered (rawFlags mode : UInt16) :
    ({ p with answered := n } : CapabilityProxy).kittySet rawFlags mode =
      { p.kittySet rawFlags mode with answered := n } := by
  unfold kittySet
  dsimp only
  split <;> rfl

theorem kittyPop_answered (count : UInt16) :
    ({ p with answered := n } : CapabilityProxy).kittyPop count =
      { p.kittyPop count with answered := n } := by
  unfold kittyPop
  have hscreen : ({ p with answered := n } : CapabilityProxy).kittyScreen = p.kittyScreen := rfl
  simp only [hscreen]
  split <;> rfl

theorem bufferModes_answered (pars : List UInt16) (set : Bool) :
    ({ p with answered := n } : CapabilityProxy).bufferModes pars set =
      { p.bufferModes pars set with answered := n } := by
  unfold bufferModes
  split <;> rfl

theorem dispatchCsi_answered (marker : Option UInt8) (params : List UInt8) (final : UInt8)
    (len : Nat) : ({ p with answered := n } : CapabilityProxy).dispatchCsi marker params final len =
      ({ (p.dispatchCsi marker params final len).1 with answered := n },
        (p.dispatchCsi marker params final len).2) := by
  unfold dispatchCsi
  split
  · rfl
  · dsimp only
    split <;> (try split_ifs) <;>
      first | rfl | rw [kittySet_answered] | rw [kittyPop_answered] | rw [bufferModes_answered]

theorem inspect_answered (s : List UInt8) :
    ({ p with answered := n } : CapabilityProxy).inspect s =
      ({ (p.inspect s).1 with answered := n }, (p.inspect s).2) := by
  unfold inspect
  split
  · rcases inspectCsi_cases s with hunknown | ⟨i, b, -, hdispatch⟩
    · rw [hunknown, hunknown]
    · rw [hdispatch, hdispatch, dispatchCsi_answered]
  · rfl
  · rfl
  · rfl

end Answered

/-! ## The scan, one byte at a time -/

theorem examine_of_ne_esc (p : CapabilityProxy) {b : UInt8} (hb : b ≠ esc) (rest : List UInt8) :
    p.examine (b :: rest) = (p, .pass 1) := by
  simp [examine, hb]

/-- A query is one in every state; answering it only counts it. -/
theorem examine_of_query {s : List UInt8} {n : Nat} (h : query? s = some n)
    (p : CapabilityProxy) :
    ∃ out, p.examine s = ({ p with answered := p.answered + 1 }, .strip n out) := by
  by_cases hesc : s.head? ≠ some esc
  · simp [query?, examine, hesc] at h
  · have hshape := shape_inspect p new s
    have hstate := @inspect_of_answer p s
    rw [query?, examine, if_neg hesc] at h
    rw [examine, if_neg hesc]
    rcases hnew : new.inspect s with ⟨q, inspection⟩
    rcases hp : p.inspect s with ⟨q', inspection'⟩
    rw [hnew] at h hshape
    rw [hp] at hshape hstate
    cases inspection with
    | answer consume response =>
      obtain rfl := Option.some.inj h
      cases inspection' <;> cases hshape
      obtain rfl : q' = p := hstate rfl
      exact ⟨_, rfl⟩
    | observed len => cases h
    | unknown => cases h

/-- What is no query is passed on, in every state. -/
theorem examine_of_not_query {s : List UInt8} (h : query? s = none) (p : CapabilityProxy) :
    ∃ n, (p.examine s).2 = .pass n := by
  cases hp : (p.examine s).2 with
  | pass n => exact ⟨n, rfl⟩
  | strip n out =>
    unfold query? examine at h
    unfold examine at hp
    split_ifs at h hp with hesc
    have hshape := shape_inspect p new s
    rcases hnew : new.inspect s with ⟨q, inspection⟩
    rcases hq : p.inspect s with ⟨q', inspection'⟩
    rw [hnew] at h hshape
    rw [hq] at hp hshape
    cases inspection' with
    | answer consume response =>
      cases inspection <;> cases hshape
      cases h
    | observed len => cases hp
    | unknown => cases hp

/-- A CSI sequence has no escape byte after its first byte. -/
theorem plain_of_csi {s : List UInt8} {i : Nat} {b : UInt8} (hs : s[1]? = some 0x5b)
    (hf : finalByte (fun b => 0x30 ≤ b && b ≤ 0x3b) (paramsStart s) (s.drop (paramsStart s)) =
      some (i, b)) :
    ∃ plain tail, s.tail = plain ++ tail ∧ i ≤ plain.length ∧ ∀ c ∈ plain, c ≠ esc := by
  obtain ⟨params, tail, hdrop, rfl, hparams, -, hfinal, -⟩ := finalByte_spec hf
  have hplain : ∀ c ∈ params ++ [b], c ≠ esc := by
    intro c hc
    rcases List.mem_append.mp hc with hc | hc
    · rintro rfl
      exact absurd (hparams esc hc) (by decide)
    · obtain rfl := List.mem_singleton.mp hc
      rintro rfl
      exact absurd hfinal.1 (by decide)
  obtain ⟨a, rest, rfl⟩ : ∃ a rest, s = a :: 0x5b :: rest := by
    match s, hs with
    | [a, c], hs => exact ⟨a, [], by simpa using hs⟩
    | a :: c :: d :: rest, hs => exact ⟨a, d :: rest, by simpa using hs⟩
  cases hm : csiMarker (a :: 0x5b :: rest) with
  | none =>
    simp only [paramsStart, hm, Option.isSome_none, Bool.false_eq_true, if_false] at hdrop ⊢
    refine ⟨0x5b :: (params ++ [b]), tail, ?_, ?_, ?_⟩
    · have hrest : rest = params ++ b :: tail := hdrop
      simp [hrest]
    · simp only [List.length_cons, List.length_append, List.length_nil]
      omega
    · intro c hc
      rcases List.mem_cons.mp hc with rfl | hc
      · decide
      · exact hplain c hc
  | some m =>
    simp only [paramsStart, hm, Option.isSome_some, if_true] at hdrop ⊢
    cases rest with
    | nil => simp at hdrop
    | cons c rest =>
      refine ⟨0x5b :: c :: (params ++ [b]), tail, ?_, ?_, ?_⟩
      · have hrest : rest = params ++ b :: tail := hdrop
        simp [hrest]
      · simp only [List.length_cons, List.length_append, List.length_nil]
        omega
      · have hc : c ≠ esc := by
          rintro rfl
          simp only [csiMarker, List.getElem?_cons_succ, List.getElem?_cons_zero] at hm
          cases hm
        intro d hd
        rcases List.mem_cons.mp hd with rfl | hd
        · decide
        · rcases List.mem_cons.mp hd with rfl | hd
          · exact hc
          · exact hplain d hd

/-- An OSC sequence is answered or unknown. -/
theorem oscQuery_eq_answer {s : List UInt8} {inspection : Inspection}
    (h : classifyOscQuery s = some inspection) :
    ∃ consume response, inspection = .answer consume response := by
  unfold classifyOscQuery at h
  split at h
  · cases h
  · dsimp only at h
    split at h
    · cases h
    · split at h
      · cases h
      · split at h
        · obtain ⟨colours, -, rfl⟩ := Option.map_eq_some_iff.mp h
          exact ⟨_, _, rfl⟩
        · cases h

/-- What is observed has no escape byte after its first byte. -/
theorem plain_of_observed {p : CapabilityProxy} {s : List UInt8} {len : Nat}
    (h : (p.inspect s).2 = .observed len) :
    ∃ plain tail, s.tail = plain ++ tail ∧ len - 1 ≤ plain.length ∧ ∀ c ∈ plain, c ≠ esc := by
  unfold inspect at h
  split at h
  · rename_i hcsi
    rcases inspectCsi_cases s with hunknown | ⟨i, b, hf, hdispatch⟩
    · rw [hunknown] at h
      cases h
    · rw [hdispatch] at h
      rcases p.dispatchCsi_cases (csiMarker s) _ b (i + 1) with ⟨response, heq⟩ | hobserved
      · rw [heq] at h
        cases h
      · obtain rfl := Inspection.observed.inj (hobserved.symm.trans h)
        exact plain_of_csi hcsi hf
  · cases hq : classifyOscQuery s with
    | none =>
      rw [hq] at h
      cases h
    | some inspection =>
      obtain ⟨consume, response, rfl⟩ := oscQuery_eq_answer hq
      rw [hq] at h
      cases h
  · rename_i hris
    obtain rfl := Inspection.observed.inj h
    match s, hris with
    | a :: c :: rest, hris =>
      obtain rfl : c = 0x63 := by simpa using hris
      exact ⟨[0x63], rest, rfl, Nat.le_refl 1, by simp [esc]⟩
  · cases h

/-- What is passed on at once has no escape byte after its first byte. -/
theorem plain_of_pass {p : CapabilityProxy} {b : UInt8} {rest : List UInt8} {n : Nat}
    (h : (p.examine (b :: rest)).2 = .pass n) :
    ∃ plain tail, rest = plain ++ tail ∧ n - 1 ≤ plain.length ∧ ∀ c ∈ plain, c ≠ esc := by
  have hone : ∃ plain tail, rest = plain ++ tail ∧ 1 - 1 ≤ plain.length ∧ ∀ c ∈ plain, c ≠ esc :=
    ⟨[], rest, rfl, Nat.le_refl 0, by simp⟩
  unfold examine at h
  split_ifs at h with hesc
  · obtain rfl := Action.pass.inj h
    exact hone
  · rcases hi : p.inspect (b :: rest) with ⟨q, inspection⟩
    rw [hi] at h
    cases inspection with
    | answer consume response => cases h
    | observed len =>
      obtain rfl := Action.pass.inj h
      exact plain_of_observed (s := b :: rest) (congrArg Prod.snd hi)
    | unknown =>
      obtain rfl := Action.pass.inj h
      exact hone

/-- A query is skipped. -/
theorem scan_of_query {b : UInt8} {rest : List UInt8} {n : Nat}
    (h : query? (b :: rest) = some n) (p : CapabilityProxy) :
    ∃ out, scan examine p (.pass 0) (b :: rest) =
      let r := scan examine { p with answered := p.answered + 1 } (.pass 0) (rest.drop (n - 1))
      (r.1, r.2.1, out :: r.2.2) := by
  obtain ⟨out, heq⟩ := examine_of_query h p
  exact ⟨out, scan_of_strip heq⟩

/-- A byte that starts no query is passed on, and the scan goes on at the next byte. -/
theorem scan_of_not_query {b : UInt8} {rest : List UInt8} (h : query? (b :: rest) = none)
    (p : CapabilityProxy) :
    scan examine p (.pass 0) (b :: rest) =
      let r := scan examine (p.examine (b :: rest)).1 (.pass 0) rest
      (r.1, b :: r.2.1, r.2.2) := by
  obtain ⟨n, hpass⟩ := examine_of_not_query h p
  obtain ⟨plain, tail, rfl, hlen, hplain⟩ := plain_of_pass hpass
  rw [scan_of_pass (Prod.ext rfl hpass),
    scan_pass_plain tail hlen fun c hc rest => examine_of_ne_esc _ (hplain c hc) rest]

/-! ## The first pass -/

theorem Agrees.refl (p : CapabilityProxy) : Agrees p p := ⟨rfl, rfl⟩

theorem Agrees.trans {p q r : CapabilityProxy} (h : Agrees p q) (h' : Agrees q r) : Agrees p r :=
  ⟨h.1.trans h'.1, h.2.trans h'.2⟩

theorem agrees_answered (p : CapabilityProxy) (n : Nat) :
    Agrees p { p with answered := n } := ⟨rfl, rfl⟩

theorem Agrees.eq {p q : CapabilityProxy} (h : Agrees p q) :
    q = { p with answered := q.answered } := by
  cases p
  cases q
  obtain ⟨rfl, rfl⟩ := h
  rfl

/-- Proxies that agree go on agreeing. -/
theorem Agrees.examine {p q : CapabilityProxy} (h : Agrees p q) (s : List UInt8) :
    Agrees (p.examine s).1 (q.examine s).1 := by
  rw [h.eq]
  unfold CapabilityProxy.examine
  by_cases hesc : s.head? ≠ some esc
  · simp only [if_pos hesc]
    exact agrees_answered p q.answered
  · simp only [if_neg hesc, inspect_answered]
    rcases p.inspect s with ⟨p', inspection⟩
    cases inspection <;> exact ⟨rfl, rfl⟩

theorem Agrees.observe {p q : CapabilityProxy} (h : Agrees p q) (inputs : List (List UInt8)) :
    Agrees (p.observe inputs) (q.observe inputs) := by
  induction inputs generalizing p q with
  | nil => exact h
  | cons s inputs ih => exact ih (h.examine s)

/-- The first pass keeps what is left, and moves the model as the chunk does. -/
theorem scan_chunk (p : CapabilityProxy) (skip : Nat) (chunk : List UInt8) :
    (scan examine p (.pass 0) (chunk.drop skip)).2.1 = left skip chunk ∧
    Agrees (p.observe ((survivors skip chunk).map Prod.fst))
      (scan examine p (.pass 0) (chunk.drop skip)).1 := by
  induction chunk generalizing p skip with
  | nil => simpa [left, survivors, observe] using Agrees.refl p
  | cons b rest ih =>
    cases skip with
    | succ skip => exact ih p skip
    | zero =>
      rw [List.drop_zero]
      cases hq : query? (b :: rest) with
      | some n =>
        obtain ⟨out, hscan⟩ := scan_of_query hq p
        obtain ⟨hleft, hagrees⟩ := ih { p with answered := p.answered + 1 } (n - 1)
        rw [hscan]
        simp only [left, survivors, hq]
        exact ⟨hleft, ((agrees_answered p _).observe _).trans hagrees⟩
      | none =>
        obtain ⟨hleft, hagrees⟩ := ih (p.examine (b :: rest)).1 0
        rw [List.drop_zero] at hleft hagrees
        rw [scan_of_not_query hq]
        simp only [left, survivors, hq, List.map_cons]
        exact ⟨congrArg (b :: ·) hleft, hagrees⟩

/-! ## The second pass -/

/-- If nothing that is left starts a query, the second pass keeps all of it. -/
theorem scan_left {skip : Nat} {chunk : List UInt8}
    (h : ∀ x ∈ survivors skip chunk, query? x.2 = none) (p : CapabilityProxy) :
    scan examine p (.pass 0) (left skip chunk) =
      (p.observe ((survivors skip chunk).map Prod.snd), left skip chunk, []) := by
  induction chunk generalizing p skip with
  | nil => simp [left, survivors, observe]
  | cons b rest ih =>
    cases skip with
    | succ skip => exact ih h p
    | zero =>
      cases hq : query? (b :: rest) with
      | some n =>
        simp only [left, survivors, hq] at h ⊢
        exact ih h p
      | none =>
        simp only [left, survivors, hq, List.map_cons] at h ⊢
        rw [scan_of_not_query (h _ List.mem_cons_self),
          ih fun x hx => h x (List.mem_cons_of_mem _ hx)]
        rfl

/-- A pass never makes its input longer. -/
theorem length_scan_le (p : CapabilityProxy) (input : List UInt8) :
    (scan examine p (.pass 0) input).2.1.length ≤ input.length := by
  obtain ⟨hleft, -⟩ := p.scan_chunk 0 input
  rw [List.drop_zero] at hleft
  rw [hleft]
  have hlen : ∀ (skip : Nat) (chunk : List UInt8), (left skip chunk).length ≤ chunk.length := by
    intro skip chunk
    induction chunk generalizing skip with
    | nil => simp [left]
    | cons b rest ih =>
      cases skip with
      | succ skip => exact Nat.le_succ_of_le (ih skip)
      | zero =>
        cases hq : query? (b :: rest) with
        | some n =>
          simp only [left, hq]
          exact Nat.le_succ_of_le (ih (n - 1))
        | none =>
          simp only [left, hq]
          exact Nat.succ_le_succ (ih 0)
  exact hlen 0 input

/-- If something that is left starts a query, the second pass strips it. -/
theorem length_scan_left_lt {skip : Nat} {chunk : List UInt8} {x : List UInt8 × List UInt8}
    (hx : x ∈ survivors skip chunk) (hquery : query? x.2 ≠ none) (p : CapabilityProxy) :
    (scan examine p (.pass 0) (left skip chunk)).2.1.length < (left skip chunk).length := by
  induction chunk generalizing p skip with
  | nil => simp [survivors] at hx
  | cons b rest ih =>
    cases skip with
    | succ skip => exact ih hx p
    | zero =>
      cases hq : query? (b :: rest) with
      | some n =>
        simp only [left, survivors, hq] at hx ⊢
        exact ih hx p
      | none =>
        simp only [left, survivors, hq] at hx ⊢
        cases hfront : query? (b :: left 0 rest) with
        | some n =>
          obtain ⟨out, hscan⟩ := scan_of_query hfront p
          rw [hscan, List.length_cons]
          have hle := length_scan_le { p with answered := p.answered + 1 }
            ((left 0 rest).drop (n - 1))
          rw [List.length_drop] at hle
          exact Nat.lt_succ_of_le (Nat.le_trans hle (Nat.sub_le _ _))
        | none =>
          rcases List.mem_cons.mp hx with rfl | hx
          · exact absurd hfront hquery
          · rw [scan_of_not_query hfront]
            exact Nat.succ_lt_succ (ih hx _)

/-- What is no query is not counted as one. -/
theorem examine_not_query_answered {s : List UInt8} (h : query? s = none) (p : CapabilityProxy) :
    (p.examine s).1.answered = p.answered := by
  obtain ⟨n, hpass⟩ := examine_of_not_query h p
  have hsame : (p.inspect s).1.answered = p.answered :=
    congrArg (fun r => r.1.answered) (p.inspect_answered p.answered s)
  unfold examine at hpass ⊢
  by_cases hesc : s.head? ≠ some esc
  · rw [if_pos hesc]
  · rw [if_neg hesc] at hpass ⊢
    rcases hi : p.inspect s with ⟨q, inspection⟩
    rw [hi] at hpass hsame
    cases inspection with
    | answer consume response => cases hpass
    | observed len => exact hsame
    | unknown => exact hsame

theorem observe_answered {inputs : List (List UInt8)} (h : ∀ s ∈ inputs, query? s = none)
    (p : CapabilityProxy) : (p.observe inputs).answered = p.answered := by
  induction inputs generalizing p with
  | nil => rfl
  | cons s inputs ih =>
    have hhead := examine_not_query_answered (h s List.mem_cons_self) p
    exact (ih (fun t ht => h t (List.mem_cons_of_mem s ht)) _).trans hhead

theorem process_kept (p : CapabilityProxy) (chunk : List UInt8) :
    (p.process chunk).2.1 = left 0 chunk := by
  have hkept := (p.scan_chunk 0 chunk).1
  rw [List.drop_zero] at hkept
  rw [process_eq_scan, hkept]

/-- What is kept of a chunk settles exactly when stripping joined nothing that matters. -/
theorem settles_iff_seamless (p : CapabilityProxy) (chunk : List UInt8) :
    p.Settles chunk ↔ p.Seamless chunk := by
  have hmodel := (p.scan_chunk 0 chunk).2
  rw [List.drop_zero] at hmodel
  have hfirst := p.process_kept chunk
  have hfirstModel : (p.process chunk).1 = (scan examine p (.pass 0) chunk).1 := by
    rw [process_eq_scan]
  simp only [Settles, Seamless, hfirst, hfirstModel]
  constructor
  · rintro ⟨-, hsame, -, hagrees⟩
    have hnone : ∀ x ∈ survivors 0 chunk, query? x.2 = none := by
      intro x hx
      by_contra hquery
      have hlt := length_scan_left_lt hx hquery p
      rw [process_eq_scan] at hsame
      exact absurd (congrArg List.length hsame) (Nat.ne_of_lt hlt)
    rw [process_eq_scan, scan_left hnone] at hagrees
    exact ⟨hnone, hagrees.trans ⟨hmodel.1.symm, hmodel.2.symm⟩⟩
  · rintro ⟨hnone, hagrees⟩
    rw [process_eq_scan, scan_left hnone]
    have hcount : ∀ s ∈ (survivors 0 chunk).map Prod.snd, query? s = none := by
      intro s hs
      obtain ⟨x, hx, rfl⟩ := List.mem_map.mp hs
      exact hnone x hx
    exact ⟨rfl, rfl, observe_answered hcount p, hagrees.trans hmodel⟩

end CapabilityProxy

end OpenabPty
