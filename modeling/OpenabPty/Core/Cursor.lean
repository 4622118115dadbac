import OpenabPty.Core.Cuts
import OpenabPty.Core.Loops

/-!
# A scanner that indexes

The loop of a scanner over an array keeps the index it has come to, the index up to which it has
copied its input, and what it has copied, if it has stripped anything yet. It never leaves the
array, comes to an end, and does what `scan` does.
-/

namespace Scanner

open Loops

variable {σ β ω : Type}

/-- The variables of the loop. -/
structure Cursor (σ β ω : Type) where
  state : σ
  index : Nat
  copiedUpto : Nat
  out : Option (List β)
  outputs : List ω

/-- One turn of the loop. Only `introducer` is looked at further, by `inspect`, which may fail. -/
def turn [DecidableEq β] (introducer : β) (inspect : σ → List β → Option (σ × Action ω))
    (chunk : List β) (c : Cursor σ β ω) :
    Option (Cursor σ β ω ⊕ (σ × List β × List ω)) :=
  if c.index < chunk.length then do
    let b ← chunk[c.index]?
    if b ≠ introducer then return .inl { c with index := c.index + 1 }
    else
      let s ← slice chunk c.index chunk.length
      match ← inspect c.state s with
      | (state, .pass n) => return .inl { c with state := state, index := c.index + n }
      | (state, .strip n out) =>
        let copied ← slice chunk c.copiedUpto c.index
        return .inl {
          state := state
          index := c.index + n
          copiedUpto := c.index + n
          out := some (c.out.getD [] ++ copied)
          outputs := c.outputs ++ [out] }
  else
    match c.out with
    | some out => do
      let rest ← slice chunk c.copiedUpto chunk.length
      return .inr (c.state, out ++ rest, c.outputs)
    | none => return .inr (c.state, chunk, [])

/-- The loop; every turn takes a symbol or more. -/
def indexed [DecidableEq β] (introducer : β) (inspect : σ → List β → Option (σ × Action ω))
    (s : σ) (chunk : List β) : Option (σ × List β × List ω) :=
  loop (turn introducer inspect chunk) (chunk.length + 1)
    { state := s, index := 0, copiedUpto := 0, out := none, outputs := [] }

/-- The cursor is in the array, and nothing is copied before anything is stripped. -/
structure Cursor.Valid (chunk : List β) (c : Cursor σ β ω) : Prop where
  index : c.index ≤ chunk.length
  copied : c.copiedUpto ≤ c.index
  fresh : c.out = none → c.copiedUpto = 0 ∧ c.outputs = []

/-- What the loop returns from `c` on: what it has copied, what it still has to copy up to the
index, and what the scan of the rest passes on. -/
def Cursor.result (inspect : σ → List β → σ × Action ω) (chunk : List β) (c : Cursor σ β ω) :
    σ × List β × List ω :=
  let r := scan inspect c.state (.pass 0) (chunk.drop c.index)
  (r.1, c.out.getD [] ++ (chunk.drop c.copiedUpto).take (c.index - c.copiedUpto) ++ r.2.1,
    c.outputs ++ r.2.2)

variable {inspect : σ → List β → σ × Action ω} {chunk : List β} {c : Cursor σ β ω}

/-- Passing on `n` symbols moves the index. -/
theorem Cursor.Valid.pass (h : c.Valid chunk) {state : σ} {n : Nat}
    (hdecision : inspect c.state (chunk.drop c.index) = (state, .pass n)) (hpos : 0 < n)
    (hle : n ≤ (chunk.drop c.index).length) :
    ({ c with state := state, index := c.index + n } : Cursor σ β ω).Valid chunk ∧
      ({ c with state := state, index := c.index + n } : Cursor σ β ω).result inspect chunk =
        c.result inspect chunk := by
  have hne : chunk.drop c.index ≠ [] := List.ne_nil_of_length_pos (Nat.lt_of_lt_of_le hpos hle)
  rw [List.length_drop] at hle
  have hindex := h.index
  have hcopied := h.copied
  constructor
  · exact ⟨by dsimp only; omega, by dsimp only; omega, h.fresh⟩
  · -- What is still to be copied grows by what the decision passes on.
    have hgrow : (chunk.drop c.copiedUpto).take (c.index + n - c.copiedUpto) =
        (chunk.drop c.copiedUpto).take (c.index - c.copiedUpto) ++ (chunk.drop c.index).take n := by
      have hsplit : c.index + n - c.copiedUpto = c.index - c.copiedUpto + n := by omega
      have hdrop : (chunk.drop c.copiedUpto).drop (c.index - c.copiedUpto) = chunk.drop c.index := by
        rw [List.drop_drop, Nat.add_sub_cancel' hcopied]
      rw [hsplit, List.take_add, hdrop]
    simp only [result, scan_decided hdecision hne hpos, Action.kept, Action.outputs, Action.length,
      hgrow, List.drop_drop, List.append_assoc, List.nil_append]

/-- Stripping `n` symbols copies what lies before them. -/
theorem Cursor.Valid.strip (h : c.Valid chunk) {state : σ} {n : Nat} {out : ω}
    (hdecision : inspect c.state (chunk.drop c.index) = (state, .strip n out)) (hpos : 0 < n)
    (hle : n ≤ (chunk.drop c.index).length) {copied : List β}
    (hcopy : copied = (chunk.drop c.copiedUpto).take (c.index - c.copiedUpto)) :
    ({ state := state, index := c.index + n, copiedUpto := c.index + n,
       out := some (c.out.getD [] ++ copied), outputs := c.outputs ++ [out] } :
        Cursor σ β ω).Valid chunk ∧
      ({ state := state, index := c.index + n, copiedUpto := c.index + n,
         out := some (c.out.getD [] ++ copied), outputs := c.outputs ++ [out] } :
          Cursor σ β ω).result inspect chunk = c.result inspect chunk := by
  have hne : chunk.drop c.index ≠ [] := List.ne_nil_of_length_pos (Nat.lt_of_lt_of_le hpos hle)
  rw [List.length_drop] at hle
  have hindex := h.index
  constructor
  · exact ⟨by dsimp only; omega, Nat.le_refl _, by intro hnone; cases hnone⟩
  · simp only [result, scan_decided hdecision hne hpos, Action.kept, Action.outputs, Action.length,
      hcopy, Option.getD_some, Nat.sub_self, List.take_zero, List.append_nil, List.drop_drop,
      List.append_assoc, List.nil_append]

/-- `checked` does not fail at the introducer and decides there what `inspect` decides, which
passes on every other symbol by itself. -/
structure Checks (introducer : β) (inspect : σ → List β → σ × Action ω)
    (checked : σ → List β → Option (σ × Action ω)) : Prop where
  progress : Progress inspect
  plain : ∀ s b rest, b ≠ introducer → inspect s (b :: rest) = (s, .pass 1)
  same : ∀ s rest, checked s (introducer :: rest) = some (inspect s (introducer :: rest))

variable [DecidableEq β] {introducer : β} {checked : σ → List β → Option (σ × Action ω)}

/-- Within the array a turn does not fail and moves on. -/
theorem Cursor.Valid.turn_inside (hc : c.Valid chunk) (h : Checks introducer inspect checked)
    (hin : c.index < chunk.length) :
    ∃ c', turn introducer checked chunk c = some (.inl c') ∧ c'.Valid chunk ∧
      chunk.length - c'.index < chunk.length - c.index ∧
      c'.result inspect chunk = c.result inspect chunk := by
  have hget : chunk[c.index]? = some chunk[c.index] := List.getElem?_eq_getElem hin
  have hrest : chunk.drop c.index = chunk[c.index] :: chunk.drop (c.index + 1) :=
    List.drop_eq_getElem_cons hin
  have hne : chunk.drop c.index ≠ [] := by
    rw [hrest]
    exact List.cons_ne_nil _ _
  by_cases hb : chunk[c.index] = introducer
  · have hslice : slice chunk c.index chunk.length = some (chunk.drop c.index) :=
      slice_length hc.index
    have hsame : checked c.state (chunk.drop c.index) =
        some (inspect c.state (chunk.drop c.index)) := by
      rw [hrest, hb]
      exact h.same c.state _
    obtain ⟨hpos, hle⟩ := h.progress c.state (chunk.drop c.index) hne
    rcases hdecision : inspect c.state (chunk.drop c.index) with ⟨state, action⟩
    rw [hdecision] at hsame hpos hle
    cases action with
    | pass n =>
      have hn : 0 < n := hpos
      obtain ⟨hvalid, hresult⟩ := hc.pass hdecision hn hle
      refine ⟨_, ?_, hvalid, by dsimp only; omega, hresult⟩
      rw [turn, if_pos hin]
      simp only [hget, hb, hslice, hsame, Option.bind_eq_bind, Option.bind_some, ne_eq,
        not_true_eq_false, if_false]
      rfl
    | strip n out =>
      have hn : 0 < n := hpos
      have hcopied : slice chunk c.copiedUpto c.index =
          some ((chunk.drop c.copiedUpto).take (c.index - c.copiedUpto)) :=
        slice_eq hc.copied hc.index
      obtain ⟨hvalid, hresult⟩ := hc.strip hdecision hn hle rfl
      refine ⟨_, ?_, hvalid, by dsimp only; omega, hresult⟩
      rw [turn, if_pos hin]
      simp only [hget, hb, hslice, hsame, hcopied, Option.bind_eq_bind, Option.bind_some, ne_eq,
        not_true_eq_false, if_false]
      rfl
  · have hdecision : inspect c.state (chunk.drop c.index) = (c.state, .pass 1) := by
      rw [hrest]
      exact h.plain _ _ _ hb
    obtain ⟨hvalid, hresult⟩ := hc.pass hdecision Nat.one_pos (List.length_pos_iff.mpr hne)
    refine ⟨_, ?_, hvalid, by dsimp only; omega, hresult⟩
    rw [turn, if_pos hin]
    simp only [hget, hb, Option.bind_eq_bind, Option.bind_some, ne_eq, not_false_eq_true, if_true]
    rfl

/-- At the end of the array a turn does not fail and ends the loop. -/
theorem Cursor.Valid.turn_end (hc : c.Valid chunk) (hend : ¬ c.index < chunk.length) :
    turn introducer checked chunk c = some (.inr (c.result inspect chunk)) := by
  have hindex : c.index = chunk.length := Nat.le_antisymm hc.index (Nat.not_lt.mp hend)
  have hcopied : c.copiedUpto ≤ chunk.length := hindex ▸ hc.copied
  rw [turn, if_neg hend]
  cases hout : c.out with
  | none =>
    obtain ⟨hzero, hnone⟩ := hc.fresh hout
    simp [Cursor.result, hout, hzero, hnone, hindex]
  | some out =>
    have hslice : slice chunk c.copiedUpto chunk.length = some (chunk.drop c.copiedUpto) :=
      slice_length hcopied
    have hall : (chunk.drop c.copiedUpto).take (chunk.length - c.copiedUpto) =
        chunk.drop c.copiedUpto := List.take_of_length_le (Nat.le_of_eq List.length_drop)
    simp [Cursor.result, hout, hindex, hslice, hall]

/-- **The loop stays in the array, comes to an end and does what `scan` does.** -/
theorem Checks.indexed_eq (h : Checks introducer inspect checked) (s : σ) (chunk : List β) :
    indexed introducer checked s chunk = some (scan inspect s (.pass 0) chunk) := by
  have hstart : ({ state := s, index := 0, copiedUpto := 0, out := none, outputs := [] } :
      Cursor σ β ω).Valid chunk := ⟨Nat.zero_le _, Nat.le_refl 0, fun _ => ⟨rfl, rfl⟩⟩
  have hturn : ∀ c : Cursor σ β ω, c.Valid chunk →
      (∃ c', turn introducer checked chunk c = some (.inl c') ∧ c'.Valid chunk ∧
        chunk.length - c'.index < chunk.length - c.index ∧
        c'.result inspect chunk = c.result inspect chunk) ∨
      turn introducer checked chunk c = some (.inr (c.result inspect chunk)) := by
    intro c hc
    by_cases hin : c.index < chunk.length
    · exact .inl (hc.turn_inside h hin)
    · exact .inr (hc.turn_end hin)
  exact loop_eq (·.Valid chunk) (chunk.length - ·.index) (Cursor.result inspect chunk) hturn hstart
    (Nat.lt_succ_of_le (Nat.sub_le _ _))

end Scanner
