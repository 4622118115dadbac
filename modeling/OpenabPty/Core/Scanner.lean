import Mathlib.Data.List.Basic

/-!
# Scanners that pass or strip

A scanner walks over its input from the front. At each position it looks at what is left and
decides how many symbols to pass on unchanged, or how many to strip, with one output for
what it stripped. Only the state is carried from one position to the next.
-/

namespace Scanner

/-- What a scanner makes of the front of its input. -/
inductive Action (ω : Type) where
  | pass (n : Nat)
  | strip (n : Nat) (out : ω)
  deriving DecidableEq

/-- What is left of the decision taken last: symbols to pass on or to strip unseen. -/
inductive Pending where
  | pass (n : Nat)
  | strip (n : Nat)

variable {σ β ω : Type}

/-- The state, the symbols passed on and the outputs of a scan. A decision always takes at
least the symbol it is made at. -/
def scan (inspect : σ → List β → σ × Action ω) : σ → Pending → List β → σ × List β × List ω
  | s, _, [] => (s, [], [])
  | s, .pass (n + 1), b :: rest =>
    let r := scan inspect s (.pass n) rest
    (r.1, b :: r.2.1, r.2.2)
  | s, .strip (n + 1), _ :: rest => scan inspect s (.strip n) rest
  | s, .pass 0, b :: rest | s, .strip 0, b :: rest =>
    match inspect s (b :: rest) with
    | (s', .pass n) =>
      let r := scan inspect s' (.pass (n - 1)) rest
      (r.1, b :: r.2.1, r.2.2)
    | (s', .strip n out) =>
      let r := scan inspect s' (.strip (n - 1)) rest
      (r.1, r.2.1, out :: r.2.2)

variable {inspect : σ → List β → σ × Action ω} {s s' : σ} {b : β} {rest : List β} {n : Nat}
  {out : ω}

@[simp] theorem scan_nil (pending : Pending) : scan inspect s pending [] = (s, [], []) := by
  rw [scan]

theorem scan_strip_zero (input : List β) :
    scan inspect s (.strip 0) input = scan inspect s (.pass 0) input := by
  cases input with
  | nil => simp
  | cons b rest => simp only [scan]

/-- Symbols that are stripped unseen are skipped. -/
theorem scan_strip (n : Nat) (input : List β) :
    scan inspect s (.strip n) input = scan inspect s (.pass 0) (input.drop n) := by
  induction n generalizing input with
  | zero => exact scan_strip_zero input
  | succ n ih =>
    cases input with
    | nil => simp
    | cons b rest =>
      rw [scan, ih]
      rfl

/-- A decision to pass. -/
theorem scan_of_pass (h : inspect s (b :: rest) = (s', .pass n)) :
    scan inspect s (.pass 0) (b :: rest) =
      let r := scan inspect s' (.pass (n - 1)) rest
      (r.1, b :: r.2.1, r.2.2) := by
  simp only [scan, h]

/-- A decision to strip. -/
theorem scan_of_strip (h : inspect s (b :: rest) = (s', .strip n out)) :
    scan inspect s (.pass 0) (b :: rest) =
      let r := scan inspect s' (.pass 0) (rest.drop (n - 1))
      (r.1, r.2.1, out :: r.2.2) := by
  simp only [scan, h]
  rw [scan_strip]

/-- Symbols that would be passed on one by one, without a change of state, may be passed
unseen. -/
theorem scan_pass_plain {plain : List β} (tail : List β) (hn : n ≤ plain.length)
    (h : ∀ c ∈ plain, ∀ rest, inspect s (c :: rest) = (s, .pass 1)) :
    scan inspect s (.pass n) (plain ++ tail) = scan inspect s (.pass 0) (plain ++ tail) := by
  induction n generalizing plain with
  | zero => rfl
  | succ n ih =>
    cases plain with
    | nil => simp at hn
    | cons c plain =>
      have htail : scan inspect s (.pass n) (plain ++ tail) =
          scan inspect s (.pass 0) (plain ++ tail) :=
        ih (by simpa using hn) fun d hd => h d (List.mem_cons_of_mem c hd)
      rw [List.cons_append, scan, scan_of_pass (h c List.mem_cons_self _), htail]

/-- Input that is passed on symbol by symbol, without a change of state. -/
theorem scan_plain {plain : List β}
    (h : ∀ c ∈ plain, ∀ rest, inspect s (c :: rest) = (s, .pass 1)) :
    scan inspect s (.pass 0) plain = (s, plain, []) := by
  induction plain with
  | nil => simp
  | cons c plain ih =>
    rw [scan_of_pass (h c List.mem_cons_self plain), ih fun d hd => h d (List.mem_cons_of_mem c hd)]

/-- Induction along a scan: there is nothing left, a symbol belongs to the decision taken last, or
a decision is taken at it. -/
theorem scan_induction {motive : σ → Pending → List β → Prop}
    (nil : ∀ s pending, motive s pending [])
    (pass : ∀ s n b rest, motive s (.pass n) rest → motive s (.pass (n + 1)) (b :: rest))
    (strip : ∀ s n b rest, motive s (.strip n) rest → motive s (.strip (n + 1)) (b :: rest))
    (decided : ∀ s b rest, (∀ s' pending, motive s' pending rest) →
      motive s (.pass 0) (b :: rest))
    (stripped : ∀ s b rest, motive s (.pass 0) (b :: rest) → motive s (.strip 0) (b :: rest))
    (s : σ) (pending : Pending) (input : List β) : motive s pending input := by
  induction input generalizing s pending with
  | nil => exact nil s pending
  | cons b rest ih =>
    cases pending with
    | pass n =>
      cases n with
      | zero => exact decided s b rest ih
      | succ n => exact pass s n b rest (ih s (.pass n))
    | strip n =>
      cases n with
      | zero => exact stripped s b rest (decided s b rest ih)
      | succ n => exact strip s n b rest (ih s (.strip n))

/-- What holds of every output of `inspect` holds of every output of a scan. -/
theorem forall_mem_outputs {P : ω → Prop}
    (h : ∀ s input s' n out, inspect s input = (s', .strip n out) → P out) (s : σ)
    (pending : Pending) (input : List β) : ∀ out ∈ (scan inspect s pending input).2.2, P out := by
  induction s, pending, input using scan_induction with
  | nil s pending => simp
  | pass s n b rest ih => exact ih
  | strip s n b rest ih => exact ih
  | stripped s b rest ih => rwa [scan_strip_zero]
  | decided s b rest ih =>
    intro out hout
    rcases hdecision : inspect s (b :: rest) with ⟨s', action⟩
    cases action with
    | pass n =>
      rw [scan_of_pass hdecision] at hout
      exact ih s' _ out hout
    | strip n out' =>
      -- Only a decision to strip adds an output.
      rw [scan, hdecision] at hout
      rcases List.mem_cons.mp hout with rfl | hout
      · exact h s (b :: rest) s' n out hdecision
      · exact ih s' _ out hout

/-- What every decision preserves holds of the state that a scan ends in. -/
theorem scan_invariant {I : σ → Prop} (h : ∀ s input, I s → I (inspect s input).1)
    (hs : I s) (pending : Pending) (input : List β) : I (scan inspect s pending input).1 := by
  induction s, pending, input using scan_induction with
  | nil s pending => rwa [scan_nil]
  | pass s n b rest ih => exact ih hs
  | strip s n b rest ih => exact ih hs
  | stripped s b rest ih =>
    rw [scan_strip_zero]
    exact ih hs
  | decided s b rest ih =>
    have hnext := h s (b :: rest) hs
    rcases hdecision : inspect s (b :: rest) with ⟨s', action⟩
    rw [hdecision] at hnext
    cases action with
    | pass n =>
      rw [scan_of_pass hdecision]
      exact ih s' _ hnext
    | strip n out =>
      rw [scan, hdecision]
      exact ih s' _ hnext

/-! ## Input that is stripped as a whole -/

/-- However it goes on, input that starts with `r` goes on as what follows `r`, and nothing of
`r` is passed on. -/
def Swallowed (inspect : σ → List β → σ × Action ω) (r : List β) : Prop :=
  ∀ s tail, ∃ s', (scan inspect s (.pass 0) (r ++ tail)).2.1 =
    (scan inspect s' (.pass 0) tail).2.1

theorem Swallowed.nil : Swallowed inspect ([] : List β) := fun s _ => ⟨s, rfl⟩

theorem Swallowed.append {r₁ r₂ : List β} (h₁ : Swallowed inspect r₁)
    (h₂ : Swallowed inspect r₂) : Swallowed inspect (r₁ ++ r₂) := by
  intro s tail
  obtain ⟨s₁, heq₁⟩ := h₁ s (r₂ ++ tail)
  obtain ⟨s₂, heq₂⟩ := h₂ s₁ tail
  exact ⟨s₂, by rw [List.append_assoc, heq₁, heq₂]⟩

theorem Swallowed.flatten {rs : List (List β)} (h : ∀ r ∈ rs, Swallowed inspect r) :
    Swallowed inspect rs.flatten := by
  induction rs with
  | nil => exact Swallowed.nil
  | cons r rs ih =>
    have htail := ih fun r' hr' => h r' (List.mem_cons_of_mem r hr')
    simpa using (h r List.mem_cons_self).append htail

/-- Input that the scanner strips at once, whatever follows it. -/
theorem Swallowed.of_strip {r : List β} (hr : r ≠ [])
    (h : ∀ s tail, ∃ s' out, inspect s (r ++ tail) = (s', .strip r.length out)) :
    Swallowed inspect r := by
  intro s tail
  obtain ⟨s', out, heq⟩ := h s tail
  obtain ⟨b, r, rfl⟩ := List.exists_cons_of_ne_nil hr
  refine ⟨s', ?_⟩
  rw [List.cons_append] at heq ⊢
  rw [scan_of_strip heq]
  simp

/-- Nothing is left of input that is swallowed. -/
theorem Swallowed.scan_eq_nil {r : List β} (h : Swallowed inspect r) (s : σ) :
    (scan inspect s (.pass 0) r).2.1 = [] := by
  obtain ⟨s', heq⟩ := h s []
  simpa using heq

end Scanner
