import Mathlib.Data.List.Basic

/-!
# Loops that index

A loop over an array that reads it by index fails where an index or a slice is out of bounds,
and need not come to an end. Here a step of a loop is `none` where it fails, and the loop is
`none` where a step is or the fuel runs out. The rule at the end shows that a loop does neither
and what it returns, from an invariant and a measure.
-/

namespace Loops

variable {α σ ρ : Type}

/-- `s[start..stop]`. -/
def slice (s : List α) (start stop : Nat) : Option (List α) :=
  if start ≤ stop ∧ stop ≤ s.length then some ((s.drop start).take (stop - start)) else none

theorem slice_eq {s : List α} {start stop : Nat} (hle : start ≤ stop) (hlen : stop ≤ s.length) :
    slice s start stop = some ((s.drop start).take (stop - start)) := if_pos ⟨hle, hlen⟩

/-- `s[start..]`. -/
theorem slice_length {s : List α} {start : Nat} (hle : start ≤ s.length) :
    slice s start s.length = some (s.drop start) := by
  rw [slice_eq hle (Nat.le_refl _), List.take_of_length_le (Nat.le_of_eq List.length_drop)]

/-- Where a list is put together from two. -/
theorem slice_front {s front rest : List α} (h : front ++ rest = s) :
    slice s 0 front.length = some front := by
  subst h
  have hlen : front.length ≤ (front ++ rest).length := by
    rw [List.length_append]
    exact Nat.le_add_right _ _
  rw [slice_eq (Nat.zero_le _) hlen, List.drop_zero, Nat.sub_zero, List.take_left]

theorem slice_rest {s front rest : List α} (h : front ++ rest = s) :
    slice s front.length s.length = some rest := by
  subst h
  have hlen : front.length ≤ (front ++ rest).length := by
    rw [List.length_append]
    exact Nat.le_add_right _ _
  rw [slice_length hlen, List.drop_left]

theorem getElem?_rest {s front rest : List α} (h : front ++ rest = s) :
    s[front.length]? = rest.head? := by
  subst h
  rw [List.getElem?_append_right (Nat.le_refl _), Nat.sub_self, List.head?_eq_getElem?]

/-- A step goes on in a new state or ends the loop with a result. -/
def loop (step : σ → Option (σ ⊕ ρ)) : Nat → σ → Option ρ
  | 0, _ => none
  | fuel + 1, s =>
    match step s with
    | none => none
    | some (.inl s') => loop step fuel s'
    | some (.inr r) => some r

variable {step : σ → Option (σ ⊕ ρ)}

/-- A loop whose steps keep an invariant and make a measure smaller, or end in `Q`, ends in
`Q`. -/
theorem loop_spec (I : σ → Prop) (measure : σ → Nat) (Q : ρ → Prop)
    (h : ∀ s, I s → (∃ s', step s = some (.inl s') ∧ I s' ∧ measure s' < measure s) ∨
      ∃ r, step s = some (.inr r) ∧ Q r)
    {fuel : Nat} {s : σ} (hs : I s) (hfuel : measure s < fuel) :
    ∃ r, loop step fuel s = some r ∧ Q r := by
  induction fuel generalizing s with
  | zero => exact absurd hfuel (Nat.not_lt_zero _)
  | succ fuel ih =>
    rw [loop]
    rcases h s hs with ⟨s', hstep, hs', hless⟩ | ⟨r, hstep, hr⟩
    · rw [hstep]
      exact ih hs' (Nat.lt_of_lt_of_le hless (Nat.le_of_lt_succ hfuel))
    · rw [hstep]
      exact ⟨r, rfl, hr⟩

/-- A loop whose steps keep what is still to come of the result returns it. -/
theorem loop_eq (I : σ → Prop) (measure : σ → Nat) (result : σ → ρ)
    (h : ∀ s, I s →
      (∃ s', step s = some (.inl s') ∧ I s' ∧ measure s' < measure s ∧ result s' = result s) ∨
      step s = some (.inr (result s)))
    {fuel : Nat} {s : σ} (hs : I s) (hfuel : measure s < fuel) :
    loop step fuel s = some (result s) := by
  have hspec : ∀ t, I t ∧ result t = result s →
      (∃ t', step t = some (.inl t') ∧ (I t' ∧ result t' = result s) ∧ measure t' < measure t) ∨
        ∃ r, step t = some (.inr r) ∧ r = result s := by
    rintro t ⟨ht, hsame⟩
    rcases h t ht with ⟨t', hstep, ht', hless, hkeeps⟩ | hstep
    · exact .inl ⟨t', hstep, ⟨ht', hkeeps.trans hsame⟩, hless⟩
    · exact .inr ⟨_, hstep, hsame⟩
  obtain ⟨r, hloop, rfl⟩ := loop_spec _ measure (· = result s) hspec ⟨hs, rfl⟩ hfuel
  exact hloop

end Loops
