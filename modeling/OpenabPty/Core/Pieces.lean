import Mathlib.Data.List.Infix

/-!
# A pattern in a text made of pieces

A pattern that no piece of a text contains may stand across the border of two of them.
-/

namespace Pieces

variable {β : Type}

/-- The pattern stands across the border between two pieces. -/
def Straddles (pieces : List (List β)) (p : List β) : Prop :=
  ∃ l r a b, pieces = l ++ r ∧ p = a ++ b ∧ a ≠ [] ∧ b ≠ [] ∧
    a <:+ l.flatten ∧ b <+: r.flatten

variable {p x y : List β} {pieces : List (List β)}

/-- A pattern in two texts put together: in the first, in the second, or across the border. -/
theorem infix_append_iff : p <:+: x ++ y ↔ p <:+: x ∨ p <:+: y ∨
    ∃ a b, p = a ++ b ∧ a ≠ [] ∧ b ≠ [] ∧ a <:+ x ∧ b <+: y := by
  constructor
  · rintro ⟨before, after, h⟩
    rw [List.append_assoc] at h
    rcases List.append_eq_append_iff.mp h with ⟨u, hx, hp⟩ | ⟨u, hbefore, hy⟩
    · -- The pattern starts in the first text: `u` is what of it the first text has left.
      rcases List.append_eq_append_iff.mp hp with ⟨v, hu, hafter⟩ | ⟨v, hpu, hy⟩
      · left
        exact ⟨before, v, by rw [hx, hu, List.append_assoc]⟩
      · by_cases hunil : u = []
        · subst hunil
          right; left
          exact ⟨[], after, by simp [hy, hpu]⟩
        by_cases hvnil : v = []
        · subst hvnil
          left
          exact ⟨before, [], by simp [hx, hpu]⟩
        right; right
        exact ⟨u, v, hpu, hunil, hvnil, ⟨before, hx.symm⟩, ⟨after, hy.symm⟩⟩
    · right; left
      exact ⟨u, after, by rw [hy, List.append_assoc]⟩
  · rintro (h | h | ⟨a, b, rfl, -, -, ⟨before, rfl⟩, ⟨after, rfl⟩⟩)
    · exact List.infix_append_of_infix_left h
    · exact List.infix_append_of_infix_right h
    · exact ⟨before, after, by simp⟩

theorem Straddles.infix_flatten (h : Straddles pieces p) : p <:+: pieces.flatten := by
  obtain ⟨l, r, a, b, rfl, rfl, ha, hb, hl, hr⟩ := h
  rw [List.flatten_append]
  exact infix_append_iff.mpr (.inr (.inr ⟨a, b, rfl, ha, hb, hl, hr⟩))

theorem Straddles.cons (h : Straddles pieces p) : Straddles (x :: pieces) p := by
  obtain ⟨l, r, a, b, rfl, hp, ha, hb, ⟨before, hl⟩, hr⟩ := h
  refine ⟨x :: l, r, a, b, rfl, hp, ha, hb, ⟨x ++ before, ?_⟩, hr⟩
  rw [List.flatten_cons, ← hl, List.append_assoc]

/-- A text contains a pattern exactly when one of its pieces does or two of them straddle it. -/
theorem infix_flatten_iff (hp : p ≠ []) :
    p <:+: pieces.flatten ↔ (∃ x ∈ pieces, p <:+: x) ∨ Straddles pieces p := by
  constructor
  · intro h
    induction pieces with
    | nil => exact absurd (List.infix_nil.mp h) hp
    | cons x pieces ih =>
      rw [List.flatten_cons] at h
      rcases infix_append_iff.mp h with hx | hrest | ⟨a, b, hab, ha, hb, hax, hbrest⟩
      · exact .inl ⟨x, List.mem_cons_self, hx⟩
      · rcases ih hrest with ⟨y, hy, hpy⟩ | hstraddles
        · exact .inl ⟨y, List.mem_cons_of_mem x hy, hpy⟩
        · exact .inr hstraddles.cons
      · right
        exact ⟨[x], pieces, a, b, rfl, hab, ha, hb, by simpa using hax, hbrest⟩
  · rintro (⟨x, hx, hpx⟩ | hstraddles)
    · exact hpx.trans (List.infix_of_mem_flatten hx)
    · exact hstraddles.infix_flatten

end Pieces
