import Mathlib.Data.List.Infix
import Mathlib.Data.List.Pairwise

/-!
# Queues whose reader refuses

The reader of a queue passes or refuses what it takes out. When it refuses everything from a
sender once it has refused something from it, what it passes of a sender is a prefix of what it
took from it.
-/

namespace Fifo

variable {α κ : Type} {passed : α → Bool} {sender : α → κ} {l : List α} {a b : α}

/-- A sender that was refused once is refused from then on. -/
def Final (passed : α → Bool) (sender : α → κ) (l : List α) : Prop :=
  l.Pairwise fun a b => sender a = sender b → passed b = true → passed a = true

theorem Final.nil : Final passed sender [] := List.Pairwise.nil

/-- The next element is refused, or nothing of its sender was. -/
theorem Final.concat (h : Final passed sender l)
    (hb : passed b = true → ∀ a ∈ l, sender a = sender b → passed a = true) :
    Final passed sender (l ++ [b]) := by
  refine List.pairwise_append.mpr ⟨h, List.pairwise_singleton _ _, fun a ha c hc hac hpassed => ?_⟩
  obtain rfl := List.mem_singleton.mp hc
  exact hb hpassed a ha hac

/-- What was passed of a sender is a prefix of what was taken from it. -/
theorem Final.isPrefix [DecidableEq κ] (h : Final passed sender l) (k : κ) :
    (l.filter passed).filter (sender · = k) <+: l.filter (sender · = k) := by
  induction l with
  | nil => exact List.prefix_refl _
  | cons a l ih =>
    obtain ⟨hhead, htail⟩ := List.pairwise_cons.mp h
    by_cases hk : sender a = k
    · have hkeep : ∀ m : List α, (a :: m).filter (sender · = k) = a :: m.filter (sender · = k) :=
        fun m => List.filter_cons_of_pos (by simpa using hk)
      rw [hkeep]
      by_cases hpassed : passed a = true
      · rw [List.filter_cons_of_pos hpassed, hkeep]
        exact (List.prefix_cons_inj a).mpr (ih htail)
      · -- Nothing of this sender is passed after a refusal.
        have hnone : (l.filter passed).filter (sender · = k) = [] := by
          refine List.filter_eq_nil_iff.mpr fun b hb hbk => hpassed ?_
          obtain ⟨hmem, hb⟩ := List.mem_filter.mp hb
          exact hhead b hmem (hk.trans (of_decide_eq_true hbk).symm) hb
        rw [List.filter_cons_of_neg hpassed, hnone]
        exact List.nil_prefix
    · have hskip : ∀ m : List α, (a :: m).filter (sender · = k) = m.filter (sender · = k) :=
        fun m => List.filter_cons_of_neg (by simpa using hk)
      rw [hskip]
      by_cases hpassed : passed a = true
      · rw [List.filter_cons_of_pos hpassed, hskip]
        exact ih htail
      · rw [List.filter_cons_of_neg hpassed]
        exact ih htail

end Fifo
