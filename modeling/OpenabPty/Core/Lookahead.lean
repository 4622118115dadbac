import OpenabPty.Core.Scanner

/-!
# Cutting the input of a scanner

A scanner that looks only so far ahead decides at most positions of `a` what it decides there
with `b` behind `a`. Where this holds of all positions of `a`, scanning `a` and then `b` is
scanning them at once.
-/

namespace Scanner

variable {σ β ω : Type}

/-- How many symbols a decision takes. -/
def Action.length : Action ω → Nat
  | .pass n => n
  | .strip n _ => n

def Pending.length : Pending → Nat
  | .pass n => n
  | .strip n => n

/-- A decision takes a symbol or more, and no more than there are. -/
def Progress (inspect : σ → List β → σ × Action ω) : Prop :=
  ∀ s input, input ≠ [] →
    0 < (inspect s input).2.length ∧ (inspect s input).2.length ≤ input.length

variable {inspect : σ → List β → σ × Action ω} {a b : List β}

/-- No decision in `a` depends on `b` behind it or takes anything of it. -/
def Parts (inspect : σ → List β → σ × Action ω) (a b : List β) : Prop :=
  ∀ w, w ≠ [] → w <:+ a → ∀ s,
    inspect s (w ++ b) = inspect s w ∧ (inspect s w).2.length ≤ w.length

theorem Parts.of_suffix {a' : List β} (h : Parts inspect a b) (ha : a' <:+ a) :
    Parts inspect a' b := fun w hw hsuffix => h w hw (hsuffix.trans ha)

/-- A scan of `a` and `b` is a scan of `a` and then of `b`, also with a decision in `a` still to
be carried out. -/
theorem Parts.scan_pending (h : Parts inspect a b) (s : σ) (pending : Pending)
    (hlen : pending.length ≤ a.length) :
    scan inspect s pending (a ++ b) =
      let r := scan inspect s pending a
      let r' := scan inspect r.1 (.pass 0) b
      (r'.1, r.2.1 ++ r'.2.1, r.2.2 ++ r'.2.2) := by
  induction s, pending, a using scan_induction with
  | nil s pending =>
    rw [List.nil_append, scan_nil]
    cases pending with
    | pass n =>
      obtain rfl : n = 0 := Nat.le_zero.mp hlen
      rfl
    | strip n =>
      obtain rfl : n = 0 := Nat.le_zero.mp hlen
      rw [scan_strip_zero]
      rfl
  | pass s n c a ih =>
    have hn : n ≤ a.length := Nat.le_of_succ_le_succ hlen
    rw [List.cons_append, scan, scan, ih (h.of_suffix (List.suffix_cons c a)) hn]
    rfl
  | strip s n c a ih =>
    have hn : n ≤ a.length := Nat.le_of_succ_le_succ hlen
    rw [List.cons_append, scan, scan, ih (h.of_suffix (List.suffix_cons c a)) hn]
  | stripped s c a ih =>
    rw [scan_strip_zero, scan_strip_zero]
    exact ih h (Nat.zero_le _)
  | decided s c a ih =>
    -- The decision is the same without `b` and ends in `a`.
    have htail := h.of_suffix (List.suffix_cons c a)
    obtain ⟨hsame, hle⟩ := h (c :: a) (List.cons_ne_nil c a) (List.suffix_refl _) s
    rcases hdecision : inspect s (c :: a) with ⟨s', action⟩
    rw [hdecision] at hsame hle
    cases action with
    | pass n =>
      have hn : n - 1 ≤ a.length := Nat.sub_le_of_le_add hle
      rw [List.cons_append] at hsame ⊢
      rw [scan_of_pass hsame, scan_of_pass hdecision, ih s' (.pass (n - 1)) htail hn]
      rfl
    | strip n out =>
      have hn : n - 1 ≤ a.length := Nat.sub_le_of_le_add hle
      rw [List.cons_append] at hsame ⊢
      rw [scan_of_strip hsame, scan_of_strip hdecision, ← scan_strip, ← scan_strip,
        ih s' (.strip (n - 1)) htail hn]
      rfl

/-- A scan of `a` and `b` is a scan of `a` and then of `b`. -/
theorem Parts.scan_append (h : Parts inspect a b) (s : σ) :
    scan inspect s (.pass 0) (a ++ b) =
      let r := scan inspect s (.pass 0) a
      let r' := scan inspect r.1 (.pass 0) b
      (r'.1, r.2.1 ++ r'.2.1, r.2.2 ++ r'.2.2) :=
  h.scan_pending s (.pass 0) (Nat.zero_le _)

/-- A change of the state that no decision depends on, and that every decision leaves as it is,
leaves a scan as it is. -/
theorem scan_frame {change : σ → σ}
    (h : ∀ s input, inspect (change s) input =
      (change (inspect s input).1, (inspect s input).2)) (s : σ) (pending : Pending)
    (input : List β) :
    scan inspect (change s) pending input =
      let r := scan inspect s pending input
      (change r.1, r.2) := by
  induction s, pending, input using scan_induction with
  | nil s pending => rw [scan_nil, scan_nil]
  | pass s n c rest ih => rw [scan, scan, ih]
  | strip s n c rest ih => rw [scan, scan, ih]
  | stripped s c rest ih => rw [scan_strip_zero, scan_strip_zero, ih]
  | decided s c rest ih =>
    have hsame := h s (c :: rest)
    rcases hdecision : inspect s (c :: rest) with ⟨s', action⟩
    rw [hdecision] at hsame
    cases action with
    | pass n => rw [scan_of_pass hsame, scan_of_pass hdecision, ih]
    | strip n out =>
      rw [scan_of_strip hsame, scan_of_strip hdecision, ← scan_strip, ← scan_strip, ih]

end Scanner
