import Mathlib.Data.List.Basic

/-!
# Cutting tokens out of a text

`token s` is the length of the token that `s` starts with, if it starts with one. Cutting
every token that a walk from the front finds joins what stood on either side of it, and what
is joined may be a token again. It is exactly when a token of the text is torn: its symbols
stand, in order, around a token that the walk finds.
-/

namespace Splice

variable {β : Type}

/-- The text without the tokens that a walk from the front finds; `skip` symbols of it belong
to a token. -/
def cut (token : List β → Option Nat) : Nat → List β → List β
  | _, [] => []
  | skip + 1, _ :: rest => cut token skip rest
  | 0, b :: rest =>
    match token (b :: rest) with
    | some n => cut token (n - 1) rest
    | none => b :: cut token 0 rest

/-- The walk from the front of a text keeps exactly `w`, and then stands before `t`. -/
inductive Keeps (token : List β → Option Nat) : List β → List β → List β → Prop where
  | done (s : List β) : Keeps token s [] s
  | keep {b : β} {s w t : List β} :
      token (b :: s) = none → Keeps token s w t → Keeps token (b :: s) (b :: w) t
  | skip {s w t : List β} {n : Nat} :
      token s = some n → Keeps token (s.drop n) w t → Keeps token s w t

/-- Some token stands around a token that the walk finds, with symbols on both sides. -/
def Torn (token : List β → Option Nat) (s : List β) : Prop :=
  ∃ u a b t n t', Keeps token s (u ++ a) t ∧ token t = some n ∧ Keeps token (t.drop n) b t' ∧
    a ≠ [] ∧ b ≠ [] ∧ token (a ++ b) = some (a ++ b).length

/-- Something that `found` recognises stands around a token that the walk finds, with symbols on
both sides. -/
def TornAround (token found : List β → Option Nat) (s : List β) : Prop :=
  ∃ u a b t n t', Keeps token s (u ++ a) t ∧ token t = some n ∧ Keeps token (t.drop n) b t' ∧
    a ≠ [] ∧ b ≠ [] ∧ found (a ++ b) = some (a ++ b).length

/-- No token starts anywhere in the text. -/
def Clean (token : List β → Option Nat) (s : List β) : Prop :=
  ∀ v w, s = v ++ w → token w = none

/-- A token is not empty, lies within the text, and its own symbols make it one, whatever
follows them. -/
structure Local (token : List β → Option Nat) : Prop where
  pos : ∀ {s n}, token s = some n → 0 < n
  le : ∀ {s n}, token s = some n → n ≤ s.length
  own : ∀ {s n}, token s = some n → ∀ tail, token (s.take n ++ tail) = some n

variable {token found : List β → Option Nat} {s t w w' : List β} {b : β} {n : Nat}

/-! ## Cutting -/

@[simp] theorem cut_nil (skip : Nat) : cut token skip [] = [] := by
  rw [cut]

theorem cut_skip (skip : Nat) (s : List β) : cut token skip s = cut token 0 (s.drop skip) := by
  induction skip generalizing s with
  | zero => rfl
  | succ skip ih =>
    cases s with
    | nil => simp
    | cons b rest =>
      rw [cut, ih]
      rfl

theorem cut_of_keep (h : token (b :: s) = none) : cut token 0 (b :: s) = b :: cut token 0 s := by
  simp only [cut, h]

theorem cut_of_token (hlocal : Local token) (h : token s = some n) :
    cut token 0 s = cut token 0 (s.drop n) := by
  have hpos := hlocal.pos h
  have hle := hlocal.le h
  cases s with
  | nil =>
    simp only [List.length_nil] at hle
    omega
  | cons b rest =>
    obtain ⟨k, rfl⟩ : ∃ k, n = k + 1 := ⟨n - 1, by omega⟩
    simp only [cut, h]
    rw [cut_skip]
    rfl

theorem Clean.tail (h : Clean token (b :: s)) : Clean token s := by
  intro v w hs
  apply h (b :: v) w
  rw [hs]
  rfl

/-- A text without tokens is left as it is. -/
theorem Clean.cut_eq (h : Clean token s) : cut token 0 s = s := by
  induction s with
  | nil => simp
  | cons b rest ih => rw [cut_of_keep (h [] (b :: rest) rfl), ih h.tail]

/-- Cutting never lengthens a text. -/
theorem length_cut_le (skip : Nat) (s : List β) : (cut token skip s).length ≤ s.length := by
  induction s generalizing skip with
  | nil => simp
  | cons b rest ih =>
    cases skip with
    | succ skip =>
      rw [cut]
      have := ih skip
      simp only [List.length_cons]
      omega
    | zero =>
      rw [cut]
      split
      · rename_i n _
        have := ih (n - 1)
        simp only [List.length_cons]
        omega
      · have := ih 0
        simp only [List.length_cons]
        omega

/-- A text that cutting leaves as it is has no tokens. -/
theorem Clean.of_cut_eq (hlocal : Local token) (h : cut token 0 s = s) : Clean token s := by
  induction s with
  | nil =>
    intro v w hs
    obtain ⟨-, rfl⟩ := List.append_eq_nil_iff.mp hs.symm
    cases hw : token ([] : List β) with
    | none => rfl
    | some n =>
      have hpos := hlocal.pos hw
      have hle := hlocal.le hw
      simp only [List.length_nil] at hle
      omega
  | cons b rest ih =>
    cases hb : token (b :: rest) with
    | some n =>
      -- The token would be missing from what is left.
      have hpos := hlocal.pos hb
      have hlt : (cut token 0 (b :: rest)).length ≤ ((b :: rest).drop n).length := by
        rw [cut_of_token hlocal hb]
        exact length_cut_le 0 _
      rw [h] at hlt
      simp only [List.length_drop, List.length_cons] at hlt
      omega
    | none =>
      rw [cut_of_keep hb] at h
      have hrest := ih (List.cons.inj h).2
      intro v w hs
      cases v with
      | nil =>
        rw [List.nil_append] at hs
        rw [← hs]
        exact hb
      | cons c v => exact hrest v w (List.cons.inj hs).2

theorem cut_idempotent_iff (hlocal : Local token) :
    cut token 0 (cut token 0 s) = cut token 0 s ↔ Clean token (cut token 0 s) :=
  ⟨Clean.of_cut_eq hlocal, Clean.cut_eq⟩

/-! ## The walk -/

theorem Keeps.trans {v : List β} (h₁ : Keeps token s w t) (h₂ : Keeps token t w' v) :
    Keeps token s (w ++ w') v := by
  induction h₁ with
  | done => exact h₂
  | keep hb _ ih => exact .keep hb (ih h₂)
  | skip hs _ ih => exact .skip hs (ih h₂)

/-- What the walk keeps is what cutting leaves. -/
theorem Keeps.cut_eq (hlocal : Local token) (h : Keeps token s w t) :
    cut token 0 s = w ++ cut token 0 t := by
  induction h with
  | done => rfl
  | keep hb _ ih =>
    rw [cut_of_keep hb, ih]
    rfl
  | skip hs _ ih => rw [cut_of_token hlocal hs, ih]

/-- Whatever cutting leaves, the walk keeps. -/
theorem Keeps.of_cut_eq (hlocal : Local token) {v : List β} (h : cut token 0 s = w ++ v) :
    ∃ t, Keeps token s w t ∧ cut token 0 t = v := by
  induction hlen : s.length using Nat.strongRecOn generalizing s w with
  | _ m ih =>
    subst hlen
    cases w with
    | nil => exact ⟨s, .done s, h⟩
    | cons c w =>
      cases s with
      | nil => simp at h
      | cons b rest =>
        cases hb : token (b :: rest) with
        | none =>
          rw [cut_of_keep hb, List.cons_append] at h
          obtain ⟨rfl, hrest⟩ := List.cons.inj h
          obtain ⟨t, hkeeps, ht⟩ := ih rest.length (by simp) hrest rfl
          exact ⟨t, .keep hb hkeeps, ht⟩
        | some n =>
          rw [cut_of_token hlocal hb] at h
          have hpos := hlocal.pos hb
          have hlt : ((b :: rest).drop n).length < (b :: rest).length := by
            simp only [List.length_drop, List.length_cons]
            omega
          obtain ⟨t, hkeeps, ht⟩ := ih _ hlt h rfl
          exact ⟨t, .skip hb hkeeps, ht⟩

/-- Where no token starts and nothing is kept, the walk stands still. -/
theorem Keeps.eq_of_nil (h : Keeps token s [] t) (hs : token s = none) : s = t := by
  cases h with
  | done => rfl
  | skip hn => simp [hs] at hn

/-- Where a token starts, the walk skips it before it keeps anything. -/
theorem Keeps.of_token (h : Keeps token s w t) (hw : w ≠ []) (hs : token s = some n) :
    Keeps token (s.drop n) w t := by
  cases h with
  | done => exact absurd rfl hw
  | keep hb => simp [hs] at hb
  | skip hn hrest =>
    obtain rfl : n = _ := Option.some.inj (hs.symm.trans hn)
    exact hrest

/-- What the walk keeps stands in the text in one piece, at a place where no token starts, or
around a token that the walk finds. -/
theorem Keeps.solid_or_torn (h : Keeps token s w t) (hw : w ≠ []) :
    ∃ s', Keeps token s [] s' ∧ token s' = none ∧ (w <+: s' ∨
      ∃ a b t₁ n, w = a ++ b ∧ a ≠ [] ∧ b ≠ [] ∧ Keeps token s a t₁ ∧ token t₁ = some n ∧
        Keeps token (t₁.drop n) b t) := by
  induction h with
  | done => exact absurd rfl hw
  | @keep c s w t hc hrest ih =>
    refine ⟨c :: s, .done _, hc, ?_⟩
    by_cases hnil : w = []
    · subst hnil
      exact .inl ⟨s, rfl⟩
    cases hs : token s with
    | some n =>
      right
      exact ⟨[c], w, s, n, rfl, by simp, hnil, .keep hc (.done s), hs, hrest.of_token hnil hs⟩
    | none =>
      obtain ⟨s', hstill, -, hshape⟩ := ih hnil
      obtain rfl := hstill.eq_of_nil hs
      rcases hshape with hprefix | ⟨a, b, t₁, n, rfl, ha, hb, hfirst, ht₁, hsecond⟩
      · left
        exact List.cons_prefix_cons.mpr ⟨rfl, hprefix⟩
      · right
        exact ⟨c :: a, b, t₁, n, rfl, by simp, hb, .keep hc hfirst, ht₁, hsecond⟩
  | @skip s w t n hs _ ih =>
    obtain ⟨s', hstill, hs', hshape⟩ := ih hw
    refine ⟨s', .skip hs hstill, hs', ?_⟩
    rcases hshape with hprefix | ⟨a, b, t₁, m, hab, ha, hb, hfirst, ht₁, hsecond⟩
    · exact .inl hprefix
    · exact .inr ⟨a, b, t₁, m, hab, ha, hb, .skip hs hfirst, ht₁, hsecond⟩

/-- The walk keeps the front of a text in which no token starts. -/
theorem Keeps.of_take (hn : n ≤ s.length) (h : ∀ i < n, token (s.drop i) = none) :
    Keeps token s (s.take n) (s.drop n) := by
  induction s generalizing n with
  | nil =>
    obtain rfl : n = 0 := by simpa using hn
    exact .done []
  | cons b s ih =>
    cases n with
    | zero => exact .done (b :: s)
    | succ n =>
      refine .keep (h 0 (Nat.succ_pos n)) (ih (by simpa using hn) fun i hi => ?_)
      exact h (i + 1) (Nat.succ_lt_succ hi)

theorem Keeps.suffix (h : Keeps token s w t) : t <:+ s := by
  induction h with
  | done => exact List.suffix_rfl
  | keep _ _ ih => exact ih.trans (List.suffix_cons _ _)
  | skip _ _ ih => exact ih.trans (List.drop_suffix _ _)

theorem Keeps.length_le (h : Keeps token s w t) : w.length + t.length ≤ s.length := by
  induction h with
  | done => simp
  | keep _ _ ih =>
    simp only [List.length_cons]
    omega
  | skip _ _ ih =>
    rw [List.length_drop] at ih
    omega

/-- Nothing is torn in a text where a token can only start at the front. -/
theorem not_tornAround_of_front (h : ∀ k, 0 < k → k ≤ s.length → token (s.drop k) = none) :
    ¬ TornAround token found s := by
  rintro ⟨u, a, b, t, n, t', hfirst, ht, -, ha, -⟩
  have hlen := hfirst.length_le
  have hpos := List.length_pos_iff.mpr ha
  rw [List.length_append] at hlen
  rw [List.suffix_iff_eq_drop.mp hfirst.suffix, h _ (by omega) (by omega)] at ht
  cases ht

/-- What is found in the cut text stands in the text in one piece, or is torn. -/
theorem Keeps.solid_or_tornAround (hlocal : Local token) (hfound : Local found) {u : List β}
    (hu : Keeps token s u t) (h : found (cut token 0 t) = some n) :
    ∃ s', Keeps token t [] s' ∧ token s' = none ∧
      ((cut token 0 t).take n <+: s' ∨ TornAround token found s) := by
  have hpos := hfound.pos h
  have hle := hfound.le h
  have hlen : ((cut token 0 t).take n).length = n := by rw [List.length_take, Nat.min_eq_left hle]
  have hne : (cut token 0 t).take n ≠ [] := List.ne_nil_of_length_pos (hlen.symm ▸ hpos)
  have hself : found ((cut token 0 t).take n) = some n := by
    have hown := hfound.own h []
    rwa [List.append_nil] at hown
  obtain ⟨t', hkeeps, -⟩ := Keeps.of_cut_eq hlocal (List.take_append_drop n (cut token 0 t)).symm
  obtain ⟨s', hstill, hs', hshape⟩ := hkeeps.solid_or_torn hne
  refine ⟨s', hstill, hs', ?_⟩
  rcases hshape with hprefix | ⟨a, b, t₁, m, hab, ha, hb, hfirst, ht₁, hsecond⟩
  · exact .inl hprefix
  · right
    rw [hab] at hself hlen
    exact ⟨u, a, b, t₁, m, t', hu.trans hfirst, ht₁, hsecond, ha, hb, hself.trans (by rw [hlen])⟩

/-- Cutting leaves no token behind exactly when no token is torn. -/
theorem clean_cut_iff (hlocal : Local token) : Clean token (cut token 0 s) ↔ ¬ Torn token s := by
  constructor
  · rintro hclean ⟨u, a, b, t, n, t', hfirst, ht, hsecond, -, -, htoken⟩
    have hall : cut token 0 s = u ++ ((a ++ b) ++ cut token 0 t') := by
      rw [(hfirst.trans (.skip ht hsecond)).cut_eq hlocal]
      simp
    have hnone := hclean u _ hall
    have hsome := hlocal.own htoken (cut token 0 t')
    rw [List.take_length, hnone] at hsome
    cases hsome
  · intro htorn u v huv
    cases hv : token v with
    | none => rfl
    | some n =>
      exfalso
      obtain ⟨t, hu, rfl⟩ := Keeps.of_cut_eq hlocal huv
      obtain ⟨s', -, hs', ⟨tail, rfl⟩ | hshape⟩ := hu.solid_or_tornAround hlocal hlocal hv
      · -- In one piece it would have been cut.
        simp [hlocal.own hv tail] at hs'
      · exact htorn hshape

end Splice
