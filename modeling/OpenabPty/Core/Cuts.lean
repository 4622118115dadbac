import Mathlib.Algebra.GroupWithZero.Nat
import OpenabPty.Core.Lookahead

/-!
# What a scanner cuts out

A scanner cuts intervals out of its input: each begins where it decides to strip and is as long
as that decision says. They lie one behind the other, and the scan passes on what lies outside
them.
-/

namespace Scanner

variable {σ β ω : Type}

/-- An interval of the input, and the output for it. -/
structure Cut (ω : Type) where
  start : Nat
  len : Nat
  out : ω
  deriving DecidableEq, Repr

namespace Cut

/-- The position behind the interval. -/
def stop (c : Cut ω) : Nat := c.start + c.len

def Covers (c : Cut ω) (i : Nat) : Prop := c.start ≤ i ∧ i < c.stop

instance (c : Cut ω) (i : Nat) : Decidable (c.Covers i) := inferInstanceAs (Decidable (_ ∧ _))

end Cut

/-- The symbols of the input that no interval covers; the first symbol is at position `i`. -/
def outside (cuts : List (Cut ω)) (i : Nat) (input : List β) : List β :=
  ((input.zipIdx i).filter fun x => ∀ c ∈ cuts, ¬ c.Covers x.2).map Prod.fst

/-- The intervals lie one behind the other within `input`, and `kept` is what they leave of it. -/
structure Partition (input kept : List β) (cuts : List (Cut ω)) : Prop where
  ordered : cuts.Pairwise fun c d => c.stop ≤ d.start
  within : ∀ c ∈ cuts, 0 < c.len ∧ c.stop ≤ input.length
  kept : kept = outside cuts 0 input

/-- The intervals that a scan cuts out of its input, from position `i` on; `skip` symbols belong
to the decision taken last. -/
def cuts (inspect : σ → List β → σ × Action ω) : σ → Nat → Nat → List β → List (Cut ω)
  | _, _, _, [] => []
  | s, i, skip + 1, _ :: rest => cuts inspect s (i + 1) skip rest
  | s, i, 0, b :: rest =>
    match inspect s (b :: rest) with
    | (s', .pass n) => cuts inspect s' (i + 1) (n - 1) rest
    | (s', .strip n out) => { start := i, len := n, out := out } ::
        cuts inspect s' (i + 1) (n - 1) rest

/-- What a decision passes on of its input. -/
def Action.kept (input : List β) : Action ω → List β
  | .pass n => input.take n
  | .strip .. => []

def Action.outputs : Action ω → List ω
  | .pass _ => []
  | .strip _ out => [out]

/-- The interval that a decision at position `i` cuts out. -/
def Action.cuts (i : Nat) : Action ω → List (Cut ω)
  | .pass _ => []
  | .strip n out => [{ start := i, len := n, out := out }]

variable {inspect : σ → List β → σ × Action ω} {s s' : σ} {input : List β} {action : Action ω}
  {i : Nat}

/-! ## From decision to decision -/

/-- Symbols that are passed on unseen. -/
theorem scan_pass (n : Nat) (input : List β) :
    scan inspect s (.pass n) input =
      let r := scan inspect s (.pass 0) (input.drop n)
      (r.1, input.take n ++ r.2.1, r.2.2) := by
  induction n generalizing input with
  | zero => rfl
  | succ n ih =>
    cases input with
    | nil => simp
    | cons b rest =>
      rw [scan, ih]
      rfl

theorem scan_decided (h : inspect s input = (s', action)) (hinput : input ≠ [])
    (hpos : 0 < action.length) :
    scan inspect s (.pass 0) input =
      let r := scan inspect s' (.pass 0) (input.drop action.length)
      (r.1, action.kept input ++ r.2.1, action.outputs ++ r.2.2) := by
  obtain ⟨b, rest, rfl⟩ := List.exists_cons_of_ne_nil hinput
  cases action with
  | pass n =>
    obtain ⟨n, rfl⟩ := Nat.exists_eq_succ_of_ne_zero (Nat.ne_of_gt hpos)
    rw [scan_of_pass h, scan_pass]
    rfl
  | strip n out =>
    obtain ⟨n, rfl⟩ := Nat.exists_eq_succ_of_ne_zero (Nat.ne_of_gt hpos)
    rw [scan_of_strip h]
    rfl

theorem cuts_skip (skip : Nat) (input : List β) :
    cuts inspect s i skip input = cuts inspect s (i + skip) 0 (input.drop skip) := by
  induction skip generalizing input i with
  | zero => rfl
  | succ skip ih =>
    cases input with
    | nil => simp [cuts]
    | cons b rest =>
      rw [cuts, ih, List.drop_succ_cons]
      congr 1
      omega

theorem cuts_decided (h : inspect s input = (s', action)) (hinput : input ≠ [])
    (hpos : 0 < action.length) :
    cuts inspect s i 0 input =
      action.cuts i ++ cuts inspect s' (i + action.length) 0 (input.drop action.length) := by
  obtain ⟨b, rest, rfl⟩ := List.exists_cons_of_ne_nil hinput
  cases action with
  | pass n =>
    obtain ⟨n, rfl⟩ := Nat.exists_eq_succ_of_ne_zero (Nat.ne_of_gt hpos)
    simp only [cuts, h]
    rw [cuts_skip, Nat.add_assoc, Nat.add_comm 1]
    rfl
  | strip n out =>
    obtain ⟨n, rfl⟩ := Nat.exists_eq_succ_of_ne_zero (Nat.ne_of_gt hpos)
    simp only [cuts, h]
    rw [cuts_skip, Nat.add_assoc, Nat.add_comm 1]
    rfl

/-- Induction along the decisions of a scan. -/
theorem Progress.induction (hp : Progress inspect) {motive : σ → Nat → List β → Prop}
    (nil : ∀ s i, motive s i [])
    (decided : ∀ s i input s' action, input ≠ [] → inspect s input = (s', action) →
      0 < action.length → action.length ≤ input.length →
        motive s' (i + action.length) (input.drop action.length) → motive s i input)
    (s : σ) (i : Nat) (input : List β) : motive s i input := by
  induction hlen : input.length using Nat.strongRecOn generalizing s i input with
  | _ n ih =>
    subst hlen
    by_cases hinput : input = []
    · rw [hinput]
      exact nil s i
    · obtain ⟨hpos, hle⟩ := hp s input hinput
      rcases hdecision : inspect s input with ⟨s', action⟩
      rw [hdecision] at hpos hle
      refine decided s i input s' action hinput hdecision hpos hle ?_
      refine ih _ ?_ s' _ _ rfl
      rw [List.length_drop]
      exact Nat.sub_lt_self hpos hle

/-! ## The intervals -/

theorem Progress.cuts_bounds (hp : Progress inspect) (s : σ) (i : Nat) (input : List β) :
    ∀ c ∈ cuts inspect s i 0 input, i ≤ c.start ∧ 0 < c.len ∧ c.stop ≤ i + input.length := by
  induction s, i, input using hp.induction with
  | nil s i => simp [cuts]
  | decided s i input s' action hinput hdecision hpos hle ih =>
    intro c hc
    rw [cuts_decided hdecision hinput hpos] at hc
    rcases List.mem_append.mp hc with hc | hc
    · cases action with
      | pass n => cases hc
      | strip n out =>
        rw [List.mem_singleton.mp hc]
        exact ⟨Nat.le_refl i, hpos, Nat.add_le_add_left hle i⟩
    · obtain ⟨hstart, hlen, hstop⟩ := ih c hc
      rw [List.length_drop] at hstop
      exact ⟨by omega, hlen, by omega⟩

theorem Progress.cuts_ordered (hp : Progress inspect) (s : σ) (i : Nat) (input : List β) :
    (cuts inspect s i 0 input).Pairwise fun c d => c.stop ≤ d.start := by
  induction s, i, input using hp.induction with
  | nil s i => simp [cuts]
  | decided s i input s' action hinput hdecision hpos hle ih =>
    rw [cuts_decided hdecision hinput hpos]
    cases action with
    | pass n => exact ih
    | strip n out =>
      refine List.pairwise_cons.mpr ⟨?_, ih⟩
      intro c hc
      exact (hp.cuts_bounds s' _ _ c hc).1

/-- Intervals behind the input leave all of it. -/
theorem outside_of_later {cuts : List (Cut ω)} (h : ∀ c ∈ cuts, i + input.length ≤ c.start) :
    outside cuts i input = input := by
  have hall : (input.zipIdx i).filter (fun x => ∀ c ∈ cuts, ¬ c.Covers x.2) = input.zipIdx i := by
    refine List.filter_eq_self.mpr ?_
    intro x hx
    have hlt := List.snd_lt_add_of_mem_zipIdx hx
    refine decide_eq_true fun c hc hcovers => ?_
    have hstart := h c hc
    have hcover := hcovers.1
    omega
  rw [outside, hall, List.zipIdx_map_fst]

/-- An interval that is as long as the input leaves nothing of it. -/
theorem outside_of_covered {cuts : List (Cut ω)} {c : Cut ω} (hc : c ∈ cuts) (hstart : c.start ≤ i)
    (hstop : i + input.length ≤ c.stop) : outside cuts i input = [] := by
  have hnone : (input.zipIdx i).filter (fun x => ∀ c ∈ cuts, ¬ c.Covers x.2) = [] := by
    refine List.filter_eq_nil_iff.mpr ?_
    intro x hx
    have hlt := List.snd_lt_add_of_mem_zipIdx hx
    have hle := List.le_snd_of_mem_zipIdx hx
    simp only [decide_eq_true_eq, not_forall, not_not]
    exact ⟨c, hc, Nat.le_trans hstart hle, Nat.lt_of_lt_of_le hlt hstop⟩
  rw [outside, hnone, List.map_nil]

theorem outside_append (cuts : List (Cut ω)) (i : Nat) (front rest : List β) :
    outside cuts i (front ++ rest) =
      outside cuts i front ++ outside cuts (i + front.length) rest := by
  simp only [outside, List.zipIdx_append, List.filter_append, List.map_append]

/-- An interval that ends before the input leaves it alone. -/
theorem outside_cons_of_earlier {cuts : List (Cut ω)} {c : Cut ω} (h : c.stop ≤ i) :
    outside (c :: cuts) i input = outside cuts i input := by
  rw [outside, outside]
  congr 1
  refine List.filter_congr ?_
  intro x hx
  have hle := List.le_snd_of_mem_zipIdx hx
  have hnot : ¬ c.Covers x.2 := fun hcovers => absurd hcovers.2 (by omega)
  simp [hnot]

/-- A scan passes on what lies outside the intervals, with the outputs of the intervals. -/
theorem Progress.scan_cuts (hp : Progress inspect) (s : σ) (i : Nat) (input : List β) :
    (scan inspect s (.pass 0) input).2 =
      (outside (cuts inspect s i 0 input) i input, (cuts inspect s i 0 input).map Cut.out) := by
  induction s, i, input using hp.induction with
  | nil s i => simp [cuts, outside]
  | decided s i input s' action hinput hdecision hpos hle ih =>
    rw [scan_decided hdecision hinput hpos, cuts_decided hdecision hinput hpos]
    dsimp only
    rw [ih]
    have hfront : (input.take action.length).length = action.length :=
      List.length_take_of_le hle
    have hlater : ∀ c ∈ cuts inspect s' (i + action.length) 0 (input.drop action.length),
        i + (input.take action.length).length ≤ c.start := by
      intro c hc
      rw [hfront]
      exact (hp.cuts_bounds s' _ _ c hc).1
    have hsplit : ∀ cs : List (Cut ω), outside cs i input =
        outside cs i (input.take action.length) ++
          outside cs (i + action.length) (input.drop action.length) := by
      intro cs
      conv => lhs; rw [← List.take_append_drop action.length input]
      rw [outside_append, hfront]
    rw [hsplit]
    cases action with
    | pass n =>
      simp only [Action.cuts, List.nil_append, outside_of_later hlater]
      rfl
    | strip n out =>
      have hcovered : outside ({ start := i, len := n, out := out } ::
          cuts inspect s' (i + n) 0 (input.drop n)) i (input.take n) = [] :=
        outside_of_covered List.mem_cons_self (Nat.le_refl i)
          (Nat.le_of_eq (congrArg (i + ·) hfront))
      have hearlier : ({ start := i, len := n, out := out } : Cut ω).stop ≤ i + n := Nat.le_refl _
      simp only [Action.cuts, Action.length, List.singleton_append, hcovered,
        outside_cons_of_earlier hearlier]
      rfl

/-- **A scan partitions its input.** -/
theorem Progress.partition (hp : Progress inspect) (s : σ) (input : List β) :
    Partition input (scan inspect s (.pass 0) input).2.1 (cuts inspect s 0 0 input) where
  ordered := hp.cuts_ordered s 0 input
  within := by
    intro c hc
    obtain ⟨-, hpos, hstop⟩ := hp.cuts_bounds s 0 input c hc
    rw [Nat.zero_add] at hstop
    exact ⟨hpos, hstop⟩
  kept := by rw [hp.scan_cuts s 0 input]

/-- What grows by `weight` with every interval, and with nothing else. -/
theorem Progress.scan_weight (hp : Progress inspect) (count : σ → Nat) (weight : Nat → Nat)
    (hpass : ∀ s input s' n, inspect s input = (s', .pass n) → count s' = count s)
    (hstrip : ∀ s input s' n out, inspect s input = (s', .strip n out) →
      count s' = count s + weight n) (s : σ) (input : List β) :
    count (scan inspect s (.pass 0) input).1 =
      count s + ((cuts inspect s 0 0 input).map fun c => weight c.len).sum := by
  suffices h : ∀ s i input, count (scan inspect s (.pass 0) input).1 =
      count s + ((cuts inspect s i 0 input).map fun c => weight c.len).sum from h s 0 input
  intro s i input
  induction s, i, input using hp.induction with
  | nil s i => simp [cuts]
  | decided s i input s' action hinput hdecision hpos hle ih =>
    rw [scan_decided hdecision hinput hpos, cuts_decided hdecision hinput hpos]
    dsimp only
    rw [ih, List.map_append, List.sum_append]
    cases action with
    | pass n =>
      rw [hpass _ _ _ _ hdecision]
      simp [Action.cuts]
    | strip n out =>
      rw [hstrip _ _ _ _ _ hdecision]
      simp [Action.cuts, Nat.add_assoc]

/-! ## Where the intervals are -/

/-- The scanner would strip at the front of `input`, in some state. -/
def Strips (inspect : σ → List β → σ × Action ω) (input : List β) : Prop :=
  ∃ s s' n out, inspect s input = (s', .strip n out)

/-- At a symbol that a decision passes on, the scanner would not strip in any state. -/
def Settled (inspect : σ → List β → σ × Action ω) : Prop :=
  ∀ s input s' n, inspect s input = (s', .pass n) → ∀ j < n, ¬ Strips inspect (input.drop j)

/-- Every position where the scanner would strip is in an interval. -/
theorem Progress.covered_of_strips (hp : Progress inspect) (hsettled : Settled inspect) (s : σ)
    (input : List β) {j : Nat} (hj : j < input.length) (hstrips : Strips inspect (input.drop j)) :
    ∃ c ∈ cuts inspect s 0 0 input, c.Covers j := by
  suffices h : ∀ s i input, ∀ j < input.length, Strips inspect (input.drop j) →
      ∃ c ∈ cuts inspect s i 0 input, c.Covers (i + j) by
    obtain ⟨c, hc, hcovers⟩ := h s 0 input j hj hstrips
    rw [Nat.zero_add] at hcovers
    exact ⟨c, hc, hcovers⟩
  intro s i input
  induction s, i, input using hp.induction with
  | nil s i =>
    intro j hj
    cases hj
  | decided s i input s' action hinput hdecision hpos hle ih =>
    intro j hj hstrips
    rw [cuts_decided hdecision hinput hpos]
    by_cases hown : j < action.length
    · cases action with
      | pass n => exact absurd hstrips (hsettled _ _ _ _ hdecision j hown)
      | strip n out =>
        refine ⟨_, List.mem_append_left _ List.mem_cons_self, ?_, ?_⟩
        · exact Nat.le_add_right i j
        · exact Nat.add_lt_add_left hown i
    · have hrest : input.drop j = (input.drop action.length).drop (j - action.length) := by
        rw [List.drop_drop]
        congr 1
        omega
      rw [hrest] at hstrips
      obtain ⟨c, hc, hcovers⟩ := ih (j - action.length) (by rw [List.length_drop]; omega) hstrips
      refine ⟨c, List.mem_append_right _ hc, ?_⟩
      have hposition : i + action.length + (j - action.length) = i + j := by omega
      rwa [hposition] at hcovers

/-- A decision that ends in the front of its input is the same with the front alone. -/
def Prefixed (inspect : σ → List β → σ × Action ω) : Prop :=
  ∀ s front rest, front ≠ [] → (inspect s (front ++ rest)).2.length ≤ front.length →
    inspect s front = inspect s (front ++ rest)

/-- A decision other than to pass on one symbol is made again of the symbols that it takes, whatever
comes behind them. -/
def Own (inspect : σ → List β → σ × Action ω) : Prop :=
  ∀ s input, inspect s input ≠ (s, .pass 1) →
    ∀ tail, inspect s (input.take (inspect s input).2.length ++ tail) = inspect s input

theorem Own.prefixed (h : Own inspect) : Prefixed inspect := by
  intro s front rest _ hlen
  by_cases hwhole : inspect s (front ++ rest) = (s, .pass 1)
  · -- What is decided in front is decided with the rest behind it.
    by_contra hfront
    rw [hwhole] at hfront
    have hown := h s front hfront (front.drop (inspect s front).2.length ++ rest)
    rw [← List.append_assoc, List.take_append_drop, hwhole] at hown
    exact hfront hown.symm
  · have hown := h s (front ++ rest) hwhole (front.drop (inspect s (front ++ rest)).2.length)
    rw [List.take_append_of_le_length hlen, List.take_append_drop] at hown
    exact hown

/-- Every interval is what the scanner decides to strip at its first position, in the state that
scanning what comes before leads to. -/
theorem Progress.decided_of_mem_cuts (hp : Progress inspect) (hprefixed : Prefixed inspect) (s : σ)
    (input : List β) {c : Cut ω} (hc : c ∈ cuts inspect s 0 0 input) :
    ∃ s', inspect (scan inspect s (.pass 0) (input.take c.start)).1 (input.drop c.start) =
      (s', .strip c.len c.out) := by
  suffices h : ∀ s i input, ∀ c ∈ cuts inspect s i 0 input,
      ∃ s', inspect (scan inspect s (.pass 0) (input.take (c.start - i))).1
        (input.drop (c.start - i)) = (s', .strip c.len c.out) from h s 0 input c hc
  intro s i input
  induction s, i, input using hp.induction with
  | nil s i => simp [cuts]
  | decided s i input s' action hinput hdecision hpos hle ih =>
    intro c hc
    rw [cuts_decided hdecision hinput hpos] at hc
    rcases List.mem_append.mp hc with hc | hc
    · cases action with
      | pass n => cases hc
      | strip n out =>
        obtain rfl := List.mem_singleton.mp hc
        simp only [Nat.sub_self, List.take_zero, scan_nil, List.drop_zero]
        exact ⟨s', hdecision⟩
    · have hstart := (hp.cuts_bounds s' _ _ c hc).1
      obtain ⟨s'', hlater⟩ := ih c hc
      refine ⟨s'', ?_⟩
      -- The first decision is the same in what comes before the interval.
      obtain ⟨k, hk⟩ : ∃ k, c.start = i + action.length + k := Nat.exists_eq_add_of_le hstart
      have hown : c.start - i = action.length + k := by omega
      have hrest : c.start - (i + action.length) = k := by omega
      rw [hrest] at hlater
      rw [hown]
      have hle' : action.length ≤ (input.take (action.length + k)).length := by
        rw [List.length_take]
        exact Nat.le_min.mpr ⟨Nat.le_add_right _ _, hle⟩
      have hne : input.take (action.length + k) ≠ [] :=
        List.ne_nil_of_length_pos (Nat.lt_of_lt_of_le hpos hle')
      have hsame : inspect s (input.take (action.length + k)) = (s', action) := by
        have hwhole := hprefixed s (input.take (action.length + k))
          (input.drop (action.length + k)) hne
        rw [List.take_append_drop, hdecision] at hwhole
        exact hwhole hle'
      rw [scan_decided hsame hne hpos, List.drop_take, Nat.add_sub_cancel_left, ← List.drop_drop]
      exact hlater

end Scanner
