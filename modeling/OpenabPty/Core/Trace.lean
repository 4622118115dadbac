import Mathlib.Data.List.Basic

/-!
# Runs of a partial step function

A program is a partial step function `step : σ → ι → Option σ`: a label that is not
enabled in a state is refused. A run is a list of labels; `AllStates` and `AllSteps` say
what holds in every state the run passes through and of every step it takes. The rules at
the end reduce a statement about runs to one about a single step.
-/

namespace Trace

variable {σ ι : Type}

/-- The state a run ends in, `none` when one of its labels is refused. -/
def run (step : σ → ι → Option σ) : σ → List ι → Option σ
  | s, [] => some s
  | s, l :: ls => (step s l).bind fun s' => run step s' ls

theorem run_append {step : σ → ι → Option σ} {ls ls' : List ι} {s : σ} :
    run step s (ls ++ ls') = (run step s ls).bind fun t => run step t ls' := by
  induction ls generalizing s with
  | nil => rfl
  | cons l ls ih =>
    simp only [List.cons_append, run]
    cases step s l with
    | none => rfl
    | some t => exact ih

/-- `P` holds in every state the run passes through, the first one included. -/
def AllStates (step : σ → ι → Option σ) (P : σ → Prop) : σ → List ι → Prop
  | s, [] => P s
  | s, l :: ls => P s ∧ ∀ s', step s l = some s' → AllStates step P s' ls

/-- `C` holds of every step the run takes, in the state before it. -/
def AllSteps (step : σ → ι → Option σ) (C : σ → ι → Prop) : σ → List ι → Prop
  | _, [] => True
  | s, l :: ls => ∀ s', step s l = some s' → C s l ∧ AllSteps step C s' ls

/-- Whether every step of a run meets a decidable condition can be computed by running it. -/
instance AllSteps.decidable (step : σ → ι → Option σ) (C : σ → ι → Prop)
    [∀ s l, Decidable (C s l)] : ∀ (s : σ) (ls : List ι), Decidable (AllSteps step C s ls)
  | _, [] => isTrue trivial
  | s, l :: ls =>
    match h : step s l with
    | none => isTrue fun s' hs => by
        rw [h] at hs
        cases hs
    | some t =>
      have := AllSteps.decidable step C t ls
      decidable_of_iff (C s l ∧ AllSteps step C t ls)
        ⟨fun hc s' hs => by
          rw [h] at hs
          exact Option.some.inj hs ▸ hc, fun hall => hall t h⟩

variable {step : σ → ι → Option σ} {P Q I : σ → Prop} {C D : σ → ι → Prop}

theorem AllStates.head {s : σ} {ls : List ι} (h : AllStates step P s ls) : P s := by
  cases ls with
  | nil => exact h
  | cons l ls => exact h.1

theorem AllStates.imp (himp : ∀ s, P s → Q s) :
    ∀ {ls : List ι} {s : σ}, AllStates step P s ls → AllStates step Q s ls
  | [], _, h => himp _ h
  | _ :: _, _, h => ⟨himp _ h.1, fun s' hs => AllStates.imp himp (h.2 s' hs)⟩

theorem AllSteps.imp (himp : ∀ s l, C s l → D s l) :
    ∀ {ls : List ι} {s : σ}, AllSteps step C s ls → AllSteps step D s ls
  | [], _, _ => trivial
  | _ :: _, _, h => fun s' hs => ⟨himp _ _ (h s' hs).1, AllSteps.imp himp (h s' hs).2⟩

/-- What holds in every state holds in the one the run ends in. -/
theorem AllStates.last : ∀ {ls : List ι} {s s' : σ},
    AllStates step P s ls → run step s ls = some s' → P s'
  | [], s, s', h, hr => by
    obtain rfl : s = s' := by simpa [run] using hr
    exact h
  | l :: ls, s, s', h, hr => by
    obtain ⟨t, ht, hr⟩ := Option.bind_eq_some_iff.mp hr
    exact (h.2 t ht).last hr

/-- What holds in every state holds in the state whose observation `f` was computed. -/
theorem AllStates.observe {α : Type} {f : σ → α} {a : α} {s : σ} {ls : List ι}
    (h : AllStates step P s ls) (hr : (run step s ls).map f = some a) : ∃ t, P t ∧ f t = a := by
  obtain ⟨t, ht, hf⟩ := Option.map_eq_some_iff.mp hr
  exact ⟨t, h.last ht, hf⟩

/-- What holds of every step holds of the last one, in the state whose observation `f` was
computed. -/
theorem AllSteps.observe {α : Type} {f : σ → α} {a : α} {l : ι} : ∀ {ls : List ι} {s : σ},
    AllSteps step C s (ls ++ [l]) → (run step s ls).map f = some a →
      (run step s (ls ++ [l])).isSome = true → ∃ t, C t l ∧ f t = a
  | [], s, h, hr, hl => by
    obtain ⟨t, ht⟩ : ∃ t, step s l = some t := by
      cases hs : step s l with
      | none => simp [run, hs] at hl
      | some t => exact ⟨t, rfl⟩
    exact ⟨s, (h t ht).1, Option.some.inj hr⟩
  | k :: ls, s, h, hr, hl => by
    cases hs : step s k with
    | none => simp [run, hs] at hr
    | some t =>
      simp only [run, hs, Option.bind_some, List.cons_append] at hr hl
      exact AllSteps.observe (h t hs).2 hr hl

/-- The invariant rule: an invariant that every step meeting `C` preserves holds along
every run whose steps all meet `C`. -/
theorem AllStates.of_invariant
    (hstep : ∀ s l s', I s → C s l → step s l = some s' → I s') :
    ∀ {ls : List ι} {s : σ}, I s → AllSteps step C s ls → AllStates step I s ls
  | [], _, hi, _ => hi
  | _ :: _, _, hi, hc =>
    ⟨hi, fun s' hs =>
      AllStates.of_invariant hstep (hstep _ _ s' hi (hc s' hs).1 hs) (hc s' hs).2⟩

/-- The invariant rule for an invariant that every step preserves. -/
theorem AllStates.of_next (hstep : ∀ s l s', I s → step s l = some s' → I s') :
    ∀ {ls : List ι} {s : σ}, I s → AllStates step I s ls
  | [], _, hi => hi
  | _ :: _, _, hi => ⟨hi, fun s' hs => AllStates.of_next hstep (hstep _ _ s' hi hs)⟩

/-- A condition that the invariant implies is met by every step of the run. -/
theorem AllSteps.of_invariant (himp : ∀ s l s', I s → step s l = some s' → D s l) :
    ∀ {ls : List ι} {s : σ}, AllStates step I s ls → AllSteps step D s ls
  | [], _, _ => trivial
  | _ :: _, _, h => fun s' hs =>
    ⟨himp _ _ s' h.1 hs, AllSteps.of_invariant himp (h.2 s' hs)⟩

/-- What holds of every label holds of every step. -/
theorem AllSteps.of_forall {D : ι → Prop} : ∀ {ls : List ι} {s : σ}, (∀ l ∈ ls, D l) →
    AllSteps step (fun _ l => D l) s ls
  | [], _, _ => trivial
  | l :: _, _, h => fun _ _ =>
    ⟨h l List.mem_cons_self, AllSteps.of_forall fun k hk => h k (List.mem_cons_of_mem l hk)⟩

theorem AllSteps.and : ∀ {ls : List ι} {s : σ}, AllSteps step C s ls → AllSteps step D s ls →
    AllSteps step (fun s l => C s l ∧ D s l) s ls
  | [], _, _, _ => trivial
  | _ :: _, _, hc, hd => fun s' hs => ⟨⟨(hc s' hs).1, (hd s' hs).1⟩, (hc s' hs).2.and (hd s' hs).2⟩

/-- One more step at the end of a run. -/
theorem AllSteps.concat {l : ι} : ∀ {ls : List ι} {s t : σ}, AllSteps step C s ls →
    run step s ls = some t → C t l → AllSteps step C s (ls ++ [l])
  | [], s, t, _, hr, hl => by
    obtain rfl : s = t := by simpa [run] using hr
    exact fun _ _ => ⟨hl, trivial⟩
  | _ :: _, _, _, h, hr, hl => fun s' hs =>
    ⟨(h s' hs).1, (h s' hs).2.concat (by simpa [run, hs] using hr) hl⟩

/-- Two conditions that agree in the states of the invariant. -/
theorem AllSteps.congr (h : ∀ s l, I s → (C s l ↔ D s l)) : ∀ {ls : List ι} {s : σ},
    AllStates step I s ls → (AllSteps step C s ls ↔ AllSteps step D s ls)
  | [], _, _ => Iff.rfl
  | l :: _, s, hi => forall_congr' fun s' => imp_congr_right fun hs =>
    and_congr (h s l hi.1) (AllSteps.congr h (hi.2 s' hs))

/-- The exactness rule. `C` is the exact condition for `P` along a run when, from a state of
the invariant, a step meeting `C` keeps the invariant, the invariant implies `P`, and a step
that does not meet `C` ends in a state without `P`. -/
theorem allStates_iff_allSteps (hP : ∀ s, I s → P s)
    (hstep : ∀ s l s', I s → C s l → step s l = some s' → I s')
    (hbad : ∀ s l s', I s → ¬ C s l → step s l = some s' → ¬ P s') :
    ∀ {ls : List ι} {s : σ}, I s → (AllStates step P s ls ↔ AllSteps step C s ls)
  | [], s, hi => iff_of_true (hP s hi) trivial
  | l :: ls, s, hi => by
    constructor
    · intro h s' hs
      have hc : C s l := by
        by_contra hc
        exact hbad s l s' hi hc hs (h.2 s' hs).head
      exact ⟨hc, (allStates_iff_allSteps hP hstep hbad (hstep s l s' hi hc hs)).mp (h.2 s' hs)⟩
    · intro h
      refine ⟨hP s hi, fun s' hs => ?_⟩
      obtain ⟨hc, hrest⟩ := h s' hs
      exact (allStates_iff_allSteps hP hstep hbad (hstep s l s' hi hc hs)).mpr hrest

/-- Two lists of labels that are alike one by one, in the states that the first one passes. -/
def Alike (step : σ → ι → Option σ) (R : σ → ι → ι → Prop) : σ → List ι → List ι → Prop
  | _, [], [] => True
  | s, l :: ls, l' :: ls' => R s l l' ∧ ∀ s', step s l = some s' → Alike step R s' ls ls'
  | _, _, _ => False

/-- Labels that are alike do the same if each of them does. -/
theorem Alike.run_eq {R : σ → ι → ι → Prop} (hstep : ∀ s l l', R s l l' → step s l = step s l') :
    ∀ {ls ls' : List ι} {s : σ}, Alike step R s ls ls' → run step s ls = run step s ls'
  | [], [], _, _ => rfl
  | l :: ls, l' :: ls', s, h => by
    rw [run, run, ← hstep s l l' h.1]
    cases hs : step s l with
    | none => rfl
    | some t => exact Alike.run_eq hstep (h.2 t hs)

end Trace
