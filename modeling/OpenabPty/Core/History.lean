import OpenabPty.Core.Trace

/-!
# History variables

A history variable is written at every step from what the step does and is read by none. It
restricts no run, so what is proved about the program with its history is proved about the
program.
-/

namespace Trace

variable {σ ι γ : Type}

/-- A state and the history that led to it. -/
structure Noted (σ γ : Type) where
  state : σ
  log : γ

/-- The program with a history variable; `note` is its value after a step. -/
def noted (step : σ → ι → Option σ) (note : σ → ι → σ → γ → γ) (w : Noted σ γ) (l : ι) :
    Option (Noted σ γ) :=
  (step w.state l).map fun s' => { state := s', log := note w.state l s' w.log }

variable {step : σ → ι → Option σ} {note : σ → ι → σ → γ → γ} {w w' : Noted σ γ} {l : ι}

theorem noted_eq_some (h : noted step note w l = some w') :
    step w.state l = some w'.state ∧ w'.log = note w.state l w'.state w.log := by
  obtain ⟨s', hs, rfl⟩ := Option.map_eq_some_iff.mp h
  exact ⟨hs, rfl⟩

/-- What holds along the runs of the program holds along its runs with a history. -/
theorem AllStates.noted {P : σ → Prop} : ∀ {ls : List ι} {w : Noted σ γ},
    AllStates step P w.state ls → AllStates (noted step note) (fun w => P w.state) w ls
  | [], _, h => h
  | _ :: _, _, h => ⟨h.1, fun w' hs => (h.2 w'.state (noted_eq_some hs).1).noted⟩

end Trace
