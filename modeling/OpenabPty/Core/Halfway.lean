import Mathlib.Data.List.Basic

/-!
# Programs that may stop half-way

A program over a state that may fail keeps what it had done when it fails. What is said of such a
program is said of where it stops, whether it came to its end or not (`Meets`). Each way to put
programs together has one equation; the rule for a loop has an invariant of what is done and what
holds where the loop fails.
-/

namespace Halfway

variable {ε σ α γ : Type}

/-- The program, from `s`, ends with a result and in a state as `post` says. -/
def Meets (x : ExceptT ε (StateM σ) α) (s : σ) (post : Except ε α → σ → Prop) : Prop :=
  post (x.run.run s).1 (x.run.run s).2

variable {x : ExceptT ε (StateM σ) α} {s : σ} {post : Except ε α → σ → Prop}

@[simp] theorem meets_pure {a : α} :
    Meets (pure a : ExceptT ε (StateM σ) α) s post ↔ post (.ok a) s := Iff.rfl

@[simp] theorem meets_throw {e : ε} :
    Meets (throw e : ExceptT ε (StateM σ) α) s post ↔ post (.error e) s := Iff.rfl

/-- A step that is a function of the state. -/
def step (f : σ → Except ε α × σ) : ExceptT ε (StateM σ) α := ExceptT.mk fun s => f s

theorem run_step (f : σ → Except ε α × σ) : (step f).run.run s = f s := rfl

@[simp] theorem meets_step {f : σ → Except ε α × σ} :
    Meets (step f) s post ↔ post (f s).1 (f s).2 := Iff.rfl

/-- What is shown of a program's result where the program goes on with it. -/
def Then (f : α → ExceptT ε (StateM σ) γ) (post : Except ε γ → σ → Prop) :
    Except ε α → σ → Prop
  | .ok a, s => Meets (f a) s post
  | .error e, s => post (.error e) s

/-- `cleanup` is run where `x` stops, and what becomes of it is not asked. -/
def ensure (x : ExceptT ε (StateM σ) α) (cleanup : ExceptT ε (StateM σ) PUnit) :
    ExceptT ε (StateM σ) α :=
  step fun s =>
    let (r, s') := x.run.run s
    (r, (cleanup.run.run s').2)

theorem meets_ensure {cleanup : ExceptT ε (StateM σ) PUnit} :
    Meets (ensure x cleanup) s post ↔
      Meets x s fun r s' => Meets cleanup s' fun _ s'' => post r s'' := Iff.rfl

/-- A program's failure, told with its context. -/
def context (f : ε → ε) (x : ExceptT ε (StateM σ) α) : ExceptT ε (StateM σ) α :=
  step fun s =>
    let (r, s') := x.run.run s
    (r.mapError f, s')

theorem meets_context {f : ε → ε} :
    Meets (context f x) s post ↔ Meets x s fun r s' => post (r.mapError f) s' := Iff.rfl

@[simp] theorem then_ok {f : α → ExceptT ε (StateM σ) γ} {post : Except ε γ → σ → Prop} {a : α} :
    Then f post (.ok a) s ↔ Meets (f a) s post := Iff.rfl

@[simp] theorem then_error {f : α → ExceptT ε (StateM σ) γ} {post : Except ε γ → σ → Prop}
    {e : ε} : Then f post (.error e) s ↔ post (.error e) s := Iff.rfl

theorem run_bind {f : α → ExceptT ε (StateM σ) γ} :
    (x >>= f).run.run s = match x.run.run s with
      | (.ok a, s') => (f a).run.run s'
      | (.error e, s') => (.error e, s') := by
  rw [ExceptT.run_bind, StateT.run_bind]
  generalize x.run.run s = stopped
  rcases stopped with ⟨r, s'⟩
  cases r <;> rfl

theorem meets_bind {f : α → ExceptT ε (StateM σ) γ} {post : Except ε γ → σ → Prop} :
    Meets (x >>= f) s post ↔ Meets x s (Then f post) := by
  unfold Meets
  rw [run_bind]
  rcases x.run.run s with ⟨r, s'⟩
  cases r <;> exact Iff.rfl

theorem Meets.mono {post' : Except ε α → σ → Prop} (h : Meets x s post)
    (himp : ∀ r s', post r s' → post' r s') : Meets x s post' := himp _ _ h

theorem meets_ite {c : Prop} [Decidable c] {y : ExceptT ε (StateM σ) α}
    (hx : c → Meets x s post) (hy : ¬ c → Meets y s post) : Meets (if c then x else y) s post := by
  split
  · exact hx ‹c›
  · exact hy ‹¬ c›

theorem Meets.and {post' : Except ε α → σ → Prop} (h : Meets x s post) (h' : Meets x s post') :
    Meets x s fun r s' => post r s' ∧ post' r s' := ⟨h, h'⟩

/-- A step of a sequence. -/
theorem Meets.bind {f : α → ExceptT ε (StateM σ) γ} {post' : Except ε γ → σ → Prop}
    (hx : Meets x s post) (hok : ∀ a s', post (.ok a) s' → Meets (f a) s' post')
    (herr : ∀ e s', post (.error e) s' → post' (.error e) s') : Meets (x >>= f) s post' := by
  refine meets_bind.mpr (hx.mono fun r s' hr => ?_)
  cases r with
  | ok a => exact hok a s' hr
  | error e => exact herr e s' hr

/-- A loop: `I` says what holds when so much is done. -/
theorem Meets.forM {f : α → ExceptT ε (StateM σ) PUnit} (I : List α → σ → Prop)
    (E : ε → σ → Prop) {l : List α} {s : σ} (hs : I [] s)
    (hstep : ∀ front a back s, l = front ++ a :: back → I front s →
      Meets (f a) s fun r s' => match r with
        | .ok _ => I (front ++ [a]) s'
        | .error e => E e s') :
    Meets (l.forM f) s fun r s' => match r with
      | .ok _ => I l s'
      | .error e => E e s' := by
  have hrest : ∀ back front s, l = front ++ back → I front s →
      Meets (back.forM f) s fun r s' => match r with
        | .ok _ => I l s'
        | .error e => E e s' := by
    intro back
    induction back with
    | nil =>
      intro front s hl hfront
      rw [List.append_nil] at hl
      change Meets (pure PUnit.unit) s _
      rw [meets_pure, hl]
      exact hfront
    | cons a back ih =>
      intro front s hl hfront
      change Meets (f a >>= fun _ => back.forM f) s _
      refine (hstep front a back s hl hfront).bind ?_ fun e s' h => h
      intro _ s' hdone
      refine ih (front ++ [a]) s' ?_ hdone
      rw [hl, List.append_assoc]
      rfl
  exact hrest l [] s rfl hs

end Halfway
