import Mathlib.Data.List.Pairwise
import Mathlib.Data.List.Infix

/-!
# Programs that keep a journal

A program that has effects one after the other and fails at some point or returns. What it does to
the outside is the list of its effects; what comes of an effect is up to the outside. An effect is
`Due` by a condition that says how far the program gets, and effects come in the order of their
stages.
-/

/-- A success is no other for the error that it could have been. -/
theorem Except.mapError_eq_ok {ε ε' α : Type} {r : Except ε α} {g : ε → ε'} {a : α} :
    r.mapError g = .ok a ↔ r = .ok a := by
  cases r with
  | ok a' => exact ⟨fun h => congrArg _ (Except.ok.inj h), fun h => congrArg _ (Except.ok.inj h)⟩
  | error e => exact ⟨fun h => (by cases h), fun h => (by cases h)⟩

/-- What a program has done, and what has come of it. -/
structure Journal (η ε α : Type) where
  effects : List η
  result : Except ε α

namespace Journal

variable {η ε ε' α β : Type}

/-- The second program runs if the first one returns. -/
def bind (x : Journal η ε α) (f : α → Journal η ε β) : Journal η ε β :=
  match x.result with
  | .ok a => { effects := x.effects ++ (f a).effects, result := (f a).result }
  | .error e => { effects := x.effects, result := .error e }

instance : Monad (Journal η ε) where
  pure a := { effects := [], result := .ok a }
  bind := bind

/-- An effect and what comes of it. -/
def act (e : η) (result : Except ε α) : Journal η ε α := { effects := [e], result }

/-- No effect. -/
def check (result : Except ε α) : Journal η ε α := { effects := [], result }

/-- The same effects, and the error told in other words. -/
def mapError (g : ε → ε') (x : Journal η ε α) : Journal η ε' α :=
  { effects := x.effects, result := x.result.mapError g }

variable {x : Journal η ε α} {f : α → Journal η ε β} {a : α} {b : β} {e : η} {error : ε}
  {r : Except ε α} {g : ε → ε'}

@[simp] theorem effects_pure : (pure a : Journal η ε α).effects = [] := rfl

@[simp] theorem result_pure : (pure a : Journal η ε α).result = .ok a := rfl

@[simp] theorem effects_act : (act e r).effects = [e] := rfl

@[simp] theorem result_act : (act e r).result = r := rfl

@[simp] theorem effects_check : (check r : Journal η ε α).effects = [] := rfl

@[simp] theorem result_check : (check r : Journal η ε α).result = r := rfl

@[simp] theorem effects_mapError : (x.mapError g).effects = x.effects := rfl

@[simp] theorem result_mapError : (x.mapError g).result = x.result.mapError g := rfl

theorem bind_of_ok (h : x.result = .ok a) :
    x >>= f = { effects := x.effects ++ (f a).effects, result := (f a).result } := by
  show bind x f = _
  rw [bind, h]

theorem bind_of_error (h : x.result = .error error) :
    x >>= f = { effects := x.effects, result := .error error } := by
  show bind x f = _
  rw [bind, h]

theorem result_bind_eq_ok :
    (x >>= f).result = .ok b ↔ ∃ a, x.result = .ok a ∧ (f a).result = .ok b := by
  cases h : x.result with
  | ok a =>
    rw [bind_of_ok h]
    exact ⟨fun hb => ⟨a, rfl, hb⟩, fun ⟨a', ha, hb⟩ => Except.ok.inj ha ▸ hb⟩
  | error error =>
    rw [bind_of_error h]
    exact ⟨fun hb => (by cases hb), fun ⟨_, ha, _⟩ => by cases ha⟩

/-- An effect of two programs is one of the first, or the first one returns and it is one of the
second. -/
theorem mem_effects_bind :
    e ∈ (x >>= f).effects ↔ e ∈ x.effects ∨ ∃ a, x.result = .ok a ∧ e ∈ (f a).effects := by
  cases h : x.result with
  | ok a =>
    rw [bind_of_ok h, List.mem_append]
    exact or_congr_right ⟨fun he => ⟨a, rfl, he⟩, fun ⟨a', ha, he⟩ => Except.ok.inj ha ▸ he⟩
  | error error =>
    rw [bind_of_error h]
    exact ⟨.inl, fun he => he.resolve_right fun ⟨_, ha, _⟩ => by cases ha⟩

/-- The effects come in the order of their stages, none before `lo` and none after `hi`. -/
structure Staged (stage : η → Nat) (lo hi : Nat) (x : Journal η ε α) : Prop where
  sorted : x.effects.Pairwise fun e e' => stage e ≤ stage e'
  within : ∀ e ∈ x.effects, lo ≤ stage e ∧ stage e ≤ hi

variable {stage : η → Nat} {lo lo' mid hi : Nat}

theorem Staged.check (r : Except ε α) : (check r : Journal η ε α).Staged stage lo hi :=
  ⟨List.Pairwise.nil, fun _ he => absurd he List.not_mem_nil⟩

theorem Staged.act (h : lo ≤ stage e ∧ stage e ≤ hi) : (act e r).Staged stage lo hi :=
  ⟨List.pairwise_singleton _ _, fun _ he => List.mem_singleton.mp he ▸ h⟩

theorem Staged.pure : (pure a : Journal η ε α).Staged stage lo hi :=
  ⟨List.Pairwise.nil, fun _ he => absurd he List.not_mem_nil⟩

theorem Staged.mapError (h : x.Staged stage lo hi) : (x.mapError g).Staged stage lo hi :=
  ⟨h.sorted, h.within⟩

theorem Staged.mono (h : x.Staged stage lo mid) (hlo : lo' ≤ lo) (hhi : mid ≤ hi) :
    x.Staged stage lo' hi :=
  ⟨h.sorted, fun e he => ⟨hlo.trans (h.within e he).1, (h.within e he).2.trans hhi⟩⟩

/-- Programs of successive stages make a program of both. -/
theorem Staged.bind (hx : x.Staged stage lo mid) (hf : ∀ a, (f a).Staged stage lo' hi)
    (hlo : lo ≤ lo') (hmid : mid ≤ lo') (hhi : mid ≤ hi) : (x >>= f).Staged stage lo hi := by
  cases h : x.result with
  | ok a =>
    rw [bind_of_ok h]
    refine ⟨List.pairwise_append.mpr ⟨hx.sorted, (hf a).sorted, fun e he e' he' => ?_⟩,
      fun e he => ?_⟩
    · exact (hx.within e he).2.trans (hmid.trans ((hf a).within e' he').1)
    · rcases List.mem_append.mp he with hfirst | hsecond
      · exact ⟨(hx.within e hfirst).1, (hx.within e hfirst).2.trans hhi⟩
      · exact ⟨hlo.trans ((hf a).within e hsecond).1, ((hf a).within e hsecond).2⟩
  | error error =>
    rw [bind_of_error h]
    exact ⟨hx.sorted, fun e he => ⟨(hx.within e he).1, (hx.within e he).2.trans hhi⟩⟩

theorem Staged.check_bind (hf : ∀ a, (f a).Staged stage lo hi) :
    (Journal.check r >>= f).Staged stage lo hi := by
  cases r with
  | ok a => exact hf a
  | error error => exact .check _

end Journal
