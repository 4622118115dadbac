import OpenabPty.Core.Trace
import Mathlib.Data.List.Nodup

/-!
# Tasks over shared state

A concurrent program as a shared state and a list of tasks. A task is what one thread of
control still has to do; a step runs the next critical section of one task on the shared
state, may leave new tasks behind, and is atomic. Finished tasks stay in the list, so a
task keeps its index for the whole run. Labels are the scheduler's choices: a request
arrives, a task takes a step (with the values its environment returns), or the environment
changes the shared state by itself.

`Threads.Annotated.preserved` is the rely-guarantee rule: the assertions of the tasks that
did not move only have to be stable under what one step of another task may do, and two
tasks never hold the same resource.
-/

/-- A concurrent program: shared states `σ`, tasks `τ`, what the environment returns to a
step `ι`, and what it does by itself `ε`. -/
structure Threads (σ τ ι ε : Type) where
  /-- The tasks a request may start. -/
  entry : τ → Bool
  /-- One atomic step of a task: the shared state after it, what is left of the task, and
  the tasks it started. -/
  step : σ → τ → ι → Option (σ × τ × List τ)
  /-- A move of the environment alone. -/
  env : σ → ε → σ

namespace Threads

/-- A state of the whole program. -/
structure State (σ τ : Type) where
  shared : σ
  tasks : List τ

/-- A scheduling choice. -/
inductive Label (τ ι ε : Type) where
  | call (t : τ)
  | step (i : Nat) (c : ι)
  | env (e : ε)

variable {σ τ ι ε : Type}

/-- The task that a scheduling choice lets move. -/
def State.acting (w : State σ τ) : Label τ ι ε → Option τ
  | .step i _ => w.tasks[i]?
  | _ => none

/-- One atomic step of the program. -/
def next (M : Threads σ τ ι ε) (w : State σ τ) : Label τ ι ε → Option (State σ τ)
  | .call t => if M.entry t then some { w with tasks := w.tasks ++ [t] } else none
  | .step i c =>
    match w.tasks[i]? with
    | none => none
    | some t =>
      match M.step w.shared t c with
      | none => none
      | some (s', t', new) => some { shared := s', tasks := w.tasks.set i t' ++ new }
  | .env e => some { w with shared := M.env w.shared e }

variable {M : Threads σ τ ι ε} {w w' : State σ τ}

theorem next_call {t : τ} (h : M.next w (.call t) = some w') :
    M.entry t = true ∧ w' = { w with tasks := w.tasks ++ [t] } := by
  simp only [next] at h
  split at h
  · rename_i he
    exact ⟨he, (Option.some.inj h).symm⟩
  · cases h

theorem next_step {i : Nat} {c : ι} (h : M.next w (.step i c) = some w') :
    ∃ t s' t' new, w.tasks[i]? = some t ∧ M.step w.shared t c = some (s', t', new) ∧
      w' = { shared := s', tasks := w.tasks.set i t' ++ new } := by
  simp only [next] at h
  split at h
  · cases h
  · rename_i t ht
    split at h
    · cases h
    · rename_i s' t' new hs
      exact ⟨t, s', t', new, ht, hs, (Option.some.inj h).symm⟩

theorem next_env {e : ε} (h : M.next w (.env e) = some w') :
    w' = { w with shared := M.env w.shared e } :=
  (Option.some.inj h).symm

/-- A task that is not the one that moves is still there. -/
theorem mem_step_of_ne {tasks new : List τ} {i : Nat} {t t' u : τ} (hi : tasks[i]? = some t)
    (hu : u ∈ tasks) (hne : u ≠ t) : u ∈ tasks.set i t' ++ new := by
  obtain ⟨j, hj⟩ := List.mem_iff_getElem?.mp hu
  have hij : i ≠ j := by
    rintro rfl
    exact hne (Option.some.inj (hj.symm.trans hi))
  exact List.mem_append_left _ (List.mem_of_getElem? ((List.getElem?_set_ne hij).trans hj))

/-! ## Resources

`f t = some k` says that task `t` holds the resource `k`. -/

section Exclusive

variable {κ : Type} {f : τ → Option κ} {tasks new : List τ} {t t' u : τ} {i j : Nat} {k : κ}

/-- No resource is held twice. -/
def Exclusive (f : τ → Option κ) (tasks : List τ) : Prop := (tasks.filterMap f).Nodup

theorem Exclusive.nil : Exclusive f [] := List.nodup_nil

/-- A task that holds nothing may join. -/
theorem Exclusive.append_of_none (h : Exclusive f tasks) (hnew : ∀ u ∈ new, f u = none) :
    Exclusive f (tasks ++ new) := by
  have hnil : new.filterMap f = [] := List.filterMap_eq_nil_iff.mpr hnew
  rw [Exclusive, List.filterMap_append, hnil, List.append_nil]
  exact h

/-- A task moves: it keeps its resource, gives it up, or takes one that nobody holds. -/
theorem Exclusive.step (h : Exclusive f tasks) (hi : tasks[i]? = some t)
    (ht' : ∀ k, f t' = some k → f t = some k ∨ ∀ u ∈ tasks, f u ≠ some k)
    (hnew : ∀ u ∈ new, f u = none) : Exclusive f (tasks.set i t' ++ new) := by
  refine Exclusive.append_of_none ?_ hnew
  obtain ⟨hlt, rfl⟩ := List.getElem?_eq_some_iff.mp hi
  have hsplit : tasks = tasks.take i ++ tasks[i] :: tasks.drop (i + 1) := by
    rw [List.getElem_cons_drop, List.take_append_drop]
  have hset : tasks.set i t' = tasks.take i ++ t' :: tasks.drop (i + 1) := by
    rw [List.set_eq_take_append_cons_drop, if_pos hlt]
  rw [Exclusive, hsplit, List.filterMap_append] at h
  rw [Exclusive, hset, List.filterMap_append]
  cases hk : f t' with
  | none =>
    rw [List.filterMap_cons_none hk]
    refine h.sublist (List.Sublist.append_left ?_ _)
    cases hk' : f tasks[i] with
    | none => rw [List.filterMap_cons_none hk']
    | some k' =>
      rw [List.filterMap_cons_some hk']
      exact List.sublist_cons_self _ _
  | some k =>
    rw [List.filterMap_cons_some hk, List.nodup_middle]
    rcases ht' k hk with hkeep | hfresh
    · rw [List.filterMap_cons_some hkeep, List.nodup_middle] at h
      exact h
    · refine List.nodup_cons.mpr ⟨fun hmem => ?_, ?_⟩
      · rw [← List.filterMap_append] at hmem
        obtain ⟨u, hu, huk⟩ := List.mem_filterMap.mp hmem
        refine hfresh u ?_ huk
        rw [hsplit]
        rcases List.mem_append.mp hu with hu | hu
        · exact List.mem_append_left _ hu
        · exact List.mem_append_right _ (List.mem_cons_of_mem _ hu)
      · refine h.sublist (List.Sublist.append_left ?_ _)
        cases hk' : f tasks[i] with
        | none => rw [List.filterMap_cons_none hk']
        | some k' =>
          rw [List.filterMap_cons_some hk']
          exact List.sublist_cons_self _ _

/-- Two tasks never hold the same resource. -/
theorem Exclusive.ne (h : Exclusive f tasks) (hi : tasks[i]? = some t) (hj : tasks[j]? = some u)
    (hij : i ≠ j) (hk : f t = some k) : f u ≠ some k := by
  intro huk
  induction tasks generalizing i j with
  | nil => cases hi
  | cons v tasks ih =>
    have htail : Exclusive f tasks := by
      cases hv : f v with
      | none => rwa [Exclusive, List.filterMap_cons_none hv] at h
      | some kv =>
        rw [Exclusive, List.filterMap_cons_some hv] at h
        exact (List.nodup_cons.mp h).2
    cases i with
    | zero =>
      obtain rfl : v = t := Option.some.inj hi
      cases j with
      | zero => exact hij rfl
      | succ j =>
        rw [Exclusive, List.filterMap_cons_some hk] at h
        exact (List.nodup_cons.mp h).1
          (List.mem_filterMap.mpr ⟨u, List.mem_of_getElem? hj, huk⟩)
    | succ i =>
      cases j with
      | zero =>
        obtain rfl : v = u := Option.some.inj hj
        rw [Exclusive, List.filterMap_cons_some huk] at h
        exact (List.nodup_cons.mp h).1
          (List.mem_filterMap.mpr ⟨t, List.mem_of_getElem? hi, hk⟩)
      | succ j => exact ih htail hi hj (fun e => hij (congrArg Nat.succ e))

end Exclusive

/-! ## Rely-guarantee -/

variable {κ : Type} {I : σ → Prop} {A : σ → τ → Prop} {f : τ → Option κ}

/-- `I` holds of the shared state and `A` of every task, and no resource is held twice. -/
structure Annotated (I : σ → Prop) (A : σ → τ → Prop) (f : τ → Option κ) (w : State σ τ) :
    Prop where
  shared : I w.shared
  tasks : ∀ t ∈ w.tasks, A w.shared t
  exclusive : Exclusive f w.tasks

/-- Nothing runs yet. -/
theorem Annotated.initial {s : σ} (h : I s) : Annotated I A f { shared := s, tasks := [] } :=
  ⟨h, fun _ ht => absurd ht List.not_mem_nil, Exclusive.nil⟩

/-- **Rely-guarantee.** If the step keeps `I` and the assertion of the task that moved, takes
only resources that are `fresh`, and keeps the assertions of the tasks that hold another
resource, then the annotation is preserved. -/
theorem Annotated.preserved (fresh : σ → κ → Prop) (h : Annotated I A f w) {l : Label τ ι ε}
    (hnext : M.next w l = some w')
    (hcall : ∀ t, l = .call t → M.entry t = true → A w.shared t ∧ f t = none)
    (hstep : ∀ i c t s' t' new, l = .step i c → w.tasks[i]? = some t →
      M.step w.shared t c = some (s', t', new) → A w.shared t →
        I s' ∧ A s' t' ∧ (∀ u ∈ new, A s' u ∧ f u = none) ∧
        (∀ k, f t' = some k → f t = some k ∨ fresh w.shared k) ∧
        ∀ u ∈ w.tasks, A w.shared u → (∀ k, f t = some k → f u ≠ some k) → A s' u)
    (hfresh : ∀ u k, A w.shared u → fresh w.shared k → f u ≠ some k)
    (henv : ∀ e, l = .env e → I (M.env w.shared e) ∧
      ∀ u ∈ w.tasks, A w.shared u → A (M.env w.shared e) u) : Annotated I A f w' := by
  cases l with
  | call t =>
    obtain ⟨he, rfl⟩ := next_call hnext
    obtain ⟨hA, hf⟩ := hcall t rfl he
    refine ⟨h.shared, fun u hu => ?_, h.exclusive.append_of_none fun u hu => ?_⟩
    · rcases List.mem_append.mp hu with hu | hu
      · exact h.tasks u hu
      · obtain rfl := List.mem_singleton.mp hu
        exact hA
    · obtain rfl := List.mem_singleton.mp hu
      exact hf
  | step i c =>
    obtain ⟨t, s', t', new, ht, hs, rfl⟩ := next_step hnext
    have hmem : t ∈ w.tasks := List.mem_of_getElem? ht
    obtain ⟨hI', hA', hnew, hacq, hothers⟩ := hstep i c t s' t' new rfl ht hs (h.tasks t hmem)
    refine ⟨hI', fun u hu => ?_, h.exclusive.step ht (fun k hk => ?_) fun u hu => (hnew u hu).2⟩
    · rcases List.mem_append.mp hu with hu | hu
      · obtain ⟨j, hj⟩ := List.mem_iff_getElem?.mp hu
        by_cases hij : i = j
        · subst hij
          rw [List.getElem?_set_self (List.getElem?_eq_some_iff.mp ht).1] at hj
          obtain rfl := Option.some.inj hj
          exact hA'
        · rw [List.getElem?_set_ne hij] at hj
          exact hothers u (List.mem_of_getElem? hj) (h.tasks u (List.mem_of_getElem? hj))
            fun k hk => h.exclusive.ne ht hj hij hk
      · exact (hnew u hu).1
    · rcases hacq k hk with hkeep | hk'
      · exact .inl hkeep
      · exact .inr fun u hu => hfresh u k (h.tasks u hu) hk'
  | env e =>
    obtain rfl := next_env hnext
    obtain ⟨hI', hothers⟩ := henv e rfl
    exact ⟨hI', fun u hu => hothers u hu (h.tasks u hu), h.exclusive⟩

end Threads
