import OpenabPty.Verifier
import Mathlib.Data.Char
import Mathlib.Data.List.Destutter
import Mathlib.Data.List.Lex
import Mathlib.Data.List.Sort
import Mathlib.Data.Prod.Lex

/-!
# The environment of a child (`child_env` in `session.rs`)

A session's child sees the allowlisted variables of the runtime and those that the operator
forwards by name. The result depends on nothing else of the runtime's environment, and not on
the order in which the platform lists it.
-/

namespace OpenabPty

/-- `ENV_ALLOWLIST`. -/
def envAllowlist : List Text :=
  ["TERM".toList, "LANG".toList, "PATH".toList, "HOME".toList, "USER".toList, "SHELL".toList]

/-- `ENV_ALLOWLIST_PREFIXES`. -/
def envAllowlistPrefixes : List Text := ["LC_".toList]

/-- `ENV_FORWARD_PREFIX`. -/
def envForwardPrefix : Text := "PTY_FORWARD_".toList

/-- `DEFAULT_TERM`. -/
def defaultTerm : Text := "xterm-256color".toList

/-- An environment: pairs of a name and a value. -/
abbrev Environ := List (Text × Text)

/-- The names of an environment, in order. -/
def Environ.keys (env : Environ) : List Text := env.map Prod.fst

/-- The test on a name that `child_env` makes twice: of a variable of its own and of the name
of a forward. -/
def allowlisted (key : Text) : Bool :=
  envAllowlist.contains key || envAllowlistPrefixes.any (·.isPrefixOf key)

/-- The body of the loop over the forwards: what it pushes for one variable of the source. -/
def forwardEnv (e : Text × Text) : Option (Text × Text) :=
  match stripPrefix envForwardPrefix e.1 with
  | none => none
  | some name =>
    if name.isEmpty then none
    else if allowlisted name then none
    else some (name, e.2)

/-- Everything taken over from the source, in the order of the source. -/
def collectEnv (source : Environ) : Environ :=
  source.filter (fun e => allowlisted e.1) ++ source.filterMap forwardEnv

/-- `sort` on pairs of strings: by name, then by value. -/
def Environ.sort (env : Environ) : Environ := env.mergeSort (fun a b => toLex a ≤ toLex b)

/-- `dedup_by(|a, b| a.0 == b.0)`: of neighbours with one name the first stays. -/
def Environ.dedup (env : Environ) : Environ := env.destutter (fun a b => a.1 ≠ b.1)

/-- Push a default for a name that is absent. -/
def Environ.orDefault (env : Environ) (key value : Text) : Environ :=
  if env.any (fun e => e.1 == key) then env else env ++ [(key, value)]

/-- `child_env`. -/
def childEnv (source : Environ) (home : Text) (sizeTerm : Option Text) : Environ :=
  ((collectEnv source).sort.dedup.orDefault "TERM".toList (sizeTerm.getD defaultTerm)).orDefault
    "HOME".toList home

/-! ## What is collected -/

theorem stripPrefix_eq_some {p s t : Text} : stripPrefix p s = some t ↔ s = p ++ t := by
  unfold stripPrefix
  rw [Option.ite_none_right_eq_some, List.isPrefixOf_iff_prefix]
  constructor
  · intro ⟨⟨rest, hrest⟩, h⟩
    simp only [← hrest, List.drop_left, Option.some.injEq] at h
    rw [← hrest, h]
  · intro h
    simp [h]

theorem forwardEnv_eq_some {e f : Text × Text} :
    forwardEnv e = some f ↔
      e.1 = envForwardPrefix ++ f.1 ∧ f.1 ≠ [] ∧ allowlisted f.1 = false ∧ e.2 = f.2 := by
  unfold forwardEnv
  cases hname : stripPrefix envForwardPrefix e.1 with
  | none =>
    simp only [reduceCtorEq, false_iff]
    intro ⟨h, _⟩
    simp [stripPrefix_eq_some.mpr h] at hname
  | some name =>
    rw [stripPrefix_eq_some] at hname
    simp only [hname, List.append_cancel_left_eq]
    grind

theorem mem_collectEnv {source : Environ} {k v : Text} :
    (k, v) ∈ collectEnv source ↔
      ((k, v) ∈ source ∧ allowlisted k = true) ∨
      ((envForwardPrefix ++ k, v) ∈ source ∧ k ≠ [] ∧ allowlisted k = false) := by
  simp only [collectEnv, List.mem_append, List.mem_filter, List.mem_filterMap, forwardEnv_eq_some]
  constructor
  · rintro (h | ⟨⟨k', v'⟩, hmem, rfl, hne, hallow, rfl⟩)
    · exact .inl h
    · exact .inr ⟨hmem, hne, hallow⟩
  · rintro (h | ⟨hmem, hne, hallow⟩)
    · exact .inl h
    · exact .inr ⟨_, hmem, rfl, hne, hallow, rfl⟩

/-- Names stay distinct: a forward never has an allowlisted name, and stripping the prefix keeps
the forwards apart. -/
theorem keys_collectEnv_nodup {source : Environ} (h : source.keys.Nodup) :
    (collectEnv source).keys.Nodup := by
  have hinj : ∀ e ∈ source, ∀ f ∈ source, e.1 = f.1 → e = f :=
    fun e he f hf => List.inj_on_of_nodup_map h he hf
  have hsource : source.Nodup := h.of_map
  unfold collectEnv Environ.keys
  rw [List.map_append, List.nodup_append']
  refine ⟨?_, ?_, ?_⟩
  · exact h.sublist (List.filter_sublist.map _)
  · refine List.Nodup.map_on ?_ (hsource.filterMap ?_)
    · -- Two forwards of one name were one variable of the source.
      intro a ha b hb hab
      rw [List.mem_filterMap] at ha hb
      obtain ⟨e, he, hea⟩ := ha
      obtain ⟨f, hf, hfb⟩ := hb
      rw [forwardEnv_eq_some] at hea hfb
      have hef : e = f := hinj e he f hf (by rw [hea.1, hfb.1, hab])
      exact Prod.ext hab (by rw [← hea.2.2.2, ← hfb.2.2.2, hef])
    · intro e f b he hf
      rw [Option.mem_def, forwardEnv_eq_some] at he hf
      exact Prod.ext (he.1.trans hf.1.symm) (he.2.2.2.trans hf.2.2.2.symm)
  · intro k hown hforward
    rw [List.mem_map] at hown hforward
    obtain ⟨e, he, rfl⟩ := hown
    obtain ⟨f, hf, hfe⟩ := hforward
    obtain ⟨_, _, hf⟩ := List.mem_filterMap.mp hf
    have hallow := (List.mem_filter.mp he).2
    have hdeny := (forwardEnv_eq_some.mp hf).2.2.1
    simp [hfe, hallow] at hdeny

/-! ## Sorting and defaults -/

theorem Environ.mem_sort {env : Environ} {e : Text × Text} : e ∈ env.sort ↔ e ∈ env :=
  (List.mergeSort_perm _ _).mem_iff

theorem Environ.keys_sort_perm (env : Environ) : env.sort.keys.Perm env.keys :=
  (List.mergeSort_perm _ _).map _

/-- Sorting forgets the order: the result is determined by what is in the list. -/
theorem Environ.sort_eq_of_perm {env env' : Environ} (h : env.Perm env') :
    env.sort = env'.sort := by
  have hsorted : ∀ l : Environ, l.sort.Pairwise (fun a b => toLex a ≤ toLex b) := by
    intro l
    simpa [Environ.sort] using @List.pairwise_mergeSort _ (fun a b => decide (toLex a ≤ toLex b))
      (fun a b c hab hbc => by simpa using le_trans (by simpa using hab) (by simpa using hbc))
      (fun a b => by simpa using le_total (toLex a) (toLex b)) l
  refine List.Perm.eq_of_pairwise (fun a b _ _ hab hba => ?_) (hsorted env) (hsorted env') ?_
  · exact toLex.injective (le_antisymm hab hba)
  · exact (List.mergeSort_perm _ _).trans (h.trans (List.mergeSort_perm _ _).symm)

/-- Where names are distinct already, there is nothing to drop. -/
theorem Environ.dedup_of_nodup {env : Environ} (h : env.keys.Nodup) : env.dedup = env := by
  have hchain : env.IsChain (fun a b => a.1 ≠ b.1) := (List.pairwise_map.mp h).isChain
  exact env.destutter_of_isChain _ hchain

theorem Environ.mem_orDefault {env : Environ} {key value : Text} {e : Text × Text} :
    e ∈ env.orDefault key value ↔ e ∈ env ∨ (key ∉ env.keys ∧ e = (key, value)) := by
  unfold Environ.orDefault Environ.keys
  split_ifs with h
  · simp at h ⊢
    grind
  · simp at h ⊢
    grind

theorem Environ.keys_orDefault_nodup {env : Environ} (key value : Text) (h : env.keys.Nodup) :
    (env.orDefault key value).keys.Nodup := by
  unfold Environ.orDefault
  split_ifs with hkey
  · exact h
  · simp only [Environ.keys, List.map_append, List.nodup_append'] at h ⊢
    refine ⟨h, by simp, ?_⟩
    intro k hk hk'
    simp only [List.map_cons, List.map_nil, List.mem_singleton] at hk'
    simp only [List.any_eq_true, not_exists, beq_iff_eq, not_and] at hkey
    obtain ⟨e, he, rfl⟩ := List.mem_map.mp hk
    exact hkey e he hk'

/-! ## The child's environment -/

theorem childEnv_eq {source : Environ} (h : source.keys.Nodup) (home : Text)
    (sizeTerm : Option Text) :
    childEnv source home sizeTerm =
      ((collectEnv source).sort.orDefault "TERM".toList (sizeTerm.getD defaultTerm)).orDefault
        "HOME".toList home := by
  have hkeys : (collectEnv source).sort.keys.Nodup :=
    (Environ.keys_sort_perm _).nodup_iff.mpr (keys_collectEnv_nodup h)
  rw [childEnv, Environ.dedup_of_nodup hkeys]

theorem keys_childEnv_nodup {source : Environ} (h : source.keys.Nodup) (home : Text)
    (sizeTerm : Option Text) : (childEnv source home sizeTerm).keys.Nodup := by
  rw [childEnv_eq h]
  apply Environ.keys_orDefault_nodup
  apply Environ.keys_orDefault_nodup
  exact (Environ.keys_sort_perm _).nodup_iff.mpr (keys_collectEnv_nodup h)

/-- An allowlisted name is collected exactly if the source has it. -/
theorem mem_keys_collectEnv (source : Environ) {k : Text} (hk : allowlisted k = true) :
    k ∈ (collectEnv source).keys ↔ k ∈ source.keys := by
  simp [Environ.keys, mem_collectEnv, hk]

theorem mem_childEnv {source : Environ} (h : source.keys.Nodup) (home : Text)
    (sizeTerm : Option Text) (k v : Text) :
    (k, v) ∈ childEnv source home sizeTerm ↔
      ((k, v) ∈ source ∧ allowlisted k = true) ∨
      ((envForwardPrefix ++ k, v) ∈ source ∧ k ≠ [] ∧ allowlisted k = false) ∨
      (k = "TERM".toList ∧ k ∉ source.keys ∧ v = sizeTerm.getD defaultTerm) ∨
      (k = "HOME".toList ∧ k ∉ source.keys ∧ v = home) := by
  have hterm : allowlisted "TERM".toList = true := by decide
  have hhome : allowlisted "HOME".toList = true := by decide
  have hne : "HOME".toList ≠ "TERM".toList := by decide
  have hkeys : ∀ k', k' ∈ (collectEnv source).sort.keys ↔ k' ∈ (collectEnv source).keys :=
    fun k' => (Environ.keys_sort_perm _).mem_iff
  rw [childEnv_eq h, Environ.mem_orDefault, Environ.mem_orDefault, Environ.mem_sort, mem_collectEnv]
  have hlater : ∀ value, "HOME".toList ∉
      ((collectEnv source).sort.orDefault "TERM".toList value).keys ↔
      "HOME".toList ∉ source.keys := by
    intro value
    rw [← mem_keys_collectEnv source hhome, ← hkeys]
    simp only [Environ.keys, List.mem_map, Prod.exists, Environ.mem_orDefault]
    grind
  rw [hlater, hkeys, mem_keys_collectEnv source hterm]
  simp only [Prod.mk.injEq]
  grind

/-- Whether a variable of the source can matter: an allowlisted name, or one with the forward
prefix. -/
def Relevant (key : Text) : Prop := allowlisted key = true ∨ envForwardPrefix <+: key

theorem collectEnv_perm {source source' : Environ} (h : source.Perm source') :
    (collectEnv source).Perm (collectEnv source') :=
  (h.filter _).append (h.filterMap _)

/-- Two environments that agree on what is relevant are collected into the same variables. -/
theorem collectEnv_perm_of_agree {source source' : Environ} (h : source.keys.Nodup)
    (h' : source'.keys.Nodup)
    (hagree : ∀ k v, Relevant k → ((k, v) ∈ source ↔ (k, v) ∈ source')) :
    (collectEnv source).Perm (collectEnv source') := by
  refine (List.perm_ext_iff_of_nodup ?_ ?_).mpr ?_
  · exact (keys_collectEnv_nodup h).of_map
  · exact (keys_collectEnv_nodup h').of_map
  · intro (k, v)
    rw [mem_collectEnv, mem_collectEnv]
    have hforward : (envForwardPrefix ++ k, v) ∈ source ↔
        (envForwardPrefix ++ k, v) ∈ source' := hagree _ v (.inr (List.prefix_append _ _))
    have hown : allowlisted k = true → ((k, v) ∈ source ↔ (k, v) ∈ source') :=
      fun hk => hagree k v (.inl hk)
    grind

/-- The child's environment is the allowlisted part of the source, the variables forwarded by
name, and the two defaults: each name once, in an order of its own, and nothing else of the
source shows in it. -/
theorem childEnv_exact (source : Environ) (home : Text) (sizeTerm : Option Text)
    (h : source.keys.Nodup) :
    (childEnv source home sizeTerm).keys.Nodup ∧
    (∀ k v, (k, v) ∈ childEnv source home sizeTerm ↔
      ((k, v) ∈ source ∧ allowlisted k = true) ∨
      ((envForwardPrefix ++ k, v) ∈ source ∧ k ≠ [] ∧ allowlisted k = false) ∨
      (k = "TERM".toList ∧ k ∉ source.keys ∧ v = sizeTerm.getD defaultTerm) ∨
      (k = "HOME".toList ∧ k ∉ source.keys ∧ v = home)) ∧
    (∀ source' : Environ, source'.Perm source →
      childEnv source' home sizeTerm = childEnv source home sizeTerm) ∧
    (∀ source' : Environ, source'.keys.Nodup →
      (∀ k v, Relevant k → ((k, v) ∈ source' ↔ (k, v) ∈ source)) →
      childEnv source' home sizeTerm = childEnv source home sizeTerm) := by
  refine ⟨keys_childEnv_nodup h home sizeTerm, mem_childEnv h home sizeTerm, ?_, ?_⟩
  · intro source' hperm
    rw [childEnv, childEnv, Environ.sort_eq_of_perm (collectEnv_perm hperm)]
  · intro source' h' hagree
    rw [childEnv, childEnv, Environ.sort_eq_of_perm (collectEnv_perm_of_agree h' h hagree)]

/-- A runtime that inherits a credential, a path and one forward hands over the last two. -/
theorem childEnv_exact_sample :
    (childEnv [("PATH".toList, "/bin".toList), ("PTY_FORWARD_A".toList, "1".toList),
      ("B".toList, "2".toList)] "/w".toList none).keys.Nodup ∧
    ("A".toList, "1".toList) ∈ childEnv [("PATH".toList, "/bin".toList),
      ("PTY_FORWARD_A".toList, "1".toList), ("B".toList, "2".toList)] "/w".toList none := by
  have h := childEnv_exact [("PATH".toList, "/bin".toList), ("PTY_FORWARD_A".toList, "1".toList),
    ("B".toList, "2".toList)] "/w".toList none (by decide)
  exact ⟨h.1, (h.2.1 "A".toList "1".toList).mpr (.inr (.inl (by decide)))⟩

end OpenabPty
