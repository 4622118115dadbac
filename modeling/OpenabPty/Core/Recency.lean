import Mathlib.Data.List.Nodup

/-!
# Bounded tables that forget the least recently seen

A hash map as the list of its entries, in whatever order it iterates over them. A table that is
full makes room by forgetting an entry that it need not keep, and refuses a new key when it must
keep them all.
-/

namespace Recency

variable {κ ν τ : Type}

/-- `insert` of a value under a key. -/
def put [BEq κ] [DecidableEq κ] (entries : List (κ × ν)) (key : κ) (value : ν) : List (κ × ν) :=
  if (entries.lookup key).isSome then
    entries.map fun e => if e.1 = key then (key, value) else e
  else entries ++ [(key, value)]

/-- `remove`. -/
def remove [DecidableEq κ] (entries : List (κ × ν)) (key : κ) : List (κ × ν) :=
  entries.filter fun e => e.1 ≠ key

/-- `min_by_key`: the first of the least. -/
def leastBy [LT τ] [DecidableLT τ] (seen : ν → τ) : List (κ × ν) → Option (κ × ν)
  | [] => none
  | e :: rest =>
    match leastBy seen rest with
    | none => some e
    | some least => if seen least.2 < seen e.2 then some least else some e

/-- No key has two entries. -/
def Distinct (entries : List (κ × ν)) : Prop := (entries.map Prod.fst).Nodup

variable {entries entries' : List (κ × ν)} {key k : κ} {value v : ν}

theorem Distinct.filter (h : Distinct entries) (p : κ × ν → Bool) : Distinct (entries.filter p) :=
  h.sublist (List.filter_sublist.map Prod.fst)

/-! ## Looking up -/

section Lookup

variable [BEq κ] [LawfulBEq κ] [DecidableEq κ]

theorem lookup_cons {e : κ × ν} :
    (e :: entries).lookup k = if k = e.1 then some e.2 else entries.lookup k := by
  rw [List.lookup_cons]
  by_cases hk : k = e.1
  · rw [if_pos hk, beq_iff_eq.mpr hk]
  · rw [if_neg hk, beq_eq_false_iff_ne.mpr hk]

/-- The values under a key are replaced. -/
theorem lookup_replace :
    (entries.map fun e => if e.1 = key then (key, value) else e).lookup k =
      if k = key then (entries.lookup key).map fun _ => value else entries.lookup k := by
  induction entries with
  | nil => simp
  | cons e entries ih =>
    rw [List.map_cons, lookup_cons, lookup_cons, lookup_cons, ih]
    by_cases hkey : e.1 = key
    · by_cases hk : k = key
      · simp [hkey, hk]
      · simp [hkey, hk]
    · by_cases hk : k = key
      · subst hk
        have hne : ¬ k = e.1 := Ne.symm hkey
        simp [hkey, hne]
      · simp [hkey, hk]

theorem lookup_put :
    (put entries key value).lookup k = if k = key then some value else entries.lookup k := by
  unfold put
  by_cases hpresent : (entries.lookup key).isSome
  · obtain ⟨old, hold⟩ := Option.isSome_iff_exists.mp hpresent
    rw [if_pos hpresent, lookup_replace, hold]
    rfl
  · have hnone : entries.lookup key = none := Option.not_isSome_iff_eq_none.mp hpresent
    rw [if_neg hpresent, List.lookup_append, lookup_cons, List.lookup_nil]
    by_cases hk : k = key
    · simp [hk, hnone]
    · simp [hk]

theorem lookup_remove :
    (remove entries key).lookup k = if k = key then none else entries.lookup k := by
  unfold remove
  induction entries with
  | nil => simp
  | cons e entries ih =>
    by_cases hkey : e.1 = key
    · rw [List.filter_cons_of_neg (by simpa using hkey), ih, lookup_cons]
      by_cases hk : k = key
      · simp [hk]
      · simp [hk, hkey]
    · rw [List.filter_cons_of_pos (by simpa using hkey), lookup_cons, lookup_cons, ih]
      by_cases hk : k = key
      · subst hk
        simp [Ne.symm hkey]
      · simp [hk]

/-- In a table without double keys every entry is the one its key finds. -/
theorem Distinct.lookup_iff (h : Distinct entries) :
    entries.lookup k = some v ↔ (k, v) ∈ entries := by
  induction entries with
  | nil => simp
  | cons e entries ih =>
    obtain ⟨hnew, hrest⟩ := List.nodup_cons.mp h
    rw [lookup_cons, List.mem_cons]
    by_cases hk : k = e.1
    · subst hk
      have hlater : (e.1, v) ∉ entries := fun hmem =>
        hnew (List.mem_map.mpr ⟨(e.1, v), hmem, rfl⟩)
      simp [hlater, Prod.ext_iff, eq_comm]
    · simp [hk, ih hrest, Prod.ext_iff]

theorem Distinct.lookup_filter (h : Distinct entries) (p : ν → Bool) :
    (entries.filter fun e => p e.2).lookup k = (entries.lookup k).filter p := by
  have hfiltered : Distinct (entries.filter fun e => p e.2) := h.filter _
  ext v
  simp only [hfiltered.lookup_iff, List.mem_filter, Option.filter_eq_some_iff, h.lookup_iff]

/-- The order of the iteration does not matter. -/
theorem Distinct.lookup_perm (h : Distinct entries) (hperm : entries'.Perm entries) :
    Distinct entries' ∧ entries'.lookup k = entries.lookup k := by
  have h' : Distinct entries' := (hperm.map Prod.fst).nodup_iff.mpr h
  refine ⟨h', ?_⟩
  ext v
  rw [h'.lookup_iff, h.lookup_iff, hperm.mem_iff]

theorem Distinct.put (h : Distinct entries) : Distinct (put entries key value) := by
  unfold Recency.put
  split
  · have hkeys : (entries.map fun e => if e.1 = key then (key, value) else e).map Prod.fst =
        entries.map Prod.fst := by
      rw [List.map_map]
      refine List.map_congr_left fun e _ => ?_
      by_cases hkey : e.1 = key
      · simp [hkey]
      · simp [hkey]
    rwa [Distinct, hkeys]
  · rename_i habsent
    rw [Distinct, List.map_append]
    refine List.Nodup.append h (by simp) ?_
    intro k hk hkey
    obtain ⟨e, he, rfl⟩ := List.mem_map.mp hk
    obtain rfl := List.mem_singleton.mp hkey
    exact habsent (by rw [h.lookup_iff.mpr he]; rfl)

omit [LawfulBEq κ] in
theorem length_put : (put entries key value).length =
    if (entries.lookup key).isSome then entries.length else entries.length + 1 := by
  unfold put
  split
  · exact List.length_map _
  · exact List.length_append

end Lookup

theorem Distinct.remove [DecidableEq κ] (h : Distinct entries) : Distinct (remove entries key) :=
  h.filter _

theorem length_remove_lt [DecidableEq κ] (h : (key, v) ∈ entries) :
    (remove entries key).length < entries.length :=
  List.length_filter_lt_length_iff_exists.mpr ⟨_, h, by simp⟩

/-! ## Making room -/

section Room

variable [LT τ] [DecidableLT τ] {seen : ν → τ}

theorem leastBy_eq_none_iff : leastBy seen entries = none ↔ entries = [] := by
  cases entries with
  | nil => simp [leastBy]
  | cons e entries =>
    unfold leastBy
    cases leastBy seen entries with
    | none => simp
    | some least =>
      by_cases hlt : seen least.2 < seen e.2
      · simp [hlt]
      · simp [hlt]

theorem mem_of_leastBy {e : κ × ν} (h : leastBy seen entries = some e) : e ∈ entries := by
  induction entries with
  | nil => simp [leastBy] at h
  | cons e' entries ih =>
    unfold leastBy at h
    split at h
    · simp_all
    · rename_i least hleast
      split_ifs at h with hlt
      · exact List.mem_cons_of_mem _ (ih (hleast.trans h))
      · simp_all

/-- What is left after something was forgotten that need not be kept. -/
structure Roomier [BEq κ] (keep : ν → Bool) (entries entries' : List (κ × ν)) : Prop where
  distinct : Distinct entries'
  length : entries'.length ≤ entries.length
  lookup : ∀ k, entries'.lookup k = entries.lookup k ∨
    entries'.lookup k = none ∧ ∃ v, entries.lookup k = some v ∧ keep v = false

variable [BEq κ] {keep : ν → Bool}

theorem Roomier.refl (h : Distinct entries) : Roomier keep entries entries :=
  ⟨h, Nat.le_refl _, fun _ => .inl rfl⟩

/-- Forgetting the least recently seen of those that need not be kept. -/
theorem Roomier.forget [LawfulBEq κ] [DecidableEq κ] (h : Distinct entries) (keep : ν → Bool)
    {e : κ × ν} (hleast : leastBy seen (entries.filter fun e => !keep e.2) = some e) :
    Roomier keep entries (remove entries e.1) ∧ (remove entries e.1).length < entries.length := by
  obtain ⟨hmem, hforgets⟩ := List.mem_filter.mp (mem_of_leastBy hleast)
  have hlt : (remove entries e.1).length < entries.length := length_remove_lt hmem
  refine ⟨⟨h.remove, Nat.le_of_lt hlt, fun k => ?_⟩, hlt⟩
  rw [lookup_remove]
  by_cases hk : k = e.1
  · rw [if_pos hk, hk]
    exact .inr ⟨rfl, e.2, h.lookup_iff.mpr hmem, by simpa using hforgets⟩
  · rw [if_neg hk]
    exact .inl rfl

end Room

end Recency
