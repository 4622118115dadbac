import Mathlib.Data.List.Dedup
import Mathlib.Data.List.Induction
import OpenabPty.Core.Paths

/-!
# A tree of files

What a disk holds at each place: a directory, a file with its contents and mode, or a symbolic
link with the path it stands for. Below the root there is nothing but in directories. Two ways to
change a tree keep this: `put` places something that was not a directory, `prune` removes a place
with everything below it. Each has one equation for what is found afterwards.
-/

namespace Paths

/-- What is at a place. -/
inductive Node (ν β : Type) where
  | dir
  | file (contents : β) (mode : Nat)
  | link (target : Path ν)
  deriving DecidableEq, Repr

/-- `FileType::is_file`. -/
def Node.isFile {ν β : Type} : Node ν β → Bool
  | .file _ _ => true
  | _ => false

/-- The first entry for a place counts. -/
def find {ν β : Type} [DecidableEq ν] (nodes : List (Loc ν × Node ν β)) (l : Loc ν) :
    Option (Node ν β) :=
  (nodes.find? fun entry => entry.1 = l).map (·.2)

section Find

variable {ν β : Type} [DecidableEq ν] {nodes : List (Loc ν × Node ν β)}

theorem find_cons (entry : Loc ν × Node ν β) (l : Loc ν) :
    find (entry :: nodes) l = if entry.1 = l then some entry.2 else find nodes l := by
  rw [find, List.find?_cons]
  by_cases h : entry.1 = l <;> simp [h, find]

theorem find_filter (keep : Loc ν → Bool) (l : Loc ν) :
    find (nodes.filter fun entry => keep entry.1) l =
      if keep l = true then find nodes l else none := by
  induction nodes with
  | nil => simp [find]
  | cons entry nodes ih =>
    rw [List.filter_cons]
    by_cases hkeep : keep entry.1 = true
    · rw [if_pos hkeep, find_cons, find_cons, ih]
      by_cases hl : entry.1 = l
      · subst hl
        simp [hkeep]
      · simp [hl]
    · rw [if_neg hkeep, ih, find_cons]
      by_cases hl : entry.1 = l
      · subst hl
        simp [hkeep]
      · simp [hl]

theorem find_ne_none_iff {l : Loc ν} : find nodes l ≠ none ↔ ∃ node, (l, node) ∈ nodes := by
  induction nodes with
  | nil => simp [find]
  | cons entry nodes ih =>
    rw [find_cons]
    by_cases h : entry.1 = l
    · subst h
      simp only [if_true, ne_eq, reduceCtorEq, not_false_eq_true, true_iff]
      exact ⟨entry.2, List.mem_cons_self⟩
    · rw [if_neg h, ih]
      constructor
      · rintro ⟨node, hmem⟩
        exact ⟨node, List.mem_cons_of_mem _ hmem⟩
      · rintro ⟨node, hmem⟩
        rcases List.mem_cons.mp hmem with rfl | hmem
        · exact absurd rfl h
        · exact ⟨node, hmem⟩

end Find

/-- A tree: the root is a directory, and what there is is in a directory. -/
structure Tree (ν β : Type) [DecidableEq ν] where
  nodes : List (Loc ν × Node ν β)
  root : find nodes [] = some .dir
  closed : ∀ l n, find nodes (l ++ [n]) ≠ none → find nodes l = some .dir

namespace Tree

variable {ν β : Type} [DecidableEq ν]

/-- What is at a place, without following a link there. -/
def node (t : Tree ν β) (l : Loc ν) : Option (Node ν β) := find t.nodes l

/-- A disk with nothing on it. -/
def empty : Tree ν β where
  nodes := [([], .dir)]
  root := by rw [find_cons, if_pos rfl]
  closed l n h := by
    rw [find_cons, if_neg (by simp)] at h
    exact absurd rfl h

@[simp] theorem node_root (t : Tree ν β) : t.node [] = some .dir := t.root

variable {t : Tree ν β}

theorem mem_of_node {l : Loc ν} {node : Node ν β} (h : t.node l = some node) :
    (l, node) ∈ t.nodes := by
  obtain ⟨entry, hfind, rfl⟩ := Option.map_eq_some_iff.mp h
  have hl : entry.1 = l := by simpa using List.find?_some hfind
  rw [← hl]
  exact List.mem_of_find?_eq_some hfind

theorem node_parent {l : Loc ν} {n : ν} (h : t.node (l ++ [n]) ≠ none) : t.node l = some .dir :=
  t.closed l n h

/-- What there is is in a directory, the root in itself. -/
theorem node_dropLast {l : Loc ν} (h : t.node l ≠ none) : t.node l.dropLast = some .dir := by
  rcases List.eq_nil_or_concat l with rfl | ⟨l, n, rfl⟩
  · exact t.root
  · rw [List.concat_eq_append] at h ⊢
    rw [List.dropLast_concat]
    exact node_parent h

/-- Above what there is, there are directories only. -/
theorem node_above {l l' : Loc ν} (h : t.node l' ≠ none) (hpre : l <+: l') (hne : l ≠ l') :
    t.node l = some .dir := by
  obtain ⟨rest, rfl⟩ := hpre
  induction rest using List.reverseRecOn with
  | nil => exact absurd (List.append_nil l).symm hne
  | append_singleton rest n ih =>
    rw [← List.append_assoc] at h
    have hdir := node_parent h
    by_cases hrest : rest = []
    · subst hrest
      rwa [List.append_nil] at hdir
    · refine ih ?_ ?_
      · rw [hdir]
        exact Option.some_ne_none _
      · intro heq
        exact hrest (List.self_eq_append_right.mp heq)

/-- Below what is not a directory there is nothing. -/
theorem node_eq_none_below {l l' : Loc ν} (hpre : l <+: l') (hne : l ≠ l')
    (h : t.node l ≠ some .dir) : t.node l' = none := by
  by_contra hsome
  exact h (node_above hsome hpre hne)

/-- `Path::is_dir`, without following a link. -/
def isDir (t : Tree ν β) (l : Loc ν) : Bool :=
  match t.node l with
  | some .dir => true
  | _ => false

theorem isDir_iff {l : Loc ν} : t.isDir l = true ↔ t.node l = some .dir := by
  unfold isDir
  split
  · rename_i h
    exact iff_of_true rfl h
  · rename_i h
    exact iff_of_false Bool.false_ne_true h

/-- The names in a directory. -/
def children (t : Tree ν β) (l : Loc ν) : List ν :=
  (t.nodes.filterMap fun entry =>
    if entry.1.dropLast = l then entry.1.getLast? else none).dedup

theorem nodup_children (l : Loc ν) : (t.children l).Nodup := List.nodup_dedup _

theorem mem_children_iff {l : Loc ν} {n : ν} : n ∈ t.children l ↔ t.node (l ++ [n]) ≠ none := by
  rw [children, List.mem_dedup, List.mem_filterMap, node, find_ne_none_iff]
  constructor
  · rintro ⟨⟨k, node⟩, hmem, hname⟩
    dsimp only at hname
    split at hname
    · rename_i hdrop
      have hk : k = l ++ [n] := by
        rw [← hdrop]
        exact (List.dropLast_append_getLast? n hname).symm
      exact ⟨node, hk ▸ hmem⟩
    · cases hname
  · rintro ⟨node, hmem⟩
    refine ⟨_, hmem, ?_⟩
    simp

/-- Places `new` at `l`: nothing changes unless `l` is in a directory and is none itself. -/
def put (t : Tree ν β) (l : Loc ν) (new : Node ν β) : Tree ν β :=
  if h : t.isDir l.dropLast = true ∧ t.isDir l = false then
    { nodes := (l, new) :: t.nodes
      root := by
        rw [find_cons]
        split
        · rename_i hl
          dsimp only at hl
          subst hl
          exact absurd (isDir_iff.mpr t.root) (Bool.eq_false_iff.mp h.2)
        · exact t.root
      closed := by
        intro m n hm
        have hnot : l ≠ m := by
          rintro rfl
          rw [find_cons, if_neg (by simp)] at hm
          exact Bool.eq_false_iff.mp h.2 (isDir_iff.mpr (t.closed l n hm))
        rw [find_cons, if_neg hnot]
        rw [find_cons] at hm
        split at hm
        · rename_i hl
          dsimp only at hl
          subst hl
          rw [List.dropLast_concat] at h
          exact isDir_iff.mp h.1
        · exact t.closed m n hm }
  else t

theorem node_put {l : Loc ν} {new : Node ν β} (hdir : t.node l.dropLast = some .dir)
    (hl : t.node l ≠ some .dir) (m : Loc ν) :
    (t.put l new).node m = if l = m then some new else t.node m := by
  have hfile : t.isDir l = false := Bool.eq_false_iff.mpr fun h => hl (isDir_iff.mp h)
  rw [put, dif_pos ⟨isDir_iff.mpr hdir, hfile⟩]
  exact find_cons _ _

/-- A directory stays. -/
theorem put_of_dir {l : Loc ν} {new : Node ν β} (hdir : t.node l = some .dir) :
    t.put l new = t := by
  rw [put, dif_neg]
  rw [isDir_iff.mpr hdir]
  exact fun h => Bool.false_ne_true h.2.symm

/-- Removes what is at `l` and below it. The root stays. -/
def prune (t : Tree ν β) (l : Loc ν) : Tree ν β :=
  if h : l = [] then t else
    { nodes := t.nodes.filter fun entry => !l.isPrefixOf entry.1
      root := by
        rw [find_filter fun m => !l.isPrefixOf m, if_pos]
        · exact t.root
        · cases l with
          | nil => exact absurd rfl h
          | cons n l => rfl
      closed := by
        intro m n hm
        rw [find_filter fun m => !l.isPrefixOf m] at hm ⊢
        split at hm
        · rename_i hkeep
          rw [if_pos]
          · exact t.closed m n hm
          · rw [Bool.not_eq_true', Bool.eq_false_iff, ne_eq, List.isPrefixOf_iff_prefix]
              at hkeep ⊢
            exact fun hpre => hkeep (hpre.trans (List.prefix_append m [n]))
        · exact absurd rfl hm }

theorem node_prune {l : Loc ν} (h : l ≠ []) (m : Loc ν) :
    (t.prune l).node m = if l <+: m then none else t.node m := by
  rw [prune, dif_neg h]
  refine (find_filter (fun m => !l.isPrefixOf m) m).trans ?_
  by_cases hpre : l <+: m
  · rw [if_pos hpre, if_neg]
    rw [List.isPrefixOf_iff_prefix.mpr hpre]
    exact Bool.false_ne_true
  · rw [if_neg hpre, if_pos]
    · rfl
    · rw [Bool.eq_false_iff.mpr fun h => hpre (List.isPrefixOf_iff_prefix.mp h)]
      rfl

end Tree

end Paths
