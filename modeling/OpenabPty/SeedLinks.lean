import OpenabPty.Seed

/-!
# The links of an archive

`symlink_escapes` compares texts. The directory that an archive is unpacked into has a random
name, so no archive names it; for such an archive the comparison says exactly that the target is
relative and never climbs above the root of the archive. Then it means the same below the target
directory, to which the link is moved afterwards, and a walk that meets only links which go up
first stays below that directory.
-/

namespace OpenabPty

open Paths

namespace Seed

/-- An absolute path. -/
structure Rooted (p : Path Name) : Prop where
  head : isAbsolute p = true
  tail : .rootDir ∉ p.tail

theorem Rooted.of_absolute (l : Loc Name) : Rooted (Paths.absolute l) where
  head := rfl
  tail := by
    intro h
    obtain ⟨name, -, hname⟩ := List.mem_map.mp h
    cases hname

theorem Rooted.eq_cons {p : Path Name} (h : Rooted p) :
    ∃ rest, p = .rootDir :: rest ∧ .rootDir ∉ rest := by
  obtain ⟨habs, htail⟩ := h
  cases p with
  | nil => cases habs
  | cons c rest =>
    cases c with
    | rootDir => exact ⟨rest, rfl, htail⟩
    | curDir | parentDir | normal name => cases habs

theorem Rooted.join {p q : Path Name} (h : Rooted p) (hq : .rootDir ∉ q) :
    Rooted (Paths.join p q) := by
  obtain ⟨rest, rfl, hrest⟩ := h.eq_cons
  have hrel : isAbsolute q = false := by
    cases q with
    | nil => rfl
    | cons c q =>
      cases c with
      | rootDir => exact absurd List.mem_cons_self hq
      | curDir | parentDir | normal name => rfl
  rw [Paths.join, if_neg (by simp [hrel])]
  refine ⟨rfl, ?_⟩
  rw [List.cons_append, List.tail_cons, List.mem_append]
  rintro (h | h)
  · exact hrest h
  · exact hq (List.mem_filter.mp h).1

theorem Rooted.name {p : Path Name} (h : Rooted p) (n : Name) : Rooted (p ++ [.normal n]) := by
  rw [← join_name]
  exact h.join (by simp)

/-- `normalize_path` of what is left of an absolute path. -/
theorem foldl_normalizeStep {p : Path Name} (h : .rootDir ∉ p) (cur : Loc Name) :
    p.foldl normalizeStep (absolute cur) = absolute (lex cur p) := by
  induction p generalizing cur with
  | nil => rfl
  | cons c p ih =>
    have hrest : .rootDir ∉ p := fun hmem => h (List.mem_cons_of_mem c hmem)
    rw [List.foldl_cons]
    cases c with
    | rootDir => exact absurd List.mem_cons_self h
    | curDir => exact ih hrest cur
    | normal name =>
      have hstep : normalizeStep (absolute cur) (.normal name) = absolute (cur ++ [name]) :=
        (absolute_append cur [name]).symm
      rw [hstep]
      exact ih hrest _
    | parentDir =>
      have hstep : normalizeStep (absolute cur) .parentDir = absolute cur.dropLast := by
        rcases List.eq_nil_or_concat cur with rfl | ⟨cur, name, rfl⟩
        · rfl
        · rw [List.concat_eq_append, List.dropLast_concat, absolute_append, names_cons, names_nil,
            normalizeStep, List.getLast?_concat]
          exact List.dropLast_concat
      rw [hstep]
      exact ih hrest _

/-- **`normalize_path` of an absolute path** is the place that its text leads to. -/
theorem Rooted.normalizePath {p : Path Name} (h : Rooted p) :
    Seed.normalizePath p = Paths.absolute (lex [] p) := by
  obtain ⟨rest, rfl, hrest⟩ := h.eq_cons
  exact foldl_normalizeStep hrest []

/-- `starts_with` on normalized paths. -/
theorem Rooted.startsWith_iff {p q : Path Name} (hp : Rooted p) (hq : Rooted q) :
    startsWith (Seed.normalizePath p) (Seed.normalizePath q) = true ↔ lex [] q <+: lex [] p := by
  rw [startsWith, hp.normalizePath, hq.normalizePath, List.isPrefixOf_iff_prefix,
    absolute_prefix_iff]

section Escapes

variable {root linkPath up linkTarget : Path Name} {base : Loc Name} {temp : Name}

theorem not_mem_of_relative {p : Path Name} (habs : isAbsolute p = false)
    (htail : .rootDir ∉ p.tail) : .rootDir ∉ p := by
  cases p with
  | nil => exact List.not_mem_nil
  | cons c rest =>
    cases c with
    | rootDir => cases habs
    | curDir | parentDir | normal name => simpa using htail

/-- What `symlink_escapes` lets through, for a target that does not name the directory that the
archive is unpacked into. -/
theorem symlinkEscapes_eq_false_iff (hroot : Rooted root) (hlex : lex [] root = base ++ [temp])
    (hparent : (parent linkPath).getD root = up) (hup : Rooted up)
    (htail : .rootDir ∉ linkTarget.tail) (hfresh : .normal temp ∉ linkTarget) :
    symlinkEscapes root linkPath linkTarget = false ↔ isAbsolute linkTarget = false ∧
      ∃ ds, lex [] up = base ++ [temp] ++ ds ∧ Stays ds.length linkTarget = true := by
  rw [symlinkEscapes]
  cases habs : isAbsolute linkTarget with
  | true => simp
  | false =>
    have hrel := not_mem_of_relative habs htail
    have hne : up ≠ [] := by
      obtain ⟨rest, rfl, -⟩ := hup.eq_cons
      exact List.cons_ne_nil _ _
    simp only [Bool.false_eq_true, if_false, hparent, Bool.not_eq_false', true_and]
    rw [(hup.join hrel).startsWith_iff hroot, lex_join hne, hlex]
    constructor
    · intro h
      by_cases hpre : base ++ [temp] <+: lex [] up
      · obtain ⟨ds, hds⟩ := hpre
        rw [← hds] at h
        exact ⟨ds, hds.symm, (prefix_lex_iff_stays hrel hfresh).mp h⟩
      · exact absurd h (not_prefix_lex hfresh hpre)
    · rintro ⟨ds, hds, hstays⟩
      rw [hds]
      exact (prefix_lex_iff_stays hrel hfresh).mpr hstays

/-- **A link is let through exactly if it can be moved**: its target is relative, and from the
same depth below any directory it leads to the same place below that directory. -/
theorem symlinkEscapes_iff_movable (hroot : Rooted root) (hlex : lex [] root = base ++ [temp])
    (hparent : (parent linkPath).getD root = up) (hup : Rooted up)
    (htail : .rootDir ∉ linkTarget.tail) (hfresh : .normal temp ∉ linkTarget) :
    symlinkEscapes root linkPath linkTarget = false ↔ isAbsolute linkTarget = false ∧
      ∃ ds place, lex [] up = base ++ [temp] ++ ds ∧
        ∀ dir : Loc Name, lex (dir ++ ds) linkTarget = dir ++ place := by
  rw [symlinkEscapes_eq_false_iff hroot hlex hparent hup htail hfresh]
  refine and_congr_right fun habs => exists_congr fun ds => ?_
  constructor
  · rintro ⟨hds, hstays⟩
    exact ⟨lex ds linkTarget, hds, lex_of_stays hstays⟩
  · rintro ⟨place, hds, hplace⟩
    have hbelow : base ++ [temp] <+: lex (base ++ [temp] ++ ds) linkTarget := by
      rw [hplace]
      exact List.prefix_append _ _
    exact ⟨hds, (prefix_lex_iff_stays (not_mem_of_relative habs htail) hfresh).mp hbelow⟩

/-- A link to what is beside the directory that it is in. -/
theorem symlinkEscapes_iff_movable_sibling :
    symlinkEscapes (absolute [[0], [9]]) (absolute [[0], [9], [1], [3]])
      [.parentDir, .normal [5]] = false := by
  have hplace : ∀ dir : Loc Name, lex (dir ++ [[1]]) [.parentDir, .normal [5]] = dir ++ [[5]] := by
    intro dir
    rw [lex, List.dropLast_concat]
    rfl
  have hparent : (parent (absolute [[0], [9], [1], [3]])).getD (absolute [[0], [9]]) =
      absolute ([[0], [9], [1]] : Loc Name) := rfl
  exact (symlinkEscapes_iff_movable (Rooted.of_absolute _) (lex_absolute [] ([[0]] ++ [[9]]))
    hparent (Rooted.of_absolute _) (by decide) (by decide)).mpr
      ⟨rfl, [[1]], [[5]], rfl, hplace⟩

end Escapes

/-- The links below `target` came out of an archive: each is where it was unpacked and was let
through, goes up first, and does not name the directory that the archive was unpacked into. -/
def FromArchive (t : Tree Name Contents) (target base : Loc Name) (temp : Name) : Prop :=
  ∀ (ds : Loc Name) (name : Name) (linkTarget : Path Name),
    t.node (target ++ ds ++ [name]) = some (.link linkTarget) →
      symlinkEscapes (absolute (base ++ [temp])) (absolute (base ++ [temp] ++ ds ++ [name]))
        linkTarget = false ∧
      .rootDir ∉ linkTarget.tail ∧ .normal temp ∉ linkTarget ∧ UpsFirst linkTarget = true

theorem FromArchive.enclosed {t : Tree Name Contents} {target base : Loc Name} {temp : Name}
    (h : FromArchive t target base temp) : Enclosed t target := by
  intro ds name linkTarget hnode
  obtain ⟨haccepted, htail, hfresh, hups⟩ := h ds name linkTarget hnode
  have hparent : (parent (absolute (base ++ [temp] ++ ds ++ [name]))).getD
      (absolute (base ++ [temp])) = absolute (base ++ [temp] ++ ds) := by
    rw [absolute_append _ [name], parent, names_cons, names_nil, List.getLast?_concat]
    exact List.dropLast_concat
  obtain ⟨-, ds', hds, hstays⟩ := (symlinkEscapes_eq_false_iff (Rooted.of_absolute _)
    (lex_absolute _ _) hparent (Rooted.of_absolute _) htail hfresh).mp haccepted
  rw [lex_absolute] at hds
  obtain rfl := List.append_cancel_left hds
  exact ⟨hstays, hups⟩

/-- **No walk leaves the workspace** through links that came out of an archive. -/
theorem FromArchive.walk_stays {t : Tree Name Contents} {target base ds place : Loc Name} {temp : Name}
    (h : FromArchive t target base temp) {path : Path Name} {last : Bool} {links : Nat}
    (hstays : Stays ds.length path = true) (hups : UpsFirst path = true)
    (hwalk : Paths.walk t last links (target ++ ds) path = .ok place) : target <+: place :=
  h.enclosed.walk hstays hups hwalk

/-- A workspace with a link into a directory beside it. -/
def linked : Tree Name Contents :=
  (((Tree.empty.put [[0]] .dir).put [[0], [1]] .dir).put [[0], [2]] (.link [.normal [1]])).put
    [[0], [1], [3]] (.file [7] 0o644)

theorem fromArchive_linked : FromArchive linked [[0]] [[0]] [9] := by
  intro ds name linkTarget hnode
  have hmem := Tree.mem_of_node hnode
  have hnodes : linked.nodes = [([[0], [1], [3]], .file [7] 0o644),
    ([[0], [2]], .link [.normal [1]]), ([[0], [1]], .dir), ([[0]], .dir), ([], .dir)] := rfl
  simp only [hnodes, List.mem_cons, Prod.mk.injEq, reduceCtorEq, and_false, false_or, or_false,
    Node.link.injEq, List.not_mem_nil] at hmem
  obtain ⟨hplace, rfl⟩ := hmem
  have hlen := congrArg List.length hplace
  obtain rfl : ds = [] := by
    simp only [List.length_append, List.length_cons, List.length_nil] at hlen
    exact List.length_eq_zero_iff.mp (by omega)
  obtain rfl : name = [2] := by simpa using hplace
  decide

theorem FromArchive.walk_stays_linked : [[0]] <+: ([[0], [1], [3]] : Loc Name) := by
  have hwalk : Paths.walk linked true maxLinks ([[0]] ++ []) (names [[2], [3]]) =
      .ok [[0], [1], [3]] := rfl
  exact FromArchive.walk_stays fromArchive_linked rfl rfl hwalk

/-- Two links that are let through, the second of which leaves the workspace through the first:
its `..` comes after a name. -/
def detour : Tree Name Contents :=
  (((((Tree.empty.put [[0]] .dir).put [[0], [1]] .dir).put [[0], [1], [2]] .dir).put
    [[0], [1], [2], [3]] (.link [.parentDir])).put
    [[0], [4]] (.link [.normal [1], .normal [2], .normal [3], .parentDir, .parentDir]))

example :
    symlinkEscapes (absolute [[0], [9]]) (absolute [[0], [9], [1], [2], [3]]) [.parentDir] = false ∧
      symlinkEscapes (absolute [[0], [9]]) (absolute [[0], [9], [4]])
        [.normal [1], .normal [2], .normal [3], .parentDir, .parentDir] = false ∧
      walk detour true maxLinks [[0]] (names [[4]]) = .ok [] := by
  exact ⟨by decide, by decide, rfl⟩

end Seed

end OpenabPty
