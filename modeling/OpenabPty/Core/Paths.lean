import Mathlib.Data.List.Basic

/-!
# Paths and where they lead by their text alone

A path is the list of its components, a location the list of the names below the root. What a
path means by its text alone (`lex`) takes a name one level down and `..` one level up, whatever
is on the disk. A path that never climbs higher than it has descended (`Stays`) means the same
below every directory.
-/

namespace Paths

variable {ν : Type}

/-- `std::path::Component`. -/
inductive Component (ν : Type) where
  | rootDir
  | curDir
  | parentDir
  | normal (name : ν)
  deriving DecidableEq, Repr

/-- A path is the list of its components. -/
abbrev Path (ν : Type) := List (Component ν)

/-- A place on the disk: the names from the root to it. -/
abbrev Loc (ν : Type) := List ν

/-- The path of names. -/
def names (l : Loc ν) : Path ν := l.map .normal

/-- The absolute path of a place. -/
def absolute (l : Loc ν) : Path ν := .rootDir :: names l

@[simp] theorem names_nil : names ([] : Loc ν) = [] := rfl

@[simp] theorem names_cons (n : ν) (l : Loc ν) : names (n :: l) = .normal n :: names l := rfl

@[simp] theorem names_append (l l' : Loc ν) : names (l ++ l') = names l ++ names l' :=
  List.map_append

theorem absolute_append (l l' : Loc ν) : absolute (l ++ l') = absolute l ++ names l' := by
  rw [absolute, names_append]
  rfl

theorem names_injective {l l' : Loc ν} (h : names l = names l') : l = l' :=
  List.map_injective_iff.mpr (fun _ _ h => Component.normal.inj h) h

/-- The absolute path of one place is a beginning of another's exactly when the place is. -/
theorem absolute_prefix_iff {l l' : Loc ν} : absolute l <+: absolute l' ↔ l <+: l' := by
  constructor
  · rintro ⟨rest, h⟩
    have hnames : names l ++ rest = names l' := (List.cons.inj h).2
    obtain ⟨m, rfl⟩ : ∃ m, rest = names m := by
      obtain ⟨a, b, rfl, -, hb⟩ := List.map_eq_append_iff.mp hnames.symm
      exact ⟨b, hb.symm⟩
    exact ⟨m, names_injective ((names_append l m).trans hnames)⟩
  · rintro ⟨m, rfl⟩
    exact ⟨names m, (absolute_append l m).symm⟩

/-- `Path::is_absolute`. -/
def isAbsolute (p : Path ν) : Bool :=
  match p with
  | .rootDir :: _ => true
  | _ => false

/-- `Path::join`: an absolute path takes the place of what it is joined to. A `.` is a component
at the start of a path only. -/
def join (p q : Path ν) : Path ν :=
  if isAbsolute q ∨ p = [] then q
  else p ++ q.filter fun c => match c with
    | .curDir => false
    | _ => true

theorem join_name (p : Path ν) (n : ν) : join p [.normal n] = p ++ [.normal n] := by
  cases p with
  | nil => rfl
  | cons c p => rfl

/-- `Path::parent`. -/
def parent (p : Path ν) : Option (Path ν) :=
  match p.getLast? with
  | none => none
  | some .rootDir => none
  | some _ => some p.dropLast

/-! ### The text of a path -/

/-- Where a path leads by its text, from `cur`. -/
def lex : Loc ν → Path ν → Loc ν
  | cur, [] => cur
  | _, .rootDir :: p => lex [] p
  | cur, .curDir :: p => lex cur p
  | cur, .parentDir :: p => lex cur.dropLast p
  | cur, .normal name :: p => lex (cur ++ [name]) p

theorem lex_append (cur : Loc ν) (p q : Path ν) : lex cur (p ++ q) = lex (lex cur p) q := by
  induction p generalizing cur with
  | nil => rfl
  | cons c p ih => cases c <;> exact ih _

@[simp] theorem lex_names (cur l : Loc ν) : lex cur (names l) = cur ++ l := by
  induction l generalizing cur with
  | nil => exact (List.append_nil cur).symm
  | cons n l ih =>
    rw [names_cons, lex, ih, List.append_assoc]
    rfl

@[simp] theorem lex_absolute (cur l : Loc ν) : lex cur (absolute l) = l := by
  rw [absolute, lex, lex_names]
  rfl

/-- `.` leads nowhere. -/
theorem lex_filter_curDir (cur : Loc ν) (p : Path ν) :
    lex cur (p.filter fun c => match c with
      | .curDir => false
      | _ => true) = lex cur p := by
  induction p generalizing cur with
  | nil => rfl
  | cons c p ih => cases c <;> exact ih _

theorem lex_join {cur : Loc ν} {p : Path ν} (hp : p ≠ []) (q : Path ν) :
    lex cur (join p q) = lex (lex cur p) q := by
  rw [join]
  split
  · rename_i h
    have habs : isAbsolute q = true := h.resolve_right hp
    cases q with
    | nil => cases habs
    | cons c q =>
      cases c with
      | rootDir => rfl
      | curDir | parentDir | normal name => cases habs
  · rw [lex_append, lex_filter_curDir]

/-- Whether a path, from `depth` levels below a directory, never climbs above that directory. -/
def Stays : Nat → Path ν → Bool
  | _, [] => true
  | _, .rootDir :: _ => false
  | depth, .curDir :: p => Stays depth p
  | 0, .parentDir :: _ => false
  | depth + 1, .parentDir :: p => Stays depth p
  | depth, .normal _ :: p => Stays (depth + 1) p

/-- **A path that stays means the same below every directory.** -/
theorem lex_of_stays {p : Path ν} {ds : Loc ν} (h : Stays ds.length p = true) (root : Loc ν) :
    lex (root ++ ds) p = root ++ lex ds p := by
  induction p generalizing ds with
  | nil => rfl
  | cons c p ih =>
    cases c with
    | rootDir => cases hn : ds.length <;> rw [hn] at h <;> cases h
    | curDir =>
      rw [lex, lex]
      exact ih (by rwa [Stays] at h)
    | normal name =>
      rw [lex, lex, List.append_assoc]
      refine ih ?_
      rw [List.length_append]
      rwa [Stays] at h
    | parentDir =>
      rw [lex, lex]
      rcases List.eq_nil_or_concat ds with rfl | ⟨ds, d, rfl⟩
      · cases h
      · rw [List.concat_eq_append] at h ⊢
        rw [← List.append_assoc, List.dropLast_concat, List.dropLast_concat]
        refine ih ?_
        rw [List.length_append] at h
        exact h

/-- A path that does not stay leaves the directory, and comes back to it by its name only. -/
theorem not_prefix_lex {base : Loc ν} {last : ν} {p : Path ν} (hp : .normal last ∉ p)
    {cur : Loc ν} (hcur : ¬ base ++ [last] <+: cur) : ¬ base ++ [last] <+: lex cur p := by
  induction p generalizing cur with
  | nil => exact hcur
  | cons c p ih =>
    have hrest : .normal last ∉ p := fun h => hp (List.mem_cons_of_mem c h)
    cases c with
    | rootDir =>
      refine ih hrest fun h => ?_
      have hnil := List.prefix_nil.mp h
      simp at hnil
    | curDir => exact ih hrest hcur
    | parentDir =>
      refine ih hrest fun h => hcur (h.trans (List.dropLast_prefix cur))
    | normal name =>
      refine ih hrest fun h => ?_
      rcases List.prefix_concat_iff.mp h with heq | hpre
      · obtain ⟨-, hname⟩ := List.append_inj' heq rfl
        obtain rfl : last = name := by simpa using hname
        exact hp List.mem_cons_self
      · exact hcur hpre

/-- **Containment by the text of a path**, where the path does not name the directory. -/
theorem prefix_lex_iff_stays {base ds : Loc ν} {last : ν} {p : Path ν} (hroot : .rootDir ∉ p)
    (hp : .normal last ∉ p) :
    base ++ [last] <+: lex (base ++ [last] ++ ds) p ↔ Stays ds.length p = true := by
  constructor
  · intro h
    induction p generalizing ds with
    | nil => rfl
    | cons c p ih =>
      have hroot' : .rootDir ∉ p := fun h => hroot (List.mem_cons_of_mem c h)
      have hp' : .normal last ∉ p := fun h => hp (List.mem_cons_of_mem c h)
      cases c with
      | rootDir => exact absurd List.mem_cons_self hroot
      | curDir => exact ih hroot' hp' h
      | normal name =>
        rw [lex, List.append_assoc] at h
        have hstays := ih hroot' hp' h
        rw [List.length_append] at hstays
        exact hstays
      | parentDir =>
        rw [lex] at h
        rcases List.eq_nil_or_concat ds with rfl | ⟨ds, d, rfl⟩
        · -- Above the directory, only its name leads back.
          rw [List.append_nil, List.dropLast_concat] at h
          refine absurd h (not_prefix_lex hp' fun hpre => ?_)
          have hlen := hpre.length_le
          rw [List.length_append] at hlen
          exact Nat.not_succ_le_self _ hlen
        · rw [List.concat_eq_append] at h ⊢
          rw [← List.append_assoc, List.dropLast_concat] at h
          have hstays := ih hroot' hp' h
          rw [List.length_append]
          exact hstays
  · intro h
    rw [lex_of_stays h]
    exact List.prefix_append _ _

/-! ### Up first, and then down -/

/-- Nothing but names. -/
def OnlyDown (p : Path ν) : Bool :=
  p.all fun c => match c with
    | .curDir => true
    | .normal _ => true
    | _ => false

/-- Up first, and then down. -/
def UpsFirst : Path ν → Bool
  | .parentDir :: p => UpsFirst p
  | p => OnlyDown p

variable {p q : Path ν}

theorem onlyDown_append : OnlyDown (p ++ q) = (OnlyDown p && OnlyDown q) := List.all_append

theorem onlyDown_cons {c : Component ν} (h : OnlyDown (c :: p) = true) : OnlyDown p = true := by
  rw [OnlyDown, List.all_cons, Bool.and_eq_true] at h
  exact h.2

theorem upsFirst_of_onlyDown (h : OnlyDown p = true) : UpsFirst p = true := by
  cases p with
  | nil => rfl
  | cons c p =>
    cases c with
    | parentDir => cases h
    | rootDir | curDir | normal name => exact h

theorem upsFirst_append (hp : UpsFirst p = true) (hq : OnlyDown q = true) :
    UpsFirst (p ++ q) = true := by
  induction p with
  | nil => exact upsFirst_of_onlyDown hq
  | cons c p ih =>
    cases c with
    | parentDir => exact ih hp
    | rootDir | curDir | normal name =>
      change OnlyDown (_ :: (p ++ q)) = true
      rw [← List.cons_append, onlyDown_append, hq, Bool.and_true]
      exact hp

theorem stays_of_onlyDown (h : OnlyDown p = true) (depth : Nat) : Stays depth p = true := by
  induction p generalizing depth with
  | nil => rfl
  | cons c p ih =>
    cases c with
    | rootDir | parentDir => cases h
    | curDir => exact ih (onlyDown_cons h) depth
    | normal name => exact ih (onlyDown_cons h) (depth + 1)

theorem stays_append {depth : Nat} (hp : Stays depth p = true) (hq : OnlyDown q = true) :
    Stays depth (p ++ q) = true := by
  induction p generalizing depth with
  | nil => exact stays_of_onlyDown hq depth
  | cons c p ih =>
    cases c with
    | rootDir => cases depth <;> cases hp
    | curDir =>
      rw [List.cons_append, Stays]
      exact ih (by rwa [Stays] at hp)
    | parentDir =>
      cases depth with
      | zero => cases hp
      | succ depth => exact ih hp
    | normal name =>
      rw [List.cons_append, Stays]
      exact ih (by rwa [Stays] at hp)

end Paths
