import OpenabPty.Core.FileTree

/-!
# Following a path on a disk

The system walks a path component by component, from the root: through directories, and through a
link by walking its target from the directory that the link is in. What a call finds at the end
of its path decides whether it fails and what it changes. A path that leads to a directory goes
on from there (`Leads`), and each call on a name in that directory has one equation.
-/

namespace Paths

variable {ν β : Type} [DecidableEq ν]

/-- Why a call fails. -/
inductive Errno where
  | noEnt
  | notDir
  | isDir
  | exist
  | loop
  | inval
  /-- For a reason that is not in the tree: no space, no permission, another file system. -/
  | host
  deriving DecidableEq, Repr

/-- What a walk comes to before it follows a link: the end, or a link and what is left. -/
inductive Stride (ν : Type) where
  | stop (l : Loc ν)
  | follow (dir : Loc ν) (target rest : Path ν)
  | fail (e : Errno)

/-- Walks to the next link. The last name need not be there, and a link there is followed only
if `last` says so. -/
def stride (t : Tree ν β) (last : Bool) : Loc ν → Path ν → Stride ν
  | cur, [] => .stop cur
  | _, .rootDir :: p => stride t last [] p
  | cur, .curDir :: p => stride t last cur p
  | cur, .parentDir :: p => stride t last cur.dropLast p
  | cur, .normal name :: p =>
    match t.node (cur ++ [name]) with
    | some .dir => stride t last (cur ++ [name]) p
    | some (.link target) =>
      if p.isEmpty && !last then .stop (cur ++ [name]) else .follow cur target p
    | some (.file _ _) => if p.isEmpty then .stop (cur ++ [name]) else .fail .notDir
    | none => if p.isEmpty then .stop (cur ++ [name]) else .fail .noEnt

/-- Walks a path, following so many links at most. -/
def walk (t : Tree ν β) (last : Bool) : Nat → Loc ν → Path ν → Except Errno (Loc ν)
  | links, cur, p =>
    match stride t last cur p with
    | .stop l => .ok l
    | .fail e => .error e
    | .follow dir target rest =>
      match links with
      | 0 => .error .loop
      | links + 1 => walk t last links dir (target ++ rest)

/-- `MAXSYMLINKS`. -/
def maxLinks : Nat := 40

/-- Where a path leads, with a link at its end followed or not. -/
def resolve (t : Tree ν β) (last : Bool) (p : Path ν) : Except Errno (Loc ν) :=
  walk t last maxLinks [] p

/-! ### Calls -/

/-- `lstat`. -/
def lstat (t : Tree ν β) (p : Path ν) : Except Errno (Node ν β) := do
  let l ← resolve t false p
  match t.node l with
  | some node => .ok node
  | none => .error .noEnt

/-- `stat`. -/
def stat (t : Tree ν β) (p : Path ν) : Except Errno (Node ν β) := do
  let l ← resolve t true p
  match t.node l with
  | some node => .ok node
  | none => .error .noEnt

/-- `readlink`. -/
def readLink (t : Tree ν β) (p : Path ν) : Except Errno (Path ν) := do
  match ← lstat t p with
  | .link target => .ok target
  | _ => .error .inval

/-- `readdir`, to the end. -/
def readDir (t : Tree ν β) (p : Path ν) : Except Errno (List ν) := do
  let l ← resolve t true p
  match t.node l with
  | some .dir => .ok (t.children l)
  | some _ => .error .notDir
  | none => .error .noEnt

/-- `mkdir`. -/
def mkdir (t : Tree ν β) (p : Path ν) : Except Errno (Tree ν β) := do
  let l ← resolve t false p
  match t.node l with
  | some _ => .error .exist
  | none => .ok (t.put l .dir)

/-- `unlink`. -/
def unlink (t : Tree ν β) (p : Path ν) : Except Errno (Tree ν β) := do
  let l ← resolve t false p
  match t.node l with
  | some .dir => .error .isDir
  | some _ => .ok (t.prune l)
  | none => .error .noEnt

/-- The removal of a directory with everything in it. -/
def removeTree (t : Tree ν β) (p : Path ν) : Except Errno (Tree ν β) := do
  let l ← resolve t false p
  match t.node l with
  | some .dir => .ok (t.prune l)
  | some _ => .error .notDir
  | none => .error .noEnt

/-- `symlink`. -/
def symlink (t : Tree ν β) (target p : Path ν) : Except Errno (Tree ν β) := do
  let l ← resolve t false p
  match t.node l with
  | some _ => .error .exist
  | none => .ok (t.put l (.link target))

/-- `rename` of what is not a directory. -/
def renameFile (t : Tree ν β) (p q : Path ν) : Except Errno (Tree ν β) := do
  let l ← resolve t false p
  let m ← resolve t false q
  match t.node l, t.node m with
  | none, _ => .error .noEnt
  | some .dir, _ => .error .isDir
  | some _, some .dir => .error .isDir
  | some node, _ => if l = m then .ok t else .ok ((t.put m node).prune l)

/-- The copy of a file, with its mode, over or in the place of what `q` leads to. -/
def copyFile (t : Tree ν β) (p q : Path ν) : Except Errno (Tree ν β) := do
  let l ← resolve t true p
  let m ← resolve t true q
  match t.node l, t.node m with
  | none, _ => .error .noEnt
  | some (.file _ _), some .dir => .error .isDir
  | some (.file contents mode), _ => .ok (t.put m (.file contents mode))
  | some _, _ => .error .isDir

/-- `chmod`, of a file. -/
def chmod (t : Tree ν β) (p : Path ν) (mode : Nat) : Except Errno (Tree ν β) := do
  let l ← resolve t true p
  match t.node l with
  | some (.file contents _) => .ok (t.put l (.file contents mode))
  | some _ => .ok t
  | none => .error .noEnt

/-! ### Going on from a directory -/

variable {t : Tree ν β} {last : Bool} {cur l : Loc ν} {p q : Path ν}

theorem stride_append_of_stop (h : stride t true cur p = .stop l) (hdir : t.node l = some .dir) :
    stride t last cur (p ++ q) = stride t last l q := by
  induction p generalizing cur with
  | nil =>
    obtain rfl : cur = l := Stride.stop.inj h
    rfl
  | cons c p ih =>
    cases c with
    | rootDir | curDir | parentDir => exact ih h
    | normal name =>
      rw [List.cons_append, stride]
      rw [stride] at h
      cases hnode : t.node (cur ++ [name]) with
      | none =>
        rw [hnode] at h
        dsimp only at h
        split at h
        · obtain rfl : cur ++ [name] = l := Stride.stop.inj h
          rw [hnode] at hdir
          cases hdir
        · cases h
      | some node =>
        cases node with
        | dir =>
          rw [hnode] at h
          exact ih h
        | file contents mode =>
          rw [hnode] at h
          dsimp only at h
          split at h
          · obtain rfl : cur ++ [name] = l := Stride.stop.inj h
            rw [hnode] at hdir
            cases hdir
          · cases h
        | link target =>
          rw [hnode] at h
          simp at h

theorem stride_append_of_follow {dir : Loc ν} {target rest : Path ν} (hq : q ≠ [])
    (h : stride t true cur p = .follow dir target rest) :
    stride t last cur (p ++ q) = .follow dir target (rest ++ q) := by
  induction p generalizing cur with
  | nil => cases h
  | cons c p ih =>
    cases c with
    | rootDir | curDir | parentDir => exact ih h
    | normal name =>
      rw [List.cons_append, stride]
      rw [stride] at h
      cases hnode : t.node (cur ++ [name]) with
      | none =>
        rw [hnode] at h
        dsimp only at h
        split at h <;> cases h
      | some node =>
        cases node with
        | dir =>
          rw [hnode] at h
          exact ih h
        | file contents mode =>
          rw [hnode] at h
          dsimp only at h
          split at h <;> cases h
        | link target' =>
          rw [hnode] at h
          simp only [Bool.not_true, Bool.and_false, Bool.false_eq_true, if_false] at h ⊢
          obtain ⟨rfl, rfl, rfl⟩ := Stride.follow.inj h
          simp [hq]

/-- What is left of a path is walked from where the path before it leads. -/
theorem walk_append {links : Nat} (hq : q ≠ []) (h : walk t true links cur p = .ok l)
    (hdir : t.node l = some .dir) :
    ∃ left, walk t last links cur (p ++ q) = walk t last left l q := by
  induction links generalizing cur p with
  | zero =>
    rw [walk] at h
    cases hs : stride t true cur p with
    | stop m =>
      rw [hs] at h
      obtain rfl : m = l := Except.ok.inj h
      refine ⟨0, ?_⟩
      rw [walk, walk, stride_append_of_stop hs hdir]
    | fail e =>
      rw [hs] at h
      cases h
    | follow dir target rest =>
      rw [hs] at h
      cases h
  | succ links ih =>
    rw [walk] at h
    cases hs : stride t true cur p with
    | stop m =>
      rw [hs] at h
      obtain rfl : m = l := Except.ok.inj h
      refine ⟨links + 1, ?_⟩
      rw [walk, walk, stride_append_of_stop hs hdir]
    | fail e =>
      rw [hs] at h
      cases h
    | follow dir target rest =>
      rw [hs] at h
      obtain ⟨left, hleft⟩ := ih h
      refine ⟨left, ?_⟩
      rw [walk, stride_append_of_follow hq hs, ← hleft, List.append_assoc]

/-- A path leads to a directory. -/
structure Leads (t : Tree ν β) (p : Path ν) (l : Loc ν) : Prop where
  resolve : resolve t true p = .ok l
  isDir : t.node l = some .dir

/-- A name in a directory, not followed. -/
theorem Leads.resolve_name (h : Leads t p l) (n : ν) :
    Paths.resolve t false (p ++ [.normal n]) = .ok (l ++ [n]) := by
  obtain ⟨left, hleft⟩ := walk_append (List.cons_ne_nil (.normal n) []) h.resolve h.isDir
  rw [Paths.resolve, hleft, walk, stride]
  cases hnode : t.node (l ++ [n]) with
  | none => rfl
  | some node => cases node <;> rfl

/-- A name in a directory that is no link. -/
theorem Leads.resolve_name_of_ne_link (h : Leads t p l) {n : ν}
    (hlink : ∀ target, t.node (l ++ [n]) ≠ some (.link target)) (last : Bool) :
    Paths.resolve t last (p ++ [.normal n]) = .ok (l ++ [n]) := by
  obtain ⟨left, hleft⟩ := walk_append (List.cons_ne_nil (.normal n) []) h.resolve h.isDir
  rw [Paths.resolve, hleft, walk, stride]
  cases hnode : t.node (l ++ [n]) with
  | none => rfl
  | some node =>
    cases node with
    | dir | file contents mode => rfl
    | link target => exact absurd hnode (hlink target)

theorem Leads.child (h : Leads t p l) {n : ν} (hdir : t.node (l ++ [n]) = some .dir) :
    Leads t (p ++ [.normal n]) (l ++ [n]) where
  resolve := by
    refine h.resolve_name_of_ne_link (fun target hlink => ?_) true
    rw [hdir] at hlink
    cases hlink
  isDir := hdir

/-- The absolute path of a directory leads to it. -/
theorem leads_absolute (hdir : t.node l = some .dir) : Leads t (absolute l) l := by
  induction l using List.reverseRecOn with
  | nil => exact ⟨rfl, hdir⟩
  | append_singleton l n ih =>
    have hparent : t.node l = some .dir :=
      Tree.node_parent (by rw [hdir]; exact Option.some_ne_none _)
    rw [absolute_append]
    exact (ih hparent).child hdir

/-- A path leads to a directory, whatever is done below it. -/
def Steady (t : Tree ν β) (p : Path ν) (l : Loc ν) : Prop :=
  ∀ t' : Tree ν β, (∀ m, (l <+: m → m = l) → t'.node m = t.node m) → Leads t' p l

theorem Steady.leads (h : Steady t p l) : Leads t p l := h t fun _ _ => rfl

theorem Steady.of_frame (h : Steady t p l) {t' : Tree ν β}
    (hframe : ∀ m, (l <+: m → m = l) → t'.node m = t.node m) : Steady t' p l :=
  fun t'' h'' => h t'' fun m hm => (h'' m hm).trans (hframe m hm)

theorem Steady.child (h : Steady t p l) {n : ν} (hdir : t.node (l ++ [n]) = some .dir) :
    Steady t (p ++ [.normal n]) (l ++ [n]) := by
  intro t' ht'
  have hleads : Leads t' p l := by
    refine h t' fun m hm => ht' m fun hpre => ?_
    have heq := hm ((List.prefix_append l [n]).trans hpre)
    have hlen := hpre.length_le
    rw [heq, List.length_append] at hlen
    exact absurd hlen (Nat.not_succ_le_self _)
  refine hleads.child ?_
  rw [ht' _ fun _ => rfl, hdir]

theorem steady_absolute (hdir : t.node l = some .dir) : Steady t (absolute l) l :=
  fun _ h => leads_absolute ((h l fun _ => rfl).trans hdir)

/-- Not to follow a link at the end makes a difference for a link only. -/
theorem stride_false (t : Tree ν β) (cur : Loc ν) (p : Path ν) :
    stride t false cur p = stride t true cur p ∨
      ∃ m target, stride t false cur p = .stop m ∧ t.node m = some (.link target) := by
  induction p generalizing cur with
  | nil => exact .inl rfl
  | cons c p ih =>
    cases c with
    | rootDir | curDir | parentDir => exact ih _
    | normal name =>
      rw [stride, stride]
      cases hnode : t.node (cur ++ [name]) with
      | none => exact .inl rfl
      | some node =>
        cases node with
        | dir => exact ih _
        | file contents mode => exact .inl rfl
        | link target =>
          cases p with
          | nil => exact .inr ⟨cur ++ [name], target, rfl, hnode⟩
          | cons c p => exact .inl rfl

/-- Where a path leads to something, there is something when a link at its end is not followed. -/
theorem exists_node_of_walk {links : Nat} (h : walk t true links cur p = .ok l)
    (hl : t.node l ≠ none) : ∃ m, walk t false links cur p = .ok m ∧ t.node m ≠ none := by
  induction links generalizing cur p with
  | zero =>
    rw [walk]
    rcases stride_false t cur p with hsame | ⟨m, target, hstop, hm⟩
    · rw [hsame]
      rw [walk] at h
      cases hs : stride t true cur p with
      | stop m =>
        rw [hs] at h
        exact ⟨m, rfl, Except.ok.inj h ▸ hl⟩
      | fail e | follow dir target rest =>
        rw [hs] at h
        cases h
    · exact ⟨m, by rw [hstop], by rw [hm]; exact Option.some_ne_none _⟩
  | succ links ih =>
    rw [walk]
    rcases stride_false t cur p with hsame | ⟨m, target, hstop, hm⟩
    · rw [hsame]
      rw [walk] at h
      cases hs : stride t true cur p with
      | stop m =>
        rw [hs] at h
        exact ⟨m, rfl, Except.ok.inj h ▸ hl⟩
      | fail e =>
        rw [hs] at h
        cases h
      | follow dir target rest =>
        rw [hs] at h
        exact ih h
    · exact ⟨m, by rw [hstop], by rw [hm]; exact Option.some_ne_none _⟩

/-- Where there is no link at the end, nothing is left to follow. -/
theorem walk_true_of_ne_link {links : Nat} (h : walk t false links cur p = .ok l)
    (hl : ∀ target, t.node l ≠ some (.link target)) : walk t true links cur p = .ok l := by
  induction links generalizing cur p with
  | zero =>
    rw [walk]
    rw [walk] at h
    rcases stride_false t cur p with hsame | ⟨m, target, hstop, hm⟩
    · rwa [hsame] at h
    · rw [hstop] at h
      obtain rfl : m = l := Except.ok.inj h
      exact absurd hm (hl target)
  | succ links ih =>
    rw [walk]
    rw [walk] at h
    rcases stride_false t cur p with hsame | ⟨m, target, hstop, hm⟩
    · rw [hsame] at h
      cases hs : stride t true cur p with
      | stop m | fail e =>
        rw [hs] at h
        exact h
      | follow dir target rest =>
        rw [hs] at h
        exact ih h
    · rw [hstop] at h
      obtain rfl : m = l := Except.ok.inj h
      exact absurd hm (hl target)

/-! ### Staying below a directory

The system takes `..` from where a link has led, not from what the text says. A walk cannot leave a
directory if the links below it go up first and by no more levels than they are deep. -/

/-- Every link below `root` goes up first, and not above `root`. -/
def Enclosed (t : Tree ν β) (root : Loc ν) : Prop :=
  ∀ (ds : Loc ν) (n : ν) (target : Path ν), t.node (root ++ ds ++ [n]) = some (.link target) →
    Stays ds.length target = true ∧ UpsFirst target = true

variable {root ds : Loc ν}

/-- What a walk below `root` comes to before it follows a link is below `root`. -/
theorem Enclosed.stride (ht : Enclosed t root) (last : Bool) (hstays : Stays ds.length p = true)
    (hups : UpsFirst p = true) :
    match Paths.stride t last (root ++ ds) p with
    | .stop m => root <+: m
    | .fail _ => True
    | .follow dir target rest => ∃ ds', dir = root ++ ds' ∧
        Stays ds'.length (target ++ rest) = true ∧ UpsFirst (target ++ rest) = true := by
  induction p generalizing ds with
  | nil => exact List.prefix_append root ds
  | cons c p ih =>
    cases c with
    | rootDir => cases hn : ds.length <;> rw [hn] at hstays <;> cases hstays
    | curDir =>
      rw [Paths.stride]
      refine ih ?_ (upsFirst_of_onlyDown (onlyDown_cons hups))
      rwa [Stays] at hstays
    | parentDir =>
      rw [Paths.stride]
      rcases List.eq_nil_or_concat ds with rfl | ⟨ds, d, rfl⟩
      · cases hstays
      · rw [List.concat_eq_append] at hstays ⊢
        rw [← List.append_assoc, List.dropLast_concat]
        rw [List.length_append] at hstays
        exact ih hstays hups
    | normal name =>
      have hdown : OnlyDown p = true := onlyDown_cons hups
      rw [Paths.stride]
      have hbelow : root <+: root ++ ds ++ [name] :=
        (List.prefix_append root ds).trans (List.prefix_append _ _)
      cases hnode : t.node (root ++ ds ++ [name]) with
      | none =>
        dsimp only
        cases p.isEmpty with
        | true => exact hbelow
        | false => trivial
      | some node =>
        cases node with
        | dir =>
          dsimp only
          rw [List.append_assoc]
          exact ih (stays_of_onlyDown hdown _) (upsFirst_of_onlyDown hdown)
        | file contents mode =>
          dsimp only
          cases p.isEmpty with
          | true => exact hbelow
          | false => trivial
        | link target =>
          dsimp only
          cases p.isEmpty && !last with
          | true => exact hbelow
          | false =>
            obtain ⟨hlink, hfirst⟩ := ht ds name target hnode
            exact ⟨ds, rfl, stays_append hlink hdown, upsFirst_append hfirst hdown⟩

/-- **No walk leaves a directory whose links are enclosed.** -/
theorem Enclosed.walk (ht : Enclosed t root) {links : Nat} {m : Loc ν}
    (hstays : Stays ds.length p = true) (hups : UpsFirst p = true)
    (h : Paths.walk t last links (root ++ ds) p = .ok m) : root <+: m := by
  induction links generalizing ds p with
  | zero =>
    have hstride := ht.stride last hstays hups
    rw [Paths.walk] at h
    cases hs : Paths.stride t last (root ++ ds) p with
    | stop l =>
      rw [hs] at h hstride
      exact Except.ok.inj h ▸ hstride
    | fail e =>
      rw [hs] at h
      cases h
    | follow dir target rest =>
      rw [hs] at h
      cases h
  | succ links ih =>
    have hstride := ht.stride last hstays hups
    rw [Paths.walk] at h
    cases hs : Paths.stride t last (root ++ ds) p with
    | stop l =>
      rw [hs] at h hstride
      exact Except.ok.inj h ▸ hstride
    | fail e =>
      rw [hs] at h
      cases h
    | follow dir target rest =>
      rw [hs] at h hstride
      obtain ⟨ds', rfl, hstays', hups'⟩ := hstride
      exact ih hstays' hups' h

end Paths
