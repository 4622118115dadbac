import OpenabPty.Core.Halfway
import OpenabPty.Core.PathWalk

/-!
# Programs on a disk

The calls of a program on a disk, one after the other. A call fails as the tree has it, and it
may fail for a reason of the host's: then a removal may have removed a part, and a copy may have
written a part. A look at what is there may fail like any other call, though its program goes on.
For a name in a directory that the path before it leads to, each call has one lemma that says all
that it can do, its failures included.
-/

namespace Paths

open Halfway

variable {ν β : Type} [DecidableEq ν]

/-- What the host does on its own account, by the number of the call. -/
structure Host (ν β : Type) where
  /-- The call fails. -/
  fails : Nat → Bool
  /-- A look at where the program is about to write fails. -/
  blind : Nat → Bool
  /-- What a failing removal has removed of a directory. -/
  removed : Nat → List (Loc ν)
  /-- What a failing copy has written. -/
  written : Nat → Option β
  /-- The clock, read so many times before, is past the deadline. -/
  late : Nat → Bool

/-- A host that does nothing of the kind. -/
def reliable : Host ν β where
  fails _ := false
  blind _ := false
  removed _ := []
  written _ := none
  late _ := false

/-- The disk, how often it was called and how often the clock was read. -/
structure Disk (ν β : Type) [DecidableEq ν] where
  tree : Tree ν β
  calls : Nat
  reads : Nat

/-- The disk after a call. -/
def Disk.called (d : Disk ν β) (t : Tree ν β) : Disk ν β :=
  { d with tree := t, calls := d.calls + 1 }

@[simp] theorem Disk.called_tree (d : Disk ν β) (t : Tree ν β) : (d.called t).tree = t := rfl

/-- How a program reports that a call failed. -/
class FromErrno (ε : Type) where
  fromErrno : Errno → ε

variable {ε α : Type} [FromErrno ε]

/-- A program on a disk. -/
abbrev Io (ν β ε : Type) [DecidableEq ν] := ExceptT ε (StateM (Disk ν β))

def raise (e : Errno) : Io ν β ε α := throw (FromErrno.fromErrno e)

/-- A call that only reads, and whose failure is not the program's. -/
def look (fails : Nat → Bool) (f : Tree ν β → Except Errno α) : Io ν β ε (Except Errno α) :=
  step fun d => (.ok (if fails d.calls = true then .error .host else f d.tree), d.called d.tree)

/-- A call that changes the disk. `torn` is what it leaves where the host fails it. -/
def attempt (host : Host ν β) (op : Tree ν β → Except Errno (Tree ν β))
    (torn : Nat → Tree ν β → Tree ν β) : Io ν β ε (Except Errno Unit) :=
  step fun d =>
    if host.fails d.calls = true then
      (.ok (.error .host), d.called (torn d.calls d.tree))
    else
      match op d.tree with
      | .ok t => (.ok (.ok ()), d.called t)
      | .error e => (.ok (.error e), d.called d.tree)

/-- A call that only reads. -/
def query (host : Host ν β) (f : Tree ν β → Except Errno α) : Io ν β ε α :=
  step fun d =>
    if host.fails d.calls = true then
      (.error (FromErrno.fromErrno .host), d.called d.tree)
    else
      match f d.tree with
      | .ok a => (.ok a, d.called d.tree)
      | .error e => (.error (FromErrno.fromErrno e), d.called d.tree)

/-- `Instant::now() >= deadline`. -/
def expired (host : Host ν β) : Io ν β ε Bool :=
  step fun d => (.ok (host.late d.reads), { d with reads := d.reads + 1 })

/-- `?` -/
def orRaise (x : Io ν β ε (Except Errno Unit)) : Io ν β ε Unit := do
  match ← x with
  | .ok () => return ()
  | .error e => raise e

/-! ### `std::fs` -/

/-- A call that changes nothing where it fails. -/
def whole : Nat → Tree ν β → Tree ν β := fun _ t => t

/-- What is left of a directory whose removal failed. -/
def removedPart (host : Host ν β) (p : Path ν) (k : Nat) (t : Tree ν β) : Tree ν β :=
  match resolve t false p with
  | .ok l => (host.removed k).foldl (fun t m => if l <+: m ∧ l ≠ m then t.prune m else t) t
  | .error _ => t

/-- What a copy that failed has written. -/
def writtenPart (host : Host ν β) (p q : Path ν) (k : Nat) (t : Tree ν β) : Tree ν β :=
  match host.written k, lstat t p, resolve t true q with
  | some contents, .ok (.file _ mode), .ok m => t.put m (.file contents mode)
  | _, _, _ => t

/-- `std::fs::remove_file`. -/
def removeFile (host : Host ν β) (p : Path ν) : Io ν β ε Unit :=
  orRaise (attempt host (unlink · p) whole)

/-- `std::fs::remove_dir_all`. -/
def removeDirAll (host : Host ν β) (p : Path ν) : Io ν β ε Unit :=
  orRaise (attempt host (removeTree · p) (removedPart host p))

/-- `std::os::unix::fs::symlink`. -/
def makeSymlink (host : Host ν β) (target p : Path ν) : Io ν β ε Unit :=
  orRaise (attempt host (symlink · target p) whole)

/-- `std::fs::rename`, of what is not a directory. -/
def rename (host : Host ν β) (p q : Path ν) : Io ν β ε (Except Errno Unit) :=
  attempt host (renameFile · p q) whole

/-- `std::fs::copy`. -/
def copy (host : Host ν β) (p q : Path ν) : Io ν β ε Unit :=
  orRaise (attempt host (copyFile · p q) (writtenPart host p q))

/-- A failed `mkdir` does not count where there is a directory, as `Path::is_dir` has it. -/
def orIsDir (host : Host ν β) (p : Path ν) : Except Errno Unit → Io ν β ε Unit
  | .ok () => return ()
  | .error e => do
    match ← look host.fails (stat · p) with
    | .ok .dir => return ()
    | _ => raise e

/-- `DirBuilder::create_dir_all`, on the components from the last to the first. -/
def createDirs (host : Host ν β) : Path ν → Io ν β ε Unit
  | [] => return ()
  | c :: up => do
    let path := (c :: up).reverse
    match ← attempt host (mkdir · path) whole with
    | .error .noEnt =>
      createDirs host up
      orIsDir host path (← attempt host (mkdir · path) whole)
    | made => orIsDir host path made

/-- `std::fs::create_dir_all`. -/
def createDirAll (host : Host ν β) (p : Path ν) : Io ν β ε Unit := createDirs host p.reverse

/-! ### What the calls do -/

variable {host : Host ν β} {d : Disk ν β} {p : Path ν} {l : Loc ν} {n : ν}

omit [FromErrno ε] in
theorem meets_look {fails : Nat → Bool} {f : Tree ν β → Except Errno α}
    {post : Except ε (Except Errno α) → Disk ν β → Prop}
    (hfails : fails d.calls = true → post (.ok (.error .host)) (d.called d.tree))
    (hseen : fails d.calls = false → post (.ok (f d.tree)) (d.called d.tree)) :
    Meets (look fails f) d post := by
  rw [look, meets_step]
  cases hf : fails d.calls with
  | true => exact hfails hf
  | false => exact hseen hf

omit [FromErrno ε] in
theorem meets_expired {post : Except ε Bool → Disk ν β → Prop} :
    Meets (expired host : Io ν β ε Bool) d post ↔
      post (.ok (host.late d.reads)) { d with reads := d.reads + 1 } := Iff.rfl

omit [FromErrno ε] in
theorem meets_attempt {op : Tree ν β → Except Errno (Tree ν β)} {torn : Nat → Tree ν β → Tree ν β}
    {post : Except ε (Except Errno Unit) → Disk ν β → Prop}
    (hfails : host.fails d.calls = true →
      post (.ok (.error .host)) (d.called (torn d.calls d.tree)))
    (hok : ∀ t, op d.tree = .ok t → post (.ok (.ok ())) (d.called t))
    (herr : ∀ e, op d.tree = .error e → post (.ok (.error e)) (d.called d.tree)) :
    Meets (attempt host op torn) d post := by
  rw [attempt, meets_step]
  split
  · rename_i hf
    exact hfails hf
  · cases hop : op d.tree with
    | ok t => exact hok t hop
    | error e => exact herr e hop

theorem meets_query {f : Tree ν β → Except Errno α} {post : Except ε α → Disk ν β → Prop}
    (hfails : host.fails d.calls = true →
      post (.error (FromErrno.fromErrno .host)) (d.called d.tree))
    (hok : ∀ a, f d.tree = .ok a → post (.ok a) (d.called d.tree))
    (herr : ∀ e, f d.tree = .error e →
      post (.error (FromErrno.fromErrno e)) (d.called d.tree)) :
    Meets (query host f) d post := by
  rw [query, meets_step]
  split
  · rename_i hf
    exact hfails hf
  · cases hop : f d.tree with
    | ok a => exact hok a hop
    | error e => exact herr e hop

/-- What a call that ends in `orRaise` comes to. -/
theorem meets_orRaise {op : Tree ν β → Except Errno (Tree ν β)} {torn : Nat → Tree ν β → Tree ν β}
    {post : Except ε Unit → Disk ν β → Prop}
    (hfails : host.fails d.calls = true → ∀ e, post (.error e) (d.called (torn d.calls d.tree)))
    (hok : ∀ t, op d.tree = .ok t → post (.ok ()) (d.called t))
    (herr : ∀ errno, op d.tree = .error errno → ∀ e, post (.error e) (d.called d.tree)) :
    Meets (orRaise (attempt host op torn)) d post := by
  rw [orRaise, meets_bind]
  exact meets_attempt (fun hf => hfails hf _) (fun t ht => hok t ht) fun e he => herr e he _

theorem meets_orIsDir {e : Errno} {post : Except ε Unit → Disk ν β → Prop}
    (hok : stat d.tree p = .ok .dir → post (.ok ()) (d.called d.tree))
    (herr : host.fails d.calls = true ∨ stat d.tree p ≠ .ok .dir →
      post (.error (FromErrno.fromErrno e)) (d.called d.tree)) :
    Meets (orIsDir host p (.error e) : Io ν β ε Unit) d post := by
  rw [orIsDir, meets_bind]
  refine meets_look (fun hf => herr (.inl hf)) fun _ => ?_
  rw [then_ok]
  split
  · rename_i hdir
    exact hok hdir
  · rename_i hdir
    exact herr (.inr hdir)

/-! ### Programs that do not look at the clock -/

/-- Where the clock stands makes no difference, and it stands there afterwards. -/
def Clockless (x : Io ν β ε α) : Prop :=
  ∀ (d : Disk ν β) (k : Nat), x.run.run { d with reads := k } =
    ((x.run.run d).1, { (x.run.run d).2 with reads := k })

omit [FromErrno ε] in
theorem Clockless.pure (a : α) : Clockless (Pure.pure a : Io ν β ε α) := fun _ _ => rfl

omit [FromErrno ε] in
theorem Clockless.look (fails : Nat → Bool) (f : Tree ν β → Except Errno α) :
    Clockless (look fails f : Io ν β ε _) := fun _ _ => rfl

omit [FromErrno ε] in
theorem Clockless.attempt (op : Tree ν β → Except Errno (Tree ν β))
    (torn : Nat → Tree ν β → Tree ν β) : Clockless (attempt host op torn : Io ν β ε _) := by
  intro d k
  rw [Paths.attempt, run_step, run_step]
  dsimp only
  by_cases hf : host.fails d.calls = true
  · rw [if_pos hf, if_pos hf]
    rfl
  · rw [if_neg hf, if_neg hf]
    cases op d.tree <;> rfl

omit [FromErrno ε] in
theorem Clockless.bind {γ : Type} {x : Io ν β ε α} {f : α → Io ν β ε γ} (hx : Clockless x)
    (hf : ∀ a, Clockless (f a)) : Clockless (x >>= f) := by
  intro d k
  rw [run_bind, run_bind, hx d k]
  rcases x.run.run d with ⟨r, d'⟩
  cases r with
  | ok a => exact hf a d' k
  | error e => rfl

omit [FromErrno ε] in
theorem Clockless.forM {f : α → Io ν β ε PUnit} (hf : ∀ a, Clockless (f a)) (l : List α) :
    Clockless (l.forM f) := by
  induction l with
  | nil => exact Clockless.pure PUnit.unit
  | cons a l ih => exact (hf a).bind fun _ => ih

namespace Leads

variable {target : Path ν}

theorem lstat_name (h : Leads d.tree p l) (n : ν) :
    lstat d.tree (p ++ [.normal n]) = match d.tree.node (l ++ [n]) with
      | some node => .ok node
      | none => .error .noEnt := by
  rw [lstat, h.resolve_name]
  rfl

/-- `remove_file`, of what is there and is no directory. -/
theorem meets_removeFile (h : Leads d.tree p l) (hnode : d.tree.node (l ++ [n]) ≠ none)
    (hdir : d.tree.node (l ++ [n]) ≠ some .dir) :
    Meets (removeFile host (p ++ [.normal n]) : Io ν β ε Unit) d fun r d' =>
      (r = .ok () ∧ d'.tree = d.tree.prune (l ++ [n])) ∨
        ((∃ e, r = .error e) ∧ d'.tree = d.tree ∧ host.fails d.calls = true) := by
  have hop : unlink d.tree (p ++ [.normal n]) = .ok (d.tree.prune (l ++ [n])) := by
    rw [unlink, h.resolve_name]
    cases hl : d.tree.node (l ++ [n]) with
    | none => exact absurd hl hnode
    | some node =>
      cases node with
      | dir => exact absurd hl hdir
      | file contents mode => simp [bind, Except.bind, hl]
      | link target => simp [bind, Except.bind, hl]
  refine meets_orRaise (fun hf e => .inr ⟨⟨e, rfl⟩, rfl, hf⟩) ?_ ?_
  · intro t ht
    rw [hop] at ht
    exact .inl ⟨rfl, (Except.ok.inj ht).symm⟩
  · intro errno he
    rw [hop] at he
    cases he

/-- What pruning places below `l` one by one leaves. -/
theorem node_removed {places : List (Loc ν)} (t : Tree ν β) (m : Loc ν) :
    let t' := places.foldl (fun t m => if l <+: m ∧ l ≠ m then t.prune m else t) t
    t'.node m = t.node m ∨ (l <+: m ∧ l ≠ m ∧ t'.node m = none) := by
  induction places generalizing t with
  | nil => exact .inl rfl
  | cons place places ih =>
    rw [List.foldl_cons]
    split
    · rename_i hbelow
      have hne : place ≠ [] := by
        rintro rfl
        exact hbelow.2 (List.prefix_nil.mp hbelow.1)
      rcases ih (t.prune place) with hsame | hgone
      · rw [Tree.node_prune hne] at hsame
        split at hsame
        · rename_i hpre
          refine .inr ⟨hbelow.1.trans hpre, ?_, hsame⟩
          rintro rfl
          exact hbelow.2 (hbelow.1.eq_of_length_le hpre.length_le)
        · exact .inl hsame
      · exact .inr hgone
    · exact ih t

/-- `remove_dir_all`, of a directory. -/
theorem meets_removeDirAll (h : Leads d.tree p l) (hdir : d.tree.node (l ++ [n]) = some .dir) :
    Meets (removeDirAll host (p ++ [.normal n]) : Io ν β ε Unit) d fun r d' =>
      (r = .ok () ∧ d'.tree = d.tree.prune (l ++ [n])) ∨
        ((∃ e, r = .error e) ∧ host.fails d.calls = true ∧ ∀ m, d'.tree.node m = d.tree.node m ∨
          (l ++ [n] <+: m ∧ l ++ [n] ≠ m ∧ d'.tree.node m = none)) := by
  have hop : removeTree d.tree (p ++ [.normal n]) = .ok (d.tree.prune (l ++ [n])) := by
    rw [removeTree, h.resolve_name]
    simp [bind, Except.bind, hdir]
  refine meets_orRaise (fun hf e => .inr ⟨⟨e, rfl⟩, hf, ?_⟩) ?_ ?_
  · rw [removedPart, h.resolve_name]
    exact node_removed d.tree
  · intro t ht
    rw [hop] at ht
    exact .inl ⟨rfl, (Except.ok.inj ht).symm⟩
  · intro errno he
    rw [hop] at he
    cases he

/-- `symlink`, where there is nothing. -/
theorem meets_makeSymlink (h : Leads d.tree p l) (hnone : d.tree.node (l ++ [n]) = none) :
    Meets (makeSymlink host target (p ++ [.normal n]) : Io ν β ε Unit) d fun r d' =>
      (r = .ok () ∧ d'.tree = d.tree.put (l ++ [n]) (.link target)) ∨
        ((∃ e, r = .error e) ∧ d'.tree = d.tree ∧ host.fails d.calls = true) := by
  have hop : symlink d.tree target (p ++ [.normal n]) =
      .ok (d.tree.put (l ++ [n]) (.link target)) := by
    rw [symlink, h.resolve_name]
    simp [bind, Except.bind, hnone]
  refine meets_orRaise (fun hf e => .inr ⟨⟨e, rfl⟩, rfl, hf⟩) ?_ ?_
  · intro t ht
    rw [hop] at ht
    exact .inl ⟨rfl, (Except.ok.inj ht).symm⟩
  · intro errno he
    rw [hop] at he
    cases he

/-- `symlink`, where there is something. -/
theorem meets_makeSymlink_exist (h : Leads d.tree p l) (hnode : d.tree.node (l ++ [n]) ≠ none) :
    Meets (makeSymlink host target (p ++ [.normal n]) : Io ν β ε Unit) d fun r d' =>
      (∃ e, r = .error e) ∧ d'.tree = d.tree := by
  have hop : symlink d.tree target (p ++ [.normal n]) = .error .exist := by
    obtain ⟨node, hnode⟩ := Option.ne_none_iff_exists'.mp hnode
    rw [symlink, h.resolve_name]
    simp [bind, Except.bind, hnode]
  refine meets_orRaise (fun _ e => ⟨⟨e, rfl⟩, rfl⟩) (fun t ht => ?_) fun _ _ e => ⟨⟨e, rfl⟩, rfl⟩
  rw [hop] at ht
  cases ht

/-- `create_dir_all`, where there is no link. -/
theorem meets_createDirAll (h : Leads d.tree p l)
    (hlink : ∀ target, d.tree.node (l ++ [n]) ≠ some (.link target)) :
    Meets (createDirAll host (p ++ [.normal n]) : Io ν β ε Unit) d fun r d' =>
      (r = .ok () ∧ d.tree.node (l ++ [n]) = some .dir ∧ d'.tree = d.tree) ∨
      (r = .ok () ∧ d.tree.node (l ++ [n]) = none ∧ d'.tree = d.tree.put (l ++ [n]) .dir) ∨
      ((∃ e, r = .error e) ∧ d'.tree = d.tree ∧ ((∃ k, host.fails k = true) ∨
        ∃ contents mode, d.tree.node (l ++ [n]) = some (.file contents mode))) := by
  have hstat : stat d.tree (p ++ [.normal n]) = match d.tree.node (l ++ [n]) with
      | some node => .ok node
      | none => .error .noEnt := by
    rw [stat, h.resolve_name_of_ne_link hlink]
    rfl
  have hmkdir : mkdir d.tree (p ++ [.normal n]) = match d.tree.node (l ++ [n]) with
      | some _ => .error .exist
      | none => .ok (d.tree.put (l ++ [n]) .dir) := by
    rw [mkdir, h.resolve_name]
    rfl
  have hisDir : stat d.tree (p ++ [.normal n]) = .ok .dir ↔
      d.tree.node (l ++ [n]) = some .dir := by
    rw [hstat]
    cases hl : d.tree.node (l ++ [n]) with
    | none => simp
    | some node => simp
  rw [createDirAll, List.reverse_append, List.reverse_singleton, List.singleton_append, createDirs,
    List.reverse_cons, List.reverse_reverse, meets_bind]
  refine meets_attempt ?_ ?_ ?_
  · intro hf
    rw [then_ok]
    refine meets_orIsDir (fun hd => ?_) fun _ => ?_
    · exact .inl ⟨rfl, hisDir.mp hd, rfl⟩
    · exact .inr (.inr ⟨⟨_, rfl⟩, rfl, .inl ⟨_, hf⟩⟩)
  · intro t ht
    rw [hmkdir] at ht
    split at ht
    · cases ht
    · rename_i hl
      exact .inr (.inl ⟨rfl, hl, (Except.ok.inj ht).symm⟩)
  · intro e he
    rw [hmkdir] at he
    split at he
    · rename_i node hl
      obtain rfl : .exist = e := Except.error.inj he
      rw [then_ok]
      refine meets_orIsDir (fun hd => ?_) fun hd => ?_
      · exact .inl ⟨rfl, hisDir.mp hd, rfl⟩
      · refine .inr (.inr ⟨⟨_, rfl⟩, rfl, ?_⟩)
        rcases hd with hf | hd
        · exact .inl ⟨_, hf⟩
        · cases node with
          | dir => exact absurd (hisDir.mpr hl) hd
          | file contents mode => exact .inr ⟨contents, mode, hl⟩
          | link target => exact absurd hl (hlink target)
    · cases he

/-- `create_dir_all`, of a directory. -/
theorem meets_createDirAll_self (h : Leads d.tree p l) :
    Meets (createDirAll host p : Io ν β ε Unit) d fun _ d' => d'.tree = d.tree := by
  obtain ⟨m, hresolve, hm⟩ := exists_node_of_walk h.resolve (by simp [h.isDir])
  have hmkdir : mkdir d.tree p = .error .exist := by
    rw [mkdir, Paths.resolve, hresolve]
    obtain ⟨node, hnode⟩ := Option.ne_none_iff_exists'.mp hm
    simp [bind, Except.bind, hnode]
  rw [createDirAll]
  cases hp : p.reverse with
  | nil => rfl
  | cons c up =>
    rw [createDirs, ← hp, List.reverse_reverse, meets_bind]
    refine meets_attempt (fun _ => ?_) (fun t ht => ?_) fun e he => ?_
    · rw [then_ok]
      exact meets_orIsDir (fun _ => rfl) fun _ => rfl
    · rw [hmkdir] at ht
      cases ht
    · obtain rfl : .exist = e := Except.error.inj (hmkdir.symm.trans he)
      rw [then_ok]
      exact meets_orIsDir (fun _ => rfl) fun _ => rfl

section Files

variable {p' : Path ν} {l' : Loc ν} {contents : β} {mode : Nat}

omit [FromErrno ε] in
/-- `rename` of a file, to another directory. -/
theorem meets_rename (h : Leads d.tree p l) (h' : Leads d.tree p' l')
    (hfile : d.tree.node (l ++ [n]) = some (.file contents mode)) (hne : l ++ [n] ≠ l' ++ [n]) :
    Meets (rename host (p ++ [.normal n]) (p' ++ [.normal n]) : Io ν β ε _) d fun r d' =>
      (r = .ok (.ok ()) ∧ d.tree.node (l' ++ [n]) ≠ some .dir ∧
        d'.tree = (d.tree.put (l' ++ [n]) (.file contents mode)).prune (l ++ [n])) ∨
      ((∃ e, r = .ok (.error e)) ∧ d'.tree = d.tree ∧
        (host.fails d.calls = true ∨ d.tree.node (l' ++ [n]) = some .dir)) := by
  have hdir : d.tree.node (l' ++ [n]) = some .dir →
      renameFile d.tree (p ++ [.normal n]) (p' ++ [.normal n]) = .error .isDir := by
    intro hl
    rw [renameFile, h.resolve_name, h'.resolve_name]
    simp [bind, Except.bind, hfile, hl]
  have hrest : d.tree.node (l' ++ [n]) ≠ some .dir →
      renameFile d.tree (p ++ [.normal n]) (p' ++ [.normal n]) =
        .ok ((d.tree.put (l' ++ [n]) (.file contents mode)).prune (l ++ [n])) := by
    intro hl
    rw [renameFile, h.resolve_name, h'.resolve_name]
    simp only [bind, Except.bind, hfile, if_neg hne]
  refine meets_attempt (fun hf => .inr ⟨⟨_, rfl⟩, rfl, .inl hf⟩) ?_ ?_
  · intro t ht
    by_cases hl : d.tree.node (l' ++ [n]) = some .dir
    · rw [hdir hl] at ht
      cases ht
    · rw [hrest hl] at ht
      exact .inl ⟨rfl, hl, (Except.ok.inj ht).symm⟩
  · intro e he
    by_cases hl : d.tree.node (l' ++ [n]) = some .dir
    · exact .inr ⟨⟨e, rfl⟩, rfl, .inr hl⟩
    · rw [hrest hl] at he
      cases he

/-- `copy` of a file to a name where there is no link. -/
theorem meets_copy (h : Leads d.tree p l) (h' : Leads d.tree p' l')
    (hfile : d.tree.node (l ++ [n]) = some (.file contents mode))
    (hlink : ∀ target, d.tree.node (l' ++ [n]) ≠ some (.link target)) :
    Meets (copy host (p ++ [.normal n]) (p' ++ [.normal n]) : Io ν β ε Unit) d fun r d' =>
      (r = .ok () ∧ d.tree.node (l' ++ [n]) ≠ some .dir ∧
        d'.tree = d.tree.put (l' ++ [n]) (.file contents mode)) ∨
      ((∃ e, r = .error e) ∧ (host.fails d.calls = true ∨ d.tree.node (l' ++ [n]) = some .dir) ∧
        (d'.tree = d.tree ∨ (d.tree.node (l' ++ [n]) ≠ some .dir ∧
          ∃ part, host.written d.calls = some part ∧
            d'.tree = d.tree.put (l' ++ [n]) (.file part mode)))) := by
  have hsource : ∀ target, d.tree.node (l ++ [n]) ≠ some (.link target) := by
    intro target hl
    rw [hfile] at hl
    cases hl
  have hdir : d.tree.node (l' ++ [n]) = some .dir →
      copyFile d.tree (p ++ [.normal n]) (p' ++ [.normal n]) = .error .isDir := by
    intro hl
    rw [copyFile, h.resolve_name_of_ne_link hsource, h'.resolve_name_of_ne_link hlink]
    simp [bind, Except.bind, hfile, hl]
  have hrest : d.tree.node (l' ++ [n]) ≠ some .dir →
      copyFile d.tree (p ++ [.normal n]) (p' ++ [.normal n]) =
        .ok (d.tree.put (l' ++ [n]) (.file contents mode)) := by
    intro hl
    rw [copyFile, h.resolve_name_of_ne_link hsource, h'.resolve_name_of_ne_link hlink]
    simp only [bind, Except.bind, hfile]
  refine meets_orRaise ?_ ?_ ?_
  · intro hf e
    refine .inr ⟨⟨e, rfl⟩, .inl hf, ?_⟩
    rw [Disk.called_tree, writtenPart, h.lstat_name, h'.resolve_name_of_ne_link hlink, hfile]
    cases hw : host.written d.calls with
    | none => exact .inl rfl
    | some part =>
      by_cases hdir : d.tree.node (l' ++ [n]) = some .dir
      · exact .inl (Tree.put_of_dir hdir)
      · exact .inr ⟨hdir, part, rfl, rfl⟩
  · intro t ht
    by_cases hl : d.tree.node (l' ++ [n]) = some .dir
    · rw [hdir hl] at ht
      cases ht
    · rw [hrest hl] at ht
      exact .inl ⟨rfl, hl, (Except.ok.inj ht).symm⟩
  · intro errno he e
    by_cases hl : d.tree.node (l' ++ [n]) = some .dir
    · exact .inr ⟨⟨e, rfl⟩, .inr hl, .inl rfl⟩
    · rw [hrest hl] at he
      cases he

end Files

end Leads

end Paths
