import OpenabPty.Seed

/-!
# Moving what was unpacked

`move_recursive` moves the entries of one directory into another, each a directory, a file or a
link, on a disk that may fail at every call and whose target may hold links of anybody's. Wherever
it stops, it has changed nothing but what the entries name (`Moves`); where it comes to its end,
the one directory lies over the other (`MergedAt`); and it stops early only where something is in
the way, where the host fails it or where time is up. All this is so where the links of the target
are seen (`SeesLinks`): a failing look at a link lets it be followed.
-/

namespace OpenabPty

open Paths Halfway

namespace Seed

variable (host : Host Name Contents) (src dst : Loc Name)

/-- What an entry below `src` stands for below `dst`: itself, and all that a link replaces. -/
def Claimed (t : Tree Name Contents) (q : Loc Name) : Prop :=
  t.node (src ++ q) ≠ none ∨
    ∃ p linkTarget, p <+: q ∧ t.node (src ++ p) = some (.link linkTarget)

/-- A copy of the file at `q` that the host broke off. -/
def Torn (t : Tree Name Contents) (q : Loc Name) (node : Option (Node Name Contents)) : Prop :=
  ∃ contents mode part k, t.node (src ++ q) = some (.file contents mode) ∧
    host.fails k = true ∧ host.written k = some part ∧ node = some (.file part mode)

/-- Where nothing is moved from or to. -/
def Outside (l : Loc Name) : Prop := (src <+: l → l = src) ∧ (dst <+: l → l = src ∨ l = dst)

/-- What a move, wherever it stops, has done to the disk. -/
structure Moves (t t' : Tree Name Contents) : Prop where
  /-- Nothing outside changes. -/
  frame : ∀ l, Outside src dst l → t'.node l = t.node l
  /-- Files go. -/
  source : ∀ q, t'.node (src ++ q) = t.node (src ++ q) ∨
    (∃ contents mode, t.node (src ++ q) = some (.file contents mode)) ∧
      t'.node (src ++ q) = none
  /-- What is not claimed stays, and what is claimed is as it was, as it should be, torn or
  gone. -/
  target : ∀ q, ¬ src <+: dst ++ q → t'.node (dst ++ q) = t.node (dst ++ q) ∨
    Claimed src t q ∧ (t'.node (dst ++ q) = none ∨ t'.node (dst ++ q) = t.node (src ++ q) ∨
      Torn host src t q (t'.node (dst ++ q)))

/-- No look at a destination fails where there are links below `dst`. -/
def SeesLinks (t : Tree Name Contents) : Prop :=
  (∃ q linkTarget, t.node (dst ++ q) = some (.link linkTarget)) → ∀ k, host.blind k = false

/-- Neither place is below the other. -/
def Apart (l m : Loc Name) : Prop := ¬ l <+: m ∧ ¬ m <+: l

variable {host src dst} {t t₁ t₂ : Tree Name Contents} {n : Name}

theorem Apart.ne {l m : Loc Name} (h : Apart l m) : l ≠ m := by
  rintro rfl
  exact h.1 (List.prefix_refl l)

/-- Below places that are apart, places are apart. -/
theorem Apart.inside {l m l' m' : Loc Name} (h : Apart l m) (hl : l <+: l') (hm : m <+: m') :
    Apart l' m' := by
  constructor
  · intro hpre
    rcases List.prefix_or_prefix_of_prefix (hl.trans hpre) hm with hlm | hml
    · exact h.1 hlm
    · exact h.2 hml
  · intro hpre
    rcases List.prefix_or_prefix_of_prefix hl (hm.trans hpre) with hlm | hml
    · exact h.1 hlm
    · exact h.2 hml

theorem not_below_self {l : Loc Name} : ¬ l ++ [n] <+: l := by
  intro h
  have hlen := h.length_le
  rw [List.length_append] at hlen
  exact Nat.not_succ_le_self _ hlen

theorem not_below_of {l m : Loc Name} (h : l <+: m → m = l) : ¬ l ++ [n] <+: m := by
  intro hpre
  obtain rfl := h ((List.prefix_append l [n]).trans hpre)
  exact not_below_self hpre

theorem below_concat {l q : Loc Name} : l ++ [n] <+: l ++ n :: q :=
  ⟨q, (List.append_cons l n q).symm⟩

/-- Where nothing is moved from or to, nothing is for the entries of an entry. -/
theorem Outside.child {l : Loc Name} (h : Outside src dst l) (hapart : Apart src (dst ++ [n])) :
    Outside (src ++ [n]) (dst ++ [n]) l := by
  constructor
  · intro hpre
    obtain rfl := h.1 ((List.prefix_append src [n]).trans hpre)
    exact absurd hpre not_below_self
  · intro hpre
    rcases h.2 ((List.prefix_append dst [n]).trans hpre) with rfl | rfl
    · exact absurd hpre hapart.2
    · exact absurd hpre not_below_self

namespace Moves

theorem refl (t : Tree Name Contents) : Moves host src dst t t where
  frame _ _ := rfl
  source _ := .inl rfl
  target _ _ := .inl rfl

/-- What is still there below the source is what was there. -/
theorem source_eq (h : Moves host src dst t t₁) {q : Loc Name} {node : Node Name Contents}
    (hnode : t₁.node (src ++ q) = some node) : t.node (src ++ q) = some node := by
  rcases h.source q with hsame | ⟨-, hgone⟩
  · rw [← hsame, hnode]
  · rw [hgone] at hnode
    cases hnode

theorem claimed (h : Moves host src dst t t₁) {q : Loc Name} (hc : Claimed src t₁ q) :
    Claimed src t q := by
  rcases hc with hnode | ⟨p, linkTarget, hp, hlink⟩
  · obtain ⟨node, hnode⟩ := Option.ne_none_iff_exists'.mp hnode
    refine .inl ?_
    rw [h.source_eq hnode]
    exact Option.some_ne_none _
  · exact .inr ⟨p, linkTarget, hp, h.source_eq hlink⟩

theorem trans (h₁ : Moves host src dst t t₁) (h₂ : Moves host src dst t₁ t₂) :
    Moves host src dst t t₂ where
  frame l hl := (h₂.frame l hl).trans (h₁.frame l hl)
  source q := by
    rcases h₂.source q with hsame | ⟨⟨contents, mode, hfile⟩, hgone⟩
    · rw [hsame]
      exact h₁.source q
    · exact .inr ⟨⟨contents, mode, h₁.source_eq hfile⟩, hgone⟩
  target q hq := by
    rcases h₂.target q hq with hsame | ⟨hclaimed, hwhat⟩
    · rw [hsame]
      exact h₁.target q hq
    · refine .inr ⟨h₁.claimed hclaimed, ?_⟩
      rcases hwhat with hgone | hmoved | ⟨contents, mode, part, k, hfile, hrest⟩
      · exact .inl hgone
      · rcases h₁.source q with hsame | ⟨-, hgone⟩
        · exact .inr (.inl (hmoved.trans hsame))
        · exact .inl (hmoved.trans hgone)
      · exact .inr (.inr ⟨contents, mode, part, k, h₁.source_eq hfile, hrest⟩)

/-- A change place by place. -/
theorem of_places (hapart : Apart src (dst ++ [n]))
    (h : ∀ l, t₁.node l = t.node l ∨
      (l = src ++ [n] ∧ (∃ contents mode, t.node l = some (.file contents mode)) ∧
        t₁.node l = none) ∨
      ∃ q, l = dst ++ n :: q ∧ Claimed src t (n :: q) ∧
        (t₁.node l = none ∨ t₁.node l = t.node (src ++ n :: q) ∨
          Torn host src t (n :: q) (t₁.node l))) :
    Moves host src dst t t₁ where
  frame l hl := by
    rcases h l with hsame | ⟨rfl, -, -⟩ | ⟨q, rfl, -, -⟩
    · exact hsame
    · have heq := hl.1 (List.prefix_append src [n])
      simp at heq
    · rcases hl.2 (List.prefix_append dst (n :: q)) with heq | heq
      · exact absurd (heq ▸ below_concat) hapart.2
      · simp at heq
  source q := by
    rcases h (src ++ q) with hsame | ⟨-, hfile, hgone⟩ | ⟨q', heq, -, -⟩
    · exact .inl hsame
    · exact .inr ⟨hfile, hgone⟩
    · exact absurd heq (hapart.inside (List.prefix_append src q) below_concat).ne
  target q hq := by
    rcases h (dst ++ q) with hsame | ⟨heq, -, -⟩ | ⟨q', heq, hclaimed, hwhat⟩
    · exact .inl hsame
    · rw [heq] at hq
      exact absurd (List.prefix_append src [n]) hq
    · obtain rfl : q = n :: q' := List.append_cancel_left heq
      exact .inr ⟨hclaimed, hwhat⟩

/-- What is done for the entries of an entry. -/
theorem of_child (hapart : Apart src (dst ++ [n]))
    (h : Moves host (src ++ [n]) (dst ++ [n]) t t₁) : Moves host src dst t t₁ where
  frame l hl := h.frame l (hl.child hapart)
  source q := by
    by_cases hq : [n] <+: q
    · obtain ⟨q, rfl⟩ := hq
      have hsource := h.source q
      rwa [List.append_assoc] at hsource
    · refine .inl (h.frame _ ⟨fun hpre => absurd hpre ?_, fun hpre => absurd hpre ?_⟩)
      · rwa [List.prefix_append_right_inj]
      · exact (hapart.inside (List.prefix_append src q) (List.prefix_refl _)).2
  target q hq := by
    by_cases hn : [n] <+: q
    · obtain ⟨q, rfl⟩ := hn
      have htarget := h.target q fun hpre => hq ?_
      · simp only [List.append_assoc] at htarget
        refine htarget.imp_right fun ⟨hclaimed, hwhat⟩ => ⟨?_, ?_⟩
        · rcases hclaimed with hnode | ⟨p, linkTarget, hp, hlink⟩
          · rw [List.append_assoc] at hnode
            exact .inl hnode
          · rw [List.append_assoc] at hlink
            exact .inr ⟨[n] ++ p, linkTarget, (List.prefix_append_right_inj [n]).mpr hp, hlink⟩
        · rcases hwhat with hgone | hmoved | ⟨contents, mode, part, k, hfile, hrest⟩
          · exact .inl hgone
          · exact .inr (.inl hmoved)
          · rw [List.append_assoc] at hfile
            exact .inr (.inr ⟨contents, mode, part, k, hfile, hrest⟩)
      · rw [← List.append_assoc]
        exact (List.prefix_append src [n]).trans hpre
    · refine .inl (h.frame _ ⟨fun hpre => absurd hpre ?_, fun hpre => absurd hpre ?_⟩)
      · exact fun hpre => hq ((List.prefix_append src [n]).trans hpre)
      · rwa [List.prefix_append_right_inj]

end Moves

/-! ### Where a move stands -/

/-- The paths lead to the places, whatever is moved, and no entry is in its own way. -/
structure Anchored (t : Tree Name Contents) (srcPath dstPath : Path Name) (src dst : Loc Name) :
    Prop where
  source : ∀ t' : Tree Name Contents,
    (∀ l, Outside src dst l → t'.node l = t.node l) → Leads t' srcPath src
  target : ∀ t' : Tree Name Contents,
    (∀ l, Outside src dst l → t'.node l = t.node l) → Leads t' dstPath dst
  apart : ∀ n, t.node (src ++ [n]) ≠ none → Apart src (dst ++ [n])

namespace Anchored

variable {srcPath dstPath : Path Name}

theorem leads_source (h : Anchored t srcPath dstPath src dst) : Leads t srcPath src :=
  h.source t fun _ _ => rfl

theorem leads_target (h : Anchored t srcPath dstPath src dst) : Leads t dstPath dst :=
  h.target t fun _ _ => rfl

theorem of_moves (h : Anchored t srcPath dstPath src dst) (hm : Moves host src dst t t₁) :
    Anchored t₁ srcPath dstPath src dst where
  source t' ht' := h.source t' fun l hl => (ht' l hl).trans (hm.frame l hl)
  target t' ht' := h.target t' fun l hl => (ht' l hl).trans (hm.frame l hl)
  apart n hn := by
    obtain ⟨node, hnode⟩ := Option.ne_none_iff_exists'.mp hn
    refine h.apart n ?_
    rw [hm.source_eq hnode]
    exact Option.some_ne_none _

/-- A move stands below a directory of both as it stands here. -/
theorem child (h : Anchored t srcPath dstPath src dst)
    (hsrc : t.node (src ++ [n]) = some .dir) (hdst : t.node (dst ++ [n]) = some .dir) :
    Anchored t (srcPath ++ [.normal n]) (dstPath ++ [.normal n]) (src ++ [n]) (dst ++ [n]) := by
  have hapart : Apart src (dst ++ [n]) := h.apart n (by rw [hsrc]; exact Option.some_ne_none _)
  have hchildren : Apart (src ++ [n]) (dst ++ [n]) :=
    hapart.inside (List.prefix_append src [n]) (List.prefix_refl _)
  have hwithin : ∀ t' : Tree Name Contents,
      (∀ l, Outside (src ++ [n]) (dst ++ [n]) l → t'.node l = t.node l) →
      ∀ l, Outside src dst l → t'.node l = t.node l :=
    fun t' ht' l hl => ht' l (hl.child hapart)
  refine ⟨fun t' ht' => ?_, fun t' ht' => ?_, fun m _ => ?_⟩
  · refine (h.source t' (hwithin t' ht')).child ?_
    rw [ht' _ ⟨fun _ => rfl, fun _ => .inl rfl⟩]
    exact hsrc
  · refine (h.target t' (hwithin t' ht')).child ?_
    rw [ht' _ ⟨fun hpre => absurd hpre hchildren.1, fun _ => .inr rfl⟩]
    exact hdst
  · exact hchildren.inside (List.prefix_refl _) (List.prefix_append _ [m])

end Anchored

/-! ### The branches -/

/-- The host fails a call. -/
def Faulty (host : Host Name Contents) : Prop := ∃ k, host.fails k = true

/-- The host's part in a failure: a call failed, or time was up. -/
def Hindered (host : Host Name Contents) : Prop :=
  Faulty host ∨ ∃ k, host.late k = true ∨ host.blind k = true

/-- Where no link is new, the links are seen as before. -/
theorem SeesLinks.mono (h : SeesLinks host dst t) (hlinks : ∀ q linkTarget,
    t₁.node (dst ++ q) = some (.link linkTarget) → t.node (dst ++ q) = some (.link linkTarget)) :
    SeesLinks host dst t₁ :=
  fun ⟨q, linkTarget, hlink⟩ => h ⟨q, linkTarget, hlinks q linkTarget hlink⟩

/-- The links below one entry are seen where those below all of them are. -/
theorem SeesLinks.entry (h : SeesLinks host dst t)
    (hsame : ∀ q, t₁.node (dst ++ n :: q) = t.node (dst ++ n :: q)) :
    SeesLinks host (dst ++ [n]) t₁ := by
  rintro ⟨q, linkTarget, hlink⟩
  refine h ⟨n :: q, linkTarget, ?_⟩
  rw [← hsame, List.append_cons]
  exact hlink

variable {d : Disk Name Contents} {dir : Path Name} {l : Loc Name}

/-- After `replaceSymlink` there is no link. -/
theorem meets_replaceSymlink (h : Leads d.tree dir l) (hsees : SeesLinks host (l ++ [n]) d.tree) :
    Meets (replaceSymlink host (dir ++ [.normal n])) d fun r d' =>
      (r = .ok () ∧ (∀ linkTarget, d'.tree.node (l ++ [n]) ≠ some (.link linkTarget)) ∧
        ∀ m, d'.tree.node m = d.tree.node m ∨ m = l ++ [n] ∧ d'.tree.node m = none ∧
          ∃ linkTarget, d.tree.node m = some (.link linkTarget)) ∨
      ((∃ e, r = .error e) ∧ Faulty host ∧ d'.tree = d.tree) := by
  rw [replaceSymlink, meets_bind]
  refine meets_look (fun hblind => ?_) fun _ => ?_
  · rw [then_ok, meets_pure]
    refine .inl ⟨rfl, fun linkTarget hlink => ?_, fun m => .inl rfl⟩
    rw [hsees ⟨[], linkTarget, by rw [List.append_nil]; exact hlink⟩] at hblind
    cases hblind
  rw [then_ok, h.lstat_name]
  have hcalled : Leads (d.called d.tree).tree dir l := h
  cases hnode : d.tree.node (l ++ [n]) with
  | none =>
    dsimp only
    rw [meets_pure]
    refine .inl ⟨rfl, fun linkTarget hlink => ?_, fun m => .inl rfl⟩
    rw [Disk.called_tree, hnode] at hlink
    cases hlink
  | some node =>
    cases node with
    | dir | file contents mode =>
      dsimp only
      rw [meets_pure]
      refine .inl ⟨rfl, fun linkTarget hlink => ?_, fun m => .inl rfl⟩
      rw [Disk.called_tree, hnode] at hlink
      cases hlink
    | link linkTarget =>
      have hnone : d.tree.node (l ++ [n]) ≠ none := by
        rw [hnode]
        exact Option.some_ne_none _
      have hdir : d.tree.node (l ++ [n]) ≠ some .dir := by
        rw [hnode]
        exact fun hd => nomatch hd
      refine (hcalled.meets_removeFile hnone hdir).mono ?_
      rw [Disk.called_tree]
      rintro r d' (⟨rfl, htree⟩ | ⟨herr, htree, hfails⟩)
      · have hpruned : ∀ m, d'.tree.node m =
            if l ++ [n] <+: m then none else d.tree.node m := by
          intro m
          rw [htree, Tree.node_prune (List.append_ne_nil_of_right_ne_nil l (List.cons_ne_nil n []))]
        refine .inl ⟨rfl, fun linkTarget' hlink => ?_, fun m => ?_⟩
        · rw [hpruned, if_pos (List.prefix_refl _)] at hlink
          cases hlink
        · rw [hpruned]
          by_cases hpre : l ++ [n] <+: m
          · rw [if_pos hpre]
            by_cases heq : m = l ++ [n]
            · subst heq
              exact .inr ⟨rfl, rfl, linkTarget, hnode⟩
            · exact .inl (Tree.node_eq_none_below hpre (Ne.symm heq) hdir).symm
          · rw [if_neg hpre]
            exact .inl rfl
      · exact .inr ⟨herr, ⟨_, hfails⟩, htree⟩

/-- Where there is nothing, there is nothing to clear. -/
theorem node_eq_ite_of_none (hnone : t.node (l ++ [n]) = none) (m : Loc Name) :
    t.node m = if l ++ [n] <+: m then none else t.node m := by
  split
  · rename_i hpre
    by_cases heq : l ++ [n] = m
    · rw [← heq, hnone]
    · refine Tree.node_eq_none_below hpre heq ?_
      rw [hnone]
      exact fun hd => nomatch hd
  · rfl

/-- After `clear` there is nothing, unless what is there was not seen. -/
theorem meets_clear (h : Leads d.tree dir l) :
    Meets (clear host (dir ++ [.normal n])) d fun r d' =>
      (r = .ok () ∧ ∀ m, d'.tree.node m = if l ++ [n] <+: m then none else d.tree.node m) ∨
      (r = .ok () ∧ d'.tree = d.tree ∧ d.tree.node (l ++ [n]) ≠ none ∧
        ∃ k, host.blind k = true) ∨
      ((∃ e, r = .error e) ∧ Faulty host ∧
        ∀ m, d'.tree.node m = d.tree.node m ∨ l ++ [n] <+: m ∧ d'.tree.node m = none) := by
  have hne : l ++ [n] ≠ [] := List.append_ne_nil_of_right_ne_nil l (List.cons_ne_nil n [])
  rw [clear, meets_bind]
  refine meets_look (fun hblind => ?_) fun _ => ?_
  · rw [then_ok, meets_pure]
    by_cases hnode : d.tree.node (l ++ [n]) = none
    · exact .inl ⟨rfl, node_eq_ite_of_none hnode⟩
    · exact .inr (.inl ⟨rfl, rfl, hnode, _, hblind⟩)
  rw [then_ok, h.lstat_name]
  have hcalled : Leads (d.called d.tree).tree dir l := h
  cases hnode : d.tree.node (l ++ [n]) with
  | none =>
    dsimp only
    rw [meets_pure]
    exact .inl ⟨rfl, node_eq_ite_of_none hnode⟩
  | some node =>
    have hnone : d.tree.node (l ++ [n]) ≠ none := by
      rw [hnode]
      exact Option.some_ne_none _
    cases node with
    | dir =>
      refine (hcalled.meets_removeDirAll hnode).mono ?_
      rintro r d' (⟨rfl, htree⟩ | ⟨herr, hfails, hpart⟩)
      · exact .inl ⟨rfl, fun m => by rw [htree, Disk.called_tree, Tree.node_prune hne]⟩
      · exact .inr (.inr ⟨herr, ⟨_, hfails⟩,
          fun m => (hpart m).imp_right fun h => ⟨h.1, h.2.2⟩⟩)
    | file contents mode | link linkTarget =>
      have hdir : d.tree.node (l ++ [n]) ≠ some .dir := by
        rw [hnode]
        exact fun hd => nomatch hd
      refine (hcalled.meets_removeFile hnone hdir).mono ?_
      rintro r d' (⟨rfl, htree⟩ | ⟨herr, htree, hfails⟩)
      · exact .inl ⟨rfl, fun m => by rw [htree, Disk.called_tree, Tree.node_prune hne]⟩
      · exact .inr (.inr ⟨herr, ⟨_, hfails⟩, fun m => .inl (by rw [htree, Disk.called_tree])⟩)

namespace Anchored

variable {srcPath dstPath linkTarget : Path Name}

/-- What replaces a destination by a link. -/
theorem moves_of_link (h : Anchored t srcPath dstPath src dst)
    (hlink : t.node (src ++ [n]) = some (.link linkTarget))
    (hnode : ∀ m, t₁.node m = t.node m ∨ dst ++ [n] <+: m ∧ (t₁.node m = none ∨
      m = dst ++ [n] ∧ t₁.node m = some (.link linkTarget))) : Moves host src dst t t₁ := by
  refine Moves.of_places (h.apart n (by rw [hlink]; exact Option.some_ne_none _)) fun m => ?_
  refine (hnode m).imp_right fun ⟨⟨q, hq⟩, hwhat⟩ => .inr ⟨q, ?_, ?_, ?_⟩
  · exact hq.symm.trans (List.append_cons dst n q).symm
  · exact .inr ⟨[n], linkTarget, List.prefix_append [n] q, hlink⟩
  · rcases hwhat with hgone | ⟨rfl, hnew⟩
    · exact .inl hgone
    · obtain rfl : q = [] := List.append_cancel_left (hq.trans (List.append_nil _).symm)
      exact .inr (.inl (hnew.trans hlink.symm))

/-- A link is moved. -/
theorem meets_moveSymlink (h : Anchored d.tree srcPath dstPath src dst)
    (hlink : d.tree.node (src ++ [n]) = some (.link linkTarget)) :
    Meets (moveSymlink host (srcPath ++ [.normal n]) (dstPath ++ [.normal n])) d fun r d' =>
      (r = .ok () ∧ isAbsolute linkTarget = false ∧ ∀ m, d'.tree.node m =
        if dst ++ [n] = m then some (.link linkTarget)
        else if dst ++ [n] <+: m then none else d.tree.node m) ∨
      ((∃ e, r = .error e) ∧ (Hindered host ∨ isAbsolute linkTarget = true) ∧
        ∀ m, d'.tree.node m = d.tree.node m ∨ dst ++ [n] <+: m ∧ d'.tree.node m = none) := by
  have hread : readLink d.tree (srcPath ++ [.normal n]) = .ok linkTarget := by
    rw [readLink, h.leads_source.lstat_name, hlink]
    rfl
  rw [moveSymlink, meets_bind]
  refine meets_query (fun hf => .inr ⟨⟨_, rfl⟩, .inl (.inl ⟨_, hf⟩), fun m => .inl rfl⟩) ?_ ?_
  swap
  · intro e he
    rw [hread] at he
    cases he
  intro target htarget
  rw [hread] at htarget
  obtain rfl := Except.ok.inj htarget
  have hcalled : Leads (d.called d.tree).tree dstPath dst := h.leads_target
  rw [Halfway.then_ok]
  refine (meets_clear (n := n) hcalled).bind ?_ ?_
  · rintro _ d₁ (⟨-, hclear⟩ | ⟨-, htree, hnode, k, hblind⟩ | ⟨⟨e, he⟩, -, -⟩)
    rotate_left
    · -- What was not seen is still there, and the link is not made.
      have hleads : Leads d₁.tree dstPath dst := htree ▸ h.leads_target
      rw [createSymlink]
      cases habs : isAbsolute linkTarget with
      | true =>
        refine .inr ⟨⟨_, rfl⟩, .inr rfl, fun m => .inl ?_⟩
        change d₁.tree.node m = d.tree.node m
        rw [htree, Disk.called_tree]
      | false =>
        refine (hleads.meets_makeSymlink_exist (n := n) (htree ▸ hnode)).mono ?_
        rintro r d' ⟨herr, htree'⟩
        exact .inr ⟨herr, .inl (.inr ⟨k, .inr hblind⟩),
          fun m => .inl (by rw [htree', htree, Disk.called_tree])⟩
    · cases he
    rw [Disk.called_tree] at hclear
    have hgone : ∀ m, d₁.tree.node m = d.tree.node m ∨
        dst ++ [n] <+: m ∧ d₁.tree.node m = none := by
      intro m
      rw [hclear m]
      by_cases hpre : dst ++ [n] <+: m
      · rw [if_pos hpre]
        exact .inr ⟨hpre, rfl⟩
      · rw [if_neg hpre]
        exact .inl rfl
    have hmoves : Moves host src dst d.tree d₁.tree :=
      h.moves_of_link hlink fun m => (hgone m).imp_right fun ⟨hpre, hnone⟩ => ⟨hpre, .inl hnone⟩
    have hleads := (h.of_moves hmoves).leads_target
    have hnone : d₁.tree.node (dst ++ [n]) = none := by
      rw [hclear, if_pos (List.prefix_refl _)]
    rw [createSymlink]
    cases habs : isAbsolute linkTarget with
    | true => exact .inr ⟨⟨_, rfl⟩, .inr rfl, hgone⟩
    | false =>
      refine (hleads.meets_makeSymlink hnone).mono ?_
      rintro r d' (⟨rfl, htree⟩ | ⟨herr, htree, hfails⟩)
      · refine .inl ⟨rfl, rfl, fun m => ?_⟩
        have hdir : d₁.tree.node (dst ++ [n]).dropLast = some .dir := by
          rw [List.dropLast_concat]
          exact hleads.isDir
        rw [htree, Tree.node_put hdir (by rw [hnone]; exact fun hd => nomatch hd), hclear]
      · exact .inr ⟨herr, .inl (.inl ⟨_, hfails⟩), by rw [htree]; exact hgone⟩
  · rintro e d' (⟨he, -⟩ | ⟨he, -⟩ | ⟨herr, hfaulty, hgone⟩)
    · cases he
    · cases he
    · exact .inr ⟨herr, .inl (.inl hfaulty), hgone⟩

/-- Something is put where no directory is. -/
theorem node_put (h : Anchored t srcPath dstPath src dst) (hdir : t.node (dst ++ [n]) ≠ some .dir)
    (node : Node Name Contents) (m : Loc Name) :
    (t.put (dst ++ [n]) node).node m = if dst ++ [n] = m then some node else t.node m := by
  refine Tree.node_put ?_ hdir m
  rw [List.dropLast_concat]
  exact h.leads_target.isDir

/-- A file is there, and not here any more: what is pruned of a file is the file. -/
theorem node_moved (h : Anchored t srcPath dstPath src dst) {contents : Contents} {mode : Nat}
    (hfile : t.node (src ++ [n]) = some (.file contents mode))
    (hdir : t.node (dst ++ [n]) ≠ some .dir) (m : Loc Name) :
    ((t.put (dst ++ [n]) (.file contents mode)).prune (src ++ [n])).node m =
      if dst ++ [n] = m then some (.file contents mode)
      else if src ++ [n] = m then none else t.node m := by
  have hapart : Apart (src ++ [n]) (dst ++ [n]) :=
    (h.apart n (by rw [hfile]; exact Option.some_ne_none _)).inside
      (List.prefix_append src [n]) (List.prefix_refl _)
  have hne : src ++ [n] ≠ [] := List.append_ne_nil_of_right_ne_nil src (List.cons_ne_nil n [])
  rw [Tree.node_prune hne, h.node_put hdir]
  by_cases hd : dst ++ [n] = m
  · subst hd
    rw [if_neg hapart.1, if_pos rfl, if_pos rfl]
  · rw [if_neg hd, if_neg hd]
    by_cases hs : src ++ [n] = m
    · subst hs
      rw [if_pos (List.prefix_refl _), if_pos rfl]
    · rw [if_neg hs]
      by_cases hpre : src ++ [n] <+: m
      · rw [if_pos hpre, Tree.node_eq_none_below hpre hs]
        rw [hfile]
        exact fun hd => nomatch hd
      · rw [if_neg hpre]

/-- A file is moved, by its name or by its contents. -/
theorem meets_moveFile (h : Anchored d.tree srcPath dstPath src dst) {contents : Contents}
    {mode : Nat} (hfile : d.tree.node (src ++ [n]) = some (.file contents mode))
    (hlink : ∀ linkTarget, d.tree.node (dst ++ [n]) ≠ some (.link linkTarget)) :
    Meets (moveFile host (srcPath ++ [.normal n]) (dstPath ++ [.normal n])) d fun r d' =>
      (r = .ok () ∧ d.tree.node (dst ++ [n]) ≠ some .dir ∧ ∀ m, d'.tree.node m =
        if dst ++ [n] = m then some (.file contents mode)
        else if src ++ [n] = m then none else d.tree.node m) ∨
      ((∃ e, r = .error e) ∧ (Faulty host ∨ d.tree.node (dst ++ [n]) = some .dir) ∧
        ∀ m, d'.tree.node m = d.tree.node m ∨ m = dst ++ [n] ∧
          (d'.tree.node m = some (.file contents mode) ∨
            Torn host src d.tree [n] (d'.tree.node m))) := by
  have hapart : Apart (src ++ [n]) (dst ++ [n]) :=
    (h.apart n (by rw [hfile]; exact Option.some_ne_none _)).inside
      (List.prefix_append src [n]) (List.prefix_refl _)
  rw [moveFile]
  refine (h.leads_source.meets_rename h.leads_target hfile hapart.ne).bind ?_ ?_
  swap
  · rintro e d' (⟨he, -⟩ | ⟨⟨e', he⟩, -⟩) <;> cases he
  rintro renamed d₁ (⟨hok, hdir, htree⟩ | ⟨⟨e, he⟩, htree, hwhy⟩)
  · obtain rfl := Except.ok.inj hok
    dsimp only
    rw [meets_pure]
    exact .inl ⟨rfl, hdir, fun m => by rw [htree]; exact h.node_moved hfile hdir m⟩
  · obtain rfl := Except.ok.inj he
    have hsource : Leads d₁.tree srcPath src := htree ▸ h.leads_source
    have htarget : Leads d₁.tree dstPath dst := htree ▸ h.leads_target
    have hfile₁ : d₁.tree.node (src ++ [n]) = some (.file contents mode) := htree ▸ hfile
    refine (hsource.meets_copy htarget hfile₁ (htree ▸ hlink)).bind ?_ ?_
    · rintro _ d₂ (⟨-, hdir, hcopied⟩ | ⟨⟨e, he⟩, -⟩)
      swap
      · cases he
      rw [htree] at hdir hcopied
      have hnode₂ : ∀ m, d₂.tree.node m =
          if dst ++ [n] = m then some (.file contents mode) else d.tree.node m := by
        intro m
        rw [hcopied]
        exact h.node_put hdir _ m
      have hsrc₂ : d₂.tree.node (src ++ [n]) = some (.file contents mode) := by
        rw [hnode₂, if_neg hapart.ne.symm, hfile]
      have hleads₂ : Leads d₂.tree srcPath src := by
        refine h.source d₂.tree fun m hm => ?_
        rw [hnode₂, if_neg]
        rintro rfl
        rcases hm.2 (List.prefix_append dst [n]) with heq | heq
        · exact hapart.2 (heq ▸ List.prefix_append src [n])
        · exact absurd heq (by simp)
      have hdir₂ : d₂.tree.node (src ++ [n]) ≠ some .dir := by
        rw [hsrc₂]
        exact fun hd => nomatch hd
      refine (hleads₂.meets_removeFile (by rw [hsrc₂]; exact Option.some_ne_none _) hdir₂).mono ?_
      rintro r d' (⟨rfl, hremoved⟩ | ⟨herr, hremoved, hfails⟩)
      · refine .inl ⟨rfl, hdir, fun m => ?_⟩
        rw [hremoved, hcopied]
        exact h.node_moved hfile hdir m
      · refine .inr ⟨herr, .inl ⟨_, hfails⟩, fun m => ?_⟩
        rw [hremoved, hnode₂]
        by_cases hd : dst ++ [n] = m
        · rw [if_pos hd]
          exact .inr ⟨hd.symm, .inl rfl⟩
        · rw [if_neg hd]
          exact .inl rfl
    · rintro e d' (⟨he, -⟩ | ⟨herr, hwhy, hpart⟩)
      · cases he
      · rw [htree] at hwhy hpart
        refine .inr ⟨herr, hwhy.imp_left fun hf => ⟨_, hf⟩, fun m => ?_⟩
        rcases hpart with hsame | ⟨hdir, part, hwritten, hput'⟩
        · exact .inl (by rw [hsame])
        · rw [hput', h.node_put hdir]
          by_cases hd : dst ++ [n] = m
          · rw [if_pos hd]
            exact .inr ⟨hd.symm, .inr
              ⟨contents, mode, part, _, hfile, hwhy.resolve_right hdir, hwritten, rfl⟩⟩
          · rw [if_neg hd]
            exact .inl rfl

end Anchored

/-! ### One directory over another -/

section Outcomes

variable (host src dst)

/-- At `q` the source lies over the target: what the source has is there, what a link of the
source replaces is gone, and the rest is as it was. -/
structure MergedAt (t t' : Tree Name Contents) (q : Loc Name) : Prop where
  moved : t.node (src ++ q) ≠ none → t'.node (dst ++ q) = t.node (src ++ q)
  replaced : t.node (src ++ q) = none → ∀ p linkTarget, p <+: q →
    t.node (src ++ p) = some (.link linkTarget) → t'.node (dst ++ q) = none
  kept : t.node (src ++ q) = none →
    (∀ p linkTarget, p <+: q → t.node (src ++ p) ≠ some (.link linkTarget)) →
      t'.node (dst ++ q) = t.node (dst ++ q)

/-- At `q` the target is in the way: a file of a directory or a directory of a file. A link
must not have an absolute target. -/
def BlockedAt (t : Tree Name Contents) (q : Loc Name) : Prop :=
  (t.node (src ++ q) = some .dir ∧
      ∃ contents mode, t.node (dst ++ q) = some (.file contents mode)) ∨
    ((∃ contents mode, t.node (src ++ q) = some (.file contents mode)) ∧
      t.node (dst ++ q) = some .dir) ∨
    ∃ linkTarget, t.node (src ++ q) = some (.link linkTarget) ∧ isAbsolute linkTarget = true

/-- What `move_recursive` comes to. -/
structure Outcome (depth : Nat) (t : Tree Name Contents) (r : Except Failure Unit)
    (t' : Tree Name Contents) : Prop where
  moves : Moves host src dst t t'
  merged : r = .ok () → ∀ q, ¬ src <+: dst ++ q → MergedAt src dst t t' q ∧ ¬ BlockedAt src dst t q
  excused : r ≠ .ok () → (∃ q, BlockedAt src dst t q) ∨ Hindered host ∨
    ∃ q, t.node (src ++ q) = some .dir ∧ depth ≤ q.length

/-- What the turn of its loop for the entry `n` comes to. -/
structure EntryOutcome (depth : Nat) (n : Name) (t : Tree Name Contents) (r : Except Failure Unit)
    (t' : Tree Name Contents) : Prop where
  moves : Moves host src dst t t'
  frame : ∀ l, ¬ src ++ [n] <+: l → ¬ dst ++ [n] <+: l → t'.node l = t.node l
  merged : r = .ok () → ∀ q, MergedAt src dst t t' (n :: q) ∧ ¬ BlockedAt src dst t (n :: q)
  excused : r ≠ .ok () → (∃ q, BlockedAt src dst t (n :: q)) ∨ Hindered host ∨
    ∃ q, t.node (src ++ n :: q) = some .dir ∧ depth ≤ q.length

end Outcomes

variable {depth : Nat} {r : Except Failure Unit}

/-- A failure before anything is changed. -/
theorem EntryOutcome.of_hindered {e : Failure} (h : Hindered host) :
    EntryOutcome host src dst depth n t (.error e) t where
  moves := .refl t
  frame _ _ _ := rfl
  merged h := nomatch h
  excused _ := .inr (.inl h)

/-- A link at the destination that was removed makes no difference. -/
theorem EntryOutcome.of_replaced (hentry : t.node (src ++ [n]) ≠ none)
    (hapart : Apart src (dst ++ [n]))
    (hnode : ∀ m, t₁.node m = t.node m ∨ m = dst ++ [n] ∧ t₁.node m = none ∧
      ∃ linkTarget, t.node m = some (.link linkTarget))
    (h : EntryOutcome host src dst depth n t₁ r t₂) : EntryOutcome host src dst depth n t r t₂ := by
  have hsource : ∀ q, t₁.node (src ++ q) = t.node (src ++ q) := by
    intro q
    refine (hnode _).resolve_right fun ⟨heq, _⟩ => ?_
    exact (hapart.inside (List.prefix_append src q) (List.prefix_refl _)).ne heq
  have hblocked : ∀ q, BlockedAt src dst t₁ q ↔ BlockedAt src dst t q := by
    intro q
    rw [BlockedAt, BlockedAt, hsource]
    rcases hnode (dst ++ q) with hsame | ⟨-, hnone, linkTarget, hlink⟩
    · rw [hsame]
    · simp [hnone, hlink]
  have hmoves : Moves host src dst t t₁ := by
    refine Moves.of_places hapart fun m => ?_
    refine (hnode m).imp_right fun ⟨heq, hnone, _⟩ => .inr ⟨[], heq, .inl hentry, .inl hnone⟩
  refine ⟨hmoves.trans h.moves, fun l hs hd => ?_, fun hr q => ?_, fun hr => ?_⟩
  · rw [h.frame l hs hd]
    exact (hnode l).resolve_right fun ⟨heq, _⟩ => hd (heq ▸ List.prefix_refl _)
  · obtain ⟨hmerged, hfree⟩ := h.merged hr q
    refine ⟨⟨fun hne => ?_, fun hnone p linkTarget hp hlink => ?_, fun hnone hlinks => ?_⟩, ?_⟩
    · rw [← hsource] at hne ⊢
      exact hmerged.moved hne
    · rw [← hsource] at hnone hlink
      exact hmerged.replaced hnone p linkTarget hp hlink
    · have hq : q ≠ [] := by
        rintro rfl
        exact hentry hnone
      rw [← hsource] at hnone
      rw [hmerged.kept hnone fun p linkTarget hp => by rw [hsource]; exact hlinks p linkTarget hp]
      refine (hnode _).resolve_right fun ⟨heq, _⟩ => hq ?_
      exact (List.cons.inj (List.append_cancel_left heq)).2
    · rwa [← hblocked]
  · rcases h.excused hr with ⟨q, hq⟩ | hhost | ⟨q, hdir, hdepth⟩
    · exact .inl ⟨q, (hblocked _).mp hq⟩
    · exact .inr (.inl hhost)
    · rw [hsource] at hdir
      exact .inr (.inr ⟨q, hdir, hdepth⟩)

/-- Where an entry is no directory, it is alone at its place. -/
theorem node_below_entry (hdir : t.node (src ++ [n]) ≠ some .dir) {q : Loc Name} (hq : q ≠ []) :
    t.node (src ++ n :: q) = none := by
  refine Tree.node_eq_none_below below_concat (fun heq => hq ?_) hdir
  exact (List.cons.inj (List.append_cancel_left heq)).2.symm

/-- The links at or above a place below an entry are at or below the entry. -/
theorem link_below_entry (hdir : t.node src = some .dir) {p q : Loc Name} {linkTarget : Path Name}
    (hp : p <+: n :: q) (hlink : t.node (src ++ p) = some (.link linkTarget)) :
    ∃ p', p = n :: p' ∧ p' <+: q := by
  cases p with
  | nil =>
    rw [List.append_nil, hdir] at hlink
    cases hlink
  | cons m p' =>
    obtain ⟨rfl, hp'⟩ := List.cons_prefix_cons.mp hp
    exact ⟨p', rfl, hp'⟩

/-- What a move below an entry comes to, told from above: before it, at most the entry itself was
made a directory. -/
theorem Outcome.entry (h : Outcome host (src ++ [n]) (dst ++ [n]) depth t₁ r t₂)
    (hapart : Apart src (dst ++ [n])) (hdir : t.node (src ++ [n]) = some .dir)
    (hdst : t₁.node (dst ++ [n]) = some .dir)
    (hfree : ∀ contents mode, t.node (dst ++ [n]) ≠ some (.file contents mode))
    (hsource : ∀ q, t₁.node (src ++ q) = t.node (src ++ q))
    (hsame : ∀ m, m ≠ dst ++ [n] → t₁.node m = t.node m) (hmoves : Moves host src dst t t₁) :
    EntryOutcome host src dst depth n t r t₂ := by
  have hcons : ∀ l q : Loc Name, l ++ [n] ++ q = l ++ n :: q := fun l q =>
    (List.append_cons l n q).symm
  have hne : ∀ {q : Loc Name}, q ≠ [] → dst ++ n :: q ≠ dst ++ [n] := fun hq heq =>
    hq (List.cons.inj (List.append_cancel_left heq)).2
  -- Below the entry nothing has changed.
  have hblocked : ∀ q, BlockedAt (src ++ [n]) (dst ++ [n]) t₁ q ↔ BlockedAt src dst t (n :: q) := by
    intro q
    rw [BlockedAt, BlockedAt, hcons, hcons, hsource]
    by_cases hq : q = []
    · subst hq
      rw [hdir, hdst]
      simp [hfree]
    · rw [hsame _ (hne hq)]
  refine ⟨hmoves.trans (h.moves.of_child hapart), fun l hs hd => ?_, fun hr q => ?_, fun hr => ?_⟩
  · rw [h.moves.frame l ⟨fun hpre => absurd hpre hs, fun hpre => absurd hpre hd⟩]
    exact hsame l fun heq => hd (heq ▸ List.prefix_refl _)
  · have hnot : ¬ src ++ [n] <+: dst ++ [n] ++ q :=
      (hapart.inside (List.prefix_append src [n]) (List.prefix_append _ q)).1
    obtain ⟨hmerged, hunblocked⟩ := h.merged hr q hnot
    refine ⟨⟨fun hnode => ?_, fun hnone p linkTarget hp hlink => ?_, fun hnone hlinks => ?_⟩, ?_⟩
    · have hmoved := hmerged.moved
      rw [hcons, hcons, hsource] at hmoved
      exact hmoved hnode
    · have hsrc : t.node src = some .dir := by
        refine Tree.node_parent (n := n) ?_
        rw [hdir]
        exact Option.some_ne_none _
      obtain ⟨p', rfl, hp'⟩ := link_below_entry hsrc hp hlink
      have hreplaced := hmerged.replaced
      rw [hcons, hcons, hsource] at hreplaced
      refine hreplaced hnone p' linkTarget hp' ?_
      rw [hcons, hsource]
      exact hlink
    · have hq : q ≠ [] := by
        rintro rfl
        rw [hdir] at hnone
        cases hnone
      have hkept := hmerged.kept
      rw [hcons, hcons, hsource, hsame _ (hne hq)] at hkept
      refine hkept hnone fun p linkTarget hp => ?_
      rw [hcons, hsource]
      exact hlinks (n :: p) linkTarget (List.cons_prefix_cons.mpr ⟨rfl, hp⟩)
    · rwa [← hblocked]
  · rcases h.excused hr with ⟨q, hq⟩ | hhost | ⟨q, hq, hdepth⟩
    · exact .inl ⟨q, (hblocked q).mp hq⟩
    · exact .inr (.inl hhost)
    · rw [hcons, hsource] at hq
      exact .inr (.inr ⟨q, hq, hdepth⟩)

namespace Anchored

variable {srcPath dstPath linkTarget : Path Name}

/-- The turn of the loop for a link. -/
theorem entryOutcome_of_symlink (h : Anchored d.tree srcPath dstPath src dst)
    (hlink : d.tree.node (src ++ [n]) = some (.link linkTarget)) :
    Meets (moveSymlink host (srcPath ++ [.normal n]) (dstPath ++ [.normal n])) d fun r d' =>
      EntryOutcome host src dst depth n d.tree r d'.tree := by
  refine (h.meets_moveSymlink hlink).mono ?_
  rintro r d' (⟨rfl, habs, hnode⟩ | ⟨⟨e, rfl⟩, hwhy, hgone⟩)
  · refine ⟨h.moves_of_link hlink fun m => ?_, fun l _ hd => ?_, fun _ q => ⟨?_, ?_⟩, ?_⟩
    · rw [hnode]
      by_cases heq : dst ++ [n] = m
      · rw [if_pos heq]
        exact .inr ⟨heq ▸ List.prefix_refl _, .inr ⟨heq.symm, rfl⟩⟩
      · rw [if_neg heq]
        by_cases hpre : dst ++ [n] <+: m
        · rw [if_pos hpre]
          exact .inr ⟨hpre, .inl rfl⟩
        · rw [if_neg hpre]
          exact .inl rfl
    · rw [hnode, if_neg (fun heq : dst ++ [n] = l => hd (heq ▸ List.prefix_refl _)), if_neg hd]
    · by_cases hq : q = []
      · subst hq
        refine ⟨fun _ => by rw [hnode, if_pos rfl, hlink], fun hnone => ?_, fun hnone => ?_⟩ <;>
          · rw [hlink] at hnone
            cases hnone
      · have hbelow : d'.tree.node (dst ++ n :: q) = none := by
          rw [hnode, if_neg, if_pos below_concat]
          exact fun heq => hq (List.cons.inj (List.append_cancel_left heq)).2.symm
        refine ⟨fun hne => absurd (node_below_entry ?_ hq) hne, fun _ _ _ _ _ => hbelow, ?_⟩
        · rw [hlink]
          exact fun hd => nomatch hd
        · exact fun _ hlinks => absurd hlink (hlinks [n] linkTarget (List.prefix_append [n] q))
    · have hnotDir : d.tree.node (src ++ [n]) ≠ some .dir := by
        rw [hlink]
        exact fun hd => nomatch hd
      by_cases hq : q = []
      · subst hq
        rintro (⟨hd, -⟩ | ⟨⟨_, _, hf⟩, -⟩ | ⟨target, ht, hrel⟩)
        · exact hnotDir hd
        · rw [hlink] at hf
          cases hf
        · rw [hlink] at ht
          obtain rfl := Node.link.inj (Option.some.inj ht)
          rw [habs] at hrel
          cases hrel
      · have hnone := node_below_entry hnotDir hq
        rintro (⟨hd, -⟩ | ⟨⟨_, _, hf⟩, -⟩ | ⟨target, ht, -⟩)
        · rw [hnone] at hd
          cases hd
        · rw [hnone] at hf
          cases hf
        · rw [hnone] at ht
          cases ht
    · exact fun hr => absurd rfl hr
  · refine ⟨h.moves_of_link hlink fun m => ?_, fun l _ hd => ?_, (fun hr => nomatch hr),
      fun _ => ?_⟩
    · exact (hgone m).imp_right fun ⟨hpre, hnone⟩ => ⟨hpre, .inl hnone⟩
    · exact (hgone l).resolve_right fun ⟨hpre, _⟩ => hd hpre
    · rcases hwhy with hhindered | habs
      · exact .inr (.inl hhindered)
      · exact .inl ⟨[], .inr (.inr ⟨linkTarget, hlink, habs⟩)⟩

/-- The turn of the loop for a file. -/
theorem entryOutcome_of_file (h : Anchored d.tree srcPath dstPath src dst) {contents : Contents}
    {mode : Nat} (hfile : d.tree.node (src ++ [n]) = some (.file contents mode))
    (hlink : ∀ linkTarget, d.tree.node (dst ++ [n]) ≠ some (.link linkTarget)) :
    Meets (moveFile host (srcPath ++ [.normal n]) (dstPath ++ [.normal n])) d fun r d' =>
      EntryOutcome host src dst depth n d.tree r d'.tree := by
  have hentry : d.tree.node (src ++ [n]) ≠ none := by
    rw [hfile]
    exact Option.some_ne_none _
  have hapart := h.apart n hentry
  have hnotDir : d.tree.node (src ++ [n]) ≠ some .dir := by
    rw [hfile]
    exact fun hd => nomatch hd
  refine (h.meets_moveFile hfile hlink).mono ?_
  rintro r d' (⟨rfl, hdir, hnode⟩ | ⟨⟨e, rfl⟩, hwhy, hpart⟩)
  · refine ⟨Moves.of_places hapart fun m => ?_, fun l hs hd => ?_, fun _ q => ⟨?_, ?_⟩, ?_⟩
    · rw [hnode]
      by_cases heq : dst ++ [n] = m
      · rw [if_pos heq]
        exact .inr (.inr ⟨[], heq.symm, .inl hentry, .inr (.inl hfile.symm)⟩)
      · rw [if_neg heq]
        by_cases hs : src ++ [n] = m
        · rw [if_pos hs]
          exact .inr (.inl ⟨hs.symm, ⟨contents, mode, hs ▸ hfile⟩, rfl⟩)
        · rw [if_neg hs]
          exact .inl rfl
    · rw [hnode, if_neg (fun heq : dst ++ [n] = l => hd (heq ▸ List.prefix_refl _)),
        if_neg (fun heq : src ++ [n] = l => hs (heq ▸ List.prefix_refl _))]
    · by_cases hq : q = []
      · subst hq
        refine ⟨fun _ => by rw [hnode, if_pos rfl, hfile], fun hnone => ?_, fun hnone => ?_⟩ <;>
          exact absurd hnone hentry
      · have hnone := node_below_entry hnotDir hq
        refine ⟨fun hne => absurd hnone hne, fun _ p target hp ht => ?_, fun _ _ => ?_⟩
        · obtain ⟨p', rfl, -⟩ := link_below_entry h.leads_source.isDir hp ht
          by_cases hp' : p' = []
          · subst hp'
            rw [hfile] at ht
            cases ht
          · rw [node_below_entry hnotDir hp'] at ht
            cases ht
        · rw [hnode, if_neg, if_neg]
          · exact (hapart.inside (List.prefix_append src [n]) below_concat).ne
          · exact fun heq => hq (List.cons.inj (List.append_cancel_left heq)).2.symm
    · by_cases hq : q = []
      · subst hq
        rintro (⟨hd, -⟩ | ⟨-, hd⟩ | ⟨target, ht, -⟩)
        · exact hnotDir hd
        · exact hdir hd
        · rw [hfile] at ht
          cases ht
      · have hnone := node_below_entry hnotDir hq
        rintro (⟨hd, -⟩ | ⟨⟨_, _, hf⟩, -⟩ | ⟨target, ht, -⟩)
        · rw [hnone] at hd
          cases hd
        · rw [hnone] at hf
          cases hf
        · rw [hnone] at ht
          cases ht
    · exact fun hr => absurd rfl hr
  · refine ⟨Moves.of_places hapart fun m => ?_, fun l _ hd => ?_, (fun hr => nomatch hr),
      fun _ => ?_⟩
    · refine (hpart m).imp_right fun ⟨heq, hwhat⟩ => .inr ⟨[], heq, .inl hentry, .inr ?_⟩
      exact hwhat.imp_left fun hmoved => hmoved.trans hfile.symm
    · exact (hpart l).resolve_right fun ⟨heq, _⟩ => hd (heq ▸ List.prefix_refl _)
    · rcases hwhy with hfaulty | hdir
      · exact .inr (.inl (.inl hfaulty))
      · exact .inl ⟨[], .inr (.inl ⟨⟨contents, mode, hfile⟩, hdir⟩)⟩

/-- The turn of the loop for a directory, which is moved by `recur`. -/
theorem entryOutcome_of_dir (h : Anchored d.tree srcPath dstPath src dst)
    {recur : Path Name → Path Name → Io Unit}
    (hdir : d.tree.node (src ++ [n]) = some .dir)
    (hlink : ∀ linkTarget, d.tree.node (dst ++ [n]) ≠ some (.link linkTarget))
    (hsees : SeesLinks host (dst ++ [n]) d.tree)
    (hrecur : ∀ d₁ : Disk Name Contents,
      Anchored d₁.tree (srcPath ++ [.normal n]) (dstPath ++ [.normal n]) (src ++ [n]) (dst ++ [n]) →
        SeesLinks host (dst ++ [n]) d₁.tree →
        Meets (recur (srcPath ++ [.normal n]) (dstPath ++ [.normal n])) d₁ fun r d' =>
          Outcome host (src ++ [n]) (dst ++ [n]) depth d₁.tree r d'.tree) :
    Meets (do
      createDirAll host (dstPath ++ [.normal n])
      recur (srcPath ++ [.normal n]) (dstPath ++ [.normal n])) d fun r d' =>
        EntryOutcome host src dst depth n d.tree r d'.tree := by
  have hentry : d.tree.node (src ++ [n]) ≠ none := by
    rw [hdir]
    exact Option.some_ne_none _
  have hapart := h.apart n hentry
  have hcreate : Meets (createDirAll host (dstPath ++ [.normal n]) : Io Unit) d fun r d₁ =>
      (r = .ok () ∧ d₁.tree.node (dst ++ [n]) = some .dir ∧
        (∀ contents mode, d.tree.node (dst ++ [n]) ≠ some (.file contents mode)) ∧
        ∀ m, m ≠ dst ++ [n] → d₁.tree.node m = d.tree.node m) ∨
      ((∃ e, r = .error e) ∧ d₁.tree = d.tree ∧ (Faulty host ∨
        ∃ contents mode, d.tree.node (dst ++ [n]) = some (.file contents mode))) := by
    refine (h.leads_target.meets_createDirAll hlink).mono ?_
    rintro r d₁ (⟨rfl, hthere, htree⟩ | ⟨rfl, hnone, htree⟩ | ⟨herr, htree, hwhy⟩)
    · refine .inl ⟨rfl, by rw [htree, hthere], fun _ _ hf => ?_, fun m _ => by rw [htree]⟩
      rw [hthere] at hf
      cases hf
    · have hnode : ∀ m, d₁.tree.node m = if dst ++ [n] = m then some .dir else d.tree.node m := by
        intro m
        rw [htree, Tree.node_put]
        · rw [List.dropLast_concat]
          exact h.leads_target.isDir
        · rw [hnone]
          exact fun hd => nomatch hd
      refine .inl ⟨rfl, by rw [hnode, if_pos rfl], fun _ _ hf => ?_, fun m hm => ?_⟩
      · rw [hnone] at hf
        cases hf
      · rw [hnode, if_neg (Ne.symm hm)]
    · exact .inr ⟨herr, htree, hwhy⟩
  refine hcreate.bind ?_ ?_
  · rintro _ d₁ (⟨-, hdst, hfree, hsame⟩ | ⟨⟨e, he⟩, -⟩)
    swap
    · cases he
    have hsource : ∀ q, d₁.tree.node (src ++ q) = d.tree.node (src ++ q) := by
      intro q
      refine hsame _ ?_
      exact (hapart.inside (List.prefix_append src q) (List.prefix_refl _)).ne
    have hmoves : Moves host src dst d.tree d₁.tree := by
      refine Moves.of_places hapart fun m => ?_
      by_cases heq : m = dst ++ [n]
      · refine .inr (.inr ⟨[], heq, .inl hentry, .inr (.inl ?_)⟩)
        rw [heq, hdst, hdir]
      · exact .inl (hsame m heq)
    have hanchored := (h.of_moves hmoves).child ((hsource _).trans hdir) hdst
    have hsees₁ : SeesLinks host (dst ++ [n]) d₁.tree := by
      refine hsees.mono fun q linkTarget hlink' => ?_
      rw [← hlink', hsame]
      intro heq
      rw [heq, hdst] at hlink'
      cases hlink'
    refine (hrecur d₁ hanchored hsees₁).mono ?_
    intro r d' hout
    exact hout.entry hapart hdir hdst hfree hsource hsame hmoves
  · rintro e d₁ (⟨he, -⟩ | ⟨-, htree, hwhy⟩)
    · cases he
    · rw [htree]
      refine ⟨.refl _, fun _ _ _ => rfl, (fun hr => nomatch hr), fun _ => ?_⟩
      rcases hwhy with hfaulty | hfile
      · exact .inr (.inl (.inl hfaulty))
      · exact .inl ⟨[], .inl ⟨hdir, hfile⟩⟩

/-- A turn of the loop of `move_recursive`. -/
theorem meets_moveEntry (h : Anchored d.tree srcPath dstPath src dst)
    {recur : Path Name → Path Name → Io Unit} (hentry : d.tree.node (src ++ [n]) ≠ none)
    (hsees : SeesLinks host (dst ++ [n]) d.tree)
    (hrecur : ∀ d₁ : Disk Name Contents,
      Anchored d₁.tree (srcPath ++ [.normal n]) (dstPath ++ [.normal n]) (src ++ [n]) (dst ++ [n]) →
        SeesLinks host (dst ++ [n]) d₁.tree →
        Meets (recur (srcPath ++ [.normal n]) (dstPath ++ [.normal n])) d₁ fun r d' =>
          Outcome host (src ++ [n]) (dst ++ [n]) depth d₁.tree r d'.tree) :
    Meets (moveEntry host recur srcPath dstPath n) d fun r d' =>
      EntryOutcome host src dst depth n d.tree r d'.tree := by
  have hapart := h.apart n hentry
  obtain ⟨node, hnode⟩ := Option.ne_none_iff_exists'.mp hentry
  rw [moveEntry, meets_bind, meets_expired, Halfway.then_ok]
  cases hlate : host.late d.reads with
  | true => exact EntryOutcome.of_hindered (.inr ⟨_, .inl hlate⟩)
  | false =>
    simp only [Bool.false_eq_true, if_false, join_name]
    rw [meets_bind]
    refine meets_query (fun hf => .of_hindered (.inl ⟨_, hf⟩)) (fun _ _ => ?_)
      fun _ he => nomatch he
    rw [Halfway.then_ok, meets_bind]
    have hlstat : lstat d.tree (srcPath ++ [.normal n]) = .ok node := by
      rw [h.leads_source.lstat_name, hnode]
    refine meets_query (fun hf => .of_hindered (.inl ⟨_, hf⟩)) ?_ fun e he => ?_
    swap
    · exact absurd (hlstat.symm.trans he) (fun heq => nomatch heq)
    intro node' hread
    obtain rfl : node = node' := Except.ok.inj (hlstat.symm.trans hread)
    rw [Halfway.then_ok]
    generalize hd₀ : Disk.called (ν := Name) (β := Contents) _ _ = d₀
    have htree₀ : d₀.tree = d.tree := by
      rw [← hd₀]
      rfl
    have hleads : Leads d₀.tree dstPath dst := htree₀ ▸ h.leads_target
    refine (meets_replaceSymlink hleads (htree₀ ▸ hsees)).bind ?_ ?_
    · rintro _ d₁ (⟨-, hlink, hreplaced⟩ | ⟨⟨e, he⟩, -⟩)
      swap
      · cases he
      rw [htree₀] at hreplaced
      have hmoves : Moves host src dst d.tree d₁.tree := by
        refine Moves.of_places hapart fun m => ?_
        refine (hreplaced m).imp_right fun ⟨heq, hnone, _⟩ => ?_
        exact .inr ⟨[], heq, .inl hentry, .inl hnone⟩
      have hnode₁ : d₁.tree.node (src ++ [n]) = some node := by
        rw [← hnode]
        refine (hreplaced _).resolve_right fun ⟨heq, _⟩ => ?_
        exact (hapart.inside (List.prefix_append src [n]) (List.prefix_refl _)).ne heq
      have h₁ := h.of_moves hmoves
      cases node with
      | link linkTarget =>
        exact (h₁.entryOutcome_of_symlink hnode₁).mono fun r d' hout =>
          hout.of_replaced hentry hapart hreplaced
      | dir =>
        have hsees₁ : SeesLinks host (dst ++ [n]) d₁.tree := by
          refine hsees.mono fun q linkTarget hlink' => ?_
          rw [← hlink']
          refine ((hreplaced _).resolve_right fun ⟨_, hnone, _⟩ => ?_).symm
          rw [hnone] at hlink'
          cases hlink'
        exact (h₁.entryOutcome_of_dir hnode₁ hlink hsees₁ hrecur).mono fun r d' hout =>
          hout.of_replaced hentry hapart hreplaced
      | file contents mode =>
        exact (h₁.entryOutcome_of_file hnode₁ hlink).mono fun r d' hout =>
          hout.of_replaced hentry hapart hreplaced
    · rintro e d₁ (⟨he, -⟩ | ⟨-, hfaulty, htree⟩)
      · cases he
      · rw [htree, htree₀]
        exact .of_hindered (.inl hfaulty)

end Anchored

/-- What the loop of `move_recursive` has done when so many entries are done. -/
structure Done (host : Host Name Contents) (src dst : Loc Name) (t : Tree Name Contents)
    (front : List Name) (t' : Tree Name Contents) : Prop where
  moves : Moves host src dst t t'
  merged : ∀ n ∈ front, ∀ q, MergedAt src dst t t' (n :: q) ∧ ¬ BlockedAt src dst t (n :: q)
  source : ∀ n ∉ front, ∀ q, t'.node (src ++ n :: q) = t.node (src ++ n :: q)
  target : ∀ n ∉ front, ∀ q, ¬ src <+: dst ++ n :: q →
    t'.node (dst ++ n :: q) = t.node (dst ++ n :: q)

variable {srcPath dstPath : Path Name}

/-- One more entry is done. -/
theorem Done.entry {front : List Name} (hdone : Done host src dst t front t₁)
    (h : Anchored t srcPath dstPath src dst) (hn : n ∉ front) (hentry : t.node (src ++ [n]) ≠ none)
    (hfront : ∀ m ∈ front, t.node (src ++ [m]) ≠ none)
    (hout : EntryOutcome host src dst depth n t₁ (.ok ()) t₂) :
    Done host src dst t (front ++ [n]) t₂ := by
  have hapart := h.apart n hentry
  have hother : ∀ {m : Name} {l : Loc Name} (q : Loc Name), m ≠ n → ¬ l ++ [n] <+: l ++ m :: q := by
    intro m l q hne hpre
    obtain ⟨heq, -⟩ := List.cons_prefix_cons.mp ((List.prefix_append_right_inj l).mp hpre)
    exact hne heq.symm
  have hsrc : ∀ {m : Name} (q : Loc Name), m ≠ n →
      t₂.node (src ++ m :: q) = t₁.node (src ++ m :: q) := fun q hne =>
    hout.frame _ (hother q hne)
      (hapart.inside (List.prefix_append src _) (List.prefix_refl _)).2
  have hdst : ∀ {m : Name} (q : Loc Name), m ≠ n → ¬ src <+: dst ++ m :: q →
      t₂.node (dst ++ m :: q) = t₁.node (dst ++ m :: q) := fun q hne hpre =>
    hout.frame _ (fun hp => hpre ((List.prefix_append src [n]).trans hp)) (hother q hne)
  have hnsrc := hdone.source n hn
  have hndst : ∀ q, t₁.node (dst ++ n :: q) = t.node (dst ++ n :: q) := fun q =>
    hdone.target n hn q (hapart.inside (List.prefix_refl _) below_concat).1
  refine ⟨hdone.moves.trans hout.moves, fun m hm q => ?_, fun m hm q => ?_, fun m hm q hpre => ?_⟩
  · rcases List.mem_append.mp hm with hdm | hm
    · have hne : m ≠ n := by
        rintro rfl
        exact hn hdm
      have hpre : ¬ src <+: dst ++ m :: q :=
        ((h.apart m (hfront m hdm)).inside (List.prefix_refl _) below_concat).1
      obtain ⟨hmerged, hfree⟩ := hdone.merged m hdm q
      have heq := hdst q hne hpre
      exact ⟨⟨fun hnode => heq.trans (hmerged.moved hnode),
        fun hnone p target hp hl => heq.trans (hmerged.replaced hnone p target hp hl),
        fun hnone hl => heq.trans (hmerged.kept hnone hl)⟩, hfree⟩
    · obtain rfl := List.mem_singleton.mp hm
      obtain ⟨hmerged, hfree⟩ := hout.merged rfl q
      rw [BlockedAt, hnsrc, hndst] at hfree
      refine ⟨⟨fun hnode => ?_, fun hnone p target hp hl => ?_, fun hnone hl => ?_⟩, hfree⟩
      · rw [← hnsrc] at hnode ⊢
        exact hmerged.moved hnode
      · obtain ⟨p', rfl, -⟩ := link_below_entry h.leads_source.isDir hp hl
        rw [← hnsrc] at hnone hl
        exact hmerged.replaced hnone _ target hp hl
      · rw [← hnsrc] at hnone
        rw [hmerged.kept hnone, hndst]
        intro p target hp hlink
        obtain ⟨p', rfl, -⟩ :=
          link_below_entry (h.of_moves hdone.moves).leads_source.isDir hp hlink
        rw [hnsrc] at hlink
        exact hl _ target hp hlink
  · obtain ⟨hfront, hne⟩ := not_or.mp (mt List.mem_append.mpr hm)
    rw [hsrc q fun heq => hne (List.mem_singleton.mpr heq), hdone.source m hfront]
  · obtain ⟨hfront, hne⟩ := not_or.mp (mt List.mem_append.mpr hm)
    rw [hdst q (fun heq => hne (List.mem_singleton.mpr heq)) hpre, hdone.target m hfront q hpre]

/-- When all entries are done, so is the directory. -/
theorem Done.outcome (hdone : Done host src dst t (t.children src) t₁)
    (h : Anchored t srcPath dstPath src dst) :
    Outcome host src dst depth t (.ok ()) t₁ where
  moves := hdone.moves
  excused hr := absurd rfl hr
  merged _ q hpre := by
    have hsrc := h.leads_source.isDir
    have hdst := h.leads_target.isDir
    cases q with
    | nil =>
      have hdst₁ := (h.of_moves hdone.moves).leads_target.isDir
      refine ⟨⟨fun _ => ?_, fun hnone => ?_, fun hnone => ?_⟩, ?_⟩
      · rw [List.append_nil, List.append_nil, hdst₁, hsrc]
      · rw [List.append_nil, hsrc] at hnone
        cases hnone
      · rw [List.append_nil, hsrc] at hnone
        cases hnone
      · simp [BlockedAt, hsrc, hdst]
    | cons n q =>
      by_cases hn : n ∈ t.children src
      · exact hdone.merged n hn q
      · have hgone : ∀ q, t.node (src ++ n :: q) = none := by
          intro q
          have hnone : t.node (src ++ [n]) = none := by
            by_contra hnode
            exact hn (Tree.mem_children_iff.mpr hnode)
          by_cases hq : q = []
          · rw [hq, hnone]
          · refine node_below_entry ?_ hq
            rw [hnone]
            exact fun hd => nomatch hd
        refine ⟨⟨fun hnode => absurd (hgone q) hnode, fun _ p target hp hl => ?_,
          fun _ _ => ?_⟩, ?_⟩
        · obtain ⟨p', rfl, -⟩ := link_below_entry hsrc hp hl
          rw [hgone] at hl
          cases hl
        · exact hdone.target n hn q hpre
        · simp [BlockedAt, hgone]

/-- **`move_recursive`**, wherever it stops. -/
theorem Anchored.meets_moveRecursive : ∀ (depth : Nat) {d : Disk Name Contents} {src dst : Loc Name}
    {srcPath dstPath : Path Name}, Anchored d.tree srcPath dstPath src dst →
      SeesLinks host dst d.tree → Meets (moveRecursive host depth srcPath dstPath) d fun r d' =>
        Outcome host src dst depth d.tree r d'.tree
  | 0, d, src, dst, _, _, h, _ => by
    refine ⟨.refl _, (fun hr => nomatch hr), fun _ => .inr (.inr ⟨[], ?_, Nat.zero_le _⟩)⟩
    rw [List.append_nil]
    exact h.leads_source.isDir
  | depth + 1, d, src, dst, srcPath, dstPath, h, hsees => by
    have hread : readDir d.tree srcPath = .ok (d.tree.children src) := by
      rw [readDir, h.leads_source.resolve]
      simp [bind, Except.bind, h.leads_source.isDir]
    rw [moveRecursive, meets_bind]
    refine meets_query (fun hf => ?_) ?_ fun e he => ?_
    · exact ⟨.refl _, (fun hr => nomatch hr), fun _ => .inr (.inl (.inl ⟨_, hf⟩))⟩
    swap
    · rw [hread] at he
      cases he
    intro names hnames
    obtain rfl : d.tree.children src = names := Except.ok.inj (hread.symm.trans hnames)
    rw [Halfway.then_ok]
    refine (Meets.forM (fun front d' => Done host src dst d.tree front d'.tree)
      (fun e d' => Outcome host src dst (depth + 1) d.tree (.error e) d'.tree) ?_ ?_).mono ?_
    · exact ⟨.refl _, (fun _ hm => nomatch hm), fun _ _ _ => rfl, fun _ _ _ _ => rfl⟩
    · intro front n back d₁ hsplit hdone
      have hchild : ∀ m ∈ front ++ [n], d.tree.node (src ++ [m]) ≠ none := by
        intro m hm
        refine Tree.mem_children_iff.mp ?_
        rw [hsplit, List.append_cons]
        exact List.mem_append_left back hm
      have hentry := hchild n (List.mem_append_right front (List.mem_singleton_self n))
      have hn : n ∉ front := by
        have hnodup := d.tree.nodup_children src
        rw [hsplit] at hnodup
        intro hmem
        exact (List.nodup_append.mp hnodup).2.2 n hmem n List.mem_cons_self rfl
      have hnsrc := hdone.source n hn
      have h₁ := h.of_moves hdone.moves
      have hndst : ∀ q, d₁.tree.node (dst ++ n :: q) = d.tree.node (dst ++ n :: q) := fun q =>
        hdone.target n hn q ((h.apart n hentry).inside (List.prefix_refl _) below_concat).1
      refine (h₁.meets_moveEntry (by rw [hnsrc]; exact hentry) (hsees.entry hndst)
        fun d₂ h₂ hsees₂ => meets_moveRecursive depth h₂ hsees₂).mono ?_
      intro r d' hout
      cases r with
      | ok u =>
        change Done host src dst d.tree (front ++ [n]) d'.tree
        exact hdone.entry h hn hentry (fun m hm => hchild m (List.mem_append_left [n] hm)) hout
      | error e =>
        refine ⟨hdone.moves.trans hout.moves, (fun hr => nomatch hr), fun _ => ?_⟩
        rcases hout.excused (fun hr => nomatch hr) with ⟨q, hq⟩ | hhost | ⟨q, hdir, hdepth⟩
        · rw [BlockedAt, hnsrc, hndst] at hq
          exact .inl ⟨n :: q, hq⟩
        · exact .inr (.inl hhost)
        · rw [hnsrc] at hdir
          exact .inr (.inr ⟨n :: q, hdir, Nat.succ_le_succ hdepth⟩)
    · intro r d' hr
      cases r with
      | ok u =>
        have hall : Done host src dst d.tree (d.tree.children src) d'.tree := hr
        exact hall.outcome h
      | error e => exact hr

/-! ### Out of a temporary directory -/

section Temp

variable {target : Path Name} {base : Loc Name} {temp : Name}

/-- A directory below the target, no entry of which has its name, stands as a move needs it. -/
theorem anchored_of_steady (htarget : Steady t target base)
    (htemp : t.node (base ++ [temp]) = some .dir) (hfresh : t.node (base ++ [temp, temp]) = none) :
    Anchored t (target ++ [.normal temp]) target (base ++ [temp]) base := by
  have hbase : ∀ t' : Tree Name Contents,
      (∀ l, Outside (base ++ [temp]) base l → t'.node l = t.node l) → Leads t' target base := by
    intro t' ht'
    exact htarget t' fun m hm => ht' m
      ⟨fun hpre => absurd hpre (not_below_of hm), fun hpre => .inr (hm hpre)⟩
  refine ⟨fun t' ht' => (hbase t' ht').child ?_, hbase, fun n hn => ?_⟩
  · rw [ht' _ ⟨fun _ => rfl, fun _ => .inl rfl⟩]
    exact htemp
  · have hne : n ≠ temp := by
      rintro rfl
      rw [List.append_assoc] at hn
      exact hn hfresh
    constructor
    · intro hpre
      rw [List.prefix_append_right_inj] at hpre
      exact hne (List.singleton_prefix_cons_iff.mp hpre).symm
    · intro hpre
      rw [List.prefix_append_right_inj] at hpre
      exact hne (List.singleton_prefix_cons_iff.mp hpre)

/-- Nothing blocks below the name of the temporary directory. -/
theorem not_blockedAt_temp (hfresh : t.node (base ++ [temp, temp]) = none) {q : Loc Name}
    (hq : [temp] <+: q) : ¬ BlockedAt (base ++ [temp]) base t q := by
  obtain ⟨q, rfl⟩ := hq
  have hnone : t.node (base ++ [temp] ++ ([temp] ++ q)) = none := by
    by_cases hq : q = []
    · subst hq
      simpa using hfresh
    · refine node_below_entry (n := temp) ?_ hq
      rw [List.append_assoc]
      exact fun hd => nomatch hfresh.symm.trans hd
  rw [BlockedAt, hnone]
  simp

variable {d : Disk Name Contents} {depth : Nat}

/-- A workspace in which a directory with a file and a link was unpacked, over a directory where
the link is to be and a link where the directory is to be. -/
def unmoved : Disk Name Contents where
  tree := (((((((Tree.empty.put [[119]] .dir).put [[119], [2]] .dir).put [[119], [2], [3]]
    (.file [5] 0o644)).put [[119], [1]] (.link (absolute []))).put [[119], [9]] .dir).put
      [[119], [9], [1]] .dir).put [[119], [9], [1], [4]] (.file [6] 0o644)).put [[119], [9], [2]]
        (.link [.normal [1]])
  calls := 0
  reads := 0

/-- A host that breaks off every copy and renames nothing. -/
def breaking : Host Name Contents where
  fails k := 3 < k
  blind _ := false
  removed _ := []
  written _ := some []
  late _ := false

/-- A link at the destination that is not seen is followed. -/
example :
    let tree : Tree Name Contents := ((((Tree.empty.put [[119]] .dir).put [[119], [1]]
      (.link (absolute []))).put [[119], [9]] .dir).put [[119], [9], [1]] .dir).put
        [[119], [9], [1], [4]] (.file [6] 0o644)
    let host : Host Name Contents := { reliable with blind := fun _ => true }
    ((moveRecursive host 8 (absolute [[119]] ++ [.normal [9]]) (absolute [[119]])).run.run
      { tree, calls := 0, reads := 0 }).2.tree.node [[4]] = some (.file [6] 0o644) := by
  decide +kernel

end Temp

end Seed

end OpenabPty
