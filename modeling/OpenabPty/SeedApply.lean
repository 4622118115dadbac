import OpenabPty.SeedExtract
import OpenabPty.SeedMove

/-!
# Layers

What seeding is for: the archives of a directory are layers, and the workspace is what they come
to when each is laid over what is below it, in the order of their names. A seed that succeeds has
done that with the archives that the host showed it; a seed that fails names the archive at which
it stopped, and the archives before it are laid as they should be.
-/

namespace OpenabPty

open Paths Halfway

namespace Seed

/-- A layer over what is below it: below a link of the layer there is nothing. -/
noncomputable def overlay (layer below : Loc Name → Option (Node Name Contents)) (q : Loc Name) :
    Option (Node Name Contents) :=
  open Classical in
  match layer q with
  | some node => some node
  | none => if ∃ p linkTarget, p <+: q ∧ layer p = some (.link linkTarget) then none else below q

/-- What there is at a place and below it. -/
def below (t : Tree Name Contents) (l : Loc Name) (q : Loc Name) : Option (Node Name Contents) :=
  t.node (l ++ q)

variable {crates : Crates} {host : Host Name Contents} {t t' : Tree Name Contents}
  {src dst q : Loc Name}

/-- Where a directory was merged, it lies over the other. -/
theorem MergedAt.overlay (h : MergedAt src dst t t' q) :
    below t' dst q = overlay (below t src) (below t dst) q := by
  rw [Seed.overlay]
  cases hnode : below t src q with
  | some node =>
    dsimp only
    rw [← hnode]
    refine h.moved ?_
    rw [← below, hnode]
    exact Option.some_ne_none _
  | none =>
    dsimp only
    split
    · rename_i hlink
      obtain ⟨p, linkTarget, hp, hlink⟩ := hlink
      exact h.replaced hnode p linkTarget hp hlink
    · rename_i hlinks
      exact h.kept hnode fun p linkTarget hp hlink => hlinks ⟨p, linkTarget, hp, hlink⟩

theorem overlay_congr {layer below₁ below₂ : Loc Name → Option (Node Name Contents)}
    (h : below₁ q = below₂ q) : overlay layer below₁ q = overlay layer below₂ q := by
  rw [overlay, overlay, h]

section Apply

variable {d : Disk Name Contents} {depth : Nat} {data : Contents} {target : Path Name}
  {base : Loc Name}

/-- The tree with an archive unpacked, in a directory of its own. -/
structure Staged (crates : Crates) (host : Host Name Contents) (data : Contents)
    (target : Path Name) (base : Loc Name) (t : Tree Name Contents) (temp : Name)
    (staged : Tree Name Contents) : Prop where
  vacant : t.node (base ++ [temp]) = none
  unpacked : ∃ d₁ d₂, d₁.tree = t.put (base ++ [temp]) .dir ∧ d₂.tree = staged ∧
    (extractTarballBudgeted crates host data (target ++ [.normal temp]) defaultMaxFileCount
      defaultMaxExtractedBytes).run.run d₁ = (.ok (), d₂)

/-- No archive of these bytes names the directory that it is unpacked into. -/
def FreshData (crates : Crates) (data : Contents) : Prop :=
  ∀ k entries, crates.entries data (ceiling defaultMaxFileCount defaultMaxExtractedBytes) =
    .ok entries → Fresh (crates.tempName k) entries

/-- What an archive that was applied has done to the target, what is left of its temporary
directory where the host failed to remove it aside. -/
def Laid (crates : Crates) (host : Host Name Contents) (target : Path Name) (base : Loc Name)
    (data : Contents) (t t' : Tree Name Contents) : Prop :=
  ∃ k staged, Staged crates host data target base t (crates.tempName k) staged ∧
    ∀ q, ([crates.tempName k] <+: q → ¬ Faulty host) →
      below t' base q = overlay (below staged (base ++ [crates.tempName k])) (below t base) q

/-- What an archive that was not applied to its end may have done. -/
def HalfLaid (crates : Crates) (host : Host Name Contents) (target : Path Name) (base : Loc Name)
    (data : Contents) (t t' : Tree Name Contents) : Prop :=
  ∃ k, ∀ q, ([crates.tempName k] <+: q → ¬ Faulty host) → below t' base q = below t base q ∨
    ∃ staged, Staged crates host data target base t (crates.tempName k) staged ∧
      Claimed (base ++ [crates.tempName k]) staged q ∧ (below t' base q = none ∨
        below t' base q = below staged (base ++ [crates.tempName k]) q ∨
        Torn host (base ++ [crates.tempName k]) staged q (below t' base q))

/-- What applying an archive comes to. -/
structure Applied (crates : Crates) (host : Host Name Contents) (target : Path Name)
    (base : Loc Name) (data : Contents) (t : Tree Name Contents) (r : Except Failure Unit)
    (t' : Tree Name Contents) : Prop where
  frame : ∀ l, (base <+: l → l = base) → t'.node l = t.node l
  laid : r = .ok () → Laid crates host target base data t t'
  half : r ≠ .ok () → HalfLaid crates host target base data t t'

/-- The temporary directory goes, whatever else happens. -/
theorem meets_removeTemp {temp : Name} (h : Leads d.tree target base)
    (hdir : d.tree.node (base ++ [temp]) = some .dir) :
    Meets (removeDirAll host (target ++ [.normal temp]) : Io Unit) d fun _ d' =>
      (∀ l, ¬ base ++ [temp] <+: l → d'.tree.node l = d.tree.node l) ∧
      (Faulty host ∨ ∀ l, base ++ [temp] <+: l → d'.tree.node l = none) := by
  have hne : base ++ [temp] ≠ [] := List.append_ne_nil_of_right_ne_nil base (List.cons_ne_nil _ [])
  refine (h.meets_removeDirAll hdir).mono ?_
  rintro r d' (⟨-, htree⟩ | ⟨-, hfails, hpart⟩)
  · refine ⟨fun l hl => ?_, .inr fun l hl => ?_⟩
    · rw [htree, Tree.node_prune hne, if_neg hl]
    · rw [htree, Tree.node_prune hne, if_pos hl]
  · exact ⟨fun l hl => (hpart l).resolve_right fun h => hl h.1, .inl ⟨_, hfails⟩⟩

/-- What unpacking and moving come to, before the temporary directory goes. -/
structure Unclean (crates : Crates) (host : Host Name Contents) (target : Path Name)
    (base : Loc Name) (data : Contents) (t : Tree Name Contents) (temp : Name)
    (r : Except Failure Unit) (t' : Tree Name Contents) : Prop where
  frame : ∀ l, (base <+: l → l = base) → t'.node l = t.node l
  staging : t'.node (base ++ [temp]) = some .dir
  laid : r = .ok () → ∃ staged, Staged crates host data target base t temp staged ∧
    staged.node (base ++ [temp, temp]) = none ∧ ∀ q, ¬ [temp] <+: q →
      below t' base q = overlay (below staged (base ++ [temp])) (below t base) q
  half : r ≠ .ok () → ∀ q, ¬ [temp] <+: q → below t' base q = below t base q ∨
    ∃ staged, Staged crates host data target base t temp staged ∧
      Claimed (base ++ [temp]) staged q ∧ (below t' base q = none ∨
        below t' base q = below staged (base ++ [temp]) q ∨
        Torn host (base ++ [temp]) staged q (below t' base q))

/-- Below a place with nothing there is nothing. -/
theorem node_eq_none_of_vacant {l : Loc Name} {n : Name} (h : t.node (l ++ [n]) = none)
    (q : Loc Name) : t.node (l ++ ([n] ++ q)) = none := by
  by_cases hq : q = []
  · rw [hq, List.append_nil, h]
  · refine node_below_entry ?_ hq
    rw [h]
    exact fun hd => nomatch hd

/-- A place below the target that is not below the temporary directory. -/
theorem not_below_temp {temp : Name} (hq : ¬ [temp] <+: q) : ¬ base ++ [temp] <+: base ++ q := by
  rwa [List.prefix_append_right_inj]

/-! #### The temporary directory, just made -/

section Made

variable {temp : Name}

theorem node_made (htarget : Steady t target base) (hvacant : t.node (base ++ [temp]) = none)
    (l : Loc Name) : (t.put (base ++ [temp]) .dir).node l =
      if base ++ [temp] = l then some .dir else t.node l := by
  rw [Tree.node_put]
  · rw [List.dropLast_concat]
    exact htarget.leads.isDir
  · rw [hvacant]
    exact fun hd => nomatch hd

theorem below_made (htarget : Steady t target base) (hvacant : t.node (base ++ [temp]) = none)
    (hq : ¬ [temp] <+: q) : below (t.put (base ++ [temp]) .dir) base q = below t base q := by
  rw [below, node_made htarget hvacant, if_neg]
  · rfl
  · intro heq
    exact not_below_temp hq ⟨[], (List.append_nil _).trans heq⟩

theorem steady_made (htarget : Steady t target base) (hvacant : t.node (base ++ [temp]) = none) :
    Steady (t.put (base ++ [temp]) .dir) target base := by
  refine htarget.of_frame fun m hm => ?_
  rw [node_made htarget hvacant, if_neg]
  rintro rfl
  exact absurd (hm (List.prefix_append base [temp])) (by simp)

theorem staging_made (htarget : Steady t target base) (hvacant : t.node (base ++ [temp]) = none) :
    (t.put (base ++ [temp]) .dir).node (base ++ [temp]) = some .dir := by
  rw [node_made htarget hvacant, if_pos rfl]

/-- It is empty. -/
theorem node_inside_made (htarget : Steady t target base)
    (hvacant : t.node (base ++ [temp]) = none) :
    (t.put (base ++ [temp]) .dir).node (base ++ [temp] ++ [temp]) = none := by
  rw [node_made htarget hvacant, if_neg (by simp)]
  refine Tree.node_eq_none_below (List.prefix_append _ [temp]) (by simp) ?_
  rw [hvacant]
  exact fun hd => nomatch hd

/-- Until something is moved, only the temporary directory has changed. -/
theorem Unclean.unmoved (htarget : Steady t target base) (hvacant : t.node (base ++ [temp]) = none)
    {t' : Tree Name Contents} (hframe : ∀ l, (base ++ [temp] <+: l → l = base ++ [temp]) →
      t'.node l = (t.put (base ++ [temp]) .dir).node l) (e : Failure) :
    Unclean crates host target base data t temp (.error e) t' := by
  refine ⟨fun l hl => ?_, ?_, (fun hr => nomatch hr), fun _ q hq => .inl ?_⟩
  · have hnot : ¬ base ++ [temp] <+: l := not_below_of hl
    rw [hframe l fun hpre => absurd hpre hnot, node_made htarget hvacant, if_neg]
    rintro rfl
    exact hnot (List.prefix_refl _)
  · rw [hframe _ fun _ => rfl, staging_made htarget hvacant]
  · rw [← below_made htarget hvacant hq, below, hframe _ fun hpre => absurd hpre (not_below_temp hq)]
    rfl

variable (host) in
/-- What is unpacked stays in it, and names no directory like it. -/
theorem meets_unpack (hcrates : crates.Sound) (hrooted : Rooted target)
    (htarget : Steady t target base) (hfresh : ∀ entries, crates.entries data
      (ceiling defaultMaxFileCount defaultMaxExtractedBytes) = .ok entries → Fresh temp entries)
    (hvacant : t.node (base ++ [temp]) = none) (hmade : d.tree = t.put (base ++ [temp]) .dir) :
    Meets (extractTarballBudgeted crates host data (target ++ [.normal temp])
      defaultMaxFileCount defaultMaxExtractedBytes) d fun _ d' =>
        (∀ l, (base ++ [temp] <+: l → l = base ++ [temp]) →
          d'.tree.node l = (t.put (base ++ [temp]) .dir).node l) ∧
        d'.tree.node (base ++ [temp] ++ [temp]) = none := by
  have hlex : lex [] (target ++ [.normal temp]) = lex [] target ++ [temp] := by
    rw [lex_append]
    rfl
  have hsteady : Steady d.tree (target ++ [.normal temp]) (base ++ [temp]) := by
    rw [hmade]
    exact (steady_made htarget hvacant).child (staging_made htarget hvacant)
  refine (extractTarballBudgeted_contained hcrates hsteady (hrooted.name temp) hlex hfresh).mono ?_
  rintro _ d' ⟨hframe, hnew⟩
  rw [hmade] at hframe hnew
  exact ⟨hframe, hnew (node_inside_made htarget hvacant)⟩

end Made

theorem meets_unclean (hcrates : crates.Sound) (hseen : ∀ k, host.blind k = false)
    (hrooted : Rooted target) (htarget : Steady t target base) {k : Nat}
    (hfresh : FreshData crates data)
    (hvacant : t.node (base ++ [crates.tempName k]) = none)
    (hmade : d.tree = t.put (base ++ [crates.tempName k]) .dir) :
    Meets (do
      if !startsWithMagic data then
        throw .badMagic
      extractTarballBudgeted crates host data (target ++ [.normal (crates.tempName k)])
        defaultMaxFileCount defaultMaxExtractedBytes
      if ← expired host then
        throw .timedOutBeforeApplying
      moveRecursive host depth (target ++ [.normal (crates.tempName k)]) target : Io Unit) d
        fun r d' => Unclean crates host target base data t (crates.tempName k) r d'.tree := by
  have hunpack := meets_unpack host hcrates hrooted htarget (hfresh k) hvacant hmade
  generalize crates.tempName k = temp at hvacant hmade hunpack ⊢
  refine meets_ite (fun _ => ?_) fun _ => ?_
  · rw [meets_bind, meets_throw, then_error]
    exact .unmoved htarget hvacant (fun l _ => by rw [hmade]) _
  rw [meets_bind, Meets]
  rw [Meets] at hunpack
  rcases hrun : (extractTarballBudgeted crates host data (target ++ [.normal temp])
    defaultMaxFileCount defaultMaxExtractedBytes).run.run d with ⟨e | _, d₂⟩
  · rw [hrun] at hunpack ⊢
    exact .unmoved htarget hvacant hunpack.1 e
  rw [hrun] at hunpack ⊢
  obtain ⟨hframe, hnew⟩ := hunpack
  rw [then_ok, meets_bind, meets_expired, then_ok]
  refine meets_ite (fun _ => ?_) fun _ => ?_
  · rw [meets_bind, meets_throw, then_error]
    exact .unmoved htarget hvacant hframe _
  have hsame : ∀ q, ¬ [temp] <+: q → below d₂.tree base q = below t base q := by
    intro q hq
    rw [← below_made htarget hvacant hq]
    exact hframe _ fun hpre => absurd hpre (not_below_temp hq)
  have hstaging : d₂.tree.node (base ++ [temp]) = some .dir := by
    rw [hframe _ fun _ => rfl, staging_made htarget hvacant]
  have htarget₂ : Steady d₂.tree target base :=
    (steady_made htarget hvacant).of_frame fun m hm =>
      hframe m fun hpre => absurd hpre (not_below_of hm)
  have hstaged : Staged crates host data target base t temp d₂.tree :=
    ⟨hvacant, d, d₂, hmade, rfl, hrun⟩
  have hfresh₂ : d₂.tree.node (base ++ [temp, temp]) = none := by
    rw [List.append_cons]
    exact hnew
  have hanchored := anchored_of_steady htarget₂ hstaging hfresh₂
  refine (Anchored.meets_moveRecursive (d := { d₂ with reads := d₂.reads + 1 }) depth
    hanchored fun _ => hseen).mono ?_
  intro r d' hout
  refine ⟨fun l hl => ?_, ?_, fun hr => ?_, fun _ q hq => ?_⟩
  · have hnot : ¬ base ++ [temp] <+: l := not_below_of hl
    rw [hout.moves.frame l ⟨fun hpre => absurd hpre hnot, fun hpre => .inr (hl hpre)⟩,
      hframe l fun hpre => absurd hpre hnot, node_made htarget hvacant, if_neg]
    rintro rfl
    exact hnot (List.prefix_refl _)
  · rcases hout.moves.source [] with hkept | ⟨⟨contents, mode, hfile⟩, -⟩
    · rw [List.append_nil] at hkept
      rw [hkept, hstaging]
    · rw [List.append_nil, hstaging] at hfile
      cases hfile
  · refine ⟨d₂.tree, hstaged, hfresh₂, fun q hq => ?_⟩
    rw [(hout.merged hr q (not_below_temp hq)).1.overlay]
    exact overlay_congr (hsame q hq)
  · rw [← hsame q hq]
    exact (hout.moves.target q (not_below_temp hq)).imp_right fun h => ⟨d₂.tree, hstaged, h⟩

/-- **`extract_and_apply`**, wherever it stops. -/
theorem meets_extractAndApply (hcrates : crates.Sound) (hseen : ∀ k, host.blind k = false)
    (hrooted : Rooted target) (htarget : Steady d.tree target base)
    (hfresh : FreshData crates data) :
    Meets (extractAndApply crates host depth data target) d fun r d' =>
      Applied crates host target base data d.tree r d'.tree := by
  have hunchanged : ∀ {e t'}, t' = d.tree →
      Applied crates host target base data d.tree (.error e) t' := by
    rintro e t' rfl
    exact ⟨fun _ _ => rfl, (fun hr => nomatch hr), fun _ => ⟨0, fun _ _ => .inl rfl⟩⟩
  rw [extractAndApply]
  refine htarget.leads.meets_createDirAll_self.bind ?_ fun e d₁ htree₁ => hunchanged htree₁
  intro _ d₁ htree₁
  rw [← htree₁] at htarget hunchanged ⊢
  rw [meets_bind, tempdirIn, meets_bind, meets_step, then_ok]
  dsimp only
  generalize hk : d₁.calls = k
  rw [join_name, meets_bind]
  have hmkdir : ∀ t, mkdir d₁.tree (target ++ [.normal (crates.tempName k)]) = .ok t →
      d₁.tree.node (base ++ [crates.tempName k]) = none ∧
        t = d₁.tree.put (base ++ [crates.tempName k]) .dir := by
    intro t ht
    rw [mkdir, htarget.leads.resolve_name] at ht
    cases hn : d₁.tree.node (base ++ [crates.tempName k]) with
    | none => exact ⟨rfl, by simpa [bind, Except.bind, hn] using ht.symm⟩
    | some node => simp [bind, Except.bind, hn] at ht
  refine meets_orRaise (fun _ e => hunchanged rfl) (fun t hmade => ?_)
    fun _ _ e => hunchanged rfl
  obtain ⟨hvacant, htree⟩ := hmkdir t hmade
  rw [then_ok, meets_pure, then_ok, meets_ensure]
  have hmade : (d₁.called t).tree = d₁.tree.put (base ++ [crates.tempName k]) .dir := htree
  refine (meets_unclean hcrates hseen hrooted htarget hfresh hvacant hmade).mono
    fun r d₂ hunclean => ?_
  have htarget₂ := htarget.of_frame hunclean.frame
  refine (meets_removeTemp htarget₂.leads hunclean.staging).mono ?_
  rintro _ d₃ ⟨hkept, hgone⟩
  have hkeptBelow : ∀ q, ¬ [crates.tempName k] <+: q →
      below d₃.tree base q = below d₂.tree base q := fun q hq => hkept _ (not_below_temp hq)
  have hgoneBelow : ∀ q, [crates.tempName k] <+: q → ¬ Faulty host →
      below d₃.tree base q = none ∧ below d₁.tree base q = none := by
    rintro q ⟨q, rfl⟩ hhost
    refine ⟨hgone.resolve_left hhost _ below_concat, ?_⟩
    exact node_eq_none_of_vacant hvacant q
  refine ⟨fun l hl => ?_, fun hr => ?_, fun hr => ⟨k, fun q hq => ?_⟩⟩
  · rw [hkept l (not_below_of hl), hunclean.frame l hl]
  · obtain ⟨staged, hstaged, hnone, hlaid⟩ := hunclean.laid hr
    refine ⟨k, staged, hstaged, fun q hq => ?_⟩
    by_cases hpre : [crates.tempName k] <+: q
    · obtain ⟨hgone₃, hgone₁⟩ := hgoneBelow q hpre (hq hpre)
      obtain ⟨q, rfl⟩ := hpre
      have hlayer : below staged (base ++ [crates.tempName k]) ([crates.tempName k] ++ q) = none :=
        node_eq_none_of_vacant (by rwa [List.append_assoc]) q
      rw [hgone₃, overlay, hlayer]
      dsimp only
      rw [show below d₁.tree base _ = none from hgone₁, ite_self]
    · rw [hkeptBelow q hpre]
      exact hlaid q hpre
  · by_cases hpre : [crates.tempName k] <+: q
    · obtain ⟨hgone₃, hgone₁⟩ := hgoneBelow q hpre (hq hpre)
      exact .inl (hgone₃.trans hgone₁.symm)
    · rw [hkeptBelow q hpre]
      exact hunclean.half hr q hpre

end Apply

/-! ### One archive after the other -/

section Archives

variable {d : Disk Name Contents} {depth : Nat} {dir target : Path Name} {base : Loc Name}

/-- What an archive lies over the target as. -/
def Layer (crates : Crates) (host : Host Name Contents) (target : Path Name) (base : Loc Name)
    (archive : Name → Except Errno Contents) (name : Name)
    (layer : Loc Name → Option (Node Name Contents)) : Prop :=
  ∃ data t temp staged, archive name = .ok data ∧
    Staged crates host data target base t temp staged ∧ layer = below staged (base ++ [temp])

/-- The target is what the layers of these archives come to, what is left of temporary
directories that the host failed to remove aside. -/
def Overlaid (crates : Crates) (host : Host Name Contents) (target : Path Name) (base : Loc Name)
    (archive : Name → Except Errno Contents) (names : List Name) (t t' : Tree Name Contents) :
    Prop :=
  ∃ layers, List.Forall₂ (Layer crates host target base archive) names layers ∧
    ∀ q, (∀ k, [crates.tempName k] <+: q → ¬ Faulty host) →
      below t' base q = layers.foldl (fun under layer => overlay layer under) (below t base) q

/-- What a seed comes to that stops at an archive. -/
def StopsAt (crates : Crates) (host : Host Name Contents) (target : Path Name) (base : Loc Name)
    (archive : Name → Except Errno Contents) (name : Name) (e : Failure)
    (t t' : Tree Name Contents) : Prop :=
  (∃ cause, e = .cannotReadArchive name cause ∧ t' = t) ∨
    ∃ cause data, e = .applying name cause ∧ archive name = .ok data ∧
      HalfLaid crates host target base data t t'

variable {archive : Name → Except Errno Contents}

theorem foldl_overlay_congr {layers : List (Loc Name → Option (Node Name Contents))}
    {under₁ under₂ : Loc Name → Option (Node Name Contents)} (h : under₁ q = under₂ q) :
    layers.foldl (fun under layer => overlay layer under) under₁ q =
      layers.foldl (fun under layer => overlay layer under) under₂ q := by
  induction layers generalizing under₁ under₂ with
  | nil => exact h
  | cons layer layers ih => exact ih (overlay_congr h)

theorem Overlaid.nil : Overlaid crates host target base archive [] t t :=
  ⟨[], .nil, fun _ _ => rfl⟩

/-- One more archive. -/
theorem Overlaid.cons {name : Name} {names : List Name} {t₁ : Tree Name Contents} {data : Contents}
    (hdata : archive name = .ok data) (hlaid : Laid crates host target base data t t₁)
    (h : Overlaid crates host target base archive names t₁ t') :
    Overlaid crates host target base archive (name :: names) t t' := by
  obtain ⟨k, staged, hstaged, hover⟩ := hlaid
  obtain ⟨layers, hlayers, heq⟩ := h
  refine ⟨below staged (base ++ [crates.tempName k]) :: layers, .cons ?_ hlayers, fun q hq => ?_⟩
  · exact ⟨data, t, _, staged, hdata, hstaged, rfl⟩
  · rw [heq q hq, List.foldl_cons]
    exact foldl_overlay_congr (hover q (hq k))

/-- **The loop of `apply_dir`**, wherever it stops. -/
theorem meets_applyArchives (hcrates : crates.Sound) (hseen : ∀ k, host.blind k = false)
    (hrooted : Rooted target) (hfresh : ∀ name data, archive name = .ok data → FreshData crates data) (names : List Name)
    {applied : Seeded} (htarget : Steady d.tree target base)
    (hread : ∀ t' : Tree Name Contents,
      (∀ l, (base <+: l → l = base) → t'.node l = d.tree.node l) →
        ∀ name, readFile t' (join dir [.normal name]) = archive name) :
    Meets (applyArchives crates host depth dir target applied names) d fun r d' =>
      (∀ l, (base <+: l → l = base) → d'.tree.node l = d.tree.node l) ∧
      match r with
      | .ok seeded => seeded.archives = applied.archives ++ names ∧
          Overlaid crates host target base archive names d.tree d'.tree
      | .error e => ∃ front name back t, names = front ++ name :: back ∧
          Overlaid crates host target base archive front d.tree t ∧
          StopsAt crates host target base archive name e t d'.tree := by
  induction names generalizing applied d with
  | nil =>
    refine ⟨fun _ _ => rfl, ?_⟩
    exact ⟨(List.append_nil _).symm, .nil⟩
  | cons name names ih =>
    rw [applyArchives, meets_bind, meets_context]
    have hunread : ∀ {e}, (∀ l, (base <+: l → l = base) → d.tree.node l = d.tree.node l) ∧
        ∃ front n back t, name :: names = front ++ n :: back ∧
          Overlaid crates host target base archive front d.tree t ∧
          StopsAt crates host target base archive n (.cannotReadArchive name e) t d.tree :=
      ⟨fun _ _ => rfl, [], name, names, d.tree, rfl, .nil, .inl ⟨_, rfl, rfl⟩⟩
    refine meets_query (fun _ => hunread) (fun data hdata => ?_) fun _ _ => hunread
    rw [hread d.tree fun _ _ => rfl] at hdata
    dsimp only [Except.mapError]
    rw [then_ok, meets_bind, meets_context]
    have htarget' : Steady (d.called d.tree).tree target base := htarget
    refine (meets_extractAndApply hcrates hseen hrooted htarget' (hfresh name data hdata)).mono
      fun r d₁ happlied => ?_
    cases r with
    | error e =>
      dsimp only [Except.mapError]
      rw [then_error]
      refine ⟨happlied.frame, [], name, names, d.tree, rfl, .nil, .inr ?_⟩
      exact ⟨e, data, rfl, hdata, happlied.half fun hr => nomatch hr⟩
    | ok u =>
      dsimp only [Except.mapError]
      rw [then_ok]
      have hlaid := happlied.laid rfl
      have hread₁ : ∀ t' : Tree Name Contents,
          (∀ l, (base <+: l → l = base) → t'.node l = d₁.tree.node l) →
            ∀ name, readFile t' (join dir [.normal name]) = archive name :=
        fun t' ht' => hread t' fun l hl => (ht' l hl).trans (happlied.frame l hl)
      refine (ih (htarget.of_frame happlied.frame) hread₁).mono fun r d' ⟨hframe, h⟩ =>
        ⟨fun l hl => ?_, ?_⟩
      · rw [hframe l hl, happlied.frame l hl]
        rfl
      · cases r with
        | ok seeded =>
          refine ⟨?_, .cons hdata hlaid h.2⟩
          rw [h.1, List.append_assoc]
          rfl
        | error e =>
          obtain ⟨front, n, back, t, hsplit, hover, hstops⟩ := h
          exact ⟨name :: front, n, back, t, by rw [hsplit]; rfl, .cons hdata hlaid hover, hstops⟩

/-- The file of this name in the directory is an archive. -/
def ArchiveFile (t : Tree Name Contents) (dir : Path Name) (name : Name) : Prop :=
  (∃ contents mode, stat t (join dir [.normal name]) = .ok (.file contents mode)) ∧
    archiveSuffix <:+ name

/-- Archives of a directory, in the order of their names: all of them, unless the host failed to
show one. -/
structure Archives (host : Host Name Contents) (t : Tree Name Contents) (dir : Path Name)
    (names : List Name) : Prop where
  sorted : names.Pairwise (· < ·)
  mem : ∀ name ∈ names, (∃ listed, readDir t dir = .ok listed ∧ name ∈ listed) ∧
    ArchiveFile t dir name
  all : ¬ Faulty host → ∀ listed name, readDir t dir = .ok listed → name ∈ listed →
    ArchiveFile t dir name → name ∈ names

theorem nodup_of_readDir {listed : List Name} (h : readDir t dir = .ok listed) : listed.Nodup := by
  rw [readDir] at h
  cases hr : resolve t true dir with
  | error e => simp [bind, Except.bind, hr] at h
  | ok l =>
    rw [hr] at h
    cases hn : t.node l with
    | none => simp [bind, Except.bind, hn] at h
    | some node =>
      cases node with
      | dir =>
        simp only [bind, Except.bind, hn, Except.ok.injEq] at h
        exact h ▸ t.nodup_children l
      | file contents mode | link linkTarget => simp [bind, Except.bind, hn] at h

theorem meets_isArchive (dir : Path Name) (name : Name) :
    Meets (isArchive host dir name) d fun r d' => d'.tree = d.tree ∧ ∃ found, r = .ok found ∧
      (found = true → ArchiveFile d.tree dir name) ∧
      (¬ Faulty host → ArchiveFile d.tree dir name → found = true) := by
  rw [isArchive, meets_bind]
  refine meets_look (fun hf => ?_) fun _ => ?_
  · exact ⟨rfl, false, rfl, (fun h => nomatch h), fun hhost _ => absurd ⟨_, hf⟩ hhost⟩
  rw [then_ok, meets_bind]
  refine meets_look (fun hf => ?_) fun _ => ?_
  · exact ⟨rfl, false, rfl, (fun h => nomatch h), fun hhost _ => absurd ⟨_, hf⟩ hhost⟩
  rw [then_ok, Disk.called_tree, ArchiveFile]
  cases hstat : stat d.tree (join dir [.normal name]) with
  | error e =>
    refine ⟨rfl, false, rfl, (fun h => nomatch h), ?_⟩
    rintro - ⟨⟨_, _, hfile⟩, -⟩
    cases hfile
  | ok node =>
    refine ⟨rfl, _, rfl, fun hfound => ?_, ?_⟩
    · obtain ⟨hfile, hsuffix⟩ := Bool.and_eq_true_iff.mp hfound
      refine ⟨?_, List.isSuffixOf_iff_suffix.mp hsuffix⟩
      cases node with
      | file contents mode => exact ⟨contents, mode, rfl⟩
      | dir | link linkTarget => cases hfile
    · rintro - ⟨⟨contents, mode, hfile⟩, hsuffix⟩
      cases hfile
      exact Bool.and_eq_true_iff.mpr ⟨rfl, List.isSuffixOf_iff_suffix.mpr hsuffix⟩

theorem meets_collectArchives (dir : Path Name) (listed : List Name) :
    Meets (collectArchives host dir listed) d fun r d' => d'.tree = d.tree ∧
      ∃ names, r = .ok names ∧ names.Sublist listed ∧
        (∀ name ∈ names, ArchiveFile d.tree dir name) ∧
        (¬ Faulty host → ∀ name ∈ listed, ArchiveFile d.tree dir name → name ∈ names) := by
  induction listed generalizing d with
  | nil =>
    exact ⟨rfl, [], rfl, .slnil, (fun _ h => absurd h List.not_mem_nil),
      fun _ _ h => absurd h List.not_mem_nil⟩
  | cons name listed ih =>
    rw [collectArchives]
    refine (meets_isArchive dir name).bind ?_ fun e d₁ ⟨_, found, h, _⟩ => nomatch h
    rintro found d₁ ⟨htree₁, _, ⟨⟩, hfound, hall⟩
    refine (ih (d := d₁)).bind ?_ fun e d₂ ⟨_, names, h, _⟩ => nomatch h
    rintro names d₂ ⟨htree₂, _, ⟨⟩, hsub, hnames, hrest⟩
    rw [htree₁] at htree₂ hnames hrest
    rw [meets_pure]
    refine ⟨htree₂, _, rfl, ?_⟩
    cases found with
    | true =>
      refine ⟨hsub.cons_cons name, List.forall_mem_cons.mpr ⟨hfound rfl, hnames⟩, ?_⟩
      intro hhost m hm harchive
      rcases List.mem_cons.mp hm with rfl | hm
      · exact List.mem_cons_self
      · exact List.mem_cons_of_mem name (hrest hhost m hm harchive)
    | false =>
      refine ⟨hsub.cons name, hnames, fun hhost m hm harchive => ?_⟩
      rcases List.mem_cons.mp hm with rfl | hm
      · exact absurd (hall hhost harchive) Bool.false_ne_true
      · exact hrest hhost m hm harchive

/-- What was found in the directory, sorted. -/
theorem archives_sortArchives {listed names : List Name} (h : readDir t dir = .ok listed)
    (hsub : names.Sublist listed) (hnames : ∀ name ∈ names, ArchiveFile t dir name)
    (hall : ¬ Faulty host → ∀ name ∈ listed, ArchiveFile t dir name → name ∈ names) :
    Archives host t dir (sortArchives names) where
  sorted := by
    have hsorted : (sortArchives names).Pairwise fun a b => decide (a ≤ b) = true :=
      List.pairwise_mergeSort
        (fun a b c hab hbc => by
          simpa using List.le_trans (by simpa using hab) (by simpa using hbc))
        (fun a b => by simpa using List.le_total a b) names
    have hnodup : (sortArchives names).Nodup :=
      (List.mergeSort_perm _ _).nodup_iff.mpr ((nodup_of_readDir h).sublist hsub)
    refine (hsorted.and hnodup).imp fun hle => ?_
    exact List.not_le.mp fun hba => hle.2 (List.le_antisymm (by simpa using hle.1) hba)
  mem name hname := by
    rw [sortArchives, List.mem_mergeSort] at hname
    exact ⟨⟨listed, h, hsub.subset hname⟩, hnames name hname⟩
  all hhost listed' name h' hname harchive := by
    obtain rfl := Except.ok.inj (h.symm.trans h')
    rw [sortArchives, List.mem_mergeSort]
    exact hall hhost name hname harchive

/-- Where there is no directory there are no archives. -/
theorem archives_nil (h : Faulty host ∨ ∃ e, stat t dir = .error e) : Archives host t dir [] where
  sorted := .nil
  mem _ hname := absurd hname List.not_mem_nil
  all hhost listed name hlisted _ _ := by
    obtain ⟨e, hstat⟩ := h.resolve_left hhost
    rw [stat] at hstat
    rw [readDir] at hlisted
    cases hr : resolve t true dir with
    | error e => simp [bind, Except.bind, hr] at hlisted
    | ok l =>
      cases hn : t.node l with
      | none => simp [bind, Except.bind, hr, hn] at hlisted
      | some node => simp [bind, Except.bind, hr, hn] at hstat

/-- What a seed comes to. -/
structure SeedOutcome (crates : Crates) (host : Host Name Contents) (dir target : Path Name)
    (base : Loc Name) (archive : Name → Except Errno Contents) (t : Tree Name Contents)
    (r : Except Failure Seeded) (t' : Tree Name Contents) : Prop where
  frame : ∀ l, (base <+: l → l = base) → t'.node l = t.node l
  success : ∀ seeded, r = .ok seeded → Archives host t dir seeded.archives ∧
    Overlaid crates host target base archive seeded.archives t t'
  failure : ∀ e, r = .error e → (∃ cause, e = .cannotRead dir cause ∧ t' = t) ∨
    ∃ front name back mid, Archives host t dir (front ++ name :: back) ∧
      Overlaid crates host target base archive front t mid ∧
      StopsAt crates host target base archive name e mid t'

/-- What is read of a directory that nothing was done to is as it was. -/
theorem readFile_name {place : Loc Name} {name : Name} (h : Leads t dir place)
    (h' : Leads t' dir place) (hsame : t'.node (place ++ [name]) = t.node (place ++ [name]))
    (hlink : ∀ linkTarget, t.node (place ++ [name]) ≠ some (.link linkTarget)) :
    readFile t' (join dir [.normal name]) = readFile t (join dir [.normal name]) := by
  rw [readFile, readFile, stat, stat, join_name, h.resolve_name_of_ne_link hlink,
    h'.resolve_name_of_ne_link (by rwa [hsame])]
  simp only [bind, Except.bind, hsame]

/-- `00.tar.gz` -/
def noteName : Name := [48, 48] ++ archiveSuffix

/-- A directory with an archive, and a workspace with a file. -/
def seeding : Disk Name Contents where
  tree := (((Tree.empty.put [[115]] .dir).put [[115], noteName] (.file noteArchive 0o644)).put
    [[119]] .dir).put [[119], [98]] (.file [1] 0o644)
  calls := 0
  reads := 0

/-- The file is in the workspace, and the temporary directory is gone. -/
example :
    let d := ((applyDir noteCrates reliable 8 (absolute [[115]]) (absolute [[119]])).run.run
      seeding).2
    d.tree.node [[119], [110]] = some (.file [] 0o600) ∧ d.tree.node [[119], noteTemp] = none := by
  decide +kernel

end Archives

end Seed

end OpenabPty
