import OpenabPty.SeedLinks

/-!
# Unpacking an archive

What an archive can do while it is unpacked. The loop takes entries as long as the budgets last,
and what it has done then is what unpacking those entries does; neither that nor the permission
pass, which builds its path from the header again, changes anything outside of the directory that
the archive is unpacked into.
-/

namespace OpenabPty

open Paths Halfway

namespace Seed

/-- What is relied on of `unpack_in`, for a path that leads to a directory. -/
structure Crates.Sound (crates : Crates) : Prop where
  /-- Nothing is written outside of the directory. -/
  frame : ∀ {k entry p t root l}, Steady t p root → (root <+: l → l = root) →
    (crates.unpackIn k entry p t).2.node l = t.node l
  /-- What was written is in the directory, also by way of the links that are there. -/
  located : ∀ {k entry p t root path}, Steady t p root → entry.path = some path →
    isAbsolute path = false → (crates.unpackIn k entry p t).1 = .ok true →
      ∃ place, resolve (crates.unpackIn k entry p t).2 false (join p path) = .ok place ∧
        root <+: place
  /-- A name comes from the path of the entry. -/
  named : ∀ {k entry p t root n}, Steady t p root → t.node (root ++ [n]) = none →
    (crates.unpackIn k entry p t).2.node (root ++ [n]) ≠ none →
      ∃ path, entry.path = some path ∧ .normal n ∈ path

/-- No entry of an archive names the directory that it is unpacked into. A path has its root in
front only. -/
def Fresh (temp : Name) (entries : List (Except Errno Entry)) : Prop :=
  ∀ entry path, .ok entry ∈ entries → entry.path = some path →
    .rootDir ∉ path.tail ∧ .normal temp ∉ path

/-- What unpacking into `root` can have done. -/
structure Unpacked (root : Loc Name) (temp : Name) (t t' : Tree Name Contents) : Prop where
  frame : ∀ l, (root <+: l → l = root) → t'.node l = t.node l
  fresh : t.node (root ++ [temp]) = none → t'.node (root ++ [temp]) = none

section Containment

variable {crates : Crates} {host : Host Name Contents} {d : Disk Name Contents}
  {t t₁ t₂ : Tree Name Contents} {dest : Path Name} {root base : Loc Name} {temp : Name}
  {entry : Entry}

theorem Unpacked.refl : Unpacked root temp t t where
  frame _ _ := rfl
  fresh h := h

theorem Unpacked.trans (h₁ : Unpacked root temp t t₁) (h₂ : Unpacked root temp t₁ t₂) :
    Unpacked root temp t t₂ where
  frame l hl := (h₂.frame l hl).trans (h₁.frame l hl)
  fresh h := h₂.fresh (h₁.fresh h)

/-- The permission pass, of an entry that was written. -/
theorem meets_setPermissions (hdest : Steady d.tree dest root) (hrooted : Rooted dest)
    (hlex : lex [] dest = base ++ [temp])
    (hpath : ∀ path, entry.path = some path → .rootDir ∉ path.tail ∧ .normal temp ∉ path)
    (hlocated : ∀ path, entry.path = some path → isAbsolute path = false →
      ∃ place, resolve d.tree false (join dest path) = .ok place ∧ root <+: place) :
    Meets (setPermissions host dest entry) d fun _ d' => Unpacked root temp d.tree d'.tree := by
  rw [setPermissions]
  cases hp : entry.path with
  | none => exact .refl
  | some path =>
    obtain ⟨htail, hfresh⟩ := hpath path hp
    dsimp only
    rw [meets_bind]
    refine meets_look (fun _ => ?_) fun _ => ?_
    · rw [then_ok]
      exact meets_ite (fun hcond => absurd (Bool.and_eq_true_iff.mp hcond).2 Bool.false_ne_true)
        fun _ => .refl
    rw [then_ok]
    refine meets_ite (fun hcond => ?_) fun _ => .refl
    obtain ⟨hcontained, hfile⟩ := Bool.and_eq_true_iff.mp hcond
    -- The root of an absolute path is the disk's, and from there the name is missing.
    have hrel : isAbsolute path = false := by
      by_contra habs
      have habs : isAbsolute path = true := by simpa using habs
      have hjoin : join dest path = path := by rw [join, if_pos (.inl habs)]
      rw [hjoin, Rooted.startsWith_iff ⟨habs, htail⟩ hrooted, hlex] at hcontained
      exact not_prefix_lex hfresh (fun h => by simpa using h.length_le) hcontained
    obtain ⟨place, hplace, hbelow⟩ := hlocated path hp hrel
    have hnode : ∃ contents mode, d.tree.node place = some (.file contents mode) := by
      rw [lstat, hplace] at hfile
      cases hn : d.tree.node place with
      | none => simp [bind, Except.bind, hn] at hfile
      | some node =>
        cases node with
        | dir | link target => simp [bind, Except.bind, hn, Node.isFile] at hfile
        | file contents mode => exact ⟨contents, mode, rfl⟩
    obtain ⟨contents, mode, hnode⟩ := hnode
    have hnotDir : d.tree.node place ≠ some .dir := by
      rw [hnode]
      rintro ⟨⟩
    have hne : place ≠ root := by
      rintro rfl
      exact hnotDir hdest.leads.isDir
    have hfollowed : resolve d.tree true (join dest path) = .ok place := by
      refine walk_true_of_ne_link hplace fun target hlink => ?_
      rw [hnode] at hlink
      cases hlink
    have hput : ∀ node l, l ≠ place → (d.tree.put place node).node l = d.tree.node l := by
      intro node l hl
      rw [Tree.node_put (Tree.node_dropLast (by rw [hnode]; exact Option.some_ne_none _)) hnotDir,
        if_neg (Ne.symm hl)]
    refine meets_bind.mpr (meets_attempt (fun _ => .refl) (fun t' ht' => ?_) fun _ _ => .refl)
    rw [Disk.called_tree, chmod, hfollowed] at ht'
    simp only [bind, Except.bind, hnode, Except.ok.injEq] at ht'
    subst ht'
    refine ⟨fun l hl => hput _ l ?_, fun hnone => ?_⟩
    · rintro rfl
      exact hne (hl hbelow)
    · refine (hput _ _ ?_).trans hnone
      rintro rfl
      rw [hnone] at hnode
      cases hnode

/-- What an entry that is within the budgets does. -/
theorem meets_extractEntry (hcrates : crates.Sound) (hdest : Steady d.tree dest root)
    (hrooted : Rooted dest) (hlex : lex [] dest = base ++ [temp])
    (hpath : ∀ path, entry.path = some path → .rootDir ∉ path.tail ∧ .normal temp ∉ path) :
    Meets (extractEntry crates host dest entry) d fun _ d' =>
      Unpacked root temp d.tree d'.tree := by
  rw [extractEntry]
  refine meets_ite (fun _ => .refl) fun _ => ?_
  rw [meets_bind, unpackIn, meets_step]
  have hunpacked : Unpacked root temp d.tree (crates.unpackIn d.calls entry dest d.tree).2 := by
    refine ⟨fun l hl => hcrates.frame hdest hl, fun hnone => ?_⟩
    by_contra hsome
    obtain ⟨path, hp, htemp⟩ := hcrates.named hdest hnone hsome
    exact (hpath path hp).2 htemp
  have hlocated : ∀ path, entry.path = some path → isAbsolute path = false →
      (crates.unpackIn d.calls entry dest d.tree).1 = .ok true → ∃ place,
        resolve (crates.unpackIn d.calls entry dest d.tree).2 false (join dest path) = .ok place ∧
          root <+: place :=
    fun path hp hrel => hcrates.located hdest hp hrel
  have hdest' := hdest.of_frame hunpacked.frame
  generalize crates.unpackIn d.calls entry dest d.tree = called at hunpacked hlocated hdest' ⊢
  rcases called with ⟨e | written, t₁⟩
  · exact hunpacked
  · dsimp only [Except.mapError]
    rw [then_ok]
    refine meets_ite (fun hwritten => ?_) fun _ => hunpacked
    have hset : Meets (setPermissions host dest entry) (d.called t₁) fun _ d' =>
        Unpacked root temp t₁ d'.tree :=
      meets_setPermissions hdest' hrooted hlex hpath fun path hp hrel =>
        hlocated path hp hrel (by rw [hwritten])
    exact hset.mono fun r d' h => hunpacked.trans h

/-! ### The budgets -/

/-- Entries unpacked one after the other, with no budget and no clock. -/
def unpackAll (crates : Crates) (host : Host Name Contents) (dest : Path Name)
    (entries : List Entry) : Io Unit :=
  entries.forM (extractEntry crates host dest)

/-- What entries say that they have. -/
def sizes : List Entry → Nat
  | [] => 0
  | entry :: entries => entry.size + sizes entries

/-- Why the loop stops before the next entry, when it has taken so many. -/
inductive Refused (host : Host Name Contents) (maxFileCount maxExtractedBytes : Nat)
    (taken : List Entry) : List (Except Errno Entry) → Failure → Prop where
  | unreadable (e : Errno) (rest : List (Except Errno Entry)) :
      Refused host maxFileCount maxExtractedBytes taken (.error e :: rest) (.io e)
  | tooMany (entry : Entry) (rest : List (Except Errno Entry))
      (h : taken.length = maxFileCount) :
      Refused host maxFileCount maxExtractedBytes taken (.ok entry :: rest)
        (.tooManyEntries (maxFileCount + 1) maxFileCount)
  | timedOut (entry : Entry) (rest : List (Except Errno Entry)) (k : Nat)
      (h : host.late k = true) (hten : (taken.length + 1) % 10 = 0) :
      Refused host maxFileCount maxExtractedBytes taken (.ok entry :: rest)
        (.timedOutAtEntry (taken.length + 1))
  | tooLarge (entry : Entry) (rest : List (Except Errno Entry))
      (h : maxExtractedBytes < sizes (taken ++ [entry]) % 2 ^ 64) :
      Refused host maxFileCount maxExtractedBytes taken (.ok entry :: rest)
        (.tooLarge (sizes (taken ++ [entry]) % 2 ^ 64) maxExtractedBytes)

/-- The entries are within the budgets, however many of them are counted. -/
structure Within (maxFileCount maxExtractedBytes : Nat) (taken : List Entry) : Prop where
  count : taken.length ≤ maxFileCount
  bytes : ∀ front, front <+: taken → front ≠ [] → sizes front % 2 ^ 64 ≤ maxExtractedBytes

/-- A run of the loop is a plain run on the entries that were taken, and a refusal of the next. -/
structure Prefixed (crates : Crates) (host : Host Name Contents) (dest : Path Name)
    (maxFileCount maxExtractedBytes : Nat) (front : List Entry)
    (entries : List (Except Errno Entry)) (d : Disk Name Contents) (r : Except Failure Unit)
    (t' : Tree Name Contents) (taken : List Entry) (rest : List (Except Errno Entry)) : Prop where
  split : entries = taken.map .ok ++ rest
  within : Within maxFileCount maxExtractedBytes (front ++ taken)
  tree : ((unpackAll crates host dest taken).run.run d).2.tree = t'
  result : ((unpackAll crates host dest taken).run.run d).1 = r ∧ (r = .ok () → rest = []) ∨
    ((unpackAll crates host dest taken).run.run d).1 = .ok () ∧ ∃ e, r = .error e ∧
      Refused host maxFileCount maxExtractedBytes (front ++ taken) rest e

theorem clockless_unpackIn : Clockless (unpackIn crates entry dest) := by
  intro d k
  rw [unpackIn, run_step, run_step]
  dsimp only
  rcases crates.unpackIn d.calls entry dest d.tree with ⟨written, t⟩
  rfl

theorem clockless_setPermissions : Clockless (setPermissions host dest entry) := by
  rw [setPermissions]
  cases entry.path with
  | none => exact Clockless.pure ()
  | some path =>
    refine (Clockless.look _ _).bind fun seen => ?_
    dsimp only
    split_ifs
    · exact (Clockless.attempt _ _).bind fun _ => Clockless.pure ()
    · exact Clockless.pure ()

theorem clockless_extractEntry (crates : Crates) (host : Host Name Contents) (dest : Path Name)
    (entry : Entry) : Clockless (extractEntry crates host dest entry) := by
  rw [extractEntry]
  split
  · exact Clockless.pure ()
  · refine clockless_unpackIn.bind fun written => ?_
    split
    · exact clockless_setPermissions
    · exact Clockless.pure ()

theorem unpackAll_cons (entries : List Entry) : unpackAll crates host dest (entry :: entries) =
    (do extractEntry crates host dest entry; unpackAll crates host dest entries) := rfl

theorem clockless_unpackAll (crates : Crates) (host : Host Name Contents) (dest : Path Name)
    (entries : List Entry) : Clockless (unpackAll crates host dest entries) :=
  Clockless.forM (clockless_extractEntry crates host dest) entries

variable {maxFileCount maxExtractedBytes : Nat} {front : List Entry}

theorem sizes_append_singleton (front : List Entry) (entry : Entry) :
    sizes (front ++ [entry]) = sizes front + entry.size := by
  induction front with
  | nil => exact Nat.add_comm _ _
  | cons first front ih => rw [List.cons_append, sizes, ih, sizes, Nat.add_assoc]

theorem Within.concat (h : Within maxFileCount maxExtractedBytes front)
    (hcount : front.length + 1 ≤ maxFileCount)
    (hbytes : sizes (front ++ [entry]) % 2 ^ 64 ≤ maxExtractedBytes) :
    Within maxFileCount maxExtractedBytes (front ++ [entry]) where
  count := by rwa [List.length_append]
  bytes front' hpre hne := by
    rcases List.prefix_concat_iff.mp hpre with rfl | hpre
    · exact hbytes
    · exact h.bytes front' hpre hne

theorem prefixed_extractEntries (entries : List (Except Errno Entry)) {front : List Entry}
    {d : Disk Name Contents} (hfront : Within maxFileCount maxExtractedBytes front) :
    Meets (extractEntries crates host dest maxFileCount maxExtractedBytes front.length
      (sizes front % 2 ^ 64) entries) d fun r d' => ∃ taken rest,
        Prefixed crates host dest maxFileCount maxExtractedBytes front entries d r d'.tree
          taken rest := by
  induction entries generalizing front d with
  | nil =>
    refine ⟨[], [], rfl, ?_, rfl, .inl ⟨rfl, fun _ => rfl⟩⟩
    rwa [List.append_nil]
  | cons entry entries ih =>
    -- Where the next entry is refused, nothing is done.
    have hrefused : ∀ {e k}, Refused host maxFileCount maxExtractedBytes front
        (entry :: entries) e → ∃ taken rest, Prefixed crates host dest maxFileCount
          maxExtractedBytes front (entry :: entries) d (.error e)
            ({ d with reads := k } : Disk Name Contents).tree taken rest := by
      intro e k he
      rw [← List.append_nil front] at he hfront
      exact ⟨[], entry :: entries, rfl, hfront, rfl, .inr ⟨rfl, e, rfl, he⟩⟩
    cases entry with
    | error e => exact hrefused (k := d.reads) (.unreadable e entries)
    | ok entry =>
      rw [extractEntries]
      dsimp only
      refine meets_ite (fun hmany => ?_) fun hmany => ?_
      · rw [meets_bind, meets_throw, then_error]
        have hcount : front.length = maxFileCount :=
          Nat.le_antisymm hfront.count (Nat.le_of_lt_succ hmany)
        rw [hcount]
        exact hrefused (k := d.reads) (.tooMany entry entries hcount)
      have hcount : front.length + 1 ≤ maxFileCount := Nat.le_of_not_lt hmany
      have hsum : (sizes front % 2 ^ 64 + entry.size) % 2 ^ 64 =
          sizes (front ++ [entry]) % 2 ^ 64 := by
        rw [sizes_append_singleton, Nat.mod_add_mod]
      rw [hsum]
      have htake : ∀ k, Meets (if sizes (front ++ [entry]) % 2 ^ 64 > maxExtractedBytes then do
            throw (.tooLarge (sizes (front ++ [entry]) % 2 ^ 64) maxExtractedBytes)
            extractEntry crates host dest entry
            extractEntries crates host dest maxFileCount maxExtractedBytes (front.length + 1)
              (sizes (front ++ [entry]) % 2 ^ 64) entries
          else do
            extractEntry crates host dest entry
            extractEntries crates host dest maxFileCount maxExtractedBytes (front.length + 1)
              (sizes (front ++ [entry]) % 2 ^ 64) entries) { d with reads := k } fun r d' =>
          ∃ taken rest, Prefixed crates host dest maxFileCount maxExtractedBytes front
            (.ok entry :: entries) d r d'.tree taken rest := by
        intro k
        refine meets_ite (fun hlarge => ?_) fun hlarge => ?_
        · rw [meets_bind, meets_throw, then_error]
          exact hrefused (.tooLarge entry entries hlarge)
        have hwithin := hfront.concat hcount (Nat.le_of_not_lt hlarge)
        rw [meets_bind, Meets, clockless_extractEntry crates host dest entry d k]
        rcases hrun : (extractEntry crates host dest entry).run.run d with ⟨e | _, d₁⟩
        · refine ⟨[entry], entries, rfl, hwithin, ?_, .inl ⟨?_, fun hr => nomatch hr⟩⟩
          · rw [unpackAll_cons, run_bind, hrun]
          · rw [unpackAll_cons, run_bind, hrun]
        · rw [then_ok]
          have hrest := ih (d := { d₁ with reads := k }) hwithin
          rw [List.length_append] at hrest
          refine hrest.mono ?_
          rintro r d' ⟨taken, rest, hprefixed⟩
          refine ⟨entry :: taken, rest, ?_⟩
          have hplain : (unpackAll crates host dest (entry :: taken)).run.run d =
              (unpackAll crates host dest taken).run.run d₁ := by
            rw [unpackAll_cons, run_bind, hrun]
          obtain ⟨hsplit, hin, htree, hresult⟩ := hprefixed
          rw [clockless_unpackAll crates host dest taken d₁ k] at htree hresult
          rw [List.append_assoc] at hin hresult
          refine ⟨by rw [hsplit]; rfl, hin, ?_, ?_⟩
          · rw [hplain]
            exact htree
          · rw [hplain]
            exact hresult
      refine meets_ite (fun hten => ?_) fun _ => htake d.reads
      rw [meets_bind, meets_expired, then_ok]
      refine meets_ite (fun hlate => ?_) fun _ => htake (d.reads + 1)
      rw [meets_bind, meets_throw, then_error]
      exact hrefused (.timedOut entry entries d.reads hlate hten)

/-- How much of the decompressed archive is read at most. -/
def ceiling (maxFileCount maxExtractedBytes : Nat) : Nat :=
  satAdd maxExtractedBytes (min (maxFileCount * 1024) u64Max)

/-- **The budgets cut an archive off, and do nothing else**: what an extraction does to the disk,
however it ends, is what plain unpacking of the first entries does. These are within the budgets,
and they are all of the archive, or the last of them failed, or the next one was refused. -/
theorem extractTarballBudgeted_takes (crates : Crates) (host : Host Name Contents)
    (data : Contents) (dest : Path Name) (maxFileCount maxExtractedBytes : Nat)
    (d : Disk Name Contents) :
    Meets (extractTarballBudgeted crates host data dest maxFileCount maxExtractedBytes) d
      fun r d' => match crates.entries data (ceiling maxFileCount maxExtractedBytes) with
        | .error e => r = .error (.io e) ∧ d' = d
        | .ok entries => ∃ taken rest, Prefixed crates host dest maxFileCount maxExtractedBytes []
            entries d r d'.tree taken rest := by
  rw [extractTarballBudgeted]
  change Meets (match crates.entries data (ceiling maxFileCount maxExtractedBytes) with
    | .error e => raise e
    | .ok entries =>
      extractEntries crates host dest maxFileCount maxExtractedBytes 0 0 entries) d _
  cases crates.entries data (ceiling maxFileCount maxExtractedBytes) with
  | error e => exact ⟨rfl, rfl⟩
  | ok entries =>
    have hnone : Within maxFileCount maxExtractedBytes [] :=
      ⟨Nat.zero_le _, fun front hpre hne => absurd (List.prefix_nil.mp hpre) hne⟩
    exact prefixed_extractEntries entries hnone

/-- Plain unpacking stays where it is. -/
theorem meets_unpackAll (hcrates : crates.Sound) (hdest : Steady d.tree dest root)
    (hrooted : Rooted dest) (hlex : lex [] dest = base ++ [temp]) {entries : List Entry}
    (hfresh : Fresh temp (entries.map .ok)) :
    Meets (unpackAll crates host dest entries) d fun _ d' => Unpacked root temp d.tree d'.tree := by
  refine (Meets.forM (fun _ d' => Unpacked root temp d.tree d'.tree)
    (fun _ d' => Unpacked root temp d.tree d'.tree) .refl ?_).mono ?_
  · intro front entry back d₁ hsplit hdone
    refine (meets_extractEntry hcrates (hdest.of_frame hdone.frame) hrooted hlex
      fun path hp => hfresh entry path ?_ hp).mono ?_
    · rw [hsplit]
      exact List.mem_map_of_mem (List.mem_append_right front List.mem_cons_self)
    · intro r d' h
      cases r <;> exact hdone.trans h
  · intro r d' h
    cases r <;> exact h

/-- **An archive changes nothing outside of the directory that it is unpacked into**, whatever it
holds, by whatever links, and whatever the host does. -/
theorem extractTarballBudgeted_contained (hcrates : crates.Sound)
    (hdest : Steady d.tree dest root) (hrooted : Rooted dest) (hlex : lex [] dest = base ++ [temp])
    {data : Contents} {maxFileCount maxExtractedBytes : Nat}
    (hfresh : ∀ entries, crates.entries data (ceiling maxFileCount maxExtractedBytes) =
      .ok entries → Fresh temp entries) :
    Meets (extractTarballBudgeted crates host data dest maxFileCount maxExtractedBytes) d
      fun _ d' => (∀ l, (root <+: l → l = root) → d'.tree.node l = d.tree.node l) ∧
        (d.tree.node (root ++ [temp]) = none → d'.tree.node (root ++ [temp]) = none) := by
  refine (extractTarballBudgeted_takes crates host data dest maxFileCount maxExtractedBytes
    d).mono ?_
  intro r d' h
  split at h
  · rw [h.2]
    exact ⟨fun _ _ => rfl, id⟩
  · rename_i entries hentries
    obtain ⟨taken, rest, hprefixed⟩ := h
    have hplain : Meets (unpackAll crates host dest taken) d fun _ d' =>
        Unpacked root temp d.tree d'.tree := by
      refine meets_unpackAll hcrates hdest hrooted hlex fun entry path hmem hp => ?_
      refine hfresh entries hentries entry path ?_ hp
      rw [hprefixed.split]
      exact List.mem_append_left rest hmem
    rw [← hprefixed.tree]
    exact ⟨hplain.frame, hplain.fresh⟩

end Containment

/-- A gzipped tar of an empty file `n` with the mode 600. -/
def noteArchive : Contents :=
  [0x1f, 0x8b, 8, 0, 0, 0, 0, 0, 2, 3, 203, 99, 160, 61, 48, 0, 2, 51, 3, 3, 48, 109, 128, 73, 99,
    97, 155, 25, 26, 24, 51, 40, 24, 208, 193, 109, 12, 165, 197, 37, 137, 69, 64, 43, 25, 70, 193,
    40, 24, 5, 163, 96, 100, 1, 0, 15, 252, 130, 151, 0, 6, 0, 0]

/-- Its entry. -/
def note : Entry where
  path := some [.normal [110]]
  size := 0
  entryType := .regular
  linkName := none
  mode := some 0o600

/-- A name that `tempfile` draws, `.tmpk3V0fQ`. -/
def noteTemp : Name := [46, 116, 109, 112, 107, 51, 86, 48, 102, 81]

/-- What the crates do with this archive, and with entries that are empty files. -/
def noteCrates : Crates where
  entries data limit :=
    if data = noteArchive ∧ 1536 ≤ limit then .ok [.ok note] else .error .inval
  unpackIn _ entry p t :=
    match entry.path, resolve t true p with
    | some [.normal n], .ok root =>
      if t.node (root ++ [n]) = some .dir then (.error .isDir, t)
      else
        (.ok true,
          t.put (root ++ [n]) (.file [] ((entry.mode.map fun mode => mode &&& 0o777).getD 0o644)))
    | _, _ => (.ok false, t)
  tempName _ := noteTemp

theorem noteCrates_entries {data : Contents} {limit : Nat} {entries : List (Except Errno Entry)}
    (h : noteCrates.entries data limit = .ok entries) : entries = [.ok note] := by
  simp only [noteCrates] at h
  split at h
  · exact (Except.ok.inj h).symm
  · cases h

theorem noteCrates_cases (k : Nat) (entry : Entry) {p : Path Name} {t : Tree Name Contents}
    {root : Loc Name} (h : Steady t p root) :
    ((noteCrates.unpackIn k entry p t).1 ≠ .ok true ∧ (noteCrates.unpackIn k entry p t).2 = t) ∨
    ∃ n mode, entry.path = some [.normal n] ∧ ∀ l, (noteCrates.unpackIn k entry p t).2.node l =
      if root ++ [n] = l then some (.file [] mode) else t.node l := by
  unfold noteCrates
  dsimp only
  rw [h.leads.resolve]
  split
  · rename_i n root' hpath hroot
    obtain rfl : root = root' := Except.ok.inj hroot
    split
    · exact .inl ⟨fun hok => (nomatch hok), rfl⟩
    · rename_i hdir
      refine .inr ⟨n, (entry.mode.map fun mode => mode &&& 0o777).getD 0o644, hpath, fun l => ?_⟩
      refine Tree.node_put ?_ hdir l
      rw [List.dropLast_concat]
      exact h.leads.isDir
  · exact .inl ⟨fun hok => (nomatch hok), rfl⟩

theorem noteCrates_sound : noteCrates.Sound where
  frame {k entry p t root l} h hl := by
    rcases noteCrates_cases k entry h with ⟨-, htree⟩ | ⟨n, _, -, hnode⟩
    · rw [htree]
    · rw [hnode, if_neg]
      rintro rfl
      exact absurd (hl (List.prefix_append root [n])) (by simp)
  located {k entry p t root path} h hpath _ hok := by
    rcases noteCrates_cases k entry h with ⟨hnot, -⟩ | ⟨n, _, hname, hnode⟩
    · exact absurd hok hnot
    · obtain rfl : path = [.normal n] := Option.some.inj (hpath.symm.trans hname)
      refine ⟨root ++ [n], ?_, List.prefix_append root [n]⟩
      rw [join_name]
      refine (h _ fun m hm => ?_).resolve_name n
      rw [hnode, if_neg]
      rintro rfl
      exact absurd (hm (List.prefix_append root [n])) (by simp)
  named {k entry p t root n} h hnone hsome := by
    rcases noteCrates_cases k entry h with ⟨-, htree⟩ | ⟨m, _, hname, hnode⟩
    · rw [htree] at hsome
      exact absurd hnone hsome
    · rw [hnode] at hsome
      split at hsome
      · rename_i heq
        obtain rfl : m = n := by simpa using heq
        exact ⟨_, hname, List.mem_singleton_self _⟩
      · exact absurd hnone hsome

/-- A workspace with a file, and with a directory in which an archive is unpacked. -/
def unpacking : Disk Name Contents where
  tree := ((Tree.empty.put [[119]] .dir).put [[119], [98]] (.file [1] 0o644)).put
    [[119], noteTemp] .dir
  calls := 0
  reads := 0

theorem extractTarballBudgeted_contained_note :
    Meets (extractTarballBudgeted noteCrates reliable noteArchive
      (absolute [[119], noteTemp]) 10 10) unpacking fun _ d' =>
        (∀ l, ([[119], noteTemp] <+: l → l = [[119], noteTemp]) →
          d'.tree.node l = unpacking.tree.node l) ∧
        (unpacking.tree.node ([[119], noteTemp] ++ [noteTemp]) = none →
          d'.tree.node ([[119], noteTemp] ++ [noteTemp]) = none) := by
  have hdest : Steady unpacking.tree (absolute [[119], noteTemp]) [[119], noteTemp] :=
    steady_absolute rfl
  have hlex : lex [] (absolute ([[119], noteTemp] : Loc Name)) = [[119]] ++ [noteTemp] :=
    lex_absolute _ _
  refine extractTarballBudgeted_contained noteCrates_sound hdest (Rooted.of_absolute _) hlex
    fun entries hentries entry path hmem hp => ?_
  obtain rfl := noteCrates_entries hentries
  obtain rfl : entry = note := Except.ok.inj (List.mem_singleton.mp hmem)
  obtain rfl : [.normal [110]] = path := Option.some.inj hp
  decide

/-- The file is there, with its mode. -/
example : ((extractTarballBudgeted noteCrates reliable noteArchive (absolute [[119], noteTemp]) 10
    10).run.run unpacking).2.tree.node [[119], noteTemp, [110]] = some (.file [] 0o600) := by
  decide +kernel

end Seed

end OpenabPty
