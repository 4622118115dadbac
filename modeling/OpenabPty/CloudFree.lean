import OpenabPty.Config
import OpenabPty.Core.Pieces

/-!
# Cloud references in an accepted projection

Validation looks for a reference in every raw string and in every value that is put in its
place. What it accepts is these put together, and a reference may stand across the border of
two of them.
-/

namespace OpenabPty

open Pieces

namespace Config

/-- What no string of a projection may contain. -/
def forbidden : List String := ["://", "$\x7bsecrets."]

/-- The text holds nothing forbidden. -/
def Clean (text : Text) : Prop := ∀ pattern ∈ forbidden, ¬ pattern.toList <:+: text

instance (text : Text) : Decidable (Clean text) :=
  inferInstanceAs (Decidable (∀ pattern ∈ forbidden, ¬ pattern.toList <:+: text))

/-- The string-valued fields. -/
def PtyConfig.texts (config : PtyConfig) : List Text :=
  [config.listen, config.command, config.seedDir, config.toolsListen,
    config.adminCredentialHash]

/-- No string-valued field holds a cloud reference. -/
def CloudFree (config : PtyConfig) : Prop := ∀ text ∈ config.texts, Clean text

instance (config : PtyConfig) : Decidable (CloudFree config) :=
  inferInstanceAs (Decidable (∀ text ∈ config.texts, Clean text))

/-- The knobs that are kept as strings after interpolation. -/
def interpolatedKeys : List String := ["listen", "command", "seed_dir", "tools_listen"]

/-! ## The pieces of a string -/

/-- A part of a raw string: text that stays, or the name of a variable. -/
inductive Segment where
  | literal (text : Text)
  | env (name : Text)
  deriving DecidableEq

def segmentsLoop : Nat → Text → List Segment
  | 0, remainder => [.literal remainder]
  | turns + 1, remainder =>
    match splitAtPair '$' '{' remainder with
    | none => [.literal remainder]
    | some (literal, afterOpen) =>
      match splitAtChar '}' afterOpen with
      | none => [.literal remainder]
      | some (name, rest) => .literal literal :: .env name :: segmentsLoop turns rest

/-- The parts of a raw string, in order. -/
def segments (text : Text) : List Segment := segmentsLoop text.length text

/-- What a part of a raw string becomes. -/
def Segment.expand (host : Host) : Segment → Text
  | .literal text => text
  | .env name => (host.var name).getD []

/-- What the parts of a raw string become. -/
def pieces (host : Host) (text : Text) : List Text := (segments text).map (Segment.expand host)

variable {host : Host} {text : Text}

/-! ## Reading off a successful validation -/

theorem bind_eq_ok {α β : Type} {x : Except Error α} {f : α → Except Error β} {b : β} :
    (x >>= f) = .ok b ↔ ∃ a, x = .ok a ∧ f a = .ok b := by
  cases x <;> simp [bind, Except.bind]

theorem ensure_eq_ok {holds : Bool} {message : String} {u : Unit} :
    ensure holds message = .ok u ↔ holds = true := by
  unfold ensure
  cases holds <;> simp

theorem orElse_eq_ok {α : Type} {value : Option α} {message : String} {a : α} :
    orElse value message = .ok a ↔ value = some a := by
  unfold orElse
  cases value <;> simp

theorem not_contains_iff {pattern : String} :
    (!contains text pattern) = true ↔ ¬ pattern.toList <:+: text := by
  simp [contains]

theorem clean_iff : Clean text ↔ ¬ "://".toList <:+: text ∧ ¬ "$\x7bsecrets.".toList <:+: text := by
  simp [Clean, forbidden]

theorem Clean.of_infix {text' : Text} (h : Clean text) (hpart : text' <:+: text) :
    Clean text' := by
  intro pattern hpattern hin
  exact h pattern hpattern (hin.trans hpart)

/-- A string that passes `reject_unsafe_values` is clean. -/
theorem clean_of_rejectUnsafeValues (h : rejectUnsafeValues (.string text) = .ok ()) :
    Clean text := by
  rw [rejectUnsafeValues, bind_eq_ok] at h
  obtain ⟨_, hsecrets, huri⟩ := h
  rw [ensure_eq_ok, not_contains_iff] at hsecrets huri
  exact clean_iff.mpr ⟨huri, hsecrets⟩

/-- Every entry of a table that passes `reject_unsafe_values` passes it. -/
theorem rejectUnsafeValues_of_mem {entries : Table} (h : rejectUnsafeTable entries = .ok ())
    {entry : String × Value} (hentry : entry ∈ entries) :
    rejectUnsafeValues entry.2 = .ok () := by
  induction entries with
  | nil => cases hentry
  | cons first rest ih =>
    rw [rejectUnsafeTable, bind_eq_ok] at h
    obtain ⟨_, hfirst, hrest⟩ := h
    rcases List.mem_cons.mp hentry with rfl | hentry
    · rwa [rejectUnsafeEntry] at hfirst
    · exact ih hrest hentry

theorem Table.mem_of_get {table : Table} {key : String} {value : Value}
    (h : Table.get table key = some value) : (key, value) ∈ table := by
  unfold Table.get at h
  induction table with
  | nil => cases h
  | cons entry rest ih =>
    obtain ⟨k, v⟩ := entry
    rw [List.lookup_cons] at h
    split at h
    · rename_i heq
      obtain rfl := Option.some.inj h
      rw [eq_of_beq heq]
      exact List.mem_cons_self
    · exact List.mem_cons_of_mem _ (ih h)

/-- Every string of the `[pty]` table is clean as it stands in the text. -/
theorem clean_of_ptyTable {input : Text} {pty : Table} (h : ptyTable host input = .ok pty)
    {key : String} (hget : Table.get pty key = some (.string text)) : Clean text := by
  rw [ptyTable, bind_eq_ok] at h
  obtain ⟨root, -, h⟩ := h
  rw [bind_eq_ok] at h
  obtain ⟨_, hunsafe, h⟩ := h
  split at h
  · rename_i rootTable
    simp only [bind_eq_ok] at h
    obtain ⟨_, -, _, -, h⟩ := h
    split at h
    · rename_i pty' hpty
      obtain rfl := Except.ok.inj h
      rw [rejectUnsafeValues] at hunsafe
      have hinner := rejectUnsafeValues_of_mem hunsafe (Table.mem_of_get hpty)
      rw [rejectUnsafeValues] at hinner
      exact clean_of_rejectUnsafeValues
        (rejectUnsafeValues_of_mem hinner (Table.mem_of_get hget))
    · cases h
  · cases h

/-! ## Interpolation puts the pieces together -/

theorem splitAtPair_eq {x y : Char} {l r : Text} (h : splitAtPair x y text = some (l, r)) :
    text = l ++ x :: y :: r := by
  induction text generalizing l with
  | nil => cases h
  | cons c rest ih =>
    rw [splitAtPair] at h
    split_ifs at h with hfound
    · obtain ⟨rfl, hnext⟩ := hfound
      obtain ⟨rfl, rfl⟩ := Prod.mk.inj (Option.some.inj h)
      cases rest with
      | nil => cases hnext
      | cons d rest =>
        obtain rfl := Option.some.inj hnext
        rfl
    · obtain ⟨⟨l', r'⟩, hrest, heq⟩ := Option.map_eq_some_iff.mp h
      obtain ⟨rfl, rfl⟩ := Prod.mk.inj heq
      rw [ih hrest]
      rfl

theorem splitAtChar_eq {x : Char} {l r : Text} (h : splitAtChar x text = some (l, r)) :
    text = l ++ x :: r := by
  induction text generalizing l with
  | nil => cases h
  | cons c rest ih =>
    rw [splitAtChar] at h
    split_ifs at h with hfound
    · obtain ⟨rfl, rfl⟩ := Prod.mk.inj (Option.some.inj h)
      rw [hfound]
      rfl
    · obtain ⟨⟨l', r'⟩, hrest, heq⟩ := Option.map_eq_some_iff.mp h
      obtain ⟨rfl, rfl⟩ := Prod.mk.inj heq
      rw [ih hrest]
      rfl

/-- The literal parts of a string are parts of its text. -/
theorem infix_of_literal {turns : Nat} {part : Text}
    (h : .literal part ∈ segmentsLoop turns text) : part <:+: text := by
  induction turns generalizing text with
  | zero =>
    rw [segmentsLoop, List.mem_singleton] at h
    obtain rfl := Segment.literal.inj h
    exact List.infix_refl _
  | succ turns ih =>
    rw [segmentsLoop] at h
    split at h
    · rw [List.mem_singleton] at h
      obtain rfl := Segment.literal.inj h
      exact List.infix_refl _
    · rename_i literal afterOpen hopen
      split at h
      · rw [List.mem_singleton] at h
        obtain rfl := Segment.literal.inj h
        exact List.infix_refl _
      · rename_i name rest hclose
        have htext := splitAtPair_eq hopen
        have hafter := splitAtChar_eq hclose
        simp only [List.mem_cons, reduceCtorEq, false_or] at h
        rcases h with hfirst | hrest
        · obtain rfl := Segment.literal.inj hfirst
          exact ⟨[], _, by rw [htext]; rfl⟩
        · refine (ih hrest).trans ⟨literal ++ '$' :: '{' :: (name ++ ['}']), [], ?_⟩
          rw [htext, hafter]
          simp

/-- A variable that is accepted is set, to a clean value. -/
theorem resolve_eq_ok {name value : Text} (h : resolve host name = .ok value) :
    host.var name = some value ∧ Clean value := by
  simp only [resolve, bind_eq_ok, orElse_eq_ok, ensure_eq_ok] at h
  obtain ⟨_, -, value', hvar, _, hclean, h⟩ := h
  obtain rfl := Except.ok.inj h
  rw [Bool.and_eq_true, not_contains_iff, not_contains_iff] at hclean
  exact ⟨hvar, clean_iff.mpr hclean⟩

/-- What the loop returns is the output so far and the pieces of the remainder, and every
value among them is clean. -/
theorem interpolateLoop_eq_ok {turns : Nat} {output remainder result : Text}
    (h : interpolateLoop host turns output remainder = .ok result) :
    result = output ++ ((segmentsLoop turns remainder).map (Segment.expand host)).flatten ∧
      ∀ name, .env name ∈ segmentsLoop turns remainder →
        Clean (Segment.expand host (.env name)) := by
  induction turns generalizing output remainder with
  | zero =>
    obtain rfl := Except.ok.inj h
    simp [segmentsLoop, Segment.expand]
  | succ turns ih =>
    rw [interpolateLoop] at h
    rw [segmentsLoop]
    cases hopen : splitAtPair '$' '{' remainder with
    | none =>
      rw [hopen] at h
      obtain rfl := Except.ok.inj h
      simp [Segment.expand]
    | some opened =>
      obtain ⟨literal, afterOpen⟩ := opened
      rw [hopen] at h
      simp only [bind_eq_ok, orElse_eq_ok] at h
      obtain ⟨⟨name, rest⟩, hclose, value, hvalue, hrest⟩ := h
      obtain ⟨hvar, hclean⟩ := resolve_eq_ok hvalue
      obtain ⟨hresult, hvariables⟩ := ih hrest
      simp only [hclose]
      constructor
      · rw [hresult]
        simp [Segment.expand, hvar]
      · intro name' hname
        simp only [List.mem_cons, reduceCtorEq, false_or] at hname
        rcases hname with heq | hname
        · obtain rfl := Segment.env.inj heq
          simpa [Segment.expand, hvar] using hclean
        · exact hvariables name' hname

/-- An interpolated string of clean parts is clean exactly when nothing forbidden stands
across the border of two of its pieces. -/
theorem clean_interpolateEnv_iff {result : Text} (hclean : Clean text)
    (h : interpolateEnv host text = .ok result) :
    Clean result ↔ ∀ pattern ∈ forbidden, ¬ Straddles (pieces host text) pattern.toList := by
  obtain ⟨hresult, hvariables⟩ := interpolateLoop_eq_ok h
  have hpieces : ∀ piece ∈ pieces host text, Clean piece := by
    intro piece hpiece
    obtain ⟨segment, hsegment, rfl⟩ := List.mem_map.mp hpiece
    cases segment with
    | literal part => exact hclean.of_infix (infix_of_literal hsegment)
    | env name => exact hvariables name hsegment
  have hjoin : result = (pieces host text).flatten := by
    rw [hresult]
    rfl
  have hne : ∀ pattern ∈ forbidden, pattern.toList ≠ [] := by decide
  rw [hjoin]
  constructor
  · intro h pattern hpattern hstraddles
    exact h pattern hpattern hstraddles.infix_flatten
  · intro h pattern hpattern hin
    rcases (infix_flatten_iff (hne pattern hpattern)).mp hin with ⟨piece, hpiece, hin⟩ | hstraddles
    · exact hpieces piece hpiece pattern hpattern hin
    · exact h pattern hpattern hstraddles

/-- Interpolation keeps the keys of a table, and the strings it changes are interpolated. -/
theorem interpolateTable_get {table table' : Table} (h : interpolateTable host table = .ok table')
    {key : String} (hkey : key ≠ "admin_credential_hash") :
    (∃ text result, Table.get table key = some (.string text) ∧
        Table.get table' key = some (.string result) ∧ interpolateEnv host text = .ok result) ∨
      (Table.get table' key = Table.get table key ∧
        ∀ text, Table.get table key ≠ some (.string text)) := by
  induction table generalizing table' with
  | nil =>
    obtain rfl := Except.ok.inj h
    exact .inr ⟨rfl, fun text => by simp [Table.get]⟩
  | cons entry rest ih =>
    obtain ⟨k, value⟩ := entry
    simp only [interpolateTable, bind_eq_ok] at h
    obtain ⟨value', hvalue, rest', hrest, h⟩ := h
    obtain rfl := Except.ok.inj h
    have hih := ih hrest
    by_cases hk : key = k
    · subst hk
      simp only [Table.get, List.lookup_cons, beq_self_eq_true]
      unfold interpolateEntry at hvalue
      rw [if_neg hkey] at hvalue
      cases value with
      | string text =>
        left
        dsimp only at hvalue
        cases hresult : interpolateEnv host text with
        | error e =>
          rw [hresult] at hvalue
          cases hvalue
        | ok result =>
          rw [hresult] at hvalue
          obtain rfl := Except.ok.inj hvalue
          exact ⟨text, result, rfl, rfl, hresult⟩
      | integer | float | boolean | datetime | array | table =>
        right
        obtain rfl := Except.ok.inj hvalue
        exact ⟨rfl, fun text => by simp⟩
    · have hbeq : (key == k) = false := by simpa using hk
      simpa only [Table.get, List.lookup_cons, hbeq] using hih

/-- A knob that is kept as a string is clean exactly when its pieces let nothing forbidden
stand across a border; its default always is. -/
theorem clean_stringWithDefault_iff {pty pty' : Table} {key default : String} {result : Text}
    (hkey : key ≠ "admin_credential_hash") (hdefault : Clean default.toList)
    (hclean : ∀ text, Table.get pty key = some (.string text) → Clean text)
    (htable : interpolateTable host pty = .ok pty')
    (h : stringWithDefault pty' key default = .ok result) :
    Clean result ↔ ∀ text, Table.get pty key = some (.string text) →
      ∀ pattern ∈ forbidden, ¬ Straddles (pieces host text) pattern.toList := by
  unfold stringWithDefault at h
  rcases interpolateTable_get htable hkey with
    ⟨text, result', hget, hget', hresult⟩ | ⟨hget', hnostring⟩
  · rw [hget'] at h
    obtain rfl := Except.ok.inj h
    rw [clean_interpolateEnv_iff (hclean text hget) hresult]
    constructor
    · intro h text' htext'
      obtain rfl := Value.string.inj (Option.some.inj (hget.symm.trans htext'))
      exact h
    · intro h
      exact h text hget
  · rw [hget'] at h
    have hvacuous : ∀ text, Table.get pty key = some (.string text) →
        ∀ pattern ∈ forbidden, ¬ Straddles (pieces host text) pattern.toList := by
      intro text htext
      exact absurd htext (hnostring text)
    refine iff_of_true ?_ hvacuous
    cases hget : Table.get pty key with
    | none =>
      rw [hget] at h
      obtain rfl := Except.ok.inj h
      exact hdefault
    | some value =>
      rw [hget] at h
      cases value with
      | string text => exact absurd hget (hnostring text)
      | integer | float | boolean | datetime | array | table => cases h

/-- What a validation that succeeds has done. -/
theorem validateProjection_eq_ok {input : Text} {config : PtyConfig}
    (h : validateProjection host input = .ok config) :
    ∃ pty pty' rawHash, ptyTable host input = .ok pty ∧
      Table.get pty "admin_credential_hash" = some (.string rawHash) ∧
      interpolateTable host pty = .ok pty' ∧ readKnobs pty' rawHash = .ok config := by
  rw [validateProjection, bind_eq_ok] at h
  obtain ⟨pty, hpty, h⟩ := h
  split at h
  · cases h
  · simp only [bind_eq_ok] at h
    obtain ⟨rawHash, hhash, _, -, _, -, pty', hpty', config', hknobs, _, -, _, -, h⟩ := h
    obtain rfl := Except.ok.inj h
    refine ⟨pty, pty', rawHash, hpty, ?_, hpty', hknobs⟩
    unfold requiredString at hhash
    split at hhash
    · rename_i text hget
      obtain rfl := Except.ok.inj hhash
      exact hget
    · cases hhash

/-- The strings among the knobs. -/
theorem readKnobs_eq_ok {pty : Table} {rawHash : Text} {config : PtyConfig}
    (h : readKnobs pty rawHash = .ok config) :
    stringWithDefault pty "listen" "0.0.0.0:8090" = .ok config.listen ∧
      stringWithDefault pty "command" "/bin/bash" = .ok config.command ∧
      stringWithDefault pty "seed_dir" "" = .ok config.seedDir ∧
      stringWithDefault pty "tools_listen" "" = .ok config.toolsListen ∧
      config.adminCredentialHash = rawHash := by
  simp only [readKnobs, bind_eq_ok] at h
  obtain ⟨_, -, listen, hlisten, _, -, command, hcommand, _, -, _, -, _, -, _, -, _, -, _, -, _, -,
    seedDir, hseed, toolsListen, htools, _, -, _, -, _, -, h⟩ := h
  obtain rfl := Except.ok.inj h
  exact ⟨hlisten, hcommand, hseed, htools, rfl⟩

/-- An accepted projection is free of cloud references exactly when, in the string of no
interpolated knob, anything forbidden stands across the border of two of its pieces. -/
theorem cloudFree_iff_unstraddled {input : Text} {config : PtyConfig}
    (h : validateProjection host input = .ok config) :
    CloudFree config ↔ ∀ pty, ptyTable host input = .ok pty → ∀ key ∈ interpolatedKeys,
      ∀ text, Table.get pty key = some (.string text) →
        ∀ pattern ∈ forbidden, ¬ Straddles (pieces host text) pattern.toList := by
  obtain ⟨pty, pty', rawHash, hpty, hhash, hpty', hknobs⟩ := validateProjection_eq_ok h
  obtain ⟨hlisten, hcommand, hseed, htools, hraw⟩ := readKnobs_eq_ok hknobs
  have hclean : ∀ key text, Table.get pty key = some (.string text) → Clean text :=
    fun key text hget => clean_of_ptyTable hpty hget
  have hlisten := clean_stringWithDefault_iff (by decide) (by decide) (hclean _) hpty' hlisten
  have hcommand := clean_stringWithDefault_iff (by decide) (by decide) (hclean _) hpty' hcommand
  have hseed := clean_stringWithDefault_iff (by decide) (by decide) (hclean _) hpty' hseed
  have htools := clean_stringWithDefault_iff (by decide) (by decide) (hclean _) hpty' htools
  have hadmin : Clean config.adminCredentialHash := by
    rw [hraw]
    exact hclean _ _ hhash
  simp only [CloudFree, PtyConfig.texts, List.forall_mem_cons, List.not_mem_nil,
    IsEmpty.forall_iff, implies_true, and_true, hlisten, hcommand, hseed, htools, hadmin,
    interpolatedKeys, hpty, Except.ok.injEq, forall_eq']

/-! ## A reference that only the whole string holds -/

/-- The text of a projection whose `seed_dir` is `s3:${PTY_SEED}`. -/
def splitReference : Text :=
  "[pty]\nadmin_credential_hash = \"sha256:".toList ++ List.replicate 64 '0' ++
    "\"\nseed_dir = \"s3:$\x7bPTY_SEED\x7d\"\n".toList

/-- What it is parsed to. -/
def splitReferenceValue : Value :=
  .table [("pty", .table
    [("admin_credential_hash", .string ("sha256:".toList ++ List.replicate 64 '0')),
      ("seed_dir", .string "s3:$\x7bPTY_SEED\x7d".toList)])]

/-- A host that parses this text and sets `PTY_SEED` to `value`. -/
def splitReferenceHost (value : String) : Host where
  fromStr input := if input = splitReference then .ok splitReferenceValue else .error ""
  var name := if name = "PTY_SEED".toList then some value.toList else none
  debug s := "\"" ++ s ++ "\""

/-- What is accepted for `PTY_SEED`, set to `value`. -/
def splitReferenceConfig (value : String) : PtyConfig where
  enabled := false
  listen := "0.0.0.0:8090".toList
  tlsTerminatedUpstream := true
  command := "/bin/bash".toList
  maxSessions := 4
  absoluteSessionTtl := 12 * 60 * 60
  attachTokenTtl := 15 * 60
  detachedIdleTtl := 30 * 60
  scrollbackKib := 1024
  scrollbackReplay := false
  filterTerminalResponses := true
  adminCredentialHash := "sha256:".toList ++ List.replicate 64 '0'
  killDomainRequirement := .tier1Allowed
  seedDir := "s3:".toList ++ value.toList
  toolsListen := []
  toolsAttachTtl := 24 * 60 * 60

theorem localSeed_cloudFree_iff :
    validateProjection (splitReferenceHost "seed") splitReference =
        .ok (splitReferenceConfig "seed") ∧
      (CloudFree (splitReferenceConfig "seed") ↔ ∀ pty,
        ptyTable (splitReferenceHost "seed") splitReference = .ok pty → ∀ key ∈ interpolatedKeys,
          ∀ text, Table.get pty key = some (.string text) → ∀ pattern ∈ forbidden,
            ¬ Straddles (pieces (splitReferenceHost "seed") text) pattern.toList) :=
  ⟨by decide +kernel, cloudFree_iff_unstraddled (by decide +kernel)⟩

/-- `s3:` and the value `//bucket/seed` make a reference that neither holds. -/
theorem splitReference_accepted : ¬ ∀ host input config,
    validateProjection host input = .ok config → CloudFree config := by
  intro h
  have haccepted : validateProjection (splitReferenceHost "//bucket/seed") splitReference =
      .ok (splitReferenceConfig "//bucket/seed") := by decide +kernel
  exact absurd (h _ _ _ haccepted) (by decide)

end Config

end OpenabPty
