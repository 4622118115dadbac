import OpenabPty.Slices

/-!
# The two scanners partition their input (`capproxy.rs`, `termfilter.rs`)

What `filter` and `process` take out of a chunk are intervals of it, one behind the other, each
of them one sequence that is recognised at its first byte. All other bytes stay as they are.
-/

namespace OpenabPty

open Scanner

variable {s : List UInt8} {n : Nat}

/-! ## The front of some bytes -/

theorem getElem?_take_append (tail : List UInt8) {i : Nat} (hi : i < n) (hn : n ≤ s.length) :
    (s.take n ++ tail)[i]? = s[i]? := by
  rw [List.getElem?_append_left (by rw [List.length_take]; omega), List.getElem?_take_of_lt hi]

theorem drop_take_append (tail : List UInt8) {i : Nat} (hi : i ≤ n) (hn : n ≤ s.length) :
    (s.take n ++ tail).drop i = (s.drop i).take (n - i) ++ tail := by
  rw [List.drop_append_of_le_length (by rw [List.length_take]; omega), List.drop_take]

namespace TermFilter

/-- A response of `len` bytes begins at byte `i` of the chunk. -/
def Matches (chunk : List UInt8) (i len : Nat) : Prop :=
  chunk[i]? = some esc ∧ classify (chunk.drop i) = some len

theorem inspect_of_classify (f : TermFilter) {len : Nat} (hesc : s.head? = some esc)
    (hclass : classify s = some len) : f.inspect s =
      ({ strippedSequences := f.strippedSequences + 1, strippedBytes := f.strippedBytes + len },
        .strip len ()) := by
  unfold inspect
  rw [if_neg (not_not.mpr hesc), hclass]

/-- The decision at a position is to strip a response, or to pass on one byte. -/
theorem inspect_cases (f : TermFilter) (s : List UInt8) :
    (∃ len, s.head? = some esc ∧ classify s = some len) ∨ f.inspect s = (f, .pass 1) := by
  unfold inspect
  split_ifs with hesc
  · exact .inr rfl
  · cases hclass : classify s with
    | none => exact .inr rfl
    | some len => exact .inl ⟨len, not_not.mp hesc, rfl⟩

theorem inspect_eq_pass {f f' : TermFilter} (h : f.inspect s = (f', .pass n)) : f' = f := by
  rcases f.inspect_cases s with ⟨len, hesc, hclass⟩ | hpass
  · rw [inspect_of_classify f hesc hclass] at h
    cases (Prod.mk.inj h).2
  · rw [hpass] at h
    exact (Prod.mk.inj h).1.symm

theorem inspect_eq_strip {f f' : TermFilter} {len : Nat} {out : Unit}
    (h : f.inspect s = (f', .strip len out)) :
    s.head? = some esc ∧ classify s = some len ∧
      f' = { strippedSequences := f.strippedSequences + 1
             strippedBytes := f.strippedBytes + len } := by
  rcases f.inspect_cases s with ⟨len', hesc, hclass⟩ | hpass
  · rw [inspect_of_classify f hesc hclass] at h
    obtain ⟨rfl, haction⟩ := Prod.mk.inj h
    obtain rfl := (Action.strip.inj haction).1
    exact ⟨hesc, hclass, rfl⟩
  · rw [hpass] at h
    cases (Prod.mk.inj h).2

theorem own_inspect : Own inspect := by
  intro f s hdecided tail
  rcases f.inspect_cases s with ⟨len, hesc, hclass⟩ | hpass
  · obtain ⟨hlt, hle, hown⟩ := classify_own hclass
    have hhead : (s.take len ++ tail).head? = some esc := by
      rw [List.head?_eq_getElem?, getElem?_take_append tail (by omega) hle,
        ← List.head?_eq_getElem?, hesc]
    rw [inspect_of_classify f hesc hclass]
    exact inspect_of_classify f hhead (hown tail)
  · exact absurd hpass hdecided

theorem settled_inspect : Settled inspect := by
  rintro f s f' n hpass j hj ⟨g, g', len, out, hstrip⟩
  rcases f.inspect_cases s with ⟨len', hesc, hclass⟩ | hone
  · rw [inspect_of_classify f hesc hclass] at hpass
    cases hpass
  · rw [hone] at hpass
    obtain rfl := Action.pass.inj (Prod.mk.inj hpass).2
    obtain rfl := Nat.lt_one_iff.mp hj
    rw [List.drop_zero] at hstrip
    obtain ⟨hesc, hclass, -⟩ := inspect_eq_strip hstrip
    rw [inspect_of_classify f hesc hclass] at hone
    cases (Prod.mk.inj hone).2

theorem strips_iff {chunk : List UInt8} {i : Nat} :
    Strips inspect (chunk.drop i) ↔ ∃ len, Matches chunk i len := by
  simp only [Matches, ← List.head?_drop]
  constructor
  · rintro ⟨f, f', len, out, hstrip⟩
    obtain ⟨hesc, hclass, -⟩ := inspect_eq_strip hstrip
    exact ⟨len, hesc, hclass⟩
  · rintro ⟨len, hesc, hclass⟩
    exact ⟨new, _, len, (), inspect_of_classify new hesc hclass⟩

end TermFilter

namespace CapabilityProxy

/-- In state `p` the proxy answers a query of `len` bytes at byte `i` of the chunk with `out`. -/
def Answers (p : CapabilityProxy) (chunk : List UInt8) (i len : Nat) (out : List UInt8) : Prop :=
  chunk[i]? = some esc ∧ p.inspect (chunk.drop i) = (p, .answer len out)

/-- A CSI sequence that ends is read off its own bytes. -/
theorem csi_own {j : Nat} {b : UInt8} (tail : List UInt8)
    (hf : finalByte (fun b => 0x30 ≤ b && b ≤ 0x3b) (paramsStart s) (s.drop (paramsStart s)) =
      some (j, b)) :
    csiMarker (s.take (j + 1) ++ tail) = csiMarker s ∧
      paramsStart (s.take (j + 1) ++ tail) = paramsStart s ∧
      finalByte (fun b => 0x30 ≤ b && b ≤ 0x3b) (paramsStart s)
        ((s.take (j + 1) ++ tail).drop (paramsStart s)) = some (j, b) ∧
      ((s.take (j + 1) ++ tail).drop (paramsStart s)).take (j - paramsStart s) =
        (s.drop (paramsStart s)).take (j - paramsStart s) := by
  obtain ⟨hlt, hle⟩ := csi_length hf
  obtain ⟨hge, -, hown⟩ := finalByte_own hf
  have hmarker : csiMarker (s.take (j + 1) ++ tail) = csiMarker s := by
    rw [csiMarker, csiMarker, getElem?_take_append tail hlt hle]
  have hdrop : (s.take (j + 1) ++ tail).drop (paramsStart s) =
      (s.drop (paramsStart s)).take (j + 1 - paramsStart s) ++ tail :=
    drop_take_append tail (by omega) hle
  refine ⟨hmarker, by rw [paramsStart, paramsStart, hmarker], hdrop ▸ hown tail, ?_⟩
  rw [hdrop, List.take_append_of_le_length, List.take_take]
  · congr 1
    omega
  · rw [List.length_take, List.length_drop]
    omega

/-- A sequence that is not unknown is inspected by its own bytes. -/
theorem inspectCsi_own (p : CapabilityProxy) {j : Nat} {b : UInt8} (tail : List UInt8)
    (hf : finalByte (fun b => 0x30 ≤ b && b ≤ 0x3b) (paramsStart s) (s.drop (paramsStart s)) =
      some (j, b)) : p.inspectCsi (s.take (j + 1) ++ tail) = p.inspectCsi s := by
  obtain ⟨hlt, hle⟩ := csi_length hf
  obtain ⟨hmarker, hstart, hown, hparams⟩ := csi_own tail hf
  rw [inspectCsi, inspectCsi, hmarker, hstart, getElem?_take_append tail hlt hle, hown, hf]
  simp only [hparams]

theorem classifyOscQuery_own {payload : List UInt8} {len : Nat} (tail : List UInt8)
    (hstring : stringSequence s 2 = some (payload, len)) :
    classifyOscQuery (s.take len ++ tail) = classifyOscQuery s := by
  obtain ⟨hlt, hle⟩ := stringSequence_le hstring
  have hsame : stringSequence (s.take len ++ tail) 2 = some (payload, len) := by
    match s, hstring with
    | x :: y :: body, hstring => exact (stringSequence_own hstring).2.2 tail
  have hlast : (s.take len ++ tail)[len - 1]? = s[len - 1]? :=
    getElem?_take_append tail (by omega) hle
  rw [classifyOscQuery, classifyOscQuery, hsame, hstring]
  simp only [hlast]

/-- What is not unknown is inspected by the bytes that are taken. -/
theorem inspect_own (p : CapabilityProxy) (s : List UInt8) :
    p.inspect s = (p, .unknown) ∨
      ∃ len, 1 < len ∧ len ≤ s.length ∧
        ((∃ response, (p.inspect s).2 = .answer len response) ∨ (p.inspect s).2 = .observed len) ∧
        ∀ tail, p.inspect (s.take len ++ tail) = p.inspect s := by
  -- The byte behind the `ESC` is among those that are taken.
  have hsecond : ∀ len tail, 1 < len → len ≤ s.length → (s.take len ++ tail)[1]? = s[1]? :=
    fun len tail hlt hle => getElem?_take_append tail hlt hle
  by_cases hcsi : s[1]? = some 0x5b
  · have hinspect : p.inspect s = p.inspectCsi s := by simp only [inspect, hcsi]
    rcases inspectCsi_cases s with hunknown | ⟨j, b, hf, hdispatch⟩
    · exact .inl (hinspect.trans (hunknown p))
    · obtain ⟨hlt, hle⟩ := csi_length hf
      refine .inr ⟨j + 1, by omega, hle, ?_, fun tail => ?_⟩
      · rw [hinspect, hdispatch]
        rcases p.dispatchCsi_cases (csiMarker s) _ b (j + 1) with ⟨response, heq⟩ | hobserved
        · exact .inl ⟨response, by rw [heq]⟩
        · exact .inr hobserved
      · rw [hinspect, ← p.inspectCsi_own tail hf]
        simp only [inspect, hsecond (j + 1) tail (by omega) hle, hcsi]
  · by_cases hosc : s[1]? = some 0x5d
    · have hinspect : p.inspect s = (p, (classifyOscQuery s).getD .unknown) := by
        simp only [inspect, hosc]
      cases hq : classifyOscQuery s with
      | none =>
        left
        rw [hinspect, hq]
        rfl
      | some inspection =>
        obtain ⟨consume, response, rfl⟩ := oscQuery_eq_answer hq
        obtain ⟨payload, hstring⟩ := oscQuery_sequence hq
        obtain ⟨hlt, hle⟩ := stringSequence_le hstring
        refine .inr ⟨consume, by omega, hle, .inl ⟨response, ?_⟩, fun tail => ?_⟩
        · rw [hinspect, hq]
          rfl
        · rw [hinspect, ← classifyOscQuery_own tail hstring]
          simp only [inspect, hsecond consume tail (by omega) hle, hosc]
    · by_cases hris : s[1]? = some 0x63
      · have hinspect : p.inspect s = (p.resetEmulatorModel, .observed 2) := by
          simp only [inspect, hris]
        have hle : 2 ≤ s.length := by
          by_contra hshort
          rw [List.getElem?_eq_none (by omega)] at hris
          cases hris
        refine .inr ⟨2, Nat.lt_succ_self 1, hle, .inr (by rw [hinspect]), fun tail => ?_⟩
        rw [hinspect]
        simp only [inspect, hsecond 2 tail (Nat.lt_succ_self 1) hle, hris]
      · left
        unfold inspect
        split
        · rename_i h
          exact absurd h hcsi
        · rename_i h
          exact absurd h hosc
        · rename_i h
          exact absurd h hris
        · rfl

/-- What the loop makes of an inspection. -/
def conclude (q : CapabilityProxy) : Inspection → CapabilityProxy × Action (List UInt8)
  | .answer consume response => ({ q with answered := q.answered + 1 }, .strip consume response)
  | .observed len => (q, .pass len)
  | .unknown => (q, .pass 1)

theorem examine_of_esc (p : CapabilityProxy) (hesc : s.head? = some esc) :
    p.examine s = conclude (p.inspect s).1 (p.inspect s).2 := by
  rw [examine, if_neg (not_not.mpr hesc)]
  rcases p.inspect s with ⟨q, inspection⟩
  cases inspection <;> rfl

theorem own_examine : Own examine := by
  intro p s hdecided tail
  by_cases hesc : s.head? = some esc
  · rcases p.inspect_own s with hunknown | ⟨len, hlt, hle, htaken, hown⟩
    · refine absurd ?_ hdecided
      rw [examine_of_esc p hesc, hunknown]
      rfl
    · have hlen : (p.examine s).2.length = len := by
        rw [examine_of_esc p hesc]
        rcases hi : p.inspect s with ⟨q, inspection⟩
        rw [hi] at htaken
        rcases htaken with ⟨response, heq⟩ | heq
        · obtain rfl : inspection = _ := heq
          rfl
        · obtain rfl : inspection = _ := heq
          rfl
      have hhead : (s.take len ++ tail).head? = some esc := by
        rw [List.head?_eq_getElem?, getElem?_take_append tail (by omega) hle,
          ← List.head?_eq_getElem?, hesc]
      rw [hlen, examine_of_esc p hhead, hown tail, ← examine_of_esc p hesc]
  · refine absurd ?_ hdecided
    rw [examine, if_pos hesc]

theorem examine_eq_strip {p p' : CapabilityProxy} {len : Nat} {out : List UInt8}
    (h : p.examine s = (p', .strip len out)) :
    s.head? = some esc ∧ p.inspect s = (p, .answer len out) ∧
      p' = { p with answered := p.answered + 1 } := by
  by_cases hesc : s.head? = some esc
  · have hstate := @inspect_of_answer p s
    rw [examine_of_esc p hesc] at h
    rcases hi : p.inspect s with ⟨q, inspection⟩
    rw [hi] at h hstate
    cases inspection with
    | answer consume response =>
      obtain rfl : q = p := hstate rfl
      obtain ⟨rfl, haction⟩ := Prod.mk.inj h
      obtain ⟨rfl, rfl⟩ := Action.strip.inj haction
      exact ⟨hesc, rfl, rfl⟩
    | observed len => cases (Prod.mk.inj h).2
    | unknown => cases (Prod.mk.inj h).2
  · rw [examine, if_pos hesc] at h
    cases (Prod.mk.inj h).2

theorem strips_iff {chunk : List UInt8} {i : Nat} :
    Strips examine (chunk.drop i) ↔ ∃ p len out, Answers p chunk i len out := by
  simp only [Answers, ← List.head?_drop]
  constructor
  · rintro ⟨p, p', len, out, hstrip⟩
    obtain ⟨hesc, hanswer, -⟩ := examine_eq_strip hstrip
    exact ⟨p, len, out, hesc, hanswer⟩
  · rintro ⟨p, len, out, hesc, hanswer⟩
    exact ⟨p, { p with answered := p.answered + 1 }, len, out, by
      rw [examine_of_esc p hesc, hanswer]
      rfl⟩

/-- What is passed on is no query, in any state. -/
theorem query?_of_pass {p p' : CapabilityProxy} (h : p.examine s = (p', .pass n)) :
    query? s = none := by
  cases hquery : query? s with
  | none => rfl
  | some m =>
    obtain ⟨response, heq⟩ := examine_of_query hquery p
    rw [heq] at h
    cases (Prod.mk.inj h).2

theorem settled_examine : Settled examine := by
  rintro p s p' n hpass j hj ⟨q, q', len, out, hstrip⟩
  cases s with
  | nil =>
    rw [List.drop_nil] at hstrip
    cases (Prod.mk.inj hstrip).2
  | cons b rest =>
    cases j with
    | zero =>
      obtain ⟨m, heq⟩ := examine_of_not_query (query?_of_pass hpass) q
      rw [List.drop_zero] at hstrip
      rw [hstrip] at heq
      cases heq
    | succ j =>
      -- What is passed on at once has no other `ESC`.
      obtain ⟨plain, tail, rfl, hlen, hplain⟩ := plain_of_pass (congrArg Prod.snd hpass)
      have hin : j < plain.length := by omega
      rw [List.drop_succ_cons, List.drop_append_of_le_length (Nat.le_of_lt hin),
        List.drop_eq_getElem_cons hin, List.cons_append,
        examine_of_ne_esc q (hplain _ (List.getElem_mem hin))] at hstrip
      cases (Prod.mk.inj hstrip).2

end CapabilityProxy

/-! ## The intervals -/

/-- What `filter` does to a chunk: it takes out `cuts`, each of them a response and every response
that begins outside the others, and counts them. -/
structure TermFilter.CutsOut (f : TermFilter) (chunk : List UInt8) (cuts : List (Cut Unit)) :
    Prop where
  partition : Partition chunk (f.filter chunk).2 cuts
  matched : ∀ c ∈ cuts, Matches chunk c.start c.len
  complete : ∀ i len, Matches chunk i len → ∃ c ∈ cuts, c.Covers i
  strippedSequences : (f.filter chunk).1.strippedSequences = f.strippedSequences + cuts.length
  strippedBytes :
    (f.filter chunk).1.strippedBytes = f.strippedBytes + (cuts.map fun c => c.len).sum

/-- What `process` does to a chunk: it takes out `cuts`, each of them a query that it answers in
the state after the bytes before it and every query that begins outside the others, and returns
the answers in order. -/
structure CapabilityProxy.CutsOut (p : CapabilityProxy) (chunk : List UInt8)
    (cuts : List (Cut (List UInt8))) : Prop where
  partition : Partition chunk (p.process chunk).2.1 cuts
  matched : ∀ c ∈ cuts, (p.process (chunk.take c.start)).1.Answers chunk c.start c.len c.out
  complete : ∀ q i len out, Answers q chunk i len out → ∃ c ∈ cuts, c.Covers i
  answered : (p.process chunk).1.answered = p.answered + cuts.length
  response : (p.process chunk).2.2 = (cuts.map Cut.out).flatten

/-- Where there are no intervals, nothing is taken out. -/
theorem partition_nil {β ω : Type} {input kept : List β}
    (h : Partition input kept ([] : List (Cut ω))) : kept = input :=
  h.kept.trans (outside_of_later (by simp))

theorem sum_map_one {α : Type} (l : List α) : (l.map fun _ => 1).sum = l.length := by
  rw [List.map_const', List.sum_replicate_nat, Nat.mul_one]

theorem TermFilter.cutsOut (f : TermFilter) (chunk : List UInt8) :
    f.CutsOut chunk (cuts inspect f 0 0 chunk) where
  partition := by
    rw [filter_eq_scan]
    exact progress_inspect.partition f chunk
  matched := by
    intro c hc
    obtain ⟨f', hstrip⟩ := progress_inspect.decided_of_mem_cuts own_inspect.prefixed f chunk hc
    obtain ⟨hesc, hclass, -⟩ := inspect_eq_strip hstrip
    rw [Matches, ← List.head?_drop]
    exact ⟨hesc, hclass⟩
  complete := by
    intro i len hmatch
    have hi : i < chunk.length := (List.getElem?_eq_some_iff.mp hmatch.1).1
    exact progress_inspect.covered_of_strips settled_inspect f chunk hi
      (strips_iff.mpr ⟨len, hmatch⟩)
  strippedSequences := by
    rw [filter_eq_scan, progress_inspect.scan_weight TermFilter.strippedSequences (fun _ => 1) ?_ ?_,
      sum_map_one]
    · intro f s f' n hpass
      rw [inspect_eq_pass hpass]
    · intro f s f' n out hstrip
      obtain ⟨-, -, rfl⟩ := inspect_eq_strip hstrip
      rfl
  strippedBytes := by
    rw [filter_eq_scan]
    refine progress_inspect.scan_weight TermFilter.strippedBytes (fun n => n) ?_ ?_ f chunk
    · intro f s f' n hpass
      rw [inspect_eq_pass hpass]
    · intro f s f' n out hstrip
      obtain ⟨-, -, rfl⟩ := inspect_eq_strip hstrip
      rfl

theorem CapabilityProxy.cutsOut (p : CapabilityProxy) (chunk : List UInt8) :
    p.CutsOut chunk (cuts examine p 0 0 chunk) where
  partition := by
    rw [process_eq_scan]
    exact progress_examine.partition p chunk
  matched := by
    intro c hc
    obtain ⟨p', hstrip⟩ := progress_examine.decided_of_mem_cuts own_examine.prefixed p chunk hc
    obtain ⟨hesc, hanswer, -⟩ := examine_eq_strip hstrip
    rw [process_eq_scan, Answers, ← List.head?_drop]
    exact ⟨hesc, hanswer⟩
  complete := by
    intro q i len out hanswers
    have hi : i < chunk.length := (List.getElem?_eq_some_iff.mp hanswers.1).1
    exact progress_examine.covered_of_strips settled_examine p chunk hi
      (strips_iff.mpr ⟨q, len, out, hanswers⟩)
  answered := by
    rw [process_eq_scan, progress_examine.scan_weight CapabilityProxy.answered (fun _ => 1) ?_ ?_,
      sum_map_one]
    · intro p s p' n hpass
      have hsame := examine_not_query_answered (query?_of_pass hpass) p
      rwa [hpass] at hsame
    · intro p s p' n out hstrip
      obtain ⟨-, -, rfl⟩ := examine_eq_strip hstrip
      rfl
  response := by
    rw [process_eq_scan, progress_examine.scan_cuts p 0 chunk]

/-- **The two scanners partition their input and never index out of range.** -/
theorem scanners_partition (f : TermFilter) (p : CapabilityProxy) (chunk : List UInt8) :
    f.filter? chunk = some (f.filter chunk) ∧
    p.process? chunk = some (p.process chunk) ∧
    (∃ cuts, f.CutsOut chunk cuts) ∧
    (∃ cuts, p.CutsOut chunk cuts) ∧
    ((∀ i len, ¬ TermFilter.Matches chunk i len) → f.filter chunk = (f, chunk)) ∧
    ((∀ q i len out, ¬ CapabilityProxy.Answers q chunk i len out) →
      (p.process chunk).2 = (chunk, []) ∧ (p.process chunk).1.answered = p.answered) := by
  have hfilter := f.cutsOut chunk
  have hprocess := p.cutsOut chunk
  refine ⟨f.filter?_eq chunk, p.process?_eq chunk, ⟨_, hfilter⟩, ⟨_, hprocess⟩, ?_, ?_⟩
  · intro hnone
    have hcuts : cuts TermFilter.inspect f 0 0 chunk = [] :=
      List.eq_nil_iff_forall_not_mem.mpr fun c hc => hnone _ _ (hfilter.matched c hc)
    rw [hcuts] at hfilter
    refine Prod.ext ?_ (partition_nil hfilter.partition)
    have hsequences := hfilter.strippedSequences
    have hbytes := hfilter.strippedBytes
    rcases hf : (f.filter chunk).1 with ⟨sequences, bytes⟩
    rw [hf] at hsequences hbytes
    cases f
    exact congrArg₂ TermFilter.mk hsequences hbytes
  · intro hnone
    have hcuts : cuts CapabilityProxy.examine p 0 0 chunk = [] :=
      List.eq_nil_iff_forall_not_mem.mpr fun c hc => hnone _ _ _ _ (hprocess.matched c hc)
    rw [hcuts] at hprocess
    exact ⟨Prod.ext (partition_nil hprocess.partition) hprocess.response, hprocess.answered⟩

end OpenabPty
