import OpenabPty.Core.Lookahead
import OpenabPty.Residue
import OpenabPty.Strip

/-!
# How far the two scans look ahead (`capproxy.rs`, `termfilter.rs`)

What the proxy and the filter make of an `ESC` depends on the 257 bytes behind it and on
nothing else: a final byte or a terminator is looked for through index 256, and an `ESC` at
index 256 takes one more byte. A stream may therefore be cut into reads wherever no `ESC`
stands closer to the cut.
-/

namespace OpenabPty

open Scanner

/-- Every `ESC` has at least 257 bytes behind it. -/
def Roomy (a : List UInt8) : Prop :=
  ∀ before after, a = before ++ esc :: after → maxSequenceLen + 1 ≤ after.length

/-- What is inspected is one byte or more, and all of it is there. -/
def Inspection.Within (size : Nat) : Inspection → Prop
  | .answer len _ | .observed len => 0 < len ∧ len ≤ size
  | .unknown => True

/-! ## The scans for the end of a sequence -/

variable {param : UInt8 → Bool} {i : Nat} {s : List UInt8}

/-- The scan for a final byte ends before what lies beyond its bound. -/
theorem finalByte_append (tail : List UInt8) (hlen : maxSequenceLen < i + s.length) :
    finalByte param i (s ++ tail) = finalByte param i s := by
  induction s generalizing i with
  | nil =>
    have hi : maxSequenceLen < i := by simpa using hlen
    cases tail with
    | nil => rfl
    | cons c tail => simp [finalByte, hi]
  | cons c s ih =>
    have hrest : finalByte param (i + 1) (s ++ tail) = finalByte param (i + 1) s := by
      apply ih
      simp only [List.length_cons] at hlen
      omega
    rw [List.cons_append, finalByte, finalByte, hrest]

/-- The scan for a terminator looks one byte further. -/
theorem stringEnd_append (tail : List UInt8) (hlen : maxSequenceLen + 1 < i + s.length) :
    stringEnd i (s ++ tail) = stringEnd i s := by
  induction s generalizing i with
  | nil =>
    have hi : maxSequenceLen < i := by
      simp only [List.length_nil] at hlen
      omega
    cases tail with
    | nil => rfl
    | cons c tail => simp [stringEnd, hi]
  | cons c s ih =>
    simp only [List.length_cons] at hlen
    have hrest : stringEnd (i + 1) (s ++ tail) = stringEnd (i + 1) s := by
      apply ih
      omega
    rw [List.cons_append, stringEnd, stringEnd, hrest]
    by_cases hi : maxSequenceLen < i
    · rw [if_pos hi, if_pos hi]
    · -- Within the bound, the byte behind this one is one of `s`.
      have hhead : (s ++ tail).head? = s.head? := by
        cases s with
        | nil =>
          simp only [List.length_nil] at hlen
          omega
        | cons d s => rfl
      rw [hhead]

theorem stringSequence_le {payload : List UInt8} {len : Nat}
    (h : stringSequence s 2 = some (payload, len)) : 2 < len ∧ len ≤ s.length := by
  match s, h with
  | x :: y :: body, h =>
    obtain ⟨hlt, hle, -⟩ := stringSequence_own h
    exact ⟨hlt, hle⟩

theorem stringSequence_append (tail : List UInt8) (hlen : maxSequenceLen + 1 < s.length) :
    stringSequence (s ++ tail) 2 = stringSequence s 2 := by
  have htwo : 2 ≤ s.length := by
    have hbound : 2 ≤ maxSequenceLen := by decide
    omega
  have hdrop : (s ++ tail).drop 2 = s.drop 2 ++ tail := List.drop_append_of_le_length htwo
  have hend : stringEnd 2 (s.drop 2 ++ tail) = stringEnd 2 (s.drop 2) := by
    apply stringEnd_append
    rw [List.length_drop]
    omega
  rw [stringSequence, stringSequence, hdrop, hend]
  cases he : stringEnd 2 (s.drop 2) with
  | none => rfl
  | some found =>
    obtain ⟨e, len⟩ := found
    obtain ⟨-, hlt, hle, -⟩ := stringEnd_own he
    have hpayload : e - 2 ≤ (s.drop 2).length := by omega
    simp only [Option.map_some, List.take_append_of_le_length hpayload]

/-! ## The filter -/

namespace TermFilter

theorem classifyCsi_append (tail : List UInt8) (hlen : maxSequenceLen + 1 < s.length) :
    classifyCsi (s ++ tail) = classifyCsi s := by
  have hthree : 2 < s.length := by
    have hbound : 2 ≤ maxSequenceLen := by decide
    omega
  have hdrop : (s ++ tail).drop 2 = s.drop 2 ++ tail :=
    List.drop_append_of_le_length (Nat.le_of_lt hthree)
  have hthird : (s ++ tail)[2]? = s[2]? := List.getElem?_append_left hthree
  have hfinal : finalByte (fun b => 0x20 ≤ b && b ≤ 0x3f) 2 (s.drop 2 ++ tail) =
      finalByte (fun b => 0x20 ≤ b && b ≤ 0x3f) 2 (s.drop 2) := by
    apply finalByte_append
    rw [List.length_drop]
    omega
  rw [classifyCsi, classifyCsi, hdrop, hthird, hfinal]
  cases hf : finalByte (fun b => 0x20 ≤ b && b ≤ 0x3f) 2 (s.drop 2) with
  | none => rfl
  | some found =>
    obtain ⟨j, b⟩ := found
    obtain ⟨-, hle, -⟩ := finalByte_own hf
    have hparams : j - 2 ≤ (s.drop 2).length := by omega
    simp only [List.take_append_of_le_length hparams]

theorem classify_append (tail : List UInt8) (hlen : maxSequenceLen + 1 < s.length) :
    classify (s ++ tail) = classify s := by
  have hsecond : (s ++ tail)[1]? = s[1]? := List.getElem?_append_left (by omega)
  simp only [classify, hsecond, classifyCsi_append tail hlen, classifyOsc, classifyDcs,
    stringSequence_append tail hlen]

theorem inspect_of_ne_esc (f : TermFilter) (b : UInt8) (rest : List UInt8) (hb : b ≠ esc) :
    f.inspect (b :: rest) = (f, .pass 1) := by
  simp [inspect, hb]

theorem inspect_append (f : TermFilter) (tail : List UInt8) (hesc : s.head? = some esc)
    (hlen : maxSequenceLen + 1 < s.length) : f.inspect (s ++ tail) = f.inspect s := by
  have hhead : (s ++ tail).head? = some esc := by rw [List.head?_append, hesc, Option.some_or]
  simp only [inspect, hhead, hesc, classify_append tail hlen]

theorem progress_inspect : Progress inspect := by
  intro f s hs
  have hpos : 0 < s.length := List.length_pos_iff.mpr hs
  unfold inspect
  split_ifs with hesc
  · exact ⟨Nat.one_pos, hpos⟩
  · cases hclass : classify s with
    | none => exact ⟨Nat.one_pos, hpos⟩
    | some len =>
      obtain ⟨hlt, hle, -⟩ := classify_own hclass
      exact ⟨by simp only [Action.length]; omega, hle⟩

end TermFilter

/-! ## The proxy -/

theorem classifyOscQuery_append (tail : List UInt8) (hlen : maxSequenceLen + 1 < s.length) :
    classifyOscQuery (s ++ tail) = classifyOscQuery s := by
  rw [classifyOscQuery, classifyOscQuery, stringSequence_append tail hlen]
  cases hstring : stringSequence s 2 with
  | none => rfl
  | some found =>
    obtain ⟨payload, len⟩ := found
    obtain ⟨hlt, hle⟩ := stringSequence_le hstring
    have hlast : (s ++ tail)[len - 1]? = s[len - 1]? := List.getElem?_append_left (by omega)
    simp only [hlast]

namespace CapabilityProxy

theorem csiMarker_append (tail : List UInt8) (hlen : 2 < s.length) :
    csiMarker (s ++ tail) = csiMarker s := by
  rw [csiMarker, csiMarker, List.getElem?_append_left hlen]

theorem inspectCsi_append (p : CapabilityProxy) (tail : List UInt8)
    (hlen : maxSequenceLen + 1 < s.length) : p.inspectCsi (s ++ tail) = p.inspectCsi s := by
  have hfour : 3 < s.length := by
    have hbound : 3 ≤ maxSequenceLen := by decide
    omega
  have hthird : (s ++ tail)[2]? = s[2]? := List.getElem?_append_left (by omega)
  have hmarker : csiMarker (s ++ tail) = csiMarker s := csiMarker_append tail (by omega)
  have hstart : paramsStart (s ++ tail) = paramsStart s := by rw [paramsStart, paramsStart, hmarker]
  have hle : paramsStart s ≤ s.length := by
    unfold paramsStart
    split <;> omega
  have hdrop : (s ++ tail).drop (paramsStart s) = s.drop (paramsStart s) ++ tail :=
    List.drop_append_of_le_length hle
  have hfinal : finalByte (fun b => 0x30 ≤ b && b ≤ 0x3b) (paramsStart s)
      (s.drop (paramsStart s) ++ tail) =
        finalByte (fun b => 0x30 ≤ b && b ≤ 0x3b) (paramsStart s) (s.drop (paramsStart s)) := by
    apply finalByte_append
    rw [List.length_drop]
    omega
  rw [inspectCsi, inspectCsi, hmarker, hthird, hstart, hdrop, hfinal]
  cases hf : finalByte (fun b => 0x30 ≤ b && b ≤ 0x3b) (paramsStart s)
      (s.drop (paramsStart s)) with
  | none => rfl
  | some found =>
    obtain ⟨j, b⟩ := found
    obtain ⟨-, hown, -⟩ := finalByte_own hf
    have hparams : j - paramsStart s ≤ (s.drop (paramsStart s)).length := by omega
    simp only [List.take_append_of_le_length hparams]

theorem inspect_append (p : CapabilityProxy) (tail : List UInt8)
    (hlen : maxSequenceLen + 1 < s.length) : p.inspect (s ++ tail) = p.inspect s := by
  have hsecond : (s ++ tail)[1]? = s[1]? := List.getElem?_append_left (by omega)
  simp only [inspect, hsecond, inspectCsi_append p tail hlen, classifyOscQuery_append tail hlen]

/-- An OSC query takes the string sequence that it is. -/
theorem oscQuery_sequence {consume : Nat} {response : List UInt8}
    (h : classifyOscQuery s = some (.answer consume response)) :
    ∃ payload, stringSequence s 2 = some (payload, consume) := by
  unfold classifyOscQuery at h
  split at h
  · cases h
  · rename_i payload len hstring
    dsimp only at h
    split at h
    · cases h
    · split at h
      · cases h
      · split at h
        · obtain ⟨colours, -, hanswer⟩ := Option.map_eq_some_iff.mp h
          obtain ⟨rfl, -⟩ := Inspection.answer.inj hanswer
          exact ⟨payload, hstring⟩
        · cases h

/-- How much of its input a CSI sequence takes. -/
theorem csi_length {j : Nat} {b : UInt8}
    (h : finalByte (fun b => 0x30 ≤ b && b ≤ 0x3b) (paramsStart s) (s.drop (paramsStart s)) =
      some (j, b)) : 2 < j + 1 ∧ j + 1 ≤ s.length := by
  obtain ⟨hge, hle, -⟩ := finalByte_own h
  have htwo : 2 ≤ paramsStart s := by
    unfold paramsStart
    split <;> omega
  rw [List.length_drop] at hle
  omega

theorem inspect_within (p : CapabilityProxy) (s : List UInt8) :
    (p.inspect s).2.Within s.length := by
  unfold inspect
  split
  · rcases inspectCsi_cases s with hunknown | ⟨j, b, hf, hdispatch⟩
    · rw [hunknown]
      trivial
    · obtain ⟨hlt, hle⟩ := csi_length hf
      rw [hdispatch]
      rcases p.dispatchCsi_cases (csiMarker s) _ b (j + 1) with ⟨response, heq⟩ | hobserved
      · rw [heq]
        exact ⟨by omega, hle⟩
      · rw [hobserved]
        exact ⟨by omega, hle⟩
  · cases hq : classifyOscQuery s with
    | none => trivial
    | some inspection =>
      obtain ⟨consume, response, rfl⟩ := oscQuery_eq_answer hq
      obtain ⟨payload, hstring⟩ := oscQuery_sequence hq
      obtain ⟨hlt, hle⟩ := stringSequence_le hstring
      exact ⟨by omega, hle⟩
  · rename_i hris
    match s, hris with
    | _ :: _ :: rest, _ => exact ⟨Nat.two_pos, Nat.le_add_left 2 rest.length⟩
  · trivial

theorem examine_append (p : CapabilityProxy) (tail : List UInt8) (hesc : s.head? = some esc)
    (hlen : maxSequenceLen + 1 < s.length) : p.examine (s ++ tail) = p.examine s := by
  have hhead : (s ++ tail).head? = some esc := by rw [List.head?_append, hesc, Option.some_or]
  simp only [examine, hhead, hesc, p.inspect_append tail hlen]

theorem progress_examine : Progress examine := by
  intro p s hs
  have hpos : 0 < s.length := List.length_pos_iff.mpr hs
  have hinspect := p.inspect_within s
  unfold examine
  split_ifs with hesc
  · exact ⟨Nat.one_pos, hpos⟩
  · rcases hi : p.inspect s with ⟨q, inspection⟩
    rw [hi] at hinspect
    cases inspection with
    | answer len response => exact hinspect
    | observed len => exact hinspect
    | unknown => exact ⟨Nat.one_pos, hpos⟩

end CapabilityProxy

/-! ## Reads -/

theorem Roomy.of_suffix {a a' : List UInt8} (h : Roomy a) (ha : a' <:+ a) : Roomy a' := by
  obtain ⟨front, rfl⟩ := ha
  intro before after hsplit
  exact h (front ++ before) after (by rw [hsplit, List.append_assoc])

/-- What starts with an `ESC` that has room is longer than what a decision looks at. -/
theorem Roomy.length_lt {a : List UInt8} (h : Roomy a) (hhead : a.head? = some esc) :
    maxSequenceLen + 1 < a.length := by
  cases a with
  | nil => cases hhead
  | cons b rest =>
    obtain rfl : b = esc := Option.some.inj hhead
    exact Nat.lt_succ_of_le (h [] rest rfl)

/-- A scanner that looks at nothing but an `ESC` and what has room behind it. -/
theorem Roomy.parts {σ ω : Type} {inspect : σ → List UInt8 → σ × Action ω}
    (hprogress : Progress inspect)
    (hplain : ∀ s b rest, b ≠ esc → inspect s (b :: rest) = (s, .pass 1))
    (hfar : ∀ s w tail, w.head? = some esc → maxSequenceLen + 1 < w.length →
      inspect s (w ++ tail) = inspect s w)
    {a : List UInt8} (ha : Roomy a) (b : List UInt8) : Parts inspect a b := by
  intro w hw hsuffix s
  refine ⟨?_, (hprogress s w hw).2⟩
  obtain ⟨c, rest, rfl⟩ := List.exists_cons_of_ne_nil hw
  by_cases hc : c = esc
  · have hhead : (c :: rest).head? = some esc := congrArg some hc
    exact hfar s _ b hhead ((ha.of_suffix hsuffix).length_lt hhead)
  · rw [List.cons_append, hplain s c _ hc, hplain s c _ hc]

theorem Roomy.parts_inspect {a : List UInt8} (h : Roomy a) (b : List UInt8) :
    Parts TermFilter.inspect a b :=
  h.parts TermFilter.progress_inspect TermFilter.inspect_of_ne_esc
    (fun f _ tail => f.inspect_append tail) b

theorem Roomy.parts_examine {a : List UInt8} (h : Roomy a) (b : List UInt8) :
    Parts CapabilityProxy.examine a b :=
  h.parts CapabilityProxy.progress_examine (fun p _ rest hb => p.examine_of_ne_esc hb rest)
    (fun p _ tail => p.examine_append tail) b

namespace CapabilityProxy

theorem process_append {a b : List UInt8} (h : Parts examine a b) (p : CapabilityProxy) :
    p.process (a ++ b) =
      let ra := p.process a
      let rb := ra.1.process b
      (rb.1, ra.2.1 ++ rb.2.1, ra.2.2 ++ rb.2.2) := by
  rw [process_eq_scan, h.scan_append]
  simp only [process_eq_scan, List.flatten_append]

/-- What `process` makes of one read after the other. -/
def processReads (p : CapabilityProxy) :
    List (List UInt8) → CapabilityProxy × List UInt8 × List UInt8
  | [] => (p, [], [])
  | read :: reads =>
    let r := p.process read
    let r' := r.1.processReads reads
    (r'.1, r.2.1 ++ r'.2.1, r.2.2 ++ r'.2.2)

/-- Where the reads are cut makes no difference, if no decision in one of them depends on what
comes behind it. -/
theorem processReads_eq {reads : List (List UInt8)}
    (h : ∀ read ∈ reads, ∀ b, Parts examine read b) (p : CapabilityProxy) (last : List UInt8) :
    p.processReads (reads ++ [last]) = p.process (reads.flatten ++ last) := by
  induction reads generalizing p with
  | nil => simp [processReads]
  | cons read reads ih =>
    have hparts := h read List.mem_cons_self (reads.flatten ++ last)
    have htail := ih fun r hr => h r (List.mem_cons_of_mem read hr)
    rw [List.cons_append, processReads, List.flatten_cons, List.append_assoc,
      process_append hparts, htail]

end CapabilityProxy

namespace TermFilter

theorem filter_append {a b : List UInt8} (h : Parts inspect a b) (f : TermFilter) :
    f.filter (a ++ b) =
      let ra := f.filter a
      let rb := ra.1.filter b
      (rb.1, ra.2 ++ rb.2) := by
  rw [filter_eq_scan, h.scan_append]
  simp only [filter_eq_scan]

/-- What `filter` makes of one read after the other. -/
def filterReads (f : TermFilter) : List (List UInt8) → TermFilter × List UInt8
  | [] => (f, [])
  | read :: reads =>
    let r := f.filter read
    let r' := r.1.filterReads reads
    (r'.1, r.2 ++ r'.2)

theorem filterReads_eq {reads : List (List UInt8)}
    (h : ∀ read ∈ reads, ∀ b, Parts inspect read b) (f : TermFilter) (last : List UInt8) :
    f.filterReads (reads ++ [last]) = f.filter (reads.flatten ++ last) := by
  induction reads generalizing f with
  | nil => simp [filterReads]
  | cons read reads ih =>
    have hparts := h read List.mem_cons_self (reads.flatten ++ last)
    have htail := ih fun r hr => h r (List.mem_cons_of_mem read hr)
    rw [List.cons_append, filterReads, List.flatten_cons, List.append_assoc,
      filter_append hparts, htail]

/-- The counters of both, added up. -/
def plus (f g : TermFilter) : TermFilter :=
  { strippedSequences := f.strippedSequences + g.strippedSequences
    strippedBytes := f.strippedBytes + g.strippedBytes }

theorem plus_inspect (f g : TermFilter) (s : List UInt8) :
    (f.plus g).inspect s = (f.plus (g.inspect s).1, (g.inspect s).2) := by
  unfold inspect
  split_ifs with hesc
  · rfl
  · cases classify s with
    | none => rfl
    | some len => simp only [plus, Nat.add_assoc]

/-- What the filter counts in a chunk, and what it keeps of it, does not depend on what it has
counted before. -/
theorem filter_eq_plus (f : TermFilter) (chunk : List UInt8) :
    f.filter chunk = (f.plus (new.filter chunk).1, (new.filter chunk).2) := by
  rw [filter_eq_scan, filter_eq_scan]
  have hframe := scan_frame (plus_inspect f) new (.pass 0) chunk
  have hf : f.plus new = f := rfl
  rw [hf] at hframe
  rw [hframe]

end TermFilter

/-- **A stream may be cut wherever every `ESC` before the cut has room.** -/
theorem scans_compose {a : List UInt8} (ha : Roomy a) (b : List UInt8) (p : CapabilityProxy)
    (f : TermFilter) :
    (let ra := p.process a
      let rb := ra.1.process b
      p.process (a ++ b) = (rb.1, ra.2.1 ++ rb.2.1, ra.2.2 ++ rb.2.2)) ∧
    (let fa := f.filter a
      let fb := fa.1.filter b
      f.filter (a ++ b) = (fb.1, fa.2 ++ fb.2)) ∧
    (f.filter (a ++ b)).1 =
      f.plus ((TermFilter.new.filter a).1.plus (TermFilter.new.filter b).1) ∧
    ∀ reads : List (List UInt8), (∀ read ∈ reads, Roomy read) →
      p.processReads (reads ++ [b]) = p.process (reads.flatten ++ b) ∧
        f.filterReads (reads ++ [b]) = f.filter (reads.flatten ++ b) := by
  have hfilter := TermFilter.filter_append (ha.parts_inspect b) f
  refine ⟨CapabilityProxy.process_append (ha.parts_examine b) p, hfilter, ?_, ?_⟩
  · rw [hfilter]
    dsimp only
    rw [TermFilter.filter_eq_plus (f.filter a).1, TermFilter.filter_eq_plus f a]
    simp only [TermFilter.plus, Nat.add_assoc]
  · intro reads hreads
    exact ⟨CapabilityProxy.processReads_eq (fun read hr => (hreads read hr).parts_examine) p b,
      TermFilter.filterReads_eq (fun read hr => (hreads read hr).parts_inspect) f b⟩

/-- A device attributes query with 257 bytes behind its `ESC`. -/
def roomyQuery : List UInt8 := ascii "\x1b[c" ++ List.replicate 255 0x78

theorem roomy_roomyQuery : Roomy roomyQuery := by
  intro before after hsplit
  -- The only `ESC` is the first byte.
  cases before with
  | nil =>
    have hafter : after = ascii "[c" ++ List.replicate 255 0x78 := (List.cons.inj hsplit).2.symm
    rw [hafter]
    decide +kernel
  | cons b before =>
    have hmem : esc ∈ ascii "[c" ++ List.replicate 255 0x78 := by
      have htail : ascii "[c" ++ List.replicate 255 0x78 = before ++ esc :: after :=
        (List.cons.inj hsplit).2
      rw [htail]
      exact List.mem_append_right _ List.mem_cons_self
    rcases List.mem_append.mp hmem with hmem | hmem
    · exact absurd hmem (by decide)
    · exact absurd (List.eq_of_mem_replicate hmem) (by decide)

/-- One byte less is not enough: the terminator of this query ends on the 257th byte behind its
`ESC`. -/
example :
    let a := ascii "\x1b]10;?;" ++ List.replicate 249 0x78 ++ [esc]
    (CapabilityProxy.new.process (a ++ ascii "\\")).2.1 = [] ∧
      (CapabilityProxy.new.process a).2.1 = a := by
  decide +kernel

/-- It may be cut off from what follows, and from another one. -/
theorem scans_compose_roomyQuery :
    (CapabilityProxy.new.process (roomyQuery ++ [esc])).2.2 =
      (CapabilityProxy.new.process roomyQuery).2.2 ++
        ((CapabilityProxy.new.process roomyQuery).1.process [esc]).2.2 ∧
    CapabilityProxy.new.processReads [roomyQuery, roomyQuery, [esc]] =
      CapabilityProxy.new.process (roomyQuery ++ (roomyQuery ++ [esc])) := by
  obtain ⟨hproxy, -, -, hreads⟩ :=
    scans_compose roomy_roomyQuery [esc] CapabilityProxy.new TermFilter.new
  refine ⟨congrArg (fun r => r.2.2) hproxy, ?_⟩
  have htwo : ∀ read ∈ [roomyQuery, roomyQuery], Roomy read := by
    intro read hread
    simp only [List.mem_cons, List.not_mem_nil, or_false, or_self] at hread
    rw [hread]
    exact roomy_roomyQuery
  have hcut := (hreads [roomyQuery, roomyQuery] htwo).1
  simpa using hcut

end OpenabPty
