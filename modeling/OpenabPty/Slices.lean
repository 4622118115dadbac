import OpenabPty.Core.Cursor
import OpenabPty.Margins

/-!
# The two scanners, indexing (`capproxy.rs`, `termfilter.rs`)

The functions of the two scanners with every index, slice and subtraction of the source checked.
`none` stands for a panic or a loop without end, so that a function that returns an `Option` in
the source has two of them here. None of these functions panics, and each of them returns what
the one without the checks returns.
-/

namespace OpenabPty

open Loops Scanner

/-! ## The ends of sequences -/

/-- The loop of `classify_csi` and of `inspect_csi`. -/
def finalByte? (param : UInt8 → Bool) (s : List UInt8) (start : Nat) :
    Option (Option (Nat × UInt8)) :=
  loop (fun i =>
    if i < s.length ∧ i ≤ maxSequenceLen then do
      let b ← s[i]?
      if param b then return .inl (i + 1)
      else if 0x40 ≤ b ∧ b ≤ 0x7e then return .inr (some (i, b))
      else return .inr none
    else return .inr none) (s.length + 1) start

/-- `string_sequence`. -/
def stringSequence? (s : List UInt8) (body : Nat) : Option (Option (List UInt8 × Nat)) :=
  loop (fun i =>
    if i < s.length ∧ i ≤ maxSequenceLen then do
      let b ← s[i]?
      if b = bel then
        let payload ← slice s body i
        return .inr (some (payload, i + 1))
      else if b = esc ∧ s[i + 1]? = some 0x5c then
        let payload ← slice s body i
        return .inr (some (payload, i + 2))
      else return .inl (i + 1)
    else return .inr none) (s.length + 1) body

variable {param : UInt8 → Bool} {s : List UInt8} {i : Nat}

theorem finalByte_beyond (h : ¬ (i < s.length ∧ i ≤ maxSequenceLen)) :
    finalByte param i (s.drop i) = none := by
  by_cases hlen : i < s.length
  · have hi : maxSequenceLen < i := Nat.not_le.mp fun hle => h ⟨hlen, hle⟩
    rw [List.drop_eq_getElem_cons hlen, finalByte, if_pos hi]
  · rw [List.drop_eq_nil_of_le (Nat.not_lt.mp hlen), finalByte]

theorem stringEnd_beyond (h : ¬ (i < s.length ∧ i ≤ maxSequenceLen)) :
    stringEnd i (s.drop i) = none := by
  by_cases hlen : i < s.length
  · have hi : maxSequenceLen < i := Nat.not_le.mp fun hle => h ⟨hlen, hle⟩
    rw [List.drop_eq_getElem_cons hlen, stringEnd, if_pos hi]
  · rw [List.drop_eq_nil_of_le (Nat.not_lt.mp hlen), stringEnd]

theorem finalByte?_eq (param : UInt8 → Bool) (s : List UInt8) (start : Nat) :
    finalByte? param s start = some (finalByte param start (s.drop start)) := by
  refine loop_eq (fun _ => True) (s.length - ·) (fun i => finalByte param i (s.drop i)) ?_ trivial
    (Nat.lt_succ_of_le (Nat.sub_le _ _))
  intro i _
  by_cases hin : i < s.length ∧ i ≤ maxSequenceLen
  · have hget : s[i]? = some s[i] := List.getElem?_eq_getElem hin.1
    have hnext : finalByte param i (s.drop i) =
        if param s[i] then finalByte param (i + 1) (s.drop (i + 1))
        else if 0x40 ≤ s[i] ∧ s[i] ≤ 0x7e then some (i, s[i])
        else none := by
      rw [List.drop_eq_getElem_cons hin.1, finalByte, if_neg (Nat.not_lt.mpr hin.2)]
    rw [if_pos hin, hnext, hget]
    simp only [Option.bind_eq_bind, Option.bind_some]
    split_ifs with hparam hfinal
    · exact .inl ⟨i + 1, rfl, trivial, by omega, rfl⟩
    · exact .inr rfl
    · exact .inr rfl
  · right
    rw [if_neg hin, finalByte_beyond hin]
    rfl

theorem stringSequence?_eq (s : List UInt8) (body : Nat) :
    stringSequence? s body = some (stringSequence s body) := by
  refine loop_eq (body ≤ ·) (s.length - ·)
    (fun i => (stringEnd i (s.drop i)).map fun e => ((s.drop body).take (e.1 - body), e.2)) ?_
    (Nat.le_refl body) (Nat.lt_succ_of_le (Nat.sub_le _ _))
  intro i hi
  by_cases hin : i < s.length ∧ i ≤ maxSequenceLen
  · have hget : s[i]? = some s[i] := List.getElem?_eq_getElem hin.1
    have hslice : slice s body i = some ((s.drop body).take (i - body)) :=
      slice_eq hi (Nat.le_of_lt hin.1)
    have hhead : (s.drop (i + 1)).head? = s[i + 1]? := by rw [List.head?_drop]
    have hnext : stringEnd i (s.drop i) =
        if s[i] = bel then some (i, i + 1)
        else if s[i] = esc ∧ s[i + 1]? = some 0x5c then some (i, i + 2)
        else stringEnd (i + 1) (s.drop (i + 1)) := by
      rw [List.drop_eq_getElem_cons hin.1, stringEnd, if_neg (Nat.not_lt.mpr hin.2), hhead]
    rw [if_pos hin, hnext, hget]
    simp only [Option.bind_eq_bind, Option.bind_some, hslice]
    split_ifs with hbel hst
    · exact .inr rfl
    · exact .inr rfl
    · exact .inl ⟨i + 1, rfl, Nat.le_succ_of_le hi, by omega, rfl⟩
  · right
    rw [if_neg hin, stringEnd_beyond hin]
    rfl

/-! ## The filter -/

namespace TermFilter

/-- `classify_csi`. -/
def classifyCsi? (s : List UInt8) : Option (Option Nat) := do
  match ← finalByte? (fun b => 0x20 ≤ b && b ≤ 0x3f) s 2 with
  | none => return none
  | some (i, b) =>
    let marked ← if b = 0x7b then (slice s 2 i).map (·.contains 0x2a) else some false
    if b = 0x63 ∨ b = 0x6e ∨ (b = 0x75 ∧ s[2]? = some 0x3f) ∨ marked then return some (i + 1)
    else return none

/-- The loop over the digits that `classify_osc` and `classify_dcs` begin with. -/
def digitRun? (payload : List UInt8) : Option Nat :=
  loop (fun j =>
    if j < payload.length then do
      let b ← payload[j]?
      if isDigit b then return .inl (j + 1) else return .inr j
    else return .inr j) (payload.length + 1) 0

/-- `classify_osc`. -/
def classifyOsc? (s : List UInt8) : Option (Option Nat) := do
  match ← stringSequence? s 2 with
  | none => return none
  | some (payload, len) =>
    let j ← digitRun? payload
    if j = 0 ∨ payload[j]? ≠ some 0x3b then return none
    else
      let ps ← slice payload 0 j
      let rest ← slice payload j payload.length
      if (ps = ascii "10" ∨ ps = ascii "11" ∨ ps = ascii "12") ∧
          ((ascii ";rgb:").isPrefixOf rest ∨ (ascii ";rgba:").isPrefixOf rest) then
        return some len
      else return none

/-- `classify_dcs`. -/
def classifyDcs? (s : List UInt8) : Option (Option Nat) := do
  match ← stringSequence? s 2 with
  | none => return none
  | some (payload, len) =>
    let j ← digitRun? payload
    let rest ← slice payload j payload.length
    if (ascii "!~").isPrefixOf rest then return some len else return none

/-- `classify`. -/
def classify? (s : List UInt8) : Option (Option Nat) :=
  match (s[1]? : Option UInt8) with
  | some 0x5b => classifyCsi? s
  | some 0x5d => classifyOsc? s
  | some 0x50 => classifyDcs? s
  | _ => some none

/-- What the loop of `filter` does at an `ESC`. -/
def inspect? (f : TermFilter) (s : List UInt8) : Option (TermFilter × Action Unit) := do
  match ← classify? s with
  | some len =>
    return ({ strippedSequences := f.strippedSequences + 1
              strippedBytes := f.strippedBytes + len }, .strip len ())
  | none => return (f, .pass 1)

/-- `filter`. -/
def filter? (f : TermFilter) (chunk : List UInt8) : Option (TermFilter × List UInt8) :=
  if !chunk.contains esc then some (f, chunk)
  else (indexed esc inspect? f chunk).map fun r => (r.1, r.2.1)

theorem classifyCsi?_eq (s : List UInt8) : classifyCsi? s = some (classifyCsi s) := by
  rw [classifyCsi?, finalByte?_eq, classifyCsi]
  simp only [Option.bind_eq_bind, Option.bind_some]
  cases hf : finalByte (fun b => 0x20 ≤ b && b ≤ 0x3f) 2 (s.drop 2) with
  | none => rfl
  | some found =>
    obtain ⟨i, b⟩ := found
    obtain ⟨hle, hlen, -⟩ := finalByte_own hf
    rw [List.length_drop] at hlen
    have hslice : slice s 2 i = some ((s.drop 2).take (i - 2)) := slice_eq hle (by omega)
    by_cases hbrace : b = 0x7b
    · simp only [hbrace, if_true, hslice, Option.map_some, Option.bind_some, List.contains_iff_mem,
        true_and]
      split <;> rfl
    · simp only [hbrace, if_false, false_and, Bool.false_eq_true]
      split <;> rfl

theorem digitRun?_eq (payload : List UInt8) :
    digitRun? payload = some (payload.takeWhile isDigit).length := by
  have hrun : digitRun? payload = some (0 + ((payload.drop 0).takeWhile isDigit).length) := by
    refine loop_eq (· ≤ payload.length) (payload.length - ·)
      (fun j => j + ((payload.drop j).takeWhile isDigit).length) ?_ (Nat.zero_le _)
      (Nat.lt_succ_of_le (Nat.sub_le _ _))
    intro j hj
    by_cases hin : j < payload.length
    · have hget : payload[j]? = some payload[j] := List.getElem?_eq_getElem hin
      rw [if_pos hin, hget, List.drop_eq_getElem_cons hin]
      simp only [Option.bind_eq_bind, Option.bind_some]
      by_cases hdigit : isDigit payload[j] = true
      · left
        refine ⟨j + 1, by rw [if_pos hdigit]; rfl, hin, by omega, ?_⟩
        rw [List.takeWhile_cons_of_pos hdigit, List.length_cons]
        omega
      · right
        rw [if_neg hdigit, List.takeWhile_cons_of_neg hdigit]
        rfl
    · right
      rw [if_neg hin, List.drop_eq_nil_of_le (Nat.not_lt.mp hin)]
      rfl
  rw [hrun, Nat.zero_add, List.drop_zero]

theorem classifyOsc?_eq (s : List UInt8) : classifyOsc? s = some (classifyOsc s) := by
  rw [classifyOsc?, stringSequence?_eq, classifyOsc]
  simp only [Option.bind_eq_bind, Option.bind_some]
  cases stringSequence s 2 with
  | none => rfl
  | some found =>
    obtain ⟨payload, len⟩ := found
    have hsplit : payload.takeWhile isDigit ++ payload.dropWhile isDigit = payload :=
      List.takeWhile_append_dropWhile
    simp only [digitRun?_eq, Option.bind_some, slice_front hsplit, slice_rest hsplit,
      getElem?_rest hsplit, List.length_eq_zero_iff]
    split
    · rfl
    · split <;> rfl

theorem classifyDcs?_eq (s : List UInt8) : classifyDcs? s = some (classifyDcs s) := by
  rw [classifyDcs?, stringSequence?_eq, classifyDcs]
  simp only [Option.bind_eq_bind, Option.bind_some]
  cases stringSequence s 2 with
  | none => rfl
  | some found =>
    obtain ⟨payload, len⟩ := found
    have hsplit : payload.takeWhile isDigit ++ payload.dropWhile isDigit = payload :=
      List.takeWhile_append_dropWhile
    simp only [digitRun?_eq, Option.bind_some, slice_rest hsplit]
    split <;> rfl

theorem classify?_eq (s : List UInt8) : classify? s = some (classify s) := by
  simp only [classify?, classify, classifyCsi?_eq, classifyOsc?_eq, classifyDcs?_eq]
  split <;> simp_all

theorem checks_inspect : Checks esc inspect inspect? where
  progress := progress_inspect
  plain := inspect_of_ne_esc
  same := by
    intro f rest
    rw [inspect?, classify?_eq, inspect]
    simp only [Option.bind_eq_bind, Option.bind_some, List.head?_cons, ne_eq, not_true_eq_false,
      if_false]
    cases classify (esc :: rest) <;> rfl

/-- `filter` never leaves the chunk and comes to an end. -/
theorem filter?_eq (f : TermFilter) (chunk : List UInt8) :
    f.filter? chunk = some (f.filter chunk) := by
  unfold filter? filter
  split
  · rfl
  · rw [checks_inspect.indexed_eq]
    rfl

end TermFilter

/-! ## Parameters -/

/-- The loop over the digits of a group; `digit - b'0'` may underflow. -/
def groupValue? (group : List UInt8) : Option Nat :=
  group.foldlM (fun value digit =>
    (checkedSub digit.toNat 0x30).map fun d => min (value * 10 + d) 65535) 0

/-- The loop of `parse_params` over the groups, with the array and the count. -/
def parseGroups? : List UInt16 → Nat → List (List UInt8) → Option (Option (List UInt16 × Nat))
  | pars, count, [] => some (some (pars, count))
  | pars, count, group :: groups =>
    if count = pars.length then some none
    else
      (groupValue? group).bind fun value =>
        if count < pars.length then
          parseGroups? (pars.set count (UInt16.ofNat value)) (count + 1) groups
        else none

/-- `parse_params`. -/
def parseParams? (params : List UInt8) : Option (Option (List UInt16 × Nat)) :=
  parseGroups? (List.replicate 24 0) 0 (params.splitOnP fun b => b = 0x3b || b = 0x3a)

theorem groupValue?_eq {group : List UInt8} (h : ∀ b ∈ group, 0x30 ≤ b) :
    (groupValue? group).map UInt16.ofNat = some (paramValue group) := by
  rw [groupValue?, paramValue]
  generalize 0 = value
  induction group generalizing value with
  | nil => rfl
  | cons b group ih =>
    have hb : 0x30 ≤ b.toNat := UInt8.le_iff_toNat_le.mp (h b List.mem_cons_self)
    rw [List.foldlM_cons, List.foldl_cons, checkedSub_eq hb]
    exact ih (fun c hc => h c (List.mem_cons_of_mem b hc)) _

/-- The array holds the values of the groups so far, and zeros behind them. -/
theorem parseGroups?_eq {groups : List (List UInt8)} (h : ∀ group ∈ groups, ∀ b ∈ group, 0x30 ≤ b)
    (known : List UInt16) (free : Nat) :
    parseGroups? (known ++ List.replicate free 0) known.length groups =
      some (if free < groups.length then none
        else some (known ++ groups.map paramValue ++ List.replicate (free - groups.length) 0,
          known.length + groups.length)) := by
  induction groups generalizing known free with
  | nil => simp [parseGroups?]
  | cons group groups ih =>
    obtain ⟨value, hvalue, hparam⟩ :=
      Option.map_eq_some_iff.mp (groupValue?_eq (h group List.mem_cons_self))
    rw [parseGroups?, hvalue, Option.bind_some, hparam]
    cases free with
    | zero => simp
    | succ free =>
      have hroom : known.length < (known ++ List.replicate (free + 1) (0 : UInt16)).length := by
        rw [List.length_append, List.length_replicate]
        omega
      -- The value goes into the first free slot.
      have hset : (known ++ List.replicate (free + 1) 0).set known.length (paramValue group) =
          known ++ [paramValue group] ++ List.replicate free 0 := by
        rw [List.set_append_right _ _ (Nat.le_refl _), Nat.sub_self, List.replicate_succ,
          List.set_cons_zero, List.append_assoc]
        rfl
      have hnext := ih (fun g hg => h g (List.mem_cons_of_mem group hg))
        (known ++ [paramValue group]) free
      rw [List.length_append, List.length_singleton] at hnext
      rw [if_neg (Nat.ne_of_lt hroom), if_pos hroom, hset, hnext]
      have hcount : known.length + 1 + groups.length = known.length + (groups.length + 1) := by omega
      simp only [List.length_cons, Nat.add_lt_add_iff_right, List.map_cons, List.append_assoc,
        List.cons_append, List.nil_append, Nat.add_sub_add_right, hcount]

theorem mem_of_mem_splitOnP {p : UInt8 → Bool} {params group : List UInt8} {b : UInt8}
    (hgroup : group ∈ params.splitOnP p) (hb : b ∈ group) : b ∈ params := by
  induction params generalizing group with
  | nil =>
    rw [List.splitOnP_nil] at hgroup
    rw [List.mem_singleton.mp hgroup] at hb
    cases hb
  | cons c params ih =>
    rw [List.splitOnP_cons_eq_if_modifyHead] at hgroup
    split_ifs at hgroup
    · rcases List.mem_cons.mp hgroup with rfl | hgroup
      · cases hb
      · exact List.mem_cons_of_mem c (ih hgroup hb)
    · cases hsplit : params.splitOnP p with
      | nil => exact absurd hsplit (List.splitOnP_ne_nil p params)
      | cons first groups =>
        rw [hsplit] at hgroup ih
        rcases List.mem_cons.mp hgroup with rfl | hgroup
        · rcases List.mem_cons.mp hb with rfl | hb
          · exact List.mem_cons_self
          · exact List.mem_cons_of_mem c (ih List.mem_cons_self hb)
        · exact List.mem_cons_of_mem c (ih (List.mem_cons_of_mem first hgroup) hb)

/-- The parameters of a sequence, with zeros in the slots that are left. -/
theorem parseParams?_eq {params : List UInt8} (h : ∀ b ∈ params, 0x30 ≤ b) :
    parseParams? params = some ((parseParams params).map fun pars =>
      (pars ++ List.replicate (24 - pars.length) 0, pars.length)) := by
  have hdigits : ∀ group ∈ params.splitOnP fun b => b = 0x3b || b = 0x3a, ∀ b ∈ group, 0x30 ≤ b :=
    fun group hgroup b hb => h b (mem_of_mem_splitOnP hgroup hb)
  have hgroups := parseGroups?_eq hdigits [] 24
  rw [parseParams?, parseParams_eq]
  refine hgroups.trans ?_
  split_ifs with hmany
  · rfl
  · simp

theorem parseParams_ne_nil {params : List UInt8} {pars : List UInt16}
    (h : parseParams params = some pars) : pars ≠ [] := by
  rw [parseParams_eq] at h
  split_ifs at h
  obtain rfl := Option.some.inj h
  simp

/-! ## OSC queries -/

/-- The loop of `parse_decimal`; `b - b'0'` may underflow. -/
def decimalRun? : Nat → List UInt8 → Option (Option Nat)
  | value, [] => some (some value)
  | value, b :: digits =>
    if !isDigit b then some none
    else
      (checkedSub b.toNat 0x30).bind fun d =>
        if value * 10 + d < 2 ^ 32 then decimalRun? (value * 10 + d) digits else some none

/-- `parse_decimal`. -/
def parseDecimal? (digits : List UInt8) : Option (Option Nat) :=
  if digits = [] then some none else decimalRun? 0 digits

/-- One turn of the loop of `hex_digits`, with the count and the index. -/
def hexTurn (data : List UInt8) (x : Nat × Nat) : Option (Nat × Nat ⊕ Nat × Nat) :=
  if x.1 < 4 ∧ x.2 < data.length then do
    let c ← data[x.2]?
    if isHexDigit c then return .inl (x.1 + 1, x.2 + 1) else return .inr (x.1, x.2 + 1)
  else return .inr x

/-- `hex_digits`, with the index behind the digits and one `/`. The fifth turn is the last one. -/
def hexDigits? (data : List UInt8) (idx : Nat) : Option (Nat × Nat) := do
  let (count, idx) ← loop (hexTurn data) 5 (0, idx)
  if idx < data.length then
    let c ← data[idx]?
    return (count, if c = 0x2f then idx + 1 else idx)
  else return (count, idx)

/-- `is_colour`. -/
def isColour? (spec : List UInt8) : Option Bool :=
  if spec.head? = some 0x23 then do
    let digits ← checkedSub spec.length 1
    return digits = 3 || digits = 6 || digits = 9 || digits = 12
  else if (ascii "rgb:").isPrefixOf spec then do
    let (red, idx) ← hexDigits? spec 4
    if red > 0 then return true
    else
      let (green, idx) ← hexDigits? spec idx
      if green > 0 then return true
      else
        let (blue, _) ← hexDigits? spec idx
        return decide (blue > 0)
  else return false

/-- The loop of `osc_face_colour` from slot `target` on. -/
def faceColours? (terminator : List UInt8) :
    Nat → List (List UInt8) → Option (Option (List UInt8))
  | _, [] => some (some [])
  | target, group :: groups =>
    if group.head? = some 0x3f then
      match slotColour target with
      | some colour =>
        (faceColours? terminator (target + 1) groups).map fun response =>
          response.map (colourReport (10 + target) colour terminator ++ ·)
      | none => faceColours? terminator (target + 1) groups
    else if target ≤ 2 then
      (isColour? group).bind fun set =>
        if set then some none else faceColours? terminator (target + 1) groups
    else faceColours? terminator (target + 1) groups

/-- `osc_face_colour`. -/
def oscFaceColour? (base : Nat) (rest : List UInt8) (len : Nat) (terminator : List UInt8) :
    Option (Option Inspection) :=
  (faceColours? terminator base ((rest.splitOnP (· = 0x3b)).filter (· ≠ []))).map fun response =>
    response.map (.answer len ·)

/-- `classify_osc_query`. -/
def classifyOscQuery? (s : List UInt8) : Option (Option Inspection) := do
  match ← stringSequence? s 2 with
  | none => return none
  | some (payload, len) =>
    let last ← checkedSub len 1
    let b ← s[last]?
    let terminator := if b = bel then [bel] else ascii "\x1b\\"
    match payload.findIdx? (· = 0x3b) with
    | none => return none
    | some sep =>
      let digits ← slice payload 0 sep
      match ← parseDecimal? digits with
      | none => return none
      | some ps =>
        let rest ← slice payload (sep + 1) payload.length
        if 10 ≤ ps ∧ ps ≤ 12 then oscFaceColour? (ps - 10) rest len terminator else return none

theorem parseDecimal?_eq (digits : List UInt8) :
    parseDecimal? digits = some (parseDecimal digits) := by
  have hrun : ∀ (digits : List UInt8) (value : Nat), decimalRun? value digits =
      some (digits.foldl (fun value b => value.bind fun v =>
        if !isDigit b then none
        else
          let v := v * 10 + (b.toNat - 0x30)
          if v < 2 ^ 32 then some v else none) (some value)) := by
    intro digits
    -- A fold that has failed stays so.
    have hfailed : ∀ digits : List UInt8, digits.foldl (fun value b => value.bind fun v =>
        if !isDigit b then none
        else
          let v := v * 10 + (b.toNat - 0x30)
          if v < 2 ^ 32 then some v else none) none = none := by
      intro digits
      induction digits with
      | nil => rfl
      | cons b digits ih => exact ih
    induction digits with
    | nil => exact fun _ => rfl
    | cons b digits ih =>
      intro value
      rw [decimalRun?, List.foldl_cons, Option.bind_some]
      by_cases hdigit : isDigit b = true
      · have hb : 0x30 ≤ b.toNat := by
          simp only [isDigit, Bool.and_eq_true, decide_eq_true_eq] at hdigit
          exact UInt8.le_iff_toNat_le.mp hdigit.1
        simp only [hdigit, Bool.not_true, Bool.false_eq_true, if_false, checkedSub_eq hb,
          Option.bind_some]
        split_ifs with hfits
        · exact ih _
        · rw [hfailed]
      · simp only [Bool.not_eq_true] at hdigit
        simp only [hdigit, Bool.not_false, if_true]
        rw [hfailed]
  rw [parseDecimal?, parseDecimal]
  split_ifs with hnil
  · rfl
  · exact hrun digits 0

/-- The digits that the loop counts, and the index that it comes to. -/
theorem hexTurn_loop (data : List UInt8) (idx : Nat) :
    ∃ x, loop (hexTurn data) 5 (0, idx) = some x ∧
      hexRun 4 (data.drop idx) = (x.1, data.drop x.2) := by
  refine loop_spec
    (fun x => x.1 ≤ 4 ∧ hexRun 4 (data.drop idx) =
      (x.1 + (hexRun (4 - x.1) (data.drop x.2)).1, (hexRun (4 - x.1) (data.drop x.2)).2))
    (4 - ·.1) _ ?_ ⟨Nat.zero_le 4, ?_⟩ (Nat.lt_succ_self 4)
  · rintro ⟨count, j⟩ ⟨hcount, hrun⟩
    dsimp only at hcount hrun
    by_cases hin : count < 4 ∧ j < data.length
    · have hget : data[j]? = some data[j] := List.getElem?_eq_getElem hin.2
      obtain ⟨left, hleft⟩ : ∃ left, 4 - count = left + 1 := ⟨3 - count, by omega⟩
      rw [hleft, List.drop_eq_getElem_cons hin.2, hexRun] at hrun
      rw [hexTurn, if_pos hin]
      simp only [hget, Option.bind_eq_bind, Option.bind_some]
      by_cases hhex : isHexDigit data[j] = true
      · left
        rw [if_pos hhex] at hrun
        refine ⟨(count + 1, j + 1), by rw [if_pos hhex]; rfl, ⟨hin.1, ?_⟩, by dsimp only; omega⟩
        have hnext : 4 - (count + 1) = left := by omega
        dsimp only at hrun ⊢
        rw [hnext, hrun, Nat.add_assoc, Nat.add_comm 1]
      · right
        rw [if_neg hhex] at hrun
        refine ⟨(count, j + 1), by rw [if_neg hhex]; rfl, ?_⟩
        simpa using hrun
    · right
      refine ⟨(count, j), by rw [hexTurn, if_neg hin]; rfl, ?_⟩
      have hstop : hexRun (4 - count) (data.drop j) = (0, data.drop j) := by
        by_cases hend : j < data.length
        · have hfull : 4 - count = 0 := by omega
          rw [hfull, List.drop_eq_getElem_cons hend]
          rfl
        · rw [List.drop_eq_nil_of_le (Nat.not_lt.mp hend), hexRun]
      rw [hrun, hstop]
      rfl
  · dsimp only
    rw [Nat.zero_add]

/-- The digits counted, and the index behind them. -/
theorem hexDigits?_eq (data : List UInt8) (idx : Nat) :
    ∃ idx', hexDigits? data idx = some ((hexDigits (data.drop idx)).1, idx') ∧
      (hexDigits (data.drop idx)).2 = data.drop idx' := by
  obtain ⟨⟨count, j⟩, hloop, hrun⟩ := hexTurn_loop data idx
  rw [hexDigits?, hloop, hexDigits, hrun]
  simp only [Option.bind_eq_bind, Option.bind_some]
  by_cases hin : j < data.length
  · have hget : data[j]? = some data[j] := List.getElem?_eq_getElem hin
    refine ⟨if data[j] = 0x2f then j + 1 else j, ?_, ?_⟩
    · rw [if_pos hin, hget]
      rfl
    · rw [List.head?_drop, hget, List.tail_drop]
      simp only [Option.some.injEq]
      split <;> rfl
  · refine ⟨j, by rw [if_neg hin]; rfl, ?_⟩
    rw [List.drop_eq_nil_of_le (Nat.not_lt.mp hin)]
    rfl

theorem isColour?_eq (spec : List UInt8) : isColour? spec = some (isColour spec) := by
  rw [isColour?, isColour]
  by_cases hhash : spec.head? = some 0x23
  · have hlen : 1 ≤ spec.length := by
      cases spec with
      | nil => cases hhash
      | cons b spec => exact Nat.le_add_left 1 _
    rw [if_pos hhash, if_pos hhash, checkedSub_eq hlen]
    rfl
  · rw [if_neg hhash, if_neg hhash]
    split
    · obtain ⟨i₁, hred, hrest₁⟩ := hexDigits?_eq spec 4
      obtain ⟨i₂, hgreen, hrest₂⟩ := hexDigits?_eq spec i₁
      obtain ⟨i₃, hblue, -⟩ := hexDigits?_eq spec i₂
      simp only [hred, hgreen, hblue, hrest₁, hrest₂, Option.bind_eq_bind, Option.bind_some]
      split_ifs with h₁ h₂
      · simp [h₁]
      · simp [h₁, h₂]
      · simp [h₁, h₂]
    · rfl

theorem faceColours?_eq (terminator : List UInt8) (target : Nat) (groups : List (List UInt8)) :
    faceColours? terminator target groups = some (faceColours terminator target groups) := by
  induction groups generalizing target with
  | nil => rfl
  | cons group groups ih =>
    rw [faceColours?, faceColours, ih, isColour?_eq, Option.bind_some]
    by_cases hquery : group.head? = some 0x3f
    · rw [if_pos hquery, if_pos hquery]
      cases slotColour target <;> rfl
    · rw [if_neg hquery, if_neg hquery]
      by_cases hlive : target ≤ 2
      · by_cases hset : isColour group = true
        · rw [if_pos hlive, if_pos hset, if_pos ⟨hlive, hset⟩]
        · rw [if_pos hlive, if_neg hset, if_neg fun h => hset h.2]
      · rw [if_neg hlive, if_neg fun h => hlive h.1]

/-- Where the first `;` is. -/
theorem findIdx?_separator (payload : List UInt8) :
    payload.findIdx? (· = 0x3b) =
      if payload.dropWhile (· ≠ 0x3b) = [] then none
      else some (payload.takeWhile (· ≠ 0x3b)).length := by
  induction payload with
  | nil => rfl
  | cons b payload ih =>
    by_cases hb : b = 0x3b
    · simp [List.findIdx?_cons, hb]
    · rw [List.findIdx?_cons, ih, List.dropWhile_cons, List.takeWhile_cons]
      simp only [hb, decide_false, Bool.false_eq_true, if_false, ne_eq, not_false_eq_true,
        decide_true, if_true, List.length_cons]
      split <;> rfl

theorem classifyOscQuery?_eq (s : List UInt8) :
    classifyOscQuery? s = some (classifyOscQuery s) := by
  rw [classifyOscQuery?, stringSequence?_eq, classifyOscQuery]
  simp only [Option.bind_eq_bind, Option.bind_some]
  cases hstring : stringSequence s 2 with
  | none => rfl
  | some found =>
    obtain ⟨payload, len⟩ := found
    obtain ⟨hlt, hle⟩ := stringSequence_le hstring
    have hlast : checkedSub len 1 = some (len - 1) := checkedSub_eq (by omega)
    have hin : len - 1 < s.length := by omega
    have hget : s[len - 1]? = some s[len - 1] := List.getElem?_eq_getElem hin
    have hsplit : payload.takeWhile (· ≠ 0x3b) ++ payload.dropWhile (· ≠ 0x3b) = payload :=
      List.takeWhile_append_dropWhile
    simp only [hlast, hget, Option.bind_some, findIdx?_separator, Option.some.injEq]
    cases hrest : payload.dropWhile (· ≠ 0x3b) with
    | nil => simp
    | cons c rest =>
      rw [hrest] at hsplit
      have hdigits := slice_front hsplit
      have hbehind : slice payload ((payload.takeWhile (· ≠ 0x3b)).length + 1) payload.length =
          some rest := by
        have hcons : payload.takeWhile (· ≠ 0x3b) ++ [c] ++ rest = payload := by
          rw [List.append_assoc]
          exact hsplit
        have hslice := slice_rest hcons
        rwa [List.length_append, List.length_singleton] at hslice
      simp only [reduceCtorEq, if_false, hdigits, parseDecimal?_eq, Option.bind_some, hbehind]
      cases parseDecimal (payload.takeWhile (· ≠ 0x3b)) with
      | none => rfl
      | some ps =>
        simp only [oscFaceColour?, faceColours?_eq, oscFaceColour, Option.map_some]
        split <;> rfl

/-! ## The proxy -/

namespace CapabilityProxy

/-- `dsr_private`. -/
def dsrPrivate? (pars : List UInt16) (len : Nat) : Option Inspection :=
  (pars[0]? : Option UInt16).map fun status =>
    match status with
    | 15 => .answer len (ascii "\x1b[?10n")
    | 25 => .answer len (ascii "\x1b[?21n")
    | 26 => .answer len (ascii "\x1b[?27;1;0;0n")
    | 55 => .answer len (ascii "\x1b[?53n")
    | 56 => .answer len (ascii "\x1b[?57;1n")
    | 62 => .answer len (ascii "\x1b[0*\x7b")
    | 63 =>
      let id := (pars[1]?).getD 0
      .answer len (ascii "\x1bP" ++ decimal id.toNat ++ ascii "!~0000\x1b\\")
    | 75 => .answer len (ascii "\x1b[?70n")
    | 85 => .answer len (ascii "\x1b[?83n")
    | _ => .observed len

/-- `dispatch_csi`. -/
def dispatchCsi? (p : CapabilityProxy) (marker : Option UInt8) (params : List UInt8) (final : UInt8)
    (len : Nat) : Option (CapabilityProxy × Inspection) := do
  match ← parseParams? params with
  | none => return (p, .observed len)
  | some (pars, count) =>
    let p0 : UInt16 ← pars[0]?
    match marker, final with
    | none, 0x63 =>
      if p0 = 0 then return (p, .answer len (ascii "\x1b[?65;4;1;2;6;21;22;17;28c"))
      else return (p, .observed len)
    | some 0x3e, 0x63 =>
      if p0 = 0 then return (p, .answer len (ascii "\x1b[>65;20;1c")) else return (p, .observed len)
    | none, 0x6e =>
      if p0 = 5 then return (p, .answer len (ascii "\x1b[0n")) else return (p, .observed len)
    | some 0x3f, 0x6e =>
      let known ← slice pars 0 count
      let inspection ← dsrPrivate? known len
      return (p, inspection)
    | some 0x3f, 0x75 =>
      return (p, .answer len (ascii "\x1b[?" ++ decimal p.kittyScreen.flags.toNat ++ ascii "u"))
    | some 0x3e, 0x75 => return (p.kittyPush p0, .observed len)
    | some 0x3d, 0x75 =>
      (if count > 1 then pars[1]? else some 1).map fun mode => (p.kittySet p0 mode, .observed len)
    | some 0x3c, 0x75 => return (p.kittyPop p0, .observed len)
    | some 0x3f, 0x68 =>
      let known ← slice pars 0 count
      return (p.bufferModes known true, .observed len)
    | some 0x3f, 0x6c =>
      let known ← slice pars 0 count
      return (p.bufferModes known false, .observed len)
    | _, _ => return (p, .observed len)

/-- `inspect_csi`. -/
def inspectCsi? (p : CapabilityProxy) (s : List UInt8) : Option (CapabilityProxy × Inspection) :=
  if (csiMarker s).isNone ∧ s[2]? = some 0x3a then return (p, .unknown)
  else do
    match ← finalByte? (fun b => 0x30 ≤ b && b ≤ 0x3b) s (paramsStart s) with
    | some (i, b) =>
      let params ← slice s (paramsStart s) i
      p.dispatchCsi? (csiMarker s) params b (i + 1)
    | none => return (p, .unknown)

/-- `inspect`. -/
def inspect? (p : CapabilityProxy) (s : List UInt8) : Option (CapabilityProxy × Inspection) :=
  match (s[1]? : Option UInt8) with
  | some 0x5b => p.inspectCsi? s
  | some 0x5d => (classifyOscQuery? s).map fun query => (p, query.getD .unknown)
  | some 0x63 => some (p.resetEmulatorModel, .observed 2)
  | _ => some (p, .unknown)

/-- What the loop of `process` does at an `ESC`. -/
def examine? (p : CapabilityProxy) (s : List UInt8) :
    Option (CapabilityProxy × Action (List UInt8)) := do
  match ← p.inspect? s with
  | (p, .answer consume response) =>
    return ({ p with answered := p.answered + 1 }, .strip consume response)
  | (p, .observed len) => return (p, .pass len)
  | (p, .unknown) => return (p, .pass 1)

/-- `process`. -/
def process? (p : CapabilityProxy) (chunk : List UInt8) :
    Option (CapabilityProxy × List UInt8 × List UInt8) :=
  if !chunk.contains esc then some (p, chunk, [])
  else (indexed esc examine? p chunk).map fun r => (r.1, r.2.1, r.2.2.flatten)

theorem dsrPrivate?_eq {pars : List UInt16} (h : pars ≠ []) (len : Nat) :
    dsrPrivate? pars len = some (dsrPrivate pars len) := by
  cases pars with
  | nil => exact absurd rfl h
  | cons status pars => rfl

theorem dispatchCsi?_eq (p : CapabilityProxy) (marker : Option UInt8) {params : List UInt8}
    (h : ∀ b ∈ params, 0x30 ≤ b) (final : UInt8) (len : Nat) :
    p.dispatchCsi? marker params final len = some (p.dispatchCsi marker params final len) := by
  rw [dispatchCsi?, parseParams?_eq h, dispatchCsi]
  simp only [Option.bind_eq_bind, Option.bind_some]
  cases hpars : parseParams params with
  | none => rfl
  | some pars =>
    have hne := parseParams_ne_nil hpars
    have hknown : slice (pars ++ List.replicate (24 - pars.length) 0) 0 pars.length = some pars :=
      slice_front rfl
    have hfirst : (pars ++ List.replicate (24 - pars.length) 0)[0]? = some (pars.headD 0) := by
      cases pars with
      | nil => exact absurd rfl hne
      | cons status pars => rfl
    have hsecond : (if pars.length > 1 then (pars ++ List.replicate (24 - pars.length) 0)[1]?
        else some 1) = some (pars[1]?.getD 1) := by
      split_ifs with htwo
      · rw [List.getElem?_append_left htwo, List.getElem?_eq_getElem htwo]
        rfl
      · rw [List.getElem?_eq_none (Nat.not_lt.mp htwo)]
        rfl
    simp only [Option.map_some, hfirst, hknown, hsecond, dsrPrivate?_eq hne, Option.bind_some]
    split
    case h_1 => split_ifs <;> rfl
    case h_2 => split_ifs <;> rfl
    case h_3 => split_ifs <;> rfl
    case h_11 =>
      -- No sequence that the match names.
      simp_all
    all_goals rfl

theorem inspectCsi?_eq (p : CapabilityProxy) (s : List UInt8) :
    p.inspectCsi? s = some (p.inspectCsi s) := by
  rw [inspectCsi?, inspectCsi, finalByte?_eq]
  simp only [Option.bind_eq_bind, Option.bind_some]
  by_cases hcolon : (csiMarker s).isNone ∧ s[2]? = some 0x3a
  · rw [if_pos hcolon, if_pos hcolon]
    rfl
  · rw [if_neg hcolon, if_neg hcolon]
    cases hf : finalByte (fun b => 0x30 ≤ b && b ≤ 0x3b) (paramsStart s)
        (s.drop (paramsStart s)) with
    | none => rfl
    | some found =>
      obtain ⟨i, b⟩ := found
      obtain ⟨params, tail, hdrop, rfl, hparams, -⟩ := finalByte_spec hf
      have hslice : slice s (paramsStart s) (paramsStart s + params.length) = some params := by
        have hlen := congrArg List.length hdrop
        rw [List.length_drop, List.length_append, List.length_cons] at hlen
        rw [slice_eq (Nat.le_add_right _ _) (by omega), Nat.add_sub_cancel_left, hdrop,
          List.take_left]
      have hdigits : ∀ c ∈ params, 0x30 ≤ c := by
        intro c hc
        have hparam := hparams c hc
        simp only [Bool.and_eq_true, decide_eq_true_eq] at hparam
        exact hparam.1
      simp only [hslice, Option.bind_some, dispatchCsi?_eq p _ hdigits, Nat.add_sub_cancel_left,
        hdrop, List.take_left]

theorem inspect?_eq (p : CapabilityProxy) (s : List UInt8) :
    p.inspect? s = some (p.inspect s) := by
  simp only [inspect?, inspect, inspectCsi?_eq, classifyOscQuery?_eq, Option.map_some]
  split <;> simp_all

theorem checks_examine : Checks esc examine examine? where
  progress := progress_examine
  plain := fun p b rest hb => examine_of_ne_esc p hb rest
  same := by
    intro p rest
    rw [examine?, inspect?_eq, examine]
    simp only [Option.bind_eq_bind, Option.bind_some, List.head?_cons, ne_eq, not_true_eq_false,
      if_false]
    rcases p.inspect (esc :: rest) with ⟨q, inspection⟩
    cases inspection <;> rfl

/-- `process` never leaves the chunk and comes to an end. -/
theorem process?_eq (p : CapabilityProxy) (chunk : List UInt8) :
    p.process? chunk = some (p.process chunk) := by
  unfold process? process
  split
  · rfl
  · rw [checks_examine.indexed_eq]
    rfl

end CapabilityProxy

end OpenabPty
