import OpenabPty.TermFilter
import Mathlib.Data.List.TakeWhile

/-!
# What the response filter lets through

A chunk of keys, pastes, mouse reports and replies to queries that the proxy does not answer
goes through the filter as it is. The filter looks at every `ESC` on its own, and a match that
begins in one item of the chunk ends in it.
-/

namespace OpenabPty

/-! ## Sequences of any length -/

variable {param : UInt8 → Bool} {i : Nat}

/-- If a final byte is found behind parameter bytes, it is the one behind them. -/
theorem finalByte_eq_of_params {params tail : List UInt8} {b : UInt8} {e : Nat × UInt8}
    (hparams : ∀ c ∈ params, param c = true) (hb : param b = false)
    (h : finalByte param i (params ++ b :: tail) = some e) : e = (i + params.length, b) := by
  induction params generalizing i with
  | nil =>
    rw [List.nil_append, finalByte] at h
    split_ifs at h with hi hc
    · simp [hb] at hc
    · exact (Option.some.inj h).symm
  | cons c params ih =>
    rw [List.cons_append, finalByte] at h
    split_ifs at h with hi hc hfinal
    · rw [ih (fun d hd => hparams d (List.mem_cons_of_mem c hd)) h, List.length_cons]
      congr 1
      omega
    · simp [hparams c List.mem_cons_self] at hc

/-- If a terminator is found behind a payload without control bytes, it is the one behind it. -/
theorem stringEnd_eq_of_payload {payload t : List UInt8} {e : Nat × Nat} (tail : List UInt8)
    (hpayload : ∀ c ∈ payload, c ≠ bel ∧ c ≠ esc) (ht : IsTerminator t)
    (h : stringEnd i (payload ++ (t ++ tail)) = some e) :
    e = (i + payload.length, i + payload.length + t.length) := by
  by_cases hlen : i + payload.length ≤ maxSequenceLen
  · rw [stringEnd_of_payload tail hpayload ht hlen] at h
    exact (Option.some.inj h).symm
  · induction payload generalizing i with
    | nil =>
      have hi : maxSequenceLen < i := by simpa using hlen
      rcases ht with rfl | rfl <;> simp [stringEnd, hi] at h
    | cons c payload ih =>
      rw [List.cons_append, stringEnd] at h
      obtain ⟨hbel, hesc⟩ := hpayload c List.mem_cons_self
      simp only [hbel, hesc, false_and, if_false] at h
      split_ifs at h with hi
      have hlen : ¬ i + 1 + payload.length ≤ maxSequenceLen := by
        simp only [List.length_cons] at hlen
        omega
      rw [ih (fun d hd => hpayload d (List.mem_cons_of_mem c hd)) h hlen, List.length_cons]
      congr 1 <;> omega

/-- If a string sequence is found, it has the payload that stands there. -/
theorem stringSequence_eq_of_payload {payload t p : List UInt8} {len : Nat} (a b : UInt8)
    (tail : List UInt8) (hpayload : ∀ c ∈ payload, c ≠ bel ∧ c ≠ esc) (ht : IsTerminator t)
    (h : stringSequence (a :: b :: (payload ++ (t ++ tail))) 2 = some (p, len)) :
    p = payload := by
  rw [stringSequence, Option.map_eq_some_iff] at h
  obtain ⟨e, hend, hpair⟩ := h
  have hdrop : (a :: b :: (payload ++ (t ++ tail))).drop 2 = payload ++ (t ++ tail) := rfl
  rw [hdrop] at hend hpair
  rw [stringEnd_eq_of_payload tail hpayload ht hend] at hpair
  have hp := (Prod.mk.inj hpair).1
  simp at hp
  exact hp.symm

namespace TermFilter

/-! ## Chunks -/

/-- The payload of an OSC 10, 11 or 12 colour report. -/
def ColourReport (payload : List UInt8) : Prop :=
  ∃ ps colour, (ps = ascii "10" ∨ ps = ascii "11" ∨ ps = ascii "12") ∧
    (payload = ps ++ ascii ";rgb:" ++ colour ∨ payload = ps ++ ascii ";rgba:" ++ colour)

/-- The payload of a macro checksum report. -/
def ChecksumReport (payload : List UInt8) : Prop :=
  ∃ digits checksum, (∀ b ∈ digits, isDigit b = true) ∧
    payload = digits ++ ascii "!~" ++ checksum

/-- An item of a chunk. -/
inductive Item where
  | byte (b : UInt8)
  | esc
  | csi (params : List UInt8) (final : UInt8)
  | osc (payload terminator : List UInt8)
  | dcs (payload terminator : List UInt8)
  deriving DecidableEq, Repr

namespace Item

/-- The bytes of an item. -/
def bytes : Item → List UInt8
  | .byte b => [b]
  | .esc => [OpenabPty.esc]
  | .csi params final => OpenabPty.esc :: 0x5b :: (params ++ [final])
  | .osc payload terminator => OpenabPty.esc :: 0x5d :: (payload ++ terminator)
  | .dcs payload terminator => OpenabPty.esc :: 0x50 :: (payload ++ terminator)

/-- A well-formed item that is no response. -/
def Passes : Item → Prop
  | .byte b => b ≠ OpenabPty.esc
  | .esc => True
  | .csi params final =>
    (∀ c ∈ params, 0x20 ≤ c ∧ c ≤ 0x3f) ∧ (0x40 ≤ final ∧ final ≤ 0x7e) ∧
      final ≠ 0x63 ∧ final ≠ 0x6e ∧ ¬ (final = 0x75 ∧ params.head? = some 0x3f) ∧
        ¬ (final = 0x7b ∧ 0x2a ∈ params)
  | .osc payload terminator =>
    (∀ c ∈ payload, c ≠ bel ∧ c ≠ OpenabPty.esc) ∧ IsTerminator terminator ∧
      ¬ ColourReport payload
  | .dcs payload terminator =>
    (∀ c ∈ payload, c ≠ bel ∧ c ≠ OpenabPty.esc) ∧ IsTerminator terminator ∧
      ¬ ChecksumReport payload

end Item

/-- The bytes of some items. -/
def bytes (items : List Item) : List UInt8 := items.flatMap Item.bytes

/-- A lone `ESC` is the last byte, or does not open a sequence with the byte behind it. -/
def LoneEscs (items : List Item) : Prop :=
  ∀ before after, items = before ++ .esc :: after → ∀ b, (bytes after).head? = some b →
    b ≠ 0x5b ∧ b ≠ 0x5d ∧ b ≠ 0x50

/-! ## No item is a response -/

variable {params payload t : List UInt8} {final : UInt8}

theorem classify_csi_passes (tail : List UInt8) (h : (Item.csi params final).Passes) :
    classify (esc :: 0x5b :: (params ++ final :: tail)) = none := by
  obtain ⟨hparams, hfinal, hc, hn, hu, hbrace⟩ := h
  have hparam : ∀ c ∈ params, (decide (0x20 ≤ c) && decide (c ≤ 0x3f)) = true := by
    intro c hc
    simpa using hparams c hc
  have hnot : (decide (0x20 ≤ final) && decide (final ≤ 0x3f)) = false := by
    have hlt : ¬ final ≤ 0x3f := by
      intro hle
      exact absurd (UInt8.le_trans hfinal.1 hle) (by decide)
    simp [hlt]
  show classifyCsi (esc :: 0x5b :: (params ++ final :: tail)) = none
  rw [classifyCsi]
  split
  · rfl
  · rename_i j b hfound
    have hown := finalByte_eq_of_params hparam hnot hfound
    obtain ⟨rfl, rfl⟩ := Prod.mk.inj hown
    rw [if_neg]
    rintro (h | h | ⟨h, hmark⟩ | ⟨h, hstar⟩)
    · exact hc h
    · exact hn h
    · refine hu ⟨h, ?_⟩
      cases params with
      | nil =>
        rw [h] at hmark
        simp at hmark
      | cons c params => simpa using hmark
    · refine hbrace ⟨h, ?_⟩
      simpa using hstar

theorem classify_osc_passes (tail : List UInt8) (h : (Item.osc payload t).Passes) :
    classify (esc :: 0x5d :: (payload ++ (t ++ tail))) = none := by
  obtain ⟨hpayload, ht, hreport⟩ := h
  show classifyOsc (esc :: 0x5d :: (payload ++ (t ++ tail))) = none
  rw [classifyOsc]
  split
  · rfl
  · rename_i p len hfound
    obtain rfl := stringSequence_eq_of_payload _ _ tail hpayload ht hfound
    dsimp only
    split_ifs with hps hcolour
    · rfl
    · exfalso
      obtain ⟨hcode, hrgb⟩ := hcolour
      have hsplit := List.takeWhile_append_dropWhile (p := isDigit) (l := p)
      refine hreport ⟨p.takeWhile isDigit, ?_⟩
      rcases hrgb with hrgb | hrgb
      · obtain ⟨colour, hrest⟩ := List.isPrefixOf_iff_prefix.mp hrgb
        refine ⟨colour, hcode, .inl ?_⟩
        rw [List.append_assoc, hrest, hsplit]
      · obtain ⟨colour, hrest⟩ := List.isPrefixOf_iff_prefix.mp hrgb
        refine ⟨colour, hcode, .inr ?_⟩
        rw [List.append_assoc, hrest, hsplit]
    · rfl

theorem classify_dcs_passes (tail : List UInt8) (h : (Item.dcs payload t).Passes) :
    classify (esc :: 0x50 :: (payload ++ (t ++ tail))) = none := by
  obtain ⟨hpayload, ht, hreport⟩ := h
  show classifyDcs (esc :: 0x50 :: (payload ++ (t ++ tail))) = none
  rw [classifyDcs]
  split
  · rfl
  · rename_i p len hfound
    obtain rfl := stringSequence_eq_of_payload _ _ tail hpayload ht hfound
    rw [if_neg]
    intro hprefix
    obtain ⟨checksum, hrest⟩ := List.isPrefixOf_iff_prefix.mp hprefix
    have hsplit := List.takeWhile_append_dropWhile (p := isDigit) (l := p)
    refine hreport ⟨p.takeWhile isDigit, checksum, ?_, ?_⟩
    · intro b hb
      exact List.mem_takeWhile_imp hb
    · rw [List.append_assoc, hrest, hsplit]

/-- An `ESC` that does not open a sequence. -/
theorem classify_lone {tail : List UInt8}
    (h : ∀ b, tail.head? = some b → b ≠ 0x5b ∧ b ≠ 0x5d ∧ b ≠ 0x50) :
    classify (esc :: tail) = none := by
  cases tail with
  | nil => rfl
  | cons b tail =>
    obtain ⟨hcsi, hosc, hdcs⟩ := h b rfl
    simp only [classify, List.getElem?_cons_succ, List.getElem?_cons_zero]
    split
    · rename_i heq
      exact absurd (Option.some.inj heq) hcsi
    · rename_i heq
      exact absurd (Option.some.inj heq) hosc
    · rename_i heq
      exact absurd (Option.some.inj heq) hdcs
    · rfl

/-! ## The scan -/

/-- The scan passes all of it on. -/
def Untouched (s : List UInt8) : Prop :=
  ∀ f, Scanner.scan inspect f (.pass 0) s = (f, s, [])

theorem Untouched.nil : Untouched [] := by
  intro f
  simp

/-- One more byte in front that the scan passes on. -/
theorem Untouched.cons {b : UInt8} {s : List UInt8} (h : Untouched s)
    (hpass : b = esc → classify (b :: s) = none) : Untouched (b :: s) := by
  intro f
  have hinspect : inspect f (b :: s) = (f, .pass 1) := by
    by_cases hb : b = esc
    · simp [inspect, hb, hb ▸ hpass hb]
    · simp [inspect, hb]
  rw [Scanner.scan_of_pass hinspect, h f]

/-- Bytes in front that are no `ESC`. -/
theorem Untouched.append {plain s : List UInt8} (h : Untouched s)
    (hplain : ∀ b ∈ plain, b ≠ esc) : Untouched (plain ++ s) := by
  induction plain with
  | nil => exact h
  | cons b plain ih =>
    have htail := ih fun c hc => hplain c (List.mem_cons_of_mem b hc)
    exact htail.cons fun hb => absurd hb (hplain b List.mem_cons_self)

/-- The terminator of a string sequence is no response. -/
theorem Untouched.terminator {s : List UInt8} (h : Untouched s) (ht : IsTerminator t) :
    Untouched (t ++ s) := by
  rcases ht with rfl | rfl
  · refine h.append ?_
    intro b hb
    rw [List.mem_singleton.mp hb]
    decide
  · have hst : Untouched (0x5c :: s) := h.cons fun hb => absurd hb (by decide)
    exact hst.cons fun _ => rfl

/-- The string sequence of an item in front. -/
theorem Untouched.string {s : List UInt8} {opens : UInt8} (h : Untouched s)
    (hopens : opens ≠ esc) (hpayload : ∀ c ∈ payload, c ≠ bel ∧ c ≠ esc) (ht : IsTerminator t)
    (hpass : classify (esc :: opens :: (payload ++ (t ++ s))) = none) :
    Untouched (esc :: opens :: (payload ++ (t ++ s))) := by
  have hbody : Untouched (payload ++ (t ++ s)) :=
    (h.terminator ht).append fun c hc => (hpayload c hc).2
  have hopened : Untouched (opens :: (payload ++ (t ++ s))) :=
    hbody.cons fun hb => absurd hb hopens
  exact hopened.cons fun _ => hpass

theorem untouched_bytes {items : List Item} (hpasses : ∀ item ∈ items, item.Passes)
    (hlone : LoneEscs items) : Untouched (bytes items) := by
  induction items with
  | nil => exact .nil
  | cons item items ih =>
    have htail : Untouched (bytes items) := by
      refine ih (fun i hi => hpasses i (List.mem_cons_of_mem item hi)) ?_
      intro before after hsplit
      exact hlone (item :: before) after (by rw [hsplit, List.cons_append])
    have hitem := hpasses item List.mem_cons_self
    have hbytes : bytes (item :: items) = item.bytes ++ bytes items := List.flatMap_cons
    rw [hbytes]
    cases item with
    | byte b => exact htail.cons fun hb => absurd hb hitem
    | esc =>
      refine htail.cons fun _ => classify_lone ?_
      exact hlone [] items rfl
    | csi params final =>
      have hclassify := classify_csi_passes (bytes items) hitem
      obtain ⟨hparams, hfinal, -⟩ := hitem
      have hplain : ∀ b ∈ 0x5b :: (params ++ [final]), b ≠ esc := by
        intro b hb
        rcases List.mem_cons.mp hb with rfl | hb
        · decide
        · rcases List.mem_append.mp hb with hb | hb
          · rintro rfl
            exact absurd (hparams _ hb).1 (by decide)
          · rw [List.mem_singleton.mp hb]
            rintro rfl
            exact absurd hfinal.1 (by decide)
      have hbody := htail.append hplain
      refine hbody.cons fun _ => ?_
      simpa [List.append_assoc] using hclassify
    | osc payload t =>
      have hclassify := classify_osc_passes (bytes items) hitem
      simpa [Item.bytes, List.append_assoc] using
        htail.string (by decide) hitem.1 hitem.2.1 hclassify
    | dcs payload t =>
      have hclassify := classify_dcs_passes (bytes items) hitem
      simpa [Item.bytes, List.append_assoc] using
        htail.string (by decide) hitem.1 hitem.2.1 hclassify

/-- **The filter is transparent to everything but responses.** -/
theorem filter_transparent (f : TermFilter) (items : List Item)
    (hpasses : ∀ item ∈ items, item.Passes) (hlone : LoneEscs items) :
    f.filter (bytes items) = (f, bytes items) := by
  rw [filter_eq_scan, untouched_bytes hpasses hlone f]

/-- A cursor key, a reply to `OSC 4`, a lone `ESC` and a letter. -/
def keys : List Item :=
  [.csi [] 0x41, .osc (ascii "4;1;rgb:00/00/00") [bel], .esc, .byte 0x61]

theorem filter_keys : new.filter (bytes keys) = (new, bytes keys) := by
  refine filter_transparent new keys ?_ ?_
  · intro item hitem
    simp only [keys, List.mem_cons, List.not_mem_nil, or_false] at hitem
    rcases hitem with rfl | rfl | rfl | rfl
    · exact ⟨by simp, by decide, by decide, by decide, by simp, by simp⟩
    · refine ⟨by decide +kernel, .inl rfl, ?_⟩
      rintro ⟨ps, colour, rfl | rfl | rfl, h | h⟩ <;> exact absurd (List.cons.inj h).1 (by decide)
    · trivial
    · show (0x61 : UInt8) ≠ esc
      decide
  · intro before after hsplit b hb
    -- There is one lone `ESC`, and a letter comes after it.
    have hafter : after = [.byte 0x61] := by
      rcases before with _ | ⟨_, _ | ⟨_, _ | ⟨_, _ | ⟨_, before⟩⟩⟩⟩ <;> simp [keys] at hsplit
      exact hsplit.2.2.symm
    rw [hafter] at hb
    obtain rfl := Option.some.inj hb
    decide

end TermFilter

end OpenabPty
